import BankReplica.Campaigns
import BankReplica.ClientAddresses
import BankReplica.ClientTranscript
import BankReplica.ExactlyOnce

/-!
# Servers and clients on one network

The servers with their elections and crashes, and client programs on machines of their own.
What arrives at a server from a client, or at a client from a server, was sent before; it may
be lost, delayed, reordered and delivered more than once. What one server sends to another may
be lost, delayed and reordered, and is delivered at most once. A client machine is known to the
servers by its address alone, so a packet to a machine may reach any client program on it.
-/

namespace BankReplica

open Runs

variable (fl : FloatRounding)

/-- A client program and the address of its machine. -/
structure Terminal where
  addr : InAddr
  program : ClientProgram

/-- A packet that a server has sent, with the position of the server. -/
structure Posting where
  source : ℕ
  send : Send
deriving DecidableEq

/-- The servers and the client programs, with the packets that servers have sent and the requests
that servers have executed so far. -/
structure Deployment where
  servers : Campaign
  terminals : List Terminal := []
  posted : List Posting := []
  executed : List (InAddr × ReqData) := []

/-- The events of a run. -/
inductive DeploymentEvent
  | server (e : CampaignEvent)
  | client (j : ℕ) (e : ProgramEvent)

/-- The packet names its sender as the primary, in an announcement or in an answer to a discovery. -/
def Packet.leads : Packet → Bool
  | .discoveryAck | .newPrimaryAnnouncement _ => true
  | _ => false

/-- A server has sent the packet from an address to a machine, or has broadcast it at a port. -/
def Deployment.Heard (d : Deployment) (source : InAddr) (t : Terminal) (post : Posting) : Prop :=
  (∃ h ∈ d.servers.cluster.hosts[post.source]?, h.addr.sinAddr = source) ∧
    (post.send.dest.sinAddr = t.addr ∨ post.send.dest = broadcastAddr t.program.port)

instance (d : Deployment) (source : InAddr) (t : Terminal) (post : Posting) : Decidable (d.Heard source t post) :=
  inferInstanceAs (Decidable ((∃ h ∈ d.servers.cluster.hosts[post.source]?, _) ∧ _))

/-- A terminal has heard a server at an address name itself the primary. -/
def Deployment.Presented (d : Deployment) (j : ℕ) (source : InAddr) : Prop :=
  ∃ t ∈ d.terminals[j]?, ∃ post ∈ d.posted, d.Heard source t post ∧ post.send.packet.leads = true

instance (d : Deployment) (j : ℕ) (source : InAddr) : Decidable (d.Presented j source) :=
  inferInstanceAs (Decidable (∃ t ∈ d.terminals[j]?, ∃ post ∈ d.posted, _))

/-- Whatever arrives between clients and servers was sent. -/
def Deployment.Causal (d : Deployment) : DeploymentEvent → Prop
  | .server (.step (.discovery _ client)) => ∃ t ∈ d.terminals, t.addr = client.sinAddr
  | .server (.step (.request i client req)) =>
    ∃ t ∈ d.terminals, t.addr = client.sinAddr ∧
      ∃ h ∈ d.servers.cluster.hosts[i]?, (h.addr, req) ∈ t.program.sent
  | .server _ => True
  | .client j (.discovered addr) => d.Presented j addr
  | .client j (.rediscovered addr) => d.Presented j addr
  | .client j (.announced addr) => d.Presented j addr
  | .client j (.arrive ack) =>
    ∃ t ∈ d.terminals[j]?, ∃ post ∈ d.posted, post.send.packet = .transactionAck ack ∧
      post.send.dest.sinAddr = t.addr
  | .client _ _ => True

instance (d : Deployment) : (e : DeploymentEvent) → Decidable (d.Causal e)
  | .server (.step (.discovery _ client)) => inferInstanceAs (Decidable (∃ t ∈ d.terminals, t.addr = client.sinAddr))
  | .server (.step (.request i client req)) =>
    inferInstanceAs (Decidable (∃ t ∈ d.terminals, t.addr = client.sinAddr ∧
      ∃ h ∈ d.servers.cluster.hosts[i]?, (h.addr, req) ∈ t.program.sent))
  | .server (.step (.act _ _)) => .isTrue trivial
  | .server (.step (.deliver _)) => .isTrue trivial
  | .server (.crash _ _) => .isTrue trivial
  | .client j e =>
    match e with
    | .discovered addr => inferInstanceAs (Decidable (d.Presented j addr))
    | .rediscovered addr => inferInstanceAs (Decidable (d.Presented j addr))
    | .announced addr => inferInstanceAs (Decidable (d.Presented j addr))
    | .arrive ack =>
      inferInstanceAs (Decidable (∃ t ∈ d.terminals[j]?, ∃ post ∈ d.posted,
        post.send.packet = .transactionAck ack ∧ post.send.dest.sinAddr = t.addr))
    | .discoveryFails | .read _ | .inputEnds | .fetch | .fetched | .copyAddress | .client _ | .rediscoveryFails
    | .store | .queue _ | .sigint _ | .joinInput | .joinCommunication => .isTrue trivial

/-- The request that a step of a process executes. -/
def Node.executes (n : Node) : NodeEvent → Option (InAddr × ReqData)
  | .act (.runThread i) =>
    match n.threads[i]? with
    | some (.request req clientAddr) =>
      if n.server.toLedger.Accepts fl (requestCall clientAddr.sinAddr req) then some (clientAddr.sinAddr, req)
      else none
    | _ => none
  | _ => none

/-- The deployment after a turn of a server. -/
def Deployment.after (d : Deployment) (turn : Turn) (host : Host) (node : Node) (sends : List Send) : Deployment :=
  { d with
    servers := d.servers.after turn host node sends
    posted := d.posted ++ sends.map fun send => ⟨turn.host, send⟩
    executed := d.executed ++ (host.node.executes fl turn.event).toList }

/-- One step. -/
def Deployment.step (d : Deployment) : DeploymentEvent → Option Deployment
  | .server (.step e) => do
    let turn ← d.servers.turn (.step e)
    let host ← d.servers.cluster.hosts[turn.host]?
    let (node, sends) ← host.node.step fl turn.event
    some (d.after fl turn host node sends)
  | .server (.crash i lost) => do
    let servers ← d.servers.step fl (.crash i lost)
    some { d with servers := servers }
  | .client j e => do
    let t ← d.terminals[j]?
    let program ← t.program.step e
    some { d with terminals := d.terminals.set j { t with program := program } }

/-- Servers before `init` and clients before `start`. -/
structure Deployment.Initial (d : Deployment) : Prop where
  servers : d.servers.Initial
  terminals : ∀ t ∈ d.terminals, t.program.Fresh
  posted : d.posted = []
  executed : d.executed = []

/-- The deployments in any run. -/
def Deployment.Reachable (d : Deployment) : Prop :=
  Runs.Reachable (Deployment.step fl) Deployment.Causal Deployment.Initial d

/-- A step is a turn of one server, a crash, or a step of one client program. -/
inductive DeploymentStep (d : Deployment) : DeploymentEvent → Deployment → Prop
  | turn (e : ClusterEvent) (turn : Turn) (host : Host) (node : Node) (sends : List Send)
      (hturn : d.servers.turn (.step e) = some turn) (hhost : d.servers.cluster.hosts[turn.host]? = some host)
      (hnode : host.node.step fl turn.event = some (node, sends)) :
    DeploymentStep d (.server (.step e)) (d.after fl turn host node sends)
  | crash (i : ℕ) (lost : List Envelope) (host : Host) (hhost : d.servers.cluster.hosts[i]? = some host) :
    DeploymentStep d (.server (.crash i lost))
      { d with
        servers :=
          { d.servers with
            cluster := d.servers.cluster.crashed i host lost
            electors := d.servers.electorsWithout i } }
  | client (j : ℕ) (e : ProgramEvent) (t : Terminal) (program : ClientProgram) (ht : d.terminals[j]? = some t)
      (hprogram : t.program.step e = some program) :
    DeploymentStep d (.client j e) { d with terminals := d.terminals.set j { t with program := program } }

/-! ## The parts of a run -/

section

variable {fl} {d d' : Deployment}

/-- A step does one of these things. -/
theorem Deployment.step_cases {e : DeploymentEvent} (h : d.step fl e = some d') :
    DeploymentStep fl d e d' := by
  cases e with
  | server e =>
    cases e with
    | step e =>
      obtain ⟨turn, hturn, hrest⟩ := Option.bind_eq_some_iff.mp h
      obtain ⟨host, hhost, hrest⟩ := Option.bind_eq_some_iff.mp hrest
      obtain ⟨⟨node, sends⟩, hnode, hd⟩ := Option.bind_eq_some_iff.mp hrest
      exact (Option.some.inj hd) ▸ .turn e turn host node sends hturn hhost hnode
    | crash i lost =>
      obtain ⟨servers, hservers, hd⟩ := Option.bind_eq_some_iff.mp h
      obtain ⟨host, hhost, hs⟩ := Option.bind_eq_some_iff.mp hservers
      obtain rfl := Option.some.inj hs
      exact (Option.some.inj hd) ▸ .crash i lost host hhost
  | client j e =>
    obtain ⟨t, ht, hrest⟩ := Option.bind_eq_some_iff.mp h
    obtain ⟨program, hprogram, hd⟩ := Option.bind_eq_some_iff.mp hrest
    exact (Option.some.inj hd) ▸ .client j e t program ht hprogram

/-- The servers of a deployment make a run of their own. -/
theorem Deployment.Reachable.servers (h : d.Reachable fl) :
    Runs.Reachable (Campaign.step fl) Always Campaign.Initial d.servers := by
  induction h with
  | init hd => exact .init hd.servers
  | step _ _ hstep ih =>
    cases Deployment.step_cases hstep with
    | turn e turn host node sends hturn hhost hnode =>
      exact .step (e := .step e) ih trivial (by simp [Campaign.step, hturn, hhost, hnode, Deployment.after])
    | crash i lost host hhost => exact .step (e := .crash i lost) ih trivial (by simp [Campaign.step, hhost])
    | client j e t program ht hprogram => exact ih

/-- The client programs of a deployment make runs of their own. -/
theorem Deployment.Reachable.programs (h : d.Reachable fl) : ∀ t ∈ d.terminals, t.program.Reachable := by
  induction h with
  | init hd => exact fun t ht => .init (hd.terminals t ht)
  | step _ _ hstep ih =>
    cases Deployment.step_cases hstep with
    | turn | crash => exact ih
    | client j e t program ht hprogram =>
      intro t' ht'
      cases List.mem_or_eq_of_mem_set ht' with
      | inl hold => exact ih t' hold
      | inr hnew =>
        rw [hnew]
        exact .step (ih t (List.mem_of_getElem? ht)) trivial hprogram

/-! ## What a step keeps -/

/-- The server at a position keeps its address. -/
theorem Deployment.addr_step {e : DeploymentEvent} (hstep : d.step fl e = some d') {i : ℕ} {h : Host}
    (hi : d.servers.cluster.hosts[i]? = some h) :
    ∃ h', d'.servers.cluster.hosts[i]? = some h' ∧ h'.addr = h.addr := by
  have hset : ∀ (k : ℕ) (host : Host) (node : Node), d.servers.cluster.hosts[k]? = some host →
      ∃ h', (d.servers.cluster.hosts.set k { host with node := node })[i]? = some h' ∧ h'.addr = h.addr := by
    intro k host node hk
    by_cases hik : i = k
    · rw [hik, hk] at hi
      obtain rfl := Option.some.inj hi
      refine ⟨{ host with node := node }, ?_, rfl⟩
      rw [hik]
      exact List.getElem?_set_self (List.getElem?_eq_some_iff.mp hk).1
    · exact ⟨h, (List.getElem?_set_ne (Ne.symm hik)).trans hi, rfl⟩
  cases Deployment.step_cases hstep with
  | turn e turn host node sends hturn hhost hnode => exact hset turn.host host node hhost
  | crash k lost host hhost => exact hset k host _ hhost
  | client j e t program ht hprogram => exact ⟨h, hi, rfl⟩

/-- A packet that was sent stays sent. -/
theorem ClientProgram.sent_subset {p q : ClientProgram} {e : ProgramEvent} (h : p.step e = some q) :
    p.sent ⊆ q.sent := by
  cases ClientProgram.journal_step h with
  | inl hsame =>
    rw [ClientProgram.sent, ClientProgram.sent, hsame]
    exact List.Subset.refl _
  | inr hnew =>
    obtain ⟨entry, hnew⟩ := hnew
    exact ClientProgram.sent_of_journal hnew ▸ List.subset_append_left _ _

/-- A request that a client program on a machine has sent. -/
def Deployment.Sent (d : Deployment) (addr : InAddr) (req : ReqData) : Prop :=
  ∃ t ∈ d.terminals, t.addr = addr ∧ req ∈ t.program.sent.map Prod.snd

/-- A machine with a client program. -/
def Deployment.Client (d : Deployment) (ip : IpString) : Prop := ∃ t ∈ d.terminals, ip = inetNtop t.addr

/-- What a step adds to. -/
theorem Deployment.grows {e : DeploymentEvent} (hstep : d.step fl e = some d') :
    d.executed ⊆ d'.executed ∧ d.servers.promoted ⊆ d'.servers.promoted ∧
      (∀ addr req, d.Sent addr req → d'.Sent addr req) ∧ ∀ ip, d.Client ip → d'.Client ip := by
  cases Deployment.step_cases hstep with
  | turn e turn host node sends hturn hhost hnode =>
    refine ⟨List.subset_append_left _ _, ?_, fun _ _ h => h, fun _ h => h⟩
    simp only [Deployment.after, Campaign.after]
    split
    · exact List.subset_append_left _ _
    · exact List.Subset.refl _
  | crash i lost host hhost => exact ⟨List.Subset.refl _, List.Subset.refl _, fun _ _ h => h, fun _ h => h⟩
  | client j e t program ht hprogram =>
    have hkept : ∀ t' ∈ d.terminals, ∃ t'' ∈ d.terminals.set j { t with program := program },
        t''.addr = t'.addr ∧ t'.program.sent ⊆ t''.program.sent := by
      intro t' ht'
      obtain ⟨k, hk⟩ := List.mem_iff_getElem?.mp ht'
      by_cases hkj : k = j
      · rw [hkj, ht] at hk
        obtain rfl := Option.some.inj hk
        have hlt := (List.getElem?_eq_some_iff.mp ht).1
        exact ⟨_, List.mem_of_getElem? (List.getElem?_set_self hlt), rfl, ClientProgram.sent_subset hprogram⟩
      · exact ⟨t', List.mem_of_getElem? ((List.getElem?_set_ne (Ne.symm hkj)).trans hk), rfl, List.Subset.refl _⟩
    refine ⟨List.Subset.refl _, List.Subset.refl _, ?_, ?_⟩
    · rintro addr req ⟨t', ht', haddr, hreq⟩
      obtain ⟨t'', ht'', hsame, hsub⟩ := hkept t' ht'
      exact ⟨t'', ht'', hsame.trans haddr, List.map_subset _ hsub hreq⟩
    · rintro ip ⟨t', ht', hip⟩
      obtain ⟨t'', ht'', hsame, -⟩ := hkept t' ht'
      exact ⟨t'', ht'', hip.trans (congrArg inetNtop hsame.symm)⟩

end

end BankReplica
