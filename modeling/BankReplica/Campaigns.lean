import BankReplica.Cluster
import BankReplica.Elections
import Mathlib.Logic.Function.Basic

/-!
# Elections in a network that reorders

The servers of a network in which any packet in flight may be the next to arrive, with the
history of their elections: which servers were in their receive loop from the broadcast of
a candidate on, which candidates went on to call `promoteToPrimary`, and which changed
their role. A server may crash and come back with its address and id.
-/

namespace BankReplica

open Runs

variable (fl : FloatRounding)

/-- An election that ended in the call of `promoteToPrimary`, and the servers in their receive
loop throughout its window. -/
structure Victory where
  winner : ℕ
  electors : List ℕ
deriving DecidableEq

/-- The servers and the history of their elections: the servers that were in their receive loop
throughout the last window of each, the elections won, and the role changes. -/
structure Campaign where
  cluster : Cluster
  electors : ℕ → List ℕ := fun _ => []
  won : List Victory := []
  promoted : List ℕ := []

/-- The events of a run. -/
inductive CampaignEvent
  | step (e : ClusterEvent)
  /-- A server stands before `init` again, and packets on their way to it may be lost. -/
  | crash (i : ℕ) (lost : List Envelope)

/-- The turn of an event when packets arrive in any order. -/
def Cluster.turnAnyOrder (c : Cluster) : ClusterEvent → Option Turn
  | .deliver k => do
    let envelope ← c.inFlight[k]?
    let source ← c.hosts[envelope.source]?
    some ⟨envelope.dest, .receive envelope.packet source.addr, c.inFlight.eraseIdx k⟩
  | e => c.turn e

/-- The servers in their receive loop. -/
def Cluster.inLoop (c : Cluster) : List ℕ :=
  (c.hosts.zipIdx.filter fun h => ¬ h.1.node.Booting).map Prod.snd

/-- The step finds that the election was not lost. -/
def Node.wins (n : Node) (e : NodeEvent) : Bool :=
  n.runs e = some .electionClosed ∧ n.server.electionLost = false

/-- The turn of an event. -/
def Campaign.turn (c : Campaign) : CampaignEvent → Option Turn
  | .step e => c.cluster.turnAnyOrder e
  | .crash _ _ => none

/-- The servers after a crash. -/
def Cluster.crashed (c : Cluster) (i : ℕ) (host : Host) (lost : List Envelope) : Cluster where
  hosts := c.hosts.set i { host with node := Node.new host.node.server.serverId host.node.server.port }
  inFlight := c.inFlight.filter fun e => ¬ (e.dest = i ∧ e ∈ lost)

/-- The window of the server at a position is open. -/
def Cluster.WindowOpen (c : Cluster) (i : ℕ) : Prop := ∃ h ∈ c.hosts[i]?, .electionWindow ∈ h.node.threads

instance (c : Cluster) (i : ℕ) : Decidable (c.WindowOpen i) :=
  inferInstanceAs (Decidable (∃ h ∈ c.hosts[i]?, _))

/-- A server that crashes is not in its receive loop throughout the windows that are open. -/
def Campaign.electorsWithout (c : Campaign) (i s : ℕ) : List ℕ :=
  if c.cluster.WindowOpen s then (c.electors s).filter fun j => j ≠ i else c.electors s

/-- The servers and their history after a turn. -/
def Campaign.after (c : Campaign) (turn : Turn) (host : Host) (node : Node) (sends : List Send) : Campaign where
  cluster := c.cluster.after turn host node sends
  electors :=
    if host.node.runs turn.event = some .electionCleared then
      Function.update c.electors turn.host c.cluster.inLoop
    else c.electors
  won := if host.node.wins turn.event then c.won ++ [⟨turn.host, c.electors turn.host⟩] else c.won
  promoted := if host.node.promotes turn.event then c.promoted ++ [turn.host] else c.promoted

/-- One step of a run. -/
def Campaign.step (c : Campaign) (e : CampaignEvent) : Option Campaign :=
  match e with
  | .step _ => do
    let turn ← c.turn e
    let host ← c.cluster.hosts[turn.host]?
    let (node, sends) ← host.node.step fl turn.event
    some (c.after turn host node sends)
  | .crash i lost => do
    let host ← c.cluster.hosts[i]?
    some
      { c with
        cluster := c.cluster.crashed i host lost
        electors := c.electorsWithout i }

/-- Servers before `init`, all on one port. -/
structure Campaign.Initial (c : Campaign) : Prop where
  servers : c.cluster.Initial
  onePort : ∀ g ∈ c.cluster.hosts, ∀ h ∈ c.cluster.hosts, g.addr.sinPort = h.addr.sinPort
  electors : ∀ i, c.electors i = []
  won : c.won = []
  promoted : c.promoted = []

/-! ## Ids and polls -/

/-- The id of the server at a position. -/
def Cluster.serverIdAt (c : Cluster) (i : ℕ) : Option Word := c.hosts[i]?.map fun h => h.node.server.serverId

/-- The server at `j` has a larger id than the one at `i`. -/
def Cluster.Outranks (c : Cluster) (j i : ℕ) : Prop := ∃ b ∈ c.serverIdAt j, ∃ a ∈ c.serverIdAt i, a < b

-- the search through the positions, not through all words
instance (c : Cluster) (j i : ℕ) : Decidable (c.Outranks j i) :=
  decidable_of_iff ((c.serverIdAt j).any fun b => (c.serverIdAt i).any fun a => a < b)
    (by simp [Cluster.Outranks, Option.any_eq_true])

/-- The poll of `j` by `i` is on its way, or the answer to it. -/
def Cluster.Pending (c : Cluster) (i j : ℕ) : Prop :=
  (∃ e ∈ c.inFlight, e.source = i ∧ e.dest = j ∧ ∃ a ∈ c.serverIdAt i, e.packet = .election a) ∨
    ∃ e ∈ c.inFlight, e.dest = i ∧ ∃ b ∈ c.serverIdAt j, e.packet = .electionAnswer b

/-- The packet is part of a poll by the server at `i`. -/
def Envelope.ofPoll (e : Envelope) (i : ℕ) (inLoop : List ℕ) : Bool :=
  match e.packet with
  | .election _ => e.source = i ∧ e.dest ∈ inLoop
  | .electionAnswer _ => e.dest = i
  | _ => false

/-- When the window of a candidate closes, every server in its receive loop has handled its
`ELECTION` and it has handled every `ELECTION_ANSWER`. -/
def PollsHandled (c : Campaign) (e : CampaignEvent) : Prop :=
  ∀ turn ∈ c.turn e, ∀ host ∈ c.cluster.hosts[turn.host]?,
    host.node.runs turn.event = some .electionWindow →
      ∀ e ∈ c.cluster.inFlight, e.ofPoll turn.host c.cluster.inLoop = false

instance (c : Campaign) (e : CampaignEvent) : Decidable (PollsHandled c e) :=
  inferInstanceAs (Decidable (∀ turn ∈ c.turn e, ∀ host ∈ c.cluster.hosts[turn.host]?,
    _ → ∀ e ∈ c.cluster.inFlight, _))

/-! ## What a step leaves -/

/-- The turn of an event is one the state offers. -/
theorem Campaign.turn_offers {c : Campaign} {e : CampaignEvent} {turn : Turn} (h : c.turn e = some turn) :
    c.cluster.Offers turn := by
  cases e with
  | crash i lost => contradiction
  | step e =>
    cases e with
    | deliver k =>
      obtain ⟨envelope, hget, hrest⟩ := Option.bind_eq_some_iff.mp h
      obtain ⟨source, hsource, hturn⟩ := Option.bind_eq_some_iff.mp hrest
      obtain rfl := Option.some.inj hturn
      exact .deliver hget hsource
    | act i action => exact Cluster.turn_offers (e := .act i action) h
    | discovery i client => exact Cluster.turn_offers (e := .discovery i client) h
    | request i client req => exact Cluster.turn_offers (e := .request i client req) h

/-- A turn of the network that keeps order is a turn of this one. -/
theorem Cluster.turnAnyOrder_of_turn {c : Cluster} {e : ClusterEvent} {turn : Turn} (h : c.turn e = some turn) :
    c.turnAnyOrder e = some turn := by
  cases e with
  | deliver k =>
    obtain ⟨envelope, hget, hrest⟩ := Option.bind_eq_some_iff.mp h
    obtain ⟨source, hsource, hturn⟩ := Option.bind_eq_some_iff.mp hrest
    split at hturn
    · contradiction
    · exact Option.bind_eq_some_iff.mpr ⟨envelope, hget, Option.bind_eq_some_iff.mpr ⟨source, hsource, hturn⟩⟩
  | _ => exact h

/-- A step of the network that keeps order is a step of this one. -/
theorem Campaign.step_of_ordered {c : Campaign} {e : ClusterEvent} {cluster : Cluster}
    (h : c.cluster.step fl e = some cluster) : ∃ c' ∈ c.step fl (.step e), c'.cluster = cluster := by
  obtain ⟨turn, host, node, sends, hturn, hhost, hnode, rfl⟩ := Cluster.step_eq fl h
  refine ⟨c.after turn host node sends, ?_, rfl⟩
  simp [Campaign.step, Campaign.turn, Cluster.turnAnyOrder_of_turn hturn, hhost, hnode]

/-- A step is a turn of one process or a crash. -/
theorem Campaign.step_eq {c c' : Campaign} {e : CampaignEvent} (h : c.step fl e = some c') :
    (∃ turn host node sends, c.turn e = some turn ∧ c.cluster.hosts[turn.host]? = some host ∧
      host.node.step fl turn.event = some (node, sends) ∧ c' = c.after turn host node sends) ∨
    ∃ i lost host, e = .crash i lost ∧ c.cluster.hosts[i]? = some host ∧
      c' = { c with
        cluster := c.cluster.crashed i host lost
        electors := c.electorsWithout i } := by
  cases e with
  | step e =>
    obtain ⟨turn, hturn, hrest⟩ := Option.bind_eq_some_iff.mp h
    obtain ⟨host, hhost, hrest⟩ := Option.bind_eq_some_iff.mp hrest
    obtain ⟨⟨node, sends⟩, hnode, hc⟩ := Option.bind_eq_some_iff.mp hrest
    exact .inl ⟨turn, host, node, sends, hturn, hhost, hnode, (Option.some.inj hc).symm⟩
  | crash i lost =>
    obtain ⟨host, hhost, hc⟩ := Option.bind_eq_some_iff.mp h
    exact .inr ⟨i, lost, host, rfl, hhost, (Option.some.inj hc).symm⟩

/-- Which packets a server hears. -/
theorem mem_route_iff {hosts : List Host} {source : ℕ} {sends : List Send} {e : Envelope} :
    e ∈ route hosts source sends ↔
      ∃ send ∈ sends, ∃ h, hosts[e.dest]? = some h ∧ h.hears send.dest = true ∧
        e = ⟨source, e.dest, send.packet⟩ := by
  simp only [route, List.mem_flatMap, List.mem_map, List.mem_filter, Prod.exists, List.mem_zipIdx_iff_getElem?]
  constructor
  · rintro ⟨send, hsend, h, i, ⟨hget, hhears⟩, rfl⟩
    exact ⟨send, hsend, h, hget, hhears, rfl⟩
  · rintro ⟨send, hsend, h, hget, hhears, he⟩
    exact ⟨send, hsend, h, e.dest, ⟨hget, hhears⟩, he.symm⟩

theorem Cluster.mem_inLoop {c : Cluster} {i : ℕ} :
    i ∈ c.inLoop ↔ ∃ h, c.hosts[i]? = some h ∧ ¬ h.node.Booting := by
  simp [Cluster.inLoop, List.mem_zipIdx_iff_getElem?]

/-- A position whose process is replaced by one with the same id. -/
theorem Cluster.serverIdAt_set {c : Cluster} {i : ℕ} {host : Host} (hhost : c.hosts[i]? = some host) (node : Node)
    (hid : node.server.serverId = host.node.server.serverId) (inFlight : List Envelope) :
    Cluster.serverIdAt ⟨c.hosts.set i { host with node := node }, inFlight⟩ = c.serverIdAt := by
  funext j
  by_cases hj : j = i
  · rw [hj]
    simp [Cluster.serverIdAt, hhost, hid, List.getElem?_set_self (List.getElem?_eq_some_iff.mp hhost).1]
  · simp [Cluster.serverIdAt, List.getElem?_set_ne (Ne.symm hj)]

/-- Nobody outranks itself. -/
theorem Cluster.not_outranks_self {c : Cluster} {i : ℕ} : ¬ c.Outranks i i := by
  rintro ⟨b, hb, a, ha, hlt⟩
  obtain rfl := Option.mem_unique ha hb
  bv_omega

/-! ## The ground of a run -/

/-- Every process runs at most one failure-detection activity, all servers are on one port, and
their ids are distinct. -/
structure Cluster.Grounded (c : Cluster) : Prop where
  watch : ∀ h ∈ c.hosts, h.node.Watch
  onePort : ∀ g ∈ c.hosts, ∀ h ∈ c.hosts, g.node.server.port = h.addr.sinPort
  distinct : ∀ i j, ∀ a ∈ c.serverIdAt i, a ∈ c.serverIdAt j → i = j

section

variable {fl} {c : Campaign} {turn : Turn} {host : Host} {node : Node} {sends : List Send}

/-- A server that hears a broadcast on the port of the servers. -/
theorem Host.hears_broadcast {h : Host} {port : UInt16} (hbooted : ¬ h.node.Booting)
    (hport : port = h.addr.sinPort) : h.hears (broadcastAddr port) = true := by
  have hoff : h.node.loop ≠ .off := fun hloop => hbooted (.inl hloop)
  simp [Host.hears, hoff, hport]

/-- A server that hears a packet to its own address. -/
theorem Host.hears_own {h : Host} (hbooted : ¬ h.node.Booting) : h.hears h.addr = true := by
  have hoff : h.node.loop ≠ .off := fun hloop => hbooted (.inl hloop)
  simp [Host.hears, hoff]

/-- A turn keeps every id. -/
theorem Campaign.serverIdAt_after (hhost : c.cluster.hosts[turn.host]? = some host)
    (hnode : host.node.step fl turn.event = some (node, sends)) :
    (c.after turn host node sends).cluster.serverIdAt = c.cluster.serverIdAt :=
  Cluster.serverIdAt_set hhost node (Node.step_effect fl hnode).serverId _

/-- A turn moves no address. -/
theorem Cluster.addr_after {c : Cluster} (hhost : c.hosts[turn.host]? = some host) {j : ℕ} {h : Host}
    (hget : (c.after turn host node sends).hosts[j]? = some h) : ∃ g, c.hosts[j]? = some g ∧ g.addr = h.addr := by
  by_cases hself : j = turn.host
  · rw [hself, Cluster.after_self hhost] at hget
    obtain rfl := Option.some.inj hget
    exact ⟨host, hself ▸ hhost, rfl⟩
  · rw [Cluster.after_other c turn host node sends hself] at hget
    exact ⟨h, hget, rfl⟩

/-- Servers in their receive loop stay there. -/
theorem Campaign.inLoop_after (hhost : c.cluster.hosts[turn.host]? = some host)
    (hnode : host.node.step fl turn.event = some (node, sends)) {j : ℕ} (hj : j ∈ c.cluster.inLoop) :
    j ∈ (c.after turn host node sends).cluster.inLoop := by
  obtain ⟨h, hget, hbooted⟩ := Cluster.mem_inLoop.mp hj
  by_cases hself : j = turn.host
  · rw [hself, hhost] at hget
    obtain rfl := Option.some.inj hget
    refine Cluster.mem_inLoop.mpr ⟨{ host with node := node }, ?_, fun hboot => ?_⟩
    · rw [hself]
      exact Cluster.after_self hhost node sends
    · exact hbooted ((Node.step_effect fl hnode).boots hboot).1
  · refine Cluster.mem_inLoop.mpr ⟨h, ?_, hbooted⟩
    exact (Cluster.after_other c.cluster turn host node sends hself).trans hget

/-- A turn keeps the ground. -/
theorem Cluster.Grounded.after {c : Cluster} (hground : c.Grounded) (hhost : c.hosts[turn.host]? = some host)
    (hnode : host.node.step fl turn.event = some (node, sends)) :
    (c.after turn host node sends).Grounded := by
  have hid : (c.after turn host node sends).serverIdAt = c.serverIdAt :=
    Cluster.serverIdAt_set hhost node (Node.step_effect fl hnode).serverId _
  have hmem := List.mem_of_getElem? hhost
  constructor
  · intro h hh
    cases List.mem_or_eq_of_mem_set hh with
    | inl hold => exact hground.watch h hold
    | inr hnew =>
      rw [hnew]
      exact (hground.watch host hmem).step fl hnode
  · have hport := (Node.step_course fl hnode).port fl
    intro g hg h hh
    obtain ⟨j, hj⟩ := List.mem_iff_getElem?.mp hh
    obtain ⟨h', hh', haddr⟩ := Cluster.addr_after hhost hj
    rw [← haddr]
    cases List.mem_or_eq_of_mem_set hg with
    | inl hold => exact hground.onePort g hold h' (List.mem_of_getElem? hh')
    | inr hnew =>
      rw [hnew]
      exact hport.trans (hground.onePort host hmem h' (List.mem_of_getElem? hh'))
  · rw [hid]
    exact hground.distinct

/-- A crash keeps the ground. -/
theorem Cluster.Grounded.crashed {c : Cluster} (hground : c.Grounded) {i : ℕ} (hhost : c.hosts[i]? = some host)
    (lost : List Envelope) : (c.crashed i host lost).Grounded := by
  have hid : (c.crashed i host lost).serverIdAt = c.serverIdAt :=
    Cluster.serverIdAt_set hhost (Node.new _ _) rfl _
  have hmem := List.mem_of_getElem? hhost
  constructor
  · intro h hh
    cases List.mem_or_eq_of_mem_set hh with
    | inl hold => exact hground.watch h hold
    | inr hnew =>
      rw [hnew]
      exact Node.Fresh.watch rfl
  · intro g hg h hh
    have hports : ∀ h' ∈ (c.crashed i host lost).hosts, ∃ h ∈ c.hosts,
        h'.addr = h.addr ∧ h'.node.server.port = h.node.server.port := by
      intro h' hh'
      cases List.mem_or_eq_of_mem_set hh' with
      | inl hold => exact ⟨h', hold, rfl, rfl⟩
      | inr hnew =>
        rw [hnew]
        exact ⟨host, hmem, rfl, rfl⟩
    obtain ⟨g', hg', -, hport⟩ := hports g hg
    obtain ⟨h', hh', haddr, -⟩ := hports h hh
    rw [hport, haddr]
    exact hground.onePort g' hg' h' hh'
  · rw [hid]
    exact hground.distinct

/-- Servers before `init`. -/
theorem Campaign.Initial.grounded (h : c.Initial) : c.cluster.Grounded := by
  constructor
  · intro x hx
    rw [h.servers.fresh x hx]
    exact Node.Fresh.watch rfl
  · intro g hg x hx
    rw [h.servers.fresh g hg]
    exact h.onePort g hg x hx
  · intro i j a hi hj
    rw [Cluster.serverIdAt, ← List.getElem?_map, Option.mem_def] at hi hj
    have hlength := (List.getElem?_eq_some_iff.mp hi).1
    exact (List.getElem?_inj hlength h.servers.serverIds).mp (hi.trans hj.symm)

end

/-- The ground of every run. -/
theorem Campaign.grounded {guard : Campaign → CampaignEvent → Prop} {c : Campaign}
    (h : Reachable (Campaign.step fl) guard Campaign.Initial c) : c.cluster.Grounded := by
  refine Reachable.invariant (I := fun c => c.cluster.Grounded) (fun c hc => hc.grounded) ?_ h
  intro c e c' hground _ hstep
  rcases Campaign.step_eq fl hstep with ⟨turn, host, node, sends, _, hhost, hnode, rfl⟩ |
    ⟨i, lost, host, rfl, hhost, rfl⟩
  · exact hground.after hhost hnode
  · exact hground.crashed hhost lost

/-- What holds of every fresh process and is kept by every step holds of the servers of every run. -/
theorem Campaign.everyNode {I : Node → Prop} (hfresh : ∀ serverId port, I (Node.new serverId port))
    (hkept : ∀ {n n' e sends}, I n → n.Watch → n.step fl e = some (n', sends) → I n')
    {guard : Campaign → CampaignEvent → Prop} {c : Campaign}
    (h : Reachable (Campaign.step fl) guard Campaign.Initial c) : ∀ x ∈ c.cluster.hosts, I x.node := by
  refine (Reachable.invariant (I := fun c => c.cluster.Grounded ∧ ∀ x ∈ c.cluster.hosts, I x.node) ?_ ?_ h).2
  · intro c hc
    refine ⟨hc.grounded, fun x hx => ?_⟩
    rw [hc.servers.fresh x hx]
    exact hfresh _ _
  · intro c e c' hc _ hstep
    obtain ⟨hground, hnodes⟩ := hc
    rcases Campaign.step_eq fl hstep with ⟨turn, host, node, sends, _, hhost, hnode, rfl⟩ |
      ⟨j, lost, host, rfl, hhost, rfl⟩
    · refine ⟨hground.after hhost hnode, fun x hx => ?_⟩
      cases List.mem_or_eq_of_mem_set hx with
      | inl hold => exact hnodes x hold
      | inr hnew =>
        rw [hnew]
        have hmem := List.mem_of_getElem? hhost
        exact hkept (hnodes host hmem) (hground.watch host hmem) hnode
    · refine ⟨hground.crashed hhost lost, fun x hx => ?_⟩
      cases List.mem_or_eq_of_mem_set hx with
      | inl hold => exact hnodes x hold
      | inr hnew =>
        rw [hnew]
        exact hfresh _ _

/-- What the servers of every run have still to send of their snapshots is updates. -/
theorem Campaign.snapshots {guard : Campaign → CampaignEvent → Prop} {c : Campaign}
    (h : Reachable (Campaign.step fl) guard Campaign.Initial c) : ∀ x ∈ c.cluster.hosts, x.node.Snapshots :=
  Campaign.everyNode fl (fun _ _ => nofun) (fun hnode _ hstep => hnode.step hstep) h

/-- The elections of every run. -/
theorem Campaign.raised {guard : Campaign → CampaignEvent → Prop} {c : Campaign}
    (h : Reachable (Campaign.step fl) guard Campaign.Initial c) : ∀ x ∈ c.cluster.hosts, x.node.Raised :=
  Campaign.everyNode fl (fun _ _ => nofun) (fun hnode hwatch hstep => hnode.step fl hwatch hstep) h

end BankReplica
