import BankReplica.Effects

/-!
# A network of servers

Any number of server processes and the packets between them. A packet waits until its
receiver takes it in, for as long as it likes, and is never lost or duplicated; packets
between one pair of servers keep their order. A server that is not bound receives nothing,
and packets to clients leave the system. Clients may send anything a client sends, at any
time and to any server.
-/

namespace BankReplica

open Runs

variable (fl : FloatRounding)

/-- A packet on its way between two servers, named by their positions. -/
structure Envelope where
  source : ℕ
  dest : ℕ
  packet : Packet
deriving DecidableEq

/-- A server process, and the address of its socket. -/
structure Host where
  addr : SockAddr
  node : Node
deriving DecidableEq

/-- The servers, and the packets in flight in sending order. -/
structure Cluster where
  hosts : List Host
  inFlight : List Envelope := []
deriving DecidableEq

/-- The events of a run. -/
inductive ClusterEvent
  | act (i : ℕ) (action : Action)
  /-- A client's `DISCOVERY` reaches a server. -/
  | discovery (i : ℕ) (client : SockAddr)
  /-- A client's `TRANSACTION_REQ` reaches a server. -/
  | request (i : ℕ) (client : SockAddr) (req : ReqData)
  /-- The packet at a position in flight reaches its server. -/
  | deliver (k : ℕ)
deriving DecidableEq

/-- The socket takes in what is sent to its address or to the broadcast address. -/
def Host.hears (h : Host) (dest : SockAddr) : Bool :=
  h.node.loop ≠ .off ∧ (dest = h.addr ∨ dest = broadcastAddr h.addr.sinPort)

/-- One envelope for each server that hears a packet. -/
def route (hosts : List Host) (source : ℕ) (sends : List Send) : List Envelope :=
  sends.flatMap fun send =>
    (hosts.zipIdx.filter fun h => h.1.hears send.dest).map fun h => ⟨source, h.2, send.packet⟩

/-- The server an event is about, what happens there, and the packets left in flight. -/
structure Turn where
  host : ℕ
  event : NodeEvent
  left : List Envelope

/-- The turns a state offers, whatever the order in which packets arrive. -/
inductive Cluster.Offers (c : Cluster) : Turn → Prop
  | act (i : ℕ) (action : Action) : c.Offers ⟨i, .act action, c.inFlight⟩
  | discovery (i : ℕ) (client : SockAddr) : c.Offers ⟨i, .receive .discovery client, c.inFlight⟩
  | request (i : ℕ) (client : SockAddr) (req : ReqData) :
      c.Offers ⟨i, .receive (.transactionReq req) client, c.inFlight⟩
  | deliver {k : ℕ} {envelope : Envelope} {source : Host} (hget : c.inFlight[k]? = some envelope)
      (hsource : c.hosts[envelope.source]? = some source) :
      c.Offers ⟨envelope.dest, .receive envelope.packet source.addr, c.inFlight.eraseIdx k⟩

/-- The turn of an event. A packet waits for the earlier ones between the same two servers. -/
def Cluster.turn (c : Cluster) : ClusterEvent → Option Turn
  | .act i action => some ⟨i, .act action, c.inFlight⟩
  | .discovery i client => some ⟨i, .receive .discovery client, c.inFlight⟩
  | .request i client req => some ⟨i, .receive (.transactionReq req) client, c.inFlight⟩
  | .deliver k => do
    let envelope ← c.inFlight[k]?
    let source ← c.hosts[envelope.source]?
    if (c.inFlight.take k).any fun earlier =>
        earlier.source = envelope.source ∧ earlier.dest = envelope.dest then none
    else some ⟨envelope.dest, .receive envelope.packet source.addr, c.inFlight.eraseIdx k⟩

/-- The network after a turn that left its process as `node` and sent `sends`. -/
def Cluster.after (c : Cluster) (turn : Turn) (host : Host) (node : Node) (sends : List Send) : Cluster :=
  let hosts := c.hosts.set turn.host { host with node := node }
  { hosts := hosts
    inFlight := turn.left ++ route hosts turn.host sends }

/-- One step of a run. -/
def Cluster.step (c : Cluster) (e : ClusterEvent) : Option Cluster := do
  let turn ← c.turn e
  let host ← c.hosts[turn.host]?
  let (node, sends) ← host.node.step fl turn.event
  some (c.after turn host node sends)

/-- Servers before `init`, with addresses and ids of their own. -/
structure Cluster.Initial (c : Cluster) : Prop where
  inFlight : c.inFlight = []
  fresh : ∀ h ∈ c.hosts, h.node = Node.new h.node.server.serverId h.addr.sinPort
  addrs : (c.hosts.map Host.addr).Nodup
  serverIds : (c.hosts.map fun h => h.node.server.serverId).Nodup

/-- The thread is of a request that is not answered yet. -/
def Thread.ofRequest : Thread → Bool
  | .request .. | .processing .. | .replying .. => true
  | _ => false

/-- The receive loop is not in the middle of a handler. -/
def Loop.atRest : Loop → Bool
  | .updating _ | .registering .. => false
  | _ => true

/-- No packet in flight, no request pending, no update and no snapshot half done. -/
def Cluster.Quiescent (c : Cluster) : Prop :=
  c.inFlight = [] ∧ ∀ h ∈ c.hosts, h.node.loop.atRest = true ∧ ∀ t ∈ h.node.threads, t.ofRequest = false

instance (c : Cluster) : Decidable c.Quiescent :=
  inferInstanceAs (Decidable (_ ∧ ∀ h ∈ c.hosts, _ ∧ ∀ t ∈ h.node.threads, _))

/-- Every acknowledged transaction is in the log of every primary, and every client answered
is one of its clients. -/
def Cluster.Survives (c : Cluster) : Prop :=
  ∀ p ∈ c.hosts, p.node.server.currentRole = .primary → ∀ h ∈ c.hosts,
    (∀ r ∈ h.node.acked, r.transaction ∈ p.node.server.transactionHistory) ∧
      ∀ ip ∈ h.node.answered, ip ∈ p.node.server.addresses

instance (c : Cluster) : Decidable c.Survives :=
  inferInstanceAs (Decidable (∀ p ∈ c.hosts, _ → ∀ h ∈ c.hosts,
    (∀ r ∈ h.node.acked, _) ∧ ∀ ip ∈ h.node.answered, _))

/-! ## What a step leaves -/

/-- What a routed envelope carries was sent. -/
theorem mem_route {hosts : List Host} {source : ℕ} {sends : List Send} {e : Envelope}
    (h : e ∈ route hosts source sends) : ∃ send ∈ sends, e.packet = send.packet := by
  obtain ⟨send, hsend, he⟩ := List.mem_flatMap.mp h
  obtain ⟨host, _, rfl⟩ := List.mem_map.mp he
  exact ⟨send, hsend, rfl⟩

/-- The turn of an event is one the state offers. -/
theorem Cluster.turn_offers {c : Cluster} {e : ClusterEvent} {turn : Turn} (h : c.turn e = some turn) :
    c.Offers turn := by
  cases e with
  | act i action =>
    obtain rfl := Option.some.inj h
    exact .act i action
  | discovery i client =>
    obtain rfl := Option.some.inj h
    exact .discovery i client
  | request i client req =>
    obtain rfl := Option.some.inj h
    exact .request i client req
  | deliver k =>
    obtain ⟨envelope, hget, hrest⟩ := Option.bind_eq_some_iff.mp h
    obtain ⟨source, hsource, hturn⟩ := Option.bind_eq_some_iff.mp hrest
    split at hturn
    · contradiction
    · obtain rfl := Option.some.inj hturn
      exact .deliver hget hsource

/-- The packets a turn leaves in flight were there before. -/
theorem Cluster.Offers.left {c : Cluster} {turn : Turn} (h : c.Offers turn) : turn.left ⊆ c.inFlight := by
  cases h with
  | deliver hget hsource => exact fun e he => List.mem_of_mem_eraseIdx he
  | _ => exact List.Subset.refl _

/-- A packet in flight stays there or is taken in by its receiver. -/
theorem Cluster.Offers.taken {c : Cluster} {turn : Turn} (h : c.Offers turn) {envelope : Envelope}
    (henvelope : envelope ∈ c.inFlight) :
    envelope ∈ turn.left ∨ (turn.host = envelope.dest ∧
      ∃ source ∈ c.hosts[envelope.source]?, turn.event = .receive envelope.packet source.addr) := by
  cases h with
  | @deliver k taken source hget hsource =>
    obtain ⟨j, hj⟩ := List.mem_iff_getElem?.mp henvelope
    by_cases hjk : j = k
    · rw [hjk, hget] at hj
      obtain rfl := Option.some.inj hj
      exact .inr ⟨rfl, source, hsource, rfl⟩
    · exact .inl (List.mem_eraseIdx_iff_getElem?.mpr ⟨j, hjk, hj⟩)
  | _ => exact .inl henvelope

/-- The facts a turn gives a server were in flight. -/
theorem Cluster.Offers.facts {c : Cluster} {turn : Turn} (h : c.Offers turn) {f : Fact}
    (hf : f ∈ turn.event.facts) : ∃ envelope ∈ c.inFlight, f ∈ envelope.packet.facts := by
  cases h with
  | @deliver k taken source hget hsource => exact ⟨taken, List.mem_of_getElem? hget, hf⟩
  | _ => contradiction

/-- The process that took its turn. -/
theorem Cluster.after_self {c : Cluster} {turn : Turn} {host : Host} (h : c.hosts[turn.host]? = some host)
    (node : Node) (sends : List Send) :
    (c.after turn host node sends).hosts[turn.host]? = some { host with node := node } :=
  List.getElem?_set_self (List.getElem?_eq_some_iff.mp h).1

/-- The others are as they were. -/
theorem Cluster.after_other (c : Cluster) (turn : Turn) (host : Host) (node : Node) (sends : List Send) {i : ℕ}
    (hi : i ≠ turn.host) : (c.after turn host node sends).hosts[i]? = c.hosts[i]? :=
  List.getElem?_set_ne (Ne.symm hi)

/-- A step is a step of one process. -/
theorem Cluster.step_eq {c c' : Cluster} {e : ClusterEvent} (h : c.step fl e = some c') :
    ∃ turn host node sends, c.turn e = some turn ∧ c.hosts[turn.host]? = some host ∧
      host.node.step fl turn.event = some (node, sends) ∧ c' = c.after turn host node sends := by
  obtain ⟨turn, hturn, hrest⟩ := Option.bind_eq_some_iff.mp h
  obtain ⟨host, hhost, hrest⟩ := Option.bind_eq_some_iff.mp hrest
  obtain ⟨⟨node, sends⟩, hnode, hc⟩ := Option.bind_eq_some_iff.mp hrest
  exact ⟨turn, host, node, sends, hturn, hhost, hnode, (Option.some.inj hc).symm⟩

/-- In every run, every server stands for what it acknowledged and answered. -/
theorem Cluster.vouched {guard : Cluster → ClusterEvent → Prop} {c : Cluster}
    (h : Reachable (Cluster.step fl) guard Cluster.Initial c) : ∀ x ∈ c.hosts, x.node.Vouched := by
  refine Reachable.invariant (I := fun c => ∀ x ∈ c.hosts, x.node.Vouched) (fun c hc x hx => ?_)
    (fun c e c' hvouched _ hstep x hx => ?_) h
  · rw [hc.fresh x hx]
    exact Node.new_vouched _ _
  · obtain ⟨turn, host, node, sends, _, hhost, hnode, rfl⟩ := Cluster.step_eq fl hstep
    cases List.mem_or_eq_of_mem_set hx with
    | inl hold => exact hvouched x hold
    | inr hnew =>
      rw [hnew]
      exact (hvouched host (List.mem_of_getElem? hhost)).step fl (Node.step_effect fl hnode)

end BankReplica
