import BankReplica.Bully
import Mathlib.Algebra.BigOperators.Group.List.Basic

/-!
# How long the servers stay without a primary

Once the last primary is gone and its packets have been taken in or lost, a server that detects the
failure of primaries and hears of no larger id can be held up by nothing but itself. Each step of one
of its threads brings it closer to its promotion, whatever the others do meanwhile, and until some
server has been promoted one of its threads can go on. A server that was demoted by an announcement
detects nothing any more, so that it is none of those that may take over.
-/

namespace BankReplica

open Runs

variable (fl : FloatRounding)

/-- The packet may keep a server with the id from its promotion. -/
def Packet.deters (serverId : Word) : Packet → Bool
  | .heartbeat | .newPrimaryAnnouncement _ => true
  | .election senderId | .electionAnswer senderId => senderId > serverId
  | _ => false

/-- How many steps a thread of a backup takes until it has ended or the server has been promoted, if
the server hears nothing that deters it. -/
def Thread.patience (s : Server) : Thread → ℕ
  | .request .. => 3
  | .processing .. => 2
  | .replying .. | .announcing | .heartbeatSender | .promoting => 1
  | .electionDelay => 6
  | .electionRaised => 5
  | .electionCleared => if s.electionLost then 10 else 4
  | .electionWindow => if s.electionLost then 9 else 3
  | .electionClosed => if s.electionLost then 8 else 2
  | .monitorHead => 7
  | .monitorWaiting => if s.primaryAlive then 8 else 6

/-- The steps of all threads together. -/
def Node.patience (n : Node) : ℕ := (n.threads.map (Thread.patience n.server)).sum

/-- The event is a step of a thread of the server at a position. -/
def CampaignEvent.runsThreadOf (i : ℕ) : CampaignEvent → Bool
  | .step (.act j (.runThread _)) => j = i
  | _ => false

/-- Nobody is primary or about to say so, and the server at a position detects failures and has
nothing on its way to it that may deter it. -/
structure Cluster.Vacant (c : Cluster) (i : ℕ) : Prop where
  watching : ∃ h, c.hosts[i]? = some h ∧ h.node.detections = 1
  leaderless : ∀ h ∈ c.hosts, h.node.server.currentRole = .backup ∧ .announcing ∉ h.node.threads
  undeterred : ∀ e ∈ c.inFlight, e.dest = i → ∀ serverId ∈ c.serverIdAt i, e.packet.deters serverId = false

-- the search through the positions, not through all words
instance (c : Cluster) (i : ℕ) : Decidable (c.Vacant i) :=
  decidable_of_iff ((∃ h ∈ c.hosts[i]?, h.node.detections = 1) ∧
      (∀ h ∈ c.hosts, h.node.server.currentRole = .backup ∧ .announcing ∉ h.node.threads) ∧
      ∀ e ∈ c.inFlight, e.dest = i → (c.serverIdAt i).all fun serverId => ¬ e.packet.deters serverId)
    ⟨fun h => ⟨h.1, h.2.1, by simpa [Option.all_eq_true] using h.2.2⟩,
      fun h => ⟨h.watching, h.leaderless, by simpa [Option.all_eq_true] using h.undeterred⟩⟩

/-- The server at a position does not crash, no larger id takes a step, and nobody is promoted. -/
def StillVacant (i : ℕ) (c : Campaign) (e : CampaignEvent) : Prop :=
  (∀ j lost, e = .crash j lost → j ≠ i) ∧
    ∀ turn ∈ c.turn e, ¬ c.cluster.Outranks turn.host i ∧
      ∀ host ∈ c.cluster.hosts[turn.host]?, host.node.promotes turn.event = false

instance (i : ℕ) (c : Campaign) : (e : CampaignEvent) → Decidable (StillVacant i c e)
  | .step e => decidable_of_iff (∀ turn ∈ c.turn (.step e), ¬ c.cluster.Outranks turn.host i ∧
      ∀ host ∈ c.cluster.hosts[turn.host]?, host.node.promotes turn.event = false) (by simp [StillVacant])
  | .crash j lost => decidable_of_iff (j ≠ i) (by simp [StillVacant, Campaign.turn])

/-! ## The threads of one server -/

section

variable {fl} {s s' : Server} {n n' : Node}

/-- The two flags that decide what a failure detection does next. -/
structure Server.SameSignals (s s' : Server) : Prop where
  alive : s'.primaryAlive = s.primaryAlive
  lost : s'.electionLost = s.electionLost

theorem Server.SameSignals.refl (s : Server) : s.SameSignals s := ⟨rfl, rfl⟩

/-- The flags decide how far a thread is. -/
theorem Server.SameSignals.patience (h : s.SameSignals s') : Thread.patience s' = Thread.patience s := by
  funext t
  cases t with
  | electionCleared | electionWindow | electionClosed => simp only [Thread.patience, h.lost]
  | monitorWaiting => simp only [Thread.patience, h.alive]
  | _ => rfl

/-- A thread outside failure detection is as far whatever the flags say. -/
theorem Thread.patience_of_not_detects {t : Thread} (ht : t.detects = false) : t.patience s' = t.patience s := by
  cases t with
  | electionDelay | electionRaised | electionCleared | electionWindow | electionClosed | promoting |
      monitorHead | monitorWaiting => contradiction
  | _ => rfl

/-- No thread has come to its end yet. -/
theorem Thread.patience_pos (s : Server) (t : Thread) : 0 < t.patience s := by
  cases t with
  | electionCleared | electionWindow | electionClosed | monitorWaiting =>
    simp only [Thread.patience]
    split <;> decide
  | _ => exact Nat.succ_pos _

/-- What a step of a thread of a backup leaves to be done, and whose flags it moves. -/
structure ThreadOutcome.Nearer (s : Server) (t : Thread) (o : ThreadOutcome) : Prop where
  less : (o.threads.map (Thread.patience o.server)).sum < t.patience s
  signals : t.detects = false → s.SameSignals o.server

/-- A step of a thread of a backup that is not its promotion. -/
theorem Thread.step_nearer {locked : Bool} {t : Thread} {o : ThreadOutcome} (hbackup : s.currentRole = .backup)
    (ht : t ≠ .promoting) (h : t.step fl s locked = some o) : o.Nearer s t := by
  have hsame := Server.SameSignals.refl s
  cases Thread.step_cases fl h with
  | @request req clientAddr server status balance hfree hserved =>
    obtain ⟨ledger, log, rfl⟩ := Server.served_frame fl hserved
    exact ⟨by simp [Thread.patience], fun _ => ⟨rfl, rfl⟩⟩
  | processing =>
    refine ⟨by simp [Thread.patience], fun _ => ?_⟩
    simp only
    split <;> exact ⟨rfl, rfl⟩
  | replying | announcing => exact ⟨by simp [Thread.patience], fun _ => hsame⟩
  | electionDelay | electionRaised =>
    exact ⟨by simp [Thread.patience, Server.clearElectionLost], fun hdetects => by contradiction⟩
  | electionCleared | electionWindow =>
    refine ⟨?_, fun hdetects => by contradiction⟩
    simp only [List.map_cons, List.map_nil, List.sum_singleton, Thread.patience, Server.closeElection]
    split <;> decide
  | lost hlost | won hlost => exact ⟨by simp [Thread.patience, hlost], fun hdetects => by contradiction⟩
  | promoted | alreadyPrimary => exact absurd rfl ht
  | monitorHead => exact ⟨by simp [Thread.patience], fun hdetects => by contradiction⟩
  | monitorLeft hrole | heartbeats hrole =>
    rw [hbackup] at hrole
    contradiction
  | heardHeartbeat halive => exact ⟨by simp [Thread.patience, halive], fun hdetects => by contradiction⟩
  | timedOut halive => exact ⟨by simp [Thread.patience, halive], fun hdetects => by contradiction⟩
  | senderLeft => exact ⟨by simp [Thread.patience], fun _ => hsame⟩

/-- An update handler moves no flag. -/
theorem Server.handleUpdate_signals (s : Server) (packet : Packet) : s.SameSignals (s.handleUpdate fl packet) := by
  cases packet with
  | addClientUpdate data =>
    simp only [Server.handleUpdate, Server.handleClientUpdate]
    split <;> exact ⟨rfl, rfl⟩
  | _ => exact ⟨rfl, rfl⟩

/-- A step of the receive loop that moves no flag and starts no thread. -/
theorem Node.patience_quiet {e : NodeEvent} (hruns : n.runs e = none) (hthreads : n'.threads = n.threads)
    (hsignals : n.server.SameSignals n'.server) :
    n'.patience + (if (n.runs e).isSome then 1 else 0) ≤ n.patience := by
  rw [hruns, Node.patience, hthreads, hsignals.patience]
  exact le_rfl

/-- A thread that goes on brings its server nearer. -/
theorem Node.patience_ran {i : ℕ} {t : Thread} {o : ThreadOutcome} (hwatch : n.Watch)
    (hget : n.threads[i]? = some t) (hnearer : o.Nearer n.server t) :
    ((n.threads.eraseIdx i ++ o.threads).map (Thread.patience o.server)).sum + 1 ≤ n.patience := by
  have hothers : (n.threads.eraseIdx i).map (Thread.patience o.server) =
      (n.threads.eraseIdx i).map (Thread.patience n.server) := by
    cases hdetects : t.detects with
    | false => rw [(hnearer.signals hdetects).patience]
    | true =>
      exact List.map_congr_left fun t' ht' => Thread.patience_of_not_detects (hwatch.alone hget hdetects t' ht')
  obtain ⟨hi, rfl⟩ := List.getElem?_eq_some_iff.mp hget
  have hperm := ((List.getElem_cons_eraseIdx_perm hi).map (Thread.patience n.server)).sum_eq
  rw [List.map_cons, List.sum_cons] at hperm
  have hless := hnearer.less
  rw [List.map_append, List.sum_append, hothers, Node.patience]
  omega

/-- Every step of a backup that nothing deters and that is not promoted. -/
theorem Node.patience_step {e : NodeEvent} {sends : List Send} (hwatch : n.Watch) (hbooted : ¬ n.Booting)
    (hbackup : n.server.currentRole = .backup)
    (hquiet : ∀ packet sender, e = .receive packet sender → packet.deters n.server.serverId = false)
    (hpromotes : n.promotes e = false) (h : n.step fl e = some (n', sends)) :
    n'.patience + (if (n.runs e).isSome then 1 else 0) ≤ n.patience := by
  have hsame := Server.SameSignals.refl n.server
  have hrefute : n.server.currentRole ≠ .primary := by
    rw [hbackup]
    exact nofun
  cases Node.step_cases fl h with
  | discover hloop => exact absurd (.inl hloop) hbooted
  | giveUpDiscovery hloop | foundPrimary hloop | ignored hloop => exact absurd (.inr hloop) hbooted
  | request hloop hrole | client hloop hrole | backup hloop hrole => exact absurd hrole hrefute
  | dropped | serverDiscovery | update | sent | registered => exact Node.patience_quiet rfl rfl hsame
  | @heartbeat sender | @announcement newLeaderId sender =>
    have hdeters := hquiet _ sender rfl
    contradiction
  | @election senderId sender =>
    have hsmaller : ¬ senderId > n.server.serverId := of_decide_eq_false (hquiet _ sender rfl)
    refine Node.patience_quiet rfl rfl ?_
    simp only [Server.handleElectionPacket, if_neg hsmaller]
    exact hsame
  | @electionAnswer senderId sender =>
    have hsmaller : ¬ senderId > n.server.serverId := of_decide_eq_false (hquiet _ sender rfl)
    refine Node.patience_quiet rfl rfl ?_
    simp only [Server.handleElectionAnswerPacket, hsmaller, and_false, if_false]
    exact hsame
  | @updated packet => exact Node.patience_quiet rfl rfl (n.server.handleUpdate_signals packet)
  | @ran i t o hget houtcome =>
    have ht : t ≠ .promoting := by
      rintro rfl
      have hpromoted : n.promotes (.act (.runThread i)) = true := Node.promotes_iff.mpr ⟨hget, hbackup⟩
      rw [hpromoted] at hpromotes
      contradiction
    have hruns : n.runs (.act (.runThread i)) = some t := hget
    rw [hruns]
    exact Node.patience_ran hwatch hget (Thread.step_nearer hbackup ht houtcome)

/-- A backup that detects failures can go on with one of its threads. -/
theorem Node.exists_runThread (fl : FloatRounding) (hbackup : n.server.currentRole = .backup)
    (hdetects : n.detections ≠ 0) : ∃ i, (n.runThread fl i).isSome := by
  suffices hsome : ∃ t ∈ n.threads, (t.step fl n.server n.locked).isSome by
    obtain ⟨t, ht, hstep⟩ := hsome
    obtain ⟨i, hi⟩ := List.mem_iff_getElem?.mp ht
    obtain ⟨o, ho⟩ := Option.isSome_iff_exists.mp hstep
    exact ⟨i, by simp [Node.runThread, hi, ho]⟩
  cases hlocked : n.locked with
  | true =>
    -- the thread that holds the lock waits for nothing
    obtain ⟨t, ht, hholds⟩ := List.any_eq_true.mp hlocked
    cases t with
    | processing req clientAddr status balance receipt => exact ⟨_, ht, rfl⟩
    | _ => contradiction
  | false =>
    obtain ⟨t, ht, hwatches⟩ := List.countP_pos_iff.mp (Nat.pos_of_ne_zero hdetects)
    refine ⟨t, ht, ?_⟩
    cases t with
    | monitorHead => simp [Thread.step, hbackup]
    | monitorWaiting =>
      simp only [Thread.step]
      split <;> rfl
    | electionDelay | electionRaised | electionCleared | electionWindow | electionClosed | promoting => rfl
    | _ => contradiction

/-! ## What a backup sends -/

/-- A backup that has nothing to announce deters only servers with smaller ids. -/
theorem Node.deters_of_sends {e : NodeEvent} {sends : List Send} (hsnapshots : n.Snapshots)
    (hbackup : n.server.currentRole = .backup) (hannounces : .announcing ∉ n.threads)
    (h : n.step fl e = some (n', sends)) {serverId : Word} {send : Send} (hsend : send ∈ sends)
    (hdeters : send.packet.deters serverId = true) : n.server.serverId > serverId := by
  have hrefute : n.server.currentRole ≠ .primary := by
    rw [hbackup]
    exact nofun
  cases Node.step_cases fl h with
  | request hloop hrole | client hloop hrole | backup hloop hrole => exact absurd hrole hrefute
  | discover =>
    rw [List.eq_of_mem_replicate hsend] at hdeters
    contradiction
  | foundPrimary =>
    rw [List.mem_singleton.mp hsend] at hdeters
    contradiction
  | serverDiscovery =>
    simp [Server.sendDiscoveryAck, hbackup] at hsend
  | @announcement newLeaderId sender hloop =>
    rw [Server.announcement_sends hsend] at hdeters
    contradiction
  | @election senderId sender hloop =>
    rw [Server.election_sends hsend] at hdeters
    exact of_decide_eq_true hdeters
  | @sent backupAddr packet rest hloop =>
    rw [List.mem_singleton.mp hsend] at hdeters
    have hupdate := hsnapshots _ _ hloop packet (List.mem_cons_self ..)
    cases packet <;> contradiction
  | @ran i t o hget houtcome =>
    cases Thread.step_cases fl houtcome with
    | processing =>
      simp [Server.propagateSuccess, hbackup] at hsend
    | replying =>
      rw [List.mem_singleton.mp hsend] at hdeters
      contradiction
    | electionCleared =>
      rw [List.mem_singleton.mp hsend] at hdeters
      exact of_decide_eq_true hdeters
    | announcing => exact absurd (List.mem_of_getElem? hget) hannounces
    | heartbeats hrole => exact absurd hrole hrefute
    | _ => contradiction
  | _ => contradiction

/-- A backup that detects failures and stays a backup goes on detecting them. -/
theorem Node.detects_of_step {e : NodeEvent} {sends : List Send} (hwatch : n.Watch) (hone : n.detections = 1)
    (hrole : n'.server.currentRole = .backup) (h : n.step fl e = some (n', sends)) : n'.detections = 1 := by
  cases Node.step_shift fl h with
  | same _ _ hcount | demoted _ _ _ _ hcount => exact hcount.trans hone
  | booted hboot =>
    have hnone := (hwatch.booting hboot).1
    omega
  | promoted _ _ hprimary | stopped _ _ hprimary =>
    rw [hrole] at hprimary
    contradiction

/-! ## The servers without a primary -/

variable {c d : Campaign} {i : ℕ}

/-- Vacant servers as they are reached. -/
structure Campaign.Waits (c : Campaign) (i : ℕ) : Prop where
  grounded : c.cluster.Grounded
  snapshots : ∀ x ∈ c.cluster.hosts, x.node.Snapshots
  vacant : c.cluster.Vacant i

/-- The patience of the server at a position. -/
def Cluster.patience (c : Cluster) (i : ℕ) : ℕ := (c.hosts[i]?).elim 0 fun h => h.node.patience

/-- The envelopes that a turn adds to those of vacant servers deter nobody from promotion. -/
theorem Campaign.Waits.undeterred_after (h : c.Waits i) {turn : Turn} {host : Host} {node : Node}
    {sends : List Send} (hoffers : c.cluster.Offers turn) (hhost : c.cluster.hosts[turn.host]? = some host)
    (hnode : host.node.step fl turn.event = some (node, sends)) (hrank : ¬ c.cluster.Outranks turn.host i) :
    ∀ e ∈ (c.cluster.after turn host node sends).inFlight, e.dest = i →
      ∀ serverId ∈ c.cluster.serverIdAt i, e.packet.deters serverId = false := by
  intro e he hdest serverId hid
  have hmem := List.mem_of_getElem? hhost
  obtain ⟨hbackup, hannounces⟩ := h.vacant.leaderless host hmem
  cases List.mem_append.mp he with
  | inl hold => exact h.vacant.undeterred e (hoffers.left hold) hdest serverId hid
  | inr hnew =>
    obtain ⟨send, hsend, hpacket⟩ := mem_route hnew
    refine Bool.eq_false_of_not_eq_true fun hdeters => hrank ?_
    rw [hpacket] at hdeters
    have hlarger := Node.deters_of_sends (h.snapshots host hmem) hbackup hannounces hnode hsend hdeters
    exact ⟨host.node.server.serverId, by simp [Cluster.serverIdAt, hhost], serverId, hid, hlarger⟩

/-- A turn of vacant servers that promotes nobody leaves them vacant. -/
theorem Campaign.Waits.after (h : c.Waits i) {turn : Turn} {host : Host} {node : Node} {sends : List Send}
    (hoffers : c.cluster.Offers turn) (hhost : c.cluster.hosts[turn.host]? = some host)
    (hnode : host.node.step fl turn.event = some (node, sends)) (hrank : ¬ c.cluster.Outranks turn.host i)
    (hpromotes : host.node.promotes turn.event = false) : (c.after turn host node sends).Waits i := by
  have hmem := List.mem_of_getElem? hhost
  have hid := Campaign.serverIdAt_after hhost hnode
  obtain ⟨hbackup, hannounces⟩ := h.vacant.leaderless host hmem
  have hrole := Node.backup_of_step hbackup hpromotes hnode
  refine ⟨h.grounded.after hhost hnode, ?_, ⟨?_, ?_, ?_⟩⟩
  · intro x hx
    cases List.mem_or_eq_of_mem_set hx with
    | inl hold => exact h.snapshots x hold
    | inr hnew =>
      rw [hnew]
      exact (h.snapshots host hmem).step hnode
  · obtain ⟨w, hw, hone⟩ := h.vacant.watching
    by_cases hi : i = turn.host
    · rw [hi] at hw ⊢
      obtain rfl := Option.mem_unique hw hhost
      refine ⟨{ w with node := node }, Cluster.after_self hhost node sends, ?_⟩
      exact Node.detects_of_step (h.grounded.watch w hmem) hone hrole hnode
    · exact ⟨w, (Cluster.after_other c.cluster turn host node sends hi).trans hw, hone⟩
  · intro x hx
    cases List.mem_or_eq_of_mem_set hx with
    | inl hold => exact h.vacant.leaderless x hold
    | inr hnew =>
      rw [hnew]
      exact ⟨hrole, fun hnow => hannounces (Node.announcing_of_step hnode hpromotes hnow)⟩
  · intro e he hdest serverId hserverId
    rw [hid] at hserverId
    exact h.undeterred_after hoffers hhost hnode hrank e he hdest serverId hserverId

/-- A packet that is taken in comes from a client or was in flight. -/
theorem Cluster.Offers.received {c : Cluster} {turn : Turn} (h : c.Offers turn) {packet : Packet}
    {sender : SockAddr} (hevent : turn.event = .receive packet sender) :
    packet = .discovery ∨ (∃ req, packet = .transactionReq req) ∨
      ∃ e ∈ c.inFlight, e.dest = turn.host ∧ e.packet = packet := by
  cases h with
  | act => contradiction
  | discovery j client => exact .inl (NodeEvent.receive.inj hevent).1.symm
  | request j client req => exact .inr (.inl ⟨req, (NodeEvent.receive.inj hevent).1.symm⟩)
  | @deliver k envelope source hget hsource =>
    exact .inr (.inr ⟨envelope, List.mem_of_getElem? hget, rfl, (NodeEvent.receive.inj hevent).1⟩)

/-- A turn brings the server nearer that took it, and no other one further from its promotion. -/
theorem Campaign.Waits.patience_after (h : c.Waits i) {turn : Turn} {host : Host} {node : Node} {sends : List Send}
    (hoffers : c.cluster.Offers turn) (hhost : c.cluster.hosts[turn.host]? = some host)
    (hnode : host.node.step fl turn.event = some (node, sends))
    (hpromotes : host.node.promotes turn.event = false) :
    (c.after turn host node sends).cluster.patience i +
      (if turn.host = i ∧ (host.node.runs turn.event).isSome then 1 else 0) ≤ c.cluster.patience i := by
  by_cases hi : i = turn.host
  · have hmem := List.mem_of_getElem? hhost
    obtain ⟨hbackup, -⟩ := h.vacant.leaderless host hmem
    obtain ⟨w, hw, hone⟩ := h.vacant.watching
    rw [hi] at hw
    obtain rfl := Option.mem_unique hw hhost
    have hwatch := h.grounded.watch w hmem
    have hbooted : ¬ w.node.Booting := by
      intro hboot
      have hnone := (hwatch.booting hboot).1
      omega
    have hquiet : ∀ packet sender, turn.event = .receive packet sender →
        packet.deters w.node.server.serverId = false := by
      intro packet sender hevent
      have hid : w.node.server.serverId ∈ c.cluster.serverIdAt i := by simp [Cluster.serverIdAt, hi, hhost]
      rcases hoffers.received hevent with rfl | ⟨req, rfl⟩ | ⟨e, he, hdest, rfl⟩
      · rfl
      · rfl
      · exact h.vacant.undeterred e he (hdest.trans hi.symm) _ hid
    have hstep := Node.patience_step hwatch hbooted hbackup hquiet hpromotes hnode
    rw [hi]
    have hafter : (c.after turn w node sends).cluster.patience turn.host = node.patience := by
      simp [Cluster.patience, Campaign.after, Cluster.after_self hhost]
    have hbefore : c.cluster.patience turn.host = w.node.patience := by simp [Cluster.patience, hhost]
    rw [hafter, hbefore]
    simpa only [true_and] using hstep
  · have hkept : (c.after turn host node sends).cluster.patience i = c.cluster.patience i := by
      simp only [Cluster.patience, Campaign.after, Cluster.after_other c.cluster turn host node sends hi]
    rw [hkept, if_neg fun hself => hi hself.1.symm]
    exact le_rfl

/-- A crash of another server leaves the servers vacant. -/
theorem Campaign.Waits.crash (h : c.Waits i) {j : ℕ} {host : Host} (hhost : c.cluster.hosts[j]? = some host)
    (lost : List Envelope) (hj : j ≠ i) :
    Campaign.Waits { c with cluster := c.cluster.crashed j host lost, electors := c.electorsWithout j } i ∧
      (c.cluster.crashed j host lost).patience i = c.cluster.patience i := by
  have hsame : (c.cluster.crashed j host lost).hosts[i]? = c.cluster.hosts[i]? := List.getElem?_set_ne hj
  refine ⟨⟨h.grounded.crashed hhost lost, ?_, ⟨?_, ?_, ?_⟩⟩, by simp only [Cluster.patience, hsame]⟩
  · intro x hx
    cases List.mem_or_eq_of_mem_set hx with
    | inl hold => exact h.snapshots x hold
    | inr hnew =>
      rw [hnew]
      exact nofun
  · obtain ⟨w, hw, hone⟩ := h.vacant.watching
    exact ⟨w, hsame.trans hw, hone⟩
  · intro x hx
    cases List.mem_or_eq_of_mem_set hx with
    | inl hold => exact h.vacant.leaderless x hold
    | inr hnew =>
      rw [hnew]
      exact ⟨rfl, nofun⟩
  · intro e he hdest serverId hid
    rw [Cluster.serverIdAt, hsame] at hid
    exact h.vacant.undeterred e (List.mem_of_mem_filter he) hdest serverId hid

/-- A step of a thread is a turn in which it runs. -/
theorem Campaign.runs_of_runsThreadOf {e : CampaignEvent} {turn : Turn} (hturn : c.turn e = some turn) {host : Host}
    {node : Node} {sends : List Send} (hnode : host.node.step fl turn.event = some (node, sends))
    (hruns : e.runsThreadOf i = true) : turn.host = i ∧ (host.node.runs turn.event).isSome := by
  cases e with
  | crash j lost => contradiction
  | step e =>
    cases e with
    | act j action =>
      cases action with
      | runThread k =>
        obtain rfl := Option.some.inj hturn
        obtain ⟨t, hget, -⟩ := Option.bind_eq_some_iff.mp hnode
        exact ⟨of_decide_eq_true hruns, Option.isSome_iff_exists.mpr ⟨t, hget⟩⟩
      | _ => contradiction
    | _ => contradiction

/-- Every step of vacant servers. -/
theorem Campaign.Waits.step (h : c.Waits i) {e : CampaignEvent} (hguard : StillVacant i c e)
    (hstep : c.step fl e = some d) :
    d.Waits i ∧ d.cluster.patience i + (if e.runsThreadOf i then 1 else 0) ≤ c.cluster.patience i := by
  rcases Campaign.step_eq fl hstep with ⟨turn, host, node, sends, hturn, hhost, hnode, rfl⟩ |
    ⟨j, lost, host, rfl, hhost, rfl⟩
  · obtain ⟨hrank, hpromotes⟩ := hguard.2 turn hturn
    have hoffers := Campaign.turn_offers hturn
    refine ⟨h.after hoffers hhost hnode hrank (hpromotes host hhost), ?_⟩
    have hnearer := h.patience_after hoffers hhost hnode (hpromotes host hhost)
    by_cases hruns : e.runsThreadOf i = true
    · rw [if_pos (Campaign.runs_of_runsThreadOf hturn hnode hruns)] at hnearer
      rwa [if_pos hruns]
    · rw [if_neg hruns]
      omega
  · obtain ⟨hwaits, hkept⟩ := h.crash hhost lost (hguard.1 j lost rfl)
    exact ⟨hwaits, hkept.le⟩

/-- While the servers are vacant, each step of a thread of the waiting one is paid for. -/
theorem Campaign.Waits.replay (h : c.Waits i) {events : List CampaignEvent}
    (hrun : replay (Campaign.step fl) (StillVacant i) c events = some d) :
    d.Waits i ∧ d.cluster.patience i + events.countP (CampaignEvent.runsThreadOf i) ≤ c.cluster.patience i := by
  induction events generalizing c with
  | nil =>
    obtain rfl := Option.some.inj hrun
    exact ⟨h, le_rfl⟩
  | cons e rest ih =>
    simp only [Runs.replay] at hrun
    split at hrun
    · obtain ⟨u, hstep, hrest⟩ := Option.bind_eq_some_iff.mp hrun
      obtain ⟨hu, hless⟩ := h.step ‹_› hstep
      obtain ⟨hd, htotal⟩ := ih hu hrest
      rw [List.countP_cons]
      exact ⟨hd, by omega⟩
    · contradiction

/-- A server that detects failures has some patience left. -/
theorem Campaign.Waits.patience_pos (h : c.Waits i) : 0 < c.cluster.patience i := by
  obtain ⟨w, hw, hone⟩ := h.vacant.watching
  have hsome : 0 < w.node.detections := by omega
  obtain ⟨t, ht, -⟩ := List.countP_pos_iff.mp hsome
  obtain ⟨k, hk, rfl⟩ := List.getElem_of_mem ht
  have hperm := ((List.getElem_cons_eraseIdx_perm hk).map (Thread.patience w.node.server)).sum_eq
  have hpos := Thread.patience_pos w.node.server w.node.threads[k]
  rw [List.map_cons, List.sum_cons] at hperm
  simp only [Cluster.patience, hw, Option.elim_some, Node.patience]
  omega

end

/-- From a state without a primary on, and until some server is promoted, a server that detects the failure
of primaries and that no larger id keeps from it takes fewer steps than its `patience`, whatever else
happens, and one of its threads can always go on. -/
theorem successor_within_patience (fl : FloatRounding) {c d : Campaign} {i : ℕ}
    (h : Reachable (Campaign.step fl) Always Campaign.Initial c) (hvacant : c.cluster.Vacant i)
    {events : List CampaignEvent} (hrun : replay (Campaign.step fl) (StillVacant i) c events = some d) :
    events.countP (CampaignEvent.runsThreadOf i) < c.cluster.patience i ∧
      ∃ k, (d.step fl (.step (.act i (.runThread k)))).isSome := by
  have hwaits : c.Waits i := ⟨Campaign.grounded fl h, Campaign.snapshots fl h, hvacant⟩
  obtain ⟨hd, htotal⟩ := hwaits.replay hrun
  have hpos := hd.patience_pos
  refine ⟨by omega, ?_⟩
  obtain ⟨w, hw, hone⟩ := hd.vacant.watching
  obtain ⟨hbackup, -⟩ := hd.vacant.leaderless w (List.mem_of_getElem? hw)
  obtain ⟨k, hk⟩ := Node.exists_runThread fl hbackup (by omega)
  obtain ⟨⟨node, sends⟩, hnode⟩ := Option.isSome_iff_exists.mp hk
  refine ⟨k, ?_⟩
  have hstep : w.node.step fl (.act (.runThread k)) = some (node, sends) := hnode
  simp [Campaign.step, Campaign.turn, Cluster.turnAnyOrder, Cluster.turn, hw, hstep]

/-- The second server elects itself, the first registers with it, and the second crashes. -/
def primaryLost : List CampaignEvent :=
  uncrashed ([.act 1 .discover] ++ deliverNext 3 ++ [.act 1 .giveUpDiscovery] ++ runThreads 1 0 3 ++ deliverNext 1 ++
    runThreads 1 0 3 ++ runThreads 1 1 1 ++ deliverNext 1 ++ [.act 0 .discover] ++ deliverNext 9) ++ [.crash 1 []]

/-- The server that is left holds an election up to its last step before the promotion. -/
theorem successor_within_patience_of_crash :
    ∃ c d : Campaign, c.promoted = [1] ∧ c.cluster.patience 0 = 7 ∧
      replay (Campaign.step singlePrecision) (StillVacant 0) c (uncrashed (runThreads 0 0 6)) = some d ∧
      6 < c.cluster.patience 0 ∧ ∃ k, (d.step singlePrecision (.step (.act 0 (.runThread k)))).isSome := by
  obtain ⟨c, hreach, htest⟩ := exists_reachable_of_replay (Campaign.step singlePrecision) Always Campaign.Initial
    primaryLost (fun c => decide (c.cluster.Vacant 0 ∧ c.promoted = [1] ∧ c.cluster.patience 0 = 7 ∧
      (replay (Campaign.step singlePrecision) (StillVacant 0) c (uncrashed (runThreads 0 0 6))).isSome = true))
    twoCandidates_initial (by decide +kernel)
  obtain ⟨hvacant, hpromoted, hpatience, hsome⟩ := of_decide_eq_true htest
  obtain ⟨d, hrun⟩ := Option.isSome_iff_exists.mp hsome
  exact ⟨c, d, hpromoted, hpatience, hrun, successor_within_patience singlePrecision hreach hvacant hrun⟩

end BankReplica
