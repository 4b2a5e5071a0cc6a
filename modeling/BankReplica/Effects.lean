import BankReplica.Facts

/-!
# What one step of a process does

A step adds a fact that is new everywhere only where it executes an accepted request or
registers an unknown client; every other fact it adds was in the update it was handling,
and what it sends it holds or had still to send. A server becomes primary only through
`promoteToPrimary`, and what it acknowledges or answers is in its own ledger.
-/

namespace BankReplica

variable (fl : FloatRounding)

/-- The call a thread makes on the ledger. -/
def Thread.call : Thread → Option Call
  | .request req clientAddr => some (requestCall clientAddr.sinAddr req)
  | _ => none

/-- The call a step makes on the ledger. -/
def Node.call (n : Node) : NodeEvent → Option Call
  | .act (.runThread i) => n.threads[i]?.bind Thread.call
  | .receive .discovery sender =>
    if n.loop = .receiving ∧ n.server.currentRole = .primary then some (.addClient (inetNtop sender.sinAddr))
    else none
  | _ => none

/-- The step executes an accepted request or registers an unknown client. -/
def Node.Creates (n : Node) (e : NodeEvent) : Prop := ∃ c ∈ n.call e, n.server.toLedger.Accepts fl c

instance (n : Node) (e : NodeEvent) : Decidable (n.Creates fl e) :=
  inferInstanceAs (Decidable (∃ c ∈ n.call e, _))

/-- The step makes a backup primary. -/
def Node.promotes (n : Node) : NodeEvent → Bool
  | .act (.runThread i) => n.threads[i]? = some .promoting ∧ n.server.currentRole = .backup
  | _ => false

/-- The facts the receive loop is in the middle of handling or sending. -/
def Loop.pending : Loop → List Fact
  | .updating packet => packet.facts
  | .registering _ unsent => unsent.flatMap Packet.facts
  | _ => []

/-- The facts a step is given. -/
def NodeEvent.facts : NodeEvent → List Fact
  | .receive packet _ => packet.facts
  | _ => []

/-- The receipt a thread is to deliver. -/
def Thread.receipt : Thread → Option Receipt
  | .processing _ _ _ _ receipt => receipt
  | .replying _ _ receipt => receipt
  | _ => none

/-! ## Threads -/

/-- The effect of a step of a thread on the facts, the role and the receipts. -/
structure Thread.Effect (s : Server) (t : Thread) (o : ThreadOutcome) : Prop where
  serverId : o.server.serverId = s.serverId
  promoted : o.server.currentRole = .primary →
    s.currentRole = .primary ∨ (t = .promoting ∧ s.currentRole = .backup)
  passes : ∀ send ∈ o.sends, send.packet.facts ⊆ o.server.facts
  receipts : ∀ t' ∈ o.threads, ∀ r ∈ t'.receipt, r ∈ t.receipt ∨ r.transaction ∈ o.server.transactionHistory
  acked : ∀ r ∈ o.acked, r ∈ t.receipt

/-- A step that keeps id and role, sends no fact and goes on without a receipt. -/
theorem Thread.Effect.quiet {s : Server} {t : Thread} {o : ThreadOutcome}
    (hserverId : o.server.serverId = s.serverId) (hrole : o.server.currentRole = s.currentRole)
    (hsends : ∀ send ∈ o.sends, send.packet.facts = []) (hthreads : ∀ t' ∈ o.threads, t'.receipt = none)
    (hacked : o.acked = none) : t.Effect s o where
  serverId := hserverId
  promoted hprimary := .inl (hrole ▸ hprimary)
  passes send hsend := by
    rw [hsends send hsend]
    exact List.nil_subset _
  receipts t' ht' r hr := by
    rw [hthreads t' ht'] at hr
    contradiction
  acked r hr := by
    rw [hacked] at hr
    contradiction

/-- Every step of a thread. -/
theorem Thread.step_effect {s : Server} {locked : Bool} {t : Thread} {o : ThreadOutcome}
    (h : t.step fl s locked = some o) : t.Effect s o := by
  cases Thread.step_cases fl h with
  | @request req clientAddr server status balance hfree hserved =>
    obtain ⟨ledger, log, rfl⟩ := Server.served_frame fl hserved
    constructor
    · rfl
    · exact .inl
    · exact fun send hsend => by contradiction
    · intro t' ht' r hr
      rw [List.mem_singleton.mp ht'] at hr
      exact .inr (Server.receipt_logged hr)
    · exact fun r hr => by contradiction
  | processing =>
    constructor
    · simp only
      split <;> rfl
    · simp only
      split <;> exact .inl
    · intro send hsend
      simp only
      split <;> exact Server.propagateSuccess_facts hsend
    · intro t' ht' r hr
      rw [List.mem_singleton.mp ht'] at hr
      exact .inl hr
    · exact fun r hr => by contradiction
  | replying =>
    constructor
    · rfl
    · exact .inl
    · intro send hsend
      rw [List.mem_singleton.mp hsend]
      exact List.nil_subset _
    · exact fun t' ht' => by contradiction
    · exact fun r hr => hr
  | promoted hfree hrole =>
    constructor
    · rfl
    · exact fun _ => .inr ⟨rfl, hrole⟩
    · exact fun send hsend => by contradiction
    · simp [Thread.receipt]
    · exact fun r hr => by contradiction
  | _ =>
    exact .quiet rfl rfl (by simp [Packet.facts, Server.announceNewPrimary, Server.broadcastElection])
      (by simp [Thread.receipt]) rfl

/-! ## Processes -/

/-- The receive loop has not started. -/
def Node.Booting (n : Node) : Prop := n.loop = .off ∨ n.loop = .discovering

/-- The effect of a step of a process on the facts, the role and the receipts. -/
structure Node.Effect (n : Node) (e : NodeEvent) (n' : Node) (sends : List Send) : Prop where
  serverId : n'.server.serverId = n.server.serverId
  promoted : n'.server.currentRole = .primary → n.server.currentRole = .primary ∨ n.promotes e = true
  grows : n.server.facts ⊆ n'.server.facts
  learns : ∀ f ∈ n'.server.facts, f ∈ n.server.facts ∨ f ∈ n.loop.pending ∨ n.Creates fl e
  keeps : ∀ f ∈ n'.loop.pending, f ∈ n.loop.pending ∨ f ∈ n'.server.facts ∨ f ∈ e.facts
  passes : ∀ send ∈ sends, ∀ f ∈ send.packet.facts, f ∈ n.loop.pending ∨ f ∈ n'.server.facts
  boots : n'.Booting → n.Booting ∧
    (n.threads = [] → n'.threads = [] ∧ n'.server.currentRole = n.server.currentRole)
  receipts : ∀ t' ∈ n'.threads, ∀ r ∈ t'.receipt,
    (∃ t ∈ n.threads, r ∈ t.receipt) ∨ r.transaction ∈ n'.server.transactionHistory
  acked : ∀ r ∈ n'.acked, r ∈ n.acked ∨ ∃ t ∈ n.threads, r ∈ t.receipt
  answered : ∀ ip ∈ n'.answered, ip ∈ n.answered ∨ ip ∈ n'.server.addresses

/-- A server after a handler that keeps its ledger and id and promotes nobody. -/
structure Server.Steady (s s' : Server) : Prop where
  ledger : s'.toLedger = s.toLedger
  serverId : s'.serverId = s.serverId
  role : s'.currentRole = .primary → s.currentRole = .primary

theorem Server.Steady.refl (s : Server) : s.Steady s := ⟨rfl, rfl, id⟩

/-- The handlers that only steer elections keep ledger and id and promote nobody. -/
theorem Server.steady_of_election (s : Server) (senderId : Word) (sender : SockAddr) :
    s.Steady s.handleHeartbeatPacket ∧ s.Steady (s.handleElectionPacket senderId sender).1 ∧
      s.Steady (s.handleElectionAnswerPacket senderId) := by
  refine ⟨?_, ?_, ?_⟩
  · unfold Server.handleHeartbeatPacket
    split <;> exact ⟨rfl, rfl, id⟩
  · simp only [Server.handleElectionPacket]
    split_ifs <;> exact ⟨rfl, rfl, id⟩
  · unfold Server.handleElectionAnswerPacket
    split <;> exact ⟨rfl, rfl, id⟩

/-- An announcement keeps ledger and id and promotes nobody. -/
theorem Server.steady_of_announcement (s : Server) (newLeaderId : Word) (sender : SockAddr) :
    s.Steady (s.handleNewPrimaryAnnouncementPacket newLeaderId sender).1 := by
  simp only [Server.handleNewPrimaryAnnouncementPacket]
  split_ifs <;> first | exact ⟨rfl, rfl, id⟩ | exact ⟨rfl, rfl, fun h => by contradiction⟩

/-- An announcement is answered with a registration or not at all. -/
theorem Server.announcement_sends {s : Server} {newLeaderId : Word} {sender : SockAddr} {send : Send}
    (h : send ∈ (s.handleNewPrimaryAnnouncementPacket newLeaderId sender).2) :
    send = ⟨sender, .registerBackup⟩ := by
  simp only [Server.handleNewPrimaryAnnouncementPacket] at h
  split at h
  · exact List.mem_singleton.mp h
  · contradiction

/-- An election packet is answered with the own id or not at all. -/
theorem Server.election_sends {s : Server} {senderId : Word} {sender : SockAddr} {send : Send}
    (h : send ∈ (s.handleElectionPacket senderId sender).2) : send = ⟨sender, .electionAnswer s.serverId⟩ := by
  simp only [Server.handleElectionPacket] at h
  split at h
  · contradiction
  · exact List.mem_singleton.mp h

/-- A step that neither touches the ledger nor promotes, acknowledges or answers anybody. -/
theorem Node.Effect.quiet {n n' : Node} {e : NodeEvent} {sends : List Send}
    (hserver : n.server.Steady n'.server)
    (hpending : ∀ f ∈ n'.loop.pending, f ∈ n.loop.pending ∨ f ∈ n.server.facts ∨ f ∈ e.facts)
    (hsends : ∀ send ∈ sends, send.packet.facts ⊆ n.loop.pending)
    (hthreads : ∀ t ∈ n'.threads, t ∈ n.threads ∨ t.receipt = none)
    (hacked : n'.acked = n.acked) (hanswered : n'.answered = n.answered)
    (hboots : n'.Booting → n.Booting ∧ n'.threads = n.threads ∧ n'.server = n.server) :
    n.Effect fl e n' sends where
  serverId := hserver.serverId
  promoted hprimary := .inl (hserver.role hprimary)
  grows := by
    rw [hserver.ledger]
    exact List.Subset.refl _
  learns f hf := .inl (hserver.ledger ▸ hf)
  keeps f hf := by
    rw [hserver.ledger]
    exact hpending f hf
  passes send hsend f hf := .inl (hsends send hsend hf)
  boots hboot := by
    obtain ⟨hbooting, hsame, hkept⟩ := hboots hboot
    exact ⟨hbooting, fun hnone => ⟨hsame.trans hnone, congrArg Server.currentRole hkept⟩⟩
  receipts t' ht' r hr := by
    cases hthreads t' ht' with
    | inl hold => exact .inl ⟨t', hold, hr⟩
    | inr hnone =>
      rw [hnone] at hr
      contradiction
  acked r hr := .inl (hacked ▸ hr)
  answered ip hip := .inl (hanswered ▸ hip)

/-- An update handler does to the ledger what `receive` does. -/
theorem Server.handleUpdate_toLedger (s : Server) (packet : Packet) :
    (s.handleUpdate fl packet).toLedger = s.toLedger.receive fl packet := by
  cases packet with
  | addClientUpdate data => exact s.handleClientUpdate_toLedger fl data
  | _ => rfl

/-- An update handler keeps the id. -/
theorem Server.handleUpdate_serverId (s : Server) (packet : Packet) :
    (s.handleUpdate fl packet).serverId = s.serverId := by
  cases packet with
  | addClientUpdate data =>
    simp only [Server.handleUpdate, Server.handleClientUpdate]
    split <;> rfl
  | _ => rfl

/-- A packet handled in the receive loop by a server that keeps its ledger. -/
theorem Node.Effect.handled {n : Node} (hloop : n.loop = .receiving) {s : Server} (hserver : n.server.Steady s)
    (e : NodeEvent) {sends : List Send} (hsends : ∀ send ∈ sends, send.packet.facts = []) :
    n.Effect fl e { n with server := s } sends := by
  refine .quiet fl hserver ?_ (fun send hsend => ?_) (fun t ht => .inl ht) rfl rfl ?_
  · simp [hloop, Loop.pending]
  · rw [hsends send hsend]
    exact List.nil_subset _
  · simp [Node.Booting, hloop]

/-- A thread that starts without a receipt. -/
theorem receiptless_of_mem_append {threads : List Thread} {t t' : Thread} (ht : t.receipt = none)
    (h : t' ∈ threads ++ [t]) : t' ∈ threads ∨ t'.receipt = none := by
  cases List.mem_append.mp h with
  | inl hold => exact .inl hold
  | inr hnew =>
    rw [List.mem_singleton.mp hnew]
    exact .inr ht

/-- A discovery packet handled by a primary. -/
theorem Node.Effect.registration {n : Node} (hloop : n.loop = .receiving)
    (hrole : n.server.currentRole = .primary) (sender : SockAddr) :
    let registered := n.server.handleDiscoveryPacket fl sender
    n.Effect fl (.receive .discovery sender)
      { n with server := registered.1, answered := n.answered ++ [inetNtop sender.sinAddr] } registered.2 := by
  have hcall : n.call (.receive .discovery sender) = some (.addClient (inetNtop sender.sinAddr)) :=
    if_pos ⟨hloop, hrole⟩
  have hledger : (n.server.handleDiscoveryPacket fl sender).1.toLedger =
      n.server.toLedger.apply fl (.addClient (inetNtop sender.sinAddr)) := by
    rw [Server.handleDiscoveryPacket_toLedger, if_pos hrole]
  constructor
  · simp only [Server.handleDiscoveryPacket, hrole, if_true]
    exact n.server.addClient_serverId fl _
  · exact fun _ => .inl hrole
  · simp only [hledger]
    exact n.server.facts_subset_apply fl _
  · intro f hf
    by_cases hnew : n.server.toLedger.Accepts fl (.addClient (inetNtop sender.sinAddr))
    · exact .inr (.inr ⟨_, hcall, hnew⟩)
    · rw [hledger, Ledger.apply_of_not_accepts fl hnew] at hf
      exact .inl hf
  · simp [hloop, Loop.pending]
  · exact fun send hsend f hf => .inr (Server.handleDiscoveryPacket_facts fl hsend hf)
  · simp [Node.Booting, hloop]
  · exact fun t ht r hr => .inl ⟨t, ht, hr⟩
  · exact fun r hr => .inl hr
  · intro ip hip
    cases List.mem_append.mp hip with
    | inl hold => exact .inl hold
    | inr hnew =>
      rw [List.mem_singleton.mp hnew]
      refine .inr ?_
      simp only [hledger, Ledger.apply]
      split
      · assumption
      · simp

/-- An update handler that gets the lock. -/
theorem Node.Effect.updated {n : Node} {packet : Packet} (hloop : n.loop = .updating packet) :
    n.Effect fl (.act .resume) { n with server := n.server.handleUpdate fl packet, loop := .receiving } [] := by
  have hfacts : ∀ f, f ∈ (n.server.handleUpdate fl packet).facts ↔ f ∈ n.server.facts ∨ f ∈ packet.facts := by
    intro f
    rw [Server.handleUpdate_toLedger]
    exact Ledger.mem_facts_receive fl
  constructor
  · exact n.server.handleUpdate_serverId fl packet
  · intro hprimary
    rw [Server.handleUpdate_role] at hprimary
    exact .inl hprimary
  · exact fun f hf => (hfacts f).mpr (.inl hf)
  · intro f hf
    cases (hfacts f).mp hf with
    | inl hheld => exact .inl hheld
    | inr hpacket =>
      rw [hloop]
      exact .inr (.inl hpacket)
  · simp [Loop.pending]
  · exact fun send hsend => by contradiction
  · simp [Node.Booting]
  · exact fun t ht r hr => .inl ⟨t, ht, hr⟩
  · exact fun r hr => .inl hr
  · exact fun ip hip => .inl hip

/-- A step of a detached thread. -/
theorem Node.Effect.ran {n : Node} {i : ℕ} {t : Thread} {o : ThreadOutcome} (ht : n.threads[i]? = some t)
    (houtcome : t.step fl n.server n.locked = some o) :
    n.Effect fl (.act (.runThread i))
      { n with
        server := o.server
        threads := n.threads.eraseIdx i ++ o.threads
        acked := n.acked ++ o.acked.toList }
      o.sends := by
  have heffect := Thread.step_effect fl houtcome
  have hmem : t ∈ n.threads := List.mem_of_getElem? ht
  have hledger := Thread.step_toLedger fl houtcome
  constructor
  · exact heffect.serverId
  · intro hprimary
    refine (heffect.promoted hprimary).imp_right fun ⟨hpromoting, hrole⟩ => ?_
    exact decide_eq_true ⟨hpromoting ▸ ht, hrole⟩
  · rcases hledger with hkept | ⟨req, clientAddr, _, happlied⟩
    · rw [hkept]
      exact List.Subset.refl _
    · rw [happlied]
      exact n.server.facts_subset_apply fl _
  · intro f hf
    rcases hledger with hkept | ⟨req, clientAddr, rfl, happlied⟩
    · exact .inl (hkept ▸ hf)
    · by_cases haccept : n.server.toLedger.Accepts fl (requestCall clientAddr.sinAddr req)
      · refine .inr (.inr ⟨_, ?_, haccept⟩)
        simp only [Node.call, ht]
        rfl
      · rw [happlied, Ledger.apply_of_not_accepts fl haccept] at hf
        exact .inl hf
  · exact fun f hf => .inl hf
  · exact fun send hsend f hf => .inr (heffect.passes send hsend hf)
  · refine fun hboot => ⟨hboot, fun hnone => ?_⟩
    rw [hnone] at hmem
    contradiction
  · intro t' ht' r hr
    cases List.mem_append.mp ht' with
    | inl hold => exact .inl ⟨t', List.mem_of_mem_eraseIdx hold, hr⟩
    | inr hnew => exact (heffect.receipts t' hnew r hr).imp_left fun hown => ⟨t, hmem, hown⟩
  · intro r hr
    cases List.mem_append.mp hr with
    | inl hold => exact .inl hold
    | inr hnew => exact .inr ⟨t, hmem, heffect.acked r (Option.mem_toList.mp hnew)⟩
  · exact fun ip hip => .inl hip

/-- Every step of a process. -/
theorem Node.step_effect {n n' : Node} {e : NodeEvent} {sends : List Send}
    (h : n.step fl e = some (n', sends)) : n.Effect fl e n' sends := by
  have hsteady := Server.Steady.refl n.server
  cases Node.step_cases fl h with
  | discover hloop =>
    exact .quiet fl hsteady (by simp [Loop.pending]) (by simp [Packet.facts]) (fun t ht => .inl ht) rfl rfl
      fun _ => ⟨.inl hloop, rfl, rfl⟩
  | giveUpDiscovery hloop =>
    exact .quiet fl ⟨rfl, rfl, fun hprimary => by contradiction⟩ (by simp [Loop.pending]) (by simp)
      (fun t ht => receiptless_of_mem_append rfl ht) rfl rfl (by simp [Node.Booting])
  | foundPrimary hloop =>
    exact .quiet fl ⟨rfl, rfl, fun hprimary => by contradiction⟩ (by simp [Loop.pending])
      (by simp [Server.initBackup, Packet.facts]) (fun t ht => receiptless_of_mem_append rfl ht) rfl rfl
      (by simp [Node.Booting])
  | ignored hloop hpacket =>
    exact .quiet fl hsteady (by simp [hloop, Loop.pending]) (by simp) (fun t ht => .inl ht) rfl rfl
      fun hboot => ⟨hboot, rfl, rfl⟩
  | dropped hloop hheeded => exact .handled fl hloop hsteady _ (by simp)
  | request hloop hrole =>
    exact .quiet fl hsteady (by simp [hloop, Loop.pending]) (by simp) (fun t ht => receiptless_of_mem_append rfl ht)
      rfl rfl (by simp [Node.Booting, hloop])
  | @client sender hloop hrole hfree => exact .registration fl hloop hrole sender
  | backup hloop hrole hfree =>
    refine .quiet fl ⟨rfl, rfl, id⟩ (fun f hf => ?_) (by simp) (fun t ht => .inl ht) rfl rfl (by simp [Node.Booting])
    obtain ⟨packet, hpacket, hfact⟩ := List.mem_flatMap.mp hf
    have hsnapshot : packet ∈ n.server.snapshotPackets := by
      simpa [Server.registerBackup, Function.comp_def] using hpacket
    exact .inr (.inl (Ledger.snapshotPackets_facts hsnapshot hfact))
  | @heartbeat sender hloop => exact .handled fl hloop (n.server.steady_of_election 0 sender).1 _ (by simp)
  | serverDiscovery hloop =>
    refine .handled fl hloop hsteady _ ?_
    simp only [Server.sendDiscoveryAck]
    split <;> simp [Packet.facts]
  | @announcement newLeaderId sender hloop =>
    refine .handled fl hloop (n.server.steady_of_announcement newLeaderId sender) _ fun send hsend => ?_
    rw [Server.announcement_sends hsend]
    rfl
  | @election senderId sender hloop =>
    refine .handled fl hloop (n.server.steady_of_election senderId sender).2.1 _ fun send hsend => ?_
    rw [Server.election_sends hsend]
    rfl
  | @electionAnswer senderId sender hloop =>
    exact .handled fl hloop (n.server.steady_of_election senderId sender).2.2 _ (by simp)
  | update hloop hupdate hrole =>
    exact .quiet fl hsteady (fun f hf => .inr (.inr hf)) (by simp) (fun t ht => .inl ht) rfl rfl
      (by simp [Node.Booting])
  | updated hloop hfree => exact .updated fl hloop
  | sent hloop =>
    refine .quiet fl hsteady (fun f hf => ?_) (fun send hsend => ?_) (fun t ht => .inl ht) rfl rfl
      (by simp [Node.Booting])
    · rw [hloop]
      exact .inl (List.mem_append_right _ hf)
    · rw [List.mem_singleton.mp hsend, hloop]
      exact List.subset_append_left _ _
  | registered hloop =>
    exact .quiet fl hsteady (by simp [Loop.pending]) (by simp) (fun t ht => .inl ht) rfl rfl (by simp [Node.Booting])
  | ran hget houtcome => exact .ran fl hget houtcome

/-! ## What a server stands for -/

/-- A server logged what it acknowledges and registered whom it answered, and while it boots
it runs no thread and is a backup. -/
structure Node.Vouched (n : Node) : Prop where
  booting : n.Booting → n.threads = [] ∧ n.server.currentRole = .backup
  receipts : ∀ t ∈ n.threads, ∀ r ∈ t.receipt, r.transaction ∈ n.server.transactionHistory
  acked : ∀ r ∈ n.acked, r.transaction ∈ n.server.transactionHistory
  answered : ∀ ip ∈ n.answered, ip ∈ n.server.addresses

/-- A process before `init` stands for nothing. -/
theorem Node.new_vouched (serverId : Word) (port : UInt16) : (Node.new serverId port).Vouched :=
  ⟨fun _ => ⟨rfl, rfl⟩, by simp [Node.new], by simp [Node.new], by simp [Node.new]⟩

/-- A process that runs a thread has booted. -/
theorem Node.Vouched.not_booting {n : Node} (h : n.Vouched) {t : Thread} (ht : t ∈ n.threads) : ¬ n.Booting := by
  intro hboot
  rw [(h.booting hboot).1] at ht
  contradiction

/-- No step leaves an acknowledgement or an answer without its fact. -/
theorem Node.Vouched.step {n n' : Node} {e : NodeEvent} {sends : List Send} (h : n.Vouched)
    (heffect : n.Effect fl e n' sends) : n'.Vouched := by
  have hlog : ∀ tx ∈ n.server.transactionHistory, tx ∈ n'.server.transactionHistory := fun tx htx =>
    Ledger.logged_mem_facts.mp (heffect.grows (Ledger.logged_mem_facts.mpr htx))
  have hknown : ∀ ip ∈ n.server.addresses, ip ∈ n'.server.addresses := fun ip hip =>
    Ledger.registered_mem_facts.mp (heffect.grows (Ledger.registered_mem_facts.mpr hip))
  constructor
  · intro hboot
    obtain ⟨hbooting, hsame⟩ := heffect.boots hboot
    obtain ⟨hnone, hbackup⟩ := h.booting hbooting
    exact ⟨(hsame hnone).1, (hsame hnone).2.trans hbackup⟩
  · intro t' ht' r hr
    rcases heffect.receipts t' ht' r hr with ⟨t, ht, hold⟩ | hnew
    · exact hlog _ (h.receipts t ht r hold)
    · exact hnew
  · intro r hr
    rcases heffect.acked r hr with hold | ⟨t, ht, hnew⟩
    · exact hlog _ (h.acked r hold)
    · exact hlog _ (h.receipts t ht r hnew)
  · intro ip hip
    cases heffect.answered ip hip with
    | inl hold => exact hknown ip (h.answered ip hold)
    | inr hnew => exact hnew

/-- A server that takes in the announcement of another one is a backup. -/
theorem Node.Vouched.demoted {n n' : Node} (h : n.Vouched) {packet : Packet} {sender : SockAddr}
    {sends : List Send} (hother : packet.demotes n.server.serverId = true)
    (hstep : n.receive fl packet sender = some (n', sends)) : n'.server.currentRole = .backup := by
  cases Node.step_cases fl (e := .receive packet sender) hstep with
  | ignored hloop hpacket => exact (h.booting (.inr hloop)).2
  | announcement hloop => exact (Server.handleNewPrimaryAnnouncementPacket_other (of_decide_eq_true hother) sender).1
  | dropped hloop hheeded | update hloop hupdate hrole => cases packet <;> contradiction
  | _ => contradiction

/-- A step that takes in the announcement of another server leaves a backup. -/
theorem Node.Vouched.demoted_step {n n' : Node} (h : n.Vouched) {e : NodeEvent} {sends : List Send}
    (hother : e.demotes n.server.serverId = true) (hstep : n.step fl e = some (n', sends)) :
    n'.server.currentRole = .backup := by
  cases e with
  | receive packet sender => exact h.demoted fl hother hstep
  | act action => contradiction

end BankReplica
