import BankReplica.Accounts
import BankReplica.Library.Runs
import BankReplica.Node

/-!
# Request threads and the role of the server

The receive loop tests the role when it spawns a request thread; the thread executes
later and reads the role once more, only to decide about propagation. As long as no
announcement of another server is handled between the two, only a primary executes, and
an acknowledged transaction was sent to every backup listed when it was logged.
-/

namespace BankReplica

open Runs

variable (fl : FloatRounding)

/-- A process, and every packet it has sent. -/
structure Audit where
  node : Node
  sent : List Send := []
deriving DecidableEq

/-- One step of the process. -/
def Audit.step (a : Audit) (e : NodeEvent) : Option Audit := do
  let (node, sends) ← a.node.step fl e
  some ⟨node, a.sent ++ sends⟩

/-- The thread is between its spawn and the end of `processTransaction`. -/
def Thread.inRequest : Thread → Bool
  | .request .. | .processing .. => true
  | _ => false

/-- The announcement of another server. -/
def Packet.demotes (serverId : Word) : Packet → Bool
  | .newPrimaryAnnouncement newLeaderId => newLeaderId ≠ serverId
  | _ => false

/-- The arrival of the announcement of another server. -/
def NodeEvent.demotes (serverId : Word) : NodeEvent → Bool
  | .receive packet _ => packet.demotes serverId
  | _ => false

/-- No request is pending when another server's announcement is handled. -/
def QuietDemotion (a : Audit) (e : NodeEvent) : Prop :=
  e.demotes a.node.server.serverId = true → ∀ t ∈ a.node.threads, t.inRequest = false

instance (a : Audit) (e : NodeEvent) : Decidable (QuietDemotion a e) :=
  inferInstanceAs (Decidable (_ → ∀ t ∈ a.node.threads, _))

/-- No thread changes a balance, a last request or the log while the server is a backup. -/
def OnlyPrimaryExecutes (n : Node) : Prop :=
  n.server.currentRole = .backup → ∀ i, ∀ result ∈ n.runThread fl i,
    result.1.server.clients = n.server.clients ∧
      result.1.server.transactionHistory = n.server.transactionHistory

/-- The transaction a packet replicates as it happens. -/
def Packet.replicated : Packet → Option Transaction
  | .stateUpdate data => some data.transaction
  | _ => none

/-- Every backup a receipt lists was sent its transaction. -/
def Delivers (sent : List Send) (receipt : Receipt) : Prop :=
  ∀ b ∈ receipt.listed, ∃ send ∈ sent,
    send.dest = b ∧ send.packet.replicated = some receipt.transaction

instance (sent : List Send) (receipt : Receipt) : Decidable (Delivers sent receipt) :=
  inferInstanceAs (Decidable (∀ b ∈ receipt.listed, ∃ send ∈ sent, _))

/-- What is owed to the receipt a thread carries. -/
def Thread.Honoured (s : Server) (sent : List Send) : Thread → Prop
  | .request _ _ => s.currentRole = .primary
  | .processing req clientAddr status _ receipt => s.currentRole = .primary ∧
    ∀ r ∈ receipt,
      Delivers (s.propagateSuccess (inetNtop clientAddr.sinAddr) (inetNtop req.destAddr) status) r
  | .replying _ _ receipt => ∀ r ∈ receipt, Delivers sent r
  | _ => True

/-- More packets sent deliver no less. -/
theorem Delivers.mono {sent more : List Send} {r : Receipt} (h : Delivers sent r) (hsub : sent ⊆ more) :
    Delivers more r := by
  intro b hb
  obtain ⟨send, hsend, hreplicates⟩ := h b hb
  exact ⟨send, hsub hsend, hreplicates⟩

/-- Propagation depends on the ledger, the role and the listed backups alone. -/
theorem Server.propagateSuccess_congr {s t : Server} (h : s.SameCore t) (sourceIp destIp : IpString)
    (status : TransactionStatus) :
    t.propagateSuccess sourceIp destIp status = s.propagateSuccess sourceIp destIp status := by
  simp only [Server.propagateSuccess, Server.propagateTransaction, h.ledger, h.role, h.backups]

/-- A step that leaves ledger, role and backups alone owes nothing new. -/
theorem Thread.Honoured.same {s s' : Server} {sent sent' : List Send} {t : Thread} (h : t.Honoured s sent)
    (hsame : s.SameCore s') (hsent : sent ⊆ sent') : t.Honoured s' sent' := by
  cases t with
  | request req clientAddr => exact hsame.role.trans h
  | processing req clientAddr status balance receipt =>
    refine ⟨hsame.role.trans h.1, fun r hr => ?_⟩
    rw [Server.propagateSuccess_congr hsame]
    exact h.2 r hr
  | replying clientAddr ack receipt => exact fun r hr => (h r hr).mono hsent
  | _ => trivial

/-- A thread outside the lock is owed nothing that depends on ledger or backups. -/
theorem Thread.Honoured.unlocked {s s' : Server} {sent sent' : List Send} {t : Thread}
    (h : t.Honoured s sent) (hfree : t.holdsLock = false) (hrole : s'.currentRole = s.currentRole)
    (hsent : sent ⊆ sent') : t.Honoured s' sent' := by
  cases t with
  | request req clientAddr => exact hrole.trans h
  | processing req clientAddr status balance receipt => contradiction
  | replying clientAddr ack receipt => exact fun r hr => (h r hr).mono hsent
  | _ => trivial

/-- A thread that is not in a request is owed nothing that depends on the server. -/
theorem Thread.Honoured.quiet {s s' : Server} {sent sent' : List Send} {t : Thread}
    (h : t.Honoured s sent) (hquiet : t.inRequest = false) (hsent : sent ⊆ sent') :
    t.Honoured s' sent' := by
  cases t with
  | request req clientAddr => contradiction
  | processing req clientAddr status balance receipt => contradiction
  | replying clientAddr ack receipt => exact fun r hr => (h r hr).mono hsent
  | _ => trivial

/-- Only a primary has requests pending. -/
theorem Thread.Honoured.role {s : Server} {sent : List Send} {t : Thread} (h : t.Honoured s sent)
    (hrequest : t.inRequest = true) : s.currentRole = .primary := by
  cases t with
  | request req clientAddr => exact h
  | processing req clientAddr status balance receipt => exact h.1
  | _ => contradiction

/-- With the lock free, no thread holds it. -/
theorem Node.not_holdsLock {n : Node} (h : n.locked = false) {t : Thread} (ht : t ∈ n.threads) :
    t.holdsLock = false := by
  simpa using List.any_eq_false.mp h t ht

/-- A primary that executes a request owes its receipt what it is about to propagate. -/
theorem Server.receipt_delivered {s : Server} (hrole : s.currentRole = .primary)
    (sourceIp destIp : IpString) (value seqn : ℤ) :
    let executed := s.handleTransactionLogic fl sourceIp destIp value seqn
    executed.1.currentRole = .primary ∧
      ∀ r ∈ executed.1.receipt executed.2.1,
        Delivers (executed.1.propagateSuccess sourceIp destIp executed.2.1) r := by
  by_cases haccept : s.verdict fl sourceIp destIp value seqn = .success
  · obtain ⟨source, dest, hsource, hdest⟩ := Ledger.account_commit_of_accept fl haccept
    rw [Server.handleTransactionLogic_accept fl haccept]
    refine ⟨hrole, fun r hr b hb => ?_⟩
    simp only [Server.receipt, if_true, Ledger.commit_transactionHistory, List.getLast?_append,
      List.getLast?_singleton, Option.some_or, Option.map_some, Option.mem_some_iff] at hr
    rw [← hr] at hb ⊢
    simp only [Server.propagateSuccess, hrole, and_self, if_true, Ledger.commit_transactionHistory,
      List.getLast?_append, List.getLast?_singleton, Option.some_or, Ledger.getElem?_findClient, hsource, hdest]
    exact ⟨_, List.mem_map_of_mem hb, rfl, rfl⟩
  · obtain ⟨log, hlog⟩ := Server.handleTransactionLogic_reject fl haccept
    rw [hlog]
    refine ⟨hrole, fun r hr => ?_⟩
    simp only [Server.receipt, haccept, if_false] at hr
    contradiction

/-- What holds of a process that is never demoted in the middle of a request. -/
structure Audit.Orderly (a : Audit) : Prop where
  booting : a.node.loop = .off ∨ a.node.loop = .discovering → a.node.threads = []
  threads : ∀ t ∈ a.node.threads, t.Honoured a.node.server a.sent
  acked : ∀ r ∈ a.node.acked, Delivers a.sent r

/-- A discovery packet changes nobody's role. -/
theorem Server.handleDiscoveryPacket_role (s : Server) (clientAddr : SockAddr) :
    (s.handleDiscoveryPacket fl clientAddr).1.currentRole = s.currentRole := by
  simp only [Server.handleDiscoveryPacket]
  split
  · exact (s.addClient_frame fl _).1
  · rfl

/-- A step of the receive loop that keeps or adds honoured threads. -/
theorem Audit.Orderly.advance {a : Audit} (h : a.Orderly) {n : Node} {sends : List Send}
    (hbooted : n.loop ≠ .off ∧ n.loop ≠ .discovering) (hacked : n.acked = a.node.acked)
    (hthreads : ∀ t ∈ n.threads, t.Honoured n.server (a.sent ++ sends)) : Audit.Orderly ⟨n, a.sent ++ sends⟩ where
  booting hloop := by
    cases hloop with
    | inl hoff => exact absurd hoff hbooted.1
    | inr hdiscovering => exact absurd hdiscovering hbooted.2
  threads := hthreads
  acked r hr := (h.acked r (hacked ▸ hr)).mono (List.subset_append_left _ _)

/-- An update handler keeps the role. -/
theorem Server.handleUpdate_role (s : Server) (packet : Packet) :
    (s.handleUpdate fl packet).currentRole = s.currentRole := by
  cases packet with
  | addClientUpdate data =>
    simp only [Server.handleUpdate, Server.handleClientUpdate]
    split <;> rfl
  | _ => rfl

/-- What a step of a thread leaves of the obligations: the other threads keep theirs, what it
goes on as is honoured, and so is the acknowledgement it sends. -/
structure Thread.Discharges (n : Node) (sent : List Send) (o : ThreadOutcome) : Prop where
  others : ∀ t ∈ n.threads, t.Honoured o.server (sent ++ o.sends)
  own : ∀ t ∈ o.threads, t.Honoured o.server (sent ++ o.sends)
  acked : ∀ r ∈ o.acked, Delivers (sent ++ o.sends) r

/-- A step that keeps ledger, role and backups and acknowledges nothing. -/
theorem Thread.Discharges.quietly {n : Node} {sent : List Send} {o : ThreadOutcome}
    (h : ∀ t ∈ n.threads, t.Honoured n.server sent) (hsame : n.server.SameCore o.server)
    (hown : ∀ t ∈ o.threads, t.Honoured o.server (sent ++ o.sends)) (hacked : o.acked = none) :
    Thread.Discharges n sent o where
  others t ht := (h t ht).same hsame (List.subset_append_left _ _)
  own := hown
  acked r hr := by
    rw [hacked] at hr
    contradiction

/-- Every step of a thread discharges what it owes. -/
theorem Thread.Honoured.step {n : Node} {sent : List Send} {t : Thread} (ht : t ∈ n.threads)
    (h : ∀ t ∈ n.threads, t.Honoured n.server sent) {o : ThreadOutcome}
    (hstep : t.step fl n.server n.locked = some o) : Thread.Discharges n sent o := by
  have hsent : sent ⊆ sent ++ o.sends := List.subset_append_left _ _
  have hown := h t ht
  have hkeep : n.server.SameCore o.server → ∀ t' ∈ n.threads, t'.Honoured o.server (sent ++ o.sends) :=
    fun hsame t' ht' => (h t' ht').same hsame hsent
  cases Thread.step_cases fl hstep with
  | @request req clientAddr server status balance hfree hserved =>
    have hdelivered := Server.receipt_delivered fl hown (inetNtop clientAddr.sinAddr) (inetNtop req.destAddr)
      req.value.toInt req.seqn.toInt
    rw [hserved] at hdelivered
    refine ⟨fun t' ht' => ?_, fun t' ht' => ?_, fun r hr => by contradiction⟩
    · exact (h t' ht').unlocked (Node.not_holdsLock hfree ht') (hdelivered.1.trans hown.symm) hsent
    · rw [List.mem_singleton.mp ht']
      exact hdelivered
  | processing =>
    refine ⟨hkeep ?_, fun t' ht' => ?_, fun r hr => by contradiction⟩
    · simp only
      split <;> exact ⟨rfl, rfl, rfl⟩
    · rw [List.mem_singleton.mp ht']
      exact fun r hr => (hown.2 r hr).mono (List.subset_append_right _ _)
  | replying => exact ⟨hkeep (Server.SameCore.refl _), by simp, fun r hr => (hown r hr).mono hsent⟩
  | promoted hfree hrole =>
    refine ⟨fun t' ht' => ?_, by simp [Thread.Honoured], fun r hr => by contradiction⟩
    refine (h t' ht').quiet (Bool.eq_false_of_not_eq_true fun hrequest => ?_) hsent
    rw [(h t' ht').role hrequest] at hrole
    contradiction
  | _ => exact .quietly h ⟨rfl, rfl, rfl⟩ (by simp [Thread.Honoured]) rfl

/-- A step of a detached thread. -/
theorem Audit.Orderly.ran {a : Audit} (h : a.Orderly) {i : ℕ} {t : Thread} {o : ThreadOutcome}
    (ht : a.node.threads[i]? = some t) (houtcome : t.step fl a.node.server a.node.locked = some o) :
    Audit.Orderly
      ⟨{ a.node with
          server := o.server
          threads := a.node.threads.eraseIdx i ++ o.threads
          acked := a.node.acked ++ o.acked.toList },
        a.sent ++ o.sends⟩ := by
  have hmem : t ∈ a.node.threads := List.mem_of_getElem? ht
  have hdischarges := Thread.Honoured.step fl hmem h.threads houtcome
  refine ⟨fun hloop => ?_, fun t' ht' => ?_, fun r hr => ?_⟩
  · rw [h.booting hloop] at hmem
    contradiction
  · cases List.mem_append.mp ht' with
    | inl hold => exact hdischarges.others t' (List.mem_of_mem_eraseIdx hold)
    | inr hnew => exact hdischarges.own t' hnew
  · cases List.mem_append.mp hr with
    | inl hold => exact (h.acked r hold).mono (List.subset_append_left _ _)
    | inr hnew => exact hdischarges.acked r (Option.mem_toList.mp hnew)

/-- One step that demotes nobody in the middle of a request. -/
theorem Audit.Orderly.step {a b : Audit} (h : a.Orderly) {e : NodeEvent} (hguard : QuietDemotion a e)
    (hstep : a.step fl e = some b) : b.Orderly := by
  obtain ⟨⟨n, sends⟩, hn, hb⟩ := Option.bind_eq_some_iff.mp hstep
  obtain rfl := Option.some.inj hb
  have hsent : a.sent ⊆ a.sent ++ sends := List.subset_append_left _ _
  have hbooted : a.node.loop = .receiving → a.node.loop ≠ .off ∧ a.node.loop ≠ .discovering :=
    fun hloop => by simp [hloop]
  have hkeep : ∀ s : Server, a.node.server.SameCore s →
      ∀ t ∈ a.node.threads, t.Honoured s (a.sent ++ sends) :=
    fun s hsame t ht => (h.threads t ht).same hsame hsent
  have hunlocked : a.node.locked = false → ∀ s : Server, s.currentRole = a.node.server.currentRole →
      ∀ t ∈ a.node.threads, t.Honoured s (a.sent ++ sends) :=
    fun hfree s hrole t ht => (h.threads t ht).unlocked (Node.not_holdsLock hfree ht) hrole hsent
  have hsame := hkeep _ (Server.SameCore.refl a.node.server)
  -- the discovery wait starts the first thread of the process
  have hfirst : a.node.loop = .discovering → ∀ (s : Server) (t : Thread), t.Honoured s (a.sent ++ sends) →
      ∀ t' ∈ a.node.threads ++ [t], t'.Honoured s (a.sent ++ sends) := by
    intro hloop s t ht t' ht'
    rw [h.booting (.inr hloop), List.nil_append, List.mem_singleton] at ht'
    rwa [ht']
  cases Node.step_cases fl hn with
  | discover hloop =>
    exact ⟨fun _ => h.booting (.inl hloop), hsame, fun r hr => (h.acked r hr).mono hsent⟩
  | giveUpDiscovery hloop => exact h.advance (by simp) rfl (hfirst hloop _ _ trivial)
  | foundPrimary hloop => exact h.advance (by simp) rfl (hfirst hloop _ _ trivial)
  | ignored hloop hpacket =>
    exact ⟨fun _ => h.booting (.inr hloop), hsame, fun r hr => (h.acked r hr).mono hsent⟩
  | dropped hloop hheeded => exact h.advance (hbooted hloop) rfl hsame
  | request hloop hrole =>
    refine h.advance (hbooted hloop) rfl fun t ht => ?_
    cases List.mem_append.mp ht with
    | inl hold => exact hsame t hold
    | inr hnew =>
      rw [List.mem_singleton.mp hnew]
      exact hrole
  | client hloop hrole hfree =>
    exact h.advance (hbooted hloop) rfl (hunlocked hfree _ (Server.handleDiscoveryPacket_role fl _ _))
  | backup hloop hrole hfree => exact h.advance (by simp) rfl (hunlocked hfree _ rfl)
  | heartbeat hloop => exact h.advance (hbooted hloop) rfl (hkeep _ (Server.handleHeartbeatPacket_sameCore _))
  | serverDiscovery hloop => exact h.advance (hbooted hloop) rfl hsame
  | @announcement newLeaderId sender hloop =>
    rcases eq_or_ne newLeaderId a.node.server.serverId with rfl | hother
    · exact h.advance (hbooted hloop) rfl (hkeep _ (Server.handleNewPrimaryAnnouncementPacket_own _ _))
    · exact h.advance (hbooted hloop) rfl fun t ht =>
        (h.threads t ht).quiet (hguard (decide_eq_true hother) t ht) hsent
  | election hloop => exact h.advance (hbooted hloop) rfl (hkeep _ (Server.handleElectionPacket_sameCore _ _ _))
  | electionAnswer hloop =>
    exact h.advance (hbooted hloop) rfl (hkeep _ (Server.handleElectionAnswerPacket_sameCore _ _))
  | update hloop hupdate hrole => exact h.advance (by simp) rfl hsame
  | updated hloop hfree => exact h.advance (by simp) rfl (hunlocked hfree _ (Server.handleUpdate_role fl _ _))
  | sent hloop => exact h.advance (by simp) rfl hsame
  | registered hloop => exact h.advance (by simp) rfl hsame
  | ran hget houtcome => exact h.ran fl hget houtcome

/-- While the server is a backup, no step of a thread of an orderly process touches accounts
or log. -/
theorem Audit.Orderly.onlyPrimaryExecutes {a : Audit} (h : a.Orderly) : OnlyPrimaryExecutes fl a.node := by
  intro hrole i result hresult
  obtain ⟨t, ht, ho⟩ := Option.bind_eq_some_iff.mp hresult
  obtain ⟨o, houtcome, hn⟩ := Option.bind_eq_some_iff.mp ho
  obtain rfl := Option.some.inj hn
  have hquiet : t.inRequest = false := by
    refine Bool.eq_false_of_not_eq_true fun hrequest => ?_
    rw [(h.threads t (List.mem_of_getElem? ht)).role hrequest] at hrole
    contradiction
  have hledger : o.server.toLedger = a.node.server.toLedger := by
    rcases Thread.step_toLedger fl houtcome with hkeep | ⟨req, clientAddr, rfl, -⟩
    · exact hkeep
    · contradiction
  exact ⟨congrArg Ledger.clients hledger, congrArg Ledger.transactionHistory hledger⟩

/-- In every run in which no request is pending whenever another server's announcement is
handled, no thread changes accounts or log while the server is a backup, and every
acknowledged transaction was sent to every backup listed when it was logged. -/
theorem only_primary_executes {serverId : Word} {port : UInt16} {a : Audit}
    (h : Reachable (Audit.step fl) QuietDemotion (· = ⟨Node.new serverId port, []⟩) a) :
    OnlyPrimaryExecutes fl a.node ∧ ∀ r ∈ a.node.acked, Delivers a.sent r := by
  have horderly : a.Orderly := by
    refine h.invariant (fun b hb => ?_) (fun _ _ _ hs hg hstep => hs.step fl hg hstep)
    rw [hb]
    exact ⟨fun _ => rfl, by simp [Node.new], by simp [Node.new]⟩
  exact ⟨horderly.onlyPrimaryExecutes fl, horderly.acked⟩

/-- A process that finds no primary, elects itself, registers client 21 and the backup at
host 3, and receives the client's first request. -/
def electedWithRequest : List NodeEvent :=
  [.act .discover, .act .giveUpDiscovery] ++ List.replicate 6 (.act (.runThread 0)) ++
    [.act (.runThread 1), .receive .discovery (testHost 21), .receive .registerBackup (testHost 3), .act .resume,
      .act .resume, .receive (.transactionReq ⟨(testHost 21).sinAddr, 100, 1⟩) (testHost 21)]

/-- The announcement of a server with another id. -/
def rivalAnnouncement : NodeEvent := .receive (.newPrimaryAnnouncement 9) (testHost 9)

/-- A demotion after the acknowledgement leaves the request propagated. -/
theorem only_primary_executes_until_quiet_demotion :
    ∃ a : Audit, (a.node.server.currentRole = .backup ∧ a.node.acked.length = 1) ∧
      OnlyPrimaryExecutes singlePrecision a.node ∧ ∀ r ∈ a.node.acked, Delivers a.sent r := by
  obtain ⟨a, hreach, htest⟩ := exists_reachable_of_replay (Audit.step singlePrecision) QuietDemotion
    (· = ⟨Node.new 2 4000, []⟩)
    (electedWithRequest ++ List.replicate 3 (.act (.runThread 1)) ++ [rivalAnnouncement])
    (fun a => decide (a.node.server.currentRole = .backup ∧ a.node.acked.length = 1)) rfl (by decide +kernel)
  exact ⟨a, of_decide_eq_true htest, only_primary_executes singlePrecision hreach⟩

/-- Demoted before the thread starts, the backup executes the request; demoted between
execution and the second test of the role, it acknowledges what it never propagates. -/
theorem demoted_server_executes_and_acknowledges :
    (∃ a, Reachable (Audit.step singlePrecision) Always (· = ⟨Node.new 2 4000, []⟩) a ∧
        ¬ OnlyPrimaryExecutes singlePrecision a.node) ∧
      ∃ a, Reachable (Audit.step singlePrecision) Always (· = ⟨Node.new 2 4000, []⟩) a ∧
        ¬ ∀ r ∈ a.node.acked, Delivers a.sent r := by
  constructor
  · obtain ⟨a, hreach, htest⟩ := exists_reachable_of_replay (Audit.step singlePrecision) Always
      (· = ⟨Node.new 2 4000, []⟩) (electedWithRequest ++ [rivalAnnouncement])
      (fun a => decide (a.node.server.currentRole = .backup) && (a.node.runThread singlePrecision 1).any
        fun result : Node × List Send => decide (result.1.server.clients ≠ a.node.server.clients))
      rfl (by decide +kernel)
    rw [Bool.and_eq_true, decide_eq_true_eq, Option.any_eq_true] at htest
    obtain ⟨hrole, result, hresult, hchanged⟩ := htest
    exact ⟨a, hreach, fun h => of_decide_eq_true hchanged (h hrole 1 result hresult).1⟩
  · obtain ⟨a, hreach, htest⟩ := exists_reachable_of_replay (Audit.step singlePrecision) Always
      (· = ⟨Node.new 2 4000, []⟩)
      (electedWithRequest ++ [.act (.runThread 1), rivalAnnouncement, .act (.runThread 1), .act (.runThread 1)])
      (fun a => decide (¬ ∀ r ∈ a.node.acked, Delivers a.sent r)) rfl (by decide +kernel)
    exact ⟨a, hreach, of_decide_eq_true htest⟩

end BankReplica
