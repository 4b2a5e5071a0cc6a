import BankReplica.Library.PolledRegister
import BankReplica.Sequencing
import BankReplica.ExactlyOnce

/-!
# The operator's log

Request threads and `addClient` change the server under the writer lock and call
`ServerInterface::notify` afterwards; the interface thread waits for `data_changed` with its
mutex, prints what `last_log_info` stands for under the reader lock, and clears the flag.
The one slot and the one flag are a register that a poller reads: a transaction is printed
once for each pass of the interface thread until the next request writes the slot.
-/

namespace BankReplica

open PolledRegister Runs

variable (fl : FloatRounding)

/-- A line of the log, with the counters printed behind it. -/
inductive LogMessage
  /-- `logRequisitionMessage`. -/
  | requisition (transaction : Transaction) (numTransactions totalTransferred totalBalance : ℤ)
  /-- `logDuplicatedMessage`. -/
  | duplicated (logInfo : LogInfo) (numTransactions totalTransferred totalBalance : ℤ)
deriving DecidableEq

/-- `Server::getLastTransaction`. -/
def Server.getLastTransaction (s : Server) : Transaction :=
  (s.transactionHistory.getLast?).getD ⟨0, .empty, .empty, 0, 0⟩

/-- What `ServerInterface::run` prints under the reader lock. -/
def Server.logMessage (s : Server) : Option LogMessage :=
  match s.lastLogInfo.type with
  | .success =>
    some (.requisition s.getLastTransaction s.numTransactions s.totalTransferred s.totalBalance)
  | .duplicate => some (.duplicated s.lastLogInfo s.numTransactions s.totalTransferred s.totalBalance)
  | .none => none

/-- The transaction a line reports. -/
def LogMessage.transaction : LogMessage → Option Transaction
  | .requisition transaction .. => some transaction
  | .duplicated .. => none

/-- Where the interface thread stands in its loop. -/
inductive Stage
  /-- In `cv.wait`, without the mutex. -/
  | waiting
  /-- Past `cv.wait`, with the mutex. -/
  | awake
  /-- Past `reader_unlock`, with the mutex. -/
  | printed
deriving DecidableEq

/-- A server with its interface thread, the threads between their section and `notify`, the
lines printed so far, and how often the interface thread has passed since a request last
wrote `last_log_info`. -/
structure Interface where
  server : Server
  owing : ℕ := 0
  stage : Stage := .waiting
  printed : List LogMessage := []
  passes : ℕ := 0
deriving DecidableEq

/-- The steps of the threads. -/
inductive InterfaceEvent
  /-- The section of `processTransaction`. -/
  | request (sourceIp : IpString) (destAddr : InAddr) (value seqn : ℤ)
  /-- The section of `addClient`. -/
  | addClient (clientIp : IpString)
  /-- `ServerInterface::notify`. -/
  | notify
  /-- The end of `cv.wait`. -/
  | wake
  /-- The section between `reader_lock` and `reader_unlock`. -/
  | print
  /-- The write that clears `data_changed`. -/
  | clear
deriving DecidableEq

/-- The step is a request that writes `last_log_info`. -/
def Interface.writes (p : Interface) : InterfaceEvent → Bool
  | .request sourceIp destAddr value seqn =>
    shouldNotify (p.server.verdict fl sourceIp (inetNtop destAddr) value seqn)
  | _ => false

/-- One step. `notify` waits for the mutex, which the interface thread holds from the end of its
wait until it has cleared the flag. -/
def Interface.step (p : Interface) : InterfaceEvent → Option Interface
  | .request sourceIp destAddr value seqn =>
    let (server, status, _) := p.server.handleTransactionLogic fl sourceIp (inetNtop destAddr) value seqn
    some
      (if shouldNotify status then { p with server := server, owing := p.owing + 1, passes := 0 }
      else { p with server := server })
  | .addClient clientIp =>
    let (server, clientAdded, _) := p.server.wasClientAdded fl clientIp
    some { p with server := server, owing := if clientAdded then p.owing + 1 else p.owing }
  | .notify =>
    if p.owing ≠ 0 ∧ p.stage = .waiting then
      some { p with server := p.server.notify, owing := p.owing - 1 }
    else none
  | .wake =>
    if p.stage = .waiting ∧ p.server.dataChanged then some { p with stage := .awake } else none
  | .print =>
    if p.stage = .awake then
      some
        { p with
          stage := .printed
          printed := p.printed ++ p.server.logMessage.toList
          passes := p.passes + 1 }
    else none
  | .clear =>
    if p.stage = .printed then
      some { p with server := { p.server with dataChanged := false }, stage := .waiting }
    else none

/-- A primary from its fresh start, with nothing printed. -/
def freshInterface (serverId : Word) (port : UInt16) : Interface where
  server := freshPrimary serverId port

/-- All threads are idle and `data_changed` is false. -/
def Interface.Idle (p : Interface) : Prop :=
  p.owing = 0 ∧ p.stage = .waiting ∧ p.server.dataChanged = false

instance (p : Interface) : Decidable p.Idle := inferInstanceAs (Decidable (_ ∧ _ ∧ _))

/-- The transactions printed so far. -/
def Interface.transactions (p : Interface) : List Transaction := p.printed.filterMap LogMessage.transaction

/-- While `last_log_info` stands for a transaction, the interface thread passes before the next
request writes it, and passes no second time. -/
def OnePassEach (p : Interface) (e : InterfaceEvent) : Prop :=
  p.server.lastLogInfo.type = .success →
    (p.writes fl e = true → p.passes ≠ 0) ∧ (e = .print → p.passes = 0)

instance (p : Interface) (e : InterfaceEvent) : Decidable (OnePassEach fl p e) :=
  inferInstanceAs (Decidable (_ → _ ∧ _))

/-! ## The slot as a register -/

/-- The transaction `last_log_info` stands for. -/
def Server.reported (s : Server) : Option Transaction :=
  if s.lastLogInfo.type = .success then s.transactionHistory.getLast? else none

/-- The slot, the log and the printed transactions as a polled register. -/
def Interface.register (p : Interface) : Register Transaction where
  held := p.server.reported
  passes := p.passes
  written := p.server.transactionHistory
  copied := p.transactions

/-- A request that is accepted puts its transaction into the slot, a duplicate or one out of
sequence empties it, and any other leaves the server as it was. -/
theorem Server.handleTransactionLogic_slot (s : Server) (sourceIp destIp : IpString) (value seqn : ℤ) :
    let verdict := s.verdict fl sourceIp destIp value seqn
    let server := (s.handleTransactionLogic fl sourceIp destIp value seqn).1
    (verdict = .success ∧ server.lastLogInfo.type = .success ∧ server.transactionHistory =
        s.transactionHistory ++ [s.loggedTransaction sourceIp destIp value seqn]) ∨
      (shouldNotify verdict = true ∧ server.lastLogInfo.type = .duplicate ∧
        server.transactionHistory = s.transactionHistory) ∨
      shouldNotify verdict = false ∧ server = s := by
  by_cases haccept : s.verdict fl sourceIp destIp value seqn = .success
  · refine .inl ⟨haccept, ?_⟩
    rw [Server.handleTransactionLogic_accept fl haccept]
    exact ⟨rfl, Ledger.commit_transactionHistory fl _ _ _ _ _⟩
  · refine .inr ?_
    unfold Ledger.verdict at haccept ⊢
    simp only [Server.handleTransactionLogic, haccept, if_false]
    split
    · exact .inl ⟨by simp only [shouldNotify, ‹_›, or_true, decide_true], rfl, rfl⟩
    · rename_i hother
      exact .inr ⟨by simpa only [shouldNotify, haccept, false_or, decide_eq_false_iff_not] using hother, rfl⟩

/-- Registering a client leaves the slot and the log alone. -/
theorem Server.wasClientAdded_slot (s : Server) (clientIp : IpString) :
    (s.wasClientAdded fl clientIp).1.lastLogInfo = s.lastLogInfo ∧
      (s.wasClientAdded fl clientIp).1.transactionHistory = s.transactionHistory := by
  simp only [Server.wasClientAdded]
  split <;> exact ⟨rfl, rfl⟩

/-- The register depends on the slot, the log, the passes and the printed lines alone. -/
theorem Interface.register_congr {p q : Interface} (hslot : q.server.lastLogInfo = p.server.lastLogInfo)
    (hhistory : q.server.transactionHistory = p.server.transactionHistory) (hpasses : q.passes = p.passes)
    (hprinted : q.printed = p.printed) : q.register = p.register := by
  simp only [Interface.register, Server.reported, Interface.transactions, hslot, hhistory, hpasses, hprinted]

/-- What a step does to the register. -/
inductive Interface.Turn (p : Interface) (e : InterfaceEvent) (q : Interface) : Prop
  | kept (hwrites : p.writes fl e = false) (hprint : e ≠ .print) (hregister : q.register = p.register)
  | put (item : Option Transaction) (hwrites : p.writes fl e = true) (hprint : e ≠ .print)
      (hfresh : ∀ tx ∈ item, tx.id = p.server.numTransactions + 1) (hregister : q.register = p.register.put item)
  | pass (hwrites : p.writes fl e = false) (hprint : e = .print) (hregister : q.register = p.register.pass)

/-- The line printed reports the transaction `last_log_info` stands for. -/
theorem Server.logMessage_transaction {s : Server}
    (h : s.lastLogInfo.type = .success → s.transactionHistory ≠ []) :
    s.logMessage.toList.filterMap LogMessage.transaction = s.reported.toList := by
  cases htype : s.lastLogInfo.type with
  | success =>
    have hlast := List.getLast?_eq_getLast_of_ne_nil (h htype)
    simp [Server.logMessage, Server.reported, Server.getLastTransaction, LogMessage.transaction, htype, hlast]
  | none | duplicate => simp [Server.logMessage, Server.reported, LogMessage.transaction, htype]

/-- Every step. -/
theorem Interface.step_turn {p q : Interface} {e : InterfaceEvent}
    (hlogged : p.server.lastLogInfo.type = .success → p.server.transactionHistory ≠ [])
    (h : p.step fl e = some q) : p.Turn fl e q := by
  cases e with
  | request sourceIp destAddr value seqn =>
    have hslot := p.server.handleTransactionLogic_slot fl sourceIp (inetNtop destAddr) value seqn
    simp only [Interface.step, Server.handleTransactionLogic_status, Option.some.injEq] at h
    rcases hslot with ⟨haccept, htype, hhistory⟩ | ⟨hnotify, htype, hhistory⟩ | ⟨hnone, hserver⟩
    · have hnotify : shouldNotify (p.server.verdict fl sourceIp (inetNtop destAddr) value seqn) = true := by
        rw [haccept]
        rfl
      rw [if_pos hnotify] at h
      refine .put (some (p.server.loggedTransaction sourceIp (inetNtop destAddr) value seqn)) hnotify (by simp)
        (fun tx htx => (Option.some.inj htx) ▸ rfl) ?_
      rw [← h]
      simp [Interface.register, Register.put, Server.reported, Interface.transactions, htype, hhistory]
    · rw [if_pos hnotify] at h
      refine .put none hnotify (by simp) (by simp) ?_
      rw [← h]
      simp [Interface.register, Register.put, Server.reported, Interface.transactions, htype, hhistory]
    · rw [if_neg (by simp [hnone]), hserver] at h
      exact .kept hnone (by simp) (h ▸ rfl)
  | addClient clientIp =>
    have hslot := p.server.wasClientAdded_slot fl clientIp
    obtain rfl := Option.some.inj h
    exact .kept rfl (by simp) (Interface.register_congr hslot.1 hslot.2 rfl rfl)
  | print =>
    simp only [Interface.step] at h
    split at h
    · obtain rfl := Option.some.inj h
      refine .pass rfl rfl ?_
      simp only [Interface.register, Register.pass, Interface.transactions, List.filterMap_append,
        Server.logMessage_transaction hlogged]
    · contradiction
  | notify | wake | clear =>
    simp only [Interface.step] at h
    split at h
    · exact .kept rfl (by simp) ((Option.some.inj h) ▸ rfl)
    · contradiction

/-! ## Runs -/

/-- The ledger is numbered, the register is sound, and a slot that stands for a transaction stands
for one in the log. -/
structure Interface.Sound (p : Interface) : Prop where
  sequenced : Sequenced p.server.toLedger
  register : p.register.Sound
  logged : p.server.lastLogInfo.type = .success → p.server.transactionHistory ≠ []

/-- A transaction the interface thread has not passed will make it pass. -/
def Interface.Promised (p : Interface) : Prop :=
  p.passes = 0 → p.server.lastLogInfo.type = .success →
    p.owing ≠ 0 ∨ p.server.dataChanged = true ∧ p.stage ≠ .printed

/-- A transaction with the next id is new. -/
theorem Sequenced.id_fresh {l : Ledger} (h : Sequenced l) {tx : Transaction} (hid : tx.id = l.numTransactions + 1) :
    tx ∉ l.transactionHistory := by
  intro htx
  have hlisted : tx.id ∈ upTo l.numTransactions := h.ids ▸ List.mem_map_of_mem htx
  have hhigh := (mem_upTo.mp hlisted).2
  omega

/-- A step is a call on the ledger or keeps it. -/
theorem Interface.step_sequenced {p q : Interface} {e : InterfaceEvent} (hseq : Sequenced p.server.toLedger)
    (h : p.step fl e = some q) : Sequenced q.server.toLedger := by
  cases e with
  | request sourceIp destAddr value seqn =>
    have hledger := p.server.handleTransactionLogic_toLedger fl sourceIp (inetNtop destAddr) value seqn
    have happlied : Sequenced
        (p.server.handleTransactionLogic fl sourceIp (inetNtop destAddr) value seqn).1.toLedger := by
      rw [hledger]
      exact hseq.apply (.processTransaction sourceIp destAddr value seqn)
    simp only [Interface.step, Option.some.injEq] at h
    rw [← h]
    split <;> exact happlied
  | addClient clientIp =>
    have hledger : (p.server.wasClientAdded fl clientIp).1.toLedger =
        p.server.toLedger.apply fl (.addClient clientIp) := by
      refine Eq.trans ?_ (p.server.addClient_toLedger fl clientIp)
      simp only [Server.addClient]
      split <;> rfl
    obtain rfl := Option.some.inj h
    exact hledger ▸ hseq.apply _
  | notify | wake | print | clear =>
    simp only [Interface.step] at h
    split at h
    · exact (Option.some.inj h) ▸ hseq
    · contradiction

/-- A step leaves a slot that stands for a transaction only with one in the log. -/
theorem Interface.step_logged {p q : Interface} {e : InterfaceEvent}
    (hlogged : p.server.lastLogInfo.type = .success → p.server.transactionHistory ≠ [])
    (h : p.step fl e = some q) : q.server.lastLogInfo.type = .success → q.server.transactionHistory ≠ [] := by
  cases e with
  | request sourceIp destAddr value seqn =>
    have hafter : (p.server.handleTransactionLogic fl sourceIp (inetNtop destAddr) value seqn).1.lastLogInfo.type =
        .success →
          (p.server.handleTransactionLogic fl sourceIp (inetNtop destAddr) value seqn).1.transactionHistory ≠ [] := by
      rcases p.server.handleTransactionLogic_slot fl sourceIp (inetNtop destAddr) value seqn with
        ⟨_, _, hhistory⟩ | ⟨_, htype, _⟩ | ⟨_, hserver⟩
      · simp [hhistory]
      · simp [htype]
      · rwa [hserver]
    simp only [Interface.step, Option.some.injEq] at h
    rw [← h]
    split <;> exact hafter
  | addClient clientIp =>
    have hslot := p.server.wasClientAdded_slot fl clientIp
    have hafter : (p.server.wasClientAdded fl clientIp).1.lastLogInfo.type = .success →
        (p.server.wasClientAdded fl clientIp).1.transactionHistory ≠ [] := by
      rw [hslot.1, hslot.2]
      exact hlogged
    exact (Option.some.inj h) ▸ hafter
  | notify | wake | print | clear =>
    simp only [Interface.step] at h
    split at h
    · exact (Option.some.inj h) ▸ hlogged
    · contradiction

/-- Every step keeps the interface sound. -/
theorem Interface.Sound.step {p q : Interface} {e : InterfaceEvent} (h : p.Sound) (hstep : p.step fl e = some q) :
    q.Sound := by
  refine ⟨Interface.step_sequenced fl h.sequenced hstep, ?_, Interface.step_logged fl h.logged hstep⟩
  cases Interface.step_turn fl h.logged hstep with
  | kept hwrites hprint hregister => exact hregister ▸ h.register
  | put item hwrites hprint hfresh hregister =>
    exact hregister ▸ h.register.put fun tx htx => h.sequenced.id_fresh (hfresh tx htx)
  | pass hwrites hprint hregister => exact hregister ▸ h.register.pass

/-- Every step keeps the promise. -/
theorem Interface.Promised.step {p q : Interface} {e : InterfaceEvent} (h : p.Promised)
    (hstep : p.step fl e = some q) : q.Promised := by
  unfold Interface.Promised at h ⊢
  cases e with
  | request sourceIp destAddr value seqn =>
    have hslot := p.server.handleTransactionLogic_slot fl sourceIp (inetNtop destAddr) value seqn
    simp only [Interface.step, Server.handleTransactionLogic_status, Option.some.injEq] at hstep
    rw [← hstep]
    split
    · exact fun _ _ => .inl (Nat.succ_ne_zero _)
    · rename_i hnone
      rcases hslot with ⟨haccept, _, _⟩ | ⟨hnotify, _, _⟩ | ⟨_, hserver⟩
      · exact absurd (by rw [haccept]; rfl) hnone
      · exact absurd hnotify hnone
      · rwa [hserver]
  | addClient clientIp =>
    have hslot := (p.server.wasClientAdded_slot fl clientIp).1
    have hflag : (p.server.wasClientAdded fl clientIp).1.dataChanged = p.server.dataChanged := by
      simp only [Server.wasClientAdded]
      split <;> rfl
    simp only [Interface.step, Option.some.injEq] at hstep
    simp only [← hstep, hslot, hflag]
    intro hpasses htype
    refine (h hpasses htype).imp_left fun howing => ?_
    split
    · exact Nat.succ_ne_zero _
    · exact howing
  | notify =>
    simp only [Interface.step] at hstep
    split at hstep
    · rename_i hfree
      obtain rfl := Option.some.inj hstep
      exact fun _ _ => .inr ⟨rfl, by simp [hfree.2]⟩
    · contradiction
  | wake =>
    simp only [Interface.step] at hstep
    split at hstep
    · rename_i hset
      obtain rfl := Option.some.inj hstep
      exact fun _ _ => .inr ⟨hset.2, by simp⟩
    · contradiction
  | print =>
    simp only [Interface.step] at hstep
    split at hstep
    · obtain rfl := Option.some.inj hstep
      exact fun hpasses => absurd hpasses (Nat.succ_ne_zero _)
    · contradiction
  | clear =>
    simp only [Interface.step] at hstep
    split at hstep
    · rename_i hprinted
      obtain rfl := Option.some.inj hstep
      exact fun hpasses htype => .inl ((h hpasses htype).resolve_right fun hset => hset.2 hprinted)
    · contradiction

/-- A slot stands for a transaction exactly if its type says so. -/
theorem Interface.Sound.held_iff {p : Interface} (h : p.Sound) :
    (∃ tx, p.register.held = some tx) ↔ p.server.lastLogInfo.type = .success := by
  simp only [Interface.register, Server.reported]
  constructor
  · intro ⟨tx, htx⟩
    split at htx
    · assumption
    · contradiction
  · intro htype
    rw [if_pos htype]
    exact ⟨_, List.getLast?_eq_getLast_of_ne_nil (h.logged htype)⟩

/-- A step that meets the condition keeps the register in order. -/
theorem Interface.Sound.orderly {p q : Interface} {e : InterfaceEvent} (h : p.Sound) (horderly : p.register.Orderly)
    (hguard : OnePassEach fl p e) (hstep : p.step fl e = some q) : q.register.Orderly := by
  cases Interface.step_turn fl h.logged hstep with
  | kept hwrites hprint hregister => exact hregister ▸ horderly
  | put item hwrites hprint hfresh hregister =>
    refine hregister ▸ horderly.put h.register fun tx htx => ?_
    exact (hguard (h.held_iff.mp ⟨tx, htx⟩)).1 hwrites
  | pass hwrites hprint hregister =>
    refine hregister ▸ horderly.pass fun tx htx => ?_
    exact (hguard (h.held_iff.mp ⟨tx, htx⟩)).2 hprint

/-- A step that does not meet the condition spoils the register. -/
theorem Interface.Sound.spoiled {p q : Interface} {e : InterfaceEvent} (h : p.Sound) (hbroken : ¬ OnePassEach fl p e)
    (hstep : p.step fl e = some q) : q.register.Spoiled := by
  obtain ⟨htype, hbreach⟩ := Classical.not_imp.mp hbroken
  obtain ⟨tx, hheld⟩ := h.held_iff.mpr htype
  cases Interface.step_turn fl h.logged hstep with
  | kept hwrites hprint hregister =>
    exact absurd ⟨fun hwritten => absurd hwritten (by simp [hwrites]), fun hprinted => absurd hprinted hprint⟩ hbreach
  | put item hwrites hprint hfresh hregister =>
    have hunread : p.register.passes = 0 :=
      not_not.mp fun hread => hbreach ⟨fun _ => hread, fun hprinted => absurd hprinted hprint⟩
    exact hregister ▸ h.register.spoiled_put hheld hunread fun tx' htx' => h.sequenced.id_fresh (hfresh tx' htx')
  | pass hwrites hprint hregister =>
    have hread : p.register.passes ≠ 0 := fun hunread =>
      hbreach ⟨fun hwritten => absurd hwritten (by simp [hwrites]), fun _ => hunread⟩
    exact hregister ▸ h.register.spoiled_pass hheld hread

/-- A spoiled register stays spoiled. -/
theorem Interface.Sound.stays_spoiled {p q : Interface} {e : InterfaceEvent} (h : p.Sound)
    (hspoiled : p.register.Spoiled) (hstep : p.step fl e = some q) : q.register.Spoiled := by
  cases Interface.step_turn fl h.logged hstep with
  | kept hwrites hprint hregister => exact hregister ▸ hspoiled
  | put item hwrites hprint hfresh hregister =>
    exact hregister ▸ hspoiled.put fun tx htx => h.sequenced.id_fresh (hfresh tx htx)
  | pass hwrites hprint hregister => exact hregister ▸ hspoiled.pass

/-- Before any step nothing is logged, printed or promised. -/
theorem freshInterface_sound (serverId : Word) (port : UInt16) :
    (freshInterface serverId port).Sound ∧ (freshInterface serverId port).Promised ∧
      (freshInterface serverId port).register.Orderly :=
  ⟨⟨sequenced_empty, ⟨List.nodup_nil, by simp [freshInterface, freshPrimary, Server.new, Interface.register,
      Server.reported], by simp [freshInterface, Interface.register, Interface.transactions]⟩,
      fun htype => by contradiction⟩,
    fun _ htype => by contradiction, ⟨fun tx htx => by contradiction, fun tx htx => Nat.zero_le 1⟩⟩

section

variable {fl} {serverId : Word} {port : UInt16} {p : Interface}

/-- Every run keeps the interface sound and its promise. -/
theorem Interface.sound_of_reachable {guard : Interface → InterfaceEvent → Prop}
    (h : Reachable (Interface.step fl) guard (· = freshInterface serverId port) p) : p.Sound ∧ p.Promised := by
  refine Reachable.invariant (I := fun q => q.Sound ∧ q.Promised) (fun q hq => ?_)
    (fun q e q' hs _ hstep => ⟨hs.1.step fl hstep, hs.2.step fl hstep⟩) h
  have hfresh := freshInterface_sound serverId port
  exact hq ▸ ⟨hfresh.1, hfresh.2.1⟩

/-- A run whose steps meet the condition keeps the register in order. -/
theorem Interface.orderly_of_reachable
    (h : Reachable (Interface.step fl) (OnePassEach fl) (· = freshInterface serverId port) p) :
    p.register.Orderly := by
  induction h with
  | init hp => exact hp ▸ (freshInterface_sound serverId port).2.2
  | step hreach hguard hstep ih => exact (Interface.sound_of_reachable hreach).1.orderly fl ih hguard hstep

/-- A run meets the condition at every step, or its register is spoiled for good. -/
theorem Interface.met_or_spoiled
    (h : Reachable (Interface.step fl) Always (· = freshInterface serverId port) p) :
    Reachable (Interface.step fl) (OnePassEach fl) (· = freshInterface serverId port) p ∨ p.register.Spoiled := by
  induction h with
  | init hp => exact .inl (.init hp)
  | @step p q e hreach _ hstep ih =>
    have hsound := (Interface.sound_of_reachable hreach).1
    cases ih with
    | inr hspoiled => exact .inr (hsound.stays_spoiled fl hspoiled hstep)
    | inl hmet =>
      by_cases hguard : OnePassEach fl p e
      · exact .inl (hmet.step hguard hstep)
      · exact .inr (hsound.spoiled fl hguard hstep)

/-- The interface thread of an idle process has passed what the slot stands for. -/
theorem Interface.Promised.idle (h : p.Promised) (hidle : p.Idle) (htype : p.server.lastLogInfo.type = .success) :
    p.passes ≠ 0 := by
  intro hpasses
  obtain ⟨hnone, -, hclear⟩ := hidle
  cases h hpasses htype with
  | inl howing => exact howing hnone
  | inr hset => simp [hclear] at hset

/-- Whenever all threads are idle and the flag is clear, every transaction of the log has been
printed exactly once if and only if the interface thread passed exactly once after each
transaction before the next request wrote `last_log_info`. -/
theorem operator_log_complete_iff
    (h : Reachable (Interface.step fl) Always (· = freshInterface serverId port) p) (hidle : p.Idle) :
    (∀ tx ∈ p.server.transactionHistory, p.transactions.count tx = 1) ↔
      Reachable (Interface.step fl) (OnePassEach fl) (· = freshInterface serverId port) p := by
  obtain ⟨hsound, hpromised⟩ := Interface.sound_of_reachable h
  constructor
  · intro honce
    exact (Interface.met_or_spoiled h).resolve_right fun hspoiled => hspoiled.not_count_eq_one honce
  · intro hmet
    refine (Interface.orderly_of_reachable hmet).count_eq_one hsound.register fun tx htx => ?_
    exact hpromised.idle hidle (hsound.held_iff.mp ⟨tx, htx⟩)

end

/-! ## Three short runs -/

/-- The threads between a section and the end of the pass it causes. -/
def notifiedAndPrinted : List InterfaceEvent := [.notify, .wake, .print, .clear]

/-- Client 21 registers. -/
def clientRegistered : List InterfaceEvent := .addClient (inetNtop client21) :: notifiedAndPrinted

/-- Client 21 pays 10 to itself. -/
def paid (seqn : ℤ) : InterfaceEvent := .request (inetNtop client21) client21 10 seqn

/-- One transaction, passed before anything else happens, is printed once. -/
theorem operator_log_complete_after_one :
    ∃ p : Interface, p.server.transactionHistory.length = 1 ∧
      ∀ tx ∈ p.server.transactionHistory, p.transactions.count tx = 1 := by
  obtain ⟨p, hreach, htest⟩ := exists_reachable_of_replay (Interface.step singlePrecision)
    (OnePassEach singlePrecision) (· = freshInterface 1 4000) (clientRegistered ++ [paid 1] ++ notifiedAndPrinted)
    (fun p => decide (p.server.transactionHistory.length = 1 ∧ p.Idle)) rfl (by decide +kernel)
  obtain ⟨hlength, hidle⟩ := of_decide_eq_true htest
  have hrun : Reachable (Interface.step singlePrecision) Always (· = freshInterface 1 4000) p :=
    hreach.weaken fun _ _ _ => trivial
  exact ⟨p, hlength, (operator_log_complete_iff hrun hidle).mpr hreach⟩

/-- A client that registers makes the last transaction appear again, and of two transactions
between two passes the first never appears. -/
theorem operator_log_repeats_and_omits :
    (∃ p, Reachable (Interface.step singlePrecision) Always (· = freshInterface 1 4000) p ∧ p.Idle ∧
        ∃ tx ∈ p.server.transactionHistory, p.transactions.count tx = 2) ∧
      ∃ p, Reachable (Interface.step singlePrecision) Always (· = freshInterface 1 4000) p ∧ p.Idle ∧
        ∃ tx ∈ p.server.transactionHistory, p.transactions.count tx = 0 := by
  constructor
  · obtain ⟨p, hreach, htest⟩ := exists_reachable_of_replay (Interface.step singlePrecision) Always
      (· = freshInterface 1 4000)
      (clientRegistered ++ [paid 1] ++ notifiedAndPrinted ++
        [.addClient (inetNtop (testHost 22).sinAddr)] ++ notifiedAndPrinted)
      (fun p => decide (p.Idle ∧ ∃ tx ∈ p.server.transactionHistory, p.transactions.count tx = 2)) rfl
      (by decide +kernel)
    exact ⟨p, hreach, of_decide_eq_true htest⟩
  · obtain ⟨p, hreach, htest⟩ := exists_reachable_of_replay (Interface.step singlePrecision) Always
      (· = freshInterface 1 4000) (clientRegistered ++ [paid 1, paid 2, .notify] ++ notifiedAndPrinted)
      (fun p => decide (p.Idle ∧ ∃ tx ∈ p.server.transactionHistory, p.transactions.count tx = 0)) rfl
      (by decide +kernel)
    exact ⟨p, hreach, of_decide_eq_true htest⟩

end BankReplica
