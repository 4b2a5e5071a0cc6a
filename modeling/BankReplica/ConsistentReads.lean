import BankReplica.BalanceRange
import BankReplica.Bookkeeping
import BankReplica.GuardedSections
import Mathlib.Data.Finset.Card

/-!
# What leaves the lock of a primary is consistent

The table of clients, the copies for a new backup and the lines of the operator's log are put
together statement by statement while other threads wait to go on. Each is a cut through the
ledger at one moment all the same: the balances of a table sum to what registration issued, those
of a snapshot replay from its own log, and a line's counters are those of a log that ends with the
transaction it reports. Without negative values nothing is rounded on the way, as long as the
clients are few enough for what was issued to be a `float`.
-/

namespace BankReplica

open LockedObject Linearization Runs GrowingVector

variable (fl : FloatRounding) (grow : Growth) (machines : Finset IpString)

/-- The operations of a primary, which handles no updates, when no value is negative and only some
machines register. -/
def GuardedOp.OfPrimary : GuardedOp → Prop
  | .processTransaction _ _ _ value _ => 0 ≤ value
  | .addClient _ clientIp => clientIp ∈ machines
  | .handleClientUpdate _ | .handleStateUpdate _ | .handleHistoryEntry _ => False
  | .registerBackup | .printClients | .run => True

instance : DecidablePred (GuardedOp.OfPrimary machines)
  | .processTransaction _ _ _ value _ => inferInstanceAs (Decidable (0 ≤ value))
  | .addClient _ clientIp => inferInstanceAs (Decidable (clientIp ∈ machines))
  | .handleClientUpdate _ | .handleStateUpdate _ | .handleHistoryEntry _ => .isFalse id
  | .registerBackup | .printClients | .run => .isTrue trivial

/-- The books of a primary between two sections. -/
structure Guarded.Consistent (g : Guarded) : Prop where
  covered : Covered g.toLedger
  sequenced : Sequenced g.toLedger
  bookkept : Bookkept g.toLedger
  registered : ∀ clientIp ∈ g.addresses, clientIp ∈ machines
  logged : g.lastLogInfo.type = .success → g.transactionHistory ≠ []

/-- The books of a primary from its fresh start. -/
theorem consistent_empty : Guarded.Consistent machines {} where
  covered := covered_empty
  sequenced := sequenced_empty
  bookkept := bookkept_empty
  registered _ h := absurd h List.not_mem_nil
  logged h := by contradiction

/-- The call has no negative value, and registers none but some machines. -/
def Call.OfPrimary : Call → Prop
  | .addClient ip => ip ∈ machines
  | .processTransaction _ _ value _ => 0 ≤ value

/-- Every such call keeps the accounts covered. -/
theorem Covered.apply {machines : Finset IpString} {l : Ledger} (h : Covered l) {c : Call}
    (hc : c.OfPrimary machines) : Covered (l.apply exactBalances c) := by
  cases c with
  | addClient ip =>
    simp only [Ledger.apply]
    split
    · exact h
    · exact ⟨h.conserved.register ‹_›, h.solvent.register ‹_›⟩
  | processTransaction sourceIp destAddr value seqn =>
    simp only [Ledger.apply]
    split
    · exact h.commit hc ‹_›
    · exact h

/-- No other machine gets registered. -/
theorem Ledger.registered_apply {machines : Finset IpString} {l : Ledger}
    (h : ∀ clientIp ∈ l.addresses, clientIp ∈ machines) {c : Call} (hc : c.OfPrimary machines) :
    ∀ clientIp ∈ (l.apply exactBalances c).addresses, clientIp ∈ machines := by
  cases c with
  | addClient ip =>
    simp only [Ledger.apply]
    split
    · exact h
    · intro clientIp hmem
      rw [Ledger.register_addresses] at hmem
      cases List.mem_append.mp hmem with
      | inl hold => exact h clientIp hold
      | inr hnew => exact List.mem_singleton.mp hnew ▸ hc
  | processTransaction sourceIp destAddr value seqn =>
    simp only [Ledger.apply]
    split
    · rw [Ledger.commit_addresses]
      exact h
    · exact h

/-- A call after which the slot stands for a transaction only with one in the log. -/
theorem Guarded.Consistent.call {machines : Finset IpString} {g g' : Guarded} (h : g.Consistent machines) {c : Call}
    (hc : c.OfPrimary machines) (hledger : g'.toLedger = g.toLedger.apply exactBalances c)
    (hlogged : g'.lastLogInfo.type = .success → g'.transactionHistory ≠ []) : g'.Consistent machines where
  covered := hledger ▸ h.covered.apply hc
  sequenced := hledger ▸ h.sequenced.apply c
  bookkept := hledger ▸ h.bookkept.apply c
  registered := hledger ▸ Ledger.registered_apply h.registered hc
  logged := hlogged

/-- Each machine has one record at most. -/
theorem Guarded.Consistent.length_le {machines : Finset IpString} {g : Guarded} (h : g.Consistent machines) :
    g.clients.length ≤ machines.card := by
  have hsubset : g.addresses.toFinset ⊆ machines :=
    fun clientIp hmem => h.registered clientIp (List.mem_toFinset.mp hmem)
  have hcard := Finset.card_le_card hsubset
  rw [List.toFinset_card_of_nodup h.bookkept.nodup] at hcard
  exact (List.length_map ClientDTO.address).symm.trans_le hcard

/-- A machine that is not registered yet leaves room for one. -/
theorem Guarded.Consistent.length_lt {machines : Finset IpString} {g : Guarded} (h : g.Consistent machines)
    {clientIp : IpString} (hmachine : clientIp ∈ machines) (hnew : clientIp ∉ g.addresses) :
    g.clients.length < machines.card := by
  have hsubset : insert clientIp g.addresses.toFinset ⊆ machines := by
    refine Finset.insert_subset hmachine fun known hmem => h.registered known (List.mem_toFinset.mp hmem)
  have hcard := Finset.card_le_card hsubset
  rw [Finset.card_insert_of_notMem (fun hmem => hnew (List.mem_toFinset.mp hmem)),
    List.toFinset_card_of_nodup h.bookkept.nodup] at hcard
  have hlength : g.addresses.length = g.clients.length := List.length_map ClientDTO.address
  omega

/-- Every operation of a primary keeps its books, if its machines are few enough. -/
theorem Guarded.Consistent.perform (hmachines : machines.card ≤ 16777) (g : Guarded) (op : GuardedOp)
    (h : g.Consistent machines) (hop : op.OfPrimary machines) : (g.perform fl grow op).1.Consistent machines := by
  cases op with
  | processTransaction currentRole sourceIp destAddr value seqn =>
    have hexact : initialBalance * (g.server currentRole).clients.length < 2 ^ 24 := by
      have hlength : (g.server currentRole).clients.length ≤ machines.card := h.length_le
      rw [initialBalance]
      omega
    have hlogic := Covered.handleTransactionLogic_eq fl (s := g.server currentRole) h.covered hexact sourceIp
      (inetNtop destAddr) hop seqn
    refine h.call (c := .processTransaction sourceIp destAddr value seqn) hop ?_ ?_
    · simp only [Guarded.perform, Guarded.after, hlogic]
      exact (g.server currentRole).handleTransactionLogic_toLedger exactBalances sourceIp (inetNtop destAddr) value
        seqn
    · simp only [Guarded.perform, Guarded.after]
      rcases (g.server currentRole).handleTransactionLogic_slot fl sourceIp (inetNtop destAddr) value seqn with
        ⟨_, _, hhistory⟩ | ⟨_, htype, _⟩ | ⟨_, hserver⟩
      · simp [hhistory]
      · simp [htype]
      · rw [hserver]
        exact h.logged
  | addClient currentRole clientIp =>
    refine h.call (c := .addClient clientIp) hop ?_ ?_
    · refine Eq.trans ?_ (((g.server currentRole).addClient_toLedger fl clientIp).trans ?_)
      · simp only [Guarded.perform, Guarded.afterIn, Guarded.after, Server.addClient]
        split <;> rfl
      · by_cases hknown : clientIp ∈ g.addresses
        · exact (if_pos hknown).trans (if_pos hknown).symm
        · refine (if_neg hknown).trans (Eq.trans ?_ (if_neg hknown).symm)
          refine h.covered.register_eq ?_ clientIp
          have hlength := h.length_lt hop hknown
          rw [initialBalance]
          omega
    · obtain ⟨hslot, hhistory⟩ := (g.server currentRole).wasClientAdded_slot fl clientIp
      simp only [Guarded.perform, Guarded.afterIn, Guarded.after, hslot, hhistory]
      exact h.logged
  | handleClientUpdate | handleStateUpdate | handleHistoryEntry => contradiction
  | registerBackup | printClients | run => exact h

/-- No operation of a primary takes anything back from the log. -/
theorem Guarded.perform_history (g : Guarded) {op : GuardedOp} (hop : op.OfPrimary machines) :
    g.transactionHistory <+: (g.perform fl grow op).1.transactionHistory := by
  cases op with
  | processTransaction currentRole sourceIp destAddr value seqn =>
    simp only [Guarded.perform, Guarded.after]
    rcases (g.server currentRole).handleTransactionLogic_slot fl sourceIp (inetNtop destAddr) value seqn with
      ⟨_, _, hhistory⟩ | ⟨_, _, hhistory⟩ | ⟨_, hserver⟩
    · rw [hhistory]
      exact List.prefix_append _ _
    · rw [hhistory]
      exact List.prefix_rfl
    · rw [hserver]
      exact List.prefix_rfl
  | addClient currentRole clientIp =>
    simp only [Guarded.perform, Guarded.afterIn, Guarded.after]
    rw [((g.server currentRole).wasClientAdded_slot fl clientIp).2]
    exact List.prefix_rfl
  | handleClientUpdate | handleStateUpdate | handleHistoryEntry => contradiction
  | registerBackup | printClients | run => exact List.prefix_rfl

/-- The last entry of a numbered log has the number of entries for its id. -/
theorem Sequenced.last_id {l : Ledger} (h : Sequenced l) {tx : Transaction}
    (hlast : l.transactionHistory.getLast? = some tx) : tx.id = l.numTransactions := by
  obtain ⟨front, hfront⟩ := List.getLast?_eq_some_iff.mp hlast
  have hcount : l.numTransactions = (front.length : ℤ) + 1 := by
    rw [h.counted, hfront]
    simp
  have hids := h.ids
  rw [hfront, hcount, upTo_succ (Int.natCast_nonneg _), List.map_append] at hids
  rw [hcount]
  exact List.singleton_inj.mp (List.append_inj_right' hids rfl)

/-- What is printed of consistent books. -/
theorem Guarded.Consistent.logMessage {machines : Finset IpString} {g : Guarded} (h : g.Consistent machines)
    {tx : Transaction} {n total balance : ℤ}
    (hline : (g.server .primary).logMessage = some (.requisition tx n total balance)) :
    tx.id = n ∧ balance = initialBalance * g.clients.length ∧ g.transactionHistory.getLast? = some tx ∧
      n = g.transactionHistory.length ∧ total = (g.transactionHistory.map Transaction.value).sum := by
  have hlogged : (g.server .primary).lastLogInfo.type = .success → (g.server .primary).transactionHistory ≠ [] :=
    h.logged
  unfold Server.logMessage at hline
  split at hline
  · rename_i htype
    obtain ⟨rfl, rfl, rfl, rfl⟩ := LogMessage.requisition.inj (Option.some.inj hline)
    have hlast : g.transactionHistory.getLast? = some (g.server .primary).getLastTransaction := by
      have hsome := List.getLast?_eq_getLast_of_ne_nil (hlogged htype)
      exact hsome.trans (congrArg some (by rw [Server.getLastTransaction, hsome]; rfl))
    exact ⟨h.sequenced.last_id hlast, h.covered.conserved.issued, hlast, h.bookkept.counted, h.bookkept.transferred⟩
  · have heq := Option.some.inj hline
    contradiction
  · contradiction

/-- What was read is of moments of one log: every table sums to what registration issued to its rows,
every snapshot has a beginning of the log and balances that replay from it, and every request line has
the last entry of a beginning of the log, its length for the id and for the count, its sum, and an issued
total. -/
structure ReadsOf (log : List Transaction) (history : List (CallEvent GuardedOp GuardedReply)) : Prop where
  tables : ∀ id clients, .respond id (.rows clients) ∈ history →
    (clients.map ClientDTO.balance).sum = initialBalance * clients.length
  snapshots : ∀ id clients entries, .respond id (.snapshot clients entries) ∈ history → entries <+: log ∧
    ∀ c ∈ clients, c.balance = initialBalance + credited entries c.address - debited entries c.address
  lines : ∀ id tx n total balance, .respond id (.line (some (.requisition tx n total balance))) ∈ history →
    ∃ entries, entries <+: log ∧ entries.getLast? = some tx ∧ tx.id = n ∧ n = entries.length ∧
      total = (entries.map Transaction.value).sum ∧ ∃ clients : ℕ, balance = initialBalance * clients

/-- In every run of the threads of a primary from its fresh start, statement by statement and up to an
`int` that overflows, in which no request has a negative value and at most 16777 machines register,
everything that was read is of one log, and that is the one of the ledger whenever no writer is inside. -/
theorem reads_consistent {machines : Finset IpString} (hmachines : machines.card ≤ 16777)
    {o : Object Guarded GuardedOp GuardedReply Frame}
    (h : Reachable (Object.step (sections fl grow)) (Calls (GuardedOp.OfPrimary machines)) (Object.Initial {}) o) :
    ∃ log, (o.lock.writerActive = false → o.data.transactionHistory = log) ∧ ReadsOf log o.history := by
  obtain ⟨base, hsettled, hreplies⟩ := replies_invariant (sections_implement fl grow)
    (I := Guarded.Consistent machines) (r := fun g g' => g.transactionHistory <+: g'.transactionHistory)
    (fun _ _ _ => List.IsPrefix.trans) (consistent_empty machines)
    (fun g op hg hop => ⟨Guarded.Consistent.perform fl grow machines hmachines g op hg hop,
      Guarded.perform_history fl grow machines g hop⟩) h
  refine ⟨base.transactionHistory, fun hidle => congrArg (·.transactionHistory) (hsettled hidle), fun id clients hreply => ?_,
    fun id clients entries hreply => ?_, fun id tx n total balance hreply => ?_⟩
  · obtain ⟨op, g, hop, hg, -, heq⟩ := hreplies id _ hreply
    cases op with
    | printClients =>
      obtain rfl := GuardedReply.rows.inj heq
      exact hg.covered.conserved.sum_balances
    | _ => contradiction
  · obtain ⟨op, g, hop, hg, hbelow, heq⟩ := hreplies id _ hreply
    cases op with
    | registerBackup =>
      obtain ⟨rfl, rfl⟩ := GuardedReply.snapshot.inj heq
      exact ⟨hbelow, hg.covered.conserved.replay⟩
    | _ => contradiction
  · obtain ⟨op, g, hop, hg, hbelow, heq⟩ := hreplies id _ hreply
    cases op with
    | run =>
      obtain ⟨hid, hbalance, hlast, hcount, htotal⟩ := hg.logMessage (GuardedReply.line.inj heq).symm
      exact ⟨g.transactionHistory, hbelow, hlast, hid, hcount, htotal, g.clients.length, hbalance⟩
    | _ => contradiction

/-- The machines of two clients. -/
def twoMachines : Finset IpString := {inetNtop (testHost 21).sinAddr, inetNtop (testHost 22).sinAddr}

/-- The table, the log and the copies asked for in the middle of a payment. -/
theorem reads_consistent_session :
    ∃ o : Object Guarded GuardedOp GuardedReply Frame,
      o.calls = 6 ∧ o.data.transactionHistory.length = 1 ∧ ReadsOf o.data.transactionHistory o.history := by
  obtain ⟨o, hreach, htest⟩ := exists_reachable_of_replay (Object.step (sections singlePrecision .doubling))
    (Calls (GuardedOp.OfPrimary twoMachines)) (Object.Initial {}) tableDuringPayment
    (fun o => decide (o.calls = 6 ∧ o.data.transactionHistory.length = 1 ∧ o.lock.writerActive = false))
    (show Object.Initial {} threeThreads from ⟨3, rfl⟩) (by decide +kernel)
  obtain ⟨hcalls, hlength, hidle⟩ := of_decide_eq_true htest
  obtain ⟨log, hlog, hreads⟩ := reads_consistent singlePrecision .doubling (by decide +kernel) hreach
  exact ⟨o, hcalls, hlength, (hlog hidle).symm ▸ hreads⟩

end BankReplica
