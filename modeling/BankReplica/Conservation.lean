import BankReplica.Calls
import BankReplica.Library.DoubleEntry

/-!
# The transaction log replays to the balances

On a primary that starts fresh the log is a double-entry journal of the accounts: every
balance is the initial one plus what the log credits minus what it debits. The total of
all balances then follows from the books balancing, not from following each transfer.
Balances are exact integers here.
-/

namespace BankReplica

/-- The amount the log credits to an address. -/
def credited (history : List Transaction) (ip : IpString) : ℤ :=
  DoubleEntry.flow Transaction.destIp Transaction.value history ip

/-- The amount the log debits from an address. -/
def debited (history : List Transaction) (ip : IpString) : ℤ :=
  DoubleEntry.flow Transaction.sourceIp Transaction.value history ip

/-- The log, the client records and the issued total agree. -/
structure Conserved (l : Ledger) : Prop where
  nodup : l.addresses.Nodup
  endpoints : ∀ t ∈ l.transactionHistory, t.sourceIp ∈ l.addresses ∧ t.destIp ∈ l.addresses
  replay : ∀ c ∈ l.clients, c.balance =
    initialBalance + credited l.transactionHistory c.address - debited l.transactionHistory c.address
  issued : l.totalBalance = initialBalance * l.clients.length

/-- The sum of all balances is what was issued, because the books balance. -/
theorem Conserved.sum_balances {l : Ledger} (h : Conserved l) :
    (l.clients.map ClientDTO.balance).sum = initialBalance * l.clients.length := by
  have hrecords : (l.clients.map fun c => c.balance + debited l.transactionHistory c.address).sum =
      (l.clients.map fun c => initialBalance + credited l.transactionHistory c.address).sum := by
    congr 1
    apply List.map_congr_left
    intro c hc
    rw [h.replay c hc]
    ring
  have hbooks : (l.clients.map fun c => credited l.transactionHistory c.address).sum =
      (l.clients.map fun c => debited l.transactionHistory c.address).sum := by
    have := DoubleEntry.sum_received_eq_paid Transaction.value h.nodup
      (fun t ht => (h.endpoints t ht).1) (fun t ht => (h.endpoints t ht).2)
    rwa [Ledger.addresses, List.map_map, List.map_map] at this
  have hissued : (l.clients.map fun _ => initialBalance).sum = initialBalance * l.clients.length := by
    simp [mul_comm]
  rw [List.sum_map_add, List.sum_map_add, hbooks, hissued] at hrecords
  exact add_right_cancel hrecords

/-- The empty ledger is conserved. -/
theorem conserved_empty : Conserved {} where
  nodup := List.nodup_nil
  endpoints := by simp
  replay := by simp
  issued := by simp

/-- Registering a new client keeps the books: no log entry names it yet. -/
theorem Conserved.register {l : Ledger} (h : Conserved l) {ip : IpString} (hip : ip ∉ l.addresses) :
    Conserved (l.register exactBalances ip) where
  nodup := Ledger.nodup_register _ h.nodup hip
  endpoints := by
    intro t ht
    obtain ⟨hs, hd⟩ := h.endpoints t ht
    rw [Ledger.register_addresses]
    exact ⟨List.mem_append_left _ hs, List.mem_append_left _ hd⟩
  replay := by
    intro c hc
    cases List.mem_append.mp hc with
    | inl hold => exact h.replay c hold
    | inr hnew =>
      rw [List.mem_singleton.mp hnew]
      have hcredit : credited l.transactionHistory ip = 0 :=
        DoubleEntry.flow_eq_zero _ _ fun t ht heq => hip (heq ▸ (h.endpoints t ht).2)
      have hdebit : debited l.transactionHistory ip = 0 :=
        DoubleEntry.flow_eq_zero _ _ fun t ht heq => hip (heq ▸ (h.endpoints t ht).1)
      simp [ClientDTO.new, Ledger.register, hcredit, hdebit]
  issued := by
    simp only [Ledger.register, exactBalances, RoundBits.Rounding.exact_apply, h.issued,
      List.length_append, List.length_singleton]
    push_cast
    ring

/-- An accepted request credits its value to the destination. -/
theorem credited_commit (l : Ledger) (sourceIp destIp : IpString) (value seqn : ℤ) (ip : IpString) :
    credited (l.commit exactBalances sourceIp destIp value seqn).transactionHistory ip =
      credited l.transactionHistory ip + if destIp = ip then value else 0 := by
  rw [Ledger.commit_transactionHistory]
  exact DoubleEntry.flow_append_singleton _ _ _ _ _

/-- An accepted request debits its value from the source. -/
theorem debited_commit (l : Ledger) (sourceIp destIp : IpString) (value seqn : ℤ) (ip : IpString) :
    debited (l.commit exactBalances sourceIp destIp value seqn).transactionHistory ip =
      debited l.transactionHistory ip + if sourceIp = ip then value else 0 := by
  rw [Ledger.commit_transactionHistory]
  exact DoubleEntry.flow_append_singleton _ _ _ _ _

/-- An accepted request keeps the books: the entry it logs is the movement it makes. -/
theorem Conserved.commit {l : Ledger} (h : Conserved l) {sourceIp destIp : IpString} {value seqn : ℤ}
    (haccept : l.verdict exactBalances sourceIp destIp value seqn = .success) :
    Conserved (l.commit exactBalances sourceIp destIp value seqn) where
  nodup := by
    rw [Ledger.commit_addresses]
    exact h.nodup
  endpoints := by
    obtain ⟨source, dest, hsource, hdest, -⟩ := (Ledger.verdict_eq_success _).mp haccept
    have hs : sourceIp ∈ l.addresses := Ledger.account_isSome.mp (by rw [hsource]; rfl)
    have hd : destIp ∈ l.addresses := Ledger.account_isSome.mp (by rw [hdest]; rfl)
    intro t ht
    rw [Ledger.commit_transactionHistory] at ht
    rw [Ledger.commit_addresses]
    cases List.mem_append.mp ht with
    | inl hold => exact h.endpoints t hold
    | inr hnew =>
      rw [List.mem_singleton.mp hnew]
      exact ⟨hs, hd⟩
  replay := by
    intro c hc
    rw [Ledger.commit_clients _ h.nodup] at hc
    obtain ⟨old, hold, rfl⟩ := List.mem_map.mp hc
    rw [moveRecord_balance, moveRecord_address, credited_commit, debited_commit, h.replay old hold]
    ring
  issued := by
    rw [Ledger.commit_totalBalance, Ledger.commit_length, h.issued]

/-- Every run of a fresh primary is conserved. -/
theorem conserved_run (calls : List Call) :
    Conserved (calls.foldl (Ledger.apply exactBalances) {}) :=
  Ledger.run_invariant exactBalances conserved_empty (fun _ _ h hip => h.register hip)
    (fun _ _ _ _ _ h haccept => h.commit haccept) calls

/-- On a primary from its fresh start, after every sequence of calls, each balance replays
from the log, the log names registered clients only, and the balances sum to the total
the server reports and to what registration issued. -/
theorem primary_log_replays_to_balances (serverId : Word) (port : UInt16) (calls : List Call) :
    let s := (freshPrimary serverId port).runCalls exactBalances calls
    (∀ c ∈ s.clients, c.balance =
        initialBalance + ((s.transactionHistory.filter (·.destIp = c.address)).map (·.value)).sum -
          ((s.transactionHistory.filter (·.sourceIp = c.address)).map (·.value)).sum) ∧
      (∀ t ∈ s.transactionHistory, t.sourceIp ∈ s.addresses ∧ t.destIp ∈ s.addresses) ∧
      (s.clients.map ClientDTO.balance).sum = s.totalBalance ∧
      s.totalBalance = initialBalance * s.clients.length := by
  intro s
  have hledger : s.toLedger = calls.foldl (Ledger.apply exactBalances) {} :=
    Server.runCalls_toLedger exactBalances (freshPrimary serverId port) calls
  have hconserved : Conserved s.toLedger := hledger ▸ conserved_run calls
  exact ⟨hconserved.replay, hconserved.endpoints, hconserved.sum_balances.trans hconserved.issued.symm,
    hconserved.issued⟩

end BankReplica
