import BankReplica.Overdraft

/-!
# The total transferred as an `int`

`total_transferred` is an `int` that grows by the value of every accepted request, and
nothing bounds the sum of these values: money can be sent back and forth for ever, and a
self-transfer or a negative value counts as well. The machine keeps the sum modulo
`2 ^ 32`, so the total is right exactly as long as the sum itself is an `int`.
-/

namespace BankReplica

open Runs

variable (fl : FloatRounding)

/-- A number stored in an `int`, modulo `2 ^ 32`. -/
def storeInt (n : ℤ) : ℤ := (BitVec.ofInt 32 n).toInt

/-- A number is stored as it is exactly if it is an `int`. -/
theorem storeInt_eq_self {n : ℤ} : storeInt n = n ↔ IsInt n := by
  constructor
  · intro hstored
    have hlow := (BitVec.ofInt 32 n).le_toInt
    have hhigh := (BitVec.ofInt 32 n).toInt_lt
    rw [← hstored]
    exact ⟨hlow, hhigh⟩
  · intro hint
    exact BitVec.toInt_ofInt_eq_self (by decide) hint.1 hint.2

/-- Storing a summand first does not matter to the stored sum. -/
theorem storeInt_add (m n : ℤ) : storeInt (storeInt m + n) = storeInt (m + n) := by
  simp only [storeInt, BitVec.ofInt_add, BitVec.ofInt_toInt]

/-- The server with its total in an `int`. -/
def Server.storeTotal (s : Server) : Server := { s with totalTransferred := storeInt s.totalTransferred }

/-- The effect of a wire event on a server whose total is an `int`. -/
def Server.intStep (s : Server) (e : WireEvent) : Option Server := (s.wireStep fl e).map Server.storeTotal

/-- The exact sum of the values in the log. -/
def Ledger.loggedTotal (l : Ledger) : ℤ := (l.transactionHistory.map Transaction.value).sum

/-- A request that is accepted keeps the sum of the log an `int`. -/
def TotalFits (s : Server) : WireEvent → Prop
  | .addClient _ => True
  | .request clientAddr req =>
    s.requestVerdict fl clientAddr req = .success → IsInt (s.loggedTotal + req.value.toInt)

instance (s : Server) : DecidablePred (TotalFits fl s)
  | .addClient _ => .isTrue trivial
  | .request clientAddr req => inferInstanceAs (Decidable
      (s.requestVerdict fl clientAddr req = .success → IsInt (s.loggedTotal + req.value.toInt)))

variable {fl}

/-- The total an accepted request stores, and the sum of the log it leaves. -/
theorem loggedTotal_commit (l : Ledger) (sourceIp destIp : IpString) (value seqn : ℤ) :
    (l.commit fl sourceIp destIp value seqn).loggedTotal = l.loggedTotal + value := by
  simp only [Ledger.loggedTotal, Ledger.commit_transactionHistory, List.map_append, List.map_singleton,
    List.sum_append, List.sum_singleton]
  rfl

/-- Storing the total in an `int` leaves the sum of the log as it is. -/
theorem Server.storeTotal_totals {u : Server} {l : Ledger} (hledger : u.toLedger = l) :
    u.storeTotal.totalTransferred = storeInt l.totalTransferred ∧ u.storeTotal.loggedTotal = l.loggedTotal := by
  rw [← hledger]
  exact ⟨rfl, rfl⟩

/-- What one event makes of the total and of the sum of the log. -/
theorem Server.intStep_totals {s t : Server} {e : WireEvent} (hstep : s.intStep fl e = some t) :
    ∃ added : ℤ, t.totalTransferred = storeInt (s.totalTransferred + added) ∧
      t.loggedTotal = s.loggedTotal + added ∧
      (IsInt s.loggedTotal → (IsInt (s.loggedTotal + added) ↔ TotalFits fl s e)) := by
  obtain ⟨u, hu, rfl⟩ := Option.map_eq_some_iff.mp hstep
  cases Server.wireStep_effect fl hu with
  | registered ip hnew hledger | known ip hold hledger =>
    have htotals := Server.storeTotal_totals hledger
    refine ⟨0, ?_, ?_, fun hint => ?_⟩
    · rw [add_zero]
      exact htotals.1
    · rw [add_zero]
      exact htotals.2
    · rw [add_zero]
      exact iff_of_true hint trivial
  | accepted clientAddr req haccept hledger =>
    have htotals := Server.storeTotal_totals hledger
    refine ⟨req.value.toInt, htotals.1, htotals.2.trans (loggedTotal_commit ..), fun _ => ?_⟩
    simp only [TotalFits, haccept, true_imp_iff]
  | rejected clientAddr req hreject hledger =>
    have htotals := Server.storeTotal_totals hledger
    refine ⟨0, ?_, ?_, fun hint => ?_⟩
    · rw [add_zero]
      exact htotals.1
    · rw [add_zero]
      exact htotals.2
    · simp only [TotalFits, hreject, false_imp_iff, add_zero, hint]

/-- In every run of a server with an `int` total, the total is the stored sum of the log. -/
theorem total_is_stored_sum {guard : Server → WireEvent → Prop} {serverId : Word} {port : UInt16} {s : Server}
    (h : Reachable (Server.intStep fl) guard (· = freshPrimary serverId port) s) :
    s.totalTransferred = storeInt s.loggedTotal := by
  refine h.invariant (I := fun s => s.totalTransferred = storeInt s.loggedTotal) ?_ ?_
  · intro s hs
    rw [hs]
    rfl
  · intro s e t htotal _ hstep
    obtain ⟨added, hstored, hlogged, -⟩ := Server.intStep_totals hstep
    rw [hstored, hlogged, htotal, storeInt_add]

/-- In every run of a fresh primary whose accepted requests keep the sum of the log an `int`,
the total is that sum; the first request that does not makes the total wrong. -/
theorem total_exact_iff_sum_fits (serverId : Word) (port : UInt16) (s : Server)
    (h : Reachable (Server.intStep fl) (TotalFits fl) (· = freshPrimary serverId port) s) :
    s.totalTransferred = s.loggedTotal ∧
      ∀ e t, s.intStep fl e = some t → (t.totalTransferred = t.loggedTotal ↔ TotalFits fl s e) := by
  have hfits : IsInt s.loggedTotal := by
    refine h.invariant (I := fun s => IsInt s.loggedTotal) ?_ ?_
    · intro s hs
      rw [hs]
      exact (by decide : IsInt 0)
    · intro s e t hint hguard hstep
      obtain ⟨added, -, hlogged, hiff⟩ := Server.intStep_totals hstep
      rw [hlogged]
      exact (hiff hint).mpr hguard
  have htotal := total_is_stored_sum h
  refine ⟨htotal.trans (storeInt_eq_self.mpr hfits), ?_⟩
  intro e t hstep
  obtain ⟨added, hstored, hlogged, hiff⟩ := Server.intStep_totals hstep
  rw [hstored, hlogged, htotal, storeInt_add, storeInt_eq_self]
  exact hiff hfits

/-- A request of client 21 to itself. -/
def selfRequest (value : ℤ) (seqn : Word) : WireEvent :=
  .request (testHost 21) ⟨(testHost 21).sinAddr, BitVec.ofInt 32 value, seqn⟩

/-- After a self-transfer of everything the total is the value transferred. -/
theorem total_exact_after_selfTransfer :
    ∃ s : Server, s.transactionHistory.length = 1 ∧ s.totalTransferred = s.loggedTotal := by
  obtain ⟨s, hreach, htest⟩ := exists_reachable_of_replay (Server.intStep singlePrecision)
    (TotalFits singlePrecision) (· = freshPrimary 1 4000) (registrations ++ [selfRequest 1000 1])
    (fun s => s.transactionHistory.length = 1) rfl (by decide +kernel)
  exact ⟨s, of_decide_eq_true htest, (total_exact_iff_sum_fits 1 4000 s hreach).1⟩

/-- Two self-transfers of `INT_MIN` are accepted, and the total is 0 after them. -/
theorem total_wraps_after_two_selfTransfers :
    ∃ s, Reachable (Server.intStep singlePrecision) Always (· = freshPrimary 1 4000) s ∧
      s.totalTransferred = 0 ∧ s.loggedTotal = -2 ^ 32 ∧ s.totalTransferred ≠ s.loggedTotal := by
  obtain ⟨s, hreach, htest⟩ := exists_reachable_of_replay (Server.intStep singlePrecision) Always
    (· = freshPrimary 1 4000) (registrations ++ [selfRequest (-2 ^ 31) 1, selfRequest (-2 ^ 31) 2])
    (fun s => s.totalTransferred = 0 ∧ s.loggedTotal = -2 ^ 32) rfl (by decide +kernel)
  obtain ⟨htotal, hlogged⟩ := of_decide_eq_true htest
  exact ⟨s, hreach, htotal, hlogged, by omega⟩

end BankReplica
