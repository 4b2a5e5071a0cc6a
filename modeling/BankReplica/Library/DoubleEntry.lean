import Mathlib.Algebra.BigOperators.Group.List.Basic
import Mathlib.Data.List.Nodup

/-!
# Double-entry books

A journal of entries moves amounts between accounts: each entry names one party on the
paying side and one on the receiving side. The flow through one side of an account is
the sum of the amounts of its entries there. Summed over a list of distinct accounts
that holds every party, each side's flow is the turnover of the journal, so the books
balance however the journal was produced.
-/

namespace DoubleEntry

variable {E K V : Type*} [DecidableEq K] [AddCommGroup V]

/-- The sum of the amounts of the entries in which the account is the given party. -/
def flow (party : E → K) (amount : E → V) (journal : List E) (account : K) : V :=
  ((journal.filter fun e => decide (party e = account)).map amount).sum

variable (party : E → K) (amount : E → V)

/-- An empty journal moves nothing. -/
@[simp] theorem flow_nil (account : K) : flow party amount [] account = 0 := rfl

/-- An entry at the front adds its amount to its own party. -/
theorem flow_cons (e : E) (journal : List E) (account : K) :
    flow party amount (e :: journal) account =
      (if party e = account then amount e else 0) + flow party amount journal account := by
  by_cases h : party e = account <;> simp [flow, h]

/-- A new entry adds its amount to its own party. -/
theorem flow_append_singleton (journal : List E) (e : E) (account : K) :
    flow party amount (journal ++ [e]) account =
      flow party amount journal account + if party e = account then amount e else 0 := by
  by_cases h : party e = account <;> simp [flow, List.filter_append, h]

/-- An account that is never the party has no flow. -/
theorem flow_eq_zero {journal : List E} {account : K} (h : ∀ e ∈ journal, party e ≠ account) :
    flow party amount journal account = 0 := by
  have hnone : journal.filter (fun e => decide (party e = account)) = [] := by
    rw [List.filter_eq_nil_iff]
    intro e he
    simpa using h e he
  rw [flow, hnone]
  rfl

/-- An amount placed on one of several distinct accounts sums to that amount. -/
theorem sum_single {accounts : List K} (hnodup : accounts.Nodup) {k : K} (hk : k ∈ accounts) (v : V) :
    (accounts.map fun a => if k = a then v else 0).sum = v := by
  induction accounts with
  | nil => simp at hk
  | cons a rest ih =>
    rw [List.nodup_cons] at hnodup
    by_cases hka : k = a
    · subst hka
      have hrest : (rest.map fun b => if k = b then v else 0) = rest.map fun _ => 0 := by
        apply List.map_congr_left
        intro b hb
        exact if_neg fun h : k = b => hnodup.1 (h ▸ hb)
      simp [hrest]
    · have hmem : k ∈ rest := (List.mem_cons.mp hk).resolve_left hka
      simp [hka, ih hnodup.2 hmem]

/-- Over distinct accounts that hold every party, one side's flow is the turnover. -/
theorem sum_flow {accounts : List K} (hnodup : accounts.Nodup) {journal : List E}
    (hparty : ∀ e ∈ journal, party e ∈ accounts) :
    (accounts.map (flow party amount journal)).sum = (journal.map amount).sum := by
  induction journal with
  | nil =>
    have hzero : flow party amount [] = fun _ => 0 := by
      funext account
      exact flow_nil party amount account
    simp [hzero]
  | cons e rest ih =>
    have hrest : ∀ e' ∈ rest, party e' ∈ accounts := fun e' he' =>
      hparty e' (List.mem_cons_of_mem e he')
    calc (accounts.map (flow party amount (e :: rest))).sum =
          (accounts.map fun a => (if party e = a then amount e else 0) + flow party amount rest a).sum := by
          congr 1
          exact List.map_congr_left fun a _ => flow_cons party amount e rest a
      _ = (accounts.map fun a => if party e = a then amount e else 0).sum +
            (accounts.map (flow party amount rest)).sum := List.sum_map_add
      _ = amount e + (rest.map amount).sum := by
          rw [sum_single hnodup (hparty e (List.mem_cons_self ..)), ih hrest]
      _ = ((e :: rest).map amount).sum := by rw [List.map_cons, List.sum_cons]

/-- The books balance: over distinct accounts that hold every party, what is received is
what is paid. -/
theorem sum_received_eq_paid {payer payee : E → K} {accounts : List K} (hnodup : accounts.Nodup)
    {journal : List E} (hpayer : ∀ e ∈ journal, payer e ∈ accounts)
    (hpayee : ∀ e ∈ journal, payee e ∈ accounts) :
    (accounts.map (flow payee amount journal)).sum = (accounts.map (flow payer amount journal)).sum := by
  rw [sum_flow payee amount hnodup hpayee, sum_flow payer amount hnodup hpayer]

end DoubleEntry
