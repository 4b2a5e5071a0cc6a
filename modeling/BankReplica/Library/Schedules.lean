import BankReplica.Library.DoubleEntry
import Mathlib.Algebra.Order.BigOperators.Group.List
import Mathlib.Algebra.Order.Ring.Int
import Mathlib.Logic.Function.Basic
import Mathlib.Tactic.Linarith

/-!
# Schedules of several streams

Every source has a stream of items, numbered from 0. A schedule delivers the items of each
stream in order, those of one source anywhere between those of another, and it may deliver
again what it has delivered before. All that the future of a schedule depends on is its
progress, the number of items delivered from each source, so a quantity determined by the
progress comes out the same under every complete schedule.
-/

namespace Schedules

variable {K S : Type*} [DecidableEq K]

/-- A schedule of streams of the given lengths, with the progress it makes. -/
inductive Schedule (length : K → ℕ) : List (K × ℕ) → (K → ℕ) → Prop
  | nil : Schedule length [] fun _ => 0
  | first {ds : List (K × ℕ)} {progress : K → ℕ} {k : K} : Schedule length ds progress →
      progress k < length k →
      Schedule length (ds ++ [(k, progress k)]) (Function.update progress k (progress k + 1))
  | again {ds : List (K × ℕ)} {progress : K → ℕ} {k : K} {i : ℕ} : Schedule length ds progress →
      i < progress k → Schedule length (ds ++ [(k, i)]) progress

/-- A schedule that delivers every stream to its end. -/
abbrev Complete (length : K → ℕ) (ds : List (K × ℕ)) : Prop := Schedule length ds length

variable {length : K → ℕ} {ds : List (K × ℕ)} {progress : K → ℕ}

/-- The first delivery of an item, named by its number. -/
theorem Schedule.next (h : Schedule length ds progress) {k : K} {i : ℕ} (hi : progress k = i)
    (hnext : i < length k) : Schedule length (ds ++ [(k, i)]) (Function.update progress k (i + 1)) := by
  subst hi
  exact h.first hnext

/-- No schedule delivers more than there is. -/
theorem Schedule.le_length (h : Schedule length ds progress) (k : K) : progress k ≤ length k := by
  induction h with
  | nil => exact Nat.zero_le _
  | @first ds progress source _ hnext ih =>
    by_cases hk : k = source
    · rw [hk, Function.update_self]
      exact hnext
    · rw [Function.update_of_ne hk]
      exact ih
  | again _ _ ih => exact ih

/-- What has been delivered is what the progress counts. -/
theorem Schedule.mem_iff (h : Schedule length ds progress) (k : K) (i : ℕ) : (k, i) ∈ ds ↔ i < progress k := by
  induction h with
  | nil => simp
  | @first ds progress source _ _ ih =>
    rw [List.mem_append, ih, List.mem_singleton, Prod.mk.injEq]
    by_cases hk : k = source
    · subst hk
      simp only [true_and, Function.update_self]
      omega
    · simp only [hk, false_and, or_false, Function.update_of_ne hk]
  | @again ds progress source j _ hbefore ih =>
    rw [List.mem_append, ih, List.mem_singleton, Prod.mk.injEq]
    constructor
    · intro hmem
      cases hmem with
      | inl hold => exact hold
      | inr hnew =>
        rw [hnew.1, hnew.2]
        exact hbefore
    · intro hlt
      exact .inl hlt

/-- An item of a list that ends in `y` is `y` or an item of the list before it. -/
theorem append_cons_eq_concat {A : Type*} {before after ds : List A} {x y : A}
    (h : before ++ x :: after = ds ++ [y]) : (before = ds ∧ x = y) ∨ ∃ rest, before ++ x :: rest = ds := by
  cases List.eq_nil_or_concat after with
  | inl hlast =>
    subst hlast
    obtain ⟨hbefore, hitem⟩ := List.append_inj' h rfl
    exact .inl ⟨hbefore, List.singleton_inj.mp hitem⟩
  | inr hmore =>
    obtain ⟨rest, last, rfl⟩ := hmore
    rw [List.concat_eq_append, ← List.cons_append, ← List.append_assoc] at h
    exact .inr ⟨rest, (List.append_inj' h rfl).1⟩

/-- Every delivery of a schedule is the next item of its source or one delivered before. -/
theorem Schedule.split {before after : List (K × ℕ)} {k : K} {i : ℕ}
    (h : Schedule length (before ++ (k, i) :: after) progress) :
    ∃ reached, Schedule length before reached ∧ (i = reached k ∧ i < length k ∨ i < reached k) := by
  generalize hds : before ++ (k, i) :: after = ds at h
  induction h generalizing after with
  | nil => simp at hds
  | @first ds progress source hbefore hnext ih =>
    cases append_cons_eq_concat hds with
    | inl hlast =>
      obtain ⟨rfl, rfl⟩ := Prod.mk.inj hlast.2
      exact ⟨progress, hlast.1 ▸ hbefore, .inl ⟨rfl, hnext⟩⟩
    | inr hmore =>
      obtain ⟨rest, hrest⟩ := hmore
      exact ih hrest
  | @again ds progress source j hbefore hrepeat ih =>
    cases append_cons_eq_concat hds with
    | inl hlast =>
      obtain ⟨rfl, rfl⟩ := Prod.mk.inj hlast.2
      exact ⟨progress, hlast.1 ▸ hbefore, .inr hrepeat⟩
    | inr hmore =>
      obtain ⟨rest, hrest⟩ := hmore
      exact ih hrest

/-- A relation between progress and state that first deliveries advance and repetitions
keep holds at the end of every schedule. -/
theorem Schedule.invariant {I : (K → ℕ) → S → Prop} (step : S → K × ℕ → S) {s : S} (hinit : I (fun _ => 0) s)
    (hfirst : ∀ progress t k, I progress t → progress k < length k →
      I (Function.update progress k (progress k + 1)) (step t (k, progress k)))
    (hagain : ∀ progress t k i, I progress t → i < progress k → progress k ≤ length k → I progress (step t (k, i)))
    (h : Schedule length ds progress) : I progress (ds.foldl step s) := by
  induction h with
  | nil => exact hinit
  | first _ hnext ih =>
    rw [List.foldl_append]
    exact hfirst _ _ _ ih hnext
  | again hbefore hrepeat ih =>
    rw [List.foldl_append]
    exact hagain _ _ _ _ ih hrepeat (hbefore.le_length _)

/-! ## Quantities determined by the progress -/

/-- The sum of the amounts of the first items of a stream. -/
def prefixSum {A : Type*} (amount : A → ℤ) (stream : List A) (n : ℕ) : ℤ := ((stream.take n).map amount).sum

/-- One more item adds its amount. -/
theorem prefixSum_succ {A : Type*} {amount : A → ℤ} {stream : List A} {n : ℕ} {a : A} (ha : stream[n]? = some a) :
    prefixSum amount stream (n + 1) = prefixSum amount stream n + amount a := by
  simp only [prefixSum, List.take_add_one, ha, Option.toList_some, List.map_append, List.map_singleton,
    List.sum_append, List.sum_singleton]

/-- Amounts that are not negative sum to no less than nothing. -/
theorem prefixSum_nonneg {A : Type*} {amount : A → ℤ} {stream : List A} (hamount : ∀ a ∈ stream, 0 ≤ amount a)
    (n : ℕ) : 0 ≤ prefixSum amount stream n := by
  apply List.sum_nonneg
  intro x hx
  obtain ⟨a, ha, rfl⟩ := List.mem_map.mp hx
  exact hamount a (List.mem_of_mem_take ha)

/-- The first items of a stream sum to no more than all of them. -/
theorem prefixSum_le {A : Type*} {amount : A → ℤ} {stream : List A} (hamount : ∀ a ∈ stream, 0 ≤ amount a)
    (n : ℕ) : prefixSum amount stream n ≤ (stream.map amount).sum := by
  have hrest : 0 ≤ ((stream.drop n).map amount).sum := by
    apply List.sum_nonneg
    intro x hx
    obtain ⟨a, ha, rfl⟩ := List.mem_map.mp hx
    exact hamount a (List.mem_of_mem_drop ha)
  calc prefixSum amount stream n ≤ ((stream.take n).map amount).sum + ((stream.drop n).map amount).sum := by
        rw [prefixSum]
        linarith
    _ = (stream.map amount).sum := by rw [← List.sum_append, ← List.map_append, List.take_append_drop]

/-- A sum over distinct sources changes by what the source that advances adds. -/
theorem sum_update {sources : List K} (hnodup : sources.Nodup) {k : K} (hk : k ∈ sources) (f : K → ℕ → ℤ)
    (progress : K → ℕ) (n : ℕ) :
    (sources.map fun j => f j (Function.update progress k n j)).sum =
      (sources.map fun j => f j (progress j)).sum + (f k n - f k (progress k)) := by
  calc (sources.map fun j => f j (Function.update progress k n j)).sum =
        (sources.map fun j => f j (progress j) + if k = j then f k n - f k (progress k) else 0).sum := by
        congr 1
        apply List.map_congr_left
        intro j _
        by_cases hj : k = j
        · subst hj
          simp
        · rw [Function.update_of_ne (Ne.symm hj), if_neg hj, add_zero]
    _ = (sources.map fun j => f j (progress j)).sum + (f k n - f k (progress k)) := by
        rw [List.sum_map_add, DoubleEntry.sum_single hnodup hk]

end Schedules
