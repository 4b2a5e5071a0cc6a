import Mathlib.Data.List.Nodup

/-!
# A register that a reader polls

A register of one place, which writers fill or empty, and a reader that copies what it holds
whenever it passes. An item is copied once for each pass between its write and the next
one, so all items are copied exactly once as long as the reader passes once in between, and
one pass too few or too many can never be made up for.
-/

namespace PolledRegister

/-- The register, the passes of the reader since it was last filled or emptied, and all that was
ever written to it and copied from it. -/
structure Register (A : Type*) where
  held : Option A := none
  passes : ℕ := 0
  written : List A := []
  copied : List A := []

variable {A : Type*}

/-- A writer fills the register or empties it. -/
def Register.put (r : Register A) (item : Option A) : Register A where
  held := item
  passes := 0
  written := r.written ++ item.toList
  copied := r.copied

/-- The reader passes. -/
def Register.pass (r : Register A) : Register A :=
  { r with passes := r.passes + 1, copied := r.copied ++ r.held.toList }

variable [DecidableEq A]

/-- Items are written once, copied only after that, and the one held once for each pass. -/
structure Register.Sound (r : Register A) : Prop where
  nodup : r.written.Nodup
  held : ∀ a ∈ r.held, a ∈ r.written ∧ r.copied.count a = r.passes
  copied : ∀ a ∈ r.copied, a ∈ r.written

/-- Every item was copied once, but for the one held, which was not copied more often. -/
structure Register.Orderly (r : Register A) : Prop where
  replaced : ∀ a ∈ r.written, r.held ≠ some a → r.copied.count a = 1
  held : ∀ a ∈ r.held, r.passes ≤ 1

/-- Some item was copied twice, or was replaced before it was copied. -/
def Register.Spoiled (r : Register A) : Prop :=
  ∃ a ∈ r.written, 2 ≤ r.copied.count a ∨ r.held ≠ some a ∧ r.copied.count a = 0

variable {r : Register A}

/-- What was never written was never copied. -/
theorem Register.Sound.count_fresh (h : r.Sound) {a : A} (ha : a ∉ r.written) : r.copied.count a = 0 :=
  List.count_eq_zero_of_not_mem fun hcopied => ha (h.copied a hcopied)

/-- A new item keeps the register sound. -/
theorem Register.Sound.put (h : r.Sound) {item : Option A} (hfresh : ∀ a ∈ item, a ∉ r.written) :
    (r.put item).Sound := by
  cases item with
  | none => exact ⟨by simpa [Register.put] using h.nodup, by simp [Register.put], by simpa [Register.put] using h.copied⟩
  | some a =>
    have hnew := hfresh a rfl
    refine ⟨?_, fun b hb => ?_, fun b hb => List.mem_append_left _ (h.copied b hb)⟩
    · exact h.nodup.append (List.nodup_singleton a) (by simpa using hnew)
    · obtain rfl := Option.some.inj hb
      exact ⟨List.mem_append_right _ (List.mem_singleton_self a), h.count_fresh hnew⟩

/-- A pass keeps the register sound. -/
theorem Register.Sound.pass (h : r.Sound) : r.pass.Sound := by
  refine ⟨h.nodup, fun a ha => ⟨(h.held a ha).1, ?_⟩, fun a ha => ?_⟩
  · have hheld : r.held = some a := ha
    simp only [Register.pass, hheld, Option.toList_some, List.count_append, List.count_singleton_self, (h.held a ha).2]
  · cases List.mem_append.mp ha with
    | inl hold => exact h.copied a hold
    | inr hnew => exact (h.held a (Option.mem_toList.mp hnew)).1

/-- A new item that waits for the reader to pass keeps the order. -/
theorem Register.Orderly.put (h : r.Orderly) (hsound : r.Sound) {item : Option A}
    (hread : ∀ a ∈ r.held, r.passes ≠ 0) : (r.put item).Orderly := by
  refine ⟨fun a ha hreplaced => ?_, fun _ _ => Nat.zero_le 1⟩
  cases List.mem_append.mp ha with
  | inr hnew => exact absurd (Option.mem_toList.mp hnew) hreplaced
  | inl hold =>
    by_cases hheld : r.held = some a
    · have hcount := (hsound.held a hheld).2
      have honce := h.held a hheld
      have hpassed := hread a hheld
      simp only [Register.put]
      omega
    · exact h.replaced a hold hheld

/-- A first pass keeps the order. -/
theorem Register.Orderly.pass (h : r.Orderly) (hunread : ∀ a ∈ r.held, r.passes = 0) : r.pass.Orderly := by
  refine ⟨fun a ha hreplaced => ?_, fun a ha => ?_⟩
  · have hother : a ∉ r.held.toList := fun hheld => hreplaced (Option.mem_toList.mp hheld)
    simp only [Register.pass, List.count_append, List.count_eq_zero_of_not_mem hother, Nat.add_zero]
    exact h.replaced a ha hreplaced
  · have hnone := hunread a ha
    simp only [Register.pass]
    omega

/-- What is spoiled stays spoiled when the register is written. -/
theorem Register.Spoiled.put (h : r.Spoiled) {item : Option A} (hfresh : ∀ a ∈ item, a ∉ r.written) :
    (r.put item).Spoiled := by
  obtain ⟨a, ha, hspoiled⟩ := h
  refine ⟨a, List.mem_append_left _ ha, hspoiled.imp_right fun hlost => ⟨fun hheld => ?_, hlost.2⟩⟩
  exact hfresh a hheld ha

/-- What is spoiled stays spoiled when the reader passes. -/
theorem Register.Spoiled.pass (h : r.Spoiled) : r.pass.Spoiled := by
  obtain ⟨a, ha, hspoiled⟩ := h
  refine ⟨a, ha, ?_⟩
  cases hspoiled with
  | inl htwice =>
    refine .inl (Nat.le_trans htwice ?_)
    simp only [Register.pass, List.count_append, Nat.le_add_right]
  | inr hlost =>
    have hother : a ∉ r.held.toList := fun hheld => hlost.1 (Option.mem_toList.mp hheld)
    refine .inr ⟨hlost.1, ?_⟩
    simp only [Register.pass, List.count_append, List.count_eq_zero_of_not_mem hother, hlost.2]

/-- An item replaced before the reader passed is lost. -/
theorem Register.Sound.spoiled_put (h : r.Sound) {a : A} (hheld : r.held = some a) (hunread : r.passes = 0)
    {item : Option A} (hfresh : ∀ b ∈ item, b ∉ r.written) : (r.put item).Spoiled := by
  obtain ⟨hwritten, hcount⟩ := h.held a hheld
  refine ⟨a, List.mem_append_left _ hwritten, .inr ⟨fun hnext => hfresh a hnext hwritten, ?_⟩⟩
  exact hcount.trans hunread

/-- A second pass over an item copies it twice. -/
theorem Register.Sound.spoiled_pass (h : r.Sound) {a : A} (hheld : r.held = some a) (hread : r.passes ≠ 0) :
    r.pass.Spoiled := by
  obtain ⟨hwritten, hcount⟩ := h.pass.held a hheld
  refine ⟨a, hwritten, .inl ?_⟩
  simp only [Register.pass] at hcount
  simp only [Register.pass, hcount]
  omega

/-- In order and with the reader past the item held, every item was copied exactly once. -/
theorem Register.Orderly.count_eq_one (h : r.Orderly) (hsound : r.Sound) (hread : ∀ a ∈ r.held, r.passes ≠ 0) :
    ∀ a ∈ r.written, r.copied.count a = 1 := by
  intro a ha
  by_cases hheld : r.held = some a
  · have hcount := (hsound.held a hheld).2
    have honce := h.held a hheld
    have hpassed := hread a hheld
    omega
  · exact h.replaced a ha hheld

/-- Spoiled, not every item was copied exactly once. -/
theorem Register.Spoiled.not_count_eq_one (h : r.Spoiled) : ¬ ∀ a ∈ r.written, r.copied.count a = 1 := by
  intro hall
  obtain ⟨a, ha, hspoiled⟩ := h
  have honce := hall a ha
  omega

end PolledRegister
