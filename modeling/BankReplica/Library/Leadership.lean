import Mathlib.Data.Set.Basic

/-!
# Leaders that hold every fact

Parties hold facts, messages and half-finished work carry facts, and some parties lead.
Facts are never forgotten by a party. If a new fact is created only where no other party
leads, and a party starts to lead only when it holds whatever any party holds, then at
every moment each leader holds every fact there is, however messages are delayed,
dropped or reordered.
-/

namespace Leadership

variable {N F : Type*}

/-- Who holds what, what is on its way, and who leads. -/
structure State (N F : Type*) where
  holds : N → Set F
  carried : Set F
  leaders : Set N

/-- A step of party `x`. -/
structure Step (x : N) (s t : State N F) : Prop where
  others : ∀ y, y ≠ x → t.holds y = s.holds y
  grows : s.holds x ⊆ t.holds x
  /-- What the party did not hold was carried to it, or is created where no other party leads. -/
  learns : ∀ f ∈ t.holds x, f ∈ s.holds x ∨ f ∈ s.carried ∨ ∀ y ∈ s.leaders, y = x
  carries : ∀ f ∈ t.carried, f ∈ s.carried ∨ f ∈ t.holds x
  resigns : ∀ y ∈ t.leaders, y ≠ x → y ∈ s.leaders
  elects : x ∈ t.leaders → x ∈ s.leaders ∨ ∀ y, s.holds y ⊆ s.holds x

/-- Whatever is carried is held, and every leader holds whatever is held. -/
structure Complete (s : State N F) : Prop where
  held : ∀ f ∈ s.carried, ∃ y, f ∈ s.holds y
  leader : ∀ x ∈ s.leaders, ∀ y, s.holds y ⊆ s.holds x

/-- Where nobody leads and nothing is carried, the leaders are complete. -/
theorem complete_of_no_leader {s : State N F} (hcarried : s.carried = ∅) (hleaders : s.leaders = ∅) :
    Complete s where
  held f hf := by
    rw [hcarried] at hf
    exact absurd hf (Set.notMem_empty f)
  leader x hx := by
    rw [hleaders] at hx
    exact absurd hx (Set.notMem_empty x)

/-- No party forgets a fact in a step. -/
theorem Step.holds_subset {x : N} {s t : State N F} (hstep : Step x s t) (y : N) :
    s.holds y ⊆ t.holds y := by
  by_cases hy : y = x
  · exact hy ▸ hstep.grows
  · exact (hstep.others y hy).ge

/-- A leader other than the party that takes a step still holds what that party holds. -/
theorem Step.leader_other {x : N} {s t : State N F} (hstep : Step x s t) (h : Complete s) {y : N}
    (hy : y ∈ t.leaders) (hne : y ≠ x) : t.holds x ⊆ t.holds y := by
  have hleads := hstep.resigns y hy hne
  rw [hstep.others y hne]
  intro f hf
  rcases hstep.learns f hf with hheld | hcarried | hcreated
  · exact h.leader y hleads x hheld
  · obtain ⟨z, hz⟩ := h.held f hcarried
    exact h.leader y hleads z hz
  · exact absurd (hcreated y hleads) hne

/-- Completeness is preserved by every step. -/
theorem Complete.step {x : N} {s t : State N F} (h : Complete s) (hstep : Step x s t) : Complete t where
  held f hf := by
    cases hstep.carries f hf with
    | inl hcarried =>
      obtain ⟨y, hy⟩ := h.held f hcarried
      exact ⟨y, hstep.holds_subset y hy⟩
    | inr hheld => exact ⟨x, hheld⟩
  leader y hy z := by
    by_cases hyx : y = x
    · subst hyx
      by_cases hzx : z = y
      · exact hzx ▸ subset_rfl
      · rw [hstep.others z hzx]
        refine subset_trans ?_ hstep.grows
        cases hstep.elects hy with
        | inl hled => exact h.leader y hled z
        | inr hall => exact hall z
    · by_cases hzx : z = x
      · exact hzx ▸ hstep.leader_other h hy hyx
      · rw [hstep.others z hzx, hstep.others y hyx]
        exact h.leader y (hstep.resigns y hy hyx) z

end Leadership
