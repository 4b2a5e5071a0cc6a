import Mathlib.Logic.Relation

/-!
# Runs of a guarded event system

A system is a partial step function on states: `step s e = none` says that the event
is not enabled. A guard restricts which enabled events a run may take, so one system
serves both the unrestricted runs and the runs whose every step meets a condition.
Concrete runs are replayed from a list of events and checked by evaluation.
-/

namespace Runs

variable {S E : Type*}

/-- The states reached from an initial state by enabled events that meet the guard. -/
inductive Reachable (step : S → E → Option S) (guard : S → E → Prop) (init : S → Prop) : S → Prop
  | init {s : S} : init s → Reachable step guard init s
  | step {s t : S} {e : E} : Reachable step guard init s → guard s e → step s e = some t →
      Reachable step guard init t

/-- The guard that admits every enabled event. -/
def Always (_ : S) (_ : E) : Prop := True

instance (s : S) (e : E) : Decidable (Always s e) := .isTrue trivial

/-- Replay a list of events, failing at the first one that is not enabled or that the
guard excludes. -/
def replay (step : S → E → Option S) (guard : S → E → Prop) [∀ s e, Decidable (guard s e)] :
    S → List E → Option S
  | s, [] => some s
  | s, e :: rest => if guard s e then (step s e).bind fun t => replay step guard t rest else none

variable {step : S → E → Option S} {guard : S → E → Prop} {init : S → Prop}

/-- A property of the initial states that every guarded step preserves holds in every
reachable state. -/
theorem Reachable.invariant {I : S → Prop} (hinit : ∀ s, init s → I s)
    (hstep : ∀ s e t, I s → guard s e → step s e = some t → I t) {s : S}
    (h : Reachable step guard init s) : I s := by
  induction h with
  | init hs => exact hinit _ hs
  | step _ hg he ih => exact hstep _ _ _ ih hg he

/-- A run under a guard is a run under a weaker one. -/
theorem Reachable.weaken {guard' : S → E → Prop} {s : S} (h : Reachable step guard init s)
    (hweaker : ∀ s e, guard s e → guard' s e) : Reachable step guard' init s := by
  induction h with
  | init hs => exact .init hs
  | step _ hg he ih => exact .step ih (hweaker _ _ hg) he

/-- A run goes on from where another one ends. -/
theorem Reachable.trans {s t : S} (hs : Reachable step guard init s) (h : Reachable step guard (· = s) t) :
    Reachable step guard init t := by
  induction h with
  | init heq => exact heq ▸ hs
  | step _ hg he ih => exact .step ih hg he

/-- A replayed list of events extends a run. -/
theorem Reachable.replay [∀ s e, Decidable (guard s e)] {s t : S} {events : List E}
    (hs : Reachable step guard init s) (h : replay step guard s events = some t) :
    Reachable step guard init t := by
  induction events generalizing s with
  | nil =>
    simp only [Runs.replay, Option.some.injEq] at h
    exact h ▸ hs
  | cons e rest ih =>
    simp only [Runs.replay] at h
    split at h
    · obtain ⟨u, hu, hrest⟩ := Option.bind_eq_some_iff.mp h
      exact ih (.step hs ‹_› hu) hrest
    · contradiction

variable (step guard init) in
/-- A replay whose last state passes a computed test exhibits a reachable state that
passes it. -/
theorem exists_reachable_of_replay [∀ s e, Decidable (guard s e)] {s : S} (events : List E)
    (test : S → Bool) (hs : init s) (h : (replay step guard s events).any test = true) :
    ∃ t, Reachable step guard init t ∧ test t = true := by
  obtain ⟨t, ht, htest⟩ := (Option.any_eq_true _ _).mp h
  exact ⟨t, (Reachable.init hs).replay ht, htest⟩

end Runs
