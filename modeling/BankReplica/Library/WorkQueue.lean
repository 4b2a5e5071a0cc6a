import Mathlib.Algebra.Order.BigOperators.Group.Finset
import Mathlib.Data.Fintype.Card

/-!
# A queue made of one mutex and one condition variable

Callers put items into the queue, close it, and take items from it. A put is one section
under the mutex and a `notify_one` after it; a close is one section and a `notify_all`. A
taker sleeps until there is an item or the queue is closed, and tests again whenever it is
woken, which may also happen without cause. Any number of callers take part; what becomes
of an item is no concern of the queue.
-/

namespace WorkQueue

/-- Where a caller stands in its call. -/
inductive Stage (α : Type*)
  | outside
  /-- Before the mutex, with an item to put. -/
  | putting (a : α)
  | pushing (a : α)
  /-- The item is in the queue and `notify_one` comes next. -/
  | notifyingOne
  /-- Before the mutex, to close the queue. -/
  | closing
  | setting
  /-- The queue is closed and `notify_all` comes next. -/
  | notifyingAll
  /-- Before the mutex, to take an item. -/
  | taking
  | testing
  /-- Asleep on the condition variable. -/
  | asleep
  /-- Woken, and still to take the mutex again. -/
  | woken
  | returning (result : Option α)
deriving DecidableEq

/-- The queue, its mutex and its callers, with all items ever put in and handed out. -/
structure State (ι α : Type*) where
  items : List α := []
  closed : Bool := false
  locked : Bool := false
  stage : ι → Stage α := fun _ => .outside
  accepted : List α := []
  served : List α := []

/-- The steps of the callers; `woken` is the sleeper that `notify_one` picks. -/
inductive Event (ι α : Type*)
  | put (i : ι) (a : α)
  | close (i : ι)
  | take (i : ι)
  | lock (i : ι)
  /-- The section under the mutex, and the release of the mutex. -/
  | work (i : ι)
  | notifyOne (i : ι) (woken : Option ι)
  | notifyAll (i : ι)
  /-- A sleeper wakes without a notification. -/
  | spurious (i : ι)
  | leave (i : ι)
deriving DecidableEq

variable {ι α : Type*}

/-- What the others have to do with a caller. -/
inductive Kind
  | idle
  /-- Holding the mutex, not to test the queue. -/
  | inside
  | testing
  | asleep
  /-- About to wake a sleeper, or woken. -/
  | stirring
  /-- About to wake all sleepers. -/
  | broadcasting
deriving DecidableEq

def Stage.kind : Stage α → Kind
  | .pushing _ | .setting => .inside
  | .testing => .testing
  | .asleep => .asleep
  | .notifyingOne | .woken => .stirring
  | .notifyingAll => .broadcasting
  | .outside | .putting _ | .closing | .taking | .returning _ => .idle

/-- What a caller calls into the queue for. -/
inductive Purpose
  | none
  | put
  | close
  | take
deriving DecidableEq

def Stage.purpose : Stage α → Purpose
  | .outside => .none
  | .putting _ | .pushing _ | .notifyingOne => .put
  | .closing | .setting | .notifyingAll => .close
  | .taking | .testing | .asleep | .woken | .returning _ => .take

/-- The item a caller has not put in yet. -/
def Stage.entering : Stage α → List α
  | .putting a | .pushing a => [a]
  | _ => []

/-- The item a caller has been handed. -/
def Stage.leaving : Stage α → List α
  | .returning (some a) => [a]
  | _ => []

/-- The caller holds the mutex. -/
def Stage.Holds (a : Stage α) : Prop := a.kind = .inside ∨ a.kind = .testing

instance (a : Stage α) : Decidable a.Holds := inferInstanceAs (Decidable (_ ∨ _))

/-- What a caller does once it has the mutex. -/
def Stage.locked : Stage α → Option (Stage α)
  | .putting a => some (.pushing a)
  | .closing => some .setting
  | .taking | .woken => some .testing
  | _ => none

/-- `notify_all` reaches a caller. -/
def Stage.wake : Stage α → Stage α
  | .asleep => .woken
  | a => a

section

variable [Fintype ι] [DecidableEq ι]

omit [Fintype ι] in
/-- A caller goes on to another stage. -/
def State.goto (s : State ι α) (i : ι) (a : Stage α) : State ι α :=
  { s with stage := Function.update s.stage i a }

section

omit [Fintype ι]

variable (s : State ι α) (i : ι) (a : Stage α)

/-- The stage of a caller after one of the callers went on. -/
theorem State.goto_stage (j : ι) : (s.goto i a).stage j = if j = i then a else s.stage j := by
  simp only [State.goto, Function.update_apply]

@[simp] theorem State.goto_items : (s.goto i a).items = s.items := rfl
@[simp] theorem State.goto_closed : (s.goto i a).closed = s.closed := rfl
@[simp] theorem State.goto_locked : (s.goto i a).locked = s.locked := rfl
@[simp] theorem State.goto_accepted : (s.goto i a).accepted = s.accepted := rfl
@[simp] theorem State.goto_served : (s.goto i a).served = s.served := rfl

end

omit [Fintype ι] in
/-- The section of a call under the mutex. -/
def State.section (s : State ι α) (i : ι) : Option (State ι α) :=
  match s.stage i with
  | .pushing a =>
    some
      { s.goto i .notifyingOne with
        items := s.items ++ [a], accepted := s.accepted ++ [a], locked := false }
  | .setting => some { s.goto i .notifyingAll with closed := true, locked := false }
  | .testing =>
    match s.items with
    | a :: rest =>
      some
        { s.goto i (.returning (some a)) with
          items := rest, served := s.served ++ [a], locked := false }
    | [] => some { s.goto i (if s.closed then .returning none else .asleep) with locked := false }
  | _ => none

/-- One step. -/
def State.step (s : State ι α) : Event ι α → Option (State ι α)
  | .put i a =>
    match s.stage i with
    | .outside => some (s.goto i (.putting a))
    | _ => none
  | .close i =>
    match s.stage i with
    | .outside => some (s.goto i .closing)
    | _ => none
  | .take i =>
    match s.stage i with
    | .outside => some (s.goto i .taking)
    | _ => none
  | .lock i =>
    match s.locked, (s.stage i).locked with
    | false, some a => some { s.goto i a with locked := true }
    | _, _ => none
  | .work i => s.section i
  | .notifyOne i (some j) =>
    match s.stage i, s.stage j with
    | .notifyingOne, .asleep => some ((s.goto i .outside).goto j .woken)
    | _, _ => none
  | .notifyOne i none =>
    match s.stage i with
    | .notifyingOne => if ∃ j, (s.stage j).kind = .asleep then none else some (s.goto i .outside)
    | _ => none
  | .notifyAll i =>
    match s.stage i with
    | .notifyingAll => some ({ s with stage := fun j => (s.stage j).wake }.goto i .outside)
    | _ => none
  | .spurious i =>
    match s.stage i with
    | .asleep => some (s.goto i .woken)
    | _ => none
  | .leave i =>
    match s.stage i with
    | .returning _ => some (s.goto i .outside)
    | _ => none

/-- The steps, one constructor for each thing a step can do. -/
inductive Step (s : State ι α) : Event ι α → State ι α → Prop
  | put (i : ι) (a : α) (hi : s.stage i = .outside) : Step s (.put i a) (s.goto i (.putting a))
  | close (i : ι) (hi : s.stage i = .outside) : Step s (.close i) (s.goto i .closing)
  | take (i : ι) (hi : s.stage i = .outside) : Step s (.take i) (s.goto i .taking)
  | lock (i : ι) (a : Stage α) (hfree : s.locked = false) (hi : (s.stage i).locked = some a) :
    Step s (.lock i) { s.goto i a with locked := true }
  | pushed (i : ι) (a : α) (hi : s.stage i = .pushing a) :
    Step s (.work i)
      { s.goto i .notifyingOne with
        items := s.items ++ [a], accepted := s.accepted ++ [a], locked := false }
  | set (i : ι) (hi : s.stage i = .setting) :
    Step s (.work i) { s.goto i .notifyingAll with closed := true, locked := false }
  | served (i : ι) (a : α) (rest : List α) (hi : s.stage i = .testing) (hitems : s.items = a :: rest) :
    Step s (.work i)
      { s.goto i (.returning (some a)) with
        items := rest, served := s.served ++ [a], locked := false }
  | drained (i : ι) (hi : s.stage i = .testing) (hitems : s.items = []) (hclosed : s.closed = true) :
    Step s (.work i) { s.goto i (.returning none) with locked := false }
  | slept (i : ι) (hi : s.stage i = .testing) (hitems : s.items = []) (hopen : s.closed = false) :
    Step s (.work i) { s.goto i .asleep with locked := false }
  | woke (i j : ι) (hi : s.stage i = .notifyingOne) (hj : s.stage j = .asleep) :
    Step s (.notifyOne i (some j)) ((s.goto i .outside).goto j .woken)
  | wokeNobody (i : ι) (hi : s.stage i = .notifyingOne) (hnone : ∀ j, (s.stage j).kind ≠ .asleep) :
    Step s (.notifyOne i none) (s.goto i .outside)
  | wokeAll (i : ι) (hi : s.stage i = .notifyingAll) :
    Step s (.notifyAll i) ({ s with stage := fun j => (s.stage j).wake }.goto i .outside)
  | spurious (i : ι) (hi : s.stage i = .asleep) : Step s (.spurious i) (s.goto i .woken)
  | left (i : ι) (result : Option α) (hi : s.stage i = .returning result) :
    Step s (.leave i) (s.goto i .outside)

/-- A step does one of these things. -/
theorem State.step_cases {s t : State ι α} {e : Event ι α} (h : s.step e = some t) : Step s e t := by
  cases e with
  | put i a =>
    simp only [State.step] at h
    split at h
    · exact (Option.some.inj h) ▸ .put i a ‹_›
    · contradiction
  | close i =>
    simp only [State.step] at h
    split at h
    · exact (Option.some.inj h) ▸ .close i ‹_›
    · contradiction
  | take i =>
    simp only [State.step] at h
    split at h
    · exact (Option.some.inj h) ▸ .take i ‹_›
    · contradiction
  | lock i =>
    simp only [State.step] at h
    split at h
    · exact (Option.some.inj h) ▸ .lock i _ ‹_› ‹_›
    · contradiction
  | work i =>
    simp only [State.step, State.section] at h
    split at h
    · exact (Option.some.inj h) ▸ .pushed i _ ‹_›
    · exact (Option.some.inj h) ▸ .set i ‹_›
    · split at h
      · exact (Option.some.inj h) ▸ .served i _ _ ‹_› ‹_›
      · cases hclosed : s.closed with
        | true =>
          rw [hclosed] at h
          exact (Option.some.inj h) ▸ .drained i ‹_› ‹_› hclosed
        | false =>
          rw [hclosed] at h
          exact (Option.some.inj h) ▸ .slept i ‹_› ‹_› hclosed
    · contradiction
  | notifyOne i woken =>
    cases woken with
    | some j =>
      simp only [State.step] at h
      split at h
      · exact (Option.some.inj h) ▸ .woke i j ‹_› ‹_›
      · contradiction
    | none =>
      simp only [State.step] at h
      split at h
      · split at h
        · contradiction
        · rename_i hi hnone
          exact (Option.some.inj h) ▸ .wokeNobody i hi (not_exists.mp hnone)
      · contradiction
  | notifyAll i =>
    simp only [State.step] at h
    split at h
    · exact (Option.some.inj h) ▸ .wokeAll i ‹_›
    · contradiction
  | spurious i =>
    simp only [State.step] at h
    split at h
    · exact (Option.some.inj h) ▸ .spurious i ‹_›
    · contradiction
  | leave i =>
    simp only [State.step] at h
    split at h
    · exact (Option.some.inj h) ▸ .left i _ ‹_›
    · contradiction

/-! ## Counting callers -/

/-- The number of callers of a kind. -/
def State.count (s : State ι α) (k : Kind) : ℕ := ∑ i, if (s.stage i).kind = k then 1 else 0

/-- A sum over the callers when one of them goes on to another stage. -/
theorem sum_update (w : Stage α → ℕ) (f : ι → Stage α) (i : ι) (a : Stage α) :
    (∑ j, w (Function.update f i a j)) + w (f i) = (∑ j, w (f j)) + w a := by
  have hothers : ∀ j ∈ Finset.univ.erase i, w (Function.update f i a j) = w (f j) := by
    intro j hj
    rw [Function.update_of_ne (Finset.ne_of_mem_erase hj)]
  have hold := Finset.add_sum_erase Finset.univ (fun j => w (f j)) (Finset.mem_univ i)
  have hnew := Finset.add_sum_erase Finset.univ (fun j => w (Function.update f i a j)) (Finset.mem_univ i)
  rw [Finset.sum_congr rfl hothers, Function.update_self] at hnew
  omega

/-- One caller of the counted ones went from one kind to another. -/
def Moved (f g : Kind → ℕ) (a b : Kind) : Prop :=
  ∀ k, g k + (if a = k then 1 else 0) = f k + (if b = k then 1 else 0)

/-- A caller goes on to another stage. -/
theorem State.moved {s : State ι α} {i : ι} {a : Stage α} (hi : s.stage i = a) (b : Stage α) :
    Moved s.count (s.goto i b).count a.kind b.kind := by
  subst hi
  exact fun k => sum_update (fun c => if c.kind = k then 1 else 0) s.stage i b

omit [DecidableEq ι] in
/-- Somebody is counted. -/
theorem State.count_pos {s : State ι α} {k : Kind} : 0 < s.count k ↔ ∃ i, (s.stage i).kind = k := by
  simp [State.count, Nat.pos_iff_ne_zero]

/-- A `notify_all` reaches a caller of some kind. -/
theorem Stage.kind_wake (a : Stage α) : a.wake.kind = if a.kind = .asleep then .stirring else a.kind := by
  cases a <;> rfl

omit [DecidableEq ι] in
/-- After a `notify_all` nobody sleeps, and who was elsewhere stays there. -/
theorem State.count_wake (s : State ι α) (k : Kind) :
    ({ s with stage := fun i => (s.stage i).wake } : State ι α).count k =
      if k = .asleep then 0
      else if k = .stirring then s.count .stirring + s.count .asleep
      else s.count k := by
  have hsplit : s.count .stirring + s.count .asleep =
      ∑ i, ((if (s.stage i).kind = .stirring then 1 else 0) + if (s.stage i).kind = .asleep then 1 else 0) :=
    Finset.sum_add_distrib.symm
  rw [hsplit]
  simp only [State.count, Stage.kind_wake]
  split_ifs with hasleep hstirring
  · refine Finset.sum_eq_zero fun i _ => if_neg ?_
    split_ifs <;> simp_all
  all_goals
    refine Finset.sum_congr rfl fun i _ => ?_
    cases (s.stage i).kind <;> simp_all [eq_comm]

/-! ## The invariant -/

/-- At most one caller is in the section. While somebody sleeps, a wakeup is on its way for every
item in the queue, and for the end of the queue once it is closed. -/
structure Balanced (length : ℕ) (closed locked : Bool) (count : Kind → ℕ) : Prop where
  mutex : count .inside + count .testing = if locked then 1 else 0
  items : 0 < count .asleep → length ≤ count .stirring + count .testing
  close : closed = true → 0 < count .asleep → 0 < count .broadcasting

section

variable {n : ℕ} {closed : Bool} {locked : Bool} {f g k : Kind → ℕ}

/-- A caller goes on outside the mutex. -/
theorem Balanced.idles (h : Balanced n closed locked f) (hmoved : Moved f g .idle .idle) :
    Balanced n closed locked g := by
  obtain ⟨hmutex, hitems, hclose⟩ := h
  constructor <;> grind [Moved]

/-- A caller takes the mutex. -/
theorem Balanced.locks (h : Balanced n closed false f) {a b : Kind} (hmoved : Moved f g a b)
    (hcase : (a = .idle ∧ (b = .inside ∨ b = .testing)) ∨ (a = .stirring ∧ b = .testing)) :
    Balanced n closed true g := by
  obtain ⟨hmutex, hitems, hclose⟩ := h
  obtain ⟨rfl, rfl | rfl⟩ | ⟨rfl, rfl⟩ := hcase <;> constructor <;> grind [Moved]

/-- An item comes in, and a wakeup with it. -/
theorem Balanced.pushes (h : Balanced n closed locked f) (hmoved : Moved f g .inside .stirring) :
    Balanced (n + 1) closed false g := by
  obtain ⟨hmutex, hitems, hclose⟩ := h
  constructor <;> grind [Moved]

/-- The queue is closed, and a wakeup of all is on its way. -/
theorem Balanced.sets (h : Balanced n closed locked f) (hmoved : Moved f g .inside .broadcasting) :
    Balanced n true false g := by
  obtain ⟨hmutex, hitems, hclose⟩ := h
  constructor <;> grind [Moved]

/-- A caller leaves with an item, or because there is none. -/
theorem Balanced.tests (h : Balanced n closed locked f) (hmoved : Moved f g .testing .idle) {m : ℕ}
    (hm : m = n - 1) : Balanced m closed false g := by
  obtain ⟨hmutex, hitems, hclose⟩ := h
  constructor <;> grind [Moved]

/-- A caller goes to sleep. -/
theorem Balanced.sleeps (h : Balanced 0 false locked f) (hmoved : Moved f g .testing .asleep) :
    Balanced 0 false false g := by
  obtain ⟨hmutex, hitems, hclose⟩ := h
  constructor <;> grind [Moved]

/-- A wakeup reaches a sleeper. -/
theorem Balanced.wakes (h : Balanced n closed locked f) (hpasses : Moved f g .stirring .idle)
    (hmoved : Moved g k .asleep .stirring) : Balanced n closed locked k := by
  obtain ⟨hmutex, hitems, hclose⟩ := h
  constructor <;> grind [Moved]

/-- A wakeup finds nobody asleep. -/
theorem Balanced.wakesNobody (h : Balanced n closed locked f) (hmoved : Moved f g .stirring .idle)
    (hnone : f .asleep = 0) : Balanced n closed locked g := by
  obtain ⟨hmutex, hitems, hclose⟩ := h
  constructor <;> grind [Moved]

/-- A sleeper wakes without a notification. -/
theorem Balanced.stirs (h : Balanced n closed locked f) (hmoved : Moved f g .asleep .stirring) :
    Balanced n closed locked g := by
  obtain ⟨hmutex, hitems, hclose⟩ := h
  constructor <;> grind [Moved]

/-- All sleepers are woken. -/
theorem Balanced.wakesAll (h : Balanced n closed locked f) (hnone : g .asleep = 0)
    (hkept : g .inside = f .inside ∧ g .testing = f .testing) (hmoved : Moved g k .broadcasting .idle) :
    Balanced n closed locked k := by
  obtain ⟨hmutex, hitems, hclose⟩ := h
  constructor <;> grind [Moved]

end

/-- The invariant of the queue; items are handed out in the order they were put in. -/
structure State.Inv (s : State ι α) : Prop where
  balanced : Balanced s.items.length s.closed s.locked s.count
  order : s.accepted = s.served ++ s.items

omit [DecidableEq ι] in
/-- A queue that nobody has called into. -/
theorem State.inv_initial : ({} : State ι α).Inv := by
  refine ⟨⟨?_, ?_, ?_⟩, rfl⟩ <;> simp [State.count, Stage.kind]

/-- The kind of a caller that has taken the mutex. -/
theorem Stage.kind_locked {a b : Stage α} (h : a.locked = some b) :
    (a.kind = .idle ∧ (b.kind = .inside ∨ b.kind = .testing)) ∨ (a.kind = .stirring ∧ b.kind = .testing) := by
  cases a <;> cases h <;> simp [Stage.kind]

/-- Every step keeps the invariant. -/
theorem State.Inv.step {s t : State ι α} {e : Event ι α} (h : s.Inv) (hstep : s.step e = some t) : t.Inv := by
  obtain ⟨hbalanced, horder⟩ := h
  cases State.step_cases hstep with
  | put i a hi => exact ⟨hbalanced.idles (State.moved hi (.putting a)), horder⟩
  | close i hi => exact ⟨hbalanced.idles (State.moved hi .closing), horder⟩
  | take i hi => exact ⟨hbalanced.idles (State.moved hi .taking), horder⟩
  | lock i a hfree hi =>
    rw [hfree] at hbalanced
    exact ⟨hbalanced.locks (State.moved rfl a) (Stage.kind_locked hi), horder⟩
  | pushed i a hi =>
    refine ⟨?_, by rw [horder, List.append_assoc]; rfl⟩
    rw [List.length_append, List.length_singleton]
    exact hbalanced.pushes (State.moved hi .notifyingOne)
  | set i hi => exact ⟨hbalanced.sets (State.moved hi .notifyingAll), horder⟩
  | served i a rest hi hitems =>
    refine ⟨hbalanced.tests (State.moved hi (.returning (some a))) ?_, ?_⟩
    · rw [hitems, List.length_cons, Nat.add_sub_cancel]
    · exact horder.trans (by rw [hitems, List.append_assoc, List.singleton_append])
  | drained i hi hitems hclosed =>
    refine ⟨hbalanced.tests (State.moved hi (.returning none)) ?_, horder⟩
    simp only [State.goto, hitems, List.length_nil]
  | slept i hi hitems hopen =>
    refine ⟨?_, horder⟩
    rw [hitems, hopen] at hbalanced
    simp only [State.goto, hitems, hopen]
    exact hbalanced.sleeps (State.moved hi .asleep)
  | woke i j hi hj =>
    have hne : j ≠ i := by
      rintro rfl
      rw [hi] at hj
      contradiction
    have hj' : (s.goto i .outside).stage j = .asleep := (Function.update_of_ne hne _ _).trans hj
    exact ⟨hbalanced.wakes (State.moved hi .outside) (State.moved hj' .woken), horder⟩
  | wokeNobody i hi hnone =>
    refine ⟨hbalanced.wakesNobody (State.moved hi .outside) ?_, horder⟩
    rw [← Nat.le_zero, ← not_lt, State.count_pos]
    exact not_exists.mpr hnone
  | wokeAll i hi =>
    refine ⟨hbalanced.wakesAll (g := State.count { s with stage := fun j => (s.stage j).wake }) ?_ ?_ ?_, horder⟩
    · exact s.count_wake .asleep
    · exact ⟨s.count_wake .inside, s.count_wake .testing⟩
    · have hpasses : (s.stage i).wake = .notifyingAll := by rw [hi]; rfl
      exact State.moved (s := { s with stage := fun j => (s.stage j).wake }) hpasses .outside
  | spurious i hi => exact ⟨hbalanced.stirs (State.moved hi .woken), horder⟩
  | left i result hi => exact ⟨hbalanced.idles (State.moved hi .outside), horder⟩

/-! ## Who can go on -/

/-- The caller that a step takes further inside its call. -/
def Event.own : Event ι α → Option ι
  | .lock i | .work i | .notifyOne i _ | .notifyAll i => some i
  | .put .. | .close _ | .take _ | .spurious _ | .leave _ => none

/-- The caller can go on inside its call. -/
def State.CanGoOn (s : State ι α) (i : ι) : Prop := ∃ e : Event ι α, e.own = some i ∧ (s.step e).isSome = true

/-- Whoever holds the mutex can go on. -/
theorem State.canGoOn_of_holds {s : State ι α} {i : ι} (h : (s.stage i).Holds) : s.CanGoOn i := by
  refine ⟨.work i, rfl, ?_⟩
  simp only [State.step, State.section]
  cases hi : s.stage i with
  | testing =>
    simp only
    split <;> rfl
  | pushing a => rfl
  | setting => rfl
  | _ => simp [Stage.Holds, Stage.kind, hi] at h

/-- Whoever waits for a free mutex can go on. -/
theorem State.canGoOn_of_locked {s : State ι α} {i : ι} {a : Stage α} (h : (s.stage i).locked = some a)
    (hfree : s.locked = false) : s.CanGoOn i :=
  ⟨.lock i, rfl, by simp [State.step, h, hfree]⟩

/-- Whoever is about to notify can do so. -/
theorem State.canGoOn_of_notifying {s : State ι α} {i : ι}
    (h : s.stage i = .notifyingOne ∨ s.stage i = .notifyingAll) : s.CanGoOn i := by
  cases h with
  | inr hall => exact ⟨.notifyAll i, rfl, by simp [State.step, hall]⟩
  | inl hone =>
    by_cases hsleeper : ∃ j, (s.stage j).kind = .asleep
    · obtain ⟨j, hj⟩ := hsleeper
      have hasleep : s.stage j = .asleep := by
        cases hstage : s.stage j <;> simp [Stage.kind, hstage] at hj
        rfl
      exact ⟨.notifyOne i (some j), rfl, by simp [State.step, hone, hasleep]⟩
    · exact ⟨.notifyOne i none, rfl, by simp only [State.step, hone, if_neg hsleeper]; rfl⟩

omit [DecidableEq ι] in
/-- Somebody holds the mutex. -/
theorem State.holders_pos {s : State ι α} :
    0 < s.count .inside + s.count .testing ↔ ∃ i, (s.stage i).Holds := by
  simp only [Stage.Holds, exists_or, ← State.count_pos]
  omega

omit [DecidableEq ι] in
/-- The mutex is taken exactly while a caller holds it. -/
theorem State.Inv.locked_iff {s : State ι α} (h : s.Inv) : s.locked = true ↔ ∃ i, (s.stage i).Holds := by
  rw [← State.holders_pos, h.balanced.mutex]
  cases s.locked <;> simp

/-- While the mutex is free, whoever is in a call and neither sleeps nor returns can go on. -/
theorem State.Inv.canGoOn {s : State ι α} (h : s.Inv) {i : ι} (hfree : s.locked = false)
    (houtside : s.stage i ≠ .outside) (hasleep : s.stage i ≠ .asleep)
    (hreturning : ∀ result, s.stage i ≠ .returning result) : s.CanGoOn i := by
  have hholds : ¬ (s.stage i).Holds := by
    intro hholds
    rw [h.locked_iff.mpr ⟨i, hholds⟩] at hfree
    contradiction
  cases hi : s.stage i with
  | putting a => exact State.canGoOn_of_locked (by rw [hi]; rfl) hfree
  | closing => exact State.canGoOn_of_locked (by rw [hi]; rfl) hfree
  | taking => exact State.canGoOn_of_locked (by rw [hi]; rfl) hfree
  | woken => exact State.canGoOn_of_locked (by rw [hi]; rfl) hfree
  | notifyingOne => exact State.canGoOn_of_notifying (.inl hi)
  | notifyingAll => exact State.canGoOn_of_notifying (.inr hi)
  | pushing a => exact absurd (.inl (by rw [hi]; rfl)) hholds
  | setting => exact absurd (.inl (by rw [hi]; rfl)) hholds
  | testing => exact absurd (.inr (by rw [hi]; rfl)) hholds
  | outside => exact absurd hi houtside
  | asleep => exact absurd hi hasleep
  | returning result => exact absurd hi (hreturning result)

/-- At most one caller holds the mutex. -/
theorem State.Inv.holder_unique {s : State ι α} (h : s.Inv) {i j : ι} (hi : (s.stage i).Holds)
    (hj : (s.stage j).Holds) : i = j := by
  by_contra hne
  have hstage : (s.goto i .outside).stage j = s.stage j := Function.update_of_ne (Ne.symm hne) _ _
  have hothers : 0 < (s.goto i .outside).count .inside + (s.goto i .outside).count .testing :=
    State.holders_pos.mpr ⟨j, hstage ▸ hj⟩
  have hmutex := h.balanced.mutex
  have hmoved := State.moved (s := s) (i := i) rfl .outside
  have hinside := hmoved .inside
  have htesting := hmoved .testing
  have houtside : (Stage.outside : Stage α).kind = .idle := rfl
  cases hi with
  | inl hkind =>
    simp only [hkind, houtside, if_true, reduceCtorEq, if_false] at hinside htesting
    split at hmutex <;> omega
  | inr hkind =>
    simp only [hkind, houtside, if_true, reduceCtorEq, if_false] at hinside htesting
    split at hmutex <;> omega

/-! ## What a caller goes through -/

/-- What a step inside the call of a caller does to the caller and to the queue. -/
inductive Turn (s t : State ι α) (i : ι) : Prop
  | locked (hi : (s.stage i).locked = some (t.stage i)) (haccepted : t.accepted = s.accepted)
      (hserved : t.served = s.served) (hclosed : t.closed = s.closed)
  | pushed (a : α) (hi : s.stage i = .pushing a) (hi' : t.stage i = .notifyingOne)
      (haccepted : t.accepted = s.accepted ++ [a]) (hserved : t.served = s.served) (hclosed : t.closed = s.closed)
  | set (hi : s.stage i = .setting) (hi' : t.stage i = .notifyingAll) (haccepted : t.accepted = s.accepted)
      (hserved : t.served = s.served) (hclosed : t.closed = true)
  | served (a : α) (hi : s.stage i = .testing) (hi' : t.stage i = .returning (some a))
      (haccepted : t.accepted = s.accepted) (hserved : t.served = s.served ++ [a]) (hclosed : t.closed = s.closed)
  | drained (hi : s.stage i = .testing) (hi' : t.stage i = .returning none) (hitems : s.items = [])
      (hended : s.closed = true) (haccepted : t.accepted = s.accepted) (hserved : t.served = s.served)
      (hclosed : t.closed = s.closed)
  | slept (hi : s.stage i = .testing) (hi' : t.stage i = .asleep) (hopen : s.closed = false)
      (haccepted : t.accepted = s.accepted) (hserved : t.served = s.served) (hclosed : t.closed = s.closed)
  | notified (hi : s.stage i = .notifyingOne ∨ s.stage i = .notifyingAll) (hi' : t.stage i = .outside)
      (haccepted : t.accepted = s.accepted) (hserved : t.served = s.served) (hclosed : t.closed = s.closed)

/-- A step inside a call is a turn of its caller. -/
theorem State.turn_step {s t : State ι α} {e : Event ι α} {i : ι} (howner : e.own = some i)
    (hstep : s.step e = some t) : Turn s t i := by
  have hself : ∀ (s : State ι α) a, (s.goto i a).stage i = a := fun s a => by rw [State.goto_stage, if_pos rfl]
  cases State.step_cases hstep with
  | lock j a hfree hj =>
    obtain rfl := Option.some.inj howner
    exact .locked (hj.trans (congrArg some (hself s a).symm)) rfl rfl rfl
  | pushed j a hj =>
    obtain rfl := Option.some.inj howner
    exact .pushed a hj (hself s _) rfl rfl rfl
  | set j hj =>
    obtain rfl := Option.some.inj howner
    exact .set hj (hself s _) rfl rfl rfl
  | served j a rest hj hitems =>
    obtain rfl := Option.some.inj howner
    exact .served a hj (hself s _) rfl rfl rfl
  | drained j hj hitems hclosed =>
    obtain rfl := Option.some.inj howner
    exact .drained hj (hself s _) hitems hclosed rfl rfl rfl
  | slept j hj hitems hopen =>
    obtain rfl := Option.some.inj howner
    exact .slept hj (hself s _) hopen rfl rfl rfl
  | woke j k hj hk =>
    obtain rfl := Option.some.inj howner
    have hne : j ≠ k := by
      rintro rfl
      rw [hj] at hk
      contradiction
    refine .notified (.inl hj) ?_ rfl rfl rfl
    rw [State.goto_stage, if_neg hne, hself]
  | wokeNobody j hj hnone =>
    obtain rfl := Option.some.inj howner
    exact .notified (.inl hj) (hself s _) rfl rfl rfl
  | wokeAll j hj =>
    obtain rfl := Option.some.inj howner
    exact .notified (.inr hj) (hself _ _) rfl rfl rfl
  | _ => contradiction

/-- A step inside a call leaves the others where they are, or wakes them. -/
theorem State.others_step {s t : State ι α} {e : Event ι α} {i j : ι} (howner : e.own = some i)
    (hstep : s.step e = some t) (hj : j ≠ i) :
    t.stage j = s.stage j ∨ (s.stage j = .asleep ∧ t.stage j = .woken) := by
  have hkept : ∀ (s : State ι α) a, (s.goto i a).stage j = s.stage j := fun s a => by
    rw [State.goto_stage, if_neg hj]
  cases State.step_cases hstep with
  | lock k a hfree hk =>
    obtain rfl := Option.some.inj howner
    exact .inl (hkept s _)
  | pushed k a hk =>
    obtain rfl := Option.some.inj howner
    exact .inl (hkept s _)
  | set k hk =>
    obtain rfl := Option.some.inj howner
    exact .inl (hkept s _)
  | served k a rest hk hitems =>
    obtain rfl := Option.some.inj howner
    exact .inl (hkept s _)
  | drained k hk hitems hclosed =>
    obtain rfl := Option.some.inj howner
    exact .inl (hkept s _)
  | slept k hk hitems hopen =>
    obtain rfl := Option.some.inj howner
    exact .inl (hkept s _)
  | woke k l hk hl =>
    obtain rfl := Option.some.inj howner
    rw [State.goto_stage]
    split
    · rename_i hjl
      exact .inr ⟨hjl ▸ hl, rfl⟩
    · exact .inl (hkept s _)
  | wokeNobody k hk hnone =>
    obtain rfl := Option.some.inj howner
    exact .inl (hkept s _)
  | wokeAll k hk =>
    obtain rfl := Option.some.inj howner
    rw [hkept]
    cases hstage : s.stage j <;> simp [hstage, Stage.wake]
  | _ => contradiction

section

variable {s t : State ι α} {e : Event ι α} {i j : ι}

/-- A step inside a call has the same purpose or is its end. -/
theorem State.purpose_step (howner : e.own = some i) (hstep : s.step e = some t) (j : ι) :
    (t.stage j).purpose = (s.stage j).purpose ∨ (t.stage j = .outside ∧ (s.stage j).purpose ≠ .take) := by
  by_cases hj : j = i
  · subst hj
    cases State.turn_step howner hstep with
    | locked hi haccepted hserved hclosed =>
      left
      cases hstage : s.stage j <;> simp [hstage, Stage.locked] at hi <;> simp [← hi, Stage.purpose]
    | notified hi hi' haccepted hserved hclosed =>
      right
      cases hi with
      | inl hi => simp [hi, hi', Stage.purpose]
      | inr hi => simp [hi, hi', Stage.purpose]
    | _ => simp [*, Stage.purpose]
  · cases State.others_step howner hstep hj with
    | inl hkept => simp [hkept]
    | inr hwoken => simp [hwoken, Stage.purpose]

/-- A caller learns the end of the queue when it is closed and empty. -/
theorem State.returning_step (howner : e.own = some i) (hstep : s.step e = some t)
    (hj : t.stage j = .returning none) : s.stage j = .returning none ∨ (s.closed = true ∧ s.items = []) := by
  by_cases hji : j = i
  · subst hji
    cases State.turn_step howner hstep with
    | drained hi hi' hitems hended haccepted hserved hclosed => exact .inr ⟨hended, hitems⟩
    | locked hi haccepted hserved hclosed =>
      rw [hj] at hi
      cases hstage : s.stage j <;> simp [hstage, Stage.locked] at hi
    | _ => simp_all
  · cases State.others_step howner hstep hji with
    | inl hkept => exact .inl (hkept ▸ hj)
    | inr hwoken =>
      rw [hwoken.2] at hj
      contradiction

/-- Where one caller puts items in, what it has put in and has yet to put in changes only with
its calls. -/
theorem State.accepted_step (howner : e.own = some i) (hstep : s.step e = some t)
    (honly : ∀ k, (s.stage k).purpose = .put → k = j) :
    t.accepted ++ (t.stage j).entering = s.accepted ++ (s.stage j).entering := by
  by_cases hj : j = i
  · subst hj
    cases State.turn_step howner hstep with
    | locked hi haccepted hserved hclosed =>
      rw [haccepted]
      cases hstage : s.stage j <;> simp [hstage, Stage.locked] at hi <;> simp [← hi, Stage.entering]
    | notified hi hi' haccepted hserved hclosed =>
      cases hi with
      | inl hi => simp [hi, hi', haccepted, Stage.entering]
      | inr hi => simp [hi, hi', haccepted, Stage.entering]
    | _ => simp [*, Stage.entering]
  · have haccepted : t.accepted = s.accepted := by
      cases State.turn_step howner hstep with
      | pushed a hi => exact absurd (honly i (by rw [hi]; rfl)) (Ne.symm hj)
      | _ => assumption
    cases State.others_step howner hstep hj with
    | inl hkept => rw [haccepted, hkept]
    | inr hwoken => rw [haccepted, hwoken.1, hwoken.2]; rfl

/-- Where one caller takes items out, what is handed out is handed to it. -/
theorem State.served_step (howner : e.own = some i) (hstep : s.step e = some t)
    (honly : ∀ k, (s.stage k).purpose = .take → k = j) :
    ∃ out, t.served = s.served ++ out ∧ (t.stage j).leaving = (s.stage j).leaving ++ out := by
  by_cases hj : j = i
  · subst hj
    cases State.turn_step howner hstep with
    | locked hi haccepted hserved hclosed =>
      refine ⟨[], by simp [hserved], ?_⟩
      cases hstage : s.stage j <;> simp [hstage, Stage.locked] at hi <;> simp [← hi, Stage.leaving]
    | served a hi hi' haccepted hserved hclosed => exact ⟨[a], hserved, by simp [hi, hi', Stage.leaving]⟩
    | notified hi hi' haccepted hserved hclosed =>
      refine ⟨[], by simp [hserved], ?_⟩
      cases hi with
      | inl hi => simp [hi, hi', Stage.leaving]
      | inr hi => simp [hi, hi', Stage.leaving]
    | _ => exact ⟨[], by simp [*], by simp [*, Stage.leaving]⟩
  · refine ⟨[], ?_, ?_⟩
    · rw [List.append_nil]
      cases State.turn_step howner hstep with
      | served a hi => exact absurd (honly i (by rw [hi]; rfl)) (Ne.symm hj)
      | _ => assumption
    · rw [List.append_nil]
      cases State.others_step howner hstep hj with
      | inl hkept => rw [hkept]
      | inr hwoken => rw [hwoken.1, hwoken.2]; rfl

end

/-! ## How long calls take -/

/-- What a caller still has to do in its call, at most, among `n` callers; the taker of an item has
more to do after it. -/
def Stage.weight (n cost : ℕ) : Stage α → ℕ
  | .outside | .asleep | .returning none => 0
  | .putting _ => cost + 5
  | .pushing _ => cost + 4
  | .notifyingOne => 3
  | .closing => 2 * n + 3
  | .setting => 2 * n + 2
  | .notifyingAll => 2 * n + 1
  | .taking | .woken => 2
  | .testing => 1
  | .returning (some _) => cost

/-- The steps the callers can still take inside their calls, at most. -/
def State.work (s : State ι α) (cost : ℕ) : ℕ :=
  cost * s.items.length + ∑ i, (s.stage i).weight (Fintype.card ι) cost

/-- A caller goes on to another stage. -/
theorem State.work_goto (s : State ι α) (cost : ℕ) {i : ι} {a : Stage α} (hi : s.stage i = a) (b : Stage α) :
    (s.goto i b).work cost + a.weight (Fintype.card ι) cost =
      s.work cost + b.weight (Fintype.card ι) cost := by
  have hsum := sum_update (fun c => c.weight (Fintype.card ι) cost) s.stage i b
  simp only [hi] at hsum
  simp only [State.work, State.goto]
  omega

omit [DecidableEq ι] in
/-- A `notify_all` gives each sleeper two more steps. -/
theorem State.work_wake (s : State ι α) (cost : ℕ) :
    ({ s with stage := fun j => (s.stage j).wake } : State ι α).work cost ≤
      s.work cost + 2 * Fintype.card ι := by
  have hwake : ∀ a : Stage α, a.wake.weight (Fintype.card ι) cost ≤ a.weight (Fintype.card ι) cost + 2 := by
    intro a
    cases a <;> simp [Stage.wake, Stage.weight]
  have hsum := Finset.sum_le_sum fun i (_ : i ∈ Finset.univ) => hwake (s.stage i)
  rw [Finset.sum_add_distrib, Finset.sum_const_nat fun _ _ => rfl, Finset.card_univ] at hsum
  simp only [State.work]
  omega

/-- Every step inside a call brings it nearer to its end. -/
theorem State.work_step {s t : State ι α} {e : Event ι α} {i : ι} (cost : ℕ) (howner : e.own = some i)
    (hstep : s.step e = some t) : t.work cost < s.work cost := by
  cases State.step_cases hstep with
  | lock j a hfree hj =>
    have hwork := s.work_goto cost (rfl : s.stage j = _) a
    have hless : a.weight (Fintype.card ι) cost < (s.stage j).weight (Fintype.card ι) cost := by
      cases hstage : s.stage j <;> simp only [hstage, Stage.locked, Option.some.injEq, reduceCtorEq] at hj <;>
        subst hj <;> simp [Stage.weight]
    simp only [State.work, State.goto] at hwork ⊢
    omega
  | pushed j a hj =>
    have hwork := s.work_goto cost hj .notifyingOne
    simp only [State.work, State.goto, Stage.weight, List.length_append, List.length_singleton, Nat.mul_add] at hwork ⊢
    omega
  | set j hj =>
    have hwork := s.work_goto cost hj .notifyingAll
    simp only [State.work, State.goto, Stage.weight] at hwork ⊢
    omega
  | served j a rest hj hitems =>
    have hwork := s.work_goto cost hj (.returning (some a))
    simp only [State.work, State.goto, Stage.weight, hitems, List.length_cons, Nat.mul_add] at hwork ⊢
    omega
  | drained j hj hitems hclosed =>
    have hwork := s.work_goto cost hj (.returning none)
    simp only [State.work, State.goto, Stage.weight] at hwork ⊢
    omega
  | slept j hj hitems hopen =>
    have hwork := s.work_goto cost hj .asleep
    simp only [State.work, State.goto, Stage.weight] at hwork ⊢
    omega
  | woke j k hj hk =>
    have hne : k ≠ j := by
      rintro rfl
      rw [hj] at hk
      contradiction
    have hk' : (s.goto j .outside).stage k = .asleep := (Function.update_of_ne hne _ _).trans hk
    have hleaves := s.work_goto cost hj .outside
    have hwakes := (s.goto j .outside).work_goto cost hk' .woken
    simp only [Stage.weight] at hleaves hwakes
    omega
  | wokeNobody j hj hnone =>
    have hwork := s.work_goto cost hj .outside
    simp only [Stage.weight] at hwork
    omega
  | wokeAll j hj =>
    have hwakes := s.work_wake cost
    have hj' : ({ s with stage := fun k => (s.stage k).wake } : State ι α).stage j = .notifyingAll := by
      simp only [hj, Stage.wake]
    have hleaves := State.work_goto _ cost hj' .outside
    simp only [Stage.weight] at hleaves
    omega
  | _ => contradiction

end

end WorkQueue
