import Mathlib.Data.Int.Basic
import Mathlib.Data.List.Basic

/-!
# A reader-writer lock made of one mutex and two condition variables

Readers wait while a writer is active or waits; a writer waits while anybody holds the lock.
Each call is one section under the mutex up to its wait, and a thread that was woken takes
one more section to test its condition again, so a newcomer may get in before it. Leaving
the lock wakes one writer if there is one to wake, or all readers when no writer waits;
threads may also wake without cause. Any number of threads take part; what a thread does
besides is its tag, which the lock leaves alone.
-/

namespace RwLock

/-- Where a thread stands. -/
inductive Stage
  | outside
  /-- Asleep on the readers' condition variable. -/
  | waitingRead
  /-- Woken, and still to test the readers' condition. -/
  | wokenRead
  | reading
  /-- Asleep on the writers' condition variable. -/
  | waitingWrite
  /-- Woken, and still to test the writers' condition. -/
  | wokenWrite
  | writing
deriving DecidableEq

/-- What a thread wants the lock for. -/
inductive Kind
  | none
  | read
  | write
deriving DecidableEq

def Stage.kind : Stage → Kind
  | .outside => .none
  | .waitingRead | .wokenRead | .reading => .read
  | .waitingWrite | .wokenWrite | .writing => .write

/-- A thread. -/
structure Thread (τ : Type*) where
  stage : Stage := .outside
  tag : τ
deriving DecidableEq

/-- The counters of the lock, and the threads. -/
structure State (τ : Type*) where
  readersCount : ℤ := 0
  writersWaiting : ℤ := 0
  writerActive : Bool := false
  threads : List (Thread τ)
deriving DecidableEq

/-- The steps of a thread at the lock; `woken` is the writer that `notify_one` picks. -/
inductive Event
  | readLock (i : ℕ)
  | writeLock (i : ℕ)
  /-- A woken thread tests its condition again. -/
  | recheck (i : ℕ)
  | readUnlock (i : ℕ) (woken : Option ℕ)
  | writeUnlock (i : ℕ) (woken : Option ℕ)
  /-- A thread wakes without a notification. -/
  | spurious (i : ℕ)
deriving DecidableEq

variable {τ : Type*}

def State.stageAt (s : State τ) (i : ℕ) : Option Stage := s.threads[i]?.map Thread.stage

/-- The number of threads at a stage. -/
def State.count (s : State τ) (a : Stage) : ℕ := s.threads.countP fun t => t.stage = a

/-- A thread goes to another stage. -/
def State.move (s : State τ) (i : ℕ) (b : Stage) : State τ :=
  { s with threads := s.threads.modify i fun t => { t with stage := b } }

/-- The test of a reader, and what follows it. -/
def State.tryRead (s : State τ) (i : ℕ) : State τ :=
  if s.writerActive = false ∧ s.writersWaiting = 0 then
    { s.move i .reading with readersCount := s.readersCount + 1 }
  else s.move i .waitingRead

/-- The test of a writer that is counted as waiting, and what follows it. -/
def State.tryWrite (s : State τ) (i : ℕ) : State τ :=
  if s.readersCount = 0 ∧ s.writerActive = false then
    { s.move i .writing with writersWaiting := s.writersWaiting - 1, writerActive := true }
  else s.move i .waitingWrite

/-- `notify_one` on the writers: one that sleeps, if there is one. -/
def State.notifyWriter (s : State τ) : Option ℕ → Option (State τ)
  | some j => if s.stageAt j = some .waitingWrite then some (s.move j .wokenWrite) else none
  | none => if s.count .waitingWrite = 0 then some s else none

/-- A reader that sleeps is woken. -/
def Thread.wakeReader (t : Thread τ) : Thread τ :=
  if t.stage = .waitingRead then { t with stage := .wokenRead } else t

/-- `notify_all` on the readers. -/
def State.notifyReaders (s : State τ) : State τ := { s with threads := s.threads.map Thread.wakeReader }

/-- One section under the mutex. -/
def State.step (s : State τ) : Event → Option (State τ)
  | .readLock i => if s.stageAt i = some .outside then some (s.tryRead i) else none
  | .writeLock i =>
    if s.stageAt i = some .outside then
      some ({ s with writersWaiting := s.writersWaiting + 1 }.tryWrite i)
    else none
  | .recheck i =>
    match s.stageAt i with
    | some .wokenRead => some (s.tryRead i)
    | some .wokenWrite => some (s.tryWrite i)
    | _ => none
  | .readUnlock i woken =>
    if s.stageAt i = some .reading then
      let left : State τ := { s.move i .outside with readersCount := s.readersCount - 1 }
      if left.readersCount = 0 then left.notifyWriter woken else some left
    else none
  | .writeUnlock i woken =>
    if s.stageAt i = some .writing then
      let left : State τ := { s.move i .outside with writerActive := false }
      if left.writersWaiting > 0 then left.notifyWriter woken else some left.notifyReaders
    else none
  | .spurious i =>
    match s.stageAt i with
    | some .waitingRead => some (s.move i .wokenRead)
    | some .waitingWrite => some (s.move i .wokenWrite)
    | _ => none

/-! ## Counting threads -/

/-- A list in which one entry changes. -/
theorem countP_modify {α : Type*} (p : α → Bool) (f : α → α) {l : List α} {i : ℕ} {a : α} (h : l[i]? = some a) :
    (l.modify i f).countP p + (if p a then 1 else 0) = l.countP p + (if p (f a) then 1 else 0) := by
  induction l generalizing i with
  | nil => contradiction
  | cons b rest ih =>
    cases i with
    | zero =>
      obtain rfl := Option.some.inj h
      simp only [List.modify_zero_cons, List.countP_cons]
      omega
    | succ i =>
      have hrest := ih (by simpa using h)
      simp only [List.modify_succ_cons, List.countP_cons]
      omega

/-- One thread leaves a stage and enters another. -/
theorem State.count_move {s : State τ} {i : ℕ} {a : Stage} (h : s.stageAt i = some a) (b x : Stage) :
    (s.move i b).count x + (if a = x then 1 else 0) = s.count x + (if b = x then 1 else 0) := by
  obtain ⟨t, hget, rfl⟩ := Option.map_eq_some_iff.mp h
  simpa [State.count, State.move] using countP_modify (fun t : Thread τ => decide (t.stage = x)) (fun t => { t with stage := b }) hget

/-- A stage a thread stands at is counted. -/
theorem State.count_pos {s : State τ} {a : Stage} : 0 < s.count a ↔ ∃ i, s.stageAt i = some a := by
  simp only [State.count, State.stageAt, List.countP_pos_iff, decide_eq_true_eq, Option.map_eq_some_iff]
  constructor
  · rintro ⟨t, ht, hstage⟩
    obtain ⟨i, hi⟩ := List.mem_iff_getElem?.mp ht
    exact ⟨i, t, hi, hstage⟩
  · rintro ⟨i, t, hget, hstage⟩
    exact ⟨t, List.mem_of_getElem? hget, hstage⟩

/-- Once all readers are woken none sleeps, and who was elsewhere stays there. -/
theorem State.count_notifyReaders (s : State τ) (x : Stage) :
    s.notifyReaders.count x =
      if x = .waitingRead then 0
      else if x = .wokenRead then s.count .wokenRead + s.count .waitingRead
      else s.count x := by
  simp only [State.count, State.notifyReaders]
  induction s.threads with
  | nil => simp
  | cons t rest ih =>
    simp only [List.map_cons, List.countP_cons, ih, Thread.wakeReader]
    cases hstage : t.stage <;> cases x <;> simp [hstage] <;> omega

/-! ## The invariant -/

/-- The counters count the threads, the lock excludes, and whoever sleeps has somebody to wake
it: a writer, a holder of the lock or a writer that was woken; a reader, a writer. -/
structure Balanced (readersCount writersWaiting : ℤ) (writerActive : Bool) (count : Stage → ℕ) : Prop where
  readers : readersCount = count .reading
  writers : writersWaiting = count .waitingWrite + count .wokenWrite
  holder : count .writing = if writerActive then 1 else 0
  excludes : writerActive = true → readersCount = 0
  writerSleeps : 0 < count .waitingWrite → writerActive = true ∨ 0 < readersCount ∨ 0 < count .wokenWrite
  readerSleeps : 0 < count .waitingRead → writerActive = true ∨ 0 < writersWaiting

/-- The invariant of the lock. -/
def State.Inv (s : State τ) : Prop := Balanced s.readersCount s.writersWaiting s.writerActive s.count

/-- One thread of the counted ones went from one stage to another. -/
def Moved (f g : Stage → ℕ) (a b : Stage) : Prop :=
  ∀ x, g x + (if a = x then 1 else 0) = f x + (if b = x then 1 else 0)

section

variable {r w : ℤ} {active : Bool} {f g k : Stage → ℕ} {a : Stage}

/-- A reader gets in while no writer is there. -/
theorem Balanced.reads (h : Balanced r w active f) (ha : a = .outside ∨ a = .wokenRead)
    (htest : active = false ∧ w = 0) (hmoved : Moved f g a .reading) : Balanced (r + 1) w active g := by
  obtain ⟨hreaders, hwriters, hholder, hexcludes, hwriter, hreader⟩ := h
  rcases ha with rfl | rfl <;> constructor <;> grind [Moved]

/-- A reader goes to sleep while a writer is there. -/
theorem Balanced.readWaits (h : Balanced r w active f) (ha : a = .outside ∨ a = .wokenRead)
    (htest : ¬ (active = false ∧ w = 0)) (hmoved : Moved f g a .waitingRead) : Balanced r w active g := by
  obtain ⟨hreaders, hwriters, hholder, hexcludes, hwriter, hreader⟩ := h
  rcases ha with rfl | rfl <;> constructor <;> grind [Moved]

/-- A writer gets in while nobody holds the lock. -/
theorem Balanced.writes (h : Balanced r w active f) (htest : r = 0 ∧ active = false) :
    (Moved f g .outside .writing → Balanced r w true g) ∧
      (Moved f g .wokenWrite .writing → Balanced r (w - 1) true g) := by
  obtain ⟨hreaders, hwriters, hholder, hexcludes, hwriter, hreader⟩ := h
  constructor <;> intro hmoved <;> constructor <;> grind [Moved]

/-- A writer goes to sleep while somebody holds the lock. -/
theorem Balanced.writeWaits (h : Balanced r w active f) (htest : ¬ (r = 0 ∧ active = false)) :
    (Moved f g .outside .waitingWrite → Balanced r (w + 1) active g) ∧
      (Moved f g .wokenWrite .waitingWrite → Balanced r w active g) := by
  obtain ⟨hreaders, hwriters, hholder, hexcludes, hwriter, hreader⟩ := h
  constructor <;> intro hmoved <;> constructor <;> grind [Moved]

/-- A reader leaves, and if it was the last one a sleeping writer is woken. -/
theorem Balanced.readLeaves (h : Balanced r w active f) (hmoved : Moved f g .reading .outside)
    (hwoken : r - 1 = 0 → Moved g k .waitingWrite .wokenWrite ∨ (g .waitingWrite = 0 ∧ k = g))
    (hkept : r - 1 ≠ 0 → k = g) : Balanced (r - 1) w active k := by
  obtain ⟨hreaders, hwriters, hholder, hexcludes, hwriter, hreader⟩ := h
  by_cases hlast : r - 1 = 0
  · rcases hwoken hlast with hwakes | ⟨hnone, rfl⟩ <;> constructor <;> grind [Moved]
  · obtain rfl := hkept hlast
    constructor <;> grind [Moved]

/-- A writer leaves while others wait, and one that sleeps is woken. -/
theorem Balanced.writeLeaves (h : Balanced r w active f) (hmoved : Moved f g .writing .outside) (hw : 0 < w)
    (hwoken : Moved g k .waitingWrite .wokenWrite ∨ (g .waitingWrite = 0 ∧ k = g)) : Balanced r w false k := by
  obtain ⟨hreaders, hwriters, hholder, hexcludes, hwriter, hreader⟩ := h
  rcases hwoken with hwakes | ⟨hnone, rfl⟩ <;> constructor <;> grind [Moved]

/-- The last writer leaves, and no reader sleeps any more. -/
theorem Balanced.lastWriteLeaves (h : Balanced r w active f) (hmoved : Moved f g .writing .outside)
    (hw : ¬ 0 < w) (hnone : k .waitingRead = 0)
    (hkept : ∀ x, x ≠ .waitingRead → x ≠ .wokenRead → k x = g x) : Balanced r w false k := by
  obtain ⟨hreaders, hwriters, hholder, hexcludes, hwriter, hreader⟩ := h
  constructor <;> grind [Moved]

/-- A thread wakes without a notification. -/
theorem Balanced.wakes (h : Balanced r w active f) :
    (Moved f g .waitingRead .wokenRead → Balanced r w active g) ∧
      (Moved f g .waitingWrite .wokenWrite → Balanced r w active g) := by
  obtain ⟨hreaders, hwriters, hholder, hexcludes, hwriter, hreader⟩ := h
  constructor <;> intro hmoved <;> constructor <;> grind [Moved]

end

/-- Threads that have not come to the lock. -/
theorem State.inv_of_outside {threads : List (Thread τ)} (h : ∀ t ∈ threads, t.stage = .outside) :
    State.Inv { threads := threads } := by
  have hcount : ∀ x, x ≠ .outside → threads.countP (fun t => decide (t.stage = x)) = 0 := by
    intro x hx
    refine List.countP_eq_zero.mpr fun t ht => ?_
    simpa [h t ht] using Ne.symm hx
  constructor <;> simp [State.count, hcount]

/-- Waking one sleeping writer, if there is one. -/
theorem State.notifyWriter_eq {s s' : State τ} {woken : Option ℕ} (h : s.notifyWriter woken = some s') :
    (s'.readersCount = s.readersCount ∧ s'.writersWaiting = s.writersWaiting ∧
      s'.writerActive = s.writerActive) ∧
    (Moved s.count s'.count .waitingWrite .wokenWrite ∨ (s.count .waitingWrite = 0 ∧ s'.count = s.count)) := by
  cases woken with
  | some j =>
    simp only [State.notifyWriter] at h
    split at h
    · rename_i hj
      obtain rfl := Option.some.inj h
      exact ⟨⟨rfl, rfl, rfl⟩, .inl (s.count_move hj .wokenWrite)⟩
    · contradiction
  | none =>
    simp only [State.notifyWriter] at h
    split at h
    · rename_i hnone
      obtain rfl := Option.some.inj h
      exact ⟨⟨rfl, rfl, rfl⟩, .inr ⟨hnone, rfl⟩⟩
    · contradiction

/-- A reader tests its condition. -/
theorem State.Inv.tryRead {s : State τ} (h : s.Inv) {i : ℕ} {a : Stage} (hi : s.stageAt i = some a)
    (ha : a = .outside ∨ a = .wokenRead) : (s.tryRead i).Inv := by
  unfold State.tryRead
  split
  · exact h.reads ha ‹_› (s.count_move hi .reading)
  · exact h.readWaits ha ‹_› (s.count_move hi .waitingRead)

/-- Every section under the mutex keeps the invariant. -/
theorem State.Inv.step {s s' : State τ} {e : Event} (h : s.Inv) (hstep : s.step e = some s') : s'.Inv := by
  cases e with
  | readLock i =>
    simp only [State.step] at hstep
    split at hstep
    · rename_i hi
      obtain rfl := Option.some.inj hstep
      exact h.tryRead hi (.inl rfl)
    · contradiction
  | writeLock i =>
    simp only [State.step] at hstep
    split at hstep
    · rename_i hi
      obtain rfl := Option.some.inj hstep
      unfold State.tryWrite
      split
      · rename_i htest
        have hwrites := (h.writes htest).1 (s.count_move hi .writing)
        rw [← Int.add_sub_cancel s.writersWaiting 1] at hwrites
        exact hwrites
      · exact (h.writeWaits ‹_›).1 (s.count_move hi .waitingWrite)
    · contradiction
  | recheck i =>
    simp only [State.step] at hstep
    split at hstep
    · rename_i hi
      obtain rfl := Option.some.inj hstep
      exact h.tryRead hi (.inr rfl)
    · rename_i hi
      obtain rfl := Option.some.inj hstep
      unfold State.tryWrite
      split
      · exact (h.writes ‹_›).2 (s.count_move hi .writing)
      · exact (h.writeWaits ‹_›).2 (s.count_move hi .waitingWrite)
    · contradiction
  | readUnlock i woken =>
    simp only [State.step] at hstep
    split at hstep
    · rename_i hi
      have hmoved := s.count_move hi .outside
      split at hstep
      · rename_i hlast
        obtain ⟨⟨hr, hw, hactive⟩, hwoken⟩ := State.notifyWriter_eq hstep
        rw [State.Inv, hr, hw, hactive]
        exact h.readLeaves hmoved (fun _ => hwoken) fun hmore => absurd hlast hmore
      · rename_i hmore
        obtain rfl := Option.some.inj hstep
        exact h.readLeaves hmoved (fun hlast => absurd hlast hmore) fun _ => rfl
    · contradiction
  | writeUnlock i woken =>
    simp only [State.step] at hstep
    split at hstep
    · rename_i hi
      have hmoved := s.count_move hi .outside
      split at hstep
      · rename_i hmore
        obtain ⟨⟨hr, hw, hactive⟩, hwoken⟩ := State.notifyWriter_eq hstep
        rw [State.Inv, hr, hw, hactive]
        exact h.writeLeaves hmoved hmore hwoken
      · rename_i hlast
        obtain rfl := Option.some.inj hstep
        refine h.lastWriteLeaves hmoved hlast ?_ fun x hread hwoken => ?_
        · rw [State.count_notifyReaders, if_pos rfl]
        · rw [State.count_notifyReaders, if_neg hread, if_neg hwoken]
          rfl
    · contradiction
  | spurious i =>
    simp only [State.step] at hstep
    split at hstep
    · rename_i hi
      obtain rfl := Option.some.inj hstep
      exact h.wakes.1 (s.count_move hi .wokenRead)
    · rename_i hi
      obtain rfl := Option.some.inj hstep
      exact h.wakes.2 (s.count_move hi .wokenWrite)
    · contradiction

end RwLock
