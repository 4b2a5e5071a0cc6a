import BankReplica.Library.RwLock

/-!
# Threads at a reader-writer lock

What a system of threads needs to know of the lock they share: which thread wants it and
for what after each section, that a tag the system keeps on a thread stays on it, and that
while somebody sleeps at the lock somebody else holds it, and can leave, or was woken.
-/

namespace RwLock

variable {τ : Type*}

/-! ## What a step leaves to its caller -/

/-- What a thread wants the lock for, and its tag. -/
def State.view (s : State τ) (j : ℕ) : Option (Kind × τ) := s.threads[j]?.map fun t => (t.stage.kind, t.tag)

/-- A thread gets another tag. -/
def State.retag (s : State τ) (i : ℕ) (tag : τ) : State τ :=
  { s with threads := s.threads.modify i fun t => { t with tag := tag } }

/-- A new thread, outside the lock. -/
def State.spawn (s : State τ) (tag : τ) : State τ := { s with threads := s.threads ++ [⟨.outside, tag⟩] }

/-- The thread that takes a step. -/
def Event.actor : Event → ℕ
  | .readLock i | .writeLock i | .recheck i | .readUnlock i _ | .writeUnlock i _ | .spurious i => i

/-- What the thread wants the lock for after the step. -/
def Event.wants : Event → Option Kind
  | .readLock _ => some .read
  | .writeLock _ => some .write
  | .readUnlock _ _ | .writeUnlock _ _ => some .none
  | .recheck _ | .spurious _ => none

theorem State.view_stage {s : State τ} {i : ℕ} {a : Stage} (h : s.stageAt i = some a) :
    ∃ tag, s.view i = some (a.kind, tag) := by
  obtain ⟨t, hget, rfl⟩ := Option.map_eq_some_iff.mp h
  exact ⟨t.tag, by simp [State.view, hget]⟩

@[simp] theorem State.view_move (s : State τ) (i : ℕ) (b : Stage) (j : ℕ) :
    (s.move i b).view j = if j = i then (s.view j).map fun v => (b.kind, v.2) else s.view j := by
  by_cases hj : j = i
  · simp [State.view, State.move, hj, Function.comp_def]
  · simp [State.view, State.move, hj, Ne.symm hj]

@[simp] theorem State.view_retag (s : State τ) (i : ℕ) (tag : τ) (j : ℕ) :
    (s.retag i tag).view j = if j = i then (s.view j).map fun v => (v.1, tag) else s.view j := by
  by_cases hj : j = i
  · simp [State.view, State.retag, hj, Function.comp_def]
  · simp [State.view, State.retag, hj, Ne.symm hj]

/-- Another tag changes no count. -/
theorem State.Inv.retag {s : State τ} (h : s.Inv) (i : ℕ) (tag : τ) : (s.retag i tag).Inv := by
  have hcount : (s.retag i tag).count = s.count := by
    funext x
    cases hget : s.threads[i]? with
    | none =>
      have hlength := List.getElem?_eq_none_iff.mp hget
      simp only [State.count, State.retag, List.modify_eq_self hlength]
    | some t =>
      have hsame := countP_modify (fun t : Thread τ => decide (t.stage = x)) (fun t => { t with tag := tag }) hget
      exact Nat.add_right_cancel hsame
  rw [State.Inv, hcount]
  exact h

theorem State.view_spawn (s : State τ) (tag : τ) (j : ℕ) :
    (s.spawn tag).view j = if j = s.threads.length then some (.none, tag) else s.view j := by
  simp only [State.view, State.spawn, List.getElem?_append]
  rcases lt_trichotomy j s.threads.length with hlt | heq | hgt
  · rw [if_pos hlt, if_neg (Nat.ne_of_lt hlt)]
  · simp [heq, Stage.kind]
  · rw [if_neg (by omega), if_neg (by omega), List.getElem?_eq_none (by simp; omega),
      List.getElem?_eq_none (by omega)]

/-- A new thread is at no stage that counts. -/
theorem State.Inv.spawn {s : State τ} (h : s.Inv) (tag : τ) : (s.spawn tag).Inv := by
  obtain ⟨hreaders, hwriters, hholder, hexcludes, hwriter, hreader⟩ := h
  have hcount : ∀ x, x ≠ .outside → (s.spawn tag).count x = s.count x := by
    intro x hx
    simp [State.count, State.spawn, Ne.symm hx]
  constructor <;> simpa [hcount] using by assumption

/-- Waking a writer leaves every thread what it wanted. -/
theorem State.view_notifyWriter {s s' : State τ} {woken : Option ℕ} (h : s.notifyWriter woken = some s') :
    s'.view = s.view := by
  cases woken with
  | some i =>
    simp only [State.notifyWriter] at h
    split at h
    · rename_i hi
      obtain rfl := Option.some.inj h
      obtain ⟨tag, hview⟩ := State.view_stage hi
      funext j
      rw [State.view_move]
      split
      · rename_i hj
        rw [hj, hview]
        rfl
      · rfl
    · contradiction
  | none =>
    simp only [State.notifyWriter] at h
    split at h
    · obtain rfl := Option.some.inj h
      rfl
    · contradiction

/-- Waking the readers leaves every thread what it wanted. -/
theorem State.view_notifyReaders (s : State τ) : s.notifyReaders.view = s.view := by
  funext j
  simp only [State.view, State.notifyReaders, List.getElem?_map, Option.map_map]
  refine congrArg (fun f => s.threads[j]?.map f) (funext fun t => ?_)
  simp only [Function.comp_apply, Thread.wakeReader]
  split
  · rename_i hstage
    rw [hstage]
    rfl
  · rfl

/-- A step changes what its own thread wants, and no tag. -/
theorem State.view_step {s s' : State τ} {e : Event} (h : s.step e = some s') (j : ℕ) :
    s'.view j = if j = e.actor then (s.view j).map fun v => (e.wants.getD v.1, v.2) else s.view j := by
  have htryRead : ∀ i, (s.tryRead i).view j = if j = i then (s.view j).map fun v => (.read, v.2) else s.view j := by
    intro i
    unfold State.tryRead
    split <;> exact State.view_move _ _ _ _
  have htryWrite : ∀ (t : State τ) i, t.view = s.view →
      (t.tryWrite i).view j = if j = i then (s.view j).map fun v => (.write, v.2) else s.view j := by
    intro t i ht
    rw [← ht]
    unfold State.tryWrite
    split <;> exact State.view_move _ _ _ _
  have hkept : ∀ {i : ℕ} {a : Stage} (k : Kind), s.stageAt i = some a → a.kind = k →
      (if j = i then (s.view j).map fun v => (k, v.2) else s.view j) =
        if j = i then (s.view j).map fun v => (v.1, v.2) else s.view j := by
    rintro i a k hi rfl
    obtain ⟨tag, hview⟩ := State.view_stage hi
    split
    · rename_i hj
      rw [hj, hview]
      rfl
    · rfl
  cases e with
  | readLock i =>
    simp only [State.step] at h
    split at h
    · obtain rfl := Option.some.inj h
      exact htryRead i
    · contradiction
  | writeLock i =>
    simp only [State.step] at h
    split at h
    · obtain rfl := Option.some.inj h
      exact htryWrite _ i rfl
    · contradiction
  | recheck i =>
    simp only [State.step] at h
    split at h
    · rename_i hi
      obtain rfl := Option.some.inj h
      exact (htryRead i).trans (hkept .read hi rfl)
    · rename_i hi
      obtain rfl := Option.some.inj h
      exact (htryWrite s i rfl).trans (hkept .write hi rfl)
    · contradiction
  | readUnlock i woken =>
    simp only [State.step] at h
    split at h
    · split at h
      · rw [State.view_notifyWriter h]
        exact State.view_move _ _ _ _
      · obtain rfl := Option.some.inj h
        exact State.view_move _ _ _ _
    · contradiction
  | writeUnlock i woken =>
    simp only [State.step] at h
    split at h
    · split at h
      · rw [State.view_notifyWriter h]
        exact State.view_move _ _ _ _
      · obtain rfl := Option.some.inj h
        rw [State.view_notifyReaders]
        exact State.view_move _ _ _ _
    · contradiction
  | spurious i =>
    simp only [State.step] at h
    split at h
    · rename_i hi
      obtain rfl := Option.some.inj h
      exact (State.view_move _ _ _ _).trans (hkept .read hi rfl)
    · rename_i hi
      obtain rfl := Option.some.inj h
      exact (State.view_move _ _ _ _).trans (hkept .write hi rfl)
    · contradiction

/-! ## Progress -/

/-- The thread sleeps on one of the two condition variables. -/
def Stage.asleep : Stage → Bool
  | .waitingRead | .waitingWrite => true
  | _ => false

/-- The thread was woken and is to test its condition again. -/
def Stage.woken : Stage → Bool
  | .wokenRead | .wokenWrite => true
  | _ => false

/-- The thread holds the lock. -/
def Stage.holds : Stage → Bool
  | .reading | .writing => true
  | _ => false

/-- Somebody to be woken by `notify_one`, or nobody. -/
theorem State.exists_notifyWriter (s : State τ) : ∃ woken, (s.notifyWriter woken).isSome = true := by
  by_cases hnone : s.count .waitingWrite = 0
  · exact ⟨none, by simp [State.notifyWriter, hnone]⟩
  · obtain ⟨j, hj⟩ := State.count_pos.mp (Nat.pos_of_ne_zero hnone)
    exact ⟨some j, by simp [State.notifyWriter, hj]⟩

/-- A reader can always leave. -/
theorem State.exists_readUnlock {s : State τ} {i : ℕ} (h : s.stageAt i = some .reading) :
    ∃ woken, (s.step (.readUnlock i woken)).isSome = true := by
  obtain ⟨woken, hwoken⟩ :=
    State.exists_notifyWriter { s.move i .outside with readersCount := s.readersCount - 1 }
  refine ⟨woken, ?_⟩
  simp only [State.step, h, if_true]
  split
  · exact hwoken
  · rfl

/-- A writer can always leave. -/
theorem State.exists_writeUnlock {s : State τ} {i : ℕ} (h : s.stageAt i = some .writing) :
    ∃ woken, (s.step (.writeUnlock i woken)).isSome = true := by
  obtain ⟨woken, hwoken⟩ := State.exists_notifyWriter { s.move i .outside with writerActive := false }
  refine ⟨woken, ?_⟩
  simp only [State.step, h, if_true]
  split
  · exact hwoken
  · rfl

/-- A woken thread can always test its condition. -/
theorem State.recheck_isSome {s : State τ} {i : ℕ} {a : Stage} (h : s.stageAt i = some a) (ha : a.woken = true) :
    (s.step (.recheck i)).isSome = true := by
  cases a with
  | wokenRead | wokenWrite => simp [State.step, h]
  | _ => contradiction

/-- While somebody sleeps, somebody holds the lock or was woken. -/
theorem State.Inv.somebody {s : State τ} (h : s.Inv) {i : ℕ} {a : Stage} (hi : s.stageAt i = some a)
    (ha : a.asleep = true) :
    (∃ j b, s.stageAt j = some b ∧ b.holds = true) ∨ ∃ j b, s.stageAt j = some b ∧ b.woken = true := by
  obtain ⟨hreaders, hwriters, hholder, hexcludes, hwriter, hreader⟩ := h
  have hwriting : s.writerActive = true → ∃ j b, s.stageAt j = some b ∧ b.holds = true := by
    intro hactive
    rw [hactive, if_pos rfl] at hholder
    obtain ⟨j, hj⟩ := State.count_pos.mp (by omega : 0 < s.count .writing)
    exact ⟨j, .writing, hj, rfl⟩
  have hwokenWrite : 0 < s.count .wokenWrite → ∃ j b, s.stageAt j = some b ∧ b.woken = true := by
    intro hpos
    obtain ⟨j, hj⟩ := State.count_pos.mp hpos
    exact ⟨j, .wokenWrite, hj, rfl⟩
  have hsleeping : 0 < s.count .waitingWrite →
      (∃ j b, s.stageAt j = some b ∧ b.holds = true) ∨ ∃ j b, s.stageAt j = some b ∧ b.woken = true := by
    intro hpos
    rcases hwriter hpos with hactive | hreading | hwoken
    · exact .inl (hwriting hactive)
    · obtain ⟨j, hj⟩ := State.count_pos.mp (by omega : 0 < s.count .reading)
      exact .inl ⟨j, .reading, hj, rfl⟩
    · exact .inr (hwokenWrite hwoken)
  have hpos : 0 < s.count a := State.count_pos.mpr ⟨i, hi⟩
  cases a with
  | waitingWrite => exact hsleeping hpos
  | waitingRead =>
    cases hreader hpos with
    | inl hactive => exact .inl (hwriting hactive)
    | inr hwaiting =>
      by_cases hnone : s.count .waitingWrite = 0
      · exact .inr (hwokenWrite (by omega))
      · exact hsleeping (Nat.pos_of_ne_zero hnone)
  | _ => contradiction

end RwLock
