import BankReplica.Library.RwLockThreads

/-!
# Seats at a reader-writer lock

For a thread inside its section it matters whether it holds the lock, not where it slept before.
A step at the lock changes the seat of one thread: it waits, gets in while no writer is there, or
leaves. A reader inside keeps writers out, a writer keeps everybody out.
-/

namespace RwLock

variable {τ : Type*}

/-- What a thread wants the lock for, whether it holds it, and its tag. -/
def State.seat (s : State τ) (j : ℕ) : Option (Kind × Bool × τ) :=
  s.threads[j]?.map fun t => (t.stage.kind, t.stage.holds, t.tag)

theorem State.seat_stage {s : State τ} {i : ℕ} {a : Stage} (h : s.stageAt i = some a) :
    ∃ tag, s.seat i = some (a.kind, a.holds, tag) := by
  obtain ⟨t, hget, rfl⟩ := Option.map_eq_some_iff.mp h
  exact ⟨t.tag, by simp [State.seat, hget]⟩

@[simp] theorem State.seat_move (s : State τ) (i : ℕ) (b : Stage) (j : ℕ) :
    (s.move i b).seat j = if j = i then (s.seat j).map fun v => (b.kind, b.holds, v.2.2) else s.seat j := by
  by_cases hj : j = i
  · simp [State.seat, State.move, hj, Function.comp_def]
  · simp [State.seat, State.move, hj, Ne.symm hj]

@[simp] theorem State.seat_retag (s : State τ) (i : ℕ) (tag : τ) (j : ℕ) :
    (s.retag i tag).seat j = if j = i then (s.seat j).map fun v => (v.1, v.2.1, tag) else s.seat j := by
  by_cases hj : j = i
  · simp [State.seat, State.retag, hj, Function.comp_def]
  · simp [State.seat, State.retag, hj, Ne.symm hj]

/-- A thread that goes from one stage to another of the same kind, without the lock at both, keeps its seat. -/
theorem State.seat_move_same {s : State τ} {i : ℕ} {a b : Stage} (hi : s.stageAt i = some a)
    (hkind : b.kind = a.kind) (hholds : b.holds = a.holds) : (s.move i b).seat = s.seat := by
  funext j
  rw [State.seat_move]
  split
  · rename_i hj
    obtain ⟨tag, hseat⟩ := State.seat_stage hi
    rw [hj, hseat, Option.map_some, hkind, hholds]
  · rfl

/-- Waking a writer leaves every thread its seat. -/
theorem State.seat_notifyWriter {s s' : State τ} {woken : Option ℕ} (h : s.notifyWriter woken = some s') :
    s'.seat = s.seat ∧ s'.writerActive = s.writerActive := by
  cases woken with
  | some i =>
    simp only [State.notifyWriter] at h
    split at h
    · rename_i hi
      obtain rfl := Option.some.inj h
      exact ⟨State.seat_move_same hi rfl rfl, rfl⟩
    · contradiction
  | none =>
    simp only [State.notifyWriter] at h
    split at h
    · obtain rfl := Option.some.inj h
      exact ⟨rfl, rfl⟩
    · contradiction

/-- Waking the readers leaves every thread its seat. -/
theorem State.seat_notifyReaders (s : State τ) : s.notifyReaders.seat = s.seat := by
  funext j
  simp only [State.seat, State.notifyReaders, List.getElem?_map, Option.map_map]
  refine congrArg (fun f => s.threads[j]?.map f) (funext fun t => ?_)
  simp only [Function.comp_apply, Thread.wakeReader]
  split
  · rename_i hstage
    rw [hstage]
    rfl
  · rfl

/-- The thread leaves the lock. -/
def Event.leaves : Event → Bool
  | .readUnlock _ _ | .writeUnlock _ _ => true
  | _ => false

/-- What a step at the lock leaves of the seats: the others keep theirs, and the thread that takes
it waits, gets in while no writer is there, or leaves. -/
inductive State.Shift (s s' : State τ) (e : Event) : Prop
  | waits {k : Kind} {tag : τ} (hothers : ∀ j, j ≠ e.actor → s'.seat j = s.seat j)
    (hseat : s.seat e.actor = some (k, false, tag)) (hwaits : s'.seat e.actor = some (e.wants.getD k, false, tag))
    (hactive : s'.writerActive = s.writerActive) (hstays : e.leaves = false)
  | enters {k : Kind} {tag : τ} (hothers : ∀ j, j ≠ e.actor → s'.seat j = s.seat j)
    (hseat : s.seat e.actor = some (k, false, tag)) (henters : s'.seat e.actor = some (e.wants.getD k, true, tag))
    (hfree : s.writerActive = false) (hstays : e.leaves = false)
  | leaves {k : Kind} {tag : τ} (hothers : ∀ j, j ≠ e.actor → s'.seat j = s.seat j)
    (hseat : s.seat e.actor = some (k, true, tag)) (hleaves : s'.seat e.actor = some (.none, false, tag))
    (hactive : k = .write ∧ s'.writerActive = false ∨ k = .read ∧ s'.writerActive = s.writerActive)
    (hout : e.leaves = true)

/-- A reader's test moves it alone. -/
theorem State.Shift.tryRead {s : State τ} {e : Event} {k : Kind} {tag : τ}
    (hseat : s.seat e.actor = some (k, false, tag)) (hwants : e.wants.getD k = .read) (hstays : e.leaves = false) :
    State.Shift s (s.tryRead e.actor) e := by
  unfold State.tryRead
  split
  · rename_i htest
    refine .enters (fun j hj => ?_) hseat ?_ htest.1 hstays
    · exact (State.seat_move s e.actor .reading j).trans (if_neg hj)
    · exact (State.seat_move s e.actor .reading e.actor).trans (by rw [if_pos rfl, hseat, hwants]; rfl)
  · refine .waits (fun j hj => ?_) hseat ?_ rfl hstays
    · exact (State.seat_move s e.actor .waitingRead j).trans (if_neg hj)
    · exact (State.seat_move s e.actor .waitingRead e.actor).trans (by rw [if_pos rfl, hseat, hwants]; rfl)

/-- A writer's test moves it alone. -/
theorem State.Shift.tryWrite {s t : State τ} {e : Event} {k : Kind} {tag : τ} (ht : t.seat = s.seat)
    (hactive : t.writerActive = s.writerActive) (hseat : s.seat e.actor = some (k, false, tag))
    (hwants : e.wants.getD k = .write) (hstays : e.leaves = false) : State.Shift s (t.tryWrite e.actor) e := by
  unfold State.tryWrite
  split
  · rename_i htest
    refine .enters (fun j hj => ?_) hseat ?_ (hactive ▸ htest.2) hstays
    · exact ((State.seat_move t e.actor .writing j).trans (if_neg hj)).trans (congrFun ht j)
    · exact (State.seat_move t e.actor .writing e.actor).trans (by rw [if_pos rfl, ht, hseat, hwants]; rfl)
  · refine .waits (fun j hj => ?_) hseat ?_ hactive hstays
    · exact ((State.seat_move t e.actor .waitingWrite j).trans (if_neg hj)).trans (congrFun ht j)
    · exact (State.seat_move t e.actor .waitingWrite e.actor).trans (by rw [if_pos rfl, ht, hseat, hwants]; rfl)

/-- A thread leaves the lock and wakes others. -/
theorem State.Shift.left {s t s' : State τ} {e : Event} {a : Stage} (hi : s.stageAt e.actor = some a)
    (hholds : a.holds = true) (ht : t.seat = (s.move e.actor .outside).seat) (hs' : s'.seat = t.seat)
    (hactive : a.kind = .write ∧ s'.writerActive = false ∨ a.kind = .read ∧ s'.writerActive = s.writerActive)
    (hout : e.leaves = true) : State.Shift s s' e := by
  obtain ⟨tag, hseat⟩ := State.seat_stage hi
  rw [hholds] at hseat
  refine .leaves (fun j hj => ?_) hseat ?_ hactive hout
  · rw [hs', ht, State.seat_move, if_neg hj]
  · rw [hs', ht, State.seat_move, if_pos rfl, hseat]
    rfl

/-- What a step at the lock leaves. -/
theorem State.shift_of_step {s s' : State τ} {e : Event} (h : s.step e = some s') : State.Shift s s' e := by
  cases e with
  | readLock i =>
    simp only [State.step] at h
    split at h
    · rename_i hi
      obtain rfl := Option.some.inj h
      obtain ⟨tag, hseat⟩ := State.seat_stage hi
      exact .tryRead (e := .readLock i) hseat rfl rfl
    · contradiction
  | writeLock i =>
    simp only [State.step] at h
    split at h
    · rename_i hi
      obtain rfl := Option.some.inj h
      obtain ⟨tag, hseat⟩ := State.seat_stage hi
      exact .tryWrite (e := .writeLock i) rfl rfl hseat rfl rfl
    · contradiction
  | recheck i =>
    simp only [State.step] at h
    split at h
    · rename_i hi
      obtain rfl := Option.some.inj h
      obtain ⟨tag, hseat⟩ := State.seat_stage hi
      exact .tryRead (e := .recheck i) hseat rfl rfl
    · rename_i hi
      obtain rfl := Option.some.inj h
      obtain ⟨tag, hseat⟩ := State.seat_stage hi
      exact .tryWrite (e := .recheck i) rfl rfl hseat rfl rfl
    · contradiction
  | readUnlock i woken =>
    simp only [State.step] at h
    split at h
    · rename_i hi
      split at h
      · obtain ⟨hseat, hactive⟩ := State.seat_notifyWriter h
        exact .left (e := .readUnlock i woken) hi rfl rfl hseat (.inr ⟨rfl, hactive⟩) rfl
      · obtain rfl := Option.some.inj h
        exact .left (e := .readUnlock i woken) hi rfl rfl rfl (.inr ⟨rfl, rfl⟩) rfl
    · contradiction
  | writeUnlock i woken =>
    simp only [State.step] at h
    split at h
    · rename_i hi
      split at h
      · obtain ⟨hseat, hactive⟩ := State.seat_notifyWriter h
        exact .left (e := .writeUnlock i woken) hi rfl rfl hseat (.inl ⟨rfl, hactive⟩) rfl
      · obtain rfl := Option.some.inj h
        exact .left (e := .writeUnlock i woken) hi rfl rfl (State.seat_notifyReaders _) (.inl ⟨rfl, rfl⟩) rfl
    · contradiction
  | spurious i =>
    simp only [State.step] at h
    split at h
    · rename_i hi
      obtain rfl := Option.some.inj h
      obtain ⟨tag, hseat⟩ := State.seat_stage hi
      have hsame := State.seat_move_same (b := .wokenRead) hi rfl rfl
      exact .waits (fun j _ => congrFun hsame j) hseat ((congrFun hsame i).trans hseat) rfl rfl
    · rename_i hi
      obtain rfl := Option.some.inj h
      obtain ⟨tag, hseat⟩ := State.seat_stage hi
      have hsame := State.seat_move_same (b := .wokenWrite) hi rfl rfl
      exact .waits (fun j _ => congrFun hsame j) hseat ((congrFun hsame i).trans hseat) rfl rfl
    · contradiction

/-- A thread that holds the lock is at a stage that is counted. -/
theorem State.stage_of_holds {s : State τ} {i : ℕ} {k : Kind} {tag : τ} (h : s.seat i = some (k, true, tag)) :
    k = .read ∧ s.stageAt i = some .reading ∨ k = .write ∧ s.stageAt i = some .writing := by
  obtain ⟨t, hget, ht⟩ := Option.map_eq_some_iff.mp h
  obtain ⟨hkind, hrest⟩ := Prod.mk.inj ht
  obtain ⟨hholds, -⟩ := Prod.mk.inj hrest
  have hstage : s.stageAt i = some t.stage := by rw [State.stageAt, hget]; rfl
  cases hcase : t.stage with
  | reading => exact .inl ⟨by rw [← hkind, hcase]; rfl, hcase ▸ hstage⟩
  | writing => exact .inr ⟨by rw [← hkind, hcase]; rfl, hcase ▸ hstage⟩
  | _ =>
    rw [hcase] at hholds
    contradiction

/-- While a reader is in, no writer is. -/
theorem State.Inv.reading {s : State τ} (h : s.Inv) {i : ℕ} {tag : τ} (hi : s.seat i = some (.read, true, tag)) :
    s.writerActive = false := by
  cases State.stage_of_holds hi with
  | inl hstage =>
    have hpos : 0 < s.count .reading := State.count_pos.mpr ⟨i, hstage.2⟩
    have hreaders := h.readers
    refine Bool.eq_false_iff.mpr fun hactive => ?_
    have hnone := h.excludes hactive
    omega
  | inr hstage => exact absurd hstage.1 (by decide)

/-- While a writer is in, nobody else is. -/
theorem State.Inv.alone {s : State τ} (h : s.Inv) {i j : ℕ} {k : Kind} {tag tag' : τ}
    (hi : s.seat i = some (.write, true, tag)) (hj : s.seat j = some (k, true, tag')) : s.writerActive = true ∧ j = i := by
  have hwriting : s.stageAt i = some .writing := by
    cases State.stage_of_holds hi with
    | inl hstage => exact absurd hstage.1 (by decide)
    | inr hstage => exact hstage.2
  have hpos : 0 < s.count .writing := State.count_pos.mpr ⟨i, hwriting⟩
  have hactive : s.writerActive = true := by
    have hholder := h.holder
    by_contra hfree
    rw [if_neg hfree] at hholder
    omega
  refine ⟨hactive, ?_⟩
  cases State.stage_of_holds hj with
  | inl hstage =>
    obtain ⟨rfl, -⟩ := hstage
    rw [h.reading hj] at hactive
    contradiction
  | inr hstage =>
    by_contra hne
    -- with this writer gone there is still the other one, so there were two
    have hmoved := State.count_move hwriting .outside .writing
    have hother : (s.move i .outside).stageAt j = some .writing := by
      rw [← hstage.2]
      simp [State.stageAt, State.move, Ne.symm hne]
    have hstill : 0 < (s.move i .outside).count .writing := State.count_pos.mpr ⟨j, hother⟩
    have hholder := h.holder
    rw [if_pos hactive] at hholder
    simp at hmoved
    omega

end RwLock
