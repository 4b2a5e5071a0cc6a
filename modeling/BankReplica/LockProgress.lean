import BankReplica.Locks

/-!
# Nobody is stuck at the locks of a server

Nobody waits for the mutex of the interface inside the reader-writer lock, so whoever holds
the lock can leave it, whoever holds the mutex can go on, and a thread that waits for
either has somebody ahead of it that can.
-/

namespace BankReplica

open Runs

/-- The thread sleeps in `reader_lock` or `writer_lock`. -/
def Locks.Sleeps (s : Locks) (i : ℕ) : Prop := ∃ a, s.lock.stageAt i = some a ∧ a.asleep = true

/-- The thread was woken there and has not gone on yet. -/
def Locks.Woken (s : Locks) (i : ℕ) : Prop := ∃ a, s.lock.stageAt i = some a ∧ a.woken = true

/-- The thread holds the reader-writer lock. -/
def Locks.Holds (s : Locks) (i : ℕ) : Prop := ∃ a, s.lock.stageAt i = some a ∧ a.holds = true

/-- The thread can leave the reader-writer lock. -/
def Locks.CanRelease (s : Locks) (i : ℕ) : Prop :=
  ∃ woken, (s.step (.writerUnlock i woken false)).isSome = true ∨ (s.step (.readerUnlock i woken)).isSome = true

/-- The thread that takes a step by itself; nobody counts on spurious wakeups and new threads. -/
def LockEvent.own : LockEvent → Option ℕ
  | .writerLock i | .readerLock i | .recheck i | .writerUnlock i _ _ | .readerUnlock i _ | .takeMtx i
  | .setChanged i | .signal i _ | .testChanged i | .clear i => some i
  | .spawn | .spurious _ | .spuriousCv _ => none

/-- The thread is not blocked. -/
def Locks.CanGoOn (s : Locks) (i : ℕ) : Prop := ∃ e : LockEvent, e.own = some i ∧ (s.step e).isSome = true

/-- The thread is inside a lock, unlock, notify or print section; asleep in `cv.wait` it is so only
if `data_changed` is set. -/
def Locks.Inside (s : Locks) (i : ℕ) : Prop :=
  ∃ p, s.phaseAt i = some p ∧ p ≠ .idle ∧ (p = .asleep → s.dataChanged = true)

section

variable {s : Locks} {i : ℕ}

theorem Locks.CanRelease.canGoOn (h : s.CanRelease i) : s.CanGoOn i := by
  obtain ⟨woken, hwriter | hreader⟩ := h
  · exact ⟨_, rfl, hwriter⟩
  · exact ⟨_, rfl, hreader⟩

/-- The phase of a thread at the lock. -/
theorem Locks.Inv.phase_of_stage (h : s.Inv) {a : RwLock.Stage} (ha : s.lock.stageAt i = some a) :
    ∃ p, s.phaseAt i = some p ∧ p.wants = a.kind := by
  obtain ⟨p, hview⟩ := RwLock.State.view_stage ha
  refine ⟨p, ?_, (h.wants i _ p hview).symm⟩
  rw [Locks.phaseAt_eq, hview]
  rfl

/-- The stage of a thread at a phase. -/
theorem Locks.Inv.stage_of_phase (h : s.Inv) {p : Phase} (hp : s.phaseAt i = some p) :
    ∃ a, s.lock.stageAt i = some a ∧ a.kind = p.wants := by
  have hview := h.view_of_phaseAt hp
  obtain ⟨t, hget, ht⟩ := Option.map_eq_some_iff.mp hview
  exact ⟨t.stage, by simp [RwLock.State.stageAt, hget], congrArg Prod.fst ht⟩

/-- A thread that wants the lock is inside a section. -/
theorem Locks.Inv.inside_of_stage (h : s.Inv) {a : RwLock.Stage} (ha : s.lock.stageAt i = some a)
    (hkind : a.kind ≠ .none) : s.Inside i := by
  obtain ⟨p, hp, hwants⟩ := h.phase_of_stage ha
  refine ⟨p, hp, ?_, ?_⟩
  · rintro rfl
    exact hkind hwants.symm
  · rintro rfl
    exact absurd hwants.symm hkind

/-- Whoever holds the reader-writer lock can leave it: it waits for no other lock inside. -/
theorem Locks.Inv.releases (h : s.Inv) (hholds : s.Holds i) : s.CanRelease i := by
  obtain ⟨a, ha, hholds⟩ := hholds
  obtain ⟨p, hp, hwants⟩ := h.phase_of_stage ha
  cases a with
  | reading =>
    obtain ⟨woken, hwoken⟩ := RwLock.State.exists_readUnlock ha
    refine ⟨woken, .inr ?_⟩
    cases p with
    | readSection | printing => simpa [Locks.step, hp, Locks.section] using hwoken
    | _ => contradiction
  | writing =>
    obtain ⟨woken, hwoken⟩ := RwLock.State.exists_writeUnlock ha
    refine ⟨woken, .inl ?_⟩
    cases p with
    | writeSection => simpa [Locks.step, hp, Locks.section] using hwoken
    | _ => contradiction
  | _ => contradiction

/-- Whoever was woken at the reader-writer lock can test its condition. -/
theorem Locks.Woken.canGoOn (h : s.Woken i) : s.CanGoOn i := by
  obtain ⟨a, ha, hwoken⟩ := h
  refine ⟨.recheck i, rfl, ?_⟩
  simpa [Locks.step] using RwLock.State.recheck_isSome ha hwoken

/-- While a thread sleeps at the lock, one that can leave holds it or one was woken. -/
theorem Locks.Inv.somebody (h : s.Inv) (hsleeps : s.Sleeps i) :
    (∃ j, s.Holds j ∧ s.CanRelease j) ∨ ∃ j, s.Woken j := by
  obtain ⟨a, ha, hasleep⟩ := hsleeps
  rcases h.lock.somebody ha hasleep with ⟨j, b, hj, hholds⟩ | ⟨j, b, hj, hwoken⟩
  · exact .inl ⟨j, ⟨b, hj, hholds⟩, h.releases ⟨b, hj, hholds⟩⟩
  · exact .inr ⟨j, b, hj, hwoken⟩

/-- A thread in a section of the lock that does not sleep there can go on. -/
theorem Locks.Inv.section_canGoOn (h : s.Inv) {p : Phase} (hp : s.phaseAt i = some p) (hwants : p.wants ≠ .none)
    (hawake : ¬ s.Sleeps i) : s.CanGoOn i := by
  obtain ⟨a, ha, hkind⟩ := h.stage_of_phase hp
  cases a with
  | outside => exact absurd hkind.symm hwants
  | waitingRead | waitingWrite => exact absurd ⟨_, ha, rfl⟩ hawake
  | wokenRead | wokenWrite => exact Locks.Woken.canGoOn ⟨_, ha, rfl⟩
  | reading | writing => exact (h.releases ⟨_, ha, rfl⟩).canGoOn

/-- With nobody asleep at the lock, whoever holds the mutex of the interface can go on. -/
theorem Locks.Inv.owner_canGoOn (h : s.Inv) {p : Phase} (hp : s.phaseAt i = some p) (hholds : p.holdsMtx = true)
    (hawake : ¬ s.Sleeps i) : s.CanGoOn i := by
  cases p with
  | notifyHolding => exact ⟨.setChanged i, rfl, by simp [Locks.step, hp]⟩
  | testing =>
    refine ⟨.testChanged i, rfl, ?_⟩
    simp only [Locks.step, hp, if_true]
    split <;> rfl
  | printEntry =>
    obtain ⟨a, ha, hkind⟩ := h.stage_of_phase hp
    have hout : a = .outside := by
      cases a with
      | outside => rfl
      | _ => contradiction
    exact ⟨.readerLock i, rfl, by simp [Locks.step, hp, Locks.section, RwLock.State.step, ha, hout]⟩
  | printing => exact h.section_canGoOn hp (by decide) hawake
  | clearing => exact ⟨.clear i, rfl, by simp [Locks.step, hp]⟩
  | _ => contradiction

/-- A thread about to signal can do so. -/
theorem Locks.signal_canGoOn (hp : s.phaseAt i = some .signalling) : s.CanGoOn i := by
  by_cases hasleep : ∃ j, s.phaseAt j = some .asleep
  · obtain ⟨j, hj⟩ := hasleep
    exact ⟨.signal i (some j), rfl, by simp [Locks.step, hp, hj]⟩
  · refine ⟨.signal i none, rfl, ?_⟩
    have hawake : ∀ t ∈ s.lock.threads, t.tag ≠ .asleep := by
      intro t ht htag
      obtain ⟨j, hj⟩ := List.mem_iff_getElem?.mp ht
      exact hasleep ⟨j, by simp [Locks.phaseAt, hj, htag]⟩
    simp only [Locks.step, hp, if_true]
    rw [if_pos hawake]
    rfl

/-- With nobody asleep at the lock and the mutex free, a thread inside a section can go on, or it
sleeps in `cv.wait` and another one is about to signal it. -/
theorem Locks.Inv.free_canGoOn (h : s.Inv) (hfree : s.mtx = none) (hinside : s.Inside i)
    (hawake : ¬ s.Sleeps i) : ∃ j, s.Inside j ∧ s.CanGoOn j := by
  obtain ⟨p, hp, hidle, hchanged⟩ := hinside
  have hown : p.holdsMtx = true → s.mtx = some i := (h.mtx i _ p (h.view_of_phaseAt hp)).mp
  rw [hfree] at hown
  have hself : s.CanGoOn i → ∃ j, s.Inside j ∧ s.CanGoOn j := fun hgoes => ⟨i, ⟨p, hp, hidle, hchanged⟩, hgoes⟩
  cases p with
  | idle => contradiction
  | writeSection | readSection => exact hself (h.section_canGoOn hp (by decide) hawake)
  | signalling => exact hself (Locks.signal_canGoOn hp)
  | notifyEntry | loopHead | wokenCv =>
    exact hself ⟨.takeMtx i, rfl, by simp [Locks.step, hfree, hp]⟩
  | asleep =>
    obtain ⟨j, hj⟩ := h.signalled (hchanged rfl) ⟨i, hp⟩
    exact ⟨j, ⟨_, hj, by decide, fun hasleep => by contradiction⟩, Locks.signal_canGoOn hj⟩
  | notifyHolding | testing | printEntry | printing | clearing => simp [Phase.holdsMtx] at hown

/-- While some thread is inside a section, some thread inside a section is not blocked. -/
theorem Locks.Inv.progress (h : s.Inv) (hinside : s.Inside i) : ∃ j, s.Inside j ∧ s.CanGoOn j := by
  by_cases hsleeps : ∃ j, s.Sleeps j
  · obtain ⟨j, hj⟩ := hsleeps
    rcases h.somebody hj with ⟨k, ⟨a, ha, hholds⟩, hreleases⟩ | ⟨k, a, ha, hwoken⟩
    · refine ⟨k, h.inside_of_stage ha fun hnone => ?_, hreleases.canGoOn⟩
      cases a with
      | reading | writing => contradiction
      | _ => contradiction
    · refine ⟨k, h.inside_of_stage ha fun hnone => ?_, Locks.Woken.canGoOn ⟨a, ha, hwoken⟩⟩
      cases a with
      | wokenRead | wokenWrite => contradiction
      | _ => contradiction
  · have hawake : ∀ j, ¬ s.Sleeps j := fun j hj => hsleeps ⟨j, hj⟩
    cases howner : s.mtx with
    | none => exact h.free_canGoOn howner hinside (hawake i)
    | some m =>
      obtain ⟨k, p, hview⟩ := h.owner m howner
      have hholds := (h.mtx m k p hview).mpr howner
      have hp : s.phaseAt m = some p := by
        rw [Locks.phaseAt_eq, hview]
        rfl
      refine ⟨m, ⟨p, hp, ?_, ?_⟩, h.owner_canGoOn hp hholds (hawake m)⟩
      · rintro rfl
        contradiction
      · rintro rfl
        contradiction

end

/-- In every run the lock excludes and its counters are right, a thread that sleeps at it has a
holder that can leave or a woken thread before it, and not all threads inside a section are
blocked. -/
theorem lock_excludes_and_never_sticks {s : Locks} (h : Reachable Locks.step Always Locks.Initial s) :
    ((s.lock.writerActive = true → s.lock.readersCount = 0) ∧
      s.lock.count .writing = (if s.lock.writerActive then 1 else 0) ∧
      s.lock.readersCount = s.lock.count .reading) ∧
    (∀ i, s.Sleeps i → (∃ j, s.Holds j ∧ s.CanRelease j) ∨ ∃ j, s.Woken j) ∧
    ((∃ i, s.Inside i) → ∃ i, s.Inside i ∧ s.CanGoOn i) := by
  have hinv := Locks.inv h
  refine ⟨⟨hinv.lock.excludes, hinv.lock.holder, hinv.lock.readers⟩, fun i => hinv.somebody, ?_⟩
  rintro ⟨i, hinside⟩
  exact hinv.progress hinside

/-- The interface thread waits for the read lock with its mutex held, while a request thread holds
the lock, a second one waits for it and a third one waits for the mutex. -/
theorem lock_never_sticks_while_printing :
    ∃ s : Locks, s.mtx = some 0 ∧ s.lock.stageAt 0 = some .waitingRead ∧ s.phaseAt 3 = some .notifyEntry ∧
      ∃ j, s.CanGoOn j := by
  obtain ⟨s, hreach, htest⟩ := exists_reachable_of_replay Locks.step Always Locks.Initial
    (s := { lock := { threads := [⟨.outside, .loopHead⟩] } })
    [.spawn, .spawn, .spawn, .writerLock 3, .writerUnlock 3 none true, .takeMtx 3, .setChanged 3, .signal 3 none,
      .writerLock 3, .writerUnlock 3 none true, .takeMtx 0, .testChanged 0, .writerLock 1, .writerLock 2,
      .readerLock 0]
    (fun s => decide (s.mtx = some 0 ∧ s.lock.stageAt 0 = some .waitingRead ∧
      s.phaseAt 3 = some .notifyEntry)) rfl (by decide +kernel)
  obtain ⟨hmtx, hwaits, hentry⟩ := of_decide_eq_true htest
  have hinside : s.Inside 3 := ⟨_, hentry, by decide, fun hasleep => by contradiction⟩
  obtain ⟨j, _, hgoes⟩ := (lock_excludes_and_never_sticks hreach).2.2 ⟨3, hinside⟩
  exact ⟨s, hmtx, hwaits, hentry, j, hgoes⟩

end BankReplica
