import BankReplica.Library.Runs
import BankReplica.Library.RwLockThreads

/-!
# The locks of a server

The request threads, the receive loop and the heartbeat sender take the reader-writer lock
one section at a time, and `notify` takes the mutex of the interface when they are outside
it. The interface thread takes the two in the other order: it holds its mutex while it
waits for the read lock.
-/

namespace BankReplica

open Runs

/-- Where a thread stands outside the sections of the reader-writer lock. -/
inductive Phase
  /-- Between two calls. -/
  | idle
  /-- From `writer_lock` to `writer_unlock`. -/
  | writeSection
  /-- From `reader_lock` to `reader_unlock` in the heartbeat sender. -/
  | readSection
  /-- At the `lock_guard` of `ServerInterface::notify`. -/
  | notifyEntry
  /-- Under the `lock_guard`. -/
  | notifyHolding
  /-- Before `cv.notify_one`. -/
  | signalling
  /-- The interface thread at its `unique_lock`. -/
  | loopHead
  /-- At the test of `data_changed`, with the mutex. -/
  | testing
  /-- Asleep in `cv.wait`. -/
  | asleep
  /-- Woken, before the mutex is taken again. -/
  | wokenCv
  /-- Before `reader_lock`, with the mutex. -/
  | printEntry
  /-- From `reader_lock` to `reader_unlock`, with the mutex. -/
  | printing
  /-- After `reader_unlock`, before `data_changed` is cleared. -/
  | clearing
deriving DecidableEq

/-- What a thread wants the reader-writer lock for. -/
def Phase.wants : Phase → RwLock.Kind
  | .writeSection => .write
  | .readSection | .printing => .read
  | _ => .none

/-- The thread holds the mutex of the interface. -/
def Phase.holdsMtx : Phase → Bool
  | .notifyHolding | .testing | .printEntry | .printing | .clearing => true
  | _ => false

/-- The thread is the interface thread. -/
def Phase.ofInterface : Phase → Bool
  | .loopHead | .testing | .asleep | .wokenCv | .printEntry | .printing | .clearing => true
  | _ => false

/-- The reader-writer lock with the threads at it, and the mutex of the interface. -/
structure Locks where
  lock : RwLock.State Phase
  mtx : Option ℕ := none
  dataChanged : Bool := false
deriving DecidableEq

/-- The steps of the threads; `woken` is whom `notify_one` picks. -/
inductive LockEvent
  /-- A detached thread starts. -/
  | spawn
  | writerLock (i : ℕ)
  | readerLock (i : ℕ)
  /-- A thread woken at the reader-writer lock tests its condition. -/
  | recheck (i : ℕ)
  /-- `writer_unlock`, and whether `notify` is called next. -/
  | writerUnlock (i : ℕ) (woken : Option ℕ) (notifies : Bool)
  | readerUnlock (i : ℕ) (woken : Option ℕ)
  /-- A thread asleep at the reader-writer lock wakes without a notification. -/
  | spurious (i : ℕ)
  | takeMtx (i : ℕ)
  | setChanged (i : ℕ)
  | signal (i : ℕ) (woken : Option ℕ)
  | testChanged (i : ℕ)
  /-- The interface thread wakes without a notification. -/
  | spuriousCv (i : ℕ)
  | clear (i : ℕ)
deriving DecidableEq

/-- Where the thread at a position stands. -/
def Locks.phaseAt (s : Locks) (i : ℕ) : Option Phase := s.lock.threads[i]?.map RwLock.Thread.tag

/-- A section of the reader-writer lock, after which the thread stands elsewhere. -/
def Locks.section (s : Locks) (e : RwLock.Event) (next : Phase) : Option Locks :=
  (s.lock.step e).map fun lock => { s with lock := lock.retag e.actor next }

/-- A thread goes on outside the reader-writer lock. -/
def Locks.go (s : Locks) (i : ℕ) (next : Phase) : Locks := { s with lock := s.lock.retag i next }

/-- One step. -/
def Locks.step (s : Locks) : LockEvent → Option Locks
  | .spawn => some { s with lock := s.lock.spawn .idle }
  | .writerLock i => if s.phaseAt i = some .idle then s.section (.writeLock i) .writeSection else none
  | .readerLock i =>
    match s.phaseAt i with
    | some .idle => s.section (.readLock i) .readSection
    | some .printEntry => s.section (.readLock i) .printing
    | _ => none
  | .recheck i => (s.lock.step (.recheck i)).map fun lock => { s with lock := lock }
  | .writerUnlock i woken notifies =>
    if s.phaseAt i = some .writeSection then
      s.section (.writeUnlock i woken) (if notifies then .notifyEntry else .idle)
    else none
  | .readerUnlock i woken =>
    match s.phaseAt i with
    | some .readSection => s.section (.readUnlock i woken) .idle
    | some .printing => s.section (.readUnlock i woken) .clearing
    | _ => none
  | .spurious i => (s.lock.step (.spurious i)).map fun lock => { s with lock := lock }
  | .takeMtx i =>
    if s.mtx = none then
      match s.phaseAt i with
      | some .notifyEntry => some { s.go i .notifyHolding with mtx := some i }
      | some .loopHead | some .wokenCv => some { s.go i .testing with mtx := some i }
      | _ => none
    else none
  | .setChanged i =>
    if s.phaseAt i = some .notifyHolding then
      some { s.go i .signalling with mtx := none, dataChanged := true }
    else none
  | .signal i woken =>
    if s.phaseAt i = some .signalling then
      match woken with
      | some j => if s.phaseAt j = some .asleep then some ((s.go j .wokenCv).go i .idle) else none
      | none => if ∀ t ∈ s.lock.threads, t.tag ≠ .asleep then some (s.go i .idle) else none
    else none
  | .testChanged i =>
    if s.phaseAt i = some .testing then
      if s.dataChanged then some (s.go i .printEntry) else some { s.go i .asleep with mtx := none }
    else none
  | .spuriousCv i => if s.phaseAt i = some .asleep then some (s.go i .wokenCv) else none
  | .clear i =>
    if s.phaseAt i = some .clearing then
      some { s.go i .loopHead with mtx := none, dataChanged := false }
    else none

/-- The interface thread, and nobody else yet. -/
def Locks.Initial (s : Locks) : Prop := s = { lock := { threads := [⟨.outside, .loopHead⟩] } }

/-! ## The invariant -/

/-- The reader-writer lock is sound; a thread wants it just for the section it is in; the mutex is
held by the one thread that says so; there is one interface thread, and while it sleeps with
`data_changed` set somebody is about to signal it. -/
structure Locks.Inv (s : Locks) : Prop where
  lock : s.lock.Inv
  wants : ∀ i k p, s.lock.view i = some (k, p) → k = p.wants
  mtx : ∀ i k p, s.lock.view i = some (k, p) → (p.holdsMtx = true ↔ s.mtx = some i)
  owner : ∀ i, s.mtx = some i → ∃ k p, s.lock.view i = some (k, p)
  interface : ∀ i k p, s.lock.view i = some (k, p) → p.ofInterface = true → i = 0
  signalled : s.dataChanged = true → (∃ i, s.phaseAt i = some .asleep) → ∃ j, s.phaseAt j = some .signalling

/-- The phase of a thread is what the lock keeps for it. -/
theorem Locks.phaseAt_eq (s : Locks) (i : ℕ) : s.phaseAt i = (s.lock.view i).map Prod.snd := by
  simp [Locks.phaseAt, RwLock.State.view, Function.comp_def]

/-- A thread at a phase wants the lock for what the phase says. -/
theorem Locks.Inv.view_of_phaseAt {s : Locks} (h : s.Inv) {i : ℕ} {p : Phase} (hp : s.phaseAt i = some p) :
    s.lock.view i = some (p.wants, p) := by
  rw [Locks.phaseAt_eq] at hp
  obtain ⟨⟨k, p'⟩, hview, rfl⟩ := Option.map_eq_some_iff.mp hp
  rw [hview, h.wants i k p' hview]

/-- One thread has gone from one phase to another. -/
structure Locks.Advance (s s' : Locks) (i : ℕ) (p p' : Phase) : Prop where
  before : s.lock.view i = some (p.wants, p)
  view : ∀ j, s'.lock.view j = if j = i then some (p'.wants, p') else s.lock.view j
  lock : s'.lock.Inv

/-- A section of the reader-writer lock. -/
theorem Locks.Inv.section {s s' : Locks} (h : s.Inv) {e : RwLock.Event} {p p' : Phase}
    (hp : s.phaseAt e.actor = some p) (hwants : e.wants = some p'.wants) (hs : s.section e p' = some s') :
    s.Advance s' e.actor p p' ∧ s'.mtx = s.mtx ∧ s'.dataChanged = s.dataChanged := by
  obtain ⟨lock, hstep, rfl⟩ := Option.map_eq_some_iff.mp hs
  have hview := h.view_of_phaseAt hp
  refine ⟨⟨hview, fun j => ?_, (h.lock.step hstep).retag _ _⟩, rfl, rfl⟩
  rw [RwLock.State.view_retag, RwLock.State.view_step hstep]
  by_cases hj : j = e.actor
  · simp [hj, hview, hwants]
  · simp [hj]

/-- A step outside the reader-writer lock. -/
theorem Locks.Inv.go {s : Locks} (h : s.Inv) {i : ℕ} {p : Phase} (hp : s.phaseAt i = some p) (p' : Phase)
    (hwants : p'.wants = p.wants) : s.Advance (s.go i p') i p p' := by
  have hview := h.view_of_phaseAt hp
  refine ⟨hview, fun j => ?_, h.lock.retag i p'⟩
  rw [Locks.go, RwLock.State.view_retag]
  by_cases hj : j = i
  · simp [hj, hview, hwants]
  · simp [hj]

section

variable {s s' : Locks} {i : ℕ} {p p' : Phase}

/-- A change of the mutex or of `data_changed` alone. -/
theorem Locks.Advance.congr (h : s.Advance s' i p p') {s'' : Locks} (hlock : s''.lock = s'.lock) :
    s.Advance s'' i p p' := by
  refine ⟨h.before, fun j => ?_, ?_⟩
  · rw [hlock]
    exact h.view j
  · rw [hlock]
    exact h.lock

/-- The phases after a step. -/
theorem Locks.Advance.phaseAt (h : s.Advance s' i p p') (j : ℕ) :
    s'.phaseAt j = if j = i then some p' else s.phaseAt j := by
  rw [Locks.phaseAt_eq, Locks.phaseAt_eq, h.view]
  split <;> rfl

/-- A step that takes the mutex while it is free, gives it up while the thread holds it, or does
neither, and that does not let the interface thread miss a change. -/
theorem Locks.Inv.advance (h : s.Inv) (hadvance : s.Advance s' i p p')
    (hmtx : (p'.holdsMtx = p.holdsMtx ∧ s'.mtx = s.mtx) ∨
      (p'.holdsMtx = true ∧ s.mtx = none ∧ s'.mtx = some i) ∨
      (p.holdsMtx = true ∧ p'.holdsMtx = false ∧ s'.mtx = none))
    (hinterface : p'.ofInterface = p.ofInterface)
    (hsignalled : s'.dataChanged = true → (∃ j, s'.phaseAt j = some .asleep) →
      ∃ j, s'.phaseAt j = some .signalling) : s'.Inv := by
  have hown := h.mtx i _ _ hadvance.before
  constructor
  · exact hadvance.lock
  · intro j k q hview
    rw [hadvance.view] at hview
    split at hview
    · obtain ⟨rfl, rfl⟩ := Prod.mk.inj (Option.some.inj hview)
      rfl
    · exact h.wants j k q hview
  · intro j k q hview
    rw [hadvance.view] at hview
    split at hview
    · rename_i hj
      obtain ⟨rfl, rfl⟩ := Prod.mk.inj (Option.some.inj hview)
      rw [hj]
      rcases hmtx with ⟨hsame, hkept⟩ | ⟨htakes, hfree, htaken⟩ | ⟨hheld, hleaves, hfreed⟩
      · rw [hsame, hkept]
        exact hown
      · simp [htakes, htaken]
      · simp [hleaves, hfreed]
    · rename_i hj
      rw [h.mtx j k q hview]
      rcases hmtx with ⟨hsame, hkept⟩ | ⟨htakes, hfree, htaken⟩ | ⟨hheld, hleaves, hfreed⟩
      · rw [hkept]
      · simp [hfree, htaken, Ne.symm hj]
      · simp [hfreed, hown.mp hheld, Ne.symm hj]
  · intro j hj
    rw [hadvance.view]
    by_cases hji : j = i
    · exact ⟨_, _, if_pos hji⟩
    · rw [if_neg hji]
      refine h.owner j ?_
      rcases hmtx with ⟨hsame, hkept⟩ | ⟨htakes, hfree, htaken⟩ | ⟨hheld, hleaves, hfreed⟩
      · rw [← hkept]
        exact hj
      · rw [htaken] at hj
        exact absurd (Option.some.inj hj).symm hji
      · rw [hfreed] at hj
        contradiction
  · intro j k q hview hq
    rw [hadvance.view] at hview
    split at hview
    · rename_i hj
      obtain ⟨rfl, rfl⟩ := Prod.mk.inj (Option.some.inj hview)
      rw [hinterface] at hq
      rw [hj]
      exact h.interface i _ _ hadvance.before hq
    · exact h.interface j k q hview hq
  · exact hsignalled

/-- A step that neither signals nor puts anybody to sleep. -/
theorem Locks.Inv.signalled_advance (h : s.Inv) (hadvance : s.Advance s' i p p') (hp : p ≠ .signalling)
    (hp' : p' ≠ .asleep) (hchanged : s'.dataChanged = true → s.dataChanged = true) :
    s'.dataChanged = true → (∃ j, s'.phaseAt j = some .asleep) → ∃ j, s'.phaseAt j = some .signalling := by
  rintro hdata ⟨j, hj⟩
  rw [hadvance.phaseAt] at hj
  split at hj
  · exact absurd (Option.some.inj hj) hp'
  · obtain ⟨k, hk⟩ := h.signalled (hchanged hdata) ⟨j, hj⟩
    refine ⟨k, ?_⟩
    rw [hadvance.phaseAt, if_neg]
    · exact hk
    · rintro rfl
      rw [Locks.phaseAt_eq, hadvance.before] at hk
      exact hp (Option.some.inj hk)

end

/-- A step that leaves every thread where it was, but for being woken at the lock. -/
theorem Locks.Inv.same {s s' : Locks} (h : s.Inv) (hlock : s'.lock.Inv) (hview : s'.lock.view = s.lock.view)
    (hmtx : s'.mtx = s.mtx) (hchanged : s'.dataChanged = s.dataChanged) : s'.Inv := by
  have hphase : s'.phaseAt = s.phaseAt := by
    funext i
    rw [Locks.phaseAt_eq, Locks.phaseAt_eq, hview]
  constructor
  · exact hlock
  · rw [hview]
    exact h.wants
  · rw [hview, hmtx]
    exact h.mtx
  · rw [hview, hmtx]
    exact h.owner
  · rw [hview]
    exact h.interface
  · rw [hphase, hchanged]
    exact h.signalled

/-- A test at the lock that changes nothing a thread wants. -/
theorem RwLock.State.view_of_wants_none {s s' : RwLock.State Phase} {e : RwLock.Event} (he : e.wants = none)
    (h : s.step e = some s') : s'.view = s.view := by
  funext j
  rw [RwLock.State.view_step h, he]
  split <;> simp

/-- A section of the reader-writer lock keeps the invariant. -/
theorem Locks.Inv.after_section {s s' : Locks} (h : s.Inv) {e : RwLock.Event} {p p' : Phase}
    (hp : s.phaseAt e.actor = some p) (hwants : e.wants = some p'.wants) (hs : s.section e p' = some s')
    (hmtx : p'.holdsMtx = p.holdsMtx) (hinterface : p'.ofInterface = p.ofInterface) (hsignal : p ≠ .signalling)
    (hasleep : p' ≠ .asleep) : s'.Inv := by
  obtain ⟨hadvance, hkept, hdata⟩ := h.section hp hwants hs
  refine h.advance hadvance (.inl ⟨hmtx, hkept⟩) hinterface ?_
  exact h.signalled_advance hadvance hsignal hasleep fun hchanged => hdata ▸ hchanged

/-- A new thread, idle outside every section. -/
theorem Locks.Inv.spawn {s s' : Locks} (h : s.Inv) (hs : s.step .spawn = some s') : s'.Inv := by
  obtain rfl := Option.some.inj hs
  have hview := fun j => s.lock.view_spawn Phase.idle j
  have hnone : s.lock.view s.lock.threads.length = none := by simp [RwLock.State.view]
  have hphase : ∀ j, Locks.phaseAt { s with lock := s.lock.spawn .idle } j =
      if j = s.lock.threads.length then some .idle else s.phaseAt j := by
    intro j
    rw [Locks.phaseAt_eq, Locks.phaseAt_eq, hview]
    split <;> rfl
  -- the new thread has no mutex, is not the interface thread and is not asleep
  constructor
  · exact h.lock.spawn .idle
  · intro j k p hj
    rw [hview] at hj
    split at hj
    · obtain ⟨rfl, rfl⟩ := Prod.mk.inj (Option.some.inj hj)
      rfl
    · exact h.wants j k p hj
  · intro j k p hj
    rw [hview] at hj
    split at hj
    · rename_i hlast
      obtain ⟨rfl, rfl⟩ := Prod.mk.inj (Option.some.inj hj)
      refine ⟨fun hheld => by contradiction, fun howner => ?_⟩
      obtain ⟨k, p, hold⟩ := h.owner j howner
      rw [hlast, hnone] at hold
      contradiction
    · exact h.mtx j k p hj
  · intro j hj
    obtain ⟨k, p, hold⟩ := h.owner j hj
    refine ⟨k, p, ?_⟩
    rw [hview, if_neg]
    · exact hold
    · rintro rfl
      rw [hnone] at hold
      contradiction
  · intro j k p hj hp
    rw [hview] at hj
    split at hj
    · obtain ⟨rfl, rfl⟩ := Prod.mk.inj (Option.some.inj hj)
      contradiction
    · exact h.interface j k p hj hp
  · rintro hdata ⟨j, hj⟩
    rw [hphase] at hj
    split at hj
    · contradiction
    · obtain ⟨m, hm⟩ := h.signalled hdata ⟨j, hj⟩
      refine ⟨m, ?_⟩
      rw [hphase, if_neg]
      · exact hm
      · rintro rfl
        rw [Locks.phaseAt_eq, hnone] at hm
        contradiction

/-- The mutex is taken by a thread that waits for it. -/
theorem Locks.Inv.takeMtx {s s' : Locks} {i : ℕ} (h : s.Inv) (hs : s.step (.takeMtx i) = some s') : s'.Inv := by
  have htaken : ∀ {p p' : Phase}, s.mtx = none → s.phaseAt i = some p → p'.wants = p.wants →
      p'.holdsMtx = true → p'.ofInterface = p.ofInterface → p ≠ .signalling → p' ≠ .asleep →
      Locks.Inv { s.go i p' with mtx := some i } := by
    intro p p' hfree hp hwants hholds hinterface hsignal hasleep
    have hadvance : s.Advance { s.go i p' with mtx := some i } i p p' := (h.go hp p' hwants).congr rfl
    exact h.advance hadvance (.inr (.inl ⟨hholds, hfree, rfl⟩)) hinterface
      (h.signalled_advance hadvance hsignal hasleep id)
  simp only [Locks.step] at hs
  split at hs
  · rename_i hfree
    split at hs
    · rename_i hp
      obtain rfl := Option.some.inj hs
      exact htaken hfree hp rfl rfl rfl (by decide) (by decide)
    · rename_i hp
      obtain rfl := Option.some.inj hs
      exact htaken hfree hp rfl rfl rfl (by decide) (by decide)
    · rename_i hp
      obtain rfl := Option.some.inj hs
      exact htaken hfree hp rfl rfl rfl (by decide) (by decide)
    · contradiction
  · contradiction

/-- The signal wakes the interface thread if it sleeps. -/
theorem Locks.Inv.signal {s s' : Locks} {i : ℕ} {woken : Option ℕ} (h : s.Inv)
    (hs : s.step (.signal i woken) = some s') : s'.Inv := by
  have hsent : ∀ {t : Locks}, t.Inv → t.phaseAt i = some .signalling → (∀ j, t.phaseAt j ≠ some .asleep) →
      (t.go i .idle).Inv := by
    intro t ht hp hawake
    have hadvance := ht.go hp .idle rfl
    refine ht.advance hadvance (.inl ⟨rfl, rfl⟩) rfl ?_
    rintro _ ⟨j, hj⟩
    rw [hadvance.phaseAt] at hj
    split at hj
    · contradiction
    · exact absurd hj (hawake j)
  simp only [Locks.step] at hs
  split at hs
  · rename_i hp
    split at hs
    · rename_i j
      split at hs
      · rename_i hj
        obtain rfl := Option.some.inj hs
        have hadvance := h.go hj .wokenCv rfl
        have hwoken := h.advance hadvance (.inl ⟨rfl, rfl⟩) rfl
          (h.signalled_advance hadvance (by decide) (by decide) id)
        refine hsent hwoken ?_ fun k hk => ?_
        · rw [hadvance.phaseAt, if_neg]
          · exact hp
          · rintro rfl
            rw [hp] at hj
            contradiction
        · -- there is one interface thread, and it was woken
          rw [hadvance.phaseAt] at hk
          split at hk
          · contradiction
          · rename_i hkj
            have hk0 := h.interface k _ _ (h.view_of_phaseAt hk) rfl
            have hj0 := h.interface j _ _ (h.view_of_phaseAt hj) rfl
            exact hkj (hk0.trans hj0.symm)
      · contradiction
    · split at hs
      · rename_i hawake
        obtain rfl := Option.some.inj hs
        refine hsent h hp fun j hj => ?_
        obtain ⟨t, hget, htag⟩ := Option.map_eq_some_iff.mp hj
        exact hawake t (List.mem_of_getElem? hget) htag
      · contradiction
  · contradiction

/-- Every step keeps the invariant. -/
theorem Locks.Inv.step {s s' : Locks} {e : LockEvent} (h : s.Inv) (hs : s.step e = some s') : s'.Inv := by
  cases e with
  | spawn => exact h.spawn hs
  | takeMtx i => exact h.takeMtx hs
  | signal i woken => exact h.signal hs
  | writerLock i =>
    simp only [Locks.step] at hs
    split at hs
    · rename_i hp
      exact h.after_section (e := .writeLock i) hp rfl hs rfl rfl (by decide) (by decide)
    · contradiction
  | readerLock i =>
    simp only [Locks.step] at hs
    split at hs
    · rename_i hp
      exact h.after_section (e := .readLock i) hp rfl hs rfl rfl (by decide) (by decide)
    · rename_i hp
      exact h.after_section (e := .readLock i) hp rfl hs rfl rfl (by decide) (by decide)
    · contradiction
  | recheck i =>
    obtain ⟨lock, hlock, rfl⟩ := Option.map_eq_some_iff.mp hs
    exact h.same (h.lock.step hlock) (RwLock.State.view_of_wants_none rfl hlock) rfl rfl
  | writerUnlock i woken notifies =>
    simp only [Locks.step] at hs
    split at hs
    · rename_i hp
      cases notifies with
      | true => exact h.after_section (e := .writeUnlock i woken) hp rfl hs rfl rfl (by decide) (by decide)
      | false => exact h.after_section (e := .writeUnlock i woken) hp rfl hs rfl rfl (by decide) (by decide)
    · contradiction
  | readerUnlock i woken =>
    simp only [Locks.step] at hs
    split at hs
    · rename_i hp
      exact h.after_section (e := .readUnlock i woken) hp rfl hs rfl rfl (by decide) (by decide)
    · rename_i hp
      exact h.after_section (e := .readUnlock i woken) hp rfl hs rfl rfl (by decide) (by decide)
    · contradiction
  | spurious i =>
    obtain ⟨lock, hlock, rfl⟩ := Option.map_eq_some_iff.mp hs
    exact h.same (h.lock.step hlock) (RwLock.State.view_of_wants_none rfl hlock) rfl rfl
  | setChanged i =>
    simp only [Locks.step] at hs
    split at hs
    · rename_i hp
      obtain rfl := Option.some.inj hs
      have hadvance : s.Advance { s.go i .signalling with mtx := none, dataChanged := true } i .notifyHolding
          .signalling := (h.go hp .signalling rfl).congr rfl
      exact h.advance hadvance (.inr (.inr ⟨rfl, rfl, rfl⟩)) rfl fun _ _ => ⟨i, by simp [hadvance.phaseAt]⟩
    · contradiction
  | testChanged i =>
    simp only [Locks.step] at hs
    split at hs
    · rename_i hp
      split at hs
      · obtain rfl := Option.some.inj hs
        have hadvance := h.go hp .printEntry rfl
        exact h.advance hadvance (.inl ⟨rfl, rfl⟩) rfl
          (h.signalled_advance hadvance (by decide) (by decide) id)
      · rename_i hunchanged
        obtain rfl := Option.some.inj hs
        have hadvance : s.Advance { s.go i .asleep with mtx := none } i .testing .asleep :=
          (h.go hp .asleep rfl).congr rfl
        exact h.advance hadvance (.inr (.inr ⟨rfl, rfl, rfl⟩)) rfl fun hdata => absurd hdata hunchanged
    · contradiction
  | spuriousCv i =>
    simp only [Locks.step] at hs
    split at hs
    · rename_i hp
      obtain rfl := Option.some.inj hs
      have hadvance := h.go hp .wokenCv rfl
      exact h.advance hadvance (.inl ⟨rfl, rfl⟩) rfl (h.signalled_advance hadvance (by decide) (by decide) id)
    · contradiction
  | clear i =>
    simp only [Locks.step] at hs
    split at hs
    · rename_i hp
      obtain rfl := Option.some.inj hs
      have hadvance : s.Advance { s.go i .loopHead with mtx := none, dataChanged := false } i .clearing
          .loopHead := (h.go hp .loopHead rfl).congr rfl
      exact h.advance hadvance (.inr (.inr ⟨rfl, rfl, rfl⟩)) rfl fun hdata => by contradiction
    · contradiction

/-- The invariant holds in every run. -/
theorem Locks.inv {s : Locks} (h : Reachable Locks.step Always Locks.Initial s) : s.Inv := by
  refine h.invariant (fun s hs => ?_) fun s e s' hinv _ hstep => hinv.step hstep
  obtain rfl := hs
  have hview : ∀ {i : ℕ} {k : RwLock.Kind} {p : Phase},
      RwLock.State.view { threads := [⟨.outside, .loopHead⟩] } i = some (k, p) →
        i = 0 ∧ k = .none ∧ p = .loopHead := by
    intro i k p hi
    cases i with
    | zero =>
      obtain ⟨rfl, rfl⟩ := Prod.mk.inj (Option.some.inj hi)
      exact ⟨rfl, rfl, rfl⟩
    | succ i => simp [RwLock.State.view] at hi
  constructor
  · exact RwLock.State.inv_of_outside (by simp)
  · intro i k p hi
    obtain ⟨rfl, rfl, rfl⟩ := hview hi
    rfl
  · intro i k p hi
    obtain ⟨rfl, rfl, rfl⟩ := hview hi
    simp [Phase.holdsMtx]
  · intro i hi
    contradiction
  · exact fun i k p hi _ => (hview hi).1
  · intro hdata
    contradiction

end BankReplica
