import BankReplica.Library.Linearization
import BankReplica.Library.Runs
import BankReplica.Library.RwLockSeats

/-!
# Operations as sections under a reader-writer lock

The operations of an object run as sections under a reader-writer lock, one statement at a time:
those that only read run beside one another, one that writes runs alone. However the statements,
the waits and the wakeups of any number of threads interleave, the object is linearizable: every
operation takes effect at the statement that ends its section, and what its section has read and
written until then is what it reads and writes when nobody else is there. A statement whose
behaviour is undefined has no result, and no run goes past it.
-/

namespace LockedObject

open Linearization Runs RwLock

/-- The code of an object's operations: which of them only read, the locals a section starts with,
what a statement of a section does, if that is defined, and the reply with which it ends. -/
structure Code (S O R L : Type*) where
  reads : O → Bool
  start : O → L
  read : S → L → L
  write : S → L → Option (S × L)
  reply : L → Option R

/-- Where a thread stands, with the locals of its section. -/
inductive Job (O R L : Type*)
  | idle
  /-- From the call of the lock to the end of the section. -/
  | working (id : ℕ) (op : O) (locals : L)
  /-- Outside the lock, with the reply. -/
  | returning (id : ℕ) (reply : R)

variable {S O R L : Type*}

/-- What an operation wants the lock for. -/
def Code.kind (c : Code S O R L) (op : O) : Kind := if c.reads op then .read else .write

/-- One statement of a section that only reads or of one that writes. -/
def Code.exec (c : Code S O R L) (reading : Bool) (s : S) (l : L) : Option (S × L) :=
  if reading then some (s, c.read s l) else c.write s l

/-- The rest of a section, alone, from one state to another and to its reply, unless it comes to a
statement without a result. -/
inductive Code.Completes (c : Code S O R L) (reading : Bool) : S → L → S → R → Prop
  | done {s : S} {l : L} {r : R} (hreply : c.reply l = some r) : c.Completes reading s l s r
  | next {s s' t : S} {l l' : L} {r : R} (hexec : c.exec reading s l = some (s', l')) (hmore : c.reply l = none)
      (hrest : c.Completes reading s' l' t r) : c.Completes reading s l t r
  | undefined {s t : S} {l : L} {r : R} (hexec : c.exec reading s l = none) (hmore : c.reply l = none) :
      c.Completes reading s l t r

/-- Every section, alone, comes to its end and does what the object is to do, unless it comes to a
statement without a result. -/
def Code.Implements (c : Code S O R L) (perform : S → O → S × R) : Prop :=
  ∀ s op, c.Completes (c.reads op) s (c.start op) (perform s op).1 (perform s op).2

/-- An object, its lock and the threads at it, the number of operations so far and their history. -/
structure Object (S O R L : Type*) where
  lock : RwLock.State (Job O R L)
  data : S
  calls : ℕ := 0
  history : List (CallEvent O R) := []

/-- The steps of the threads. -/
inductive ObjectEvent (O : Type*)
  /-- A thread calls an operation, which comes to the lock. -/
  | call (i : ℕ) (op : O)
  /-- A thread woken at the lock tests its condition. -/
  | recheck (i : ℕ)
  /-- A thread asleep at the lock wakes without a notification. -/
  | spurious (i : ℕ)
  /-- One statement of a section. -/
  | work (i : ℕ)
  /-- The end of a section. -/
  | leave (i : ℕ) (woken : Option ℕ)
  /-- The operation returns. -/
  | finish (i : ℕ)

/-- What the thread at a position does. -/
def Object.jobAt (o : Object S O R L) (i : ℕ) : Option (Job O R L) := o.lock.threads[i]?.map RwLock.Thread.tag

/-- A thread stands elsewhere. -/
def Object.go (o : Object S O R L) (i : ℕ) (job : Job O R L) : Object S O R L :=
  { o with lock := o.lock.retag i job }

/-- The call of the lock. -/
def lockEvent (kind : Kind) (i : ℕ) : RwLock.Event := if kind = .read then .readLock i else .writeLock i

/-- The end of a section. -/
def unlockEvent (kind : Kind) (i : ℕ) (woken : Option ℕ) : RwLock.Event :=
  if kind = .read then .readUnlock i woken else .writeUnlock i woken

/-- One step. -/
def Object.step (c : Code S O R L) (o : Object S O R L) : ObjectEvent O → Option (Object S O R L)
  | .call i op =>
    match o.jobAt i with
    | some .idle => (o.lock.step (lockEvent (c.kind op) i)).map fun lock =>
      { o with
        lock := lock.retag i (.working o.calls op (c.start op))
        calls := o.calls + 1
        history := o.history ++ [.invoke o.calls op] }
    | _ => none
  | .recheck i => (o.lock.step (.recheck i)).map fun lock => { o with lock := lock }
  | .spurious i => (o.lock.step (.spurious i)).map fun lock => { o with lock := lock }
  | .work i =>
    match o.lock.seat i with
    | some (_, true, .working id op l) =>
      if (c.reply l).isNone then
        (c.exec (c.reads op) o.data l).map fun (data, l') => { o.go i (.working id op l') with data := data }
      else none
    | _ => none
  | .leave i woken =>
    match o.jobAt i with
    | some (.working id op l) =>
      match c.reply l with
      | some reply => (o.lock.step (unlockEvent (c.kind op) i woken)).map fun lock =>
        { o with lock := lock.retag i (.returning id reply) }
      | none => none
    | _ => none
  | .finish i =>
    match o.jobAt i with
    | some (.returning id reply) => some { o.go i .idle with history := o.history ++ [.respond id reply] }
    | _ => none

/-- An object that nobody has called, and any number of threads. -/
def Object.Initial (s : S) (o : Object S O R L) : Prop :=
  ∃ n, o = { lock := { threads := List.replicate n ⟨.outside, .idle⟩ }, data := s }

/-! ## The invariant -/

/-- The operation a thread is about. -/
def Job.id : Job O R L → Option ℕ
  | .idle => none
  | .working id _ _ | .returning id _ => some id

/-- What links a thread to the operation it is about. A thread that holds the lock has the rest of
its section before it, one that does not hold it yet has the whole. -/
def Fits (c : Code S O R L) (perform : S → O → S × R) (data base : S) (history : List (CallEvent O R))
    (done : List (Done O R)) : Kind → Bool → Job O R L → Prop
  | kind, _, .idle => kind = .none
  | kind, _, .returning id reply => kind = .none ∧ ∃ op, ⟨id, op, reply⟩ ∈ done
  | kind, holds, .working id op l =>
    kind = c.kind op ∧ .invoke id op ∈ history ∧ id ∉ done.map Done.id ∧
      if holds then c.Completes (c.reads op) data l (perform base op).1 (perform base op).2 else l = c.start op

/-- The sections that have ended linearize the history, and every thread is linked to its own; with
no writer inside, the shared state is the one they lead to. -/
structure Object.Linear (c : Code S O R L) (perform : S → O → S × R) (init : S) (o : Object S O R L) (base : S)
    (done : List (Done O R)) : Prop where
  lock : o.lock.Inv
  linearizes : Linearizes perform init o.history done base
  settled : o.lock.writerActive = false → o.data = base
  fits : ∀ i kind holds job, o.lock.seat i = some (kind, holds, job) →
    Fits c perform o.data base o.history done kind holds job
  distinct : ∀ i j job job' id, o.jobAt i = some job → o.jobAt j = some job' → job.id = some id →
    job'.id = some id → i = j
  waiting : ∀ i job id, o.jobAt i = some job → job.id = some id →
    id < o.calls ∧ ∀ reply, .respond id reply ∉ o.history
  fresh : ∀ d ∈ done, d.id < o.calls

section

variable {c : Code S O R L} {perform : S → O → S × R} {init base : S} {o : Object S O R L} {done : List (Done O R)}

/-- What is left of a section after one more statement. -/
theorem Code.Completes.tail {reading : Bool} {s s' t : S} {l l' : L} {r : R} (h : c.Completes reading s l t r)
    (hmore : c.reply l = none) (hexec : c.exec reading s l = some (s', l')) : c.Completes reading s' l' t r := by
  cases h with
  | done hreply => rw [hreply] at hmore; contradiction
  | next hsame _ hrest =>
    obtain ⟨rfl, rfl⟩ := Prod.mk.inj (Option.some.inj (hexec.symm.trans hsame))
    exact hrest
  | undefined hnone => rw [hexec] at hnone; contradiction

/-- Nothing is left of a section at its end. -/
theorem Code.Completes.ended {reading : Bool} {s t : S} {l : L} {r r' : R} (h : c.Completes reading s l t r)
    (hreply : c.reply l = some r') : s = t ∧ r' = r := by
  cases h with
  | done hsame =>
    rw [hreply] at hsame
    exact ⟨rfl, Option.some.inj hsame⟩
  | next _ hmore _ | undefined _ hmore => rw [hreply] at hmore; contradiction

/-- The job of a thread and its seat. -/
theorem Object.jobAt_of_seat {i : ℕ} {kind : Kind} {holds : Bool} {job : Job O R L}
    (h : o.lock.seat i = some (kind, holds, job)) : o.jobAt i = some job := by
  obtain ⟨t, hget, ht⟩ := Option.map_eq_some_iff.mp h
  rw [Object.jobAt, hget]
  exact congrArg some (congrArg (fun v => v.2.2) ht)

theorem Object.seat_of_jobAt {i : ℕ} {job : Job O R L} (h : o.jobAt i = some job) :
    ∃ kind holds, o.lock.seat i = some (kind, holds, job) := by
  obtain ⟨t, hget, rfl⟩ := Option.map_eq_some_iff.mp h
  exact ⟨t.stage.kind, t.stage.holds, by rw [RwLock.State.seat, hget]; rfl⟩

/-- The job of every thread, as its seat tells. -/
theorem Object.jobAt_eq (i : ℕ) : o.jobAt i = (o.lock.seat i).map fun v => v.2.2 := by
  simp [Object.jobAt, RwLock.State.seat, Function.comp_def]

/-- A thread without the lock keeps its link while histories grow. -/
theorem Fits.mono {data data' base' : S} {history more : List (CallEvent O R)} {later : List (Done O R)} {kind : Kind}
    {holds : Bool} {job : Job O R L} (h : Fits c perform data base history done kind holds job)
    (hsame : data' = data ∧ base' = base ∨ holds = false) (hhistory : history ⊆ more) (hdone : done ⊆ later)
    (hnew : ∀ id, job.id = some id → id ∈ later.map Done.id → id ∈ done.map Done.id) :
    Fits c perform data' base' more later kind holds job := by
  cases job with
  | idle => exact h
  | returning id reply =>
    obtain ⟨hkind, op, hmem⟩ := h
    exact ⟨hkind, op, hdone hmem⟩
  | working id op l =>
    obtain ⟨hkind, hcalled, hopen, hsection⟩ := h
    refine ⟨hkind, hhistory hcalled, fun hmem => hopen (hnew id rfl hmem), ?_⟩
    rcases hsame with ⟨rfl, rfl⟩ | rfl
    · exact hsection
    · exact hsection

/-- What a step of one thread leaves: the seats of the others, its own seat and job, the histories, and
a state that is the same or that nobody else has in hand. -/
structure Object.Moves (c : Code S O R L) (perform : S → O → S × R) (init : S) (o : Object S O R L) (base : S)
    (done : List (Done O R)) (i : ℕ) (job job' : Job O R L) (o' : Object S O R L) (base' : S)
    (later : List (Done O R)) : Prop where
  lock : o'.lock.Inv
  others : ∀ j, j ≠ i → o'.lock.seat j = o.lock.seat j
  own : ∃ kind holds, o'.lock.seat i = some (kind, holds, job') ∧
    Fits c perform o'.data base' o'.history later kind holds job'
  linearizes : Linearizes perform init o'.history later base'
  settled : o'.lock.writerActive = false → o'.data = base'
  state : o'.data = o.data ∧ base' = base ∨ ∀ j kind other, j ≠ i → o.lock.seat j ≠ some (kind, true, other)
  history : o.history ⊆ o'.history
  keeps : done ⊆ later
  effects : ∀ d ∈ later, d ∈ done ∨ job.id = some d.id
  replies : ∀ id reply, .respond id reply ∈ o'.history →
    .respond id reply ∈ o.history ∨ job.id = some id ∧ job'.id = none
  calls : o.calls ≤ o'.calls
  id : ∀ id, job'.id = some id → job.id = some id ∨ id = o.calls ∧ id < o'.calls

/-- An id that has not been given away yet belongs to nothing. -/
theorem Object.Linear.unused (h : o.Linear c perform init base done) :
    o.calls ∉ done.map Done.id ∧ (∀ reply, .respond o.calls reply ∉ o.history) ∧
      ∀ i job, o.jobAt i = some job → job.id ≠ some o.calls := by
  have hdone : o.calls ∉ done.map Done.id := by
    rintro hmem
    obtain ⟨d, hd, heq⟩ := List.mem_map.mp hmem
    exact (h.fresh d hd).ne heq
  refine ⟨hdone, fun reply hreply => ?_, fun i job hjob hid => (h.waiting i job _ hjob hid).1.ne rfl⟩
  obtain ⟨op, hop⟩ := h.linearizes.responded _ _ hreply
  exact hdone (List.mem_map_of_mem hop)

/-- A step of one thread. -/
theorem Object.Linear.moved (h : o.Linear c perform init base done) {i : ℕ} {job : Job O R L}
    (hjob : o.jobAt i = some job) (job' : Job O R L) {o' : Object S O R L} {base' : S} {later : List (Done O R)}
    (hmoves : o.Moves c perform init base done i job job' o' base' later) :
    o'.Linear c perform init base' later := by
  obtain ⟨hdone, hopen, hunused⟩ := h.unused
  obtain ⟨kind', holds', hown, hfits⟩ := hmoves.own
  have hjob' : o'.jobAt i = some job' := Object.jobAt_of_seat hown
  have hothers : ∀ j, j ≠ i → o'.jobAt j = o.jobAt j := by
    intro j hj
    rw [Object.jobAt_eq, Object.jobAt_eq, hmoves.others j hj]
  -- the operation of the thread that moves is no other thread's
  have hdiffers : ∀ j other id, j ≠ i → o.jobAt j = some other → other.id = some id → job'.id ≠ some id := by
    intro j other id hj hother hid hown'
    cases hmoves.id id hown' with
    | inl hsame => exact hj (h.distinct j i other job id hother hjob hid hsame)
    | inr hcalled => exact hunused j other hother (hcalled.1 ▸ hid)
  refine ⟨hmoves.lock, hmoves.linearizes, hmoves.settled, fun j kind holds other hseat => ?_,
    fun j k other other' id hj hk hid hid' => ?_, fun j other id hother hid => ?_, fun d hd => ?_⟩
  · by_cases hj : j = i
    · subst hj
      rw [hown] at hseat
      obtain ⟨rfl, hrest⟩ := Prod.mk.inj (Option.some.inj hseat)
      obtain ⟨rfl, rfl⟩ := Prod.mk.inj hrest
      exact hfits
    · rw [hmoves.others j hj] at hseat
      refine (h.fits j kind holds other hseat).mono ?_ hmoves.history hmoves.keeps fun id hid hmem => ?_
      · refine hmoves.state.imp_right fun halone => Bool.eq_false_iff.mpr fun hholds => ?_
        exact halone j kind other hj (hholds ▸ hseat)
      · obtain ⟨d, hd, rfl⟩ := List.mem_map.mp hmem
        refine List.mem_map_of_mem ((hmoves.effects d hd).resolve_right fun heffect => hj ?_)
        exact h.distinct j i other job d.id (Object.jobAt_of_seat hseat) hjob hid heffect
  · by_cases hji : j = i <;> by_cases hki : k = i
    · exact hji.trans hki.symm
    · subst hji
      rw [hjob'] at hj
      rw [hothers k hki] at hk
      obtain rfl := Option.some.inj hj
      exact absurd hid (hdiffers k other' id hki hk hid')
    · subst hki
      rw [hjob'] at hk
      rw [hothers j hji] at hj
      obtain rfl := Option.some.inj hk
      exact absurd hid' (hdiffers j other id hji hj hid)
    · rw [hothers j hji] at hj
      rw [hothers k hki] at hk
      exact h.distinct j k other other' id hj hk hid hid'
  · by_cases hj : j = i
    · subst hj
      rw [hjob'] at hother
      obtain rfl := Option.some.inj hother
      have hunanswered : ∀ reply, .respond id reply ∈ o'.history → .respond id reply ∈ o.history := by
        intro reply hmem
        refine (hmoves.replies id reply hmem).resolve_right fun hended => ?_
        rw [hended.2] at hid
        contradiction
      cases hmoves.id id hid with
      | inl hsame =>
        obtain ⟨hlt, hwaits⟩ := h.waiting j job id hjob hsame
        exact ⟨hlt.trans_le hmoves.calls, fun reply hmem => hwaits reply (hunanswered reply hmem)⟩
      | inr hcalled =>
        obtain ⟨rfl, hlt⟩ := hcalled
        exact ⟨hlt, fun reply hmem => hopen reply (hunanswered reply hmem)⟩
    · rw [hothers j hj] at hother
      obtain ⟨hlt, hwaits⟩ := h.waiting j other id hother hid
      refine ⟨hlt.trans_le hmoves.calls, fun reply hmem => ?_⟩
      cases hmoves.replies id reply hmem with
      | inl hold => exact hwaits reply hold
      | inr hended => exact hj (h.distinct j i other job id hother hjob hid hended.1)
  · cases hmoves.effects d hd with
    | inl hold => exact (h.fresh d hold).trans_le hmoves.calls
    | inr hid => exact (h.waiting i job d.id hjob hid).1.trans_le hmoves.calls

/-! ## The steps -/

/-- Whoever gets in while no writer is there has its whole section before it. -/
theorem Fits.enter (hcode : c.Implements perform) {data : S} {history : List (CallEvent O R)} {kind : Kind}
    {job : Job O R L} (h : Fits c perform data base history done kind false job) (hsettled : data = base) :
    Fits c perform data base history done kind true job := by
  cases job with
  | idle => exact h
  | returning id reply => exact h
  | working id op l =>
    obtain ⟨hkind, hcalled, hopen, rfl⟩ := h
    exact ⟨hkind, hcalled, hopen, hsettled ▸ hcode data op⟩

/-- What a thread keeps its seat or gets in with. -/
theorem Object.Linear.fits_after (hcode : c.Implements perform) (h : o.Linear c perform init base done)
    {lock : RwLock.State (Job O R L)} {e : RwLock.Event} (hshift : RwLock.State.Shift o.lock lock e)
    (hstays : e.leaves = false) {history : List (CallEvent O R)} {kind kind' : Kind} {job job' : Job O R L}
    (hseat : o.lock.seat e.actor = some (kind, false, job)) (hwants : e.wants.getD kind = kind')
    (hfits : Fits c perform o.data base history done kind' false job') :
    (∃ holds, lock.seat e.actor = some (kind', holds, job) ∧
      Fits c perform o.data base history done kind' holds job') ∧
      (∀ j, j ≠ e.actor → lock.seat j = o.lock.seat j) ∧ (lock.writerActive = false → o.data = base) := by
  cases hshift with
  | waits hothers hseat' hwaits hactive =>
    rw [hseat] at hseat'
    obtain ⟨rfl, hrest⟩ := Prod.mk.inj (Option.some.inj hseat')
    obtain ⟨-, rfl⟩ := Prod.mk.inj hrest
    exact ⟨⟨false, hwants ▸ hwaits, hfits⟩, hothers, fun hfree => h.settled (hactive ▸ hfree)⟩
  | enters hothers hseat' henters hfree =>
    rw [hseat] at hseat'
    obtain ⟨rfl, hrest⟩ := Prod.mk.inj (Option.some.inj hseat')
    obtain ⟨-, rfl⟩ := Prod.mk.inj hrest
    exact ⟨⟨true, hwants ▸ henters, hfits.enter hcode (h.settled hfree)⟩, hothers, fun _ => h.settled hfree⟩
  | leaves hothers hseat' hleaves hactive hout =>
    rw [hstays] at hout
    contradiction

/-- A thread takes a step at the lock that asks for nothing new. -/
theorem Object.Linear.atLock (hcode : c.Implements perform) (h : o.Linear c perform init base done)
    {lock : RwLock.State (Job O R L)} {e : RwLock.Event} (hstep : o.lock.step e = some lock)
    (hstays : e.leaves = false) (hwants : e.wants = none) :
    ({ o with lock := lock } : Object S O R L).Linear c perform init base done := by
  have hshift := RwLock.State.shift_of_step hstep
  obtain ⟨kind, job, hseat⟩ : ∃ kind job, o.lock.seat e.actor = some (kind, false, job) := by
    cases hshift with
    | waits hothers hseat => exact ⟨_, _, hseat⟩
    | enters hothers hseat => exact ⟨_, _, hseat⟩
    | leaves hothers hseat hleaves hactive hout =>
      rw [hstays] at hout
      contradiction
  obtain ⟨⟨holds, hown, hfits⟩, hothers, hsettled⟩ := h.fits_after hcode hshift hstays hseat
    (by rw [hwants]; rfl) (h.fits e.actor kind false job hseat)
  exact h.moved (Object.jobAt_of_seat hseat) job
    { lock := h.lock.step hstep
      others := hothers
      own := ⟨kind, holds, hown, hfits⟩
      linearizes := h.linearizes
      settled := hsettled
      state := .inl ⟨rfl, rfl⟩
      history := List.Subset.refl _
      keeps := List.Subset.refl _
      effects := fun d hd => .inl hd
      replies := fun id reply hmem => .inl hmem
      calls := le_refl _
      id := fun id hid => .inl hid }

/-- An operation is called and comes to the lock. -/
theorem Object.Linear.call (hcode : c.Implements perform) (h : o.Linear c perform init base done) {i : ℕ} {op : O}
    (hidle : o.jobAt i = some .idle) {lock : RwLock.State (Job O R L)}
    (hstep : o.lock.step (lockEvent (c.kind op) i) = some lock) :
    ({ o with
        lock := lock.retag i (.working o.calls op (c.start op))
        calls := o.calls + 1
        history := o.history ++ [.invoke o.calls op] } : Object S O R L).Linear c perform init base done := by
  obtain ⟨hdone, hopen, hunused⟩ := h.unused
  obtain ⟨hactor, hstays, hwants⟩ : (lockEvent (c.kind op) i).actor = i ∧ (lockEvent (c.kind op) i).leaves = false ∧
      (lockEvent (c.kind op) i).wants = some (c.kind op) := by
    unfold lockEvent Code.kind
    split <;> simp [RwLock.Event.actor, RwLock.Event.leaves, RwLock.Event.wants]
  have hshift := RwLock.State.shift_of_step hstep
  have hcalled : .invoke o.calls op ∈ o.history ++ [.invoke o.calls op] :=
    List.mem_append_right _ (List.mem_singleton_self _)
  obtain ⟨kind, holds, hseat⟩ := Object.seat_of_jobAt hidle
  obtain rfl : holds = false := by
    cases hshift with
    | waits hothers hseat' | enters hothers hseat' =>
      rw [hactor, hseat] at hseat'
      exact (Prod.mk.inj (Prod.mk.inj (Option.some.inj hseat')).2).1
    | leaves hothers hseat' hleaves hactive hout =>
      rw [hstays] at hout
      contradiction
  have hwhole : Fits c perform o.data base (o.history ++ [.invoke o.calls op]) done (c.kind op) false
      (.working o.calls op (c.start op)) := ⟨rfl, hcalled, hdone, rfl⟩
  obtain ⟨⟨holds, hown, hfits⟩, hothers, hsettled⟩ := h.fits_after hcode hshift hstays (hactor.symm ▸ hseat)
    (by rw [hwants]; rfl) hwhole
  rw [hactor] at hown hothers
  exact h.moved hidle (.working o.calls op (c.start op))
    { lock := (h.lock.step hstep).retag _ _
      others := fun j hj => by rw [RwLock.State.seat_retag, if_neg hj, hothers j hj]
      own := ⟨c.kind op, holds, by rw [RwLock.State.seat_retag, if_pos rfl, hown]; rfl, hfits⟩
      linearizes := h.linearizes.invoke op hdone
      settled := hsettled
      state := .inl ⟨rfl, rfl⟩
      history := List.subset_append_left _ _
      keeps := List.Subset.refl _
      effects := fun d hd => .inl hd
      replies := fun id reply hmem => .inl (by simpa using hmem)
      calls := Nat.le_succ _
      id := fun id hid => .inr ⟨(Option.some.inj hid).symm, Option.some.inj hid ▸ Nat.lt_succ_self _⟩ }

/-- One statement of a section. -/
theorem Object.Linear.work (h : o.Linear c perform init base done) {i id : ℕ} {kind : Kind} {op : O} {l l' : L}
    {data : S} (hseat : o.lock.seat i = some (kind, true, .working id op l)) (hmore : c.reply l = none)
    (hexec : c.exec (c.reads op) o.data l = some (data, l')) :
    ({ o.go i (.working id op l') with data := data } : Object S O R L).Linear c perform init base done := by
  obtain ⟨hkind, hcalled, hopen, hsection⟩ := h.fits i kind true _ hseat
  have hactive : data = o.data ∨
      o.lock.writerActive = true ∧ ∀ j kind other, j ≠ i → o.lock.seat j ≠ some (kind, true, other) := by
    cases hreads : c.reads op with
    | true =>
      rw [hreads] at hexec
      exact .inl (Prod.mk.inj (Option.some.inj hexec)).1.symm
    | false =>
      have hwrite : kind = .write := by simpa [Code.kind, hreads] using hkind
      subst hwrite
      exact .inr ⟨(h.lock.alone hseat hseat).1, fun j k other hj hother => hj (h.lock.alone hseat hother).2⟩
  exact h.moved (Object.jobAt_of_seat hseat) (.working id op l')
    { lock := h.lock.retag _ _
      others := fun j hj => by
        simp only [Object.go, RwLock.State.seat_retag, if_neg hj]
      own := ⟨kind, true, by
        simp only [Object.go, RwLock.State.seat_retag, if_pos, hseat]
        rfl, hkind, hcalled, hopen, hsection.tail hmore hexec⟩
      linearizes := h.linearizes
      settled := fun hfree => by
        cases hactive with
        | inl hsame => exact hsame.trans (h.settled hfree)
        | inr hwriting =>
          have hboth := hwriting.1.symm.trans hfree
          contradiction
      state := hactive.imp (fun hsame => ⟨hsame, rfl⟩) And.right
      history := List.Subset.refl _
      keeps := List.Subset.refl _
      effects := fun d hd => .inl hd
      replies := fun id reply hmem => .inl hmem
      calls := le_refl _
      id := fun id hid => .inl hid }

/-- A section ends. -/
theorem Object.Linear.leave (h : o.Linear c perform init base done) {i id : ℕ} {woken : Option ℕ} {op : O} {l : L}
    {reply : R} (hjob : o.jobAt i = some (.working id op l)) (hreply : c.reply l = some reply)
    {lock : RwLock.State (Job O R L)} (hstep : o.lock.step (unlockEvent (c.kind op) i woken) = some lock) :
    ({ o with lock := lock.retag i (.returning id reply) } : Object S O R L).Linear c perform init o.data
      (done ++ [⟨id, op, reply⟩]) := by
  obtain ⟨hactor, hleaves⟩ : (unlockEvent (c.kind op) i woken).actor = i ∧
      (unlockEvent (c.kind op) i woken).leaves = true := by
    unfold unlockEvent
    split <;> simp [RwLock.Event.actor, RwLock.Event.leaves]
  cases RwLock.State.shift_of_step hstep with
  | waits hothers hseat hwaits hactive hstays =>
    rw [hleaves] at hstays
    contradiction
  | enters hothers hseat henters hfree hstays =>
    rw [hleaves] at hstays
    contradiction
  | @leaves kind tag hothers hseat hout hactive =>
    rw [hactor] at hothers hseat hout
    obtain rfl : tag = .working id op l := Option.some.inj ((Object.jobAt_of_seat hseat).symm.trans hjob)
    obtain ⟨hkind, hcalled, hopen, hsection⟩ := h.fits i kind true _ hseat
    obtain ⟨hdata, hanswer⟩ := hsection.ended hreply
    have heffect := h.linearizes.effect hcalled hopen
    rw [← hdata, ← hanswer] at heffect
    exact h.moved hjob (.returning id reply)
      { lock := (h.lock.step hstep).retag _ _
        others := fun j hj => by rw [RwLock.State.seat_retag, if_neg hj, hothers j hj]
        own := ⟨.none, false, by rw [RwLock.State.seat_retag, if_pos rfl, hout]; rfl,
          rfl, op, List.mem_append_right _ (List.mem_singleton_self _)⟩
        linearizes := heffect
        settled := fun _ => rfl
        state := by
          cases hreads : c.reads op with
          | true =>
            have hread : kind = .read := by simpa [Code.kind, hreads] using hkind
            exact .inl ⟨rfl, h.settled (h.lock.reading (hread ▸ hseat))⟩
          | false =>
            have hwrite : kind = .write := by simpa [Code.kind, hreads] using hkind
            exact .inr fun j k other hj hother => hj (h.lock.alone (hwrite ▸ hseat) hother).2
        history := List.Subset.refl _
        keeps := List.subset_append_left _ _
        effects := fun d hd => (List.mem_append.mp hd).imp_right fun hlast => by
          rw [List.mem_singleton.mp hlast]
          rfl
        replies := fun id reply hmem => .inl hmem
        calls := le_refl _
        id := fun id hid => .inl hid }

/-- An operation returns. -/
theorem Object.Linear.finish (h : o.Linear c perform init base done) {i id : ℕ} {reply : R}
    (hjob : o.jobAt i = some (.returning id reply)) :
    ({ o.go i .idle with history := o.history ++ [.respond id reply] } : Object S O R L).Linear c perform init base
      done := by
  obtain ⟨kind, holds, hseat⟩ := Object.seat_of_jobAt hjob
  obtain ⟨hkind, op, hdone⟩ := h.fits i kind holds _ hseat
  exact h.moved hjob .idle
    { lock := h.lock.retag _ _
      others := fun j hj => by
        simp only [Object.go, RwLock.State.seat_retag, if_neg hj]
      own := ⟨kind, holds, by
        simp only [Object.go, RwLock.State.seat_retag, if_pos, hseat]
        rfl, hkind⟩
      linearizes := h.linearizes.respond hdone (h.waiting i _ id hjob rfl).2
      settled := h.settled
      state := .inl ⟨rfl, rfl⟩
      history := List.subset_append_left _ _
      keeps := List.Subset.refl _
      effects := fun d hd => .inl hd
      replies := fun id' reply' hmem => by
        refine (List.mem_append.mp hmem).imp_right fun hlast => ⟨?_, rfl⟩
        obtain ⟨rfl, -⟩ := CallEvent.respond.inj (List.mem_singleton.mp hlast)
        rfl
      calls := le_refl _
      id := fun id hid => by contradiction }

/-- One step. -/
theorem Object.Linear.step (hcode : c.Implements perform) (h : o.Linear c perform init base done)
    {e : ObjectEvent O} {o' : Object S O R L} (hstep : o.step c e = some o') :
    ∃ base' later, o'.Linear c perform init base' later := by
  cases e with
  | call i op =>
    simp only [Object.step] at hstep
    split at hstep
    · obtain ⟨lock, hlock, rfl⟩ := Option.map_eq_some_iff.mp hstep
      exact ⟨base, done, h.call hcode ‹_› hlock⟩
    · contradiction
  | recheck i =>
    obtain ⟨lock, hlock, rfl⟩ := Option.map_eq_some_iff.mp hstep
    exact ⟨base, done, h.atLock hcode hlock rfl rfl⟩
  | spurious i =>
    obtain ⟨lock, hlock, rfl⟩ := Option.map_eq_some_iff.mp hstep
    exact ⟨base, done, h.atLock hcode hlock rfl rfl⟩
  | work i =>
    simp only [Object.step] at hstep
    split at hstep
    · split at hstep
      · rename_i hseat hmore
        obtain ⟨⟨data, l'⟩, hexec, rfl⟩ := Option.map_eq_some_iff.mp hstep
        exact ⟨base, done, h.work hseat (Option.isNone_iff_eq_none.mp hmore) hexec⟩
      · contradiction
    · contradiction
  | leave i woken =>
    simp only [Object.step] at hstep
    split at hstep
    · rename_i hjob
      split at hstep
      · obtain ⟨lock, hlock, rfl⟩ := Option.map_eq_some_iff.mp hstep
        exact ⟨o.data, _, h.leave hjob ‹_› hlock⟩
      · contradiction
    · contradiction
  | finish i =>
    simp only [Object.step] at hstep
    split at hstep
    · obtain rfl := Option.some.inj hstep
      exact ⟨base, done, h.finish ‹_›⟩
    · contradiction

/-- Nobody has called the object yet. -/
theorem linear_initial {s : S} (h : o.Initial s) : o.Linear c perform s s [] := by
  obtain ⟨n, rfl⟩ := h
  have hseat : ∀ {i : ℕ} {kind : Kind} {holds : Bool} {job : Job O R L},
      RwLock.State.seat { threads := List.replicate n ⟨.outside, .idle⟩ } i = some (kind, holds, job) →
        kind = .none ∧ job = .idle := by
    intro i kind holds job hi
    obtain ⟨t, hget, ht⟩ := Option.map_eq_some_iff.mp hi
    obtain rfl := List.eq_of_mem_replicate (List.mem_of_getElem? hget)
    obtain ⟨rfl, hrest⟩ := Prod.mk.inj ht
    exact ⟨rfl, (Prod.mk.inj hrest).2.symm⟩
  have hid : ∀ {i : ℕ} {job : Job O R L} {id : ℕ},
      ({ lock := { threads := List.replicate n ⟨.outside, .idle⟩ }, data := s } : Object S O R L).jobAt i = some job →
        job.id ≠ some id := by
    intro i job id hjob
    obtain ⟨kind, holds, hi⟩ := Object.seat_of_jobAt hjob
    rw [(hseat hi).2]
    exact Option.some_ne_none id |>.symm
  refine ⟨RwLock.State.inv_of_outside fun t ht => ?_, linearizes_nil _ _, fun _ => rfl, fun i kind holds job hi => ?_,
    fun i j job job' id hjob _ hown => absurd hown (hid hjob), fun i job id hjob hown => absurd hown (hid hjob),
    fun d hd => absurd hd List.not_mem_nil⟩
  · rw [List.eq_of_mem_replicate ht]
  · obtain ⟨rfl, rfl⟩ := hseat hi
    rfl

/-- An object whose sections, alone, do what it is to do is linearizable in every run without a
statement that is undefined, and with no writer inside its state is the one its operations have led to. -/
theorem linearizable (hcode : c.Implements perform) {s : S}
    (h : Reachable (Object.step c) Always (Object.Initial s) o) :
    ∃ done base, Linearizes perform s o.history done base ∧ (o.lock.writerActive = false → o.data = base) := by
  have hlinear : ∃ base done, o.Linear c perform s base done := by
    induction h with
    | init hinit => exact ⟨s, [], linear_initial hinit⟩
    | step _ _ hstep ih =>
      obtain ⟨base, done, hlinear⟩ := ih
      exact hlinear.step hcode hstep
  obtain ⟨base, done, hlinear⟩ := hlinear
  exact ⟨done, base, hlinear.linearizes, hlinear.settled⟩

/-- The guard that admits calls of some operations only. -/
def Calls (P : O → Prop) (_ : Object S O R L) : ObjectEvent O → Prop
  | .call _ op => P op
  | _ => True

instance (P : O → Prop) [DecidablePred P] (o : Object S O R L) : DecidablePred (Calls P o)
  | .call _ op => inferInstanceAs (Decidable (P op))
  | .recheck _ | .spurious _ | .work _ | .leave _ _ | .finish _ => .isTrue trivial

/-- What a step adds to the history. -/
theorem Object.step_history {e : ObjectEvent O} {o' : Object S O R L} (h : o.step c e = some o') {id : ℕ} {op : O}
    (hcalled : .invoke id op ∈ o'.history) : .invoke id op ∈ o.history ∨ ∃ i, e = .call i op := by
  cases e with
  | call i op' =>
    simp only [Object.step] at h
    split at h
    · obtain ⟨lock, -, rfl⟩ := Option.map_eq_some_iff.mp h
      refine (List.mem_append.mp hcalled).imp_right fun hlast => ⟨i, ?_⟩
      obtain ⟨-, rfl⟩ := CallEvent.invoke.inj (List.mem_singleton.mp hlast)
      rfl
    · contradiction
  | recheck i | spurious i =>
    obtain ⟨lock, -, rfl⟩ := Option.map_eq_some_iff.mp h
    exact .inl hcalled
  | work i =>
    simp only [Object.step] at h
    split at h
    · split at h
      · obtain ⟨_, -, rfl⟩ := Option.map_eq_some_iff.mp h
        exact .inl hcalled
      · contradiction
    · contradiction
  | leave i woken =>
    simp only [Object.step] at h
    split at h
    · split at h
      · obtain ⟨lock, -, rfl⟩ := Option.map_eq_some_iff.mp h
        exact .inl hcalled
      · contradiction
    · contradiction
  | finish i =>
    simp only [Object.step] at h
    split at h
    · obtain rfl := Option.some.inj h
      refine .inl ((List.mem_append.mp hcalled).resolve_right fun hlast => ?_)
      have heq := List.mem_singleton.mp hlast
      contradiction
    · contradiction

/-- Only admitted operations are ever called. -/
theorem calls_admitted {P : O → Prop} {s : S} (h : Reachable (Object.step c) (Calls P) (Object.Initial s) o) {id : ℕ}
    {op : O} (hcalled : .invoke id op ∈ o.history) : P op := by
  induction h with
  | init hinit =>
    obtain ⟨n, rfl⟩ := hinit
    exact absurd hcalled List.not_mem_nil
  | step _ hguard hstep ih =>
    cases Object.step_history hstep hcalled with
    | inl hold => exact ih hold
    | inr hcall =>
      obtain ⟨i, rfl⟩ := hcall
      exact hguard

/-- Whatever statements interleave, there is one order in which the admitted operations, one at a time,
lead to the shared state of the moments without a writer, and in which every operation returns what it
did. Where operations only lead upwards, each returned it below that state. -/
theorem replies_invariant (hcode : c.Implements perform) {s : S} {P : O → Prop} {I : S → Prop}
    {r : S → S → Prop} (htrans : ∀ u v w, r u v → r v w → r u w) (hinit : I s)
    (hstep : ∀ u op, I u → P op → I (perform u op).1 ∧ r u (perform u op).1)
    (h : Reachable (Object.step c) (Calls P) (Object.Initial s) o) :
    ∃ base, (o.lock.writerActive = false → o.data = base) ∧ ∀ id reply, .respond id reply ∈ o.history →
      ∃ op u, P op ∧ I u ∧ r u base ∧ reply = (perform u op).2 := by
  obtain ⟨done, base, hlinearizes, hsettled⟩ := linearizable hcode (h.weaken fun _ _ _ => trivial)
  exact ⟨base, hsettled, fun id reply hreply =>
    hlinearizes.replies htrans hinit hstep (fun _ _ => calls_admitted h) hreply⟩

end

end LockedObject
