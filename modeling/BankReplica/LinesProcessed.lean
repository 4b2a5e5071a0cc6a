import BankReplica.ClientProgram

/-!
# What becomes of the lines a user types

The lines that are read go through the queue to the communication thread, which works on
one at a time. None is lost, doubled or overtaken on the way, and the program ends only
after the end of its input, with all lines processed unless a signal has closed the queue
before.
-/

namespace BankReplica

open Runs WorkQueue

/-- The lines read that are not empty. -/
def ClientProgram.lines (p : ClientProgram) : List Line := p.typed.filter (· ≠ [])

/-- The line that the communication thread works on. -/
def CommunicationPhase.hand : CommunicationPhase → List Line
  | .processing line | .rediscovering line => [line]
  | .fetching | .ended => []

/-- The lines that are read and not processed: the one at work, the one just taken from the queue,
those in the queue and the one about to be put into it. -/
def ClientProgram.unprocessed (p : ClientProgram) : List Line :=
  p.communication.hand ++ (p.queue.stage .communication).leaving ++ p.queue.items ++
    (p.queue.stage .input).entering

/-- What a user of the queue may be in it for. -/
def ClientProgram.purposeOf (p : ClientProgram) : QueueUser → Purpose
  | .input =>
    if p.main = .discovering then .none
    else
      match p.input with
      | .reading => .put
      | .shuttingDown => .close
      | .ended => .none
  | .communication => if p.main ≠ .discovering ∧ p.communication = .fetching then .take else .none
  | .handler _ => if p.interrupts = 0 then .none else .close

/-- Every user of the queue is outside or in it for what its thread is about. -/
def ClientProgram.Roles (p : ClientProgram) : Prop :=
  ∀ i, (p.queue.stage i).purpose = .none ∨ (p.queue.stage i).purpose = p.purposeOf i

/-- The communication thread has found the queue closed and empty. -/
def ClientProgram.Drained (p : ClientProgram) : Prop :=
  p.communication = .ended ∨ p.queue.stage .communication = .returning none

/-- The lines are where they should be, and only the end of the input or a signal closes the queue. -/
structure ClientProgram.Books (p : ClientProgram) : Prop where
  entered : p.queue.accepted ++ (p.queue.stage .input).entering = p.lines
  handed : p.queue.served = p.processed ++ p.communication.hand ++ (p.queue.stage .communication).leaving
  closed : p.queue.closed = true → p.interrupts = 0 → p.input ≠ .reading
  drained : p.Drained → p.interrupts = 0 → p.input ≠ .reading ∧ p.queue.items = []
  joined : p.main = .joiningCommunication ∨ p.main = .ended → p.input = .ended
  finished : p.main = .ended → p.communication = .ended

/-! ## Who is in the queue for what -/

/-- A caller outside has no purpose. -/
theorem purpose_eq_none {a : Stage Line} : a.purpose = .none ↔ a = .outside := by
  cases a <;> simp [Stage.purpose]

section

variable {p q : ClientProgram}

/-- A thread that runs exists and has no handler on top of it. -/
theorem ClientProgram.runs_iff {thread : ClientThread} :
    p.runs thread = true ↔ p.alive thread = true ∧ p.queue.stage (.handler thread) = .outside := by
  simp [ClientProgram.runs]

/-- A thread that runs has been started and has not ended. -/
theorem ClientProgram.started_of_runs (h : p.runs .input = true ∨ p.runs .communication = true) :
    p.main ≠ .discovering := by
  rintro hmain
  simp [ClientProgram.runs, ClientProgram.alive, hmain, MainPhase.started] at h

/-- Only the input thread puts lines in. -/
theorem ClientProgram.Roles.put_only (h : p.Roles) {i : QueueUser} (hi : (p.queue.stage i).purpose = .put) :
    i = .input := by
  have hrole := h i
  rw [hi] at hrole
  cases i with
  | input => rfl
  | _ =>
    simp only [ClientProgram.purposeOf] at hrole
    split at hrole <;> simp at hrole

/-- Only the communication thread takes lines out. -/
theorem ClientProgram.Roles.take_only (h : p.Roles) {i : QueueUser} (hi : (p.queue.stage i).purpose = .take) :
    i = .communication := by
  have hrole := h i
  rw [hi] at hrole
  cases i with
  | communication => rfl
  | input =>
    simp only [ClientProgram.purposeOf] at hrole
    split at hrole
    · simp at hrole
    · split at hrole <;> simp at hrole
  | handler thread =>
    simp only [ClientProgram.purposeOf] at hrole
    split at hrole <;> simp at hrole

/-- Only the input thread after the end of the input, and a signal handler, close the queue. -/
theorem ClientProgram.Roles.close_only (h : p.Roles) {i : QueueUser} (hi : (p.queue.stage i).purpose = .close)
    (hinterrupts : p.interrupts = 0) : p.input ≠ .reading := by
  have hrole := h i
  rw [hi] at hrole
  rintro hinput
  cases i with
  | input =>
    simp only [ClientProgram.purposeOf, hinput] at hrole
    split at hrole <;> simp at hrole
  | communication =>
    simp only [ClientProgram.purposeOf] at hrole
    split at hrole <;> simp at hrole
  | handler thread => simp [ClientProgram.purposeOf, hinterrupts] at hrole

/-- A caller goes on to what its thread is about. -/
theorem ClientProgram.Roles.goto (h : p.Roles) {i : QueueUser} {a : Stage Line}
    (hqueue : q.queue = p.queue.goto i a) (ha : a.purpose = .none ∨ a.purpose = q.purposeOf i)
    (hothers : ∀ j ≠ i, p.purposeOf j = .none ∨ q.purposeOf j = p.purposeOf j) : q.Roles := by
  intro j
  rw [hqueue, State.goto_stage]
  split
  · rename_i hj
    rw [hj]
    exact ha
  · rename_i hj
    cases hothers j hj with
    | inl hnone =>
      have hrole := h j
      rw [hnone, or_self] at hrole
      exact .inl hrole
    | inr hsame =>
      rw [hsame]
      exact h j

/-- Nobody goes on in the queue. -/
theorem ClientProgram.Roles.keep (h : p.Roles) (hqueue : q.queue = p.queue)
    (hkept : ∀ i, p.queue.stage i = .outside ∨ p.purposeOf i = .none ∨ q.purposeOf i = p.purposeOf i) :
    q.Roles := by
  intro i
  rw [hqueue]
  rcases hkept i with houtside | hnone | hsame
  · exact .inl (purpose_eq_none.mpr houtside)
  · have hrole := h i
    rw [hnone, or_self] at hrole
    exact .inl hrole
  · rw [hsame]
    exact h i

/-- Every step keeps the threads to their roles. -/
theorem ClientProgram.Roles.step (h : p.Roles) {e : ProgramEvent} (hstep : p.step e = some q) : q.Roles := by
  cases ClientProgram.step_cases hstep with
  | discovered addr hruns hmain hstoring => exact h.keep rfl fun i => .inr (.inr (by cases i <;> rfl))
  | discoveryFails hruns hmain hstoring =>
    refine h.keep rfl fun i => ?_
    cases i <;> simp [ClientProgram.purposeOf, hmain]
  | readEnd queue hruns hinput hqueue =>
    have hstarted := ClientProgram.started_of_runs (.inl hruns)
    cases State.step_cases hqueue with
    | close i hi =>
      refine h.goto rfl (.inr ?_) fun j hj => .inr ?_
      · simp [ClientProgram.purposeOf, Stage.purpose, hstarted]
      · cases j <;> first | exact absurd rfl hj | rfl
  | readEmpty hruns hinput houtside => exact h.keep rfl fun i => .inr (.inr (by cases i <;> rfl))
  | readLine line queue hruns hinput hline hqueue =>
    have hstarted := ClientProgram.started_of_runs (.inl hruns)
    cases State.step_cases hqueue with
    | put i a hi =>
      refine h.goto rfl (.inr ?_) fun j hj => .inr (by cases j <;> rfl)
      simp [ClientProgram.purposeOf, Stage.purpose, hstarted, hinput]
  | inputEnds hruns hinput houtside =>
    refine h.keep rfl fun i => ?_
    cases i <;> simp [ClientProgram.purposeOf, houtside]
  | fetch queue hruns hcomm hqueue =>
    have hstarted := ClientProgram.started_of_runs (.inr hruns)
    cases State.step_cases hqueue with
    | take i hi =>
      refine h.goto rfl (.inr ?_) fun j hj => .inr (by cases j <;> rfl)
      simp [ClientProgram.purposeOf, Stage.purpose, hstarted, hcomm]
  | fetchedNone queue hruns hstage hqueue =>
    cases State.step_cases hqueue with
    | left i result hi =>
      refine h.goto rfl (.inl rfl) fun j hj => .inr ?_
      cases j <;> first | exact absurd rfl hj | rfl
  | fetchedInvalid line queue hruns hstage hqueue hline =>
    cases State.step_cases hqueue with
    | left i result hi =>
      refine h.goto rfl (.inl rfl) fun j hj => .inr ?_
      cases j <;> first | exact absurd rfl hj | rfl
  | fetchedValid line queue command outcome hruns hstage hqueue hline houtcome =>
    cases State.step_cases hqueue with
    | left i result hi =>
      refine h.goto rfl (.inl rfl) fun j hj => .inr ?_
      cases j <;> first | exact absurd rfl hj | rfl
  | client line event outcome hruns hcomm hevent houtcome =>
    refine h.keep (ClientProgram.after_queue ..) fun i => .inr ?_
    cases i <;> simp [ClientProgram.purposeOf, hcomm]
  | copyAddress line command retries hruns hnone hcomm hphase =>
    exact h.keep rfl fun i => .inr (.inr (by cases i <;> rfl))
  | send leftover line dest command retries hruns hcomm hdest hphase =>
    exact h.keep rfl fun i => .inr (.inr (by cases i <;> rfl))
  | rediscovered addr line hruns hcomm hstoring => exact h.keep rfl fun i => .inr (.inr (by cases i <;> rfl))
  | rediscoveryFails line hruns hcomm hstoring =>
    refine h.keep rfl fun i => ?_
    cases i <;> simp [ClientProgram.purposeOf, hcomm]
  | named addr thread hthread hruns hstoring => exact h.keep rfl fun i => .inr (.inr (by cases i <;> rfl))
  | resolved thread hthread hruns hstoring => exact h.keep rfl fun i => .inr (.inr (by cases i <;> rfl))
  | started addr hruns hmain hstoring =>
    refine h.keep rfl fun i => ?_
    cases i <;> simp [ClientProgram.purposeOf, hmain]
  | resumed addr line hruns hcomm hstoring =>
    refine h.keep rfl fun i => ?_
    cases i <;> simp [ClientProgram.purposeOf, hcomm]
  | spurious i queue hrunning hqueue =>
    cases State.step_cases hqueue with
    | spurious i hi =>
      refine h.goto rfl ?_ fun j hj => .inr (by cases j <;> rfl)
      have hrole := h i
      rw [hi] at hrole
      exact hrole
  | queue event i queue hrunning hown hfree hqueue =>
    intro j
    cases State.purpose_step hown hqueue j with
    | inl hsame => exact hsame ▸ h j
    | inr hends => exact .inl (purpose_eq_none.mpr hends.1)
  | sigint thread queue hruns hqueue =>
    cases State.step_cases hqueue with
    | close i hi =>
      refine h.goto rfl (.inr ?_) fun j hj => ?_
      · simp [ClientProgram.purposeOf, Stage.purpose]
      · cases j with
        | handler other => by_cases hfirst : p.interrupts = 0 <;> simp [ClientProgram.purposeOf, hfirst]
        | _ => exact .inr rfl
  | arrive ack hrunning => exact h.keep rfl fun i => .inr (.inr (by cases i <;> rfl))
  | announced addr hruns => exact h.keep rfl fun i => .inr (.inr (by cases i <;> rfl))
  | joinInput hruns hmain hinput =>
    refine h.keep rfl fun i => .inr (.inr ?_)
    cases i <;> simp [ClientProgram.purposeOf, hmain]
  | joinCommunication hruns hmain hcomm =>
    refine h.keep rfl fun i => .inr (.inr ?_)
    cases i <;> simp [ClientProgram.purposeOf, hmain]

/-! ## Where the lines are -/

/-- A user of the queue with nothing to do there is outside. -/
theorem ClientProgram.Roles.outside (h : p.Roles) {i : QueueUser} (hi : p.purposeOf i = .none) :
    p.queue.stage i = .outside := by
  have hrole := h i
  rw [hi, or_self] at hrole
  exact purpose_eq_none.mp hrole

/-- The communication thread is outside the queue unless it fetches a line. -/
theorem ClientProgram.Roles.communication_outside (h : p.Roles) (hcomm : p.communication ≠ .fetching) :
    p.queue.stage .communication = .outside := h.outside (by simp [ClientProgram.purposeOf, hcomm])

/-- A caller that is not in the queue to put an item in has none to put in. -/
theorem entering_eq_nil {a : Stage Line} (h : a.purpose ≠ .put) : a.entering = [] := by
  cases a <;> simp_all [Stage.purpose, Stage.entering]

/-- The input thread puts lines in only while it reads. -/
theorem ClientProgram.Roles.reading (h : p.Roles) (hput : (p.queue.stage .input).purpose = .put) :
    p.input = .reading := by
  have hrole := h .input
  rw [hput] at hrole
  simp only [ClientProgram.purposeOf] at hrole
  split at hrole
  · simp at hrole
  · split at hrole
    · assumption
    · simp at hrole
    · simp at hrole

/-- The input thread has no line to put in unless it reads. -/
theorem ClientProgram.Roles.entering (h : p.Roles) (hinput : p.input ≠ .reading) :
    (p.queue.stage .input).entering = [] :=
  entering_eq_nil fun hput => hinput (h.reading hput)

/-- The end of the work on a line is when it counts as processed. -/
theorem ClientProgram.after_hand {line : Line} (hcomm : p.communication = .processing line)
    (outcome : ClientOutcome) :
    (p.after line outcome).processed ++ (p.after line outcome).communication.hand = p.processed ++ [line] := by
  unfold ClientProgram.after
  split_ifs <;> simp [CommunicationPhase.hand, hcomm]

/-- A step inside a call keeps the books. -/
theorem ClientProgram.Books.queue_step (h : p.Books) (hroles : p.Roles) (hinv : p.queue.Inv)
    {event : Event QueueUser Line} {i : QueueUser} {queue : State QueueUser Line} (hown : event.own = some i)
    (hqueue : p.queue.step event = some queue) (hroles' : ClientProgram.Roles { p with queue := queue }) :
    ClientProgram.Books { p with queue := queue } := by
  obtain ⟨out, hserved, hleaving⟩ := State.served_step hown hqueue fun k => hroles.take_only (i := k)
  have haccepted := State.accepted_step hown hqueue fun k => hroles.put_only (i := k)
  have hclose : queue.closed = true → p.interrupts = 0 → p.input ≠ .reading := by
    intro hclosed hinterrupts
    cases State.turn_step hown hqueue with
    | set hi => exact hroles.close_only (by rw [hi]; rfl) hinterrupts
    | locked hi haccepted hserved hsame => exact h.closed (hsame ▸ hclosed) hinterrupts
    | pushed a hi hi' haccepted hserved hsame => exact h.closed (hsame ▸ hclosed) hinterrupts
    | served a hi hi' haccepted hserved hsame => exact h.closed (hsame ▸ hclosed) hinterrupts
    | drained hi hi' hitems hended haccepted hserved hsame => exact h.closed hended hinterrupts
    | slept hi hi' hopen haccepted hserved hsame => exact h.closed (hsame ▸ hclosed) hinterrupts
    | notified hi hi' haccepted hserved hsame => exact h.closed (hsame ▸ hclosed) hinterrupts
  have hkept : p.input ≠ .reading → (queue.stage .communication).leaving = [] → queue.items = p.queue.items := by
    intro hinput hnone
    have horder := (hinv.step hqueue).order
    rw [hroles.entering hinput, hroles'.entering hinput, List.append_nil, List.append_nil, hinv.order] at haccepted
    rw [hnone] at hleaving
    rw [(List.append_eq_nil_iff.mp hleaving.symm).2, List.append_nil] at hserved
    rw [haccepted, hserved] at horder
    exact (List.append_cancel_left horder).symm
  refine ⟨haccepted.trans h.entered, ?_, hclose, ?_, h.joined, h.finished⟩
  · simp only [hserved, hleaving, h.handed, List.append_assoc]
  · intro hdrained hinterrupts
    have hnone : (queue.stage .communication).leaving = [] := by
      cases hdrained with
      | inl hcomm => rw [hroles'.communication_outside (by rw [hcomm]; decide)]; rfl
      | inr hreturning => rw [hreturning]; rfl
    have hbefore : p.input ≠ .reading ∧ p.queue.items = [] := by
      cases hdrained with
      | inl hcomm => exact h.drained (.inl hcomm) hinterrupts
      | inr hreturning =>
        cases State.returning_step hown hqueue hreturning with
        | inl hreturning => exact h.drained (.inr hreturning) hinterrupts
        | inr hempty => exact ⟨h.closed hempty.1 hinterrupts, hempty.2⟩
    exact ⟨hbefore.1, (hkept hbefore.1 hnone).trans hbefore.2⟩

/-- The communication thread fetches when it is in the queue. -/
theorem ClientProgram.Roles.fetching (h : p.Roles) (hstage : p.queue.stage .communication ≠ .outside) :
    p.communication = .fetching := by
  by_contra hcomm
  exact hstage (h.communication_outside hcomm)

/-- The communication thread takes the line it was handed. -/
theorem ClientProgram.Books.handOver (h : p.Books) (hroles : p.Roles) {line : Line}
    (hstage : p.queue.stage .communication = .returning (some line)) {communication : CommunicationPhase}
    {processed : List Line} (hhand : processed ++ communication.hand = p.processed ++ [line])
    (hcomm : communication ≠ .ended) {process : ClientProcess} :
    ClientProgram.Books
      { p with
        queue := p.queue.goto .communication .outside
        communication := communication
        processed := processed
        process := process } := by
  have hfetching := hroles.fetching (by rw [hstage]; simp)
  have hhanded := h.handed
  simp only [hstage, hfetching, Stage.leaving, CommunicationPhase.hand, List.append_nil] at hhanded
  refine ⟨?_, ?_, h.closed, ?_, h.joined, ?_⟩
  · simpa [State.goto_stage, ClientProgram.lines] using h.entered
  · simp only [hhand, State.goto_stage, if_true, Stage.leaving, List.append_nil]
    exact hhanded
  · simp [ClientProgram.Drained, State.goto_stage, hcomm]
  · intro hmain
    rw [h.finished hmain] at hfetching
    contradiction

/-- The end of a new discovery ends the work on its line. -/
theorem ClientProgram.Books.endRediscovery (h : p.Books) (hroles : p.Roles) {line : Line}
    (hcomm : p.communication = .rediscovering line) (hcomm' : q.communication = .fetching)
    (hprocessed : q.processed = p.processed ++ [line]) (hqueue : q.queue = p.queue) (htyped : q.typed = p.typed)
    (hmain : q.main = p.main) (hinput : q.input = p.input) (hinterrupts : q.interrupts = p.interrupts) :
    q.Books := by
  have houtside := hroles.communication_outside (by simp [hcomm])
  refine ⟨?_, ?_, ?_, ?_, ?_, fun hended => ?_⟩
  · rw [hqueue, ClientProgram.lines, htyped]
    exact h.entered
  · rw [hqueue, hprocessed, hcomm']
    simpa [hcomm, CommunicationPhase.hand] using h.handed
  · rw [hqueue, hinput, hinterrupts]
    exact h.closed
  · simp [ClientProgram.Drained, hcomm', hqueue, houtside]
  · rw [hmain, hinput]
    exact h.joined
  · rw [h.finished (hmain ▸ hended)] at hcomm
    contradiction

/-- Every step keeps the books. -/
theorem ClientProgram.Books.step (h : p.Books) (hroles : p.Roles) (hinv : p.queue.Inv) {e : ProgramEvent}
    (hstep : p.step e = some q) : q.Books := by
  cases ClientProgram.step_cases hstep with
  | discovered addr hruns hmain hstoring => exact ⟨h.entered, h.handed, h.closed, h.drained, h.joined, h.finished⟩
  | discoveryFails hruns hmain hstoring => exact ⟨h.entered, h.handed, h.closed, h.drained, by simp, by simp⟩
  | readEnd queue hruns hinput hqueue =>
    cases State.step_cases hqueue with
    | close i hi =>
      refine ⟨?_, ?_, by simp, fun hdrained hinterrupts => ⟨by simp, ?_⟩, fun hmain => ?_, h.finished⟩
      · simpa [State.goto_stage, hi, Stage.entering, ClientProgram.lines] using h.entered
      · simpa [State.goto_stage] using h.handed
      · exact (h.drained (by simpa [ClientProgram.Drained, State.goto_stage] using hdrained) hinterrupts).2
      · have hended := h.joined hmain
        rw [hinput] at hended
        contradiction
  | readEmpty hruns hinput houtside =>
    refine ⟨?_, h.handed, h.closed, h.drained, h.joined, h.finished⟩
    simpa [ClientProgram.lines] using h.entered
  | readLine line queue hruns hinput hline hqueue =>
    cases State.step_cases hqueue with
    | put i a hi =>
      have hentered := h.entered
      simp only [hi, Stage.entering, List.append_nil] at hentered
      refine ⟨?_, ?_, h.closed, fun hdrained => h.drained ?_, h.joined, h.finished⟩
      · simp only [State.goto_stage, if_true, Stage.entering, ClientProgram.lines, List.filter_append]
        rw [List.filter_cons_of_pos (by simpa using hline), List.filter_nil]
        exact congrArg (· ++ [line]) hentered
      · simpa [State.goto_stage] using h.handed
      · simpa [ClientProgram.Drained, State.goto_stage] using hdrained
  | inputEnds hruns hinput houtside =>
    exact ⟨h.entered, h.handed, by simp, fun hdrained hinterrupts => ⟨by simp, (h.drained hdrained hinterrupts).2⟩,
      fun _ => rfl, h.finished⟩
  | fetch queue hruns hcomm hqueue =>
    cases State.step_cases hqueue with
    | take i hi =>
      refine ⟨?_, ?_, h.closed, ?_, h.joined, h.finished⟩
      · simpa [State.goto_stage, ClientProgram.lines] using h.entered
      · simpa [State.goto_stage, hi, Stage.leaving] using h.handed
      · simp [ClientProgram.Drained, State.goto_stage, hcomm]
  | fetchedNone queue hruns hstage hqueue =>
    cases State.step_cases hqueue with
    | left i result hi =>
      have hcomm := hroles.fetching (by rw [hstage]; simp)
      refine ⟨?_, ?_, h.closed, fun _ => h.drained (.inr hstage), h.joined, fun _ => rfl⟩
      · simpa [State.goto_stage, ClientProgram.lines] using h.entered
      · simpa [State.goto_stage, hstage, hcomm, Stage.leaving, CommunicationPhase.hand] using h.handed
  | fetchedInvalid line queue hruns hstage hqueue hline =>
    cases State.step_cases hqueue with
    | left i result hi => exact h.handOver hroles hstage (List.append_nil _) (by simp)
  | fetchedValid line queue command outcome hruns hstage hqueue hline houtcome =>
    cases State.step_cases hqueue with
    | left i result hi => exact h.handOver hroles hstage rfl (by simp)
  | client line event outcome hruns hcomm hevent houtcome =>
    have hended : (p.after line outcome).communication ≠ .ended := by
      unfold ClientProgram.after
      split_ifs <;> simp [hcomm]
    have houtside := hroles.communication_outside (by simp [hcomm])
    refine ⟨?_, ?_, ?_, ?_, ?_, ?_⟩
    · simpa [ClientProgram.lines] using h.entered
    · have hhanded := h.handed
      simp only [hcomm, CommunicationPhase.hand] at hhanded
      rw [ClientProgram.after_queue, ClientProgram.after_hand hcomm]
      exact hhanded
    · simpa using h.closed
    · simp [ClientProgram.Drained, hended, houtside]
    · simpa using h.joined
    · intro hmain
      rw [h.finished (by simpa using hmain)] at hcomm
      contradiction
  | copyAddress line command retries hruns hnone hcomm hphase =>
    exact ⟨h.entered, h.handed, h.closed, h.drained, h.joined, h.finished⟩
  | send leftover line dest command retries hruns hcomm hdest hphase =>
    exact ⟨h.entered, h.handed, h.closed, h.drained, h.joined, h.finished⟩
  | rediscovered addr line hruns hcomm hstoring =>
    exact ⟨h.entered, h.handed, h.closed, h.drained, h.joined, h.finished⟩
  | rediscoveryFails line hruns hcomm hstoring => exact h.endRediscovery hroles hcomm rfl rfl rfl rfl rfl rfl rfl
  | named addr thread hthread hruns hstoring =>
    exact ⟨h.entered, h.handed, h.closed, h.drained, h.joined, h.finished⟩
  | resolved thread hthread hruns hstoring =>
    exact ⟨h.entered, h.handed, h.closed, h.drained, h.joined, h.finished⟩
  | started addr hruns hmain hstoring => exact ⟨h.entered, h.handed, h.closed, h.drained, by simp, by simp⟩
  | resumed addr line hruns hcomm hstoring => exact h.endRediscovery hroles hcomm rfl rfl rfl rfl rfl rfl rfl
  | spurious i queue hrunning hqueue =>
    cases State.step_cases hqueue with
    | spurious i hi =>
      have hpurpose : (p.queue.stage i).purpose = .take := by rw [hi]; rfl
      obtain rfl := hroles.take_only hpurpose
      have hcomm := hroles.fetching (by rw [hi]; simp)
      refine ⟨?_, ?_, h.closed, ?_, h.joined, h.finished⟩
      · simpa [State.goto_stage, ClientProgram.lines] using h.entered
      · simpa [State.goto_stage, hi, Stage.leaving] using h.handed
      · simp [ClientProgram.Drained, State.goto_stage, hcomm]
  | queue event i queue hrunning hown hfree hqueue =>
    exact h.queue_step hroles hinv hown hqueue (hroles.step hstep)
  | sigint thread queue hruns hqueue =>
    cases State.step_cases hqueue with
    | close i hi =>
      refine ⟨?_, ?_, by simp, by simp, h.joined, h.finished⟩
      · simpa [State.goto_stage, ClientProgram.lines] using h.entered
      · simpa [State.goto_stage] using h.handed
  | arrive ack hrunning => exact ⟨h.entered, h.handed, h.closed, h.drained, h.joined, h.finished⟩
  | announced addr hruns => exact ⟨h.entered, h.handed, h.closed, h.drained, h.joined, h.finished⟩
  | joinInput hruns hmain hinput => exact ⟨h.entered, h.handed, h.closed, h.drained, fun _ => hinput, by simp⟩
  | joinCommunication hruns hmain hcomm =>
    exact ⟨h.entered, h.handed, h.closed, h.drained, fun _ => h.joined (.inl hmain), fun _ => hcomm⟩

/-- A step leaves the queue alone or is a step of the queue. -/
theorem ClientProgram.queue_of_step {e : ProgramEvent} (hstep : p.step e = some q) :
    q.queue = p.queue ∨ ∃ event, p.queue.step event = some q.queue := by
  cases ClientProgram.step_cases hstep with
  | client line event outcome => exact .inl (ClientProgram.after_queue ..)
  | readEnd queue hruns hinput hqueue => exact .inr ⟨_, hqueue⟩
  | readLine line queue hruns hinput hline hqueue => exact .inr ⟨_, hqueue⟩
  | fetch queue hruns hcomm hqueue => exact .inr ⟨_, hqueue⟩
  | fetchedNone queue hruns hstage hqueue => exact .inr ⟨_, hqueue⟩
  | fetchedInvalid line queue hruns hstage hqueue => exact .inr ⟨_, hqueue⟩
  | fetchedValid line queue command outcome hruns hstage hqueue => exact .inr ⟨_, hqueue⟩
  | spurious i queue hrunning hqueue => exact .inr ⟨_, hqueue⟩
  | queue event i queue hrunning hown hfree hqueue => exact .inr ⟨_, hqueue⟩
  | sigint thread queue hruns hqueue => exact .inr ⟨_, hqueue⟩
  | _ => exact .inl rfl

end

/-- What holds of the queue and its users throughout a run. -/
structure ClientProgram.Inv (p : ClientProgram) : Prop where
  queue : p.queue.Inv
  roles : p.Roles
  books : p.Books

/-- A program before `start` has its books in order. -/
theorem ClientProgram.Fresh.inv {p : ClientProgram} (h : p.Fresh) : p.Inv := by
  obtain ⟨port, rfl⟩ := h
  refine ⟨State.inv_initial, fun i => .inl rfl, ?_⟩
  constructor <;> simp [ClientProgram.lines, ClientProgram.Drained, Stage.entering, Stage.leaving,
      CommunicationPhase.hand]

/-- Every step keeps the invariant. -/
theorem ClientProgram.Inv.step {p q : ClientProgram} (h : p.Inv) {e : ProgramEvent} (hstep : p.step e = some q) :
    q.Inv := by
  refine ⟨?_, h.roles.step hstep, h.books.step h.roles h.queue hstep⟩
  cases ClientProgram.queue_of_step hstep with
  | inl hsame => exact hsame ▸ h.queue
  | inr hqueue =>
    obtain ⟨event, hqueue⟩ := hqueue
    exact h.queue.step hqueue

/-- The invariant holds in every run. -/
theorem ClientProgram.Reachable.inv {p : ClientProgram} (h : p.Reachable) : p.Inv :=
  Runs.Reachable.invariant (fun _ hfresh => hfresh.inv) (fun _ _ _ hinv _ hstep => hinv.step hstep) h

/-- The lines read are those processed and those on their way. -/
theorem ClientProgram.Inv.lines_eq {p : ClientProgram} (h : p.Inv) : p.lines = p.processed ++ p.unprocessed := by
  rw [← h.books.entered, h.queue.order, h.books.handed]
  simp only [ClientProgram.unprocessed, List.append_assoc]

/-- In every run the lines read are those processed and, behind them, those still on their way,
each once and in order. The program ends only after its input has, and unless it was interrupted
it has processed every line by then. -/
theorem ClientProgram.lines_processed {p : ClientProgram} (h : p.Reachable) :
    p.lines = p.processed ++ p.unprocessed ∧
      (p.main = .ended → p.input = .ended ∧ (p.interrupts = 0 → p.processed = p.lines)) := by
  have hinv := h.inv
  refine ⟨hinv.lines_eq, fun hmain => ?_⟩
  have hinput := hinv.books.joined (.inr hmain)
  have hcomm := hinv.books.finished hmain
  refine ⟨hinput, fun hinterrupts => ?_⟩
  have hempty := (hinv.books.drained (.inl hcomm) hinterrupts).2
  have houtside := hinv.roles.communication_outside (by rw [hcomm]; decide)
  rw [hinv.lines_eq, ClientProgram.unprocessed, hcomm, houtside, hempty, hinv.roles.entering (by rw [hinput]; decide)]
  simp [CommunicationPhase.hand, Stage.leaving]

/-- A line without a command. -/
def strayLine : Line := [111, 105]

/-- The line `10.0.0.9 7`. -/
def paymentLine : Line := [49, 48, 46, 48, 46, 48, 46, 57, 32, 55]

/-- The input thread reads a line and puts it into the queue. -/
def enterLine (line : Line) (woken : Option QueueUser) : List ProgramEvent :=
  [.read (some line), .queue (.lock .input), .queue (.work .input), .queue (.notifyOne .input woken)]

/-- The input ends. -/
def endInput : List ProgramEvent :=
  [.read none, .queue (.lock .input), .queue (.work .input), .queue (.notifyAll .input), .inputEnds]

/-- The communication thread takes a line that is there, or finds the queue at its end. -/
def fetchLine : List ProgramEvent :=
  [.fetch, .queue (.lock .communication), .queue (.work .communication), .fetched]

/-- `discoverServer` finds a server for `start`. -/
def findServer (addr : InAddr) : List ProgramEvent := [.discovered addr, .store, .store, .store]

/-- A turn of the communication thread up to its packet. -/
def sendPacket (leftover : InAddr) : List ProgramEvent := [.copyAddress, .client (.send leftover)]

/-- The communication thread sends a request and gets no answer until it gives up. -/
def unanswered : List ProgramEvent :=
  (List.range maxRetries).flatMap fun _ => sendPacket ⟨0, 0, 0, 0⟩ ++ [.client .timeout]

/-- The communication thread waits before the first line comes, and the input ends while it works. -/
def shortSession : List ProgramEvent :=
  findServer ⟨10, 0, 0, 1⟩ ++ [.fetch, .queue (.lock .communication), .queue (.work .communication)] ++
    enterLine strayLine (some .communication) ++ [.queue (.lock .communication), .queue (.work .communication)] ++
    [.read (some [])] ++ enterLine paymentLine none ++ [.fetched] ++ fetchLine ++ endInput ++ unanswered ++
    fetchLine ++ [.joinInput, .joinCommunication]

/-- A session that ends with all lines processed, the one without a command and the other. -/
theorem ClientProgram.lines_processed_session :
    ∃ p : ClientProgram, p.Reachable ∧ p.main = .ended ∧ p.processed = [strayLine, paymentLine] ∧
      p.processed = p.lines := by
  obtain ⟨p, hreach, htest⟩ := exists_reachable_of_replay ClientProgram.step Always ClientProgram.Fresh
    (s := { port := 4000 }) shortSession
    (fun p => p.main = .ended ∧ p.interrupts = 0 ∧ p.processed = [strayLine, paymentLine]) ⟨4000, rfl⟩
    (by decide +kernel)
  obtain ⟨hmain, hinterrupts, hprocessed⟩ := of_decide_eq_true htest
  exact ⟨p, hreach, hmain, hprocessed, ((ClientProgram.lines_processed hreach).2 hmain).2 hinterrupts⟩

end BankReplica
