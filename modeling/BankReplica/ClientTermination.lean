import BankReplica.LinesProcessed

/-!
# When a client program ends

A signal handler that interrupts a thread inside a section of `queue_mutex` waits for the
mutex that the thread beneath it holds, and neither goes on any more. Without that, nobody
is stuck but in a new discovery, which waits for its answer without a timeout: after the end
of the input the threads finish what is in the queue within a bounded number of steps, and
the program ends.
-/

namespace BankReplica

open Runs WorkQueue

/-- The user of the queue that a thread itself is. -/
def ClientThread.user : ClientThread → Option QueueUser
  | .input => some .input
  | .communication => some .communication
  | .main | .announcement => none

/-- A signal handler is on top of a thread that holds `queue_mutex`. -/
def ClientProgram.Jammed (p : ClientProgram) : Prop :=
  ∃ thread, ∃ i ∈ thread.user, (p.queue.stage i).Holds ∧ p.queue.stage (.handler thread) ≠ .outside

/-- The steps that the program takes by itself. -/
def ProgramEvent.own : ProgramEvent → Bool
  | .inputEnds | .fetch | .fetched | .copyAddress | .client _ | .store | .joinInput | .joinCommunication => true
  | .queue event => event.own.isSome
  | .discovered _ | .discoveryFails | .read _ | .rediscovered _ | .rediscoveryFails | .sigint _ | .arrive _
  | .announced _ => false

/-- The steps a line may take after it was handed to the communication thread. -/
def lineSteps : ℕ := 23

/-- What the input thread still has to do, the end of its input included. -/
def InputPhase.weight : InputPhase → ℕ
  | .reading => 17
  | .shuttingDown => 1
  | .ended => 0

def MainPhase.weight : MainPhase → ℕ
  | .discovering => 3
  | .joiningInput => 2
  | .joiningCommunication => 1
  | .ended | .failed => 0

/-- What is left of a command. -/
def ClientPhase.weight : ClientPhase → ℕ
  | .idle => 0
  | .sending _ retries => 8 + 3 * (maxRetries - retries)
  | .receiving _ retries => 6 + 3 * (maxRetries - retries)

/-- What is left of storing an answer. -/
def Storing.weight : Storing → ℕ
  | .answered _ => 3
  | .named => 2
  | .resolved _ => 1

/-- What the communication thread still has to do outside the queue. -/
def ClientProgram.commWeight (p : ClientProgram) : ℕ :=
  match p.communication with
  | .fetching => if p.queue.stage .communication = .outside then 4 else 1
  | .processing _ => p.process.phase.weight - if p.currentServerAddr = none then 0 else 1
  | .rediscovering _ => 5
  | .ended => 0

/-- The steps of its own that the program can still take, at most. -/
def ClientProgram.work (p : ClientProgram) : ℕ :=
  p.queue.work lineSteps + p.commWeight + (p.storing.map Storing.weight).getD 0 + p.input.weight + p.main.weight

/-- A handler has a thread beneath it and waits for the mutex if that holds it; the queue is closed
behind the last line; the client is at work on a line or idle; `server_sock_addr` is copied for a
packet, and an answer is stored for a discovery. -/
structure ClientProgram.Threads (p : ClientProgram) : Prop where
  hosts : p.main.running = true → ∀ thread, p.queue.stage (.handler thread) ≠ .outside → p.alive thread = true
  waits : ∀ thread, ∀ i ∈ thread.user, (p.queue.stage i).Holds →
    p.queue.stage (.handler thread) = .outside ∨ p.queue.stage (.handler thread) = .closing
  closed : p.input ≠ .reading → p.queue.stage .input = .outside ∨ p.queue.stage .input = .notifyingAll →
    p.queue.closed = true
  busy : p.process.phase ≠ .idle ↔ ∃ line, p.communication = .processing line
  copied : p.currentServerAddr ≠ none → ∃ command retries, p.process.phase = .sending command retries
  storing : p.storing ≠ none → p.main = .discovering ∨ ∃ line, p.communication = .rediscovering line

/-- What a step of the program is for the queue. -/
inductive QueueMove (p : ClientProgram) (e : ProgramEvent) (q : ClientProgram) : Prop
  | still (hqueue : q.queue = p.queue)
  /-- A thread calls, or returns from a call. -/
  | call (i : QueueUser) (thread : ClientThread) (a : Stage Line) (huser : thread.user = some i)
      (hruns : p.runs thread = true) (ha : ¬ a.Holds)
      (hi : p.queue.stage i = .outside ∨ ∃ result, p.queue.stage i = .returning result)
      (hqueue : q.queue = p.queue.goto i a)
  | signal (thread : ClientThread) (he : e = .sigint thread) (hruns : p.runs thread = true)
      (hi : p.queue.stage (.handler thread) = .outside) (hqueue : q.queue = p.queue.goto (.handler thread) .closing)
  | spurious (i : QueueUser) (hi : p.queue.stage i = .asleep) (hqueue : q.queue = p.queue.goto i .woken)
  | own (event : Event QueueUser Line) (i : QueueUser) (he : e = .queue event) (hown : event.own = some i)
      (hfree : p.free i = true) (hqueue : p.queue.step event = some q.queue)

section

variable {p q : ClientProgram} {e : ProgramEvent}

/-! ## Threads and the handlers on top of them -/

/-- A caller before a section does not hold the mutex. -/
theorem not_holds_of_kind {a : Stage Line} (ha : a.kind = .idle ∨ a.kind = .stirring) : ¬ a.Holds := by
  cases ha with
  | inl hidle => simp [Stage.Holds, hidle]
  | inr hstirring => simp [Stage.Holds, hstirring]

/-- A step is one of these for the queue. -/
theorem ClientProgram.queueMove (hstep : p.step e = some q) : QueueMove p e q := by
  cases ClientProgram.step_cases hstep with
  | readEnd queue hruns hinput hqueue =>
    cases State.step_cases hqueue with
    | close i hi => exact .call .input .input .closing rfl hruns (not_holds_of_kind (.inl rfl)) (.inl hi) rfl
  | readLine line queue hruns hinput hline hqueue =>
    cases State.step_cases hqueue with
    | put i a hi => exact .call .input .input (.putting line) rfl hruns (not_holds_of_kind (.inl rfl)) (.inl hi) rfl
  | fetch queue hruns hcomm hqueue =>
    cases State.step_cases hqueue with
    | take i hi =>
      exact .call .communication .communication .taking rfl hruns (not_holds_of_kind (.inl rfl)) (.inl hi) rfl
  | fetchedNone queue hruns hstage hqueue =>
    cases State.step_cases hqueue with
    | left i result hi =>
      exact .call .communication .communication .outside rfl hruns (not_holds_of_kind (.inl rfl)) (.inr ⟨_, hi⟩) rfl
  | fetchedInvalid line queue hruns hstage hqueue hline =>
    cases State.step_cases hqueue with
    | left i result hi =>
      exact .call .communication .communication .outside rfl hruns (not_holds_of_kind (.inl rfl)) (.inr ⟨_, hi⟩) rfl
  | fetchedValid line queue command outcome hruns hstage hqueue hline houtcome =>
    cases State.step_cases hqueue with
    | left i result hi =>
      exact .call .communication .communication .outside rfl hruns (not_holds_of_kind (.inl rfl)) (.inr ⟨_, hi⟩) rfl
  | client line event outcome hruns hcomm hevent houtcome => exact .still (ClientProgram.after_queue ..)
  | spurious i queue hrunning hqueue =>
    cases State.step_cases hqueue with
    | spurious i hi => exact .spurious i hi rfl
  | queue event i queue hrunning hown hfree hqueue => exact .own event i rfl hown hfree hqueue
  | sigint thread queue hruns hqueue =>
    cases State.step_cases hqueue with
    | close i hi => exact .signal thread rfl hruns hi rfl
  | _ => exact .still rfl

/-- A thread that runs belongs to a program that does. -/
theorem ClientProgram.running_of_runs {thread : ClientThread} (h : p.runs thread = true) :
    p.main.running = true := by
  have halive := (ClientProgram.runs_iff.mp h).1
  cases thread with
  | main => exact halive
  | announcement => exact halive
  | input =>
    simp only [ClientProgram.alive, Bool.and_eq_true] at halive
    cases hmain : p.main <;> simp [hmain, MainPhase.started] at halive <;> rfl
  | communication =>
    simp only [ClientProgram.alive, Bool.and_eq_true] at halive
    cases hmain : p.main <;> simp [hmain, MainPhase.started] at halive <;> rfl

/-- A program that is over takes no step. -/
theorem ClientProgram.running_of_step (hstep : p.step e = some q) : p.main.running = true := by
  cases ClientProgram.step_cases hstep with
  | spurious i queue hrunning => exact hrunning
  | queue event i queue hrunning => exact hrunning
  | arrive ack hrunning => exact hrunning
  | readEnd queue hruns => exact ClientProgram.running_of_runs hruns
  | readLine line queue hruns => exact ClientProgram.running_of_runs hruns
  | fetch queue hruns => exact ClientProgram.running_of_runs hruns
  | fetchedNone queue hruns => exact ClientProgram.running_of_runs hruns
  | fetchedInvalid line queue hruns => exact ClientProgram.running_of_runs hruns
  | fetchedValid line queue command outcome hruns => exact ClientProgram.running_of_runs hruns
  | client line event outcome hruns => exact ClientProgram.running_of_runs hruns
  | copyAddress line command retries hruns => exact ClientProgram.running_of_runs hruns
  | send leftover line dest command retries hruns => exact ClientProgram.running_of_runs hruns
  | rediscovered addr line hruns => exact ClientProgram.running_of_runs hruns
  | rediscoveryFails line hruns => exact ClientProgram.running_of_runs hruns
  | named addr thread hthread hruns => exact ClientProgram.running_of_runs hruns
  | resolved thread hthread hruns => exact ClientProgram.running_of_runs hruns
  | started addr hruns => exact ClientProgram.running_of_runs hruns
  | resumed addr line hruns => exact ClientProgram.running_of_runs hruns
  | announced addr hruns => exact ClientProgram.running_of_runs hruns
  | sigint thread queue hruns => exact ClientProgram.running_of_runs hruns
  | discovered addr hruns => exact ClientProgram.running_of_runs hruns
  | discoveryFails hruns => exact ClientProgram.running_of_runs hruns
  | readEmpty hruns => exact ClientProgram.running_of_runs hruns
  | inputEnds hruns => exact ClientProgram.running_of_runs hruns
  | joinInput hruns => exact ClientProgram.running_of_runs hruns
  | joinCommunication hruns => exact ClientProgram.running_of_runs hruns

/-- A thread ends only while it runs. -/
theorem ClientProgram.alive_step (hstep : p.step e = some q) (hrunning : q.main.running = true)
    {thread : ClientThread} (halive : p.alive thread = true) : q.alive thread = true ∨ p.runs thread = true := by
  cases thread with
  | main => exact .inl hrunning
  | announcement => exact .inl hrunning
  | input =>
    cases ClientProgram.step_cases hstep with
    | inputEnds hruns hinput houtside => exact .inr hruns
    | readEnd queue hruns hinput hqueue => exact .inr hruns
    | joinCommunication hruns hmain hcomm => contradiction
    | discoveryFails hruns hmain => contradiction
    | joinInput hruns hmain hinput => simp [ClientProgram.alive, hinput] at halive
    | started addr hruns hmain => simp [ClientProgram.alive, hmain, MainPhase.started] at halive
    | client line event outcome => simpa [ClientProgram.alive] using Or.inl halive
    | _ => exact .inl halive
  | communication =>
    cases ClientProgram.step_cases hstep with
    | fetchedNone queue hruns => exact .inr hruns
    | fetchedInvalid line queue hruns => exact .inr hruns
    | fetchedValid line queue command outcome hruns => exact .inr hruns
    | client line event outcome hruns => exact .inr hruns
    | rediscoveryFails line hruns => exact .inr hruns
    | resumed addr line hruns => exact .inr hruns
    | joinCommunication hruns hmain hcomm => contradiction
    | discoveryFails hruns hmain => contradiction
    | joinInput hruns hmain hinput => simpa [ClientProgram.alive, hmain, MainPhase.started] using Or.inl halive
    | started addr hruns hmain => simp [ClientProgram.alive, hmain, MainPhase.started] at halive
    | _ => exact .inl halive

/-- A handler is put on top of a thread by a signal only. -/
theorem ClientProgram.handler_step (hstep : p.step e = some q) {thread : ClientThread}
    (hhandler : q.queue.stage (.handler thread) ≠ .outside) :
    p.queue.stage (.handler thread) ≠ .outside ∨ (e = .sigint thread ∧ p.runs thread = true) := by
  cases ClientProgram.queueMove hstep with
  | still hqueue => exact .inl (hqueue ▸ hhandler)
  | call i other a huser hruns ha hi hqueue =>
    left
    have hne : QueueUser.handler thread ≠ i := by
      rintro rfl
      cases other <;> simp [ClientThread.user] at huser
    rwa [hqueue, State.goto_stage, if_neg hne] at hhandler
  | signal other he hruns hi hqueue =>
    by_cases hthread : thread = other
    · exact .inr ⟨hthread ▸ he, hthread ▸ hruns⟩
    · left
      rwa [hqueue, State.goto_stage, if_neg (by simpa using hthread)] at hhandler
  | spurious i hi hqueue =>
    left
    by_cases hthread : QueueUser.handler thread = i
    · rw [hthread, hi]
      simp
    · rwa [hqueue, State.goto_stage, if_neg hthread] at hhandler
  | own event i he hown hfree hqueue =>
    left
    intro houtside
    have hpurpose := State.purpose_step hown hqueue (.handler thread)
    rw [houtside] at hpurpose
    cases hpurpose with
    | inl hsame => exact hhandler (purpose_eq_none.mp hsame)
    | inr hends => exact hhandler hends.1

/-- A user of the queue that a thread is itself, is no handler. -/
theorem ClientThread.user_ne_handler {thread other : ClientThread} {i : QueueUser} (h : i ∈ thread.user) :
    i ≠ .handler other := by
  rintro rfl
  cases thread <;> simp [ClientThread.user] at h

/-- A step inside the call of another user does not make a user hold the mutex. -/
theorem holds_of_others {s t : State QueueUser Line} {event : Event QueueUser Line} {i j : QueueUser}
    (hown : event.own = some i) (hqueue : s.step event = some t) (hj : j ≠ i) (hholds : (t.stage j).Holds) :
    t.stage j = s.stage j := by
  cases State.others_step hown hqueue hj with
  | inl hkept => exact hkept
  | inr hwoken =>
    rw [hwoken.2] at hholds
    exact absurd hholds (not_holds_of_kind (.inr rfl))

/-- A handler outside the queue, or waiting for the mutex, is not taken on by others. -/
theorem handler_of_others {s t : State QueueUser Line} {event : Event QueueUser Line} {i j : QueueUser}
    (hown : event.own = some i) (hqueue : s.step event = some t) (hj : j ≠ i)
    (hstage : s.stage j = .outside ∨ s.stage j = .closing) : t.stage j = s.stage j := by
  cases State.others_step hown hqueue hj with
  | inl hkept => exact hkept
  | inr hwoken =>
    rw [hwoken.1] at hstage
    simp at hstage

/-- A handler on top of a thread that holds the mutex does not get beyond waiting for it. -/
theorem ClientProgram.Threads.waits_step (h : p.Threads) (hinv' : q.queue.Inv)
    (hstep : p.step e = some q) (thread : ClientThread) (i : QueueUser) (hi : i ∈ thread.user)
    (hholds : (q.queue.stage i).Holds) :
    q.queue.stage (.handler thread) = .outside ∨ q.queue.stage (.handler thread) = .closing := by
  have hne : i ≠ .handler thread := ClientThread.user_ne_handler hi
  cases ClientProgram.queueMove hstep with
  | still hqueue =>
    rw [hqueue] at hholds ⊢
    exact h.waits thread i hi hholds
  | call j other a huser hruns ha hj hqueue =>
    rw [hqueue, State.goto_stage] at hholds
    split at hholds
    · contradiction
    · rw [hqueue, State.goto_stage, if_neg (Ne.symm (ClientThread.user_ne_handler huser))]
      exact h.waits thread i hi hholds
  | signal other he hruns hhandler hqueue =>
    rw [hqueue, State.goto_stage, if_neg (ClientThread.user_ne_handler hi)] at hholds
    rw [hqueue, State.goto_stage]
    split
    · exact .inr rfl
    · exact h.waits thread i hi hholds
  | spurious j hj hqueue =>
    rw [hqueue, State.goto_stage] at hholds
    split at hholds
    · exact absurd hholds (not_holds_of_kind (.inr rfl))
    · have hwaits := h.waits thread i hi hholds
      have hother : QueueUser.handler thread ≠ j := by
        rintro rfl
        rw [hj] at hwaits
        simp at hwaits
      rw [hqueue, State.goto_stage, if_neg hother]
      exact hwaits
  | own event j he hown hfree hqueue =>
    by_cases hself : i = j
    · -- the thread itself goes on, so no handler is on top of it
      subst hself
      have hruns : p.runs thread = true := by
        cases thread <;> cases hi <;> exact hfree
      have houtside := (ClientProgram.runs_iff.mp hruns).2
      left
      rw [handler_of_others hown hqueue (Ne.symm hne) (.inl houtside), houtside]
    · have hbefore := holds_of_others hown hqueue hself hholds
      have hwaits := h.waits thread i hi (hbefore ▸ hholds)
      by_cases hhandler : QueueUser.handler thread = j
      · subst hhandler
        cases State.turn_step hown hqueue with
        | locked hlocks =>
          cases hwaits with
          | inl houtside =>
            rw [houtside] at hlocks
            contradiction
          | inr hclosing =>
            rw [hclosing] at hlocks
            have hsetting : q.queue.stage (.handler thread) = .setting := (Option.some.inj hlocks).symm
            exact absurd (hinv'.holder_unique hholds (.inl (by rw [hsetting]; rfl))) hne
        | notified hnotifies hends => exact .inl hends
        | _ => simp_all
      · rw [handler_of_others hown hqueue hhandler hwaits]
        exact hwaits

/-- Behind the last line the queue is closed. -/
theorem ClientProgram.Threads.closed_step (h : p.Threads) (hroles : p.Roles) (hstep : p.step e = some q)
    (hinput : q.input ≠ .reading)
    (hstage : q.queue.stage .input = .outside ∨ q.queue.stage .input = .notifyingAll) : q.queue.closed = true := by
  cases ClientProgram.step_cases hstep with
  | readEnd queue hruns hreading hqueue =>
    cases State.step_cases hqueue with
    | close i hi => simp [State.goto_stage] at hstage
  | readLine line queue hruns hreading hline hqueue => exact absurd hreading hinput
  | readEmpty hruns hreading houtside => exact absurd hreading hinput
  | inputEnds hruns hshutting houtside => exact h.closed (by rw [hshutting]; decide) (.inl houtside)
  | fetch queue hruns hcomm hqueue =>
    cases State.step_cases hqueue with
    | take i hi => exact h.closed hinput (by simpa [State.goto_stage] using hstage)
  | fetchedNone queue hruns hreturning hqueue =>
    cases State.step_cases hqueue with
    | left i result hi => exact h.closed hinput (by simpa [State.goto_stage] using hstage)
  | fetchedInvalid line queue hruns hreturning hqueue hline =>
    cases State.step_cases hqueue with
    | left i result hi => exact h.closed hinput (by simpa [State.goto_stage] using hstage)
  | fetchedValid line queue command outcome hruns hreturning hqueue hline houtcome =>
    cases State.step_cases hqueue with
    | left i result hi => exact h.closed hinput (by simpa [State.goto_stage] using hstage)
  | client line event outcome hruns hcomm hevent houtcome =>
    rw [ClientProgram.after_input] at hinput
    rw [ClientProgram.after_queue] at hstage ⊢
    exact h.closed hinput hstage
  | spurious i queue hrunning hqueue =>
    cases State.step_cases hqueue with
    | spurious i hi =>
      have hne : QueueUser.input ≠ i := by
        rintro rfl
        simp [State.goto_stage] at hstage
      exact h.closed hinput (by simpa [State.goto_stage, hne] using hstage)
  | queue event i queue hrunning hown hfree hqueue =>
    have hkept : p.queue.closed = true → queue.closed = true := by
      intro hclosed
      cases State.turn_step hown hqueue <;> simp_all
    by_cases hself : QueueUser.input = i
    · subst hself
      cases State.turn_step hown hqueue with
      | set hi hi' haccepted hserved hclosed => exact hclosed
      | notified hi =>
        refine hkept (h.closed hinput (.inr (hi.resolve_left fun hone => ?_)))
        exact hinput (hroles.reading (by rw [hone]; rfl))
      | locked hi =>
        cases hbefore : p.queue.stage .input <;> simp [hbefore, Stage.locked] at hi <;> simp [← hi] at hstage
      | _ => simp_all
    · cases State.others_step hown hqueue hself with
      | inl hsame => exact hkept (h.closed hinput (hsame ▸ hstage))
      | inr hwoken => simp [hwoken.2] at hstage
  | sigint thread queue hruns hqueue =>
    cases State.step_cases hqueue with
    | close i hi => exact h.closed hinput (by simpa [State.goto_stage] using hstage)
  | _ => exact h.closed hinput hstage

/-- The client is at work exactly while the communication thread processes a line. -/
theorem ClientProgram.Threads.busy_step (h : p.Threads) (hroles : p.Roles) (hstep : p.step e = some q) :
    q.process.phase ≠ .idle ↔ ∃ line, q.communication = .processing line := by
  have hbusy := h.busy
  cases ClientProgram.step_cases hstep with
  | fetchedNone queue hruns hreturning hqueue =>
    have hcomm := hroles.fetching (by rw [hreturning]; simp)
    simpa [hcomm] using hbusy
  | fetchedInvalid line queue hruns hreturning hqueue hline =>
    have hcomm := hroles.fetching (by rw [hreturning]; simp)
    simpa [hcomm] using hbusy
  | fetchedValid line queue command outcome hruns hreturning hqueue hline houtcome =>
    cases ClientProcess.step_cases houtcome with
    | start command hphase => simp
  | client line event outcome hruns hcomm hevent houtcome =>
    rw [ClientProgram.after_process]
    unfold ClientProgram.after
    split_ifs with hidle hrediscovers
    · simp [hidle]
    · simp [hidle]
    · simp [hidle, hcomm]
  | send leftover line dest command retries hruns hcomm hdest hphase => simp [hcomm]
  | rediscoveryFails line hruns hcomm hstoring => simpa [hcomm] using hbusy
  | resumed addr line hruns hcomm hstoring => simpa [hcomm] using hbusy
  | _ => exact hbusy

/-- The address is copied before the packet is sent. -/
theorem ClientProgram.Threads.copied_step (h : p.Threads) (hroles : p.Roles) (hstep : p.step e = some q)
    (hcopied : q.currentServerAddr ≠ none) : ∃ command retries, q.process.phase = .sending command retries := by
  cases ClientProgram.step_cases hstep with
  | fetchedValid line queue command outcome hruns hreturning hqueue hline houtcome =>
    obtain ⟨old, retries, hphase⟩ := h.copied hcopied
    obtain ⟨line, hcomm⟩ := h.busy.mp (by simp [hphase])
    rw [hroles.fetching (by rw [hreturning]; simp)] at hcomm
    contradiction
  | copyAddress line command retries hruns hnone hcomm hphase => exact ⟨command, retries, hphase⟩
  | send => exact absurd rfl hcopied
  | client line event outcome hruns hcomm hevent houtcome =>
    obtain ⟨command, retries, hphase⟩ := h.copied (by simpa using hcopied)
    rcases hevent with rfl | rfl <;> simp [ClientProcess.step, hphase] at houtcome
  | _ => exact h.copied hcopied

/-- What is stored without a new discovery is for `start`. -/
theorem ClientProgram.Threads.discovering (h : p.Threads) (hstoring : p.storing ≠ none)
    (hcomm : ∀ line, p.communication ≠ .rediscovering line) : p.main = .discovering := by
  refine (h.storing hstoring).resolve_right ?_
  rintro ⟨line, hline⟩
  exact hcomm line hline

/-- Only a thread in `discoverServer` stores. -/
theorem ClientProgram.Threads.storing_step (h : p.Threads) (hroles : p.Roles) (hstep : p.step e = some q)
    (hstoring : q.storing ≠ none) : q.main = .discovering ∨ ∃ line, q.communication = .rediscovering line := by
  cases ClientProgram.step_cases hstep with
  | discovered addr hruns hmain => exact .inl hmain
  | rediscovered addr line hruns hcomm => exact .inr ⟨line, hcomm⟩
  | discoveryFails hruns hmain hnone => exact absurd hnone hstoring
  | rediscoveryFails line hruns hcomm hnone => exact absurd hnone hstoring
  | started | resumed => exact absurd rfl hstoring
  | named addr thread hthread hruns hbefore => exact h.storing (by simp [hbefore])
  | resolved thread hthread hruns hbefore => exact h.storing (by simp [hbefore])
  | fetchedNone queue hruns hreturning hqueue =>
    exact .inl (h.discovering hstoring (by simp [hroles.fetching, hreturning]))
  | fetchedInvalid line queue hruns hreturning hqueue hline =>
    exact .inl (h.discovering hstoring (by simp [hroles.fetching, hreturning]))
  | fetchedValid line queue command outcome hruns hreturning hqueue hline houtcome =>
    exact .inl (h.discovering hstoring (by simp [hroles.fetching, hreturning]))
  | client line event outcome hruns hcomm hevent houtcome =>
    rw [ClientProgram.after_storing] at hstoring
    rw [ClientProgram.after_main]
    exact .inl (h.discovering hstoring (by simp [hcomm]))
  | joinInput hruns hmain hinput => exact .inr ((h.storing hstoring).resolve_left (by simp [hmain]))
  | joinCommunication hruns hmain hcomm => exact .inr ((h.storing hstoring).resolve_left (by simp [hmain]))
  | _ => exact h.storing hstoring

/-- Every step keeps the threads in order. -/
theorem ClientProgram.Threads.step (h : p.Threads) (hinv : p.Inv) (hstep : p.step e = some q) : q.Threads := by
  refine ⟨?_, ?_, ?_, h.busy_step hinv.roles hstep, h.copied_step hinv.roles hstep, h.storing_step hinv.roles hstep⟩
  · intro hrunning thread hhandler
    cases ClientProgram.handler_step hstep hhandler with
    | inr hsignal =>
      obtain ⟨rfl, hruns⟩ := hsignal
      have halive := (ClientProgram.runs_iff.mp hruns).1
      cases ClientProgram.step_cases hstep with
      | sigint thread queue hruns hqueue => cases thread <;> exact halive
    | inl hbefore =>
      have halive := h.hosts (ClientProgram.running_of_step hstep) thread hbefore
      cases ClientProgram.alive_step hstep hrunning halive with
      | inl hafter => exact hafter
      | inr hruns => exact absurd (ClientProgram.runs_iff.mp hruns).2 hbefore
  · exact h.waits_step (hinv.step hstep).queue hstep
  · exact h.closed_step hinv.roles hstep

/-- Programs before `start` have their threads in order. -/
theorem ClientProgram.Fresh.threads (h : p.Fresh) : p.Threads := by
  obtain ⟨port, rfl⟩ := h
  exact ⟨fun _ _ hhandler => absurd rfl hhandler, fun _ _ _ _ => .inl rfl, fun hinput => absurd rfl hinput, by simp,
    fun hcopied => absurd rfl hcopied, fun hstoring => absurd rfl hstoring⟩

/-- The threads are in order in every run. -/
theorem ClientProgram.Reachable.threads (h : p.Reachable) : p.Threads := by
  have hboth : p.Inv ∧ p.Threads := by
    refine Runs.Reachable.invariant (I := fun p => p.Inv ∧ p.Threads) ?_ ?_ h
    · exact fun _ hfresh => ⟨hfresh.inv, hfresh.threads⟩
    · exact fun _ _ _ hinv _ hstep => ⟨hinv.1.step hstep, hinv.2.step hinv.1 hstep⟩
  exact hboth.2

/-! ## Handlers that wait for the thread beneath them -/

/-- The thread that is itself a user of the queue. -/
theorem ClientThread.user_inj {thread other : ClientThread} {i : QueueUser} (h : i ∈ thread.user)
    (hother : i ∈ other.user) : other = thread := by
  cases thread <;> cases h <;> cases other <;> cases hother <;> rfl

/-- A user of the queue that goes on belongs to a thread that runs. -/
theorem ClientProgram.runs_of_free {thread : ClientThread} {i : QueueUser} (hi : i ∈ thread.user)
    (hfree : p.free i = true) : p.runs thread = true := by
  cases thread <;> cases hi <;> exact hfree

/-- A user that waits for the mutex goes on only when it is free. -/
theorem free_of_closing {s t : State QueueUser Line} {event : Event QueueUser Line} {i : QueueUser}
    (hown : event.own = some i) (hqueue : s.step event = some t) (hi : s.stage i = .closing) :
    s.locked = false := by
  cases State.step_cases hqueue with
  | lock k a hfree hk => exact hfree
  | _ => simp_all [Event.own]

/-- A jam stays. -/
theorem ClientProgram.Jammed.step (h : p.Jammed) (hthreads : p.Threads) (hinv : p.queue.Inv)
    (hstep : p.step e = some q) : q.Jammed := by
  obtain ⟨thread, i, hi, hholds, hhandler⟩ := h
  have hclosing := (hthreads.waits thread i hi hholds).resolve_left hhandler
  have hstuck : ¬ p.runs thread = true := fun hruns => hhandler (ClientProgram.runs_iff.mp hruns).2
  refine ⟨thread, i, hi, ?_⟩
  cases ClientProgram.queueMove hstep with
  | still hqueue =>
    rw [hqueue]
    exact ⟨hholds, hhandler⟩
  | call j other a huser hruns ha hj hqueue =>
    have hne : i ≠ j := by
      rintro rfl
      exact hstuck (ClientThread.user_inj hi huser ▸ hruns)
    rw [hqueue, State.goto_stage, State.goto_stage, if_neg hne, if_neg (ClientThread.user_ne_handler huser).symm]
    exact ⟨hholds, hhandler⟩
  | signal other he hruns hj hqueue =>
    have hne : QueueUser.handler thread ≠ .handler other := by
      rintro hsame
      exact hstuck (QueueUser.handler.inj hsame ▸ hruns)
    rw [hqueue, State.goto_stage, State.goto_stage, if_neg (ClientThread.user_ne_handler hi), if_neg hne]
    exact ⟨hholds, hhandler⟩
  | spurious j hj hqueue =>
    have hne : i ≠ j := by
      rintro rfl
      rw [hj] at hholds
      exact absurd hholds (by decide)
    have hother : QueueUser.handler thread ≠ j := by
      rintro rfl
      rw [hclosing] at hj
      contradiction
    rw [hqueue, State.goto_stage, State.goto_stage, if_neg hne, if_neg hother]
    exact ⟨hholds, hhandler⟩
  | own event j he hown hfree hqueue =>
    have hne : i ≠ j := by
      rintro rfl
      exact hstuck (ClientProgram.runs_of_free hi hfree)
    have hother : QueueUser.handler thread ≠ j := by
      rintro rfl
      -- the handler could only take the mutex, which the thread beneath it holds
      have hlocked := hinv.locked_iff.mpr ⟨i, hholds⟩
      rw [free_of_closing hown hqueue hclosing] at hlocked
      contradiction
    constructor
    · cases State.others_step hown hqueue hne with
      | inl hkept => exact hkept ▸ hholds
      | inr hwoken =>
        rw [hwoken.1] at hholds
        exact absurd hholds (by decide)
    · rw [handler_of_others hown hqueue hother (.inr hclosing)]
      exact hhandler

/-- Only a signal makes a jam. -/
theorem ClientProgram.jammed_of_step (hstep : p.step e = some q) (hsignal : ∀ thread, e ≠ .sigint thread)
    (h : q.Jammed) : p.Jammed := by
  obtain ⟨thread, i, hi, hholds, hhandler⟩ := h
  have hbefore : p.queue.stage (.handler thread) ≠ .outside :=
    (ClientProgram.handler_step hstep hhandler).resolve_right fun h => hsignal thread h.1
  refine ⟨thread, i, hi, ?_, hbefore⟩
  cases ClientProgram.queueMove hstep with
  | still hqueue => exact hqueue ▸ hholds
  | call j other a huser hruns ha hj hqueue =>
    rw [hqueue, State.goto_stage] at hholds
    split at hholds
    · contradiction
    · exact hholds
  | signal other he => exact absurd he (hsignal other)
  | spurious j hj hqueue =>
    rw [hqueue, State.goto_stage] at hholds
    split at hholds
    · exact absurd hholds (by decide)
    · exact hholds
  | own event j he hown hfree hqueue =>
    have hne : i ≠ j := by
      rintro rfl
      exact hbefore (ClientProgram.runs_iff.mp (ClientProgram.runs_of_free hi hfree)).2
    exact holds_of_others hown hqueue hne hholds ▸ hholds

/-- A program with a jam has not ended. -/
theorem ClientProgram.Jammed.not_ended (h : p.Jammed) (hinv : p.Inv) : p.main ≠ .ended := by
  obtain ⟨thread, i, hi, hholds, -⟩ := h
  intro hmain
  have houtside : p.queue.stage i = .outside := by
    cases thread with
    | input =>
      cases hi
      exact hinv.roles.outside (by simp [ClientProgram.purposeOf, hinv.books.joined (.inr hmain)])
    | communication =>
      cases hi
      exact hinv.roles.communication_outside (by simp [hinv.books.finished hmain])
    | _ => contradiction
  rw [houtside] at hholds
  exact absurd hholds (by decide)

/-! ## Somebody can always go on -/

/-- The program can take a step of its own. -/
def ClientProgram.CanGoOn (p : ClientProgram) : Prop := ∃ e : ProgramEvent, e.own = true ∧ (p.step e).isSome = true

/-- The input thread waits in `getline`. -/
def ClientProgram.AwaitsInput (p : ClientProgram) : Prop :=
  p.input = .reading ∧ p.runs .input = true ∧ p.queue.stage .input = .outside

/-- The communication thread waits for the answer to a new discovery. -/
def ClientProgram.AwaitsServer (p : ClientProgram) : Prop :=
  (∃ line, p.communication = .rediscovering line) ∧ p.runs .communication = true ∧ p.storing = none

/-- A user that can go on in the queue, and is not suspended, takes the program on. -/
theorem ClientProgram.canGoOn_of_queue {i : QueueUser} (hrunning : p.main.running = true)
    (hfree : p.free i = true) (h : p.queue.CanGoOn i) : p.CanGoOn := by
  obtain ⟨event, hown, hstep⟩ := h
  obtain ⟨queue, hqueue⟩ := Option.isSome_iff_exists.mp hstep
  have hany : event.own.any p.free = true := by simpa [hown] using hfree
  refine ⟨.queue event, by simp [ProgramEvent.own, hown], ?_⟩
  cases event <;> simp_all [Event.own, ClientProgram.step]

/-- The input thread exists while it is in the queue. -/
theorem ClientProgram.alive_of_stage (hroles : p.Roles) (hstarted : p.main.started = true) {thread : ClientThread}
    {i : QueueUser} (hi : i ∈ thread.user) (hstage : p.queue.stage i ≠ .outside) : p.alive thread = true := by
  cases thread with
  | input =>
    cases hi
    have hinput : p.input ≠ .ended := fun hended =>
      hstage (hroles.outside (by simp [ClientProgram.purposeOf, hended]))
    simp [ClientProgram.alive, hstarted, hinput]
  | communication =>
    cases hi
    simp [ClientProgram.alive, hstarted, hroles.fetching hstage]
  | _ => contradiction

/-- The users of the queue are the threads themselves and the handlers. -/
theorem QueueUser.cases (i : QueueUser) :
    (∃ thread : ClientThread, i ∈ thread.user) ∨ ∃ thread, i = .handler thread := by
  cases i with
  | input => exact .inl ⟨.input, rfl⟩
  | communication => exact .inl ⟨.communication, rfl⟩
  | handler thread => exact .inr ⟨thread, rfl⟩

/-- Without a jam whoever holds the mutex is not suspended. -/
theorem ClientProgram.free_of_holds (hinv : p.Inv) (hthreads : p.Threads) (hstarted : p.main.started = true)
    (hjam : ¬ p.Jammed) {i : QueueUser} (hholds : (p.queue.stage i).Holds) : p.free i = true := by
  have hstage : p.queue.stage i ≠ .outside := by
    intro houtside
    rw [houtside] at hholds
    exact absurd hholds (by decide)
  have hrunning : p.main.running = true := by
    cases hmain : p.main <;> simp [hmain, MainPhase.started] at hstarted <;> rfl
  cases QueueUser.cases i with
  | inr hhandler =>
    obtain ⟨thread, rfl⟩ := hhandler
    exact hthreads.hosts hrunning thread hstage
  | inl hthread =>
    obtain ⟨thread, hi⟩ := hthread
    have houtside : p.queue.stage (.handler thread) = .outside := by
      by_contra hhandler
      exact hjam ⟨thread, i, hi, hholds, hhandler⟩
    have hruns := ClientProgram.runs_iff.mpr ⟨ClientProgram.alive_of_stage hinv.roles hstarted hi hstage, houtside⟩
    cases thread <;> cases hi <;> exact hruns

/-- Without a jam the program can go on while a handler runs. -/
theorem ClientProgram.canGoOn_of_handler (hinv : p.Inv) (hthreads : p.Threads) (hrunning : p.main.running = true)
    (hfree : p.queue.locked = false) {thread : ClientThread} (hhandler : p.queue.stage (.handler thread) ≠ .outside) :
    p.CanGoOn := by
  have hrole := hinv.roles (.handler thread)
  have hpurpose : (p.queue.stage (.handler thread)).purpose = .close := by
    simp only [purpose_eq_none, hhandler, false_or, ClientProgram.purposeOf] at hrole
    split at hrole
    · exact absurd (purpose_eq_none.mp hrole) hhandler
    · exact hrole
  refine ClientProgram.canGoOn_of_queue (i := .handler thread) hrunning (hthreads.hosts hrunning thread hhandler)
    (hinv.queue.canGoOn hfree hhandler ?_ fun result => ?_)
  · rintro hasleep
    rw [hasleep] at hpurpose
    contradiction
  · rintro hreturning
    rw [hreturning] at hpurpose
    contradiction

/-- After the end of the input nobody sleeps for long. -/
theorem ClientProgram.not_asleep (hinv : p.Inv) (hthreads : p.Threads) (hinput : p.input = .ended)
    (hhandlers : ∀ thread, p.queue.stage (.handler thread) = .outside) :
    p.queue.stage .communication ≠ .asleep := by
  intro hasleep
  have houtside : p.queue.stage .input = .outside :=
    hinv.roles.outside (by simp [ClientProgram.purposeOf, hinput])
  have hclosed := hthreads.closed (by rw [hinput]; decide) (.inl houtside)
  have hpositive := hinv.queue.balanced.close hclosed (State.count_pos.mpr ⟨.communication, by rw [hasleep]; rfl⟩)
  obtain ⟨i, hi⟩ := State.count_pos.mp hpositive
  cases i with
  | input => simp [houtside, Stage.kind] at hi
  | communication => simp [hasleep, Stage.kind] at hi
  | handler thread => simp [hhandlers thread, Stage.kind] at hi

/-- The communication thread can go on or waits for a server, unless it has ended. -/
theorem ClientProgram.canGoOn_of_communication (hinv : p.Inv) (hthreads : p.Threads)
    (hstarted : p.main.started = true) (hinput : p.input = .ended) (hfree : p.queue.locked = false)
    (hhandlers : ∀ thread, p.queue.stage (.handler thread) = .outside) (hcomm : p.communication ≠ .ended) :
    p.CanGoOn ∨ p.AwaitsServer := by
  have hrunning : p.main.running = true := by
    cases hmain : p.main <;> simp [hmain, MainPhase.started] at hstarted <;> rfl
  have hruns : p.runs .communication = true :=
    ClientProgram.runs_iff.mpr ⟨by simp [ClientProgram.alive, hstarted, hcomm], hhandlers _⟩
  cases hphase : p.communication with
  | ended => exact absurd hphase hcomm
  | fetching =>
    left
    by_cases houtside : p.queue.stage .communication = .outside
    · exact ⟨.fetch, rfl, by simp [ClientProgram.step, hruns, hphase, State.step, houtside]⟩
    · by_cases hreturning : ∃ result, p.queue.stage .communication = .returning result
      · obtain ⟨result, hresult⟩ := hreturning
        refine ⟨.fetched, rfl, ?_⟩
        have hidle : p.process.phase = .idle := by
          by_contra hbusy
          obtain ⟨line, hline⟩ := hthreads.busy.mp hbusy
          rw [hphase] at hline
          contradiction
        cases result with
        | none => simp [ClientProgram.step, hruns, hresult, State.step]
        | some line =>
          cases hline : validateInput line <;>
            simp [ClientProgram.step, hruns, hresult, State.step, ClientProgram.processCommand, hline,
              ClientProcess.step, hidle]
      · exact ClientProgram.canGoOn_of_queue (i := .communication) hrunning hruns (hinv.queue.canGoOn hfree houtside
          (ClientProgram.not_asleep hinv hthreads hinput hhandlers) (not_exists.mp hreturning))
  | processing line =>
    have hbusy := hthreads.busy.mpr ⟨line, hphase⟩
    cases hclient : p.process.phase with
    | idle => exact absurd hclient hbusy
    | sending command retries =>
      left
      cases hcopy : p.currentServerAddr with
      | none => exact ⟨.copyAddress, rfl, by simp [ClientProgram.step, hruns, hphase, hclient, hcopy]⟩
      | some dest =>
        exact ⟨.client (.send ⟨0, 0, 0, 0⟩), rfl,
          by simp [ClientProgram.step, hruns, hphase, ClientProcess.step, hclient, hcopy]⟩
    | receiving command retries =>
      exact .inl ⟨.client .timeout, rfl, by simp [ClientProgram.step, hruns, hphase, ClientProcess.step, hclient]⟩
  | rediscovering line =>
    cases hstoring : p.storing with
    | none => exact .inr ⟨⟨line, hphase⟩, hruns, hstoring⟩
    | some storing =>
      have hmain : p.main ≠ .discovering := by
        intro hmain
        simp [hmain, MainPhase.started] at hstarted
      exact .inl ⟨.store, rfl, by simp [ClientProgram.step, ClientProgram.discoverer, hmain, hphase, hruns, hstoring]⟩

/-- A program whose threads have been started, without a jam, can go on or waits for its input or for
a server. -/
theorem ClientProgram.progress (hinv : p.Inv) (hthreads : p.Threads) (hstarted : p.main.started = true)
    (hjam : ¬ p.Jammed) : p.CanGoOn ∨ p.AwaitsInput ∨ p.AwaitsServer := by
  have hrunning : p.main.running = true := by
    cases hmain : p.main <;> simp [hmain, MainPhase.started] at hstarted <;> rfl
  by_cases hlocked : p.queue.locked = true
  · obtain ⟨i, hholds⟩ := hinv.queue.locked_iff.mp hlocked
    exact .inl (ClientProgram.canGoOn_of_queue hrunning
      (ClientProgram.free_of_holds hinv hthreads hstarted hjam hholds) (State.canGoOn_of_holds hholds))
  have hfree : p.queue.locked = false := Bool.eq_false_iff.mpr hlocked
  by_cases hhandler : ∃ thread, p.queue.stage (.handler thread) ≠ .outside
  · obtain ⟨thread, hhandler⟩ := hhandler
    exact .inl (ClientProgram.canGoOn_of_handler hinv hthreads hrunning hfree hhandler)
  have hhandlers : ∀ thread, p.queue.stage (.handler thread) = .outside := by simpa using hhandler
  have hmain : p.runs .main = true := ClientProgram.runs_iff.mpr ⟨hrunning, hhandlers _⟩
  by_cases hended : p.input = .ended
  · by_cases hcomm : p.communication = .ended
    · left
      cases hphase : p.main with
      | joiningInput => exact ⟨.joinInput, rfl, by simp [ClientProgram.step, hmain, hphase, hended]⟩
      | joiningCommunication => exact ⟨.joinCommunication, rfl, by simp [ClientProgram.step, hmain, hphase, hcomm]⟩
      | _ => simp [hphase, MainPhase.started] at hstarted
    · exact (ClientProgram.canGoOn_of_communication hinv hthreads hstarted hended hfree hhandlers hcomm).imp_right .inr
  · have hruns : p.runs .input = true :=
      ClientProgram.runs_iff.mpr ⟨by simp [ClientProgram.alive, hstarted, hended], hhandlers _⟩
    by_cases houtside : p.queue.stage .input = .outside
    · cases hinput : p.input with
      | reading => exact .inr (.inl ⟨hinput, hruns, houtside⟩)
      | shuttingDown => exact .inl ⟨.inputEnds, rfl, by simp [ClientProgram.step, hruns, hinput, houtside]⟩
      | ended => exact absurd hinput hended
    · left
      have htake : (p.queue.stage .input).purpose ≠ .take := fun htake => by
        have hcomm := hinv.roles.take_only htake
        contradiction
      refine ClientProgram.canGoOn_of_queue (i := .input) hrunning hruns
        (hinv.queue.canGoOn hfree houtside ?_ fun result => ?_)
      · rintro hasleep
        rw [hasleep] at htake
        exact htake rfl
      · rintro hreturning
        rw [hreturning] at htake
        exact htake rfl

/-! ## How long the threads take -/

/-- What a user of the queue leaves to do when it goes on to another stage. -/
theorem work_goto_stage {s : State QueueUser Line} {i : QueueUser} {a : Stage Line} (hi : s.stage i = a)
    (b : Stage Line) :
    (s.goto i b).work lineSteps + a.weight (Fintype.card QueueUser) lineSteps =
      s.work lineSteps + b.weight (Fintype.card QueueUser) lineSteps :=
  s.work_goto lineSteps hi b

/-- The end of a turn brings a command nearer to its end. -/
theorem ClientProcess.weight_step {c : ClientProcess} {event : ClientEvent} {outcome : ClientOutcome}
    (hevent : event = .timeout ∨ event = .receive) (h : c.step event = some outcome) :
    (∃ command retries, c.phase = .receiving command retries) ∧
      outcome.process.phase.weight < c.phase.weight ∧ 6 ≤ c.phase.weight := by
  have hretry : ∀ (p : ClientProcess) (command : Command) (retries : ℕ),
      (p.retry command retries).phase.weight < 6 + 3 * (maxRetries - retries) := by
    intro p command retries
    simp only [ClientProcess.retry]
    split_ifs <;> simp only [ClientPhase.weight] <;> omega
  cases ClientProcess.step_cases h with
  | start | send => simp at hevent
  | timeout command retries hphase =>
    rw [hphase]
    exact ⟨⟨command, retries, rfl⟩, hretry .., by simp only [ClientPhase.weight]; omega⟩
  | taken command retries ack rest hphase hsocket hseqn =>
    rw [ClientProcess.processAck_phase, hphase]
    refine ⟨⟨command, retries, rfl⟩, ?_⟩
    simp only [ClientPhase.weight]
    omega
  | stale command retries ack rest hphase hsocket hseqn =>
    rw [hphase]
    exact ⟨⟨command, retries, rfl⟩, hretry .., by simp only [ClientPhase.weight]; omega⟩

/-- The end of a turn leaves the communication thread less to do. -/
theorem ClientProgram.commWeight_after (hthreads : p.Threads) {line : Line} {event : ClientEvent}
    {outcome : ClientOutcome} (hcomm : p.communication = .processing line)
    (hevent : event = .timeout ∨ event = .receive) (houtcome : p.process.step event = some outcome) :
    (p.after line outcome).commWeight < p.commWeight := by
  obtain ⟨⟨command, retries, hphase⟩, hless, hleast⟩ := ClientProcess.weight_step hevent houtcome
  have hnone : p.currentServerAddr = none := by
    by_contra hcopied
    obtain ⟨_, _, hsending⟩ := hthreads.copied hcopied
    rw [hphase] at hsending
    contradiction
  have hbefore : p.commWeight = p.process.phase.weight := by
    simp only [ClientProgram.commWeight, hcomm, hnone, if_true, Nat.sub_zero]
  rw [hbefore]
  unfold ClientProgram.after
  split_ifs
  · simp only [ClientProgram.commWeight]
    omega
  · simp only [ClientProgram.commWeight]
    split <;> omega
  · simpa only [ClientProgram.commWeight, hcomm, hnone, if_true, Nat.sub_zero] using hless

/-- A step inside a call leaves the communication thread the same to do outside. -/
theorem ClientProgram.commWeight_queue (hroles : p.Roles) {event : Event QueueUser Line} {i : QueueUser}
    {queue : State QueueUser Line} (hown : event.own = some i) (hqueue : p.queue.step event = some queue) :
    ClientProgram.commWeight { p with queue := queue } = p.commWeight := by
  have houtside : queue.stage .communication = .outside ↔ p.queue.stage .communication = .outside := by
    rw [← purpose_eq_none, ← purpose_eq_none]
    cases State.purpose_step hown hqueue .communication with
    | inl hsame => rw [hsame]
    | inr hends =>
      have hrole := hroles .communication
      simp only [ClientProgram.purposeOf] at hrole
      have hnone : (p.queue.stage .communication).purpose = .none := by
        split at hrole
        · exact hrole.resolve_right hends.2
        · exact hrole.elim id id
      simp only [hnone, purpose_eq_none.mpr hends.1]
  simp only [ClientProgram.commWeight, houtside]

/-- Every step of its own, the end of its input and a new discovery that fails leave the program less
to do. -/
theorem ClientProgram.work_step (hroles : p.Roles) (hthreads : p.Threads) (hstep : p.step e = some q)
    (he : e.own = true ∨ e = .read none ∨ e = .rediscoveryFails) : q.work < p.work := by
  cases ClientProgram.step_cases hstep with
  | readEnd queue hruns hinput hqueue =>
    cases State.step_cases hqueue with
    | close i hi =>
      have hwork := work_goto_stage hi .closing
      have hcard : Fintype.card QueueUser = 6 := by decide
      have hcomm : ClientProgram.commWeight
          { p with queue := p.queue.goto .input .closing, input := .shuttingDown } = p.commWeight := by
        simp [ClientProgram.commWeight, State.goto_stage]
      simp only [hcard, Stage.weight] at hwork
      simp only [ClientProgram.work, hcomm, hinput, InputPhase.weight]
      omega
  | inputEnds hruns hinput houtside =>
    simp only [ClientProgram.work, ClientProgram.commWeight, hinput, InputPhase.weight]
    omega
  | fetch queue hruns hcomm hqueue =>
    cases State.step_cases hqueue with
    | take i hi =>
      have hwork := work_goto_stage hi .taking
      simp only [Stage.weight] at hwork
      simp only [ClientProgram.work, ClientProgram.commWeight, hcomm, hi, State.goto_stage, if_true, reduceCtorEq,
        if_false]
      omega
  | fetchedNone queue hruns hstage hqueue =>
    cases State.step_cases hqueue with
    | left i result hi =>
      have hcomm := hroles.fetching (by rw [hstage]; simp)
      have hwork := work_goto_stage hstage .outside
      simp only [Stage.weight] at hwork
      simp only [ClientProgram.work, ClientProgram.commWeight, hcomm, hstage, reduceCtorEq, if_false]
      omega
  | fetchedInvalid line queue hruns hstage hqueue hline =>
    cases State.step_cases hqueue with
    | left i result hi =>
      have hcomm := hroles.fetching (by rw [hstage]; simp)
      have hwork := work_goto_stage hstage .outside
      simp only [Stage.weight, lineSteps] at hwork
      simp only [ClientProgram.work, ClientProgram.commWeight, hcomm, hstage, State.goto_stage, if_true, reduceCtorEq,
        if_false, lineSteps]
      omega
  | fetchedValid line queue command outcome hruns hstage hqueue hline houtcome =>
    cases State.step_cases hqueue with
    | left i result hi =>
      have hcomm := hroles.fetching (by rw [hstage]; simp)
      have hwork := work_goto_stage hstage .outside
      cases ClientProcess.step_cases houtcome with
      | start command hphase =>
        simp only [Stage.weight, lineSteps] at hwork
        simp only [ClientProgram.work, ClientProgram.commWeight, hcomm, hstage, reduceCtorEq, if_false,
          ClientPhase.weight, maxRetries, lineSteps]
        omega
  | client line event outcome hruns hcomm hevent houtcome =>
    have hless := ClientProgram.commWeight_after hthreads hcomm hevent houtcome
    simp only [ClientProgram.work, ClientProgram.after_queue, ClientProgram.after_storing, ClientProgram.after_input,
      ClientProgram.after_main]
    omega
  | copyAddress line command retries hruns hnone hcomm hphase =>
    simp only [ClientProgram.work, ClientProgram.commWeight, hcomm, hphase, hnone, ClientPhase.weight, reduceCtorEq,
      if_true, if_false]
    omega
  | send leftover line dest command retries hruns hcomm hdest hphase =>
    simp only [ClientProgram.work, ClientProgram.commWeight, hcomm, hphase, hdest, ClientPhase.weight, reduceCtorEq,
      if_true, if_false]
    omega
  | rediscoveryFails line hruns hcomm hstoring =>
    have houtside := hroles.communication_outside (by simp [hcomm])
    simp only [ClientProgram.work, ClientProgram.commWeight, hcomm, houtside, if_true]
    omega
  | named addr thread hthread hruns hstoring =>
    have hsame : ClientProgram.commWeight
        { p with storing := some .named, view := { p.view with serverAddress := (inetNtop addr).bytes } } =
          p.commWeight := rfl
    simp only [ClientProgram.work, hsame, hstoring, Option.map_some, Option.getD_some, Storing.weight]
    omega
  | resolved thread hthread hruns hstoring =>
    have hsame : ClientProgram.commWeight
        { p with
          storing := some (.resolved (inetPton (cString p.view.serverAddress)))
          process := { p.process with socket := [] } } = p.commWeight := rfl
    simp only [ClientProgram.work, hsame, hstoring, Option.map_some, Option.getD_some, Storing.weight]
    omega
  | started addr hruns hmain hstoring =>
    simp only [ClientProgram.work, ClientProgram.commWeight, hmain, hstoring, MainPhase.weight, Option.map_none,
      Option.getD_none, Option.map_some, Option.getD_some, Storing.weight]
    omega
  | resumed addr line hruns hcomm hstoring =>
    have houtside := hroles.communication_outside (by simp [hcomm])
    simp only [ClientProgram.work, ClientProgram.commWeight, hcomm, houtside, if_true, hstoring, Option.map_none,
      Option.getD_none, Option.map_some, Option.getD_some]
    omega
  | queue event i queue hrunning hown hfree hqueue =>
    have hless := State.work_step lineSteps hown hqueue
    have hsame := ClientProgram.commWeight_queue hroles hown hqueue
    simp only [ClientProgram.work, hsame]
    omega
  | joinInput hruns hmain hinput =>
    simp only [ClientProgram.work, ClientProgram.commWeight, hmain, MainPhase.weight]
    omega
  | joinCommunication hruns hmain hcomm =>
    simp only [ClientProgram.work, ClientProgram.commWeight, hmain, MainPhase.weight]
    omega
  | _ => simp [ProgramEvent.own, Event.own] at he

/-- A run of steps of its own is no longer than what the program has to do. -/
theorem ClientProgram.work_replay {events : List ProgramEvent} (hinv : p.Inv) (hthreads : p.Threads)
    (hown : ∀ e ∈ events, e.own = true) (hrun : replay ClientProgram.step Always p events = some q) :
    events.length + q.work ≤ p.work := by
  induction events generalizing p with
  | nil =>
    obtain rfl := Option.some.inj hrun
    exact Nat.le_of_eq (Nat.zero_add _)
  | cons e rest ih =>
    obtain ⟨u, hstep, hrest⟩ := Option.bind_eq_some_iff.mp hrun
    rw [List.forall_mem_cons] at hown
    have hless := ClientProgram.work_step hinv.roles hthreads hstep (.inl hown.1)
    have htail := ih (hinv.step hstep) (hthreads.step hinv hstep) hown.2 hrest
    rw [List.length_cons]
    omega

end

/-! ## The end of the program -/

section

variable {p q : ClientProgram}

/-- What a program without a jam is, from its start to its end. -/
structure ClientProgram.Sound (p : ClientProgram) : Prop where
  inv : p.Inv
  threads : p.Threads
  free : ¬ p.Jammed
  begun : p.main.started = true ∨ p.main = .ended

/-- Every step but a signal keeps a program sound. -/
theorem ClientProgram.Sound.step (h : p.Sound) {e : ProgramEvent} (hstep : p.step e = some q)
    (hsignal : ∀ thread, e ≠ .sigint thread) : q.Sound := by
  refine ⟨h.inv.step hstep, h.threads.step h.inv hstep,
    fun hjam => h.free (ClientProgram.jammed_of_step hstep hsignal hjam), ?_⟩
  have hrunning := ClientProgram.running_of_step hstep
  have hstarted : p.main.started = true := by
    refine h.begun.resolve_right fun hended => ?_
    rw [hended] at hrunning
    contradiction
  cases ClientProgram.step_cases hstep with
  | started addr hruns hmain => exact .inl rfl
  | discoveryFails hruns hmain => simp [hmain, MainPhase.started] at hstarted
  | joinInput hruns hmain hinput => exact .inl rfl
  | joinCommunication hruns hmain hcomm => exact .inr rfl
  | client line event outcome => exact .inl (by rwa [ClientProgram.after_main])
  | _ => exact .inl hstarted

/-- The end of the input is no signal, and neither is a step of the program's own. -/
theorem ProgramEvent.own_ne_sigint {e : ProgramEvent} (h : e.own = true) (thread : ClientThread) :
    e ≠ .sigint thread := by
  rintro rfl
  contradiction

/-- A sound program that has not ended goes on by itself, at the end of its input or when its new
discovery fails. -/
theorem ClientProgram.Sound.goesOn (h : p.Sound) (hmain : p.main ≠ .ended) :
    ∃ e q, (e.own = true ∨ e = .read none ∧ p.AwaitsInput ∨ e = .rediscoveryFails ∧ p.AwaitsServer) ∧
      p.step e = some q := by
  rcases ClientProgram.progress h.inv h.threads (h.begun.resolve_right hmain) h.free with hgoes | hawaits | hawaits
  · obtain ⟨e, hown, hstep⟩ := hgoes
    obtain ⟨q, hq⟩ := Option.isSome_iff_exists.mp hstep
    exact ⟨e, q, .inl hown, hq⟩
  · obtain ⟨hinput, hruns, houtside⟩ := hawaits
    refine ⟨.read none, { p with queue := p.queue.goto .input .closing, input := .shuttingDown },
      .inr (.inl ⟨rfl, hinput, hruns, houtside⟩), ?_⟩
    simp [ClientProgram.step, hruns, hinput, State.step, houtside]
  · obtain ⟨⟨line, hcomm⟩, hruns, hstoring⟩ := hawaits
    refine ⟨.rediscoveryFails, { p with communication := .fetching, processed := p.processed ++ [line] },
      .inr (.inr ⟨rfl, ⟨line, hcomm⟩, hruns, hstoring⟩), ?_⟩
    simp [ClientProgram.step, hruns, hcomm, hstoring]

/-- A sound program can end. -/
theorem ClientProgram.Sound.canEnd (h : p.Sound) :
    ∃ q, Runs.Reachable ClientProgram.step Always (· = p) q ∧ q.main = .ended := by
  obtain ⟨n, hn⟩ : ∃ n, n = p.work := ⟨_, rfl⟩
  induction n using Nat.strong_induction_on generalizing p with
  | _ n ih =>
    by_cases hmain : p.main = .ended
    · exact ⟨p, .init rfl, hmain⟩
    · obtain ⟨e, u, he, hstep⟩ := h.goesOn hmain
      have hsignal : ∀ thread, e ≠ .sigint thread := by
        rcases he with hown | hread | hfails
        · exact ProgramEvent.own_ne_sigint hown
        · simp [hread.1]
        · simp [hfails.1]
      have hless := ClientProgram.work_step h.inv.roles h.threads hstep (he.imp_right (Or.imp And.left And.left))
      obtain ⟨q, hreach, hended⟩ := ih u.work (hn ▸ hless) (h.step hstep hsignal) rfl
      have hnext : Runs.Reachable ClientProgram.step Always (· = p) u := .step (.init rfl) trivial hstep
      exact ⟨q, hnext.trans hreach, hended⟩

/-- The input does not start again. -/
theorem ClientProgram.input_step {e : ProgramEvent} (hstep : p.step e = some q) (hinput : p.input ≠ .reading) :
    q.input ≠ .reading := by
  cases ClientProgram.step_cases hstep with
  | readEnd => simp
  | inputEnds => simp
  | client line event outcome => rwa [ClientProgram.after_input]
  | _ => exact hinput

/-- Steps of its own keep a program sound, and past the end of its input. -/
theorem ClientProgram.Sound.replay {events : List ProgramEvent} (h : p.Sound) (hinput : p.input ≠ .reading)
    (hown : ∀ e ∈ events, e.own = true) (hrun : replay ClientProgram.step Always p events = some q) :
    q.Sound ∧ q.input ≠ .reading := by
  induction events generalizing p with
  | nil =>
    obtain rfl := Option.some.inj hrun
    exact ⟨h, hinput⟩
  | cons e rest ih =>
    obtain ⟨u, hstep, hrest⟩ := Option.bind_eq_some_iff.mp hrun
    rw [List.forall_mem_cons] at hown
    exact ih (h.step hstep (ProgramEvent.own_ne_sigint hown.1)) (ClientProgram.input_step hstep hinput) hown.2 hrest

/-- A program in any run, once its threads have been started, can still come to its end exactly if
no signal handler waits for the mutex on top of the thread that holds it. -/
theorem ClientProgram.can_end_iff (h : p.Reachable) (hstarted : p.main.started = true) :
    (∃ q, Runs.Reachable ClientProgram.step Always (· = p) q ∧ q.main = .ended) ↔ ¬ p.Jammed := by
  constructor
  · rintro ⟨q, hreach, hended⟩ hjam
    have hstuck : q.Jammed ∧ q.Inv ∧ q.Threads := by
      refine Runs.Reachable.invariant (I := fun p => p.Jammed ∧ p.Inv ∧ p.Threads) ?_ ?_ hreach
      · rintro _ rfl
        exact ⟨hjam, h.inv, h.threads⟩
      · rintro _ _ _ ⟨hjam, hinv, hthreads⟩ _ hstep
        exact ⟨hjam.step hthreads hinv.queue hstep, hinv.step hstep, hthreads.step hinv hstep⟩
    exact hstuck.1.not_ended hstuck.2.1 hended
  · intro hjam
    exact ClientProgram.Sound.canEnd ⟨h.inv, h.threads, hjam, .inl hstarted⟩

/-- After the end of the input, and while no signal comes in between, a program without such a
handler takes no more than `work` steps, and where it can take no more it has ended or waits for
the answer to a new discovery. -/
theorem ClientProgram.ends_after_input (h : p.Reachable) (hstarted : p.main.started = true)
    (hinput : p.input ≠ .reading) (hjam : ¬ p.Jammed) {events : List ProgramEvent}
    (hown : ∀ e ∈ events, e.own = true) (hrun : replay ClientProgram.step Always p events = some q) :
    events.length ≤ p.work ∧
      ((∀ e : ProgramEvent, e.own = true → q.step e = none) → q.main = .ended ∨ q.AwaitsServer) := by
  have hsound : p.Sound := ⟨h.inv, h.threads, hjam, .inl hstarted⟩
  obtain ⟨hsound', hinput'⟩ := hsound.replay hinput hown hrun
  refine ⟨Nat.le_of_add_right_le (ClientProgram.work_replay h.inv h.threads hown hrun), fun hstuck => ?_⟩
  by_cases hmain : q.main = .ended
  · exact .inl hmain
  · obtain ⟨e, u, he, hstep⟩ := hsound'.goesOn hmain
    rcases he with hown | hread | hfails
    · rw [hstuck e hown] at hstep
      contradiction
    · exact absurd hread.2.1 hinput'
    · exact .inr hfails.2

end

/-- A signal reaches the input thread inside the section that puts a line into the queue. -/
def unluckySignal : List ProgramEvent :=
  findServer ⟨10, 0, 0, 1⟩ ++ [.read (some strayLine), .queue (.lock .input), .sigint .input]

/-- One run jams, and the same one without the signal does not. -/
theorem ClientProgram.can_end_unless_unlucky :
    (∃ p : ClientProgram, p.Reachable ∧ p.Jammed ∧
      ¬ ∃ q, Runs.Reachable ClientProgram.step Always (· = p) q ∧ q.main = .ended) ∧
    ∃ p : ClientProgram, p.Reachable ∧ p.lines = [strayLine] ∧
      ∃ q, Runs.Reachable ClientProgram.step Always (· = p) q ∧ q.main = .ended := by
  constructor
  · obtain ⟨p, hreach, htest⟩ := exists_reachable_of_replay ClientProgram.step Always ClientProgram.Fresh
      (s := { port := 4000 }) unluckySignal
      (fun p => p.main.started = true ∧ (p.queue.stage .input).Holds ∧ p.queue.stage (.handler .input) ≠ .outside)
      ⟨4000, rfl⟩ (by decide +kernel)
    obtain ⟨hstarted, hholds, hhandler⟩ := of_decide_eq_true htest
    have hjam : p.Jammed := ⟨.input, .input, rfl, hholds, hhandler⟩
    exact ⟨p, hreach, hjam, fun hend => (ClientProgram.can_end_iff hreach hstarted).mp hend hjam⟩
  · obtain ⟨p, hreach, htest⟩ := exists_reachable_of_replay ClientProgram.step Always ClientProgram.Fresh
      (s := { port := 4000 }) (unluckySignal.take 6)
      (fun p => p.main.started = true ∧ p.lines = [strayLine] ∧
        ∀ thread, p.queue.stage (.handler thread) = .outside)
      ⟨4000, rfl⟩ (by decide +kernel)
    obtain ⟨hstarted, hlines, hhandlers⟩ := of_decide_eq_true htest
    refine ⟨p, hreach, hlines, (ClientProgram.can_end_iff hreach hstarted).mpr ?_⟩
    rintro ⟨thread, i, hi, hholds, hhandler⟩
    exact hhandler (hhandlers thread)

/-- The session of two lines, from the end of its input on. -/
theorem ClientProgram.ends_after_input_session :
    ∃ p q : ClientProgram, p.Reachable ∧ p.input = .shuttingDown ∧
      replay ClientProgram.step Always p (shortSession.drop 24) = some q ∧ (shortSession.drop 24).length ≤ p.work ∧
      ((∀ e : ProgramEvent, e.own = true → q.step e = none) → q.main = .ended ∨ q.AwaitsServer) := by
  obtain ⟨p, hreach, htest⟩ := exists_reachable_of_replay ClientProgram.step Always ClientProgram.Fresh
    (s := { port := 4000 }) (shortSession.take 24)
    (fun p => p.main.started = true ∧ p.input = .shuttingDown ∧
      (∀ thread, p.queue.stage (.handler thread) = .outside) ∧
      (replay ClientProgram.step Always p (shortSession.drop 24)).isSome = true) ⟨4000, rfl⟩ (by decide +kernel)
  obtain ⟨hstarted, hinput, hhandlers, hrest⟩ := of_decide_eq_true htest
  obtain ⟨q, hrun⟩ := Option.isSome_iff_exists.mp hrest
  have hjam : ¬ p.Jammed := fun ⟨thread, i, hi, hholds, hhandler⟩ => hhandler (hhandlers thread)
  exact ⟨p, q, hreach, hinput, hrun,
    ClientProgram.ends_after_input hreach hstarted (by rw [hinput]; decide) hjam (by decide) hrun⟩

end BankReplica
