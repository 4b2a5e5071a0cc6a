import BankReplica.CommandLines
import BankReplica.Library.WorkQueue
import Mathlib.Data.Fintype.Basic

/-!
# The threads of a client program

`start` looks for the server and starts two threads. The input thread reads lines and puts
those that are not empty into a queue; at the end of the input it closes the queue. The
communication thread takes lines from the queue and executes one at a time, until the queue
is closed and empty. A third thread listens for the announcements of new primaries and stores
their sender under `server_mutex`, while `discoverServer` stores the server it has found
without it, field by field. `SIGINT` may interrupt any thread, and its handler closes the
queue on top of what the thread was doing.
-/

namespace BankReplica

/-- A line of standard input, without its newline. -/
abbrev Line := List UInt8

/-- The threads of a client program. -/
inductive ClientThread
  | main
  | input
  | communication
  | announcement
deriving DecidableEq

instance : Fintype ClientThread where
  elems := {.main, .input, .communication, .announcement}
  complete thread := by cases thread <;> decide

/-- Who calls into the queue: two threads, and the signal handler on top of any thread. -/
inductive QueueUser
  | input
  | communication
  | handler (thread : ClientThread)
deriving DecidableEq

instance : Fintype QueueUser where
  elems := {.input, .communication} ∪ Finset.univ.image .handler
  complete user := by cases user <;> simp

/-- Where `main` is. -/
inductive MainPhase
  /-- In the `discoverServer` of `start`. -/
  | discovering
  | joiningInput
  | joiningCommunication
  | ended
  /-- `start` caught the failure of `discoverServer`, and the program is over. -/
  | failed
deriving DecidableEq

/-- Where `userInputThread` is. -/
inductive InputPhase
  /-- In its loop over the lines. -/
  | reading
  /-- The input has ended, and the thread is in `shutdown`. -/
  | shuttingDown
  | ended
deriving DecidableEq

/-- Where `communicationThread` is. -/
inductive CommunicationPhase
  /-- In `tryGetCommandFromQueue`, or before it. -/
  | fetching
  /-- In `executeRequestWithRetries` for a line. -/
  | processing (line : Line)
  /-- In the `discoverServer` of `processCommand`. -/
  | rediscovering (line : Line)
  | ended
deriving DecidableEq

/-- `server_address` and `server_sock_addr`. -/
structure ServerView where
  serverAddress : List UInt8 := []
  serverSockAddr : SockAddr := ⟨⟨0, 0, 0, 0⟩, 0⟩
deriving DecidableEq

/-- What `discoverServer` has still to do once a server has answered. -/
inductive Storing
  /-- The server at the address has answered. -/
  | answered (addr : InAddr)
  /-- `server_address` is set. -/
  | named
  /-- The new socket is open, and `inet_pton` has read `server_address`. -/
  | resolved (addr : Option InAddr)
deriving DecidableEq

/-- What `listenForAnnouncements` does with an announcement. -/
def ServerView.announced (v : ServerView) (port : UInt16) (senderAddr : InAddr) : ServerView :=
  let newIp := (inetNtop senderAddr).bytes
  if newIp ≠ v.serverAddress then
    { serverAddress := newIp
      serverSockAddr := ⟨(inetPton (cString newIp)).getD ⟨0, 0, 0, 0⟩, port⟩ }
  else v

/-- What a client program has to do with servers. -/
inductive JournalEntry
  /-- A server has answered a discovery or announced itself. -/
  | heard (addr : InAddr)
  /-- `executeRequestWithRetries` has copied `server_sock_addr`. -/
  | copied (dest : SockAddr)
  /-- `sendRequestPacket` was called, whether or not its `sendto` succeeds. -/
  | sent (dest : SockAddr) (req : ReqData)
deriving DecidableEq

/-- The server heard of. -/
def JournalEntry.leader : JournalEntry → Option InAddr
  | .heard addr => some addr
  | _ => none

/-- The packet sent, with its destination. -/
def JournalEntry.packet : JournalEntry → Option (SockAddr × ReqData)
  | .sent dest req => some (dest, req)
  | _ => none

/-- `Client` and `ClientInterface`, with `current_server_addr` while it waits for its packet, the
lines read and processed, the dealings with servers in the order of time, and the number of
signals. -/
structure ClientProgram where
  port : UInt16
  main : MainPhase := .discovering
  input : InputPhase := .reading
  communication : CommunicationPhase := .fetching
  queue : WorkQueue.State QueueUser Line := {}
  process : ClientProcess := {}
  view : ServerView := {}
  storing : Option Storing := none
  currentServerAddr : Option SockAddr := none
  typed : List Line := []
  processed : List Line := []
  journal : List JournalEntry := []
  interrupts : ℕ := 0

/-- The servers that answered a discovery or announced themselves. -/
def ClientProgram.leaders (p : ClientProgram) : List InAddr := p.journal.filterMap JournalEntry.leader

/-- The packets sent, with their destinations. -/
def ClientProgram.sent (p : ClientProgram) : List (SockAddr × ReqData) := p.journal.filterMap JournalEntry.packet

section

variable {p q : ClientProgram}

/-- The packets sent grow with the journal. -/
theorem ClientProgram.sent_of_journal {entry : JournalEntry} (h : q.journal = p.journal ++ [entry]) :
    q.sent = p.sent ++ entry.packet.toList := by
  rw [ClientProgram.sent, h, List.filterMap_append]
  cases entry <;> rfl

/-- The servers heard of grow with the journal. -/
theorem ClientProgram.leaders_of_journal {entry : JournalEntry} (h : q.journal = p.journal ++ [entry]) :
    q.leaders = p.leaders ++ entry.leader.toList := by
  rw [ClientProgram.leaders, h, List.filterMap_append]
  cases entry <;> rfl

end

/-- The steps of a client program. -/
inductive ProgramEvent
  /-- The `discoverServer` of `start` gets an answer, or fails. -/
  | discovered (addr : InAddr)
  | discoveryFails
  /-- `getline` returns, at the end of the input without a line. -/
  | read (line : Option Line)
  | inputEnds
  /-- `tryGetCommandFromQueue` is called, and returns. -/
  | fetch
  | fetched
  /-- A turn of `executeRequestWithRetries` copies `server_sock_addr`. -/
  | copyAddress
  | client (event : ClientEvent)
  /-- The `discoverServer` of `processCommand` gets an answer, or fails. -/
  | rediscovered (addr : InAddr)
  | rediscoveryFails
  /-- `discoverServer` goes on with an answer. -/
  | store
  /-- A thread goes on inside its call into the queue, or wakes there without cause. -/
  | queue (event : WorkQueue.Event QueueUser Line)
  | sigint (thread : ClientThread)
  | arrive (ack : AckData)
  | announced (addr : InAddr)
  | joinInput
  | joinCommunication
deriving DecidableEq

/-- The program has not left `main`. -/
def MainPhase.running : MainPhase → Bool
  | .ended | .failed => false
  | _ => true

/-- The two threads of the interface have been started. -/
def MainPhase.started : MainPhase → Bool
  | .joiningInput | .joiningCommunication => true
  | _ => false

/-- The thread exists. -/
def ClientProgram.alive (p : ClientProgram) : ClientThread → Bool
  | .main | .announcement => p.main.running
  | .input => p.main.started && p.input != .ended
  | .communication => p.main.started && p.communication != .ended

/-- The thread exists and no signal handler runs on top of it. -/
def ClientProgram.runs (p : ClientProgram) (thread : ClientThread) : Bool :=
  p.alive thread && p.queue.stage (.handler thread) == .outside

/-- The user of the queue is not suspended. -/
def ClientProgram.free (p : ClientProgram) : QueueUser → Bool
  | .input => p.runs .input
  | .communication => p.runs .communication
  | .handler thread => p.alive thread

/-- A status that `processCommand` answers with a new discovery. -/
def rediscovers (status : Word) : Bool :=
  !movesOn status && decide (TransactionStatus.errorOutOfSequence.toWord < status)

/-- The start of `processCommand` for a line. -/
def ClientProgram.processCommand (p : ClientProgram) (line : Line) : Option ClientProgram :=
  match validateInput line with
  | none => some { p with communication := .fetching, processed := p.processed ++ [line] }
  | some command =>
    (p.process.step (.start command)).map fun outcome =>
      { p with communication := .processing line, process := outcome.process }

/-- The program after a step of `executeRequestWithRetries`, and of the switch after it. -/
def ClientProgram.after (p : ClientProgram) (line : Line) (outcome : ClientOutcome) : ClientProgram :=
  let worked : ClientProgram := { p with process := outcome.process }
  if outcome.process.phase = .idle then
    if outcome.ended.any (fun report => rediscovers report.status) then
      { worked with communication := .rediscovering line }
    else { worked with communication := .fetching, processed := p.processed ++ [line] }
  else worked

section

variable (p : ClientProgram) (line : Line) (outcome : ClientOutcome)

@[simp] theorem ClientProgram.after_port : (p.after line outcome).port = p.port := by
  unfold ClientProgram.after; split_ifs <;> rfl

@[simp] theorem ClientProgram.after_main : (p.after line outcome).main = p.main := by
  unfold ClientProgram.after; split_ifs <;> rfl

@[simp] theorem ClientProgram.after_input : (p.after line outcome).input = p.input := by
  unfold ClientProgram.after; split_ifs <;> rfl

@[simp] theorem ClientProgram.after_queue : (p.after line outcome).queue = p.queue := by
  unfold ClientProgram.after; split_ifs <;> rfl

@[simp] theorem ClientProgram.after_process : (p.after line outcome).process = outcome.process := by
  unfold ClientProgram.after; split_ifs <;> rfl

@[simp] theorem ClientProgram.after_view : (p.after line outcome).view = p.view := by
  unfold ClientProgram.after; split_ifs <;> rfl

@[simp] theorem ClientProgram.after_storing : (p.after line outcome).storing = p.storing := by
  unfold ClientProgram.after; split_ifs <;> rfl

@[simp] theorem ClientProgram.after_currentServerAddr :
    (p.after line outcome).currentServerAddr = p.currentServerAddr := by
  unfold ClientProgram.after; split_ifs <;> rfl

@[simp] theorem ClientProgram.after_typed : (p.after line outcome).typed = p.typed := by
  unfold ClientProgram.after; split_ifs <;> rfl

@[simp] theorem ClientProgram.after_journal : (p.after line outcome).journal = p.journal := by
  unfold ClientProgram.after; split_ifs <;> rfl

@[simp] theorem ClientProgram.after_interrupts : (p.after line outcome).interrupts = p.interrupts := by
  unfold ClientProgram.after; split_ifs <;> rfl

end

/-- The thread that is in `discoverServer`, if one is. -/
def ClientProgram.discoverer (p : ClientProgram) : Option ClientThread :=
  if p.main = .discovering then some .main
  else
    match p.communication with
    | .rediscovering _ => some .communication
    | _ => none

/-- The return of `discoverServer`, into `start` or into `processCommand`. -/
def ClientProgram.discoveryReturns (p : ClientProgram) : ClientProgram :=
  if p.main = .discovering then { p with main := .joiningInput }
  else
    match p.communication with
    | .rediscovering line => { p with communication := .fetching, processed := p.processed ++ [line] }
    | _ => p

/-- The next thing that `discoverServer` does with an answer. The port is the same whoever sets it. -/
def ClientProgram.store (p : ClientProgram) : Storing → ClientProgram
  | .answered addr =>
    { p with
      storing := some .named
      view := { p.view with serverAddress := (inetNtop addr).bytes } }
  | .named =>
    { p with
      storing := some (.resolved (inetPton (cString p.view.serverAddress)))
      process := { p.process with socket := [] } }
  | .resolved addr =>
    ClientProgram.discoveryReturns
      { p with
        storing := none
        view := { p.view with serverSockAddr := ⟨addr.getD p.view.serverSockAddr.sinAddr, p.port⟩ } }

/-- One step. -/
def ClientProgram.step (p : ClientProgram) : ProgramEvent → Option ClientProgram
  | .discovered addr =>
    if p.runs .main = true ∧ p.main = .discovering ∧ p.storing = none then
      some { p with storing := some (.answered addr), journal := p.journal ++ [.heard addr] }
    else none
  | .discoveryFails =>
    if p.runs .main = true ∧ p.main = .discovering ∧ p.storing = none then some { p with main := .failed }
    else none
  | .read line =>
    if p.runs .input = true ∧ p.input = .reading then
      match line with
      | none =>
        (p.queue.step (.close .input)).map fun queue => { p with queue := queue, input := .shuttingDown }
      | some line =>
        if p.queue.stage .input = .outside then
          if line = [] then some { p with typed := p.typed ++ [line] }
          else
            (p.queue.step (.put .input line)).map fun queue =>
              { p with queue := queue, typed := p.typed ++ [line] }
        else none
    else none
  | .inputEnds =>
    if p.runs .input = true ∧ p.input = .shuttingDown ∧ p.queue.stage .input = .outside then
      some { p with input := .ended }
    else none
  | .fetch =>
    if p.runs .communication = true ∧ p.communication = .fetching then
      (p.queue.step (.take .communication)).map fun queue => { p with queue := queue }
    else none
  | .fetched =>
    if p.runs .communication = true then
      match p.queue.stage .communication with
      | .returning result => do
        let queue ← p.queue.step (.leave .communication)
        match result with
        | none => some { p with queue := queue, communication := .ended }
        | some line => ClientProgram.processCommand { p with queue := queue } line
      | _ => none
    else none
  | .copyAddress =>
    if p.runs .communication = true ∧ p.currentServerAddr = none then
      match p.communication, p.process.phase with
      | .processing _, .sending _ _ =>
        some
          { p with
            currentServerAddr := some p.view.serverSockAddr
            journal := p.journal ++ [.copied p.view.serverSockAddr] }
      | _, _ => none
    else none
  | .client event =>
    if p.runs .communication = true then
      match p.communication, event with
      | .processing _, .start _ => none
      | .processing _, .send leftover => do
        -- the packet goes to the copy, outside `server_mutex`
        let dest ← p.currentServerAddr
        let outcome ← p.process.step (.send leftover)
        some
          { p with
            process := outcome.process
            currentServerAddr := none
            journal := p.journal ++ (outcome.sent.map (.sent dest)).toList }
      | .processing line, event => (p.process.step event).map (p.after line)
      | _, _ => none
    else none
  | .rediscovered addr =>
    if p.runs .communication = true ∧ p.storing = none then
      match p.communication with
      | .rediscovering _ => some { p with storing := some (.answered addr), journal := p.journal ++ [.heard addr] }
      | _ => none
    else none
  | .rediscoveryFails =>
    if p.runs .communication = true ∧ p.storing = none then
      match p.communication with
      -- the exception is caught, and the client goes on with the socket and the addresses it has
      | .rediscovering line => some { p with communication := .fetching, processed := p.processed ++ [line] }
      | _ => none
    else none
  | .store => if p.discoverer.any p.runs = true then p.storing.map p.store else none
  | .queue event =>
    if p.main.running = true then
      match event with
      | .spurious i => (p.queue.step (.spurious i)).map fun queue => { p with queue := queue }
      | event =>
        if event.own.any p.free = true then
          (p.queue.step event).map fun queue => { p with queue := queue }
        else none
    else none
  | .sigint thread =>
    if p.runs thread = true then
      (p.queue.step (.close (.handler thread))).map fun queue =>
        { p with queue := queue, interrupts := p.interrupts + 1 }
    else none
  | .arrive ack =>
    if p.main.running = true then
      some { p with process := { p.process with socket := p.process.socket ++ [ack] } }
    else none
  | .announced addr =>
    if p.runs .announcement = true then
      some { p with view := p.view.announced p.port addr, journal := p.journal ++ [.heard addr] }
    else none
  | .joinInput =>
    if p.runs .main = true ∧ p.main = .joiningInput ∧ p.input = .ended then
      some { p with main := .joiningCommunication }
    else none
  | .joinCommunication =>
    if p.runs .main = true ∧ p.main = .joiningCommunication ∧ p.communication = .ended then
      some { p with main := .ended }
    else none

/-- The steps of a client program, one constructor for each thing a step can do. -/
inductive ProgramStep (p : ClientProgram) : ProgramEvent → ClientProgram → Prop
  | discovered (addr : InAddr) (hruns : p.runs .main = true) (hmain : p.main = .discovering)
      (hstoring : p.storing = none) :
    ProgramStep p (.discovered addr)
      { p with storing := some (.answered addr), journal := p.journal ++ [.heard addr] }
  | discoveryFails (hruns : p.runs .main = true) (hmain : p.main = .discovering) (hstoring : p.storing = none) :
    ProgramStep p .discoveryFails { p with main := .failed }
  | readEnd (queue : WorkQueue.State QueueUser Line) (hruns : p.runs .input = true)
      (hinput : p.input = .reading) (hqueue : p.queue.step (.close .input) = some queue) :
    ProgramStep p (.read none) { p with queue := queue, input := .shuttingDown }
  | readEmpty (hruns : p.runs .input = true) (hinput : p.input = .reading)
      (houtside : p.queue.stage .input = .outside) :
    ProgramStep p (.read (some [])) { p with typed := p.typed ++ [[]] }
  | readLine (line : Line) (queue : WorkQueue.State QueueUser Line) (hruns : p.runs .input = true)
      (hinput : p.input = .reading) (hline : line ≠ []) (hqueue : p.queue.step (.put .input line) = some queue) :
    ProgramStep p (.read (some line)) { p with queue := queue, typed := p.typed ++ [line] }
  | inputEnds (hruns : p.runs .input = true) (hinput : p.input = .shuttingDown)
      (houtside : p.queue.stage .input = .outside) :
    ProgramStep p .inputEnds { p with input := .ended }
  | fetch (queue : WorkQueue.State QueueUser Line) (hruns : p.runs .communication = true)
      (hcomm : p.communication = .fetching) (hqueue : p.queue.step (.take .communication) = some queue) :
    ProgramStep p .fetch { p with queue := queue }
  | fetchedNone (queue : WorkQueue.State QueueUser Line) (hruns : p.runs .communication = true)
      (hstage : p.queue.stage .communication = .returning none)
      (hqueue : p.queue.step (.leave .communication) = some queue) :
    ProgramStep p .fetched { p with queue := queue, communication := .ended }
  | fetchedInvalid (line : Line) (queue : WorkQueue.State QueueUser Line) (hruns : p.runs .communication = true)
      (hstage : p.queue.stage .communication = .returning (some line))
      (hqueue : p.queue.step (.leave .communication) = some queue) (hline : validateInput line = none) :
    ProgramStep p .fetched
      { p with queue := queue, communication := .fetching, processed := p.processed ++ [line] }
  | fetchedValid (line : Line) (queue : WorkQueue.State QueueUser Line) (command : Command)
      (outcome : ClientOutcome) (hruns : p.runs .communication = true)
      (hstage : p.queue.stage .communication = .returning (some line))
      (hqueue : p.queue.step (.leave .communication) = some queue) (hline : validateInput line = some command)
      (houtcome : p.process.step (.start command) = some outcome) :
    ProgramStep p .fetched
      { p with queue := queue, communication := .processing line, process := outcome.process }
  | copyAddress (line : Line) (command : Command) (retries : ℕ) (hruns : p.runs .communication = true)
      (hnone : p.currentServerAddr = none) (hcomm : p.communication = .processing line)
      (hphase : p.process.phase = .sending command retries) :
    ProgramStep p .copyAddress
      { p with
        currentServerAddr := some p.view.serverSockAddr
        journal := p.journal ++ [.copied p.view.serverSockAddr] }
  | send (leftover : InAddr) (line : Line) (dest : SockAddr) (command : Command) (retries : ℕ)
      (hruns : p.runs .communication = true) (hcomm : p.communication = .processing line)
      (hdest : p.currentServerAddr = some dest) (hphase : p.process.phase = .sending command retries) :
    ProgramStep p (.client (.send leftover))
      { p with
        process := { p.process with phase := .receiving command retries }
        currentServerAddr := none
        journal := p.journal ++ [.sent dest (p.process.requestPacket command leftover)] }
  | client (line : Line) (event : ClientEvent) (outcome : ClientOutcome) (hruns : p.runs .communication = true)
      (hcomm : p.communication = .processing line) (hevent : event = .timeout ∨ event = .receive)
      (houtcome : p.process.step event = some outcome) :
    ProgramStep p (.client event) (p.after line outcome)
  | rediscovered (addr : InAddr) (line : Line) (hruns : p.runs .communication = true)
      (hcomm : p.communication = .rediscovering line) (hstoring : p.storing = none) :
    ProgramStep p (.rediscovered addr)
      { p with storing := some (.answered addr), journal := p.journal ++ [.heard addr] }
  | rediscoveryFails (line : Line) (hruns : p.runs .communication = true)
      (hcomm : p.communication = .rediscovering line) (hstoring : p.storing = none) :
    ProgramStep p .rediscoveryFails { p with communication := .fetching, processed := p.processed ++ [line] }
  | named (addr : InAddr) (thread : ClientThread) (hthread : p.discoverer = some thread) (hruns : p.runs thread = true)
      (hstoring : p.storing = some (.answered addr)) :
    ProgramStep p .store
      { p with
        storing := some .named
        view := { p.view with serverAddress := (inetNtop addr).bytes } }
  | resolved (thread : ClientThread) (hthread : p.discoverer = some thread) (hruns : p.runs thread = true)
      (hstoring : p.storing = some .named) :
    ProgramStep p .store
      { p with
        storing := some (.resolved (inetPton (cString p.view.serverAddress)))
        process := { p.process with socket := [] } }
  | started (addr : Option InAddr) (hruns : p.runs .main = true) (hmain : p.main = .discovering)
      (hstoring : p.storing = some (.resolved addr)) :
    ProgramStep p .store
      { p with
        main := .joiningInput
        storing := none
        view := { p.view with serverSockAddr := ⟨addr.getD p.view.serverSockAddr.sinAddr, p.port⟩ } }
  | resumed (addr : Option InAddr) (line : Line) (hruns : p.runs .communication = true)
      (hcomm : p.communication = .rediscovering line) (hstoring : p.storing = some (.resolved addr)) :
    ProgramStep p .store
      { p with
        communication := .fetching
        storing := none
        view := { p.view with serverSockAddr := ⟨addr.getD p.view.serverSockAddr.sinAddr, p.port⟩ }
        processed := p.processed ++ [line] }
  | spurious (i : QueueUser) (queue : WorkQueue.State QueueUser Line) (hrunning : p.main.running = true)
      (hqueue : p.queue.step (.spurious i) = some queue) :
    ProgramStep p (.queue (.spurious i)) { p with queue := queue }
  | queue (event : WorkQueue.Event QueueUser Line) (i : QueueUser) (queue : WorkQueue.State QueueUser Line)
      (hrunning : p.main.running = true) (hown : event.own = some i) (hfree : p.free i = true)
      (hqueue : p.queue.step event = some queue) :
    ProgramStep p (.queue event) { p with queue := queue }
  | sigint (thread : ClientThread) (queue : WorkQueue.State QueueUser Line) (hruns : p.runs thread = true)
      (hqueue : p.queue.step (.close (.handler thread)) = some queue) :
    ProgramStep p (.sigint thread) { p with queue := queue, interrupts := p.interrupts + 1 }
  | arrive (ack : AckData) (hrunning : p.main.running = true) :
    ProgramStep p (.arrive ack) { p with process := { p.process with socket := p.process.socket ++ [ack] } }
  | announced (addr : InAddr) (hruns : p.runs .announcement = true) :
    ProgramStep p (.announced addr)
      { p with view := p.view.announced p.port addr, journal := p.journal ++ [.heard addr] }
  | joinInput (hruns : p.runs .main = true) (hmain : p.main = .joiningInput) (hinput : p.input = .ended) :
    ProgramStep p .joinInput { p with main := .joiningCommunication }
  | joinCommunication (hruns : p.runs .main = true) (hmain : p.main = .joiningCommunication)
      (hcomm : p.communication = .ended) :
    ProgramStep p .joinCommunication { p with main := .ended }

/-- Where `discoverServer` may be. -/
theorem ClientProgram.discoverer_eq {p : ClientProgram} {thread : ClientThread} (h : p.discoverer = some thread) :
    (p.main = .discovering ∧ thread = .main) ∨
      p.main ≠ .discovering ∧ (∃ line, p.communication = .rediscovering line) ∧ thread = .communication := by
  simp only [ClientProgram.discoverer] at h
  split at h
  · exact .inl ⟨‹_›, (Option.some.inj h).symm⟩
  · split at h
    · exact .inr ⟨‹_›, ⟨_, ‹_›⟩, (Option.some.inj h).symm⟩
    · contradiction

/-- The last thing `discoverServer` stores takes its caller on. -/
theorem ClientProgram.store_resolved {p : ClientProgram} {thread : ClientThread} {addr : Option InAddr}
    (hthread : p.discoverer = some thread) (hruns : p.runs thread = true)
    (hstoring : p.storing = some (.resolved addr)) : ProgramStep p .store (p.store (.resolved addr)) := by
  cases ClientProgram.discoverer_eq hthread with
  | inl hmain =>
    obtain ⟨hmain, rfl⟩ := hmain
    simpa only [ClientProgram.store, ClientProgram.discoveryReturns, hmain, if_true] using
      ProgramStep.started addr hruns hmain hstoring
  | inr hcomm =>
    obtain ⟨hmain, ⟨line, hcomm⟩, rfl⟩ := hcomm
    simpa only [ClientProgram.store, ClientProgram.discoveryReturns, hmain, if_false, hcomm] using
      ProgramStep.resumed addr line hruns hcomm hstoring

/-- A step does one of these things. -/
theorem ClientProgram.step_cases {p q : ClientProgram} {e : ProgramEvent} (h : p.step e = some q) :
    ProgramStep p e q := by
  cases e with
  | discovered addr =>
    simp only [ClientProgram.step] at h
    split at h
    · rename_i hwhen
      exact (Option.some.inj h) ▸ .discovered addr hwhen.1 hwhen.2.1 hwhen.2.2
    · contradiction
  | discoveryFails =>
    simp only [ClientProgram.step] at h
    split at h
    · rename_i hwhen
      exact (Option.some.inj h) ▸ .discoveryFails hwhen.1 hwhen.2.1 hwhen.2.2
    · contradiction
  | read line =>
    simp only [ClientProgram.step] at h
    split at h
    · rename_i hwhen
      cases line with
      | none =>
        obtain ⟨queue, hqueue, rfl⟩ := Option.map_eq_some_iff.mp h
        exact .readEnd queue hwhen.1 hwhen.2 hqueue
      | some line =>
        simp only at h
        split at h
        · split at h
          · rename_i houtside hline
            subst hline
            exact (Option.some.inj h) ▸ .readEmpty hwhen.1 hwhen.2 houtside
          · obtain ⟨queue, hqueue, rfl⟩ := Option.map_eq_some_iff.mp h
            exact .readLine line queue hwhen.1 hwhen.2 ‹_› hqueue
        · contradiction
    · contradiction
  | inputEnds =>
    simp only [ClientProgram.step] at h
    split at h
    · rename_i hwhen
      exact (Option.some.inj h) ▸ .inputEnds hwhen.1 hwhen.2.1 hwhen.2.2
    · contradiction
  | fetch =>
    simp only [ClientProgram.step] at h
    split at h
    · rename_i hwhen
      obtain ⟨queue, hqueue, rfl⟩ := Option.map_eq_some_iff.mp h
      exact .fetch queue hwhen.1 hwhen.2 hqueue
    · contradiction
  | fetched =>
    simp only [ClientProgram.step] at h
    split at h
    · split at h
      · obtain ⟨queue, hqueue, hrest⟩ := Option.bind_eq_some_iff.mp h
        rename_i hruns _ result hstage
        cases result with
        | none => exact (Option.some.inj hrest) ▸ .fetchedNone queue hruns hstage hqueue
        | some line =>
          simp only [ClientProgram.processCommand] at hrest
          split at hrest
          · exact (Option.some.inj hrest) ▸ .fetchedInvalid line queue hruns hstage hqueue ‹_›
          · obtain ⟨outcome, houtcome, rfl⟩ := Option.map_eq_some_iff.mp hrest
            exact .fetchedValid line queue _ outcome hruns hstage hqueue ‹_› houtcome
      · contradiction
    · contradiction
  | copyAddress =>
    simp only [ClientProgram.step] at h
    split at h
    · rename_i hwhen
      split at h
      · exact (Option.some.inj h) ▸ .copyAddress _ _ _ hwhen.1 hwhen.2 ‹_› ‹_›
      · contradiction
    · contradiction
  | client event =>
    simp only [ClientProgram.step] at h
    split at h
    · split at h
      · contradiction
      · obtain ⟨dest, hdest, hrest⟩ := Option.bind_eq_some_iff.mp h
        obtain ⟨outcome, houtcome, hq⟩ := Option.bind_eq_some_iff.mp hrest
        cases ClientProcess.step_cases houtcome with
        | send _ command retries hphase =>
          exact (Option.some.inj hq) ▸ .send _ _ dest command retries ‹_› ‹_› hdest hphase
      · rename_i event _ _ _ _ hstart hsend
        obtain ⟨outcome, houtcome, rfl⟩ := Option.map_eq_some_iff.mp h
        refine .client _ _ outcome ‹_› ‹_› ?_ houtcome
        cases event with
        | start command => exact absurd rfl (hstart command)
        | send leftover => exact absurd rfl (hsend leftover)
        | timeout => exact .inl rfl
        | receive => exact .inr rfl
      · contradiction
    · contradiction
  | rediscovered addr =>
    simp only [ClientProgram.step] at h
    split at h
    · rename_i hwhen
      split at h
      · exact (Option.some.inj h) ▸ .rediscovered addr _ hwhen.1 ‹_› hwhen.2
      · contradiction
    · contradiction
  | rediscoveryFails =>
    simp only [ClientProgram.step] at h
    split at h
    · rename_i hwhen
      split at h
      · exact (Option.some.inj h) ▸ .rediscoveryFails _ hwhen.1 ‹_› hwhen.2
      · contradiction
    · contradiction
  | store =>
    simp only [ClientProgram.step] at h
    split at h
    · rename_i hruns
      obtain ⟨thread, hthread, hruns⟩ := (Option.any_eq_true _ _).mp hruns
      obtain ⟨storing, hstoring, rfl⟩ := Option.map_eq_some_iff.mp h
      cases storing with
      | answered addr => exact .named addr thread hthread hruns hstoring
      | named => exact .resolved thread hthread hruns hstoring
      | resolved addr => exact ClientProgram.store_resolved hthread hruns hstoring
    · contradiction
  | queue event =>
    simp only [ClientProgram.step] at h
    split at h
    · split at h
      · obtain ⟨queue, hqueue, rfl⟩ := Option.map_eq_some_iff.mp h
        exact .spurious _ queue ‹_› hqueue
      · split at h
        · rename_i hfree
          obtain ⟨queue, hqueue, rfl⟩ := Option.map_eq_some_iff.mp h
          obtain ⟨i, hown, hfree⟩ := (Option.any_eq_true _ _).mp hfree
          exact .queue event i queue ‹_› hown hfree hqueue
        · contradiction
    · contradiction
  | sigint thread =>
    simp only [ClientProgram.step] at h
    split at h
    · obtain ⟨queue, hqueue, rfl⟩ := Option.map_eq_some_iff.mp h
      exact .sigint thread queue ‹_› hqueue
    · contradiction
  | arrive ack =>
    simp only [ClientProgram.step] at h
    split at h
    · exact (Option.some.inj h) ▸ .arrive ack ‹_›
    · contradiction
  | announced addr =>
    simp only [ClientProgram.step] at h
    split at h
    · exact (Option.some.inj h) ▸ .announced addr ‹_›
    · contradiction
  | joinInput =>
    simp only [ClientProgram.step] at h
    split at h
    · rename_i hwhen
      exact (Option.some.inj h) ▸ .joinInput hwhen.1 hwhen.2.1 hwhen.2.2
    · contradiction
  | joinCommunication =>
    simp only [ClientProgram.step] at h
    split at h
    · rename_i hwhen
      exact (Option.some.inj h) ▸ .joinCommunication hwhen.1 hwhen.2.1 hwhen.2.2
    · contradiction

/-- A step adds one entry to the journal or none. -/
theorem ClientProgram.journal_step {p q : ClientProgram} {e : ProgramEvent} (h : p.step e = some q) :
    q.journal = p.journal ∨ ∃ entry, q.journal = p.journal ++ [entry] := by
  cases ClientProgram.step_cases h with
  | discovered | copyAddress | send | rediscovered | announced => exact .inr ⟨_, rfl⟩
  | client line event outcome => exact .inl (ClientProgram.after_journal ..)
  | _ => exact .inl rfl

/-- A client program before `start`. -/
def ClientProgram.Fresh (p : ClientProgram) : Prop := ∃ port, p = { port := port }

/-- The client programs in any run. -/
def ClientProgram.Reachable (p : ClientProgram) : Prop :=
  Runs.Reachable ClientProgram.step Runs.Always ClientProgram.Fresh p

end BankReplica
