import BankReplica.Calls
import BankReplica.Library.Runs

/-!
# Client processes and the network between them and one server

A client process works through user commands one at a time. Each command is sent and
resent under one sequence number until an acknowledgement for that number is read or
the retries are used up; the reply decides whether the number advances. The network
keeps every request and acknowledgement ever sent and may deliver any of them at any
time, which covers loss, duplication, delay and reordering.
-/

namespace BankReplica

variable (fl : FloatRounding)

/-- `MAX_RETRIES`. -/
def maxRetries : ℕ := 5

/-- A command line that `validateInput` accepts: the destination token and an `int`. -/
structure Command where
  destIp : List UInt8
  value : ℤ
  isInt : -2 ^ 31 ≤ value ∧ value < 2 ^ 31
deriving DecidableEq

/-- Where the communication thread of a client is. -/
inductive ClientPhase
  /-- Waiting for the next command. -/
  | idle
  /-- At the head of the loop of `executeRequestWithRetries`. -/
  | sending (command : Command) (retries : ℕ)
  /-- In `receiveResponse`. -/
  | receiving (command : Command) (retries : ℕ)
deriving DecidableEq

/-- The command being executed, if any. -/
def ClientPhase.command : ClientPhase → Option Command
  | .idle => none
  | .sending command _ => some command
  | .receiving command _ => some command

/-- `Client`, with the acknowledgements waiting in its socket. -/
structure ClientProcess where
  sequenceNumber : ℤ := 1
  phase : ClientPhase := .idle
  socket : List AckData := []
deriving DecidableEq

/-- The request `sendRequestPacket` fills in. `inet_pton` writes `dest_addr` only when it
accepts the text, so otherwise the packet carries what was in memory. -/
def ClientProcess.requestPacket (c : ClientProcess) (command : Command) (leftover : InAddr) : ReqData :=
  { destAddr := (inetPton (cString command.destIp)).getD leftover
    value := BitVec.ofInt 32 command.value
    seqn := BitVec.ofInt 32 c.sequenceNumber }

/-- The end of a turn of `executeRequestWithRetries` without an answer. -/
def ClientProcess.retry (c : ClientProcess) (command : Command) (retries : ℕ) : ClientProcess :=
  { c with
    phase := if retries + 1 < maxRetries then .sending command (retries + 1) else .idle }

/-- `incrementSequenceNumber`. -/
def ClientProcess.incrementSequenceNumber (c : ClientProcess) : ClientProcess :=
  { c with sequenceNumber := c.sequenceNumber + 1 }

/-- The two statuses on which `processCommand` moves on to the next sequence number. -/
def movesOn (status : Word) : Bool :=
  status = TransactionStatus.success.toWord ∨ status = TransactionStatus.errorDuplicateRequest.toWord

/-- The switch of `processCommand` on the status of an acknowledgement. On a code outside the
enumeration `discoverServer` follows, which may fail; `ClientProgram.step` has what it stores. -/
def ClientProcess.processAck (c : ClientProcess) (status : Word) : ClientProcess :=
  let done : ClientProcess := { c with phase := .idle }
  if movesOn status then done.incrementSequenceNumber else done

section

variable (c : ClientProcess) (status : Word)

@[simp] theorem ClientProcess.processAck_phase : (c.processAck status).phase = .idle := by
  unfold ClientProcess.processAck; split_ifs <;> rfl

@[simp] theorem ClientProcess.processAck_socket : (c.processAck status).socket = c.socket := by
  unfold ClientProcess.processAck; split_ifs <;> rfl

@[simp] theorem ClientProcess.processAck_sequenceNumber :
    (c.processAck status).sequenceNumber = c.sequenceNumber + if movesOn status then 1 else 0 := by
  unfold ClientProcess.processAck
  split_ifs
  · rfl
  · exact (add_zero _).symm

end

/-- A command that ended by taking an acknowledgement, with its sequence number. -/
structure Report where
  command : Command
  seqn : ℤ
  status : Word
deriving DecidableEq

/-- The steps of the communication thread. -/
inductive ClientEvent
  | start (command : Command)
  | send (leftover : InAddr)
  | timeout
  | receive
deriving DecidableEq

/-- What a step of a client leaves: the process, the request it sent, the command it ended. -/
structure ClientOutcome where
  process : ClientProcess
  sent : Option ReqData := none
  ended : Option Report := none
deriving DecidableEq

/-- One step of `processCommand` and `executeRequestWithRetries`. -/
def ClientProcess.step (c : ClientProcess) : ClientEvent → Option ClientOutcome
  | .start command =>
    match c.phase with
    | .idle => some { process := { c with phase := .sending command 0 } }
    | _ => none
  | .send leftover =>
    match c.phase with
    | .sending command retries =>
      some
        { process := { c with phase := .receiving command retries }
          sent := c.requestPacket command leftover }
    | _ => none
  | .timeout =>
    match c.phase with
    | .receiving command retries => some { process := c.retry command retries }
    | _ => none
  | .receive =>
    match c.phase, c.socket with
    | .receiving command retries, ack :: rest =>
      let taken : ClientProcess := { c with socket := rest }
      -- `receiveResponse` gives up this turn on an acknowledgement for another number
      if ack.seqn = BitVec.ofInt 32 c.sequenceNumber then
        some
          { process := taken.processAck ack.status
            ended := some ⟨command, c.sequenceNumber, ack.status⟩ }
      else some { process := taken.retry command retries }
    | _, _ => none

/-- The steps of a client, one constructor for each thing a step can do. -/
inductive ClientStep (c : ClientProcess) : ClientEvent → ClientOutcome → Prop
  | start (command : Command) (hphase : c.phase = .idle) :
    ClientStep c (.start command) { process := { c with phase := .sending command 0 } }
  | send (leftover : InAddr) (command : Command) (retries : ℕ) (hphase : c.phase = .sending command retries) :
    ClientStep c (.send leftover)
      { process := { c with phase := .receiving command retries }
        sent := c.requestPacket command leftover }
  | timeout (command : Command) (retries : ℕ) (hphase : c.phase = .receiving command retries) :
    ClientStep c .timeout { process := c.retry command retries }
  | taken (command : Command) (retries : ℕ) (ack : AckData) (rest : List AckData)
      (hphase : c.phase = .receiving command retries) (hsocket : c.socket = ack :: rest)
      (hseqn : ack.seqn = BitVec.ofInt 32 c.sequenceNumber) :
    ClientStep c .receive
      { process := { c with socket := rest }.processAck ack.status
        ended := some ⟨command, c.sequenceNumber, ack.status⟩ }
  | stale (command : Command) (retries : ℕ) (ack : AckData) (rest : List AckData)
      (hphase : c.phase = .receiving command retries) (hsocket : c.socket = ack :: rest)
      (hseqn : ack.seqn ≠ BitVec.ofInt 32 c.sequenceNumber) :
    ClientStep c .receive { process := { c with socket := rest }.retry command retries }

/-- A step does one of these things. -/
theorem ClientProcess.step_cases {c : ClientProcess} {event : ClientEvent} {outcome : ClientOutcome}
    (h : c.step event = some outcome) : ClientStep c event outcome := by
  cases event with
  | start command =>
    simp only [ClientProcess.step] at h
    split at h
    · exact (Option.some.inj h) ▸ .start command ‹_›
    · contradiction
  | send leftover =>
    simp only [ClientProcess.step] at h
    split at h
    · exact (Option.some.inj h) ▸ .send leftover _ _ ‹_›
    · contradiction
  | timeout =>
    simp only [ClientProcess.step] at h
    split at h
    · exact (Option.some.inj h) ▸ .timeout _ _ ‹_›
    · contradiction
  | receive =>
    simp only [ClientProcess.step] at h
    split at h
    · split at h
      · exact (Option.some.inj h) ▸ .taken _ _ _ _ ‹_› ‹_› ‹_›
      · exact (Option.some.inj h) ▸ .stale _ _ _ _ ‹_› ‹_› ‹_›
    · contradiction

/-- One server, a client process at every address, the packets ever sent, and the commands
ended so far. -/
structure Exchange where
  server : Server
  clients : InAddr → ClientProcess := fun _ => {}
  requests : List (InAddr × ReqData) := []
  acks : List (InAddr × AckData) := []
  reports : List (InAddr × Report) := []

/-- The steps of the clients, the network and the server. -/
inductive ExchangeEvent
  | discover (addr : InAddr)
  | client (addr : InAddr) (event : ClientEvent)
  | serve (k : ℕ)
  | arrive (k : ℕ)
deriving DecidableEq

/-- The port of a client's socket; no step depends on it. -/
def clientPort : UInt16 := 49152

/-- The acknowledgements among some packets, by the address they go to. -/
def acksIn (sends : List Send) : List (InAddr × AckData) :=
  sends.filterMap fun send =>
    match send.packet with
    | .transactionAck ack => some (send.dest.sinAddr, ack)
    | _ => none

/-- One step. -/
def Exchange.step (x : Exchange) : ExchangeEvent → Option Exchange
  | .discover addr =>
    some { x with server := (x.server.handleDiscoveryPacket fl ⟨addr, clientPort⟩).1 }
  | .client addr event => do
    let outcome ← (x.clients addr).step event
    some
      { x with
        clients := Function.update x.clients addr outcome.process
        requests := x.requests ++ (outcome.sent.map (addr, ·)).toList
        reports := x.reports ++ (outcome.ended.map (addr, ·)).toList }
  | .serve k => do
    let (addr, req) ← x.requests[k]?
    if x.server.currentRole = .primary then
      let (server, _, sends) := x.server.handleTransactionRequest fl req ⟨addr, clientPort⟩
      some { x with server := server, acks := x.acks ++ acksIn sends }
    else some x
  | .arrive k => do
    let (addr, ack) ← x.acks[k]?
    let c := x.clients addr
    some { x with clients := Function.update x.clients addr { c with socket := c.socket ++ [ack] } }

/-- Serving a request acts on the ledger as the call it decodes to. -/
theorem Server.serve_toLedger (s : Server) (addr : InAddr) (req : ReqData) :
    (s.handleTransactionRequest fl req ⟨addr, clientPort⟩).1.toLedger =
      s.toLedger.apply fl (requestCall addr req) :=
  s.processTransaction_toLedger fl _ _ _ _

/-- The steps of the exchange, one constructor for each thing a step can do. -/
inductive ExchangeStep (x : Exchange) : ExchangeEvent → Exchange → Prop
  | discover (addr : InAddr) :
    ExchangeStep x (.discover addr)
      { x with server := (x.server.handleDiscoveryPacket fl ⟨addr, clientPort⟩).1 }
  | client (addr : InAddr) (event : ClientEvent) (outcome : ClientOutcome)
      (houtcome : (x.clients addr).step event = some outcome) :
    ExchangeStep x (.client addr event)
      { x with
        clients := Function.update x.clients addr outcome.process
        requests := x.requests ++ (outcome.sent.map (addr, ·)).toList
        reports := x.reports ++ (outcome.ended.map (addr, ·)).toList }
  | served (k : ℕ) (addr : InAddr) (req : ReqData) (hreq : x.requests[k]? = some (addr, req))
      (hrole : x.server.currentRole = .primary) :
    ExchangeStep x (.serve k)
      { x with
        server := (x.server.handleTransactionRequest fl req ⟨addr, clientPort⟩).1
        acks := x.acks ++ acksIn (x.server.handleTransactionRequest fl req ⟨addr, clientPort⟩).2.2 }
  | ignored (k : ℕ) (hrole : x.server.currentRole ≠ .primary) : ExchangeStep x (.serve k) x
  | arrive (k : ℕ) (addr : InAddr) (ack : AckData) (hack : x.acks[k]? = some (addr, ack)) :
    ExchangeStep x (.arrive k)
      { x with
        clients := Function.update x.clients addr
          { x.clients addr with socket := (x.clients addr).socket ++ [ack] } }

/-- A step does one of these things. -/
theorem Exchange.step_cases {x y : Exchange} {e : ExchangeEvent} (h : x.step fl e = some y) :
    ExchangeStep fl x e y := by
  cases e with
  | discover addr => exact (Option.some.inj h) ▸ .discover addr
  | client addr event =>
    obtain ⟨outcome, houtcome, hy⟩ := Option.bind_eq_some_iff.mp h
    exact (Option.some.inj hy) ▸ .client addr event outcome houtcome
  | serve k =>
    obtain ⟨⟨addr, req⟩, hreq, hy⟩ := Option.bind_eq_some_iff.mp h
    simp only at hy
    split at hy
    · exact (Option.some.inj hy) ▸ .served k addr req hreq ‹_›
    · exact (Option.some.inj hy) ▸ .ignored k ‹_›
  | arrive k =>
    obtain ⟨⟨addr, ack⟩, hack, hy⟩ := Option.bind_eq_some_iff.mp h
    exact (Option.some.inj hy) ▸ .arrive k addr ack hack

/-- A server that is primary from its fresh start, and clients that have not done anything. -/
def freshExchange (serverId : Word) (port : UInt16) : Exchange where
  server := freshPrimary serverId port

end BankReplica
