import BankReplica.Resumption

/-!
# A backlog of acknowledgements does not drain

The socket of a client waits a few milliseconds for an acknowledgement, and one that comes later
stays in it. The next command reads it, takes it for no answer and sends its request once more, so
that two answers come for this command and one is left again. Take a client in step with the server,
all of whose leftovers are for other numbers. Even when from then on every request is answered in
time, each command that the balance pays for is sent as many times more as acknowledgements were left
over. From `MAX_RETRIES` of them on a command is given up although the server has executed it, and a
later one, which the server takes for the same, is reported in its place.
-/

namespace BankReplica

variable (fl : FloatRounding)

/-- One turn of `executeRequestWithRetries` in which the answer comes before the timeout. -/
def Session.exchange (addr : InAddr) (x : Session) (leftover : InAddr) : Option (Session × Option Report) := do
  let sending ← x.client.step (.send leftover)
  let req ← sending.sent
  let (server, _, sends) := x.server.handleTransactionRequest fl req ⟨addr, clientPort⟩
  let waiting := sending.process
  let taken ← { waiting with socket := waiting.socket ++ (acksIn sends).map Prod.snd }.step .receive
  some (⟨server, taken.process⟩, taken.ended)

/-- At most so many turns until the command ends, with the number of requests sent. -/
def Session.exchanges (addr : InAddr) (leftover : InAddr) :
    ℕ → Session → Option (Session × ℕ × Option Report)
  | 0, _ => none
  | turns + 1, x => do
    let (y, report) ← x.exchange fl addr leftover
    if y.client.phase = .idle then some (y, 1, report)
    else do
      let (z, sent, report) ← Session.exchanges addr leftover turns y
      some (z, sent + 1, report)

/-- One command from its start to its end. -/
def Session.command (addr : InAddr) (x : Session) (command : Command) (leftover : InAddr) :
    Option (Session × ℕ × Option Report) := do
  let started ← x.client.step (.start command)
  Session.exchanges fl addr leftover maxRetries { x with client := started.process }

/-- Answers to one number, of which the first says that the command has been executed. -/
structure AnswersTo (seqn : Word) (answers : List AckData) : Prop where
  seqn : ∀ ack ∈ answers, ack.seqn = seqn
  first : ∀ ack ∈ answers.head?, ack.status = TransactionStatus.success.toWord

/-- A client whose socket holds acknowledgements for other numbers and after them answers to the
current one. The server has executed that number as soon as it is answered. -/
structure Session.Backlogged (addr : InAddr) (x : Session) (phase : ClientPhase) (stale answered : ℕ) :
    Prop where
  phase : x.client.phase = phase
  nodup : x.server.addresses.Nodup
  next : x.seqn = x.lastReq addr + if answered = 0 then 1 else 0
  socket : ∃ earlier answers, x.client.socket = earlier ++ answers ∧ earlier.length = stale ∧
    answers.length = answered ∧ (∀ ack ∈ earlier, ack.seqn ≠ BitVec.ofInt 32 x.client.sequenceNumber) ∧
    AnswersTo (BitVec.ofInt 32 x.client.sequenceNumber) answers

variable {fl} {addr : InAddr} {x y : Session} {command : Command} {leftover : InAddr} {phase : ClientPhase}
  {stale answered : ℕ}

variable (fl addr leftover) in
/-- What a turn does: the answer goes to the end of the socket, and what is at its front is read. -/
theorem Session.exchange_eq {j : ℕ} (hphase : x.client.phase = .sending command j) {first : AckData}
    {rest : List AckData} :
    let req := x.client.requestPacket command leftover
    let served := x.server.handleTransactionRequest fl req ⟨addr, clientPort⟩
    x.client.socket ++ [ackOf req.seqn.toInt served.2.1] = first :: rest →
    x.exchange fl addr leftover =
      if first.seqn = BitVec.ofInt 32 x.client.sequenceNumber then
        some (⟨served.1, { x.client with phase := .receiving command j, socket := rest }.processAck first.status⟩,
          some ⟨command, x.client.sequenceNumber, first.status⟩)
      else
        some
          (⟨served.1, { x.client with phase := .receiving command j, socket := rest }.retry command j⟩, none) := by
  intro req served hsocket
  have hsteps : x.exchange fl addr leftover =
      (({ x.client with
          phase := .receiving command j
          socket := x.client.socket ++ (acksIn served.2.2).map Prod.snd } : ClientProcess).step .receive).bind
        fun taken => some (⟨served.1, taken.process⟩, taken.ended) := by
    simp only [Session.exchange, ClientProcess.step, hphase]
    rfl
  have hacks : acksIn served.2.2 = [(addr, ackOf req.seqn.toInt served.2.1)] :=
    acksIn_handleTransactionRequest _ _ _
  rw [hsteps, hacks, List.map_singleton, hsocket]
  simp only [ClientProcess.step]
  split <;> rfl

/-- The request that every turn of a command sends. -/
def Session.call (addr : InAddr) (x : Session) (command : Command) (leftover : InAddr) : Call :=
  requestCall addr (x.client.requestPacket command leftover)

variable (fl) in
/-- The ledger once the command has been executed. -/
def Session.paid (addr : InAddr) (x : Session) (command : Command) (leftover : InAddr) : Ledger :=
  x.server.toLedger.apply fl (x.call addr command leftover)

variable (leftover) in
/-- The server's part of a turn: the first request of a command that can be paid is executed, a
further one is not. -/
theorem Session.Backlogged.serve (h : x.Backlogged addr phase stale answered)
    (hafford : answered = 0 → x.CanAfford fl addr command) :
    (x.paid fl addr command leftover).addresses.Nodup ∧
      (x.paid fl addr command leftover).lastRequestOf (inetNtop addr) = x.seqn ∧
      (answered = 0 → x.server.requestVerdict fl ⟨addr, clientPort⟩ (x.client.requestPacket command leftover) =
        .success) ∧
      (answered ≠ 0 → x.paid fl addr command leftover = x.server.toLedger) := by
  have hnext := h.next
  by_cases hfirst : answered = 0
  · rw [if_pos hfirst] at hnext
    have hsuccess := (hafford hfirst).requestVerdict leftover
    rw [if_neg (by omega), if_neg (by omega)] at hsuccess
    have hpaid : x.paid fl addr command leftover = x.server.toLedger.commit fl (inetNtop addr) _ _ _ :=
      if_pos hsuccess
    refine ⟨?_, ?_, fun _ => hsuccess, fun hanswered => absurd hfirst hanswered⟩
    · rw [hpaid, Ledger.commit_addresses]
      exact h.nodup
    · rw [hpaid, Ledger.lastRequestOf_commit h.nodup hsuccess, if_pos rfl]
      rfl
  · rw [if_neg hfirst, add_zero] at hnext
    have hrejected : x.server.requestVerdict fl ⟨addr, clientPort⟩ (x.client.requestPacket command leftover) ≠
        .success := by
      intro haccept
      obtain ⟨source, -, hsource, -, hseqn, -⟩ := (Ledger.verdict_eq_success fl).mp haccept
      have hlast : x.lastReq addr = source.lastReq := by
        rw [Session.lastReq, Ledger.lastRequestOf_eq, hsource]
        rfl
      have hsame : x.seqn = source.lastReq + 1 := hseqn
      omega
    have hpaid : x.paid fl addr command leftover = x.server.toLedger := if_neg hrejected
    rw [hpaid]
    exact ⟨h.nodup, hnext.symm, fun hzero => absurd hzero hfirst, fun _ => rfl⟩

variable (fl command leftover) in
/-- A request for a number that has been answered changes nothing. -/
theorem Session.Backlogged.paid_again (h : x.Backlogged addr phase stale (answered + 1)) :
    x.paid fl addr command leftover = x.server.toLedger :=
  (h.serve leftover (absurd · (Nat.succ_ne_zero _))).2.2.2 (Nat.succ_ne_zero _)

/-- One more answer goes to the end of the answers. -/
theorem AnswersTo.append {seqn : Word} {answers : List AckData} (h : AnswersTo seqn answers) {ack : AckData}
    (hseqn : ack.seqn = seqn) (hfirst : answers.length = 0 → ack.status = TransactionStatus.success.toWord) :
    AnswersTo seqn (answers ++ [ack]) := by
  constructor
  · intro other hother
    rcases List.mem_append.mp hother with hold | hnew
    · exact h.seqn other hold
    · exact (List.mem_singleton.mp hnew) ▸ hseqn
  · intro other hother
    cases answers with
    | nil => exact (Option.some.inj hother) ▸ hfirst rfl
    | cons first rest => exact h.first other hother

variable (leftover) in
/-- The acknowledgement of a turn is one answer more. -/
theorem Session.Backlogged.answer (h : x.Backlogged addr phase stale answered)
    (hafford : answered = 0 → x.CanAfford fl addr command) :
    let req := x.client.requestPacket command leftover
    let served := x.server.handleTransactionRequest fl req ⟨addr, clientPort⟩
    ∃ earlier answers, x.client.socket ++ [ackOf req.seqn.toInt served.2.1] = earlier ++ answers ∧
      earlier.length = stale ∧ answers.length = answered + 1 ∧
      (∀ ack ∈ earlier, ack.seqn ≠ BitVec.ofInt 32 x.client.sequenceNumber) ∧
      AnswersTo (BitVec.ofInt 32 x.client.sequenceNumber) answers := by
  intro req served
  obtain ⟨earlier, answers, hsocket, hstale, hanswered, hearlier, hanswers⟩ := h.socket
  have hstatus : (ackOf req.seqn.toInt served.2.1).status =
      (x.server.requestVerdict fl ⟨addr, clientPort⟩ req).toWord :=
    congrArg TransactionStatus.toWord (x.server.processTransaction_status fl _ _ _ _)
  have hfirst : answers.length = 0 →
      (ackOf req.seqn.toInt served.2.1).status = TransactionStatus.success.toWord := by
    intro hempty
    rw [hstatus, (h.serve leftover hafford).2.2.1 (hanswered ▸ hempty)]
  refine ⟨earlier, answers ++ [ackOf req.seqn.toInt served.2.1], ?_, hstale, ?_, hearlier,
    hanswers.append BitVec.ofInt_toInt hfirst⟩
  · rw [hsocket, List.append_assoc]
  · rw [List.length_append, hanswered, List.length_singleton]

variable (fl) in
/-- The server after a request of the command. -/
def Session.served (addr : InAddr) (x : Session) (command : Command) (leftover : InAddr) : Server :=
  (x.server.handleTransactionRequest fl (x.client.requestPacket command leftover) ⟨addr, clientPort⟩).1

variable (leftover) in
/-- A turn that reads an acknowledgement for another number is one retry more, and its answer stays. -/
theorem Session.Backlogged.exchange_stale {j : ℕ}
    (h : x.Backlogged addr (.sending command j) (stale + 1) answered)
    (hafford : answered = 0 → x.CanAfford fl addr command) :
    ∃ y, x.exchange fl addr leftover = some (y, none) ∧
      y.Backlogged addr (if j + 1 < maxRetries then .sending command (j + 1) else .idle) stale (answered + 1) ∧
      y.server.toLedger = x.paid fl addr command leftover ∧
      y.client.sequenceNumber = x.client.sequenceNumber := by
  obtain ⟨hnodup, hlast, -, -⟩ := h.serve leftover hafford
  obtain ⟨earlier, answers, hsocket, hstale, hanswered, hearlier, hanswers⟩ := h.answer leftover hafford
  obtain ⟨first, rest, rfl⟩ := List.exists_cons_of_length_eq_add_one hstale
  have hexchange := Session.exchange_eq fl addr leftover h.phase hsocket
  rw [if_neg (hearlier first (List.mem_cons_self ..))] at hexchange
  have hledger : (x.served fl addr command leftover).toLedger = x.paid fl addr command leftover :=
    x.server.serve_toLedger fl addr _
  have hlength : rest.length = stale := by simpa using hstale
  refine ⟨_, hexchange, ⟨rfl, ?_, ?_, rest, answers, rfl, hlength, hanswered, ?_, hanswers⟩, hledger, rfl⟩
  · exact hledger ▸ hnodup
  · rw [← hledger] at hlast
    rw [if_neg (Nat.succ_ne_zero _), add_zero]
    exact hlast.symm
  · exact fun ack hack => hearlier ack (List.mem_cons_of_mem first hack)

variable (leftover) in
/-- A turn that reads an answer ends the command with the answer to its first request. -/
theorem Session.Backlogged.exchange_answered {j : ℕ} (h : x.Backlogged addr (.sending command j) 0 answered)
    (hafford : answered = 0 → x.CanAfford fl addr command) :
    ∃ y, x.exchange fl addr leftover =
        some (y, some ⟨command, x.client.sequenceNumber, TransactionStatus.success.toWord⟩) ∧
      y.client.phase = .idle ∧ y.client.socket.length = answered ∧
      (∀ ack ∈ y.client.socket, ack.seqn = BitVec.ofInt 32 x.client.sequenceNumber) ∧
      y.server.toLedger = x.paid fl addr command leftover ∧
      y.client.sequenceNumber = x.client.sequenceNumber + 1 := by
  obtain ⟨earlier, answers, hsocket, hstale, hanswered, hearlier, hanswers⟩ := h.answer leftover hafford
  obtain ⟨first, rest, rfl⟩ := List.exists_cons_of_length_eq_add_one hanswered
  rw [List.eq_nil_of_length_eq_zero hstale, List.nil_append] at hsocket
  have hexchange := Session.exchange_eq fl addr leftover h.phase hsocket
  rw [if_pos (hanswers.seqn first (List.mem_cons_self ..)), hanswers.first first rfl] at hexchange
  refine ⟨_, hexchange, ClientProcess.processAck_phase .., ?_, ?_, x.server.serve_toLedger fl addr _,
    ClientProcess.processAck_sequenceNumber ..⟩
  · rw [ClientProcess.processAck_socket]
    simpa using hanswered
  · rw [ClientProcess.processAck_socket]
    exact fun ack hack => hanswers.seqn ack (List.mem_cons_of_mem first hack)

variable (leftover) in
/-- A command with fewer acknowledgements in front of its answers than turns left ends with the answer
to its first request. -/
theorem Session.Backlogged.exchanges_reported {turns j : ℕ}
    (h : x.Backlogged addr (.sending command j) stale answered)
    (hafford : answered = 0 → x.CanAfford fl addr command) (hturns : turns + j = maxRetries)
    (hstale : stale < turns) :
    ∃ y, Session.exchanges fl addr leftover turns x =
        some (y, stale + 1, some ⟨command, x.client.sequenceNumber, TransactionStatus.success.toWord⟩) ∧
      y.client.phase = .idle ∧ y.client.socket.length = answered + stale ∧
      (∀ ack ∈ y.client.socket, ack.seqn = BitVec.ofInt 32 x.client.sequenceNumber) ∧
      y.server.toLedger = x.paid fl addr command leftover ∧
      y.client.sequenceNumber = x.client.sequenceNumber + 1 := by
  obtain ⟨turns, rfl⟩ := Nat.exists_eq_add_one.mpr (Nat.zero_lt_of_lt hstale)
  induction stale generalizing x j turns answered with
  | zero =>
    obtain ⟨y, hexchange, hidle, hrest⟩ := h.exchange_answered leftover hafford
    refine ⟨y, ?_, hidle, hrest⟩
    simp only [Session.exchanges, hexchange, Option.bind_eq_bind, Option.bind_some, if_pos hidle]
  | succ stale ih =>
    obtain ⟨y, hexchange, hy, hledger, hnumber⟩ := h.exchange_stale leftover hafford
    rw [if_pos (by omega)] at hy
    obtain ⟨turns, rfl⟩ : ∃ t, turns = t + 1 := Nat.exists_eq_add_one.mpr (by omega)
    have hbusy : y.client.phase ≠ .idle := by
      rw [hy.phase]
      exact nofun
    obtain ⟨z, hexchanges, hidle, hlength, hacks, hpaid, hmoved⟩ :=
      ih hy (absurd · (Nat.succ_ne_zero _)) turns (by omega) (by omega)
    rw [hnumber] at hexchanges hacks hmoved
    have hsame := (hy.paid_again fl command leftover).trans hledger
    refine ⟨z, ?_, hidle, by omega, hacks, hpaid.trans hsame, hmoved⟩
    rw [Session.exchanges]
    simp only [hexchange, Option.bind_eq_bind, Option.bind_some, if_neg hbusy, hexchanges]

variable (leftover) in
/-- A command with as many acknowledgements in front of its answers as turns left is given up. -/
theorem Session.Backlogged.exchanges_givenUp {turns j : ℕ}
    (h : x.Backlogged addr (.sending command j) stale answered)
    (hafford : answered = 0 → x.CanAfford fl addr command) (hturns : turns + 1 + j = maxRetries)
    (hstale : turns + 1 ≤ stale) :
    ∃ y, Session.exchanges fl addr leftover (turns + 1) x = some (y, turns + 1, none) ∧
      y.Backlogged addr .idle (stale - (turns + 1)) (answered + (turns + 1)) ∧
      y.server.toLedger = x.paid fl addr command leftover ∧
      y.client.sequenceNumber = x.client.sequenceNumber := by
  induction turns generalizing x j stale answered with
  | zero =>
    obtain ⟨stale, rfl⟩ : ∃ t, stale = t + 1 := Nat.exists_eq_add_one.mpr (by omega)
    obtain ⟨y, hexchange, hy, hledger, hnumber⟩ := h.exchange_stale leftover hafford
    rw [if_neg (by omega)] at hy
    refine ⟨y, ?_, hy, hledger, hnumber⟩
    simp only [Session.exchanges, hexchange, Option.bind_eq_bind, Option.bind_some, if_pos hy.phase]
  | succ turns ih =>
    obtain ⟨stale, rfl⟩ : ∃ t, stale = t + 1 := Nat.exists_eq_add_one.mpr (by omega)
    obtain ⟨y, hexchange, hy, hledger, hnumber⟩ := h.exchange_stale leftover hafford
    rw [if_pos (by omega)] at hy
    have hbusy : y.client.phase ≠ .idle := by
      rw [hy.phase]
      exact nofun
    obtain ⟨z, hexchanges, hz, hpaid, hkept⟩ := ih hy (absurd · (Nat.succ_ne_zero _)) (by omega) (by omega)
    have hsame := (hy.paid_again fl command leftover).trans hledger
    refine ⟨z, ?_, ?_, hpaid.trans hsame, hkept.trans hnumber⟩
    · rw [Session.exchanges]
      simp only [hexchange, Option.bind_eq_bind, Option.bind_some, if_neg hbusy, hexchanges]
    · rw [Nat.add_sub_add_right, show answered + (turns + 1 + 1) = answered + 1 + (turns + 1) by omega]
      exact hz

/-- What a command does that is started with acknowledgements for other numbers in front of the answers
to its own. -/
inductive Session.CommandResult (addr : InAddr) (x : Session) (command : Command) (stale answered : ℕ) :
    Session × ℕ × Option Report → Prop
  | reported (y : Session) (hfew : stale < maxRetries)
      (hnumber : y.client.sequenceNumber = x.client.sequenceNumber + 1)
      (hnext : 1 ≤ x.client.sequenceNumber → y.client.sequenceNumber < 2 ^ 31 →
        y.Backlogged addr .idle (answered + stale) 0) :
    CommandResult addr x command stale answered
      (y, stale + 1, some ⟨command, x.client.sequenceNumber, TransactionStatus.success.toWord⟩)
  | givenUp (y : Session) (hmany : maxRetries ≤ stale)
      (hnumber : y.client.sequenceNumber = x.client.sequenceNumber)
      (hnext : y.Backlogged addr .idle (stale - maxRetries) (answered + maxRetries)) :
    CommandResult addr x command stale answered (y, maxRetries, none)

/-- The acknowledgements left of a command are for another number than the next one. -/
theorem backlogged_of_answered (h : x.Backlogged addr phase stale answered)
    (hafford : answered = 0 → x.CanAfford fl addr command) (hidle : y.client.phase = .idle)
    (hacks : ∀ ack ∈ y.client.socket, ack.seqn = BitVec.ofInt 32 x.client.sequenceNumber)
    (hledger : y.server.toLedger = x.paid fl addr command leftover)
    (hnumber : y.client.sequenceNumber = x.client.sequenceNumber + 1) (hpositive : 1 ≤ x.client.sequenceNumber)
    (hint : y.client.sequenceNumber < 2 ^ 31) : y.Backlogged addr .idle y.client.socket.length 0 := by
  obtain ⟨hnodup, hlast, -, -⟩ := h.serve leftover hafford
  have hbefore := x.seqn_eq hpositive (by omega)
  have hafter := y.seqn_eq (by omega) hint
  rw [← hledger] at hnodup hlast
  refine ⟨hidle, hnodup, ?_, y.client.socket, [], (List.append_nil _).symm, rfl, rfl, ?_, ⟨nofun, nofun⟩⟩
  · have hlast' : y.lastReq addr = x.seqn := hlast
    rw [if_pos rfl]
    omega
  · intro ack hack hsame
    have hwords := (hacks ack hack).symm.trans hsame
    have hints := congrArg BitVec.toInt hwords
    rw [Session.seqn] at hbefore hafter
    omega

/-- A command is carried out at once, and it is reported only if fewer acknowledgements were left over
than it has turns. -/
theorem Session.Backlogged.command_result (h : x.Backlogged addr .idle stale answered) (command : Command)
    (leftover : InAddr) (hafford : answered = 0 → x.CanAfford fl addr command) :
    ∃ result, x.command fl addr command leftover = some result ∧
      result.1.server.toLedger = x.paid fl addr command leftover ∧
      x.CommandResult addr command stale answered result := by
  let started : Session := { x with client := { x.client with phase := .sending command 0 } }
  have hstarted : started.Backlogged addr (.sending command 0) stale answered := ⟨rfl, h.nodup, h.next, h.socket⟩
  have hcommand : x.command fl addr command leftover = Session.exchanges fl addr leftover maxRetries started := by
    simp only [Session.command, ClientProcess.step, h.phase]
    rfl
  rw [hcommand]
  by_cases hfew : stale < maxRetries
  · obtain ⟨y, hexchanges, hidle, hlength, hacks, hledger, hnumber⟩ :=
      hstarted.exchanges_reported leftover hafford rfl hfew
    refine ⟨_, hexchanges, hledger, .reported y hfew hnumber fun hpositive hint => ?_⟩
    exact hlength ▸ backlogged_of_answered h hafford hidle hacks hledger hnumber hpositive hint
  · obtain ⟨y, hexchanges, hy, hledger, hnumber⟩ :=
      hstarted.exchanges_givenUp leftover hafford (rfl : 4 + 1 + 0 = maxRetries) (not_lt.mp hfew)
    exact ⟨_, hexchanges, hledger, .givenUp y (not_lt.mp hfew) hnumber hy⟩

/-! ## Command after command -/

variable (fl) in
/-- A user who enters one command after the other, with requests of other clients in between. -/
structure Backlog (addr : InAddr) (x : Session) (commands : ℕ → Command) (sessions : ℕ → Session)
    (results : ℕ → Session × ℕ × Option Report) (last : ℕ) : Prop where
  start : sessions 0 = x
  turn : ∀ n ≤ last, ∃ leftover, (sessions n).command fl addr (commands n) leftover = some (results n)
  others : ∀ n < last, ∃ others, (∀ e ∈ others, FromOthers addr e) ∧
    sessions (n + 1) = ⟨(results n).1.server.wireRun fl others, (results n).1.client⟩

/-- Other clients leave the backlog as it is. -/
theorem Session.Backlogged.wireRun (h : x.Backlogged addr phase stale answered) {others : List WireEvent}
    (hothers : ∀ e ∈ others, FromOthers addr e) :
    (⟨x.server.wireRun fl others, x.client⟩ : Session).Backlogged addr phase stale answered := by
  obtain ⟨hnodup, hlast⟩ := wireRun_others fl h.nodup hothers
  exact ⟨h.phase, hnodup, h.next.trans (congrArg (· + _) hlast.symm), h.socket⟩

variable {commands : ℕ → Command} {sessions : ℕ → Session} {results : ℕ → Session × ℕ × Option Report}
  {backlog last : ℕ}

/-- What the `n`-th command does. -/
theorem Backlog.result (h : Backlog fl addr x commands sessions results last) {n : ℕ} (hturn : n ≤ last)
    (hn : (sessions n).Backlogged addr .idle stale answered)
    (hafford : answered = 0 → (sessions n).CanAfford fl addr (commands n)) :
    (∃ leftover, (results n).1.server.toLedger = (sessions n).paid fl addr (commands n) leftover) ∧
      (sessions n).CommandResult addr (commands n) stale answered (results n) := by
  obtain ⟨leftover, hcommand⟩ := h.turn n hturn
  obtain ⟨result, hresult, hledger, hdone⟩ := hn.command_result (commands n) leftover hafford
  obtain rfl : result = results n := Option.some.inj (hresult.symm.trans hcommand)
  exact ⟨⟨leftover, hledger⟩, hdone⟩

end BankReplica
