import BankReplica.Overdraft
import BankReplica.SequenceWindow

/-!
# A client out of step with its server

After a restart or a failover the number a client uses next and the last one the server
has executed need not fit together. A client that is behind is answered with duplicates
until it has caught up, since a duplicate moves it on. A client that is ahead is answered
out of sequence, and that answer moves neither side.
-/

namespace BankReplica

open Runs

variable (fl : FloatRounding)

/-- A server and one of its clients. -/
structure Session where
  server : Server
  client : ClientProcess

/-- One command of the client: the request is served and the client reads the answer. -/
def Session.issue (addr : InAddr) (x : Session) (command : Command) (leftover : InAddr) :
    Option (Session × Report) := do
  let started ← x.client.step (.start command)
  let sending ← started.process.step (.send leftover)
  let req ← sending.sent
  let (server, _, sends) := x.server.handleTransactionRequest fl req ⟨addr, clientPort⟩
  let waiting := sending.process
  let taken ← { waiting with socket := waiting.socket ++ (acksIn sends).map Prod.snd }.step .receive
  let report ← taken.ended
  some (⟨server, taken.process⟩, report)

/-- A client between two commands, with nothing left over from earlier ones. -/
structure Session.Ready (x : Session) : Prop where
  idle : x.client.phase = .idle
  drained : x.client.socket = []
  nodup : x.server.addresses.Nodup

/-- A command to a registered client that the balance pays for. -/
def Session.CanAfford (addr : InAddr) (x : Session) (command : Command) : Prop :=
  ∃ dest source, inetPton (cString command.destIp) = some dest ∧ inetNtop dest ∈ x.server.addresses ∧
    x.server.account (inetNtop addr) = some source ∧ fl command.value ≤ source.balance

/-- The server executes the command. -/
def Session.Executes (addr : InAddr) (x : Session) (command : Command) : Prop :=
  ∃ leftover answered report, x.issue fl addr command leftover = some (answered, report) ∧
    answered.server.transactionHistory.length = x.server.transactionHistory.length + 1

/-- The last request of the client that the server has executed. -/
def Session.lastReq (addr : InAddr) (x : Session) : ℤ := x.server.lastRequestOf (inetNtop addr)

/-- The number of the next request, as the server decodes it. -/
def Session.seqn (x : Session) : ℤ := (BitVec.ofInt 32 x.client.sequenceNumber).toInt

/-- What a command that can be paid leads to. -/
inductive Answered (addr : InAddr) (x y : Session) : Prop
  | duplicate (hseqn : x.seqn ≤ x.lastReq addr) (hledger : y.server.toLedger = x.server.toLedger)
      (hnumber : y.client.sequenceNumber = x.client.sequenceNumber + 1)
  | outOfSequence (hseqn : x.lastReq addr + 1 < x.seqn) (hledger : y.server.toLedger = x.server.toLedger)
      (hnumber : y.client.sequenceNumber = x.client.sequenceNumber)
  | executed (hseqn : x.seqn = x.lastReq addr + 1) (hlast : y.lastReq addr = x.lastReq addr + 1)
      (hlog : y.server.transactionHistory.length = x.server.transactionHistory.length + 1)
      (hnumber : y.client.sequenceNumber = x.client.sequenceNumber + 1)

variable {fl}

variable (fl) in
/-- A client between two commands issues one request and moves on by the verdict on it. -/
theorem Session.Ready.issue {x : Session} (h : x.Ready) (addr : InAddr) (command : Command) (leftover : InAddr) :
    let req := x.client.requestPacket command leftover
    let status := x.server.requestVerdict fl ⟨addr, clientPort⟩ req
    ∃ y report, x.issue fl addr command leftover = some (y, report) ∧
      y.server = (x.server.handleTransactionRequest fl req ⟨addr, clientPort⟩).1 ∧
      y.client.phase = .idle ∧ y.client.socket = [] ∧
      y.client.sequenceNumber = x.client.sequenceNumber + if movesOn status.toWord then 1 else 0 := by
  intro req status
  let served := x.server.handleTransactionRequest fl req ⟨addr, clientPort⟩
  let ack := ackOf req.seqn.toInt served.2.1
  let waiting : ClientProcess := { x.client with phase := .receiving command 0 }
  have hacks : acksIn served.2.2 = [(addr, ack)] := acksIn_handleTransactionRequest _ _ _
  have hsocket : waiting.socket ++ (acksIn served.2.2).map Prod.snd = [ack] := by
    rw [hacks]
    exact congrArg (· ++ [ack]) h.drained
  have hstatus : ack.status = status.toWord :=
    congrArg TransactionStatus.toWord (x.server.processTransaction_status fl _ _ _ _)
  have hseqn : ack.seqn = BitVec.ofInt 32 x.client.sequenceNumber := BitVec.ofInt_toInt
  let drained : ClientProcess := { waiting with socket := [] }
  have hissue : x.issue fl addr command leftover =
      some (⟨served.1, drained.processAck status.toWord⟩, ⟨command, x.client.sequenceNumber, status.toWord⟩) := by
    have hsteps : x.issue fl addr command leftover =
        (({ waiting with socket := waiting.socket ++ (acksIn served.2.2).map Prod.snd } : ClientProcess).step
          .receive).bind fun taken => taken.ended.bind fun report => some (⟨served.1, taken.process⟩, report) := by
      simp only [Session.issue, ClientProcess.step, h.idle]
      rfl
    rw [hsteps, hsocket, ← hstatus]
    simp only [ClientProcess.step, waiting, hseqn, if_true]
    rfl
  exact ⟨_, _, hissue, rfl, drained.processAck_phase _, drained.processAck_socket _,
    drained.processAck_sequenceNumber _⟩

/-- The request of a command that can be paid is judged by its number alone. -/
theorem Session.CanAfford.requestVerdict {addr : InAddr} {x : Session} {command : Command}
    (h : x.CanAfford fl addr command) (leftover : InAddr) :
    x.server.requestVerdict fl ⟨addr, clientPort⟩ (x.client.requestPacket command leftover) =
      if x.seqn ≤ x.lastReq addr then .errorDuplicateRequest
      else if x.seqn > x.lastReq addr + 1 then .errorOutOfSequence
      else .success := by
  obtain ⟨dest, source, hdest, hregistered, hsource, hpays⟩ := h
  obtain ⟨destClient, hdestClient⟩ := Option.isSome_iff_exists.mp (Ledger.account_isSome.mpr hregistered)
  have hvalue : (BitVec.ofInt 32 command.value).toInt = command.value :=
    BitVec.toInt_ofInt_eq_self (by decide) command.isInt.1 command.isInt.2
  have hlast : x.lastReq addr = source.lastReq := by
    rw [Session.lastReq, Ledger.lastRequestOf_eq, hsource]
    rfl
  simp only [Ledger.requestVerdict, ClientProcess.requestPacket, hdest, Option.getD_some, hvalue]
  rw [Ledger.verdict_of_accounts fl hsource hdestClient, if_neg (not_lt.mpr hpays), hlast]
  rfl

/-- The number of a client whose counter is an `int` is decoded as it is. -/
theorem Session.seqn_eq {x : Session} (hpositive : 1 ≤ x.client.sequenceNumber)
    (hint : x.client.sequenceNumber < 2 ^ 31) : x.seqn = x.client.sequenceNumber :=
  BitVec.toInt_ofInt_eq_self (by decide) (by omega) hint

/-- A command that can be paid has one of three answers, and leaves the client ready. -/
theorem Session.Ready.answered {addr : InAddr} {x : Session} (h : x.Ready) {command : Command}
    (hafford : x.CanAfford fl addr command) (leftover : InAddr) :
    ∃ y report, x.issue fl addr command leftover = some (y, report) ∧ y.Ready ∧ Answered addr x y := by
  obtain ⟨y, report, hissue, hserver, hidle, hdrained, hnumber⟩ := h.issue fl addr command leftover
  have hverdict := hafford.requestVerdict leftover
  have hledger := x.server.handleTransactionRequest_toLedger fl ⟨addr, clientPort⟩
    (x.client.requestPacket command leftover)
  rw [← hserver] at hledger
  refine ⟨y, report, hissue, ?_⟩
  by_cases hduplicate : x.seqn ≤ x.lastReq addr
  · rw [if_pos hduplicate] at hverdict
    rw [hverdict, if_neg (by decide)] at hledger
    rw [hverdict, if_pos (by decide)] at hnumber
    exact ⟨⟨hidle, hdrained, hledger ▸ h.nodup⟩, .duplicate hduplicate hledger hnumber⟩
  · by_cases hskips : x.seqn > x.lastReq addr + 1
    · rw [if_neg hduplicate, if_pos hskips] at hverdict
      rw [hverdict, if_neg (by decide)] at hledger
      rw [hverdict, if_neg (by decide), add_zero] at hnumber
      exact ⟨⟨hidle, hdrained, hledger ▸ h.nodup⟩, .outOfSequence hskips hledger hnumber⟩
    · rw [if_neg hduplicate, if_neg hskips] at hverdict
      rw [if_pos hverdict] at hledger
      rw [hverdict, if_pos (by decide)] at hnumber
      have hlast : y.lastReq addr = x.seqn := by
        rw [Session.lastReq, hledger, Ledger.lastRequestOf_commit h.nodup hverdict, if_pos rfl]
        rfl
      refine ⟨⟨hidle, hdrained, ?_⟩, .executed (by omega) (by omega) ?_ hnumber⟩
      · rw [hledger, Ledger.commit_addresses]
        exact h.nodup
      · rw [hledger, Ledger.commit_transactionHistory, List.length_append, List.length_singleton]

/-- Whether a command that can be paid is executed depends on the two counters alone. -/
theorem Session.Ready.executes_iff {addr : InAddr} {x : Session} (h : x.Ready) {command : Command}
    (hafford : x.CanAfford fl addr command) : x.Executes fl addr command ↔ x.seqn = x.lastReq addr + 1 := by
  constructor
  · intro ⟨leftover, y, report, hissue, hlog⟩
    obtain ⟨y', report', hissue', _, hanswered⟩ := h.answered hafford leftover
    obtain ⟨rfl, -⟩ := Prod.mk.inj (Option.some.inj (hissue.symm.trans hissue'))
    cases hanswered with
    | duplicate hseqn hledger hnumber =>
      rw [hledger] at hlog
      omega
    | outOfSequence hseqn hledger hnumber =>
      rw [hledger] at hlog
      omega
    | executed hseqn hlast hlog' hnumber => exact hseqn
  · intro hseqn
    obtain ⟨y, report, hissue, _, hanswered⟩ := h.answered hafford addr
    cases hanswered with
    | duplicate hseqn' hledger hnumber => omega
    | outOfSequence hseqn' hledger hnumber => omega
    | executed hseqn' hlast hlog hnumber => exact ⟨_, y, report, hissue, hlog⟩

/-! ## Other clients -/

variable (fl) in
/-- The wire events of some time. -/
def Server.wireRun (s : Server) (events : List WireEvent) : Server :=
  events.foldl (fun s e => (s.wireStep fl e).getD s) s

/-- A wire event that is no request of the client. -/
def FromOthers (addr : InAddr) : WireEvent → Prop
  | .addClient _ => True
  | .request clientAddr _ => clientAddr.sinAddr ≠ addr

variable (fl) in
/-- Other clients do not move a client's last request. -/
theorem wireStep_others {addr : InAddr} {s : Server} (hnodup : s.addresses.Nodup) {e : WireEvent}
    (he : FromOthers addr e) :
    ((s.wireStep fl e).getD s).addresses.Nodup ∧
      ((s.wireStep fl e).getD s).lastRequestOf (inetNtop addr) = s.lastRequestOf (inetNtop addr) := by
  obtain ⟨t, hstep⟩ : ∃ t, s.wireStep fl e = some t := by cases e <;> exact ⟨_, rfl⟩
  rw [hstep, Option.getD_some]
  cases Server.wireStep_effect fl hstep with
  | registered ip hnew hledger =>
    have hlast := s.toLedger.lastRequestOf_addClient fl ip (inetNtop addr)
    rw [Ledger.apply, if_neg hnew] at hlast
    rw [hledger]
    exact ⟨Ledger.nodup_register fl hnodup hnew, hlast⟩
  | accepted clientAddr req haccept hledger =>
    have hother : inetNtop addr ≠ inetNtop clientAddr.sinAddr := fun heq => he (inetNtop_injective heq.symm)
    rw [hledger, Ledger.commit_addresses, Ledger.lastRequestOf_commit hnodup haccept, if_neg hother]
    exact ⟨hnodup, rfl⟩
  | known ip hold hledger | rejected clientAddr req hreject hledger =>
    rw [hledger]
    exact ⟨hnodup, rfl⟩

variable (fl) in
/-- Nor does any time without a request of the client. -/
theorem wireRun_others {addr : InAddr} {s : Server} (hnodup : s.addresses.Nodup) {events : List WireEvent}
    (hevents : ∀ e ∈ events, FromOthers addr e) :
    (s.wireRun fl events).addresses.Nodup ∧
      (s.wireRun fl events).lastRequestOf (inetNtop addr) = s.lastRequestOf (inetNtop addr) := by
  induction events generalizing s with
  | nil => exact ⟨hnodup, rfl⟩
  | cons e rest ih =>
    have hfirst := wireStep_others fl hnodup (hevents e (List.mem_cons_self ..))
    have hrest := ih hfirst.1 fun e' he' => hevents e' (List.mem_cons_of_mem e he')
    exact ⟨hrest.1, hrest.2.trans hfirst.2⟩

/-! ## Recovery -/

variable (fl) in
/-- A user who goes on issuing commands: the sessions in which each of them is issued, with
requests of other clients in between. -/
structure Conversation (addr : InAddr) (x : Session) (commands : ℕ → Command) (sessions : ℕ → Session) : Prop where
  start : sessions 0 = x
  turn : ∀ n, ∃ leftover y report others, (sessions n).issue fl addr (commands n) leftover = some (y, report) ∧
    (∀ e ∈ others, FromOthers addr e) ∧ sessions (n + 1) = ⟨y.server.wireRun fl others, y.client⟩

variable (fl) in
/-- Whatever commands the client can afford are issued, some command is executed, and from
then on every command is, as long as the client's counter is an `int`. -/
def Recovers (addr : InAddr) (x : Session) : Prop :=
  ∀ commands sessions, Conversation fl addr x commands sessions →
    (∀ n, (sessions n).CanAfford fl addr (commands n)) →
    ∃ n, (sessions n).Executes fl addr (commands n) ∧
      ∀ m, n ≤ m → IsInt (sessions m).client.sequenceNumber → (sessions m).Executes fl addr (commands m)

/-- What one turn of a conversation does to the two counters. -/
inductive CounterTurn (addr : InAddr) (x y : Session) : Prop
  | duplicate (hseqn : x.seqn ≤ x.lastReq addr) (hlast : y.lastReq addr = x.lastReq addr)
      (hnumber : y.client.sequenceNumber = x.client.sequenceNumber + 1)
  | outOfSequence (hseqn : x.lastReq addr + 1 < x.seqn) (hlast : y.lastReq addr = x.lastReq addr)
      (hnumber : y.client.sequenceNumber = x.client.sequenceNumber)
  | executed (hseqn : x.seqn = x.lastReq addr + 1) (hlast : y.lastReq addr = x.lastReq addr + 1)
      (hnumber : y.client.sequenceNumber = x.client.sequenceNumber + 1)

variable {addr : InAddr} {x : Session} {commands : ℕ → Command} {sessions : ℕ → Session}

/-- Every session of a conversation is ready, and takes its turn. -/
theorem Conversation.turns (h : Conversation fl addr x commands sessions) (hready : x.Ready)
    (hafford : ∀ n, (sessions n).CanAfford fl addr (commands n)) (n : ℕ) :
    (sessions n).Ready ∧ CounterTurn addr (sessions n) (sessions (n + 1)) := by
  have hturn : ∀ n, (sessions n).Ready →
      (sessions (n + 1)).Ready ∧ CounterTurn addr (sessions n) (sessions (n + 1)) := by
    intro n hn
    obtain ⟨leftover, y, report, others, hissue, hothers, hnext⟩ := h.turn n
    obtain ⟨y', report', hissue', hready', hanswered⟩ := hn.answered (hafford n) leftover
    obtain ⟨rfl, -⟩ := Prod.mk.inj (Option.some.inj (hissue.symm.trans hissue'))
    obtain ⟨hnodup, hlast⟩ := wireRun_others fl hready'.nodup hothers
    rw [hnext]
    refine ⟨⟨hready'.idle, hready'.drained, hnodup⟩, ?_⟩
    cases hanswered with
    | duplicate hseqn hledger hnumber =>
      exact .duplicate hseqn (hlast.trans (congrArg (Ledger.lastRequestOf · _) hledger)) hnumber
    | outOfSequence hseqn hledger hnumber =>
      exact .outOfSequence hseqn (hlast.trans (congrArg (Ledger.lastRequestOf · _) hledger)) hnumber
    | executed hseqn hlast' hlog hnumber => exact .executed hseqn (hlast.trans hlast') hnumber
  have hready' : (sessions n).Ready := by
    induction n with
    | zero => exact h.start ▸ hready
    | succ n ih => exact (hturn n ih).1
  exact ⟨hready', (hturn n hready').2⟩

/-- A client that is behind catches up by one with every turn. -/
theorem Conversation.catchesUp (h : Conversation fl addr x commands sessions) (hready : x.Ready)
    (hafford : ∀ n, (sessions n).CanAfford fl addr (commands n)) (hpositive : 1 ≤ x.client.sequenceNumber)
    (hnext : x.lastReq addr + 1 < 2 ^ 31) {n : ℕ} (hn : x.client.sequenceNumber + n ≤ x.lastReq addr + 1) :
    (sessions n).client.sequenceNumber = x.client.sequenceNumber + n ∧
      (sessions n).lastReq addr = x.lastReq addr := by
  induction n with
  | zero =>
    rw [h.start]
    exact ⟨(add_zero _).symm, rfl⟩
  | succ n ih =>
    push_cast at hn
    obtain ⟨hnumber, hlast⟩ := ih (by omega)
    have hseqn := Session.seqn_eq (x := sessions n) (by omega) (by omega)
    cases (h.turns hready hafford n).2 with
    | duplicate hseqn' hlast' hnumber' =>
      push_cast
      exact ⟨by omega, by omega⟩
    | outOfSequence hseqn' hlast' hnumber' => omega
    | executed hseqn' hlast' hnumber' => omega

/-- A client in step stays in step while its counter is an `int`. -/
theorem Conversation.staysInStep (h : Conversation fl addr x commands sessions) (hready : x.Ready)
    (hafford : ∀ n, (sessions n).CanAfford fl addr (commands n)) {n m : ℕ} (hnm : n ≤ m)
    (hpositive : 1 ≤ (sessions n).client.sequenceNumber)
    (hstep : (sessions n).client.sequenceNumber = (sessions n).lastReq addr + 1) :
    1 ≤ (sessions m).client.sequenceNumber ∧
      ((sessions m).client.sequenceNumber = (sessions m).lastReq addr + 1 ∨
        2 ^ 31 ≤ (sessions m).client.sequenceNumber) := by
  induction m, hnm using Nat.le_induction with
  | base => exact ⟨hpositive, .inl hstep⟩
  | succ m _ ih =>
    obtain ⟨hpos, hin⟩ := ih
    have hint := (sessions m).seqn_eq hpos
    cases (h.turns hready hafford m).2 with
    | duplicate hseqn hlast hnumber => exact ⟨by omega, by omega⟩
    | outOfSequence hseqn hlast hnumber => exact ⟨by omega, by omega⟩
    | executed hseqn hlast hnumber => exact ⟨by omega, by omega⟩

/-- A client that is not ahead of its server recovers. -/
theorem recovers_of_behind (hready : x.Ready) (hpositive : 1 ≤ x.client.sequenceNumber)
    (hbehind : x.client.sequenceNumber ≤ x.lastReq addr + 1) (hnext : x.lastReq addr + 1 < 2 ^ 31) :
    Recovers fl addr x := by
  intro commands sessions h hafford
  have hcaught : ∃ n : ℕ, x.client.sequenceNumber + n = x.lastReq addr + 1 :=
    ⟨(x.lastReq addr + 1 - x.client.sequenceNumber).toNat, by omega⟩
  obtain ⟨n, hn⟩ := hcaught
  obtain ⟨hnumber, hlast⟩ := h.catchesUp hready hafford hpositive hnext hn.le
  have hexecutes : ∀ m, n ≤ m → IsInt (sessions m).client.sequenceNumber →
      (sessions m).Executes fl addr (commands m) := by
    intro m hnm hint
    have hin := h.staysInStep hready hafford hnm (by omega) (by omega)
    rw [(h.turns hready hafford m).1.executes_iff (hafford m), Session.seqn_eq hin.1 hint.2]
    have hbound := hint.2
    omega
  refine ⟨n, hexecutes n le_rfl ?_, hexecutes⟩
  simp only [IsInt]
  omega

/-- No number the client can use is the next one of the server. -/
def Session.Stuck (addr : InAddr) (x : Session) : Prop :=
  x.lastReq addr + 1 < x.seqn ∨ x.lastReq addr = 2 ^ 31 - 1

/-- The number of a stuck client is not the next one. -/
theorem Session.Stuck.seqn_ne (h : x.Stuck addr) : x.seqn ≠ x.lastReq addr + 1 := by
  have hbound : x.seqn < 2 ^ 31 := BitVec.toInt_lt
  cases h with
  | inl hahead => omega
  | inr hfull => omega

/-- A stuck client is answered without effect on the ledger, and stays stuck. -/
theorem Session.Stuck.answered {y : Session} (h : x.Stuck addr) (hanswered : Answered addr x y) :
    y.Stuck addr ∧ y.server.toLedger = x.server.toLedger := by
  cases hanswered with
  | duplicate hseqn hledger hnumber =>
    have hlast : y.lastReq addr = x.lastReq addr := congrArg (Ledger.lastRequestOf · _) hledger
    cases h with
    | inl hahead => omega
    | inr hfull => exact ⟨.inr (hlast.trans hfull), hledger⟩
  | outOfSequence hseqn hledger hnumber =>
    have hlast : y.lastReq addr = x.lastReq addr := congrArg (Ledger.lastRequestOf · _) hledger
    have hsame : y.seqn = x.seqn := by rw [Session.seqn, hnumber, Session.seqn]
    exact ⟨.inl (by omega), hledger⟩
  | executed hseqn hlast hlog hnumber => exact absurd hseqn h.seqn_ne

variable (fl) in
/-- The session after a command, or the same one where none can be issued. -/
def Session.next (addr : InAddr) (command : Command) (x : Session) : Session :=
  ((x.issue fl addr command addr).map Prod.fst).getD x

/-- A stuck client can issue one command for ever, and the server never executes it. -/
theorem not_recovers_of_stuck (hready : x.Ready) (hstuck : x.Stuck addr) {command : Command}
    (hafford : x.CanAfford fl addr command) : ¬ Recovers fl addr x := by
  let sessions : ℕ → Session := fun n => (Session.next fl addr command)^[n] x
  have hturn : ∀ n, (sessions n).Ready → (sessions n).CanAfford fl addr command →
      ∃ report, (sessions n).issue fl addr command addr = some (sessions (n + 1), report) ∧
        (sessions (n + 1)).Ready ∧ Answered addr (sessions n) (sessions (n + 1)) := by
    intro n hn hpays
    obtain ⟨y, report, hissue, hreadyNext, hanswered⟩ := hn.answered hpays addr
    have hnext : sessions (n + 1) = y := by
      calc sessions (n + 1) = Session.next fl addr command (sessions n) := Function.iterate_succ_apply' ..
        _ = y := by
          rw [Session.next, hissue]
          rfl
    rw [hnext]
    exact ⟨report, hissue, hreadyNext, hanswered⟩
  have hall : ∀ n, (sessions n).Ready ∧ (sessions n).Stuck addr ∧ (sessions n).CanAfford fl addr command := by
    intro n
    induction n with
    | zero => exact ⟨hready, hstuck, hafford⟩
    | succ n ih =>
      obtain ⟨hready', hstuck', hpays⟩ := ih
      obtain ⟨report, hissue, hreadyNext, hanswered⟩ := hturn n hready' hpays
      obtain ⟨hstuckNext, hledger⟩ := hstuck'.answered hanswered
      refine ⟨hreadyNext, hstuckNext, ?_⟩
      rw [Session.CanAfford, hledger]
      exact hpays
  have hconversation : Conversation fl addr x (fun _ => command) sessions := by
    refine ⟨rfl, fun n => ?_⟩
    obtain ⟨report, hissue, _⟩ := hturn n (hall n).1 (hall n).2.2
    exact ⟨addr, _, report, [], hissue, by simp, rfl⟩
  intro hrecovers
  obtain ⟨n, hexecutes, _⟩ := hrecovers _ sessions hconversation fun n => (hall n).2.2
  exact (hall n).2.1.seqn_ne (((hall n).1.executes_iff (hall n).2.2).mp hexecutes)

/-- A client between two commands that can pay for some command recovers exactly if it is
not ahead of the server and the server has a next number left. -/
theorem client_recovers_iff_not_ahead (fl : FloatRounding) (addr : InAddr) (x : Session) (hready : x.Ready)
    (hpositive : 1 ≤ x.client.sequenceNumber) (hint : x.client.sequenceNumber < 2 ^ 31)
    (hlast : 0 ≤ x.lastReq addr ∧ x.lastReq addr < 2 ^ 31) (hcommand : ∃ command, x.CanAfford fl addr command) :
    Recovers fl addr x ↔
      x.client.sequenceNumber ≤ x.lastReq addr + 1 ∧ x.lastReq addr < 2 ^ 31 - 1 := by
  have hseqn := x.seqn_eq hpositive hint
  constructor
  · intro hrecovers
    obtain ⟨command, hafford⟩ := hcommand
    have hfree : ¬ x.Stuck addr := fun hstuck => not_recovers_of_stuck hready hstuck hafford hrecovers
    simp only [Session.Stuck, not_or] at hfree
    exact ⟨by omega, by omega⟩
  · intro ⟨hbehind, hnext⟩
    exact recovers_of_behind hready hpositive hbehind (by omega)

/-- A fresh primary that has registered client 21, and that client with a given number. -/
def testSession (sequenceNumber : ℤ) : Session where
  server := ((freshPrimary 1 4000).addClient singlePrecision (inetNtop (testHost 21).sinAddr)).1
  client := { sequenceNumber := sequenceNumber }

/-- The client is ready and can pay for the command. -/
theorem testSession_ready (sequenceNumber : ℤ) :
    (testSession sequenceNumber).Ready ∧
      (testSession sequenceNumber).CanAfford singlePrecision (testHost 21).sinAddr payItself :=
  ⟨⟨rfl, rfl, (by decide +kernel : (testSession 1).server.addresses.Nodup)⟩,
    (testHost 21).sinAddr, .new (inetNtop (testHost 21).sinAddr),
    by decide +kernel, (by decide +kernel : _ ∈ (testSession 1).server.addresses),
    (by decide +kernel : (testSession 1).server.account _ = _), by decide +kernel⟩

/-- A client that starts with its server recovers. -/
theorem client_recovers_in_step : Recovers singlePrecision (testHost 21).sinAddr (testSession 1) := by
  have hready := testSession_ready 1
  have hlast : (testSession 1).lastReq (testHost 21).sinAddr = 0 := by decide +kernel
  refine (client_recovers_iff_not_ahead singlePrecision (testHost 21).sinAddr (testSession 1) hready.1
    (by decide) (by decide) (by omega) ⟨payItself, hready.2⟩).mpr ⟨?_, by omega⟩
  rw [hlast]
  decide

/-- A client that kept its number 2 while its server was restarted does not recover: every
command is answered out of sequence. -/
theorem client_ahead_never_recovers : ¬ Recovers singlePrecision (testHost 21).sinAddr (testSession 2) := by
  have hready := testSession_ready 2
  have hlast : (testSession 2).lastReq (testHost 21).sinAddr = 0 := by decide +kernel
  have hseqn : (testSession 2).seqn = 2 := by decide +kernel
  exact not_recovers_of_stuck hready.1 (.inl (by omega)) hready.2

end BankReplica
