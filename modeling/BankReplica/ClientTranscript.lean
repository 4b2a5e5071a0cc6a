import BankReplica.LinesProcessed

/-!
# What a client program sends

The packets a client program has sent are those of the lines it has processed, line by line:
none for a line that is no command, and up to `MAX_RETRIES` copies of one request for a line
that is.
-/

namespace BankReplica

open Runs WorkQueue

/-- The request is one for the command under a sequence number. -/
structure Carries (command : Command) (seqn : ℤ) (req : ReqData) : Prop where
  value : req.value = BitVec.ofInt 32 command.value
  seqn : req.seqn = BitVec.ofInt 32 seqn
  destAddr : ∀ addr, inetPton (cString command.destIp) = some addr → req.destAddr = addr

/-- The packets of a line that begins at one sequence number and ends at another. -/
inductive LinePackets (line : Line) (seqn : ℤ) : List ReqData → ℤ → Prop
  | invalid (hline : validateInput line = none) : LinePackets line seqn [] seqn
  | valid {packets : List ReqData} {next : ℤ} (command : Command) (hline : validateInput line = some command)
      (hsome : packets ≠ []) (hretries : packets.length ≤ maxRetries)
      (hpackets : ∀ req ∈ packets, Carries command seqn req) (hnext : next = seqn ∨ next = seqn + 1) :
      LinePackets line seqn packets next

/-- The packets of some lines from the first sequence number on, and the number they lead to. -/
inductive Transcript : List Line → List ReqData → ℤ → Prop
  | nil : Transcript [] [] 1
  | snoc {lines : List Line} {earlier packets : List ReqData} {seqn next : ℤ} {line : Line}
      (hearlier : Transcript lines earlier seqn) (hline : LinePackets line seqn packets next) :
      Transcript (lines ++ [line]) (earlier ++ packets) next

/-- The requests sent for a command that is in a phase. -/
def ClientPhase.sends : ClientPhase → ℕ
  | .idle => 0
  | .sending _ retries => retries
  | .receiving _ retries => retries + 1

/-- The turns of a command that went by without an answer. -/
def ClientPhase.retries : ClientPhase → ℕ
  | .idle => 0
  | .sending _ retries | .receiving _ retries => retries

/-- A client in the middle of a command, with the packets sent for it so far. -/
structure ClientProcess.AtWork (c : ClientProcess) (command : Command) (pending : List ReqData) : Prop where
  atCommand : c.phase.command = some command
  sends : pending.length = c.phase.sends
  retries : c.phase.retries < maxRetries
  packets : ∀ req ∈ pending, Carries command c.sequenceNumber req

/-- The packets of the line at work, or of none. -/
def ClientProgram.Pending (p : ClientProgram) (seqn : ℤ) (pending : List ReqData) : Prop :=
  match p.communication with
  | .processing line =>
    ∃ command, validateInput line = some command ∧ p.process.sequenceNumber = seqn ∧
      p.process.AtWork command pending
  | .rediscovering line => LinePackets line seqn pending p.process.sequenceNumber
  | .fetching | .ended => pending = [] ∧ p.process.sequenceNumber = seqn

/-- The packets sent are those of the lines processed and of the line at work. -/
def ClientProgram.Transcribed (p : ClientProgram) : Prop :=
  ∃ earlier pending seqn, p.sent.map Prod.snd = earlier ++ pending ∧ Transcript p.processed earlier seqn ∧
    p.Pending seqn pending

/-! ## One command -/

/-- The request of a command carries it. -/
theorem ClientProcess.requestPacket_carries (c : ClientProcess) (command : Command) (leftover : InAddr) :
    Carries command c.sequenceNumber (c.requestPacket command leftover) := by
  refine ⟨rfl, rfl, fun addr haddr => ?_⟩
  simp [ClientProcess.requestPacket, haddr]

/-- The start of a command. -/
theorem ClientProcess.atWork_start {c : ClientProcess} {command : Command} {outcome : ClientOutcome}
    (h : c.step (.start command) = some outcome) :
    outcome.process.AtWork command [] ∧ outcome.process.sequenceNumber = c.sequenceNumber := by
  cases ClientProcess.step_cases h with
  | start command hphase => exact ⟨⟨rfl, rfl, Nat.zero_lt_succ _, fun req hreq => absurd hreq List.not_mem_nil⟩, rfl⟩

/-- What a step makes of the packets of a command: it goes on with them, or they are its last. -/
inductive Continues (command : Command) (seqn : ℤ) (packets : List ReqData) (c : ClientProcess) : Prop
  | goesOn (hatWork : c.AtWork command packets) (hseqn : c.sequenceNumber = seqn)
  | ends (hidle : c.phase = .idle) (hsome : packets ≠ []) (hretries : packets.length ≤ maxRetries)
      (hpackets : ∀ req ∈ packets, Carries command seqn req)
      (hnext : c.sequenceNumber = seqn ∨ c.sequenceNumber = seqn + 1)

/-- A command that waits for its answer has sent a packet in every turn. -/
theorem ClientProcess.AtWork.receiving {c : ClientProcess} {command other : Command} {pending : List ReqData}
    {retries : ℕ} (h : c.AtWork command pending) (hphase : c.phase = .receiving other retries) :
    other = command ∧ pending.length = retries + 1 ∧ retries < maxRetries ∧ pending ≠ [] := by
  obtain ⟨hcommand, hsends, hretries, -⟩ := h
  rw [hphase] at hcommand hsends hretries
  refine ⟨Option.some.inj hcommand, hsends, hretries, ?_⟩
  rintro rfl
  simp [ClientPhase.sends] at hsends

/-- Without an answer a command goes on while there are retries left. -/
theorem ClientProcess.AtWork.retry {c : ClientProcess} {command other : Command} {pending : List ReqData}
    {retries : ℕ} (h : c.AtWork command pending) (hphase : c.phase = .receiving other retries)
    (socket : List AckData) :
    Continues command c.sequenceNumber pending (ClientProcess.retry { c with socket := socket } other retries) := by
  obtain ⟨rfl, hsends, hretries, hsome⟩ := h.receiving hphase
  by_cases hmore : retries + 1 < maxRetries
  · refine .goesOn ⟨?_, ?_, ?_, ?_⟩ rfl
    all_goals simp only [ClientProcess.retry, if_pos hmore]
    · rfl
    · exact hsends
    · exact hmore
    · exact h.packets
  · refine .ends ?_ hsome (by omega) h.packets (.inl rfl)
    simp only [ClientProcess.retry, if_neg hmore]

/-- A step of a command sends one more of its packets or none. -/
theorem ClientProcess.AtWork.step {c : ClientProcess} {command : Command} {pending : List ReqData}
    {event : ClientEvent} {outcome : ClientOutcome} (h : c.AtWork command pending)
    (hevent : ∀ command, event ≠ .start command) (hstep : c.step event = some outcome) :
    Continues command c.sequenceNumber (pending ++ outcome.sent.toList) outcome.process := by
  cases ClientProcess.step_cases hstep with
  | start other hphase => exact absurd rfl (hevent other)
  | send leftover other retries hphase =>
    obtain ⟨hcommand, hsends, hretries, hpackets⟩ := h
    rw [hphase] at hcommand hsends hretries
    obtain rfl := Option.some.inj hcommand
    refine .goesOn ⟨rfl, ?_, hretries, ?_⟩ rfl
    · simpa [ClientPhase.sends] using hsends
    · exact List.forall_mem_append.mpr
        ⟨hpackets, List.forall_mem_singleton.mpr (c.requestPacket_carries other leftover)⟩
  | timeout other retries hphase => simpa using h.retry hphase c.socket
  | taken other retries ack rest hphase hsocket hseqn =>
    obtain ⟨rfl, hsends, hretries, hsome⟩ := h.receiving hphase
    rw [Option.toList_none, List.append_nil]
    refine .ends (ClientProcess.processAck_phase ..) hsome (by omega) h.packets ?_
    rw [ClientProcess.processAck_sequenceNumber]
    split
    · exact .inr rfl
    · exact .inl (add_zero _)
  | stale other retries ack rest hphase hsocket hseqn => simpa using h.retry hphase rest

/-- The end of a turn sends nothing. -/
theorem ClientProcess.sent_of_turn {c : ClientProcess} {event : ClientEvent} {outcome : ClientOutcome}
    (hevent : event = .timeout ∨ event = .receive) (h : c.step event = some outcome) : outcome.sent = none := by
  cases ClientProcess.step_cases h with
  | start | send => simp at hevent
  | timeout | taken | stale => rfl

/-! ## A whole session -/

section

variable {p q : ClientProgram}

/-- What waits in the socket is no part of the transcript. -/
theorem ClientProgram.Pending.withSocket {seqn : ℤ} {pending : List ReqData} (h : p.Pending seqn pending)
    (socket : List AckData) :
    ClientProgram.Pending { p with process := { p.process with socket := socket } } seqn pending := by
  cases hphase : p.communication with
  | processing line =>
    simp only [ClientProgram.Pending, hphase] at h ⊢
    obtain ⟨command, hline, hseqn, hatWork⟩ := h
    exact ⟨command, hline, hseqn, ⟨hatWork.atCommand, hatWork.sends, hatWork.retries, hatWork.packets⟩⟩
  | _ => simpa only [ClientProgram.Pending, hphase] using h

/-- The end of a turn goes on with the transcript. -/
theorem ClientProgram.Transcribed.client (h : p.Transcribed) {line : Line} {event : ClientEvent}
    {outcome : ClientOutcome} (hcomm : p.communication = .processing line)
    (hevent : event = .timeout ∨ event = .receive) (houtcome : p.process.step event = some outcome) :
    (p.after line outcome).Transcribed := by
  obtain ⟨earlier, pending, seqn, hsent, hearlier, hpending⟩ := h
  simp only [ClientProgram.Pending, hcomm] at hpending
  obtain ⟨command, hline, rfl, hatWork⟩ := hpending
  have hsent' : (p.after line outcome).sent.map Prod.snd = earlier ++ pending := by
    rw [ClientProgram.sent, ClientProgram.after_journal]
    exact hsent
  have hcontinues := hatWork.step (by rcases hevent with rfl | rfl <;> simp) houtcome
  rw [ClientProcess.sent_of_turn hevent houtcome, Option.toList_none, List.append_nil] at hcontinues
  cases hcontinues with
  | goesOn hnext hseqn =>
    have hbusy : outcome.process.phase ≠ .idle := by
      intro hidle
      have hcommand := hnext.atCommand
      rw [hidle] at hcommand
      contradiction
    refine ⟨earlier, _, p.process.sequenceNumber, hsent', ?_, ?_⟩
    · simpa only [ClientProgram.after, if_neg hbusy] using hearlier
    · simp only [ClientProgram.after, if_neg hbusy, ClientProgram.Pending, hcomm]
      exact ⟨command, hline, hseqn, hnext⟩
  | ends hidle hsome hretries hpackets hnext =>
    have hlinePackets : LinePackets line p.process.sequenceNumber pending outcome.process.sequenceNumber :=
      .valid command hline hsome hretries hpackets hnext
    by_cases hrediscovers : outcome.ended.any (fun report => rediscovers report.status) = true
    · refine ⟨earlier, _, p.process.sequenceNumber, hsent', ?_, ?_⟩
      · simpa only [ClientProgram.after, if_pos hidle, if_pos hrediscovers] using hearlier
      · simpa only [ClientProgram.after, if_pos hidle, if_pos hrediscovers, ClientProgram.Pending] using hlinePackets
    · refine ⟨_, [], outcome.process.sequenceNumber, (hsent'.trans (List.append_nil _).symm), ?_, ?_⟩
      · simpa only [ClientProgram.after, if_pos hidle, if_neg hrediscovers] using hearlier.snoc hlinePackets
      · simp only [ClientProgram.after, if_pos hidle, if_neg hrediscovers, ClientProgram.Pending, and_self]

/-- A packet goes on with the transcript. -/
theorem ClientProgram.Transcribed.send (h : p.Transcribed) {line : Line} {command : Command} {retries : ℕ}
    (leftover : InAddr) (dest : SockAddr) (hcomm : p.communication = .processing line)
    (hphase : p.process.phase = .sending command retries) :
    ClientProgram.Transcribed
      { p with
        process := { p.process with phase := .receiving command retries }
        currentServerAddr := none
        journal := p.journal ++ [.sent dest (p.process.requestPacket command leftover)] } := by
  obtain ⟨earlier, pending, seqn, hsent, hearlier, hpending⟩ := h
  simp only [ClientProgram.Pending, hcomm] at hpending
  obtain ⟨other, hline, rfl, hatWork⟩ := hpending
  have hstep : p.process.step (.send leftover) = some
      { process := { p.process with phase := .receiving command retries }
        sent := p.process.requestPacket command leftover } := by
    simp only [ClientProcess.step, hphase]
  refine ⟨earlier, pending ++ [p.process.requestPacket command leftover], p.process.sequenceNumber, ?_, hearlier, ?_⟩
  · rw [ClientProgram.sent_of_journal rfl, List.map_append, hsent, List.append_assoc]
    rfl
  · simp only [ClientProgram.Pending, hcomm]
    cases hatWork.step (fun command hstart => by contradiction) hstep with
    | goesOn hnext hseqn => exact ⟨other, hline, trivial, hnext⟩
    | ends hidle => contradiction

/-- Every step goes on with the transcript. -/
theorem ClientProgram.Transcribed.step (h : p.Transcribed) (hroles : p.Roles) {e : ProgramEvent}
    (hstep : p.step e = some q) : q.Transcribed := by
  obtain ⟨earlier, pending, seqn, hsent, hearlier, hpending⟩ := h
  cases ClientProgram.step_cases hstep with
  | fetchedNone queue hruns hstage hqueue =>
    have hcomm := hroles.fetching (by rw [hstage]; simp)
    simp only [ClientProgram.Pending, hcomm] at hpending
    exact ⟨earlier, pending, seqn, hsent, hearlier, hpending⟩
  | fetchedInvalid line queue hruns hstage hqueue hline =>
    have hcomm := hroles.fetching (by rw [hstage]; simp)
    simp only [ClientProgram.Pending, hcomm] at hpending
    obtain ⟨rfl, hseqn⟩ := hpending
    have hsame : earlier ++ [] ++ [] = earlier ++ [] := List.append_nil _
    exact ⟨earlier ++ [], [], seqn, hsent.trans hsame.symm, hearlier.snoc (.invalid hline), rfl, hseqn⟩
  | fetchedValid line queue command outcome hruns hstage hqueue hline houtcome =>
    have hcomm := hroles.fetching (by rw [hstage]; simp)
    simp only [ClientProgram.Pending, hcomm] at hpending
    obtain ⟨rfl, hseqn⟩ := hpending
    obtain ⟨hatWork, hsame⟩ := ClientProcess.atWork_start houtcome
    exact ⟨earlier, [], seqn, hsent, hearlier, command, hline, hsame.trans hseqn, hatWork⟩
  | client line event outcome hruns hcomm hevent houtcome =>
    exact ClientProgram.Transcribed.client ⟨earlier, pending, seqn, hsent, hearlier, hpending⟩ hcomm hevent houtcome
  | send leftover line dest command retries hruns hcomm hdest hphase =>
    exact ClientProgram.Transcribed.send ⟨earlier, pending, seqn, hsent, hearlier, hpending⟩ leftover dest hcomm hphase
  | copyAddress | discovered | rediscovered | announced =>
    refine ⟨earlier, pending, seqn, ?_, hearlier, hpending⟩
    rw [ClientProgram.sent_of_journal rfl]
    simpa [JournalEntry.packet] using hsent
  | rediscoveryFails line hruns hcomm hstoring =>
    simp only [ClientProgram.Pending, hcomm] at hpending
    exact ⟨earlier ++ pending, [], p.process.sequenceNumber, hsent.trans (List.append_nil _).symm,
      hearlier.snoc hpending, rfl, rfl⟩
  | resumed addr line hruns hcomm hstoring =>
    simp only [ClientProgram.Pending, hcomm] at hpending
    exact ⟨earlier ++ pending, [], p.process.sequenceNumber, hsent.trans (List.append_nil _).symm,
      hearlier.snoc hpending, rfl, rfl⟩
  | resolved thread => exact ⟨earlier, pending, seqn, hsent, hearlier, hpending.withSocket []⟩
  | arrive ack hrunning => exact ⟨earlier, pending, seqn, hsent, hearlier, hpending.withSocket _⟩
  | _ => exact ⟨earlier, pending, seqn, hsent, hearlier, hpending⟩

end

/-- Programs before `start` have sent nothing. -/
theorem ClientProgram.Fresh.transcribed {p : ClientProgram} (h : p.Fresh) : p.Transcribed := by
  obtain ⟨port, rfl⟩ := h
  exact ⟨[], [], 1, rfl, .nil, rfl, rfl⟩

/-- The packets sent are transcribed in every run. -/
theorem ClientProgram.Reachable.transcribed {p : ClientProgram} (h : p.Reachable) : p.Transcribed := by
  have hboth : p.Roles ∧ p.Transcribed := by
    refine Runs.Reachable.invariant (I := fun p => p.Roles ∧ p.Transcribed) ?_ ?_ h
    · exact fun _ hfresh => ⟨hfresh.inv.roles, hfresh.transcribed⟩
    · exact fun _ _ _ hinv _ hstep => ⟨hinv.1.step hstep, hinv.2.step hinv.1 hstep⟩
  exact hboth.2

/-- The packets of the line at work carry its command. -/
theorem ClientProgram.Pending.at_work {p : ClientProgram} {seqn : ℤ} {pending : List ReqData}
    (h : p.Pending seqn pending) :
    pending = [] ∨ ∃ line command, p.communication.hand = [line] ∧ validateInput line = some command ∧
      pending.length ≤ maxRetries ∧ ∀ req ∈ pending, Carries command seqn req := by
  cases hphase : p.communication with
  | processing line =>
    simp only [ClientProgram.Pending, hphase] at h
    obtain ⟨command, hline, rfl, hatWork⟩ := h
    refine .inr ⟨line, command, rfl, hline, ?_, hatWork.packets⟩
    have hretries := hatWork.retries
    rw [hatWork.sends]
    cases hclient : p.process.phase <;> simp only [hclient, ClientPhase.sends, ClientPhase.retries] at hretries ⊢ <;>
      omega
  | rediscovering line =>
    simp only [ClientProgram.Pending, hphase] at h
    cases h with
    | invalid hline => exact .inl rfl
    | valid command hline hsome hretries hpackets hnext =>
      exact .inr ⟨line, command, rfl, hline, hretries, hpackets⟩
  | fetching =>
    simp only [ClientProgram.Pending, hphase] at h
    exact .inl h.1
  | ended =>
    simp only [ClientProgram.Pending, hphase] at h
    exact .inl h.1

/-- In every run the packets sent are, in order, those of the lines processed, and behind them at
most `MAX_RETRIES` copies of the request of the line at work. -/
theorem ClientProgram.packets_of_lines {p : ClientProgram} (h : p.Reachable) :
    ∃ earlier pending seqn, p.sent.map Prod.snd = earlier ++ pending ∧ Transcript p.processed earlier seqn ∧
      (pending = [] ∨ ∃ line command, p.communication.hand = [line] ∧ validateInput line = some command ∧
        pending.length ≤ maxRetries ∧ ∀ req ∈ pending, Carries command seqn req) := by
  obtain ⟨earlier, pending, seqn, hsent, hearlier, hpending⟩ := h.transcribed
  exact ⟨earlier, pending, seqn, hsent, hearlier, hpending.at_work⟩

/-- The session of two lines has sent five copies of the request of its second line. -/
theorem ClientProgram.packets_of_lines_session :
    ∃ p : ClientProgram, p.Reachable ∧ p.sent.length = 5 ∧
      ∃ seqn, Transcript [strayLine, paymentLine] (p.sent.map Prod.snd) seqn := by
  obtain ⟨p, hreach, htest⟩ := exists_reachable_of_replay ClientProgram.step Always ClientProgram.Fresh
    (s := { port := 4000 }) shortSession
    (fun p => p.communication = .ended ∧ p.sent.length = 5 ∧ p.processed = [strayLine, paymentLine]) ⟨4000, rfl⟩
    (by decide +kernel)
  obtain ⟨hcomm, hsent, hprocessed⟩ := of_decide_eq_true htest
  obtain ⟨earlier, pending, seqn, hpackets, htranscript, hpending⟩ := ClientProgram.packets_of_lines hreach
  refine ⟨p, hreach, hsent, seqn, ?_⟩
  cases hpending with
  | inl hnone => rwa [hpackets, hnone, List.append_nil, ← hprocessed]
  | inr hhand =>
    obtain ⟨line, command, hhand, -⟩ := hhand
    rw [hcomm] at hhand
    contradiction

/-! ## Single packets -/

/-- A packet of a transcript is one for a line of it. -/
theorem Transcript.mem {lines : List Line} {packets : List ReqData} {next : ℤ} (h : Transcript lines packets next)
    {req : ReqData} (hreq : req ∈ packets) :
    ∃ line ∈ lines, ∃ command seqn, validateInput line = some command ∧ Carries command seqn req := by
  induction h with
  | nil => contradiction
  | snoc hearlier hline ih =>
    cases List.mem_append.mp hreq with
    | inl hold =>
      obtain ⟨line, hmem, hcommand⟩ := ih hold
      exact ⟨line, List.mem_append_left _ hmem, hcommand⟩
    | inr hnew =>
      cases hline with
      | invalid hline => contradiction
      | valid command hline hsome hretries hpackets hnext =>
        exact ⟨_, List.mem_append_right _ (List.mem_singleton_self _), command, _, hline, hpackets req hnew⟩

/-- Every packet carries the command of a line that was typed. -/
theorem ClientProgram.Reachable.typed_of_sent {p : ClientProgram} (h : p.Reachable) {req : ReqData}
    (hreq : req ∈ p.sent.map Prod.snd) :
    ∃ line ∈ p.typed, ∃ command seqn, validateInput line = some command ∧ Carries command seqn req := by
  have htyped : ∀ line ∈ p.processed ++ p.communication.hand, line ∈ p.typed := by
    intro line hline
    have hread : line ∈ p.lines := by
      rw [h.inv.lines_eq, ClientProgram.unprocessed]
      simp only [List.mem_append] at hline ⊢
      tauto
    exact (List.mem_filter.mp hread).1
  obtain ⟨earlier, pending, seqn, hsent, hearlier, hpending⟩ := h.transcribed
  rw [hsent] at hreq
  cases List.mem_append.mp hreq with
  | inl hold =>
    obtain ⟨line, hline, hcommand⟩ := hearlier.mem hold
    exact ⟨line, htyped line (List.mem_append_left _ hline), hcommand⟩
  | inr hnew =>
    cases hpending.at_work with
    | inl hnone =>
      rw [hnone] at hnew
      contradiction
    | inr hwork =>
      obtain ⟨line, command, hhand, hline, -, hcarries⟩ := hwork
      refine ⟨line, htyped line (List.mem_append_right _ ?_), command, seqn, hline, hcarries req hnew⟩
      rw [hhand]
      exact List.mem_singleton_self _

end BankReplica
