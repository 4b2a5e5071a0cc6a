import BankReplica.ExactlyOnce

/-!
# What a client reports against what the server logged

A client takes `SUCCESS` and `ERROR_DUPLICATE_REQUEST` as proof that its command was
executed. An acknowledgement carries only the sequence number, and a number is reused
after a give-up or a refusal, so the proof holds as long as the server executes no
request of another command under the number the client is using.
-/

namespace BankReplica

open Runs

variable {fl : FloatRounding}

/-- The command names this destination and value. -/
def Command.Names (command : Command) (dest : IpString) (value : ℤ) : Prop :=
  dest.bytes = command.destIp ∧ value = command.value

instance (command : Command) (dest : IpString) (value : ℤ) : Decidable (command.Names dest value) :=
  inferInstanceAs (Decidable (_ ∧ _))

variable (fl) in
/-- For the client at one address: a command starts under an `int` number for which nothing
else is logged, and no other command's request is executed under the number in use. -/
def NoStaleExecution (client : InAddr) (x : Exchange) : ExchangeEvent → Prop
  | .client addr (.start command) => addr = client →
    (x.clients client).sequenceNumber < 2 ^ 31 ∧
      ∀ tx ∈ x.server.transactionHistory, tx.sourceIp = inetNtop client →
        tx.clientSeqn = (x.clients client).sequenceNumber → command.Names tx.destIp tx.value
  | .serve k => ∀ sent ∈ x.requests[k]?, sent.1 = client →
    x.server.verdict fl (inetNtop client) (inetNtop sent.2.destAddr) sent.2.value.toInt
        sent.2.seqn.toInt = .success →
      ∀ command ∈ (x.clients client).phase.command,
        sent.2.seqn.toInt = (x.clients client).sequenceNumber →
          command.Names (inetNtop sent.2.destAddr) sent.2.value.toInt
  | _ => True

/-- A transaction of this client is logged under this number. -/
def HasEntry (history : List Transaction) (client : InAddr) (seqn : ℤ) : Prop :=
  ∃ tx ∈ history, tx.sourceIp = inetNtop client ∧ tx.clientSeqn = seqn

/-- What this command of this client asks for is logged under its number. -/
def Logged (history : List Transaction) (client : InAddr) (report : Report) : Prop :=
  ∃ tx ∈ history, tx.sourceIp = inetNtop client ∧ tx.clientSeqn = report.seqn ∧
    report.command.Names tx.destIp tx.value

/-- An acknowledgement on which the client moves on stands for a logged transaction. -/
def Backed (history : List Transaction) (client : InAddr) (ack : AckData) : Prop :=
  movesOn ack.status → 1 ≤ ack.seqn.toInt → HasEntry history client ack.seqn.toInt

/-! ## Acknowledgements -/

/-- Propagation sends no acknowledgement. -/
theorem acksIn_propagateSuccess (s : Server) (sourceIp destIp : IpString) (status : TransactionStatus) :
    acksIn (s.propagateSuccess sourceIp destIp status) = [] := by
  simp only [Server.propagateSuccess]
  split
  · split
    · rw [acksIn, List.filterMap_eq_nil_iff]
      intro send hsend
      obtain ⟨b, -, rfl⟩ := List.mem_map.mp hsend
      rfl
    · rfl
  · rfl

/-- A served request is acknowledged once, to its sender. -/
theorem acksIn_handleTransactionRequest (s : Server) (req : ReqData) (clientAddr : SockAddr) :
    acksIn (s.handleTransactionRequest fl req clientAddr).2.2 =
      [(clientAddr.sinAddr, ackOf req.seqn.toInt (s.handleTransactionRequest fl req clientAddr).2.1)] := by
  rw [acksIn, Server.handleTransactionRequest, List.filterMap_append]
  exact congrArg (· ++ _) (acksIn_propagateSuccess ..)

/-- A client moves on upon two statuses only. -/
theorem movesOn_toWord (status : TransactionStatus) :
    movesOn status.toWord ↔ status = .success ∨ status = .errorDuplicateRequest := by
  cases status <;> decide

/-- A request is a duplicate only if its source's last request is not before it. -/
theorem Ledger.verdict_eq_duplicate {l : Ledger} {sourceIp destIp : IpString} {value seqn : ℤ}
    (h : l.verdict fl sourceIp destIp value seqn = .errorDuplicateRequest) :
    ∃ source, l.account sourceIp = some source ∧ seqn ≤ source.lastReq := by
  unfold Ledger.verdict Ledger.validateTransaction at h
  rw [l.getElem?_findClient, l.getElem?_findClient] at h
  split at h
  · rename_i source dest hsource hdest
    refine ⟨source, hsource, ?_⟩
    split_ifs at h
    assumption
  · contradiction

/-- A request on whose verdict the client moves on is logged once it has been served. -/
theorem exists_entry_of_movesOn {l : Ledger} (h : Sequenced l) {addr : InAddr} {req : ReqData}
    (hmoves : movesOn
      (l.verdict fl (inetNtop addr) (inetNtop req.destAddr) req.value.toInt req.seqn.toInt).toWord)
    (hseqn : 1 ≤ req.seqn.toInt) :
    ∃ tx ∈ (l.apply fl (requestCall addr req)).transactionHistory,
      tx.sourceIp = inetNtop addr ∧ tx.clientSeqn = req.seqn.toInt := by
  rw [Ledger.apply_request_history]
  cases (movesOn_toWord _).mp hmoves with
  | inl haccept =>
    rw [if_pos haccept]
    exact ⟨_, List.mem_append_right _ (List.mem_singleton_self _), rfl, rfl⟩
  | inr hduplicate =>
    obtain ⟨source, haccount, hle⟩ := Ledger.verdict_eq_duplicate hduplicate
    obtain ⟨hmem, haddress⟩ := Ledger.account_some haccount
    obtain ⟨tx, htx, hsource, heq⟩ := h.exists_entry hmem hseqn hle
    exact ⟨tx, List.mem_append_left _ htx, hsource.trans haddress, heq⟩

/-! ## One client against a log -/

/-- What links a client process to the log. -/
structure ClientProcess.Consistent (history : List Transaction) (client : InAddr) (c : ClientProcess) :
    Prop where
  socket : ∀ ack ∈ c.socket, Backed history client ack
  positive : 1 ≤ c.sequenceNumber
  isInt : ∀ command ∈ c.phase.command, c.sequenceNumber < 2 ^ 31
  matching : ∀ command ∈ c.phase.command, ∀ tx ∈ history, tx.sourceIp = inetNtop client →
    tx.clientSeqn = c.sequenceNumber → command.Names tx.destIp tx.value

/-- A client between commands is consistent with any log that backs its socket. -/
theorem consistent_of_idle {history : List Transaction} {client : InAddr} {c : ClientProcess}
    (hidle : c.phase = .idle) (hsocket : ∀ ack ∈ c.socket, Backed history client ack)
    (hpositive : 1 ≤ c.sequenceNumber) : c.Consistent history client where
  socket := hsocket
  positive := hpositive
  isInt := by simp [hidle, ClientPhase.command]
  matching := by simp [hidle, ClientPhase.command]

/-- A turn without an answer keeps the command and the number, or ends the command. -/
theorem ClientProcess.Consistent.retry {history : List Transaction} {client : InAddr}
    {c : ClientProcess} {command : Command} {retries : ℕ} (h : c.Consistent history client)
    (hcommand : c.phase.command = some command) : (c.retry command retries).Consistent history client := by
  by_cases hleft : retries + 1 < maxRetries
  · have hkept : (c.retry command retries).phase.command = c.phase.command := by
      rw [ClientProcess.retry, if_pos hleft, hcommand]
      rfl
    exact ⟨h.socket, h.positive, hkept ▸ h.isInt, hkept ▸ h.matching⟩
  · exact consistent_of_idle (if_neg hleft) h.socket h.positive

/-- Processing an acknowledgement leaves the client idle, at most one number further. -/
theorem ClientProcess.Consistent.processAck {history : List Transaction} {client : InAddr}
    {c : ClientProcess} (h : c.Consistent history client) (status : Word) :
    (c.processAck status).Consistent history client := by
  have hpositive := h.positive
  refine consistent_of_idle (c.processAck_phase status) ?_ ?_
  · simpa using h.socket
  · rw [ClientProcess.processAck_sequenceNumber]
    split <;> omega

/-- Reading one acknowledgement out of the socket changes nothing else. -/
theorem ClientProcess.Consistent.take {history : List Transaction} {client : InAddr}
    {c : ClientProcess} (h : c.Consistent history client) {ack : AckData} {rest : List AckData}
    (hsocket : c.socket = ack :: rest) : ({ c with socket := rest } : ClientProcess).Consistent history client where
  socket other hother := h.socket other (hsocket ▸ List.mem_cons_of_mem _ hother)
  positive := h.positive
  isInt := h.isInt
  matching := h.matching

/-- An acknowledgement taken for the command's number stands for the command's own entry. -/
theorem ClientProcess.Consistent.logged {history : List Transaction} {client : InAddr}
    {c : ClientProcess} {command : Command} (h : c.Consistent history client)
    (hcommand : c.phase.command = some command) {ack : AckData} (hack : ack ∈ c.socket)
    (hseqn : ack.seqn = BitVec.ofInt 32 c.sequenceNumber) (hmoves : movesOn ack.status) :
    Logged history client ⟨command, c.sequenceNumber, ack.status⟩ := by
  have hpositive := h.positive
  have hnumber : ack.seqn.toInt = c.sequenceNumber := by
    rw [hseqn]
    exact BitVec.toInt_ofInt_eq_self (by decide) (by omega) (h.isInt command hcommand)
  obtain ⟨tx, htx, hsource, heq⟩ := h.socket ack hack hmoves (hnumber ▸ hpositive)
  exact ⟨tx, htx, hsource, heq.trans hnumber, h.matching command hcommand tx htx hsource (heq.trans hnumber)⟩

/-- One step of a client that starts no command under a number already used for another one. -/
theorem ClientProcess.Consistent.step {history : List Transaction} {client : InAddr}
    {c : ClientProcess} (h : c.Consistent history client) {event : ClientEvent} {outcome : ClientOutcome}
    (hstart : ∀ command, event = .start command → c.sequenceNumber < 2 ^ 31 ∧
      ∀ tx ∈ history, tx.sourceIp = inetNtop client → tx.clientSeqn = c.sequenceNumber →
        command.Names tx.destIp tx.value)
    (hstep : c.step event = some outcome) :
    outcome.process.Consistent history client ∧
      ∀ report ∈ outcome.ended, movesOn report.status → Logged history client report := by
  cases ClientProcess.step_cases hstep with
  | start command hphase =>
    obtain ⟨hint, hmatching⟩ := hstart command rfl
    refine ⟨⟨h.socket, h.positive, fun _ _ => hint, fun other hother => ?_⟩, by simp⟩
    exact (Option.some.inj hother) ▸ hmatching
  | send leftover command retries hphase =>
    have hcommand : c.phase.command = some command := by rw [hphase]; rfl
    exact ⟨⟨h.socket, h.positive, fun other hother => h.isInt other (hcommand.trans hother),
      fun other hother => h.matching other (hcommand.trans hother)⟩, by simp⟩
  | timeout command retries hphase => exact ⟨h.retry (by rw [hphase]; rfl), by simp⟩
  | taken command retries ack rest hphase hsocket hseqn =>
    refine ⟨(h.take hsocket).processAck _, fun report hreport hmoves => ?_⟩
    rw [← Option.some.inj hreport] at hmoves ⊢
    exact h.logged (by rw [hphase]; rfl) (hsocket ▸ List.mem_cons_self ..) hseqn hmoves
  | stale command retries ack rest hphase hsocket hseqn =>
    have hcommand : c.phase.command = some command := by rw [hphase]; rfl
    exact ⟨(h.take hsocket).retry hcommand, by simp⟩

/-! ## The exchange -/

/-- What links a client, its acknowledgements and its reports to the server's log. -/
structure Exchange.Honest (client : InAddr) (x : Exchange) : Prop where
  sequenced : Sequenced x.server.toLedger
  acks : ∀ ack, (client, ack) ∈ x.acks → Backed x.server.transactionHistory client ack
  process : (x.clients client).Consistent x.server.transactionHistory client
  reported : ∀ report, (client, report) ∈ x.reports → movesOn report.status →
    Logged x.server.transactionHistory client report

/-- A log that grows backs what it backed before. -/
theorem Backed.mono {history longer : List Transaction} (hsub : history ⊆ longer) {client : InAddr}
    {ack : AckData} (h : Backed history client ack) : Backed longer client ack := by
  intro hmoves hseqn
  obtain ⟨tx, htx, hentry⟩ := h hmoves hseqn
  exact ⟨tx, hsub htx, hentry⟩

/-- A log that grows holds what it held before. -/
theorem Logged.mono {history longer : List Transaction} (hsub : history ⊆ longer) {client : InAddr}
    {report : Report} (h : Logged history client report) : Logged longer client report := by
  obtain ⟨tx, htx, hentry⟩ := h
  exact ⟨tx, hsub htx, hentry⟩

/-- A log that grows by entries that match the command in progress stays consistent. -/
theorem ClientProcess.Consistent.mono {history entries : List Transaction} {client : InAddr}
    {c : ClientProcess} (h : c.Consistent history client)
    (hnew : ∀ command ∈ c.phase.command, ∀ tx ∈ entries, tx.sourceIp = inetNtop client →
      tx.clientSeqn = c.sequenceNumber → command.Names tx.destIp tx.value) :
    c.Consistent (history ++ entries) client where
  socket ack hack := (h.socket ack hack).mono (List.subset_append_left _ _)
  positive := h.positive
  isInt := h.isInt
  matching command hcommand tx htx := by
    cases List.mem_append.mp htx with
    | inl hold => exact h.matching command hcommand tx hold
    | inr hentry => exact hnew command hcommand tx hentry

/-- A request served under the condition keeps the client honest. -/
theorem Exchange.Honest.serve {client : InAddr} {x y : Exchange} {k : ℕ} (h : x.Honest client)
    (hguard : NoStaleExecution fl client x (.serve k)) (hstep : x.step fl (.serve k) = some y) :
    y.Honest client := by
  cases Exchange.step_cases fl hstep with
  | ignored => exact h
  | served _ addr req hreq hrole =>
    have hledger := x.server.serve_toLedger fl addr req
    have hstatus : (x.server.handleTransactionRequest fl req ⟨addr, clientPort⟩).2.1.status =
        x.server.verdict fl (inetNtop addr) (inetNtop req.destAddr) req.value.toInt req.seqn.toInt :=
      x.server.processTransaction_status fl _ _ _ _
    have hhistory := x.server.toLedger.apply_request_history fl addr req
    have hgrows : x.server.transactionHistory ⊆
        (x.server.toLedger.apply fl (requestCall addr req)).transactionHistory := by
      rw [hhistory]
      exact List.subset_append_left _ _
    refine ⟨hledger ▸ h.sequenced.apply _, fun ack hack => ?_, ?_, fun report hreport hmoves => ?_⟩
    · rw [acksIn_handleTransactionRequest] at hack
      rw [hledger]
      cases List.mem_append.mp hack with
      | inl hold => exact (h.acks ack hold).mono hgrows
      | inr hnew =>
        -- the new acknowledgement repeats the number and the verdict of the request just served
        obtain ⟨rfl, rfl⟩ := Prod.mk.inj (List.mem_singleton.mp hnew)
        intro hmoves hseqn
        simp only [ackOf, hstatus, BitVec.ofInt_toInt] at hmoves hseqn ⊢
        exact exists_entry_of_movesOn h.sequenced hmoves hseqn
    · rw [hledger, hhistory]
      refine h.process.mono fun command hcommand tx htx hsource hseqn => ?_
      split at htx
      · rw [List.mem_singleton.mp htx] at hsource hseqn ⊢
        obtain rfl : addr = client := inetNtop_injective hsource
        exact hguard (addr, req) hreq rfl ‹_› command hcommand hseqn
      · contradiction
    · rw [hledger]
      exact (h.reported report hreport hmoves).mono hgrows

/-- One step that meets the condition keeps the client honest. -/
theorem Exchange.Honest.step {client : InAddr} {x y : Exchange} {e : ExchangeEvent} (h : x.Honest client)
    (hguard : NoStaleExecution fl client x e) (hstep : x.step fl e = some y) : y.Honest client := by
  cases Exchange.step_cases fl hstep with
  | discover addr =>
    have hledger := x.server.handleDiscoveryPacket_toLedger fl ⟨addr, clientPort⟩
    have hhistory : (x.server.handleDiscoveryPacket fl ⟨addr, clientPort⟩).1.transactionHistory =
        x.server.transactionHistory := by
      rw [hledger]
      split
      · exact Ledger.apply_addClient_history _ _
      · rfl
    refine ⟨?_, hhistory ▸ h.acks, hhistory ▸ h.process, hhistory ▸ h.reported⟩
    rw [hledger]
    split
    · exact h.sequenced.apply _
    · exact h.sequenced
  | client addr event outcome houtcome =>
    by_cases haddr : addr = client
    · subst haddr
      have hclient := h.process.step (fun command hevent => by
        subst hevent
        exact hguard rfl) houtcome
      refine ⟨h.sequenced, h.acks, ?_, fun report hreport => ?_⟩
      · simp only [Function.update_self]
        exact hclient.1
      · cases List.mem_append.mp hreport with
        | inl hold => exact h.reported report hold
        | inr hnew =>
          obtain ⟨ended, hended, heq⟩ := Option.mem_map.mp (Option.mem_toList.mp hnew)
          obtain rfl := (Prod.mk.inj heq).2
          exact hclient.2 ended hended
    · refine ⟨h.sequenced, h.acks, ?_, fun report hreport => ?_⟩
      · simp only [Function.update_of_ne (Ne.symm haddr)]
        exact h.process
      · cases List.mem_append.mp hreport with
        | inl hold => exact h.reported report hold
        | inr hnew =>
          obtain ⟨_, _, heq⟩ := Option.mem_map.mp (Option.mem_toList.mp hnew)
          exact absurd (Prod.mk.inj heq).1 haddr
  | served | ignored => exact h.serve hguard hstep
  | arrive k addr ack hack =>
    refine ⟨h.sequenced, h.acks, ?_, h.reported⟩
    by_cases haddr : addr = client
    · subst haddr
      simp only [Function.update_self]
      refine ⟨fun other hother => ?_, h.process.positive, h.process.isInt, h.process.matching⟩
      cases List.mem_append.mp hother with
      | inl hold => exact h.process.socket other hold
      | inr hnew => exact List.mem_singleton.mp hnew ▸ h.acks ack (List.mem_of_getElem? hack)
    · simp only [Function.update_of_ne (Ne.symm haddr)]
      exact h.process

/-- In every run that meets the condition for a client, a command of this client that ended by
taking a `SUCCESS` or an `ERROR_DUPLICATE_REQUEST` is in the server's log, under its own
sequence number and with its own destination and value. -/
theorem reported_commands_are_logged {serverId : Word} {port : UInt16} {client : InAddr} {x : Exchange}
    (h : Reachable (Exchange.step fl) (NoStaleExecution fl client) (· = freshExchange serverId port) x) :
    ∀ report, (client, report) ∈ x.reports →
      report.status = TransactionStatus.success.toWord ∨
          report.status = TransactionStatus.errorDuplicateRequest.toWord →
        ∃ tx ∈ x.server.transactionHistory, tx.sourceIp = inetNtop client ∧
          tx.clientSeqn = report.seqn ∧ tx.destIp.bytes = report.command.destIp ∧
          tx.value = report.command.value := by
  have hhonest : x.Honest client := by
    refine h.invariant (fun y hy => ?_) (fun _ _ _ hs hg hstep => hs.step hg hstep)
    rw [hy]
    exact ⟨sequenced_empty, by simp [freshExchange],
      consistent_of_idle rfl (by simp [freshExchange]) (le_refl (1 : ℤ)), by simp [freshExchange]⟩
  intro report hreport hstatus
  have hmoves : movesOn report.status := by simpa [movesOn] using hstatus
  exact hhonest.reported report hreport hmoves

instance (client : InAddr) (x : Exchange) : DecidablePred (NoStaleExecution fl client x)
  | .client _ (.start _) => inferInstanceAs (Decidable (_ → _ ∧ _))
  | .serve k => inferInstanceAs (Decidable (∀ sent ∈ x.requests[k]?, _ → _ →
      ∀ command ∈ (x.clients client).phase.command, _))
  | .discover _ | .client _ (.send _) | .client _ .timeout | .client _ .receive | .arrive _ => .isTrue trivial

/-- A command of client 21 to pay to client 22. -/
def payClient22 : Command := ⟨(inetNtop (testHost 22).sinAddr).bytes, 20, by decide⟩

/-- A refused command's number is reused by the next one, which is executed and reported. -/
theorem reused_number_is_logged :
    ∃ x : Exchange, x.reports.length = 2 ∧
      ∀ report, (client21, report) ∈ x.reports →
        report.status = TransactionStatus.success.toWord ∨
            report.status = TransactionStatus.errorDuplicateRequest.toWord →
          ∃ tx ∈ x.server.transactionHistory, tx.sourceIp = inetNtop client21 ∧
            tx.clientSeqn = report.seqn ∧ tx.destIp.bytes = report.command.destIp ∧
            tx.value = report.command.value := by
  obtain ⟨x, hreach, htest⟩ := exists_reachable_of_replay (Exchange.step singlePrecision)
    (NoStaleExecution singlePrecision client21) (· = freshExchange 1 4000)
    [.discover client21, .client client21 (.start payClient22), .client client21 (.send client21), .serve 0,
      .arrive 0, .client client21 .receive, .client client21 (.start payItself),
      .client client21 (.send client21), .serve 1, .arrive 1, .client client21 .receive]
    (fun x => decide (x.reports.length = 2)) rfl (by decide +kernel)
  exact ⟨x, of_decide_eq_true htest, reported_commands_are_logged hreach⟩

/-- After five timeouts the client reuses the number; the late acknowledgement of the old
command is taken for the new one, which the server never executes. -/
theorem stale_acknowledgement_reported_as_success :
    ∃ x, Reachable (Exchange.step singlePrecision) Always (· = freshExchange 1 4000) x ∧
      (client21, ⟨payClient22, 1, TransactionStatus.success.toWord⟩) ∈ x.reports ∧
      ∀ tx ∈ x.server.transactionHistory, tx.value ≠ payClient22.value := by
  obtain ⟨x, hreach, htest⟩ := exists_reachable_of_replay (Exchange.step singlePrecision) Always
    (· = freshExchange 1 4000)
    ([.discover client21, .client client21 (.start payItself)] ++
      (List.replicate maxRetries [.client client21 (.send client21), .client client21 .timeout]).flatten ++
      [.serve 0, .client client21 (.start payClient22), .client client21 (.send client21), .arrive 0,
        .client client21 .receive])
    (fun x => decide ((client21, ⟨payClient22, 1, TransactionStatus.success.toWord⟩) ∈ x.reports ∧
      ∀ tx ∈ x.server.transactionHistory, tx.value ≠ payClient22.value))
    rfl (by decide +kernel)
  exact ⟨x, hreach, of_decide_eq_true htest⟩

end BankReplica
