import BankReplica.ClientReports

/-!
# The window between a client and its server

A client advances by one when it reads an acknowledgement for its number with a status
that moves it on, and the server advances by one when it executes the next number. Any
request or acknowledgement ever sent may still arrive, so the bound between the two
counters needs a bound on all of them: no request is ahead of the client, and no
acknowledgement that moves a client on is ahead of the server.
-/

namespace BankReplica

open Runs

variable {fl : FloatRounding}

/-! ## The server's counter -/

/-- The last request of an account, `0` without one. -/
theorem Ledger.lastRequestOf_eq (l : Ledger) (ip : IpString) :
    l.lastRequestOf ip = (l.account ip).elim 0 ClientDTO.lastReq := by
  rw [Ledger.lastRequestOf, l.getElem?_findClient]

variable (fl) in
/-- Registering a client moves no counter. -/
theorem Ledger.lastRequestOf_addClient (l : Ledger) (added ip : IpString) :
    (l.apply fl (.addClient added)).lastRequestOf ip = l.lastRequestOf ip := by
  simp only [Ledger.apply]
  split
  · rfl
  · rename_i hnew
    have haccount : (l.register fl added).account ip = if ip = added then some (.new added) else l.account ip :=
      lookup_append_client (c := .new added) hnew ip
    rw [lastRequestOf_eq, lastRequestOf_eq, haccount]
    split
    · rename_i hip
      have hmiss : l.account ip = none := (KeyedList.lookup_eq_none _).mpr (hip ▸ hnew)
      rw [hmiss]
      rfl
    · rfl

/-- An accepted request sets its source's counter and moves no other. -/
theorem Ledger.lastRequestOf_commit {l : Ledger} (hnodup : l.addresses.Nodup) {sourceIp destIp : IpString}
    {value seqn : ℤ} (haccept : l.verdict fl sourceIp destIp value seqn = .success) (ip : IpString) :
    (l.commit fl sourceIp destIp value seqn).lastRequestOf ip =
      if ip = sourceIp then seqn else l.lastRequestOf ip := by
  rw [lastRequestOf_eq, lastRequestOf_eq, l.account_commit fl hnodup]
  split
  · rename_i hip
    obtain ⟨source, -, hsource, -⟩ := (Ledger.verdict_eq_success fl).mp haccept
    have haddress := (Ledger.account_some hsource).2
    rw [hip, hsource]
    simp [moveRecord, haddress]
  · rename_i hip
    cases haccount : l.account ip with
    | none => rfl
    | some c =>
      have haddress := (Ledger.account_some haccount).2
      simp [moveRecord, haddress, hip]

/-- An accepted request carries the number after its source's counter. -/
theorem Ledger.seqn_of_accept {l : Ledger} {sourceIp destIp : IpString} {value seqn : ℤ}
    (h : l.verdict fl sourceIp destIp value seqn = .success) : seqn = l.lastRequestOf sourceIp + 1 := by
  obtain ⟨source, -, hsource, -, hseqn, -⟩ := (Ledger.verdict_eq_success fl).mp h
  rw [lastRequestOf_eq, hsource, hseqn]
  rfl

/-- A request is out of sequence only if it skips a number of its source. -/
theorem Ledger.verdict_eq_outOfSequence {l : Ledger} {sourceIp destIp : IpString} {value seqn : ℤ}
    (h : l.verdict fl sourceIp destIp value seqn = .errorOutOfSequence) :
    l.lastRequestOf sourceIp + 1 < seqn := by
  unfold Ledger.verdict Ledger.validateTransaction at h
  rw [l.getElem?_findClient, l.getElem?_findClient] at h
  split at h
  · rename_i source dest hsource hdest
    rw [lastRequestOf_eq, hsource]
    split_ifs at h
    assumption
  · contradiction

variable (fl) in
/-- Serving a request moves the counter of its source, by one, exactly if it is accepted. -/
theorem Ledger.lastRequestOf_request {l : Ledger} (hnodup : l.addresses.Nodup) (addr : InAddr) (req : ReqData)
    (ip : IpString) :
    (l.apply fl (requestCall addr req)).lastRequestOf ip = l.lastRequestOf ip +
      if ip = inetNtop addr ∧ l.verdict fl (inetNtop addr) (inetNtop req.destAddr) req.value.toInt
        req.seqn.toInt = .success then 1 else 0 := by
  simp only [Ledger.apply, requestCall]
  split
  · rename_i haccept
    rw [lastRequestOf_commit hnodup haccept]
    by_cases hip : ip = inetNtop addr
    · have hseqn := seqn_of_accept haccept
      simp only [hip, haccept, if_true, and_self]
      omega
    · simp only [hip, if_false, false_and, add_zero]
  · rename_i hreject
    simp only [hreject, and_false, if_false, add_zero]

/-! ## The client's counter -/

/-- A step of a client keeps its number, or moves it on by one upon an acknowledgement. -/
theorem ClientStep.sequenceNumber {c : ClientProcess} {event : ClientEvent} {outcome : ClientOutcome}
    (h : ClientStep c event outcome) :
    outcome.process.sequenceNumber = c.sequenceNumber ∨
      outcome.process.sequenceNumber = c.sequenceNumber + 1 ∧
        ∃ ack ∈ c.socket, movesOn ack.status ∧ ack.seqn = BitVec.ofInt 32 c.sequenceNumber := by
  cases h with
  | start | send | timeout | stale => exact .inl rfl
  | taken command retries ack rest hphase hsocket hseqn =>
    rw [ClientProcess.processAck_sequenceNumber]
    split
    · exact .inr ⟨rfl, ack, hsocket ▸ List.mem_cons_self .., ‹_›, hseqn⟩
    · exact .inl (add_zero _)

/-- A step of a client only takes acknowledgements out of its socket. -/
theorem ClientStep.socket {c : ClientProcess} {event : ClientEvent} {outcome : ClientOutcome}
    (h : ClientStep c event outcome) : outcome.process.socket ⊆ c.socket := by
  cases h with
  | start | send | timeout => exact List.Subset.refl _
  | stale command retries ack rest hphase hsocket hseqn => exact hsocket ▸ List.subset_cons_self ack rest
  | taken command retries ack rest hphase hsocket hseqn =>
    rw [ClientProcess.processAck_socket]
    exact hsocket ▸ List.subset_cons_self ack rest

/-- A request carries the number its client is using. -/
theorem ClientStep.sent {c : ClientProcess} {event : ClientEvent} {outcome : ClientOutcome}
    (h : ClientStep c event outcome) :
    ∀ req ∈ outcome.sent, req.seqn = BitVec.ofInt 32 c.sequenceNumber := by
  cases h with
  | send leftover command retries hphase =>
    intro req hreq
    exact (Option.some.inj hreq) ▸ rfl
  | start | timeout | taken | stale => simp

/-! ## The window -/

/-- An acknowledgement moves its client on at most as far as the server is, and does not
find its request out of sequence. -/
def Honours (lastReq : ℤ) (ack : AckData) : Prop :=
  (movesOn ack.status → ack.seqn.toInt ≤ lastReq) ∧
    ack.status ≠ TransactionStatus.errorOutOfSequence.toWord

/-- A server that goes on honours what it honoured before. -/
theorem Honours.mono {lastReq later : ℤ} {ack : AckData} (h : Honours lastReq ack) (hle : lastReq ≤ later) :
    Honours later ack :=
  ⟨fun hmoves => (h.1 hmoves).trans hle, h.2⟩

/-- The answer to a request that skips no number is honoured. -/
theorem honours_served {l : Ledger} (hnodup : l.addresses.Nodup) (addr : InAddr) (req : ReqData)
    (hseqn : req.seqn.toInt ≤ l.lastRequestOf (inetNtop addr) + 1) {reply : Reply}
    (hstatus : reply.status =
      l.verdict fl (inetNtop addr) (inetNtop req.destAddr) req.value.toInt req.seqn.toInt) :
    Honours ((l.apply fl (requestCall addr req)).lastRequestOf (inetNtop addr))
      (ackOf req.seqn.toInt reply) := by
  have hcounter := l.lastRequestOf_request fl hnodup addr req (inetNtop addr)
  simp only [Honours, ackOf, hstatus, BitVec.ofInt_toInt]
  constructor
  · intro hmoves
    cases (movesOn_toWord _).mp hmoves with
    | inl haccept =>
      simp only [haccept, if_true, and_self] at hcounter
      omega
    | inr hduplicate =>
      obtain ⟨source, haccount, hle⟩ := Ledger.verdict_eq_duplicate hduplicate
      simp only [hduplicate, and_false, if_false, reduceCtorEq, l.lastRequestOf_eq, haccount,
        Option.elim_some] at hcounter
      omega
  · intro hword
    have hskips : l.verdict fl (inetNtop addr) (inetNtop req.destAddr) req.value.toInt req.seqn.toInt =
        .errorOutOfSequence := by
      revert hword
      cases l.verdict fl (inetNtop addr) (inetNtop req.destAddr) req.value.toInt req.seqn.toInt <;> decide
    have hahead := Ledger.verdict_eq_outOfSequence hskips
    omega

/-- The two counters of a client are at most one apart, none of its requests is ahead of it,
and no acknowledgement for it is ahead of the server. -/
structure Window (client : InAddr) (l : Ledger) (c : ClientProcess) (requests : List (InAddr × ReqData))
    (acks : List (InAddr × AckData)) : Prop where
  sequenced : Sequenced l
  positive : 1 ≤ c.sequenceNumber
  requested : ∀ req, (client, req) ∈ requests → req.seqn.toInt ≤ c.sequenceNumber
  answered : ∀ ack, (client, ack) ∈ acks → Honours (l.lastRequestOf (inetNtop client)) ack
  socket : ∀ ack ∈ c.socket, Honours (l.lastRequestOf (inetNtop client)) ack
  ahead : c.sequenceNumber ≤ l.lastRequestOf (inetNtop client) + 1
  behind : l.lastRequestOf (inetNtop client) ≤ c.sequenceNumber

/-- The window of one client of an exchange. -/
def Exchange.InWindow (client : InAddr) (x : Exchange) : Prop :=
  Window client x.server.toLedger (x.clients client) x.requests x.acks

/-- Serving a request that was sent keeps the window. -/
theorem Window.serve {client : InAddr} {l : Ledger} {c : ClientProcess} {requests : List (InAddr × ReqData)}
    {acks : List (InAddr × AckData)} (h : Window client l c requests acks) {addr : InAddr} {req : ReqData}
    (hreq : (addr, req) ∈ requests) {reply : Reply}
    (hstatus : reply.status =
      l.verdict fl (inetNtop addr) (inetNtop req.destAddr) req.value.toInt req.seqn.toInt) :
    Window client (l.apply fl (requestCall addr req)) c requests
      (acks ++ [(addr, ackOf req.seqn.toInt reply)]) := by
  have hcounter := l.lastRequestOf_request fl h.sequenced.nodup addr req (inetNtop client)
  have hgrows : l.lastRequestOf (inetNtop client) ≤
      (l.apply fl (requestCall addr req)).lastRequestOf (inetNtop client) := by
    rw [hcounter]
    split <;> omega
  have hsent : addr = client → req.seqn.toInt ≤ c.sequenceNumber :=
    fun haddr => h.requested req (haddr ▸ hreq)
  refine ⟨h.sequenced.apply _, h.positive, h.requested, fun ack hack => ?_,
    fun ack hack => (h.socket ack hack).mono hgrows, by linarith [h.ahead], ?_⟩
  · cases List.mem_append.mp hack with
    | inl hold => exact (h.answered ack hold).mono hgrows
    | inr hnew =>
      obtain ⟨rfl, rfl⟩ := Prod.mk.inj (List.mem_singleton.mp hnew)
      exact honours_served h.sequenced.nodup _ req ((hsent rfl).trans h.ahead) hstatus
  · have hbehind := h.behind
    rw [hcounter]
    split
    · -- the number executed is the one after the counter, and the client has used it
      rename_i haccept
      have hsource : addr = client := inetNtop_injective haccept.1.symm
      have hnext := Ledger.seqn_of_accept haccept.2
      have hused := hsent hsource
      rw [hsource] at hnext
      omega
    · omega

/-- A step of the client keeps the window while its numbers are `int`s. -/
theorem Window.client {client : InAddr} {l : Ledger} {c : ClientProcess} {requests : List (InAddr × ReqData)}
    {acks : List (InAddr × AckData)} (h : Window client l c requests acks)
    (hint : c.sequenceNumber < 2 ^ 31) {event : ClientEvent} {outcome : ClientOutcome}
    (hstep : ClientStep c event outcome) :
    Window client l outcome.process (requests ++ (outcome.sent.map (client, ·)).toList) acks := by
  have hpositive := h.positive
  have hbehind := h.behind
  have hahead := h.ahead
  have hnumber : (BitVec.ofInt 32 c.sequenceNumber).toInt = c.sequenceNumber :=
    BitVec.toInt_ofInt_eq_self (by decide) (by omega) hint
  have hmoved : c.sequenceNumber ≤ outcome.process.sequenceNumber ∧
      outcome.process.sequenceNumber ≤ l.lastRequestOf (inetNtop client) + 1 := by
    cases hstep.sequenceNumber with
    | inl hkept => omega
    | inr hnext =>
      -- the acknowledgement read is for the number in use, so the server has executed it
      obtain ⟨heq, ack, hack, hmoves, hseqn⟩ := hnext
      have hexecuted := (h.socket ack hack).1 hmoves
      rw [hseqn, hnumber] at hexecuted
      omega
  refine ⟨h.sequenced, by omega, fun req hreq => ?_, h.answered,
    fun ack hack => h.socket ack (hstep.socket hack), hmoved.2, by omega⟩
  cases List.mem_append.mp hreq with
  | inl hold => exact (h.requested req hold).trans hmoved.1
  | inr hnew =>
    obtain ⟨sent, hsent, heq⟩ := Option.mem_map.mp (Option.mem_toList.mp hnew)
    rw [← (Prod.mk.inj heq).2, hstep.sent sent hsent, hnumber]
    exact hmoved.1

/-- A request of another client does not matter to the window. -/
theorem Window.other {client : InAddr} {l : Ledger} {c : ClientProcess} {requests : List (InAddr × ReqData)}
    {acks : List (InAddr × AckData)} (h : Window client l c requests acks) {addr : InAddr}
    (haddr : addr ≠ client) (sent : Option ReqData) :
    Window client l c (requests ++ (sent.map (addr, ·)).toList) acks := by
  refine ⟨h.sequenced, h.positive, fun req hreq => ?_, h.answered, h.socket, h.ahead, h.behind⟩
  cases List.mem_append.mp hreq with
  | inl hold => exact h.requested req hold
  | inr hnew =>
    obtain ⟨_, _, heq⟩ := Option.mem_map.mp (Option.mem_toList.mp hnew)
    exact absurd (Prod.mk.inj heq).1 haddr

/-- Registering any client keeps the window. -/
theorem Window.addClient {client : InAddr} {l : Ledger} {c : ClientProcess} {requests : List (InAddr × ReqData)}
    {acks : List (InAddr × AckData)} (h : Window client l c requests acks) (ip : IpString) :
    Window client (l.apply fl (.addClient ip)) c requests acks := by
  have hcounter := l.lastRequestOf_addClient fl ip (inetNtop client)
  exact ⟨h.sequenced.apply _, h.positive, h.requested, hcounter ▸ h.answered, hcounter ▸ h.socket,
    hcounter ▸ h.ahead, hcounter ▸ h.behind⟩

/-- An acknowledgement that arrives keeps the window. -/
theorem Window.arrive {client : InAddr} {l : Ledger} {c : ClientProcess} {requests : List (InAddr × ReqData)}
    {acks : List (InAddr × AckData)} (h : Window client l c requests acks) {ack : AckData}
    (hack : (client, ack) ∈ acks) : Window client l { c with socket := c.socket ++ [ack] } requests acks := by
  refine ⟨h.sequenced, h.positive, h.requested, h.answered, fun other hother => ?_, h.ahead, h.behind⟩
  cases List.mem_append.mp hother with
  | inl hold => exact h.socket other hold
  | inr hnew => exact List.mem_singleton.mp hnew ▸ h.answered ack hack

/-- One step keeps the window while the client's numbers are `int`s. -/
theorem Exchange.InWindow.step {client : InAddr} {x y : Exchange} {e : ExchangeEvent} (h : x.InWindow client)
    (hint : (x.clients client).sequenceNumber < 2 ^ 31) (hstep : x.step fl e = some y) :
    y.InWindow client := by
  unfold Exchange.InWindow at h ⊢
  cases Exchange.step_cases fl hstep with
  | discover addr =>
    rw [x.server.handleDiscoveryPacket_toLedger fl ⟨addr, clientPort⟩]
    split
    · exact h.addClient _
    · exact h
  | client addr event outcome houtcome =>
    by_cases haddr : addr = client
    · subst haddr
      simp only [Function.update_self]
      exact h.client hint (ClientProcess.step_cases houtcome)
    · simp only [Function.update_of_ne (Ne.symm haddr)]
      exact h.other haddr outcome.sent
  | served k addr req hreq hrole =>
    rw [acksIn_handleTransactionRequest, x.server.serve_toLedger fl addr req]
    exact h.serve (List.mem_of_getElem? hreq) (x.server.processTransaction_status fl _ _ _ _)
  | ignored => exact h
  | arrive k addr ack hack =>
    by_cases haddr : addr = client
    · subst haddr
      simp only [Function.update_self]
      exact h.arrive (List.mem_of_getElem? hack)
    · simp only [Function.update_of_ne (Ne.symm haddr)]
      exact h

/-- No step takes a client back. -/
theorem Exchange.step_sequenceNumber {x y : Exchange} {e : ExchangeEvent} (h : x.step fl e = some y)
    (client : InAddr) : (x.clients client).sequenceNumber ≤ (y.clients client).sequenceNumber := by
  cases Exchange.step_cases fl h with
  | client addr event outcome houtcome =>
    by_cases haddr : addr = client
    · subst haddr
      have hmoved := (ClientProcess.step_cases houtcome).sequenceNumber
      simp only [Function.update_self]
      omega
    · simp only [Function.update_of_ne (Ne.symm haddr), le_refl]
  | arrive k addr ack hack =>
    by_cases haddr : addr = client
    · subst haddr
      simp only [Function.update_self, le_refl]
    · simp only [Function.update_of_ne (Ne.symm haddr), le_refl]
  | discover | served | ignored => exact le_rfl

/-- In every reachable state in which a client's number is below `2 ^ 31 - 1`, the server's last
request of it is that number or the one before, and the server has answered none of its
requests with `ERROR_OUT_OF_SEQUENCE`. -/
theorem sequence_window {serverId : Word} {port : UInt16} {x : Exchange}
    (h : Reachable (Exchange.step fl) Always (· = freshExchange serverId port) x) (client : InAddr)
    (hbound : (x.clients client).sequenceNumber < 2 ^ 31 - 1) :
    (x.clients client).sequenceNumber - 1 ≤ x.server.lastRequestOf (inetNtop client) ∧
      x.server.lastRequestOf (inetNtop client) ≤ (x.clients client).sequenceNumber ∧
      ∀ ack, (client, ack) ∈ x.acks → ack.status ≠ TransactionStatus.errorOutOfSequence.toWord := by
  have hwindow : (x.clients client).sequenceNumber < 2 ^ 31 - 1 → x.InWindow client := by
    refine h.invariant (I := fun y => (y.clients client).sequenceNumber < 2 ^ 31 - 1 → y.InWindow client)
      (fun y hy _ => ?_) (fun y e z hs _ hstep hz => ?_)
    · rw [hy]
      exact ⟨sequenced_empty, le_refl (1 : ℤ), by simp [freshExchange], by simp [freshExchange],
        by simp [freshExchange], le_refl (1 : ℤ), zero_le_one⟩
    · have hless := Exchange.step_sequenceNumber hstep client
      exact (hs (by omega)).step (by omega) hstep
  have hin := hwindow hbound
  have hahead := hin.ahead
  exact ⟨by omega, hin.behind, fun ack hack => (hin.answered ack hack).2⟩

/-- Client 21 has used up one number and given up on the next, with two acknowledgements for the
first and one unanswered request still under way. -/
theorem sequence_window_after_give_up :
    ∃ x : Exchange, ((x.clients client21).sequenceNumber = 2 ∧ x.acks.length = 2 ∧ x.requests.length = 6) ∧
      (x.clients client21).sequenceNumber - 1 ≤ x.server.lastRequestOf (inetNtop client21) ∧
        x.server.lastRequestOf (inetNtop client21) ≤ (x.clients client21).sequenceNumber ∧
          ∀ ack, (client21, ack) ∈ x.acks → ack.status ≠ TransactionStatus.errorOutOfSequence.toWord := by
  obtain ⟨x, hreach, htest⟩ := exists_reachable_of_replay (Exchange.step singlePrecision) Always
    (· = freshExchange 1 4000)
    ([.discover client21, .client client21 (.start payItself), .client client21 (.send client21), .serve 0,
        .serve 0, .arrive 1, .client client21 .receive, .client client21 (.start payItself)] ++
      (List.replicate maxRetries [.client client21 (.send client21), .client client21 .timeout]).flatten)
    (fun x => decide ((x.clients client21).sequenceNumber = 2 ∧ x.acks.length = 2 ∧ x.requests.length = 6))
    rfl (by decide +kernel)
  have hstate := of_decide_eq_true htest
  exact ⟨x, hstate, sequence_window hreach client21 (by rw [hstate.1]; decide)⟩

end BankReplica
