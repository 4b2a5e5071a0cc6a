import BankReplica.ClientProcess
import BankReplica.Sequencing

/-!
# Exactly-once execution over an unreliable network

The server's ledger changes only by registrations and by serving requests that some
client sent, so the numbering of the log survives every loss, duplication, delay and
reordering of packets.
-/

namespace BankReplica

open Runs

variable (fl : FloatRounding)

variable {fl}

/-- A step keeps the ledger, registers a client, or serves a request some client sent. -/
theorem Exchange.step_ledger {x y : Exchange} {e : ExchangeEvent} (h : x.step fl e = some y) :
    y.server.toLedger = x.server.toLedger ∨
      (∃ addr, y.server.toLedger = x.server.toLedger.apply fl (.addClient (inetNtop addr))) ∨
      ∃ addr req, (addr, req) ∈ x.requests ∧
        y.server.toLedger = x.server.toLedger.apply fl (requestCall addr req) := by
  cases Exchange.step_cases fl h with
  | discover addr =>
    rw [Server.handleDiscoveryPacket_toLedger]
    split
    · exact .inr (.inl ⟨addr, rfl⟩)
    · exact .inl rfl
  | served k addr req hreq hrole =>
    exact .inr (.inr ⟨addr, req, List.mem_of_getElem? hreq, x.server.serve_toLedger fl addr req⟩)
  | client | ignored | arrive => exact .inl rfl

/-- Requests are never forgotten. -/
theorem Exchange.step_requests {x y : Exchange} {e : ExchangeEvent} (h : x.step fl e = some y) :
    x.requests ⊆ y.requests := by
  cases Exchange.step_cases fl h with
  | client addr event outcome houtcome => exact List.subset_append_left _ _
  | discover | served | ignored | arrive => exact List.Subset.refl _

/-- A log entry records a request its source sent. -/
def Requested (requests : List (InAddr × ReqData)) (tx : Transaction) : Prop :=
  ∃ addr req, (addr, req) ∈ requests ∧ tx.sourceIp = inetNtop addr ∧ tx.clientSeqn = req.seqn.toInt ∧
    tx.destIp = inetNtop req.destAddr ∧ tx.value = req.value.toInt

/-- The log after a registration is the log before it. -/
theorem Ledger.apply_addClient_history (l : Ledger) (ip : IpString) :
    (l.apply fl (.addClient ip)).transactionHistory = l.transactionHistory := by
  simp only [Ledger.apply]
  split <;> rfl

variable (fl) in
/-- The log after a request is the log before it, or has one entry more that records it. -/
theorem Ledger.apply_request_history (l : Ledger) (addr : InAddr) (req : ReqData) :
    (l.apply fl (requestCall addr req)).transactionHistory = l.transactionHistory ++
      if l.verdict fl (inetNtop addr) (inetNtop req.destAddr) req.value.toInt req.seqn.toInt = .success then
        [l.loggedTransaction (inetNtop addr) (inetNtop req.destAddr) req.value.toInt req.seqn.toInt]
      else [] := by
  simp only [Ledger.apply, requestCall]
  split
  · rw [Ledger.commit_transactionHistory]
  · rw [List.append_nil]

/-- The numbering of the log, and where its entries come from. -/
structure Exchange.Faithful (x : Exchange) : Prop where
  sequenced : Sequenced x.server.toLedger
  requested : ∀ tx ∈ x.server.transactionHistory, Requested x.requests tx

/-- One step keeps the log faithful. -/
theorem Exchange.Faithful.step {x y : Exchange} (h : x.Faithful) {e : ExchangeEvent}
    (hstep : x.step fl e = some y) : y.Faithful := by
  have hkept : ∀ tx, Requested x.requests tx → Requested y.requests tx := by
    rintro tx ⟨addr, req, hmem, htx⟩
    exact ⟨addr, req, Exchange.step_requests hstep hmem, htx⟩
  rcases Exchange.step_ledger hstep with hsame | ⟨addr, hadd⟩ | ⟨addr, req, hreq, hserve⟩
  · exact ⟨hsame ▸ h.sequenced, fun tx htx => hkept tx (h.requested tx (hsame ▸ htx))⟩
  · refine ⟨hadd ▸ h.sequenced.apply _, fun tx htx => ?_⟩
    rw [hadd, Ledger.apply_addClient_history] at htx
    exact hkept tx (h.requested tx htx)
  · refine ⟨hserve ▸ h.sequenced.apply _, fun tx htx => ?_⟩
    rw [hserve, Ledger.apply_request_history] at htx
    cases List.mem_append.mp htx with
    | inl hold => exact hkept tx (h.requested tx hold)
    | inr hnew =>
      split at hnew
      · rw [List.mem_singleton.mp hnew]
        exact ⟨addr, req, Exchange.step_requests hstep hreq, rfl, rfl, rfl, rfl⟩
      · contradiction

/-- In every reachable state every client's log entries carry 1, 2, ..., up to its last request
in that order; every entry belongs to a registered client and has the destination and
value of a request that client sent under that number; and the ids count the log. -/
theorem exactly_once_ledger {serverId : Word} {port : UInt16} {x : Exchange}
    (h : Reachable (Exchange.step fl) Always (· = freshExchange serverId port) x) :
    (∀ c ∈ x.server.clients, 0 ≤ c.lastReq ∧ x.server.seqnsOf c.address = upTo c.lastReq) ∧
      (∀ tx ∈ x.server.transactionHistory, tx.sourceIp ∈ x.server.addresses ∧ Requested x.requests tx) ∧
      x.server.transactionHistory.map Transaction.id = upTo x.server.transactionHistory.length := by
  have hfaithful : x.Faithful := by
    refine h.invariant (fun y hy => ?_) (fun _ _ _ hs _ hstep => hs.step hstep)
    rw [hy]
    exact ⟨sequenced_empty, by simp [freshExchange, freshPrimary, Server.new]⟩
  have hseq := hfaithful.sequenced
  refine ⟨fun c hc => ⟨hseq.nonneg c hc, hseq.numbered c hc⟩,
    fun tx htx => ⟨hseq.sources tx htx, hfaithful.requested tx htx⟩, ?_⟩
  rw [hseq.ids, hseq.counted]

/-- The address of client 21 and a command to pay 10 to itself. -/
def client21 : InAddr := (testHost 21).sinAddr

def payItself : Command := ⟨(inetNtop client21).bytes, 10, by decide⟩

/-- A request served, resent and served again is logged once. -/
theorem retransmission_logged_once :
    ∃ x : Exchange, (x.acks.length = 3 ∧ x.requests.length = 2) ∧
      ∀ c ∈ x.server.clients, 0 ≤ c.lastReq ∧ x.server.seqnsOf c.address = upTo c.lastReq := by
  obtain ⟨x, hreach, htest⟩ := exists_reachable_of_replay (Exchange.step singlePrecision) Always
    (· = freshExchange 1 4000)
    [.discover client21, .client client21 (.start payItself), .client client21 (.send client21), .serve 0,
      .client client21 .timeout, .client client21 (.send client21), .serve 1, .serve 0]
    (fun x => decide (x.acks.length = 3 ∧ x.requests.length = 2)) rfl (by decide +kernel)
  exact ⟨x, of_decide_eq_true htest, (exactly_once_ledger hreach).1⟩

end BankReplica
