import BankReplica.Accounts

/-!
# Acceptance is exact and rejection is atomic

`validateTransaction` tests four reasons for a rejection in order, and nothing is written
before all of them have been tested. The sum `last_req + 1` is formed only for a request
whose number exceeds `last_req`, so it cannot overflow where it is formed.
-/

namespace BankReplica

variable (fl : FloatRounding)

/-- `Server::validateTransaction` where `plusOne` is what the machine makes of `+ 1`. -/
def Ledger.validateTransactionOn (plusOne : ℤ → ℤ) (l : Ledger) (sourceIt destIt : ℕ) (value seqn : ℤ) :
    TransactionStatus :=
  match l.clients[sourceIt]?, l.clients[destIt]? with
  | some source, some _ =>
    if seqn ≤ source.lastReq then .errorDuplicateRequest
    else if seqn > plusOne source.lastReq then .errorOutOfSequence
    else if source.balance < fl value then .errorInsufficientFunds
    else .success
  | _, _ => .errorClientNotFound

/-- An addition that is right below `INT_MAX` is as good as an exact one. -/
theorem Ledger.validateTransactionOn_eq {plusOne : ℤ → ℤ} (hplus : ∀ n, IsInt n → IsInt (n + 1) → plusOne n = n + 1)
    {l : Ledger} (hints : ∀ c ∈ l.clients, IsInt c.lastReq) (sourceIt destIt : ℕ) (value : ℤ) {seqn : ℤ}
    (hseqn : IsInt seqn) :
    l.validateTransactionOn fl plusOne sourceIt destIt value seqn =
      l.validateTransaction fl sourceIt destIt value seqn := by
  unfold Ledger.validateTransactionOn Ledger.validateTransaction
  cases hsource : l.clients[sourceIt]? with
  | none => rfl
  | some source =>
    cases l.clients[destIt]? with
    | none => rfl
    | some dest =>
      by_cases hduplicate : seqn ≤ source.lastReq
      · simp only [hduplicate, if_true]
      · have hint := hints source (List.mem_of_getElem? hsource)
        have hsucc : IsInt (source.lastReq + 1) := by
          simp only [IsInt] at hint hseqn ⊢
          omega
        simp only [hduplicate, if_false, hplus _ hint hsucc]

/-- The balance returned is the source's in the state left behind. -/
theorem Server.processTransaction_balance (s : Server) (sourceIp : IpString) (dest : InAddr) (value seqn : ℤ) :
    (s.processTransaction fl sourceIp dest value seqn).2.1.balance =
      ((s.processTransaction fl sourceIp dest value seqn).1.account sourceIp).elim (-1) ClientDTO.balance := by
  rw [Ledger.account, s.processTransaction_toLedger fl sourceIp dest value seqn, ← Ledger.account]
  by_cases haccept : s.verdict fl sourceIp (inetNtop dest) value seqn = .success
  · rw [if_pos haccept]
    simp only [Server.processTransaction, Server.handleTransactionLogic_accept fl haccept, Ledger.balanceAt]
    rw [← Ledger.getElem?_findClient, Ledger.commit_findClient]
  · rw [if_neg haccept]
    obtain ⟨log, hlog⟩ := Server.handleTransactionLogic_reject fl haccept
    simp only [Server.processTransaction, hlog, Ledger.balanceAt, Ledger.getElem?_findClient]

/-- The last request returned is the source's in the state left behind. -/
theorem Server.processTransaction_lastReq (s : Server) (sourceIp : IpString) (dest : InAddr) (value seqn : ℤ) :
    (s.processTransaction fl sourceIp dest value seqn).2.1.lastReq =
      ((s.processTransaction fl sourceIp dest value seqn).1.account sourceIp).elim 0 ClientDTO.lastReq := by
  have hledger : (s.processTransaction fl sourceIp dest value seqn).1.toLedger =
      (s.handleTransactionLogic fl sourceIp (inetNtop dest) value seqn).1.toLedger := by
    rw [s.processTransaction_toLedger, s.handleTransactionLogic_toLedger]
  rw [hledger, ← Ledger.getElem?_findClient]
  rfl

/-- A request is accepted exactly if both parties are registered, its number is the next one
of the source and the source can pay; a request not accepted leaves the books as they are
and sends nothing; the reply describes the source in the state left behind; and what the
machine makes of `INT_MAX + 1` does not matter. -/
theorem acceptance_exact_rejection_atomic (s : Server) (hints : ∀ c ∈ s.clients, IsInt c.lastReq)
    (sourceIp : IpString) (dest : InAddr) (value : ℤ) {seqn : ℤ} (hseqn : IsInt seqn) :
    let result := s.processTransaction exactBalances sourceIp dest value seqn
    (result.2.1.status = .success ↔
      ∃ source, s.account sourceIp = some source ∧ inetNtop dest ∈ s.addresses ∧
        seqn = source.lastReq + 1 ∧ value ≤ source.balance) ∧
    (result.2.1.status ≠ .success → result.1.toLedger = s.toLedger ∧ result.2.2 = []) ∧
    result.2.1.balance = (result.1.account sourceIp).elim (-1) ClientDTO.balance ∧
    result.2.1.lastReq = (result.1.account sourceIp).elim 0 ClientDTO.lastReq ∧
    ∀ plusOne : ℤ → ℤ, (∀ n, IsInt n → IsInt (n + 1) → plusOne n = n + 1) →
      s.validateTransactionOn exactBalances plusOne (s.findClient sourceIp) (s.findClient (inetNtop dest))
        value seqn = result.2.1.status := by
  intro result
  have hstatus : result.2.1.status = s.verdict exactBalances sourceIp (inetNtop dest) value seqn :=
    s.processTransaction_status exactBalances sourceIp dest value seqn
  refine ⟨?_, ?_, s.processTransaction_balance exactBalances sourceIp dest value seqn,
    s.processTransaction_lastReq exactBalances sourceIp dest value seqn, ?_⟩
  · rw [hstatus, Ledger.verdict_eq_success]
    simp only [← Ledger.account_isSome, Option.isSome_iff_exists, exactBalances, RoundBits.Rounding.exact_apply]
    constructor
    · rintro ⟨source, destClient, hsource, hdest, hnext, hpays⟩
      exact ⟨source, hsource, ⟨destClient, hdest⟩, hnext, hpays⟩
    · rintro ⟨source, hsource, ⟨destClient, hdest⟩, hnext, hpays⟩
      exact ⟨source, destClient, hsource, hdest, hnext, hpays⟩
  · intro hreject
    rw [hstatus] at hreject
    have hledger := s.processTransaction_toLedger exactBalances sourceIp dest value seqn
    rw [if_neg hreject] at hledger
    exact ⟨hledger, Server.processTransaction_sends_reject exactBalances hreject⟩
  · intro plusOne hplus
    rw [hstatus]
    exact Ledger.validateTransactionOn_eq exactBalances hplus hints _ _ value hseqn

/-- A server whose one client has used up every sequence number. -/
def exhaustedServer : Server :=
  { Server.new 1 4000 with
    currentRole := .primary
    clients := [{ ClientDTO.new (inetNtop (testHost 2).sinAddr) with lastReq := 2 ^ 31 - 1 }] }

/-- At `INT_MAX` the next request is a repetition whatever the addition yields. -/
theorem acceptance_at_int_max :
    let host := (testHost 2).sinAddr
    let result := exhaustedServer.processTransaction exactBalances (inetNtop host) host 5 (2 ^ 31 - 1)
    result.2.1 = ⟨.errorDuplicateRequest, 1000, 2 ^ 31 - 1⟩ ∧
    exhaustedServer.validateTransactionOn exactBalances (fun n => (BitVec.ofInt 32 (n + 1)).toInt)
        (exhaustedServer.findClient (inetNtop host)) (exhaustedServer.findClient (inetNtop host)) 5
        (2 ^ 31 - 1) = result.2.1.status := by
  have hints : ∀ c ∈ exhaustedServer.clients, IsInt c.lastReq := by decide +kernel
  have hseqn : IsInt (2 ^ 31 - 1) := by decide
  constructor
  · decide +kernel
  · apply (acceptance_exact_rejection_atomic exhaustedServer hints (inetNtop (testHost 2).sinAddr)
      (testHost 2).sinAddr 5 hseqn).2.2.2.2
    intro n hn hsucc
    exact BitVec.toInt_ofInt_eq_self (by decide) hsucc.1 hsucc.2

end BankReplica
