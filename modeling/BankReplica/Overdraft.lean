import BankReplica.Calls
import BankReplica.Library.Runs

/-!
# Overdrafts and the sign of a transfer

`ReqData.value` is an unsigned word on the wire and an `int` on the server, and the only
check on it is the comparison with the source's balance. A negative value always passes
that check, raises the source's balance and lowers the destination's. Without such
transfers no balance is ever negative and nobody loses money to someone else's request,
under every rounding of balances.
-/

namespace BankReplica

open Runs

variable (fl : FloatRounding)

/-- What reaches a primary that matters to its ledger: a registration, or a
`TRANSACTION_REQ` packet with its sender's address. -/
inductive WireEvent
  | addClient (ip : IpString)
  | request (clientAddr : SockAddr) (req : ReqData)
deriving DecidableEq

/-- The effect of a wire event on the server; every event is handled. -/
def Server.wireStep (s : Server) : WireEvent → Option Server
  | .addClient ip => some (s.addClient fl ip).1
  | .request clientAddr req => some (s.handleTransactionRequest fl req clientAddr).1

/-- The verdict on a request as it is decoded from the wire. -/
def Ledger.requestVerdict (l : Ledger) (clientAddr : SockAddr) (req : ReqData) : TransactionStatus :=
  l.verdict fl (inetNtop clientAddr.sinAddr) (inetNtop req.destAddr) req.value.toInt req.seqn.toInt

/-- A request with a negative value is rejected or moves nothing between two clients. -/
def NoNegativeTransfer (s : Server) : WireEvent → Prop
  | .addClient _ => True
  | .request clientAddr req => req.value.toInt < 0 →
      clientAddr.sinAddr = req.destAddr ∨ s.requestVerdict fl clientAddr req ≠ .success

/-- No client's balance is negative. -/
def NoOverdraft (s : Server) : Prop := ∀ c ∈ s.clients, 0 ≤ c.balance

/-- A request does not lower the balance of a client other than its source. -/
def NoTheft (s : Server) (clientAddr : SockAddr) (req : ReqData) : Prop :=
  ∀ c ∈ s.clients, c.address ≠ inetNtop clientAddr.sinAddr →
    ∀ c' ∈ (s.handleTransactionRequest fl req clientAddr).1.clients, c'.address = c.address →
      c.balance ≤ c'.balance

instance (s : Server) : Decidable (NoOverdraft s) :=
  inferInstanceAs (Decidable (∀ c ∈ s.clients, 0 ≤ c.balance))

instance (s : Server) (clientAddr : SockAddr) (req : ReqData) :
    Decidable (NoTheft fl s clientAddr req) :=
  inferInstanceAs (Decidable (∀ c ∈ s.clients, c.address ≠ inetNtop clientAddr.sinAddr →
    ∀ c' ∈ (s.handleTransactionRequest fl req clientAddr).1.clients, c'.address = c.address →
      c.balance ≤ c'.balance))

instance (s : Server) : DecidablePred (NoNegativeTransfer fl s)
  | .addClient _ => .isTrue trivial
  | .request clientAddr req => inferInstanceAs (Decidable (req.value.toInt < 0 →
      clientAddr.sinAddr = req.destAddr ∨ s.requestVerdict fl clientAddr req ≠ .success))

/-- A request acts on the ledger as the call it decodes to. -/
theorem Server.handleTransactionRequest_toLedger (s : Server) (clientAddr : SockAddr) (req : ReqData) :
    (s.handleTransactionRequest fl req clientAddr).1.toLedger =
      if s.requestVerdict fl clientAddr req = .success then
        s.toLedger.commit fl (inetNtop clientAddr.sinAddr) (inetNtop req.destAddr) req.value.toInt
          req.seqn.toInt
      else s.toLedger :=
  s.processTransaction_toLedger fl _ _ _ _

/-- What a wire event can make of the ledger, one constructor for each case. -/
inductive WireEffect (l l' : Ledger) : WireEvent → Prop
  | registered (ip : IpString) (hnew : ip ∉ l.addresses) (hledger : l' = l.register fl ip) :
    WireEffect l l' (.addClient ip)
  | known (ip : IpString) (hold : ip ∈ l.addresses) (hledger : l' = l) : WireEffect l l' (.addClient ip)
  | accepted (clientAddr : SockAddr) (req : ReqData) (haccept : l.requestVerdict fl clientAddr req = .success)
      (hledger : l' = l.commit fl (inetNtop clientAddr.sinAddr) (inetNtop req.destAddr) req.value.toInt
        req.seqn.toInt) :
    WireEffect l l' (.request clientAddr req)
  | rejected (clientAddr : SockAddr) (req : ReqData) (hreject : l.requestVerdict fl clientAddr req ≠ .success)
      (hledger : l' = l) :
    WireEffect l l' (.request clientAddr req)

/-- A wire event has one of these effects. -/
theorem Server.wireStep_effect {s t : Server} {e : WireEvent} (hstep : s.wireStep fl e = some t) :
    WireEffect fl s.toLedger t.toLedger e := by
  cases e with
  | addClient ip =>
    have hledger := s.addClient_toLedger fl ip
    rw [Option.some.inj hstep] at hledger
    by_cases hold : ip ∈ s.addresses
    · exact .known ip hold (hledger.trans (if_pos hold))
    · exact .registered ip hold (hledger.trans (if_neg hold))
  | request clientAddr req =>
    have hledger := s.handleTransactionRequest_toLedger fl clientAddr req
    rw [Option.some.inj hstep] at hledger
    by_cases haccept : s.requestVerdict fl clientAddr req = .success
    · exact .accepted clientAddr req haccept (hledger.trans (if_pos haccept))
    · exact .rejected clientAddr req haccept (hledger.trans (if_neg haccept))

/-- Distinct addresses, and balances that are representable and not negative. -/
structure Solvent (l : Ledger) : Prop where
  nodup : l.addresses.Nodup
  nonneg : ∀ c ∈ l.clients, 0 ≤ c.balance
  representable : ∀ c ∈ l.clients, fl c.balance = c.balance

variable {fl}

/-- A fresh ledger is solvent. -/
theorem solvent_empty : Solvent fl {} where
  nodup := List.nodup_nil
  nonneg := by simp
  representable := by simp

/-- A new client starts with a representable positive balance. -/
theorem Solvent.register {l : Ledger} (h : Solvent fl l) {ip : IpString} (hip : ip ∉ l.addresses) :
    Solvent fl (l.register fl ip) where
  nodup := Ledger.nodup_register _ h.nodup hip
  nonneg := by
    intro c hc
    cases List.mem_append.mp hc with
    | inl hold => exact h.nonneg c hold
    | inr hnew =>
      rw [List.mem_singleton.mp hnew]
      change 0 ≤ initialBalance
      decide
  representable := by
    intro c hc
    cases List.mem_append.mp hc with
    | inl hold => exact h.representable c hold
    | inr hnew =>
      rw [List.mem_singleton.mp hnew]
      exact fl.exact_of_abs_le initialBalance (by decide)

/-- An accepted request finds its value in the source's balance. -/
theorem Solvent.value_le {l : Ledger} (h : Solvent fl l) {sourceIp destIp : IpString} {value seqn : ℤ}
    (haccept : l.verdict fl sourceIp destIp value seqn = .success) {c : ClientDTO}
    (hc : c ∈ l.clients) (hsource : c.address = sourceIp) : fl value ≤ c.balance := by
  obtain ⟨source, -, haccount, -, -, hfunds⟩ := (Ledger.verdict_eq_success fl).mp haccept
  have hfound := Ledger.account_of_mem h.nodup hc
  rw [hsource, haccount, Option.some.injEq] at hfound
  exact hfound ▸ hfunds

/-- A credit that is not negative, or that meets its own debit, lowers no other record. -/
theorem Solvent.le_moveRecord {l : Ledger} (h : Solvent fl l) {sourceIp destIp : IpString}
    {value seqn : ℤ} (hsign : value < 0 → sourceIp = destIp) {c : ClientDTO} (hc : c ∈ l.clients)
    (hother : c.address ≠ sourceIp) :
    c.balance ≤ (moveRecord fl sourceIp destIp value seqn c).balance := by
  simp only [moveRecord, hother, if_false]
  split
  · rename_i hdest
    have hvalue : 0 ≤ value := by
      by_contra hneg
      exact hother (hdest.trans (hsign (lt_of_not_ge hneg)).symm)
    exact fl.le_add_of_nonneg (h.representable c hc) (fl.nonneg hvalue)
  · exact le_rfl

/-- An accepted request that is not a negative transfer keeps the ledger solvent. -/
theorem Solvent.commit {l : Ledger} (h : Solvent fl l) {sourceIp destIp : IpString} {value seqn : ℤ}
    (haccept : l.verdict fl sourceIp destIp value seqn = .success)
    (hsign : value < 0 → sourceIp = destIp) : Solvent fl (l.commit fl sourceIp destIp value seqn) where
  nodup := by
    rw [Ledger.commit_addresses]
    exact h.nodup
  nonneg := by
    intro c hc
    rw [Ledger.commit_clients _ h.nodup] at hc
    obtain ⟨old, hold, rfl⟩ := List.mem_map.mp hc
    by_cases hsource : old.address = sourceIp
    · have hfunds := h.value_le haccept hold hsource
      simp only [moveRecord, hsource, if_true]
      split
      · exact fl.sub_add_nonneg (h.nonneg old hold) hfunds
      · exact fl.sub_nonneg hfunds
    · exact (h.nonneg old hold).trans (h.le_moveRecord hsign hold hsource)
  representable := by
    intro c hc
    rw [Ledger.commit_clients _ h.nodup] at hc
    obtain ⟨old, hold, rfl⟩ := List.mem_map.mp hc
    simp only [moveRecord]
    split_ifs
    · exact fl.idem _
    · exact fl.idem _
    · exact fl.idem _
    · exact h.representable old hold

/-- The condition on a request, read on the addresses the ledger compares. -/
theorem NoNegativeTransfer.sign {s : Server} {clientAddr : SockAddr} {req : ReqData}
    (h : NoNegativeTransfer fl s (.request clientAddr req))
    (haccept : s.requestVerdict fl clientAddr req = .success) :
    req.value.toInt < 0 → inetNtop clientAddr.sinAddr = inetNtop req.destAddr := by
  intro hneg
  cases h hneg with
  | inl hself => rw [hself]
  | inr hreject => exact absurd haccept hreject

/-- One wire event that meets the condition keeps the ledger solvent. -/
theorem Solvent.wireStep {s t : Server} {e : WireEvent} (h : Solvent fl s.toLedger)
    (hguard : NoNegativeTransfer fl s e) (hstep : s.wireStep fl e = some t) : Solvent fl t.toLedger := by
  cases Server.wireStep_effect fl hstep with
  | registered ip hnew hledger =>
    rw [hledger]
    exact h.register hnew
  | accepted clientAddr req haccept hledger =>
    rw [hledger]
    exact h.commit haccept (hguard.sign haccept)
  | known ip hold hledger | rejected clientAddr req hreject hledger =>
    rw [hledger]
    exact h

/-- A request that meets the condition takes nothing from other clients. -/
theorem Solvent.noTheft {s : Server} (h : Solvent fl s.toLedger) {clientAddr : SockAddr} {req : ReqData}
    (hguard : NoNegativeTransfer fl s (.request clientAddr req)) : NoTheft fl s clientAddr req := by
  intro c hc hother c' hc' haddress
  have hclients := congrArg Ledger.clients (s.handleTransactionRequest_toLedger fl clientAddr req)
  rw [hclients] at hc'
  split at hc'
  · rw [Ledger.commit_clients _ h.nodup] at hc'
    obtain ⟨old, hold, rfl⟩ := List.mem_map.mp hc'
    have hsame : old = c := List.inj_on_of_nodup_map h.nodup hold hc haddress
    exact hsame ▸ h.le_moveRecord (hguard.sign ‹_›) hold (haddress ▸ hother)
  · exact (List.inj_on_of_nodup_map h.nodup hc' hc haddress ▸ le_rfl : c.balance ≤ c'.balance)

/-- With exact balances, a request that breaks the condition takes money from its
destination. -/
theorem Solvent.theft {s : Server} (h : Solvent exactBalances s.toLedger) {clientAddr : SockAddr}
    {req : ReqData} (hguard : ¬ NoNegativeTransfer exactBalances s (.request clientAddr req)) :
    ¬ NoTheft exactBalances s clientAddr req := by
  simp only [NoNegativeTransfer, not_forall, not_or, not_not] at hguard
  obtain ⟨hneg, hdiff, haccept⟩ := hguard
  obtain ⟨-, dest, -, hdest, -⟩ := (Ledger.verdict_eq_success _).mp haccept
  obtain ⟨hmem, haddress⟩ := Ledger.account_some hdest
  have hother : dest.address ≠ inetNtop clientAddr.sinAddr := fun heq =>
    hdiff (inetNtop_injective (heq.symm.trans haddress))
  intro hnoTheft
  let moved := moveRecord exactBalances (inetNtop clientAddr.sinAddr) (inetNtop req.destAddr)
    req.value.toInt req.seqn.toInt dest
  have hmoved : moved ∈ (s.handleTransactionRequest exactBalances req clientAddr).1.clients := by
    have hclients := congrArg Ledger.clients
      (s.handleTransactionRequest_toLedger exactBalances clientAddr req)
    rw [hclients, if_pos haccept, Ledger.commit_clients _ h.nodup]
    exact List.mem_map_of_mem hmem
  have hle := hnoTheft dest hmem hother moved hmoved rfl
  rw [moveRecord_balance, if_pos haddress.symm, if_neg hother.symm] at hle
  linarith

/-- In every run of a fresh primary without negative transfers no balance is negative, and
no request lowers another client's balance; with exact balances a request lowers one as
soon as it is such a transfer. -/
theorem no_overdraft_no_theft_without_negative_transfers (serverId : Word) (port : UInt16) (s : Server)
    (h : Reachable (Server.wireStep fl) (NoNegativeTransfer fl) (· = freshPrimary serverId port) s) :
    NoOverdraft s ∧
      ∀ clientAddr req, (NoNegativeTransfer fl s (.request clientAddr req) → NoTheft fl s clientAddr req) ∧
        (fl = exactBalances → NoTheft fl s clientAddr req →
          NoNegativeTransfer fl s (.request clientAddr req)) := by
  have hsolvent : Solvent fl s.toLedger :=
    h.invariant (I := fun s => Solvent fl s.toLedger) (fun _ hs => hs ▸ solvent_empty)
      (fun _ _ _ hs hguard hstep => hs.wireStep hguard hstep)
  refine ⟨hsolvent.nonneg, fun clientAddr req => ⟨fun hguard => hsolvent.noTheft hguard, ?_⟩⟩
  rintro rfl hnoTheft
  by_contra hguard
  exact hsolvent.theft hguard hnoTheft

/-- The registrations of two clients. -/
def registrations : List WireEvent :=
  [.addClient (inetNtop (testHost 21).sinAddr), .addClient (inetNtop (testHost 22).sinAddr)]

/-- A request of client 21 to client 22 with the given value and sequence number 1. -/
def firstRequest (value : ℤ) : ReqData := ⟨(testHost 22).sinAddr, BitVec.ofInt 32 value, 1⟩

/-- After two registrations and a transfer of 100, no balance is negative and a second
transfer takes nothing from other clients. -/
theorem no_overdraft_no_theft_after_positive_transfer :
    ∃ s, s.transactionHistory.length = 1 ∧ NoOverdraft s ∧
      NoTheft singlePrecision s (testHost 21) (firstRequest 100) := by
  obtain ⟨s, hreach, hlog⟩ := exists_reachable_of_replay (Server.wireStep singlePrecision)
    (NoNegativeTransfer singlePrecision) (· = freshPrimary 1 4000)
    (registrations ++ [.request (testHost 21) (firstRequest 100)])
    (fun s => s.transactionHistory.length = 1) rfl (by decide +kernel)
  have hsafe := no_overdraft_no_theft_without_negative_transfers 1 4000 s hreach
  have hpositive : NoNegativeTransfer singlePrecision s (.request (testHost 21) (firstRequest 100)) :=
    fun hneg => absurd hneg (by decide)
  exact ⟨s, of_decide_eq_true hlog, hsafe.1, (hsafe.2 _ _).1 hpositive⟩

/-- A transfer of -5000 is accepted, takes 5000 from its destination, and leaves the
destination with a negative balance. -/
theorem negative_transfer_overdraws_destination :
    ∃ s t, Reachable (Server.wireStep singlePrecision) Always (· = freshPrimary 1 4000) s ∧
      s.wireStep singlePrecision (.request (testHost 21) (firstRequest (-5000))) = some t ∧
      ¬ NoTheft singlePrecision s (testHost 21) (firstRequest (-5000)) ∧ ¬ NoOverdraft t := by
  obtain ⟨s, hs, htest⟩ := exists_reachable_of_replay (Server.wireStep singlePrecision) Always
    (· = freshPrimary 1 4000) registrations
    (fun s => !decide (NoTheft singlePrecision s (testHost 21) (firstRequest (-5000))) &&
      !decide (NoOverdraft (s.handleTransactionRequest singlePrecision (firstRequest (-5000)) (testHost 21)).1))
    rfl (by decide +kernel)
  simp only [Bool.and_eq_true, Bool.not_eq_true', decide_eq_false_iff_not] at htest
  exact ⟨s, _, hs, rfl, htest⟩

end BankReplica
