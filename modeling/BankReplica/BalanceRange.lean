import BankReplica.Conservation
import BankReplica.Overdraft
import Mathlib.Algebra.Order.BigOperators.Group.List

/-!
# Balances stay within single precision

Without negative values no balance exceeds what was issued to all clients together: the
balances sum to that amount and none is negative. As long as the amount is at most
`2 ^ 24`, every number the server computes with is a `float`, so rounding changes no
balance, no comparison and no verdict.
-/

namespace BankReplica

open Runs

/-- A request carries no negative value. -/
def NonnegativeValue (_ : Server) : WireEvent → Prop
  | .addClient _ => True
  | .request _ req => 0 ≤ req.value.toInt

instance (s : Server) : DecidablePred (NonnegativeValue s)
  | .addClient _ => .isTrue trivial
  | .request _ req => inferInstanceAs (Decidable (0 ≤ req.value.toInt))

/-- The clients after the first write of `Server::executeTransaction`. -/
def Ledger.debitedClients (fl : FloatRounding) (l : Ledger) (sourceIt : ℕ) (value : ℤ) : List ClientDTO :=
  l.clients.modify sourceIt fun c => c.setBalance (fl (c.balance - fl value))

/-- The books balance and no balance is negative. -/
structure Covered (l : Ledger) : Prop where
  conserved : Conserved l
  solvent : Solvent exactBalances l

/-- A fresh ledger is covered. -/
theorem covered_empty : Covered {} := ⟨conserved_empty, solvent_empty⟩

/-- An accepted request with a value that is not negative keeps the ledger covered. -/
theorem Covered.commit {l : Ledger} (h : Covered l) {sourceIp destIp : IpString} {value seqn : ℤ}
    (hvalue : 0 ≤ value) (haccept : l.verdict exactBalances sourceIp destIp value seqn = .success) :
    Covered (l.commit exactBalances sourceIp destIp value seqn) where
  conserved := h.conserved.commit haccept
  solvent := h.solvent.commit haccept fun hneg => absurd hvalue (not_le.mpr hneg)

/-- A wire event without a negative value keeps the ledger covered. -/
theorem Covered.wireStep {s t : Server} {e : WireEvent} (h : Covered s.toLedger)
    (hvalue : NonnegativeValue s e) (hstep : s.wireStep exactBalances e = some t) : Covered t.toLedger := by
  cases Server.wireStep_effect _ hstep with
  | registered ip hnew hledger =>
    rw [hledger]
    exact ⟨h.conserved.register hnew, h.solvent.register hnew⟩
  | accepted clientAddr req haccept hledger =>
    rw [hledger]
    exact h.commit hvalue haccept
  | known ip hold hledger | rejected clientAddr req hreject hledger =>
    rw [hledger]
    exact h

/-- Every run of a fresh primary without negative values is covered. -/
theorem covered_run {serverId : Word} {port : UInt16} {s : Server}
    (h : Reachable (Server.wireStep exactBalances) NonnegativeValue (· = freshPrimary serverId port) s) :
    Covered s.toLedger :=
  h.invariant (I := fun s => Covered s.toLedger) (fun _ hs => hs ▸ covered_empty)
    (fun _ _ _ hs hvalue hstep => hs.wireStep hvalue hstep)

/-- No client holds more than was issued to all of them. -/
theorem Covered.balance_le {l : Ledger} (h : Covered l) {c : ClientDTO} (hc : c ∈ l.clients) :
    c.balance ≤ initialBalance * l.clients.length := by
  rw [← h.conserved.sum_balances]
  apply List.single_le_sum
  · intro balance hbalance
    obtain ⟨other, hother, rfl⟩ := List.mem_map.mp hbalance
    exact h.solvent.nonneg other hother
  · exact List.mem_map_of_mem hc

/-- What an accepted request leaves its source lies between nothing and all that was issued. -/
theorem Covered.debit_range {l : Ledger} (h : Covered l) {sourceIp destIp : IpString} {value seqn : ℤ}
    (hvalue : 0 ≤ value) (haccept : l.verdict exactBalances sourceIp destIp value seqn = .success)
    {source : ClientDTO} (hsource : l.account sourceIp = some source) :
    source.balance - value ∈ Set.Icc 0 (initialBalance * l.clients.length) := by
  obtain ⟨hmem, haddress⟩ := Ledger.account_some hsource
  have hfunds : value ≤ source.balance := h.solvent.value_le haccept hmem haddress
  have hissued := h.balance_le hmem
  exact ⟨by omega, by omega⟩

/-- What an accepted request leaves its destination lies in the same range: it is a balance
of the ledger the request leaves, a self-transfer's own debit included. -/
theorem Covered.credit_range {l : Ledger} (h : Covered l) {sourceIp destIp : IpString} {value seqn : ℤ}
    (hvalue : 0 ≤ value) (haccept : l.verdict exactBalances sourceIp destIp value seqn = .success)
    {dest : ClientDTO}
    (hdest : (l.debitedClients exactBalances (l.findClient sourceIp) value)[l.findClient destIp]? = some dest) :
    dest.balance + value ∈ Set.Icc 0 (initialBalance * l.clients.length) := by
  have hafter := h.commit hvalue haccept
  have hcredited : ∃ c ∈ (l.commit exactBalances sourceIp destIp value seqn).clients,
      c.balance = dest.balance + value := by
    have hread : (l.commit exactBalances sourceIp destIp value seqn).clients[l.findClient destIp]? =
        some (if l.findClient sourceIp = l.findClient destIp then
            (dest.setBalance (dest.balance + value)).setLastRequest seqn
          else dest.setBalance (dest.balance + value)) := by
      simp only [Ledger.debitedClients] at hdest
      simp only [Ledger.commit, Ledger.executeTransaction, Ledger.updateAndLogTransaction, List.getElem?_modify,
        hdest, if_true, Option.map_eq_map, Option.map_some]
      rfl
    refine ⟨_, List.mem_of_getElem? hread, ?_⟩
    split <;> rfl
  obtain ⟨c, hc, hbalance⟩ := hcredited
  rw [← hbalance, ← l.commit_length exactBalances sourceIp destIp value seqn]
  exact ⟨hafter.solvent.nonneg c hc, hafter.balance_le hc⟩

/-! ## One step under two roundings -/

variable {fl : FloatRounding}

/-- Amounts that are issued to few enough clients are exact. -/
theorem map_of_mem_range {l : Ledger} (hexact : initialBalance * l.clients.length ≤ 2 ^ 24) {x : ℤ}
    (hx : x ∈ Set.Icc 0 (initialBalance * (l.clients.length : ℤ))) : fl x = x := by
  apply fl.exact_of_abs_le
  rw [abs_of_nonneg hx.1]
  exact hx.2.trans hexact

variable (fl) in
/-- The comparison with a balance comes out the same however the value is rounded. -/
theorem Covered.compare {l : Ledger} (h : Covered l) (hexact : initialBalance * l.clients.length < 2 ^ 24)
    {source : ClientDTO} (hsource : source ∈ l.clients) (value : ℤ) :
    source.balance < fl value ↔ source.balance < value := by
  apply fl.lt_map_iff
  rw [abs_of_nonneg (h.solvent.nonneg source hsource)]
  exact (h.balance_le hsource).trans_lt hexact

variable (fl) in
/-- The verdict on a request does not depend on the rounding. -/
theorem Covered.validate {l : Ledger} (h : Covered l) (hexact : initialBalance * l.clients.length < 2 ^ 24)
    (sourceIt destIt : ℕ) (value seqn : ℤ) :
    l.validateTransaction fl sourceIt destIt value seqn =
      l.validateTransaction exactBalances sourceIt destIt value seqn := by
  unfold Ledger.validateTransaction
  cases hsource : l.clients[sourceIt]? with
  | none => rfl
  | some source =>
    cases l.clients[destIt]? with
    | none => rfl
    | some dest =>
      have hcompare := h.compare fl hexact (List.mem_of_getElem? hsource) value
      have hexactly := h.compare exactBalances hexact (List.mem_of_getElem? hsource) value
      simp only [hcompare, hexactly]

/-- An accepted request is executed without rounding anything. -/
theorem Covered.execute {l : Ledger} (h : Covered l) (hexact : initialBalance * l.clients.length ≤ 2 ^ 24)
    {sourceIp destIp : IpString} {value seqn : ℤ} (hvalue : 0 ≤ value)
    (haccept : l.verdict exactBalances sourceIp destIp value seqn = .success) :
    l.executeTransaction fl (l.findClient sourceIp) (l.findClient destIp) value seqn =
      l.executeTransaction exactBalances (l.findClient sourceIp) (l.findClient destIp) value seqn := by
  obtain ⟨source, -, hsource, -, -, hfunds⟩ := (Ledger.verdict_eq_success _).mp haccept
  have hamount : fl value = value := by
    apply map_of_mem_range hexact
    exact ⟨hvalue, le_trans hfunds (h.balance_le (Ledger.account_some hsource).1)⟩
  have hdebit : l.debitedClients fl (l.findClient sourceIp) value =
      l.debitedClients exactBalances (l.findClient sourceIp) value := by
    apply KeyedList.modify_congr
    intro c hc
    rw [l.getElem?_findClient] at hc
    rw [hamount, map_of_mem_range hexact (h.debit_range hvalue haccept hc)]
    rfl
  have hcredit : (l.debitedClients exactBalances (l.findClient sourceIp) value).modify (l.findClient destIp)
        (fun c => c.setBalance (fl (c.balance + fl value))) =
      (l.debitedClients exactBalances (l.findClient sourceIp) value).modify (l.findClient destIp)
        (fun c => c.setBalance (exactBalances (c.balance + exactBalances value))) := by
    apply KeyedList.modify_congr
    intro c hc
    rw [hamount, map_of_mem_range hexact (h.credit_range hvalue haccept hc)]
    rfl
  simp only [Ledger.debitedClients] at hdebit hcredit
  simp only [Ledger.executeTransaction, hdebit, hcredit]

/-- A registration that leaves few enough clients rounds nothing. -/
theorem Covered.register_eq {l : Ledger} (h : Covered l) (hexact : initialBalance * (l.clients.length + 1) < 2 ^ 24)
    (ip : IpString) : l.register fl ip = l.register exactBalances ip := by
  have hissued := h.conserved.issued
  rw [initialBalance] at hissued hexact
  have htotal : fl l.totalBalance = l.totalBalance := by
    apply fl.exact_of_abs_le
    rw [abs_of_nonneg (by omega)]
    omega
  have hsum : fl (l.totalBalance + initialBalance) = l.totalBalance + initialBalance := by
    apply fl.exact_of_abs_le
    rw [initialBalance, abs_of_nonneg (by omega)]
    omega
  simp only [Ledger.register, htotal, hsum, exactBalances, RoundBits.Rounding.exact_apply]

variable (fl) in
/-- A request with a value that is not negative is handled without rounding anything. -/
theorem Covered.handleTransactionLogic_eq {s : Server} (h : Covered s.toLedger)
    (hexact : initialBalance * s.clients.length < 2 ^ 24) (sourceIp destIp : IpString) {value : ℤ} (hvalue : 0 ≤ value)
    (seqn : ℤ) : s.handleTransactionLogic fl sourceIp destIp value seqn =
      s.handleTransactionLogic exactBalances sourceIp destIp value seqn := by
  simp only [Server.handleTransactionLogic, h.validate fl hexact]
  split
  · rw [h.execute hexact.le hvalue ‹_›]
  · rfl

/-- A request neither adds nor drops a client. -/
theorem Server.length_request {s t : Server} {clientAddr : SockAddr} {req : ReqData}
    (hstep : s.wireStep fl (.request clientAddr req) = some t) : t.clients.length = s.clients.length := by
  cases Server.wireStep_effect fl hstep with
  | accepted _ _ haccept hledger =>
    rw [hledger]
    exact Ledger.commit_length ..
  | rejected _ _ hreject hledger => rw [hledger]

/-- A step that leaves few enough clients, on a covered ledger, is the exact step. -/
theorem Covered.wireStep_eq {s t : Server} {e : WireEvent} (h : Covered s.toLedger)
    (hvalue : NonnegativeValue s e) (hstep : s.wireStep exactBalances e = some t)
    (hexact : initialBalance * t.clients.length < 2 ^ 24) : s.wireStep fl e = some t := by
  rw [← hstep]
  cases e with
  | addClient ip =>
    by_cases hip : ip ∈ s.addresses
    · simp only [Server.wireStep, s.addClient_of_mem _ hip]
    · have hlength : t.clients.length = s.clients.length + 1 := by
        rw [← Option.some.inj hstep, s.addClient_of_not_mem _ hip]
        exact List.length_append
      rw [hlength, Nat.cast_succ] at hexact
      simp only [Server.wireStep, s.addClient_of_not_mem _ hip, h.register_eq hexact ip]
  | request clientAddr req =>
    rw [Server.length_request hstep] at hexact
    simp only [Server.wireStep, Server.handleTransactionRequest, Server.processTransaction,
      h.handleTransactionLogic_eq fl hexact _ _ hvalue]

/-- A step does not lose clients. -/
theorem Server.length_le {s t : Server} {e : WireEvent} (hstep : s.wireStep fl e = some t) :
    s.clients.length ≤ t.clients.length := by
  cases Server.wireStep_effect fl hstep with
  | registered ip hnew hledger =>
    rw [hledger]
    simp [Ledger.register]
  | known ip hold hledger => rw [hledger]
  | accepted clientAddr req | rejected clientAddr req => exact (Server.length_request hstep).ge

/-- A run that registers few enough clients goes the same way under every rounding. -/
theorem reachable_of_exact {serverId : Word} {port : UInt16} {s : Server}
    (h : Reachable (Server.wireStep exactBalances) NonnegativeValue (· = freshPrimary serverId port) s)
    (hexact : initialBalance * s.clients.length < 2 ^ 24) :
    Reachable (Server.wireStep fl) NonnegativeValue (· = freshPrimary serverId port) s := by
  induction h with
  | init hs => exact .init hs
  | step hbefore hvalue hstep ih =>
    have hcovered := covered_run hbefore
    have hgrows := Server.length_le hstep
    simp only [initialBalance] at ih hexact
    exact .step (ih (by omega)) hvalue (hcovered.wireStep_eq hvalue hstep hexact)

/-- In every run of a fresh primary with at most 16777 clients and without negative values,
every balance, and both results of every accepted request, lie between 0 and what was
issued, which single precision represents; no comparison depends on how the value is
rounded; and the run is the same in single precision. -/
theorem balances_exact_in_single_precision (serverId : Word) (port : UInt16) (n : ℕ) (hn : n ≤ 16777)
    (s : Server) (hclients : s.clients.length ≤ n)
    (h : Reachable (Server.wireStep exactBalances) NonnegativeValue (· = freshPrimary serverId port) s) :
    (∀ c ∈ s.clients, c.balance ∈ Set.Icc 0 (1000 * (n : ℤ))) ∧
    (∀ clientAddr req, 0 ≤ req.value.toInt → s.requestVerdict exactBalances clientAddr req = .success →
      (∀ source, s.clients[s.findClient (inetNtop clientAddr.sinAddr)]? = some source →
        source.balance - req.value.toInt ∈ Set.Icc 0 (1000 * (n : ℤ))) ∧
      (∀ dest, (s.debitedClients exactBalances (s.findClient (inetNtop clientAddr.sinAddr))
          req.value.toInt)[s.findClient (inetNtop req.destAddr)]? = some dest →
        dest.balance + req.value.toInt ∈ Set.Icc 0 (1000 * (n : ℤ)))) ∧
    1000 * (n : ℤ) ≤ 2 ^ 24 ∧
    (∀ c ∈ s.clients, ∀ value : Word, 0 ≤ value.toInt →
      (c.balance < singlePrecision value.toInt ↔ c.balance < value.toInt)) ∧
    Reachable (Server.wireStep singlePrecision) NonnegativeValue (· = freshPrimary serverId port) s := by
  have hcovered := covered_run h
  have hexact : initialBalance * s.clients.length < 2 ^ 24 := by
    rw [initialBalance]
    omega
  have hrange : ∀ x ∈ Set.Icc 0 (initialBalance * (s.clients.length : ℤ)), x ∈ Set.Icc 0 (1000 * (n : ℤ)) := by
    intro x hx
    simp only [Set.mem_Icc, initialBalance] at hx ⊢
    omega
  refine ⟨fun c hc => hrange _ ⟨hcovered.solvent.nonneg c hc, hcovered.balance_le hc⟩,
    fun clientAddr req hvalue haccept => ⟨fun source hsource => ?_, fun dest hdest => ?_⟩, by omega,
    fun c hc value _ => hcovered.compare singlePrecision hexact hc value.toInt, reachable_of_exact h hexact⟩
  · rw [Ledger.getElem?_findClient] at hsource
    exact hrange _ (hcovered.debit_range hvalue haccept hsource)
  · exact hrange _ (hcovered.credit_range hvalue haccept hdest)

/-- Two clients, a transfer of everything and a self-transfer of everything received. -/
theorem balances_exact_after_transfers :
    ∃ s, s.transactionHistory.length = 2 ∧
      (∀ c ∈ s.clients, c.balance ∈ Set.Icc 0 (1000 * ((2 : ℕ) : ℤ))) ∧
      Reachable (Server.wireStep singlePrecision) NonnegativeValue (· = freshPrimary 1 4000) s := by
  obtain ⟨s, hreach, htest⟩ := exists_reachable_of_replay (Server.wireStep exactBalances) NonnegativeValue
    (· = freshPrimary 1 4000)
    (registrations ++ [.request (testHost 21) (firstRequest 1000),
      .request (testHost 22) ⟨(testHost 22).sinAddr, 2000, 1⟩])
    (fun s => s.transactionHistory.length = 2 ∧ s.clients.length = 2) rfl (by decide +kernel)
  obtain ⟨hlog, hclients⟩ := of_decide_eq_true htest
  have hexact := balances_exact_in_single_precision 1 4000 2 (by decide) s hclients.le hreach
  exact ⟨s, hlog, hexact.1, hexact.2.2.2.2⟩

end BankReplica
