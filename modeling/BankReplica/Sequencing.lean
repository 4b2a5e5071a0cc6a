import BankReplica.Calls

/-!
# The log of a primary numbers each client's transactions

On a ledger that only registrations and accepted requests have touched, the log entries
of a client carry 1, 2, ... up to its last request, and the ids count the log. A request
is accepted only under the next number, so nothing is executed twice whatever arrives.
-/

namespace BankReplica

variable (fl : FloatRounding)

/-- The numbers 1, 2, ..., n. -/
def upTo (n : ℤ) : List ℤ := (List.range n.toNat).map fun i : ℕ => (i : ℤ) + 1

/-- The next number comes last. -/
theorem upTo_succ {n : ℤ} (h : 0 ≤ n) : upTo (n + 1) = upTo n ++ [n + 1] := by
  have htoNat : (n + 1).toNat = n.toNat + 1 := by omega
  have hlast : ((n.toNat : ℕ) : ℤ) = n := Int.toNat_of_nonneg h
  rw [upTo, htoNat, List.range_succ, List.map_append, List.map_singleton, hlast]
  rfl

/-- A number is listed exactly when it lies between 1 and n. -/
theorem mem_upTo {n k : ℤ} : k ∈ upTo n ↔ 1 ≤ k ∧ k ≤ n := by
  simp only [upTo, List.mem_map, List.mem_range]
  constructor
  · rintro ⟨i, hi, rfl⟩
    omega
  · rintro ⟨hlow, hhigh⟩
    exact ⟨(k - 1).toNat, by omega, by omega⟩

/-- The sequence numbers of a client's log entries, in log order. -/
def Ledger.seqnsOf (l : Ledger) (ip : IpString) : List ℤ :=
  (l.transactionHistory.filter fun tx => tx.sourceIp = ip).map Transaction.clientSeqn

/-- Every client's entries are numbered up to its last request, and the ids count the log. -/
structure Sequenced (l : Ledger) : Prop where
  nodup : l.addresses.Nodup
  sources : ∀ tx ∈ l.transactionHistory, tx.sourceIp ∈ l.addresses
  nonneg : ∀ c ∈ l.clients, 0 ≤ c.lastReq
  numbered : ∀ c ∈ l.clients, l.seqnsOf c.address = upTo c.lastReq
  counted : l.numTransactions = l.transactionHistory.length
  ids : l.transactionHistory.map Transaction.id = upTo l.numTransactions

/-- An empty ledger is sequenced. -/
theorem sequenced_empty : Sequenced {} where
  nodup := List.nodup_nil
  sources := by simp
  nonneg := by simp
  numbered := by simp
  counted := rfl
  ids := rfl

variable {fl}

/-- A new client has no log entries and starts at 0. -/
theorem Sequenced.register {l : Ledger} (h : Sequenced l) {ip : IpString} (hip : ip ∉ l.addresses) :
    Sequenced (l.register fl ip) where
  nodup := Ledger.nodup_register _ h.nodup hip
  sources := by
    intro tx htx
    rw [Ledger.register_addresses]
    exact List.mem_append_left _ (h.sources tx htx)
  nonneg := by
    intro c hc
    cases List.mem_append.mp hc with
    | inl hold => exact h.nonneg c hold
    | inr hnew => exact (List.mem_singleton.mp hnew) ▸ le_rfl
  numbered := by
    intro c hc
    cases List.mem_append.mp hc with
    | inl hold => exact h.numbered c hold
    | inr hnew =>
      rw [List.mem_singleton.mp hnew]
      have hnone : l.transactionHistory.filter (fun tx => tx.sourceIp = ip) = [] := by
        rw [List.filter_eq_nil_iff]
        intro tx htx
        simpa using fun heq : tx.sourceIp = ip => hip (heq ▸ h.sources tx htx)
      change (l.transactionHistory.filter fun tx => tx.sourceIp = ip).map Transaction.clientSeqn = _
      rw [hnone]
      rfl
  counted := h.counted
  ids := h.ids

/-- An accepted request adds the next number to its source's entries and to no other's. -/
theorem seqnsOf_commit (l : Ledger) (sourceIp destIp : IpString) (value seqn : ℤ) (ip : IpString) :
    (l.commit fl sourceIp destIp value seqn).seqnsOf ip =
      l.seqnsOf ip ++ if sourceIp = ip then [seqn] else [] := by
  rw [Ledger.seqnsOf, Ledger.commit_transactionHistory, List.filter_append, List.map_append]
  congr 1
  by_cases hip : sourceIp = ip <;> simp [Ledger.loggedTransaction, hip]

/-- An accepted request carries its source's next number. -/
theorem Sequenced.seqn_eq {l : Ledger} (h : Sequenced l) {sourceIp destIp : IpString} {value seqn : ℤ}
    (haccept : l.verdict fl sourceIp destIp value seqn = .success) {c : ClientDTO}
    (hc : c ∈ l.clients) (hsource : c.address = sourceIp) : seqn = c.lastReq + 1 := by
  obtain ⟨source, -, haccount, -, hseqn, -⟩ := (Ledger.verdict_eq_success fl).mp haccept
  have hfound := Ledger.account_of_mem h.nodup hc
  rw [hsource, haccount, Option.some.injEq] at hfound
  rw [← hfound, hseqn]

/-- An accepted request keeps the numbering. -/
theorem Sequenced.commit {l : Ledger} (h : Sequenced l) {sourceIp destIp : IpString} {value seqn : ℤ}
    (haccept : l.verdict fl sourceIp destIp value seqn = .success) :
    Sequenced (l.commit fl sourceIp destIp value seqn) where
  nodup := by
    rw [Ledger.commit_addresses]
    exact h.nodup
  sources := by
    obtain ⟨source, -, hsource, -⟩ := (Ledger.verdict_eq_success _).mp haccept
    have hregistered : sourceIp ∈ l.addresses := Ledger.account_isSome.mp (by rw [hsource]; rfl)
    intro tx htx
    rw [Ledger.commit_transactionHistory] at htx
    rw [Ledger.commit_addresses]
    cases List.mem_append.mp htx with
    | inl hold => exact h.sources tx hold
    | inr hnew => exact (List.mem_singleton.mp hnew) ▸ hregistered
  nonneg := by
    intro c hc
    rw [Ledger.commit_clients _ h.nodup] at hc
    obtain ⟨old, hold, rfl⟩ := List.mem_map.mp hc
    have hlast := h.nonneg old hold
    by_cases hsource : old.address = sourceIp
    · have hseqn := h.seqn_eq haccept hold hsource
      simp only [moveRecord, hsource, if_true]
      omega
    · simpa only [moveRecord, hsource, if_false] using hlast
  numbered := by
    intro c hc
    rw [Ledger.commit_clients _ h.nodup] at hc
    obtain ⟨old, hold, rfl⟩ := List.mem_map.mp hc
    rw [seqnsOf_commit, moveRecord_address, h.numbered old hold]
    by_cases hsource : old.address = sourceIp
    · have hseqn := h.seqn_eq haccept hold hsource
      simp only [moveRecord, hsource, if_true]
      rw [hseqn, upTo_succ (h.nonneg old hold)]
    · simp only [moveRecord, hsource, Ne.symm hsource, if_false, List.append_nil]
  counted := by
    rw [Ledger.commit_numTransactions, Ledger.commit_transactionHistory, h.counted]
    simp
  ids := by
    have hcount : 0 ≤ l.numTransactions := by
      rw [h.counted]
      exact Int.natCast_nonneg _
    rw [Ledger.commit_transactionHistory, Ledger.commit_numTransactions, List.map_append, h.ids,
      upTo_succ hcount]
    rfl

/-- Every call keeps the numbering. -/
theorem Sequenced.apply {l : Ledger} (h : Sequenced l) (c : Call) : Sequenced (l.apply fl c) := by
  cases c with
  | addClient ip =>
    simp only [Ledger.apply]
    split
    · exact h
    · exact h.register ‹_›
  | processTransaction sourceIp destAddr value seqn =>
    simp only [Ledger.apply]
    split
    · exact h.commit ‹_›
    · exact h

/-- A number between 1 and the last request of a client is the number of one of its entries. -/
theorem Sequenced.exists_entry {l : Ledger} (h : Sequenced l) {c : ClientDTO} (hc : c ∈ l.clients)
    {k : ℤ} (hlow : 1 ≤ k) (hhigh : k ≤ c.lastReq) :
    ∃ tx ∈ l.transactionHistory, tx.sourceIp = c.address ∧ tx.clientSeqn = k := by
  have hk : k ∈ l.seqnsOf c.address := by
    rw [h.numbered c hc]
    exact mem_upTo.mpr ⟨hlow, hhigh⟩
  obtain ⟨tx, htx, hseqn⟩ := List.mem_map.mp hk
  obtain ⟨hmem, hsource⟩ := List.mem_filter.mp htx
  exact ⟨tx, hmem, of_decide_eq_true hsource, hseqn⟩

end BankReplica
