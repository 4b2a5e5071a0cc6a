import BankReplica.Transactions
import Mathlib.Tactic.Ring

/-!
# The account map behind the client vector

What each ledger operation does, stated on the map from addresses to client records
rather than on positions in a vector. An accepted transaction rewrites every record by
one function of the record; on a self-transfer the debit and the credit meet in the
same record in the order of the source's writes.
-/

namespace BankReplica

open KeyedList

variable (fl : FloatRounding)

/-- The record registered under an address. -/
def Ledger.account (l : Ledger) (ip : IpString) : Option ClientDTO :=
  lookup ClientDTO.address l.clients ip

/-- Reading through the iterator `findClient` returns is the account map. -/
@[simp] theorem Ledger.getElem?_findClient (l : Ledger) (ip : IpString) :
    l.clients[l.findClient ip]? = l.account ip :=
  getElem?_position _ _ _

/-- `findClient` returns `clients.end()` exactly for unregistered addresses. -/
theorem Ledger.findClient_eq_length {l : Ledger} {ip : IpString} :
    l.findClient ip = l.clients.length ↔ ip ∉ l.addresses :=
  position_eq_length _

/-- An account exists exactly for registered addresses. -/
theorem Ledger.account_isSome {l : Ledger} {ip : IpString} :
    (l.account ip).isSome ↔ ip ∈ l.addresses :=
  lookup_isSome _

/-- The account found under an address carries it. -/
theorem Ledger.account_some {l : Ledger} {ip : IpString} {c : ClientDTO}
    (h : l.account ip = some c) : c ∈ l.clients ∧ c.address = ip :=
  lookup_some _ h

/-- With distinct addresses, every client is the account of its address. -/
theorem Ledger.account_of_mem {l : Ledger} (hnodup : l.addresses.Nodup) {c : ClientDTO}
    (hc : c ∈ l.clients) : l.account c.address = some c :=
  lookup_of_mem _ hnodup hc

/-! ## Registration -/

/-- A client appended under an unknown address is a new point of the account map. -/
theorem lookup_append_client {clients : List ClientDTO} {c : ClientDTO}
    (hc : c.address ∉ clients.map ClientDTO.address) (ip : IpString) :
    lookup ClientDTO.address (clients ++ [c]) ip =
      if ip = c.address then some c else lookup ClientDTO.address clients ip := by
  rw [lookup_append_singleton]
  by_cases hip : ip = c.address
  · rw [hip, (lookup_eq_none _).mpr hc]
    simp
  · simp [hip, Ne.symm hip]

/-- The ledger after a new client is registered. -/
def Ledger.register (l : Ledger) (ip : IpString) : Ledger :=
  { l with
    clients := l.clients ++ [.new ip]
    totalBalance := fl (fl l.totalBalance + initialBalance) }

/-- Registration appends one address. -/
@[simp] theorem Ledger.register_addresses (l : Ledger) (ip : IpString) :
    (l.register fl ip).addresses = l.addresses ++ [ip] := by
  simp [Ledger.register, Ledger.addresses, ClientDTO.new]

/-- Registering an unknown address keeps the addresses distinct. -/
theorem Ledger.nodup_register {l : Ledger} (hnodup : l.addresses.Nodup) {ip : IpString} (hip : ip ∉ l.addresses) :
    (l.register fl ip).addresses.Nodup := by
  rw [Ledger.register_addresses]
  exact hnodup.append (List.nodup_singleton ip) (by simpa using hip)

/-- `addClient` ignores a known address. -/
theorem Server.addClient_of_mem {s : Server} {ip : IpString} (hip : ip ∈ s.addresses) :
    s.addClient fl ip = (s, []) := by
  have hfound : s.findClient ip ≠ s.clients.length := fun h => Ledger.findClient_eq_length.mp h hip
  simp [Server.addClient, Server.wasClientAdded, hfound]

/-- `addClient` registers an unknown address, and a primary tells its backups. -/
theorem Server.addClient_of_not_mem {s : Server} {ip : IpString} (hip : ip ∉ s.addresses) :
    s.addClient fl ip =
      (Server.notify { s with toLedger := s.toLedger.register fl ip },
        if s.currentRole = .primary then s.backupServers.map fun b => ⟨b, clientUpdatePacket (.new ip)⟩
        else []) := by
  have hend : s.findClient ip = s.clients.length := Ledger.findClient_eq_length.mpr hip
  simp [Server.addClient, Server.wasClientAdded, hend, Ledger.register, ClientDTO.new,
    Server.propagateClientAddition]

/-- `addClient` acts on the ledger as a registration, if at all. -/
theorem Server.addClient_toLedger (s : Server) (ip : IpString) :
    (s.addClient fl ip).1.toLedger =
      if ip ∈ s.addresses then s.toLedger else s.toLedger.register fl ip := by
  split
  · rw [s.addClient_of_mem fl ‹_›]
  · rw [s.addClient_of_not_mem fl ‹_›, Server.notify_toLedger]

/-- `addClient` sends one packet to each backup when it registers a client on a primary. -/
theorem Server.addClient_sends (s : Server) (ip : IpString) :
    (s.addClient fl ip).2 =
      if ip ∉ s.addresses ∧ s.currentRole = .primary then
        s.backupServers.map fun b => ⟨b, clientUpdatePacket (.new ip)⟩
      else [] := by
  by_cases hip : ip ∈ s.addresses
  · rw [s.addClient_of_mem fl hip, if_neg fun h => h.1 hip]
  · simp only [s.addClient_of_not_mem fl hip, hip, not_false_eq_true, true_and]

/-- `addClient` leaves the role and the list of backups alone. -/
@[simp] theorem Server.addClient_frame (s : Server) (ip : IpString) :
    (s.addClient fl ip).1.currentRole = s.currentRole ∧
      (s.addClient fl ip).1.backupServers = s.backupServers := by
  by_cases hip : ip ∈ s.addresses
  · rw [s.addClient_of_mem fl hip]
    exact ⟨rfl, rfl⟩
  · rw [s.addClient_of_not_mem fl hip, Server.notify_currentRole, Server.notify_backupServers]
    exact ⟨rfl, rfl⟩

/-- `addClient` keeps the id. -/
theorem Server.addClient_serverId (s : Server) (ip : IpString) :
    (s.addClient fl ip).1.serverId = s.serverId := by
  by_cases hip : ip ∈ s.addresses
  · rw [s.addClient_of_mem fl hip]
  · rw [s.addClient_of_not_mem fl hip, Server.notify_serverId]

/-! ## Validation -/

/-- The verdict of `validateTransaction` on the iterators of two addresses. -/
def Ledger.verdict (l : Ledger) (sourceIp destIp : IpString) (value seqn : ℤ) : TransactionStatus :=
  l.validateTransaction fl (l.findClient sourceIp) (l.findClient destIp) value seqn

/-- Between two registered parties the verdict depends on the source's record alone. -/
theorem Ledger.verdict_of_accounts {l : Ledger} {sourceIp destIp : IpString} {source dest : ClientDTO}
    (hsource : l.account sourceIp = some source) (hdest : l.account destIp = some dest) (value seqn : ℤ) :
    l.verdict fl sourceIp destIp value seqn =
      if seqn ≤ source.lastReq then .errorDuplicateRequest
      else if seqn > source.lastReq + 1 then .errorOutOfSequence
      else if source.balance < fl value then .errorInsufficientFunds
      else .success := by
  unfold Ledger.verdict Ledger.validateTransaction
  rw [l.getElem?_findClient, l.getElem?_findClient, hsource, hdest]

/-- A request is accepted exactly when both parties are registered, the sequence number is
the next one, and the comparison with the balance does not reject it. -/
theorem Ledger.verdict_eq_success {l : Ledger} {sourceIp destIp : IpString} {value seqn : ℤ} :
    l.verdict fl sourceIp destIp value seqn = .success ↔
      ∃ source dest, l.account sourceIp = some source ∧ l.account destIp = some dest ∧
        seqn = source.lastReq + 1 ∧ fl value ≤ source.balance := by
  unfold Ledger.verdict Ledger.validateTransaction
  rw [l.getElem?_findClient, l.getElem?_findClient]
  cases hs : l.account sourceIp with
  | none => simp
  | some source =>
    cases hd : l.account destIp with
    | none => simp
    | some dest =>
      simp only [Option.some.injEq, exists_and_left, exists_eq_left']
      split
      · simp only [reduceCtorEq, false_iff]
        omega
      · split
        · simp only [reduceCtorEq, false_iff]
          omega
        · split
          · simp only [reduceCtorEq, false_iff]
            omega
          · simp only [true_iff]
            omega

/-! ## Execution -/

/-- The history entry an accepted request appends. -/
def Ledger.loggedTransaction (l : Ledger) (sourceIp destIp : IpString) (value seqn : ℤ) : Transaction :=
  { id := l.numTransactions + 1
    sourceIp := sourceIp
    destIp := destIp
    value := value
    clientSeqn := seqn }

/-- The ledger after an accepted request. -/
def Ledger.commit (l : Ledger) (sourceIp destIp : IpString) (value seqn : ℤ) : Ledger :=
  (l.executeTransaction fl (l.findClient sourceIp) (l.findClient destIp) value seqn).updateAndLogTransaction
    sourceIp destIp value seqn

/-- What an accepted request does to one record: debit, then credit, then the sequence number. -/
def moveRecord (sourceIp destIp : IpString) (value seqn : ℤ) (c : ClientDTO) : ClientDTO :=
  let debited := if c.address = sourceIp then fl (c.balance - fl value) else c.balance
  { address := c.address
    lastReq := if c.address = sourceIp then seqn else c.lastReq
    balance := if c.address = destIp then fl (debited + fl value) else debited }

@[simp] theorem moveRecord_address (sourceIp destIp : IpString) (value seqn : ℤ) (c : ClientDTO) :
    (moveRecord fl sourceIp destIp value seqn c).address = c.address := rfl

/-- With exact balances a record changes by what the new log entry credits and debits. -/
theorem moveRecord_balance (sourceIp destIp : IpString) (value seqn : ℤ) (c : ClientDTO) :
    (moveRecord exactBalances sourceIp destIp value seqn c).balance =
      c.balance + (if destIp = c.address then value else 0) -
        (if sourceIp = c.address then value else 0) := by
  simp only [moveRecord, exactBalances, RoundBits.Rounding.exact_apply, eq_comm (a := destIp),
    eq_comm (a := sourceIp)]
  split_ifs <;> ring

/-- Execution rewrites every record by `moveRecord`, whether or not the iterators coincide. -/
theorem Ledger.commit_clients {l : Ledger} (hnodup : l.addresses.Nodup) (sourceIp destIp : IpString)
    (value seqn : ℤ) :
    (l.commit fl sourceIp destIp value seqn).clients =
      l.clients.map (moveRecord fl sourceIp destIp value seqn) := by
  have hwrites := modify_pair (f := fun c => c.setBalance (fl (c.balance - fl value)))
    (g := fun c => c.setBalance (fl (c.balance + fl value))) (h := fun c => c.setLastRequest seqn)
    (fun _ => rfl) (fun _ => rfl) hnodup sourceIp destIp
  refine Eq.trans hwrites ?_
  apply List.map_congr_left
  intro c _
  simp only [moveRecord, ClientDTO.setBalance, ClientDTO.setLastRequest]
  split_ifs <;> rfl

/-- Execution on the account map. -/
theorem Ledger.account_commit {l : Ledger} (hnodup : l.addresses.Nodup) (sourceIp destIp : IpString)
    (value seqn : ℤ) (ip : IpString) :
    (l.commit fl sourceIp destIp value seqn).account ip =
      (l.account ip).map (moveRecord fl sourceIp destIp value seqn) := by
  rw [Ledger.account, Ledger.commit_clients fl hnodup]
  exact lookup_map _ (moveRecord_address fl sourceIp destIp value seqn) _ _

/-- Execution keeps the list of addresses, distinct or not. -/
@[simp] theorem Ledger.commit_addresses (l : Ledger) (sourceIp destIp : IpString) (value seqn : ℤ) :
    (l.commit fl sourceIp destIp value seqn).addresses = l.addresses := by
  refine (map_key_modify ?_ _ _).trans ((map_key_modify ?_ _ _).trans (map_key_modify ?_ _ _)) <;>
    exact fun _ => rfl

/-- Execution neither adds nor drops a client. -/
@[simp] theorem Ledger.commit_length (l : Ledger) (sourceIp destIp : IpString) (value seqn : ℤ) :
    (l.commit fl sourceIp destIp value seqn).clients.length = l.clients.length := by
  have hkept := congrArg List.length (l.commit_addresses fl sourceIp destIp value seqn)
  simpa only [Ledger.addresses, List.length_map] using hkept

/-- Execution keeps every position. -/
@[simp] theorem Ledger.commit_findClient (l : Ledger) (sourceIp destIp : IpString) (value seqn : ℤ)
    (ip : IpString) : (l.commit fl sourceIp destIp value seqn).findClient ip = l.findClient ip :=
  position_congr (l.commit_addresses fl sourceIp destIp value seqn).symm ip

/-- Execution appends one history entry naming the two addresses as given. -/
@[simp] theorem Ledger.commit_transactionHistory (l : Ledger) (sourceIp destIp : IpString)
    (value seqn : ℤ) :
    (l.commit fl sourceIp destIp value seqn).transactionHistory =
      l.transactionHistory ++ [l.loggedTransaction sourceIp destIp value seqn] := by
  simp [Ledger.commit, Ledger.updateAndLogTransaction, Ledger.executeTransaction,
    Ledger.loggedTransaction]

@[simp] theorem Ledger.commit_numTransactions (l : Ledger) (sourceIp destIp : IpString)
    (value seqn : ℤ) :
    (l.commit fl sourceIp destIp value seqn).numTransactions = l.numTransactions + 1 := rfl

@[simp] theorem Ledger.commit_totalTransferred (l : Ledger) (sourceIp destIp : IpString)
    (value seqn : ℤ) :
    (l.commit fl sourceIp destIp value seqn).totalTransferred = l.totalTransferred + value := rfl

@[simp] theorem Ledger.commit_totalBalance (l : Ledger) (sourceIp destIp : IpString)
    (value seqn : ℤ) :
    (l.commit fl sourceIp destIp value seqn).totalBalance = l.totalBalance := rfl

/-! ## Requests -/

/-- An accepted request commits the ledger and marks the log slot. -/
theorem Server.handleTransactionLogic_accept {s : Server} {sourceIp destIp : IpString} {value seqn : ℤ}
    (h : s.verdict fl sourceIp destIp value seqn = .success) :
    s.handleTransactionLogic fl sourceIp destIp value seqn =
      ({ s with
          toLedger := s.toLedger.commit fl sourceIp destIp value seqn
          lastLogInfo := { s.lastLogInfo with type := .success } },
        .success,
        (s.toLedger.commit fl sourceIp destIp value seqn).balanceAt (s.findClient sourceIp)) := by
  unfold Ledger.verdict at h
  simp only [Server.handleTransactionLogic, h, if_true]
  rfl

/-- A rejected request leaves everything but the log slot as it was. -/
theorem Server.handleTransactionLogic_reject {s : Server} {sourceIp destIp : IpString} {value seqn : ℤ}
    (h : s.verdict fl sourceIp destIp value seqn ≠ .success) :
    ∃ log, s.handleTransactionLogic fl sourceIp destIp value seqn =
      ({ s with lastLogInfo := log }, s.verdict fl sourceIp destIp value seqn,
        s.balanceAt (s.findClient sourceIp)) := by
  unfold Ledger.verdict at h ⊢
  simp only [Server.handleTransactionLogic, h, if_false]
  split
  · exact ⟨_, rfl⟩
  · exact ⟨s.lastLogInfo, rfl⟩

/-- `handleTransactionLogic` executes exactly the requests its verdict accepts. -/
theorem Server.handleTransactionLogic_toLedger (s : Server) (sourceIp destIp : IpString)
    (value seqn : ℤ) :
    (s.handleTransactionLogic fl sourceIp destIp value seqn).1.toLedger =
      if s.verdict fl sourceIp destIp value seqn = .success then
        s.toLedger.commit fl sourceIp destIp value seqn
      else s.toLedger := by
  split
  · rename_i h
    rw [Server.handleTransactionLogic_accept fl h]
  · rename_i h
    obtain ⟨log, hlog⟩ := Server.handleTransactionLogic_reject fl h
    rw [hlog]

/-- `handleTransactionLogic` returns its verdict. -/
@[simp] theorem Server.handleTransactionLogic_status (s : Server) (sourceIp destIp : IpString)
    (value seqn : ℤ) :
    (s.handleTransactionLogic fl sourceIp destIp value seqn).2.1 =
      s.verdict fl sourceIp destIp value seqn := by
  by_cases h : s.verdict fl sourceIp destIp value seqn = .success
  · rw [Server.handleTransactionLogic_accept fl h, h]
  · obtain ⟨log, hlog⟩ := Server.handleTransactionLogic_reject fl h
    rw [hlog]

/-- `handleTransactionLogic` touches the ledger and the log slot only. -/
theorem Server.handleTransactionLogic_frame (s : Server) (sourceIp destIp : IpString)
    (value seqn : ℤ) :
    ∃ ledger log, (s.handleTransactionLogic fl sourceIp destIp value seqn).1 =
      { s with toLedger := ledger, lastLogInfo := log } := by
  by_cases h : s.verdict fl sourceIp destIp value seqn = .success
  · exact ⟨_, _, congrArg Prod.fst (Server.handleTransactionLogic_accept fl h)⟩
  · obtain ⟨log, hlog⟩ := Server.handleTransactionLogic_reject fl h
    exact ⟨s.toLedger, log, congrArg Prod.fst hlog⟩

/-- `processTransaction` executes exactly the requests its verdict accepts. -/
theorem Server.processTransaction_toLedger (s : Server) (sourceIp : IpString) (dest : InAddr)
    (value seqn : ℤ) :
    (s.processTransaction fl sourceIp dest value seqn).1.toLedger =
      if s.verdict fl sourceIp (inetNtop dest) value seqn = .success then
        s.toLedger.commit fl sourceIp (inetNtop dest) value seqn
      else s.toLedger := by
  rw [← Server.handleTransactionLogic_toLedger]
  simp only [Server.processTransaction]
  split <;> rfl

/-- `processTransaction` replies with its verdict. -/
@[simp] theorem Server.processTransaction_status (s : Server) (sourceIp : IpString) (dest : InAddr)
    (value seqn : ℤ) :
    (s.processTransaction fl sourceIp dest value seqn).2.1.status =
      s.verdict fl sourceIp (inetNtop dest) value seqn :=
  s.handleTransactionLogic_status fl sourceIp (inetNtop dest) value seqn

/-- `processTransaction` answers by the ledger alone. -/
theorem Server.processTransaction_reply_congr {s t : Server} (h : s.toLedger = t.toLedger)
    (sourceIp : IpString) (dest : InAddr) (value seqn : ℤ) :
    (s.processTransaction fl sourceIp dest value seqn).2.1 =
      (t.processTransaction fl sourceIp dest value seqn).2.1 := by
  have hlogic : (s.handleTransactionLogic fl sourceIp (inetNtop dest) value seqn).2 =
      (t.handleTransactionLogic fl sourceIp (inetNtop dest) value seqn).2 := by
    simp only [Server.handleTransactionLogic, h]
    split_ifs <;> rfl
  have hledger : (s.handleTransactionLogic fl sourceIp (inetNtop dest) value seqn).1.toLedger =
      (t.handleTransactionLogic fl sourceIp (inetNtop dest) value seqn).1.toLedger := by
    rw [Server.handleTransactionLogic_toLedger, Server.handleTransactionLogic_toLedger, h]
  simp only [Server.processTransaction, hlogic, hledger]

/-- An accepted request still finds its two accounts afterwards. -/
theorem Ledger.account_commit_of_accept {l : Ledger} {sourceIp destIp : IpString} {value seqn : ℤ}
    (h : l.verdict fl sourceIp destIp value seqn = .success) :
    ∃ source dest, (l.commit fl sourceIp destIp value seqn).account sourceIp = some source ∧
      (l.commit fl sourceIp destIp value seqn).account destIp = some dest := by
  obtain ⟨source, dest, hsource, hdest, -⟩ := (Ledger.verdict_eq_success fl).mp h
  have hs : sourceIp ∈ l.addresses := Ledger.account_isSome.mp (by rw [hsource]; rfl)
  have hd : destIp ∈ l.addresses := Ledger.account_isSome.mp (by rw [hdest]; rfl)
  rw [← Ledger.commit_addresses fl l sourceIp destIp value seqn] at hs hd
  obtain ⟨source', hsource'⟩ := Option.isSome_iff_exists.mp (Ledger.account_isSome.mpr hs)
  obtain ⟨dest', hdest'⟩ := Option.isSome_iff_exists.mp (Ledger.account_isSome.mpr hd)
  exact ⟨source', dest', hsource', hdest'⟩

/-- The packet an accepted request sends describes the ledger it leaves behind. -/
theorem Server.processTransaction_sends_accept {s : Server} {sourceIp : IpString} {dest : InAddr}
    {value seqn : ℤ} (h : s.verdict fl sourceIp (inetNtop dest) value seqn = .success)
    (hrole : s.currentRole = .primary) {source' dest' : ClientDTO}
    (hsource : (s.toLedger.commit fl sourceIp (inetNtop dest) value seqn).account sourceIp = some source')
    (hdest : (s.toLedger.commit fl sourceIp (inetNtop dest) value seqn).account (inetNtop dest) =
      some dest') :
    (s.processTransaction fl sourceIp dest value seqn).2.2 =
      s.backupServers.map fun b =>
        ⟨b, stateUpdatePacket (s.loggedTransaction sourceIp (inetNtop dest) value seqn) source' dest'⟩ := by
  simp only [Server.processTransaction, Server.handleTransactionLogic_accept fl h,
    Server.propagateSuccess, hrole, and_self, if_true, Ledger.commit_transactionHistory,
    List.getLast?_append, List.getLast?_singleton, Option.some_or, Ledger.getElem?_findClient, hsource,
    hdest]
  rfl

/-- A rejected request sends nothing. -/
theorem Server.processTransaction_sends_reject {s : Server} {sourceIp : IpString} {dest : InAddr}
    {value seqn : ℤ} (h : s.verdict fl sourceIp (inetNtop dest) value seqn ≠ .success) :
    (s.processTransaction fl sourceIp dest value seqn).2.2 = [] := by
  have hstatus := s.handleTransactionLogic_status fl sourceIp (inetNtop dest) value seqn
  simp only [Server.processTransaction, Server.propagateSuccess, hstatus, h, false_and, if_false]

/-- `processTransaction` leaves the role and the list of backups alone. -/
@[simp] theorem Server.processTransaction_frame (s : Server) (sourceIp : IpString) (dest : InAddr)
    (value seqn : ℤ) :
    (s.processTransaction fl sourceIp dest value seqn).1.currentRole = s.currentRole ∧
      (s.processTransaction fl sourceIp dest value seqn).1.backupServers = s.backupServers := by
  obtain ⟨ledger, log, h⟩ :=
    s.handleTransactionLogic_frame fl sourceIp (inetNtop dest) value seqn
  simp only [Server.processTransaction, h]
  split <;> exact ⟨rfl, rfl⟩

end BankReplica
