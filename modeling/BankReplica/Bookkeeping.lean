import BankReplica.Updates

/-!
# Bookkeeping in every role

Every operation of a server that touches its ledger, in any order and any role. Clients
are only ever appended, under an address that was just looked up and missed; counters
only ever move together with the log. So addresses stay distinct and the counters stay
the length and the sum of the log, whatever the packets hold.
-/

namespace BankReplica

open KeyedList

variable (fl : FloatRounding)

/-- The operations that touch the ledger or decide who may. -/
inductive ServerOp
  | call (c : Call)
  | handleClientUpdate (data : ClientUpdateData)
  | handleStateUpdate (data : StateUpdateData)
  | handleHistoryEntry (historyEntry : Transaction)
  | registerBackup (backupAddr : SockAddr)
  | promoteToPrimary
  | handleNewPrimaryAnnouncementPacket (newLeaderId : Word) (senderAddr : SockAddr)
deriving DecidableEq

/-- One operation. -/
def Server.op (s : Server) : ServerOp → Server
  | .call c => (s.call fl c).1
  | .handleClientUpdate data => s.handleClientUpdate fl data
  | .handleStateUpdate data => s.handleStateUpdate data
  | .handleHistoryEntry historyEntry => s.handleHistoryEntry historyEntry
  | .registerBackup backupAddr => (s.registerBackup backupAddr).1
  | .promoteToPrimary => s.promoteToPrimary.1
  | .handleNewPrimaryAnnouncementPacket newLeaderId senderAddr =>
    (s.handleNewPrimaryAnnouncementPacket newLeaderId senderAddr).1

/-- A sequence of operations. -/
def Server.runOps (s : Server) (ops : List ServerOp) : Server := ops.foldl (Server.op fl) s

/-- Addresses are distinct and the counters summarise the log. -/
structure Bookkept (l : Ledger) : Prop where
  nodup : l.addresses.Nodup
  counted : l.numTransactions = l.transactionHistory.length
  transferred : l.totalTransferred = (l.transactionHistory.map Transaction.value).sum

/-- An empty ledger is bookkept. -/
theorem bookkept_empty : Bookkept {} where
  nodup := List.nodup_nil
  counted := rfl
  transferred := rfl

variable {fl}

/-- A client appended under an unknown address keeps addresses distinct. -/
theorem nodup_append_client {clients : List ClientDTO} (h : (clients.map ClientDTO.address).Nodup)
    {c : ClientDTO} (hc : c.address ∉ clients.map ClientDTO.address) :
    ((clients ++ [c]).map ClientDTO.address).Nodup := by
  rw [List.map_append]
  exact h.append (List.nodup_singleton _) (by simpa using hc)

/-- `emplace_back` after a miss keeps addresses distinct. -/
theorem nodup_ensureClient {clients : List ClientDTO} (h : (clients.map ClientDTO.address).Nodup)
    (ip : IpString) : ((ensureClient clients ip).map ClientDTO.address).Nodup := by
  unfold ensureClient
  split
  · exact nodup_append_client h ((position_eq_length _).mp ‹_›)
  · exact h

/-- The three writes of `handleStateUpdate` keep the addresses. -/
theorem writeStateUpdate_addresses (clients : List ClientDTO) (sourceIt destIt : ℕ)
    (data : StateUpdateData) :
    (writeStateUpdate clients sourceIt destIt data).map ClientDTO.address =
      clients.map ClientDTO.address := by
  refine (map_key_modify ?_ _ _).trans ((map_key_modify ?_ _ _).trans (map_key_modify ?_ _ _)) <;>
    exact fun _ => rfl

/-- A log entry moves both counters. -/
theorem Bookkept.receiveEntry {l : Ledger} (h : Bookkept l) (tx : Transaction) :
    Bookkept (l.receiveEntry tx) where
  nodup := h.nodup
  counted := by
    simp only [Ledger.receiveEntry, h.counted, List.length_append, List.length_singleton]
    push_cast
    rfl
  transferred := by
    simp [Ledger.receiveEntry, h.transferred]

/-- New client records under distinct addresses keep the books. -/
theorem Bookkept.withClients {l : Ledger} (h : Bookkept l) {clients : List ClientDTO}
    (hnodup : (clients.map ClientDTO.address).Nodup) (total : ℤ) :
    Bookkept { l with clients := clients, totalBalance := total } where
  nodup := hnodup
  counted := h.counted
  transferred := h.transferred

variable (fl) in
/-- Every replication packet keeps the books. -/
theorem Bookkept.receive {l : Ledger} (h : Bookkept l) (packet : Packet) :
    Bookkept (l.receive fl packet) := by
  cases packet with
  | addClientUpdate data =>
    simp only [Ledger.receive, Ledger.receiveClient]
    split
    · exact h
    · exact h.withClients (nodup_append_client h.nodup ‹_›) _
  | stateUpdate data =>
    refine (h.receiveEntry data.transaction).withClients ?_ l.totalBalance
    rw [receiveRecords, writeStateUpdate_addresses]
    exact nodup_ensureClient (nodup_ensureClient h.nodup _) _
  | addHistoryEntry tx => exact h.receiveEntry tx
  | _ => exact h

/-- Every call keeps the books. -/
theorem Bookkept.apply {l : Ledger} (h : Bookkept l) (c : Call) : Bookkept (l.apply fl c) := by
  cases c with
  | addClient ip =>
    simp only [Ledger.apply]
    split
    · exact h
    · exact h.withClients (nodup_append_client h.nodup ‹_›) _
  | processTransaction sourceIp destAddr value seqn =>
    simp only [Ledger.apply]
    split
    · have hentry := h.receiveEntry (l.loggedTransaction sourceIp (inetNtop destAddr) value seqn)
      refine ⟨?_, ?_, hentry.transferred.trans ?_⟩
      · rw [Ledger.commit_addresses]
        exact h.nodup
      · rw [Ledger.commit_transactionHistory]
        exact hentry.counted
      · rw [Ledger.commit_transactionHistory]
        rfl
    · exact h

/-- Every operation keeps the books, in every role. -/
theorem Bookkept.op {s : Server} (h : Bookkept s.toLedger) (o : ServerOp) :
    Bookkept (s.op fl o).toLedger := by
  cases o with
  | call c =>
    rw [Server.op, Server.call_toLedger]
    exact h.apply c
  | handleClientUpdate data =>
    rw [Server.op, Server.handleClientUpdate_toLedger]
    exact h.receive fl (.addClientUpdate data)
  | handleStateUpdate data => exact h.receive fl (.stateUpdate data)
  | handleHistoryEntry historyEntry => exact h.receive fl (.addHistoryEntry historyEntry)
  | registerBackup backupAddr => exact h
  | promoteToPrimary =>
    rw [Server.op, Server.promoteToPrimary_toLedger]
    exact h
  | handleNewPrimaryAnnouncementPacket newLeaderId senderAddr =>
    rw [Server.op, Server.handleNewPrimaryAnnouncementPacket_toLedger]
    exact h

/-- Every sequence of operations keeps the books. -/
theorem Bookkept.runOps {s : Server} (h : Bookkept s.toLedger) (ops : List ServerOp) :
    Bookkept (s.runOps fl ops).toLedger := by
  induction ops generalizing s with
  | nil => exact h
  | cons o rest ih => exact ih (h.op o)

variable (fl) in
/-- Whatever operations a server performs after its construction, its clients have distinct
addresses and its counters are the length and the sum of its log. -/
theorem books_hold_in_every_role (serverId : Word) (port : UInt16) (ops : List ServerOp) :
    let s := (Server.new serverId port).runOps fl ops
    s.addresses.Nodup ∧ s.numTransactions = s.transactionHistory.length ∧
      s.totalTransferred = (s.transactionHistory.map Transaction.value).sum := by
  have hbooks : Bookkept ((Server.new serverId port).runOps fl ops).toLedger :=
    Bookkept.runOps bookkept_empty ops
  exact ⟨hbooks.nodup, hbooks.counted, hbooks.transferred⟩

end BankReplica
