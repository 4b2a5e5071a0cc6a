import BankReplica.Library.KeyedList
import BankReplica.State

/-!
# Replication packets and their handlers

What a primary sends to its registered backups and what a backup does with it. An
iterator into `clients` is a position, and `clients.end()` is a position with no
element; the writes through it land in the record it was found at. A vector that moves
between a lookup and a write is modelled in `StaleIterators`, over these definitions.
-/

namespace BankReplica

/-- `Server::findClient`. -/
def Ledger.findClient (l : Ledger) (ip : IpString) : ℕ :=
  KeyedList.position ClientDTO.address l.clients ip

/-- The `ADD_CLIENT_UPDATE` packet for a client record. -/
def clientUpdatePacket (client : ClientDTO) : Packet :=
  .addClientUpdate
    { ip := strncpyIp client.address.bytes
      balance := client.balance
      lastRequest := client.lastReq }

/-- `Server::propagateClientAddition`. -/
def Server.propagateClientAddition (s : Server) (newClient : ClientDTO) : List Send :=
  s.backupServers.map fun backupAddr => ⟨backupAddr, clientUpdatePacket newClient⟩

/-- The `STATE_UPDATE` packet for a logged transaction and its two client records. -/
def stateUpdatePacket (newTx : Transaction) (sourceClient destClient : ClientDTO) : Packet :=
  .stateUpdate
    { transaction := newTx
      sourceIp := strncpyIp sourceClient.address.bytes
      sourceBalance := sourceClient.balance
      destIp := strncpyIp destClient.address.bytes
      destBalance := destClient.balance }

/-- `Server::propagateTransaction`. -/
def Server.propagateTransaction (s : Server) (newTx : Transaction)
    (sourceClient destClient : ClientDTO) : List Send :=
  s.backupServers.map fun backupAddr => ⟨backupAddr, stateUpdatePacket newTx sourceClient destClient⟩

/-- The packets `Server::registerBackup` sends for a snapshot: every client, then every
history entry. -/
def Ledger.snapshotPackets (l : Ledger) : List Packet :=
  l.clients.map clientUpdatePacket ++ l.transactionHistory.map .addHistoryEntry

/-- `Server::registerBackup`: the section under the lock, and the sends that follow it. -/
def Server.registerBackup (s : Server) (backupAddr : SockAddr) : Server × List Send :=
  ({ s with backupServers := s.backupServers ++ [backupAddr] },
    s.snapshotPackets.map fun packet => ⟨backupAddr, packet⟩)

/-- A lookup followed by `emplace_back` on a miss. -/
def ensureClient (clients : List ClientDTO) (ip : IpString) : List ClientDTO :=
  if KeyedList.position ClientDTO.address clients ip = clients.length then clients ++ [.new ip]
  else clients

/-- The three writes of `Server::handleStateUpdate` through the two iterators. -/
def writeStateUpdate (clients : List ClientDTO) (sourceIt destIt : ℕ) (data : StateUpdateData) :
    List ClientDTO :=
  let sourceSet := clients.modify sourceIt fun c => c.setBalance data.sourceBalance
  let destSet := sourceSet.modify destIt fun c => c.setBalance data.destBalance
  destSet.modify sourceIt fun c => c.setLastRequest data.transaction.clientSeqn

/-- `Server::handleStateUpdate`. -/
def Server.handleStateUpdate (s : Server) (data : StateUpdateData) : Server :=
  let tx := data.transaction
  let clients := ensureClient (ensureClient s.clients data.sourceIp) data.destIp
  let sourceIt := KeyedList.position ClientDTO.address clients data.sourceIp
  let destIt := KeyedList.position ClientDTO.address clients data.destIp
  Server.notify
    { s with
      clients := writeStateUpdate clients sourceIt destIt data
      transactionHistory := s.transactionHistory ++ [tx]
      numTransactions := s.numTransactions + 1
      totalTransferred := s.totalTransferred + tx.value
      lastLogInfo :=
        { type := .success
          transactionId := tx.id
          value := tx.value
          sourceIp := data.sourceIp
          destIp := data.destIp } }

variable (fl : FloatRounding)

/-- `Server::handleClientUpdate`. -/
def Server.handleClientUpdate (s : Server) (data : ClientUpdateData) : Server :=
  if s.findClient data.ip = s.clients.length then
    let newClient := ((ClientDTO.new data.ip).setBalance data.balance).setLastRequest data.lastRequest
    Server.notify
      { s with
        clients := s.clients ++ [newClient]
        totalBalance := fl (fl s.totalBalance + data.balance) }
  else s

/-- `Server::handleHistoryEntry`. -/
def Server.handleHistoryEntry (s : Server) (historyEntry : Transaction) : Server :=
  Server.notify
    { s with
      transactionHistory := s.transactionHistory ++ [historyEntry]
      numTransactions := s.numTransactions + 1
      totalTransferred := s.totalTransferred + historyEntry.value }

/-- The three replication cases of the receive loop, which act on a backup only. -/
def Server.receiveUpdate (s : Server) (packet : Packet) : Server :=
  if s.currentRole = .backup then
    match packet with
    | .addClientUpdate data => s.handleClientUpdate fl data
    | .stateUpdate data => s.handleStateUpdate data
    | .addHistoryEntry tx => s.handleHistoryEntry tx
    | _ => s
  else s

end BankReplica
