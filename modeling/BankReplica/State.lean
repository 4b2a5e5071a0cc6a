import BankReplica.Address
import BankReplica.Library.RoundBits

/-!
# Server state and packets

The data of the replicated bank: client records, the transaction log, the counters,
and the packets servers and clients exchange. `int` counters and balances are
integers; a balance is a `float`, so every arithmetic step on balances goes through a
rounding `fl`, which is the identity where balances are taken as exact integers. Packet
fields that pass through `htonl` hold the word they denote on the wire.
-/

namespace BankReplica

/-- The roundings a `float` balance may be subject to. -/
abbrev FloatRounding := RoundBits.Rounding 24

/-- Balances as exact integers. -/
def exactBalances : FloatRounding := .exact 24

/-- Balances in IEEE single precision. -/
def singlePrecision : FloatRounding := .nearest 24 (by decide)

/-- A 32-bit word of a packet. -/
abbrev Word := BitVec 32

/-- The range of `int`. -/
def IsInt (n : ℤ) : Prop := -2 ^ 31 ≤ n ∧ n < 2 ^ 31

instance (n : ℤ) : Decidable (IsInt n) := inferInstanceAs (Decidable (_ ∧ _))

/-- `INITIAL_BALANCE`. -/
def initialBalance : ℤ := 1000

/-- `ServerRole`. -/
inductive ServerRole
  | primary
  | backup
deriving DecidableEq

/-- `LogType`. -/
inductive LogType
  | none
  | success
  | duplicate
deriving DecidableEq

/-- `LogInfo`, the single slot the interface thread prints from. -/
structure LogInfo where
  type : LogType := .none
  transactionId : ℤ := 0
  value : ℤ := 0
  sourceIp : IpString := .empty
  destIp : IpString := .empty
deriving DecidableEq

/-- `TransactionStatus`, in the order of its wire codes. -/
inductive TransactionStatus
  | success
  | errorClientNotFound
  | errorDuplicateRequest
  | errorInsufficientFunds
  | errorOutOfSequence
deriving DecidableEq

/-- `ClientDTO`. -/
@[ext]
structure ClientDTO where
  address : IpString
  lastReq : ℤ
  balance : ℤ
deriving DecidableEq

/-- The `ClientDTO` constructor. -/
def ClientDTO.new (addr : IpString) : ClientDTO := ⟨addr, 0, initialBalance⟩

def ClientDTO.setLastRequest (c : ClientDTO) (req : ℤ) : ClientDTO := { c with lastReq := req }

def ClientDTO.setBalance (c : ClientDTO) (bal : ℤ) : ClientDTO := { c with balance := bal }

/-- `Transaction`. -/
structure Transaction where
  id : ℤ
  sourceIp : IpString
  destIp : IpString
  value : ℤ
  clientSeqn : ℤ
deriving DecidableEq

/-- `ReqData`; the destination is copied raw, the two numbers pass through `htonl`. -/
structure ReqData where
  destAddr : InAddr
  value : Word
  seqn : Word
deriving DecidableEq

/-- `AckData`. -/
structure AckData where
  seqn : Word
  newBalance : ℤ
  status : Word
  lastReq : Word
deriving DecidableEq

/-- `ClientUpdateData`. -/
structure ClientUpdateData where
  ip : IpString
  balance : ℤ
  lastRequest : ℤ
deriving DecidableEq

/-- `StateUpdateData`. -/
structure StateUpdateData where
  transaction : Transaction
  sourceIp : IpString
  sourceBalance : ℤ
  destIp : IpString
  destBalance : ℤ
deriving DecidableEq

/-- `Packet`, the packet type together with the union member that type selects. -/
inductive Packet
  | discovery
  | discoveryAck
  | transactionReq (req : ReqData)
  | transactionAck (ack : AckData)
  | registerBackup
  | addClientUpdate (clientUpdate : ClientUpdateData)
  | heartbeat
  | newPrimaryAnnouncement (value : Word)
  | stateUpdate (stateUpdate : StateUpdateData)
  | stateUpdateAck
  | addHistoryEntry (historyEntry : Transaction)
  | serverDiscovery
  | election (value : Word)
  | electionAnswer (value : Word)
deriving DecidableEq

/-- A packet handed to `sendPacket` with its destination. -/
structure Send where
  dest : SockAddr
  packet : Packet
deriving DecidableEq

/-- The part of the server state that replication is to keep equal. -/
structure Ledger where
  numTransactions : ℤ := 0
  totalTransferred : ℤ := 0
  totalBalance : ℤ := 0
  clients : List ClientDTO := []
  transactionHistory : List Transaction := []
deriving DecidableEq

/-- `Server`. The reader-writer lock is not part of this state: each operation below is one
section under `writer_lock`, and the role is `backup` until `init` or a promotion sets it. -/
structure Server extends Ledger where
  lastLogInfo : LogInfo := {}
  dataChanged : Bool := false
  currentRole : ServerRole := .backup
  backupServers : List SockAddr := []
  primaryServerAddr : Option SockAddr := none
  primaryAlive : Bool := false
  serverId : Word
  electionInProgress : Bool := false
  electionLost : Bool := false
  port : UInt16
deriving DecidableEq

/-- The addresses of the registered clients, in registration order. -/
def Ledger.addresses (l : Ledger) : List IpString := l.clients.map ClientDTO.address

/-- `ServerInterface::notify`. -/
def Server.notify (s : Server) : Server := { s with dataChanged := true }

@[simp] theorem Server.notify_toLedger (s : Server) : s.notify.toLedger = s.toLedger := rfl

@[simp] theorem Server.notify_currentRole (s : Server) : s.notify.currentRole = s.currentRole := rfl

@[simp] theorem Server.notify_backupServers (s : Server) :
    s.notify.backupServers = s.backupServers := rfl

@[simp] theorem Server.notify_serverId (s : Server) : s.notify.serverId = s.serverId := rfl

/-- A server just constructed on `port`, with the id `getIp` found. -/
def Server.new (serverId : Word) (port : UInt16) : Server where
  serverId := serverId
  port := port

end BankReplica
