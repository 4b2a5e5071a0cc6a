import BankReplica.Replication

/-!
# Registration of clients and execution of transactions

The operations a primary performs for its clients. Each one returns the new state and
the packets it sends; `processTransaction` is cut at the point where the role is
consulted, because another thread may change the role there.
-/

namespace BankReplica

variable (fl : FloatRounding)

/-- `Server::wasClientAdded`. -/
def Server.wasClientAdded (s : Server) (clientIp : IpString) : Server × Bool × List Send :=
  if s.findClient clientIp = s.clients.length then
    let newClient := ClientDTO.new clientIp
    let added : Server :=
      { s with
        clients := s.clients ++ [newClient]
        totalBalance := fl (fl s.totalBalance + newClient.balance) }
    (added, true, if s.currentRole = .primary then added.propagateClientAddition newClient else [])
  else (s, false, [])

/-- `Server::addClient`. -/
def Server.addClient (s : Server) (clientIp : IpString) : Server × List Send :=
  let (s', clientAdded, sends) := s.wasClientAdded fl clientIp
  (if clientAdded then s'.notify else s', sends)

/-- `Server::validateTransaction`; a position with no element is `clients.end()`. -/
def Ledger.validateTransaction (l : Ledger) (sourceIt destIt : ℕ) (value seqn : ℤ) :
    TransactionStatus :=
  match l.clients[sourceIt]?, l.clients[destIt]? with
  | some source, some _ =>
    if seqn ≤ source.lastReq then .errorDuplicateRequest
    else if seqn > source.lastReq + 1 then .errorOutOfSequence
    else if source.balance < fl value then .errorInsufficientFunds
    else .success
  | _, _ => .errorClientNotFound

/-- `Server::executeTransaction`, three writes through two iterators that may coincide. -/
def Ledger.executeTransaction (l : Ledger) (sourceIt destIt : ℕ) (value seqn : ℤ) : Ledger :=
  let debited := l.clients.modify sourceIt fun c => c.setBalance (fl (c.balance - fl value))
  let credited := debited.modify destIt fun c => c.setBalance (fl (c.balance + fl value))
  { l with clients := credited.modify sourceIt fun c => c.setLastRequest seqn }

/-- `Server::updateAndLogTransaction`. -/
def Ledger.updateAndLogTransaction (l : Ledger) (sourceIp destIp : IpString) (value seqn : ℤ) :
    Ledger :=
  let newTransaction : Transaction :=
    { id := l.numTransactions + 1
      sourceIp := strncpyIp sourceIp.bytes
      destIp := strncpyIp destIp.bytes
      value := value
      clientSeqn := seqn }
  { l with
    numTransactions := l.numTransactions + 1
    totalTransferred := l.totalTransferred + value
    transactionHistory := l.transactionHistory ++ [newTransaction] }

/-- `Server::setupDuplicateRequestLog`. -/
def duplicateRequestLog (sourceIp destIp : IpString) (value seqn : ℤ) : LogInfo :=
  { type := .duplicate
    transactionId := seqn
    value := value
    sourceIp := sourceIp
    destIp := destIp }

/-- The balance read through an iterator, or `-1` at `clients.end()`. -/
def Ledger.balanceAt (l : Ledger) (it : ℕ) : ℤ := (l.clients[it]?).elim (-1) ClientDTO.balance

/-- `Server::handleTransactionLogic`. -/
def Server.handleTransactionLogic (s : Server) (sourceIp destIp : IpString) (value seqn : ℤ) :
    Server × TransactionStatus × ℤ :=
  let sourceIt := s.findClient sourceIp
  let destIt := s.findClient destIp
  let status := s.validateTransaction fl sourceIt destIt value seqn
  if status = .success then
    let executed := s.toLedger.executeTransaction fl sourceIt destIt value seqn
    let logged := executed.updateAndLogTransaction sourceIp destIp value seqn
    ({ s with toLedger := logged, lastLogInfo := { s.lastLogInfo with type := .success } },
      .success, executed.balanceAt sourceIt)
  else if status = .errorDuplicateRequest ∨ status = .errorOutOfSequence then
    ({ s with lastLogInfo := duplicateRequestLog sourceIp destIp value seqn },
      status, s.balanceAt sourceIt)
  else (s, status, s.balanceAt sourceIt)

/-- What `Server::processTransaction` returns. -/
structure Reply where
  status : TransactionStatus
  balance : ℤ
  lastReq : ℤ
deriving DecidableEq

/-- The propagation step of `Server::processTransaction`, reading the role. -/
def Server.propagateSuccess (s : Server) (sourceIp destIp : IpString) (status : TransactionStatus) :
    List Send :=
  if status = .success ∧ s.currentRole = .primary then
    match s.transactionHistory.getLast?, s.clients[s.findClient sourceIp]?,
        s.clients[s.findClient destIp]? with
    | some newTx, some source, some dest => s.propagateTransaction newTx source dest
    | _, _, _ => []
  else []

/-- `last_req` of the source in the state left behind, or `0` if it is not registered. -/
def Ledger.lastRequestOf (l : Ledger) (ip : IpString) : ℤ :=
  (l.clients[l.findClient ip]?).elim 0 ClientDTO.lastReq

/-- The notification rule of `Server::processTransaction`. -/
def shouldNotify (status : TransactionStatus) : Bool :=
  status = .success ∨ status = .errorDuplicateRequest ∨ status = .errorOutOfSequence

/-- `Server::processTransaction`. -/
def Server.processTransaction (s : Server) (sourceIp : IpString) (destAddrInt : InAddr)
    (value seqn : ℤ) : Server × Reply × List Send :=
  let destIp := inetNtop destAddrInt
  let (s', status, balance) := s.handleTransactionLogic fl sourceIp destIp value seqn
  (if shouldNotify status then s'.notify else s',
    ⟨status, balance, s'.lastRequestOf sourceIp⟩,
    s'.propagateSuccess sourceIp destIp status)

/-- The wire code of a status. -/
def TransactionStatus.toWord : TransactionStatus → Word
  | .success => 0
  | .errorClientNotFound => 1
  | .errorDuplicateRequest => 2
  | .errorInsufficientFunds => 3
  | .errorOutOfSequence => 4

/-- The acknowledgement `handleTransactionRequest` fills in from a reply. -/
def ackOf (seqn : ℤ) (reply : Reply) : AckData :=
  { seqn := BitVec.ofInt 32 seqn
    newBalance := reply.balance
    status := reply.status.toWord
    lastReq := BitVec.ofInt 32 reply.lastReq }

/-- `handleTransactionRequest` from the start of its thread to its acknowledgement. -/
def Server.handleTransactionRequest (s : Server) (req : ReqData) (clientAddr : SockAddr) :
    Server × Reply × List Send :=
  let seqn := req.seqn.toInt
  let (s', reply, sends) := s.processTransaction fl (inetNtop clientAddr.sinAddr) req.destAddr
    req.value.toInt seqn
  (s', reply, sends ++ [⟨clientAddr, .transactionAck (ackOf seqn reply)⟩])

/-- `handleDiscoveryPacket`. -/
def Server.handleDiscoveryPacket (s : Server) (clientAddr : SockAddr) : Server × List Send :=
  if s.currentRole = .primary then
    let (s', sends) := s.addClient fl (inetNtop clientAddr.sinAddr)
    (s', sends ++ [⟨clientAddr, .discoveryAck⟩])
  else (s, [])

end BankReplica
