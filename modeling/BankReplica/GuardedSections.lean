import BankReplica.Facts
import BankReplica.Library.LockedObject
import BankReplica.OperatorLog
import BankReplica.Snapshot
import BankReplica.StaleIterators

/-!
# The sections of a server, statement by statement

What the other modules take as one step each, request threads, the receive loop and the interface
thread do statement by statement, between the lock and the unlock of the reader-writer lock. The
ledger and `last_log_info` are used there only; `current_role` and `backup_servers` are not, so
what a section reads of the role is its caller's, and it leaves the packet for any backup listed.
`handleStateUpdate` keeps iterators into `clients` across its insertions, and a write through a
stale one is undefined, as is an `int` that overflows: no run goes past either. Until then the
interleavings of these statements come to nothing else than the operations one at a time.
-/

namespace BankReplica

open LockedObject Linearization Runs GrowingVector

variable (fl : FloatRounding) (grow : Growth)

/-- The part of a server that is used under the lock only, with the places to spare in the buffer of
`clients` and the number of buffers it has left behind. -/
structure Guarded extends Ledger where
  lastLogInfo : LogInfo := {}
  spare : ℕ := 0
  buffer : ℕ := 0
deriving DecidableEq

/-- The `clients` in their buffer. -/
def Guarded.vec (g : Guarded) : Vec ClientDTO where
  elems := g.clients
  capacity := g.clients.length + g.spare
  buffer := g.buffer
  fits := Nat.le_add_right _ _

/-- Other `clients`, in a buffer of their own or the same. -/
def Guarded.withVec (g : Guarded) (clients : Vec ClientDTO) : Guarded :=
  { g with
    clients := clients.elems
    spare := spareOf clients
    buffer := clients.buffer }

/-- `clients.push_back` or `clients.emplace_back`. -/
def Guarded.emplaceBack (g : Guarded) (client : ClientDTO) : Guarded :=
  { g with
    clients := g.clients ++ [client]
    spare := spareOf (g.vec.emplaceBack grow client)
    buffer := (g.vec.emplaceBack grow client).buffer }

/-- What an operation of a server leaves of the guarded part. -/
def Guarded.after (g : Guarded) (s : Server) : Guarded :=
  { g with
    toLedger := s.toLedger
    lastLogInfo := s.lastLogInfo }

/-- What it leaves if its `clients` are in another buffer then. -/
def Guarded.afterIn (g : Guarded) (s : Server) (clients : Vec ClientDTO) : Guarded :=
  { g.after s with
    spare := spareOf clients
    buffer := clients.buffer }

/-- A server with this guarded part, in some role and with one backup. -/
def Guarded.server (g : Guarded) (currentRole : ServerRole) : Server :=
  { Server.new 0 0 with
    toLedger := g.toLedger
    lastLogInfo := g.lastLogInfo
    currentRole := currentRole
    backupServers := [⟨⟨0, 0, 0, 0⟩, 0⟩] }

/-- The operations with a section under the lock that uses the guarded part. -/
inductive GuardedOp
  | processTransaction (currentRole : ServerRole) (sourceIp : IpString) (destAddr : InAddr) (value seqn : ℤ)
  | addClient (currentRole : ServerRole) (clientIp : IpString)
  | handleClientUpdate (data : ClientUpdateData)
  | handleStateUpdate (data : StateUpdateData)
  | handleHistoryEntry (historyEntry : Transaction)
  /-- The copies that `registerBackup` makes. -/
  | registerBackup
  | printClients
  /-- The section of `ServerInterface::run`. -/
  | run
deriving DecidableEq

/-- What a section leaves its caller with, and the packets for each backup. -/
inductive GuardedReply
  | answer (reply : Reply) (updates : List Packet)
  | added (clientAdded : Bool) (updates : List Packet)
  /-- Whether `interface.notify` is called next. -/
  | handled (notifies : Bool)
  | snapshot (clientSnapshot : List ClientDTO) (historySnapshot : List Transaction)
  | rows (clients : List ClientDTO)
  | line (message : Option LogMessage)
  /-- What comes of a write through a stale iterator. -/
  | stale
deriving DecidableEq

/-- The operations one at a time. -/
def Guarded.perform (g : Guarded) : GuardedOp → Guarded × GuardedReply
  | .processTransaction currentRole sourceIp destAddr value seqn =>
    let destIp := inetNtop destAddr
    let (s, status, balance) := (g.server currentRole).handleTransactionLogic fl sourceIp destIp value seqn
    (g.after s, .answer ⟨status, balance, s.lastRequestOf sourceIp⟩
      ((s.propagateSuccess sourceIp destIp status).map Send.packet))
  | .addClient currentRole clientIp =>
    let (s, clientAdded, sends) := (g.server currentRole).wasClientAdded fl clientIp
    let clients := (g.vec.findOrEmplace ClientDTO.address grow clientIp (.new clientIp)).1
    (g.afterIn s clients, .added clientAdded (sends.map Send.packet))
  | .handleClientUpdate data =>
    let s := (g.server .backup).handleClientUpdate fl data
    let newClient := ((ClientDTO.new data.ip).setBalance data.balance).setLastRequest data.lastRequest
    let clients := (g.vec.findOrEmplace ClientDTO.address grow data.ip newClient).1
    (g.afterIn s clients, .handled s.dataChanged)
  | .handleStateUpdate data =>
    let withSource := (g.vec.findOrEmplace ClientDTO.address grow data.sourceIp (.new data.sourceIp)).1
    let withDest := (withSource.findOrEmplace ClientDTO.address grow data.destIp (.new data.destIp)).1
    match (g.server .backup).handleStateUpdateThrough grow g.spare data with
    | some s => (g.afterIn s withDest, .handled s.dataChanged)
    | none => (g, .stale)
  | .handleHistoryEntry historyEntry =>
    let s := (g.server .backup).handleHistoryEntry historyEntry
    (g.after s, .handled s.dataChanged)
  | .registerBackup => (g, .snapshot g.clients g.transactionHistory)
  | .printClients => (g, .rows g.clients)
  | .run => (g, .line (g.server .primary).logMessage)

/-! ## The statements -/

/-- The parameters of `processTransaction`, and what it is to read of the role. -/
structure RequestLocals where
  currentRole : ServerRole
  sourceIp : IpString
  destIp : IpString
  value : ℤ
  seqn : ℤ

/-- The statement a section is at, with its local variables; the five writes to `last_log_info` of
one function count as one. Where nothing is inserted an iterator is its position. -/
inductive Frame
  | findSource (r : RequestLocals)
  | findDest (r : RequestLocals) (sourceIt : ℕ)
  | validate (r : RequestLocals) (sourceIt destIt : ℕ)
  | debit (r : RequestLocals) (sourceIt destIt : ℕ)
  | credit (r : RequestLocals) (sourceIt destIt : ℕ)
  | stamp (r : RequestLocals) (sourceIt : ℕ)
  | count (r : RequestLocals) (sourceIt : ℕ)
  | total (r : RequestLocals) (sourceIt : ℕ)
  | number (r : RequestLocals) (sourceIt : ℕ)
  | record (r : RequestLocals) (sourceIt : ℕ) (newTransaction : Transaction)
  | noteSuccess (r : RequestLocals) (sourceIt : ℕ)
  | noteDuplicate (r : RequestLocals) (sourceIt : ℕ) (status : TransactionStatus)
  | readBalance (r : RequestLocals) (sourceIt : ℕ) (status : TransactionStatus)
  | readRole (r : RequestLocals) (status : TransactionStatus) (balance : ℤ)
  | readBack (r : RequestLocals) (status : TransactionStatus) (balance : ℤ)
  | readSource (r : RequestLocals) (status : TransactionStatus) (balance : ℤ) (newTx : Option Transaction)
  | readDest (r : RequestLocals) (status : TransactionStatus) (balance : ℤ) (newTx : Option Transaction)
      (source : Option ClientDTO)
  | readLastReq (r : RequestLocals) (status : TransactionStatus) (balance : ℤ) (updates : List Packet)
  | seekClient (currentRole : ServerRole) (clientIp : IpString)
  | insertClient (currentRole : ServerRole) (newClient : ClientDTO)
  | addBalance (currentRole : ServerRole) (newClient : ClientDTO)
  | announceClient (currentRole : ServerRole) (newClient : ClientDTO)
  | seekUpdated (data : ClientUpdateData)
  | insertUpdated (data : ClientUpdateData) (newClient : ClientDTO)
  | addUpdated (data : ClientUpdateData)
  | seekSource (data : StateUpdateData)
  | emplaceSource (data : StateUpdateData)
  | reseekSource (data : StateUpdateData)
  | seekDest (data : StateUpdateData) (sourceIt : Iter)
  | emplaceDest (data : StateUpdateData) (sourceIt : Iter)
  | reseekDest (data : StateUpdateData) (sourceIt : Iter)
  | setSource (data : StateUpdateData) (sourceIt destIt : Iter)
  | setDest (data : StateUpdateData) (sourceIt destIt : Iter)
  | setLast (data : StateUpdateData) (sourceIt : Iter)
  | recordUpdate (data : StateUpdateData)
  | countUpdate (data : StateUpdateData)
  | totalUpdate (data : StateUpdateData)
  | noteUpdate (data : StateUpdateData)
  | recordEntry (historyEntry : Transaction)
  | countEntry (historyEntry : Transaction)
  | totalEntry (historyEntry : Transaction)
  | copyClients
  | copyHistory (clientSnapshot : List ClientDTO)
  | printRow (i : ℕ) (rows : List ClientDTO)
  | readLog
  | readLast
  | readTotals (message : Transaction ⊕ LogInfo)
  | done (reply : GuardedReply)

/-- The operations that take the read lock. -/
def GuardedOp.reads : GuardedOp → Bool
  | .printClients | .run => true
  | _ => false

/-- The first statement of a section. -/
def GuardedOp.start : GuardedOp → Frame
  | .processTransaction currentRole sourceIp destAddr value seqn =>
    .findSource ⟨currentRole, sourceIp, inetNtop destAddr, value, seqn⟩
  | .addClient currentRole clientIp => .seekClient currentRole clientIp
  | .handleClientUpdate data => .seekUpdated data
  | .handleStateUpdate data => .seekSource data
  | .handleHistoryEntry historyEntry => .recordEntry historyEntry
  | .registerBackup => .copyClients
  | .printClients => .printRow 0 []
  | .run => .readLog

/-- A value that an `int` is to hold. -/
def intOf (n : ℤ) : Option ℤ := if IsInt n then some n else none

/-- One statement under the write lock, without a result if it is undefined. -/
def Guarded.write (g : Guarded) : Frame → Option (Guarded × Frame)
  -- `processTransaction` with `handleTransactionLogic` and what it calls
  | .findSource r => some (g, .findDest r (g.findClient r.sourceIp))
  | .findDest r sourceIt => some (g, .validate r sourceIt (g.findClient r.destIp))
  | .validate r sourceIt destIt =>
    let status := g.validateTransaction fl sourceIt destIt r.value r.seqn
    if status = .success then some (g, .debit r sourceIt destIt)
    else if status = .errorDuplicateRequest ∨ status = .errorOutOfSequence then
      some (g, .noteDuplicate r sourceIt status)
    else some (g, .readBalance r sourceIt status)
  | .debit r sourceIt destIt =>
    some ({ g with clients := g.clients.modify sourceIt fun c => c.setBalance (fl (c.balance - fl r.value)) },
      .credit r sourceIt destIt)
  | .credit r sourceIt destIt =>
    some ({ g with clients := g.clients.modify destIt fun c => c.setBalance (fl (c.balance + fl r.value)) },
      .stamp r sourceIt)
  | .stamp r sourceIt =>
    some ({ g with clients := g.clients.modify sourceIt fun c => c.setLastRequest r.seqn }, .count r sourceIt)
  | .count r sourceIt =>
    (intOf (g.numTransactions + 1)).map fun n => ({ g with numTransactions := n }, .total r sourceIt)
  | .total r sourceIt =>
    (intOf (g.totalTransferred + r.value)).map fun n => ({ g with totalTransferred := n }, .number r sourceIt)
  | .number r sourceIt =>
    some (g, .record r sourceIt
      ⟨g.numTransactions, strncpyIp r.sourceIp.bytes, strncpyIp r.destIp.bytes, r.value, r.seqn⟩)
  | .record r sourceIt newTransaction =>
    some ({ g with transactionHistory := g.transactionHistory ++ [newTransaction] }, .noteSuccess r sourceIt)
  | .noteSuccess r sourceIt =>
    some ({ g with lastLogInfo := { g.lastLogInfo with type := .success } }, .readBalance r sourceIt .success)
  | .noteDuplicate r sourceIt status =>
    some ({ g with lastLogInfo := duplicateRequestLog r.sourceIp r.destIp r.value r.seqn },
      .readBalance r sourceIt status)
  | .readBalance r sourceIt status => some (g, .readRole r status (g.balanceAt sourceIt))
  | .readRole r status balance =>
    if status = .success ∧ r.currentRole = .primary then some (g, .readBack r status balance)
    else some (g, .readLastReq r status balance [])
  | .readBack r status balance => some (g, .readSource r status balance g.transactionHistory.getLast?)
  | .readSource r status balance newTx =>
    some (g, .readDest r status balance newTx g.clients[g.findClient r.sourceIp]?)
  | .readDest r status balance newTx source =>
    match newTx, source, g.clients[g.findClient r.destIp]? with
    | some newTx, some source, some dest =>
      some (g, .readLastReq r status balance [stateUpdatePacket newTx source dest])
    | _, _, _ => some (g, .readLastReq r status balance [])
  | .readLastReq r status balance updates =>
    some (g, .done (.answer ⟨status, balance, g.lastRequestOf r.sourceIp⟩ updates))
  -- `addClient` with `wasClientAdded`
  | .seekClient currentRole clientIp =>
    if g.findClient clientIp = g.clients.length then some (g, .insertClient currentRole (.new clientIp))
    else some (g, .done (.added false []))
  | .insertClient currentRole newClient => some (g.emplaceBack grow newClient, .addBalance currentRole newClient)
  | .addBalance currentRole newClient =>
    (addToTotal fl g.totalBalance newClient.balance).map fun n =>
      ({ g with totalBalance := n }, .announceClient currentRole newClient)
  | .announceClient currentRole newClient =>
    some (g, .done (.added true (if currentRole = .primary then [clientUpdatePacket newClient] else [])))
  -- `handleClientUpdate`
  | .seekUpdated data =>
    if g.findClient data.ip = g.clients.length then
      some (g, .insertUpdated data (((ClientDTO.new data.ip).setBalance data.balance).setLastRequest data.lastRequest))
    else some (g, .done (.handled false))
  | .insertUpdated data newClient => some (g.emplaceBack grow newClient, .addUpdated data)
  | .addUpdated data =>
    (addToTotal fl g.totalBalance data.balance).map fun n => ({ g with totalBalance := n }, .done (.handled true))
  -- `handleStateUpdate`
  | .seekSource data =>
    let sourceIt := g.vec.find ClientDTO.address data.sourceIp
    if sourceIt = g.vec.endIter then some (g, .emplaceSource data) else some (g, .seekDest data sourceIt)
  | .emplaceSource data => some (g.emplaceBack grow (.new data.sourceIp), .reseekSource data)
  | .reseekSource data => some (g, .seekDest data (g.vec.find ClientDTO.address data.sourceIp))
  | .seekDest data sourceIt =>
    let destIt := g.vec.find ClientDTO.address data.destIp
    if destIt = g.vec.endIter then some (g, .emplaceDest data sourceIt)
    else some (g, .setSource data sourceIt destIt)
  | .emplaceDest data sourceIt => some (g.emplaceBack grow (.new data.destIp), .reseekDest data sourceIt)
  | .reseekDest data sourceIt => some (g, .setSource data sourceIt (g.vec.find ClientDTO.address data.destIp))
  | .setSource data sourceIt destIt =>
    (g.vec.write sourceIt fun c => c.setBalance data.sourceBalance).map fun clients =>
      (g.withVec clients, .setDest data sourceIt destIt)
  | .setDest data sourceIt destIt =>
    (g.vec.write destIt fun c => c.setBalance data.destBalance).map fun clients =>
      (g.withVec clients, .setLast data sourceIt)
  | .setLast data sourceIt =>
    (g.vec.write sourceIt fun c => c.setLastRequest data.transaction.clientSeqn).map fun clients =>
      (g.withVec clients, .recordUpdate data)
  | .recordUpdate data =>
    some ({ g with transactionHistory := g.transactionHistory ++ [data.transaction] }, .countUpdate data)
  | .countUpdate data =>
    (intOf (g.numTransactions + 1)).map fun n => ({ g with numTransactions := n }, .totalUpdate data)
  | .totalUpdate data =>
    (intOf (g.totalTransferred + data.transaction.value)).map fun n =>
      ({ g with totalTransferred := n }, .noteUpdate data)
  | .noteUpdate data =>
    some ({ g with
        lastLogInfo :=
          { type := .success
            transactionId := data.transaction.id
            value := data.transaction.value
            sourceIp := data.sourceIp
            destIp := data.destIp } },
      .done (.handled true))
  -- `handleHistoryEntry`
  | .recordEntry historyEntry =>
    some ({ g with transactionHistory := g.transactionHistory ++ [historyEntry] }, .countEntry historyEntry)
  | .countEntry historyEntry =>
    (intOf (g.numTransactions + 1)).map fun n => ({ g with numTransactions := n }, .totalEntry historyEntry)
  | .totalEntry historyEntry =>
    (intOf (g.totalTransferred + historyEntry.value)).map fun n =>
      ({ g with totalTransferred := n }, .done (.handled true))
  -- `registerBackup`
  | .copyClients => some (g, .copyHistory g.clients)
  | .copyHistory clientSnapshot => some (g, .done (.snapshot clientSnapshot g.transactionHistory))
  | frame => some (g, frame)

/-- One statement under the read lock. -/
def Guarded.read (g : Guarded) : Frame → Frame
  -- `printClients`
  | .printRow i rows =>
    match g.clients[i]? with
    | some client => .printRow (i + 1) (rows ++ [client])
    | none => .done (.rows rows)
  -- `ServerInterface::run`
  | .readLog =>
    match g.lastLogInfo.type with
    | .success => .readLast
    | .duplicate => .readTotals (.inr g.lastLogInfo)
    | .none => .done (.line none)
  | .readLast => .readTotals (.inl (g.server .primary).getLastTransaction)
  | .readTotals (.inl lastTransaction) =>
    .done (.line (some (.requisition lastTransaction g.numTransactions g.totalTransferred g.totalBalance)))
  | .readTotals (.inr logInfo) =>
    .done (.line (some (.duplicated logInfo g.numTransactions g.totalTransferred g.totalBalance)))
  | frame => frame

/-- The sections. -/
def sections : Code Guarded GuardedOp GuardedReply Frame where
  reads := GuardedOp.reads
  start := GuardedOp.start
  read := Guarded.read
  write := Guarded.write fl grow
  reply
    | .done reply => some reply
    | _ => none

/-- The iterator points at a client in the buffer of `clients`. -/
def Guarded.Live (g : Guarded) (it : Iter) : Prop := it.buffer = g.buffer ∧ it.pos < g.clients.length

instance (g : Guarded) (it : Iter) : Decidable (g.Live it) := inferInstanceAs (Decidable (_ ∧ _))

/-- The statement writes through a stale iterator. -/
def Guarded.Stale (g : Guarded) : Frame → Prop
  | .setSource _ it _ | .setDest _ _ it | .setLast _ it => ¬ g.Live it
  | _ => False

/-- The statement makes an `int` overflow. -/
def Guarded.Overflows (g : Guarded) : Frame → Prop
  | .count _ _ | .countUpdate _ | .countEntry _ => ¬ IsInt (g.numTransactions + 1)
  | .total r _ => ¬ IsInt (g.totalTransferred + r.value)
  | .totalUpdate data => ¬ IsInt (g.totalTransferred + data.transaction.value)
  | .totalEntry historyEntry => ¬ IsInt (g.totalTransferred + historyEntry.value)
  | .addBalance _ newClient => ¬ IsInt (fl (fl g.totalBalance + newClient.balance))
  | .addUpdated data => ¬ IsInt (fl (fl g.totalBalance + data.balance))
  | _ => False

section

variable {fl} {grow} {g : Guarded}

theorem intOf_eq_none {n : ℤ} : intOf n = none ↔ ¬ IsInt n := by
  unfold intOf
  split <;> simp_all

/-- A write is undefined exactly through a stale iterator. -/
theorem Guarded.write_vec_eq_none {it : Iter} {f : ClientDTO → ClientDTO} :
    g.vec.write it f = none ↔ ¬ g.Live it := by
  have hwrite : g.vec.write it f = if g.Live it then _ else none := rfl
  rw [hwrite]
  split <;> simp_all

/-- A statement is undefined exactly if it writes through a stale iterator or makes an `int` overflow. -/
theorem Guarded.write_eq_none {frame : Frame} :
    g.write fl grow frame = none ↔ g.Stale frame ∨ g.Overflows fl frame := by
  have htotal : ∀ total balance, addToTotal fl total balance = none ↔ ¬ IsInt (fl (fl total + balance)) :=
    fun _ _ => intOf_eq_none
  cases frame with
  | validate | readRole | readDest | seekClient | seekUpdated | seekSource | seekDest =>
    simp only [Guarded.write, Guarded.Stale, Guarded.Overflows]
    repeat' split
    all_goals simp
  | _ =>
    simp [Guarded.write, Guarded.Stale, Guarded.Overflows, intOf_eq_none, htotal, Guarded.write_vec_eq_none]

/-- A statement that an `int` holds the result of, and the rest of its section. -/
theorem completes_intOf {frame : Frame} {n : ℤ} {next : ℤ → Guarded × Frame} {t : Guarded} {r : GuardedReply}
    (hwrite : g.write fl grow frame = (intOf n).map next) (hmore : (sections fl grow).reply frame = none)
    (hrest : (sections fl grow).Completes false (next n).1 (next n).2 t r) :
    (sections fl grow).Completes false g frame t r := by
  by_cases hfits : IsInt n
  · refine .next ?_ hmore hrest
    rw [Code.exec, if_neg (by simp)]
    exact hwrite.trans (by simp [intOf, hfits])
  · refine .undefined ?_ hmore
    rw [Code.exec, if_neg (by simp)]
    exact hwrite.trans (by simp [intOf, hfits])

variable (fl) (grow) in
/-- The packet that the section of `processTransaction` puts together is the one that is propagated. -/
theorem Guarded.write_readDest (g : Guarded) (r : RequestLocals) {status : TransactionStatus} (balance : ℤ)
    (hpropagates : status = .success ∧ r.currentRole = .primary) :
    g.write fl grow (.readDest r status balance g.transactionHistory.getLast? g.clients[g.findClient r.sourceIp]?) =
      some (g, .readLastReq r status balance
        (((g.server r.currentRole).propagateSuccess r.sourceIp r.destIp status).map Send.packet)) := by
  have hsends : (g.server r.currentRole).propagateSuccess r.sourceIp r.destIp status =
      match g.transactionHistory.getLast?, g.clients[g.findClient r.sourceIp]?, g.clients[g.findClient r.destIp]? with
      | some newTx, some source, some dest => (g.server r.currentRole).propagateTransaction newTx source dest
      | _, _, _ => [] := if_pos hpropagates
  rw [hsends]
  cases g.transactionHistory.getLast? with
  | none => rfl
  | some newTx =>
    cases hsource : g.clients[g.findClient r.sourceIp]? with
    | none => rfl
    | some source =>
      simp only [Guarded.write]
      cases g.clients[g.findClient r.destIp]? with
      | none => rfl
      | some dest => rfl

/-- The section of `processTransaction` from the balance on. -/
theorem completes_answer (r : RequestLocals) (sourceIt : ℕ) (status : TransactionStatus) :
    (sections fl grow).Completes false g (.readBalance r sourceIt status) g
      (.answer ⟨status, g.balanceAt sourceIt, g.lastRequestOf r.sourceIp⟩
        (((g.server r.currentRole).propagateSuccess r.sourceIp r.destIp status).map Send.packet)) := by
  refine .next rfl rfl ?_
  by_cases hpropagates : status = .success ∧ r.currentRole = .primary
  · refine .next (if_pos hpropagates) rfl (.next rfl rfl (.next rfl rfl ?_))
    exact .next (g.write_readDest fl grow r _ hpropagates) rfl (.next rfl rfl (.done rfl))
  · have hnothing : (g.server r.currentRole).propagateSuccess r.sourceIp r.destIp status = [] := if_neg hpropagates
    rw [hnothing]
    exact .next (if_neg hpropagates) rfl (.next rfl rfl (.done rfl))

/-- The section of `processTransaction` does what the operation is to do. -/
theorem completes_processTransaction (currentRole : ServerRole) (sourceIp : IpString) (destAddr : InAddr)
    (value seqn : ℤ) :
    (sections fl grow).Completes false g
      (GuardedOp.processTransaction currentRole sourceIp destAddr value seqn).start
      (g.perform fl grow (.processTransaction currentRole sourceIp destAddr value seqn)).1
      (g.perform fl grow (.processTransaction currentRole sourceIp destAddr value seqn)).2 := by
  refine .next rfl rfl (.next rfl rfl ?_)
  by_cases haccept :
      g.validateTransaction fl (g.findClient sourceIp) (g.findClient (inetNtop destAddr)) value seqn = .success
  · have hlogic : (g.server currentRole).handleTransactionLogic fl sourceIp (inetNtop destAddr) value seqn = _ :=
      if_pos haccept
    simp only [Guarded.perform, hlogic]
    refine .next (if_pos haccept) rfl (.next rfl rfl (.next rfl rfl (.next rfl rfl ?_)))
    refine completes_intOf rfl rfl (completes_intOf rfl rfl (.next rfl rfl (.next rfl rfl (.next rfl rfl ?_))))
    exact completes_answer ⟨currentRole, sourceIp, inetNtop destAddr, value, seqn⟩ _ _
  · by_cases hduplicate :
      g.validateTransaction fl (g.findClient sourceIp) (g.findClient (inetNtop destAddr)) value seqn =
        .errorDuplicateRequest ∨
      g.validateTransaction fl (g.findClient sourceIp) (g.findClient (inetNtop destAddr)) value seqn =
        .errorOutOfSequence
    · have hlogic : (g.server currentRole).handleTransactionLogic fl sourceIp (inetNtop destAddr) value seqn = _ :=
        (if_neg haccept).trans (if_pos hduplicate)
      simp only [Guarded.perform, hlogic]
      refine .next ((if_neg haccept).trans (if_pos hduplicate)) rfl (.next rfl rfl ?_)
      exact completes_answer ⟨currentRole, sourceIp, inetNtop destAddr, value, seqn⟩ _ _
    · have hlogic : (g.server currentRole).handleTransactionLogic fl sourceIp (inetNtop destAddr) value seqn = _ :=
        (if_neg haccept).trans (if_neg hduplicate)
      simp only [Guarded.perform, hlogic]
      refine .next ((if_neg haccept).trans (if_neg hduplicate)) rfl ?_
      exact completes_answer ⟨currentRole, sourceIp, inetNtop destAddr, value, seqn⟩ _ _

/-- `clients` where they are. -/
@[simp] theorem Guarded.spareOf_vec (g : Guarded) : spareOf g.vec = g.spare := Nat.add_sub_cancel_left ..

/-- Other `clients` are found again. -/
@[simp] theorem Guarded.withVec_vec (g : Guarded) (clients : Vec ClientDTO) : (g.withVec clients).vec = clients := by
  refine Vec.ext rfl ?_ rfl
  exact Nat.add_sub_cancel' clients.fits

/-- Only the last `clients` count. -/
@[simp] theorem Guarded.withVec_withVec (g : Guarded) (v w : Vec ClientDTO) :
    (g.withVec v).withVec w = g.withVec w := rfl

theorem Guarded.withVec_self (g : Guarded) : g.withVec g.vec = g := by
  rw [Guarded.withVec, Guarded.spareOf_vec]
  rfl

/-- An insertion is one into the vector. -/
theorem Guarded.emplaceBack_eq (g : Guarded) (client : ClientDTO) :
    g.emplaceBack grow client = g.withVec (g.vec.emplaceBack grow client) := by
  rw [Guarded.emplaceBack, Guarded.withVec, emplaceBack_elems]
  rfl

/-- Where `clients` are after a search and perhaps an insertion. -/
theorem findOrEmplace_of_missing {clientIp : IpString} (hnew : g.findClient clientIp = g.clients.length)
    (client : ClientDTO) :
    (g.vec.findOrEmplace ClientDTO.address grow clientIp client).1 = g.vec.emplaceBack grow client := by
  have hmiss : clientIp ∉ g.vec.elems.map ClientDTO.address := (KeyedList.position_eq_length _).mp hnew
  rw [findOrEmplace_of_not_mem hmiss]

theorem findOrEmplace_of_known {clientIp : IpString} (hknown : g.findClient clientIp ≠ g.clients.length)
    (client : ClientDTO) : (g.vec.findOrEmplace ClientDTO.address grow clientIp client).1 = g.vec := by
  have hmem : clientIp ∈ g.vec.elems.map ClientDTO.address :=
    not_not.mp fun hmiss => hknown ((KeyedList.position_eq_length _).mpr hmiss)
  rw [findOrEmplace_of_mem hmem]

/-- The section of `addClient` does what the operation is to do. -/
theorem completes_addClient (currentRole : ServerRole) (clientIp : IpString) :
    (sections fl grow).Completes false g (GuardedOp.addClient currentRole clientIp).start
      (g.perform fl grow (.addClient currentRole clientIp)).1
      (g.perform fl grow (.addClient currentRole clientIp)).2 := by
  by_cases hnew : g.findClient clientIp = g.clients.length
  · have hadded : (g.server currentRole).wasClientAdded fl clientIp = _ := if_pos hnew
    simp only [Guarded.perform, hadded, findOrEmplace_of_missing hnew]
    refine .next (if_pos hnew) rfl (.next rfl rfl (completes_intOf rfl rfl (.next rfl rfl (.done ?_))))
    cases currentRole <;> rfl
  · have hknown : (g.server currentRole).wasClientAdded fl clientIp = _ := if_neg hnew
    simp only [Guarded.perform, hknown, findOrEmplace_of_known hnew, Guarded.afterIn, Guarded.spareOf_vec]
    exact .next (if_neg hnew) rfl (.done rfl)

/-- The section of `handleClientUpdate` does what the operation is to do. -/
theorem completes_handleClientUpdate (data : ClientUpdateData) :
    (sections fl grow).Completes false g (GuardedOp.handleClientUpdate data).start
      (g.perform fl grow (.handleClientUpdate data)).1 (g.perform fl grow (.handleClientUpdate data)).2 := by
  by_cases hnew : g.findClient data.ip = g.clients.length
  · have hadded : (g.server .backup).handleClientUpdate fl data = _ := if_pos hnew
    simp only [Guarded.perform, hadded, findOrEmplace_of_missing hnew]
    exact .next (if_pos hnew) rfl (.next rfl rfl (completes_intOf rfl rfl (.done rfl)))
  · have hknown : (g.server .backup).handleClientUpdate fl data = _ := if_neg hnew
    simp only [Guarded.perform, hknown, findOrEmplace_of_known hnew, Guarded.afterIn, Guarded.spareOf_vec]
    exact .next (if_neg hnew) rfl (.done rfl)

/-- The section of `handleHistoryEntry` does what the operation is to do. -/
theorem completes_handleHistoryEntry (historyEntry : Transaction) :
    (sections fl grow).Completes false g (GuardedOp.handleHistoryEntry historyEntry).start
      (g.perform fl grow (.handleHistoryEntry historyEntry)).1
      (g.perform fl grow (.handleHistoryEntry historyEntry)).2 :=
  .next rfl rfl (completes_intOf rfl rfl (completes_intOf rfl rfl (.done rfl)))

/-- The guarded part after a state update, whatever its `clients` are then. -/
def Guarded.stateUpdated (g : Guarded) (data : StateUpdateData) (clients : Vec ClientDTO) : Guarded :=
  { g.withVec clients with
    transactionHistory := g.transactionHistory ++ [data.transaction]
    numTransactions := g.numTransactions + 1
    totalTransferred := g.totalTransferred + data.transaction.value
    lastLogInfo :=
      { type := .success
        transactionId := data.transaction.id
        value := data.transaction.value
        sourceIp := data.sourceIp
        destIp := data.destIp } }

/-- The writes of a state update through two iterators, without a result if one is stale. -/
def writeThrough (clients : Vec ClientDTO) (sourceIt destIt : Iter) (data : StateUpdateData) :
    Option (Vec ClientDTO) := do
  let sourceSet ← clients.write sourceIt fun c => c.setBalance data.sourceBalance
  let destSet ← sourceSet.write destIt fun c => c.setBalance data.destBalance
  destSet.write sourceIt fun c => c.setLastRequest data.transaction.clientSeqn

/-- The writes go to the buffer that is there. -/
theorem writeThrough_some {v written : Vec ClientDTO} {sourceIt destIt : Iter} {data : StateUpdateData}
    (h : writeThrough v sourceIt destIt data = some written) :
    spareOf written = spareOf v ∧ written.buffer = v.buffer := by
  obtain ⟨sourceSet, hsource, hrest⟩ := Option.bind_eq_some_iff.mp h
  obtain ⟨destSet, hdest, hlast⟩ := Option.bind_eq_some_iff.mp hrest
  obtain ⟨helems, hcapacity, hbuffer⟩ := write_some hsource
  obtain ⟨helems', hcapacity', hbuffer'⟩ := write_some hdest
  obtain ⟨helems'', hcapacity'', hbuffer''⟩ := write_some hlast
  refine ⟨?_, hbuffer''.trans (hbuffer'.trans hbuffer)⟩
  rw [spareOf, spareOf, hcapacity'', hcapacity', hcapacity, helems'', helems', helems]
  simp only [List.length_modify]

/-- The section of `handleStateUpdate` once it has both iterators. -/
theorem completes_setSource {v : Vec ClientDTO} {data : StateUpdateData} {sourceIt destIt : Iter} {t : Guarded}
    {r : GuardedReply}
    (hwritten : ∀ clients ∈ writeThrough v sourceIt destIt data, t = g.stateUpdated data clients ∧ r = .handled true) :
    (sections fl grow).Completes false (g.withVec v) (.setSource data sourceIt destIt) t r := by
  cases hsource : v.write sourceIt fun c => c.setBalance data.sourceBalance with
  | none =>
    refine .undefined ?_ rfl
    simp [Code.exec, sections, Guarded.write, hsource]
  | some sourceSet =>
    have hset : (sections fl grow).exec false (g.withVec v) (.setSource data sourceIt destIt) =
        some (g.withVec sourceSet, .setDest data sourceIt destIt) := by
      simp [Code.exec, sections, Guarded.write, hsource]
    refine .next hset rfl ?_
    cases hdest : sourceSet.write destIt fun c => c.setBalance data.destBalance with
    | none =>
      refine .undefined ?_ rfl
      simp [Code.exec, sections, Guarded.write, hdest]
    | some destSet =>
      have hset : (sections fl grow).exec false (g.withVec sourceSet) (.setDest data sourceIt destIt) =
          some (g.withVec destSet, .setLast data sourceIt) := by
        simp [Code.exec, sections, Guarded.write, hdest]
      refine .next hset rfl ?_
      cases hlast : destSet.write sourceIt fun c => c.setLastRequest data.transaction.clientSeqn with
      | none =>
        refine .undefined ?_ rfl
        simp [Code.exec, sections, Guarded.write, hlast]
      | some written =>
        obtain ⟨rfl, rfl⟩ := hwritten written (by simp [writeThrough, hsource, hdest, hlast])
        have hset : (sections fl grow).exec false (g.withVec destSet) (.setLast data sourceIt) =
            some (g.withVec written, .recordUpdate data) := by
          simp [Code.exec, sections, Guarded.write, hlast]
        refine .next hset rfl ?_
        exact .next rfl rfl (completes_intOf rfl rfl (completes_intOf rfl rfl (.next rfl rfl (.done rfl))))

/-- A search of `handleStateUpdate` for its destination. -/
theorem completes_seekDest {v : Vec ClientDTO} {data : StateUpdateData} {sourceIt : Iter} {t : Guarded}
    {r : GuardedReply}
    (hrest : (sections fl grow).Completes false
      (g.withVec (v.findOrEmplace ClientDTO.address grow data.destIp (.new data.destIp)).1)
      (.setSource data sourceIt (v.findOrEmplace ClientDTO.address grow data.destIp (.new data.destIp)).2) t r) :
    (sections fl grow).Completes false (g.withVec v) (.seekDest data sourceIt) t r := by
  unfold Vec.findOrEmplace at hrest
  split at hrest
  · rename_i hmiss
    have hseek : (sections fl grow).exec false (g.withVec v) (.seekDest data sourceIt) =
        some (g.withVec v, .emplaceDest data sourceIt) := by
      simp [Code.exec, sections, Guarded.write, hmiss]
    refine .next hseek rfl (.next rfl rfl (.next rfl rfl ?_))
    rw [Guarded.emplaceBack_eq, Guarded.withVec_vec, Guarded.withVec_withVec, Guarded.withVec_vec]
    exact hrest
  · rename_i hfound
    refine .next ?_ rfl hrest
    simp [Code.exec, sections, Guarded.write, hfound]

/-- A search of `handleStateUpdate` for its source. -/
theorem completes_seekSource {v : Vec ClientDTO} {data : StateUpdateData} {t : Guarded} {r : GuardedReply}
    (hrest : (sections fl grow).Completes false
      (g.withVec (v.findOrEmplace ClientDTO.address grow data.sourceIp (.new data.sourceIp)).1)
      (.seekDest data (v.findOrEmplace ClientDTO.address grow data.sourceIp (.new data.sourceIp)).2) t r) :
    (sections fl grow).Completes false (g.withVec v) (.seekSource data) t r := by
  unfold Vec.findOrEmplace at hrest
  split at hrest
  · rename_i hmiss
    have hseek : (sections fl grow).exec false (g.withVec v) (.seekSource data) =
        some (g.withVec v, .emplaceSource data) := by
      simp [Code.exec, sections, Guarded.write, hmiss]
    refine .next hseek rfl (.next rfl rfl (.next rfl rfl ?_))
    rw [Guarded.emplaceBack_eq, Guarded.withVec_vec, Guarded.withVec_withVec, Guarded.withVec_vec]
    exact hrest
  · rename_i hfound
    refine .next ?_ rfl hrest
    simp [Code.exec, sections, Guarded.write, hfound]

/-- The section of `handleStateUpdate` does what the operation is to do, unless an iterator is stale. -/
theorem completes_handleStateUpdate (data : StateUpdateData) :
    (sections fl grow).Completes false g (GuardedOp.handleStateUpdate data).start
      (g.perform fl grow (.handleStateUpdate data)).1 (g.perform fl grow (.handleStateUpdate data)).2 := by
  suffices hsection : (sections fl grow).Completes false (g.withVec g.vec) (.seekSource data)
      (g.perform fl grow (.handleStateUpdate data)).1 (g.perform fl grow (.handleStateUpdate data)).2 by
    rwa [Guarded.withVec_self] at hsection
  refine completes_seekSource (completes_seekDest (completes_setSource fun clients hclients => ?_))
  obtain ⟨hspare, hbuffer⟩ := writeThrough_some hclients
  have hrun : stateUpdateClients grow g.vec data = some clients := hclients
  have hcases := stateUpdateClients_cases grow g.vec data
  have hiff : DestFits grow g.vec data ↔ SecondInsertionFits grow (g.server .backup) g.spare data :=
    destFits_iff grow rfl rfl data
  rw [hrun, hiff] at hcases
  have hfits : SecondInsertionFits grow (g.server .backup) g.spare data := by
    by_contra hmoves
    have hnone := hcases.2 hmoves
    contradiction
  have helems : clients.elems = receiveRecords g.clients data := Option.some.inj (hcases.1 hfits)
  simp only [Guarded.perform, Server.handleStateUpdateThrough_of_fits hfits, Guarded.afterIn, Guarded.stateUpdated,
    Guarded.withVec, hspare, hbuffer, helems]
  exact ⟨rfl, rfl⟩

/-- The loop of `printClients` from a row on, with the rows before it printed. -/
theorem completes_printRow (n i : ℕ) (hleft : i + n = g.clients.length) :
    (sections fl grow).Completes true g (.printRow i (g.clients.take i)) g (.rows g.clients) := by
  induction n generalizing i with
  | zero =>
    have hend : g.clients[i]? = none := List.getElem?_eq_none (by omega)
    have hall : g.clients.take i = g.clients := List.take_of_length_le (by omega)
    have hexec : (sections fl grow).exec true g (.printRow i (g.clients.take i)) =
        some (g, .done (.rows g.clients)) := by
      simp only [Code.exec, sections, Guarded.read, hend, hall, if_true]
    exact .next hexec rfl (.done rfl)
  | succ n ih =>
    have hlt : i < g.clients.length := by omega
    have hrow : g.clients[i]? = some g.clients[i] := List.getElem?_eq_getElem hlt
    have hexec : (sections fl grow).exec true g (.printRow i (g.clients.take i)) =
        some (g, .printRow (i + 1) (g.clients.take (i + 1))) := by
      simp only [Code.exec, sections, Guarded.read, hrow, if_true, List.take_add_one, Option.toList_some]
    exact .next hexec rfl (ih (i + 1) (by omega))

/-- The section of `ServerInterface::run` does what the operation is to do. -/
theorem completes_run :
    (sections fl grow).Completes true g GuardedOp.run.start (g.perform fl grow .run).1 (g.perform fl grow .run).2 := by
  have hread : ∀ type, g.lastLogInfo.type = type → (sections fl grow).exec true g .readLog = some (g, match type with
      | .success => .readLast
      | .duplicate => .readTotals (.inr g.lastLogInfo)
      | .none => .done (.line none)) := by
    rintro type rfl
    rfl
  have hperform : ∀ type, g.lastLogInfo.type = type → g.perform fl grow .run = (g, .line (match type with
      | .success => some (.requisition (g.server .primary).getLastTransaction g.numTransactions g.totalTransferred
        g.totalBalance)
      | .duplicate => some (.duplicated g.lastLogInfo g.numTransactions g.totalTransferred g.totalBalance)
      | .none => none)) := by
    rintro type rfl
    rfl
  cases htype : g.lastLogInfo.type with
  | success =>
    rw [hperform _ htype]
    exact .next (hread _ htype) rfl (.next rfl rfl (.next rfl rfl (.done rfl)))
  | duplicate =>
    rw [hperform _ htype]
    exact .next (hread _ htype) rfl (.next rfl rfl (.done rfl))
  | none =>
    rw [hperform _ htype]
    exact .next (hread _ htype) rfl (.done rfl)

variable (fl) (grow) in
/-- Every section does what its operation is to do. -/
theorem sections_implement : (sections fl grow).Implements (Guarded.perform fl grow) := by
  rintro g op
  cases op with
  | processTransaction currentRole sourceIp destAddr value seqn => exact completes_processTransaction _ _ _ _ _
  | addClient currentRole clientIp => exact completes_addClient _ _
  | handleClientUpdate data => exact completes_handleClientUpdate _
  | handleStateUpdate data => exact completes_handleStateUpdate _
  | handleHistoryEntry historyEntry => exact completes_handleHistoryEntry _
  | registerBackup => exact .next rfl rfl (.next rfl rfl (.done rfl))
  | printClients => exact completes_printRow g.clients.length 0 (Nat.zero_add _)
  | run => exact completes_run

end

/-- In every run of any number of threads, statement by statement under the reader-writer lock, with
any waits, spurious wakeups and overtaking, up to a write through a stale iterator or an `int` that
overflows: there is an order of the operations in which a server that does one at a time gives the
replies of the run, printouts and snapshots included, and in which an operation that returned
before another was called comes first; while no writer holds the lock the guarded part is the one
this order leads to. -/
theorem sections_linearizable {g : Guarded} {o : Object Guarded GuardedOp GuardedReply Frame}
    (h : Reachable (Object.step (sections fl grow)) Always (Object.Initial g) o) :
    ∃ done base, Linearizes (Guarded.perform fl grow) g o.history done base ∧
      (o.lock.writerActive = false → o.data = base) :=
  linearizable (sections_implement fl grow) h

/-- A thread serves an operation whose section has some number of statements. -/
def serving (i : ℕ) (op : GuardedOp) (statements : ℕ) : List (ObjectEvent GuardedOp) :=
  [.call i op] ++ List.replicate statements (.work i) ++ [.leave i none, .finish i]

/-- Between the debit and the credit of a payment the table and the log are asked for, and before the
table is complete a backup registers. -/
def tableDuringPayment : List (ObjectEvent GuardedOp) :=
  serving 0 (.addClient .primary (inetNtop (testHost 21).sinAddr)) 4 ++
    serving 0 (.addClient .primary (inetNtop (testHost 22).sinAddr)) 4 ++
    [.call 1 (.processTransaction .primary (inetNtop (testHost 21).sinAddr) (testHost 22).sinAddr 10 1)] ++
    List.replicate 4 (.work 1) ++ [.call 2 .printClients, .call 0 .run, .spurious 2, .recheck 2] ++
    List.replicate 13 (.work 1) ++ [.leave 1 none, .recheck 2, .work 2, .recheck 0, .finish 1, .call 1 .registerBackup] ++
    List.replicate 3 (.work 0) ++ List.replicate 2 (.work 2) ++ [.leave 2 none, .leave 0 (some 1), .recheck 1] ++
    List.replicate 2 (.work 1) ++ [.leave 1 none, .finish 2, .finish 0, .finish 1]

/-- Where the threads start. -/
def threeThreads : Object Guarded GuardedOp GuardedReply Frame where
  lock := { threads := List.replicate 3 ⟨.outside, .idle⟩ }
  data := {}

/-- The operations that overlapped, and an update of both clients after them, have an order. -/
theorem sections_linearizable_session :
    ∃ o : Object Guarded GuardedOp GuardedReply Frame,
      (o.calls = 7 ∧ o.data.transactionHistory.length = 2) ∧
      ∃ done base, Linearizes (Guarded.perform singlePrecision .doubling) {} o.history done base ∧
        (o.lock.writerActive = false → o.data = base) := by
  obtain ⟨o, hreach, htest⟩ := exists_reachable_of_replay (Object.step (sections singlePrecision .doubling)) Always
    (Object.Initial {}) (tableDuringPayment ++ serving 0 (.handleStateUpdate firstTransferUpdate) 9)
    (fun o => decide (o.calls = 7 ∧ o.data.transactionHistory.length = 2))
    (show Object.Initial {} threeThreads from ⟨3, rfl⟩) (by decide +kernel)
  exact ⟨o, of_decide_eq_true htest, sections_linearizable singlePrecision .doubling hreach⟩

end BankReplica
