import BankReplica.Calls
import BankReplica.Roles

/-!
# A server process: receive loop and detached threads

The receive loop handles one packet at a time; request threads, election threads,
heartbeat monitors and heartbeat senders run beside it and share the server's state.
Each step below is one section under `writer_lock`, or one write or one send outside it.
A request thread that has executed and not yet propagated holds the lock, so no other
section under the lock can run meanwhile; an announcement is handled without the lock.
-/

namespace BankReplica

variable (fl : FloatRounding)

/-- What a `SUCCESS` acknowledgement stands for: the transaction that was logged, and the
backups listed when it was. -/
structure Receipt where
  transaction : Transaction
  listed : List SockAddr
deriving DecidableEq

/-- A detached thread, by where it stands. -/
inductive Thread
  /-- Spawned for a request, before `processTransaction`. -/
  | request (req : ReqData) (clientAddr : SockAddr)
  /-- In `processTransaction`, holding the lock, before the role is read. -/
  | processing (req : ReqData) (clientAddr : SockAddr) (status : TransactionStatus) (balance : ℤ)
      (receipt : Option Receipt)
  /-- After `processTransaction`, before the acknowledgement is sent. -/
  | replying (clientAddr : SockAddr) (ack : AckData) (receipt : Option Receipt)
  /-- In the delay of `initPrimary`. -/
  | electionDelay
  /-- In `startElection`, after `election_in_progress` was set. -/
  | electionRaised
  /-- In `startElection`, after `election_lost` was cleared. -/
  | electionCleared
  /-- In the sleep of `startElection`. -/
  | electionWindow
  /-- In `startElection`, after `election_in_progress` was cleared. -/
  | electionClosed
  /-- At the call of `promoteToPrimary`. -/
  | promoting
  /-- At the call of `announceNewPrimary`. -/
  | announcing
  /-- At the head of the loop of `startHeartbeatMonitor`. -/
  | monitorHead
  /-- Waiting for `primary_alive` in `startHeartbeatMonitor`. -/
  | monitorWaiting
  /-- At the head of the loop of `startHeartbeatSender`. -/
  | heartbeatSender
deriving DecidableEq

/-- Where the thread of `Server::init` stands. -/
inductive Loop
  /-- Before the socket is bound. -/
  | off
  /-- In `run_discovery_service_server`. -/
  | discovering
  /-- At `receivePacket`. -/
  | receiving
  /-- In an update handler, before its section under the lock. -/
  | updating (packet : Packet)
  /-- In `registerBackup`, after its section under the lock. -/
  | registering (backupAddr : SockAddr) (unsent : List Packet)
deriving DecidableEq

/-- A server process, the `SUCCESS` acknowledgements it has sent, and the clients it has
answered with `DISCOVERY_ACK`. -/
structure Node where
  server : Server
  loop : Loop := .off
  threads : List Thread := []
  acked : List Receipt := []
  answered : List IpString := []
deriving DecidableEq

/-- The thread holds the writer lock. -/
def Thread.holdsLock : Thread → Bool
  | .processing .. => true
  | _ => false

/-- `writer_active`. -/
def Node.locked (n : Node) : Bool := n.threads.any Thread.holdsLock

/-! ## The receive loop -/

/-- `run_discovery_service_server` up to its wait: three broadcasts. -/
def Node.discover (n : Node) : Option (Node × List Send) :=
  match n.loop with
  | .off => some ({ n with loop := .discovering },
      List.replicate 3 ⟨broadcastAddr n.server.port, .serverDiscovery⟩)
  | _ => none

/-- The end of the discovery wait without an answer. -/
def Node.giveUpDiscovery (n : Node) : Option (Node × List Send) :=
  match n.loop with
  | .discovering => some
      ({ n with server := n.server.initPrimary, loop := .receiving, threads := n.threads ++ [.electionDelay] },
        [])
  | _ => none

/-- The packet types whose handler acts on a backup only. -/
def Packet.isUpdate : Packet → Bool
  | .addClientUpdate _ | .stateUpdate _ | .addHistoryEntry _ => true
  | _ => false

/-- The switch of the receive loop on a packet. -/
def Node.dispatch (n : Node) (packet : Packet) (sender : SockAddr) : Option (Node × List Send) :=
  match packet with
  | .transactionReq req =>
    if n.server.currentRole = .primary then
      some ({ n with threads := n.threads ++ [.request req sender] }, [])
    else some (n, [])
  | .discovery =>
    if n.server.currentRole ≠ .primary then some (n, [])
    else if n.locked then none
    else
      let (server, sends) := n.server.handleDiscoveryPacket fl sender
      some ({ n with server := server, answered := n.answered ++ [inetNtop sender.sinAddr] }, sends)
  | .registerBackup =>
    if n.server.currentRole ≠ .primary then some (n, [])
    else if n.locked then none
    else
      let (server, sends) := n.server.registerBackup sender
      some ({ n with server := server, loop := .registering sender (sends.map Send.packet) }, [])
  | .heartbeat => some ({ n with server := n.server.handleHeartbeatPacket }, [])
  | .serverDiscovery => some (n, n.server.sendDiscoveryAck sender)
  | .newPrimaryAnnouncement newLeaderId =>
    let (server, sends) := n.server.handleNewPrimaryAnnouncementPacket newLeaderId sender
    some ({ n with server := server }, sends)
  | .election senderId =>
    let (server, sends) := n.server.handleElectionPacket senderId sender
    some ({ n with server := server }, sends)
  | .electionAnswer senderId =>
    some ({ n with server := n.server.handleElectionAnswerPacket senderId }, [])
  | update =>
    if update.isUpdate ∧ n.server.currentRole = .backup then some ({ n with loop := .updating update }, [])
    else some (n, [])

/-- A packet arrives at the bound socket. The discovery wait drops all but an answer. -/
def Node.receive (n : Node) (packet : Packet) (sender : SockAddr) : Option (Node × List Send) :=
  match n.loop with
  | .discovering =>
    if packet = .discoveryAck then
      let (server, sends) := n.server.initBackup sender.sinAddr
      some ({ n with server := server, loop := .receiving, threads := n.threads ++ [.monitorHead] }, sends)
    else some (n, [])
  | .receiving => n.dispatch fl packet sender
  | _ => none

/-- The handlers behind the role test of the three update cases. -/
def Server.handleUpdate (s : Server) (packet : Packet) : Server :=
  match packet with
  | .addClientUpdate data => s.handleClientUpdate fl data
  | .stateUpdate data => s.handleStateUpdate data
  | .addHistoryEntry tx => s.handleHistoryEntry tx
  | _ => s

/-- The receive loop goes on in a handler it is in the middle of. -/
def Node.resume (n : Node) : Option (Node × List Send) :=
  match n.loop with
  | .updating packet =>
    if n.locked then none
    else some ({ n with server := n.server.handleUpdate fl packet, loop := .receiving }, [])
  | .registering backupAddr (packet :: rest) =>
    some ({ n with loop := .registering backupAddr rest }, [⟨backupAddr, packet⟩])
  | .registering _ [] => some ({ n with loop := .receiving }, [])
  | _ => none

/-! ## The detached threads -/

/-- The receipt of a request: the entry just logged and the backups listed. -/
def Server.receipt (s : Server) (status : TransactionStatus) : Option Receipt :=
  if status = .success then s.transactionHistory.getLast?.map fun tx => ⟨tx, s.backupServers⟩ else none

/-- What a step of a thread leaves: the server, what the thread goes on as together with any
thread it starts, its sends, and the receipt of an acknowledgement it sent. -/
structure ThreadOutcome where
  server : Server
  threads : List Thread
  sends : List Send := []
  acked : Option Receipt := none

/-- One step of a thread. -/
def Thread.step (s : Server) (locked : Bool) : Thread → Option ThreadOutcome
  | .request req clientAddr =>
    if locked then none
    else
      let (server, status, balance) := s.handleTransactionLogic fl (inetNtop clientAddr.sinAddr)
        (inetNtop req.destAddr) req.value.toInt req.seqn.toInt
      some
        { server := server
          threads := [.processing req clientAddr status balance (server.receipt status)] }
  | .processing req clientAddr status balance receipt =>
    let sourceIp := inetNtop clientAddr.sinAddr
    let reply : Reply := ⟨status, balance, s.lastRequestOf sourceIp⟩
    some
      { server := if shouldNotify status then s.notify else s
        threads := [.replying clientAddr (ackOf req.seqn.toInt reply) receipt]
        sends := s.propagateSuccess sourceIp (inetNtop req.destAddr) status }
  | .replying clientAddr ack receipt =>
    some
      { server := s
        threads := []
        sends := [⟨clientAddr, .transactionAck ack⟩]
        acked := receipt }
  | .electionDelay => some { server := s.raiseElection, threads := [.electionRaised] }
  | .electionRaised => some { server := s.clearElectionLost, threads := [.electionCleared] }
  | .electionCleared => some { server := s, threads := [.electionWindow], sends := [s.broadcastElection] }
  | .electionWindow => some { server := s.closeElection, threads := [.electionClosed] }
  | .electionClosed =>
    some { server := s, threads := if s.electionLost then [.monitorHead] else [.promoting] }
  | .promoting =>
    if locked then none
    else
      let (server, promoted) := s.promoteToPrimary
      some { server := server, threads := if promoted then [.heartbeatSender, .announcing] else [] }
  | .announcing => some { server := s, threads := [], sends := [s.announceNewPrimary] }
  | .monitorHead =>
    if s.currentRole = .backup then
      some { server := { s with primaryAlive := false }, threads := [.monitorWaiting] }
    else some { server := s, threads := [] }
  | .monitorWaiting =>
    if s.primaryAlive then some { server := s, threads := [.monitorHead] }
    else some { server := s.raiseElection, threads := [.electionRaised] }
  | .heartbeatSender =>
    if s.currentRole ≠ .primary then some { server := s, threads := [] }
    else if locked then none
    else
      some
        { server := s
          threads := [.heartbeatSender]
          sends := s.backupServers.map fun b => ⟨b, .heartbeat⟩ }

/-- A request that is served changes the ledger and the log message alone. -/
theorem Server.served_frame {s server : Server} {sourceIp destIp : IpString} {value seqn : ℤ}
    {status : TransactionStatus} {balance : ℤ}
    (h : s.handleTransactionLogic fl sourceIp destIp value seqn = (server, status, balance)) :
    ∃ ledger log, server = { s with toLedger := ledger, lastLogInfo := log } := by
  obtain ⟨ledger, log, hframe⟩ := s.handleTransactionLogic_frame fl sourceIp destIp value seqn
  rw [h] at hframe
  exact ⟨ledger, log, hframe⟩

/-- Everything one step of a thread may do, with the tests it has passed. -/
inductive Thread.Step (s : Server) (locked : Bool) : Thread → ThreadOutcome → Prop
  | request {req : ReqData} {clientAddr : SockAddr} {server : Server} {status : TransactionStatus} {balance : ℤ}
    (hfree : locked = false)
    (hserved : s.handleTransactionLogic fl (inetNtop clientAddr.sinAddr) (inetNtop req.destAddr) req.value.toInt
      req.seqn.toInt = (server, status, balance)) :
    Step s locked (.request req clientAddr)
      { server := server
        threads := [.processing req clientAddr status balance (server.receipt status)] }
  | processing {req : ReqData} {clientAddr : SockAddr} {status : TransactionStatus} {balance : ℤ}
    {receipt : Option Receipt} :
    Step s locked (.processing req clientAddr status balance receipt)
      { server := if shouldNotify status then s.notify else s
        threads := [.replying clientAddr
          (ackOf req.seqn.toInt ⟨status, balance, s.lastRequestOf (inetNtop clientAddr.sinAddr)⟩) receipt]
        sends := s.propagateSuccess (inetNtop clientAddr.sinAddr) (inetNtop req.destAddr) status }
  | replying {clientAddr : SockAddr} {ack : AckData} {receipt : Option Receipt} :
    Step s locked (.replying clientAddr ack receipt)
      { server := s
        threads := []
        sends := [⟨clientAddr, .transactionAck ack⟩]
        acked := receipt }
  | electionDelay : Step s locked .electionDelay { server := s.raiseElection, threads := [.electionRaised] }
  | electionRaised : Step s locked .electionRaised { server := s.clearElectionLost, threads := [.electionCleared] }
  | electionCleared :
    Step s locked .electionCleared { server := s, threads := [.electionWindow], sends := [s.broadcastElection] }
  | electionWindow : Step s locked .electionWindow { server := s.closeElection, threads := [.electionClosed] }
  | lost (hlost : s.electionLost = true) : Step s locked .electionClosed { server := s, threads := [.monitorHead] }
  | won (hlost : s.electionLost = false) : Step s locked .electionClosed { server := s, threads := [.promoting] }
  | promoted (hfree : locked = false) (hrole : s.currentRole = .backup) :
    Step s locked .promoting
      { server := { s with currentRole := .primary, backupServers := [] }
        threads := [.heartbeatSender, .announcing] }
  | alreadyPrimary (hfree : locked = false) (hrole : s.currentRole = .primary) :
    Step s locked .promoting { server := s, threads := [] }
  | announcing : Step s locked .announcing { server := s, threads := [], sends := [s.announceNewPrimary] }
  | monitorHead (hrole : s.currentRole = .backup) :
    Step s locked .monitorHead { server := { s with primaryAlive := false }, threads := [.monitorWaiting] }
  | monitorLeft (hrole : s.currentRole = .primary) : Step s locked .monitorHead { server := s, threads := [] }
  | heardHeartbeat (halive : s.primaryAlive = true) :
    Step s locked .monitorWaiting { server := s, threads := [.monitorHead] }
  | timedOut (halive : s.primaryAlive = false) :
    Step s locked .monitorWaiting { server := s.raiseElection, threads := [.electionRaised] }
  | heartbeats (hrole : s.currentRole = .primary) (hfree : locked = false) :
    Step s locked .heartbeatSender
      { server := s
        threads := [.heartbeatSender]
        sends := s.backupServers.map fun b => ⟨b, .heartbeat⟩ }
  | senderLeft (hrole : s.currentRole = .backup) : Step s locked .heartbeatSender { server := s, threads := [] }

/-- What one step of a thread may do. -/
theorem Thread.step_cases {s : Server} {locked : Bool} {t : Thread} {o : ThreadOutcome}
    (h : t.step fl s locked = some o) : Thread.Step fl s locked t o := by
  cases t with
  | request req clientAddr =>
    simp only [Thread.step] at h
    split at h
    · contradiction
    · obtain rfl := Option.some.inj h
      exact .request (Bool.eq_false_of_not_eq_true ‹_›) rfl
  | processing req clientAddr status balance receipt =>
    obtain rfl := Option.some.inj h
    exact .processing
  | replying clientAddr ack receipt =>
    obtain rfl := Option.some.inj h
    exact .replying
  | electionDelay =>
    obtain rfl := Option.some.inj h
    exact .electionDelay
  | electionRaised =>
    obtain rfl := Option.some.inj h
    exact .electionRaised
  | electionCleared =>
    obtain rfl := Option.some.inj h
    exact .electionCleared
  | electionWindow =>
    obtain rfl := Option.some.inj h
    exact .electionWindow
  | electionClosed =>
    obtain rfl := Option.some.inj h
    cases hlost : s.electionLost with
    | true => exact .lost hlost
    | false => exact .won hlost
  | promoting =>
    simp only [Thread.step] at h
    split at h
    · contradiction
    · rename_i hlocked
      have hfree := Bool.eq_false_of_not_eq_true hlocked
      obtain rfl := Option.some.inj h
      cases hrole : s.currentRole with
      | backup =>
        simp only [Server.promoteToPrimary, hrole, if_true]
        exact .promoted hfree hrole
      | primary =>
        rw [Server.promoteToPrimary, if_neg (by simp [hrole])]
        exact .alreadyPrimary hfree hrole
  | announcing =>
    obtain rfl := Option.some.inj h
    exact .announcing
  | monitorHead =>
    cases hrole : s.currentRole with
    | backup =>
      rw [Thread.step, if_pos hrole] at h
      obtain rfl := Option.some.inj h
      exact .monitorHead hrole
    | primary =>
      rw [Thread.step, if_neg (by simp [hrole])] at h
      obtain rfl := Option.some.inj h
      exact .monitorLeft hrole
  | monitorWaiting =>
    simp only [Thread.step] at h
    split at h <;> obtain rfl := Option.some.inj h
    · exact .heardHeartbeat ‹_›
    · exact .timedOut (Bool.eq_false_of_not_eq_true ‹_›)
  | heartbeatSender =>
    cases hrole : s.currentRole with
    | backup =>
      rw [Thread.step, if_pos (by simp [hrole])] at h
      obtain rfl := Option.some.inj h
      exact .senderLeft hrole
    | primary =>
      rw [Thread.step, if_neg (by simp [hrole])] at h
      split at h
      · contradiction
      · obtain rfl := Option.some.inj h
        exact .heartbeats hrole (Bool.eq_false_of_not_eq_true ‹_›)

/-- A step of the thread at a position. -/
def Node.runThread (n : Node) (i : ℕ) : Option (Node × List Send) := do
  let thread ← n.threads[i]?
  let outcome ← thread.step fl n.server n.locked
  some
    ({ n with
        server := outcome.server
        threads := n.threads.eraseIdx i ++ outcome.threads
        acked := n.acked ++ outcome.acked.toList },
      outcome.sends)

/-- The steps of a process that no packet causes. -/
inductive Action
  | discover
  | giveUpDiscovery
  | resume
  | runThread (i : ℕ)
deriving DecidableEq

/-- A step that no packet causes. -/
def Node.act (n : Node) : Action → Option (Node × List Send)
  | .discover => n.discover
  | .giveUpDiscovery => n.giveUpDiscovery
  | .resume => n.resume fl
  | .runThread i => n.runThread fl i

/-- The steps of a process in an environment that may send it anything. -/
inductive NodeEvent
  | receive (packet : Packet) (sender : SockAddr)
  | act (action : Action)
deriving DecidableEq

/-- One step. -/
def Node.step (n : Node) : NodeEvent → Option (Node × List Send)
  | .receive packet sender => n.receive fl packet sender
  | .act action => n.act fl action

/-- The packets that the receive loop of a server in some role heeds. -/
def Packet.heededBy (role : ServerRole) : Packet → Bool
  | .transactionReq _ | .discovery | .registerBackup => role = .primary
  | .addClientUpdate _ | .stateUpdate _ | .addHistoryEntry _ => role = .backup
  | .discoveryAck | .transactionAck _ | .stateUpdateAck => false
  | _ => true

/-- Everything one step of a process may do, with the tests it has passed. -/
inductive Node.Step (n : Node) : NodeEvent → Node → List Send → Prop
  | discover (hloop : n.loop = .off) :
    n.Step (.act .discover) { n with loop := .discovering }
      (List.replicate 3 ⟨broadcastAddr n.server.port, .serverDiscovery⟩)
  | giveUpDiscovery (hloop : n.loop = .discovering) :
    n.Step (.act .giveUpDiscovery)
      { n with server := n.server.initPrimary, loop := .receiving, threads := n.threads ++ [.electionDelay] } []
  | foundPrimary {sender : SockAddr} (hloop : n.loop = .discovering) :
    n.Step (.receive .discoveryAck sender)
      { n with
        server := (n.server.initBackup sender.sinAddr).1
        loop := .receiving
        threads := n.threads ++ [.monitorHead] }
      (n.server.initBackup sender.sinAddr).2
  | ignored {packet : Packet} {sender : SockAddr} (hloop : n.loop = .discovering) (hpacket : packet ≠ .discoveryAck) :
    n.Step (.receive packet sender) n []
  | dropped {packet : Packet} {sender : SockAddr} (hloop : n.loop = .receiving)
    (hheeded : packet.heededBy n.server.currentRole = false) : n.Step (.receive packet sender) n []
  | request {req : ReqData} {sender : SockAddr} (hloop : n.loop = .receiving)
    (hrole : n.server.currentRole = .primary) :
    n.Step (.receive (.transactionReq req) sender) { n with threads := n.threads ++ [.request req sender] } []
  | client {sender : SockAddr} (hloop : n.loop = .receiving) (hrole : n.server.currentRole = .primary)
    (hfree : n.locked = false) :
    n.Step (.receive .discovery sender)
      { n with
        server := (n.server.handleDiscoveryPacket fl sender).1
        answered := n.answered ++ [inetNtop sender.sinAddr] }
      (n.server.handleDiscoveryPacket fl sender).2
  | backup {sender : SockAddr} (hloop : n.loop = .receiving) (hrole : n.server.currentRole = .primary)
    (hfree : n.locked = false) :
    n.Step (.receive .registerBackup sender)
      { n with
        server := (n.server.registerBackup sender).1
        loop := .registering sender ((n.server.registerBackup sender).2.map Send.packet) }
      []
  | heartbeat {sender : SockAddr} (hloop : n.loop = .receiving) :
    n.Step (.receive .heartbeat sender) { n with server := n.server.handleHeartbeatPacket } []
  | serverDiscovery {sender : SockAddr} (hloop : n.loop = .receiving) :
    n.Step (.receive .serverDiscovery sender) n (n.server.sendDiscoveryAck sender)
  | announcement {newLeaderId : Word} {sender : SockAddr} (hloop : n.loop = .receiving) :
    n.Step (.receive (.newPrimaryAnnouncement newLeaderId) sender)
      { n with server := (n.server.handleNewPrimaryAnnouncementPacket newLeaderId sender).1 }
      (n.server.handleNewPrimaryAnnouncementPacket newLeaderId sender).2
  | election {senderId : Word} {sender : SockAddr} (hloop : n.loop = .receiving) :
    n.Step (.receive (.election senderId) sender)
      { n with server := (n.server.handleElectionPacket senderId sender).1 }
      (n.server.handleElectionPacket senderId sender).2
  | electionAnswer {senderId : Word} {sender : SockAddr} (hloop : n.loop = .receiving) :
    n.Step (.receive (.electionAnswer senderId) sender)
      { n with server := n.server.handleElectionAnswerPacket senderId } []
  | update {packet : Packet} {sender : SockAddr} (hloop : n.loop = .receiving) (hupdate : packet.isUpdate = true)
    (hrole : n.server.currentRole = .backup) :
    n.Step (.receive packet sender) { n with loop := .updating packet } []
  | updated {packet : Packet} (hloop : n.loop = .updating packet) (hfree : n.locked = false) :
    n.Step (.act .resume) { n with server := n.server.handleUpdate fl packet, loop := .receiving } []
  | sent {backupAddr : SockAddr} {packet : Packet} {rest : List Packet}
    (hloop : n.loop = .registering backupAddr (packet :: rest)) :
    n.Step (.act .resume) { n with loop := .registering backupAddr rest } [⟨backupAddr, packet⟩]
  | registered {backupAddr : SockAddr} (hloop : n.loop = .registering backupAddr []) :
    n.Step (.act .resume) { n with loop := .receiving } []
  | ran {i : ℕ} {t : Thread} {o : ThreadOutcome} (hget : n.threads[i]? = some t)
    (houtcome : t.step fl n.server n.locked = some o) :
    n.Step (.act (.runThread i))
      { n with
        server := o.server
        threads := n.threads.eraseIdx i ++ o.threads
        acked := n.acked ++ o.acked.toList }
      o.sends

/-- A packet that the switch of the receive loop takes. -/
theorem Node.dispatch_cases {n n' : Node} {packet : Packet} {sender : SockAddr} {sends : List Send}
    (hloop : n.loop = .receiving) (h : n.dispatch fl packet sender = some (n', sends)) :
    n.Step fl (.receive packet sender) n' sends := by
  cases packet with
  | transactionReq req =>
    simp only [Node.dispatch] at h
    split at h <;> obtain ⟨rfl, rfl⟩ := Prod.mk.inj (Option.some.inj h)
    · exact .request hloop ‹_›
    · exact .dropped hloop (decide_eq_false ‹_›)
  | discovery =>
    simp only [Node.dispatch] at h
    split_ifs at h with hrole hlocked <;> obtain ⟨rfl, rfl⟩ := Prod.mk.inj (Option.some.inj h)
    · exact .dropped hloop (decide_eq_false hrole)
    · exact .client hloop (not_not.mp hrole) (Bool.eq_false_of_not_eq_true hlocked)
  | registerBackup =>
    simp only [Node.dispatch] at h
    split_ifs at h with hrole hlocked <;> obtain ⟨rfl, rfl⟩ := Prod.mk.inj (Option.some.inj h)
    · exact .dropped hloop (decide_eq_false hrole)
    · exact .backup hloop (not_not.mp hrole) (Bool.eq_false_of_not_eq_true hlocked)
  | heartbeat =>
    obtain ⟨rfl, rfl⟩ := Prod.mk.inj (Option.some.inj h)
    exact .heartbeat hloop
  | serverDiscovery =>
    obtain ⟨rfl, rfl⟩ := Prod.mk.inj (Option.some.inj h)
    exact .serverDiscovery hloop
  | newPrimaryAnnouncement newLeaderId =>
    obtain ⟨rfl, rfl⟩ := Prod.mk.inj (Option.some.inj h)
    exact .announcement hloop
  | election senderId =>
    obtain ⟨rfl, rfl⟩ := Prod.mk.inj (Option.some.inj h)
    exact .election hloop
  | electionAnswer senderId =>
    obtain ⟨rfl, rfl⟩ := Prod.mk.inj (Option.some.inj h)
    exact .electionAnswer hloop
  | discoveryAck | transactionAck | stateUpdateAck =>
    obtain ⟨rfl, rfl⟩ := Prod.mk.inj (Option.some.inj h)
    exact .dropped hloop rfl
  | addClientUpdate | stateUpdate | addHistoryEntry =>
    simp only [Node.dispatch, Packet.isUpdate, true_and] at h
    split at h <;> obtain ⟨rfl, rfl⟩ := Prod.mk.inj (Option.some.inj h)
    · exact .update hloop rfl ‹_›
    · exact .dropped hloop (decide_eq_false ‹_›)

/-- What one step may do. -/
theorem Node.step_cases {n n' : Node} {e : NodeEvent} {sends : List Send} (h : n.step fl e = some (n', sends)) :
    n.Step fl e n' sends := by
  cases e with
  | receive packet sender =>
    simp only [Node.step, Node.receive] at h
    split at h
    · rename_i hloop
      split at h <;> obtain ⟨rfl, rfl⟩ := Prod.mk.inj (Option.some.inj h)
      · rename_i hack
        subst hack
        exact .foundPrimary hloop
      · exact .ignored hloop ‹_›
    · exact Node.dispatch_cases fl ‹_› h
    · contradiction
  | act action =>
    cases action with
    | discover =>
      simp only [Node.step, Node.act, Node.discover] at h
      split at h
      · obtain ⟨rfl, rfl⟩ := Prod.mk.inj (Option.some.inj h)
        exact .discover ‹_›
      · contradiction
    | giveUpDiscovery =>
      simp only [Node.step, Node.act, Node.giveUpDiscovery] at h
      split at h
      · obtain ⟨rfl, rfl⟩ := Prod.mk.inj (Option.some.inj h)
        exact .giveUpDiscovery ‹_›
      · contradiction
    | resume =>
      simp only [Node.step, Node.act, Node.resume] at h
      split at h
      · split at h
        · contradiction
        · obtain ⟨rfl, rfl⟩ := Prod.mk.inj (Option.some.inj h)
          exact .updated ‹_› (Bool.eq_false_of_not_eq_true ‹_›)
      · obtain ⟨rfl, rfl⟩ := Prod.mk.inj (Option.some.inj h)
        exact .sent ‹_›
      · obtain ⟨rfl, rfl⟩ := Prod.mk.inj (Option.some.inj h)
        exact .registered ‹_›
      · contradiction
    | runThread i =>
      obtain ⟨t, hget, ho⟩ := Option.bind_eq_some_iff.mp h
      obtain ⟨o, houtcome, hn⟩ := Option.bind_eq_some_iff.mp ho
      obtain ⟨rfl, rfl⟩ := Prod.mk.inj (Option.some.inj hn)
      exact .ran hget houtcome

/-- A process before `init`. -/
def Node.new (serverId : Word) (port : UInt16) : Node where
  server := Server.new serverId port

/-- Only a request thread at its start touches the ledger. -/
theorem Thread.step_toLedger {s : Server} {locked : Bool} {t : Thread} {o : ThreadOutcome}
    (h : t.step fl s locked = some o) :
    o.server.toLedger = s.toLedger ∨ ∃ req clientAddr, t = .request req clientAddr ∧
      o.server.toLedger = s.toLedger.apply fl (requestCall clientAddr.sinAddr req) := by
  cases Thread.step_cases fl h with
  | @request req clientAddr server status balance hfree hserved =>
    have hledger := s.handleTransactionLogic_toLedger fl (inetNtop clientAddr.sinAddr) (inetNtop req.destAddr)
      req.value.toInt req.seqn.toInt
    rw [hserved] at hledger
    exact .inr ⟨req, clientAddr, rfl, hledger⟩
  | processing =>
    refine .inl ?_
    simp only
    split <;> rfl
  | _ => exact .inl rfl

/-- A request that runs alone in its thread does what `handleTransactionRequest` does. -/
theorem request_thread_alone (s : Server) (req : ReqData) (clientAddr : SockAddr) :
    ∃ first second third,
      Thread.step fl s false (.request req clientAddr) = some first ∧
      first.threads.map (Thread.step fl first.server false) = [some second] ∧
      second.threads.map (Thread.step fl second.server false) = [some third] ∧
      third.threads = [] ∧ third.server = (s.handleTransactionRequest fl req clientAddr).1 ∧
      first.sends ++ second.sends ++ third.sends = (s.handleTransactionRequest fl req clientAddr).2.2 := by
  refine ⟨_, _, _, rfl, rfl, rfl, rfl, rfl, rfl⟩

end BankReplica
