import BankReplica.State

/-!
# Roles, elections and announcements

The handlers that move a server between `backup` and `primary`. `startElection` is cut
where the receive loop can act between its writes: raising `election_in_progress`,
clearing `election_lost`, the `ELECTION` broadcast, and closing the window.
-/

namespace BankReplica

/-- `BROADCAST_ADDR` at the servers' port. -/
def broadcastAddr (port : UInt16) : SockAddr := ⟨⟨255, 255, 255, 255⟩, port⟩

/-- `Server::initBackup`, up to the start of the heartbeat monitor. -/
def Server.initBackup (s : Server) (primaryIp : InAddr) : Server × List Send :=
  let primaryServerAddr : SockAddr := ⟨primaryIp, s.port⟩
  ({ s with currentRole := .backup, primaryServerAddr := some primaryServerAddr },
    [⟨primaryServerAddr, .registerBackup⟩])

/-- `Server::initPrimary`, up to the start of the delayed election thread. -/
def Server.initPrimary (s : Server) : Server := { s with currentRole := .backup }

/-- `Server::handleHeartbeatPacket`. -/
def Server.handleHeartbeatPacket (s : Server) : Server :=
  if s.currentRole = .backup then { s with primaryAlive := true } else s

/-- `Server::sendDiscoveryAck`. -/
def Server.sendDiscoveryAck (s : Server) (clientAddr : SockAddr) : List Send :=
  if s.currentRole = .primary then [⟨clientAddr, .discoveryAck⟩] else []

/-- The role change of `Server::promoteToPrimary`, and whether it was made. -/
def Server.promoteToPrimary (s : Server) : Server × Bool :=
  if s.currentRole = .backup then
    ({ s with currentRole := .primary, backupServers := [] }, true)
  else (s, false)

/-- `Server::announceNewPrimary`. -/
def Server.announceNewPrimary (s : Server) : Send :=
  ⟨broadcastAddr s.port, .newPrimaryAnnouncement s.serverId⟩

/-- The first write of `Server::startElection`. -/
def Server.raiseElection (s : Server) : Server := { s with electionInProgress := true }

/-- The second write of `Server::startElection`. -/
def Server.clearElectionLost (s : Server) : Server := { s with electionLost := false }

/-- The broadcast of `Server::startElection`. -/
def Server.broadcastElection (s : Server) : Send :=
  ⟨broadcastAddr s.port, .election s.serverId⟩

/-- The end of the election window. -/
def Server.closeElection (s : Server) : Server := { s with electionInProgress := false }

/-- `Server::handleElectionPacket`. -/
def Server.handleElectionPacket (s : Server) (senderId : Word) (senderAddr : SockAddr) :
    Server × List Send :=
  if senderId > s.serverId then
    (if s.electionInProgress then { s with electionLost := true } else s, [])
  else (s, [⟨senderAddr, .electionAnswer s.serverId⟩])

/-- `Server::handleElectionAnswerPacket`. -/
def Server.handleElectionAnswerPacket (s : Server) (senderId : Word) : Server :=
  if s.electionInProgress ∧ senderId > s.serverId then { s with electionLost := true } else s

/-- `Server::handleNewPrimaryAnnouncementPacket`. -/
def Server.handleNewPrimaryAnnouncementPacket (s : Server) (newLeaderId : Word)
    (senderAddr : SockAddr) : Server × List Send :=
  let lost : Server := if s.electionInProgress then { s with electionLost := true } else s
  let alive : Server := if lost.currentRole = .backup then { lost with primaryAlive := true } else lost
  if newLeaderId ≠ s.serverId then
    ({ alive with
        currentRole := .backup
        backupServers := []
        primaryServerAddr := some senderAddr },
      [⟨senderAddr, .registerBackup⟩])
  else (alive, [])

/-- An announcement never touches the ledger. -/
@[simp] theorem Server.handleNewPrimaryAnnouncementPacket_toLedger (s : Server) (newLeaderId : Word)
    (senderAddr : SockAddr) :
    (s.handleNewPrimaryAnnouncementPacket newLeaderId senderAddr).1.toLedger = s.toLedger := by
  simp only [Server.handleNewPrimaryAnnouncementPacket]
  split_ifs <;> rfl

/-- Another server's announcement makes the receiver a backup, whatever it was. -/
theorem Server.handleNewPrimaryAnnouncementPacket_other {s : Server} {newLeaderId : Word}
    (h : newLeaderId ≠ s.serverId) (senderAddr : SockAddr) :
    (s.handleNewPrimaryAnnouncementPacket newLeaderId senderAddr).1.currentRole = .backup ∧
      (s.handleNewPrimaryAnnouncementPacket newLeaderId senderAddr).2 =
        [⟨senderAddr, .registerBackup⟩] := by
  simp [Server.handleNewPrimaryAnnouncementPacket, h]

/-- The role change keeps the ledger. -/
@[simp] theorem Server.promoteToPrimary_toLedger (s : Server) :
    s.promoteToPrimary.1.toLedger = s.toLedger := by
  unfold Server.promoteToPrimary
  split <;> rfl

/-! ## Handlers that only steer elections -/

/-- Two states of a server with the same ledger, role and listed backups. -/
structure Server.SameCore (s t : Server) : Prop where
  ledger : t.toLedger = s.toLedger
  role : t.currentRole = s.currentRole
  backups : t.backupServers = s.backupServers

theorem Server.SameCore.refl (s : Server) : s.SameCore s := ⟨rfl, rfl, rfl⟩

/-- A heartbeat only marks the primary alive. -/
theorem Server.handleHeartbeatPacket_sameCore (s : Server) : s.SameCore s.handleHeartbeatPacket := by
  unfold Server.handleHeartbeatPacket
  split <;> exact ⟨rfl, rfl, rfl⟩

/-- An `ELECTION` packet can only make the receiver lose its own election. -/
theorem Server.handleElectionPacket_sameCore (s : Server) (senderId : Word) (senderAddr : SockAddr) :
    s.SameCore (s.handleElectionPacket senderId senderAddr).1 := by
  simp only [Server.handleElectionPacket]
  split_ifs <;> exact ⟨rfl, rfl, rfl⟩

/-- An `ELECTION_ANSWER` packet can only make the receiver lose its own election. -/
theorem Server.handleElectionAnswerPacket_sameCore (s : Server) (senderId : Word) :
    s.SameCore (s.handleElectionAnswerPacket senderId) := by
  unfold Server.handleElectionAnswerPacket
  split <;> exact ⟨rfl, rfl, rfl⟩

/-- A server's own announcement demotes nobody. -/
theorem Server.handleNewPrimaryAnnouncementPacket_own (s : Server) (senderAddr : SockAddr) :
    s.SameCore (s.handleNewPrimaryAnnouncementPacket s.serverId senderAddr).1 := by
  simp only [Server.handleNewPrimaryAnnouncementPacket, ne_eq, not_true_eq_false, if_false]
  split_ifs <;> exact ⟨rfl, rfl, rfl⟩

end BankReplica
