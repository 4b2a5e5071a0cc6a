import BankReplica.Updates

/-!
# Steady-state replication is a lockstep simulation

A backup whose ledger equals its primary's handles the packet of each call and has the
primary's ledger again. Promotion does not touch the ledger, so a backup promoted at any
point answers as the primary would have.
-/

namespace BankReplica

variable (fl : FloatRounding)

/-- The packets a run of calls sends to one server, in sending order. -/
def Server.sentTo (s : Server) (addr : SockAddr) : List Call → List Packet
  | [] => []
  | c :: rest => packetsTo addr (s.call fl c).2 ++ (s.call fl c).1.sentTo addr rest

/-- What a server answers to the requests of a sequence of calls. -/
def Server.replies (s : Server) : List Call → List Reply
  | [] => []
  | .addClient ip :: rest => (s.addClient fl ip).1.replies rest
  | .processTransaction sourceIp destAddr value seqn :: rest =>
    let (s', reply, _) := s.processTransaction fl sourceIp destAddr value seqn
    reply :: s'.replies rest

/-- A call answers by the ledger alone. -/
theorem Server.replies_congr {s t : Server} (h : s.toLedger = t.toLedger) (calls : List Call) :
    s.replies fl calls = t.replies fl calls := by
  induction calls generalizing s t with
  | nil => rfl
  | cons c rest ih =>
    have hnext : (s.call fl c).1.toLedger = (t.call fl c).1.toLedger := by
      rw [Server.call_toLedger, Server.call_toLedger, h]
    cases c with
    | addClient ip => exact ih hnext
    | processTransaction sourceIp destAddr value seqn =>
      exact congrArg₂ List.cons (s.processTransaction_reply_congr fl h sourceIp destAddr value seqn)
        (ih hnext)

/-- A primary, and a backup it lists once, with equal ledgers. -/
structure InLockstep (addr : SockAddr) (p b : Server) : Prop where
  primary : p.currentRole = .primary
  backup : b.currentRole = .backup
  listed : p.backupServers.count addr = 1
  equal : b.toLedger = p.toLedger

/-- The packets of one call take the backup to the primary's new ledger. -/
theorem InLockstep.call {addr : SockAddr} {p b : Server} (h : InLockstep addr p b) (c : Call) :
    InLockstep addr (p.call fl c).1 (b.receiveUpdates fl (packetsTo addr (p.call fl c).2)) where
  primary := (p.call_frame fl c).1.trans h.primary
  backup := Server.receiveUpdates_role fl h.backup _
  listed := by
    rw [(p.call_frame fl c).2]
    exact h.listed
  equal := by
    rw [Server.receiveUpdates_toLedger fl h.backup, h.equal]
    rcases Server.call_sends fl h.primary c with ⟨hnone, hkeep⟩ | ⟨packet, hsends, hreceive, -⟩
    · rw [hnone, hkeep]
      rfl
    · rw [hsends, packetsTo_broadcast, h.listed, hreceive]
      rfl

/-- The packets of a run keep the two in lockstep. -/
theorem InLockstep.run {addr : SockAddr} {p b : Server} (h : InLockstep addr p b) (calls : List Call) :
    InLockstep addr (p.runCalls fl calls) (b.receiveUpdates fl (p.sentTo fl addr calls)) := by
  induction calls generalizing p b with
  | nil => exact h
  | cons c rest ih =>
    have hrest := ih (h.call fl c)
    rw [← Server.receiveUpdates_append] at hrest
    exact hrest

/-- A primary and a backup it lists once, with equal ledgers, stay in lockstep through every
sequence of calls, whatever the rounding of balances, exact integers among them: each
call sends the backup one packet that takes it to the primary's new ledger, or sends
none and leaves the ledger alone; and a promoted backup answers every further sequence
of requests as the primary would have. -/
theorem backup_lockstep {p b : Server} {addr : SockAddr} (hp : p.currentRole = .primary)
    (hb : b.currentRole = .backup) (hlisted : p.backupServers.count addr = 1)
    (hequal : b.toLedger = p.toLedger) (calls : List Call) :
    let p' := p.runCalls fl calls
    let b' := b.receiveUpdates fl (p.sentTo fl addr calls)
    b'.toLedger = p'.toLedger ∧
      (∀ c, (packetsTo addr (p'.call fl c).2 = [] ∧ (p'.call fl c).1.toLedger = p'.toLedger) ∨
        ∃ packet, packetsTo addr (p'.call fl c).2 = [packet] ∧
          (b'.receiveUpdate fl packet).toLedger = (p'.call fl c).1.toLedger) ∧
      ∀ further, b'.promoteToPrimary.1.replies fl further = p'.replies fl further := by
  intro p' b'
  have hrun : InLockstep addr p' b' := InLockstep.run fl ⟨hp, hb, hlisted, hequal⟩ calls
  refine ⟨hrun.equal, fun c => ?_, fun further => ?_⟩
  · rcases Server.call_sends fl hrun.primary c with ⟨hnone, hkeep⟩ | ⟨packet, hsends, hreceive, -⟩
    · exact .inl ⟨by rw [hnone]; rfl, hkeep⟩
    · refine .inr ⟨packet, ?_, ?_⟩
      · rw [hsends, packetsTo_broadcast, hrun.listed]
        rfl
      · rw [Server.receiveUpdate_toLedger fl hrun.backup, hrun.equal, hreceive]
  · exact Server.replies_congr fl ((b'.promoteToPrimary_toLedger).trans hrun.equal) further

/-- A primary with one client of 1000 and the backup at host 3, before any transaction. -/
def seeded (role : ServerRole) : Server :=
  { Server.new 1 4000 with
    currentRole := role
    backupServers := if role = .primary then [testHost 3] else []
    clients := [.new (inetNtop (testHost 21).sinAddr)]
    totalBalance := initialBalance }

/-- A self-transfer and a registration reach the backup at host 3. -/
theorem backup_lockstep_after_self_transfer :
    ((seeded .backup).receiveUpdates exactBalances ((seeded .primary).sentTo exactBalances (testHost 3)
        [.processTransaction (inetNtop (testHost 21).sinAddr) (testHost 21).sinAddr 100 1,
          .addClient (inetNtop (testHost 22).sinAddr)])).toLedger =
      ((seeded .primary).runCalls exactBalances
        [.processTransaction (inetNtop (testHost 21).sinAddr) (testHost 21).sinAddr 100 1,
          .addClient (inetNtop (testHost 22).sinAddr)]).toLedger :=
  (@backup_lockstep exactBalances (seeded .primary) (seeded .backup) (testHost 3) rfl rfl rfl rfl _).1

end BankReplica
