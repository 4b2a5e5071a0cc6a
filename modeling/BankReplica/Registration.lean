import BankReplica.Library.Runs
import BankReplica.Updates
import Mathlib.Algebra.Order.Group.Multiset
import Mathlib.Tactic.Abel

/-!
# Registering a backup while the primary is busy

One primary and one backup that registers with it. `registerBackup` copies the ledger
and lists the backup in one section under the writer lock; its packets leave one by one
afterwards, mixed with the updates of other threads' calls. The snapshot and the live
stream partition the history at that section, in whatever order packets arrive.
-/

namespace BankReplica

open Runs

variable (fl : FloatRounding)

/-- A primary, a backup, and what is between them. -/
structure Sync where
  primary : Server
  backup : Server
  /-- The packets `registerBackup` has still to send, once it has taken its snapshot. -/
  unsent : Option (List Packet) := none
  inFlight : List Packet := []
  /-- Executed transactions whose `SUCCESS` acknowledgement is still to be sent. -/
  owed : List Transaction := []
  /-- Transactions whose `SUCCESS` acknowledgement has been sent. -/
  acked : List Transaction := []
deriving DecidableEq

/-- The steps of the primary's threads and of the backup's receive loop. -/
inductive SyncEvent
  | call (c : Call)
  | sendAck (k : ℕ)
  | registerBackup
  | sendSnapshot
  | deliver (k : ℕ)
deriving DecidableEq

/-- The transaction a call executes, for which its thread will send a `SUCCESS`. -/
def Server.executed (s : Server) : Call → List Transaction
  | .addClient _ => []
  | .processTransaction sourceIp destAddr value seqn =>
    let (s', reply, _) := s.processTransaction fl sourceIp destAddr value seqn
    if reply.status = .success then s'.transactionHistory.getLast?.toList else []

/-- One step, where the backup is known as `addr`. -/
def Sync.step (addr : SockAddr) (s : Sync) : SyncEvent → Option Sync
  | .call c =>
    let (primary, sends) := s.primary.call fl c
    some
      { s with
        primary := primary
        inFlight := s.inFlight ++ packetsTo addr sends
        owed := s.owed ++ s.primary.executed fl c }
  | .sendAck k => do
    let tx ← s.owed[k]?
    some { s with owed := s.owed.eraseIdx k, acked := s.acked ++ [tx] }
  | .registerBackup =>
    match s.unsent with
    | none =>
      let (primary, sends) := s.primary.registerBackup addr
      some { s with primary := primary, unsent := some (packetsTo addr sends) }
    | some _ => none
  | .sendSnapshot =>
    match s.unsent with
    | some (packet :: rest) =>
      some { s with unsent := some rest, inFlight := s.inFlight ++ [packet] }
    | _ => none
  | .deliver k => do
    let packet ← s.inFlight[k]?
    some { s with inFlight := s.inFlight.eraseIdx k, backup := s.backup.receiveUpdate fl packet }

/-- A primary in any ledger state that does not list the backup, and an empty backup. The
primary's own acknowledgements are of transactions it has logged. -/
structure Sync.Initial (addr : SockAddr) (s : Sync) : Prop where
  primary : s.primary.currentRole = .primary
  unlisted : addr ∉ s.primary.backupServers
  backup : s.backup.currentRole = .backup
  empty : s.backup.toLedger = {}
  unregistered : s.unsent = none
  silent : s.inFlight = []
  acks : ∀ tx ∈ s.owed ++ s.acked, tx ∈ s.primary.transactionHistory

/-- The history entry a packet makes the backup append. -/
def Packet.logged : Packet → List Transaction
  | .stateUpdate data => [data.transaction]
  | .addHistoryEntry tx => [tx]
  | _ => []

/-- The history entries of some packets, in any order. -/
def loggedIn (packets : List Packet) : Multiset Transaction := packets.flatMap Packet.logged

@[simp] theorem loggedIn_nil : loggedIn [] = 0 := rfl

@[simp] theorem loggedIn_append (first rest : List Packet) :
    loggedIn (first ++ rest) = loggedIn first + loggedIn rest := by
  simp [loggedIn]

theorem loggedIn_cons (packet : Packet) (rest : List Packet) :
    loggedIn (packet :: rest) = (packet.logged : Multiset Transaction) + loggedIn rest := by
  simp [loggedIn]

/-- Taking a packet out of the channel takes out its entry. -/
theorem loggedIn_eraseIdx {packets : List Packet} {k : ℕ} {packet : Packet}
    (h : packets[k]? = some packet) :
    (packet.logged : Multiset Transaction) + loggedIn (packets.eraseIdx k) = loggedIn packets := by
  induction packets generalizing k with
  | nil => simp at h
  | cons first rest ih =>
    cases k with
    | zero =>
      simp only [List.getElem?_cons_zero, Option.some.injEq] at h
      rw [List.eraseIdx_zero, List.tail_cons, loggedIn_cons, h]
    | succ k =>
      rw [List.eraseIdx_cons_succ, loggedIn_cons, loggedIn_cons, ← ih h]
      exact add_left_comm _ _ _

/-- Handling a packet appends the entry it carries. -/
theorem Ledger.receive_transactionHistory (l : Ledger) (packet : Packet) :
    (l.receive fl packet).transactionHistory = l.transactionHistory ++ packet.logged := by
  cases packet with
  | addClientUpdate data =>
    simp only [Ledger.receive, Ledger.receiveClient, Packet.logged, List.append_nil]
    split <;> rfl
  | stateUpdate data => rfl
  | addHistoryEntry tx => rfl
  | _ => exact (List.append_nil _).symm

/-- The snapshot's entries are the history. -/
theorem loggedIn_snapshotPackets (l : Ledger) :
    loggedIn l.snapshotPackets = (l.transactionHistory : Multiset Transaction) := by
  have hclients : (l.clients.map clientUpdatePacket).flatMap Packet.logged = [] := by
    simp [clientUpdatePacket, Packet.logged]
  have hhistory : (l.transactionHistory.map Packet.addHistoryEntry).flatMap Packet.logged =
      l.transactionHistory := by
    simp [List.flatMap_map, Packet.logged]
  rw [loggedIn, Ledger.snapshotPackets, List.flatMap_append, hclients, hhistory, List.nil_append]

/-- What a call sends to one server, whether it is listed or not, and how the history grows
with it. -/
theorem Server.call_stream {p : Server} (hp : p.currentRole = .primary) (addr : SockAddr) (c : Call) :
    ∃ entries, (p.call fl c).1.transactionHistory = p.transactionHistory ++ entries ∧
      (packetsTo addr (p.call fl c).2).flatMap Packet.logged =
        (List.replicate (p.backupServers.count addr) entries).flatten := by
  rcases Server.call_sends fl hp c with ⟨hnone, hkeep⟩ | ⟨packet, hsends, hreceive, -⟩
  · refine ⟨[], ?_, ?_⟩
    · rw [hkeep, List.append_nil]
    · rw [hnone, List.flatten_replicate_nil]
      rfl
  · refine ⟨packet.logged, ?_, ?_⟩
    · rw [hreceive, Ledger.receive_transactionHistory]
    · rw [hsends, packetsTo_broadcast, List.flatMap_replicate]

/-- A call acknowledges transactions it has logged. -/
theorem Server.executed_mem {p : Server} {c : Call} {tx : Transaction} (h : tx ∈ p.executed fl c) :
    tx ∈ (p.call fl c).1.transactionHistory := by
  cases c with
  | addClient ip => simp [Server.executed] at h
  | processTransaction sourceIp destAddr value seqn =>
    simp only [Server.executed] at h
    split at h
    · exact List.mem_of_getLast? (Option.mem_toList.mp h)
    · simp at h

/-- The history is partitioned between the backup, the channel and the unsent snapshot. -/
structure Sync.Partitioned (addr : SockAddr) (s : Sync) : Prop where
  primary : s.primary.currentRole = .primary
  backup : s.backup.currentRole = .backup
  before : s.unsent = none →
    addr ∉ s.primary.backupServers ∧ s.backup.transactionHistory = [] ∧ s.inFlight = []
  after : ∀ rest, s.unsent = some rest → s.primary.backupServers.count addr = 1 ∧
    (s.primary.transactionHistory : Multiset Transaction) =
      s.backup.transactionHistory + loggedIn s.inFlight + loggedIn rest
  acks : ∀ tx ∈ s.owed ++ s.acked, tx ∈ s.primary.transactionHistory

/-- The initial states are partitioned. -/
theorem Sync.Initial.partitioned {addr : SockAddr} {s : Sync} (h : Sync.Initial addr s) :
    Sync.Partitioned addr s where
  primary := h.primary
  backup := h.backup
  before _ := ⟨h.unlisted, by rw [h.empty], h.silent⟩
  after rest hrest := by
    rw [h.unregistered] at hrest
    contradiction
  acks := h.acks

/-- A call logs and sends the same entry once the backup is listed, and sends it nothing
before. -/
theorem Sync.Partitioned.call {addr : SockAddr} {s : Sync} (h : Sync.Partitioned addr s) (c : Call) :
    Sync.Partitioned addr
      { s with
        primary := (s.primary.call fl c).1
        inFlight := s.inFlight ++ packetsTo addr (s.primary.call fl c).2
        owed := s.owed ++ s.primary.executed fl c } := by
  obtain ⟨entries, hhistory, hstream⟩ := Server.call_stream fl h.primary addr c
  obtain ⟨hrole, hbackups⟩ := s.primary.call_frame fl c
  refine ⟨hrole.trans h.primary, h.backup, fun hnone => ?_, fun rest hrest => ?_, fun tx htx => ?_⟩
  · obtain ⟨hunlisted, hempty, hsilent⟩ := h.before hnone
    have hnothing : packetsTo addr (s.primary.call fl c).2 = [] := by
      rcases Server.call_sends fl h.primary c with ⟨hsends, -⟩ | ⟨packet, hsends, -⟩
      · rw [hsends]
        rfl
      · rw [hsends, packetsTo_broadcast, List.count_eq_zero_of_not_mem hunlisted]
        rfl
    exact ⟨hbackups ▸ hunlisted, hempty, by rw [hsilent, hnothing]; rfl⟩
  · obtain ⟨hlisted, hsplit⟩ := h.after rest hrest
    rw [hlisted, List.replicate_one, List.flatten_singleton] at hstream
    refine ⟨hbackups ▸ hlisted, ?_⟩
    have hentries : loggedIn (packetsTo addr (s.primary.call fl c).2) = (entries : Multiset Transaction) :=
      congrArg _ hstream
    rw [hhistory, ← Multiset.coe_add, hsplit, loggedIn_append, hentries]
    abel
  · simp only [List.append_assoc, List.mem_append] at htx
    rcases htx with howed | hnew | hacked
    · rw [hhistory]
      exact List.mem_append_left _ (h.acks tx (List.mem_append_left _ howed))
    · exact Server.executed_mem fl hnew
    · rw [hhistory]
      exact List.mem_append_left _ (h.acks tx (List.mem_append_right _ hacked))

/-- Registration splits the history into an empty backup and a whole snapshot. -/
theorem Sync.Partitioned.registerBackup {addr : SockAddr} {s : Sync} (h : Sync.Partitioned addr s)
    (hnone : s.unsent = none) :
    Sync.Partitioned addr
      { s with
        primary := (s.primary.registerBackup addr).1
        unsent := some (packetsTo addr (s.primary.registerBackup addr).2) } := by
  obtain ⟨hunlisted, hempty, hsilent⟩ := h.before hnone
  refine ⟨h.primary, h.backup, fun hsome => by contradiction, fun rest hrest => ⟨?_, ?_⟩, h.acks⟩
  · simp [Server.registerBackup, List.count_append, List.count_eq_zero_of_not_mem hunlisted]
  · rw [packetsTo_registerBackup, Option.some.injEq] at hrest
    rw [← hrest, loggedIn_snapshotPackets, hempty, hsilent]
    simp [Server.registerBackup]

/-- One step keeps the partition. -/
theorem Sync.Partitioned.step {addr : SockAddr} {s t : Sync} (h : Sync.Partitioned addr s)
    {e : SyncEvent} (hstep : s.step fl addr e = some t) : Sync.Partitioned addr t := by
  cases e with
  | call c =>
    rw [← Option.some.inj hstep]
    exact h.call fl c
  | sendAck k =>
    obtain ⟨tx, htx, ht⟩ := Option.bind_eq_some_iff.mp hstep
    rw [← Option.some.inj ht]
    refine ⟨h.primary, h.backup, h.before, h.after, fun tx' htx' => ?_⟩
    simp only [List.mem_append, List.mem_singleton] at htx'
    rcases htx' with howed | hacked | rfl
    · exact h.acks tx' (List.mem_append_left _ (List.mem_of_mem_eraseIdx howed))
    · exact h.acks tx' (List.mem_append_right _ hacked)
    · exact h.acks tx' (List.mem_append_left _ (List.mem_of_getElem? htx))
  | registerBackup =>
    simp only [Sync.step] at hstep
    split at hstep
    · rw [← Option.some.inj hstep]
      exact h.registerBackup ‹_›
    · contradiction
  | sendSnapshot =>
    simp only [Sync.step] at hstep
    split at hstep
    · rename_i packet rest hunsent
      rw [← Option.some.inj hstep]
      obtain ⟨hlisted, hsplit⟩ := h.after _ hunsent
      refine ⟨h.primary, h.backup, fun hnone => by contradiction, fun rest' hrest => ⟨hlisted, ?_⟩, h.acks⟩
      rw [← Option.some.inj hrest, hsplit, loggedIn_append, loggedIn_cons, loggedIn_cons]
      simp only [loggedIn_nil, add_zero]
      abel
    · contradiction
  | deliver k =>
    obtain ⟨packet, hpacket, ht⟩ := Option.bind_eq_some_iff.mp hstep
    rw [← Option.some.inj ht]
    have hhistory : (s.backup.receiveUpdate fl packet).transactionHistory =
        s.backup.transactionHistory ++ packet.logged := by
      rw [← Ledger.receive_transactionHistory fl, ← Server.receiveUpdate_toLedger fl h.backup]
    refine ⟨h.primary, (s.backup.receiveUpdate_frame fl packet).1.trans h.backup, fun hnone => ?_,
      fun rest hrest => ⟨(h.after rest hrest).1, ?_⟩, h.acks⟩
    · rw [(h.before hnone).2.2] at hpacket
      simp at hpacket
    · rw [(h.after rest hrest).2, hhistory, ← loggedIn_eraseIdx hpacket, ← Multiset.coe_add]
      abel

/-- In every state after the snapshot, whatever the order of calls, sends and deliveries, the
primary's history is the backup's history, the entries in flight to it and the snapshot
entries still unsent, each once; and every acknowledged transaction is among these. -/
theorem snapshot_and_stream_partition_history {addr : SockAddr} {s : Sync}
    (h : Reachable (Sync.step fl addr) Always (Sync.Initial addr) s) {rest : List Packet}
    (hrest : s.unsent = some rest) :
    (s.primary.transactionHistory : Multiset Transaction) =
        s.backup.transactionHistory + loggedIn s.inFlight + loggedIn rest ∧
      ∀ tx ∈ s.acked,
        tx ∈ (s.backup.transactionHistory : Multiset Transaction) + loggedIn s.inFlight + loggedIn rest := by
  have hpartitioned : Sync.Partitioned addr s :=
    h.invariant (fun _ hs => hs.partitioned) (fun _ _ _ hs _ hstep => hs.step fl hstep)
  have hsplit := (hpartitioned.after rest hrest).2
  refine ⟨hsplit, fun tx htx => ?_⟩
  rw [← hsplit]
  exact hpartitioned.acks tx (List.mem_append_right _ htx)

/-- A fresh primary at host 2 and a fresh backup at host 3. -/
def freshSync : Sync where
  primary := freshPrimary 2 4000
  backup := Server.new 3 4000

theorem freshSync_initial : Sync.Initial (testHost 3) freshSync where
  primary := rfl
  unlisted := List.not_mem_nil
  backup := rfl
  empty := rfl
  unregistered := rfl
  silent := rfl
  acks := by simp [freshSync]

/-- A self-transfer of client 21, for its sequence number `seqn`. -/
def selfTransfer (value seqn : ℤ) : SyncEvent :=
  .call (.processTransaction (inetNtop (testHost 21).sinAddr) (testHost 21).sinAddr value seqn)

/-- An acknowledged transaction that overtakes half of the snapshot is not lost. -/
theorem history_partitioned_amid_snapshot :
    ∃ (s : Sync) (rest : List Packet), s.unsent = some rest ∧ (s.acked.length = 1 ∧ s.inFlight.length = 1) ∧
      (s.primary.transactionHistory : Multiset Transaction) =
        s.backup.transactionHistory + loggedIn s.inFlight + loggedIn rest := by
  obtain ⟨s, hreach, htest⟩ := exists_reachable_of_replay (Sync.step singlePrecision (testHost 3)) Always
    (Sync.Initial (testHost 3))
    [.call (.addClient (inetNtop (testHost 21).sinAddr)), selfTransfer 0 1, .registerBackup,
      .sendSnapshot, selfTransfer 5 2, .sendAck 1, .deliver 1]
    (fun s => s.unsent.isSome && decide (s.acked.length = 1 ∧ s.inFlight.length = 1)) freshSync_initial
    (by decide +kernel)
  rw [Bool.and_eq_true, decide_eq_true_eq] at htest
  obtain ⟨rest, hrest⟩ := Option.isSome_iff_exists.mp htest.1
  exact ⟨s, rest, hrest, htest.2, (snapshot_and_stream_partition_history singlePrecision hreach hrest).1⟩

end BankReplica
