import BankReplica.Calls
import BankReplica.Roles

/-!
# What a replication packet does to a backup's ledger

The three update handlers act on the ledger alone, so a backup that handles a list of
packets folds one ledger function over it. A primary writes differences and increments
counters where a backup writes the absolute balances of the packet; the two agree
because the packet reads the records after the writes.
-/

namespace BankReplica

open KeyedList

variable (fl : FloatRounding)

/-- The ledger after an `ADD_CLIENT_UPDATE`. -/
def Ledger.receiveClient (l : Ledger) (data : ClientUpdateData) : Ledger :=
  if data.ip ∈ l.addresses then l
  else
    { l with
      clients := l.clients ++ [⟨data.ip, data.lastRequest, data.balance⟩]
      totalBalance := fl (fl l.totalBalance + data.balance) }

/-- The ledger after an `ADD_HISTORY_ENTRY`, which is also how a `STATE_UPDATE` logs. -/
def Ledger.receiveEntry (l : Ledger) (tx : Transaction) : Ledger :=
  { l with
    transactionHistory := l.transactionHistory ++ [tx]
    numTransactions := l.numTransactions + 1
    totalTransferred := l.totalTransferred + tx.value }

/-- The clients after a `STATE_UPDATE`. -/
def receiveRecords (clients : List ClientDTO) (data : StateUpdateData) : List ClientDTO :=
  let known := ensureClient (ensureClient clients data.sourceIp) data.destIp
  writeStateUpdate known (position ClientDTO.address known data.sourceIp)
    (position ClientDTO.address known data.destIp) data

/-- A known address is not added again. -/
theorem ensureClient_of_mem {clients : List ClientDTO} {ip : IpString}
    (h : ip ∈ clients.map ClientDTO.address) : ensureClient clients ip = clients :=
  if_neg fun hend => (position_eq_length _).mp hend h

/-- What a packet does to the ledger of a server that is a backup. -/
def Ledger.receive (l : Ledger) : Packet → Ledger
  | .addClientUpdate data => l.receiveClient fl data
  | .stateUpdate data =>
    { l.receiveEntry data.transaction with clients := receiveRecords l.clients data }
  | .addHistoryEntry tx => l.receiveEntry tx
  | _ => l

/-- `handleClientUpdate` adds an unknown client and ignores a known one. -/
theorem Server.handleClientUpdate_toLedger (s : Server) (data : ClientUpdateData) :
    (s.handleClientUpdate fl data).toLedger = s.toLedger.receiveClient fl data := by
  by_cases hip : data.ip ∈ s.addresses
  · have hfound : s.findClient data.ip ≠ s.clients.length :=
      fun h => Ledger.findClient_eq_length.mp h hip
    simp [Server.handleClientUpdate, Ledger.receiveClient, hfound, hip]
  · have hend : s.findClient data.ip = s.clients.length := Ledger.findClient_eq_length.mpr hip
    simp [Server.handleClientUpdate, Ledger.receiveClient, hend, hip, ClientDTO.new,
      ClientDTO.setBalance, ClientDTO.setLastRequest]

/-- A backup's receive loop acts on the ledger by `receive`. -/
theorem Server.receiveUpdate_toLedger {s : Server} (hs : s.currentRole = .backup) (packet : Packet) :
    (s.receiveUpdate fl packet).toLedger = s.toLedger.receive fl packet := by
  simp only [Server.receiveUpdate, hs, if_true]
  cases packet with
  | addClientUpdate data => exact s.handleClientUpdate_toLedger fl data
  | _ => rfl

/-- The receive loop's update cases keep the role and the list of backups. -/
theorem Server.receiveUpdate_frame (s : Server) (packet : Packet) :
    (s.receiveUpdate fl packet).currentRole = s.currentRole ∧
      (s.receiveUpdate fl packet).backupServers = s.backupServers := by
  unfold Server.receiveUpdate
  split
  · cases packet with
    | addClientUpdate data =>
      simp only [Server.handleClientUpdate]
      split <;> exact ⟨rfl, rfl⟩
    | _ => exact ⟨rfl, rfl⟩
  · exact ⟨rfl, rfl⟩

/-- A server that handles packets in order. -/
def Server.receiveUpdates (s : Server) (packets : List Packet) : Server :=
  packets.foldl (Server.receiveUpdate fl) s

/-- Packets handled in two batches are packets handled in order. -/
theorem Server.receiveUpdates_append (s : Server) (first rest : List Packet) :
    s.receiveUpdates fl (first ++ rest) = (s.receiveUpdates fl first).receiveUpdates fl rest :=
  List.foldl_append

/-- A backup stays a backup while it handles packets. -/
theorem Server.receiveUpdates_role {s : Server} (hs : s.currentRole = .backup)
    (packets : List Packet) : (s.receiveUpdates fl packets).currentRole = .backup := by
  induction packets generalizing s with
  | nil => exact hs
  | cons packet rest ih => exact ih ((s.receiveUpdate_frame fl packet).1.trans hs)

/-- A backup that handles packets folds `receive` over its ledger. -/
theorem Server.receiveUpdates_toLedger {s : Server} (hs : s.currentRole = .backup)
    (packets : List Packet) :
    (s.receiveUpdates fl packets).toLedger = packets.foldl (Ledger.receive fl) s.toLedger := by
  induction packets generalizing s with
  | nil => rfl
  | cons packet rest ih =>
    calc ((s.receiveUpdate fl packet).receiveUpdates fl rest).toLedger =
          rest.foldl (Ledger.receive fl) (s.receiveUpdate fl packet).toLedger :=
          ih ((s.receiveUpdate_frame fl packet).1.trans hs)
      _ = rest.foldl (Ledger.receive fl) (s.toLedger.receive fl packet) := by
          rw [Server.receiveUpdate_toLedger fl hs]

/-- The packets addressed to one server, in sending order. -/
def packetsTo (addr : SockAddr) (sends : List Send) : List Packet :=
  (sends.filter fun send => send.dest = addr).map Send.packet

/-- A packet sent to every backup reaches one as often as it is listed. -/
theorem packetsTo_broadcast (addr : SockAddr) (backups : List SockAddr) (packet : Packet) :
    packetsTo addr (backups.map fun b => ⟨b, packet⟩) = List.replicate (backups.count addr) packet := by
  induction backups with
  | nil => rfl
  | cons b rest ih =>
    by_cases hb : b = addr
    · simpa [packetsTo, hb, List.replicate_succ] using ih
    · simpa [packetsTo, hb, List.count_cons] using ih

/-- Every packet of the snapshot is addressed to the new backup. -/
@[simp] theorem packetsTo_registerBackup (s : Server) (addr : SockAddr) :
    packetsTo addr (s.registerBackup addr).2 = s.snapshotPackets := by
  simp [packetsTo, Server.registerBackup, List.filter_map, Function.comp_def]

/-! ## The packet of a call -/

/-- The absolute balances of the packet reproduce the primary's three writes, at any two
positions, equal or not. -/
theorem writeStateUpdate_eq_executeTransaction (l : Ledger) (sourceIt destIt : ℕ) (value seqn : ℤ)
    {data : StateUpdateData} {source dest : ClientDTO}
    (hsource : (l.executeTransaction fl sourceIt destIt value seqn).clients[sourceIt]? = some source)
    (hdest : (l.executeTransaction fl sourceIt destIt value seqn).clients[destIt]? = some dest)
    (hsourceBalance : data.sourceBalance = source.balance) (hdestBalance : data.destBalance = dest.balance)
    (hseqn : data.transaction.clientSeqn = seqn) :
    writeStateUpdate l.clients sourceIt destIt data =
      (l.executeTransaction fl sourceIt destIt value seqn).clients := by
  apply List.ext_getElem?
  intro i
  simp only [Ledger.executeTransaction, writeStateUpdate, List.getElem?_modify] at hsource hdest ⊢
  cases hi : l.clients[i]? with
  | none => rfl
  | some c =>
    by_cases hs : sourceIt = i
    · by_cases hd : destIt = i
      -- a self-transfer: both balances of the packet are the one after the credit
      · simp only [hd, hi, hs, if_true, Option.map_eq_map, Option.map_some, Option.some.injEq] at hdest ⊢
        rw [hdestBalance, hseqn, ← hdest]
        rfl
      · simp only [hd, hi, hs, if_true, if_false, id_map', Option.map_eq_map, Option.map_some,
          Option.some.injEq] at hsource ⊢
        rw [hsourceBalance, hseqn, ← hsource]
        rfl
    · by_cases hd : destIt = i
      · simp only [hd, hi, hs, if_true, if_false, id_map', Option.map_eq_map, Option.map_some,
          Option.some.injEq] at hdest ⊢
        rw [hdestBalance, ← hdest]
        rfl
      · simp only [hs, hd, if_false]

/-- The packet of an accepted request takes the ledger before it to the ledger after it. -/
theorem Ledger.receive_stateUpdatePacket {l : Ledger} {sourceIp destIp : IpString} {value seqn : ℤ}
    {source dest : ClientDTO}
    (hsource : (l.commit fl sourceIp destIp value seqn).account sourceIp = some source)
    (hdest : (l.commit fl sourceIp destIp value seqn).account destIp = some dest) :
    l.receive fl (stateUpdatePacket (l.loggedTransaction sourceIp destIp value seqn) source dest) =
      l.commit fl sourceIp destIp value seqn := by
  obtain ⟨-, hsourceIp⟩ := Ledger.account_some hsource
  obtain ⟨-, hdestIp⟩ := Ledger.account_some hdest
  have hs : sourceIp ∈ l.addresses := by
    rw [← l.commit_addresses fl sourceIp destIp value seqn, ← Ledger.account_isSome, hsource]
    rfl
  have hd : destIp ∈ l.addresses := by
    rw [← l.commit_addresses fl sourceIp destIp value seqn, ← Ledger.account_isSome, hdest]
    rfl
  rw [← Ledger.getElem?_findClient, Ledger.commit_findClient] at hsource hdest
  let data : StateUpdateData :=
    { transaction := l.loggedTransaction sourceIp destIp value seqn
      sourceIp := sourceIp
      sourceBalance := source.balance
      destIp := destIp
      destBalance := dest.balance }
  have hwrites : writeStateUpdate l.clients (l.findClient sourceIp) (l.findClient destIp) data =
      (l.executeTransaction fl (l.findClient sourceIp) (l.findClient destIp) value seqn).clients :=
    writeStateUpdate_eq_executeTransaction fl l _ _ value seqn hsource hdest rfl rfl rfl
  simp only [stateUpdatePacket, strncpyIp_bytes, hsourceIp, hdestIp, Ledger.receive, receiveRecords,
    ensureClient_of_mem hs, ensureClient_of_mem hd]
  simp only [Ledger.commit, Ledger.updateAndLogTransaction, ← hwrites]
  rw [strncpyIp_bytes, strncpyIp_bytes]
  rfl

/-- The clients a call is about. -/
def Call.parties : Call → List IpString
  | .addClient ip => [ip]
  | .processTransaction sourceIp destAddr _ _ => [sourceIp, inetNtop destAddr]

/-- The clients a packet is about. -/
def Packet.parties : Packet → List IpString
  | .addClientUpdate data => [data.ip]
  | .stateUpdate data => [data.sourceIp, data.destIp]
  | _ => []

/-- A call that changes the ledger: a new registration or an accepted request. -/
def Ledger.Accepts (l : Ledger) : Call → Prop
  | .addClient ip => ip ∉ l.addresses
  | .processTransaction sourceIp destAddr value seqn =>
    l.verdict fl sourceIp (inetNtop destAddr) value seqn = .success

/-- A call on a primary sends nothing and keeps the ledger, or sends every backup the one
packet that takes the ledger before the call to the ledger after it. -/
theorem Server.call_sends {p : Server} (hp : p.currentRole = .primary) (c : Call) :
    ((p.call fl c).2 = [] ∧ (p.call fl c).1.toLedger = p.toLedger) ∨
      ∃ packet, (p.call fl c).2 = p.backupServers.map (fun b => ⟨b, packet⟩) ∧
        (p.call fl c).1.toLedger = p.toLedger.receive fl packet ∧
        packet.parties = c.parties ∧ p.Accepts fl c := by
  rw [Server.call_toLedger]
  cases c with
  | addClient ip =>
    simp only [Server.call, Server.addClient_sends, hp, and_true, Ledger.apply]
    by_cases hip : ip ∈ p.addresses
    · exact .inl (by simp [hip])
    · refine .inr ⟨clientUpdatePacket (.new ip), if_pos hip, ?_, ?_, hip⟩
      · simp [clientUpdatePacket, Ledger.receive, Ledger.receiveClient, hip, ClientDTO.new,
          Ledger.register]
      · simp [clientUpdatePacket, Packet.parties, Call.parties, ClientDTO.new]
  | processTransaction sourceIp destAddr value seqn =>
    simp only [Server.call, Ledger.apply]
    by_cases haccept : p.verdict fl sourceIp (inetNtop destAddr) value seqn = .success
    · obtain ⟨source, dest, hsource, hdest⟩ := Ledger.account_commit_of_accept fl haccept
      refine .inr ⟨stateUpdatePacket (p.loggedTransaction sourceIp (inetNtop destAddr) value seqn)
        source dest, Server.processTransaction_sends_accept fl haccept hp hsource hdest, ?_, ?_, haccept⟩
      · rw [if_pos haccept, Ledger.receive_stateUpdatePacket fl hsource hdest]
      · simp [stateUpdatePacket, Packet.parties, Call.parties, (Ledger.account_some hsource).2,
          (Ledger.account_some hdest).2]
    · exact .inl ⟨Server.processTransaction_sends_reject fl haccept, if_neg haccept⟩

/-- The clients a call introduces have the initial balance. -/
theorem Server.balance_of_call_sends {p : Server} (hp : p.currentRole = .primary) {c : Call} {send : Send}
    (hsend : send ∈ (p.call fl c).2) {data : ClientUpdateData} (hpacket : send.packet = .addClientUpdate data) :
    data.balance = initialBalance := by
  cases c with
  | addClient ip =>
    simp only [Server.call, Server.addClient_sends] at hsend
    split at hsend
    · obtain ⟨b, -, rfl⟩ := List.mem_map.mp hsend
      obtain rfl := Packet.addClientUpdate.inj hpacket
      rfl
    · contradiction
  | processTransaction sourceIp destAddr value seqn =>
    rcases Server.call_sends fl hp (.processTransaction sourceIp destAddr value seqn) with
      ⟨hsends, -⟩ | ⟨packet, hsends, -, hparties, -⟩ <;> rw [hsends] at hsend
    · contradiction
    · obtain ⟨b, -, rfl⟩ := List.mem_map.mp hsend
      obtain rfl : packet = .addClientUpdate data := hpacket
      simp [Packet.parties, Call.parties] at hparties

end BankReplica
