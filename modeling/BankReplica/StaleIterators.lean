import BankReplica.AccountView
import BankReplica.Library.GrowingVector

/-!
# Iterators across the insertions of a state update

`handleStateUpdate` looks up the source, looks up the destination, and writes through
both iterators. Each lookup may be followed by an `emplace_back`, and the second one may
move the vector after the source's iterator was taken. On a vector that never moves this
is the handler of the replication model; on one that does, it is that handler exactly
when the second insertion is not needed or finds room. So a backup that handles packets one
after the other is the backup of the replication model as long as every second insertion
fits, however its vector grows.
-/

namespace BankReplica

open KeyedList GrowingVector

/-- The lookups, insertions and writes of `Server::handleStateUpdate`, without a result if
one of the writes goes through a stale iterator. -/
def stateUpdateClients (grow : Growth) (clients : Vec ClientDTO) (data : StateUpdateData) :
    Option (Vec ClientDTO) :=
  let (withSource, sourceIt) := clients.findOrEmplace ClientDTO.address grow data.sourceIp (.new data.sourceIp)
  let (withDest, destIt) := withSource.findOrEmplace ClientDTO.address grow data.destIp (.new data.destIp)
  do
    let sourceSet ← withDest.write sourceIt fun c => c.setBalance data.sourceBalance
    let destSet ← sourceSet.write destIt fun c => c.setBalance data.destBalance
    destSet.write sourceIt fun c => c.setLastRequest data.transaction.clientSeqn

/-- The `clients` of a server in a buffer with some places to spare. -/
def Server.clientsVec (s : Server) (spare : ℕ) : Vec ClientDTO where
  elems := s.clients
  capacity := s.clients.length + spare
  buffer := 0
  fits := Nat.le_add_right _ _

/-- `Server::handleStateUpdate` through iterators. -/
def Server.handleStateUpdateThrough (grow : Growth) (s : Server) (spare : ℕ) (data : StateUpdateData) :
    Option Server := do
  let tx := data.transaction
  let clients ← stateUpdateClients grow (s.clientsVec spare) data
  some <| Server.notify
    { s with
      clients := clients.elems
      transactionHistory := s.transactionHistory ++ [tx]
      numTransactions := s.numTransactions + 1
      totalTransferred := s.totalTransferred + tx.value
      lastLogInfo :=
        { type := .success
          transactionId := tx.id
          value := tx.value
          sourceIp := data.sourceIp
          destIp := data.destIp } }

/-- The destination is known once the source is, or its insertion finds room. -/
def SecondInsertionFits (grow : Growth) (s : Server) (spare : ℕ) (data : StateUpdateData) : Prop :=
  data.destIp ∈ s.addresses ∨ data.destIp = data.sourceIp ∨
    if data.sourceIp ∈ s.addresses then 0 < spare
    else if 0 < spare then 1 < spare
    else s.clients.length + 1 < grow.next s.clients.length

/-- What a state update is to do to the clients: write the two it names, and no other. -/
def StateUpdateLands (s s' : Server) (data : StateUpdateData) : Prop :=
  (∃ c, s'.account data.sourceIp = some c ∧ c.lastReq = data.transaction.clientSeqn ∧
    (data.sourceIp ≠ data.destIp → c.balance = data.sourceBalance)) ∧
  (∃ c, s'.account data.destIp = some c ∧ c.balance = data.destBalance) ∧
  ∀ i, i < s.clients.length → i ≠ s.findClient data.sourceIp → i ≠ s.findClient data.destIp →
    s'.clients[i]? = s.clients[i]?

/-! ## On a vector that stays in place -/

/-- `emplace_back` after a miss only appends. -/
theorem ensureClient_append (clients : List ClientDTO) (ip : IpString) :
    ∃ more, ensureClient clients ip = clients ++ more := by
  unfold ensureClient
  split
  · exact ⟨[.new ip], rfl⟩
  · exact ⟨[], (List.append_nil clients).symm⟩

/-- A state update changes no client but the two it names. -/
theorem getElem?_receiveRecords {clients : List ClientDTO} {data : StateUpdateData} {i : ℕ}
    (hi : i < clients.length) (hsource : i ≠ position ClientDTO.address clients data.sourceIp)
    (hdest : i ≠ position ClientDTO.address clients data.destIp) :
    (receiveRecords clients data)[i]? = clients[i]? := by
  obtain ⟨first, hfirst⟩ := ensureClient_append clients data.sourceIp
  obtain ⟨second, hsecond⟩ := ensureClient_append (clients ++ first) data.destIp
  have hgrown : ensureClient (ensureClient clients data.sourceIp) data.destIp = clients ++ (first ++ second) := by
    rw [hfirst, hsecond, List.append_assoc]
  have hsource' := position_append_ne ClientDTO.address hi hsource.symm (first ++ second)
  have hdest' := position_append_ne ClientDTO.address hi hdest.symm (first ++ second)
  simp only [receiveRecords, hgrown, writeStateUpdate, List.getElem?_modify, hsource', hdest', if_false,
    Option.map_eq_map, Option.map_id']
  exact List.getElem?_append_left hi

/-- On a vector that stays in place a state update lands. -/
theorem handleStateUpdate_lands (s : Server) (data : StateUpdateData) :
    StateUpdateLands s (s.handleStateUpdate data) data := by
  have haccount : ∀ ip, (s.handleStateUpdate data).account ip =
      if ip = data.sourceIp ∨ ip = data.destIp then some (data.written ip ((s.account ip).getD (.new ip)))
      else s.account ip :=
    lookup_receiveRecords s.clients data
  refine ⟨⟨_, (haccount data.sourceIp).trans (if_pos (.inl rfl)), ?_, ?_⟩,
    ⟨_, (haccount data.destIp).trans (if_pos (.inr rfl)), ?_⟩, ?_⟩
  · simp only [StateUpdateData.written, if_true]
  · intro hne
    simp only [StateUpdateData.written, hne, if_false]
  · simp only [StateUpdateData.written, if_true]
  · intro i hi hsource hdest
    exact getElem?_receiveRecords hi hsource hdest

/-! ## On a vector that may move -/

/-- Looking up a client and inserting it on a miss is `ensureClient` on the elements. -/
theorem findOrEmplace_elems (grow : Growth) (v : Vec ClientDTO) (ip : IpString) :
    (v.findOrEmplace ClientDTO.address grow ip (.new ip)).1.elems = ensureClient v.elems ip := by
  by_cases hip : ip ∈ v.elems.map ClientDTO.address
  · rw [findOrEmplace_of_mem hip, ensureClient_of_mem hip]
  · rw [findOrEmplace_of_not_mem hip, emplaceBack_elems, ensureClient,
      if_pos ((position_eq_length ClientDTO.address).mpr hip)]

/-- With the source in the vector, the destination is known or finds room. -/
def DestFits (grow : Growth) (v : Vec ClientDTO) (data : StateUpdateData) : Prop :=
  let withSource := (v.findOrEmplace ClientDTO.address grow data.sourceIp (.new data.sourceIp)).1
  data.destIp ∈ withSource.elems.map ClientDTO.address ∨ withSource.elems.length < withSource.capacity

/-- If the second insertion moves the vector, the first write is stale; otherwise the
clients are those of the handler whose vector stays in place. -/
theorem stateUpdateClients_cases (grow : Growth) (v : Vec ClientDTO) (data : StateUpdateData) :
    (DestFits grow v data → (stateUpdateClients grow v data).map Vec.elems = some (receiveRecords v.elems data)) ∧
      (¬ DestFits grow v data → stateUpdateClients grow v data = none) := by
  let withSource := (v.findOrEmplace ClientDTO.address grow data.sourceIp (.new data.sourceIp)).1
  let withDest := (withSource.findOrEmplace ClientDTO.address grow data.destIp (.new data.destIp)).1
  let sourceIt := withSource.find ClientDTO.address data.sourceIp
  let destIt := withDest.find ClientDTO.address data.destIp
  have hwrites : stateUpdateClients grow v data =
      (withDest.write sourceIt fun c => c.setBalance data.sourceBalance).bind fun sourceSet =>
        (sourceSet.write destIt fun c => c.setBalance data.destBalance).bind fun destSet =>
          destSet.write sourceIt fun c => c.setLastRequest data.transaction.clientSeqn := by
    simp only [sourceIt, destIt, withDest, withSource, ← findOrEmplace_iter]
    rfl
  have hbuffer : withDest.buffer = withSource.buffer ↔ DestFits grow v data :=
    findOrEmplace_buffer ClientDTO.address grow withSource data.destIp (.new data.destIp)
  rw [← hbuffer, hwrites]
  constructor
  · intro hplace
    have hsourceMem : data.sourceIp ∈ withSource.elems.map ClientDTO.address :=
      mem_findOrEmplace (a := .new data.sourceIp) rfl grow v
    have hsourcePos : sourceIt.pos = position ClientDTO.address withDest.elems data.sourceIp :=
      (position_findOrEmplace hsourceMem grow data.destIp (.new data.destIp)).symm
    have hsourceLt : sourceIt.pos < withDest.elems.length := by
      rw [hsourcePos, position_lt_length]
      exact mem_findOrEmplace_of_mem hsourceMem grow data.destIp (.new data.destIp)
    have hdestLt : destIt.pos < withDest.elems.length :=
      (position_lt_length ClientDTO.address).mpr (mem_findOrEmplace (a := .new data.destIp) rfl grow withSource)
    obtain ⟨sourceSet, hfirst, hfirstElems, hfirstBuffer⟩ :=
      write_live hplace.symm hsourceLt fun c => c.setBalance data.sourceBalance
    obtain ⟨destSet, hsecond, hsecondElems, hsecondBuffer⟩ :=
      write_live (show destIt.buffer = sourceSet.buffer from hfirstBuffer.symm)
        (by rwa [hfirstElems, List.length_modify]) fun c => c.setBalance data.destBalance
    obtain ⟨written, hthird, hthirdElems, -⟩ :=
      write_live (show sourceIt.buffer = destSet.buffer from hplace.symm.trans (hsecondBuffer.trans hfirstBuffer).symm)
        (by rwa [hsecondElems, List.length_modify, hfirstElems, List.length_modify])
        fun c => c.setLastRequest data.transaction.clientSeqn
    have hgrown : withDest.elems = ensureClient (ensureClient v.elems data.sourceIp) data.destIp := by
      simp only [withDest, withSource, findOrEmplace_elems]
    rw [hfirst, Option.bind_some, hsecond, Option.bind_some, hthird, Option.map_some, hthirdElems, hsecondElems,
      hfirstElems, hsourcePos, receiveRecords, ← hgrown]
    rfl
  · intro hmoved
    have hstale : sourceIt.buffer ≠ withDest.buffer := Ne.symm hmoved
    rw [write_stale hstale]
    rfl

/-- The destination fits exactly if the condition on the server's state holds. -/
theorem destFits_iff (grow : Growth) {s : Server} {spare : ℕ} {v : Vec ClientDTO} (helems : v.elems = s.clients)
    (hcapacity : v.capacity = s.clients.length + spare) (data : StateUpdateData) :
    DestFits grow v data ↔ SecondInsertionFits grow s spare data := by
  let withSource := (v.findOrEmplace ClientDTO.address grow data.sourceIp (.new data.sourceIp)).1
  have hfits : DestFits grow v data ↔
      data.destIp ∈ withSource.elems.map ClientDTO.address ∨ withSource.elems.length < withSource.capacity := Iff.rfl
  have haddresses : v.elems.map ClientDTO.address = s.addresses := by
    rw [helems]
    rfl
  by_cases hsource : data.sourceIp ∈ s.addresses
  · have hkept : withSource = v :=
      congrArg Prod.fst (findOrEmplace_of_mem (haddresses ▸ hsource) grow (.new data.sourceIp))
    have hroom : v.elems.length < v.capacity ↔ 0 < spare := by
      rw [helems, hcapacity]
      omega
    have hmem : data.destIp ∈ v.elems.map ClientDTO.address ↔
        data.destIp ∈ s.addresses ∨ data.destIp = data.sourceIp := by
      rw [haddresses]
      exact ⟨.inl, fun h => h.elim id fun heq => heq ▸ hsource⟩
    rw [hfits, hkept, hroom, hmem, SecondInsertionFits, if_pos hsource, or_assoc]
  · have hgrown : withSource = v.emplaceBack grow (.new data.sourceIp) :=
      congrArg Prod.fst (findOrEmplace_of_not_mem (haddresses ▸ hsource) grow (.new data.sourceIp))
    have hroom : withSource.elems.length < withSource.capacity ↔
        if 0 < spare then 1 < spare else s.clients.length + 1 < grow.next s.clients.length := by
      rw [hgrown, emplaceBack_elems, emplaceBack_capacity, helems, hcapacity]
      simp only [List.length_append, List.length_singleton, lt_add_iff_pos_right]
      split <;> omega
    have hmem : data.destIp ∈ withSource.elems.map ClientDTO.address ↔
        data.destIp ∈ s.addresses ∨ data.destIp = data.sourceIp := by
      rw [hgrown, emplaceBack_elems, List.map_append, List.mem_append, List.map_singleton, List.mem_singleton,
        haddresses]
      rfl
    rw [hfits, hroom, hmem, SecondInsertionFits, if_neg hsource, or_assoc]

/-- Where the second insertion fits, no iterator is stale and the handler is that of a vector that
stays in place. -/
theorem Server.handleStateUpdateThrough_of_fits {grow : Growth} {s : Server} {spare : ℕ} {data : StateUpdateData}
    (h : SecondInsertionFits grow s spare data) :
    s.handleStateUpdateThrough grow spare data = some (s.handleStateUpdate data) := by
  have hcases := (stateUpdateClients_cases grow (s.clientsVec spare) data).1
  rw [destFits_iff (v := s.clientsVec spare) grow rfl rfl] at hcases
  obtain ⟨clients, hclients, helems⟩ := Option.map_eq_some_iff.mp (hcases h)
  simp only [Server.handleStateUpdateThrough, hclients, Option.bind_eq_bind, Option.bind_some, helems]
  rfl

/-- Where it does not, the first write is stale. -/
theorem Server.handleStateUpdateThrough_of_not_fits {grow : Growth} {s : Server} {spare : ℕ}
    {data : StateUpdateData} (h : ¬ SecondInsertionFits grow s spare data) :
    s.handleStateUpdateThrough grow spare data = none := by
  have hcases := (stateUpdateClients_cases grow (s.clientsVec spare) data).2
  rw [destFits_iff (v := s.clientsVec spare) grow rfl rfl] at hcases
  simp only [Server.handleStateUpdateThrough, hcases h, Option.bind_eq_bind, Option.bind_none]

/-- For every backup and every packet, `handleStateUpdate` goes through live iterators and
writes the clients the packet names and no other exactly if the destination is known once
the source is, or its insertion finds room. -/
theorem state_update_lands_iff_second_insertion_fits (grow : Growth) (s : Server) (spare : ℕ)
    (data : StateUpdateData) :
    (∃ s', s.handleStateUpdateThrough grow spare data = some s' ∧ StateUpdateLands s s' data) ↔
      SecondInsertionFits grow s spare data := by
  by_cases hfits : SecondInsertionFits grow s spare data
  · exact iff_of_true ⟨_, Server.handleStateUpdateThrough_of_fits hfits, handleStateUpdate_lands s data⟩ hfits
  · refine iff_of_false ?_ hfits
    intro ⟨s', hthrough, _⟩
    rw [Server.handleStateUpdateThrough_of_not_fits hfits] at hthrough
    contradiction

/-- A backup with one client, in a buffer of one place. -/
def oneClientBackup : Server :=
  { Server.new 2 4000 with clients := [.new (inetNtop (testHost 21).sinAddr)] }

/-- The update for a transfer of 100 from client 21 to client 22. -/
def firstTransferUpdate : StateUpdateData where
  transaction := ⟨1, inetNtop (testHost 21).sinAddr, inetNtop (testHost 22).sinAddr, 100, 1⟩
  sourceIp := inetNtop (testHost 21).sinAddr
  sourceBalance := 900
  destIp := inetNtop (testHost 22).sinAddr
  destBalance := 1100

/-- The insertion of an unknown destination into a full vector leaves the source's iterator
stale before the first write. -/
theorem state_update_through_stale_iterator :
    oneClientBackup.handleStateUpdateThrough .doubling 0 firstTransferUpdate = none ∧
      ¬ ∃ s', oneClientBackup.handleStateUpdateThrough .doubling 0 firstTransferUpdate = some s' ∧
        StateUpdateLands oneClientBackup s' firstTransferUpdate := by
  have hstale : oneClientBackup.handleStateUpdateThrough .doubling 0 firstTransferUpdate = none := by
    decide +kernel
  refine ⟨hstale, ?_⟩
  intro ⟨s', hthrough, _⟩
  exact absurd (hstale.symm.trans hthrough) (Option.some_ne_none s').symm

/-! ## A backup whose vector moves -/

variable (fl : FloatRounding)

/-- A backup, and the places to spare in the buffer of its `clients`. -/
structure Backup where
  server : Server
  spare : ℕ
deriving DecidableEq

/-- The `clients` of a backup. -/
def Backup.clients (b : Backup) : Vec ClientDTO := b.server.clientsVec b.spare

/-- What is left of the capacity of a vector. -/
def spareOf (v : Vec ClientDTO) : ℕ := v.capacity - v.elems.length

/-- The three replication cases of the receive loop through iterators, without a result if a write
goes through a stale one. -/
def Backup.receive (grow : Growth) (b : Backup) (packet : Packet) : Option Backup :=
  if b.server.currentRole = .backup then
    match packet with
    | .addClientUpdate data =>
      let newClient := ((ClientDTO.new data.ip).setBalance data.balance).setLastRequest data.lastRequest
      let clients := (b.clients.findOrEmplace ClientDTO.address grow data.ip newClient).1
      some ⟨b.server.handleClientUpdate fl data, spareOf clients⟩
    | .stateUpdate data => do
      let withSource := (b.clients.findOrEmplace ClientDTO.address grow data.sourceIp (.new data.sourceIp)).1
      let withDest := (withSource.findOrEmplace ClientDTO.address grow data.destIp (.new data.destIp)).1
      let server ← b.server.handleStateUpdateThrough grow b.spare data
      some ⟨server, spareOf withDest⟩
    | .addHistoryEntry tx => some { b with server := b.server.handleHistoryEntry tx }
    | _ => some b
  else some b

/-- A backup that handles packets in order. -/
def Backup.receives (grow : Growth) (b : Backup) (packets : List Packet) : Option Backup :=
  packets.foldlM (Backup.receive fl grow) b

instance (grow : Growth) (s : Server) (spare : ℕ) (data : StateUpdateData) :
    Decidable (SecondInsertionFits grow s spare data) :=
  inferInstanceAs (Decidable (data.destIp ∈ s.addresses ∨ data.destIp = data.sourceIp ∨
    if data.sourceIp ∈ s.addresses then 0 < spare
    else if 0 < spare then 1 < spare
    else s.clients.length + 1 < grow.next s.clients.length))

/-- A state update meets a backup in which its second insertion fits. -/
def Backup.Fits (grow : Growth) (b : Backup) : Packet → Prop
  | .stateUpdate data => SecondInsertionFits grow b.server b.spare data
  | _ => True

instance Backup.decidableFits (grow : Growth) (b : Backup) : DecidablePred (b.Fits grow)
  | .stateUpdate _ => inferInstanceAs (Decidable (SecondInsertionFits ..))
  | .transactionReq _ | .transactionAck _ | .discovery | .discoveryAck | .registerBackup | .addClientUpdate _
  | .stateUpdateAck | .addHistoryEntry _ | .heartbeat | .serverDiscovery | .newPrimaryAnnouncement _
  | .election _ | .electionAnswer _ => .isTrue trivial

/-- Every state update among some packets, handled in order, meets a backup in which its second
insertion fits. -/
def Backup.AllFit (grow : Growth) (b : Backup) : List Packet → Prop
  | [] => True
  | packet :: rest => b.Fits grow packet ∧ ∀ b' ∈ b.receive fl grow packet, b'.AllFit grow rest

instance Backup.decidableAllFit (grow : Growth) :
    (b : Backup) → (packets : List Packet) → Decidable (b.AllFit fl grow packets)
  | _, [] => .isTrue trivial
  | b, packet :: rest =>
    have := fun b' => Backup.decidableAllFit grow b' rest
    inferInstanceAs (Decidable (b.Fits grow packet ∧ ∀ b' ∈ b.receive fl grow packet, b'.AllFit fl grow rest))

/-- A packet that fits does what it does to a vector that stays in place. -/
theorem Backup.receive_of_fits {grow : Growth} {b : Backup} (hrole : b.server.currentRole = .backup)
    {packet : Packet} (h : b.Fits grow packet) :
    ∃ spare, b.receive fl grow packet = some ⟨b.server.receiveUpdate fl packet, spare⟩ := by
  simp only [Backup.receive, Server.receiveUpdate, hrole, if_true]
  cases packet with
  | stateUpdate data =>
    simp only [Server.handleStateUpdateThrough_of_fits h, Option.bind_eq_bind, Option.bind_some]
    exact ⟨_, rfl⟩
  | _ => exact ⟨_, rfl⟩

/-- Packets that all fit do what they do to a vector that stays in place. -/
theorem Backup.receives_of_allFit {grow : Growth} {b : Backup} (hrole : b.server.currentRole = .backup)
    {packets : List Packet} (h : b.AllFit fl grow packets) :
    ∃ spare, b.receives fl grow packets = some ⟨b.server.receiveUpdates fl packets, spare⟩ := by
  induction packets generalizing b with
  | nil => exact ⟨b.spare, rfl⟩
  | cons packet rest ih =>
    obtain ⟨spare, hreceived⟩ := Backup.receive_of_fits fl hrole h.1
    have hrole' := (b.server.receiveUpdate_frame fl packet).1.trans hrole
    obtain ⟨spare', hreceives⟩ := ih hrole' (h.2 _ hreceived)
    refine ⟨spare', ?_⟩
    rw [Backup.receives, List.foldlM_cons, hreceived]
    exact hreceives

/-- What fits in a list fits in its beginning. -/
theorem Backup.AllFit.mono {grow : Growth} {b : Backup} {seen packets : List Packet}
    (h : b.AllFit fl grow packets) (hseen : seen <+: packets) : b.AllFit fl grow seen := by
  induction seen generalizing b packets with
  | nil => trivial
  | cons packet seen ih =>
    obtain ⟨later, rfl⟩ := hseen
    exact ⟨h.1, fun b' hb' => ih (h.2 b' hb') ⟨later, rfl⟩⟩

end BankReplica
