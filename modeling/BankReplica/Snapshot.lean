import BankReplica.Bookkeeping

/-!
# What a snapshot does to the ledger that receives it

`registerBackup` sends every client and every log entry. The receiver appends the
clients it does not know, adds their balances to its total, and appends every log entry
whether it holds it already or not. The total is an `int`: where a sum does not fit, the
code has no defined result.
-/

namespace BankReplica

open KeyedList

variable (fl : FloatRounding)

/-- A total to which the balances of some clients are added one by one. -/
def addBalances (total : ℤ) (clients : List ClientDTO) : ℤ :=
  clients.foldl (fun sum c => fl (fl sum + c.balance)) total

/-- With exact balances the total grows by their sum. -/
theorem addBalances_exact (total : ℤ) (clients : List ClientDTO) :
    addBalances exactBalances total clients = total + (clients.map ClientDTO.balance).sum := by
  induction clients generalizing total with
  | nil => simp [addBalances]
  | cons c rest ih =>
    change addBalances exactBalances (total + c.balance) rest = _
    rw [ih, List.map_cons, List.sum_cons, add_assoc]

/-- The clients of a list that a ledger does not know. -/
def Ledger.unknown (l : Ledger) (clients : List ClientDTO) : List ClientDTO :=
  clients.filter fun c => c.address ∉ l.addresses

/-- An empty ledger knows no client. -/
@[simp] theorem unknown_empty (clients : List ClientDTO) :
    Ledger.unknown {} clients = clients := by
  simp [Ledger.unknown, Ledger.addresses]

theorem Ledger.unknown_cons_of_mem {l : Ledger} {c : ClientDTO} (hc : c.address ∈ l.addresses)
    (rest : List ClientDTO) : l.unknown (c :: rest) = l.unknown rest :=
  List.filter_cons_of_neg (by simpa using hc)

theorem Ledger.unknown_cons_of_notMem {l : Ledger} {c : ClientDTO} (hc : c.address ∉ l.addresses)
    (rest : List ClientDTO) : l.unknown (c :: rest) = c :: l.unknown rest :=
  List.filter_cons_of_pos (by simpa using hc)

/-- A known client of a snapshot is ignored. -/
theorem Ledger.receive_known {l : Ledger} {c : ClientDTO} (hc : c.address ∈ l.addresses) :
    l.receive fl (clientUpdatePacket c) = l := by
  simp [clientUpdatePacket, Ledger.receive, Ledger.receiveClient, hc]

/-- An unknown client of a snapshot is appended. -/
theorem Ledger.receive_unknown {l : Ledger} {c : ClientDTO} (hc : c.address ∉ l.addresses) :
    l.receive fl (clientUpdatePacket c) =
      { l with
        clients := l.clients ++ [c]
        totalBalance := fl (fl l.totalBalance + c.balance) } := by
  simp [clientUpdatePacket, Ledger.receive, Ledger.receiveClient, hc]

/-- A client leaves unknown whoever else was. -/
theorem Ledger.unknown_receive {c : ClientDTO} {rest : List ClientDTO} (hfresh : c.address ∉ rest.map ClientDTO.address)
    (l : Ledger) : (l.receive fl (clientUpdatePacket c)).unknown rest = l.unknown rest := by
  by_cases hc : c.address ∈ l.addresses
  · rw [Ledger.receive_known fl hc]
  · apply List.filter_congr
    intro c' hc'
    have hne : c'.address ≠ c.address := fun heq => hfresh (heq ▸ List.mem_map_of_mem hc')
    simp [Ledger.receive_unknown fl hc, Ledger.addresses, hne]

/-- The clients of a snapshot are appended where unknown and ignored where known. -/
theorem Ledger.receive_clients {clients : List ClientDTO}
    (hnodup : (clients.map ClientDTO.address).Nodup) (l : Ledger) :
    (clients.map clientUpdatePacket).foldl (Ledger.receive fl) l =
      { l with
        clients := l.clients ++ l.unknown clients
        totalBalance := addBalances fl l.totalBalance (l.unknown clients) } := by
  induction clients generalizing l with
  | nil => simp [Ledger.unknown, addBalances]
  | cons c rest ih =>
    rw [List.map_cons, List.nodup_cons] at hnodup
    obtain ⟨hfresh, hrest⟩ := hnodup
    rw [List.map_cons, List.foldl_cons, ih hrest, Ledger.unknown_receive fl hfresh]
    by_cases hc : c.address ∈ l.addresses
    · rw [Ledger.receive_known fl hc, Ledger.unknown_cons_of_mem hc]
    · rw [Ledger.receive_unknown fl hc, Ledger.unknown_cons_of_notMem hc, List.append_assoc]
      rfl

/-- The log entries of a snapshot are all appended. -/
theorem Ledger.receive_history (history : List Transaction) (l : Ledger) :
    (history.map Packet.addHistoryEntry).foldl (Ledger.receive fl) l =
      { l with
        transactionHistory := l.transactionHistory ++ history
        numTransactions := l.numTransactions + history.length
        totalTransferred := l.totalTransferred + (history.map Transaction.value).sum } := by
  induction history generalizing l with
  | nil => simp
  | cons tx rest ih =>
    rw [List.map_cons, List.foldl_cons, ih]
    simp only [Ledger.receive, Ledger.receiveEntry, List.append_assoc, List.singleton_append,
      List.length_cons, List.map_cons, List.sum_cons]
    congr 1
    · push_cast
      ring
    · ring

/-- What a whole snapshot does to the ledger that receives it. -/
theorem Ledger.receive_snapshotPackets {p : Ledger} (hp : p.addresses.Nodup) (l : Ledger) :
    p.snapshotPackets.foldl (Ledger.receive fl) l =
      { numTransactions := l.numTransactions + p.transactionHistory.length
        totalTransferred := l.totalTransferred + (p.transactionHistory.map Transaction.value).sum
        totalBalance := addBalances fl l.totalBalance (l.unknown p.clients)
        clients := l.clients ++ l.unknown p.clients
        transactionHistory := l.transactionHistory ++ p.transactionHistory } := by
  rw [Ledger.snapshotPackets, List.foldl_append, Ledger.receive_clients fl hp, Ledger.receive_history]

/-! ## A total that is an `int` -/

/-- `total_balance += balance`: the rounded sum is stored to an `int`, which is undefined where it
does not fit. -/
def addToTotal (total balance : ℤ) : Option ℤ :=
  let sum := fl (fl total + balance)
  if IsInt sum then some sum else none

/-- `Server::handleClientUpdate`, with `total_balance` an `int`. -/
def Server.handleClientUpdateInt (s : Server) (data : ClientUpdateData) : Option Server :=
  if s.findClient data.ip = s.clients.length then do
    let newClient := ((ClientDTO.new data.ip).setBalance data.balance).setLastRequest data.lastRequest
    let total ← addToTotal fl s.totalBalance data.balance
    some
      (Server.notify
        { s with
          clients := s.clients ++ [newClient]
          totalBalance := total })
  else some s

/-- The three replication cases of the receive loop, with `total_balance` an `int`. -/
def Server.receiveUpdateInt (s : Server) (packet : Packet) : Option Server :=
  match packet with
  | .addClientUpdate data =>
    if s.currentRole = .backup then s.handleClientUpdateInt fl data else some s
  | packet => some (s.receiveUpdate fl packet)

/-- A server that handles packets in order. -/
def Server.receiveUpdatesInt (s : Server) (packets : List Packet) : Option Server :=
  packets.foldlM (Server.receiveUpdateInt fl) s

/-- Balances that are added one by one never leave the range of `int`. -/
def SumsFit (total : ℤ) : List ClientDTO → Prop
  | [] => True
  | c :: rest => IsInt (fl (fl total + c.balance)) ∧ SumsFit (fl (fl total + c.balance)) rest

instance decidableSumsFit : (total : ℤ) → (clients : List ClientDTO) → Decidable (SumsFit fl total clients)
  | _, [] => .isTrue trivial
  | total, c :: rest =>
    have := decidableSumsFit (fl (fl total + c.balance)) rest
    inferInstanceAs (Decidable (IsInt _ ∧ _))

/-- The sum that an update adds to `total_balance` fits. -/
def Ledger.Fits (l : Ledger) : Packet → Prop
  | .addClientUpdate data => data.ip ∉ l.addresses → IsInt (fl (fl l.totalBalance + data.balance))
  | _ => True

instance Ledger.decidableFits (l : Ledger) : DecidablePred (l.Fits fl)
  | .addClientUpdate _ => inferInstanceAs (Decidable (_ → _))
  | .transactionReq _ | .transactionAck _ | .discovery | .discoveryAck | .registerBackup | .stateUpdate _
  | .stateUpdateAck | .addHistoryEntry _ | .heartbeat | .serverDiscovery | .newPrimaryAnnouncement _
  | .election _ | .electionAnswer _ => .isTrue trivial

/-- The sums that updates add one after the other fit. -/
def Ledger.AllFit (l : Ledger) : List Packet → Prop
  | [] => True
  | packet :: rest => l.Fits fl packet ∧ (l.receive fl packet).AllFit rest

/-- A client update that fits does what it does to an unbounded total, and no other has a result. -/
theorem Server.handleClientUpdateInt_eq_some_iff {s s' : Server} {data : ClientUpdateData} :
    s.handleClientUpdateInt fl data = some s' ↔
      s.toLedger.Fits fl (.addClientUpdate data) ∧ s.handleClientUpdate fl data = s' := by
  by_cases hip : data.ip ∈ s.addresses
  · have hfound : s.findClient data.ip ≠ s.clients.length :=
      fun h => Ledger.findClient_eq_length.mp h hip
    simp [Server.handleClientUpdateInt, Server.handleClientUpdate, Ledger.Fits, hfound, hip]
  · have hend : s.findClient data.ip = s.clients.length := Ledger.findClient_eq_length.mpr hip
    by_cases hfits : IsInt (fl (fl s.totalBalance + data.balance)) <;>
      simp [Server.handleClientUpdateInt, Server.handleClientUpdate, Ledger.Fits, addToTotal, hend, hip, hfits]

/-- An update that fits does what it does to an unbounded total, and no other has a result. -/
theorem Server.receiveUpdateInt_eq_some_iff {s s' : Server} (hs : s.currentRole = .backup) {packet : Packet} :
    s.receiveUpdateInt fl packet = some s' ↔ s.toLedger.Fits fl packet ∧ s.receiveUpdate fl packet = s' := by
  cases packet with
  | addClientUpdate data =>
    simp only [Server.receiveUpdateInt, Server.receiveUpdate, hs, if_true]
    exact Server.handleClientUpdateInt_eq_some_iff fl
  | _ => simp [Server.receiveUpdateInt, Ledger.Fits]

/-- Updates that fit do what they do to an unbounded total, and no others have a result. -/
theorem Server.receiveUpdatesInt_eq_some_iff {s s' : Server} (hs : s.currentRole = .backup)
    {packets : List Packet} :
    s.receiveUpdatesInt fl packets = some s' ↔
      s.toLedger.AllFit fl packets ∧ s.receiveUpdates fl packets = s' := by
  induction packets generalizing s with
  | nil => simp [Server.receiveUpdatesInt, Server.receiveUpdates, Ledger.AllFit]
  | cons packet rest ih =>
    have hrole := (s.receiveUpdate_frame fl packet).1.trans hs
    have hledger := Server.receiveUpdate_toLedger fl hs packet
    calc s.receiveUpdatesInt fl (packet :: rest) = some s' ↔
          ∃ t, s.receiveUpdateInt fl packet = some t ∧ t.receiveUpdatesInt fl rest = some s' := by
          simp [Server.receiveUpdatesInt, Option.bind_eq_some_iff]
      _ ↔ s.toLedger.Fits fl packet ∧ (s.receiveUpdate fl packet).receiveUpdatesInt fl rest = some s' := by
          simp only [Server.receiveUpdateInt_eq_some_iff fl hs, and_assoc, exists_and_left, exists_eq_left']
      _ ↔ _ := by
          rw [ih hrole, hledger, Ledger.AllFit, and_assoc]
          rfl

/-- A log entry always fits. -/
theorem Ledger.allFit_history (history : List Transaction) (l : Ledger) :
    l.AllFit fl (history.map Packet.addHistoryEntry) := by
  induction history generalizing l with
  | nil => trivial
  | cons tx rest ih => exact ⟨trivial, ih _⟩

/-- Two batches of updates fit if each does where it is handled. -/
theorem Ledger.allFit_append {first rest : List Packet} {l : Ledger} :
    l.AllFit fl (first ++ rest) ↔ l.AllFit fl first ∧ (first.foldl (Ledger.receive fl) l).AllFit fl rest := by
  induction first generalizing l with
  | nil => simp [Ledger.AllFit]
  | cons packet first ih => simp [Ledger.AllFit, ih, and_assoc]

/-- The clients of a snapshot fit exactly if the balances of the unknown ones do. -/
theorem Ledger.allFit_clients {clients : List ClientDTO} (hnodup : (clients.map ClientDTO.address).Nodup)
    (l : Ledger) :
    l.AllFit fl (clients.map clientUpdatePacket) ↔ SumsFit fl l.totalBalance (l.unknown clients) := by
  induction clients generalizing l with
  | nil => simp [Ledger.AllFit, Ledger.unknown, SumsFit]
  | cons c rest ih =>
    rw [List.map_cons, List.nodup_cons] at hnodup
    obtain ⟨hfresh, hrest⟩ := hnodup
    rw [List.map_cons, Ledger.AllFit, ih hrest, Ledger.unknown_receive fl hfresh]
    by_cases hc : c.address ∈ l.addresses
    · rw [Ledger.receive_known fl hc, Ledger.unknown_cons_of_mem hc]
      simp [clientUpdatePacket, Ledger.Fits, hc]
    · rw [Ledger.receive_unknown fl hc, Ledger.unknown_cons_of_notMem hc]
      simp [clientUpdatePacket, Ledger.Fits, hc, SumsFit]

end BankReplica
