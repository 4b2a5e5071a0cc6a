import BankReplica.Registration
import BankReplica.Snapshot
import BankReplica.StaleIterators

/-!
# Registering a backup over a FIFO channel

Live updates may overtake the snapshot, because its packets leave after the lock is
released. An update about clients whose snapshot record is already on its way commutes
with the rest, and the backup converges if no sum that goes into either total is rounded. An
update that overtakes the record of one of its own clients makes `handleStateUpdate` create
that client without adding to the total, and the record that follows is then ignored. Where none
does, every update finds its destination known, so none writes through a stale iterator.
-/

namespace BankReplica

open Runs KeyedList

variable (fl : FloatRounding)

/-- The clients some packets are about. -/
def partiesOf (packets : List Packet) : List IpString := packets.flatMap Packet.parties

/-- Packets arrive in the order they were sent. -/
def Fifo (_ : Sync) : SyncEvent → Prop
  | .deliver k => k = 0
  | _ => True

/-- The backup registers when the total is the sum of the balances, and no executed request
names a client whose snapshot record is still unsent. -/
def NotOvertaken (s : Sync) : SyncEvent → Prop
  | .registerBackup => s.primary.totalBalance = (s.primary.clients.map ClientDTO.balance).sum
  | .call (.processTransaction sourceIp destAddr value seqn) =>
    s.primary.verdict fl sourceIp (inetNtop destAddr) value seqn = .success →
      ∀ ip ∈ partiesOf (s.unsent.getD []), ip ≠ sourceIp ∧ ip ≠ inetNtop destAddr
  | _ => True

/-- From the snapshot on, nothing that either server adds to its total is rounded or makes it leave
the range of `int`. -/
def NotRounded (s : Sync) : SyncEvent → Prop
  | .call (.addClient ip) =>
    s.unsent ≠ none → ip ∉ s.primary.addresses →
      ExactSum fl s.primary.totalBalance initialBalance ∧ IsInt (s.primary.totalBalance + initialBalance)
  | .deliver k =>
    ∀ packet ∈ s.inFlight[k]?, s.backup.toLedger.AddsExactly fl packet ∧ s.backup.toLedger.Fits fl packet
  | _ => True

instance (s : Sync) : DecidablePred (Fifo s)
  | .deliver k => inferInstanceAs (Decidable (k = 0))
  | .call _ | .sendAck _ | .registerBackup | .sendSnapshot => .isTrue trivial

instance (s : Sync) : DecidablePred (NotOvertaken fl s)
  | .registerBackup => inferInstanceAs (Decidable (_ = _))
  | .call (.processTransaction _ _ _ _) => inferInstanceAs (Decidable (_ → _))
  | .call (.addClient _) | .sendAck _ | .sendSnapshot | .deliver _ => .isTrue trivial

instance (s : Sync) : DecidablePred (NotRounded fl s)
  | .call (.addClient _) => inferInstanceAs (Decidable (_ → _))
  | .deliver _ => inferInstanceAs (Decidable (∀ packet ∈ (s.inFlight[_]? : Option Packet), _))
  | .call (.processTransaction _ _ _ _) | .sendAck _ | .registerBackup | .sendSnapshot => .isTrue trivial

/-- An initial state whose primary got its ledger by operations of a server. -/
structure Sync.InitialReachable (addr : SockAddr) (s : Sync) : Prop extends Sync.Initial addr s where
  reached : ∃ serverId port ops,
    s.primary.toLedger = ((Server.new serverId port).runOps fl ops).toLedger

/-- Every state update among some packets, handled in order, finds its destination known. -/
def View.Introduces (v : View) : List Packet → Prop
  | [] => True
  | packet :: rest =>
    (∀ data, packet = .stateUpdate data → (v.accounts data.destIp).isSome) ∧ (v.receive packet).Introduces rest

/-- What the backup will hold once every packet sent or to be sent so far has been handled is
what the primary holds. -/
structure Sync.Converging (addr : SockAddr) (s : Sync) : Prop where
  primary : s.primary.currentRole = .primary
  backup : s.backup.currentRole = .backup
  primaryBooks : Bookkept s.primary.toLedger
  backupBooks : Bookkept s.backup.toLedger
  before : s.unsent = none →
    addr ∉ s.primary.backupServers ∧ s.backup.toLedger = {} ∧ s.inFlight = []
  listed : s.unsent ≠ none → s.primary.backupServers.count addr = 1
  registered : ∀ ip ∈ partiesOf (s.unsent.getD []), ip ∈ s.primary.addresses
  converging : ∀ rest, s.unsent = some rest →
    (s.inFlight ++ rest).foldl View.receive s.backup.view = s.primary.view
  snapshot : ∀ packet ∈ s.unsent.getD [], ∀ data, packet ≠ .stateUpdate data
  introduced : s.backup.view.Introduces s.inFlight

/-- The initial states converge. -/
theorem Sync.InitialReachable.converging {addr : SockAddr} {s : Sync}
    (h : Sync.InitialReachable fl addr s) : Sync.Converging addr s where
  primary := h.primary
  backup := h.backup
  primaryBooks := by
    obtain ⟨serverId, port, ops, hops⟩ := h.reached
    rw [hops]
    exact bookkept_empty.runOps ops
  backupBooks := by
    rw [h.empty]
    exact bookkept_empty
  before _ := ⟨h.unlisted, h.empty, h.silent⟩
  listed hsome := absurd h.unregistered hsome
  registered := by simp [h.unregistered, partiesOf]
  converging rest hrest := by
    rw [h.unregistered] at hrest
    contradiction
  snapshot := by simp [h.unregistered]
  introduced := by
    rw [h.silent]
    trivial

/-- Packets leave the accounts of all other clients alone. -/
theorem View.receives_accounts_of_not_mem {packets : List Packet} {ip : IpString} (h : ip ∉ partiesOf packets)
    (v : View) : (packets.foldl View.receive v).accounts ip = v.accounts ip := by
  induction packets generalizing v with
  | nil => rfl
  | cons packet rest ih =>
    rw [partiesOf, List.flatMap_cons, List.mem_append, not_or] at h
    rw [List.foldl_cons, ih h.2, View.receive_accounts_of_not_mem h.1]

/-- A packet sent last finds what the ones before it leave. -/
theorem View.introduces_concat {packets : List Packet} {packet : Packet} {v : View} :
    v.Introduces (packets ++ [packet]) ↔ v.Introduces packets ∧
      ∀ data, packet = .stateUpdate data → ((packets.foldl View.receive v).accounts data.destIp).isSome := by
  induction packets generalizing v with
  | nil => simp [View.Introduces]
  | cons first rest ih => simp [View.Introduces, ih, and_assoc]

/-- A snapshot has no state update. -/
theorem not_stateUpdate_of_snapshot {l : Ledger} {packet : Packet} (h : packet ∈ l.snapshotPackets)
    (data : StateUpdateData) : packet ≠ .stateUpdate data := by
  cases List.mem_append.mp h with
  | inl hclient =>
    obtain ⟨c, -, rfl⟩ := List.mem_map.mp hclient
    exact nofun
  | inr hentry =>
    obtain ⟨tx, -, rfl⟩ := List.mem_map.mp hentry
    exact nofun

/-- The clients of a snapshot are the registered ones. -/
theorem partiesOf_snapshotPackets (l : Ledger) : partiesOf l.snapshotPackets = l.addresses := by
  have hclients : (l.clients.map clientUpdatePacket).flatMap Packet.parties = l.addresses := by
    rw [List.flatMap_map, Ledger.addresses, List.map_eq_flatMap]
    congr 1
    funext c
    simp [clientUpdatePacket, Packet.parties]
  have hhistory : (l.transactionHistory.map Packet.addHistoryEntry).flatMap Packet.parties = [] := by
    simp [Packet.parties]
  rw [partiesOf, Ledger.snapshotPackets, List.flatMap_append, hclients, hhistory, List.append_nil]

/-- An empty backup that handles a snapshot holds the primary's accounts, and its total if
that is the sum of the balances. -/
theorem view_receive_snapshot {p : Ledger} (hp : Bookkept p)
    (htotal : p.totalBalance = (p.clients.map ClientDTO.balance).sum) :
    p.snapshotPackets.foldl View.receive (Ledger.view {}) = p.view := by
  rw [← Ledger.view_receives, Ledger.receive_snapshotPackets exactBalances hp.nodup, unknown_empty,
    addBalances_exact]
  refine congrArg₂ View.mk rfl ?_
  rw [htotal]
  exact zero_add _

/-- A call forgets no address. -/
theorem Ledger.mem_addresses_apply {l : Ledger} {ip : IpString} (hip : ip ∈ l.addresses) (c : Call) :
    ip ∈ (l.apply fl c).addresses := by
  cases c with
  | addClient new =>
    simp only [Ledger.apply]
    split
    · exact hip
    · rw [Ledger.register_addresses]
      exact List.mem_append_left _ hip
  | processTransaction sourceIp destAddr value seqn =>
    simp only [Ledger.apply]
    split
    · rw [Ledger.commit_addresses]
      exact hip
    · exact hip

/-- A call that changes the ledger names no client of the unsent snapshot. -/
theorem NotOvertaken.parties {s : Sync} {c : Call} (h : NotOvertaken fl s (.call c))
    (hregistered : ∀ ip ∈ partiesOf (s.unsent.getD []), ip ∈ s.primary.addresses)
    (haccepts : s.primary.Accepts fl c) {ip : IpString} (hip : ip ∈ c.parties) :
    ip ∉ partiesOf (s.unsent.getD []) := by
  intro hunsent
  cases c with
  | addClient new =>
    rw [List.mem_singleton.mp hip] at hunsent
    exact haccepts (hregistered new hunsent)
  | processTransaction sourceIp destAddr value seqn =>
    obtain ⟨hsource, hdest⟩ := h haccepts ip hunsent
    rcases List.mem_pair.mp hip with heq | heq
    · exact hsource heq
    · exact hdest heq

/-- The packet of a call that rounds nothing adds exactly. -/
theorem Sync.Converging.addsExactly {addr : SockAddr} {s : Sync} (h : Sync.Converging addr s) {c : Call}
    (hexact : NotRounded fl s (.call c)) (hsome : s.unsent ≠ none) {packet : Packet}
    (hsends : (s.primary.call fl c).2 = s.primary.backupServers.map fun b => ⟨b, packet⟩)
    (hparties : packet.parties = c.parties) : s.primary.AddsExactly fl packet := by
  have hlisted : addr ∈ s.primary.backupServers := List.count_pos_iff.mp (by rw [h.listed hsome]; exact Nat.one_pos)
  have hsend : (⟨addr, packet⟩ : Send) ∈ (s.primary.call fl c).2 := hsends ▸ List.mem_map_of_mem hlisted
  cases packet with
  | addClientUpdate data =>
    intro hnew
    rw [Server.balance_of_call_sends fl h.primary hsend rfl]
    cases c with
    | addClient ip =>
      obtain rfl := List.singleton_inj.mp hparties
      exact (hexact hsome hnew).1
    | processTransaction sourceIp destAddr value seqn => simp [Packet.parties, Call.parties] at hparties
  | _ => trivial

/-- The packet of a call finds its destination introduced. -/
theorem Sync.Converging.introduced_call {addr : SockAddr} {s : Sync} (h : Sync.Converging addr s) {c : Call}
    (hguard : NotOvertaken fl s (.call c)) :
    s.backup.view.Introduces (s.inFlight ++ packetsTo addr (s.primary.call fl c).2) := by
  rcases Server.call_sends fl h.primary c with ⟨hsends, -⟩ | ⟨packet, hsends, -, hparties, haccepts⟩
  · simpa [hsends, packetsTo] using h.introduced
  · rw [hsends, packetsTo_broadcast]
    cases hunsent : s.unsent with
    | none => simpa [List.count_eq_zero_of_not_mem (h.before hunsent).1] using h.introduced
    | some rest =>
      rw [h.listed (by simp [hunsent]), List.replicate_one, View.introduces_concat]
      refine ⟨h.introduced, fun data hdata => ?_⟩
      subst hdata
      have hparty : data.destIp ∈ c.parties := hparties ▸ List.mem_cons_of_mem _ (List.mem_singleton_self _)
      have hlate := hguard.parties fl h.registered haccepts hparty
      rw [hunsent, Option.getD_some] at hlate
      have hknown : (s.primary.view.accounts data.destIp).isSome := by
        refine Ledger.account_isSome.mpr ?_
        cases c with
        | addClient ip => simp [Packet.parties, Call.parties] at hparties
        | processTransaction sourceIp destAddr value seqn =>
          obtain ⟨source, dest, -, hdest, -⟩ := (Ledger.verdict_eq_success fl).mp haccepts
          have hdestIp : data.destIp = inetNtop destAddr :=
            List.head_eq_of_cons_eq (List.tail_eq_of_cons_eq hparties)
          exact Ledger.account_isSome.mp (hdestIp ▸ Option.isSome_of_mem hdest)
      rw [← h.converging rest hunsent, List.foldl_append, View.receives_accounts_of_not_mem hlate] at hknown
      exact hknown

/-- A call's packet commutes with the part of the snapshot it overtakes. -/
theorem Sync.Converging.call {addr : SockAddr} {s : Sync} (h : Sync.Converging addr s) {c : Call}
    (hguard : NotOvertaken fl s (.call c)) (hexact : NotRounded fl s (.call c)) :
    Sync.Converging addr
      { s with
        primary := (s.primary.call fl c).1
        inFlight := s.inFlight ++ packetsTo addr (s.primary.call fl c).2
        owed := s.owed ++ s.primary.executed fl c } := by
  obtain ⟨hrole, hbackups⟩ := s.primary.call_frame fl c
  have hledger := s.primary.call_toLedger fl c
  refine ⟨hrole.trans h.primary, h.backup, hledger ▸ h.primaryBooks.apply c, h.backupBooks, ?_, ?_, ?_, ?_,
    h.snapshot, ?_⟩
  · intro hnone
    obtain ⟨hunlisted, hempty, hsilent⟩ := h.before hnone
    refine ⟨hbackups ▸ hunlisted, hempty, ?_⟩
    rcases Server.call_sends fl h.primary c with ⟨hsends, -⟩ | ⟨packet, hsends, -⟩
    · simp [hsilent, hsends, packetsTo]
    · simp [hsilent, hsends, packetsTo_broadcast, List.count_eq_zero_of_not_mem hunlisted]
  · intro hsome
    exact hbackups ▸ h.listed hsome
  · intro ip hip
    exact hledger ▸ Ledger.mem_addresses_apply fl (h.registered ip hip) c
  · intro rest (hrest : s.unsent = some rest)
    have hconverging := h.converging rest hrest
    rcases Server.call_sends fl h.primary c with
      ⟨hsends, hkeep⟩ | ⟨packet, hsends, hreceive, hparties, haccepts⟩
    · rw [hkeep, hsends]
      simpa [packetsTo] using hconverging
    · have hlisted := h.listed (by simp [hrest])
      have hdisjoint : ∀ other ∈ rest, packet.parties.Disjoint other.parties := by
        intro other hother ip hip hip'
        refine hguard.parties fl h.registered haccepts (hparties ▸ hip) ?_
        rw [hrest]
        exact List.mem_flatMap.mpr ⟨other, hother, hip'⟩
      have hadds : s.primary.AddsExactly fl packet :=
        h.addsExactly fl hexact (by simp [hrest]) hsends hparties
      calc (s.inFlight ++ packetsTo addr (s.primary.call fl c).2 ++ rest).foldl View.receive
              s.backup.view =
            rest.foldl View.receive ((s.inFlight.foldl View.receive s.backup.view).receive packet) := by
            rw [hsends, packetsTo_broadcast, hlisted, List.replicate_one, List.foldl_append,
              List.foldl_append]
            rfl
        _ = ((s.inFlight ++ rest).foldl View.receive s.backup.view).receive packet := by
            rw [View.receive_foldl_comm hdisjoint, List.foldl_append]
        _ = (s.primary.call fl c).1.view := by
            rw [hconverging, hreceive, Ledger.view_receive fl hadds]
  · exact h.introduced_call fl hguard

/-- One step that overtakes no record of its own clients keeps converging. -/
theorem Sync.Converging.step {addr : SockAddr} {s t : Sync} (h : Sync.Converging addr s) {e : SyncEvent}
    (hfifo : Fifo s e) (hguard : NotOvertaken fl s e) (hexact : NotRounded fl s e)
    (hstep : s.step fl addr e = some t) : Sync.Converging addr t := by
  cases e with
  | call c =>
    rw [← Option.some.inj hstep]
    exact h.call fl hguard hexact
  | sendAck k =>
    obtain ⟨tx, -, ht⟩ := Option.bind_eq_some_iff.mp hstep
    rw [← Option.some.inj ht]
    exact { h with }
  | registerBackup =>
    simp only [Sync.step] at hstep
    split at hstep
    · rename_i hnone
      rw [← Option.some.inj hstep]
      obtain ⟨hunlisted, hempty, hsilent⟩ := h.before hnone
      refine ⟨h.primary, h.backup, h.primaryBooks, h.backupBooks, fun hsome => by contradiction,
        fun _ => ?_, ?_, fun rest hrest => ?_, ?_, h.introduced⟩
      · simp [Server.registerBackup, List.count_append, List.count_eq_zero_of_not_mem hunlisted]
      · rw [packetsTo_registerBackup, Option.getD_some, partiesOf_snapshotPackets]
        exact fun ip hip => hip
      · rw [packetsTo_registerBackup, Option.some.injEq] at hrest
        rw [hsilent, List.nil_append, ← hrest, hempty]
        exact view_receive_snapshot h.primaryBooks hguard
      · rw [packetsTo_registerBackup]
        exact fun packet hpacket => not_stateUpdate_of_snapshot hpacket
    · contradiction
  | sendSnapshot =>
    simp only [Sync.step] at hstep
    split at hstep
    · rename_i packet rest hunsent
      rw [← Option.some.inj hstep]
      refine ⟨h.primary, h.backup, h.primaryBooks, h.backupBooks, fun hnone => by contradiction,
        fun _ => h.listed (by simp [hunsent]), fun ip hip => ?_, fun rest' hrest => ?_, fun other hother => ?_, ?_⟩
      · refine h.registered ip ?_
        rw [hunsent]
        exact List.mem_append_right _ hip
      · rw [← Option.some.inj hrest, List.append_assoc]
        exact h.converging _ hunsent
      · refine h.snapshot other ?_
        rw [hunsent]
        exact List.mem_cons_of_mem _ hother
      · refine View.introduces_concat.mpr ⟨h.introduced, fun data hdata => absurd hdata ?_⟩
        exact h.snapshot packet (by simp [hunsent]) data
    · contradiction
  | deliver k =>
    obtain ⟨packet, hpacket, ht⟩ := Option.bind_eq_some_iff.mp hstep
    rw [← Option.some.inj ht]
    have hk : k = 0 := hfifo
    subst hk
    obtain ⟨others, hothers⟩ := List.head?_eq_some_iff.mp (List.head?_eq_getElem? ▸ hpacket)
    have hledger := Server.receiveUpdate_toLedger fl h.backup packet
    refine ⟨h.primary, (s.backup.receiveUpdate_frame fl packet).1.trans h.backup,
      h.primaryBooks, hledger ▸ h.backupBooks.receive fl packet, fun hnone => ?_, h.listed, h.registered,
      fun rest hrest => ?_, h.snapshot, ?_⟩
    · rw [(h.before hnone).2.2] at hpacket
      simp at hpacket
    · have hconverging := h.converging rest hrest
      rw [hothers, List.cons_append, List.foldl_cons] at hconverging
      rw [hothers, List.eraseIdx_zero, List.tail_cons, hledger,
        Ledger.view_receive fl (hexact packet hpacket).1]
      exact hconverging
    · have hintroduced := h.introduced
      rw [hothers] at hintroduced
      rw [hothers, List.eraseIdx_zero, List.tail_cons, hledger,
        Ledger.view_receive fl (hexact packet hpacket).1]
      exact hintroduced.2

/-- The packet at the head of the channel goes through live iterators, however the vector of the
backup grows, and leaves a total in the range of `int`. -/
theorem Sync.Converging.live {addr : SockAddr} {s : Sync} (h : Sync.Converging addr s)
    (hexact : NotRounded fl s (.deliver 0)) {packet : Packet} (hpacket : s.inFlight[0]? = some packet)
    (grow : GrowingVector.Growth) (spare : ℕ) :
    (∃ spare', Backup.receive fl grow ⟨s.backup, spare⟩ packet = some ⟨s.backup.receiveUpdate fl packet, spare'⟩) ∧
      s.backup.receiveUpdateInt fl packet = some (s.backup.receiveUpdate fl packet) := by
  constructor
  · refine Backup.receive_of_fits fl (b := ⟨s.backup, spare⟩) h.backup ?_
    obtain ⟨others, hothers⟩ := List.head?_eq_some_iff.mp (List.head?_eq_getElem? ▸ hpacket)
    have hintroduced := h.introduced
    rw [hothers] at hintroduced
    cases packet with
    | stateUpdate data => exact .inl (Ledger.account_isSome.mp (hintroduced.1 data rfl))
    | _ => trivial
  · exact (Server.receiveUpdateInt_eq_some_iff fl h.backup).mpr ⟨(hexact packet hpacket).2, rfl⟩

/-- In every run over a FIFO channel in which no executed request overtakes the snapshot record
of one of its clients and no total is rounded, once every packet has been handled the backup
holds the primary's client records, in some order, and its total. -/
theorem registration_converges {addr : SockAddr} {s : Sync}
    (h : Reachable (Sync.step fl addr) (fun s e => Fifo s e ∧ NotOvertaken fl s e ∧ NotRounded fl s e)
      (Sync.InitialReachable fl addr) s)
    (hsent : s.unsent = some []) (hhandled : s.inFlight = []) :
    s.backup.clients.Perm s.primary.clients ∧ s.backup.totalBalance = s.primary.totalBalance := by
  have hconverging : Sync.Converging addr s :=
    h.invariant (fun _ hs => hs.converging) (fun _ _ _ hs hg hstep => hs.step fl hg.1 hg.2.1 hg.2.2 hstep)
  have hview := hconverging.converging [] hsent
  rw [hhandled] at hview
  have hbackup := hconverging.backupBooks.nodup
  have hprimary := hconverging.primaryBooks.nodup
  have hmem := mem_iff_of_lookup_eq ClientDTO.address hbackup hprimary (congrFun (congrArg View.accounts hview))
  exact ⟨(List.perm_ext_iff_of_nodup (List.Nodup.of_map _ hbackup) (List.Nodup.of_map _ hprimary)).mpr hmem,
    congrArg View.total hview⟩

/-- The fresh primary got its ledger by no operation at all. -/
theorem freshSync_initialReachable : Sync.InitialReachable singlePrecision (testHost 3) freshSync where
  toInitial := freshSync_initial
  reached := ⟨2, 4000, [], rfl⟩

/-- A transfer executed after its clients' records have left overtakes the log only, and the
backup converges. -/
theorem registration_converges_amid_transfer :
    ∃ s : Sync, (s.primary.transactionHistory.length = 1 ∧ s.backup.clients.length = 1) ∧
      s.backup.clients.Perm s.primary.clients ∧ s.backup.totalBalance = s.primary.totalBalance := by
  obtain ⟨s, hreach, htest⟩ := exists_reachable_of_replay (Sync.step singlePrecision (testHost 3))
    (fun s e => Fifo s e ∧ NotOvertaken singlePrecision s e ∧ NotRounded singlePrecision s e)
    (Sync.InitialReachable singlePrecision (testHost 3))
    [.call (.addClient (inetNtop (testHost 21).sinAddr)), .registerBackup, .sendSnapshot,
      selfTransfer 100 1, .deliver 0, .deliver 0]
    (fun s => decide (s.unsent = some [] ∧ s.inFlight = [] ∧
      s.primary.transactionHistory.length = 1 ∧ s.backup.clients.length = 1))
    freshSync_initialReachable (by decide +kernel)
  obtain ⟨hsent, hhandled, hlengths⟩ := of_decide_eq_true htest
  exact ⟨s, hlengths, registration_converges singlePrecision hreach hsent hhandled⟩

/-- A self-transfer that overtakes its client's snapshot record leaves the backup with a total
of 0, once every packet has been handled. -/
theorem overtaken_snapshot_loses_total :
    ∃ s, Reachable (Sync.step singlePrecision (testHost 3)) Fifo
        (Sync.InitialReachable singlePrecision (testHost 3)) s ∧
      s.unsent = some [] ∧ s.inFlight = [] ∧ s.backup.totalBalance = 0 ∧
      s.primary.totalBalance = initialBalance := by
  obtain ⟨s, hreach, htest⟩ := exists_reachable_of_replay (Sync.step singlePrecision (testHost 3)) Fifo
    (Sync.InitialReachable singlePrecision (testHost 3))
    [.call (.addClient (inetNtop (testHost 21).sinAddr)), .registerBackup, selfTransfer 100 1,
      .sendSnapshot, .deliver 0, .deliver 0]
    (fun s => decide (s.unsent = some [] ∧ s.inFlight = [] ∧ s.backup.totalBalance = 0 ∧
      s.primary.totalBalance = initialBalance))
    freshSync_initialReachable (by decide +kernel)
  exact ⟨s, hreach, of_decide_eq_true htest⟩

end BankReplica
