import BankReplica.Snapshot

/-!
# Resynchronisation after a failover

A server that hears a new primary registers with it and receives a whole snapshot. No
handler clears the ledger first: history entries are appended to the ones already held
and known clients are not overwritten. So the snapshot restores equality exactly for a
server whose log is empty and whose clients the snapshot extends, where the balances that
are added one by one keep `total_balance` in the range of `int` and end at the primary's.
-/

namespace BankReplica

variable (fl : FloatRounding)

/-- `s` handles the announcement of `p`, `p` the `REGISTER_BACKUP` this sends it, and `s` the
packets of the snapshot in order. -/
def resync (s p : Server) (sAddr pAddr : SockAddr) : Option Server :=
  let (demoted, registration) := s.handleNewPrimaryAnnouncementPacket p.serverId pAddr
  let snapshot :=
    if .registerBackup ∈ packetsTo pAddr registration ∧ p.currentRole = .primary then
      packetsTo sAddr (p.registerBackup sAddr).2
    else []
  demoted.receiveUpdatesInt fl snapshot

/-- The snapshot of a new primary extends what a server holds: nothing is logged yet, its
clients are the first ones of the primary, and the other ones' balances, added one by one to its
total, stay in the range of `int` and give the primary's total. -/
structure Extends (p s : Ledger) : Prop where
  history : s.transactionHistory = []
  clients : s.clients <+: p.clients
  fits : SumsFit fl s.totalBalance (p.clients.drop s.clients.length)
  total : addBalances fl s.totalBalance (p.clients.drop s.clients.length) = p.totalBalance

/-- Where a server's clients are the first ones of the primary, the others are unknown to it. -/
theorem unknown_of_firstClients {p s : Ledger} (hp : p.addresses.Nodup) (hfirst : s.clients <+: p.clients) :
    s.unknown p.clients = p.clients.drop s.clients.length := by
  obtain ⟨others, hothers⟩ := hfirst
  rw [Ledger.addresses, ← hothers, List.map_append, List.nodup_append] at hp
  have hknown : s.unknown s.clients = [] := by
    rw [Ledger.unknown, List.filter_eq_nil_iff]
    intro c hc
    have hmem : c.address ∈ s.addresses := List.mem_map_of_mem hc
    simpa using hmem
  have hnew : s.unknown others = others := by
    rw [Ledger.unknown, List.filter_eq_self]
    intro c hc
    have hdisjoint : ∀ ip ∈ s.addresses, ip ≠ c.address := fun ip hip =>
      hp.2.2 ip hip c.address (List.mem_map_of_mem hc)
    simpa using fun hmem : c.address ∈ s.addresses => hdisjoint _ hmem rfl
  calc s.unknown p.clients = s.unknown s.clients ++ s.unknown others := by
        rw [← hothers]
        exact List.filter_append _ _
    _ = p.clients.drop s.clients.length := by
        rw [hknown, hnew, ← hothers, List.drop_left, List.nil_append]

/-- A resynchronised server holds what the snapshot makes of its ledger, if the balances fit. -/
theorem resync_eq_some_iff {s p : Server} (hids : p.serverId ≠ s.serverId) (hp : p.currentRole = .primary)
    (hnodup : p.addresses.Nodup) (sAddr pAddr : SockAddr) {l : Ledger} :
    (resync fl s p sAddr pAddr).map Server.toLedger = some l ↔
      SumsFit fl s.totalBalance (s.unknown p.clients) ∧
        p.snapshotPackets.foldl (Ledger.receive fl) s.toLedger = l := by
  obtain ⟨hrole, hregisters⟩ := Server.handleNewPrimaryAnnouncementPacket_other hids pAddr
  have hsent : Packet.registerBackup ∈ packetsTo pAddr [⟨pAddr, .registerBackup⟩] := by
    simp [packetsTo]
  have hfits : s.toLedger.AllFit fl p.snapshotPackets ↔ SumsFit fl s.totalBalance (s.unknown p.clients) := by
    rw [Ledger.snapshotPackets, Ledger.allFit_append, Ledger.allFit_clients fl hnodup]
    exact and_iff_left (Ledger.allFit_history fl _ _)
  simp only [resync, hregisters, hsent, hp, and_self, if_true, packetsTo_registerBackup, Option.map_eq_some_iff,
    Server.receiveUpdatesInt_eq_some_iff fl hrole, Server.handleNewPrimaryAnnouncementPacket_toLedger, hfits,
    and_assoc, exists_and_left, exists_eq_left', Server.receiveUpdates_toLedger fl hrole]

/-- A snapshot whose balances fit restores equality exactly on the ledgers it extends. -/
theorem receive_snapshotPackets_eq_iff {p s : Ledger} (hp : Bookkept p) (hs : Bookkept s) :
    SumsFit fl s.totalBalance (s.unknown p.clients) ∧ p.snapshotPackets.foldl (Ledger.receive fl) s = p ↔
      Extends fl p s := by
  rw [Ledger.receive_snapshotPackets fl hp.nodup]
  constructor
  · rintro ⟨hfits, heq⟩
    have hclients : s.clients ++ s.unknown p.clients = p.clients := congrArg Ledger.clients heq
    have htotal : addBalances fl s.totalBalance (s.unknown p.clients) = p.totalBalance :=
      congrArg Ledger.totalBalance heq
    have hhistory : s.transactionHistory ++ p.transactionHistory = p.transactionHistory :=
      congrArg Ledger.transactionHistory heq
    have hfirst : s.clients <+: p.clients := ⟨_, hclients⟩
    rw [unknown_of_firstClients hp.nodup hfirst] at hfits htotal
    exact ⟨List.append_left_eq_self.mp hhistory, hfirst, hfits, htotal⟩
  · rintro ⟨hhistory, hfirst, hfits, htotal⟩
    have hclients : s.clients ++ s.unknown p.clients = p.clients := by
      rw [unknown_of_firstClients hp.nodup hfirst]
      exact (List.prefix_iff_eq_append.mp hfirst)
    have hcounted : s.numTransactions = 0 := by
      rw [hs.counted, hhistory]
      rfl
    have htransferred : s.totalTransferred = 0 := by
      rw [hs.transferred, hhistory]
      rfl
    rw [hclients, unknown_of_firstClients hp.nodup hfirst, htotal, hhistory, hcounted, htransferred,
      zero_add, zero_add, List.nil_append, ← hp.counted, ← hp.transferred]
    exact ⟨hfits, rfl⟩

/-- For every server and every primary, each after any operations, resynchronisation makes
their ledgers equal exactly when the primary's extends the server's. -/
theorem resync_restores_equality_iff (sId pId : Word) (port : UInt16) (sOps pOps : List ServerOp)
    (sAddr pAddr : SockAddr) :
    let s := (Server.new sId port).runOps fl sOps
    let p := (Server.new pId port).runOps fl pOps
    p.serverId ≠ s.serverId → p.currentRole = .primary →
      ((resync fl s p sAddr pAddr).map Server.toLedger = some (p.registerBackup sAddr).1.toLedger ↔
        Extends fl p.toLedger s.toLedger) := by
  intro s p hids hp
  have hs : Bookkept s.toLedger := bookkept_empty.runOps sOps
  have hbooks : Bookkept p.toLedger := bookkept_empty.runOps pOps
  rw [resync_eq_some_iff fl hids hp hbooks.nodup]
  exact receive_snapshotPackets_eq_iff fl hbooks hs

/-- The operations of a primary that registers client 21 and executes a self-transfer. -/
def primaryOps : List ServerOp :=
  [.promoteToPrimary, .call (.addClient (inetNtop (testHost 21).sinAddr)),
    .call (.processTransaction (inetNtop (testHost 21).sinAddr) (testHost 21).sinAddr 100 1)]

/-- A former primary whose ledger is already equal to the new one's ends with every history
entry twice. -/
theorem resync_duplicates_equal_history :
    let s := (Server.new 2 4000).runOps singlePrecision primaryOps
    let p := (Server.new 3 4000).runOps singlePrecision primaryOps
    s.toLedger = p.toLedger ∧ p.serverId ≠ s.serverId ∧ p.currentRole = .primary ∧
      ((resync singlePrecision s p (testHost 2) (testHost 3)).map fun r => r.transactionHistory) =
        some (p.transactionHistory ++ p.transactionHistory) ∧
      (resync singlePrecision s p (testHost 2) (testHost 3)).map Server.toLedger ≠ some p.toLedger := by
  decide +kernel

/-- An empty server is brought up to date. -/
theorem resync_restores_empty_server :
    (resync singlePrecision ((Server.new 2 4000).runOps singlePrecision [])
        ((Server.new 3 4000).runOps singlePrecision primaryOps) (testHost 2) (testHost 3)).map Server.toLedger =
      some (((Server.new 3 4000).runOps singlePrecision primaryOps).registerBackup (testHost 2)).1.toLedger :=
  (resync_restores_equality_iff singlePrecision 2 3 4000 [] primaryOps (testHost 2) (testHost 3)
    (by decide +kernel) (by decide +kernel)).mpr
      ⟨by decide +kernel, by decide +kernel, by decide +kernel, by decide +kernel⟩

end BankReplica
