import BankReplica.AccountView
import BankReplica.Registration
import BankReplica.Sequencing
import BankReplica.Snapshot
import Mathlib.Data.List.Induction

/-!
# The packets a primary sends to one backup

A record of a client on a backup is a function of the packets about that client, whatever
the rounding of balances. In the order in which a primary sends them, every client is
introduced before its first `STATE_UPDATE`, every `STATE_UPDATE` advances the last request
of its source, and the packets hold exactly the primary's accounts and its log.
-/

namespace BankReplica

open KeyedList

variable (fl : FloatRounding)

/-! ## One record -/

/-- What a packet does to the record of one client. -/
def receiveAccount (ip : IpString) (found : Option ClientDTO) : Packet → Option ClientDTO
  | .addClientUpdate data =>
    if ip = data.ip then some (found.getD ⟨data.ip, data.lastRequest, data.balance⟩) else found
  | .stateUpdate data =>
    if ip = data.sourceIp ∨ ip = data.destIp then some (data.written ip (found.getD (.new ip))) else found
  | _ => found

/-- The record of one client on a backup that started empty and handled some packets. -/
def accountAfter (ip : IpString) (packets : List Packet) : Option ClientDTO :=
  packets.foldl (receiveAccount ip) none

theorem accountAfter_concat (ip : IpString) (packets : List Packet) (packet : Packet) :
    accountAfter ip (packets ++ [packet]) = receiveAccount ip (accountAfter ip packets) packet := by
  simp only [accountAfter, List.foldl_append, List.foldl_cons, List.foldl_nil]

/-- A packet acts on each account alone. -/
theorem Ledger.account_receive (l : Ledger) (packet : Packet) (ip : IpString) :
    (l.receive fl packet).account ip = receiveAccount ip (l.account ip) packet := by
  cases packet with
  | addClientUpdate data =>
    simp only [Ledger.receive, Ledger.receiveClient, receiveAccount]
    split
    · rename_i hknown
      split
      · rename_i hip
        obtain ⟨c, hc⟩ := Option.isSome_iff_exists.mp (Ledger.account_isSome.mpr (hip ▸ hknown))
        rw [hc]
        rfl
      · rfl
    · rename_i hnew
      refine (lookup_append_client (c := ⟨data.ip, data.lastRequest, data.balance⟩) hnew ip).trans ?_
      split
      · rename_i hip
        have hmiss : l.account ip = none := (lookup_eq_none _).mpr (hip ▸ hnew)
        rw [hmiss]
        rfl
      · rfl
  | stateUpdate data => exact lookup_receiveRecords l.clients data ip
  | _ => rfl

/-- A list of packets acts on each account alone. -/
theorem Ledger.account_receives (l : Ledger) (packets : List Packet) (ip : IpString) :
    (packets.foldl (Ledger.receive fl) l).account ip = packets.foldl (receiveAccount ip) (l.account ip) := by
  induction packets generalizing l with
  | nil => rfl
  | cons packet rest ih => rw [List.foldl_cons, ih, Ledger.account_receive, List.foldl_cons]

/-- A list of packets appends the entries it carries. -/
theorem Ledger.history_receives (l : Ledger) (packets : List Packet) :
    (packets.foldl (Ledger.receive fl) l).transactionHistory =
      l.transactionHistory ++ packets.flatMap Packet.logged := by
  induction packets generalizing l with
  | nil => simp
  | cons packet rest ih =>
    have hstep : (l.receive fl packet).transactionHistory = l.transactionHistory ++ packet.logged := by
      cases packet with
      | addClientUpdate data =>
        simp only [Ledger.receive, Ledger.receiveClient]
        split <;> exact (List.append_nil _).symm
      | stateUpdate data => rfl
      | addHistoryEntry tx => rfl
      | _ => exact (List.append_nil _).symm
    rw [List.foldl_cons, ih, hstep, List.flatMap_cons, List.append_assoc]

/-- A packet about a client leaves a record, and no other packet does anything to one. -/
theorem receiveAccount_eq (ip : IpString) (found : Option ClientDTO) (packet : Packet) :
    if ip ∈ packet.parties then (receiveAccount ip found packet).isSome
    else receiveAccount ip found packet = found := by
  cases packet with
  | addClientUpdate data =>
    by_cases hip : ip = data.ip <;> simp [Packet.parties, receiveAccount, hip]
  | stateUpdate data =>
    by_cases hip : ip = data.sourceIp ∨ ip = data.destIp
    · simp [Packet.parties, receiveAccount, hip]
    · simp [Packet.parties, receiveAccount, hip]
  | _ => simp [Packet.parties, receiveAccount]

/-- A client has a record once some packet was about it. -/
theorem accountAfter_isSome {ip : IpString} {packets : List Packet} :
    (accountAfter ip packets).isSome ↔ ∃ packet ∈ packets, ip ∈ packet.parties := by
  induction packets using List.reverseRecOn with
  | nil => simp [accountAfter]
  | append_singleton packets packet ih =>
    have hlast := receiveAccount_eq ip (accountAfter ip packets) packet
    rw [accountAfter_concat]
    split at hlast
    · rename_i hip
      exact iff_of_true hlast ⟨packet, by simp, hip⟩
    · rename_i hip
      rw [hlast, ih]
      simp [or_and_right, exists_or, hip]

/-! ## A run of a primary -/

/-- The operations of a primary that send replication packets. -/
inductive PrimaryOp
  | call (c : Call)
  | registerBackup (backupAddr : SockAddr)
deriving DecidableEq

/-- One operation, with the packets it sends. -/
def Server.primaryOp (s : Server) : PrimaryOp → Server × List Send
  | .call c => s.call fl c
  | .registerBackup backupAddr => s.registerBackup backupAddr

/-- A run of operations. -/
def Server.runPrimary (s : Server) (ops : List PrimaryOp) : Server :=
  ops.foldl (fun s op => (s.primaryOp fl op).1) s

/-- The packets a run sends to one backup, in the order of the operations. -/
def Server.stream (s : Server) (addr : SockAddr) : List PrimaryOp → List Packet
  | [] => []
  | op :: rest => packetsTo addr (s.primaryOp fl op).2 ++ (s.primaryOp fl op).1.stream addr rest

theorem Server.runPrimary_append (s : Server) (first rest : List PrimaryOp) :
    s.runPrimary fl (first ++ rest) = (s.runPrimary fl first).runPrimary fl rest :=
  List.foldl_append

theorem Server.stream_append (s : Server) (addr : SockAddr) (first rest : List PrimaryOp) :
    s.stream fl addr (first ++ rest) = s.stream fl addr first ++ (s.runPrimary fl first).stream fl addr rest := by
  induction first generalizing s with
  | nil => rfl
  | cons op first ih =>
    rw [List.cons_append, Server.stream, ih, Server.stream, List.append_assoc]
    rfl

/-- The packet is a `STATE_UPDATE` about the client. -/
def Packet.updates (ip : IpString) : Packet → Bool
  | .stateUpdate data => ip = data.sourceIp ∨ ip = data.destIp
  | _ => false

/-- What the packets sent so far say of the ledger they come from. -/
structure Stream (packets : List Packet) (l : Ledger) : Prop where
  sequenced : Sequenced l
  logged : packets.flatMap Packet.logged = l.transactionHistory
  account : ∀ ip, accountAfter ip packets = l.account ip
  single : ∀ client other, .addClientUpdate client ∈ packets → .addClientUpdate other ∈ packets →
    client.ip = other.ip → client = other
  introduced : ∀ sent packet ip, sent ++ [packet] <+: packets → packet.updates ip = true →
    ∃ client, client.ip = ip ∧ .addClientUpdate client ∈ sent
  advances : ∀ sent data, sent ++ [.stateUpdate data] <+: packets →
    ∃ c, accountAfter data.sourceIp sent = some c ∧ c.lastReq < data.transaction.clientSeqn

/-- A packet that updates a client is about it. -/
theorem Packet.mem_parties_of_updates {ip : IpString} {packet : Packet} (h : packet.updates ip = true) :
    ip ∈ packet.parties := by
  cases packet with
  | stateUpdate data => simpa [Packet.updates, Packet.parties] using h
  | _ => contradiction

/-- A packet about a client introduces or updates it. -/
theorem Packet.introduces_or_updates {ip : IpString} {packet : Packet} (h : ip ∈ packet.parties) :
    (∃ client, client.ip = ip ∧ packet = .addClientUpdate client) ∨ packet.updates ip = true := by
  cases packet with
  | addClientUpdate data => exact .inl ⟨data, (List.mem_singleton.mp h).symm, rfl⟩
  | stateUpdate data => exact .inr (by simpa [Packet.updates, Packet.parties] using h)
  | _ => contradiction

/-- A registered client was introduced. -/
theorem Stream.exists_introduction {packets : List Packet} {l : Ledger} (h : Stream packets l) {ip : IpString}
    (hip : (l.account ip).isSome) : ∃ client, client.ip = ip ∧ .addClientUpdate client ∈ packets := by
  rw [← h.account ip, accountAfter_isSome] at hip
  obtain ⟨packet, hpacket, hparty⟩ := hip
  rcases Packet.introduces_or_updates hparty with ⟨client, hclient, rfl⟩ | hupdates
  · exact ⟨client, hclient, hpacket⟩
  · obtain ⟨sent, later, rfl⟩ := List.append_of_mem hpacket
    obtain ⟨client, hclient, hmem⟩ := h.introduced sent packet ip ⟨later, by simp⟩ hupdates
    exact ⟨client, hclient, List.mem_append_left _ hmem⟩

/-- A snapshot introduces each client once and updates none. -/
theorem Ledger.mem_snapshotPackets {l : Ledger} {packet : Packet} (h : packet ∈ l.snapshotPackets) :
    (∃ c ∈ l.clients, packet = .addClientUpdate ⟨c.address, c.balance, c.lastReq⟩) ∨
      ∃ tx ∈ l.transactionHistory, packet = .addHistoryEntry tx := by
  cases List.mem_append.mp h with
  | inl hclient =>
    obtain ⟨c, hc, rfl⟩ := List.mem_map.mp hclient
    exact .inl ⟨c, hc, by simp [clientUpdatePacket]⟩
  | inr hentry =>
    obtain ⟨tx, htx, rfl⟩ := List.mem_map.mp hentry
    exact .inr ⟨tx, htx, rfl⟩

/-- The snapshot of a ledger says all of it. -/
theorem Stream.snapshot {l : Ledger} (h : Sequenced l) : Stream l.snapshotPackets l := by
  have hreceived := Ledger.receive_snapshotPackets exactBalances h.nodup {}
  have hnone : ∀ sent packet, sent ++ [packet] <+: l.snapshotPackets →
      ∀ data, packet ≠ .stateUpdate data := by
    intro sent packet hinit data heq
    have hmem : packet ∈ l.snapshotPackets :=
      hinit.subset (List.mem_append_right _ (List.mem_singleton_self _))
    rcases Ledger.mem_snapshotPackets hmem with ⟨c, _, hclient⟩ | ⟨tx, _, hentry⟩
    · exact absurd (heq.symm.trans hclient) (by simp)
    · exact absurd (heq.symm.trans hentry) (by simp)
  constructor
  · exact h
  · have hhistory := Ledger.history_receives exactBalances {} l.snapshotPackets
    rw [hreceived] at hhistory
    simpa using hhistory.symm
  · intro ip
    have haccount := Ledger.account_receives exactBalances {} l.snapshotPackets ip
    rw [hreceived] at haccount
    refine haccount.symm.trans ?_
    simp [Ledger.account]
  · intro client other hclient hother hip
    rcases Ledger.mem_snapshotPackets hclient with ⟨c, hc, heq⟩ | ⟨tx, _, heq⟩
    · rcases Ledger.mem_snapshotPackets hother with ⟨d, hd, heq'⟩ | ⟨tx, _, heq'⟩
      · have hfound := Ledger.account_of_mem h.nodup hc
        have hfound' := Ledger.account_of_mem h.nodup hd
        simp only [Packet.addClientUpdate.injEq] at heq heq'
        subst heq heq'
        have haddress : c.address = d.address := hip
        rw [haddress, hfound', Option.some.injEq] at hfound
        rw [hfound]
      · contradiction
    · contradiction
  · intro sent packet ip hinit hupdates
    cases packet with
    | stateUpdate data => exact absurd rfl (hnone sent _ hinit data)
    | _ => contradiction
  · exact fun sent data hinit => absurd rfl (hnone sent _ hinit data)

/-- A packet goes on the stream if it introduces an unknown client, or updates known ones and
advances its source. -/
theorem Stream.concat {packets : List Packet} {l : Ledger} (h : Stream packets l) {packet : Packet}
    (hseq : Sequenced (l.receive fl packet))
    (hnew : ∀ client, packet = .addClientUpdate client → client.ip ∉ l.addresses)
    (hknown : ∀ ip, packet.updates ip = true → (l.account ip).isSome)
    (hnext : ∀ data, packet = .stateUpdate data →
      ∃ c, l.account data.sourceIp = some c ∧ c.lastReq < data.transaction.clientSeqn) :
    Stream (packets ++ [packet]) (l.receive fl packet) := by
  have hunknown : ∀ client other, packet = .addClientUpdate client → .addClientUpdate other ∈ packets →
      other.ip ≠ client.ip := by
    intro client other hpacket hother hip
    have hsome : (accountAfter client.ip packets).isSome :=
      accountAfter_isSome.mpr ⟨_, hother, by simp [Packet.parties, hip]⟩
    rw [h.account, Ledger.account_isSome] at hsome
    exact hnew client hpacket hsome
  constructor
  · exact hseq
  · have hhistory := l.history_receives fl [packet]
    rw [List.flatMap_append, h.logged]
    exact hhistory.symm
  · intro ip
    rw [accountAfter_concat, h.account, Ledger.account_receive]
  · intro client other hclient hother hip
    cases List.mem_append.mp hclient with
    | inl hold =>
      cases List.mem_append.mp hother with
      | inl hold' => exact h.single client other hold hold' hip
      | inr hlast => exact absurd hip (hunknown other client (List.mem_singleton.mp hlast).symm hold)
    | inr hlast =>
      cases List.mem_append.mp hother with
      | inl hold' => exact absurd hip.symm (hunknown client other (List.mem_singleton.mp hlast).symm hold')
      | inr hlast' =>
        exact Packet.addClientUpdate.inj ((List.mem_singleton.mp hlast).trans (List.mem_singleton.mp hlast').symm)
  · intro sent last ip hinit hupdates
    cases List.prefix_concat_iff.mp hinit with
    | inl hall =>
      obtain ⟨rfl, hlast⟩ := List.append_inj' hall rfl
      rw [List.singleton_inj.mp hlast] at hupdates
      exact h.exists_introduction (hknown ip hupdates)
    | inr hold => exact h.introduced sent last ip hold hupdates
  · intro sent data hinit
    cases List.prefix_concat_iff.mp hinit with
    | inl hall =>
      obtain ⟨rfl, hlast⟩ := List.append_inj' hall rfl
      rw [h.account]
      exact hnext data (List.singleton_inj.mp hlast).symm
    | inr hold => exact h.advances sent data hold

/-- A call keeps the stream true to the ledger. -/
theorem Stream.call {packets : List Packet} {p : Server} (h : Stream packets p.toLedger)
    (hrole : p.currentRole = .primary) {addr : SockAddr} (hlisted : p.backupServers.count addr = 1) (c : Call) :
    Stream (packets ++ packetsTo addr (p.call fl c).2) (p.call fl c).1.toLedger := by
  have hseq : Sequenced (p.call fl c).1.toLedger := Server.call_toLedger fl p c ▸ h.sequenced.apply c
  rcases Server.call_sends fl hrole c with ⟨hnone, hkeep⟩ | ⟨packet, hsends, hreceive, hparties, haccepts⟩
  · rw [hnone, hkeep]
    simpa [packetsTo] using h
  · rw [hsends, packetsTo_broadcast, hlisted, hreceive]
    rw [hreceive] at hseq
    cases c with
    | addClient ip =>
      cases packet with
      | addClientUpdate data =>
        obtain rfl : data.ip = ip := List.singleton_inj.mp hparties
        refine h.concat fl hseq ?_ (by simp [Packet.updates]) (by simp)
        intro client hclient
        exact Packet.addClientUpdate.inj hclient ▸ haccepts
      | _ => simp [Packet.parties, Call.parties] at hparties
    | processTransaction sourceIp destAddr value seqn =>
      cases packet with
      | stateUpdate data =>
        have hboth : data.sourceIp = sourceIp ∧ data.destIp = inetNtop destAddr := by
          simpa [Packet.parties, Call.parties] using hparties
        obtain ⟨source, dest, hsource, hdest, hnext, -⟩ := (Ledger.verdict_eq_success fl).mp haccepts
        have hentry : data.transaction = p.loggedTransaction sourceIp (inetNtop destAddr) value seqn := by
          have hledger := congrArg Ledger.transactionHistory
            (hreceive.symm.trans (p.call_toLedger fl (.processTransaction sourceIp destAddr value seqn)))
          have haccept : p.verdict fl sourceIp (inetNtop destAddr) value seqn = .success := haccepts
          rw [Ledger.apply, if_pos haccept, Ledger.commit_transactionHistory] at hledger
          exact List.singleton_inj.mp (List.append_cancel_left hledger)
        have hseqn : source.lastReq < data.transaction.clientSeqn := by
          rw [hentry]
          simp only [Ledger.loggedTransaction]
          omega
        refine h.concat fl hseq (by simp) ?_ ?_
        · intro ip hupdates
          simp only [Packet.updates, hboth.1, hboth.2, decide_eq_true_eq] at hupdates
          cases hupdates with
          | inl hfrom => exact hfrom ▸ Option.isSome_of_mem hsource
          | inr hto => exact hto ▸ Option.isSome_of_mem hdest
        · intro other hother
          obtain rfl := Packet.stateUpdate.inj hother
          exact ⟨source, hboth.1 ▸ hsource, hseqn⟩
      | _ => simp [Packet.parties, Call.parties] at hparties

/-! ## The whole stream of a run -/

/-- A primary that has not listed a backup keeps doing so until it registers, and sends it nothing. -/
theorem Server.stream_unregistered {p : Server} (hrole : p.currentRole = .primary)
    (hseq : Sequenced p.toLedger) {addr : SockAddr} (hunlisted : addr ∉ p.backupServers) {ops : List PrimaryOp}
    (hops : .registerBackup addr ∉ ops) :
    p.stream fl addr ops = [] ∧ (p.runPrimary fl ops).currentRole = .primary ∧
      addr ∉ (p.runPrimary fl ops).backupServers ∧ Sequenced (p.runPrimary fl ops).toLedger := by
  induction ops generalizing p with
  | nil => exact ⟨rfl, hrole, hunlisted, hseq⟩
  | cons op rest ih =>
    have hrest : .registerBackup addr ∉ rest := fun h => hops (List.mem_cons_of_mem _ h)
    cases op with
    | call c =>
      have hframe := p.call_frame fl c
      have hsilent : packetsTo addr (p.call fl c).2 = [] := by
        rcases Server.call_sends fl hrole c with ⟨hnone, -⟩ | ⟨packet, hsends, -⟩
        · rw [hnone]
          rfl
        · rw [hsends, packetsTo_broadcast, List.count_eq_zero_of_not_mem hunlisted]
          rfl
      have hnext := ih (p := (p.call fl c).1) (hframe.1.trans hrole) (p.call_toLedger fl c ▸ hseq.apply c)
        (hframe.2 ▸ hunlisted) hrest
      refine ⟨?_, hnext.2⟩
      rw [Server.stream, Server.primaryOp, hsilent, hnext.1]
      rfl
    | registerBackup other =>
      have hother : addr ≠ other := fun heq => hops (heq ▸ List.mem_cons_self ..)
      have hsilent : packetsTo addr (p.registerBackup other).2 = [] := by
        simp [packetsTo, Server.registerBackup, Ne.symm hother]
      have hnext := ih (p := (p.registerBackup other).1) hrole hseq
        (by simpa [Server.registerBackup, hother] using hunlisted) hrest
      refine ⟨?_, hnext.2⟩
      rw [Server.stream, Server.primaryOp, hsilent, hnext.1]
      rfl

/-- What a run sends to a listed backup keeps the stream true to the ledger. -/
theorem Stream.run {packets : List Packet} {p : Server} (h : Stream packets p.toLedger)
    (hrole : p.currentRole = .primary) {addr : SockAddr} (hlisted : p.backupServers.count addr = 1)
    {ops : List PrimaryOp} (hops : .registerBackup addr ∉ ops) :
    Stream (packets ++ p.stream fl addr ops) (p.runPrimary fl ops).toLedger := by
  induction ops generalizing p packets with
  | nil =>
    rw [Server.stream, List.append_nil]
    exact h
  | cons op rest ih =>
    have hrest : .registerBackup addr ∉ rest := fun h => hops (List.mem_cons_of_mem _ h)
    cases op with
    | call c =>
      have hframe := p.call_frame fl c
      have hnext := ih (h.call fl hrole hlisted c) (hframe.1.trans hrole) (by rw [hframe.2, hlisted]) hrest
      rw [List.append_assoc] at hnext
      exact hnext
    | registerBackup other =>
      have hother : addr ≠ other := fun heq => hops (heq ▸ List.mem_cons_self ..)
      have hsilent : packetsTo addr (p.registerBackup other).2 = [] := by
        simp [packetsTo, Server.registerBackup, Ne.symm hother]
      have hcount : (p.registerBackup other).1.backupServers.count addr = 1 := by
        simpa [Server.registerBackup, List.count_cons, Ne.symm hother] using hlisted
      rw [Server.stream, Server.primaryOp, hsilent, List.nil_append]
      exact ih (p := (p.registerBackup other).1) h hrole hcount hrest

/-- What a primary sends a backup that registers once is true to its ledger. -/
theorem stream_of_run {p : Server} (hrole : p.currentRole = .primary) (hseq : Sequenced p.toLedger)
    {addr : SockAddr} (hunlisted : addr ∉ p.backupServers) {ops : List PrimaryOp}
    (hops : ops.count (.registerBackup addr) = 1) :
    Stream (p.stream fl addr ops) (p.runPrimary fl ops).toLedger := by
  have hmem : .registerBackup addr ∈ ops := List.count_pos_iff.mp (by omega)
  obtain ⟨before, after, rfl⟩ := List.append_of_mem hmem
  rw [List.count_append, List.count_cons_self] at hops
  have hbefore : .registerBackup addr ∉ before := List.count_eq_zero.mp (by omega)
  have hafter : .registerBackup addr ∉ after := List.count_eq_zero.mp (by omega)
  have hfirst := Server.stream_unregistered fl hrole hseq hunlisted hbefore
  have hcount : ((p.runPrimary fl before).registerBackup addr).1.backupServers.count addr = 1 := by
    simp [Server.registerBackup, List.count_eq_zero_of_not_mem hfirst.2.2.1]
  rw [Server.stream_append, hfirst.1, List.nil_append, Server.stream, Server.primaryOp, packetsTo_registerBackup,
    Server.runPrimary_append]
  exact Stream.run fl (p := ((p.runPrimary fl before).registerBackup addr).1)
    (Stream.snapshot hfirst.2.2.2) hfirst.2.1 hcount hafter

end BankReplica
