import BankReplica.Convergence
import BankReplica.PacketStream

/-!
# Replication over a network that reorders and duplicates

No update carries a number the backup checks. `handleClientUpdate` ignores a client it
knows, so an `ADD_CLIENT_UPDATE` may be repeated and, unless it carries a last request, may
be late; entries and updates are applied as often as they arrive. So the backup ends with
the primary's accounts if the updates about each client arrive once and in order, whatever
happens between packets about different clients, as long as no update has to insert a
destination for which the vector must move.
-/

namespace BankReplica

open GrowingVector

variable (fl : FloatRounding)

/-- The packet is an `ADD_CLIENT_UPDATE`. -/
def Packet.isClientUpdate : Packet → Bool
  | .addClientUpdate _ => true
  | _ => false

/-- The packet is an `ADD_HISTORY_ENTRY`. -/
def Packet.isEntry : Packet → Bool
  | .addHistoryEntry _ => true
  | _ => false

/-- The clients some packets introduce. -/
def introductions (packets : List Packet) : List ClientUpdateData :=
  packets.filterMap fun packet =>
    match packet with
    | .addClientUpdate data => some data
    | _ => none

/-- An order in which sent packets arrive: every entry once, every introduction at least once,
the updates about each client once and in the order sent, and after its introduction if that
carries a last request. -/
structure Delivery (sent arrived : List Packet) : Prop where
  sound : arrived ⊆ sent
  entries : ∀ packet ∈ sent, packet.isEntry = true → arrived.count packet = sent.count packet
  clients : ∀ packet ∈ sent, packet.isClientUpdate = true → packet ∈ arrived
  updates : ∀ ip ∈ partiesOf sent, arrived.filter (Packet.updates ip) = sent.filter (Packet.updates ip)
  introduced : ∀ client ∈ introductions sent, client.lastRequest ≠ 0 →
    ∀ k < arrived.length, (arrived[k]?).any (Packet.updates client.ip) = true →
      .addClientUpdate client ∈ arrived.take k

/-! ## The record of one client -/

/-- The record an `ADD_CLIENT_UPDATE` creates. -/
def ClientUpdateData.record (data : ClientUpdateData) : ClientDTO := ⟨data.ip, data.lastRequest, data.balance⟩

/-- What a packet writes into the record of one client. -/
def Packet.write (ip : IpString) (c : ClientDTO) : Packet → ClientDTO
  | .stateUpdate data => if ip = data.sourceIp ∨ ip = data.destIp then data.written ip c else c
  | _ => c

/-- What the updates among some packets make of a record. -/
def writes (ip : IpString) (packets : List Packet) (c : ClientDTO) : ClientDTO :=
  (packets.filter (Packet.updates ip)).foldl (Packet.write ip) c

/-- Only updates write. -/
theorem Packet.write_of_not_updates {ip : IpString} {packet : Packet} (h : packet.updates ip = false)
    (c : ClientDTO) : packet.write ip c = c := by
  cases packet with
  | stateUpdate data => exact if_neg (of_decide_eq_false h)
  | _ => rfl

/-- The last packet writes last. -/
theorem writes_concat (ip : IpString) (packets : List Packet) (packet : Packet) (c : ClientDTO) :
    writes ip (packets ++ [packet]) c = packet.write ip (writes ip packets c) := by
  cases hupdates : packet.updates ip with
  | true =>
    rw [writes, List.filter_append, List.filter_cons_of_pos hupdates, List.filter_nil, List.foldl_append]
    rfl
  | false =>
    rw [Packet.write_of_not_updates hupdates, writes, writes, List.filter_append,
      List.filter_cons_of_neg (by simp [hupdates]), List.filter_nil, List.append_nil]

/-- The packets about one client are its one introduction and its updates. -/
def OneIntroduction (client : ClientUpdateData) (packets : List Packet) : Prop :=
  ∀ other, .addClientUpdate other ∈ packets → other.ip = client.ip → other = client

/-- An introduction that carries a last request comes before the updates. -/
def IntroducedFirst (client : ClientUpdateData) (packets : List Packet) : Prop :=
  ∀ before packet, before ++ [packet] <+: packets → packet.updates client.ip = true →
    client.lastRequest ≠ 0 → .addClientUpdate client ∈ before

/-- What was introduced first stays so in a shorter list. -/
theorem IntroducedFirst.mono {client : ClientUpdateData} {packets rest : List Packet}
    (h : IntroducedFirst client rest) (hinit : packets <+: rest) : IntroducedFirst client packets :=
  fun before packet hbefore => h before packet (hbefore.trans hinit)

/-- The first update of a record without a last request hides how the record was created. -/
theorem Packet.write_new {client : ClientUpdateData} {packet : Packet}
    (hupdates : packet.updates client.ip = true) (hrequest : client.lastRequest = 0) :
    packet.write client.ip (.new client.ip) = packet.write client.ip client.record := by
  cases packet with
  | stateUpdate data =>
    simp only [Packet.updates, decide_eq_true_eq] at hupdates
    simp only [Packet.write, hupdates, if_true, StateUpdateData.written, ClientDTO.new, ClientUpdateData.record,
      hrequest]
  | _ => contradiction

/-- A packet writes into a record that is there. -/
theorem receiveAccount_some (ip : IpString) (c : ClientDTO) (packet : Packet) :
    receiveAccount ip (some c) packet = some (packet.write ip c) := by
  cases packet with
  | addClientUpdate data => simp [receiveAccount, Packet.write]
  | stateUpdate data =>
    simp only [receiveAccount, Packet.write]
    split <;> rfl
  | _ => rfl

/-- The first packet about a client leaves what it writes into the record of the introduction. -/
theorem receiveAccount_none {client : ClientUpdateData} {packet : Packet} (hparty : client.ip ∈ packet.parties)
    (hone : ∀ other, packet = .addClientUpdate other → other.ip = client.ip → other = client)
    (hrequest : packet.updates client.ip = true → client.lastRequest = 0) :
    receiveAccount client.ip none packet = some (packet.write client.ip client.record) := by
  rcases Packet.introduces_or_updates hparty with ⟨other, hip, rfl⟩ | hupdates
  · obtain rfl := hone other rfl hip
    simp [receiveAccount, Packet.write, ClientUpdateData.record]
  · rw [← Packet.write_new hupdates (hrequest hupdates)]
    cases packet with
    | stateUpdate data =>
      have hnames : client.ip = data.sourceIp ∨ client.ip = data.destIp := of_decide_eq_true hupdates
      simp only [receiveAccount, Packet.write, if_pos hnames, Option.getD_none]
    | _ => contradiction

/-- No packet about a client, no record of it. -/
theorem accountAfter_of_unnamed {ip : IpString} {packets : List Packet}
    (h : ¬∃ packet ∈ packets, ip ∈ packet.parties) : accountAfter ip packets = none :=
  Option.not_isSome_iff_eq_none.mp fun hsome => h (accountAfter_isSome.mp hsome)

/-- Packets that are not about a client write nothing into its record. -/
theorem writes_of_unnamed {ip : IpString} {packets : List Packet}
    (h : ¬∃ packet ∈ packets, ip ∈ packet.parties) (c : ClientDTO) : writes ip packets c = c := by
  have hnone : packets.filter (Packet.updates ip) = [] :=
    List.filter_eq_nil_iff.mpr fun packet hmem hupdates => h ⟨packet, hmem, Packet.mem_parties_of_updates hupdates⟩
  rw [writes, hnone, List.foldl_nil]

/-- In whatever order the packets about a client arrive, its record is what the updates make of the
record of its introduction. -/
theorem accountAfter_eq {client : ClientUpdateData} {packets : List Packet} (hone : OneIntroduction client packets)
    (hfirst : IntroducedFirst client packets) (hnamed : ∃ packet ∈ packets, client.ip ∈ packet.parties) :
    accountAfter client.ip packets = some (writes client.ip packets client.record) := by
  induction packets using List.reverseRecOn with
  | nil =>
    obtain ⟨packet, hpacket, -⟩ := hnamed
    contradiction
  | append_singleton packets packet ih =>
    rw [accountAfter_concat, writes_concat]
    by_cases hearlier : ∃ earlier ∈ packets, client.ip ∈ earlier.parties
    · have hone' : OneIntroduction client packets :=
        fun other hother => hone other (List.mem_append_left _ hother)
      rw [ih hone' (hfirst.mono (List.prefix_append ..)) hearlier, receiveAccount_some]
    · rw [accountAfter_of_unnamed hearlier, writes_of_unnamed hearlier]
      refine receiveAccount_none ?_ ?_ ?_
      · obtain ⟨named, hmem, hparty⟩ := hnamed
        cases List.mem_append.mp hmem with
        | inl hold => exact absurd ⟨named, hold, hparty⟩ hearlier
        | inr hlast => exact List.mem_singleton.mp hlast ▸ hparty
      · intro other hother
        exact hone other (by simp [hother])
      · intro hupdates
        -- an introduction with a last request would have named the client before
        by_contra hrequest
        exact hearlier ⟨_, hfirst packets packet (List.prefix_refl _) hupdates hrequest, by simp [Packet.parties]⟩

/-- Two orders that agree on the updates about a client leave the same record of it. -/
theorem accountAfter_congr {client : ClientUpdateData} {first second : List Packet}
    (hone : OneIntroduction client first) (hone' : OneIntroduction client second)
    (hfirst : IntroducedFirst client first) (hfirst' : IntroducedFirst client second)
    (hupdates : first.filter (Packet.updates client.ip) = second.filter (Packet.updates client.ip))
    (hsome : (accountAfter client.ip first).isSome) (hsome' : (accountAfter client.ip second).isSome) :
    accountAfter client.ip first = accountAfter client.ip second := by
  rw [accountAfter_eq hone hfirst (accountAfter_isSome.mp hsome),
    accountAfter_eq hone' hfirst' (accountAfter_isSome.mp hsome'), writes, writes, hupdates]

/-! ## What arrives compared with what was sent -/

theorem mem_introductions {client : ClientUpdateData} {packets : List Packet} :
    client ∈ introductions packets ↔ .addClientUpdate client ∈ packets := by
  simp only [introductions, List.mem_filterMap]
  constructor
  · rintro ⟨packet, hmem, hpacket⟩
    cases packet with
    | addClientUpdate data =>
      obtain rfl := Option.some.inj hpacket
      exact hmem
    | _ => contradiction
  · exact fun hmem => ⟨_, hmem, rfl⟩

/-- A stream introduces each client in one way. -/
theorem Stream.oneIntroduction {sent : List Packet} {l : Ledger} (h : Stream sent l) {client : ClientUpdateData}
    (hclient : .addClientUpdate client ∈ sent) {packets : List Packet} (hsound : packets ⊆ sent) :
    OneIntroduction client packets :=
  fun other hother hip => h.single other client (hsound hother) hclient hip

/-- A stream introduces each client before its updates. -/
theorem Stream.introducedFirst {sent : List Packet} {l : Ledger} (h : Stream sent l) {client : ClientUpdateData}
    (hclient : .addClientUpdate client ∈ sent) : IntroducedFirst client sent := by
  intro before packet hinit hupdates _
  obtain ⟨other, hip, hother⟩ := h.introduced before packet client.ip hinit hupdates
  have hmem : .addClientUpdate other ∈ sent :=
    hinit.subset (List.mem_append_left _ hother)
  exact h.single other client hmem hclient hip ▸ hother

/-- A delivery introduces a client that has a last request before its updates. -/
theorem Delivery.introducedFirst {sent arrived : List Packet} (h : Delivery sent arrived)
    {client : ClientUpdateData} (hclient : .addClientUpdate client ∈ sent) : IntroducedFirst client arrived := by
  intro before packet hinit hupdates hrequest
  obtain ⟨later, rfl⟩ := hinit
  have hnow := h.introduced client (mem_introductions.mpr hclient) hrequest before.length (by simp)
  simpa [hupdates] using hnow

/-- The packet carries a transaction for the log. -/
def Packet.carries (packet : Packet) : Bool := !packet.logged.isEmpty

/-- Packets that carry an entry arrive as often as they were sent. -/
theorem Delivery.count_eq {sent arrived : List Packet} (h : Delivery sent arrived) {packet : Packet}
    (hcarries : packet.carries = true) : arrived.count packet = sent.count packet := by
  by_cases hsent : packet ∈ sent
  · cases packet with
    | addHistoryEntry tx => exact h.entries _ hsent rfl
    | stateUpdate data =>
      have hupdates : (Packet.stateUpdate data).updates data.sourceIp = true := by simp [Packet.updates]
      have hparty : data.sourceIp ∈ partiesOf sent :=
        List.mem_flatMap.mpr ⟨_, hsent, Packet.mem_parties_of_updates hupdates⟩
      rw [← List.count_filter hupdates, h.updates _ hparty, List.count_filter hupdates]
    | _ => contradiction
  · rw [List.count_eq_zero_of_not_mem hsent, List.count_eq_zero_of_not_mem (fun hmem => hsent (h.sound hmem))]

/-- The other packets log nothing. -/
theorem flatMap_logged_filter (packets : List Packet) :
    (packets.filter Packet.carries).flatMap Packet.logged = packets.flatMap Packet.logged := by
  induction packets with
  | nil => rfl
  | cons packet rest ih =>
    cases hcarries : packet.carries with
    | true => rw [List.filter_cons_of_pos hcarries, List.flatMap_cons, ih, List.flatMap_cons]
    | false =>
      have hempty : packet.logged = [] := by simpa [Packet.carries] using hcarries
      rw [List.filter_cons_of_neg (by simp [hcarries]), ih, List.flatMap_cons, hempty, List.nil_append]

/-- What arrives logs what was sent. -/
theorem Delivery.logged_perm {sent arrived : List Packet} (h : Delivery sent arrived) :
    (arrived.flatMap Packet.logged).Perm (sent.flatMap Packet.logged) := by
  rw [← flatMap_logged_filter arrived, ← flatMap_logged_filter sent]
  refine List.Perm.flatMap_right _ (List.perm_iff_count.mpr fun packet => ?_)
  cases hcarries : packet.carries with
  | true => rw [List.count_filter hcarries, List.count_filter hcarries, h.count_eq hcarries]
  | false =>
    have hnot : ∀ packets : List Packet, packet ∉ packets.filter Packet.carries :=
      fun packets hmem => by simp [hcarries] at hmem
    rw [List.count_eq_zero_of_not_mem (hnot _), List.count_eq_zero_of_not_mem (hnot _)]

/-- The ids of a sequenced log tell its entries apart. -/
theorem Sequenced.history_nodup {l : Ledger} (h : Sequenced l) : l.transactionHistory.Nodup := by
  refine List.Nodup.of_map Transaction.id ?_
  rw [h.ids, upTo]
  exact List.nodup_range.map fun i j hij => by simpa using hij

/-- A packet named something a stream has introduced. -/
theorem Stream.exists_client {sent : List Packet} {l : Ledger} (h : Stream sent l) {packets : List Packet}
    (hsound : packets ⊆ sent) {ip : IpString} (hsome : (accountAfter ip packets).isSome) :
    ∃ client, client.ip = ip ∧ .addClientUpdate client ∈ sent := by
  obtain ⟨packet, hpacket, hparty⟩ := accountAfter_isSome.mp hsome
  refine h.exists_introduction ?_
  rw [← h.account ip]
  exact accountAfter_isSome.mpr ⟨packet, hsound hpacket, hparty⟩

/-- An update of a client in a delivery follows the same updates of it as in the stream. -/
theorem Delivery.exists_sent {sent arrived : List Packet} (h : Delivery sent arrived) {ip : IpString}
    {before later : List Packet} {packet : Packet} (harrived : arrived = before ++ packet :: later)
    (hupdates : packet.updates ip = true) :
    ∃ earlier, earlier ++ [packet] <+: sent ∧
      earlier.filter (Packet.updates ip) = before.filter (Packet.updates ip) := by
  have hmem : packet ∈ sent := h.sound (by simp [harrived])
  have hparty : ip ∈ partiesOf sent := List.mem_flatMap.mpr ⟨_, hmem, Packet.mem_parties_of_updates hupdates⟩
  have hsplit : sent.filter (Packet.updates ip) =
      before.filter (Packet.updates ip) ++ packet :: later.filter (Packet.updates ip) := by
    rw [← h.updates ip hparty, harrived, List.filter_append, List.filter_cons_of_pos hupdates]
  obtain ⟨first, rest, hsent, hfirst, hrest⟩ := List.filter_eq_append_iff.mp hsplit
  obtain ⟨skipped, tail, rfl, hskipped, -, -⟩ := List.filter_eq_cons_iff.mp hrest
  refine ⟨first ++ skipped, ⟨tail, by simp [hsent]⟩, ?_⟩
  have hnone : skipped.filter (Packet.updates ip) = [] := List.filter_eq_nil_iff.mpr hskipped
  rw [List.filter_append, hnone, List.append_nil, hfirst]

/-- An update writes the last request of its source alone. -/
theorem write_stateUpdate_lastReq (data : StateUpdateData) (ip : IpString) (c : ClientDTO) :
    ((Packet.stateUpdate data).write ip c).lastReq =
      if ip = data.sourceIp then data.transaction.clientSeqn else c.lastReq := by
  simp only [Packet.write]
  split
  · rfl
  · rename_i hneither
    exact (if_neg fun hsource => hneither (.inl hsource)).symm

/-- The record that an update of its source meets has a lower last request. -/
theorem Delivery.advances {sent arrived : List Packet} (h : Delivery sent arrived) {l : Ledger}
    (hstream : Stream sent l) {before later : List Packet} {data : StateUpdateData}
    (harrived : arrived = before ++ .stateUpdate data :: later) {c : ClientDTO}
    (hfound : accountAfter data.sourceIp before = some c) : c.lastReq < data.transaction.clientSeqn := by
  have hbefore : before ⊆ sent := fun packet hmem => h.sound (by simp [harrived, hmem])
  have hsome : (accountAfter data.sourceIp before).isSome := Option.isSome_of_mem hfound
  obtain ⟨client, hip, hclient⟩ := hstream.exists_client hbefore hsome
  have hsource : (Packet.stateUpdate data).updates data.sourceIp = true := by simp [Packet.updates]
  obtain ⟨earlier, hinit, hupdates⟩ := h.exists_sent harrived hsource
  obtain ⟨known, hknown, hseqn⟩ := hstream.advances earlier data hinit
  have hearlier : earlier <+: sent := (List.prefix_append ..).trans hinit
  rw [← hip] at hfound hsome hupdates hknown
  have hsame : accountAfter client.ip before = accountAfter client.ip earlier :=
    accountAfter_congr (hstream.oneIntroduction hclient hbefore)
      (hstream.oneIntroduction hclient hearlier.subset)
      ((h.introducedFirst hclient).mono ⟨_, harrived.symm⟩)
      ((hstream.introducedFirst hclient).mono hearlier)
      hupdates.symm hsome (Option.isSome_of_mem hknown)
  rw [hfound, hknown, Option.some.injEq] at hsame
  exact hsame ▸ hseqn

/-- A packet that arrives lowers no last request. -/
theorem Delivery.lastReq_step {sent arrived : List Packet} (h : Delivery sent arrived) {l : Ledger}
    (hstream : Stream sent l) {before later : List Packet} {packet : Packet}
    (harrived : arrived = before ++ packet :: later) {ip : IpString} {c : ClientDTO}
    (hfound : accountAfter ip before = some c) :
    ∃ c', accountAfter ip (before ++ [packet]) = some c' ∧ c.lastReq ≤ c'.lastReq := by
  rw [accountAfter_concat, hfound]
  refine ⟨packet.write ip c, receiveAccount_some ip c packet, ?_⟩
  cases packet with
  | stateUpdate data =>
    rw [write_stateUpdate_lastReq]
    split
    · rename_i hsource
      exact (h.advances hstream harrived (hsource ▸ hfound)).le
    · exact le_rfl
  | _ => exact le_rfl

/-- Packets that arrive lower no last request. -/
theorem Delivery.lastReq_mono {sent arrived : List Packet} (h : Delivery sent arrived) {l : Ledger}
    (hstream : Stream sent l) {before next later : List Packet} (harrived : arrived = before ++ (next ++ later))
    {ip : IpString} {c : ClientDTO} (hfound : accountAfter ip before = some c) :
    ∃ c', accountAfter ip (before ++ next) = some c' ∧ c.lastReq ≤ c'.lastReq := by
  induction next generalizing before c with
  | nil => exact ⟨c, by rwa [List.append_nil], le_rfl⟩
  | cons packet next ih =>
    obtain ⟨c₁, hfound₁, hle₁⟩ := h.lastReq_step hstream harrived hfound
    have hrest : arrived = (before ++ [packet]) ++ (next ++ later) := by simp [harrived]
    obtain ⟨c₂, hfound₂, hle₂⟩ := ih hrest hfound₁
    exact ⟨c₂, by rwa [List.append_assoc] at hfound₂, hle₁.trans hle₂⟩

/-- Every client that the stream names is named by what arrives. -/
theorem Delivery.named {sent arrived : List Packet} (h : Delivery sent arrived) {l : Ledger}
    (hstream : Stream sent l) {ip : IpString} :
    (accountAfter ip arrived).isSome ↔ (accountAfter ip sent).isSome := by
  constructor
  · intro hsome
    obtain ⟨packet, hpacket, hparty⟩ := accountAfter_isSome.mp hsome
    exact accountAfter_isSome.mpr ⟨packet, h.sound hpacket, hparty⟩
  · intro hsome
    obtain ⟨client, hip, hclient⟩ := hstream.exists_client (List.Subset.refl _) hsome
    exact accountAfter_isSome.mpr ⟨_, h.clients _ hclient rfl, by simp [Packet.parties, hip]⟩

/-- Once all has arrived every record is the one the stream makes. -/
theorem Delivery.accountAfter_eq {sent arrived : List Packet} (h : Delivery sent arrived) {l : Ledger}
    (hstream : Stream sent l) (ip : IpString) : accountAfter ip arrived = accountAfter ip sent := by
  cases hsent : (accountAfter ip sent).isSome with
  | false =>
    have harrived : (accountAfter ip arrived).isSome = false :=
      Bool.eq_false_iff.mpr fun hsome => Bool.eq_false_iff.mp hsent ((h.named hstream).mp hsome)
    rw [Option.isSome_eq_false_iff, Option.isNone_iff_eq_none] at hsent harrived
    rw [hsent, harrived]
  | true =>
    obtain ⟨client, rfl, hclient⟩ := hstream.exists_client (List.Subset.refl _) hsent
    have hparty : client.ip ∈ partiesOf sent :=
      List.mem_flatMap.mpr ⟨_, hclient, by simp [Packet.parties]⟩
    exact accountAfter_congr (hstream.oneIntroduction hclient h.sound)
      (hstream.oneIntroduction hclient (List.Subset.refl _)) (h.introducedFirst hclient)
      (hstream.introducedFirst hclient) (h.updates _ hparty) ((h.named hstream).mpr hsent) hsent

/-! ## A backup behind such a network -/

/-- What a fresh backup holds of one client is a function of the packets about it. -/
theorem Server.account_receiveUpdates {b : Server} (hrole : b.currentRole = .backup) (hempty : b.toLedger = {})
    (packets : List Packet) (ip : IpString) :
    (b.receiveUpdates fl packets).account ip = accountAfter ip packets := by
  rw [Server.receiveUpdates_toLedger fl hrole, Ledger.account_receives, hempty]
  rfl

/-- The log of a fresh backup is what the packets carry. -/
theorem Server.history_receiveUpdates {b : Server} (hrole : b.currentRole = .backup) (hempty : b.toLedger = {})
    (packets : List Packet) : (b.receiveUpdates fl packets).transactionHistory = packets.flatMap Packet.logged := by
  rw [Server.receiveUpdates_toLedger fl hrole, Ledger.history_receives, hempty]
  exact List.nil_append _

/-- A backup that registers once with a primary logs no transaction twice, never lowers a last
request and ends with the accounts of the primary, if the network loses nothing, repeats only
introductions and keeps the updates about each client in order, and no state update moves the vector
of the backup between its two lookups. -/
theorem reordered_delivery_converges {p : Server} (hrole : p.currentRole = .primary)
    (hseq : Sequenced p.toLedger) {addr : SockAddr} (hunlisted : addr ∉ p.backupServers) {ops : List PrimaryOp}
    (hops : ops.count (.registerBackup addr) = 1) {b : Backup} (hbackup : b.server.currentRole = .backup)
    (hempty : b.server.toLedger = {}) {grow : Growth} {arrived : List Packet}
    (hdelivery : Delivery (p.stream fl addr ops) arrived) (hfit : b.AllFit fl grow arrived) :
    (∀ seen, seen <+: arrived → ∃ s, b.receives fl grow seen = some s ∧ s.server.transactionHistory.Nodup) ∧
      (∀ seen more, seen <+: more → more <+: arrived → ∀ s s', b.receives fl grow seen = some s →
        b.receives fl grow more = some s' → ∀ ip c, s.server.account ip = some c →
          ∃ c', s'.server.account ip = some c' ∧ c.lastReq ≤ c'.lastReq) ∧
      ∃ s, b.receives fl grow arrived = some s ∧ ∀ ip, s.server.account ip = (p.runPrimary fl ops).account ip := by
  have hstream := stream_of_run fl hrole hseq hunlisted hops
  have hreceives : ∀ seen, seen <+: arrived →
      ∃ spare, b.receives fl grow seen = some ⟨b.server.receiveUpdates fl seen, spare⟩ :=
    fun seen hseen => Backup.receives_of_allFit fl hbackup (hfit.mono fl hseen)
  refine ⟨?_, ?_, ?_⟩
  · intro seen hseen
    obtain ⟨spare, hseen'⟩ := hreceives seen hseen
    obtain ⟨later, rfl⟩ := hseen
    refine ⟨_, hseen', ?_⟩
    have hnodup : ((seen ++ later).flatMap Packet.logged).Nodup := by
      rw [hdelivery.logged_perm.nodup_iff, hstream.logged]
      exact hstream.sequenced.history_nodup
    rw [List.flatMap_append] at hnodup
    rw [Server.history_receiveUpdates fl hbackup hempty]
    exact hnodup.of_append_left
  · intro seen more hseen hmore s s' hs hs' ip c hfound
    obtain ⟨spare, hfirst⟩ := hreceives seen (hseen.trans hmore)
    obtain ⟨spare', hsecond⟩ := hreceives more hmore
    obtain rfl := Option.some.inj (hfirst.symm.trans hs)
    obtain rfl := Option.some.inj (hsecond.symm.trans hs')
    obtain ⟨next, rfl⟩ := hseen
    obtain ⟨later, rfl⟩ := hmore
    rw [Server.account_receiveUpdates fl hbackup hempty] at hfound ⊢
    exact hdelivery.lastReq_mono hstream (List.append_assoc ..) hfound
  · obtain ⟨spare, harrived⟩ := hreceives arrived (List.prefix_refl _)
    refine ⟨_, harrived, fun ip => ?_⟩
    rw [Server.account_receiveUpdates fl hbackup hempty, hdelivery.accountAfter_eq hstream, hstream.account]

/-- Some of the sent packets, by their places in the stream, in the order they arrive. -/
def arrivals (sent : List Packet) (order : List ℕ) : List Packet := order.filterMap fun k => sent[k]?

/-- A transfer between two clients of the test network. -/
def testTransfer (source dest : UInt8) (value seqn : ℤ) : PrimaryOp :=
  .call (.processTransaction (inetNtop (testHost source).sinAddr) (testHost dest).sinAddr value seqn)

/-- Two clients and a backup, and two transfers from one client to the other. -/
def twoTransfers : List PrimaryOp :=
  [.call (.addClient (inetNtop (testHost 21).sinAddr)), .call (.addClient (inetNtop (testHost 22).sinAddr)),
    .registerBackup (testHost 3), testTransfer 21 22 100 1, testTransfer 21 22 50 2]

/-- A backup that registers between a transfer and the transfer back, among four clients. -/
def transferAndBack : List PrimaryOp :=
  [21, 22, 23, 24].map (fun d => .call (.addClient (inetNtop (testHost d).sinAddr))) ++
    [testTransfer 21 22 100 1, .registerBackup (testHost 3), testTransfer 22 21 50 1]

/-- What a fresh primary sends the backup at host 3. -/
def testStream (ops : List PrimaryOp) : List Packet :=
  (freshPrimary 2 4000).stream singlePrecision (testHost 3) ops

/-- A fresh backup at host 3, before its vector has any buffer. -/
def emptyBackup : Backup := ⟨Server.new 3 4000, 0⟩

/-- What a fresh backup is when some packets have arrived. -/
def testReceives (arrived : List Packet) : Option Backup := emptyBackup.receives singlePrecision .doubling arrived

/-- The updates of two transfers arrive once their destination is known, and the first of them overtakes
the introduction of its source and a copy of the other. -/
theorem reordered_delivery_of_transfers :
    ∃ s, testReceives (arrivals (testStream twoTransfers) [1, 2, 1, 0, 3]) = some s ∧
      (s.server.transactionHistory.length = 2 ∧ s.server.transactionHistory.Nodup) ∧
      s.server.account (inetNtop (testHost 21).sinAddr) =
        ((freshPrimary 2 4000).runPrimary singlePrecision twoTransfers).account (inetNtop (testHost 21).sinAddr) := by
  have hdelivery : Delivery ((freshPrimary 2 4000).stream singlePrecision (testHost 3) twoTransfers)
      (arrivals (testStream twoTransfers) [1, 2, 1, 0, 3]) :=
    ⟨by decide +kernel, by decide +kernel, by decide +kernel, by decide +kernel, by decide +kernel⟩
  have hfits : emptyBackup.AllFit singlePrecision .doubling (arrivals (testStream twoTransfers) [1, 2, 1, 0, 3]) := by
    decide +kernel
  have hlength : ∀ s ∈ testReceives (arrivals (testStream twoTransfers) [1, 2, 1, 0, 3]),
      s.server.transactionHistory.length = 2 := by
    decide +kernel
  obtain ⟨hnodup, -, s, hs, haccounts⟩ := reordered_delivery_converges singlePrecision
    (p := freshPrimary 2 4000) rfl sequenced_empty List.not_mem_nil (by decide +kernel) (b := emptyBackup) rfl rfl
    hdelivery hfits
  obtain ⟨s', hs', hnodup'⟩ := hnodup _ (List.prefix_refl _)
  obtain rfl := Option.some.inj (hs.symm.trans hs')
  exact ⟨s, hs, ⟨hlength s hs, hnodup'⟩, haccounts _⟩

/-- Every packet arrives, in some order, once or more. -/
def AllArrive (sent arrived : List Packet) : Prop := arrived ⊆ sent ∧ sent ⊆ arrived

instance (sent arrived : List Packet) : Decidable (AllArrive sent arrived) :=
  inferInstanceAs (Decidable (_ ∧ _))

/-- The record a fresh backup has of one client when some packets have arrived. -/
def testRecord (d : UInt8) (arrived : List Packet) : Option ClientDTO := do
  let b ← testReceives arrived
  b.server.account (inetNtop (testHost d).sinAddr)

/-- An update that arrives twice is logged twice. One that is overtaken lowers a last request and
leaves a balance the primary does not have. An introduction that is overtaken loses the last request
it carries. An update that comes before its clients are known writes through a stale iterator. -/
theorem repeated_or_overtaken_packets_diverge :
    (AllArrive (testStream twoTransfers) (arrivals (testStream twoTransfers) [0, 1, 2, 2, 3]) ∧
      ∃ s, testReceives (arrivals (testStream twoTransfers) [0, 1, 2, 2, 3]) = some s ∧
        ¬s.server.transactionHistory.Nodup) ∧
    (AllArrive (testStream twoTransfers) (arrivals (testStream twoTransfers) [0, 1, 3, 2]) ∧
      (testRecord 21 (arrivals (testStream twoTransfers) [0, 1, 3])).map ClientDTO.lastReq = some 2 ∧
      (testRecord 21 (arrivals (testStream twoTransfers) [0, 1, 3, 2])).map ClientDTO.lastReq = some 1 ∧
      (testRecord 21 (arrivals (testStream twoTransfers) [0, 1, 3, 2])).map ClientDTO.balance ≠
        (((freshPrimary 2 4000).runPrimary singlePrecision twoTransfers).account
          (inetNtop (testHost 21).sinAddr)).map ClientDTO.balance) ∧
    (AllArrive (testStream transferAndBack) (arrivals (testStream transferAndBack) [1, 2, 3, 5, 0, 4]) ∧
      (testRecord 21 (arrivals (testStream transferAndBack) [1, 2, 3, 5, 0, 4])).map ClientDTO.lastReq = some 0 ∧
      (((freshPrimary 2 4000).runPrimary singlePrecision transferAndBack).account
        (inetNtop (testHost 21).sinAddr)).map ClientDTO.lastReq = some 1) ∧
    AllArrive (testStream twoTransfers) (arrivals (testStream twoTransfers) [2, 0, 1, 3]) ∧
      testReceives (arrivals (testStream twoTransfers) [2, 0, 1, 3]) = none := by
  decide +kernel

end BankReplica
