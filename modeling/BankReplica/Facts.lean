import BankReplica.Bookkeeping
import BankReplica.RequestThreads

/-!
# The facts a server holds

A logged transaction and a registered address are facts: calls and update handlers add
them to a ledger and never remove one, and whatever a server replicates is a fact it holds.
-/

namespace BankReplica

variable (fl : FloatRounding)

/-- What a ledger can hold. -/
inductive Fact
  | logged (tx : Transaction)
  | registered (ip : IpString)
deriving DecidableEq

/-- The facts of a ledger. -/
def Ledger.facts (l : Ledger) : List Fact :=
  l.transactionHistory.map .logged ++ l.addresses.map .registered

/-- The facts of a packet. -/
def Packet.facts : Packet → List Fact
  | .addClientUpdate data => [.registered data.ip]
  | .stateUpdate data => [.logged data.transaction, .registered data.sourceIp, .registered data.destIp]
  | .addHistoryEntry tx => [.logged tx]
  | _ => []

theorem Ledger.logged_mem_facts {l : Ledger} {tx : Transaction} :
    .logged tx ∈ l.facts ↔ tx ∈ l.transactionHistory := by
  simp [Ledger.facts]

theorem Ledger.registered_mem_facts {l : Ledger} {ip : IpString} :
    .registered ip ∈ l.facts ↔ ip ∈ l.addresses := by
  simp [Ledger.facts]

/-- A lookup that adds on a miss makes the address known and forgets none. -/
theorem mem_ensureClient {clients : List ClientDTO} {ip k : IpString} :
    k ∈ (ensureClient clients ip).map ClientDTO.address ↔ k ∈ clients.map ClientDTO.address ∨ k = ip := by
  by_cases hip : ip ∈ clients.map ClientDTO.address
  · rw [ensureClient_of_mem hip]
    exact ⟨.inl, fun h => h.elim id fun heq => heq ▸ hip⟩
  · rw [ensureClient, if_pos ((KeyedList.position_eq_length _).mpr hip)]
    simp [ClientDTO.new]

/-- A backup that handles a packet holds what it held and what the packet carries. -/
theorem Ledger.mem_facts_receive {l : Ledger} {packet : Packet} {f : Fact} :
    f ∈ (l.receive fl packet).facts ↔ f ∈ l.facts ∨ f ∈ packet.facts := by
  cases packet with
  | addClientUpdate data =>
    simp only [Ledger.receive, Ledger.receiveClient, Packet.facts, List.mem_singleton]
    split
    · rename_i hip
      exact ⟨.inl, fun h => h.elim id fun heq => heq ▸ Ledger.registered_mem_facts.mpr hip⟩
    · simp [Ledger.facts, Ledger.addresses, or_assoc]
  | stateUpdate data =>
    cases f with
    | logged tx => simp [Ledger.logged_mem_facts, Ledger.receive, Ledger.receiveEntry, Packet.facts]
    | registered ip =>
      rw [Ledger.registered_mem_facts, Ledger.registered_mem_facts]
      simp only [Ledger.receive, Ledger.addresses, receiveRecords, writeStateUpdate_addresses, mem_ensureClient]
      simp [Packet.facts, or_assoc]
  | addHistoryEntry tx =>
    cases f with
    | logged tx' => simp [Ledger.logged_mem_facts, Ledger.receive, Ledger.receiveEntry, Packet.facts]
    | registered ip =>
      simp [Ledger.registered_mem_facts, Ledger.receive, Ledger.receiveEntry, Ledger.addresses, Packet.facts]
  | _ => simp [Ledger.receive, Packet.facts]

/-- More entries and more addresses are more facts. -/
theorem Ledger.facts_subset {l m : Ledger} (hhistory : l.transactionHistory ⊆ m.transactionHistory)
    (haddresses : l.addresses ⊆ m.addresses) : l.facts ⊆ m.facts :=
  List.append_subset.mpr
    ⟨List.subset_append_of_subset_left _ (List.map_subset _ hhistory),
      List.subset_append_of_subset_right _ (List.map_subset _ haddresses)⟩

/-- A call forgets nothing. -/
theorem Ledger.facts_subset_apply (l : Ledger) (c : Call) : l.facts ⊆ (l.apply fl c).facts := by
  cases c with
  | addClient ip =>
    simp only [Ledger.apply]
    split
    · exact List.Subset.refl _
    · refine Ledger.facts_subset (List.Subset.refl _) ?_
      rw [Ledger.register_addresses]
      exact List.subset_append_left _ _
  | processTransaction sourceIp destAddr value seqn =>
    simp only [Ledger.apply]
    split
    · refine Ledger.facts_subset ?_ ?_
      · rw [Ledger.commit_transactionHistory]
        exact List.subset_append_left _ _
      · rw [Ledger.commit_addresses]
        exact List.Subset.refl _
    · exact List.Subset.refl _

/-- A call that is not accepted keeps the ledger. -/
theorem Ledger.apply_of_not_accepts {l : Ledger} {c : Call} (h : ¬ l.Accepts fl c) : l.apply fl c = l := by
  cases c with
  | addClient ip => exact if_pos (not_not.mp h)
  | processTransaction sourceIp destAddr value seqn => exact if_neg h

instance (l : Ledger) : (c : Call) → Decidable (l.Accepts fl c)
  | .addClient _ => inferInstanceAs (Decidable (_ ∉ _))
  | .processTransaction .. => inferInstanceAs (Decidable (_ = _))

/-! ## What is sent is held -/

/-- A record that is found is of a known address. -/
theorem Ledger.address_mem {l : Ledger} {c : ClientDTO} (h : c ∈ l.clients) :
    .registered c.address ∈ l.facts :=
  Ledger.registered_mem_facts.mpr (List.mem_map_of_mem h)

/-- Propagation sends what the sender holds. -/
theorem Server.propagateSuccess_facts {s : Server} {sourceIp destIp : IpString} {status : TransactionStatus}
    {send : Send} (hsend : send ∈ s.propagateSuccess sourceIp destIp status) :
    send.packet.facts ⊆ s.facts := by
  simp only [Server.propagateSuccess] at hsend
  split at hsend
  · split at hsend
    · rename_i newTx source dest hlast hsource hdest
      obtain ⟨b, -, rfl⟩ := List.mem_map.mp hsend
      have hlogged : .logged newTx ∈ s.facts := Ledger.logged_mem_facts.mpr (List.mem_of_getLast? hlast)
      have hsourceIp := Ledger.address_mem (List.mem_of_getElem? hsource)
      have hdestIp := Ledger.address_mem (List.mem_of_getElem? hdest)
      simp [stateUpdatePacket, Packet.facts, hlogged, hsourceIp, hdestIp]
    · contradiction
  · contradiction

/-- A registration sends what the sender then holds. -/
theorem Server.handleDiscoveryPacket_facts {s : Server} {clientAddr : SockAddr} {send : Send}
    (hsend : send ∈ (s.handleDiscoveryPacket fl clientAddr).2) :
    send.packet.facts ⊆ (s.handleDiscoveryPacket fl clientAddr).1.facts := by
  simp only [Server.handleDiscoveryPacket] at hsend ⊢
  split at hsend
  · rename_i hrole
    rw [if_pos hrole]
    cases List.mem_append.mp hsend with
    | inl hclient =>
      rw [Server.addClient_sends] at hclient
      split at hclient
      · rename_i hnew
        obtain ⟨b, -, rfl⟩ := List.mem_map.mp hclient
        rw [Server.addClient_toLedger, if_neg hnew.1]
        simp [clientUpdatePacket, Packet.facts, Ledger.registered_mem_facts, ClientDTO.new]
      · contradiction
    | inr hack =>
      rw [List.mem_singleton.mp hack]
      exact List.nil_subset _
  · contradiction

/-- The snapshot is of what the ledger holds. -/
theorem Ledger.snapshotPackets_facts {l : Ledger} {packet : Packet} (h : packet ∈ l.snapshotPackets) :
    packet.facts ⊆ l.facts := by
  cases List.mem_append.mp h with
  | inl hclient =>
    obtain ⟨c, hc, rfl⟩ := List.mem_map.mp hclient
    simpa [clientUpdatePacket, Packet.facts] using Ledger.address_mem hc
  | inr hentry =>
    obtain ⟨tx, htx, rfl⟩ := List.mem_map.mp hentry
    simpa [Packet.facts] using Ledger.logged_mem_facts.mpr htx

/-- The transaction of a receipt is in the log. -/
theorem Server.receipt_logged {s : Server} {status : TransactionStatus} {r : Receipt}
    (h : r ∈ s.receipt status) : r.transaction ∈ s.transactionHistory := by
  simp only [Server.receipt] at h
  split at h
  · obtain ⟨tx, htx, rfl⟩ := Option.map_eq_some_iff.mp h
    exact List.mem_of_getLast? htx
  · contradiction

end BankReplica
