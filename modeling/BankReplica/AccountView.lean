import BankReplica.Bookkeeping

/-!
# Replication packets on the account map

Where two streams of packets mix, the order of the client vector depends on the
interleaving and the account map does not. The view of a ledger is its account map and
its total; every packet acts on it, and packets about different clients commute. The total
of a view is an exact sum, since rounded sums depend on their order, so a ledger refines its
view as long as nothing that is added to its total is rounded.
-/

namespace BankReplica

open KeyedList

variable (fl : FloatRounding)

/-- The accounts of a ledger by address, and its total. -/
structure View where
  accounts : IpString → Option ClientDTO
  total : ℤ

/-- The view of a ledger. -/
def Ledger.view (l : Ledger) : View := ⟨l.account, l.totalBalance⟩

/-- The record a `STATE_UPDATE` leaves under one of its two addresses. -/
def StateUpdateData.written (data : StateUpdateData) (ip : IpString) (c : ClientDTO) : ClientDTO where
  address := c.address
  lastReq := if ip = data.sourceIp then data.transaction.clientSeqn else c.lastReq
  balance := if ip = data.destIp then data.destBalance else data.sourceBalance

/-- What a packet does to the accounts and the total. -/
def View.receive (v : View) : Packet → View
  | .addClientUpdate data =>
    if (v.accounts data.ip).isSome then v
    else
      ⟨Function.update v.accounts data.ip (some ⟨data.ip, data.lastRequest, data.balance⟩),
        v.total + data.balance⟩
  | .stateUpdate data =>
    { v with
      accounts := fun ip =>
        if ip = data.sourceIp ∨ ip = data.destIp then
          some (data.written ip ((v.accounts ip).getD (.new ip)))
        else v.accounts ip }
  | _ => v

/-! ## The ledger refines its view -/

/-- `emplace_back` after a miss, on the account map. -/
theorem lookup_ensureClient (clients : List ClientDTO) (ip k : IpString) :
    lookup ClientDTO.address (ensureClient clients ip) k =
      if k = ip then some ((lookup ClientDTO.address clients k).getD (.new k))
      else lookup ClientDTO.address clients k := by
  by_cases hip : ip ∈ clients.map ClientDTO.address
  · rw [ensureClient_of_mem hip]
    split
    · rename_i hk
      obtain ⟨c, hc⟩ := Option.isSome_iff_exists.mp ((lookup_isSome _).mpr (hk ▸ hip))
      rw [hc]
      rfl
    · rfl
  · have hend : position ClientDTO.address clients ip = clients.length := (position_eq_length _).mpr hip
    have hnew : (ClientDTO.new ip).address = ip := rfl
    rw [ensureClient, if_pos hend, lookup_append_client (hnew ▸ hip), hnew]
    split
    · rename_i hk
      have hmiss : lookup ClientDTO.address clients k = none := (lookup_eq_none _).mpr (hk ▸ hip)
      rw [hmiss, hk]
      rfl
    · rfl

/-- The three writes of a `STATE_UPDATE`, on the account map. -/
theorem lookup_writeStateUpdate (clients : List ClientDTO) (data : StateUpdateData) (ip : IpString) :
    lookup ClientDTO.address
        (writeStateUpdate clients (position ClientDTO.address clients data.sourceIp)
          (position ClientDTO.address clients data.destIp) data) ip =
      if ip = data.sourceIp ∨ ip = data.destIp then
        (lookup ClientDTO.address clients ip).map (data.written ip)
      else lookup ClientDTO.address clients ip := by
  let setSource : ClientDTO → ClientDTO := fun c => c.setBalance data.sourceBalance
  let setDest : ClientDTO → ClientDTO := fun c => c.setBalance data.destBalance
  let setSeqn : ClientDTO → ClientDTO := fun c => c.setLastRequest data.transaction.clientSeqn
  have hsetSource : ∀ c, (setSource c).address = c.address := fun _ => rfl
  have hsetDest : ∀ c, (setDest c).address = c.address := fun _ => rfl
  have hsetSeqn : ∀ c, (setSeqn c).address = c.address := fun _ => rfl
  have hfirst := map_key_modify hsetSource clients (position ClientDTO.address clients data.sourceIp)
  have hsecond := (map_key_modify hsetDest _ (position ClientDTO.address clients data.destIp)).trans hfirst
  change lookup ClientDTO.address (List.modify (List.modify (List.modify clients _ setSource) _ setDest) _
    setSeqn) ip = _
  rw [lookup_modify_found hsetSeqn hsecond, lookup_modify_found hsetDest hfirst,
    lookup_modify_found hsetDest hfirst, lookup_modify hsetSource, lookup_modify hsetSource,
    lookup_modify hsetSource]
  have hpoint : ∀ (f g : ClientDTO → ClientDTO) (found : Option ClientDTO), (∀ c, f c = g c) →
      found.map f = found.map g := fun f g found h => congrArg (found.map ·) (funext h)
  by_cases hs : ip = data.sourceIp
  · by_cases hd : ip = data.destIp
    · simp only [← hs, ← hd, if_true, or_self, Option.map_map]
      apply hpoint
      intro c
      simp only [StateUpdateData.written, ← hs, ← hd, if_true]
      rfl
    · simp only [← hs, hd, if_true, if_false, or_false, Option.map_map]
      apply hpoint
      intro c
      simp only [StateUpdateData.written, ← hs, hd, if_true, if_false]
      rfl
  · by_cases hd : ip = data.destIp
    · have hne : data.destIp ≠ data.sourceIp := hd ▸ hs
      simp only [hs, if_true, if_false, or_true, ← hd]
      apply hpoint
      intro c
      simp only [StateUpdateData.written, hs, ← hd, if_true, if_false]
      rfl
    · simp only [hs, hd, if_false, or_self]

/-- A `STATE_UPDATE` on the account map. -/
theorem lookup_receiveRecords (clients : List ClientDTO) (data : StateUpdateData) (ip : IpString) :
    lookup ClientDTO.address (receiveRecords clients data) ip =
      if ip = data.sourceIp ∨ ip = data.destIp then
        some (data.written ip ((lookup ClientDTO.address clients ip).getD (.new ip)))
      else lookup ClientDTO.address clients ip := by
  rw [receiveRecords, lookup_writeStateUpdate, lookup_ensureClient, lookup_ensureClient]
  by_cases hs : ip = data.sourceIp
  · by_cases hd : ip = data.destIp <;> simp [← hs, hd]
  · by_cases hd : ip = data.destIp
    · have hne : data.destIp ≠ data.sourceIp := hd ▸ hs
      simp [hd, hne]
    · simp [hs, hd]

/-- Adding a balance to a total rounds nothing. -/
def ExactSum (total balance : ℤ) : Prop := fl (fl total + balance) = total + balance

instance (total balance : ℤ) : Decidable (ExactSum fl total balance) := inferInstanceAs (Decidable (_ = _))

/-- What a packet adds to the total of a ledger is not rounded. -/
def Ledger.AddsExactly (l : Ledger) : Packet → Prop
  | .addClientUpdate data => data.ip ∉ l.addresses → ExactSum fl l.totalBalance data.balance
  | _ => True

instance (l : Ledger) : DecidablePred (l.AddsExactly fl)
  | .addClientUpdate _ => inferInstanceAs (Decidable (_ → _))
  | .transactionReq _ | .transactionAck _ | .discovery | .discoveryAck | .registerBackup | .stateUpdate _
  | .stateUpdateAck | .addHistoryEntry _ | .heartbeat | .serverDiscovery | .newPrimaryAnnouncement _
  | .election _ | .electionAnswer _ => .isTrue trivial

/-- A packet whose addition is not rounded acts on the view of a ledger. -/
theorem Ledger.view_receive {l : Ledger} {packet : Packet} (hexact : l.AddsExactly fl packet) :
    (l.receive fl packet).view = l.view.receive packet := by
  cases packet with
  | addClientUpdate data =>
    by_cases hip : data.ip ∈ l.addresses
    · have hknown : (l.view.accounts data.ip).isSome := Ledger.account_isSome.mpr hip
      rw [Ledger.receive, Ledger.receiveClient, if_pos hip, View.receive, if_pos hknown]
    · have hmiss : ¬ (l.view.accounts data.ip).isSome := fun h => hip (Ledger.account_isSome.mp h)
      rw [Ledger.receive, Ledger.receiveClient, if_neg hip, View.receive, if_neg hmiss]
      refine congrArg₂ View.mk ?_ (hexact hip)
      funext ip
      rw [Function.update_apply]
      exact lookup_append_client (c := ⟨data.ip, data.lastRequest, data.balance⟩) hip ip
  | stateUpdate data =>
    refine congrArg₂ View.mk ?_ rfl
    funext ip
    exact lookup_receiveRecords l.clients data ip
  | _ => rfl

/-- Exact balances are never rounded. -/
theorem Ledger.addsExactly_exactBalances (l : Ledger) (packet : Packet) : l.AddsExactly exactBalances packet := by
  cases packet with
  | addClientUpdate data => exact fun _ => rfl
  | _ => trivial

/-- A list of packets acts on the view of a ledger with exact balances. -/
theorem Ledger.view_receives (l : Ledger) (packets : List Packet) :
    (packets.foldl (Ledger.receive exactBalances) l).view = packets.foldl View.receive l.view := by
  induction packets generalizing l with
  | nil => rfl
  | cons packet rest ih =>
    rw [List.foldl_cons, ih, Ledger.view_receive exactBalances (l.addsExactly_exactBalances packet), List.foldl_cons]

/-! ## Packets about different clients commute -/

/-- A packet leaves the accounts of all other clients alone. -/
theorem View.receive_accounts_of_not_mem {v : View} {packet : Packet} {ip : IpString}
    (h : ip ∉ packet.parties) : (v.receive packet).accounts ip = v.accounts ip := by
  cases packet with
  | addClientUpdate data =>
    simp only [View.receive]
    split
    · rfl
    · exact Function.update_of_ne (by simpa [Packet.parties] using h) _ _
  | stateUpdate data =>
    simp only [Packet.parties, List.mem_cons, List.not_mem_nil, or_false] at h
    simp only [View.receive, h, if_false]
  | _ => rfl

/-- What a packet does to an account depends on that account alone. -/
theorem View.receive_accounts_congr {v w : View} {ip : IpString} (h : v.accounts ip = w.accounts ip)
    (packet : Packet) : (v.receive packet).accounts ip = (w.receive packet).accounts ip := by
  cases packet with
  | addClientUpdate data =>
    by_cases hip : ip = data.ip
    · subst hip
      simp only [View.receive, h]
      split
      · exact h
      · change Function.update v.accounts _ _ _ = Function.update w.accounts _ _ _
        rw [Function.update_self, Function.update_self]
    · have hother : ip ∉ (Packet.addClientUpdate data).parties := by simpa [Packet.parties] using hip
      rw [View.receive_accounts_of_not_mem hother, View.receive_accounts_of_not_mem hother, h]
  | stateUpdate data => simp only [View.receive, h]
  | _ => exact h

/-- What a packet adds to the total. -/
def View.gain (v : View) : Packet → ℤ
  | .addClientUpdate data => if (v.accounts data.ip).isSome then 0 else data.balance
  | _ => 0

/-- The total grows by what the packet adds. -/
theorem View.receive_total (v : View) (packet : Packet) :
    (v.receive packet).total = v.total + v.gain packet := by
  cases packet with
  | addClientUpdate data =>
    simp only [View.receive, View.gain]
    split
    · exact (add_zero _).symm
    · rfl
  | _ => exact (add_zero _).symm

/-- What a packet adds depends on the accounts it is about. -/
theorem View.gain_congr {v w : View} {packet : Packet}
    (h : ∀ ip ∈ packet.parties, v.accounts ip = w.accounts ip) : v.gain packet = w.gain packet := by
  cases packet with
  | addClientUpdate data =>
    have hip := h data.ip (by simp [Packet.parties])
    simp only [View.gain, hip]
  | _ => rfl

/-- Packets about different clients commute. -/
theorem View.receive_comm {packet other : Packet} (h : packet.parties.Disjoint other.parties) (v : View) :
    (v.receive packet).receive other = (v.receive other).receive packet := by
  have haccounts : ((v.receive packet).receive other).accounts =
      ((v.receive other).receive packet).accounts := by
    funext ip
    by_cases hip : ip ∈ packet.parties
    · have hother : ip ∉ other.parties := fun hmem => h hip hmem
      rw [View.receive_accounts_of_not_mem hother]
      exact View.receive_accounts_congr (View.receive_accounts_of_not_mem hother).symm packet
    · rw [View.receive_accounts_of_not_mem hip (v := v.receive other)]
      exact View.receive_accounts_congr (View.receive_accounts_of_not_mem hip) other
  have hgain : (v.receive packet).gain other = v.gain other :=
    View.gain_congr fun ip hip => View.receive_accounts_of_not_mem fun hmem => h hmem hip
  have hgain' : (v.receive other).gain packet = v.gain packet :=
    View.gain_congr fun ip hip => View.receive_accounts_of_not_mem fun hmem => h hip hmem
  have htotal : ((v.receive packet).receive other).total = ((v.receive other).receive packet).total := by
    rw [View.receive_total, View.receive_total, View.receive_total, View.receive_total, hgain, hgain']
    ring
  exact congrArg₂ View.mk haccounts htotal

/-- A packet commutes with a list of packets about other clients. -/
theorem View.receive_foldl_comm {packet : Packet} {packets : List Packet}
    (h : ∀ other ∈ packets, packet.parties.Disjoint other.parties) (v : View) :
    packets.foldl View.receive (v.receive packet) = (packets.foldl View.receive v).receive packet := by
  induction packets generalizing v with
  | nil => rfl
  | cons other rest ih =>
    rw [List.foldl_cons, View.receive_comm (h other (List.mem_cons_self ..)), List.foldl_cons]
    exact ih (fun p hp => h p (List.mem_cons_of_mem _ hp)) (v.receive other)

end BankReplica
