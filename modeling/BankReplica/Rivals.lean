import BankReplica.Bully

/-!
# Rival primaries

Of two primaries one still owes the other its announcement, so once every announcement is
delivered there is at most one. The receiver of an announcement steps down without looking
at the ids, so when two announcements cross both senders step down: exactly one primary is
left in the runs in which a server is promoted only while no announcement of another one is
outstanding for it.
-/

namespace BankReplica

open Runs

variable (fl : FloatRounding)

/-- The thread is part of an election. -/
def Thread.elects : Thread → Bool
  | .electionDelay | .electionRaised | .electionCleared | .electionWindow | .electionClosed | .promoting => true
  | _ => false

/-- No election is in progress or queued, and every announcement has been delivered. -/
def Cluster.Settled (c : Cluster) : Prop :=
  c.AllAnnounced ∧ ∀ h ∈ c.hosts, ∀ t ∈ h.node.threads, t.elects = false

instance (c : Cluster) : Decidable c.Settled :=
  inferInstanceAs (Decidable (_ ∧ ∀ h ∈ c.hosts, ∀ t ∈ h.node.threads, _))

/-- The event is not a crash. -/
def Uncrashed (_ : Campaign) : CampaignEvent → Prop
  | .step _ => True
  | .crash _ _ => False

instance (c : Campaign) : (e : CampaignEvent) → Decidable (Uncrashed c e)
  | .step _ => .isTrue trivial
  | .crash _ _ => .isFalse id

/-- No server crashes, and a server is promoted only while no other server has its announcement
still to send or on its way to it. -/
def PromotedUnrivalled (c : Campaign) (e : CampaignEvent) : Prop :=
  Uncrashed c e ∧ ∀ turn ∈ c.turn e, ∀ host ∈ c.cluster.hosts[turn.host]?,
    host.node.promotes turn.event = true → c.cluster.Unrivalled turn.host

instance (c : Campaign) (e : CampaignEvent) : Decidable (PromotedUnrivalled c e) :=
  inferInstanceAs (Decidable (_ ∧ ∀ turn ∈ c.turn e, ∀ host ∈ c.cluster.hosts[turn.host]?, _ → _))

/-- The server has its announcement still to send, or another one's is on its way to it. -/
def Cluster.Unresolved (c : Cluster) (i : ℕ) : Prop :=
  ∃ h, c.hosts[i]? = some h ∧
    (.announcing ∈ h.node.threads ∨ c.Challenged i h.node.server.serverId)

/-- Of two primaries one is unresolved. -/
def Cluster.Rivals (c : Cluster) : Prop :=
  ∀ i j, i ≠ j → c.Leads i → c.Leads j → c.Unresolved i ∨ c.Unresolved j

/-! ## One of two rivals is unresolved -/

section

variable {fl} {c : Cluster} {turn : Turn} {host : Host} {node : Node} {sends : List Send}

/-- A server whose turn it is not stays unresolved. -/
theorem Cluster.Offers.unresolved (hoffers : c.Offers turn) {i : ℕ} (hi : i ≠ turn.host) (h : c.Unresolved i) :
    (c.after turn host node sends).Unresolved i := by
  obtain ⟨g, hget, hopen⟩ := h
  refine ⟨g, (Cluster.after_other c turn host node sends hi).trans hget, hopen.imp_right fun hchallenged => ?_⟩
  exact (hoffers.challenged hchallenged).resolve_right fun htaken => hi htaken.1.symm

/-- A primary that was unresolved before its turn is so after it, or it has just challenged every
other primary. -/
theorem Cluster.Grounded.resolves (hground : c.Grounded) (hoffers : c.Offers turn)
    (hhost : c.hosts[turn.host]? = some host) (hnode : host.node.step fl turn.event = some (node, sends))
    (hprimary : node.server.currentRole = .primary) (h : c.Unresolved turn.host) {j : ℕ} (hj : j ≠ turn.host)
    (hleads : c.Leads j) :
    (c.after turn host node sends).Unresolved turn.host ∨ (c.after turn host node sends).Unresolved j := by
  obtain ⟨g, hget, hopen⟩ := h
  obtain rfl := Option.some.inj (hhost.symm.trans hget)
  have hself := Cluster.after_self hhost node sends
  have hid := (Node.step_effect fl hnode).serverId
  rcases hopen with hannouncing | hchallenged
  · cases Node.announcing_stays hnode hannouncing with
    | inl hstays => exact .inl ⟨_, hself, .inl hstays⟩
    | inr hsends =>
      obtain ⟨rival, hrival, hrole⟩ := hleads
      have hother := (Cluster.after_other c turn host node sends hj).trans hrival
      have hbooted : ¬ rival.node.Booting := by
        intro hboot
        have hbackup := ((hground.watch rival (List.mem_of_getElem? hrival)).vouched.booting hboot).2
        rw [hrole] at hbackup
        contradiction
      have hport := hground.onePort host (List.mem_of_getElem? hhost) rival (List.mem_of_getElem? hrival)
      have hne : host.node.server.serverId ≠ rival.node.server.serverId := by
        intro hsame
        have hids : c.serverIdAt j = some host.node.server.serverId := by
          rw [Cluster.serverIdAt, hrival, hsame]
          rfl
        have hids' : c.serverIdAt turn.host = some host.node.server.serverId := by
          rw [Cluster.serverIdAt, hhost]
          rfl
        exact hj (hground.distinct _ _ _ hids hids')
      refine .inr ⟨rival, hother, .inr ⟨⟨turn.host, j, .newPrimaryAnnouncement host.node.server.serverId⟩, ?_, rfl,
        decide_eq_true hne⟩⟩
      refine List.mem_append_right _ (mem_route_iff.mpr ?_)
      rw [hsends]
      exact ⟨_, List.mem_singleton_self _, rival, hother, Host.hears_broadcast hbooted hport, rfl⟩
  · rcases hoffers.challenged hchallenged with hstands | ⟨_, hdemotes⟩
    · refine .inl ⟨_, hself, .inr ?_⟩
      rw [hid]
      exact hstands
    · have hvouched := (hground.watch host (List.mem_of_getElem? hhost)).vouched
      have hbackup := hvouched.demoted_step fl hdemotes hnode
      rw [hprimary] at hbackup
      contradiction

/-- A turn keeps one of any two primaries unresolved. -/
theorem Cluster.Rivals.after (hrivals : c.Rivals) (hground : c.Grounded) (hoffers : c.Offers turn)
    (hhost : c.hosts[turn.host]? = some host) (hnode : host.node.step fl turn.event = some (node, sends)) :
    (c.after turn host node sends).Rivals := by
  have hself := Cluster.after_self hhost node sends
  -- the server whose turn it was against any other
  have hagainst : ∀ j, j ≠ turn.host → (c.after turn host node sends).Leads turn.host →
      (c.after turn host node sends).Leads j → (c.after turn host node sends).Unresolved turn.host ∨
        (c.after turn host node sends).Unresolved j := by
    intro j hj hleads hleads'
    have hprimary := (Cluster.leads_after_self hhost).mp hleads
    rw [Cluster.leads_after_other hj] at hleads'
    cases (Node.step_effect fl hnode).promoted hprimary with
    | inr hpromotes => exact .inl ⟨_, hself, .inl (Node.promotes_announces hnode hpromotes).2.2⟩
    | inl hwas =>
      cases hrivals turn.host j (Ne.symm hj) ⟨host, hhost, hwas⟩ hleads' with
      | inl hunresolved => exact hground.resolves hoffers hhost hnode hprimary hunresolved hj hleads'
      | inr hunresolved => exact .inr (hoffers.unresolved hj hunresolved)
  intro i j hij hi hj
  by_cases hihost : i = turn.host
  · rw [hihost] at hi ⊢
    exact hagainst j (fun hsame => hij (hihost.trans hsame.symm)) hi hj
  · by_cases hjhost : j = turn.host
    · rw [hjhost] at hj ⊢
      exact (hagainst i hihost hj hi).symm
    · rw [Cluster.leads_after_other hihost] at hi
      rw [Cluster.leads_after_other hjhost] at hj
      exact (hrivals i j hij hi hj).imp (hoffers.unresolved hihost) (hoffers.unresolved hjhost)

/-- A crash keeps one of any two primaries unresolved. -/
theorem Cluster.Rivals.crashed (hrivals : c.Rivals) {i : ℕ} (hhost : c.hosts[i]? = some host)
    (lost : List Envelope) : (c.crashed i host lost).Rivals := by
  have hother : ∀ {k : ℕ}, k ≠ i → (c.crashed i host lost).hosts[k]? = c.hosts[k]? :=
    fun hk => List.getElem?_set_ne (Ne.symm hk)
  have hleads : ∀ {k : ℕ}, (c.crashed i host lost).Leads k → k ≠ i ∧ c.Leads k := by
    rintro k ⟨h, hget, hrole⟩
    by_cases hk : k = i
    · rw [hk, Cluster.crashed, List.getElem?_set_self (List.getElem?_eq_some_iff.mp hhost).1] at hget
      obtain rfl := Option.some.inj hget
      contradiction
    · exact ⟨hk, h, (hother hk).symm.trans hget, hrole⟩
  have hunresolved : ∀ {k : ℕ}, k ≠ i → c.Unresolved k → (c.crashed i host lost).Unresolved k := by
    rintro k hk ⟨h, hget, hopen⟩
    refine ⟨h, (hother hk).trans hget, hopen.imp_right ?_⟩
    rintro ⟨e, he, hdest, hdemotes⟩
    exact ⟨e, List.mem_filter.mpr ⟨he, by simp [hdest, hk]⟩, hdest, hdemotes⟩
  intro k j hkj hk hj
  obtain ⟨hki, hk⟩ := hleads hk
  obtain ⟨hji, hj⟩ := hleads hj
  exact (hrivals k j hkj hk hj).imp (hunresolved hki) (hunresolved hji)

end

/-- In every run, of any two primaries one is unresolved. -/
theorem Campaign.rivals {guard : Campaign → CampaignEvent → Prop} {c : Campaign}
    (h : Reachable (Campaign.step fl) guard Campaign.Initial c) : c.cluster.Rivals := by
  induction h with
  | @init c hc =>
    rintro i j hij ⟨x, hget, hrole⟩
    rw [hc.servers.fresh x (List.mem_of_getElem? hget)] at hrole
    contradiction
  | step hreach _ hstep ih =>
    rcases Campaign.step_eq fl hstep with ⟨turn, host, node, sends, hturn, hhost, hnode, rfl⟩ |
      ⟨i, lost, host, rfl, hhost, rfl⟩
    · exact ih.after (Campaign.grounded fl hreach) (Campaign.turn_offers hturn) hhost hnode
    · exact ih.crashed hhost lost

/-- In every run, once every announcement is delivered at most one server is primary. -/
theorem Campaign.at_most_one {guard : Campaign → CampaignEvent → Prop} {c : Campaign}
    (h : Reachable (Campaign.step fl) guard Campaign.Initial c) (hannounced : c.cluster.AllAnnounced) {i j : ℕ}
    (hi : c.cluster.Leads i) (hj : c.cluster.Leads j) : i = j := by
  have hresolved : ∀ k, ¬ c.cluster.Unresolved k := by
    rintro k ⟨g, hget, hannouncing | ⟨e, he, hdest, hdemotes⟩⟩
    · exact hannounced.2 g (List.mem_of_getElem? hget) hannouncing
    · have hnone := hannounced.1 e he
      cases hpacket : e.packet with
      | newPrimaryAnnouncement newLeaderId =>
        rw [hpacket] at hnone
        contradiction
      | _ =>
        rw [hpacket] at hdemotes
        contradiction
  by_contra hij
  cases Campaign.rivals fl h i j hij hi hj with
  | inl hunresolved => exact hresolved i hunresolved
  | inr hunresolved => exact hresolved j hunresolved

/-- Where every promotion is unrivalled, from the first one on some primary is. -/
theorem Campaign.unrivalled_leads {c : Campaign}
    (h : Reachable (Campaign.step fl) PromotedUnrivalled Campaign.Initial c) (hpromoted : c.promoted ≠ []) :
    ∃ i, c.cluster.Leads i ∧ c.cluster.Unrivalled i := by
  induction h with
  | init hc => exact absurd hc.promoted hpromoted
  | @step c c' e hreach hguard hstep ih =>
    rcases Campaign.step_eq fl hstep with ⟨turn, host, node, sends, hturn, hhost, hnode, rfl⟩ |
      ⟨i, lost, host, rfl, hhost, rfl⟩
    · have hmem := List.mem_of_getElem? hhost
      have hoffers := Campaign.turn_offers hturn
      have hsnapshots := Campaign.snapshots fl hreach host hmem
      cases hpromotes : host.node.promotes turn.event with
      | true =>
        -- the server just promoted takes the place of whoever led before
        have hunrivalled := hguard.2 turn hturn host hhost hpromotes
        have hprimary := (Node.promotes_announces hnode hpromotes).1
        exact ⟨turn.host, (Cluster.leads_after_self hhost).mpr hprimary,
          hunrivalled.after hsnapshots hoffers hhost hnode fun hne => absurd rfl hne⟩
      | false =>
        have hkept : c.promoted ≠ [] := by simpa [Campaign.after, hpromotes] using hpromoted
        obtain ⟨i, hleads, hunrivalled⟩ := ih hkept
        have hwatch := (Campaign.grounded fl hreach).watch host hmem
        exact ⟨i, hunrivalled.leads hleads hwatch hoffers hhost hnode,
          hunrivalled.after hsnapshots hoffers hhost hnode fun _ => hpromotes⟩
    · exact absurd hguard.1 id

/-- Once a server has been promoted, no election is pending and every announcement is delivered,
exactly one server is primary, if no server was ever promoted while the announcement of another
one was still to be sent or on its way to it. -/
theorem rivals_resolve_to_one {c : Campaign}
    (h : Reachable (Campaign.step fl) PromotedUnrivalled Campaign.Initial c) (hpromoted : c.promoted ≠ [])
    (hsettled : c.cluster.Settled) : ∃! i, c.cluster.Leads i := by
  obtain ⟨i, hi, -⟩ := Campaign.unrivalled_leads fl h hpromoted
  exact ⟨i, hi, fun j hj => Campaign.at_most_one fl h hsettled.1 hj hi⟩

/-! ## Two runs of two servers -/

/-- Both servers win an election before the packets of either reach the other, and then take in
each other's announcement. -/
def announcementsCross : List ClusterEvent :=
  [.act 0 .discover, .act 1 .discover] ++ deliverNext 9 ++ [.act 0 .giveUpDiscovery, .act 1 .giveUpDiscovery] ++
    runThreads 0 0 6 ++ runThreads 1 0 6 ++ runThreads 0 1 1 ++ runThreads 1 1 1 ++ deliverNext 13

/-- The second server deposes the first. -/
theorem rivals_resolve_to_second :
    ∃ c : Campaign, c.promoted = [0, 1] ∧ ∃! i, c.cluster.Leads i := by
  obtain ⟨c, hreach, htest⟩ := exists_reachable_of_replay (Campaign.step singlePrecision) PromotedUnrivalled
    Campaign.Initial (uncrashed (wonByLarger ++ runThreads 1 0 1 ++ runThreads 1 1 1 ++ deliverNext 2))
    (fun c => decide (c.promoted = [0, 1] ∧ c.cluster.Settled)) twoCandidates_initial (by decide +kernel)
  obtain ⟨hpromoted, hsettled⟩ := of_decide_eq_true htest
  exact ⟨c, hpromoted, rivals_resolve_to_one singlePrecision hreach (by simp [hpromoted]) hsettled⟩

/-- Two crossing announcements leave no primary. -/
theorem crossing_announcements_leave_none :
    ∃ c, Reachable (Campaign.step singlePrecision) Uncrashed Campaign.Initial c ∧ c.promoted ≠ [] ∧
      c.cluster.Settled ∧ c.cluster.inFlight = [] ∧ ¬ ∃! i, c.cluster.Leads i := by
  obtain ⟨c, hreach, htest⟩ := exists_reachable_of_replay (Campaign.step singlePrecision) Uncrashed
    Campaign.Initial (uncrashed announcementsCross)
    (fun c => decide (c.promoted = [0, 1] ∧ c.cluster.Settled ∧ c.cluster.inFlight = [] ∧
      c.cluster.hosts.map (fun h => h.node.server.currentRole) = [.backup, .backup]))
    twoCandidates_initial (by decide +kernel)
  obtain ⟨hpromoted, hsettled, hempty, hroles⟩ := of_decide_eq_true htest
  refine ⟨c, hreach, by simp [hpromoted], hsettled, hempty, ?_⟩
  rintro ⟨i, ⟨h, hget, hrole⟩, -⟩
  have hbackup : h.node.server.currentRole ∈ ([.backup, .backup] : List ServerRole) := by
    rw [← hroles]
    exact List.mem_map_of_mem (List.mem_of_getElem? hget)
  simp [hrole] at hbackup

end BankReplica
