import BankReplica.Failover

/-!
# The bully rule

A booted server answers the `ELECTION` of every smaller id, also as a primary, and a
candidate that hears a larger id while its window is open has lost. So if every poll is
handled before its window closes, nobody calls `promoteToPrimary` while a larger id has
been in its receive loop since the broadcast. A smaller id never stops a candidate, so a
live primary with a smaller id is deposed.
-/

namespace BankReplica

open Runs

variable (fl : FloatRounding)

/-- What holds of servers whose polls are handled in time. -/
structure Campaign.Sound (c : Campaign) : Prop where
  grounded : c.cluster.Grounded
  inLoop : ∀ i, c.cluster.WindowOpen i → ∀ j ∈ c.electors i, j ∈ c.cluster.inLoop
  polled : ∀ (i : ℕ) (h : Host), c.cluster.hosts[i]? = some h → ∀ t ∈ h.node.threads, t.Polled h.node.server
    (fun j => j ∈ c.electors i ∧ c.cluster.Outranks j i) (c.cluster.Pending i)

/-- Nobody who was in its receive loop throughout an election that was won has a larger id. -/
def Campaign.FairlyWon (c : Campaign) : Prop :=
  ∀ v ∈ c.won, c.cluster.serverIdAt v.winner ≠ none ∧ ∀ j ∈ v.electors, ¬ c.cluster.Outranks j v.winner

section

variable {fl} {c : Campaign} {turn : Turn} {host : Host} {node : Node} {sends : List Send}

/-- A candidate that has just broadcast its `ELECTION` waits for every server that listens. -/
theorem Campaign.Sound.opens (hsound : c.Sound) (hhost : c.cluster.hosts[turn.host]? = some host)
    (hnode : host.node.step fl turn.event = some (node, sends))
    (hruns : host.node.runs turn.event = some .electionCleared) {j : ℕ} (hj : j ∈ c.cluster.inLoop) :
    (c.after turn host node sends).cluster.Pending turn.host j := by
  have hid := Campaign.serverIdAt_after hhost hnode
  have hmem := Campaign.inLoop_after hhost hnode hj
  have hsends : sends = [host.node.server.broadcastElection] := by
    cases Node.step_course fl hnode with
    | heard new hnone hthreads hnew hheard =>
      rw [hnone] at hruns
      contradiction
    | ran hevent hget hstep hserver hthreads hloop hsends =>
      rw [hevent] at hruns
      obtain rfl := Option.some.inj (hget.symm.trans hruns)
      obtain rfl := Option.some.inj hstep
      exact hsends
  obtain ⟨h, hget, hbooted⟩ := Cluster.mem_inLoop.mp hmem
  obtain ⟨g, hg, haddr⟩ := Cluster.addr_after hhost hget
  have hport := hsound.grounded.onePort host (List.mem_of_getElem? hhost) g (List.mem_of_getElem? hg)
  rw [haddr] at hport
  refine .inl ⟨⟨turn.host, j, .election host.node.server.serverId⟩, ?_, rfl, rfl, host.node.server.serverId, ?_, rfl⟩
  · refine List.mem_append_right _ (mem_route_iff.mpr ?_)
    rw [hsends]
    exact ⟨_, List.mem_singleton_self _, h, hget, Host.hears_broadcast hbooted hport, rfl⟩
  · rw [hid]
    simp [Cluster.serverIdAt, hhost]

/-- A poll of another candidate stays pending: it is taken in only to be answered. -/
theorem Campaign.Sound.waits (hoffers : c.cluster.Offers turn)
    (hhost : c.cluster.hosts[turn.host]? = some host)
    (hnode : host.node.step fl turn.event = some (node, sends)) {i j : ℕ} (hi : i ≠ turn.host)
    (hlistens : i ∈ c.cluster.inLoop) (hj : j ∈ c.cluster.inLoop) (houtranks : c.cluster.Outranks j i)
    (hpending : c.cluster.Pending i j) : (c.after turn host node sends).cluster.Pending i j := by
  have hid := Campaign.serverIdAt_after hhost hnode
  obtain ⟨b, hb, a, ha, hlt⟩ := houtranks
  rcases hpending with ⟨e, he, hsource, hdest, a', ha', hpacket⟩ | ⟨e, he, hdest, b', hb', hpacket⟩
  · obtain rfl := Option.mem_unique ha ha'
    rcases hoffers.taken he with hleft | ⟨hreceiver, source, hget, hevent⟩
    · exact .inl ⟨e, List.mem_append_left _ hleft, hsource, hdest, a, hid ▸ ha, hpacket⟩
    · -- the voter answers, whatever its role
      obtain ⟨voter, hvoter, hbooted⟩ := Cluster.mem_inLoop.mp hj
      rw [← hdest, ← hreceiver, hhost] at hvoter
      obtain rfl := Option.some.inj hvoter
      rw [← hdest, ← hreceiver, Cluster.serverIdAt, hhost] at hb
      obtain rfl := Option.some.inj hb
      rw [hevent, hpacket] at hnode
      have hsends := Node.receive_election fl hbooted hlt hnode
      obtain ⟨candidate, hcandidate, hlistening⟩ := Cluster.mem_inLoop.mp hlistens
      rw [hsource] at hget
      obtain rfl := Option.mem_unique hget hcandidate
      refine .inr ⟨⟨turn.host, i, .electionAnswer host.node.server.serverId⟩, ?_, rfl,
        host.node.server.serverId, ?_, rfl⟩
      · refine List.mem_append_right _ (mem_route_iff.mpr ?_)
        refine ⟨⟨source.addr, .electionAnswer host.node.server.serverId⟩, by simp [hsends], source, ?_,
          Host.hears_own hlistening, rfl⟩
        exact (Cluster.after_other c.cluster turn host node sends hi).trans hcandidate
      · rw [hid, ← hdest, ← hreceiver]
        simp [Cluster.serverIdAt, hhost]
  · rcases hoffers.taken he with hleft | ⟨hreceiver, source, hget, hevent⟩
    · exact .inr ⟨e, List.mem_append_left _ hleft, hdest, b', hid ▸ hb', hpacket⟩
    · exact absurd (hreceiver.trans hdest).symm hi

/-- The poll of the server whose turn it is stays pending or is lost. -/
theorem Campaign.Sound.loses (hoffers : c.cluster.Offers turn)
    (hhost : c.cluster.hosts[turn.host]? = some host)
    (hnode : host.node.step fl turn.event = some (node, sends)) {j : ℕ} (hbooted : ¬ host.node.Booting)
    (hraised : host.node.server.electionInProgress = true) (houtranks : c.cluster.Outranks j turn.host)
    (hpending : c.cluster.Pending turn.host j) :
    (c.after turn host node sends).cluster.Pending turn.host j ∨ node.server.electionLost = true := by
  have hid := Campaign.serverIdAt_after hhost hnode
  rcases hpending with ⟨e, he, hsource, hdest, a, ha, hpacket⟩ | ⟨e, he, hdest, b, hb, hpacket⟩
  · rcases hoffers.taken he with hleft | ⟨hreceiver, source, hget, hevent⟩
    · exact .inl (.inl ⟨e, List.mem_append_left _ hleft, hsource, hdest, a, hid ▸ ha, hpacket⟩)
    · rw [← hdest, ← hreceiver] at houtranks
      exact absurd houtranks Cluster.not_outranks_self
  · rcases hoffers.taken he with hleft | ⟨hreceiver, source, hget, hevent⟩
    · exact .inl (.inr ⟨e, List.mem_append_left _ hleft, hdest, b, hid ▸ hb, hpacket⟩)
    · obtain ⟨b', hb', a, ha, hlt⟩ := houtranks
      obtain rfl := Option.mem_unique hb hb'
      rw [Cluster.serverIdAt, hhost] at ha
      obtain rfl := Option.some.inj ha
      rw [hevent, hpacket] at hnode
      exact .inr (Node.receive_answer fl hbooted hraised hlt hnode)

/-- The electors of the servers whose turn it is not. -/
theorem Campaign.electors_after {i : ℕ} (hi : i ≠ turn.host) :
    (c.after turn host node sends).electors i = c.electors i := by
  simp only [Campaign.after]
  split
  · exact Function.update_of_ne hi _ _
  · rfl

/-- A pending poll of a server in its receive loop is one that is not handled. -/
theorem Cluster.ofPoll_of_pending {c : Cluster} {i j : ℕ} (hj : j ∈ c.inLoop) (h : c.Pending i j) :
    ∃ e ∈ c.inFlight, e.ofPoll i c.inLoop = true := by
  rcases h with ⟨e, he, hsource, hdest, a, ha, hpacket⟩ | ⟨e, he, hdest, b, hb, hpacket⟩
  · exact ⟨e, he, by simp [Envelope.ofPoll, hpacket, hsource, hdest, hj]⟩
  · exact ⟨e, he, by simp [Envelope.ofPoll, hpacket, hdest]⟩

/-- A turn in which no window closes on a pending poll. -/
theorem Campaign.Sound.after (hsound : c.Sound) (hoffers : c.cluster.Offers turn)
    (hhost : c.cluster.hosts[turn.host]? = some host)
    (hnode : host.node.step fl turn.event = some (node, sends))
    (hguard : host.node.runs turn.event = some .electionWindow →
      ∀ e ∈ c.cluster.inFlight, e.ofPoll turn.host c.cluster.inLoop = false) :
    (c.after turn host node sends).Sound := by
  have hid := Campaign.serverIdAt_after hhost hnode
  have hmem := List.mem_of_getElem? hhost
  have houtranks : (c.after turn host node sends).cluster.Outranks = c.cluster.Outranks := by
    funext j i
    simp only [Cluster.Outranks, hid]
  have hself := hsound.polled turn.host host hhost
  constructor
  · exact hsound.grounded.after hhost hnode
  · intro i hopen j hj
    refine Campaign.inLoop_after hhost hnode ?_
    obtain ⟨h, hget, hwindow⟩ := hopen
    by_cases hi : i = turn.host
    · rw [hi] at hget hj
      obtain rfl := Option.mem_unique hget (Cluster.after_self hhost node sends)
      simp only [Campaign.after] at hj
      split at hj
      · rwa [Function.update_self] at hj
      · rename_i hruns
        have hold := ((Node.step_course fl hnode).opened fl hwindow).resolve_right hruns
        exact hsound.inLoop turn.host ⟨host, hhost, hold⟩ j hj
    · rw [Campaign.electors_after hi] at hj
      exact hsound.inLoop i ⟨h, (Cluster.after_other c.cluster turn host node sends hi).symm.trans hget, hwindow⟩ j hj
  · intro i h hget
    rw [houtranks]
    by_cases hi : i = turn.host
    · rw [hi] at hget ⊢
      rw [Campaign.after, Cluster.after_self hhost] at hget
      obtain rfl := Option.some.inj hget
      refine (hsound.grounded.watch host hmem).polled fl (Node.step_course fl hnode) hself ?_ ?_ ?_ ?_
      · intro hruns j hj
        simp only [Campaign.after, hruns, if_true, Function.update_self] at hj
        exact hsound.opens hhost hnode hruns hj.1
      · intro hruns j hj
        simpa only [Campaign.after, if_neg hruns] using hj
      · intro hruns hwindow hraised j hj hpending
        have hbooted := (hsound.grounded.watch host hmem).vouched.not_booting hwindow
        simp only [Campaign.after, if_neg hruns] at hj
        exact Campaign.Sound.loses hoffers hhost hnode hbooted hraised hj.2 hpending
      · intro hruns j hj hpending
        have hopen : c.cluster.WindowOpen turn.host := ⟨host, hhost, Node.mem_of_runs hruns⟩
        obtain ⟨e, he, hpoll⟩ := Cluster.ofPoll_of_pending (hsound.inLoop _ hopen j hj.1) hpending
        rw [hguard hruns e he] at hpoll
        contradiction
    · rw [Campaign.after, Cluster.after_other _ _ _ _ _ hi] at hget
      rw [Campaign.electors_after hi]
      intro t ht
      have hbooted := (hsound.grounded.watch h (List.mem_of_getElem? hget)).vouched.not_booting ht
      refine (hsound.polled i h hget t ht).heard (Server.Heard.refl _) (fun j hj => hj) ?_
      intro hwindow _ j hj hpending
      have hopen : c.cluster.WindowOpen i := ⟨h, hget, hwindow ▸ ht⟩
      exact .inl (Campaign.Sound.waits hoffers hhost hnode hi (Cluster.mem_inLoop.mpr ⟨h, hget, hbooted⟩)
        (hsound.inLoop i hopen j hj.1) hj.2 hpending)

/-- An election is won against everybody who was polled. -/
theorem Campaign.Sound.fairlyWon (hsound : c.Sound) (hwon : c.FairlyWon)
    (hhost : c.cluster.hosts[turn.host]? = some host) (hnode : host.node.step fl turn.event = some (node, sends)) :
    (c.after turn host node sends).FairlyWon := by
  have hid := Campaign.serverIdAt_after hhost hnode
  have houtranks : (c.after turn host node sends).cluster.Outranks = c.cluster.Outranks := by
    funext j i
    simp only [Cluster.Outranks, hid]
  intro v hv
  rw [houtranks, hid]
  simp only [Campaign.after] at hv
  split at hv
  · rename_i hwins
    cases List.mem_append.mp hv with
    | inl hold => exact hwon v hold
    | inr hnew =>
      rw [List.mem_singleton.mp hnew]
      obtain ⟨hruns, hlost⟩ := of_decide_eq_true hwins
      refine ⟨by simp [Cluster.serverIdAt, hhost], fun j hj hlarger => ?_⟩
      have hknown := hsound.polled turn.host host hhost _ (Node.mem_of_runs hruns) j ⟨hj, hlarger⟩
      rw [hlost] at hknown
      contradiction
  · exact hwon v hv

/-- A crash. -/
theorem Campaign.Sound.crash (hsound : c.Sound) {i : ℕ} (hhost : c.cluster.hosts[i]? = some host)
    (lost : List Envelope) :
    Campaign.Sound { c with cluster := c.cluster.crashed i host lost, electors := c.electorsWithout i } := by
  have hid : (c.cluster.crashed i host lost).serverIdAt = c.cluster.serverIdAt :=
    Cluster.serverIdAt_set hhost (Node.new _ _) rfl _
  have houtranks : (c.cluster.crashed i host lost).Outranks = c.cluster.Outranks := by
    funext j k
    simp only [Cluster.Outranks, hid]
  have hother : ∀ {k : ℕ}, k ≠ i → (c.cluster.crashed i host lost).hosts[k]? = c.cluster.hosts[k]? :=
    fun hk => List.getElem?_set_ne (Ne.symm hk)
  have hfresh : ∀ {h : Host}, (c.cluster.crashed i host lost).hosts[i]? = some h → h.node.threads = [] := by
    intro h hget
    rw [Cluster.crashed, List.getElem?_set_self (List.getElem?_eq_some_iff.mp hhost).1] at hget
    obtain rfl := Option.some.inj hget
    rfl
  constructor
  · exact hsound.grounded.crashed hhost lost
  · rintro s ⟨h, hget, hwindow⟩ j hj
    have hs : s ≠ i := by
      rintro rfl
      rw [hfresh hget] at hwindow
      contradiction
    have hopen : c.cluster.WindowOpen s := ⟨h, (hother hs).symm.trans hget, hwindow⟩
    simp only [Campaign.electorsWithout, if_pos hopen, List.mem_filter, decide_eq_true_eq] at hj
    obtain ⟨voter, hvoter, hbooted⟩ := Cluster.mem_inLoop.mp (hsound.inLoop s hopen j hj.1)
    exact Cluster.mem_inLoop.mpr ⟨voter, (hother hj.2).trans hvoter, hbooted⟩
  · intro s h hget t ht
    have hs : s ≠ i := by
      rintro rfl
      rw [hfresh hget] at ht
      contradiction
    rw [houtranks]
    rw [hother hs] at hget
    have hsubset : ∀ j, j ∈ c.electorsWithout i s → j ∈ c.electors s := by
      intro j hj
      simp only [Campaign.electorsWithout] at hj
      split at hj
      · exact List.mem_of_mem_filter hj
      · exact hj
    refine (hsound.polled s h hget t ht).heard (Server.Heard.refl _) (fun j hj => ⟨hsubset j hj.1, hj.2⟩) ?_
    intro hwindow _ j hj hpending
    have hopen : c.cluster.WindowOpen s := ⟨h, hget, hwindow ▸ ht⟩
    have hj' : j ≠ i := by
      have hfiltered := hj.1
      simp only [Campaign.electorsWithout, if_pos hopen, List.mem_filter, decide_eq_true_eq] at hfiltered
      exact hfiltered.2
    refine .inl ?_
    rcases hpending with ⟨e, he, hsource, hdest, hpacket⟩ | ⟨e, he, hdest, hpacket⟩
    · refine .inl ⟨e, List.mem_filter.mpr ⟨he, by simp [hdest, hj']⟩, hsource, hdest, ?_⟩
      rwa [hid]
    · refine .inr ⟨e, List.mem_filter.mpr ⟨he, by simp [hdest, hs]⟩, hdest, ?_⟩
      rwa [hid]

/-- A crash loses no election that was won. -/
theorem Campaign.FairlyWon.crash (hwon : c.FairlyWon) {i : ℕ} (hhost : c.cluster.hosts[i]? = some host)
    (lost : List Envelope) :
    Campaign.FairlyWon { c with cluster := c.cluster.crashed i host lost, electors := c.electorsWithout i } := by
  have hid : (c.cluster.crashed i host lost).serverIdAt = c.cluster.serverIdAt :=
    Cluster.serverIdAt_set hhost (Node.new _ _) rfl _
  intro v hv
  simp only [Cluster.Outranks, hid]
  exact hwon v hv

/-- Servers before `init`. -/
theorem Campaign.Initial.sound (h : c.Initial) : c.Sound := by
  constructor
  · exact h.grounded
  · intro i hopen j hj
    rw [h.electors i] at hj
    contradiction
  · intro i x hget t ht
    rw [h.servers.fresh x (List.mem_of_getElem? hget)] at ht
    contradiction

end

/-- Every step that closes no window on a pending poll. -/
theorem Campaign.Sound.step {c c' : Campaign} (hsound : c.Sound) {e : CampaignEvent} (hguard : PollsHandled c e)
    (hstep : c.step fl e = some c') : c'.Sound := by
  rcases Campaign.step_eq fl hstep with ⟨turn, host, node, sends, hturn, hhost, hnode, rfl⟩ |
    ⟨i, lost, host, rfl, hhost, rfl⟩
  · exact hsound.after (Campaign.turn_offers hturn) hhost hnode (hguard turn hturn host hhost)
  · exact hsound.crash hhost lost

/-- In every run whose polls are handled in time. -/
theorem Campaign.sound {c : Campaign} (h : Reachable (Campaign.step fl) PollsHandled Campaign.Initial c) :
    c.Sound :=
  h.invariant (fun _ hc => hc.sound) fun _ _ _ hsound hguard hstep => hsound.step fl hguard hstep

/-- The elections won in every run whose polls are handled in time. -/
theorem Campaign.fairlyWon {c : Campaign} (h : Reachable (Campaign.step fl) PollsHandled Campaign.Initial c) :
    c.FairlyWon := by
  refine (Reachable.invariant (I := fun c => c.Sound ∧ c.FairlyWon) ?_ ?_ h).2
  · intro c hc
    refine ⟨hc.sound, fun v hv => ?_⟩
    rw [hc.won] at hv
    contradiction
  · rintro c e c' ⟨hsound, hwon⟩ hguard hstep
    refine ⟨hsound.step fl hguard hstep, ?_⟩
    rcases Campaign.step_eq fl hstep with ⟨turn, host, node, sends, hturn, hhost, hnode, rfl⟩ |
      ⟨i, lost, host, rfl, hhost, rfl⟩
    · exact hsound.fairlyWon hwon hhost hnode
    · exact hwon.crash hhost lost

/-- A server calls `promoteToPrimary` only if no server in its receive loop throughout its window
has a larger id, and of two such servers that are in each other's window only one ever does. -/
theorem bully_rule {c : Campaign} (h : Reachable (Campaign.step fl) PollsHandled Campaign.Initial c) :
    (∀ v ∈ c.won, ∀ j ∈ v.electors, ¬ c.cluster.Outranks j v.winner) ∧
      ∀ v ∈ c.won, ∀ w ∈ c.won, w.winner ∈ v.electors → v.winner ∈ w.electors → v.winner = w.winner := by
  have hwon := Campaign.fairlyWon fl h
  refine ⟨fun v hv => (hwon v hv).2, fun v hv w hw hwv hvw => ?_⟩
  obtain ⟨a, ha⟩ := Option.ne_none_iff_exists'.mp (hwon v hv).1
  obtain ⟨b, hb⟩ := Option.ne_none_iff_exists'.mp (hwon w hw).1
  have hle : ¬ a < b := fun hlt => (hwon v hv).2 _ hwv ⟨b, hb, a, ha, hlt⟩
  have hge : ¬ b < a := fun hlt => (hwon w hw).2 _ hvw ⟨a, ha, b, hb, hlt⟩
  have hsame : a = b := by bv_omega
  exact (Campaign.grounded fl h).distinct _ _ a ha (hsame ▸ hb)

/-! ## Live primaries -/

/-- The step starts an election. -/
def Node.startsElection (n : Node) (e : NodeEvent) : Bool :=
  n.runs e = some .electionDelay ∨ (n.runs e = some .monitorWaiting ∧ n.server.primaryAlive = false)

/-- No announcement is still to be sent or on its way. -/
def Cluster.AllAnnounced (c : Cluster) : Prop :=
  (∀ e ∈ c.inFlight, e.packet.announces = false) ∧ ∀ h ∈ c.hosts, .announcing ∉ h.node.threads

instance (c : Cluster) : Decidable c.AllAnnounced :=
  inferInstanceAs (Decidable ((∀ e ∈ c.inFlight, _) ∧ ∀ h ∈ c.hosts, _))

/-- Every poll is handled before its window closes, and every announcement before the next
election starts. -/
def ElectionsApart (c : Campaign) (e : CampaignEvent) : Prop :=
  PollsHandled c e ∧ ∀ turn ∈ c.turn e, ∀ host ∈ c.cluster.hosts[turn.host]?,
    host.node.startsElection turn.event = true → c.cluster.AllAnnounced

instance (c : Campaign) (e : CampaignEvent) : Decidable (ElectionsApart c e) :=
  inferInstanceAs (Decidable (_ ∧ ∀ turn ∈ c.turn e, ∀ host ∈ c.cluster.hosts[turn.host]?, _ → _))

/-- At a role change, every primary that was in its receive loop throughout the window of the
candidate has a smaller id. -/
theorem promotion_outranks_primaries {c : Campaign}
    (h : Reachable (Campaign.step fl) PollsHandled Campaign.Initial c) {i : ℕ} {host : Host}
    (hhost : c.cluster.hosts[i]? = some host) {e : NodeEvent} (hpromotes : host.node.promotes e = true) :
    ∀ j ∈ c.electors i, c.cluster.Leads j → c.cluster.Outranks i j := by
  have hsound := Campaign.sound fl h
  obtain ⟨hruns, hbackup⟩ := Node.promotes_iff.mp hpromotes
  have hnone := hsound.polled i host hhost _ (Node.mem_of_runs hruns)
  rintro j hj ⟨primary, hprimary, hrole⟩
  have hid : c.cluster.serverIdAt i = some host.node.server.serverId := by
    simp [Cluster.serverIdAt, hhost]
  have hid' : c.cluster.serverIdAt j = some primary.node.server.serverId := by
    rw [Cluster.serverIdAt, hprimary]
    rfl
  have hne : host.node.server.serverId ≠ primary.node.server.serverId := by
    intro hsame
    have hj' := hsound.grounded.distinct _ _ _ hid (hsame ▸ hid')
    rw [← hj', hhost] at hprimary
    obtain rfl := Option.some.inj hprimary
    rw [hbackup] at hrole
    contradiction
  have hle : ¬ host.node.server.serverId < primary.node.server.serverId := fun hlt =>
    hnone j ⟨hj, _, hid', _, hid, hlt⟩
  exact ⟨_, hid, _, hid', by bv_omega⟩

/-! ## Three runs of two servers -/

/-- Two servers that have not started, without a history. -/
def twoCandidates : Campaign where
  cluster := twoServers

theorem twoCandidates_initial : twoCandidates.Initial where
  servers := twoServers_initial
  onePort := by decide
  electors _ := rfl
  won := rfl
  promoted := rfl

/-- Events of servers that do not crash. -/
def uncrashed (events : List ClusterEvent) : List CampaignEvent := events.map .step

/-- Both servers open a window and take in every packet, the last one sent first. -/
def electedTogether : List ClusterEvent :=
  [.act 0 .discover, .act 1 .discover] ++ deliverNext 9 ++ [.act 0 .giveUpDiscovery, .act 1 .giveUpDiscovery] ++
    runThreads 0 0 3 ++ runThreads 1 0 3 ++ [.deliver 3] ++ deliverNext 6 ++ runThreads 0 0 2 ++ runThreads 1 0 2

/-- Of two servers with overlapping windows the one with the larger id wins. -/
theorem bully_rule_overlapping :
    ∃ c : Campaign, c.won = [⟨1, [0, 1]⟩] ∧ ¬ c.cluster.Outranks 0 1 := by
  obtain ⟨c, hreach, htest⟩ := exists_reachable_of_replay (Campaign.step singlePrecision) PollsHandled
    Campaign.Initial (uncrashed electedTogether) (fun c => decide (c.won = [⟨1, [0, 1]⟩])) twoCandidates_initial
    (by decide +kernel)
  have hwon := of_decide_eq_true htest
  refine ⟨c, hwon, (bully_rule singlePrecision hreach).1 ⟨1, [0, 1]⟩ ?_ 0 (by decide)⟩
  rw [hwon]
  exact List.mem_singleton_self _

/-- The step makes a server primary while another one is. -/
def Campaign.Usurps (c : Campaign) (e : CampaignEvent) : Prop :=
  ∃ turn ∈ c.turn e, ∃ host ∈ c.cluster.hosts[turn.host]?, host.node.promotes turn.event = true ∧
    ∃ j < c.cluster.hosts.length, j ≠ turn.host ∧ c.cluster.Leads j

instance (c : Campaign) (e : CampaignEvent) : Decidable (c.Usurps e) :=
  inferInstanceAs (Decidable (∃ turn ∈ c.turn e, ∃ host ∈ c.cluster.hosts[turn.host]?, _ ∧
    ∃ j < c.cluster.hosts.length, _))

/-- The first server elects itself and announces it; the second registers with it, hears no
heartbeat, holds an election and wins it. -/
def wonByLarger : List ClusterEvent :=
  [.act 0 .discover] ++ deliverNext 3 ++ [.act 0 .giveUpDiscovery] ++ runThreads 0 0 3 ++ deliverNext 2 ++
    runThreads 0 0 3 ++ runThreads 0 1 1 ++ deliverNext 1 ++ [.act 1 .discover] ++ deliverNext 10 ++
    [.act 0 .resume] ++ runThreads 1 0 4 ++ deliverNext 3 ++ runThreads 1 0 2

/-- The first server wins an election; before it promotes itself the second one starts, holds an
election of its own and promotes itself. -/
def wonBeforeLargerStarted : List ClusterEvent :=
  [.act 0 .discover] ++ deliverNext 3 ++ [.act 0 .giveUpDiscovery] ++ runThreads 0 0 3 ++ deliverNext 2 ++
    runThreads 0 0 2 ++ [.act 1 .discover] ++ deliverNext 6 ++ [.act 1 .giveUpDiscovery] ++ runThreads 1 0 3 ++
    deliverNext 3 ++ runThreads 1 0 3

/-- The larger id deposed its primary. -/
theorem promotion_outranks_primary_of_smaller_id :
    ∃ c : Campaign, c.cluster.Leads 0 ∧ c.cluster.Outranks 1 0 := by
  obtain ⟨c, hreach, htest⟩ := exists_reachable_of_replay (Campaign.step singlePrecision) PollsHandled
    Campaign.Initial (uncrashed wonByLarger)
    (fun c => decide (c.cluster.Leads 0 ∧ 0 ∈ c.electors 1 ∧
      ∃ host ∈ (c.cluster.hosts[1]? : Option Host), host.node.promotes (.act (.runThread 0)) = true))
    twoCandidates_initial (by decide +kernel)
  obtain ⟨hleads, helector, host, hhost, hpromotes⟩ := of_decide_eq_true htest
  exact ⟨c, hleads, promotion_outranks_primaries singlePrecision hreach hhost hpromotes 0 helector hleads⟩

/-- A live primary with a smaller id is usurped by a backup that hears no heartbeat, and one with
a larger id by a candidate whose window closed before it started. -/
theorem live_primary_is_usurped :
    (∃ c e, Reachable (Campaign.step singlePrecision) ElectionsApart Campaign.Initial c ∧
      ElectionsApart c e ∧ (c.step singlePrecision e).isSome ∧ c.Usurps e ∧ ¬ c.cluster.Outranks 0 1) ∧
    ∃ c e, Reachable (Campaign.step singlePrecision) ElectionsApart Campaign.Initial c ∧
      ElectionsApart c e ∧ (c.step singlePrecision e).isSome ∧ c.Usurps e ∧ c.cluster.Leads 1 ∧
        c.cluster.Outranks 1 0 := by
  constructor
  · obtain ⟨c, hreach, htest⟩ := exists_reachable_of_replay (Campaign.step singlePrecision) ElectionsApart
      Campaign.Initial (uncrashed wonByLarger)
      (fun c => decide (ElectionsApart c (.step (.act 1 (.runThread 0))) ∧
        (c.step singlePrecision (.step (.act 1 (.runThread 0)))).isSome ∧
          c.Usurps (.step (.act 1 (.runThread 0))) ∧ ¬ c.cluster.Outranks 0 1))
      twoCandidates_initial (by decide +kernel)
    exact ⟨c, .step (.act 1 (.runThread 0)), hreach, of_decide_eq_true htest⟩
  · obtain ⟨c, hreach, htest⟩ := exists_reachable_of_replay (Campaign.step singlePrecision) ElectionsApart
      Campaign.Initial (uncrashed wonBeforeLargerStarted)
      (fun c => decide (ElectionsApart c (.step (.act 0 (.runThread 0))) ∧
        (c.step singlePrecision (.step (.act 0 (.runThread 0)))).isSome ∧
          c.Usurps (.step (.act 0 (.runThread 0))) ∧ c.cluster.Leads 1 ∧ c.cluster.Outranks 1 0))
      twoCandidates_initial (by decide +kernel)
    exact ⟨c, .step (.act 0 (.runThread 0)), hreach, of_decide_eq_true htest⟩

end BankReplica
