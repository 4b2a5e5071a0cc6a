import BankReplica.Succession

/-!
# A demoted primary stands in everybody's way

A primary that takes in the announcement of another server detects no failure any more and never
holds an election, and yet it answers every `ELECTION` of a smaller id. If it has the largest id, then
as long as it runs nobody wins an election whose polls are handled in time, so that after the loss of
the last primary there is never one again, whatever servers are started or restarted.
-/

namespace BankReplica

open Runs

variable (fl : FloatRounding)

/-- The thread is in an election whose poll has been sent. -/
def Thread.polls : Thread → Bool
  | .electionWindow | .electionClosed | .promoting => true
  | _ => false

/-- No server is primary and none has a poll of its own running, and the server at a position, whose id
is the largest, is a booted backup that detects no failures. -/
structure Campaign.Blocked (c : Campaign) (i : ℕ) : Prop where
  blind : ∃ h ∈ c.cluster.hosts[i]?, h.node.Blind
  largest : ∀ j < c.cluster.hosts.length, ¬ c.cluster.Outranks j i
  leaderless : ∀ h ∈ c.cluster.hosts, h.node.server.currentRole = .backup
  unpolled : ∀ h ∈ c.cluster.hosts, ∀ t ∈ h.node.threads, t.polls = false

instance (n : Node) : Decidable n.Blind := inferInstanceAs (Decidable (_ ∧ _ ∧ _))

instance (c : Campaign) (i : ℕ) : Decidable (c.Blocked i) :=
  decidable_of_iff ((∃ h ∈ c.cluster.hosts[i]?, h.node.Blind) ∧
      (∀ j < c.cluster.hosts.length, ¬ c.cluster.Outranks j i) ∧
      (∀ h ∈ c.cluster.hosts, h.node.server.currentRole = .backup) ∧
      ∀ h ∈ c.cluster.hosts, ∀ t ∈ h.node.threads, t.polls = false)
    ⟨fun h => ⟨h.1, h.2.1, h.2.2.1, h.2.2.2⟩, fun h => ⟨h.blind, h.largest, h.leaderless, h.unpolled⟩⟩

/-- Polls are handled in time, and the server at a position does not crash. -/
def BlockerUp (i : ℕ) (c : Campaign) (e : CampaignEvent) : Prop :=
  PollsHandled c e ∧ ∀ j lost, e = .crash j lost → j ≠ i

instance (i : ℕ) (c : Campaign) : (e : CampaignEvent) → Decidable (BlockerUp i c e)
  | .step e => decidable_of_iff (PollsHandled c (.step e)) (by simp [BlockerUp])
  | .crash j lost => decidable_of_iff (PollsHandled c (.crash j lost) ∧ j ≠ i) (by simp [BlockerUp])

/-- A server that nobody gets past: it is a voter in every poll. -/
structure Campaign.Stopped (c : Campaign) (i : ℕ) : Prop where
  sound : c.Sound
  blind : ∃ h ∈ c.cluster.hosts[i]?, h.node.Blind
  largest : ∀ j < c.cluster.hosts.length, ¬ c.cluster.Outranks j i
  leaderless : ∀ h ∈ c.cluster.hosts, h.node.server.currentRole = .backup
  voter : ∀ (j : ℕ) (h : Host), c.cluster.hosts[j]? = some h → ∀ t ∈ h.node.threads, t.polls = true → i ∈ c.electors j

section

variable {fl} {c d : Campaign} {i : ℕ}

/-- Who runs a poll has begun it with a broadcast. -/
theorem Node.polls_of_step {n n' : Node} {e : NodeEvent} {sends : List Send} (h : n.step fl e = some (n', sends))
    {t' : Thread} (ht' : t' ∈ n'.threads) (hpolls : t'.polls = true) :
    (∃ t ∈ n.threads, t.polls = true) ∨ n.runs e = some .electionCleared := by
  cases Node.step_cases fl h with
  | giveUpDiscovery | foundPrimary | request =>
    cases List.mem_append.mp ht' with
    | inl hold => exact .inl ⟨t', hold, hpolls⟩
    | inr hnew =>
      rw [List.mem_singleton.mp hnew] at hpolls
      contradiction
  | @ran k t o hget houtcome =>
    cases List.mem_append.mp ht' with
    | inl hold => exact .inl ⟨t', List.mem_of_mem_eraseIdx hold, hpolls⟩
    | inr hnew =>
      have hmem := List.mem_of_getElem? hget
      cases Thread.step_cases fl houtcome with
      | electionCleared => exact .inr hget
      | electionWindow | won | lost => exact .inl ⟨_, hmem, rfl⟩
      | promoted | monitorHead | request | processing | electionDelay | electionRaised | heardHeartbeat | timedOut |
          heartbeats =>
        simp only [List.mem_cons, List.not_mem_nil, or_false] at hnew
        rcases hnew with rfl | rfl <;> contradiction
      | _ => contradiction
  | _ => exact .inl ⟨t', ht', hpolls⟩

/-- The server in the way outranks whoever runs a poll. -/
theorem Campaign.Stopped.outranks (h : c.Stopped i) {j : ℕ} {host : Host} (hhost : c.cluster.hosts[j]? = some host)
    {t : Thread} (ht : t ∈ host.node.threads) (hdetects : t.detects = true) : c.cluster.Outranks i j := by
  obtain ⟨b, hb, hblind⟩ := h.blind
  have hid : b.node.server.serverId ∈ c.cluster.serverIdAt i := by
    simp [Cluster.serverIdAt, Option.mem_def.mp hb]
  have hid' : host.node.server.serverId ∈ c.cluster.serverIdAt j := by simp [Cluster.serverIdAt, hhost]
  have hother : i ≠ j := by
    rintro rfl
    obtain rfl := Option.mem_unique hb hhost
    have hnone : b.node.detections = 0 := hblind.2.2
    exact absurd hdetects (List.countP_eq_zero.mp hnone t ht)
  have hsmaller : ¬ b.node.server.serverId < host.node.server.serverId := fun hlt =>
    h.largest j (List.getElem?_eq_some_iff.mp hhost).1 ⟨_, hid', _, hid, hlt⟩
  have hdistinct : b.node.server.serverId ≠ host.node.server.serverId := fun heq =>
    hother (h.sound.grounded.distinct i j _ hid (heq ▸ hid'))
  exact ⟨_, hid, _, hid', by bv_omega⟩

/-- No election ends in the call of `promoteToPrimary`. -/
theorem Campaign.Stopped.not_promoting (h : c.Stopped i) {j : ℕ} {host : Host}
    (hhost : c.cluster.hosts[j]? = some host) : .promoting ∉ host.node.threads := by
  intro ht
  have hpolled := h.sound.polled j host hhost _ ht
  exact hpolled i ⟨h.voter j host hhost _ ht rfl, h.outranks hhost ht rfl⟩

/-- No step promotes anybody. -/
theorem Campaign.Stopped.promotes (h : c.Stopped i) {j : ℕ} {host : Host} (hhost : c.cluster.hosts[j]? = some host)
    (e : NodeEvent) : host.node.promotes e = false := by
  refine Bool.eq_false_of_not_eq_true fun hpromotes => h.not_promoting hhost ?_
  exact Node.mem_of_runs (Node.promotes_iff.mp hpromotes).1

/-- A turn. -/
theorem Campaign.Stopped.after (h : c.Stopped i) {turn : Turn} {host : Host} {node : Node} {sends : List Send}
    (hsound : (c.after turn host node sends).Sound) (hhost : c.cluster.hosts[turn.host]? = some host)
    (hnode : host.node.step fl turn.event = some (node, sends)) :
    (c.after turn host node sends).Stopped i ∧ (c.after turn host node sends).promoted = c.promoted := by
  have hmem := List.mem_of_getElem? hhost
  have hid := Campaign.serverIdAt_after hhost hnode
  have hpromotes := h.promotes hhost turn.event
  have houtranks : (c.after turn host node sends).cluster.Outranks = c.cluster.Outranks := by
    funext j k
    simp only [Cluster.Outranks, hid]
  obtain ⟨b, hb, hblind⟩ := h.blind
  refine ⟨⟨hsound, ?_, ?_, ?_, ?_⟩, by simp [Campaign.after, hpromotes]⟩
  · by_cases hi : i = turn.host
    · rw [hi] at hb ⊢
      obtain rfl := Option.mem_unique hb hhost
      exact ⟨_, Cluster.after_self hhost node sends, hblind.step (Node.step_shift fl hnode)⟩
    · exact ⟨b, (Cluster.after_other c.cluster turn host node sends hi).trans hb, hblind⟩
  · intro j hj
    rw [houtranks]
    exact h.largest j (hj.trans_eq List.length_set)
  · intro x hx
    cases List.mem_or_eq_of_mem_set hx with
    | inl hold => exact h.leaderless x hold
    | inr hnew =>
      rw [hnew]
      exact Node.backup_of_step (h.leaderless host hmem) hpromotes hnode
  · intro j x hx t ht hpolls
    by_cases hj : j = turn.host
    · rw [hj] at hx ⊢
      rw [Campaign.after, Cluster.after_self hhost] at hx
      obtain rfl := Option.some.inj hx
      simp only [Campaign.after]
      split
      · rw [Function.update_self]
        exact Cluster.mem_inLoop.mpr ⟨b, hb, hblind.1⟩
      · obtain ⟨t', ht', hold⟩ := (Node.polls_of_step hnode ht hpolls).resolve_right ‹_›
        exact h.voter turn.host host hhost t' ht' hold
    · rw [Campaign.electors_after hj]
      exact h.voter j x ((Cluster.after_other c.cluster turn host node sends hj).symm.trans hx) t ht hpolls

/-- A crash of another server. -/
theorem Campaign.Stopped.crash (h : c.Stopped i) {j : ℕ} {host : Host} (hhost : c.cluster.hosts[j]? = some host)
    (lost : List Envelope) (hj : j ≠ i) :
    Campaign.Stopped { c with cluster := c.cluster.crashed j host lost, electors := c.electorsWithout j } i := by
  have hid : (c.cluster.crashed j host lost).serverIdAt = c.cluster.serverIdAt :=
    Cluster.serverIdAt_set hhost (Node.new _ _) rfl _
  have houtranks : (c.cluster.crashed j host lost).Outranks = c.cluster.Outranks := by
    funext k l
    simp only [Cluster.Outranks, hid]
  obtain ⟨b, hb, hblind⟩ := h.blind
  refine ⟨h.sound.crash hhost lost, ⟨b, (List.getElem?_set_ne hj).trans hb, hblind⟩, ?_, ?_, ?_⟩
  · intro k hk
    rw [houtranks]
    exact h.largest k (hk.trans_eq List.length_set)
  · intro x hx
    cases List.mem_or_eq_of_mem_set hx with
    | inl hold => exact h.leaderless x hold
    | inr hnew =>
      rw [hnew]
      rfl
  · intro k x hx t ht hpolls
    have hk : k ≠ j := by
      rintro rfl
      rw [Cluster.crashed, List.getElem?_set_self (List.getElem?_eq_some_iff.mp hhost).1] at hx
      obtain rfl := Option.some.inj hx
      contradiction
    have hvoter := h.voter k x ((List.getElem?_set_ne (Ne.symm hk)).symm.trans hx) t ht hpolls
    simp only [Campaign.electorsWithout]
    split
    · exact List.mem_filter.mpr ⟨hvoter, decide_eq_true (Ne.symm hj)⟩
    · exact hvoter

end

/-- Servers none of which has a poll running know all about the polls of before. -/
theorem Campaign.Blocked.sound {c : Campaign} {i : ℕ} (h : c.Blocked i) (hground : c.cluster.Grounded)
    (hraised : ∀ x ∈ c.cluster.hosts, x.node.Raised) : c.Sound where
  grounded := hground
  inLoop j hopen := by
    obtain ⟨x, hx, hwindow⟩ := hopen
    have hunpolled := h.unpolled x (List.mem_of_getElem? hx) _ hwindow
    contradiction
  polled j x hx t ht := by
    have hunpolled := h.unpolled x (List.mem_of_getElem? hx) t ht
    have hknown := hraised x (List.mem_of_getElem? hx) t ht
    cases t with
    | electionWindow | electionClosed | promoting => contradiction
    | electionRaised | electionCleared => exact hknown
    | _ => trivial

/-- A server that was demoted by an announcement and has the largest id keeps everybody from becoming
primary, for as long as it runs and polls are handled in time, whatever has happened before. -/
theorem demoted_primary_blocks_succession (fl : FloatRounding) {c d : Campaign} {i : ℕ}
    (h : Reachable (Campaign.step fl) Always Campaign.Initial c) (hblocked : c.Blocked i)
    (hrun : Reachable (Campaign.step fl) (BlockerUp i) (· = c) d) :
    d.promoted = c.promoted ∧ ∀ j, ¬ d.cluster.Leads j := by
  have hstopped : d.Stopped i ∧ d.promoted = c.promoted := by
    refine Reachable.invariant (I := fun d => d.Stopped i ∧ d.promoted = c.promoted) ?_ ?_ hrun
    · rintro _ rfl
      have hsound := hblocked.sound (Campaign.grounded fl h) (Campaign.raised fl h)
      refine ⟨⟨hsound, hblocked.blind, hblocked.largest, hblocked.leaderless, ?_⟩, rfl⟩
      intro j x hx t ht hpolls
      rw [hblocked.unpolled x (List.mem_of_getElem? hx) t ht] at hpolls
      contradiction
    · rintro u e v ⟨hu, hpromoted⟩ ⟨hguard, hup⟩ hstep
      rcases Campaign.step_eq fl hstep with ⟨turn, host, node, sends, hturn, hhost, hnode, rfl⟩ |
        ⟨j, lost, host, rfl, hhost, rfl⟩
      · have hsound := hu.sound.after (Campaign.turn_offers hturn) hhost hnode (hguard turn hturn host hhost)
        obtain ⟨hv, hsame⟩ := hu.after hsound hhost hnode
        exact ⟨hv, hsame.trans hpromoted⟩
      · exact ⟨hu.crash hhost lost (hup j lost rfl), hpromoted⟩
  refine ⟨hstopped.2, ?_⟩
  rintro j ⟨x, hx, hleads⟩
  rw [hstopped.1.leaderless x (List.mem_of_getElem? hx)] at hleads
  contradiction

/-- Both servers become primary and demote each other, and the first one crashes. -/
def bothDemoted : List CampaignEvent :=
  uncrashed (wonBeforeLargerStarted ++ runThreads 0 0 1 ++ runThreads 0 1 1 ++ runThreads 1 1 1 ++ deliverNext 6) ++
    [.crash 0 []]

/-- The first one starts again, finds no primary, and holds an election that the second one answers. -/
def restartedInVain : List CampaignEvent :=
  uncrashed ([.act 0 .discover] ++ deliverNext 6 ++ [.act 0 .giveUpDiscovery] ++ runThreads 0 0 3 ++ deliverNext 4 ++
    runThreads 0 0 2)

/-- The first server waits for a primary that never comes. -/
theorem demoted_primary_blocks_restarted :
    ∃ c d : Campaign, c.Blocked 1 ∧
      replay (Campaign.step singlePrecision) (BlockerUp 1) c restartedInVain = some d ∧
      d.promoted = c.promoted ∧ ∀ j, ¬ d.cluster.Leads j := by
  obtain ⟨c, hreach, htest⟩ := exists_reachable_of_replay (Campaign.step singlePrecision) Always
    Campaign.Initial bothDemoted
    (fun c => decide (c.Blocked 1 ∧
      (replay (Campaign.step singlePrecision) (BlockerUp 1) c restartedInVain).isSome = true))
    twoCandidates_initial (by decide +kernel)
  obtain ⟨hblocked, hsome⟩ := of_decide_eq_true htest
  obtain ⟨d, hrun⟩ := Option.isSome_iff_exists.mp hsome
  have hrest : Reachable (Campaign.step singlePrecision) (BlockerUp 1) (· = c) d :=
    Reachable.replay (.init rfl) hrun
  exact ⟨c, d, hblocked, hrun, demoted_primary_blocks_succession singlePrecision hreach hblocked hrest⟩

end BankReplica
