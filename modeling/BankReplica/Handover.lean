import BankReplica.Obligations
import BankReplica.Library.Leadership

/-!
# What survives a change of leader

A primary acknowledges without waiting for any backup, an election looks at ids alone, and a
primary that was overtaken goes on executing until it takes in the announcement. A change of
leader keeps the acknowledged work if the server that takes over has registered with the
primary and has handled every update meant for it, if no announcement of another server is
outstanding for it, and if nothing is executed under two primaries.
-/

namespace BankReplica

open Runs

variable (fl : FloatRounding)

/-- The server at `j` lists the one at `i`, which has handled every update meant for it. -/
def Cluster.UpToDate (c : Cluster) (j i : ℕ) : Prop :=
  ∃ p ∈ c.hosts[j]?, ∃ b ∈ c.hosts[i]?, b.addr ∈ p.node.server.backupServers ∧ ¬ p.node.Owes b.addr ∧
    b.node.loop.atRest = true ∧ ∀ e ∈ c.inFlight, e.source = j → e.dest = i → e.packet.isUpdate = false

instance (c : Cluster) (j i : ℕ) : Decidable (c.UpToDate j i) :=
  inferInstanceAs (Decidable (∃ p ∈ c.hosts[j]?, ∃ b ∈ c.hosts[i]?, _ ∧ _ ∧ _ ∧ ∀ e ∈ c.inFlight, _))

/-- An accepted request is executed, or an unknown client registered, only where no other server
is an undisputed primary. -/
def CreatesAlone (c : Cluster) (e : ClusterEvent) : Prop :=
  ∀ turn ∈ c.turn e, ∀ host ∈ c.hosts[turn.host]?,
    host.node.Creates fl turn.event → ∀ i < c.hosts.length, c.Undisputed i → i = turn.host

instance (c : Cluster) (e : ClusterEvent) : Decidable (CreatesAlone fl c e) :=
  inferInstanceAs (Decidable (∀ turn ∈ c.turn e, ∀ host ∈ c.hosts[turn.host]?, _ → ∀ i < c.hosts.length, _ → _))

/-- A server is promoted only while no other server has its announcement still to send or on its
way to it. -/
def TakesOverUnrivalled (c : Cluster) (e : ClusterEvent) : Prop :=
  ∀ turn ∈ c.turn e, ∀ host ∈ c.hosts[turn.host]?,
    host.node.promotes turn.event = true → c.Unrivalled turn.host

instance (c : Cluster) (e : ClusterEvent) : Decidable (TakesOverUnrivalled c e) :=
  inferInstanceAs (Decidable (∀ turn ∈ c.turn e, ∀ host ∈ c.hosts[turn.host]?, _ → _))

/-- A server is promoted only when it is registered with every other undisputed primary and has
handled every update of it. -/
def TakesOverUpToDate (c : Cluster) (e : ClusterEvent) : Prop :=
  ∀ turn ∈ c.turn e, ∀ host ∈ c.hosts[turn.host]?,
    host.node.promotes turn.event = true →
      ∀ j < c.hosts.length, j ≠ turn.host → c.Undisputed j → c.UpToDate j turn.host

instance (c : Cluster) (e : ClusterEvent) : Decidable (TakesOverUpToDate c e) :=
  inferInstanceAs (Decidable (∀ turn ∈ c.turn e, ∀ host ∈ c.hosts[turn.host]?, _ →
    ∀ j < c.hosts.length, _ → _ → _))

/-- The three conditions of an orderly change of leader. -/
structure OrderlySuccession (c : Cluster) (e : ClusterEvent) : Prop where
  createsAlone : CreatesAlone fl c e
  unrivalled : TakesOverUnrivalled c e
  upToDate : TakesOverUpToDate c e

instance (c : Cluster) (e : ClusterEvent) : Decidable (OrderlySuccession fl c e) :=
  decidable_of_iff (CreatesAlone fl c e ∧ TakesOverUnrivalled c e ∧ TakesOverUpToDate c e)
    ⟨fun h => ⟨h.1, h.2.1, h.2.2⟩, fun h => ⟨h.1, h.2, h.3⟩⟩

/-! ## The servers of every run -/

/-- What holds of the servers of every run. -/
structure Cluster.Footing (c : Cluster) : Prop where
  watch : ∀ h ∈ c.hosts, h.node.Watch
  snapshots : ∀ h ∈ c.hosts, h.node.Snapshots
  settled : ∀ h ∈ c.hosts, ∀ t ∈ h.node.threads, t.Settled h.node.server
  addrs : (c.hosts.map Host.addr).Nodup
  /-- Who has asked to be registered has booted. -/
  registering : ∀ e ∈ c.inFlight, e.packet = .registerBackup → ∀ h ∈ c.hosts[e.source]?, ¬ h.node.Booting

section

variable {fl} {c : Cluster} {turn : Turn} {host : Host} {node : Node} {sends : List Send}

/-- A turn changes one server. -/
theorem Cluster.mem_after {x : Host} (hx : x ∈ (c.after turn host node sends).hosts) :
    x ∈ c.hosts ∨ x = { host with node := node } :=
  List.mem_or_eq_of_mem_set hx

/-- A turn moves no server. -/
theorem Cluster.addrs_after (hhost : c.hosts[turn.host]? = some host) :
    (c.after turn host node sends).hosts.map Host.addr = c.hosts.map Host.addr := by
  obtain ⟨hi, rfl⟩ := List.getElem?_eq_some_iff.mp hhost
  refine (List.map_set ..).trans ?_
  rw [← List.getElem_map Host.addr (h := by simpa using hi)]
  exact List.set_getElem_self _

/-- A turn keeps the footing. -/
theorem Cluster.Footing.after (h : c.Footing) (hoffers : c.Offers turn) (hhost : c.hosts[turn.host]? = some host)
    (hnode : host.node.step fl turn.event = some (node, sends)) : (c.after turn host node sends).Footing := by
  have hmem := List.mem_of_getElem? hhost
  have heffect := Node.step_effect fl hnode
  constructor
  · intro x hx
    cases Cluster.mem_after hx with
    | inl hold => exact h.watch x hold
    | inr hnew => exact hnew ▸ (h.watch host hmem).step fl hnode
  · intro x hx
    cases Cluster.mem_after hx with
    | inl hold => exact h.snapshots x hold
    | inr hnew => exact hnew ▸ (h.snapshots host hmem).step hnode
  · intro x hx
    cases Cluster.mem_after hx with
    | inl hold => exact h.settled x hold
    | inr hnew => exact hnew ▸ Node.step_settled fl (h.settled host hmem) hnode
  · rw [Cluster.addrs_after hhost]
    exact h.addrs
  · intro e he hpacket x hx
    cases List.mem_append.mp he with
    | inl hold =>
      have hbefore := h.registering e (hoffers.left hold) hpacket
      by_cases hself : e.source = turn.host
      · rw [hself] at hbefore hx
        rw [Cluster.after_self hhost] at hx
        obtain rfl := Option.some.inj hx
        exact fun hboot => hbefore host hhost (heffect.boots hboot).1
      · rw [Cluster.after_other c turn host node sends hself] at hx
        exact hbefore x hx
    | inr hnew =>
      obtain ⟨send, hsend, g, -, -, hsame⟩ := mem_route_iff.mp hnew
      rw [hsame] at hx hpacket
      rw [Cluster.after_self hhost] at hx
      obtain rfl := Option.some.inj hx
      exact Node.booted_of_registerBackup (h.snapshots host hmem) hnode hsend hpacket

end

/-- The footing of every run. -/
theorem Cluster.footing {guard : Cluster → ClusterEvent → Prop} {c : Cluster}
    (h : Reachable (Cluster.step fl) guard Cluster.Initial c) : c.Footing := by
  refine Reachable.invariant (I := Cluster.Footing) (fun c hc => ?_) (fun c e c' hfooting _ hstep => ?_) h
  · constructor
    · intro x hx
      rw [hc.fresh x hx]
      exact Node.Fresh.watch rfl
    · intro x hx
      rw [hc.fresh x hx]
      exact nofun
    · intro x hx
      rw [hc.fresh x hx]
      simp [Node.new]
    · exact hc.addrs
    · intro e he
      rw [hc.inFlight] at he
      contradiction
  · obtain ⟨turn, host, node, sends, hturn, hhost, hnode, rfl⟩ := Cluster.step_eq fl hstep
    exact hfooting.after (Cluster.turn_offers hturn) hhost hnode

/-! ## One primary that the backups follow -/

/-- The fact has reached the server at `i`, is on its way to it from the primary at `m`, or is
owed to it. -/
def Cluster.Reaches (c : Cluster) (m i : ℕ) (p h : Host) (f : Fact) : Prop :=
  h.node.Received f ∨ (∃ e ∈ c.inFlight, e.source = m ∧ e.dest = i ∧ f ∈ e.packet.facts) ∨ p.node.Owed h.addr f

/-- The server at `m` is an unrivalled primary, and whatever it holds reaches every listed backup
that may still be promoted. -/
structure Cluster.Governed (c : Cluster) (m : ℕ) (p : Host) : Prop where
  host : c.hosts[m]? = some p
  primary : p.node.server.currentRole = .primary
  unrivalled : c.Unrivalled m
  booted : ∀ h ∈ c.hosts, h.addr ∈ p.node.server.backupServers → ¬ h.node.Booting
  replicated : ∀ (i : ℕ) (h : Host), c.hosts[i]? = some h → h.addr ∈ p.node.server.backupServers →
    h.node.detections ≠ 0 → ∀ f ∈ p.node.server.facts, c.Reaches m i p h f

/-- Every server is a backup that holds nothing and serves nobody. -/
structure Cluster.Dormant (c : Cluster) : Prop where
  backup : ∀ h ∈ c.hosts, h.node.server.currentRole = .backup
  idle : ∀ h ∈ c.hosts, ∀ t ∈ h.node.threads, t.call = none
  empty : ∀ h ∈ c.hosts, h.node.server.facts = []

/-- Who holds which facts, which facts are in flight or half handled, and who leads. -/
def Cluster.leadership (c : Cluster) : Leadership.State ℕ Fact where
  holds i := {f | ∃ h ∈ c.hosts[i]?, f ∈ h.node.server.facts}
  carried := {f | (∃ e ∈ c.inFlight, f ∈ e.packet.facts) ∨ ∃ h ∈ c.hosts, f ∈ h.node.loop.pending}
  leaders := {i | c.Undisputed i}

section

variable {fl} {c : Cluster} {turn : Turn} {host : Host} {node : Node} {sends : List Send} {m : ℕ} {p : Host}

theorem Cluster.holds_iff {i : ℕ} {h : Host} (hi : c.hosts[i]? = some h) (f : Fact) :
    f ∈ c.leadership.holds i ↔ f ∈ h.node.server.facts := by
  simp [Cluster.leadership, hi]

theorem Cluster.undisputed_iff {i : ℕ} {h : Host} (hi : c.hosts[i]? = some h) :
    c.Undisputed i ↔ h.node.server.currentRole = .primary ∧ ¬ c.Challenged i h.node.server.serverId := by
  simp [Cluster.Undisputed, hi]

/-- A primary that governs is undisputed. -/
theorem Cluster.Governed.undisputed (h : c.Governed m p) : c.Undisputed m := by
  obtain ⟨⟨g, hget, hclear⟩, -⟩ := h.unrivalled
  obtain rfl := Option.some.inj (h.host.symm.trans hget)
  exact ⟨p, h.host, h.primary, hclear⟩

/-- A packet in flight to a server whose turn it is not stays there. -/
theorem Cluster.Offers.stays (hoffers : c.Offers turn) {i : ℕ} (hi : i ≠ turn.host) {f : Fact}
    (h : ∃ e ∈ c.inFlight, e.source = m ∧ e.dest = i ∧ f ∈ e.packet.facts) :
    ∃ e ∈ (c.after turn host node sends).inFlight, e.source = m ∧ e.dest = i ∧ f ∈ e.packet.facts := by
  obtain ⟨e, he, hsource, hdest, hf⟩ := h
  cases hoffers.taken he with
  | inl hleft => exact ⟨e, List.mem_append_left _ hleft, hsource, hdest, hf⟩
  | inr htaken => exact absurd (hdest.symm.trans htaken.1.symm) hi

/-- While another server takes its turn the primary goes on to govern. -/
theorem Cluster.Governed.after_other (h : c.Governed m p) (hfooting : c.Footing) (hm : m ≠ turn.host)
    (hoffers : c.Offers turn) (hhost : c.hosts[turn.host]? = some host)
    (hnode : host.node.step fl turn.event = some (node, sends))
    (hpromotes : host.node.promotes turn.event = false) : (c.after turn host node sends).Governed m p := by
  have hmem := List.mem_of_getElem? hhost
  constructor
  · exact (Cluster.after_other c turn host node sends hm).trans h.host
  · exact h.primary
  · exact h.unrivalled.after (hfooting.snapshots host hmem) hoffers hhost hnode fun _ => hpromotes
  · intro x hx hlisted
    cases Cluster.mem_after hx with
    | inl hold => exact h.booted x hold hlisted
    | inr hnew =>
      subst hnew
      exact fun hboot => h.booted host hmem hlisted ((Node.step_effect fl hnode).boots hboot).1
  · intro i x hx hlisted hdetects f hf
    by_cases hi : i = turn.host
    · rw [hi, Cluster.after_self hhost] at hx
      obtain rfl := Option.some.inj hx
      have hbooted := h.booted host hmem hlisted
      have hdetected := (Node.step_shift fl hnode).detects hbooted hdetects
      have hbackup := ((hfooting.watch host hmem).backup hdetected).2
      rcases h.replicated turn.host host hhost hlisted hdetected f hf with
        hreceived | ⟨e, he, hsource, hdest, hfact⟩ | howed
      · exact .inl (hreceived.step hnode)
      · rcases hoffers.taken he with hleft | ⟨-, source, -, hevent⟩
        · exact .inr (.inl ⟨e, List.mem_append_left _ hleft, hsource, hdest.trans hi.symm, hfact⟩)
        · rw [hevent] at hnode
          exact .inl (Node.takes_update hbooted hbackup hfact hnode)
      · exact .inr (.inr howed)
    · rw [Cluster.after_other c turn host node sends hi] at hx
      rcases h.replicated i x hx hlisted hdetects f hf with hreceived | hcarried | howed
      · exact .inl hreceived
      · exact .inr (.inl (hoffers.stays hi hcarried))
      · exact .inr (.inr howed)

/-- A primary that registers a backup knows that it has booted. -/
theorem Cluster.Footing.registered (hfooting : c.Footing) (hoffers : c.Offers turn) {sender : SockAddr}
    (hregisters : host.node.registers turn.event = some sender) {x : Host} (hx : x ∈ c.hosts)
    (haddr : x.addr = sender) : ¬ x.node.Booting := by
  cases hoffers with
  | @deliver k envelope source hget hsource =>
    simp only [Node.registers] at hregisters
    split at hregisters
    · rename_i sender' hevent
      obtain ⟨hpacket, hsender⟩ := NodeEvent.receive.inj hevent
      split at hregisters
      · obtain rfl := Option.some.inj hregisters
        have hsame : x = source :=
          List.inj_on_of_nodup_map hfooting.addrs hx (List.mem_of_getElem? hsource) (haddr.trans hsender.symm)
        rw [hsame]
        exact hfooting.registering envelope (List.mem_of_getElem? hget) hpacket source hsource
      · contradiction
    · contradiction
  | _ => contradiction

/-- In its own turn the primary goes on to govern. -/
theorem Cluster.Governed.after_own (h : c.Governed turn.host host) (hfooting : c.Footing)
    (hcomplete : Leadership.Complete c.leadership) (hoffers : c.Offers turn)
    (hnode : host.node.step fl turn.event = some (node, sends)) :
    (c.after turn host node sends).Governed turn.host { host with node := node } := by
  have hhost := h.host
  have hmem := List.mem_of_getElem? hhost
  have hself := Cluster.after_self hhost node sends
  have hleads := h.unrivalled.leads ⟨host, hhost, h.primary⟩ (hfooting.watch host hmem) hoffers hhost hnode
  have hprimary := (Cluster.leads_after_self hhost).mp hleads
  have hwatch := (hfooting.watch host hmem).step fl hnode
  have hbooted : ∀ x ∈ (c.after turn host node sends).hosts, x.addr ∈ node.server.backupServers →
      ¬ x.node.Booting := by
    intro x hx hlisted
    cases Cluster.mem_after hx with
    | inr hnew =>
      subst hnew
      intro hboot
      rw [(hwatch.booting hboot).2] at hprimary
      contradiction
    | inl hold =>
      cases Node.step_listing fl hnode with
      | kept hnone hlist => exact h.booted x hold (hlist ▸ hlisted)
      | cleared hnone hlist =>
        rw [hlist] at hlisted
        contradiction
      | registered sender hsome hlist =>
        rw [hlist] at hlisted
        cases List.mem_append.mp hlisted with
        | inl hbefore => exact h.booted x hold hbefore
        | inr hnew => exact hfooting.registered hoffers hsome hold (List.mem_singleton.mp hnew)
  refine ⟨hself, hprimary, ?_, hbooted, ?_⟩
  · exact h.unrivalled.after (hfooting.snapshots host hmem) hoffers hhost hnode fun hne => absurd rfl hne
  · intro i x hx hlisted hdetects f hf
    by_cases hi : i = turn.host
    · rw [hi, hself] at hx
      obtain rfl := Option.some.inj hx
      exact .inl (.inl hf)
    · have hhears : x.hears x.addr = true := Host.hears_own (hbooted x (List.mem_of_getElem? hx) hlisted)
      have hsent : (∃ send ∈ sends, send.dest = x.addr ∧ f ∈ send.packet.facts) →
          (c.after turn host node sends).Reaches turn.host i { host with node := node } x f := by
        rintro ⟨send, hsend, hdest, hfact⟩
        refine .inr (.inl ⟨⟨turn.host, i, send.packet⟩, List.mem_append_right _ ?_, rfl, rfl, hfact⟩)
        exact mem_route_iff.mpr ⟨send, hsend, x, hx, hdest ▸ hhears, rfl⟩
      rcases Node.owed_of_new h.primary hnode hlisted hf with ⟨hlist, hheld⟩ | howed | hnew
      · -- a fact that the primary was itself about to take in it held already
        have hbefore : f ∈ host.node.server.facts := by
          refine hheld.elim id fun hpending => ?_
          obtain ⟨y, hy⟩ := hcomplete.held f (.inr ⟨host, hmem, hpending⟩)
          exact (Cluster.holds_iff hhost f).mp (hcomplete.leader turn.host h.undisputed y hy)
        rw [Cluster.after_other c turn host node sends hi] at hx
        rcases h.replicated i x hx hlist hdetects f hbefore with hreceived | hcarried | howed
        · exact .inl hreceived
        · exact .inr (.inl (hoffers.stays hi hcarried))
        · cases Node.owed_step h.primary (hfooting.settled host hmem) hnode hlist howed with
          | inl hstill => exact .inr (.inr hstill)
          | inr hnew => exact hsent hnew
      · exact .inr (.inr howed)
      · exact hsent hnew

/-- A server that is promoted unrivalled governs. -/
theorem Cluster.Unrivalled.governs (h : c.Unrivalled turn.host) (hfooting : c.Footing) (hoffers : c.Offers turn)
    (hhost : c.hosts[turn.host]? = some host) (hnode : host.node.step fl turn.event = some (node, sends))
    (hpromotes : host.node.promotes turn.event = true) :
    (c.after turn host node sends).Governed turn.host { host with node := node } := by
  obtain ⟨hprimary, hnobody, -⟩ := Node.promotes_announces hnode hpromotes
  have hsnapshots := hfooting.snapshots host (List.mem_of_getElem? hhost)
  refine ⟨Cluster.after_self hhost node sends, hprimary,
    h.after hsnapshots hoffers hhost hnode fun hne => absurd rfl hne, ?_, ?_⟩
  · intro x hx hlisted
    rw [hnobody] at hlisted
    contradiction
  · intro i x hx hlisted
    rw [hnobody] at hlisted
    contradiction

/-- A backup that is up to date with the primary that governs holds what it holds. -/
theorem Cluster.Governed.covered (h : c.Governed m p) {i : ℕ} {b : Host} (hb : c.hosts[i]? = some b)
    (hupToDate : c.UpToDate m i) (hdetects : b.node.detections ≠ 0) :
    ∀ f ∈ p.node.server.facts, f ∈ b.node.server.facts := by
  obtain ⟨p', hp', b', hb', hlisted, howes, hrest, hhandled⟩ := hupToDate
  obtain rfl := Option.some.inj (h.host.symm.trans hp')
  obtain rfl := Option.some.inj (hb.symm.trans hb')
  intro f hf
  rcases h.replicated i b hb hlisted hdetects f hf with
    (hheld | ⟨packet, hloop, -⟩) | ⟨e, he, hsource, hdest, hfact⟩ | howed
  · exact hheld
  · rw [hloop] at hrest
    contradiction
  · have hnone := hhandled e he hsource hdest
    cases hpacket : e.packet <;> rw [hpacket] at hnone hfact <;> contradiction
  · exact absurd howed.owes howes

/-! ## The step of one process, seen from the network -/

/-- What is in flight or pending after a turn was so before it, or is held where it was taken. -/
theorem Cluster.carried_after (hoffers : c.Offers turn) (hhost : c.hosts[turn.host]? = some host)
    (heffect : host.node.Effect fl turn.event node sends) {f : Fact}
    (hf : f ∈ (c.after turn host node sends).leadership.carried) :
    f ∈ c.leadership.carried ∨ f ∈ node.server.facts := by
  have hpending : f ∈ host.node.loop.pending → f ∈ c.leadership.carried := fun h =>
    .inr ⟨host, List.mem_of_getElem? hhost, h⟩
  rcases hf with ⟨envelope, henvelope, hfact⟩ | ⟨h, hh, hfact⟩
  · cases List.mem_append.mp henvelope with
    | inl hleft => exact .inl (.inl ⟨envelope, hoffers.left hleft, hfact⟩)
    | inr hsent =>
      obtain ⟨send, hsend, heq⟩ := mem_route hsent
      exact (heffect.passes send hsend f (heq ▸ hfact)).imp_left hpending
  · cases Cluster.mem_after hh with
    | inl hold => exact .inl (.inr ⟨h, hold, hfact⟩)
    | inr hnew =>
      rw [hnew] at hfact
      rcases heffect.keeps f hfact with hkept | hheld | hgiven
      · exact .inl (hpending hkept)
      · exact .inr hheld
      · exact .inl (.inl (hoffers.facts hgiven))

/-- A server that is an undisputed primary after its turn was one before, or has just been
promoted. -/
theorem Cluster.undisputed_after (hoffers : c.Offers turn) (hhost : c.hosts[turn.host]? = some host)
    (hnode : host.node.step fl turn.event = some (node, sends)) (hvouched : host.node.Vouched)
    (hleads : (c.after turn host node sends).Undisputed turn.host) :
    c.Undisputed turn.host ∨ host.node.promotes turn.event = true := by
  have heffect := Node.step_effect fl hnode
  obtain ⟨hprimary, hclear⟩ := (Cluster.undisputed_iff (Cluster.after_self hhost node sends)).mp hleads
  rw [heffect.serverId] at hclear
  refine (heffect.promoted hprimary).imp_left fun hold => (Cluster.undisputed_iff hhost).mpr ⟨hold, ?_⟩
  -- a challenge before the turn would have been taken in, and would have demoted the server
  intro hchallenged
  cases hoffers.challenged hchallenged with
  | inl hstands => exact hclear hstands
  | inr htaken =>
    have hbackup := hvouched.demoted_step fl htaken.2 hnode
    rw [hprimary] at hbackup
    contradiction

/-- A turn that creates facts only where nobody else leads, and promotes only a server that holds
every fact, is a step of leadership. -/
theorem Cluster.leadership_step (hoffers : c.Offers turn) (hhost : c.hosts[turn.host]? = some host)
    (hnode : host.node.step fl turn.event = some (node, sends)) (hvouched : host.node.Vouched)
    (halone : host.node.Creates fl turn.event → ∀ i < c.hosts.length, c.Undisputed i → i = turn.host)
    (hcovers : host.node.promotes turn.event = true →
      ∀ h ∈ c.hosts, ∀ f ∈ h.node.server.facts, f ∈ host.node.server.facts) :
    Leadership.Step turn.host c.leadership (c.after turn host node sends).leadership := by
  have heffect := Node.step_effect fl hnode
  have hself := Cluster.after_self hhost node sends
  constructor
  · intro y hy
    simp only [Cluster.leadership, Cluster.after_other c turn host node sends hy]
  · intro f hf
    rw [Cluster.holds_iff hhost] at hf
    exact (Cluster.holds_iff hself f).mpr (heffect.grows hf)
  · intro f hf
    rw [Cluster.holds_iff hself] at hf
    rcases heffect.learns f hf with hheld | hpending | hcreates
    · exact .inl ((Cluster.holds_iff hhost f).mpr hheld)
    · exact .inr (.inl (.inr ⟨host, List.mem_of_getElem? hhost, hpending⟩))
    · refine .inr (.inr fun y hy => halone hcreates y ?_ hy)
      obtain ⟨h, hget, -⟩ := hy
      exact (List.getElem?_eq_some_iff.mp hget).1
  · intro f hf
    exact (Cluster.carried_after hoffers hhost heffect hf).imp_right (Cluster.holds_iff hself f).mpr
  · intro y hy hne
    obtain ⟨h, hget, hprimary, hclear⟩ := hy
    rw [Cluster.after_other c turn host node sends hne] at hget
    refine ⟨h, hget, hprimary, fun hchallenged => hclear ?_⟩
    exact (hoffers.challenged hchallenged).resolve_right fun htaken => hne htaken.1.symm
  · intro hleads
    refine (Cluster.undisputed_after hoffers hhost hnode hvouched hleads).imp_right fun hpromotes y f hf => ?_
    obtain ⟨h, hget, hheld⟩ := hf
    exact (Cluster.holds_iff hhost f).mpr (hcovers hpromotes h (List.mem_of_getElem? hget) f hheld)

/-- Servers that hold nothing hold nothing after a turn that promotes nobody. -/
theorem Cluster.Dormant.after (h : c.Dormant) (hcomplete : Leadership.Complete c.leadership)
    (hhost : c.hosts[turn.host]? = some host) (hnode : host.node.step fl turn.event = some (node, sends))
    (hpromotes : host.node.promotes turn.event = false) : (c.after turn host node sends).Dormant := by
  have hmem := List.mem_of_getElem? hhost
  have hbackup := h.backup host hmem
  have hidle := h.idle host hmem
  constructor
  · intro x hx
    cases Cluster.mem_after hx with
    | inl hold => exact h.backup x hold
    | inr hnew => exact hnew ▸ Node.backup_of_step hbackup hpromotes hnode
  · intro x hx
    cases Cluster.mem_after hx with
    | inl hold => exact h.idle x hold
    | inr hnew => exact hnew ▸ Node.idle_step hbackup hidle hnode
  · intro x hx
    cases Cluster.mem_after hx with
    | inl hold => exact h.empty x hold
    | inr hnew =>
      subst hnew
      refine List.eq_nil_iff_forall_not_mem.mpr fun f hf => ?_
      rcases (Node.step_effect fl hnode).learns f hf with hheld | hpending | hcreates
      · rw [h.empty host hmem] at hheld
        contradiction
      · obtain ⟨y, g, hget, hheld⟩ := hcomplete.held f (.inr ⟨host, hmem, hpending⟩)
        rw [h.empty g (List.mem_of_getElem? hget)] at hheld
        contradiction
      · exact Node.not_creates hbackup hidle hcreates

end

/-- Before `init` nothing is carried and nobody leads. -/
theorem Cluster.Initial.complete {c : Cluster} (h : c.Initial) : Leadership.Complete c.leadership := by
  refine Leadership.complete_of_no_leader (Set.eq_empty_of_forall_notMem ?_) (Set.eq_empty_of_forall_notMem ?_)
  · rintro f (⟨e, he, -⟩ | ⟨x, hx, hf⟩)
    · rw [h.inFlight] at he
      contradiction
    · rw [h.fresh x hx] at hf
      contradiction
  · rintro i ⟨x, hget, hprimary, -⟩
    rw [h.fresh x (List.mem_of_getElem? hget)] at hprimary
    contradiction

/-- Before `init` the servers are dormant. -/
theorem Cluster.Initial.dormant {c : Cluster} (h : c.Initial) : c.Dormant := by
  refine ⟨fun x hx => ?_, fun x hx => ?_, fun x hx => ?_⟩ <;> rw [h.fresh x hx]
  · rfl
  · exact nofun
  · rfl

/-- In every orderly run, every undisputed primary holds every fact any server holds, and from the
first promotion on one primary governs. -/
theorem Cluster.complete {c : Cluster}
    (h : Reachable (Cluster.step fl) (OrderlySuccession fl) Cluster.Initial c) :
    Leadership.Complete c.leadership ∧ (c.Dormant ∨ ∃ m p, c.Governed m p) := by
  induction h with
  | init hc => exact ⟨hc.complete, .inl hc.dormant⟩
  | @step c c' e hreach hguard hstep ih =>
    obtain ⟨turn, host, node, sends, hturn, hhost, hnode, rfl⟩ := Cluster.step_eq fl hstep
    obtain ⟨hcomplete, hruled⟩ := ih
    have hfooting := Cluster.footing fl hreach
    have hoffers := Cluster.turn_offers hturn
    have hmem := List.mem_of_getElem? hhost
    have hvouched := (hfooting.watch host hmem).vouched
    have halone := hguard.createsAlone turn hturn host hhost
    cases hpromotes : host.node.promotes turn.event with
    | true =>
      -- the backup that takes over holds what the primary held that governed
      have hcovers : ∀ x ∈ c.hosts, ∀ f ∈ x.node.server.facts, f ∈ host.node.server.facts := by
        intro x hx f hf
        rcases hruled with hdormant | ⟨m, p, hgoverned⟩
        · rw [hdormant.empty x hx] at hf
          contradiction
        · obtain ⟨hruns, hbackup⟩ := Node.promotes_iff.mp hpromotes
          have hdetects : host.node.detections ≠ 0 :=
            (List.countP_pos_iff.mpr ⟨_, Node.mem_of_runs hruns, rfl⟩).ne'
          have hother : m ≠ turn.host := by
            intro hsame
            have hself := hgoverned.host
            rw [hsame, hhost] at hself
            obtain rfl := Option.some.inj hself
            rw [hgoverned.primary] at hbackup
            contradiction
          have hlength := (List.getElem?_eq_some_iff.mp hgoverned.host).1
          have hupToDate := hguard.upToDate turn hturn host hhost hpromotes m hlength hother hgoverned.undisputed
          obtain ⟨i, hi⟩ := List.mem_iff_getElem?.mp hx
          refine hgoverned.covered hhost hupToDate hdetects f ((Cluster.holds_iff hgoverned.host f).mp ?_)
          exact hcomplete.leader m hgoverned.undisputed i ((Cluster.holds_iff hi f).mpr hf)
      have hunrivalled := hguard.unrivalled turn hturn host hhost hpromotes
      exact ⟨hcomplete.step (Cluster.leadership_step hoffers hhost hnode hvouched halone fun _ => hcovers),
        .inr ⟨_, _, hunrivalled.governs hfooting hoffers hhost hnode hpromotes⟩⟩
    | false =>
      refine ⟨hcomplete.step (Cluster.leadership_step hoffers hhost hnode hvouched halone fun h => ?_), ?_⟩
      · rw [hpromotes] at h
        contradiction
      rcases hruled with hdormant | ⟨m, p, hgoverned⟩
      · exact .inl (hdormant.after hcomplete hhost hnode hpromotes)
      · by_cases hm : m = turn.host
        · subst hm
          obtain rfl := Option.some.inj (hhost.symm.trans hgoverned.host)
          exact .inr ⟨_, _, hgoverned.after_own hfooting hcomplete hoffers hnode⟩
        · exact .inr ⟨m, p, hgoverned.after_other hfooting hm hoffers hhost hnode hpromotes⟩

/-- In every run whose changes of leader are orderly, whenever the network is quiet, every
acknowledged transaction is in the log of every primary and every client answered is one of
its clients. -/
theorem acknowledged_work_survives {c : Cluster}
    (h : Reachable (Cluster.step fl) (OrderlySuccession fl) Cluster.Initial c) (hquiet : c.Quiescent) :
    c.Survives := by
  intro p hp hprimary x hx
  obtain ⟨i, hi⟩ := List.mem_iff_getElem?.mp hp
  obtain ⟨j, hj⟩ := List.mem_iff_getElem?.mp hx
  have hleads : c.Undisputed i := by
    refine (Cluster.undisputed_iff hi).mpr ⟨hprimary, fun ⟨e, he, _⟩ => ?_⟩
    rw [hquiet.1] at he
    contradiction
  have hholds : ∀ f ∈ x.node.server.facts, f ∈ p.node.server.facts := fun f hf =>
    (Cluster.holds_iff hi f).mp ((Cluster.complete fl h).1.leader i hleads j ((Cluster.holds_iff hj f).mpr hf))
  have hvouched := Cluster.vouched fl h x hx
  constructor
  · intro r hr
    exact Ledger.logged_mem_facts.mp (hholds _ (Ledger.logged_mem_facts.mpr (hvouched.acked r hr)))
  · intro ip hip
    exact Ledger.registered_mem_facts.mp (hholds _ (Ledger.registered_mem_facts.mpr (hvouched.answered ip hip)))

/-! ## Orderly and disorderly changes of leader -/

/-- The second server takes over after it has applied both updates. -/
theorem acknowledged_work_survives_orderly_takeover :
    ∃ c : Cluster, c.standing = [(.backup, 1), (.primary, 0)] ∧ c.Survives := by
  obtain ⟨c, hreach, htest⟩ := exists_reachable_of_replay (Cluster.step singlePrecision)
    (OrderlySuccession singlePrecision) Cluster.Initial
    (acknowledgedAtFirst ++ updatesApplied ++ secondPromoted 0 ++ firstDemoted ++ snapshotTaken)
    (fun c => decide (c.standing = [(.backup, 1), (.primary, 0)] ∧ c.Quiescent))
    twoServers_initial (by decide +kernel)
  obtain ⟨hstanding, hquiet⟩ := of_decide_eq_true htest
  exact ⟨c, hstanding, acknowledged_work_survives singlePrecision hreach hquiet⟩

/-- Three servers that have not started. -/
def threeServers : Cluster where
  hosts := [⟨testHost 2, Node.new 2 4000⟩, ⟨testHost 3, Node.new 3 4000⟩, ⟨testHost 4, Node.new 4 4000⟩]

theorem threeServers_initial : threeServers.Initial where
  inFlight := rfl
  fresh := by decide
  addrs := by decide
  serverIds := by decide

/-- The first server is still primary when the second one is, executes another request, and only
then takes in the announcement. -/
def executedUnderTwo : List ClusterEvent :=
  acknowledgedAtFirst ++ updatesApplied ++ secondPromoted 0 ++
    [.request 0 (testHost 21) ⟨(testHost 21).sinAddr, 100, 2⟩] ++ runThreads 0 1 3 ++ deliverNext 1 ++
    firstDemoted ++ snapshotTaken

/-- The first server has its announcement still to send when the second one is promoted. Each
demotes the other, and a third one that holds nothing wins the next election. -/
def announcedLate : List ClusterEvent :=
  [.act 0 .discover] ++ deliverNext 3 ++ [.act 0 .giveUpDiscovery] ++ runThreads 0 0 3 ++ deliverNext 2 ++
    runThreads 0 0 3 ++ [.act 1 .discover] ++ deliverNext 10 ++ [.act 0 .resume] ++
    [.discovery 0 (testHost 21), .request 0 (testHost 21) ⟨(testHost 21).sinAddr, 100, 1⟩] ++ runThreads 0 2 3 ++
    updatesApplied ++ secondPromoted 0 ++ runThreads 1 1 1 ++ runThreads 0 1 1 ++ deliverNext 6 ++
    [.act 2 .discover] ++ deliverNext 9 ++ [.act 2 .giveUpDiscovery] ++ runThreads 2 0 6 ++ deliverNext 3 ++
    runThreads 2 1 1 ++ deliverNext 5 ++ [.act 2 .resume] ++ deliverNext 1 ++ [.act 2 .resume]

/-- Each of the three conditions is needed: a server that takes over while both updates are in
flight drops them as a primary, an overtaken primary acknowledges what its successor never
hears of, and crossing announcements leave the lead to a server that holds nothing. -/
theorem acknowledged_work_is_lost :
    (∃ c, Reachable (Cluster.step singlePrecision)
        (fun c e => CreatesAlone singlePrecision c e ∧ TakesOverUnrivalled c e) Cluster.Initial c ∧
      c.Quiescent ∧ ¬ c.Survives) ∧
    (∃ c, Reachable (Cluster.step singlePrecision)
        (fun c e => TakesOverUnrivalled c e ∧ TakesOverUpToDate c e) Cluster.Initial c ∧
      c.Quiescent ∧ ¬ c.Survives) ∧
    ∃ c, Reachable (Cluster.step singlePrecision)
        (fun c e => CreatesAlone singlePrecision c e ∧ TakesOverUpToDate c e) Cluster.Initial c ∧
      c.Quiescent ∧ ¬ c.Survives := by
  refine ⟨?_, ?_, ?_⟩
  · obtain ⟨c, hreach, htest⟩ := exists_reachable_of_replay (Cluster.step singlePrecision)
      (fun c e => CreatesAlone singlePrecision c e ∧ TakesOverUnrivalled c e) Cluster.Initial
      (acknowledgedAtFirst ++ secondPromoted 2 ++ deliverNext 2 ++ firstDemoted)
      (fun c => decide (c.Quiescent ∧ ¬ c.Survives)) twoServers_initial (by decide +kernel)
    exact ⟨c, hreach, of_decide_eq_true htest⟩
  · obtain ⟨c, hreach, htest⟩ := exists_reachable_of_replay (Cluster.step singlePrecision)
      (fun c e => TakesOverUnrivalled c e ∧ TakesOverUpToDate c e) Cluster.Initial executedUnderTwo
      (fun c => decide (c.Quiescent ∧ ¬ c.Survives)) twoServers_initial (by decide +kernel)
    exact ⟨c, hreach, of_decide_eq_true htest⟩
  · obtain ⟨c, hreach, htest⟩ := exists_reachable_of_replay (Cluster.step singlePrecision)
      (fun c e => CreatesAlone singlePrecision c e ∧ TakesOverUpToDate c e) Cluster.Initial announcedLate
      (fun c => decide (c.Quiescent ∧ ¬ c.Survives)) threeServers_initial (by decide +kernel)
    exact ⟨c, hreach, of_decide_eq_true htest⟩

end BankReplica
