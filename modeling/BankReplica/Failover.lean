import BankReplica.Campaigns

/-!
# Undisputed primaries

A server that is promoted owes every other one its announcement, first as a thread and then as
packets on their way, and whoever takes in the announcement of another server steps down. So a
server that is promoted while no other announcement is outstanding stays primary at least until
the next promotion.
-/

namespace BankReplica

variable (fl : FloatRounding)

/-- The server at a position is primary. -/
def Cluster.Leads (c : Cluster) (i : ℕ) : Prop := ∃ h ∈ c.hosts[i]?, h.node.server.currentRole = .primary

instance (c : Cluster) (i : ℕ) : Decidable (c.Leads i) :=
  inferInstanceAs (Decidable (∃ h ∈ c.hosts[i]?, _))

/-- The announcement of a server with another id is on its way to position `i`. -/
def Cluster.Challenged (c : Cluster) (i : ℕ) (serverId : Word) : Prop :=
  ∃ e ∈ c.inFlight, e.dest = i ∧ e.packet.demotes serverId = true

instance (c : Cluster) (i : ℕ) (serverId : Word) : Decidable (c.Challenged i serverId) :=
  inferInstanceAs (Decidable (∃ e ∈ c.inFlight, _))

/-- A primary that no other server's announcement is on its way to. -/
def Cluster.Undisputed (c : Cluster) (i : ℕ) : Prop :=
  ∃ h ∈ c.hosts[i]?, h.node.server.currentRole = .primary ∧ ¬ c.Challenged i h.node.server.serverId

instance (c : Cluster) (i : ℕ) : Decidable (c.Undisputed i) :=
  inferInstanceAs (Decidable (∃ h ∈ c.hosts[i]?, _))

/-- The server at a position has its announcement still to send. -/
def Cluster.Announces (c : Cluster) (i : ℕ) : Prop := ∃ h ∈ c.hosts[i]?, .announcing ∈ h.node.threads

instance (c : Cluster) (i : ℕ) : Decidable (c.Announces i) :=
  inferInstanceAs (Decidable (∃ h ∈ c.hosts[i]?, _))

/-- No other server has its announcement still to send, or on its way to the server at `i`. -/
def Cluster.Unrivalled (c : Cluster) (i : ℕ) : Prop :=
  (∃ h ∈ c.hosts[i]?, ¬ c.Challenged i h.node.server.serverId) ∧
    ∀ j < c.hosts.length, j ≠ i → ¬ c.Announces j

instance (c : Cluster) (i : ℕ) : Decidable (c.Unrivalled i) :=
  inferInstanceAs (Decidable ((∃ h ∈ c.hosts[i]?, _) ∧ ∀ j < c.hosts.length, _))

/-! ## What a turn leaves of it -/

section

variable {fl} {c : Cluster} {turn : Turn} {host : Host} {node : Node} {sends : List Send} {i : ℕ}

/-- The servers whose turn it is not lead as before. -/
theorem Cluster.leads_after_other (hi : i ≠ turn.host) : (c.after turn host node sends).Leads i ↔ c.Leads i := by
  simp only [Cluster.Leads, Cluster.after_other c turn host node sends hi]

/-- The server whose turn it was. -/
theorem Cluster.leads_after_self (hhost : c.hosts[turn.host]? = some host) :
    (c.after turn host node sends).Leads turn.host ↔ node.server.currentRole = .primary := by
  simp [Cluster.Leads, Cluster.after_self hhost]

/-- A challenge to a server that does not take it in stands. -/
theorem Cluster.Offers.challenged (hoffers : c.Offers turn) {serverId : Word} (h : c.Challenged i serverId) :
    (c.after turn host node sends).Challenged i serverId ∨
      (turn.host = i ∧ turn.event.demotes serverId = true) := by
  obtain ⟨envelope, henvelope, hdest, hdemotes⟩ := h
  rcases hoffers.taken henvelope with hleft | ⟨hreceiver, source, _, hevent⟩
  · exact .inl ⟨envelope, List.mem_append_left _ hleft, hdest, hdemotes⟩
  · refine .inr ⟨hreceiver.trans hdest, ?_⟩
    rw [hevent]
    exact hdemotes

/-- A server that is to step down was challenged. -/
theorem Cluster.Offers.challenged_of_demotes (hoffers : c.Offers turn) {serverId : Word}
    (hdemotes : turn.event.demotes serverId = true) : c.Challenged turn.host serverId := by
  cases hoffers with
  | @deliver k envelope source hget hsource => exact ⟨envelope, List.mem_of_getElem? hget, rfl, hdemotes⟩
  | _ => contradiction

/-- A turn that promotes no other server leaves a server unrivalled. -/
theorem Cluster.Unrivalled.after (h : c.Unrivalled i) (hsnapshots : host.node.Snapshots)
    (hoffers : c.Offers turn) (hhost : c.hosts[turn.host]? = some host)
    (hnode : host.node.step fl turn.event = some (node, sends))
    (hpromotes : turn.host ≠ i → host.node.promotes turn.event = false) :
    (c.after turn host node sends).Unrivalled i := by
  obtain ⟨⟨g, hget, hclear⟩, halone⟩ := h
  have hlength := (List.getElem?_eq_some_iff.mp hhost).1
  -- a new announcement is of another server that had to send it, or the server's own
  have hstill : ¬ (c.after turn host node sends).Challenged i g.node.server.serverId := by
    rintro ⟨e, he, hdest, hdemotes⟩
    cases List.mem_append.mp he with
    | inl hold => exact hclear ⟨e, hoffers.left hold, hdest, hdemotes⟩
    | inr hnew =>
      obtain ⟨send, hsend, hpacket⟩ := mem_route hnew
      rw [hpacket] at hdemotes
      have hsent := Node.announcement_of_sends hsnapshots hnode hsend (Packet.announces_of_demotes hdemotes)
      by_cases hself : turn.host = i
      · rw [hself, hget] at hhost
        obtain rfl := Option.some.inj hhost
        rw [hsent.2] at hdemotes
        simp [Packet.demotes] at hdemotes
      · exact halone turn.host hlength hself ⟨host, hhost, hsent.1⟩
  constructor
  · by_cases hself : turn.host = i
    · rw [hself, hget] at hhost
      obtain rfl := Option.some.inj hhost
      refine ⟨{ g with node := node }, hself ▸ Cluster.after_self (hself ▸ hget) node sends, ?_⟩
      rw [(Node.step_effect fl hnode).serverId]
      exact hstill
    · exact ⟨g, (Cluster.after_other c turn host node sends (Ne.symm hself)).trans hget, hstill⟩
  · rintro j hj hji ⟨x, hx, hannounces⟩
    by_cases hself : j = turn.host
    · rw [hself, Cluster.after_self hhost] at hx
      obtain rfl := Option.some.inj hx
      have hbefore := Node.announcing_of_step hnode (hpromotes (hself ▸ hji)) hannounces
      exact halone turn.host hlength (hself ▸ hji) ⟨host, hhost, hbefore⟩
    · rw [Cluster.after_other c turn host node sends hself] at hx
      exact halone j (List.getElem?_eq_some_iff.mp hx).1 hji ⟨x, hx, hannounces⟩

/-- An unrivalled primary stays primary. -/
theorem Cluster.Unrivalled.leads (h : c.Unrivalled i) (hleads : c.Leads i) (hwatch : host.node.Watch)
    (hoffers : c.Offers turn) (hhost : c.hosts[turn.host]? = some host)
    (hnode : host.node.step fl turn.event = some (node, sends)) : (c.after turn host node sends).Leads i := by
  by_cases hself : i = turn.host
  · obtain ⟨⟨g, hget, hclear⟩, -⟩ := h
    obtain ⟨g', hget', hrole⟩ := hleads
    subst hself
    obtain rfl := Option.some.inj (hhost.symm.trans hget)
    obtain rfl := Option.some.inj (hhost.symm.trans hget')
    refine (Cluster.leads_after_self hhost).mpr ?_
    cases Node.step_shift fl hnode with
    | same hboot hsame hcount => exact hsame.trans hrole
    | booted hboot hbooted hbackup hcount =>
      have hbefore := (hwatch.booting hboot).2
      rw [hrole] at hbefore
      contradiction
    | demoted hother hloop hbooted hbackup hcount => exact absurd (hoffers.challenged_of_demotes hother) hclear
    | promoted hboot hbefore hprimary hcount => exact hprimary
    | stopped hboot hbefore hprimary hcount => exact hprimary
  · exact (Cluster.leads_after_other hself).mpr hleads

end

/-! ## Runs of two servers -/

/-- Two servers that have not started. -/
def twoServers : Cluster where
  hosts := [⟨testHost 2, Node.new 2 4000⟩, ⟨testHost 3, Node.new 3 4000⟩]

theorem twoServers_initial : twoServers.Initial where
  inFlight := rfl
  fresh := by decide
  addrs := by decide
  serverIds := by decide

/-- The first packets in flight are delivered one after the other. -/
def deliverNext (count : ℕ) : List ClusterEvent := List.replicate count (.deliver 0)

/-- A thread of a server takes steps. -/
def runThreads (i thread count : ℕ) : List ClusterEvent :=
  List.replicate count (.act i (.runThread thread))

/-- The first server elects itself, the second registers, and client 21 registers and has a
request acknowledged; the two updates are still in flight. -/
def acknowledgedAtFirst : List ClusterEvent :=
  [.act 0 .discover] ++ deliverNext 3 ++ [.act 0 .giveUpDiscovery] ++ runThreads 0 0 3 ++ deliverNext 2 ++
    runThreads 0 0 3 ++ runThreads 0 1 1 ++ deliverNext 1 ++
    [.act 1 .discover] ++ deliverNext 10 ++ [.act 0 .resume] ++
    [.discovery 0 (testHost 21), .request 0 (testHost 21) ⟨(testHost 21).sinAddr, 100, 1⟩] ++ runThreads 0 1 3

/-- The second server applies the two updates. -/
def updatesApplied : List ClusterEvent := [.deliver 0, .act 1 .resume, .deliver 0, .act 1 .resume]

/-- The second server hears no heartbeat, holds an election and promotes itself. The packets of
the election stand behind `waiting` others. -/
def secondPromoted (waiting : ℕ) : List ClusterEvent :=
  runThreads 1 0 4 ++ List.replicate 3 (.deliver waiting) ++ runThreads 1 0 3

/-- The second server announces itself and registers the first. -/
def firstDemoted : List ClusterEvent := runThreads 1 1 1 ++ deliverNext 3 ++ [.act 1 .resume]

/-- The first server takes in the snapshot of what it held. -/
def snapshotTaken : List ClusterEvent :=
  [.act 1 .resume, .act 1 .resume, .deliver 0, .act 0 .resume, .deliver 0, .act 0 .resume]

/-- The role of the server at a position, and how much it has acknowledged. -/
def Cluster.standing (c : Cluster) : List (ServerRole × ℕ) :=
  c.hosts.map fun h => (h.node.server.currentRole, h.node.acked.length)

end BankReplica
