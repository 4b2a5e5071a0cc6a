import BankReplica.Bully

/-!
# The list of backups

A backup registers when its discovery is answered and again whenever it takes in an
announcement, and the primary appends its address each time. An address is dropped only
when the whole list is, on a role change. As long as no address registers while it is
listed, the list has no duplicates, and what a primary replicates goes to each backup on
it once.
-/

namespace BankReplica

open Runs

variable (fl : FloatRounding)

/-- The backup whose registration a primary handles. -/
def Node.registers (n : Node) : NodeEvent → Option SockAddr
  | .receive .registerBackup sender =>
    if n.loop = .receiving ∧ n.server.currentRole = .primary then some sender else none
  | _ => none

/-- No backup registers while it is listed. -/
def RegistersOnce (n : Node) (e : NodeEvent) : Prop := ∀ sender ∈ n.registers e, sender ∉ n.server.backupServers

instance (n : Node) (e : NodeEvent) : Decidable (RegistersOnce n e) :=
  inferInstanceAs (Decidable (∀ sender ∈ n.registers e, _))

/-- The updates among some packets that go to an address. -/
def updatesTo (b : SockAddr) (sends : List Send) : ℕ :=
  sends.countP fun send => send.dest = b ∧ send.packet.isUpdate

/-- The step replicates a client addition or an executed transaction. -/
def Node.Replicates (n : Node) : NodeEvent → Prop
  | .receive .discovery sender => n.loop = .receiving ∧ n.server.currentRole = .primary ∧
    inetNtop sender.sinAddr ∉ n.server.addresses
  | .act (.runThread i) => n.server.currentRole = .primary ∧ ∃ req clientAddr balance receipt,
    n.threads[i]? = some (.processing req clientAddr .success balance receipt)
  | _ => False

/-! ## What a step does to the list -/

/-- What a step leaves of the list of backups. -/
inductive Node.Listing (n : Node) (e : NodeEvent) (n' : Node) : Prop
  | kept (hnone : n.registers e = none) (hlist : n'.server.backupServers = n.server.backupServers)
  | cleared (hnone : n.registers e = none) (hlist : n'.server.backupServers = [])
  | registered (sender : SockAddr) (hsome : n.registers e = some sender)
      (hlist : n'.server.backupServers = n.server.backupServers ++ [sender])

/-- An update handler keeps the list of backups. -/
theorem Server.handleUpdate_backupServers (s : Server) (packet : Packet) :
    (s.handleUpdate fl packet).backupServers = s.backupServers := by
  cases packet with
  | addClientUpdate data =>
    simp only [Server.handleUpdate, Server.handleClientUpdate]
    split <;> rfl
  | _ => rfl

/-- A thread keeps the list of backups or, as it promotes its server, clears it. -/
theorem Thread.step_backupServers {s : Server} {locked : Bool} {t : Thread} {o : ThreadOutcome}
    (h : t.step fl s locked = some o) :
    o.server.backupServers = s.backupServers ∨ o.server.backupServers = [] := by
  cases Thread.step_cases fl h with
  | @request req clientAddr server status balance hfree hserved =>
    obtain ⟨ledger, log, rfl⟩ := Server.served_frame fl hserved
    exact .inl rfl
  | processing =>
    refine .inl ?_
    simp only
    split <;> rfl
  | promoted hfree hrole => exact .inr rfl
  | _ => exact .inl rfl

/-- A packet registers nobody outside the receive loop or when its handler is for others. -/
theorem Node.registers_eq_none {n : Node} {packet : Packet} {sender : SockAddr}
    (h : packet = .registerBackup → ¬(n.loop = .receiving ∧ n.server.currentRole = .primary)) :
    n.registers (.receive packet sender) = none := by
  cases packet with
  | registerBackup => exact if_neg (h rfl)
  | _ => rfl

/-- Every step of a process. -/
theorem Node.step_listing {n n' : Node} {e : NodeEvent} {sends : List Send}
    (h : n.step fl e = some (n', sends)) : n.Listing e n' := by
  cases Node.step_cases fl h with
  | ignored hloop hpacket => exact .kept (Node.registers_eq_none fun _ => by simp [hloop]) rfl
  | dropped hloop hheeded =>
    refine .kept (Node.registers_eq_none fun hpacket hprimary => ?_) rfl
    rw [hpacket, hprimary.2] at hheeded
    contradiction
  | client hloop hrole hfree =>
    refine .kept rfl ?_
    simp only [Server.handleDiscoveryPacket, if_pos hrole]
    exact (n.server.addClient_frame fl _).2
  | @backup sender hloop hrole hfree => exact .registered sender (if_pos ⟨hloop, hrole⟩) rfl
  | heartbeat hloop => exact .kept rfl n.server.handleHeartbeatPacket_sameCore.backups
  | @announcement newLeaderId sender hloop =>
    by_cases hother : newLeaderId = n.server.serverId
    · subst hother
      exact .kept rfl (n.server.handleNewPrimaryAnnouncementPacket_own sender).backups
    · exact .cleared rfl (congrArg (fun result : Server × List Send => result.1.backupServers) (if_pos hother))
  | @election senderId sender hloop =>
    exact .kept rfl (n.server.handleElectionPacket_sameCore senderId sender).backups
  | @electionAnswer senderId sender hloop =>
    exact .kept rfl (n.server.handleElectionAnswerPacket_sameCore senderId).backups
  | update hloop hupdate hrole =>
    exact .kept (Node.registers_eq_none fun _ hprimary => by simp [hrole] at hprimary) rfl
  | @updated packet hloop hfree => exact .kept rfl (n.server.handleUpdate_backupServers fl packet)
  | ran hget houtcome =>
    cases Thread.step_backupServers fl houtcome with
    | inl hkept => exact .kept rfl hkept
    | inr hcleared => exact .cleared rfl hcleared
  | _ => exact .kept rfl rfl

/-- A list without duplicates stays so exactly if no listed backup registers. -/
theorem Node.Listing.nodup_iff {n n' : Node} {e : NodeEvent} (h : n.Listing e n')
    (hnodup : n.server.backupServers.Nodup) : n'.server.backupServers.Nodup ↔ RegistersOnce n e := by
  unfold RegistersOnce
  cases h with
  | kept hnone hlist =>
    rw [hlist, hnone]
    exact iff_of_true hnodup (by simp)
  | cleared hnone hlist =>
    rw [hlist, hnone]
    exact iff_of_true List.nodup_nil (by simp)
  | registered sender hsome hlist =>
    rw [hlist, hsome, List.nodup_append_comm, List.singleton_append, List.nodup_cons]
    simp [hnodup]

/-! ## What is replicated -/

/-- A request that was executed has both its parties registered and left an entry in the log. -/
def Thread.Settled (s : Server) : Thread → Prop
  | .processing req clientAddr .success _ _ => .registered (inetNtop clientAddr.sinAddr) ∈ s.facts ∧
    .registered (inetNtop req.destAddr) ∈ s.facts ∧ ∃ tx, .logged tx ∈ s.facts
  | _ => True

/-- A server that forgets nothing leaves settled what was. -/
theorem Thread.Settled.mono {s s' : Server} {t : Thread} (h : t.Settled s) (hgrows : s.facts ⊆ s'.facts) :
    t.Settled s' := by
  cases t with
  | processing req clientAddr status balance receipt =>
    cases status with
    | success =>
      obtain ⟨hsource, hdest, tx, htx⟩ := h
      exact ⟨hgrows hsource, hgrows hdest, tx, hgrows htx⟩
    | _ => trivial
  | _ => trivial

/-- A thread outside the lock is settled. -/
theorem Thread.settled_of_free {s : Server} {t : Thread} (h : t.holdsLock = false) : t.Settled s := by
  cases t with
  | processing req clientAddr status balance receipt => contradiction
  | _ => trivial

/-- An executed request is settled. -/
theorem Server.settled_of_accept {s : Server} {sourceIp destIp : IpString} {value seqn : ℤ}
    (h : s.verdict fl sourceIp destIp value seqn = .success) :
    .registered sourceIp ∈ (s.handleTransactionLogic fl sourceIp destIp value seqn).1.facts ∧
      .registered destIp ∈ (s.handleTransactionLogic fl sourceIp destIp value seqn).1.facts ∧
        ∃ tx, .logged tx ∈ (s.handleTransactionLogic fl sourceIp destIp value seqn).1.facts := by
  obtain ⟨source, dest, hsource, hdest⟩ := Ledger.account_commit_of_accept fl h
  have hsourceIp := Ledger.account_isSome.mp (Option.isSome_of_mem hsource)
  have hdestIp := Ledger.account_isSome.mp (Option.isSome_of_mem hdest)
  rw [Server.handleTransactionLogic_accept fl h]
  refine ⟨Ledger.registered_mem_facts.mpr hsourceIp, Ledger.registered_mem_facts.mpr hdestIp,
    s.loggedTransaction sourceIp destIp value seqn, Ledger.logged_mem_facts.mpr ?_⟩
  simp only [Ledger.commit_transactionHistory]
  exact List.mem_append_right _ (List.mem_singleton_self _)

/-- What a thread goes on as is settled. -/
theorem Thread.step_settled {s : Server} {locked : Bool} {t : Thread} {o : ThreadOutcome}
    (h : t.step fl s locked = some o) : ∀ t' ∈ o.threads, t'.Settled o.server := by
  cases Thread.step_cases fl h with
  | @request req clientAddr server status balance hfree hserved =>
    have hstatus := s.handleTransactionLogic_status fl (inetNtop clientAddr.sinAddr) (inetNtop req.destAddr)
      req.value.toInt req.seqn.toInt
    rw [hserved] at hstatus
    intro t' ht'
    rw [List.mem_singleton.mp ht']
    cases status with
    | success =>
      have hsettled := Server.settled_of_accept fl hstatus.symm
      rw [hserved] at hsettled
      exact hsettled
    | _ => trivial
  | _ => simp [Thread.Settled]

/-- A step of a process leaves its threads settled. -/
theorem Node.step_settled {n n' : Node} {e : NodeEvent} {sends : List Send}
    (hsettled : ∀ t ∈ n.threads, t.Settled n.server) (h : n.step fl e = some (n', sends)) :
    ∀ t ∈ n'.threads, t.Settled n'.server := by
  have hgrows := (Node.step_effect fl h).grows
  intro t ht
  cases Node.step_course fl h with
  | heard new hruns hthreads hnew hheard hfree =>
    rw [hthreads] at ht
    cases List.mem_append.mp ht with
    | inl hold => exact (hsettled t hold).mono hgrows
    | inr hstarted => exact Thread.settled_of_free (hfree t hstarted)
  | ran hevent hget hstep hserver hthreads hloop hsends =>
    rw [hthreads] at ht
    cases List.mem_append.mp ht with
    | inl hold => exact (hsettled t (List.mem_of_mem_eraseIdx hold)).mono hgrows
    | inr hnext => exact hserver ▸ Thread.step_settled fl hstep t hnext

/-! ## One update for each backup -/

/-- A packet sent once to each listed address goes to one of them once. -/
theorem updatesTo_map {backups : List SockAddr} (hnodup : backups.Nodup) {packet : Packet}
    (hupdate : packet.isUpdate = true) {b : SockAddr} (hb : b ∈ backups) :
    updatesTo b (backups.map fun a => ⟨a, packet⟩) = 1 := by
  rw [updatesTo, List.countP_map, ← List.count_eq_one_of_mem hnodup hb, List.count_eq_countP]
  congr 1
  funext a
  simp [hupdate, Bool.beq_eq_decide_eq]

/-- A client addition goes to each listed backup once. -/
theorem Server.discovery_updates {s : Server} (hnodup : s.backupServers.Nodup)
    (hrole : s.currentRole = .primary) {clientAddr : SockAddr} (hnew : inetNtop clientAddr.sinAddr ∉ s.addresses)
    {b : SockAddr} (hb : b ∈ s.backupServers) :
    updatesTo b (s.handleDiscoveryPacket fl clientAddr).2 = 1 := by
  have hsends := s.addClient_sends fl (inetNtop clientAddr.sinAddr)
  rw [if_pos ⟨hnew, hrole⟩] at hsends
  simp only [Server.handleDiscoveryPacket, hrole, if_true, hsends]
  have hack : updatesTo b [⟨clientAddr, .discoveryAck⟩] = 0 := by simp [updatesTo, Packet.isUpdate]
  rw [updatesTo, List.countP_append, ← updatesTo, ← updatesTo, hack, updatesTo_map hnodup rfl hb]

/-- An executed transaction goes to each listed backup once. -/
theorem Server.propagation_updates {s : Server} (hnodup : s.backupServers.Nodup)
    (hrole : s.currentRole = .primary) {sourceIp destIp : IpString} (hsource : .registered sourceIp ∈ s.facts)
    (hdest : .registered destIp ∈ s.facts) (hlogged : ∃ tx, .logged tx ∈ s.facts) {b : SockAddr}
    (hb : b ∈ s.backupServers) : updatesTo b (s.propagateSuccess sourceIp destIp .success) = 1 := by
  obtain ⟨source, hfrom⟩ :=
    Option.isSome_iff_exists.mp (Ledger.account_isSome.mpr (Ledger.registered_mem_facts.mp hsource))
  obtain ⟨dest, hto⟩ :=
    Option.isSome_iff_exists.mp (Ledger.account_isSome.mpr (Ledger.registered_mem_facts.mp hdest))
  obtain ⟨tx, htx⟩ := hlogged
  have hnonempty : s.transactionHistory ≠ [] := List.ne_nil_of_mem (Ledger.logged_mem_facts.mp htx)
  simp only [Server.propagateSuccess, hrole, and_self, if_true, Ledger.getElem?_findClient, hfrom, hto,
    List.getLast?_eq_getLast_of_ne_nil hnonempty]
  exact updatesTo_map hnodup rfl hb

/-- A process with a list without duplicates that settles what it executes. -/
structure Node.Listed (n : Node) : Prop where
  nodup : n.server.backupServers.Nodup
  settled : ∀ t ∈ n.threads, t.Settled n.server

/-- What such a process replicates goes to each listed backup once. -/
theorem Node.Listed.replicates {n n' : Node} {e : NodeEvent} {sends : List Send} (h : n.Listed)
    (hstep : n.step fl e = some (n', sends)) (hreplicates : n.Replicates e) :
    ∀ b ∈ n.server.backupServers, updatesTo b sends = 1 := by
  intro b hb
  cases e with
  | receive packet sender =>
    cases packet with
    | discovery =>
      obtain ⟨hloop, hrole, hnew⟩ := hreplicates
      simp only [Node.step, Node.receive, hloop, Node.dispatch, hrole, ne_eq, not_true_eq_false, if_false] at hstep
      split at hstep
      · contradiction
      · obtain ⟨-, rfl⟩ := Prod.mk.inj (Option.some.inj hstep)
        exact Server.discovery_updates fl h.nodup hrole hnew hb
    | _ => exact absurd hreplicates id
  | act action =>
    cases action with
    | runThread i =>
      obtain ⟨hrole, req, clientAddr, balance, receipt, hget⟩ := hreplicates
      obtain ⟨hsource, hdest, hlogged⟩ := h.settled _ (List.mem_of_getElem? hget)
      simp only [Node.step, Node.act, Node.runThread, hget] at hstep
      obtain ⟨-, rfl⟩ := Prod.mk.inj (Option.some.inj hstep)
      exact Server.propagation_updates h.nodup hrole hsource hdest hlogged hb
    | _ => exact absurd hreplicates id

/-- In every run in which no backup registers while it is listed, the list has no duplicates, each
client addition and each executed transaction sends one update to each listed backup, and the
next step leaves the list without duplicates exactly if no listed backup registers. -/
theorem one_update_per_backup {n : Node} (h : Reachable (Node.move fl) RegistersOnce Node.Fresh n) :
    n.server.backupServers.Nodup ∧
      (∀ e n' sends, n.step fl e = some (n', sends) → n.Replicates e →
        ∀ b ∈ n.server.backupServers, updatesTo b sends = 1) ∧
      ∀ e n', n.move fl e = some n' → (n'.server.backupServers.Nodup ↔ RegistersOnce n e) := by
  have hlisted : n.Listed := by
    refine h.invariant (fun m hm => ?_) (fun m e m' hs hguard hmove => ?_)
    · rw [hm]
      exact ⟨List.nodup_nil, by simp [Node.new]⟩
    · obtain ⟨⟨_, sends⟩, hstep, rfl⟩ := Option.map_eq_some_iff.mp hmove
      exact ⟨((Node.step_listing fl hstep).nodup_iff hs.nodup).mpr hguard, Node.step_settled fl hs.settled hstep⟩
  refine ⟨hlisted.nodup, fun e n' sends hstep => hlisted.replicates fl hstep, fun e n' hmove => ?_⟩
  obtain ⟨⟨_, sends⟩, hstep, rfl⟩ := Option.map_eq_some_iff.mp hmove
  exact (Node.step_listing fl hstep).nodup_iff hlisted.nodup

/-! ## A backup listed once and a backup listed twice -/

/-- The updates a step sends to host 3. -/
def Node.updatesToHost3 (n : Node) (e : NodeEvent) : Option ℕ :=
  (n.step singlePrecision e).map fun result => updatesTo (testHost 3) result.2

/-- Host 3 registers once and is sent the request of client 21 once. -/
theorem one_update_to_host3 :
    ∃ n : Node, (n.server.backupServers = [testHost 3] ∧ n.locked = true ∧
        n.updatesToHost3 (.act (.runThread 1)) = some 1) ∧
      n.server.backupServers.Nodup ∧
      (∀ e n' sends, n.step singlePrecision e = some (n', sends) → n.Replicates e →
        ∀ b ∈ n.server.backupServers, updatesTo b sends = 1) ∧
      ∀ e n', n.move singlePrecision e = some n' → (n'.server.backupServers.Nodup ↔ RegistersOnce n e) := by
  obtain ⟨n, hreach, htest⟩ := exists_reachable_of_replay (Node.move singlePrecision) RegistersOnce Node.Fresh
    (s := Node.new 2 4000) (electedWithRequest ++ [.act (.runThread 1)])
    (fun n => decide (n.server.backupServers = [testHost 3] ∧ n.locked = true ∧
      n.updatesToHost3 (.act (.runThread 1)) = some 1)) rfl (by decide +kernel)
  exact ⟨n, of_decide_eq_true htest, one_update_per_backup singlePrecision hreach⟩

/-- The first server elects itself. -/
def firstElected : List ClusterEvent :=
  [.act 0 .discover] ++ deliverNext 3 ++ [.act 0 .giveUpDiscovery] ++ runThreads 0 0 3 ++ deliverNext 2 ++
    runThreads 0 0 3

/-- The second server is answered and registers. -/
def secondRegisters : List ClusterEvent := [.act 1 .discover] ++ deliverNext 10 ++ [.act 0 .resume]

/-- The first server announces itself to both. -/
def firstAnnounces : List ClusterEvent := runThreads 0 1 1 ++ deliverNext 3 ++ [.act 0 .resume]

/-- Client 21 registers at the first server and its request is executed. -/
def requestExecuted : List ClusterEvent :=
  [.discovery 0 (testHost 21), .request 0 (testHost 21) ⟨(testHost 21).sinAddr, 100, 1⟩] ++ runThreads 0 1 1

/-- A backup that starts between a promotion and its announcement registers upon both, a backup
that crashes registers again, and the next transaction is sent to it twice. -/
theorem backup_listed_twice :
    (∃ c, Reachable (Cluster.step singlePrecision) Always Cluster.Initial c ∧ ∃ h ∈ c.hosts,
        h.node.server.backupServers = [testHost 3, testHost 3] ∧
          h.node.updatesToHost3 (.act (.runThread 1)) = some 2) ∧
      ∃ c, Reachable (Campaign.step singlePrecision) Always Campaign.Initial c ∧ ∃ h ∈ c.cluster.hosts,
        h.node.server.backupServers = [testHost 3, testHost 3] ∧
          h.node.updatesToHost3 (.act (.runThread 1)) = some 2 := by
  constructor
  · obtain ⟨c, hreach, htest⟩ := exists_reachable_of_replay (Cluster.step singlePrecision) Always
      Cluster.Initial (firstElected ++ secondRegisters ++ firstAnnounces ++ requestExecuted)
      (fun c => decide (∃ h ∈ c.hosts, h.node.server.backupServers = [testHost 3, testHost 3] ∧
        h.node.updatesToHost3 (.act (.runThread 1)) = some 2)) twoServers_initial (by decide +kernel)
    exact ⟨c, hreach, of_decide_eq_true htest⟩
  · obtain ⟨c, hreach, htest⟩ := exists_reachable_of_replay (Campaign.step singlePrecision) Always
      Campaign.Initial
      (uncrashed (firstElected ++ runThreads 0 1 1 ++ deliverNext 1 ++ secondRegisters) ++ [.crash 1 []] ++
        uncrashed (secondRegisters ++ requestExecuted))
      (fun c => decide (∃ h ∈ c.cluster.hosts, h.node.server.backupServers = [testHost 3, testHost 3] ∧
        h.node.updatesToHost3 (.act (.runThread 1)) = some 2)) twoCandidates_initial (by decide +kernel)
    exact ⟨c, hreach, of_decide_eq_true htest⟩

end BankReplica
