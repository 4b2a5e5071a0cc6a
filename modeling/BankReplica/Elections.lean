import BankReplica.Detection

/-!
# The flags of an election

`election_in_progress` is raised and cleared by the one election thread of a server;
`election_lost` is cleared by it once, before the broadcast, and set by the receive loop.
So a loss noted while the window is open is still there when the window closes, and a
candidate that polled a larger id has lost as soon as it hears from it.
-/

namespace BankReplica

variable (fl : FloatRounding)

/-- A server after a step that neither starts nor ends an election and forgets no loss. -/
structure Server.Heard (s s' : Server) : Prop where
  port : s'.port = s.port
  inProgress : s'.electionInProgress = s.electionInProgress
  lost : s.electionLost = true → s'.electionLost = true

theorem Server.Heard.refl (s : Server) : s.Heard s := ⟨rfl, rfl, id⟩

/-- The packets of an election only note a loss. -/
theorem Server.heard_of_election (s : Server) (senderId : Word) (sender : SockAddr) :
    s.Heard s.handleHeartbeatPacket ∧ s.Heard (s.handleElectionPacket senderId sender).1 ∧
      s.Heard (s.handleElectionAnswerPacket senderId) ∧
      s.Heard (s.handleNewPrimaryAnnouncementPacket senderId sender).1 := by
  refine ⟨?_, ?_, ?_, ?_⟩
  · unfold Server.handleHeartbeatPacket
    split <;> exact ⟨rfl, rfl, id⟩
  · simp only [Server.handleElectionPacket]
    split_ifs <;> exact ⟨rfl, rfl, by simp⟩
  · unfold Server.handleElectionAnswerPacket
    split <;> exact ⟨rfl, rfl, by simp⟩
  · simp only [Server.handleNewPrimaryAnnouncementPacket]
    split_ifs <;> exact ⟨rfl, rfl, by simp⟩

/-- Registering a client leaves elections alone. -/
theorem Server.handleDiscoveryPacket_heard (s : Server) (clientAddr : SockAddr) :
    s.Heard (s.handleDiscoveryPacket fl clientAddr).1 := by
  simp only [Server.handleDiscoveryPacket, Server.addClient, Server.wasClientAdded]
  split_ifs <;> exact ⟨rfl, rfl, id⟩

/-- An update leaves elections alone. -/
theorem Server.handleUpdate_heard (s : Server) (packet : Packet) : s.Heard (s.handleUpdate fl packet) := by
  cases packet with
  | addClientUpdate data =>
    simp only [Server.handleUpdate, Server.handleClientUpdate]
    split <;> exact ⟨rfl, rfl, id⟩
  | _ => exact ⟨rfl, rfl, id⟩

/-- A thread outside failure detection leaves elections alone and starts none. -/
theorem Thread.step_heard {s : Server} {locked : Bool} {t : Thread} {o : ThreadOutcome}
    (ht : t.detects = false) (h : t.step fl s locked = some o) :
    s.Heard o.server ∧ ∀ t' ∈ o.threads, t'.detects = false := by
  cases Thread.step_cases fl h with
  | @request req clientAddr server status balance hfree hserved =>
    obtain ⟨ledger, log, rfl⟩ := Server.served_frame fl hserved
    exact ⟨⟨rfl, rfl, id⟩, by simp [Thread.detects]⟩
  | processing =>
    refine ⟨?_, by simp [Thread.detects]⟩
    simp only
    split <;> exact ⟨rfl, rfl, id⟩
  | replying => exact ⟨Server.Heard.refl s, by simp⟩
  | announcing => exact ⟨Server.Heard.refl s, by simp⟩
  | heartbeats hrole hfree => exact ⟨Server.Heard.refl s, by simp [Thread.detects]⟩
  | senderLeft hrole => exact ⟨Server.Heard.refl s, by simp⟩
  | _ => contradiction

/-- No thread changes the port. -/
theorem Thread.step_port {s : Server} {locked : Bool} {t : Thread} {o : ThreadOutcome}
    (h : t.step fl s locked = some o) : o.server.port = s.port := by
  cases hdetects : t.detects with
  | false => exact (Thread.step_heard fl hdetects h).1.port
  | true =>
    cases Thread.step_cases fl h with
    | request | processing => contradiction
    | _ => rfl

/-- Only the broadcast opens a window. -/
theorem Thread.step_window {s : Server} {locked : Bool} {t : Thread} {o : ThreadOutcome}
    (h : t.step fl s locked = some o) (hwindow : Thread.electionWindow ∈ o.threads) : t = .electionCleared := by
  cases Thread.step_cases fl h with
  | electionCleared => rfl
  | _ => simp at hwindow

/-- The thread a step runs. -/
def Node.runs (n : Node) : NodeEvent → Option Thread
  | .act (.runThread i) => n.threads[i]?
  | _ => none

/-- A thread that runs is one of the process. -/
theorem Node.mem_of_runs {n : Node} {e : NodeEvent} {t : Thread} (h : n.runs e = some t) : t ∈ n.threads := by
  cases e with
  | receive packet sender => contradiction
  | act action =>
    cases action with
    | runThread i => exact List.mem_of_getElem? h
    | _ => contradiction

/-- A role change is a step of the thread at the call of `promoteToPrimary`. -/
theorem Node.promotes_iff {n : Node} {e : NodeEvent} :
    n.promotes e = true ↔ n.runs e = some .promoting ∧ n.server.currentRole = .backup := by
  cases e with
  | receive packet sender => simp [Node.promotes, Node.runs]
  | act action =>
    cases action with
    | runThread i => simp [Node.promotes, Node.runs]
    | _ => simp [Node.promotes, Node.runs]

/-- A step of a process runs one of its threads, or the receive loop acts and starts at most
a monitor or a delayed election. -/
inductive Node.Course (n : Node) (e : NodeEvent) (n' : Node) (sends : List Send) : Prop
  | ran {i : ℕ} {t : Thread} {o : ThreadOutcome} (hevent : e = .act (.runThread i))
      (hget : n.threads[i]? = some t) (hstep : t.step fl n.server n.locked = some o)
      (hserver : n'.server = o.server) (hthreads : n'.threads = n.threads.eraseIdx i ++ o.threads)
      (hloop : n'.loop = n.loop) (hsends : sends = o.sends)
  | heard (new : List Thread) (hruns : n.runs e = none) (hthreads : n'.threads = n.threads ++ new)
      (hnew : ∀ t ∈ new, t.detects = true → t = .electionDelay ∨ t = .monitorHead)
      (hheard : n.server.Heard n'.server) (hfree : ∀ t ∈ new, t.holdsLock = false)

/-- A step of the receive loop that starts no thread. -/
theorem Node.Course.quiet {n n' : Node} {e : NodeEvent} {sends : List Send} (hruns : n.runs e = none)
    (hthreads : n'.threads = n.threads) (hheard : n.server.Heard n'.server) : n.Course fl e n' sends :=
  .heard [] hruns (by simp [hthreads]) (by simp) hheard (by simp)

/-- Every step of a process. -/
theorem Node.step_course {n n' : Node} {e : NodeEvent} {sends : List Send}
    (h : n.step fl e = some (n', sends)) : n.Course fl e n' sends := by
  have hsame := Server.Heard.refl n.server
  cases Node.step_cases fl h with
  | discover hloop => exact .quiet fl rfl rfl hsame
  | giveUpDiscovery hloop =>
    exact .heard [.electionDelay] rfl rfl (by simp) ⟨rfl, rfl, id⟩ (by simp [Thread.holdsLock])
  | foundPrimary hloop =>
    exact .heard [.monitorHead] rfl rfl (by simp) ⟨rfl, rfl, id⟩ (by simp [Thread.holdsLock])
  | ignored hloop hpacket => exact .quiet fl rfl rfl hsame
  | dropped hloop hheeded => exact .quiet fl rfl rfl hsame
  | @request req sender hloop hrole =>
    exact .heard [.request req sender] rfl rfl (by simp [Thread.detects]) hsame (by simp [Thread.holdsLock])
  | @client sender hloop hrole hfree => exact .quiet fl rfl rfl (n.server.handleDiscoveryPacket_heard fl sender)
  | backup hloop hrole hfree => exact .quiet fl rfl rfl ⟨rfl, rfl, id⟩
  | @heartbeat sender hloop => exact .quiet fl rfl rfl (n.server.heard_of_election 0 sender).1
  | serverDiscovery hloop => exact .quiet fl rfl rfl hsame
  | @announcement newLeaderId sender hloop =>
    exact .quiet fl rfl rfl (n.server.heard_of_election newLeaderId sender).2.2.2
  | @election senderId sender hloop => exact .quiet fl rfl rfl (n.server.heard_of_election senderId sender).2.1
  | @electionAnswer senderId sender hloop =>
    exact .quiet fl rfl rfl (n.server.heard_of_election senderId sender).2.2.1
  | update hloop hupdate hrole => exact .quiet fl rfl rfl hsame
  | @updated packet hloop hfree => exact .quiet fl rfl rfl (n.server.handleUpdate_heard fl packet)
  | sent hloop => exact .quiet fl rfl rfl hsame
  | registered hloop => exact .quiet fl rfl rfl hsame
  | ran hget houtcome => exact .ran rfl hget houtcome rfl rfl rfl rfl

/-- No step changes the port. -/
theorem Node.Course.port {n n' : Node} {e : NodeEvent} {sends : List Send} (h : n.Course fl e n' sends) :
    n'.server.port = n.server.port := by
  cases h with
  | heard new hruns hthreads hnew hheard => exact hheard.port
  | ran hevent hget hstep hserver hthreads hloop hsends =>
    rw [hserver]
    exact Thread.step_port fl hstep

/-- A window is opened by the broadcast. -/
theorem Node.Course.opened {n n' : Node} {e : NodeEvent} {sends : List Send} (h : n.Course fl e n' sends)
    (hwindow : Thread.electionWindow ∈ n'.threads) :
    Thread.electionWindow ∈ n.threads ∨ n.runs e = some .electionCleared := by
  cases h with
  | heard new hruns hthreads hnew hheard =>
    rw [hthreads] at hwindow
    refine .inl ((List.mem_append.mp hwindow).resolve_right fun hstarted => ?_)
    cases hnew _ hstarted rfl with
    | inl hdelay => contradiction
    | inr hhead => contradiction
  | @ran i t o hevent hget hstep hserver hthreads hloop hsends =>
    rw [hthreads] at hwindow
    cases List.mem_append.mp hwindow with
    | inl hold => exact .inl (List.mem_of_mem_eraseIdx hold)
    | inr hnext =>
      refine .inr ?_
      rw [hevent]
      refine hget.trans (congrArg some ?_)
      exact Thread.step_window fl hstep hnext

/-! ## What a candidate knows of its poll -/

/-- What an election thread has established: `outranks` are the servers it polled that have
larger ids, `pending` those whose poll or whose answer is still on its way. -/
def Thread.Polled (s : Server) (outranks pending : ℕ → Prop) : Thread → Prop
  | .electionRaised | .electionCleared => s.electionInProgress = true
  | .electionWindow =>
    s.electionInProgress = true ∧ ∀ j, outranks j → pending j ∨ s.electionLost = true
  | .electionClosed => ∀ j, outranks j → s.electionLost = true
  | .promoting => ∀ j, ¬ outranks j
  | _ => True

/-- A thread outside failure detection has polled nobody. -/
theorem Thread.polled_of_not_detects {s : Server} {outranks pending : ℕ → Prop} {t : Thread}
    (h : t.detects = false) : t.Polled s outranks pending := by
  cases t with
  | electionDelay | electionRaised | electionCleared | electionWindow | electionClosed | promoting |
      monitorHead | monitorWaiting => contradiction
  | _ => trivial

/-- What is established stays so while fewer servers matter and none of them is forgotten. -/
theorem Thread.Polled.heard {s s' : Server} {outranks outranks' pending pending' : ℕ → Prop} {t : Thread}
    (h : t.Polled s outranks pending) (hheard : s.Heard s') (houtranks : ∀ j, outranks' j → outranks j)
    (hpending : t = .electionWindow → s.electionInProgress = true → ∀ j, outranks' j → pending j →
      pending' j ∨ s'.electionLost = true) :
    t.Polled s' outranks' pending' := by
  cases t with
  | electionRaised => exact hheard.inProgress.trans h
  | electionCleared => exact hheard.inProgress.trans h
  | electionWindow =>
    refine ⟨hheard.inProgress.trans h.1, fun j hj => ?_⟩
    cases h.2 j (houtranks j hj) with
    | inl hwaiting => exact hpending rfl h.1 j hj hwaiting
    | inr hlost => exact .inr (hheard.lost hlost)
  | electionClosed => exact fun j hj => hheard.lost (h j (houtranks j hj))
  | promoting => exact fun j hj => h j (houtranks j hj)
  | _ => trivial

/-- While a process runs one of its activities, its other threads are none. -/
theorem Node.Watch.alone {n : Node} (h : n.Watch) {i : ℕ} {t : Thread} (hget : n.threads[i]? = some t)
    (ht : t.detects = true) : ∀ t' ∈ n.threads.eraseIdx i, t'.detects = false := by
  have hsingle := h.single
  have hreplaced := countP_replaced Thread.detects hget []
  rw [ht, if_pos rfl, List.append_nil, List.countP_nil] at hreplaced
  have hnone : (n.threads.eraseIdx i).countP Thread.detects = 0 := by
    rw [Node.detections] at hsingle
    omega
  intro t' ht'
  exact Bool.eq_false_of_not_eq_true (List.countP_eq_zero.mp hnone t' ht')

/-- What the election thread goes on as, when it opens its window only with every poll on its
way and closes it only with none. -/
theorem Thread.Polled.next {s : Server} {locked : Bool} {outranks outranks' pending pending' : ℕ → Prop}
    {t : Thread} {o : ThreadOutcome} (h : t.Polled s outranks pending) (hdetects : t.detects = true)
    (hstep : t.step fl s locked = some o)
    (hopened : t = .electionCleared → ∀ j, outranks' j → pending' j)
    (houtranks : t ≠ .electionCleared → ∀ j, outranks' j → outranks j)
    (hclosed : t = .electionWindow → ∀ j, outranks j → ¬ pending j) :
    ∀ t' ∈ o.threads, t'.Polled o.server outranks' pending' := by
  cases Thread.step_cases fl hstep with
  | electionDelay => simp [Thread.Polled, Server.raiseElection]
  | electionRaised =>
    intro t' ht'
    rw [List.mem_singleton.mp ht']
    exact h
  | electionCleared =>
    intro t' ht'
    rw [List.mem_singleton.mp ht']
    exact ⟨h, fun j hj => .inl (hopened rfl j hj)⟩
  | electionWindow =>
    intro t' ht'
    rw [List.mem_singleton.mp ht']
    intro j hj
    have hlarger := houtranks (by simp) j hj
    exact (h.2 j hlarger).resolve_left (hclosed rfl j hlarger)
  | won hlost =>
    intro t' ht'
    rw [List.mem_singleton.mp ht']
    intro j hj
    have hknown := h j (houtranks (by simp) j hj)
    rw [hlost] at hknown
    contradiction
  | timedOut halive => simp [Thread.Polled, Server.raiseElection]
  | lost | promoted | alreadyPrimary | monitorHead | monitorLeft | heardHeartbeat => simp [Thread.Polled]
  | _ => contradiction

/-- A step of a candidate. -/
theorem Node.Watch.polled {n n' : Node} {e : NodeEvent} {sends : List Send} (hwatch : n.Watch)
    (hcourse : n.Course fl e n' sends) {outranks outranks' pending pending' : ℕ → Prop}
    (hpolled : ∀ t ∈ n.threads, t.Polled n.server outranks pending)
    (hopened : n.runs e = some .electionCleared → ∀ j, outranks' j → pending' j)
    (houtranks : n.runs e ≠ some .electionCleared → ∀ j, outranks' j → outranks j)
    (hpending : n.runs e ≠ some .electionCleared → .electionWindow ∈ n.threads →
      n.server.electionInProgress = true → ∀ j, outranks' j → pending j →
        pending' j ∨ n'.server.electionLost = true)
    (hclosed : n.runs e = some .electionWindow → ∀ j, outranks j → ¬ pending j) :
    ∀ t ∈ n'.threads, t.Polled n'.server outranks' pending' := by
  intro t' ht'
  cases hcourse with
  | heard new hruns hthreads hnew hheard =>
    rw [hthreads] at ht'
    cases List.mem_append.mp ht' with
    | inl hold =>
      exact (hpolled t' hold).heard hheard (houtranks (by simp [hruns]))
        fun hwindow => hpending (by simp [hruns]) (hwindow ▸ hold)
    | inr hstarted =>
      cases hdetects : t'.detects with
      | false => exact Thread.polled_of_not_detects hdetects
      | true =>
        cases hnew t' hstarted hdetects with
        | inl hdelay =>
          rw [hdelay]
          trivial
        | inr hhead =>
          rw [hhead]
          trivial
  | @ran i t o hevent hget hstep hserver hthreads hloop hsends =>
    have hruns : n.runs e = some t := by rw [hevent]; exact hget
    rw [hserver] at hpending ⊢
    rw [hthreads] at ht'
    rw [hruns, ne_eq, Option.some.injEq] at houtranks hpending
    rw [hruns, Option.some.injEq] at hopened hclosed
    cases hdetects : t.detects with
    | false =>
      obtain ⟨hheard, hquiet⟩ := Thread.step_heard fl hdetects hstep
      have hother : ¬ t = .electionCleared := by
        rintro rfl
        contradiction
      cases List.mem_append.mp ht' with
      | inl hold =>
        have hmem := List.mem_of_mem_eraseIdx hold
        exact (hpolled t' hmem).heard hheard (houtranks hother)
          fun hwindow => hpending hother (hwindow ▸ hmem)
      | inr hnext => exact Thread.polled_of_not_detects (hquiet t' hnext)
    | true =>
      cases List.mem_append.mp ht' with
      | inl hold => exact Thread.polled_of_not_detects (hwatch.alone hget hdetects t' hold)
      | inr hnext =>
        have hown := hpolled t (List.mem_of_getElem? hget)
        exact hown.next fl hdetects hstep hopened houtranks hclosed t' hnext

/-- The election threads of a process go on while an election is in progress, whoever has been polled. -/
def Node.Raised (n : Node) : Prop :=
  ∀ t ∈ n.threads, t.Polled n.server (fun _ => False) fun _ => False

/-- Every step of a process keeps its election in progress until the window closes. -/
theorem Node.Raised.step {n n' : Node} {e : NodeEvent} {sends : List Send} (h : n.Raised) (hwatch : n.Watch)
    (hstep : n.step fl e = some (n', sends)) : n'.Raised :=
  hwatch.polled fl (Node.step_course fl hstep) h (fun _ _ => False.elim) (fun _ _ => False.elim)
    (fun _ _ _ _ => False.elim) fun _ _ => False.elim

/-- A candidate that is answered by a larger id has lost. -/
theorem Node.receive_answer {n n' : Node} {senderId : Word} {sender : SockAddr} {sends : List Send}
    (hbooted : ¬ n.Booting) (hraised : n.server.electionInProgress = true)
    (hlarger : n.server.serverId < senderId)
    (h : n.receive fl (.electionAnswer senderId) sender = some (n', sends)) : n'.server.electionLost = true := by
  cases Node.step_cases fl (e := .receive (.electionAnswer senderId) sender) h with
  | ignored hloop hpacket => exact absurd (.inr hloop) hbooted
  | electionAnswer hloop => simp [Server.handleElectionAnswerPacket, hraised, hlarger]
  | _ => contradiction

/-- A booted server answers the poll of a smaller id, whatever its role. -/
theorem Node.receive_election {n n' : Node} {senderId : Word} {sender : SockAddr} {sends : List Send}
    (hbooted : ¬ n.Booting) (hsmaller : senderId < n.server.serverId)
    (h : n.receive fl (.election senderId) sender = some (n', sends)) :
    sends = [⟨sender, .electionAnswer n.server.serverId⟩] := by
  have hnot : ¬ senderId > n.server.serverId := by bv_omega
  cases Node.step_cases fl (e := .receive (.election senderId) sender) h with
  | ignored hloop hpacket => exact absurd (.inr hloop) hbooted
  | election hloop => simp only [Server.handleElectionPacket, if_neg hnot]
  | _ => contradiction

/-! ## What a process announces -/

/-- The packet is an announcement. -/
def Packet.announces : Packet → Bool
  | .newPrimaryAnnouncement _ => true
  | _ => false

/-- What is left of a snapshot is updates. -/
def Node.Snapshots (n : Node) : Prop :=
  ∀ backupAddr unsent, n.loop = .registering backupAddr unsent → ∀ packet ∈ unsent, packet.isUpdate = true

section

variable {fl} {n n' : Node} {e : NodeEvent} {sends : List Send}

/-- A step leaves no more of a snapshot than there was, or begins one. -/
theorem Node.Snapshots.step (h : n.Snapshots)
    (hstep : n.step fl e = some (n', sends)) : n'.Snapshots := by
  cases Node.step_cases fl hstep with
  | @backup sender hloop hrole hfree =>
    rintro backupAddr unsent hunsent packet hpacket
    obtain ⟨-, rfl⟩ := Loop.registering.inj hunsent
    obtain ⟨send, hsend, rfl⟩ := List.mem_map.mp hpacket
    obtain ⟨snapshot, hsnapshot, rfl⟩ := List.mem_map.mp hsend
    cases List.mem_append.mp hsnapshot with
    | inl hclient =>
      obtain ⟨c, -, rfl⟩ := List.mem_map.mp hclient
      rfl
    | inr hentry =>
      obtain ⟨tx, -, rfl⟩ := List.mem_map.mp hentry
      rfl
  | @sent backupAddr packet rest hloop =>
    rintro backupAddr' unsent hunsent packet' hpacket
    obtain ⟨-, rfl⟩ := Loop.registering.inj hunsent
    exact h _ _ hloop packet' (List.mem_cons_of_mem packet hpacket)
  | discover | giveUpDiscovery | foundPrimary | updated | registered | update => exact nofun
  | _ => exact h

/-- A role change leaves the list of backups empty and the announcement to be sent. -/
theorem Node.promotes_announces
    (hstep : n.step fl e = some (n', sends)) (hpromotes : n.promotes e = true) :
    n'.server.currentRole = .primary ∧ n'.server.backupServers = [] ∧ .announcing ∈ n'.threads := by
  obtain ⟨hruns, hbackup⟩ := Node.promotes_iff.mp hpromotes
  cases Node.step_course fl hstep with
  | heard new hnone hthreads hnew hheard =>
    rw [hnone] at hruns
    contradiction
  | ran hevent hget hthread hserver hthreads hloop hsends =>
    rw [hevent] at hruns
    obtain rfl := Option.some.inj (hget.symm.trans hruns)
    rw [hserver, hthreads]
    cases Thread.step_cases fl hthread with
    | promoted hfree hrole => exact ⟨rfl, rfl, by simp⟩
    | alreadyPrimary hfree hrole => simp [hrole] at hbackup

/-- An announcement that is still to be sent stays so, or it is broadcast. -/
theorem Node.announcing_stays
    (hstep : n.step fl e = some (n', sends)) (h : Thread.announcing ∈ n.threads) :
    .announcing ∈ n'.threads ∨ sends = [n.server.announceNewPrimary] := by
  cases Node.step_course fl hstep with
  | heard new hnone hthreads hnew hheard =>
    rw [hthreads]
    exact .inl (List.mem_append_left _ h)
  | @ran i t o hevent hget hthread hserver hthreads hloop hsends =>
    by_cases ht : t = .announcing
    · rw [ht] at hthread
      obtain rfl := Option.some.inj hthread
      exact .inr hsends
    · rw [hthreads]
      obtain ⟨k, hk⟩ := List.mem_iff_getElem?.mp h
      refine .inl (List.mem_append_left _ (List.mem_eraseIdx_iff_getElem?.mpr ⟨k, fun hki => ?_, hk⟩))
      rw [hki, hget] at hk
      exact ht (Option.some.inj hk)

/-- A step that promotes nobody leaves nothing new to announce. -/
theorem Node.announcing_of_step (h : n.step fl e = some (n', sends))
    (hpromotes : n.promotes e = false) (hannounces : .announcing ∈ n'.threads) : .announcing ∈ n.threads := by
  cases Node.step_cases fl h with
  | giveUpDiscovery | foundPrimary | request =>
    simpa using hannounces
  | @ran i t o hget houtcome =>
    cases List.mem_append.mp hannounces with
    | inl hold => exact List.mem_of_mem_eraseIdx hold
    | inr hnew =>
      cases Thread.step_cases fl houtcome with
      | promoted hfree hrole =>
        have hpromoted : n.promotes (.act (.runThread i)) = true := Node.promotes_iff.mpr ⟨hget, hrole⟩
        rw [hpromoted] at hpromotes
        contradiction
      | _ => simp at hnew
  | _ => exact hannounces

/-- A backup that is not promoted stays a backup. -/
theorem Node.backup_of_step (hbackup : n.server.currentRole = .backup)
    (hpromotes : n.promotes e = false) (h : n.step fl e = some (n', sends)) : n'.server.currentRole = .backup := by
  cases hrole : n'.server.currentRole with
  | backup => rfl
  | primary =>
    rcases (Node.step_effect fl h).promoted hrole with hbefore | hpromoted
    · rw [hbackup] at hbefore
      contradiction
    · rw [hpromoted] at hpromotes
      contradiction

/-- What is propagated of a request is an update. -/
theorem Server.propagateSuccess_isUpdate {s : Server} {sourceIp destIp : IpString} {status : TransactionStatus}
    {send : Send} (hsend : send ∈ s.propagateSuccess sourceIp destIp status) : send.packet.isUpdate = true := by
  simp only [Server.propagateSuccess] at hsend
  split at hsend
  · split at hsend
    · obtain ⟨b, -, rfl⟩ := List.mem_map.mp hsend
      rfl
    · contradiction
  · contradiction

/-- A registration is answered, and passed on as an update. -/
theorem Server.handleDiscoveryPacket_kind {s : Server} {clientAddr : SockAddr} {send : Send}
    (hsend : send ∈ (s.handleDiscoveryPacket fl clientAddr).2) :
    send.packet = .discoveryAck ∨ send.packet.isUpdate = true := by
  simp only [Server.handleDiscoveryPacket] at hsend
  split at hsend
  · cases List.mem_append.mp hsend with
    | inl hclient =>
      rw [Server.addClient_sends] at hclient
      split at hclient
      · obtain ⟨b, -, rfl⟩ := List.mem_map.mp hclient
        exact .inr rfl
      · contradiction
    | inr hack =>
      rw [List.mem_singleton.mp hack]
      exact .inl rfl
  · contradiction

/-- Whatever makes a server step down is an announcement. -/
theorem Packet.announces_of_demotes {packet : Packet} {serverId : Word} (h : packet.demotes serverId = true) :
    packet.announces = true := by
  cases packet with
  | newPrimaryAnnouncement value => rfl
  | _ => contradiction

/-- What a step may send: the announcement of a thread that is to send it, the registration of a
booted server, or something else. -/
inductive Node.Sends (n n' : Node) : Packet → Prop
  | announcement (hannouncing : .announcing ∈ n.threads) : n.Sends n' (.newPrimaryAnnouncement n.server.serverId)
  | registration (hbooted : ¬ n'.Booting) : n.Sends n' .registerBackup
  | other {packet : Packet} (hannounces : packet.announces = false) (hregisters : packet ≠ .registerBackup) :
    n.Sends n' packet

/-- An update is neither an announcement nor a registration. -/
theorem Node.Sends.update {packet : Packet} (h : packet.isUpdate = true) : n.Sends n' packet := by
  cases packet with
  | addClientUpdate data | stateUpdate data | addHistoryEntry tx => exact .other rfl nofun
  | _ => contradiction

/-- Every packet of every step. -/
theorem Node.step_sends (hsnapshots : n.Snapshots) (h : n.step fl e = some (n', sends)) {send : Send}
    (hsend : send ∈ sends) : n.Sends n' send.packet := by
  cases Node.step_cases fl h with
  | discover =>
    rw [List.eq_of_mem_replicate hsend]
    exact .other rfl (by simp)
  | foundPrimary =>
    rw [List.mem_singleton.mp hsend]
    exact .registration (by simp [Node.Booting])
  | client =>
    cases Server.handleDiscoveryPacket_kind hsend with
    | inl hack =>
      rw [hack]
      exact .other rfl (by simp)
    | inr hupdate => exact .update hupdate
  | serverDiscovery =>
    simp only [Server.sendDiscoveryAck] at hsend
    split at hsend
    · rw [List.mem_singleton.mp hsend]
      exact .other rfl (by simp)
    · contradiction
  | announcement hloop =>
    rw [Server.announcement_sends hsend]
    exact .registration (by simp [Node.Booting, hloop])
  | election =>
    rw [Server.election_sends hsend]
    exact .other rfl (by simp)
  | @sent backupAddr packet rest hloop =>
    rw [List.mem_singleton.mp hsend]
    exact .update (hsnapshots _ _ hloop packet (List.mem_cons_self ..))
  | @ran i t o hget houtcome =>
    cases Thread.step_cases fl houtcome with
    | announcing =>
      rw [List.mem_singleton.mp hsend]
      exact .announcement (List.mem_of_getElem? hget)
    | processing => exact .update (Server.propagateSuccess_isUpdate hsend)
    | replying =>
      rw [List.mem_singleton.mp hsend]
      exact .other rfl (by simp)
    | electionCleared =>
      rw [List.mem_singleton.mp hsend]
      exact .other rfl (by simp [Server.broadcastElection])
    | heartbeats =>
      obtain ⟨b, -, rfl⟩ := List.mem_map.mp hsend
      exact .other rfl (by simp)
    | _ => contradiction
  | _ => contradiction

/-- An announcement is sent by the thread that is to do so, and names its own server. -/
theorem Node.announcement_of_sends (hsnapshots : n.Snapshots) (h : n.step fl e = some (n', sends)) {send : Send}
    (hsend : send ∈ sends) (hannounces : send.packet.announces = true) :
    .announcing ∈ n.threads ∧ send.packet = .newPrimaryAnnouncement n.server.serverId := by
  cases hpacket : send.packet with
  | newPrimaryAnnouncement newLeaderId =>
    have hkind := Node.step_sends hsnapshots h hsend
    rw [hpacket] at hkind
    cases hkind with
    | announcement hannouncing => exact ⟨hannouncing, rfl⟩
    | other hnone => contradiction
  | _ =>
    rw [hpacket] at hannounces
    contradiction

/-- A server that asks to be registered has booted. -/
theorem Node.booted_of_registerBackup (hsnapshots : n.Snapshots) (h : n.step fl e = some (n', sends)) {send : Send}
    (hsend : send ∈ sends) (hpacket : send.packet = .registerBackup) : ¬ n'.Booting := by
  have hkind := Node.step_sends hsnapshots h hsend
  rw [hpacket] at hkind
  cases hkind with
  | registration hbooted => exact hbooted
  | other hannounces hregisters => exact absurd rfl hregisters

end

end BankReplica
