import BankReplica.Effects
import BankReplica.Library.Runs
import Mathlib.Data.List.Perm.Basic

/-!
# Failure detection on one server

A heartbeat monitor that times out becomes an election, an election that is lost becomes a
monitor, and one that is won ends in a promotion, so a server never runs more than one of
them and a primary runs none. An announcement of another server makes its receiver a backup
without starting a monitor: a backup keeps its one activity, and a primary that is demoted
is left without any, for good.
-/

namespace BankReplica

open Runs

variable (fl : FloatRounding)

/-- The thread watches the primary, or holds an election that ends in a promotion or in
watching again. -/
def Thread.detects : Thread → Bool
  | .electionDelay | .electionRaised | .electionCleared | .electionWindow | .electionClosed | .promoting
  | .monitorHead | .monitorWaiting => true
  | _ => false

/-- The number of failure-detection activities. -/
def Node.detections (n : Node) : ℕ := n.threads.countP Thread.detects

/-- A process before `init`. -/
def Node.Fresh (n : Node) : Prop := n = Node.new n.server.serverId n.server.port

/-- Another server's announcement is handled by a backup. -/
def PrimaryKept (n : Node) (e : NodeEvent) : Prop :=
  e.demotes n.server.serverId = true → n.server.currentRole = .backup

instance (n : Node) (e : NodeEvent) : Decidable (PrimaryKept n e) :=
  inferInstanceAs (Decidable (_ → _))

/-- One step of the process, without what it sends. -/
def Node.move (n : Node) (e : NodeEvent) : Option Node := (n.step fl e).map Prod.fst

/-! ## What a step does to the activities -/

instance (n : Node) : Decidable n.Booting := inferInstanceAs (Decidable (_ ∨ _))

/-- What a step of a thread does to role and activities. -/
inductive Thread.Shift (s : Server) (t : Thread) (o : ThreadOutcome) : Prop
  | same (hrole : o.server.currentRole = s.currentRole)
      (hcount : o.threads.countP Thread.detects = if t.detects then 1 else 0)
  | promoted (ht : t.detects = true) (hbefore : s.currentRole = .backup) (hrole : o.server.currentRole = .primary)
      (hcount : o.threads.countP Thread.detects = 0)
  | stopped (ht : t.detects = true) (hbefore : s.currentRole = .primary) (hrole : o.server.currentRole = .primary)
      (hcount : o.threads.countP Thread.detects = 0)

/-- Every step of a thread. -/
theorem Thread.step_shift {s : Server} {locked : Bool} {t : Thread} {o : ThreadOutcome}
    (h : t.step fl s locked = some o) : t.Shift s o := by
  cases Thread.step_cases fl h with
  | @request req clientAddr server status balance hfree hserved =>
    obtain ⟨ledger, log, rfl⟩ := Server.served_frame fl hserved
    exact .same rfl rfl
  | processing =>
    refine .same ?_ rfl
    simp only
    split <;> rfl
  | promoted hfree hrole => exact .promoted rfl hrole rfl rfl
  | alreadyPrimary hfree hrole => exact .stopped rfl hrole hrole rfl
  | monitorLeft hrole => exact .stopped rfl hrole hrole rfl
  | _ => exact .same rfl rfl

/-- What a step of a process does to role and activities. -/
inductive Node.Shift (n : Node) (e : NodeEvent) (n' : Node) : Prop
  | same (hboot : n'.Booting ↔ n.Booting) (hrole : n'.server.currentRole = n.server.currentRole)
      (hcount : n'.detections = n.detections)
  | booted (hboot : n.Booting) (hbooted : ¬ n'.Booting) (hrole : n'.server.currentRole = .backup)
      (hcount : n'.detections = n.detections + 1)
  | demoted (hother : e.demotes n.server.serverId = true) (hloop : n.loop = .receiving) (hbooted : ¬ n'.Booting)
      (hrole : n'.server.currentRole = .backup) (hcount : n'.detections = n.detections)
  | promoted (hboot : n'.Booting ↔ n.Booting) (hbefore : n.server.currentRole = .backup)
      (hrole : n'.server.currentRole = .primary) (hcount : n'.detections + 1 = n.detections)
  | stopped (hboot : n'.Booting ↔ n.Booting) (hbefore : n.server.currentRole = .primary)
      (hrole : n'.server.currentRole = .primary) (hcount : n'.detections + 1 = n.detections)

/-- A packet handled in the receive loop that changes neither role nor activities. -/
theorem Node.Shift.handled {n n' : Node} {e : NodeEvent} (hloop : n.loop = .receiving) (hbooted : ¬ n'.Booting)
    (hrole : n'.server.currentRole = n.server.currentRole) (hcount : n'.detections = n.detections) :
    n.Shift e n' := by
  refine .same ⟨fun h => absurd h hbooted, fun h => ?_⟩ hrole hcount
  simp [Node.Booting, hloop] at h

/-- A thread that is replaced by others, counted. -/
theorem countP_replaced {α : Type*} (p : α → Bool) {l : List α} {i : ℕ} {a : α} (h : l[i]? = some a)
    (new : List α) : (l.eraseIdx i ++ new).countP p + (if p a then 1 else 0) = l.countP p + new.countP p := by
  obtain ⟨hi, rfl⟩ := List.getElem?_eq_some_iff.mp h
  have hperm := List.Perm.countP_eq p (List.getElem_cons_eraseIdx_perm hi)
  rw [List.countP_cons] at hperm
  rw [List.countP_append]
  omega

/-- A step of a detached thread. -/
theorem Node.Shift.ran {n : Node} {i : ℕ} {t : Thread} {o : ThreadOutcome} (ht : n.threads[i]? = some t)
    (houtcome : t.step fl n.server n.locked = some o) :
    n.Shift (.act (.runThread i))
      { n with
        server := o.server
        threads := n.threads.eraseIdx i ++ o.threads
        acked := n.acked ++ o.acked.toList } := by
  have hreplaced := countP_replaced Thread.detects ht o.threads
  cases Thread.step_shift fl houtcome with
  | same hrole hcount => exact .same Iff.rfl hrole (by simp only [Node.detections]; omega)
  | promoted hdetects hbefore hrole hcount =>
    rw [hdetects, if_pos rfl] at hreplaced
    exact .promoted Iff.rfl hbefore hrole (by simp only [Node.detections]; omega)
  | stopped hdetects hbefore hrole hcount =>
    rw [hdetects, if_pos rfl] at hreplaced
    exact .stopped Iff.rfl hbefore hrole (by simp only [Node.detections]; omega)

/-- Every step of a process. -/
theorem Node.step_shift {n n' : Node} {e : NodeEvent} {sends : List Send}
    (h : n.step fl e = some (n', sends)) : n.Shift e n' := by
  have hbooted : n.loop = .receiving → ¬ n.Booting := fun hloop => by simp [Node.Booting, hloop]
  cases Node.step_cases fl h with
  | discover hloop => exact .same (by simp [Node.Booting, hloop]) rfl rfl
  | giveUpDiscovery hloop =>
    exact .booted (.inr hloop) (by simp [Node.Booting]) rfl (by simp [Node.detections, Thread.detects])
  | foundPrimary hloop =>
    exact .booted (.inr hloop) (by simp [Node.Booting]) rfl (by simp [Node.detections, Thread.detects])
  | ignored hloop hpacket => exact .same Iff.rfl rfl rfl
  | dropped hloop hheeded => exact .handled hloop (hbooted hloop) rfl rfl
  | request hloop hrole =>
    exact .handled hloop (hbooted hloop) rfl (by simp [Node.detections, Thread.detects])
  | @client sender hloop hrole hfree =>
    exact .handled hloop (hbooted hloop) (n.server.handleDiscoveryPacket_role fl sender) rfl
  | backup hloop hrole hfree => exact .handled hloop (by simp [Node.Booting]) rfl rfl
  | heartbeat hloop => exact .handled hloop (hbooted hloop) n.server.handleHeartbeatPacket_sameCore.role rfl
  | serverDiscovery hloop => exact .handled hloop (hbooted hloop) rfl rfl
  | @announcement newLeaderId sender hloop =>
    by_cases hother : newLeaderId = n.server.serverId
    · refine .handled hloop (hbooted hloop) ?_ rfl
      rw [hother]
      exact (n.server.handleNewPrimaryAnnouncementPacket_own sender).role
    · exact .demoted (decide_eq_true hother) hloop (hbooted hloop)
        (Server.handleNewPrimaryAnnouncementPacket_other hother sender).1 rfl
  | @election senderId sender hloop =>
    exact .handled hloop (hbooted hloop) (n.server.handleElectionPacket_sameCore senderId sender).role rfl
  | @electionAnswer senderId sender hloop =>
    exact .handled hloop (hbooted hloop) (n.server.handleElectionAnswerPacket_sameCore senderId).role rfl
  | update hloop hupdate hrole => exact .handled hloop (by simp [Node.Booting]) rfl rfl
  | @updated packet hloop hfree =>
    exact .same (by simp [Node.Booting, hloop]) (n.server.handleUpdate_role fl packet) rfl
  | sent hloop => exact .same (by simp [Node.Booting, hloop]) rfl rfl
  | registered hloop => exact .same (by simp [Node.Booting, hloop]) rfl rfl
  | ran hget houtcome => exact .ran fl hget houtcome

/-! ## One activity on every backup -/

/-- A booted backup without any activity. -/
def Node.Blind (n : Node) : Prop :=
  ¬ n.Booting ∧ n.server.currentRole = .backup ∧ n.detections = 0

/-- A process runs at most one activity, and none as a primary or while it boots. -/
structure Node.Watch (n : Node) : Prop where
  vouched : n.Vouched
  single : n.detections ≤ 1
  primary : n.server.currentRole = .primary → n.detections = 0

/-- While a process boots it runs no activity. -/
theorem Node.Watch.booting {n : Node} (h : n.Watch) (hboot : n.Booting) :
    n.detections = 0 ∧ n.server.currentRole = .backup := by
  obtain ⟨hthreads, hrole⟩ := h.vouched.booting hboot
  exact ⟨by simp [Node.detections, hthreads], hrole⟩

/-- A server that detects failures is a booted backup. -/
theorem Node.Watch.backup {n : Node} (h : n.Watch) (hdetects : n.detections ≠ 0) :
    ¬ n.Booting ∧ n.server.currentRole = .backup := by
  refine ⟨fun hboot => hdetects (h.booting hboot).1, ?_⟩
  cases hrole : n.server.currentRole with
  | backup => rfl
  | primary => exact absurd (h.primary hrole) hdetects

/-- A booted server that detects failures did so before. -/
theorem Node.Shift.detects {n n' : Node} {e : NodeEvent} (h : n.Shift e n') (hbooted : ¬ n.Booting)
    (hdetects : n'.detections ≠ 0) : n.detections ≠ 0 := by
  cases h with
  | booted hboot => exact absurd hboot hbooted
  | same | demoted | promoted | stopped => omega

/-- A process before `init` runs no activity. -/
theorem Node.Fresh.watch {n : Node} (h : n.Fresh) : n.Watch := by
  rw [h]
  exact ⟨Node.new_vouched _ _, Nat.zero_le 1, fun _ => rfl⟩

/-- No step starts a second activity. -/
theorem Node.Watch.step {n n' : Node} {e : NodeEvent} {sends : List Send} (h : n.Watch)
    (hstep : n.step fl e = some (n', sends)) : n'.Watch := by
  have hsingle := h.single
  have hvouched := h.vouched.step fl (Node.step_effect fl hstep)
  cases Node.step_shift fl hstep with
  | same hboot hrole hcount =>
    refine ⟨hvouched, by omega, fun hprimary => ?_⟩
    rw [hcount]
    exact h.primary (hrole ▸ hprimary)
  | booted hboot hbooted hrole hcount =>
    have hnone := (h.booting hboot).1
    exact ⟨hvouched, by omega, by simp [hrole]⟩
  | demoted hother hloop hbooted hrole hcount => exact ⟨hvouched, by omega, by simp [hrole]⟩
  | promoted hboot hbefore hrole hcount => exact ⟨hvouched, by omega, fun _ => by omega⟩
  | stopped hboot hbefore hrole hcount =>
    have hnone := h.primary hbefore
    omega

/-- A booted backup without any activity stays one. -/
theorem Node.Blind.step {n n' : Node} {e : NodeEvent} (h : n.Blind) (hshift : n.Shift e n') : n'.Blind := by
  obtain ⟨hbooted, hbackup, hnone⟩ := h
  cases hshift with
  | same hboot hrole hcount =>
    exact ⟨fun hbooting => hbooted (hboot.mp hbooting), hrole.trans hbackup, hcount.trans hnone⟩
  | booted hboot => exact absurd hboot hbooted
  | demoted hother hloop hbooted' hrole hcount => exact ⟨hbooted', hrole, hcount.trans hnone⟩
  | promoted hboot hbefore hrole hcount => omega
  | stopped hboot hbefore hrole hcount => omega

/-- A step that demotes no primary does not take the last activity of a backup. -/
theorem Node.Shift.sees {n n' : Node} {e : NodeEvent} (hshift : n.Shift e n') (hsees : ¬ n.Blind)
    (hguard : PrimaryKept n e) : ¬ n'.Blind := by
  rintro ⟨hbooted, hbackup, hnone⟩
  cases hshift with
  | same hboot hrole hcount =>
    exact hsees ⟨fun hbooting => hbooted (hboot.mpr hbooting), hrole.symm.trans hbackup, hcount.symm.trans hnone⟩
  | booted hboot hbooted' hrole hcount => omega
  | demoted hother hloop hbooted' hrole hcount =>
    exact hsees ⟨by simp [Node.Booting, hloop], hguard hother, hcount.symm.trans hnone⟩
  | promoted hboot hbefore hrole hcount =>
    rw [hbackup] at hrole
    contradiction
  | stopped hboot hbefore hrole hcount =>
    rw [hbackup] at hrole
    contradiction

/-- A step that demotes a primary leaves a backup without any activity. -/
theorem Node.Watch.blinded {n n' : Node} {e : NodeEvent} {sends : List Send} (h : n.Watch)
    (hstep : n.step fl e = some (n', sends)) (hguard : ¬ PrimaryKept n e) : n'.Blind := by
  obtain ⟨hother, hnotBackup⟩ := Classical.not_imp.mp hguard
  have hprimary : n.server.currentRole = .primary := by
    cases hrole : n.server.currentRole with
    | primary => rfl
    | backup => exact absurd hrole hnotBackup
  have hbackup := h.vouched.demoted_step fl hother hstep
  cases Node.step_shift fl hstep with
  | same hboot hrole hcount =>
    rw [hbackup, hprimary] at hrole
    contradiction
  | booted hboot hbooted hrole hcount =>
    rw [(h.booting hboot).2] at hprimary
    contradiction
  | demoted hother' hloop hbooted hrole hcount => exact ⟨hbooted, hrole, hcount.trans (h.primary hprimary)⟩
  | promoted hboot hbefore hrole hcount | stopped hboot hbefore hrole hcount =>
    rw [hbackup] at hrole
    contradiction

/-- A step of a process and what it sent. -/
theorem Node.move_eq {n n' : Node} {e : NodeEvent} (h : n.move fl e = some n') :
    ∃ sends, n.step fl e = some (n', sends) := by
  obtain ⟨⟨node, sends⟩, hstep, rfl⟩ := Option.map_eq_some_iff.mp h
  exact ⟨sends, hstep⟩

/-- In every run a process runs at most one activity. -/
theorem Node.watch {guard : Node → NodeEvent → Prop} {n : Node}
    (h : Reachable (Node.move fl) guard Node.Fresh n) : n.Watch := by
  refine h.invariant (fun n hn => hn.watch) fun n e n' hwatch _ hmove => ?_
  obtain ⟨sends, hstep⟩ := Node.move_eq fl hmove
  exact hwatch.step fl hstep

/-- In every run that demotes no primary, no booted backup is without an activity. -/
theorem Node.sees_of_primaryKept {n : Node} (h : Reachable (Node.move fl) PrimaryKept Node.Fresh n) :
    ¬ n.Blind := by
  refine Reachable.invariant (I := fun n => ¬ n.Blind) ?_ ?_ h
  · intro n hn hblind
    rw [hn] at hblind
    exact hblind.1 (.inl rfl)
  · intro n e n' hsees hguard hmove
    obtain ⟨sends, hstep⟩ := Node.move_eq fl hmove
    exact (Node.step_shift fl hstep).sees hsees hguard

/-- Every run demotes no primary, or ends in a booted backup without any activity. -/
theorem Node.primaryKept_or_blind {n : Node} (h : Reachable (Node.move fl) Always Node.Fresh n) :
    Reachable (Node.move fl) PrimaryKept Node.Fresh n ∨ n.Blind := by
  induction h with
  | init hn => exact .inl (.init hn)
  | @step n n' e hreach _ hmove ih =>
    obtain ⟨sends, hstep⟩ := Node.move_eq fl hmove
    cases ih with
    | inr hblind => exact .inr (hblind.step (Node.step_shift fl hstep))
    | inl hkept =>
      by_cases hguard : PrimaryKept n e
      · exact .inl (.step hkept hguard hmove)
      · exact .inr ((Node.watch fl hreach).blinded fl hstep hguard)

/-- A booted backup runs exactly one failure-detection activity if and only if it was reached
without ever taking in another server's announcement as a primary. -/
theorem backup_detects_iff {n : Node} (h : Reachable (Node.move fl) Always Node.Fresh n)
    (hbooted : ¬ n.Booting) (hbackup : n.server.currentRole = .backup) :
    n.detections = 1 ↔ Reachable (Node.move fl) PrimaryKept Node.Fresh n := by
  have hsingle := (Node.watch fl h).single
  constructor
  · intro hone
    refine (Node.primaryKept_or_blind fl h).resolve_right fun hblind => ?_
    have hnone := hblind.2.2
    omega
  · intro hkept
    have hsome : n.detections ≠ 0 := fun hnone =>
      Node.sees_of_primaryKept fl hkept ⟨hbooted, hbackup, hnone⟩
    omega

/-! ## Two runs of one server -/

/-- A server finds no primary and opens its election window. -/
def electionHeld : List NodeEvent :=
  [.act .discover, .act .giveUpDiscovery] ++ List.replicate 3 (.act (.runThread 0))

/-- A server that loses its election to a larger id watches the winner. -/
theorem backup_detects_after_lost_election :
    ∃ n : Node, n.threads = [.monitorHead] ∧ n.detections = 1 := by
  obtain ⟨n, hreach, htest⟩ := exists_reachable_of_replay (Node.move singlePrecision) PrimaryKept Node.Fresh
    (s := Node.new 2 4000)
    (electionHeld ++ [.receive (.electionAnswer 3) (testHost 3), .act (.runThread 0), .act (.runThread 0)])
    (fun n => decide (n.threads = [.monitorHead] ∧ ¬ n.Booting ∧ n.server.currentRole = .backup))
    rfl (by decide +kernel)
  obtain ⟨hthreads, hbooted, hbackup⟩ := of_decide_eq_true htest
  exact ⟨n, hthreads, (backup_detects_iff singlePrecision (hreach.weaken fun _ _ _ => trivial) hbooted
    hbackup).mpr hreach⟩

/-- A primary that takes in the announcement of a rival is a backup that watches nobody. -/
theorem demoted_primary_is_blind :
    ∃ n, Reachable (Node.move singlePrecision) Always Node.Fresh n ∧ ¬ n.Booting ∧
      n.server.currentRole = .backup ∧ n.detections ≠ 1 := by
  obtain ⟨n, hreach, htest⟩ := exists_reachable_of_replay (Node.move singlePrecision) Always Node.Fresh
    (s := Node.new 2 4000)
    (electionHeld ++ List.replicate 3 (.act (.runThread 0)) ++ [.receive (.newPrimaryAnnouncement 3) (testHost 3)])
    (fun n => decide (¬ n.Booting ∧ n.server.currentRole = .backup ∧ n.detections ≠ 1))
    rfl (by decide +kernel)
  exact ⟨n, hreach, of_decide_eq_true htest⟩

end BankReplica
