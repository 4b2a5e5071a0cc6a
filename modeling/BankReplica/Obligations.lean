import BankReplica.BackupList

/-!
# What a primary owes its backups

A primary that registers a backup owes it the snapshot, packet by packet, and a primary that
has executed a request owes every listed backup the update. Whatever it holds it has sent to
a listed backup or still owes it, and a booted backup handles every update it is sent before
anything else.
-/

namespace BankReplica

variable (fl : FloatRounding)

/-- The thread has executed a request and not passed it on yet. -/
def Thread.executed : Thread → Bool
  | .processing _ _ .success _ _ => true
  | _ => false

/-- What is left to be sent of a snapshot for an address. -/
def Loop.unsentTo (b : SockAddr) : Loop → List Packet
  | .registering backupAddr unsent => if backupAddr = b then unsent else []
  | _ => []

/-- The process has an update for a listed address still to send. -/
def Node.Owes (n : Node) (b : SockAddr) : Prop := n.loop.unsentTo b ≠ [] ∨ ∃ t ∈ n.threads, t.executed = true

instance (n : Node) (b : SockAddr) : Decidable (n.Owes b) :=
  inferInstanceAs (Decidable (_ ∨ ∃ t ∈ n.threads, _))

/-- The fact is in an update that the process has still to send to the address. -/
def Node.Owed (n : Node) (b : SockAddr) (f : Fact) : Prop :=
  (∃ packet ∈ n.loop.unsentTo b, f ∈ packet.facts) ∨
    (∃ t ∈ n.threads, t.executed = true) ∧ ∃ tx ∈ n.server.transactionHistory.getLast?, f = .logged tx

/-- What is owed is owed by somebody who owes. -/
theorem Node.Owed.owes {n : Node} {b : SockAddr} {f : Fact} (h : n.Owed b f) : n.Owes b :=
  h.imp (fun ⟨_, hpacket, _⟩ => List.ne_nil_of_mem hpacket) And.left

/-- A packet left of a snapshot. -/
theorem Loop.mem_unsentTo {loop : Loop} {b : SockAddr} {packet : Packet} (h : packet ∈ loop.unsentTo b) :
    ∃ unsent, loop = .registering b unsent ∧ packet ∈ unsent := by
  cases loop with
  | registering backupAddr unsent =>
    simp only [Loop.unsentTo] at h
    split at h
    · rename_i haddr
      exact ⟨unsent, haddr ▸ rfl, h⟩
    · contradiction
  | _ => contradiction

/-- A snapshot is of everything the ledger holds. -/
theorem Ledger.facts_snapshotPackets {l : Ledger} {f : Fact} (h : f ∈ l.facts) :
    ∃ packet ∈ l.snapshotPackets, f ∈ packet.facts := by
  cases f with
  | logged tx =>
    refine ⟨.addHistoryEntry tx, List.mem_append_right _ (List.mem_map_of_mem ?_), List.mem_singleton_self _⟩
    exact Ledger.logged_mem_facts.mp h
  | registered ip =>
    obtain ⟨c, hc, rfl⟩ := List.mem_map.mp (Ledger.registered_mem_facts.mp h)
    refine ⟨clientUpdatePacket c, List.mem_append_left _ (List.mem_map_of_mem hc), ?_⟩
    simp [clientUpdatePacket, Packet.facts]

/-- A registration adds one fact. -/
theorem Ledger.mem_facts_register {l : Ledger} {ip : IpString} {f : Fact} (h : f ∈ (l.register fl ip).facts) :
    f ∈ l.facts ∨ f = .registered ip := by
  cases f with
  | logged tx =>
    have hlogged := Ledger.logged_mem_facts.mp h
    exact .inl (Ledger.logged_mem_facts.mpr hlogged)
  | registered known =>
    have hknown := Ledger.registered_mem_facts.mp h
    rw [Ledger.register_addresses] at hknown
    cases List.mem_append.mp hknown with
    | inl hold => exact .inl (Ledger.registered_mem_facts.mpr hold)
    | inr hnew => exact .inr (congrArg Fact.registered (List.mem_singleton.mp hnew))

/-- An execution adds the transaction it logs last. -/
theorem Ledger.mem_facts_commit {l : Ledger} {sourceIp destIp : IpString} {value seqn : ℤ} {f : Fact}
    (h : f ∈ (l.commit fl sourceIp destIp value seqn).facts) :
    f ∈ l.facts ∨ ∃ tx ∈ (l.commit fl sourceIp destIp value seqn).transactionHistory.getLast?, f = .logged tx := by
  cases f with
  | logged tx =>
    have hlogged := Ledger.logged_mem_facts.mp h
    rw [Ledger.commit_transactionHistory] at hlogged ⊢
    cases List.mem_append.mp hlogged with
    | inl hold => exact .inl (Ledger.logged_mem_facts.mpr hold)
    | inr hnew =>
      refine .inr ⟨_, ?_, congrArg Fact.logged (List.mem_singleton.mp hnew)⟩
      simp
  | registered ip =>
    have hknown := Ledger.registered_mem_facts.mp h
    rw [Ledger.commit_addresses] at hknown
    exact .inl (Ledger.registered_mem_facts.mpr hknown)

/-- An executed transaction is passed on to every listed backup. -/
theorem Server.propagateSuccess_carries {s : Server} (hrole : s.currentRole = .primary) {sourceIp destIp : IpString}
    (hsource : .registered sourceIp ∈ s.facts) (hdest : .registered destIp ∈ s.facts) {tx : Transaction}
    (hlast : tx ∈ s.transactionHistory.getLast?) {b : SockAddr} (hb : b ∈ s.backupServers) :
    ∃ send ∈ s.propagateSuccess sourceIp destIp .success, send.dest = b ∧ .logged tx ∈ send.packet.facts := by
  obtain ⟨source, hfrom⟩ :=
    Option.isSome_iff_exists.mp (Ledger.account_isSome.mpr (Ledger.registered_mem_facts.mp hsource))
  obtain ⟨dest, hto⟩ :=
    Option.isSome_iff_exists.mp (Ledger.account_isSome.mpr (Ledger.registered_mem_facts.mp hdest))
  simp only [Server.propagateSuccess, hrole, and_self, if_true, Ledger.getElem?_findClient, hfrom, hto,
    Option.mem_def.mp hlast]
  exact ⟨_, List.mem_map_of_mem hb, rfl, by simp [stateUpdatePacket, Packet.facts]⟩

section

variable {fl} {n n' : Node} {e : NodeEvent} {sends : List Send} {b : SockAddr} {f : Fact}

/-- While a thread holds the lock the log stays as it is. -/
theorem Node.history_of_locked (hlocked : n.locked = true) (h : n.step fl e = some (n', sends)) :
    n'.server.transactionHistory = n.server.transactionHistory := by
  cases Node.step_cases fl h with
  | client _ _ hfree | backup _ _ hfree | updated _ hfree =>
    rw [hlocked] at hfree
    contradiction
  | heartbeat => rw [n.server.handleHeartbeatPacket_sameCore.ledger]
  | announcement => rw [Server.handleNewPrimaryAnnouncementPacket_toLedger]
  | @election senderId sender => rw [(n.server.handleElectionPacket_sameCore senderId sender).ledger]
  | @electionAnswer senderId sender => rw [(n.server.handleElectionAnswerPacket_sameCore senderId).ledger]
  | @ran i t o hget houtcome =>
    rcases Thread.step_toLedger fl houtcome with hkept | ⟨req, clientAddr, rfl, -⟩
    · exact congrArg Ledger.transactionHistory hkept
    · rw [hlocked] at houtcome
      contradiction
  | _ => rfl

/-- What a primary owes a listed backup it sends to it, or still owes it. -/
theorem Node.owed_step (hprimary : n.server.currentRole = .primary)
    (hsettled : ∀ t ∈ n.threads, t.Settled n.server) (h : n.step fl e = some (n', sends))
    (hb : b ∈ n.server.backupServers) (howed : n.Owed b f) :
    n'.Owed b f ∨ ∃ send ∈ sends, send.dest = b ∧ f ∈ send.packet.facts := by
  rcases howed with ⟨packet, hpacket, hf⟩ | ⟨⟨t, ht, hexecuted⟩, tx, htx, rfl⟩
  · obtain ⟨unsent, hunsent, hmem⟩ := Loop.mem_unsentTo hpacket
    cases Node.step_cases fl h with
    | @sent backupAddr first rest hloop =>
      obtain ⟨rfl, rfl⟩ := Loop.registering.inj (hunsent.symm.trans hloop)
      cases List.mem_cons.mp hmem with
      | inl hfirst => exact .inr ⟨_, List.mem_singleton_self _, rfl, hfirst ▸ hf⟩
      | inr hrest =>
        refine .inl (.inl ⟨packet, ?_, hf⟩)
        simpa [Loop.unsentTo] using hrest
    | registered hloop =>
      obtain ⟨rfl, rfl⟩ := Loop.registering.inj (hunsent.symm.trans hloop)
      contradiction
    | ran => exact .inl (.inl ⟨packet, hpacket, hf⟩)
    | discover hloop | giveUpDiscovery hloop | foundPrimary hloop | ignored hloop | dropped hloop | request hloop
        | client hloop | backup hloop | heartbeat hloop | serverDiscovery hloop | announcement hloop | election hloop
        | electionAnswer hloop | update hloop | updated hloop =>
      rw [hunsent] at hloop
      contradiction
  · -- the thread that executed it holds the lock until it has passed it on
    have hholds : t.holdsLock = true := by
      cases t with
      | processing => rfl
      | _ => contradiction
    have hlocked : n.locked = true := List.any_eq_true.mpr ⟨t, ht, hholds⟩
    have hhistory := Node.history_of_locked hlocked h
    have hstays : t ∈ n'.threads → n'.Owed b (.logged tx) := fun hmem =>
      .inr ⟨⟨t, hmem, hexecuted⟩, tx, hhistory ▸ htx, rfl⟩
    cases Node.step_course fl h with
    | heard new hruns hthreads =>
      rw [hthreads] at hstays
      exact .inl (hstays (List.mem_append_left _ ht))
    | @ran i t' o hevent hget hstep hserver hthreads hloop hsends =>
      by_cases hsame : t' = t
      · subst hsame
        cases Thread.step_cases fl hstep with
        | @processing req clientAddr status balance receipt =>
          have hsuccess : status = .success := by
            cases status with
            | success => rfl
            | _ => contradiction
          subst hsuccess
          obtain ⟨hsource, hdest, -⟩ := hsettled _ ht
          rw [hsends]
          exact .inr (Server.propagateSuccess_carries hprimary hsource hdest htx hb)
        | _ => contradiction
      · rw [hthreads] at hstays
        obtain ⟨k, hk⟩ := List.mem_iff_getElem?.mp ht
        refine .inl (hstays (List.mem_append_left _ (List.mem_eraseIdx_iff_getElem?.mpr ⟨k, fun hki => ?_, hk⟩)))
        rw [hki, hget] at hk
        exact hsame (Option.some.inj hk)

/-- What a primary newly holds, or lists a backup for, it sends to it or owes it. -/
theorem Node.owed_of_new (hprimary : n.server.currentRole = .primary) (h : n.step fl e = some (n', sends))
    (hb : b ∈ n'.server.backupServers) (hf : f ∈ n'.server.facts) :
    (b ∈ n.server.backupServers ∧ (f ∈ n.server.facts ∨ f ∈ n.loop.pending)) ∨ n'.Owed b f ∨
      ∃ send ∈ sends, send.dest = b ∧ f ∈ send.packet.facts := by
  cases Node.step_cases fl h with
  | @backup sender hloop hrole hfree =>
    cases List.mem_append.mp hb with
    | inl hold => exact .inl ⟨hold, .inl hf⟩
    | inr hnew =>
      obtain rfl := List.mem_singleton.mp hnew
      obtain ⟨packet, hpacket, hfact⟩ := Ledger.facts_snapshotPackets hf
      refine .inr (.inl (.inl ⟨packet, ?_, hfact⟩))
      simpa [Loop.unsentTo, Server.registerBackup] using hpacket
  | @client sender hloop hrole hfree =>
    have hlisted : b ∈ n.server.backupServers := by
      simp only [Server.handleDiscoveryPacket, if_pos hrole] at hb
      rwa [(n.server.addClient_frame fl _).2] at hb
    simp only [Server.handleDiscoveryPacket_toLedger, if_pos hrole, Ledger.apply] at hf
    split at hf
    · exact .inl ⟨hlisted, .inl hf⟩
    · rename_i hnew
      cases Ledger.mem_facts_register fl hf with
      | inl hheld => exact .inl ⟨hlisted, .inl hheld⟩
      | inr hfact =>
        refine .inr (.inr ⟨⟨b, clientUpdatePacket (.new (inetNtop sender.sinAddr))⟩, ?_, rfl, ?_⟩)
        · simp only [Server.handleDiscoveryPacket, if_pos hrole, Server.addClient_sends, if_pos (And.intro hnew hrole)]
          exact List.mem_append_left _ (List.mem_map_of_mem hlisted)
        · simp [clientUpdatePacket, Packet.facts, ClientDTO.new, hfact]
  | heartbeat =>
    have hsame := n.server.handleHeartbeatPacket_sameCore
    exact .inl ⟨hsame.backups ▸ hb, .inl (hsame.ledger ▸ hf)⟩
  | @announcement newLeaderId sender =>
    by_cases hother : newLeaderId = n.server.serverId
    · subst hother
      have hsame := n.server.handleNewPrimaryAnnouncementPacket_own sender
      exact .inl ⟨hsame.backups ▸ hb, .inl (hsame.ledger ▸ hf)⟩
    · simp [Server.handleNewPrimaryAnnouncementPacket, hother] at hb
  | @election senderId sender =>
    have hsame := n.server.handleElectionPacket_sameCore senderId sender
    exact .inl ⟨hsame.backups ▸ hb, .inl (hsame.ledger ▸ hf)⟩
  | @electionAnswer senderId sender =>
    have hsame := n.server.handleElectionAnswerPacket_sameCore senderId
    exact .inl ⟨hsame.backups ▸ hb, .inl (hsame.ledger ▸ hf)⟩
  | @updated packet hloop =>
    rw [Server.handleUpdate_backupServers] at hb
    simp only [Server.handleUpdate_toLedger] at hf
    refine .inl ⟨hb, (Ledger.mem_facts_receive fl).mp hf |>.imp_right fun hpacket => ?_⟩
    rw [hloop]
    exact hpacket
  | @ran i t o hget houtcome =>
    cases Thread.step_cases fl houtcome with
    | @request req clientAddr server status balance hfree hserved =>
      by_cases hverdict : n.server.verdict fl (inetNtop clientAddr.sinAddr) (inetNtop req.destAddr)
          req.value.toInt req.seqn.toInt = .success
      · rw [Server.handleTransactionLogic_accept fl hverdict] at hserved
        obtain ⟨rfl, hreply⟩ := Prod.mk.inj hserved
        obtain ⟨rfl, -⟩ := Prod.mk.inj hreply
        cases Ledger.mem_facts_commit fl hf with
        | inl hheld => exact .inl ⟨hb, .inl hheld⟩
        | inr hlogged =>
          exact .inr (.inl (.inr ⟨⟨_, List.mem_append_right _ (List.mem_singleton_self _), rfl⟩, hlogged⟩))
      · obtain ⟨log, hlog⟩ := Server.handleTransactionLogic_reject fl hverdict
        rw [hlog] at hserved
        obtain ⟨rfl, -⟩ := Prod.mk.inj hserved
        exact .inl ⟨hb, .inl hf⟩
    | @processing req clientAddr status balance receipt =>
      cases hnotify : shouldNotify status <;> simp only [hnotify, if_true, Bool.false_eq_true, if_false] at hb hf
      · exact .inl ⟨hb, .inl hf⟩
      · exact .inl ⟨hb, .inl hf⟩
    | promoted hfree hrole =>
      rw [hprimary] at hrole
      contradiction
    | _ => exact .inl ⟨hb, .inl hf⟩
  | _ => exact .inl ⟨hb, .inl hf⟩

/-! ## What a backup does with its updates -/

/-- The process holds the fact, or is in the middle of handling an update with it. -/
def Node.Received (n : Node) (f : Fact) : Prop :=
  f ∈ n.server.facts ∨ ∃ packet, n.loop = .updating packet ∧ f ∈ packet.facts

/-- What is received is handled before anything else is. -/
theorem Node.Received.step (hreceived : n.Received f) (h : n.step fl e = some (n', sends)) : n'.Received f := by
  rcases hreceived with hheld | ⟨packet, hloop, hf⟩
  · exact .inl ((Node.step_effect fl h).grows hheld)
  · cases Node.step_cases fl h with
    | @updated handled hloop' =>
      obtain rfl := Loop.updating.inj (hloop.symm.trans hloop')
      refine .inl ?_
      simp only [Server.handleUpdate_toLedger]
      exact (Ledger.mem_facts_receive fl).mpr (.inr hf)
    | ran => exact .inr ⟨packet, hloop, hf⟩
    | discover hloop' | giveUpDiscovery hloop' | foundPrimary hloop' | ignored hloop' | dropped hloop'
        | request hloop' | client hloop' | backup hloop' | heartbeat hloop' | serverDiscovery hloop'
        | announcement hloop' | election hloop' | electionAnswer hloop' | update hloop' | sent hloop'
        | registered hloop' =>
      rw [hloop] at hloop'
      contradiction

/-- A booted backup takes every update in. -/
theorem Node.takes_update (hbooted : ¬ n.Booting) (hbackup : n.server.currentRole = .backup) {packet : Packet}
    {sender : SockAddr} (hf : f ∈ packet.facts) (h : n.step fl (.receive packet sender) = some (n', sends)) :
    n'.Received f := by
  cases Node.step_cases fl h with
  | update => exact .inr ⟨packet, rfl, hf⟩
  | ignored hloop => exact absurd (.inr hloop) hbooted
  | dropped hloop hheeded =>
    rw [hbackup] at hheeded
    cases packet with
    | addClientUpdate data | stateUpdate data | addHistoryEntry tx => contradiction
    | _ => contradiction
  | _ => contradiction

/-- A backup without requests creates nothing. -/
theorem Node.not_creates (hbackup : n.server.currentRole = .backup) (hidle : ∀ t ∈ n.threads, t.call = none) :
    ¬ n.Creates fl e := by
  rintro ⟨call, hcall, -⟩
  cases e with
  | receive packet sender =>
    cases packet with
    | discovery => simp [Node.call, hbackup] at hcall
    | _ => contradiction
  | act action =>
    cases action with
    | runThread i =>
      obtain ⟨t, ht, hmade⟩ := Option.bind_eq_some_iff.mp hcall
      rw [hidle t (List.mem_of_getElem? ht)] at hmade
      contradiction
    | _ => contradiction

/-- A backup takes no requests. -/
theorem Node.idle_step (hbackup : n.server.currentRole = .backup) (hidle : ∀ t ∈ n.threads, t.call = none)
    (h : n.step fl e = some (n', sends)) : ∀ t ∈ n'.threads, t.call = none := by
  cases Node.step_cases fl h with
  | request hloop hrole =>
    rw [hbackup] at hrole
    contradiction
  | giveUpDiscovery | foundPrimary =>
    intro t ht
    cases List.mem_append.mp ht with
    | inl hold => exact hidle t hold
    | inr hnew =>
      rw [List.mem_singleton.mp hnew]
      rfl
  | @ran i t o hget houtcome =>
    intro t' ht'
    cases List.mem_append.mp ht' with
    | inl hold => exact hidle t' (List.mem_of_mem_eraseIdx hold)
    | inr hnew =>
      cases Thread.step_cases fl houtcome <;> simp at hnew <;> rcases hnew with rfl | rfl <;> rfl
  | _ => exact hidle

end

end BankReplica
