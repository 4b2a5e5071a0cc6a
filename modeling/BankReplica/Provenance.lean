import BankReplica.ClientReports
import BankReplica.Deployment

/-!
# What a server may hold and say

A standard fixes what log entries and client records may say, which requests may be taken in,
on which numbers a client may be told to move on, and which servers may present themselves as
the primary. A server that starts within a standard, hears nothing beyond it, and executes and
is promoted only as the standard allows, stays within it and sends nothing beyond it.
-/

namespace BankReplica

open KeyedList

variable (fl : FloatRounding)

/-- What servers may hold, take in and say. -/
structure Standard where
  entry : Transaction → Prop
  record : IpString → ℤ → Prop
  request : InAddr → ReqData → Prop
  passed : InAddr → ℤ → Prop
  primary : ℕ → Prop
  record_zero : ∀ ip seqn, record ip seqn → record ip 0
  passed_of_record : ∀ addr seqn lastReq, record (inetNtop addr) lastReq → seqn ≤ lastReq → passed addr seqn

/-- The second standard allows what the first one does. -/
structure Standard.Within (O O' : Standard) : Prop where
  entry : ∀ tx, O.entry tx → O'.entry tx
  record : ∀ ip seqn, O.record ip seqn → O'.record ip seqn
  request : ∀ addr req, O.request addr req → O'.request addr req
  passed : ∀ addr seqn, O.passed addr seqn → O'.passed addr seqn
  primary : ∀ i, O.primary i → O'.primary i

/-- The standard allows the traces of an executed request. -/
structure Standard.Executed (O : Standard) (addr : InAddr) (req : ReqData) : Prop where
  entry : ∀ id, O.entry ⟨id, inetNtop addr, inetNtop req.destAddr, req.value.toInt, req.seqn.toInt⟩
  record : O.record (inetNtop addr) req.seqn.toInt

/-- Every entry and every record of a ledger is within the standard. -/
structure Ledger.Meets (O : Standard) (l : Ledger) : Prop where
  entries : ∀ tx ∈ l.transactionHistory, O.entry tx
  records : ∀ c ∈ l.clients, O.record c.address c.lastReq

/-- What a server's packet says about the ledger is within the standard, and it is no client's packet. -/
def Packet.Meets (O : Standard) : Packet → Prop
  | .addClientUpdate data => O.record data.ip data.lastRequest
  | .stateUpdate data =>
    O.entry data.transaction ∧ O.record data.sourceIp data.transaction.clientSeqn ∧ O.record data.destIp 0
  | .addHistoryEntry tx => O.entry tx
  | .transactionReq _ | .discovery => False
  | _ => True

/-- A packet that is sent on behalf of a primary. -/
def Packet.official : Packet → Bool
  | .serverDiscovery | .registerBackup | .election _ | .electionAnswer _ => false
  | _ => true

/-- What the server at a position sends is within the standard. -/
structure Send.Meets (O : Standard) (i : ℕ) (send : Send) : Prop where
  packet : send.packet.Meets O
  acks : ∀ ack, send.packet = .transactionAck ack → movesOn ack.status = true →
    O.passed send.dest.sinAddr ack.seqn.toInt
  official : send.packet.official = true → O.primary i

/-- What a thread is about to say is within the standard. -/
def Thread.Meets (O : Standard) (i : ℕ) (s : Server) : Thread → Prop
  | .request req clientAddr => O.primary i ∧ O.request clientAddr.sinAddr req
  | .processing req clientAddr status _ _ =>
    O.primary i ∧ (movesOn status.toWord = true → O.passed clientAddr.sinAddr req.seqn.toInt) ∧
      (status = .success → ∃ tx, s.transactionHistory.getLast? = some tx ∧
        O.record (inetNtop clientAddr.sinAddr) tx.clientSeqn)
  | .replying clientAddr ack _ =>
    O.primary i ∧ (movesOn ack.status = true → O.passed clientAddr.sinAddr ack.seqn.toInt)
  | .announcing => O.primary i
  | _ => True

/-- What the receive loop is in the middle of handling or sending is within the standard. -/
def Loop.Meets (O : Standard) (i : ℕ) : Loop → Prop
  | .updating packet => packet.Meets O
  | .registering _ unsent => O.primary i ∧ ∀ packet ∈ unsent, packet.isUpdate = true ∧ packet.Meets O
  | _ => True

/-- The process at a position holds, and is about to say, what is within the standard. -/
structure Node.Meets (O : Standard) (i : ℕ) (n : Node) : Prop where
  ledger : n.server.toLedger.Meets O
  loop : n.loop.Meets O i
  threads : ∀ t ∈ n.threads, t.Meets O i n.server
  primary : n.server.currentRole = .primary → O.primary i

/-- What arrives at a server is within the standard. -/
def NodeEvent.Meets (O : Standard) : NodeEvent → Prop
  | .receive (.transactionReq req) sender => O.request sender.sinAddr req
  | .receive .discovery sender => O.record (inetNtop sender.sinAddr) 0
  | .receive packet _ => packet.Meets O
  | .act _ => True

/-- The standard allows what a step executes, and the promotion if it is one. -/
structure Node.Allowed (O : Standard) (i : ℕ) (n : Node) (e : NodeEvent) : Prop where
  arrives : e.Meets O
  executes : ∀ addr req, n.executes fl e = some (addr, req) → O.Executed addr req
  promotes : n.promotes e = true → O.primary i

/-! ## A wider standard -/

section

variable {O O' : Standard} {i : ℕ}

theorem Ledger.Meets.mono {l : Ledger} (h : l.Meets O) (hO : O.Within O') : l.Meets O' :=
  ⟨fun tx htx => hO.entry tx (h.entries tx htx), fun c hc => hO.record _ _ (h.records c hc)⟩

theorem Packet.Meets.mono {packet : Packet} (h : packet.Meets O) (hO : O.Within O') : packet.Meets O' := by
  cases packet with
  | addClientUpdate data => exact hO.record _ _ h
  | stateUpdate data => exact ⟨hO.entry _ h.1, hO.record _ _ h.2.1, hO.record _ _ h.2.2⟩
  | addHistoryEntry tx => exact hO.entry _ h
  | _ => exact h

theorem NodeEvent.Meets.mono {e : NodeEvent} (h : e.Meets O) (hO : O.Within O') : e.Meets O' := by
  cases e with
  | act action => exact h
  | receive packet sender =>
    cases packet with
    | transactionReq req => exact hO.request _ _ h
    | discovery => exact hO.record _ _ h
    | addClientUpdate data => exact hO.record _ _ h
    | stateUpdate data => exact ⟨hO.entry _ h.1, hO.record _ _ h.2.1, hO.record _ _ h.2.2⟩
    | addHistoryEntry tx => exact hO.entry _ h
    | _ => exact h

theorem Send.Meets.mono {send : Send} (h : send.Meets O i) (hO : O.Within O') : send.Meets O' i :=
  ⟨h.packet.mono hO, fun ack hack hmoves => hO.passed _ _ (h.acks ack hack hmoves),
    fun hofficial => hO.primary i (h.official hofficial)⟩

theorem Thread.Meets.mono {s : Server} {t : Thread} (h : t.Meets O i s) (hO : O.Within O') : t.Meets O' i s := by
  cases t with
  | request req clientAddr => exact ⟨hO.primary i h.1, hO.request _ _ h.2⟩
  | processing req clientAddr status balance receipt =>
    refine ⟨hO.primary i h.1, fun hmoves => hO.passed _ _ (h.2.1 hmoves), fun hsuccess => ?_⟩
    obtain ⟨tx, hlast, hrecord⟩ := h.2.2 hsuccess
    exact ⟨tx, hlast, hO.record _ _ hrecord⟩
  | replying clientAddr ack receipt => exact ⟨hO.primary i h.1, fun hmoves => hO.passed _ _ (h.2 hmoves)⟩
  | announcing => exact hO.primary i h
  | _ => exact h

theorem Loop.Meets.mono {loop : Loop} (h : loop.Meets O i) (hO : O.Within O') : loop.Meets O' i := by
  cases loop with
  | updating packet => exact Packet.Meets.mono h hO
  | registering backupAddr unsent =>
    exact ⟨hO.primary i h.1, fun packet hpacket => ⟨(h.2 packet hpacket).1, (h.2 packet hpacket).2.mono hO⟩⟩
  | _ => exact h

theorem Node.Meets.mono {n : Node} (h : n.Meets O i) (hO : O.Within O') : n.Meets O' i :=
  ⟨h.ledger.mono hO, h.loop.mono hO, fun t ht => (h.threads t ht).mono hO, fun hrole => hO.primary i (h.primary hrole)⟩

/-! ## Ledgers -/

/-- The records after three writes as `executeTransaction` and `handleStateUpdate` make them. -/
theorem records_of_writes {clients : List ClientDTO} {sourceIp destIp : IpString} {seqn : ℤ} {f g : ClientDTO → ClientDTO}
    (hclients : ∀ c ∈ clients, O.record c.address c.lastReq) (hrecord : O.record sourceIp seqn)
    (hf : ∀ c, (f c).address = c.address ∧ (f c).lastReq = c.lastReq)
    (hg : ∀ c, (g c).address = c.address ∧ (g c).lastReq = c.lastReq) :
    ∀ c ∈ ((clients.modify (position ClientDTO.address clients sourceIp) f).modify
        (position ClientDTO.address clients destIp) g).modify (position ClientDTO.address clients sourceIp)
          fun c => c.setLastRequest seqn,
      O.record c.address c.lastReq := by
  refine forall_modify_pair (fun c => (hf c).1) (fun c => (hg c).1) hclients ?_ ?_ _ _ ?_
  · intro c hc
    rwa [(hf c).1, (hf c).2]
  · intro c hc
    rwa [(hg c).1, (hg c).2]
  · rintro c rfl hc
    exact hrecord

/-- A call that the standard allows keeps a ledger within it. -/
theorem Ledger.Meets.request {l : Ledger} (h : l.Meets O) {addr : InAddr} {req : ReqData}
    (hexecuted : l.Accepts fl (requestCall addr req) → O.Executed addr req) :
    (l.apply fl (requestCall addr req)).Meets O := by
  by_cases haccepts : l.Accepts fl (requestCall addr req)
  · have hO := hexecuted haccepts
    have hcommit : l.apply fl (requestCall addr req) =
        l.commit fl (inetNtop addr) (inetNtop req.destAddr) req.value.toInt req.seqn.toInt := if_pos haccepts
    rw [hcommit]
    refine ⟨?_, ?_⟩
    · rw [Ledger.commit_transactionHistory]
      exact List.forall_mem_append.mpr ⟨h.entries, List.forall_mem_singleton.mpr (hO.entry _)⟩
    · exact records_of_writes h.records hO.record (fun _ => ⟨rfl, rfl⟩) fun _ => ⟨rfl, rfl⟩
  · rwa [Ledger.apply_of_not_accepts fl haccepts]

/-- A registration of a client that the standard knows. -/
theorem Ledger.Meets.addClient {l : Ledger} (h : l.Meets O) {ip : IpString} (hip : O.record ip 0) :
    (l.apply fl (.addClient ip)).Meets O := by
  simp only [Ledger.apply]
  split
  · exact h
  · exact ⟨h.entries, List.forall_mem_append.mpr ⟨h.records, List.forall_mem_singleton.mpr hip⟩⟩

/-- A lookup that adds on a miss. -/
theorem records_ensureClient {clients : List ClientDTO} {ip : IpString}
    (hclients : ∀ c ∈ clients, O.record c.address c.lastReq) (hip : O.record ip 0) :
    ∀ c ∈ ensureClient clients ip, O.record c.address c.lastReq := by
  unfold ensureClient
  split
  · exact List.forall_mem_append.mpr ⟨hclients, List.forall_mem_singleton.mpr hip⟩
  · exact hclients

/-- A backup that handles a packet within the standard. -/
theorem Ledger.Meets.receive {l : Ledger} (h : l.Meets O) {packet : Packet} (hpacket : packet.Meets O) :
    (l.receive fl packet).Meets O := by
  cases packet with
  | addClientUpdate data =>
    simp only [Ledger.receive, Ledger.receiveClient]
    split
    · exact h
    · exact ⟨h.entries, List.forall_mem_append.mpr ⟨h.records, List.forall_mem_singleton.mpr hpacket⟩⟩
  | stateUpdate data =>
    obtain ⟨hentry, hsource, hdest⟩ := hpacket
    refine ⟨List.forall_mem_append.mpr ⟨h.entries, List.forall_mem_singleton.mpr hentry⟩, ?_⟩
    have hknown := records_ensureClient (records_ensureClient h.records (O.record_zero _ _ hsource)) hdest
    exact records_of_writes hknown hsource (fun _ => ⟨rfl, rfl⟩) fun _ => ⟨rfl, rfl⟩
  | addHistoryEntry tx =>
    exact ⟨List.forall_mem_append.mpr ⟨h.entries, List.forall_mem_singleton.mpr hpacket⟩, h.records⟩
  | _ => exact h

/-- A snapshot of a ledger within the standard. -/
theorem Ledger.Meets.snapshotPackets {l : Ledger} (h : l.Meets O) {packet : Packet}
    (hpacket : packet ∈ l.snapshotPackets) : packet.isUpdate = true ∧ packet.Meets O := by
  cases List.mem_append.mp hpacket with
  | inl hclient =>
    obtain ⟨c, hc, rfl⟩ := List.mem_map.mp hclient
    exact ⟨rfl, by simpa [clientUpdatePacket, Packet.Meets] using h.records c hc⟩
  | inr hentry =>
    obtain ⟨tx, htx, rfl⟩ := List.mem_map.mp hentry
    exact ⟨rfl, h.entries tx htx⟩

/-! ## Sends -/

/-- A packet that is no acknowledgement. -/
theorem Send.Meets.plain {send : Send} (h : send.packet.Meets O) (hacks : ∀ ack, send.packet ≠ .transactionAck ack)
    (hprimary : send.packet.official = true → O.primary i) : send.Meets O i :=
  ⟨h, fun ack hack => absurd hack (hacks ack), hprimary⟩

/-- An update from a primary. -/
theorem Send.Meets.update {send : Send} (hupdate : send.packet.isUpdate = true) (h : send.packet.Meets O)
    (hprimary : O.primary i) : send.Meets O i := by
  refine .plain h (fun ack hack => ?_) fun _ => hprimary
  rw [hack] at hupdate
  contradiction

/-- What a thread propagates of its own transaction. -/
theorem Ledger.Meets.propagateSuccess {s : Server} (h : s.toLedger.Meets O) {sourceIp destIp : IpString}
    {status : TransactionStatus} (hprimary : O.primary i)
    (hlast : status = .success → ∃ tx, s.transactionHistory.getLast? = some tx ∧ O.record sourceIp tx.clientSeqn)
    {send : Send} (hsend : send ∈ s.propagateSuccess sourceIp destIp status) : send.Meets O i := by
  simp only [Server.propagateSuccess] at hsend
  split at hsend
  · rename_i hwhen
    obtain ⟨tx, htx, hrecord⟩ := hlast hwhen.1
    split at hsend
    · rename_i newTx source dest hnew hsource hdest
      rw [hnew] at htx
      obtain rfl := Option.some.inj htx
      obtain ⟨b, -, rfl⟩ := List.mem_map.mp hsend
      rw [Ledger.getElem?_findClient] at hsource hdest
      obtain ⟨-, hsourceIp⟩ := Ledger.account_some hsource
      obtain ⟨hdestMem, -⟩ := Ledger.account_some hdest
      refine .update rfl ⟨h.entries _ (List.mem_of_getLast? hnew), ?_, ?_⟩ hprimary
      · simpa only [strncpyIp_bytes, hsourceIp] using hrecord
      · simpa only [strncpyIp_bytes] using O.record_zero _ _ (h.records dest hdestMem)
    · contradiction
  · contradiction

/-- What a registration sends. -/
theorem Ledger.Meets.handleDiscoveryPacket {s : Server} {clientAddr : SockAddr}
    (hclient : O.record (inetNtop clientAddr.sinAddr) 0) (hrole : s.currentRole = .primary) (hprimary : O.primary i)
    {send : Send} (hsend : send ∈ (s.handleDiscoveryPacket fl clientAddr).2) : send.Meets O i := by
  simp only [Server.handleDiscoveryPacket, if_pos hrole] at hsend
  cases List.mem_append.mp hsend with
  | inl hupdate =>
    rw [Server.addClient_sends] at hupdate
    split at hupdate
    · obtain ⟨b, -, rfl⟩ := List.mem_map.mp hupdate
      exact .update rfl (by simpa [clientUpdatePacket, Packet.Meets, ClientDTO.new] using hclient) hprimary
    · contradiction
  | inr hack =>
    rw [List.mem_singleton.mp hack]
    exact .plain trivial (by simp) fun _ => hprimary

/-! ## Threads -/

/-- A thread that does not hold the lock says the same whatever became of the ledger. -/
theorem Thread.Meets.unlocked {s s' : Server} {t : Thread} (h : t.Meets O i s) (ht : t.holdsLock = false) :
    t.Meets O i s' := by
  cases t with
  | processing req clientAddr status balance receipt => contradiction
  | _ => exact h

/-- A thread says the same while the ledger stays as it is. -/
theorem Thread.Meets.same {s s' : Server} {t : Thread} (h : t.Meets O i s) (hledger : s'.toLedger = s.toLedger) :
    t.Meets O i s' := by
  cases t with
  | processing req clientAddr status balance receipt =>
    rw [Thread.Meets, hledger]
    exact h
  | _ => exact h

/-- The verdict on a request of a client that is told to move on. -/
theorem Ledger.Meets.passed {l : Ledger} (h : l.Meets O) {addr : InAddr} {req : ReqData}
    (hexecuted : l.Accepts fl (requestCall addr req) → O.Executed addr req)
    (hmoves : movesOn
      (l.verdict fl (inetNtop addr) (inetNtop req.destAddr) req.value.toInt req.seqn.toInt).toWord = true) :
    O.passed addr req.seqn.toInt := by
  cases (movesOn_toWord _).mp hmoves with
  | inl haccepts => exact O.passed_of_record _ _ _ (hexecuted haccepts).record le_rfl
  | inr hduplicate =>
    obtain ⟨source, haccount, hle⟩ := Ledger.verdict_eq_duplicate hduplicate
    obtain ⟨hmem, haddress⟩ := Ledger.account_some haccount
    exact O.passed_of_record _ _ _ (haddress ▸ h.records source hmem) hle

/-- What a step of a thread leaves is within the standard. -/
structure ThreadOutcome.Meets (O : Standard) (i : ℕ) (o : ThreadOutcome) : Prop where
  ledger : o.server.toLedger.Meets O
  threads : ∀ t ∈ o.threads, t.Meets O i o.server
  sends : ∀ send ∈ o.sends, send.Meets O i

/-- A step that keeps the ledger. -/
theorem ThreadOutcome.Meets.same {s : Server} {o : ThreadOutcome} (h : s.toLedger.Meets O)
    (hledger : o.server.toLedger = s.toLedger) (hthreads : ∀ t ∈ o.threads, t.Meets O i o.server)
    (hsends : ∀ send ∈ o.sends, send.Meets O i) : o.Meets O i :=
  ⟨hledger ▸ h, hthreads, hsends⟩

/-- Every step of a thread. -/
theorem Thread.Meets.step {s : Server} {locked : Bool} {t : Thread} {o : ThreadOutcome} (hledger : s.toLedger.Meets O)
    (hprimary : s.currentRole = .primary → O.primary i) (ht : t.Meets O i s)
    (hexecutes : ∀ req clientAddr, t = .request req clientAddr →
      s.toLedger.Accepts fl (requestCall clientAddr.sinAddr req) → O.Executed clientAddr.sinAddr req)
    (hpromotes : t = .promoting → s.currentRole = .backup → O.primary i)
    (h : t.step fl s locked = some o) : o.Meets O i := by
  cases Thread.step_cases fl h with
  | @request req clientAddr server status balance hfree hserved =>
    have hexecuted := hexecutes req clientAddr rfl
    have hverdict := s.handleTransactionLogic_status fl (inetNtop clientAddr.sinAddr) (inetNtop req.destAddr)
      req.value.toInt req.seqn.toInt
    have hserver := s.handleTransactionLogic_toLedger fl (inetNtop clientAddr.sinAddr) (inetNtop req.destAddr)
      req.value.toInt req.seqn.toInt
    rw [hserved] at hverdict hserver
    subst hverdict
    refine ⟨hserver ▸ hledger.request fl hexecuted, ?_, fun send hsend => by contradiction⟩
    refine List.forall_mem_singleton.mpr ⟨ht.1, hledger.passed fl hexecuted, fun hsuccess => ?_⟩
    have hcommitted : server.toLedger = _ := hserver.trans (if_pos hsuccess)
    rw [hcommitted, Ledger.commit_transactionHistory]
    exact ⟨_, List.getLast?_concat, (hexecuted hsuccess).record⟩
  | @processing req clientAddr status balance receipt =>
    refine ⟨?_, List.forall_mem_singleton.mpr ⟨ht.1, fun hmoves => ?_⟩,
      fun send hsend => hledger.propagateSuccess ht.1 ht.2.2 hsend⟩
    · simp only
      split <;> exact hledger
    · simpa [ackOf] using ht.2.1 hmoves
  | replying =>
    refine ⟨hledger, fun t ht => by contradiction, List.forall_mem_singleton.mpr ⟨trivial, ?_, fun _ => ht.1⟩⟩
    intro ack hack
    obtain rfl := Packet.transactionAck.inj hack
    exact ht.2
  | promoted hfree hrole =>
    refine .same hledger rfl ?_ (by simp)
    exact List.forall_mem_cons.mpr ⟨trivial, List.forall_mem_singleton.mpr (hpromotes rfl hrole)⟩
  | announcing =>
    refine .same hledger rfl (by simp) (List.forall_mem_singleton.mpr ?_)
    exact .plain trivial (by simp [Server.announceNewPrimary]) fun _ => ht
  | heartbeats hrole hfree =>
    refine .same hledger rfl (List.forall_mem_singleton.mpr trivial) fun send hsend => ?_
    obtain ⟨b, -, rfl⟩ := List.mem_map.mp hsend
    exact .plain trivial (by simp) fun _ => hprimary hrole
  | electionCleared =>
    refine .same hledger rfl (List.forall_mem_singleton.mpr trivial) (List.forall_mem_singleton.mpr ?_)
    exact .plain trivial (by simp [Server.broadcastElection]) fun hofficial => by contradiction
  | _ => exact .same hledger rfl (by simp [Thread.Meets]) (by simp)

/-! ## Processes -/

/-- A step that keeps the ledger and promotes nobody. -/
theorem Node.Meets.steady {n n' : Node} (h : n.Meets O i) (hserver : n.server.Steady n'.server)
    (hloop : n'.loop.Meets O i) (hthreads : ∀ t ∈ n'.threads, t ∈ n.threads ∨ t.Meets O i n'.server) :
    n'.Meets O i := by
  refine ⟨hserver.ledger ▸ h.ledger, hloop, fun t ht => ?_, fun hrole => h.primary (hserver.role hrole)⟩
  cases hthreads t ht with
  | inl hold => exact (h.threads t hold).same hserver.ledger
  | inr hnew => exact hnew

/-- A packet handled in the receive loop by a server that keeps its ledger. -/
theorem Node.Meets.handled {n : Node} (h : n.Meets O i) {s : Server} (hserver : n.server.Steady s) :
    Node.Meets O i { n with server := s } :=
  h.steady hserver h.loop fun _ ht => .inl ht

/-- A thread that a step starts. -/
theorem Thread.meets_of_mem_append {threads : List Thread} {t t' : Thread} {s : Server} (ht : t.Meets O i s)
    (h : t' ∈ threads ++ [t]) : t' ∈ threads ∨ t'.Meets O i s := by
  cases List.mem_append.mp h with
  | inl hold => exact .inl hold
  | inr hnew =>
    rw [List.mem_singleton.mp hnew]
    exact .inr ht

/-- A step of a detached thread. -/
theorem Node.Meets.ran {n : Node} (h : n.Meets O i) {k : ℕ} {t : Thread} {o : ThreadOutcome}
    (hget : n.threads[k]? = some t) (houtcome : t.step fl n.server n.locked = some o)
    (hallowed : n.Allowed fl O i (.act (.runThread k))) :
    Node.Meets O i
        { n with
          server := o.server
          threads := n.threads.eraseIdx k ++ o.threads
          acked := n.acked ++ o.acked.toList } ∧
      ∀ send ∈ o.sends, send.Meets O i := by
  have hmem : t ∈ n.threads := List.mem_of_getElem? hget
  have ho : o.Meets O i := by
    refine (h.threads t hmem).step fl h.ledger h.primary ?_ ?_ houtcome
    · rintro req clientAddr rfl haccepts
      exact hallowed.executes _ _ (by simp [Node.executes, hget, haccepts])
    · rintro rfl hrole
      exact hallowed.promotes (decide_eq_true ⟨hget, hrole⟩)
  refine ⟨⟨ho.ledger, h.loop, fun t' ht' => ?_, fun hrole => ?_⟩, ho.sends⟩
  · cases List.mem_append.mp ht' with
    | inr hnew => exact ho.threads t' hnew
    | inl hold =>
      have hmeets := h.threads t' (List.mem_of_mem_eraseIdx hold)
      rcases Thread.step_toLedger fl houtcome with hkept | ⟨req, clientAddr, rfl, -⟩
      · exact hmeets.same hkept
      -- a thread executes only with the lock free
      · have hfree : n.locked = false := by
          cases Thread.step_cases fl houtcome with
          | request hfree hserved => exact hfree
        exact hmeets.unlocked (Node.not_holdsLock hfree (List.mem_of_mem_eraseIdx hold))
  · refine ((Thread.step_effect fl houtcome).promoted hrole).elim h.primary fun hpromotion => ?_
    exact hallowed.promotes (decide_eq_true ⟨hpromotion.1 ▸ hget, hpromotion.2⟩)

/-- Every step of a process within the standard stays within it and sends only what is. -/
theorem Node.Meets.step {n n' : Node} {e : NodeEvent} {sends : List Send} (h : n.Meets O i)
    (hallowed : n.Allowed fl O i e) (hstep : n.step fl e = some (n', sends)) :
    n'.Meets O i ∧ ∀ send ∈ sends, send.Meets O i := by
  have hsteady := Server.Steady.refl n.server
  cases Node.step_cases fl hstep with
  | discover hloop =>
    refine ⟨h.steady hsteady trivial fun t ht => .inl ht, fun send hsend => ?_⟩
    rw [List.eq_of_mem_replicate hsend]
    exact .plain trivial (by simp) fun hofficial => by contradiction
  | giveUpDiscovery hloop =>
    exact ⟨h.steady ⟨rfl, rfl, fun hrole => by contradiction⟩ trivial
      fun t ht => Thread.meets_of_mem_append (t := .electionDelay) trivial ht, by simp⟩
  | foundPrimary hloop =>
    refine ⟨h.steady ⟨rfl, rfl, fun hrole => by contradiction⟩ trivial
      fun t ht => Thread.meets_of_mem_append (t := .monitorHead) trivial ht, List.forall_mem_singleton.mpr ?_⟩
    exact .plain trivial (by simp) fun hofficial => by contradiction
  | ignored hloop hpacket => exact ⟨h, by simp⟩
  | dropped hloop hheeded => exact ⟨h, by simp⟩
  | @request req sender hloop hrole =>
    exact ⟨h.steady hsteady h.loop fun t ht => Thread.meets_of_mem_append (t := .request req sender)
      ⟨h.primary hrole, hallowed.arrives⟩ ht, by simp⟩
  | @client sender hloop hrole hfree =>
    have hledger : (n.server.handleDiscoveryPacket fl sender).1.toLedger =
        n.server.toLedger.apply fl (.addClient (inetNtop sender.sinAddr)) := by
      rw [Server.handleDiscoveryPacket_toLedger, if_pos hrole]
    refine ⟨⟨?_, h.loop, fun t ht => ?_, fun _ => h.primary hrole⟩, fun send hsend => ?_⟩
    · exact hledger ▸ h.ledger.addClient fl hallowed.arrives
    · exact (h.threads t ht).unlocked (Node.not_holdsLock hfree ht)
    · exact Ledger.Meets.handleDiscoveryPacket fl hallowed.arrives hrole (h.primary hrole) hsend
  | backup hloop hrole hfree =>
    refine ⟨h.steady ⟨rfl, rfl, id⟩ ⟨h.primary hrole, fun packet hpacket => ?_⟩ fun t ht => .inl ht, by simp⟩
    have hsnapshot : packet ∈ n.server.snapshotPackets := by
      simpa [Server.registerBackup, Function.comp_def] using hpacket
    exact h.ledger.snapshotPackets hsnapshot
  | @heartbeat sender hloop => exact ⟨h.handled (n.server.steady_of_election 0 sender).1, by simp⟩
  | @serverDiscovery sender hloop =>
    refine ⟨h, fun send hsend => ?_⟩
    simp only [Server.sendDiscoveryAck] at hsend
    split at hsend
    · rw [List.mem_singleton.mp hsend]
      exact .plain trivial (by simp) fun _ => h.primary ‹_›
    · contradiction
  | @announcement newLeaderId sender hloop =>
    refine ⟨h.handled (n.server.steady_of_announcement newLeaderId sender), fun send hsend => ?_⟩
    rw [Server.announcement_sends hsend]
    exact .plain trivial (by simp) fun hofficial => by contradiction
  | @election senderId sender hloop =>
    refine ⟨h.handled (n.server.steady_of_election senderId sender).2.1, fun send hsend => ?_⟩
    rw [Server.election_sends hsend]
    exact .plain trivial (by simp) fun hofficial => by contradiction
  | @electionAnswer senderId sender hloop =>
    exact ⟨h.handled (n.server.steady_of_election senderId sender).2.2, by simp⟩
  | @update packet sender hloop hupdate hrole =>
    refine ⟨h.steady hsteady ?_ fun t ht => .inl ht, by simp⟩
    have harrives := hallowed.arrives
    cases packet <;> first | contradiction | exact harrives
  | @updated packet hloop hfree =>
    have hpacket := h.loop
    rw [hloop] at hpacket
    refine ⟨⟨?_, trivial, fun t ht => ?_, fun hrole => ?_⟩, by simp⟩
    · rw [Server.handleUpdate_toLedger]
      exact h.ledger.receive fl hpacket
    · exact (h.threads t ht).unlocked (Node.not_holdsLock hfree ht)
    · exact h.primary ((Server.handleUpdate_role fl n.server packet) ▸ hrole)
  | @sent backupAddr packet rest hloop =>
    have hunsent := h.loop
    rw [hloop] at hunsent
    obtain ⟨hprimary, hunsent⟩ := hunsent
    obtain ⟨hpacket, hrest⟩ := List.forall_mem_cons.mp hunsent
    exact ⟨h.steady hsteady ⟨hprimary, hrest⟩ fun t ht => .inl ht,
      List.forall_mem_singleton.mpr (.update hpacket.1 hpacket.2 hprimary)⟩
  | registered hloop => exact ⟨h.steady hsteady trivial fun t ht => .inl ht, by simp⟩
  | ran hget houtcome => exact h.ran fl hget houtcome hallowed

/-- A process before `init` holds nothing. -/
theorem Node.new_meets (serverId : Word) (port : UInt16) : (Node.new serverId port).Meets O i :=
  ⟨⟨by simp [Node.new, Server.new], by simp [Node.new, Server.new]⟩, trivial, by simp [Node.new],
    fun hrole => by contradiction⟩

end

end BankReplica
