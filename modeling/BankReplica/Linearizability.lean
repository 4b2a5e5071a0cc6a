import BankReplica.ClientReports
import BankReplica.Cluster
import BankReplica.Library.Linearization
import BankReplica.RequestThreads

/-!
# The request threads of a server, one after the other

Request threads, registrations and updates meet in one server process. Whatever the interleaving,
and whatever roles the server goes through, what it answers is what a server that does one
operation at a time would answer, in an order that agrees with the order in which requests
arrived and acknowledgements left.
-/

namespace BankReplica

open Runs Linearization

variable (fl : FloatRounding)

/-- What a server does to its ledger for clients and for its primary. -/
inductive LedgerOp
  | request (clientAddr : SockAddr) (req : ReqData)
  | register (ip : IpString)
  | update (packet : Packet)

/-- What an operation is answered with: an acknowledgement and the address it is for, or nothing
that depends on the ledger. -/
abbrev LedgerReply := Option (InAddr × AckData)

/-- A server that does one operation at a time, and the acknowledgement it sends for it. -/
def Ledger.perform (l : Ledger) : LedgerOp → Ledger × LedgerReply
  | .request clientAddr req =>
    let alone : Server := { Server.new 0 0 with toLedger := l }
    let (server, _, sends) := alone.handleTransactionRequest fl req clientAddr
    (server.toLedger, (acksIn sends).head?)
  | .register ip => (l.apply fl (.addClient ip), none)
  | .update packet => (l.receive fl packet, none)

/-- The operation that an event has a process take up or do. -/
def Node.operation (n : Node) : NodeEvent → Option LedgerOp
  | .receive (.transactionReq req) sender =>
    if n.loop = .receiving ∧ n.server.currentRole = .primary then some (.request sender req) else none
  | .receive .discovery sender =>
    if n.loop = .receiving ∧ n.server.currentRole = .primary then some (.register (inetNtop sender.sinAddr)) else none
  | .act .resume =>
    match n.loop with
    | .updating packet => some (.update packet)
    | _ => none
  | _ => none

/-- A process, its threads with the operation each is about, the number of operations so far and
their history. -/
structure Traced where
  node : Node
  tags : List (Option ℕ × Thread) := []
  calls : ℕ := 0
  history : List (CallEvent LedgerOp LedgerReply) := []

/-- The threads after an event of the receive loop that has started some, for an operation or for none. -/
def Traced.spawned (t : Traced) (node : Node) (id : Option ℕ) : List (Option ℕ × Thread) :=
  t.tags ++ (node.threads.drop t.node.threads.length).map (id, ·)

/-- The return of an operation whose thread has sent its acknowledgement. -/
def returns (id : Option ℕ) (sends : List Send) : List (CallEvent LedgerOp LedgerReply) :=
  id.toList.flatMap fun k => (acksIn sends).map fun ack => .respond k (some ack)

/-- The process after an event, with its history. A request is called when its thread starts and
returns with its acknowledgement; the other operations are done in the receive loop. -/
def Traced.after (t : Traced) (e : NodeEvent) (node : Node) (sends : List Send) : Traced :=
  match e with
  | .act (.runThread i) =>
    let id := t.tags[i]?.bind Prod.fst
    { t with
      node := node
      tags := t.tags.eraseIdx i ++ (node.threads.drop (t.node.threads.eraseIdx i).length).map (id, ·)
      history := t.history ++ returns id sends }
  | e =>
    match t.node.operation e with
    | none => { t with node := node, tags := t.spawned node none }
    | some (.request clientAddr req) =>
      { node := node
        tags := t.spawned node (some t.calls)
        calls := t.calls + 1
        history := t.history ++ [.invoke t.calls (.request clientAddr req)] }
    | some op =>
      { node := node
        tags := t.spawned node none
        calls := t.calls + 1
        history := t.history ++ [.invoke t.calls op] ++ [.respond t.calls none] }

/-- One step. -/
def Traced.step (t : Traced) (e : NodeEvent) : Option Traced := do
  let (node, sends) ← t.node.step fl e
  some (t.after e node sends)

/-- The operations still in hand, by their threads. -/
def Traced.inHand (t : Traced) : List ℕ := t.tags.filterMap Prod.fst

/-- What links a thread to the operation it is about. -/
def Linked (l : Ledger) (history : List (CallEvent LedgerOp LedgerReply)) (done : List (Done LedgerOp LedgerReply)) :
    Option ℕ → Thread → Prop
  | some k, .request req clientAddr => .invoke k (.request clientAddr req) ∈ history ∧ k ∉ done.map Done.id
  | some k, .processing req clientAddr status balance _ =>
    ⟨k, .request clientAddr req,
      some (clientAddr.sinAddr,
        ackOf req.seqn.toInt ⟨status, balance, l.lastRequestOf (inetNtop clientAddr.sinAddr)⟩)⟩ ∈ done
  | some k, .replying clientAddr ack _ => ∃ req, ⟨k, .request clientAddr req, some (clientAddr.sinAddr, ack)⟩ ∈ done
  | none, t => t.ofRequest = false
  | some _, _ => False

/-- The operations that have taken effect linearize the history, every thread is linked to its own,
and what has not returned is in hand. -/
structure Traced.Linear (t : Traced) (done : List (Done LedgerOp LedgerReply)) : Prop where
  linearizes : Linearizes (Ledger.perform fl) {} t.history done t.node.server.toLedger
  threads : t.tags.map Prod.snd = t.node.threads
  linked : ∀ tag ∈ t.tags, Linked t.node.server.toLedger t.history done tag.1 tag.2
  distinct : t.inHand.Nodup
  waiting : ∀ k ∈ t.inHand, k < t.calls ∧ ∀ reply, .respond k reply ∉ t.history
  fresh : ∀ d ∈ done, d.id < t.calls
  kept : ∀ k op, .invoke k op ∈ t.history → (∃ reply, .respond k reply ∈ t.history) ∨ k ∈ t.inHand

/-! ## The sequential server -/

/-- A request alone acts on the ledger as the call it decodes to. -/
theorem Ledger.perform_request (l : Ledger) (clientAddr : SockAddr) (req : ReqData) :
    (l.perform fl (.request clientAddr req)).1 = l.apply fl (requestCall clientAddr.sinAddr req) :=
  Server.processTransaction_toLedger fl _ _ _ _ _

/-- A request alone is acknowledged with the verdict and balance at its execution and the number of
the source right after it. -/
theorem Ledger.perform_reply {s server : Server} {clientAddr : SockAddr} {req : ReqData} {status : TransactionStatus}
    {balance : ℤ}
    (hserved : s.handleTransactionLogic fl (inetNtop clientAddr.sinAddr) (inetNtop req.destAddr) req.value.toInt
      req.seqn.toInt = (server, status, balance)) :
    (s.toLedger.perform fl (.request clientAddr req)).2 =
      some (clientAddr.sinAddr,
        ackOf req.seqn.toInt ⟨status, balance, server.lastRequestOf (inetNtop clientAddr.sinAddr)⟩) := by
  have hsame := Server.processTransaction_reply_congr fl (s := { Server.new 0 0 with toLedger := s.toLedger })
    (t := s) rfl (inetNtop clientAddr.sinAddr) req.destAddr req.value.toInt req.seqn.toInt
  have hreply : (s.processTransaction fl (inetNtop clientAddr.sinAddr) req.destAddr req.value.toInt req.seqn.toInt).2.1 =
      ⟨status, balance, server.lastRequestOf (inetNtop clientAddr.sinAddr)⟩ := by
    simp only [Server.processTransaction, hserved]
  simp only [Ledger.perform, acksIn_handleTransactionRequest, List.head?_cons]
  exact congrArg (fun reply => some (clientAddr.sinAddr, ackOf req.seqn.toInt reply)) (hsame.trans hreply)

section

variable {fl} {t : Traced} {done : List (Done LedgerOp LedgerReply)}

/-! ## Threads and their operations -/

/-- A thread keeps its link while the ledger stays as it is, or while it does not hold the lock. -/
theorem Linked.mono {l l' : Ledger} {history more : List (CallEvent LedgerOp LedgerReply)}
    {later : List (Done LedgerOp LedgerReply)} {id : Option ℕ} {thread : Thread}
    (h : Linked l history done id thread) (hledger : l' = l ∨ thread.holdsLock = false) (hhistory : history ⊆ more)
    (hdone : done ⊆ later) (hnew : ∀ k ∈ id, k ∈ later.map Done.id → k ∈ done.map Done.id) :
    Linked l' more later id thread := by
  cases id with
  | none => cases thread <;> exact h
  | some k =>
    cases thread with
    | request req clientAddr => exact ⟨hhistory h.1, fun hmem => h.2 (hnew k rfl hmem)⟩
    | processing req clientAddr status balance receipt =>
      cases hledger with
      | inl hsame => exact hsame ▸ hdone h
      | inr hfree => contradiction
    | replying clientAddr ack receipt =>
      obtain ⟨req, hmem⟩ := h
      exact ⟨req, hdone hmem⟩
    | _ => exact h

/-- A thread of no request has no operation. -/
theorem linked_none {l : Ledger} {history : List (CallEvent LedgerOp LedgerReply)} {thread : Thread} :
    Linked l history done none thread ↔ thread.ofRequest = false := by
  cases thread <;> rfl

/-- The tag of a thread. -/
theorem Traced.Linear.tag (h : t.Linear fl done) {i : ℕ} {thread : Thread} (hget : t.node.threads[i]? = some thread) :
    ∃ id, t.tags[i]? = some (id, thread) ∧ Linked t.node.server.toLedger t.history done id thread := by
  rw [← h.threads, List.getElem?_map] at hget
  obtain ⟨⟨id, same⟩, htag, rfl⟩ := Option.map_eq_some_iff.mp hget
  exact ⟨id, htag, h.linked _ (List.mem_of_getElem? htag)⟩

/-- The thread of a tag. -/
theorem Traced.Linear.thread_mem (h : t.Linear fl done) {tag : Option ℕ × Thread} (htag : tag ∈ t.tags) :
    tag.2 ∈ t.node.threads :=
  h.threads ▸ List.mem_map_of_mem htag

/-- The operations in hand, one of them first. -/
theorem Traced.inHand_perm {i : ℕ} {id : Option ℕ} {thread : Thread}
    (htag : t.tags[i]? = some (id, thread)) :
    (id.toList ++ (t.tags.eraseIdx i).filterMap Prod.fst).Perm t.inHand := by
  obtain ⟨hlt, hget⟩ := List.getElem?_eq_some_iff.mp htag
  have hperm := (List.getElem_cons_eraseIdx_perm hlt).filterMap Prod.fst
  rw [hget] at hperm
  cases id with
  | none => exact hperm
  | some k => exact hperm

/-- An id that has not been given away yet belongs to nothing. -/
theorem Traced.Linear.unused (h : t.Linear fl done) :
    t.calls ∉ done.map Done.id ∧ (∀ reply, .respond t.calls reply ∉ t.history) ∧ t.calls ∉ t.inHand := by
  have hdone : t.calls ∉ done.map Done.id := by
    rintro hmem
    obtain ⟨d, hd, heq⟩ := List.mem_map.mp hmem
    exact (h.fresh d hd).ne heq
  refine ⟨hdone, fun reply hreply => ?_, fun hmem => (h.waiting _ hmem).1.ne rfl⟩
  obtain ⟨op, hop⟩ := h.linearizes.responded _ _ hreply
  exact hdone (List.mem_map_of_mem hop)

/-! ## The receive loop -/

/-- The threads with their operations after some were started. -/
theorem Traced.spawned_append {node : Node} {new : List Thread} (hthreads : node.threads = t.node.threads ++ new)
    (id : Option ℕ) : t.spawned node id = t.tags ++ new.map (id, ·) := by
  rw [Traced.spawned, hthreads, List.drop_left]

/-- The threads of no request are about no operation. -/
theorem filterMap_fst_map_none (threads : List Thread) :
    (threads.map ((none : Option ℕ), ·)).filterMap Prod.fst = [] := by
  simp

/-- An event about no operation, which may start threads of no request. -/
theorem Traced.Linear.idle (h : t.Linear fl done) {node : Node} {new : List Thread}
    (hledger : node.server.toLedger = t.node.server.toLedger) (hthreads : node.threads = t.node.threads ++ new)
    (hnew : ∀ thread ∈ new, thread.ofRequest = false) :
    ({ t with node := node, tags := t.spawned node none } : Traced).Linear fl done := by
  have hhand : ({ t with node := node, tags := t.spawned node none } : Traced).inHand = t.inHand := by
    rw [Traced.inHand, Traced.spawned_append hthreads, List.filterMap_append, filterMap_fst_map_none, List.append_nil]
    rfl
  refine ⟨hledger ▸ h.linearizes, ?_, fun tag htag => ?_, hhand ▸ h.distinct, hhand ▸ h.waiting, h.fresh, hhand ▸ h.kept⟩
  · simp [Traced.spawned_append hthreads, hthreads, h.threads, Function.comp_def]
  · rw [Traced.spawned_append hthreads] at htag
    cases List.mem_append.mp htag with
    | inl hold => exact (h.linked tag hold).mono (.inl hledger) (List.Subset.refl _) (List.Subset.refl _) fun _ _ => id
    | inr hstarted =>
      obtain ⟨thread, hthread, rfl⟩ := List.mem_map.mp hstarted
      exact linked_none.mpr (hnew thread hthread)

/-- A request arrives and its thread starts. -/
theorem Traced.Linear.call (h : t.Linear fl done) {node : Node} {clientAddr : SockAddr} {req : ReqData}
    (hledger : node.server.toLedger = t.node.server.toLedger)
    (hthreads : node.threads = t.node.threads ++ [.request req clientAddr]) :
    Traced.Linear fl
      { node := node
        tags := t.spawned node (some t.calls)
        calls := t.calls + 1
        history := t.history ++ [.invoke t.calls (.request clientAddr req)] } done := by
  obtain ⟨hdone, hopen, hhand⟩ := h.unused
  have hgrows : t.history ⊆ t.history ++ [.invoke t.calls (.request clientAddr req)] := List.subset_append_left _ _
  have hspawned : t.spawned node (some t.calls) = t.tags ++ [(some t.calls, .request req clientAddr)] :=
    Traced.spawned_append hthreads _
  have hreturned : ∀ k reply, .respond k reply ∈ t.history ++ [.invoke t.calls (.request clientAddr req)] →
      .respond k reply ∈ t.history := by
    intro k reply hmem
    simpa using hmem
  have hinHand : (t.spawned node (some t.calls)).filterMap Prod.fst = t.inHand ++ [t.calls] := by
    rw [hspawned, List.filterMap_append]
    rfl
  refine ⟨hledger ▸ h.linearizes.invoke _ hdone, ?_, fun tag htag => ?_, ?_, fun k hk => ?_, fun d hd => ?_,
    fun k op hinvoke => ?_⟩
  · rw [hspawned, hthreads, List.map_append, h.threads]
    rfl
  · rw [hspawned] at htag
    cases List.mem_append.mp htag with
    | inl hold => exact (h.linked tag hold).mono (.inl hledger) hgrows (List.Subset.refl _) fun _ _ => id
    | inr hstarted =>
      rw [List.mem_singleton.mp hstarted]
      exact ⟨List.mem_append_right _ (List.mem_singleton_self _), hdone⟩
  · rw [Traced.inHand, hinHand]
    exact h.distinct.append (List.nodup_singleton _) (by simpa using hhand)
  · rw [Traced.inHand, hinHand] at hk
    cases List.mem_append.mp hk with
    | inl hold => exact ⟨(h.waiting k hold).1.trans (Nat.lt_succ_self _), fun reply hmem =>
        (h.waiting k hold).2 reply (hreturned k reply hmem)⟩
    | inr hstarted =>
      rw [List.mem_singleton.mp hstarted]
      exact ⟨Nat.lt_succ_self _, fun reply hmem => hopen reply (hreturned _ reply hmem)⟩
  · exact (h.fresh d hd).trans (Nat.lt_succ_self _)
  · rw [Traced.inHand, hinHand]
    cases List.mem_append.mp hinvoke with
    | inl hold =>
      cases h.kept k op hold with
      | inl hreply =>
        obtain ⟨reply, hmem⟩ := hreply
        exact .inl ⟨reply, hgrows hmem⟩
      | inr hk => exact .inr (List.mem_append_left _ hk)
    | inr hlast =>
      obtain ⟨rfl, -⟩ := CallEvent.invoke.inj (List.mem_singleton.mp hlast)
      exact .inr (List.mem_append_right _ (List.mem_singleton_self _))

/-- The receive loop does an operation while nobody holds the lock. -/
theorem Traced.Linear.inLoop (h : t.Linear fl done) {node : Node} {op : LedgerOp}
    (hledger : node.server.toLedger = (t.node.server.toLedger.perform fl op).1)
    (hreply : (t.node.server.toLedger.perform fl op).2 = none) (hthreads : node.threads = t.node.threads)
    (hfree : t.node.locked = false) :
    Traced.Linear fl
      { node := node
        tags := t.spawned node none
        calls := t.calls + 1
        history := t.history ++ [.invoke t.calls op] ++ [.respond t.calls none] }
      (done ++ [⟨t.calls, op, none⟩]) := by
  obtain ⟨hdone, hopen, hhand⟩ := h.unused
  have hgrows : t.history ⊆ t.history ++ [.invoke t.calls op] ++ [.respond t.calls none] := by
    rw [List.append_assoc]
    exact List.subset_append_left _ _
  have hspawned : t.spawned node none = t.tags := by
    rw [Traced.spawned, hthreads, List.drop_length, List.map_nil, List.append_nil]
  have hlater : (done ++ [(⟨t.calls, op, none⟩ : Done LedgerOp LedgerReply)]).map Done.id =
      done.map Done.id ++ [t.calls] := List.map_append
  have hlinearizes := h.linearizes.atomic op hdone hopen
  rw [hreply, ← hledger] at hlinearizes
  have hinHand : (t.spawned node none).filterMap Prod.fst = t.inHand := by
    rw [hspawned]
    rfl
  refine ⟨hlinearizes, ?_, fun tag htag => ?_, ?_, fun k hk => ?_, fun d hd => ?_, fun k op' hinvoke => ?_⟩
  · exact hspawned.symm ▸ hthreads.symm ▸ h.threads
  · have hold : tag ∈ t.tags := hspawned ▸ htag
    refine (h.linked tag hold).mono (.inr (Node.not_holdsLock hfree (h.thread_mem hold))) hgrows
      (List.subset_append_left _ _) fun k hk hmem => ?_
    rw [hlater] at hmem
    refine (List.mem_append.mp hmem).resolve_right fun hlast => hhand ?_
    rw [← List.mem_singleton.mp hlast]
    exact List.mem_filterMap.mpr ⟨tag, hold, hk⟩
  · rw [Traced.inHand, hinHand]
    exact h.distinct
  · obtain ⟨hlt, hopen'⟩ := h.waiting k (hinHand ▸ hk)
    refine ⟨hlt.trans (Nat.lt_succ_self _), fun reply hmem => ?_⟩
    simp only [List.append_assoc, List.mem_append, List.mem_cons, List.not_mem_nil, or_false] at hmem
    rcases hmem with hold | hinvoke | hlast
    · exact hopen' reply hold
    · contradiction
    · exact hlt.ne (CallEvent.respond.inj hlast).1
  · cases List.mem_append.mp hd with
    | inl hold => exact (h.fresh d hold).trans (Nat.lt_succ_self _)
    | inr hlast =>
      rw [List.mem_singleton.mp hlast]
      exact Nat.lt_succ_self _
  · rw [Traced.inHand, hinHand]
    simp only [List.append_assoc, List.mem_append, List.mem_cons, List.not_mem_nil, or_false] at hinvoke
    rcases hinvoke with hold | hlast | hrespond
    · cases h.kept k op' hold with
      | inl hreply =>
        obtain ⟨reply, hmem⟩ := hreply
        exact .inl ⟨reply, hgrows hmem⟩
      | inr hk => exact .inr hk
    · obtain ⟨rfl, -⟩ := CallEvent.invoke.inj hlast
      exact .inl ⟨none, List.mem_append_right _ (List.mem_singleton_self (CallEvent.respond t.calls none))⟩
    · contradiction

/-! ## The detached threads -/

variable (fl) in
/-- What a step of a thread leaves of the operation it is about. -/
structure Traced.Moves (t : Traced) (done : List (Done LedgerOp LedgerReply)) (id : Option ℕ) (server : Server)
    (new : List Thread) (returned : List (CallEvent LedgerOp LedgerReply)) (later : List (Done LedgerOp LedgerReply)) :
    Prop where
  linearizes : Linearizes (Ledger.perform fl) {} (t.history ++ returned) later server.toLedger
  ledger : server.toLedger = t.node.server.toLedger ∨ t.node.locked = false
  own : ∀ thread ∈ new, Linked server.toLedger (t.history ++ returned) later id thread
  keeps : done ⊆ later
  effects : ∀ d ∈ later, d ∈ done ∨ d.id ∈ id
  stands : (new.map (id, ·)).filterMap Prod.fst = id.toList ∧ returned = [] ∨
    new = [] ∧ ∃ k reply, id = some k ∧ returned = [.respond k reply]

/-- The operations in hand after a step of a thread. -/
theorem Traced.Moves.hands {i : ℕ} {id : Option ℕ} {thread : Thread} (htag : t.tags[i]? = some (id, thread))
    {server : Server} {new : List Thread} {returned : List (CallEvent LedgerOp LedgerReply)}
    {later : List (Done LedgerOp LedgerReply)} (hmoves : t.Moves fl done id server new returned later) :
    ((t.tags.eraseIdx i ++ new.map (id, ·)).filterMap Prod.fst).Perm t.inHand ∧ returned = [] ∨
      ∃ k reply, returned = [.respond k reply] ∧
        (k :: (t.tags.eraseIdx i ++ new.map (id, ·)).filterMap Prod.fst).Perm t.inHand := by
  have hperm := Traced.inHand_perm htag
  rw [List.filterMap_append]
  rcases hmoves.stands with ⟨hsame, hreturned⟩ | ⟨rfl, k, reply, rfl, hreturned⟩
  · exact .inl ⟨hsame ▸ List.perm_append_comm.trans hperm, hreturned⟩
  · exact .inr ⟨k, reply, hreturned, by simpa using hperm⟩

/-- A step of a thread. -/
theorem Traced.Linear.moved (h : t.Linear fl done) {i : ℕ} {id : Option ℕ} {thread : Thread}
    (htag : t.tags[i]? = some (id, thread)) (node : Node) {new : List Thread}
    {returned : List (CallEvent LedgerOp LedgerReply)} {later : List (Done LedgerOp LedgerReply)}
    (hthreads : node.threads = t.node.threads.eraseIdx i ++ new)
    (hmoves : t.Moves fl done id node.server new returned later) :
    ({ t with
        node := node
        tags := t.tags.eraseIdx i ++ new.map (id, ·)
        history := t.history ++ returned } : Traced).Linear fl later := by
  have hdisjoint := (Traced.inHand_perm htag).nodup_iff.mpr h.distinct
  have hgrows : t.history ⊆ t.history ++ returned := List.subset_append_left _ _
  have hinvoke : ∀ k op, .invoke k op ∈ t.history ++ returned → .invoke k op ∈ t.history := by
    intro k op hmem
    refine (List.mem_append.mp hmem).resolve_right fun hreturned => ?_
    rcases hmoves.stands with ⟨-, hnone⟩ | ⟨-, k', reply, -, hlast⟩
    · exact List.not_mem_nil (hnone ▸ hreturned)
    · rw [hlast] at hreturned
      have heq := List.mem_singleton.mp hreturned
      contradiction
  refine ⟨hmoves.linearizes, ?_, fun tag htag' => ?_, ?_, fun k hk => ?_, fun d hd => ?_, fun k op hmem => ?_⟩
  · rw [hthreads, List.map_append, ← List.eraseIdx_map, h.threads, List.map_map]
    exact congrArg _ (List.map_id _)
  · cases List.mem_append.mp htag' with
    | inl hold =>
      have hmem := List.mem_of_mem_eraseIdx hold
      refine (h.linked tag hmem).mono (hmoves.ledger.imp_right fun hfree => ?_) hgrows hmoves.keeps fun k hk hdone => ?_
      · exact Node.not_holdsLock hfree (h.thread_mem hmem)
      · obtain ⟨d, hd, rfl⟩ := List.mem_map.mp hdone
        refine List.mem_map_of_mem ((hmoves.effects d hd).resolve_right fun hid => ?_)
        -- the thread that moves is about another operation than this one
        exact List.disjoint_of_nodup_append hdisjoint (Option.mem_toList.mpr hid)
          (List.mem_filterMap.mpr ⟨tag, hold, hk⟩)
    | inr hnew =>
      obtain ⟨thread', hthread, rfl⟩ := List.mem_map.mp hnew
      exact hmoves.own thread' hthread
  · rcases Traced.Moves.hands htag hmoves with ⟨hsame, -⟩ | ⟨k, reply, -, hone⟩
    · exact hsame.nodup_iff.mpr h.distinct
    · exact (List.nodup_cons.mp (hone.nodup_iff.mpr h.distinct)).2
  · rcases Traced.Moves.hands htag hmoves with ⟨hsame, hreturned⟩ | ⟨k', reply, hreturned, hone⟩
    · obtain ⟨hlt, hopen⟩ := h.waiting k (hsame.mem_iff.mp hk)
      rw [hreturned, List.append_nil]
      exact ⟨hlt, hopen⟩
    · obtain ⟨hlt, hopen⟩ := h.waiting k (hone.mem_iff.mp (List.mem_cons_of_mem _ hk))
      refine ⟨hlt, fun reply' hmem => hopen reply' ((List.mem_append.mp hmem).resolve_right fun hlast => ?_)⟩
      rw [hreturned] at hlast
      obtain ⟨rfl, -⟩ := CallEvent.respond.inj (List.mem_singleton.mp hlast)
      exact (List.nodup_cons.mp (hone.nodup_iff.mpr h.distinct)).1 hk
  · cases hmoves.effects d hd with
    | inl hold => exact h.fresh d hold
    | inr hid => exact (h.waiting d.id ((Traced.inHand_perm htag).mem_iff.mp
        (List.mem_append_left _ (Option.mem_toList.mpr hid)))).1
  · cases h.kept k op (hinvoke k op hmem) with
    | inl hreply =>
      obtain ⟨reply, hold⟩ := hreply
      exact .inl ⟨reply, hgrows hold⟩
    | inr hk =>
      rcases Traced.Moves.hands htag hmoves with ⟨hsame, -⟩ | ⟨k', reply, hreturned, hone⟩
      · exact .inr (hsame.mem_iff.mpr hk)
      · cases List.mem_cons.mp (hone.mem_iff.mpr hk) with
        | inl heq => exact .inl ⟨reply, List.mem_append_right _ (by rw [hreturned, heq]; exact List.mem_singleton_self _)⟩
        | inr hin => exact .inr hin

/-- A thread of no request goes on with its own affairs. -/
theorem Thread.step_ofRequest {s : Server} {locked : Bool} {thread : Thread} {o : ThreadOutcome}
    (hnone : thread.ofRequest = false) (hstep : thread.step fl s locked = some o) :
    o.server.toLedger = s.toLedger ∧ ∀ new ∈ o.threads, new.ofRequest = false := by
  cases Thread.step_cases fl hstep with
  | request | processing | replying => contradiction
  | _ => exact ⟨rfl, by simp [Thread.ofRequest]⟩

/-- Every step of a thread moves its operation. -/
theorem Traced.Linear.moves (h : t.Linear fl done) {i : ℕ} {id : Option ℕ} {thread : Thread}
    (htag : t.tags[i]? = some (id, thread)) (hlinked : Linked t.node.server.toLedger t.history done id thread)
    {o : ThreadOutcome} (hstep : thread.step fl t.node.server t.node.locked = some o) :
    ∃ later, t.Moves fl done id o.server o.threads (returns id o.sends) later := by
  cases id with
  | none =>
    obtain ⟨hledger, hnew⟩ := Thread.step_ofRequest (linked_none.mp hlinked) hstep
    have hreturns : returns none o.sends = [] := rfl
    refine ⟨done, ⟨?_, .inl hledger, fun new hmem => linked_none.mpr (hnew new hmem), List.Subset.refl _,
      fun d hd => .inl hd, .inl ⟨filterMap_fst_map_none _, hreturns⟩⟩⟩
    rw [hreturns, List.append_nil, hledger]
    exact h.linearizes
  | some k =>
    have hhand : k ∈ t.inHand := List.mem_filterMap.mpr ⟨_, List.mem_of_getElem? htag, rfl⟩
    cases Thread.step_cases fl hstep with
    | @request req clientAddr server status balance hfree hserved =>
      obtain ⟨hcalled, hnew⟩ := hlinked
      have hledger : server.toLedger = (t.node.server.toLedger.perform fl (.request clientAddr req)).1 := by
        rw [Ledger.perform_request]
        have happly := t.node.server.handleTransactionLogic_toLedger fl (inetNtop clientAddr.sinAddr)
          (inetNtop req.destAddr) req.value.toInt req.seqn.toInt
        rw [hserved] at happly
        exact happly
      have heffect := h.linearizes.effect hcalled hnew
      rw [Ledger.perform_reply fl hserved, ← hledger] at heffect
      have hreturns : t.history ++ returns (some k) [] = t.history := List.append_nil _
      refine ⟨_, ⟨hreturns.symm ▸ heffect, .inr hfree, fun thread hthread => ?_, List.subset_append_left _ _,
        fun d hd => ?_, .inl ⟨rfl, rfl⟩⟩⟩
      · rw [List.mem_singleton.mp hthread]
        exact List.mem_append_right _ (List.mem_singleton_self _)
      · refine (List.mem_append.mp hd).imp_right fun hlast => ?_
        rw [List.mem_singleton.mp hlast]
        rfl
    | @processing req clientAddr status balance receipt =>
      have hreturns : returns (some k) (t.node.server.propagateSuccess (inetNtop clientAddr.sinAddr)
          (inetNtop req.destAddr) status) = [] := by
        simp [returns, acksIn_propagateSuccess]
      have hledger : (if shouldNotify status then t.node.server.notify else t.node.server).toLedger =
          t.node.server.toLedger := by
        split <;> rfl
      refine ⟨done, ⟨?_, .inl hledger, fun thread hthread => ?_, List.Subset.refl _, fun d hd => .inl hd,
        .inl ⟨rfl, hreturns⟩⟩⟩
      · simp only [hreturns, List.append_nil, hledger]
        exact h.linearizes
      · rw [List.mem_singleton.mp hthread]
        exact ⟨req, hlinked⟩
    | @replying clientAddr ack receipt =>
      obtain ⟨req, hdone⟩ := hlinked
      exact ⟨done, ⟨h.linearizes.respond hdone (h.waiting k hhand).2, .inl rfl, by simp, List.Subset.refl _,
        fun d hd => .inl hd, .inr ⟨rfl, k, some (clientAddr.sinAddr, ack), rfl, rfl⟩⟩⟩
    | _ => contradiction

/-! ## Runs -/

/-- An event of the receive loop about no operation. -/
theorem Traced.after_idle {e : NodeEvent} (hloop : ∀ i, e ≠ .act (.runThread i)) (hop : t.node.operation e = none)
    (node : Node) (sends : List Send) : t.after e node sends = { t with node := node, tags := t.spawned node none } := by
  cases e with
  | receive packet sender => simp only [Traced.after, hop]
  | act action =>
    cases action with
    | runThread i => exact absurd rfl (hloop i)
    | _ => simp only [Traced.after, hop]

/-- A packet that the receive loop drops is about no operation. -/
theorem Node.operation_dropped {n : Node} {packet : Packet} {sender : SockAddr}
    (h : packet.heededBy n.server.currentRole = false) : n.operation (.receive packet sender) = none := by
  cases packet with
  | transactionReq | discovery => exact if_neg fun hrole => of_decide_eq_false h hrole.2
  | _ => rfl

/-- A packet that arrives at another time than between two handlers is about no operation. -/
theorem Node.operation_elsewhere {n : Node} {packet : Packet} {sender : SockAddr} (h : n.loop ≠ .receiving) :
    n.operation (.receive packet sender) = none := by
  cases packet with
  | transactionReq | discovery => exact if_neg fun hloop => h hloop.1
  | _ => rfl

/-- One step of the process. -/
theorem Traced.Linear.step {t' : Traced} (h : t.Linear fl done) {e : NodeEvent} (hstep : t.step fl e = some t') :
    ∃ later, t'.Linear fl later := by
  obtain ⟨⟨node, sends⟩, hnode, hafter⟩ := Option.bind_eq_some_iff.mp hstep
  obtain rfl := Option.some.inj hafter
  -- events that start no thread of a request and keep the ledger
  have hidle : (∀ i, e ≠ .act (.runThread i)) → t.node.operation e = none →
      node.server.toLedger = t.node.server.toLedger → ∀ new, node.threads = t.node.threads ++ new →
      (∀ thread ∈ new, thread.ofRequest = false) → ∃ later, (t.after e node sends).Linear fl later := by
    intro hloop hop hledger new hthreads hnew
    exact ⟨done, Traced.after_idle hloop hop node sends ▸ h.idle hledger hthreads hnew⟩
  have hquiet : (∀ i, e ≠ .act (.runThread i)) → t.node.operation e = none →
      node.server.toLedger = t.node.server.toLedger → node.threads = t.node.threads →
      ∃ later, (t.after e node sends).Linear fl later :=
    fun hloop hop hledger hthreads => hidle hloop hop hledger [] (hthreads.trans (List.append_nil _).symm) (by simp)
  cases Node.step_cases fl hnode with
  | discover hloop => exact hquiet (by simp) rfl rfl rfl
  | giveUpDiscovery hloop => exact hidle (by simp) rfl rfl _ rfl (by simp [Thread.ofRequest])
  | foundPrimary hloop => exact hidle (by simp) rfl rfl _ rfl (by simp [Thread.ofRequest])
  | ignored hloop hpacket => exact hquiet (by simp) (Node.operation_elsewhere (by simp [hloop])) rfl rfl
  | dropped hloop hheeded => exact hquiet (by simp) (Node.operation_dropped hheeded) rfl rfl
  | @request req sender hloop hrole =>
    have hop : t.node.operation (.receive (.transactionReq req) sender) = some (.request sender req) :=
      if_pos ⟨hloop, hrole⟩
    simp only [Traced.after, hop]
    exact ⟨done, h.call rfl rfl⟩
  | @client sender hloop hrole hfree =>
    have hop : t.node.operation (.receive .discovery sender) = some (.register (inetNtop sender.sinAddr)) :=
      if_pos ⟨hloop, hrole⟩
    have hledger := t.node.server.handleDiscoveryPacket_toLedger fl sender
    rw [if_pos hrole] at hledger
    simp only [Traced.after, hop]
    exact ⟨_, h.inLoop hledger rfl rfl hfree⟩
  | backup hloop hrole hfree => exact hquiet (by simp) rfl rfl rfl
  | @heartbeat sender hloop =>
    exact hquiet (by simp) rfl (Server.handleHeartbeatPacket_sameCore _).ledger rfl
  | serverDiscovery hloop => exact hquiet (by simp) rfl rfl rfl
  | @announcement newLeaderId sender hloop =>
    exact hquiet (by simp) rfl (Server.handleNewPrimaryAnnouncementPacket_toLedger _ _ _) rfl
  | @election senderId sender hloop =>
    exact hquiet (by simp) rfl (Server.handleElectionPacket_sameCore _ _ _).ledger rfl
  | @electionAnswer senderId sender hloop =>
    exact hquiet (by simp) rfl (Server.handleElectionAnswerPacket_sameCore _ _).ledger rfl
  | @update packet sender hloop hupdate hrole =>
    have hop : t.node.operation (.receive packet sender) = none := by
      cases packet <;> first | contradiction | rfl
    exact hquiet (by simp) hop rfl rfl
  | @updated packet hloop hfree =>
    have hop : t.node.operation (.act .resume) = some (.update packet) := by
      simp only [Node.operation, hloop]
    simp only [Traced.after, hop]
    exact ⟨_, h.inLoop (Server.handleUpdate_toLedger fl _ _) rfl rfl hfree⟩
  | sent hloop => exact hquiet (by simp) (by simp only [Node.operation, hloop]) rfl rfl
  | registered hloop => exact hquiet (by simp) (by simp only [Node.operation, hloop]) rfl rfl
  | @ran i thread o hget houtcome =>
    obtain ⟨id, htag, hlinked⟩ := h.tag hget
    obtain ⟨later, hmoves⟩ := h.moves htag hlinked houtcome
    simp only [Traced.after, htag, Option.bind_some, List.drop_left]
    exact ⟨later, h.moved htag _ rfl hmoves⟩

/-- Nothing has been called yet. -/
theorem linear_fresh (serverId : Word) (port : UInt16) :
    ({ node := Node.new serverId port } : Traced).Linear fl [] where
  linearizes := linearizes_nil _ _
  threads := rfl
  linked _ htag := absurd htag List.not_mem_nil
  distinct := List.nodup_nil
  waiting _ hk := absurd hk List.not_mem_nil
  fresh _ hd := absurd hd List.not_mem_nil
  kept _ _ hinvoke := absurd hinvoke List.not_mem_nil

/-- In every state of a run some order of the operations that have taken effect linearizes them. -/
theorem Traced.exists_linear {serverId : Word} {port : UInt16}
    (h : Reachable (Traced.step fl) Always (· = { node := Node.new serverId port }) t) :
    ∃ done, t.Linear fl done := by
  induction h with
  | init hs => exact ⟨[], hs ▸ linear_fresh serverId port⟩
  | step _ _ hstep ih =>
    obtain ⟨done, hlinear⟩ := ih
    exact hlinear.step hstep

end

/-- In every run of a server process, the requests it takes up, the registrations and the updates
have a sequential order: done one after the other in it, they give the ledger and the very
acknowledgements of the run, and an operation that had returned before another was called comes
before it. A request that has not been acknowledged is in the hands of a thread. -/
theorem request_threads_linearizable {serverId : Word} {port : UInt16} {t : Traced}
    (h : Reachable (Traced.step fl) Always (· = { node := Node.new serverId port }) t) :
    (∃ done, Linearizes (Ledger.perform fl) {} t.history done t.node.server.toLedger) ∧
      ∀ k op, .invoke k op ∈ t.history → (∃ reply, .respond k reply ∈ t.history) ∨
        ∃ thread ∈ t.node.threads, (some k, thread) ∈ t.tags := by
  obtain ⟨done, hlinear⟩ := Traced.exists_linear h
  refine ⟨⟨done, hlinear.linearizes⟩, fun k op hinvoke => (hlinear.kept k op hinvoke).imp_right fun hk => ?_⟩
  obtain ⟨⟨id, thread⟩, htag, hid⟩ := List.mem_filterMap.mp hk
  obtain rfl : id = some k := hid
  exact ⟨thread, hlinear.thread_mem htag, htag⟩

/-- A second request overtakes the first one, whose acknowledgement leaves first nevertheless. -/
def overtaken : List NodeEvent :=
  electedWithRequest ++ [.receive (.transactionReq ⟨(testHost 21).sinAddr, 100, 2⟩) (testHost 21)] ++
    [2, 2, 1, 2, 2, 1].map fun i => .act (.runThread i)

/-- The requests that overtook one another have an order. -/
theorem overtaken_linearizable :
    ∃ t : Traced, (t.calls = 3 ∧ t.inHand = [] ∧ t.node.server.transactionHistory.length = 1) ∧
      (∃ done, Linearizes (Ledger.perform singlePrecision) {} t.history done t.node.server.toLedger) ∧
      ∀ k op, .invoke k op ∈ t.history → (∃ reply, .respond k reply ∈ t.history) ∨
        ∃ thread ∈ t.node.threads, (some k, thread) ∈ t.tags := by
  obtain ⟨t, hreach, htest⟩ := exists_reachable_of_replay (Traced.step singlePrecision) Always
    (· = { node := Node.new 2 4000 }) overtaken
    (fun t => decide (t.calls = 3 ∧ t.inHand = [] ∧ t.node.server.transactionHistory.length = 1)) rfl
    (by decide +kernel)
  exact ⟨t, of_decide_eq_true htest, request_threads_linearizable singlePrecision hreach⟩

end BankReplica
