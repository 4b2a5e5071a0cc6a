import BankReplica.Calls
import BankReplica.Library.Schedules
import Mathlib.Data.List.Induction

/-!
# Affordable workloads

Each client has a stream of transfers that the initial balance pays for without any
income, numbered 1, 2, ... in order. Whatever the schedule, the source of the next
transfer has its initial balance less what it has paid, plus what it has received, so
every transfer is accepted when it first arrives and is a repetition afterwards. What the
ledger holds is a function of how much of each stream has been executed.
-/

namespace BankReplica

open KeyedList Schedules

/-- A transfer a client is to request. -/
structure Order where
  dest : InAddr
  value : ℤ

/-- The stream of every client; the order at position `n` has sequence number `n + 1`. -/
abbrev Workload := IpString → List Order

/-- The lengths of the streams. -/
def Workload.length (w : Workload) (ip : IpString) : ℕ := (w ip).length

/-- The delivery of one request, with the status of its reply. -/
def Workload.deliver (w : Workload) (s : Server) (d : IpString × ℕ) : Server × Option TransactionStatus :=
  match (w d.1)[d.2]? with
  | some order =>
    let (s', reply, _) := s.processTransaction exactBalances d.1 order.dest order.value (d.2 + 1)
    (s', some reply.status)
  | none => (s, none)

/-- The deliveries of a schedule. -/
def Workload.run (w : Workload) (s : Server) (schedule : List (IpString × ℕ)) : Server :=
  schedule.foldl (fun s d => (w.deliver s d).1) s

/-- Every client is as it was registered, under an address of its own. -/
structure Enrolled (l : Ledger) : Prop where
  nodup : l.addresses.Nodup
  fresh : ∀ c ∈ l.clients, c = .new c.address

/-- A registration keeps the clients enrolled. -/
theorem Enrolled.register {l : Ledger} (h : Enrolled l) (ip : IpString) :
    Enrolled (l.apply exactBalances (.addClient ip)) := by
  simp only [Ledger.apply]
  split
  · exact h
  · rename_i hnew
    constructor
    · exact Ledger.nodup_register _ h.nodup hnew
    · intro c hc
      cases List.mem_append.mp hc with
      | inl hold => exact h.fresh c hold
      | inr hadded =>
        rw [List.mem_singleton.mp hadded]
        rfl

/-- The clients a fresh primary has registered are enrolled. -/
theorem enrolled_registered (serverId : Word) (port : UInt16) (ips : List IpString) :
    Enrolled ((freshPrimary serverId port).runCalls exactBalances (ips.map .addClient)).toLedger := by
  induction ips using List.reverseRecOn with
  | nil => exact ⟨List.nodup_nil, by simp [Server.runCalls, freshPrimary, Server.new]⟩
  | append_singleton rest ip ih =>
    rw [Server.runCalls_toLedger] at ih ⊢
    rw [List.map_append, List.foldl_append]
    exact ih.register ip

/-- Registered clients send orders to registered clients, of values that are not negative
and that the initial balance pays for. -/
structure Affordable (w : Workload) (addresses : List IpString) : Prop where
  sources : ∀ ip, w ip ≠ [] → ip ∈ addresses
  dests : ∀ ip, ∀ order ∈ w ip, inetNtop order.dest ∈ addresses
  nonneg : ∀ ip, ∀ order ∈ w ip, 0 ≤ order.value
  covered : ∀ ip, ((w ip).map Order.value).sum ≤ initialBalance

/-! ## The ledger as a function of the progress -/

/-- What a client has paid with the first orders of its stream. -/
def Workload.paid (w : Workload) (ip : IpString) (n : ℕ) : ℤ := prefixSum Order.value (w ip) n

/-- What one client has received from the first orders of another. -/
def Workload.received (w : Workload) (ip source : IpString) (n : ℕ) : ℤ :=
  prefixSum (fun order => if inetNtop order.dest = ip then order.value else 0) (w source) n

/-- The record of a client once each stream has been executed so far. -/
def Workload.record (w : Workload) (sources : List IpString) (progress : IpString → ℕ) (ip : IpString) :
    ClientDTO where
  address := ip
  lastReq := progress ip
  balance := initialBalance + (sources.map fun source => w.received ip source (progress source)).sum -
    w.paid ip (progress ip)

/-- A ledger that has executed so much of each stream, from a given one. -/
structure Executed (w : Workload) (base : Ledger) (progress : IpString → ℕ) (l : Ledger) : Prop where
  clients : l.clients = base.clients.map fun c => w.record base.addresses progress c.address
  numTransactions : l.numTransactions =
    base.numTransactions + (base.addresses.map fun ip => (progress ip : ℤ)).sum
  totalTransferred : l.totalTransferred =
    base.totalTransferred + (base.addresses.map fun ip => w.paid ip (progress ip)).sum

variable {w : Workload} {base l : Ledger} {progress : IpString → ℕ}

/-- Nothing of the streams has been executed where the clients have just been registered. -/
theorem Enrolled.executed (h : Enrolled base) : Executed w base (fun _ => 0) base where
  clients := by
    symm
    calc (base.clients.map fun c => w.record base.addresses (fun _ => 0) c.address) = base.clients.map id := by
          apply List.map_congr_left
          intro c hc
          rw [h.fresh c hc]
          simp [Workload.record, Workload.received, Workload.paid, prefixSum, ClientDTO.new]
      _ = base.clients := List.map_id _
  numTransactions := by simp
  totalTransferred := by simp [Workload.paid, prefixSum]

/-- Execution keeps the list of addresses. -/
theorem Executed.addresses (h : Executed w base progress l) : l.addresses = base.addresses := by
  rw [Ledger.addresses, h.clients, List.map_map]
  rfl

/-- The account of a registered client is its record. -/
theorem Executed.account (h : Executed w base progress l) {ip : IpString} (hip : ip ∈ base.addresses) :
    l.account ip = some (w.record base.addresses progress ip) := by
  rw [← h.addresses, ← Ledger.account_isSome] at hip
  obtain ⟨c, hc⟩ := Option.isSome_iff_exists.mp hip
  obtain ⟨hmem, haddress⟩ := Ledger.account_some hc
  rw [h.clients] at hmem
  obtain ⟨old, _, rfl⟩ := List.mem_map.mp hmem
  have hold : old.address = ip := haddress
  rw [hc, hold]

/-- A client can pay its next order from what it was given at registration. -/
theorem Affordable.pays (hw : Affordable w base.addresses) {ip : IpString} {order : Order}
    (horder : (w ip)[progress ip]? = some order) :
    order.value ≤ (w.record base.addresses progress ip).balance := by
  have hpaid : w.paid ip (progress ip) + order.value ≤ initialBalance := by
    calc w.paid ip (progress ip) + order.value = w.paid ip (progress ip + 1) := (prefixSum_succ horder).symm
      _ ≤ ((w ip).map Order.value).sum := prefixSum_le (hw.nonneg ip) _
      _ ≤ initialBalance := hw.covered ip
  have hreceived : 0 ≤ (base.addresses.map fun source => w.received ip source (progress source)).sum := by
    apply List.sum_nonneg
    intro x hx
    obtain ⟨source, _, rfl⟩ := List.mem_map.mp hx
    apply prefixSum_nonneg
    intro order horder
    split
    · exact hw.nonneg source order horder
    · exact le_rfl
  simp only [Workload.record]
  linarith

/-- The first delivery of the next order is accepted. -/
theorem Executed.accept (h : Executed w base progress l) (hw : Affordable w base.addresses) {ip : IpString}
    {order : Order} (horder : (w ip)[progress ip]? = some order) :
    l.verdict exactBalances ip (inetNtop order.dest) order.value (progress ip + 1) = .success := by
  have hmem := List.mem_of_getElem? horder
  have hsource := h.account (hw.sources ip (List.ne_nil_of_mem hmem))
  have hdest := h.account (hw.dests ip order hmem)
  exact (Ledger.verdict_eq_success _).mpr ⟨_, _, hsource, hdest, rfl, hw.pays horder⟩

/-- The delivery of an order executed before is a repetition. -/
theorem Executed.duplicate (h : Executed w base progress l) (hw : Affordable w base.addresses) {ip : IpString}
    {i : ℕ} (hi : i < progress ip) {order : Order} (horder : (w ip)[i]? = some order) :
    l.verdict exactBalances ip (inetNtop order.dest) order.value (i + 1) = .errorDuplicateRequest := by
  have hmem := List.mem_of_getElem? horder
  have hsource := h.account (hw.sources ip (List.ne_nil_of_mem hmem))
  have hdest := h.account (hw.dests ip order hmem)
  rw [Ledger.verdict_of_accounts _ hsource hdest]
  apply if_pos
  simp only [Workload.record]
  omega

/-- The movement of the next order takes every record to its record at the next progress. -/
theorem moveRecord_record {sources : List IpString} (hsources : sources.Nodup) {ip : IpString} (hip : ip ∈ sources)
    {order : Order} (horder : (w ip)[progress ip]? = some order) (client : IpString) :
    moveRecord exactBalances ip (inetNtop order.dest) order.value (progress ip + 1)
        (w.record sources progress client) =
      w.record sources (Function.update progress ip (progress ip + 1)) client := by
  have hbalance : (moveRecord exactBalances ip (inetNtop order.dest) order.value (progress ip + 1)
        (w.record sources progress client)).balance =
      (w.record sources progress client).balance + (if inetNtop order.dest = client then order.value else 0) -
        (if ip = client then order.value else 0) :=
    moveRecord_balance _ _ _ _ _
  have hreceived := sum_update hsources hip (w.received client) progress (progress ip + 1)
  have hcredit : w.received client ip (progress ip + 1) - w.received client ip (progress ip) =
      if inetNtop order.dest = client then order.value else 0 := by
    rw [Workload.received, Workload.received, prefixSum_succ horder]
    ring
  apply ClientDTO.ext
  · rfl
  · by_cases hclient : client = ip
    · simp only [moveRecord, Workload.record, hclient, if_true, Function.update_self]
      push_cast
      rfl
    · simp only [moveRecord, Workload.record, hclient, if_false, Function.update_of_ne hclient]
  · rw [hbalance]
    simp only [Workload.record, hreceived, hcredit]
    by_cases hclient : ip = client
    · subst hclient
      have hpaid : w.paid ip (progress ip + 1) = w.paid ip (progress ip) + order.value := prefixSum_succ horder
      rw [Function.update_self, hpaid, if_pos rfl]
      ring
    · rw [Function.update_of_ne (Ne.symm hclient), if_neg hclient]
      ring

/-- Executing the next order moves the records and the counters on. -/
theorem Executed.commit (h : Executed w base progress l) (hbase : base.addresses.Nodup) {ip : IpString}
    (hip : ip ∈ base.addresses) {order : Order} (horder : (w ip)[progress ip]? = some order) :
    Executed w base (Function.update progress ip (progress ip + 1))
      (l.commit exactBalances ip (inetNtop order.dest) order.value (progress ip + 1)) where
  clients := by
    rw [Ledger.commit_clients _ (h.addresses ▸ hbase), h.clients, List.map_map]
    apply List.map_congr_left
    intro c _
    exact moveRecord_record hbase hip horder c.address
  numTransactions := by
    have hsum := sum_update hbase hip (fun _ n => (n : ℤ)) progress (progress ip + 1)
    rw [Ledger.commit_numTransactions, h.numTransactions, hsum]
    push_cast
    ring
  totalTransferred := by
    have hsum := sum_update hbase hip w.paid progress (progress ip + 1)
    have hpaid : w.paid ip (progress ip + 1) = w.paid ip (progress ip) + order.value := prefixSum_succ horder
    rw [Ledger.commit_totalTransferred, h.totalTransferred, hsum, hpaid]
    ring

/-! ## Deliveries -/

/-- What a delivery does to the ledger and answers. -/
theorem Workload.deliver_some {s : Server} {ip : IpString} {i : ℕ} {order : Order} (horder : (w ip)[i]? = some order) :
    (w.deliver s (ip, i)).2 = some (s.verdict exactBalances ip (inetNtop order.dest) order.value (i + 1)) ∧
      (w.deliver s (ip, i)).1.toLedger =
        if s.verdict exactBalances ip (inetNtop order.dest) order.value (i + 1) = .success then
          s.toLedger.commit exactBalances ip (inetNtop order.dest) order.value (i + 1)
        else s.toLedger := by
  simp only [Workload.deliver, horder]
  exact ⟨congrArg some (s.processTransaction_status exactBalances ip order.dest order.value (i + 1)),
    s.processTransaction_toLedger exactBalances ip order.dest order.value (i + 1)⟩

/-- The first delivery of an order is accepted and executes it. -/
theorem Executed.deliver_first {s : Server} (h : Executed w base progress s.toLedger) (hbase : base.addresses.Nodup)
    (hw : Affordable w base.addresses) {ip : IpString} (hnext : progress ip < w.length ip) :
    (w.deliver s (ip, progress ip)).2 = some .success ∧
      Executed w base (Function.update progress ip (progress ip + 1)) (w.deliver s (ip, progress ip)).1.toLedger := by
  obtain ⟨order, horder⟩ : ∃ order, (w ip)[progress ip]? = some order := ⟨_, List.getElem?_eq_getElem hnext⟩
  obtain ⟨hstatus, hledger⟩ := Workload.deliver_some (s := s) horder
  have haccept := h.accept hw horder
  have hip := hw.sources ip (List.ne_nil_of_mem (List.mem_of_getElem? horder))
  rw [haccept] at hstatus
  rw [if_pos haccept] at hledger
  rw [hledger]
  exact ⟨hstatus, h.commit hbase hip horder⟩

/-- A repeated delivery is answered as a repetition and executes nothing. -/
theorem Executed.deliver_again {s : Server} (h : Executed w base progress s.toLedger)
    (hw : Affordable w base.addresses) {ip : IpString} {i : ℕ} (hi : i < progress ip)
    (hlength : progress ip ≤ w.length ip) :
    (w.deliver s (ip, i)).2 = some .errorDuplicateRequest ∧
      Executed w base progress (w.deliver s (ip, i)).1.toLedger := by
  obtain ⟨order, horder⟩ : ∃ order, (w ip)[i]? = some order :=
    ⟨_, List.getElem?_eq_getElem (hi.trans_le hlength)⟩
  obtain ⟨hstatus, hledger⟩ := Workload.deliver_some (s := s) horder
  have hduplicate := h.duplicate hw hi horder
  rw [hduplicate] at hstatus
  rw [hduplicate, if_neg (by decide)] at hledger
  rw [hledger]
  exact ⟨hstatus, h⟩

/-- After any schedule the ledger is the one its progress determines. -/
theorem executed_run {s : Server} (hs : Enrolled s.toLedger) (hw : Affordable w s.addresses)
    {schedule : List (IpString × ℕ)} (h : Schedule w.length schedule progress) :
    Executed w s.toLedger progress (w.run s schedule).toLedger :=
  let deliver := fun s d => (w.deliver s d).1
  h.invariant deliver (I := fun progress t => Executed w s.toLedger progress t.toLedger) hs.executed
    (fun _ _ _ ht hnext => (ht.deliver_first hs.nodup hw hnext).2)
    (fun _ _ _ _ ht hi hlength => (ht.deliver_again hw hi hlength).2)

/-- Under every schedule of an affordable workload every first delivery is accepted, every
repetition is answered as one, and all complete schedules leave the same clients, number
of transactions and total transferred. -/
theorem affordable_workload_confluent (w : Workload) (s : Server) (hs : Enrolled s.toLedger)
    (hw : Affordable w s.addresses) {schedule : List (IpString × ℕ)} (h : Complete w.length schedule) :
    (∀ before d after, schedule = before ++ d :: after →
      (w.deliver (w.run s before) d).2 = some (if d ∈ before then .errorDuplicateRequest else .success)) ∧
    ∀ other, Complete w.length other →
      (w.run s schedule).clients = (w.run s other).clients ∧
      (w.run s schedule).numTransactions = (w.run s other).numTransactions ∧
      (w.run s schedule).totalTransferred = (w.run s other).totalTransferred := by
  constructor
  · intro before d after hsplit
    obtain ⟨ip, i⟩ := d
    subst hsplit
    obtain ⟨reached, hbefore, hdelivery⟩ := h.split
    have hexecuted := executed_run hs hw hbefore
    have hmem := hbefore.mem_iff ip i
    cases hdelivery with
    | inl hfirst =>
      obtain ⟨rfl, hnext⟩ := hfirst
      rw [if_neg (by simp [hmem])]
      exact (hexecuted.deliver_first hs.nodup hw hnext).1
    | inr hagain =>
      rw [if_pos (hmem.mpr hagain)]
      exact (hexecuted.deliver_again hw hagain (hbefore.le_length ip)).1
  · intro other hother
    have hend := executed_run hs hw h
    have hend' := executed_run hs hw hother
    exact ⟨hend.clients.trans hend'.clients.symm, hend.numTransactions.trans hend'.numTransactions.symm,
      hend.totalTransferred.trans hend'.totalTransferred.symm⟩

/-- Client 21 sends 600 to client 22, which sends 1000 back. -/
def exchangeOrders : Workload := fun ip =>
  if ip = inetNtop (testHost 21).sinAddr then [⟨(testHost 22).sinAddr, 600⟩]
  else if ip = inetNtop (testHost 22).sinAddr then [⟨(testHost 21).sinAddr, 1000⟩]
  else []

/-- A fresh primary with these two clients. -/
def exchangeServer : Server :=
  (freshPrimary 1 4000).runCalls exactBalances
    ([inetNtop (testHost 21).sinAddr, inetNtop (testHost 22).sinAddr].map .addClient)

/-- The exchange is the same whichever transfer comes first, and the repeated one is answered
as a repetition. -/
theorem exchange_confluent :
    let first := (inetNtop (testHost 21).sinAddr, 0)
    let second := (inetNtop (testHost 22).sinAddr, 0)
    (exchangeOrders.deliver (exchangeOrders.run exchangeServer [first, second]) first).2 =
        some .errorDuplicateRequest ∧
      (exchangeOrders.run exchangeServer [first, second, first]).clients =
        (exchangeOrders.run exchangeServer [second, first]).clients := by
  intro first second
  have hother : second.1 ≠ first.1 := by decide +kernel
  have hfirst : exchangeOrders.length first.1 = 1 := by decide +kernel
  have hsecond : exchangeOrders.length second.1 = 1 := by decide +kernel
  have haddresses : exchangeServer.addresses = [first.1, second.1] := by decide +kernel
  have haffordable : Affordable exchangeOrders exchangeServer.addresses := by
    rw [haddresses]
    constructor <;> intro ip <;> simp only [exchangeOrders] <;> split_ifs <;> simp_all [initialBalance, first, second]
  have hend : ∀ {ds : List (IpString × ℕ)} {progress : IpString → ℕ}, Schedule exchangeOrders.length ds progress →
      progress first.1 = 1 → progress second.1 = 1 → (∀ ip, ip ≠ first.1 → ip ≠ second.1 → progress ip = 0) →
      Complete exchangeOrders.length ds := by
    intro ds progress h hf hs hrest
    have hall : progress = exchangeOrders.length := by
      funext ip
      by_cases hipf : ip = first.1
      · rw [hipf, hf, hfirst]
      · by_cases hips : ip = second.1
        · rw [hips, hs, hsecond]
        · rw [hrest ip hipf hips, Workload.length, exchangeOrders, if_neg hipf, if_neg hips]
          rfl
    exact hall ▸ h
  have hstart : Schedule exchangeOrders.length [] fun _ => 0 := .nil
  have hforth : Complete exchangeOrders.length [first, second, first] := by
    have hboth := (hstart.next (k := first.1) (i := 0) rfl (by rw [hfirst]; decide)).next
      (k := second.1) (i := 0) (by rw [Function.update_of_ne hother]) (by rw [hsecond]; decide)
    apply hend (hboth.again (k := first.1) (i := 0) ?_)
    · rw [Function.update_of_ne hother.symm, Function.update_self]
    · rw [Function.update_self]
    · intro ip hipf hips
      rw [Function.update_of_ne hips, Function.update_of_ne hipf]
    · rw [Function.update_of_ne hother.symm, Function.update_self]
      decide
  have hback : Complete exchangeOrders.length [second, first] := by
    apply hend ((hstart.next (k := second.1) (i := 0) rfl (by rw [hsecond]; decide)).next
      (k := first.1) (i := 0) (by rw [Function.update_of_ne hother.symm]) (by rw [hfirst]; decide))
    · rw [Function.update_self]
    · rw [Function.update_of_ne hother, Function.update_self]
    · intro ip hipf hips
      rw [Function.update_of_ne hipf, Function.update_of_ne hips]
  have hconfluent := affordable_workload_confluent exchangeOrders exchangeServer
    (enrolled_registered 1 4000 _) haffordable hforth
  refine ⟨?_, (hconfluent.2 [second, first] hback).1⟩
  have hrepeat := hconfluent.1 [first, second] first [] rfl
  rwa [if_pos (List.mem_cons_self ..)] at hrepeat

end BankReplica
