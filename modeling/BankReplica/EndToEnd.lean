import BankReplica.Provenance

/-!
# From the keyboard to the log

In every run of servers and clients, with crashes, elections and a network that loses, delays and
reorders what it likes, and repeats what goes between clients and servers: a client addresses only
servers that were promoted, every log entry on every server is of a line that was typed at the
machine it names, and a client moves past a sequence number only if a server has executed a request
of its machine up to it.
-/

namespace BankReplica

open Runs

variable (fl : FloatRounding)

/-- A request of the machine with at least this number has been executed. -/
def Deployment.Passed (d : Deployment) (addr : InAddr) (seqn : ℤ) : Prop :=
  seqn ≤ 0 ∨ ∃ req, (addr, req) ∈ d.executed ∧ seqn ≤ req.seqn.toInt

/-- A server at the address has been promoted. -/
def Deployment.Primary (d : Deployment) (addr : InAddr) : Prop :=
  ∃ i ∈ d.servers.promoted, ∃ h ∈ d.servers.cluster.hosts[i]?, h.addr.sinAddr = addr

/-- What the requests sent and executed so far, and the promotions, allow servers to say. -/
def Deployment.standard (d : Deployment) : Standard where
  entry := Requested d.executed
  record ip seqn := d.Client ip ∧
    (seqn = 0 ∨ ∃ addr req, (addr, req) ∈ d.executed ∧ ip = inetNtop addr ∧ req.seqn.toInt = seqn)
  request := d.Sent
  passed := d.Passed
  primary i := i ∈ d.servers.promoted
  record_zero _ _ h := ⟨h.1, .inl rfl⟩
  passed_of_record addr seqn lastReq h hle := by
    rcases h.2 with rfl | ⟨source, req, hreq, hsource, rfl⟩
    · exact .inl hle
    · obtain rfl := inetNtop_injective hsource
      exact .inr ⟨req, hreq, hle⟩

/-- What a client program goes by was said within the standard. -/
structure Terminal.Meets (d : Deployment) (t : Terminal) : Prop where
  leaders : ∀ addr ∈ t.program.leaders, d.Primary addr
  socket : ∀ ack ∈ t.program.process.socket, movesOn ack.status = true → d.Passed t.addr ack.seqn.toInt
  numbers : ∀ seqn, seqn < t.program.process.sequenceNumber → seqn < 2 ^ 31 → d.Passed t.addr seqn

/-- Everything held, said and gone by is within the standard. -/
structure Deployment.Sound (d : Deployment) : Prop where
  hosts : ∀ (i : ℕ) (h : Host), d.servers.cluster.hosts[i]? = some h → h.node.Meets d.standard i
  inFlight : ∀ e ∈ d.servers.cluster.inFlight, e.packet.Meets d.standard
  posted : ∀ post ∈ d.posted, post.send.Meets d.standard post.source
  executed : ∀ addr req, (addr, req) ∈ d.executed → d.Sent addr req
  terminals : ∀ t ∈ d.terminals, t.Meets d

/-! ## Clients -/

/-- What a step of a client program takes in. -/
structure ClientProgram.Learns (p : ClientProgram) (e : ProgramEvent) (q : ClientProgram) : Prop where
  leaders : ∀ addr ∈ q.leaders, addr ∈ p.leaders ∨ e = .discovered addr ∨ e = .rediscovered addr ∨ e = .announced addr
  socket : ∀ ack ∈ q.process.socket, ack ∈ p.process.socket ∨ e = .arrive ack
  numbers : q.process.sequenceNumber = p.process.sequenceNumber ∨
    ∃ ack ∈ p.process.socket, movesOn ack.status = true ∧
      ack.seqn = BitVec.ofInt 32 p.process.sequenceNumber ∧
      q.process.sequenceNumber = p.process.sequenceNumber + 1

/-- A step of the communication thread reads what is in its socket. -/
theorem ClientProcess.step_learns {c : ClientProcess} {event : ClientEvent} {outcome : ClientOutcome}
    (h : c.step event = some outcome) :
    outcome.process.socket ⊆ c.socket ∧
      (outcome.process.sequenceNumber = c.sequenceNumber ∨
        ∃ ack ∈ c.socket, movesOn ack.status = true ∧ ack.seqn = BitVec.ofInt 32 c.sequenceNumber ∧
          outcome.process.sequenceNumber = c.sequenceNumber + 1) := by
  cases ClientProcess.step_cases h with
  | taken command retries ack rest hphase hsocket hseqn =>
    have hrest : rest ⊆ c.socket := by
      rw [hsocket]
      exact List.subset_cons_self ack rest
    rw [ClientProcess.processAck_socket, ClientProcess.processAck_sequenceNumber]
    refine ⟨hrest, ?_⟩
    split
    · refine .inr ⟨ack, ?_, ‹_›, hseqn, rfl⟩
      rw [hsocket]
      exact List.mem_cons_self
    · exact .inl (add_zero _)
  | stale command retries ack rest hphase hsocket hseqn =>
    refine ⟨?_, .inl rfl⟩
    rw [hsocket]
    exact List.subset_cons_self ack rest
  | _ => exact ⟨List.Subset.refl _, .inl rfl⟩

/-- Every step takes in what its event brings. -/
theorem ClientProgram.step_learns {p q : ClientProgram} {e : ProgramEvent} (h : p.step e = some q) :
    p.Learns e q := by
  have hheard : ∀ (event : InAddr → ProgramEvent) (last addr : InAddr), q.journal = p.journal ++ [.heard last] →
      addr ∈ q.leaders → addr ∈ p.leaders ∨ event last = event addr := by
    intro event last addr hjournal haddr
    rw [ClientProgram.leaders_of_journal hjournal] at haddr
    exact (List.mem_append.mp haddr).imp_right fun hnew => congrArg event (List.mem_singleton.mp hnew).symm
  cases ClientProgram.step_cases h with
  | discovered last hruns hmain =>
    exact ⟨fun addr haddr => (hheard .discovered last addr rfl haddr).imp_right .inl, fun _ h => .inl h, .inl rfl⟩
  | rediscovered last line hruns hcomm =>
    exact ⟨fun addr haddr => (hheard .rediscovered last addr rfl haddr).imp_right fun hnew => .inr (.inl hnew),
      fun _ h => .inl h, .inl rfl⟩
  | announced last hruns =>
    exact ⟨fun addr haddr => (hheard .announced last addr rfl haddr).imp_right fun hnew => .inr (.inr hnew),
      fun _ h => .inl h, .inl rfl⟩
  | copyAddress | send =>
    refine ⟨fun addr haddr => .inl ?_, fun _ h => .inl h, .inl rfl⟩
    rwa [ClientProgram.leaders_of_dealing (p := p) rfl rfl] at haddr
  | fetchedValid line queue command outcome hruns hstage hqueue hline houtcome =>
    obtain ⟨hsocket, hnumbers⟩ := ClientProcess.step_learns houtcome
    exact ⟨fun _ h => .inl h, fun _ h => .inl (hsocket h), hnumbers⟩
  | client line event outcome hruns hcomm hevent houtcome =>
    obtain ⟨hsocket, hnumbers⟩ := ClientProcess.step_learns houtcome
    refine ⟨?_, ?_, ?_⟩
    · rw [ClientProgram.leaders, ClientProgram.after_journal]
      exact fun _ h => .inl h
    · rw [ClientProgram.after_process]
      exact fun _ h => .inl (hsocket h)
    · rw [ClientProgram.after_process]
      exact hnumbers
  | resolved => exact ⟨fun _ h => .inl h, fun _ h => absurd h List.not_mem_nil, .inl rfl⟩
  | arrive last hrunning =>
    refine ⟨fun _ h => .inl h, fun ack hack => ?_, .inl rfl⟩
    exact (List.mem_append.mp hack).imp_right fun hnew => congrArg _ (List.mem_singleton.mp hnew).symm
  | _ => exact ⟨fun _ h => .inl h, fun _ h => .inl h, .inl rfl⟩

section

variable {fl} {d d' : Deployment}

/-! ## A step widens the standard -/

/-- What was allowed stays allowed. -/
theorem Deployment.standard_within {e : DeploymentEvent} (hstep : d.step fl e = some d') :
    d.standard.Within d'.standard := by
  obtain ⟨hexecuted, hpromoted, hsent, hclient⟩ := Deployment.grows hstep
  refine ⟨?_, ?_, hsent, ?_, fun i hi => hpromoted hi⟩
  · rintro tx ⟨addr, req, hreq, htx⟩
    exact ⟨addr, req, hexecuted hreq, htx⟩
  · rintro ip seqn ⟨hip, hseqn⟩
    refine ⟨hclient ip hip, hseqn.imp_right ?_⟩
    rintro ⟨addr, req, hreq, hrecord⟩
    exact ⟨addr, req, hexecuted hreq, hrecord⟩
  · rintro addr seqn h
    refine h.imp_right ?_
    rintro ⟨req, hreq, hle⟩
    exact ⟨req, hexecuted hreq, hle⟩

/-- A server that was promoted stays known as one. -/
theorem Deployment.primary_step {e : DeploymentEvent} (hstep : d.step fl e = some d') {addr : InAddr}
    (h : d.Primary addr) : d'.Primary addr := by
  obtain ⟨i, hi, host, hhost, rfl⟩ := h
  obtain ⟨host', hhost', haddr⟩ := Deployment.addr_step hstep hhost
  exact ⟨i, (Deployment.grows hstep).2.1 hi, host', hhost', congrArg SockAddr.sinAddr haddr⟩

/-- A client goes on by what it went by. -/
theorem Terminal.Meets.mono {t : Terminal} {e : DeploymentEvent} (h : t.Meets d) (hstep : d.step fl e = some d') :
    t.Meets d' := by
  have hO := Deployment.standard_within hstep
  exact ⟨fun addr haddr => Deployment.primary_step hstep (h.leaders addr haddr),
    fun ack hack hmoves => hO.passed _ _ (h.socket ack hack hmoves),
    fun seqn hlt hfits => hO.passed _ _ (h.numbers seqn hlt hfits)⟩

/-! ## Turns of servers -/

/-- A request that is executed came from a request thread. -/
theorem Node.executes_eq {n : Node} {e : NodeEvent} {addr : InAddr} {req : ReqData}
    (h : n.executes fl e = some (addr, req)) :
    ∃ clientAddr, .request req clientAddr ∈ n.threads ∧ clientAddr.sinAddr = addr := by
  cases e with
  | receive packet sender => contradiction
  | act action =>
    cases action with
    | runThread k =>
      simp only [Node.executes] at h
      split at h
      · rename_i req' clientAddr hget
        split at h
        · obtain ⟨rfl, rfl⟩ := Prod.mk.inj (Option.some.inj h)
          exact ⟨clientAddr, List.mem_of_getElem? hget, rfl⟩
        · contradiction
      · contradiction
    | _ => contradiction

/-- What arrives at a server in a turn is within the standard. -/
theorem Deployment.Sound.arrives (h : d.Sound) {e : ClusterEvent} {turn : Turn}
    (hcausal : d.Causal (.server (.step e))) (hturn : d.servers.turn (.step e) = some turn) :
    turn.event.Meets d.standard := by
  cases e with
  | act i action =>
    obtain rfl := Option.some.inj hturn
    trivial
  | discovery i client =>
    obtain rfl := Option.some.inj hturn
    obtain ⟨t, ht, haddr⟩ := hcausal
    exact ⟨⟨t, ht, congrArg inetNtop haddr.symm⟩, .inl rfl⟩
  | request i client req =>
    obtain rfl := Option.some.inj hturn
    obtain ⟨t, ht, haddr, host, -, hsent⟩ := hcausal
    exact ⟨t, ht, haddr, List.mem_map_of_mem hsent⟩
  | deliver k =>
    obtain ⟨envelope, hget, hrest⟩ := Option.bind_eq_some_iff.mp hturn
    obtain ⟨source, hsource, hturn⟩ := Option.bind_eq_some_iff.mp hrest
    obtain rfl := Option.some.inj hturn
    have hpacket := h.inFlight envelope (List.mem_of_getElem? hget)
    obtain ⟨source, dest, packet⟩ := envelope
    cases packet <;> first | exact hpacket | contradiction

/-- A turn of a server. -/
theorem Deployment.Sound.turn (h : d.Sound) {e : ClusterEvent} {turn : Turn} {host : Host} {node : Node}
    {sends : List Send} (hcausal : d.Causal (.server (.step e))) (hturn : d.servers.turn (.step e) = some turn)
    (hhost : d.servers.cluster.hosts[turn.host]? = some host)
    (hnode : host.node.step fl turn.event = some (node, sends))
    (hstep : d.step fl (.server (.step e)) = some (d.after fl turn host node sends)) :
    (d.after fl turn host node sends).Sound := by
  have hO := Deployment.standard_within hstep
  have hsent : ∀ addr req, (addr, req) ∈ (d.after fl turn host node sends).executed → d.Sent addr req := by
    intro addr req hreq
    cases List.mem_append.mp hreq with
    | inl hold => exact h.executed addr req hold
    | inr hnew =>
      obtain ⟨clientAddr, hthread, rfl⟩ := Node.executes_eq (Option.mem_toList.mp hnew)
      exact ((h.hosts _ _ hhost).threads _ hthread).2
  have hallowed : host.node.Allowed fl (d.after fl turn host node sends).standard turn.host turn.event := by
    refine ⟨(h.arrives hcausal hturn).mono hO, fun addr req hexecutes => ?_, fun hpromotes => ?_⟩
    · have hreq : (addr, req) ∈ (d.after fl turn host node sends).executed := by
        refine List.mem_append_right _ ?_
        rw [hexecutes]
        exact List.mem_singleton_self _
      obtain ⟨t, ht, haddr, -⟩ := hsent addr req hreq
      exact ⟨fun id => ⟨addr, req, hreq, rfl, rfl, rfl, rfl⟩,
        ⟨t, ht, congrArg inetNtop haddr.symm⟩, .inr ⟨addr, req, hreq, rfl, rfl⟩⟩
    · simp [Deployment.standard, Deployment.after, Campaign.after, hpromotes]
  obtain ⟨hmeets, hsends⟩ := ((h.hosts _ _ hhost).mono hO).step fl hallowed hnode
  refine ⟨?_, ?_, ?_, hsent, fun t ht => (h.terminals t ht).mono hstep⟩
  · intro i g hg
    by_cases hi : i = turn.host
    · subst hi
      rw [show (d.after fl turn host node sends).servers.cluster.hosts[turn.host]? = _ from
        Cluster.after_self hhost node sends] at hg
      obtain rfl := Option.some.inj hg
      exact hmeets
    · rw [show (d.after fl turn host node sends).servers.cluster.hosts[i]? = _ from
        Cluster.after_other _ turn host node sends hi] at hg
      exact (h.hosts i g hg).mono hO
  · intro envelope henvelope
    cases List.mem_append.mp henvelope with
    | inl hold => exact (h.inFlight envelope ((Campaign.turn_offers hturn).left hold)).mono hO
    | inr hnew =>
      obtain ⟨send, hsend, hpacket⟩ := mem_route hnew
      exact hpacket ▸ (hsends send hsend).packet
  · intro post hpost
    cases List.mem_append.mp hpost with
    | inl hold => exact (h.posted post hold).mono hO
    | inr hnew =>
      obtain ⟨send, hsend, rfl⟩ := List.mem_map.mp hnew
      exact hsends send hsend

/-! ## Steps of clients -/

/-- A server that presented itself to a client has been promoted. -/
theorem Deployment.Sound.presented (h : d.Sound) {j : ℕ} {source : InAddr} (hpresented : d.Presented j source) :
    d.Primary source := by
  obtain ⟨t, -, post, hpost, ⟨hsource, -⟩, hleads⟩ := hpresented
  have hofficial : post.send.packet.official = true := by
    cases hpacket : post.send.packet <;> rw [hpacket] at hleads <;> first | contradiction | rfl
  exact ⟨post.source, (h.posted post hpost).official hofficial, hsource⟩

/-- A step of a client program goes by what was said within the standard. -/
theorem Deployment.Sound.client (h : d.Sound) {j : ℕ} {e : ProgramEvent} {t : Terminal} {program : ClientProgram}
    (hcausal : d.Causal (.client j e)) (ht : d.terminals[j]? = some t)
    (hprogram : t.program.step e = some program) : Terminal.Meets d { t with program := program } := by
  have hlearns := ClientProgram.step_learns hprogram
  have hold := h.terminals t (List.mem_of_getElem? ht)
  refine ⟨fun addr haddr => ?_, fun ack hack hmoves => ?_, fun seqn hlt hfits => ?_⟩
  · rcases hlearns.leaders addr haddr with hknown | rfl | rfl | rfl
    · exact hold.leaders addr hknown
    all_goals exact h.presented hcausal
  · rcases hlearns.socket ack hack with hwaiting | rfl
    · exact hold.socket ack hwaiting hmoves
    · obtain ⟨t', ht', post, hpost, hpacket, hdest⟩ := hcausal
      obtain rfl := Option.some.inj (ht.symm.trans ht')
      exact hdest ▸ (h.posted post hpost).acks ack hpacket hmoves
  · rcases hlearns.numbers with hsame | ⟨ack, hack, hmoves, hseqn, hnext⟩
    · exact hold.numbers seqn (hsame ▸ hlt) hfits
    · by_cases hearlier : seqn < t.program.process.sequenceNumber
      · exact hold.numbers seqn hearlier hfits
      · by_cases hpositive : seqn ≤ 0
        · exact .inl hpositive
        · have hpassed := hold.socket ack hack hmoves
          have hlast : t.program.process.sequenceNumber = seqn := by
            simp only [hnext] at hlt
            omega
          have hread : ack.seqn.toInt = seqn := by
            rw [hseqn, hlast, BitVec.toInt_ofInt]
            exact Int.bmod_eq_of_le (by omega) (by omega)
          exact hread ▸ hpassed

/-! ## Runs -/

/-- Every step keeps everything within the standard. -/
theorem Deployment.Sound.step {e : DeploymentEvent} (h : d.Sound) (hcausal : d.Causal e)
    (hstep : d.step fl e = some d') : d'.Sound := by
  have hO := Deployment.standard_within hstep
  cases Deployment.step_cases hstep with
  | turn e turn host node sends hturn hhost hnode => exact h.turn hcausal hturn hhost hnode hstep
  | crash k lost host hhost =>
    refine ⟨fun i g hg => ?_, fun envelope henvelope => ?_, fun post hpost => (h.posted post hpost).mono hO,
      h.executed, fun t ht => (h.terminals t ht).mono hstep⟩
    · by_cases hi : i = k
      · subst hi
        have hself : (d.servers.cluster.crashed i host lost).hosts[i]? = some _ :=
          List.getElem?_set_self (List.getElem?_eq_some_iff.mp hhost).1
        rw [hself] at hg
        obtain rfl := Option.some.inj hg
        exact Node.new_meets _ _
      · have hother : (d.servers.cluster.crashed k host lost).hosts[i]? = d.servers.cluster.hosts[i]? :=
          List.getElem?_set_ne (Ne.symm hi)
        rw [hother] at hg
        exact (h.hosts i g hg).mono hO
    · exact (h.inFlight envelope (List.mem_of_mem_filter henvelope)).mono hO
  | client j e t program ht hprogram =>
    refine ⟨fun i g hg => (h.hosts i g hg).mono hO, fun envelope henvelope => (h.inFlight envelope henvelope).mono hO,
      fun post hpost => (h.posted post hpost).mono hO, fun addr req hreq => hO.request _ _ (h.executed addr req hreq),
      fun t' ht' => ?_⟩
    cases List.mem_or_eq_of_mem_set ht' with
    | inl hkept => exact (h.terminals t' hkept).mono hstep
    | inr hnew =>
      rw [hnew]
      exact (h.client hcausal ht hprogram).mono hstep

/-- Servers before `init` and clients before `start`. -/
theorem Deployment.Initial.sound (h : d.Initial) : d.Sound := by
  refine ⟨fun i g hg => ?_, fun e he => ?_, fun post hpost => ?_, fun addr req hreq => ?_, fun t ht => ?_⟩
  · rw [h.servers.servers.fresh g (List.mem_of_getElem? hg)]
    exact Node.new_meets _ _
  · rw [h.servers.servers.inFlight] at he
    contradiction
  · rw [h.posted] at hpost
    contradiction
  · rw [h.executed] at hreq
    contradiction
  · obtain ⟨port, hfresh⟩ := h.terminals t ht
    refine ⟨by simp [hfresh, ClientProgram.leaders], by simp [hfresh], fun seqn hlt hfits => .inl ?_⟩
    simp only [hfresh] at hlt
    omega

/-- In every run everything stays within the standard. -/
theorem Deployment.Reachable.sound (h : d.Reachable fl) : d.Sound :=
  Runs.Reachable.invariant (fun _ hinitial => hinitial.sound)
    (fun _ _ _ hsound hcausal hstep => hsound.step hcausal hstep) h

/-! ## Who speaks as a primary, what is logged, what has been executed -/

/-- In every run a server that has sent an acknowledgement, an announcement, an answer to a
discovery, a heartbeat or an update was promoted, and a client has sent its requests only to
servers that were. -/
theorem Deployment.primaries_were_promoted (h : d.Reachable fl) :
    (∀ post ∈ d.posted, post.send.packet.official = true → post.source ∈ d.servers.promoted) ∧
      ∀ t ∈ d.terminals, ∀ dest req, (dest, req) ∈ t.program.sent →
        ∃ i ∈ d.servers.promoted, ∃ host ∈ d.servers.cluster.hosts[i]?, dest = ⟨host.addr.sinAddr, t.program.port⟩ := by
  have hsound := h.sound
  refine ⟨fun post hpost => (hsound.posted post hpost).official, fun t ht dest req hsent => ?_⟩
  obtain ⟨addr, haddr, rfl⟩ := (h.programs t ht).known.sent dest req hsent
  obtain ⟨i, hi, host, hhost, rfl⟩ := (hsound.terminals t ht).leaders addr haddr
  exact ⟨i, hi, host, hhost, rfl⟩

/-- The entry is of the payment that a line asks for. -/
def Orders (line : Line) (tx : Transaction) : Prop :=
  ∃ command, validateInput line = some command ∧ tx.value = command.value ∧
    ∀ addr, inetPton (cString command.destIp) = some addr → tx.destIp = inetNtop addr

/-- A request that was sent asks for the payment of a line that was typed. -/
theorem Deployment.Sent.line (h : d.Reachable fl) {addr : InAddr} {req : ReqData} (hsent : d.Sent addr req)
    {tx : Transaction} (hsource : tx.sourceIp = inetNtop addr) (hdest : tx.destIp = inetNtop req.destAddr)
    (hvalue : tx.value = req.value.toInt) :
    ∃ t ∈ d.terminals, tx.sourceIp = inetNtop t.addr ∧ ∃ line ∈ t.program.typed, Orders line tx := by
  obtain ⟨t, ht, rfl, hreq⟩ := hsent
  obtain ⟨line, hline, command, seqn, hvalid, hcarries⟩ := (h.programs t ht).typed_of_sent hreq
  refine ⟨t, ht, hsource, line, hline, command, hvalid, ?_, fun addr haddr => ?_⟩
  · obtain ⟨hlow, hhigh⟩ := command.isInt
    rw [hvalue, hcarries.value, BitVec.toInt_ofInt]
    exact Int.bmod_eq_of_le (by omega) (by omega)
  · rw [hdest, hcarries.destAddr addr haddr]

/-- In every run every entry in the log of every server names a machine on which a line that asks
for its payment was typed, and every account is of a machine with a client. -/
theorem Deployment.ledgers_from_lines (h : d.Reachable fl) {host : Host} (hhost : host ∈ d.servers.cluster.hosts) :
    (∀ tx ∈ host.node.server.transactionHistory, ∃ t ∈ d.terminals, tx.sourceIp = inetNtop t.addr ∧
        ∃ line ∈ t.program.typed, Orders line tx) ∧
      ∀ c ∈ host.node.server.clients, ∃ t ∈ d.terminals, c.address = inetNtop t.addr := by
  obtain ⟨i, hi⟩ := List.mem_iff_getElem?.mp hhost
  have hledger := (h.sound.hosts i host hi).ledger
  refine ⟨fun tx htx => ?_, fun c hc => (hledger.records c hc).1⟩
  obtain ⟨addr, req, hreq, hsource, -, hdest, hvalue⟩ := hledger.entries tx htx
  exact (h.sound.executed addr req hreq).line h hsource hdest hvalue

/-- In every run a client has moved past a sequence number only if a server has executed a request
of its machine under that number or a later one. -/
theorem Deployment.numbers_executed (h : d.Reachable fl) {t : Terminal} (ht : t ∈ d.terminals) {seqn : ℤ}
    (hfirst : 1 ≤ seqn) (hpassed : seqn < t.program.process.sequenceNumber) (hfits : seqn < 2 ^ 31) :
    ∃ req, (t.addr, req) ∈ d.executed ∧ d.Sent t.addr req ∧ seqn ≤ req.seqn.toInt := by
  cases (h.sound.terminals t ht).numbers seqn hpassed hfits with
  | inl hnone => omega
  | inr hexecuted =>
    obtain ⟨req, hreq, hle⟩ := hexecuted
    exact ⟨req, hreq, h.sound.executed _ _ hreq, hle⟩

end

/-! ## A session -/

/-- A server and a client machine. -/
def oneServer : Deployment where
  servers := { cluster := { hosts := [⟨testHost 2, Node.new 2 4000⟩] } }
  terminals := [⟨client21, { port := 4000 }⟩]

/-- The line by which client 21 pays 5 to itself. -/
def selfPayment : Line := (inetNtop client21).bytes ++ [32, 53]

/-- Steps of the servers. -/
def onServers (events : List ClusterEvent) : List DeploymentEvent := events.map fun e => .server (.step e)

/-- Steps of the client program at a position. -/
def onClient (j : ℕ) (events : List ProgramEvent) : List DeploymentEvent := events.map (.client j)

/-- The server elects itself, the client finds it and pays, and the payment is acknowledged. -/
def servedSession : List DeploymentEvent :=
  onServers ([.act 0 .discover, .act 0 .giveUpDiscovery] ++ List.replicate 6 (.act 0 (.runThread 0)) ++
      [.discovery 0 (testHost 21)]) ++
    onClient 0 (findServer (testHost 2).sinAddr ++ enterLine selfPayment none ++ fetchLine ++
      sendPacket client21) ++
    onServers ([.request 0 (testHost 21) ⟨client21, 5, 1⟩] ++ List.replicate 3 (.act 0 (.runThread 2))) ++
    onClient 0 [.arrive ⟨1, 1000, 0, 1⟩, .client .receive]

/-- A server and a client before they start. -/
theorem oneServer_initial : oneServer.Initial where
  servers :=
    { servers := ⟨rfl, by decide, by decide, by decide⟩
      onePort := by decide
      electors := fun _ => rfl
      won := rfl
      promoted := rfl }
  terminals := List.forall_mem_singleton.mpr ⟨4000, rfl⟩
  posted := rfl
  executed := rfl

/-- Where the session ends. -/
theorem served_session : ∃ d : Deployment, d.Reachable singlePrecision ∧
    (∃ post ∈ d.posted, post.send.packet.official = true) ∧
      (∃ host ∈ d.servers.cluster.hosts, host.node.server.transactionHistory ≠ []) ∧
      ∃ t ∈ d.terminals, t.program.process.sequenceNumber = 2 := by
  obtain ⟨d, hreach, htest⟩ := exists_reachable_of_replay (Deployment.step singlePrecision) Deployment.Causal
    Deployment.Initial servedSession
    (fun d => (∃ post ∈ d.posted, post.send.packet.official = true) ∧
      (∃ host ∈ d.servers.cluster.hosts, host.node.server.transactionHistory ≠ []) ∧
      ∃ t ∈ d.terminals, t.program.process.sequenceNumber = 2)
    oneServer_initial (by decide +kernel)
  exact ⟨d, hreach, of_decide_eq_true htest⟩

/-- The server of the session was promoted. -/
theorem Deployment.primaries_were_promoted_session :
    ∃ d : Deployment, d.Reachable singlePrecision ∧ ∃ i, i ∈ d.servers.promoted := by
  obtain ⟨d, hreach, ⟨post, hpost, hofficial⟩, -⟩ := served_session
  exact ⟨d, hreach, post.source, (Deployment.primaries_were_promoted hreach).1 post hpost hofficial⟩

/-- The payment of the session was typed. -/
theorem Deployment.ledgers_from_lines_session :
    ∃ d : Deployment, d.Reachable singlePrecision ∧
      ∃ t ∈ d.terminals, ∃ line ∈ t.program.typed, ∃ tx, Orders line tx := by
  obtain ⟨d, hreach, -, ⟨host, hhost, hlogged⟩, -⟩ := served_session
  obtain ⟨tx, htx⟩ := List.exists_mem_of_ne_nil _ hlogged
  obtain ⟨t, ht, -, line, hline, horders⟩ := (Deployment.ledgers_from_lines hreach hhost).1 tx htx
  exact ⟨d, hreach, t, ht, line, hline, tx, horders⟩

/-- The client of the session moved past the number 1. -/
theorem Deployment.numbers_executed_session :
    ∃ d : Deployment, d.Reachable singlePrecision ∧ ∃ t ∈ d.terminals, ∃ req, (t.addr, req) ∈ d.executed := by
  obtain ⟨d, hreach, -, -, t, ht, hnumber⟩ := served_session
  obtain ⟨req, hreq, -⟩ := Deployment.numbers_executed hreach ht (le_refl 1) (by rw [hnumber]; decide) (by decide)
  exact ⟨d, hreach, t, ht, req, hreq⟩

end BankReplica
