import BankReplica.ClientTermination

/-!
# Which server a client program addresses

A client hears of servers in the answers to its discoveries and in announcements. The listener
stores the sender of an announcement in one section of `server_mutex`; `discoverServer` stores
what it has found without the mutex, one field after the other. Each packet goes to a copy of
`server_sock_addr` that was made for it, and that is the address of the server last heard of by
then, unless an announcement comes between two accesses of `discoverServer` that belong together.
-/

namespace BankReplica

open Runs WorkQueue

/-- A journal in which every packet has its own copy of `server_sock_addr`, made after the packet
before it, and each copy is of the server last heard of by then. The copy that still waits for its
packet stands beside it. -/
inductive Chronicle (port : UInt16) : List JournalEntry → Option SockAddr → Prop
  | nil : Chronicle port [] none
  | heard {journal : List JournalEntry} {current : Option SockAddr} (h : Chronicle port journal current)
      (addr : InAddr) : Chronicle port (journal ++ [.heard addr]) current
  | copied {journal : List JournalEntry} (h : Chronicle port journal none) (addr : InAddr)
      (hlast : (journal.filterMap JournalEntry.leader).getLast? = some addr) :
    Chronicle port (journal ++ [.copied ⟨addr, port⟩]) (some ⟨addr, port⟩)
  | sent {journal : List JournalEntry} {dest : SockAddr} (h : Chronicle port journal (some dest)) (req : ReqData) :
    Chronicle port (journal ++ [.sent dest req]) none

/-- The two fields of `Client` name one server. -/
structure ServerView.Names (v : ServerView) (port : UInt16) (addr : InAddr) : Prop where
  serverAddress : v.serverAddress = (inetNtop addr).bytes
  serverSockAddr : v.serverSockAddr = ⟨addr, port⟩

/-- No announcement comes between the answer to a discovery and the setting of `server_address`, nor
between the reading of `server_address` and the setting of `server_sock_addr`. -/
def ClientProgram.Undisturbed (p : ClientProgram) : ProgramEvent → Prop
  | .announced _ => p.storing = none ∨ p.storing = some .named
  | _ => True

instance (p : ClientProgram) : (e : ProgramEvent) → Decidable (p.Undisturbed e)
  | .announced _ => inferInstanceAs (Decidable (p.storing = none ∨ p.storing = some .named))
  | .discovered _ | .discoveryFails | .read _ | .inputEnds | .fetch | .fetched | .copyAddress | .client _
  | .rediscovered _ | .rediscoveryFails | .store | .queue _ | .sigint _ | .arrive _ | .joinInput
  | .joinCommunication => .isTrue trivial

/-- What a program has of a server that it has heard of, until the two fields name it. -/
def ClientProgram.Stores (p : ClientProgram) (addr : InAddr) : Prop :=
  match p.storing with
  | none => p.view.Names p.port addr
  | some (.answered found) => found = addr
  | some .named => p.view.serverAddress = (inetNtop addr).bytes
  | some (.resolved found) => p.view.serverAddress = (inetNtop addr).bytes ∧ found = some addr

/-- A program that has heard of a server has the last one, and no thread starts before. -/
structure ClientProgram.Addressed (p : ClientProgram) : Prop where
  stores : ∀ addr, p.leaders.getLast? = some addr → p.Stores addr
  unheard : p.leaders = [] → p.storing = none ∧ p.view.serverAddress = []
  heard : p.main.started = true → p.leaders ≠ []
  chronicle : Chronicle p.port p.journal p.currentServerAddr

/-- The text of an address is no empty string. -/
theorem inetNtop_ne_nil (addr : InAddr) : (inetNtop addr).bytes ≠ [] := by
  intro hnil
  have hback := inetPton_inetNtop addr
  rw [hnil] at hback
  contradiction

/-- An announcement names its sender, whether or not that is the server named before. -/
theorem ServerView.names_announced {v : ServerView} {port : UInt16} (addr : InAddr)
    (h : v.serverAddress = [] ∨ ∃ old, v.Names port old) : (v.announced port addr).Names port addr := by
  unfold ServerView.announced
  simp only
  split_ifs with hnew
  · exact ⟨rfl, by simp [inetPton_inetNtop]⟩
  · have hsame := Decidable.not_not.mp hnew
    cases h with
    | inl hempty => exact absurd (hsame.trans hempty) (inetNtop_ne_nil addr)
    | inr hold =>
      obtain ⟨old, hold⟩ := hold
      have hread := congrArg inetPton (hsame.trans hold.serverAddress)
      rw [inetPton_inetNtop, inetPton_inetNtop] at hread
      exact Option.some.inj hread ▸ hold

/-- After an announcement `server_address` is its sender's. -/
theorem ServerView.announced_serverAddress (v : ServerView) (port : UInt16) (addr : InAddr) :
    (v.announced port addr).serverAddress = (inetNtop addr).bytes := by
  unfold ServerView.announced
  simp only
  split_ifs with hnew
  · rfl
  · exact (Decidable.not_not.mp hnew).symm

section

variable {p q : ClientProgram}

/-- The communication thread runs only once it was started. -/
theorem ClientProgram.started_of_communication (h : p.runs .communication = true) : p.main.started = true := by
  have halive := (ClientProgram.runs_iff.mp h).1
  simp only [ClientProgram.alive, Bool.and_eq_true] at halive
  exact halive.1

/-- Hearing of a server. -/
theorem ClientProgram.Addressed.hears (h : p.Addressed) {addr : InAddr} (hport : q.port = p.port)
    (hjournal : q.journal = p.journal ++ [.heard addr]) (hcurrent : q.currentServerAddr = p.currentServerAddr)
    (hstores : q.Stores addr) : q.Addressed := by
  have hleaders : q.leaders = p.leaders ++ [addr] := ClientProgram.leaders_of_journal hjournal
  refine ⟨?_, ?_, ?_, ?_⟩
  · intro last hlast
    rw [hleaders, List.getLast?_append_cons, List.getLast?_singleton] at hlast
    exact Option.some.inj hlast ▸ hstores
  · intro hnone
    simp [hleaders] at hnone
  · simp [hleaders]
  · rw [hport, hjournal, hcurrent]
    exact h.chronicle.heard addr

/-- Going on with what was heard of before. -/
theorem ClientProgram.Addressed.goesOn (h : p.Addressed) (hport : q.port = p.port)
    (hjournal : q.journal = p.journal) (hcurrent : q.currentServerAddr = p.currentServerAddr)
    (hheard : q.main.started = true → p.leaders ≠ [])
    (hunheard : p.leaders = [] → q.storing = none ∧ q.view.serverAddress = [])
    (hstores : ∀ addr, p.leaders.getLast? = some addr → q.Stores addr) : q.Addressed := by
  have hleaders : q.leaders = p.leaders := congrArg (List.filterMap JournalEntry.leader) hjournal
  refine ⟨hleaders ▸ hstores, hleaders ▸ hunheard, hleaders ▸ hheard, ?_⟩
  rw [hport, hjournal, hcurrent]
  exact h.chronicle

/-- An entry about no server heard of changes nothing about them. -/
theorem ClientProgram.leaders_of_dealing {entry : JournalEntry} (hentry : entry.leader = none)
    (hjournal : q.journal = p.journal ++ [entry]) : q.leaders = p.leaders := by
  rw [ClientProgram.leaders_of_journal hjournal, hentry]
  exact List.append_nil _

/-- The server last heard of is announced while nothing else is stored. -/
theorem ClientProgram.Addressed.announced (h : p.Addressed) {addr : InAddr}
    (hguard : p.Undisturbed (.announced addr)) :
    ClientProgram.Addressed
      { p with view := p.view.announced p.port addr, journal := p.journal ++ [.heard addr] } := by
  refine h.hears rfl rfl rfl ?_
  cases hguard with
  | inl hnone =>
    simp only [ClientProgram.Stores, hnone]
    refine ServerView.names_announced addr ?_
    cases hlast : p.leaders.getLast? with
    | none => exact .inl (h.unheard (List.getLast?_eq_none_iff.mp hlast)).2
    | some old =>
      have hold := h.stores old hlast
      simp only [ClientProgram.Stores, hnone] at hold
      exact .inr ⟨old, hold⟩
  | inr hnamed =>
    simp only [ClientProgram.Stores, hnamed]
    exact ServerView.announced_serverAddress ..

/-- `discoverServer` goes on storing the server last heard of. -/
theorem ClientProgram.Addressed.store (h : p.Addressed) {storing : Storing} (hstoring : p.storing = some storing)
    (hport : q.port = p.port) (hjournal : q.journal = p.journal)
    (hcurrent : q.currentServerAddr = p.currentServerAddr)
    (hstores : ∀ addr, p.Stores addr → q.Stores addr) : q.Addressed := by
  have hheard : p.leaders ≠ [] := by
    intro hnone
    have hidle := (h.unheard hnone).1
    rw [hstoring] at hidle
    contradiction
  exact h.goesOn hport hjournal hcurrent (fun _ => hheard) (fun hnone => absurd hnone hheard)
    fun addr hlast => hstores addr (h.stores addr hlast)

/-- Every undisturbed step copies the server last heard of and sends to the copy. -/
theorem ClientProgram.Addressed.step (h : p.Addressed) (hthreads : p.Threads) {e : ProgramEvent}
    (hguard : p.Undisturbed e) (hstep : p.step e = some q) : q.Addressed := by
  cases ClientProgram.step_cases hstep with
  | discovered addr hruns hmain hstoring => exact h.hears rfl rfl rfl rfl
  | rediscovered addr line hruns hcomm hstoring => exact h.hears rfl rfl rfl rfl
  | announced addr hruns => exact h.announced hguard
  | named addr thread hthread hruns hstoring =>
    refine h.store hstoring rfl rfl rfl fun last hlast => ?_
    simp only [ClientProgram.Stores, hstoring] at hlast ⊢
    exact hlast ▸ rfl
  | resolved thread hthread hruns hstoring =>
    refine h.store hstoring rfl rfl rfl fun last hlast => ?_
    simp only [ClientProgram.Stores, hstoring] at hlast ⊢
    exact ⟨hlast, by rw [hlast, IpString.cString_bytes, inetPton_inetNtop]⟩
  | started addr hruns hmain hstoring =>
    refine h.store hstoring rfl rfl rfl fun last hlast => ?_
    simp only [ClientProgram.Stores, hstoring] at hlast ⊢
    exact ⟨hlast.1, by rw [hlast.2]; rfl⟩
  | resumed addr line hruns hcomm hstoring =>
    refine h.store hstoring rfl rfl rfl fun last hlast => ?_
    simp only [ClientProgram.Stores, hstoring] at hlast ⊢
    exact ⟨hlast.1, by rw [hlast.2]; rfl⟩
  | copyAddress line command retries hruns hnone hcomm hphase =>
    have hstarted := ClientProgram.started_of_communication hruns
    have hidle : p.storing = none := by
      by_contra hstoring
      have hmain := hthreads.discovering hstoring (by simp [hcomm])
      simp [hmain, MainPhase.started] at hstarted
    obtain ⟨addr, hlast⟩ := List.getLast?_isSome.mpr (h.heard hstarted) |> Option.isSome_iff_exists.mp
    have hstores := h.stores addr hlast
    simp only [ClientProgram.Stores, hidle] at hstores
    have hleaders := ClientProgram.leaders_of_dealing (p := p)
      (q := { p with
        currentServerAddr := some p.view.serverSockAddr
        journal := p.journal ++ [.copied p.view.serverSockAddr] }) rfl rfl
    refine ⟨hleaders ▸ h.stores, hleaders ▸ h.unheard, hleaders ▸ h.heard, ?_⟩
    have hchronicle := h.chronicle
    rw [hnone] at hchronicle
    simpa only [hstores.serverSockAddr] using hchronicle.copied addr hlast
  | send leftover line dest command retries hruns hcomm hdest hphase =>
    have hleaders := ClientProgram.leaders_of_dealing (p := p)
      (q := { p with
        process := { p.process with phase := .receiving command retries }
        currentServerAddr := none
        journal := p.journal ++ [.sent dest (p.process.requestPacket command leftover)] }) rfl rfl
    refine ⟨hleaders ▸ h.stores, hleaders ▸ h.unheard, hleaders ▸ h.heard, ?_⟩
    have hchronicle := h.chronicle
    rw [hdest] at hchronicle
    exact hchronicle.sent _
  | client line event outcome hruns hcomm hevent houtcome =>
    refine h.goesOn ?_ ?_ ?_ ?_ ?_ ?_
    · simp
    · simp
    · simp
    · simpa using h.heard
    · simpa using h.unheard
    · simpa [ClientProgram.Stores] using h.stores
  | discoveryFails hruns hmain hnone =>
    exact h.goesOn rfl rfl rfl (by simp [MainPhase.started]) h.unheard h.stores
  | joinInput hruns hmain hinput =>
    exact h.goesOn rfl rfl rfl (fun _ => h.heard (by simp [hmain, MainPhase.started])) h.unheard h.stores
  | joinCommunication hruns hmain hcomm =>
    exact h.goesOn rfl rfl rfl (by simp [MainPhase.started]) h.unheard h.stores
  | _ => exact h.goesOn rfl rfl rfl h.heard h.unheard h.stores

end

/-- In every run in which no announcement comes between the answer to a discovery and the setting of
`server_address`, nor between the reading of `server_address` and the setting of
`server_sock_addr`, every packet goes to the server last heard of when the address was copied for
it, and the two fields name the server last heard of whenever no answer is being stored. -/
theorem ClientProgram.packets_follow_leader {p : ClientProgram}
    (h : Runs.Reachable ClientProgram.step ClientProgram.Undisturbed ClientProgram.Fresh p) :
    Chronicle p.port p.journal p.currentServerAddr ∧
      (p.storing = none → ∀ addr, p.leaders.getLast? = some addr → p.view.Names p.port addr) := by
  have hboth : p.Inv ∧ p.Threads ∧ p.Addressed := by
    refine Runs.Reachable.invariant (I := fun p => p.Inv ∧ p.Threads ∧ p.Addressed) ?_ ?_ h
    · rintro p hfresh
      refine ⟨hfresh.inv, hfresh.threads, ?_⟩
      obtain ⟨port, rfl⟩ := hfresh
      exact ⟨by simp [ClientProgram.leaders], fun _ => ⟨rfl, rfl⟩, by simp [MainPhase.started], .nil⟩
    · rintro p e q ⟨hinv, hthreads, haddressed⟩ hguard hstep
      exact ⟨hinv.step hstep, hthreads.step hinv hstep, haddressed.step hthreads hguard hstep⟩
  refine ⟨hboth.2.2.chronicle, fun hidle addr hlast => ?_⟩
  have hstores := hboth.2.2.stores addr hlast
  simpa only [ClientProgram.Stores, hidle] using hstores

/-- A server is announced between the copying of the address and the packet: the packet still goes to
the server before it, and the retry to the one announced. -/
theorem ClientProgram.packets_follow_announced :
    ∃ p : ClientProgram, p.leaders = [⟨10, 0, 0, 1⟩, ⟨10, 0, 0, 2⟩] ∧
      p.sent.map Prod.fst = [⟨⟨10, 0, 0, 1⟩, 4000⟩, ⟨⟨10, 0, 0, 2⟩, 4000⟩] ∧
      Chronicle p.port p.journal p.currentServerAddr ∧ p.view.Names p.port ⟨10, 0, 0, 2⟩ := by
  obtain ⟨p, hreach, htest⟩ := exists_reachable_of_replay ClientProgram.step ClientProgram.Undisturbed
    ClientProgram.Fresh (s := { port := 4000 })
    (findServer ⟨10, 0, 0, 1⟩ ++ enterLine paymentLine none ++ fetchLine ++
      [.copyAddress, .announced ⟨10, 0, 0, 2⟩, .client (.send ⟨0, 0, 0, 0⟩), .client .timeout] ++
      sendPacket ⟨0, 0, 0, 0⟩)
    (fun p => p.leaders = [⟨10, 0, 0, 1⟩, ⟨10, 0, 0, 2⟩] ∧
      p.sent.map Prod.fst = [⟨⟨10, 0, 0, 1⟩, 4000⟩, ⟨⟨10, 0, 0, 2⟩, 4000⟩] ∧ p.storing = none) ⟨4000, rfl⟩
    (by decide +kernel)
  obtain ⟨hleaders, hsent, hidle⟩ := of_decide_eq_true htest
  obtain ⟨hchronicle, hnames⟩ := ClientProgram.packets_follow_leader hreach
  exact ⟨p, hleaders, hsent, hchronicle, hnames hidle _ (by rw [hleaders]; rfl)⟩

/-- An announcement between the reading of `server_address` and the setting of `server_sock_addr`
leaves the two fields with different servers. -/
example : (replay ClientProgram.step Always { port := 4000 }
    [.discovered ⟨10, 0, 0, 1⟩, .store, .store, .announced ⟨10, 0, 0, 2⟩, .store]).any (fun p =>
      p.storing = none ∧ p.view = ⟨(inetNtop ⟨10, 0, 0, 2⟩).bytes, ⟨⟨10, 0, 0, 1⟩, 4000⟩⟩) = true := by
  decide +kernel

/-! ## Destinations in any run -/

/-- The address is that of a server heard of. -/
def ClientProgram.Knows (p : ClientProgram) (dest : SockAddr) : Prop := ∃ addr ∈ p.leaders, dest = ⟨addr, p.port⟩

/-- What `discoverServer` has in hand, with `server_address`, is of a server heard of. -/
def Storing.Known (leaders : List InAddr) (serverAddress : List UInt8) : Storing → Prop
  | .answered found => found ∈ leaders
  | .named => ∃ addr ∈ leaders, serverAddress = (inetNtop addr).bytes
  | .resolved found => ∃ addr ∈ leaders, found = some addr

/-- Whenever announcements come, all addresses are of servers heard of. -/
structure ClientProgram.Known (p : ClientProgram) : Prop where
  storing : ∀ storing, p.storing = some storing → storing.Known p.leaders p.view.serverAddress
  sockAddr : p.main.started = true → p.Knows p.view.serverSockAddr
  current : ∀ dest, p.currentServerAddr = some dest → p.Knows dest
  sent : ∀ dest req, (dest, req) ∈ p.sent → p.Knows dest

section

variable {p q : ClientProgram} {e : ProgramEvent}

/-- The port stays. -/
theorem ClientProgram.port_step (hstep : p.step e = some q) : q.port = p.port := by
  cases ClientProgram.step_cases hstep with
  | client line event outcome => exact ClientProgram.after_port ..
  | _ => rfl

/-- A server that was heard of stays so. -/
theorem ClientProgram.leaders_step (hstep : p.step e = some q) : p.leaders ⊆ q.leaders := by
  cases ClientProgram.journal_step hstep with
  | inl hsame =>
    rw [ClientProgram.leaders, ClientProgram.leaders, hsame]
    exact List.Subset.refl _
  | inr hnew =>
    obtain ⟨entry, hnew⟩ := hnew
    exact ClientProgram.leaders_of_journal hnew ▸ List.subset_append_left _ _

/-- An address that was known stays so. -/
theorem ClientProgram.Knows.step {dest : SockAddr} (h : p.Knows dest) (hstep : p.step e = some q) : q.Knows dest := by
  obtain ⟨addr, haddr, hdest⟩ := h
  exact ⟨addr, ClientProgram.leaders_step hstep haddr, (ClientProgram.port_step hstep).symm ▸ hdest⟩

/-- A packet goes to the address that was copied for it. -/
theorem ClientProgram.sent_step (hstep : p.step e = some q) {dest : SockAddr} {req : ReqData}
    (h : (dest, req) ∈ q.sent) : (dest, req) ∈ p.sent ∨ p.currentServerAddr = some dest := by
  cases ClientProgram.step_cases hstep with
  | send leftover line copied command retries hruns hcomm hdest hphase =>
    rw [ClientProgram.sent_of_journal rfl] at h
    refine (List.mem_append.mp h).imp_right fun hnew => ?_
    obtain ⟨rfl, -⟩ := Prod.mk.inj (List.mem_singleton.mp hnew)
    exact hdest
  | discovered | copyAddress | rediscovered | announced =>
    rw [ClientProgram.sent_of_journal rfl] at h
    exact .inl (by simpa [JournalEntry.packet] using h)
  | client line event outcome =>
    rw [ClientProgram.sent, ClientProgram.after_journal] at h
    exact .inl h
  | _ => exact .inl h

/-- Only a thread that has been started copies the address. -/
theorem ClientProgram.current_step (hstep : p.step e = some q) {dest : SockAddr}
    (h : q.currentServerAddr = some dest) :
    p.currentServerAddr = some dest ∨ p.main.started = true ∧ dest = p.view.serverSockAddr := by
  cases ClientProgram.step_cases hstep with
  | copyAddress line command retries hruns hnone hcomm hphase =>
    exact .inr ⟨ClientProgram.started_of_communication hruns, (Option.some.inj h).symm⟩
  | send => contradiction
  | client line event outcome =>
    rw [ClientProgram.after_currentServerAddr] at h
    exact .inl h
  | _ => exact .inl h

/-- More servers have been heard of. -/
theorem Storing.Known.mono {leaders leaders' : List InAddr} {serverAddress : List UInt8} {storing : Storing}
    (h : storing.Known leaders serverAddress) (hsub : leaders ⊆ leaders') : storing.Known leaders' serverAddress := by
  cases storing with
  | answered found => exact hsub h
  | named =>
    obtain ⟨addr, haddr, htext⟩ := h
    exact ⟨addr, hsub haddr, htext⟩
  | resolved found =>
    obtain ⟨addr, haddr, hfound⟩ := h
    exact ⟨addr, hsub haddr, hfound⟩

/-- An announcement sets `server_address` to a server heard of. -/
theorem Storing.Known.announced {leaders : List InAddr} {serverAddress : List UInt8} {storing : Storing}
    {addr : InAddr} (h : storing.Known leaders serverAddress) (haddr : addr ∈ leaders) :
    storing.Known leaders (inetNtop addr).bytes := by
  cases storing with
  | answered found => exact h
  | named => exact ⟨addr, haddr, rfl⟩
  | resolved found => exact h

/-- A server that answers or announces itself is heard of. -/
theorem ClientProgram.mem_leaders {addr : InAddr} (hjournal : q.journal = p.journal ++ [.heard addr]) :
    addr ∈ q.leaders := by
  rw [ClientProgram.leaders_of_journal hjournal]
  exact List.mem_append_right _ (List.mem_singleton_self addr)

/-- What `discoverServer` has in hand after a step is of a server heard of. -/
theorem ClientProgram.Known.storing_step (h : p.Known) (hstep : p.step e = some q) {storing : Storing}
    (hstoring : q.storing = some storing) : storing.Known q.leaders q.view.serverAddress := by
  have hleaders := ClientProgram.leaders_step hstep
  cases ClientProgram.step_cases hstep with
  | discovered addr | rediscovered addr =>
    obtain rfl := Option.some.inj hstoring
    exact ClientProgram.mem_leaders (p := p) rfl
  | announced addr hruns =>
    rw [ServerView.announced_serverAddress]
    exact ((h.storing storing hstoring).mono hleaders).announced (ClientProgram.mem_leaders (p := p) rfl)
  | named addr thread hthread hruns hbefore =>
    obtain rfl := Option.some.inj hstoring
    exact ⟨addr, h.storing _ hbefore, rfl⟩
  | resolved thread hthread hruns hbefore =>
    obtain rfl := Option.some.inj hstoring
    obtain ⟨addr, haddr, htext⟩ := h.storing _ hbefore
    exact ⟨addr, haddr, by rw [htext, IpString.cString_bytes, inetPton_inetNtop]⟩
  | started | resumed => contradiction
  | client line event outcome =>
    rw [ClientProgram.after_view]
    exact (h.storing storing (by simpa using hstoring)).mono hleaders
  | _ => exact (h.storing storing hstoring).mono hleaders

/-- The address that is copied is of a server heard of. -/
theorem ClientProgram.Known.sockAddr_step (h : p.Known) (hstep : p.step e = some q)
    (hstarted : q.main.started = true) : q.Knows q.view.serverSockAddr := by
  have hknows : p.main.started = true → q.Knows p.view.serverSockAddr := fun hbefore => (h.sockAddr hbefore).step hstep
  cases ClientProgram.step_cases hstep with
  | announced addr hruns =>
    simp only [ServerView.announced]
    split
    · exact ⟨addr, ClientProgram.mem_leaders (p := p) rfl, by simp [inetPton_inetNtop]⟩
    · exact hknows hstarted
  | started addr hruns hmain hstoring =>
    obtain ⟨found, hfound, rfl⟩ := h.storing _ hstoring
    exact ⟨found, hfound, rfl⟩
  | resumed addr line hruns hcomm hstoring =>
    obtain ⟨found, hfound, rfl⟩ := h.storing _ hstoring
    exact ⟨found, hfound, rfl⟩
  | joinInput hruns hmain hinput => exact hknows (by simp [hmain, MainPhase.started])
  | client line event outcome =>
    rw [ClientProgram.after_main] at hstarted
    rw [ClientProgram.after_view]
    exact hknows hstarted
  | discoveryFails | joinCommunication => contradiction
  | _ => exact hknows hstarted

/-- Every step keeps to servers heard of. -/
theorem ClientProgram.Known.step (h : p.Known) (hstep : p.step e = some q) : q.Known := by
  refine ⟨fun storing => h.storing_step hstep, h.sockAddr_step hstep, fun dest hdest => ?_, fun dest req hreq => ?_⟩
  · cases ClientProgram.current_step hstep hdest with
    | inl hold => exact (h.current dest hold).step hstep
    | inr hnew => exact hnew.2 ▸ (h.sockAddr hnew.1).step hstep
  · cases ClientProgram.sent_step hstep hreq with
    | inl hold => exact (h.sent dest req hold).step hstep
    | inr hnew => exact (h.current dest hnew).step hstep

end

/-- In every run all addresses are of servers heard of. -/
theorem ClientProgram.Reachable.known {p : ClientProgram} (h : p.Reachable) : p.Known := by
  refine Runs.Reachable.invariant ?_ (fun _ _ _ hinv _ hstep => ClientProgram.Known.step hinv hstep) h
  rintro _ ⟨port, rfl⟩
  exact ⟨by simp, by simp [MainPhase.started], by simp, by simp [ClientProgram.sent]⟩

end BankReplica
