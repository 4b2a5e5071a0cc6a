import BankReplica.ClientProcess

/-!
# Command lines

`validateInput` reads a line with two stream extractions, a word and an `int`, and
`sendRequestPacket` converts the word with `inet_pton` without looking at the result. The
extractions do not look past the integer, and a word that is no address leaves the
destination of the packet as it was in memory. So what is sent agrees with the line
exactly if the line is read to its end and its first word is an address.
-/

namespace BankReplica

/-! ## Stream extraction -/

/-- `isspace` in the classic locale. -/
def isSpace (b : UInt8) : Bool := b = 32 ∨ (9 ≤ b ∧ b ≤ 13)

/-- `isdigit`. -/
def isDigit (b : UInt8) : Bool := 48 ≤ b ∧ b ≤ 57

/-- The number some digits denote. -/
def decimalValue (digits : List UInt8) : ℤ := digits.foldl (fun n d => 10 * n + (d.toNat - 48 : ℤ)) 0

/-- `operator>>` into a `std::string`: the word and what follows it. -/
def extractString (input : List UInt8) : Option (List UInt8 × List UInt8) :=
  let text := input.dropWhile isSpace
  let word := text.takeWhile fun b => !isSpace b
  if word = [] then none else some (word, text.dropWhile fun b => !isSpace b)

/-- An optional sign, and what follows it. -/
def splitSign : List UInt8 → ℤ × List UInt8
  | 43 :: rest => (1, rest)
  | 45 :: rest => (-1, rest)
  | text => (1, text)

/-- `operator>>` into an `int`: the number and what follows its digits. It fails without a
digit and out of range. -/
def extractInt (input : List UInt8) : Option ({ n : ℤ // IsInt n } × List UInt8) :=
  let (sign, unsigned) := splitSign (input.dropWhile isSpace)
  let digits := unsigned.takeWhile isDigit
  if h : digits ≠ [] ∧ IsInt (sign * decimalValue digits) then
    some (⟨sign * decimalValue digits, h.2⟩, unsigned.dropWhile isDigit)
  else none

/-- `validateInput`. -/
def validateInput (line : List UInt8) : Option Command := do
  let (destIp, rest) ← extractString line
  let (value, _) ← extractInt rest
  some ⟨destIp, value.1, value.2⟩

/-! ## One line at work -/

/-- The client while `processCommand` works on a line, with acknowledgements arriving. -/
inductive Processing (line : List UInt8) (c : ClientProcess) : ClientProcess → Prop
  | start {command : Command} {outcome : ClientOutcome} (hvalid : validateInput line = some command)
      (hstep : c.step (.start command) = some outcome) : Processing line c outcome.process
  | step {p : ClientProcess} {event : ClientEvent} {outcome : ClientOutcome} (hp : Processing line c p)
      (hevent : ∀ command, event ≠ .start command) (hstep : p.step event = some outcome) :
      Processing line c outcome.process
  | arrive {p : ClientProcess} (hp : Processing line c p) (ack : AckData) :
      Processing line c { p with socket := p.socket ++ [ack] }

/-- A request sent for a line by a client between two commands. -/
def SendsRequest (line : List UInt8) (req : ReqData) : Prop :=
  ∃ c p leftover outcome, c.phase = .idle ∧ Processing line c p ∧ p.step (.send leftover) = some outcome ∧
    outcome.sent = some req

/-! ## The intended lines -/

/-- Two words separated, and possibly surrounded, by white space. -/
structure TwoWords (line first second : List UInt8) : Prop where
  layout : ∃ lead gap trail, line = lead ++ (first ++ (gap ++ (second ++ trail))) ∧ gap ≠ [] ∧
    ∀ b ∈ lead ++ gap ++ trail, isSpace b = true
  nonempty : first ≠ [] ∧ second ≠ []
  solid : ∀ b ∈ first ++ second, isSpace b = false

/-- A complete decimal integer. -/
inductive DecimalInteger : List UInt8 → ℤ → Prop
  | unsigned {digits : List UInt8} (hsome : digits ≠ []) (hdigits : ∀ d ∈ digits, isDigit d = true) :
      DecimalInteger digits (decimalValue digits)
  | plus {digits : List UInt8} (hsome : digits ≠ []) (hdigits : ∀ d ∈ digits, isDigit d = true) :
      DecimalInteger (43 :: digits) (decimalValue digits)
  | minus {digits : List UInt8} (hsome : digits ≠ []) (hdigits : ∀ d ∈ digits, isDigit d = true) :
      DecimalInteger (45 :: digits) (-decimalValue digits)

/-- A line of an address and an integer in `int` range. -/
def WellFormed (line : List UInt8) (addr : InAddr) (value : ℤ) : Prop :=
  ∃ first second, TwoWords line first second ∧ inetPton first = some addr ∧ DecimalInteger second value ∧
    IsInt value

/-- A line on which an extraction fails, or whose first word is an address and whose integer
only white space follows. -/
def ReadToEnd (line : List UInt8) : Prop :=
  ∀ word rest n trail, extractString line = some (word, rest) → extractInt rest = some (n, trail) →
    (inetPton word).isSome ∧ ∀ b ∈ trail, isSpace b = true

/-! ## Scanning -/

/-- A scan takes a run and stops where it ends. -/
theorem takeWhile_append_stop {p : UInt8 → Bool} {run rest : List UInt8} (hrun : ∀ b ∈ run, p b = true)
    (hrest : ∀ b ∈ rest.head?, p b = false) :
    (run ++ rest).takeWhile p = run ∧ (run ++ rest).dropWhile p = rest := by
  rw [List.takeWhile_append_of_pos hrun, List.dropWhile_append_of_pos hrun]
  cases rest with
  | nil => simp
  | cons b rest =>
    have hstop := hrest b rfl
    simp [hstop]

/-- What holds throughout a run holds of its first byte. -/
theorem head_append {q : UInt8 → Prop} {run : List UInt8} (hsome : run ≠ []) (hrun : ∀ b ∈ run, q b)
    (rest : List UInt8) : ∀ b ∈ (run ++ rest).head?, q b := by
  intro b hb
  rw [List.head?_append_of_ne_nil _ hsome] at hb
  exact hrun b (List.mem_of_mem_head? hb)

/-- A scan stops where the predicate first fails. -/
theorem head_dropWhile {p : UInt8 → Bool} (input : List UInt8) : ∀ b ∈ (input.dropWhile p).head?, p b = false := by
  intro b hb
  have hstop := List.head?_dropWhile_not p input
  rw [Option.mem_def.mp hb] at hstop
  exact hstop

/-- A digit is no white space. -/
theorem isSpace_of_isDigit {b : UInt8} (h : isDigit b = true) : isSpace b = false := by
  simp only [isDigit, isSpace, decide_eq_true_eq, decide_eq_false_iff_not, UInt8.le_iff_toNat_le,
    ← UInt8.toNat_inj, UInt8.reduceToNat] at h ⊢
  omega

/-- A word between white space is extracted. -/
theorem extractString_append {lead word rest : List UInt8} (hlead : ∀ b ∈ lead, isSpace b = true)
    (hsome : word ≠ []) (hword : ∀ b ∈ word, isSpace b = false) (hrest : ∀ b ∈ rest.head?, isSpace b = true) :
    extractString (lead ++ (word ++ rest)) = some (word, rest) := by
  have hskip := (takeWhile_append_stop hlead (head_append hsome hword rest)).2
  have hsplit : (word ++ rest).takeWhile (fun b => !isSpace b) = word ∧
      (word ++ rest).dropWhile (fun b => !isSpace b) = rest :=
    takeWhile_append_stop (fun b hb => by rw [hword b hb]; rfl) (fun b hb => by rw [hrest b hb]; rfl)
  simp only [extractString, hskip, hsplit, hsome, if_false]

/-- A word that is extracted stands between white space. -/
theorem extractString_some {line word rest : List UInt8} (h : extractString line = some (word, rest)) :
    ∃ lead, line = lead ++ (word ++ rest) ∧ (∀ b ∈ lead, isSpace b = true) ∧ word ≠ [] ∧
      (∀ b ∈ word, isSpace b = false) ∧ ∀ b ∈ rest.head?, isSpace b = true := by
  simp only [extractString] at h
  split at h
  · contradiction
  · rename_i hsome
    obtain ⟨hword, hrest⟩ := Prod.mk.inj (Option.some.inj h)
    refine ⟨line.takeWhile isSpace, ?_, fun b hb => List.mem_takeWhile_imp hb, hword ▸ hsome, ?_, ?_⟩
    · rw [← hword, ← hrest, List.takeWhile_append_dropWhile, List.takeWhile_append_dropWhile]
    · intro b hb
      rw [← hword] at hb
      simpa using List.mem_takeWhile_imp hb
    · intro b hb
      rw [← hrest] at hb
      simpa using head_dropWhile _ b hb

/-- What precedes an unsigned number is nothing or a sign. -/
theorem splitSign_cases (text : List UInt8) :
    splitSign text = (1, text) ∨ (∃ rest, text = 43 :: rest ∧ splitSign text = (1, rest)) ∨
      ∃ rest, text = 45 :: rest ∧ splitSign text = (-1, rest) := by
  unfold splitSign
  split
  · exact .inr (.inl ⟨_, rfl, rfl⟩)
  · exact .inr (.inr ⟨_, rfl, rfl⟩)
  · exact .inl rfl

/-- A number without a sign is not taken for one with a sign. -/
theorem splitSign_digits {digits rest : List UInt8} (hsome : digits ≠ []) (hdigits : ∀ d ∈ digits, isDigit d = true) :
    splitSign (digits ++ rest) = (1, digits ++ rest) := by
  cases digits with
  | nil => contradiction
  | cons d digits =>
    have hd := hdigits d (List.mem_cons_self ..)
    cases splitSign_cases (d :: digits ++ rest) with
    | inl hplain => exact hplain
    | inr hsigned =>
      cases hsigned with
      | inl hplus =>
        obtain ⟨_, htext, _⟩ := hplus
        rw [(List.cons.inj htext).1] at hd
        contradiction
      | inr hminus =>
        obtain ⟨_, htext, _⟩ := hminus
        rw [(List.cons.inj htext).1] at hd
        contradiction

/-- An integer is neither empty nor interrupted by white space. -/
theorem DecimalInteger.solid {text : List UInt8} {value : ℤ} (h : DecimalInteger text value) :
    text ≠ [] ∧ ∀ b ∈ text, isSpace b = false := by
  have hsign : isSpace 43 = false ∧ isSpace 45 = false := by decide
  cases h with
  | unsigned hsome hdigits => exact ⟨hsome, fun b hb => isSpace_of_isDigit (hdigits b hb)⟩
  | plus hsome hdigits =>
    refine ⟨List.cons_ne_nil _ _, List.forall_mem_cons.mpr ⟨hsign.1, ?_⟩⟩
    exact fun b hb => isSpace_of_isDigit (hdigits b hb)
  | minus hsome hdigits =>
    refine ⟨List.cons_ne_nil _ _, List.forall_mem_cons.mpr ⟨hsign.2, ?_⟩⟩
    exact fun b hb => isSpace_of_isDigit (hdigits b hb)

/-- An integer is a sign and digits. -/
theorem DecimalInteger.split {text : List UInt8} {value : ℤ} (h : DecimalInteger text value) (trail : List UInt8) :
    ∃ sign digits, splitSign (text ++ trail) = (sign, digits ++ trail) ∧ digits ≠ [] ∧
      (∀ d ∈ digits, isDigit d = true) ∧ value = sign * decimalValue digits := by
  cases h with
  | unsigned hsome hdigits =>
    exact ⟨1, text, splitSign_digits hsome hdigits, hsome, hdigits, (one_mul _).symm⟩
  | @plus digits hsome hdigits => exact ⟨1, digits, rfl, hsome, hdigits, (one_mul _).symm⟩
  | @minus digits hsome hdigits => exact ⟨-1, digits, rfl, hsome, hdigits, (neg_one_mul _).symm⟩

/-- An integer between white space is extracted. -/
theorem extractInt_append {gap text trail : List UInt8} {value : ℤ} (hgap : ∀ b ∈ gap, isSpace b = true)
    (htext : DecimalInteger text value) (hvalue : IsInt value) (htrail : ∀ b ∈ trail.head?, isSpace b = true) :
    extractInt (gap ++ (text ++ trail)) = some (⟨value, hvalue⟩, trail) := by
  obtain ⟨sign, digits, hsplit, hsome, hdigits, rfl⟩ := htext.split trail
  have hskip := (takeWhile_append_stop hgap (head_append htext.solid.1 htext.solid.2 trail)).2
  have hstop : ∀ b ∈ trail.head?, isDigit b = false := by
    intro b hb
    by_contra hdigit
    have hspace := htrail b hb
    rw [isSpace_of_isDigit (Bool.not_eq_false _ ▸ hdigit)] at hspace
    contradiction
  have hscan := takeWhile_append_stop hdigits hstop
  simp only [extractInt, hskip, hsplit, hscan]
  rw [dif_pos ⟨hsome, hvalue⟩]

/-- A sign and digits are an integer. -/
theorem DecimalInteger.of_splitSign (input : List UInt8) (hsome : (splitSign input).2.takeWhile isDigit ≠ []) :
    ∃ text, input = text ++ (splitSign input).2.dropWhile isDigit ∧
      DecimalInteger text ((splitSign input).1 * decimalValue ((splitSign input).2.takeWhile isDigit)) := by
  have hdigits : ∀ d ∈ (splitSign input).2.takeWhile isDigit, isDigit d = true :=
    fun d hd => List.mem_takeWhile_imp hd
  have hscan := List.takeWhile_append_dropWhile (p := isDigit) (l := (splitSign input).2)
  cases splitSign_cases input with
  | inl hplain =>
    rw [hplain] at hsome hdigits hscan ⊢
    rw [one_mul]
    exact ⟨input.takeWhile isDigit, hscan.symm, .unsigned hsome hdigits⟩
  | inr hsigned =>
    cases hsigned with
    | inl hplus =>
      obtain ⟨rest, hinput, hsplit⟩ := hplus
      rw [hsplit] at hsome hdigits hscan ⊢
      rw [one_mul]
      exact ⟨43 :: rest.takeWhile isDigit, by rw [hinput, List.cons_append, hscan], .plus hsome hdigits⟩
    | inr hminus =>
      obtain ⟨rest, hinput, hsplit⟩ := hminus
      rw [hsplit] at hsome hdigits hscan ⊢
      rw [neg_one_mul]
      exact ⟨45 :: rest.takeWhile isDigit, by rw [hinput, List.cons_append, hscan], .minus hsome hdigits⟩

/-- An integer that is extracted follows white space and stands at the front of the rest. -/
theorem extractInt_some {input trail : List UInt8} {n : { n : ℤ // IsInt n }}
    (h : extractInt input = some (n, trail)) :
    ∃ gap text, input = gap ++ (text ++ trail) ∧ (∀ b ∈ gap, isSpace b = true) ∧ DecimalInteger text n.1 := by
  simp only [extractInt] at h
  split at h
  · rename_i hread
    obtain ⟨hn, htrail⟩ := Prod.mk.inj (Option.some.inj h)
    obtain ⟨text, htext, hvalue⟩ := DecimalInteger.of_splitSign (input.dropWhile isSpace) hread.1
    rw [htrail] at htext
    refine ⟨input.takeWhile isSpace, text, ?_, fun b hb => List.mem_takeWhile_imp hb, hn ▸ hvalue⟩
    rw [← htext, List.takeWhile_append_dropWhile]
  · contradiction

/-! ## What is sent -/

/-- A line is well formed exactly if the extractions read all of it but white space and the
word is an address. -/
theorem wellFormed_iff {line : List UInt8} {addr : InAddr} {value : ℤ} :
    WellFormed line addr value ↔
      ∃ word rest n trail, extractString line = some (word, rest) ∧ extractInt rest = some (n, trail) ∧
        inetPton word = some addr ∧ n.1 = value ∧ ∀ b ∈ trail, isSpace b = true := by
  constructor
  · rintro ⟨first, second, hwords, haddr, hsecond, hvalue⟩
    obtain ⟨lead, gap, trail, rfl, hgap, hspace⟩ := hwords.layout
    rw [List.forall_mem_append, List.forall_mem_append] at hspace
    obtain ⟨⟨hlead, hgaps⟩, htrail⟩ := hspace
    have hsolid := List.forall_mem_append.mp hwords.solid
    exact ⟨first, gap ++ (second ++ trail), ⟨value, hvalue⟩, trail,
      extractString_append hlead hwords.nonempty.1 hsolid.1 (head_append hgap hgaps _),
      extractInt_append hgaps hsecond hvalue fun b hb => htrail b (List.mem_of_mem_head? hb), haddr, rfl, htrail⟩
  · rintro ⟨word, rest, n, trail, hstring, hint, haddr, rfl, htrail⟩
    obtain ⟨lead, hline, hlead, hword, hsolid, hrest⟩ := extractString_some hstring
    obtain ⟨gap, text, htext, hgaps, hinteger⟩ := extractInt_some hint
    have hgap : gap ≠ [] := by
      intro hnone
      have hsome := hinteger.solid.1
      rw [htext, hnone, List.nil_append, List.head?_append_of_ne_nil _ hsome] at hrest
      have hspace := hrest (text.head hsome) (List.head?_eq_some_head hsome)
      rw [hinteger.solid.2 _ (List.head_mem hsome)] at hspace
      contradiction
    refine ⟨word, text, ⟨⟨lead, gap, trail, by rw [hline, htext], hgap, ?_⟩, ⟨hword, hinteger.solid.1⟩, ?_⟩, haddr,
      hinteger, n.2⟩
    · exact List.forall_mem_append.mpr ⟨List.forall_mem_append.mpr ⟨hlead, hgaps⟩, htrail⟩
    · exact List.forall_mem_append.mpr ⟨hsolid, hinteger.solid.2⟩

/-- A text that is an address is a C string. -/
theorem cString_of_inetPton {text : List UInt8} {addr : InAddr} (h : inetPton text = some addr) :
    cString text = text := by
  rw [← inetNtop_of_inetPton h, IpString.cString_bytes]

/-- A line is a valid command if both extractions succeed. -/
theorem validateInput_eq_some {line : List UInt8} {command : Command} :
    validateInput line = some command ↔
      ∃ word rest n trail, extractString line = some (word, rest) ∧ extractInt rest = some (n, trail) ∧
        command = ⟨word, n.1, n.2⟩ := by
  simp only [validateInput, Option.bind_eq_bind, Option.bind_eq_some_iff, Prod.exists, Option.some.injEq]
  constructor
  · rintro ⟨word, rest, hstring, n, trail, hint, rfl⟩
    exact ⟨word, rest, n, trail, hstring, hint, rfl⟩
  · rintro ⟨word, rest, n, trail, hstring, hint, rfl⟩
    exact ⟨word, rest, hstring, n, trail, hint, rfl⟩

/-- Only the start of a command sets the command at work. -/
theorem ClientProcess.command_of_step {c : ClientProcess} {event : ClientEvent} {outcome : ClientOutcome}
    (hevent : ∀ command, event ≠ .start command) (h : c.step event = some outcome) :
    ∀ command ∈ outcome.process.phase.command, command ∈ c.phase.command := by
  have hretry : ∀ (p : ClientProcess) (command : Command) (retries : ℕ),
      ∀ other ∈ (p.retry command retries).phase.command, other = command := by
    intro p command retries other hother
    simp only [ClientProcess.retry] at hother
    split at hother
    · exact (Option.some.inj hother).symm
    · contradiction
  cases step_cases h with
  | start command => exact absurd rfl (hevent command)
  | send leftover command retries hphase => simp [hphase, ClientPhase.command]
  | timeout command retries hphase =>
    intro other hother
    rw [hretry _ _ _ other hother, hphase]
    rfl
  | taken command retries ack rest hphase =>
    intro other hother
    simp only [ClientProcess.processAck, ClientProcess.incrementSequenceNumber] at hother
    split_ifs at hother <;> contradiction
  | stale command retries ack rest hphase =>
    intro other hother
    rw [hretry _ _ _ other hother, hphase]
    rfl

/-- The command at work on a line is the one the line was read as. -/
theorem Processing.command {line : List UInt8} {c p : ClientProcess} (h : Processing line c p) :
    ∀ command ∈ p.phase.command, validateInput line = some command := by
  induction h with
  | start hvalid hstep =>
    intro command hcommand
    cases ClientProcess.step_cases hstep
    exact Option.some.inj hcommand ▸ hvalid
  | step _ hevent hstep ih =>
    intro command hcommand
    exact ih command (ClientProcess.command_of_step hevent hstep command hcommand)
  | arrive _ _ ih => exact ih

/-- What is sent for a line is the packet of the command it is read as. -/
theorem sendsRequest_iff {line : List UInt8} {req : ReqData} :
    SendsRequest line req ↔
      ∃ (c : ClientProcess) (command : Command) (leftover : InAddr),
        validateInput line = some command ∧ req = c.requestPacket command leftover := by
  constructor
  · rintro ⟨c, p, leftover, outcome, _, hp, hstep, hsent⟩
    cases ClientProcess.step_cases hstep with
    | send leftover command retries hphase =>
      exact ⟨p, command, leftover, hp.command command (by rw [hphase]; rfl), (Option.some.inj hsent).symm⟩
  · rintro ⟨c, command, leftover, hvalid, rfl⟩
    exact ⟨{ c with phase := .idle }, _, leftover, _, rfl, .start hvalid rfl, rfl, rfl⟩

/-- Every packet sent for a line carries the address and the integer the line consists of,
if and only if the line is read to its end. -/
theorem request_well_formed_iff_read_to_end (line : List UInt8) :
    (∀ req, SendsRequest line req →
      ∃ addr value, WellFormed line addr value ∧ req.destAddr = addr ∧ req.value.toInt = value) ↔
    ReadToEnd line := by
  constructor
  · intro hsends word rest n trail hstring hint
    have hvalid : validateInput line = some ⟨word, n.1, n.2⟩ :=
      validateInput_eq_some.mpr ⟨word, rest, n, trail, hstring, hint, rfl⟩
    obtain ⟨addr, value, hformed, -⟩ :=
      hsends _ (sendsRequest_iff.mpr ⟨{}, _, (testHost 0).sinAddr, hvalid, rfl⟩)
    obtain ⟨word', rest', n', trail', hstring', hint', haddr, -, htrail⟩ := wellFormed_iff.mp hformed
    obtain ⟨rfl, rfl⟩ := Prod.mk.inj (Option.some.inj (hstring.symm.trans hstring'))
    obtain ⟨rfl, rfl⟩ := Prod.mk.inj (Option.some.inj (hint.symm.trans hint'))
    exact ⟨Option.isSome_of_eq_some haddr, htrail⟩
  · intro hread req hsend
    obtain ⟨c, command, leftover, hvalid, rfl⟩ := sendsRequest_iff.mp hsend
    obtain ⟨word, rest, n, trail, hstring, hint, rfl⟩ := validateInput_eq_some.mp hvalid
    obtain ⟨haddr, htrail⟩ := hread word rest n trail hstring hint
    obtain ⟨addr, haddr⟩ := Option.isSome_iff_exists.mp haddr
    refine ⟨addr, n.1, wellFormed_iff.mpr ⟨word, rest, n, trail, hstring, hint, haddr, rfl, htrail⟩, ?_, ?_⟩
    · simp only [ClientProcess.requestPacket, cString_of_inetPton haddr, haddr, Option.getD_some]
    · exact BitVec.toInt_ofInt_eq_self (by decide) n.2.1 n.2.2

/-- The line `sleep 0.3`. -/
def sleepLine : List UInt8 := [115, 108, 101, 101, 112, 32, 48, 46, 51]

/-- The line `sleep 0.3` sends a transfer of nothing to whatever address was in memory. -/
theorem sleep_line_sends_request :
    (∀ leftover, SendsRequest sleepLine { destAddr := leftover, value := 0, seqn := 1 }) ∧
    ¬ ∃ addr value, WellFormed sleepLine addr value := by
  constructor
  · intro leftover
    have hvalid : validateInput sleepLine = some ⟨sleepLine.take 5, 0, by decide⟩ := by decide +kernel
    have hword : inetPton (cString (sleepLine.take 5)) = none := by decide +kernel
    refine sendsRequest_iff.mpr ⟨{}, _, leftover, hvalid, ?_⟩
    simp only [ClientProcess.requestPacket, hword, Option.getD_none]
    rfl
  · rintro ⟨addr, value, hformed⟩
    obtain ⟨word, rest, n, trail, hstring, -, haddr, -⟩ := wellFormed_iff.mp hformed
    have hfirst : extractString sleepLine = some (sleepLine.take 5, sleepLine.drop 5) := by decide +kernel
    obtain ⟨rfl, rfl⟩ := Prod.mk.inj (Option.some.inj (hfirst.symm.trans hstring))
    have hword : inetPton (sleepLine.take 5) = none := by decide +kernel
    rw [hword] at haddr
    contradiction

end BankReplica
