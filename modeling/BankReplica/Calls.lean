import BankReplica.Accounts

/-!
# Runs of client operations on one server

A primary changes its ledger through `addClient` and `processTransaction` only. On the
ledger each call is a function of the ledger alone, so a run of calls on a server is a
run of that function, whatever the role and the backups.
-/

namespace BankReplica

variable (fl : FloatRounding)

/-- A call that a client's packet causes. -/
inductive Call
  | addClient (ip : IpString)
  | processTransaction (sourceIp : IpString) (destAddr : InAddr) (value seqn : ℤ)
deriving DecidableEq

/-- The request a client sent, as the call the server decodes from it. -/
def requestCall (addr : InAddr) (req : ReqData) : Call :=
  .processTransaction (inetNtop addr) req.destAddr req.value.toInt req.seqn.toInt

/-- One call, with the packets it sends. -/
def Server.call (s : Server) : Call → Server × List Send
  | .addClient ip => s.addClient fl ip
  | .processTransaction sourceIp destAddr value seqn =>
    let (s', _, sends) := s.processTransaction fl sourceIp destAddr value seqn
    (s', sends)

/-- A sequence of calls. -/
def Server.runCalls (s : Server) (calls : List Call) : Server :=
  calls.foldl (fun s c => (s.call fl c).1) s

/-- A server that is primary from its fresh start. -/
def freshPrimary (serverId : Word) (port : UInt16) : Server :=
  { Server.new serverId port with currentRole := .primary }

/-- What one call does to the ledger. -/
def Ledger.apply (l : Ledger) : Call → Ledger
  | .addClient ip => if ip ∈ l.addresses then l else l.register fl ip
  | .processTransaction sourceIp destAddr value seqn =>
    if l.verdict fl sourceIp (inetNtop destAddr) value seqn = .success then
      l.commit fl sourceIp (inetNtop destAddr) value seqn
    else l

/-- A call acts on the ledger alone. -/
theorem Server.call_toLedger (s : Server) (c : Call) :
    (s.call fl c).1.toLedger = s.toLedger.apply fl c := by
  cases c with
  | addClient ip => exact s.addClient_toLedger fl ip
  | processTransaction sourceIp destAddr value seqn =>
    exact s.processTransaction_toLedger fl sourceIp destAddr value seqn

/-- A discovery packet registers its sender on a primary. -/
theorem Server.handleDiscoveryPacket_toLedger (s : Server) (clientAddr : SockAddr) :
    (s.handleDiscoveryPacket fl clientAddr).1.toLedger =
      if s.currentRole = .primary then s.toLedger.apply fl (.addClient (inetNtop clientAddr.sinAddr))
      else s.toLedger := by
  simp only [Server.handleDiscoveryPacket]
  split
  · exact s.call_toLedger fl (.addClient (inetNtop clientAddr.sinAddr))
  · rfl

/-- A call keeps the role and the list of backups. -/
theorem Server.call_frame (s : Server) (c : Call) :
    (s.call fl c).1.currentRole = s.currentRole ∧
      (s.call fl c).1.backupServers = s.backupServers := by
  cases c with
  | addClient ip => exact s.addClient_frame fl ip
  | processTransaction sourceIp destAddr value seqn =>
    exact s.processTransaction_frame fl sourceIp destAddr value seqn

/-- A run of calls is a run on the ledger. -/
theorem Server.runCalls_toLedger (s : Server) (calls : List Call) :
    (s.runCalls fl calls).toLedger = calls.foldl (Ledger.apply fl) s.toLedger := by
  induction calls generalizing s with
  | nil => rfl
  | cons c rest ih =>
    change ((s.call fl c).1.runCalls fl rest).toLedger = _
    rw [ih, Server.call_toLedger, List.foldl_cons]

/-- A property of the empty ledger that registrations and accepted requests preserve holds
after every run. -/
theorem Ledger.run_invariant {I : Ledger → Prop} (hempty : I {})
    (hregister : ∀ l ip, I l → ip ∉ l.addresses → I (l.register fl ip))
    (hcommit : ∀ l sourceIp destIp value seqn, I l →
      l.verdict fl sourceIp destIp value seqn = .success → I (l.commit fl sourceIp destIp value seqn))
    (calls : List Call) : I (calls.foldl (Ledger.apply fl) {}) := by
  suffices h : ∀ l, I l → I (calls.foldl (Ledger.apply fl) l) from h {} hempty
  induction calls with
  | nil => exact fun _ hl => hl
  | cons c rest ih =>
    intro l hl
    apply ih
    cases c with
    | addClient ip =>
      simp only [Ledger.apply]
      split
      · exact hl
      · exact hregister l ip hl ‹_›
    | processTransaction sourceIp destAddr value seqn =>
      simp only [Ledger.apply]
      split
      · exact hcommit l sourceIp _ value seqn hl ‹_›
      · exact hl

end BankReplica
