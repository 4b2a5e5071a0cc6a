import BankReplica.Library.KeyedList
import Mathlib.Data.List.TakeWhile
import Mathlib.Tactic.Linarith

/-!
# Addresses and their texts

Clients are named by the dotted-quad text of their IPv4 address. Every such text is
written by `inet_ntop` into a buffer of `INET_ADDRSTRLEN` bytes or read out of a packet
field of that size, so the model's address texts are the C strings that fit that buffer.
`inet_ntop` and `inet_pton` are the C library's conversions, the latter accepting
exactly the canonical texts.
-/

namespace BankReplica

/-- `INET_ADDRSTRLEN`, the size of every address buffer. -/
def inetAddrStrLen : ℕ := 16

/-- The C strings held by a `char[INET_ADDRSTRLEN]`, without the terminating NUL. -/
structure IpString where
  bytes : List UInt8
  fits : bytes.length < inetAddrStrLen ∧ 0 ∉ bytes
deriving DecidableEq

/-- The C string that starts a byte string: what `c_str()` passes to a C function. -/
def cString (text : List UInt8) : List UInt8 := text.takeWhile (· ≠ 0)

/-- The empty string, the initial value of the address fields of a log record. -/
def IpString.empty : IpString := ⟨[], by decide⟩

/-- `strncpy` of a C string into an address buffer, followed by the store of the final NUL. -/
def strncpyIp (text : List UInt8) : IpString where
  bytes := (text.takeWhile (· ≠ 0)).take (inetAddrStrLen - 1)
  fits := by
    constructor
    · simp only [List.length_take, inetAddrStrLen]
      omega
    · intro h
      simpa using List.mem_takeWhile_imp (List.mem_of_mem_take h)

/-- No byte of an address text is NUL. -/
theorem IpString.ne_nul (ip : IpString) : ∀ b ∈ ip.bytes, decide (b ≠ 0) = true := by
  intro b hb
  simpa using fun h : b = 0 => ip.fits.2 (h ▸ hb)

/-- An address text is a C string. -/
@[simp] theorem IpString.cString_bytes (ip : IpString) : cString ip.bytes = ip.bytes :=
  List.takeWhile_eq_self_iff.mpr ip.ne_nul

/-- An address text leaves room for the final NUL. -/
@[simp] theorem IpString.take_bytes (ip : IpString) : ip.bytes.take (inetAddrStrLen - 1) = ip.bytes := by
  have hlen := ip.fits.1
  exact List.take_of_length_le (by omega)

/-- Copying a string that fits the buffer is lossless. -/
@[simp] theorem strncpyIp_bytes (ip : IpString) : strncpyIp ip.bytes = ip := by
  have hwhole : ip.bytes.takeWhile (· ≠ 0) = ip.bytes := ip.cString_bytes
  simp only [strncpyIp, hwhole, IpString.take_bytes]

/-- `struct in_addr`: the four octets of an IPv4 address in memory order. -/
structure InAddr where
  a : UInt8
  b : UInt8
  c : UInt8
  d : UInt8
deriving DecidableEq

/-- `struct sockaddr_in`, with the port in host order. -/
structure SockAddr where
  sinAddr : InAddr
  sinPort : UInt16
deriving DecidableEq

/-- A host of the test network `172.18.0.0/16`, at the port the programs are started with. -/
def testHost (d : UInt8) : SockAddr := ⟨⟨172, 18, 0, d⟩, 4000⟩

/-- The decimal text of one octet. -/
def octetText (o : UInt8) : List UInt8 :=
  if o < 10 then [48 + o]
  else if o < 100 then [48 + o / 10, 48 + o % 10]
  else [48 + o / 100, 48 + o / 10 % 10, 48 + o % 10]

/-- Every octet value. -/
def octets : List UInt8 := (List.range 256).map UInt8.ofNat

/-- Read one octet, accepting its canonical text only. -/
def parseOctet (text : List UInt8) : Option UInt8 := KeyedList.lookup octetText octets text

/-- The number a decimal text denotes, modulo 256. -/
def octetValue (text : List UInt8) : UInt8 := text.foldl (fun n digit => 10 * n + (digit - 48)) 0

/-- The separator between octets. -/
def dot : UInt8 := 46

/-- Every octet is listed. -/
theorem mem_octets (o : UInt8) : o ∈ octets :=
  List.mem_map.mpr ⟨o.toNat, List.mem_range.mpr o.toNat_lt, UInt8.ofNat_toNat⟩

/-- No octet is listed twice. -/
theorem octets_nodup : octets.Nodup := by
  refine List.Nodup.map_on ?_ List.nodup_range
  intro m hm n hn h
  have := congrArg UInt8.toNat h
  rwa [UInt8.toNat_ofNat_of_lt' (List.mem_range.mp hm),
    UInt8.toNat_ofNat_of_lt' (List.mem_range.mp hn)] at this

/-- An octet's text has at most three bytes, none of them a separator or a NUL. -/
theorem octetText_shape (o : UInt8) :
    (octetText o).length ≤ 3 ∧ dot ∉ octetText o ∧ 0 ∉ octetText o := by
  have hall : ∀ o ∈ octets, (octetText o).length ≤ 3 ∧ dot ∉ octetText o ∧ 0 ∉ octetText o := by
    decide +kernel
  exact hall o (mem_octets o)

/-- An octet's text denotes the octet. -/
theorem octetValue_octetText (o : UInt8) : octetValue (octetText o) = o := by
  have hall : ∀ o ∈ octets, octetValue (octetText o) = o := by decide +kernel
  exact hall o (mem_octets o)

/-- Reading back an octet's text returns the octet. -/
theorem parseOctet_octetText (o : UInt8) : parseOctet (octetText o) = some o := by
  have hinj : Function.Injective octetText := Function.LeftInverse.injective octetValue_octetText
  exact KeyedList.lookup_of_mem octetText (octets_nodup.map hinj) (mem_octets o)

/-- Only the canonical text of an octet is read. -/
theorem octetText_of_parseOctet {text : List UInt8} {o : UInt8} (h : parseOctet text = some o) :
    octetText o = text :=
  (KeyedList.lookup_some octetText h).2

/-- The four octet texts of an address. -/
def InAddr.texts (addr : InAddr) : List (List UInt8) :=
  [octetText addr.a, octetText addr.b, octetText addr.c, octetText addr.d]

/-- `inet_ntop(AF_INET, ...)`: the dotted-quad text of an address. -/
def inetNtop (addr : InAddr) : IpString where
  bytes := [dot].intercalate addr.texts
  fits := by
    obtain ⟨ha, -, hna⟩ := octetText_shape addr.a
    obtain ⟨hb, -, hnb⟩ := octetText_shape addr.b
    obtain ⟨hc, -, hnc⟩ := octetText_shape addr.c
    obtain ⟨hd, -, hnd⟩ := octetText_shape addr.d
    have hdot : (0 : UInt8) ≠ dot := by decide
    simp [InAddr.texts, inetAddrStrLen, List.intercalate, List.intersperse, hna, hnb, hnc, hnd, hdot]
    omega

/-- `inet_pton(AF_INET, ...)`: the address a dotted-quad text denotes, if it is one. -/
def inetPton (text : List UInt8) : Option InAddr :=
  match text.splitOn dot with
  | [a, b, c, d] => do
    some ⟨← parseOctet a, ← parseOctet b, ← parseOctet c, ← parseOctet d⟩
  | _ => none

/-- The text of an address denotes that address. -/
theorem inetPton_inetNtop (addr : InAddr) : inetPton (inetNtop addr).bytes = some addr := by
  have hsplit : (inetNtop addr).bytes.splitOn dot = addr.texts := by
    apply List.splitOn_intercalate
    · intro text htext
      simp only [InAddr.texts, List.mem_cons, List.not_mem_nil, or_false] at htext
      rcases htext with rfl | rfl | rfl | rfl <;> exact (octetText_shape _).2.1
    · simp [InAddr.texts]
  simp only [inetPton, hsplit, InAddr.texts, parseOctet_octetText, Option.bind_eq_bind,
    Option.bind_some]

/-- Distinct addresses have distinct texts. -/
theorem inetNtop_injective : Function.Injective inetNtop := by
  intro x y h
  have := congrArg (fun ip : IpString => inetPton ip.bytes) h
  simpa only [inetPton_inetNtop, Option.some.injEq] using this

/-- The only text read as an address is the one written for it. -/
theorem inetNtop_of_inetPton {text : List UInt8} {addr : InAddr} (h : inetPton text = some addr) :
    (inetNtop addr).bytes = text := by
  unfold inetPton at h
  split at h
  · rename_i a b c d hsplit
    simp only [Option.bind_eq_bind, Option.bind_eq_some_iff, Option.some.injEq] at h
    obtain ⟨oa, ha, ob, hb, oc, hc, od, hd, rfl⟩ := h
    have htexts : InAddr.texts ⟨oa, ob, oc, od⟩ = text.splitOn dot := by
      rw [hsplit]
      simp only [InAddr.texts, octetText_of_parseOctet ha, octetText_of_parseOctet hb,
        octetText_of_parseOctet hc, octetText_of_parseOctet hd]
    calc (inetNtop ⟨oa, ob, oc, od⟩).bytes = [dot].intercalate (text.splitOn dot) := by
          rw [← htexts]
          rfl
      _ = text := List.intercalate_splitOn dot
  · contradiction

end BankReplica
