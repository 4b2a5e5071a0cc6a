import Mathlib.Data.Nat.Digits.Lemmas

/-!
# Byte orders and numbers in memory

A host keeps a number of several bytes in memory with the least significant byte first or
last. A number stored by one host and loaded by another comes out with its bytes reversed
if their orders differ, unless both sides agree to pass it in network order, most
significant byte first, converting on the way out and on the way in.
-/

namespace ByteOrder

/-- The order in which a host keeps the bytes of a number. -/
inductive Endian
  | little
  | big
deriving DecidableEq

/-- The `n` low bytes of a number, least significant first. -/
def lowBytes (n x : ℕ) : List UInt8 := (List.range n).map fun i => UInt8.ofNat (x / 256 ^ i)

/-- The number with the given bytes, least significant first. -/
def value (bs : List UInt8) : ℕ := Nat.ofDigits 256 (bs.map UInt8.toNat)

/-- The bytes of a number, as the host keeps them. -/
def Endian.bytes (o : Endian) (n x : ℕ) : List UInt8 :=
  match o with
  | .little => lowBytes n x
  | .big => (lowBytes n x).reverse

/-- The number that the host reads in the given bytes. -/
def Endian.value (o : Endian) (bs : List UInt8) : ℕ :=
  match o with
  | .little => ByteOrder.value bs
  | .big => ByteOrder.value bs.reverse

/-- A number of `n` bytes with its bytes reversed. -/
def swap (n x : ℕ) : ℕ := value (lowBytes n x).reverse

/-- The conversion from host to network order, which is also the one back. -/
def Endian.hton (o : Endian) (n x : ℕ) : ℕ :=
  match o with
  | .little => swap n x
  | .big => x

@[simp] theorem length_lowBytes (n x : ℕ) : (lowBytes n x).length = n := by
  rw [lowBytes, List.length_map, List.length_range]

@[simp] theorem Endian.length_bytes (o : Endian) (n x : ℕ) : (o.bytes n x).length = n := by
  cases o with
  | little => exact length_lowBytes n x
  | big => rw [Endian.bytes, List.length_reverse, length_lowBytes]

/-- The bytes of a number determine it modulo the next power of 256. -/
theorem value_lowBytes (n x : ℕ) : value (lowBytes n x) = x % 256 ^ n := by
  induction n with
  | zero => simp [lowBytes, value, Nat.mod_one]
  | succ n ih =>
    have hdigit : (UInt8.ofNat (x / 256 ^ n)).toNat = x / 256 ^ n % 256 := UInt8.toNat_ofNat'
    have hlow : lowBytes (n + 1) x = lowBytes n x ++ [UInt8.ofNat (x / 256 ^ n)] := by
      rw [lowBytes, List.range_succ, List.map_append]
      rfl
    rw [value] at ih
    rw [value, hlow, List.map_append, Nat.ofDigits_append, ih, List.length_map, length_lowBytes,
      List.map_singleton, Nat.ofDigits_singleton, hdigit, Nat.mod_pow_succ]

/-- Bytes denote a number below the next power of 256. -/
theorem value_lt (bs : List UInt8) : value bs < 256 ^ bs.length := by
  have hdigits : ∀ d ∈ bs.map UInt8.toNat, d < 256 := by
    intro d hd
    obtain ⟨b, _, rfl⟩ := List.mem_map.mp hd
    exact b.toNat_lt
  have hlt := Nat.ofDigits_lt_base_pow_length (by decide) hdigits
  rwa [List.length_map] at hlt

/-- Bytes are those of the number they denote. -/
theorem lowBytes_value (bs : List UInt8) : lowBytes bs.length (value bs) = bs := by
  have hdigits : ∀ l : List UInt8, ∀ d ∈ l.map UInt8.toNat, d < 256 := by
    intro l d hd
    obtain ⟨b, _, rfl⟩ := List.mem_map.mp hd
    exact b.toNat_lt
  have hsame : (lowBytes bs.length (value bs)).map UInt8.toNat = bs.map UInt8.toNat := by
    apply Nat.ofDigits_inj_of_len_eq (by decide) _ (hdigits _) (hdigits _)
    · exact (value_lowBytes _ _).trans (Nat.mod_eq_of_lt (value_lt bs))
    · rw [List.length_map, List.length_map, length_lowBytes]
  exact List.map_injective_iff.mpr (fun _ _ h => UInt8.toNat.inj h) hsame

/-- A host reads back the number it stored. -/
theorem Endian.value_bytes (o : Endian) {n x : ℕ} (hx : x < 256 ^ n) : o.value (o.bytes n x) = x := by
  have hlow := (value_lowBytes n x).trans (Nat.mod_eq_of_lt hx)
  cases o with
  | little => exact hlow
  | big => rw [Endian.value, Endian.bytes, List.reverse_reverse, hlow]

/-- A host that stores a number it has loaded restores the bytes. -/
theorem Endian.bytes_value (o : Endian) {bs : List UInt8} {n : ℕ} (hn : bs.length = n) :
    o.bytes n (o.value bs) = bs := by
  subst hn
  cases o with
  | little => exact lowBytes_value bs
  | big =>
    have hreversed := lowBytes_value bs.reverse
    rw [List.length_reverse] at hreversed
    rw [Endian.bytes, Endian.value, hreversed, List.reverse_reverse]

/-- A host of the other order reads the number reversed. -/
theorem Endian.value_bytes_of_ne {s r : Endian} (h : s ≠ r) (n x : ℕ) : r.value (s.bytes n x) = swap n x := by
  cases s with
  | little =>
    cases r with
    | little => contradiction
    | big => rfl
  | big =>
    cases r with
    | little => rfl
    | big => contradiction

/-- A host reads a number below the next power of 256. -/
theorem Endian.value_lt (o : Endian) {bs : List UInt8} {n : ℕ} (hn : bs.length = n) : o.value bs < 256 ^ n := by
  subst hn
  cases o with
  | little => exact ByteOrder.value_lt bs
  | big => exact bs.length_reverse ▸ ByteOrder.value_lt bs.reverse

/-- The conversion keeps a number in its bytes. -/
theorem Endian.hton_lt (o : Endian) {n x : ℕ} (hx : x < 256 ^ n) : o.hton n x < 256 ^ n := by
  cases o with
  | little =>
    have hlt := ByteOrder.value_lt (lowBytes n x).reverse
    rwa [List.length_reverse, length_lowBytes] at hlt
  | big => exact hx

/-- A number converted to network order lies in memory most significant byte first. -/
theorem Endian.bytes_hton (o : Endian) (n x : ℕ) : o.bytes n (o.hton n x) = (lowBytes n x).reverse := by
  cases o with
  | little =>
    have hreversed := lowBytes_value (lowBytes n x).reverse
    rwa [List.length_reverse, length_lowBytes] at hreversed
  | big => rfl

/-- A number loaded and converted from network order is the one whose bytes lie there most
significant first. -/
theorem Endian.hton_value (o : Endian) (bs : List UInt8) :
    o.hton bs.length (o.value bs) = ByteOrder.value bs.reverse := by
  cases o with
  | little => rw [Endian.hton, Endian.value, swap, lowBytes_value]
  | big => rfl

/-- Numbers passed in network order arrive, whatever the orders of the two hosts. -/
theorem Endian.network_roundtrip (s r : Endian) {n x : ℕ} (hx : x < 256 ^ n) :
    r.hton n (r.value (s.bytes n (s.hton n x))) = x := by
  have harrives := r.hton_value (s.bytes n (s.hton n x))
  rw [s.length_bytes] at harrives
  rw [harrives, s.bytes_hton, List.reverse_reverse, value_lowBytes, Nat.mod_eq_of_lt hx]

/-! ## Memory -/

/-- The bytes of a piece of memory, by their offset. -/
abbrev Memory := ℕ → UInt8

/-- Write bytes from an offset on. -/
def store (m : Memory) (off : ℕ) (bs : List UInt8) : Memory :=
  fun i => if off ≤ i then (bs[i - off]?).getD (m i) else m i

/-- Read bytes from an offset on. -/
def load (m : Memory) (off n : ℕ) : List UInt8 := (List.range n).map fun i => m (off + i)

@[simp] theorem length_load (m : Memory) (off n : ℕ) : (load m off n).length = n := by
  rw [load, List.length_map, List.length_range]

/-- What has been stored is read back. -/
theorem load_store (m : Memory) (off : ℕ) {bs : List UInt8} {n : ℕ} (hn : bs.length = n) :
    load (store m off bs) off n = bs := by
  apply List.ext_getElem
  · rw [length_load, hn]
  · intro i hi hi'
    simp only [load, store, List.getElem_map, List.getElem_range, Nat.le_add_right, if_true,
      Nat.add_sub_cancel_left, List.getElem?_eq_getElem hi', Option.getD_some]

/-- A store leaves alone what lies outside it. -/
theorem load_store_of_disjoint (m : Memory) {off off' n : ℕ} {bs : List UInt8}
    (h : off' + n ≤ off ∨ off + bs.length ≤ off') : load (store m off bs) off' n = load m off' n := by
  apply List.map_congr_left
  intro i hi
  rw [List.mem_range] at hi
  simp only [store]
  split
  · rw [List.getElem?_eq_none (by omega), Option.getD_none]
  · rfl

end ByteOrder
