import Mathlib.Algebra.Order.Ring.Int
import Mathlib.Algebra.Order.Group.Unbundled.Abs
import Mathlib.Data.Int.ConditionallyCompleteOrder
import Mathlib.Data.Nat.Log
import Mathlib.Order.Monotone.Basic
import Mathlib.Tactic.Linarith
import Mathlib.Tactic.Ring

/-!
# Rounding integers to a fixed number of significant bits

An integer-valued binary floating-point number with `p` significant bits is an integer
`m * 2 ^ k` with `|m| < 2 ^ p`. Arithmetic on such numbers computes the exact result and
rounds it to the nearest representable one, ties to the even significand. The rounding
is monotone, idempotent, and the identity up to `2 ^ p`, which is all that programs
working on integer amounts rely on. Exponent range and infinities are not modelled.
-/

namespace RoundBits

/-- Round to the nearest multiple of `2 ^ k`, ties to the even multiple. -/
def roundShift (k n : ℕ) : ℕ :=
  let q := n / 2 ^ k
  let r := n % 2 ^ k
  (if 2 * r < 2 ^ k ∨ (2 * r = 2 ^ k ∧ q % 2 = 0) then q else q + 1) * 2 ^ k

/-- Round a natural number to `p` significant bits. -/
def roundNat (p n : ℕ) : ℕ := roundShift (n.log2 + 1 - p) n

/-- Round an integer to `p` significant bits, symmetrically in the sign. -/
def roundInt (p : ℕ) (x : ℤ) : ℤ := if 0 ≤ x then roundNat p x.toNat else -roundNat p (-x).toNat

/-- A multiple of the quantum is already rounded. -/
theorem roundShift_of_dvd {k n : ℕ} (h : 2 ^ k ∣ n) : roundShift k n = n := by
  have hr : n % 2 ^ k = 0 := Nat.mod_eq_zero_of_dvd h
  have hpos : 0 < 2 ^ k := by positivity
  simp only [roundShift, hr, mul_zero, hpos, true_or, if_true]
  exact Nat.div_mul_cancel h

/-- The rounded value is a multiple of the quantum. -/
theorem dvd_roundShift (k n : ℕ) : 2 ^ k ∣ roundShift k n := Dvd.intro_left _ rfl

/-- Rounding at one fixed quantum is monotone. -/
theorem roundShift_mono (k : ℕ) : Monotone (roundShift k) := by
  intro m n hmn
  have hq : m / 2 ^ k ≤ n / 2 ^ k := Nat.div_le_div_right hmn
  have hm := Nat.div_add_mod m (2 ^ k)
  have hn := Nat.div_add_mod n (2 ^ k)
  apply Nat.mul_le_mul_right
  rcases hq.lt_or_eq with hlt | heq
  · -- A smaller quotient rounds to at most its successor, which the larger one dominates.
    split <;> split <;> omega
  · have hr : m % 2 ^ k ≤ n % 2 ^ k := by
      rw [heq] at hm
      omega
    rw [heq]
    split <;> split <;> omega

/-- Rounding does not leave an interval ending at a power of two above the quantum. -/
theorem roundShift_le_pow {k j n : ℕ} (hk : k ≤ j) (hn : n ≤ 2 ^ j) : roundShift k n ≤ 2 ^ j :=
  (roundShift_mono k hn).trans_eq (roundShift_of_dvd (pow_dvd_pow 2 hk))

/-- Rounding does not leave an interval starting at a power of two above the quantum. -/
theorem pow_le_roundShift {k j n : ℕ} (hk : k ≤ j) (hn : 2 ^ j ≤ n) : 2 ^ j ≤ roundShift k n :=
  (roundShift_of_dvd (pow_dvd_pow 2 hk)).symm.trans_le (roundShift_mono k hn)

/-- Numbers of at most `p` bits, and `2 ^ p` itself, are representable. -/
theorem roundNat_of_le {p n : ℕ} (hp : 0 < p) (hn : n ≤ 2 ^ p) : roundNat p n = n := by
  apply roundShift_of_dvd
  rcases hn.lt_or_eq with hlt | rfl
  · have hsize : n.log2 + 1 - p = 0 := by
      rcases Nat.eq_zero_or_pos n with rfl | hpos
      · simp only [Nat.log2_zero]
        omega
      · have := (Nat.log2_lt hpos.ne').mpr hlt
        omega
    rw [hsize, pow_zero]
    exact one_dvd n
  · rw [Nat.log2_two_pow]
    exact pow_dvd_pow 2 (by omega)

/-- Rounding to `p` significant bits is monotone on the naturals. -/
theorem roundNat_mono {p : ℕ} (hp : 0 < p) : Monotone (roundNat p) := by
  intro m n hmn
  rcases Nat.eq_zero_or_pos m with rfl | hm
  · rw [roundNat_of_le hp (Nat.zero_le _)]
    exact Nat.zero_le _
  have hn : 0 < n := hm.trans_le hmn
  have hlog : m.log2 ≤ n.log2 := (Nat.le_log2 hn.ne').mpr ((Nat.log2_self_le hm.ne').trans hmn)
  rcases hlog.lt_or_eq with hlt | heq
  · -- A power of two separates the two binades and is fixed by both roundings.
    calc roundNat p m ≤ 2 ^ (m.log2 + 1) := roundShift_le_pow (Nat.sub_le _ _) Nat.lt_log2_self.le
      _ ≤ 2 ^ n.log2 := pow_le_pow_right₀ (by decide) hlt
      _ ≤ roundNat p n := pow_le_roundShift (by omega) (Nat.log2_self_le hn.ne')
  · unfold roundNat
    rw [heq]
    exact roundShift_mono _ hmn

/-- A rounded natural number is representable. -/
theorem roundNat_idem {p : ℕ} (hp : 0 < p) (n : ℕ) : roundNat p (roundNat p n) = roundNat p n := by
  have hle : roundNat p n ≤ 2 ^ (n.log2 + 1) := roundShift_le_pow (Nat.sub_le _ _) Nat.lt_log2_self.le
  rcases hle.lt_or_eq with hlt | heq
  · have hlog : (roundNat p n).log2 ≤ n.log2 := by
      rcases Nat.eq_zero_or_pos (roundNat p n) with hz | hpos
      · rw [hz, Nat.log2_zero]
        exact Nat.zero_le _
      · exact Nat.lt_succ_iff.mp ((Nat.log2_lt hpos.ne').mpr hlt)
    exact roundShift_of_dvd ((pow_dvd_pow 2 (by omega)).trans (dvd_roundShift _ n))
  · rw [heq]
    apply roundShift_of_dvd
    rw [Nat.log2_two_pow]
    exact pow_dvd_pow 2 (by omega)

/-- Rounding a nonnegative integer is rounding its absolute value. -/
theorem roundInt_natCast (p n : ℕ) : roundInt p n = roundNat p n := by
  simp [roundInt]

/-- Rounding is odd. -/
theorem roundInt_neg {p : ℕ} (hp : 0 < p) (x : ℤ) : roundInt p (-x) = -roundInt p x := by
  have hzero : roundNat p 0 = 0 := roundNat_of_le hp (Nat.zero_le _)
  rcases lt_trichotomy x 0 with hneg | rfl | hpos
  · simp [roundInt, hneg.le, hneg.not_ge]
  · simp [roundInt, hzero]
  · simp [roundInt, hpos.le, hpos.not_ge]

/-- A rounding of the integers to `p` significant bits, carrying the facts that
arithmetic on rounded amounts relies on. -/
structure Rounding (p : ℕ) where
  toFun : ℤ → ℤ
  mono : Monotone toFun
  idem : ∀ x, toFun (toFun x) = toFun x
  odd : ∀ x, toFun (-x) = -toFun x
  exact_of_abs_le : ∀ x, |x| ≤ 2 ^ p → toFun x = x

instance (p : ℕ) : CoeFun (Rounding p) fun _ => ℤ → ℤ := ⟨Rounding.toFun⟩

/-- No rounding at all: amounts as exact integers. -/
def Rounding.exact (p : ℕ) : Rounding p where
  toFun := id
  mono := monotone_id
  idem := fun _ => rfl
  odd := fun _ => rfl
  exact_of_abs_le := fun _ _ => rfl

/-- Round to nearest, ties to even. -/
def Rounding.nearest (p : ℕ) (hp : 0 < p) : Rounding p where
  toFun := roundInt p
  mono := by
    intro x y hxy
    have hnat : ∀ m n : ℕ, m ≤ n → roundInt p m ≤ roundInt p n := fun m n hmn => by
      rw [roundInt_natCast, roundInt_natCast]
      exact Int.ofNat_le.mpr (roundNat_mono hp hmn)
    have hnonneg : ∀ n : ℕ, 0 ≤ roundInt p n := fun n => by
      rw [roundInt_natCast]
      exact Int.natCast_nonneg _
    obtain ⟨m, rfl | rfl⟩ := x.eq_nat_or_neg <;> obtain ⟨n, rfl | rfl⟩ := y.eq_nat_or_neg
    · exact hnat m n (by omega)
    · have hm : m = 0 := by omega
      have hn : n = 0 := by omega
      subst hm hn
      rfl
    · rw [roundInt_neg hp]
      linarith [hnonneg m, hnonneg n]
    · rw [roundInt_neg hp, roundInt_neg hp]
      linarith [hnat n m (by omega)]
  idem := by
    intro x
    obtain ⟨n, rfl | rfl⟩ := x.eq_nat_or_neg
    · rw [roundInt_natCast, roundInt_natCast, roundNat_idem hp]
    · rw [roundInt_neg hp, roundInt_natCast, roundInt_neg hp, roundInt_natCast, roundNat_idem hp]
  odd := roundInt_neg hp
  exact_of_abs_le := by
    intro x hx
    obtain ⟨n, hn⟩ := x.eq_nat_or_neg
    have hle : n ≤ 2 ^ p := by
      have habs : |x| = n := by rcases hn with rfl | rfl <;> simp
      exact_mod_cast habs ▸ hx
    rcases hn with rfl | rfl
    · rw [roundInt_natCast, roundNat_of_le hp hle]
    · rw [roundInt_neg hp, roundInt_natCast, roundNat_of_le hp hle]

namespace Rounding

variable {p : ℕ} (fl : Rounding p)

@[simp] theorem exact_apply (x : ℤ) : Rounding.exact p x = x := rfl

/-- Zero is representable. -/
@[simp] theorem map_zero : fl 0 = 0 := fl.exact_of_abs_le 0 (by positivity)

/-- Rounding keeps nonnegative amounts nonnegative. -/
theorem nonneg {x : ℤ} (hx : 0 ≤ x) : 0 ≤ fl x := by
  simpa only [fl.map_zero] using fl.mono hx

/-- Comparing a small amount with a rounded one is comparing it with the amount itself:
rounding moves nothing across a bound that is representable. -/
theorem lt_map_iff {x y : ℤ} (hx : |x| < 2 ^ p) : x < fl y ↔ x < y := by
  have hlow := (abs_lt.mp hx).1
  have hhigh := (abs_lt.mp hx).2
  have hbound : |(2 : ℤ) ^ p| ≤ 2 ^ p := (abs_of_nonneg (by positivity)).le
  rcases le_total y (-2 ^ p) with hbelow | habove
  · have hrounded : fl y ≤ -2 ^ p := by
      calc fl y ≤ fl (-2 ^ p) := fl.mono hbelow
        _ = -2 ^ p := by rw [fl.odd, fl.exact_of_abs_le _ hbound]
    omega
  · rcases le_total y (2 ^ p) with hle | hge
    · rw [fl.exact_of_abs_le y (abs_le.mpr ⟨habove, hle⟩)]
    · have hrounded : 2 ^ p ≤ fl y := by
        calc (2 : ℤ) ^ p = fl (2 ^ p) := (fl.exact_of_abs_le _ hbound).symm
          _ ≤ fl y := fl.mono hge
      omega

/-- Subtracting no more than the balance leaves a nonnegative amount. -/
theorem sub_nonneg {x y : ℤ} (hxy : y ≤ x) : 0 ≤ fl (x - y) := fl.nonneg (by linarith)

/-- Taking a rounded amount out of a nonnegative balance and putting it back leaves a
nonnegative balance, whatever its sign. -/
theorem sub_add_nonneg {x y : ℤ} (hx : 0 ≤ x) (hxy : fl y ≤ x) : 0 ≤ fl (fl (x - fl y) + fl y) := by
  apply fl.nonneg
  rcases le_total 0 (fl y) with hpos | hneg
  · linarith [fl.sub_nonneg hxy]
  · have hmono : fl (-fl y) ≤ fl (x - fl y) := fl.mono (by linarith)
    rw [fl.odd, fl.idem] at hmono
    linarith

/-- Adding a nonnegative amount to a representable one never lowers it. -/
theorem le_add_of_nonneg {x y : ℤ} (hx : fl x = x) (hy : 0 ≤ y) : x ≤ fl (x + y) := by
  calc x = fl x := hx.symm
    _ ≤ fl (x + y) := fl.mono (by linarith)

end Rounding

end RoundBits
