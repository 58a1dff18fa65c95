import Mathlib.Algebra.Order.BigOperators.Group.List
import Mathlib.Algebra.Order.Ring.Int
import Mathlib.Algebra.Order.Ring.Nat
import Mathlib.Tactic.Common

/-!
# Ceiling of a quotient of doubles

`math.ceil(a / b)` on two integers divides first: the quotient is the double nearest to it, ties
to even, and only then is it rounded up. With a quotient of more than 53 significant bits the
result may differ from the exact ceiling; from `2 ^ 1024` on the division raises.
-/

namespace SpoolCache.Base

/-- The integer nearest to `a / b`, ties to even. -/
def roundDiv (a b : Nat) : Nat :=
  if 2 * (a % b) < b ∨ (2 * (a % b) = b ∧ a / b % 2 = 0) then a / b else a / b + 1

/-- The exponent `e` with `2 ^ e ≤ a / b < 2 ^ (e + 1)`. -/
def quotientExponent (a b : Nat) : Int :=
  if b * 2 ^ a.log2 ≤ a * 2 ^ b.log2 then (a.log2 : Int) - b.log2 else (a.log2 : Int) - b.log2 - 1

/-- `math.ceil(a / b)`; `none` when the quotient overflows. -/
def ceilTrueDiv (a b : Nat) : Option Nat :=
  if a = 0 then some 0
  else
    -- 53 significant bits, fewer for subnormal quotients
    match min (52 - quotientExponent a b) 1074 with
    | .ofNat s => some ((roundDiv (a * 2 ^ s) b + 2 ^ s - 1) / 2 ^ s)
    | .negSucc s =>
      let rounded := roundDiv a (b * 2 ^ (s + 1)) * 2 ^ (s + 1)
      if rounded < 2 ^ 1024 then some rounded else none

example : ceilTrueDiv 128 16 = some 8 ∧ ceilTrueDiv 129 16 = some 9 := by decide +kernel

example : ceilTrueDiv (2 ^ 60 + 1) 2 = some (2 ^ 59) := by decide +kernel

/-! ### Exact ceilings -/

/-- Rounding a scaled quotient keeps it between the same integers, when the scale resolves one
divisor. -/
theorem roundDiv_bounds {a b q scale : Nat} (hb : 0 < b) (hlow : (q - 1) * b < a)
    (hhigh : a ≤ q * b) (hscale : b < 2 * scale) :
    (q - 1) * scale < roundDiv (a * scale) b ∧ roundDiv (a * scale) b ≤ q * scale := by
  have hdiv := Nat.div_add_mod (a * scale) b
  have hmod := Nat.mod_lt (a * scale) hb
  have hupper : a * scale ≤ q * scale * b := by
    calc a * scale ≤ q * b * scale := Nat.mul_le_mul_right _ hhigh
      _ = q * scale * b := by rw [Nat.mul_right_comm]
  have hlower : (q - 1) * scale * b + scale ≤ a * scale := by
    calc (q - 1) * scale * b + scale = ((q - 1) * b + 1) * scale := by
          rw [Nat.add_mul, Nat.one_mul, Nat.mul_right_comm]
      _ ≤ a * scale := Nat.mul_le_mul_right _ hlow
  generalize hy : a * scale = y at *
  have hge : (q - 1) * scale ≤ y / b := by
    rw [Nat.le_div_iff_mul_le hb]
    omega
  have hle : y / b ≤ q * scale := by
    rw [← Nat.lt_add_one_iff, Nat.div_lt_iff_lt_mul hb, Nat.add_mul]
    omega
  unfold roundDiv
  constructor
  · by_cases heq : y / b = (q - 1) * scale
    · have hrest : scale ≤ y % b := by
        rw [heq, Nat.mul_comm b] at hdiv
        omega
      rw [if_neg (by omega)]
      omega
    · split <;> omega
  · by_cases heq : y / b = q * scale
    · have hrest : y % b = 0 := by
        rw [heq, Nat.mul_comm b] at hdiv
        omega
      rw [if_pos (.inl (by omega))]
      exact hle
    · split <;> omega

private theorem ceil_of_bounds {r q scale : Nat} (hq : 0 < q) (hscale : 0 < scale)
    (hlow : (q - 1) * scale < r) (hhigh : r ≤ q * scale) : (r + scale - 1) / scale = q := by
  have hsplit : q * scale = (q - 1) * scale + scale := by
    rw [← Nat.succ_mul]
    congr 1
    omega
  apply Nat.div_eq_of_lt_le
  · omega
  · rw [Nat.succ_mul]
    omega

/-- The scale of a quotient of at most 53 bits resolves the divisor, unless it underflows. -/
theorem exists_scale {a b limit : Nat} (hne : a ≠ 0) (ha : a < 2 ^ 53) (hmax : b.log2 ≤ limit) :
    ∃ s : Nat, min (52 - quotientExponent a b) limit = .ofNat s ∧ b < 2 * 2 ^ s := by
  have hlog : a.log2 ≤ 52 := by
    rw [← Nat.lt_succ_iff]
    exact (Nat.log2_lt hne).mpr ha
  have hblog : b < 2 ^ (b.log2 + 1) := Nat.lt_log2_self
  obtain ⟨k, hk, hkle⟩ : ∃ k : Nat, 52 - quotientExponent a b = .ofNat k ∧ b.log2 ≤ k := by
    unfold quotientExponent
    split
    · exact ⟨52 - a.log2 + b.log2, by rw [Int.ofNat_eq_natCast]; omega, by omega⟩
    · exact ⟨52 - a.log2 + b.log2 + 1, by rw [Int.ofNat_eq_natCast]; omega, by omega⟩
  refine ⟨min k limit, ?_, ?_⟩
  · rw [hk, Int.ofNat_eq_natCast, Int.ofNat_eq_natCast]
    omega
  · rw [← Nat.pow_succ']
    exact Nat.lt_of_lt_of_le hblog (Nat.pow_le_pow_right (by omega) (by omega))

/-- Below `2 ^ 53` the ceiling is exact, as long as the quotient does not underflow. -/
theorem ceilTrueDiv_eq {a b : Nat} (ha : a < 2 ^ 53) (hb : 0 < b) (hmax : b.log2 ≤ 1074) :
    ceilTrueDiv a b = some ((a + b - 1) / b) := by
  unfold ceilTrueDiv
  split
  · next hzero =>
    subst hzero
    rw [Nat.div_eq_of_lt (by omega)]
  · next hne =>
    obtain ⟨s, hs, hscale⟩ := exists_scale hne ha hmax
    have hs : min (52 - quotientExponent a b) 1074 = .ofNat s := hs
    rw [hs]
    have hq : 0 < (a + b - 1) / b := Nat.div_pos (by omega) hb
    have hdiv := Nat.div_add_mod (a + b - 1) b
    have hmod := Nat.mod_lt (a + b - 1) hb
    generalize (a + b - 1) / b = q at *
    have hprod : b * q = (q - 1) * b + b := by
      rw [Nat.mul_comm, ← Nat.succ_mul]
      congr 1
      omega
    have hlow : (q - 1) * b < a := by omega
    have hhigh : a ≤ q * b := by
      rw [Nat.mul_comm]
      omega
    obtain ⟨hlow, hhigh⟩ := roundDiv_bounds hb hlow hhigh hscale
    exact congrArg some (ceil_of_bounds hq (Nat.two_pow_pos s) hlow hhigh)

end SpoolCache.Base
