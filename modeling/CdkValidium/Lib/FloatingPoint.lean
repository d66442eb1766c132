import Mathlib.Data.Int.Log
import Mathlib.Data.Rat.Floor

/-!
# Binary floating point over the rationals

Arbitrary-precision binary floating point, as a library: a value is a rational,
and an operation computes the exact result and rounds it.

* `roundEven q`: the integer nearest to `q`, ties to the even one.
* `roundSig p q`: `q` rounded to `p` significant bits, to nearest with ties to
  even; there is no exponent range.
* `truncate q`: `q` truncated towards zero.
* `Binary64`: an IEEE 754 double by its bits, and the `Value` it stands for.

Integers that fit in `p` bits are kept by `roundSig` (`roundSig_intCast`).
-/

namespace FloatingPoint

/-- The integer nearest to `q`, ties to the even one. -/
def roundEven (q : ℚ) : ℤ :=
  let k := ⌊q⌋
  if q - k < 1 / 2 then k
  else if 1 / 2 < q - k then k + 1
  else k + k % 2

/-- `q` rounded to `p` significant bits, to nearest with ties to even: scaled
so that its integer part has `p` bits, rounded, and scaled back. -/
def roundSig (p : ℕ) (q : ℚ) : ℚ :=
  if q = 0 then 0
  else
    let s : ℚ := 2 ^ (Int.log 2 |q| + 1 - p)
    roundEven (q / s) * s

/-- `q` truncated towards zero. -/
def truncate (q : ℚ) : ℤ :=
  if 0 ≤ q then ⌊q⌋ else ⌈q⌉

@[simp] theorem roundEven_intCast (k : ℤ) : roundEven (k : ℚ) = k := by
  simp [roundEven]

@[simp] theorem roundSig_zero (p : ℕ) : roundSig p 0 = 0 := by
  simp [roundSig]

@[simp] theorem truncate_intCast (k : ℤ) : truncate (k : ℚ) = k := by
  unfold truncate
  split_ifs <;> simp

theorem roundSig_intCast {p : ℕ} {n : ℤ} (hn : |n| < 2 ^ p) : roundSig p (n : ℚ) = n := by
  by_cases h0 : n = 0
  · simp [h0]
  have hq : (n : ℚ) ≠ 0 := Int.cast_ne_zero.mpr h0
  have hpos : (0 : ℚ) < |(n : ℚ)| := abs_pos.mpr hq
  have hlow : (2 : ℚ) ^ Int.log 2 |(n : ℚ)| ≤ |(n : ℚ)| := Int.zpow_log_le_self (by norm_num) hpos
  have hhigh : |(n : ℚ)| < (2 : ℚ) ^ (p : ℤ) := by
    rw [zpow_natCast]
    exact_mod_cast hn
  -- the scale `2 ^ (log + 1 - p)` is at most `1`: its inverse is a power of two
  have hlog : Int.log 2 |(n : ℚ)| < p := (zpow_lt_zpow_iff_right₀ (by norm_num)).mp (hlow.trans_lt hhigh)
  obtain ⟨k, hk⟩ : ∃ k : ℕ, Int.log 2 |(n : ℚ)| + 1 - p = -(k : ℤ) := ⟨(p - 1 - Int.log 2 |(n : ℚ)|).toNat, by omega⟩
  have hscale : (n : ℚ) / (2 : ℚ) ^ (-(k : ℤ)) = ((n * 2 ^ k : ℤ) : ℚ) := by
    rw [zpow_neg, zpow_natCast, div_inv_eq_mul]
    push_cast
    ring
  rw [roundSig, if_neg hq]
  dsimp only
  rw [hk, hscale, roundEven_intCast, zpow_neg, zpow_natCast]
  push_cast
  field_simp

/-! ### IEEE 754 binary64 -/

/-- An IEEE 754 binary64 number, by its bits. -/
structure Binary64 where
  bits : UInt64
  deriving DecidableEq, Repr

/-- What a binary64 stands for: a rational, an infinity with its sign, or NaN.
The sign of a zero is not kept. -/
inductive Value
  | finite (q : ℚ)
  | inf (neg : Bool)
  | nan
  deriving DecidableEq

/-- The value of a binary64: sign bit, 11 exponent bits biased by `1023`, and
52 fraction bits, with subnormals at exponent `0` and infinities and NaNs at
the largest exponent. -/
def Binary64.value (x : Binary64) : Value :=
  let neg := decide (x.bits.toNat / 2 ^ 63 = 1)
  let e : ℕ := x.bits.toNat / 2 ^ 52 % 2 ^ 11
  let m : ℕ := x.bits.toNat % 2 ^ 52
  let sign : ℚ := if neg then -1 else 1
  if e = 2 ^ 11 - 1 then (if m = 0 then .inf neg else .nan)
  else if e = 0 then .finite (sign * (m : ℚ) * 2 ^ (-1074 : ℤ))
  else .finite (sign * (2 ^ 52 + (m : ℚ)) * 2 ^ ((e : ℤ) - 1075))

end FloatingPoint
