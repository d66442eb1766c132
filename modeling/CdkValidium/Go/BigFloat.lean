import CdkValidium.Lib.FloatingPoint
import Mathlib.Data.Nat.Size

/-!
# `math/big.Float`

A `*big.Float` is a precision in bits and a value: a rational or an infinity.
Every operation rounds its exact result to the precision of its receiver, to
nearest with ties to even (the mode of a new `Float`); a receiver of precision
`0` first takes the precision the operation gives it.  The exponent range of
`big.Float` (`|exp| < 2 ^ 31`) is not modelled.

* `setFloat64`, `setInt`, `mul`: `z.SetFloat64(x)`, `z.SetInt(x)`,
  `z.Mul(x, y)`, with the panics with `ErrNaN` of the first and the last.
* `int`: `x.Int(z)`, truncation towards zero, `nil` for an infinity.
* `bigUint64`: `x.Uint64()` of a `*big.Int`, the low 64 bits of `|x|`.

A step lemma for each operation gives its result on finite values.
-/

namespace Go

open FloatingPoint

/-- `big.ErrNaN`, the value a `big.Float` operation panics with when its
result would be NaN. -/
structure ErrNaN where
  msg : String
  deriving DecidableEq, Repr

/-- The value of a `*big.Float`: a rational or an infinity; the sign of a zero
is not kept. -/
inductive FloatForm
  | finite (x : ℚ)
  | inf (neg : Bool)

/-- A `*big.Float`: its precision in bits and its value. -/
structure BigFloat where
  prec : Nat
  form : FloatForm

/-- `new(big.Float)`: zero, of precision `0`. -/
def BigFloat.new : BigFloat := ⟨0, .finite 0⟩

/-- `z.SetFloat64(x)`: a receiver of precision `0` takes `53`; a NaN panics. -/
def BigFloat.setFloat64 (z : BigFloat) (x : Binary64) : Except ErrNaN BigFloat :=
  let prec := if z.prec = 0 then 53 else z.prec
  match x.value with
  | .nan => .error ⟨"Float.SetFloat64(NaN)"⟩
  | .inf neg => .ok ⟨prec, .inf neg⟩
  | .finite q => .ok ⟨prec, .finite (roundSig prec q)⟩

/-- `big.NewFloat(x)`: `new(Float).SetFloat64(x)`. -/
def newFloat (x : Binary64) : Except ErrNaN BigFloat :=
  BigFloat.new.setFloat64 x

/-- `z.SetInt(x)`: a receiver of precision `0` takes `x.BitLen()` or `64`,
the larger. -/
def BigFloat.setInt (z : BigFloat) (x : Int) : BigFloat :=
  let prec := if z.prec = 0 then max (Nat.size x.natAbs) 64 else z.prec
  ⟨prec, .finite (roundSig prec x)⟩

/-- `z.Mul(x, y)`: a receiver of precision `0` takes the larger precision of
`x` and `y`; zero times an infinity panics. -/
def BigFloat.mul (z x y : BigFloat) : Except ErrNaN BigFloat :=
  let prec := if z.prec = 0 then max x.prec y.prec else z.prec
  match x.form, y.form with
  | .finite a, .finite b => .ok ⟨prec, .finite (roundSig prec (a * b))⟩
  | .inf s, .inf t => .ok ⟨prec, .inf (s != t)⟩
  | .inf s, .finite b =>
    if b = 0 then .error ⟨"multiplication of zero with infinity"⟩ else .ok ⟨prec, .inf (s != decide (b < 0))⟩
  | .finite a, .inf t =>
    if a = 0 then .error ⟨"multiplication of zero with infinity"⟩ else .ok ⟨prec, .inf (decide (a < 0) != t)⟩

/-- `x.Int(z)`: `x` truncated towards zero, `nil` for an infinity. -/
def BigFloat.int (x : BigFloat) : Option Int :=
  match x.form with
  | .finite q => some (truncate q)
  | .inf _ => none

/-- `x.Uint64()` of a `*big.Int`: the low 64 bits of `|x|`. -/
def bigUint64 (x : Int) : UInt64 :=
  UInt64.ofNat x.natAbs

/-! ### Step lemmas -/

theorem newFloat_zero : newFloat ⟨0⟩ = .ok ⟨53, .finite 0⟩ := by
  simp [newFloat, BigFloat.setFloat64, BigFloat.new, Binary64.value]

theorem setFloat64_of_finite {z : BigFloat} (hz : z.prec ≠ 0) {x : Binary64} {q : ℚ} (hx : x.value = .finite q) :
    z.setFloat64 x = .ok ⟨z.prec, .finite (roundSig z.prec q)⟩ := by
  rw [BigFloat.setFloat64, if_neg hz, hx]

theorem setInt_of_prec {z : BigFloat} (hz : z.prec ≠ 0) (x : Int) :
    z.setInt x = ⟨z.prec, .finite (roundSig z.prec x)⟩ := by
  rw [BigFloat.setInt, if_neg hz]

theorem new_mul_finite {p : Nat} {a b : ℚ} :
    BigFloat.new.mul ⟨p, .finite a⟩ ⟨p, .finite b⟩ = .ok ⟨p, .finite (roundSig p (a * b))⟩ := by
  simp [BigFloat.mul, BigFloat.new]

end Go
