import CdkValidium.Go.BigFloat
import CdkValidium.Go.Text

/-!
# The follower gas price suggester

`FollowerGasPrice.UpdateGasPriceAvg` reads the L1 gas price, multiplies it by
the configured `Factor` in `big.Float`, truncates the product to an integer,
clamps it to `DefaultGasPriceWei` from below and to `MaxGasPriceWei` from
above (when that is not `0`), and keeps the three leading decimal digits of
the result, zeroing the others by building the text `digits[:3] + "0…0"` and
reading it back with `SetString`.  The result goes to the pool with
`SetGasPrices`.

* `applyFactor`: the `big.Float` product, truncated; `0` when it is infinite.
  For a finite factor it is the product of the two values rounded to 53 bits,
  rounded to 53 bits (`applyFactor_of_finite`), exact on small integers
  (`applyFactor_intCast`).
* `clampGasPrice`: the two bounds, in the order of the source.
* `truncateGasPrice`: the text truncation to three significant digits.
* `updateGasPriceAvg`: the call, with the two prices passed to `SetGasPrices`.

The text truncation is `keepThreeDigits` (`truncateGasPrice_natCast`), and
`updateGasPriceAvg_spec` reads the whole update that way.  The truncation runs
after the clamp, so a minimum with a non-zero digit after its third is
undercut (`updateGasPriceAvg_below_default`); the maximum is kept
(`updateGasPriceAvg_le_max`).
-/

namespace CdkValidium.Gasprice

open FloatingPoint Go

/-- The fields of the gas price `Config` the follower reads; `Factor` is a
`float64`. -/
structure Config where
  defaultGasPriceWei : UInt64
  maxGasPriceWei : UInt64
  factor : Binary64

/-- The `big.Float` part of `UpdateGasPriceAvg`:
`new(big.Float).Mul(big.NewFloat(0).SetFloat64(Factor), big.NewFloat(0).SetInt(l1GasPrice))`
truncated by `res.Int(result)`; `result` stays the `0` of `new(big.Int)` when
the product is infinite. -/
def applyFactor (factor : Binary64) (l1GasPrice : Int) : Except Go.ErrNaN Int := do
  let factorZero ← Go.newFloat ⟨0⟩
  let factor ← factorZero.setFloat64 factor
  let l1Zero ← Go.newFloat ⟨0⟩
  let res ← Go.BigFloat.new.mul factor (l1Zero.setInt l1GasPrice)
  return res.int.getD 0

/-- The bounds of `UpdateGasPriceAvg`: `DefaultGasPriceWei` when it is larger,
then `MaxGasPriceWei` when that is not `0` and smaller. -/
def clampGasPrice (cfg : Config) (result : Int) : Int :=
  let minGasPrice : Int := cfg.defaultGasPriceWei.toNat
  let result := if minGasPrice > result then minGasPrice else result
  let maxGasPrice : Int := cfg.maxGasPriceWei.toNat
  if cfg.maxGasPriceWei > 0 ∧ result > maxGasPrice then maxGasPrice else result

/-- The truncation of `UpdateGasPriceAvg`: with more than three characters,
`result.String()[:3] + fmt.Sprintf("%0<numLength-3>d", 0)` read back by
`SetString(·, 10)`, whose `ok` may be false (`none`); the result as it is
otherwise. -/
def truncateGasPrice (result : Int) : Option Int :=
  let numLength := (Go.bigText result 10).length
  if numLength > 3 then
    let value := (Go.bigText result 10).take 3 ++ Go.padZero (numLength - 3) (Nat.toDigits 10 0)
    Go.setString value 10
  else some result

/-- `FollowerGasPrice.UpdateGasPriceAvg` for the L1 gas price the etherman
returns: the L2 and L1 gas prices given to `SetGasPrices`, `none` when the
update is skipped (an L1 gas price of `0`, or a nil truncated value), and the
panic of a NaN factor. -/
def updateGasPriceAvg (cfg : Config) (l1GasPrice : Int) : Except Go.ErrNaN (Option (UInt64 × UInt64)) := do
  if l1GasPrice = 0 then return none
  let result ← applyFactor cfg.factor l1GasPrice
  let result := clampGasPrice cfg result
  match truncateGasPrice result with
  | none => return none
  | some truncateValue => return some (Go.bigUint64 truncateValue, Go.bigUint64 l1GasPrice)

/-! ### The product -/

theorem applyFactor_of_finite {factor : Binary64} {f : ℚ} (hf : factor.value = .finite f) (l1GasPrice : Int) :
    applyFactor factor l1GasPrice = .ok (truncate (roundSig 53 (roundSig 53 f * roundSig 53 l1GasPrice))) := by
  have hprec : (⟨53, .finite 0⟩ : BigFloat).prec ≠ 0 := by decide
  simp only [applyFactor, newFloat_zero, bind, Except.bind, setFloat64_of_finite hprec hf, setInt_of_prec hprec,
    new_mul_finite, pure, Except.pure]
  rfl

theorem applyFactor_intCast {factor : Binary64} {k : Int} (hf : factor.value = .finite k) {l1GasPrice : Int}
    (hk : |k| < 2 ^ 53) (hl1 : |l1GasPrice| < 2 ^ 53) (hkl : |k * l1GasPrice| < 2 ^ 53) :
    applyFactor factor l1GasPrice = .ok (k * l1GasPrice) := by
  rw [applyFactor_of_finite hf, roundSig_intCast hk, roundSig_intCast hl1, ← Int.cast_mul, roundSig_intCast hkl,
    truncate_intCast]

/-! ### Three significant digits -/

/-- `c` with every decimal digit after the three most significant ones zeroed. -/
def keepThreeDigits (c : Nat) : Nat :=
  c / 10 ^ ((Nat.toDigits 10 c).length - 3) * 10 ^ ((Nat.toDigits 10 c).length - 3)

theorem keepThreeDigits_le (c : Nat) : keepThreeDigits c ≤ c :=
  Nat.div_mul_le_self c _

theorem bigText_natCast (c : Nat) : Go.bigText (c : Int) 10 = Nat.toDigits 10 c := by
  simp [Go.bigText]

theorem padZero_toDigits_zero {k : Nat} (hk : 0 < k) : Go.padZero k (Nat.toDigits 10 0) = List.replicate k '0' := by
  have hzero : Nat.toDigits 10 0 = ['0'] := by decide
  rw [Go.padZero, hzero, List.length_singleton, ← List.replicate_succ']
  congr 1
  omega

theorem truncateGasPrice_natCast (c : Nat) : truncateGasPrice c = some ((keepThreeDigits c : Nat) : Int) := by
  rw [truncateGasPrice, bigText_natCast]
  dsimp only
  split_ifs with hlen
  · have h := @Go.setString_take_toDigits c ((Nat.toDigits 10 c).length - 3) (by omega)
    rw [show (Nat.toDigits 10 c).length - ((Nat.toDigits 10 c).length - 3) = 3 by omega] at h
    rw [padZero_toDigits_zero (by omega), h, keepThreeDigits]
  · rw [keepThreeDigits, show (Nat.toDigits 10 c).length - 3 = 0 by omega]
    simp

/-! ### Bounds -/

section Clamp

variable (cfg : Config) (result : Int)

theorem clampGasPrice_nonneg : 0 ≤ clampGasPrice cfg result := by
  unfold clampGasPrice
  dsimp only
  split_ifs <;> omega

theorem clampGasPrice_le_max (hmax : cfg.maxGasPriceWei ≠ 0) :
    clampGasPrice cfg result ≤ cfg.maxGasPriceWei.toNat := by
  have hpos : cfg.maxGasPriceWei > 0 := by
    rw [gt_iff_lt, UInt64.lt_iff_toNat_lt]
    have := UInt64.toNat_inj.not.mpr hmax
    simp only [UInt64.toNat_zero] at this ⊢
    omega
  unfold clampGasPrice
  dsimp only
  split_ifs with h1 h2 h3 <;> simp_all

theorem clampGasPrice_of_le_default (hlow : result ≤ cfg.defaultGasPriceWei.toNat)
    (hcap : cfg.maxGasPriceWei = 0 ∨ cfg.defaultGasPriceWei ≤ cfg.maxGasPriceWei) :
    clampGasPrice cfg result = cfg.defaultGasPriceWei.toNat := by
  have hmax : ¬ (cfg.maxGasPriceWei > 0 ∧ (cfg.defaultGasPriceWei.toNat : Int) > cfg.maxGasPriceWei.toNat) := by
    rintro ⟨hpos, hgt⟩
    rcases hcap with h0 | hle
    · rw [h0] at hpos
      exact absurd hpos (by decide)
    · rw [UInt64.le_iff_toNat_le] at hle
      omega
  unfold clampGasPrice
  dsimp only
  by_cases hmin : (cfg.defaultGasPriceWei.toNat : Int) > result
  · rw [if_pos hmin, if_neg hmax]
  · rw [if_neg hmin, if_neg (by rwa [show result = cfg.defaultGasPriceWei.toNat by omega])]
    omega

end Clamp

/-! ### The update -/

/-- **The update.**  For a non-zero L1 gas price and a factor whose product
is computed, the L2 gas price stored is the clamped product with its digits
after the third zeroed, in 64 bits. -/
theorem updateGasPriceAvg_spec (cfg : Config) {l1GasPrice result : Int} (hl1 : l1GasPrice ≠ 0)
    (happly : applyFactor cfg.factor l1GasPrice = .ok result) :
    updateGasPriceAvg cfg l1GasPrice =
      .ok (some (UInt64.ofNat (keepThreeDigits (clampGasPrice cfg result).toNat), Go.bigUint64 l1GasPrice)) := by
  have hcast : clampGasPrice cfg result = ((clampGasPrice cfg result).toNat : Int) :=
    (Int.toNat_of_nonneg (clampGasPrice_nonneg cfg result)).symm
  rw [updateGasPriceAvg, if_neg hl1]
  simp only [happly, bind, Except.bind, pure, Except.pure]
  rw [hcast, truncateGasPrice_natCast]
  rfl

theorem updateGasPriceAvg_le_max (cfg : Config) {l1GasPrice result : Int} (hl1 : l1GasPrice ≠ 0)
    (happly : applyFactor cfg.factor l1GasPrice = .ok result) (hmax : cfg.maxGasPriceWei ≠ 0) :
    ∃ g l1, updateGasPriceAvg cfg l1GasPrice = .ok (some (g, l1)) ∧ g ≤ cfg.maxGasPriceWei := by
  have hle := clampGasPrice_le_max cfg result hmax
  have hkeep := keepThreeDigits_le (clampGasPrice cfg result).toNat
  have hlt := cfg.maxGasPriceWei.toNat_lt
  refine ⟨_, _, updateGasPriceAvg_spec cfg hl1 happly, ?_⟩
  rw [UInt64.le_iff_toNat_le, UInt64.toNat_ofNat_of_lt' (by rw [UInt64.size]; omega)]
  omega

/-- **The minimum is undercut.**  When the product is at most
`DefaultGasPriceWei` and that minimum has a non-zero digit after its third,
the stored L2 gas price is the minimum with those digits zeroed: below the
minimum. -/
theorem updateGasPriceAvg_below_default (cfg : Config) {l1GasPrice result : Int} (hl1 : 0 < l1GasPrice)
    (happly : applyFactor cfg.factor l1GasPrice = .ok result) (hlow : result ≤ cfg.defaultGasPriceWei.toNat)
    (hcap : cfg.maxGasPriceWei = 0 ∨ cfg.defaultGasPriceWei ≤ cfg.maxGasPriceWei)
    (hcut : keepThreeDigits cfg.defaultGasPriceWei.toNat < cfg.defaultGasPriceWei.toNat) :
    ∃ g, updateGasPriceAvg cfg l1GasPrice = .ok (some (g, Go.bigUint64 l1GasPrice)) ∧
      g < cfg.defaultGasPriceWei := by
  have hlt := cfg.defaultGasPriceWei.toNat_lt
  refine ⟨_, updateGasPriceAvg_spec cfg (by omega) happly, ?_⟩
  rw [clampGasPrice_of_le_default cfg result hlow hcap, Int.toNat_natCast, UInt64.lt_iff_toNat_lt,
    UInt64.toNat_ofNat_of_lt' (by rw [UInt64.size]; omega)]
  exact hcut

theorem updateGasPriceAvg_below_default_1001 :
    let cfg : Config := ⟨1001, 0, ⟨0x3FF0000000000000⟩⟩
    cfg.factor.value = .finite 1 ∧ applyFactor cfg.factor 1 = .ok 1 ∧
      (∃ g, updateGasPriceAvg cfg 1 = .ok (some (g, Go.bigUint64 1)) ∧ g < cfg.defaultGasPriceWei) ∧
      updateGasPriceAvg cfg 1 = .ok (some (1000, 1)) := by
  intro cfg
  have hbits : cfg.factor.bits.toNat = 4607182418800017408 := rfl
  have hone : cfg.factor.value = .finite ((1 : Int) : ℚ) := by
    rw [Binary64.value, hbits]
    norm_num
  have happly : applyFactor cfg.factor 1 = .ok 1 := by
    rw [applyFactor_intCast hone (by norm_num) (by norm_num) (by norm_num), mul_one]
  refine ⟨by simpa using hone, happly,
    updateGasPriceAvg_below_default cfg (by norm_num) happly (by decide) (Or.inl rfl) (by decide), ?_⟩
  rw [updateGasPriceAvg_spec cfg (by norm_num) happly, clampGasPrice_of_le_default cfg 1 (by decide) (Or.inl rfl),
    Int.toNat_natCast]
  simp only [Except.ok.injEq, Option.some.injEq, Prod.mk.injEq]
  exact ⟨by decide, rfl⟩

end CdkValidium.Gasprice
