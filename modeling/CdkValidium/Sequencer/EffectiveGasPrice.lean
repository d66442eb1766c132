import CdkValidium.State.Helper

/-!
# The effective gas price percentage

From fork 5 on, the sequencer sends the executor each transaction followed by
one byte, the percentage of its gas price that it is charged: `p` stands for
the price `GasPrice * (p + 1) / 256`.  `CalculateEffectiveGasPricePercentage`
picks the least `p` whose price covers the break-even gas price
(`calculateEffectiveGasPricePercentage_spec`), or `255` when the gas price does
not exceed it; the byte never overflows.

`processTransaction` then prints the percentage with `%x` and decodes the text
with `hex.DecodeHex`.  A percentage below 16 prints as one hex digit, which the
decoder rejects, so a transaction whose gas price is at least 16 times its
break-even price is never handed to the executor
(`processTransaction_low_percentage`).
-/

namespace CdkValidium.Sequencer

open State

/-- `state.MaxEffectivePercentage`. -/
def maxEffectivePercentage : UInt8 := 255

def errBreakEvenGasPriceEmpty : String := "breakEven and gasPrice cannot be nil or zero"

/-- `CalculateEffectiveGasPricePercentage`: `255` when the gas price does not
exceed the break-even price, else `⌈256 * breakEven / gasPrice⌉ - 1`, through
`uint8(b.Uint64())`.  A `nil` price is `none`. -/
def calculateEffectiveGasPricePercentage (gasPrice breakEven : Option Nat) : Except String UInt8 :=
  match gasPrice, breakEven with
  | some gasPrice, some breakEven =>
    if gasPrice = 0 ∨ breakEven = 0 then .error errBreakEvenGasPriceEmpty
    else if gasPrice ≤ breakEven then .ok maxEffectivePercentage
    else
      -- the ceiling as an integer division, then minus one
      let b := (breakEven * 256 + gasPrice - 1) / gasPrice - 1
      .ok (UInt64.ofNat b).toUInt8
  | _, _ => .error errBreakEvenGasPriceEmpty

/-- The fields of a `TxTracker` that `processTransaction` reads to build the
batch data of the request. -/
structure EgpTracker where
  rawTx : List UInt8
  gasPrice : Nat
  breakEvenGasPrice : Option Nat

/-- Why `processTransaction` returns before calling the executor. -/
inductive ProcessTransactionError
  | effectivePercentage (e : String)
  | hex (e : Go.HexError)
  deriving DecidableEq

/-- The effective percentage `processTransaction` computes: `255` unless the
break-even price is set with non-zero low 64 bits (`Uint64() != 0`) and the
gas price exceeds it, and `255` whenever the effective gas price is
disabled. -/
def effectivePercentage (enabled : Bool) (tx : EgpTracker) : Except String UInt8 := do
  let effectivePercentage ← (match tx.breakEvenGasPrice with
    | some breakEven =>
      if breakEven % 2 ^ 64 ≠ 0 then
        if tx.gasPrice ≤ breakEven then pure maxEffectivePercentage
        else calculateEffectiveGasPricePercentage (some tx.gasPrice) (some breakEven)
      else pure maxEffectivePercentage
    | none => pure maxEffectivePercentage : Except String UInt8)
  pure (if enabled then effectivePercentage else maxEffectivePercentage)

/-- The batch data `processTransaction` puts in the request for a transaction:
its `RawTx` and, from fork 5 on, the percentage printed with `%x` and decoded
with `hex.DecodeHex`. -/
def processTransactionData (enabled : Bool) (forkID : UInt64) (tx : EgpTracker) :
    Except ProcessTransactionError (List UInt8) := do
  let effectivePercentage ← (effectivePercentage enabled tx).mapError .effectivePercentage
  let effectivePercentageAsDecodedHex ←
    (Go.decodeHex (Go.sprintfX effectivePercentage.toNat)).mapError .hex
  pure (if forkID5 ≤ forkID then tx.rawTx ++ effectivePercentageAsDecodedHex else tx.rawTx)

/-! ### The percentage -/

/-- What the percentage is meant to be: the least `p ≤ 255` whose price
`gasPrice * (p + 1) / 256` covers the break-even price. -/
structure IsLeastPercentage (gasPrice breakEven p : Nat) : Prop where
  le : p ≤ 255
  covers : 256 * breakEven ≤ (p + 1) * gasPrice
  least : ∀ q < p, (q + 1) * gasPrice < 256 * breakEven

theorem isLeastPercentage_ceil {gasPrice breakEven : Nat} (hb : 0 < breakEven)
    (hlt : breakEven < gasPrice) :
    IsLeastPercentage gasPrice breakEven ((breakEven * 256 + gasPrice - 1) / gasPrice - 1) := by
  have hg : 0 < gasPrice := by omega
  -- `c` is the ceiling of `256 * breakEven / gasPrice`: `c * gasPrice` lies within
  -- `gasPrice - 1` below `256 * breakEven + gasPrice - 1`
  obtain ⟨c, hc⟩ : ∃ c, c = (breakEven * 256 + gasPrice - 1) / gasPrice := ⟨_, rfl⟩
  rw [← hc]
  have hdiv := Nat.div_add_mod (breakEven * 256 + gasPrice - 1) gasPrice
  have hmod := Nat.mod_lt (breakEven * 256 + gasPrice - 1) hg
  rw [← hc, Nat.mul_comm] at hdiv
  have hc1 : 1 ≤ c := by
    rcases Nat.eq_zero_or_pos c with h0 | h0
    · rw [h0, Nat.zero_mul] at hdiv
      omega
    · exact h0
  have hc256 : c ≤ 256 := by
    by_contra h
    have h' : 257 * gasPrice ≤ c * gasPrice := Nat.mul_le_mul_right _ (by omega)
    omega
  have hpred : (c - 1) * gasPrice + gasPrice = c * gasPrice := by
    rw [← Nat.succ_mul, Nat.succ_eq_add_one, Nat.sub_add_cancel hc1]
  refine ⟨by omega, ?_, fun q hq => ?_⟩
  · rw [Nat.sub_add_cancel hc1]
    omega
  · have hq' : (q + 1) * gasPrice ≤ (c - 1) * gasPrice := Nat.mul_le_mul_right _ (by omega)
    omega

theorem calculateEffectiveGasPricePercentage_of_le {gasPrice breakEven : Nat} (hg : 0 < gasPrice)
    (hle : gasPrice ≤ breakEven) :
    calculateEffectiveGasPricePercentage (some gasPrice) (some breakEven) = .ok maxEffectivePercentage := by
  rw [calculateEffectiveGasPricePercentage, if_neg (by omega), if_pos hle]

/-- **The percentage is the least one that covers the break-even price**, and
the conversion to a byte keeps it. -/
theorem calculateEffectiveGasPricePercentage_spec {gasPrice breakEven : Nat} (hb : 0 < breakEven)
    (hlt : breakEven < gasPrice) :
    ∃ p : UInt8, calculateEffectiveGasPricePercentage (some gasPrice) (some breakEven) = .ok p ∧
      p.toNat = (breakEven * 256 + gasPrice - 1) / gasPrice - 1 ∧
      IsLeastPercentage gasPrice breakEven p.toNat := by
  have hl := isLeastPercentage_ceil hb hlt
  refine ⟨_, by rw [calculateEffectiveGasPricePercentage, if_neg (by omega), if_neg (by omega)], ?_⟩
  have hp : (UInt64.ofNat ((breakEven * 256 + gasPrice - 1) / gasPrice - 1)).toUInt8.toNat =
      (breakEven * 256 + gasPrice - 1) / gasPrice - 1 := by
    simp only [UInt64.toNat_toUInt8, UInt64.toNat_ofNat']
    have h := hl.le
    omega
  refine ⟨hp, ?_⟩
  rw [hp]
  exact hl

/-! ### The batch data -/

theorem effectivePercentage_of_lt {tx : EgpTracker} {breakEven : Nat}
    (hbe : tx.breakEvenGasPrice = some breakEven) (hlow : breakEven % 2 ^ 64 ≠ 0)
    (hlt : breakEven < tx.gasPrice) :
    effectivePercentage true tx =
      calculateEffectiveGasPricePercentage (some tx.gasPrice) (some breakEven) := by
  simp only [effectivePercentage, hbe, if_pos hlow, if_neg (Nat.not_le.mpr hlt)]
  cases calculateEffectiveGasPricePercentage (some tx.gasPrice) (some breakEven) <;> rfl

theorem effectivePercentage_of_le {tx : EgpTracker} {breakEven : Nat}
    (hbe : tx.breakEvenGasPrice = some breakEven) (hle : tx.gasPrice ≤ breakEven) (enabled : Bool) :
    effectivePercentage enabled tx = .ok maxEffectivePercentage := by
  simp only [effectivePercentage, hbe, hle, if_true]
  split <;> cases enabled <;> rfl

theorem effectivePercentage_of_mod_eq_zero {tx : EgpTracker} {breakEven : Nat}
    (hbe : tx.breakEvenGasPrice = some breakEven) (hlow : breakEven % 2 ^ 64 = 0) (enabled : Bool) :
    effectivePercentage enabled tx = .ok maxEffectivePercentage := by
  simp only [effectivePercentage, hbe, hlow, ne_eq, not_true_eq_false, if_false]
  cases enabled <;> rfl

theorem processTransactionData_of_ge {enabled : Bool} {forkID : UInt64} {tx : EgpTracker} {p : UInt8}
    (hp : effectivePercentage enabled tx = .ok p) (h16 : 16 ≤ p.toNat) (hfork : forkID5 ≤ forkID) :
    processTransactionData enabled forkID tx = .ok (tx.rawTx ++ [p]) := by
  simp only [processTransactionData, hp, Except.mapError, Go.decodeHex_sprintfX_of_ge h16 p.toNat_lt,
    UInt8.ofNat_toNat, hfork, if_true, bind, Except.bind, pure, Except.pure]

theorem processTransactionData_of_lt {enabled : Bool} {forkID : UInt64} {tx : EgpTracker} {p : UInt8}
    (hp : effectivePercentage enabled tx = .ok p) (h16 : p.toNat < 16) :
    processTransactionData enabled forkID tx = .error (.hex .errLength) := by
  simp only [processTransactionData, hp, Except.mapError, Go.decodeHex_sprintfX_of_lt h16, bind,
    Except.bind]

theorem processTransactionData_of_le {enabled : Bool} {forkID : UInt64} {tx : EgpTracker}
    {breakEven : Nat} (hbe : tx.breakEvenGasPrice = some breakEven) (hle : tx.gasPrice ≤ breakEven)
    (hfork : forkID5 ≤ forkID) :
    processTransactionData enabled forkID tx = .ok (tx.rawTx ++ [maxEffectivePercentage]) :=
  processTransactionData_of_ge (effectivePercentage_of_le hbe hle enabled) (by decide) hfork

theorem processTransactionData_least {tx : EgpTracker} {breakEven : Nat} {forkID : UInt64}
    (hbe : tx.breakEvenGasPrice = some breakEven) (hpos : 0 < breakEven) (hlow : breakEven < 2 ^ 64)
    (hlt : breakEven < tx.gasPrice) (h16 : tx.gasPrice < 16 * breakEven) (hfork : forkID5 ≤ forkID) :
    ∃ p : UInt8, processTransactionData true forkID tx = .ok (tx.rawTx ++ [p]) ∧
      IsLeastPercentage tx.gasPrice breakEven p.toNat := by
  obtain ⟨p, hp, -, hl⟩ := calculateEffectiveGasPricePercentage_spec hpos hlt
  have hp16 : 16 ≤ p.toNat := by
    by_contra h
    have h' : (p.toNat + 1) * tx.gasPrice ≤ 16 * tx.gasPrice := Nat.mul_le_mul_right _ (by omega)
    have hc := hl.covers
    omega
  exact ⟨p, processTransactionData_of_ge ((effectivePercentage_of_lt hbe (by omega) hlt).trans hp) hp16
    hfork, hl⟩

/-- **A gas price of at least 16 times the break-even price stops the
transaction.**  Its percentage is below 16, and `%x` prints it as one hex
digit, so the executor never receives the `RawTx` and its byte. -/
theorem processTransaction_low_percentage {tx : EgpTracker} {breakEven : Nat} {forkID : UInt64}
    (hbe : tx.breakEvenGasPrice = some breakEven) (hpos : 0 < breakEven) (hlow : breakEven < 2 ^ 64)
    (h16 : 16 * breakEven ≤ tx.gasPrice) :
    processTransactionData true forkID tx = .error (.hex .errLength) := by
  obtain ⟨p, hp, -, hl⟩ := calculateEffectiveGasPricePercentage_spec hpos (show breakEven < tx.gasPrice by omega)
  have hp15 : p.toNat < 16 := by
    by_contra h
    have h' := hl.least 15 (by omega)
    omega
  exact processTransactionData_of_lt
    ((effectivePercentage_of_lt hbe (by omega) (by omega)).trans hp) hp15

theorem processTransaction_low_percentage_seventeen :
    processTransactionData true 5 ⟨[0xc0], 17, some 1⟩ = .error (.hex .errLength) :=
  processTransaction_low_percentage rfl (by decide) (by decide) (by decide)

end CdkValidium.Sequencer
