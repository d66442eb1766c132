import Mathlib

/-!
# Gas estimation by bisection

`State.EstimateGas` (`state/transaction.go`) finds the gas a transaction
needs.  The low end starts at the intrinsic gas; the high end is the
transaction's gas limit, or `MaxCumulativeGasUsed`, capped by what the
sender's balance pays for at the transaction's gas price.  After a run at the
high end succeeds, the low end is raised to the gas it used, and the search
halves the interval until it is at most 4096 wide, keeping the high end at a
gas limit that succeeded.

The midpoint is `(lowEnd + highEnd) / 2` in `uint64`, which would wrap if the
two ends added up to `2^64`.  The one caller, `eth_estimateGas`, builds the
transaction with `ToTransaction`, which caps its gas limit at
`MaxCumulativeGasUsed` (`toTransactionGas`), so the high end stays there and
the midpoint in range.  The search then keeps the answer within 4096 of the
needed gas after at most `⌈log₂ (highEnd - lowEnd)⌉ + 1` probes
(`searchGas_spec`, `estimateGas_of_toTransaction`).

The executor run (`testTransaction`) is a parameter: its outcome for a gas
limit and for the `shouldOmitErr` flag.
-/

namespace CdkValidium

namespace State

/-- What `testTransaction` returns. -/
structure TestOutcome where
  failed : Bool
  reverted : Bool
  gasUsed : UInt64
  returnValue : List UInt8
  err : Option String
  deriving DecidableEq, Repr

/-- The binary search of `EstimateGas`, with the probes made so far; `fuel`
bounds the number of probes. -/
def searchGas (testTransaction : UInt64 → Bool → TestOutcome) :
    Nat → UInt64 → UInt64 → List UInt64 → Option (Except String (UInt64 × List UInt64))
  | fuel, lowEnd, highEnd, probes =>
    if lowEnd < highEnd ∧ highEnd - lowEnd > 4096 then
      match fuel with
      | 0 => none
      | fuel + 1 =>
        let mid := (lowEnd + highEnd) / 2
        let result := testTransaction mid true
        match result.err, result.reverted with
        | some testErr, false => some (.error testErr)
        | _, _ =>
          if result.failed then searchGas testTransaction fuel (mid + 1) highEnd (probes ++ [mid])
          else searchGas testTransaction fuel lowEnd mid (probes ++ [mid])
    else some (.ok (highEnd, probes))

/-- What `EstimateGas` reads of the transaction and the state: its gas limit,
gas price and value, the code at its `To` address (`none` without one), and
the sender's balance (`none` for the zero address; `ErrNotFound` is read as
`0`). -/
structure GasQuery where
  gas : UInt64
  gasPrice : Nat
  value : Option Nat
  toCode : Option (Except String (List UInt8))
  senderBalance : Option (Except String Nat)

/-- How `EstimateGas` fails: a revert at the high end, with the return value,
or an error. -/
inductive EstimateGasError
  | reverted (returnValue : List UInt8) (err : String)
  | err (msg : String)
  deriving DecidableEq, Repr

def errInsufficientFunds : String := "insufficient funds for gas * price + value"

/-- The balance left for gas: the sender's balance less the value, `none` for
the zero address. -/
def availableBalance (q : GasQuery) : Except String (Option Nat) :=
  match q.senderBalance with
  | none => .ok none
  | some (.error err) => .error err
  | some (.ok senderBalance) =>
    match q.value with
    | none => .ok (some senderBalance)
    | some value => if value > senderBalance then .error errInsufficientFunds else .ok (some (senderBalance - value))

/-- The high end before the search: the gas limit when set above the low end,
else `MaxCumulativeGasUsed`, capped by the gas the available balance pays
for. -/
def highEndOf (q : GasQuery) (maxCumulativeGasUsed lowEnd : UInt64) (available : Option Nat) : UInt64 :=
  let highEnd := if q.gas ≠ 0 ∧ q.gas > lowEnd then q.gas else maxCumulativeGasUsed
  match available with
  | some balance =>
    if q.gasPrice ≠ 0 ∧ balance > 0 ∧ balance / q.gasPrice < 2 ^ 64 ∧ highEnd.toNat > balance / q.gasPrice then
      (balance / q.gasPrice).toUInt64
    else highEnd
  | none => highEnd

/-- `EstimateGas` from the intrinsic gas on. -/
def estimateGas (q : GasQuery) (maxCumulativeGasUsed : UInt64) (intrinsicGas : Except String UInt64)
    (testTransaction : UInt64 → Bool → TestOutcome) (fuel : Nat) :
    Option (Except EstimateGasError UInt64) :=
  match intrinsicGas with
  | .error err => some (.error (.err err))
  | .ok lowEnd =>
    if lowEnd = 21000 ∧ q.toCode = some (.ok []) then some (.ok lowEnd)
    else
      match availableBalance q with
      | .error err => some (.error (.err err))
      | .ok available =>
        let highEnd := highEndOf q maxCumulativeGasUsed lowEnd available
        let first := testTransaction highEnd false
        if first.failed then
          if first.reverted then some (.error (.reverted first.returnValue (first.err.getD "")))
          else some (.error (.err ("unable to apply transaction even for the highest gas limit " ++
            toString highEnd ++ ": " ++ first.err.getD "")))
        else
          let lowEnd := if lowEnd < first.gasUsed then first.gasUsed else lowEnd
          (searchGas testTransaction fuel lowEnd highEnd []).map fun r =>
            (r.map Prod.fst).mapError EstimateGasError.err

/-! ### The search -/

/-- The executor of a monotone transaction: with `shouldOmitErr` set, a run
fails exactly below the gas `gStar` it needs, and reports no error other than
a revert. -/
structure Monotone (testTransaction : UInt64 → Bool → TestOutcome) (gStar : Nat) : Prop where
  failed_iff : ∀ g, (testTransaction g true).failed = true ↔ g.toNat < gStar
  reverted_of_err : ∀ g, (testTransaction g true).err.isSome = true → (testTransaction g true).reverted = true

theorem searchCond_iff {lowEnd highEnd : UInt64} :
    (lowEnd < highEnd ∧ highEnd - lowEnd > 4096) ↔ lowEnd.toNat + 4096 < highEnd.toNat := by
  rw [UInt64.lt_iff_toNat_lt, gt_iff_lt, UInt64.lt_iff_toNat_lt]
  constructor
  · rintro ⟨hlt, hgap⟩
    rw [UInt64.toNat_sub_of_le _ _ (UInt64.le_of_lt (UInt64.lt_iff_toNat_lt.mpr hlt))] at hgap
    simp only [UInt64.reduceToNat] at hgap
    omega
  · intro h
    refine ⟨by omega, ?_⟩
    rw [UInt64.toNat_sub_of_le _ _ (UInt64.le_iff_toNat_le.mpr (by omega))]
    simp only [UInt64.reduceToNat]
    omega

theorem toNat_mid {lowEnd highEnd : UInt64} :
    ((lowEnd + highEnd) / 2).toNat = (lowEnd.toNat + highEnd.toNat) % 2 ^ 64 / 2 := by
  rw [UInt64.toNat_div, UInt64.toNat_add]
  rfl

section Search

variable {testTransaction : UInt64 → Bool → TestOutcome} {gStar : Nat}

theorem searchGas_of_not {fuel : Nat} {lowEnd highEnd : UInt64} {probes : List UInt64}
    (h : ¬ lowEnd.toNat + 4096 < highEnd.toNat) :
    searchGas testTransaction fuel lowEnd highEnd probes = some (.ok (highEnd, probes)) := by
  rw [searchGas.eq_def]
  exact if_neg (searchCond_iff.not.mpr h)

theorem searchGas_zero {lowEnd highEnd : UInt64} {probes : List UInt64}
    (h : lowEnd.toNat + 4096 < highEnd.toNat) : searchGas testTransaction 0 lowEnd highEnd probes = none := by
  rw [searchGas.eq_def]
  exact if_pos (searchCond_iff.mpr h)

theorem searchGas_succ (hmono : Monotone testTransaction gStar) {fuel : Nat} {lowEnd highEnd : UInt64}
    {probes : List UInt64} (h : lowEnd.toNat + 4096 < highEnd.toNat) :
    searchGas testTransaction (fuel + 1) lowEnd highEnd probes =
      if ((lowEnd + highEnd) / 2).toNat < gStar then
        searchGas testTransaction fuel ((lowEnd + highEnd) / 2 + 1) highEnd (probes ++ [(lowEnd + highEnd) / 2])
      else searchGas testTransaction fuel lowEnd ((lowEnd + highEnd) / 2) (probes ++ [(lowEnd + highEnd) / 2]) := by
  conv_lhs => rw [searchGas.eq_def]
  dsimp only
  rw [if_pos (searchCond_iff.mpr h)]
  have hfailed := hmono.failed_iff ((lowEnd + highEnd) / 2)
  have hcont : ∀ (a : Option String) (b : Bool), (a.isSome = true → b = true) →
      ∀ (x y : Option (Except String (UInt64 × List UInt64))),
        (match a, b with
          | some testErr, false => some (.error testErr)
          | _, _ => x) = x := by
    intro a b hab x _
    cases a with
    | none => rfl
    | some testErr =>
      rw [hab rfl]
  rw [hcont _ _ (hmono.reverted_of_err _) _ none]
  by_cases hlt : ((lowEnd + highEnd) / 2).toNat < gStar
  · rw [if_pos (hfailed.mpr hlt), if_pos hlt]
  · rw [if_neg (fun h => hlt (hfailed.mp h)), if_neg hlt]

/-- **The search without wrap.**  From ends around the needed gas whose sum
with it stays below `2^64`, with fuel for the width, the search returns a gas
at or above the needed one and at most 4096 above it, which is the high end it
started from or a probe; it probes at most `fuel` times, each time between the
two ends. -/
theorem searchGas_spec (hmono : Monotone testTransaction gStar) :
    ∀ (fuel : Nat) (lowEnd highEnd : UInt64) (probes : List UInt64),
      lowEnd.toNat ≤ gStar → gStar ≤ highEnd.toNat → gStar + highEnd.toNat < 2 ^ 64 →
      highEnd.toNat - lowEnd.toNat < 2 ^ fuel →
      ∃ r newProbes, searchGas testTransaction fuel lowEnd highEnd probes = some (.ok (r, probes ++ newProbes)) ∧
        gStar ≤ r.toNat ∧ r.toNat ≤ gStar + 4096 ∧ (r = highEnd ∨ r ∈ newProbes) ∧
        newProbes.length ≤ fuel ∧ ∀ p ∈ newProbes, lowEnd.toNat ≤ p.toNat ∧ p.toNat ≤ highEnd.toNat := by
  intro fuel
  induction fuel with
  | zero =>
    intro lowEnd highEnd probes hlow hhigh _ hwidth
    refine ⟨highEnd, [], by rw [List.append_nil]; exact searchGas_of_not (by simp at hwidth; omega),
      hhigh, by simp at hwidth; omega, .inl rfl, le_rfl, by simp⟩
  | succ fuel ih =>
    intro lowEnd highEnd probes hlow hhigh hwrap hwidth
    by_cases hcond : lowEnd.toNat + 4096 < highEnd.toNat
    · have hmid : ((lowEnd + highEnd) / 2).toNat = (lowEnd.toNat + highEnd.toNat) / 2 := by
        rw [toNat_mid, Nat.mod_eq_of_lt (by omega)]
      have hpow : 2 ^ (fuel + 1) = 2 * 2 ^ fuel := by rw [pow_succ]; ring
      rw [searchGas_succ hmono hcond]
      split
      case isTrue hfail =>
        have hnext : ((lowEnd + highEnd) / 2 + 1).toNat = (lowEnd.toNat + highEnd.toNat) / 2 + 1 := by
          rw [UInt64.toNat_add, hmid, UInt64.toNat_one, Nat.mod_eq_of_lt (by omega)]
        obtain ⟨r, newProbes, hrun, hr₁, hr₂, hr, hlen, hprobes⟩ :=
          ih ((lowEnd + highEnd) / 2 + 1) highEnd (probes ++ [(lowEnd + highEnd) / 2]) (by omega) hhigh hwrap
            (by omega)
        refine ⟨r, (lowEnd + highEnd) / 2 :: newProbes, by simpa using hrun, hr₁, hr₂, ?_,
          by simpa using hlen, ?_⟩
        · exact hr.imp id (List.mem_cons_of_mem _)
        · intro p hp
          rcases List.mem_cons.mp hp with rfl | hp
          · omega
          · have := hprobes p hp
            omega
      case isFalse hok =>
        obtain ⟨r, newProbes, hrun, hr₁, hr₂, hr, hlen, hprobes⟩ :=
          ih lowEnd ((lowEnd + highEnd) / 2) (probes ++ [(lowEnd + highEnd) / 2]) hlow (by omega) (by omega)
            (by omega)
        refine ⟨r, (lowEnd + highEnd) / 2 :: newProbes, by simpa using hrun, hr₁, hr₂, ?_,
          by simpa using hlen, ?_⟩
        · rcases hr with rfl | hr
          · exact .inr List.mem_cons_self
          · exact .inr (List.mem_cons_of_mem _ hr)
        · intro p hp
          rcases List.mem_cons.mp hp with rfl | hp
          · omega
          · have := hprobes p hp
            omega
    · exact ⟨highEnd, [], by rw [List.append_nil]; exact searchGas_of_not hcond, hhigh, by omega, .inl rfl,
        Nat.zero_le _, by simp⟩

/-! ### `EstimateGas` -/

/-- Past the intrinsic gas, the shortcut for plain transfers and the balance,
and after a successful run at the high end, `EstimateGas` is the search from
the larger of the intrinsic gas and the gas that run used. -/
theorem estimateGas_of_run {q : GasQuery} {maxCumulativeGasUsed lowEnd highEnd : UInt64}
    {available : Option Nat} {fuel : Nat} (hshort : ¬ (lowEnd = 21000 ∧ q.toCode = some (.ok [])))
    (havail : availableBalance q = .ok available)
    (hhighEnd : highEndOf q maxCumulativeGasUsed lowEnd available = highEnd)
    (hfirst : (testTransaction highEnd false).failed = false) :
    estimateGas q maxCumulativeGasUsed (.ok lowEnd) testTransaction fuel =
      (searchGas testTransaction fuel
          (if lowEnd < (testTransaction highEnd false).gasUsed then (testTransaction highEnd false).gasUsed else lowEnd)
          highEnd []).map fun r => (r.map Prod.fst).mapError EstimateGasError.err := by
  simp only [estimateGas, if_neg hshort, havail, hhighEnd, hfirst, Bool.false_eq_true, if_false]

/-- The gas limit `ToTransaction` (`jsonrpc/types/types.go`) gives the
transaction `eth_estimateGas` estimates: the caller's gas when it is set,
positive and below `MaxCumulativeGasUsed`, else `MaxCumulativeGasUsed`. -/
def toTransactionGas (argsGas : Option UInt64) (maxCumulativeGasUsed : UInt64) : UInt64 :=
  match argsGas with
  | some gas => if 0 < gas ∧ gas < maxCumulativeGasUsed then gas else maxCumulativeGasUsed
  | none => maxCumulativeGasUsed

theorem toTransactionGas_le (argsGas : Option UInt64) (maxCumulativeGasUsed : UInt64) :
    toTransactionGas argsGas maxCumulativeGasUsed ≤ maxCumulativeGasUsed := by
  unfold toTransactionGas
  split
  · split_ifs with h
    · exact UInt64.le_of_lt h.2
    · exact UInt64.le_refl _
  · exact UInt64.le_refl _

theorem highEndOf_le {q : GasQuery} {maxCumulativeGasUsed : UInt64} (lowEnd : UInt64) (available : Option Nat)
    (hgas : q.gas ≤ maxCumulativeGasUsed) :
    (highEndOf q maxCumulativeGasUsed lowEnd available).toNat ≤ maxCumulativeGasUsed.toNat := by
  have hbase : (if q.gas ≠ 0 ∧ q.gas > lowEnd then q.gas else maxCumulativeGasUsed).toNat ≤
      maxCumulativeGasUsed.toNat := by
    split
    · exact UInt64.le_iff_toNat_le.mp hgas
    · exact le_rfl
  unfold highEndOf
  dsimp only
  generalize (if q.gas ≠ 0 ∧ q.gas > lowEnd then q.gas else maxCumulativeGasUsed) = highEnd at hbase ⊢
  cases available with
  | none => exact hbase
  | some balance =>
    dsimp only
    split_ifs with hcap
    · -- the gas the balance pays for is below the high end
      have hcast : (balance / q.gasPrice).toUInt64.toNat = balance / q.gasPrice :=
        UInt64.toNat_ofNat_of_lt' hcap.2.2.1
      omega
    · exact hbase

/-- **The estimate of `eth_estimateGas`.**  Its transaction has the gas limit
`ToTransaction` gives, at most `MaxCumulativeGasUsed`, which is below `2^63`.
With a monotone executor, the needed gas between the two ends and a
successful run at the high end, the search makes at most
`⌈log₂ (highEnd - lowEnd)⌉ + 1` probes, each between the two ends, and
`EstimateGas` returns the high end or a probe, at or above the needed gas and
at most 4096 above it, where the executor succeeds. -/
theorem estimateGas_of_toTransaction (hmono : Monotone testTransaction gStar) {q : GasQuery}
    {argsGas : Option UInt64} {maxCumulativeGasUsed intrinsicGas lowEnd highEnd : UInt64}
    {available : Option Nat} (hgas : q.gas = toTransactionGas argsGas maxCumulativeGasUsed)
    (hmax : maxCumulativeGasUsed.toNat < 2 ^ 63)
    (hshort : ¬ (intrinsicGas = 21000 ∧ q.toCode = some (.ok [])))
    (havail : availableBalance q = .ok available)
    (hhighEnd : highEndOf q maxCumulativeGasUsed intrinsicGas available = highEnd)
    (hfirst : (testTransaction highEnd false).failed = false)
    (hlowEnd : (if intrinsicGas < (testTransaction highEnd false).gasUsed then (testTransaction highEnd false).gasUsed
      else intrinsicGas) = lowEnd)
    (hlow : lowEnd.toNat ≤ gStar) (hhigh : gStar ≤ highEnd.toNat) :
    ∃ r probes,
      searchGas testTransaction (Nat.clog 2 (highEnd.toNat - lowEnd.toNat) + 1) lowEnd highEnd [] =
        some (.ok (r, probes)) ∧
      probes.length ≤ Nat.clog 2 (highEnd.toNat - lowEnd.toNat) + 1 ∧
      (∀ p ∈ probes, lowEnd.toNat ≤ p.toNat ∧ p.toNat ≤ highEnd.toNat) ∧
      estimateGas q maxCumulativeGasUsed (.ok intrinsicGas) testTransaction
          (Nat.clog 2 (highEnd.toNat - lowEnd.toNat) + 1) = some (.ok r) ∧
      gStar ≤ r.toNat ∧ r.toNat ≤ gStar + 4096 ∧ (r = highEnd ∨ r ∈ probes) ∧
      (testTransaction r true).failed = false := by
  have hle : highEnd.toNat ≤ maxCumulativeGasUsed.toNat :=
    hhighEnd ▸ highEndOf_le intrinsicGas available (hgas ▸ toTransactionGas_le argsGas maxCumulativeGasUsed)
  -- the fuel covers the width: `w ≤ 2 ^ ⌈log₂ w⌉ < 2 ^ (⌈log₂ w⌉ + 1)`
  have hfuel : highEnd.toNat - lowEnd.toNat < 2 ^ (Nat.clog 2 (highEnd.toNat - lowEnd.toNat) + 1) := by
    have hclog := Nat.le_pow_clog (by norm_num : 1 < 2) (highEnd.toNat - lowEnd.toNat)
    have hpos := Nat.one_le_two_pow (n := Nat.clog 2 (highEnd.toNat - lowEnd.toNat))
    rw [pow_succ]
    omega
  obtain ⟨r, probes, hrun, hr₁, hr₂, hr, hlen, hprobes⟩ :=
    searchGas_spec hmono _ lowEnd highEnd [] hlow hhigh (by omega) hfuel
  rw [List.nil_append] at hrun
  refine ⟨r, probes, hrun, hlen, hprobes, ?_, hr₁, hr₂, hr, ?_⟩
  · rw [estimateGas_of_run hshort havail hhighEnd hfirst, hlowEnd, hrun]
    rfl
  · exact Bool.eq_false_iff.mpr fun h => absurd ((hmono.failed_iff r).mp h) (by omega)

/-- An executor that needs `gStar` gas and reports `gasUsed`, never an error. -/
def thresholdRun (gStar : Nat) (gasUsed : UInt64) (gas : UInt64) (_ : Bool) : TestOutcome :=
  if gas.toNat < gStar then ⟨true, false, gasUsed, [], none⟩ else ⟨false, false, gasUsed, [], none⟩

theorem thresholdRun_monotone (gStar : Nat) (gasUsed : UInt64) : Monotone (thresholdRun gStar gasUsed) gStar where
  failed_iff g := by
    unfold thresholdRun
    split <;> simp_all
  reverted_of_err g h := by
    unfold thresholdRun at h
    split at h <;> simp at h

/-- A contract call without a gas limit that needs 50000 gas, with the default
`MaxCumulativeGasUsed` of 30000000. -/
theorem estimateGas_of_toTransaction_contract :
    ∃ r probes,
      searchGas (thresholdRun 50000 21000) (Nat.clog 2 ((30000000 : UInt64).toNat - (21000 : UInt64).toNat) + 1)
          21000 30000000 [] = some (.ok (r, probes)) ∧
      probes.length ≤ Nat.clog 2 ((30000000 : UInt64).toNat - (21000 : UInt64).toNat) + 1 ∧
      (∀ p ∈ probes, (21000 : UInt64).toNat ≤ p.toNat ∧ p.toNat ≤ (30000000 : UInt64).toNat) ∧
      estimateGas ⟨toTransactionGas none 30000000, 0, none, some (.ok [0x60]), none⟩ 30000000 (.ok 21000)
          (thresholdRun 50000 21000) (Nat.clog 2 ((30000000 : UInt64).toNat - (21000 : UInt64).toNat) + 1) =
        some (.ok r) ∧
      50000 ≤ r.toNat ∧ r.toNat ≤ 50000 + 4096 ∧ (r = 30000000 ∨ r ∈ probes) ∧
      (thresholdRun 50000 21000 r true).failed = false :=
  estimateGas_of_toTransaction (thresholdRun_monotone 50000 21000)
    (show _ = toTransactionGas none 30000000 from rfl) (by decide) (by simp) rfl (by decide)
    (by decide) (by decide) (by decide) (by decide)

end Search

end State

end CdkValidium
