import CdkValidium.Gasprice.Follower
import CdkValidium.Lib.OrderStatistic

/-!
# The last-n-batches gas price suggester

`LastNL2BlocksGasPrice.UpdateGasPriceAvg` samples the gas tips of the last
`CheckBlocks` batches.  It starts one goroutine per batch, from the last batch
number down (`launchBatches`).  Each goroutine sorts its batch's transactions
by tip and keeps at most `sampleNumber` of them at or above `IgnorePrice`
(`getL2BlockTxsTips`), then sends them on a buffered channel.  The call
receives one result per goroutine in whatever order they arrive
(`receiveResults`).  An error ends the call with no update, and an empty result
counts as the last price.  It then sorts the samples, picks the one at
`(len-1)*Percentile/100` in Go `int` arithmetic (`pickPercentile`), caps it at
`MaxGasPriceWei`, stores it, and gives the pool that price and
`price / int64(Factor*100) * 100` (`storeGasPrices`).

What the update is for is stated without goroutines or order
(`suggestedPrice`).  For each batch read, take its three lowest tips at or
above the ignore price, or the last price when there is none.  The update
stores the `Percentile`-th percentile of all of them, capped, and nothing when
a batch query failed.  `updateGasPriceAvg_eq_suggestedPrice` shows the code
does exactly that for every order in which the results arrive.
`percentileOf_isKthSmallest` reads the percentile as an order statistic.

Over whole runs of the suggester (`Step`), the price it holds is the default,
the cap, or lies between the ignore price and the cap (`PriceInv`), because a
batch without samples feeds the last price back.  The cap is
`MaxGasPriceWei`, which the configuration documents as "ignored if 0".  Here it
is not ignored: a zero cap stores a price of `0`.
-/

namespace CdkValidium.Gasprice

open FloatingPoint OrderStatistic

/-- `sampleNumber`: the number of transactions sampled in a batch. -/
def sampleNumber : Int64 := 3

/-- The fields of the gas price `Config` that this strategy reads besides the
follower's: `IgnorePrice`, and `CheckBlocks` and `Percentile`, Go `int`s. -/
structure LastNConfig extends Config where
  ignorePrice : UInt64
  checkBlocks : Int64
  percentile : Int64

/-- `LastNL2BlocksGasPrice`: the batch number and the price of the last
update.  The constructor also stores `MaxGasPriceWei` and `IgnorePrice` as
`maxPrice` and `ignorePrice`; they never change and are read from the config
here. -/
structure LastNL2BlocksGasPrice where
  lastBatchNumber : UInt64
  lastPrice : Nat
  deriving DecidableEq, Repr

/-- `newLastNL2BlocksGasPriceSuggester`: batch `0`, and `DefaultGasPriceWei` as
the last price. -/
def newLastNL2BlocksGasPriceSuggester (cfg : LastNConfig) : LastNL2BlocksGasPrice :=
  ⟨0, cfg.defaultGasPriceWei.toNat⟩

/-- What `GetTxsByBatchNumber` returns for a batch, each transaction by its gas
tip cap: the slice (`none` for a nil one) and the error. -/
structure BatchTxs (ε : Type) where
  txs : Option (List Nat)
  err : Option ε
  deriving DecidableEq

/-- `results`: what a `getL2BlockTxsTips` goroutine sends on the channel. -/
structure Results (ε : Type) where
  values : List Nat
  err : Option ε
  deriving DecidableEq

/-- The loop of `getL2BlockTxsTips` over the transactions sorted by tip: a tip
below `ignorePrice` is skipped, the others are appended to `prices`, and the
loop stops once `len(prices) >= limit`. -/
def collectTips (limit : Int64) (ignorePrice : Option Nat) : List Nat → List Nat → List Nat
  | [], prices => prices
  | tip :: txs, prices =>
    if ignorePrice.any (tip < ·) then collectTips limit ignorePrice txs prices
    else
      let prices := prices ++ [tip]
      if prices.length.toInt64 ≥ limit then prices
      else collectTips limit ignorePrice txs prices

/-- `getL2BlockTxsTips`: a nil slice sends its error, possibly nil, and no
values; otherwise `sort.Sort` orders the transactions by tip and the loop's
prices are sent. -/
def getL2BlockTxsTips {ε : Type} (limit : Int64) (ignorePrice : Option Nat) (batch : BatchTxs ε) :
    Results ε :=
  match batch.txs with
  | none => ⟨[], batch.err⟩
  | some txs => ⟨collectTips limit ignorePrice (txs.insertionSort (· ≤ ·)) [], none⟩

/-- The first loop of `UpdateGasPriceAvg`: the batch numbers it starts a
`getL2BlockTxsTips` goroutine for, from `number` down, while
`sent < CheckBlocks` and `number > 0`. -/
def launchBatches (checkBlocks sent : Int64) : Nat → List UInt64
  | 0 => []
  | number + 1 =>
    if sent < checkBlocks then (number + 1).toUInt64 :: launchBatches checkBlocks (sent + 1) number
    else []

/-- The goroutines' results in the order they were started, for the batches as
`GetTxsByBatchNumber` returns them. -/
def launch {ε : Type} (cfg : LastNConfig) (batchNumber : UInt64) (txsByBatch : UInt64 → BatchTxs ε) :
    List (Results ε) :=
  (launchBatches cfg.checkBlocks 0 batchNumber.toNat).map fun number =>
    getL2BlockTxsTips sampleNumber (some cfg.ignorePrice.toNat) (txsByBatch number)

/-- The values a result adds to `results`: `lastPrice` in place of none. -/
def Results.sampled {ε : Type} (lastPrice : Nat) (res : Results ε) : List Nat :=
  if res.values.isEmpty then [lastPrice] else res.values

/-- The second loop of `UpdateGasPriceAvg`, over the results in the order the
channel delivers them: an error ends the call (`none`), and the values of the
others are appended to `results`. -/
def receiveResults {ε : Type} (lastPrice : Nat) (results : List Nat) : List (Results ε) → Option (List Nat)
  | [] => some results
  | res :: arrivals =>
    if res.err.isSome then none
    else receiveResults lastPrice (results ++ res.sampled lastPrice) arrivals

/-- How a call of `UpdateGasPriceAvg` stops short: a runtime panic, the
`big.Int` division by a zero factor, or the conversion `int64(Factor * 100)` of
a value whose result Go leaves to the implementation. -/
inductive Fault
  | panic (p : Go.Panic)
  | divisionByZero
  | conversionUndefined
  deriving DecidableEq, Repr

/-- `results[(len(results)-1)*Percentile/100]` in Go `int` arithmetic, with the
panic of an index outside the slice. -/
def pickPercentile (percentile : Int64) (results : List Nat) : Except Fault Nat :=
  let i := (results.length.toInt64 - 1) * percentile / 100
  match (if 0 ≤ i then results[i.toInt.toNat]? else none) with
  | some price => .ok price
  | none => .error (.panic .indexOutOfRange)

/-- `int64(Factor * 100)`: the product rounded to a double, truncated towards
zero; `none` for NaN, an infinity or a value outside `int64`. -/
def factorAsPercentage (factor : Binary64) : Option Int64 :=
  match factor.value with
  | .finite q =>
    let t := truncate (roundSig 53 (q * 100))
    if -2 ^ 63 ≤ t ∧ t < 2 ^ 63 then some (Int64.ofInt t) else none
  | _ => none

/-- The end of `UpdateGasPriceAvg`: the L2 and L1 gas prices it gives
`SetGasPrices`, `lastPrice.Uint64()` and `(lastPrice / factor * 100).Uint64()`
with the Euclidean division of `big.Int`. -/
def storeGasPrices (factor : Binary64) (lastPrice : Nat) : Except Fault (UInt64 × UInt64) :=
  match factorAsPercentage factor with
  | none => .error .conversionUndefined
  | some factorAsPercentage =>
    if factorAsPercentage = 0 then .error .divisionByZero
    else
      let l1GasPriceDivBy100 := (lastPrice : Int) / factorAsPercentage.toInt
      let l1GasPrice := l1GasPriceDivBy100 * 100
      .ok (Go.bigUint64 lastPrice, Go.bigUint64 l1GasPrice)

/-- `LastNL2BlocksGasPrice.UpdateGasPriceAvg`, for the last batch number the
state returns and the goroutines' results in the order the channel delivers
them: `none` when the batch number has not moved or a result carries an error,
otherwise the new suggester and the prices given to `SetGasPrices`. -/
def LastNL2BlocksGasPrice.updateGasPriceAvg {ε : Type} (g : LastNL2BlocksGasPrice) (cfg : LastNConfig)
    (batchNumber : UInt64) (arrivals : List (Results ε)) :
    Except Fault (Option (LastNL2BlocksGasPrice × UInt64 × UInt64)) := do
  if batchNumber = g.lastBatchNumber then return none
  -- `make(chan results, g.cfg.CheckBlocks)`
  if cfg.checkBlocks < 0 then throw (.panic .makechanSize)
  match receiveResults g.lastPrice [] arrivals with
  | none => return none
  | some results =>
    let price ← if results.length > 0 then pickPercentile cfg.percentile (results.insertionSort (· ≤ ·))
      else pure g.lastPrice
    let maxPrice := cfg.maxGasPriceWei.toNat
    let price := if price > maxPrice then maxPrice else price
    let prices ← storeGasPrices cfg.factor price
    return some (⟨batchNumber, price⟩, prices)

/-! ### What an update is for -/

/-- The `p`-th percentile of samples: the `k`-th smallest for
`k = (n - 1) * p / 100`, `n` the number of samples; `none` when there are none. -/
def percentileOf (p : Nat) (samples : Multiset Nat) : Option Nat :=
  (samples.sort (· ≤ ·))[(Multiset.card samples - 1) * p / 100]?

/-- The samples of a batch: its three lowest tips at or above `ignorePrice`, or
`lastPrice` when there is none. -/
def batchSamples (ignorePrice lastPrice : Nat) (tips : List Nat) : Multiset Nat :=
  let low := (((tips : Multiset Nat).filter (ignorePrice ≤ ·)).sort (· ≤ ·)).take 3
  if low = [] then {lastPrice} else low

/-- A batch whose query failed: a nil slice and an error. -/
def BatchTxs.failed {ε : Type} (b : BatchTxs ε) : Bool :=
  b.txs.isNone && b.err.isSome

/-- The batches an update reads: the last `checkBlocks` up to `batchNumber`,
batch `0` left out. -/
def sampledBatches (checkBlocks : Int64) (batchNumber : UInt64) : Multiset UInt64 :=
  (Multiset.range (min checkBlocks.toInt.toNat batchNumber.toNat)).map fun i =>
    (batchNumber.toNat - i).toUInt64

/-- The price an update is meant to store, from the batches it reads taken in
no order: nothing when one of them failed, else the percentile of all their
samples (the last price when there are none), capped at `MaxGasPriceWei`. -/
def suggestedPrice {ε : Type} (cfg : LastNConfig) (lastPrice : Nat) (batches : Multiset (BatchTxs ε)) :
    Option Nat :=
  if ∀ b ∈ batches, b.failed = false then
    let samples := batches.bind fun b => batchSamples cfg.ignorePrice.toNat lastPrice (b.txs.getD [])
    some (min ((percentileOf cfg.percentile.toInt.toNat samples).getD lastPrice) cfg.maxGasPriceWei.toNat)
  else none

/-! ### One goroutine -/

theorem toInt64_ge_iff {m : Nat} (hm : m < 2 ^ 63) {limit : Int64} :
    m.toInt64 ≥ limit ↔ limit.toInt ≤ m := by
  rw [ge_iff_le, Int64.le_iff_toInt_le, Nat.toInt64, Int64.toInt_ofNat_of_lt hm]

theorem collectTips_eq {limit : Int64} (ignorePrice : Option Nat) (txs : List Nat) :
    ∀ prices : List Nat, prices.length < limit.toInt.toNat →
      collectTips limit ignorePrice txs prices =
        prices ++ (txs.filter fun tip => !ignorePrice.any (tip < ·)).take (limit.toInt.toNat - prices.length) := by
  have hlim : limit.toInt < 2 ^ 63 := Int64.toInt_lt limit
  induction txs with
  | nil => intro prices _; simp [collectTips]
  | cons tip txs ih =>
    intro prices hlen
    obtain ⟨k, hk⟩ : ∃ k, limit.toInt.toNat - prices.length = k + 1 := ⟨_, (Nat.succ_pred_eq_of_pos (by omega)).symm⟩
    by_cases hskip : ignorePrice.any (tip < ·)
    · simp only [collectTips, hskip, if_true, List.filter_cons, Bool.not_true, Bool.false_eq_true,
        if_false]
      exact ih prices hlen
    · have hlen' : (prices ++ [tip]).length = prices.length + 1 := by
        rw [List.length_append, List.length_singleton]
      have hge : (prices ++ [tip]).length.toInt64 ≥ limit ↔ k = 0 := by
        rw [toInt64_ge_iff (by omega), hlen']
        omega
      simp only [collectTips, hskip, if_false, Bool.false_eq_true, List.filter_cons, Bool.not_false,
        if_true, hk, List.take_succ_cons]
      by_cases hk0 : k = 0
      · rw [if_pos (hge.mpr hk0), hk0, List.take_zero]
      · rw [if_neg (mt hge.mp hk0), ih _ (by omega), hlen', List.append_assoc, List.singleton_append]
        congr 3
        omega

theorem collectTips_sampleNumber (ignorePrice : Nat) (txs : List Nat) :
    collectTips sampleNumber (some ignorePrice) txs [] = (txs.filter (ignorePrice ≤ ·)).take 3 := by
  have h3 : sampleNumber.toInt.toNat = 3 := by decide
  rw [collectTips_eq _ _ _ (by rw [h3]; decide), h3, List.nil_append, List.length_nil, Nat.sub_zero]
  congr 2
  funext tip
  rw [Option.any_some, ← decide_not]
  simp only [Nat.not_lt]

theorem sampled_getL2BlockTxsTips {ε : Type} (ignorePrice lastPrice : Nat) (b : BatchTxs ε) :
    (((getL2BlockTxsTips sampleNumber (some ignorePrice) b).sampled lastPrice : List Nat) : Multiset Nat) =
      batchSamples ignorePrice lastPrice (b.txs.getD []) := by
  cases htxs : b.txs with
  | none => simp [getL2BlockTxsTips, htxs, Results.sampled, batchSamples]
  | some txs =>
    have hlow : collectTips sampleNumber (some ignorePrice) (txs.insertionSort (· ≤ ·)) [] =
        (((txs : Multiset Nat).filter (ignorePrice ≤ ·)).sort (· ≤ ·)).take 3 := by
      rw [collectTips_sampleNumber, filter_insertionSort, insertionSort_eq_sort, Multiset.filter_coe]
    simp only [getL2BlockTxsTips, htxs, Results.sampled, hlow, batchSamples, Option.getD_some,
      List.isEmpty_iff]
    split_ifs <;> simp

theorem err_getL2BlockTxsTips {ε : Type} (limit : Int64) (ignorePrice : Option Nat) (b : BatchTxs ε) :
    (getL2BlockTxsTips limit ignorePrice b).err.isSome = b.failed := by
  cases htxs : b.txs <;> simp [getL2BlockTxsTips, htxs, BatchTxs.failed]

theorem length_sampled_getL2BlockTxsTips {ε : Type} (ignorePrice lastPrice : Nat) (b : BatchTxs ε) :
    ((getL2BlockTxsTips sampleNumber (some ignorePrice) b).sampled lastPrice).length ≤ 3 := by
  have h := congrArg Multiset.card (sampled_getL2BlockTxsTips ignorePrice lastPrice b)
  rw [Multiset.coe_card] at h
  rw [h, batchSamples]
  split_ifs <;> simp

/-! ### The two loops of an update -/

theorem receiveResults_eq {ε : Type} (lastPrice : Nat) (arrivals : List (Results ε)) :
    ∀ results : List Nat, receiveResults lastPrice results arrivals =
      if arrivals.any (·.err.isSome) then none
      else some (results ++ arrivals.flatMap (·.sampled lastPrice)) := by
  induction arrivals with
  | nil => intro results; simp [receiveResults]
  | cons res arrivals ih =>
    intro results
    by_cases herr : res.err.isSome
    · simp [receiveResults, herr]
    · simp [receiveResults, herr, ih]

theorem toInt_add_one_of_lt {sent checkBlocks : Int64} (h : sent < checkBlocks) :
    (sent + 1).toInt = sent.toInt + 1 := by
  have hlt := Int64.lt_iff_toInt_lt.mp h
  have hhi := Int64.toInt_lt checkBlocks
  have hlo := Int64.le_toInt sent
  rw [Int64.toInt_add, Int64.toInt_one]
  exact Int.bmod_eq_of_le (by omega) (by omega)

theorem launchBatches_eq (checkBlocks : Int64) (number : Nat) :
    ∀ sent : Int64, launchBatches checkBlocks sent number =
      (List.range (min (checkBlocks.toInt - sent.toInt).toNat number)).map fun i => (number - i).toUInt64 := by
  induction number with
  | zero => intro sent; simp [launchBatches]
  | succ number ih =>
    intro sent
    by_cases hsent : sent < checkBlocks
    · have hlt := Int64.lt_iff_toInt_lt.mp hsent
      have hmin : min (checkBlocks.toInt - sent.toInt).toNat (number + 1) =
          min (checkBlocks.toInt - (sent + 1).toInt).toNat number + 1 := by
        rw [toInt_add_one_of_lt hsent]
        omega
      rw [launchBatches, if_pos hsent, ih, hmin, List.range_succ_eq_map, List.map_cons, List.map_map]
      congr 2
      funext i
      simp
    · have hge : (checkBlocks.toInt - sent.toInt).toNat = 0 := by
        have := Int64.lt_iff_toInt_lt.not.mp hsent
        omega
      simp [launchBatches, hsent, hge]

theorem coe_launchBatches (checkBlocks : Int64) (batchNumber : UInt64) :
    ((launchBatches checkBlocks 0 batchNumber.toNat : List UInt64) : Multiset UInt64) =
      sampledBatches checkBlocks batchNumber := by
  rw [launchBatches_eq, sampledBatches, Int64.toInt_zero, Int.sub_zero, Multiset.range, Multiset.map_coe]

theorem length_launch {ε : Type} (cfg : LastNConfig) (batchNumber : UInt64) (txsByBatch : UInt64 → BatchTxs ε) :
    (launch cfg batchNumber txsByBatch).length ≤ cfg.checkBlocks.toInt.toNat := by
  rw [launch, List.length_map, launchBatches_eq, List.length_map, List.length_range, Int64.toInt_zero,
    Int.sub_zero]
  exact min_le_left _ _

/-! ### The percentile index -/

theorem percentileIndex_toInt {percentile : Int64} (hP : 0 ≤ percentile.toInt ∧ percentile.toInt ≤ 100)
    {n : Nat} (hpos : 0 < n) (hn : n ≤ 2 ^ 56) :
    ((n.toInt64 - 1) * percentile / 100).toInt = ((n - 1) * percentile.toInt.toNat / 100 : Nat) := by
  have h1 : (n.toInt64 - 1).toInt = (n : Int) - 1 := by
    rw [Int64.toInt_sub, Nat.toInt64, Int64.toInt_ofNat_of_lt (by omega), Int64.toInt_one]
    exact Int.bmod_eq_of_le (by omega) (by omega)
  have hlo : 0 ≤ ((n : Int) - 1) * percentile.toInt := Int.mul_nonneg (by omega) hP.1
  have hhi : ((n : Int) - 1) * percentile.toInt ≤ 2 ^ 56 * 100 :=
    Int.mul_le_mul (by omega) hP.2 hP.1 (by norm_num)
  have h2 : ((n.toInt64 - 1) * percentile).toInt = ((n : Int) - 1) * percentile.toInt := by
    rw [Int64.toInt_mul, h1]
    exact Int.bmod_eq_of_le (by omega) (by omega)
  have h100 : (100 : Int64).toInt = 100 := by decide
  have hsub : ((n - 1 : Nat) : Int) = (n : Int) - 1 := by omega
  rw [Int64.toInt_div, h2, h100, Int.tdiv_eq_ediv_of_nonneg hlo, Int.bmod_eq_of_le (by omega) (by omega),
    Int.natCast_ediv, Int.natCast_mul, hsub, Int.toNat_of_nonneg hP.1]
  rfl

theorem pickPercentile_eq {percentile : Int64} (hP : 0 ≤ percentile.toInt ∧ percentile.toInt ≤ 100)
    {results : List Nat} (hpos : 0 < results.length) (hn : results.length ≤ 2 ^ 56) :
    ∃ price, results[(results.length - 1) * percentile.toInt.toNat / 100]? = some price ∧
      pickPercentile percentile results = .ok price := by
  have hk : (results.length - 1) * percentile.toInt.toNat / 100 < results.length := by
    have : (results.length - 1) * percentile.toInt.toNat ≤ (results.length - 1) * 100 :=
      Nat.mul_le_mul_left _ (by omega)
    have := Nat.div_le_of_le_mul (this.trans_eq (Nat.mul_comm _ _))
    omega
  have hi := percentileIndex_toInt hP hpos hn
  refine ⟨results[(results.length - 1) * percentile.toInt.toNat / 100], List.getElem?_eq_getElem hk, ?_⟩
  have h0 : (0 : Int64) ≤ (results.length.toInt64 - 1) * percentile / 100 := by
    rw [Int64.le_iff_toInt_le, Int64.toInt_zero, hi]
    omega
  simp only [pickPercentile, if_pos h0, hi, Int.toNat_natCast, List.getElem?_eq_getElem hk]

/-! ### An update, in any order of arrival -/

theorem percentileOf_coe (p : Nat) (results : List Nat) :
    percentileOf p results = (results.insertionSort (· ≤ ·))[(results.length - 1) * p / 100]? := by
  rw [percentileOf, insertionSort_eq_sort, Multiset.coe_card]

theorem cap_eq_min (price maxPrice : Nat) : (if price > maxPrice then maxPrice else price) = min price maxPrice := by
  split_ifs <;> omega

theorem updateGasPriceAvg_of_received {ε : Type} (g : LastNL2BlocksGasPrice) (cfg : LastNConfig)
    {batchNumber : UInt64} {arrivals : List (Results ε)} {results : List Nat}
    (hne : batchNumber ≠ g.lastBatchNumber) (hcb : 0 ≤ cfg.checkBlocks)
    (hrecv : receiveResults g.lastPrice [] arrivals = some results)
    (hP : 0 ≤ cfg.percentile.toInt ∧ cfg.percentile.toInt ≤ 100) (hn : results.length ≤ 2 ^ 56) :
    g.updateGasPriceAvg cfg batchNumber arrivals =
      let price := min ((percentileOf cfg.percentile.toInt.toNat results).getD g.lastPrice)
        cfg.maxGasPriceWei.toNat
      (fun prices => some (⟨batchNumber, price⟩, prices)) <$> storeGasPrices cfg.factor price := by
  simp only [LastNL2BlocksGasPrice.updateGasPriceAvg, hne, Int64.not_lt.mpr hcb, hrecv, if_false,
    percentileOf_coe]
  rcases Nat.eq_zero_or_pos results.length with hzero | hpos
  · rw [List.eq_nil_of_length_eq_zero hzero]
    simp only [List.length_nil, gt_iff_lt, Nat.lt_irrefl, if_false, List.insertionSort_nil,
      List.getElem?_nil, Option.getD_none, cap_eq_min]
    rfl
  · have hlen : (results.insertionSort (· ≤ ·)).length = results.length :=
      (List.perm_insertionSort _ _).length_eq
    obtain ⟨price, hget, hpick⟩ := pickPercentile_eq hP (hlen ▸ hpos) (hlen ▸ hn)
    rw [hlen] at hget
    rw [if_pos hpos, hpick, hget, Option.getD_some]
    simp only [cap_eq_min]
    rfl

theorem launch_eq {ε : Type} (cfg : LastNConfig) (batchNumber : UInt64) (txsByBatch : UInt64 → BatchTxs ε) :
    launch cfg batchNumber txsByBatch =
      ((launchBatches cfg.checkBlocks 0 batchNumber.toNat).map txsByBatch).map
        (getL2BlockTxsTips sampleNumber (some cfg.ignorePrice.toNat)) := by
  rw [launch, List.map_map]
  rfl

theorem length_flatMap_launch {ε : Type} (cfg : LastNConfig) (batchNumber : UInt64)
    (txsByBatch : UInt64 → BatchTxs ε) (lastPrice : Nat) :
    ((launch cfg batchNumber txsByBatch).flatMap (·.sampled lastPrice)).length ≤
      3 * cfg.checkBlocks.toInt.toNat := by
  have hthree : ∀ n ∈ (launch cfg batchNumber txsByBatch).map fun r => (r.sampled lastPrice).length, n ≤ 3 := by
    intro n hn
    obtain ⟨r, hr, rfl⟩ := List.mem_map.mp hn
    rw [launch_eq] at hr
    obtain ⟨b, -, rfl⟩ := List.mem_map.mp hr
    exact length_sampled_getL2BlockTxsTips _ _ b
  calc ((launch cfg batchNumber txsByBatch).flatMap (·.sampled lastPrice)).length
      ≤ ((launch cfg batchNumber txsByBatch).map fun r => (r.sampled lastPrice).length).length • 3 := by
        rw [List.length_flatMap]
        exact List.sum_le_card_nsmul _ _ hthree
    _ ≤ 3 * cfg.checkBlocks.toInt.toNat := by
        rw [List.length_map, smul_eq_mul, Nat.mul_comm]
        exact Nat.mul_le_mul_left 3 (length_launch cfg batchNumber txsByBatch)

/-- **An update stores what it is meant to, whatever the order of arrival.**
For every order in which the channel delivers the goroutines' results, with a
percentile between `0` and `100` and at most `2 ^ 50` batches checked, the
update changes nothing when the batch number has not moved, panics in `make`
when `CheckBlocks` is negative, and changes nothing when a batch query failed;
otherwise it stores the capped percentile of the samples of the batches read
and gives the pool its prices. -/
theorem updateGasPriceAvg_eq_suggestedPrice {ε : Type} (g : LastNL2BlocksGasPrice) (cfg : LastNConfig)
    (batchNumber : UInt64) (txsByBatch : UInt64 → BatchTxs ε) {arrivals : List (Results ε)}
    (hP : 0 ≤ cfg.percentile ∧ cfg.percentile ≤ 100) (hcb : cfg.checkBlocks.toInt ≤ 2 ^ 50)
    (harr : arrivals.Perm (launch cfg batchNumber txsByBatch)) :
    g.updateGasPriceAvg cfg batchNumber arrivals =
      if batchNumber = g.lastBatchNumber then .ok none
      else if cfg.checkBlocks < 0 then .error (.panic .makechanSize)
      else
        match suggestedPrice cfg g.lastPrice ((sampledBatches cfg.checkBlocks batchNumber).map txsByBatch) with
        | none => .ok none
        | some price => (fun prices => some (⟨batchNumber, price⟩, prices)) <$> storeGasPrices cfg.factor price := by
  by_cases hb : batchNumber = g.lastBatchNumber
  · simp only [LastNL2BlocksGasPrice.updateGasPriceAvg, hb, if_true]
    rfl
  rw [if_neg hb]
  by_cases hneg : cfg.checkBlocks < 0
  · simp only [LastNL2BlocksGasPrice.updateGasPriceAvg, hb, hneg, if_true, if_false]
    rfl
  rw [if_neg hneg]
  have hcb0 : 0 ≤ cfg.checkBlocks := Int64.not_lt.mp hneg
  set batches := (launchBatches cfg.checkBlocks 0 batchNumber.toNat).map txsByBatch with hbatches
  have hcoe : (sampledBatches cfg.checkBlocks batchNumber).map txsByBatch = (batches : Multiset (BatchTxs ε)) := by
    rw [← coe_launchBatches, Multiset.map_coe]
  -- an error arrives, in some order, exactly when a batch query failed
  have hany : arrivals.any (·.err.isSome) = batches.any BatchTxs.failed := by
    rw [harr.any_eq, launch_eq, List.any_map]
    exact congrArg batches.any (funext fun b => err_getL2BlockTxsTips _ _ b)
  rw [hcoe, suggestedPrice]
  by_cases hfail : batches.any BatchTxs.failed
  · have hsome : ¬ ∀ b ∈ (batches : Multiset (BatchTxs ε)), b.failed = false := by
      obtain ⟨b, hb, hbf⟩ := List.any_eq_true.mp hfail
      exact fun h => by simp [h b (Multiset.mem_coe.mpr hb)] at hbf
    simp only [LastNL2BlocksGasPrice.updateGasPriceAvg, hb, hneg, if_false, receiveResults_eq, hany, hfail,
      if_true, if_neg hsome]
    rfl
  · have hall : ∀ b ∈ (batches : Multiset (BatchTxs ε)), b.failed = false := by
      intro b hmem
      simpa using List.any_eq_false.mp (Bool.eq_false_iff.mpr hfail) b (Multiset.mem_coe.mp hmem)
    have hrecv : receiveResults g.lastPrice [] arrivals = some (arrivals.flatMap (·.sampled g.lastPrice)) := by
      rw [receiveResults_eq, hany, if_neg hfail, List.nil_append]
    -- the values received form the multiset of the batches' samples, in every order
    have hsamples : ((arrivals.flatMap (·.sampled g.lastPrice) : List Nat) : Multiset Nat) =
        (batches : Multiset (BatchTxs ε)).bind
          fun b => batchSamples cfg.ignorePrice.toNat g.lastPrice (b.txs.getD []) := by
      rw [Multiset.coe_eq_coe.mpr (harr.flatMap_right _), launch_eq, List.flatMap_map, ← Multiset.coe_bind]
      exact congrArg _ (funext fun b => sampled_getL2BlockTxsTips _ _ b)
    have hn : (arrivals.flatMap (·.sampled g.lastPrice)).length ≤ 2 ^ 56 := by
      rw [(harr.flatMap_right _).length_eq]
      have := length_flatMap_launch cfg batchNumber txsByBatch g.lastPrice
      omega
    have hP' : 0 ≤ cfg.percentile.toInt ∧ cfg.percentile.toInt ≤ 100 := by
      have h100 : (100 : Int64).toInt = 100 := by decide
      rw [Int64.le_iff_toInt_le, Int64.le_iff_toInt_le, Int64.toInt_zero, h100] at hP
      exact hP
    rw [updateGasPriceAvg_of_received g cfg hb hcb0 hrecv hP' hn, hsamples, if_pos hall]

theorem updateGasPriceAvg_eq_suggestedPrice_reversed :
    let cfg : LastNConfig :=
      { defaultGasPriceWei := 1, maxGasPriceWei := 100, factor := ⟨0x3FF0000000000000⟩,
        ignorePrice := 2, checkBlocks := 2, percentile := 50 }
    let txsByBatch : UInt64 → BatchTxs Unit :=
      fun n => if n = 4 then ⟨some [5, 9, 1], none⟩ else ⟨some [], none⟩
    let arrivals : List (Results Unit) := [⟨[], none⟩, ⟨[5, 9], none⟩]
    (0 ≤ cfg.percentile ∧ cfg.percentile ≤ 100) ∧ cfg.checkBlocks.toInt ≤ 2 ^ 50 ∧
      arrivals.Perm (launch cfg 4 txsByBatch) ∧
      LastNL2BlocksGasPrice.updateGasPriceAvg ⟨3, 1⟩ cfg 4 arrivals =
        if (4 : UInt64) = 3 then .ok none
        else if cfg.checkBlocks < 0 then .error (.panic .makechanSize)
        else
          match suggestedPrice cfg 1 ((sampledBatches cfg.checkBlocks 4).map txsByBatch) with
          | none => .ok none
          | some price => (fun prices => some (⟨4, price⟩, prices)) <$> storeGasPrices cfg.factor price := by
  intro cfg txsByBatch arrivals
  exact ⟨by decide, by decide, by decide,
    updateGasPriceAvg_eq_suggestedPrice ⟨3, 1⟩ cfg 4 txsByBatch (by decide) (by decide) (by decide)⟩

/-- The percentile of non-empty samples is their `k`-th smallest, for
`k = (n - 1) * p / 100`: the only value with at most `k` samples below it and
more than `k` at or below it. -/
theorem percentileOf_eq_some_iff {p : Nat} (hp : p ≤ 100) {samples : Multiset Nat} (hne : samples ≠ 0)
    (v : Nat) :
    percentileOf p samples = some v ↔
      IsKthSmallest samples ((Multiset.card samples - 1) * p / 100) v := by
  have hsorted : (samples.sort (· ≤ ·)).SortedLE := (Multiset.pairwise_sort samples _).sortedLE
  have hkth : ∀ w, percentileOf p samples = some w →
      IsKthSmallest samples ((Multiset.card samples - 1) * p / 100) w := by
    intro w hw
    have := isKthSmallest_of_sorted hsorted hw
    rwa [Multiset.sort_eq] at this
  constructor
  · exact hkth v
  · intro hv
    have hcard : 0 < Multiset.card samples := Multiset.card_pos.mpr hne
    have hk : (Multiset.card samples - 1) * p / 100 < (samples.sort (· ≤ ·)).length := by
      rw [Multiset.length_sort]
      have : (Multiset.card samples - 1) * p ≤ (Multiset.card samples - 1) * 100 := Nat.mul_le_mul_left _ hp
      have := Nat.div_le_of_le_mul (this.trans_eq (Nat.mul_comm _ _))
      omega
    obtain ⟨w, hw⟩ : ∃ w, percentileOf p samples = some w := ⟨_, List.getElem?_eq_getElem hk⟩
    rw [hw, (hkth w hw).unique hv]

/-! ### The prices given to the pool -/

theorem factorAsPercentage_intCast {factor : Binary64} {k : Int} (hf : factor.value = .finite k)
    (hk : |k * 100| < 2 ^ 53) : factorAsPercentage factor = some (Int64.ofInt (k * 100)) := by
  have hcast : (k : ℚ) * 100 = ((k * 100 : Int) : ℚ) := by push_cast; ring
  have hrange : -2 ^ 63 ≤ k * 100 ∧ k * 100 < 2 ^ 63 := by
    rw [abs_lt] at hk
    constructor <;> linarith [hk.1, hk.2]
  simp only [factorAsPercentage, hf, hcast, roundSig_intCast hk, truncate_intCast, if_pos hrange]

/-! ### Runs of the suggester -/

/-- One call of `UpdateGasPriceAvg` from the suggester's timer loop that
updates: the last batch number read, the batches as the state returns them,
and the results in the order the channel delivers them.  A call that returns
`none` leaves the suggester as it is. -/
inductive Step (ε : Type) (cfg : LastNConfig) : LastNL2BlocksGasPrice → LastNL2BlocksGasPrice → Prop
  | update {g g' : LastNL2BlocksGasPrice} {batchNumber : UInt64} {txsByBatch : UInt64 → BatchTxs ε}
      {arrivals : List (Results ε)} {prices : UInt64 × UInt64} :
      arrivals.Perm (launch cfg batchNumber txsByBatch) →
      g.updateGasPriceAvg cfg batchNumber arrivals = .ok (some (g', prices)) → Step ε cfg g g'

/-- The prices the suggester can hold: the default it starts from, the cap, or
one between the ignore price and the cap. -/
def PriceInv (cfg : LastNConfig) (price : Nat) : Prop :=
  price = cfg.defaultGasPriceWei.toNat ∨ price = cfg.maxGasPriceWei.toNat ∨
    (cfg.ignorePrice.toNat ≤ price ∧ price ≤ cfg.maxGasPriceWei.toNat)

theorem pickPercentile_mem {percentile : Int64} {results : List Nat} {price : Nat}
    (h : pickPercentile percentile results = .ok price) : price ∈ results := by
  simp only [pickPercentile] at h
  split at h
  · rename_i hget
    cases h
    split at hget
    · exact List.mem_of_getElem? hget
    · cases hget
  · cases h

/-- What an update that stores a price did: it received every value, picked
the last price or one of the values, and capped it. -/
theorem updateGasPriceAvg_eq_ok_some {ε : Type} {g g' : LastNL2BlocksGasPrice} {cfg : LastNConfig}
    {batchNumber : UInt64} {arrivals : List (Results ε)} {prices : UInt64 × UInt64}
    (h : g.updateGasPriceAvg cfg batchNumber arrivals = .ok (some (g', prices))) :
    ∃ results price, receiveResults g.lastPrice [] arrivals = some results ∧
      (price = g.lastPrice ∨ price ∈ results) ∧
      g' = ⟨batchNumber, if price > cfg.maxGasPriceWei.toNat then cfg.maxGasPriceWei.toNat else price⟩ := by
  simp only [LastNL2BlocksGasPrice.updateGasPriceAvg] at h
  split_ifs at h
  · cases h
  · cases h
  split at h
  · cases h
  rename_i results hrecv
  refine ⟨results, ?_⟩
  split_ifs at h with hpos
  · obtain ⟨price, hpick, h⟩ := Go.except_bind_eq_ok.mp h
    obtain ⟨_, -, h⟩ := Go.except_bind_eq_ok.mp h
    cases h
    exact ⟨price, hrecv, .inr ((List.perm_insertionSort _ _).mem_iff.mp (pickPercentile_mem hpick)), rfl⟩
  · obtain ⟨price, hprice, h⟩ := Go.except_bind_eq_ok.mp h
    cases hprice
    obtain ⟨_, -, h⟩ := Go.except_bind_eq_ok.mp h
    cases h
    exact ⟨g.lastPrice, hrecv, .inl rfl, rfl⟩

/-- With `MaxGasPriceWei = 0`, documented as "ignored if 0", every update
stores a price of `0`. -/
theorem updateGasPriceAvg_of_maxGasPriceWei_zero {ε : Type} {g g' : LastNL2BlocksGasPrice}
    {cfg : LastNConfig} (hmax : cfg.maxGasPriceWei = 0) {batchNumber : UInt64} {arrivals : List (Results ε)}
    {prices : UInt64 × UInt64} (h : g.updateGasPriceAvg cfg batchNumber arrivals = .ok (some (g', prices))) :
    g'.lastPrice = 0 := by
  obtain ⟨_, price, -, -, rfl⟩ := updateGasPriceAvg_eq_ok_some h
  simp only [hmax, UInt64.toNat_zero]
  split_ifs <;> omega

theorem le_of_mem_values_launch {ε : Type} {cfg : LastNConfig} {batchNumber : UInt64}
    {txsByBatch : UInt64 → BatchTxs ε} {r : Results ε} (hr : r ∈ launch cfg batchNumber txsByBatch)
    {v : Nat} (hv : v ∈ r.values) : cfg.ignorePrice.toNat ≤ v := by
  rw [launch_eq] at hr
  obtain ⟨b, -, rfl⟩ := List.mem_map.mp hr
  cases htxs : b.txs with
  | none => simp [getL2BlockTxsTips, htxs] at hv
  | some txs =>
    simp only [getL2BlockTxsTips, htxs, collectTips_sampleNumber] at hv
    exact of_decide_eq_true (List.mem_filter.mp (List.mem_of_mem_take hv)).2

theorem mem_of_receiveResults {ε : Type} {lastPrice : Nat} {arrivals : List (Results ε)}
    {results : List Nat} (h : receiveResults lastPrice [] arrivals = some results) {v : Nat}
    (hv : v ∈ results) : v = lastPrice ∨ ∃ r ∈ arrivals, v ∈ r.values := by
  rw [receiveResults_eq] at h
  split at h
  · cases h
  cases h
  obtain ⟨r, hr, hvr⟩ := List.mem_flatMap.mp (List.nil_append _ ▸ hv)
  simp only [Results.sampled] at hvr
  split at hvr
  · exact .inl (List.mem_singleton.mp hvr)
  · exact .inr ⟨r, hr, hvr⟩

theorem PriceInv.step {ε : Type} {cfg : LastNConfig} {g g' : LastNL2BlocksGasPrice}
    (hinv : PriceInv cfg g.lastPrice) (h : Step ε cfg g g') : PriceInv cfg g'.lastPrice := by
  obtain ⟨harr, hupd⟩ := h
  obtain ⟨results, price, hrecv, hprice, rfl⟩ := updateGasPriceAvg_eq_ok_some hupd
  -- the price picked is the last price, or a tip some goroutine kept
  have hsrc : price = g.lastPrice ∨ cfg.ignorePrice.toNat ≤ price := by
    rcases hprice with rfl | hmem
    · exact .inl rfl
    · rcases mem_of_receiveResults hrecv hmem with rfl | ⟨r, hr, hv⟩
      · exact .inl rfl
      · exact .inr (le_of_mem_values_launch (harr.mem_iff.mp hr) hv)
  dsimp only
  split_ifs with hcap
  · exact .inr (.inl rfl)
  · rcases hsrc with rfl | hig
    · exact hinv
    · exact .inr (.inr ⟨hig, by omega⟩)

/-- **The suggester holds no price below the ignore price but its default and
its cap, and none above the cap but its default**: along every run of updates
from a new suggester, whatever the batches hold and in whatever order the
goroutines' results arrive.  The last price comes back as the sample of a batch
without tips, so this holds of runs and not of one update. -/
theorem priceInv_of_reachable {ε : Type} (cfg : LastNConfig) {g : LastNL2BlocksGasPrice}
    (h : Relation.ReflTransGen (Step ε cfg) (newLastNL2BlocksGasPriceSuggester cfg) g) :
    PriceInv cfg g.lastPrice := by
  induction h with
  | refl => exact .inl rfl
  | tail _ hstep ih => exact ih.step hstep

theorem priceInv_of_reachable_update :
    let cfg : LastNConfig :=
      { defaultGasPriceWei := 1, maxGasPriceWei := 100, factor := ⟨0x3FF0000000000000⟩,
        ignorePrice := 2, checkBlocks := 2, percentile := 50 }
    Relation.ReflTransGen (Step Unit cfg) (newLastNL2BlocksGasPriceSuggester cfg) ⟨4, 5⟩ ∧
      PriceInv cfg 5 := by
  intro cfg
  let txsByBatch : UInt64 → BatchTxs Unit := fun n => if n = 4 then ⟨some [5, 9, 1], none⟩ else ⟨some [], none⟩
  have hbits : cfg.factor.bits.toNat = 4607182418800017408 := rfl
  have hone : cfg.factor.value = .finite ((1 : Int) : ℚ) := by
    rw [Binary64.value, hbits]
    norm_num
  have hstore : storeGasPrices cfg.factor 5 = .ok (5, 0) := by
    rw [storeGasPrices, factorAsPercentage_intCast hone (by norm_num)]
    decide
  let arrivals : List (Results Unit) := [⟨[], none⟩, ⟨[5, 9], none⟩]
  have hrecv : receiveResults (newLastNL2BlocksGasPriceSuggester cfg).lastPrice [] arrivals =
      some [1, 5, 9] := rfl
  have hpct : percentileOf cfg.percentile.toInt.toNat ([1, 5, 9] : List Nat) = some 5 := by
    rw [percentileOf_coe]
    decide
  have hupd : (newLastNL2BlocksGasPriceSuggester cfg).updateGasPriceAvg cfg 4 arrivals =
      .ok (some (⟨4, 5⟩, (5, 0))) := by
    rw [updateGasPriceAvg_of_received _ cfg (by decide) (by decide) hrecv (by decide) (by decide)]
    simp only [hpct, Option.getD_some]
    rw [show min 5 cfg.maxGasPriceWei.toNat = 5 from rfl, hstore]
    rfl
  have hrun : Relation.ReflTransGen (Step Unit cfg) (newLastNL2BlocksGasPriceSuggester cfg) ⟨4, 5⟩ :=
    .single (@Step.update Unit cfg _ _ 4 txsByBatch arrivals _ (by decide) hupd)
  exact ⟨hrun, priceInv_of_reachable cfg hrun⟩

end CdkValidium.Gasprice
