import CdkValidium.State.Helper
import CdkValidium.Sequencer.TxSortedList

/-!
# The byte budget of the work-in-progress batch

The finalizer keeps the resources its work-in-progress batch has left
(`WipBatch.remainingResources`) and asks the worker only for transactions that
fit them.  For every transaction it adds, `checkRemainingResources` subtracts
the transaction's counters and the length of its `RawTx`, and the state keeps
the batch's L2 data, to which `StoreProcessedTxAndDeleteFromPool` appends
`EncodeTransaction(tx, effectivePercentage, forkID)`.  On a restart
`GetWIPBatch` rebuilds the remaining bytes from the stored data.

`RawTx` is the encoding without the percentage byte
(`EncodeTransactionWithoutEffectivePercentage`), while from fork 5 on the stored
data has that byte after every transaction.  So every stored transaction
takes one byte more from the batch than the budget was charged
(`run_remaining_bytes`), and a transaction that exactly fills the budget makes
the stored data one byte longer than `MaxBatchBytesSize`.  A restart after that
computes `MaxBatchBytesSize - len(BatchL2Data)` in `uint64` and wraps
(`getWIPBatch_bytes_of_lt`).
-/

namespace CdkValidium.Sequencer

open State

/-! ### Resources (`state/types.go`, `state/errors.go`) -/

/-- `GetZKCounterError`: the error text `zkCounterErrPrefix + name`. -/
def getZKCounterError (name : String) : String := "ZKCounter: " ++ name

/-- One check of `ZKCounters.Sub`: fail with `err` when `other`'s counter is
above `z`'s. -/
def ZKCounters.check (err : String) (z other : Nat) : Except String Unit :=
  if other > z then .error err else .ok ()

/-- `ZKCounters.Sub`: check every counter, in the source's order, then
subtract them all.  The check of `UsedPoseidonPaddings` has its own text,
without the `ZKCounter: ` prefix. -/
def ZKCounters.sub (z other : ZKCounters) : Except String ZKCounters := do
  check (getZKCounterError "CumulativeGasUsed") z.cumulativeGasUsed other.cumulativeGasUsed
  check (getZKCounterError "UsedKeccakHashes") z.usedKeccakHashes other.usedKeccakHashes
  check (getZKCounterError "UsedPoseidonHashes") z.usedPoseidonHashes other.usedPoseidonHashes
  check "underflow ZKCounter: UsedPoseidonPaddings" z.usedPoseidonPaddings other.usedPoseidonPaddings
  check (getZKCounterError "UsedMemAligns") z.usedMemAligns other.usedMemAligns
  check (getZKCounterError "UsedArithmetics") z.usedArithmetics other.usedArithmetics
  check (getZKCounterError "UsedBinaries") z.usedBinaries other.usedBinaries
  check (getZKCounterError "UsedSteps") z.usedSteps other.usedSteps
  pure ⟨z.cumulativeGasUsed - other.cumulativeGasUsed, z.usedKeccakHashes - other.usedKeccakHashes,
    z.usedPoseidonHashes - other.usedPoseidonHashes, z.usedPoseidonPaddings - other.usedPoseidonPaddings,
    z.usedMemAligns - other.usedMemAligns, z.usedArithmetics - other.usedArithmetics,
    z.usedBinaries - other.usedBinaries, z.usedSteps - other.usedSteps⟩

/-- `state.BatchResources`: counters and bytes. -/
structure BatchResources where
  zkCounters : ZKCounters
  bytes : UInt64
  deriving DecidableEq

/-- `state.BatchRemainingResourcesUnderflowError`. -/
structure BatchRemainingResourcesUnderflowError where
  message : String
  code : Nat
  err : Option String
  resourceName : String
  deriving DecidableEq

def constructErrorMsg (resourceName : String) : String :=
  "underflow of remaining resources for current batch. Resource " ++ resourceName

def newBatchRemainingResourcesUnderflowError (err : Option String) (resourceName : String) :
    BatchRemainingResourcesUnderflowError :=
  ⟨constructErrorMsg resourceName, 1, err, resourceName⟩

def errBatchResourceBytesUnderflow : BatchRemainingResourcesUnderflowError :=
  newBatchRemainingResourcesUnderflowError none "Bytes"

/-- `BatchResources.Sub`: the bytes first, then the counters; on a failure of
the counters the Go method restores the bytes, so no failure changes `r`. -/
def BatchResources.sub (r other : BatchResources) :
    Except BatchRemainingResourcesUnderflowError BatchResources :=
  if other.bytes > r.bytes then .error errBatchResourceBytesUnderflow
  else
    match r.zkCounters.sub other.zkCounters with
    | .error e => .error (newBatchRemainingResourcesUnderflowError (some e) e)
    | .ok z => .ok ⟨z, r.bytes - other.bytes⟩

/-- The limits of `batchConstraints` that make up a batch's resources. -/
structure BatchConstraints where
  maxBatchBytesSize : UInt64
  maxCumulativeGasUsed : Nat
  maxKeccakHashes : Nat
  maxPoseidonHashes : Nat
  maxPoseidonPaddings : Nat
  maxMemAligns : Nat
  maxArithmetics : Nat
  maxBinaries : Nat
  maxSteps : Nat

/-- `getMaxRemainingResources`: every limit, as the resources of an empty batch. -/
def getMaxRemainingResources (constraints : BatchConstraints) : BatchResources :=
  ⟨⟨constraints.maxCumulativeGasUsed, constraints.maxKeccakHashes, constraints.maxPoseidonHashes,
    constraints.maxPoseidonPaddings, constraints.maxMemAligns, constraints.maxArithmetics,
    constraints.maxBinaries, constraints.maxSteps⟩, constraints.maxBatchBytesSize⟩

/-! ### The batch in the finalizer and in the state -/

/-- The fields of the finalizer's `WipBatch` that its resources involve. -/
structure WipBatch where
  remainingResources : BatchResources
  countOfTxs : Nat
  deriving DecidableEq

/-- What the state holds of the work-in-progress batch: the stored transactions
with their percentages, and the batch's L2 data. -/
structure StoredBatch where
  transactions : List LegacyTx
  effectivePercentages : List UInt8
  batchL2Data : List UInt8
  deriving DecidableEq

/-- The finalizer's batch together with the state's copy of it. -/
structure Finalizer where
  batch : WipBatch
  stored : StoredBatch
  deriving DecidableEq

/-- `openWIPBatch` over a batch the state has just opened, with no data yet. -/
def openWIPBatch (constraints : BatchConstraints) : Finalizer :=
  ⟨⟨getMaxRemainingResources constraints, 0⟩, ⟨[], [], []⟩⟩

/-- `checkRemainingResources`: take the transaction's counters and the length
of its `RawTx` from the batch. -/
def checkRemainingResources (batch : WipBatch) (usedZKCounters : ZKCounters) (rawTx : List UInt8) :
    Except BatchRemainingResourcesUnderflowError WipBatch := do
  let r ← batch.remainingResources.sub ⟨usedZKCounters, rawTx.length.toUInt64⟩
  pure { batch with remainingResources := r }

/-- `StoreProcessedTxAndDeleteFromPool` for a transaction of the
work-in-progress batch: store it and append `EncodeTransaction` to the batch's
L2 data.  On an error the state transaction is not committed. -/
def storeProcessedTxAndDeleteFromPool (lib : EthLib) (forkID : UInt64) (stored : StoredBatch)
    (tx : LegacyTx) (effectivePercentage : UInt8) : Except Go.Panic (Except EncodeError StoredBatch) :=
  match encodeTransaction lib tx effectivePercentage forkID with
  | .error p => .error p
  | .ok (.error e) => .ok (.error e)
  | .ok (.ok txData) =>
    .ok (.ok ⟨stored.transactions ++ [tx], stored.effectivePercentages ++ [effectivePercentage],
      stored.batchL2Data ++ txData⟩)

/-- Why a transaction is not added to the batch. -/
inductive ProcessError
  /-- `newTxTracker` could not build its `RawTx`: the transaction never reaches the worker. -/
  | newTxTracker (e : EncodeError)
  /-- `checkRemainingResources` failed: the transaction is skipped. -/
  | resources (e : BatchRemainingResourcesUnderflowError)
  /-- Storing failed: the finalizer halts. -/
  | store (e : EncodeError)
  | panic (p : Go.Panic)

/-- A transaction whose execution changed the state root, from its tracker's
`RawTx` to its storing: `checkRemainingResources`, `countOfTxs++` in
`handleProcessTransactionResponse`, and `StoreProcessedTxAndDeleteFromPool`. -/
def Finalizer.processTx (lib : EthLib) (forkID : UInt64) (f : Finalizer) (tx : LegacyTx)
    (effectivePercentage : UInt8) (usedZKCounters : ZKCounters) : Except ProcessError Finalizer :=
  match encodeTransactionWithoutEffectivePercentage lib tx with
  | .error e => .error (.newTxTracker e)
  | .ok rawTx =>
    match checkRemainingResources f.batch usedZKCounters rawTx with
    | .error e => .error (.resources e)
    | .ok batch =>
      match storeProcessedTxAndDeleteFromPool lib forkID f.stored tx effectivePercentage with
      | .error p => .error (.panic p)
      | .ok (.error e) => .error (.store e)
      | .ok (.ok stored) => .ok ⟨{ batch with countOfTxs := batch.countOfTxs + 1 }, stored⟩

/-- Why `GetWIPBatch` fails. -/
inductive GetWIPBatchError
  | decode (e : DecodeError)
  | zkCounters (e : String)
  | panic (p : Go.Panic)

/-- `GetWIPBatch` for a batch that is not closed, from its stored L2 data and
the counters its re-execution reports: the remaining bytes are
`MaxBatchBytesSize - len(BatchL2Data)` in `uint64`. -/
def getWIPBatch (lib : EthLib) (forkID : UInt64) (constraints : BatchConstraints)
    (batchL2Data : List UInt8) (usedZKCounters : ZKCounters) : Except GetWIPBatchError WipBatch :=
  match decodeTxs lib batchL2Data forkID with
  | .error p => .error (.panic p)
  | .ok decoded =>
    match decoded.err with
    | some e => .error (.decode e)
    | none =>
      if batchL2Data.length > 0 then
        match (getMaxRemainingResources constraints).zkCounters.sub usedZKCounters with
        | .error e => .error (.zkCounters e)
        | .ok zkCounters =>
          .ok ⟨⟨zkCounters, constraints.maxBatchBytesSize - batchL2Data.length.toUInt64⟩,
            decoded.txs.length⟩
      else .ok ⟨getMaxRemainingResources constraints, 0⟩

/-- One step of the finalizer on its batch: a transaction is processed and
stored.  Attempts that fail leave the batch as it was. -/
def Finalizer.Step (lib : EthLib) (forkID : UInt64) (f f' : Finalizer) : Prop :=
  ∃ tx effectivePercentage usedZKCounters, f.processTx lib forkID tx effectivePercentage usedZKCounters = .ok f'

/-! ### Spec lemmas -/

theorem ZKCounters.check_eq_ok {err : String} {z other : Nat} {u : Unit} :
    check err z other = .ok u ↔ other ≤ z := by
  unfold check
  split <;> simp_all

theorem BatchResources.sub_bytes {r other r' : BatchResources} (h : r.sub other = .ok r') :
    other.bytes.toNat ≤ r.bytes.toNat ∧ r'.bytes.toNat + other.bytes.toNat = r.bytes.toNat := by
  unfold sub at h
  split at h
  · cases h
  · rename_i hle
    have hle' : other.bytes.toNat ≤ r.bytes.toNat := by
      rw [gt_iff_lt, UInt64.lt_iff_toNat_lt] at hle
      omega
    split at h
    · cases h
    · cases h
      rw [UInt64.toNat_sub_of_le _ _ (UInt64.le_iff_toNat_le.mpr hle')]
      exact ⟨hle', by omega⟩

theorem checkRemainingResources_bytes {batch batch' : WipBatch} {usedZKCounters : ZKCounters}
    {rawTx : List UInt8} (h : checkRemainingResources batch usedZKCounters rawTx = .ok batch') :
    batch'.remainingResources.bytes.toNat + rawTx.length % 2 ^ 64 = batch.remainingResources.bytes.toNat ∧
      batch'.countOfTxs = batch.countOfTxs := by
  obtain ⟨r, hr, hbatch⟩ := Go.except_bind_eq_ok.mp h
  cases hbatch
  have hbytes := (BatchResources.sub_bytes hr).2
  simp only [Nat.toUInt64_eq, UInt64.toNat_ofNat'] at hbytes
  exact ⟨hbytes, rfl⟩

theorem storeProcessedTxAndDeleteFromPool_eq_ok {lib : EthLib} {forkID : UInt64}
    {stored stored' : StoredBatch} {tx : LegacyTx} {effectivePercentage : UInt8}
    (h : storeProcessedTxAndDeleteFromPool lib forkID stored tx effectivePercentage = .ok (.ok stored')) :
    ∃ txData, encodeTransaction lib tx effectivePercentage forkID = .ok (.ok txData) ∧
      stored' = ⟨stored.transactions ++ [tx], stored.effectivePercentages ++ [effectivePercentage],
        stored.batchL2Data ++ txData⟩ := by
  unfold storeProcessedTxAndDeleteFromPool at h
  split at h
  · cases h
  · cases h
  · rename_i txData henc
    cases h
    exact ⟨txData, henc, rfl⟩

theorem Finalizer.processTx_eq_ok {lib : EthLib} {forkID : UInt64} {f f' : Finalizer}
    {tx : LegacyTx} {effectivePercentage : UInt8} {usedZKCounters : ZKCounters}
    (hfork : forkID5 ≤ forkID) (h : f.processTx lib forkID tx effectivePercentage usedZKCounters = .ok f') :
    ∃ rawTx, prepareRPLTxData lib tx = .ok rawTx ∧ 16 ≤ effectivePercentage.toNat ∧
      f'.batch.remainingResources.bytes.toNat + rawTx.length % 2 ^ 64 =
        f.batch.remainingResources.bytes.toNat ∧
      f'.batch.countOfTxs = f.batch.countOfTxs + 1 ∧
      f'.stored = ⟨f.stored.transactions ++ [tx], f.stored.effectivePercentages ++ [effectivePercentage],
        f.stored.batchL2Data ++ (rawTx ++ [effectivePercentage])⟩ := by
  unfold processTx at h
  split at h
  · cases h
  · rename_i rawTx hraw
    split at h
    · cases h
    · rename_i batch hcheck
      split at h
      · cases h
      · cases h
      · rename_i stored hstore
        cases h
        obtain ⟨txData, henc, rfl⟩ := storeProcessedTxAndDeleteFromPool_eq_ok hstore
        obtain ⟨rawTx', hprep, hep, rfl⟩ := encodeTransaction_eq_ok hfork henc
        -- `RawTx` and the stored encoding start from the same `prepareRPLTxData`
        have hprep' := prepareRPLTxData_of_encodeTransactionWithoutEffectivePercentage hraw
        rw [hprep, Except.ok.injEq] at hprep'
        subst hprep'
        obtain ⟨hbytes, hcount⟩ := checkRemainingResources_bytes hcheck
        exact ⟨rawTx', hprep, hep, hbytes, by rw [hcount], rfl⟩

theorem Finalizer.processTx_of_fits {lib : EthLib} {forkID : UInt64} {f : Finalizer}
    {tx : LegacyTx} {effectivePercentage : UInt8} {usedZKCounters z : ZKCounters}
    {rawTx : List UInt8} (htx : prepareRPLTxData lib tx = .ok rawTx) (hfork : forkID5 ≤ forkID)
    (hep : 16 ≤ effectivePercentage.toNat)
    (hfit : rawTx.length ≤ f.batch.remainingResources.bytes.toNat)
    (hzk : f.batch.remainingResources.zkCounters.sub usedZKCounters = .ok z) :
    f.processTx lib forkID tx effectivePercentage usedZKCounters =
      .ok ⟨⟨⟨z, f.batch.remainingResources.bytes - rawTx.length.toUInt64⟩, f.batch.countOfTxs + 1⟩,
        ⟨f.stored.transactions ++ [tx], f.stored.effectivePercentages ++ [effectivePercentage],
          f.stored.batchL2Data ++ (rawTx ++ [effectivePercentage])⟩⟩ := by
  -- the charged length is the length itself, and it is not above the budget
  have hlt : rawTx.length < 2 ^ 64 :=
    lt_of_le_of_lt hfit (UInt64.toNat_lt _)
  have hcharge : ¬ rawTx.length.toUInt64 > f.batch.remainingResources.bytes := by
    rw [gt_iff_lt, UInt64.lt_iff_toNat_lt, Nat.toUInt64_eq, UInt64.toNat_ofNat', Nat.mod_eq_of_lt hlt]
    omega
  simp [processTx, encodeTransactionWithoutEffectivePercentage_eq htx, checkRemainingResources,
    BatchResources.sub, hcharge, hzk, bind, Except.bind, pure, Except.pure,
    storeProcessedTxAndDeleteFromPool, encodeTransaction_of_ge htx hfork hep]

/-- Every stored transaction takes at least one byte more from the batch than
the budget was charged for it. -/
theorem Finalizer.processTx_bytes_drift {lib : EthLib} {forkID : UInt64} {f f' : Finalizer}
    {tx : LegacyTx} {effectivePercentage : UInt8} {usedZKCounters : ZKCounters}
    (hfork : forkID5 ≤ forkID) (h : f.processTx lib forkID tx effectivePercentage usedZKCounters = .ok f') :
    f.batch.remainingResources.bytes.toNat + f.stored.batchL2Data.length + 1 ≤
      f'.batch.remainingResources.bytes.toNat + f'.stored.batchL2Data.length ∧
      f'.batch.countOfTxs = f.batch.countOfTxs + 1 := by
  obtain ⟨rawTx, -, -, hbytes, hcount, hstored⟩ := processTx_eq_ok hfork h
  have hmod : rawTx.length % 2 ^ 64 ≤ rawTx.length := Nat.mod_le _ _
  rw [hstored]
  simp only [List.length_append, List.length_singleton]
  exact ⟨by omega, hcount⟩

theorem run_remaining_bytes {lib : EthLib} {forkID : UInt64} {constraints : BatchConstraints}
    {f : Finalizer} (hfork : forkID5 ≤ forkID)
    (hrun : Relation.ReflTransGen (Finalizer.Step lib forkID) (openWIPBatch constraints) f) :
    constraints.maxBatchBytesSize.toNat + f.batch.countOfTxs ≤
      f.batch.remainingResources.bytes.toNat + f.stored.batchL2Data.length := by
  induction hrun with
  | refl => simp [openWIPBatch, getMaxRemainingResources]
  | tail _ hstep ih =>
    obtain ⟨tx, effectivePercentage, usedZKCounters, hp⟩ := hstep
    obtain ⟨hdrift, hcount⟩ := Finalizer.processTx_bytes_drift hfork hp
    omega

/-! ### Restarts -/

theorem getWIPBatch_bytes {lib : EthLib} {forkID : UInt64} {constraints : BatchConstraints}
    {batchL2Data : List UInt8} {usedZKCounters : ZKCounters} {batch : WipBatch}
    (h : getWIPBatch lib forkID constraints batchL2Data usedZKCounters = .ok batch)
    (hpos : 0 < batchL2Data.length) :
    batch.remainingResources.bytes = constraints.maxBatchBytesSize - batchL2Data.length.toUInt64 := by
  unfold getWIPBatch at h
  split at h
  · cases h
  · split at h
    · cases h
    · rw [if_pos hpos] at h
      split at h
      · cases h
      · cases h
        rfl

theorem getWIPBatch_bytes_of_le {lib : EthLib} {forkID : UInt64} {constraints : BatchConstraints}
    {batchL2Data : List UInt8} {usedZKCounters : ZKCounters} {batch : WipBatch}
    (h : getWIPBatch lib forkID constraints batchL2Data usedZKCounters = .ok batch)
    (hpos : 0 < batchL2Data.length) (hle : batchL2Data.length ≤ constraints.maxBatchBytesSize.toNat) :
    batch.remainingResources.bytes.toNat + batchL2Data.length = constraints.maxBatchBytesSize.toNat := by
  have hlt : batchL2Data.length < 2 ^ 64 :=
    lt_of_le_of_lt hle (UInt64.toNat_lt _)
  have hcast : batchL2Data.length.toUInt64.toNat = batchL2Data.length := UInt64.toNat_ofNat_of_lt' hlt
  have hle' : batchL2Data.length.toUInt64 ≤ constraints.maxBatchBytesSize := by
    rw [UInt64.le_iff_toNat_le, hcast]
    exact hle
  rw [getWIPBatch_bytes h hpos, UInt64.toNat_sub_of_le _ _ hle', hcast]
  omega

/-- A restart from data longer than `MaxBatchBytesSize` wraps around: the
batch is given nearly `2 ^ 64` bytes. -/
theorem getWIPBatch_bytes_of_lt {lib : EthLib} {forkID : UInt64} {constraints : BatchConstraints}
    {batchL2Data : List UInt8} {usedZKCounters : ZKCounters} {batch : WipBatch}
    (h : getWIPBatch lib forkID constraints batchL2Data usedZKCounters = .ok batch)
    (hlt : constraints.maxBatchBytesSize.toNat < batchL2Data.length) (hlen : batchL2Data.length < 2 ^ 64) :
    batch.remainingResources.bytes.toNat + batchL2Data.length =
      2 ^ 64 + constraints.maxBatchBytesSize.toNat := by
  have hcast : batchL2Data.length.toUInt64.toNat = batchL2Data.length := UInt64.toNat_ofNat_of_lt' hlen
  rw [getWIPBatch_bytes h (by omega), UInt64.toNat_sub, hcast]
  have hmax := UInt64.toNat_lt constraints.maxBatchBytesSize
  rw [Nat.mod_eq_of_lt (by omega)]
  omega

/-- One transaction of 72 bytes in a batch of at most 72 bytes, at fork 5 with
the percentage `255`: it fits, the budget left is `0`, and the stored data is
73 bytes long. -/
theorem run_remaining_bytes_at_limit :
    let constraints : BatchConstraints := ⟨72, 0, 0, 0, 0, 0, 0, 0, 0⟩
    let tx : LegacyTx := ⟨0, 0, 0, none, 0, [], 27, 0, 0⟩
    ∃ f, (openWIPBatch constraints).processTx gethLib 5 tx 255 ⟨0, 0, 0, 0, 0, 0, 0, 0⟩ = .ok f ∧
      f.batch.remainingResources.bytes = 0 ∧ f.batch.countOfTxs = 1 ∧
      constraints.maxBatchBytesSize.toNat + f.batch.countOfTxs ≤
        f.batch.remainingResources.bytes.toNat + f.stored.batchL2Data.length := by
  intro constraints tx
  have htx : prepareRPLTxData gethLib tx =
      .ok ([0xc6, 0x80, 0x80, 0x80, 0x80, 0x80, 0x80] ++ List.replicate 64 0 ++ [27]) := by
    decide +kernel
  have hp := @Finalizer.processTx_of_fits gethLib 5 (openWIPBatch constraints) tx 255
    ⟨0, 0, 0, 0, 0, 0, 0, 0⟩ ⟨0, 0, 0, 0, 0, 0, 0, 0⟩ _ htx (by decide) (by decide) (by decide) rfl
  exact ⟨_, hp, by decide, rfl, @run_remaining_bytes gethLib 5 constraints _ (by decide)
    (.single ⟨tx, 255, _, hp⟩)⟩

end CdkValidium.Sequencer
