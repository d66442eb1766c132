import CdkValidium.Go.Basic

/-!
# The batch table

`state.batch` holds one row per trusted batch, keyed by `batch_num`.  A batch
is open until a state root is written to it.  The table is written by the
genesis (`storeGenesisBatch`, batch `0`), by the sequencer and the
synchronizer, which open batches (`BatchTable.openBatch`, `OpenBatch`) and
close them (`BatchTable.closeBatch`, `CloseBatch`), or store a closed batch in
one go (`BatchTable.processAndStoreClosedBatch`).  A trusted reorg deletes the
batches above a number (`resetTrustedState`), and the sequencer rewrites the
global exit root and the timestamp of the open batch
(`updateGERInOpenBatch`) and the data of a batch (`updateBatchL2Data`).

`OpenBatch` only opens the batch after the last one, only once that one is
closed, and only at a timestamp whose second is not before the last one's;
`CloseBatch` only closes the last batch.  Over every run of the writers
(`Reachable`), the table is then batches `0, 1, …, k` in order, all closed but
perhaps the last, with timestamps that do not go back by a whole second
(`BatchTable.Inv`, `batches_contiguous_of_reachable`).  The run needs one thing
of the environment: `updateGERInOpenBatch` stamps the wall clock without
comparing it to the batch before, so the clock must not read a second earlier
than a closed batch (`Write.clockAhead`).

* `openBatch_earlier_same_second`: the check is on whole seconds, so a batch
  can be opened a fraction of a second before the last one.
* `updateGERInOpenBatch_clock_behind`: a clock behind the last closed batch
  moves the open batch before it.
-/

namespace CdkValidium.State

/-- A `timestamp with time zone` value: microseconds since the Unix epoch. -/
abbrev Timestamp := Int

/-- `t.Unix()`: the whole seconds, rounded down. -/
def unix (t : Timestamp) : Int := t / 1000000

/-- A `common.Hash`, by its bytes. -/
abbrev Hash := List UInt8

/-- A row of `state.batch`, with the columns the modelled functions read.  The
global exit root is written by every writer, so a batch is closed exactly when
its state root is set. -/
structure BatchRow where
  batchNum : UInt64
  globalExitRoot : Hash
  stateRoot : Option Hash
  timestamp : Timestamp
  batchL2Data : List UInt8
  forcedBatchNum : Option UInt64
  deriving DecidableEq, Repr

/-- `global_exit_root IS NOT NULL AND state_root IS NOT NULL`. -/
def BatchRow.closed (r : BatchRow) : Bool := r.stateRoot.isSome

/-- The errors of the batch table's readers and writers. -/
inductive BatchError
  /-- `ErrStateNotSynchronized`: the table is empty, or `GetBatchByNumber`
  found no row of the number. -/
  | stateNotSynchronized
  /-- `pgx.ErrNoRows`, from `IsBatchClosed` on a missing batch. -/
  | noRows
  /-- A second row with a `batch_num` already in the table. -/
  | duplicateKey
  /-- `ErrUnexpectedBatch`, with the number given and the one expected. -/
  | unexpectedBatch (got want : UInt64)
  | lastBatchShouldBeClosed
  | timestampGE
  | batchAlreadyClosed
  /-- `"batch has txs, can't change globalExitRoot"`. -/
  | batchHasTxs
  deriving DecidableEq, Repr

/-- The rows of `state.batch`. -/
abbrev BatchTable := List BatchRow

/-- `ProcessingContext`: what a batch is opened with. -/
structure ProcessingContext where
  batchNumber : UInt64
  globalExitRoot : Hash
  timestamp : Timestamp
  forcedBatchNum : Option UInt64
  batchL2Data : List UInt8
  deriving DecidableEq, Repr

/-- `ProcessingReceipt`: what a batch is closed with. -/
structure ProcessingReceipt where
  batchNumber : UInt64
  stateRoot : Hash
  batchL2Data : List UInt8
  deriving DecidableEq, Repr

namespace PostgresStorage

/-- The row of `ORDER BY batch_num DESC LIMIT 1`. -/
def lastBatch (t : BatchTable) : Option BatchRow :=
  t.foldl (fun acc r => if acc.all (·.batchNum < r.batchNum) then some r else acc) none

def getLastBatchNumber (t : BatchTable) : Except BatchError UInt64 :=
  match lastBatch t with
  | none => .error .stateNotSynchronized
  | some r => .ok r.batchNum

def getLastBatchTime (t : BatchTable) : Except BatchError Timestamp :=
  match lastBatch t with
  | none => .error .stateNotSynchronized
  | some r => .ok r.timestamp

def isBatchClosed (t : BatchTable) (batchNum : UInt64) : Except BatchError Bool :=
  match t.find? (·.batchNum = batchNum) with
  | none => .error .noRows
  | some r => .ok r.closed

def getBatchByNumber (t : BatchTable) (batchNumber : UInt64) : Except BatchError BatchRow :=
  match t.find? (·.batchNum = batchNumber) with
  | none => .error .stateNotSynchronized
  | some r => .ok r

/-- An `INSERT INTO state.batch`, refused on a `batch_num` already there. -/
def insert (t : BatchTable) (row : BatchRow) : Except BatchError BatchTable :=
  if t.any (·.batchNum = row.batchNum) then .error .duplicateKey else .ok (t ++ [row])

/-- `storeGenesisBatch`: batch `0`, closed. -/
def storeGenesisBatch (t : BatchTable) (batchNumber : UInt64) (globalExitRoot stateRoot : Hash)
    (timestamp : Timestamp) (batchL2Data : List UInt8) : Except BatchError BatchTable :=
  if batchNumber ≠ 0 then .error (.unexpectedBatch batchNumber 0)
  else insert t ⟨batchNumber, globalExitRoot, some stateRoot, timestamp, batchL2Data, none⟩

/-- `openBatch`: a row with no state root. -/
def openBatch (t : BatchTable) (batchContext : ProcessingContext) : Except BatchError BatchTable :=
  insert t ⟨batchContext.batchNumber, batchContext.globalExitRoot, none, batchContext.timestamp,
    batchContext.batchL2Data, batchContext.forcedBatchNum⟩

/-- `closeBatch`: the state root and the data of the receipt's batch. -/
def closeBatch (t : BatchTable) (receipt : ProcessingReceipt) : BatchTable :=
  t.map fun r =>
    if r.batchNum = receipt.batchNumber then
      { r with stateRoot := some receipt.stateRoot, batchL2Data := receipt.batchL2Data }
    else r

/-- `ResetTrustedState`: the batches above `batchNumber` are deleted. -/
def resetTrustedState (t : BatchTable) (batchNumber : UInt64) : BatchTable :=
  t.filter (·.batchNum ≤ batchNumber)

/-- `UpdateGERInOpenBatch`, with whether the last batch has L2 blocks and the
wall clock `now`: the last batch gets the global exit root and `now`, if it is
open. -/
def updateGERInOpenBatch (t : BatchTable) (ger : Hash) (now : Timestamp) (isBatchHasTxs : Bool) :
    Except BatchError BatchTable := do
  let batchNumber ← getLastBatchNumber t
  if isBatchHasTxs then throw .batchHasTxs
  return t.map fun r =>
    if r.batchNum = batchNumber ∧ r.stateRoot = none then { r with globalExitRoot := ger, timestamp := now }
    else r

def updateBatchL2Data (t : BatchTable) (batchNumber : UInt64) (batchL2Data : List UInt8) : BatchTable :=
  t.map fun r => if r.batchNum = batchNumber then { r with batchL2Data := batchL2Data } else r

end PostgresStorage

open PostgresStorage

/-- `State.OpenBatch`: the batch after the last one, once that one is closed,
at a second not before its own. -/
def BatchTable.openBatch (t : BatchTable) (processingContext : ProcessingContext) :
    Except BatchError BatchTable := do
  let lastBatchNum ← getLastBatchNumber t
  if lastBatchNum + 1 ≠ processingContext.batchNumber then
    throw (.unexpectedBatch processingContext.batchNumber (lastBatchNum + 1))
  let isLastBatchClosed ← isBatchClosed t lastBatchNum
  if !isLastBatchClosed then throw .lastBatchShouldBeClosed
  let prevTimestamp ← getLastBatchTime t
  if unix prevTimestamp > unix processingContext.timestamp then throw .timestampGE
  PostgresStorage.openBatch t processingContext

/-- `isBatchClosable`: the receipt is for the last batch, and it is open. -/
def BatchTable.isBatchClosable (t : BatchTable) (receipt : ProcessingReceipt) : Except BatchError Unit := do
  let lastBatchNum ← getLastBatchNumber t
  if lastBatchNum ≠ receipt.batchNumber then throw (.unexpectedBatch receipt.batchNumber lastBatchNum)
  let isLastBatchClosed ← isBatchClosed t lastBatchNum
  if isLastBatchClosed then throw .batchAlreadyClosed

/-- `State.CloseBatch`. -/
def BatchTable.closeBatch (t : BatchTable) (receipt : ProcessingReceipt) : Except BatchError BatchTable := do
  t.isBatchClosable receipt
  return PostgresStorage.closeBatch t receipt

/-- The writes of `ProcessAndStoreClosedBatch` to `state.batch`: `OpenBatch`,
then `closeBatch` with the executor's new state root and the encoded
transactions. -/
def BatchTable.processAndStoreClosedBatch (t : BatchTable) (processingCtx : ProcessingContext)
    (encodedTxs : List UInt8) (newStateRoot : Hash) : Except BatchError BatchTable := do
  let t ← t.openBatch processingCtx
  return PostgresStorage.closeBatch t ⟨processingCtx.batchNumber, newStateRoot, encodedTxs⟩

/-! ### The last batch -/

theorem foldl_lastBatch {l : List BatchRow} (hl : l.Pairwise (·.batchNum < ·.batchNum)) :
    ∀ acc : Option BatchRow, (∀ r ∈ l, acc.all (·.batchNum < r.batchNum)) →
      l.foldl (fun acc r => if acc.all (·.batchNum < r.batchNum) then some r else acc) acc =
        l.getLast?.or acc := by
  induction l with
  | nil => intro acc _; rfl
  | cons r l ih =>
    intro acc hacc
    have hr : acc.all (·.batchNum < r.batchNum) := hacc r List.mem_cons_self
    rw [List.foldl_cons, if_pos hr, ih hl.of_cons (some r) fun r' hr' => by
      simpa using List.rel_of_pairwise_cons hl hr']
    cases l with
    | nil => rfl
    | cons r' l =>
      obtain ⟨x, hx⟩ : ∃ x, (r' :: l).getLast? = some x := Option.ne_none_iff_exists'.mp (by simp)
      rw [List.getLast?_cons_cons, hx]
      rfl

/-! ### What the writers keep -/

/-- What the writers of `state.batch` keep: the batches are `0, 1, …` in
order, all but the last closed, and their timestamps do not go back by a whole
second. -/
structure BatchTable.Inv (t : BatchTable) : Prop where
  numbered : ∀ i (h : i < t.length), t[i].batchNum.toNat = i
  closed : ∀ i (h : i + 1 < t.length), t[i].closed = true
  ordered : t.Pairwise fun a b => unix a.timestamp ≤ unix b.timestamp

theorem BatchTable.inv_nil : BatchTable.Inv [] :=
  ⟨fun _ h => absurd h (Nat.not_lt_zero _), fun _ h => absurd h (Nat.not_lt_zero _), List.Pairwise.nil⟩

namespace BatchTable.Inv

variable {t : BatchTable}

theorem batchNum_lt (hinv : t.Inv) : t.Pairwise (·.batchNum < ·.batchNum) := by
  refine List.pairwise_iff_getElem.mpr fun i j hi hj hij => ?_
  rw [UInt64.lt_iff_toNat_lt, hinv.numbered i hi, hinv.numbered j hj]
  exact hij

theorem lastBatch_eq (hinv : t.Inv) : lastBatch t = t.getLast? := by
  rw [lastBatch, foldl_lastBatch hinv.batchNum_lt none (fun _ _ => rfl), Option.or_none]

theorem find?_eq (hinv : t.Inv) (n : UInt64) : t.find? (·.batchNum = n) = t[n.toNat]? := by
  by_cases hn : n.toNat < t.length
  · rw [List.getElem?_eq_getElem hn, List.find?_eq_some_iff_getElem]
    refine ⟨by simp [← UInt64.toNat_inj, hinv.numbered _ hn], n.toNat, hn, rfl, fun j hj => ?_⟩
    have hj' := hinv.numbered j (by omega)
    simp only [Bool.not_eq_true', decide_eq_false_iff_not]
    intro h
    rw [h] at hj'
    omega
  · rw [List.getElem?_eq_none (by omega), List.find?_eq_none]
    intro r hr
    obtain ⟨i, hi, rfl⟩ := List.getElem_of_mem hr
    simp only [decide_eq_true_eq, ← UInt64.toNat_inj, hinv.numbered i hi]
    omega

theorem take (hinv : t.Inv) (k : Nat) : BatchTable.Inv (t.take k) where
  numbered i h := by
    rw [List.getElem_take]
    exact hinv.numbered i (by simp at h; omega)
  closed i h := by
    rw [List.getElem_take]
    exact hinv.closed i (by simp at h; omega)
  ordered := hinv.ordered.sublist (List.take_sublist k t)

theorem map (hinv : t.Inv) {f : BatchRow → BatchRow} (hnum : ∀ r, (f r).batchNum = r.batchNum)
    (hts : ∀ r, (f r).timestamp = r.timestamp) (hclosed : ∀ r, r.closed = true → (f r).closed = true) :
    BatchTable.Inv (t.map f) where
  numbered i h := by
    rw [List.getElem_map, hnum]
    exact hinv.numbered i (by simpa using h)
  closed i h := by
    rw [List.getElem_map]
    exact hclosed _ (hinv.closed i (by simpa using h))
  ordered := List.pairwise_map.mpr (hinv.ordered.imp fun {a b} hab => by rw [hts, hts]; exact hab)

theorem snoc (hinv : t.Inv) {row : BatchRow} (hnum : row.batchNum.toNat = t.length)
    (hclosed : ∀ r ∈ t.getLast?, r.closed = true) (hts : ∀ r ∈ t, unix r.timestamp ≤ unix row.timestamp) :
    BatchTable.Inv (t ++ [row]) where
  numbered i h := by
    rw [List.length_append, List.length_singleton] at h
    rcases Nat.lt_or_ge i t.length with hi | hi
    · rw [List.getElem_append_left hi]
      exact hinv.numbered i hi
    · rw [List.getElem_append_right (by omega)]
      simp only [List.getElem_singleton]
      omega
  closed i h := by
    rw [List.length_append, List.length_singleton] at h
    rw [List.getElem_append_left (by omega)]
    rcases Nat.lt_or_ge (i + 1) t.length with hi | hi
    · exact hinv.closed i hi
    · -- the last row of `t`
      apply hclosed
      rw [Option.mem_def, List.getLast?_eq_getElem?, List.getElem?_eq_getElem (by omega)]
      simp only [Option.some.injEq]
      congr 1
      omega
  ordered := List.pairwise_append.mpr ⟨hinv.ordered, List.pairwise_singleton _ _,
    fun a ha b hb => by rw [List.mem_singleton.mp hb]; exact hts a ha⟩

theorem of_append {pre : BatchTable} {last : BatchRow} (hinv : (pre ++ [last]).Inv) : pre.Inv := by
  simpa using hinv.take pre.length

theorem batchNum_last {pre : BatchTable} {last : BatchRow} (hinv : (pre ++ [last]).Inv) :
    last.batchNum.toNat = pre.length := by
  simpa using hinv.numbered pre.length (by simp)

theorem closed_of_mem_pre {pre : BatchTable} {last : BatchRow} (hinv : (pre ++ [last]).Inv) {r : BatchRow}
    (hr : r ∈ pre) : r.closed = true := by
  obtain ⟨i, hi, rfl⟩ := List.getElem_of_mem hr
  simpa [List.getElem_append_left hi] using hinv.closed i (by simp; omega)

theorem unix_le_last {pre : BatchTable} {last : BatchRow} (hinv : (pre ++ [last]).Inv) {r : BatchRow}
    (hr : r ∈ pre) : unix r.timestamp ≤ unix last.timestamp :=
  (List.pairwise_append.mp hinv.ordered).2.2 r hr last (List.mem_singleton_self last)

theorem batchNum_ne_last {pre : BatchTable} {last : BatchRow} (hinv : (pre ++ [last]).Inv) {r : BatchRow}
    (hr : r ∈ pre) : r.batchNum ≠ last.batchNum := by
  have hlt := UInt64.lt_iff_toNat_lt.mp
    ((List.pairwise_append.mp hinv.batchNum_lt).2.2 r hr last (List.mem_singleton_self last))
  intro h
  rw [h] at hlt
  omega

theorem setLast {pre : BatchTable} {last last' : BatchRow} (hinv : (pre ++ [last]).Inv)
    (hnum : last'.batchNum = last.batchNum) (hts : ∀ r ∈ pre, unix r.timestamp ≤ unix last'.timestamp) :
    (pre ++ [last']).Inv := by
  refine hinv.of_append.snoc (by rw [hnum, hinv.batchNum_last]) (fun r hr => ?_) hts
  exact hinv.closed_of_mem_pre (List.mem_of_getLast? hr)

/-! #### The readers on a table that keeps the invariant -/

theorem getLastBatchNumber_eq (hinv : t.Inv) {n : UInt64} (h : getLastBatchNumber t = .ok n) :
    ∃ pre last, t = pre ++ [last] ∧ last.batchNum = n := by
  rw [getLastBatchNumber, hinv.lastBatch_eq] at h
  split at h
  · cases h
  · rename_i last hlast
    cases h
    obtain ⟨pre, rfl⟩ := List.getLast?_eq_some_iff.mp hlast
    exact ⟨pre, last, rfl, rfl⟩

theorem isBatchClosed_last {pre : BatchTable} {last : BatchRow} (hinv : (pre ++ [last]).Inv) :
    isBatchClosed (pre ++ [last]) last.batchNum = .ok last.closed := by
  rw [isBatchClosed, hinv.find?_eq, hinv.batchNum_last]
  simp

theorem getLastBatchTime_last {pre : BatchTable} {last : BatchRow} (hinv : (pre ++ [last]).Inv) :
    getLastBatchTime (pre ++ [last]) = .ok last.timestamp := by
  rw [getLastBatchTime, hinv.lastBatch_eq]
  simp

end BatchTable.Inv

/-! ### The writers -/

theorem insert_eq_ok {t t' : BatchTable} {row : BatchRow} (h : PostgresStorage.insert t row = .ok t') :
    (∀ r ∈ t, r.batchNum ≠ row.batchNum) ∧ t' = t ++ [row] := by
  unfold PostgresStorage.insert at h
  split at h
  · cases h
  · rename_i hany
    cases h
    exact ⟨fun r hr heq => hany (List.any_eq_true.mpr ⟨r, hr, by simp [heq]⟩), rfl⟩

theorem BatchTable.openBatch_eq_ok {t t' : BatchTable} {processingContext : ProcessingContext}
    (h : t.openBatch processingContext = .ok t') :
    ∃ n, getLastBatchNumber t = .ok n ∧ n + 1 = processingContext.batchNumber ∧
      isBatchClosed t n = .ok true ∧ ∃ prev, getLastBatchTime t = .ok prev ∧
        unix prev ≤ unix processingContext.timestamp ∧ PostgresStorage.openBatch t processingContext = .ok t' := by
  simp only [BatchTable.openBatch] at h
  obtain ⟨n, hn, h⟩ := Go.except_bind_eq_ok.mp h
  split_ifs at h with hne
  · cases h
  obtain ⟨closed, hclosed, h⟩ := Go.except_bind_eq_ok.mp h
  split_ifs at h with hc
  · cases h
  obtain ⟨prev, hprev, h⟩ := Go.except_bind_eq_ok.mp h
  split_ifs at h with hts
  · cases h
  refine ⟨n, hn, not_not.mp hne, ?_, prev, hprev, not_lt.mp hts, h⟩
  simpa using hclosed.trans (congrArg Except.ok (by simpa using hc))

namespace BatchTable.Inv

variable {t t' : BatchTable}

theorem openBatch (hinv : t.Inv) {processingContext : ProcessingContext}
    (h : t.openBatch processingContext = .ok t') : t'.Inv := by
  obtain ⟨n, hn, hsucc, hclosed, prev, hprev, hts, hins⟩ := BatchTable.openBatch_eq_ok h
  obtain ⟨pre, last, rfl, rfl⟩ := hinv.getLastBatchNumber_eq hn
  rw [hinv.isBatchClosed_last] at hclosed
  rw [hinv.getLastBatchTime_last] at hprev
  cases hprev
  obtain ⟨hfresh, rfl⟩ := insert_eq_ok hins
  have hlast := hinv.batchNum_last
  refine hinv.snoc ?_ (fun r hr => ?_) (fun r hr => ?_)
  · -- the next number does not wrap: batch `0` is in the table
    show processingContext.batchNumber.toNat = (pre ++ [last]).length
    have hadd := UInt64.toNat_add last.batchNum 1
    rw [UInt64.toNat_one, hsucc] at hadd
    have hbound := UInt64.toNat_lt last.batchNum
    have hne := hfresh _ (List.getElem_mem (l := pre ++ [last]) (n := 0) (by simp))
    have hzero := hinv.numbered 0 (by simp)
    rw [List.length_append, List.length_singleton]
    by_contra hwrap
    apply hne
    show _ = processingContext.batchNumber
    rw [← UInt64.toNat_inj, hzero]
    omega
  · simp only [List.getLast?_append, List.getLast?_singleton, Option.some_or, Option.mem_def,
      Option.some.injEq] at hr
    rw [← hr]
    exact Except.ok.inj hclosed
  · rcases List.mem_append.mp hr with hpre | hl
    · exact (hinv.unix_le_last hpre).trans hts
    · rw [List.mem_singleton.mp hl]
      exact hts

theorem closeBatch_storage (hinv : t.Inv) (receipt : ProcessingReceipt) :
    BatchTable.Inv (PostgresStorage.closeBatch t receipt) :=
  hinv.map (fun r => by split <;> rfl) (fun r => by split <;> rfl)
    (fun r hr => by split <;> simp_all [BatchRow.closed])

theorem closeBatch (hinv : t.Inv) {receipt : ProcessingReceipt} (h : t.closeBatch receipt = .ok t') :
    t'.Inv := by
  simp only [BatchTable.closeBatch] at h
  obtain ⟨_, -, h⟩ := Go.except_bind_eq_ok.mp h
  cases h
  exact hinv.closeBatch_storage receipt

theorem processAndStoreClosedBatch (hinv : t.Inv) {processingCtx : ProcessingContext} {encodedTxs : List UInt8}
    {newStateRoot : Hash} (h : t.processAndStoreClosedBatch processingCtx encodedTxs newStateRoot = .ok t') :
    t'.Inv := by
  simp only [BatchTable.processAndStoreClosedBatch] at h
  obtain ⟨t₁, h₁, h⟩ := Go.except_bind_eq_ok.mp h
  cases h
  exact (hinv.openBatch h₁).closeBatch_storage _

theorem updateBatchL2Data (hinv : t.Inv) (batchNumber : UInt64) (batchL2Data : List UInt8) :
    BatchTable.Inv (PostgresStorage.updateBatchL2Data t batchNumber batchL2Data) :=
  hinv.map (fun r => by split <;> rfl) (fun r => by split <;> rfl) (fun r hr => by split <;> exact hr)

theorem filter_batchNum_le (hinv : t.Inv) (n : UInt64) :
    t.filter (·.batchNum ≤ n) = t.take (n.toNat + 1) := by
  conv_lhs => rw [← List.take_append_drop (n.toNat + 1) t]
  rw [List.filter_append, List.filter_eq_self.mpr, List.filter_eq_nil_iff.mpr, List.append_nil]
  · intro r hr
    obtain ⟨j, hj, rfl⟩ := List.mem_drop_iff_getElem.mp hr
    have := hinv.numbered (n.toNat + 1 + j) (by omega)
    simp only [decide_eq_true_eq, UInt64.le_iff_toNat_le, this]
    omega
  · intro r hr
    obtain ⟨j, hj, rfl⟩ := List.mem_take_iff_getElem.mp hr
    have := hinv.numbered j (by omega)
    simp only [decide_eq_true_eq, UInt64.le_iff_toNat_le, this]
    omega

theorem resetTrustedState (hinv : t.Inv) (batchNumber : UInt64) :
    BatchTable.Inv (PostgresStorage.resetTrustedState t batchNumber) := by
  rw [PostgresStorage.resetTrustedState, hinv.filter_batchNum_le]
  exact hinv.take _

theorem storeGenesisBatch (hinv : t.Inv) {batchNumber : UInt64} {globalExitRoot stateRoot : Hash}
    {timestamp : Timestamp} {batchL2Data : List UInt8}
    (h : PostgresStorage.storeGenesisBatch t batchNumber globalExitRoot stateRoot timestamp batchL2Data = .ok t') :
    t'.Inv := by
  unfold PostgresStorage.storeGenesisBatch at h
  split_ifs at h with hn
  obtain ⟨hfresh, rfl⟩ := insert_eq_ok h
  -- a batch `0` already in the table would clash
  cases t with
  | nil => exact BatchTable.inv_nil.snoc (by simp [not_not.mp hn]) (by simp) (by simp)
  | cons r t =>
    exfalso
    apply hfresh r List.mem_cons_self
    have := hinv.numbered 0 (by simp)
    rw [← UInt64.toNat_inj, not_not.mp hn]
    simpa using this

theorem updateGERInOpenBatch (hinv : t.Inv) {ger : Hash} {now : Timestamp} {isBatchHasTxs : Bool}
    (hclock : ∀ r ∈ t, r.closed = true → unix r.timestamp ≤ unix now)
    (h : PostgresStorage.updateGERInOpenBatch t ger now isBatchHasTxs = .ok t') : t'.Inv := by
  simp only [PostgresStorage.updateGERInOpenBatch] at h
  obtain ⟨n, hn, h⟩ := Go.except_bind_eq_ok.mp h
  split_ifs at h
  · cases h
  cases h
  obtain ⟨pre, last, rfl, rfl⟩ := hinv.getLastBatchNumber_eq hn
  have hpre : ∀ r ∈ pre, (if r.batchNum = last.batchNum ∧ r.stateRoot = none then
      { r with globalExitRoot := ger, timestamp := now } else r) = r :=
    fun r hr => if_neg fun hc => hinv.batchNum_ne_last hr hc.1
  rw [List.map_append, List.map_congr_left hpre, List.map_id', List.map_singleton]
  refine hinv.setLast (by split <;> rfl) fun r hr => ?_
  split
  · exact hclock r (List.mem_append_left _ hr) (hinv.closed_of_mem_pre hr)
  · exact hinv.unix_le_last hr

end BatchTable.Inv

/-! ### Runs of the writers -/

/-- A write to `state.batch` by one of its writers. -/
inductive Write
  | storeGenesisBatch (batchNumber : UInt64) (globalExitRoot stateRoot : Hash) (timestamp : Timestamp)
      (batchL2Data : List UInt8)
  | openBatch (processingContext : ProcessingContext)
  | closeBatch (receipt : ProcessingReceipt)
  | processAndStoreClosedBatch (processingCtx : ProcessingContext) (encodedTxs : List UInt8) (newStateRoot : Hash)
  | resetTrustedState (batchNumber : UInt64)
  | updateGERInOpenBatch (ger : Hash) (now : Timestamp) (isBatchHasTxs : Bool)
  | updateBatchL2Data (batchNumber : UInt64) (batchL2Data : List UInt8)

/-- The table after a write, or the writer's error. -/
def BatchTable.write (t : BatchTable) : Write → Except BatchError BatchTable
  | .storeGenesisBatch batchNumber globalExitRoot stateRoot timestamp batchL2Data =>
    PostgresStorage.storeGenesisBatch t batchNumber globalExitRoot stateRoot timestamp batchL2Data
  | .openBatch processingContext => t.openBatch processingContext
  | .closeBatch receipt => t.closeBatch receipt
  | .processAndStoreClosedBatch processingCtx encodedTxs newStateRoot =>
    t.processAndStoreClosedBatch processingCtx encodedTxs newStateRoot
  | .resetTrustedState batchNumber => .ok (PostgresStorage.resetTrustedState t batchNumber)
  | .updateGERInOpenBatch ger now isBatchHasTxs => PostgresStorage.updateGERInOpenBatch t ger now isBatchHasTxs
  | .updateBatchL2Data batchNumber batchL2Data => .ok (PostgresStorage.updateBatchL2Data t batchNumber batchL2Data)

/-- The environment's part of a write: the wall clock that
`updateGERInOpenBatch` reads is not a second behind a closed batch. -/
def Write.clockAhead (t : BatchTable) : Write → Prop
  | .updateGERInOpenBatch _ now _ => ∀ r ∈ t, r.closed = true → unix r.timestamp ≤ unix now
  | _ => True

/-- The tables the writers can leave, from an empty one, each write either
done whole or rolled back. -/
inductive Reachable : BatchTable → Prop
  | empty : Reachable []
  | write {t t' : BatchTable} (w : Write) : Reachable t → w.clockAhead t → t.write w = .ok t' → Reachable t'

theorem BatchTable.Inv.write {t t' : BatchTable} (hinv : t.Inv) {w : Write} (hclock : w.clockAhead t)
    (h : t.write w = .ok t') : t'.Inv := by
  cases w with
  | storeGenesisBatch => exact hinv.storeGenesisBatch h
  | openBatch => exact hinv.openBatch h
  | closeBatch => exact hinv.closeBatch h
  | processAndStoreClosedBatch => exact hinv.processAndStoreClosedBatch h
  | resetTrustedState batchNumber =>
    cases h
    exact hinv.resetTrustedState batchNumber
  | updateGERInOpenBatch => exact hinv.updateGERInOpenBatch hclock h
  | updateBatchL2Data batchNumber batchL2Data =>
    cases h
    exact hinv.updateBatchL2Data batchNumber batchL2Data

/-- The run lemma: every table the writers reach has the invariant. -/
theorem Reachable.inv {t : BatchTable} (h : Reachable t) : t.Inv := by
  induction h with
  | empty => exact BatchTable.inv_nil
  | write w _ hclock hw ih => exact ih.write hclock hw

/-- **The batch table stays a chain**: along every run of its writers, the
batches are `0, 1, …, k` in order, all closed but perhaps the last, and no
batch's timestamp is a second before an earlier batch's. -/
theorem batches_contiguous_of_reachable {t : BatchTable} (h : Reachable t) :
    (∀ i (h : i < t.length), t[i].batchNum.toNat = i) ∧
      (∀ i (h : i + 1 < t.length), t[i].closed = true) ∧
      t.Pairwise fun a b => unix a.timestamp ≤ unix b.timestamp :=
  ⟨h.inv.numbered, h.inv.closed, h.inv.ordered⟩

theorem reachable_sameSecond :
    Reachable [⟨0, [], some [1], 1000000, [], none⟩, ⟨1, [], some [2], 1500000, [7], none⟩,
      ⟨2, [], none, 1200000, [], none⟩] := by
  have h0 : Reachable [⟨0, [], some [1], 1000000, [], none⟩] :=
    .write (.storeGenesisBatch 0 [] [1] 1000000 []) .empty trivial rfl
  have h1 : Reachable [⟨0, [], some [1], 1000000, [], none⟩, ⟨1, [], none, 1500000, [], none⟩] :=
    .write (.openBatch ⟨1, [], 1500000, none, []⟩) h0 trivial rfl
  have h2 : Reachable [⟨0, [], some [1], 1000000, [], none⟩, ⟨1, [], some [2], 1500000, [7], none⟩] :=
    .write (.closeBatch ⟨1, [2], [7]⟩) h1 trivial rfl
  exact .write (.openBatch ⟨2, [], 1200000, none, []⟩) h2 trivial rfl

theorem batches_contiguous_of_reachable_sameSecond :
    Reachable [⟨0, [], some [1], 1000000, [], none⟩, ⟨1, [], some [2], 1500000, [7], none⟩,
      ⟨2, [], none, 1200000, [], none⟩] ∧
    let t : BatchTable := [⟨0, [], some [1], 1000000, [], none⟩, ⟨1, [], some [2], 1500000, [7], none⟩,
      ⟨2, [], none, 1200000, [], none⟩]
    (∀ i (h : i < t.length), t[i].batchNum.toNat = i) ∧ (∀ i (h : i + 1 < t.length), t[i].closed = true) ∧
      t.Pairwise fun a b => unix a.timestamp ≤ unix b.timestamp :=
  ⟨reachable_sameSecond, batches_contiguous_of_reachable reachable_sameSecond⟩

/-- `OpenBatch` compares whole seconds: batch `2` is opened three tenths of a
second before batch `1`. -/
theorem openBatch_earlier_same_second :
    ∃ t : BatchTable, Reachable t ∧ ∃ a ∈ t, ∃ b ∈ t, a.batchNum < b.batchNum ∧ b.timestamp < a.timestamp :=
  ⟨_, reachable_sameSecond, ⟨1, [], some [2], 1500000, [7], none⟩, by simp,
    ⟨2, [], none, 1200000, [], none⟩, by simp, by decide, by decide⟩

/-- Without `Write.clockAhead`, a clock five seconds behind the closed genesis
stamps the open batch before it, and the table leaves the invariant. -/
theorem updateGERInOpenBatch_clock_behind :
    ∃ t t' : BatchTable, Reachable t ∧ t.write (.updateGERInOpenBatch [] 0 false) = .ok t' ∧ ¬ t'.Inv := by
  have h0 : Reachable [⟨0, [], some [1], 5000000, [], none⟩] :=
    .write (.storeGenesisBatch 0 [] [1] 5000000 []) .empty trivial rfl
  have h1 : Reachable [⟨0, [], some [1], 5000000, [], none⟩, ⟨1, [], none, 5000000, [], none⟩] :=
    .write (.openBatch ⟨1, [], 5000000, none, []⟩) h0 trivial rfl
  refine ⟨_, [⟨0, [], some [1], 5000000, [], none⟩, ⟨1, [], none, 0, [], none⟩], h1, rfl, fun hinv => ?_⟩
  have hord := hinv.ordered
  revert hord
  decide

end CdkValidium.State
