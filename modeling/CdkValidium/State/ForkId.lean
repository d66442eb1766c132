import CdkValidium.Go.Basic

/-!
# Fork ID intervals

The state keeps the fork ID intervals twice: in the table `state.fork_id` and
in memory (`cfg.ForkIDIntervals`), which every encoding, decoding and executor
call reads through `GetForkIDByBatchNumber`.  `AddForkIDInterval`
(`state/forkid.go`) reads the table, closes the last interval before the new
one starts, replaces the memory copy, and only then inserts the new row.  When
the insert fails, `processForkID` (`synchronizer/synchronizer.go`) rolls the
database transaction back, but the memory copy keeps the new intervals
(`addForkIDInterval_insert_error`, `processForkID_insert_error`).

On success the intervals stay contiguous (`contiguous_addedIntervals`), and
`GetForkIDByBatchNumber` then returns the fork of the one interval that holds
a batch (`getForkIDByBatchNumber_of_contains`, `exists_contains`).
`Client.GetForks` (`etherman/etherman.go`) builds contiguous intervals from
the `UpdateZkEVMVersion` events when their batch numbers go up and stay below
`2^64 - 1` (`getForks_contiguous`); at `2^64 - 1` the next batch number wraps
to `0` (`getForks_max_numBatch`).
-/

namespace CdkValidium

namespace State

/-- `state.ForkIDInterval`. -/
structure ForkIDInterval where
  fromBatchNumber : UInt64
  toBatchNumber : UInt64
  forkId : UInt64
  version : String
  blockNumber : UInt64
  deriving DecidableEq, Repr

/-- The fork part of the state configuration. -/
structure ForkConfig where
  forkIDIntervals : List ForkIDInterval
  forkUpgradeBatchNumber : UInt64
  forkUpgradeNewForkId : UInt64

/-- `batchNumber >= interval.FromBatchNumber && batchNumber <= interval.ToBatchNumber`. -/
def ForkIDInterval.contains (interval : ForkIDInterval) (batchNumber : UInt64) : Bool :=
  decide (batchNumber ≥ interval.fromBatchNumber) && decide (batchNumber ≤ interval.toBatchNumber)

/-- `GetForkIDByBatchNumber`: the upgrade fork past the upgrade batch, else
the first interval that holds the batch, else the last interval (an index
panic when there is none). -/
def getForkIDByBatchNumber (cfg : ForkConfig) (batchNumber : UInt64) : Except Go.Panic UInt64 :=
  if cfg.forkUpgradeBatchNumber ≠ 0 ∧ batchNumber > cfg.forkUpgradeBatchNumber then .ok cfg.forkUpgradeNewForkId
  else
    match cfg.forkIDIntervals.find? (·.contains batchNumber) with
    | some interval => .ok interval.forkId
    | none =>
      match cfg.forkIDIntervals.getLast? with
      | some last => .ok last.forkId
      | none => .error .indexOutOfRange

/-- The three statements `AddForkIDInterval` runs in the database
transaction: `GetForkIDs` reads the table `ORDER BY from_batch_num ASC`. -/
structure ForkIDDb where
  getForkIDs : Except String (List ForkIDInterval)
  getForkIDs_ordered : ∀ rows, getForkIDs = .ok rows → rows.Pairwise fun a b => a.fromBatchNumber ≤ b.fromBatchNumber
  updateForkID : ForkIDInterval → Except String Unit
  addForkID : ForkIDInterval → Except String Unit

/-- The error of the fork ID sequence check. -/
def errForkIDSequence (last new : UInt64) : String :=
  "error checking forkID sequence. Last ForkID stored: " ++ toString last ++ ". New ForkID received: " ++ toString new

/-- `AddForkIDInterval`: the memory intervals after the call and its result.
The memory is replaced (`UpdateForkIDIntervalsInMemory`) before `AddForkID`. -/
def addForkIDInterval (db : ForkIDDb) (forkIDIntervals : List ForkIDInterval) (newForkID : ForkIDInterval) :
    List ForkIDInterval × Except String Unit :=
  match db.getForkIDs with
  | .error err => (forkIDIntervals, .error err)
  | .ok oldForkIDs =>
    let updated : Except String (List ForkIDInterval) :=
      match oldForkIDs.getLast? with
      | none => .ok [newForkID]
      | some last =>
        if last.forkId + 1 ≠ newForkID.forkId then .error (errForkIDSequence last.forkId newForkID.forkId)
        else
          let forkIDs := oldForkIDs.modify (oldForkIDs.length - 1)
            fun interval => { interval with toBatchNumber := newForkID.fromBatchNumber - 1 }
          match db.updateForkID { last with toBatchNumber := newForkID.fromBatchNumber - 1 } with
          | .error err => .error err
          | .ok () => .ok (forkIDs ++ [newForkID])
    match updated with
    | .error err => (forkIDIntervals, .error err)
    | .ok forkIDs => (forkIDs, db.addForkID newForkID)

/-- `etherman.ForkID`: an `UpdateZkEVMVersion` event as the synchronizer
receives it. -/
structure ForkID where
  batchNumber : UInt64
  forkID : UInt64
  version : String
  deriving DecidableEq, Repr

/-- The errors of `GetLastBatchNumber`. -/
inductive LastBatchError
  | stateNotSynchronized
  | other (err : String)
  deriving DecidableEq, Repr

/-- What `processForkID` reads and calls besides the fork table. -/
structure ForkIDEnv where
  db : ForkIDDb
  lastBatchNumber : Except LastBatchError UInt64
  isTrustedSequencer : Bool
  forkIDTrustedReorgCount : Except String UInt64
  resetForkID : Except String Unit
  commit : Except String Unit
  rollback : Except String Unit

/-- How `processForkID` leaves the database transaction. -/
inductive TxEnd
  | open
  | committed
  | rolledBack
  deriving DecidableEq, Repr

/-- The error `processForkID` returns after a reset, to force a resync. -/
def errNewForkID : String := "new ForkID detected, reseting synchronizarion"

/-- `processForkID`: the memory intervals after it, how it leaves the
transaction, and its result.  Every failure rolls back and returns the
rollback's error if there is one. -/
def processForkID (env : ForkIDEnv) (forkIDIntervals : List ForkIDInterval) (forkID : ForkID) (blockNumber : UInt64) :
    List ForkIDInterval × TxEnd × Except String Unit :=
  let fID : ForkIDInterval := ⟨forkID.batchNumber + 1, 18446744073709551615, forkID.forkID, forkID.version, blockNumber⟩
  let fail (forkIDIntervals : List ForkIDInterval) (err : String) : List ForkIDInterval × TxEnd × Except String Unit :=
    match env.rollback with
    | .error rollbackErr => (forkIDIntervals, .rolledBack, .error rollbackErr)
    | .ok () => (forkIDIntervals, .rolledBack, .error err)
  match env.lastBatchNumber with
  | .error (.other err) => fail forkIDIntervals err
  | lastBatchNumber =>
    let latestBatchNumber := match lastBatchNumber with
      | .ok n => n
      | .error _ => 0
    if latestBatchNumber ≤ forkID.batchNumber ∨ env.isTrustedSequencer = true then
      match addForkIDInterval env.db forkIDIntervals fID with
      | (forkIDIntervals, .error err) => fail forkIDIntervals err
      | (forkIDIntervals, .ok ()) => (forkIDIntervals, .open, .ok ())
    else
      match env.forkIDTrustedReorgCount with
      | .error err => fail forkIDIntervals err
      | .ok count =>
        if count > 0 then (forkIDIntervals, .open, .ok ())
        else
          match env.resetForkID with
          | .error err => fail forkIDIntervals err
          | .ok () =>
            match addForkIDInterval env.db forkIDIntervals fID with
            | (forkIDIntervals, .error err) => fail forkIDIntervals err
            | (forkIDIntervals, .ok ()) =>
              match env.commit with
              | .error err => fail forkIDIntervals err
              | .ok () => (forkIDIntervals, .committed, .error errNewForkID)

/-- The fields of an `UpdateZkEVMVersion` log that `GetForks` reads. -/
structure UpdateZkEVMVersion where
  numBatch : UInt64
  forkID : UInt64
  version : String
  deriving DecidableEq, Repr

/-- The second loop of `GetForks` from log `i` on: each parsed log closes the
previous interval at its batch and opens a new one after it. -/
def getForksLoop : Nat → List (Except String UpdateZkEVMVersion × UInt64) → List ForkIDInterval →
    Except String (List ForkIDInterval)
  | _, [], forks => .ok forks
  | i, (parsed, blockNumber) :: logs, forks =>
    match parsed with
    | .error err => .error err
    | .ok zkevmVersion =>
      let forks := if i = 0 then forks
        else forks.modify (forks.length - 1) fun fork => { fork with toBatchNumber := zkevmVersion.numBatch }
      let fork : ForkIDInterval :=
        ⟨zkevmVersion.numBatch + 1, 18446744073709551615, zkevmVersion.forkID, zkevmVersion.version, blockNumber⟩
      getForksLoop (i + 1) logs (forks ++ [fork])

/-- `GetForks` over the logs the queries returned, each with its parse and its
block number. -/
def getForks (logs : List (Except String UpdateZkEVMVersion × UInt64)) : Except String (List ForkIDInterval) :=
  getForksLoop 0 logs []

/-! ### Contiguous intervals -/

/-- `i` ends right before `j` starts, counted without wrap. -/
def Adjacent (i j : ForkIDInterval) : Prop := i.toBatchNumber.toNat + 1 = j.fromBatchNumber.toNat

/-- Intervals in the order of their first batch, each ending right before the
next one starts. -/
structure Contiguous (l : List ForkIDInterval) : Prop where
  ordered : l.Pairwise fun a b => a.fromBatchNumber ≤ b.fromBatchNumber
  adjacent : l.IsChain Adjacent

/-- The intervals `AddForkIDInterval` puts in memory: the stored ones with the
last closed right before the new one starts, then the new one. -/
def addedIntervals (old : List ForkIDInterval) (newForkID : ForkIDInterval) : List ForkIDInterval :=
  match old.getLast? with
  | none => [newForkID]
  | some last => old.dropLast ++ [{ last with toBatchNumber := newForkID.fromBatchNumber - 1 }, newForkID]

theorem contains_iff {i : ForkIDInterval} {b : UInt64} :
    i.contains b = true ↔ i.fromBatchNumber.toNat ≤ b.toNat ∧ b.toNat ≤ i.toBatchNumber.toNat := by
  simp [ForkIDInterval.contains, UInt64.le_iff_toNat_le]

theorem Contiguous.tail {i : ForkIDInterval} {l : List ForkIDInterval} (h : Contiguous (i :: l)) : Contiguous l :=
  ⟨(List.pairwise_cons.mp h.ordered).2, h.adjacent.tail⟩

theorem Contiguous.not_contains_of_head {i : ForkIDInterval} {l : List ForkIDInterval} (h : Contiguous (i :: l))
    {b : UInt64} (hi : i.contains b = true) : ∀ J ∈ l, J.contains b = false := by
  intro J hJ
  cases l with
  | nil => cases hJ
  | cons j rest =>
    have hadj : Adjacent i j := (List.isChain_cons_cons.mp h.adjacent).1
    have hjJ : j.fromBatchNumber.toNat ≤ J.fromBatchNumber.toNat := by
      rcases List.mem_cons.mp hJ with rfl | hJ
      · exact le_rfl
      · exact UInt64.le_iff_toNat_le.mp (List.rel_of_pairwise_cons h.tail.ordered hJ)
    rw [contains_iff] at hi
    rw [Adjacent] at hadj
    cases hc : J.contains b with
    | false => rfl
    | true =>
      rw [contains_iff] at hc
      omega

theorem find?_contains {l : List ForkIDInterval} (h : Contiguous l) {b : UInt64} {J : ForkIDInterval}
    (hJ : J ∈ l) (hb : J.contains b = true) : l.find? (·.contains b) = some J := by
  induction l with
  | nil => cases hJ
  | cons i l ih =>
    rw [List.find?_cons]
    cases hi : i.contains b with
    | true =>
      rcases List.mem_cons.mp hJ with rfl | hJ
      · rfl
      · have := h.not_contains_of_head hi J hJ
        rw [hb] at this
        cases this
    | false =>
      have hJl : J ∈ l := by
        rcases List.mem_cons.mp hJ with rfl | hJ
        · rw [hb] at hi
          cases hi
        · exact hJ
      exact ih h.tail hJl

/-- **The fork of a batch.**  With no upgrade batch set and contiguous
intervals, `GetForkIDByBatchNumber` returns the fork of any interval that holds
the batch. -/
theorem getForkIDByBatchNumber_of_contains {cfg : ForkConfig} (hup : cfg.forkUpgradeBatchNumber = 0)
    (h : Contiguous cfg.forkIDIntervals) {b : UInt64} {J : ForkIDInterval} (hJ : J ∈ cfg.forkIDIntervals)
    (hb : J.contains b = true) : getForkIDByBatchNumber cfg b = .ok J.forkId := by
  rw [getForkIDByBatchNumber, if_neg (by rw [hup]; exact fun h => h.1 rfl), find?_contains h hJ hb]

theorem exists_contains {l : List ForkIDInterval} (h : Contiguous l) {first last : ForkIDInterval}
    (hfirst : l.head? = some first) (hlast : l.getLast? = some last) (hmax : last.toBatchNumber = 18446744073709551615)
    {b : UInt64} (hb : first.fromBatchNumber ≤ b) : ∃ J ∈ l, J.contains b = true := by
  induction l generalizing first with
  | nil => cases hfirst
  | cons i l ih =>
    obtain rfl : i = first := Option.some.inj hfirst
    by_cases hle : b.toNat ≤ i.toBatchNumber.toNat
    · exact ⟨i, List.mem_cons_self, contains_iff.mpr ⟨UInt64.le_iff_toNat_le.mp hb, hle⟩⟩
    · cases l with
      | nil =>
        obtain rfl : i = last := by simpa using hlast
        have := b.toNat_lt
        rw [hmax] at hle
        simp at hle
        omega
      | cons j rest =>
        have hadj : Adjacent i j := (List.isChain_cons_cons.mp h.adjacent).1
        rw [Adjacent] at hadj
        obtain ⟨J, hJ, hbJ⟩ := ih h.tail rfl (by simpa using hlast) (UInt64.le_iff_toNat_le.mpr (by omega))
        exact ⟨J, List.mem_cons_of_mem _ hJ, hbJ⟩

/-! ### `AddForkIDInterval` -/

theorem modify_concat_length {α : Type} (init : List α) (x : α) (f : α → α) :
    (init ++ [x]).modify init.length f = init ++ [f x] := by
  induction init with
  | nil => rfl
  | cons a init ih =>
    rw [List.cons_append, List.length_cons, List.modify_succ_cons, ih, List.cons_append]

theorem addedIntervals_concat (init : List ForkIDInterval) (last newForkID : ForkIDInterval) :
    addedIntervals (init ++ [last]) newForkID =
      init ++ [{ last with toBatchNumber := newForkID.fromBatchNumber - 1 }, newForkID] := by
  rw [addedIntervals, List.getLast?_concat, List.dropLast_concat]

theorem contiguous_singleton (i : ForkIDInterval) : Contiguous [i] :=
  ⟨List.pairwise_singleton _ _, List.IsChain.singleton _⟩

theorem Contiguous.close_append {init : List ForkIDInterval} {last new : ForkIDInterval} {toBatch : UInt64}
    (h : Contiguous (init ++ [last])) (hfrom : last.fromBatchNumber < new.fromBatchNumber)
    (hto : toBatch.toNat + 1 = new.fromBatchNumber.toNat) :
    Contiguous (init ++ [{ last with toBatchNumber := toBatch }, new]) := by
  obtain ⟨hinit, -, hle⟩ := List.pairwise_append.mp h.ordered
  obtain ⟨hchain, -, hadj⟩ := List.isChain_append.mp h.adjacent
  have hlast : ∀ a ∈ init, a.fromBatchNumber ≤ last.fromBatchNumber := fun a ha => hle a ha last List.mem_cons_self
  constructor
  · rw [List.pairwise_append]
    refine ⟨hinit, ?_, ?_⟩
    · simpa using UInt64.le_of_lt hfrom
    · intro a ha b hb
      rcases List.mem_pair.mp hb with rfl | rfl
      · exact hlast a ha
      · exact UInt64.le_trans (hlast a ha) (UInt64.le_of_lt hfrom)
  · rw [← List.singleton_append, ← List.append_assoc, List.isChain_append, List.isChain_append]
    refine ⟨⟨hchain, List.IsChain.singleton _, fun x hx y hy => ?_⟩, List.IsChain.singleton _, fun x hx y hy => ?_⟩
    · obtain rfl : { last with toBatchNumber := toBatch } = y := by simpa using hy
      exact hadj x hx last (by simp)
    · obtain rfl : { last with toBatchNumber := toBatch } = x := by simpa using hx
      obtain rfl : new = y := by simpa using hy
      exact hto

/-- **The added intervals stay contiguous** when the new one starts after the
last stored one. -/
theorem contiguous_addedIntervals {old : List ForkIDInterval} {newForkID : ForkIDInterval} (h : Contiguous old)
    (hnew : ∀ last ∈ old.getLast?, last.fromBatchNumber < newForkID.fromBatchNumber) :
    Contiguous (addedIntervals old newForkID) := by
  rcases List.eq_nil_or_concat' old with rfl | ⟨init, last, rfl⟩
  · exact contiguous_singleton newForkID
  · have hlt := hnew last (Option.mem_def.mpr List.getLast?_concat)
    have hlt' := UInt64.lt_iff_toNat_lt.mp hlt
    have hpos : 1 ≤ newForkID.fromBatchNumber := UInt64.le_iff_toNat_le.mpr (by
      simp only [UInt64.reduceToNat]
      omega)
    rw [addedIntervals_concat]
    refine h.close_append hlt ?_
    rw [UInt64.toNat_sub_of_le _ _ hpos, UInt64.toNat_one]
    omega

theorem addForkIDInterval_of_getForkIDs {db : ForkIDDb} {mem old : List ForkIDInterval} {newForkID : ForkIDInterval}
    (hget : db.getForkIDs = .ok old) :
    (∃ err, addForkIDInterval db mem newForkID = (mem, .error err)) ∨
      addForkIDInterval db mem newForkID = (addedIntervals old newForkID, db.addForkID newForkID) := by
  rw [addForkIDInterval, hget]
  dsimp only
  rcases List.eq_nil_or_concat' old with rfl | ⟨init, last, rfl⟩
  · exact .inr rfl
  · simp only [List.getLast?_concat]
    by_cases hseq : last.forkId + 1 ≠ newForkID.forkId
    · exact .inl ⟨_, by rw [if_pos hseq]⟩
    · rw [if_neg hseq]
      cases hupd : db.updateForkID { last with toBatchNumber := newForkID.fromBatchNumber - 1 } with
      | error err => exact .inl ⟨err, rfl⟩
      | ok u =>
        right
        simp only [List.length_append, List.length_singleton, Nat.add_sub_cancel, modify_concat_length,
          addedIntervals_concat, List.append_assoc, List.cons_append, List.nil_append]

/-- **A failed insert leaves the new intervals in memory.**  When the table
reads, the sequence check and `UpdateForkID` pass and `AddForkID` fails,
`AddForkIDInterval` returns the error with the memory already set to the new
intervals, which differ from the rows the rolled-back transaction keeps. -/
theorem addForkIDInterval_insert_error {db : ForkIDDb} {mem old : List ForkIDInterval} {newForkID : ForkIDInterval}
    {err : String} (hget : db.getForkIDs = .ok old) (hseq : ∀ last ∈ old.getLast?, last.forkId + 1 = newForkID.forkId)
    (hupdate : ∀ last ∈ old.getLast?, db.updateForkID { last with toBatchNumber := newForkID.fromBatchNumber - 1 } = .ok ())
    (hadd : db.addForkID newForkID = .error err) :
    addForkIDInterval db mem newForkID = (addedIntervals old newForkID, .error err) ∧
      addedIntervals old newForkID ≠ old := by
  rcases List.eq_nil_or_concat' old with rfl | ⟨init, last, rfl⟩
  · refine ⟨?_, by simp [addedIntervals]⟩
    rw [addForkIDInterval, hget]
    dsimp only
    rw [hadd]
    rfl
  have hlast : last ∈ (init ++ [last]).getLast? := Option.mem_def.mpr List.getLast?_concat
  refine ⟨?_, fun h => by simpa [addedIntervals_concat] using congrArg List.length h⟩
  rw [addForkIDInterval, hget]
  dsimp only
  simp only [List.getLast?_concat, hseq last hlast, ne_eq, not_true_eq_false, if_false,
    hupdate last hlast, List.length_append, List.length_singleton, Nat.add_sub_cancel,
    modify_concat_length, hadd, addedIntervals_concat, List.append_assoc, List.cons_append, List.nil_append]

theorem addForkIDInterval_insert_error_fork2 :
    addForkIDInterval ⟨.ok [⟨1, 18446744073709551615, 1, "v1", 10⟩], fun _ h => by cases h; simp,
        fun _ => .ok (), fun _ => .error "insert failed"⟩
      [⟨1, 18446744073709551615, 1, "v1", 10⟩] ⟨100, 18446744073709551615, 2, "v2", 20⟩ =
      (addedIntervals [⟨1, 18446744073709551615, 1, "v1", 10⟩] ⟨100, 18446744073709551615, 2, "v2", 20⟩,
        .error "insert failed") ∧
    addedIntervals [⟨1, 18446744073709551615, 1, "v1", 10⟩] ⟨100, 18446744073709551615, 2, "v2", 20⟩ ≠
      [⟨1, 18446744073709551615, 1, "v1", 10⟩] :=
  addForkIDInterval_insert_error rfl (by simp) (fun _ _ => rfl) rfl

/-- A successful `AddForkIDInterval` leaves `addedIntervals` in memory, and
they are contiguous when the stored ones were and the new interval starts after
the last stored one. -/
theorem addForkIDInterval_ok {db : ForkIDDb} {mem old : List ForkIDInterval} {newForkID : ForkIDInterval}
    (hget : db.getForkIDs = .ok old) (hold : old.IsChain Adjacent)
    (hnew : ∀ last ∈ old.getLast?, last.fromBatchNumber < newForkID.fromBatchNumber)
    (hok : (addForkIDInterval db mem newForkID).2 = .ok ()) :
    (addForkIDInterval db mem newForkID).1 = addedIntervals old newForkID ∧
      Contiguous (addedIntervals old newForkID) := by
  refine ⟨?_, contiguous_addedIntervals ⟨db.getForkIDs_ordered old hget, hold⟩ hnew⟩
  rcases @addForkIDInterval_of_getForkIDs db mem old newForkID hget with ⟨err, h⟩ | h
  · rw [h] at hok
    cases hok
  · rw [h]

/-! ### `processForkID` -/

/-- **Rolled back, yet in memory.**  A fork ID for a batch not yet synced whose
insert fails: `processForkID` rolls the transaction back and returns the error,
and the memory holds the new intervals, which the table does not. -/
theorem processForkID_insert_error {env : ForkIDEnv} {mem old : List ForkIDInterval} {forkID : ForkID}
    {blockNumber latest : UInt64} {err : String} (hlatest : env.lastBatchNumber = .ok latest)
    (hle : latest ≤ forkID.batchNumber) (hget : env.db.getForkIDs = .ok old)
    (hseq : ∀ last ∈ old.getLast?, last.forkId + 1 = forkID.forkID)
    (hupdate : ∀ last ∈ old.getLast?,
      env.db.updateForkID { last with toBatchNumber := forkID.batchNumber + 1 - 1 } = .ok ())
    (hadd : env.db.addForkID ⟨forkID.batchNumber + 1, 18446744073709551615, forkID.forkID, forkID.version, blockNumber⟩ =
      .error err)
    (hrollback : env.rollback = .ok ()) :
    processForkID env mem forkID blockNumber =
      (addedIntervals old ⟨forkID.batchNumber + 1, 18446744073709551615, forkID.forkID, forkID.version, blockNumber⟩,
        .rolledBack, .error err) := by
  have hins := (@addForkIDInterval_insert_error env.db mem old _ err hget hseq hupdate hadd).1
  simp only [processForkID, hlatest, hle, true_or, if_true, hins, hrollback]

/-! ### `GetForks` -/

theorem map_forkId_modify (l : List ForkIDInterval) (n : Nat) (toBatch : UInt64) :
    (l.modify n fun f => { f with toBatchNumber := toBatch }).map ForkIDInterval.forkId = l.map ForkIDInterval.forkId := by
  induction l generalizing n with
  | nil => rw [List.modify_nil]
  | cons a l ih =>
    cases n with
    | zero => rw [List.modify_zero_cons, List.map_cons, List.map_cons]
    | succ n => rw [List.modify_succ_cons, List.map_cons, List.map_cons, ih]

theorem getForksLoop_cons (i : Nat) (e : UpdateZkEVMVersion) (blockNumber : UInt64)
    (logs : List (Except String UpdateZkEVMVersion × UInt64)) (forks : List ForkIDInterval) (hi : i = forks.length) :
    getForksLoop i ((.ok e, blockNumber) :: logs) forks =
      getForksLoop (i + 1) logs (forks.modify (forks.length - 1) (fun fork => { fork with toBatchNumber := e.numBatch }) ++
        [⟨e.numBatch + 1, 18446744073709551615, e.forkID, e.version, blockNumber⟩]) := by
  rw [getForksLoop]
  by_cases h0 : i = 0
  · subst hi
    rw [if_pos h0, List.eq_nil_of_length_eq_zero h0]
    rfl
  · rw [if_neg h0]

theorem Contiguous.closeLast {forks : List ForkIDInterval} (hforks : Contiguous forks) {numBatch : UInt64}
    (hb : numBatch.toNat + 1 < 2 ^ 64) (hlast : ∀ last ∈ forks.getLast?, last.fromBatchNumber.toNat ≤ numBatch.toNat)
    (forkID : UInt64) (version : String) (blockNumber : UInt64) :
    Contiguous (forks.modify (forks.length - 1) (fun f => { f with toBatchNumber := numBatch }) ++
      [⟨numBatch + 1, 18446744073709551615, forkID, version, blockNumber⟩]) := by
  have hnext : (numBatch + 1).toNat = numBatch.toNat + 1 := by
    rw [UInt64.toNat_add, UInt64.toNat_one, Nat.mod_eq_of_lt hb]
  rcases List.eq_nil_or_concat' forks with rfl | ⟨init, last, rfl⟩
  · exact contiguous_singleton _
  · have hl := hlast last (Option.mem_def.mpr List.getLast?_concat)
    rw [List.length_append, List.length_singleton, Nat.add_sub_cancel, modify_concat_length, List.append_assoc,
      List.singleton_append]
    refine hforks.close_append (UInt64.lt_iff_toNat_lt.mpr ?_) (by rw [hnext])
    rw [hnext]
    omega

theorem getForksLoop_contiguous (events : List (UpdateZkEVMVersion × UInt64))
    (hinc : (events.map fun e => e.1.numBatch.toNat).IsChain (· < ·))
    (hbound : ∀ e ∈ events, e.1.numBatch.toNat + 1 < 2 ^ 64) :
    ∀ forks : List ForkIDInterval, Contiguous forks →
      (∀ last ∈ forks.getLast?, last.toBatchNumber = 18446744073709551615 ∧
        ∀ e ∈ events.head?, last.fromBatchNumber.toNat ≤ e.1.numBatch.toNat) →
      ∃ res, getForksLoop forks.length (events.map fun e => (.ok e.1, e.2)) forks = .ok res ∧ Contiguous res ∧
        res.map ForkIDInterval.forkId = forks.map ForkIDInterval.forkId ++ events.map (·.1.forkID) ∧
        ∀ last ∈ res.getLast?, last.toBatchNumber = 18446744073709551615 := by
  induction events with
  | nil =>
    intro forks hforks hlast
    exact ⟨forks, rfl, hforks, by simp, fun last h => (hlast last h).1⟩
  | cons e events ih =>
    intro forks hforks hlast
    obtain ⟨⟨numBatch, forkID, version⟩, blockNumber⟩ := e
    have hb : numBatch.toNat + 1 < 2 ^ 64 := hbound _ List.mem_cons_self
    have hchain := List.isChain_cons.mp hinc
    have hup : ∀ e' ∈ events.head?, numBatch.toNat < e'.1.numBatch.toNat := fun e' he' =>
      hchain.1 _ (by rw [List.head?_map]; exact Option.mem_map_of_mem _ he')
    have hstep := hforks.closeLast hb (fun last hl => (hlast last hl).2 _ rfl) forkID version blockNumber
    obtain ⟨res, hres, hcont, hids, hopen⟩ := ih hchain.2 (fun e he => hbound e (List.mem_cons_of_mem _ he)) _ hstep
      (by
        intro last hl
        rw [List.getLast?_concat] at hl
        obtain rfl := Option.some.inj (Option.mem_def.mp hl)
        refine ⟨rfl, fun e' he' => ?_⟩
        have := hup e' he'
        rw [UInt64.toNat_add, UInt64.toNat_one, Nat.mod_eq_of_lt hb]
        omega)
    refine ⟨res, ?_, hcont, ?_, hopen⟩
    · rw [List.map_cons, getForksLoop_cons _ _ _ _ _ rfl]
      simpa using hres
    · rw [hids, List.map_append, map_forkId_modify]
      simp

/-- **`GetForks` builds contiguous intervals** from logs that parse, with batch
numbers going up and below `2^64 - 1`: one interval per log, in order, the last
one open-ended. -/
theorem getForks_contiguous (events : List (UpdateZkEVMVersion × UInt64))
    (hinc : (events.map fun e => e.1.numBatch.toNat).IsChain (· < ·))
    (hbound : ∀ e ∈ events, e.1.numBatch.toNat + 1 < 2 ^ 64) :
    ∃ forks, getForks (events.map fun e => (.ok e.1, e.2)) = .ok forks ∧ Contiguous forks ∧
      forks.map ForkIDInterval.forkId = events.map (·.1.forkID) ∧
      ∀ last ∈ forks.getLast?, last.toBatchNumber = 18446744073709551615 := by
  rw [getForks]
  simpa using getForksLoop_contiguous events hinc hbound [] ⟨List.Pairwise.nil, List.IsChain.nil⟩ (by simp)

/-- **The last batch number wraps.**  Logs at batches `0` and `2^64 - 1`: the
second interval starts at batch `0` and overlaps the first, and batch `5`,
which the second holds, gets the first one's fork. -/
theorem getForks_max_numBatch :
    getForks [(.ok ⟨0, 1, "v1"⟩, 10), (.ok ⟨18446744073709551615, 2, "v2"⟩, 20)] =
        .ok [⟨1, 18446744073709551615, 1, "v1", 10⟩, ⟨0, 18446744073709551615, 2, "v2", 20⟩] ∧
      ForkIDInterval.contains ⟨0, 18446744073709551615, 2, "v2", 20⟩ 5 = true ∧
      getForkIDByBatchNumber ⟨[⟨1, 18446744073709551615, 1, "v1", 10⟩, ⟨0, 18446744073709551615, 2, "v2", 20⟩], 0, 0⟩ 5 =
        .ok 1 := by
  refine ⟨rfl, by decide, by decide⟩

end State

end CdkValidium
