import CdkValidium.State.Codec

/-!
# The incremental path of the trusted-state synchronization

`processTrustedBatch` keeps a WIP batch in step with the trusted sequencer.
When the intermediate state root of the stored batch is still in memory, it
does not reprocess the batch from the previous batch's root.  It decodes the
trusted batch data and the stored one with `DecodeTxs`
(`ClientSynchronizer.decodeTxs`), keeps the synced transactions past the stored
ones with their percentages, and sends their `EncodeTransactions` to the
executor (`processTrustedBatchIncremental`).  The full path sends the whole
trusted batch data instead.

The two agree byte for byte on batch data the codec writes, for every
`EthLib` that does what go-ethereum does (`EthLib.Lawful`): when the trusted
batch is `EncodeTransactions` of well-formed transactions and the stored batch
is that of a prefix of them, the incremental path sends the trusted data after
the stored data (`processTrustedBatchIncremental_suffix`).  On other data that
`DecodeTxs` accepts they need not agree: a percentage below 16 is read back,
but `EncodeTransactions` cannot write it again
(`processTrustedBatchIncremental_low_percentage`).
-/

namespace CdkValidium.Synchronizer

open State

/-- Why the incremental path returns an error: the error value of `DecodeTxs`,
or the error of `EncodeTransactions`. -/
inductive TrustedBatchError
  | decode (e : DecodeError)
  | encode (e : EncodeError)
  deriving DecidableEq

/-- `ClientSynchronizer.decodeTxs`: the trusted batch data, then the stored
one, each by `DecodeTxs`; the stored and the synced transactions and
percentages. -/
def decodeTxs (lib : EthLib) (trustedBatchL2Data storedBatchL2Data : List UInt8) (forkID : UInt64) :
    Except Go.Panic
      (Except DecodeError (List LegacyTx × List LegacyTx × List UInt8 × List UInt8)) := do
  let synced ← State.decodeTxs lib trustedBatchL2Data forkID
  match synced.err with
  | some err => pure (.error err)
  | none =>
    let stored ← State.decodeTxs lib storedBatchL2Data forkID
    match stored.err with
    | some err => pure (.error err)
    | none =>
      pure (.ok (stored.txs, synced.txs, stored.efficiencyPercentages, synced.efficiencyPercentages))

/-- The branch of `processTrustedBatch` that processes only the new
transactions of a WIP batch: the `request.Transactions` it builds, or `none`
when there is nothing to sync. -/
def processTrustedBatchIncremental (lib : EthLib) (trustedBatchL2Data storedBatchL2Data : List UInt8)
    (forkID : UInt64) : Except Go.Panic (Except TrustedBatchError (Option (List UInt8))) := do
  match ← decodeTxs lib trustedBatchL2Data storedBatchL2Data forkID with
  | .error err => pure (.error (.decode err))
  | .ok (storedTxs, syncedTxs, _, syncedEfficiencyPercentages) =>
    if storedTxs.length < syncedTxs.length then
      let txsToBeAdded := syncedTxs.drop storedTxs.length
      -- `syncedEfficiencyPercentages[len(storedTxs):]`, from fork 5 on only
      let syncedEfficiencyPercentages ← (if forkID5 ≤ forkID then
          Go.slice syncedEfficiencyPercentages storedTxs.length syncedEfficiencyPercentages.length
        else pure syncedEfficiencyPercentages : Except Go.Panic (List UInt8))
      match ← encodeTransactions lib txsToBeAdded syncedEfficiencyPercentages forkID with
      | .error err => pure (.error (.encode err))
      | .ok transactions => pure (.ok (some transactions))
    else pure (.ok none)

/-! ### Decoding both batches -/

theorem decodeTxs_eq_ok {lib : EthLib} {trustedBatchL2Data storedBatchL2Data : List UInt8}
    {forkID : UInt64} {syncedTxs storedTxs : List LegacyTx}
    {syncedEfficiencyPercentages storedEfficiencyPercentages : List UInt8}
    (hsynced : State.decodeTxs lib trustedBatchL2Data forkID =
      .ok ⟨syncedTxs, trustedBatchL2Data, syncedEfficiencyPercentages, none⟩)
    (hstored : State.decodeTxs lib storedBatchL2Data forkID =
      .ok ⟨storedTxs, storedBatchL2Data, storedEfficiencyPercentages, none⟩) :
    decodeTxs lib trustedBatchL2Data storedBatchL2Data forkID =
      .ok (.ok (storedTxs, syncedTxs, storedEfficiencyPercentages, syncedEfficiencyPercentages)) := by
  simp only [decodeTxs, hsynced, hstored, bind, Except.bind, pure, Except.pure]

theorem processTrustedBatchIncremental_of_lt {lib : EthLib}
    {trustedBatchL2Data storedBatchL2Data : List UInt8} {forkID : UInt64}
    {storedTxs syncedTxs : List LegacyTx}
    {storedEfficiencyPercentages syncedEfficiencyPercentages : List UInt8}
    {r : Except EncodeError (List UInt8)}
    (hdec : decodeTxs lib trustedBatchL2Data storedBatchL2Data forkID =
      .ok (.ok (storedTxs, syncedTxs, storedEfficiencyPercentages, syncedEfficiencyPercentages)))
    (hlt : storedTxs.length < syncedTxs.length)
    (hlen : forkID5 ≤ forkID → storedTxs.length ≤ syncedEfficiencyPercentages.length)
    (henc : encodeTransactions lib (syncedTxs.drop storedTxs.length)
      (if forkID5 ≤ forkID then syncedEfficiencyPercentages.drop storedTxs.length
        else syncedEfficiencyPercentages) forkID = .ok r) :
    processTrustedBatchIncremental lib trustedBatchL2Data storedBatchL2Data forkID =
      .ok ((r.mapError .encode).map some) := by
  have hslice : (if forkID5 ≤ forkID then
        Go.slice syncedEfficiencyPercentages storedTxs.length syncedEfficiencyPercentages.length
      else Except.ok syncedEfficiencyPercentages) =
      Except.ok (if forkID5 ≤ forkID then syncedEfficiencyPercentages.drop storedTxs.length
        else syncedEfficiencyPercentages) := by
    by_cases hfork : forkID5 ≤ forkID
    · rw [if_pos hfork, if_pos hfork, Go.slice_of_le (hlen hfork) le_rfl]
      simp
    · rw [if_neg hfork, if_neg hfork]
  simp only [processTrustedBatchIncremental, hdec, hlt, if_true, bind, Except.bind, pure,
    Except.pure]
  rw [hslice]
  dsimp only
  rw [henc]
  cases r <;> rfl

theorem processTrustedBatchIncremental_of_le {lib : EthLib}
    {trustedBatchL2Data storedBatchL2Data : List UInt8} {forkID : UInt64}
    {storedTxs syncedTxs : List LegacyTx}
    {storedEfficiencyPercentages syncedEfficiencyPercentages : List UInt8}
    (hdec : decodeTxs lib trustedBatchL2Data storedBatchL2Data forkID =
      .ok (.ok (storedTxs, syncedTxs, storedEfficiencyPercentages, syncedEfficiencyPercentages)))
    (hle : syncedTxs.length ≤ storedTxs.length) :
    processTrustedBatchIncremental lib trustedBatchL2Data storedBatchL2Data forkID = .ok (.ok none) := by
  simp only [processTrustedBatchIncremental, hdec, Nat.not_lt.mpr hle, if_false, bind, Except.bind,
    pure, Except.pure]

/-! ### Batches the codec wrote -/

theorem decodeTxs_frames {lib : EthLib} (hlib : lib.Lawful) {forkID : UInt64} {frames : List (LegacyTx × UInt8)}
    (hwf : ∀ f ∈ frames, f.1.WellFormed) (hN : (batchBytes lib forkID frames).length < 2 ^ 63) :
    State.decodeTxs lib (batchBytes lib forkID frames) forkID =
      .ok ⟨frames.map Prod.fst, batchBytes lib forkID frames,
        if forkID5 ≤ forkID then frames.map Prod.snd else [], none⟩ := by
  rw [decodeTxs_batchBytes hlib hwf hN, flatten_percentageBytes]

/-- **The incremental path sends the new bytes.**  When the trusted batch data
is `EncodeTransactions` of well-formed transactions and the stored data is
that of the first `m` of them, the stored data is a prefix of the trusted
data, and the incremental path sends the executor the trusted data after it,
or nothing when no transaction is new. -/
theorem processTrustedBatchIncremental_suffix {lib : EthLib} (hlib : lib.Lawful) {forkID : UInt64}
    {txs : List LegacyTx} {effectivePercentages : List UInt8} {m : Nat} {s t : List UInt8}
    (hwf : ∀ tx ∈ txs, tx.WellFormed) (hlen : effectivePercentages.length = txs.length)
    (ht : encodeTransactions lib txs effectivePercentages forkID = .ok (.ok t))
    (hs : encodeTransactions lib (txs.take m) (effectivePercentages.take m) forkID = .ok (.ok s))
    (hN : t.length < 2 ^ 63) :
    s <+: t ∧ processTrustedBatchIncremental lib t s forkID =
      .ok (.ok (if m < txs.length then some (t.drop s.length) else none)) := by
  obtain ⟨frames, hfst, hsnd⟩ : ∃ frames : List (LegacyTx × UInt8),
      frames.map Prod.fst = txs ∧ frames.map Prod.snd = effectivePercentages :=
    ⟨txs.zip effectivePercentages, List.map_fst_zip (by omega), List.map_snd_zip (by omega)⟩
  subst hfst hsnd
  have hwfF : ∀ f ∈ frames, f.1.WellFormed := fun f hf => hwf f.1 (List.mem_map_of_mem hf)
  have hwfTake : ∀ f ∈ frames.take m, f.1.WellFormed := fun f hf => hwfF f (List.mem_of_mem_take hf)
  have hwfDrop : ∀ f ∈ frames.drop m, f.1.WellFormed := fun f hf => hwfF f (List.mem_of_mem_drop hf)
  obtain ⟨rfl, h16⟩ := batchBytes_of_encodeTransactions hlib hwfF ht
  rw [← List.map_take, ← List.map_take] at hs
  obtain ⟨rfl, -⟩ := batchBytes_of_encodeTransactions hlib hwfTake hs
  -- the trusted data is the stored data followed by the frames of the new transactions
  have hsplit : batchBytes lib forkID frames =
      batchBytes lib forkID (frames.take m) ++ batchBytes lib forkID (frames.drop m) := by
    rw [← batchBytes_append, List.take_append_drop]
  have hNs : (batchBytes lib forkID (frames.take m)).length < 2 ^ 63 := by
    rw [hsplit, List.length_append] at hN
    omega
  have hdec := decodeTxs_eq_ok (decodeTxs_frames hlib hwfF hN) (decodeTxs_frames hlib hwfTake hNs)
  refine ⟨hsplit ▸ List.prefix_append _ _, ?_⟩
  by_cases hm : m < (frames.map Prod.fst).length
  · -- some transactions are new: they are encoded again into the frames after the stored ones
    have hlt : ((frames.take m).map Prod.fst).length < (frames.map Prod.fst).length := by
      simp only [List.length_map, List.length_take] at hm ⊢
      omega
    have hm' : ((frames.take m).map Prod.fst).length = m := by
      simp only [List.length_map, List.length_take] at hm ⊢
      omega
    have henc : encodeTransactions lib ((frames.map Prod.fst).drop ((frames.take m).map Prod.fst).length)
        (if forkID5 ≤ forkID then
          (if forkID5 ≤ forkID then frames.map Prod.snd else []).drop ((frames.take m).map Prod.fst).length
        else if forkID5 ≤ forkID then frames.map Prod.snd else []) forkID =
        .ok (.ok (batchBytes lib forkID (frames.drop m))) := by
      rw [hm', ← List.map_drop]
      refine encodeTransactions_batchBytes hlib hwfDrop fun hfork => ⟨?_, fun f hf => h16 hfork f
        (List.mem_of_mem_drop hf)⟩
      rw [if_pos hfork, if_pos hfork, List.map_drop]
    rw [processTrustedBatchIncremental_of_lt hdec hlt (fun hfork => by simp [hfork]) henc,
      if_pos (by simpa using hm), hsplit, List.drop_left]
    rfl
  · rw [processTrustedBatchIncremental_of_le hdec (by simp only [List.length_map, List.length_take] at hm ⊢; omega),
      if_neg (by simpa using hm)]

theorem processTrustedBatchIncremental_suffix_one_tx :
    [] <+: rawTxBytes gethLib ⟨0, 1, 21000, none, 0, [], 27, 1, 1⟩ ++ [100] ∧
      processTrustedBatchIncremental gethLib (rawTxBytes gethLib ⟨0, 1, 21000, none, 0, [], 27, 1, 1⟩ ++ [100]) []
          5 =
        .ok (.ok (if 0 < [(⟨0, 1, 21000, none, 0, [], 27, 1, 1⟩ : LegacyTx)].length then
          some ((rawTxBytes gethLib ⟨0, 1, 21000, none, 0, [], 27, 1, 1⟩ ++ [100]).drop ([] : List UInt8).length)
          else none)) := by
  have hwf : LegacyTx.WellFormed ⟨0, 1, 21000, none, 0, [], 27, 1, 1⟩ :=
    ⟨by norm_num, by norm_num, by norm_num, by decide⟩
  have ht : encodeTransactions gethLib [⟨0, 1, 21000, none, 0, [], 27, 1, 1⟩] [100] 5 =
      .ok (.ok (rawTxBytes gethLib ⟨0, 1, 21000, none, 0, [], 27, 1, 1⟩ ++ [100])) :=
    encodeTransaction_of_ge (prepareRPLTxData_of_lawful gethLib_lawful hwf.r_lt hwf.s_lt) (by decide) (by decide)
  exact processTrustedBatchIncremental_suffix gethLib_lawful (fun tx htx => by rw [List.mem_singleton.mp htx]; exact hwf)
    rfl ht rfl (by decide)

/-- **Batch data the codec did not write.**  A transaction with percentage 5
is read back by `DecodeTxs`, as is the empty stored batch, but the incremental
path fails where the full path would send the trusted data: `%x` prints 5 as
one hex digit, which `hex.DecodeHex` rejects. -/
theorem processTrustedBatchIncremental_low_percentage :
    let tx : LegacyTx := ⟨0, 1, 21000, none, 0, [], 27, 1, 1⟩
    let t := rawTxBytes gethLib tx ++ [5]
    [] <+: t ∧ State.decodeTxs gethLib t 5 = .ok ⟨[tx], t, [5], none⟩ ∧
      State.decodeTxs gethLib [] 5 = .ok ⟨[], [], [], none⟩ ∧
      processTrustedBatchIncremental gethLib t [] 5 = .ok (.error (.encode (.hex .errLength))) := by
  intro tx t
  have hwf : tx.WellFormed := ⟨by norm_num, by norm_num, by norm_num, by decide⟩
  have hfork : forkID5 ≤ (5 : UInt64) := by decide
  have hb : batchBytes gethLib 5 [(tx, 5)] = t := by
    simp [batchBytes, percentageBytes, hfork, t]
  have hdt : State.decodeTxs gethLib t 5 = .ok ⟨[tx], t, [5], none⟩ := by
    have h := @decodeTxs_frames gethLib gethLib_lawful 5 [(tx, 5)] (by simpa using hwf) (by rw [hb]; decide)
    rw [hb, if_pos hfork] at h
    exact h
  have hds : State.decodeTxs gethLib [] 5 = .ok ⟨[], [], [], none⟩ := rfl
  have henc : encodeTransactions gethLib ([tx].drop ([] : List LegacyTx).length)
      (if forkID5 ≤ (5 : UInt64) then [(5 : UInt8)].drop ([] : List LegacyTx).length else [5]) 5 =
      .ok (.error (.hex .errLength)) := by
    rw [if_pos hfork]
    simp [encodeTransactions, encodeTransactions.go, prepareRPLTxData_of_lawful gethLib_lawful hwf.r_lt hwf.s_lt, hfork,
      Go.decodeHex_sprintfX_of_lt]
  refine ⟨List.nil_prefix, hdt, hds, ?_⟩
  rw [processTrustedBatchIncremental_of_lt (decodeTxs_eq_ok hdt hds) (by decide) (by simp) henc]
  rfl

end CdkValidium.Synchronizer
