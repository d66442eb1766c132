import CdkValidium.State.Helper

/-!
# What the batch codec does at its edges

Two behaviours of `state/helper.go` that a reader of its intent would not
expect, each proved for every input of its shape:

* `encodeTransactions_low_percentage`: from fork 5 on, `EncodeTransactions`
  fails on every batch with a percentage below 16.  It prints the percentage
  with `%x`, which writes such a value as one hex digit, and `hex.DecodeHex`
  rejects a string of odd length.  The sequencer stores every processed
  transaction through `EncodeTransaction`, so such a percentage makes the store
  fail.
* `decodeTxs_truncated_long_header`: a long-form list header whose length bytes
  run past the end of the data makes `DecodeTxs` return the `err` of the header
  parse, which is `nil`, with no transactions.  The other malformed headers
  return `ErrInvalidData`.
-/

namespace CdkValidium.State

/-! ### Percentages below 16 -/

theorem encodeTransactions_go_low_percentage {lib : EthLib} {effectivePercentages : List UInt8}
    {forkID : UInt64} (hfork : forkID5 ≤ forkID) :
    ∀ (txs : List LegacyTx) (i : Nat) (batchL2Data : List UInt8),
      (∀ tx ∈ txs, ∃ txData, prepareRPLTxData lib tx = .ok txData) →
      i + txs.length ≤ effectivePercentages.length →
      (∃ ep ∈ (effectivePercentages.drop i).take txs.length, ep < 16) →
      encodeTransactions.go lib effectivePercentages forkID i txs batchL2Data =
        .ok (.error (.hex .errLength)) := by
  intro txs
  induction txs with
  | nil =>
    intro i batchL2Data _ _ hlow
    simp at hlow
  | cons tx rest ih =>
    intro i batchL2Data htxs hlen hlow
    obtain ⟨txData, htx⟩ := htxs tx (by simp)
    have hi : i < effectivePercentages.length := by simp at hlen; omega
    have hget : effectivePercentages[i]? = some effectivePercentages[i] :=
      List.getElem?_eq_getElem hi
    rw [encodeTransactions.go, htx]
    simp only [if_pos hfork, hget]
    by_cases hep : effectivePercentages[i] < 16
    · rw [Go.decodeHex_sprintfX_of_lt (by simpa [UInt8.lt_iff_toNat_lt] using hep)]
    · -- a two-digit percentage is appended, and the low one is further on
      have hrest : ∃ ep ∈ (effectivePercentages.drop (i + 1)).take rest.length, ep < 16 := by
        obtain ⟨ep, hmem, hep'⟩ := hlow
        rw [List.drop_eq_getElem_cons hi, List.length_cons, List.take_succ_cons] at hmem
        rcases List.mem_cons.mp hmem with rfl | hmem
        · exact absurd hep' hep
        · exact ⟨ep, hmem, hep'⟩
      have hge : 16 ≤ effectivePercentages[i].toNat := by
        simpa [UInt8.lt_iff_toNat_lt] using hep
      rw [Go.decodeHex_sprintfX_of_ge hge effectivePercentages[i].toNat_lt]
      exact ih (i + 1) _ (fun tx htx => htxs tx (by simp [htx])) (by simp at hlen; omega) hrest

/-- **A percentage below 16 breaks the encoding.**  From fork 5 on, a batch whose
transactions all encode and which has a percentage below 16 is not encoded:
`EncodeTransactions` returns `hex.ErrLength`. -/
theorem encodeTransactions_low_percentage {lib : EthLib} {txs : List LegacyTx}
    {effectivePercentages : List UInt8} {forkID : UInt64} (hfork : forkID5 ≤ forkID)
    (htxs : ∀ tx ∈ txs, ∃ txData, prepareRPLTxData lib tx = .ok txData)
    (hlen : txs.length = effectivePercentages.length)
    (hlow : ∃ ep ∈ effectivePercentages, ep < 16) :
    encodeTransactions lib txs effectivePercentages forkID = .ok (.error (.hex .errLength)) := by
  apply encodeTransactions_go_low_percentage hfork txs 0 [] htxs (by omega)
  rw [List.drop_zero, hlen, List.take_length]
  exact hlow

/-- One unsigned, unprotected transaction with percentage `5`, at fork 5. -/
theorem encodeTransactions_low_percentage_at_five :
    encodeTransactions gethLib [⟨0, 0, 0, none, 0, [], 27, 0, 0⟩] [5] 5 =
      .ok (.error (.hex .errLength)) :=
  encodeTransactions_low_percentage (by decide)
    (fun tx htx => by rw [List.mem_singleton.mp htx]; exact ⟨_, rfl⟩) rfl ⟨5, by simp, by decide⟩

/-! ### Truncated long headers -/

/-- **A truncated long header is accepted as an empty batch.**  Data that starts
with a long-form list header (`0xf8` to `0xff`) and ends before its length bytes
do decodes, for every fork, to no transactions and a `nil` error. -/
theorem decodeTxs_truncated_long_header (lib : EthLib) (forkID : UInt64) {b : UInt8}
    {tail : List UInt8} (hb : 0xf8 ≤ b) (htail : tail.length + 0xf7 < b.toNat) :
    decodeTxs lib (b :: tail) forkID = .ok ⟨[], b :: tail, [], none⟩ := by
  have hb' : 0xf8 ≤ b.toNat := hb
  have hblt := b.toNat_lt
  have hlen : (b :: tail).length.toUInt64.toNat = tail.length + 1 :=
    UInt64.toNat_ofNat_of_lt' (by rw [UInt64.size, List.length_cons]; omega)
  have hne : (b :: tail).length.toUInt64 ≠ 0 := by
    intro h
    rw [h] at hlen
    simp at hlen
  have hpos : (0 : UInt64) < (b :: tail).length.toUInt64 := by
    rw [UInt64.lt_iff_toNat_lt, hlen]
    simp
  have hheader : Go.slice (b :: tail) (0 : UInt64).toNat ((0 : UInt64) + 1).toNat = .ok [b] := by
    simp [Go.slice]
  have hnum := toNat_toUInt64_byte b
  -- the header is long, and its `num - f7` length bytes are not all there
  have hlength : rlpLength (b :: tail) 0 b.toNat.toUInt64 = .ok (.error none) := by
    have hlong : shortRlp < b.toNat.toUInt64 - c0 := by
      simp only [UInt64.lt_iff_toNat_lt, UInt64.toNat_sub, hnum, shortRlp, c0, UInt64.reduceToNat]
      omega
    have hshort : (b :: tail).length.toUInt64 < 0 + 1 + b.toNat.toUInt64 - f7 := by
      simp only [UInt64.lt_iff_toNat_lt, UInt64.toNat_sub, UInt64.toNat_add, hnum, hlen, f7,
        UInt64.reduceToNat]
      omega
    exact rlpLength_of_truncated hlong hshort
  have hstep : decodeTxStep lib (b :: tail) forkID 0 = .ok (.stop none) := by
    simp only [decodeTxStep, hheader, parseUint_headerByte, not_lt_c0 (show 0xc0 ≤ b.toNat by omega), if_false,
      hlength]
  rw [decodeTxs, if_neg hne]
  exact decodeTxsLoop_stop hpos hstep

/-- The lone byte `0xf9`. -/
theorem decodeTxs_truncated_long_header_f9 :
    decodeTxs gethLib [0xf9] 5 = .ok ⟨[], [0xf9], [], none⟩ :=
  decodeTxs_truncated_long_header gethLib 5 (by decide) (by decide)

end CdkValidium.State
