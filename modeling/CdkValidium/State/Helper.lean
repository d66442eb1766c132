import CdkValidium.State.Transaction

/-!
# The batch L2 data codec

`state/helper.go` writes a batch as the concatenation, over its transactions,
of the RLP list of the unsigned fields (with `chainId, 0, 0` appended when the
chain id is not zero), 32 bytes `r`, 32 bytes `s`, one byte `v ∈ {27, 28}` and,
from fork 5 on, one byte of effective gas price percentage.

`EncodeTransactions` builds each piece as hex text and decodes the joined text
back to bytes.  `DecodeTxs` takes the data apart by reading each RLP list
header itself, with `uint64` offsets that wrap, and checks the offsets it
computes before it slices.  One round of its loop is `decodeTxStep`; the loop
is `decodeTxsLoop`, whose termination rests on `decodeTxStep_next_lt`: a round
that goes on moves strictly forward.
-/

namespace CdkValidium.State

open Go (except_bind_eq_ok)

/-! ### Constants of `helper.go` -/

/-- The first fork whose batches carry a percentage byte after each transaction. -/
def forkID5 : UInt64 := 5
def ether155V : Nat := 27
def headerByteLength : UInt64 := 1
def sLength : UInt64 := 32
def rLength : UInt64 := 32
def vLength : UInt64 := 1
def c0 : UInt64 := 192
def shortRlp : UInt64 := 55
def f7 : UInt64 := 247
def efficiencyPercentageByteLength : UInt64 := 1

/-! ### Encoding -/

/-- Why `prepareRPLTxData` or `EncodeTransactions` return an error. -/
inductive EncodeError
  | rlp (e : String)
  | hex (e : Go.HexError)
  deriving DecidableEq

/-- The unsigned fields `prepareRPLTxData` encodes: the pre-EIP-155 list,
extended by `chainId, 0, 0` for a protected transaction. -/
def rlpFieldsToEncode (lib : EthLib) (tx : LegacyTx) : List RlpField :=
  let chainID := lib.deriveChainId tx.v
  [.uint tx.nonce.toNat, .uint tx.gasPrice, .uint tx.gas.toNat, .address tx.toAddress,
    .uint tx.value, .bytes tx.data] ++
  -- `tx.ChainId().Uint64() > 0`
  (if 0 < chainID % 2 ^ 64 then [.uint chainID, .uint 0, .uint 0] else [])

/-- `prepareRPLTxData`: the RLP of the unsigned fields, then `r` and `s` as
64 hex digits each and `v` rebuilt from the parity of `V` as `27` or `28`,
all joined as hex text and decoded to bytes. -/
def prepareRPLTxData (lib : EthLib) (tx : LegacyTx) : Except EncodeError (List UInt8) :=
  -- `1 - (v.Uint64() & 1)`
  let sign := 1 - tx.v % 2 ^ 64 % 2
  match lib.encodeToBytes (rlpFieldsToEncode lib tx) with
  | .error e => .error (.rlp e)
  | .ok txCodedRlp =>
    let newV := ether155V + sign
    let newRPadded := Go.padZero 64 (Go.sprintfX tx.r)
    let newSPadded := Go.padZero 64 (Go.sprintfX tx.s)
    let newVPadded := Go.padZero 2 (Go.sprintfX newV)
    match Go.hexDecodeString
        (Go.hexEncodeToString txCodedRlp ++ newRPadded ++ newSPadded ++ newVPadded) with
    | .error e => .error (.hex e)
    | .ok txData => .ok txData

/-- `EncodeTransactions`: every transaction by `prepareRPLTxData`, followed
from fork 5 on by its percentage, printed with `%x` and decoded with
`hex.DecodeHex`.  Reading `effectivePercentages[i]` past its end panics. -/
def encodeTransactions (lib : EthLib) (txs : List LegacyTx) (effectivePercentages : List UInt8)
    (forkID : UInt64) : Except Go.Panic (Except EncodeError (List UInt8)) :=
  go 0 txs []
where
  go (i : Nat) : List LegacyTx → List UInt8 → Except Go.Panic (Except EncodeError (List UInt8))
  | [], batchL2Data => .ok (.ok batchL2Data)
  | tx :: rest, batchL2Data =>
    match prepareRPLTxData lib tx with
    | .error e => .ok (.error e)
    | .ok txData =>
      if forkID5 ≤ forkID then
        match effectivePercentages[i]? with
        | none => .error .indexOutOfRange
        | some effectivePercentage =>
          match Go.decodeHex (Go.sprintfX effectivePercentage.toNat) with
          | .error e => .ok (.error (.hex e))
          | .ok effectivePercentageAsHex =>
            go (i + 1) rest (batchL2Data ++ txData ++ effectivePercentageAsHex)
      else go (i + 1) rest (batchL2Data ++ txData)

/-- `EncodeTransaction`: one transaction and its percentage. -/
def encodeTransaction (lib : EthLib) (tx : LegacyTx) (effectivePercentage : UInt8)
    (forkID : UInt64) : Except Go.Panic (Except EncodeError (List UInt8)) :=
  encodeTransactions lib [tx] [effectivePercentage] forkID

def encodeTransactionsWithoutEffectivePercentage (lib : EthLib) :
    List LegacyTx → Except EncodeError (List UInt8)
  | [] => .ok []
  | tx :: rest =>
    match prepareRPLTxData lib tx with
    | .error e => .error e
    | .ok txData => (encodeTransactionsWithoutEffectivePercentage lib rest).map (txData ++ ·)

/-- `EncodeTransactionWithoutEffectivePercentage`: the `RawTx` of a tracker. -/
def encodeTransactionWithoutEffectivePercentage (lib : EthLib) (tx : LegacyTx) :
    Except EncodeError (List UInt8) :=
  encodeTransactionsWithoutEffectivePercentage lib [tx]

theorem encodeTransactionWithoutEffectivePercentage_eq {lib : EthLib} {tx : LegacyTx}
    {txData : List UInt8} (htx : prepareRPLTxData lib tx = .ok txData) :
    encodeTransactionWithoutEffectivePercentage lib tx = .ok txData := by
  simp [encodeTransactionWithoutEffectivePercentage, encodeTransactionsWithoutEffectivePercentage, htx,
    Except.map]

theorem encodeTransaction_of_ge {lib : EthLib} {tx : LegacyTx} {txData : List UInt8}
    {effectivePercentage : UInt8} {forkID : UInt64} (htx : prepareRPLTxData lib tx = .ok txData)
    (hfork : forkID5 ≤ forkID) (hep : 16 ≤ effectivePercentage.toNat) :
    encodeTransaction lib tx effectivePercentage forkID = .ok (.ok (txData ++ [effectivePercentage])) := by
  simp [encodeTransaction, encodeTransactions, encodeTransactions.go, htx, hfork,
    Go.decodeHex_sprintfX_of_ge hep effectivePercentage.toNat_lt]

theorem prepareRPLTxData_of_encodeTransactionWithoutEffectivePercentage {lib : EthLib}
    {tx : LegacyTx} {rawTx : List UInt8}
    (h : encodeTransactionWithoutEffectivePercentage lib tx = .ok rawTx) :
    prepareRPLTxData lib tx = .ok rawTx := by
  unfold encodeTransactionWithoutEffectivePercentage encodeTransactionsWithoutEffectivePercentage at h
  split at h
  · cases h
  · rename_i txData htx
    simpa [encodeTransactionsWithoutEffectivePercentage, Except.map, htx] using h

theorem encodeTransaction_eq_ok {lib : EthLib} {tx : LegacyTx} {effectivePercentage : UInt8}
    {forkID : UInt64} {d : List UInt8} (hfork : forkID5 ≤ forkID)
    (h : encodeTransaction lib tx effectivePercentage forkID = .ok (.ok d)) :
    ∃ txData, prepareRPLTxData lib tx = .ok txData ∧ 16 ≤ effectivePercentage.toNat ∧
      d = txData ++ [effectivePercentage] := by
  cases htx : prepareRPLTxData lib tx with
  | error e => simp [encodeTransaction, encodeTransactions, encodeTransactions.go, htx] at h
  | ok txData =>
    by_cases hep : 16 ≤ effectivePercentage.toNat
    · rw [encodeTransaction_of_ge htx hfork hep] at h
      exact ⟨txData, rfl, hep, by simpa using h.symm⟩
    · -- a one-digit percentage makes `hex.DecodeHex` fail
      simp [encodeTransaction, encodeTransactions, encodeTransactions.go, htx, hfork,
        Go.decodeHex_sprintfX_of_lt (Nat.lt_of_not_le hep)] at h

/-! ### Decoding -/

/-- The error values `DecodeTxs` returns. -/
inductive DecodeError
  | parseUint (e : Go.NumError)
  | invalidData
  | txType (e : TxError)
  deriving DecidableEq, Repr

/-- What `DecodeTxs` returns: the transactions, the input, the percentages and
the error value (`none` for `nil`). -/
structure DecodedTxs where
  txs : List LegacyTx
  txsData : List UInt8
  efficiencyPercentages : List UInt8
  err : Option DecodeError
  deriving DecidableEq

/-- The length `DecodeTxs` reads from the list header at `pos`, whose first
byte is `num ≥ c0`: `num - c0` for a short list, else the `num - f7` length
bytes after it parsed as hex, plus `num - f7`.  On the left, the error value
of an early return; a header whose length bytes run past the end returns the
`err` of the header parse, which is `nil`. -/
def rlpLength (txsData : List UInt8) (pos num : UInt64) :
    Except Go.Panic (Except (Option DecodeError) UInt64) := do
  let txDataLength : UInt64 := txsData.length.toUInt64
  let length := num - c0
  if shortRlp < length then
    if txDataLength < pos + 1 + num - f7 then pure (.error none)
    else
      let lengthBytes ← Go.slice txsData (pos + 1).toNat (pos + 1 + num - f7).toNat
      match Go.parseUint (Go.hexEncodeToString lengthBytes) 16 with
      | .error e => pure (.error (some (.parseUint e)))
      | .ok n =>
        let n : UInt64 := n.toUInt64
        if n + num < f7 then pure (.error (some .invalidData))
        else pure (.ok (n + num - f7))
  else pure (.ok length)

/-- How one round of the loop of `DecodeTxs` ends: it returns early with the
error value it names (`nil` included), or it moves on to `endPos` with one more
transaction and, from fork 5 on, its percentage byte. -/
inductive DecodeStep
  | stop (err : Option DecodeError)
  | next (endPos : UInt64) (tx : LegacyTx) (percentage : Option UInt8)

/-- `endPos` of a transaction whose list header and payload take `length + 1`
bytes from `pos`: then `r`, `s`, `v` and, from fork 5 on, the percentage. -/
def endPosition (forkID pos length : UInt64) : UInt64 :=
  let endPos := pos + length + rLength + sLength + vLength + headerByteLength
  if forkID5 ≤ forkID then endPos + efficiencyPercentageByteLength else endPos

/-- The end of a round of `DecodeTxs`: decode the RLP list `txInfo` into its
fields and build the transaction with the stored `r`, `s` and `v`. -/
def decodeTxFields (lib : EthLib) (endPos : UInt64) (txInfo rData sData vData : List UInt8)
    (percentage : Option UInt8) : DecodeStep :=
  match lib.decodeBytes txInfo with
  | .error _ => .stop (some .invalidData)
  | .ok rlpFields =>
    match rlpFieldsToLegacyTx rlpFields vData rData sData with
    | .error e => .stop (some (.txType e))
    | .ok legacyTx => .next endPos legacyTx percentage

/-- From fork 5 on, `txsData[start:endPos][0]`, the percentage byte. -/
def readPercentage (txsData : List UInt8) (forkID start endPos : UInt64) :
    Except Go.Panic (Option UInt8) :=
  if forkID5 ≤ forkID then
    match Go.slice txsData start.toNat endPos.toNat with
    | .error p => .error p
    | .ok [] => .error .indexOutOfRange
    | .ok (b :: _) => .ok (some b)
  else .ok none

/-- The second half of a round of `DecodeTxs`, once `pos ≤ endPos ≤ len(txsData)`
is checked: slice out the RLP list, `r`, `s`, `v` and the percentage, and decode
the list. -/
def decodeTxChunk (lib : EthLib) (txsData : List UInt8) (forkID pos length endPos : UInt64) :
    Except Go.Panic DecodeStep := do
  let _fullDataTx ← Go.slice txsData pos.toNat endPos.toNat
  let dataStart := pos + length + headerByteLength
  let txInfo ← Go.slice txsData pos.toNat dataStart.toNat
  let rData ← Go.slice txsData dataStart.toNat (dataStart + rLength).toNat
  let sData ← Go.slice txsData (dataStart + rLength).toNat (dataStart + rLength + sLength).toNat
  let vData ← Go.slice txsData (dataStart + rLength + sLength).toNat
    (dataStart + rLength + sLength + vLength).toNat
  let percentage ← readPercentage txsData forkID (dataStart + rLength + sLength + vLength) endPos
  pure (decodeTxFields lib endPos txInfo rData sData vData percentage)

/-- One round of the loop of `DecodeTxs` at offset `pos < len(txsData)`. -/
def decodeTxStep (lib : EthLib) (txsData : List UInt8) (forkID pos : UInt64) :
    Except Go.Panic DecodeStep :=
  match Go.slice txsData pos.toNat (pos + 1).toNat with
  | .error p => .error p
  | .ok headerByte =>
    match Go.parseUint (Go.hexEncodeToString headerByte) 16 with
    | .error e => .ok (.stop (some (.parseUint e)))
    | .ok num =>
      if num.toUInt64 < c0 then .ok (.stop (some .invalidData))
      else
        match rlpLength txsData pos num.toUInt64 with
        | .error p => .error p
        | .ok (.error err) => .ok (.stop err)
        | .ok (.ok length) =>
          let endPos := endPosition forkID pos length
          if txsData.length.toUInt64 < endPos then .ok (.stop (some .invalidData))
          -- the source makes this check twice
          else if endPos < pos then .ok (.stop (some .invalidData))
          else decodeTxChunk lib txsData forkID pos length endPos

/-! ### One round of the decoder -/

theorem parseUint_headerByte (h0 : UInt8) : Go.parseUint (Go.hexEncodeToString [h0]) 16 = .ok h0.toNat := by
  have h0lt := h0.toNat_lt
  rw [Go.parseUint_hexEncodeToString (by simp) (by simp only [Go.setBytes_singleton]; omega),
    Go.setBytes_singleton]

theorem toNat_toUInt64_byte (h0 : UInt8) : h0.toNat.toUInt64.toNat = h0.toNat := by
  have h0lt := h0.toNat_lt
  exact UInt64.toNat_ofNat_of_lt' (by rw [UInt64.size]; omega)

theorem not_lt_c0 {h0 : UInt8} (hc0 : 0xc0 ≤ h0.toNat) : ¬ h0.toNat.toUInt64 < c0 := by
  rw [UInt64.lt_iff_toNat_lt, toNat_toUInt64_byte]
  simp only [c0, UInt64.reduceToNat]
  omega

theorem rlpLength_of_short {txsData : List UInt8} {pos num : UInt64} (hshort : ¬ shortRlp < num - c0) :
    rlpLength txsData pos num = .ok (.ok (num - c0)) := by
  dsimp only [rlpLength]
  rw [if_neg hshort]
  rfl

theorem rlpLength_of_truncated {txsData : List UInt8} {pos num : UInt64} (hlong : shortRlp < num - c0)
    (hpast : txsData.length.toUInt64 < pos + 1 + num - f7) : rlpLength txsData pos num = .ok (.error none) := by
  dsimp only [rlpLength]
  rw [if_pos hlong, if_pos hpast]
  rfl

theorem rlpLength_of_long {txsData lengthBytes : List UInt8} {pos num : UInt64} {n : Nat}
    (hlong : shortRlp < num - c0) (hfits : ¬ txsData.length.toUInt64 < pos + 1 + num - f7)
    (hslice : Go.slice txsData (pos + 1).toNat (pos + 1 + num - f7).toNat = .ok lengthBytes)
    (hparse : Go.parseUint (Go.hexEncodeToString lengthBytes) 16 = .ok n) (hsum : ¬ n.toUInt64 + num < f7) :
    rlpLength txsData pos num = .ok (.ok (n.toUInt64 + num - f7)) := by
  simp only [rlpLength, if_pos hlong, if_neg hfits, hslice, hparse, if_neg hsum, bind, Except.bind, pure,
    Except.pure]

theorem rlpLength_ok_le {txsData : List UInt8} {pos num length : UInt64}
    (h : rlpLength txsData pos num = .ok (.ok length)) : length.toNat + 248 ≤ 2 ^ 64 := by
  dsimp only [rlpLength] at h
  split at h
  · split at h
    · cases h
    · obtain ⟨lengthBytes, -, h⟩ := except_bind_eq_ok.mp h
      split at h
      · cases h
      · rename_i n _
        split at h
        · cases h
        · rename_i hn
          cases h
          have hlt := UInt64.toNat_lt (n.toUInt64 + num)
          simp only [UInt64.lt_iff_toNat_lt, f7, UInt64.reduceToNat] at hn
          rw [UInt64.toNat_sub]
          simp only [f7, UInt64.reduceToNat]
          omega
  · rename_i hshort
    cases h
    simp only [UInt64.lt_iff_toNat_lt, shortRlp, UInt64.reduceToNat] at hshort
    omega

theorem endPosition_eq (forkID pos length : UInt64) :
    endPosition forkID pos length = pos + (length + if forkID5 ≤ forkID then 67 else 66) := by
  by_cases hfork : forkID5 ≤ forkID
  · simp only [endPosition, hfork, if_true, rLength, sLength, vLength, headerByteLength,
      efficiencyPercentageByteLength, UInt64.add_assoc, UInt64.reduceAdd]
  · simp only [endPosition, hfork, if_false, rLength, sLength, vLength, headerByteLength,
      UInt64.add_assoc, UInt64.reduceAdd]

theorem lt_add_of_not_add_lt {a d : UInt64} (hd : 0 < d.toNat) (h : ¬ a + d < a) : a < a + d := by
  have ha := UInt64.toNat_lt a
  have hd' := UInt64.toNat_lt d
  rw [UInt64.lt_iff_toNat_lt, UInt64.toNat_add] at h ⊢
  omega

theorem lt_endPosition {forkID pos length : UInt64} (hlen : length.toNat + 248 ≤ 2 ^ 64)
    (h : ¬ endPosition forkID pos length < pos) : pos < endPosition forkID pos length := by
  have hstep : ∀ c : UInt64, 0 < c.toNat → c.toNat ≤ 67 → 0 < (length + c).toNat := by
    intro c hc hc'
    rw [UInt64.toNat_add]
    omega
  rw [endPosition_eq] at h ⊢
  split_ifs at h ⊢
  · exact lt_add_of_not_add_lt (hstep 67 (by decide) (by decide)) h
  · exact lt_add_of_not_add_lt (hstep 66 (by decide) (by decide)) h

theorem decodeTxFields_next {lib : EthLib} {endPos endPos' : UInt64}
    {txInfo rData sData vData : List UInt8} {percentage percentage' : Option UInt8}
    {tx : LegacyTx}
    (h : decodeTxFields lib endPos txInfo rData sData vData percentage = .next endPos' tx percentage') :
    endPos' = endPos := by
  unfold decodeTxFields at h
  split at h
  · cases h
  · split at h
    · cases h
    · cases h
      rfl

theorem decodeTxChunk_next {lib : EthLib} {txsData : List UInt8}
    {forkID pos length endPos endPos' : UInt64} {tx : LegacyTx} {percentage : Option UInt8}
    (h : decodeTxChunk lib txsData forkID pos length endPos = .ok (.next endPos' tx percentage)) :
    endPos' = endPos := by
  simp only [decodeTxChunk, except_bind_eq_ok] at h
  obtain ⟨_, -, _, -, _, -, _, -, _, -, _, -, h⟩ := h
  exact decodeTxFields_next (Except.ok.inj h)

theorem decodeTxStep_next_lt {lib : EthLib} {txsData : List UInt8} {forkID pos endPos : UInt64}
    {tx : LegacyTx} {percentage : Option UInt8}
    (h : decodeTxStep lib txsData forkID pos = .ok (.next endPos tx percentage)) :
    pos < endPos := by
  simp only [decodeTxStep] at h
  split at h
  · cases h
  · split at h
    · cases h
    · split at h
      · cases h
      · split at h
        · cases h
        · cases h
        · rename_i length hl
          split at h
          · cases h
          · split at h
            · cases h
            · rename_i hge
              rw [decodeTxChunk_next h]
              exact lt_endPosition (rlpLength_ok_le hl) hge

theorem decodeTxStep_next_sub_lt {lib : EthLib} {txsData : List UInt8} {forkID pos endPos : UInt64}
    {tx : LegacyTx} {percentage : Option UInt8} (hpos : pos < txsData.length.toUInt64)
    (hstep : decodeTxStep lib txsData forkID pos = .ok (.next endPos tx percentage)) :
    txsData.length - endPos.toNat < txsData.length - pos.toNat := by
  have hlt := UInt64.lt_iff_toNat_lt.mp (decodeTxStep_next_lt hstep)
  have hle : pos.toNat < txsData.length := by
    have := UInt64.lt_iff_toNat_lt.mp hpos
    simp only [Nat.toUInt64_eq, UInt64.toNat_ofNat'] at this
    exact lt_of_lt_of_le this (Nat.mod_le _ _)
  omega

/-- The loop of `DecodeTxs` from offset `pos`, with the transactions and
percentages read so far.  An early return of a round gives back no
transactions and no percentages, with that round's error value. -/
def decodeTxsLoop (lib : EthLib) (txsData : List UInt8) (forkID : UInt64) (pos : UInt64)
    (txs : List LegacyTx) (efficiencyPercentages : List UInt8) : Except Go.Panic DecodedTxs :=
  if hpos : pos < txsData.length.toUInt64 then
    match hstep : decodeTxStep lib txsData forkID pos with
    | .error p => .error p
    | .ok (.stop err) => .ok ⟨[], txsData, [], err⟩
    | .ok (.next endPos tx percentage) =>
      have := decodeTxStep_next_sub_lt hpos hstep
      decodeTxsLoop lib txsData forkID endPos (txs ++ [tx])
        (efficiencyPercentages ++ percentage.toList)
  else .ok ⟨txs, txsData, efficiencyPercentages, none⟩
termination_by txsData.length - pos.toNat

theorem decodeTxsLoop_done {lib : EthLib} {txsData : List UInt8} {forkID pos : UInt64}
    {txs : List LegacyTx} {efficiencyPercentages : List UInt8}
    (hpos : ¬ pos < txsData.length.toUInt64) :
    decodeTxsLoop lib txsData forkID pos txs efficiencyPercentages =
      .ok ⟨txs, txsData, efficiencyPercentages, none⟩ := by
  rw [decodeTxsLoop, dif_neg hpos]

theorem decodeTxsLoop_stop {lib : EthLib} {txsData : List UInt8} {forkID pos : UInt64}
    {txs : List LegacyTx} {efficiencyPercentages : List UInt8} {err : Option DecodeError}
    (hpos : pos < txsData.length.toUInt64)
    (h : decodeTxStep lib txsData forkID pos = .ok (.stop err)) :
    decodeTxsLoop lib txsData forkID pos txs efficiencyPercentages = .ok ⟨[], txsData, [], err⟩ := by
  rw [decodeTxsLoop, dif_pos hpos]
  split <;> simp_all

theorem decodeTxsLoop_next {lib : EthLib} {txsData : List UInt8} {forkID pos endPos : UInt64}
    {txs : List LegacyTx} {efficiencyPercentages : List UInt8} {tx : LegacyTx}
    {percentage : Option UInt8} (hpos : pos < txsData.length.toUInt64)
    (h : decodeTxStep lib txsData forkID pos = .ok (.next endPos tx percentage)) :
    decodeTxsLoop lib txsData forkID pos txs efficiencyPercentages =
      decodeTxsLoop lib txsData forkID endPos (txs ++ [tx])
        (efficiencyPercentages ++ percentage.toList) := by
  rw [decodeTxsLoop, dif_pos hpos]
  split <;> simp_all

theorem decodeTxsLoop_panic {lib : EthLib} {txsData : List UInt8} {forkID pos : UInt64}
    {txs : List LegacyTx} {efficiencyPercentages : List UInt8} {p : Go.Panic}
    (hpos : pos < txsData.length.toUInt64)
    (h : decodeTxStep lib txsData forkID pos = .error p) :
    decodeTxsLoop lib txsData forkID pos txs efficiencyPercentages = .error p := by
  rw [decodeTxsLoop, dif_pos hpos]
  split <;> simp_all

def decodeTxs (lib : EthLib) (txsData : List UInt8) (forkID : UInt64) : Except Go.Panic DecodedTxs :=
  if txsData.length.toUInt64 = 0 then .ok ⟨[], txsData, [], none⟩
  else decodeTxsLoop lib txsData forkID 0 [] []

end CdkValidium.State
