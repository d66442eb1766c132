import CdkValidium.State.Helper
import CdkValidium.Rlp.RoundTrip

/-!
# The batch codec round trip

The codec calls go-ethereum for RLP and for the chain id; the round trip
holds for every `EthLib` that does there what go-ethereum does
(`EthLib.Lawful`, which `gethLib` is).  For a transaction whose signature and
fields fit the codec (`LegacyTx.WellFormed`), `prepareRPLTxData` is then the
RLP list of its fields, 32 bytes of `r`, 32 of `s` and one byte `27` or `28`
(`prepareRPLTxData_of_lawful`).  `DecodeTxs` reads such a transaction back at
any offset of the batch data, with its percentage byte from fork 5 on
(`decodeTxStep_rawTx`), so it decodes the concatenation of such frames into
their transactions and percentages (`decodeTxs_batchBytes`).
`EncodeTransactions` writes exactly that concatenation when every percentage
has two hex digits (`encodeTransactions_batchBytes`).
-/

namespace CdkValidium.State

open Go (except_bind_eq_ok)

/-! ### What the codec needs of go-ethereum -/

/-- What the codec's round trip needs of go-ethereum: `rlp.EncodeToBytes`
writes the RLP list of the fields, `rlp.DecodeBytes` reads such a list of
strings back, and `deriveChainId` gives `0` for a `V` of `27` or `28` and
`(V - 35) / 2` for an EIP-155 `V`. -/
structure EthLib.Lawful (lib : EthLib) : Prop where
  encodeToBytes_eq : ∀ fields, lib.encodeToBytes fields = .ok (Rlp.encodeList (fields.map RlpField.encode))
  decodeBytes_encodeList : ∀ items : List (List UInt8), (∀ b ∈ items, b.length < 2 ^ 64) →
    ((items.map Rlp.encodeString).flatten).length < 2 ^ 64 →
    lib.decodeBytes (Rlp.encodeList (items.map Rlp.encodeString)) = .ok items
  deriveChainId_of_low : ∀ v, v = 27 ∨ v = 28 → lib.deriveChainId v = 0
  deriveChainId_of_high : ∀ v, 37 ≤ v → v < 2 ^ 64 → lib.deriveChainId v = (v - 35) / 2

theorem gethDeriveChainId_of_low {v : Nat} (hv : v = 27 ∨ v = 28) : gethDeriveChainId v = 0 := by
  rw [gethDeriveChainId, if_pos (by omega), if_pos hv]

theorem gethDeriveChainId_of_high {v : Nat} (h37 : 37 ≤ v) (hv : v < 2 ^ 64) :
    gethDeriveChainId v = (v - 35) / 2 := by
  have hne : ¬ (v = 27 ∨ v = 28) := by omega
  have hmod : (v + 2 ^ 64 - 35) % 2 ^ 64 = v - 35 := by omega
  rw [gethDeriveChainId, if_pos hv, if_neg hne, hmod]

theorem gethLib_lawful : gethLib.Lawful where
  encodeToBytes_eq _ := rfl
  decodeBytes_encodeList items hitems htotal := by
    show (Rlp.decodeStringList _).mapError _ = _
    rw [Rlp.decodeStringList_encodeList items hitems htotal]
    rfl
  deriveChainId_of_low _ hv := gethDeriveChainId_of_low hv
  deriveChainId_of_high _ h37 hv := gethDeriveChainId_of_high h37 hv

variable {lib : EthLib}

/-! ### What the codec can carry -/

/-- The bytes of the RLP string go-ethereum writes for a field. -/
def RlpField.payload : RlpField → List UInt8
  | .uint n => Rlp.beBytes n
  | .address none => []
  | .address (some a) => a.bytes
  | .bytes b => b

@[simp] theorem RlpField.payload_uint (n : Nat) : (RlpField.uint n).payload = Rlp.beBytes n := rfl

@[simp] theorem RlpField.payload_bytes (b : List UInt8) : (RlpField.bytes b).payload = b := rfl

theorem RlpField.encode_eq (f : RlpField) : f.encode = Rlp.encodeString f.payload := by
  cases f with
  | address a => cases a <;> rfl
  | _ => rfl

/-- A legacy transaction the batch format can carry: `r` and `s` of 256 bits,
and `V` of 64 bits that is `27`, `28` or the EIP-155 value of a chain id. -/
structure LegacyTx.WellFormed (tx : LegacyTx) : Prop where
  r_lt : tx.r < 2 ^ 256
  s_lt : tx.s < 2 ^ 256
  v_lt : tx.v < 2 ^ 64
  v_eq : tx.v = 27 ∨ tx.v = 28 ∨ 37 ≤ tx.v

/-- The `v` byte `prepareRPLTxData` stores: `27` or `28` from the parity of `V`. -/
def vByte (tx : LegacyTx) : UInt8 := UInt8.ofNat (ether155V + (1 - tx.v % 2 ^ 64 % 2))

/-- The bytes of a transaction in the batch data: the RLP list of its fields,
then `r`, `s` and the `v` byte. -/
def rawTxBytes (lib : EthLib) (tx : LegacyTx) : List UInt8 :=
  Rlp.encodeList ((rlpFieldsToEncode lib tx).map RlpField.encode) ++ Go.bytesBE 32 tx.r ++
    Go.bytesBE 32 tx.s ++ [vByte tx]

/-- `prepareRPLTxData` with go-ethereum's RLP, for `r` and `s` of 256 bits. -/
theorem prepareRPLTxData_of_lawful (hlib : lib.Lawful) {tx : LegacyTx} (hr : tx.r < 2 ^ 256)
    (hs : tx.s < 2 ^ 256) :
    prepareRPLTxData lib tx = .ok (rawTxBytes lib tx) := by
  have hv : ether155V + (1 - tx.v % 2 ^ 64 % 2) < 256 ^ 1 := by simp only [ether155V]; omega
  have hrText : Go.padZero 64 (Go.sprintfX tx.r) = Go.hexEncodeToString (Go.bytesBE 32 tx.r) :=
    Go.padZero_sprintfX (k := 32) (by norm_num) (by simpa using hr)
  have hsText : Go.padZero 64 (Go.sprintfX tx.s) = Go.hexEncodeToString (Go.bytesBE 32 tx.s) :=
    Go.padZero_sprintfX (k := 32) (by norm_num) (by simpa using hs)
  have hvText : Go.padZero 2 (Go.sprintfX (ether155V + (1 - tx.v % 2 ^ 64 % 2))) =
      Go.hexEncodeToString [vByte tx] := by
    have h256 : (ether155V + (1 - tx.v % 2 ^ 64 % 2)) % 256 = ether155V + (1 - tx.v % 2 ^ 64 % 2) :=
      Nat.mod_eq_of_lt (by simpa using hv)
    rw [show (2 : Nat) = 2 * 1 from rfl, Go.padZero_sprintfX (by norm_num) hv]
    simp only [Go.bytesBE, vByte, List.nil_append, h256]
  simp only [prepareRPLTxData, hlib.encodeToBytes_eq]
  rw [hrText, hsText, hvText, ← Go.hexEncodeToString_append, ← Go.hexEncodeToString_append,
    ← Go.hexEncodeToString_append, Go.hexDecodeString_hexEncodeToString]
  rfl

/-! ### Reading the fields back -/

theorem toAddress_payload (a : Option Address) :
    (if RlpField.payload (.address a) ≠ [] then some (bytesToAddress (RlpField.payload (.address a)))
      else none) = a := by
  cases a with
  | none => rfl
  | some a =>
    have hne : a.bytes ≠ [] := fun h => by simpa [h] using a.length_eq
    simp [RlpField.payload, hne, bytesToAddress_bytes]

theorem rlpFieldsToLegacyTx_payloads (hlib : lib.Lawful) {tx : LegacyTx} (hwf : tx.WellFormed) :
    rlpFieldsToLegacyTx ((rlpFieldsToEncode lib tx).map RlpField.payload) [vByte tx]
      (Go.bytesBE 32 tx.r) (Go.bytesBE 32 tx.s) = .ok tx := by
  obtain ⟨nonce, gasPrice, gas, toAddress, value, data, v, r, s⟩ := tx
  have hto := toAddress_payload toAddress
  have hvlt : v < 2 ^ 64 := hwf.v_lt
  have hrlt : r < 2 ^ 256 := hwf.r_lt
  have hslt : s < 2 ^ 256 := hwf.s_lt
  have hveq : (v = 27 ∨ v = 28) ∨ 37 ≤ v := or_assoc.mpr hwf.v_eq
  rcases hveq with hlow | h37
  · -- `V` is `27` or `28`: no chain id fields, and the stored byte is `V`
    have hc := hlib.deriveChainId_of_low v hlow
    rcases hlow with rfl | rfl <;>
    · simp only [rlpFieldsToEncode, hc, Nat.zero_mod, lt_irrefl, if_false, List.append_nil,
        List.map_cons, List.map_nil, rlpFieldsToLegacyTx] at hto ⊢
      simp [Go.setBytes_bytesBE, hto, vByte, ether155V]
      exact ⟨hrlt, hslt⟩
  · -- an EIP-155 `V`: the chain id is stored, and `V` is rebuilt from it and the parity byte
    have hc := hlib.deriveChainId_of_high v h37 hvlt
    have hpos : 0 < (v - 35) / 2 % 2 ^ 64 := by omega
    simp only [rlpFieldsToEncode, hc, hpos, if_true, List.map_cons, List.map_nil,
      List.cons_append, List.nil_append, rlpFieldsToLegacyTx, RlpField.payload_uint] at hto ⊢
    have hv' : (((Go.setBytes [vByte ⟨nonce, gasPrice, gas, toAddress, value, data, v, r, s⟩] : Int) - 27) +
        ((Go.setBytes (Rlp.beBytes ((v - 35) / 2)) : Int) * 2 + 35)).toNat = v := by
      simp only [Go.setBytes_singleton, vByte, ether155V, Rlp.setBytes_beBytes, UInt8.toNat_ofNat']
      omega
    rw [hv']
    simp [Go.setBytes_bytesBE, hto]
    exact ⟨hrlt, hslt⟩

/-- The payload of the RLP list of a transaction's fields. -/
def rlpPayload (lib : EthLib) (tx : LegacyTx) : List UInt8 :=
  (((rlpFieldsToEncode lib tx).map RlpField.payload).map Rlp.encodeString).flatten

theorem rawTxBytes_eq (lib : EthLib) (tx : LegacyTx) :
    rawTxBytes lib tx = Rlp.header 0xc0 (rlpPayload lib tx).length ++ rlpPayload lib tx ++
      Go.bytesBE 32 tx.r ++ Go.bytesBE 32 tx.s ++ [vByte tx] := by
  have h : (rlpFieldsToEncode lib tx).map RlpField.encode =
      ((rlpFieldsToEncode lib tx).map RlpField.payload).map Rlp.encodeString := by
    rw [List.map_map]
    exact List.map_congr_left fun f _ => RlpField.encode_eq f
  rw [rawTxBytes, h, Rlp.encodeList, rlpPayload]

theorem length_rawTxBytes_pos (lib : EthLib) (tx : LegacyTx) : 0 < (rawTxBytes lib tx).length := by
  simp [rawTxBytes_eq, Go.length_bytesBE]

theorem decodeTxFields_rawTx (hlib : lib.Lawful) {tx : LegacyTx} (hwf : tx.WellFormed)
    (hP : (rlpPayload lib tx).length < 2 ^ 64) (endPos : UInt64) (percentage : Option UInt8) :
    decodeTxFields lib endPos (Rlp.header 0xc0 (rlpPayload lib tx).length ++ rlpPayload lib tx)
      (Go.bytesBE 32 tx.r) (Go.bytesBE 32 tx.s) [vByte tx] percentage = .next endPos tx percentage := by
  have hitems : ∀ b ∈ (rlpFieldsToEncode lib tx).map RlpField.payload, b.length < 2 ^ 64 := by
    intro b hb
    have hsub := List.sublist_flatten_of_mem (List.mem_map_of_mem (f := Rlp.encodeString) hb)
    have hle := Rlp.length_le_length_encodeString b
    have := hsub.length_le
    rw [← rlpPayload] at this
    omega
  have hbytes := hlib.decodeBytes_encodeList _ hitems hP
  rw [Rlp.encodeList, ← rlpPayload] at hbytes
  rw [decodeTxFields, hbytes]
  dsimp only
  rw [rlpFieldsToLegacyTx_payloads hlib hwf]

/-! ### One frame of the batch data -/

/-- The percentage byte a frame of the batch data carries from fork 5 on. -/
def percentageBytes (forkID : UInt64) (p : UInt8) : List UInt8 :=
  if forkID5 ≤ forkID then [p] else []

theorem length_percentageBytes (forkID : UInt64) (p : UInt8) :
    (percentageBytes forkID p).length = if forkID5 ≤ forkID then 1 else 0 := by
  unfold percentageBytes
  split <;> rfl

theorem toNat_endPosition {forkID pos length : UInt64} (h : pos.toNat + length.toNat + 67 < 2 ^ 64) :
    (endPosition forkID pos length).toNat =
      pos.toNat + length.toNat + 66 + if forkID5 ≤ forkID then 1 else 0 := by
  unfold endPosition
  split
  · simp only [UInt64.toNat_add, rLength, sLength, vLength, headerByteLength,
      efficiencyPercentageByteLength, UInt64.reduceToNat]
    omega
  · simp only [UInt64.toNat_add, rLength, sLength, vLength, headerByteLength, UInt64.reduceToNat]
    omega

theorem readPercentage_frame {pre post : List UInt8} {forkID start endPos : UInt64} {p : UInt8}
    (hstart : start.toNat = pre.length)
    (hend : endPos.toNat = pre.length + (percentageBytes forkID p).length) :
    readPercentage (pre ++ percentageBytes forkID p ++ post) forkID start endPos =
      .ok (percentageBytes forkID p).head? := by
  unfold readPercentage
  split
  · rw [Go.slice_append_middle pre _ post hstart hend]
    simp [percentageBytes, *]
  · simp [percentageBytes, *]

theorem decodeTxChunk_frame {pre rlp rData sData post : List UInt8} {vb p : UInt8}
    {forkID pos length : UInt64} (hr : rData.length = 32) (hs : sData.length = 32)
    (hN : (pre ++ rlp ++ rData ++ sData ++ [vb] ++ percentageBytes forkID p ++ post).length < 2 ^ 63)
    (hpos : pos.toNat = pre.length) (hlength : length.toNat + 1 = rlp.length) :
    decodeTxChunk lib (pre ++ rlp ++ rData ++ sData ++ [vb] ++ percentageBytes forkID p ++ post)
        forkID pos length (endPosition forkID pos length) =
      .ok (decodeTxFields lib (endPosition forkID pos length) rlp rData sData [vb]
        (percentageBytes forkID p).head?) := by
  have hN' := hN
  simp only [List.length_append, List.length_singleton, length_percentageBytes] at hN'
  have hend : (endPosition forkID pos length).toNat =
      pos.toNat + length.toNat + 66 + if forkID5 ≤ forkID then 1 else 0 :=
    toNat_endPosition (by omega)
  have hlen := length_percentageBytes forkID p
  have hds : (pos + length + headerByteLength).toNat = pre.length + rlp.length := by
    simp only [UInt64.toNat_add, headerByteLength, UInt64.reduceToNat]
    omega
  have hdr : (pos + length + headerByteLength + rLength).toNat = pre.length + rlp.length + 32 := by
    simp only [UInt64.toNat_add, headerByteLength, rLength, UInt64.reduceToNat]
    omega
  have hdrs : (pos + length + headerByteLength + rLength + sLength).toNat =
      pre.length + rlp.length + 32 + 32 := by
    simp only [UInt64.toNat_add, headerByteLength, rLength, sLength, UInt64.reduceToNat]
    omega
  have hdrsv : (pos + length + headerByteLength + rLength + sLength + vLength).toNat =
      pre.length + rlp.length + 32 + 32 + 1 := by
    simp only [UInt64.toNat_add, headerByteLength, rLength, sLength, vLength, UInt64.reduceToNat]
    omega
  have hs0 := @Go.slice_append_middle _ pre (rlp ++ rData ++ sData ++ [vb] ++ percentageBytes forkID p)
    post _ (endPosition forkID pos length).toNat hpos
    (by simp only [hend, hlen, List.length_append, List.length_singleton, hr, hs]; omega)
  have hs1 := @Go.slice_append_middle _ pre rlp
    (rData ++ sData ++ [vb] ++ percentageBytes forkID p ++ post) _ _ hpos hds
  have hs2 := @Go.slice_append_middle _ (pre ++ rlp) rData
    (sData ++ [vb] ++ percentageBytes forkID p ++ post) (pos + length + headerByteLength).toNat
    (pos + length + headerByteLength + rLength).toNat
    (by rw [hds, List.length_append]) (by rw [hdr, List.length_append, hr])
  have hs3 := @Go.slice_append_middle _ (pre ++ rlp ++ rData) sData
    ([vb] ++ percentageBytes forkID p ++ post) (pos + length + headerByteLength + rLength).toNat
    (pos + length + headerByteLength + rLength + sLength).toNat
    (by rw [hdr, List.length_append, List.length_append, hr])
    (by simp only [hdrs, List.length_append, hr, hs])
  have hs4 := @Go.slice_append_middle _ (pre ++ rlp ++ rData ++ sData) [vb]
    (percentageBytes forkID p ++ post) (pos + length + headerByteLength + rLength + sLength).toNat
    (pos + length + headerByteLength + rLength + sLength + vLength).toNat
    (by simp only [hdrs, List.length_append, hr, hs])
    (by simp only [hdrsv, List.length_append, hr, hs, List.length_singleton])
  have hread := @readPercentage_frame (pre ++ rlp ++ rData ++ sData ++ [vb]) post forkID
    (pos + length + headerByteLength + rLength + sLength + vLength) (endPosition forkID pos length) p
    (by simp only [hdrsv, List.length_append, hr, hs, List.length_singleton])
    (by simp only [hend, hlen, List.length_append, hr, hs, List.length_singleton]; omega)
  simp only [List.append_assoc] at hs0 hs1 hs2 hs3 hs4 hread ⊢
  simp only [decodeTxChunk, hs0, hs1, hs2, hs3, hs4, hread]
  rfl

theorem rlpLength_header {pre rest tail : List UInt8} {h0 : UInt8} {L : Nat}
    (hh : Rlp.header 0xc0 L = h0 :: tail) (hL : L ≤ rest.length)
    (hN : (pre ++ Rlp.header 0xc0 L ++ rest).length < 2 ^ 63) :
    0xc0 ≤ h0.toNat ∧ rlpLength (pre ++ Rlp.header 0xc0 L ++ rest) pre.length.toUInt64 h0.toNat.toUInt64 =
      .ok (.ok (tail.length + L).toUInt64) := by
  by_cases hshort : L < 56
  · -- one header byte `0xc0 + L`
    rw [Rlp.header, if_pos hshort] at hh ⊢
    obtain ⟨rfl, rfl⟩ := List.cons.inj hh
    have hx := Rlp.toNat_header_byte (m := 0xc0 + L) (by omega)
    have hlen : ¬ shortRlp < (0xc0 + L).toUInt64 - c0 := by
      simp only [UInt64.lt_iff_toNat_lt, UInt64.toNat_sub, Nat.toUInt64_eq, UInt64.toNat_ofNat', c0,
        shortRlp, UInt64.reduceToNat]
      omega
    refine ⟨by omega, ?_⟩
    rw [hx, rlpLength_of_short hlen]
    congr 2
    apply UInt64.toNat_inj.mp
    simp only [UInt64.toNat_sub, Nat.toUInt64_eq, UInt64.toNat_ofNat', c0, UInt64.reduceToNat,
      List.length_nil]
    omega
  · -- the byte `0xf7 + k` and the `k` bytes of `L`
    simp only [List.length_append, Rlp.length_header_long (Nat.le_of_not_lt hshort)] at hN
    have hLlt : L < 2 ^ 64 := by omega
    have hk := Rlp.length_beBytes_le (n := L) (k := 8) (by simpa using hLlt)
    have hk0 : (Rlp.beBytes L).length ≠ 0 := by
      simpa using Rlp.beBytes_ne_nil (n := L) (by omega)
    rw [Rlp.header, if_neg hshort] at hh ⊢
    obtain ⟨rfl, rfl⟩ := List.cons.inj hh
    have hx := Rlp.toNat_header_byte (m := 0xc0 + 55 + (Rlp.beBytes L).length) (by omega)
    have hpos : pre.length.toUInt64.toNat = pre.length :=
      UInt64.toNat_ofNat_of_lt' (by rw [UInt64.size]; omega)
    have hlong : shortRlp < (0xc0 + 55 + (Rlp.beBytes L).length).toUInt64 - c0 := by
      simp only [UInt64.lt_iff_toNat_lt, UInt64.toNat_sub, Nat.toUInt64_eq, UInt64.toNat_ofNat', c0,
        shortRlp, UInt64.reduceToNat]
      omega
    have hend : (pre.length.toUInt64 + 1 + (0xc0 + 55 + (Rlp.beBytes L).length).toUInt64 - f7).toNat =
        pre.length + 1 + (Rlp.beBytes L).length := by
      simp only [UInt64.toNat_sub, UInt64.toNat_add, hpos, Nat.toUInt64_eq, UInt64.toNat_ofNat', f7,
        UInt64.reduceToNat]
      omega
    have hfits : ¬ (pre ++ (UInt8.ofNat (0xc0 + 55 + (Rlp.beBytes L).length) :: Rlp.beBytes L) ++
        rest).length.toUInt64 < pre.length.toUInt64 + 1 + (0xc0 + 55 + (Rlp.beBytes L).length).toUInt64 - f7 := by
      rw [UInt64.lt_iff_toNat_lt, hend]
      simp only [List.length_append, List.length_cons, Nat.toUInt64_eq, UInt64.toNat_ofNat']
      omega
    have hbytes := @Go.slice_append_middle _ (pre ++ [UInt8.ofNat (0xc0 + 55 + (Rlp.beBytes L).length)])
      (Rlp.beBytes L) rest (pre.length.toUInt64 + 1).toNat
      (pre.length.toUInt64 + 1 + (0xc0 + 55 + (Rlp.beBytes L).length).toUInt64 - f7).toNat
      (by simp only [UInt64.toNat_add, hpos, List.length_append, List.length_singleton,
        UInt64.reduceToNat]; omega)
      (by rw [hend, List.length_append, List.length_singleton])
    simp only [List.append_assoc, List.cons_append, List.nil_append] at hbytes hfits
    have hparse : Go.parseUint (Go.hexEncodeToString (Rlp.beBytes L)) 16 = .ok L := by
      have hset : Go.setBytes (Rlp.beBytes L) < 2 ^ 64 := by rwa [Rlp.setBytes_beBytes]
      rw [Go.parseUint_hexEncodeToString (Rlp.beBytes_ne_nil (by omega)) hset, Rlp.setBytes_beBytes]
    have hsum : ¬ L.toUInt64 + (0xc0 + 55 + (Rlp.beBytes L).length).toUInt64 < f7 := by
      simp only [UInt64.lt_iff_toNat_lt, UInt64.toNat_add, Nat.toUInt64_eq, UInt64.toNat_ofNat', f7,
        UInt64.reduceToNat]
      omega
    refine ⟨by omega, ?_⟩
    simp only [List.append_assoc, List.cons_append]
    rw [hx, rlpLength_of_long hlong hfits hbytes hparse hsum]
    congr 2
    apply UInt64.toNat_inj.mp
    simp only [UInt64.toNat_sub, UInt64.toNat_add, Nat.toUInt64_eq, UInt64.toNat_ofNat', f7,
      UInt64.reduceToNat]
    omega

theorem decodeTxStep_of_header {txsData : List UInt8} {forkID pos length : UInt64}
    {h0 : UInt8} (hslice : Go.slice txsData pos.toNat (pos + 1).toNat = .ok [h0])
    (hc0 : 0xc0 ≤ h0.toNat) (hrlp : rlpLength txsData pos h0.toNat.toUInt64 = .ok (.ok length))
    (hN : txsData.length < 2 ^ 64) (hend : (endPosition forkID pos length).toNat ≤ txsData.length)
    (hlt : pos.toNat < (endPosition forkID pos length).toNat) :
    decodeTxStep lib txsData forkID pos =
      decodeTxChunk lib txsData forkID pos length (endPosition forkID pos length) := by
  have hfits : ¬ txsData.length.toUInt64 < endPosition forkID pos length := by
    simp only [UInt64.lt_iff_toNat_lt, Nat.toUInt64_eq, UInt64.toNat_ofNat']
    omega
  have hforward : ¬ endPosition forkID pos length < pos := by
    rw [UInt64.lt_iff_toNat_lt]
    omega
  simp only [decodeTxStep, hslice, parseUint_headerByte, not_lt_c0 hc0, hrlp, hfits, hforward, if_false]

theorem decodeTxStep_rawTx (hlib : lib.Lawful) {tx : LegacyTx} (hwf : tx.WellFormed) {forkID : UInt64} {p : UInt8}
    {pre post : List UInt8}
    (hN : (pre ++ rawTxBytes lib tx ++ percentageBytes forkID p ++ post).length < 2 ^ 63) :
    decodeTxStep lib (pre ++ rawTxBytes lib tx ++ percentageBytes forkID p ++ post) forkID
        pre.length.toUInt64 =
      .ok (.next (pre.length + (rawTxBytes lib tx ++ percentageBytes forkID p).length).toUInt64 tx
        (percentageBytes forkID p).head?) := by
  obtain ⟨h0, tail, hh⟩ := Rlp.header_eq_cons 0xc0 (rlpPayload lib tx).length
  have hrb := Go.length_bytesBE 32 tx.r
  have hsb := Go.length_bytesBE 32 tx.s
  have hlen := length_percentageBytes forkID p
  have hraw : (rawTxBytes lib tx).length = tail.length + (rlpPayload lib tx).length + 66 := by
    simp only [rawTxBytes_eq, List.length_append, hh, List.length_cons, hrb, hsb, List.length_nil]
    omega
  have hdata : pre ++ rawTxBytes lib tx ++ percentageBytes forkID p ++ post =
      pre ++ (Rlp.header 0xc0 (rlpPayload lib tx).length ++ rlpPayload lib tx) ++ Go.bytesBE 32 tx.r ++
        Go.bytesBE 32 tx.s ++ [vByte tx] ++ percentageBytes forkID p ++ post := by
    simp only [rawTxBytes_eq, List.append_assoc]
  have hN' := hN
  simp only [List.length_append, hraw, hlen] at hN'
  rw [hdata] at hN ⊢
  have hpos : pre.length.toUInt64.toNat = pre.length :=
    UInt64.toNat_ofNat_of_lt' (by rw [UInt64.size]; omega)
  have hslice : Go.slice (pre ++ (Rlp.header 0xc0 (rlpPayload lib tx).length ++ rlpPayload lib tx) ++
      Go.bytesBE 32 tx.r ++ Go.bytesBE 32 tx.s ++ [vByte tx] ++ percentageBytes forkID p ++ post)
      pre.length.toUInt64.toNat (pre.length.toUInt64 + 1).toNat = .ok [h0] := by
    have h := @Go.slice_append_middle _ pre [h0] (tail ++ rlpPayload lib tx ++ Go.bytesBE 32 tx.r ++
      Go.bytesBE 32 tx.s ++ [vByte tx] ++ percentageBytes forkID p ++ post) _
      (pre.length.toUInt64 + 1).toNat hpos
      (by simp only [UInt64.toNat_add, hpos, UInt64.reduceToNat, List.length_singleton]; omega)
    rw [hh]
    simp only [List.append_assoc, List.cons_append, List.nil_append] at h ⊢
    exact h
  have hheader := @rlpLength_header pre (rlpPayload lib tx ++ Go.bytesBE 32 tx.r ++ Go.bytesBE 32 tx.s ++
    [vByte tx] ++ percentageBytes forkID p ++ post) tail h0 (rlpPayload lib tx).length hh
    (by simp only [List.length_append]; omega) (by simpa only [List.append_assoc] using hN)
  obtain ⟨hc0, hrlp⟩ := hheader
  simp only [List.append_assoc] at hrlp
  have hlength : (tail.length + (rlpPayload lib tx).length).toUInt64.toNat =
      tail.length + (rlpPayload lib tx).length :=
    UInt64.toNat_ofNat_of_lt' (by rw [UInt64.size]; omega)
  have hend : (endPosition forkID pre.length.toUInt64 (tail.length + (rlpPayload lib tx).length).toUInt64).toNat =
      pre.length + (tail.length + (rlpPayload lib tx).length + 66) + (if forkID5 ≤ forkID then 1 else 0) := by
    rw [toNat_endPosition (by omega), hpos, hlength]
    omega
  have hDlen : (pre ++ (Rlp.header 0xc0 (rlpPayload lib tx).length ++ rlpPayload lib tx) ++ Go.bytesBE 32 tx.r ++
      Go.bytesBE 32 tx.s ++ [vByte tx] ++ percentageBytes forkID p ++ post).length =
      pre.length + (tail.length + (rlpPayload lib tx).length + 66) + (if forkID5 ≤ forkID then 1 else 0) +
        post.length := by
    simp only [List.length_append, hh, List.length_cons, hrb, hsb, List.length_nil, hlen]
    omega
  simp only [List.append_assoc] at hslice hDlen ⊢
  rw [decodeTxStep_of_header hslice hc0 hrlp (by omega) (by rw [hend, hDlen]; omega)
    (by rw [hend, hpos]; omega)]
  have hchunk := @decodeTxChunk_frame lib pre (Rlp.header 0xc0 (rlpPayload lib tx).length ++ rlpPayload lib tx)
    (Go.bytesBE 32 tx.r) (Go.bytesBE 32 tx.s) post (vByte tx) p forkID pre.length.toUInt64
    (tail.length + (rlpPayload lib tx).length).toUInt64 hrb hsb hN hpos
    (by rw [hlength, List.length_append, hh, List.length_cons]; omega)
  simp only [List.append_assoc] at hchunk
  have hnext : (pre.length + (rawTxBytes lib tx ++ percentageBytes forkID p).length).toUInt64 =
      endPosition forkID pre.length.toUInt64 (tail.length + (rlpPayload lib tx).length).toUInt64 := by
    apply UInt64.toNat_inj.mp
    rw [hend, Nat.toUInt64_eq, UInt64.toNat_ofNat', List.length_append, hraw, hlen]
    omega
  rw [hnext, hchunk, decodeTxFields_rawTx hlib hwf (by omega)]

/-! ### The whole batch -/

/-- The batch data of transactions with their percentages: one frame after the
other, each the transaction's bytes and, from fork 5 on, its percentage byte. -/
def batchBytes (lib : EthLib) (forkID : UInt64) (frames : List (LegacyTx × UInt8)) : List UInt8 :=
  (frames.map fun f => rawTxBytes lib f.1 ++ percentageBytes forkID f.2).flatten

@[simp] theorem batchBytes_nil (lib : EthLib) (forkID : UInt64) : batchBytes lib forkID [] = [] := rfl

@[simp] theorem batchBytes_cons (lib : EthLib) (forkID : UInt64) (f : LegacyTx × UInt8) (frames : List (LegacyTx × UInt8)) :
    batchBytes lib forkID (f :: frames) =
      rawTxBytes lib f.1 ++ percentageBytes forkID f.2 ++ batchBytes lib forkID frames := rfl

theorem batchBytes_append (lib : EthLib) (forkID : UInt64) (frames frames' : List (LegacyTx × UInt8)) :
    batchBytes lib forkID (frames ++ frames') = batchBytes lib forkID frames ++ batchBytes lib forkID frames' := by
  simp [batchBytes]

theorem flatten_percentageBytes (forkID : UInt64) (frames : List (LegacyTx × UInt8)) :
    (frames.map fun f => percentageBytes forkID f.2).flatten =
      if forkID5 ≤ forkID then frames.map Prod.snd else [] := by
  induction frames with
  | nil => split <;> rfl
  | cons f frames ih =>
    rw [List.map_cons, List.flatten_cons, ih, percentageBytes]
    split <;> rfl

theorem toList_head?_percentageBytes (forkID : UInt64) (p : UInt8) :
    (percentageBytes forkID p).head?.toList = percentageBytes forkID p := by
  unfold percentageBytes
  split <;> rfl

theorem decodeTxsLoop_batchBytes (hlib : lib.Lawful) {forkID : UInt64} :
    ∀ (frames : List (LegacyTx × UInt8)) (pre : List UInt8) (txs : List LegacyTx)
      (efficiencyPercentages : List UInt8), (∀ f ∈ frames, f.1.WellFormed) →
      (pre ++ batchBytes lib forkID frames).length < 2 ^ 63 →
      decodeTxsLoop lib (pre ++ batchBytes lib forkID frames) forkID pre.length.toUInt64 txs
          efficiencyPercentages =
        .ok ⟨txs ++ frames.map Prod.fst, pre ++ batchBytes lib forkID frames,
          efficiencyPercentages ++ (frames.map fun f => percentageBytes forkID f.2).flatten, none⟩ := by
  intro frames
  induction frames with
  | nil =>
    intro pre txs efficiencyPercentages _ hN
    have hend : ¬ pre.length.toUInt64 < (pre ++ batchBytes lib forkID []).length.toUInt64 := by
      simp
    rw [decodeTxsLoop_done hend]
    simp
  | cons f frames ih =>
    intro pre txs efficiencyPercentages hwf hN
    have hdata : pre ++ batchBytes lib forkID (f :: frames) =
        pre ++ rawTxBytes lib f.1 ++ percentageBytes forkID f.2 ++ batchBytes lib forkID frames := by
      simp only [batchBytes_cons, List.append_assoc]
    have hraw := length_rawTxBytes_pos lib f.1
    rw [hdata] at hN ⊢
    have hpos : pre.length.toUInt64 < (pre ++ rawTxBytes lib f.1 ++ percentageBytes forkID f.2 ++
        batchBytes lib forkID frames).length.toUInt64 := by
      simp only [List.length_append] at hN ⊢
      simp only [UInt64.lt_iff_toNat_lt, Nat.toUInt64_eq, UInt64.toNat_ofNat']
      omega
    have hstep := decodeTxStep_rawTx hlib (hwf f List.mem_cons_self) hN
    have hnext : (pre.length + (rawTxBytes lib f.1 ++ percentageBytes forkID f.2).length).toUInt64 =
        (pre ++ (rawTxBytes lib f.1 ++ percentageBytes forkID f.2)).length.toUInt64 := by
      simp only [List.length_append]
    rw [decodeTxsLoop_next hpos hstep, hnext, toList_head?_percentageBytes]
    have hrest := ih (pre ++ (rawTxBytes lib f.1 ++ percentageBytes forkID f.2)) (txs ++ [f.1])
      (efficiencyPercentages ++ percentageBytes forkID f.2)
      (fun g hg => hwf g (List.mem_cons_of_mem _ hg)) (by simpa only [List.append_assoc] using hN)
    simp only [List.append_assoc] at hrest ⊢
    rw [hrest]
    simp

/-- `DecodeTxs` reads back the transactions and percentages of well-formed frames. -/
theorem decodeTxs_batchBytes (hlib : lib.Lawful) {forkID : UInt64} {frames : List (LegacyTx × UInt8)}
    (hwf : ∀ f ∈ frames, f.1.WellFormed) (hN : (batchBytes lib forkID frames).length < 2 ^ 63) :
    decodeTxs lib (batchBytes lib forkID frames) forkID =
      .ok ⟨frames.map Prod.fst, batchBytes lib forkID frames,
        (frames.map fun f => percentageBytes forkID f.2).flatten, none⟩ := by
  cases frames with
  | nil => rfl
  | cons f frames =>
    have hraw := length_rawTxBytes_pos lib f.1
    have hne : (batchBytes lib forkID (f :: frames)).length.toUInt64 ≠ 0 := by
      intro h
      have h' := congrArg UInt64.toNat h
      simp only [batchBytes_cons, List.length_append, Nat.toUInt64_eq, UInt64.toNat_ofNat',
        UInt64.reduceToNat] at h' hN
      omega
    have hloop := decodeTxsLoop_batchBytes hlib (f :: frames) [] [] [] hwf hN
    simp only [List.nil_append, List.length_nil] at hloop
    rw [decodeTxs, if_neg hne]
    exact hloop

/-! ### The encoder writes frames -/

section Encode

variable {forkID : UInt64} {effectivePercentages : List UInt8}

theorem encodeTransactions_go_batchBytes (hlib : lib.Lawful) :
    ∀ (frames pre : List (LegacyTx × UInt8)) (batchL2Data : List UInt8),
      (∀ f ∈ frames, f.1.WellFormed) →
      (forkID5 ≤ forkID →
        effectivePercentages = (pre ++ frames).map Prod.snd ∧ ∀ f ∈ frames, 16 ≤ f.2.toNat) →
      encodeTransactions.go lib effectivePercentages forkID pre.length (frames.map Prod.fst)
          batchL2Data =
        .ok (.ok (batchL2Data ++ batchBytes lib forkID frames)) := by
  intro frames
  induction frames with
  | nil =>
    intro pre batchL2Data _ _
    simp [encodeTransactions.go]
  | cons f frames ih =>
    intro pre batchL2Data hwf hep
    have hf := hwf f List.mem_cons_self
    have hwf' : ∀ g ∈ frames, g.1.WellFormed := fun g hg => hwf g (List.mem_cons_of_mem _ hg)
    have hlen : pre.length + 1 = (pre ++ [f]).length := by simp
    rw [List.map_cons, encodeTransactions.go, prepareRPLTxData_of_lawful hlib hf.r_lt hf.s_lt]
    dsimp only
    by_cases hfork : forkID5 ≤ forkID
    · -- the percentage at index `pre.length` is the frame's, and prints as two hex digits
      obtain ⟨heps, h16⟩ := hep hfork
      have hget : effectivePercentages[pre.length]? = some f.2 := by simp [heps]
      have hhex := Go.decodeHex_sprintfX_of_ge (h16 f List.mem_cons_self) f.2.toNat_lt
      rw [if_pos hfork, hget]
      dsimp only
      rw [hhex, UInt8.ofNat_toNat]
      dsimp only
      rw [hlen, ih (pre ++ [f]) _ hwf' fun h => ⟨by simpa using heps, fun g hg => h16 g
        (List.mem_cons_of_mem _ hg)⟩]
      simp [percentageBytes, hfork]
    · rw [if_neg hfork, hlen, ih (pre ++ [f]) _ hwf' fun h => absurd h hfork]
      simp [percentageBytes, hfork]

theorem le_toNat_of_encodeTransactions_go :
    ∀ (frames pre : List (LegacyTx × UInt8)) (batchL2Data t : List UInt8),
      (forkID5 ≤ forkID → effectivePercentages = (pre ++ frames).map Prod.snd) →
      encodeTransactions.go lib effectivePercentages forkID pre.length (frames.map Prod.fst)
          batchL2Data = .ok (.ok t) →
      forkID5 ≤ forkID → ∀ f ∈ frames, 16 ≤ f.2.toNat := by
  intro frames
  induction frames with
  | nil => intro _ _ _ _ _ _ f hf; cases hf
  | cons f frames ih =>
    intro pre batchL2Data t heps h hfork g hg
    rw [List.map_cons, encodeTransactions.go] at h
    have hget : effectivePercentages[pre.length]? = some f.2 := by simp [heps hfork]
    cases htx : prepareRPLTxData lib f.1 with
    | error e => rw [htx] at h; cases h
    | ok txData =>
      rw [htx] at h
      dsimp only at h
      rw [if_pos hfork, hget] at h
      dsimp only at h
      by_cases h16 : 16 ≤ f.2.toNat
      · rw [Go.decodeHex_sprintfX_of_ge h16 f.2.toNat_lt] at h
        dsimp only at h
        rcases List.mem_cons.mp hg with rfl | hg
        · exact h16
        · rw [show pre.length + 1 = (pre ++ [f]).length by simp] at h
          exact ih (pre ++ [f]) _ t (fun _ => by simpa using heps hfork) h hfork g hg
      · rw [Go.decodeHex_sprintfX_of_lt (Nat.lt_of_not_le h16)] at h
        cases h

/-- `EncodeTransactions` writes the frames of well-formed transactions whose
percentages, from fork 5 on, are given in order and have two hex digits. -/
theorem encodeTransactions_batchBytes (hlib : lib.Lawful) {frames : List (LegacyTx × UInt8)}
    (hwf : ∀ f ∈ frames, f.1.WellFormed)
    (hep : forkID5 ≤ forkID →
      effectivePercentages = frames.map Prod.snd ∧ ∀ f ∈ frames, 16 ≤ f.2.toNat) :
    encodeTransactions lib (frames.map Prod.fst) effectivePercentages forkID =
      .ok (.ok (batchBytes lib forkID frames)) := by
  have h := encodeTransactions_go_batchBytes hlib frames [] [] hwf (by simpa using hep)
  rw [List.nil_append] at h
  exact h

/-- What a successful `EncodeTransactions` of well-formed transactions wrote:
their frames, with percentages of two hex digits from fork 5 on. -/
theorem batchBytes_of_encodeTransactions (hlib : lib.Lawful) {frames : List (LegacyTx × UInt8)} {t : List UInt8}
    (hwf : ∀ f ∈ frames, f.1.WellFormed)
    (h : encodeTransactions lib (frames.map Prod.fst) (frames.map Prod.snd) forkID = .ok (.ok t)) :
    t = batchBytes lib forkID frames ∧ (forkID5 ≤ forkID → ∀ f ∈ frames, 16 ≤ f.2.toNat) := by
  have h16 : forkID5 ≤ forkID → ∀ f ∈ frames, 16 ≤ f.2.toNat :=
    le_toNat_of_encodeTransactions_go frames [] [] t (fun _ => by simp) h
  rw [encodeTransactions_batchBytes hlib hwf fun hfork => ⟨rfl, h16 hfork⟩] at h
  exact ⟨(Except.ok.inj (Except.ok.inj h)).symm, h16⟩

end Encode

end CdkValidium.State
