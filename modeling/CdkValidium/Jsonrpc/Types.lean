import CdkValidium.Jsonrpc.Codec

/-!
# Argument codecs of the JSON-RPC types

`ArgUint64`, `ArgBytes` and `ArgBig` are written as `0x` and hex digits, and
read back after one optional `0x` prefix is trimmed; `ArgBytes` and `ArgBig`
read through `decodeToHex`, which puts a `0` in front of text of odd length.

Each codec reads back what it writes (`argUint64_roundTrip`,
`argBytes_roundTrip`, `argBig_roundTrip`, the last for `x ≥ 0`).  On text with a
character that is not a hex digit, `ArgUint64` and `ArgBig` keep the receiver
and report the error (`argUint64_unmarshalText_of_not_hex`,
`argBig_unmarshalText_of_not_hex`); `ArgBytes` keeps the receiver too, but its
`UnmarshalText` returns `nil` in place of the error
(`argBytes_unmarshalText_of_not_hex`).
-/

namespace CdkValidium.Jsonrpc

abbrev ArgUint64 := UInt64

/-- `ArgUint64.MarshalText`: `0x`, then `strconv.AppendUint` in base 16; it
never fails. -/
def ArgUint64.marshalText (b : ArgUint64) : List Char :=
  Go.appendUint "0x".toList b 16

/-- `ArgUint64.UnmarshalText`: `strings.TrimPrefix(input, "0x")`, then
`strconv.ParseUint(str, 16, 64)`. -/
def ArgUint64.unmarshalText (b : ArgUint64) (input : List Char) : ArgUint64 × Option Go.NumError :=
  unmarshalWith (fun input => (Go.parseUint (Go.trimPrefix input "0x".toList) 16).map UInt64.ofNat) b input

/-- `encodeToHex`: `hex.EncodeToString`, a `0` in front when that has odd
length, and `0x` in front. -/
def encodeToHex (b : List UInt8) : List Char :=
  let str := Go.hexEncodeToString b
  let str := if str.length % 2 ≠ 0 then '0' :: str else str
  "0x".toList ++ str

/-- `decodeToHex`: one `0x` prefix trimmed, a `0` in front of text of odd
length, then `hex.DecodeString`. -/
def decodeToHex (b : List Char) : Except Go.HexError (List UInt8) :=
  let str := Go.trimPrefix b "0x".toList
  let str := if str.length % 2 ≠ 0 then '0' :: str else str
  Go.hexDecodeString str

abbrev ArgBytes := List UInt8

/-- `ArgBytes.MarshalText`; it never fails. -/
def ArgBytes.marshalText (b : ArgBytes) : List Char :=
  encodeToHex b

/-- `ArgBytes.UnmarshalText`: the receiver is set to the decoded bytes; when
`decodeToHex` fails it is left as it is and `nil` is returned. -/
def ArgBytes.unmarshalText (b : ArgBytes) (input : List Char) : ArgBytes × Option Go.HexError :=
  match decodeToHex input with
  | .error _ => (b, none)
  | .ok hh => (hh, none)

/-- `ArgBig`: a `big.Int`. -/
abbrev ArgBig := Int

/-- `ArgBig.UnmarshalText`: `decodeToHex`, then `new(big.Int).SetBytes(buf)`. -/
def ArgBig.unmarshalText (a : ArgBig) (input : List Char) : ArgBig × Option Go.HexError :=
  unmarshalWith (fun input => (decodeToHex input).map fun buf => (Go.setBytes buf : Int)) a input

/-- `ArgBig.MarshalText`: `0x`, then `b.Text(16)`; it never fails. -/
def ArgBig.marshalText (a : ArgBig) : List Char :=
  "0x".toList ++ Go.bigText a 16

/-! ### Padding to an even length -/

theorem padOdd_eq_padZero (str : List Char) :
    (if str.length % 2 ≠ 0 then '0' :: str else str) = Go.padZero (2 * ((str.length + 1) / 2)) str := by
  rw [Go.padZero]
  split_ifs with hodd
  · rw [show 2 * ((str.length + 1) / 2) - str.length = 1 by omega]
    rfl
  · rw [show 2 * ((str.length + 1) / 2) - str.length = 0 by omega]
    rfl

theorem encodeToHex_eq (b : List UInt8) : encodeToHex b = "0x".toList ++ Go.hexEncodeToString b := by
  simp [encodeToHex]

theorem decodeToHex_zeroX_append (str : List Char) :
    decodeToHex ("0x".toList ++ str) = Go.hexDecodeString (Go.padZero (2 * ((str.length + 1) / 2)) str) := by
  rw [decodeToHex, Go.trimPrefix_append, padOdd_eq_padZero]

theorem decodeToHex_toDigits (n : Nat) :
    ∃ buf, decodeToHex ("0x".toList ++ Nat.toDigits 16 n) = .ok buf ∧ Go.setBytes buf = n := by
  have hpos : 0 < (Nat.toDigits 16 n).length := List.length_pos_iff.mpr (Go.toDigits_ne_nil (by norm_num) n)
  have hk : 0 < ((Nat.toDigits 16 n).length + 1) / 2 := by omega
  have hn : n < 16 ^ (2 * (((Nat.toDigits 16 n).length + 1) / 2)) :=
    (Nat.length_toDigits_le_iff (by norm_num) (by omega)).mp (by omega)
  have h256 : (16 : Nat) ^ (2 * (((Nat.toDigits 16 n).length + 1) / 2)) =
      256 ^ (((Nat.toDigits 16 n).length + 1) / 2) := by
    rw [pow_mul]
    norm_num
  refine ⟨_, by rw [decodeToHex_zeroX_append, Go.hexDecodeString_padZero_toDigits hk hn], ?_⟩
  rw [Go.setBytes_bytesBE, Nat.mod_eq_of_lt (h256 ▸ hn)]

theorem decodeToHex_of_not_hex {input : List Char}
    (h : ∃ c ∈ Go.trimPrefix input "0x".toList, Go.fromHexChar c = none) :
    ∃ e, decodeToHex input = .error e := by
  obtain ⟨c, hc, hbad⟩ := h
  apply Go.hexDecodeString_of_not_hex
  refine ⟨c, ?_, hbad⟩
  split_ifs
  · exact List.mem_cons_of_mem _ hc
  · exact hc

/-! ### Round trips -/

theorem argUint64_roundTrip (b n : ArgUint64) : ArgUint64.unmarshalText b (ArgUint64.marshalText n) = (n, none) := by
  apply unmarshalWith_of_ok
  rw [ArgUint64.marshalText, Go.appendUint, Go.trimPrefix_append,
    Go.parseUint_toDigits (by norm_num) (by norm_num) n.toNat_lt]
  exact congrArg Except.ok UInt64.ofNat_toNat

theorem argBytes_roundTrip (b bs : ArgBytes) : ArgBytes.unmarshalText b (ArgBytes.marshalText bs) = (bs, none) := by
  have heven : (Go.hexEncodeToString bs).length % 2 = 0 := by simp
  have hpad : Go.padZero (2 * (((Go.hexEncodeToString bs).length + 1) / 2)) (Go.hexEncodeToString bs) =
      Go.hexEncodeToString bs := by
    rw [← padOdd_eq_padZero, if_neg (by omega)]
  rw [ArgBytes.unmarshalText, ArgBytes.marshalText, encodeToHex_eq, decodeToHex_zeroX_append, hpad,
    Go.hexDecodeString_hexEncodeToString]

theorem argBig_roundTrip (a x : ArgBig) (hx : 0 ≤ x) : ArgBig.unmarshalText a (ArgBig.marshalText x) = (x, none) := by
  apply unmarshalWith_of_ok
  obtain ⟨buf, hbuf, hval⟩ := decodeToHex_toDigits x.natAbs
  rw [ArgBig.marshalText, Go.bigText, if_neg (not_lt.mpr hx), hbuf]
  change Except.ok ((Go.setBytes buf : Nat) : Int) = _
  rw [hval, Int.natAbs_of_nonneg hx]

/-! ### Malformed text -/

theorem argUint64_unmarshalText_of_not_hex {input : List Char}
    (h : ∃ c ∈ Go.trimPrefix input "0x".toList, Go.fromHexChar c = none) (b : ArgUint64) :
    ∃ e, ArgUint64.unmarshalText b input = (b, some e) := by
  obtain ⟨e, he⟩ := Go.parseUint_of_not_hex h
  exact ⟨e, unmarshalWith_of_error (by rw [he]; rfl) b⟩

theorem argBig_unmarshalText_of_not_hex {input : List Char}
    (h : ∃ c ∈ Go.trimPrefix input "0x".toList, Go.fromHexChar c = none) (a : ArgBig) :
    ∃ e, ArgBig.unmarshalText a input = (a, some e) := by
  obtain ⟨e, he⟩ := decodeToHex_of_not_hex h
  exact ⟨e, unmarshalWith_of_error (by rw [he]; rfl) a⟩

/-- **`ArgBytes` drops its decoding error.**  On text that is not hex after the
prefix, `ArgBytes.UnmarshalText` leaves the receiver as it is and returns no
error, so an empty receiver stays empty calldata. -/
theorem argBytes_unmarshalText_of_not_hex {input : List Char}
    (h : ∃ c ∈ Go.trimPrefix input "0x".toList, Go.fromHexChar c = none) (b : ArgBytes) :
    ArgBytes.unmarshalText b input = (b, none) := by
  obtain ⟨e, he⟩ := decodeToHex_of_not_hex h
  rw [ArgBytes.unmarshalText, he]

theorem argBytes_unmarshalText_of_not_hex_zz :
    (∃ c ∈ Go.trimPrefix "0xzz".toList "0x".toList, Go.fromHexChar c = none) ∧
      ArgBytes.unmarshalText [] "0xzz".toList = ([], none) :=
  ⟨⟨'z', by decide, by decide⟩, argBytes_unmarshalText_of_not_hex ⟨'z', by decide, by decide⟩ []⟩

end CdkValidium.Jsonrpc
