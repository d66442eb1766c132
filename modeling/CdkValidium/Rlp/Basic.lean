import CdkValidium.Go.Basic

/-!
# Recursive length prefix, for flat lists of byte strings

RLP writes a byte string as itself when it is one byte below `0x80`, else as a
header and the bytes; a list as a header and the concatenated encodings of its
items.  A header of a payload of `len < 56` bytes is the single byte
`offset + len`; a longer payload gets `offset + 55 + k` followed by the `k`
big-endian bytes of `len`.  The offsets are `0x80` for strings and `0xc0` for
lists.

Only lists of byte strings are needed here, so the decoder is the strict one
for that shape: `decodeStringList` accepts exactly one list, whose items are
all strings, in canonical form (no single byte below `0x80` wrapped in a
header, no long form for a short payload, no leading zero in a length), with
nothing after it.

* `beBytes`: big-endian bytes without leading zeros, the RLP form of a number.
* `encodeString`, `encodeList`, `header`.
* `takeString`, `takeStrings`, `decodeStringList`: the decoder.
-/

namespace Rlp

/-! ### Numbers as bytes -/

/-- Big-endian bytes of `n`, most significant first, without leading zeros
(`[]` for zero).  The fuel `n` is enough, as `n / 256 < n`. -/
def beBytes (n : Nat) : List UInt8 := go n n []
where
  go : Nat → Nat → List UInt8 → List UInt8
  | 0, _, acc => acc
  | fuel + 1, n, acc => if n = 0 then acc else go fuel (n / 256) (UInt8.ofNat (n % 256) :: acc)

/-! ### Encoding -/

/-- The header of an item with a payload of `len` bytes: `offset + len` for a
short payload, else `offset + 55 + k` and the `k` bytes of `len`. -/
def header (offset len : Nat) : List UInt8 :=
  if len < 56 then [UInt8.ofNat (offset + len)]
  else UInt8.ofNat (offset + 55 + (beBytes len).length) :: beBytes len

/-- The RLP of a byte string. -/
def encodeString (b : List UInt8) : List UInt8 :=
  match b with
  | [x] => if x < 0x80 then [x] else header 0x80 1 ++ [x]
  | _ => header 0x80 b.length ++ b

/-- The RLP of a list whose items are given already encoded. -/
def encodeList (items : List (List UInt8)) : List UInt8 :=
  header 0xc0 items.flatten.length ++ items.flatten

/-! ### Decoding -/

/-- Why a decoding fails (the errors of go-ethereum's `rlp` package). -/
inductive Error
  | eof
  | canonSize
  | valueTooLarge
  | moreThanOneValue
  | expectedString
  | expectedList
  deriving DecidableEq, Repr

/-- The payload of a long-form header: `k` length bytes at the front of `rest`,
then that many payload bytes. -/
def takeLong (k : Nat) (rest : List UInt8) : Except Error (List UInt8 × List UInt8) :=
  if rest.length < k then .error .eof
  else
    let lenBytes := rest.take k
    let len := Go.setBytes lenBytes
    if lenBytes.head? = some 0 then .error .canonSize
    else if len < 56 then .error .canonSize
    else if (rest.drop k).length < len then .error .valueTooLarge
    else .ok (((rest.drop k).take len), ((rest.drop k).drop len))

/-- One byte string off the front of the input: its bytes and what follows. -/
def takeString : List UInt8 → Except Error (List UInt8 × List UInt8)
  | [] => .error .eof
  | x :: rest =>
    if x < 0x80 then .ok ([x], rest)
    else if x < 0xb8 then
      let len := x.toNat - 0x80
      if rest.length < len then .error .valueTooLarge
      else if len = 1 ∧ rest.take 1 < [0x80] then .error .canonSize
      else .ok (rest.take len, rest.drop len)
    else if x < 0xc0 then takeLong (x.toNat - 0xb7) rest
    else .error .expectedString

/-- The byte strings of a list payload, in order. -/
def takeStrings (payload : List UInt8) : Except Error (List (List UInt8)) :=
  go payload.length payload
where
  go : Nat → List UInt8 → Except Error (List (List UInt8))
  | _, [] => .ok []
  | 0, _ :: _ => .error .eof
  | fuel + 1, b@(_ :: _) =>
    match takeString b with
    | .error e => .error e
    | .ok (s, rest) => (go fuel rest).map (s :: ·)

/-- The payload of the list at the front of the input and what follows it. -/
def takeList : List UInt8 → Except Error (List UInt8 × List UInt8)
  | [] => .error .eof
  | x :: rest =>
    if x < 0xc0 then .error .expectedList
    else if x < 0xf8 then
      let len := x.toNat - 0xc0
      if rest.length < len then .error .valueTooLarge
      else .ok (rest.take len, rest.drop len)
    else takeLong (x.toNat - 0xf7) rest

/-- `rlp.DecodeBytes` into a `[][]byte`: exactly one list of byte strings. -/
def decodeStringList (b : List UInt8) : Except Error (List (List UInt8)) :=
  match takeList b with
  | .error e => .error e
  | .ok (payload, rest) => if rest = [] then takeStrings payload else .error .moreThanOneValue

example : encodeList [encodeString [], encodeString [0x64]] = [0xc2, 0x80, 0x64] := by decide
example : decodeStringList [0xc2, 0x80, 0x64] = .ok [[], [0x64]] := by decide
example : decodeStringList [0xc2, 0x81, 0x64] = .error .canonSize := by decide

end Rlp
