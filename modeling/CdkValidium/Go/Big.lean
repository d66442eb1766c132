import CdkValidium.Go.Hex

/-!
# `math/big` and `encoding/binary`

The merkle tree code turns 256-bit values into bytes and hex text with
`math/big` and reads 64-bit words with `encoding/binary`.  A `*big.Int` is an
`Int`.

* `Go.bigBytes`: `x.Bytes()`, big-endian without leading zeros.
* `Go.fillBytes`: `x.FillBytes(buf)`, zero-extended to the buffer, which
  panics when the value does not fit.
* `Go.setString`: `new(big.Int).SetString(s, base)`, with its optional sign.
* `Go.bigEndianUint64`: `binary.BigEndian.Uint64(b)`.

The hex text of `x.Bytes()` padded with `%064s` is the hex text of the 32
bytes `FillBytes` writes (`padZero_hexEncodeToString_bigBytes`), and
`SetString(·, 16)` reads the hex text of bytes back
(`setString_hexEncodeToString`).
-/

namespace Go

/-- `x.Bytes()` of `|x| = n`: big-endian, without leading zero bytes, empty
for zero. -/
def bigBytes (n : Nat) : List UInt8 :=
  if n = 0 then [] else bigBytes (n / 256) ++ [UInt8.ofNat (n % 256)]
decreasing_by omega

/-- `x.FillBytes(buf)` for a buffer of `k` bytes: the absolute value of `x`,
big-endian and zero-extended, or a panic when it needs more than `k` bytes. -/
def fillBytes (k : Nat) (x : Int) : Except Panic (List UInt8) :=
  if x.natAbs < 256 ^ k then .ok (bytesBE k x.natAbs) else .error .bufferTooSmall

/-- The digits of `SetString` from `n` on: every character a digit below
`base` (letters of either case from 10). -/
def scanDigits (base : Nat) : List Char → Nat → Option Nat
  | [], n => some n
  | c :: cs, n =>
    match digitValue c with
    | some d => if d < base then scanDigits base cs (base * n + d) else none
    | none => none

/-- `new(big.Int).SetString(s, base)` for `2 ≤ base ≤ 36`: an optional sign,
then at least one digit and nothing else; `none` when `ok` is false. -/
def setString (s : List Char) (base : Nat) : Option Int :=
  match s with
  | [] => none
  | c :: digits =>
    if c = '-' then (if digits = [] then none else (scanDigits base digits 0).map fun n => -(n : Int))
    else if c = '+' then (if digits = [] then none else (scanDigits base digits 0).map Int.ofNat)
    else (scanDigits base s 0).map Int.ofNat

/-- `binary.BigEndian.Uint64(b)`: the first eight bytes, most significant
first; the bounds check on `b[7]` panics on fewer. -/
def bigEndianUint64 (b : List UInt8) : Except Panic UInt64 :=
  if b.length < 8 then .error .indexOutOfRange else .ok (setBytes (b.take 8)).toUInt64

/-! ### Bytes of a number -/

theorem bigBytes_zero : bigBytes 0 = [] := by
  rw [bigBytes, if_pos rfl]

theorem bigBytes_of_pos {n : Nat} (hn : 0 < n) : bigBytes n = bigBytes (n / 256) ++ [UInt8.ofNat (n % 256)] := by
  rw [bigBytes, if_neg (by omega)]

theorem bytesBE_zero (k : Nat) : bytesBE k 0 = List.replicate k 0 := by
  induction k with
  | zero => rfl
  | succ k ih =>
    rw [bytesBE, Nat.zero_div, ih, List.replicate_succ']
    rfl

theorem bytesBE_add (k m n : Nat) : bytesBE (k + m) n = bytesBE k (n / 256 ^ m) ++ bytesBE m n := by
  induction m generalizing n with
  | zero => simp [bytesBE]
  | succ m ih =>
    rw [← Nat.add_assoc, bytesBE, ih, bytesBE, List.append_assoc, Nat.div_div_eq_div_mul, ← pow_succ']

theorem bytesBE_eq_replicate_append {k n : Nat} (hn : n < 256 ^ k) :
    bytesBE k n = List.replicate (k - (bigBytes n).length) 0 ++ bigBytes n := by
  induction k generalizing n with
  | zero =>
    rw [show n = 0 by simpa using hn, bigBytes_zero]
    rfl
  | succ k ih =>
    rcases Nat.eq_zero_or_pos n with rfl | hpos
    · rw [bigBytes_zero, bytesBE_zero, List.append_nil, List.length_nil, Nat.sub_zero]
    · have hdiv : n / 256 < 256 ^ k := Nat.div_lt_of_lt_mul (pow_succ' 256 k ▸ hn)
      rw [bytesBE, ih hdiv, bigBytes_of_pos hpos, List.length_append, List.length_singleton,
        Nat.add_sub_add_right, List.append_assoc]

theorem length_bigBytes_le {k n : Nat} (hn : n < 256 ^ k) : (bigBytes n).length ≤ k := by
  have hlen := congrArg List.length (bytesBE_eq_replicate_append hn)
  rw [length_bytesBE, List.length_append, List.length_replicate] at hlen
  omega

theorem hexEncodeToString_replicate_zero (m : Nat) :
    hexEncodeToString (List.replicate m 0) = List.replicate (2 * m) '0' := by
  induction m with
  | zero => rfl
  | succ m ih =>
    rw [List.replicate_succ, ← List.singleton_append, hexEncodeToString_append, ih,
      show 2 * (m + 1) = 2 + 2 * m by ring, List.replicate_add]
    rfl

theorem padZero_hexEncodeToString_bigBytes {k n : Nat} (hn : n < 256 ^ k) :
    padZero (2 * k) (hexEncodeToString (bigBytes n)) = hexEncodeToString (bytesBE k n) := by
  have hlen : (hexEncodeToString (bigBytes n)).length = 2 * (bigBytes n).length := by
    simp [hexEncodeToString, List.length_flatMap, Nat.mul_comm]
  have hle := length_bigBytes_le hn
  rw [bytesBE_eq_replicate_append hn, hexEncodeToString_append, hexEncodeToString_replicate_zero, padZero,
    hlen, ← Nat.mul_sub]

theorem fillBytes_of_lt {k : Nat} {x : Int} (h : x.natAbs < 256 ^ k) : fillBytes k x = .ok (bytesBE k x.natAbs) := by
  rw [fillBytes, if_pos h]

/-! ### Reading hex text -/

theorem scanDigits_hexEncodeToString (bs : List UInt8) (n : Nat) :
    scanDigits 16 (hexEncodeToString bs) n = some (bs.foldl (fun n x => 256 * n + x.toNat) n) := by
  induction bs generalizing n with
  | nil => rfl
  | cons b bs ih =>
    have hhi : b.toNat / 16 < 16 := by have := b.toNat_lt; omega
    have hlo : b.toNat % 16 < 16 := Nat.mod_lt _ (by norm_num)
    rw [hexEncodeToString_cons, scanDigits, digitValue_digitChar hhi]
    dsimp only
    rw [if_pos hhi, scanDigits, digitValue_digitChar hlo]
    dsimp only
    rw [if_pos hlo, show 16 * (16 * n + b.toNat / 16) + b.toNat % 16 = 256 * n + b.toNat by omega, ih]
    rfl

theorem digitChar_ne_sign {d : Nat} (h : d < 16) : Nat.digitChar d ≠ '-' ∧ Nat.digitChar d ≠ '+' := by
  interval_cases d <;> decide

theorem setString_hexEncodeToString {bs : List UInt8} (hne : bs ≠ []) :
    setString (hexEncodeToString bs) 16 = some (setBytes bs) := by
  obtain ⟨b, rest, rfl⟩ := List.exists_cons_of_ne_nil hne
  have hhi : b.toNat / 16 < 16 := by have := b.toNat_lt; omega
  obtain ⟨hminus, hplus⟩ := digitChar_ne_sign hhi
  rw [hexEncodeToString_cons, setString, if_neg hminus, if_neg hplus, ← hexEncodeToString_cons,
    scanDigits_hexEncodeToString]
  rfl

/-! ### `encoding/binary` -/

theorem bigEndianUint64_bytesBE_append (n : Nat) (rest : List UInt8) :
    bigEndianUint64 (bytesBE 8 n ++ rest) = .ok n.toUInt64 := by
  have htake : (bytesBE 8 n ++ rest).take 8 = bytesBE 8 n := List.take_left' (length_bytesBE 8 n)
  rw [bigEndianUint64, if_neg (by simp), htake, setBytes_bytesBE]
  congr 1
  apply UInt64.toNat_inj.mp
  simp [Nat.mod_mod_of_dvd]

end Go
