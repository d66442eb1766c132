import CdkValidium.Go.Basic

/-!
# Hex text of bytes and of padded numbers

`prepareRPLTxData` builds a transaction as hex text (the RLP as
`hex.EncodeToString`, then `r`, `s` and `v` printed with `%x` and padded with
zeros) and decodes the whole text back to bytes.  Here that text is shown to be
the `hex.EncodeToString` of bytes: a number below `256 ^ k` printed with `%x`
and padded to `2 * k` digits is the hex text of its `k` big-endian bytes
(`padZero_sprintfX`), and decoding the hex text of bytes gives them back
(`hexDecodeString_hexEncodeToString`).
-/

namespace Go

/-- The `k` bytes of `n` (modulo `256 ^ k`), most significant first. -/
def bytesBE : Nat → Nat → List UInt8
  | 0, _ => []
  | k + 1, n => bytesBE k (n / 256) ++ [UInt8.ofNat (n % 256)]

/-- The `w` lowercase hex digits of `n` (modulo `16 ^ w`), most significant first. -/
def hexDigits : Nat → Nat → List Char
  | 0, _ => []
  | w + 1, n => hexDigits w (n / 16) ++ [Nat.digitChar (n % 16)]

@[simp] theorem length_bytesBE (k n : Nat) : (bytesBE k n).length = k := by
  induction k generalizing n with
  | zero => rfl
  | succ k ih => simp [bytesBE, ih]

theorem setBytes_append_singleton (b : List UInt8) (x : UInt8) :
    setBytes (b ++ [x]) = 256 * setBytes b + x.toNat := by
  simp [setBytes, List.foldl_append]

theorem setBytes_bytesBE (k n : Nat) : setBytes (bytesBE k n) = n % 256 ^ k := by
  induction k generalizing n with
  | zero => simp [bytesBE, setBytes, Nat.mod_one]
  | succ k ih =>
    have h : n % 256 < 2 ^ 8 := by omega
    rw [bytesBE, setBytes_append_singleton, ih, UInt8.toNat_ofNat', Nat.mod_eq_of_lt h, pow_succ',
      Nat.mod_mul]
    ring

@[simp] theorem hexEncodeToString_append (a b : List UInt8) :
    hexEncodeToString (a ++ b) = hexEncodeToString a ++ hexEncodeToString b := by
  simp [hexEncodeToString]

theorem hexDecodeString_hexEncodeToString (bs : List UInt8) :
    hexDecodeString (hexEncodeToString bs) = .ok bs := by
  induction bs with
  | nil => rfl
  | cons b bs ih =>
    have hhi : b.toNat / 16 < 16 := by have := b.toNat_lt; omega
    have hlo : b.toNat % 16 < 16 := Nat.mod_lt _ (by norm_num)
    have hb : UInt8.ofNat (16 * (b.toNat / 16) + b.toNat % 16) = b := by
      rw [show 16 * (b.toNat / 16) + b.toNat % 16 = b.toNat by omega, UInt8.ofNat_toNat]
    rw [hexEncodeToString_cons, hexDecodeString, fromHexChar_digitChar hhi, fromHexChar_digitChar hlo, ih]
    simp only [hb, Except.map]

theorem hexDigits_zero (w : Nat) : hexDigits w 0 = List.replicate w '0' := by
  induction w with
  | zero => rfl
  | succ w ih =>
    rw [hexDigits, Nat.zero_div, ih, List.replicate_succ']
    rfl

theorem hexEncodeToString_bytesBE (k n : Nat) : hexEncodeToString (bytesBE k n) = hexDigits (2 * k) n := by
  induction k generalizing n with
  | zero => rfl
  | succ k ih =>
    have hlt : n % 256 < 2 ^ 8 := by omega
    rw [bytesBE, hexEncodeToString_append, ih, show 2 * (k + 1) = 2 * k + 1 + 1 by ring, hexDigits,
      hexDigits, Nat.div_div_eq_div_mul]
    simp only [hexEncodeToString, List.flatMap_cons, List.flatMap_nil, List.append_nil,
      UInt8.toNat_ofNat', Nat.mod_eq_of_lt hlt, List.append_assoc, List.cons_append, List.nil_append]
    rw [show n / 16 % 16 = n % 256 / 16 by omega, show n % 16 = n % 256 % 16 by omega]

theorem padZero_toDigits {w n : Nat} (hw : 0 < w) (hn : n < 16 ^ w) :
    padZero w (Nat.toDigits 16 n) = hexDigits w n := by
  induction w generalizing n with
  | zero => omega
  | succ w ih =>
    by_cases hsmall : n < 16
    · rw [Nat.toDigits_of_lt_base hsmall, hexDigits, Nat.div_eq_of_lt hsmall, hexDigits_zero,
        Nat.mod_eq_of_lt hsmall]
      simp [padZero]
    · have hw' : 0 < w := by
        rcases Nat.eq_zero_or_pos w with rfl | hw'
        · omega
        · exact hw'
      have hdiv : n / 16 < 16 ^ w := by
        rw [Nat.div_lt_iff_lt_mul (by norm_num)]
        simpa [pow_succ] using hn
      have hlen : (Nat.toDigits 16 (n / 16)).length ≤ w :=
        (Nat.length_toDigits_le_iff (by norm_num) hw').mpr hdiv
      rw [Nat.toDigits_of_base_le (by norm_num) (by omega), hexDigits, ← ih hw' hdiv]
      simp only [padZero, List.length_append, List.length_singleton, List.append_assoc]
      congr 2
      omega

theorem padZero_sprintfX {k n : Nat} (hk : 0 < k) (hn : n < 256 ^ k) :
    padZero (2 * k) (sprintfX n) = hexEncodeToString (bytesBE k n) := by
  have h16 : n < 16 ^ (2 * k) := by rw [pow_mul]; simpa using hn
  rw [sprintfX, padZero_toDigits (by omega) h16, hexEncodeToString_bytesBE]

end Go
