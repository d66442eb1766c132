import CdkValidium.Go.Big
import CdkValidium.Lib.Limbs

/-!
# The value and key codecs of the merkle tree

`merkletree/split.go` moves 256-bit numbers between three forms: eight 32-bit
limbs in `uint64`s (values, `scalar2fea` and `fea2scalar`), four 64-bit limbs
(keys and roots, `scalarToh4` and `h4ToScalar`), and hex text (`H4ToString`,
`StringToh4`, `fea2string`, `string2fea`).  Limbs are least significant first;
the bytes behind the text and behind `scalarToh4` are big-endian.
`StateTree.set` sends a value to the hash database as `fea2string` without its
`0x` (`feaValue`), and `StateTree.get` reads it back with `string2fea`.

Every conversion is the limb or byte form of `Limbs.limbs` and `Nat.ofDigits`
in base `2 ^ 32`, `2 ^ 64` or `256`:

* `scalar2fea_natCast`, `fea2scalar_of_length`: the 32-bit limbs;
* `scalarToh4_natCast`, `h4ToScalar_of_length`: the 64-bit limbs;
* `h4ToString_of_length`, `fea2string_of_lt`: the hex text.
-/

namespace CdkValidium

namespace Merkletree

open Limbs

/-- `poseidon.NROUNDSF`, the number of limbs `fea2scalar` reads. -/
def nRoundsF : Nat := 8

/-- `maxBigIntLen`: 256 bits in bytes. -/
def maxBigIntLen : Nat := 32

/-- `fea2scalar`: `v[0] + v[1] << 32 + … + v[7] << 224`, or `0` unless `v` has
`NROUNDSF` limbs. -/
def fea2scalar (v : List UInt64) : Int :=
  if v.length ≠ nRoundsF then 0 else (Nat.ofDigits (2 ^ 32) (v.map UInt64.toNat) : Nat)

/-- `scalar2fea`: limb `i` is `value >> 32i` masked with `FFFFFFFF`.  `Rsh`
rounds down and `And` reads two's complement, so the limb is the floor of
`value / 2 ^ 32i` modulo `2 ^ 32`. -/
def scalar2fea (value : Int) : List UInt64 :=
  (List.range 8).map fun i => (value / 2 ^ (32 * i) % 2 ^ 32).toNat.toUInt64

/-- `h4ToScalar`: `h4[0] + h4[1] << 64 + h4[2] << 128 + h4[3] << 192`; `0` for
an empty slice, and an index panic for one of one to three limbs. -/
def h4ToScalar (h4 : List UInt64) : Except Go.Panic Int :=
  if h4.length = 0 then .ok 0
  else if h4.length < 4 then .error .indexOutOfRange
  else .ok (Nat.ofDigits (2 ^ 64) ((h4.take 4).map UInt64.toNat) : Nat)

/-- `H4ToString`: `fmt.Sprintf("0x%064s", hex.EncodeToString(sc.Bytes()))`. -/
def h4ToString (h4 : List UInt64) : Except Go.Panic (List Char) := do
  let sc ← h4ToScalar h4
  pure ('0' :: 'x' :: Go.padZero 64 (Go.hexEncodeToString (Go.bigBytes sc.natAbs)))

/-- `if strings.HasPrefix(s, "0x") { s = s[2:] }`. -/
def trimPrefix0x : List Char → List Char
  | '0' :: 'x' :: rest => rest
  | s => s

theorem trimPrefix0x_cons (s : List Char) : trimPrefix0x ('0' :: 'x' :: s) = s := rfl

/-- The error of `StringToh4` and `string2fea`:
`fmt.Errorf("Could not convert %q into big int", s)`. -/
inductive ConvertError
  | couldNotConvert (s : List Char)
  deriving DecidableEq, Repr

/-- `ScalarToFilledByteSlice`: `s.FillBytes` into `maxBigIntLen` bytes. -/
def scalarToFilledByteSlice (s : Int) : Except Go.Panic (List UInt8) := Go.fillBytes maxBigIntLen s

/-- `fbe`: `binary.BigEndian.Uint64` of the bytes of `0xFFFFFFFFFFFFFFFF`. -/
def fbe : UInt64 := 0xFFFFFFFFFFFFFFFF

/-- `scalarToh4`: the four big-endian words of the filled bytes, the last word
first. -/
def scalarToh4 (s : Int) : Except Go.Panic (List UInt64) := do
  let b ← scalarToFilledByteSlice s
  let r3 ← Go.bigEndianUint64 (← Go.slice b 0 8)
  let r2 ← Go.bigEndianUint64 (← Go.slice b 8 16)
  let r1 ← Go.bigEndianUint64 (← Go.slice b 16 24)
  let r0 ← Go.bigEndianUint64 (← Go.slice b 24 b.length)
  pure [r0 &&& fbe, r1 &&& fbe, r2 &&& fbe, r3 &&& fbe]

/-- `StringToh4`: the text without `0x`, read as hex by `SetString`. -/
def stringToh4 (str : List Char) : Except Go.Panic (Except ConvertError (List UInt64)) :=
  let str := trimPrefix0x str
  match Go.setString str 16 with
  | none => .ok (.error (.couldNotConvert str))
  | some bi => (scalarToh4 bi).map .ok

/-- `string2fea`: the text read as hex by `SetString`, in 32-bit limbs. -/
def string2fea (s : List Char) : Except ConvertError (List UInt64) :=
  match Go.setString s 16 with
  | none => .error (.couldNotConvert s)
  | some bi => .ok (scalar2fea bi)

/-- `fea2string`: `hex.EncodeToHex` of the 32 filled bytes of `fea2scalar`. -/
def fea2string (fea : List UInt64) : Except Go.Panic (List Char) := do
  let biBytes ← scalarToFilledByteSlice (fea2scalar fea)
  pure ('0' :: 'x' :: Go.hexEncodeToString biBytes)

/-- The `Value` that `StateTree.set` sends: `fea2string` without its `0x`. -/
def feaValue (value : List UInt64) : Except Go.Panic (List Char) :=
  (fea2string value).map trimPrefix0x

/-! ### Limbs -/

theorem map_toNat_toUInt64 {l : List Nat} (hl : ∀ x ∈ l, x < 2 ^ 64) : (l.map Nat.toUInt64).map UInt64.toNat = l := by
  rw [List.map_map]
  conv_rhs => rw [← List.map_id l]
  apply List.map_congr_left
  intro x hx
  simp only [Function.comp, Nat.toUInt64_eq, UInt64.toNat_ofNat', Nat.mod_eq_of_lt (hl x hx), id]

theorem map_toUInt64_toNat (l : List UInt64) : (l.map UInt64.toNat).map Nat.toUInt64 = l := by
  simp [List.map_map, Function.comp_def]

theorem scalar2fea_natCast (x : Nat) : scalar2fea x = (limbs (2 ^ 32) 8 x).map Nat.toUInt64 := by
  rw [scalar2fea, limbs_eq_map_range, List.map_map]
  apply List.map_congr_left
  intro i _
  have hcast : ((x : Int) / 2 ^ (32 * i) % 2 ^ 32) = ((x / (2 ^ 32) ^ i % 2 ^ 32 : Nat) : Int) := by
    rw [← pow_mul]
    push_cast
    rfl
  rw [hcast, Int.toNat_natCast]
  rfl

theorem fea2scalar_of_length {v : List UInt64} (hv : v.length = 8) :
    fea2scalar v = (Nat.ofDigits (2 ^ 32) (v.map UInt64.toNat) : Nat) := by
  rw [fea2scalar, if_neg (by rw [hv]; decide)]

theorem fea2scalar_limbs (x : Nat) : fea2scalar ((limbs (2 ^ 32) 8 x).map Nat.toUInt64) = (x % 2 ^ 256 : Nat) := by
  have hlt : ∀ y ∈ limbs (2 ^ 32) 8 x, y < 2 ^ 64 :=
    fun y hy => (limbs_lt (by norm_num) 8 x y hy).trans (by norm_num)
  rw [fea2scalar_of_length (by simp), map_toNat_toUInt64 hlt, ofDigits_limbs]
  norm_num

theorem h4ToScalar_of_length {h4 : List UInt64} (hh : h4.length = 4) :
    h4ToScalar h4 = .ok (Nat.ofDigits (2 ^ 64) (h4.map UInt64.toNat) : Nat) := by
  rw [h4ToScalar, if_neg (by omega), if_neg (by omega), List.take_of_length_le (by omega)]

theorem toNat_lt_of_mem_map (l : List UInt64) : ∀ y ∈ l.map UInt64.toNat, y < 2 ^ 64 := by
  intro y hy
  obtain ⟨a, -, rfl⟩ := List.mem_map.mp hy
  exact UInt64.toNat_lt a

theorem ofDigits_toNat_lt {h4 : List UInt64} (hh : h4.length = 4) :
    Nat.ofDigits (2 ^ 64) (h4.map UInt64.toNat) < 2 ^ 256 := by
  have hlt := Nat.ofDigits_lt_base_pow_length (by norm_num) (toNat_lt_of_mem_map h4)
  rwa [List.length_map, hh, ← pow_mul] at hlt

/-! ### Bytes -/

theorem bytesBE_thirtyTwo (x : Nat) :
    Go.bytesBE 32 x = Go.bytesBE 8 (x / 2 ^ 192) ++
      (Go.bytesBE 8 (x / 2 ^ 128) ++ (Go.bytesBE 8 (x / 2 ^ 64) ++ Go.bytesBE 8 x)) := by
  rw [show 32 = 8 + 24 by rfl, Go.bytesBE_add, show 24 = 8 + 16 by rfl, Go.bytesBE_add,
    show 16 = 8 + 8 by rfl, Go.bytesBE_add]
  norm_num

theorem slice_words {A B C : List UInt8} (D : List UInt8) (hA : A.length = 8) (hB : B.length = 8)
    (hC : C.length = 8) :
    Go.slice (A ++ (B ++ (C ++ D))) 0 8 = .ok A ∧ Go.slice (A ++ (B ++ (C ++ D))) 8 16 = .ok B ∧
      Go.slice (A ++ (B ++ (C ++ D))) 16 24 = .ok C ∧
      Go.slice (A ++ (B ++ (C ++ D))) 24 (A ++ (B ++ (C ++ D))).length = .ok D := by
  refine ⟨?_, ?_, ?_, ?_⟩
  · rw [show A ++ (B ++ (C ++ D)) = [] ++ A ++ (B ++ (C ++ D)) by simp]
    exact Go.slice_append_middle _ _ _ (by simp) (by simp [hA])
  · rw [show A ++ (B ++ (C ++ D)) = A ++ B ++ (C ++ D) by simp]
    exact Go.slice_append_middle _ _ _ (by simp [hA]) (by simp [hA, hB])
  · rw [show A ++ (B ++ (C ++ D)) = (A ++ B) ++ C ++ D by simp]
    exact Go.slice_append_middle _ _ _ (by simp [hA, hB]) (by simp [hA, hB, hC])
  · rw [show A ++ (B ++ (C ++ D)) = (A ++ B ++ C) ++ D ++ [] by simp]
    exact Go.slice_append_middle _ _ _ (by simp [hA, hB, hC]) (by simp; omega)

theorem limbs_four (x : Nat) :
    (limbs (2 ^ 64) 4 x).map Nat.toUInt64 =
      [x.toUInt64, (x / 2 ^ 64).toUInt64, (x / 2 ^ 128).toUInt64, (x / 2 ^ 192).toUInt64] := by
  simp only [limbs, List.map_cons, List.map_nil, Nat.toUInt64_eq, UInt64.ofNat_mod_size, Nat.div_div_eq_div_mul]
  norm_num

theorem scalarToFilledByteSlice_natCast {x : Nat} (hx : x < 2 ^ 256) :
    scalarToFilledByteSlice x = .ok (Go.bytesBE 32 x) := by
  rw [scalarToFilledByteSlice, maxBigIntLen, Go.fillBytes_of_lt (by simpa using hx)]
  rfl

theorem scalarToh4_natCast {x : Nat} (hx : x < 2 ^ 256) : scalarToh4 x = .ok ((limbs (2 ^ 64) 4 x).map Nat.toUInt64) := by
  have hfill := scalarToFilledByteSlice_natCast hx
  rw [bytesBE_thirtyTwo] at hfill
  obtain ⟨h₀, h₁, h₂, h₃⟩ := slice_words (Go.bytesBE 8 x) (Go.length_bytesBE 8 (x / 2 ^ 192))
    (Go.length_bytesBE 8 (x / 2 ^ 128)) (Go.length_bytesBE 8 (x / 2 ^ 64))
  have hword : ∀ n, Go.bigEndianUint64 (Go.bytesBE 8 n) = .ok n.toUInt64 := fun n => by
    simpa using Go.bigEndianUint64_bytesBE_append n []
  have hfbe : fbe = -1 := by decide
  simp only [scalarToh4, hfill, h₀, h₁, h₂, h₃, hword, bind, Except.bind, pure, Except.pure, hfbe,
    UInt64.and_neg_one, limbs_four]

theorem scalarToh4_ofDigits {h4 : List UInt64} (hh : h4.length = 4) :
    scalarToh4 (Nat.ofDigits (2 ^ 64) (h4.map UInt64.toNat) : Nat) = .ok h4 := by
  rw [scalarToh4_natCast (ofDigits_toNat_lt hh), show 4 = (h4.map UInt64.toNat).length by simp [hh],
    limbs_ofDigits (toNat_lt_of_mem_map h4), map_toUInt64_toNat]

/-! ### Text -/

theorem setString_bytesBE {x : Nat} (hx : x < 2 ^ 256) :
    Go.setString (Go.hexEncodeToString (Go.bytesBE 32 x)) 16 = some (x : Int) := by
  have hne : Go.bytesBE 32 x ≠ [] := by
    intro h
    simpa using congrArg List.length h
  rw [Go.setString_hexEncodeToString hne, Go.setBytes_bytesBE, Nat.mod_eq_of_lt (by simpa using hx)]
  rfl

theorem h4ToString_of_length {h4 : List UInt64} (hh : h4.length = 4) :
    h4ToString h4 = .ok ('0' :: 'x' :: Go.hexEncodeToString (Go.bytesBE 32 (Nat.ofDigits (2 ^ 64) (h4.map UInt64.toNat)))) := by
  rw [h4ToString, h4ToScalar_of_length hh]
  simp only [bind, Except.bind, pure, Except.pure, Int.natAbs_natCast]
  rw [show 64 = 2 * 32 from rfl, Go.padZero_hexEncodeToString_bigBytes (by simpa using ofDigits_toNat_lt hh)]

theorem fea2string_of_lt {fea : List UInt64} {x : Nat} (hfea : fea2scalar fea = x) (hx : x < 2 ^ 256) :
    fea2string fea = .ok ('0' :: 'x' :: Go.hexEncodeToString (Go.bytesBE 32 x)) := by
  rw [fea2string, hfea, scalarToFilledByteSlice_natCast hx]
  rfl

theorem fea2scalar_scalar2fea {x : Nat} (hx : x < 2 ^ 256) : fea2scalar (scalar2fea x) = x := by
  rw [scalar2fea_natCast, fea2scalar_limbs, Nat.mod_eq_of_lt hx]

/-! ### Round trips -/

/-- **The codecs invert each other.**  A number below `2 ^ 256` comes back from
its 32-bit limbs, from its 64-bit limbs, and from the text `StateTree.set`
sends for its 32-bit limbs; eight limbs below `2 ^ 32` come back from their
number; four 64-bit limbs come back from their number and from `H4ToString`. -/
theorem split_roundTrips :
    (∀ x : Int, 0 ≤ x → x < 2 ^ 256 →
      fea2scalar (scalar2fea x) = x ∧ (scalarToh4 x >>= h4ToScalar) = .ok x ∧
        ∃ s, feaValue (scalar2fea x) = .ok s ∧ string2fea s = .ok (scalar2fea x)) ∧
    (∀ a : List UInt64, a.length = 8 → (∀ l ∈ a, l.toNat < 2 ^ 32) → scalar2fea (fea2scalar a) = a) ∧
    (∀ h : List UInt64, h.length = 4 →
      (h4ToScalar h >>= scalarToh4) = .ok h ∧ (h4ToString h >>= stringToh4) = .ok (.ok h)) := by
  refine ⟨?_, ?_, ?_⟩
  · intro x hx₀ hx
    obtain ⟨n, rfl⟩ := Int.eq_ofNat_of_zero_le hx₀
    have hn : n < 2 ^ 256 := by exact_mod_cast hx
    have hlt : ∀ y ∈ limbs (2 ^ 64) 4 n, y < 2 ^ 64 := limbs_lt (by norm_num) 4 n
    refine ⟨fea2scalar_scalar2fea hn, ?_, ?_⟩
    · rw [scalarToh4_natCast hn]
      simp only [bind, Except.bind]
      rw [h4ToScalar_of_length (by simp), map_toNat_toUInt64 hlt, ofDigits_limbs, ← pow_mul,
        Nat.mod_eq_of_lt hn]
    · refine ⟨Go.hexEncodeToString (Go.bytesBE 32 n), ?_, ?_⟩
      · rw [feaValue, fea2string_of_lt (fea2scalar_scalar2fea hn) hn, Except.map, trimPrefix0x_cons]
      · rw [string2fea, setString_bytesBE hn]
  · intro a ha hlimb
    have hlt : ∀ y ∈ a.map UInt64.toNat, y < 2 ^ 32 := by
      intro y hy
      obtain ⟨l, hl, rfl⟩ := List.mem_map.mp hy
      exact hlimb l hl
    rw [fea2scalar_of_length ha, scalar2fea_natCast, show 8 = (a.map UInt64.toNat).length by simp [ha],
      limbs_ofDigits hlt, map_toUInt64_toNat]
  · intro h hh
    refine ⟨?_, ?_⟩
    · rw [h4ToScalar_of_length hh]
      exact scalarToh4_ofDigits hh
    · rw [h4ToString_of_length hh]
      simp only [bind, Except.bind]
      rw [stringToh4, trimPrefix0x_cons, setString_bytesBE (ofDigits_toNat_lt hh)]
      simp only [scalarToh4_ofDigits hh]
      rfl

theorem split_roundTrips_max :
    fea2scalar (scalar2fea (2 ^ 256 - 1)) = 2 ^ 256 - 1 ∧ scalar2fea (fea2scalar [0, 1, 2, 3, 4, 5, 6, 7]) = [0, 1, 2, 3, 4, 5, 6, 7] ∧
      (h4ToString [0, 1, 2, 3] >>= stringToh4) = .ok (.ok [0, 1, 2, 3]) :=
  ⟨(split_roundTrips.1 _ (by norm_num) (by norm_num)).1,
    split_roundTrips.2.1 _ rfl (by simp),
    (split_roundTrips.2.2 _ rfl).2⟩

end Merkletree

end CdkValidium
