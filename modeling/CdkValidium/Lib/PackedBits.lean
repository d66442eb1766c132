import Mathlib

/-!
# Bits packed in bytes

A list of bytes read as a sequence of bits, eight to a byte with the lowest bit
first: bit `i` is bit `i % 8` of byte `i / 8`, and a byte past the end reads as
zero (`PackedBits.bit`).  Writing a byte changes only the eight bits it holds
(`bit_set_of_ne`, `bit_set`), and the masks a byte is usually written with, a
one or a run of ones shifted left, have the bits one expects (`testBit_one_shiftLeft`,
`testBit_ff_shiftLeft`, `testBit_mask_shiftLeft`, ...).
-/

namespace PackedBits

/-- Bit `i` of the bytes `bytes`. -/
def bit (bytes : List UInt8) (i : Nat) : Bool :=
  (bytes.getD (i / 8) 0).toNat.testBit (i % 8)

theorem bit_set_of_ne {bytes : List UInt8} {j : Nat} (x : UInt8) {i : Nat} (h : i / 8 ≠ j) :
    bit (bytes.set j x) i = bit bytes i := by
  simp only [bit, List.getD_eq_getElem?_getD, List.getElem?_set_ne (Ne.symm h)]

theorem bit_set {bytes : List UInt8} {j : Nat} (x : UInt8) {i : Nat} (h : i / 8 = j)
    (hj : j < bytes.length) : bit (bytes.set j x) i = x.toNat.testBit (i % 8) := by
  simp only [bit, List.getD_eq_getElem?_getD, h, List.getElem?_set_self hj, Option.getD_some]

theorem bit_of_getElem? {bytes : List UInt8} {j : Nat} {x : UInt8} (hx : bytes[j]? = some x) {i : Nat}
    (h : i / 8 = j) : bit bytes i = x.toNat.testBit (i % 8) := by
  simp only [bit, List.getD_eq_getElem?_getD, h, hx, Option.getD_some]

@[simp] theorem bit_replicate_zero (n i : Nat) : bit (List.replicate n 0) i = false := by
  simp only [bit, List.getD_eq_getElem?_getD, List.getElem?_replicate]
  split <;> simp

theorem testBit_or (a b : UInt8) (j : Nat) :
    (a ||| b).toNat.testBit j = (a.toNat.testBit j || b.toNat.testBit j) := by
  rw [UInt8.toNat_or, Nat.testBit_or]

theorem shiftRight_and_one_eq_zero (b : UInt8) {k : Nat} (hk : k < 8) :
    (((b >>> k.toUInt8) &&& 1) == 0) = !b.toNat.testBit k := by
  have hk' : k.toUInt8.toNat % 8 = k := by simp; omega
  have hnat : ((b >>> k.toUInt8) &&& 1).toNat = b.toNat >>> k % 2 := by
    rw [UInt8.toNat_and, UInt8.toNat_shiftRight, hk', UInt8.toNat_one, Nat.and_one_is_mod]
  have hbeq : (((b >>> k.toUInt8) &&& 1) == 0) = decide (((b >>> k.toUInt8) &&& 1).toNat = 0) := by
    rw [Bool.eq_iff_iff, beq_iff_eq, decide_eq_true_iff, ← UInt8.toNat_inj, UInt8.toNat_zero]
  rw [hbeq, hnat, Nat.testBit, Nat.one_and_eq_mod_two]
  rcases Nat.mod_two_eq_zero_or_one (b.toNat >>> k) with h0 | h1 <;> simp [*]

/-! ### Masks -/

theorem testBit_one_shiftLeft {k j : Nat} (hk : k < 8) (hj : j < 8) :
    ((1 : UInt8) <<< k.toUInt8).toNat.testBit j = decide (j = k) := by
  have h : ∀ k < 8, ∀ j < 8, ((1 : UInt8) <<< k.toUInt8).toNat.testBit j = decide (j = k) := by decide
  exact h k hk j hj

theorem testBit_ff_shiftLeft {k j : Nat} (hk : k < 8) (hj : j < 8) :
    ((0xFF : UInt8) <<< k.toUInt8).toNat.testBit j = decide (k ≤ j) := by
  have h : ∀ k < 8, ∀ j < 8, ((0xFF : UInt8) <<< k.toUInt8).toNat.testBit j = decide (k ≤ j) := by
    decide
  exact h k hk j hj

theorem testBit_not_ff_shiftLeft {k j : Nat} (hk : k < 8) (hj : j < 8) :
    (~~~((0xFF : UInt8) <<< k.toUInt8)).toNat.testBit j = decide (j < k) := by
  have h : ∀ k < 8, ∀ j < 8, (~~~((0xFF : UInt8) <<< k.toUInt8)).toNat.testBit j = decide (j < k) := by
    decide
  exact h k hk j hj

theorem testBit_ff {j : Nat} (hj : j < 8) : (0xFF : UInt8).toNat.testBit j = true := by
  have h : ∀ j < 8, (0xFF : UInt8).toNat.testBit j = true := by decide
  exact h j hj

theorem testBit_mask_shiftLeft {n k j : Nat} (hn : n < 9) (hk : k < 8) (hj : j < 8) :
    (((2 ^ n - 1).toUInt16 <<< k.toUInt16).toUInt8).toNat.testBit j = decide (k ≤ j ∧ j < k + n) := by
  have h : ∀ n : Nat, n < 9 → ∀ k : Nat, k < 8 → ∀ j : Nat, j < 8 →
      (((2 ^ n - 1).toUInt16 <<< k.toUInt16).toUInt8).toNat.testBit j = decide (k ≤ j ∧ j < k + n) := by
    decide
  exact h n hn k hk j hj

theorem testBit_mask_shiftLeft_high {n k j : Nat} (hn : n < 9) (hk : k < 8) (hj : j < 8) :
    ((((2 ^ n - 1).toUInt16 <<< k.toUInt16) >>> 8).toUInt8).toNat.testBit j = decide (j + 8 < k + n) := by
  have h : ∀ n : Nat, n < 9 → ∀ k : Nat, k < 8 → ∀ j : Nat, j < 8 →
      ((((2 ^ n - 1).toUInt16 <<< k.toUInt16) >>> 8).toUInt8).toNat.testBit j = decide (j + 8 < k + n) := by
    decide
  exact h n hn k hk j hj

theorem mask_shiftLeft_high_eq_zero {n k : Nat} (hn : n < 9) (hk : k < 8) :
    (((2 ^ n - 1).toUInt16 <<< k.toUInt16) >>> 8).toUInt8 = 0 ↔ k + n ≤ 8 := by
  have h : ∀ n : Nat, n < 9 → ∀ k : Nat, k < 8 →
      ((((2 ^ n - 1).toUInt16 <<< k.toUInt16) >>> 8).toUInt8 = 0 ↔ k + n ≤ 8) := by
    decide
  exact h n hn k hk

end PackedBits
