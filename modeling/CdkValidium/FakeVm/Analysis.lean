import CdkValidium.Lib.PackedBits
import CdkValidium.Go.Basic

/-!
# The JUMPDEST analysis

`codeBitmap` marks, in a bit vector over the bytes of a program, the bytes that
are data of a `PUSHn`, and `codeSegment` reads a mark back.  The marks are
written a bit, a part of a byte, a byte or two bytes at a time (`set1`, `setN`,
`set8`, `set16`); the wider writes assign whole bytes after the current
position, which is only right because nothing after it is marked yet.

The plain reading of a program takes one instruction after another and skips
the `n` data bytes of a `PUSHn` (`dataMask`).  Against it: `codeBitmap` never
indexes out of its bit vector, and `codeSegment` answers for every byte of the
program whether it is an instruction (`codeBitmap_spec`).
-/

namespace CdkValidium.FakeVm

open PackedBits

/-! ### The model -/

def PUSH1 : UInt8 := 0x60

def JUMPDEST : UInt8 := 0x5b

def set2BitsMask : UInt16 := 0b11
def set3BitsMask : UInt16 := 0b111
def set4BitsMask : UInt16 := 0b1111
def set5BitsMask : UInt16 := 0b1_1111
def set6BitsMask : UInt16 := 0b11_1111
def set7BitsMask : UInt16 := 0b111_1111

/-- `bits[i] |= x`. -/
def orByte (bits : List UInt8) (i : Nat) (x : UInt8) : Except Go.Panic (List UInt8) :=
  match bits[i]? with
  | some b => .ok (bits.set i (b ||| x))
  | none => .error .indexOutOfRange

/-- `bits[i] = x`. -/
def setByte (bits : List UInt8) (i : Nat) (x : UInt8) : Except Go.Panic (List UInt8) :=
  if i < bits.length then .ok (bits.set i x) else .error .indexOutOfRange

/-- `bitvec.set1`. -/
def set1 (bits : List UInt8) (pos : Nat) : Except Go.Panic (List UInt8) :=
  orByte bits (pos / 8) (1 <<< (pos % 8).toUInt8)

/-- `bitvec.setN`. -/
def setN (bits : List UInt8) (flag : UInt16) (pos : Nat) : Except Go.Panic (List UInt8) := do
  let a := flag <<< (pos % 8).toUInt16
  let bits ← orByte bits (pos / 8) a.toUInt8
  let b := (a >>> 8).toUInt8
  if b != 0 then setByte bits (pos / 8 + 1) b else pure bits

/-- `bitvec.set8`. -/
def set8 (bits : List UInt8) (pos : Nat) : Except Go.Panic (List UInt8) := do
  let a : UInt8 := 0xFF <<< (pos % 8).toUInt8
  let bits ← orByte bits (pos / 8) a
  setByte bits (pos / 8 + 1) (~~~a)

/-- `bitvec.set16`. -/
def set16 (bits : List UInt8) (pos : Nat) : Except Go.Panic (List UInt8) := do
  let a : UInt8 := 0xFF <<< (pos % 8).toUInt8
  let bits ← orByte bits (pos / 8) a
  let bits ← setByte bits (pos / 8 + 1) 0xFF
  setByte bits (pos / 8 + 2) (~~~a)

/-- `bitvec.codeSegment`: the byte at `pos` is not marked as data. -/
def codeSegment (bits : List UInt8) (pos : Nat) : Except Go.Panic Bool :=
  match bits[pos / 8]? with
  | some b => .ok (((b >>> (pos % 8).toUInt8) &&& 1) == 0)
  | none => .error .indexOutOfRange

/-- `for ; numbits >= 16; numbits -= 16 { bits.set16(pc); pc += 16 }`. -/
def set16Loop : List UInt8 → Nat → Nat → Except Go.Panic (List UInt8 × Nat × Nat)
  | bits, numbits + 16, pc => do
    let bits ← set16 bits pc
    set16Loop bits numbits (pc + 16)
  | bits, numbits, pc => .ok (bits, numbits, pc)

/-- `for ; numbits >= 8; numbits -= 8 { bits.set8(pc); pc += 8 }`. -/
def set8Loop : List UInt8 → Nat → Nat → Except Go.Panic (List UInt8 × Nat × Nat)
  | bits, numbits + 8, pc => do
    let bits ← set8 bits pc
    set8Loop bits numbits (pc + 8)
  | bits, numbits, pc => .ok (bits, numbits, pc)

/-- The `switch numbits` of `codeBitmapInternal`. -/
def setRest (bits : List UInt8) (numbits pc : Nat) : Except Go.Panic (List UInt8 × Nat) :=
  match numbits with
  | 1 => (·, pc + 1) <$> set1 bits pc
  | 2 => (·, pc + 2) <$> setN bits set2BitsMask pc
  | 3 => (·, pc + 3) <$> setN bits set3BitsMask pc
  | 4 => (·, pc + 4) <$> setN bits set4BitsMask pc
  | 5 => (·, pc + 5) <$> setN bits set5BitsMask pc
  | 6 => (·, pc + 6) <$> setN bits set6BitsMask pc
  | 7 => (·, pc + 7) <$> setN bits set7BitsMask pc
  | _ => .ok (bits, pc)

/-- What a turn of `codeBitmapInternal` does for a `PUSHn` whose `numbits`
data bytes start at `pc`: the two loops when `numbits >= 8`, then the `switch`. -/
def setData (bits : List UInt8) (numbits pc : Nat) : Except Go.Panic (List UInt8 × Nat) := do
  let (bits, numbits, pc) ← if numbits ≥ 8 then do
      let (bits, numbits, pc) ← set16Loop bits numbits pc
      set8Loop bits numbits pc
    else pure (bits, numbits, pc)
  setRest bits numbits pc

/-- The `for` loop of `codeBitmapInternal` from `pc` on.  Each turn moves `pc`
on by at least one, so `len(code)` turns are enough (`loop_spec`). -/
def codeBitmapInternal.loop (code : List UInt8) : Nat → Nat → List UInt8 → Except Go.Panic (List UInt8)
  | 0, _, bits => .ok bits
  | fuel + 1, pc, bits =>
    match code[pc]? with
    | none => .ok bits
    | some op =>
      if op.toInt8 < PUSH1.toInt8 then codeBitmapInternal.loop code fuel (pc + 1) bits
      else do
        let (bits, pc) ← setData bits (op - PUSH1 + 1).toNat (pc + 1)
        codeBitmapInternal.loop code fuel pc bits

def codeBitmapInternal (code bits : List UInt8) : Except Go.Panic (List UInt8) :=
  codeBitmapInternal.loop code code.length 0 bits

/-- `codeBitmap`: the bit vector is four bytes longer than needed, for a
`PUSH32` at the end. -/
def codeBitmap (code : List UInt8) : Except Go.Panic (List UInt8) :=
  codeBitmapInternal code (List.replicate (code.length / 8 + 1 + 4) 0)

/-! ### The plain reading -/

/-- The number of data bytes after `op`: `n` for `PUSHn`, which is `0x5f + n`. -/
def pushSize (op : UInt8) : Nat := if 0x60 ≤ op.toNat ∧ op.toNat < 0x80 then op.toNat - 0x5f else 0

/-- Which bytes of `code` are data of a `PUSHn`, reading one instruction after
another; `skip` data bytes are still due. -/
def dataMask : Nat → List UInt8 → List Bool
  | _, [] => []
  | 0, op :: code => false :: dataMask (pushSize op) code
  | skip + 1, _ :: code => true :: dataMask skip code

/-- Whether the byte at `pos` is data; a byte past the end is, as data of a
`PUSHn` that runs over the end. -/
def isData (code : List UInt8) (pos : Nat) : Bool := (dataMask 0 code).getD pos true

theorem not_lt_PUSH1_iff (op : UInt8) : ¬ op.toInt8 < PUSH1.toInt8 ↔ 0x60 ≤ op.toNat ∧ op.toNat < 0x80 := by
  have hbv : op.toInt8.toBitVec.toNat = op.toNat := rfl
  have hop : op.toInt8.toInt = if 2 * op.toNat < 256 then (op.toNat : Int) else op.toNat - 256 := by
    rw [Int8.toInt, BitVec.toInt_eq_toNat_cond, hbv]
    rfl
  rw [Int8.lt_iff_toInt_lt, hop, show PUSH1.toInt8.toInt = 96 by decide]
  have := op.toNat_lt
  split_ifs <;> omega

theorem pushSize_of_lt {op : UInt8} (h : op.toInt8 < PUSH1.toInt8) : pushSize op = 0 := by
  have h' := mt (not_lt_PUSH1_iff op).mpr (not_not.mpr h)
  rw [pushSize, if_neg h']

theorem numbits_eq_pushSize {op : UInt8} (h : ¬ op.toInt8 < PUSH1.toInt8) :
    (op - PUSH1 + 1).toNat = pushSize op ∧ pushSize op ≤ 32 := by
  have hop := (not_lt_PUSH1_iff op).mp h
  rw [pushSize, if_pos hop, UInt8.toNat_add, UInt8.toNat_sub, show PUSH1.toNat = 96 from rfl]
  simp only [UInt8.toNat_one]
  omega

theorem length_dataMask (skip : Nat) (code : List UInt8) : (dataMask skip code).length = code.length := by
  induction code generalizing skip with
  | nil => rfl
  | cons op code ih =>
    cases skip with
    | zero => simp [dataMask, ih]
    | succ skip => simp [dataMask, ih]

theorem dataMask_eq_replicate_append (skip : Nat) (code : List UInt8) :
    dataMask skip code = List.replicate (min skip code.length) true ++ dataMask 0 (code.drop skip) := by
  induction code generalizing skip with
  | nil => simp [dataMask]
  | cons op code ih =>
    cases skip with
    | zero => simp
    | succ skip =>
      rw [dataMask, ih skip, List.length_cons, Nat.succ_min_succ, List.replicate_succ, List.drop_succ_cons,
        List.cons_append]

/-- `pc` starts an instruction: the plain reading from `pc` on is the rest of
the plain reading of the whole program. -/
def Boundary (code : List UInt8) (pc : Nat) : Prop := (dataMask 0 code).drop pc = dataMask 0 (code.drop pc)

theorem boundary_zero (code : List UInt8) : Boundary code 0 := rfl

theorem isData_eq_getD_drop {code : List UInt8} {pc : Nat} (h : Boundary code pc) {i : Nat} (hi : pc ≤ i) :
    isData code i = (dataMask 0 (code.drop pc)).getD (i - pc) true := by
  rw [← h, isData, List.getD_eq_getElem?_getD, List.getD_eq_getElem?_getD, List.getElem?_drop,
    Nat.add_sub_cancel' hi]

theorem drop_eq_cons {code : List UInt8} {pc : Nat} {op : UInt8} (hop : code[pc]? = some op) :
    code.drop pc = op :: code.drop (pc + 1) := by
  rw [List.drop_eq_getElem_cons (List.getElem?_eq_some_iff.mp hop).1, (List.getElem?_eq_some_iff.mp hop).2]

theorem Boundary.isData_self {code : List UInt8} {pc : Nat} {op : UInt8} (h : Boundary code pc)
    (hop : code[pc]? = some op) : isData code pc = false := by
  rw [isData_eq_getD_drop h le_rfl, drop_eq_cons hop, Nat.sub_self, dataMask]
  rfl

theorem Boundary.isData_push {code : List UInt8} {pc : Nat} {op : UInt8} (h : Boundary code pc)
    (hop : code[pc]? = some op) {i : Nat} (hlo : pc < i) (hhi : i ≤ pc + pushSize op) : isData code i = true := by
  rw [isData_eq_getD_drop h hlo.le, drop_eq_cons hop, dataMask, dataMask_eq_replicate_append,
    List.getD_eq_getElem?_getD]
  obtain ⟨j, hj⟩ : ∃ j, i - pc = j + 1 := ⟨i - pc - 1, by omega⟩
  rw [hj, List.getElem?_cons_succ, List.getElem?_append]
  split_ifs with hrep
  · rw [List.getElem?_replicate]
    split <;> rfl
  · simp only [List.length_replicate, not_lt] at hrep
    rw [List.getElem?_eq_none (by rw [length_dataMask, List.length_drop]; simp at hrep ⊢; omega)]
    rfl

theorem Boundary.next {code : List UInt8} {pc : Nat} {op : UInt8} (h : Boundary code pc)
    (hop : code[pc]? = some op) : Boundary code (pc + 1 + pushSize op) := by
  have hdrop : ∀ l : List Bool, l.drop (pc + 1 + pushSize op) = (l.drop pc).drop (pushSize op + 1) := by
    intro l
    rw [List.drop_drop]
    congr 1
    omega
  have hcode : code.drop (pc + 1 + pushSize op) = (code.drop (pc + 1)).drop (pushSize op) := by
    rw [List.drop_drop]
  unfold Boundary at h ⊢
  rw [hdrop, h, drop_eq_cons hop, dataMask, List.drop_succ_cons, dataMask_eq_replicate_append, hcode,
    List.drop_append, List.drop_replicate, Nat.sub_eq_zero_of_le (Nat.min_le_left _ _), List.replicate_zero,
    List.nil_append, List.length_replicate]
  by_cases hn : pushSize op ≤ (code.drop (pc + 1)).length
  · rw [Nat.min_eq_left hn, Nat.sub_self, List.drop_zero]
  · rw [List.drop_eq_nil_of_le (by omega : (code.drop (pc + 1)).length ≤ pushSize op)]
    simp [dataMask]

/-! ### Writing bytes -/

theorem orByte_eq {bits : List UInt8} {i : Nat} (h : i < bits.length) (x : UInt8) :
    orByte bits i x = .ok (bits.set i (bits[i] ||| x)) := by
  rw [orByte, List.getElem?_eq_getElem h]

theorem setByte_eq {bits : List UInt8} {i : Nat} (h : i < bits.length) (x : UInt8) :
    setByte bits i x = .ok (bits.set i x) := by
  rw [setByte, if_pos h]

theorem bit_or_set {bits : List UInt8} {i : Nat} (h : i < bits.length) (x : UInt8) (j : Nat) :
    bit (bits.set i (bits[i] ||| x)) j = (bit bits j || (decide (j / 8 = i) && x.toNat.testBit (j % 8))) := by
  by_cases hj : j / 8 = i
  · rw [bit_set _ hj h, testBit_or, bit_of_getElem? (List.getElem?_eq_getElem h) hj]
    simp [hj]
  · rw [bit_set_of_ne _ hj]
    simp [hj]

theorem bit_set_eq {bits : List UInt8} {i : Nat} (h : i < bits.length) (x : UInt8) (j : Nat) :
    bit (bits.set i x) j = if j / 8 = i then x.toNat.testBit (j % 8) else bit bits j := by
  split_ifs with hj
  · exact bit_set _ hj h
  · exact bit_set_of_ne _ hj

theorem or_decide_congr (b : Bool) {p q r s : Prop} [Decidable p] [Decidable q] [Decidable r] [Decidable s]
    (h : p ∧ q ↔ r ∧ s) : (b || (decide p && decide q)) = (b || (decide r && decide s)) := by
  by_cases hpq : p ∧ q
  · rw [show (decide p && decide q) = true by simpa using hpq,
      show (decide r && decide s) = true by simpa using h.mp hpq]
  · rw [show (decide p && decide q) = false by simpa using hpq,
      show (decide r && decide s) = false by simpa using mt h.mpr hpq]

/-! ### Marking a run of bits -/

/-- `f` marks the `w` bits from `pos` on, when its bytes are in the bit vector
and no bit from `pos` on is marked yet. -/
def Fills (f : List UInt8 → Nat → Except Go.Panic (List UInt8)) (w : Nat) : Prop :=
  ∀ bits pos, (pos + w) / 8 < bits.length → (∀ i, pos ≤ i → bit bits i = false) →
    ∃ bits', f bits pos = .ok bits' ∧ bits'.length = bits.length ∧
      ∀ i, bit bits' i = (bit bits i || (decide (pos ≤ i) && decide (i < pos + w)))

theorem fills_set1 : Fills set1 1 := by
  intro bits pos hb _
  have h0 : pos / 8 < bits.length := by omega
  refine ⟨_, orByte_eq h0 _, by simp, fun i => ?_⟩
  rw [bit_or_set h0, testBit_one_shiftLeft (Nat.mod_lt _ (by norm_num)) (Nat.mod_lt _ (by norm_num))]
  exact or_decide_congr _ (by omega)

theorem fills_set8 : Fills set8 8 := by
  intro bits pos hb hz
  have h0 : pos / 8 < bits.length := by omega
  have hk : pos % 8 < 8 := Nat.mod_lt _ (by norm_num)
  set a : UInt8 := 0xFF <<< (pos % 8).toUInt8 with ha
  set bits₁ := bits.set (pos / 8) (bits[pos / 8] ||| a) with hbits₁
  have h1 : pos / 8 + 1 < bits₁.length := by
    rw [hbits₁, List.length_set]
    omega
  refine ⟨bits₁.set (pos / 8 + 1) (~~~a), ?_, by simp [hbits₁], fun i => ?_⟩
  · simp only [set8, orByte_eq h0, bind, Except.bind, ← ha, ← hbits₁, setByte_eq h1]
  have hj : i % 8 < 8 := Nat.mod_lt _ (by norm_num)
  rw [bit_set_eq h1]
  split_ifs with hi
  · rw [ha, testBit_not_ff_shiftLeft hk hj, hz i (by omega), Bool.false_or, Bool.eq_iff_iff]
    simp only [Bool.and_eq_true, decide_eq_true_eq]
    omega
  · rw [hbits₁, bit_or_set h0, ha, testBit_ff_shiftLeft hk hj]
    exact or_decide_congr _ (by omega)

theorem fills_set16 : Fills set16 16 := by
  intro bits pos hb hz
  have h0 : pos / 8 < bits.length := by omega
  have hk : pos % 8 < 8 := Nat.mod_lt _ (by norm_num)
  set a : UInt8 := 0xFF <<< (pos % 8).toUInt8 with ha
  set bits₁ := bits.set (pos / 8) (bits[pos / 8] ||| a) with hbits₁
  have h1 : pos / 8 + 1 < bits₁.length := by
    rw [hbits₁, List.length_set]
    omega
  have h2 : pos / 8 + 2 < (bits₁.set (pos / 8 + 1) 0xFF).length := by
    rw [List.length_set, hbits₁, List.length_set]
    omega
  refine ⟨(bits₁.set (pos / 8 + 1) 0xFF).set (pos / 8 + 2) (~~~a), ?_, by simp [hbits₁], fun i => ?_⟩
  · simp only [set16, orByte_eq h0, bind, Except.bind, ← ha, ← hbits₁, setByte_eq h1, setByte_eq h2]
  have hj : i % 8 < 8 := Nat.mod_lt _ (by norm_num)
  rw [bit_set_eq h2, bit_set_eq h1]
  split_ifs with hi₂ hi₁
  · rw [ha, testBit_not_ff_shiftLeft hk hj, hz i (by omega), Bool.false_or, Bool.eq_iff_iff]
    simp only [Bool.and_eq_true, decide_eq_true_eq]
    omega
  · rw [testBit_ff hj, hz i (by omega), Bool.false_or, Bool.eq_iff_iff]
    simp only [Bool.and_eq_true, decide_eq_true_eq, true_iff]
    omega
  · rw [hbits₁, bit_or_set h0, ha, testBit_ff_shiftLeft hk hj]
    exact or_decide_congr _ (by omega)

theorem fills_setN {n : Nat} (hn : n < 9) : Fills (fun bits pos => setN bits (2 ^ n - 1).toUInt16 pos) n := by
  intro bits pos hb hz
  have h0 : pos / 8 < bits.length := by omega
  have hk : pos % 8 < 8 := Nat.mod_lt _ (by norm_num)
  set a : UInt16 := (2 ^ n - 1).toUInt16 <<< (pos % 8).toUInt16 with ha
  set bits₁ := bits.set (pos / 8) (bits[pos / 8] ||| a.toUInt8) with hbits₁
  have hlow : ∀ i, bit bits₁ i = (bit bits i || (decide (i / 8 = pos / 8) &&
      decide (pos % 8 ≤ i % 8 ∧ i % 8 < pos % 8 + n))) := by
    intro i
    rw [hbits₁, bit_or_set h0, ha, testBit_mask_shiftLeft hn hk (Nat.mod_lt _ (by norm_num))]
  by_cases hb0 : (a >>> 8).toUInt8 = 0
  · have hfit : pos % 8 + n ≤ 8 := (mask_shiftLeft_high_eq_zero hn hk).mp hb0
    refine ⟨bits₁, ?_, by simp [hbits₁], fun i => ?_⟩
    · simp [setN, orByte_eq h0, ← ha, ← hbits₁, hb0, bind, Except.bind, pure, Except.pure]
    rw [hlow i]
    exact or_decide_congr _ (by omega)
  · have hover : 8 < pos % 8 + n := by
      by_contra hle
      exact hb0 ((mask_shiftLeft_high_eq_zero hn hk).mpr (by omega))
    have h1 : pos / 8 + 1 < bits₁.length := by
      rw [hbits₁, List.length_set]
      omega
    refine ⟨bits₁.set (pos / 8 + 1) (a >>> 8).toUInt8, ?_, by simp [hbits₁], fun i => ?_⟩
    · simp [setN, orByte_eq h0, ← ha, ← hbits₁, hb0, bind, Except.bind, setByte_eq h1]
    have hj : i % 8 < 8 := Nat.mod_lt _ (by norm_num)
    rw [bit_set_eq h1]
    split_ifs with hi
    · rw [ha, testBit_mask_shiftLeft_high hn hk hj, hz i (by omega), Bool.false_or, Bool.eq_iff_iff]
      simp only [Bool.and_eq_true, decide_eq_true_eq]
      omega
    · rw [hlow i]
      exact or_decide_congr _ (by omega)

/-! ### The loops -/

/-- The bits before `q` are marked where the plain reading of `code` has data,
and no bit from `q` on is marked. -/
def Filled (code bits : List UInt8) (q : Nat) : Prop := ∀ i, bit bits i = (decide (i < q) && isData code i)

section Loops

variable {code bits : List UInt8}

theorem Filled.zero_above {q : Nat} (h : Filled code bits q) {i : Nat} (hi : q ≤ i) : bit bits i = false := by
  rw [h i, decide_eq_false (by omega), Bool.false_and]

theorem filled_replicate (n : Nat) : Filled code (List.replicate n 0) 0 := fun i => by simp

theorem Filled.succ {pc : Nat} (h : Filled code bits pc) (hcode : isData code pc = false) :
    Filled code bits (pc + 1) := by
  intro i
  by_cases hi : i = pc
  · rw [hi, h.zero_above le_rfl, hcode, Bool.and_false]
  · rw [h i]
    congr 1
    exact decide_eq_decide.mpr (by omega)

theorem Filled.fill {q : Nat} (h : Filled code bits q) {f : List UInt8 → Nat → Except Go.Panic (List UInt8)}
    {w : Nat} (hf : Fills f w) (hb : (q + w) / 8 < bits.length)
    (hdata : ∀ i, q ≤ i → i < q + w → isData code i = true) :
    ∃ bits', f bits q = .ok bits' ∧ bits'.length = bits.length ∧ Filled code bits' (q + w) := by
  obtain ⟨bits', hset, hlen, hbit⟩ := hf bits q hb fun i hi => h.zero_above hi
  refine ⟨bits', hset, hlen, fun i => ?_⟩
  rw [hbit, h i]
  by_cases h₁ : i < q
  · simp [h₁, show i < q + w by omega]
  · by_cases h₂ : i < q + w
    · simp [h₁, h₂, hdata i (by omega) h₂, show q ≤ i by omega]
    · simp [h₁, h₂]

theorem set16Loop_spec {numbits pc : Nat} (h : Filled code bits pc) (hb : (pc + numbits) / 8 < bits.length)
    (hdata : ∀ i, pc ≤ i → i < pc + numbits → isData code i = true) :
    ∃ bits', set16Loop bits numbits pc = .ok (bits', numbits % 16, pc + 16 * (numbits / 16)) ∧
      bits'.length = bits.length ∧ Filled code bits' (pc + 16 * (numbits / 16)) := by
  fun_induction set16Loop bits numbits pc with
  | case1 bits numbits pc ih =>
    obtain ⟨bits₁, hset, hlen₁, hfill₁⟩ := h.fill fills_set16 (by omega) fun i hi hi' => hdata i hi (by omega)
    obtain ⟨bits₂, hloop, hlen₂, hfill₂⟩ := ih bits₁ hfill₁ (by omega) fun i hi hi' => hdata i (by omega) (by omega)
    refine ⟨bits₂, ?_, hlen₂.trans hlen₁, ?_⟩
    · simp only [hset, bind, Except.bind, hloop]
      congr 3 <;> omega
    · rwa [show pc + 16 * ((numbits + 16) / 16) = pc + 16 + 16 * (numbits / 16) by omega]
  | case2 bits numbits pc hlt =>
    have hsmall : numbits < 16 := by
      by_contra hge
      exact hlt (numbits - 16) (by omega)
    refine ⟨bits, ?_, rfl, ?_⟩
    · rw [Nat.mod_eq_of_lt hsmall, Nat.div_eq_of_lt hsmall, Nat.mul_zero, Nat.add_zero]
    · rwa [Nat.div_eq_of_lt hsmall, Nat.mul_zero, Nat.add_zero]

theorem set8Loop_spec {n pc : Nat} (h : Filled code bits pc) (hb : (pc + n) / 8 < bits.length)
    (hdata : ∀ i, pc ≤ i → i < pc + n → isData code i = true) :
    ∃ bits', set8Loop bits n pc = .ok (bits', n % 8, pc + 8 * (n / 8)) ∧
      bits'.length = bits.length ∧ Filled code bits' (pc + 8 * (n / 8)) := by
  fun_induction set8Loop bits n pc with
  | case1 bits numbits pc ih =>
    obtain ⟨bits₁, hset, hlen₁, hfill₁⟩ := h.fill fills_set8 (by omega) fun i hi hi' => hdata i hi (by omega)
    obtain ⟨bits₂, hloop, hlen₂, hfill₂⟩ := ih bits₁ hfill₁ (by omega) fun i hi hi' => hdata i (by omega) (by omega)
    refine ⟨bits₂, ?_, hlen₂.trans hlen₁, ?_⟩
    · simp only [hset, bind, Except.bind, hloop]
      congr 3 <;> omega
    · rwa [show pc + 8 * ((numbits + 8) / 8) = pc + 8 + 8 * (numbits / 8) by omega]
  | case2 bits numbits pc hlt =>
    have hsmall : numbits < 8 := by
      by_contra hge
      exact hlt (numbits - 8) (by omega)
    refine ⟨bits, ?_, rfl, ?_⟩
    · rw [Nat.mod_eq_of_lt hsmall, Nat.div_eq_of_lt hsmall, Nat.mul_zero, Nat.add_zero]
    · rwa [Nat.div_eq_of_lt hsmall, Nat.mul_zero, Nat.add_zero]

theorem setRest_of_fills {w pc : Nat} (h : Filled code bits pc) {f : List UInt8 → Nat → Except Go.Panic (List UInt8)}
    (hf : Fills f w) (hb : (pc + w) / 8 < bits.length) (hdata : ∀ i, pc ≤ i → i < pc + w → isData code i = true)
    (hrest : setRest bits w pc = (·, pc + w) <$> f bits pc) :
    ∃ bits', setRest bits w pc = .ok (bits', pc + w) ∧ bits'.length = bits.length ∧ Filled code bits' (pc + w) := by
  obtain ⟨bits', hset, hlen, hfill⟩ := h.fill hf hb hdata
  exact ⟨bits', by rw [hrest, hset]; rfl, hlen, hfill⟩

theorem setRest_spec {n pc : Nat} (h : Filled code bits pc) (hn : n < 8)
    (hb : (pc + n) / 8 < bits.length) (hdata : ∀ i, pc ≤ i → i < pc + n → isData code i = true) :
    ∃ bits', setRest bits n pc = .ok (bits', pc + n) ∧ bits'.length = bits.length ∧
      Filled code bits' (pc + n) := by
  interval_cases n
  · exact ⟨bits, rfl, rfl, h⟩
  · exact setRest_of_fills h fills_set1 hb hdata rfl
  · exact setRest_of_fills h (fills_setN (by norm_num)) hb hdata rfl
  · exact setRest_of_fills h (fills_setN (by norm_num)) hb hdata rfl
  · exact setRest_of_fills h (fills_setN (by norm_num)) hb hdata rfl
  · exact setRest_of_fills h (fills_setN (by norm_num)) hb hdata rfl
  · exact setRest_of_fills h (fills_setN (by norm_num)) hb hdata rfl
  · exact setRest_of_fills h (fills_setN (by norm_num)) hb hdata rfl

theorem setData_spec {n pc : Nat} (h : Filled code bits pc) (hb : (pc + n) / 8 < bits.length)
    (hdata : ∀ i, pc ≤ i → i < pc + n → isData code i = true) :
    ∃ bits', setData bits n pc = .ok (bits', pc + n) ∧ bits'.length = bits.length ∧
      Filled code bits' (pc + n) := by
  by_cases hge : n ≥ 8
  · obtain ⟨bits₁, h16, hlen₁, hfill₁⟩ := set16Loop_spec h hb hdata
    obtain ⟨bits₂, h8, hlen₂, hfill₂⟩ := set8Loop_spec (n := n % 16) hfill₁ (by omega)
      fun i hi hi' => hdata i (by omega) (by omega)
    obtain ⟨bits₃, hrest, hlen₃, hfill₃⟩ := setRest_spec (n := n % 16 % 8) hfill₂
      (Nat.mod_lt _ (by norm_num)) (by omega) fun i hi hi' => hdata i (by omega) (by omega)
    have hend : pc + 16 * (n / 16) + 8 * (n % 16 / 8) + n % 16 % 8 = pc + n := by omega
    refine ⟨bits₃, ?_, by rw [hlen₃, hlen₂, hlen₁], hend ▸ hfill₃⟩
    simp only [setData, if_pos hge, h16, h8, bind, Except.bind, hrest, hend]
  · obtain ⟨bits₁, hrest, hlen₁, hfill₁⟩ := setRest_spec h (by omega) hb hdata
    refine ⟨bits₁, ?_, hlen₁, hfill₁⟩
    simp only [setData, if_neg hge, pure, Except.pure, bind, Except.bind, hrest]

end Loops

/-- The run lemma of `codeBitmapInternal`: from an instruction start `pc`, with
the bits before it marked as the plain reading says and enough turns left, the
loop ends with every byte of the code marked as the plain reading says. -/
theorem loop_spec (code : List UInt8) (fuel : Nat) : ∀ pc bits, code.length ≤ pc + fuel → Boundary code pc →
    Filled code bits pc → bits.length = code.length / 8 + 5 →
    ∃ bits' q, codeBitmapInternal.loop code fuel pc bits = .ok bits' ∧ code.length ≤ q ∧
      bits'.length = code.length / 8 + 5 ∧ Filled code bits' q := by
  induction fuel with
  | zero => exact fun pc bits hfuel _ hfill hlen => ⟨bits, pc, rfl, by omega, hlen, hfill⟩
  | succ fuel ih =>
    intro pc bits hfuel hpc hfill hlen
    cases hop : code[pc]? with
    | none =>
      refine ⟨bits, pc, by simp only [codeBitmapInternal.loop, hop], ?_, hlen, hfill⟩
      exact List.getElem?_eq_none_iff.mp hop
    | some op =>
      have hlt : pc < code.length := (List.getElem?_eq_some_iff.mp hop).1
      have hfill₁ := hfill.succ (hpc.isData_self hop)
      have hnext := hpc.next hop
      by_cases hpush : op.toInt8 < PUSH1.toInt8
      · rw [pushSize_of_lt hpush, Nat.add_zero] at hnext
        obtain ⟨bits', q, hloop, hq⟩ := ih (pc + 1) bits (by omega) hnext hfill₁ hlen
        exact ⟨bits', q, by simp only [codeBitmapInternal.loop, hop, if_pos hpush, hloop], hq⟩
      · obtain ⟨hnum, hsize⟩ := numbits_eq_pushSize hpush
        obtain ⟨bits₁, hdata, hlen₁, hfill₂⟩ := setData_spec (n := pushSize op) hfill₁ (by omega)
          fun i hi hi' => hpc.isData_push hop (by omega) (by omega)
        obtain ⟨bits', q, hloop, hq⟩ := ih (pc + 1 + pushSize op) bits₁ (by omega) hnext hfill₂ (hlen₁.trans hlen)
        refine ⟨bits', q, ?_, hq⟩
        simp only [codeBitmapInternal.loop, hop, if_neg hpush, hnum, hdata, bind, Except.bind, hloop]

theorem codeSegment_eq {bits : List UInt8} {pos : Nat} (h : pos / 8 < bits.length) :
    codeSegment bits pos = .ok !(bit bits pos) := by
  rw [codeSegment, List.getElem?_eq_getElem h]
  dsimp only
  rw [shiftRight_and_one_eq_zero _ (Nat.mod_lt _ (by norm_num)), ← bit_of_getElem? (List.getElem?_eq_getElem h) rfl]

/-- `codeBitmap` never indexes out of its bit vector and marks exactly the data
bytes of the code. -/
theorem codeBitmap_marks (code : List UInt8) :
    ∃ bits, codeBitmap code = .ok bits ∧ bits.length = code.length / 8 + 5 ∧
      ∀ pos < code.length, bit bits pos = isData code pos := by
  obtain ⟨bits, q, hloop, hq, hlen, hfill⟩ :=
    loop_spec code code.length 0 (List.replicate (code.length / 8 + 1 + 4) 0) (by omega) (boundary_zero code)
      (filled_replicate _) (by simp)
  refine ⟨bits, hloop, hlen, fun pos hpos => ?_⟩
  rw [hfill pos, decide_eq_true (by omega), Bool.true_and]

/-- `codeBitmap` never indexes out of its bit vector, and `codeSegment` reads
back, for every byte of the code, whether it is an instruction on the plain
reading of the code. -/
theorem codeBitmap_spec (code : List UInt8) :
    ∃ bits, codeBitmap code = .ok bits ∧ bits.length = code.length / 8 + 5 ∧
      ∀ pos < code.length, codeSegment bits pos = .ok !(isData code pos) := by
  obtain ⟨bits, hbits, hlen, hmark⟩ := codeBitmap_marks code
  refine ⟨bits, hbits, hlen, fun pos hpos => ?_⟩
  rw [codeSegment_eq (by omega), hmark pos hpos]

example : codeBitmap [0x60, 0x5b, 0x5b] = .ok [2, 0, 0, 0, 0] := rfl

end CdkValidium.FakeVm
