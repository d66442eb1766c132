import CdkValidium.Go.Hex

/-!
# The contract bytecode hash

`hashContractBytecode` (`merkletree/key.go`) hashes contract code for the state
tree.  It appends `0x01`, pads with zeros to a multiple of 56 bytes and sets
the top bit of the last byte; then, 56 bytes at a time, it packs eight
elements of seven bytes and hashes them with Poseidon, the previous hash as
the capacity.  The code slices each chunk up to one byte past its end (the
`min(len - 1, pointer + 56) + 1` bound) and fills each element back to front
through a reused buffer and counter.

`hashContractBytecodeSpec` is the linear hash this computes, stated on whole
chunks: element `j` of a chunk is its bytes `7j … 7j+6` read little-endian.
`hashContractBytecode_eq_spec` says the code computes it for every byte
string, without a panic.  Poseidon (`goldenposeidon.Hash`) is a parameter.
-/

namespace CdkValidium

namespace Merkletree

/-- `goldenposeidon.Hash`: eight elements and four capacity elements to four
elements, or an error. -/
abbrev Poseidon := List UInt64 → List UInt64 → Except String (List UInt64)

def bytecodeElementsHash : Nat := 8

def bytecodeBytesElement : Nat := 7

/-- `maxBytesToAdd`: the bytes of one chunk. -/
def maxBytesToAdd : Nat := bytecodeElementsHash * bytecodeBytesElement

/-- `for len(code)%(56) != 0 { code = append(code, 0x00) }`. -/
def padZeros (code : List UInt8) : List UInt8 :=
  if code.length % 56 ≠ 0 then padZeros (code ++ [0]) else code
termination_by (56 - code.length % 56) % 56
decreasing_by
  rw [List.length_append, List.length_singleton]
  omega

/-- The state of the inner loop: `tmpElem`, `counter`, and the elements
written so far from `elementsToHash[4]` on (`index` is four more than their
number). -/
structure ElementState where
  tmpElem : List UInt8
  counter : Nat
  elements : List UInt64
  deriving DecidableEq, Repr

/-- One round `j` of the inner loop: the byte goes to `tmpElem[6 - counter]`,
and after seven bytes `tmpElem` read big-endian is the next element. -/
def elementStep (subsetBytecode : List UInt8) (s : ElementState) (j : Nat) : ElementState :=
  let byteToAdd : UInt8 := if j < subsetBytecode.length then subsetBytecode.getD j 0 else 0
  let tmpElem := s.tmpElem.set (bytecodeBytesElement - 1 - s.counter) byteToAdd
  let counter := s.counter + 1
  if counter = bytecodeBytesElement then
    ⟨List.replicate bytecodeBytesElement 0, 0, s.elements ++ [(Go.setBytes tmpElem).toUInt64]⟩
  else ⟨tmpElem, counter, s.elements⟩

/-- `elementsToHash[4:12]` of one chunk: the inner loop over
`maxBytesToAdd` bytes. -/
def bytecodeElements (subsetBytecode : List UInt8) : List UInt64 :=
  ((List.range maxBytesToAdd).foldl (elementStep subsetBytecode)
    ⟨List.replicate bytecodeBytesElement 0, 0, []⟩).elements

/-- The outer loop from `bytesPointer` with `n` chunks to go: slice the chunk,
pack it, and hash it with `tmpHash` as the capacity. -/
def hashChunks (poseidon : Poseidon) (code : List UInt8) :
    Nat → List UInt64 → Nat → Except Go.Panic (Except String (List UInt64))
  | 0, tmpHash, _ => .ok (.ok tmpHash)
  | n + 1, tmpHash, bytesPointer => do
    let subsetBytecode ← Go.slice code bytesPointer (min (code.length - 1) (bytesPointer + maxBytesToAdd) + 1)
    match poseidon (bytecodeElements subsetBytecode) tmpHash with
    | .error err => .ok (.error err)
    | .ok tmpHash => hashChunks poseidon code n tmpHash (bytesPointer + maxBytesToAdd)

/-- `hashContractBytecode`.  `numHashes` is `math.Ceil` of the length over 56
in `float64`, exact for any length below `2 ^ 53`. -/
def hashContractBytecode (poseidon : Poseidon) (code : List UInt8) : Except Go.Panic (Except String (List UInt64)) :=
  let code := padZeros (code ++ [0x01])
  let code := code.set (code.length - 1) (code.getD (code.length - 1) 0 ||| 0x80)
  let numHashes := (code.length + maxBytesToAdd - 1) / maxBytesToAdd
  hashChunks poseidon code numHashes [0, 0, 0, 0] 0

/-! ### The linear hash -/

/-- The code, `0x01`, zeros up to a multiple of 56 bytes, and `0x80` OR-ed into
the last byte. -/
def paddedBytecode (code : List UInt8) : List UInt8 :=
  let p := code ++ [0x01] ++ List.replicate ((56 - (code.length + 1) % 56) % 56) 0
  p.dropLast ++ [p.getLastD 0 ||| 0x80]

/-- Element `j` of a chunk: its bytes `7j … 7j+6` read little-endian. -/
def chunkElements (c : List UInt8) : List UInt64 :=
  (List.range 8).map fun j => (Nat.ofDigits 256 (((c.drop (7 * j)).take 7).map UInt8.toNat)).toUInt64

/-- Chunk `i` of the padded code. -/
def chunk (p : List UInt8) (i : Nat) : List UInt8 := (p.drop (56 * i)).take 56

/-- The linear hash: `h_0 = [0, 0, 0, 0]` and `h_{i+1}` the Poseidon hash of
the elements of chunk `i` with `h_i` as the capacity, over the
`len(p) / 56` chunks of the padded code. -/
def hashContractBytecodeSpec (poseidon : Poseidon) (code : List UInt8) : Except String (List UInt64) :=
  let p := paddedBytecode code
  (List.range (p.length / 56)).foldlM (fun h i => poseidon (chunkElements (chunk p i)) h) [0, 0, 0, 0]

/-! ### Padding -/

theorem padZeros_eq (code : List UInt8) :
    padZeros code = code ++ List.replicate ((56 - code.length % 56) % 56) 0 := by
  fun_induction padZeros code with
  | case1 code hne ih =>
    rw [ih, List.append_assoc, List.singleton_append, ← List.replicate_succ, List.length_append,
      List.length_singleton]
    congr 2
    omega
  | case2 code heq =>
    have h : code.length % 56 = 0 := by simpa using heq
    rw [h, Nat.sub_zero, Nat.mod_self, List.replicate_zero, List.append_nil]

theorem set_last_or (l : List UInt8) (x : UInt8) :
    (l ++ [x]).set ((l ++ [x]).length - 1) (((l ++ [x]).getD ((l ++ [x]).length - 1) 0) ||| 0x80) =
      (l ++ [x]).dropLast ++ [(l ++ [x]).getLastD 0 ||| 0x80] := by
  simp [List.set_append_right, List.getD_eq_getElem?_getD]

/-! ### Packing one chunk -/

theorem setBytes_reverse (l : List UInt8) : Go.setBytes l.reverse = Nat.ofDigits 256 (l.map UInt8.toNat) := by
  induction l with
  | nil => rfl
  | cons x l ih =>
    rw [List.reverse_cons, Go.setBytes_append_singleton, ih, List.map_cons, Nat.ofDigits_cons]
    ring

theorem take_drop_seven {sub : List UInt8} {s : Nat} (hs : s + 7 ≤ sub.length) :
    (sub.drop s).take 7 = (List.range 7).map fun t => sub.getD (s + t) 0 := by
  apply List.ext_getElem
  · simp only [List.length_take, List.length_drop, List.length_map, List.length_range]
    omega
  · intro t h₁ _
    have ht : s + t < sub.length := by
      simp only [List.length_take, List.length_drop] at h₁
      omega
    simp [List.getD_eq_getElem?_getD, List.getElem?_eq_getElem ht]

theorem foldl_elementStep_seven (sub : List UInt8) {s : Nat} (hs : s + 7 ≤ sub.length) (els : List UInt64) :
    (List.range' s 7).foldl (elementStep sub) ⟨List.replicate 7 0, 0, els⟩ =
      ⟨List.replicate 7 0, 0, els ++ [(Nat.ofDigits 256 (((sub.drop s).take 7).map UInt8.toNat)).toUInt64]⟩ := by
  rw [take_drop_seven hs, ← setBytes_reverse]
  have h : ∀ t < 7, s + t < sub.length := fun t ht => by omega
  have h₀ : s < sub.length := by omega
  simp [List.range', elementStep, bytecodeBytesElement, h₀, h 1 (by norm_num), h 2 (by norm_num),
    h 3 (by norm_num), h 4 (by norm_num), h 5 (by norm_num), h 6 (by norm_num), List.range_succ, Nat.add_assoc]

theorem foldl_elementStep_blocks (sub : List UInt8) (q : Nat) (hq : 7 * q ≤ sub.length) :
    (List.range' 0 (7 * q)).foldl (elementStep sub) ⟨List.replicate 7 0, 0, []⟩ =
      ⟨List.replicate 7 0, 0, (List.range q).map fun j =>
        (Nat.ofDigits 256 (((sub.drop (7 * j)).take 7).map UInt8.toNat)).toUInt64⟩ := by
  induction q with
  | zero => rfl
  | succ q ih =>
    rw [show 7 * (q + 1) = 7 * q + 7 by ring, ← List.range'_append_1, List.foldl_append, ih (by omega),
      Nat.zero_add, foldl_elementStep_seven sub (by omega), List.range_succ, List.map_append]
    rfl

theorem bytecodeElements_eq {sub : List UInt8} (hsub : 56 ≤ sub.length) :
    bytecodeElements sub = chunkElements (sub.take 56) := by
  have hfold := foldl_elementStep_blocks sub 8 (by omega)
  rw [bytecodeElements, maxBytesToAdd, bytecodeElementsHash, bytecodeBytesElement, List.range_eq_range']
  rw [show 8 * 7 = 7 * 8 by rfl, hfold, chunkElements]
  apply List.map_congr_left
  intro j hj
  rw [List.drop_take, List.take_take, min_eq_left (by rw [List.mem_range] at hj; omega)]

/-! ### The outer loop -/

theorem hashChunks_eq (poseidon : Poseidon) {code : List UInt8} {m : Nat} (hlen : code.length = 56 * m) :
    ∀ n i h, i + n = m → hashChunks poseidon code n h (56 * i) =
      .ok ((List.range' i n).foldlM (fun h i => poseidon (chunkElements (chunk code i)) h) h) := by
  intro n
  induction n with
  | zero => intro i h _; rfl
  | succ n ih =>
    intro i h hi
    have hhi : 56 * i ≤ min (code.length - 1) (56 * i + maxBytesToAdd) + 1 ∧
        min (code.length - 1) (56 * i + maxBytesToAdd) + 1 ≤ code.length := by
      simp only [maxBytesToAdd, bytecodeElementsHash, bytecodeBytesElement]
      omega
    have hsub : 56 ≤ (min (code.length - 1) (56 * i + maxBytesToAdd) + 1) - 56 * i := by
      simp only [maxBytesToAdd, bytecodeElementsHash, bytecodeBytesElement]
      omega
    have helems : bytecodeElements ((code.drop (56 * i)).take ((min (code.length - 1) (56 * i + maxBytesToAdd) + 1) - 56 * i)) =
        chunkElements (chunk code i) := by
      rw [bytecodeElements_eq (by simp only [List.length_take, List.length_drop]; omega), List.take_take,
        min_eq_left hsub, chunk]
    rw [hashChunks, Go.slice_of_le hhi.1 hhi.2]
    simp only [bind, Except.bind]
    rw [helems, List.range'_succ, List.foldlM_cons]
    cases hp : poseidon (chunkElements (chunk code i)) h with
    | error err => rfl
    | ok h' =>
      dsimp only
      rw [show 56 * i + maxBytesToAdd = 56 * (i + 1) by rfl, ih (i + 1) h' (by omega)]
      rfl

/-! ### The hash -/

theorem padZeros_set_last (code : List UInt8) :
    (padZeros (code ++ [0x01])).set ((padZeros (code ++ [0x01])).length - 1)
      ((padZeros (code ++ [0x01])).getD ((padZeros (code ++ [0x01])).length - 1) 0 ||| 0x80) =
      paddedBytecode code := by
  have hpad : padZeros (code ++ [0x01]) = code ++ [0x01] ++ List.replicate ((56 - (code.length + 1) % 56) % 56) 0 := by
    rw [padZeros_eq, List.length_append, List.length_singleton]
  obtain ⟨l, x, hlx⟩ :=
    (List.eq_nil_or_concat' (code ++ [0x01] ++ List.replicate ((56 - (code.length + 1) % 56) % 56) 0)).resolve_left
      (by simp)
  rw [hpad, paddedBytecode]
  simp only [hlx]
  exact set_last_or l x

example : paddedBytecode (List.replicate 55 7) = List.replicate 55 7 ++ [0x81] := by decide

theorem length_paddedBytecode (code : List UInt8) :
    (paddedBytecode code).length = 56 * ((paddedBytecode code).length / 56) := by
  have h : (paddedBytecode code).length = code.length + 1 + (56 - (code.length + 1) % 56) % 56 := by
    simp only [paddedBytecode, List.length_append, List.length_dropLast, List.length_singleton, List.length_replicate]
    omega
  rw [h]
  omega

/-- **The bytecode hash is the linear hash.**  For every byte string and every
Poseidon, `hashContractBytecode` does not panic and returns what the linear
hash over the padded code's 56-byte chunks returns, error or hash. -/
theorem hashContractBytecode_eq_spec (poseidon : Poseidon) (code : List UInt8) :
    hashContractBytecode poseidon code = .ok (hashContractBytecodeSpec poseidon code) := by
  have hlen := length_paddedBytecode code
  have hnum : ((paddedBytecode code).length + maxBytesToAdd - 1) / maxBytesToAdd = (paddedBytecode code).length / 56 := by
    simp only [maxBytesToAdd, bytecodeElementsHash, bytecodeBytesElement]
    omega
  rw [hashContractBytecode, padZeros_set_last, hnum, hashContractBytecodeSpec, List.range_eq_range', ← Nat.mul_zero 56]
  exact hashChunks_eq poseidon hlen _ 0 _ (Nat.zero_add _)

end Merkletree

end CdkValidium
