import CdkValidium.FakeVm.Analysis

/-!
# Jump destinations and the shared analysis cache

`validJumpdest` accepts a jump to a `JUMPDEST` that is an instruction.  Whether
it is one, `isCode` answers from an analysis it caches in the contract and, for
a contract with a code hash, in the `jumpdests` map every frame of a call tree
shares (`NewContract` hands the parent's map to the child).

The frames of a call tree and their map form a system (`Frames`): a frame is
created with its code and its hash, the hash of the code or, for init code, the
zero hash; a frame checks a jump.  With a hash that tells codes apart, every
cached analysis is the analysis of the code it is used for (`Frames.Inv`), and in
every state of every run a jump of any frame to any destination is accepted
exactly when the plain reading of the frame's code has an instruction
`JUMPDEST` there, and never panics (`validJumpdest_of_reachable`).
-/

namespace CdkValidium.FakeVm

/-- The fields of a `Contract` the analysis reads and caches. -/
structure Contract where
  code : List UInt8
  /-- `CodeHash`; `0` is `common.Hash{}`. -/
  codeHash : Nat
  /-- `analysis`, `none` while `nil`. -/
  analysis : Option (List UInt8)
  deriving DecidableEq, Repr

/-- The `jumpdests` map, by code hash. -/
abbrev Jumpdests := AList (fun _ : Nat => List UInt8)

/-- `isCode`: whether the byte at `udest` is an instruction, with the contract
and the map after the analysis is cached. -/
def Contract.isCode (c : Contract) (jumpdests : Jumpdests) (udest : Nat) :
    Except Go.Panic (Bool × Contract × Jumpdests) :=
  match c.analysis with
  | some analysis => (·, c, jumpdests) <$> codeSegment analysis udest
  | none =>
    if c.codeHash ≠ 0 then do
      let (analysis, jumpdests) ← match jumpdests.lookup c.codeHash with
        | some analysis => pure (analysis, jumpdests)
        | none => do
          let analysis ← codeBitmap c.code
          pure (analysis, jumpdests.insert c.codeHash analysis)
      (·, { c with analysis := some analysis }, jumpdests) <$> codeSegment analysis udest
    else do
      let analysis ← codeBitmap c.code
      (·, { c with analysis := some analysis }, jumpdests) <$> codeSegment analysis udest

/-- `validJumpdest` of the destination `dest`, a 256-bit word. -/
def Contract.validJumpdest (c : Contract) (jumpdests : Jumpdests) (dest : Nat) :
    Except Go.Panic (Bool × Contract × Jumpdests) :=
  if 2 ^ 64 ≤ dest ∨ c.code.length ≤ dest then .ok (false, c, jumpdests)
  else if c.code[dest]? ≠ some JUMPDEST then .ok (false, c, jumpdests)
  else c.isCode jumpdests dest

/-! ### The frames of a call tree -/

/-- The contracts of the frames of one call tree, and the map they share. -/
structure Frames where
  contracts : List Contract
  jumpdests : Jumpdests

inductive Frames.Event
  /-- `NewContract`, then `SetCallCode` or `SetCodeOptionalHash`. -/
  | newContract (code : List UInt8) (codeHash : Nat)
  /-- `opJump` or `opJumpi` of frame `i` to `dest`. -/
  | jump (i dest : Nat)

/-- A step of the call tree; the hash a frame gets is that of its code, or zero
for init code whose hash is not computed. -/
def Frames.next (keccak256 : List UInt8 → Nat) (s : Frames) : Frames.Event → Option Frames
  | .newContract code codeHash =>
    if codeHash = 0 ∨ codeHash = keccak256 code then some ⟨s.contracts ++ [⟨code, codeHash, none⟩], s.jumpdests⟩
    else none
  | .jump i dest =>
    match s.contracts[i]? with
    | some c =>
      match c.validJumpdest s.jumpdests dest with
      | .ok (_, c, jumpdests) => some ⟨s.contracts.set i c, jumpdests⟩
      | .error _ => none
    | none => none

def Frames.Step (keccak256 : List UInt8 → Nat) (s s' : Frames) : Prop := ∃ e, s.next keccak256 e = some s'

def Frames.init : Frames := ⟨[], ∅⟩

/-! ### The invariant -/

section Cache

variable (keccak256 : List UInt8 → Nat)

/-- Every analysis in the map is the analysis of a code with that hash. -/
def Cached (jumpdests : Jumpdests) : Prop :=
  ∀ h bits, jumpdests.lookup h = some bits → ∃ code, keccak256 code = h ∧ codeBitmap code = .ok bits

/-- The contract's hash is zero or its code's, and its cached analysis is its
code's. -/
structure Contract.Coherent (c : Contract) : Prop where
  hash : c.codeHash = 0 ∨ c.codeHash = keccak256 c.code
  analysis : ∀ bits, c.analysis = some bits → codeBitmap c.code = .ok bits

structure Frames.Inv (s : Frames) : Prop where
  contracts : ∀ c ∈ s.contracts, c.Coherent keccak256
  cached : Cached keccak256 s.jumpdests

variable {keccak256}

theorem cached_empty : Cached keccak256 ∅ := fun h bits hl => by
  rw [AList.lookup_empty] at hl
  cases hl

theorem Cached.insert {jumpdests : Jumpdests} (h : Cached keccak256 jumpdests) {code : List UInt8}
    {bits : List UInt8} (hbits : codeBitmap code = .ok bits) :
    Cached keccak256 (jumpdests.insert (keccak256 code) bits) := by
  intro h' bits' hl
  by_cases hh : h' = keccak256 code
  · rw [hh, AList.lookup_insert, Option.some.injEq] at hl
    exact ⟨code, hh.symm, hl ▸ hbits⟩
  · rw [AList.lookup_insert_ne hh] at hl
    exact h h' bits' hl

/-- The analysis a coherent contract reads, from its own cache or from the map,
is the analysis of its code. -/
theorem Contract.isCode_spec (hinj : Function.Injective keccak256) {c : Contract} (hc : c.Coherent keccak256)
    {jumpdests : Jumpdests} (hcached : Cached keccak256 jumpdests) (udest : Nat) (hudest : udest < c.code.length) :
    ∃ c' jumpdests', c.isCode jumpdests udest = .ok (!isData c.code udest, c', jumpdests') ∧
      c'.code = c.code ∧ c'.Coherent keccak256 ∧ Cached keccak256 jumpdests' := by
  obtain ⟨bits, hbits, hlen, hmark⟩ := codeBitmap_marks c.code
  have hseg : codeSegment bits udest = .ok !(isData c.code udest) := by
    rw [codeSegment_eq (by omega), hmark udest hudest]
  have hcoh : ({ c with analysis := some bits } : Contract).Coherent keccak256 :=
    ⟨hc.hash, fun bits' h => by cases h; exact hbits⟩
  cases hana : c.analysis with
  | some analysis =>
    have hsame : analysis = bits := Except.ok.inj ((hc.analysis analysis hana).symm.trans hbits)
    refine ⟨c, jumpdests, ?_, rfl, hc, hcached⟩
    simp only [Contract.isCode, hana, hsame, hseg]
    rfl
  | none =>
    by_cases hzero : c.codeHash = 0
    · refine ⟨{ c with analysis := some bits }, jumpdests, ?_, rfl, hcoh, hcached⟩
      simp only [Contract.isCode, hana, hzero, ne_eq, not_true_eq_false, if_false, hbits, bind, Except.bind,
        hseg]
      rfl
    · have hkey : c.codeHash = keccak256 c.code := hc.hash.resolve_left hzero
      cases hlook : jumpdests.lookup c.codeHash with
      | some cached =>
        obtain ⟨code, hcode, hcbits⟩ := hcached _ _ hlook
        have hsame : cached = bits := by
          rw [hinj (hcode.trans hkey)] at hcbits
          exact Except.ok.inj (hcbits.symm.trans hbits)
        refine ⟨{ c with analysis := some cached }, jumpdests, ?_, rfl, hsame ▸ hcoh, hcached⟩
        simp only [Contract.isCode, hana, hzero, hlook, ne_eq, not_false_eq_true, if_true, pure, Except.pure,
          bind, Except.bind, hsame, hseg]
        rfl
      | none =>
        refine ⟨{ c with analysis := some bits }, jumpdests.insert c.codeHash bits, ?_, rfl, hcoh,
          hkey ▸ hcached.insert hbits⟩
        simp only [Contract.isCode, hana, hzero, hlook, ne_eq, not_false_eq_true, if_true, hbits, pure,
          Except.pure, bind, Except.bind, hseg]
        rfl

/-- The answer `validJumpdest` gives a coherent contract: the destination is a
byte of the code, a `JUMPDEST`, and an instruction on the plain reading. -/
theorem Contract.validJumpdest_spec (hinj : Function.Injective keccak256) {c : Contract}
    (hc : c.Coherent keccak256) {jumpdests : Jumpdests} (hcached : Cached keccak256 jumpdests) (dest : Nat) :
    ∃ c' jumpdests', c.validJumpdest jumpdests dest =
        .ok (decide (dest < 2 ^ 64 ∧ dest < c.code.length ∧ c.code[dest]? = some JUMPDEST ∧
          isData c.code dest = false), c', jumpdests') ∧
      c'.code = c.code ∧ c'.Coherent keccak256 ∧ Cached keccak256 jumpdests' := by
  unfold Contract.validJumpdest
  split_ifs with hout hjd
  · refine ⟨c, jumpdests, ?_, rfl, hc, hcached⟩
    rw [decide_eq_false (by omega)]
  · refine ⟨c, jumpdests, ?_, rfl, hc, hcached⟩
    rw [decide_eq_false (by tauto)]
  · obtain ⟨c', jumpdests', hcode, hrest⟩ := c.isCode_spec hinj hc hcached dest (by omega)
    refine ⟨c', jumpdests', ?_, hrest⟩
    rw [hcode]
    congr 2
    simp only [not_or, not_le] at hout
    simp only [ne_eq, not_not] at hjd
    cases hdata : isData c.code dest
    · rw [decide_eq_true ⟨hout.1, hout.2, hjd, rfl⟩]
      rfl
    · rw [decide_eq_false (by simp)]
      rfl

end Cache

/-! ### Over runs -/

section Runs

variable {keccak256 : List UInt8 → Nat}

theorem Frames.inv_init : Frames.init.Inv keccak256 :=
  ⟨fun _ h => (by cases h), cached_empty⟩

theorem Frames.Inv.newContract {s s' : Frames} (hinv : s.Inv keccak256) {code : List UInt8} {codeHash : Nat}
    (h : s.next keccak256 (.newContract code codeHash) = some s') : s'.Inv keccak256 := by
  simp only [Frames.next] at h
  split_ifs at h with hhash
  rw [Option.some.injEq] at h
  subst h
  refine ⟨fun c hc => ?_, hinv.cached⟩
  rcases List.mem_append.mp hc with hc | hc
  · exact hinv.contracts c hc
  · rw [List.mem_singleton] at hc
    subst hc
    exact ⟨hhash, fun _ h => by cases h⟩

theorem Frames.Inv.jump (hinj : Function.Injective keccak256) {s s' : Frames} (hinv : s.Inv keccak256)
    {i dest : Nat} (h : s.next keccak256 (.jump i dest) = some s') : s'.Inv keccak256 := by
  simp only [Frames.next] at h
  split at h
  · rename_i c hc
    obtain ⟨c', jumpdests', hvalid, -, hcoh, hcached⟩ :=
      c.validJumpdest_spec hinj (hinv.contracts c (List.mem_of_getElem? hc)) hinv.cached dest
    rw [hvalid] at h
    dsimp only at h
    rw [Option.some.injEq] at h
    subst h
    refine ⟨fun d hd => ?_, hcached⟩
    rcases List.mem_or_eq_of_mem_set hd with hd | rfl
    · exact hinv.contracts d hd
    · exact hcoh
  · cases h

/-- The run lemma: every state of a call tree has the invariant. -/
theorem Frames.inv_of_reachable (hinj : Function.Injective keccak256) {s : Frames}
    (h : Relation.ReflTransGen (Frames.Step keccak256) Frames.init s) : s.Inv keccak256 := by
  induction h with
  | refl => exact Frames.inv_init
  | tail _ hstep ih =>
    obtain ⟨e, he⟩ := hstep
    cases e with
    | newContract code codeHash => exact ih.newContract he
    | jump i dest => exact ih.jump hinj he

/-- In every state of a call tree, with a hash that tells codes apart, a jump
of any frame to any destination never panics and is accepted exactly when the
destination is a byte of the frame's code, a `JUMPDEST`, and an instruction on
the plain reading of the code: the analyses cached in the frame and shared
through `jumpdests` are those of the right code. -/
theorem validJumpdest_of_reachable (hinj : Function.Injective keccak256) {s : Frames}
    (h : Relation.ReflTransGen (Frames.Step keccak256) Frames.init s) {i : Nat} {c : Contract}
    (hc : s.contracts[i]? = some c) (dest : Nat) :
    ∃ c' jumpdests', c.validJumpdest s.jumpdests dest =
      .ok (decide (dest < 2 ^ 64 ∧ dest < c.code.length ∧ c.code[dest]? = some JUMPDEST ∧
        isData c.code dest = false), c', jumpdests') := by
  have hinv := Frames.inv_of_reachable hinj h
  obtain ⟨c', jumpdests', hvalid, -⟩ :=
    c.validJumpdest_spec hinj (hinv.contracts c (List.mem_of_getElem? hc)) hinv.cached dest
  exact ⟨c', jumpdests', hvalid⟩

/-- Init code `PUSH1 0x5b JUMPDEST` in one frame: the jump to the data byte `0x5b`
at 1 is checked against the plain reading. -/
theorem validJumpdest_of_reachable_push :
    ∃ c' jumpdests', Contract.validJumpdest ⟨[0x60, 0x5b, 0x5b], 0, none⟩ ∅ 1 =
      .ok (decide (1 < 2 ^ 64 ∧ 1 < 3 ∧ [(0x60 : UInt8), 0x5b, 0x5b][1]? = some JUMPDEST ∧
        isData [0x60, 0x5b, 0x5b] 1 = false), c', jumpdests') := by
  have hinj : Function.Injective fun code : List UInt8 => Encodable.encode (code.map UInt8.toFin) :=
    fun a b h => List.map_injective_iff.mpr (fun x y hxy => UInt8.toFin_inj.mp hxy) (Encodable.encode_injective h)
  have hrun : Relation.ReflTransGen (Frames.Step fun code : List UInt8 => Encodable.encode (code.map UInt8.toFin))
      Frames.init ⟨[⟨[0x60, 0x5b, 0x5b], 0, none⟩], ∅⟩ :=
    .single ⟨.newContract [0x60, 0x5b, 0x5b] 0, rfl⟩
  exact validJumpdest_of_reachable hinj hrun (i := 0) rfl 1

end Runs

end CdkValidium.FakeVm
