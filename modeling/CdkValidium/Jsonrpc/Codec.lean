import CdkValidium.Go.Text

/-!
# Block numbers in JSON-RPC requests

A block parameter is an `int64`: a block number, or one of the tags
`earliest`, `latest`, `pending`, `safe` and `finalized`, encoded as `-1` to
`-5`.  `StringToBlockNumber` reads a tag by its name and a number with
`DecodeUint64orHex`, as a `uint64` that it converts to `int64`;
`GetNumericBlockNumber` answers a tag from the state and etherman, rejects
any other negative value and returns a number as it is.

The conversion makes the five largest `uint64` values the tags' codes: such a
number is read as the tag whose code it has (`stringToBlockNumber_tag_collision`).
Below `2 ^ 63` a number is returned as it is, and from there to the tags it is
rejected as invalid params (`getNumericBlockNumber_toInt64_of_lt`,
`getNumericBlockNumber_toInt64_invalid`); `StringOrHex` and
`StringToBlockNumber` are inverse on every block number from `-5` on
(`stringToBlockNumber_stringOrHex`).
-/

namespace CdkValidium.Jsonrpc

/-- `BlockNumber`: an `int64`. -/
abbrev BlockNumber := Int64

def pendingBlockNumber : BlockNumber := -3
def latestBlockNumber : BlockNumber := -2
def earliestBlockNumber : BlockNumber := -1
def safeBlockNumber : BlockNumber := -4
def finalizedBlockNumber : BlockNumber := -5

def earliest : List Char := "earliest".toList
def latest : List Char := "latest".toList
def pending : List Char := "pending".toList
def safe : List Char := "safe".toList
def finalized : List Char := "finalized".toList

def blockTags : List (List Char) := [earliest, latest, pending, safe, finalized]

/-- `encoding.DecodeUint64orHex`: decimal, or hexadecimal after a `0x` prefix;
`0` for a nil pointer. -/
def decodeUint64orHex : Option (List Char) → Except Go.NumError UInt64
  | none => .ok 0
  | some str =>
    if "0x".toList.isPrefixOf str then (Go.parseUint (str.drop 2) 16).map UInt64.ofNat
    else (Go.parseUint str 10).map UInt64.ofNat

/-- `StringToBlockNumber`: quotes trimmed, a tag by its name (the empty string
for `latest`), and otherwise the `uint64` of `DecodeUint64orHex` as an `int64`. -/
def stringToBlockNumber (str : List Char) : Except Go.NumError BlockNumber :=
  let str := Go.trim str ['"']
  if str = earliest then .ok earliestBlockNumber
  else if str = pending then .ok pendingBlockNumber
  else if str = latest ∨ str = [] then .ok latestBlockNumber
  else if str = safe then .ok safeBlockNumber
  else if str = finalized then .ok finalizedBlockNumber
  else (decodeUint64orHex (some str)).map UInt64.toInt64

/-- The `UnmarshalJSON` and `UnmarshalText` methods that report their errors:
the receiver is set to what `decode` reads, or left as it is with the error. -/
def unmarshalWith {α ε : Type} (decode : List Char → Except ε α) (b : α) (input : List Char) : α × Option ε :=
  match decode input with
  | .error err => (b, some err)
  | .ok v => (v, none)

theorem unmarshalWith_of_error {α ε : Type} {decode : List Char → Except ε α} {input : List Char} {err : ε}
    (h : decode input = .error err) (b : α) : unmarshalWith decode b input = (b, some err) := by
  rw [unmarshalWith, h]

theorem unmarshalWith_of_ok {α ε : Type} {decode : List Char → Except ε α} {input : List Char} {v : α}
    (h : decode input = .ok v) (b : α) : unmarshalWith decode b input = (v, none) := by
  rw [unmarshalWith, h]

/-- `BlockNumber.UnmarshalJSON`. -/
def unmarshalJSON (b : BlockNumber) (buffer : List Char) : BlockNumber × Option Go.NumError :=
  unmarshalWith stringToBlockNumber b buffer

/-- `BlockNumber.StringOrHex`: a tag's name, or `hex.EncodeUint64(uint64(b))`. -/
def stringOrHex (b : BlockNumber) : List Char :=
  if b = earliestBlockNumber then earliest
  else if b = pendingBlockNumber then pending
  else if b = latestBlockNumber then latest
  else if b = safeBlockNumber then safe
  else if b = finalizedBlockNumber then finalized
  else Go.encodeUint64 b.toUInt64

/-! ### Answering a block parameter -/

/-- An `RPCError` with no data. -/
structure RPCError where
  code : Int
  err : String
  deriving DecidableEq, Repr

def defaultErrorCode : Int := -32000
def invalidParamsErrorCode : Int := -32602

/-- The errors of the state and of etherman, of which `GetNumericBlockNumber`
tells `state.ErrNotFound` apart. -/
inductive BackendError
  | errNotFound
  | other
  deriving DecidableEq, Repr

/-- What the state and etherman answer during one call. -/
structure Backend where
  getLastL2BlockNumber : Except BackendError UInt64
  getSafeBlockNumber : Except BackendError UInt64
  getSafeL2BlockNumber : UInt64 → Except BackendError UInt64
  getFinalizedBlockNumber : Except BackendError UInt64
  getFinalizedL2BlockNumber : UInt64 → Except BackendError UInt64

/-- The `safe` and `finalized` cases of `GetNumericBlockNumber`: an L1 block
from etherman, then the last L2 block the state has for it, `0` when it has
none. -/
def l2BlockNumberFor (l1BlockNumber : Except BackendError UInt64) (l2BlockNumber : UInt64 → Except BackendError UInt64)
    (ethermanErr stateErr : String) : Except RPCError UInt64 :=
  match l1BlockNumber with
  | .error _ => .error ⟨defaultErrorCode, ethermanErr⟩
  | .ok l1 =>
    match l2BlockNumber l1 with
    | .error .errNotFound => .ok 0
    | .error _ => .error ⟨defaultErrorCode, stateErr⟩
    | .ok lastBlockNumber => .ok lastBlockNumber

/-- `BlockNumber.GetNumericBlockNumber`; a nil receiver is `latest`. -/
def getNumericBlockNumber (b : Option BlockNumber) (s : Backend) : Except RPCError UInt64 :=
  let bValue := b.getD latestBlockNumber
  if bValue = latestBlockNumber ∨ bValue = pendingBlockNumber then
    match s.getLastL2BlockNumber with
    | .error _ => .error ⟨defaultErrorCode, "failed to get the last block number from state"⟩
    | .ok lastBlockNumber => .ok lastBlockNumber
  else if bValue = earliestBlockNumber then .ok 0
  else if bValue = safeBlockNumber then
    l2BlockNumberFor s.getSafeBlockNumber s.getSafeL2BlockNumber
      "failed to get the safe block number from ethereum" "failed to get the safe block number from state"
  else if bValue = finalizedBlockNumber then
    l2BlockNumberFor s.getFinalizedBlockNumber s.getFinalizedL2BlockNumber
      "failed to get the finalized block number from ethereum" "failed to get the finalized block number from state"
  else if bValue < 0 then .error ⟨invalidParamsErrorCode, "invalid block number: " ++ toString bValue.toInt⟩
  else .ok bValue.toUInt64

/-! ### Reading a number -/

theorem decodeUint64orHex_tag {str : List Char} (h : str ∈ blockTags ∨ str = []) :
    decodeUint64orHex (some str) = .error .errSyntax := by
  simp only [blockTags, List.mem_cons, List.not_mem_nil, or_false] at h
  rcases h with (rfl | rfl | rfl | rfl | rfl) | rfl <;> decide

theorem stringToBlockNumber_of_decodeUint64orHex {s : List Char} {n : UInt64}
    (hn : decodeUint64orHex (some (Go.trim s ['"'])) = .ok n) : stringToBlockNumber s = .ok n.toInt64 := by
  have hnot : ∀ t, t ∈ blockTags ∨ t = [] → Go.trim s ['"'] ≠ t := by
    rintro t ht h
    rw [h, decodeUint64orHex_tag ht] at hn
    cases hn
  have h1 := hnot earliest (by simp [blockTags])
  have h2 := hnot pending (by simp [blockTags])
  have h3 := hnot latest (by simp [blockTags])
  have h4 := hnot [] (by simp)
  have h5 := hnot safe (by simp [blockTags])
  have h6 := hnot finalized (by simp [blockTags])
  simp only [stringToBlockNumber, h1, h2, h3, h4, h5, h6, or_self, if_false, hn]
  rfl

theorem toInt_toInt64 (u : UInt64) :
    u.toInt64.toInt = if u.toNat < 2 ^ 63 then (u.toNat : Int) else u.toNat - 2 ^ 64 := by
  change u.toBitVec.toInt = _
  rw [BitVec.toInt_eq_toNat_cond]
  change (if 2 * u.toNat < 2 ^ 64 then (u.toNat : Int) else u.toNat - ((2 ^ 64 : Nat) : Int)) = _
  split_ifs <;> first | rfl | omega

theorem eq_tag_of_neg {b : BlockNumber} (h : -5 ≤ b.toInt) (h' : b.toInt < 0) :
    b = earliestBlockNumber ∨ b = latestBlockNumber ∨ b = pendingBlockNumber ∨ b = safeBlockNumber ∨
      b = finalizedBlockNumber := by
  simp only [← Int64.toInt_inj]
  have h1 : earliestBlockNumber.toInt = -1 := by decide
  have h2 : latestBlockNumber.toInt = -2 := by decide
  have h3 : pendingBlockNumber.toInt = -3 := by decide
  have h4 : safeBlockNumber.toInt = -4 := by decide
  have h5 : finalizedBlockNumber.toInt = -5 := by decide
  omega

/-- The five largest `uint64` values are read as tags. -/
theorem toInt64_tag {n : UInt64} (h : 2 ^ 64 - 5 ≤ n.toNat) :
    ∃ tag ∈ blockTags, stringToBlockNumber tag = .ok n.toInt64 := by
  have hlt := n.toNat_lt
  obtain ⟨k, hk, rfl⟩ : ∃ k < 5, n = UInt64.ofNat (2 ^ 64 - 1 - k) := by
    refine ⟨2 ^ 64 - 1 - n.toNat, by omega, UInt64.toNat_inj.mp ?_⟩
    rw [UInt64.toNat_ofNat_of_lt' (by rw [UInt64.size]; omega)]
    omega
  interval_cases k <;> decide

/-! ### Answering a block parameter -/

theorem l2BlockNumberFor_code {l1 : Except BackendError UInt64} {l2 : UInt64 → Except BackendError UInt64}
    {ethermanErr stateErr : String} {e : RPCError} (he : l2BlockNumberFor l1 l2 ethermanErr stateErr = .error e) :
    e.code = defaultErrorCode := by
  unfold l2BlockNumberFor at he
  split at he
  · cases he; rfl
  · split at he
    · cases he
    · cases he; rfl
    · cases he

theorem getNumericBlockNumber_error {b : BlockNumber} {s : Backend} {e : RPCError}
    (he : getNumericBlockNumber (some b) s = .error e) :
    e.code = defaultErrorCode ∨ (e.code = invalidParamsErrorCode ∧ b.toInt < -5) := by
  unfold getNumericBlockNumber at he
  simp only [Option.getD_some] at he
  -- the `earliest` and the non-negative cases answer `.ok` and are closed by the split
  split_ifs at he with hlast hearliest hsafe hfinalized hneg
  · split at he
    · cases he
      exact .inl rfl
    · cases he
  · exact .inl (l2BlockNumberFor_code he)
  · exact .inl (l2BlockNumberFor_code he)
  · cases he
    refine .inr ⟨rfl, ?_⟩
    by_contra hge
    rw [Int64.lt_iff_toInt_lt, Int64.toInt_zero] at hneg
    rcases eq_tag_of_neg (by omega) hneg with h | h | h | h | h
    · exact hearliest h
    · exact hlast (.inl h)
    · exact hlast (.inr h)
    · exact hsafe h
    · exact hfinalized h

theorem getNumericBlockNumber_code_of_neg {b : BlockNumber} (h : -5 ≤ b.toInt)
    (s : Backend) {e : RPCError} (he : getNumericBlockNumber (some b) s = .error e) : e.code = defaultErrorCode := by
  rcases getNumericBlockNumber_error he with hcode | ⟨-, hlt⟩
  · exact hcode
  · omega

theorem getNumericBlockNumber_of_not_tag {b : BlockNumber} (h : b.toInt < -5 ∨ 0 ≤ b.toInt) (s : Backend) :
    getNumericBlockNumber (some b) s =
      if b < 0 then .error ⟨invalidParamsErrorCode, "invalid block number: " ++ toString b.toInt⟩
      else .ok b.toUInt64 := by
  have hne : ∀ t : BlockNumber, -5 ≤ t.toInt → t.toInt < 0 → b ≠ t := by
    rintro t h1 h2 rfl
    omega
  simp only [getNumericBlockNumber, Option.getD_some, hne latestBlockNumber (by decide) (by decide),
    hne pendingBlockNumber (by decide) (by decide), hne earliestBlockNumber (by decide) (by decide),
    hne safeBlockNumber (by decide) (by decide), hne finalizedBlockNumber (by decide) (by decide), or_self,
    if_false]

theorem getNumericBlockNumber_toInt64_of_lt {n : UInt64} (hn : n.toNat < 2 ^ 63) (s : Backend) :
    getNumericBlockNumber (some n.toInt64) s = .ok n := by
  have hint := toInt_toInt64 n
  rw [if_pos hn] at hint
  rw [getNumericBlockNumber_of_not_tag (by omega), if_neg (by simp only [Int64.lt_iff_toInt_lt, hint, Int64.toInt_zero]; omega)]
  rfl

theorem getNumericBlockNumber_toInt64_invalid {n : UInt64} (h₁ : 2 ^ 63 ≤ n.toNat) (h₂ : n.toNat < 2 ^ 64 - 5)
    (s : Backend) :
    getNumericBlockNumber (some n.toInt64) s =
      .error ⟨invalidParamsErrorCode, "invalid block number: " ++ toString ((n.toNat : Int) - 2 ^ 64)⟩ := by
  have hint := toInt_toInt64 n
  rw [if_neg (by omega)] at hint
  have hlt := n.toNat_lt
  rw [getNumericBlockNumber_of_not_tag (by omega),
    if_pos (by simp only [Int64.lt_iff_toInt_lt, hint, Int64.toInt_zero]; omega), hint]

/-- **Numbers read as tags.**  A block parameter whose text is one of the five
largest `uint64` values is read as the tag with that code, and answered as
that tag, never rejected as invalid params. -/
theorem stringToBlockNumber_tag_collision {s : List Char} {n : UInt64}
    (hn : decodeUint64orHex (some (Go.trim s ['"'])) = .ok n) (hhigh : 2 ^ 64 - 5 ≤ n.toNat) :
    ∃ tag ∈ blockTags, ∃ b, stringToBlockNumber s = .ok b ∧ stringToBlockNumber tag = .ok b ∧
      ∀ backend e, getNumericBlockNumber (some b) backend = .error e → e.code ≠ invalidParamsErrorCode := by
  obtain ⟨tag, htag, htb⟩ := toInt64_tag hhigh
  have hlt := n.toNat_lt
  have hint := toInt_toInt64 n
  rw [if_neg (by omega)] at hint
  refine ⟨tag, htag, n.toInt64, stringToBlockNumber_of_decodeUint64orHex hn, htb, ?_⟩
  intro backend e he
  rw [getNumericBlockNumber_code_of_neg (by omega) backend he]
  decide

theorem stringToBlockNumber_tag_collision_latest :
    let s := "\"0xfffffffffffffffe\"".toList
    let backend : Backend := ⟨.ok 7, .ok 0, fun _ => .ok 0, .ok 0, fun _ => .ok 0⟩
    (∃ tag ∈ blockTags, ∃ b, stringToBlockNumber s = .ok b ∧ stringToBlockNumber tag = .ok b ∧
      ∀ backend e, getNumericBlockNumber (some b) backend = .error e → e.code ≠ invalidParamsErrorCode) ∧
    stringToBlockNumber s = .ok latestBlockNumber ∧ getNumericBlockNumber (some latestBlockNumber) backend = .ok 7 := by
  intro s backend
  exact ⟨@stringToBlockNumber_tag_collision s 18446744073709551614 (by decide) (by decide), rfl, rfl⟩

/-! ### Writing a block number -/

/-- `StringToBlockNumber` reads back what `StringOrHex` writes, for the tags
and for every block number from `0` on. -/
theorem stringToBlockNumber_stringOrHex {b : BlockNumber} (hb : -5 ≤ b.toInt) :
    stringToBlockNumber (stringOrHex b) = .ok b := by
  by_cases hneg : b.toInt < 0
  · rcases eq_tag_of_neg hb hneg with rfl | rfl | rfl | rfl | rfl <;> decide
  · have hne : ∀ t : BlockNumber, t.toInt < 0 → b ≠ t := by
      rintro t ht rfl
      omega
    have h0x : "0x".toList = ['0', 'x'] := rfl
    have hquote : ∀ c ∈ Go.encodeUint64 b.toUInt64, c ∉ ['"'] := by
      intro c hc
      simp only [Go.encodeUint64, Go.appendUint, List.mem_append] at hc
      rcases hc with hc | hc
      · rw [h0x] at hc
        rcases List.mem_pair.mp hc with rfl | rfl <;> decide
      · obtain ⟨d, hd, rfl⟩ := Go.mem_toDigits hc (by norm_num)
        simp [(Go.digitChar_ne_of_lt hd).1]
    rw [stringOrHex, if_neg (hne _ (by decide)), if_neg (hne _ (by decide)), if_neg (hne _ (by decide)),
      if_neg (hne _ (by decide)), if_neg (hne _ (by decide))]
    apply stringToBlockNumber_of_decodeUint64orHex
    rw [Go.trim_of_forall_not_mem hquote, decodeUint64orHex, Go.encodeUint64, Go.appendUint, h0x,
      if_pos (by simp), List.cons_append, List.cons_append, List.nil_append, List.drop_succ_cons, List.drop_succ_cons,
      List.drop_zero, Go.parseUint_toDigits (by norm_num) (by norm_num) b.toUInt64.toNat_lt]
    exact congrArg Except.ok UInt64.ofNat_toNat

end CdkValidium.Jsonrpc
