import CdkValidium.Go.Basic

/-!
# Batch data from the data availability committee

`synchronizer/datacommittee.go`: a node that syncs a validium batch knows
only the hash of its L2 data.  `getBatchL2Data` takes the data from the local
state if its hash is the expected one, else from the trusted sequencer, else
from the committee; every source's data is checked against the hash.
`getDataFromCommittee` asks the members one after the other from the cursor
`selectedCommitteeMember`, cyclically, and stops at the first good answer or
when the cursor is back where it started; then it reloads the committee.

The members' answers are functions of their position in `committeeMembers`:
one call asks each member at most once, so this covers every sequence of
answers.  `keccak256` is an arbitrary function.

What the walk is for is `firstAccepted` over `probeOrder`: the first member,
in cyclic order from the cursor, whose answer hashes to the expected hash
(`getDataFromCommittee_eq`).
-/

namespace CdkValidium.Synchronizer

/-- The fields of `ClientSynchronizer` the committee walk uses; the cursor is
`-1` when there is no member to ask. -/
structure CommitteeState (Member : Type) where
  committeeMembers : List Member
  selectedCommitteeMember : Int
  deriving DecidableEq

/-- The errors of the state's `GetBatchL2DataByNumber`. -/
inductive StateError
  | errNotFound
  | other (e : String)
  deriving DecidableEq

/-- What the outside world answers during one call: the local state, the
trusted sequencer's `BatchL2Data`, each member's `GetOffChainData` by its
position, the L1 contract's current committee (`nil` as `none`), and the
number `rand.Intn(n)` is taken from, as `intn % n`. -/
structure Sources (Member : Type) where
  getBatchL2DataByNumber : Except StateError (List UInt8)
  batchByNumberNoFullTxs : Except String (List UInt8)
  getOffChainData : Nat → Except String (List UInt8)
  getCurrentDataCommittee : Except String (Option (List Member))
  intn : Nat

variable {Member Hash : Type} [DecidableEq Hash] (keccak256 : List UInt8 → Hash)

/-- `loadCommittee`: a `nil` committee leaves the members and clears the
cursor; otherwise the cursor is a random member, or `-1` for no member. -/
def loadCommittee (s : CommitteeState Member) (src : Sources Member) :
    Except String (CommitteeState Member) :=
  match src.getCurrentDataCommittee with
  | .error e => .error e
  | .ok none => .ok { s with selectedCommitteeMember := -1 }
  | .ok (some members) =>
    .ok ⟨members, if members.length > 0 then ((src.intn % members.length : Nat) : Int) else -1⟩

/-- The loop of `getDataFromCommittee` from the member at `selectedCommitteeMember`,
where the walk started at `intialMember`: the data and the cursor it returns
with, or `none` and the cursor at `break`.  Each failed answer moves the
cursor on, modulo `n`. -/
def getDataFromCommittee.loop (getOffChainData : Nat → Except String (List UInt8))
    (expectedTransactionsHash : Hash) (n intialMember : Nat) (hinit : intialMember < n)
    (selectedCommitteeMember : Nat) : Except Go.Panic (Option (List UInt8) × Nat) :=
  if selectedCommitteeMember < n then
    match getOffChainData selectedCommitteeMember with
    | .error _ =>
      if (selectedCommitteeMember + 1) % n = intialMember then .ok (none, intialMember)
      else loop getOffChainData expectedTransactionsHash n intialMember hinit
        ((selectedCommitteeMember + 1) % n)
    | .ok data =>
      if keccak256 data ≠ expectedTransactionsHash then
        if (selectedCommitteeMember + 1) % n = intialMember then .ok (none, intialMember)
        else loop getOffChainData expectedTransactionsHash n intialMember hinit
          ((selectedCommitteeMember + 1) % n)
      else .ok (some data, selectedCommitteeMember)
  else .error .indexOutOfRange
-- the members still to ask before the cursor is back at `intialMember`
termination_by if selectedCommitteeMember < intialMember then intialMember - 1 - selectedCommitteeMember
  else intialMember + n - 1 - selectedCommitteeMember
decreasing_by
  all_goals
    rename_i hcur hnext
    -- the walk starts and stays inside the committee, so it comes back to its start
    have hstart : intialMember < n := hinit
    rcases Nat.lt_or_ge (selectedCommitteeMember + 1) n with hlt | hge
    · rw [Nat.mod_eq_of_lt hlt] at hnext ⊢
      split_ifs <;> omega
    · have hzero : (selectedCommitteeMember + 1) % n = 0 := by
        rw [show selectedCommitteeMember + 1 = n by omega, Nat.mod_self]
      rw [hzero] at hnext ⊢
      split_ifs <;> omega

/-- What `getDataFromCommittee` does once the loop has ended without data:
reload the committee and fail. -/
def getDataFromCommittee.fail (s : CommitteeState Member) (src : Sources Member) :
    Except String (List UInt8) × CommitteeState Member :=
  match loadCommittee s src with
  | .error e => (.error ("error loading data committee: " ++ e), s)
  | .ok s' => (.error "couldn't get the data from any committee member", s')

/-- `getDataFromCommittee`.  A cursor that is neither `-1` nor a position of
`committeeMembers` makes the first `s.committeeMembers[...]` panic. -/
def getDataFromCommittee (s : CommitteeState Member) (src : Sources Member)
    (expectedTransactionsHash : Hash) :
    Except Go.Panic (Except String (List UInt8) × CommitteeState Member) :=
  if s.selectedCommitteeMember = -1 then .ok (getDataFromCommittee.fail s src)
  else if h : 0 ≤ s.selectedCommitteeMember ∧ s.selectedCommitteeMember < s.committeeMembers.length then
    match getDataFromCommittee.loop keccak256 src.getOffChainData expectedTransactionsHash
        s.committeeMembers.length s.selectedCommitteeMember.toNat (by omega)
        s.selectedCommitteeMember.toNat with
    | .error p => .error p
    | .ok (some data, selected) => .ok (.ok data, { s with selectedCommitteeMember := selected })
    | .ok (none, selected) =>
      .ok (getDataFromCommittee.fail { s with selectedCommitteeMember := selected } src)
  else .error .indexOutOfRange

/-- `getDataFromTrustedSequencer`: the trusted sequencer's data if its hash is
the expected one.  Its error is only logged by the caller. -/
def getDataFromTrustedSequencer (src : Sources Member) (expectedTransactionsHash : Hash) :
    Option (List UInt8) :=
  match src.batchByNumberNoFullTxs with
  | .error _ => none
  | .ok batchL2Data => if expectedTransactionsHash ≠ keccak256 batchL2Data then none else some batchL2Data

/-- `getBatchL2Data`: the local data if it is found and has the expected hash,
else the trusted sequencer's (on a node that is not the trusted sequencer),
else the committee's. -/
def getBatchL2Data (isTrustedSequencer : Bool) (batchNum : Nat) (expectedTransactionsHash : Hash)
    (s : CommitteeState Member) (src : Sources Member) :
    Except Go.Panic (Except String (List UInt8) × CommitteeState Member) :=
  match src.getBatchL2DataByNumber with
  | .error (.other e) =>
    .ok (.error ("failed to get batch data from state for batch num " ++ toString batchNum ++ ": " ++ e), s)
  | .error .errNotFound => fromOthers
  | .ok transactionsData =>
    if expectedTransactionsHash ≠ keccak256 transactionsData then fromOthers
    else .ok (.ok transactionsData, s)
where
  fromOthers : Except Go.Panic (Except String (List UInt8) × CommitteeState Member) :=
    match (if isTrustedSequencer then none
        else getDataFromTrustedSequencer keccak256 src expectedTransactionsHash) with
    | some data => .ok (.ok data, s)
    | none =>
      match getDataFromCommittee keccak256 s src expectedTransactionsHash with
      | .error p => .error p
      | .ok (.error _, s') =>
        if isTrustedSequencer then .ok (.error "data not found on the local DB nor on any data committee member", s')
        else .ok (.error
          "data not found on the local DB, nor from the trusted sequencer nor on any data committee member", s')
      | .ok (.ok data, s') => .ok (.ok data, s')

/-! ### What the walk is for -/

/-- The members one call asks, in order: every position once, cyclically from `start`. -/
def probeOrder (n start : Nat) : List Nat := (List.range n).map fun j => (start + j) % n

/-- An answer with the expected hash, with the position that gave it. -/
def accepted (expectedTransactionsHash : Hash) (i : Nat) : Except String (List UInt8) → Option (Nat × List UInt8)
  | .ok data => if keccak256 data = expectedTransactionsHash then some (i, data) else none
  | .error _ => none

/-- The first member in `order` whose answer has the expected hash. -/
def firstAccepted (getOffChainData : Nat → Except String (List UInt8)) (expectedTransactionsHash : Hash)
    (order : List Nat) : Option (Nat × List UInt8) :=
  order.findSome? fun i => accepted keccak256 expectedTransactionsHash i (getOffChainData i)

/-- The cursor is `-1` or a position of `committeeMembers`. -/
def CommitteeState.Valid (s : CommitteeState Member) : Prop :=
  s.selectedCommitteeMember = -1 ∨
    0 ≤ s.selectedCommitteeMember ∧ s.selectedCommitteeMember < s.committeeMembers.length

/-! ### The cyclic order -/

theorem add_succ_mod_eq_self_iff {n start j : Nat} (hstart : start < n) (hj : j < n) :
    (start + (j + 1)) % n = start ↔ j + 1 = n := by
  rcases Nat.lt_or_ge (start + (j + 1)) n with hlt | hge
  · rw [Nat.mod_eq_of_lt hlt]
    omega
  · rw [Nat.mod_eq_sub_mod hge, Nat.mod_eq_of_lt (by omega)]
    omega

theorem add_mod_injOn {n start a b : Nat} (ha : a < n) (hb : b < n)
    (h : (start + a) % n = (start + b) % n) : a = b := by
  have hmod := Nat.ModEq.add_left_cancel' start h
  rwa [Nat.ModEq, Nat.mod_eq_of_lt ha, Nat.mod_eq_of_lt hb] at hmod

theorem length_probeOrder (n start : Nat) : (probeOrder n start).length = n := by
  simp [probeOrder]

theorem probeOrder_drop {n start j : Nat} (hj : j < n) :
    (probeOrder n start).drop j = (start + j) % n :: (probeOrder n start).drop (j + 1) := by
  rw [List.drop_eq_getElem_cons (by rwa [length_probeOrder])]
  simp [probeOrder]

theorem probeOrder_nodup (n start : Nat) : (probeOrder n start).Nodup := by
  refine List.Nodup.map_on (fun a ha b hb h => ?_) List.nodup_range
  exact add_mod_injOn (List.mem_range.mp ha) (List.mem_range.mp hb) h

theorem mem_probeOrder {n start i : Nat} (hstart : start < n) : i ∈ probeOrder n start ↔ i < n := by
  simp only [probeOrder, List.mem_map, List.mem_range]
  constructor
  · rintro ⟨j, -, rfl⟩
    exact Nat.mod_lt _ (by omega)
  · intro hi
    -- the distance from `start` forward to `i`
    rcases Nat.lt_or_ge i start with hlt | hle
    · refine ⟨i + n - start, by omega, ?_⟩
      rw [show start + (i + n - start) = i + n by omega, Nat.add_mod_right, Nat.mod_eq_of_lt hi]
    · exact ⟨i - start, by omega, by rw [Nat.add_sub_cancel' hle, Nat.mod_eq_of_lt hi]⟩

theorem firstAccepted_hash {getOffChainData : Nat → Except String (List UInt8)}
    {expectedTransactionsHash : Hash} {order : List Nat} {i : Nat} {data : List UInt8}
    (h : firstAccepted keccak256 getOffChainData expectedTransactionsHash order = some (i, data)) :
    keccak256 data = expectedTransactionsHash := by
  obtain ⟨j, -, hj⟩ := List.exists_of_findSome?_eq_some h
  unfold accepted at hj
  split at hj
  · split at hj
    · rename_i hk
      cases hj
      exact hk
    · cases hj
  · cases hj

theorem firstAccepted_mem {getOffChainData : Nat → Except String (List UInt8)}
    {expectedTransactionsHash : Hash} {order : List Nat} {i : Nat} {data : List UInt8}
    (h : firstAccepted keccak256 getOffChainData expectedTransactionsHash order = some (i, data)) :
    i ∈ order := by
  obtain ⟨j, hj, hacc⟩ := List.exists_of_findSome?_eq_some h
  unfold accepted at hacc
  split at hacc
  · split at hacc
    · cases hacc
      exact hj
    · cases hacc
  · cases hacc

theorem firstAccepted_eq_none_iff {getOffChainData : Nat → Except String (List UInt8)}
    {expectedTransactionsHash : Hash} {order : List Nat} :
    firstAccepted keccak256 getOffChainData expectedTransactionsHash order = none ↔
      ∀ i ∈ order, ∀ data, getOffChainData i = .ok data → keccak256 data ≠ expectedTransactionsHash := by
  simp only [firstAccepted, List.findSome?_eq_none_iff]
  refine forall₂_congr fun i _ => ?_
  cases getOffChainData i with
  | error e => simp [accepted]
  | ok data => simp [accepted]

/-! ### The walk -/

section Walk

variable {getOffChainData : Nat → Except String (List UInt8)} {expectedTransactionsHash : Hash}
  {n start : Nat}

/-- The result of the walk from the `j`-th member of `probeOrder n start` on. -/
def walkResult (keccak256 : List UInt8 → Hash) (getOffChainData : Nat → Except String (List UInt8))
    (expectedTransactionsHash : Hash) (n start j : Nat) : Option (List UInt8) × Nat :=
  match firstAccepted keccak256 getOffChainData expectedTransactionsHash ((probeOrder n start).drop j) with
  | some (i, data) => (some data, i)
  | none => (none, start)

theorem loop_next (hstart : start < n) {j : Nat} (hj : j < n)
    (ih : j + 1 < n → getDataFromCommittee.loop keccak256 getOffChainData expectedTransactionsHash n
      start hstart ((start + (j + 1)) % n) =
        .ok (walkResult keccak256 getOffChainData expectedTransactionsHash n start (j + 1))) :
    (if ((start + j) % n + 1) % n = start then Except.ok (none, start)
      else getDataFromCommittee.loop keccak256 getOffChainData expectedTransactionsHash n start hstart
        (((start + j) % n + 1) % n)) =
      .ok (walkResult keccak256 getOffChainData expectedTransactionsHash n start (j + 1)) := by
  rw [Nat.mod_add_mod, Nat.add_assoc]
  by_cases hlast : j + 1 = n
  · -- back at `start`: nothing is left to ask
    rw [if_pos ((add_succ_mod_eq_self_iff hstart hj).mpr hlast), walkResult, hlast,
      List.drop_of_length_le (by rw [length_probeOrder])]
    rfl
  · rw [if_neg (fun h => hlast ((add_succ_mod_eq_self_iff hstart hj).mp h))]
    exact ih (by omega)

theorem loop_eq (hstart : start < n) :
    ∀ j, j < n → getDataFromCommittee.loop keccak256 getOffChainData expectedTransactionsHash n start
      hstart ((start + j) % n) = .ok (walkResult keccak256 getOffChainData expectedTransactionsHash n start j) := by
  -- induction on the number of members after the `j`-th
  have key : ∀ m j, j + m + 1 = n → getDataFromCommittee.loop keccak256 getOffChainData
      expectedTransactionsHash n start hstart ((start + j) % n) =
        .ok (walkResult keccak256 getOffChainData expectedTransactionsHash n start j) := by
    intro m
    induction m with
    | zero =>
      intro j hj
      exact step j (by omega) (fun h => absurd h (by omega))
    | succ m ih =>
      intro j hj
      exact step j (by omega) (fun _ => ih (j + 1) (by omega))
  exact fun j hj => key (n - j - 1) j (by omega)
where
  step (j : Nat) (hj : j < n)
      (ih : j + 1 < n → getDataFromCommittee.loop keccak256 getOffChainData expectedTransactionsHash n
        start hstart ((start + (j + 1)) % n) =
          .ok (walkResult keccak256 getOffChainData expectedTransactionsHash n start (j + 1))) :
      getDataFromCommittee.loop keccak256 getOffChainData expectedTransactionsHash n start hstart
        ((start + j) % n) = .ok (walkResult keccak256 getOffChainData expectedTransactionsHash n start j) := by
    rw [getDataFromCommittee.loop, if_pos (Nat.mod_lt _ (by omega))]
    have hnext := loop_next keccak256 hstart hj ih
    -- the `j`-th member answers: an error, a wrong hash, or the data
    cases hans : getOffChainData ((start + j) % n) with
    | error e =>
      simp only [hnext, walkResult, probeOrder_drop hj, firstAccepted, List.findSome?_cons, hans, accepted]
    | ok data =>
      by_cases hk : keccak256 data = expectedTransactionsHash
      · simp [walkResult, probeOrder_drop hj, firstAccepted, hans, accepted, hk]
      · simp only [if_pos hk, hnext, walkResult, probeOrder_drop hj, firstAccepted, List.findSome?_cons,
          hans, accepted, if_neg hk, ne_eq]

end Walk

variable {s s' : CommitteeState Member} {src : Sources Member} {expectedTransactionsHash : Hash}

theorem walkResult_zero {getOffChainData : Nat → Except String (List UInt8)} {n start : Nat} :
    walkResult keccak256 getOffChainData expectedTransactionsHash n start 0 =
      match firstAccepted keccak256 getOffChainData expectedTransactionsHash (probeOrder n start) with
      | some (i, data) => (some data, i)
      | none => (none, start) := rfl

/-- **The walk.**  From a cursor at a member, `getDataFromCommittee` returns the
first answer with the expected hash in cyclic order from the cursor and leaves
the cursor at the member that gave it; with no such answer it reloads the
committee and fails. -/
theorem getDataFromCommittee_eq (hpos : 0 ≤ s.selectedCommitteeMember)
    (hlt : s.selectedCommitteeMember < s.committeeMembers.length) :
    getDataFromCommittee keccak256 s src expectedTransactionsHash =
      .ok (match firstAccepted keccak256 src.getOffChainData expectedTransactionsHash
          (probeOrder s.committeeMembers.length s.selectedCommitteeMember.toNat) with
        | some (i, data) => (.ok data, { s with selectedCommitteeMember := i })
        | none => getDataFromCommittee.fail s src) := by
  have hstart : s.selectedCommitteeMember.toNat < s.committeeMembers.length := by omega
  have hloop : getDataFromCommittee.loop keccak256 src.getOffChainData expectedTransactionsHash
      s.committeeMembers.length s.selectedCommitteeMember.toNat hstart
      ((s.selectedCommitteeMember.toNat + 0) % s.committeeMembers.length) =
        .ok (walkResult keccak256 src.getOffChainData expectedTransactionsHash
          s.committeeMembers.length s.selectedCommitteeMember.toNat 0) :=
    loop_eq keccak256 hstart 0 (by omega)
  rw [Nat.add_zero, Nat.mod_eq_of_lt hstart, walkResult_zero] at hloop
  rw [getDataFromCommittee, if_neg (by omega), dif_pos ⟨hpos, hlt⟩, hloop]
  rcases firstAccepted keccak256 src.getOffChainData expectedTransactionsHash
    (probeOrder s.committeeMembers.length s.selectedCommitteeMember.toNat) with _ | ⟨i, data⟩
  · -- the cursor is back at the start, which is `s`'s own
    simp only [Int.toNat_of_nonneg hpos]
  · rfl

theorem getDataFromCommittee.fail_fst (s : CommitteeState Member) (src : Sources Member) :
    ∃ e, (getDataFromCommittee.fail s src).1 = .error e := by
  unfold getDataFromCommittee.fail
  split <;> exact ⟨_, rfl⟩

theorem getDataFromCommittee_hash {data : List UInt8}
    (h : getDataFromCommittee keccak256 s src expectedTransactionsHash = .ok (.ok data, s')) :
    keccak256 data = expectedTransactionsHash := by
  have hfail : ∀ s₀, (getDataFromCommittee.fail s₀ src).1 ≠ .ok data := fun s₀ hok => by
    obtain ⟨e, he⟩ := getDataFromCommittee.fail_fst s₀ src
    rw [he] at hok
    cases hok
  by_cases hnone : s.selectedCommitteeMember = -1
  · rw [getDataFromCommittee, if_pos hnone, Except.ok.injEq] at h
    exact absurd (congrArg Prod.fst h) (hfail s)
  · by_cases hin : 0 ≤ s.selectedCommitteeMember ∧ s.selectedCommitteeMember < s.committeeMembers.length
    · rw [getDataFromCommittee_eq keccak256 hin.1 hin.2, Except.ok.injEq] at h
      split at h
      · rename_i i data' hfirst
        rw [Prod.mk.injEq, Except.ok.injEq] at h
        exact h.1 ▸ firstAccepted_hash keccak256 hfirst
      · exact absurd (congrArg Prod.fst h) (hfail s)
    · rw [getDataFromCommittee, if_neg hnone, dif_neg hin] at h
      cases h

theorem getDataFromTrustedSequencer_hash {data : List UInt8}
    (h : getDataFromTrustedSequencer keccak256 src expectedTransactionsHash = some data) :
    keccak256 data = expectedTransactionsHash := by
  unfold getDataFromTrustedSequencer at h
  split at h
  · cases h
  · split at h
    · cases h
    · rename_i heq
      cases h
      exact (not_not.mp heq).symm

/-! ### The cursor -/

theorem loadCommittee_valid (h : loadCommittee s src = .ok s') : s'.Valid := by
  unfold loadCommittee at h
  split at h
  · cases h
  · cases h
    exact Or.inl rfl
  · rename_i members _
    cases h
    unfold CommitteeState.Valid
    split
    · have := Nat.mod_lt src.intn ‹_›
      refine Or.inr ⟨?_, ?_⟩ <;> dsimp only <;> omega
    · exact Or.inl rfl

theorem getDataFromCommittee.fail_valid (hv : s.Valid) : (getDataFromCommittee.fail s src).2.Valid := by
  unfold getDataFromCommittee.fail
  split
  · exact hv
  · exact loadCommittee_valid ‹_›

/-- From a valid cursor the walk does not panic, and leaves a valid cursor. -/
theorem getDataFromCommittee_valid (hv : s.Valid) :
    ∃ r s', getDataFromCommittee keccak256 s src expectedTransactionsHash = .ok (r, s') ∧ s'.Valid := by
  rcases hv with hnone | ⟨hpos, hlt⟩
  · rw [getDataFromCommittee, if_pos hnone]
    exact ⟨_, _, rfl, getDataFromCommittee.fail_valid (Or.inl hnone)⟩
  · rw [getDataFromCommittee_eq keccak256 hpos hlt]
    split
    · rename_i i data hfirst
      -- the member that answered is one of the committee's
      have hi := (mem_probeOrder (by omega)).mp (firstAccepted_mem keccak256 hfirst)
      exact ⟨_, _, rfl, Or.inr ⟨by dsimp only; omega, by dsimp only; omega⟩⟩
    · exact ⟨_, _, rfl, getDataFromCommittee.fail_valid (Or.inr ⟨hpos, hlt⟩)⟩

/-! ### `getBatchL2Data` -/

section GetBatchL2Data

variable {isTrustedSequencer : Bool} {batchNum : Nat}

theorem getBatchL2Data.fromOthers_hash {data : List UInt8}
    (h : getBatchL2Data.fromOthers keccak256 isTrustedSequencer expectedTransactionsHash s src =
      .ok (.ok data, s')) :
    keccak256 data = expectedTransactionsHash := by
  unfold getBatchL2Data.fromOthers at h
  split at h
  · rename_i data' hts
    cases h
    split at hts
    · cases hts
    · exact getDataFromTrustedSequencer_hash keccak256 hts
  · split at h
    · cases h
    · split at h <;> cases h
    · rename_i data' s'' hcomm
      cases h
      exact getDataFromCommittee_hash keccak256 hcomm

theorem getBatchL2Data.fromOthers_valid (hv : s.Valid) :
    ∃ r s', getBatchL2Data.fromOthers keccak256 isTrustedSequencer expectedTransactionsHash s src =
      .ok (r, s') ∧ s'.Valid := by
  obtain ⟨r, s', hcomm, hv'⟩ : ∃ r s', getDataFromCommittee keccak256 s src expectedTransactionsHash =
      .ok (r, s') ∧ s'.Valid := getDataFromCommittee_valid keccak256 hv
  unfold getBatchL2Data.fromOthers
  split
  · exact ⟨_, _, rfl, hv⟩
  · rw [hcomm]
    rcases r with e | data
    · dsimp only
      split <;> exact ⟨_, _, rfl, hv'⟩
    · exact ⟨_, _, rfl, hv'⟩

/-- From a valid cursor `getBatchL2Data` does not panic and leaves a valid cursor. -/
theorem getBatchL2Data_valid (hv : s.Valid) :
    ∃ r s', getBatchL2Data keccak256 isTrustedSequencer batchNum expectedTransactionsHash s src =
      .ok (r, s') ∧ s'.Valid := by
  unfold getBatchL2Data
  split
  · exact ⟨_, _, rfl, hv⟩
  · exact getBatchL2Data.fromOthers_valid keccak256 hv
  · split
    · exact getBatchL2Data.fromOthers_valid keccak256 hv
    · exact ⟨_, _, rfl, hv⟩

theorem getBatchL2Data_verified_committee_walk (isTrustedSequencer : Bool) (batchNum : Nat)
    (expectedTransactionsHash : Hash) (s : CommitteeState Member) (src : Sources Member) :
    (∀ data s', getBatchL2Data keccak256 isTrustedSequencer batchNum expectedTransactionsHash s src =
        .ok (.ok data, s') → keccak256 data = expectedTransactionsHash) ∧
    (s.Valid → s.selectedCommitteeMember ≠ -1 →
      (probeOrder s.committeeMembers.length s.selectedCommitteeMember.toNat).Nodup ∧
      getDataFromCommittee keccak256 s src expectedTransactionsHash =
        .ok (match firstAccepted keccak256 src.getOffChainData expectedTransactionsHash
            (probeOrder s.committeeMembers.length s.selectedCommitteeMember.toNat) with
          | some (i, data) => (.ok data, { s with selectedCommitteeMember := i })
          | none => getDataFromCommittee.fail s src) ∧
      (firstAccepted keccak256 src.getOffChainData expectedTransactionsHash
          (probeOrder s.committeeMembers.length s.selectedCommitteeMember.toNat) = none ↔
        ∀ i < s.committeeMembers.length, ∀ data, src.getOffChainData i = .ok data →
          keccak256 data ≠ expectedTransactionsHash)) := by
  refine ⟨fun data s' h => ?_, fun hv hsel => ?_⟩
  · unfold getBatchL2Data at h
    split at h
    · cases h
    · exact getBatchL2Data.fromOthers_hash keccak256 h
    · split at h
      · exact getBatchL2Data.fromOthers_hash keccak256 h
      · rename_i hk
        cases h
        exact (not_not.mp hk).symm
  · obtain ⟨hpos, hlt⟩ := hv.resolve_left hsel
    have hstart : s.selectedCommitteeMember.toNat < s.committeeMembers.length := by omega
    refine ⟨probeOrder_nodup _ _, getDataFromCommittee_eq keccak256 hpos hlt, ?_⟩
    rw [firstAccepted_eq_none_iff]
    exact ⟨fun h i hi => h i ((mem_probeOrder hstart).mpr hi),
      fun h i hi => h i ((mem_probeOrder hstart).mp hi)⟩

/-- Three members, the cursor at the second: it fails, the third answers data
with another hash, and the first answers the data. -/
theorem getBatchL2Data_verified_committee_walk_run :
    let src : Sources Nat := ⟨.error .errNotFound, .error "unavailable",
      fun i => if i = 0 then .ok [1, 2] else if i = 2 then .ok [5] else .error "unavailable", .ok none, 0⟩
    getDataFromCommittee List.length ⟨[10, 11, 12], 1⟩ src 2 = .ok (.ok [1, 2], ⟨[10, 11, 12], 0⟩) := by
  intro src
  rw [((getBatchL2Data_verified_committee_walk List.length false 0 2 ⟨[10, 11, 12], 1⟩ src).2
    (Or.inr ⟨by decide, by decide⟩) (by decide)).2.1]
  rfl

end GetBatchL2Data

end CdkValidium.Synchronizer
