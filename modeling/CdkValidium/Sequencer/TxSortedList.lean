import CdkValidium.Go.Basic
import CdkValidium.Go.Sort

/-!
# Transaction trackers and the gas-price sorted list

The sequencer's worker keeps the transactions it may put in the next batch in
a `txSortedList` (`sequencer/txsorted_list.go`): a map from hash to tracker and
a slice of the same trackers sorted by gas price, highest first.  Both `add`
and `delete` find their position with `sort.Search`, comparing against the
tracker the map holds for each slice element's hash.

A `*TxTracker` is shared by the per-sender queue that owns it and by this list.
The model keeps, with the pointer (`id`), the fields `newTxTracker` fixes once
and for all; the two fields written through the pointer later are in
`TxTrackerHeap`.

The representation invariant `TxSortedList.Valid` (the map is the slice keyed
by hash, hashes are distinct, the slice is sorted) makes every map lookup of
the searches succeed, and `add` and `delete` keep it:

* `TxSortedList.add_spec`: `add` inserts a tracker of a new hash after the
  trackers of equal or higher gas price, and does nothing for a known hash.
* `TxSortedList.delete_spec`: `delete` takes out the tracker of that hash.
-/

namespace CdkValidium.Sequencer

/-- `state.ZKCounters`: what a transaction uses of each prover resource. -/
structure ZKCounters where
  cumulativeGasUsed : Nat
  usedKeccakHashes : Nat
  usedPoseidonHashes : Nat
  usedPoseidonPaddings : Nat
  usedMemAligns : Nat
  usedArithmetics : Nat
  usedBinaries : Nat
  usedSteps : Nat
  deriving DecidableEq, Repr

/-- A `*TxTracker`: the pointer `id` and the fields fixed by `newTxTracker`.
`hashStr` and `fromStr` stand for `HashStr` and `FromStr`, the hex texts of
`Hash` and `From`; the rendering is injective, so one number models each pair.
`bytes` is `BatchResources.Bytes`, the transaction's size. -/
structure TxTracker where
  id : Nat
  hashStr : Nat
  fromStr : Nat
  nonce : Nat
  gasPrice : Nat
  cost : Nat
  bytes : Nat
  receivedAt : Nat
  deriving DecidableEq, Repr

/-- The fields of the tracker objects that are written after `newTxTracker`,
by pointer: `BatchResources.ZKCounters` (`updateZKCounters`) and
`FailedReason`. -/
structure TxTrackerHeap where
  zkCounters : Nat → ZKCounters
  failedReason : Nat → Option String

/-- `updateZKCounters`: `tx.BatchResources.ZKCounters = counters`. -/
def TxTrackerHeap.updateZKCounters (heap : TxTrackerHeap) (tx : TxTracker)
    (counters : ZKCounters) : TxTrackerHeap :=
  { heap with zkCounters := Function.update heap.zkCounters tx.id counters }

/-- `txTracker.FailedReason = &reason`. -/
def TxTrackerHeap.setFailedReason (heap : TxTrackerHeap) (tx : TxTracker) (reason : String) :
    TxTrackerHeap :=
  { heap with failedReason := Function.update heap.failedReason tx.id (some reason) }

/-! ### The list -/

/-- `txSortedList`: `list` maps `HashStr` to the tracker, `sorted` holds the
trackers by gas price, highest first. -/
structure TxSortedList where
  list : AList (fun _ : Nat => TxTracker)
  sorted : List TxTracker
  deriving DecidableEq

def newTxSortedList : TxSortedList := ⟨∅, []⟩

namespace TxSortedList

/-- `isGreaterThan`: `tx1` pays a higher gas price than `tx2`. -/
def isGreaterThan (tx1 tx2 : TxTracker) : Bool := decide (tx2.gasPrice < tx1.gasPrice)

/-- `isGreaterOrEqualThan`: `tx1` pays at least the gas price of `tx2`. -/
def isGreaterOrEqualThan (tx1 tx2 : TxTracker) : Bool := decide (tx2.gasPrice ≤ tx1.gasPrice)

/-- `e.list[e.sorted[i].HashStr]`, the tracker the searches compare with.  The
map gives `nil` for a missing key, and the comparison then reads a field
through it. -/
def entry (e : TxSortedList) (i : Nat) : Except Go.Panic TxTracker :=
  match e.sorted[i]? with
  | none => .error .indexOutOfRange
  | some t =>
    match e.list.lookup t.hashStr with
    | none => .error .nilDereference
    | some t' => .ok t'

/-- `addSort`: put `tx` at the first index whose tracker has a lower gas
price than `tx`. -/
def addSort (e : TxSortedList) (tx : TxTracker) : Except Go.Panic TxSortedList := do
  let i ← Go.sortSearch e.sorted.length fun i => isGreaterThan tx <$> e.entry i
  pure { e with sorted := e.sorted.insertIdx i tx }

/-- `add`: a tracker whose hash is not in the map is put in both; the result
says whether it was added. -/
def add (e : TxSortedList) (tx : TxTracker) : Except Go.Panic (TxSortedList × Bool) :=
  if tx.hashStr ∈ e.list then .ok (e, false)
  else do
    let e' ← addSort { e with list := e.list.insert tx.hashStr tx } tx
    pure (e', true)

/-- The `for` loop of `delete`, over the slice from index `i` on: it gives up
at the end of the slice or at a tracker of another gas price, and stops at the
tracker with `tx`'s hash. -/
def findFrom (tx : TxTracker) : List TxTracker → Nat → Option Nat
  | [], _ => none
  | t :: rest, i =>
    if t.gasPrice ≠ tx.gasPrice then none
    else if t.hashStr = tx.hashStr then some i
    else findFrom tx rest (i + 1)

/-- `delete`: look the hash up in the map (from then on `tx` is the map's
tracker), find the first index of gas price at most `tx`'s with `sort.Search`,
walk down the trackers of equal gas price to `tx`'s hash, and take it out of
the map and the slice.  The result says whether it was deleted. -/
def delete (e : TxSortedList) (tx : TxTracker) : Except Go.Panic (TxSortedList × Bool) :=
  match e.list.lookup tx.hashStr with
  | none => .ok (e, false)
  | some tx => do
    let i ← Go.sortSearch e.sorted.length fun i => isGreaterOrEqualThan tx <$> e.entry i
    match findFrom tx (e.sorted.drop i) i with
    | none => pure (e, false)
    | some i => pure (⟨e.list.erase tx.hashStr, e.sorted.eraseIdx i⟩, true)

def getByIndex (e : TxSortedList) (i : Nat) : Except Go.Panic TxTracker :=
  match e.sorted[i]? with
  | none => .error .indexOutOfRange
  | some t => .ok t

def len (e : TxSortedList) : Nat := e.sorted.length

end TxSortedList

namespace TxSortedList

/-! ### The representation invariant -/

/-- The map holds exactly the slice's trackers, each under its hash; no two
trackers of the slice share a hash; the slice is sorted by gas price, highest
first. -/
structure Valid (e : TxSortedList) : Prop where
  lookup_iff : ∀ h t, e.list.lookup h = some t ↔ t ∈ e.sorted ∧ t.hashStr = h
  nodup : (e.sorted.map TxTracker.hashStr).Nodup
  sorted : e.sorted.Pairwise fun a b => b.gasPrice ≤ a.gasPrice

theorem valid_newTxSortedList : newTxSortedList.Valid where
  lookup_iff h t := by simp [newTxSortedList, AList.lookup_empty]
  nodup := List.nodup_nil
  sorted := List.Pairwise.nil

variable {e : TxSortedList} {tx t : TxTracker}

theorem Valid.lookup_of_mem (hv : e.Valid) (ht : t ∈ e.sorted) : e.list.lookup t.hashStr = some t :=
  (hv.lookup_iff _ _).mpr ⟨ht, rfl⟩

theorem Valid.eq_of_hashStr_eq (hv : e.Valid) {u : TxTracker} (ht : t ∈ e.sorted)
    (hu : u ∈ e.sorted) (hh : u.hashStr = t.hashStr) : u = t := by
  have h := hv.lookup_of_mem hu
  rw [hh, hv.lookup_of_mem ht] at h
  exact (Option.some.inj h).symm

theorem Valid.hashStr_ne_of_notMem (hv : e.Valid) (hnew : tx.hashStr ∉ e.list) (ht : t ∈ e.sorted) :
    t.hashStr ≠ tx.hashStr := by
  intro hh
  apply hnew
  rw [← AList.lookup_isSome, ← hh, hv.lookup_of_mem ht]
  rfl

theorem entry_eq (hentry : ∀ t ∈ e.sorted, e.list.lookup t.hashStr = some t) {i : Nat}
    (hi : i < e.sorted.length) : e.entry i = .ok e.sorted[i] := by
  simp only [entry, List.getElem?_eq_getElem hi, hentry _ (List.getElem_mem hi)]

theorem sortSearch_entry (hentry : ∀ t ∈ e.sorted, e.list.lookup t.hashStr = some t)
    (hs : e.sorted.Pairwise fun a b => b.gasPrice ≤ a.gasPrice) {p : TxTracker → Bool}
    (hmono : ∀ a b : TxTracker, b.gasPrice ≤ a.gasPrice → p a = true → p b = true) :
    Go.sortSearch e.sorted.length (fun i => p <$> e.entry i) = .ok (e.sorted.takeWhile fun u => !p u).length := by
  refine Go.sortSearch_pairwise hs hmono fun k hk => ?_
  rw [entry_eq hentry hk]
  rfl

/-! ### `add` -/

theorem takeWhile_ge (l : List TxTracker) :
    ∀ u ∈ l.takeWhile (fun t => !isGreaterThan tx t), tx.gasPrice ≤ u.gasPrice := fun u hu => by
  simpa [isGreaterThan] using List.mem_takeWhile_imp hu

theorem dropWhile_lt {l : List TxTracker} (hs : l.Pairwise fun a b => b.gasPrice ≤ a.gasPrice) :
    ∀ u ∈ l.dropWhile (fun t => !isGreaterThan tx t), u.gasPrice < tx.gasPrice := fun u hu => by
  have h := Go.dropWhile_of_pairwise (q := fun t => !isGreaterThan tx t)
    (fun a b hab h => by
      simp only [isGreaterThan, Bool.not_eq_false', decide_eq_true_eq] at h ⊢
      omega) hs u hu
  simpa [isGreaterThan] using h

theorem addSort_eq (hentry : ∀ t ∈ e.sorted, e.list.lookup t.hashStr = some t)
    (hs : e.sorted.Pairwise fun a b => b.gasPrice ≤ a.gasPrice) :
    e.addSort tx = .ok ⟨e.list, e.sorted.takeWhile (fun t => !isGreaterThan tx t) ++
      tx :: e.sorted.dropWhile (fun t => !isGreaterThan tx t)⟩ := by
  have hsearch := sortSearch_entry hentry hs (p := isGreaterThan tx) fun a b hab h => by
    simp only [isGreaterThan, decide_eq_true_eq] at h ⊢
    omega
  simp only [addSort, hsearch, bind, Except.bind, pure, Except.pure]
  rw [← Go.insertIdx_append, List.takeWhile_append_dropWhile]

theorem add_of_notMem (hv : e.Valid) (hnew : tx.hashStr ∉ e.list) :
    e.add tx = .ok (⟨e.list.insert tx.hashStr tx,
      e.sorted.takeWhile (fun t => !isGreaterThan tx t) ++
        tx :: e.sorted.dropWhile (fun t => !isGreaterThan tx t)⟩, true) := by
  have hentry : ∀ t ∈ e.sorted, (e.list.insert tx.hashStr tx).lookup t.hashStr = some t :=
    fun t ht => by rw [AList.lookup_insert_ne (hv.hashStr_ne_of_notMem hnew ht), hv.lookup_of_mem ht]
  rw [add, if_neg hnew, addSort_eq (e := { e with list := e.list.insert tx.hashStr tx }) hentry hv.sorted]
  rfl

theorem add_of_mem (h : tx.hashStr ∈ e.list) : e.add tx = .ok (e, false) := by
  rw [add, if_pos h]

/-! ### `delete` -/

theorem findFrom_append {mid rest : List TxTracker} (i : Nat)
    (hmid : ∀ u ∈ mid, u.gasPrice = tx.gasPrice ∧ u.hashStr ≠ tx.hashStr) :
    findFrom tx (mid ++ tx :: rest) i = some (i + mid.length) := by
  induction mid generalizing i with
  | nil => simp [findFrom]
  | cons u mid ih =>
    obtain ⟨hgp, hh⟩ := hmid u List.mem_cons_self
    rw [List.cons_append, findFrom, if_neg (by simpa using hgp), if_neg hh,
      ih (i + 1) fun v hv => hmid v (List.mem_cons_of_mem u hv)]
    simp only [List.length_cons]
    congr 1
    omega

theorem delete_of_lookup (hv : e.Valid) (ht : e.list.lookup tx.hashStr = some t) :
    ∃ pre post, e.sorted = pre ++ t :: post ∧
      e.delete tx = .ok (⟨e.list.erase t.hashStr, pre ++ post⟩, true) := by
  have htmem : t ∈ e.sorted := ((hv.lookup_iff _ _).mp ht).1
  have hsearch := sortSearch_entry (fun u hu => hv.lookup_of_mem hu) hv.sorted (p := isGreaterOrEqualThan t)
    fun a b hab h => by
      simp only [isGreaterOrEqualThan, decide_eq_true_eq] at h ⊢
      omega
  -- the trackers before the search's index pay more than `t`, those after at most as much
  have habove : ∀ u ∈ e.sorted.takeWhile (fun u => !isGreaterOrEqualThan t u),
      t.gasPrice < u.gasPrice := fun u hu => by
    simpa [isGreaterOrEqualThan] using List.mem_takeWhile_imp hu
  have hbelow : ∀ u ∈ e.sorted.dropWhile (fun u => !isGreaterOrEqualThan t u),
      u.gasPrice ≤ t.gasPrice := fun u hu => by
    have h := Go.dropWhile_of_pairwise (q := fun u => !isGreaterOrEqualThan t u)
      (fun a b hab h => by simp only [isGreaterOrEqualThan, Bool.not_eq_false',
        decide_eq_true_eq] at h ⊢; omega) hv.sorted u hu
    simpa [isGreaterOrEqualThan] using h
  have hsplit := List.takeWhile_append_dropWhile (p := fun u => !isGreaterOrEqualThan t u)
    (l := e.sorted)
  simp only [delete, ht, hsearch, bind, Except.bind]
  generalize e.sorted.takeWhile (fun u => !isGreaterOrEqualThan t u) = pre0 at habove hsplit ⊢
  generalize e.sorted.dropWhile (fun u => !isGreaterOrEqualThan t u) = post0 at hbelow hsplit
  -- `t` is not among the trackers that pay more, so the walk starts before it
  have htpost : t ∈ post0 := by
    rw [← hsplit] at htmem
    rcases List.mem_append.mp htmem with h | h
    · exact absurd (habove t h) (lt_irrefl _)
    · exact h
  obtain ⟨mid, rest, rfl⟩ := List.append_of_mem htpost
  have hsorted : e.sorted = (pre0 ++ mid) ++ t :: rest := by rw [← hsplit, List.append_assoc]
  have hmid : ∀ u ∈ mid, u.gasPrice = t.gasPrice ∧ u.hashStr ≠ t.hashStr := by
    intro u hu
    have hpair := hv.sorted
    rw [hsorted, List.pairwise_append] at hpair
    have hge := hpair.2.2 u (List.mem_append_right pre0 hu) t List.mem_cons_self
    have hle := hbelow u (List.mem_append_left _ hu)
    refine ⟨by omega, fun hh => ?_⟩
    have hnodup := hv.nodup
    rw [hsorted, List.map_append, List.nodup_append] at hnodup
    exact hnodup.2.2 _ (List.mem_map_of_mem (List.mem_append_right pre0 hu)) _
      (List.mem_map_of_mem List.mem_cons_self) hh
  refine ⟨pre0 ++ mid, rest, hsorted, ?_⟩
  rw [← hsplit, List.drop_left, findFrom_append _ hmid]
  simp only [pure, Except.pure]
  rw [← List.append_assoc, ← List.length_append, Go.eraseIdx_append]

theorem delete_of_lookup_eq_none (h : e.list.lookup tx.hashStr = none) :
    e.delete tx = .ok (e, false) := by
  rw [delete, h]

/-! ### The invariant is kept -/

theorem valid_insert_split (hv : e.Valid) (hnew : tx.hashStr ∉ e.list) {pre post : List TxTracker}
    (hsplit : e.sorted = pre ++ post) (hpre : ∀ u ∈ pre, tx.gasPrice ≤ u.gasPrice)
    (hpost : ∀ u ∈ post, u.gasPrice ≤ tx.gasPrice) :
    Valid ⟨e.list.insert tx.hashStr tx, pre ++ tx :: post⟩ := by
  have hmem : ∀ u, u ∈ pre ++ tx :: post ↔ u = tx ∨ u ∈ e.sorted := fun u => by
    rw [hsplit]
    simp only [List.mem_append, List.mem_cons]
    tauto
  constructor
  · intro h u
    rw [hmem]
    by_cases hh : h = tx.hashStr
    · subst hh
      rw [AList.lookup_insert, Option.some.injEq]
      constructor
      · rintro rfl
        exact ⟨Or.inl rfl, rfl⟩
      · rintro ⟨rfl | hu, hh⟩
        · rfl
        · exact absurd hh (hv.hashStr_ne_of_notMem hnew hu)
    · rw [AList.lookup_insert_ne hh, hv.lookup_iff]
      constructor
      · rintro ⟨hu, rfl⟩
        exact ⟨Or.inr hu, rfl⟩
      · rintro ⟨rfl | hu, rfl⟩
        · exact absurd rfl hh
        · exact ⟨hu, rfl⟩
  · have hnodup := hv.nodup
    rw [hsplit] at hnodup
    rw [List.map_append, List.map_cons, List.nodup_middle, List.nodup_cons, ← List.map_append]
    refine ⟨fun hmem' => ?_, hnodup⟩
    obtain ⟨u, hu, hh⟩ := List.mem_map.mp hmem'
    exact hv.hashStr_ne_of_notMem hnew (hsplit ▸ hu) hh
  · have hs := hv.sorted
    rw [hsplit, List.pairwise_append] at hs
    rw [List.pairwise_append, List.pairwise_cons]
    refine ⟨hs.1, ⟨hpost, hs.2.1⟩, fun a ha b hb => ?_⟩
    rcases List.mem_cons.mp hb with rfl | hb
    · exact hpre a ha
    · exact hs.2.2 a ha b hb

theorem valid_erase_split (hv : e.Valid) {pre post : List TxTracker}
    (hsplit : e.sorted = pre ++ t :: post) : Valid ⟨e.list.erase t.hashStr, pre ++ post⟩ := by
  have hsub : (pre ++ post).Sublist e.sorted := by
    rw [hsplit]
    exact List.Sublist.append_left (List.sublist_cons_self t post) pre
  have hne : ∀ u ∈ pre ++ post, u.hashStr ≠ t.hashStr := by
    intro u hu hh
    have hnodup := hv.nodup
    rw [hsplit, List.map_append, List.map_cons, List.nodup_middle, List.nodup_cons,
      ← List.map_append] at hnodup
    exact hnodup.1 (hh ▸ List.mem_map_of_mem hu)
  constructor
  · intro h u
    by_cases hh : h = t.hashStr
    · subst hh
      rw [AList.lookup_erase]
      simp only [reduceCtorEq, false_iff, not_and]
      exact hne u
    · rw [AList.lookup_erase_ne hh, hv.lookup_iff, hsplit]
      simp only [List.mem_append, List.mem_cons]
      constructor
      · rintro ⟨hu | rfl | hu, rfl⟩
        · exact ⟨Or.inl hu, rfl⟩
        · exact absurd rfl hh
        · exact ⟨Or.inr hu, rfl⟩
      · rintro ⟨hu | hu, rfl⟩
        · exact ⟨Or.inl hu, rfl⟩
        · exact ⟨Or.inr (Or.inr hu), rfl⟩
  · exact hv.nodup.sublist (hsub.map _)
  · exact hv.sorted.sublist hsub

theorem mem_erase_split (hv : e.Valid) {pre post : List TxTracker}
    (hsplit : e.sorted = pre ++ t :: post) (u : TxTracker) :
    u ∈ pre ++ post ↔ u ∈ e.sorted ∧ u.hashStr ≠ t.hashStr := by
  have hv' := valid_erase_split hv hsplit
  have hsub : (pre ++ post).Sublist e.sorted := by
    rw [hsplit]
    exact List.Sublist.append_left (List.sublist_cons_self t post) pre
  constructor
  · intro hu
    refine ⟨hsub.subset hu, fun hh => ?_⟩
    have hlookup := (hv'.lookup_iff _ _).mpr ⟨hu, hh⟩
    rw [AList.lookup_erase] at hlookup
    exact absurd hlookup (by simp)
  · rintro ⟨hu, hh⟩
    rw [hsplit] at hu
    simp only [List.mem_append, List.mem_cons] at hu ⊢
    rcases hu with hu | rfl | hu
    · exact Or.inl hu
    · exact absurd rfl hh
    · exact Or.inr hu

/-- `add` on a valid list never panics and keeps it valid; it reports and
makes an insertion exactly when the hash was new. -/
theorem add_spec (hv : e.Valid) (tx : TxTracker) :
    ∃ e' b, e.add tx = .ok (e', b) ∧ e'.Valid ∧ (b = true ↔ tx.hashStr ∉ e.list) ∧
      ∀ u, u ∈ e'.sorted ↔ u ∈ e.sorted ∨ (u = tx ∧ tx.hashStr ∉ e.list) := by
  by_cases hnew : tx.hashStr ∈ e.list
  · refine ⟨e, false, add_of_mem hnew, hv, by simp [hnew], fun u => ?_⟩
    simp [hnew]
  · have hsplit := List.takeWhile_append_dropWhile (p := fun t => !isGreaterThan tx t)
      (l := e.sorted)
    refine ⟨_, true, add_of_notMem hv hnew, valid_insert_split hv hnew hsplit.symm (takeWhile_ge e.sorted)
      (fun u hu => Nat.le_of_lt (dropWhile_lt hv.sorted u hu)),
      by simp [hnew], fun u => ?_⟩
    conv_rhs => rw [← hsplit]
    simp only [List.mem_append, List.mem_cons, hnew, not_false_eq_true, and_true]
    tauto

/-- `delete` on a valid list never panics and keeps it valid; it takes out
the tracker of `tx`'s hash, and reports whether there was one. -/
theorem delete_spec (hv : e.Valid) (tx : TxTracker) :
    ∃ e' b, e.delete tx = .ok (e', b) ∧ e'.Valid ∧ (b = true ↔ tx.hashStr ∈ e.list) ∧
      ∀ u, u ∈ e'.sorted ↔ u ∈ e.sorted ∧ u.hashStr ≠ tx.hashStr := by
  cases hlookup : e.list.lookup tx.hashStr with
  | none =>
    have hnot : tx.hashStr ∉ e.list := AList.lookup_eq_none.mp hlookup
    refine ⟨e, false, delete_of_lookup_eq_none hlookup, hv, by simp [hnot], fun u => ?_⟩
    refine ⟨fun hu => ⟨hu, fun hh => ?_⟩, And.left⟩
    rw [← hh, hv.lookup_of_mem hu] at hlookup
    exact absurd hlookup (by simp)
  | some t =>
    have hhash : t.hashStr = tx.hashStr := ((hv.lookup_iff _ _).mp hlookup).2
    obtain ⟨pre, post, hsplit, hdel⟩ := delete_of_lookup hv hlookup
    refine ⟨_, true, hdel, valid_erase_split hv hsplit, ?_, fun u => ?_⟩
    · simp [← AList.lookup_isSome, hlookup]
    · rw [← hhash]
      exact mem_erase_split hv hsplit u

end TxSortedList

end CdkValidium.Sequencer
