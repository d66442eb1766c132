import CdkValidium.Sequencer.TxSortedList

/-!
# Runs of the gas-price sorted list

`add_spec` and `delete_spec` say what one call does to a valid list.  Here a
whole sequence of calls is followed from `newTxSortedList`, against an
abstract account of what the list holds: the trackers added and not deleted
since, in the order they were added (`insertionOrder`).  The slice holds
exactly those trackers, sorted by gas price, and trackers of one gas price
stand in the order they were added: the slice and the account have the same
trackers of every gas price, in the same order (`Tracks`).

* `add_addSpec`, `delete_deleteSpec`: what a call on a valid list does, with
  the position `add` picks and the tracker `delete` takes out.
* `Tracks.apply`: one call keeps the slice in step with the account.
* `run_spec`: after any sequence of calls the list is valid and in step
  with the account, and the next call does what the two specs say.
-/

namespace CdkValidium.Sequencer

namespace TxSortedList

variable {e e' : TxSortedList} {tx : TxTracker}

/-! ### What one call does -/

/-- `add` of `tx` to `e` giving `e'`: it adds exactly when the hash is new,
and then puts `tx` after every tracker of gas price at least its own and
before all others. -/
def AddSpec (e : TxSortedList) (tx : TxTracker) (e' : TxSortedList) (b : Bool) : Prop :=
  (b = true ↔ tx.hashStr ∉ e.list) ∧
  (b = true → ∃ pre post, e.sorted = pre ++ post ∧ (∀ u ∈ pre, tx.gasPrice ≤ u.gasPrice) ∧
    (∀ u ∈ post, u.gasPrice < tx.gasPrice) ∧
    e' = ⟨e.list.insert tx.hashStr tx, pre ++ tx :: post⟩) ∧
  (b = false → e' = e)

/-- `delete` of `tx` from `e` giving `e'`: it deletes exactly when the hash is
stored, and then takes out the tracker of that hash and nothing else. -/
def DeleteSpec (e : TxSortedList) (tx : TxTracker) (e' : TxSortedList) (b : Bool) : Prop :=
  (b = true ↔ tx.hashStr ∈ e.list) ∧
  (b = true → ∃ pre t post, e.sorted = pre ++ t :: post ∧ t.hashStr = tx.hashStr ∧
    e' = ⟨e.list.erase tx.hashStr, pre ++ post⟩) ∧
  (b = false → e' = e)

theorem add_addSpec (hv : e.Valid) (tx : TxTracker) :
    ∃ e' b, e.add tx = .ok (e', b) ∧ AddSpec e tx e' b := by
  by_cases hnew : tx.hashStr ∈ e.list
  · exact ⟨e, false, add_of_mem hnew, by simp [hnew], fun h => absurd h (by simp), fun _ => rfl⟩
  · refine ⟨_, true, add_of_notMem hv hnew, by simp [hnew], fun _ => ?_, fun h => absurd h (by simp)⟩
    exact ⟨_, _, (List.takeWhile_append_dropWhile).symm, takeWhile_ge e.sorted, dropWhile_lt hv.sorted,
      rfl⟩

theorem delete_deleteSpec (hv : e.Valid) (tx : TxTracker) :
    ∃ e' b, e.delete tx = .ok (e', b) ∧ DeleteSpec e tx e' b := by
  cases hlookup : e.list.lookup tx.hashStr with
  | none =>
    have hnot : tx.hashStr ∉ e.list := AList.lookup_eq_none.mp hlookup
    exact ⟨e, false, delete_of_lookup_eq_none hlookup, by simp [hnot], fun h => absurd h (by simp),
      fun _ => rfl⟩
  | some t =>
    have hhash : t.hashStr = tx.hashStr := ((hv.lookup_iff _ _).mp hlookup).2
    obtain ⟨pre, post, hsplit, hdel⟩ := delete_of_lookup hv hlookup
    refine ⟨_, true, hdel, ?_, fun _ => ⟨pre, t, post, hsplit, hhash, by rw [hhash]⟩,
      fun h => absurd h (by simp)⟩
    simp [← AList.lookup_isSome, hlookup]

/-! ### The account of a run -/

inductive Op
  | add (tx : TxTracker)
  | delete (tx : TxTracker)

/-- One call: the list after it and what it returned. -/
def Op.apply : Op → TxSortedList → Except Go.Panic (TxSortedList × Bool)
  | .add tx, e => e.add tx
  | .delete tx, e => e.delete tx

/-- A sequence of calls from `e`: the list after them and what each returned. -/
def run (e : TxSortedList) : List Op → Except Go.Panic (TxSortedList × List Bool)
  | [] => .ok (e, [])
  | op :: ops => do
    let (e', b) ← op.apply e
    let (e'', bs) ← run e' ops
    pure (e'', b :: bs)

/-- What the list should hold after the calls, in the order the trackers were
added: an `add` of a new hash appends its tracker, a `delete` removes the
tracker of its hash. -/
def insertionOrder (live : List TxTracker) : List Op → List TxTracker
  | [] => live
  | .add tx :: ops =>
    insertionOrder (if tx.hashStr ∈ live.map TxTracker.hashStr then live else live ++ [tx]) ops
  | .delete tx :: ops => insertionOrder (live.filter fun t => t.hashStr ≠ tx.hashStr) ops

/-- The list is valid and holds, for every gas price, the trackers of the
account of that price in the account's order. -/
structure Tracks (e : TxSortedList) (live : List TxTracker) : Prop where
  valid : e.Valid
  fibre : ∀ g, e.sorted.filter (fun t => t.gasPrice = g) = live.filter fun t => t.gasPrice = g

theorem tracks_newTxSortedList : Tracks newTxSortedList [] := ⟨valid_newTxSortedList, fun _ => rfl⟩

variable {live : List TxTracker}

theorem Tracks.perm (ht : Tracks e live) : e.sorted.Perm live := by
  refine List.perm_iff_count.mpr fun a => ?_
  rw [← List.count_filter (p := fun t => decide (t.gasPrice = a.gasPrice)) (by simp),
    ← List.count_filter (p := fun t => decide (t.gasPrice = a.gasPrice)) (l := live) (by simp),
    ht.fibre]

theorem Tracks.mem_iff (ht : Tracks e live) (h : Nat) : h ∈ e.list ↔ h ∈ live.map TxTracker.hashStr := by
  rw [← (ht.perm.map TxTracker.hashStr).mem_iff, ← AList.lookup_isSome]
  constructor
  · intro hsome
    obtain ⟨t, ht'⟩ := Option.isSome_iff_exists.mp hsome
    obtain ⟨hmem, rfl⟩ := (ht.valid.lookup_iff _ _).mp ht'
    exact List.mem_map_of_mem hmem
  · intro hh
    obtain ⟨t, hmem, rfl⟩ := List.mem_map.mp hh
    rw [ht.valid.lookup_of_mem hmem]
    rfl

theorem filter_filter_comm (l : List TxTracker) (p q : TxTracker → Bool) :
    (l.filter p).filter q = (l.filter q).filter p := by
  simp only [List.filter_filter, Bool.and_comm]

theorem Tracks.add_new (ht : Tracks e live) (hnew : tx.hashStr ∉ e.list) :
    Tracks ⟨e.list.insert tx.hashStr tx, e.sorted.takeWhile (fun t => !isGreaterThan tx t) ++
      tx :: e.sorted.dropWhile (fun t => !isGreaterThan tx t)⟩ (live ++ [tx]) := by
  have hsplit := (List.takeWhile_append_dropWhile (p := fun t => !isGreaterThan tx t)
    (l := e.sorted)).symm
  refine ⟨valid_insert_split ht.valid hnew hsplit (takeWhile_ge e.sorted)
    fun u hu => Nat.le_of_lt (dropWhile_lt ht.valid.sorted u hu), fun g => ?_⟩
  have hpost := @dropWhile_lt tx _ ht.valid.sorted
  have hfib := ht.fibre g
  rw [hsplit, List.filter_append] at hfib
  by_cases hg : tx.gasPrice = g
  · -- no tracker after the new one has its gas price
    have hnil : (e.sorted.dropWhile (fun t => !isGreaterThan tx t)).filter
        (fun t => t.gasPrice = g) = [] :=
      List.filter_eq_nil_iff.mpr fun u hu => by have := hpost u hu; simp only [decide_eq_true_eq]; omega
    rw [hnil, List.append_nil] at hfib
    simp [List.filter_append, hnil, hg, ← hfib]
  · simp [List.filter_append, hg, ← hfib]

theorem Tracks.delete_found {pre post : List TxTracker} {t : TxTracker} (ht : Tracks e live)
    (hsplit : e.sorted = pre ++ t :: post) (hhash : t.hashStr = tx.hashStr) :
    Tracks ⟨e.list.erase tx.hashStr, pre ++ post⟩ (live.filter fun u => u.hashStr ≠ tx.hashStr) := by
  have hnodup := ht.valid.nodup
  rw [hsplit, List.map_append, List.map_cons, List.nodup_middle, List.nodup_cons,
    ← List.map_append] at hnodup
  have hother : ∀ u ∈ pre ++ post, u.hashStr ≠ tx.hashStr := fun u hu hh =>
    hnodup.1 (hhash ▸ hh ▸ List.mem_map_of_mem hu)
  -- taking out the hash leaves exactly the other trackers
  have hrest : (e.sorted.filter fun u => u.hashStr ≠ tx.hashStr) = pre ++ post := by
    rw [hsplit, List.filter_append, List.filter_cons_of_neg (by simp [hhash]),
      List.filter_eq_self.mpr fun u hu => by simpa using hother u (List.mem_append_left _ hu),
      List.filter_eq_self.mpr fun u hu => by simpa using hother u (List.mem_append_right _ hu)]
  refine ⟨hhash ▸ valid_erase_split ht.valid hsplit, fun g => ?_⟩
  show (pre ++ post).filter _ = _
  rw [← hrest, filter_filter_comm, ht.fibre g, filter_filter_comm]

/-- **One call keeps the list in step with the account.** -/
theorem Tracks.apply (ht : Tracks e live) (op : Op) :
    ∃ e' b, op.apply e = .ok (e', b) ∧ Tracks e' (insertionOrder live [op]) := by
  cases op with
  | add tx =>
    by_cases hnew : tx.hashStr ∈ e.list
    · refine ⟨e, false, add_of_mem hnew, ?_⟩
      rw [insertionOrder, if_pos ((ht.mem_iff _).mp hnew)]
      exact ht
    · refine ⟨_, true, add_of_notMem ht.valid hnew, ?_⟩
      rw [insertionOrder, if_neg (mt (ht.mem_iff _).mpr hnew)]
      exact ht.add_new hnew
  | delete tx =>
    cases hlookup : e.list.lookup tx.hashStr with
    | none =>
      refine ⟨e, false, delete_of_lookup_eq_none hlookup, ?_⟩
      have hnot : tx.hashStr ∉ live.map TxTracker.hashStr :=
        mt (ht.mem_iff _).mpr (AList.lookup_eq_none.mp hlookup)
      have hsame : (live.filter fun u => u.hashStr ≠ tx.hashStr) = live :=
        List.filter_eq_self.mpr fun u hu => by
          have : u.hashStr ≠ tx.hashStr := fun hh => hnot (hh ▸ List.mem_map_of_mem hu)
          simpa using this
      rw [insertionOrder, hsame]
      exact ht
    | some t =>
      have hhash : t.hashStr = tx.hashStr := ((ht.valid.lookup_iff _ _).mp hlookup).2
      obtain ⟨pre, post, hsplit, hdel⟩ := delete_of_lookup ht.valid hlookup
      refine ⟨_, true, hdel, ?_⟩
      rw [hhash]
      exact ht.delete_found hsplit hhash

/-- A sequence of calls never panics and keeps the list in step with the account. -/
theorem Tracks.run (ht : Tracks e live) :
    ∀ ops, ∃ e' bs, run e ops = .ok (e', bs) ∧ Tracks e' (insertionOrder live ops) := by
  intro ops
  induction ops generalizing e live with
  | nil => exact ⟨e, [], rfl, ht⟩
  | cons op ops ih =>
    obtain ⟨e₁, b, hop, ht₁⟩ := ht.apply op
    obtain ⟨e₂, bs, hrun, ht₂⟩ := ih ht₁
    refine ⟨e₂, b :: bs, ?_, ?_⟩
    · simp only [TxSortedList.run, hop, hrun, bind, Except.bind, pure, Except.pure]
    · cases op <;> exact ht₂

/-- **The representation invariant over every run.**  After any sequence of
`add` and `delete` calls on a new list: the map holds exactly the slice's
trackers under their hashes, which are distinct; the slice is sorted by gas
price, highest first, and holds the trackers added and not deleted since, those
of one gas price in the order they were added; and the next `add` and
`delete` do what `AddSpec` and `DeleteSpec` say. -/
theorem run_spec (ops : List Op) :
    ∃ e bs, run newTxSortedList ops = .ok (e, bs) ∧
      (∀ h t, e.list.lookup h = some t ↔ t ∈ e.sorted ∧ t.hashStr = h) ∧
      (e.sorted.map TxTracker.hashStr).Nodup ∧
      e.sorted.Pairwise (fun a b => b.gasPrice ≤ a.gasPrice) ∧
      (∀ g, e.sorted.filter (fun t => t.gasPrice = g) =
        (insertionOrder [] ops).filter fun t => t.gasPrice = g) ∧
      (∀ tx, ∃ e' b, e.add tx = .ok (e', b) ∧ AddSpec e tx e' b) ∧
      (∀ tx, ∃ e' b, e.delete tx = .ok (e', b) ∧ DeleteSpec e tx e' b) := by
  obtain ⟨e, bs, hrun, ht⟩ := tracks_newTxSortedList.run ops
  exact ⟨e, bs, hrun, ht.valid.lookup_iff, ht.valid.nodup, ht.valid.sorted, ht.fibre,
    add_addSpec ht.valid, delete_deleteSpec ht.valid⟩

end TxSortedList

end CdkValidium.Sequencer
