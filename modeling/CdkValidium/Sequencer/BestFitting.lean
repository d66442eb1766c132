import CdkValidium.Sequencer.Finalizer

/-!
# The parallel search for the best fitting transaction

`Worker.GetBestFittingTx` (`sequencer/worker.go`) looks for the first tracker
of the sorted list whose resources fit the batch's.  It starts `NumCPU`
goroutines; goroutine `n` tries the indices `n, n + N, n + 2N, ...` with
`Sub` on its own copy of the resources, and gives up early once another
goroutine has published a smaller index in `foundAt`.  The first fit it finds
it publishes under the lock, unless a smaller index is already there.

Goroutine steps are interleaved freely (`Search.Step`).  Each step touches the
shared `foundAt` once: the read under the read lock, with the local `Sub`
after it, or the update under the lock.

* `BatchResources.subInPlace_eq`: `Sub` restores the bytes when the counters
  fail, so a failed `Sub` leaves its receiver as it was, and a goroutine's
  copy stays the batch's resources until it succeeds.
* `Search.Inv.step`, `Search.inv_of_reachable`: the invariant of every
  interleaving: `foundAt` is `-1` or a fitting index, and a goroutine that has
  returned has either found nothing in its indices or seen `foundAt` at or
  below all of them.
* `Search.measure_step_lt`: every step lowers a measure, so no interleaving
  runs forever.
-/

namespace CdkValidium.Sequencer

/-! ### Subtraction in place -/

/-- `ZKCounters.Sub` on its receiver: the counters after the call, and the
error.  Every check returns before the first subtraction. -/
def ZKCounters.subInPlace (z other : ZKCounters) : ZKCounters × Option String :=
  match z.sub other with
  | .error err => (z, some err)
  | .ok z' => (z', none)

/-- `BatchResources.Sub` on its receiver: the bytes are taken off first and put
back from `bytesBackup` when the counters fail. -/
def BatchResources.subInPlace (r other : BatchResources) :
    BatchResources × Option BatchRemainingResourcesUnderflowError :=
  if other.bytes > r.bytes then (r, some errBatchResourceBytesUnderflow)
  else
    let bytesBackup := r.bytes
    let r := { r with bytes := r.bytes - other.bytes }
    let (zkCounters, err) := r.zkCounters.subInPlace other.zkCounters
    let r := { r with zkCounters := zkCounters }
    match err with
    | some err => ({ r with bytes := bytesBackup }, some (newBatchRemainingResourcesUnderflowError (some err) err))
    | none => (r, none)

/-- The resources `other` fit in `r`: its bytes and each of its eight counters
are at most `r`'s. -/
def BatchResources.fitsIn (other r : BatchResources) : Bool :=
  decide (other.bytes ≤ r.bytes) &&
    decide (other.zkCounters.cumulativeGasUsed ≤ r.zkCounters.cumulativeGasUsed) &&
    decide (other.zkCounters.usedKeccakHashes ≤ r.zkCounters.usedKeccakHashes) &&
    decide (other.zkCounters.usedPoseidonHashes ≤ r.zkCounters.usedPoseidonHashes) &&
    decide (other.zkCounters.usedPoseidonPaddings ≤ r.zkCounters.usedPoseidonPaddings) &&
    decide (other.zkCounters.usedMemAligns ≤ r.zkCounters.usedMemAligns) &&
    decide (other.zkCounters.usedArithmetics ≤ r.zkCounters.usedArithmetics) &&
    decide (other.zkCounters.usedBinaries ≤ r.zkCounters.usedBinaries) &&
    decide (other.zkCounters.usedSteps ≤ r.zkCounters.usedSteps)

theorem ZKCounters.sub_isOk {z other : ZKCounters} :
    (∃ z', z.sub other = .ok z') ↔
      other.cumulativeGasUsed ≤ z.cumulativeGasUsed ∧ other.usedKeccakHashes ≤ z.usedKeccakHashes ∧
      other.usedPoseidonHashes ≤ z.usedPoseidonHashes ∧
      other.usedPoseidonPaddings ≤ z.usedPoseidonPaddings ∧ other.usedMemAligns ≤ z.usedMemAligns ∧
      other.usedArithmetics ≤ z.usedArithmetics ∧ other.usedBinaries ≤ z.usedBinaries ∧
      other.usedSteps ≤ z.usedSteps := by
  simp only [sub, bind, Except.bind, check, pure, Except.pure]
  split_ifs <;> simp_all

theorem BatchResources.sub_isOk {r other : BatchResources} :
    (∃ r', r.sub other = .ok r') ↔ other.fitsIn r = true := by
  unfold sub fitsIn
  split
  · simp_all
  · rename_i hle
    cases hz : r.zkCounters.sub other.zkCounters with
    | error err =>
      have hnot : ¬ ∃ z', r.zkCounters.sub other.zkCounters = .ok z' := by simp [hz]
      rw [ZKCounters.sub_isOk] at hnot
      simp_all
    | ok z =>
      have hfit := ZKCounters.sub_isOk.mp ⟨z, hz⟩
      simp_all

theorem BatchResources.subInPlace_eq (r other : BatchResources) :
    r.subInPlace other = match r.sub other with
      | .ok r' => (r', none)
      | .error err => (r, some err) := by
  unfold subInPlace sub
  split
  · rfl
  · simp only [ZKCounters.subInPlace]
    cases r.zkCounters.sub other.zkCounters with
    | error err => rfl
    | ok z => rfl

theorem BatchResources.subInPlace_of_error {r other r' : BatchResources}
    {err : BatchRemainingResourcesUnderflowError} (h : r.subInPlace other = (r', some err)) :
    r' = r ∧ other.fitsIn r = false := by
  rw [subInPlace_eq] at h
  cases hsub : r.sub other with
  | error e =>
    rw [hsub] at h
    refine ⟨(Prod.mk.inj h).1.symm, ?_⟩
    have hnot : ¬ ∃ r'', r.sub other = .ok r'' := by simp [hsub]
    rw [sub_isOk] at hnot
    simpa using hnot
  | ok r'' =>
    rw [hsub] at h
    cases h

theorem BatchResources.subInPlace_of_ok {r other r' : BatchResources}
    (h : r.subInPlace other = (r', none)) : other.fitsIn r = true := by
  rw [subInPlace_eq] at h
  cases hsub : r.sub other with
  | error e =>
    rw [hsub] at h
    cases h
  | ok r'' => exact sub_isOk.mp ⟨r'', hsub⟩

/-! ### The search -/

/-- `tx.BatchResources`: the counters written through the pointer, and the
size. -/
def TxTracker.batchResources (heap : TxTrackerHeap) (tx : TxTracker) : BatchResources :=
  ⟨heap.zkCounters tx.id, tx.bytes.toUInt64⟩

/-- Where a search goroutine is: at the loop test for index `i` with its copy
`bresources` of the resources, holding the candidate at `i` that fitted, or
returned. -/
inductive Routine
  | loop (i : Nat) (bresources : BatchResources)
  | found (i : Nat) (txCandidate : TxTracker)
  | done
  deriving DecidableEq

/-- The shared variables of `GetBestFittingTx` and its goroutines, goroutine
`n` at position `n`. -/
structure Search where
  foundAt : Int
  tx : Option TxTracker
  routines : List Routine
  deriving DecidableEq

namespace Search

/-- Before the goroutines run: `foundAt := -1`, and goroutine `n` at index `n`
with its copy of `resources`. -/
def init (nGoRoutines : Nat) (resources : BatchResources) : Search :=
  ⟨-1, none, (List.range nGoRoutines).map fun n => .loop n resources⟩

/-- Goroutine `n` moves to `r`. -/
def setRoutine (s : Search) (n : Nat) (r : Routine) : Search :=
  { s with routines := s.routines.set n r }

variable (e : TxSortedList) (heap : TxTrackerHeap) (nGoRoutines : Nat)

/-- One step of goroutine `n`.  At the loop test it reads `foundAt` under the
read lock and, unless it returns, runs `Sub` on its own copy; with a fitting
candidate it publishes it under the lock if no smaller index is there. -/
def step (s : Search) (n : Nat) : Search :=
  match s.routines[n]? with
  | some (.loop i bresources) =>
    if h : i < e.sorted.length then
      if s.foundAt ≠ -1 ∧ (i : Int) > s.foundAt then s.setRoutine n .done
      else
        let txCandidate := e.sorted[i]
        match bresources.subInPlace (txCandidate.batchResources heap) with
        | (bresources, some _) => s.setRoutine n (.loop (i + nGoRoutines) bresources)
        | (_, none) => s.setRoutine n (.found i txCandidate)
    else s.setRoutine n .done
  | some (.found i txCandidate) =>
    if s.foundAt = -1 ∨ s.foundAt > i then { s.setRoutine n .done with foundAt := i, tx := some txCandidate }
    else s.setRoutine n .done
  | _ => s

/-- Some goroutine that has not returned takes a step. -/
def Step (s s' : Search) : Prop :=
  ∃ n r, s.routines[n]? = some r ∧ r ≠ .done ∧ s' = step e heap nGoRoutines s n

/-- What `GetBestFittingTx` returns once every goroutine has returned. -/
def result (s : Search) : Option TxTracker := s.tx

end Search

/-! ### The invariant of every interleaving -/

/-- The tracker at index `j` fits in `resources`. -/
def FitsAt (e : TxSortedList) (heap : TxTrackerHeap) (resources : BatchResources) (j : Nat) : Prop :=
  ∃ t, e.sorted[j]? = some t ∧ (t.batchResources heap).fitsIn resources = true

/-- What goroutine `n`'s position says about its indices, those equal to `n`
modulo `nGoRoutines`: below its index none fits, its copy is still
`resources`, and once it has returned every fitting index of its own is at or
above `foundAt`. -/
def Routine.Inv (e : TxSortedList) (heap : TxTrackerHeap) (nGoRoutines : Nat)
    (resources : BatchResources) (n : Nat) (foundAt : Int) : Routine → Prop
  | .loop i bresources => bresources = resources ∧ i % nGoRoutines = n ∧
      ∀ j < i, j % nGoRoutines = n → ¬ FitsAt e heap resources j
  | .found i txCandidate => i % nGoRoutines = n ∧ e.sorted[i]? = some txCandidate ∧
      (txCandidate.batchResources heap).fitsIn resources = true ∧
      ∀ j < i, j % nGoRoutines = n → ¬ FitsAt e heap resources j
  | .done => ∀ j, j % nGoRoutines = n → FitsAt e heap resources j → foundAt ≠ -1 ∧ foundAt ≤ j

/-- The invariant: one goroutine per position, `foundAt` is `-1` with no
transaction or a fitting index with its tracker, and each goroutine's
position invariant. -/
structure Search.Inv (e : TxSortedList) (heap : TxTrackerHeap) (nGoRoutines : Nat)
    (resources : BatchResources) (s : Search) : Prop where
  length : s.routines.length = nGoRoutines
  found : s.foundAt = -1 ∧ s.tx = none ∨
    ∃ (j : Nat) (t : TxTracker), s.foundAt = j ∧ e.sorted[j]? = some t ∧ (t.batchResources heap).fitsIn resources = true ∧
      s.tx = some t
  routine : ∀ n (r : Routine), s.routines[n]? = some r → r.Inv e heap nGoRoutines resources n s.foundAt

section Invariant

variable {e : TxSortedList} {heap : TxTrackerHeap} {nGoRoutines : Nat} {resources : BatchResources}
  {s : Search}

theorem Routine.Inv.mono {n : Nat} {foundAt foundAt' : Int} {r : Routine}
    (hr : r.Inv e heap nGoRoutines resources n foundAt) (h : foundAt ≠ -1 → foundAt' ≠ -1 ∧ foundAt' ≤ foundAt) :
    r.Inv e heap nGoRoutines resources n foundAt' := by
  cases r with
  | loop i bresources => exact hr
  | found i txCandidate => exact hr
  | done =>
    intro j hj hfit
    obtain ⟨hne, hle⟩ := hr j hj hfit
    obtain ⟨hne', hle'⟩ := h hne
    exact ⟨hne', hle'.trans hle⟩

theorem Search.Inv.update (hs : s.Inv e heap nGoRoutines resources) {n : Nat} {r : Routine}
    {foundAt' : Int} {tx' : Option TxTracker}
    (hfound : foundAt' = -1 ∧ tx' = none ∨ ∃ (j : Nat) (t : TxTracker), foundAt' = j ∧ e.sorted[j]? = some t ∧
      (t.batchResources heap).fitsIn resources = true ∧ tx' = some t)
    (hmono : s.foundAt ≠ -1 → foundAt' ≠ -1 ∧ foundAt' ≤ s.foundAt)
    (hr : r.Inv e heap nGoRoutines resources n foundAt') :
    { s.setRoutine n r with foundAt := foundAt', tx := tx' }.Inv e heap nGoRoutines resources := by
  refine ⟨by simp [Search.setRoutine, hs.length], hfound, fun m r' hm => ?_⟩
  simp only [Search.setRoutine, List.getElem?_set] at hm
  split_ifs at hm with hmn
  · subst hmn
    obtain ⟨-, rfl⟩ := Option.some.inj hm
    exact hr
  · exact (hs.routine m r' hm).mono hmono

theorem Search.Inv.setRoutine (hs : s.Inv e heap nGoRoutines resources) {n : Nat} {r : Routine}
    (hr : r.Inv e heap nGoRoutines resources n s.foundAt) :
    (s.setRoutine n r).Inv e heap nGoRoutines resources :=
  hs.update hs.found (fun hne => ⟨hne, le_rfl⟩) hr

theorem Search.inv_init :
    (Search.init nGoRoutines resources).Inv e heap nGoRoutines resources := by
  refine ⟨by simp [Search.init], .inl ⟨rfl, rfl⟩, fun n r h => ?_⟩
  simp only [Search.init, List.getElem?_map, Option.map_eq_some_iff] at h
  obtain ⟨m, hm, rfl⟩ := h
  obtain ⟨hn, hnm⟩ := List.getElem?_eq_some_iff.mp hm
  simp only [List.length_range, List.getElem_range] at hn hnm
  subst hnm
  refine ⟨rfl, Nat.mod_eq_of_lt hn, fun j hj hjn => ?_⟩
  rw [Nat.mod_eq_of_lt (by omega)] at hjn
  omega

theorem eq_of_mod_eq_of_lt_add {i j m : Nat} (hmod : j % m = i % m) (hle : i ≤ j) (hlt : j < i + m) :
    j = i := by
  have hzero : (j - i) % m = 0 := Nat.sub_mod_eq_zero_of_mod_eq hmod
  rw [Nat.mod_eq_of_lt (by omega)] at hzero
  omega

/-- One step of any goroutine keeps the invariant. -/
theorem Search.Inv.step (hs : s.Inv e heap nGoRoutines resources) {n : Nat} {r : Routine}
    (h : s.routines[n]? = some r) : (Search.step e heap nGoRoutines s n).Inv e heap nGoRoutines resources := by
  have hinv := hs.routine n r h
  cases r with
  | loop i bresources =>
    obtain ⟨rfl, hmod, hclear⟩ := hinv
    simp only [Search.step, h]
    split
    case isTrue hi =>
      split
      case isTrue hexit =>
        refine hs.setRoutine fun j hj hfit => ⟨hexit.1, ?_⟩
        have hij : i ≤ j := Nat.le_of_not_lt fun hlt => hclear j hlt hj hfit
        omega
      case isFalse hcont =>
        split
        case _ bresources' err heq =>
          obtain ⟨rfl, hnofit⟩ := BatchResources.subInPlace_of_error heq
          refine hs.setRoutine ⟨rfl, by rw [Nat.add_mod_right]; exact hmod, fun j hj hjn hfit => ?_⟩
          by_cases hji : j < i
          · exact hclear j hji hjn hfit
          · obtain rfl : j = i := eq_of_mod_eq_of_lt_add (hjn.trans hmod.symm) (by omega) hj
            obtain ⟨t, ht, hfit⟩ := hfit
            rw [List.getElem?_eq_getElem hi, Option.some.injEq] at ht
            rw [← ht, hnofit] at hfit
            cases hfit
        case _ bresources' heq =>
          exact hs.setRoutine ⟨hmod, List.getElem?_eq_getElem hi, BatchResources.subInPlace_of_ok heq, hclear⟩
    case isFalse hi =>
      refine hs.setRoutine fun j hj hfit => absurd hfit (hclear j ?_ hj)
      obtain ⟨t, ht, -⟩ := hfit
      have := (List.getElem?_eq_some_iff.mp ht).1
      omega
  | found i txCandidate =>
    obtain ⟨hmod, hat, hfit, hclear⟩ := hinv
    have hfirst : ∀ j, j % nGoRoutines = n → FitsAt e heap resources j → i ≤ j :=
      fun j hj hfitj => Nat.le_of_not_lt fun hlt => hclear j hlt hj hfitj
    simp only [Search.step, h]
    split
    case isTrue hupd =>
      refine hs.update (.inr ⟨i, txCandidate, rfl, hat, hfit, rfl⟩) (fun hne => ⟨by omega, by omega⟩)
        fun j hj hfitj => ⟨by omega, by have := hfirst j hj hfitj; omega⟩
    case isFalse hkeep =>
      refine hs.setRoutine fun j hj hfitj => ⟨by omega, by have := hfirst j hj hfitj; omega⟩
  | done =>
    simp only [Search.step, h]
    exact hs

/-- The run lemma: every state of every interleaving has the invariant. -/
theorem Search.inv_of_reachable {s : Search}
    (h : Relation.ReflTransGen (Search.Step e heap nGoRoutines) (Search.init nGoRoutines resources) s) :
    s.Inv e heap nGoRoutines resources := by
  induction h with
  | refl => exact Search.inv_init
  | tail _ hstep ih =>
    obtain ⟨n, r, hr, -, rfl⟩ := hstep
    exact ih.step hr

/-- Once every goroutine has returned, `tx` is the first fitting tracker of
the sorted list, or `nil` when none fits. -/
theorem Search.Inv.result_eq (hN : 0 < nGoRoutines) (hs : s.Inv e heap nGoRoutines resources)
    (hdone : ∀ r ∈ s.routines, r = .done) :
    s.result = e.sorted.find? fun t => (t.batchResources heap).fitsIn resources := by
  rw [List.find?_eq_bind_findIdx?_getElem?]
  cases hidx : e.sorted.findIdx? (fun t => (t.batchResources heap).fitsIn resources) with
  | none =>
    rw [List.findIdx?_eq_none_iff] at hidx
    rcases hs.found with ⟨-, htx⟩ | ⟨j, t, -, hj, hfit, -⟩
    · simpa [Search.result] using htx
    · exact absurd hfit (by simpa using hidx t (List.mem_of_getElem? hj))
  | some i =>
    obtain ⟨hi, hfit, hleast⟩ := List.findIdx?_eq_some_iff_getElem.mp hidx
    have hn : i % nGoRoutines < s.routines.length := by
      rw [hs.length]
      exact Nat.mod_lt _ hN
    have hdone_i := hs.routine (i % nGoRoutines) .done
      (by rw [List.getElem?_eq_getElem hn, hdone _ (List.getElem_mem hn)])
    obtain ⟨hne, hle⟩ := hdone_i i rfl ⟨_, List.getElem?_eq_getElem hi, hfit⟩
    rcases hs.found with ⟨hm, -⟩ | ⟨j, t, hj, hjt, hfitj, htx⟩
    · exact absurd hm hne
    · have hij : ¬ j < i := by
        intro hlt
        obtain ⟨hjl, hget⟩ := List.getElem?_eq_some_iff.mp hjt
        exact hleast j hlt (by simpa [hget] using hfitj)
      obtain rfl : j = i := by omega
      simp [Search.result, htx, hjt]

end Invariant

/-! ### Every interleaving ends -/

/-- What a goroutine has left to do: two steps per index still to try, one to
publish, none once returned. -/
def Routine.measure (len : Nat) : Routine → Nat
  | .loop i _ => 2 * (len - i) + 2
  | .found _ _ => 1
  | .done => 0

def Search.measure (len : Nat) (s : Search) : Nat := (s.routines.map (Routine.measure len)).sum

theorem sum_map_set_lt {α : Type} {f : α → Nat} :
    ∀ {l : List α} {n : Nat} {a b : α}, l[n]? = some a → f b < f a → ((l.set n b).map f).sum < (l.map f).sum
  | x :: l, 0, a, b, h, hlt => by
    obtain rfl := Option.some.inj h
    simp only [List.set_cons_zero, List.map_cons, List.sum_cons]
    omega
  | x :: l, n + 1, a, b, h, hlt => by
    simp only [List.set_cons_succ, List.map_cons, List.sum_cons]
    have := sum_map_set_lt (l := l) (f := f) h hlt
    omega

section Measure

variable {e : TxSortedList} {heap : TxTrackerHeap} {nGoRoutines : Nat}

/-- Every step of every goroutine lowers the measure. -/
theorem Search.measure_step_lt (hN : 0 < nGoRoutines) {s s' : Search}
    (h : Search.Step e heap nGoRoutines s s') : s'.measure e.sorted.length < s.measure e.sorted.length := by
  obtain ⟨n, r, hr, hne, rfl⟩ := h
  cases r with
  | loop i bresources =>
    simp only [Search.step, hr]
    split
    case isTrue hi =>
      split
      · exact sum_map_set_lt hr (by simp [Routine.measure])
      · split
        · exact sum_map_set_lt hr (by simp only [Routine.measure]; omega)
        · exact sum_map_set_lt hr (by simp [Routine.measure])
    case isFalse hi => exact sum_map_set_lt hr (by simp [Routine.measure])
  | found i txCandidate =>
    simp only [Search.step, hr]
    split
    · exact sum_map_set_lt hr (by simp [Routine.measure])
    · exact sum_map_set_lt hr (by simp [Routine.measure])
  | done => exact absurd rfl hne

theorem Search.done_of_not_step {s : Search} (h : ¬ ∃ s', Search.Step e heap nGoRoutines s s') :
    ∀ r ∈ s.routines, r = .done := by
  intro r hr
  by_contra hne
  obtain ⟨n, hn, rfl⟩ := List.getElem_of_mem hr
  exact h ⟨_, n, _, List.getElem?_eq_getElem hn, hne, rfl⟩

end Measure

/-- **`GetBestFittingTx` is a first-fit scan.**  With at least one goroutine,
every step of every interleaving lowers a measure, so every interleaving
ends; where it ends every goroutine has returned, and the returned tracker is
the first of the sorted list whose bytes and eight counters fit the
resources, or `nil` when there is none. -/
theorem getBestFittingTx_firstFit {nGoRoutines : Nat} (hN : 0 < nGoRoutines) (e : TxSortedList)
    (heap : TxTrackerHeap) (resources : BatchResources) :
    (∀ s s', Search.Step e heap nGoRoutines s s' → s'.measure e.sorted.length < s.measure e.sorted.length) ∧
    ∀ s, Relation.ReflTransGen (Search.Step e heap nGoRoutines) (Search.init nGoRoutines resources) s →
      (¬ ∃ s', Search.Step e heap nGoRoutines s s') →
      (∀ r ∈ s.routines, r = .done) ∧
        s.result = e.sorted.find? fun t => (t.batchResources heap).fitsIn resources := by
  refine ⟨fun s s' h => Search.measure_step_lt hN h, fun s hreach hstuck => ?_⟩
  have hdone := Search.done_of_not_step hstuck
  exact ⟨hdone, (Search.inv_of_reachable hreach).result_eq hN hdone⟩


theorem getBestFittingTx_firstFit_four_cpus :
    (∀ s s', Search.Step newTxSortedList ⟨fun _ => ⟨0, 0, 0, 0, 0, 0, 0, 0⟩, fun _ => none⟩ 4 s s' →
      s'.measure newTxSortedList.sorted.length < s.measure newTxSortedList.sorted.length) ∧
    ∀ s, Relation.ReflTransGen (Search.Step newTxSortedList ⟨fun _ => ⟨0, 0, 0, 0, 0, 0, 0, 0⟩, fun _ => none⟩ 4)
        (Search.init 4 ⟨⟨0, 0, 0, 0, 0, 0, 0, 0⟩, 0⟩) s →
      (¬ ∃ s', Search.Step newTxSortedList ⟨fun _ => ⟨0, 0, 0, 0, 0, 0, 0, 0⟩, fun _ => none⟩ 4 s s') →
      (∀ r ∈ s.routines, r = .done) ∧
        s.result = newTxSortedList.sorted.find? fun t =>
          (t.batchResources ⟨fun _ => ⟨0, 0, 0, 0, 0, 0, 0, 0⟩, fun _ => none⟩).fitsIn ⟨⟨0, 0, 0, 0, 0, 0, 0, 0⟩, 0⟩ :=
  getBestFittingTx_firstFit (by decide) newTxSortedList ⟨fun _ => ⟨0, 0, 0, 0, 0, 0, 0, 0⟩, fun _ => none⟩
    ⟨⟨0, 0, 0, 0, 0, 0, 0, 0⟩, 0⟩

end CdkValidium.Sequencer
