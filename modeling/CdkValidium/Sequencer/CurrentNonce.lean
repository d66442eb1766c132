import CdkValidium.Sequencer.WorkerInvariant

/-!
# Transactions at the current nonce

A queue is meant to hold at most one transaction per nonce, its ready one
(if any) at the sender's current nonce, and a ready transaction that stops
being covered by the balance is meant to move to the not-ready ones.  Two
paths of the code do otherwise:

* `addTxTracker_ready_beside_notReady`: `addTx` makes a covered transaction at
  the current nonce ready without looking at `notReadyTxs`, so a not-ready
  transaction already stored at that nonce stays there beside it.
* `moveTxToNotReady_loses_readyTx`: when the balance drops below the ready
  transaction's cost at an unchanged nonce, `updateCurrentNonceBalance` takes
  it out of `readyTx` and puts it back only for a nonce above the current
  one; `applyAddressUpdate` deletes it from the sorted list and
  `MoveTxToNotReady` returns only `txsToDelete`, which does not hold it.  The
  transaction is then in no structure of the worker and was handed to no
  caller.
-/

namespace CdkValidium.Sequencer

open AddrQueue

namespace Worker

variable {w : Worker} {q : AddrQueue}

/-! ### A covered transaction beside a not-ready one -/

theorem addTx_of_empty_readyTx {tx : TxTracker} (hnone : q.readyTx = none)
    (hnonce : tx.nonce = q.currentNonce) (hcost : tx.cost ≤ q.currentBalance) :
    q.addTx tx = ({ q with readyTx := some tx }, ⟨some tx, none, none, none⟩) := by
  rw [addTx, if_pos hnonce.symm, hnone]
  simp [hcost]

theorem addTxTracker_ready_beside_notReady {tx nrTx : TxTracker} (st : StateInterface)
    (hv : w.txSortedList.Valid) (hq : w.pool.lookup tx.fromStr = some q) (hnone : q.readyTx = none)
    (hnr : q.notReadyTxs.lookup q.currentNonce = some nrTx) (hnonce : tx.nonce = q.currentNonce)
    (hcost : tx.cost ≤ q.currentBalance) :
    ∃ w' r, w.addTxTracker st tx = .ok (w', r) ∧ ∃ q', w'.pool.lookup tx.fromStr = some q' ∧
      q'.readyTx = some tx ∧ q'.notReadyTxs.lookup q'.currentNonce = some nrTx := by
  obtain ⟨l', b, hadd, -, -, -⟩ := TxSortedList.add_spec hv tx
  have hl' : updateSortedList w.txSortedList none (some tx) = .ok l' := by
    simp [updateSortedList, TxSortedList.deleteIfSome, TxSortedList.addIfSome, hadd, pure,
      Except.pure, bind, Except.bind, Functor.map, Except.map]
  refine ⟨⟨w.pool.insert tx.fromStr { q with readyTx := some tx }, l'⟩, (none, none), ?_,
    { q with readyTx := some tx }, AList.lookup_insert _, rfl, hnr⟩
  simp only [Worker.addTxTracker, hq, Worker.addTxToAddrQueue,
    addTx_of_empty_readyTx hnone hnonce hcost, hl']
  rfl

/-- A run from `NewWorker`: the first transaction of a sender at its nonce is
not covered and waits in `notReadyTxs`; a second one at the same nonce is
covered and becomes ready beside it. -/
theorem addTxTracker_ready_beside_notReady_run :
    let st : StateInterface := ⟨.ok 0, fun _ _ => .ok 0, fun _ _ => .ok 10⟩
    let txA : TxTracker := ⟨1, 100, 7, 0, 1, 20, 0, 0⟩
    let txB : TxTracker := ⟨2, 200, 7, 0, 1, 5, 0, 0⟩
    let q : AddrQueue := ⟨7, 0, 10, none, (∅ : AList _).insert 0 txA, ∅, ∅⟩
    newWorker.addTxTracker st txA = .ok (⟨(∅ : AList _).insert 7 q, newTxSortedList⟩, none, none) ∧
      ∃ w' r, (Worker.mk ((∅ : AList _).insert 7 q) newTxSortedList).addTxTracker st txB =
        .ok (w', r) ∧ ∃ q', w'.pool.lookup 7 = some q' ∧
          q'.readyTx = some txB ∧ q'.notReadyTxs.lookup q'.currentNonce = some txA :=
  ⟨rfl, addTxTracker_ready_beside_notReady _ TxSortedList.valid_newTxSortedList
    (AList.lookup_insert _) rfl (AList.lookup_insert _) rfl (by decide)⟩

/-! ### A ready transaction that stops being covered -/

theorem updateCurrentNonceBalance_of_low_balance {heap : TxTrackerHeap} {t : TxTracker} {balance : Nat}
    (hready : q.readyTx = some t) (hnonce : t.nonce = q.currentNonce) (hbal : balance < t.cost)
    (hnr : q.notReadyTxs.lookup q.currentNonce = none) :
    q.updateCurrentNonceBalance heap (some q.currentNonce) (some balance) =
      ({ q with currentBalance := balance, readyTx := none }, heap, ⟨none, some t, []⟩) := by
  -- the balance phase, then the nonce phase, which sees no change of nonce
  have h₁ : ((q.setBalance (some balance)).advanceNonce heap (some q.currentNonce)) =
      ({ q with currentBalance := balance }, heap, []) := by
    simp [setBalance, advanceNonce]
  -- the ready transaction is no longer covered
  have h₂ : AddrQueue.dropReadyTx { q with currentBalance := balance } =
      ({ q with currentBalance := balance, readyTx := none }, some t) := by
    simp [dropReadyTx, hready, hbal]
  -- nothing to promote, and the old ready transaction is not above the current nonce
  have h₃ : AddrQueue.promoteReadyTx { q with currentBalance := balance, readyTx := none } =
      { q with currentBalance := balance, readyTx := none } := by
    simp [promoteReadyTx, hnr]
  have h₄ : AddrQueue.restoreReadyTx { q with currentBalance := balance, readyTx := none } (some t) =
      { q with currentBalance := balance, readyTx := none } := by
    simp [restoreReadyTx, hnonce]
  simp only [updateCurrentNonceBalance, h₁, h₂, h₃, h₄]

theorem moveTxToNotReady_loses_readyTx {heap : TxTrackerHeap} {t : TxTracker} {balance : Nat}
    (hv : w.txSortedList.Valid) (hq : w.pool.lookup t.fromStr = some q) (hready : q.readyTx = some t)
    (hnonce : t.nonce = q.currentNonce) (hbal : balance < t.cost)
    (hnr : q.notReadyTxs.lookup q.currentNonce = none) (hnotin : t ∉ q.notReadyList) :
    ∃ w' heap' txsToDelete,
      w.moveTxToNotReady heap t.hashStr t.fromStr (some q.currentNonce) (some balance) =
        .ok (w', heap', txsToDelete) ∧
      txsToDelete = [] ∧ (∀ q', w'.pool.lookup t.fromStr = some q' → ¬ q'.holds t) ∧
      t ∉ w'.txSortedList.sorted := by
  obtain ⟨l', hl', -, hmem⟩ := updateSortedList_spec hv (some t) none
  refine ⟨⟨w.pool.insert t.fromStr { q with currentBalance := balance, readyTx := none }, l'⟩,
    heap, [], ?_, rfl, fun q' hq' => ?_, fun ht => ?_⟩
  · simp only [Worker.moveTxToNotReady, Worker.applyAddressUpdate, hq,
      updateCurrentNonceBalance_of_low_balance hready hnonce hbal hnr, hl']
    rfl
  · -- the queue keeps its not-ready transactions and has no ready one
    rw [AList.lookup_insert, Option.some.injEq] at hq'
    subst hq'
    rintro (h | h)
    · exact absurd h (by simp)
    · exact hnotin h
  · -- the sorted list lost every tracker of `t`'s hash
    rcases hmem t ht with ⟨-, hne⟩ | hnew
    · exact hne t rfl rfl
    · exact absurd hnew (by simp)

/-- A run from `NewWorker`: a transaction is covered and ready; after a failed
execution the balance is below its cost at the same nonce, and
`MoveTxToNotReady` leaves it nowhere and returns nothing. -/
theorem moveTxToNotReady_loses_readyTx_run :
    let st : StateInterface := ⟨.ok 0, fun _ _ => .ok 0, fun _ _ => .ok 10⟩
    let t : TxTracker := ⟨3, 300, 7, 0, 1, 10, 0, 0⟩
    let q : AddrQueue := ⟨7, 0, 10, some t, ∅, ∅, ∅⟩
    let heap : TxTrackerHeap := ⟨fun _ => ⟨0, 0, 0, 0, 0, 0, 0, 0⟩, fun _ => none⟩
    newWorker.addTxTracker st t =
        .ok (⟨(∅ : AList _).insert 7 q, ⟨(∅ : AList _).insert 300 t, [t]⟩⟩, none, none) ∧
      ∃ w' heap' txsToDelete,
        (Worker.mk ((∅ : AList _).insert 7 q) ⟨(∅ : AList _).insert 300 t, [t]⟩).moveTxToNotReady
          heap t.hashStr t.fromStr (some q.currentNonce) (some 5) = .ok (w', heap', txsToDelete) ∧
        txsToDelete = [] ∧ (∀ q', w'.pool.lookup t.fromStr = some q' → ¬ q'.holds t) ∧
        t ∉ w'.txSortedList.sorted := by
  intro st t q heap
  have hrun : newWorker.addTxTracker st t =
      .ok (⟨(∅ : AList _).insert 7 q, ⟨(∅ : AList _).insert 300 t, [t]⟩⟩, none, none) := rfl
  -- the sorted list of a worker reached from `NewWorker` is valid
  obtain ⟨w₁, r, hw₁, hinv⟩ := Inv.addTxTracker inv_newWorker st t
  rw [hrun, Except.ok.injEq, Prod.mk.injEq] at hw₁
  rw [← hw₁.1] at hinv
  exact ⟨hrun, moveTxToNotReady_loses_readyTx hinv.sorted_valid (AList.lookup_insert _) rfl rfl
    (by decide) rfl (by simp [q, notReadyList])⟩

end Worker

end CdkValidium.Sequencer
