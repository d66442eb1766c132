import CdkValidium.Sequencer.Worker

/-!
# The worker's invariant

`Worker.Inv` is what keeps the worker's two structures working together: the
sorted list is valid (so its searches never panic), every queue is stored
under its sender and holds only that sender's transactions, and every tracker
of the sorted list is the ready transaction of its sender's queue.

Every method keeps it and never panics from a state that has it
(`Worker.call_inv`), so it holds in every state a run of the methods reaches
from `NewWorker` (`Worker.inv_of_reachable`).  The proofs go through one lemma,
`Inv.insert_queue`: a queue written back after a change that `ReadyUpdate`
describes, followed by `updateSortedList` with the transactions the queue
handed back, keeps the invariant.
-/

namespace CdkValidium.Sequencer

open AddrQueue

/-! ### The sorted-list update -/

section SortedList

variable {l : TxSortedList}

theorem TxSortedList.deleteIfSome_spec (hv : l.Valid) (prev : Option TxTracker) :
    ∃ l', l.deleteIfSome prev = .ok l' ∧ l'.Valid ∧
      ∀ u ∈ l'.sorted, u ∈ l.sorted ∧ ∀ p, prev = some p → u.hashStr ≠ p.hashStr := by
  cases prev with
  | none => exact ⟨l, rfl, hv, fun u hu => ⟨hu, fun p hp => absurd hp (by simp)⟩⟩
  | some p =>
    obtain ⟨l', b, hdel, hv', -, hmem⟩ := TxSortedList.delete_spec hv p
    refine ⟨l', by simp [TxSortedList.deleteIfSome, hdel, Functor.map, Except.map], hv', fun u hu => ?_⟩
    obtain ⟨hu, hne⟩ := (hmem u).mp hu
    exact ⟨hu, fun p' hp' => Option.some.inj hp' ▸ hne⟩

theorem TxSortedList.addIfSome_spec (hv : l.Valid) (new : Option TxTracker) :
    ∃ l', l.addIfSome new = .ok l' ∧ l'.Valid ∧ ∀ u ∈ l'.sorted, u ∈ l.sorted ∨ new = some u := by
  cases new with
  | none => exact ⟨l, rfl, hv, fun u hu => Or.inl hu⟩
  | some n =>
    obtain ⟨l', b, hadd, hv', -, hmem⟩ := TxSortedList.add_spec hv n
    refine ⟨l', by simp [TxSortedList.addIfSome, hadd, Functor.map, Except.map], hv', fun u hu => ?_⟩
    rcases (hmem u).mp hu with hu | ⟨rfl, -⟩
    · exact Or.inl hu
    · exact Or.inr rfl

/-- `updateSortedList` on a valid list never panics and keeps it valid; what
is left of the old trackers differs in hash from `prev`, and the only
newcomer is `new`. -/
theorem updateSortedList_spec (hv : l.Valid) (prev new : Option TxTracker) :
    ∃ l', updateSortedList l prev new = .ok l' ∧ l'.Valid ∧
      ∀ u ∈ l'.sorted, (u ∈ l.sorted ∧ ∀ p, prev = some p → u.hashStr ≠ p.hashStr) ∨
        new = some u := by
  obtain ⟨l₁, hl₁, hv₁, hmem₁⟩ := TxSortedList.deleteIfSome_spec hv prev
  obtain ⟨l₂, hl₂, hv₂, hmem₂⟩ := TxSortedList.addIfSome_spec hv₁ new
  refine ⟨l₂, by rw [updateSortedList, hl₁]; exact hl₂, hv₂, fun u hu => ?_⟩
  rcases hmem₂ u hu with hu | hu
  · exact Or.inl (hmem₁ u hu)
  · exact Or.inr hu

theorem updateSortedList_none_none : updateSortedList l none none = .ok l := rfl

end SortedList

/-! ### The invariant -/

namespace Worker

structure Inv (w : Worker) : Prop where
  sorted_valid : w.txSortedList.Valid
  pool_key : ∀ k q, w.pool.lookup k = some q → q.fromStr = k
  from_sender : ∀ k q, w.pool.lookup k = some q → q.FromSender
  /-- Every tracker in the sorted list is the ready transaction of the queue
  that the pool holds for its sender. -/
  coupled : ∀ t ∈ w.txSortedList.sorted, ∃ q, w.pool.lookup t.fromStr = some q ∧ q.readyTx = some t

theorem inv_newWorker : newWorker.Inv where
  sorted_valid := TxSortedList.valid_newTxSortedList
  pool_key k q h := absurd h (by simp [newWorker, AList.lookup_empty])
  from_sender k q h := absurd h (by simp [newWorker, AList.lookup_empty])
  coupled t ht := absurd ht (by simp [newWorker, newTxSortedList])

variable {w : Worker}

theorem Inv.insert_queue (hinv : w.Inv) {k : Nat} {q q' : AddrQueue} {prev new : Option TxTracker}
    (hq : w.pool.lookup k = some q) (hfrom : q'.fromStr = q.fromStr) (hsender : q'.FromSender)
    (hready : ReadyUpdate q q' prev new) :
    ∃ l', updateSortedList w.txSortedList prev new = .ok l' ∧
      Inv ⟨w.pool.insert k q', l'⟩ := by
  have hk : q.fromStr = k := hinv.pool_key k q hq
  obtain ⟨l', hl', hv', hmem⟩ := updateSortedList_spec hinv.sorted_valid prev new
  refine ⟨l', hl', ⟨hv', fun k' q'' h => ?_, fun k' q'' h => ?_, fun t ht => ?_⟩⟩
  · by_cases hk' : k' = k
    · subst hk'
      rw [AList.lookup_insert, Option.some.injEq] at h
      rw [← h, hfrom, hk]
    · rw [AList.lookup_insert_ne hk'] at h
      exact hinv.pool_key k' q'' h
  · by_cases hk' : k' = k
    · subst hk'
      rw [AList.lookup_insert, Option.some.injEq] at h
      exact h ▸ hsender
    · rw [AList.lookup_insert_ne hk'] at h
      exact hinv.from_sender k' q'' h
  · -- a tracker of the new list is an old one that survived `prev`, or `new`
    rcases hmem t ht with ⟨ht, hne⟩ | hnew
    · obtain ⟨q₀, hq₀, hr₀⟩ := hinv.coupled t ht
      by_cases htk : t.fromStr = k
      · rw [htk, hq, Option.some.injEq] at hq₀
        subst hq₀
        rcases hready.old_ready t hr₀ with hprev | hkeep
        · exact absurd rfl (hne t hprev)
        · exact ⟨q', by rw [htk, AList.lookup_insert], hkeep⟩
      · exact ⟨q₀, by rw [AList.lookup_insert_ne htk, hq₀], hr₀⟩
    · have hready' := hready.new_ready t hnew
      have htk : t.fromStr = k := by rw [hsender t (Or.inl hready'), hfrom, hk]
      exact ⟨q', by rw [htk, AList.lookup_insert], hready'⟩

theorem Inv.insert_new (hinv : w.Inv) {k nonce balance : Nat} (hnone : w.pool.lookup k = none) :
    Inv ⟨w.pool.insert k (newAddrQueue k nonce balance), w.txSortedList⟩ := by
  refine ⟨hinv.sorted_valid, fun k' q h => ?_, fun k' q h => ?_, fun t ht => ?_⟩
  · by_cases hk' : k' = k
    · subst hk'
      rw [AList.lookup_insert, Option.some.injEq] at h
      rw [← h]
      rfl
    · rw [AList.lookup_insert_ne hk'] at h
      exact hinv.pool_key k' q h
  · by_cases hk' : k' = k
    · subst hk'
      rw [AList.lookup_insert, Option.some.injEq] at h
      exact h ▸ fromSender_newAddrQueue _ _ _
    · rw [AList.lookup_insert_ne hk'] at h
      exact hinv.from_sender k' q h
  · -- no tracker of the sorted list is from the new sender, whose queue was missing
    obtain ⟨q₀, hq₀, hr₀⟩ := hinv.coupled t ht
    have htk : t.fromStr ≠ k := fun h => by rw [h, hnone] at hq₀; exact absurd hq₀ (by simp)
    exact ⟨q₀, by rw [AList.lookup_insert_ne htk, hq₀], hr₀⟩

theorem Inv.insert_queue_same (hinv : w.Inv) {k : Nat} {q q' : AddrQueue}
    (hq : w.pool.lookup k = some q) (hfrom : q'.fromStr = q.fromStr) (hsender : q'.FromSender)
    (hready : q'.readyTx = q.readyTx) : Inv ⟨w.pool.insert k q', w.txSortedList⟩ := by
  obtain ⟨l', hl', hinv'⟩ := hinv.insert_queue hq hfrom hsender (ReadyUpdate.of_readyTx_eq hready)
  rw [updateSortedList_none_none, Except.ok.injEq] at hl'
  exact hl' ▸ hinv'

theorem Inv.erase_queue (hinv : w.Inv) {k : Nat} {q : AddrQueue} (hq : w.pool.lookup k = some q)
    (hready : q.readyTx = none) : Inv ⟨w.pool.erase k, w.txSortedList⟩ := by
  have hsub : ∀ k' q', (w.pool.erase k).lookup k' = some q' → w.pool.lookup k' = some q' := by
    intro k' q' h
    by_cases hk : k' = k
    · subst hk
      rw [AList.lookup_erase] at h
      exact absurd h (by simp)
    · rwa [AList.lookup_erase_ne hk] at h
  refine ⟨hinv.sorted_valid, fun k' q' h => hinv.pool_key k' q' (hsub k' q' h),
    fun k' q' h => hinv.from_sender k' q' (hsub k' q' h), fun t ht => ?_⟩
  obtain ⟨q₀, hq₀, hr₀⟩ := hinv.coupled t ht
  have htk : t.fromStr ≠ k := by
    rintro rfl
    rw [hq, Option.some.injEq] at hq₀
    rw [← hq₀, hready] at hr₀
    exact absurd hr₀ (by simp)
  exact ⟨q₀, by rw [AList.lookup_erase_ne htk, hq₀], hr₀⟩

/-! ### Each method keeps the invariant -/

theorem Inv.addTxToAddrQueue (hinv : w.Inv) {addr : AddrQueue} {tx : TxTracker}
    (hq : w.pool.lookup tx.fromStr = some addr) :
    ∃ w' r, w.addTxToAddrQueue addr tx = .ok (w', r) ∧ w'.Inv := by
  have hready := addTx_readyUpdate addr tx
  have hfrom := addTx_fromStr addr tx
  have hsender : (addr.addTx tx).1.FromSender :=
    FromSender.of_holds (hinv.from_sender _ _ hq) hfrom (· = tx)
      (fun t ht => ht ▸ (hinv.pool_key _ _ hq).symm) fun t ht => addTx_holds ht
  have hdrop := @addTx_of_dropReason addr tx
  rcases hadd : addr.addTx tx with ⟨a', r⟩
  rw [hadd] at hready hfrom hsender hdrop
  cases hr : r.dropReason with
  | some d =>
    -- a dropped transaction leaves the queue and the list as they were
    have ha' : a' = addr := hdrop hr
    refine ⟨_, _, by simp only [Worker.addTxToAddrQueue, hadd, hr]; rfl,
      hinv.insert_queue_same hq hfrom hsender (by rw [ha'])⟩
  | none =>
    obtain ⟨l', hl', hinv'⟩ := hinv.insert_queue hq hfrom hsender hready
    exact ⟨_, _, by simp only [Worker.addTxToAddrQueue, hadd, hr, hl']; rfl, hinv'⟩

/-- The second critical section of `AddTxTracker` keeps the invariant when the
sender still has no queue. -/
theorem Inv.addTxTrackerNewQueue (hinv : w.Inv) {tx : TxTracker} {nonce balance : Nat}
    (hnone : w.pool.lookup tx.fromStr = none) :
    ∃ w' r, w.addTxTrackerNewQueue tx nonce balance = .ok (w', r) ∧ w'.Inv :=
  Inv.addTxToAddrQueue (hinv.insert_new hnone) (AList.lookup_insert _)

theorem Inv.addTxTracker (hinv : w.Inv) (st : StateInterface) (tx : TxTracker) :
    ∃ w' r, w.addTxTracker st tx = .ok (w', r) ∧ w'.Inv := by
  unfold Worker.addTxTracker
  cases hq : w.pool.lookup tx.fromStr with
  | some addr => exact hinv.addTxToAddrQueue hq
  | none =>
    cases hread : readSenderState st tx.fromStr with
    | error reason => exact ⟨w, _, rfl, hinv⟩
    | ok nb => exact hinv.addTxTrackerNewQueue hq

theorem Inv.applyAddressUpdate (hinv : w.Inv) (heap : TxTrackerHeap) (fromAddr : Nat)
    (fromNonce fromBalance : Option Nat) :
    ∃ w' heap' u, w.applyAddressUpdate heap fromAddr fromNonce fromBalance = .ok (w', heap', u) ∧
      w'.Inv := by
  unfold Worker.applyAddressUpdate
  cases hq : w.pool.lookup fromAddr with
  | none => exact ⟨w, heap, _, rfl, hinv⟩
  | some q =>
    have hready := updateCurrentNonceBalance_readyUpdate q heap fromNonce fromBalance
    have hfrom := updateCurrentNonceBalance_fromStr q heap fromNonce fromBalance
    have hsender : (q.updateCurrentNonceBalance heap fromNonce fromBalance).1.FromSender :=
      FromSender.of_holds (hinv.from_sender _ _ hq) hfrom (fun _ => False)
        (fun _ h => h.elim) fun t ht => Or.inl (updateCurrentNonceBalance_holds q heap _ _ ht)
    rcases hupd : q.updateCurrentNonceBalance heap fromNonce fromBalance with ⟨q', heap', u⟩
    rw [hupd] at hready hfrom hsender
    obtain ⟨l', hl', hinv'⟩ := hinv.insert_queue hq hfrom hsender hready
    exact ⟨_, _, _, by simp only [hupd, hl']; rfl, hinv'⟩

theorem Inv.moveTxToNotReady (hinv : w.Inv) (heap : TxTrackerHeap) (txHash fromAddr : Nat)
    (actualNonce actualBalance : Option Nat) :
    ∃ w' heap' txs, w.moveTxToNotReady heap txHash fromAddr actualNonce actualBalance =
      .ok (w', heap', txs) ∧ w'.Inv := by
  obtain ⟨w', heap', u, hupd, hinv'⟩ := hinv.applyAddressUpdate heap fromAddr actualNonce actualBalance
  exact ⟨w', heap', u.toDelete, by simp only [Worker.moveTxToNotReady, hupd]; rfl, hinv'⟩

theorem Inv.applyFromUpdate (hinv : w.Inv) (heap : TxTrackerHeap) (fromAddr : Nat)
    (touchedAddresses : AList (fun _ : Nat => InfoReadWrite)) :
    ∃ acc, w.applyFromUpdate heap fromAddr touchedAddresses = .ok acc ∧ acc.1.Inv := by
  unfold Worker.applyFromUpdate
  cases touchedAddresses.lookup fromAddr with
  | none => exact ⟨_, rfl, hinv⟩
  | some touchedFrom =>
    obtain ⟨w', heap', u, hupd, hinv'⟩ :=
      hinv.applyAddressUpdate heap fromAddr touchedFrom.nonce touchedFrom.balance
    exact ⟨(w', heap', u.toDelete), by simp only [hupd]; rfl, hinv'⟩

theorem applyTouchedUpdate_inv (fromAddr : Nat) {acc : Worker × TxTrackerHeap × List TxTracker}
    (e : Sigma fun _ : Nat => InfoReadWrite) (hacc : acc.1.Inv) :
    ∃ acc', applyTouchedUpdate fromAddr acc e = .ok acc' ∧ acc'.1.Inv := by
  unfold applyTouchedUpdate
  split
  · obtain ⟨w', heap', u, hupd, hinv'⟩ := hacc.applyAddressUpdate acc.2.1 e.1 none e.2.balance
    exact ⟨(w', heap', acc.2.2 ++ u.toDelete), by simp only [hupd]; rfl, hinv'⟩
  · exact ⟨acc, rfl, hacc⟩

theorem Inv.updateAfterSingleSuccessfulTxExecution (hinv : w.Inv) (heap : TxTrackerHeap)
    (fromAddr : Nat) (touchedAddresses : AList (fun _ : Nat => InfoReadWrite)) :
    ∃ w' heap' txs, w.updateAfterSingleSuccessfulTxExecution heap fromAddr touchedAddresses =
      .ok (w', heap', txs) ∧ w'.Inv := by
  obtain ⟨acc, hfirst, hacc⟩ := hinv.applyFromUpdate heap fromAddr touchedAddresses
  -- the loop over the touched addresses keeps `Inv` round by round
  obtain ⟨⟨w', heap', txs⟩, hloop, hinv'⟩ :=
    Go.foldlM_except_inv (fun acc : Worker × TxTrackerHeap × List TxTracker => acc.1.Inv)
      (fun acc e hacc => applyTouchedUpdate_inv fromAddr e hacc) touchedAddresses.entries acc hacc
  refine ⟨w', heap', txs, ?_, hinv'⟩
  rw [Worker.updateAfterSingleSuccessfulTxExecution, hfirst]
  exact hloop

theorem Inv.deleteTx (hinv : w.Inv) (txHash addr : Nat) :
    ∃ w', w.deleteTx txHash addr = .ok w' ∧ w'.Inv := by
  unfold Worker.deleteTx
  cases hq : w.pool.lookup addr with
  | none => exact ⟨w, rfl, hinv⟩
  | some q =>
    have hready := deleteTx_readyUpdate q txHash
    have hfrom := deleteTx_fromStr q txHash
    have hsender : (q.deleteTx txHash).1.FromSender :=
      FromSender.of_holds (hinv.from_sender _ _ hq) hfrom (fun _ => False) (fun _ h => h.elim)
        fun t ht => Or.inl (deleteTx_holds ht)
    rcases hdel : q.deleteTx txHash with ⟨q', deleted⟩
    rw [hdel] at hready hfrom hsender
    obtain ⟨l', hl', hinv'⟩ := hinv.insert_queue hq hfrom hsender hready
    exact ⟨_, by simp only [hdel, hl']; rfl, hinv'⟩

theorem Inv.updateAddrQueue (hinv : w.Inv) (addr : Nat) {f : AddrQueue → AddrQueue}
    (hready : ∀ q, (f q).readyTx = q.readyTx) (hnotReady : ∀ q, (f q).notReadyTxs = q.notReadyTxs)
    (hfrom : ∀ q, (f q).fromStr = q.fromStr) : (w.updateAddrQueue addr f).Inv := by
  unfold Worker.updateAddrQueue
  cases hq : w.pool.lookup addr with
  | none => exact hinv
  | some q =>
    refine hinv.insert_queue_same hq (hfrom q) ?_ (hready q)
    refine FromSender.of_holds (hinv.from_sender _ _ hq) (hfrom q) (fun _ => False)
      (fun _ h => h.elim) fun t ht => Or.inl ?_
    rcases ht with ht | ht
    · exact Or.inl (hready q ▸ ht)
    · exact Or.inr (by simpa [notReadyList, hnotReady q] using ht)

/-! #### `ExpireTransactions` -/

theorem expireAddrQueue_inv (maxTime now : Nat) {acc : Worker × List TxTracker} (k : Nat)
    (hacc : acc.1.Inv) :
    ∃ acc', expireAddrQueue maxTime now acc k = .ok acc' ∧ acc'.1.Inv := by
  unfold expireAddrQueue
  cases hq : acc.1.pool.lookup k with
  | none => exact ⟨acc, rfl, hacc⟩
  | some q =>
    have hready := expireTransactions_readyUpdate q maxTime now
    have hfrom := expireTransactions_fromStr q maxTime now
    have hsender : (q.expireTransactions maxTime now).1.FromSender :=
      FromSender.of_holds (hacc.from_sender _ _ hq) hfrom (fun _ => False) (fun _ h => h.elim)
        fun t ht => Or.inl (expireTransactions_holds ht)
    rcases hexp : q.expireTransactions maxTime now with ⟨q', subTxs, prev⟩
    rw [hexp] at hready hfrom hsender
    obtain ⟨l', hl', hinv'⟩ := hacc.insert_queue hq hfrom hsender hready
    simp only [hexp, hl', bind, Except.bind, pure, Except.pure]
    split_ifs with hempty
    · -- the emptied queue leaves the pool, under its sender, which is its key
      have hk : q'.fromStr = k := by rw [hfrom]; exact hacc.pool_key k q hq
      refine ⟨_, rfl, ?_⟩
      rw [hk]
      exact hinv'.erase_queue (AList.lookup_insert _) (readyTx_eq_none_of_isEmpty hempty)
    · exact ⟨_, rfl, hinv'⟩

theorem Inv.expireTransactions (hinv : w.Inv) (maxTime now : Nat) :
    ∃ w' txs, w.expireTransactions maxTime now = .ok (w', txs) ∧ w'.Inv := by
  obtain ⟨⟨w', txs⟩, hloop, hinv'⟩ :=
    Go.foldlM_except_inv (fun acc : Worker × List TxTracker => acc.1.Inv)
      (fun acc k hacc => expireAddrQueue_inv maxTime now k hacc) w.pool.keys (w, []) hinv
  exact ⟨w', txs, hloop, hinv'⟩

/-! ### Runs -/

/-- From a state with the invariant every call returns, and the state it
leaves has the invariant. -/
theorem Inv.call (hinv : w.Inv) (heap : TxTrackerHeap) (c : Call) :
    ∃ s', w.call heap c = .ok s' ∧ s'.1.Inv := by
  cases c with
  | addTxTracker st tx =>
    obtain ⟨w', r, h, hinv'⟩ := hinv.addTxTracker st tx
    exact ⟨(w', heap), by simp only [Worker.call, h]; rfl, hinv'⟩
  | updateAfterSingleSuccessfulTxExecution fromAddr touched =>
    obtain ⟨w', heap', txs, h, hinv'⟩ := hinv.updateAfterSingleSuccessfulTxExecution heap fromAddr touched
    exact ⟨(w', heap'), by simp only [Worker.call, h]; rfl, hinv'⟩
  | moveTxToNotReady txHash fromAddr nonce balance =>
    obtain ⟨w', heap', txs, h, hinv'⟩ := hinv.moveTxToNotReady heap txHash fromAddr nonce balance
    exact ⟨(w', heap'), by simp only [Worker.call, h]; rfl, hinv'⟩
  | deleteTx txHash addr =>
    obtain ⟨w', h, hinv'⟩ := hinv.deleteTx txHash addr
    exact ⟨(w', heap), by simp only [Worker.call, h]; rfl, hinv'⟩
  | expireTransactions maxTime now =>
    obtain ⟨w', txs, h, hinv'⟩ := hinv.expireTransactions maxTime now
    exact ⟨(w', heap), by simp only [Worker.call, h]; rfl, hinv'⟩
  | updateTxZKCounters txHash addr counters => exact ⟨_, rfl, hinv⟩
  | addForcedTx txHash addr =>
    exact ⟨_, rfl, hinv.updateAddrQueue addr (fun _ => rfl) (fun _ => rfl) fun _ => rfl⟩
  | deleteForcedTx txHash addr =>
    exact ⟨_, rfl, hinv.updateAddrQueue addr (fun _ => rfl) (fun _ => rfl) fun _ => rfl⟩
  | addPendingTxToStore txHash addr =>
    exact ⟨_, rfl, hinv.updateAddrQueue addr (fun _ => rfl) (fun _ => rfl) fun _ => rfl⟩
  | deletePendingTxToStore txHash addr =>
    exact ⟨_, rfl, hinv.updateAddrQueue addr (fun _ => rfl) (fun _ => rfl) fun _ => rfl⟩

/-- Every state a run of calls reaches from `NewWorker` has the invariant, and
no call made from it panics. -/
theorem inv_of_reachable {heap : TxTrackerHeap} {s : Worker × TxTrackerHeap}
    (h : Relation.ReflTransGen Step (newWorker, heap) s) :
    s.1.Inv ∧ ∀ c, ∃ s', s.1.call s.2 c = .ok s' := by
  have hinv : s.1.Inv := by
    induction h with
    | refl => exact inv_newWorker
    | tail _ hstep ih =>
      obtain ⟨c, hc⟩ := hstep
      obtain ⟨s', hc', hinv'⟩ := ih.call _ c
      rw [hc, Except.ok.injEq] at hc'
      exact hc' ▸ hinv'
  exact ⟨hinv, fun c => (hinv.call s.2 c).imp fun _ h => h.1⟩

end Worker

end CdkValidium.Sequencer
