import CdkValidium.Sequencer.WorkerInvariant

/-!
# `AddTxTracker` between its two critical sections

`AddTxTracker` releases the worker mutex when the pool has no queue for the
sender, reads the sender's nonce and balance from the state, locks again and
stores a new queue under the sender, whatever the pool holds there by then.
Here the worker runs as a system of goroutines: every other method runs whole
under the mutex, and an `AddTxTracker` either runs whole as well or stops
after its first critical section, waiting with what it read, until its second
one runs (`Sys.Step`).

Two such calls for one new sender that overlap would store two queues, one
after the other, and the first one's ready transaction would stay in the
sorted list with no queue that holds it.  When no `AddTxTracker` starts for a
sender that has one waiting, every state keeps the worker invariant and every
waiting call still finds no queue for its sender, since no other method
stores a queue under a sender that has none (`Worker.call_shrinks`).  The one
caller of `AddTxTracker` is the goroutine `loadFromPool`, which makes its
calls one after another (`Goroutines`), so every run of the sequencer is such
a run (`Goroutines.serial_of_run`).
-/

namespace CdkValidium.Sequencer

open AddrQueue

namespace Worker

/-! ### Methods that store no new queue -/

/-- Every sender without a queue in `w` is still without one in `w'`. -/
def Shrinks (w w' : Worker) : Prop := ∀ k, w.pool.lookup k = none → w'.pool.lookup k = none

theorem Shrinks.refl (w : Worker) : w.Shrinks w := fun _ h => h

theorem Shrinks.trans {w₁ w₂ w₃ : Worker} (h₁ : w₁.Shrinks w₂) (h₂ : w₂.Shrinks w₃) : w₁.Shrinks w₃ :=
  fun k hk => h₂ k (h₁ k hk)

theorem shrinks_insert {w : Worker} {k : Nat} {q : AddrQueue} (hq : w.pool.lookup k = some q)
    (q' : AddrQueue) (l : TxSortedList) : w.Shrinks ⟨w.pool.insert k q', l⟩ := by
  intro k' hk'
  have hne : k' ≠ k := by
    rintro rfl
    rw [hq] at hk'
    cases hk'
  exact (AList.lookup_insert_ne hne).trans hk'

theorem shrinks_erase (w : Worker) (k : Nat) (l : TxSortedList) : w.Shrinks ⟨w.pool.erase k, l⟩ := by
  intro k' hk'
  by_cases hne : k' = k
  · subst hne
    exact AList.lookup_erase _ _
  · exact (AList.lookup_erase_ne hne).trans hk'

variable {w w' : Worker} {heap heap' : TxTrackerHeap}

theorem applyAddressUpdate_shrinks {fromAddr : Nat} {fromNonce fromBalance : Option Nat}
    {u : NonceBalanceUpdate}
    (h : w.applyAddressUpdate heap fromAddr fromNonce fromBalance = .ok (w', heap', u)) :
    w.Shrinks w' := by
  unfold Worker.applyAddressUpdate at h
  cases hq : w.pool.lookup fromAddr with
  | none =>
    rw [hq] at h
    cases h
    exact Shrinks.refl w
  | some q =>
    rw [hq] at h
    dsimp only at h
    rcases hupd : q.updateCurrentNonceBalance heap fromNonce fromBalance with ⟨q', heap₁, u₁⟩
    rw [hupd] at h
    obtain ⟨l, -, h⟩ := Go.except_bind_eq_ok.mp h
    cases h
    exact shrinks_insert hq q' l

theorem applyTouchedUpdate_shrinks {fromAddr : Nat} {acc acc' : Worker × TxTrackerHeap × List TxTracker}
    {e : Sigma fun _ : Nat => InfoReadWrite} (h : applyTouchedUpdate fromAddr acc e = .ok acc') :
    acc.1.Shrinks acc'.1 := by
  unfold applyTouchedUpdate at h
  split at h
  · obtain ⟨⟨w₁, heap₁, u⟩, hupd, h⟩ := Go.except_bind_eq_ok.mp h
    cases h
    exact applyAddressUpdate_shrinks hupd
  · cases h
    exact Shrinks.refl _

theorem applyFromUpdate_shrinks {fromAddr : Nat} {touchedAddresses : AList (fun _ : Nat => InfoReadWrite)}
    {acc : Worker × TxTrackerHeap × List TxTracker}
    (h : w.applyFromUpdate heap fromAddr touchedAddresses = .ok acc) : w.Shrinks acc.1 := by
  unfold Worker.applyFromUpdate at h
  split at h
  · obtain ⟨⟨w₁, heap₁, u⟩, hupd, h⟩ := Go.except_bind_eq_ok.mp h
    cases h
    exact applyAddressUpdate_shrinks hupd
  · cases h
    exact Shrinks.refl w

theorem updateAfterSingleSuccessfulTxExecution_shrinks {fromAddr : Nat}
    {touchedAddresses : AList (fun _ : Nat => InfoReadWrite)} {txs : List TxTracker}
    (h : w.updateAfterSingleSuccessfulTxExecution heap fromAddr touchedAddresses = .ok (w', heap', txs)) :
    w.Shrinks w' := by
  obtain ⟨acc, hfirst, hloop⟩ := Go.except_bind_eq_ok.mp h
  have h₁ := applyFromUpdate_shrinks hfirst
  -- every round of the loop over the touched addresses writes back a queue it read
  have h₂ := Go.foldlM_except_rel (fun a b : Worker × TxTrackerHeap × List TxTracker => a.1.Shrinks b.1)
    (fun a => Shrinks.refl a.1) (fun _ _ _ hab hbc => hab.trans hbc)
    (fun _ _ _ he => applyTouchedUpdate_shrinks he) _ _ _ hloop
  exact h₁.trans h₂

theorem moveTxToNotReady_shrinks {txHash fromAddr : Nat} {actualNonce actualBalance : Option Nat}
    {txs : List TxTracker}
    (h : w.moveTxToNotReady heap txHash fromAddr actualNonce actualBalance = .ok (w', heap', txs)) :
    w.Shrinks w' := by
  obtain ⟨⟨w₁, heap₁, u⟩, hupd, h⟩ := Go.except_bind_eq_ok.mp h
  cases h
  exact applyAddressUpdate_shrinks hupd

theorem deleteTx_shrinks {txHash addr : Nat} (h : w.deleteTx txHash addr = .ok w') : w.Shrinks w' := by
  unfold Worker.deleteTx at h
  cases hq : w.pool.lookup addr with
  | none =>
    rw [hq] at h
    cases h
    exact Shrinks.refl w
  | some q =>
    rw [hq] at h
    dsimp only at h
    rcases hdel : q.deleteTx txHash with ⟨q', deleted⟩
    rw [hdel] at h
    obtain ⟨l, -, h⟩ := Go.except_bind_eq_ok.mp h
    cases h
    exact shrinks_insert hq q' l

theorem updateAddrQueue_shrinks (addr : Nat) (f : AddrQueue → AddrQueue) :
    w.Shrinks (w.updateAddrQueue addr f) := by
  unfold Worker.updateAddrQueue
  cases hq : w.pool.lookup addr with
  | none => exact Shrinks.refl w
  | some q => exact shrinks_insert hq (f q) w.txSortedList

theorem expireAddrQueue_shrinks {maxTime now k : Nat} {acc acc' : Worker × List TxTracker}
    (h : expireAddrQueue maxTime now acc k = .ok acc') : acc.1.Shrinks acc'.1 := by
  unfold expireAddrQueue at h
  cases hq : acc.1.pool.lookup k with
  | none =>
    rw [hq] at h
    cases h
    exact Shrinks.refl _
  | some q =>
    rw [hq] at h
    dsimp only at h
    rcases hexp : q.expireTransactions maxTime now with ⟨q', subTxs, prev⟩
    rw [hexp] at h
    obtain ⟨l, -, h⟩ := Go.except_bind_eq_ok.mp h
    have hins := shrinks_insert hq q' l
    -- an emptied queue is then erased, which stores nothing either
    split_ifs at h
    · cases h
      exact hins.trans (shrinks_erase _ q'.fromStr l)
    · cases h
      exact hins

theorem expireTransactions_shrinks {maxTime now : Nat} {txs : List TxTracker}
    (h : w.expireTransactions maxTime now = .ok (w', txs)) : w.Shrinks w' :=
  Go.foldlM_except_rel (fun a b : Worker × List TxTracker => a.1.Shrinks b.1)
    (fun a => Shrinks.refl a.1) (fun _ _ _ hab hbc => hab.trans hbc)
    (fun _ _ _ he => expireAddrQueue_shrinks he) _ _ _ h

/-- The sender a call of `AddTxTracker` is for; the other methods have none. -/
def Call.sender : Call → Option Nat
  | .addTxTracker _ tx => some tx.fromStr
  | _ => none

/-- No method other than `AddTxTracker` stores a queue under a sender that has none. -/
theorem call_shrinks {c : Call} (hc : c.sender = none) (h : w.call heap c = .ok (w', heap')) :
    w.Shrinks w' := by
  cases c with
  | addTxTracker st tx => cases hc
  | updateAfterSingleSuccessfulTxExecution fromAddr touched =>
    obtain ⟨⟨w₁, heap₁, txs⟩, hupd, h⟩ := Go.except_bind_eq_ok.mp h
    cases h
    exact updateAfterSingleSuccessfulTxExecution_shrinks hupd
  | moveTxToNotReady txHash fromAddr nonce balance =>
    obtain ⟨⟨w₁, heap₁, txs⟩, hmove, h⟩ := Go.except_bind_eq_ok.mp h
    cases h
    exact moveTxToNotReady_shrinks hmove
  | deleteTx txHash addr =>
    obtain ⟨w₁, hdel, h⟩ := Go.except_bind_eq_ok.mp h
    cases h
    exact deleteTx_shrinks hdel
  | expireTransactions maxTime now =>
    obtain ⟨⟨w₁, txs⟩, hexp, h⟩ := Go.except_bind_eq_ok.mp h
    cases h
    exact expireTransactions_shrinks hexp
  | updateTxZKCounters txHash addr counters =>
    cases h
    exact Shrinks.refl w
  | addForcedTx txHash addr =>
    cases h
    exact updateAddrQueue_shrinks addr _
  | deleteForcedTx txHash addr =>
    cases h
    exact updateAddrQueue_shrinks addr _
  | addPendingTxToStore txHash addr =>
    cases h
    exact updateAddrQueue_shrinks addr _
  | deletePendingTxToStore txHash addr =>
    cases h
    exact updateAddrQueue_shrinks addr _

/-! ### `AddTxTracker` touches only its sender's queue -/

variable {tx : TxTracker} {k : Nat} {r : Option TxTracker × Option DropReason}

theorem addTxToAddrQueue_lookup_of_ne {addr : AddrQueue} (h : w.addTxToAddrQueue addr tx = .ok (w', r))
    (hk : k ≠ tx.fromStr) : w'.pool.lookup k = w.pool.lookup k := by
  unfold Worker.addTxToAddrQueue at h
  rcases hadd : addr.addTx tx with ⟨a', u⟩
  rw [hadd] at h
  dsimp only at h
  split at h
  · cases h
    exact AList.lookup_insert_ne hk
  · obtain ⟨l, -, h⟩ := Go.except_bind_eq_ok.mp h
    cases h
    exact AList.lookup_insert_ne hk

theorem addTxTrackerNewQueue_lookup_of_ne {nonce balance : Nat}
    (h : w.addTxTrackerNewQueue tx nonce balance = .ok (w', r)) (hk : k ≠ tx.fromStr) :
    w'.pool.lookup k = w.pool.lookup k :=
  (addTxToAddrQueue_lookup_of_ne h hk).trans (AList.lookup_insert_ne hk)

theorem addTxTracker_lookup_of_ne {st : StateInterface} (h : w.addTxTracker st tx = .ok (w', r))
    (hk : k ≠ tx.fromStr) : w'.pool.lookup k = w.pool.lookup k := by
  unfold Worker.addTxTracker at h
  split at h
  · exact addTxToAddrQueue_lookup_of_ne h hk
  · split at h
    · cases h
      rfl
    · exact addTxTrackerNewQueue_lookup_of_ne h hk

theorem call_lookup_of_ne {c : Call} (hc : c.sender ≠ some k) (h : w.call heap c = .ok (w', heap'))
    (hnone : w.pool.lookup k = none) : w'.pool.lookup k = none := by
  cases hs : c.sender with
  | none => exact call_shrinks hs h k hnone
  | some k' =>
    cases c with
    | addTxTracker st tx =>
      obtain ⟨⟨w₁, r⟩, hadd, h⟩ := Go.except_bind_eq_ok.mp h
      cases h
      have hne : k ≠ tx.fromStr := fun hk => hc (by rw [hk]; rfl)
      rw [addTxTracker_lookup_of_ne hadd hne, hnone]
    | _ => cases hs

end Worker

/-! ### The system -/

/-- An `AddTxTracker` between its two critical sections, with the nonce and
balance it read. -/
structure Waiting where
  tx : TxTracker
  nonce : Nat
  balance : Nat

/-- The worker, the tracker memory, and the calls of `AddTxTracker` waiting
for the mutex again. -/
structure Sys where
  w : Worker
  heap : TxTrackerHeap
  waiting : List Waiting

def Sys.init (heap : TxTrackerHeap) : Sys := ⟨newWorker, heap, []⟩

/-- What a goroutine does next: a method whole under the mutex, the first
critical section of an `AddTxTracker` that finds no queue (then the reads),
or the second critical section of a waiting one. -/
inductive Event
  | call (c : Worker.Call)
  | release (st : StateInterface) (tx : TxTracker)
  | store (c : Waiting)

/-- The sender whose `AddTxTracker` an event starts. -/
def Event.starts : Event → Option Nat
  | .call c => c.sender
  | .release _ tx => some tx.fromStr
  | .store _ => none

/-- One event, when it can happen, and the state after it. -/
inductive Sys.Step : Sys → Event → Sys → Prop
  | call {s : Sys} {c : Worker.Call} {w' : Worker} {heap' : TxTrackerHeap} :
      s.w.call s.heap c = .ok (w', heap') → Sys.Step s (.call c) ⟨w', heap', s.waiting⟩
  | release {s : Sys} {st : StateInterface} {tx : TxTracker} {nonce balance : Nat} :
      s.w.pool.lookup tx.fromStr = none → readSenderState st tx.fromStr = .ok (nonce, balance) →
      Sys.Step s (.release st tx) ⟨s.w, s.heap, ⟨tx, nonce, balance⟩ :: s.waiting⟩
  | store {s : Sys} {pre post : List Waiting} {c : Waiting} {w' : Worker}
      {r : Option TxTracker × Option DropReason} :
      s.waiting = pre ++ c :: post → s.w.addTxTrackerNewQueue c.tx c.nonce c.balance = .ok (w', r) →
      Sys.Step s (.store c) ⟨w', s.heap, pre ++ post⟩

/-- A sender has an `AddTxTracker` waiting. -/
def Sys.Waits (s : Sys) (k : Nat) : Prop := k ∈ s.waiting.map (·.tx.fromStr)

/-- An event that does not start an `AddTxTracker` for a sender with one waiting. -/
def Sys.Serial (s : Sys) (e : Event) : Prop := ∀ k, e.starts = some k → ¬ s.Waits k

/-- What every state of a serial run has: the worker invariant, no queue for a
waiting sender, and at most one waiting call per sender. -/
structure Sys.Inv (s : Sys) : Prop where
  worker : s.w.Inv
  no_queue : ∀ c ∈ s.waiting, s.w.pool.lookup c.tx.fromStr = none
  nodup : (s.waiting.map (·.tx.fromStr)).Nodup

theorem Sys.inv_init (heap : TxTrackerHeap) : (Sys.init heap).Inv :=
  ⟨Worker.inv_newWorker, fun _ h => (by cases h), List.nodup_nil⟩

/-- A serial event keeps the invariant. -/
theorem Sys.Inv.step {s s' : Sys} {e : Event} (hinv : s.Inv) (hs : s.Step e s') (hser : s.Serial e) :
    s'.Inv := by
  cases hs with
  | call h =>
    rename_i c w' heap'
    obtain ⟨s₁, h₁, hinv₁⟩ := hinv.worker.call s.heap c
    rw [h, Except.ok.injEq] at h₁
    subst h₁
    refine ⟨hinv₁, fun c' hc' => ?_, hinv.nodup⟩
    have hns : c.sender ≠ some c'.tx.fromStr := fun hk =>
      hser _ hk (List.mem_map_of_mem hc')
    exact Worker.call_lookup_of_ne hns h (hinv.no_queue c' hc')
  | release hnone hread =>
    rename_i st tx nonce balance
    have hfresh : ¬ s.Waits tx.fromStr := hser _ rfl
    refine ⟨hinv.worker, fun c hc => ?_, List.nodup_cons.mpr ⟨hfresh, hinv.nodup⟩⟩
    rcases List.mem_cons.mp hc with rfl | hc
    · exact hnone
    · exact hinv.no_queue c hc
  | store hw h =>
    rename_i pre post c w' r
    have hnone := hinv.no_queue c (by rw [hw]; simp)
    obtain ⟨w₁, r₁, h₁, hinv₁⟩ : ∃ w₁ r₁, s.w.addTxTrackerNewQueue c.tx c.nonce c.balance =
        .ok (w₁, r₁) ∧ w₁.Inv := hinv.worker.addTxTrackerNewQueue hnone
    have hnd := hinv.nodup
    rw [hw, List.map_append, List.map_cons, List.nodup_middle, List.nodup_cons] at hnd
    rw [h, Except.ok.injEq, Prod.mk.injEq] at h₁
    obtain ⟨rfl, -⟩ := h₁
    refine ⟨hinv₁, fun c' hc' => ?_, by simpa using hnd.2⟩
    -- the other waiting calls are for other senders, whose lookups the store leaves
    have hmem : c'.tx.fromStr ∈ pre.map (·.tx.fromStr) ++ post.map (·.tx.fromStr) := by
      rw [← List.map_append]
      exact List.mem_map_of_mem hc'
    have hne : c'.tx.fromStr ≠ c.tx.fromStr := fun heq => hnd.1 (heq ▸ hmem)
    have hc'' : c' ∈ s.waiting := by
      rw [hw]
      rcases List.mem_append.mp hc' with hc' | hc'
      · exact List.mem_append_left _ hc'
      · exact List.mem_append_right _ (List.mem_cons_of_mem _ hc')
    rw [Worker.addTxTrackerNewQueue_lookup_of_ne h hne]
    exact hinv.no_queue c' hc''

/-- A step whose event does not start an `AddTxTracker` for a sender with one waiting. -/
def Sys.SerialStep (s s' : Sys) : Prop := ∃ e, s.Step e s' ∧ s.Serial e

/-- The run lemma: every state of a serial run has the invariant. -/
theorem Sys.inv_of_serial {heap : TxTrackerHeap} {s : Sys}
    (h : Relation.ReflTransGen Sys.SerialStep (Sys.init heap) s) : s.Inv := by
  induction h with
  | refl => exact Sys.inv_init heap
  | tail _ hstep ih =>
    obtain ⟨e, hs, hser⟩ := hstep
    exact ih.step hs hser

/-- With the calls of `AddTxTracker` for one sender made one at a time, and any
other methods between their critical sections: every tracker of the sorted
list is the ready transaction of its sender's queue, and every waiting call
finds no queue when it stores its own, which it does without panic. -/
theorem serial_addTxTracker_coupled {heap : TxTrackerHeap} {s : Sys}
    (h : Relation.ReflTransGen Sys.SerialStep (Sys.init heap) s) :
    (∀ t ∈ s.w.txSortedList.sorted, ∃ q, s.w.pool.lookup t.fromStr = some q ∧ q.readyTx = some t) ∧
    ∀ c ∈ s.waiting, s.w.pool.lookup c.tx.fromStr = none ∧
      ∃ w' r, s.w.addTxTrackerNewQueue c.tx c.nonce c.balance = .ok (w', r) ∧ w'.Inv := by
  have hinv := Sys.inv_of_serial h
  refine ⟨hinv.worker.coupled, fun c hc => ⟨hinv.no_queue c hc, ?_⟩⟩
  exact hinv.worker.addTxTrackerNewQueue (hinv.no_queue c hc)

/-- Two overlapping calls for one new sender: the second stores a fresh queue
over the first one's, and the first one's ready transaction stays in the
sorted list while the sender's queue has no ready transaction.  The
sequencer's goroutines never run such a schedule (`Goroutines`). -/
theorem overlapping_addTxTracker_decouples :
    let heap : TxTrackerHeap := ⟨fun _ => ⟨0, 0, 0, 0, 0, 0, 0, 0⟩, fun _ => none⟩
    let t₁ : TxTracker := ⟨1, 100, 7, 0, 1, 5, 0, 0⟩
    ∃ s, Relation.ReflTransGen (fun s s' => ∃ e, Sys.Step s e s') (Sys.init heap) s ∧
      t₁ ∈ s.w.txSortedList.sorted ∧ ∃ q, s.w.pool.lookup t₁.fromStr = some q ∧ q.readyTx = none := by
  intro heap t₁
  let st : StateInterface := ⟨.ok 0, fun _ _ => .ok 0, fun _ _ => .ok 10⟩
  let t₂ : TxTracker := ⟨2, 200, 7, 1, 1, 5, 0, 0⟩
  let w₁ : Worker := ⟨(∅ : AList _).insert 7 ⟨7, 0, 10, some t₁, ∅, ∅, ∅⟩, ⟨(∅ : AList _).insert 100 t₁, [t₁]⟩⟩
  let w₂ : Worker :=
    ⟨(∅ : AList _).insert 7 ⟨7, 0, 10, none, (∅ : AList _).insert 1 t₂, ∅, ∅⟩, ⟨(∅ : AList _).insert 100 t₁, [t₁]⟩⟩
  -- both calls find no queue and wait; then the first stores, then the second over it
  have h₁ : Sys.Step (Sys.init heap) (.release st t₁) ⟨newWorker, heap, [⟨t₁, 0, 10⟩]⟩ :=
    .release rfl rfl
  have h₂ : Sys.Step ⟨newWorker, heap, [⟨t₁, 0, 10⟩]⟩ (.release st t₂)
      ⟨newWorker, heap, [⟨t₂, 0, 10⟩, ⟨t₁, 0, 10⟩]⟩ := .release rfl rfl
  have h₃ : Sys.Step ⟨newWorker, heap, [⟨t₂, 0, 10⟩, ⟨t₁, 0, 10⟩]⟩ (.store ⟨t₁, 0, 10⟩)
      ⟨w₁, heap, [⟨t₂, 0, 10⟩]⟩ :=
    @Sys.Step.store _ [⟨t₂, 0, 10⟩] [] _ w₁ (none, none) rfl rfl
  have h₄ : Sys.Step ⟨w₁, heap, [⟨t₂, 0, 10⟩]⟩ (.store ⟨t₂, 0, 10⟩) ⟨w₂, heap, []⟩ :=
    @Sys.Step.store _ [] [] _ w₂ (none, none) rfl rfl
  exact ⟨_, .tail (.tail (.tail (.single ⟨_, h₁⟩) ⟨_, h₂⟩) ⟨_, h₃⟩) ⟨_, h₄⟩, List.mem_singleton_self _,
    _, rfl, rfl⟩

/-! ### The sequencer's goroutines -/

/-- The worker as the sequencer drives it: every goroutine but one calls the
methods other than `AddTxTracker` (the finalizer, the closing of batches, the
expiry of transactions), and the one goroutine `loadFromPool` calls
`AddTxTracker` for each pool transaction in turn, `loader` being its call
between the two critical sections. -/
structure Goroutines where
  w : Worker
  heap : TxTrackerHeap
  loader : Option Waiting

/-- `dbManager.Start` before any call. -/
def Goroutines.init (heap : TxTrackerHeap) : Goroutines := ⟨newWorker, heap, none⟩

inductive Goroutines.Step : Goroutines → Goroutines → Prop
  /-- a method other than `AddTxTracker`, whole under the mutex -/
  | call {g : Goroutines} {c : Worker.Call} {w' : Worker} {heap' : TxTrackerHeap} :
      c.sender = none → g.w.call g.heap c = .ok (w', heap') → Goroutines.Step g ⟨w', heap', g.loader⟩
  /-- a call of `loadFromPool` that runs whole: the sender has a queue -/
  | addTxTracker {g : Goroutines} {st : StateInterface} {tx : TxTracker} {w' : Worker}
      {heap' : TxTrackerHeap} :
      g.loader = none → g.w.call g.heap (.addTxTracker st tx) = .ok (w', heap') →
      Goroutines.Step g ⟨w', heap', none⟩
  /-- a call of `loadFromPool` that finds no queue, releases the mutex and reads the state -/
  | release {g : Goroutines} {st : StateInterface} {tx : TxTracker} {nonce balance : Nat} :
      g.loader = none → g.w.pool.lookup tx.fromStr = none → readSenderState st tx.fromStr = .ok (nonce, balance) →
      Goroutines.Step g ⟨g.w, g.heap, some ⟨tx, nonce, balance⟩⟩
  /-- the second critical section of that call -/
  | store {g : Goroutines} {c : Waiting} {w' : Worker} {r : Option TxTracker × Option DropReason} :
      g.loader = some c → g.w.addTxTrackerNewQueue c.tx c.nonce c.balance = .ok (w', r) →
      Goroutines.Step g ⟨w', g.heap, none⟩

/-- The goroutines as a system of calls, with the loader's call the only waiting one. -/
def Goroutines.toSys (g : Goroutines) : Sys := ⟨g.w, g.heap, g.loader.toList⟩

theorem Goroutines.toSys_waiting_of_idle {g : Goroutines} (hl : g.loader = none) : g.toSys.waiting = [] := by
  simp [toSys, hl]

theorem Sys.serial_of_waiting_nil {s : Sys} (hw : s.waiting = []) (e : Event) : s.Serial e :=
  fun k _ => by simp [Sys.Waits, hw]

/-- Every step of the goroutines is a serial step of the system: only the
loader starts an `AddTxTracker`, and only when it has none waiting. -/
theorem Goroutines.Step.serialStep {g g' : Goroutines} (h : g.Step g') : g.toSys.SerialStep g'.toSys := by
  cases h with
  | call hc h =>
    exact ⟨.call _, .call h, fun k hk => by simp [Event.starts, hc] at hk⟩
  | addTxTracker hl h =>
    have hw := toSys_waiting_of_idle hl
    have hstep : g.toSys.Step (.call _) ⟨_, _, g.toSys.waiting⟩ := .call h
    rw [hw] at hstep
    exact ⟨_, hstep, Sys.serial_of_waiting_nil hw _⟩
  | release hl hnone hread =>
    have hw := toSys_waiting_of_idle hl
    have hstep : g.toSys.Step (.release _ _) ⟨_, _, _ :: g.toSys.waiting⟩ := .release hnone hread
    rw [hw] at hstep
    exact ⟨_, hstep, Sys.serial_of_waiting_nil hw _⟩
  | store hl h =>
    rename_i c w' r
    -- the loader's call is the only one waiting
    have hw : g.toSys.waiting = [] ++ c :: [] := by simp [toSys, hl]
    exact ⟨_, .store hw h, fun k hk => by cases hk⟩

/-- Every run of the goroutines is a serial run of the system. -/
theorem Goroutines.serial_of_run {heap : TxTrackerHeap} {g : Goroutines}
    (h : Relation.ReflTransGen Goroutines.Step (Goroutines.init heap) g) :
    Relation.ReflTransGen Sys.SerialStep (Sys.init heap) g.toSys :=
  h.lift Goroutines.toSys fun _ _ hstep => hstep.serialStep

/-- Over every run of the sequencer's goroutines: every tracker of the sorted
list is the ready transaction of its sender's queue, and the call of
`loadFromPool` waiting between its critical sections finds no queue for its
sender when it locks again, so it replaces none, and stores its own without
panic. -/
theorem loadFromPool_addTxTracker_coupled {heap : TxTrackerHeap} {g : Goroutines}
    (h : Relation.ReflTransGen Goroutines.Step (Goroutines.init heap) g) :
    (∀ t ∈ g.w.txSortedList.sorted, ∃ q, g.w.pool.lookup t.fromStr = some q ∧ q.readyTx = some t) ∧
    ∀ c, g.loader = some c → g.w.pool.lookup c.tx.fromStr = none ∧
      ∃ w' r, g.w.addTxTrackerNewQueue c.tx c.nonce c.balance = .ok (w', r) ∧ w'.Inv := by
  obtain ⟨hcoupled, hwait⟩ := serial_addTxTracker_coupled (Goroutines.serial_of_run h)
  refine ⟨hcoupled, fun c hc => hwait c ?_⟩
  change c ∈ g.loader.toList
  rw [hc]
  exact List.mem_singleton_self c

theorem loadFromPool_addTxTracker_coupled_waiting :
    let heap : TxTrackerHeap := ⟨fun _ => ⟨0, 0, 0, 0, 0, 0, 0, 0⟩, fun _ => none⟩
    let t₁ : TxTracker := ⟨1, 100, 7, 0, 1, 5, 0, 0⟩
    ∃ g, Relation.ReflTransGen Goroutines.Step (Goroutines.init heap) g ∧ g.loader = some ⟨t₁, 0, 10⟩ ∧
      g.w.pool.lookup 7 = none ∧
      ∃ w' r, g.w.addTxTrackerNewQueue t₁ 0 10 = .ok (w', r) ∧ w'.Inv := by
  intro heap t₁
  let st : StateInterface := ⟨.ok 0, fun _ _ => .ok 0, fun _ _ => .ok 10⟩
  have hrun : Relation.ReflTransGen Goroutines.Step (Goroutines.init heap) ⟨newWorker, heap, some ⟨t₁, 0, 10⟩⟩ :=
    .single (@Goroutines.Step.release _ st _ _ _ rfl rfl rfl)
  obtain ⟨-, hwait⟩ := loadFromPool_addTxTracker_coupled hrun
  exact ⟨_, hrun, rfl, hwait _ rfl⟩

end CdkValidium.Sequencer
