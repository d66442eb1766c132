import CdkValidium.Go.Map
import CdkValidium.Sequencer.TxSortedList

/-!
# The per-sender queue

`addrQueue` (`sequencer/addrqueue.go`) holds the worker's transactions of one
sender: at most one `readyTx`, whose nonce is the sender's current nonce and
which the balance covers, and the others in `notReadyTxs`, keyed by nonce.
Each operation that can change the ready transaction hands back the one it
made ready and the one it replaced, so that the worker can update its sorted
list; the facts the worker needs of them are `ReadyUpdate` below.

Maps are `AList`s (`Go.Map`); no result below depends on the order of a
`range` except the order of the slices the operations return.
-/

namespace CdkValidium.Sequencer

/-- The errors `addTx` and `AddTxTracker` return as `dropReason`. -/
inductive DropReason
  | errDuplicatedNonce
  | errIntrinsicInvalidNonce
  | getLastStateRoot (err : String)
  | getNonceByStateRoot (err : String)
  | getBalanceByStateRoot (err : String)
  deriving DecidableEq, Repr

/-- `dropReason.Error()`, which the pool stores as the failed reason. -/
def DropReason.error : DropReason → String
  | .errDuplicatedNonce => "duplicated nonce"
  | .errIntrinsicInvalidNonce => "nonce intrinsic error"
  | .getLastStateRoot err => "AddTx GetLastStateRoot error: " ++ err
  | .getNonceByStateRoot err => "AddTx GetNonceByStateRoot error: " ++ err
  | .getBalanceByStateRoot err => "AddTx GetBalanceByStateRoot error: " ++ err

/-- `addrQueue`.  `fromStr` stands for both `from` and `fromStr`; the forced
and pending sets are `map[common.Hash]struct{}`. -/
structure AddrQueue where
  fromStr : Nat
  currentNonce : Nat
  currentBalance : Nat
  readyTx : Option TxTracker
  notReadyTxs : AList (fun _ : Nat => TxTracker)
  forcedTxs : Finset Nat
  pendingTxsToStore : Finset Nat
  deriving DecidableEq

def newAddrQueue (addr nonce balance : Nat) : AddrQueue :=
  ⟨addr, nonce, balance, none, ∅, ∅, ∅⟩

/-- The four results of `addTx`. -/
structure AddTxResult where
  newReadyTx : Option TxTracker
  prevReadyTx : Option TxTracker
  replacedTx : Option TxTracker
  dropReason : Option DropReason
  deriving DecidableEq, Repr

namespace AddrQueue

/-- `addTx`.  A transaction at the current nonce replaces the ready one when it
pays at least as much, and is ready itself when the balance covers its cost,
else it goes to `notReadyTxs`.  A later nonce goes to `notReadyTxs`, replacing
one of that nonce that pays at most as much.  The replaced transaction is
returned when its hash differs. -/
def addTx (a : AddrQueue) (tx : TxTracker) : AddrQueue × AddTxResult :=
  if a.currentNonce = tx.nonce then
    if a.readyTx.all fun r => decide (r.gasPrice ≤ tx.gasPrice) then
      -- `oldReadyTx` is the ready transaction; it is `repTx` when its hash differs
      if tx.cost ≤ a.currentBalance then
        ({ a with readyTx := some tx },
          ⟨some tx, a.readyTx, a.readyTx.filter (·.hashStr != tx.hashStr), none⟩)
      else
        ({ a with readyTx := none, notReadyTxs := a.notReadyTxs.insert tx.nonce tx },
          ⟨none, a.readyTx, a.readyTx.filter (·.hashStr != tx.hashStr), none⟩)
    else (a, ⟨none, none, none, some .errDuplicatedNonce⟩)
  else if tx.nonce < a.currentNonce then (a, ⟨none, none, none, some .errIntrinsicInvalidNonce⟩)
  else
    match a.notReadyTxs.lookup tx.nonce with
    | none => ({ a with notReadyTxs := a.notReadyTxs.insert tx.nonce tx }, ⟨none, none, none, none⟩)
    | some nrTx =>
      if nrTx.gasPrice ≤ tx.gasPrice then
        ({ a with notReadyTxs := a.notReadyTxs.insert tx.nonce tx },
          ⟨none, none, if nrTx.hashStr ≠ tx.hashStr then some nrTx else none, none⟩)
      else (a, ⟨none, none, none, some .errDuplicatedNonce⟩)

def addForcedTx (a : AddrQueue) (txHash : Nat) : AddrQueue :=
  { a with forcedTxs := insert txHash a.forcedTxs }

def addPendingTxToStore (a : AddrQueue) (txHash : Nat) : AddrQueue :=
  { a with pendingTxsToStore := insert txHash a.pendingTxsToStore }

/-- `ReceivedAt.Add(maxTime).Before(time.Now())`, with `now` the reading of the
clock. -/
def expired (maxTime now : Nat) (tx : TxTracker) : Bool := decide (tx.receivedAt + maxTime < now)

/-- `ExpireTransactions`: the expired not-ready transactions, then the ready one
if it expired; the second result is the ready one taken out. -/
def expireTransactions (a : AddrQueue) (maxTime now : Nat) :
    AddrQueue × List TxTracker × Option TxTracker :=
  let expiredNotReady := Go.rangeDelete TxTracker.nonce (expired maxTime now) a.notReadyTxs
  match a.readyTx with
  | some r =>
    if expired maxTime now r then
      ({ a with notReadyTxs := expiredNotReady.2, readyTx := none }, expiredNotReady.1 ++ [r], some r)
    else ({ a with notReadyTxs := expiredNotReady.2 }, expiredNotReady.1, none)
  | none => ({ a with notReadyTxs := expiredNotReady.2 }, expiredNotReady.1, none)

def isEmpty (a : AddrQueue) : Bool :=
  a.readyTx.isNone && a.notReadyTxs.entries.isEmpty && a.forcedTxs = ∅ && a.pendingTxsToStore = ∅

/-- `deleteTx`: the ready transaction of that hash is taken out and returned;
otherwise the not-ready ones of that hash are deleted. -/
def deleteTx (a : AddrQueue) (txHash : Nat) : AddrQueue × Option TxTracker :=
  match a.readyTx.filter (·.hashStr = txHash) with
  | some r => ({ a with readyTx := none }, some r)
  | none =>
    ({ a with notReadyTxs := (Go.rangeDelete TxTracker.nonce (·.hashStr = txHash) a.notReadyTxs).2 }, none)

/-- `deleteForcedTx` (a missing hash is only logged). -/
def deleteForcedTx (a : AddrQueue) (txHash : Nat) : AddrQueue :=
  { a with forcedTxs := a.forcedTxs.erase txHash }

/-- `deletePendingTxToStore` (a missing hash is only logged). -/
def deletePendingTxToStore (a : AddrQueue) (txHash : Nat) : AddrQueue :=
  { a with pendingTxsToStore := a.pendingTxsToStore.erase txHash }

/-- The not-ready transactions, in the order a `range` over the map meets
them. -/
def notReadyList (a : AddrQueue) : List TxTracker := Go.mapValues a.notReadyTxs

/-! #### `updateCurrentNonceBalance`, phase by phase -/

/-- The balance update: `if balance != nil { a.currentBalance = balance }`. -/
def setBalance (a : AddrQueue) : Option Nat → AddrQueue
  | some b => { a with currentBalance := b }
  | none => a

/-- The nonce update: a new nonce is stored, and the not-ready transactions
below it are collected (with their `FailedReason` set) and then deleted. -/
def advanceNonce (a : AddrQueue) (heap : TxTrackerHeap) :
    Option Nat → AddrQueue × TxTrackerHeap × List TxTracker
  | some n =>
    if a.currentNonce ≠ n then
      let txsToDelete := a.notReadyList.filter fun t => t.nonce < n
      ({ a with currentNonce := n,
                notReadyTxs := txsToDelete.foldl (fun m t => m.erase t.nonce) a.notReadyTxs },
        txsToDelete.foldl (fun h t => h.setFailedReason t DropReason.errIntrinsicInvalidNonce.error)
          heap,
        txsToDelete)
    else (a, heap, [])
  | none => (a, heap, [])

/-- A ready transaction that no longer has the current nonce or is no longer
covered by the balance stops being ready; it is returned as `oldReadyTx`. -/
def dropReadyTx (a : AddrQueue) : AddrQueue × Option TxTracker :=
  match a.readyTx with
  | some r =>
    if r.nonce ≠ a.currentNonce ∨ a.currentBalance < r.cost then ({ a with readyTx := none }, some r)
    else (a, none)
  | none => (a, none)

/-- With no ready transaction, the not-ready one at the current nonce becomes
ready if the balance covers it. -/
def promoteReadyTx (a : AddrQueue) : AddrQueue :=
  match a.readyTx with
  | none =>
    match a.notReadyTxs.lookup a.currentNonce with
    | some nrTx =>
      if nrTx.cost ≤ a.currentBalance then
        { a with readyTx := some nrTx, notReadyTxs := a.notReadyTxs.erase a.currentNonce }
      else a
    | none => a
  | some _ => a

/-- The old ready transaction goes back to `notReadyTxs` only when its nonce
is above the current one. -/
def restoreReadyTx (a : AddrQueue) : Option TxTracker → AddrQueue
  | some o => if a.currentNonce < o.nonce then { a with notReadyTxs := a.notReadyTxs.insert o.nonce o }
    else a
  | none => a

/-- The three results of `updateCurrentNonceBalance`. -/
structure NonceBalanceUpdate where
  newReadyTx : Option TxTracker
  prevReadyTx : Option TxTracker
  toDelete : List TxTracker

/-- `updateCurrentNonceBalance`: the phases above in the source's order.  The
first result is the ready transaction at the end, whether it changed or not. -/
def updateCurrentNonceBalance (a : AddrQueue) (heap : TxTrackerHeap) (nonce balance : Option Nat) :
    AddrQueue × TxTrackerHeap × NonceBalanceUpdate :=
  let (a₁, heap, txsToDelete) := (a.setBalance balance).advanceNonce heap nonce
  let (a₂, oldReadyTx) := a₁.dropReadyTx
  let a₃ := a₂.promoteReadyTx.restoreReadyTx oldReadyTx
  (a₃, heap, ⟨a₃.readyTx, oldReadyTx, txsToDelete⟩)

/-- `UpdateTxZKCounters`: the counters of the ready transaction of that hash,
else of the first not-ready one of that hash met. -/
def updateTxZKCounters (a : AddrQueue) (heap : TxTrackerHeap) (txHash : Nat) (counters : ZKCounters) :
    TxTrackerHeap :=
  match a.readyTx.filter (·.hashStr = txHash) with
  | some r => heap.updateZKCounters r counters
  | none =>
    match a.notReadyList.find? (·.hashStr = txHash) with
    | some t => heap.updateZKCounters t counters
    | none => heap

/-! ### What the operations do to the ready transaction -/

/-- The transactions a queue holds: the ready one and the not-ready ones. -/
def holds (a : AddrQueue) (t : TxTracker) : Prop := a.readyTx = some t ∨ t ∈ a.notReadyList

/-- Every transaction the queue holds is from its sender. -/
def FromSender (a : AddrQueue) : Prop := ∀ t, a.holds t → t.fromStr = a.fromStr

/-- How an operation that hands back `prev` and `new` changed the ready
transaction, as far as the sorted list is concerned: the old ready one is
handed back as `prev` or is still ready, and `new`, if any, is ready now. -/
structure ReadyUpdate (a a' : AddrQueue) (prev new : Option TxTracker) : Prop where
  old_ready : ∀ r, a.readyTx = some r → prev = some r ∨ a'.readyTx = some r
  new_ready : ∀ n, new = some n → a'.readyTx = some n

theorem ReadyUpdate.of_readyTx_eq {a a' : AddrQueue} (h : a'.readyTx = a.readyTx) :
    ReadyUpdate a a' none none :=
  ⟨fun r hr => Or.inr (h ▸ hr), fun _ hn => absurd hn (by simp)⟩

theorem ReadyUpdate.of_drop {a a' : AddrQueue} {prev : Option TxTracker}
    (h : (prev = a.readyTx ∧ a'.readyTx = none) ∨ (prev = none ∧ a'.readyTx = a.readyTx)) :
    ReadyUpdate a a' prev none := by
  refine ⟨fun r hr => ?_, fun _ hn => absurd hn (by simp)⟩
  rcases h with ⟨rfl, -⟩ | ⟨-, h⟩
  · exact Or.inl hr
  · exact Or.inr (h ▸ hr)

theorem fromSender_newAddrQueue (addr nonce balance : Nat) :
    (newAddrQueue addr nonce balance).FromSender := by
  rintro t (h | h)
  · exact absurd h (by simp [newAddrQueue])
  · exact absurd h (by simp [newAddrQueue, notReadyList])

theorem FromSender.of_holds {a a' : AddrQueue} (ha : a.FromSender) (hfrom : a'.fromStr = a.fromStr)
    (extra : TxTracker → Prop) (hextra : ∀ t, extra t → t.fromStr = a.fromStr)
    (hsub : ∀ t, a'.holds t → a.holds t ∨ extra t) : a'.FromSender := by
  intro t ht
  rw [hfrom]
  rcases hsub t ht with h | h
  · exact ha t h
  · exact hextra t h

/-! #### `addTx` -/

theorem addTx_readyUpdate (a : AddrQueue) (tx : TxTracker) :
    ReadyUpdate a (a.addTx tx).1 (a.addTx tx).2.prevReadyTx (a.addTx tx).2.newReadyTx := by
  unfold addTx
  split_ifs
  · -- `tx` is ready: the old ready transaction is handed back
    exact ⟨fun r hr => Or.inl hr, fun n hn => hn⟩
  · exact ⟨fun r hr => Or.inl hr, fun n hn => absurd hn (by simp)⟩
  · exact ReadyUpdate.of_readyTx_eq rfl
  · exact ReadyUpdate.of_readyTx_eq rfl
  · split
    · exact ReadyUpdate.of_readyTx_eq rfl
    · split_ifs <;> exact ReadyUpdate.of_readyTx_eq rfl

theorem addTx_fromStr (a : AddrQueue) (tx : TxTracker) : (a.addTx tx).1.fromStr = a.fromStr := by
  unfold addTx
  split_ifs <;> try rfl
  split
  · rfl
  · split_ifs <;> rfl

theorem addTx_of_dropReason {a : AddrQueue} {tx : TxTracker} {d : DropReason}
    (h : (a.addTx tx).2.dropReason = some d) : (a.addTx tx).1 = a := by
  unfold addTx at h ⊢
  by_cases h₁ : a.currentNonce = tx.nonce
  · by_cases h₂ : a.readyTx.all fun r => decide (r.gasPrice ≤ tx.gasPrice)
    · -- the accepting branches report no drop
      by_cases h₃ : tx.cost ≤ a.currentBalance <;> simp [h₁, h₂, h₃] at h
    · simp [h₁, h₂]
  · by_cases h₄ : tx.nonce < a.currentNonce
    · simp [h₁, h₄]
    · cases hnr : a.notReadyTxs.lookup tx.nonce with
      | none => simp [h₁, h₄, hnr] at h
      | some nrTx =>
        by_cases h₅ : nrTx.gasPrice ≤ tx.gasPrice
        · simp [h₁, h₄, hnr, h₅] at h
        · simp [h₁, h₄, h₅]

theorem addTx_readyTx {a : AddrQueue} {tx r : TxTracker} (hr : (a.addTx tx).1.readyTx = some r) :
    a.readyTx = some r ∨ r = tx := by
  unfold addTx at hr
  -- the branch that empties `readyTx` is closed by `split_ifs` itself
  split_ifs at hr
  · exact Or.inr (Option.some.inj hr).symm
  · exact Or.inl hr
  · exact Or.inl hr
  · split at hr
    · exact Or.inl hr
    · split at hr <;> exact Or.inl hr

theorem addTx_notReady {a : AddrQueue} {tx t : TxTracker} (ht : t ∈ (a.addTx tx).1.notReadyList) :
    t ∈ a.notReadyList ∨ t = tx := by
  unfold addTx at ht
  split_ifs at ht
  · exact Or.inl ht
  · exact (Go.mem_mapValues_insert ht).symm
  · exact Or.inl ht
  · exact Or.inl ht
  · split at ht
    · exact (Go.mem_mapValues_insert ht).symm
    · split at ht
      · exact (Go.mem_mapValues_insert ht).symm
      · exact Or.inl ht

theorem addTx_holds {a : AddrQueue} {tx t : TxTracker} (h : (a.addTx tx).1.holds t) :
    a.holds t ∨ t = tx := by
  rcases h with h | h
  · exact (addTx_readyTx h).imp_left Or.inl
  · exact (addTx_notReady h).imp_left Or.inr

/-! #### The phases of `updateCurrentNonceBalance` -/

section Phases

variable (a : AddrQueue) (heap : TxTrackerHeap)

@[simp] theorem setBalance_readyTx (b : Option Nat) : (a.setBalance b).readyTx = a.readyTx := by
  cases b <;> rfl

@[simp] theorem setBalance_notReadyTxs (b : Option Nat) :
    (a.setBalance b).notReadyTxs = a.notReadyTxs := by
  cases b <;> rfl

@[simp] theorem setBalance_fromStr (b : Option Nat) : (a.setBalance b).fromStr = a.fromStr := by
  cases b <;> rfl

@[simp] theorem advanceNonce_readyTx (n : Option Nat) :
    (a.advanceNonce heap n).1.readyTx = a.readyTx := by
  unfold advanceNonce
  split <;> (try split_ifs) <;> rfl

@[simp] theorem advanceNonce_fromStr (n : Option Nat) :
    (a.advanceNonce heap n).1.fromStr = a.fromStr := by
  unfold advanceNonce
  split <;> (try split_ifs) <;> rfl

theorem advanceNonce_notReady (n : Option Nat) {t : TxTracker}
    (ht : t ∈ (a.advanceNonce heap n).1.notReadyList) : t ∈ a.notReadyList := by
  unfold advanceNonce at ht
  split at ht
  · split_ifs at ht
    · exact Go.mem_mapValues_foldl_erase TxTracker.nonce _ ht
    · exact ht
  · exact ht

theorem dropReadyTx_eq :
    (a.dropReadyTx.2 = a.readyTx ∧ a.dropReadyTx.1.readyTx = none) ∨
      (a.dropReadyTx.2 = none ∧ a.dropReadyTx.1.readyTx = a.readyTx) := by
  unfold dropReadyTx
  split
  · rename_i r hr
    split_ifs
    · exact Or.inl ⟨hr.symm, rfl⟩
    · exact Or.inr ⟨rfl, rfl⟩
  · exact Or.inr ⟨rfl, rfl⟩

@[simp] theorem dropReadyTx_notReadyTxs : a.dropReadyTx.1.notReadyTxs = a.notReadyTxs := by
  unfold dropReadyTx
  split <;> (try split_ifs) <;> rfl

@[simp] theorem dropReadyTx_fromStr : a.dropReadyTx.1.fromStr = a.fromStr := by
  unfold dropReadyTx
  split <;> (try split_ifs) <;> rfl

theorem promoteReadyTx_readyTx {r : TxTracker} (hr : a.readyTx = some r) :
    a.promoteReadyTx.readyTx = some r := by
  unfold promoteReadyTx
  rw [hr]
  exact hr

theorem promoteReadyTx_holds {t : TxTracker} (ht : a.promoteReadyTx.holds t) : a.holds t := by
  unfold promoteReadyTx at ht
  split at ht
  · split at ht
    · rename_i nrTx hnr
      split_ifs at ht
      · rcases ht with ht | ht
        · -- the promoted transaction was not ready
          rw [← Option.some.inj ht]
          exact Or.inr (Go.mem_mapValues_of_lookup hnr)
        · exact Or.inr (Go.mem_mapValues_erase ht)
      · exact ht
    · exact ht
  · exact ht

@[simp] theorem promoteReadyTx_fromStr : a.promoteReadyTx.fromStr = a.fromStr := by
  unfold promoteReadyTx
  split
  · split
    · split_ifs <;> rfl
    · rfl
  · rfl

@[simp] theorem restoreReadyTx_readyTx (o : Option TxTracker) :
    (a.restoreReadyTx o).readyTx = a.readyTx := by
  unfold restoreReadyTx
  split <;> (try split_ifs) <;> rfl

@[simp] theorem restoreReadyTx_fromStr (o : Option TxTracker) :
    (a.restoreReadyTx o).fromStr = a.fromStr := by
  unfold restoreReadyTx
  split <;> (try split_ifs) <;> rfl

theorem restoreReadyTx_notReady (o : Option TxTracker) {t : TxTracker}
    (ht : t ∈ (a.restoreReadyTx o).notReadyList) : t ∈ a.notReadyList ∨ o = some t := by
  unfold restoreReadyTx at ht
  split at ht
  · rename_i o
    split_ifs at ht
    · rcases Go.mem_mapValues_insert ht with rfl | h
      · exact Or.inr rfl
      · exact Or.inl h
    · exact Or.inl ht
  · exact Or.inl ht

end Phases

/-! #### `updateCurrentNonceBalance` -/

section NonceBalance

variable (a : AddrQueue) (heap : TxTrackerHeap) (nonce balance : Option Nat)

theorem updateCurrentNonceBalance_readyUpdate :
    ReadyUpdate a (a.updateCurrentNonceBalance heap nonce balance).1
      (a.updateCurrentNonceBalance heap nonce balance).2.2.prevReadyTx
      (a.updateCurrentNonceBalance heap nonce balance).2.2.newReadyTx := by
  refine ⟨fun r hr => ?_, fun n hn => hn⟩
  -- the ready transaction survives the balance and nonce updates, then is dropped or kept
  have h₁ : ((a.setBalance balance).advanceNonce heap nonce).1.readyTx = some r := by simpa using hr
  rcases dropReadyTx_eq ((a.setBalance balance).advanceNonce heap nonce).1 with ⟨hold, -⟩ | ⟨-, hkeep⟩
  · exact Or.inl (hold.trans h₁)
  · exact Or.inr (by
      simp only [updateCurrentNonceBalance, restoreReadyTx_readyTx]
      exact promoteReadyTx_readyTx _ (hkeep.trans h₁))

theorem updateCurrentNonceBalance_holds {t : TxTracker}
    (ht : (a.updateCurrentNonceBalance heap nonce balance).1.holds t) : a.holds t := by
  simp only [updateCurrentNonceBalance] at ht
  set a₁ := ((a.setBalance balance).advanceNonce heap nonce).1 with ha₁
  have h₁ : ∀ t, a₁.holds t → a.holds t := by
    rintro t (h | h)
    · exact Or.inl (by simpa [ha₁] using h)
    · exact Or.inr (by simpa [notReadyList] using advanceNonce_notReady _ heap nonce h)
  have h₂ : ∀ t, a₁.dropReadyTx.1.holds t → a₁.holds t := by
    rintro t (h | h)
    · rcases dropReadyTx_eq a₁ with ⟨-, hnone⟩ | ⟨-, hkeep⟩
      · exact absurd (hnone.symm.trans h) (by simp)
      · exact Or.inl (hkeep ▸ h)
    · exact Or.inr (by simpa [notReadyList] using h)
  rcases ht with h | h
  · rw [restoreReadyTx_readyTx] at h
    exact h₁ t (h₂ t (promoteReadyTx_holds _ (Or.inl h)))
  · rcases restoreReadyTx_notReady _ _ h with h | h
    · exact h₁ t (h₂ t (promoteReadyTx_holds _ (Or.inr h)))
    · -- the restored transaction is the old ready one
      rcases dropReadyTx_eq a₁ with ⟨hold, -⟩ | ⟨hnone, -⟩
      · exact h₁ t (Or.inl (hold.symm.trans h))
      · exact absurd (hnone.symm.trans h) (by simp)

@[simp] theorem updateCurrentNonceBalance_fromStr :
    (a.updateCurrentNonceBalance heap nonce balance).1.fromStr = a.fromStr := by
  simp [updateCurrentNonceBalance]

end NonceBalance

/-! #### The other operations -/

theorem deleteTx_readyUpdate (a : AddrQueue) (txHash : Nat) :
    ReadyUpdate a (a.deleteTx txHash).1 (a.deleteTx txHash).2 none := by
  apply ReadyUpdate.of_drop
  unfold deleteTx
  split
  · rename_i r hr
    obtain ⟨hready, -⟩ := Option.filter_eq_some_iff.mp hr
    exact Or.inl ⟨hready.symm, rfl⟩
  · exact Or.inr ⟨rfl, rfl⟩

theorem deleteTx_holds {a : AddrQueue} {txHash : Nat} {t : TxTracker}
    (ht : (a.deleteTx txHash).1.holds t) : a.holds t := by
  unfold deleteTx at ht
  split at ht
  · rcases ht with h | h
    · exact absurd h (by simp)
    · exact Or.inr h
  · rcases ht with h | h
    · exact Or.inl h
    · exact Or.inr (Go.mem_mapValues_rangeDelete h)

@[simp] theorem deleteTx_fromStr (a : AddrQueue) (txHash : Nat) :
    (a.deleteTx txHash).1.fromStr = a.fromStr := by
  unfold deleteTx
  split <;> rfl

theorem expireTransactions_readyUpdate (a : AddrQueue) (maxTime now : Nat) :
    ReadyUpdate a (a.expireTransactions maxTime now).1 (a.expireTransactions maxTime now).2.2 none := by
  apply ReadyUpdate.of_drop
  unfold expireTransactions
  split
  · rename_i r hr
    split_ifs
    · exact Or.inl ⟨hr.symm, rfl⟩
    · exact Or.inr ⟨rfl, rfl⟩
  · exact Or.inr ⟨rfl, rfl⟩

theorem expireTransactions_holds {a : AddrQueue} {maxTime now : Nat} {t : TxTracker}
    (ht : (a.expireTransactions maxTime now).1.holds t) : a.holds t := by
  unfold expireTransactions at ht
  split at ht
  · split_ifs at ht
    · rcases ht with h | h
      · exact absurd h (by simp)
      · exact Or.inr (Go.mem_mapValues_rangeDelete h)
    · rcases ht with h | h
      · exact Or.inl h
      · exact Or.inr (Go.mem_mapValues_rangeDelete h)
  · rcases ht with h | h
    · exact Or.inl h
    · exact Or.inr (Go.mem_mapValues_rangeDelete h)

@[simp] theorem expireTransactions_fromStr (a : AddrQueue) (maxTime now : Nat) :
    (a.expireTransactions maxTime now).1.fromStr = a.fromStr := by
  unfold expireTransactions
  split <;> (try split_ifs) <;> rfl

theorem readyTx_eq_none_of_isEmpty {a : AddrQueue} (h : a.isEmpty = true) : a.readyTx = none := by
  simp only [isEmpty, Bool.and_eq_true, Option.isNone_iff_eq_none] at h
  exact h.1.1.1

end AddrQueue

end CdkValidium.Sequencer
