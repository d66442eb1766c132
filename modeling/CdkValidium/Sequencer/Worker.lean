import CdkValidium.Sequencer.AddrQueue

/-!
# The sequencer worker

`Worker` (`sequencer/worker.go`) keeps one `addrQueue` per sender in `pool`
and the ready transaction of every queue in `txSortedList`, from which the
finalizer picks the next transaction.  Each exported method runs under the
worker mutex; `AddTxTracker` alone releases it while it reads a new sender's
nonce and balance from the state, and is therefore given here as its two
critical sections, `addTxTrackerNewQueue` being the second.

The queues are pointers in Go and values here: every method that changes a
queue writes it back under the key it was found at, which is what the pointer
in the pool sees.  A method that panics (only the sorted list's map lookups
can) is modelled with `Except Go.Panic`.  The state database is the parameter
`StateInterface`.
-/

namespace CdkValidium.Sequencer

/-- The worker: the queue of each sender, by `FromStr`, and the sorted list. -/
structure Worker where
  pool : AList (fun _ : Nat => AddrQueue)
  txSortedList : TxSortedList
  deriving DecidableEq

def newWorker : Worker := ⟨∅, newTxSortedList⟩

/-- What the worker reads of the state database: `GetLastStateRoot`, and the
nonce and balance of an address at a root. -/
structure StateInterface where
  getLastStateRoot : Except String Nat
  getNonceByStateRoot : Nat → Nat → Except String Nat
  getBalanceByStateRoot : Nat → Nat → Except String Nat

/-- `state.InfoReadWrite`: the nonce and balance an execution left for an
address, each possibly absent. -/
structure InfoReadWrite where
  nonce : Option Nat
  balance : Option Nat
  deriving DecidableEq, Repr

/-- The reads of `AddTxTracker` for a sender without a queue, outside the
mutex: the last state root, then the sender's nonce (`Uint64()` of it) and
balance there.  A failed read is the drop reason. -/
def readSenderState (st : StateInterface) (addr : Nat) : Except DropReason (Nat × Nat) := do
  let root ← st.getLastStateRoot.mapError .getLastStateRoot
  let nonce ← (st.getNonceByStateRoot addr root).mapError .getNonceByStateRoot
  let balance ← (st.getBalanceByStateRoot addr root).mapError .getBalanceByStateRoot
  pure (nonce % 2 ^ 64, balance)

/-- `if tx != nil { txSortedList.delete(tx) }`. -/
def TxSortedList.deleteIfSome (l : TxSortedList) : Option TxTracker → Except Go.Panic TxSortedList
  | some tx => Prod.fst <$> l.delete tx
  | none => pure l

/-- `if tx != nil { txSortedList.add(tx) }`. -/
def TxSortedList.addIfSome (l : TxSortedList) : Option TxTracker → Except Go.Panic TxSortedList
  | some tx => Prod.fst <$> l.add tx
  | none => pure l

/-- The sorted-list update that follows a queue change: the previous ready
transaction out, then the new one in. -/
def updateSortedList (l : TxSortedList) (prevReadyTx newReadyTx : Option TxTracker) :
    Except Go.Panic TxSortedList := do
  let l ← l.deleteIfSome prevReadyTx
  l.addIfSome newReadyTx

namespace Worker

/-- The rest of `AddTxTracker` once `addr` is the sender's queue: `addTx`, the
queue written back, and on success the sorted list updated.  The results are
`replacedTx` and `dropReason`. -/
def addTxToAddrQueue (w : Worker) (addr : AddrQueue) (tx : TxTracker) :
    Except Go.Panic (Worker × Option TxTracker × Option DropReason) :=
  let (addr, r) := addr.addTx tx
  let w := { w with pool := w.pool.insert tx.fromStr addr }
  match r.dropReason with
  | some reason => pure (w, r.replacedTx, some reason)
  | none => do
    let l ← updateSortedList w.txSortedList r.prevReadyTx r.newReadyTx
    pure ({ w with txSortedList := l }, r.replacedTx, none)

/-- The second critical section of `AddTxTracker` for a sender that had no
queue: a new queue at the nonce and balance read is stored under the sender,
whatever the pool holds there by now, and the transaction is added to it. -/
def addTxTrackerNewQueue (w : Worker) (tx : TxTracker) (nonce balance : Nat) :
    Except Go.Panic (Worker × Option TxTracker × Option DropReason) :=
  let addr := newAddrQueue tx.fromStr nonce balance
  addTxToAddrQueue { w with pool := w.pool.insert tx.fromStr addr } addr tx

/-- `AddTxTracker`, run without interference: the sender's queue, or the state
reads and a new queue. -/
def addTxTracker (w : Worker) (st : StateInterface) (tx : TxTracker) :
    Except Go.Panic (Worker × Option TxTracker × Option DropReason) :=
  match w.pool.lookup tx.fromStr with
  | some addr => w.addTxToAddrQueue addr tx
  | none =>
    match readSenderState st tx.fromStr with
    | .error reason => pure (w, none, some reason)
    | .ok (nonce, balance) => w.addTxTrackerNewQueue tx nonce balance

/-- `applyAddressUpdate`: `updateCurrentNonceBalance` on the sender's queue,
and the sorted list updated with its results. -/
def applyAddressUpdate (w : Worker) (heap : TxTrackerHeap) (fromAddr : Nat)
    (fromNonce fromBalance : Option Nat) :
    Except Go.Panic (Worker × TxTrackerHeap × AddrQueue.NonceBalanceUpdate) :=
  match w.pool.lookup fromAddr with
  | some addrQueue =>
    let (addrQueue, heap, u) := addrQueue.updateCurrentNonceBalance heap fromNonce fromBalance
    let w := { w with pool := w.pool.insert fromAddr addrQueue }
    do
      let l ← updateSortedList w.txSortedList u.prevReadyTx u.newReadyTx
      pure ({ w with txSortedList := l }, heap, u)
  | none => pure (w, heap, ⟨none, none, []⟩)

/-- The first part of `UpdateAfterSingleSuccessfulTxExecution`: the sender's new
nonce and balance, when the execution touched the sender. -/
def applyFromUpdate (w : Worker) (heap : TxTrackerHeap) (fromAddr : Nat)
    (touchedAddresses : AList (fun _ : Nat => InfoReadWrite)) :
    Except Go.Panic (Worker × TxTrackerHeap × List TxTracker) :=
  match touchedAddresses.lookup fromAddr with
  | some touchedFrom => do
    let (w, heap, u) ← w.applyAddressUpdate heap fromAddr touchedFrom.nonce touchedFrom.balance
    pure (w, heap, u.toDelete)
  | none => pure (w, heap, [])

/-- One round of the loop over the touched addresses: the new balance of an
address other than the sender, and its transactions to delete appended. -/
def applyTouchedUpdate (fromAddr : Nat) (acc : Worker × TxTrackerHeap × List TxTracker)
    (e : Sigma fun _ : Nat => InfoReadWrite) :
    Except Go.Panic (Worker × TxTrackerHeap × List TxTracker) :=
  if e.1 ≠ fromAddr then do
    let (w, heap, u) ← acc.1.applyAddressUpdate acc.2.1 e.1 none e.2.balance
    pure (w, heap, acc.2.2 ++ u.toDelete)
  else pure acc

/-- `UpdateAfterSingleSuccessfulTxExecution`: the sender's update, then every
other touched address; the result is the transactions to delete from the
pool. -/
def updateAfterSingleSuccessfulTxExecution (w : Worker) (heap : TxTrackerHeap) (fromAddr : Nat)
    (touchedAddresses : AList (fun _ : Nat => InfoReadWrite)) :
    Except Go.Panic (Worker × TxTrackerHeap × List TxTracker) := do
  let acc ← w.applyFromUpdate heap fromAddr touchedAddresses
  touchedAddresses.entries.foldlM (applyTouchedUpdate fromAddr) acc

/-- `MoveTxToNotReady`: the check that `txHash` is the ready transaction only
logs; the queue takes the actual nonce and balance, and the result is the
transactions to delete from the pool. -/
def moveTxToNotReady (w : Worker) (heap : TxTrackerHeap) (_txHash fromAddr : Nat)
    (actualNonce actualBalance : Option Nat) :
    Except Go.Panic (Worker × TxTrackerHeap × List TxTracker) := do
  let (w, heap, u) ← w.applyAddressUpdate heap fromAddr actualNonce actualBalance
  pure (w, heap, u.toDelete)

/-- `DeleteTx`: `deleteTx` on the queue, and the deleted ready transaction out
of the sorted list. -/
def deleteTx (w : Worker) (txHash addr : Nat) : Except Go.Panic Worker :=
  match w.pool.lookup addr with
  | some addrQueue =>
    let (addrQueue, deletedReadyTx) := addrQueue.deleteTx txHash
    let w := { w with pool := w.pool.insert addr addrQueue }
    do
      let l ← updateSortedList w.txSortedList deletedReadyTx none
      pure { w with txSortedList := l }
  | none => pure w

/-- The methods that only change a queue's forced or pending sets, or nothing
when the address has no queue. -/
def updateAddrQueue (w : Worker) (addr : Nat) (f : AddrQueue → AddrQueue) : Worker :=
  match w.pool.lookup addr with
  | some addrQueue => { w with pool := w.pool.insert addr (f addrQueue) }
  | none => w

def deleteForcedTx (w : Worker) (txHash addr : Nat) : Worker :=
  w.updateAddrQueue addr (·.deleteForcedTx txHash)

def addPendingTxToStore (w : Worker) (txHash addr : Nat) : Worker :=
  w.updateAddrQueue addr (·.addPendingTxToStore txHash)

def addForcedTx (w : Worker) (txHash addr : Nat) : Worker :=
  w.updateAddrQueue addr (·.addForcedTx txHash)

def deletePendingTxToStore (w : Worker) (txHash addr : Nat) : Worker :=
  w.updateAddrQueue addr (·.deletePendingTxToStore txHash)

/-- `UpdateTxZKCounters`: the counters of that transaction in the queue of
`addr`, written through the pointer. -/
def updateTxZKCounters (w : Worker) (heap : TxTrackerHeap) (txHash addr : Nat)
    (counters : ZKCounters) : TxTrackerHeap :=
  match w.pool.lookup addr with
  | some addrQueue => addrQueue.updateTxZKCounters heap txHash counters
  | none => heap

/-- One round of the loop of `ExpireTransactions`, on the queue under key `k`:
its expired transactions out, the expired ready one out of the sorted list,
and the queue out of the pool (under its `fromStr`) when it is empty.  A
queue deleted before the loop reaches it is not visited. -/
def expireAddrQueue (maxTime now : Nat) (acc : Worker × List TxTracker) (k : Nat) :
    Except Go.Panic (Worker × List TxTracker) :=
  match acc.1.pool.lookup k with
  | some addrQueue =>
    let (addrQueue, subTxs, prevReadyTx) := addrQueue.expireTransactions maxTime now
    let w := { acc.1 with pool := acc.1.pool.insert k addrQueue }
    do
      let l ← updateSortedList w.txSortedList prevReadyTx none
      let w := { w with txSortedList := l }
      let w := if addrQueue.isEmpty then { w with pool := w.pool.erase addrQueue.fromStr } else w
      pure (w, acc.2 ++ subTxs)
  | none => pure acc

/-- `ExpireTransactions`: every queue of the pool, in the order of its keys;
the result is the expired transactions. -/
def expireTransactions (w : Worker) (maxTime now : Nat) : Except Go.Panic (Worker × List TxTracker) :=
  w.pool.keys.foldlM (expireAddrQueue maxTime now) (w, [])

/-! ### Runs of method calls -/

/-- A call of one of the worker's methods that change it, with its arguments
(`AddTxTracker` with the state it reads). -/
inductive Call
  | addTxTracker (st : StateInterface) (tx : TxTracker)
  | updateAfterSingleSuccessfulTxExecution (fromAddr : Nat)
      (touchedAddresses : AList (fun _ : Nat => InfoReadWrite))
  | moveTxToNotReady (txHash fromAddr : Nat) (actualNonce actualBalance : Option Nat)
  | deleteTx (txHash addr : Nat)
  | expireTransactions (maxTime now : Nat)
  | updateTxZKCounters (txHash addr : Nat) (counters : ZKCounters)
  | addForcedTx (txHash addr : Nat)
  | deleteForcedTx (txHash addr : Nat)
  | addPendingTxToStore (txHash addr : Nat)
  | deletePendingTxToStore (txHash addr : Nat)

/-- The worker and the tracker memory after a call; what the method returns
to its caller is dropped. -/
def call (w : Worker) (heap : TxTrackerHeap) : Call → Except Go.Panic (Worker × TxTrackerHeap)
  | .addTxTracker st tx => (fun r => (r.1, heap)) <$> w.addTxTracker st tx
  | .updateAfterSingleSuccessfulTxExecution fromAddr touched =>
    (fun r => (r.1, r.2.1)) <$> w.updateAfterSingleSuccessfulTxExecution heap fromAddr touched
  | .moveTxToNotReady txHash fromAddr nonce balance =>
    (fun r => (r.1, r.2.1)) <$> w.moveTxToNotReady heap txHash fromAddr nonce balance
  | .deleteTx txHash addr => (fun w => (w, heap)) <$> w.deleteTx txHash addr
  | .expireTransactions maxTime now => (fun r => (r.1, heap)) <$> w.expireTransactions maxTime now
  | .updateTxZKCounters txHash addr counters => pure (w, w.updateTxZKCounters heap txHash addr counters)
  | .addForcedTx txHash addr => pure (w.addForcedTx txHash addr, heap)
  | .deleteForcedTx txHash addr => pure (w.deleteForcedTx txHash addr, heap)
  | .addPendingTxToStore txHash addr => pure (w.addPendingTxToStore txHash addr, heap)
  | .deletePendingTxToStore txHash addr => pure (w.deletePendingTxToStore txHash addr, heap)

def Step (s s' : Worker × TxTrackerHeap) : Prop := ∃ c, call s.1 s.2 c = .ok s'

end Worker

end CdkValidium.Sequencer
