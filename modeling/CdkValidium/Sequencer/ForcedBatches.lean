import CdkValidium.Go.Basic

/-!
# Forced batches in the finalizer

Forced batches reach the finalizer through its `nextForcedBatches` queue.
`processForcedBatches` (`sequencer/finalizer.go`) asks the state for the last
forced batch already in a trusted batch, `L`, and walks the queue with a
counter `nextForcedBatchNum` starting at `L + 1`: a queued batch below the
counter is skipped, one above it is preceded by the batches in between, read
from the database, and every batch processed moves the counter on.  Each
batch goes to the executor as a batch of its own (`processForcedBatch`), with
the next state batch number and the state root the previous one returned.

The abstract account of this is `Sequential`: forced batches `next`,
`next + 1`, ... handed to the executor one after another, each numbered after
the previous state batch and started from the root it returned.

* `processInBetween_spec`, `processQueued_spec`: each loop makes a
  `Sequential` run, and where it leaves the counter.
* `processForcedBatches_ok`: with a database and an executor that do not
  fail, the call returns.

The counter is a `uint64`.  Forced batch numbers come from `BIGINT` columns,
so they stay below `2^63` and the counter never wraps; the statements carry
the weaker bound `2^64 - 1` that keeps `L + 1` and every step after a queued
batch in range.
-/

namespace CdkValidium.Sequencer

namespace ForcedBatches

/-- The fields of `state.ForcedBatch` the finalizer reads; hashes are numbers. -/
structure ForcedBatch where
  forcedBatchNumber : UInt64
  globalExitRoot : Nat
  rawTxsData : List UInt8
  deriving DecidableEq, Repr

/-- `state.ProcessRequest` of a forced batch, without its wall-clock
`Timestamp` and its metrics `Caller` label. -/
structure ProcessRequest where
  batchNumber : UInt64
  globalExitRoot : Nat
  oldStateRoot : Nat
  transactions : List UInt8
  coinbase : Nat
  deriving DecidableEq, Repr

/-- The field of `state.ProcessBatchResponse` the finalizer threads on. -/
structure ProcessBatchResponse where
  newStateRoot : Nat
  deriving DecidableEq, Repr

/-- The `dbManager` calls of the forced-batch code.  `GetForcedBatch` selects
the row whose `forced_batch_num` is the number asked for. -/
structure DbManager where
  getLastTrustedForcedBatchNumber : Except String UInt64
  getForcedBatch : UInt64 → Except String ForcedBatch
  processForcedBatch : UInt64 → ProcessRequest → Except String ProcessBatchResponse
  getForcedBatch_number : ∀ n fb, getForcedBatch n = .ok fb → fb.forcedBatchNumber = n

/-- The finalizer's fields that the forced-batch code reads and writes, and the
calls `ProcessForcedBatch(number, request)` it has made so far, oldest first. -/
structure Finalizer where
  nextForcedBatches : List ForcedBatch
  nextForcedBatchDeadline : Int
  lastGERHash : Nat
  forcedBatchCalls : List (UInt64 × ProcessRequest)
  deriving DecidableEq, Repr

/-- How the forced-batch code stops early.  `err` is returned to the caller
(with batch number 0 and the zero hash); at `halt` the finalizer calls
`f.halt`, which logs forever and never returns. -/
inductive ForcedBatchesError
  | err (msg : String)
  | halt (msg : String)
  deriving DecidableEq, Repr

/-- The request `processForcedBatch` sends for `forcedBatch`. -/
def forcedBatchRequest (sequencerAddress : Nat) (lastBatchNumberInState : UInt64) (stateRoot : Nat)
    (forcedBatch : ForcedBatch) : ProcessRequest :=
  ⟨lastBatchNumberInState + 1, forcedBatch.globalExitRoot, stateRoot, forcedBatch.rawTxsData,
    sequencerAddress⟩

/-- `finalizer.processForcedBatch`: send one forced batch to the executor.  The
adding of its transactions to the worker and their storing
(`handleForcedTxsProcessResp`) leave the fields modelled here alone. -/
def processForcedBatch (db : DbManager) (sequencerAddress : Nat) (f : Finalizer)
    (lastBatchNumberInState : UInt64) (stateRoot : Nat) (forcedBatch : ForcedBatch) :
    Except (Finalizer × ForcedBatchesError) (Finalizer × UInt64 × Nat) :=
  let request := forcedBatchRequest sequencerAddress lastBatchNumberInState stateRoot forcedBatch
  let f := { f with forcedBatchCalls := f.forcedBatchCalls ++ [(forcedBatch.forcedBatchNumber, request)] }
  match db.processForcedBatch forcedBatch.forcedBatchNumber request with
  | .error err => .error (f, .halt ("failed to process forced batch, Executor err: " ++ err))
  | .ok response =>
    .ok ({ f with lastGERHash := forcedBatch.globalExitRoot }, lastBatchNumberInState + 1,
      response.newStateRoot)

/-- The inner loop of `processForcedBatches`: while the queued batch's number
is above `nextForcedBatchNum`, read that batch from the database and process
it. -/
def processInBetween (db : DbManager) (sequencerAddress : Nat) (forcedBatchNumber : UInt64)
    (f : Finalizer) (lastBatchNumberInState : UInt64) (stateRoot : Nat) (nextForcedBatchNum : UInt64) :
    Except (Finalizer × ForcedBatchesError) (Finalizer × UInt64 × Nat × UInt64) :=
  if nextForcedBatchNum < forcedBatchNumber then
    match db.getForcedBatch nextForcedBatchNum with
    | .error err =>
      .error (f, .err ("failed to get in-between forced batch " ++ toString nextForcedBatchNum ++
        ", err: " ++ err))
    | .ok inBetweenForcedBatch => do
      let (f, lastBatchNumberInState, stateRoot) ←
        processForcedBatch db sequencerAddress f lastBatchNumberInState stateRoot inBetweenForcedBatch
      processInBetween db sequencerAddress forcedBatchNumber f lastBatchNumberInState stateRoot
        (nextForcedBatchNum + 1)
  else .ok (f, lastBatchNumberInState, stateRoot, nextForcedBatchNum)
termination_by forcedBatchNumber.toNat - nextForcedBatchNum.toNat
decreasing_by
  have hlt := UInt64.lt_iff_toNat_lt.mp ‹nextForcedBatchNum < forcedBatchNumber›
  have hbound := forcedBatchNumber.toNat_lt
  rw [UInt64.toNat_add, UInt64.toNat_one, Nat.mod_eq_of_lt (by omega)]
  omega

/-- The outer loop of `processForcedBatches`, over the queue in its order. -/
def processQueued (db : DbManager) (sequencerAddress : Nat) :
    List ForcedBatch → Finalizer → UInt64 → Nat → UInt64 →
      Except (Finalizer × ForcedBatchesError) (Finalizer × UInt64 × Nat × UInt64)
  | [], f, lastBatchNumberInState, stateRoot, nextForcedBatchNum =>
    .ok (f, lastBatchNumberInState, stateRoot, nextForcedBatchNum)
  | forcedBatch :: rest, f, lastBatchNumberInState, stateRoot, nextForcedBatchNum =>
    if forcedBatch.forcedBatchNumber < nextForcedBatchNum then
      processQueued db sequencerAddress rest f lastBatchNumberInState stateRoot nextForcedBatchNum
    else do
      let (f, lastBatchNumberInState, stateRoot, nextForcedBatchNum) ←
        processInBetween db sequencerAddress forcedBatch.forcedBatchNumber f lastBatchNumberInState
          stateRoot nextForcedBatchNum
      let (f, lastBatchNumberInState, stateRoot) ←
        processForcedBatch db sequencerAddress f lastBatchNumberInState stateRoot forcedBatch
      processQueued db sequencerAddress rest f lastBatchNumberInState stateRoot (nextForcedBatchNum + 1)

/-- `finalizer.processForcedBatches`: process every queued forced batch, and
those in between, then empty the queue. -/
def processForcedBatches (db : DbManager) (sequencerAddress : Nat) (f : Finalizer)
    (lastBatchNumberInState : UInt64) (stateRoot : Nat) :
    Except (Finalizer × ForcedBatchesError) (Finalizer × UInt64 × Nat) :=
  let f := { f with nextForcedBatchDeadline := 0 }
  match db.getLastTrustedForcedBatchNumber with
  | .error err => .error (f, .err ("failed to get last trusted forced batch number, err: " ++ err))
  | .ok lastTrustedForcedBatchNumber => do
    let (f, lastBatchNumberInState, stateRoot, _) ←
      processQueued db sequencerAddress f.nextForcedBatches f lastBatchNumberInState stateRoot
        (lastTrustedForcedBatchNumber + 1)
    pure ({ f with nextForcedBatches := [] }, lastBatchNumberInState, stateRoot)

/-- The largest number in the queue, `0` for an empty queue. -/
def maxForcedBatchNumber (queue : List ForcedBatch) : Nat :=
  (queue.map fun fb => fb.forcedBatchNumber.toNat).foldr max 0

@[simp] theorem maxForcedBatchNumber_nil : maxForcedBatchNumber [] = 0 := rfl

@[simp] theorem maxForcedBatchNumber_cons (fb : ForcedBatch) (q : List ForcedBatch) :
    maxForcedBatchNumber (fb :: q) = max fb.forcedBatchNumber.toNat (maxForcedBatchNumber q) := rfl

/-! ### Processing batches one after another -/

/-- `k` forced batches numbered `next`, `next + 1`, ... processed one after
another, making the executor calls `calls`: each is the queued batch or the
database's batch of its number, each request takes the state batch number after
the previous one and the state root the previous call returned, and the last
batch number and root are `last'` and `root'`. -/
inductive Sequential (db : DbManager) (sequencerAddress : Nat) (queue : List ForcedBatch) :
    Nat → UInt64 → Nat → Nat → List (UInt64 × ProcessRequest) → UInt64 → Nat → Prop
  | nil (next : Nat) (last : UInt64) (root : Nat) :
      Sequential db sequencerAddress queue next last root 0 [] last root
  | cons {next : Nat} {last last' : UInt64} {root root' k : Nat} {calls : List (UInt64 × ProcessRequest)}
      (forcedBatch : ForcedBatch) (response : ProcessBatchResponse) :
      forcedBatch.forcedBatchNumber.toNat = next →
      forcedBatch ∈ queue ∨ db.getForcedBatch forcedBatch.forcedBatchNumber = .ok forcedBatch →
      db.processForcedBatch forcedBatch.forcedBatchNumber
        (forcedBatchRequest sequencerAddress last root forcedBatch) = .ok response →
      Sequential db sequencerAddress queue (next + 1) (last + 1) response.newStateRoot k calls last' root' →
      Sequential db sequencerAddress queue next last root (k + 1)
        ((forcedBatch.forcedBatchNumber, forcedBatchRequest sequencerAddress last root forcedBatch) :: calls)
        last' root'

section Sequential

variable {db : DbManager} {a : Nat} {queue : List ForcedBatch}

theorem Sequential.append {next k₁ k₂ : Nat} {last last₁ last₂ : UInt64} {root root₁ root₂ : Nat}
    {calls₁ calls₂ : List (UInt64 × ProcessRequest)}
    (h₁ : Sequential db a queue next last root k₁ calls₁ last₁ root₁)
    (h₂ : Sequential db a queue (next + k₁) last₁ root₁ k₂ calls₂ last₂ root₂) :
    Sequential db a queue next last root (k₁ + k₂) (calls₁ ++ calls₂) last₂ root₂ := by
  induction h₁ with
  | nil => simpa using h₂
  | cons fb response hnum hsrc hexec _ ih =>
    rw [Nat.add_right_comm]
    exact .cons fb response hnum hsrc hexec (ih (by rwa [Nat.add_right_comm, Nat.add_assoc]))

theorem Sequential.numbers {next k : Nat} {last last' : UInt64} {root root' : Nat}
    {calls : List (UInt64 × ProcessRequest)} (h : Sequential db a queue next last root k calls last' root') :
    calls.map (fun c => c.1.toNat) = List.range' next k := by
  induction h with
  | nil => rfl
  | cons fb response hnum _ _ _ ih => simp [List.range'_succ, hnum, ih]

theorem Sequential.last_eq {next k : Nat} {last last' : UInt64} {root root' : Nat}
    {calls : List (UInt64 × ProcessRequest)} (h : Sequential db a queue next last root k calls last' root') :
    last' = last + k.toUInt64 := by
  induction h with
  | nil => simp
  | @cons next last last' root root' k calls fb response _ _ _ _ ih =>
    rw [ih]
    simp only [Nat.toUInt64_eq, UInt64.ofNat_add]
    ac_rfl

theorem Sequential.batchNumbers {next k : Nat} {last last' : UInt64} {root root' : Nat}
    {calls : List (UInt64 × ProcessRequest)} (h : Sequential db a queue next last root k calls last' root') :
    calls.map (fun c => c.2.batchNumber) = (List.range k).map fun i => last + 1 + i.toUInt64 := by
  induction h with
  | nil => rfl
  | @cons next last last' root root' k calls fb response _ _ _ _ ih =>
    rw [List.range_succ_eq_map, List.map_cons, List.map_cons, ih, List.map_map]
    congr 1
    · simp [forcedBatchRequest]
    · refine List.map_congr_left fun i _ => ?_
      simp only [Function.comp_apply, Nat.succ_eq_add_one, Nat.toUInt64_eq, UInt64.ofNat_add]
      ac_rfl

end Sequential

section Loops

variable {db : DbManager} {a : Nat}

theorem toNat_add_one_of_lt {x : UInt64} (h : x.toNat + 1 < 2 ^ 64) : (x + 1).toNat = x.toNat + 1 := by
  rw [UInt64.toNat_add, UInt64.toNat_one, Nat.mod_eq_of_lt h]

theorem processForcedBatch_eq_ok {f f' : Finalizer} {last last' : UInt64} {root root' : Nat}
    {fb : ForcedBatch} :
    processForcedBatch db a f last root fb = .ok (f', last', root') ↔
      ∃ response, db.processForcedBatch fb.forcedBatchNumber (forcedBatchRequest a last root fb) = .ok response ∧
        f' = { f with
          forcedBatchCalls := f.forcedBatchCalls ++ [(fb.forcedBatchNumber, forcedBatchRequest a last root fb)],
          lastGERHash := fb.globalExitRoot } ∧
        last' = last + 1 ∧ root' = response.newStateRoot := by
  cases hexec : db.processForcedBatch fb.forcedBatchNumber (forcedBatchRequest a last root fb) with
  | error err => simp [processForcedBatch, hexec]
  | ok response => simp [processForcedBatch, hexec, eq_comm]

/-- The inner loop processes the batches from `next` up to the queued one, read
from the database, and leaves the counter at the queued number. -/
theorem processInBetween_spec (queue : List ForcedBatch) {target : UInt64} {f : Finalizer} {last : UInt64}
    {root : Nat} {next : UInt64} :
    ∀ {f' last' root' next'}, processInBetween db a target f last root next = .ok (f', last', root', next') →
      next'.toNat = max next.toNat target.toNat ∧ f'.nextForcedBatches = f.nextForcedBatches ∧
        ∃ calls, f'.forcedBatchCalls = f.forcedBatchCalls ++ calls ∧
          Sequential db a queue next.toNat last root (target.toNat - next.toNat) calls last' root' := by
  fun_induction processInBetween db a target f last root next with
  | case1 => simp
  | case2 f last root next hlt fb hget ih =>
    intro f' last' root' next' h
    obtain ⟨⟨f₁, last₁, root₁⟩, hpf, hrest⟩ := Go.except_bind_eq_ok.mp h
    obtain ⟨response, hexec, rfl, rfl, rfl⟩ := processForcedBatch_eq_ok.mp hpf
    obtain ⟨hnext', hq, calls, hcalls, hseq⟩ := ih _ _ _ hrest
    have hlt' := UInt64.lt_iff_toNat_lt.mp hlt
    have hsucc : (next + 1).toNat = next.toNat + 1 := toNat_add_one_of_lt (by have := target.toNat_lt; omega)
    have hnum : fb.forcedBatchNumber = next := db.getForcedBatch_number _ _ hget
    refine ⟨by omega, hq, (fb.forcedBatchNumber, forcedBatchRequest a last root fb) :: calls,
      by simp [hcalls], ?_⟩
    rw [show target.toNat - next.toNat = target.toNat - (next.toNat + 1) + 1 by omega]
    rw [hsucc] at hseq
    exact .cons fb response (by rw [hnum]) (.inr (by rw [hnum]; exact hget)) hexec hseq
  | case3 f last root next hge =>
    intro f' last' root' next' h
    simp only [Except.ok.injEq, Prod.mk.injEq] at h
    obtain ⟨rfl, rfl, rfl, rfl⟩ := h
    have hle := UInt64.le_iff_toNat_le.mp (UInt64.not_lt.mp hge)
    refine ⟨by omega, rfl, [], by simp, ?_⟩
    rw [show target.toNat - next.toNat = 0 by omega]
    exact .nil _ _ _

/-- The outer loop, over a part `q` of the queue: it processes the batches
from the counter up to the largest number in `q`, and leaves the counter one
past it. -/
theorem processQueued_spec {queue : List ForcedBatch} (q : List ForcedBatch) (hsub : ∀ fb ∈ q, fb ∈ queue)
    (hbound : ∀ fb ∈ q, fb.forcedBatchNumber.toNat + 1 < 2 ^ 64) :
    ∀ {f last root next f' last' root' next'}, 0 < UInt64.toNat next →
      processQueued db a q f last root next = .ok (f', last', root', next') →
      next'.toNat = max next.toNat (maxForcedBatchNumber q + 1) ∧ f'.nextForcedBatches = f.nextForcedBatches ∧
        ∃ calls, f'.forcedBatchCalls = f.forcedBatchCalls ++ calls ∧
          Sequential db a queue next.toNat last root (maxForcedBatchNumber q + 1 - next.toNat) calls last' root' := by
  induction q with
  | nil =>
    intro f last root next f' last' root' next' hpos h
    simp only [processQueued, Except.ok.injEq, Prod.mk.injEq] at h
    obtain ⟨rfl, rfl, rfl, rfl⟩ := h
    refine ⟨by simp; omega, rfl, [], by simp, ?_⟩
    rw [show maxForcedBatchNumber [] + 1 - next.toNat = 0 by simp; omega]
    exact .nil _ _ _
  | cons fb rest ih =>
    intro f last root next f' last' root' next' hpos h
    have hfb := hbound fb List.mem_cons_self
    have hsub' : ∀ x ∈ rest, x ∈ queue := fun x hx => hsub x (List.mem_cons_of_mem _ hx)
    have hbound' : ∀ x ∈ rest, x.forcedBatchNumber.toNat + 1 < 2 ^ 64 :=
      fun x hx => hbound x (List.mem_cons_of_mem _ hx)
    rw [processQueued] at h
    split at h
    case isTrue hskip =>
      have hlt := UInt64.lt_iff_toNat_lt.mp hskip
      obtain ⟨hnext', hq, calls, hcalls, hseq⟩ := ih hsub' hbound' hpos h
      refine ⟨by rw [hnext', maxForcedBatchNumber_cons]; omega, hq, calls, hcalls, ?_⟩
      rwa [maxForcedBatchNumber_cons, show max fb.forcedBatchNumber.toNat (maxForcedBatchNumber rest) + 1 -
        next.toNat = maxForcedBatchNumber rest + 1 - next.toNat by omega]
    case isFalse hge =>
      have hle := UInt64.le_iff_toNat_le.mp (UInt64.not_lt.mp hge)
      obtain ⟨⟨f₁, last₁, root₁, next₁⟩, hib, h⟩ := Go.except_bind_eq_ok.mp h
      obtain ⟨⟨f₂, last₂, root₂⟩, hpf, h⟩ := Go.except_bind_eq_ok.mp h
      obtain ⟨hnext₁, hq₁, calls₁, hcalls₁, hseq₁⟩ := processInBetween_spec queue hib
      obtain ⟨response, hexec, rfl, rfl, rfl⟩ := processForcedBatch_eq_ok.mp hpf
      obtain rfl : next₁ = fb.forcedBatchNumber := UInt64.toNat_inj.mp (by omega)
      have hsucc := toNat_add_one_of_lt hfb
      obtain ⟨hnext', hq, calls₂, hcalls₂, hseq₂⟩ := ih hsub' hbound' (by omega) h
      rw [hsucc] at hseq₂
      refine ⟨by rw [hnext', hsucc, maxForcedBatchNumber_cons]; omega, by simp [hq, hq₁],
        calls₁ ++ (fb.forcedBatchNumber, forcedBatchRequest a last₁ root₁ fb) :: calls₂,
        by simp [hcalls₂, hcalls₁], ?_⟩
      have hone : Sequential db a queue (next.toNat + (fb.forcedBatchNumber.toNat - next.toNat)) last₁ root₁
          (maxForcedBatchNumber rest + 1 - (fb.forcedBatchNumber.toNat + 1) + 1)
          ((fb.forcedBatchNumber, forcedBatchRequest a last₁ root₁ fb) :: calls₂) last' root' := by
        rw [show next.toNat + (fb.forcedBatchNumber.toNat - next.toNat) = fb.forcedBatchNumber.toNat by omega]
        exact .cons fb response rfl (.inl (hsub fb List.mem_cons_self)) hexec hseq₂
      rw [maxForcedBatchNumber_cons, show max fb.forcedBatchNumber.toNat (maxForcedBatchNumber rest) + 1 -
        next.toNat = (fb.forcedBatchNumber.toNat - next.toNat) +
          (maxForcedBatchNumber rest + 1 - (fb.forcedBatchNumber.toNat + 1) + 1) by omega]
      exact hseq₁.append hone

end Loops

/-! ### Termination -/

section Total

variable {db : DbManager} {a : Nat}
  (hget : ∀ n, ∃ fb, db.getForcedBatch n = .ok fb)
  (hexec : ∀ n request, ∃ response, db.processForcedBatch n request = .ok response)
include hexec

theorem processForcedBatch_ok (f : Finalizer) (last : UInt64) (root : Nat) (fb : ForcedBatch) :
    ∃ r, processForcedBatch db a f last root fb = .ok r := by
  obtain ⟨response, hresponse⟩ := hexec fb.forcedBatchNumber (forcedBatchRequest a last root fb)
  exact ⟨_, processForcedBatch_eq_ok.mpr ⟨response, hresponse, rfl, rfl, rfl⟩⟩

include hget

theorem processInBetween_ok (target : UInt64) (f : Finalizer) (last : UInt64) (root : Nat) (next : UInt64) :
    ∃ r, processInBetween db a target f last root next = .ok r := by
  fun_induction processInBetween db a target f last root next with
  | case1 _ _ _ next _ err herr =>
    obtain ⟨fb, hfb⟩ := hget next
    rw [hfb] at herr
    cases herr
  | case2 f last root _ _ _ _ ih =>
    obtain ⟨⟨f₁, last₁, root₁⟩, hpf⟩ := processForcedBatch_ok hexec f last root _
    rw [hpf]
    exact ih f₁ last₁ root₁
  | case3 => exact ⟨_, rfl⟩

theorem processQueued_ok (q : List ForcedBatch) :
    ∀ (f : Finalizer) (last : UInt64) (root : Nat) (next : UInt64),
      ∃ r, processQueued db a q f last root next = .ok r := by
  induction q with
  | nil => exact fun _ _ _ _ => ⟨_, rfl⟩
  | cons fb rest ih =>
    intro f last root next
    rw [processQueued]
    split
    · exact ih f last root next
    · obtain ⟨⟨f₁, last₁, root₁, next₁⟩, hib⟩ := processInBetween_ok hget hexec fb.forcedBatchNumber f last root next
      obtain ⟨⟨f₂, last₂, root₂⟩, hpf⟩ := processForcedBatch_ok hexec f₁ last₁ root₁ fb
      rw [hib]
      simp only [bind, Except.bind]
      rw [hpf]
      exact ih f₂ last₂ root₂ (next₁ + 1)

/-- With a database and an executor that answer every call, the forced-batch
code returns. -/
theorem processForcedBatches_ok {L : UInt64} (hL : db.getLastTrustedForcedBatchNumber = .ok L)
    (f : Finalizer) (last : UInt64) (root : Nat) : ∃ r, processForcedBatches db a f last root = .ok r := by
  obtain ⟨⟨f₁, last₁, root₁, next₁⟩, hq⟩ :=
    processQueued_ok hget hexec f.nextForcedBatches { f with nextForcedBatchDeadline := 0 } last root (L + 1)
  simp only [processForcedBatches, hL]
  rw [hq]
  exact ⟨_, rfl⟩

end Total

/-! ### Forced batches after the last trusted one -/

section Contiguous

variable {db : DbManager} {a : Nat}

/-- When neither the last trusted forced batch number nor a queued one is
`2^64 - 1`, the forced-batch code processes the forced batches after the last
trusted one up to the largest queued number, each once and in order, numbers
them after `lastBatchNumberInState`, threads the state root, and empties the
queue, whatever the order of the queue. -/
theorem processForcedBatches_contiguous {f f' : Finalizer} {L last last' : UInt64} {root root' : Nat}
    (hL : db.getLastTrustedForcedBatchNumber = .ok L) (hLbound : L.toNat + 1 < 2 ^ 64)
    (hq : ∀ fb ∈ f.nextForcedBatches, fb.forcedBatchNumber.toNat + 1 < 2 ^ 64)
    (h : processForcedBatches db a f last root = .ok (f', last', root')) :
    f'.nextForcedBatches = [] ∧
      ∃ calls, f'.forcedBatchCalls = f.forcedBatchCalls ++ calls ∧
        Sequential db a f.nextForcedBatches (L.toNat + 1) last root
          (maxForcedBatchNumber f.nextForcedBatches - L.toNat) calls last' root' ∧
        calls.map (fun c => c.1.toNat) =
          List.range' (L.toNat + 1) (maxForcedBatchNumber f.nextForcedBatches - L.toNat) ∧
        calls.map (fun c => c.2.batchNumber) =
          (List.range (maxForcedBatchNumber f.nextForcedBatches - L.toNat)).map
            (fun i => last + 1 + i.toUInt64) ∧
        last' = last + (maxForcedBatchNumber f.nextForcedBatches - L.toNat).toUInt64 := by
  simp only [processForcedBatches, hL] at h
  obtain ⟨⟨f₁, last₁, root₁, next₁⟩, hrun, h⟩ := Go.except_bind_eq_ok.mp h
  simp only [pure, Except.pure, Except.ok.injEq, Prod.mk.injEq] at h
  obtain ⟨rfl, rfl, rfl⟩ := h
  have hnext := toNat_add_one_of_lt hLbound
  obtain ⟨-, -, calls, hcalls, hseq⟩ := processQueued_spec _ (fun _ hx => hx) hq (by omega) hrun
  rw [hnext, show maxForcedBatchNumber f.nextForcedBatches + 1 - (L.toNat + 1) =
    maxForcedBatchNumber f.nextForcedBatches - L.toNat by omega] at hseq
  exact ⟨rfl, calls, hcalls, hseq, hseq.numbers, hseq.batchNumbers, hseq.last_eq⟩

/-- A database whose forced batch `n` is empty, with global exit root `0`, for
every `n`, and whose executor moves the state root on by one. -/
def countingDb (L : UInt64) : DbManager where
  getLastTrustedForcedBatchNumber := .ok L
  getForcedBatch n := .ok ⟨n, 0, []⟩
  processForcedBatch _ request := .ok ⟨request.oldStateRoot + 1⟩
  getForcedBatch_number n fb h := by
    cases h
    rfl

theorem processForcedBatches_contiguous_gap :
    ([] : List ForcedBatch) = [] ∧
      ∃ calls, [(1, ⟨11, 0, 100, [], 0⟩), (2, ⟨12, 7, 101, [], 0⟩)] =
          ([] : List (UInt64 × ProcessRequest)) ++ calls ∧
        Sequential (countingDb 0) 0 [⟨2, 7, []⟩] 1 10 100 2 calls 12 102 ∧
        calls.map (fun c => c.1.toNat) = List.range' 1 2 ∧
        calls.map (fun c => c.2.batchNumber) = (List.range 2).map (fun i => 10 + 1 + i.toUInt64) ∧
        (12 : UInt64) = 10 + (2 : Nat).toUInt64 :=
  @processForcedBatches_contiguous (countingDb 0) 0 ⟨[⟨2, 7, []⟩], 5, 0, []⟩
    ⟨[], 0, 7, [(1, ⟨11, 0, 100, [], 0⟩), (2, ⟨12, 7, 101, [], 0⟩)]⟩ 0 10 12 100 102 rfl (by decide) (by decide) (by
    simp [processForcedBatches, processQueued, processInBetween, processForcedBatch, countingDb,
      forcedBatchRequest, bind, Except.bind]
    rfl)

end Contiguous

end ForcedBatches

end CdkValidium.Sequencer
