import CdkValidium.State.Proof
import CdkValidium.Go.Text

/-!
# The aggregator and its provers

`aggregator.go` serves every prover that connects with one goroutine
(`Channel`), which loops over three tasks: build a final proof
(`tryBuildFinalProof`), aggregate two proofs (`tryAggregateProofs`) and prove
a batch (`tryGenerateBatchProof`).  Each task takes rows of `state.proof`
(sets `generating_since`), waits for the prover, and then writes its result.
Beside them run `sendFinalProof`, which sends one final proof at a time to L1
and, once it is verified, deletes the proofs it covers, and
`cleanupLockedProofs`, which deletes rows taken longer ago than a threshold.

The functions here are the source's, on the tables of `State.Proof`.  The
system (`Sys`) is the tables, the task of every prover goroutine and the proof
`sendFinalProof` is verifying; `Sys.next` is one step of one goroutine, or of
the synchronizer that writes the tables the aggregator reads, or a restart of
the aggregator.  A step that talks to a prover or to L1 is split at that call:
the goroutine holds its rows across the wait and finishes in a later step with
the answer it got, so the steps of all goroutines interleave there.  The
statements a task runs under `StateDBMutex` or in one transaction are one step.
-/

namespace CdkValidium.Aggregator

open State

/-- `TxProfitabilityCheckerType`: the strings `ProfitabilityBase` and
`ProfitabilityAcceptAll`, or any other the configuration holds. -/
inductive TxProfitabilityCheckerType
  | base
  | acceptAll
  | other
  deriving DecidableEq, Repr

/-- The aggregator's `ProfitabilityChecker`: one of the two checkers, or the
`nil` interface value. -/
inductive TxProfitabilityChecker
  | base (minReward : Int)
  | acceptAll
  | nil
  deriving DecidableEq, Repr

/-- `IsProfitable`: the base checker compares the collateral with `MinReward`;
a method call on the `nil` interface panics. -/
def TxProfitabilityChecker.isProfitable : TxProfitabilityChecker → Int → Except Go.Panic Bool
  | .base minReward, maticCollateral => .ok (decide (minReward ≤ maticCollateral))
  | .acceptAll, _ => .ok true
  | .nil, _ => .error .nilDereference

/-- The fields of the aggregator's `Config` the modelled functions read. -/
structure Config where
  generateProofDelay : Nat
  txProfitabilityCheckerType : TxProfitabilityCheckerType
  txProfitabilityMinReward : Int

/-- The checker `New` stores: its switch on `TxProfitabilityCheckerType` has no
`default`, so any other type leaves the checker `nil`. -/
def newProfitabilityChecker (cfg : Config) : TxProfitabilityChecker :=
  match cfg.txProfitabilityCheckerType with
  | .base => .base cfg.txProfitabilityMinReward
  | .acceptAll => .acceptAll
  | .other => .nil

/-- Why a `getAndLock...` function takes no rows. -/
inductive LockError
  | notFound
  | db (e : DbError)
  deriving DecidableEq, Repr

/-! ### Proving a batch -/

/-- `getAndLockBatchToProve` at time `now`: the batch `GetVirtualBatchToProve`
answers, taken as a proof row of that one batch held since `now`.  A batch
younger than `GenerateProofDelay` is `ErrNotFound`; a batch the checker finds
not profitable gives `nil, nil, nil` (`.ok none`). -/
def getAndLockBatchToProve (cfg : Config) (t : ProofTables) (now : Nat) :
    Except Go.Panic (Except LockError (Option (Proof × List Proof))) :=
  match t.lastVerifiedBatch with
  | none => .ok (.error .notFound)
  | some lastVerifiedBatch =>
    match getVirtualBatchToProve t lastVerifiedBatch with
    | none => .ok (.error .notFound)
    | some (batchNumber, timestamp) =>
      if now < timestamp + cfg.generateProofDelay then .ok (.error .notFound)
      else do
        let isProfitable ← (newProfitabilityChecker cfg).isProfitable 0
        if !isProfitable then pure (.ok none)
        else
          let proof : Proof := ⟨batchNumber, batchNumber, "", some now⟩
          match addGeneratedProof t.proofs proof with
          | .error e => pure (.error (.db e))
          | .ok proofs => pure (.ok (some (proof, proofs)))

/-- The start of `tryGenerateBatchProof`: the proof row it holds and the rows
after the lock, or `none` when it returns without one.  The batch of a lock
that answered `nil, nil, nil` is read through the `nil` pointer. -/
def tryGenerateBatchProof (cfg : Config) (t : ProofTables) (now : Nat) :
    Except Go.Panic (Option (Proof × List Proof)) := do
  match ← getAndLockBatchToProve cfg t now with
  | .error _ => pure none
  | .ok none => throw .nilDereference
  | .ok (some r) => pure (some r)

/-! ### Final proofs -/

/-- `validateEligibleFinalProof`: whether `proof` can be the final proof after
batch `lastVerifiedBatchNum`, with the rows after it.  A proof that starts
before the next batch to verify is still checked when it reaches that batch; one
that ends before it is deleted. -/
def validateEligibleFinalProof (t : ProofTables) (proof : Proof) (lastVerifiedBatchNum : Nat) :
    Bool × List Proof :=
  let batchNumberToVerify := lastVerifiedBatchNum + 1
  if proof.batchNumber ≠ batchNumberToVerify then
    if proof.batchNumber < batchNumberToVerify ∧ batchNumberToVerify ≤ proof.batchNumberFinal then
      (checkProofContainsCompleteSequences t.sequences proof, t.proofs)
    else if proof.batchNumberFinal < batchNumberToVerify then
      (false, deleteGeneratedProofs t.proofs proof.batchNumber proof.batchNumberFinal)
    else (false, t.proofs)
  else (checkProofContainsCompleteSequences t.sequences proof, t.proofs)

/-- What a prover goroutine is in the middle of, with the proofs it holds. -/
inductive Task
  | idle
  /-- `tryGenerateBatchProof`, waiting for the batch proof. -/
  | generating (proof : Proof)
  /-- `tryAggregateProofs`, waiting for the aggregated proof. -/
  | aggregating (proof1 proof2 : Proof)
  /-- `tryBuildFinalProof`, waiting for the final proof of `proof`. -/
  | finalizing (proof : Proof)
  deriving DecidableEq, Repr

def Task.held : Task → List Proof
  | .idle => []
  | .generating proof => [proof]
  | .aggregating proof1 proof2 => [proof1, proof2]
  | .finalizing proof => [proof]

/-- The end of `tryGenerateBatchProof` and of `tryAggregateProofs` with the
proof just made, which the prover holds: `tryBuildFinalProof` with it, and when
that builds no final proof, `UpdateGeneratedProof` with the row let go.
`canVerifyProof` says that the time to send a final proof has come and none is
being verified; `tryBuildFinalProof` then waits until the state is synced and
reads the last verified batch. -/
def tryBuildFinalProofWith (t : ProofTables) (proof : Proof) (canVerifyProof : Bool) : Task × List Proof :=
  let (eligible, proofs) :=
    if canVerifyProof then validateEligibleFinalProof t proof (t.lastVerifiedBatch.getD 0) else (false, t.proofs)
  if eligible then (.finalizing proof, proofs)
  else (.idle, updateGeneratedProof proofs { proof with generatingSince := none })

/-- `getAndLockProofReadyToVerify` at time `now`: the row `GetProofReadyToVerify`
answers, taken since `now`. -/
def getAndLockProofReadyToVerify (t : ProofTables) (lastVerifiedBatchNum now : Nat) :
    Option (Proof × List Proof) :=
  match getProofReadyToVerify t lastVerifiedBatchNum with
  | none => none
  | some proofToVerify =>
    let proofToVerify := { proofToVerify with generatingSince := some now }
    some (proofToVerify, updateGeneratedProof t.proofs proofToVerify)

/-! ### Aggregating two proofs -/

/-- `getAndLockProofsToAggregate` at time `now`: the pair `GetProofsToAggregate`
answers, both rows taken in one transaction. -/
def getAndLockProofsToAggregate (t : ProofTables) (now : Nat) : Option (Proof × Proof × List Proof) :=
  match getProofsToAggregate t with
  | none => none
  | some (proof1, proof2) =>
    let proof1 := { proof1 with generatingSince := some now }
    let proof2 := { proof2 with generatingSince := some now }
    some (proof1, proof2, updateGeneratedProof (updateGeneratedProof t.proofs proof1) proof2)

/-- `unlockProofsToAggregate`: both rows let go, in one transaction. -/
def unlockProofsToAggregate (proofs : List Proof) (proof1 proof2 : Proof) : List Proof :=
  updateGeneratedProof (updateGeneratedProof proofs { proof1 with generatingSince := none })
    { proof2 with generatingSince := none }

/-- The end of `tryAggregateProofs` once the prover answers with
`recursiveProof`, at time `now`: in one transaction every row inside the two
proofs' batches is deleted and the aggregated proof added, held since `now`.
When the insert fails the transaction rolls back and both rows are let go. -/
def storeAggregatedProof (proofs : List Proof) (proof1 proof2 : Proof) (recursiveProof : String) (now : Nat) :
    Option Proof × List Proof :=
  let proof : Proof := ⟨proof1.batchNumber, proof2.batchNumberFinal, recursiveProof, some now⟩
  match addGeneratedProof (deleteGeneratedProofs proofs proof1.batchNumber proof2.batchNumberFinal) proof with
  | .ok proofs' => (some proof, proofs')
  | .error _ => (none, unlockProofsToAggregate proofs proof1 proof2)

/-! ### Verified proofs -/

/-- `buildMonitoredTxID`: `fmt.Sprintf("proof-from-%v-to-%v", ...)`. -/
def buildMonitoredTxID (batchNumber batchNumberFinal : Nat) : List Char :=
  "proof-from-".toList ++ Nat.toDigits 10 batchNumber ++ "-to-".toList ++ Nat.toDigits 10 batchNumberFinal

/-- The value `strconv.ParseUint(s, 10, 0)` returns beside its error: `0` on a
syntax error, the largest `uint64` on a range error. -/
def parseUintValue (s : List Char) : Nat :=
  match Go.parseUint s 10 with
  | .ok n => n
  | .error .errSyntax => 0
  | .error .errRange => 2 ^ 64 - 1

/-- The batches `handleMonitoredTxResult` reads from a monitored transaction's
ID: the third and the fifth field between dashes (`strings.Split`), each parsed
as a decimal `uint64`; a missing field is an index out of range. -/
def monitoredTxBatches (id : List Char) : Except Go.Panic (Nat × Nat) :=
  let idSlice := id.splitOn '-'
  match idSlice[2]?, idSlice[4]? with
  | some proofBatchNumberStr, some proofBatchNumberFinalStr =>
    .ok (parseUintValue proofBatchNumberStr, parseUintValue proofBatchNumberFinalStr)
  | _, _ => .error .indexOutOfRange

/-- `handleMonitoredTxResult` for a verified transaction, once the state is
synced up to the final batch it reads: `CleanupGeneratedProofs` up to it. -/
def handleMonitoredTxResult (proofs : List Proof) (id : List Char) : Except Go.Panic (Nat × List Proof) := do
  let (_, proofBatchNumberFinal) ← monitoredTxBatches id
  pure (proofBatchNumberFinal, cleanupGeneratedProofs proofs proofBatchNumberFinal)

/-! ### Spec lemmas -/

theorem getAndLockBatchToProve_eq_ok {cfg : Config} {t : ProofTables} {now : Nat} {proof : Proof}
    {proofs : List Proof} (h : getAndLockBatchToProve cfg t now = .ok (.ok (some (proof, proofs)))) :
    ∃ v n ts, t.lastVerifiedBatch = some v ∧ getVirtualBatchToProve t v = some (n, ts) ∧
      proof = ⟨n, n, "", some now⟩ ∧ proofs = t.proofs ++ [proof] := by
  unfold getAndLockBatchToProve at h
  split at h
  · cases h
  · rename_i v hv
    split at h
    · cases h
    · rename_i n ts hvb
      split_ifs at h with hdelay
      · cases h
      obtain ⟨isProfitable, -, h⟩ := Go.except_bind_eq_ok.mp h
      -- an unprofitable batch gives `.ok none`
      split_ifs at h with hprofit
      · cases h
      dsimp only at h
      split at h
      · cases h
      · rename_i proofs' hadd
        simp only [pure, Except.pure, Except.ok.injEq, Option.some.injEq, Prod.mk.injEq] at h
        obtain ⟨rfl, rfl⟩ := h
        exact ⟨v, n, ts, hv, hvb, rfl, (addGeneratedProof_eq_ok hadd).1⟩

theorem tryGenerateBatchProof_eq_ok {cfg : Config} {t : ProofTables} {now : Nat} {r : Proof × List Proof}
    (h : tryGenerateBatchProof cfg t now = .ok (some r)) :
    getAndLockBatchToProve cfg t now = .ok (.ok (some r)) := by
  obtain ⟨lock, hlock, h⟩ := Go.except_bind_eq_ok.mp h
  rw [hlock]
  split at h
  · cases h
  · cases h
  · cases h
    rfl

theorem getAndLockProofsToAggregate_eq_some {t : ProofTables} {now : Nat} {proof1 proof2 : Proof}
    {proofs : List Proof} (h : getAndLockProofsToAggregate t now = some (proof1, proof2, proofs)) :
    ∃ q1 q2, getProofsToAggregate t = some (q1, q2) ∧ proof1 = { q1 with generatingSince := some now } ∧
      proof2 = { q2 with generatingSince := some now } ∧
        proofs = updateGeneratedProof (updateGeneratedProof t.proofs proof1) proof2 := by
  unfold getAndLockProofsToAggregate at h
  split at h
  · cases h
  · rename_i q1 q2 hq
    rw [Option.some.injEq, Prod.mk.injEq, Prod.mk.injEq] at h
    obtain ⟨rfl, rfl, rfl⟩ := h
    exact ⟨q1, q2, hq, rfl, rfl, rfl⟩

theorem getAndLockProofReadyToVerify_eq_some {t : ProofTables} {v now : Nat} {proof : Proof}
    {proofs : List Proof} (h : getAndLockProofReadyToVerify t v now = some (proof, proofs)) :
    ∃ q, getProofReadyToVerify t v = some q ∧ proof = { q with generatingSince := some now } ∧
      proofs = updateGeneratedProof t.proofs proof := by
  unfold getAndLockProofReadyToVerify at h
  split at h
  · cases h
  · rename_i q hq
    rw [Option.some.injEq, Prod.mk.injEq] at h
    obtain ⟨rfl, rfl⟩ := h
    exact ⟨q, hq, rfl, rfl⟩

theorem storeAggregatedProof_eq (proofs : List Proof) (proof1 proof2 : Proof) (recursiveProof : String)
    (now : Nat) :
    storeAggregatedProof proofs proof1 proof2 recursiveProof now =
      (some ⟨proof1.batchNumber, proof2.batchNumberFinal, recursiveProof, some now⟩,
        deleteGeneratedProofs proofs proof1.batchNumber proof2.batchNumberFinal ++
          [⟨proof1.batchNumber, proof2.batchNumberFinal, recursiveProof, some now⟩]) := by
  have hfresh : ∀ q ∈ deleteGeneratedProofs proofs proof1.batchNumber proof2.batchNumberFinal,
      q.key ≠ (⟨proof1.batchNumber, proof2.batchNumberFinal, recursiveProof, some now⟩ : Proof).key := by
    intro q hq hk
    simp only [Proof.key, Prod.mk.injEq] at hk
    have hout := (mem_deleteGeneratedProofs.mp hq).2
    omega
  rw [storeAggregatedProof, addGeneratedProof_of_fresh hfresh]

theorem handleMonitoredTxResult_eq_ok {proofs proofs' : List Proof} {id : List Char} {n : Nat}
    (h : handleMonitoredTxResult proofs id = .ok (n, proofs')) : proofs' = cleanupGeneratedProofs proofs n := by
  unfold handleMonitoredTxResult at h
  cases hm : monitoredTxBatches id with
  | error e =>
    rw [hm] at h
    cases h
  | ok r =>
    rw [hm] at h
    simp only [bind, Except.bind, pure, Except.pure, Except.ok.injEq, Prod.mk.injEq] at h
    obtain ⟨rfl, rfl⟩ := h
    rfl

/-! ### When a prover goroutine panics -/

theorem isProfitable_zero_ne_true_iff (cfg : Config) :
    (newProfitabilityChecker cfg).isProfitable 0 ≠ .ok true ↔
      cfg.txProfitabilityCheckerType ≠ .acceptAll ∧
        (cfg.txProfitabilityCheckerType = .base → 0 < cfg.txProfitabilityMinReward) := by
  unfold newProfitabilityChecker
  cases cfg.txProfitabilityCheckerType with
  | base => simp [TxProfitabilityChecker.isProfitable]
  | acceptAll => simp [TxProfitabilityChecker.isProfitable]
  | other => simp [TxProfitabilityChecker.isProfitable]

theorem getAndLockBatchToProve_of_not_ready {cfg : Config} {t : ProofTables} {now : Nat}
    (hready : ¬ ∃ v n ts, t.lastVerifiedBatch = some v ∧ getVirtualBatchToProve t v = some (n, ts) ∧
      ts + cfg.generateProofDelay ≤ now) :
    getAndLockBatchToProve cfg t now = .ok (.error .notFound) := by
  unfold getAndLockBatchToProve
  split
  · rfl
  rename_i v hv
  split
  · rfl
  rename_i n ts hvb
  rw [if_pos (by by_contra hdelay; exact hready ⟨v, n, ts, hv, hvb, by omega⟩)]

theorem tryGenerateBatchProof_eq_error_iff (cfg : Config) (t : ProofTables) (now : Nat) :
    (∃ e, tryGenerateBatchProof cfg t now = .error e) ↔
      (newProfitabilityChecker cfg).isProfitable 0 ≠ .ok true ∧
      ∃ v n ts, t.lastVerifiedBatch = some v ∧ getVirtualBatchToProve t v = some (n, ts) ∧
        ts + cfg.generateProofDelay ≤ now := by
  by_cases hready : ∃ v n ts, t.lastVerifiedBatch = some v ∧ getVirtualBatchToProve t v = some (n, ts) ∧
      ts + cfg.generateProofDelay ≤ now
  · have hready' := hready
    obtain ⟨v, n, ts, hv, hvb, hdelay⟩ := hready
    have hnot : ¬ now < ts + cfg.generateProofDelay := by omega
    -- what the lock does with each answer of the checker
    cases hp : (newProfitabilityChecker cfg).isProfitable 0 with
    | error p =>
      have htry : tryGenerateBatchProof cfg t now = .error p := by
        simp only [tryGenerateBatchProof, getAndLockBatchToProve, hv, hvb, hnot, if_false, hp]
        rfl
      exact iff_of_true ⟨p, htry⟩ ⟨by simp, hready'⟩
    | ok b =>
      cases b with
      | false =>
        have htry : tryGenerateBatchProof cfg t now = .error .nilDereference := by
          simp only [tryGenerateBatchProof, getAndLockBatchToProve, hv, hvb, hnot, if_false, hp]
          rfl
        exact iff_of_true ⟨_, htry⟩ ⟨by simp, hready'⟩
      | true =>
        have htry : ∃ r, tryGenerateBatchProof cfg t now = .ok r := by
          cases hadd : addGeneratedProof t.proofs ⟨n, n, "", some now⟩ <;>
            simp only [tryGenerateBatchProof, getAndLockBatchToProve, hv, hvb, hnot, if_false, hp, hadd] <;>
            exact ⟨_, rfl⟩
        obtain ⟨r, hr⟩ := htry
        refine iff_of_false (fun ⟨e, he⟩ => ?_) fun h => h.1 rfl
        rw [hr] at he
        cases he
  · simp only [tryGenerateBatchProof, getAndLockBatchToProve_of_not_ready hready, hready, and_false,
      iff_false, not_exists]
    intro e h
    cases h

/-- A prover goroutine's `tryGenerateBatchProof` panics exactly when a virtual
batch after the last verified one has waited out `GenerateProofDelay` and the
checker type is not `acceptall`, with a positive minimum reward when it is
`base`: an unknown type leaves `nil` for `IsProfitable` to be called on, and
the base checker's `false` makes the lock answer `nil, nil, nil`, whose batch
is read through the `nil` pointer. -/
theorem tryGenerateBatchProof_panics_iff (cfg : Config) (t : ProofTables) (now : Nat) :
    (∃ e, tryGenerateBatchProof cfg t now = .error e) ↔
      (cfg.txProfitabilityCheckerType ≠ .acceptAll ∧
        (cfg.txProfitabilityCheckerType = .base → 0 < cfg.txProfitabilityMinReward)) ∧
      ∃ v n ts, t.lastVerifiedBatch = some v ∧ getVirtualBatchToProve t v = some (n, ts) ∧
        ts + cfg.generateProofDelay ≤ now := by
  rw [tryGenerateBatchProof_eq_error_iff, isProfitable_zero_ne_true_iff]

/-! ### The ID of a verification transaction -/

theorem digitChar_ne_dash {d : Nat} (h : d < 10) : Nat.digitChar d ≠ '-' := by
  interval_cases d <;> decide

theorem splitOn_append_dash {xs : List Char} (h : ∀ c ∈ xs, c ≠ '-') (as : List Char) :
    (xs ++ '-' :: as).splitOn '-' = xs :: as.splitOn '-' :=
  List.splitOnP_append_cons_of_forall_mem (by simpa using h) '-' (by simp) as

theorem splitOn_buildMonitoredTxID (b f : Nat) :
    (buildMonitoredTxID b f).splitOn '-' =
      [['p', 'r', 'o', 'o', 'f'], ['f', 'r', 'o', 'm'], Nat.toDigits 10 b, ['t', 'o'], Nat.toDigits 10 f] := by
  have hdigits : ∀ n, ∀ c ∈ Nat.toDigits 10 n, c ≠ '-' := by
    intro n c hc
    obtain ⟨d, hd, rfl⟩ := Go.mem_toDigits hc (by norm_num)
    exact digitChar_ne_dash hd
  have hid : buildMonitoredTxID b f = ['p', 'r', 'o', 'o', 'f'] ++ '-' :: (['f', 'r', 'o', 'm'] ++ '-' ::
      (Nat.toDigits 10 b ++ '-' :: (['t', 'o'] ++ '-' :: Nat.toDigits 10 f))) := by
    unfold buildMonitoredTxID
    simp
  have hproof : ∀ c ∈ ['p', 'r', 'o', 'o', 'f'], c ≠ '-' := by simp
  have hfrom : ∀ c ∈ ['f', 'r', 'o', 'm'], c ≠ '-' := by simp
  have hto : ∀ c ∈ ['t', 'o'], c ≠ '-' := by simp
  rw [hid, splitOn_append_dash hproof, splitOn_append_dash hfrom, splitOn_append_dash (hdigits b),
    splitOn_append_dash hto, List.splitOn, List.splitOnP_eq_singleton (by simpa using hdigits f)]

/-- `handleMonitoredTxResult` reads back from the ID of a verification
transaction the two batch numbers `sendFinalProof` wrote into it, for every
pair of `uint64` batch numbers. -/
theorem monitoredTxBatches_buildMonitoredTxID {b f : Nat} (hb : b < 2 ^ 64) (hf : f < 2 ^ 64) :
    monitoredTxBatches (buildMonitoredTxID b f) = .ok (b, f) := by
  have hparse : ∀ n < 2 ^ 64, parseUintValue (Nat.toDigits 10 n) = n := fun n hn => by
    rw [parseUintValue, Go.parseUint_toDigits (by norm_num) (by norm_num) hn]
  simp only [monitoredTxBatches, splitOn_buildMonitoredTxID, List.getElem?_cons_succ, List.getElem?_cons_zero,
    hparse b hb, hparse f hf]

theorem monitoredTxBatches_buildMonitoredTxID_run :
    (7 < 2 ^ 64 ∧ 12 < 2 ^ 64) ∧ monitoredTxBatches (buildMonitoredTxID 7 12) = .ok (7, 12) :=
  ⟨⟨by norm_num, by norm_num⟩, monitoredTxBatches_buildMonitoredTxID (by norm_num) (by norm_num)⟩

/-! ### The system -/

/-- The aggregator with provers `ι`: the tables it reads, the task of every
prover goroutine, and the proof `sendFinalProof` is verifying
(`verifyingProof`). -/
structure Sys (ι : Type) where
  tables : ProofTables
  tasks : ι → Task
  sending : Option Proof

inductive Event (ι : Type)
  /-- A prover's `tryGenerateBatchProof` takes a batch at time `now`. -/
  | lockBatch (i : ι) (now : Nat)
  /-- The prover fails to prove the batch. -/
  | batchProofFailed (i : ι)
  /-- The prover answers with the batch proof; `timeReached` is
  `TimeSendFinalProof.Before(time.Now())`. -/
  | batchProofDone (i : ι) (recursiveProof : String) (timeReached : Bool)
  /-- A prover's `tryAggregateProofs` takes two proofs at time `now`. -/
  | lockAggregation (i : ι) (now : Nat)
  /-- The prover fails to aggregate them. -/
  | aggregationFailed (i : ι)
  /-- The prover answers with the aggregated proof at time `now`. -/
  | aggregationDone (i : ι) (recursiveProof : String) (now : Nat) (timeReached : Bool)
  /-- A prover's `tryBuildFinalProof` takes the proof ready to verify. -/
  | lockFinalProof (i : ι) (now : Nat) (timeReached : Bool)
  /-- The prover fails to build the final proof. -/
  | finalProofFailed (i : ι)
  /-- The final proof is handed to `sendFinalProof`. -/
  | finalProofSent (i : ι)
  /-- `sendFinalProof` fails to read the final batch. -/
  | finalBatchNotFound
  /-- `sendFinalProof` fails to build or add the verification transaction. -/
  | verificationNotAdded
  /-- The verification transaction is confirmed and handled. -/
  | verified
  /-- The synchronizer writes the tables the aggregator reads: it leaves the
  other tables as `t`, the last verified batch included (an L1 reorg lowers
  it), and deletes the proof rows from batch `n` on when it resets the state
  from `n` (`resetFrom = some n`). -/
  | synchronize (t : ProofTables) (resetFrom : Option Nat)
  /-- `cleanupLockedProofs` deletes the rows taken before `cutoff`. -/
  | cleanupLocked (cutoff : Nat)
  /-- The aggregator restarts: `Start` deletes every row a prover holds. -/
  | restart

/-- `canVerifyProof`: the time to send a final proof has come and no final
proof is being verified. -/
def Sys.canVerifyProof {ι : Type} (s : Sys ι) (timeReached : Bool) : Bool :=
  timeReached && s.sending.isNone

/-- The proof rows the synchronizer leaves: all of them, or those before the
batch it resets the state from. -/
def syncedProofs (proofs : List Proof) : Option Nat → List Proof
  | none => proofs
  | some n => deleteProofsFrom proofs n

variable {ι : Type} [DecidableEq ι]

/-- The system with the rows `proofs` and prover `i` at task `task`. -/
def Sys.set (s : Sys ι) (proofs : List Proof) (i : ι) (task : Task) : Sys ι :=
  { s with tables := { s.tables with proofs := proofs }, tasks := Function.update s.tasks i task }

/-- The system after an event, `none` when the event cannot happen: its
goroutine is not at that point, the queries it runs answer nothing, or it
waits (for a synced state, or for `sendFinalProof` to take a final proof). -/
def Sys.next (cfg : Config) (s : Sys ι) : Event ι → Option (Sys ι)
  | .lockBatch i now =>
    match s.tasks i, tryGenerateBatchProof cfg s.tables now with
    | .idle, .ok (some (proof, proofs)) => some (s.set proofs i (.generating proof))
    | _, _ => none
  | .batchProofFailed i =>
    match s.tasks i with
    | .generating proof =>
      some (s.set (deleteGeneratedProofs s.tables.proofs proof.batchNumber proof.batchNumberFinal) i .idle)
    | _ => none
  | .batchProofDone i recursiveProof timeReached =>
    match s.tasks i with
    | .generating proof =>
      if s.canVerifyProof timeReached && s.tables.lastVerifiedBatch.isNone then none
      else
        let (task, proofs) := tryBuildFinalProofWith s.tables { proof with proof := recursiveProof }
          (s.canVerifyProof timeReached)
        some (s.set proofs i task)
    | _ => none
  | .lockAggregation i now =>
    match s.tasks i, getAndLockProofsToAggregate s.tables now with
    | .idle, some (proof1, proof2, proofs) => some (s.set proofs i (.aggregating proof1 proof2))
    | _, _ => none
  | .aggregationFailed i =>
    match s.tasks i with
    | .aggregating proof1 proof2 => some (s.set (unlockProofsToAggregate s.tables.proofs proof1 proof2) i .idle)
    | _ => none
  | .aggregationDone i recursiveProof now timeReached =>
    match s.tasks i with
    | .aggregating proof1 proof2 =>
      if s.canVerifyProof timeReached && s.tables.lastVerifiedBatch.isNone then none
      else
        match storeAggregatedProof s.tables.proofs proof1 proof2 recursiveProof now with
        | (some proof, proofs) =>
          let (task, proofs) := tryBuildFinalProofWith { s.tables with proofs := proofs } proof
            (s.canVerifyProof timeReached)
          some (s.set proofs i task)
        | (none, proofs) => some (s.set proofs i .idle)
    | _ => none
  | .lockFinalProof i now timeReached =>
    match s.tasks i, s.canVerifyProof timeReached, s.tables.lastVerifiedBatch with
    | .idle, true, some lastVerifiedBatchNum =>
      match getAndLockProofReadyToVerify s.tables lastVerifiedBatchNum now with
      | some (proof, proofs) => some (s.set proofs i (.finalizing proof))
      | none => none
    | _, _, _ => none
  | .finalProofFailed i =>
    match s.tasks i with
    | .finalizing proof =>
      some (s.set (updateGeneratedProof s.tables.proofs { proof with generatingSince := none }) i .idle)
    | _ => none
  | .finalProofSent i =>
    match s.tasks i, s.sending with
    | .finalizing proof, none =>
      some { s with tasks := Function.update s.tasks i .idle, sending := some proof }
    | _, _ => none
  | .finalBatchNotFound =>
    match s.sending with
    | some _ => some { s with sending := none }
    | none => none
  | .verificationNotAdded =>
    match s.sending with
    | some proof =>
      let proofs := updateGeneratedProof s.tables.proofs { proof with generatingSince := none }
      some { s with tables := { s.tables with proofs := proofs }, sending := none }
    | none => none
  | .verified =>
    match s.sending, s.tables.lastVerifiedBatch with
    | some proof, some lastVerifiedBatchNum =>
      match handleMonitoredTxResult s.tables.proofs (buildMonitoredTxID proof.batchNumber proof.batchNumberFinal) with
      | .ok (proofBatchNumberFinal, proofs) =>
        if proofBatchNumberFinal ≤ lastVerifiedBatchNum then
          some { s with tables := { s.tables with proofs := proofs }, sending := none }
        else none
      | .error _ => none
    | _, _ => none
  | .synchronize t resetFrom => some { s with tables := { t with proofs := syncedProofs s.tables.proofs resetFrom } }
  | .cleanupLocked cutoff =>
    some { s with tables := { s.tables with proofs := cleanupLockedProofs s.tables.proofs cutoff } }
  | .restart =>
    some ⟨{ s.tables with proofs := deleteUngeneratedProofs s.tables.proofs }, fun _ => .idle, none⟩

def Sys.Step (cfg : Config) (s s' : Sys ι) : Prop := ∃ e, s.next cfg e = some s'

/-- The state after the events `es`, one after another, or `none` when one of
them cannot happen. -/
def Sys.run (cfg : Config) (s : Sys ι) : List (Event ι) → Option (Sys ι)
  | [] => some s
  | e :: es => (s.next cfg e).bind fun s' => s'.run cfg es

/-- A fresh aggregator on a state database with no proofs yet. -/
def Sys.init (t : ProofTables) : Sys ι := ⟨{ t with proofs := [] }, fun _ => .idle, none⟩

end CdkValidium.Aggregator
