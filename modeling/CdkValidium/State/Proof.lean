import Mathlib
import CdkValidium.Lib.Ranges

/-!
# The proof table of the state database

`state.proof` holds one row per recursive proof, keyed by its first and last
batch (`PRIMARY KEY (batch_num, batch_num_final)`), with the proof text and
`generating_since`, the time a prover took the row (`NULL` when no prover holds
it).  The statements of `pgstatestorage.go` that the aggregator runs on it are
functions of the rows here:

* the queries `getVirtualBatchToProve`, `getProofReadyToVerify`,
  `getProofsToAggregate` and `checkProofContainsCompleteSequences`, which also
  read `state.sequences`, the virtual batches and the last verified batch;
* the writes `addGeneratedProof` (refused on a key already there),
  `updateGeneratedProof` (by key), `deleteGeneratedProofs` (every row inside a
  range), `cleanupGeneratedProofs`, `cleanupLockedProofs` and
  `deleteUngeneratedProofs`.

A query that orders its rows and takes the first gives here the first in list
order among the rows of least order key, which is one order Postgres may give.
Each function has its spec lemma, and the writes their effect on the rows
(`mem_deleteGeneratedProofs`, `key_updateGeneratedProof`, ...).
-/

namespace CdkValidium.State

/-- A row of `state.proof`, with the columns the aggregator's statements read
or write: `Proof` of `state/proof.go`. -/
structure Proof where
  batchNumber : Nat
  batchNumberFinal : Nat
  proof : String
  generatingSince : Option Nat
  deriving DecidableEq, Repr

namespace Proof

/-- The primary key `(batch_num, batch_num_final)`. -/
def key (p : Proof) : Nat × Nat := (p.batchNumber, p.batchNumberFinal)

def batches (p : Proof) : Set Nat := Set.Icc p.batchNumber p.batchNumberFinal

/-- The proof is for batch `b`. -/
def Covers (p : Proof) (b : Nat) : Prop := p.batchNumber ≤ b ∧ b ≤ p.batchNumberFinal

instance (p : Proof) (b : Nat) : Decidable (p.Covers b) := inferInstanceAs (Decidable (_ ∧ _))

def Overlaps (p q : Proof) : Prop := Ranges.Overlaps p.key q.key

instance (p q : Proof) : Decidable (p.Overlaps q) := inferInstanceAs (Decidable (Ranges.Overlaps _ _))

def WF (p : Proof) : Prop := p.batchNumber ≤ p.batchNumberFinal

theorem overlaps_iff {p q : Proof} :
    p.Overlaps q ↔ p.batchNumber ≤ q.batchNumberFinal ∧ q.batchNumber ≤ p.batchNumberFinal := Iff.rfl

theorem Overlaps.symm {p q : Proof} (h : p.Overlaps q) : q.Overlaps p := Ranges.Overlaps.symm h

theorem overlaps_self {p : Proof} (h : p.WF) : p.Overlaps p := Ranges.overlaps_self h

theorem Overlaps.of_key_eq {p q r : Proof} (h : p.Overlaps q) (hk : q.key = r.key) : p.Overlaps r := by
  unfold Overlaps at h ⊢
  rwa [← hk]

theorem Overlaps.of_key_eq_left {p q r : Proof} (h : p.Overlaps r) (hk : p.key = q.key) : q.Overlaps r := by
  unfold Overlaps at h ⊢
  rwa [← hk]

theorem WF.of_key_eq {p q : Proof} (h : p.WF) (hk : p.key = q.key) : q.WF := by
  simp only [key, Prod.mk.injEq] at hk
  unfold WF at h ⊢
  omega

theorem Overlaps.of_inside {q p : Proof} (hq : q.WF) (hlo : p.batchNumber ≤ q.batchNumber)
    (hhi : q.batchNumberFinal ≤ p.batchNumberFinal) : q.Overlaps p :=
  Ranges.Overlaps.of_inside hq hlo hhi

theorem overlaps_join_iff {p1 p2 q r : Proof} (h1 : p1.WF) (h2 : p2.WF) (hq : q.WF)
    (hadj : p1.batchNumberFinal + 1 = p2.batchNumber) (hr : r.key = (p1.batchNumber, p2.batchNumberFinal)) :
    q.Overlaps r ↔ q.Overlaps p1 ∨ q.Overlaps p2 := by
  unfold Overlaps
  rw [hr]
  exact Ranges.overlaps_join_iff (a := p1.key) (b := p2.key) (q := q.key) h1 h2 hq hadj

theorem overlaps_iff_not_disjoint {p q : Proof} (hp : p.WF) (hq : q.WF) :
    p.Overlaps q ↔ ¬ Disjoint p.batches q.batches :=
  Ranges.overlaps_iff_not_disjoint hp hq

theorem disjoint_of_not_overlaps {p q : Proof} (hp : p.WF) (hq : q.WF) (h : ¬ p.Overlaps q) :
    Disjoint p.batches q.batches :=
  not_not.mp (mt (overlaps_iff_not_disjoint hp hq).mpr h)

end Proof

/-- What the aggregator reads of the state database: `state.proof`, the
sequences of `state.sequences` by their first and last batch, the batches with
a row in both `state.batch` and `state.virtual_batch` by number and timestamp,
and the number of the last verified batch, `none` while `state.verified_batch`
is empty. -/
structure ProofTables where
  proofs : List Proof
  sequences : List (Nat × Nat)
  virtualBatches : List (Nat × Nat)
  lastVerifiedBatch : Option Nat

/-- The errors of a write that Postgres refuses: here only an insert whose key
is taken. -/
inductive DbError
  | uniqueViolation
  deriving DecidableEq, Repr

/-! ### Queries -/

/-- `GetVirtualBatchToProve`: of the virtual batches after `lastVerfiedBatchNumber`
that no proof is for, the one of least number (`ORDER BY b.batch_num ASC LIMIT 1`),
with its timestamp. -/
def getVirtualBatchToProve (t : ProofTables) (lastVerfiedBatchNumber : Nat) : Option (Nat × Nat) :=
  (t.virtualBatches.filter fun b =>
    decide (lastVerfiedBatchNumber < b.1) && !t.proofs.any fun p => decide (p.Covers b.1)).argmin (·.1)

/-- `CheckProofContainsCompleteSequences`: a sequence starts at the proof's
first batch and a sequence ends at its last. -/
def checkProofContainsCompleteSequences (sequences : List (Nat × Nat)) (proof : Proof) : Bool :=
  sequences.any (·.1 == proof.batchNumber) && sequences.any (·.2 == proof.batchNumberFinal)

/-- `GetProofReadyToVerify`: a row that starts right after the last verified
batch, that no prover holds, and whose ends are the ends of sequences. -/
def getProofReadyToVerify (t : ProofTables) (lastVerfiedBatchNumber : Nat) : Option Proof :=
  t.proofs.find? fun p => p.batchNumber == lastVerfiedBatchNumber + 1 && p.generatingSince.isNone &&
    checkProofContainsCompleteSequences t.sequences p

/-- Batch `b` lies in sequence `s`. -/
def inSequence (s : Nat × Nat) (b : Nat) : Bool := decide (s.1 ≤ b) && decide (b ≤ s.2)

/-- The join condition of `GetProofsToAggregate`: `p2` starts right after `p1`
ends (`p1.batch_num_final = p2.batch_num - 1`), no prover holds either, and
either one sequence holds all four ends or each end is an end of some sequence.
The condition `proof IS NOT NULL` always holds: the column is written from a
Go string. -/
def aggregable (sequences : List (Nat × Nat)) (p1 p2 : Proof) : Bool :=
  p1.batchNumberFinal + 1 == p2.batchNumber && p1.generatingSince.isNone && p2.generatingSince.isNone &&
    (sequences.any (fun s => inSequence s p1.batchNumber && inSequence s p1.batchNumberFinal &&
        inSequence s p2.batchNumber && inSequence s p2.batchNumberFinal) ||
      (sequences.any (·.1 == p1.batchNumber) && sequences.any (·.2 == p1.batchNumberFinal) &&
        sequences.any (·.1 == p2.batchNumber) && sequences.any (·.2 == p2.batchNumberFinal)))

/-- `GetProofsToAggregate`: of the joined pairs, one of least first batch
(`ORDER BY p1.batch_num ASC LIMIT 1`). -/
def getProofsToAggregate (t : ProofTables) : Option (Proof × Proof) :=
  (t.proofs.flatMap fun p1 => (t.proofs.filter (aggregable t.sequences p1)).map (p1, ·)).argmin
    (·.1.batchNumber)

/-! ### Writes -/

/-- `AddGeneratedProof`: an insert, refused when the key is taken. -/
def addGeneratedProof (proofs : List Proof) (proof : Proof) : Except DbError (List Proof) :=
  if proofs.any (·.key == proof.key) then .error .uniqueViolation else .ok (proofs ++ [proof])

/-- `UpdateGeneratedProof`: the row with the proof's key takes its columns; with
no such row nothing changes. -/
def updateGeneratedProof (proofs : List Proof) (proof : Proof) : List Proof :=
  proofs.map fun q => if q.key = proof.key then proof else q

/-- `DeleteGeneratedProofs`: every row inside `[batchNumber, batchNumberFinal]`. -/
def deleteGeneratedProofs (proofs : List Proof) (batchNumber batchNumberFinal : Nat) : List Proof :=
  proofs.filter fun q => !(decide (batchNumber ≤ q.batchNumber) && decide (q.batchNumberFinal ≤ batchNumberFinal))

/-- `CleanupGeneratedProofs`: every row that ends at or before `batchNumber`. -/
def cleanupGeneratedProofs (proofs : List Proof) (batchNumber : Nat) : List Proof :=
  proofs.filter fun q => !decide (q.batchNumberFinal ≤ batchNumber)

/-- `CleanupLockedProofs`: every row a prover took before `cutoff`
(`generating_since < NOW() - interval`). -/
def cleanupLockedProofs (proofs : List Proof) (cutoff : Nat) : List Proof :=
  proofs.filter fun q => !q.generatingSince.any (· < cutoff)

/-- The rows `ResetForkID` deletes from batch `batchNumber` on
(`deleteProofsSQL`).  The same rows go when `ResetTrustedState` deletes the
batches after `batchNumber - 1`, through the foreign keys of `batch_num` and
`batch_num_final` (`ON DELETE CASCADE`). -/
def deleteProofsFrom (proofs : List Proof) (batchNumber : Nat) : List Proof :=
  proofs.filter fun q => !(decide (batchNumber ≤ q.batchNumber) ||
    (decide (q.batchNumber ≤ batchNumber) && decide (batchNumber ≤ q.batchNumberFinal)))

/-- `DeleteUngeneratedProofs`: every row a prover holds. -/
def deleteUngeneratedProofs (proofs : List Proof) : List Proof :=
  proofs.filter fun q => q.generatingSince.isNone

/-! ### Spec lemmas -/

/-- The batch `GetVirtualBatchToProve` answers is a virtual batch after the
last verified one that no proof is for, and the least such. -/
theorem getVirtualBatchToProve_spec {t : ProofTables} {v : Nat} {b : Nat × Nat}
    (h : getVirtualBatchToProve t v = some b) :
    b ∈ t.virtualBatches ∧ v < b.1 ∧ (∀ p ∈ t.proofs, ¬ p.Covers b.1) ∧
      ∀ c ∈ t.virtualBatches, v < c.1 → (∀ p ∈ t.proofs, ¬ p.Covers c.1) → b.1 ≤ c.1 := by
  have hmem := List.argmin_mem h
  have hb := (List.mem_filter.mp hmem).2
  simp only [Bool.and_eq_true, decide_eq_true_eq, Bool.not_eq_true', List.any_eq_false] at hb
  refine ⟨(List.mem_filter.mp hmem).1, hb.1, fun p hp => by simpa using hb.2 p hp, ?_⟩
  intro c hc hvc hfree
  refine List.le_of_mem_argmin (List.mem_filter.mpr ⟨hc, ?_⟩) h
  simp only [Bool.and_eq_true, decide_eq_true_eq, Bool.not_eq_true', List.any_eq_false]
  exact ⟨hvc, fun p hp => by simpa using hfree p hp⟩

theorem getProofReadyToVerify_spec {t : ProofTables} {v : Nat} {p : Proof}
    (h : getProofReadyToVerify t v = some p) :
    p ∈ t.proofs ∧ p.batchNumber = v + 1 ∧ p.generatingSince = none ∧
      checkProofContainsCompleteSequences t.sequences p = true := by
  have hmem := List.mem_of_find?_eq_some h
  have hp := List.find?_some h
  simp only [Bool.and_eq_true, beq_iff_eq, Option.isNone_iff_eq_none] at hp
  exact ⟨hmem, hp.1.1, hp.1.2, hp.2⟩

theorem aggregable_spec {sequences : List (Nat × Nat)} {p1 p2 : Proof}
    (h : aggregable sequences p1 p2 = true) :
    p1.batchNumberFinal + 1 = p2.batchNumber ∧ p1.generatingSince = none ∧ p2.generatingSince = none := by
  simp only [aggregable, Bool.and_eq_true, beq_iff_eq, Option.isNone_iff_eq_none] at h
  exact ⟨h.1.1.1, h.1.1.2, h.1.2⟩

/-- The pair `GetProofsToAggregate` answers is two rows that pass the join
condition. -/
theorem getProofsToAggregate_spec {t : ProofTables} {p1 p2 : Proof}
    (h : getProofsToAggregate t = some (p1, p2)) :
    p1 ∈ t.proofs ∧ p2 ∈ t.proofs ∧ aggregable t.sequences p1 p2 = true := by
  have hmem := List.argmin_mem h
  rw [List.mem_flatMap] at hmem
  obtain ⟨q, hq, hpair⟩ := hmem
  obtain ⟨q2, hq2, hpq⟩ := List.mem_map.mp hpair
  rw [Prod.mk.injEq] at hpq
  obtain ⟨rfl, rfl⟩ := hpq
  exact ⟨hq, (List.mem_filter.mp hq2).1, (List.mem_filter.mp hq2).2⟩

theorem addGeneratedProof_eq_ok {proofs proofs' : List Proof} {proof : Proof}
    (h : addGeneratedProof proofs proof = .ok proofs') :
    proofs' = proofs ++ [proof] ∧ ∀ q ∈ proofs, q.key ≠ proof.key := by
  unfold addGeneratedProof at h
  split_ifs at h with hany
  rw [Except.ok.injEq] at h
  refine ⟨h.symm, fun q hq hk => hany ?_⟩
  exact List.any_eq_true.mpr ⟨q, hq, by simp [hk]⟩

theorem addGeneratedProof_of_fresh {proofs : List Proof} {proof : Proof}
    (h : ∀ q ∈ proofs, q.key ≠ proof.key) : addGeneratedProof proofs proof = .ok (proofs ++ [proof]) := by
  rw [addGeneratedProof, if_neg]
  simpa using h

theorem key_updateGeneratedProof {proofs : List Proof} {proof q : Proof}
    (hq : q ∈ updateGeneratedProof proofs proof) : ∃ q₀ ∈ proofs, q.key = q₀.key ∧ (q = q₀ ∨ q = proof) := by
  obtain ⟨q₀, hq₀, rfl⟩ := List.mem_map.mp hq
  split_ifs with hk
  · exact ⟨q₀, hq₀, hk.symm, .inr rfl⟩
  · exact ⟨q₀, hq₀, rfl, .inl rfl⟩

theorem exists_key_updateGeneratedProof {proofs : List Proof} {p q₀ : Proof} (hq₀ : q₀ ∈ proofs) :
    ∃ q ∈ updateGeneratedProof proofs p, q.key = q₀.key := by
  refine ⟨if q₀.key = p.key then p else q₀, List.mem_map_of_mem hq₀, ?_⟩
  split_ifs with hk
  · exact hk.symm
  · rfl

theorem mem_updateGeneratedProof_of_key_ne {proofs : List Proof} {p q : Proof} (hq : q ∈ proofs)
    (hk : q.key ≠ p.key) : q ∈ updateGeneratedProof proofs p := by
  have h := List.mem_map_of_mem (f := fun q => if q.key = p.key then p else q) hq
  rwa [if_neg hk] at h

theorem mem_updateGeneratedProof_self {proofs : List Proof} {p q : Proof} (hq : q ∈ proofs)
    (hk : q.key = p.key) : p ∈ updateGeneratedProof proofs p := by
  have h := List.mem_map_of_mem (f := fun q => if q.key = p.key then p else q) hq
  rwa [if_pos hk] at h

theorem mem_deleteGeneratedProofs {proofs : List Proof} {a b : Nat} {q : Proof} :
    q ∈ deleteGeneratedProofs proofs a b ↔ q ∈ proofs ∧ (q.batchNumber < a ∨ b < q.batchNumberFinal) := by
  simp [deleteGeneratedProofs]

theorem mem_cleanupGeneratedProofs {proofs : List Proof} {b : Nat} {q : Proof} :
    q ∈ cleanupGeneratedProofs proofs b ↔ q ∈ proofs ∧ b < q.batchNumberFinal := by
  simp [cleanupGeneratedProofs]

end CdkValidium.State
