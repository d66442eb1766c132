import CdkValidium.Aggregator.Aggregator

/-!
# No batch in two proofs

The provers of one aggregator work at once on `state.proof`: each takes rows,
waits for its prover, and writes what it got.  Here is what keeps their rows
apart.  `Holds proofs verified held` says of the rows and of what every holder
(a prover goroutine or `sendFinalProof`) holds: the rows are for disjoint
batch ranges; only a taken row of its own key is for any batch of a held row;
that row is still stored unless every batch of the held row is verified; and
two holders hold rows for disjoint batches.  Every write of the aggregator
keeps it, with one lemma per kind of write (`Holds.updateGeneratedProof`,
`Holds.eraseOwn`, `Holds.append`, `Holds.hold`, `Holds.filter`, ...), and so
does every step of the system that pulls no row from under a holder
(`Event.Spares`, `Sys.Inv.next`).

Two kinds of step do.  `cleanupLockedProofs` deletes rows that provers still
hold.  The synchronizer, when it resets the state (`ResetForkID`, or
`ResetTrustedState` through the foreign keys of `state.proof`), deletes the
rows from a batch on whoever holds them, and an L1 reorg lowers the last
verified batch below rows already cleaned up.  Every state a run without such
steps reaches from a fresh database keeps the rows for disjoint batches, and
no two provers hold rows for a common batch (`proofs_disjoint_of_reachable`).
With them, a prover that aggregates two proofs whose rows were deleted under it
stores its proof beside one another prover has made for some of the same
batches (`overlap_of_cleanupLocked`), and after a reset two provers prove one
batch (`two_provers_of_resetFrom`).
-/

namespace CdkValidium.Aggregator

open State

section Holds

variable {κ : Type}

/-- The rows `proofs` and the rows `held k` of every holder `k`, with the
batches up to `verified` verified. -/
structure Holds (proofs : List Proof) (verified : Nat) (held : κ → List Proof) : Prop where
  wf : ∀ q ∈ proofs, q.WF
  disjoint : proofs.Pairwise fun p q => ¬ p.Overlaps q
  held_wf : ∀ k, ∀ r ∈ held k, r.WF
  alone : ∀ k, ∀ r ∈ held k, ∀ q ∈ proofs, q.Overlaps r → q.key = r.key ∧ q.generatingSince.isSome
  stored : ∀ k, ∀ r ∈ held k, (∃ q ∈ proofs, q.key = r.key) ∨ r.batchNumberFinal ≤ verified
  apart : ∀ k k', k ≠ k' → ∀ r ∈ held k, ∀ r' ∈ held k', ¬ r.Overlaps r'

variable {proofs : List Proof} {verified : Nat} {held : κ → List Proof}

theorem Holds.eq_of_overlaps (h : Holds proofs verified held) {p q : Proof} (hp : p ∈ proofs)
    (hq : q ∈ proofs) (hov : p.Overlaps q) : p = q := by
  by_contra hne
  have : Std.Symm fun p q : Proof => ¬ p.Overlaps q := ⟨fun _ _ hab hba => hab hba.symm⟩
  exact h.disjoint.forall hp hq hne hov

theorem Holds.nil (verified : Nat) : Holds [] verified fun _ : κ => [] where
  wf _ h := by cases h
  disjoint := .nil
  held_wf _ _ h := by cases h
  alone _ _ h := by cases h
  stored _ _ h := by cases h
  apart _ _ _ _ h := by cases h

theorem Holds.free_of_unlocked (h : Holds proofs verified held) {q : Proof} (hq : q ∈ proofs)
    (hunl : q.generatingSince = none) : ∀ k, ∀ r ∈ held k, ¬ q.Overlaps r := by
  intro k r hr hov
  have hlock := (h.alone k r hr q hq hov).2
  rw [hunl] at hlock
  cases hlock

theorem Holds.reverify (h : Holds proofs verified held) {verified' : Nat}
    (hv : ∀ k, ∀ r ∈ held k, r.batchNumberFinal ≤ verified → r.batchNumberFinal ≤ verified') :
    Holds proofs verified' held where
  wf := h.wf
  disjoint := h.disjoint
  held_wf := h.held_wf
  alone := h.alone
  stored k r hr := (h.stored k r hr).imp id (hv k r hr)
  apart := h.apart

theorem Holds.weaken (h : Holds proofs verified held) {held' : κ → List Proof}
    (hsub : ∀ k, ∀ r' ∈ held' k, ∃ r ∈ held k, r.key = r'.key) : Holds proofs verified held' where
  wf := h.wf
  disjoint := h.disjoint
  held_wf k r' hr' := by
    obtain ⟨r, hr, hk⟩ := hsub k r' hr'
    exact (h.held_wf k r hr).of_key_eq hk
  alone k r' hr' q hq hov := by
    obtain ⟨r, hr, hk⟩ := hsub k r' hr'
    have halone := h.alone k r hr q hq (hov.of_key_eq hk.symm)
    exact ⟨halone.1.trans hk, halone.2⟩
  stored k r' hr' := by
    obtain ⟨r, hr, hk⟩ := hsub k r' hr'
    have hfinal : r.batchNumberFinal = r'.batchNumberFinal := congrArg Prod.snd hk
    exact (h.stored k r hr).imp (fun ⟨q, hq, hqk⟩ => ⟨q, hq, hqk.trans hk⟩) fun hle => hfinal ▸ hle
  apart k k' hne r₁ hr₁ r₂ hr₂ hov := by
    obtain ⟨s₁, hs₁, hk₁⟩ := hsub k r₁ hr₁
    obtain ⟨s₂, hs₂, hk₂⟩ := hsub k' r₂ hr₂
    exact h.apart k k' hne s₁ hs₁ s₂ hs₂ ((hov.of_key_eq_left hk₁.symm).of_key_eq hk₂.symm)

theorem Holds.release [DecidableEq κ] (h : Holds proofs verified held) (k : κ) :
    Holds proofs verified (Function.update held k []) := by
  apply h.weaken
  intro k' r hr
  by_cases hk : k' = k
  · subst hk
    simp at hr
  · rw [Function.update_of_ne hk] at hr
    exact ⟨r, hr, rfl⟩

theorem Holds.updateGeneratedProof (h : Holds proofs verified held) {p : Proof}
    (hfree : ∀ k, ∀ r ∈ held k, ¬ p.Overlaps r) :
    Holds (updateGeneratedProof proofs p) verified held where
  wf q hq := by
    obtain ⟨q₀, hq₀, hk, -⟩ := key_updateGeneratedProof hq
    exact (h.wf q₀ hq₀).of_key_eq hk.symm
  disjoint := by
    unfold State.updateGeneratedProof
    rw [List.pairwise_map]
    refine h.disjoint.imp fun {a b} hab hov => hab ?_
    have hka : (if a.key = p.key then p else a).key = a.key := by split_ifs with hk <;> simp [hk]
    have hkb : (if b.key = p.key then p else b).key = b.key := by split_ifs with hk <;> simp [hk]
    exact (hov.of_key_eq_left hka).of_key_eq hkb
  held_wf := h.held_wf
  alone k r hr q hq hov := by
    obtain ⟨q₀, hq₀, hk, rfl | rfl⟩ := key_updateGeneratedProof hq
    · exact h.alone k r hr q hq₀ hov
    · exact absurd hov (hfree k r hr)
  stored k r hr := (h.stored k r hr).imp (fun ⟨q₀, hq₀, hk⟩ => by
      obtain ⟨q, hq, hqk⟩ := exists_key_updateGeneratedProof (p := p) hq₀
      exact ⟨q, hq, hqk.trans hk⟩) id
  apart := h.apart

theorem Holds.filter (h : Holds proofs verified held) (keep : Proof → Bool)
    (hkeep : ∀ k, ∀ r ∈ held k, ∀ q ∈ proofs, q.key = r.key → keep q = false → r.batchNumberFinal ≤ verified) :
    Holds (proofs.filter keep) verified held where
  wf q hq := h.wf q (List.mem_filter.mp hq).1
  disjoint := h.disjoint.filter keep
  held_wf := h.held_wf
  alone k r hr q hq hov := h.alone k r hr q (List.mem_filter.mp hq).1 hov
  stored k r hr := by
    rcases h.stored k r hr with ⟨q, hq, hk⟩ | hle
    · cases hq' : keep q
      · exact .inr (hkeep k r hr q hq hk hq')
      · exact .inl ⟨q, List.mem_filter.mpr ⟨hq, hq'⟩, hk⟩
    · exact .inr hle
  apart := h.apart

theorem Holds.eraseOwn [DecidableEq κ] (h : Holds proofs verified held) (k : κ) (keep : Proof → Bool)
    (hown : ∀ q ∈ proofs, keep q = false → ∃ r ∈ held k, q.Overlaps r) :
    Holds (proofs.filter keep) verified (Function.update held k []) := by
  apply (h.release k).filter keep
  intro k' r' hr' q hq hk hq'
  by_cases hkk : k' = k
  · subst hkk
    simp at hr'
  -- the row belongs to `k`, so it shares no batch with a row of `k'`
  rw [Function.update_of_ne hkk] at hr'
  obtain ⟨r, hr, hov⟩ := hown q hq hq'
  exact absurd (hov.of_key_eq_left hk) (h.apart k' k hkk r' hr' r hr)

theorem Holds.append (h : Holds proofs verified held) {p : Proof} (hwf : p.WF)
    (hfree : ∀ q ∈ proofs, ¬ q.Overlaps p) (hheld : ∀ k, ∀ r ∈ held k, ¬ p.Overlaps r) :
    Holds (proofs ++ [p]) verified held where
  wf q hq := by
    rcases List.mem_append.mp hq with hq | hq
    · exact h.wf q hq
    · rw [List.mem_singleton.mp hq]
      exact hwf
  disjoint := by
    rw [List.pairwise_append]
    refine ⟨h.disjoint, List.pairwise_singleton _ _, fun a ha b hb => ?_⟩
    rw [List.mem_singleton.mp hb]
    exact hfree a ha
  held_wf := h.held_wf
  alone k r hr q hq hov := by
    rcases List.mem_append.mp hq with hq | hq
    · exact h.alone k r hr q hq hov
    · rw [List.mem_singleton.mp hq] at hov
      exact absurd hov (hheld k r hr)
  stored k r hr := (h.stored k r hr).imp (fun ⟨q, hq, hk⟩ => ⟨q, List.mem_append_left _ hq, hk⟩) id
  apart := h.apart

theorem Holds.hold [DecidableEq κ] (h : Holds proofs verified held) (k : κ) {p : Proof} (hp : p ∈ proofs)
    (hlock : p.generatingSince.isSome) (hfree : ∀ k', ∀ r ∈ held k', ¬ p.Overlaps r) :
    Holds proofs verified (Function.update held k (p :: held k)) := by
  have hmem : ∀ k', ∀ r ∈ Function.update held k (p :: held k) k', (k' = k ∧ r = p) ∨ r ∈ held k' := by
    intro k' r hr
    by_cases hk : k' = k
    · subst hk
      rw [Function.update_self] at hr
      rcases List.mem_cons.mp hr with rfl | hr
      · exact .inl ⟨rfl, rfl⟩
      · exact .inr hr
    · rw [Function.update_of_ne hk] at hr
      exact .inr hr
  refine ⟨h.wf, h.disjoint, ?_, ?_, ?_, ?_⟩
  · intro k' r hr
    rcases hmem k' r hr with ⟨-, hrp⟩ | hr
    · exact hrp ▸ h.wf p hp
    · exact h.held_wf k' r hr
  · intro k' r hr q hq hov
    rcases hmem k' r hr with ⟨-, hrp⟩ | hr
    · subst hrp
      rw [h.eq_of_overlaps hq hp hov]
      exact ⟨rfl, hlock⟩
    · exact h.alone k' r hr q hq hov
  · intro k' r hr
    rcases hmem k' r hr with ⟨-, hrp⟩ | hr
    · exact .inl ⟨p, hp, hrp ▸ rfl⟩
    · exact h.stored k' r hr
  · intro k₁ k₂ hne r₁ hr₁ r₂ hr₂
    rcases hmem k₁ r₁ hr₁ with ⟨hk₁, hp₁⟩ | hr₁ <;> rcases hmem k₂ r₂ hr₂ with ⟨hk₂, hp₂⟩ | hr₂
    · exact absurd (hk₁.trans hk₂.symm) hne
    · exact hp₁ ▸ hfree k₂ r₂ hr₂
    · exact hp₂ ▸ fun hov => hfree k₁ r₁ hr₁ hov.symm
    · exact h.apart k₁ k₂ hne r₁ hr₁ r₂ hr₂

theorem Holds.move [DecidableEq κ] (h : Holds proofs verified held) {k k' : κ} (hne : k ≠ k') (hk' : held k' = []) :
    Holds proofs verified (Function.update (Function.update held k []) k' (held k)) := by
  have hmem : ∀ j, ∀ r ∈ Function.update (Function.update held k []) k' (held k) j,
      (j = k' ∧ r ∈ held k) ∨ (j ≠ k ∧ j ≠ k' ∧ r ∈ held j) := by
    intro j r hr
    by_cases hj' : j = k'
    · subst hj'
      rw [Function.update_self] at hr
      exact .inl ⟨rfl, hr⟩
    · rw [Function.update_of_ne hj'] at hr
      by_cases hj : j = k
      · subst hj
        simp at hr
      · rw [Function.update_of_ne hj] at hr
        exact .inr ⟨hj, hj', hr⟩
  have hsrc : ∀ j, ∀ r ∈ Function.update (Function.update held k []) k' (held k) j, ∃ j₀, r ∈ held j₀ := by
    intro j r hr
    rcases hmem j r hr with ⟨-, hr⟩ | ⟨-, -, hr⟩
    · exact ⟨k, hr⟩
    · exact ⟨j, hr⟩
  refine ⟨h.wf, h.disjoint, ?_, ?_, ?_, ?_⟩
  · intro j r hr
    obtain ⟨j₀, hr₀⟩ := hsrc j r hr
    exact h.held_wf j₀ r hr₀
  · intro j r hr
    obtain ⟨j₀, hr₀⟩ := hsrc j r hr
    exact h.alone j₀ r hr₀
  · intro j r hr
    obtain ⟨j₀, hr₀⟩ := hsrc j r hr
    exact h.stored j₀ r hr₀
  · intro j₁ j₂ hne' r₁ hr₁ r₂ hr₂
    rcases hmem j₁ r₁ hr₁ with ⟨hj₁, hs₁⟩ | ⟨hj₁, -, hs₁⟩ <;>
      rcases hmem j₂ r₂ hr₂ with ⟨hj₂, hs₂⟩ | ⟨hj₂, -, hs₂⟩
    · exact absurd (hj₁.trans hj₂.symm) hne'
    · exact h.apart k j₂ (Ne.symm hj₂) r₁ hs₁ r₂ hs₂
    · exact h.apart j₁ k hj₁ r₁ hs₁ r₂ hs₂
    · exact h.apart j₁ j₂ hne' r₁ hs₁ r₂ hs₂

theorem Holds.free_of_released [DecidableEq κ] (h : Holds proofs verified held) {k : κ} {p₀ p : Proof}
    (hp₀ : p₀ ∈ held k) (hkey : p₀.key = p.key) : ∀ k', ∀ r ∈ Function.update held k [] k', ¬ p.Overlaps r := by
  intro k' r hr hov
  by_cases hkk : k' = k
  · subst hkk
    simp at hr
  · rw [Function.update_of_ne hkk] at hr
    exact h.apart k k' (Ne.symm hkk) p₀ hp₀ r hr (hov.of_key_eq_left hkey.symm)

theorem Holds.letGo [DecidableEq κ] (h : Holds proofs verified held) {k : κ} {p₀ p : Proof} (hk : held k = [p₀])
    (hkey : p₀.key = p.key) {proofs' : List Proof}
    (hproofs : proofs' = proofs ∨ proofs' = deleteGeneratedProofs proofs p.batchNumber p.batchNumberFinal) :
    Holds (State.updateGeneratedProof proofs' { p with generatingSince := none }) verified
      (Function.update held k []) := by
  have h' : Holds proofs' verified (Function.update held k []) := by
    rcases hproofs with rfl | rfl
    · exact h.release k
    · apply h.eraseOwn k
      intro q hq hdel
      have hinside : p.batchNumber ≤ q.batchNumber ∧ q.batchNumberFinal ≤ p.batchNumberFinal := by
        simpa using hdel
      refine ⟨p₀, by simp [hk], (Proof.Overlaps.of_inside (h.wf q hq) hinside.1 hinside.2).of_key_eq hkey.symm⟩
  exact h'.updateGeneratedProof (h.free_of_released (by simp [hk]) hkey)

end Holds

/-! ### The writes of the aggregator -/

theorem validateEligibleFinalProof_cases {t : ProofTables} {proof : Proof} {v : Nat} :
    (validateEligibleFinalProof t proof v).2 = t.proofs ∨
      ((validateEligibleFinalProof t proof v).1 = false ∧
        (validateEligibleFinalProof t proof v).2 =
          deleteGeneratedProofs t.proofs proof.batchNumber proof.batchNumberFinal) := by
  simp only [validateEligibleFinalProof]
  split_ifs <;> simp

section Writes

variable {κ : Type} [DecidableEq κ] {held : κ → List Proof} {verified : Nat}

theorem Holds.tryBuildFinalProofWith {t : ProofTables} (h : Holds t.proofs verified held) {k : κ}
    {p₀ p : Proof} (hk : held k = [p₀]) (hkey : p₀.key = p.key) (canVerifyProof : Bool) :
    Holds (Aggregator.tryBuildFinalProofWith t p canVerifyProof).2 verified
      (Function.update held k (Aggregator.tryBuildFinalProofWith t p canVerifyProof).1.held) := by
  unfold Aggregator.tryBuildFinalProofWith
  -- the rows after `validateEligibleFinalProof` are the rows, or the rows without those inside `p`
  have hcases : ∀ b proofs', (b, proofs') = (if canVerifyProof then validateEligibleFinalProof t p (t.lastVerifiedBatch.getD 0)
      else (false, t.proofs)) → proofs' = t.proofs ∨ (b = false ∧
        proofs' = deleteGeneratedProofs t.proofs p.batchNumber p.batchNumberFinal) := by
    intro b proofs' he
    split_ifs at he
    · rw [Prod.ext_iff] at he
      obtain ⟨rfl, rfl⟩ := he
      exact validateEligibleFinalProof_cases
    · rw [Prod.ext_iff] at he
      exact .inl he.2
  rcases hv : (if canVerifyProof then validateEligibleFinalProof t p (t.lastVerifiedBatch.getD 0)
      else (false, t.proofs)) with ⟨b, proofs'⟩
  dsimp only
  have hc := hcases b proofs' hv.symm
  cases b with
  | false =>
    rw [if_neg Bool.false_ne_true]
    exact h.letGo hk hkey (hc.imp id And.right)
  | true =>
    rw [if_pos rfl]
    rcases hc with rfl | ⟨hb, -⟩
    · apply h.weaken
      intro k' r hr
      by_cases hkk : k' = k
      · subst hkk
        rw [Function.update_self] at hr
        simp only [Task.held, List.mem_singleton] at hr
        exact ⟨p₀, by simp [hk], hr ▸ hkey⟩
      · rw [Function.update_of_ne hkk] at hr
        exact ⟨r, hr, rfl⟩
    · cases hb

end Writes

/-! ### The system -/

variable {ι : Type} [DecidableEq ι]

/-- The rows a holder holds: a prover goroutine its task's, `sendFinalProof`
(`none`) the proof it verifies. -/
def Sys.held (s : Sys ι) : Option ι → List Proof
  | none => s.sending.toList
  | some i => (s.tasks i).held

def Sys.verifiedUpTo (s : Sys ι) : Nat := s.tables.lastVerifiedBatch.getD 0

/-- An event that pulls no row from under a holder: no `cleanupLockedProofs`
round, and a synchronizer write whose reset starts after every held row and
that leaves verified every held row it found verified. -/
def Event.Spares (s : Sys ι) : Event ι → Prop
  | .synchronize t resetFrom => ∀ k, ∀ r ∈ s.held k,
      (∀ n ∈ resetFrom, r.batchNumberFinal < n) ∧
        (r.batchNumberFinal ≤ s.verifiedUpTo → r.batchNumberFinal ≤ t.lastVerifiedBatch.getD 0)
  | .cleanupLocked _ => False
  | _ => True

def Sys.SparingStep (cfg : Config) (s s' : Sys ι) : Prop := ∃ e : Event ι, e.Spares s ∧ s.next cfg e = some s'

structure Sys.Inv (s : Sys ι) : Prop where
  holds : Holds s.tables.proofs s.verifiedUpTo s.held
  adjacent : ∀ i p1 p2, s.tasks i = .aggregating p1 p2 → p1.batchNumberFinal + 1 = p2.batchNumber

theorem Sys.held_set (s : Sys ι) (proofs : List Proof) (i : ι) (task : Task) :
    (s.set proofs i task).held = Function.update s.held (some i) task.held := by
  funext k
  cases k with
  | none => rfl
  | some j =>
    by_cases hj : j = i
    · subst hj
      simp [Sys.held, Sys.set]
    · simp [Sys.held, Sys.set, hj]

@[simp] theorem Sys.verifiedUpTo_set (s : Sys ι) (proofs : List Proof) (i : ι) (task : Task) :
    (s.set proofs i task).verifiedUpTo = s.verifiedUpTo := rfl

@[simp] theorem Sys.tables_set (s : Sys ι) (proofs : List Proof) (i : ι) (task : Task) :
    (s.set proofs i task).tables = { s.tables with proofs := proofs } := rfl

theorem Sys.tasks_set (s : Sys ι) (proofs : List Proof) (i : ι) (task : Task) :
    (s.set proofs i task).tasks = Function.update s.tasks i task := rfl

theorem Sys.Inv.set {s : Sys ι} (hinv : s.Inv) {proofs : List Proof} {i : ι} {task : Task}
    (hholds : Holds proofs s.verifiedUpTo (Function.update s.held (some i) task.held))
    (htask : ∀ p1 p2, task = .aggregating p1 p2 → p1.batchNumberFinal + 1 = p2.batchNumber) :
    (s.set proofs i task).Inv := by
  refine ⟨by rwa [Sys.held_set, Sys.verifiedUpTo_set], ?_⟩
  intro j p1 p2 hj
  rw [Sys.tasks_set] at hj
  by_cases hji : j = i
  · subst hji
    rw [Function.update_self] at hj
    exact htask p1 p2 hj
  · rw [Function.update_of_ne hji] at hj
    exact hinv.adjacent j p1 p2 hj

omit [DecidableEq ι] in
theorem Sys.held_of_task {s : Sys ι} {i : ι} {task : Task} (h : s.tasks i = task) :
    s.held (some i) = task.held := by
  simp [Sys.held, h]

/-! ### Each step keeps the invariant -/

section Steps

variable {cfg : Config} {s s' : Sys ι}

theorem Sys.Inv.lockBatch (hinv : s.Inv) {i : ι} {now : Nat} (h : s.next cfg (.lockBatch i now) = some s') :
    s'.Inv := by
  simp only [Sys.next] at h
  split at h
  · rename_i proof proofs htask hgen
    rw [Option.some.injEq] at h
    subst h
    obtain ⟨v, n, ts, hv, hvb, rfl, rfl⟩ := getAndLockBatchToProve_eq_ok (tryGenerateBatchProof_eq_ok hgen)
    obtain ⟨-, hvn, hcover, -⟩ := getVirtualBatchToProve_spec hvb
    have hverified : s.verifiedUpTo = v := by simp [Sys.verifiedUpTo, hv]
    have hfree : ∀ q ∈ s.tables.proofs, ¬ q.Overlaps ⟨n, n, "", some now⟩ := by
      intro q hq hov
      rw [Proof.overlaps_iff] at hov
      exact hcover q hq ⟨hov.1, hov.2⟩
    -- the new row's batch is after every verified batch, so a held row for it is stored
    have hnew : ∀ k, ∀ r ∈ s.held k, ¬ (⟨n, n, "", some now⟩ : Proof).Overlaps r := by
      intro k r hr hov
      rcases hinv.holds.stored k r hr with ⟨q, hq, hk⟩ | hle
      · exact hfree q hq (hov.symm.of_key_eq_left hk.symm)
      · rw [Proof.overlaps_iff] at hov
        dsimp only at hov
        omega
    have hholds := (hinv.holds.append (p := ⟨n, n, "", some now⟩) (le_refl n) hfree hnew).hold (some i)
      (List.mem_append_right _ (List.mem_singleton_self _)) rfl hnew
    rw [Sys.held_of_task htask] at hholds
    exact hinv.set hholds fun _ _ h => by cases h
  · cases h

theorem Sys.Inv.batchProofFailed (hinv : s.Inv) {i : ι} (h : s.next cfg (.batchProofFailed i) = some s') :
    s'.Inv := by
  simp only [Sys.next] at h
  split at h
  · rename_i proof htask
    rw [Option.some.injEq] at h
    subst h
    apply hinv.set _ fun _ _ h => by cases h
    apply hinv.holds.eraseOwn (some i)
    intro q hq hdel
    have hinside : proof.batchNumber ≤ q.batchNumber ∧ q.batchNumberFinal ≤ proof.batchNumberFinal := by
      simpa using hdel
    exact ⟨proof, by simp [Sys.held_of_task htask, Task.held],
      Proof.Overlaps.of_inside (hinv.holds.wf q hq) hinside.1 hinside.2⟩
  · cases h

theorem tryBuildFinalProofWith_task (t : ProofTables) (proof : Proof) (canVerifyProof : Bool) :
    (tryBuildFinalProofWith t proof canVerifyProof).1 = .finalizing proof ∨
      (tryBuildFinalProofWith t proof canVerifyProof).1 = .idle := by
  unfold tryBuildFinalProofWith
  split
  split_ifs
  · exact .inl rfl
  · exact .inr rfl

theorem Sys.Inv.set_tryBuildFinalProofWith (hinv : s.Inv) {i : ι} {t : ProofTables} {p₀ p : Proof}
    (hholds : Holds t.proofs s.verifiedUpTo (Function.update s.held (some i) [p₀])) (hkey : p₀.key = p.key)
    (canVerifyProof : Bool) :
    (s.set (tryBuildFinalProofWith t p canVerifyProof).2 i (tryBuildFinalProofWith t p canVerifyProof).1).Inv := by
  apply hinv.set
  · have h := hholds.tryBuildFinalProofWith (k := some i) (Function.update_self _ _ _) hkey canVerifyProof
    rwa [Function.update_idem] at h
  · intro p1 p2 htask
    rcases tryBuildFinalProofWith_task t p canVerifyProof with h | h <;> rw [h] at htask <;> cases htask

theorem Sys.Inv.batchProofDone (hinv : s.Inv) {i : ι} {recursiveProof : String} {timeReached : Bool}
    (h : s.next cfg (.batchProofDone i recursiveProof timeReached) = some s') : s'.Inv := by
  simp only [Sys.next] at h
  split at h
  · rename_i proof htask
    split_ifs at h
    rw [Option.some.injEq] at h
    subst h
    have hheld : Function.update s.held (some i) [proof] = s.held :=
      Function.update_eq_self_iff.mpr (Sys.held_of_task htask).symm
    have hholds : Holds s.tables.proofs s.verifiedUpTo (Function.update s.held (some i) [proof]) := by
      rw [hheld]
      exact hinv.holds
    exact hinv.set_tryBuildFinalProofWith (p := { proof with proof := recursiveProof }) hholds rfl _
  · cases h

theorem Sys.Inv.lockAggregation (hinv : s.Inv) {i : ι} {now : Nat}
    (h : s.next cfg (.lockAggregation i now) = some s') : s'.Inv := by
  simp only [Sys.next] at h
  split at h
  · rename_i proof1 proof2 proofs htask hlock
    rw [Option.some.injEq] at h
    subst h
    obtain ⟨q1, q2, hq, rfl, rfl, rfl⟩ := getAndLockProofsToAggregate_eq_some hlock
    obtain ⟨hq1, hq2, hagg⟩ := getProofsToAggregate_spec hq
    obtain ⟨hadj, hun1, hun2⟩ := aggregable_spec hagg
    have hwf1 := hinv.holds.wf q1 hq1
    have hkey : q1.key ≠ q2.key := by
      simp only [Proof.key, ne_eq, Prod.mk.injEq]
      unfold Proof.WF at hwf1
      omega
    have hfree1 := hinv.holds.free_of_unlocked hq1 hun1
    have hfree2 := hinv.holds.free_of_unlocked hq2 hun2
    -- take both rows, the second first, so that each is then held by the prover
    have h₁ := hinv.holds.updateGeneratedProof (p := { q1 with generatingSince := some now })
      fun k r hr hov => hfree1 k r hr (hov.of_key_eq_left rfl)
    have hq2' := mem_updateGeneratedProof_of_key_ne (p := { q1 with generatingSince := some now }) hq2
      (Ne.symm hkey)
    have h₂ := h₁.updateGeneratedProof (p := { q2 with generatingSince := some now })
      fun k r hr hov => hfree2 k r hr (hov.of_key_eq_left rfl)
    have hp2 := mem_updateGeneratedProof_self (p := { q2 with generatingSince := some now }) hq2' rfl
    have hp1 := mem_updateGeneratedProof_of_key_ne (p := { q2 with generatingSince := some now })
      (mem_updateGeneratedProof_self (p := { q1 with generatingSince := some now }) hq1 rfl) hkey
    have h₃ := h₂.hold (some i) hp2 rfl fun k r hr hov => hfree2 k r hr (hov.of_key_eq_left rfl)
    have h₄ := h₃.hold (some i) hp1 rfl (by
      intro k r hr hov
      by_cases hk : k = some i
      · subst hk
        rw [Function.update_self, Sys.held_of_task htask] at hr
        simp only [Task.held, List.mem_singleton] at hr
        subst hr
        rw [Proof.overlaps_iff] at hov
        dsimp only at hov
        omega
      · rw [Function.update_of_ne hk] at hr
        exact hfree1 k r hr (hov.of_key_eq_left rfl))
    rw [Function.update_self, Function.update_idem, Sys.held_of_task htask] at h₄
    exact hinv.set h₄ fun p1 p2 h => by
      cases h
      exact hadj
  · cases h

theorem Sys.Inv.aggregationFailed (hinv : s.Inv) {i : ι} (h : s.next cfg (.aggregationFailed i) = some s') :
    s'.Inv := by
  simp only [Sys.next] at h
  split at h
  · rename_i proof1 proof2 htask
    rw [Option.some.injEq] at h
    subst h
    apply hinv.set _ fun _ _ h => by cases h
    have hp1 : proof1 ∈ s.held (some i) := by simp [Sys.held_of_task htask, Task.held]
    have hp2 : proof2 ∈ s.held (some i) := by simp [Sys.held_of_task htask, Task.held]
    have h₁ := (hinv.holds.release (some i)).updateGeneratedProof
      (hinv.holds.free_of_released (p := { proof1 with generatingSince := none }) hp1 rfl)
    exact h₁.updateGeneratedProof (hinv.holds.free_of_released (p := { proof2 with generatingSince := none }) hp2 rfl)
  · cases h

theorem Sys.Inv.aggregationDone (hinv : s.Inv) {i : ι} {recursiveProof : String} {now : Nat}
    {timeReached : Bool} (h : s.next cfg (.aggregationDone i recursiveProof now timeReached) = some s') :
    s'.Inv := by
  simp only [Sys.next] at h
  split at h
  · rename_i proof1 proof2 htask
    split_ifs at h
    rw [storeAggregatedProof_eq] at h
    dsimp only at h
    rw [Option.some.injEq] at h
    subst h
    have hp1 : proof1 ∈ s.held (some i) := by simp [Sys.held_of_task htask, Task.held]
    have hp2 : proof2 ∈ s.held (some i) := by simp [Sys.held_of_task htask, Task.held]
    have hwf1 := hinv.holds.held_wf _ _ hp1
    have hwf2 := hinv.holds.held_wf _ _ hp2
    have hadj := hinv.adjacent i proof1 proof2 htask
    set R : Proof := ⟨proof1.batchNumber, proof2.batchNumberFinal, recursiveProof, some now⟩ with hR
    have hRwf : R.WF := by
      show proof1.batchNumber ≤ proof2.batchNumberFinal
      unfold Proof.WF at hwf1 hwf2
      omega
    have hjoin : ∀ q : Proof, q.WF → (q.Overlaps R ↔ q.Overlaps proof1 ∨ q.Overlaps proof2) :=
      fun q hq => Proof.overlaps_join_iff hwf1 hwf2 hq hadj rfl
    -- what the prover deletes lies inside the two proofs it holds
    have h₁ := hinv.holds.eraseOwn (some i)
      (fun q => !(decide (proof1.batchNumber ≤ q.batchNumber) && decide (q.batchNumberFinal ≤ proof2.batchNumberFinal)))
      (by
        intro q hq hdel
        have hinside : proof1.batchNumber ≤ q.batchNumber ∧ q.batchNumberFinal ≤ proof2.batchNumberFinal := by
          simpa using hdel
        rcases (hjoin q (hinv.holds.wf q hq)).mp
          (Proof.Overlaps.of_inside (hinv.holds.wf q hq) hinside.1 hinside.2) with hov | hov
        · exact ⟨proof1, hp1, hov⟩
        · exact ⟨proof2, hp2, hov⟩)
    -- a row left after the delete shares no batch with the aggregated proof
    have hfreeR : ∀ q ∈ deleteGeneratedProofs s.tables.proofs proof1.batchNumber proof2.batchNumberFinal,
        ¬ q.Overlaps R := by
      intro q hq hov
      obtain ⟨hq, hout⟩ := mem_deleteGeneratedProofs.mp hq
      have hkey : q.key = proof1.key ∨ q.key = proof2.key := by
        rcases (hjoin q (hinv.holds.wf q hq)).mp hov with hov | hov
        · exact .inl (hinv.holds.alone _ _ hp1 q hq hov).1
        · exact .inr (hinv.holds.alone _ _ hp2 q hq hov).1
      unfold Proof.WF at hwf1 hwf2
      rcases hkey with hkey | hkey <;> simp only [Proof.key, Prod.mk.injEq] at hkey <;> omega
    have hheldR : ∀ k, ∀ r ∈ Function.update s.held (some i) [] k, ¬ R.Overlaps r := by
      intro k r hr hov
      by_cases hk : k = some i
      · subst hk
        simp at hr
      · rw [Function.update_of_ne hk] at hr
        rcases (hjoin r (hinv.holds.held_wf k r hr)).mp hov.symm with hov | hov
        · exact hinv.holds.apart _ _ (Ne.symm hk) proof1 hp1 r hr hov.symm
        · exact hinv.holds.apart _ _ (Ne.symm hk) proof2 hp2 r hr hov.symm
    have h₂ := (h₁.append hRwf hfreeR hheldR).hold (some i) (List.mem_append_right _ (List.mem_singleton_self R))
      rfl hheldR
    rw [Function.update_self, Function.update_idem] at h₂
    exact hinv.set_tryBuildFinalProofWith (t := { s.tables with proofs := _ }) h₂ rfl _
  · cases h

theorem Sys.Inv.lockFinalProof (hinv : s.Inv) {i : ι} {now : Nat} {timeReached : Bool}
    (h : s.next cfg (.lockFinalProof i now timeReached) = some s') : s'.Inv := by
  simp only [Sys.next] at h
  split at h
  · rename_i v htask hcan hv
    split at h
    · rename_i proof proofs hlock
      rw [Option.some.injEq] at h
      subst h
      obtain ⟨q, hq, rfl, rfl⟩ := getAndLockProofReadyToVerify_eq_some hlock
      obtain ⟨hmem, -, hun, -⟩ := getProofReadyToVerify_spec hq
      have hfree := hinv.holds.free_of_unlocked hmem hun
      have h₁ := hinv.holds.updateGeneratedProof (p := { q with generatingSince := some now })
        fun k r hr hov => hfree k r hr (hov.of_key_eq_left rfl)
      have h₂ := h₁.hold (some i) (mem_updateGeneratedProof_self hmem rfl) rfl
        fun k r hr hov => hfree k r hr (hov.of_key_eq_left rfl)
      rw [Sys.held_of_task htask] at h₂
      exact hinv.set h₂ fun _ _ h => by cases h
    · cases h
  · cases h

theorem Sys.Inv.finalProofFailed (hinv : s.Inv) {i : ι} (h : s.next cfg (.finalProofFailed i) = some s') :
    s'.Inv := by
  simp only [Sys.next] at h
  split at h
  · rename_i proof htask
    rw [Option.some.injEq] at h
    subst h
    exact hinv.set (hinv.holds.letGo (Sys.held_of_task htask) rfl (.inl rfl)) fun _ _ h => by cases h
  · cases h

theorem Sys.Inv.of_sender {s : Sys ι} (hinv : s.Inv) {t : ProofTables} {sending : Option Proof}
    (hholds : Holds t.proofs (t.lastVerifiedBatch.getD 0) (Function.update s.held none sending.toList)) :
    (⟨t, s.tasks, sending⟩ : Sys ι).Inv := by
  refine ⟨?_, hinv.adjacent⟩
  have hheld : (⟨t, s.tasks, sending⟩ : Sys ι).held = Function.update s.held none sending.toList := by
    funext k
    cases k with
    | none => simp [Sys.held]
    | some j => simp [Sys.held]
  rw [hheld]
  exact hholds

theorem Sys.Inv.finalProofSent (hinv : s.Inv) {i : ι} (h : s.next cfg (.finalProofSent i) = some s') :
    s'.Inv := by
  simp only [Sys.next] at h
  split at h
  · rename_i proof htask hsending
    rw [Option.some.injEq] at h
    subst h
    have hheld : Sys.held ⟨s.tables, Function.update s.tasks i .idle, some proof⟩ =
        Function.update (Function.update s.held (some i) []) none (s.held (some i)) := by
      funext k
      cases k with
      | none => simp [Sys.held, htask, Task.held]
      | some j =>
        by_cases hj : j = i
        · subst hj
          simp [Sys.held, Task.held]
        · simp [Sys.held, hj]
    have hnone : s.held none = [] := by simp [Sys.held, hsending]
    refine ⟨?_, fun j p1 p2 hj => ?_⟩
    · rw [hheld]
      exact hinv.holds.move (Option.some_ne_none i) hnone
    · by_cases hji : j = i
      · subst hji
        simp at hj
      · change Function.update s.tasks i .idle j = _ at hj
        rw [Function.update_of_ne hji] at hj
        exact hinv.adjacent j p1 p2 hj
  · cases h

theorem Sys.Inv.finalBatchNotFound (hinv : s.Inv) (h : s.next cfg .finalBatchNotFound = some s') : s'.Inv := by
  simp only [Sys.next] at h
  split at h
  · rw [Option.some.injEq] at h
    subst h
    exact hinv.of_sender (hinv.holds.release none)
  · cases h

theorem Sys.Inv.verificationNotAdded (hinv : s.Inv) (h : s.next cfg .verificationNotAdded = some s') :
    s'.Inv := by
  simp only [Sys.next] at h
  split at h
  · rename_i proof hsending
    rw [Option.some.injEq] at h
    subst h
    have hheld : s.held none = [proof] := by simp [Sys.held, hsending]
    exact hinv.of_sender (hinv.holds.letGo hheld rfl (.inl rfl))
  · cases h

theorem Sys.Inv.verified (hinv : s.Inv) (h : s.next cfg .verified = some s') : s'.Inv := by
  simp only [Sys.next] at h
  split at h
  · rename_i proof v hsending hv
    split at h
    · rename_i n proofs hres
      split_ifs at h with hn
      rw [Option.some.injEq] at h
      subst h
      rw [handleMonitoredTxResult_eq_ok hres]
      apply hinv.of_sender
      -- the rows deleted end at or before a verified batch
      apply (hinv.holds.release none).filter
      intro k r _ q hq hk hdel
      have hle : q.batchNumberFinal ≤ n := by simpa using hdel
      have hfinal : q.batchNumberFinal = r.batchNumberFinal := congrArg Prod.snd hk
      have hvup : s.verifiedUpTo = v := by simp [Sys.verifiedUpTo, hv]
      show r.batchNumberFinal ≤ s.verifiedUpTo
      omega
    · cases h
  · cases h

theorem Sys.Inv.synchronize (hinv : s.Inv) {t : ProofTables} {resetFrom : Option Nat}
    (hspare : (Event.synchronize t resetFrom : Event ι).Spares s)
    (h : s.next cfg (.synchronize t resetFrom) = some s') : s'.Inv := by
  simp only [Sys.next, Option.some.injEq] at h
  subst h
  refine ⟨?_, hinv.adjacent⟩
  show Holds (syncedProofs s.tables.proofs resetFrom) (t.lastVerifiedBatch.getD 0) s.held
  have hv := hinv.holds.reverify fun k r hr => (hspare k r hr).2
  cases resetFrom with
  | none => exact hv
  | some n =>
    -- a held row ends before the reset, and so does its stored row
    refine hv.filter _ fun k r hr q hq hk hdel => absurd hdel ?_
    have hlt := (hspare k r hr).1 n rfl
    have hwf : q.batchNumber ≤ q.batchNumberFinal := hinv.holds.wf q hq
    have hfinal : q.batchNumberFinal = r.batchNumberFinal := congrArg Prod.snd hk
    have hfirst : ¬ n ≤ q.batchNumber := by omega
    have hlast : ¬ n ≤ q.batchNumberFinal := by omega
    simp [hfirst, hlast]

theorem Sys.Inv.restart (hinv : s.Inv) (h : s.next cfg .restart = some s') : s'.Inv := by
  simp only [Sys.next, Option.some.injEq] at h
  subst h
  have hnone : Holds s.tables.proofs s.verifiedUpTo (fun _ : Option ι => ([] : List Proof)) :=
    hinv.holds.weaken fun _ _ hr => by cases hr
  have hheld : Sys.held (⟨{ s.tables with proofs := deleteUngeneratedProofs s.tables.proofs },
      fun _ => .idle, none⟩ : Sys ι) = fun _ => [] := by
    funext k
    cases k <;> rfl
  refine ⟨?_, fun _ _ _ h => by cases h⟩
  rw [hheld]
  exact hnone.filter _ fun _ _ hr => by cases hr

/-- Every step that spares the held rows keeps the invariant. -/
theorem Sys.Inv.next (hinv : s.Inv) {e : Event ι} (he : e.Spares s) (h : s.next cfg e = some s') :
    s'.Inv := by
  cases e with
  | lockBatch i now => exact hinv.lockBatch h
  | batchProofFailed i => exact hinv.batchProofFailed h
  | batchProofDone i recursiveProof timeReached => exact hinv.batchProofDone h
  | lockAggregation i now => exact hinv.lockAggregation h
  | aggregationFailed i => exact hinv.aggregationFailed h
  | aggregationDone i recursiveProof now timeReached => exact hinv.aggregationDone h
  | lockFinalProof i now timeReached => exact hinv.lockFinalProof h
  | finalProofFailed i => exact hinv.finalProofFailed h
  | finalProofSent i => exact hinv.finalProofSent h
  | finalBatchNotFound => exact hinv.finalBatchNotFound h
  | verificationNotAdded => exact hinv.verificationNotAdded h
  | verified => exact hinv.verified h
  | synchronize t resetFrom => exact hinv.synchronize he h
  | cleanupLocked cutoff => exact he.elim
  | restart => exact hinv.restart h

end Steps

omit [DecidableEq ι] in
theorem Sys.inv_init (t : ProofTables) : (Sys.init t : Sys ι).Inv := by
  have hheld : (Sys.init t : Sys ι).held = fun _ => [] := by
    funext k
    cases k <;> rfl
  refine ⟨?_, fun _ _ _ h => by cases h⟩
  rw [hheld]
  exact Holds.nil _

/-- The run lemma: every state reached from a fresh database by steps that
spare the held rows has the invariant. -/
theorem Sys.inv_of_reachable {cfg : Config} {t : ProofTables} {s : Sys ι}
    (h : Relation.ReflTransGen (Sys.SparingStep cfg) (Sys.init t) s) : s.Inv := by
  induction h with
  | refl => exact Sys.inv_init t
  | tail _ hstep ih =>
    obtain ⟨e, he, hs⟩ := hstep
    exact ih.next he hs

theorem Sys.reflTransGen_of_run {cfg : Config} {R : Sys ι → Sys ι → Prop} {es : List (Event ι)}
    (hR : ∀ e ∈ es, ∀ s s', s.next cfg e = some s' → R s s') {s s' : Sys ι} (h : s.run cfg es = some s') :
    Relation.ReflTransGen R s s' := by
  induction es generalizing s with
  | nil =>
    cases h
    exact .refl
  | cons e es ih =>
    obtain ⟨s₁, h₁, h₂⟩ := Option.bind_eq_some_iff.mp h
    exact .head (hR e List.mem_cons_self s s₁ h₁) (ih (fun e he => hR e (List.mem_cons_of_mem _ he)) h₂)

/-- From a fresh database, as long as no `cleanupLockedProofs` round runs and
no reset or reorg of the synchronizer pulls a row from under a holder, no
batch is in two rows of `state.proof`, and no two provers hold rows for a
common batch. -/
theorem proofs_disjoint_of_reachable (cfg : Config) (t : ProofTables) {s : Sys ι}
    (h : Relation.ReflTransGen (Sys.SparingStep cfg) (Sys.init t) s) :
    s.tables.proofs.Pairwise (fun p q => Disjoint p.batches q.batches) ∧
      ∀ i j, i ≠ j → ∀ p ∈ (s.tasks i).held, ∀ q ∈ (s.tasks j).held, Disjoint p.batches q.batches := by
  have hinv := (Sys.inv_of_reachable h).holds
  refine ⟨hinv.disjoint.imp_of_mem fun hp hq hov => ?_, fun i j hij p hp q hq => ?_⟩
  · exact Proof.disjoint_of_not_overlaps (hinv.wf _ hp) (hinv.wf _ hq) hov
  · have hp' : p ∈ s.held (some i) := hp
    have hq' : q ∈ s.held (some j) := hq
    exact Proof.disjoint_of_not_overlaps (hinv.held_wf _ _ hp') (hinv.held_wf _ _ hq')
      (hinv.apart _ _ (by simpa using hij) p hp' q hq')

/-- Two provers: one proves batches 1 and 2 and takes both to aggregate them
while the other takes batch 3. -/
theorem proofs_disjoint_of_reachable_run :
    ∃ s : Sys Bool, Relation.ReflTransGen (Sys.SparingStep ⟨0, .acceptAll, 0⟩)
      (Sys.init ⟨[], [(1, 3)], [(1, 0), (2, 0), (3, 0)], some 0⟩) s ∧
      (s.tables.proofs.Pairwise (fun p q => Disjoint p.batches q.batches) ∧
        ∀ i j, i ≠ j → ∀ p ∈ (s.tasks i).held, ∀ q ∈ (s.tasks j).held, Disjoint p.batches q.batches) := by
  obtain ⟨s, hs⟩ : ∃ s, (Sys.init ⟨[], [(1, 3)], [(1, 0), (2, 0), (3, 0)], some 0⟩ : Sys Bool).run
      ⟨0, .acceptAll, 0⟩ [.lockBatch true 1, .batchProofDone true "p" false, .lockBatch true 2,
        .batchProofDone true "p" false, .lockBatch false 3, .lockAggregation true 4] = some s := ⟨_, rfl⟩
  have hrun := Sys.reflTransGen_of_run (R := Sys.SparingStep ⟨0, .acceptAll, 0⟩)
    (fun e he s s' h => ⟨e, by simp at he; rcases he with rfl | rfl | rfl | rfl | rfl | rfl <;> trivial, h⟩) hs
  exact ⟨s, hrun, proofs_disjoint_of_reachable _ _ hrun⟩

/-- With `cleanupLockedProofs`: a prover takes batches 1 and 2 to aggregate
them, the round deletes both rows, another prover proves batches 1 to 3 and
aggregates them, and then the first stores its proof for batches 1 and 2. -/
theorem overlap_of_cleanupLocked :
    ∃ s : Sys Bool, Relation.ReflTransGen (Sys.Step ⟨0, .acceptAll, 0⟩)
      (Sys.init ⟨[], [(1, 3)], [(1, 0), (2, 0), (3, 0)], some 0⟩) s ∧
      ¬ s.tables.proofs.Pairwise (fun p q => Disjoint p.batches q.batches) := by
  have hkeys : ((Sys.init ⟨[], [(1, 3)], [(1, 0), (2, 0), (3, 0)], some 0⟩ : Sys Bool).run ⟨0, .acceptAll, 0⟩
      [.lockBatch true 1, .batchProofDone true "p" false, .lockBatch true 2, .batchProofDone true "p" false,
        .lockAggregation true 3, .cleanupLocked 4,
        .lockBatch false 5, .batchProofDone false "q" false, .lockBatch false 6, .batchProofDone false "q" false,
        .lockAggregation false 7, .aggregationDone false "q" 8 false,
        .lockBatch false 9, .batchProofDone false "q" false, .lockAggregation false 10,
        .aggregationDone false "q" 11 false,
        .aggregationDone true "p" 12 false]).map (fun s => s.tables.proofs.map Proof.key) =
      some [(1, 3), (1, 2)] := by
    decide +kernel
  obtain ⟨s, hs, hkeys⟩ := Option.map_eq_some_iff.mp hkeys
  refine ⟨s, Sys.reflTransGen_of_run (fun e _ s s' h => ⟨e, h⟩) hs, ?_⟩
  obtain ⟨p, l, hl, hp, hl'⟩ := List.map_eq_cons_iff.mp hkeys
  obtain ⟨q, l', rfl, hq, hnil⟩ := List.map_eq_cons_iff.mp hl'
  rw [List.map_eq_nil_iff] at hnil
  subst hnil
  simp only [Proof.key, Prod.mk.injEq] at hp hq
  have hwfp : p.WF := show p.batchNumber ≤ p.batchNumberFinal by omega
  have hwfq : q.WF := show q.batchNumber ≤ q.batchNumberFinal by omega
  rw [hl, List.pairwise_pair]
  apply (Proof.overlaps_iff_not_disjoint hwfp hwfq).mp
  rw [Proof.overlaps_iff]
  omega

/-- With a reset of the synchronizer: a prover takes batch 1, the synchronizer
resets the state from batch 1, which deletes the row, and syncs the batch
again, and another prover takes batch 1 while the first still proves it. -/
theorem two_provers_of_resetFrom :
    ∃ s : Sys Bool, Relation.ReflTransGen (Sys.Step ⟨0, .acceptAll, 0⟩)
      (Sys.init ⟨[], [(1, 1)], [(1, 0)], some 0⟩) s ∧
      ¬ ∀ i j, i ≠ j → ∀ p ∈ (s.tasks i).held, ∀ q ∈ (s.tasks j).held, Disjoint p.batches q.batches := by
  have hkeys : ((Sys.init ⟨[], [(1, 1)], [(1, 0)], some 0⟩ : Sys Bool).run ⟨0, .acceptAll, 0⟩
      [.lockBatch true 1, .synchronize ⟨[], [(1, 1)], [(1, 0)], some 0⟩ (some 1), .lockBatch false 2]).map
        (fun s => ((s.tasks true).held.map Proof.key, (s.tasks false).held.map Proof.key)) =
      some ([(1, 1)], [(1, 1)]) := by
    decide +kernel
  obtain ⟨s, hs, hkeys⟩ := Option.map_eq_some_iff.mp hkeys
  refine ⟨s, Sys.reflTransGen_of_run (fun e _ s s' h => ⟨e, h⟩) hs, fun hdisj => ?_⟩
  obtain ⟨htrue, hfalse⟩ := Prod.mk.inj hkeys
  obtain ⟨p, l, hl, hp, -⟩ := List.map_eq_cons_iff.mp htrue
  obtain ⟨q, l', hl', hq, -⟩ := List.map_eq_cons_iff.mp hfalse
  have hd := hdisj true false (by decide) p (by rw [hl]; exact List.mem_cons_self) q
    (by rw [hl']; exact List.mem_cons_self)
  simp only [Proof.key, Prod.mk.injEq] at hp hq
  have hwfp : p.WF := show p.batchNumber ≤ p.batchNumberFinal by omega
  have hwfq : q.WF := show q.batchNumber ≤ q.batchNumberFinal by omega
  apply (Proof.overlaps_iff_not_disjoint hwfp hwfq).mp _ hd
  rw [Proof.overlaps_iff]
  omega

end CdkValidium.Aggregator
