import CdkValidium.Go.Basic

/-!
# Closed batches: the executor's responses and the decoded transactions

`State.ProcessAndStoreClosedBatch` sends a closed batch to the executor, then
takes out of the decoded transactions and of the executor's responses, in
place, every transaction that left the state root as it was; an out-of-counters
error empties the responses instead.  `convertToProcessTransactionResponse`
then pairs the `i`-th response with the `i`-th transaction.

* `isIntrinsicError`, `isROMOutOfCountersError`, `isStateRootChanged`: the
  executor's error classes, ranges of `RomError` codes.
* `filterUnprocessedTxs`: the filtering loop, index by index, with its slices.
* `convertToProcessTransactionResponse`: the pairing by index.

Read on the pairs of a transaction and its response, the loop keeps the prefix
it has passed and takes the pairs still to come one at a time
(`filterUnprocessedTxs_pairs`).  With as many transactions as responses it
never panics and keeps exactly the pairs whose response changes the state root,
unless a response ran out of counters (`processAndStoreClosedBatch_aligned`).
-/

namespace CdkValidium.State

/-! ### Executor errors -/

/-- An `executor.RomError`: a code of the executor's `int32` enumeration. -/
abbrev RomError := Int32

def romErrorOutOfCountersStep : RomError := 8
def romErrorOutOfCountersPoseidon : RomError := 14
def romErrorIntrinsicInvalidSignature : RomError := 19
def romErrorIntrinsicTxGasOverflow : RomError := 26

/-- The executor's error classes are ranges of codes. -/
def romErrorInRange (lo hi error : RomError) : Bool := decide (lo ≤ error ∧ error ≤ hi)

/-- `executor.IsROMOutOfCountersError`. -/
def isROMOutOfCountersError (error : RomError) : Bool :=
  romErrorInRange romErrorOutOfCountersStep romErrorOutOfCountersPoseidon error

/-- `executor.IsIntrinsicError`. -/
def isIntrinsicError (error : RomError) : Bool :=
  romErrorInRange romErrorIntrinsicInvalidSignature romErrorIntrinsicTxGasOverflow error

def isStateRootChanged (err : RomError) : Bool := !isIntrinsicError err && !isROMOutOfCountersError err

theorem isStateRootChanged_of_isROMOutOfCountersError {err : RomError}
    (h : isROMOutOfCountersError err = true) : isStateRootChanged err = false := by
  simp [isStateRootChanged, h]

namespace Executor

/-- The fields of `executor.ProcessTransactionResponse` the closed-batch path
reads. -/
structure ProcessTransactionResponse where
  txHash : List UInt8
  stateRoot : List UInt8
  error : RomError
  deriving DecidableEq, Repr

end Executor

/-- The fields of `state.ProcessTransactionResponse` that
`convertToProcessTransactionResponse` fills from the executor's response and
the transaction it pairs it with. -/
structure ProcessTransactionResponse (α : Type) where
  txHash : List UInt8
  romError : RomError
  stateRoot : List UInt8
  changesStateRoot : Bool
  tx : α
  deriving DecidableEq, Repr

/-- One round of `convertToProcessTransactionResponse`. -/
def ProcessTransactionResponse.ofExecutor {α : Type} (response : Executor.ProcessTransactionResponse) (tx : α) :
    ProcessTransactionResponse α :=
  ⟨response.txHash, response.error, response.stateRoot, isStateRootChanged response.error, tx⟩

variable {α : Type}

/-- `convertToProcessTransactionResponse`: the `i`-th response with `txs[i]`,
which panics past the end of `txs`. -/
def convertToProcessTransactionResponse (txs : List α) (responses : List Executor.ProcessTransactionResponse) :
    Except Go.Panic (List (ProcessTransactionResponse α)) :=
  go 0 responses
where
  go (i : Nat) : List Executor.ProcessTransactionResponse → Except Go.Panic (List (ProcessTransactionResponse α))
  | [] => .ok []
  | response :: rest =>
    match txs[i]? with
    | none => .error .indexOutOfRange
    | some tx => (go (i + 1) rest).map (ProcessTransactionResponse.ofExecutor response tx :: ·)

/-- The loop of `ProcessAndStoreClosedBatch` that filters unprocessed
transactions, from index `i` on.  A response that leaves the state root as it
was is taken out with the transaction at its index, by `s[:i]` alone at the
last index and by `append(s[:i], s[i+1:]...)` elsewhere, and the loop looks at
index `i` again (`i--` before `i++`); an out-of-counters error empties the
responses and ends the loop.  The slices of the responses are within bounds
under the loop test; those of the transactions are not checked by the code. -/
def filterUnprocessedTxs (i : Nat) (decodedTransactions : List α)
    (responses : List Executor.ProcessTransactionResponse) :
    Except Go.Panic (List α × List Executor.ProcessTransactionResponse) :=
  if hi : i < responses.length then
    if !isStateRootChanged responses[i].error then
      if isROMOutOfCountersError responses[i].error then .ok (decodedTransactions, [])
      else if i = responses.length - 1 then
        match Go.slice decodedTransactions 0 i with
        | .error p => .error p
        | .ok decoded => filterUnprocessedTxs i decoded (responses.take i)
      else
        match Go.slice decodedTransactions 0 i, Go.slice decodedTransactions (i + 1) decodedTransactions.length with
        | .error p, _ => .error p
        | .ok _, .error p => .error p
        | .ok pre, .ok post => filterUnprocessedTxs i (pre ++ post) (responses.take i ++ responses.drop (i + 1))
    else filterUnprocessedTxs (i + 1) decodedTransactions responses
  else .ok (decodedTransactions, responses)
termination_by responses.length - i
decreasing_by
  all_goals try simp only [List.length_take, List.length_append, List.length_drop]
  all_goals omega

/-- The part of `ProcessAndStoreClosedBatch` between the executor's answer
and the storing of the transactions: the filtering loop from index `0`, then
the pairing that `convertToProcessBatchResponse` makes of the responses that
are left with the decoded transactions that are left. -/
def processAndStoreClosedBatch (decodedTransactions : List α) (responses : List Executor.ProcessTransactionResponse) :
    Except Go.Panic (List α × List (ProcessTransactionResponse α)) := do
  let (decoded, kept) ← filterUnprocessedTxs 0 decodedTransactions responses
  let converted ← convertToProcessTransactionResponse decoded kept
  return (decoded, converted)

/-! ### One round of the loop -/

section Loop

variable {i : Nat} {ds : List α} {rs : List Executor.ProcessTransactionResponse}

theorem filterUnprocessedTxs_done (h : rs.length ≤ i) : filterUnprocessedTxs i ds rs = .ok (ds, rs) := by
  rw [filterUnprocessedTxs, dif_neg (by omega)]

theorem filterUnprocessedTxs_keep (hi : i < rs.length) (h : isStateRootChanged rs[i].error = true) :
    filterUnprocessedTxs i ds rs = filterUnprocessedTxs (i + 1) ds rs := by
  conv_lhs => rw [filterUnprocessedTxs]
  rw [dif_pos hi, h]
  simp only [Bool.not_true, Bool.false_eq_true, if_false]

theorem filterUnprocessedTxs_ooc (hi : i < rs.length) (h : isROMOutOfCountersError rs[i].error = true) :
    filterUnprocessedTxs i ds rs = .ok (ds, []) := by
  rw [filterUnprocessedTxs, dif_pos hi, isStateRootChanged_of_isROMOutOfCountersError h, h]
  simp only [Bool.not_false, if_true]

theorem filterUnprocessedTxs_remove (hlen : ds.length = rs.length) (hi : i < rs.length)
    (hsrc : isStateRootChanged rs[i].error = false) (hooc : isROMOutOfCountersError rs[i].error = false) :
    filterUnprocessedTxs i ds rs = filterUnprocessedTxs i (ds.take i ++ ds.drop (i + 1)) (rs.take i ++ rs.drop (i + 1)) := by
  conv_lhs => rw [filterUnprocessedTxs]
  rw [dif_pos hi, hsrc, hooc]
  simp only [Bool.not_false, Bool.false_eq_true, if_true, if_false]
  by_cases hlast : i = rs.length - 1
  · have hds : ds.drop (i + 1) = [] := List.drop_eq_nil_of_le (by omega)
    have hrs : rs.drop (i + 1) = [] := List.drop_eq_nil_of_le (by omega)
    rw [if_pos hlast, Go.slice_of_le (Nat.zero_le _) (by omega), hds, hrs, List.append_nil, List.append_nil,
      List.drop_zero, Nat.sub_zero]
  · have hpost : (ds.drop (i + 1)).take (ds.length - (i + 1)) = ds.drop (i + 1) :=
      List.take_of_length_le (by simp)
    rw [if_neg hlast, Go.slice_of_le (Nat.zero_le _) (by omega), Go.slice_of_le (by omega) le_rfl,
      List.drop_zero, Nat.sub_zero, hpost]

end Loop

/-! ### The whole loop, on pairs -/

/-- The pairs still to come that the loop keeps: those before the first
out-of-counters error whose response changes the state root. -/
def keptPairs (rest : List (α × Executor.ProcessTransactionResponse)) : List (α × Executor.ProcessTransactionResponse) :=
  (rest.takeWhile fun p => !isROMOutOfCountersError p.2.error).filter fun p => isStateRootChanged p.2.error

/-- The pairs from the first out-of-counters error on. -/
def oocPairs (rest : List (α × Executor.ProcessTransactionResponse)) : List (α × Executor.ProcessTransactionResponse) :=
  rest.dropWhile fun p => !isROMOutOfCountersError p.2.error

@[simp] theorem keptPairs_nil : keptPairs ([] : List (α × Executor.ProcessTransactionResponse)) = [] := rfl

@[simp] theorem oocPairs_nil : oocPairs ([] : List (α × Executor.ProcessTransactionResponse)) = [] := rfl

section Pairs

variable {p : α × Executor.ProcessTransactionResponse} {rest : List (α × Executor.ProcessTransactionResponse)}

theorem keptPairs_cons_of_ooc (h : isROMOutOfCountersError p.2.error = true) : keptPairs (p :: rest) = [] := by
  simp [keptPairs, h]

theorem oocPairs_cons_of_ooc (h : isROMOutOfCountersError p.2.error = true) : oocPairs (p :: rest) = p :: rest := by
  simp [oocPairs, h]

theorem keptPairs_cons_of_keep (hooc : isROMOutOfCountersError p.2.error = false)
    (hsrc : isStateRootChanged p.2.error = true) : keptPairs (p :: rest) = p :: keptPairs rest := by
  simp [keptPairs, hooc, hsrc]

theorem keptPairs_cons_of_remove (hooc : isROMOutOfCountersError p.2.error = false)
    (hsrc : isStateRootChanged p.2.error = false) : keptPairs (p :: rest) = keptPairs rest := by
  simp [keptPairs, hooc, hsrc]

theorem oocPairs_cons_of_not_ooc (h : isROMOutOfCountersError p.2.error = false) :
    oocPairs (p :: rest) = oocPairs rest := by
  simp [oocPairs, h]

end Pairs

theorem oocPairs_eq_nil_iff {rest : List (α × Executor.ProcessTransactionResponse)} :
    oocPairs rest = [] ↔ ∀ p ∈ rest, isROMOutOfCountersError p.2.error = false := by
  simp [oocPairs, List.dropWhile_eq_nil_iff]

theorem keptPairs_of_no_ooc {rest : List (α × Executor.ProcessTransactionResponse)}
    (h : ∀ p ∈ rest, isROMOutOfCountersError p.2.error = false) :
    keptPairs rest = rest.filter fun p => isStateRootChanged p.2.error := by
  rw [keptPairs, List.takeWhile_eq_self_iff.mpr (fun p hp => by simp [h p hp])]

/-- **The loop on pairs.**  From index `i`, with the pairs `rest` still to come,
the loop ends with the pairs it has passed, the pairs of `rest` it keeps and,
for the transactions, the pairs from the first out-of-counters error on; the
responses are those it keeps, or none after an out-of-counters error. -/
theorem filterUnprocessedTxs_pairs :
    ∀ (rest ps : List (α × Executor.ProcessTransactionResponse)) (i : Nat), ps.drop i = rest → i ≤ ps.length →
      filterUnprocessedTxs i (ps.map Prod.fst) (ps.map Prod.snd) =
        .ok ((ps.take i ++ keptPairs rest ++ oocPairs rest).map Prod.fst,
          if oocPairs rest = [] then (ps.take i ++ keptPairs rest).map Prod.snd else []) := by
  intro rest
  induction rest with
  | nil =>
    intro ps i hrest _
    have hlen : ps.length ≤ i := List.drop_eq_nil_iff.mp hrest
    rw [filterUnprocessedTxs_done (by simpa using hlen), List.take_of_length_le hlen]
    simp
  | cons p rest ih =>
    intro ps i hrest hi
    have hlt : i < ps.length := by
      by_contra h
      rw [List.drop_eq_nil_of_le (by omega)] at hrest
      cases hrest
    have hcons := List.drop_eq_getElem_cons hlt
    rw [hrest] at hcons
    obtain ⟨hp, hnext⟩ := List.cons.inj hcons
    have hlts : i < (ps.map Prod.snd).length := by simpa using hlt
    have hget : (ps.map Prod.snd)[i] = p.2 := by simp [hp]
    cases hooc : isROMOutOfCountersError p.2.error with
    | true =>
      rw [filterUnprocessedTxs_ooc hlts (by rw [hget, hooc]), keptPairs_cons_of_ooc hooc,
        oocPairs_cons_of_ooc hooc, if_neg (List.cons_ne_nil p rest), List.append_nil, ← hrest,
        List.take_append_drop]
    | false =>
      cases hsrc : isStateRootChanged p.2.error with
      | true =>
        rw [filterUnprocessedTxs_keep hlts (by rw [hget, hsrc]), ih ps (i + 1) hnext.symm hlt,
          keptPairs_cons_of_keep hooc hsrc, oocPairs_cons_of_not_ooc hooc, List.take_succ_eq_append_getElem hlt, ← hp]
        simp
      | false =>
        have hlen : (ps.map Prod.fst).length = (ps.map Prod.snd).length := by simp
        have hdrop : (ps.take i ++ ps.drop (i + 1)).drop i = rest := by
          rw [List.drop_left' (by simp; omega), hnext]
        have htake : (ps.take i ++ ps.drop (i + 1)).take i = ps.take i := List.take_left' (by simp; omega)
        rw [filterUnprocessedTxs_remove hlen hlts (by rw [hget, hsrc]) (by rw [hget, hooc]),
          ← List.map_take, ← List.map_drop, ← List.map_take, ← List.map_drop, ← List.map_append, ← List.map_append,
          ih _ i hdrop (by simp; omega), htake, keptPairs_cons_of_remove hooc hsrc, oocPairs_cons_of_not_ooc hooc]

/-! ### Pairing by index -/

theorem convertToProcessTransactionResponse_go_pairs :
    ∀ (qs pre : List (α × Executor.ProcessTransactionResponse)),
      convertToProcessTransactionResponse.go ((pre ++ qs).map Prod.fst) pre.length (qs.map Prod.snd) =
        .ok (qs.map fun q => ProcessTransactionResponse.ofExecutor q.2 q.1)
  | [], _ => rfl
  | q :: qs, pre => by
    have hget : ((pre ++ q :: qs).map Prod.fst)[pre.length]? = some q.1 := by simp
    have hnext := convertToProcessTransactionResponse_go_pairs qs (pre ++ [q])
    simp only [List.append_assoc, List.singleton_append, List.length_append, List.length_singleton] at hnext
    simp only [List.map_cons, convertToProcessTransactionResponse.go, hget, hnext]
    rfl

theorem convertToProcessTransactionResponse_pairs (ps : List (α × Executor.ProcessTransactionResponse)) :
    convertToProcessTransactionResponse (ps.map Prod.fst) (ps.map Prod.snd) =
      .ok (ps.map fun q => ProcessTransactionResponse.ofExecutor q.2 q.1) :=
  convertToProcessTransactionResponse_go_pairs ps []

/-! ### The closed batch -/

theorem filterUnprocessedTxs_zip {ds : List α} {rs : List Executor.ProcessTransactionResponse}
    (hlen : ds.length = rs.length) :
    filterUnprocessedTxs 0 ds rs =
      .ok ((keptPairs (ds.zip rs) ++ oocPairs (ds.zip rs)).map Prod.fst,
        if oocPairs (ds.zip rs) = [] then (keptPairs (ds.zip rs)).map Prod.snd else []) := by
  have h := filterUnprocessedTxs_pairs (ds.zip rs) (ds.zip rs) 0 rfl (Nat.zero_le _)
  rwa [List.map_fst_zip (by omega), List.map_snd_zip (by omega), List.take_zero, List.nil_append] at h

/-- **Alignment of a closed batch.**  With as many decoded transactions as
responses, the filtering never panics; after an out-of-counters error no
response is left, and otherwise the transactions and the responses left are
those at the positions whose response changes the state root, and each response
is paired with the transaction at its own position. -/
theorem processAndStoreClosedBatch_aligned (ds : List α) (rs : List Executor.ProcessTransactionResponse)
    (hlen : ds.length = rs.length) :
    ((∃ r ∈ rs, isROMOutOfCountersError r.error = true) →
      ∃ ds', filterUnprocessedTxs 0 ds rs = .ok (ds', []) ∧ processAndStoreClosedBatch ds rs = .ok (ds', [])) ∧
    ((∀ r ∈ rs, isROMOutOfCountersError r.error = false) →
      filterUnprocessedTxs 0 ds rs =
          .ok (((ds.zip rs).filter fun p => isStateRootChanged p.2.error).map Prod.fst,
            ((ds.zip rs).filter fun p => isStateRootChanged p.2.error).map Prod.snd) ∧
        processAndStoreClosedBatch ds rs =
          .ok (((ds.zip rs).filter fun p => isStateRootChanged p.2.error).map Prod.fst,
            ((ds.zip rs).filter fun p => isStateRootChanged p.2.error).map
              fun p => ProcessTransactionResponse.ofExecutor p.2 p.1)) := by
  have hsnd : (ds.zip rs).map Prod.snd = rs := List.map_snd_zip (by omega)
  have hfilter := filterUnprocessedTxs_zip hlen
  refine ⟨fun ⟨r, hr, hooc⟩ => ?_, fun hno => ?_⟩
  · have hne : oocPairs (ds.zip rs) ≠ [] := by
      rw [← hsnd] at hr
      obtain ⟨p, hp, rfl⟩ := List.mem_map.mp hr
      rw [Ne, oocPairs_eq_nil_iff]
      intro h
      rw [h p hp] at hooc
      cases hooc
    rw [if_neg hne] at hfilter
    refine ⟨_, hfilter, ?_⟩
    rw [processAndStoreClosedBatch, hfilter]
    rfl
  · have hnil : oocPairs (ds.zip rs) = [] :=
      oocPairs_eq_nil_iff.mpr fun p hp => hno p.2 (hsnd ▸ List.mem_map_of_mem hp)
    rw [if_pos hnil, hnil, List.append_nil, keptPairs_of_no_ooc (oocPairs_eq_nil_iff.mp hnil)] at hfilter
    refine ⟨hfilter, ?_⟩
    rw [processAndStoreClosedBatch, hfilter]
    exact congrArg (fun c => Except.map (Prod.mk _) c) (convertToProcessTransactionResponse_pairs _)

theorem processAndStoreClosedBatch_aligned_intrinsic :
    let ok : Executor.ProcessTransactionResponse := ⟨[1], [7], 0⟩
    let invalidSignature : Executor.ProcessTransactionResponse := ⟨[2], [7], romErrorIntrinsicInvalidSignature⟩
    let ok3 : Executor.ProcessTransactionResponse := ⟨[3], [8], 0⟩
    filterUnprocessedTxs 0 [10, 20, 30] [ok, invalidSignature, ok3] = .ok ([10, 30], [ok, ok3]) ∧
      processAndStoreClosedBatch [10, 20, 30] [ok, invalidSignature, ok3] =
        .ok ([10, 30], [.ofExecutor ok 10, .ofExecutor ok3 30]) := by
  intro ok invalidSignature ok3
  exact (processAndStoreClosedBatch_aligned ([10, 20, 30] : List Nat) [ok, invalidSignature, ok3] rfl).2 (by decide)

end CdkValidium.State
