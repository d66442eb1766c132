import CdkValidium.State.BatchTable

/-!
# The sequences sent to L1

`SequenceSender.getSequencesToSend` reads the batch table from the batch after
the last virtual one.  It stops with an error at the batch where a fork
upgrade applies, breaks at the first open batch, and turns each closed batch
into a `Sequence` (`toSequence`).  It returns as soon as `MaxBatchesForL1`
sequences are gathered (`getSequencesToSendLoop`).  When it reaches the open
batch, it sends what it has only if the last virtualization is old enough,
or unknown.

On a table the writers leave (`BatchTable.Inv`, see `State.BatchTable`), only
the last batch can be open.  So what the sender sends is the sequences of the
closed batches after the last virtual one, in order and all of them, up to
`MaxBatchesForL1`, and never the batch where the fork upgrades
(`getSequencesToSend_eq`).  The loop reads each batch once, so it never runs
out of fuel.
-/

namespace CdkValidium.SequenceSender

open State State.PostgresStorage

/-- The fields of the sequence sender's `Config` that `getSequencesToSend`
reads; the wait period in microseconds. -/
structure Config where
  lastBatchVirtualizationTimeMaxWaitPeriod : Int
  maxBatchesForL1 : UInt64
  forkUpgradeBatchNumber : UInt64

/-- `types.Sequence`, with the fields `getSequencesToSend` sets. -/
structure Sequence where
  globalExitRoot : Hash
  timestamp : Int
  batchL2Data : List UInt8
  batchNumber : UInt64
  forcedBatchTimestamp : Int
  deriving DecidableEq, Repr

/-- The errors of `getSequencesToSend`: the batch table's, the fork upgrade
stop, and the other state queries' (`GetLastVirtualBatchNum`,
`GetForcedBatch`). -/
inductive SendError (ε : Type)
  | state (e : BatchError)
  | forkUpgrade (batchNumber : UInt64)
  | other (e : ε)
  deriving DecidableEq, Repr

/-- The sequence of a closed batch: its global exit root, its time in seconds,
its data and its number, and the time of its forced batch if it has one. -/
def toSequence {ε : Type} (forcedAt : UInt64 → Except ε Timestamp) (batch : BatchRow) :
    Except (SendError ε) Sequence :=
  let seq : Sequence := ⟨batch.globalExitRoot, unix batch.timestamp, batch.batchL2Data, batch.batchNum, 0⟩
  match batch.forcedBatchNum with
  | none => .ok seq
  | some forcedBatchNum =>
    match forcedAt forcedBatchNum with
    | .error e => .error (.other e)
    | .ok forcedTime => .ok { seq with forcedBatchTimestamp := unix forcedTime }

/-- How the loop of `getSequencesToSend` ends without an error. -/
inductive LoopExit
  /-- `MaxBatchesForL1` sequences are gathered. -/
  | full (sequences : List Sequence)
  /-- The open batch is reached. -/
  | wip (sequences : List Sequence)
  deriving DecidableEq, Repr

/-- The loop of `getSequencesToSend` from `currentBatchNumToSequence`, with the
sequences gathered so far; `none` when the fuel runs out. -/
def getSequencesToSendLoop {ε : Type} (cfg : Config) (t : BatchTable) (forcedAt : UInt64 → Except ε Timestamp) :
    Nat → UInt64 → List Sequence → Option (Except (SendError ε) LoopExit)
  | 0, _, _ => none
  | fuel + 1, currentBatchNumToSequence, sequences =>
    if cfg.forkUpgradeBatchNumber ≠ 0 ∧ currentBatchNumToSequence = cfg.forkUpgradeBatchNumber + 1 then
      some (.error (.forkUpgrade (cfg.forkUpgradeBatchNumber + 1)))
    else
      match isBatchClosed t currentBatchNumToSequence with
      | .error e => some (.error (.state e))
      | .ok false => some (.ok (.wip sequences))
      | .ok true =>
        match getBatchByNumber t currentBatchNumToSequence with
        | .error e => some (.error (.state e))
        | .ok batch =>
          match toSequence forcedAt batch with
          | .error e => some (.error e)
          | .ok seq =>
            let sequences := sequences ++ [seq]
            if (sequences.length : Int) = cfg.maxBatchesForL1.toInt64.toInt then some (.ok (.full sequences))
            else getSequencesToSendLoop cfg t forcedAt fuel (currentBatchNumToSequence + 1) sequences

/-- What `GetTimeForLatestBatchVirtualization` returns. -/
inductive LatestVirtualization
  | time (lastBatchVirtualizationTime : Timestamp)
  /-- `ErrNotFound`, with the zero `time.Time`. -/
  | notFound
  /-- Another error: the sequences are sent. -/
  | failed

/-- The zero `time.Time`, January 1 of year 1, in microseconds. -/
def zeroTime : Timestamp := -62135596800 * 1000000

/-- `getSequencesToSend`, for the last virtual batch number and the time of the
last virtualization as the state returns them, and the wall clock `now`; the
loop runs on the rows of the table and one more. -/
def getSequencesToSend {ε : Type} (cfg : Config) (t : BatchTable) (lastVirtualBatchNum : Except ε UInt64)
    (forcedAt : UInt64 → Except ε Timestamp) (latest : LatestVirtualization) (now : Timestamp) :
    Option (Except (SendError ε) (List Sequence)) :=
  match lastVirtualBatchNum with
  | .error e => some (.error (.other e))
  | .ok lastVirtualBatchNum =>
    (getSequencesToSendLoop cfg t forcedAt (t.length + 1) (lastVirtualBatchNum + 1) []).map fun
      | .error e => .error e
      | .ok (.full sequences) => .ok sequences
      | .ok (.wip sequences) =>
        if sequences = [] then .ok []
        else
          let wait := now - cfg.lastBatchVirtualizationTimeMaxWaitPeriod
          match latest with
          | .failed => .ok sequences
          | .notFound => if zeroTime < wait then .ok sequences else .ok []
          | .time lastBatchVirtualizationTime => if lastBatchVirtualizationTime < wait then .ok sequences else .ok []

/-! ## What is sent -/

/-- The closed batches after the last virtual one, in the table's order. -/
def closedBatchesAfter (t : BatchTable) (lastVirtualBatchNum : UInt64) : List BatchRow :=
  (t.drop (lastVirtualBatchNum.toNat + 1)).filter (·.closed)

/-- What the sender may send: the sequences of the first `MaxBatchesForL1`
closed batches after the last virtual one, none of them the batch where the
fork upgrades. -/
def Sendable {ε : Type} (cfg : Config) (t : BatchTable) (forcedAt : UInt64 → Except ε Timestamp)
    (lastVirtualBatchNum : UInt64) (sequences : List Sequence) : Prop :=
  ((closedBatchesAfter t lastVirtualBatchNum).take cfg.maxBatchesForL1.toNat).mapM (toSequence forcedAt)
      = .ok sequences ∧
    (cfg.forkUpgradeBatchNumber ≠ 0 → ∀ s ∈ sequences, s.batchNumber ≠ cfg.forkUpgradeBatchNumber + 1)

theorem batchNumber_toSequence {ε : Type} {forcedAt : UInt64 → Except ε Timestamp} {batch : BatchRow}
    {seq : Sequence} (h : toSequence forcedAt batch = .ok seq) : seq.batchNumber = batch.batchNum := by
  unfold toSequence at h
  split at h
  · cases h; rfl
  · split at h
    · cases h
    · cases h; rfl

theorem length_of_mapM_eq_ok {α β ε : Type} {f : α → Except ε β} :
    ∀ {l : List α} {bs : List β}, l.mapM f = .ok bs → bs.length = l.length
  | [], bs, h => by cases h; rfl
  | a :: l, bs, h => by
    rw [List.mapM_cons] at h
    obtain ⟨b, -, h⟩ := Go.except_bind_eq_ok.mp h
    obtain ⟨bs', hbs', h⟩ := Go.except_bind_eq_ok.mp h
    cases h
    simp [length_of_mapM_eq_ok hbs']

theorem take_filter_eq_take {α : Type} {p : α → Bool} {l : List α} {k : Nat}
    (h : ∀ a ∈ l.take k, p a) : (l.filter p).take k = l.take k := by
  conv_lhs => rw [← List.take_append_drop k l, List.filter_append, List.filter_eq_self.mpr h]
  rcases Nat.lt_or_ge k l.length with hk | hk
  · rw [List.take_append_of_le_length (by simp; omega), List.take_take, Nat.min_self]
  · rw [List.drop_eq_nil_of_le hk, List.filter_nil, List.append_nil, List.take_take, Nat.min_self]

theorem filter_eq_take {α : Type} {p : α → Bool} {l : List α} {k : Nat}
    (htake : ∀ a ∈ l.take k, p a) (hdrop : ∀ a ∈ l.drop k, p a = false) : l.filter p = l.take k := by
  conv_lhs => rw [← List.take_append_drop k l, List.filter_append, List.filter_eq_self.mpr htake]
  rw [List.filter_eq_nil_iff.mpr (by simpa using hdrop), List.append_nil]

theorem eq_nil_or_eq_of_ite {α ε : Type} {c : Prop} [Decidable c] {a b : List α}
    (h : (if c then .ok a else .ok [] : Except ε (List α)) = .ok b) : b = [] ∨ b = a := by
  split_ifs at h
  · exact Or.inr (Except.ok.inj h).symm
  · exact Or.inl (Except.ok.inj h).symm

theorem toInt_toInt64_of_lt {c : UInt64} (h : c.toNat < 2 ^ 63) : c.toInt64.toInt = c.toNat := by
  rw [← Int64.toInt_toBitVec, UInt64.toBitVec_toInt64, BitVec.toInt_eq_toNat_of_lt]
  · rfl
  · simp only [UInt64.toNat_toBitVec]
    omega

section

variable {ε : Type} (cfg : Config) (t : BatchTable) (forcedAt : UInt64 → Except ε Timestamp)
  (lastVirtualBatchNum : UInt64)

/-- The loop's invariant after `k` sequences: they are those of the first `k`
rows after the last virtual batch, which are closed, and none is the batch where
the fork upgrades. -/
structure LoopInv (k : Nat) (sequences : List Sequence) : Prop where
  le_length : k ≤ (t.drop (lastVirtualBatchNum.toNat + 1)).length
  closed : ∀ r ∈ (t.drop (lastVirtualBatchNum.toNat + 1)).take k, r.closed = true
  mapM_eq : ((t.drop (lastVirtualBatchNum.toNat + 1)).take k).mapM (toSequence forcedAt) = .ok sequences
  not_fork : cfg.forkUpgradeBatchNumber ≠ 0 → ∀ s ∈ sequences, s.batchNumber ≠ cfg.forkUpgradeBatchNumber + 1

/-- What the loop's result says: an exit without error has sendable sequences. -/
def LoopPost : Except (SendError ε) LoopExit → Prop
  | .ok (.full sequences) => Sendable cfg t forcedAt lastVirtualBatchNum sequences
  | .ok (.wip sequences) => Sendable cfg t forcedAt lastVirtualBatchNum sequences
  | .error _ => True

end

namespace LoopInv

variable {ε : Type} {cfg : Config} {t : BatchTable} {forcedAt : UInt64 → Except ε Timestamp}
  {lastVirtualBatchNum : UInt64}

theorem nil : LoopInv cfg t forcedAt lastVirtualBatchNum 0 [] :=
  ⟨Nat.zero_le _, by simp, rfl, fun _ s hs => absurd hs List.not_mem_nil⟩

theorem length_eq {k : Nat} {sequences : List Sequence} (hI : LoopInv cfg t forcedAt lastVirtualBatchNum k sequences) :
    sequences.length = k := by
  rw [length_of_mapM_eq_ok hI.mapM_eq, List.length_take]
  exact Nat.min_eq_left hI.le_length

theorem snoc {k : Nat} {sequences : List Sequence} (hI : LoopInv cfg t forcedAt lastVirtualBatchNum k sequences)
    {seq : Sequence} (hk : k < (t.drop (lastVirtualBatchNum.toNat + 1)).length)
    (hc : (t.drop (lastVirtualBatchNum.toNat + 1))[k].closed = true)
    (hs : toSequence forcedAt (t.drop (lastVirtualBatchNum.toNat + 1))[k] = .ok seq)
    (hfork : cfg.forkUpgradeBatchNumber ≠ 0 → seq.batchNumber ≠ cfg.forkUpgradeBatchNumber + 1) :
    LoopInv cfg t forcedAt lastVirtualBatchNum (k + 1) (sequences ++ [seq]) where
  le_length := hk
  closed := by
    rw [List.take_succ_eq_append_getElem hk]
    intro r hr
    rcases List.mem_append.mp hr with hr | hr
    · exact hI.closed r hr
    · rw [List.mem_singleton.mp hr]
      exact hc
  mapM_eq := by
    rw [List.take_succ_eq_append_getElem hk, List.mapM_append, hI.mapM_eq, List.mapM_cons, hs]
    rfl
  not_fork := by
    intro hF s hs'
    rcases List.mem_append.mp hs' with hs' | hs'
    · exact hI.not_fork hF s hs'
    · rw [List.mem_singleton.mp hs']
      exact hfork hF

theorem sendable_full {sequences : List Sequence}
    (hI : LoopInv cfg t forcedAt lastVirtualBatchNum cfg.maxBatchesForL1.toNat sequences) :
    Sendable cfg t forcedAt lastVirtualBatchNum sequences := by
  refine ⟨?_, hI.not_fork⟩
  rw [closedBatchesAfter, take_filter_eq_take hI.closed]
  exact hI.mapM_eq

theorem sendable_wip (hinv : t.Inv) {k : Nat} {sequences : List Sequence}
    (hI : LoopInv cfg t forcedAt lastVirtualBatchNum k sequences)
    (hk : k < (t.drop (lastVirtualBatchNum.toNat + 1)).length)
    (hc : (t.drop (lastVirtualBatchNum.toNat + 1))[k].closed = false) (hcap : k < cfg.maxBatchesForL1.toNat) :
    Sendable cfg t forcedAt lastVirtualBatchNum sequences := by
  set rows := t.drop (lastVirtualBatchNum.toNat + 1)
  -- the open batch is the last one
  have hlast : k + 1 = rows.length := by
    by_contra hne
    have := hinv.closed (lastVirtualBatchNum.toNat + 1 + k) (by simp [rows] at hk hne ⊢; omega)
    simp only [List.getElem_drop] at hc
    rw [hc] at this
    exact Bool.false_ne_true this
  have hdrop : rows.drop k = [rows[k]] := by
    rw [List.drop_eq_getElem_cons hk, List.drop_eq_nil_of_le (by omega)]
  have hfilter : rows.filter (·.closed) = rows.take k := by
    refine filter_eq_take hI.closed fun r hr => ?_
    rw [hdrop, List.mem_singleton] at hr
    rw [hr]
    exact hc
  refine ⟨?_, hI.not_fork⟩
  rw [closedBatchesAfter, hfilter, List.take_take, Nat.min_eq_right hcap.le]
  exact hI.mapM_eq

end LoopInv

section

variable {ε : Type} {cfg : Config} {t : BatchTable} {forcedAt : UInt64 → Except ε Timestamp}
  {lastVirtualBatchNum : UInt64}

/-- With fuel for the rows still unread, the loop ends, and when it ends
without an error its sequences are sendable. -/
theorem getSequencesToSendLoop_spec (hinv : t.Inv) (ht : t.length < 2 ^ 64)
    (hmax : cfg.maxBatchesForL1.toNat < 2 ^ 63) :
    ∀ (fuel k : Nat) (n : UInt64) (sequences : List Sequence),
      n.toNat = lastVirtualBatchNum.toNat + 1 + k → k < cfg.maxBatchesForL1.toNat →
      (t.drop (lastVirtualBatchNum.toNat + 1)).length < k + fuel →
      LoopInv cfg t forcedAt lastVirtualBatchNum k sequences →
      ∃ r, getSequencesToSendLoop cfg t forcedAt fuel n sequences = some r ∧
        LoopPost cfg t forcedAt lastVirtualBatchNum r
  | 0, _, _, _, _, _, hfuel, hI => absurd hI.le_length (by omega)
  | fuel + 1, k, n, sequences, hn, hcap, hfuel, hI => by
    have hfind : t.find? (·.batchNum = n) = (t.drop (lastVirtualBatchNum.toNat + 1))[k]? := by
      rw [hinv.find?_eq, hn, List.getElem?_drop]
    rw [getSequencesToSendLoop]
    split_ifs with hfork
    · exact ⟨_, rfl, trivial⟩
    rcases Nat.lt_or_ge k (t.drop (lastVirtualBatchNum.toNat + 1)).length with hk | hk
    swap
    · simp only [isBatchClosed, hfind, List.getElem?_eq_none hk]
      exact ⟨_, rfl, trivial⟩
    simp only [isBatchClosed, getBatchByNumber, hfind, List.getElem?_eq_getElem hk]
    cases hc : (t.drop (lastVirtualBatchNum.toNat + 1))[k].closed with
    | false => exact ⟨_, rfl, hI.sendable_wip hinv hk hc hcap⟩
    | true =>
      cases hs : toSequence forcedAt (t.drop (lastVirtualBatchNum.toNat + 1))[k] with
      | error e => exact ⟨_, rfl, trivial⟩
      | ok seq =>
        have hnum : seq.batchNumber = n := by
          rw [batchNumber_toSequence hs, ← UInt64.toNat_inj, List.getElem_drop, hn]
          exact hinv.numbered _ _
        have hI' := hI.snoc hk hc hs fun hF h => hfork ⟨hF, hnum ▸ h⟩
        simp only
        split_ifs with hfull
        · rw [toInt_toInt64_of_lt hmax, List.length_append, hI.length_eq, List.length_singleton] at hfull
          have hk1 : k + 1 = cfg.maxBatchesForL1.toNat := by omega
          exact ⟨_, rfl, LoopInv.sendable_full (hk1 ▸ hI')⟩
        · rw [toInt_toInt64_of_lt hmax, List.length_append, hI.length_eq, List.length_singleton] at hfull
          have hcap' : k + 1 < cfg.maxBatchesForL1.toNat := by omega
          have hlen : n.toNat < t.length := by simp at hk; omega
          have hn' : (n + 1).toNat = lastVirtualBatchNum.toNat + 1 + (k + 1) := by
            rw [UInt64.toNat_add, UInt64.toNat_one, Nat.mod_eq_of_lt (by omega)]
            omega
          exact getSequencesToSendLoop_spec hinv ht hmax fuel (k + 1) (n + 1) _ hn' hcap' (by omega) hI'

/-- On a table the writers reach, with fewer than `2 ^ 64` batches and a last
virtual batch among them, `getSequencesToSend` ends, and what it sends is the
sequences of the closed batches right after the last virtual one, in order, all
of them up to `MaxBatchesForL1`, never the batch where the fork upgrades. -/
theorem getSequencesToSend_eq (cfg : Config) (hreach : Reachable t) (ht : t.length < 2 ^ 64)
    (hlv : lastVirtualBatchNum.toNat < t.length)
    (hmax : 0 < cfg.maxBatchesForL1.toNat ∧ cfg.maxBatchesForL1.toNat < 2 ^ 63)
    (forcedAt : UInt64 → Except ε Timestamp) (latest : LatestVirtualization) (now : Timestamp) :
    ∃ r, getSequencesToSend cfg t (.ok lastVirtualBatchNum) forcedAt latest now = some r ∧
      ∀ sequences, r = .ok sequences →
        sequences = [] ∨ Sendable cfg t forcedAt lastVirtualBatchNum sequences := by
  have hstart : (lastVirtualBatchNum + 1).toNat = lastVirtualBatchNum.toNat + 1 + 0 := by
    rw [UInt64.toNat_add, UInt64.toNat_one]
    exact Nat.mod_eq_of_lt (by omega)
  obtain ⟨r, hr, hpost⟩ := getSequencesToSendLoop_spec hreach.inv ht hmax.2
    (t.length + 1) 0 (lastVirtualBatchNum + 1) [] hstart hmax.1 (by simp only [List.length_drop]; omega)
    (LoopInv.nil : LoopInv cfg t forcedAt lastVirtualBatchNum 0 [])
  rw [getSequencesToSend, hr]
  refine ⟨_, rfl, fun sequences hseq => ?_⟩
  rcases r with e | sequences' | sequences'
  · cases hseq
  · cases hseq
    exact Or.inr hpost
  · -- the open batch is reached: the sequences are sent, or none is
    simp only at hseq
    by_cases hnil : sequences' = []
    · rw [if_pos hnil] at hseq
      exact Or.inl (Except.ok.inj hseq).symm
    rw [if_neg hnil] at hseq
    cases latest with
    | failed =>
      cases hseq
      exact Or.inr hpost
    | notFound =>
      rcases eq_nil_or_eq_of_ite hseq with rfl | rfl
      · exact Or.inl rfl
      · exact Or.inr hpost
    | time lastBatchVirtualizationTime =>
      rcases eq_nil_or_eq_of_ite hseq with rfl | rfl
      · exact Or.inl rfl
      · exact Or.inr hpost

end

theorem reachable_forced :
    Reachable [⟨0, [], some [1], 1000000, [], none⟩, ⟨1, [], some [2], 1500000, [7], none⟩,
      ⟨2, [], some [3], 1600000, [8], some 4⟩, ⟨3, [], none, 1700000, [], none⟩] := by
  have h0 : Reachable [⟨0, [], some [1], 1000000, [], none⟩] :=
    .write (.storeGenesisBatch 0 [] [1] 1000000 []) .empty trivial rfl
  have h1 : Reachable [⟨0, [], some [1], 1000000, [], none⟩, ⟨1, [], some [2], 1500000, [7], none⟩] :=
    .write (.closeBatch ⟨1, [2], [7]⟩) (.write (.openBatch ⟨1, [], 1500000, none, []⟩) h0 trivial rfl) trivial rfl
  have h2 : Reachable [⟨0, [], some [1], 1000000, [], none⟩, ⟨1, [], some [2], 1500000, [7], none⟩,
      ⟨2, [], some [3], 1600000, [8], some 4⟩] :=
    .write (.closeBatch ⟨2, [3], [8]⟩) (.write (.openBatch ⟨2, [], 1600000, some 4, []⟩) h1 trivial rfl) trivial rfl
  exact .write (.openBatch ⟨3, [], 1700000, none, []⟩) h2 trivial rfl

/-- Batches `1` and `2` are closed after the last virtual batch `0`, batch `2`
forced, and batch `3` is open. -/
theorem getSequencesToSend_eq_twoClosed :
    let t : BatchTable := [⟨0, [], some [1], 1000000, [], none⟩, ⟨1, [], some [2], 1500000, [7], none⟩,
      ⟨2, [], some [3], 1600000, [8], some 4⟩, ⟨3, [], none, 1700000, [], none⟩]
    Reachable t ∧
      ∃ r, getSequencesToSend (ε := Unit) ⟨10, 5, 0⟩ t (.ok 0) (fun _ => .ok 9000000) .failed 0 = some r ∧
        ∀ sequences, r = .ok sequences →
          sequences = [] ∨ Sendable (ε := Unit) ⟨10, 5, 0⟩ t (fun _ => .ok 9000000) 0 sequences :=
  ⟨reachable_forced, getSequencesToSend_eq ⟨10, 5, 0⟩ reachable_forced (by decide) (by decide) (by decide) _ _ _⟩

end CdkValidium.SequenceSender
