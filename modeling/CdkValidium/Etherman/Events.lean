import CdkValidium.Go.Basic
import CdkValidium.Lib.Runs

/-!
# Reading L1 events and replaying them

`etherman.readEvents` turns the logs of a block range into a list of
`Block`s, each with one list per kind of event, and an order map
`blockHash → []Order` whose entries `{Name, Pos}` say which event of which
list comes next.  Six handlers share one shape: open a new block when the
log's `(BlockNumber, BlockHash)` is not the last block's, else extend the
last block; append the decoded event to the list of its kind; append
`{kind, len - 1}` to the order of the last block's hash.  Logs of the other
topics are only logged.  `synchronizer.processBlockRange` walks the blocks and,
for each, the entries of `order[block.BlockHash]`, and applies the event each
one names.

The events each kind carries are the family `P`: their contents are what
parsing the log (and the transactions and full block it needs) gave, and the
replay does not look into them.  `processBlockRange` is given as the events it
applies, in order (`processBlockRange_readEvents`).
-/

namespace CdkValidium.Etherman

/-- `EventOrder`: the kinds of event a block keeps a list of. -/
inductive EventOrder
  | globalExitRootsOrder
  | sequenceBatchesOrder
  | forcedBatchesOrder
  | trustedVerifyBatchOrder
  | sequenceForceBatchesOrder
  | forkIDsOrder
  deriving DecidableEq, Repr

structure Order where
  name : EventOrder
  pos : Nat
  deriving DecidableEq, Repr

variable {Hash : Type} {P : EventOrder → Type}

/-- What the handlers use of `BlockByHash`: the parent hash and the time. -/
structure FullBlock (Hash : Type) where
  parentHash : Hash
  time : Nat

/-- `etherman.Block`. -/
structure Block (Hash : Type) (P : EventOrder → Type) where
  blockNumber : Nat
  blockHash : Hash
  parentHash : Hash
  receivedAt : Nat
  globalExitRoots : List (P .globalExitRootsOrder)
  forcedBatches : List (P .forcedBatchesOrder)
  sequencedBatches : List (P .sequenceBatchesOrder)
  verifiedBatches : List (P .trustedVerifyBatchOrder)
  sequencedForceBatches : List (P .sequenceForceBatchesOrder)
  forkIDs : List (P .forkIDsOrder)

/-- The list of a block an `EventOrder` names. -/
def Block.events (b : Block Hash P) : (k : EventOrder) → List (P k)
  | .globalExitRootsOrder => b.globalExitRoots
  | .sequenceBatchesOrder => b.sequencedBatches
  | .forcedBatchesOrder => b.forcedBatches
  | .trustedVerifyBatchOrder => b.verifiedBatches
  | .sequenceForceBatchesOrder => b.sequencedForceBatches
  | .forkIDsOrder => b.forkIDs

/-- `block.X = append(block.X, event)` for the list `k` names. -/
def Block.push (b : Block Hash P) : (k : EventOrder) → P k → Block Hash P
  | .globalExitRootsOrder, e => { b with globalExitRoots := b.globalExitRoots ++ [e] }
  | .sequenceBatchesOrder, e => { b with sequencedBatches := b.sequencedBatches ++ [e] }
  | .forcedBatchesOrder, e => { b with forcedBatches := b.forcedBatches ++ [e] }
  | .trustedVerifyBatchOrder, e => { b with verifiedBatches := b.verifiedBatches ++ [e] }
  | .sequenceForceBatchesOrder, e => { b with sequencedForceBatches := b.sequencedForceBatches ++ [e] }
  | .forkIDsOrder, e => { b with forkIDs := b.forkIDs ++ [e] }

/-- A log as `processEvent` sees it: its block, and for a topic with a handler
the kind of event and what parsing it gave; `none` for a topic that is only
logged. -/
structure Log (Hash : Type) (P : EventOrder → Type) where
  blockNumber : Nat
  blockHash : Hash
  event : Option ((k : EventOrder) × Except String (P k))

def prepareBlock (vLog : Log Hash P) (fullBlock : FullBlock Hash) : Block Hash P :=
  ⟨vLog.blockNumber, vLog.blockHash, fullBlock.parentHash, fullBlock.time, [], [], [], [], [], []⟩

/-- The event an order entry names in block `b`; `b.X[Pos]` past the end panics. -/
def Block.event (b : Block Hash P) (element : Order) : Except Go.Panic ((k : EventOrder) × P k) :=
  match (b.events element.name)[element.pos]? with
  | some e => .ok ⟨element.name, e⟩
  | none => .error .indexOutOfRange

/-- The events `processBlockRange` applies, in the order it applies them: for
every block, those of the entries of `order[block.BlockHash]`. -/
def processBlockRange (blocks : List (Block Hash P)) (order : Hash → List Order) :
    Except Go.Panic (List ((k : EventOrder) × P k)) :=
  blocks.foldlM (fun applied b => do
    let events ← (order b.blockHash).mapM b.event
    pure (applied ++ events)) []

def Log.pair (vLog : Log Hash P) : Nat × Hash := (vLog.blockNumber, vLog.blockHash)

/-- The block a `Block` stands for. -/
def Block.pair (b : Block Hash P) : Nat × Hash := (b.blockNumber, b.blockHash)

def Log.handled (vLog : Log Hash P) : Bool := vLog.event.isSome

/-- The decoded events of the logs with a handler, in log order. -/
def decodedEvents (logs : List (Log Hash P)) : List ((k : EventOrder) × P k) :=
  logs.filterMap fun vLog =>
    match vLog.event with
    | some ⟨k, .ok e⟩ => some ⟨k, e⟩
    | _ => none

/-! ### Blocks -/

section Blocks

variable {b : Block Hash P} {k : EventOrder}

@[simp] theorem Block.events_push_self (e : P k) : (b.push k e).events k = b.events k ++ [e] := by
  cases k <;> rfl

theorem Block.events_push_of_ne {k' : EventOrder} (e : P k) (h : k' ≠ k) :
    (b.push k e).events k' = b.events k' := by
  cases k <;> cases k' <;> first | rfl | exact absurd rfl h

@[simp] theorem Block.pair_push (e : P k) : (b.push k e).pair = b.pair := by
  cases k <;> rfl

@[simp] theorem Block.blockHash_push (e : P k) : (b.push k e).blockHash = b.blockHash := by
  cases k <;> rfl

@[simp] theorem pair_prepareBlock (vLog : Log Hash P) (fullBlock : FullBlock Hash) :
    (prepareBlock vLog fullBlock).pair = vLog.pair := rfl

@[simp] theorem blockHash_prepareBlock (vLog : Log Hash P) (fullBlock : FullBlock Hash) :
    (prepareBlock vLog fullBlock).blockHash = vLog.blockHash := rfl

@[simp] theorem events_prepareBlock (vLog : Log Hash P) (fullBlock : FullBlock Hash) (k : EventOrder) :
    (prepareBlock vLog fullBlock).events k = [] := by
  cases k <;> rfl

theorem Block.pair_eq_iff {vLog : Log Hash P} :
    b.pair = vLog.pair ↔ b.blockHash = vLog.blockHash ∧ b.blockNumber = vLog.blockNumber := by
  simp only [Block.pair, Log.pair, Prod.mk.injEq]
  exact and_comm

theorem Block.event_push_of_lt (e : P k) {o : Order} (ho : o.pos < (b.events o.name).length) :
    (b.push k e).event o = b.event o := by
  unfold Block.event
  by_cases hk : o.name = k
  · subst hk
    rw [Block.events_push_self, List.getElem?_append_left ho]
  · rw [Block.events_push_of_ne e hk]

theorem Block.event_push_last (e : P k) : (b.push k e).event ⟨k, (b.events k).length⟩ = .ok ⟨k, e⟩ := by
  simp [Block.event]

end Blocks

/-! ### The replay of a list of blocks -/

section Replay

variable {order order' : Hash → List Order}

theorem processBlockRange_nil (order : Hash → List Order) :
    processBlockRange ([] : List (Block Hash P)) order = .ok [] := rfl

theorem processBlockRange_append_singleton (blocks : List (Block Hash P)) (b : Block Hash P)
    (order : Hash → List Order) :
    processBlockRange (blocks ++ [b]) order = (processBlockRange blocks order >>= fun applied =>
      (order b.blockHash).mapM b.event >>= fun events => pure (applied ++ events)) := by
  simp only [processBlockRange, List.foldlM_append, List.foldlM_cons, List.foldlM_nil, bind_pure]

theorem processBlockRange_congr :
    ∀ {blocks : List (Block Hash P)}, (∀ b ∈ blocks, order' b.blockHash = order b.blockHash) →
      processBlockRange blocks order' = processBlockRange blocks order := by
  intro blocks
  induction blocks using List.reverseRecOn with
  | nil => exact fun _ => rfl
  | append_singleton blocks b ih =>
    intro h
    rw [processBlockRange_append_singleton, processBlockRange_append_singleton,
      ih fun b' hb' => h b' (by simp [hb']), h b (by simp)]

theorem mapM_event_of_lt {b : Block Hash P} :
    ∀ {entries : List Order}, (∀ o ∈ entries, o.pos < (b.events o.name).length) →
      ∃ events, entries.mapM b.event = .ok events := by
  intro entries
  induction entries with
  | nil => exact fun _ => ⟨[], rfl⟩
  | cons o entries ih =>
    intro h
    obtain ⟨events, hevents⟩ := ih fun o' ho' => h o' (List.mem_cons_of_mem _ ho')
    have ho := h o List.mem_cons_self
    refine ⟨⟨o.name, (b.events o.name)[o.pos]⟩ :: events, ?_⟩
    simp only [List.mapM_cons, Block.event, List.getElem?_eq_getElem ho, hevents]
    rfl

theorem mapM_event_push {b : Block Hash P} {k : EventOrder} (e : P k) :
    ∀ {entries : List Order}, (∀ o ∈ entries, o.pos < (b.events o.name).length) →
      entries.mapM (b.push k e).event = entries.mapM b.event := by
  intro entries
  induction entries with
  | nil => exact fun _ => rfl
  | cons o entries ih =>
    intro h
    rw [List.mapM_cons, List.mapM_cons, Block.event_push_of_lt e (h o List.mem_cons_self),
      ih fun o' ho' => h o' (List.mem_cons_of_mem _ ho')]

end Replay

/-! ### Order entries that enumerate a block -/

/-- The entries of kind `k` among `entries` are `{k, 0}, {k, 1}, …`, one for
each event of `b`'s list of kind `k`, in that order. -/
def Block.Enumerates (b : Block Hash P) (entries : List Order) : Prop :=
  ∀ k, entries.filter (fun o => decide (o.name = k)) = (List.range (b.events k).length).map (Order.mk k)

section Enumerates

variable {b : Block Hash P} {entries : List Order}

theorem Block.Enumerates.lt (h : b.Enumerates entries) {o : Order} (ho : o ∈ entries) :
    o.pos < (b.events o.name).length := by
  have hmem : o ∈ entries.filter (fun o' => decide (o'.name = o.name)) := List.mem_filter.mpr ⟨ho, by simp⟩
  rw [h o.name] at hmem
  obtain ⟨i, hi, hoi⟩ := List.mem_map.mp hmem
  rw [← hoi]
  exact List.mem_range.mp hi

theorem Block.Enumerates.push (h : b.Enumerates entries) {k : EventOrder} (e : P k) :
    (b.push k e).Enumerates (entries ++ [⟨k, (b.events k).length⟩]) := by
  intro k'
  rw [List.filter_append]
  by_cases hk : k = k'
  · subst hk
    rw [h k, Block.events_push_self, List.length_append, List.length_singleton, List.range_succ,
      List.map_append]
    simp
  · rw [h k', Block.events_push_of_ne e (Ne.symm hk)]
    simp [hk]

theorem enumerates_prepareBlock (vLog : Log Hash P) (fullBlock : FullBlock Hash) :
    (prepareBlock vLog fullBlock).Enumerates [] := by
  intro k
  simp

end Enumerates

/-! ### One more log -/

section Logs

variable {done : List (Log Hash P)} {vLog : Log Hash P}

theorem decodedEvents_append_of_none (hev : vLog.event = none) :
    decodedEvents (done ++ [vLog]) = decodedEvents done := by
  simp [decodedEvents, hev]

theorem decodedEvents_append_of_ok {k : EventOrder} {e : P k} (hev : vLog.event = some ⟨k, .ok e⟩) :
    decodedEvents (done ++ [vLog]) = decodedEvents done ++ [⟨k, e⟩] := by
  simp [decodedEvents, hev]

theorem filter_handled_append_of_none (hev : vLog.event = none) :
    (done ++ [vLog]).filter Log.handled = done.filter Log.handled := by
  simp [Log.handled, hev]

theorem filter_handled_append_of_ok {k : EventOrder} {e : P k} (hev : vLog.event = some ⟨k, .ok e⟩) :
    (done ++ [vLog]).filter Log.handled = done.filter Log.handled ++ [vLog] := by
  simp [Log.handled, hev]

end Logs

variable [DecidableEq Hash]

/-- `EthClient.BlockByHash(vLog.BlockHash)` with the handlers' error text. -/
def fetchBlock (blockByHash : Hash → Except String (FullBlock Hash)) (vLog : Log Hash P) :
    Except String (FullBlock Hash) :=
  match blockByHash vLog.blockHash with
  | .error e => .error ("error getting hashParent. BlockNumber: " ++ toString vLog.blockNumber ++ ". Error: " ++ e)
  | .ok fullBlock => .ok fullBlock

/-- `blocksOrder[b.BlockHash] = append(blocksOrder[b.BlockHash], Order{k, len(b.X) - 1})`
for the block `b` an event of kind `k` was just added to. -/
def recordOrder (blocksOrder : Hash → List Order) (b : Block Hash P) (k : EventOrder) : Hash → List Order :=
  Function.update blocksOrder b.blockHash (blocksOrder b.blockHash ++ [⟨k, (b.events k).length - 1⟩])

/-- The body the six handlers share, once their event is decoded.  The
handlers of `ForceBatch` and `SequenceForceBatches` read the full block
before they look at `blocks` (`fetchFirst`), the others only for a new block.
The source's third branch, reached when neither the new-block test nor its
negation holds, cannot be taken. -/
def addEvent (blockByHash : Hash → Except String (FullBlock Hash)) (fetchFirst : Bool) (k : EventOrder)
    (vLog : Log Hash P) (event : P k) (blocks : List (Block Hash P)) (blocksOrder : Hash → List Order) :
    Except String (List (Block Hash P) × (Hash → List Order)) := do
  let fetched ← (if fetchFirst then some <$> fetchBlock blockByHash vLog else pure none :
    Except String (Option (FullBlock Hash)))
  match blocks.getLast? with
  | some last =>
    if last.blockHash = vLog.blockHash ∧ last.blockNumber = vLog.blockNumber then
      pure (blocks.dropLast ++ [last.push k event], recordOrder blocksOrder (last.push k event) k)
    else newBlock fetched
  | none => newBlock fetched
where
  newBlock (fetched : Option (FullBlock Hash)) :
      Except String (List (Block Hash P) × (Hash → List Order)) := do
    let fullBlock ← (match fetched with
      | some fullBlock => pure fullBlock
      | none => fetchBlock blockByHash vLog : Except String (FullBlock Hash))
    let b := (prepareBlock vLog fullBlock).push k event
    pure (blocks ++ [b], recordOrder blocksOrder b k)

def updateGlobalExitRootEvent (blockByHash : Hash → Except String (FullBlock Hash)) (vLog : Log Hash P) :=
  addEvent blockByHash false .globalExitRootsOrder vLog

def forcedBatchEvent (blockByHash : Hash → Except String (FullBlock Hash)) (vLog : Log Hash P) :=
  addEvent blockByHash true .forcedBatchesOrder vLog

def sequencedBatchesEvent (blockByHash : Hash → Except String (FullBlock Hash)) (vLog : Log Hash P) :=
  addEvent blockByHash false .sequenceBatchesOrder vLog

def verifyBatchesTrustedAggregatorEvent (blockByHash : Hash → Except String (FullBlock Hash))
    (vLog : Log Hash P) :=
  addEvent blockByHash false .trustedVerifyBatchOrder vLog

def forceSequencedBatchesEvent (blockByHash : Hash → Except String (FullBlock Hash)) (vLog : Log Hash P) :=
  addEvent blockByHash true .sequenceForceBatchesOrder vLog

def updateZkevmVersion (blockByHash : Hash → Except String (FullBlock Hash)) (vLog : Log Hash P) :=
  addEvent blockByHash false .forkIDsOrder vLog

/-- `processEvent`: the handler of the log's topic, or nothing. -/
def processEvent (blockByHash : Hash → Except String (FullBlock Hash)) (blocks : List (Block Hash P))
    (blocksOrder : Hash → List Order) (vLog : Log Hash P) :
    Except String (List (Block Hash P) × (Hash → List Order)) :=
  match vLog.event with
  | none => .ok (blocks, blocksOrder)
  | some ⟨_, .error e⟩ => .error e
  | some ⟨.sequenceBatchesOrder, .ok e⟩ => sequencedBatchesEvent blockByHash vLog e blocks blocksOrder
  | some ⟨.globalExitRootsOrder, .ok e⟩ => updateGlobalExitRootEvent blockByHash vLog e blocks blocksOrder
  | some ⟨.forcedBatchesOrder, .ok e⟩ => forcedBatchEvent blockByHash vLog e blocks blocksOrder
  | some ⟨.trustedVerifyBatchOrder, .ok e⟩ =>
    verifyBatchesTrustedAggregatorEvent blockByHash vLog e blocks blocksOrder
  | some ⟨.sequenceForceBatchesOrder, .ok e⟩ => forceSequencedBatchesEvent blockByHash vLog e blocks blocksOrder
  | some ⟨.forkIDsOrder, .ok e⟩ => updateZkevmVersion blockByHash vLog e blocks blocksOrder

/-- `readEvents`: every log of `FilterLogs` through `processEvent`, from no
block and an empty order map; the first error stops it. -/
def readEvents (blockByHash : Hash → Except String (FullBlock Hash))
    (filterLogs : Except String (List (Log Hash P))) :
    Except String (List (Block Hash P) × (Hash → List Order)) := do
  let logs ← filterLogs
  logs.foldlM (fun acc vLog => processEvent blockByHash acc.1 acc.2 vLog) ([], fun _ => [])


/-! ### What one log does to the blocks and the order map -/

section Step

variable {blockByHash : Hash → Except String (FullBlock Hash)}
  {pre blocks blocks' : List (Block Hash P)} {order order' : Hash → List Order}
  {b : Block Hash P} {vLog : Log Hash P} {k : EventOrder}

theorem recordOrder_push (e : P k) :
    recordOrder order (b.push k e) k =
      Function.update order b.blockHash (order b.blockHash ++ [⟨k, (b.events k).length⟩]) := by
  simp [recordOrder]

theorem recordOrder_push_of_ne (e : P k) {h : Hash} (hh : h ≠ b.blockHash) :
    recordOrder order (b.push k e) k h = order h := by
  rw [recordOrder_push]
  exact Function.update_of_ne hh _ _

theorem recordOrder_push_self (e : P k) :
    recordOrder order (b.push k e) k b.blockHash = order b.blockHash ++ [⟨k, (b.events k).length⟩] := by
  rw [recordOrder_push]
  exact Function.update_self _ _ _

theorem addEvent_eq_ok {fetchFirst : Bool} {e : P k} {r : List (Block Hash P) × (Hash → List Order)}
    (h : addEvent blockByHash fetchFirst k vLog e blocks order = .ok r) :
    (∃ last, blocks.getLast? = some last ∧ last.pair = vLog.pair ∧
      r = (blocks.dropLast ++ [last.push k e], recordOrder order (last.push k e) k)) ∨
    ((∀ last, blocks.getLast? = some last → last.pair ≠ vLog.pair) ∧
      ∃ fullBlock, r = (blocks ++ [(prepareBlock vLog fullBlock).push k e],
        recordOrder order ((prepareBlock vLog fullBlock).push k e) k)) := by
  have hnew : ∀ fetched, addEvent.newBlock blockByHash k vLog e blocks order fetched = .ok r →
      ∃ fullBlock, r = (blocks ++ [(prepareBlock vLog fullBlock).push k e],
        recordOrder order ((prepareBlock vLog fullBlock).push k e) k) := by
    intro fetched hn
    unfold addEvent.newBlock at hn
    obtain ⟨fullBlock, -, hr⟩ := Go.except_bind_eq_ok.mp hn
    exact ⟨fullBlock, (Except.ok.inj hr).symm⟩
  unfold addEvent at h
  obtain ⟨fetched, -, h⟩ := Go.except_bind_eq_ok.mp h
  cases hlast : blocks.getLast? with
  | none =>
    rw [hlast] at h
    exact .inr ⟨fun _ h' => (by cases h'), hnew fetched h⟩
  | some last =>
    rw [hlast] at h
    dsimp only at h
    by_cases hp : last.pair = vLog.pair
    · rw [if_pos (Block.pair_eq_iff.mp hp)] at h
      exact .inl ⟨last, rfl, hp, (Except.ok.inj h).symm⟩
    · rw [if_neg (mt Block.pair_eq_iff.mpr hp)] at h
      exact .inr ⟨fun l hl => Option.some.inj hl ▸ hp, hnew fetched h⟩

theorem processEvent_eq_ok {r : List (Block Hash P) × (Hash → List Order)}
    (h : processEvent blockByHash blocks order vLog = .ok r) :
    (vLog.event = none ∧ r = (blocks, order)) ∨
    ∃ k e fetchFirst, vLog.event = some ⟨k, .ok e⟩ ∧
      addEvent blockByHash fetchFirst k vLog e blocks order = .ok r := by
  unfold processEvent at h
  rcases hev : vLog.event with _ | ⟨k, _ | e⟩ <;> rw [hev] at h
  · exact .inl ⟨rfl, (Except.ok.inj h).symm⟩
  · cases h
  · cases k <;> exact .inr ⟨_, e, _, rfl, h⟩

theorem enumerates_push (hnd : b.blockHash ∉ pre.map Block.blockHash)
    (hen : ∀ b' ∈ pre ++ [b], b'.Enumerates (order b'.blockHash)) (e : P k) :
    ∀ b' ∈ pre ++ [b.push k e], b'.Enumerates (recordOrder order (b.push k e) k b'.blockHash) := by
  intro b' hb'
  rcases List.mem_append.mp hb' with hb' | hb'
  · have hne : b'.blockHash ≠ b.blockHash := fun h => hnd (h ▸ List.mem_map_of_mem hb')
    rw [recordOrder_push_of_ne e hne]
    exact hen b' (List.mem_append_left _ hb')
  · rw [List.mem_singleton.mp hb', Block.blockHash_push, recordOrder_push_self]
    exact (hen b (by simp)).push e

theorem fresh_push (hfr : ∀ h ∉ (pre ++ [b]).map Block.blockHash, order h = []) (e : P k) :
    ∀ h ∉ (pre ++ [b.push k e]).map Block.blockHash, recordOrder order (b.push k e) k h = [] := by
  intro h hh
  have hmap : (pre ++ [b.push k e]).map Block.blockHash = (pre ++ [b]).map Block.blockHash := by simp
  rw [hmap] at hh
  have hne : h ≠ b.blockHash := fun h' => hh (by simp [h'])
  rw [recordOrder_push_of_ne e hne]
  exact hfr h hh

theorem processBlockRange_push (hnd : b.blockHash ∉ pre.map Block.blockHash)
    (hen : b.Enumerates (order b.blockHash)) {applied : List ((k : EventOrder) × P k)}
    (hr : processBlockRange (pre ++ [b]) order = .ok applied) (e : P k) :
    processBlockRange (pre ++ [b.push k e]) (recordOrder order (b.push k e) k) =
      .ok (applied ++ [⟨k, e⟩]) := by
  rw [processBlockRange_append_singleton] at hr ⊢
  obtain ⟨A, hA, hr⟩ := Go.except_bind_eq_ok.mp hr
  obtain ⟨E, hE, hr⟩ := Go.except_bind_eq_ok.mp hr
  have hpre : processBlockRange pre (recordOrder order (b.push k e) k) = .ok A := by
    rw [processBlockRange_congr fun b' hb' =>
      recordOrder_push_of_ne e fun h => hnd (h ▸ List.mem_map_of_mem hb')]
    exact hA
  have hlast : (recordOrder order (b.push k e) k (b.push k e).blockHash).mapM (b.push k e).event =
      .ok (E ++ [⟨k, e⟩]) := by
    rw [Block.blockHash_push, recordOrder_push_self, List.mapM_append,
      mapM_event_push e fun o ho => hen.lt ho, hE, List.mapM_cons, Block.event_push_last]
    rfl
  rw [hpre, hlast, ← (Except.ok.inj hr : A ++ E = applied), List.append_assoc]
  rfl

end Step

/-! ### The invariant of `readEvents` -/

/-- What `readEvents` has built after the logs `done`: one block per run of
handled logs, distinct block hashes, order entries that enumerate each block's
lists and none at other hashes, and a replay that gives the decoded events of
`done` in log order. -/
structure Replays (done : List (Log Hash P)) (blocks : List (Block Hash P)) (order : Hash → List Order) :
    Prop where
  runs : blocks.map Block.pair = ((done.filter Log.handled).map Log.pair).destutter (· ≠ ·)
  nodup : (blocks.map Block.blockHash).Nodup
  enumerates : ∀ b ∈ blocks, b.Enumerates (order b.blockHash)
  fresh : ∀ h ∉ blocks.map Block.blockHash, order h = []
  replay : processBlockRange blocks order = .ok (decodedEvents done)

section Replays

variable {blockByHash : Hash → Except String (FullBlock Hash)}
  {done rest : List (Log Hash P)} {blocks blocks' : List (Block Hash P)} {order order' : Hash → List Order}
  {vLog : Log Hash P} {k : EventOrder} {e : P k}

theorem replays_nil : Replays ([] : List (Log Hash P)) [] fun _ => [] :=
  ⟨rfl, List.nodup_nil, fun _ h => (by cases h), fun _ _ => rfl, rfl⟩

theorem Replays.skip (hinv : Replays done blocks order) (hev : vLog.event = none) :
    Replays (done ++ [vLog]) blocks order := by
  refine ⟨?_, hinv.nodup, hinv.enumerates, hinv.fresh, ?_⟩
  · rw [filter_handled_append_of_none hev]
    exact hinv.runs
  · rw [decodedEvents_append_of_none hev]
    exact hinv.replay

theorem Replays.sameBlock (hinv : Replays done blocks order) (hev : vLog.event = some ⟨k, .ok e⟩)
    {last : Block Hash P} (hlast : blocks.getLast? = some last) (hp : last.pair = vLog.pair) :
    Replays (done ++ [vLog]) (blocks.dropLast ++ [last.push k e]) (recordOrder order (last.push k e) k) := by
  obtain ⟨pre, rfl⟩ := List.getLast?_eq_some_iff.mp hlast
  rw [List.dropLast_concat]
  have hnd : last.blockHash ∉ pre.map Block.blockHash := by
    have hnodup := hinv.nodup
    simp [List.nodup_append] at hnodup
    simpa using hnodup.2
  have hH : ((done.filter Log.handled).map Log.pair).getLast? = some vLog.pair := by
    rw [← Runs.getLast?_destutter, ← hinv.runs]
    simp [hp]
  refine ⟨?_, by simpa using hinv.nodup, enumerates_push hnd hinv.enumerates e,
    fresh_push hinv.fresh e, ?_⟩
  · simp only [filter_handled_append_of_ok hev, List.map_append, List.map_singleton]
    rw [Runs.destutter_append_singleton, if_pos hH, ← hinv.runs]
    simp
  · rw [decodedEvents_append_of_ok hev]
    exact processBlockRange_push hnd (hinv.enumerates last (by simp)) hinv.replay e

theorem Replays.newBlock (hinv : Replays done blocks order) (hev : vLog.event = some ⟨k, .ok e⟩)
    (hnot : ∀ last, blocks.getLast? = some last → last.pair ≠ vLog.pair)
    (hfresh : vLog.blockHash ∉ blocks.map Block.blockHash) (fullBlock : FullBlock Hash) :
    Replays (done ++ [vLog]) (blocks ++ [(prepareBlock vLog fullBlock).push k e])
      (recordOrder order ((prepareBlock vLog fullBlock).push k e) k) := by
  have hempty : order (prepareBlock vLog fullBlock).blockHash = [] := hinv.fresh _ hfresh
  have hen : ∀ b' ∈ blocks ++ [prepareBlock vLog fullBlock], b'.Enumerates (order b'.blockHash) := by
    intro b' hb'
    rcases List.mem_append.mp hb' with hb' | hb'
    · exact hinv.enumerates b' hb'
    · rw [List.mem_singleton.mp hb', hempty]
      exact enumerates_prepareBlock vLog fullBlock
  have hfr : ∀ h ∉ (blocks ++ [prepareBlock vLog fullBlock]).map Block.blockHash, order h = [] :=
    fun h hh => hinv.fresh h fun hm => hh (by simp [hm])
  have hr : processBlockRange (blocks ++ [prepareBlock vLog fullBlock]) order = .ok (decodedEvents done) := by
    rw [processBlockRange_append_singleton, hinv.replay, hempty]
    simp [pure, Except.pure, bind, Except.bind]
  have hH : ((done.filter Log.handled).map Log.pair).getLast? ≠ some vLog.pair := by
    rw [← Runs.getLast?_destutter, ← hinv.runs, List.getLast?_map]
    intro h
    obtain ⟨last, hlast, hp⟩ := Option.map_eq_some_iff.mp h
    exact hnot last hlast hp
  refine ⟨?_, ?_, enumerates_push hfresh hen e, fresh_push hfr e, ?_⟩
  · simp only [filter_handled_append_of_ok hev, List.map_append, List.map_singleton]
    rw [Runs.destutter_append_singleton, if_neg hH, ← hinv.runs]
    simp
  · have hfresh' : ∀ a ∈ blocks, ¬a.blockHash = vLog.blockHash := by simpa using hfresh
    simpa [List.nodup_append] using ⟨hinv.nodup, hfresh'⟩
  · rw [decodedEvents_append_of_ok hev]
    exact processBlockRange_push hfresh (hen _ (by simp)) hr e

/-- One log, whatever `processEvent` does with it, keeps the invariant, given
that a log which opens a block has a hash no earlier block has. -/
theorem Replays.step (hinv : Replays done blocks order)
    (hnew : (∀ last, blocks.getLast? = some last → last.pair ≠ vLog.pair) →
      vLog.blockHash ∉ blocks.map Block.blockHash)
    (h : processEvent blockByHash blocks order vLog = .ok (blocks', order')) :
    Replays (done ++ [vLog]) blocks' order' := by
  rcases processEvent_eq_ok h with ⟨hev, hr⟩ | ⟨k, e, fetchFirst, hev, h⟩
  · obtain ⟨rfl, rfl⟩ := Prod.mk.inj hr
    exact hinv.skip hev
  · rcases addEvent_eq_ok h with ⟨last, hlast, hp, hr⟩ | ⟨hnot, fullBlock, hr⟩
    · obtain ⟨rfl, rfl⟩ := Prod.mk.inj hr
      exact hinv.sameBlock hev hlast hp
    · obtain ⟨rfl, rfl⟩ := Prod.mk.inj hr
      exact hinv.newBlock hev hnot (hnew hnot) fullBlock

theorem Replays.not_mem_of_contiguous (hinv : Replays done blocks order)
    (hc : Runs.Contiguous Log.pair (done ++ vLog :: rest))
    (hh : ∀ a ∈ done, a.blockHash = vLog.blockHash → a.blockNumber = vLog.blockNumber)
    (hnot : ∀ last, blocks.getLast? = some last → last.pair ≠ vLog.pair) :
    vLog.blockHash ∉ blocks.map Block.blockHash := by
  intro hmem
  obtain ⟨b, hb, hbh⟩ := List.mem_map.mp hmem
  -- `b` is the block of a handled log `d` of `done`, and `d` is of `vLog`'s block
  have hbp : b.pair ∈ (done.filter Log.handled).map Log.pair :=
    (List.destutter_sublist _ _).subset (hinv.runs ▸ List.mem_map_of_mem hb)
  obtain ⟨d, hd, hdb⟩ := List.mem_map.mp hbp
  have hdh : d.blockHash = vLog.blockHash := (congrArg Prod.snd hdb).trans hbh
  have hdv : d.pair = vLog.pair := by
    simp [Log.pair, hdh, hh d (List.mem_filter.mp hd).1 hdh]
  -- the last handled log `e` of `done` is of the last block, another block
  obtain ⟨last, hlast⟩ : ∃ last, blocks.getLast? = some last :=
    Option.isSome_iff_exists.mp (List.getLast?_isSome.mpr (List.ne_nil_of_mem hb))
  have hfilt : ((done.filter Log.handled).map Log.pair).getLast? = some last.pair := by
    rw [← Runs.getLast?_destutter, ← hinv.runs, List.getLast?_map, hlast]
    rfl
  rw [List.getLast?_map] at hfilt
  obtain ⟨e, he, hep⟩ := Option.map_eq_some_iff.mp hfilt
  obtain ⟨pre, post, rfl, -, hpost⟩ := Runs.exists_of_getLast?_filter he
  have hde : d.pair ≠ e.pair := fun h => hnot last hlast (hep ▸ h ▸ hdv)
  have hdpre : d ∈ pre := by
    obtain ⟨hdmem, hdhandled⟩ := List.mem_filter.mp hd
    rcases List.mem_append.mp hdmem with h | h
    · exact h
    · rcases List.mem_cons.mp h with h | h
      · exact absurd (congrArg Log.pair h) hde
      · exact absurd (hpost d h) (by simp [hdhandled])
  exact hde (hc.eq_of_mem_before hdpre hdv).symm

/-- The run lemma: from the invariant after `done`, the rest of the logs keep it. -/
theorem Replays.foldlM (hc : Runs.Contiguous Log.pair (done ++ rest))
    (hh : ∀ a ∈ done ++ rest, ∀ b ∈ done ++ rest, a.blockHash = b.blockHash → a.blockNumber = b.blockNumber)
    (hinv : Replays done blocks order) {r : List (Block Hash P) × (Hash → List Order)}
    (h : rest.foldlM (fun acc vLog => processEvent blockByHash acc.1 acc.2 vLog) (blocks, order) = .ok r) :
    Replays (done ++ rest) r.1 r.2 := by
  induction rest generalizing done blocks order with
  | nil =>
    rw [List.foldlM_nil] at h
    obtain rfl := (Except.ok.inj h)
    simpa using hinv
  | cons vLog rest ih =>
    rw [List.foldlM_cons] at h
    obtain ⟨⟨blocks', order'⟩, hstep, h⟩ := Go.except_bind_eq_ok.mp h
    have hinv' := hinv.step (fun hnot => hinv.not_mem_of_contiguous hc
      (fun a ha => hh a (by simp [ha]) vLog (by simp)) hnot) hstep
    have hassoc : done ++ vLog :: rest = done ++ [vLog] ++ rest := by simp
    rw [hassoc] at hc hh ⊢
    exact ih hc hh hinv' h

end Replays

/-- The replay of what `readEvents` returns: one block per run of handled logs,
order entries that enumerate every block's lists, and every decoded event
applied once, in log order. -/
theorem processBlockRange_readEvents {blockByHash : Hash → Except String (FullBlock Hash)}
    {logs : List (Log Hash P)} {blocks : List (Block Hash P)} {order : Hash → List Order}
    (hc : Runs.Contiguous Log.pair logs)
    (hh : ∀ a ∈ logs, ∀ b ∈ logs, a.blockHash = b.blockHash → a.blockNumber = b.blockNumber)
    (hr : readEvents blockByHash (.ok logs) = .ok (blocks, order)) :
    blocks.map Block.pair = ((logs.filter Log.handled).map Log.pair).destutter (· ≠ ·) ∧
    (∀ b ∈ blocks, b.Enumerates (order b.blockHash)) ∧
    processBlockRange blocks order = .ok (decodedEvents logs) := by
  have hfold : logs.foldlM (fun acc vLog => processEvent blockByHash acc.1 acc.2 vLog)
      ([], fun _ => []) = .ok (blocks, order) := hr
  have hinv : Replays ([] ++ logs) blocks order :=
    Replays.foldlM (by rwa [List.nil_append]) (by rwa [List.nil_append]) replays_nil hfold
  rw [List.nil_append] at hinv
  exact ⟨hinv.runs, hinv.enumerates, hinv.replay⟩

theorem processBlockRange_readEvents_two_blocks :
    let logs : List (Log Nat fun _ => Nat) := [⟨1, 10, some ⟨.globalExitRootsOrder, .ok 5⟩⟩,
      ⟨1, 10, none⟩, ⟨1, 10, some ⟨.sequenceBatchesOrder, .ok 6⟩⟩, ⟨2, 20, some ⟨.forkIDsOrder, .ok 7⟩⟩]
    let blockByHash : Nat → Except String (FullBlock Nat) := fun h => .ok ⟨h + 1, 0⟩
    Runs.Contiguous Log.pair logs ∧
      (∀ a ∈ logs, ∀ b ∈ logs, a.blockHash = b.blockHash → a.blockNumber = b.blockNumber) ∧
      ∃ blocks order, readEvents blockByHash (.ok logs) = .ok (blocks, order) ∧
        blocks.map Block.pair = [(1, 10), (2, 20)] ∧
        processBlockRange blocks order =
          .ok [⟨.globalExitRootsOrder, 5⟩, ⟨.sequenceBatchesOrder, 6⟩, ⟨.forkIDsOrder, 7⟩] := by
  intro logs blockByHash
  have hc : Runs.Contiguous Log.pair logs := Runs.contiguous_of_pairwise_le (by decide)
  have hh : ∀ a ∈ logs, ∀ b ∈ logs, a.blockHash = b.blockHash → a.blockNumber = b.blockNumber := by
    decide
  refine ⟨hc, hh, _, _, rfl, ?_⟩
  obtain ⟨hruns, -, hreplay⟩ := @processBlockRange_readEvents _ _ _ blockByHash logs _ _ hc hh rfl
  exact ⟨hruns.trans rfl, hreplay.trans rfl⟩

/-- A block whose logs all have topics without a handler gets no `Block`. -/
theorem readEvents_unhandled_block :
    let logs : List (Log Nat fun _ => Unit) := [⟨1, 0, none⟩]
    Runs.Contiguous Log.pair logs ∧
      readEvents (fun _ => .error "") (.ok logs) = .ok ([], fun _ => []) :=
  ⟨Runs.contiguous_of_pairwise_le (by decide), rfl⟩

end CdkValidium.Etherman
