import Mathlib

/-!
# Detecting an L1 reorganisation

Before reading new L1 blocks, `ClientSynchronizer.syncBlocks` calls
`checkReorg` with the last block it synced.  `checkReorg`
(`synchronizer/synchronizer.go`) asks L1 for the block at that number; while
L1's hash or parent hash differs from the stored one (above the genesis
block), it steps one block back in the database (`GetPreviousBlock` at a
growing offset).  It returns `nil` when nothing changed, the first stored
block L1 still agrees with, or the empty block when it runs out of stored
blocks.  A block it returns is where the state is reset to.

The database is the table `state.block`, which `GetPreviousBlock` reads newest
first (`ORDER BY block_num DESC OFFSET depth`).  The loop carries fuel, one
unit per L1 request.

* `checkReorgLoop_eq`: with the latest block stored first and enough fuel,
  the loop stops at the first stored block L1 agrees with, or finds none.
* `reorgTarget`: the block the synchronizer should go back to: none when L1
  still agrees with the latest block, else the first older stored block it
  agrees with.

The end of `checkReorg` compares the block the loop stopped at with the latest
block by hash only.  The blocks of `state.block` are blocks of one chain, so
no older one has the latest block's hash, and `checkReorg` returns
`reorgTarget` (`checkReorg_eq_reorgTarget`).
-/

namespace CdkValidium

namespace State

/-- `state.Block` without `ReceivedAt`; hashes are numbers. -/
structure Block where
  blockNumber : UInt64
  blockHash : Nat
  parentHash : Nat
  deriving DecidableEq, Repr

/-- `&state.Block{}`. -/
def emptyBlock : Block := ⟨0, 0, 0⟩

/-- `GetPreviousBlock(offset)` over the table read newest first; `none` is
`ErrNotFound`. -/
def getPreviousBlock (stored : List Block) (offset : Nat) : Option Block := stored[offset]?

end State

namespace Synchronizer

open State

/-- The fields of the L1 block `EthBlockByNumber` returns that the check reads. -/
structure EthBlock where
  number : UInt64
  hash : Nat
  parentHash : Nat
  deriving DecidableEq, Repr

/-- What `checkReorg` talks to: L1, the database table and its transaction
calls, and the genesis block number of the configuration. -/
structure ReorgEnv where
  ethBlockByNumber : UInt64 → Except String EthBlock
  beginStateTransaction : Except String Unit
  commit : Except String Unit
  rollback : Except String Unit
  stored : List Block
  genesisBlockNum : UInt64

/-- How the loop of `checkReorg` ends without an error: at a block L1 agrees
with (`break`), or with no previous block in the database. -/
inductive LoopExit
  | stop (latestBlock : Block)
  | notFound
  deriving DecidableEq, Repr

/-- L1's block at `b`'s number no longer has `b`'s hash and parent, and `b` is
above the genesis block: the loop steps further back. -/
def reorged (genesisBlockNum : UInt64) (block : EthBlock) (b : Block) : Prop :=
  (block.hash ≠ b.blockHash ∨ block.parentHash ≠ b.parentHash) ∧ b.blockNumber > genesisBlockNum

instance (genesisBlockNum : UInt64) (block : EthBlock) (b : Block) :
    Decidable (reorged genesisBlockNum block b) :=
  inferInstanceAs (Decidable (_ ∧ _))

/-- The `for` loop of `checkReorg`, from `latestBlock` found at offset `depth`,
with `fuel` L1 requests left. -/
def checkReorgLoop (env : ReorgEnv) : Nat → Block → Nat → Option (Except String LoopExit)
  | 0, _, _ => none
  | fuel + 1, latestBlock, depth =>
    match env.ethBlockByNumber latestBlock.blockNumber with
    | .error err => some (.error err)
    | .ok block =>
      if block.number ≠ latestBlock.blockNumber then
        some (.error ("wrong ethereum block retrieved from blockchain. Block numbers don't match. " ++
          "BlockNumber stored: " ++ toString latestBlock.blockNumber ++ ". BlockNumber retrieved: " ++
          toString block.number))
      else if reorged env.genesisBlockNum block latestBlock then
        match env.beginStateTransaction with
        | .error err => some (.error err)
        | .ok () =>
          match env.commit with
          | .error errC =>
            match env.rollback with
            | .error rollbackErr => some (.error rollbackErr)
            | .ok () => some (.error errC)
          | .ok () =>
            match getPreviousBlock env.stored (depth + 1) with
            | none => some (.ok .notFound)
            | some previous => checkReorgLoop env fuel previous (depth + 1)
      else some (.ok (.stop latestBlock))

/-- `checkReorg`: the block to go back to, `none` for `nil`. -/
def checkReorg (env : ReorgEnv) (fuel : Nat) (latestBlock : Block) : Option (Except String (Option Block)) :=
  (checkReorgLoop env fuel latestBlock 0).map fun r => r.map fun
    | .notFound => some emptyBlock
    | .stop block => if latestBlock.blockHash ≠ block.blockHash then some block else none

/-! ### Against an L1 chain -/

/-- L1 as a chain, the hash and parent hash of its block at every number, with
a database whose transaction calls succeed. -/
def chainEnv (hash parentHash : UInt64 → Nat) (genesisBlockNum : UInt64) (stored : List Block) : ReorgEnv :=
  ⟨fun n => .ok ⟨n, hash n, parentHash n⟩, .ok (), .ok (), .ok (), stored, genesisBlockNum⟩

/-- `b` is at or below the genesis block, or L1 still has its hash and parent
hash at its number. -/
def agrees (hash parentHash : UInt64 → Nat) (genesisBlockNum : UInt64) (b : Block) : Bool :=
  decide (b.blockNumber ≤ genesisBlockNum) ||
    (decide (hash b.blockNumber = b.blockHash) && decide (parentHash b.blockNumber = b.parentHash))

/-- The block a reorganisation should take the synchronizer back to: none when
L1 agrees with the latest block, else the first older stored block L1 agrees
with, or the empty block. -/
def reorgTarget (hash parentHash : UInt64 → Nat) (genesisBlockNum : UInt64) (stored : List Block)
    (latest : Block) : Option Block :=
  if agrees hash parentHash genesisBlockNum latest then none
  else some (((stored.drop 1).find? (agrees hash parentHash genesisBlockNum)).getD emptyBlock)

section Chain

variable {hash parentHash : UInt64 → Nat} {genesisBlockNum : UInt64} {stored : List Block}

theorem reorged_iff (b : Block) :
    reorged genesisBlockNum ⟨b.blockNumber, hash b.blockNumber, parentHash b.blockNumber⟩ b ↔
      agrees hash parentHash genesisBlockNum b = false := by
  simp only [reorged, agrees, Bool.or_eq_false_iff, Bool.and_eq_false_iff, decide_eq_false_iff_not]
  constructor
  · rintro ⟨hne, hgt⟩
    exact ⟨UInt64.not_le.mpr hgt, hne⟩
  · rintro ⟨hgt, hne⟩
    exact ⟨hne, UInt64.not_le.mp hgt⟩

/-- With enough fuel, the loop from the stored block at `depth` stops at the
first block from there on that L1 agrees with, or finds none. -/
theorem checkReorgLoop_eq :
    ∀ (fuel depth : Nat) (cur : Block), stored[depth]? = some cur → stored.length - depth ≤ fuel →
      checkReorgLoop (chainEnv hash parentHash genesisBlockNum stored) fuel cur depth =
        some (.ok (match (stored.drop depth).find? (agrees hash parentHash genesisBlockNum) with
          | some b => .stop b
          | none => .notFound)) := by
  intro fuel
  induction fuel with
  | zero =>
    intro depth cur hcur hfuel
    have := (List.getElem?_eq_some_iff.mp hcur).1
    omega
  | succ fuel ih =>
    intro depth cur hcur hfuel
    have hdrop : stored.drop depth = cur :: stored.drop (depth + 1) := by
      obtain ⟨hlt, rfl⟩ := List.getElem?_eq_some_iff.mp hcur
      exact List.drop_eq_getElem_cons hlt
    rw [hdrop]
    by_cases hag : agrees hash parentHash genesisBlockNum cur = true
    · have hnot : ¬ reorged genesisBlockNum ⟨cur.blockNumber, hash cur.blockNumber, parentHash cur.blockNumber⟩ cur := by
        rw [reorged_iff, hag]
        simp
      simp [checkReorgLoop, chainEnv, hnot, hag]
    · have hag' : agrees hash parentHash genesisBlockNum cur = false := by simpa using hag
      have hre := (@reorged_iff hash parentHash genesisBlockNum cur).mpr hag'
      simp only [checkReorgLoop, chainEnv, ne_eq, not_true_eq_false, ↓reduceIte, hre, List.find?_cons,
        hag', getPreviousBlock]
      cases hnext : stored[depth + 1]? with
      | none => simp [List.drop_eq_nil_of_le (by simpa using hnext)]
      | some next => exact ih (depth + 1) next hnext (by omega)

/-- **The block a reorganisation goes back to.**  With the latest block first
in the database, no older stored block with the latest block's hash, and one
L1 request per stored block, `checkReorg` returns: nothing when L1 agrees with
the latest block, else the first older stored block L1 agrees with (or at or
below genesis), or the empty block when there is none. -/
theorem checkReorg_eq_reorgTarget {latest : Block} (hlatest : stored.head? = some latest)
    (hhash : ∀ b ∈ stored.tail, b.blockHash ≠ latest.blockHash) {fuel : Nat} (hfuel : stored.length ≤ fuel) :
    checkReorg (chainEnv hash parentHash genesisBlockNum stored) fuel latest =
      some (.ok (reorgTarget hash parentHash genesisBlockNum stored latest)) := by
  obtain ⟨rest, rfl⟩ : ∃ rest, stored = latest :: rest := by
    cases stored with
    | nil => cases hlatest
    | cons b rest => exact ⟨rest, by rw [Option.some.inj hlatest]⟩
  rw [checkReorg, checkReorgLoop_eq fuel 0 latest rfl (by omega)]
  simp only [List.drop_zero, List.find?_cons, reorgTarget, List.drop_one, List.tail_cons]
  cases hag : agrees hash parentHash genesisBlockNum latest with
  | true => simp [Except.map]
  | false =>
    cases hfind : rest.find? (agrees hash parentHash genesisBlockNum) with
    | none => rfl
    | some b =>
      have hne : latest.blockHash ≠ b.blockHash := (hhash b (List.mem_of_find?_eq_some hfind)).symm
      simp [Except.map, hne]

theorem checkReorg_eq_reorgTarget_two_blocks :
    checkReorg (chainEnv (fun n => if n = 10 then 5 else 7) (fun n => if n = 10 then 2 else 3) 0
        [⟨10, 1, 2⟩, ⟨9, 7, 3⟩]) 2 ⟨10, 1, 2⟩ =
      some (.ok (reorgTarget (fun n => if n = 10 then 5 else 7) (fun n => if n = 10 then 2 else 3) 0
        [⟨10, 1, 2⟩, ⟨9, 7, 3⟩] ⟨10, 1, 2⟩)) :=
  checkReorg_eq_reorgTarget rfl (by decide) (by decide)

end Chain

end Synchronizer

end CdkValidium
