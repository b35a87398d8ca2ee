import Mathlib.Data.List.Sort
import Rkb.Celestia.Client
import Rkb.Celestia.Index
import Rkb.Execution.Client

namespace Rkb.Sequencer.Sync

open Rkb.Library.Program
open Rkb.Types.Blocks
open Rkb.Execution.Errors
open Rkb.Execution.Forkchoice
open Rkb.Execution.Client
open Rkb.Celestia.Blobs
open Rkb.Celestia.Client
open Rkb.Celestia.Index
open Rkb.Node.Effects

/-- `some height` skips the sync. -/
def checkSyncPreconditions (index : BlockIndex) (genesisDaHeight currentCelestiaHeight : UInt64) :
    Option UInt64 :=
  if currentCelestiaHeight = 0 then some (index.latestHeight.getD 0)
  else if currentCelestiaHeight < genesisDaHeight then some (index.latestHeight.getD 0)
  else none

/-- A mismatch is logged and the sync goes on. -/
def checkParentContinuity (block : Block) (expectedParent : B256) : NodeProg Unit := do
  if block.height ≤ 1 then return ()
  else if block.parentHash ≠ expectedParent then
    let _ ← op (.warn "Parent hash mismatch, possible chain discontinuity")
    return ()
  else return ()

def executeSyncBlock (block : Block) (blockHash : B256) (blockHeight : UInt64) :
    NodeProg (Except Report Unit) := do
  match Report.wrapErr ExecutionError.display
    ("failed to execute block " ++ toString blockHeight) (← executeBlock block) with
  | .error e => return .error e
  | .ok result =>
      if !result.isValid then
        return .error (.bail ("block " ++ toString blockHeight ++ " invalid during sync: " ++
          result.status.debug))
      else
        let current : ForkchoiceState ← op .readForkchoice
        let newForkchoice := current.withSoft blockHash
        match Report.wrapErr ExecutionError.display
          ("failed to update forkchoice for block " ++ toString blockHeight)
          (← updateForkchoice newForkchoice) with
        | .error e => return .error e
        | .ok () => do
            let _ ← op (.writeForkchoice newForkchoice)
            return .ok ()

variable (json : IndexJson)

/-- The commitment is not available during sync. -/
def syncEntry (block : Block) (celestiaHeight : UInt64) : IndexEntry where
  blockHeight := block.height
  blockHash := block.blockHash
  celestiaHeight := celestiaHeight
  commitment := []

/-- The hash to use as next parent, and the index with the block in it. -/
def syncSingleBlock (index : BlockIndex) (block : Block) (celestiaHeight : UInt64)
    (expectedParent : B256) : NodeProg (Except Report (B256 × BlockIndex)) := do
  checkParentContinuity block expectedParent
  match ← executeSyncBlock block block.blockHash block.height with
  | .error e => return .error e
  | .ok () => do
      let _ ← op (.insertExecuted block.blockHash)
      match Report.wrapErr CelestiaError.display "failed to update block index"
        (← index.insert json (syncEntry block celestiaHeight)) with
      | .error e => return .error e
      | .ok index => return .ok (block.blockHash, index)

/-- The iterations of `sync_block_batch` over the blocks that are left. -/
def syncBlocks (index : BlockIndex) (parentHash : B256) (lastSyncedHeight : UInt64) :
    List (UInt64 × Block) → NodeProg (Except Report (UInt64 × BlockIndex))
  | [] => return .ok (lastSyncedHeight, index)
  | (celestiaHeight, block) :: blocks =>
      if (index.getByHeight block.height).isSome then
        syncBlocks index block.blockHash lastSyncedHeight blocks
      else do
        match ← syncSingleBlock json index block celestiaHeight parentHash with
        | .error e => return .error e
        | .ok (parentHash, index) => syncBlocks index parentHash block.height blocks

def syncBlockBatch (index : BlockIndex) (blocks : List (UInt64 × Block)) :
    NodeProg (Except Report (UInt64 × BlockIndex)) := do
  let current : ForkchoiceState ← op .readForkchoice
  syncBlocks json index current.head (index.latestHeight.getD 0) blocks

def sortByHeight (blocks : List (UInt64 × Block)) : List (UInt64 × Block) :=
  blocks.insertionSort fun a b => a.2.height ≤ b.2.height

variable (celestia : CelestiaClient)

def fetchBlocksFromCelestia (startHeight endHeight : UInt64) :
    NodeProg (Except Report (List (UInt64 × Block))) := do
  match Report.wrapErr CelestiaError.display "failed to fetch blocks from Celestia"
    (← getBlocksInRange celestia startHeight endHeight) with
  | .error e => return .error e
  | .ok blocksWithHeights => return .ok (sortByHeight blocksWithHeights)

def syncFromCelestia (index : BlockIndex) (genesisDaHeight : UInt64) :
    NodeProg (Except Report (UInt64 × BlockIndex)) := do
  let currentCelestiaHeight : UInt64 ← op .finalizedHeight
  match checkSyncPreconditions index genesisDaHeight currentCelestiaHeight with
  | some height => return .ok (height, index)
  | none =>
      match ← fetchBlocksFromCelestia celestia genesisDaHeight currentCelestiaHeight with
      | .error e => return .error e
      | .ok blocks =>
          if blocks.isEmpty then return .ok (index.latestHeight.getD 0, index)
          else syncBlockBatch json index blocks

/-- The height synced to; `none` where no sync is configured. -/
def initFromCelestia (genesisDaHeight : UInt64) : NodeProg (Except Report (Option UInt64)) := do
  if genesisDaHeight = 0 then return .ok none
  else
    match Report.wrapErr CelestiaError.display "failed to open block index"
      (← BlockIndex.openIndex json) with
    | .error e => return .error e
    | .ok blockIndex =>
        match Report.context "failed to sync from Celestia"
          (← syncFromCelestia json celestia blockIndex genesisDaHeight) with
        | .error e => return .error e
        | .ok (syncedHeight, _) => return .ok (some syncedHeight)

section Operations

variable {json} {P : NodeOp → Prop} {block : Block} {index : BlockIndex}

theorem performs_executeSyncBlock {blockHash : B256} {blockHeight : UInt64}
    (hexecute : (executeBlock block).Performs P) (hread : P .readForkchoice)
    (hupdate : ∀ current : ForkchoiceState,
      (updateForkchoice (current.withSoft blockHash)).Performs P)
    (hwrite : ∀ current : ForkchoiceState, P (.writeForkchoice (current.withSoft blockHash))) :
    (executeSyncBlock block blockHash blockHeight).Performs P := by
  refine hexecute.bind fun result => ?_
  split
  · exact Prog.performs_pure _
  · split
    · exact Prog.performs_pure _
    · refine (Prog.performs_perform hread).bind fun current => ?_
      refine (hupdate current).bind fun response => ?_
      split
      · exact Prog.performs_pure _
      · exact (Prog.performs_perform (hwrite current)).bind fun _ => Prog.performs_pure _

theorem performs_checkParentContinuity {expectedParent : B256}
    (hwarn : ∀ message, P (.warn message)) :
    (checkParentContinuity block expectedParent).Performs P := by
  unfold checkParentContinuity
  split
  · exact Prog.performs_pure _
  · split
    · exact (Prog.performs_perform (hwarn _)).bind fun _ => Prog.performs_pure _
    · exact Prog.performs_pure _

theorem performs_insert {entry : IndexEntry} (happend : P (.appendIndexFile (lineOf json entry))) :
    (index.insert json entry).Performs P := by
  unfold BlockIndex.insert
  split
  · exact Prog.performs_pure _
  · rename_i text htext
    rw [lineOf, htext] at happend
    split
    · refine (Prog.performs_perform happend).bind fun written => ?_
      split <;> exact Prog.performs_pure _
    · exact Prog.performs_pure _

theorem performs_syncSingleBlock {celestiaHeight : UInt64} {expectedParent : B256}
    (hwarn : ∀ message, P (.warn message))
    (hexecute : (executeSyncBlock block block.blockHash block.height).Performs P)
    (hinsert : P (.insertExecuted block.blockHash))
    (happend : ∀ line, P (.appendIndexFile line)) :
    (syncSingleBlock json index block celestiaHeight expectedParent).Performs P := by
  refine (performs_checkParentContinuity hwarn).bind fun _ => hexecute.bind fun result => ?_
  split
  · exact Prog.performs_pure _
  · refine (Prog.performs_perform hinsert).bind fun _ => ?_
    refine (performs_insert (happend _)).bind fun inserted => ?_
    split <;> exact Prog.performs_pure _

def Retrieves : NodeOp → Prop
  | .warn _ | .finalizedHeight | .fetchBlobs _ => True
  | .createIndexDir | .indexExists | .readIndexFile | .openIndexFile | .appendIndexFile _ => True
  | _ => False

theorem performs_openIndex (hcreate : P .createIndexDir) (hexists : P .indexExists)
    (hread : P .readIndexFile) (hopen : P .openIndexFile) :
    (BlockIndex.openIndex json).Performs P := by
  have hreplay : (BlockIndex.new.replayIfExists json).Performs P := by
    refine (Prog.performs_perform hexists).bind fun found => ?_
    split
    · refine (Prog.performs_perform hread).bind fun response => ?_
      split <;> exact Prog.performs_pure _
    · exact Prog.performs_pure _
  refine (Prog.performs_perform hcreate).bind fun created => ?_
  split
  · exact Prog.performs_pure _
  · refine hreplay.bind fun index => ?_
    split
    · exact Prog.performs_pure _
    · refine (Prog.performs_perform hopen).bind fun opened => ?_
      split <;> exact Prog.performs_pure _

theorem retrieves_openIndex : (BlockIndex.openIndex json).Performs Retrieves :=
  performs_openIndex trivial trivial trivial trivial

variable {celestia : CelestiaClient}

theorem performs_getBlocksAt (hfetch : ∀ celestiaHeight, P (.fetchBlobs celestiaHeight))
    (heights : List UInt64) : (getBlocksAt celestia heights).Performs P := by
  induction heights with
  | nil => exact Prog.performs_pure _
  | cons celestiaHeight heights ih =>
      have hblocks : (getBlocks celestia celestiaHeight).Performs P := by
        refine (Prog.performs_perform (hfetch _)).bind fun response => ?_
        split <;> exact Prog.performs_pure _
      refine hblocks.bind fun result => ?_
      split
      · exact Prog.performs_pure _
      · refine ih.bind fun rest => ?_
        split <;> exact Prog.performs_pure _

theorem performs_fetchBlocksFromCelestia
    (hfetch : ∀ celestiaHeight, P (.fetchBlobs celestiaHeight)) (startHeight endHeight : UInt64) :
    (fetchBlocksFromCelestia celestia startHeight endHeight).Performs P := by
  have hrange : (getBlocksInRange celestia startHeight endHeight).Performs P := by
    unfold getBlocksInRange
    split
    · exact Prog.performs_pure _
    · exact performs_getBlocksAt hfetch _
  refine hrange.bind fun result => ?_
  split <;> exact Prog.performs_pure _

theorem retrieves_fetchBlocksFromCelestia (startHeight endHeight : UInt64) :
    (fetchBlocksFromCelestia celestia startHeight endHeight).Performs Retrieves :=
  performs_fetchBlocksFromCelestia (fun _ => trivial) _ _

theorem performs_syncBlocks
    (hsync : ∀ index block celestiaHeight expectedParent,
      (syncSingleBlock json index block celestiaHeight expectedParent).Performs P)
    (index : BlockIndex) (parentHash : B256) (lastSyncedHeight : UInt64)
    (blocks : List (UInt64 × Block)) :
    (syncBlocks json index parentHash lastSyncedHeight blocks).Performs P := by
  induction blocks generalizing index parentHash lastSyncedHeight with
  | nil => exact Prog.performs_pure _
  | cons entry blocks ih =>
      obtain ⟨celestiaHeight, block⟩ := entry
      unfold syncBlocks
      split
      · exact ih _ _ _
      · refine (hsync index block celestiaHeight parentHash).bind fun result => ?_
        split
        · exact Prog.performs_pure _
        · exact ih _ _ _

theorem performs_initFromCelestia (hretrieves : ∀ o, Retrieves o → P o) (hread : P .readForkchoice)
    (hsync : ∀ index block celestiaHeight expectedParent,
      (syncSingleBlock json index block celestiaHeight expectedParent).Performs P)
    (genesisDaHeight : UInt64) : (initFromCelestia json celestia genesisDaHeight).Performs P := by
  have hfrom : ∀ index, (syncFromCelestia json celestia index genesisDaHeight).Performs P := by
    intro index
    have hheight : P .finalizedHeight := hretrieves _ trivial
    refine (Prog.performs_perform hheight).bind fun currentCelestiaHeight => ?_
    split
    · exact Prog.performs_pure _
    · refine ((retrieves_fetchBlocksFromCelestia _ _).mono hretrieves).bind fun blocks => ?_
      split
      · exact Prog.performs_pure _
      · split
        · exact Prog.performs_pure _
        · exact (Prog.performs_perform hread).bind fun current =>
            performs_syncBlocks hsync _ _ _ _
  unfold initFromCelestia
  split
  · exact Prog.performs_pure _
  · refine (retrieves_openIndex.mono hretrieves).bind fun opened => ?_
    split
    · exact Prog.performs_pure _
    · refine (hfrom _).bind fun result => ?_
      split <;> exact Prog.performs_pure _

end Operations

end Rkb.Sequencer.Sync
