import Rkb.Celestia.Client
import Rkb.Execution.Client

namespace Rkb.Sequencer.Finalization

open Rkb.Library.Program
open Rkb.Types.Blocks
open Rkb.Execution.Errors
open Rkb.Execution.Forkchoice
open Rkb.Execution.Client
open Rkb.Celestia.Blobs
open Rkb.Celestia.Finality
open Rkb.Celestia.Client
open Rkb.Node.Effects

def executeAndUpdateForkchoice (block : Block) (blockHash : B256) :
    NodeProg (Except Report Unit) := do
  match Report.wrapErr ExecutionError.display "execution failed" (← executeBlock block) with
  | .error e => return .error e
  | .ok result =>
      if !result.isValid then
        return .error (.bail ("block invalid: " ++ result.status.debug))
      else
        let current : ForkchoiceState ← op .readForkchoice
        let newForkchoice := current.withSoft blockHash
        match Report.wrapErr ExecutionError.display "forkchoice update failed"
          (← updateForkchoice newForkchoice) with
        | .error e => return .error e
        | .ok () => do
            let _ ← op (.writeForkchoice newForkchoice)
            return .ok ()

/-- `batchTx` tells whether there is a sender of the batch channel. -/
structure FinalizationContext where
  celestia : CelestiaClient
  batchTx : Bool
  batchEnabled : Bool

def queueForBatch (batchTx : Bool) (block : Block) : NodeProg Unit := do
  if !batchTx then return ()
  else
    let _ ← op (.queueBlock block)
    return ()

def submitImmediate (celestia : CelestiaClient) (block : Block) : NodeProg Unit := do
  match ← submitBlock celestia block with
  | .ok submission => trackFinality submission
  | .error _ => return ()

def submitToCelestia (ctx : FinalizationContext) (block : Block) : NodeProg Unit :=
  if ctx.batchEnabled then queueForBatch ctx.batchTx block
  else submitImmediate ctx.celestia block

def processFinalizedBlock (ctx : FinalizationContext) (block : Block) (isLeader : Bool) :
    NodeProg Unit := do
  match ← executeAndUpdateForkchoice block block.blockHash with
  | .error _ => return ()
  | .ok () => do
      let _ ← op (.insertExecuted block.blockHash)
      if isLeader then submitToCelestia ctx block else return ()

def verifyBlockExecuted (confirmation : FinalityConfirmation) : NodeProg Bool :=
  op (.containsExecuted confirmation.blockHash)

def updateFinalizedForkchoice (confirmation : FinalityConfirmation) : NodeProg Unit := do
  let current : ForkchoiceState ← op .readForkchoice
  let newForkchoice := current.withFirm confirmation.blockHash
  match ← updateForkchoice newForkchoice with
  | .error _ => return ()
  | .ok () => op (.writeForkchoice newForkchoice)

def handleFinalityConfirmation (confirmation : FinalityConfirmation) : NodeProg Unit := do
  if !(← verifyBlockExecuted confirmation) then return ()
  else updateFinalizedForkchoice confirmation

section Operations

variable {P : NodeOp → Prop} {ctx : FinalizationContext} {block : Block}

theorem performs_executeAndUpdateForkchoice {blockHash : B256}
    (hexecute : (executeBlock block).Performs P) (hread : P .readForkchoice)
    (hupdate : ∀ current : ForkchoiceState,
      (updateForkchoice (current.withSoft blockHash)).Performs P)
    (hwrite : ∀ current : ForkchoiceState, P (.writeForkchoice (current.withSoft blockHash))) :
    (executeAndUpdateForkchoice block blockHash).Performs P := by
  refine hexecute.bind fun result => ?_
  split
  · exact Prog.performs_pure _
  · split
    · exact Prog.performs_pure _
    · refine (Prog.performs_perform hread).bind fun current => ?_
      refine (hupdate current).bind fun response => ?_
      split
      · exact Prog.performs_pure _
      · exact (Prog.performs_perform (hwrite current)).bind fun _ => Prog.performs_pure _

theorem performs_submitToCelestia (hqueue : P (.queueBlock block))
    (hsubmit : ∀ blobs, P (.submitBlobs blobs)) (hsleep : ∀ millis, P (.sleep millis))
    (htrack : ∀ submission : BlobSubmission, submission.blockHash = block.blockHash →
      P (.spawnTrack submission)) :
    (submitToCelestia ctx block).Performs P := by
  unfold submitToCelestia queueForBatch submitImmediate
  split
  · split
    · exact Prog.performs_pure _
    · exact (Prog.performs_perform hqueue).bind fun _ => Prog.performs_pure _
  · refine (performs_submitBlock hsubmit hsleep block).bind_of_returns
      (returns_submitBlock block) ?_
    intro result hresult
    split
    · exact Prog.performs_perform (htrack _ (hresult _ rfl))
    · exact Prog.performs_pure _

theorem performs_processFinalizedBlock {isLeader : Bool}
    (hexecute : (executeAndUpdateForkchoice block block.blockHash).Performs P)
    (hinsert : P (.insertExecuted block.blockHash))
    (hsubmit : (submitToCelestia ctx block).Performs P) :
    (processFinalizedBlock ctx block isLeader).Performs P := by
  refine hexecute.bind fun result => ?_
  split
  · exact Prog.performs_pure _
  · refine (Prog.performs_perform hinsert).bind fun _ => ?_
    split
    · exact hsubmit
    · exact Prog.performs_pure _

end Operations

end Rkb.Sequencer.Finalization
