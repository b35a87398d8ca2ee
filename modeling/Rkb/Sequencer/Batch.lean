import Rkb.Celestia.Client

namespace Rkb.Sequencer.Batch

open Rkb.Library.Program
open Rkb.Types.Blocks
open Rkb.Celestia.Blobs
open Rkb.Celestia.Client
open Rkb.Node.Effects

/-- The size is a `usize`, of which no overflow is modelled. -/
structure BatchState where
  pendingBlocks : List Block
  pendingSize : Nat
deriving DecidableEq

def BatchState.new : BatchState := { pendingBlocks := [], pendingSize := 0 }

def BatchState.isEmpty (self : BatchState) : Bool := self.pendingBlocks.isEmpty

inductive BatchAction
  | continue
  | submit
  | shutdown
deriving DecidableEq

/-- A tick of the interval, or what the receiver of the batch channel returned; the scheduler
chooses between them. -/
inductive BatchEvent
  | tick
  | received (block : Option Block)

def estimateBlockSize (block : Block) : Nat :=
  let headerSize := 68
  let framingOverhead := 64
  let txOverhead := 32
  let txSize := (block.transactions.toList.map fun tx => tx.data.toList.length + txOverhead).sum
  headerSize + txSize + framingOverhead

def handleReceivedBlock (block : Option Block) (state : BatchState) (maxBatchSizeBytes : Nat) :
    BatchAction × BatchState :=
  match block with
  | none => (.shutdown, state)
  | some block =>
      let blockSize := estimateBlockSize block
      let state : BatchState :=
        { pendingBlocks := state.pendingBlocks ++ [block]
          pendingSize := state.pendingSize + blockSize }
      if maxBatchSizeBytes ≤ state.pendingSize then (.submit, state) else (.continue, state)

def waitForBatchEvent (event : BatchEvent) (state : BatchState) (maxBatchSizeBytes : Nat) :
    BatchAction × BatchState :=
  match event with
  | .tick => if state.isEmpty then (.continue, state) else (.submit, state)
  | .received block => handleReceivedBlock block state maxBatchSizeBytes

def logBatchSuccess : List BlobSubmission → NodeProg Unit
  | [] => return ()
  | submission :: submissions => do
      trackFinality submission
      logBatchSuccess submissions

def restoreFailedBatch (blocks : List Block) : BatchState :=
  { pendingSize := (blocks.map estimateBlockSize).sum
    pendingBlocks := blocks }

variable (celestia : CelestiaClient)

/-- Whether the submission succeeded, and the state it leaves. -/
def submitBatch (state : BatchState) : NodeProg (Bool × BatchState) := do
  let blocks := state.pendingBlocks
  let state : BatchState := { pendingBlocks := [], pendingSize := 0 }
  if blocks.isEmpty then return (true, state)
  else
    match ← submitBlocks celestia blocks with
    | .ok submissions => do
        logBatchSuccess submissions
        return (true, state)
    | .error _ => return (false, restoreFailedBatch blocks)

def maxConsecutiveFailures : UInt32 := 10

structure BatchLoop where
  state : BatchState
  consecutiveFailures : UInt32
  exited : Bool
deriving DecidableEq

def BatchLoop.new : BatchLoop :=
  { state := BatchState.new, consecutiveFailures := 0, exited := false }

def batchIteration (maxBatchSizeBytes : Nat) (self : BatchLoop) (event : BatchEvent) :
    NodeProg BatchLoop := do
  let (action, state) := waitForBatchEvent event self.state maxBatchSizeBytes
  match action with
  | .continue => return { self with state := state }
  | .submit => do
      let (succeeded, state) ← submitBatch celestia state
      if succeeded then return { self with state := state, consecutiveFailures := 0 }
      else
        let consecutiveFailures := self.consecutiveFailures + 1
        return { state := state
                 consecutiveFailures := consecutiveFailures
                 exited := decide (maxConsecutiveFailures ≤ consecutiveFailures) }
  | .shutdown => do
      let (_, state) ← submitBatch celestia state
      return { self with state := state, exited := true }

def receivedOf : BatchEvent → Option Block
  | .tick => none
  | .received block => block

theorem waitForBatchEvent_state (event : BatchEvent) (state : BatchState)
    (maxBatchSizeBytes : Nat) :
    (waitForBatchEvent event state maxBatchSizeBytes).2 =
      { pendingBlocks := state.pendingBlocks ++ (receivedOf event).toList
        pendingSize :=
          state.pendingSize + ((receivedOf event).toList.map estimateBlockSize).sum } := by
  cases event with
  | tick =>
      rw [waitForBatchEvent]
      split <;> simp [receivedOf]
  | received block =>
      cases block with
      | none => simp [waitForBatchEvent, handleReceivedBlock, receivedOf]
      | some block =>
          simp only [waitForBatchEvent, handleReceivedBlock]
          split <;> simp [receivedOf]

theorem waitForBatchEvent_shutdown (event : BatchEvent) (state : BatchState)
    (maxBatchSizeBytes : Nat) :
    (waitForBatchEvent event state maxBatchSizeBytes).1 = .shutdown ↔ event = .received none := by
  cases event with
  | tick =>
      rw [waitForBatchEvent]
      split <;> simp
  | received block =>
      cases block with
      | none => simp [waitForBatchEvent, handleReceivedBlock]
      | some block =>
          simp only [waitForBatchEvent, handleReceivedBlock]
          split <;> simp

section Operations

variable {P : NodeOp → Prop} {celestia : CelestiaClient}

theorem performs_logBatchSuccess (htrack : ∀ submission, P (.spawnTrack submission))
    (submissions : List BlobSubmission) : (logBatchSuccess submissions).Performs P := by
  induction submissions with
  | nil => exact Prog.performs_pure _
  | cons submission submissions ih =>
      have hfirst : (trackFinality submission).Performs P :=
        Prog.performs_perform (htrack submission)
      exact hfirst.bind fun _ => ih

theorem performs_batchIteration (hsubmit : ∀ blobs, P (.submitBlobs blobs))
    (hsleep : ∀ millis, P (.sleep millis)) (htrack : ∀ submission, P (.spawnTrack submission))
    (maxBatchSizeBytes : Nat) (loop : BatchLoop) (event : BatchEvent) :
    (batchIteration celestia maxBatchSizeBytes loop event).Performs P := by
  have hbatch : ∀ state, (submitBatch celestia state).Performs P := by
    intro state
    unfold submitBatch
    simp only
    split
    · exact Prog.performs_pure _
    · refine (performs_submitBlocks hsubmit hsleep _).bind fun result => ?_
      split
      · exact (performs_logBatchSuccess htrack _).bind fun _ => Prog.performs_pure _
      · exact Prog.performs_pure _
  unfold batchIteration
  generalize waitForBatchEvent event loop.state maxBatchSizeBytes = waited
  obtain ⟨action, state⟩ := waited
  cases action with
  | «continue» => exact Prog.performs_pure _
  | submit =>
      refine (hbatch state).bind ?_
      rintro ⟨succeeded, state'⟩
      cases succeeded <;> exact Prog.performs_pure _
  | shutdown => exact (hbatch state).bind fun _ => Prog.performs_pure _

end Operations

end Rkb.Sequencer.Batch
