import Rkb.Node.Effects

namespace Rkb.Celestia.Client

open Rkb.Library.Program
open Rkb.Types.Blocks
open Rkb.Execution.Errors
open Rkb.Celestia.Blobs
open Rkb.Celestia.Finality
open Rkb.Node.Effects

/-- The attempt of `with_retry` numbered `attempts`, and the `remaining` ones
that may follow it. -/
def withRetryLoop {α : Type} (operationName : String) (baseDelayMs : UInt64)
    (operation : NodeProg (Except String α)) (attempts : UInt32) :
    (remaining : Nat) → NodeProg (Except CelestiaError α)
  | 0 => do
      match ← operation with
      | .ok result => return .ok result
      | .error e =>
          return .error (.submissionFailed
            (operationName ++ " failed after " ++ toString attempts ++ " attempts: " ++ e))
  | remaining + 1 => do
      match ← operation with
      | .ok result => return .ok result
      | .error _ => do
          let _ ← op (.sleep (baseDelayMs * attempts.toUInt64))
          withRetryLoop operationName baseDelayMs operation (attempts + 1) remaining

def withRetry {α : Type} (operationName : String) (maxRetries : UInt32) (baseDelayMs : UInt64)
    (operation : NodeProg (Except String α)) : NodeProg (Except CelestiaError α) :=
  withRetryLoop operationName baseDelayMs operation 1 (maxRetries.toNat - 1)

def defaultMaxRetries : UInt32 := 3

def defaultRetryDelayMs : UInt64 := 1000

/-- The height of the Celestia block that includes the blobs. -/
def submit (blobs : List Blob) : NodeProg (Except String UInt64) := op (.submitBlobs blobs)

def submitWithRetry (blob : Blob) : NodeProg (Except CelestiaError (UInt64 × List UInt8)) := do
  match ← withRetry "Blob submission" defaultMaxRetries defaultRetryDelayMs (submit [blob]) with
  | .error e => return .error e
  | .ok height => return .ok (height, blob.commitment)

def submitBlobsWithRetry (blobs : List Blob) : NodeProg (Except CelestiaError UInt64) :=
  withRetry "Batch submission" defaultMaxRetries defaultRetryDelayMs (submit blobs)

section Client

variable (celestia : CelestiaClient)

def submitBlock (block : Block) : NodeProg (Except CelestiaError BlobSubmission) := do
  match celestia.createBlobForBlock block with
  | .error e => return .error e
  | .ok blob =>
      match ← submitWithRetry blob with
      | .error e => return .error e
      | .ok (celestiaHeight, commitment) =>
          return .ok
            { blockHash := block.blockHash
              blockHeight := block.height
              celestiaHeight := celestiaHeight
              commitment := commitment }

def submitBlocks (blocks : List Block) : NodeProg (Except CelestiaError (List BlobSubmission)) := do
  if blocks.isEmpty then return .ok []
  else
    match celestia.createBlobsForBlocks blocks with
    | .error e => return .error e
    | .ok (blobs, blockInfos) =>
        match ← submitBlobsWithRetry blobs with
        | .error e => return .error e
        | .ok celestiaHeight => return .ok (buildSubmissions blobs blockInfos celestiaHeight)

/-- The submission is tracked by a task of its own. -/
def trackFinality (submission : BlobSubmission) : NodeProg Unit := op (.spawnTrack submission)

def getBlocks (celestiaHeight : UInt64) : NodeProg (Except CelestiaError (List Block)) := do
  let response : Except String (Option (List Blob)) ← op (.fetchBlobs celestiaHeight)
  match response with
  | .error e => return .error (.internal ("failed to fetch blobs: " ++ e))
  | .ok none => return .ok []
  | .ok (some blobs) => return .ok (blobs.filterMap fun blob => celestia.decodeBlock blob.data)

def getBlock (celestiaHeight : UInt64) : NodeProg (Except CelestiaError (Option Block)) := do
  match ← getBlocks celestia celestiaHeight with
  | .error e => return .error e
  | .ok blocks => return .ok blocks.head?

def getBlocksAt : List UInt64 → NodeProg (Except CelestiaError (List (UInt64 × Block)))
  | [] => return .ok []
  | height :: heights => do
      match ← getBlocks celestia height with
      | .error e => return .error e
      | .ok blocks =>
          match ← getBlocksAt heights with
          | .error e => return .error e
          | .ok rest => return .ok (blocks.map (fun block => (height, block)) ++ rest)

def getBlocksInRange (start stop : UInt64) :
    NodeProg (Except CelestiaError (List (UInt64 × Block))) :=
  if stop < start then return .ok []
  else getBlocksAt celestia
    ((List.range' start.toNat (stop.toNat - start.toNat + 1)).map UInt64.ofNat)

end Client

def verifyInclusion (celestiaHeight : UInt64) (commitment : List UInt8) :
    NodeProg (Except CelestiaError Bool) := do
  let response : Except String (Option (List Blob)) ← op (.fetchBlobs celestiaHeight)
  match response with
  | .error e => return .error (.internal ("failed to fetch blobs: " ++ e))
  | .ok none => return .ok false
  | .ok (some blobs) => return .ok (blobs.any fun blob => blob.commitment = commitment)

/-- A confirmation that no longer finds its receiver is only logged. -/
def broadcastConfirmations : List FinalityConfirmation → NodeProg Unit
  | [] => return ()
  | confirmation :: confirmations => do
      let _ ← op (.sendConfirmation confirmation)
      broadcastConfirmations confirmations

def processHeader (celestiaHeight : UInt64) (headerHash : B256) : NodeProg Unit := do
  let confirmations : List FinalityConfirmation ←
    op (.onCelestiaFinality celestiaHeight headerHash)
  broadcastConfirmations confirmations

section Operations

variable {P : NodeOp → Prop} {celestia : CelestiaClient}

theorem performs_withRetryLoop {α : Type} {operationName : String} {baseDelayMs : UInt64}
    {operation : NodeProg (Except String α)} (hoperation : operation.Performs P)
    (hsleep : ∀ millis, P (.sleep millis)) (attempts : UInt32) (remaining : Nat) :
    (withRetryLoop operationName baseDelayMs operation attempts remaining).Performs P := by
  induction remaining generalizing attempts with
  | zero =>
      refine hoperation.bind fun result => ?_
      split <;> exact Prog.performs_pure _
  | succ remaining ih =>
      refine hoperation.bind fun result => ?_
      split
      · exact Prog.performs_pure _
      · exact (Prog.performs_perform (hsleep _)).bind fun _ => ih _

theorem performs_submitBlock (hsubmit : ∀ blobs, P (.submitBlobs blobs))
    (hsleep : ∀ millis, P (.sleep millis)) (block : Block) :
    (submitBlock celestia block).Performs P := by
  unfold submitBlock
  split
  · exact Prog.performs_pure _
  · refine Prog.Performs.bind ?_ fun result => ?_
    · refine Prog.Performs.bind ?_ fun result => ?_
      · exact performs_withRetryLoop (Prog.performs_perform (hsubmit _)) hsleep 1 _
      · split <;> exact Prog.performs_pure _
    · split <;> exact Prog.performs_pure _

theorem returns_submitBlock (block : Block) :
    (submitBlock celestia block).Returns
      fun r => ∀ submission, r = .ok submission → submission.blockHash = block.blockHash := by
  unfold submitBlock
  split
  · rintro _ ⟨⟩
  · refine (Prog.returns_true _).bind fun result _ => ?_
    split
    · rintro _ ⟨⟩
    · rintro _ ⟨rfl⟩
      rfl

theorem performs_submitBlocks (hsubmit : ∀ blobs, P (.submitBlobs blobs))
    (hsleep : ∀ millis, P (.sleep millis)) (blocks : List Block) :
    (submitBlocks celestia blocks).Performs P := by
  unfold submitBlocks
  split
  · exact Prog.performs_pure _
  · split
    · exact Prog.performs_pure _
    · refine Prog.Performs.bind ?_ fun result => ?_
      · exact performs_withRetryLoop (Prog.performs_perform (hsubmit _)) hsleep 1 _
      · split <;> exact Prog.performs_pure _

theorem performs_processHeader {celestiaHeight : UInt64} {headerHash : B256}
    (hheader : P (.onCelestiaFinality celestiaHeight headerHash))
    (hsend : ∀ confirmation, P (.sendConfirmation confirmation)) :
    (processHeader celestiaHeight headerHash).Performs P := by
  have hbroadcast : ∀ confirmations : List FinalityConfirmation,
      (broadcastConfirmations confirmations).Performs P := by
    intro confirmations
    induction confirmations with
    | nil => exact Prog.performs_pure _
    | cons confirmation confirmations ih =>
        exact (Prog.performs_perform (hsend confirmation)).bind fun _ => ih
  exact (Prog.performs_perform hheader).bind fun confirmations => hbroadcast confirmations

end Operations

end Rkb.Celestia.Client
