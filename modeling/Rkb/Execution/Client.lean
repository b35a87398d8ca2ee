import Rkb.Node.Effects

namespace Rkb.Execution.Client

open Rkb.Library.Bytes
open Rkb.Library.Program
open Rkb.Types.Blocks
open Rkb.Execution.Errors
open Rkb.Execution.Forkchoice
open Rkb.Execution.Payload
open Rkb.Node.Effects

def RpcAnswer.result {α : Type} (mapErr : String → ExecutionError) :
    RpcAnswer α → Except ExecutionError α
  | .clientError reason => .error (.connectionFailed reason)
  | .requestError e => .error (mapErr e)
  | .answer a => .ok a

def getGenesisHash : NodeProg (Except ExecutionError B256) := do
  let response : RpcAnswer B256 ← op .getGenesisHash
  return RpcAnswer.result (fun e => .connectionFailed ("failed to get genesis: " ++ e)) response

def getHead : NodeProg (Except ExecutionError (B256 × UInt64 × UInt64)) := do
  let response : RpcAnswer (B256 × UInt64 × UInt64) ← op .getHead
  return RpcAnswer.result (fun e => .connectionFailed ("failed to get head: " ++ e)) response

def checkPayloadStatusForImport : PayloadStatusEnum → Except ExecutionError Unit
  | .valid | .accepted => .ok ()
  | .syncing => .ok ()
  | .invalid validationError => .error (.invalidBlock validationError)

/-- `engine_newPayloadV3` without blobs and with a zero parent beacon block root. -/
def requestNewPayload (payload : Option ExecutionPayloadV3) :
    NodeProg (Except ExecutionError PayloadStatus) :=
  match payload with
  | none => panicWith "Bloom::from_slice"
  | some executionPayload => do
      let response : RpcAnswer PayloadStatus ←
        op (.newPayload executionPayload [] FixedBytes.zero)
      return RpcAnswer.result (fun e => .executionFailed ("newPayload RPC failed: " ++ e)) response

def callNewPayload (payload : BuiltPayload) : NodeProg (Except ExecutionError Unit) := do
  match ← requestNewPayload payload.toExecutionPayload with
  | .error e => return .error e
  | .ok response => return checkPayloadStatusForImport response.status

def importPayload (payload : BuiltPayload) : NodeProg (Except ExecutionError Unit) := do
  match ← requestNewPayload payload.toExecutionPayload with
  | .error e => return .error e
  | .ok response =>
      match response.status with
      | .valid | .accepted | .syncing => return .ok ()
      | .invalid validationError => return .error (.invalidBlock validationError)

def executeBlock (block : Block) : NodeProg (Except ExecutionError ExecutionResult) := do
  match ← requestNewPayload (buildPayload block) with
  | .error e => return .error e
  | .ok response =>
      let result (status : ExecutionStatus) : ExecutionResult :=
        { blockHash := response.latestValidHash.getD block.blockHash
          blockNumber := block.height
          gasUsed := 0
          status := status }
      match response.status with
      | .valid => return .ok (result .valid)
      | .invalid validationError => return .error (.invalidBlock validationError)
      | .syncing => return .ok (result .syncing)
      | .accepted => return .ok (result .accepted)

def updateForkchoice (state : ForkchoiceState) : NodeProg (Except ExecutionError Unit) := do
  let engineState : EngineForkchoiceState :=
    { headBlockHash := state.head
      safeBlockHash := state.safe
      finalizedBlockHash := state.finalized }
  let response : RpcAnswer ForkchoiceUpdated ← op (.forkchoiceUpdated engineState none)
  match RpcAnswer.result
    (fun e => .forkchoiceFailed ("forkchoiceUpdated RPC failed: " ++ e)) response with
  | .error e => return .error e
  | .ok updated =>
      match updated.payloadStatus.status with
      | .valid | .syncing | .accepted => do
          let _ ← op (.writeCached state)
          return .ok ()
      | .invalid validationError => return .error (.forkchoiceFailed validationError)

/-- The answers that `update_forkchoice` takes as a success. -/
def accepted : RpcAnswer ForkchoiceUpdated → Bool
  | .answer updated =>
      match updated.payloadStatus.status with
      | .valid | .syncing | .accepted => true
      | .invalid _ => false
  | _ => false

def updateForkchoiceForPayload (payload : BuiltPayload) :
    NodeProg (Except ExecutionError Unit) := do
  let cached : ForkchoiceState ← op .readCached
  updateForkchoice
    { head := payload.blockHash, safe := payload.blockHash, finalized := cached.finalized }

def applyBuiltPayload (payload : BuiltPayload) : NodeProg (Except ExecutionError Unit) := do
  match ← callNewPayload payload with
  | .error e => return .error e
  | .ok () => updateForkchoiceForPayload payload

def tryInitForkchoice (state : ForkchoiceState) (isLastAttempt : Bool) :
    NodeProg (Except ExecutionError Bool) := do
  match ← updateForkchoice state with
  | .ok () => return .ok true
  | .error e => if isLastAttempt then return .error e else return .ok false

def maxRetries : Nat := 30

def retryDelayMillis : UInt64 := 1000

/-- The attempts of `init_forkchoice` that are left; the last one has `remaining = 1`. -/
def initForkchoiceLoop (state : ForkchoiceState) :
    (remaining : Nat) → NodeProg (Except ExecutionError Unit)
  | 0 => panicWith "internal error: entered unreachable code"
  | remaining + 1 => do
      match ← tryInitForkchoice state (remaining == 0) with
      | .error e => return .error e
      | .ok true => return .ok ()
      | .ok false => do
          let _ ← op (.sleep retryDelayMillis)
          initForkchoiceLoop state remaining

def initForkchoice (genesisHash : B256) : NodeProg (Except ExecutionError Unit) :=
  initForkchoiceLoop { head := genesisHash, safe := genesisHash, finalized := genesisHash }
    maxRetries

def buildForkchoiceState (parentHash finalized : B256) : EngineForkchoiceState :=
  { headBlockHash := parentHash, safeBlockHash := parentHash, finalizedBlockHash := finalized }

def buildPayloadAttributes (parentHash : B256) (timestamp : UInt64) (feeRecipient : Address) :
    EnginePayloadAttributes where
  timestamp := timestamp
  prevRandao := parentHash
  suggestedFeeRecipient := feeRecipient
  withdrawals := some []
  parentBeaconBlockRoot := some FixedBytes.zero
  targetBlobsPerBlock := none
  maxBlobsPerBlock := none

def extractPayloadId (response : ForkchoiceUpdated) : Except ExecutionError PayloadId :=
  match response.payloadStatus.status with
  | .valid =>
      match response.payloadId with
      | some payloadId => .ok payloadId
      | none => .error (.forkchoiceFailed "forkchoiceUpdated returned no payload ID")
  | .syncing => .error (.forkchoiceFailed "reth is syncing, cannot build blocks yet")
  | .accepted => .error (.forkchoiceFailed "forkchoice accepted but not validated")
  | .invalid validationError =>
      .error (.forkchoiceFailed ("invalid forkchoice: " ++ validationError))

def startBuilding (parentHash : B256) (timestamp : UInt64) (feeRecipient : Address) :
    NodeProg (Except ExecutionError PayloadId) := do
  let cached : ForkchoiceState ← op .readCached
  let engineState := buildForkchoiceState parentHash cached.finalized
  let attributes := buildPayloadAttributes parentHash timestamp feeRecipient
  let response : RpcAnswer ForkchoiceUpdated ←
    op (.forkchoiceUpdated engineState (some attributes))
  match RpcAnswer.result
    (fun e => .forkchoiceFailed ("forkchoiceUpdated RPC failed: " ++ e)) response with
  | .error e => return .error e
  | .ok updated => return extractPayloadId updated

/-- The payload reth built, or `none` where its base fee does not fit a `u64` and
`to::<u64>()` panics. -/
def toBuiltPayload (payload : ExecutionPayloadV3) : Option BuiltPayload :=
  let v1 := payload.payloadInner.payloadInner
  if v1.baseFeePerGas.toNat < 2 ^ 64 then
    some
      { blockHash := v1.blockHash
        blockNumber := v1.blockNumber
        parentHash := v1.parentHash
        feeRecipient := v1.feeRecipient
        stateRoot := v1.stateRoot
        receiptsRoot := v1.receiptsRoot
        logsBloom := ⟨v1.logsBloom.bytes, by rw [v1.logsBloom.length_eq]; decide⟩
        prevRandao := v1.prevRandao
        extraData := v1.extraData
        gasLimit := v1.gasLimit
        gasUsed := v1.gasUsed
        timestamp := v1.timestamp
        transactions := v1.transactions
        baseFeePerGas := UInt64.ofNat v1.baseFeePerGas.toNat }
  else none

def getPayload (payloadId : PayloadId) : NodeProg (Except ExecutionError BuiltPayload) := do
  let response : RpcAnswer ExecutionPayloadV3 ← op (.getPayload payloadId)
  match RpcAnswer.result
    (fun e => .executionFailed ("getPayload RPC failed: " ++ e)) response with
  | .error e => return .error e
  | .ok payload =>
      match toBuiltPayload payload with
      | none => panicWith "Uint::to"
      | some built => return .ok built

section Operations

variable {P : NodeOp → Prop}

theorem performs_panicWith {α : Type} {reason : String} (h : P (.panic reason)) :
    (panicWith reason : NodeProg α).Performs P :=
  ⟨h, fun ans => ans.elim⟩

theorem performs_getHead (h : P .getHead) : getHead.Performs P :=
  (Prog.performs_perform h).bind fun _ => Prog.performs_pure _

theorem performs_requestNewPayload {payload : Option ExecutionPayloadV3}
    (hpanic : payload = none → P (.panic "Bloom::from_slice"))
    (hrequest : ∀ p, payload = some p → P (.newPayload p [] FixedBytes.zero)) :
    (requestNewPayload payload).Performs P := by
  cases payload with
  | none => exact performs_panicWith (hpanic rfl)
  | some p =>
      exact (Prog.performs_perform (hrequest p rfl)).bind fun _ => Prog.performs_pure _

theorem performs_callNewPayload {payload : BuiltPayload}
    (hpanic : payload.toExecutionPayload = none → P (.panic "Bloom::from_slice"))
    (hrequest : ∀ p, payload.toExecutionPayload = some p →
      P (.newPayload p [] FixedBytes.zero)) :
    (callNewPayload payload).Performs P := by
  refine (performs_requestNewPayload hpanic hrequest).bind fun response => ?_
  cases response with
  | error e => exact Prog.performs_pure _
  | ok response => exact Prog.performs_pure _

theorem performs_importPayload {payload : BuiltPayload}
    (hpanic : payload.toExecutionPayload = none → P (.panic "Bloom::from_slice"))
    (hrequest : ∀ p, payload.toExecutionPayload = some p →
      P (.newPayload p [] FixedBytes.zero)) :
    (importPayload payload).Performs P := by
  refine (performs_requestNewPayload hpanic hrequest).bind fun response => ?_
  cases response with
  | error e => exact Prog.performs_pure _
  | ok response =>
      simp only
      split <;> exact Prog.performs_pure _

theorem performs_executeBlock {block : Block}
    (hpanic : buildPayload block = none → P (.panic "Bloom::from_slice"))
    (hrequest : ∀ p, buildPayload block = some p → P (.newPayload p [] FixedBytes.zero)) :
    (executeBlock block).Performs P := by
  refine (performs_requestNewPayload hpanic hrequest).bind fun response => ?_
  cases response with
  | error e => exact Prog.performs_pure _
  | ok response =>
      simp only
      split <;> exact Prog.performs_pure _

theorem performs_updateForkchoice {state : ForkchoiceState}
    (hrequest : P (.forkchoiceUpdated ⟨state.head, state.safe, state.finalized⟩ none))
    (hcached : P (.writeCached state)) : (updateForkchoice state).Performs P := by
  refine (Prog.performs_perform hrequest).bind fun response => ?_
  split
  · exact Prog.performs_pure _
  · split
    all_goals first
      | exact (Prog.performs_perform hcached).bind fun _ => Prog.performs_pure _
      | exact Prog.performs_pure _

theorem performs_applyBuiltPayload {payload : BuiltPayload}
    (hpanic : payload.toExecutionPayload = none → P (.panic "Bloom::from_slice"))
    (hpayload : ∀ p, payload.toExecutionPayload = some p →
      P (.newPayload p [] FixedBytes.zero))
    (hread : P .readCached)
    (hrequest : ∀ f, P (.forkchoiceUpdated ⟨payload.blockHash, payload.blockHash, f⟩ none))
    (hcached : ∀ f, P (.writeCached ⟨payload.blockHash, payload.blockHash, f⟩)) :
    (applyBuiltPayload payload).Performs P := by
  refine (performs_callNewPayload hpanic hpayload).bind fun response => ?_
  cases response with
  | error e => exact Prog.performs_pure _
  | ok _ =>
      refine (Prog.performs_perform hread).bind fun cached => ?_
      exact performs_updateForkchoice (hrequest _) (hcached _)

theorem performs_startBuilding {parentHash : B256} {timestamp : UInt64} {feeRecipient : Address}
    (hread : P .readCached)
    (hrequest : ∀ f, P (.forkchoiceUpdated (buildForkchoiceState parentHash f)
      (some (buildPayloadAttributes parentHash timestamp feeRecipient)))) :
    (startBuilding parentHash timestamp feeRecipient).Performs P := by
  refine (Prog.performs_perform hread).bind fun cached => ?_
  refine (Prog.performs_perform (hrequest _)).bind fun response => ?_
  split <;> exact Prog.performs_pure _

theorem performs_getPayload {payloadId : PayloadId} (hpanic : P (.panic "Uint::to"))
    (hrequest : P (.getPayload payloadId)) : (getPayload payloadId).Performs P := by
  refine (Prog.performs_perform hrequest).bind fun response => ?_
  split
  · exact Prog.performs_pure _
  · split
    · exact performs_panicWith hpanic
    · exact Prog.performs_pure _

end Operations

end Rkb.Execution.Client
