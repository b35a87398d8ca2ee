import Rkb.Types.Blocks

namespace Rkb.Execution.Payload

open Rkb.Library.Bytes
open Rkb.Types.Blocks

abbrev PayloadId : Type := FixedBytes 8

abbrev Bloom : Type := FixedBytes 256

abbrev U256 : Type := BitVec 256

structure BuiltPayload where
  blockHash : B256
  blockNumber : UInt64
  parentHash : B256
  feeRecipient : Address
  stateRoot : B256
  receiptsRoot : B256
  logsBloom : Bytes
  prevRandao : B256
  extraData : Bytes
  gasLimit : UInt64
  gasUsed : UInt64
  timestamp : UInt64
  transactions : Vec Bytes
  baseFeePerGas : UInt64
deriving DecidableEq

structure ExecutionPayloadV1 where
  parentHash : B256
  feeRecipient : Address
  stateRoot : B256
  receiptsRoot : B256
  logsBloom : Bloom
  prevRandao : B256
  blockNumber : UInt64
  gasLimit : UInt64
  gasUsed : UInt64
  timestamp : UInt64
  extraData : Bytes
  baseFeePerGas : U256
  blockHash : B256
  transactions : Vec Bytes
deriving DecidableEq

structure Withdrawal where
  index : UInt64
  validatorIndex : UInt64
  address : Address
  amount : UInt64
deriving DecidableEq

structure ExecutionPayloadV2 where
  payloadInner : ExecutionPayloadV1
  withdrawals : Vec Withdrawal
deriving DecidableEq

structure ExecutionPayloadV3 where
  payloadInner : ExecutionPayloadV2
  blobGasUsed : UInt64
  excessBlobGas : UInt64
deriving DecidableEq

/-- The payload for `newPayloadV3`, or `none` where `Bloom::from_slice` panics:
the bloom filter is not 256 bytes long. -/
def BuiltPayload.toExecutionPayload (self : BuiltPayload) : Option ExecutionPayloadV3 := do
  let logsBloom : Bloom ← FixedBytes.ofList self.logsBloom.toList
  let v1 : ExecutionPayloadV1 :=
    { parentHash := self.parentHash
      feeRecipient := self.feeRecipient
      stateRoot := self.stateRoot
      receiptsRoot := self.receiptsRoot
      logsBloom := logsBloom
      prevRandao := self.prevRandao
      blockNumber := self.blockNumber
      gasLimit := self.gasLimit
      gasUsed := self.gasUsed
      timestamp := self.timestamp
      extraData := self.extraData
      baseFeePerGas := BitVec.ofNat 256 self.baseFeePerGas.toNat
      blockHash := self.blockHash
      transactions := self.transactions }
  return { payloadInner := { payloadInner := v1, withdrawals := Vec.empty }
           blobGasUsed := 0
           excessBlobGas := 0 }

/-- The payload of a block, or `none` where `Bloom::from_slice` panics. -/
def buildPayload (block : Block) : Option ExecutionPayloadV3 := do
  let logsBloom : Bloom ← FixedBytes.ofList block.logsBloom.toList
  let v1 : ExecutionPayloadV1 :=
    { parentHash := block.parentHash
      feeRecipient := block.header.proposer
      stateRoot := block.stateRoot
      receiptsRoot := block.receiptsRoot
      logsBloom := logsBloom
      prevRandao := block.prevRandao
      blockNumber := block.height
      gasLimit := block.gasLimit
      gasUsed := block.gasUsed
      timestamp := block.timestamp
      extraData := block.extraData
      baseFeePerGas := BitVec.ofNat 256 block.baseFeePerGas.toNat
      blockHash := block.blockHash
      transactions := block.transactions.map Transaction.data }
  return { payloadInner := { payloadInner := v1, withdrawals := Vec.empty }
           blobGasUsed := 0
           excessBlobGas := 0 }

theorem toExecutionPayload_isSome {payload : BuiltPayload} :
    payload.toExecutionPayload.isSome = true ↔ payload.logsBloom.toList.length = 256 := by
  unfold BuiltPayload.toExecutionPayload FixedBytes.ofList
  split <;> simp_all

theorem buildPayload_isSome {block : Block} :
    (buildPayload block).isSome = true ↔ block.logsBloom.toList.length = 256 := by
  unfold buildPayload FixedBytes.ofList
  split <;> simp_all

theorem blockHash_of_toExecutionPayload {payload : BuiltPayload} {p : ExecutionPayloadV3}
    (h : payload.toExecutionPayload = some p) :
    p.payloadInner.payloadInner.blockHash = payload.blockHash := by
  obtain ⟨logsBloom, -, ⟨⟩⟩ := Option.bind_eq_some_iff.mp h
  rfl

theorem blockHash_of_buildPayload {block : Block} {p : ExecutionPayloadV3}
    (h : buildPayload block = some p) :
    p.payloadInner.payloadInner.blockHash = block.blockHash := by
  obtain ⟨logsBloom, -, ⟨⟩⟩ := Option.bind_eq_some_iff.mp h
  rfl

inductive ExecutionStatus
  | valid
  | invalid (reason : String)
  | syncing
  | accepted
deriving DecidableEq

structure ExecutionResult where
  blockHash : B256
  blockNumber : UInt64
  gasUsed : UInt64
  status : ExecutionStatus
deriving DecidableEq

def ExecutionResult.isValid (self : ExecutionResult) : Bool :=
  match self.status with
  | .valid => true
  | _ => false

/-- The `Debug` text of a status, as it stands in error messages. -/
def ExecutionStatus.debug : ExecutionStatus → String
  | .valid => "Valid"
  | .invalid reason => "Invalid \x7b reason: " ++ reason.quote ++ " \x7d"
  | .syncing => "Syncing"
  | .accepted => "Accepted"

inductive PayloadStatusEnum
  | valid
  | invalid (validationError : String)
  | syncing
  | accepted
deriving DecidableEq

structure PayloadStatus where
  status : PayloadStatusEnum
  latestValidHash : Option B256
deriving DecidableEq

structure ForkchoiceUpdated where
  payloadStatus : PayloadStatus
  payloadId : Option PayloadId
deriving DecidableEq

structure EnginePayloadAttributes where
  timestamp : UInt64
  prevRandao : B256
  suggestedFeeRecipient : Address
  withdrawals : Option (List Withdrawal)
  parentBeaconBlockRoot : Option B256
  targetBlobsPerBlock : Option UInt64
  maxBlobsPerBlock : Option UInt64
deriving DecidableEq

end Rkb.Execution.Payload
