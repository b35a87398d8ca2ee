import Rkb.Library.Program
import Rkb.Execution.Errors
import Rkb.Execution.Forkchoice
import Rkb.Execution.Payload
import Rkb.Celestia.Finality
import Rkb.Consensus.Messages

/-!
The atomic operations of the node's tasks: requests to reth and Celestia, the
clock, the channels, and the cells the tasks share behind a lock. A lock is
released between two operations, so an `await` separates them.
-/

namespace Rkb.Node.Effects

open Rkb.Library.Program
open Rkb.Types.Blocks
open Rkb.Execution.Forkchoice
open Rkb.Execution.Payload
open Rkb.Celestia.Blobs
open Rkb.Celestia.Finality
open Rkb.Consensus.Messages

/-- A request fails when the HTTP client cannot be built, or when it is sent. -/
inductive RpcAnswer (α : Type)
  | clientError (reason : String)
  | requestError (e : String)
  | answer (a : α)

inductive IndexReadError
  | openFailed (e : String)
  | lineFailed (e : String)

inductive IndexAppendError
  | writeFailed (e : String)
  | flushFailed (e : String)

inductive NodeOp
  | now
  | sleep (millis : UInt64)
  | panic (reason : String)
  | warn (message : String)
  -- reth
  | getGenesisHash
  | getHead
  | newPayload (payload : ExecutionPayloadV3) (versionedHashes : List B256)
      (parentBeaconBlockRoot : B256)
  | forkchoiceUpdated (state : EngineForkchoiceState) (attributes : Option EnginePayloadAttributes)
  | getPayload (payloadId : PayloadId)
  -- the forkchoice cached by the execution client, and the sequencer's own cells
  | readCached
  | writeCached (state : ForkchoiceState)
  | readForkchoice
  | writeForkchoice (state : ForkchoiceState)
  | insertExecuted (blockHash : B256)
  | containsExecuted (blockHash : B256)
  -- the application actor's outgoing channels
  | respondDigest (digest : AppDigest)
  | respondValid (valid : Bool)
  | relayBlock (proposed : ProposedBlock)
  | broadcastBlock (block : Block)
  -- Celestia
  | finalizedHeight
  | fetchBlobs (celestiaHeight : UInt64)
  | submitBlobs (blobs : List Blob)
  | spawnTrack (submission : BlobSubmission)
  | track (submission : BlobSubmission)
  | onCelestiaFinality (celestiaHeight : UInt64) (celestiaHeaderHash : B256)
  | sendConfirmation (confirmation : FinalityConfirmation)
  | queueBlock (block : Block)
  | spawnBatchTask
  | spawnRuntime
  -- the file of the block index
  | createIndexDir
  | indexExists
  | readIndexFile
  | openIndexFile
  | appendIndexFile (line : List Char)

def Ans : NodeOp → Type
  | .now => UInt64
  | .sleep _ => Unit
  | .panic _ => Empty
  | .warn _ => Unit
  | .getGenesisHash => RpcAnswer B256
  | .getHead => RpcAnswer (B256 × UInt64 × UInt64)
  | .newPayload _ _ _ => RpcAnswer PayloadStatus
  | .forkchoiceUpdated _ _ => RpcAnswer ForkchoiceUpdated
  | .getPayload _ => RpcAnswer ExecutionPayloadV3
  | .readCached => ForkchoiceState
  | .writeCached _ => Unit
  | .readForkchoice => ForkchoiceState
  | .writeForkchoice _ => Unit
  | .insertExecuted _ => Unit
  | .containsExecuted _ => Bool
  | .respondDigest _ => Unit
  | .respondValid _ => Unit
  | .relayBlock _ => Unit
  | .broadcastBlock _ => Unit
  | .finalizedHeight => UInt64
  | .fetchBlobs _ => Except String (Option (List Blob))
  | .submitBlobs _ => Except String UInt64
  | .spawnTrack _ => Unit
  | .track _ => Unit
  | .onCelestiaFinality _ _ => List FinalityConfirmation
  | .sendConfirmation _ => Bool
  | .queueBlock _ => Bool
  | .spawnBatchTask => Unit
  | .spawnRuntime => Unit
  | .createIndexDir => Except String Unit
  | .indexExists => Bool
  | .readIndexFile => Except IndexReadError (List Char)
  | .openIndexFile => Except String Unit
  | .appendIndexFile _ => Except IndexAppendError Unit

abbrev NodeProg : Type → Type := Prog NodeOp Ans

abbrev NodeEvent : Type := Event Ans

def op (o : NodeOp) : NodeProg (Ans o) := Prog.perform o

def panicWith {α : Type} (reason : String) : NodeProg α := .op (.panic reason) Empty.elim

end Rkb.Node.Effects
