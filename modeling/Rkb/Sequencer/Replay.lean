import Rkb.Sequencer.ForeignBlobs

namespace Rkb.Sequencer.Replay

open Rkb.Library.Bytes
open Rkb.Types.Blocks
open Rkb.Execution.Forkchoice
open Rkb.Execution.Payload
open Rkb.Celestia.Blobs
open Rkb.Celestia.Index
open Rkb.Consensus.ActorRuns
open Rkb.Consensus.FinalizedChain
open Rkb.Sequencer.Sync
open Rkb.Sequencer.SyncPlan
open Rkb.Sequencer.SyncEffect
open Rkb.Sequencer.ForeignBlobs
open Rkb.Node.Shared

def Ascending (chain : List Block) : Prop := chain.Pairwise fun a b => a.height < b.height

section Order

variable {fetched : List (UInt64 × Block)} {chain : List Block}

end Order

section Effects

variable {E : Type} {engine : Engine E} {finalized : B256} {e : E} {json : IndexJson}
  {file : Bool} {s : NodeState} {blocks : List (UInt64 × Block)}

variable {celestia : CelestiaClient} {da : UInt64 → Option (List Blob)} {index : BlockIndex}
  {genesisDaHeight : UInt64} {chain : List Block}

end Effects

section Example

end Example

end Rkb.Sequencer.Replay
