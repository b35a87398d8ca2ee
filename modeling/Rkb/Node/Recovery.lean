import Rkb.Node.Validators
import Rkb.Sequencer.SyncResume

namespace Rkb.Node.Recovery

open Rkb.Library.Program
open Rkb.Types.Blocks
open Rkb.Celestia.Blobs
open Rkb.Celestia.Index
open Rkb.Celestia.Store
open Rkb.Sequencer.ForeignBlobs (firstAt)
open Rkb.Sequencer.Replay
open Rkb.Sequencer.Sync
open Rkb.Sequencer.SyncEffect
open Rkb.Sequencer.SyncPlan
open Rkb.Sequencer.SyncResume
open Rkb.Node.Pipeline
open Rkb.Node.Shared
open Rkb.Node.Validators

variable {PublicKey : Type} [DecidableEq PublicKey] {ι : Type} {json : IndexJson}
  {celestia : CelestiaClient} {genesisHash : B256} {da : UInt64 → Option (List Blob)}
  {genesisDaHeight current : UInt64} {validators : ι → ValidatorRun PublicKey}

section Found

end Found

section Sync

variable {chain : List Block}

end Sync

section Example

open Rkb.Library.Bytes (FixedBytes)
open Rkb.Consensus.ActorRuns (chainBlock)
open Rkb.Sequencer.ForeignBlobs (blobOf foreignBlock firstAt_cons_of_eq firstAt_cons_of_ne)

end Example

end Rkb.Node.Recovery
