import Rkb.Sequencer.RuntimeConfig
import Rkb.Sequencer.Sync

namespace Rkb.Sequencer.Startup

open Rkb.Execution.Errors
open Rkb.Execution.Forkchoice
open Rkb.Execution.Client
open Rkb.Celestia.Blobs
open Rkb.Celestia.Index
open Rkb.Consensus.Runtime
open Rkb.Sequencer.RuntimeConfig
open Rkb.Sequencer.Sync
open Rkb.Node.Effects

structure SequencerConfig where
  consensus : ConsensusConfig
  genesisDaHeight : UInt64
  batchIntervalMs : UInt64
  maxBatchSizeBytes : Nat

/-- The forkchoice cell is created on the genesis block; `executed_blocks` starts empty. -/
def initComponents : NodeProg (Except Report Unit) := do
  match Report.wrapErr ExecutionError.display "failed to get genesis hash from reth"
    (← getGenesisHash) with
  | .error e => return .error e
  | .ok genesisHash =>
      match Report.wrapErr ExecutionError.display "failed to initialize forkchoice on reth"
        (← initForkchoice genesisHash) with
      | .error e => return .error e
      | .ok () => do
          let _ ← op (.writeForkchoice
            { head := genesisHash, safe := genesisHash, finalized := genesisHash })
          return .ok ()

variable {PublicKey : Type} [DecidableEq PublicKey] (keys : KeyScheme PublicKey)
  (json : IndexJson) (celestia : CelestiaClient) (config : SequencerConfig)
  (inputs : ConsensusInputs)

/-- `run` from its components to the spawn of the other tasks: the configuration
that the consensus runtime is started with. -/
def runComponents : NodeProg (Except Report (SimplexRuntimeConfig PublicKey)) := do
  let forkchoice : ForkchoiceState ← op .readForkchoice
  match buildRuntimeConfig keys config.consensus inputs forkchoice.head with
  | .error e => return .error e
  | .ok runtimeConfig =>
      match ← initFromCelestia json celestia config.genesisDaHeight with
      | .error e => return .error e
      | .ok _ => do
          if config.batchIntervalMs ≠ 0 then
            let _ ← op .spawnBatchTask
          let _ ← op .spawnRuntime
          return .ok runtimeConfig

/-- `SimplexSequencer::run` up to its event loop. -/
def run : NodeProg (Except Report (SimplexRuntimeConfig PublicKey)) := do
  match ← initComponents with
  | .error e => return .error e
  | .ok () => runComponents keys json celestia config inputs

end Rkb.Sequencer.Startup
