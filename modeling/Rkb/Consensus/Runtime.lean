import Rkb.Consensus.Actor
import Rkb.Consensus.Leader

namespace Rkb.Consensus.Runtime

open Rkb.Types.Blocks
open Rkb.Consensus.Actor
open Rkb.Consensus.Leader

variable {PublicKey : Type}

structure SimplexRuntimeConfig (PublicKey : Type) where
  publicKey : PublicKey
  validators : List PublicKey
  ourAddress : Address
  initialHash : B256
  blockTiming : BlockTiming

inductive ConsensusError
  | invalidConfig (reason : String)
deriving DecidableEq

namespace SimplexRuntimeConfig

variable [DecidableEq PublicKey]

def isValidator (self : SimplexRuntimeConfig PublicKey) : Bool :=
  decide (self.publicKey ∈ self.validators)

def validatorIndex (self : SimplexRuntimeConfig PublicKey) : Option Nat :=
  self.validators.findIdx? fun key => key == self.publicKey

/-- The set that `run_simplex` builds from the list, without duplicates. -/
def participants (self : SimplexRuntimeConfig PublicKey) : Finset PublicKey :=
  self.validators.toFinset

end SimplexRuntimeConfig

def startSimplexRuntime [DecidableEq PublicKey] (config : SimplexRuntimeConfig PublicKey) :
    Except ConsensusError Unit :=
  if !config.isValidator then .error (.invalidConfig "not in validator set")
  else if config.validators.isEmpty then .error (.invalidConfig "validator set is empty")
  else .ok ()

def createApplication (config : SimplexRuntimeConfig PublicKey) : Application :=
  Application.new
    { initialHeight := 1
      initialHash := config.initialHash
      proposer := config.ourAddress
      blockTiming := config.blockTiming }

/-- The `is_leader` of `handle_finalized_block` in the finalization loop of a
node; `none` where the loop panics. -/
def finalizedBlockIsLeader [DecidableEq PublicKey] (config : SimplexRuntimeConfig PublicKey)
    (height : UInt64) : Option Bool := do
  let ourIndex ← config.validatorIndex
  isLeader ourIndex height config.participants.card

theorem finalizedBlockIsLeader_of_start [DecidableEq PublicKey]
    {config : SimplexRuntimeConfig PublicKey} (hstart : startSimplexRuntime config = .ok ())
    (height : UInt64) : ∃ leader, finalizedBlockIsLeader config height = some leader := by
  have hmem : config.publicKey ∈ config.validators := by
    by_contra hnot
    simp [startSimplexRuntime, SimplexRuntimeConfig.isValidator, hnot] at hstart
  have hindex : config.validatorIndex.isSome := by
    rw [SimplexRuntimeConfig.validatorIndex, List.findIdx?_isSome]
    exact List.any_eq_true.mpr ⟨config.publicKey, hmem, beq_self_eq_true _⟩
  obtain ⟨i, hi⟩ := Option.isSome_iff_exists.mp hindex
  have hcard : config.participants.card ≠ 0 :=
    Finset.card_ne_zero_of_mem (List.mem_toFinset.mpr hmem)
  simp [finalizedBlockIsLeader, hi, isLeader, leaderIndex, hcard]

end Rkb.Consensus.Runtime
