import Mathlib.Data.Fintype.EquivFin
import Mathlib.Data.Fintype.Lattice
import Rkb.Celestia.Store
import Rkb.Node.FirmInclusion
import Rkb.Node.Pipeline
import Rkb.Sequencer.ForeignBlobs
import Rkb.Sequencer.LeaderUniqueness
import Rkb.Sequencer.Replay

namespace Rkb.Node.Validators

open Rkb.Library.Histories
open Rkb.Library.Runs
open Rkb.Library.Tasks
open Rkb.Types.Blocks
open Rkb.Celestia.Blobs
open Rkb.Celestia.Store
open Rkb.Consensus.Leader
open Rkb.Consensus.Runtime
open Rkb.Sequencer.LeaderUniqueness (findIdx?_eq_some_iff)
open Rkb.Sequencer.Replay (Ascending)
open Rkb.Node.Effects
open Rkb.Node.Pipeline
open Rkb.Node.Shared
open Rkb.Node.System

variable {PublicKey : Type} [DecidableEq PublicKey]

structure ValidatorRun (PublicKey : Type) [DecidableEq PublicKey] where
  node : NodeParams PublicKey
  config : SimplexRuntimeConfig PublicKey
  genesisHash : B256
  indexFile : Option (List Char)
  retained : Nat
  steps : List (TaskTransition Ans PipelineState Local Input)
  reached : Config NodeOp Ans PipelineState Local
  run : Run (Step (pipeline node config))
    (pipelineInitial node config genesisHash indexFile retained) steps reached

def submissionOf : NodeEvent → Option (List Blob × Except String UInt64)
  | ⟨.submitBlobs blobs, ans⟩ => some (blobs, ans)
  | _ => none

def submissions (log : NodeLog) : List (List Blob × Except String UInt64) :=
  log.filterMap fun e => submissionOf e.2

namespace ValidatorRun

def log (validator : ValidatorRun PublicKey) : NodeLog := events validator.steps

def chain (validator : ValidatorRun PublicKey) : List Block := finalized validator.log

def share (validator : ValidatorRun PublicKey) : List Block :=
  validator.chain.filter (leads validator.config)

/-- The validator has submitted its share: nothing has failed, and its loops have caught up.
Without batches, each of these blocks gives a blob. -/
structure Delivered (validator : ValidatorRun PublicKey) : Prop where
  blobs : validator.node.config.batchIntervalMs = 0 → ∀ block ∈ validator.share,
    ∃ blob, validator.node.celestia.createBlobForBlock block = .ok blob
  succeeded : ∀ e ∈ eventsOf .finalization validator.log, succeeded e = true
  caughtUp : caughtUp validator.reached = true

theorem ascending (validator : ValidatorRun PublicKey)
    (hlength : validator.chain.length < 2 ^ 64) : Ascending validator.chain := by
  have hheights := (piped_of_run validator.run).heights
  have hpairwise : (validator.chain.map Block.height).Pairwise (· < ·) := by
    rw [chain, log, hheights, List.pairwise_map]
    have hrange : (List.range' 1 (finalized (events validator.steps)).length).Pairwise (· < ·) :=
      List.pairwise_lt_range'
    refine hrange.imp_of_mem ?_
    intro i j hi hj hlt
    rw [List.mem_range'_1] at hi hj
    have hbound : (finalized (events validator.steps)).length < UInt64.size := hlength
    rw [UInt64.lt_iff_toNat_lt, UInt64.toNat_ofNat_of_lt' (by omega),
      UInt64.toNat_ofNat_of_lt' (by omega)]
    exact hlt
  exact List.pairwise_map.mp hpairwise

end ValidatorRun

section Log

variable {log : NodeLog} {blob : Blob}

theorem exists_event_of_submission {submission : List Blob × Except String UInt64}
    (h : submission ∈ submissions log) :
    ∃ t, (t, ⟨.submitBlobs submission.1, submission.2⟩) ∈ log := by
  obtain ⟨⟨t, o, ans⟩, hevent, hsubmission⟩ := List.mem_filterMap.mp h
  cases o
  case submitBlobs blobs =>
      cases hsubmission
      exact ⟨t, hevent⟩
  all_goals cases hsubmission

theorem ValidatorRun.created_of_submission (validator : ValidatorRun PublicKey)
    {submission : List Blob × Except String UInt64}
    (h : submission ∈ submissions validator.log) : ∃ blocks,
      blocks.Sublist validator.share ∧ Created validator.node.celestia blocks submission.1 := by
  obtain ⟨t, hevent⟩ := exists_event_of_submission h
  exact submits_of_run validator.run hevent

theorem ValidatorRun.exists_block_of_submission (validator : ValidatorRun PublicKey)
    {submission : List Blob × Except String UInt64}
    (hsubmission : submission ∈ submissions validator.log) (hblob : blob ∈ submission.1) :
    ∃ block ∈ validator.share, validator.node.celestia.createBlobForBlock block = .ok blob := by
  obtain ⟨blocks, hsub, hcreated⟩ := validator.created_of_submission hsubmission
  have hmem : Except.ok blob ∈ blocks.map validator.node.celestia.createBlobForBlock := by
    rw [hcreated]
    exact List.mem_map_of_mem hblob
  obtain ⟨block, hblock, hcreate⟩ := List.mem_map.mp hmem
  exact ⟨block, hsub.subset hblock, hcreate⟩

end Log

section Leader

variable {config config₁ config₂ : SimplexRuntimeConfig PublicKey} {block₁ block₂ : Block}

theorem leads_iff {block : Block} : leads config block = true ↔
    config.participants.card ≠ 0 ∧
      config.validatorIndex = some (block.height.toNat % config.participants.card) := by
  rw [leads, decide_eq_true_eq, finalizedBlockIsLeader]
  cases hindex : config.validatorIndex with
  | none => simp
  | some i =>
      by_cases hcard : config.participants.card = 0
      · simp [isLeader, leaderIndex, hcard]
      · rw [and_iff_right hcard]
        simp only [Option.bind_eq_bind, Option.bind_some, isLeader, leaderIndex, if_neg hcard,
          Option.map_some, Option.some.injEq, beq_iff_eq]
        exact eq_comm

theorem leads_unique (hvalidators : config₁.validators = config₂.validators)
    (hheight : block₁.height = block₂.height) (h₁ : leads config₁ block₁ = true)
    (h₂ : leads config₂ block₂ = true) : config₁.publicKey = config₂.publicKey := by
  obtain ⟨-, hindex₁⟩ := leads_iff.mp h₁
  obtain ⟨-, hindex₂⟩ := leads_iff.mp h₂
  have hkey₁ := (findIdx?_eq_some_iff.mp hindex₁).1
  have hkey₂ := (findIdx?_eq_some_iff.mp hindex₂).1
  rw [SimplexRuntimeConfig.participants, hvalidators, hheight] at hkey₁
  exact Option.some.inj (hkey₁.symm.trans hkey₂)

end Leader

section Submitted

variable {ι : Type} {validators : ι → ValidatorRun PublicKey}

/-- No height is submitted twice. Whatever the nodes of the validators do, all that they submit,
or try to submit, are blocks of their shares, and Celestia acknowledges to none of them a block
twice. No two blocks of the shares have the same height: neither in one share nor in two. -/
theorem submitted_once
    (hvalidators : ∀ n m, (validators n).config.validators = (validators m).config.validators)
    (hkeys : Function.Injective fun n => (validators n).config.publicKey)
    (hlength : ∀ n, (validators n).chain.length < 2 ^ 64) :
    (∀ n, ∀ submission ∈ submissions (validators n).log, ∃ blocks,
        blocks.Sublist (validators n).share ∧
          Created (validators n).node.celestia blocks submission.1) ∧
      (∀ n, ∃ submitted, submitted.Sublist (validators n).share ∧
        Created (validators n).node.celestia submitted (acknowledged (validators n).log)) ∧
      (∀ n, ((validators n).share.map Block.height).Nodup) ∧
      ∀ n m, n ≠ m → List.Disjoint ((validators n).share.map Block.height)
        ((validators m).share.map Block.height) := by
  refine ⟨fun n _ h => (validators n).created_of_submission h,
    fun n => (piped_of_run (validators n).run).exists_submitted, ?_, ?_⟩
  · intro n
    have hascending : Ascending (validators n).share :=
      ((validators n).ascending (hlength n)).sublist List.filter_sublist
    rw [List.Nodup, List.pairwise_map]
    exact hascending.imp fun hlt => UInt64.ne_of_lt hlt
  · intro n m hne height hn hm
    obtain ⟨block₁, hblock₁, rfl⟩ := List.mem_map.mp hn
    obtain ⟨block₂, hblock₂, hheight⟩ := List.mem_map.mp hm
    have hleads₁ := List.of_mem_filter hblock₁
    have hleads₂ := List.of_mem_filter hblock₂
    exact hne (hkeys (leads_unique (hvalidators n m) hheight.symm hleads₁ hleads₂))

end Submitted

section Final

variable {ι : Type} {validators : ι → ValidatorRun PublicKey}

theorem exists_longest {ι : Type} [Finite ι] [Nonempty ι] (chains : ι → List Block)
    (hagree : ∀ n m, chains n <+: chains m ∨ chains m <+: chains n) :
    ∃ n, ∀ m, chains m <+: chains n := by
  obtain ⟨n, hn⟩ := Finite.exists_max fun n => (chains n).length
  refine ⟨n, fun m => ?_⟩
  rcases hagree m n with h | h
  · exact h
  · exact (h.eq_of_length_le (hn m)) ▸ List.prefix_rfl

/-- The genesis block, or a block of this validator's share. -/
def FinalBlock (validator : ValidatorRun PublicKey) (chain : List Block) (hash : B256) : Prop :=
  hash = validator.genesisHash ∨
    ∃ block ∈ validator.share, block ∈ chain ∧ block.blockHash = hash

theorem ValidatorRun.final_of_firm (validator : ValidatorRun PublicKey)
    (hdata : KeepsData validator.node.celestia) {log : NodeLog} (hlog : log <+: validator.log)
    {hash : B256} (h : FirmInclusion.Firm validator.genesisHash validator.node.celestia log hash) :
    FinalBlock validator validator.chain hash := by
  rcases h with hgenesis | ⟨confirmation, hconfirmed, rfl⟩
  · exact .inl hgenesis
  · obtain ⟨before, after, t, headerHeight, confirmations, rfl, -, -, commitment, hincluded⟩ :=
      hconfirmed
    obtain ⟨t', blobs, block, hevent, hhash, -, blob, hblob, hcreate, -⟩ := hincluded
    have hsubmission : (blobs, .ok confirmation.celestiaHeight) ∈ submissions validator.log :=
      List.mem_filterMap.mpr
        ⟨_, hlog.subset (List.mem_append_left _ hevent), rfl⟩
    obtain ⟨source, hsource, hcreate'⟩ := validator.exists_block_of_submission hsubmission hblob
    have hdecode := decodeBlock_of_create hdata hcreate
    rw [decodeBlock_of_create hdata hcreate'] at hdecode
    cases hdecode
    exact .inr ⟨_, hsource, List.mem_of_mem_filter hsource, hhash⟩

/-- Finality follows consensus. Whatever Celestia, reth and the nodes do, the final block of
each validator, and every block that any of them has told reth to finalize, is its genesis
block or a block of its share that lies on one chain, the same for all. -/
theorem final_of_runs [Finite ι] [Nonempty ι]
    (hdata : ∀ n, KeepsData (validators n).node.celestia)
    (hagree : ∀ n m, (validators n).chain <+: (validators m).chain ∨
      (validators m).chain <+: (validators n).chain) :
    ∃ n, ∀ m,
      FinalBlock (validators m) (validators n).chain
        (validators m).reached.shared.node.forkchoice.finalized ∧
      ∀ t state attributes ans,
        (t, ⟨.forkchoiceUpdated state attributes, ans⟩) ∈ (validators m).log →
          FinalBlock (validators m) (validators n).chain state.finalizedBlockHash := by
  obtain ⟨n, hlongest⟩ := exists_longest (fun n => (validators n).chain) hagree
  refine ⟨n, fun m => ?_⟩
  have honchain : ∀ {log : NodeLog} {hash : B256}, log <+: (validators m).log →
      FirmInclusion.Firm (validators m).genesisHash (validators m).node.celestia log hash →
        FinalBlock (validators m) (validators n).chain hash := by
    intro log hash hlog hfirm
    rcases (validators m).final_of_firm (hdata m) hlog hfirm with
      hgenesis | ⟨block, hshare, hchain, hhash⟩
    · exact .inl hgenesis
    · exact .inr ⟨block, hshare, (hlongest m).subset hchain, hhash⟩
  obtain ⟨us, hrun, hevents⟩ := run_system (validators m).run
  obtain ⟨hinv, hrequires⟩ := FirmInclusion.firmOnly_of_run hrun
  have hlog : (validators m).log = events us := hevents.symm
  refine ⟨honchain (hlog ▸ List.prefix_rfl) hinv.forkchoice, ?_⟩
  intro t state attributes ans hevent
  rw [hlog] at hevent
  obtain ⟨before, tr, after, hus, hlabel⟩ := exists_of_mem_events hevent
  refine honchain ?_ (hrequires before tr after hus t _ ans hlabel)
  rw [hlog, hus, events, events, List.flatMap_append]
  exact List.prefix_append _ _

end Final

section Example

open Rkb.Library.Bytes (FixedBytes hexEncode)
open Rkb.Celestia.Finality (FinalityConfirmation)
open Rkb.Consensus.ActorRuns (chainBlock)
open Rkb.Node.Shared (Backend genesisBackend)
open Rkb.Sequencer.ForeignBlobs (blobOf)
open Rkb.Sequencer.RuntimeConfig (consensusOf)
open Rkb.Node.ExecutedFinality (soleValidator)

def pairKey (second : Bool) : UInt64 := if second then 2 else 1

def pairValidator (second : Bool) : NodeParams UInt64 :=
  { soleValidator with
    config := { soleValidator.config with consensus := consensusOf [1, 2] }
    inputs := { soleValidator.inputs with
      privateKeyFile := .ok (hexEncode ((pairKey second).toUInt8 :: List.replicate 31 0)) } }

def pairConfig (second : Bool) : SimplexRuntimeConfig UInt64 :=
  { soleConfig with publicKey := pairKey second, validators := [1, 2] }

/-- The second one leads the first block, the first one the second block. -/
def ownBlock (second : Bool) : Block := if second then chainBlock 1 else chainBlock 2

def ownSubmission (second : Bool) : BlobSubmission where
  blockHash := (ownBlock second).blockHash
  blockHeight := (ownBlock second).height
  celestiaHeight := 10
  commitment := []

def ownConfirmation (second : Bool) : FinalityConfirmation where
  blockHash := (ownBlock second).blockHash
  blockHeight := (ownBlock second).height
  celestiaHeight := 10
  celestiaHeaderHash := FixedBytes.zero

def pairBackend (second : Bool) : Backend :=
  { genesisBackend with
    visits := fun _ => [⟨(ownBlock second).blockHash, ⟨(ownBlock second).height, 10⟩⟩] }

/-- Both blocks are received, finalized and executed, and their leader submits each and makes
it final. -/
def pairSchedule (second : Bool) : List (Move Input) :=
  List.replicate 3 (.act .main) ++ finalizeMoves 1 ++ finalizeMoves 2 ++ executeMoves 1 second ++
    executeMoves 2 (!second) ++
    .start .batch (.received (some (ownBlock second))) :: List.replicate 2 (.act .batch) ++
    .start .tracking (ownSubmission second) :: .act .tracking ::
    .start .headers ((10 : UInt64), (FixedBytes.zero : B256)) ::
      List.replicate 2 (.act .headers) ++
    .start .main (.confirmation (ownConfirmation second)) :: List.replicate 5 (.act .main)

structure PairRun (second : Bool) (validator : ValidatorRun UInt64) : Prop where
  node : validator.node = pairValidator second
  config : validator.config = pairConfig second
  chain : validator.chain = [chainBlock 1, chainBlock 2]
  delivered : validator.Delivered
  submissions : submissions validator.log = [([blobOf (ownBlock second)], .ok 10)]
  acknowledged : acknowledged validator.log = [blobOf (ownBlock second)]
  genesis : validator.genesisHash = FixedBytes.zero
  final : validator.reached.shared.node.forkchoice.finalized = (ownBlock second).blockHash

theorem exists_pair : ∃ validators : Bool → ValidatorRun UInt64,
    ∀ n, PairRun n (validators n) := by
  have hplay : ∀ n : Bool, ∃ ts c, Run (Step (pipeline (pairValidator n) (pairConfig n)))
      (pipelineInitial (pairValidator n) (pairConfig n) FixedBytes.zero none 128) ts c ∧
      decide (finalized (events ts) = [chainBlock 1, chainBlock 2] ∧
        (∀ e ∈ eventsOf NodeTask.finalization (events ts), succeeded e = true) ∧
        caughtUp c = true ∧
        submissions (events ts) = [([blobOf (ownBlock n)], .ok 10)] ∧
        acknowledged (events ts) = [blobOf (ownBlock n)] ∧
        c.shared.node.forkchoice.finalized = (ownBlock n).blockHash) = true := by
    intro n
    refine exists_run_of_play (step_of_playMove (pipelineEnvironment_sound _ _ (pairBackend n)))
      _ (pairSchedule n) _ ?_
    cases n <;> decide +kernel
  choose ts c hrun hcheck using hplay
  refine ⟨fun n => ⟨_, _, _, _, _, ts n, c n, hrun n⟩, fun n => ?_⟩
  obtain ⟨hchain, hsucceeded, hcaughtUp, hsubmissions, hacknowledged, hfinal⟩ :=
    of_decide_eq_true (hcheck n)
  have hdelivered : ValidatorRun.Delivered ⟨_, _, _, _, _, ts n, c n, hrun n⟩ :=
    ⟨fun _ _ _ => ⟨_, rfl⟩, hsucceeded, hcaughtUp⟩
  exact ⟨rfl, rfl, hchain, hdelivered, hsubmissions, hacknowledged, rfl, hfinal⟩

theorem PairRun.share {second : Bool} {validator : ValidatorRun UInt64}
    (h : PairRun second validator) : validator.share = [ownBlock second] := by
  rw [ValidatorRun.share, h.chain, h.config]
  cases second <;> decide +kernel

theorem submitted_once_pair : ∃ validators : Bool → ValidatorRun UInt64,
    (∀ n, (validators n).chain = [chainBlock 1, chainBlock 2]) ∧
      (validators true).share = [chainBlock 1] ∧ (validators false).share = [chainBlock 2] ∧
      List.Disjoint ((validators false).share.map Block.height)
        ((validators true).share.map Block.height) := by
  obtain ⟨validators, hpair⟩ := exists_pair
  have hvalidators : ∀ n, (validators n).config.validators = [1, 2] := by
    intro n
    rw [(hpair n).config]
    rfl
  have hkeys : Function.Injective fun n => (validators n).config.publicKey := by
    intro n m h
    simp only [(hpair n).config, (hpair m).config] at h
    have hpublicKeys : ∀ n m, (pairConfig n).publicKey = (pairConfig m).publicKey → n = m := by
      decide
    exact hpublicKeys n m h
  have hchain : ∀ n, (validators n).chain = [chainBlock 1, chainBlock 2] :=
    fun n => (hpair n).chain
  have hlength : ∀ n, (validators n).chain.length < 2 ^ 64 := by
    intro n
    rw [hchain]
    decide
  obtain ⟨-, -, -, hdisjoint⟩ := submitted_once
    (fun n m => (hvalidators n).trans (hvalidators m).symm) hkeys hlength
  exact ⟨validators, hchain, (hpair true).share, (hpair false).share,
    hdisjoint false true (by decide)⟩

theorem keepsData_pair {second : Bool} {validator : ValidatorRun UInt64}
    (h : PairRun second validator) : KeepsData validator.node.celestia := by
  rw [h.node]
  rintro data address blob ⟨⟩
  rfl

theorem final_of_runs_pair : ∃ validators : Bool → ValidatorRun UInt64,
    ∀ n, (validators n).reached.shared.node.forkchoice.finalized = (ownBlock n).blockHash ∧
      ∃ block ∈ (validators n).share, block.blockHash = (ownBlock n).blockHash := by
  obtain ⟨validators, hpair⟩ := exists_pair
  have hagree : ∀ n m, (validators n).chain <+: (validators m).chain ∨
      (validators m).chain <+: (validators n).chain := by
    intro n m
    rw [(hpair n).chain, (hpair m).chain]
    exact .inl List.prefix_rfl
  refine ⟨validators, fun m => ⟨(hpair m).final, ?_⟩⟩
  obtain ⟨n, hn⟩ := final_of_runs (fun n => keepsData_pair (hpair n)) hagree
  rcases (hn m).1 with hgenesis | ⟨block, hshare, -, hhash⟩
  · rw [(hpair m).final, (hpair m).genesis] at hgenesis
    have hnot : ∀ n, (ownBlock n).blockHash ≠ FixedBytes.zero := by
      decide +kernel
    exact absurd hgenesis (hnot m)
  · exact ⟨block, hshare, hhash.trans (hpair m).final⟩

end Example

end Rkb.Node.Validators
