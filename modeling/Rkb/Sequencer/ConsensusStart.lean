import Rkb.Node.System
import Rkb.Consensus.ActorRuns
import Rkb.Sequencer.SyncPlan

namespace Rkb.Sequencer.ConsensusStart

open Rkb.Library.Bytes
open Rkb.Library.Program
open Rkb.Types.Blocks
open Rkb.Execution.Errors
open Rkb.Execution.Forkchoice
open Rkb.Execution.Client
open Rkb.Celestia.Blobs
open Rkb.Celestia.Index
open Rkb.Consensus.Actor
open Rkb.Consensus.ActorRuns
open Rkb.Consensus.Runtime
open Rkb.Sequencer.RuntimeConfig
open Rkb.Sequencer.Startup
open Rkb.Sequencer.SyncPlan
open Rkb.Node.Effects
open Rkb.Node.Shared

/-- The head is the genesis block or a fetched block of height `k`. -/
def HeadOn (genesisHash : B256) (fetched : List (UInt64 × Block)) (head : B256)
    (k : UInt64) : Prop :=
  (head = genesisHash ∧ k = 0) ∨ ∃ b ∈ fetched, b.2.blockHash = head ∧ b.2.height = k

/-- The actor goes on from the head, and finalizes its children. -/
def StartsAtHead (genesisHash : B256) (fetched : List (UInt64 × Block)) (head : B256)
    (application : Application) : Prop :=
  ∀ k, HeadOn genesisHash fetched head k →
    application.lastHash = head ∧ application.height = k + 1 ∧
      ∀ block : Block, block.height = k + 1 → application.isValidHeight block = true

section Startup

variable {s : NodeState} {genesisHash : B256} {da : UInt64 → Option (List Blob)}

def KeepsIndex (o : NodeOp) : Prop :=
  ∀ s ans s', nodeSem o s ans s' → s'.indexFile = s.indexFile ∧ s'.tracker = s.tracker

theorem keepsIndex_initForkchoiceLoop (f : ForkchoiceState) (remaining : Nat) :
    (initForkchoiceLoop f remaining).Performs KeepsIndex := by
  have hsame : ∀ {s s' : NodeState}, s' = s →
      s'.indexFile = s.indexFile ∧ s'.tracker = s.tracker := by
    rintro s _ rfl
    exact ⟨rfl, rfl⟩
  induction remaining with
  | zero => exact performs_panicWith fun _ _ _ h => hsame h
  | succ remaining ih =>
      have hupdate : (updateForkchoice f).Performs KeepsIndex := by
        refine performs_updateForkchoice (fun _ _ _ h => hsame h) ?_
        rintro s _ _ rfl
        exact ⟨rfl, rfl⟩
      refine Prog.Performs.bind ?_ fun attempt => ?_
      · refine hupdate.bind fun response => ?_
        split
        · exact Prog.performs_pure _
        · split <;> exact Prog.performs_pure _
      · split
        · exact Prog.performs_pure _
        · exact Prog.performs_pure _
        · exact (Prog.performs_perform fun _ _ _ h => hsame h).bind fun _ => ih

theorem succeeds_initComponents :
    initComponents.Succeeds (servedSem genesisHash da) s fun _ s' =>
      s'.forkchoice.head = genesisHash ∧ s'.indexFile = s.indexFile ∧ s'.tracker = s.tracker := by
  have hgenesis : getGenesisHash.Succeeds (servedSem genesisHash da) s fun hash s' =>
      hash = genesisHash ∧ s' = s := by
    refine Prog.succeeds_perform_bind ?_
    rintro response s₁ ⟨rfl, hserved⟩
    cases response with
    | clientError reason => exact Prog.succeeds_error
    | requestError e => exact Prog.succeeds_error
    | answer hash => exact Prog.succeeds_ok ⟨hserved hash rfl, rfl⟩
  refine hgenesis.bind (fun e => ⟨_, rfl⟩) ?_
  rintro hash s₁ ⟨rfl, rfl⟩
  have hinit := (keepsIndex_initForkchoiceLoop (ForkchoiceState.genesis hash)
    maxRetries).keeps (J := fun s' => s'.indexFile = s₁.indexFile ∧ s'.tracker = s₁.tracker)
    (fun o ho s ans s' hs hsem => ⟨(ho s ans s' hsem).1.trans hs.1,
      (ho s ans s' hsem).2.trans hs.2⟩) ⟨rfl, rfl⟩
  have hkeeps : (initForkchoice hash).Succeeds nodeSem s₁ fun _ s' =>
      s'.indexFile = s₁.indexFile ∧ s'.tracker = s₁.tracker :=
    hinit.mono fun _ _ _ h _ _ => h
  refine hkeeps.restrict.bind (fun e => ⟨_, rfl⟩) ?_
  rintro _ s₂ ⟨hindex, htracker⟩
  refine Prog.succeeds_perform_bind ?_
  rintro _ s₃ ⟨rfl, -⟩
  exact Prog.succeeds_ok ⟨rfl, hindex, htracker⟩

variable {PublicKey : Type} [DecidableEq PublicKey] {keys : KeyScheme PublicKey}
  {json : IndexJson} {celestia : CelestiaClient} {config : SequencerConfig}
  {inputs : ConsensusInputs}

theorem initialHash_of_buildRuntimeConfig {consensus : ConsensusConfig} {initialHash : B256}
    {runtimeConfig : SimplexRuntimeConfig PublicKey}
    (h : buildRuntimeConfig keys consensus inputs initialHash = .ok runtimeConfig) :
    runtimeConfig.initialHash = initialHash := by
  unfold buildRuntimeConfig at h
  simp only [bind, Except.bind] at h
  repeat' split at h
  all_goals cases h
  rfl

/-- The blocks that a sync executes which starts on what the process finds on disk. -/
def startupSync (json : IndexJson) (celestia : CelestiaClient) (da : UInt64 → Option (List Blob))
    (genesisDaHeight : UInt64) (s : NodeState) : List (UInt64 × Block) :=
  unindexed (hasHeight (openedIndex json (indexText s)))
    (toSync celestia da genesisDaHeight s.tracker.finalizedHeight)

theorem succeeds_run :
    (run keys json celestia config inputs).Succeeds (servedSem genesisHash da) s
      fun runtimeConfig s' => runtimeConfig.initialHash = genesisHash ∧
        s'.forkchoice.head =
          headAfter genesisHash (startupSync json celestia da config.genesisDaHeight s) := by
  refine succeeds_initComponents.bind (fun e => ⟨_, rfl⟩) ?_
  rintro _ s₁ ⟨hhead, hindex, htracker⟩
  refine Prog.succeeds_perform_bind ?_
  rintro forkchoice s₂ ⟨⟨rfl, rfl⟩, -⟩
  split
  · exact Prog.succeeds_error
  · rename_i runtimeConfig hconfig
    have hinitial := initialHash_of_buildRuntimeConfig hconfig
    refine (succeeds_initFromCelestia config.genesisDaHeight).bind (fun e => ⟨_, rfl⟩) ?_
    rintro _ s₃ hsynced
    have hend : runtimeConfig.initialHash = genesisHash ∧ s₃.forkchoice.head =
        headAfter genesisHash (startupSync json celestia da config.genesisDaHeight s) := by
      refine ⟨hinitial.trans hhead, ?_⟩
      rw [hsynced.head, hhead]
      simp only [startupSync, indexText, hindex, htracker]
    have hruntime : ∀ s₄ : NodeState, s₄.forkchoice = s₃.forkchoice →
        (op .spawnRuntime >>= fun _ => Prog.pure (Except.ok runtimeConfig) :
          NodeProg (Except Report (SimplexRuntimeConfig PublicKey))).Succeeds
            (servedSem genesisHash da) s₄ fun runtimeConfig s' =>
              runtimeConfig.initialHash = genesisHash ∧ s'.forkchoice.head =
                headAfter genesisHash (startupSync json celestia da config.genesisDaHeight s) := by
      intro s₄ hs₄
      refine Prog.succeeds_perform_bind ?_
      rintro _ s₅ ⟨rfl, -⟩
      exact Prog.succeeds_ok ⟨hend.1, hs₄ ▸ hend.2⟩
    simp only
    split
    · refine Prog.succeeds_perform_bind ?_
      rintro _ s₄ ⟨rfl, -⟩
      exact hruntime _ rfl
    · exact hruntime s₃ rfl

variable {s' : NodeState} {tr : List NodeEvent} {runtimeConfig : SimplexRuntimeConfig PublicKey}

/-- Consensus starts at the synced head exactly when the sync leaves the head on
the genesis block. -/
theorem startsAtHead_iff_genesis
    (hrun : (run keys json celestia config inputs).Exec (servedSem genesisHash da) s tr
      (.ok runtimeConfig) s') :
    StartsAtHead genesisHash (toSync celestia da config.genesisDaHeight s.tracker.finalizedHeight)
        s'.forkchoice.head (createApplication runtimeConfig) ↔
      (∀ b ∈ (startupSync json celestia da config.genesisDaHeight s).getLast?,
        b.2.blockHash = genesisHash) ∧
      ∀ b ∈ toSync celestia da config.genesisDaHeight s.tracker.finalizedHeight,
        b.2.blockHash = genesisHash → b.2.height = 0 := by
  obtain ⟨hinitial, hhead⟩ := succeeds_run tr _ s' hrun runtimeConfig rfl
  have hlast : (createApplication runtimeConfig).lastHash = genesisHash := hinitial
  rw [← headAfter_eq_iff, ← hhead]
  constructor
  · intro hstart
    have hgenesis : s'.forkchoice.head = genesisHash := by
      by_cases hempty : startupSync json celestia da config.genesisDaHeight s = []
      · rw [hhead, hempty]
        rfl
      · obtain ⟨b, hb, hhash⟩ := headAfter_mem genesisHash hempty
        have hon : HeadOn genesisHash _ s'.forkchoice.head b.2.height :=
          .inr ⟨b, unindexed_subset hb, (hhead.trans hhash).symm, rfl⟩
        exact (hstart _ hon).1.symm.trans hlast
    refine ⟨hgenesis, ?_⟩
    intro b hb hhash
    have hheight : (1 : UInt64) = b.2.height + 1 :=
      (hstart _ (.inr ⟨b, hb, hhash.trans hgenesis.symm, rfl⟩)).2.1
    exact (UInt64.add_left_inj 1).mp hheight.symm
  · rintro ⟨hgenesis, hzero⟩ k hk
    have hk0 : k = 0 := by
      rcases hk with ⟨-, rfl⟩ | ⟨b, hb, hhash, rfl⟩
      · rfl
      · exact hzero b hb (hhash.trans hgenesis)
    subst hk0
    refine ⟨hlast.trans hgenesis.symm, rfl, ?_⟩
    intro block hblock
    exact beq_iff_eq.mpr hblock

end Startup

section Example

def syncingConfig : SequencerConfig where
  consensus := consensusOf [1]
  genesisDaHeight := 5
  batchIntervalMs := 1
  maxBatchSizeBytes := 100

def startedAt (indexFile : Option (List Char)) : NodeState :=
  { NodeState.start indexFile with tracker := ⟨∅, 5⟩ }

def fetchedAt (s : NodeState) : List (UInt64 × Block) :=
  toSync digestClient oneBlockBackend.blobs syncingConfig.genesisDaHeight s.tracker.finalizedHeight

theorem startsAtHead_iff_genesis_indexed :
    ∃ (s s' : NodeState) (runtimeConfig : SimplexRuntimeConfig UInt64),
      heights (fetchedAt s) = [1] ∧ s'.forkchoice.head = FixedBytes.zero ∧
      (StartsAtHead oneBlockBackend.genesisHash (fetchedAt s) s'.forkchoice.head
          (createApplication runtimeConfig) ↔
        (∀ b ∈ (startupSync IndexJson.compact digestClient oneBlockBackend.blobs
            syncingConfig.genesisDaHeight s).getLast?,
          b.2.blockHash = oneBlockBackend.genesisHash) ∧
          ∀ b ∈ fetchedAt s, b.2.blockHash = oneBlockBackend.genesisHash → b.2.height = 0) := by
  obtain ⟨tr, runtimeConfig, s', hrun, hhead⟩ := Prog.exists_success_of_check
    (acceptingNode_served oneBlockBackend)
    (run seedKeys IndexJson.compact digestClient syncingConfig soleInputs)
    (startedAt (some oneBlockFile)) (fun s => decide (s.forkchoice.head = FixedBytes.zero))
    (by decide +kernel)
  exact ⟨startedAt (some oneBlockFile), s', runtimeConfig, by decide +kernel,
    of_decide_eq_true hhead, startsAtHead_iff_genesis hrun⟩

theorem synced_startsAtGenesis :
    ¬ ∀ (json : IndexJson) (celestia : CelestiaClient) (da : UInt64 → Option (List Blob))
      (genesisHash : B256) (config : SequencerConfig) (inputs : ConsensusInputs)
      (s s' : NodeState) (tr : List NodeEvent) (runtimeConfig : SimplexRuntimeConfig UInt64),
      toSync celestia da config.genesisDaHeight s.tracker.finalizedHeight ≠ [] →
      (run seedKeys json celestia config inputs).Exec (servedSem genesisHash da) s tr
        (.ok runtimeConfig) s' →
      StartsAtHead genesisHash
        (toSync celestia da config.genesisDaHeight s.tracker.finalizedHeight)
        s'.forkchoice.head (createApplication runtimeConfig) := by
  intro hclaim
  obtain ⟨tr, runtimeConfig, s', hrun, hhead⟩ := Prog.exists_success_of_check
    (acceptingNode_served oneBlockBackend)
    (run seedKeys IndexJson.compact digestClient syncingConfig soleInputs) (startedAt none)
    (fun s => decide (s.forkchoice.head = (chainBlock 1).blockHash)) (by decide +kernel)
  have hfetched : fetchedAt (startedAt none) = [(5, chainBlock 1)] := by decide +kernel
  have hne : fetchedAt (startedAt none) ≠ [] := by
    rw [hfetched]
    exact List.cons_ne_nil _ _
  have hstart := hclaim IndexJson.compact digestClient oneBlockBackend.blobs
    oneBlockBackend.genesisHash syncingConfig soleInputs (startedAt none) s' tr runtimeConfig
    hne hrun
  have hon : HeadOn oneBlockBackend.genesisHash (fetchedAt (startedAt none))
      s'.forkchoice.head 1 := by
    refine .inr ⟨(5, chainBlock 1), ?_, (of_decide_eq_true hhead).symm, rfl⟩
    rw [hfetched]
    exact List.mem_singleton_self _
  have hinitial : runtimeConfig.initialHash = oneBlockBackend.genesisHash :=
    (succeeds_run tr _ s' hrun runtimeConfig rfl).1
  have hlast := (hstart 1 hon).1
  rw [of_decide_eq_true hhead] at hlast
  exact absurd (hinitial.symm.trans hlast) (by decide +kernel)

end Example

end Rkb.Sequencer.ConsensusStart
