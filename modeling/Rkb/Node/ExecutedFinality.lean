import Rkb.Consensus.ActorRuns
import Rkb.Node.System

namespace Rkb.Node.ExecutedFinality

open Rkb.Library.Bytes
open Rkb.Library.Maps
open Rkb.Library.Program
open Rkb.Library.Runs
open Rkb.Library.Sha256
open Rkb.Library.Tasks
open Rkb.Types.Blocks
open Rkb.Execution.Errors
open Rkb.Execution.Forkchoice
open Rkb.Execution.Payload
open Rkb.Execution.Client
open Rkb.Celestia.Blobs
open Rkb.Celestia.Finality
open Rkb.Celestia.Client
open Rkb.Celestia.Index
open Rkb.Consensus.Messages
open Rkb.Consensus.Actor
open Rkb.Consensus.ActorRuns
open Rkb.Consensus.ActorSteps
open Rkb.Consensus.Runtime
open Rkb.Sequencer.Batch
open Rkb.Sequencer.Finalization
open Rkb.Sequencer.RuntimeConfig
open Rkb.Sequencer.Sync
open Rkb.Sequencer.Startup
open Rkb.Node.Effects
open Rkb.Node.Shared
open Rkb.Node.System

variable {PublicKey : Type} {node : NodeParams PublicKey}
  {genesisHash : B256}

/-- The hashes that may be finalized: the genesis block and the executed blocks. -/
def final (genesisHash : B256) (s : NodeState) : Finset B256 := insert genesisHash s.executed

/-- Every hash that waits for finality is executed, and both copies of the
forkchoice are finalized on the genesis block or an executed one. -/
structure OnlyExecuted (genesisHash : B256) (s : NodeState) : Prop where
  forkchoice : s.forkchoice.finalized ∈ final genesisHash s
  cached : s.cached.finalized ∈ final genesisHash s
  batchQueue : ∀ block ∈ s.batchQueue, block.blockHash ∈ s.executed
  spawned : ∀ submission ∈ s.spawned, submission.blockHash ∈ s.executed
  tracker : ∀ e ∈ s.tracker.pending.entries, e.1 ∈ s.executed
  confirmations : ∀ confirmation ∈ s.confirmations, confirmation.blockHash ∈ s.executed

def Grows (s s' : NodeState) : Prop := s.executed ⊆ s'.executed

def Allowed (genesisHash : B256) : (o : NodeOp) → NodeState → Ans o → Prop
  | .forkchoiceUpdated state _, s, _ => state.finalizedBlockHash ∈ final genesisHash s
  | .containsExecuted _, _, ans => ans = true
  | .onCelestiaFinality _ _, s, (confirmations : List FinalityConfirmation) =>
      ∀ confirmation ∈ confirmations, confirmation.blockHash ∈ s.executed
  | .sendConfirmation confirmation, s, _ => confirmation.blockHash ∈ s.executed
  | _, _, _ => True

/-- What a task has to know before it performs an operation. -/
def Requires (genesisHash : B256) (s : NodeState) : NodeOp → Prop
  | .forkchoiceUpdated state _ => state.finalizedBlockHash ∈ final genesisHash s
  | .writeCached state => state.finalized ∈ final genesisHash s
  | .writeForkchoice state => state.finalized ∈ final genesisHash s
  | .containsExecuted blockHash => blockHash ∈ s.executed
  | .queueBlock block => block.blockHash ∈ s.executed
  | .spawnTrack submission => submission.blockHash ∈ s.executed
  | .track submission => submission.blockHash ∈ s.executed
  | .sendConfirmation confirmation => confirmation.blockHash ∈ s.executed
  | _ => True

section Operations

variable {s s' : NodeState} {o : NodeOp} {ans : Ans o}

theorem final_of_grows (h : Grows s s') : final genesisHash s ⊆ final genesisHash s' :=
  Finset.insert_subset_insert _ h

theorem requires_of_grows (h : Grows s s') (ho : Requires genesisHash s o) :
    Requires genesisHash s' o := by
  cases o <;> first | trivial | exact final_of_grows h ho | exact h ho

theorem OnlyExecuted.grow (hs : OnlyExecuted genesisHash s) (hgrows : Grows s s')
    (hforkchoice : s'.forkchoice = s.forkchoice) (hcached : s'.cached = s.cached)
    (hqueue : s'.batchQueue = s.batchQueue) (hspawned : s'.spawned = s.spawned)
    (htracker : s'.tracker = s.tracker) (hconfirmations : s'.confirmations = s.confirmations) :
    OnlyExecuted genesisHash s' where
  forkchoice := hforkchoice ▸ final_of_grows hgrows hs.forkchoice
  cached := hcached ▸ final_of_grows hgrows hs.cached
  batchQueue b hb := hgrows (hs.batchQueue b (hqueue ▸ hb))
  spawned x hx := hgrows (hs.spawned x (hspawned ▸ hx))
  tracker e he := hgrows (hs.tracker e (htracker ▸ he))
  confirmations c hc := hgrows (hs.confirmations c (hconfirmations ▸ hc))

theorem OnlyExecuted.track (hs : OnlyExecuted genesisHash s) {submission : BlobSubmission}
    (h : submission.blockHash ∈ s.executed) :
    OnlyExecuted genesisHash { s with tracker := s.tracker.track submission } := by
  refine { hs with tracker := ?_ }
  rintro ⟨k, pending⟩ he
  have hlookup := mem_entries_iff.mp he
  rw [FinalityTracker.lookup_track] at hlookup
  split at hlookup
  · rename_i hk
    exact hk ▸ h
  · exact hs.tracker _ (mem_entries_iff.mpr hlookup)

theorem OnlyExecuted.onCelestiaFinality (hs : OnlyExecuted genesisHash s)
    {visit : List PendingEntry} {celestiaHeight : UInt64} {headerHash : B256}
    (hvisit : (visit : Multiset PendingEntry) = s.tracker.pending.entries) :
    OnlyExecuted genesisHash
        { s with tracker := (s.tracker.onCelestiaFinality visit celestiaHeight headerHash).1 } ∧
      ∀ confirmation ∈ (s.tracker.onCelestiaFinality visit celestiaHeight headerHash).2,
        confirmation.blockHash ∈ s.executed := by
  refine ⟨{ hs with tracker := ?_ }, ?_⟩
  · intro e he
    exact hs.tracker e (mem_entries_retain.mp he).1
  · intro c hc
    obtain ⟨e, he, -, rfl⟩ := FinalityTracker.mem_confirmations.mp hc
    apply hs.tracker e
    rw [← hvisit]
    exact Multiset.mem_coe.mpr he

theorem onlyExecuted_of_nodeSem (hs : OnlyExecuted genesisHash s)
    (ho : Requires genesisHash s o) (hsem : nodeSem o s ans s') :
    OnlyExecuted genesisHash s' ∧ Grows s s' ∧ Allowed genesisHash o s ans := by
  have hsame : s' = s → OnlyExecuted genesisHash s' ∧ Grows s s' := by
    rintro rfl
    exact ⟨hs, Finset.Subset.refl _⟩
  have hrefl : Grows s s := Finset.Subset.refl _
  cases o
  case writeCached state =>
      cases hsem
      exact ⟨{ hs with cached := ho }, hrefl, trivial⟩
  case writeForkchoice state =>
      cases hsem
      exact ⟨{ hs with forkchoice := ho }, hrefl, trivial⟩
  case insertExecuted blockHash =>
      cases hsem
      have hgrows : Grows s { s with executed := insert blockHash s.executed } :=
        Finset.subset_insert _ _
      exact ⟨hs.grow hgrows rfl rfl rfl rfl rfl rfl, hgrows, trivial⟩
  case queueBlock block =>
      obtain ⟨-, rfl⟩ | ⟨-, rfl⟩ := hsem
      · refine ⟨{ hs with batchQueue := ?_ }, hrefl, trivial⟩
        exact List.forall_mem_append.mpr ⟨hs.batchQueue, List.forall_mem_singleton.mpr ho⟩
      · exact ⟨hs, hrefl, trivial⟩
  case spawnTrack submission =>
      cases hsem
      refine ⟨{ hs with spawned := ?_ }, hrefl, trivial⟩
      exact List.forall_mem_append.mpr ⟨hs.spawned, List.forall_mem_singleton.mpr ho⟩
  case track submission =>
      cases hsem
      exact ⟨hs.track ho, hrefl, trivial⟩
  case onCelestiaFinality celestiaHeight headerHash =>
      obtain ⟨visit, hvisit, rfl, rfl⟩ := hsem
      obtain ⟨hinv, hconfirmed⟩ := hs.onCelestiaFinality hvisit
      exact ⟨hinv, hrefl, hconfirmed⟩
  case sendConfirmation confirmation =>
      obtain ⟨-, rfl⟩ | ⟨-, rfl⟩ := hsem
      · refine ⟨{ hs with confirmations := ?_ }, hrefl, ho⟩
        exact List.forall_mem_append.mpr ⟨hs.confirmations, List.forall_mem_singleton.mpr ho⟩
      · exact ⟨hs, hrefl, ho⟩
  case containsExecuted blockHash =>
      have hmem : blockHash ∈ s.executed := ho
      obtain ⟨rfl, rfl⟩ := hsem
      exact ⟨hs, hrefl, decide_eq_true hmem⟩
  case forkchoiceUpdated state attributes =>
      cases hsem
      exact ⟨hs, hrefl, ho⟩
  case readIndexFile =>
      obtain ⟨hinv, hgrows⟩ := hsame hsem.1
      exact ⟨hinv, hgrows, trivial⟩
  -- nothing waits for finality in the file or the flags
  case openIndexFile =>
      obtain ⟨-, rfl⟩ | ⟨-, rfl⟩ := hsem <;>
        exact ⟨hs.grow hrefl rfl rfl rfl rfl rfl rfl, hrefl, trivial⟩
  case appendIndexFile line =>
      obtain ⟨-, rfl⟩ | ⟨e, written, -, -, rfl⟩ := hsem <;>
        exact ⟨hs.grow hrefl rfl rfl rfl rfl rfl rfl, hrefl, trivial⟩
  case spawnBatchTask =>
      cases hsem
      exact ⟨hs.grow hrefl rfl rfl rfl rfl rfl rfl, hrefl, trivial⟩
  case spawnRuntime =>
      cases hsem
      exact ⟨hs.grow hrefl rfl rfl rfl rfl rfl rfl, hrefl, trivial⟩
  all_goals
    have hstate : s' = s := by first | exact hsem | exact hsem.2
    obtain ⟨hinv, hgrows⟩ := hsame hstate
    exact ⟨hinv, hgrows, trivial⟩

end Operations

section Programs

variable {α β : Type} {Q : α → NodeState → Prop} {s : NodeState}

abbrev SafeNode (genesisHash : B256) (Q : α → NodeState → Prop) (p : NodeProg α)
    (s : NodeState) : Prop :=
  Safe nodeSem (OnlyExecuted genesisHash) Grows Grows (Allowed genesisHash) Q p s

theorem safe_of_requires {p : NodeProg α} (hp : p.Performs (Requires genesisHash s)) :
    SafeNode genesisHash (fun _ s' => Grows s s') p s := by
  refine safe_of_performs (J := Grows s) (fun _ _ h h' => h.trans h') ?_ hp
    (Finset.Subset.refl _)
  intro o ho s₁ ans s₂ hinv hgrows hsem
  have hstep := onlyExecuted_of_nodeSem hinv (requires_of_grows hgrows ho) hsem
  exact ⟨hstep, hgrows.trans hstep.2.1⟩

theorem safe_perform_bind {o : NodeOp} {f : Ans o → NodeProg α}
    (ho : Requires genesisHash s o)
    (hf : ∀ s₁ ans s₂, Grows s s₁ → OnlyExecuted genesisHash s₁ → nodeSem o s₁ ans s₂ →
      Allowed genesisHash o s₁ ans → Grows s₁ s₂ → SafeNode genesisHash Q (f ans) s₂) :
    SafeNode genesisHash Q (op o >>= f) s := by
  intro s₁ hgrows hinv ans s₂ hsem
  have hstep := onlyExecuted_of_nodeSem hinv (requires_of_grows hgrows ho) hsem
  exact ⟨hstep, hf s₁ ans s₂ hgrows hinv hsem hstep.2.2 hstep.2.1⟩

theorem safe_performs_bind {p : NodeProg β} {f : β → NodeProg α}
    (hp : p.Performs (Requires genesisHash s))
    (hf : ∀ b s', Grows s s' → SafeNode genesisHash Q (f b) s') :
    SafeNode genesisHash Q (p >>= f) s :=
  safe_bind (safe_of_requires hp) hf

theorem SafeNode.ignore {p : NodeProg α} (hp : SafeNode genesisHash Q p s) :
    SafeNode genesisHash (fun _ _ => True) p s :=
  hp.mono fun _ _ _ => trivial

end Programs

section Execution

variable {s : NodeState} {state : ForkchoiceState} {hash : B256}

theorem requires_updateForkchoice (h : state.finalized ∈ final genesisHash s) :
    (updateForkchoice state).Performs (Requires genesisHash s) :=
  performs_updateForkchoice h h

theorem requires_executeBlock (block : Block) :
    (executeBlock block).Performs (Requires genesisHash s) :=
  performs_executeBlock (fun _ => trivial) fun _ _ => trivial

theorem safe_readForkchoice {α : Type} {f : ForkchoiceState → NodeProg α}
    (hf : ∀ current s', current.finalized ∈ final genesisHash s' →
      (f current).Performs (Requires genesisHash s')) :
    SafeNode genesisHash (fun _ _ => True) (op .readForkchoice >>= f) s := by
  refine safe_perform_bind trivial fun s₁ current s₂ _ hinv hsem _ _ => ?_
  obtain ⟨rfl, rfl⟩ := hsem
  exact (safe_of_requires (hf _ _ hinv.forkchoice)).ignore

theorem safe_readCached {α : Type} {f : ForkchoiceState → NodeProg α}
    (hf : ∀ cached s', cached.finalized ∈ final genesisHash s' →
      (f cached).Performs (Requires genesisHash s')) :
    SafeNode genesisHash (fun _ _ => True) (op .readCached >>= f) s := by
  refine safe_perform_bind trivial fun s₁ cached s₂ _ hinv hsem _ _ => ?_
  obtain ⟨rfl, rfl⟩ := hsem
  exact (safe_of_requires (hf _ _ hinv.cached)).ignore

theorem requires_softUpdate {context : String} (h : state.finalized ∈ final genesisHash s) :
    (do
      match Report.wrapErr ExecutionError.display context
        (← updateForkchoice (state.withSoft hash)) with
      | .error e => return .error e
      | .ok () => do
          let _ ← op (.writeForkchoice (state.withSoft hash))
          return .ok () : NodeProg (Except Report Unit)).Performs (Requires genesisHash s) := by
  have hupdate : (updateForkchoice (state.withSoft hash)).Performs (Requires genesisHash s) :=
    requires_updateForkchoice h
  have hwrite : Requires genesisHash s (.writeForkchoice (state.withSoft hash)) := h
  refine hupdate.bind fun response => ?_
  split
  · exact Prog.performs_pure _
  · exact (Prog.performs_perform hwrite).bind fun _ => Prog.performs_pure _

theorem safe_executeAndUpdateForkchoice (block : Block) (blockHash : B256) :
    SafeNode genesisHash (fun _ _ => True) (executeAndUpdateForkchoice block blockHash) s := by
  refine safe_performs_bind (requires_executeBlock block) fun result s' _ => ?_
  split
  · exact trivial
  · split
    · exact trivial
    · exact safe_readForkchoice fun current s'' h => requires_softUpdate h

theorem safe_executeSyncBlock (block : Block) (blockHash : B256) (blockHeight : UInt64) :
    SafeNode genesisHash (fun _ _ => True) (executeSyncBlock block blockHash blockHeight) s := by
  refine safe_performs_bind (requires_executeBlock block) fun result s' _ => ?_
  split
  · exact trivial
  · split
    · exact trivial
    · exact safe_readForkchoice fun current s'' h => requires_softUpdate h

theorem requires_handleFinalityConfirmation {confirmation : FinalityConfirmation}
    (h : confirmation.blockHash ∈ s.executed) :
    (handleFinalityConfirmation confirmation).Performs (Requires genesisHash s) := by
  have hfirm : ∀ current : ForkchoiceState,
      (current.withFirm confirmation.blockHash).finalized ∈ final genesisHash s :=
    fun _ => Finset.mem_insert_of_mem h
  have hverify : (verifyBlockExecuted confirmation).Performs (Requires genesisHash s) :=
    Prog.performs_perform h
  refine hverify.bind fun executed => ?_
  split
  · exact Prog.performs_pure _
  · refine (Prog.performs_perform trivial).bind fun current => ?_
    refine (requires_updateForkchoice (hfirm current)).bind fun response => ?_
    split
    · exact Prog.performs_pure _
    · exact Prog.performs_perform (hfirm current)

end Execution

section Submission

variable {s : NodeState} {celestia : CelestiaClient}

theorem returns_submitBlocks (blocks : List Block) :
    (submitBlocks celestia blocks).Returns fun r => ∀ submissions, r = .ok submissions →
      ∀ submission ∈ submissions, ∃ block ∈ blocks, submission.blockHash = block.blockHash := by
  unfold submitBlocks
  split
  · rintro _ ⟨rfl⟩
    simp
  · split
    · rintro _ ⟨⟩
    · rename_i blobs blockInfos hcreate
      obtain ⟨-, rfl⟩ := createBlobsForBlocks_eq_ok hcreate
      refine (Prog.returns_true _).bind fun result _ => ?_
      split
      · rintro _ ⟨⟩
      · rintro _ ⟨rfl⟩ submission hsubmission
        obtain ⟨info, hinfo, hhash⟩ := exists_info_of_mem_buildSubmissions hsubmission
        obtain ⟨block, hblock, rfl⟩ := List.mem_map.mp hinfo
        exact ⟨block, hblock, hhash⟩

theorem requires_logBatchSuccess {submissions : List BlobSubmission}
    (h : ∀ submission ∈ submissions, submission.blockHash ∈ s.executed) :
    (logBatchSuccess submissions).Performs (Requires genesisHash s) := by
  induction submissions with
  | nil => exact Prog.performs_pure _
  | cons submission submissions ih =>
      rw [List.forall_mem_cons] at h
      have htrack : (trackFinality submission).Performs (Requires genesisHash s) :=
        Prog.performs_perform h.1
      exact htrack.bind fun _ => ih h.2

theorem requires_submitBatch {state : BatchState}
    (h : ∀ block ∈ state.pendingBlocks, block.blockHash ∈ s.executed) :
    (submitBatch celestia state).Performs (Requires genesisHash s) := by
  unfold submitBatch
  simp only
  split
  · exact Prog.performs_pure _
  · refine (performs_submitBlocks (fun _ => trivial) (fun _ => trivial) _).bind_of_returns
      (returns_submitBlocks _) ?_
    intro result hresult
    split
    · rename_i submissions
      refine (requires_logBatchSuccess ?_).bind fun _ => Prog.performs_pure _
      intro submission hsubmission
      obtain ⟨block, hblock, hhash⟩ := hresult submissions rfl submission hsubmission
      rw [hhash]
      exact h block hblock
    · exact Prog.performs_pure _

/-- A failed batch is restored; nothing else is pending after a submission. -/
theorem returns_submitBatch (state : BatchState) :
    (submitBatch celestia state).Returns
      fun r => r.2.pendingBlocks ⊆ state.pendingBlocks := by
  unfold submitBatch
  simp only
  split
  · exact List.nil_subset _
  · refine (Prog.returns_true _).bind fun result _ => ?_
    split
    · exact (Prog.returns_true _).bind fun _ _ => List.nil_subset _
    · exact List.Subset.refl _

theorem requires_submitToCelestia {ctx : FinalizationContext} {block : Block}
    (h : block.blockHash ∈ s.executed) :
    (submitToCelestia ctx block).Performs (Requires genesisHash s) := by
  refine performs_submitToCelestia h (fun _ => trivial) (fun _ => trivial) ?_
  intro submission hhash
  show submission.blockHash ∈ s.executed
  rwa [hhash]

theorem requires_broadcastConfirmations {confirmations : List FinalityConfirmation}
    (h : ∀ confirmation ∈ confirmations, confirmation.blockHash ∈ s.executed) :
    (broadcastConfirmations confirmations).Performs (Requires genesisHash s) := by
  induction confirmations with
  | nil => exact Prog.performs_pure _
  | cons confirmation confirmations ih =>
      rw [List.forall_mem_cons] at h
      have hsend : Requires genesisHash s (.sendConfirmation confirmation) := h.1
      exact (Prog.performs_perform hsend).bind fun _ => ih h.2

def PendingExecuted (loop : BatchLoop) (s : NodeState) : Prop :=
  ∀ block ∈ loop.state.pendingBlocks, block.blockHash ∈ s.executed

theorem safe_submitBatch {state : BatchState}
    (h : ∀ block ∈ state.pendingBlocks, block.blockHash ∈ s.executed) :
    SafeNode genesisHash (fun r s' => ∀ block ∈ r.2.pendingBlocks, block.blockHash ∈ s'.executed)
      (submitBatch celestia state) s := by
  refine ((safe_of_requires (requires_submitBatch h)).returns (returns_submitBatch state)).mono ?_
  rintro r s' ⟨hgrows, hsubset⟩ block hblock
  exact hgrows (h block (hsubset hblock))

theorem safe_batchIteration {loop : BatchLoop} {event : BatchEvent} (maxBatchSizeBytes : Nat)
    (h : ∀ block ∈ loop.state.pendingBlocks ++ (receivedOf event).toList,
      block.blockHash ∈ s.executed) :
    SafeNode genesisHash PendingExecuted
      (batchIteration celestia maxBatchSizeBytes loop event) s := by
  have hpending := congrArg BatchState.pendingBlocks
    (waitForBatchEvent_state event loop.state maxBatchSizeBytes)
  simp only at hpending
  rw [← hpending] at h
  unfold batchIteration
  generalize waitForBatchEvent event loop.state maxBatchSizeBytes = waited at h
  obtain ⟨action, state⟩ := waited
  cases action with
  | «continue» => exact h
  | submit =>
      refine safe_bind (safe_submitBatch h) ?_
      rintro ⟨succeeded, state'⟩ s' h'
      cases succeeded <;> exact h'
  | shutdown =>
      refine safe_bind (safe_submitBatch h) ?_
      rintro ⟨succeeded, state'⟩ s' h'
      exact h'

theorem safe_processFinalizedBlock (ctx : FinalizationContext) (block : Block)
    (isLeader : Bool) :
    SafeNode genesisHash (fun _ _ => True) (processFinalizedBlock ctx block isLeader) s := by
  refine safe_bind (safe_executeAndUpdateForkchoice block _) fun result s' _ => ?_
  split
  · exact trivial
  · refine safe_perform_bind trivial fun s₁ _ s₂ _ _ hsem _ _ => ?_
    cases hsem
    have hexecuted : block.blockHash ∈ insert block.blockHash s₁.executed :=
      Finset.mem_insert_self _ _
    split
    · exact (safe_of_requires (requires_submitToCelestia hexecuted)).ignore
    · exact trivial

theorem safe_processHeader (celestiaHeight : UInt64) (headerHash : B256) :
    SafeNode genesisHash (fun _ _ => True) (processHeader celestiaHeight headerHash) s := by
  refine safe_perform_bind trivial ?_
  intro s₁ (confirmations : List FinalityConfirmation) s₂ _ _ _ hallowed hgrows
  refine (safe_of_requires (requires_broadcastConfirmations ?_)).ignore
  exact fun confirmation hmem => hgrows (hallowed confirmation hmem)

end Submission

section Actor

variable {s : NodeState} {self : Application} {payload : BuiltPayload}
  {sha256 : List UInt8 → AppDigest}

theorem requires_callNewPayload :
    (callNewPayload payload).Performs (Requires genesisHash s) :=
  performs_callNewPayload (fun _ => trivial) fun _ _ => trivial

theorem safe_applyToReth (payload : Option BuiltPayload) :
    SafeNode genesisHash (fun _ _ => True) (applyToReth payload) s := by
  cases payload with
  | none => exact trivial
  | some payload =>
      refine safe_bind (Q := fun _ _ => True) ?_ fun _ _ _ => trivial
      refine safe_performs_bind requires_callNewPayload fun response s' _ => ?_
      cases response with
      | error e => exact trivial
      | ok _ => exact safe_readCached fun cached s'' h => requires_updateForkchoice h

theorem safe_buildViaReth (timestamp : UInt64) :
    SafeNode genesisHash (fun _ _ => True) (self.buildViaReth timestamp) s := by
  refine safe_bind (Q := fun _ _ => True) ?_ fun response s' _ => ?_
  · refine safe_readCached fun cached s' h => ?_
    have hrequest : Requires genesisHash s' (.forkchoiceUpdated
        (buildForkchoiceState self.lastHash cached.finalized)
        (some (buildPayloadAttributes self.lastHash timestamp self.proposer))) := h
    refine (Prog.performs_perform hrequest).bind fun response => ?_
    split <;> exact Prog.performs_pure _
  · cases response with
    | error e => exact trivial
    | ok payloadId =>
        refine safe_performs_bind (performs_getPayload trivial trivial) fun response s'' _ => ?_
        cases response with
        | error e => exact trivial
        | ok payload => exact trivial

theorem safe_propose :
    SafeNode genesisHash (fun _ _ => True) (self.propose sha256) s := by
  rw [propose_eq]
  refine safe_performs_bind (performs_timeToBuild trivial trivial trivial) fun timestamp s₁ _ => ?_
  cases timestamp with
  | none => exact trivial
  | some timestamp =>
      refine safe_bind (safe_buildViaReth timestamp) fun payload s₂ _ => ?_
      cases payload with
      | none => exact trivial
      | some payload => exact safe_perform_bind trivial fun _ _ _ _ _ _ _ _ => trivial

theorem safe_finalize (digest : AppDigest) :
    SafeNode genesisHash (fun _ _ => True) (self.finalize digest) s := by
  unfold Application.finalize
  split
  · exact trivial
  · simp only
    split
    · exact trivial
    · refine safe_bind (safe_applyToReth _) fun _ s' _ => ?_
      exact safe_perform_bind trivial fun _ _ _ _ _ _ _ _ => trivial

theorem safe_processMessage (message : Message) :
    SafeNode genesisHash (fun _ _ => True) (self.processMessage sha256 message) s := by
  cases message with
  | genesis epoch => exact safe_perform_bind trivial fun _ _ _ _ _ _ _ _ => trivial
  | propose =>
      refine safe_bind safe_propose fun r s' _ => ?_
      exact safe_perform_bind trivial fun _ _ _ _ _ _ _ _ => trivial
  | verify payload => exact safe_perform_bind trivial fun _ _ _ _ _ _ _ _ => trivial
  | broadcast payload => exact trivial
  | finalize digest => exact safe_bind (safe_finalize digest) fun _ _ _ => trivial
  | receiveBlock digest block payload =>
      simp only [Application.processMessage]
      unfold Application.handleReceiveBlock
      split
      · exact trivial
      · have himport : (importPayload payload).Performs (Requires genesisHash s) :=
          performs_importPayload (fun _ => trivial) fun _ _ => trivial
        exact safe_performs_bind himport fun _ _ _ => trivial

end Actor

section Startup

variable {s : NodeState} {celestia : CelestiaClient} {json : IndexJson}

theorem requires_getBlocks (celestiaHeight : UInt64) :
    (getBlocks celestia celestiaHeight).Performs (Requires genesisHash s) := by
  refine (Prog.performs_perform trivial).bind fun response => ?_
  split <;> exact Prog.performs_pure _

theorem requires_getBlocksAt (heights : List UInt64) :
    (getBlocksAt celestia heights).Performs (Requires genesisHash s) := by
  induction heights with
  | nil => exact Prog.performs_pure _
  | cons height heights ih =>
      refine (requires_getBlocks height).bind fun result => ?_
      split
      · exact Prog.performs_pure _
      · refine ih.bind fun rest => ?_
        split <;> exact Prog.performs_pure _

theorem requires_fetchBlocksFromCelestia (startHeight endHeight : UInt64) :
    (fetchBlocksFromCelestia celestia startHeight endHeight).Performs
      (Requires genesisHash s) := by
  refine Prog.Performs.bind ?_ fun result => ?_
  · unfold getBlocksInRange
    split
    · exact Prog.performs_pure _
    · exact requires_getBlocksAt _
  · split <;> exact Prog.performs_pure _

theorem requires_openIndex : (BlockIndex.openIndex json).Performs (Requires genesisHash s) := by
  have hreplay : (BlockIndex.new.replayIfExists json).Performs (Requires genesisHash s) := by
    refine (Prog.performs_perform trivial).bind fun found => ?_
    split
    · refine (Prog.performs_perform trivial).bind fun response => ?_
      split <;> exact Prog.performs_pure _
    · exact Prog.performs_pure _
  refine (Prog.performs_perform trivial).bind fun created => ?_
  split
  · exact Prog.performs_pure _
  · refine hreplay.bind fun index => ?_
    split
    · exact Prog.performs_pure _
    · refine (Prog.performs_perform trivial).bind fun opened => ?_
      split <;> exact Prog.performs_pure _

theorem requires_insert (index : BlockIndex) (entry : IndexEntry) :
    (index.insert json entry).Performs (Requires genesisHash s) := by
  unfold BlockIndex.insert
  split
  · exact Prog.performs_pure _
  · split
    · refine (Prog.performs_perform trivial).bind fun written => ?_
      split <;> exact Prog.performs_pure _
    · exact Prog.performs_pure _

theorem requires_checkParentContinuity (block : Block) (expectedParent : B256) :
    (checkParentContinuity block expectedParent).Performs (Requires genesisHash s) := by
  unfold checkParentContinuity
  split
  · exact Prog.performs_pure _
  · split
    · exact (Prog.performs_perform trivial).bind fun _ => Prog.performs_pure _
    · exact Prog.performs_pure _

theorem safe_syncSingleBlock (index : BlockIndex) (block : Block) (celestiaHeight : UInt64)
    (expectedParent : B256) :
    SafeNode genesisHash (fun _ _ => True)
      (syncSingleBlock json index block celestiaHeight expectedParent) s := by
  refine safe_performs_bind (requires_checkParentContinuity block _) fun _ s₁ _ => ?_
  refine safe_bind (safe_executeSyncBlock block _ _) fun result s₂ _ => ?_
  split
  · exact trivial
  · refine safe_perform_bind trivial fun _ _ s₃ _ _ _ _ _ => ?_
    refine safe_performs_bind (requires_insert index _) fun result s₄ _ => ?_
    split <;> exact trivial

theorem safe_syncBlocks (index : BlockIndex) (parentHash : B256) (lastSyncedHeight : UInt64)
    (blocks : List (UInt64 × Block)) :
    SafeNode genesisHash (fun _ _ => True)
      (syncBlocks json index parentHash lastSyncedHeight blocks) s := by
  induction blocks generalizing index parentHash lastSyncedHeight s with
  | nil => exact trivial
  | cons entry blocks ih =>
      obtain ⟨celestiaHeight, block⟩ := entry
      unfold syncBlocks
      split
      · exact ih _ _ _
      · refine safe_bind (safe_syncSingleBlock index block celestiaHeight parentHash) ?_
        intro result s' _
        split
        · exact trivial
        · exact ih _ _ _

theorem safe_syncFromCelestia (index : BlockIndex) (genesisDaHeight : UInt64) :
    SafeNode genesisHash (fun _ _ => True)
      (syncFromCelestia json celestia index genesisDaHeight) s := by
  refine safe_perform_bind trivial fun _ currentCelestiaHeight s₁ _ _ _ _ _ => ?_
  split
  · exact trivial
  · refine safe_performs_bind (requires_fetchBlocksFromCelestia _ _) fun blocks s₂ _ => ?_
    split
    · exact trivial
    · split
      · exact trivial
      · exact safe_perform_bind trivial fun _ current s₃ _ _ _ _ _ => safe_syncBlocks _ _ _ _

theorem safe_initFromCelestia (genesisDaHeight : UInt64) :
    SafeNode genesisHash (fun _ _ => True) (initFromCelestia json celestia genesisDaHeight) s := by
  unfold initFromCelestia
  split
  · exact trivial
  · refine safe_performs_bind requires_openIndex fun opened s₁ _ => ?_
    split
    · exact trivial
    · refine safe_bind (safe_syncFromCelestia _ _) fun result s₂ _ => ?_
      split <;> exact trivial

theorem safe_startMain [DecidableEq PublicKey] :
    SafeNode genesisHash (fun _ _ => True) (startMain node) s := by
  refine safe_bind (Q := fun _ _ => True) ?_ fun result s' _ => ?_
  · refine safe_perform_bind trivial fun _ forkchoice s₁ _ _ _ _ _ => ?_
    split
    · exact trivial
    · refine safe_bind (safe_initFromCelestia _) fun synced s₂ _ => ?_
      split
      · exact trivial
      · have hruntime : ∀ s₃ (r : Except Report (SimplexRuntimeConfig PublicKey)),
            SafeNode genesisHash (fun _ _ => True)
              (op .spawnRuntime >>= fun _ => Prog.pure r) s₃ :=
          fun s₃ r => safe_perform_bind trivial fun _ _ _ _ _ _ _ _ => trivial
        simp only
        split
        · exact safe_perform_bind trivial fun _ _ s₃ _ _ _ _ _ => hruntime s₃ _
        · exact hruntime s₂ _
  · split <;> exact trivial

end Startup

section Node

def Good : (t : NodeTask) → Local t → NodeState → Prop
  | .batch, loop, s => PendingExecuted loop s
  | _, _, _ => True

theorem good_of_grows {t : NodeTask} {l : Local t} {s s' : NodeState} (h : Good t l s)
    (hgrows : Grows s s') : Good t l s' := by
  cases t
  case batch => exact fun block hblock => hgrows (h block hblock)
  all_goals trivial

theorem executed_of_acceptBatch {loop : BatchLoop} {event : BatchEvent} {s s' : NodeState}
    (hinv : OnlyExecuted genesisHash s) (hloop : PendingExecuted loop s)
    (haccept : accept .batch loop s event s') :
    OnlyExecuted genesisHash s' ∧ Grows s s' ∧
      ∀ block ∈ loop.state.pendingBlocks ++ (receivedOf event).toList,
        block.blockHash ∈ s'.executed := by
  obtain ⟨-, -, htake⟩ := haccept
  cases event with
  | tick =>
      obtain rfl := htake
      refine ⟨hinv, Finset.Subset.refl _, ?_⟩
      rwa [receivedOf, Option.toList_none, List.append_nil]
  | received block =>
      cases block with
      | none =>
          obtain ⟨-, rfl⟩ := htake
          refine ⟨hinv, Finset.Subset.refl _, ?_⟩
          rwa [receivedOf, Option.toList_none, List.append_nil]
      | some block =>
          obtain ⟨rest, hqueue, rfl⟩ := htake
          have hbatch := hinv.batchQueue
          rw [hqueue, List.forall_mem_cons] at hbatch
          refine ⟨{ hinv with batchQueue := hbatch.2 }, Finset.Subset.refl _, ?_⟩
          rw [receivedOf, Option.toList_some, List.forall_mem_append]
          exact ⟨hloop, List.forall_mem_singleton.mpr hbatch.1⟩

theorem relyGuarantee : RelyGuarantee (system node) (OnlyExecuted genesisHash)
    (fun _ => Grows) (fun _ => Grows) (fun _ => Allowed genesisHash) Good where
  refl _ _ := Finset.Subset.refl _
  trans _ _ _ _ h₁ h₂ := h₁.trans h₂
  guarantee _ _ _ _ _ h := h
  good _ _ _ _ h hgrows := good_of_grows h hgrows
  accepted t l s x s' hinv hgood haccept := by
    cases t with
    | main =>
        cases x with
        | confirmation confirmation =>
            obtain ⟨-, rest, hqueue, rfl⟩ := haccept
            have hconfirmations := hinv.confirmations
            rw [hqueue, List.forall_mem_cons] at hconfirmations
            refine ⟨{ hinv with confirmations := hconfirmations.2 }, Finset.Subset.refl _, ?_⟩
            refine safe_performs_bind ?_ fun _ _ _ => trivial
            exact requires_handleFinalityConfirmation hconfirmations.1
        | ctrlC =>
            obtain ⟨-, rfl⟩ := haccept
            exact ⟨hinv, Finset.Subset.refl _, trivial⟩
    | application =>
        obtain ⟨-, rfl⟩ := haccept
        exact ⟨hinv, Finset.Subset.refl _, safe_processMessage x⟩
    | finalization =>
        obtain ⟨-, rfl⟩ := haccept
        exact ⟨hinv, Finset.Subset.refl _, safe_processFinalizedBlock _ x.1 x.2⟩
    | batch =>
        obtain ⟨hinv', hgrows, hblocks⟩ := executed_of_acceptBatch hinv hgood haccept
        have hsafe : SafeNode genesisHash PendingExecuted
            (batchIteration node.celestia node.config.maxBatchSizeBytes l x) s' :=
          safe_batchIteration _ hblocks
        exact ⟨hinv', hgrows, hsafe⟩
    | headers =>
        obtain rfl : s' = s := haccept
        exact ⟨hinv, Finset.Subset.refl _, safe_processHeader x.1 x.2⟩
    | tracking =>
        obtain ⟨hspawned, rfl⟩ := haccept
        refine ⟨{ hinv with spawned := ?_ }, Finset.Subset.refl _, ?_⟩
        · intro submission hsubmission
          exact hinv.spawned submission (List.mem_of_mem_erase hsubmission)
        · have htrack : (op (.track x)).Performs (Requires genesisHash s) :=
            Prog.performs_perform (hinv.spawned x hspawned)
          exact (safe_of_requires htrack).ignore

variable [DecidableEq PublicKey] {indexFile : Option (List Char)} {application : Application}
  {ts : List NodeTransition} {c : NodeConfig}

theorem onlyExecuted_initialized :
    OnlyExecuted genesisHash (NodeState.initialized genesisHash indexFile) where
  forkchoice := Finset.mem_insert_self _ _
  cached := Finset.mem_insert_self _ _
  batchQueue _ hblock := absurd hblock List.not_mem_nil
  spawned _ hsubmission := absurd hsubmission List.not_mem_nil
  tracker _ he := absurd he (Multiset.notMem_zero _)
  confirmations _ hconfirmation := absurd hconfirmation List.not_mem_nil

theorem safeConfig_initial :
    SafeConfig (system node) (OnlyExecuted genesisHash) (fun _ => Grows) (fun _ => Grows)
      (fun _ => Allowed genesisHash) Good (initial node genesisHash indexFile application) := by
  refine ⟨onlyExecuted_initialized, ?_⟩
  intro t
  cases t with
  | main => exact safe_startMain
  | application => trivial
  | finalization => trivial
  | batch => exact fun block hblock => absurd hblock List.not_mem_nil
  | headers => trivial
  | tracking => trivial

/-- Only executed blocks become final, in every run of a node. -/
theorem executed_of_final
    (hrun : Run (Step (system node)) (initial node genesisHash indexFile application) ts c) :
    OnlyExecuted genesisHash c.shared ∧
      (∀ loop, c.task .batch = .pure loop → PendingExecuted loop c.shared) ∧
      ∀ tr ∈ ts, ∀ t o ans, tr.label = .act t ⟨o, ans⟩ →
        Allowed genesisHash o tr.pre.shared ans := by
  obtain ⟨⟨hinv, hsafe⟩, hallowed⟩ :=
    relyGuarantee.run hrun safeConfig_initial
  refine ⟨hinv, ?_, hallowed⟩
  intro loop hidle
  have hbatch := hsafe .batch
  rw [hidle] at hbatch
  exact hbatch

end Node

section Example

def soleValidator : NodeParams UInt64 where
  sha256 := sha256
  keys := seedKeys
  json := IndexJson.compact
  celestia := { digestClient with newBlob := fun data _ => .ok ⟨data, []⟩ }
  config :=
    { consensus := consensusOf [1]
      genesisDaHeight := 0
      batchIntervalMs := 1
      maxBatchSizeBytes := 100 }
  inputs := soleInputs

def firstSubmission : BlobSubmission where
  blockHash := (chainBlock 1).blockHash
  blockHeight := 1
  celestiaHeight := 10
  commitment := []

def firstConfirmation : FinalityConfirmation where
  blockHash := (chainBlock 1).blockHash
  blockHeight := 1
  celestiaHeight := 10
  celestiaHeaderHash := FixedBytes.zero

def firstBlockBackend : Backend :=
  { genesisBackend with visits := fun _ => [⟨(chainBlock 1).blockHash, ⟨1, 10⟩⟩] }

/-- The first block is executed, submitted in a batch, tracked and finalized. -/
def firstBlockSchedule : List (Move Input) :=
  List.replicate 3 (.act .main) ++
    .start .finalization (chainBlock 1, true) :: List.replicate 7 (.act .finalization) ++
    .start .batch (.received (some (chainBlock 1))) :: List.replicate 2 (.act .batch) ++
    .start .tracking firstSubmission :: .act .tracking ::
    .start .headers ((10 : UInt64), (FixedBytes.zero : B256)) :: List.replicate 2 (.act .headers) ++
    .start .main (.confirmation firstConfirmation) :: List.replicate 5 (.act .main)

theorem executed_of_final_firstBlock :
    ∃ ts c, Run (Step (system soleValidator))
        (initial soleValidator FixedBytes.zero none (Application.new genesisConfig)) ts c ∧
      c.shared.forkchoice.finalized = (chainBlock 1).blockHash ∧
      OnlyExecuted FixedBytes.zero c.shared ∧
      (∀ loop, c.task .batch = .pure loop → PendingExecuted loop c.shared) ∧
      ∀ tr ∈ ts, ∀ t o ans, tr.label = .act t ⟨o, ans⟩ →
        Allowed FixedBytes.zero o tr.pre.shared ans := by
  obtain ⟨ts, c, hrun, hcheck⟩ := exists_run_of_play
    (step_of_playMove (environment_sound soleValidator firstBlockBackend))
    (initial soleValidator FixedBytes.zero none (Application.new genesisConfig))
    firstBlockSchedule
    (fun _ c => decide (c.shared.forkchoice.finalized = (chainBlock 1).blockHash))
    (by decide +kernel)
  exact ⟨ts, c, hrun, of_decide_eq_true hcheck, executed_of_final hrun⟩

end Example

end Rkb.Node.ExecutedFinality
