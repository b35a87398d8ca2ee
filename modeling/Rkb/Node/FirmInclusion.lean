import Rkb.Node.ExecutedFinality
import Rkb.Node.LoggedNode

namespace Rkb.Node.FirmInclusion

open Rkb.Library.Bytes
open Rkb.Library.Histories
open Rkb.Library.Maps
open Rkb.Library.Program
open Rkb.Library.Runs
open Rkb.Library.Tasks
open Rkb.Types.Blocks
open Rkb.Execution.Errors
open Rkb.Execution.Forkchoice
open Rkb.Execution.Payload
open Rkb.Execution.Client
open Rkb.Celestia.Blobs
open Rkb.Celestia.Finality
open Rkb.Celestia.Client
open Rkb.Celestia.Index
open Rkb.Consensus.Messages
open Rkb.Consensus.Actor
open Rkb.Consensus.ActorRuns
open Rkb.Consensus.ActorSteps
open Rkb.Sequencer.Batch
open Rkb.Sequencer.Finalization
open Rkb.Sequencer.Sync
open Rkb.Node.Effects
open Rkb.Node.LoggedNode (GuardedNode LoggedState NodeLog)
open Rkb.Node.Shared
open Rkb.Node.System

/-- Celestia has answered a submission with the height that includes it, and one of the
blobs submitted was the block's. -/
def Included (celestia : CelestiaClient) (log : NodeLog) (submission : BlobSubmission) : Prop :=
  ∃ t blobs block, (t, (⟨.submitBlobs blobs, (.ok submission.celestiaHeight :
      Except String UInt64)⟩ : NodeEvent)) ∈ log ∧
    block.blockHash = submission.blockHash ∧ block.height = submission.blockHeight ∧
      ∃ blob ∈ blobs, celestia.createBlobForBlock block = .ok blob ∧
        blob.commitment = submission.commitment

/-- A header at or above the height of an earlier inclusion has confirmed the block. -/
def Confirmed (celestia : CelestiaClient) (log : NodeLog)
    (confirmation : FinalityConfirmation) : Prop :=
  ∃ (before after : NodeLog) (t : NodeTask) (headerHeight : UInt64)
      (confirmations : List FinalityConfirmation),
    log = before ++ (t, (⟨.onCelestiaFinality headerHeight confirmation.celestiaHeaderHash,
      confirmations⟩ : NodeEvent)) :: after ∧
    confirmation ∈ confirmations ∧ confirmation.celestiaHeight ≤ headerHeight ∧
    ∃ commitment, Included celestia before
      ⟨confirmation.blockHash, confirmation.blockHeight, confirmation.celestiaHeight, commitment⟩

def Firm (genesisHash : B256) (celestia : CelestiaClient) (log : NodeLog) (hash : B256) : Prop :=
  hash = genesisHash ∨ ∃ confirmation, Confirmed celestia log confirmation ∧
    confirmation.blockHash = hash

/-- Everything that waits for finality is included, and both copies of the forkchoice
are finalized on a firm block. -/
structure FirmOnly (genesisHash : B256) (celestia : CelestiaClient) (s : LoggedState) : Prop where
  forkchoice : Firm genesisHash celestia s.2 s.1.forkchoice.finalized
  cached : Firm genesisHash celestia s.2 s.1.cached.finalized
  spawned : ∀ submission ∈ s.1.spawned, Included celestia s.2 submission
  tracker : ∀ e ∈ s.1.tracker.pending.entries, ∃ commitment,
    Included celestia s.2 ⟨e.1, e.2.blockHeight, e.2.celestiaHeight, commitment⟩
  confirmations : ∀ confirmation ∈ s.1.confirmations, Confirmed celestia s.2 confirmation

/-- What a task has to know before it performs an operation. -/
def Requires (genesisHash : B256) (celestia : CelestiaClient) (s : LoggedState) : NodeOp → Prop
  | .forkchoiceUpdated state _ => Firm genesisHash celestia s.2 state.finalizedBlockHash
  | .writeCached state => Firm genesisHash celestia s.2 state.finalized
  | .writeForkchoice state => Firm genesisHash celestia s.2 state.finalized
  | .spawnTrack submission => Included celestia s.2 submission
  | .track submission => Included celestia s.2 submission
  | .sendConfirmation confirmation => Confirmed celestia s.2 confirmation
  | _ => True

section Growth

variable {genesisHash : B256} {celestia : CelestiaClient} {log log' : NodeLog}
  {s s' : LoggedState} {o : NodeOp}

theorem Included.grow {submission : BlobSubmission} (h : Included celestia log submission)
    (hgrows : log <+: log') : Included celestia log' submission := by
  obtain ⟨t, blobs, block, hmem, hblob⟩ := h
  exact ⟨t, blobs, block, hgrows.subset hmem, hblob⟩

theorem Confirmed.grow {confirmation : FinalityConfirmation}
    (h : Confirmed celestia log confirmation) (hgrows : log <+: log') :
    Confirmed celestia log' confirmation := by
  obtain ⟨before, after, t, headerHeight, confirmations, rfl, hmem, hheight, hincluded⟩ := h
  obtain ⟨rest, rfl⟩ := hgrows
  refine ⟨before, after ++ rest, t, headerHeight, confirmations, ?_, hmem, hheight, hincluded⟩
  rw [List.append_assoc, List.cons_append]

theorem Firm.grow {hash : B256} (h : Firm genesisHash celestia log hash)
    (hgrows : log <+: log') : Firm genesisHash celestia log' hash := by
  rcases h with rfl | ⟨confirmation, hconfirmed, hhash⟩
  · exact .inl rfl
  · exact .inr ⟨confirmation, hconfirmed.grow hgrows, hhash⟩

theorem requires_of_grows (h : Grows s s') (ho : Requires genesisHash celestia s o) :
    Requires genesisHash celestia s' o := by
  cases o <;> first
    | trivial
    | exact Firm.grow ho h
    | exact Included.grow ho h
    | exact Confirmed.grow ho h

theorem FirmOnly.grow (hs : FirmOnly genesisHash celestia s) (hgrows : Grows s s')
    (hforkchoice : s'.1.forkchoice = s.1.forkchoice) (hcached : s'.1.cached = s.1.cached)
    (hspawned : s'.1.spawned = s.1.spawned) (htracker : s'.1.tracker = s.1.tracker)
    (hconfirmations : s'.1.confirmations = s.1.confirmations) :
    FirmOnly genesisHash celestia s' where
  forkchoice := hforkchoice ▸ hs.forkchoice.grow hgrows
  cached := hcached ▸ hs.cached.grow hgrows
  spawned x hx := (hs.spawned x (hspawned ▸ hx)).grow hgrows
  tracker e he := by
    obtain ⟨commitment, hincluded⟩ := hs.tracker e (htracker ▸ he)
    exact ⟨commitment, hincluded.grow hgrows⟩
  confirmations c hc := (hs.confirmations c (hconfirmations ▸ hc)).grow hgrows

end Growth

section Operations

variable {PublicKey : Type} {node : NodeParams PublicKey} {genesisHash : B256}
  {celestia : CelestiaClient} {s s' : LoggedState} {o : NodeOp} {ans : Ans o} {t : NodeTask}

theorem FirmOnly.track (hs : FirmOnly genesisHash celestia s) {submission : BlobSubmission}
    (h : Included celestia s.2 submission) :
    FirmOnly genesisHash celestia
      ({ s.1 with tracker := s.1.tracker.track submission }, s.2) := by
  refine { hs with tracker := ?_ }
  rintro ⟨k, pending⟩ he
  have hlookup := mem_entries_iff.mp he
  rw [FinalityTracker.lookup_track] at hlookup
  split at hlookup
  · rename_i hk
    cases hlookup
    rw [hk]
    exact ⟨submission.commitment, h⟩
  · exact hs.tracker _ (mem_entries_iff.mpr hlookup)

theorem confirmed_of_header (hs : FirmOnly genesisHash celestia s) {celestiaHeight : UInt64}
    {headerHash : B256} {confirmations : List FinalityConfirmation}
    (hsem : LoggedSem nodeSem t (.onCelestiaFinality celestiaHeight headerHash) s
      confirmations s') :
    ∀ confirmation ∈ confirmations, Confirmed celestia s'.2 confirmation := by
  obtain ⟨⟨visit, hvisit, hans, -⟩, hlog⟩ := hsem
  intro c hc
  have hmem : c ∈ (s.1.tracker.onCelestiaFinality visit celestiaHeight headerHash).2 := hans ▸ hc
  obtain ⟨e, he, hheight, rfl⟩ := FinalityTracker.mem_confirmations.mp hmem
  have hentry : e ∈ s.1.tracker.pending.entries := by
    rw [← hvisit]
    exact Multiset.mem_coe.mpr he
  exact ⟨s.2, [], t, celestiaHeight, confirmations, hlog, hc, hheight, hs.tracker e hentry⟩

theorem FirmOnly.onCelestiaFinality (hs : FirmOnly genesisHash celestia s)
    {visit : List PendingEntry} {celestiaHeight : UInt64} {headerHash : B256} :
    FirmOnly genesisHash celestia
      ({ s.1 with
        tracker := (s.1.tracker.onCelestiaFinality visit celestiaHeight headerHash).1 },
        s.2) :=
  { hs with tracker := fun e he => hs.tracker e (mem_entries_retain.mp he).1 }

theorem firmOnly_of_loggedSem (hs : FirmOnly genesisHash celestia s)
    (ho : Requires genesisHash celestia s o) (hsem : LoggedSem nodeSem t o s ans s') :
    FirmOnly genesisHash celestia s' := by
  have hgrows := grows_of_loggedSem hsem
  have hlater : FirmOnly genesisHash celestia (s.1, s'.2) :=
    FirmOnly.grow hs hgrows rfl rfl rfl rfl rfl
  have hrequires : Requires genesisHash celestia (s.1, s'.2) o := requires_of_grows hgrows ho
  obtain ⟨hsem, -⟩ := hsem
  obtain ⟨state', log'⟩ := s'
  simp only at hsem hlater hrequires
  have hsame : state' = s.1 → FirmOnly genesisHash celestia (state', log') := by
    rintro rfl
    exact hlater
  cases o
  case writeCached state =>
      cases hsem
      exact { hlater with cached := hrequires }
  case writeForkchoice state =>
      cases hsem
      exact { hlater with forkchoice := hrequires }
  case spawnTrack submission =>
      cases hsem
      refine { hlater with spawned := ?_ }
      exact List.forall_mem_append.mpr
        ⟨hlater.spawned, List.forall_mem_singleton.mpr hrequires⟩
  case track submission =>
      cases hsem
      exact hlater.track hrequires
  case onCelestiaFinality celestiaHeight headerHash =>
      obtain ⟨visit, -, -, rfl⟩ := hsem
      exact hlater.onCelestiaFinality
  case sendConfirmation confirmation =>
      obtain ⟨-, rfl⟩ | ⟨-, rfl⟩ := hsem
      · refine { hlater with confirmations := ?_ }
        exact List.forall_mem_append.mpr
          ⟨hlater.confirmations, List.forall_mem_singleton.mpr hrequires⟩
      · exact hlater
  case readIndexFile => exact hsame hsem.1
  -- nothing waits for finality in the queue, the file or the flags
  case insertExecuted blockHash =>
      cases hsem
      exact hlater.grow List.prefix_rfl rfl rfl rfl rfl rfl
  case queueBlock block =>
      obtain ⟨-, rfl⟩ | ⟨-, rfl⟩ := hsem <;>
        exact hlater.grow List.prefix_rfl rfl rfl rfl rfl rfl
  case openIndexFile =>
      obtain ⟨-, rfl⟩ | ⟨-, rfl⟩ := hsem <;>
        exact hlater.grow List.prefix_rfl rfl rfl rfl rfl rfl
  case appendIndexFile line =>
      obtain ⟨-, rfl⟩ | ⟨e, written, -, -, rfl⟩ := hsem <;>
        exact hlater.grow List.prefix_rfl rfl rfl rfl rfl rfl
  case spawnBatchTask =>
      cases hsem
      exact hlater.grow List.prefix_rfl rfl rfl rfl rfl rfl
  case spawnRuntime =>
      cases hsem
      exact hlater.grow List.prefix_rfl rfl rfl rfl rfl rfl
  all_goals
    have hstate : state' = s.1 := by first | exact hsem | exact hsem.2
    exact hsame hstate

end Operations

section Programs

variable {genesisHash : B256} {celestia : CelestiaClient} {t : NodeTask} {s : LoggedState}
  {α : Type} {Q : α → LoggedState → Prop}

abbrev SafeLog (genesisHash : B256) (celestia : CelestiaClient) (t : NodeTask)
    (Q : α → LoggedState → Prop) (p : NodeProg α) (s : LoggedState) : Prop :=
  SafeGuarded nodeSem (FirmOnly genesisHash celestia) (Requires genesisHash celestia) t Q p s

theorem guarded : GuardedNode (FirmOnly genesisHash celestia)
    (Requires genesisHash celestia) where
  grow := requires_of_grows
  step := firmOnly_of_loggedSem
  free {s o} ho := by
    cases o <;> trivial

end Programs

section Execution

variable {genesisHash : B256} {celestia : CelestiaClient} {t : NodeTask} {s : LoggedState}
  {state : ForkchoiceState} {hash : B256}

theorem requires_updateForkchoice (h : Firm genesisHash celestia s.2 state.finalized) :
    (updateForkchoice state).Performs (Requires genesisHash celestia s) :=
  performs_updateForkchoice h h

theorem requires_executeBlock (block : Block) :
    (executeBlock block).Performs (Requires genesisHash celestia s) :=
  performs_executeBlock (fun _ => trivial) fun _ _ => trivial

theorem safe_readForkchoice {α : Type} {f : ForkchoiceState → NodeProg α}
    (hf : ∀ current s', Firm genesisHash celestia s'.2 current.finalized →
      (f current).Performs (Requires genesisHash celestia s')) :
    SafeLog genesisHash celestia t (fun _ _ => True) (op .readForkchoice >>= f) s := by
  refine guarded.safe_perform_bind trivial fun s₁ current s₂ _ hinv hsem => ?_
  have hgrows := grows_of_loggedSem hsem
  obtain ⟨⟨rfl, -⟩, -⟩ := hsem
  exact guarded.safe (hf _ _ (hinv.forkchoice.grow hgrows))

theorem safe_readCached {α : Type} {f : ForkchoiceState → NodeProg α}
    (hf : ∀ cached s', Firm genesisHash celestia s'.2 cached.finalized →
      (f cached).Performs (Requires genesisHash celestia s')) :
    SafeLog genesisHash celestia t (fun _ _ => True) (op .readCached >>= f) s := by
  refine guarded.safe_perform_bind trivial fun s₁ cached s₂ _ hinv hsem => ?_
  have hgrows := grows_of_loggedSem hsem
  obtain ⟨⟨rfl, -⟩, -⟩ := hsem
  exact guarded.safe (hf _ _ (hinv.cached.grow hgrows))

theorem requires_softUpdate {context : String}
    (h : Firm genesisHash celestia s.2 state.finalized) :
    (do
      match Report.wrapErr ExecutionError.display context
        (← updateForkchoice (state.withSoft hash)) with
      | .error e => return .error e
      | .ok () => do
          let _ ← op (.writeForkchoice (state.withSoft hash))
          return .ok () : NodeProg (Except Report Unit)).Performs
        (Requires genesisHash celestia s) := by
  have hupdate : (updateForkchoice (state.withSoft hash)).Performs
      (Requires genesisHash celestia s) := requires_updateForkchoice h
  have hwrite : Requires genesisHash celestia s (.writeForkchoice (state.withSoft hash)) := h
  refine hupdate.bind fun response => ?_
  split
  · exact Prog.performs_pure _
  · exact (Prog.performs_perform hwrite).bind fun _ => Prog.performs_pure _

theorem safe_executeAndUpdateForkchoice (block : Block) (blockHash : B256) :
    SafeLog genesisHash celestia t (fun _ _ => True)
      (executeAndUpdateForkchoice block blockHash) s := by
  refine guarded.safe_performs_bind (requires_executeBlock block) fun result s' _ => ?_
  split
  · exact trivial
  · split
    · exact trivial
    · exact safe_readForkchoice fun current s'' h => requires_softUpdate h

theorem safe_executeSyncBlock (block : Block) (blockHash : B256) (blockHeight : UInt64) :
    SafeLog genesisHash celestia t (fun _ _ => True)
      (executeSyncBlock block blockHash blockHeight) s := by
  refine guarded.safe_performs_bind (requires_executeBlock block) fun result s' _ => ?_
  split
  · exact trivial
  · split
    · exact trivial
    · exact safe_readForkchoice fun current s'' h => requires_softUpdate h

theorem requires_handleFinalityConfirmation {confirmation : FinalityConfirmation}
    (h : Confirmed celestia s.2 confirmation) :
    (handleFinalityConfirmation confirmation).Performs (Requires genesisHash celestia s) := by
  have hfirm : ∀ current : ForkchoiceState, Firm genesisHash celestia s.2
      (current.withFirm confirmation.blockHash).finalized :=
    fun _ => .inr ⟨confirmation, h, rfl⟩
  have hverify : (verifyBlockExecuted confirmation).Performs
      (Requires genesisHash celestia s) := Prog.performs_perform trivial
  refine hverify.bind fun executed => ?_
  split
  · exact Prog.performs_pure _
  · refine (Prog.performs_perform trivial).bind fun current => ?_
    refine (requires_updateForkchoice (hfirm current)).bind fun response => ?_
    split
    · exact Prog.performs_pure _
    · exact Prog.performs_perform (hfirm current)

end Execution

section Submission

variable {genesisHash : B256} {celestia : CelestiaClient} {t : NodeTask} {s : LoggedState}

/-- Celestia has answered a submission of these blobs with this height. -/
def Submitted (log : NodeLog) (blobs : List Blob) (celestiaHeight : UInt64) : Prop :=
  ∃ t, (t, (⟨.submitBlobs blobs, (.ok celestiaHeight : Except String UInt64)⟩ : NodeEvent)) ∈ log

/-- A success of the retries is the success of their last attempt. -/
theorem safe_withRetryLoop {operationName : String} {baseDelayMs : UInt64} (blobs : List Blob)
    (attempts : UInt32) (remaining : Nat) :
    SafeLog genesisHash celestia t
      (fun r s' => ∀ celestiaHeight, r = .ok celestiaHeight → Submitted s'.2 blobs celestiaHeight)
      (withRetryLoop operationName baseDelayMs (submit blobs) attempts remaining) s := by
  have hanswer : ∀ {s₁ s₂ : LoggedState} {ans : Except String UInt64} {celestiaHeight : UInt64},
      LoggedSem nodeSem t (.submitBlobs blobs) s₁ ans s₂ → ans = .ok celestiaHeight →
        Submitted s₂.2 blobs celestiaHeight := by
    rintro s₁ s₂ ans celestiaHeight ⟨-, hlog⟩ rfl
    refine ⟨t, ?_⟩
    rw [hlog]
    exact List.mem_append_right _ (List.mem_singleton_self _)
  induction remaining generalizing attempts s with
  | zero =>
      refine guarded.safe_perform_bind trivial ?_
      intro s₁ (ans : Except String UInt64) s₂ _ _ hsem
      cases ans with
      | error e => rintro _ ⟨⟩
      | ok height =>
          rintro _ ⟨rfl⟩
          exact hanswer hsem rfl
  | succ remaining ih =>
      refine guarded.safe_perform_bind trivial ?_
      intro s₁ (ans : Except String UInt64) s₂ _ _ hsem
      cases ans with
      | error e => exact guarded.safe_perform_bind trivial fun _ _ s₃ _ _ _ => ih _
      | ok height =>
          rintro _ ⟨rfl⟩
          exact hanswer hsem rfl

theorem safe_submitBlocks (blocks : List Block) :
    SafeLog genesisHash celestia t
      (fun r s' => ∀ submissions, r = .ok submissions →
        ∀ submission ∈ submissions, Included celestia s'.2 submission)
      (submitBlocks celestia blocks) s := by
  unfold submitBlocks
  split
  · rintro _ ⟨rfl⟩
    simp
  · split
    · rintro _ ⟨⟩
    · rename_i blobs infos hcreate
      refine safe_bind (safe_withRetryLoop blobs 1 _) fun r s' hsubmitted => ?_
      cases r with
      | error e => rintro _ ⟨⟩
      | ok celestiaHeight =>
          rintro _ ⟨rfl⟩ submission hsubmission
          obtain ⟨task, hmem⟩ := hsubmitted celestiaHeight rfl
          obtain ⟨block, -, blob, hblob, hcreated, rfl⟩ :=
            exists_blob_of_mem_buildSubmissions hcreate hsubmission
          exact ⟨task, blobs, block, hmem, rfl, rfl, blob, hblob, hcreated, rfl⟩

theorem safe_submitBlock (block : Block) :
    SafeLog genesisHash celestia t
      (fun r s' => ∀ submission, r = .ok submission → Included celestia s'.2 submission)
      (submitBlock celestia block) s := by
  unfold submitBlock
  split
  · rintro _ ⟨⟩
  · rename_i blob hcreate
    have hretry : SafeLog genesisHash celestia t
        (fun r s' => ∀ height commitment, r = .ok (height, commitment) →
          Submitted s'.2 [blob] height ∧ commitment = blob.commitment)
        (submitWithRetry blob) s := by
      refine safe_bind (safe_withRetryLoop [blob] 1 _) fun r s' hsubmitted => ?_
      cases r with
      | error e => rintro _ _ ⟨⟩
      | ok height =>
          rintro _ _ ⟨⟩
          exact ⟨hsubmitted _ rfl, rfl⟩
    refine safe_bind hretry fun r s' hsubmitted => ?_
    cases r with
    | error e => rintro _ ⟨⟩
    | ok r =>
        rintro _ ⟨rfl⟩
        obtain ⟨⟨task, hmem⟩, hcommitment⟩ := hsubmitted r.1 r.2 rfl
        exact ⟨task, [blob], block, hmem, rfl, rfl, blob, List.mem_singleton_self _, hcreate,
          hcommitment.symm⟩

theorem requires_logBatchSuccess {submissions : List BlobSubmission}
    (h : ∀ submission ∈ submissions, Included celestia s.2 submission) :
    (logBatchSuccess submissions).Performs (Requires genesisHash celestia s) := by
  induction submissions with
  | nil => exact Prog.performs_pure _
  | cons submission submissions ih =>
      rw [List.forall_mem_cons] at h
      have htrack : (trackFinality submission).Performs (Requires genesisHash celestia s) :=
        Prog.performs_perform h.1
      exact htrack.bind fun _ => ih h.2

theorem safe_submitBatch (state : BatchState) :
    SafeLog genesisHash celestia t (fun _ _ => True) (submitBatch celestia state) s := by
  unfold submitBatch
  simp only
  split
  · exact trivial
  · refine safe_bind (safe_submitBlocks state.pendingBlocks) fun r s' hincluded => ?_
    cases r with
    | error e => exact trivial
    | ok submissions =>
        exact guarded.safe_performs_bind (requires_logBatchSuccess (hincluded submissions rfl))
          fun _ _ _ => trivial

theorem safe_batchIteration (maxBatchSizeBytes : Nat) (loop : BatchLoop) (event : BatchEvent) :
    SafeLog genesisHash celestia t (fun _ _ => True)
      (batchIteration celestia maxBatchSizeBytes loop event) s := by
  unfold batchIteration
  generalize waitForBatchEvent event loop.state maxBatchSizeBytes = waited
  obtain ⟨action, state⟩ := waited
  cases action with
  | «continue» => exact trivial
  | submit =>
      refine safe_bind (safe_submitBatch state) ?_
      rintro ⟨succeeded, state'⟩ s' _
      cases succeeded <;> exact trivial
  | shutdown => exact safe_bind (safe_submitBatch state) fun _ _ _ => trivial

theorem safe_submitToCelestia (ctx : FinalizationContext) (block : Block)
    (hctx : ctx.celestia = celestia) :
    SafeLog genesisHash celestia t (fun _ _ => True) (submitToCelestia ctx block) s := by
  unfold submitToCelestia queueForBatch submitImmediate
  rw [hctx]
  split
  · split
    · exact trivial
    · exact guarded.safe_perform_bind trivial fun _ _ _ _ _ _ => trivial
  · refine safe_bind (safe_submitBlock block) fun r s' hincluded => ?_
    cases r with
    | error e => exact trivial
    | ok submission =>
        have htrack : (trackFinality submission).Performs (Requires genesisHash celestia s') :=
          Prog.performs_perform (hincluded submission rfl)
        exact guarded.safe htrack

theorem safe_processFinalizedBlock (ctx : FinalizationContext) (block : Block) (isLeader : Bool)
    (hctx : ctx.celestia = celestia) :
    SafeLog genesisHash celestia t (fun _ _ => True)
      (processFinalizedBlock ctx block isLeader) s := by
  refine safe_bind (safe_executeAndUpdateForkchoice block _) fun result s' _ => ?_
  split
  · exact trivial
  · refine guarded.safe_perform_bind trivial fun s₁ _ s₂ _ _ _ => ?_
    split
    · exact safe_submitToCelestia ctx block hctx
    · exact trivial

theorem requires_broadcastConfirmations {confirmations : List FinalityConfirmation}
    (h : ∀ confirmation ∈ confirmations, Confirmed celestia s.2 confirmation) :
    (broadcastConfirmations confirmations).Performs (Requires genesisHash celestia s) := by
  induction confirmations with
  | nil => exact Prog.performs_pure _
  | cons confirmation confirmations ih =>
      rw [List.forall_mem_cons] at h
      have hsend : Requires genesisHash celestia s (.sendConfirmation confirmation) := h.1
      exact (Prog.performs_perform hsend).bind fun _ => ih h.2

theorem safe_processHeader (celestiaHeight : UInt64) (headerHash : B256) :
    SafeLog genesisHash celestia t (fun _ _ => True)
      (processHeader celestiaHeight headerHash) s := by
  refine guarded.safe_perform_bind trivial ?_
  intro s₁ (confirmations : List FinalityConfirmation) s₂ _ hinv hsem
  exact guarded.safe (requires_broadcastConfirmations (confirmed_of_header hinv hsem))

end Submission

section Actor

variable {genesisHash : B256} {celestia : CelestiaClient} {t : NodeTask} {s : LoggedState}
  {self : Application} {sha256 : List UInt8 → AppDigest}

theorem safe_applyToReth (payload : Option BuiltPayload) :
    SafeLog genesisHash celestia t (fun _ _ => True) (applyToReth payload) s := by
  cases payload with
  | none => exact trivial
  | some payload =>
      have hnewPayload : (callNewPayload payload).Performs (Requires genesisHash celestia s) :=
        performs_callNewPayload (fun _ => trivial) fun _ _ => trivial
      refine safe_bind (Q := fun _ _ => True) ?_ fun _ _ _ => trivial
      refine guarded.safe_performs_bind hnewPayload fun response s' _ => ?_
      cases response with
      | error e => exact trivial
      | ok _ => exact safe_readCached fun cached s'' h => requires_updateForkchoice h

theorem safe_buildViaReth (timestamp : UInt64) :
    SafeLog genesisHash celestia t (fun _ _ => True) (self.buildViaReth timestamp) s := by
  refine safe_bind (Q := fun _ _ => True) ?_ fun response s' _ => ?_
  · refine safe_readCached fun cached s' h => ?_
    have hrequest : Requires genesisHash celestia s' (.forkchoiceUpdated
        (buildForkchoiceState self.lastHash cached.finalized)
        (some (buildPayloadAttributes self.lastHash timestamp self.proposer))) := h
    refine (Prog.performs_perform hrequest).bind fun response => ?_
    split <;> exact Prog.performs_pure _
  · cases response with
    | error e => exact trivial
    | ok payloadId =>
        refine guarded.safe_performs_bind (performs_getPayload trivial trivial)
          fun response s'' _ => ?_
        cases response with
        | error e => exact trivial
        | ok payload => exact trivial

theorem safe_propose :
    SafeLog genesisHash celestia t (fun _ _ => True) (self.propose sha256) s := by
  rw [propose_eq]
  refine guarded.safe_performs_bind (performs_timeToBuild trivial trivial trivial)
    fun timestamp s₁ _ => ?_
  cases timestamp with
  | none => exact trivial
  | some timestamp =>
      refine safe_bind (safe_buildViaReth timestamp) fun payload s₂ _ => ?_
      cases payload with
      | none => exact trivial
      | some payload => exact guarded.safe_perform_bind trivial fun _ _ _ _ _ _ => trivial

end Actor

section Startup

variable {genesisHash : B256} {celestia : CelestiaClient} {t : NodeTask} {s : LoggedState}
  {json : IndexJson} {PublicKey : Type} {node : NodeParams PublicKey}

theorem safe_syncSingleBlock (index : BlockIndex) (block : Block) (celestiaHeight : UInt64)
    (expectedParent : B256) :
    SafeLog genesisHash celestia t (fun _ _ => True)
      (syncSingleBlock json index block celestiaHeight expectedParent) s := by
  refine guarded.safe_performs_bind (performs_checkParentContinuity fun _ => trivial) ?_
  intro _ s₁ _
  refine safe_bind (safe_executeSyncBlock block _ _) fun result s₂ _ => ?_
  split
  · exact trivial
  · refine guarded.safe_perform_bind trivial fun _ _ s₃ _ _ _ => ?_
    refine guarded.safe_performs_bind (performs_insert trivial) ?_
    intro result s₄ _
    split <;> exact trivial

end Startup

section Node

variable {PublicKey : Type} {node : NodeParams PublicKey} {genesisHash : B256}

theorem safe_of_accept (t : NodeTask) (l : Local t) (s : LoggedState) (x : Input t)
    (s' : LoggedState) (hinv : FirmOnly genesisHash node.celestia s)
    (haccept : (logged (system node)).accept t l s x s') :
    FirmOnly genesisHash node.celestia s' ∧
      SafeLog genesisHash node.celestia t (fun _ _ => True) (handler node t l x) s' := by
  obtain ⟨state', log'⟩ := s'
  obtain ⟨haccept, hlog⟩ := haccept
  simp only at haccept hlog
  subst hlog
  cases t with
  | main =>
      cases x with
      | confirmation confirmation =>
          obtain ⟨-, rest, hqueue, rfl⟩ := haccept
          have hconfirmations := hinv.confirmations
          rw [hqueue, List.forall_mem_cons] at hconfirmations
          refine ⟨{ hinv with confirmations := hconfirmations.2 }, ?_⟩
          refine guarded.safe_performs_bind ?_ fun _ _ _ => trivial
          exact requires_handleFinalityConfirmation hconfirmations.1
      | ctrlC =>
          obtain ⟨-, rfl⟩ := haccept
          exact ⟨hinv, trivial⟩
  | application =>
      obtain ⟨-, rfl⟩ := haccept
      exact ⟨hinv, guarded.safe_processMessage (fun _ => safe_propose)
        (fun payload _ => safe_applyToReth payload) x⟩
  | finalization =>
      obtain ⟨-, rfl⟩ := haccept
      exact ⟨hinv, safe_processFinalizedBlock _ x.1 x.2 rfl⟩
  | batch =>
      have hstate : FirmOnly genesisHash node.celestia (state', s.2) := by
        obtain ⟨-, -, htake⟩ := haccept
        cases x with
        | tick =>
            obtain rfl := htake
            exact hinv
        | received block =>
            cases block with
            | none =>
                obtain ⟨-, rfl⟩ := htake
                exact hinv
            | some block =>
                obtain ⟨rest, -, rfl⟩ := htake
                exact hinv.grow List.prefix_rfl rfl rfl rfl rfl rfl
      exact ⟨hstate, safe_batchIteration _ l x⟩
  | headers =>
      obtain rfl : state' = s.1 := haccept
      exact ⟨hinv, safe_processHeader x.1 x.2⟩
  | tracking =>
      obtain ⟨hspawned, rfl⟩ := haccept
      refine ⟨{ hinv with spawned := ?_ }, ?_⟩
      · intro submission hsubmission
        exact hinv.spawned submission (List.mem_of_mem_erase hsubmission)
      · have htrack : (op (.track x)).Performs (Requires genesisHash node.celestia s) :=
          Prog.performs_perform (hinv.spawned x hspawned)
        exact guarded.safe htrack

variable [DecidableEq PublicKey] {indexFile : Option (List Char)} {application : Application}
  {ts : List NodeTransition} {c : NodeConfig}

theorem firmOnly_of_run
    (hrun : Run (Step (system node)) (initial node genesisHash indexFile application) ts c) :
    FirmOnly genesisHash node.celestia (c.shared, events ts) ∧
      ∀ us tr vs, ts = us ++ tr :: vs → ∀ t o ans, tr.label = .act t ⟨o, ans⟩ →
        Requires genesisHash node.celestia (tr.pre.shared, events us) o := by
  have hstart : ∀ t, SafeLog genesisHash node.celestia t (fun _ _ => True)
      ((initial node genesisHash indexFile application).task t)
      (NodeState.initialized genesisHash indexFile, []) := by
    intro t
    cases t with
    | main => exact guarded.safe_startMain fun index block celestiaHeight expectedParent _ _ =>
        safe_syncSingleBlock index block celestiaHeight expectedParent
    | _ => trivial
  refine run_of_safeGuarded rfl safe_of_accept ⟨.inl rfl, .inl rfl, ?_, ?_, ?_⟩ hstart hrun
  · exact fun _ h => absurd h List.not_mem_nil
  · exact fun _ h => absurd h (Multiset.notMem_zero _)
  · exact fun _ h => absurd h List.not_mem_nil

/-- In every run of a node, the block that is final, and every block that reth is told to
finalize, is the genesis block or was confirmed before: Celestia had acknowledged its blob
at some height, and a header at or above that height was seen after that. The final block
was executed as well. -/
theorem firm_of_run
    (hrun : Run (Step (system node)) (initial node genesisHash indexFile application) ts c) :
    (c.shared.forkchoice.finalized = genesisHash ∨
      c.shared.forkchoice.finalized ∈ c.shared.executed ∧
        ∃ confirmation, Confirmed node.celestia (events ts) confirmation ∧
          confirmation.blockHash = c.shared.forkchoice.finalized) ∧
      ∀ before tr after, ts = before ++ tr :: after → ∀ t state attributes ans,
        tr.label = .act t ⟨.forkchoiceUpdated state attributes, ans⟩ →
          Firm genesisHash node.celestia (events before) state.finalizedBlockHash := by
  obtain ⟨hinv, hrequires⟩ := firmOnly_of_run hrun
  refine ⟨?_, ?_⟩
  · rcases Finset.mem_insert.mp (ExecutedFinality.executed_of_final hrun).1.forkchoice with
      hgenesis | hexecuted
    · exact .inl hgenesis
    · rcases hinv.forkchoice with hgenesis | hfirm
      · exact .inl hgenesis
      · exact .inr ⟨hexecuted, hfirm⟩
  · exact fun before tr after hts t state attributes ans hlabel =>
      hrequires before tr after hts t _ ans hlabel

end Node

section Example

open Rkb.Node.ExecutedFinality (soleValidator firstBlockBackend firstBlockSchedule)

theorem firm_of_run_firstBlock : ∃ ts c, Run (Step (system soleValidator))
    (initial soleValidator FixedBytes.zero none (Application.new genesisConfig)) ts c ∧
      ∃ confirmation, Confirmed soleValidator.celestia (events ts) confirmation ∧
        confirmation.blockHash = (chainBlock 1).blockHash := by
  obtain ⟨ts, c, hrun, hcheck⟩ := exists_run_of_play
    (step_of_playMove (environment_sound soleValidator firstBlockBackend))
    (initial soleValidator FixedBytes.zero none (Application.new genesisConfig))
    firstBlockSchedule
    (fun _ c => decide (c.shared.forkchoice.finalized =
      (chainBlock 1).blockHash)) (by decide +kernel)
  have hfinalized := of_decide_eq_true hcheck
  refine ⟨ts, c, hrun, ?_⟩
  rcases (firm_of_run hrun).1 with hgenesis | ⟨-, confirmation, hconfirmed, hhash⟩
  · rw [hfinalized] at hgenesis
    exact absurd hgenesis (by decide)
  · exact ⟨confirmation, hconfirmed, hhash.trans hfinalized⟩

end Example

end Rkb.Node.FirmInclusion
