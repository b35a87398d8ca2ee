import Rkb.Library.Runs
import Rkb.Consensus.ActorRuns
import Rkb.Sequencer.Batch

namespace Rkb.Sequencer.BatchInvariant

open Rkb.Library.Program
open Rkb.Library.Runs
open Rkb.Types.Blocks
open Rkb.Execution.Errors
open Rkb.Celestia.Blobs
open Rkb.Celestia.Client
open Rkb.Consensus.ActorRuns
open Rkb.Sequencer.Batch
open Rkb.Node.Effects

/-- Blocks that Celestia included together, with the blobs created from them. -/
structure Batch (celestia : CelestiaClient) where
  blocks : List Block
  blobs : List Blob
  celestiaHeight : UInt64
  created : blocks.map celestia.createBlobForBlock = blobs.map Except.ok

variable {celestia : CelestiaClient}

namespace Batch

def submissions (batch : Batch celestia) : List BlobSubmission :=
  List.zipWith
    (fun block blob =>
      { blockHash := block.blockHash
        blockHeight := block.height
        celestiaHeight := batch.celestiaHeight
        commitment := blob.commitment })
    batch.blocks batch.blobs

end Batch

def includedOf : NodeEvent → Option (List Blob × UInt64)
  | ⟨.submitBlobs blobs, .ok celestiaHeight⟩ => some (blobs, celestiaHeight)
  | _ => none

def trackedOf : NodeOp → Option BlobSubmission
  | .spawnTrack submission => some submission
  | _ => none

def included (tr : List NodeEvent) : List (List Blob × UInt64) := tr.filterMap includedOf

def tracked (tr : List NodeEvent) : List BlobSubmission := tr.filterMap fun e => trackedOf e.1

/-- These batches were submitted and their blocks tracked, and nothing else. -/
def Accounts (tr : List NodeEvent) (batches : List (Batch celestia)) : Prop :=
  included tr = batches.map (fun batch => (batch.blobs, batch.celestiaHeight)) ∧
    tracked tr = batches.flatMap Batch.submissions

def blocksOf (batches : List (Batch celestia)) : List Block := batches.flatMap Batch.blocks

/-- The size is the estimate of the blocks that are pending. -/
def Sized (state : BatchState) : Prop :=
  state.pendingSize = (state.pendingBlocks.map estimateBlockSize).sum

abbrev BatchLabel : Type := BatchEvent × List NodeEvent

abbrev BatchTransition : Type := Transition BatchLoop BatchLabel

/-- An iteration of the loop, which has not exited. -/
def BatchStep (celestia : CelestiaClient) (maxBatchSizeBytes : Nat) (self : BatchLoop)
    (l : BatchLabel) (self' : BatchLoop) : Prop :=
  self.exited = false ∧
    (batchIteration celestia maxBatchSizeBytes self l.1).Exec anyAnswer () l.2 self' ()

def received (ts : List BatchTransition) : List Block :=
  ts.filterMap fun t => receivedOf t.label.1

def operations (ts : List BatchTransition) : List NodeEvent := ts.flatMap fun t => t.label.2

theorem accounts_nil : Accounts [] ([] : List (Batch celestia)) := ⟨rfl, rfl⟩

theorem Accounts.append {tr₁ tr₂ : List NodeEvent} {batches₁ batches₂ : List (Batch celestia)}
    (h₁ : Accounts tr₁ batches₁) (h₂ : Accounts tr₂ batches₂) :
    Accounts (tr₁ ++ tr₂) (batches₁ ++ batches₂) := by
  constructor
  · rw [included, List.filterMap_append, List.map_append]
    exact congrArg₂ (· ++ ·) h₁.1 h₂.1
  · rw [tracked, List.filterMap_append, List.flatMap_append]
    exact congrArg₂ (· ++ ·) h₁.2 h₂.2

theorem blocksOf_append (batches₁ batches₂ : List (Batch celestia)) :
    blocksOf (batches₁ ++ batches₂) = blocksOf batches₁ ++ blocksOf batches₂ :=
  List.flatMap_append

def SubmitOutcome (blobs : List Blob) (tr : List NodeEvent) :
    Except CelestiaError UInt64 → Prop
  | .ok celestiaHeight => included tr = [(blobs, celestiaHeight)] ∧ tracked tr = []
  | .error _ => included tr = [] ∧ tracked tr = []

theorem ensures_withRetryLoop (operationName : String) (baseDelayMs : UInt64)
    (blobs : List Blob) (attempts : UInt32) (remaining : Nat) :
    (withRetryLoop operationName baseDelayMs (submit blobs) attempts remaining).Ensures
      anyAnswer () fun tr r _ => SubmitOutcome blobs tr r := by
  induction remaining generalizing attempts with
  | zero =>
      refine Prog.ensures_op.mpr ?_
      rintro response ⟨⟩ -
      cases response with
      | error e => exact Prog.ensures_pure.mpr ⟨rfl, rfl⟩
      | ok celestiaHeight => exact Prog.ensures_pure.mpr ⟨rfl, rfl⟩
  | succ remaining ih =>
      refine Prog.ensures_op.mpr ?_
      rintro response ⟨⟩ -
      cases response with
      | ok celestiaHeight => exact Prog.ensures_pure.mpr ⟨rfl, rfl⟩
      | error e =>
          refine Prog.ensures_op.mpr ?_
          rintro _ ⟨⟩ -
          refine (ih (attempts + 1)).mono ?_
          rintro tr (e | celestiaHeight) s' h
          · exact h
          · exact h

theorem buildSubmissions_eq (batch : Batch celestia) :
    buildSubmissions batch.blobs
        (batch.blocks.map fun block => { hash := block.blockHash, height := block.height })
        batch.celestiaHeight = batch.submissions := by
  rw [buildSubmissions, Batch.submissions, List.zip_map_left, List.map_map, List.zip,
    List.map_zipWith]
  rfl

variable (celestia) in
def SubmitBlocksOutcome (blocks : List Block) (tr : List NodeEvent) :
    Except CelestiaError (List BlobSubmission) → Prop
  | .ok submissions => ∃ batch : Batch celestia, batch.blocks = blocks ∧
      submissions = batch.submissions ∧
      included tr = [(batch.blobs, batch.celestiaHeight)] ∧ tracked tr = []
  | .error _ => included tr = [] ∧ tracked tr = []

theorem ensures_submitBlocks {blocks : List Block} (hblocks : blocks ≠ []) :
    (submitBlocks celestia blocks).Ensures anyAnswer () fun tr r _ =>
      SubmitBlocksOutcome celestia blocks tr r := by
  have hnonempty : blocks.isEmpty = false := List.isEmpty_eq_false_iff.mpr hblocks
  rw [submitBlocks, hnonempty]
  cases hcreate : celestia.createBlobsForBlocks blocks with
  | error e => exact Prog.ensures_pure.mpr ⟨rfl, rfl⟩
  | ok r =>
      obtain ⟨blobs, infos⟩ := r
      obtain ⟨hcreated, rfl⟩ := createBlobsForBlocks_eq_ok hcreate
      refine Prog.ensures_bind.mpr ((ensures_withRetryLoop _ _ blobs 1 _).mono ?_)
      rintro tr (e | celestiaHeight) ⟨⟩ h
      · refine Prog.ensures_pure.mpr ?_
        rw [List.append_nil]
        exact h
      · refine Prog.ensures_pure.mpr ?_
        rw [List.append_nil]
        exact ⟨⟨blocks, blobs, celestiaHeight, hcreated⟩, rfl,
          buildSubmissions_eq ⟨blocks, blobs, celestiaHeight, hcreated⟩, h.1, h.2⟩

theorem ensures_logBatchSuccess (submissions : List BlobSubmission) :
    (logBatchSuccess submissions).Ensures anyAnswer () fun tr _ _ =>
      included tr = [] ∧ tracked tr = submissions := by
  induction submissions with
  | nil => exact Prog.ensures_pure.mpr ⟨rfl, rfl⟩
  | cons submission submissions ih =>
      refine Prog.ensures_op.mpr ?_
      rintro _ ⟨⟩ -
      refine ih.mono ?_
      rintro tr _ _ ⟨hincluded, htracked⟩
      exact ⟨hincluded, congrArg (submission :: ·) htracked⟩

variable (celestia) in
/-- The spec of one submission: the blocks pending before are in submitted batches
or pending again, in their order. -/
def Conserved (tr : List NodeEvent) (before after : BatchState) : Prop :=
  ∃ batches : List (Batch celestia), Accounts tr batches ∧
    before.pendingBlocks = blocksOf batches ++ after.pendingBlocks ∧ Sized after

theorem ensures_submitBatch (state : BatchState) :
    (submitBatch celestia state).Ensures anyAnswer () fun tr r _ =>
      Conserved celestia tr state r.2 := by
  by_cases hempty : state.pendingBlocks = []
  · have hisEmpty : state.pendingBlocks.isEmpty = true := List.isEmpty_iff.mpr hempty
    simp only [submitBatch, hisEmpty, if_true]
    exact Prog.ensures_pure.mpr ⟨[], accounts_nil, hempty, rfl⟩
  · have hisEmpty : state.pendingBlocks.isEmpty = false := List.isEmpty_eq_false_iff.mpr hempty
    simp only [submitBatch, hisEmpty, Bool.false_eq_true, if_false]
    refine Prog.ensures_bind.mpr ((ensures_submitBlocks hempty).mono ?_)
    rintro tr₁ (e | submissions) ⟨⟩ h
    · refine Prog.ensures_pure.mpr ⟨[], ?_, rfl, rfl⟩
      rw [List.append_nil]
      exact h
    · obtain ⟨batch, hblocks, rfl, hincluded, htracked⟩ := h
      refine Prog.ensures_bind.mpr ((ensures_logBatchSuccess batch.submissions).mono ?_)
      rintro tr₂ _ ⟨⟩ ⟨hincluded₂, htracked₂⟩
      refine Prog.ensures_pure.mpr ⟨[batch], ⟨?_, ?_⟩, ?_, rfl⟩
      · rw [List.append_nil, included, List.filterMap_append]
        exact (congrArg₂ (· ++ ·) hincluded hincluded₂).trans (List.append_nil _)
      · rw [List.append_nil, tracked, List.filterMap_append]
        exact (congrArg₂ (· ++ ·) htracked htracked₂).trans (List.append_nil _).symm
      · rw [← hblocks]
        simp [blocksOf]

theorem sized_wait {state : BatchState} (h : Sized state) (event : BatchEvent)
    (maxBatchSizeBytes : Nat) : Sized (waitForBatchEvent event state maxBatchSizeBytes).2 := by
  rw [waitForBatchEvent_state, Sized, List.map_append, List.sum_append]
  exact congrArg (· + _) h

theorem ensures_batchIteration (maxBatchSizeBytes : Nat) (self : BatchLoop) (event : BatchEvent)
    (hsized : Sized self.state) :
    (batchIteration celestia maxBatchSizeBytes self event).Ensures anyAnswer () fun tr self' _ =>
      ∃ batches : List (Batch celestia), Accounts tr batches ∧
        self.state.pendingBlocks ++ (receivedOf event).toList =
          blocksOf batches ++ self'.state.pendingBlocks ∧ Sized self'.state := by
  have hwait := waitForBatchEvent_state event self.state maxBatchSizeBytes
  have hsized' := sized_wait hsized event maxBatchSizeBytes
  have hpending := congrArg BatchState.pendingBlocks hwait
  simp only at hpending
  rw [batchIteration, ← hpending]
  cases haction : waitForBatchEvent event self.state maxBatchSizeBytes with
  | mk action state =>
      rw [haction] at hsized'
      cases action with
      | «continue» => exact Prog.ensures_pure.mpr ⟨[], accounts_nil, rfl, hsized'⟩
      | submit =>
          refine Prog.ensures_bind.mpr ((ensures_submitBatch state).mono ?_)
          rintro tr ⟨succeeded, state'⟩ ⟨⟩ ⟨batches, haccounts, hblocks, hsized''⟩
          cases succeeded with
          | true =>
              refine Prog.ensures_pure.mpr ⟨batches, ?_, hblocks, hsized''⟩
              rwa [List.append_nil]
          | false =>
              refine Prog.ensures_pure.mpr ⟨batches, ?_, hblocks, hsized''⟩
              rwa [List.append_nil]
      | shutdown =>
          refine Prog.ensures_bind.mpr ((ensures_submitBatch state).mono ?_)
          rintro tr ⟨succeeded, state'⟩ ⟨⟩ ⟨batches, haccounts, hblocks, hsized''⟩
          refine Prog.ensures_pure.mpr ⟨batches, ?_, hblocks, hsized''⟩
          rwa [List.append_nil]

variable {maxBatchSizeBytes : Nat} {self self' : BatchLoop} {ts : List BatchTransition}

theorem conserved_of_run (hrun : Run (BatchStep celestia maxBatchSizeBytes) self ts self')
    (hsized : Sized self.state) :
    ∃ batches : List (Batch celestia), Accounts (operations ts) batches ∧
      self.state.pendingBlocks ++ received ts = blocksOf batches ++ self'.state.pendingBlocks ∧
      Sized self'.state := by
  induction hrun with
  | nil self => exact ⟨[], accounts_nil, List.append_nil _, hsized⟩
  | @cons self self₁ self' l ts hstep _ ih =>
      obtain ⟨batches₁, haccounts₁, hblocks₁, hsized₁⟩ :=
        ensures_batchIteration maxBatchSizeBytes self l.1 hsized l.2 self₁ () hstep.2
      obtain ⟨batches₂, haccounts₂, hblocks₂, hsized₂⟩ := ih hsized₁
      refine ⟨batches₁ ++ batches₂, haccounts₁.append haccounts₂, ?_, hsized₂⟩
      have hreceived : received (⟨self, l, self₁⟩ :: ts) =
          (receivedOf l.1).toList ++ received ts := by
        rw [received, List.filterMap_cons]
        cases receivedOf l.1 <;> rfl
      calc self.state.pendingBlocks ++ received (⟨self, l, self₁⟩ :: ts)
          = self.state.pendingBlocks ++ (receivedOf l.1).toList ++ received ts := by
            rw [hreceived, List.append_assoc]
        _ = blocksOf batches₁ ++ (self₁.state.pendingBlocks ++ received ts) := by
            rw [hblocks₁, List.append_assoc]
        _ = blocksOf (batches₁ ++ batches₂) ++ self'.state.pendingBlocks := by
            rw [hblocks₂, blocksOf_append, List.append_assoc]

/-- At the start of every iteration the blocks received so far are those of the
batches submitted, in order, followed by the pending ones. -/
theorem received_eq_submitted_append_pending
    (hrun : Run (BatchStep celestia maxBatchSizeBytes) BatchLoop.new ts self) :
    ∃ batches : List (Batch celestia),
      included (operations ts) = batches.map (fun batch => (batch.blobs, batch.celestiaHeight)) ∧
      received ts = blocksOf batches ++ self.state.pendingBlocks ∧
      self.state.pendingSize = (self.state.pendingBlocks.map estimateBlockSize).sum ∧
      tracked (operations ts) = batches.flatMap Batch.submissions := by
  obtain ⟨batches, haccounts, hblocks, hsized⟩ := conserved_of_run hrun rfl
  exact ⟨batches, haccounts.1, hblocks, hsized, haccounts.2⟩

section Example

def submissionEnv (response : Except String UInt64) : Prog.Env NodeOp Ans Unit
  | .submitBlobs blobs, s => some ((response : Ans (.submitBlobs blobs)), s)
  | .sleep millis, s => some ((() : Ans (.sleep millis)), s)
  | .spawnTrack x, s => some ((() : Ans (.spawnTrack x)), s)
  | _, _ => none

def retrying : BatchLoop where
  state := { pendingBlocks := [chainBlock 1], pendingSize := 132 }
  consecutiveFailures := 1
  exited := false

theorem received_eq_submitted_append_pending_retried :
    ∃ ts self, Run (BatchStep digestClient 100) BatchLoop.new ts self ∧
      received ts = [chainBlock 1] ∧ self = BatchLoop.new ∧
      ∃ batches : List (Batch digestClient),
        included (operations ts) =
          batches.map (fun batch => (batch.blobs, batch.celestiaHeight)) ∧
        received ts = blocksOf batches ++ self.state.pendingBlocks ∧
        self.state.pendingSize = (self.state.pendingBlocks.map estimateBlockSize).sum ∧
        tracked (operations ts) = batches.flatMap Batch.submissions := by
  obtain ⟨tr₁, self₁, hfirst, hcheck₁⟩ := Prog.exists_exec_of_run
    (submissionEnv (.error "timeout"))
    (batchIteration digestClient 100 BatchLoop.new (.received (some (chainBlock 1))))
    (fun _ self => decide (self = retrying)) (by decide +kernel)
  obtain rfl := of_decide_eq_true hcheck₁
  obtain ⟨tr₂, self₂, hsecond, hcheck₂⟩ := Prog.exists_exec_of_run (submissionEnv (.ok 10))
    (batchIteration digestClient 100 retrying .tick)
    (fun _ self => decide (self = BatchLoop.new)) (by decide +kernel)
  obtain rfl := of_decide_eq_true hcheck₂
  have hstep₁ : BatchStep digestClient 100 BatchLoop.new
      (.received (some (chainBlock 1)), tr₁) retrying := ⟨rfl, hfirst⟩
  have hstep₂ : BatchStep digestClient 100 retrying (.tick, tr₂) BatchLoop.new := ⟨rfl, hsecond⟩
  have hrun := Run.cons hstep₁ (Run.cons hstep₂ (.nil _))
  exact ⟨_, _, hrun, rfl, rfl, received_eq_submitted_append_pending hrun⟩

end Example

end Rkb.Sequencer.BatchInvariant
