import Rkb.Sequencer.BatchInvariant

namespace Rkb.Sequencer.BatchExit

open Rkb.Library.Program
open Rkb.Library.Runs
open Rkb.Types.Blocks
open Rkb.Celestia.Blobs
open Rkb.Celestia.Client
open Rkb.Consensus.ActorRuns
open Rkb.Sequencer.Batch
open Rkb.Sequencer.BatchInvariant
open Rkb.Node.Effects

def batchChannelCapacity : Nat := 1000

/-- `closed` tells whether every sender of the channel is gone. -/
structure BatchTask where
  loop : BatchLoop
  channel : List Block
  closed : Bool

def BatchTask.new : BatchTask := { loop := BatchLoop.new, channel := [], closed := false }

inductive TaskLabel
  | send (block : Block)
  | close
  | iteration (l : BatchLabel)

abbrev TaskTransition : Type := Transition BatchTask TaskLabel

/-- What the event of an iteration takes from the channel: `recv` returns the oldest
block, or `none` once the channel is closed and empty. -/
def Takes (s : BatchTask) : BatchEvent → List Block → Prop
  | .tick, channel => channel = s.channel
  | .received (some block), channel => s.channel = block :: channel
  | .received none, channel => s.channel = [] ∧ s.closed = true ∧ channel = []

inductive TaskStep (celestia : CelestiaClient) (maxBatchSizeBytes : Nat) :
    BatchTask → TaskLabel → BatchTask → Prop
  | send {s : BatchTask} {block : Block} :
      s.closed = false → s.loop.exited = false → s.channel.length < batchChannelCapacity →
      TaskStep celestia maxBatchSizeBytes s (.send block)
        { s with channel := s.channel ++ [block] }
  | close {s : BatchTask} :
      TaskStep celestia maxBatchSizeBytes s .close { s with closed := true }
  | iteration {s : BatchTask} {l : BatchLabel} {loop : BatchLoop} {channel : List Block} :
      Takes s l.1 channel → BatchStep celestia maxBatchSizeBytes s.loop l loop →
      TaskStep celestia maxBatchSizeBytes s (.iteration l)
        { s with loop := loop, channel := channel }

def iterationOf (t : TaskTransition) : Option BatchTransition :=
  match t.label with
  | .iteration l => some ⟨t.pre.loop, l, t.post.loop⟩
  | _ => none

def iterations (ts : List TaskTransition) : List BatchTransition := ts.filterMap iterationOf

/-- Every block received is in a batch that Celestia included, in order. -/
def AllSubmitted (celestia : CelestiaClient) (ts : List BatchTransition) : Prop :=
  ∃ batches : List (Batch celestia),
    included (operations ts) = batches.map (fun batch => (batch.blobs, batch.celestiaHeight)) ∧
    received ts = blocksOf batches

/-- The iteration finds the channel closed and empty, and has nothing to submit or
submits it with success. -/
def ShutsDown (t : TaskTransition) : Prop :=
  ∃ tr, t.label = .iteration (.received none, tr) ∧
    (t.pre.loop.state.pendingBlocks = [] ∨ included tr ≠ [])

variable {celestia : CelestiaClient} {maxBatchSizeBytes : Nat} {s s' : BatchTask}
  {ts : List TaskTransition}

theorem batchRun_of_run (hrun : Run (TaskStep celestia maxBatchSizeBytes) s ts s') :
    Run (BatchStep celestia maxBatchSizeBytes) s.loop (iterations ts) s'.loop := by
  induction hrun with
  | nil s => exact .nil s.loop
  | cons hstep _ ih =>
      cases hstep with
      | send _ _ _ => exact ih
      | close => exact ih
      | iteration _ hbatch => exact .cons hbatch ih

theorem included_append (tr₁ tr₂ : List NodeEvent) :
    included (tr₁ ++ tr₂) = included tr₁ ++ included tr₂ :=
  List.filterMap_append

theorem ensures_submitBatch_pending (state : BatchState) :
    (submitBatch celestia state).Ensures anyAnswer () fun tr r _ =>
      (r.2.pendingBlocks = [] ↔ state.pendingBlocks = [] ∨ included tr ≠ []) ∧
        (r.1 = false → r.2.pendingBlocks ≠ []) := by
  by_cases hempty : state.pendingBlocks = []
  · have hisEmpty : state.pendingBlocks.isEmpty = true := List.isEmpty_iff.mpr hempty
    simp only [submitBatch, hisEmpty, if_true]
    refine Prog.ensures_pure.mpr ?_
    simp [hempty]
  · have hisEmpty : state.pendingBlocks.isEmpty = false := List.isEmpty_eq_false_iff.mpr hempty
    simp only [submitBatch, hisEmpty, Bool.false_eq_true, if_false]
    refine Prog.ensures_bind.mpr ((ensures_submitBlocks hempty).mono ?_)
    rintro tr₁ (e | submissions) ⟨⟩ h
    · refine Prog.ensures_pure.mpr ?_
      rw [List.append_nil, h.1]
      simp [restoreFailedBatch, hempty]
    · obtain ⟨batch, -, -, hincluded, -⟩ := h
      refine Prog.ensures_bind.mpr ((ensures_logBatchSuccess submissions).mono ?_)
      rintro tr₂ _ ⟨⟩ -
      refine Prog.ensures_pure.mpr ?_
      rw [List.append_nil, included_append, hincluded]
      simp

theorem ensures_batchIteration_exit (self : BatchLoop) (event : BatchEvent) :
    (batchIteration celestia maxBatchSizeBytes self event).Ensures anyAnswer () fun tr self' _ =>
      (event = .received none → self'.exited = true ∧
        (self'.state.pendingBlocks = [] ↔
          self.state.pendingBlocks = [] ∨ included tr ≠ [])) ∧
      (event ≠ .received none → self.exited = false → self'.exited = true →
        self'.state.pendingBlocks ≠ []) := by
  rw [batchIteration]
  cases haction : waitForBatchEvent event self.state maxBatchSizeBytes with
  | mk action state =>
      have hshutdown := waitForBatchEvent_shutdown event self.state maxBatchSizeBytes
      rw [haction] at hshutdown
      simp only at hshutdown
      cases action with
      | «continue» =>
          refine Prog.ensures_pure.mpr ⟨?_, ?_⟩
          · intro hevent
            cases hshutdown.mpr hevent
          · intro _ hopen hexited
            simp only at hexited
            rw [hopen] at hexited
            cases hexited
      | submit =>
          refine Prog.ensures_bind.mpr ((ensures_submitBatch_pending state).mono ?_)
          rintro tr ⟨succeeded, state'⟩ ⟨⟩ ⟨-, hfailed⟩
          cases succeeded with
          | true =>
              refine Prog.ensures_pure.mpr ⟨?_, ?_⟩
              · intro hevent
                cases hshutdown.mpr hevent
              · intro _ hopen hexited
                simp only at hexited
                rw [hopen] at hexited
                cases hexited
          | false =>
              refine Prog.ensures_pure.mpr ⟨?_, ?_⟩
              · intro hevent
                cases hshutdown.mpr hevent
              · intro _ _ _
                exact hfailed rfl
      | shutdown =>
          obtain rfl := hshutdown.mp rfl
          obtain rfl : self.state = state := (Prod.mk.inj haction).2
          refine Prog.ensures_bind.mpr ((ensures_submitBatch_pending self.state).mono ?_)
          rintro tr ⟨succeeded, state'⟩ ⟨⟩ ⟨hpending, -⟩
          refine Prog.ensures_pure.mpr ⟨?_, ?_⟩
          · intro _
            rw [List.append_nil]
            exact ⟨rfl, hpending⟩
          · intro hevent
            exact absurd rfl hevent

/-- Until the loop ends, no iteration has shut it down; from then on it holds
nothing exactly when one has. -/
structure Ended (ts : List TaskTransition) (s : BatchTask) : Prop where
  before : s.loop.exited = false → ∀ t ∈ ts, ¬ ShutsDown t
  after : s.loop.exited = true →
    (s.loop.state.pendingBlocks = [] ∧ s.channel = [] ↔ ∃ t ∈ ts, ShutsDown t)

theorem ended_new : Ended [] BatchTask.new where
  before _ _ ht := absurd ht List.not_mem_nil
  after h := by cases h

theorem exists_mem_snoc {t : TaskTransition} :
    (∃ u ∈ ts ++ [t], ShutsDown u) ↔ (∃ u ∈ ts, ShutsDown u) ∨ ShutsDown t := by
  simp only [List.mem_append, List.mem_singleton, or_and_right, exists_or, exists_eq_left]

theorem Ended.idle {t : TaskTransition} (hs : Ended ts t.pre) (hnot : ¬ ShutsDown t)
    (hloop : t.post.loop = t.pre.loop)
    (hchannel : t.pre.loop.exited = true → t.post.channel = t.pre.channel) :
    Ended (ts ++ [t]) t.post := by
  refine ⟨?_, ?_⟩
  · intro hopen u hu
    rw [hloop] at hopen
    rcases List.mem_append.mp hu with hu | hu
    · exact hs.before hopen u hu
    · rw [List.mem_singleton.mp hu]
      exact hnot
  · intro hexited
    rw [hloop] at hexited ⊢
    rw [exists_mem_snoc, hchannel hexited, hs.after hexited]
    simp [hnot]

theorem Ended.iterated {t : TaskTransition} (hs : Ended ts t.pre)
    (hrunning : t.pre.loop.exited = false)
    (hopen : t.post.loop.exited = false → ¬ ShutsDown t)
    (hended : t.post.loop.exited = true →
      (t.post.loop.state.pendingBlocks = [] ∧ t.post.channel = [] ↔ ShutsDown t)) :
    Ended (ts ++ [t]) t.post := by
  have hearlier := hs.before hrunning
  refine ⟨?_, ?_⟩
  · intro hstill u hu
    rcases List.mem_append.mp hu with hu | hu
    · exact hearlier u hu
    · rw [List.mem_singleton.mp hu]
      exact hopen hstill
  · intro hexited
    have hnone : ¬ ∃ u ∈ ts, ShutsDown u := by
      rintro ⟨u, hu, hdown⟩
      exact hearlier u hu hdown
    rw [hended hexited, exists_mem_snoc, or_iff_right hnone]

theorem Ended.step {t : TaskTransition} (hs : Ended ts t.pre)
    (hstep : TaskStep celestia maxBatchSizeBytes t.pre t.label t.post) :
    Ended (ts ++ [t]) t.post := by
  obtain ⟨s, l, s'⟩ := t
  simp only at hs hstep ⊢
  cases hstep with
  | send hopen hrunning hroom =>
      apply hs.idle
      · rintro ⟨tr, ⟨⟩, -⟩
      · rfl
      · intro hexited
        simp only at hexited
        rw [hrunning] at hexited
        cases hexited
  | close =>
      apply hs.idle
      · rintro ⟨tr, ⟨⟩, -⟩
      · rfl
      · exact fun _ => rfl
  | @iteration l loop channel htakes hbatch =>
      obtain ⟨hrunning, hexec⟩ := hbatch
      obtain ⟨event, tr⟩ := l
      obtain ⟨hclosed, hother⟩ := ensures_batchIteration_exit s.loop event tr loop () hexec
      apply hs.iterated hrunning
      · -- the loop ends on the closed channel
        rintro hstill ⟨tr', hlabel, -⟩
        cases hlabel
        rw [(hclosed rfl).1] at hstill
        cases hstill
      · intro hexited
        by_cases hevent : event = .received none
        · subst hevent
          obtain ⟨-, -, rfl⟩ := htakes
          rw [(hclosed rfl).2]
          constructor
          · rintro ⟨hsubmitted, -⟩
            exact ⟨tr, rfl, hsubmitted⟩
          · rintro ⟨tr', hlabel, hsubmitted⟩
            cases hlabel
            exact ⟨hsubmitted, rfl⟩
        · constructor
          · rintro ⟨hempty, -⟩
            exact absurd hempty (hother hevent hrunning hexited)
          · rintro ⟨tr', hlabel, -⟩
            cases hlabel
            exact absurd rfl hevent

theorem length_blocksOf (batches : List (Batch celestia)) :
    (blocksOf batches).length = (batches.map fun batch => batch.blobs.length).sum := by
  rw [blocksOf, List.length_flatMap]
  congr 1
  apply List.map_congr_left
  intro batch _
  have hlength := congrArg List.length batch.created
  rw [List.length_map, List.length_map] at hlength
  exact hlength

/-- All blocks received are submitted exactly when none is pending: the batches
included determine how many there are. -/
theorem allSubmitted_iff (hrun : Run (TaskStep celestia maxBatchSizeBytes) BatchTask.new ts s) :
    AllSubmitted celestia (iterations ts) ↔ s.loop.state.pendingBlocks = [] := by
  obtain ⟨batches, haccounts, hblocks, -⟩ := conserved_of_run (batchRun_of_run hrun) rfl
  have hreceived : received (iterations ts) = blocksOf batches ++ s.loop.state.pendingBlocks :=
    hblocks
  constructor
  · rintro ⟨batches', hincluded', hreceived'⟩
    have hsame : batches.map (fun batch => batch.blobs.length) =
        batches'.map fun batch => batch.blobs.length := by
      have hmap := congrArg (List.map fun r : List Blob × UInt64 => r.1.length)
        (haccounts.1.symm.trans hincluded')
      rw [List.map_map, List.map_map] at hmap
      exact hmap
    have hlength := congrArg List.length (hreceived.symm.trans hreceived')
    rw [List.length_append, length_blocksOf, length_blocksOf, hsame] at hlength
    exact List.eq_nil_of_length_eq_zero (by omega)
  · intro hempty
    rw [hempty, List.append_nil] at hreceived
    exact ⟨batches, haccounts.1, hreceived⟩

/-- A loop that has ended has submitted every block it received and left none in
the channel, exactly when it ended on the closed channel with nothing to submit or a
last submission that succeeded. -/
theorem endsEmpty_iff_shutsDown
    (hrun : Run (TaskStep celestia maxBatchSizeBytes) BatchTask.new ts s)
    (hexited : s.loop.exited = true) :
    (AllSubmitted celestia (iterations ts) ∧ s.channel = []) ↔ ∃ t ∈ ts, ShutsDown t := by
  have hended : Ended ts s := hrun.history Ended ended_new
    fun _ _ _ hstep hs => Ended.step hs hstep
  rw [allSubmitted_iff hrun]
  exact hended.after hexited

section Examples

/-- A move of a schedule: a block is sent, the senders go, or the loop iterates on a
tick or on its channel while Celestia answers in this way. -/
inductive TaskMove
  | send (block : Block)
  | close
  | tick (response : Except String UInt64)
  | recv (response : Except String UInt64)

def playIteration (s : BatchTask) (event : BatchEvent) (channel : List Block)
    (response : Except String UInt64) : Option (TaskLabel × BatchTask) :=
  if s.loop.exited then none
  else ((batchIteration digestClient 100000 s.loop event).run (submissionEnv response) ()).map
    fun r => (.iteration (event, r.1), { s with loop := r.2.1, channel := channel })

def playTaskMove (s : BatchTask) : TaskMove → Option (TaskLabel × BatchTask)
  | .send block =>
      if s.closed = false ∧ s.loop.exited = false ∧ s.channel.length < batchChannelCapacity then
        some (.send block, { s with channel := s.channel ++ [block] })
      else none
  | .close => some (.close, { s with closed := true })
  | .tick response => playIteration s .tick s.channel response
  | .recv response =>
      match s.channel with
      | block :: rest => playIteration s (.received (some block)) rest response
      | [] => if s.closed then playIteration s (.received none) [] response else none

theorem step_of_playIteration {event : BatchEvent} {channel : List Block}
    {response : Except String UInt64} {l : TaskLabel}
    (h : playIteration s event channel response = some (l, s')) (htakes : Takes s event channel) :
    TaskStep digestClient 100000 s l s' := by
  unfold playIteration at h
  split at h
  · cases h
  · rename_i hrunning
    obtain ⟨⟨tr, loop, ⟨⟩⟩, hrun, heq⟩ := Option.map_eq_some_iff.mp h
    cases heq
    apply TaskStep.iteration htakes
    exact ⟨Bool.not_eq_true _ ▸ hrunning, Prog.exec_of_run (fun _ _ _ _ _ => trivial) hrun⟩

theorem step_of_playTaskMove (s : BatchTask) (m : TaskMove) (l : TaskLabel) (s' : BatchTask)
    (h : playTaskMove s m = some (l, s')) : TaskStep digestClient 100000 s l s' := by
  cases m with
  | send block =>
      simp only [playTaskMove] at h
      split at h
      · rename_i hroom
        cases h
        exact .send hroom.1 hroom.2.1 hroom.2.2
      · cases h
  | close =>
      cases h
      exact .close
  | tick response => exact step_of_playIteration h rfl
  | recv response =>
      simp only [playTaskMove] at h
      split at h
      · rename_i block rest hchannel
        exact step_of_playIteration h hchannel
      · rename_i hchannel
        split at h
        · rename_i hclosed
          exact step_of_playIteration h ⟨hchannel, hclosed, rfl⟩
        · cases h

def lastSubmissionSucceeds (t : TaskTransition) : Bool :=
  match t.label with
  | .iteration (.received none, tr) => !(included tr).isEmpty
  | _ => false

theorem shutsDown_of_lastSubmissionSucceeds {t : TaskTransition}
    (h : lastSubmissionSucceeds t = true) : ShutsDown t := by
  unfold lastSubmissionSucceeds at h
  split at h
  · rename_i tr hlabel
    refine ⟨tr, hlabel, .inr ?_⟩
    simpa using h
  · cases h

theorem endsEmpty_iff_shutsDown_oneBlock :
    ∃ ts s, Run (TaskStep digestClient 100000) BatchTask.new ts s ∧
      received (iterations ts) = [chainBlock 1] ∧ s.loop.exited = true ∧
      AllSubmitted digestClient (iterations ts) ∧ s.channel = [] := by
  obtain ⟨ts, s, hrun, hcheck⟩ := exists_run_of_play step_of_playTaskMove BatchTask.new
    [.send (chainBlock 1), .recv (.ok 7), .close, .recv (.ok 7)]
    (fun ts s => decide (received (iterations ts) = [chainBlock 1] ∧ s.loop.exited = true ∧
      ∃ t ∈ ts, lastSubmissionSucceeds t = true)) (by decide +kernel)
  obtain ⟨hreceived, hexited, t, ht, hdown⟩ := of_decide_eq_true hcheck
  exact ⟨ts, s, hrun, hreceived, hexited, (endsEmpty_iff_shutsDown hrun hexited).mpr
    ⟨t, ht, shutsDown_of_lastSubmissionSucceeds hdown⟩⟩

/-- A block is received, ten submissions in a row fail, and a second block is sent during the
tenth; or the channel is closed and the last submission fails. -/
theorem endsHolding :
    (∃ ts s, Run (TaskStep digestClient 100000) BatchTask.new ts s ∧
      s.loop.exited = true ∧ s.channel = [chainBlock 2] ∧
      ¬ (AllSubmitted digestClient (iterations ts) ∧ s.channel = [])) ∧
    ∃ ts s, Run (TaskStep digestClient 100000) BatchTask.new ts s ∧
      s.loop.exited = true ∧ s.channel = [] ∧
      ¬ (AllSubmitted digestClient (iterations ts) ∧ s.channel = []) := by
  constructor
  · -- a tick takes nothing from the channel, so what is sent during its submission may as well
    -- be sent before it
    obtain ⟨ts, s, hrun, hcheck⟩ := exists_run_of_play step_of_playTaskMove BatchTask.new
      ([.send (chainBlock 1), .recv (.ok 7)] ++
        List.replicate 9 (.tick (.error "timeout")) ++
        [.send (chainBlock 2), .tick (.error "timeout")])
      (fun _ s => decide (s.loop.exited = true ∧ s.channel = [chainBlock 2]))
      (by decide +kernel)
    obtain ⟨hexited, hchannel⟩ := of_decide_eq_true hcheck
    refine ⟨ts, s, hrun, hexited, hchannel, ?_⟩
    rw [hchannel]
    simp
  · obtain ⟨ts, s, hrun, hcheck⟩ := exists_run_of_play step_of_playTaskMove BatchTask.new
      [.send (chainBlock 1), .recv (.ok 7), .close, .recv (.error "timeout")]
      (fun _ s => decide (s.loop.exited = true ∧ s.channel = [] ∧
        s.loop.state.pendingBlocks ≠ [])) (by decide +kernel)
    obtain ⟨hexited, hchannel, hpending⟩ := of_decide_eq_true hcheck
    refine ⟨ts, s, hrun, hexited, hchannel, ?_⟩
    rw [allSubmitted_iff hrun]
    exact fun h => hpending h.1

end Examples

end Rkb.Sequencer.BatchExit
