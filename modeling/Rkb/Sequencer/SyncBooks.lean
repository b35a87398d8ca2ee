import Rkb.Sequencer.FailedUpdates
import Rkb.Sequencer.ForeignBlobs

/-!
The books of a sync, also of one that stops in the middle: what it has executed, what the
index has gained and where the head is. The functions here leave their caller's index
behind when they fail.
-/

namespace Rkb.Sequencer.SyncBooks

open Rkb.Library.Program
open Rkb.Types.Blocks
open Rkb.Execution.Errors
open Rkb.Execution.Forkchoice
open Rkb.Execution.Payload
open Rkb.Execution.Client
open Rkb.Celestia.Blobs
open Rkb.Celestia.Client
open Rkb.Celestia.Index
open Rkb.Consensus.FinalizedChain
open Rkb.Sequencer.Sync
open Rkb.Sequencer.SyncPlan
open Rkb.Sequencer.SyncEffect
open Rkb.Sequencer.ForeignBlobs
open Rkb.Sequencer.FailedUpdates
open Rkb.Node.Effects
open Rkb.Node.Shared

section InPlace

variable (json : IndexJson) (celestia : CelestiaClient)

/-- `sync_single_block` changes the index only where it succeeds. -/
def syncBlocksOn (index : BlockIndex) (parentHash : B256) (lastSyncedHeight : UInt64) :
    List (UInt64 × Block) → NodeProg (Except Report UInt64 × BlockIndex)
  | [] => return (.ok lastSyncedHeight, index)
  | (celestiaHeight, block) :: blocks =>
      if (index.getByHeight block.height).isSome then
        syncBlocksOn index block.blockHash lastSyncedHeight blocks
      else do
        match ← syncSingleBlock json index block celestiaHeight parentHash with
        | .error e => return (.error e, index)
        | .ok (parentHash, index) => syncBlocksOn index parentHash block.height blocks

def syncBlockBatchOn (index : BlockIndex) (blocks : List (UInt64 × Block)) :
    NodeProg (Except Report UInt64 × BlockIndex) := do
  let current : ForkchoiceState ← op .readForkchoice
  syncBlocksOn json index current.head (index.latestHeight.getD 0) blocks

def syncFromCelestiaOn (index : BlockIndex) (genesisDaHeight : UInt64) :
    NodeProg (Except Report UInt64 × BlockIndex) := do
  let currentCelestiaHeight : UInt64 ← op .finalizedHeight
  match checkSyncPreconditions index genesisDaHeight currentCelestiaHeight with
  | some height => return (.ok height, index)
  | none =>
      match ← fetchBlocksFromCelestia celestia genesisDaHeight currentCelestiaHeight with
      | .error e => return (.error e, index)
      | .ok blocks =>
          if blocks.isEmpty then return (.ok (index.latestHeight.getD 0), index)
          else syncBlockBatchOn json index blocks

def returned (r : Except Report UInt64 × BlockIndex) : Except Report (UInt64 × BlockIndex) :=
  r.1.map fun height => (height, r.2)

variable {json celestia} in
theorem syncBlocksOn_returned (index : BlockIndex) (parentHash : B256)
    (lastSyncedHeight : UInt64) (blocks : List (UInt64 × Block)) :
    (syncBlocksOn json index parentHash lastSyncedHeight blocks >>= fun r =>
      Prog.pure (returned r)) = syncBlocks json index parentHash lastSyncedHeight blocks := by
  induction blocks generalizing index parentHash lastSyncedHeight with
  | nil => rfl
  | cons b blocks ih =>
      obtain ⟨celestiaHeight, block⟩ := b
      rw [syncBlocksOn, syncBlocks]
      split
      · exact ih _ _ _
      · rw [Prog.bind_assoc]
        congr 1
        funext result
        obtain e | ⟨parentHash, index⟩ := result
        · rfl
        · exact ih _ _ _

/-- The sync on the caller's index is that of the model without it. -/
theorem syncFromCelestiaOn_returned (index : BlockIndex) (genesisDaHeight : UInt64) :
    (syncFromCelestiaOn json celestia index genesisDaHeight >>= fun r =>
      Prog.pure (returned r)) = syncFromCelestia json celestia index genesisDaHeight := by
  refine (Prog.bind_assoc (op NodeOp.finalizedHeight) _ _).trans ?_
  refine congrArg (Prog.op NodeOp.finalizedHeight) (funext fun currentCelestiaHeight => ?_)
  simp only [Prog.bind]
  cases checkSyncPreconditions index genesisDaHeight currentCelestiaHeight with
  | some height => rfl
  | none =>
      refine (Prog.bind_assoc (fetchBlocksFromCelestia celestia _ _) _ _).trans ?_
      refine congrArg (Prog.bind _) (funext fun result => ?_)
      obtain e | blocks := result
      · rfl
      · dsimp only
        split
        · rfl
        · exact congrArg (Prog.op NodeOp.readForkchoice) (funext fun current =>
            syncBlocksOn_returned _ _ _ _)

end InPlace

section Blocks

variable {json : IndexJson} {s : NodeState} {index : BlockIndex}

def writeFails : NodeEvent → Bool
  | ⟨.appendIndexFile _, .error _⟩ => true
  | _ => false

/-- What the trace of a block shows: the payloads sent, whether reth took the block, and
whether a write of the index failed. -/
structure Shows (payloads : List ExecutionPayloadV3) (taken failed : Bool)
    (tr : List NodeEvent) : Prop where
  sent : sent tr = payloads
  taken : took tr = taken
  failed : tr.any writeFails = failed

structure Mute (failed : Bool) (tr : List NodeEvent) : Prop where
  sent : sent tr = []
  reports : tr.any reportsValid = false
  accepts : tr.any acceptsUpdate = false
  failed : tr.any writeFails = failed

section Traces

variable {payloads : List ExecutionPayloadV3} {taken failed : Bool}
  {tr tr' : List NodeEvent}

theorem Mute.append (h : Mute false tr) (h' : Mute failed tr') : Mute failed (tr ++ tr') where
  sent := by rw [sent_append, h.sent, h'.sent, List.append_nil]
  reports := by rw [List.any_append, h.reports, h'.reports, Bool.false_or]
  accepts := by rw [List.any_append, h.accepts, h'.accepts, Bool.false_or]
  failed := by rw [List.any_append, h.failed, h'.failed, Bool.false_or]

end Traces

/-- The entry of the block is the new head, and its hash counts as executed. -/
structure Takes (s : NodeState) (block : Block) (s' : NodeState) : Prop where
  shared : s'.forkchoice = s.forkchoice.withSoft block.blockHash
  executed : s'.executed = insert block.blockHash s.executed

end Blocks

section Loop

variable {json : IndexJson} {s s' : NodeState} {index : BlockIndex}
  {plan : List (UInt64 × Block)}

structure Attempt where
  celestiaHeight : UInt64
  block : Block
  trace : List NodeEvent

namespace Attempt

def toPair (a : Attempt) : UInt64 × Block := (a.celestiaHeight, a.block)

def taken (a : Attempt) : Bool := took a.trace

def complete (a : Attempt) : Bool := took a.trace && !a.trace.any writeFails

end Attempt

/-- The runs of the loop over a plan: every attempt but the last one is complete. -/
inductive LoopRun : BlockIndex → NodeState → List (UInt64 × Block) → List Attempt →
    Option (Except Report UInt64 × BlockIndex) → NodeState → Prop
  | finished (index : BlockIndex) (s : NodeState) (height : UInt64) :
      LoopRun index s [] [] (some (.ok height, index)) s
  | stopped {index : BlockIndex} {s s' : NodeState} {plan : List (UInt64 × Block)} {a : Attempt}
      {r : Option (Except Report UInt64 × BlockIndex)} :
      Shows (buildPayload a.block).toList false false a.trace → Untouched s s' →
      (∀ q ∈ r, (∃ e, q.1 = .error e) ∧ q.2 = index) →
      LoopRun index s (a.toPair :: plan) [a] r s'
  | unwritten {index : BlockIndex} {s s' : NodeState} {plan : List (UInt64 × Block)} {a : Attempt}
      {e : Report} :
      Shows (buildPayload a.block).toList true true a.trace → Takes s a.block s' →
      LoopRun index s (a.toPair :: plan) [a] (some (.error e, index)) s'
  | synced {index : BlockIndex} {s s₁ s' : NodeState} {plan : List (UInt64 × Block)} {a : Attempt}
      {attempts : List Attempt} {r : Option (Except Report UInt64 × BlockIndex)} :
      Shows (buildPayload a.block).toList true false a.trace → Takes s a.block s₁ →
      LoopRun (index.record (syncEntry a.block a.celestiaHeight)) s₁ plan attempts r s' →
      LoopRun index s (a.toPair :: plan) (a :: attempts) r s'

end Loop

section Books

variable {s s' : NodeState} {index : BlockIndex} {plan : List (UInt64 × Block)}
  {attempts : List Attempt} {r : Option (Except Report UInt64 × BlockIndex)} {a : Attempt}

theorem Attempt.taken_of_shows {payloads : List ExecutionPayloadV3} {taken failed : Bool}
    (h : Shows payloads taken failed a.trace) :
    a.taken = taken ∧ a.complete = (taken && !failed) := by
  refine ⟨h.taken, ?_⟩
  rw [Attempt.complete, h.taken, h.failed]

theorem LoopRun.stops (h : LoopRun index s plan attempts r s') :
    ∀ a ∈ attempts.dropLast, a.complete = true := by
  induction h with
  | finished => simp
  | stopped => simp
  | unwritten => simp
  | @synced index s s₁ s' plan a attempts r hshows _ _ ih =>
      intro b hb
      cases attempts with
      | nil => simp at hb
      | cons c attempts =>
          rw [List.dropLast_cons_cons] at hb
          rcases List.mem_cons.mp hb with rfl | hb
          · exact (Attempt.taken_of_shows hshows).2
          · exact ih b hb

end Books

section Fetch

variable {json : IndexJson} {celestia : CelestiaClient} {s : NodeState} {index : BlockIndex}

def requestOf : NodeEvent → Option (UInt64 × Bool)
  | ⟨.fetchBlobs celestiaHeight, .ok _⟩ => some (celestiaHeight, true)
  | ⟨.fetchBlobs celestiaHeight, .error _⟩ => some (celestiaHeight, false)
  | _ => none

/-- The heights asked of Celestia, each with whether there was an answer. -/
def requests (tr : List NodeEvent) : List (UInt64 × Bool) := tr.filterMap requestOf

def answered (heights : List UInt64) : List (UInt64 × Bool) := heights.map fun h => (h, true)

def BreaksOff (heights : List UInt64) (asked : List (UInt64 × Bool)) : Prop :=
  ∃ done height rest, heights = done ++ height :: rest ∧ asked = answered done ++ [(height, false)]

section Traces

variable {tr tr₁ tr₂ : List NodeEvent}

theorem BreaksOff.cons {heights : List UInt64} {asked : List (UInt64 × Bool)} (height : UInt64)
    (h : BreaksOff heights asked) : BreaksOff (height :: heights) ((height, true) :: asked) := by
  obtain ⟨done, failing, rest, rfl, rfl⟩ := h
  exact ⟨height :: done, failing, rest, rfl, rfl⟩

end Traces

section Traces

variable (height : UInt64) (tr : List NodeEvent) (f : ForkchoiceState)

end Traces

end Fetch

section Example

open Rkb.Library.Bytes (FixedBytes)
open Rkb.Consensus.ActorRuns (chainBlock)

end Example

end Rkb.Sequencer.SyncBooks
