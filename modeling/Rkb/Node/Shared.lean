import Rkb.Node.Effects

namespace Rkb.Node.Shared

open Rkb.Library.Bytes
open Rkb.Library.Program
open Rkb.Types.Blocks
open Rkb.Execution.Forkchoice
open Rkb.Celestia.Blobs
open Rkb.Celestia.Finality
open Rkb.Node.Effects

/-- `cached` is the execution client's own copy of the forkchoice. `spawned` are
the submissions whose tracking task has not run yet, `indexFile` is the content
of the index file on disk. -/
structure NodeState where
  forkchoice : ForkchoiceState
  cached : ForkchoiceState
  executed : Finset B256
  batchQueue : List Block
  spawned : List BlobSubmission
  tracker : FinalityTracker
  confirmations : List FinalityConfirmation
  batchTask : Bool
  runtime : Bool
  indexFile : Option (List Char)

namespace NodeState

def start (indexFile : Option (List Char)) : NodeState where
  forkchoice := ForkchoiceState.genesis FixedBytes.zero
  cached := ForkchoiceState.genesis FixedBytes.zero
  executed := ∅
  batchQueue := []
  spawned := []
  tracker := FinalityTracker.new
  confirmations := []
  batchTask := false
  runtime := false
  indexFile := indexFile

/-- The state once `init_forkchoice` has succeeded and the components exist. -/
def initialized (genesisHash : B256) (indexFile : Option (List Char)) : NodeState :=
  { start indexFile with
    forkchoice := ForkchoiceState.genesis genesisHash
    cached := ForkchoiceState.genesis genesisHash }

end NodeState

/-- A send is refused when the receiver is gone. A failed append may have written
any part of the line. -/
def nodeSem : Sem NodeOp Ans NodeState
  | .readCached, s, ans, s' => ans = s.cached ∧ s' = s
  | .writeCached state, s, _, s' => s' = { s with cached := state }
  | .readForkchoice, s, ans, s' => ans = s.forkchoice ∧ s' = s
  | .writeForkchoice state, s, _, s' => s' = { s with forkchoice := state }
  | .insertExecuted blockHash, s, _, s' =>
      s' = { s with executed := insert blockHash s.executed }
  | .containsExecuted blockHash, s, ans, s' =>
      ans = decide (blockHash ∈ s.executed) ∧ s' = s
  | .finalizedHeight, s, ans, s' => ans = s.tracker.finalizedHeight ∧ s' = s
  | .spawnTrack submission, s, _, s' => s' = { s with spawned := s.spawned ++ [submission] }
  | .track submission, s, _, s' => s' = { s with tracker := s.tracker.track submission }
  | .onCelestiaFinality celestiaHeight headerHash, s, ans, s' =>
      ∃ visit : List PendingEntry, (visit : Multiset PendingEntry) = s.tracker.pending.entries ∧
        ans = (s.tracker.onCelestiaFinality visit celestiaHeight headerHash).2 ∧
        s' = { s with
          tracker := (s.tracker.onCelestiaFinality visit celestiaHeight headerHash).1 }
  | .sendConfirmation confirmation, s, ans, s' =>
      ans = true ∧ s' = { s with confirmations := s.confirmations ++ [confirmation] } ∨
        ans = false ∧ s' = s
  | .queueBlock block, s, ans, s' =>
      ans = true ∧ s' = { s with batchQueue := s.batchQueue ++ [block] } ∨ ans = false ∧ s' = s
  | .spawnBatchTask, s, _, s' => s' = { s with batchTask := true }
  | .spawnRuntime, s, _, s' => s' = { s with runtime := true }
  | .indexExists, s, ans, s' => ans = s.indexFile.isSome ∧ s' = s
  | .readIndexFile, s, ans, s' => s' = s ∧ ∀ text, ans = .ok text → s.indexFile = some text
  | .openIndexFile, s, ans, s' =>
      ans = .ok () ∧ s' = { s with indexFile := some (s.indexFile.getD []) } ∨
        (∃ e, ans = .error e) ∧ s' = s
  | .appendIndexFile line, s, ans, s' =>
      ans = .ok () ∧ s' = { s with indexFile := some (s.indexFile.getD [] ++ line) } ∨
        ∃ e written, written <+: line ∧ ans = .error e ∧
          s' = { s with indexFile := some (s.indexFile.getD [] ++ written) }
  | _, s, _, s' => s' = s

theorem forkchoice_of_nodeSem {o : NodeOp} {s s' : NodeState} {ans : Ans o}
    (ho : ∀ f, o ≠ .writeForkchoice f) (h : nodeSem o s ans s') :
    s'.forkchoice = s.forkchoice := by
  cases o
  case writeForkchoice f => exact absurd rfl (ho f)
  case onCelestiaFinality =>
      obtain ⟨visit, -, -, rfl⟩ := h
      rfl
  case readIndexFile => rw [h.1]
  case sendConfirmation => rcases h with ⟨-, rfl⟩ | ⟨-, rfl⟩ <;> rfl
  case queueBlock => rcases h with ⟨-, rfl⟩ | ⟨-, rfl⟩ <;> rfl
  case openIndexFile => rcases h with ⟨-, rfl⟩ | ⟨-, rfl⟩ <;> rfl
  case appendIndexFile =>
      rcases h with ⟨-, rfl⟩ | ⟨e, written, -, -, rfl⟩ <;> rfl
  all_goals first
    | (cases h; rfl)
    | (obtain ⟨-, rfl⟩ := h; rfl)

/-- What lies behind a node when all goes well: the genesis block of its reth, the
blobs on Celestia, the Celestia height that includes a submission, and the order
in which a header visits the pending submissions. -/
structure Backend where
  genesisHash : B256
  blobs : UInt64 → Option (List Blob)
  inclusion : UInt64
  visits : UInt64 → List PendingEntry

def genesisBackend : Backend where
  genesisHash := FixedBytes.zero
  blobs _ := none
  inclusion := 10
  visits _ := []

def acceptingNode (backend : Backend) : Prog.Env NodeOp Ans NodeState
  | .sleep millis, s => some ((() : Ans (.sleep millis)), s)
  | .warn message, s => some ((() : Ans (.warn message)), s)
  | .getGenesisHash, s =>
      some ((RpcAnswer.answer backend.genesisHash : Ans .getGenesisHash), s)
  | .newPayload p v r, s =>
      some ((RpcAnswer.answer ⟨.valid, none⟩ : Ans (.newPayload p v r)), s)
  | .forkchoiceUpdated f a, s =>
      some ((RpcAnswer.answer ⟨⟨.valid, none⟩, none⟩ : Ans (.forkchoiceUpdated f a)), s)
  | .readCached, s => some ((s.cached : Ans .readCached), s)
  | .writeCached f, s => some ((() : Ans (.writeCached f)), { s with cached := f })
  | .readForkchoice, s => some ((s.forkchoice : Ans .readForkchoice), s)
  | .writeForkchoice f, s =>
      some ((() : Ans (.writeForkchoice f)), { s with forkchoice := f })
  | .insertExecuted h, s =>
      some ((() : Ans (.insertExecuted h)), { s with executed := insert h s.executed })
  | .containsExecuted h, s =>
      some ((decide (h ∈ s.executed) : Ans (.containsExecuted h)), s)
  | .finalizedHeight, s =>
      some ((s.tracker.finalizedHeight : Ans .finalizedHeight), s)
  | .fetchBlobs height, s =>
      some ((.ok (backend.blobs height) : Ans (.fetchBlobs height)), s)
  | .submitBlobs blobs, s =>
      some ((.ok backend.inclusion : Ans (.submitBlobs blobs)), s)
  | .spawnTrack x, s => some ((() : Ans (.spawnTrack x)), { s with spawned := s.spawned ++ [x] })
  | .track x, s => some ((() : Ans (.track x)), { s with tracker := s.tracker.track x })
  | .onCelestiaFinality h hash, s =>
      if (backend.visits h : Multiset PendingEntry) = s.tracker.pending.entries then
        some (((s.tracker.onCelestiaFinality (backend.visits h) h hash).2 :
            Ans (.onCelestiaFinality h hash)),
          { s with tracker := (s.tracker.onCelestiaFinality (backend.visits h) h hash).1 })
      else none
  | .sendConfirmation c, s =>
      some ((true : Ans (.sendConfirmation c)),
        { s with confirmations := s.confirmations ++ [c] })
  | .queueBlock b, s =>
      some ((true : Ans (.queueBlock b)), { s with batchQueue := s.batchQueue ++ [b] })
  | .spawnBatchTask, s => some ((() : Ans .spawnBatchTask), { s with batchTask := true })
  | .spawnRuntime, s => some ((() : Ans .spawnRuntime), { s with runtime := true })
  | .createIndexDir, s => some ((.ok () : Ans .createIndexDir), s)
  | .indexExists, s => some ((s.indexFile.isSome : Ans .indexExists), s)
  | .readIndexFile, s =>
      s.indexFile.map fun text => ((.ok text : Ans .readIndexFile), s)
  | .openIndexFile, s =>
      some ((.ok () : Ans .openIndexFile), { s with indexFile := some (s.indexFile.getD []) })
  | .appendIndexFile line, s =>
      some ((.ok () : Ans (.appendIndexFile line)),
        { s with indexFile := some (s.indexFile.getD [] ++ line) })
  | _, _ => none

theorem acceptingNode_sound (backend : Backend) (o : NodeOp) (s : NodeState) (ans : Ans o)
    (s' : NodeState) (h : acceptingNode backend o s = some (ans, s')) : nodeSem o s ans s' := by
  cases o
  case onCelestiaFinality celestiaHeight headerHash =>
      simp only [acceptingNode] at h
      split at h
      · rename_i hvisit
        cases h
        exact ⟨backend.visits celestiaHeight, hvisit, rfl, rfl⟩
      · cases h
  case readIndexFile =>
      obtain ⟨text, htext, heq⟩ := Option.map_eq_some_iff.mp h
      cases heq
      refine ⟨rfl, ?_⟩
      rintro _ ⟨rfl⟩
      exact htext
  all_goals first
    | (cases h; done)
    | (cases h; rfl)
    | (cases h; exact ⟨rfl, rfl⟩)
    | (cases h; exact .inl ⟨rfl, rfl⟩)

end Rkb.Node.Shared
