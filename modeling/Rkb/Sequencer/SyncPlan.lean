import Mathlib.Data.Finset.Union
import Rkb.Consensus.ActorRuns
import Rkb.Node.Shared
import Rkb.Sequencer.Sync

namespace Rkb.Sequencer.SyncPlan

open Rkb.Library.Program
open Rkb.Types.Blocks
open Rkb.Types.Wire
open Rkb.Execution.Errors
open Rkb.Execution.Forkchoice
open Rkb.Execution.Client
open Rkb.Celestia.Blobs
open Rkb.Celestia.Client
open Rkb.Celestia.Index
open Rkb.Consensus.ActorRuns
open Rkb.Sequencer.Sync
open Rkb.Node.Effects
open Rkb.Node.Shared

/-- A reth with the given genesis block, and a Celestia that always serves the
same blobs. Any request may fail. -/
def Serves (genesisHash : B256) (da : UInt64 → Option (List Blob)) :
    (o : NodeOp) → Ans o → Prop
  | .getGenesisHash, (response : RpcAnswer B256) =>
      ∀ hash, response = .answer hash → hash = genesisHash
  | .fetchBlobs celestiaHeight, (response : Except String (Option (List Blob))) =>
      ∀ blobs, response = .ok blobs → blobs = da celestiaHeight
  | _, _ => True

abbrev servedSem (genesisHash : B256) (da : UInt64 → Option (List Blob)) :
    Sem NodeOp Ans NodeState :=
  nodeSem.restrict (Serves genesisHash da)

def servedBlocks (celestia : CelestiaClient) (da : UInt64 → Option (List Blob))
    (celestiaHeight : UInt64) : List Block :=
  ((da celestiaHeight).getD []).filterMap fun blob => celestia.decodeBlock blob.data

def servedAt (celestia : CelestiaClient) (da : UInt64 → Option (List Blob))
    (heights : List UInt64) : List (UInt64 × Block) :=
  heights.flatMap fun height =>
    (servedBlocks celestia da height).map fun block => (height, block)

/-- The blocks that a sync goes through, in its order; none when it is skipped. -/
def toSync (celestia : CelestiaClient) (da : UInt64 → Option (List Blob))
    (genesisDaHeight currentCelestiaHeight : UInt64) : List (UInt64 × Block) :=
  if genesisDaHeight = 0 ∨ currentCelestiaHeight < genesisDaHeight then []
  else sortByHeight (servedAt celestia da
    ((List.range' genesisDaHeight.toNat
      (currentCelestiaHeight.toNat - genesisDaHeight.toNat + 1)).map UInt64.ofNat))

def heights (blocks : List (UInt64 × Block)) : List UInt64 := blocks.map fun b => b.2.height

def hashes (blocks : List (UInt64 × Block)) : Finset B256 :=
  (blocks.map fun b => b.2.blockHash).toFinset

/-- The blocks that the loop executes: the first of each height not indexed yet. -/
def unindexed : (UInt64 → Bool) → List (UInt64 × Block) → List (UInt64 × Block)
  | _, [] => []
  | indexed, b :: blocks =>
      if indexed b.2.height then unindexed indexed blocks
      else b :: unindexed (fun height => indexed height || height == b.2.height) blocks

def hasHeight (index : BlockIndex) (height : UInt64) : Bool := (index.getByHeight height).isSome

def headAfter (head : B256) (blocks : List (UInt64 × Block)) : B256 :=
  blocks.foldl (fun _ b => b.2.blockHash) head

def indexText (s : NodeState) : List Char := s.indexFile.getD []

/-- The index that `BlockIndex::open` returns on a file of this content. -/
def openedIndex (json : IndexJson) (text : List Char) : BlockIndex :=
  { BlockIndex.new.replayLines json text with file := true }

def linesOf (json : IndexJson) (blocks : List (UInt64 × Block)) : List Char :=
  (blocks.map fun b => syncEntry b.2 b.1).flatMap (lineOf json)

/-- The blocks have been executed and indexed between `s` and `s'`. -/
structure Synced (json : IndexJson) (s : NodeState) (blocks : List (UInt64 × Block))
    (s' : NodeState) : Prop where
  head : s'.forkchoice.head = headAfter s.forkchoice.head blocks
  executed : s'.executed = s.executed ∪ hashes blocks
  index : indexText s' = indexText s ++ linesOf json blocks

section Blocks

variable {indexed : UInt64 → Bool} {blocks xs ys : List (UInt64 × Block)}

@[simp] theorem heights_cons (b : UInt64 × Block) :
    heights (b :: blocks) = b.2.height :: heights blocks := rfl

theorem hashes_append : hashes (xs ++ ys) = hashes xs ∪ hashes ys := by
  rw [hashes, List.map_append, List.toFinset_append]
  rfl

theorem headAfter_append (head : B256) :
    headAfter head (xs ++ ys) = headAfter (headAfter head xs) ys :=
  List.foldl_append

theorem headAfter_mem (head : B256) (hblocks : blocks ≠ []) :
    ∃ b ∈ blocks, headAfter head blocks = b.2.blockHash := by
  obtain rfl | ⟨xs, b, rfl⟩ := blocks.eq_nil_or_concat'
  · exact absurd rfl hblocks
  · exact ⟨b, by simp, by rw [headAfter_append]; rfl⟩

theorem headAfter_eq_iff (head : B256) :
    headAfter head blocks = head ↔ ∀ b ∈ blocks.getLast?, b.2.blockHash = head := by
  obtain rfl | ⟨xs, b, rfl⟩ := blocks.eq_nil_or_concat'
  · simp [headAfter]
  · simp [headAfter]

theorem headAfter_congr {head head' : B256} (hblocks : blocks ≠ []) :
    headAfter head blocks = headAfter head' blocks := by
  cases blocks with
  | nil => exact absurd rfl hblocks
  | cons b blocks => rfl

theorem mem_hashes {hash : B256} : hash ∈ hashes blocks ↔ ∃ b ∈ blocks, b.2.blockHash = hash := by
  rw [hashes, List.mem_toFinset, List.mem_map]

theorem unindexed_subset : unindexed indexed blocks ⊆ blocks := by
  induction blocks generalizing indexed with
  | nil => exact List.Subset.refl _
  | cons b blocks ih =>
      rw [unindexed]
      split
      · exact List.subset_cons_of_subset b ih
      · exact List.cons_subset_cons b ih

theorem not_indexed_of_mem {b : UInt64 × Block} (h : b ∈ unindexed indexed blocks) :
    indexed b.2.height = false := by
  induction blocks generalizing indexed with
  | nil => exact absurd h List.not_mem_nil
  | cons b' blocks ih =>
      rw [unindexed] at h
      split at h
      · exact ih h
      · rename_i hindexed
        rcases List.mem_cons.mp h with rfl | h
        · exact Bool.eq_false_iff.mpr hindexed
        · exact (Bool.or_eq_false_iff.mp (ih h)).1

theorem indexed_or_mem_unindexed (height : UInt64) :
    indexed height = true ∨ height ∈ heights (unindexed indexed blocks) ↔
      indexed height = true ∨ height ∈ heights blocks := by
  induction blocks generalizing indexed with
  | nil => rfl
  | cons b blocks ih =>
      rw [unindexed]
      split
      · rename_i hindexed
        rw [ih, heights_cons, List.mem_cons]
        constructor
        · tauto
        · rintro (h | rfl | h)
          · exact .inl h
          · exact .inl hindexed
          · exact .inr h
      · have hlater := @ih fun height => indexed height || height == b.2.height
        simp only [Bool.or_eq_true, beq_iff_eq] at hlater
        simp only [heights_cons, List.mem_cons]
        tauto

theorem unindexed_append :
    unindexed indexed (xs ++ ys) =
      unindexed indexed xs ++
        unindexed (fun height => indexed height || decide (height ∈ heights xs)) ys := by
  induction xs generalizing indexed with
  | nil => simp [heights, unindexed]
  | cons b xs ih =>
      rw [List.cons_append, unindexed, unindexed]
      split
      · rename_i hindexed
        rw [ih]
        congr 2
        funext height
        by_cases hheight : height = b.2.height
        · simp [hheight, hindexed]
        · simp [hheight]
      · rw [ih, List.cons_append]
        congr 3
        funext height
        simp [Bool.or_assoc, Bool.beq_eq_decide_eq]

theorem unindexed_eq_nil (h : ∀ b ∈ blocks, indexed b.2.height = true) :
    unindexed indexed blocks = [] := by
  induction blocks with
  | nil => rfl
  | cons b blocks ih =>
      rw [List.forall_mem_cons] at h
      rw [unindexed, if_pos h.1]
      exact ih h.2

end Blocks

section Synced

variable {json : IndexJson} {s s₁ s' : NodeState} {blocks xs ys : List (UInt64 × Block)}

theorem synced_nil (hhead : s'.forkchoice.head = s.forkchoice.head)
    (hexecuted : s'.executed = s.executed) (hindex : indexText s' = indexText s) :
    Synced json s [] s' where
  head := hhead
  executed := hexecuted.trans (Finset.union_empty _).symm
  index := hindex.trans (List.append_nil _).symm

theorem Synced.append (hfirst : Synced json s xs s₁) (hsecond : Synced json s₁ ys s') :
    Synced json s (xs ++ ys) s' where
  head := by rw [hsecond.head, hfirst.head, headAfter_append]
  executed := by rw [hsecond.executed, hfirst.executed, hashes_append, Finset.union_assoc]
  index := by
    rw [hsecond.index, hfirst.index, List.append_assoc]
    simp [linesOf]

end Synced

section Programs

variable {s : NodeState} {json : IndexJson}

def Unchanging (o : NodeOp) : Prop := ∀ s ans s', nodeSem o s ans s' → s' = s

theorem ensures_unchanging {α : Type} {p : NodeProg α} (hp : p.Performs Unchanging) :
    p.Ensures nodeSem s fun _ _ s' => s' = s := by
  refine hp.keeps (J := (· = s)) ?_ rfl
  rintro o ho s₁ ans s₂ rfl hsem
  exact ho _ ans s₂ hsem

theorem succeeds_unchanging {ε α : Type} {p : NodeProg (Except ε α)}
    (hp : p.Performs Unchanging) : p.Succeeds nodeSem s fun _ s' => s' = s :=
  (ensures_unchanging hp).mono fun _ _ _ h _ _ => h

theorem succeeds_updateForkchoice (f : ForkchoiceState) :
    (updateForkchoice f).Succeeds nodeSem s fun _ s' => s' = { s with cached := f } := by
  refine Prog.succeeds_perform_bind ?_
  rintro response s₁ rfl
  split
  · exact Prog.succeeds_error
  · split
    case h_4 => exact Prog.succeeds_error
    all_goals
      refine Prog.succeeds_perform_bind ?_
      rintro _ s₂ rfl
      exact Prog.succeeds_ok rfl

theorem succeeds_executeBlock (block : Block) :
    (executeBlock block).Succeeds nodeSem s fun _ s' => s' = s := by
  refine succeeds_unchanging (performs_executeBlock ?_ ?_)
  · exact fun _ _ _ _ h => h
  · exact fun _ _ _ _ _ h => h

theorem succeeds_executeSyncBlock (block : Block) (blockHash : B256) (blockHeight : UInt64) :
    (executeSyncBlock block blockHash blockHeight).Succeeds nodeSem s fun _ s' =>
      s' = { s with
        forkchoice := s.forkchoice.withSoft blockHash
        cached := s.forkchoice.withSoft blockHash } := by
  refine (succeeds_executeBlock block).bind (fun e => ⟨_, rfl⟩) ?_
  rintro result s₁ rfl
  simp only [Report.wrapErr]
  split
  · exact Prog.succeeds_error
  · refine Prog.succeeds_perform_bind ?_
    rintro current s₂ ⟨rfl, rfl⟩
    refine (succeeds_updateForkchoice _).bind (fun e => ⟨_, rfl⟩) ?_
    rintro _ s₃ rfl
    refine Prog.succeeds_perform_bind ?_
    rintro _ s₄ rfl
    exact Prog.succeeds_ok rfl

theorem succeeds_insert {index : BlockIndex} (hfile : index.file = true) (entry : IndexEntry) :
    (index.insert json entry).Succeeds nodeSem s fun index' s' =>
      index' = index.record entry ∧
        s' = { s with indexFile := some (s.indexFile.getD [] ++ lineOf json entry) } := by
  unfold BlockIndex.insert lineOf
  cases json.toJson entry with
  | error e => exact Prog.succeeds_error
  | ok text =>
      simp only [hfile, if_true]
      refine Prog.succeeds_perform_bind ?_
      rintro written s₁ (⟨rfl, rfl⟩ | ⟨e, part, -, rfl, rfl⟩)
      · exact Prog.succeeds_ok ⟨rfl, rfl⟩
      · cases e <;> exact Prog.succeeds_error

theorem ensures_checkParentContinuity (block : Block) (expectedParent : B256) :
    (checkParentContinuity block expectedParent).Ensures nodeSem s fun _ _ s' => s' = s := by
  refine ensures_unchanging ?_
  unfold checkParentContinuity
  split
  · exact Prog.performs_pure _
  · split
    · exact (Prog.performs_perform fun _ _ _ h => h).bind fun _ => Prog.performs_pure _
    · exact Prog.performs_pure _

theorem succeeds_syncSingleBlock {index : BlockIndex} (hfile : index.file = true) (block : Block)
    (celestiaHeight : UInt64) (expectedParent : B256) :
    (syncSingleBlock json index block celestiaHeight expectedParent).Succeeds nodeSem s
      fun r s' => r = (block.blockHash, index.record (syncEntry block celestiaHeight)) ∧
        Synced json s [(celestiaHeight, block)] s' := by
  refine Prog.ensures_bind.mpr ((ensures_checkParentContinuity block expectedParent).mono ?_)
  rintro _ _ s₁ rfl
  refine (succeeds_executeSyncBlock block _ _).bind (fun e => ⟨_, rfl⟩) ?_
  rintro _ s₂ rfl
  refine Prog.succeeds_perform_bind ?_
  rintro _ s₃ rfl
  refine (succeeds_insert hfile _).bind (fun e => ⟨_, rfl⟩) ?_
  rintro _ s₄ ⟨rfl, rfl⟩
  refine Prog.succeeds_ok ⟨rfl, ?_, ?_, ?_⟩
  · rfl
  · rw [Finset.insert_eq, Finset.union_comm]
    rfl
  · simp [indexText, linesOf]

theorem hasHeight_record (index : BlockIndex) (entry : IndexEntry) :
    hasHeight (index.record entry) =
      fun height => hasHeight index height || height == entry.blockHeight := by
  funext height
  rw [hasHeight, BlockIndex.getByHeight_record]
  by_cases hheight : height = entry.blockHeight
  · simp [hheight]
  · simp [hheight, hasHeight]

theorem succeeds_syncBlocks {index : BlockIndex} (hfile : index.file = true) (parentHash : B256)
    (lastSyncedHeight : UInt64) (blocks : List (UInt64 × Block)) :
    (syncBlocks json index parentHash lastSyncedHeight blocks).Succeeds nodeSem s
      fun _ s' => Synced json s (unindexed (hasHeight index) blocks) s' := by
  induction blocks generalizing index parentHash lastSyncedHeight s with
  | nil => exact Prog.succeeds_ok (synced_nil rfl rfl rfl)
  | cons b blocks ih =>
      obtain ⟨celestiaHeight, block⟩ := b
      rw [syncBlocks, unindexed]
      by_cases hindexed : (index.getByHeight block.height).isSome = true
      · have hhas : hasHeight index block.height = true := hindexed
        simp only [hindexed, hhas, if_true]
        exact ih hfile _ _
      · have hhas : ¬ hasHeight index block.height = true := hindexed
        simp only [hindexed, hhas]
        refine (succeeds_syncSingleBlock hfile block celestiaHeight parentHash).bind
          (fun e => ⟨_, rfl⟩) ?_
        rintro _ s₁ ⟨rfl, hsynced⟩
        refine Prog.Succeeds.mono
          (@ih s₁ (index.record (syncEntry block celestiaHeight)) hfile _ _) ?_
        intro _ s' hrest
        rw [hasHeight_record] at hrest
        exact hsynced.append hrest

theorem succeeds_syncBlockBatch {index : BlockIndex} (hfile : index.file = true)
    (blocks : List (UInt64 × Block)) :
    (syncBlockBatch json index blocks).Succeeds nodeSem s
      fun _ s' => Synced json s (unindexed (hasHeight index) blocks) s' := by
  refine Prog.succeeds_perform_bind ?_
  rintro current s₁ ⟨rfl, rfl⟩
  exact succeeds_syncBlocks hfile _ _ _

theorem succeeds_openIndex :
    (BlockIndex.openIndex json).Succeeds nodeSem s fun index s' =>
      index = openedIndex json (indexText s) ∧
        s' = { s with indexFile := some (indexText s) } := by
  have hreplay : (BlockIndex.new.replayIfExists json).Succeeds nodeSem s fun index s' =>
      index = BlockIndex.new.replayLines json (indexText s) ∧ s' = s := by
    refine Prog.succeeds_perform_bind ?_
    rintro found s₁ ⟨rfl, rfl⟩
    split
    · refine Prog.succeeds_perform_bind ?_
      rintro response s₂ ⟨rfl, hread⟩
      split
      · exact Prog.succeeds_error
      · exact Prog.succeeds_error
      · rename_i text
        rw [indexText, hread text rfl]
        exact Prog.succeeds_ok ⟨rfl, rfl⟩
    · rename_i hfound
      rw [indexText, Option.not_isSome_iff_eq_none.mp hfound]
      exact Prog.succeeds_ok ⟨rfl, rfl⟩
  refine Prog.succeeds_perform_bind ?_
  rintro created s₁ rfl
  split
  · exact Prog.succeeds_error
  · refine hreplay.bind (fun e => ⟨_, rfl⟩) ?_
    rintro _ s₂ ⟨rfl, rfl⟩
    refine Prog.succeeds_perform_bind ?_
    rintro _ s₃ (⟨rfl, rfl⟩ | ⟨⟨e, rfl⟩, rfl⟩)
    · exact Prog.succeeds_ok ⟨rfl, rfl⟩
    · exact Prog.succeeds_error

end Programs

section Served

variable {s : NodeState} {json : IndexJson} {celestia : CelestiaClient} {genesisHash : B256}
  {da : UInt64 → Option (List Blob)}

theorem succeeds_getBlocks (celestiaHeight : UInt64) :
    (getBlocks celestia celestiaHeight).Succeeds (servedSem genesisHash da) s fun blocks s' =>
      blocks = servedBlocks celestia da celestiaHeight ∧ s' = s := by
  refine Prog.succeeds_perform_bind ?_
  rintro response s₁ ⟨rfl, hserved⟩
  split
  · exact Prog.succeeds_error
  · refine Prog.succeeds_ok ⟨?_, rfl⟩
    rw [servedBlocks, ← hserved none rfl]
    rfl
  · rename_i blobs
    refine Prog.succeeds_ok ⟨?_, rfl⟩
    rw [servedBlocks, ← hserved (some blobs) rfl]
    rfl

theorem succeeds_getBlocksAt (heights : List UInt64) :
    (getBlocksAt celestia heights).Succeeds (servedSem genesisHash da) s fun blocks s' =>
      blocks = servedAt celestia da heights ∧ s' = s := by
  induction heights with
  | nil => exact Prog.succeeds_ok ⟨rfl, rfl⟩
  | cons height heights ih =>
      refine (succeeds_getBlocks height).bind (fun e => ⟨_, rfl⟩) ?_
      rintro _ s₁ ⟨rfl, rfl⟩
      refine ih.bind (fun e => ⟨_, rfl⟩) ?_
      rintro _ s₂ ⟨rfl, rfl⟩
      exact Prog.succeeds_ok ⟨rfl, rfl⟩

theorem succeeds_fetchBlocksFromCelestia {start stop : UInt64} (hrange : ¬ stop < start) :
    (fetchBlocksFromCelestia celestia start stop).Succeeds (servedSem genesisHash da) s
      fun blocks s' => blocks = sortByHeight (servedAt celestia da
        ((List.range' start.toNat (stop.toNat - start.toNat + 1)).map UInt64.ofNat)) ∧
          s' = s := by
  unfold fetchBlocksFromCelestia getBlocksInRange
  rw [if_neg hrange]
  refine (succeeds_getBlocksAt _).bind (fun e => ⟨_, rfl⟩) ?_
  rintro _ s₁ ⟨rfl, rfl⟩
  exact Prog.succeeds_ok ⟨rfl, rfl⟩

variable (json celestia) in
/-- `init_from_celestia` with another loop over the fetched blocks. -/
def initWith (batch : BlockIndex → List (UInt64 × Block) →
    NodeProg (Except Report (UInt64 × BlockIndex))) (genesisDaHeight : UInt64) :
    NodeProg (Except Report (Option UInt64)) := do
  if genesisDaHeight = 0 then return .ok none
  else
    match Report.wrapErr CelestiaError.display "failed to open block index"
      (← BlockIndex.openIndex json) with
    | .error e => return .error e
    | .ok index =>
        match Report.context "failed to sync from Celestia" (← (do
          let currentCelestiaHeight : UInt64 ← op .finalizedHeight
          match checkSyncPreconditions index genesisDaHeight currentCelestiaHeight with
          | some height => return .ok (height, index)
          | none =>
              match ← fetchBlocksFromCelestia celestia genesisDaHeight currentCelestiaHeight with
              | .error e => return .error e
              | .ok blocks =>
                  if blocks.isEmpty then return .ok (index.latestHeight.getD 0, index)
                  else batch index blocks)) with
        | .error e => return .error e
        | .ok (syncedHeight, _) => return .ok (some syncedHeight)

theorem initWith_syncBlockBatch (genesisDaHeight : UInt64) :
    initWith json celestia (syncBlockBatch json) genesisDaHeight =
      initFromCelestia json celestia genesisDaHeight := rfl

theorem checkSyncPreconditions_eq_none (index : BlockIndex)
    {genesisDaHeight currentCelestiaHeight : UInt64} (hzero : genesisDaHeight ≠ 0) :
    checkSyncPreconditions index genesisDaHeight currentCelestiaHeight = none ↔
      ¬ currentCelestiaHeight < genesisDaHeight := by
  unfold checkSyncPreconditions
  split
  · rename_i hcurrent
    have hlow : currentCelestiaHeight < genesisDaHeight := by
      rw [hcurrent]
      exact UInt64.pos_iff_ne_zero.mpr hzero
    simp [hlow]
  · split <;> simp_all

/-- The spec of `init_from_celestia`, for a loop that goes through a part of the blocks. -/
theorem succeeds_initWith {batch : BlockIndex → List (UInt64 × Block) →
      NodeProg (Except Report (UInt64 × BlockIndex))}
    (part : List (UInt64 × Block) → List (UInt64 × Block)) (hpart : part [] = [])
    (hbatch : ∀ index blocks s, index.file = true → (batch index blocks).Succeeds nodeSem s
      fun _ s' => Synced json s (unindexed (hasHeight index) (part blocks)) s')
    (genesisDaHeight : UInt64) :
    (initWith json celestia batch genesisDaHeight).Succeeds (servedSem genesisHash da) s
      fun _ s' => Synced json s (unindexed (hasHeight (openedIndex json (indexText s)))
        (part (toSync celestia da genesisDaHeight s.tracker.finalizedHeight))) s' := by
  unfold initWith
  split
  · rename_i hzero
    rw [toSync, if_pos (.inl hzero), hpart]
    exact Prog.succeeds_ok (synced_nil rfl rfl rfl)
  · rename_i hzero
    refine succeeds_openIndex.restrict.bind (fun e => ⟨_, rfl⟩) ?_
    rintro _ s₁ ⟨rfl, rfl⟩
    refine Prog.Succeeds.bind (Q := fun _ s' => Synced json s (unindexed
      (hasHeight (openedIndex json (indexText s)))
      (part (toSync celestia da genesisDaHeight s.tracker.finalizedHeight))) s') ?_
      (fun e => ⟨_, rfl⟩) (fun r s' h => Prog.succeeds_ok h)
    refine Prog.succeeds_perform_bind ?_
    rintro currentCelestiaHeight s₂ ⟨⟨rfl, rfl⟩, -⟩
    have hskip : ∀ blocks, blocks = toSync celestia da genesisDaHeight s.tracker.finalizedHeight →
        blocks = [] → Synced json s (unindexed (hasHeight (openedIndex json (indexText s)))
          (part (toSync celestia da genesisDaHeight s.tracker.finalizedHeight)))
          { s with indexFile := some (indexText s) } := by
      rintro _ hblocks rfl
      rw [← hblocks, hpart]
      exact synced_nil rfl rfl rfl
    split
    · rename_i height hprecondition
      have hlow : s.tracker.finalizedHeight < genesisDaHeight := by
        by_contra hlow
        have hnone :=
          (checkSyncPreconditions_eq_none (openedIndex json (indexText s)) hzero).mpr hlow
        exact Option.some_ne_none height (hprecondition.symm.trans hnone)
      exact Prog.succeeds_ok (hskip _ rfl (if_pos (.inr hlow)))
    · rename_i hprecondition
      have hhigh := (checkSyncPreconditions_eq_none _ hzero).mp hprecondition
      have hblocks : toSync celestia da genesisDaHeight s.tracker.finalizedHeight = _ :=
        if_neg (not_or.mpr ⟨hzero, hhigh⟩)
      refine (succeeds_fetchBlocksFromCelestia hhigh).bind (fun e => ⟨_, rfl⟩) ?_
      rintro _ s₃ ⟨rfl, rfl⟩
      rw [← hblocks]
      simp only
      split
      · rename_i hempty
        exact Prog.succeeds_ok (hskip _ rfl (List.isEmpty_iff.mp hempty))
      · refine (hbatch _ _ _ rfl).restrict.mono ?_
        rintro _ s' hsynced
        exact ⟨hsynced.head, hsynced.executed, hsynced.index⟩

theorem acceptingNode_served (backend : Backend) (o : NodeOp) (s : NodeState) (ans : Ans o)
    (s' : NodeState) (h : acceptingNode backend o s = some (ans, s')) :
    servedSem backend.genesisHash backend.blobs o s ans s' := by
  refine ⟨acceptingNode_sound backend o s ans s' h, ?_⟩
  cases o
  case getGenesisHash =>
      cases h
      rintro _ ⟨rfl⟩
      rfl
  case fetchBlobs celestiaHeight =>
      cases h
      rintro _ ⟨rfl⟩
      rfl
  all_goals trivial

theorem succeeds_initFromCelestia (genesisDaHeight : UInt64) :
    (initFromCelestia json celestia genesisDaHeight).Succeeds (servedSem genesisHash da) s
      fun _ s' => Synced json s (unindexed (hasHeight (openedIndex json (indexText s)))
        (toSync celestia da genesisDaHeight s.tracker.finalizedHeight)) s' :=
  succeeds_initWith id rfl (fun _ blocks _ hfile => succeeds_syncBlockBatch hfile blocks)
    genesisDaHeight

end Served

def oneBlockBackend : Backend :=
  { genesisBackend with
    blobs := fun height =>
      if height = 5 then
        some [{ data := (blockCodec AlloySerde.binary).encode (chainBlock 1), commitment := [] }]
      else none }

def oneBlockFile : List Char := linesOf IndexJson.compact [(5, chainBlock 1)]

end Rkb.Sequencer.SyncPlan
