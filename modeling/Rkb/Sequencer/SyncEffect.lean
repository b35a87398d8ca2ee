import Rkb.Consensus.FinalizedChain
import Rkb.Sequencer.SyncPlan

namespace Rkb.Sequencer.SyncEffect

open Rkb.Library.Program
open Rkb.Types.Blocks
open Rkb.Execution.Forkchoice
open Rkb.Execution.Payload
open Rkb.Execution.Client
open Rkb.Celestia.Blobs
open Rkb.Celestia.Client
open Rkb.Celestia.Index
open Rkb.Consensus.FinalizedChain
open Rkb.Sequencer.Sync
open Rkb.Sequencer.SyncPlan
open Rkb.Node.Effects
open Rkb.Node.Shared

/-- A reth whose answers are determined by the requests it has had. -/
structure Engine (E : Type) where
  newPayload : E → ExecutionPayloadV3 → RpcAnswer PayloadStatus × E
  forkchoiceUpdated : E → EngineForkchoiceState → RpcAnswer ForkchoiceUpdated × E

variable {E : Type}

/-- A node with this reth, on a Celestia that serves these blobs. -/
def syncNode (engine : Engine E) (da : UInt64 → Option (List Blob)) :
    Prog.Env NodeOp Ans (NodeState × E)
  | .newPayload p v r, (s, e) =>
      some (((engine.newPayload e p).1 : Ans (.newPayload p v r)), s, (engine.newPayload e p).2)
  | .forkchoiceUpdated f a, (s, e) =>
      some (((engine.forkchoiceUpdated e f).1 : Ans (.forkchoiceUpdated f a)), s,
        (engine.forkchoiceUpdated e f).2)
  | o, (s, e) =>
      (acceptingNode { genesisBackend with blobs := da } o s).map fun r => (r.1, r.2, e)

/-- The answers on which `execute_sync_block` goes on to the forkchoice. -/
def validated : RpcAnswer PayloadStatus → Bool
  | .answer response =>
      match response.status with
      | .valid => true
      | _ => false
  | _ => false

/-- The state of reth once it has taken the block as its new head; `none` where it
does not. -/
def takeHead (engine : Engine E) (finalized : B256) (e : E) (block : Block) : Option E :=
  (buildPayload block).bind fun payload =>
    let response := engine.newPayload e payload
    let updated :=
      engine.forkchoiceUpdated response.2 ⟨block.blockHash, block.blockHash, finalized⟩
    bif validated response.1 && accepted updated.1 then some updated.2 else none

def takeHeads (engine : Engine E) (finalized : B256) (e : E) (blocks : List (UInt64 × Block)) :
    Option E :=
  blocks.foldlM (fun e b => takeHead engine finalized e b.2) e

def payloadsOf (blocks : List (UInt64 × Block)) : List ExecutionPayloadV3 :=
  blocks.filterMap fun b => buildPayload b.2

/-- The node's state after it has synced the block; `file` tells whether the index
writes to its file. -/
def afterBlock (json : IndexJson) (file : Bool) (s : NodeState) (b : UInt64 × Block) :
    NodeState :=
  { s with
    forkchoice := s.forkchoice.withSoft b.2.blockHash
    cached := s.forkchoice.withSoft b.2.blockHash
    executed := insert b.2.blockHash s.executed
    indexFile :=
      if file then some (s.indexFile.getD [] ++ lineOf json (syncEntry b.2 b.1)) else s.indexFile }

/-- The blocks that `sync_from_celestia` fetches; none where it is skipped. -/
def fetchedBlocks (celestia : CelestiaClient) (da : UInt64 → Option (List Blob))
    (genesisDaHeight currentCelestiaHeight : UInt64) : List (UInt64 × Block) :=
  if currentCelestiaHeight = 0 ∨ currentCelestiaHeight < genesisDaHeight then []
  else servedAt celestia da ((List.range' genesisDaHeight.toNat
    (currentCelestiaHeight.toNat - genesisDaHeight.toNat + 1)).map UInt64.ofNat)

/-- The blocks that the loop executes of those fetched. -/
def firstBlocks (index : BlockIndex) (fetched : List (UInt64 × Block)) :
    List (UInt64 × Block) :=
  unindexed (hasHeight index) (sortByHeight fetched)

section Effects

variable {ε ε' α β : Type} {engine : Engine E} {da : UInt64 → Option (List Blob)}
  {s : NodeState} {e : E}

/-- What a program that succeeds has sent to reth, what it returns, and the state it
leaves; `none` where it fails or panics. -/
def effect (engine : Engine E) (da : UInt64 → Option (List Blob))
    (p : NodeProg (Except ε α)) (s : NodeState) (e : E) :
    Option (List ExecutionPayloadV3 × α × NodeState × E) :=
  (p.run (syncNode engine da) (s, e)).bind fun r =>
    match r.2.1 with
    | .ok a => some (sent r.1, a, r.2.2)
    | .error _ => none

theorem effect_eq_some {p : NodeProg (Except ε α)} {payloads : List ExecutionPayloadV3} {a : α}
    {s' : NodeState} {e' : E} :
    effect engine da p s e = some (payloads, a, s', e') ↔
      ∃ tr, p.run (syncNode engine da) (s, e) = some (tr, .ok a, s', e') ∧ sent tr = payloads := by
  unfold effect
  constructor
  · intro h
    obtain ⟨⟨tr, r, s₁, e₁⟩, hrun, hr⟩ := Option.bind_eq_some_iff.mp h
    cases r with
    | error err => cases hr
    | ok a =>
        cases hr
        exact ⟨tr, hrun, rfl⟩
  · rintro ⟨tr, hrun, rfl⟩
    rw [hrun]
    rfl

theorem effect_op {o : NodeOp} {k : Ans o → NodeProg (Except ε α)} {ans : Ans o}
    {s₁ : NodeState} {e₁ : E} (hsent : sentOf o = none)
    (h : syncNode engine da o (s, e) = some (ans, s₁, e₁)) :
    effect engine da (.op o k) s e = effect engine da (k ans) s₁ e₁ := by
  have hcons : ∀ tr, sent (⟨o, ans⟩ :: tr) = sent tr := by
    intro tr
    exact List.filterMap_cons_none hsent
  unfold effect
  rw [Prog.run, h]
  simp only [Option.bind_map, Function.comp_def, hcons]

theorem effect_newPayload (payload : ExecutionPayloadV3) (versionedHashes : List B256)
    (root : B256)
    (k : Ans (.newPayload payload versionedHashes root) → NodeProg (Except ε α)) :
    effect engine da (.op (.newPayload payload versionedHashes root) k) s e =
      (effect engine da (k (engine.newPayload e payload).1) s
        (engine.newPayload e payload).2).map fun q => (payload :: q.1, q.2) := by
  unfold effect
  rw [Prog.run, syncNode]
  simp only [Option.bind_map, Option.map_bind, Function.comp_def]
  congr 1
  funext q
  obtain ⟨tr, r, s', e'⟩ := q
  cases r <;> rfl

theorem effect_bind {p : NodeProg (Except ε α)} {f : Except ε α → NodeProg (Except ε' β)}
    (herror : ∀ err, ∃ err', f (.error err) = Prog.pure (.error err')) :
    effect engine da (p >>= f) s e = (effect engine da p s e).bind fun q =>
      (effect engine da (f (.ok q.2.1)) q.2.2.1 q.2.2.2).map fun q' =>
        (q.1 ++ q'.1, q'.2) := by
  unfold effect
  rw [Prog.run_bind, Option.bind_assoc, Option.bind_assoc]
  congr 1
  funext q
  obtain ⟨tr, r, s', e'⟩ := q
  cases r with
  | error err =>
      obtain ⟨err', hf⟩ := herror err
      simp only [hf]
      rfl
  | ok a =>
      simp only [Option.bind_map, Option.bind_some, Option.map_bind, Function.comp_def]
      congr 1
      funext q
      obtain ⟨tr', r', s₂, e₂⟩ := q
      cases r' with
      | error err => rfl
      | ok b =>
          simp only [Option.map_some, sent_append]

end Effects

section Sync

variable {engine : Engine E} {da : UInt64 → Option (List Blob)} {s : NodeState} {e : E}

theorem effect_checkParentContinuity_bind {ε α : Type} (block : Block) (expectedParent : B256)
    (f : Unit → NodeProg (Except ε α)) :
    effect engine da (checkParentContinuity block expectedParent >>= f) s e =
      effect engine da (f ()) s e := by
  unfold checkParentContinuity
  split
  · rfl
  · split
    · exact effect_op rfl rfl
    · rfl

theorem effect_updateForkchoice (f : ForkchoiceState) :
    effect engine da (updateForkchoice f) s e =
      bif accepted (engine.forkchoiceUpdated e ⟨f.head, f.safe, f.finalized⟩).1 then
        some ([], (), { s with cached := f },
          (engine.forkchoiceUpdated e ⟨f.head, f.safe, f.finalized⟩).2)
      else none := by
  unfold updateForkchoice
  refine (effect_op (o := .forkchoiceUpdated _ none) rfl rfl).trans ?_
  obtain ⟨response, e₁⟩ := engine.forkchoiceUpdated e ⟨f.head, f.safe, f.finalized⟩
  cases response with
  | clientError reason => rfl
  | requestError err => rfl
  | answer updated =>
      obtain ⟨⟨status, hash⟩, payloadId⟩ := updated
      cases status <;> rfl

theorem effect_executeSyncBlock (block : Block) (blockHeight : UInt64) :
    effect engine da (executeSyncBlock block block.blockHash blockHeight) s e =
      (takeHead engine s.forkchoice.finalized e block).map fun e' =>
        ((buildPayload block).toList, (), { s with
          forkchoice := s.forkchoice.withSoft block.blockHash
          cached := s.forkchoice.withSoft block.blockHash }, e') := by
  unfold executeSyncBlock executeBlock requestNewPayload takeHead
  cases hbuilt : buildPayload block with
  | none => rfl
  | some payload =>
      refine (effect_newPayload payload _ _ _).trans ?_
      rw [Option.bind_some]
      obtain ⟨response, e₁⟩ := engine.newPayload e payload
      cases response with
      | clientError reason => rfl
      | requestError err => rfl
      | answer response =>
          obtain ⟨status, hash⟩ := response
          cases status with
          | invalid reason => rfl
          | syncing => rfl
          | accepted => rfl
          | valid =>
              refine (congrArg (Option.map _) (effect_op (o := .readForkchoice) rfl rfl)).trans ?_
              refine (congrArg (Option.map _) (effect_bind (p := updateForkchoice _) ?_)).trans ?_
              · exact fun err => ⟨_, rfl⟩
              · rw [effect_updateForkchoice]
                simp only [validated, Bool.true_and, ForkchoiceState.withSoft]
                generalize engine.forkchoiceUpdated e₁ _ = updated
                cases accepted updated.1 <;> rfl

variable {json : IndexJson} {index : BlockIndex}

theorem effect_insert (entry : IndexEntry) :
    effect engine da (index.insert json entry) s e =
      some ([], index.record entry,
        { s with
          indexFile :=
            if index.file then some (s.indexFile.getD [] ++ lineOf json entry)
            else s.indexFile }, e) := by
  obtain ⟨text, htext, -⟩ := json.roundTrip entry
  unfold BlockIndex.insert lineOf
  simp only [htext]
  split
  · exact effect_op (o := .appendIndexFile _) rfl rfl
  · rfl

theorem effect_syncSingleBlock (block : Block) (celestiaHeight : UInt64) (expectedParent : B256) :
    effect engine da (syncSingleBlock json index block celestiaHeight expectedParent) s e =
      (takeHead engine s.forkchoice.finalized e block).map fun e' =>
        ((buildPayload block).toList,
          (block.blockHash, index.record (syncEntry block celestiaHeight)),
          afterBlock json index.file s (celestiaHeight, block), e') := by
  unfold syncSingleBlock
  rw [effect_checkParentContinuity_bind]
  refine (effect_bind (p := executeSyncBlock block block.blockHash block.height) ?_).trans ?_
  · exact fun err => ⟨_, rfl⟩
  · rw [effect_executeSyncBlock, Option.bind_map, Option.map_eq_bind]
    congr 1
    funext e'
    refine (congrArg (Option.map _) (effect_op (o := .insertExecuted _) rfl rfl)).trans ?_
    refine (congrArg (Option.map _) (effect_bind (p := index.insert json _) ?_)).trans ?_
    · exact fun err => ⟨_, rfl⟩
    · rw [effect_insert]
      exact congrArg some (Prod.ext (List.append_nil _) rfl)

theorem takeHeads_cons (finalized : B256) (b : UInt64 × Block) (blocks : List (UInt64 × Block)) :
    takeHeads engine finalized e (b :: blocks) =
      (takeHead engine finalized e b.2).bind fun e₁ => takeHeads engine finalized e₁ blocks :=
  List.foldlM_cons

theorem payloadsOf_cons (b : UInt64 × Block) (blocks : List (UInt64 × Block)) :
    payloadsOf (b :: blocks) = (buildPayload b.2).toList ++ payloadsOf blocks := by
  unfold payloadsOf
  rw [List.filterMap_cons]
  cases buildPayload b.2 <;> rfl

theorem effect_syncBlocks (parentHash : B256) (lastSyncedHeight : UInt64)
    (blocks : List (UInt64 × Block)) :
    (effect engine da (syncBlocks json index parentHash lastSyncedHeight blocks) s e).map
        (fun q => (q.1, q.2.2)) =
      (takeHeads engine s.forkchoice.finalized e (unindexed (hasHeight index) blocks)).map
        fun e' => (payloadsOf (unindexed (hasHeight index) blocks),
          (unindexed (hasHeight index) blocks).foldl (afterBlock json index.file) s, e') := by
  induction blocks generalizing index parentHash lastSyncedHeight s e with
  | nil => rfl
  | cons b blocks ih =>
      obtain ⟨celestiaHeight, block⟩ := b
      rw [syncBlocks, unindexed]
      by_cases hindexed : hasHeight index block.height = true
      · have hget : (index.getByHeight block.height).isSome = true := hindexed
        simp only [hindexed, hget, if_true]
        exact ih _ _
      · have hget : ¬ (index.getByHeight block.height).isSome = true := hindexed
        rw [if_neg hget, if_neg hindexed, takeHeads_cons, payloadsOf_cons]
        have hsingle := @effect_syncSingleBlock E engine da s e json index block celestiaHeight
          parentHash
        refine (congrArg (Option.map _) (effect_bind (p := syncSingleBlock _ _ _ _ _) ?_)).trans ?_
        · exact fun err => ⟨_, rfl⟩
        · rw [hsingle, Option.bind_map, Option.map_bind, Option.map_bind]
          congr 1
          funext e₁
          have hrest := @ih (afterBlock json index.file s (celestiaHeight, block)) e₁
            (index.record (syncEntry block celestiaHeight)) block.blockHash block.height
          rw [hasHeight_record] at hrest
          have hrest' :=
            congrArg (Option.map fun q => ((buildPayload block).toList ++ q.1, q.2)) hrest
          rw [Option.map_map, Option.map_map] at hrest'
          exact (Option.map_map _ _ _).trans hrest'

theorem effect_syncBlockBatch (blocks : List (UInt64 × Block)) :
    (effect engine da (syncBlockBatch json index blocks) s e).map (fun q => (q.1, q.2.2)) =
      (takeHeads engine s.forkchoice.finalized e (unindexed (hasHeight index) blocks)).map
        fun e' => (payloadsOf (unindexed (hasHeight index) blocks),
          (unindexed (hasHeight index) blocks).foldl (afterBlock json index.file) s, e') := by
  refine (congrArg (Option.map _) (effect_op (o := .readForkchoice) rfl rfl)).trans ?_
  exact effect_syncBlocks s.forkchoice.head (index.latestHeight.getD 0) blocks

variable {celestia : CelestiaClient}

theorem effect_getBlocks (celestiaHeight : UInt64) :
    effect engine da (getBlocks celestia celestiaHeight) s e =
      some ([], servedBlocks celestia da celestiaHeight, s, e) := by
  have hserved : syncNode engine da (.fetchBlobs celestiaHeight) (s, e) =
      some ((.ok (da celestiaHeight) : Ans (.fetchBlobs celestiaHeight)), s, e) := rfl
  refine (effect_op rfl hserved).trans ?_
  unfold servedBlocks
  cases da celestiaHeight <;> rfl

theorem effect_getBlocksAt (heights : List UInt64) :
    effect engine da (getBlocksAt celestia heights) s e =
      some ([], servedAt celestia da heights, s, e) := by
  induction heights with
  | nil => rfl
  | cons height heights ih =>
      rw [getBlocksAt]
      refine (effect_bind (p := getBlocks celestia height) ?_).trans ?_
      · exact fun err => ⟨_, rfl⟩
      · rw [effect_getBlocks, Option.bind_some]
        refine (congrArg (Option.map _) (effect_bind (p := getBlocksAt _ _) ?_)).trans ?_
        · exact fun err => ⟨_, rfl⟩
        · rw [ih]
          rfl

theorem effect_fetchBlocksFromCelestia {start stop : UInt64} (hrange : ¬ stop < start) :
    effect engine da (fetchBlocksFromCelestia celestia start stop) s e =
      some ([], sortByHeight (servedAt celestia da
        ((List.range' start.toNat (stop.toNat - start.toNat + 1)).map UInt64.ofNat)), s, e) := by
  unfold fetchBlocksFromCelestia getBlocksInRange
  rw [if_neg hrange]
  refine (effect_bind (p := getBlocksAt celestia _) ?_).trans ?_
  · exact fun err => ⟨_, rfl⟩
  · rw [effect_getBlocksAt]
    rfl

theorem isSome_checkSyncPreconditions (index : BlockIndex)
    {genesisDaHeight currentCelestiaHeight : UInt64} :
    (checkSyncPreconditions index genesisDaHeight currentCelestiaHeight).isSome = true ↔
      currentCelestiaHeight = 0 ∨ currentCelestiaHeight < genesisDaHeight := by
  unfold checkSyncPreconditions
  split
  · simp_all
  · split <;> simp_all

/-- The spec of `sync_from_celestia`: it makes a head of the first block of each height
that the index does not have, in the order of their heights. -/
theorem effect_syncFromCelestia (genesisDaHeight : UInt64) :
    (effect engine da (syncFromCelestia json celestia index genesisDaHeight) s e).map
        (fun q => (q.1, q.2.2)) =
      (takeHeads engine s.forkchoice.finalized e (firstBlocks index
        (fetchedBlocks celestia da genesisDaHeight s.tracker.finalizedHeight))).map
        fun e' => (payloadsOf (firstBlocks index
          (fetchedBlocks celestia da genesisDaHeight s.tracker.finalizedHeight)),
          (firstBlocks index
            (fetchedBlocks celestia da genesisDaHeight s.tracker.finalizedHeight)).foldl
              (afterBlock json index.file) s, e') := by
  refine (congrArg (Option.map _) (effect_op (o := .finalizedHeight) rfl rfl)).trans ?_
  unfold fetchedBlocks
  simp only [Prog.bind]
  by_cases hskip : s.tracker.finalizedHeight = 0 ∨ s.tracker.finalizedHeight < genesisDaHeight
  · obtain ⟨height, hheight⟩ := Option.isSome_iff_exists.mp
      ((isSome_checkSyncPreconditions index).mpr hskip)
    rw [if_pos hskip, hheight]
    rfl
  · have hnone : checkSyncPreconditions index genesisDaHeight s.tracker.finalizedHeight = none :=
      Option.not_isSome_iff_eq_none.mp (mt (isSome_checkSyncPreconditions index).mp hskip)
    rw [if_neg hskip, hnone]
    refine (congrArg (Option.map _)
      (effect_bind (p := fetchBlocksFromCelestia celestia genesisDaHeight _) ?_)).trans ?_
    · exact fun err => ⟨_, rfl⟩
    · rw [effect_fetchBlocksFromCelestia (not_or.mp hskip).2, firstBlocks, Option.bind_some]
      generalize sortByHeight _ = blocks
      cases blocks with
      | nil => rfl
      | cons b blocks => exact (Option.map_map _ _ _).trans (effect_syncBlockBatch (b :: blocks))

theorem head_foldl_afterBlock (file : Bool) (blocks : List (UInt64 × Block)) :
    (blocks.foldl (afterBlock json file) s).forkchoice.head =
      headAfter s.forkchoice.head blocks := by
  induction blocks generalizing s with
  | nil => rfl
  | cons b blocks ih => exact ih

theorem exists_run_syncFromCelestia_iff {genesisDaHeight : UInt64}
    {payloads : List ExecutionPayloadV3} {s' : NodeState} {e' : E} :
    (∃ tr r, (syncFromCelestia json celestia index genesisDaHeight).run (syncNode engine da)
        (s, e) = some (tr, .ok r, s', e') ∧ sent tr = payloads) ↔
      takeHeads engine s.forkchoice.finalized e (firstBlocks index
          (fetchedBlocks celestia da genesisDaHeight s.tracker.finalizedHeight)) = some e' ∧
        payloadsOf (firstBlocks index
          (fetchedBlocks celestia da genesisDaHeight s.tracker.finalizedHeight)) = payloads ∧
        (firstBlocks index (fetchedBlocks celestia da genesisDaHeight
          s.tracker.finalizedHeight)).foldl (afterBlock json index.file) s = s' := by
  have hspec := @effect_syncFromCelestia E engine da s e json index celestia genesisDaHeight
  constructor
  · rintro ⟨tr, r, hrun, hsent⟩
    rw [effect_eq_some.mpr ⟨tr, hrun, hsent⟩] at hspec
    obtain ⟨e₁, htaken, heq⟩ := Option.map_eq_some_iff.mp hspec.symm
    cases heq
    exact ⟨htaken, rfl, rfl⟩
  · rintro ⟨htaken, rfl, rfl⟩
    rw [htaken] at hspec
    obtain ⟨⟨payloads, r, s₁, e₁⟩, heffect, heq⟩ := Option.map_eq_some_iff.mp hspec
    cases heq
    obtain ⟨tr, hrun, hsent⟩ := effect_eq_some.mp heffect
    exact ⟨tr, r, hrun, hsent⟩

end Sync

end Rkb.Sequencer.SyncEffect
