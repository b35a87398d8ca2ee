import Rkb.Sequencer.SyncEffect

namespace Rkb.Sequencer.ForeignBlobs

open Rkb.Library.Bytes
open Rkb.Library.Program
open Rkb.Types.Blocks
open Rkb.Types.Wire
open Rkb.Execution.Errors
open Rkb.Execution.Forkchoice
open Rkb.Execution.Payload
open Rkb.Celestia.Blobs
open Rkb.Celestia.Index
open Rkb.Consensus.ActorRuns
open Rkb.Consensus.FinalizedChain
open Rkb.Sequencer.Sync
open Rkb.Sequencer.SyncPlan
open Rkb.Sequencer.SyncEffect
open Rkb.Node.Effects
open Rkb.Node.Shared

section Order

variable {indexed : UInt64 → Bool} {index : BlockIndex} {b : UInt64 × Block}
  {blocks fetched fetched' : List (UInt64 × Block)}

def firstAt (blocks : List (UInt64 × Block)) (height : UInt64) : Option (UInt64 × Block) :=
  blocks.find? fun b => b.2.height == height

theorem firstAt_cons_of_eq {height : UInt64} (h : b.2.height = height) :
    firstAt (b :: blocks) height = some b :=
  List.find?_cons_of_pos (beq_iff_eq.mpr h)

theorem firstAt_cons_of_ne {height : UInt64} (h : b.2.height ≠ height) :
    firstAt (b :: blocks) height = firstAt blocks height :=
  List.find?_cons_of_neg (mt beq_iff_eq.mp h)

theorem firstAt_sortByHeight (blocks : List (UInt64 × Block)) (height : UInt64) :
    firstAt (sortByHeight blocks) height = firstAt blocks height := by
  have hinsert : ∀ (b : UInt64 × Block) (sorted : List (UInt64 × Block)),
      firstAt (sorted.orderedInsert (fun a b => a.2.height ≤ b.2.height) b) height =
        firstAt (b :: sorted) height := by
    intro b sorted
    induction sorted with
    | nil => rfl
    | cons c sorted ih =>
        rw [List.orderedInsert_cons]
        split
        · rfl
        · rename_i hlater
          by_cases hb : b.2.height = height
          · -- what stands before the new block is lower
            have hc : c.2.height ≠ height := by
              rintro rfl
              exact hlater (UInt64.le_of_eq hb)
            rw [firstAt_cons_of_ne hc, ih, firstAt_cons_of_eq hb, firstAt_cons_of_eq hb]
          · rw [firstAt_cons_of_ne hb]
            by_cases hc : c.2.height = height
            · rw [firstAt_cons_of_eq hc, firstAt_cons_of_eq hc]
            · rw [firstAt_cons_of_ne hc, firstAt_cons_of_ne hc, ih, firstAt_cons_of_ne hb]
  induction blocks with
  | nil => rfl
  | cons b blocks ih =>
      rw [sortByHeight, List.insertionSort_cons, hinsert]
      by_cases hb : b.2.height = height
      · rw [firstAt_cons_of_eq hb, firstAt_cons_of_eq hb]
      · rw [firstAt_cons_of_ne hb, firstAt_cons_of_ne hb]
        exact ih

theorem mem_unindexed_iff :
    b ∈ unindexed indexed blocks ↔
      indexed b.2.height = false ∧ firstAt blocks b.2.height = some b := by
  induction blocks generalizing indexed with
  | nil => simp [unindexed, firstAt]
  | cons c blocks ih =>
      rw [unindexed]
      by_cases hheight : c.2.height = b.2.height
      · rw [firstAt_cons_of_eq hheight]
        split
        · rename_i hindexed
          rw [hheight] at hindexed
          rw [ih, hindexed]
          simp
        · rename_i hindexed
          rw [List.mem_cons, ih, hheight, beq_self_eq_true, Bool.or_true]
          rw [hheight, Bool.not_eq_true] at hindexed
          simp [hindexed, eq_comm]
      · rw [firstAt_cons_of_ne hheight]
        split
        · exact ih
        · have hbeq : (b.2.height == c.2.height) = false :=
            beq_eq_false_iff_ne.mpr (Ne.symm hheight)
          rw [List.mem_cons, ih, hbeq, Bool.or_false]
          refine or_iff_right ?_
          rintro rfl
          exact hheight rfl

theorem mem_firstBlocks_iff :
    b ∈ firstBlocks index fetched ↔
      hasHeight index b.2.height = false ∧ firstAt fetched b.2.height = some b := by
  rw [firstBlocks, mem_unindexed_iff, firstAt_sortByHeight]

theorem pairwise_unindexed (h : blocks.Pairwise fun a b => a.2.height ≤ b.2.height) :
    (unindexed indexed blocks).Pairwise fun a b => a.2.height < b.2.height := by
  induction blocks generalizing indexed with
  | nil => exact List.Pairwise.nil
  | cons c blocks ih =>
      obtain ⟨hc, hblocks⟩ := List.pairwise_cons.mp h
      rw [unindexed]
      split
      · exact ih hblocks
      · refine List.pairwise_cons.mpr ⟨?_, ih hblocks⟩
        intro b hb
        have hne := beq_eq_false_iff_ne.mp (Bool.or_eq_false_iff.mp (not_indexed_of_mem hb)).2
        exact UInt64.lt_of_le_of_ne (hc b (unindexed_subset hb)) (Ne.symm hne)

theorem pairwise_firstBlocks :
    (firstBlocks index fetched).Pairwise fun a b => a.2.height < b.2.height := by
  have : Std.Total fun a b : UInt64 × Block => a.2.height ≤ b.2.height :=
    ⟨fun a b => UInt64.le_total _ _⟩
  have : IsTrans (UInt64 × Block) fun a b => a.2.height ≤ b.2.height :=
    ⟨fun _ _ _ => UInt64.le_trans⟩
  exact pairwise_unindexed (List.pairwise_insertionSort _ fetched)

theorem firstAt_eq_some_iff {height : UInt64} (hnew : hasHeight index height = false) :
    firstAt fetched height = some b ↔ b.2.height = height ∧ b ∈ firstBlocks index fetched := by
  rw [mem_firstBlocks_iff]
  constructor
  · intro h
    have hbeq := List.find?_some h
    obtain rfl : b.2.height = height := beq_iff_eq.mp hbeq
    exact ⟨rfl, hnew, h⟩
  · rintro ⟨rfl, -, h⟩
    exact h

theorem firstBlocks_eq_iff :
    firstBlocks index fetched' = firstBlocks index fetched ↔
      ∀ height, hasHeight index height = false →
        firstAt fetched' height = firstAt fetched height := by
  constructor
  · intro hblocks height hnew
    refine Option.ext fun b => ?_
    rw [firstAt_eq_some_iff hnew, firstAt_eq_some_iff hnew, hblocks]
  · intro h
    have : Std.Irrefl fun a b : UInt64 × Block => a.2.height < b.2.height :=
      ⟨fun a => UInt64.lt_irrefl _⟩
    have : Std.Antisymm fun a b : UInt64 × Block => a.2.height < b.2.height :=
      ⟨fun a b hab hba => absurd (UInt64.lt_trans hab hba) (UInt64.lt_irrefl _)⟩
    refine pairwise_firstBlocks.eq_of_mem_iff pairwise_firstBlocks ?_
    intro b
    rw [mem_firstBlocks_iff, mem_firstBlocks_iff]
    refine and_congr_right ?_
    intro hnew
    rw [h _ hnew]

end Order

section Payloads

variable {E : Type} {engine : Engine E} {finalized : B256} {e : E}
  {blocks blocks' : List (UInt64 × Block)}

theorem mem_payloadsOf {payload : ExecutionPayloadV3} :
    payload ∈ payloadsOf blocks ↔ ∃ b ∈ blocks, buildPayload b.2 = some payload :=
  List.mem_filterMap

theorem blockNumber_buildPayload {block : Block} {payload : ExecutionPayloadV3}
    (h : buildPayload block = some payload) :
    payload.payloadInner.payloadInner.blockNumber = block.height := by
  obtain ⟨bloom, -, hpayload⟩ := Option.bind_eq_some_iff.mp h
  cases hpayload
  rfl

theorem exists_payload_of_takeHeads (h : (takeHeads engine finalized e blocks).isSome = true) :
    ∀ b ∈ blocks, ∃ payload, buildPayload b.2 = some payload := by
  induction blocks generalizing e with
  | nil => exact fun _ hb => absurd hb List.not_mem_nil
  | cons b blocks ih =>
      rw [takeHeads_cons] at h
      obtain ⟨e', hall⟩ := Option.isSome_iff_exists.mp h
      obtain ⟨e₁, hhead, hrest⟩ := Option.bind_eq_some_iff.mp hall
      refine List.forall_mem_cons.mpr ⟨?_, ih (Option.isSome_of_eq_some hrest)⟩
      obtain ⟨payload, hpayload, -⟩ := Option.bind_eq_some_iff.mp hhead
      exact ⟨payload, hpayload⟩

def number (payload : ExecutionPayloadV3) : UInt64 := payload.payloadInner.payloadInner.blockNumber

theorem pairwise_payloadsOf (h : blocks.Pairwise fun a b => a.2.height < b.2.height) :
    (payloadsOf blocks).Pairwise fun p q => number p < number q := by
  refine h.filterMap _ ?_
  intro a b hlt p hp q hq
  rw [number, number, blockNumber_buildPayload hp, blockNumber_buildPayload hq]
  exact hlt

variable {index : BlockIndex} {fetched fetched' : List (UInt64 × Block)}

theorem eq_of_mem_firstBlocks {b c : UInt64 × Block} (hb : b ∈ firstBlocks index fetched)
    (hc : c ∈ firstBlocks index fetched) (hheight : b.2.height = c.2.height) : b = c := by
  rw [mem_firstBlocks_iff] at hb hc
  rw [hheight] at hb
  exact Option.some.inj (hb.2.symm.trans hc.2)

theorem exists_mem_firstBlocks {b : UInt64 × Block} (hb : b ∈ fetched)
    (hnew : hasHeight index b.2.height = false) :
    ∃ c ∈ firstBlocks index fetched, c.2.height = b.2.height := by
  have hfound : (firstAt fetched b.2.height).isSome = true :=
    List.find?_isSome.mpr ⟨b, hb, beq_self_eq_true _⟩
  obtain ⟨c, hc⟩ := Option.isSome_iff_exists.mp hfound
  obtain ⟨hheight, hmem⟩ := (firstAt_eq_some_iff hnew).mp hc
  exact ⟨c, hmem, hheight⟩

/-- Of what another sync sends, the payloads of the fetched blocks are those of the first
blocks exactly when it sends these. -/
theorem filter_payloadsOf_eq_iff
    (hbuilt : ∀ b ∈ firstBlocks index fetched, ∃ payload, buildPayload b.2 = some payload) :
    (payloadsOf (firstBlocks index fetched')).filter (fun p => p ∈ payloadsOf fetched) =
        payloadsOf (firstBlocks index fetched) ↔
      payloadsOf (firstBlocks index fetched) ⊆ payloadsOf (firstBlocks index fetched') := by
  constructor
  · intro h p hp
    rw [← h] at hp
    exact (List.mem_filter.mp hp).1
  · intro hsubset
    have : Std.Irrefl fun p q => number p < number q := ⟨fun p => UInt64.lt_irrefl _⟩
    have : Std.Antisymm fun p q => number p < number q :=
      ⟨fun p q hpq hqp => absurd (UInt64.lt_trans hpq hqp) (UInt64.lt_irrefl _)⟩
    refine ((pairwise_payloadsOf pairwise_firstBlocks).filter _).eq_of_mem_iff
      (pairwise_payloadsOf pairwise_firstBlocks) ?_
    intro p
    rw [List.mem_filter, decide_eq_true_iff]
    constructor
    · rintro ⟨hsent, hfetched⟩
      obtain ⟨b', hb', hp'⟩ := mem_payloadsOf.mp hsent
      obtain ⟨b, hb, hp⟩ := mem_payloadsOf.mp hfetched
      have hheight : b'.2.height = b.2.height :=
        (blockNumber_buildPayload hp').symm.trans (blockNumber_buildPayload hp)
      have hnew : hasHeight index b.2.height = false := hheight ▸ (mem_firstBlocks_iff.mp hb').1
      obtain ⟨c, hc, hcheight⟩ := exists_mem_firstBlocks hb hnew
      obtain ⟨q, hq⟩ := hbuilt c hc
      have hqmem : q ∈ payloadsOf (firstBlocks index fetched) := mem_payloadsOf.mpr ⟨c, hc, hq⟩
      -- the other sync sends `q` as well, and it has one block for each height
      obtain ⟨d, hd, hqd⟩ := mem_payloadsOf.mp (hsubset hqmem)
      have hdheight : d.2.height = b'.2.height := by
        rw [hheight, ← hcheight, ← blockNumber_buildPayload hqd, blockNumber_buildPayload hq]
      rw [eq_of_mem_firstBlocks hd hb' hdheight, hp'] at hqd
      cases hqd
      exact hqmem
    · intro hp
      refine ⟨hsubset hp, ?_⟩
      obtain ⟨b, hb, hbp⟩ := mem_payloadsOf.mp hp
      have hfetched : b ∈ fetched := by
        rw [firstBlocks] at hb
        exact (List.mem_insertionSort _).mp (unindexed_subset hb)
      exact mem_payloadsOf.mpr ⟨b, hfetched, hbp⟩

theorem eq_nil_of_payloadsOf_subset
    (hbuilt : ∀ b ∈ blocks, ∃ payload, buildPayload b.2 = some payload)
    (hsubset : payloadsOf blocks ⊆ payloadsOf []) : blocks = [] := by
  refine List.eq_nil_iff_forall_not_mem.mpr ?_
  intro b hb
  obtain ⟨payload, hpayload⟩ := hbuilt b hb
  exact List.not_mem_nil (hsubset (mem_payloadsOf.mpr ⟨b, hb, hpayload⟩))

theorem headAfter_eq_headAfter_iff {head : B256} (hnil : blocks' = [] → blocks = []) :
    headAfter head blocks' = headAfter head blocks ↔
      ∀ b ∈ blocks'.getLast?, b.2.blockHash = headAfter head blocks := by
  obtain rfl | ⟨xs, b, rfl⟩ := blocks'.eq_nil_or_concat'
  · rw [hnil rfl]
    simp
  · rw [headAfter_append, List.getLast?_concat]
    simp [headAfter]

end Payloads

section TwoSyncs

variable {E : Type} {json : IndexJson} {celestia : CelestiaClient} {engine : Engine E}
  {da : UInt64 → Option (List Blob)} {index : BlockIndex} {genesisDaHeight : UInt64}
  {s s₁ : NodeState} {e e₁ : E} {tr : List NodeEvent} {r : UInt64 × BlockIndex}

/-- The blocks `fetched'` do not disturb a sync of the blocks `fetched`. -/
structure Undisturbed (engine : Engine E) (forkchoice : ForkchoiceState) (e : E)
    (index : BlockIndex) (fetched fetched' : List (UInt64 × Block)) : Prop where
  /-- Reth takes the first block of each new height, in the order of their heights. -/
  accepted : (takeHeads engine forkchoice.finalized e (firstBlocks index fetched')).isSome = true
  /-- No first block has been displaced by one with another payload. -/
  kept : payloadsOf (firstBlocks index fetched) ⊆ payloadsOf (firstBlocks index fetched')
  /-- No block with another hash is above them. -/
  tip : ∀ b ∈ (firstBlocks index fetched').getLast?,
    b.2.blockHash = headAfter forkchoice.head (firstBlocks index fetched)

/-- A sync of other blobs ends like this one exactly when they leave the first block of
each new height in its place, add none above, and reth takes what they add. -/
theorem syncs_alike_iff_undisturbed (da' : UInt64 → Option (List Blob))
    (hrun : (syncFromCelestia json celestia index genesisDaHeight).run (syncNode engine da) (s, e) =
      some (tr, .ok r, s₁, e₁)) :
    (∃ tr' r' s₁' e₁', (syncFromCelestia json celestia index genesisDaHeight).run
          (syncNode engine da') (s, e) = some (tr', .ok r', s₁', e₁') ∧
        (sent tr').filter (fun p => p ∈ payloadsOf
          (fetchedBlocks celestia da genesisDaHeight s.tracker.finalizedHeight)) = sent tr ∧
        s₁'.forkchoice.head = s₁.forkchoice.head) ↔
      Undisturbed engine s.forkchoice e index
        (fetchedBlocks celestia da genesisDaHeight s.tracker.finalizedHeight)
        (fetchedBlocks celestia da' genesisDaHeight s.tracker.finalizedHeight) := by
  obtain ⟨htaken, hsent, rfl⟩ := exists_run_syncFromCelestia_iff.mp ⟨tr, r, hrun, rfl⟩
  rw [← hsent]
  generalize fetchedBlocks celestia da genesisDaHeight s.tracker.finalizedHeight = fetched at *
  have hbuilt := exists_payload_of_takeHeads (Option.isSome_of_eq_some htaken)
  constructor
  · rintro ⟨tr', r', s₁', e₁', hrun', hsame, hhead⟩
    obtain ⟨htaken', hsent', rfl⟩ := exists_run_syncFromCelestia_iff.mp ⟨tr', r', hrun', rfl⟩
    rw [← hsent', filter_payloadsOf_eq_iff hbuilt] at hsame
    rw [head_foldl_afterBlock, head_foldl_afterBlock] at hhead
    refine ⟨Option.isSome_of_eq_some htaken', hsame, ?_⟩
    refine (headAfter_eq_headAfter_iff ?_).mp hhead
    intro hnil
    rw [hnil] at hsame
    exact eq_nil_of_payloadsOf_subset hbuilt hsame
  · intro h
    obtain ⟨e₁', htaken'⟩ := Option.isSome_iff_exists.mp h.accepted
    obtain ⟨tr', r', hrun', hsent'⟩ := exists_run_syncFromCelestia_iff.mpr ⟨htaken', rfl, rfl⟩
    refine ⟨tr', r', _, e₁', hrun', ?_, ?_⟩
    · rw [hsent']
      exact (filter_payloadsOf_eq_iff hbuilt).mpr h.kept
    · rw [head_foldl_afterBlock, head_foldl_afterBlock]
      refine (headAfter_eq_headAfter_iff ?_).mpr h.tip
      intro hnil
      have hkept := h.kept
      rw [hnil] at hkept
      exact eq_nil_of_payloadsOf_subset hbuilt hkept

/-- Foreign blobs that come first at no new height, or do not decode, change nothing. -/
theorem undisturbed_of_firstAt_eq {forkchoice : ForkchoiceState}
    {fetched fetched' : List (UInt64 × Block)}
    (htaken : (takeHeads engine forkchoice.finalized e (firstBlocks index fetched)).isSome = true)
    (h : ∀ height, hasHeight index height = false →
      firstAt fetched' height = firstAt fetched height) :
    Undisturbed engine forkchoice e index fetched fetched' := by
  have hblocks := firstBlocks_eq_iff.mpr h
  refine ⟨?_, ?_, ?_⟩
  · rw [hblocks]
    exact htaken
  · rw [hblocks]
    exact List.Subset.refl _
  · rw [hblocks]
    exact (headAfter_eq_headAfter_iff id).mp rfl

end TwoSyncs

section Example

/-- The blobs of `da'` are those of `da`, with others between them. -/
def Inserted (da da' : UInt64 → Option (List Blob)) : Prop :=
  ∀ celestiaHeight, ((da celestiaHeight).getD []).Sublist ((da' celestiaHeight).getD [])

def rejecting (blockHash : B256) : Engine Unit where
  newPayload _ payload :=
    if payload.payloadInner.payloadInner.blockHash = blockHash then
      (.answer ⟨.invalid "block hash mismatch", none⟩, ())
    else (.answer ⟨.valid, none⟩, ())
  forkchoiceUpdated _ _ := (.answer ⟨⟨.valid, none⟩, none⟩, ())

def foreignBlock : Block :=
  { chainBlock 1 with blockHash := FixedBytes.repeatByte 9 }

def blobOf (block : Block) : Blob where
  data := (blockCodec AlloySerde.binary).encode block
  commitment := []

def blobsAtFive (blobs : List Blob) (celestiaHeight : UInt64) : Option (List Blob) :=
  if celestiaHeight = 5 then some blobs else none

def syncToFive : NodeProg (Except Report (UInt64 × BlockIndex)) :=
  syncFromCelestia IndexJson.compact digestClient BlockIndex.new 5

def nodeAtFive : NodeState :=
  { NodeState.initialized FixedBytes.zero none with tracker := ⟨∅, 5⟩ }

/-- A blob that does not decode, in front, and a foreign block behind that of the validators. -/
theorem syncs_alike_iff_undisturbed_behind :
    ∃ s₁ s₁' : NodeState, s₁.forkchoice.head = (chainBlock 1).blockHash ∧
      s₁'.forkchoice.head = s₁.forkchoice.head := by
  obtain ⟨tr, r, ⟨s₁, e₁⟩, hrun, hhead⟩ := Prog.exists_run_of_check
    (syncNode (rejecting foreignBlock.blockHash) (blobsAtFive [blobOf (chainBlock 1)]))
    syncToFive (nodeAtFive, ())
    (fun s => decide (s.1.forkchoice.head = (chainBlock 1).blockHash)) (by decide +kernel)
  obtain ⟨tr', r', s₁', e₁', -, -, hsame⟩ := (syncs_alike_iff_undisturbed
    (blobsAtFive [⟨[255], []⟩, blobOf (chainBlock 1), blobOf foreignBlock]) hrun).mpr
    ⟨by decide +kernel, by decide +kernel, by decide +kernel⟩
  exact ⟨s₁, s₁', of_decide_eq_true hhead, hsame⟩

theorem foreignBlock_stops_sync :
    ¬ ∀ (E : Type) (engine : Engine E) (json : IndexJson) (celestia : CelestiaClient)
      (da da' : UInt64 → Option (List Blob)) (index : BlockIndex) (genesisDaHeight : UInt64)
      (s s₁ : NodeState) (e e₁ : E) (tr : List NodeEvent) (r : UInt64 × BlockIndex),
      Inserted da da' →
      (syncFromCelestia json celestia index genesisDaHeight).run (syncNode engine da) (s, e) =
        some (tr, .ok r, s₁, e₁) →
      ∃ tr' r' s₁' e₁', (syncFromCelestia json celestia index genesisDaHeight).run
          (syncNode engine da') (s, e) = some (tr', .ok r', s₁', e₁') ∧
        (sent tr').filter (fun p => p ∈ payloadsOf
          (fetchedBlocks celestia da genesisDaHeight s.tracker.finalizedHeight)) = sent tr ∧
        s₁'.forkchoice.head = s₁.forkchoice.head := by
  intro hclaim
  obtain ⟨tr, r, ⟨s₁, e₁⟩, hrun, -⟩ := Prog.exists_run_of_check
    (syncNode (rejecting foreignBlock.blockHash) (blobsAtFive [blobOf (chainBlock 1)]))
    syncToFive (nodeAtFive, ()) (fun _ => true) (by decide +kernel)
  have hinserted : Inserted (blobsAtFive [blobOf (chainBlock 1)])
      (blobsAtFive [blobOf foreignBlock, blobOf (chainBlock 1)]) := by
    intro celestiaHeight
    unfold blobsAtFive
    split
    · exact List.sublist_cons_self _ _
    · exact List.Sublist.refl _
  obtain ⟨tr', r', s₁', e₁', hrun', -⟩ := hclaim _ _ _ _ _ _ _ _ _ _ _ _ _ _ hinserted hrun
  have hfails : (syncToFive.run (syncNode (rejecting foreignBlock.blockHash)
      (blobsAtFive [blobOf foreignBlock, blobOf (chainBlock 1)])) (nodeAtFive, ())).all
        (fun r => !r.2.1.isOk) = true := by decide +kernel
  rw [syncToFive, hrun'] at hfails
  cases hfails

end Example

end Rkb.Sequencer.ForeignBlobs
