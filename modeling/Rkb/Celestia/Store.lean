import Rkb.Library.Groups
import Rkb.Library.Runs
import Rkb.Celestia.Client
import Rkb.Consensus.ActorRuns

/-!
Celestia as a store of blocks. Its chain only grows, others write to the namespace as
well, and a submission that fails may be included all the same. What was submitted with
success is found again, in its order.
-/

namespace Rkb.Celestia.Store

open Rkb.Library.Groups
open Rkb.Library.Program
open Rkb.Library.Runs
open Rkb.Types.Blocks
open Rkb.Types.Wire
open Rkb.Execution.Errors
open Rkb.Celestia.Blobs
open Rkb.Celestia.Client
open Rkb.Node.Effects

structure CelestiaChain where
  head : UInt64
  blobs : UInt64 → List Blob

/-- The blocks up to the head stay as they are. -/
def Extends (chain chain' : CelestiaChain) : Prop :=
  chain.head ≤ chain'.head ∧
    ∀ celestiaHeight ≤ chain.head, chain'.blobs celestiaHeight = chain.blobs celestiaHeight

/-- What the client relies on: the blobs of a submission that succeeds are included in
their order in a new block, and a block is served as it is. -/
def celestiaSem : Sem NodeOp Ans CelestiaChain
  | .submitBlobs blobs, chain, ans, chain' => Extends chain chain' ∧
      ∀ celestiaHeight, ans = .ok celestiaHeight → chain.head < celestiaHeight ∧
        celestiaHeight ≤ chain'.head ∧ blobs.Sublist (chain'.blobs celestiaHeight)
  | .fetchBlobs celestiaHeight, chain, ans, chain' => Extends chain chain' ∧
      ∀ found, ans = .ok found → celestiaHeight ≤ chain.head →
        found.getD [] = chain.blobs celestiaHeight
  | _, chain, _, chain' => Extends chain chain'

/-- The blob library keeps the data that it is given. -/
def KeepsData (celestia : CelestiaClient) : Prop :=
  ∀ data address blob, celestia.newBlob data address = .ok blob → blob.data = data

inductive StoreLabel
  | batch (blocks : List Block) (result : Except CelestiaError (List BlobSubmission))
  | single (block : Block) (result : Except CelestiaError BlobSubmission)
  | others

def StoreStep (celestia : CelestiaClient) (chain : CelestiaChain) :
    StoreLabel → CelestiaChain → Prop
  | .batch blocks result, chain' =>
      ∃ tr, (submitBlocks celestia blocks).Exec celestiaSem chain tr result chain'
  | .single block result, chain' =>
      ∃ tr, (submitBlock celestia block).Exec celestiaSem chain tr result chain'
  | .others, chain' => Extends chain chain'

abbrev StoreTransition : Type := Transition CelestiaChain StoreLabel

def returnedOf : StoreLabel → List (BlobSubmission × Block)
  | .batch blocks (.ok submissions) => submissions.zip blocks
  | .single block (.ok submission) => [(submission, block)]
  | _ => []

def returned (ts : List StoreTransition) : List (BlobSubmission × Block) :=
  ts.flatMap fun t => returnedOf t.label

def located (r : BlobSubmission × Block) : UInt64 × Block := (r.1.celestiaHeight, r.2)

def blocksAt (celestia : CelestiaClient) (chain : CelestiaChain) (celestiaHeight : UInt64) :
    List (UInt64 × Block) :=
  ((chain.blobs celestiaHeight).filterMap fun blob => celestia.decodeBlock blob.data).map
    fun block => (celestiaHeight, block)

section Chain

variable {celestia : CelestiaClient} {chain chain' chain'' : CelestiaChain}

theorem Extends.refl (chain : CelestiaChain) : Extends chain chain :=
  ⟨UInt64.le_refl _, fun _ _ => rfl⟩

theorem Extends.trans (h₁ : Extends chain chain') (h₂ : Extends chain' chain'') :
    Extends chain chain'' := by
  refine ⟨UInt64.le_trans h₁.1 h₂.1, ?_⟩
  intro celestiaHeight hheight
  rw [h₂.2 celestiaHeight (UInt64.le_trans hheight h₁.1), h₁.2 celestiaHeight hheight]

theorem Extends.blocksAt (h : Extends chain chain') {celestiaHeight : UInt64}
    (hheight : celestiaHeight ≤ chain.head) :
    Store.blocksAt celestia chain' celestiaHeight =
      Store.blocksAt celestia chain celestiaHeight := by
  rw [Store.blocksAt, h.2 celestiaHeight hheight]
  rfl

theorem decodeBlock_of_create (hdata : KeepsData celestia) {block : Block} {blob : Blob}
    (h : celestia.createBlobForBlock block = .ok blob) :
    celestia.decodeBlock blob.data = some block := by
  rw [CelestiaClient.createBlobForBlock] at h
  split at h
  · cases h
  · rename_i address
    simp only [CelestiaClient.encodeBlock, bind, Except.bind] at h
    split at h
    · cases h
    · rename_i blob' hnew
      cases h
      have hroundTrip := (blockCodec celestia.alloy).decode_encode block []
      rw [List.append_nil] at hroundTrip
      rw [CelestiaClient.decodeBlock, hdata _ _ _ hnew, hroundTrip]
      rfl

theorem filterMap_decodeBlock (hdata : KeepsData celestia) {blocks : List Block}
    {blobs : List Blob} (h : blocks.map celestia.createBlobForBlock = blobs.map Except.ok) :
    (blobs.filterMap fun blob => celestia.decodeBlock blob.data) = blocks := by
  induction blocks generalizing blobs with
  | nil =>
      obtain rfl := List.map_eq_nil_iff.mp h.symm
      rfl
  | cons block blocks ih =>
      cases blobs with
      | nil => cases h
      | cons blob blobs =>
          rw [List.map_cons, List.map_cons, List.cons.injEq] at h
          rw [List.filterMap_cons, decodeBlock_of_create hdata h.1]
          exact congrArg _ (ih h.2)

end Chain

section Submission

variable {celestia : CelestiaClient} {chain : CelestiaChain}

/-- The blobs are in a block above the one that was the head. -/
def NewAt (chain chain' : CelestiaChain) (blobs : List Blob) (celestiaHeight : UInt64) : Prop :=
  chain.head < celestiaHeight ∧ celestiaHeight ≤ chain'.head ∧
    blobs.Sublist (chain'.blobs celestiaHeight)

theorem ensures_withRetryLoop (operationName : String) (baseDelayMs : UInt64) (blobs : List Blob)
    (attempts : UInt32) (remaining : Nat) :
    (withRetryLoop operationName baseDelayMs (submit blobs) attempts remaining).Ensures
      celestiaSem chain fun _ r chain' => Extends chain chain' ∧
        ∀ celestiaHeight, r = .ok celestiaHeight → NewAt chain chain' blobs celestiaHeight := by
  induction remaining generalizing attempts chain with
  | zero =>
      refine Prog.ensures_op.mpr ?_
      rintro (response : Except String UInt64) chain' ⟨hextends, hincluded⟩
      cases response with
      | error e => exact Prog.ensures_pure.mpr ⟨hextends, fun _ h => by cases h⟩
      | ok height =>
          refine Prog.ensures_pure.mpr ⟨hextends, ?_⟩
          rintro _ ⟨⟩
          exact hincluded height rfl
  | succ remaining ih =>
      refine Prog.ensures_op.mpr ?_
      rintro (response : Except String UInt64) chain₁ ⟨hextends, hincluded⟩
      cases response with
      | ok height =>
          refine Prog.ensures_pure.mpr ⟨hextends, ?_⟩
          rintro _ ⟨⟩
          exact hincluded height rfl
      | error e =>
          refine Prog.ensures_op.mpr ?_
          rintro _ chain₂ (hsleep : Extends chain₁ chain₂)
          refine (ih (attempts + 1)).mono ?_
          rintro tr r chain' ⟨hextends', hnew⟩
          have hbefore := hextends.trans hsleep
          refine ⟨hbefore.trans hextends', fun celestiaHeight hr => ?_⟩
          obtain ⟨hlow, hhigh, hsub⟩ := hnew celestiaHeight hr
          exact ⟨UInt64.lt_of_le_of_lt hbefore.1 hlow, hhigh, hsub⟩

/-- What a call leaves: the submissions it returns are in one new block, each with the
block's own hash and height, and the block can be decoded there. -/
structure Outcome (celestia : CelestiaClient) (chain : CelestiaChain)
    (returned : List (BlobSubmission × Block)) (chain' : CelestiaChain) : Prop where
  grows : Extends chain chain'
  own : ∀ r ∈ returned, r.1.blockHash = r.2.blockHash ∧ r.1.blockHeight = r.2.height
  stored : returned = [] ∨ ∃ celestiaHeight, chain.head < celestiaHeight ∧
    celestiaHeight ≤ chain'.head ∧
    (∀ r ∈ returned, r.1.celestiaHeight = celestiaHeight ∧
      ∃ blob ∈ chain'.blobs celestiaHeight, blob.commitment = r.1.commitment) ∧
    (returned.map located).Sublist (blocksAt celestia chain' celestiaHeight)

theorem outcome_nil {chain' : CelestiaChain} (h : Extends chain chain') :
    Outcome celestia chain [] chain' where
  grows := h
  own _ hr := absurd hr List.not_mem_nil
  stored := .inl rfl

theorem outcome_of_newAt (hdata : KeepsData celestia) {chain' : CelestiaChain}
    {blocks : List Block} {blobs : List Blob} {celestiaHeight : UInt64}
    (hextends : Extends chain chain') (hnew : NewAt chain chain' blobs celestiaHeight)
    (hcreated : blocks.map celestia.createBlobForBlock = blobs.map Except.ok) :
    Outcome celestia chain ((buildSubmissions blobs
      (blocks.map fun block => { hash := block.blockHash, height := block.height })
      celestiaHeight).zip blocks) chain' := by
  obtain ⟨hlow, hhigh, hsub⟩ := hnew
  have hlength : blocks.length = blobs.length := by
    have hlengths := congrArg List.length hcreated
    rwa [List.length_map, List.length_map] at hlengths
  have hreturned : ∀ r ∈ (buildSubmissions blobs
      (blocks.map fun block => { hash := block.blockHash, height := block.height })
      celestiaHeight).zip blocks, r.1.blockHash = r.2.blockHash ∧ r.1.blockHeight = r.2.height ∧
        r.1.celestiaHeight = celestiaHeight ∧ ∃ blob ∈ blobs, blob.commitment = r.1.commitment := by
    intro r hr
    obtain ⟨i, hi⟩ := List.getElem?_of_mem hr
    obtain ⟨hsubmission, hblock⟩ := List.getElem?_zip_eq_some.mp hi
    rw [buildSubmissions, List.getElem?_map, Option.map_eq_some_iff] at hsubmission
    obtain ⟨⟨info, blob⟩, hzip, hsubmission⟩ := hsubmission
    obtain ⟨hinfo, hblob⟩ := List.getElem?_zip_eq_some.mp hzip
    rw [List.getElem?_map, hblock] at hinfo
    cases hinfo
    rw [← hsubmission]
    exact ⟨rfl, rfl, rfl, blob, List.mem_of_getElem? hblob, rfl⟩
  refine ⟨hextends, fun r hr => ⟨(hreturned r hr).1, (hreturned r hr).2.1⟩, .inr
    ⟨celestiaHeight, hlow, hhigh, ?_, ?_⟩⟩
  · intro r hr
    obtain ⟨-, -, hheight, blob, hblob, hcommitment⟩ := hreturned r hr
    exact ⟨hheight, blob, hsub.subset hblob, hcommitment⟩
  · have hlocated : ((buildSubmissions blobs
        (blocks.map fun block => { hash := block.blockHash, height := block.height })
        celestiaHeight).zip blocks).map located =
          blocks.map fun block => (celestiaHeight, block) := by
      refine List.ext_getElem (by simp [buildSubmissions, hlength]) ?_
      intro i h₁ h₂
      simp [located, buildSubmissions]
    rw [hlocated, blocksAt]
    have hdecoded := hsub.filterMap fun blob => celestia.decodeBlock blob.data
    rw [filterMap_decodeBlock hdata hcreated] at hdecoded
    exact hdecoded.map _

theorem ensures_submitBlocks (hdata : KeepsData celestia) (blocks : List Block) :
    (submitBlocks celestia blocks).Ensures celestiaSem chain fun _ r chain' =>
      Outcome celestia chain (returnedOf (.batch blocks r)) chain' := by
  unfold submitBlocks
  split
  · exact Prog.ensures_pure.mpr (outcome_nil (Extends.refl chain))
  · split
    · exact Prog.ensures_pure.mpr (outcome_nil (Extends.refl chain))
    · rename_i blobs infos hcreate
      obtain ⟨hcreated, rfl⟩ := createBlobsForBlocks_eq_ok hcreate
      refine Prog.ensures_bind.mpr ((ensures_withRetryLoop _ _ blobs 1 _).mono ?_)
      rintro tr r chain' ⟨hextends, hnew⟩
      cases r with
      | error e => exact Prog.ensures_pure.mpr (outcome_nil hextends)
      | ok height =>
          exact Prog.ensures_pure.mpr (outcome_of_newAt hdata hextends (hnew height rfl) hcreated)

theorem ensures_submitBlock (hdata : KeepsData celestia) (block : Block) :
    (submitBlock celestia block).Ensures celestiaSem chain fun _ r chain' =>
      Outcome celestia chain (returnedOf (.single block r)) chain' := by
  unfold submitBlock
  split
  · exact Prog.ensures_pure.mpr (outcome_nil (Extends.refl chain))
  · rename_i blob hcreate
    unfold submitWithRetry
    rw [Prog.bind_assoc]
    refine Prog.ensures_bind.mpr ((ensures_withRetryLoop _ _ [blob] 1 _).mono ?_)
    rintro tr r chain' ⟨hextends, hnew⟩
    cases r with
    | error e => exact Prog.ensures_pure.mpr (outcome_nil hextends)
    | ok height =>
        have hcreated : [block].map celestia.createBlobForBlock = [blob].map Except.ok :=
          congrArg (fun r => [r]) hcreate
        exact Prog.ensures_pure.mpr (outcome_of_newAt hdata hextends (hnew height rfl) hcreated)

end Submission

section Retrieval

variable {celestia : CelestiaClient} {chain : CelestiaChain}

theorem ensures_getBlocks {celestiaHeight : UInt64} (hheight : celestiaHeight ≤ chain.head) :
    (getBlocks celestia celestiaHeight).Ensures celestiaSem chain fun _ r chain' =>
      Extends chain chain' ∧ ∀ found, r = .ok found →
        found.map (fun block => (celestiaHeight, block)) =
          blocksAt celestia chain celestiaHeight := by
  refine Prog.ensures_op.mpr ?_
  rintro (response : Except String (Option (List Blob))) chain' ⟨hextends, hserved⟩
  cases response with
  | error e => exact Prog.ensures_pure.mpr ⟨hextends, fun _ h => by cases h⟩
  | ok served =>
      have hblobs := hserved served rfl hheight
      cases served with
      | none =>
          refine Prog.ensures_pure.mpr ⟨hextends, ?_⟩
          rintro _ ⟨⟩
          rw [blocksAt, ← hblobs]
          rfl
      | some blobs =>
          refine Prog.ensures_pure.mpr ⟨hextends, ?_⟩
          rintro _ ⟨⟩
          rw [blocksAt, ← hblobs]
          rfl

theorem ensures_getBlocksAt {heights : List UInt64} (hheights : ∀ h ∈ heights, h ≤ chain.head) :
    (getBlocksAt celestia heights).Ensures celestiaSem chain fun _ r chain' =>
      Extends chain chain' ∧ ∀ found, r = .ok found →
        found = heights.flatMap (blocksAt celestia chain) := by
  induction heights generalizing chain with
  | nil =>
      refine Prog.ensures_pure.mpr ⟨Extends.refl chain, ?_⟩
      rintro _ ⟨⟩
      rfl
  | cons height heights ih =>
      rw [List.forall_mem_cons] at hheights
      refine Prog.ensures_bind.mpr ((ensures_getBlocks hheights.1).mono ?_)
      rintro tr r chain₁ ⟨hextends, hfound⟩
      cases r with
      | error e => exact Prog.ensures_pure.mpr ⟨hextends, fun _ h => by cases h⟩
      | ok blocks =>
          have hlater : ∀ h ∈ heights, h ≤ chain₁.head :=
            fun h hh => UInt64.le_trans (hheights.2 h hh) hextends.1
          refine Prog.ensures_bind.mpr ((ih hlater).mono ?_)
          rintro tr' r' chain₂ ⟨hextends', hrest⟩
          have hboth := hextends.trans hextends'
          cases r' with
          | error e => exact Prog.ensures_pure.mpr ⟨hboth, fun _ h => by cases h⟩
          | ok rest =>
              refine Prog.ensures_pure.mpr ⟨hboth, ?_⟩
              rintro _ ⟨⟩
              rw [hfound blocks rfl, hrest rest rfl, List.flatMap_cons]
              congr 1
              exact List.flatMap_congr fun h hh => hextends.blocksAt (hheights.2 h hh)

def rangeHeights (start stop : UInt64) : List Nat :=
  List.range' start.toNat (stop.toNat + 1 - start.toNat)

theorem mem_rangeHeights {start stop : UInt64} {k : Nat} :
    k ∈ rangeHeights start stop ↔ start.toNat ≤ k ∧ k ≤ stop.toNat := by
  rw [rangeHeights, List.mem_range'_1]
  omega

theorem toNat_ofNat_of_mem {start stop : UInt64} {k : Nat}
    (hk : k ∈ rangeHeights start stop) : (UInt64.ofNat k).toNat = k := by
  have hlast := (mem_rangeHeights.mp hk).2
  rw [UInt64.toNat_ofNat']
  exact Nat.mod_eq_of_lt (Nat.lt_of_le_of_lt hlast stop.toNat_lt)

theorem ensures_getBlocksInRange {start stop : UInt64} (hstop : stop ≤ chain.head) :
    (getBlocksInRange celestia start stop).Ensures celestiaSem chain fun _ r _ =>
      ∀ found, r = .ok found → found = (rangeHeights start stop).flatMap fun k =>
        blocksAt celestia chain (UInt64.ofNat k) := by
  unfold getBlocksInRange
  split
  · rename_i hrange
    refine Prog.ensures_pure.mpr ?_
    rintro _ ⟨⟩
    have hnone : stop.toNat + 1 - start.toNat = 0 :=
      Nat.sub_eq_zero_of_le (UInt64.lt_iff_toNat_lt.mp hrange)
    rw [rangeHeights, hnone]
    rfl
  · rename_i hrange
    have hle : start.toNat ≤ stop.toNat := Nat.not_lt.mp (mt UInt64.lt_iff_toNat_lt.mpr hrange)
    have hlength : stop.toNat - start.toNat + 1 = stop.toNat + 1 - start.toNat := by omega
    rw [hlength]
    refine Prog.Ensures.mono (ensures_getBlocksAt ?_) ?_
    · intro h hh
      obtain ⟨k, hk, rfl⟩ := List.mem_map.mp hh
      refine UInt64.le_trans ?_ hstop
      rw [UInt64.le_iff_toNat_le, toNat_ofNat_of_mem hk]
      exact (mem_rangeHeights.mp hk).2
    · rintro tr r chain' ⟨-, hfound⟩ found hr
      rw [hfound found hr, List.flatMap_map]
      rfl

theorem ensures_verifyInclusion {celestiaHeight : UInt64} {commitment : List UInt8}
    (hheight : celestiaHeight ≤ chain.head)
    (hblob : ∃ blob ∈ chain.blobs celestiaHeight, blob.commitment = commitment) :
    (verifyInclusion celestiaHeight commitment).Ensures celestiaSem chain fun _ r _ =>
      ∀ found, r = .ok found → found = true := by
  obtain ⟨blob, hmem, hcommitment⟩ := hblob
  refine Prog.ensures_op.mpr ?_
  rintro (response : Except String (Option (List Blob))) chain' ⟨-, hserved⟩
  cases response with
  | error e => exact Prog.ensures_pure.mpr fun _ h => by cases h
  | ok served =>
      have hblobs := hserved served rfl hheight
      rw [← hblobs] at hmem
      cases served with
      | none => exact absurd hmem List.not_mem_nil
      | some blobs =>
          refine Prog.ensures_pure.mpr ?_
          rintro _ ⟨⟩
          exact List.any_eq_true.mpr ⟨blob, hmem, decide_eq_true hcommitment⟩

end Retrieval

section Runs

variable {celestia : CelestiaClient} {chain chain' : CelestiaChain}

/-- The submissions returned so far are where they say, in chain order. -/
structure Kept (celestia : CelestiaClient) (chain : CelestiaChain)
    (returned : List (BlobSubmission × Block)) : Prop where
  own : ∀ r ∈ returned, r.1.blockHash = r.2.blockHash ∧ r.1.blockHeight = r.2.height
  included : ∀ r ∈ returned, r.1.celestiaHeight ≤ chain.head ∧
    ∃ blob ∈ chain.blobs r.1.celestiaHeight, blob.commitment = r.1.commitment
  sorted : (returned.map located).Pairwise fun p q => p.1.toNat ≤ q.1.toNat
  stored : ∀ celestiaHeight ≤ chain.head,
    ((returned.map located).filter fun p => p.1 = celestiaHeight).Sublist
      (blocksAt celestia chain celestiaHeight)

/-- The step lemma: a call adds one block of the chain at the end. -/
theorem Kept.outcome {old new : List (BlobSubmission × Block)} (hold : Kept celestia chain old)
    (hnew : Outcome celestia chain new chain') : Kept celestia chain' (old ++ new) := by
  obtain ⟨hextends, hown, hstored⟩ := hnew
  have hbelow : ∀ p ∈ old.map located, p.1 ≤ chain.head := by
    intro p hp
    obtain ⟨r, hr, rfl⟩ := List.mem_map.mp hp
    exact (hold.included r hr).1
  have hgrown : Kept celestia chain' old := by
    refine ⟨hold.own, ?_, hold.sorted, ?_⟩
    · intro r hr
      obtain ⟨hheight, blob, hblob, hcommitment⟩ := hold.included r hr
      refine ⟨UInt64.le_trans hheight hextends.1, blob, ?_, hcommitment⟩
      rwa [hextends.2 _ hheight]
    · intro celestiaHeight hheight
      by_cases hlow : celestiaHeight ≤ chain.head
      · rw [hextends.blocksAt hlow]
        exact hold.stored celestiaHeight hlow
      · have hnone : (old.map located).filter (fun p => p.1 = celestiaHeight) = [] := by
          rw [List.filter_eq_nil_iff]
          intro p hp heq
          rw [decide_eq_true_eq] at heq
          exact hlow (heq ▸ hbelow p hp)
        rw [hnone]
        exact List.nil_sublist _
  rcases hstored with rfl | ⟨height, hlow, hhigh, hreturned, hsub⟩
  · rwa [List.append_nil]
  · have hat : ∀ p ∈ new.map located, p.1 = height := by
      intro p hp
      obtain ⟨r, hr, rfl⟩ := List.mem_map.mp hp
      exact (hreturned r hr).1
    refine ⟨List.forall_mem_append.mpr ⟨hold.own, hown⟩,
      List.forall_mem_append.mpr ⟨hgrown.included, ?_⟩, ?_, ?_⟩
    · intro r hr
      obtain ⟨hheight, hblob⟩ := hreturned r hr
      rw [hheight]
      exact ⟨hhigh, hblob⟩
    · rw [List.map_append, List.pairwise_append]
      refine ⟨hold.sorted, ?_, ?_⟩
      · refine List.pairwise_iff_forall_sublist.mpr fun {p q} hpq => ?_
        have hp := hat p (hpq.subset List.mem_cons_self)
        have hq := hat q (hpq.subset (List.mem_cons_of_mem _ List.mem_cons_self))
        rw [hp, hq]
      · intro p hp q hq
        rw [hat q hq]
        exact Nat.le_of_lt (UInt64.lt_iff_toNat_lt.mp (UInt64.lt_of_le_of_lt (hbelow p hp) hlow))
    · intro celestiaHeight hheight
      rw [List.map_append, List.filter_append]
      by_cases heq : celestiaHeight = height
      · subst heq
        have hnone : (old.map located).filter (fun p => p.1 = celestiaHeight) = [] := by
          rw [List.filter_eq_nil_iff]
          intro p hp heq
          rw [decide_eq_true_eq] at heq
          exact UInt64.lt_irrefl _ (UInt64.lt_of_lt_of_le hlow (heq ▸ hbelow p hp))
        rw [hnone, List.nil_append]
        exact List.filter_sublist.trans hsub
      · have hnone : (new.map located).filter (fun p => p.1 = celestiaHeight) = [] := by
          rw [List.filter_eq_nil_iff]
          intro p hp heq'
          rw [decide_eq_true_eq] at heq'
          exact heq (heq'.symm.trans (hat p hp))
        rw [hnone, List.append_nil]
        exact hgrown.stored celestiaHeight hheight

theorem Kept.sublist_range {rs : List (BlobSubmission × Block)} (hkept : Kept celestia chain rs)
    {start stop : UInt64} (hstop : stop ≤ chain.head) :
    ((rs.map located).filter fun p => start ≤ p.1 ∧ p.1 ≤ stop).Sublist
      ((rangeHeights start stop).flatMap fun k => blocksAt celestia chain (UInt64.ofNat k)) := by
  have hsorted : ((rs.map located).filter fun p => start ≤ p.1 ∧ p.1 ≤ stop).Pairwise
      fun p q => p.1.toNat ≤ q.1.toNat := hkept.sorted.filter _
  refine sublist_flatMap (List.pairwise_lt_range' 1) hsorted ?_ ?_
  · intro p hp
    rw [List.mem_filter, decide_eq_true_eq] at hp
    exact mem_rangeHeights.mpr hp.2
  · intro k hk
    have hnat := toNat_ofNat_of_mem hk
    have hheight : UInt64.ofNat k ≤ chain.head := by
      refine UInt64.le_trans ?_ hstop
      rw [UInt64.le_iff_toNat_le, hnat]
      exact (mem_rangeHeights.mp hk).2
    rw [List.filter_filter]
    refine List.Sublist.trans (List.monotone_filter_right _ fun p hp => ?_)
      (hkept.stored _ hheight)
    rw [Bool.and_eq_true, decide_eq_true_eq] at hp
    rw [decide_eq_true_eq, ← UInt64.toNat_inj, hnat]
    exact hp.1

theorem kept_of_run (hdata : KeepsData celestia) {ts : List StoreTransition}
    (hrun : Run (StoreStep celestia) chain ts chain') : Kept celestia chain' (returned ts) := by
  have hfrom : ∀ {old}, Kept celestia chain old → Kept celestia chain' (old ++ returned ts) := by
    induction hrun with
    | nil chain => exact fun hold => by rwa [returned, List.flatMap_nil, List.append_nil]
    | @cons chain chain₁ chain' l ts hstep _ ih =>
        intro old hold
        have houtcome : Outcome celestia chain (returnedOf l) chain₁ := by
          cases l with
          | batch blocks result =>
              obtain ⟨tr, hexec⟩ := hstep
              exact ensures_submitBlocks hdata blocks tr result chain₁ hexec
          | single block result =>
              obtain ⟨tr, hexec⟩ := hstep
              exact ensures_submitBlock hdata block tr result chain₁ hexec
          | others => exact outcome_nil hstep
        have hrest := ih (hold.outcome houtcome)
        rwa [List.append_assoc] at hrest
  exact hfrom ⟨fun _ h => absurd h List.not_mem_nil, fun _ h => absurd h List.not_mem_nil,
    List.Pairwise.nil, fun _ _ => List.nil_sublist _⟩

/-- Where a submission was included, there is a block; it may be another one. -/
theorem isSome_getBlock_of_run (hdata : KeepsData celestia) {ts : List StoreTransition}
    (hrun : Run (StoreStep celestia) chain ts chain') {r : BlobSubmission × Block}
    (hr : r ∈ returned ts) :
    (getBlock celestia r.1.celestiaHeight).Ensures celestiaSem chain' fun _ answer _ =>
      ∀ found, answer = .ok found → found.isSome = true := by
  have hkept := kept_of_run hdata hrun
  have hheight := (hkept.included r hr).1
  have hmem : located r ∈ blocksAt celestia chain' r.1.celestiaHeight := by
    refine (hkept.stored _ hheight).subset (List.mem_filter.mpr ⟨List.mem_map_of_mem hr, ?_⟩)
    exact decide_eq_true rfl
  refine Prog.ensures_bind.mpr ((ensures_getBlocks hheight).mono ?_)
  rintro tr (e | found) chain₁ ⟨-, hfound⟩
  · exact Prog.ensures_pure.mpr fun _ h => by cases h
  · refine Prog.ensures_pure.mpr ?_
    rintro _ ⟨⟩
    rw [← hfound found rfl] at hmem
    cases found with
    | nil => cases hmem
    | cons block found => rfl

/-- Whatever calls the client has made and whatever others have put into the namespace: a
range of Celestia heights that the chain has reached is read back as the blocks that it holds,
those of the successful submissions among them in the order in which they were submitted, and
each of these is verified by the commitment that the client has kept. -/
theorem retrieved_of_run (hdata : KeepsData celestia) {ts : List StoreTransition}
    (hrun : Run (StoreStep celestia) chain ts chain') (start stop : UInt64)
    (hstop : stop ≤ chain'.head) :
    ((getBlocksInRange celestia start stop).Ensures celestiaSem chain' fun _ r _ =>
      ∀ found, r = .ok found →
        found = ((rangeHeights start stop).flatMap fun k =>
          blocksAt celestia chain' (UInt64.ofNat k)) ∧
        (((returned ts).map located).filter fun p => start ≤ p.1 ∧ p.1 ≤ stop).Sublist found ∧
        ∀ p ∈ found, start ≤ p.1 ∧ p.1 ≤ stop ∧ ∃ blob ∈ chain'.blobs p.1,
          celestia.decodeBlock blob.data = some p.2) ∧
      ∀ r ∈ returned ts, r.1.blockHash = r.2.blockHash ∧ r.1.blockHeight = r.2.height ∧
        (verifyInclusion r.1.celestiaHeight r.1.commitment).Ensures celestiaSem chain'
          fun _ answer _ => ∀ found, answer = .ok found → found = true := by
  have hkept := kept_of_run hdata hrun
  constructor
  · refine (ensures_getBlocksInRange hstop).mono ?_
    rintro tr r - hfound found hr
    refine ⟨hfound found hr, ?_⟩
    rw [hfound found hr]
    refine ⟨hkept.sublist_range hstop, ?_⟩
    intro p hp
    obtain ⟨k, hk, hp⟩ := List.mem_flatMap.mp hp
    obtain ⟨block, hblock, rfl⟩ := List.mem_map.mp hp
    obtain ⟨blob, hblob, hdecode⟩ := List.mem_filterMap.mp hblock
    have hnat := toNat_ofNat_of_mem hk
    obtain ⟨hlow, hhigh⟩ := mem_rangeHeights.mp hk
    refine ⟨?_, ?_, blob, hblob, hdecode⟩
    · rwa [UInt64.le_iff_toNat_le, hnat]
    · rwa [UInt64.le_iff_toNat_le, hnat]
  · intro r hr
    obtain ⟨hheight, hblob⟩ := hkept.included r hr
    exact ⟨(hkept.own r hr).1, (hkept.own r hr).2, ensures_verifyInclusion hheight hblob⟩

end Runs

section Example

open Rkb.Consensus.ActorRuns (chainBlock)

def emptyChain : CelestiaChain where
  head := 0
  blobs _ := []

/-- A blob that does not decode, and another client's block. -/
def foreignBlobs : List Blob :=
  [⟨[255], []⟩, ⟨(blockCodec AlloySerde.binary).encode (chainBlock 9), []⟩]

/-- Every submission is included at once, in a block with what others have submitted. -/
def includingCelestia : Prog.Env NodeOp Ans CelestiaChain
  | .submitBlobs blobs, chain =>
      if chain.head < chain.head + 1 then
        some ((.ok (chain.head + 1) : Ans (.submitBlobs blobs)),
          { head := chain.head + 1
            blobs := fun height =>
              if height = chain.head + 1 then foreignBlobs ++ blobs else chain.blobs height })
      else none
  | _, _ => none

theorem includingCelestia_sound (o : NodeOp) (chain : CelestiaChain) (ans : Ans o)
    (chain' : CelestiaChain) (h : includingCelestia o chain = some (ans, chain')) :
    celestiaSem o chain ans chain' := by
  cases o
  case submitBlobs blobs =>
      obtain ⟨hlow, ⟨⟩⟩ := Option.ite_none_right_eq_some.mp h
      refine ⟨⟨UInt64.le_of_lt hlow, ?_⟩, ?_⟩
      · intro height hheight
        refine if_neg ?_
        rintro rfl
        exact UInt64.lt_irrefl _ (UInt64.lt_of_lt_of_le hlow hheight)
      · rintro _ ⟨⟩
        refine ⟨hlow, UInt64.le_refl _, ?_⟩
        simp only [if_true]
        exact List.sublist_append_right foreignBlobs blobs
  all_goals cases h

inductive StoreMove
  | batch (blocks : List Block)
  | single (block : Block)

def playStoreMove (chain : CelestiaChain) : StoreMove → Option (StoreLabel × CelestiaChain)
  | .batch blocks => ((submitBlocks digestClient blocks).run includingCelestia chain).map fun r =>
      (.batch blocks r.2.1, r.2.2)
  | .single block => ((submitBlock digestClient block).run includingCelestia chain).map fun r =>
      (.single block r.2.1, r.2.2)

theorem step_of_playStoreMove (chain : CelestiaChain) (m : StoreMove) (l : StoreLabel)
    (chain' : CelestiaChain) (h : playStoreMove chain m = some (l, chain')) :
    StoreStep digestClient chain l chain' := by
  cases m with
  | batch blocks =>
      obtain ⟨r, hrun, heq⟩ := Option.map_eq_some_iff.mp h
      cases heq
      exact ⟨r.1, Prog.exec_of_run includingCelestia_sound hrun⟩
  | single block =>
      obtain ⟨r, hrun, heq⟩ := Option.map_eq_some_iff.mp h
      cases heq
      exact ⟨r.1, Prog.exec_of_run includingCelestia_sound hrun⟩

theorem keepsData_digestClient : KeepsData digestClient := by
  rintro data address _ ⟨⟩
  rfl

/-- Two blocks in a batch and a third one on its own are read back in their order, between the
blocks of another client. -/
theorem retrieved_of_run_threeBlocks : ∃ ts chain,
    Run (StoreStep digestClient) emptyChain ts chain ∧
      (returned ts).map located = [(1, chainBlock 1), (1, chainBlock 2), (2, chainBlock 3)] ∧
      (getBlocksInRange digestClient 1 2).Ensures celestiaSem chain fun _ r _ =>
        ∀ found, r = .ok found → found = [(1, chainBlock 9), (1, chainBlock 1),
          (1, chainBlock 2), (2, chainBlock 9), (2, chainBlock 3)] := by
  obtain ⟨ts, chain, hrun, hcheck⟩ := exists_run_of_play step_of_playStoreMove emptyChain
    [.batch [chainBlock 1, chainBlock 2], .single (chainBlock 3)]
    (fun ts chain => decide (chain.head = 2 ∧
      (returned ts).map located = [(1, chainBlock 1), (1, chainBlock 2), (2, chainBlock 3)] ∧
      ((rangeHeights 1 2).flatMap fun k => blocksAt digestClient chain (UInt64.ofNat k)) =
        [(1, chainBlock 9), (1, chainBlock 1), (1, chainBlock 2), (2, chainBlock 9),
          (2, chainBlock 3)])) (by decide +kernel)
  obtain ⟨hhead, hreturned, hblocks⟩ := of_decide_eq_true hcheck
  refine ⟨ts, chain, hrun, hreturned, ?_⟩
  refine (retrieved_of_run keepsData_digestClient hrun 1 2 (hhead ▸ UInt64.le_refl _)).1.mono ?_
  intro tr r chain' hfound found hr
  exact (hfound found hr).1.trans hblocks

end Example

end Rkb.Celestia.Store
