import Rkb.Consensus.ActorSteps
import Rkb.Library.Histories
import Rkb.Node.System

namespace Rkb.Node.LoggedNode

open Rkb.Library.Histories
open Rkb.Library.Program
open Rkb.Library.Tasks
open Rkb.Types.Blocks
open Rkb.Execution.Errors
open Rkb.Execution.Client
open Rkb.Celestia.Blobs
open Rkb.Celestia.Client
open Rkb.Celestia.Index
open Rkb.Consensus.Messages
open Rkb.Consensus.Actor
open Rkb.Consensus.Runtime
open Rkb.Sequencer.Sync
open Rkb.Node.Effects
open Rkb.Node.Shared
open Rkb.Node.System

abbrev NodeLog : Type := List (NodeTask × NodeEvent)

abbrev LoggedState : Type := NodeState × NodeLog

/-- The operations that no invariant asks anything of. -/
def Free : NodeOp → Prop
  | .forkchoiceUpdated _ _ | .writeCached _ | .writeForkchoice _ | .insertExecuted _ => False
  | .spawnTrack _ | .track _ | .sendConfirmation _ | .appendIndexFile _ => False
  | _ => True

/-- An invariant of a node that its operations keep when each has what it requires. -/
structure GuardedNode (Inv : LoggedState → Prop) (Requires : LoggedState → NodeOp → Prop) : Prop
    extends Guarded nodeSem Inv Requires where
  free : ∀ {s o}, Free o → Requires s o

/-- Celestia was asked for a height, and has answered with a blob of the block. -/
def Fetched (celestia : CelestiaClient) (tr : List NodeEvent) (b : UInt64 × Block) : Prop :=
  ∃ blobs blob, (⟨.fetchBlobs b.1, (.ok (some blobs) : Except String (Option (List Blob)))⟩ :
    NodeEvent) ∈ tr ∧ blob ∈ blobs ∧ celestia.decodeBlock blob.data = some b.2

section Inputs

variable {t : NodeTask} {l : Local t} {s s' : NodeState} {x : Input t}

theorem keeps_of_accept (h : accept t l s x s') :
    s'.forkchoice = s.forkchoice ∧ s'.cached = s.cached ∧ s'.executed = s.executed ∧
      s'.indexFile = s.indexFile := by
  cases t with
  | main =>
      cases x with
      | confirmation confirmation =>
          obtain ⟨-, rest, -, rfl⟩ := h
          exact ⟨rfl, rfl, rfl, rfl⟩
      | ctrlC =>
          obtain ⟨-, rfl⟩ := h
          exact ⟨rfl, rfl, rfl, rfl⟩
  | application =>
      obtain ⟨-, rfl⟩ := h
      exact ⟨rfl, rfl, rfl, rfl⟩
  | finalization =>
      obtain ⟨-, rfl⟩ := h
      exact ⟨rfl, rfl, rfl, rfl⟩
  | batch =>
      obtain ⟨-, -, htake⟩ := h
      cases x with
      | tick =>
          obtain rfl := htake
          exact ⟨rfl, rfl, rfl, rfl⟩
      | received block =>
          cases block with
          | none =>
              obtain ⟨-, rfl⟩ := htake
              exact ⟨rfl, rfl, rfl, rfl⟩
          | some block =>
              obtain ⟨rest, -, rfl⟩ := htake
              exact ⟨rfl, rfl, rfl, rfl⟩
  | headers =>
      obtain rfl : s' = s := h
      exact ⟨rfl, rfl, rfl, rfl⟩
  | tracking =>
      obtain ⟨-, rfl⟩ := h
      exact ⟨rfl, rfl, rfl, rfl⟩

end Inputs

section Fetching

variable {celestia : CelestiaClient} {tr tr' : List NodeEvent} {b : UInt64 × Block}

theorem Fetched.mono (h : Fetched celestia tr b) (hsub : tr ⊆ tr') : Fetched celestia tr' b := by
  obtain ⟨blobs, blob, hmem, hblob⟩ := h
  exact ⟨blobs, blob, hsub hmem, hblob⟩

theorem ensures_getBlocksAt (heights : List UInt64) :
    (getBlocksAt celestia heights).Ensures anyAnswer () fun tr r _ =>
      ∀ blocks, r = .ok blocks → ∀ b ∈ blocks, Fetched celestia tr b := by
  induction heights with
  | nil =>
      refine Prog.ensures_pure.mpr ?_
      rintro _ ⟨rfl⟩
      simp
  | cons celestiaHeight heights ih =>
      have hblocks : (getBlocks celestia celestiaHeight).Ensures anyAnswer () fun tr r _ =>
          ∀ blocks, r = .ok blocks → ∀ block ∈ blocks,
            Fetched celestia tr (celestiaHeight, block) := by
        refine Prog.ensures_perform_bind.mpr ?_
        rintro (e | none | blobs) ⟨⟩ -
        · refine Prog.ensures_pure.mpr ?_
          rintro _ ⟨⟩
        · refine Prog.ensures_pure.mpr ?_
          rintro _ ⟨rfl⟩
          simp
        · refine Prog.ensures_pure.mpr ?_
          rintro _ ⟨rfl⟩ block hblock
          obtain ⟨blob, hblob, hdecode⟩ := List.mem_filterMap.mp hblock
          exact ⟨blobs, blob, List.mem_singleton_self _, hblob, hdecode⟩
      refine Prog.ensures_bind.mpr (hblocks.mono ?_)
      rintro tr₁ (e | blocks) ⟨⟩ hfirst
      · refine Prog.ensures_pure.mpr ?_
        rintro _ ⟨⟩
      · refine Prog.ensures_bind.mpr (ih.mono ?_)
        rintro tr₂ (e | rest) ⟨⟩ hrest
        · refine Prog.ensures_pure.mpr ?_
          rintro _ ⟨⟩
        · refine Prog.ensures_pure.mpr ?_
          rintro _ ⟨rfl⟩ b hb
          rw [List.append_nil]
          rcases List.mem_append.mp hb with hb | hb
          · obtain ⟨block, hblock, rfl⟩ := List.mem_map.mp hb
            exact (hfirst blocks rfl block hblock).mono (List.subset_append_left _ _)
          · exact (hrest rest rfl b hb).mono (List.subset_append_right _ _)

theorem ensures_fetchBlocksFromCelestia (startHeight endHeight : UInt64) :
    (fetchBlocksFromCelestia celestia startHeight endHeight).Ensures anyAnswer () fun tr r _ =>
      ∀ blocks, r = .ok blocks → ∀ b ∈ blocks, Fetched celestia tr b := by
  have hrange : (getBlocksInRange celestia startHeight endHeight).Ensures anyAnswer ()
      fun tr r _ => ∀ blocks, r = .ok blocks → ∀ b ∈ blocks, Fetched celestia tr b := by
    unfold getBlocksInRange
    split
    · refine Prog.ensures_pure.mpr ?_
      rintro _ ⟨rfl⟩
      simp
    · exact ensures_getBlocksAt _
  refine Prog.ensures_bind.mpr (hrange.mono ?_)
  rintro tr (e | blocks) ⟨⟩ hfetched
  · refine Prog.ensures_pure.mpr ?_
    rintro _ ⟨⟩
  · refine Prog.ensures_pure.mpr ?_
    rintro _ ⟨rfl⟩ b hb
    rw [List.append_nil]
    exact hfetched blocks rfl b ((List.perm_insertionSort _ _).subset hb)

end Fetching

section Tasks

variable {Inv : LoggedState → Prop} {Requires : LoggedState → NodeOp → Prop} {t : NodeTask}
  {s : LoggedState} {json : IndexJson} {celestia : CelestiaClient}

theorem safe_syncBlocks
    (hsync : ∀ index block celestiaHeight expectedParent s,
      Fetched celestia (past s) (celestiaHeight, block) →
        SafeGuarded nodeSem Inv Requires t (fun _ _ => True)
          (syncSingleBlock json index block celestiaHeight expectedParent) s)
    (index : BlockIndex) (parentHash : B256) (lastSyncedHeight : UInt64)
    {blocks : List (UInt64 × Block)} (hblocks : ∀ b ∈ blocks, Fetched celestia (past s) b) :
    SafeGuarded nodeSem Inv Requires t (fun _ _ => True)
      (syncBlocks json index parentHash lastSyncedHeight blocks) s := by
  induction blocks generalizing index parentHash lastSyncedHeight s with
  | nil => exact trivial
  | cons entry blocks ih =>
      obtain ⟨celestiaHeight, block⟩ := entry
      rw [List.forall_mem_cons] at hblocks
      unfold syncBlocks
      split
      · exact ih _ _ _ hblocks.2
      · refine safe_bind (safe_grows (hsync index block celestiaHeight parentHash s hblocks.1)) ?_
        rintro result s' ⟨-, hgrows⟩
        split
        · exact trivial
        · exact ih _ _ _ fun b hb => (hblocks.2 b hb).mono hgrows.past_subset

theorem GuardedNode.safe_initFromCelestia (h : GuardedNode Inv Requires)
    (hsync : ∀ index block celestiaHeight expectedParent s,
      Fetched celestia (past s) (celestiaHeight, block) →
        SafeGuarded nodeSem Inv Requires t (fun _ _ => True)
          (syncSingleBlock json index block celestiaHeight expectedParent) s)
    (genesisDaHeight : UInt64) :
    SafeGuarded nodeSem Inv Requires t (fun _ _ => True)
      (initFromCelestia json celestia genesisDaHeight) s := by
  unfold initFromCelestia
  split
  · exact trivial
  · have hopen : (BlockIndex.openIndex json).Performs (Requires s) :=
      performs_openIndex (h.free trivial) (h.free trivial) (h.free trivial) (h.free trivial)
    refine h.safe_performs_bind hopen fun opened s₁ _ => ?_
    split
    · exact trivial
    · refine safe_bind (Q := fun _ _ => True) ?_ fun result s₂ _ => by split <;> exact trivial
      refine h.safe_perform_bind (h.free trivial) fun _ currentCelestiaHeight s₂ _ _ _ => ?_
      split
      · exact trivial
      · have hfetch : (fetchBlocksFromCelestia celestia genesisDaHeight
            currentCelestiaHeight).Performs (Requires s₂) :=
          performs_fetchBlocksFromCelestia (fun _ => h.free trivial) _ _
        refine safe_bind (h.safe_of_ensures hfetch (ensures_fetchBlocksFromCelestia _ _)) ?_
        rintro fetched s₃ ⟨-, tr, hfetched, hsub⟩
        split
        · exact trivial
        · split
          · exact trivial
          · rename_i blocks _
            refine h.safe_perform_bind (h.free trivial) fun _ current s₄ hgrows _ _ => ?_
            exact safe_syncBlocks hsync _ _ _ fun b hb =>
              ((hfetched blocks rfl b hb).mono hsub).mono hgrows.past_subset

theorem GuardedNode.safe_startMain {PublicKey : Type} [DecidableEq PublicKey]
    {node : NodeParams PublicKey} (h : GuardedNode Inv Requires)
    (hsync : ∀ index block celestiaHeight expectedParent s,
      Fetched node.celestia (past s) (celestiaHeight, block) →
        SafeGuarded nodeSem Inv Requires t (fun _ _ => True)
          (syncSingleBlock node.json index block celestiaHeight expectedParent) s) :
    SafeGuarded nodeSem Inv Requires t (fun _ _ => True) (startMain node) s := by
  refine safe_bind (Q := fun _ _ => True) ?_ fun result s' _ => by split <;> exact trivial
  refine h.safe_perform_bind (h.free trivial) fun _ forkchoice s₁ _ _ _ => ?_
  split
  · exact trivial
  · refine safe_bind (h.safe_initFromCelestia hsync _) fun synced s₂ _ => ?_
    split
    · exact trivial
    · have hruntime : ∀ s₃ (r : Except Report (SimplexRuntimeConfig PublicKey)),
          SafeGuarded nodeSem Inv Requires t (fun _ _ => True)
            (op .spawnRuntime >>= fun _ => Prog.pure r) s₃ :=
        fun s₃ r => h.safe_perform_bind (h.free trivial) fun _ _ _ _ _ _ => trivial
      simp only
      split
      · exact h.safe_perform_bind (h.free trivial) fun _ _ s₃ _ _ _ => hruntime s₃ _
      · exact hruntime s₂ _

variable {self : Application} {sha256 : List UInt8 → AppDigest}

theorem GuardedNode.safe_processMessage (h : GuardedNode Inv Requires)
    (hbuild : ∀ s, SafeGuarded nodeSem Inv Requires t (fun _ _ => True) (self.propose sha256) s)
    (happly : ∀ payload s,
      SafeGuarded nodeSem Inv Requires t (fun _ _ => True) (applyToReth payload) s)
    (message : Message) :
    SafeGuarded nodeSem Inv Requires t (fun _ _ => True) (self.processMessage sha256 message)
      s := by
  have hrespond : ∀ {o : NodeOp} {application : Application} (s₁ : LoggedState), Free o →
      SafeGuarded nodeSem Inv Requires t (fun _ _ => True)
        (op o >>= fun _ => Prog.pure application) s₁ :=
    fun s₁ ho => h.safe_perform_bind (h.free ho) fun _ _ _ _ _ _ => trivial
  cases message with
  | genesis epoch => exact hrespond s trivial
  | propose => exact safe_bind (hbuild s) fun r s' _ => hrespond s' trivial
  | verify payload => exact hrespond s trivial
  | broadcast payload => exact trivial
  | finalize digest =>
      refine safe_bind (Q := fun _ _ => True) ?_ fun _ _ _ => trivial
      unfold Application.finalize
      split
      · exact trivial
      · simp only
        split
        · exact trivial
        · refine safe_bind (happly _ s) fun _ s' _ => ?_
          exact h.safe_perform_bind (h.free trivial) fun _ _ _ _ _ _ => trivial
  | receiveBlock digest block payload =>
      simp only [Application.processMessage]
      unfold Application.handleReceiveBlock
      split
      · exact trivial
      · have himport : (importPayload payload).Performs (Requires s) :=
          performs_importPayload (fun _ => h.free trivial) fun _ _ => h.free trivial
        exact h.safe_performs_bind himport fun _ _ _ => trivial

end Tasks

end Rkb.Node.LoggedNode
