import Rkb.Library.Runs
import Rkb.Node.Shared
import Rkb.Sequencer.Finalization

namespace Rkb.Sequencer.FirmFinality

open Rkb.Library.Bytes
open Rkb.Library.Maps
open Rkb.Library.Program
open Rkb.Library.Runs
open Rkb.Types.Blocks
open Rkb.Execution.Errors
open Rkb.Execution.Forkchoice
open Rkb.Execution.Client
open Rkb.Celestia.Blobs
open Rkb.Celestia.Finality
open Rkb.Celestia.Client
open Rkb.Sequencer.Finalization
open Rkb.Node.Effects
open Rkb.Node.Shared

/-- reth accepts every update and the receiver of the confirmations is alive. -/
def Accepts : (o : NodeOp) → Ans o → Prop
  | .forkchoiceUpdated _ _, ans => accepted ans = true
  | .sendConfirmation _, ans => ans = true
  | _, _ => True

abbrev acceptingSem : Sem NodeOp Ans NodeState := nodeSem.restrict Accepts

/-- `confirmed` are the confirmations returned so far, `delivered` those of them
that have been handled. -/
structure FinalityState where
  node : NodeState
  confirmed : List FinalityConfirmation
  delivered : List FinalityConfirmation

inductive FinalityLabel
  | track (submission : BlobSubmission)
  | header (celestiaHeight : UInt64) (headerHash : B256)
  | deliver
deriving DecidableEq

/-- A tracking task runs, a header arrives, or the next confirmation is handled. -/
inductive FinalityStep : FinalityState → FinalityLabel → FinalityState → Prop
  | track {s : FinalityState} {tr : List NodeEvent} {node : NodeState}
      (submission : BlobSubmission) :
      (op (.track submission)).Exec acceptingSem s.node tr () node →
      FinalityStep s (.track submission) { s with node := node }
  | header {s : FinalityState} {tr : List NodeEvent} {node : NodeState}
      {new : List FinalityConfirmation} (celestiaHeight : UInt64) (headerHash : B256) :
      (processHeader celestiaHeight headerHash).Exec acceptingSem s.node tr () node →
      node.confirmations = s.node.confirmations ++ new →
      FinalityStep s (.header celestiaHeight headerHash)
        { s with node := node, confirmed := s.confirmed ++ new }
  | deliver {s : FinalityState} {tr : List NodeEvent} {node : NodeState}
      {confirmation : FinalityConfirmation} {rest : List FinalityConfirmation} :
      s.node.confirmations = confirmation :: rest →
      (handleFinalityConfirmation confirmation).Exec acceptingSem
        { s.node with confirmations := rest } tr () node →
      FinalityStep s .deliver
        { s with node := node, delivered := s.delivered ++ [confirmation] }

abbrev FinalityTransition : Type := Transition FinalityState FinalityLabel

def initial (genesisHash : B256) (executed : Finset B256) : FinalityState where
  node := { NodeState.initialized genesisHash none with executed := executed }
  confirmed := []
  delivered := []

def TracksExecuted (heightOf : B256 → UInt64) (executed : Finset B256)
    (tr : FinalityTransition) : Prop :=
  match tr.label with
  | .track submission => submission.blockHash ∈ executed ∧
      heightOf submission.blockHash = submission.blockHeight
  | _ => True

/-- The height of the finalized block is not lower after the step. -/
def NotDecreasing (heightOf : B256 → UInt64) (tr : FinalityTransition) : Prop :=
  heightOf tr.pre.node.forkchoice.finalized ≤ heightOf tr.post.node.forkchoice.finalized

/-- The condition on a step: a header reaches no submission of a lower block than
one already confirmed. -/
def Ascending (tr : FinalityTransition) : Prop :=
  match tr.label with
  | .header celestiaHeight _ =>
      ∀ c ∈ tr.pre.confirmed, ∀ e ∈ tr.pre.node.tracker.pending.entries,
        e.2.celestiaHeight ≤ celestiaHeight → c.blockHeight ≤ e.2.blockHeight
  | _ => True

def Ordered (confirmations : List FinalityConfirmation) : Prop :=
  confirmations.Pairwise fun c d => c.blockHeight ≤ d.blockHeight

section Effects

variable {s : NodeState}

theorem ensures_updateForkchoice (f : ForkchoiceState) :
    (updateForkchoice f).Ensures acceptingSem s fun _ r s' =>
      r = .ok () ∧ s' = { s with cached := f } := by
  have hcached : (op (.writeCached f) >>= fun _ => Prog.pure (Except.ok ())).Ensures
      acceptingSem s fun _ (r : Except ExecutionError Unit) s' =>
        r = .ok () ∧ s' = { s with cached := f } := by
    refine Prog.ensures_op.mpr ?_
    rintro _ s' ⟨rfl, -⟩
    exact Prog.ensures_pure.mpr ⟨rfl, rfl⟩
  refine Prog.ensures_op.mpr ?_
  rintro response s₁ ⟨rfl, haccepted⟩
  cases response with
  | clientError reason => cases haccepted
  | requestError e => cases haccepted
  | answer u =>
      obtain ⟨⟨status, latest⟩, payloadId⟩ := u
      cases status with
      | invalid validationError => cases haccepted
      | valid => exact hcached
      | syncing => exact hcached
      | accepted => exact hcached

theorem ensures_handleFinalityConfirmation {confirmation : FinalityConfirmation}
    (hexecuted : confirmation.blockHash ∈ s.executed) :
    (handleFinalityConfirmation confirmation).Ensures acceptingSem s fun _ _ s' =>
      s'.forkchoice = s.forkchoice.withFirm confirmation.blockHash ∧
        s'.executed = s.executed ∧ s'.tracker = s.tracker ∧
        s'.confirmations = s.confirmations := by
  refine Prog.ensures_perform_bind.mpr ?_
  rintro ans s₁ ⟨⟨rfl, rfl⟩, -⟩
  simp only [hexecuted]
  refine Prog.ensures_perform_bind.mpr ?_
  rintro current s₂ ⟨⟨rfl, rfl⟩, -⟩
  refine Prog.ensures_bind.mpr ((ensures_updateForkchoice _).mono ?_)
  rintro _ _ s₃ ⟨rfl, rfl⟩
  refine Prog.ensures_op.mpr ?_
  rintro _ s₄ ⟨rfl, -⟩
  exact Prog.ensures_pure.mpr ⟨rfl, rfl, rfl, rfl⟩

theorem ensures_broadcastConfirmations (confirmations : List FinalityConfirmation) :
    (broadcastConfirmations confirmations).Ensures acceptingSem s fun _ _ s' =>
      s' = { s with confirmations := s.confirmations ++ confirmations } := by
  induction confirmations generalizing s with
  | nil =>
      refine Prog.ensures_pure.mpr ?_
      rw [List.append_nil]
  | cons confirmation confirmations ih =>
      refine Prog.ensures_op.mpr ?_
      rintro ans s₁ ⟨hsend, rfl⟩
      obtain ⟨-, rfl⟩ | ⟨hrefused, -⟩ := hsend
      · refine ih.mono ?_
        rintro _ _ _ rfl
        simp
      · cases hrefused

theorem ensures_processHeader (celestiaHeight : UInt64) (headerHash : B256) :
    (processHeader celestiaHeight headerHash).Ensures acceptingSem s fun _ _ s' =>
      ∃ visit : List PendingEntry, (visit : Multiset PendingEntry) = s.tracker.pending.entries ∧
        s' = { s with
          tracker := (s.tracker.onCelestiaFinality visit celestiaHeight headerHash).1
          confirmations := s.confirmations ++
            (s.tracker.onCelestiaFinality visit celestiaHeight headerHash).2 } := by
  refine Prog.ensures_op.mpr ?_
  rintro confirmations s₁ ⟨⟨visit, hvisit, rfl, rfl⟩, -⟩
  refine (ensures_broadcastConfirmations _).mono ?_
  rintro _ _ _ rfl
  exact ⟨visit, hvisit, rfl⟩

end Effects

section Invariant

variable {heightOf : B256 → UInt64} {executed : Finset B256} {genesisHash : B256}
  {s s' : FinalityState} {l : FinalityLabel} {ts : List FinalityTransition}

def lastHeight (delivered : List FinalityConfirmation) : UInt64 :=
  (delivered.getLast?.map FinalityConfirmation.blockHeight).getD 0

/-- What is pending and confirmed are executed blocks with their heights, and the
finalized block is the one delivered last. -/
structure Tracking (heightOf : B256 → UInt64) (executed : Finset B256)
    (s : FinalityState) : Prop where
  executed_eq : s.node.executed = executed
  pending : ∀ e ∈ s.node.tracker.pending.entries,
    e.1 ∈ executed ∧ heightOf e.1 = e.2.blockHeight
  known : ∀ c ∈ s.confirmed, c.blockHash ∈ executed ∧ heightOf c.blockHash = c.blockHeight
  split : s.confirmed = s.delivered ++ s.node.confirmations
  finalized : heightOf s.node.forkchoice.finalized = lastHeight s.delivered

theorem tracking_initial (hgenesis : heightOf genesisHash = 0) :
    Tracking heightOf executed (initial genesisHash executed) where
  executed_eq := rfl
  pending e he := by
    have hempty : (initial genesisHash executed).node.tracker.pending.entries = 0 := rfl
    rw [hempty] at he
    exact absurd he (Multiset.notMem_zero e)
  known c hc := absurd hc List.not_mem_nil
  split := rfl
  finalized := hgenesis

theorem header_step {celestiaHeight : UInt64} {headerHash : B256}
    (hstep : FinalityStep s (.header celestiaHeight headerHash) s') :
    ∃ new, s'.confirmed = s.confirmed ++ new ∧ s'.delivered = s.delivered ∧
      s'.node.confirmations = s.node.confirmations ++ new ∧
      s'.node.executed = s.node.executed ∧ s'.node.forkchoice = s.node.forkchoice ∧
      (∀ e ∈ s'.node.tracker.pending.entries, e ∈ s.node.tracker.pending.entries) ∧
      Ordered new ∧
      ∀ c, c ∈ new ↔ ∃ e ∈ s.node.tracker.pending.entries,
        e.2.celestiaHeight ≤ celestiaHeight ∧
          FinalityTracker.buildConfirmation e.1 e.2 headerHash = c := by
  cases hstep with
  | @header tr node new _ _ hexec hnew =>
      obtain ⟨visit, hvisit, rfl⟩ := ensures_processHeader celestiaHeight headerHash _ _ _ hexec
      have hnew' := List.append_cancel_left hnew
      refine ⟨new, rfl, rfl, hnew, rfl, rfl, ?_, ?_, ?_⟩
      · intro e he
        exact (mem_entries_retain.mp he).1
      · rw [← hnew']
        exact FinalityTracker.sorted_confirmations _ _ _ _
      · intro c
        rw [← hnew', FinalityTracker.mem_confirmations, ← hvisit]
        simp only [Multiset.mem_coe]

theorem deliver_step (hs : Tracking heightOf executed s) (hstep : FinalityStep s .deliver s') :
    ∃ c rest, s.node.confirmations = c :: rest ∧ s'.confirmed = s.confirmed ∧
      s'.delivered = s.delivered ++ [c] ∧ s'.node.confirmations = rest ∧
      s'.node.executed = s.node.executed ∧ s'.node.tracker = s.node.tracker ∧
      s'.node.forkchoice.finalized = c.blockHash ∧ heightOf c.blockHash = c.blockHeight := by
  cases hstep with
  | @deliver tr node c rest hqueue hexec =>
      have hknown := hs.known c (by rw [hs.split, hqueue]; simp)
      have hmem : c.blockHash ∈ ({ s.node with confirmations := rest } : NodeState).executed := by
        rw [← hs.executed_eq] at hknown
        exact hknown.1
      obtain ⟨hforkchoice, hexecuted, htracker, hrest⟩ :=
        ensures_handleFinalityConfirmation hmem _ _ _ hexec
      refine ⟨c, rest, hqueue, rfl, rfl, hrest, hexecuted, htracker, ?_, hknown.2⟩
      rw [hforkchoice]
      rfl

theorem lastHeight_append (delivered : List FinalityConfirmation) (c : FinalityConfirmation) :
    lastHeight (delivered ++ [c]) = c.blockHeight := by
  simp [lastHeight]

theorem Tracking.step (hs : Tracking heightOf executed s) (hstep : FinalityStep s l s')
    (htracks : TracksExecuted heightOf executed ⟨s, l, s'⟩) :
    Tracking heightOf executed s' := by
  cases l with
  | track x =>
      cases hstep with
      | track _ hexec =>
          obtain ⟨ans, s₁, rest, -, ⟨rfl, -⟩, -, -, rfl⟩ := hexec
          refine ⟨hs.executed_eq, ?_, hs.known, hs.split, hs.finalized⟩
          rintro ⟨k, pending⟩ he
          have hlookup := mem_entries_iff.mp he
          rw [FinalityTracker.lookup_track] at hlookup
          split at hlookup
          · rename_i hk
            subst hk
            cases hlookup
            exact htracks
          · exact hs.pending _ (mem_entries_iff.mpr hlookup)
  | header celestiaHeight headerHash =>
      obtain ⟨new, hconfirmed, hdelivered, hqueue, hexecuted, hforkchoice, hpending, -, hnew⟩ :=
        header_step hstep
      refine ⟨hexecuted.trans hs.executed_eq, fun e he => hs.pending e (hpending e he), ?_, ?_, ?_⟩
      · intro c hc
        rw [hconfirmed, List.mem_append] at hc
        rcases hc with hc | hc
        · exact hs.known c hc
        · obtain ⟨e, he, -, rfl⟩ := (hnew c).mp hc
          exact hs.pending e he
      · rw [hconfirmed, hdelivered, hqueue, hs.split, List.append_assoc]
      · rw [hforkchoice, hdelivered]
        exact hs.finalized
  | deliver =>
      obtain ⟨c, rest, hqueue, hconfirmed, hdelivered, hrest, hexecuted, htracker, hfinalized,
        hheight⟩ := deliver_step hs hstep
      refine ⟨hexecuted.trans hs.executed_eq, ?_, ?_, ?_, ?_⟩
      · rw [htracker]
        exact hs.pending
      · rw [hconfirmed]
        exact hs.known
      · rw [hconfirmed, hdelivered, hrest, hs.split, hqueue, List.append_assoc,
          List.singleton_append]
      · rw [hfinalized, hheight, hdelivered, lastHeight_append]

theorem tracking_of_run (hs : Tracking heightOf executed s) (hrun : Run FinalityStep s ts s')
    (htracks : ∀ tr ∈ ts, TracksExecuted heightOf executed tr) :
    Tracking heightOf executed s' ∧
      ∀ tr ∈ ts, Tracking heightOf executed tr.pre ∧ Tracking heightOf executed tr.post :=
  hrun.invariant _ (TracksExecuted heightOf executed)
    (fun _ hstep hcond hpre => hpre.step hstep hcond) htracks hs

theorem prefix_of_step (hs : Tracking heightOf executed s) (hstep : FinalityStep s l s') :
    s.confirmed <+: s'.confirmed ∧ s.delivered <+: s'.delivered := by
  cases l with
  | track x =>
      cases hstep with
      | track _ _ => exact ⟨List.prefix_rfl, List.prefix_rfl⟩
  | header celestiaHeight headerHash =>
      obtain ⟨new, hconfirmed, hdelivered, -⟩ := header_step hstep
      exact ⟨⟨new, hconfirmed.symm⟩, hdelivered ▸ List.prefix_rfl⟩
  | deliver =>
      obtain ⟨c, rest, -, hconfirmed, hdelivered, -⟩ := deliver_step hs hstep
      exact ⟨hconfirmed ▸ List.prefix_rfl, ⟨[c], hdelivered.symm⟩⟩

theorem le_lastHeight {delivered : List FinalityConfirmation} (h : Ordered delivered)
    {c : FinalityConfirmation} (hc : c ∈ delivered) : c.blockHeight ≤ lastHeight delivered := by
  obtain ⟨front, last, rfl⟩ : ∃ front last, delivered = front ++ [last] :=
    ⟨_, _, (List.dropLast_append_getLast (List.ne_nil_of_mem hc)).symm⟩
  rw [lastHeight_append]
  rcases List.mem_append.mp hc with hfront | hlast
  · exact (List.pairwise_append.mp h).2.2 c hfront last (List.mem_singleton_self last)
  · rw [List.mem_singleton.mp hlast]
    exact UInt64.le_refl _

theorem ordered_append_singleton {delivered : List FinalityConfirmation}
    {c : FinalityConfirmation} :
    Ordered (delivered ++ [c]) ↔ Ordered delivered ∧ lastHeight delivered ≤ c.blockHeight := by
  constructor
  · intro h
    obtain ⟨hdelivered, -, hall⟩ := List.pairwise_append.mp h
    refine ⟨hdelivered, ?_⟩
    cases hlast : delivered.getLast? with
    | none =>
        rw [lastHeight, hlast]
        exact UInt64.le_iff_toNat_le.mpr (Nat.zero_le _)
    | some last =>
        rw [lastHeight, hlast]
        exact hall last (List.mem_of_getLast? hlast) c (List.mem_singleton_self c)
  · rintro ⟨hdelivered, hlast⟩
    refine List.pairwise_append.mpr ⟨hdelivered, List.pairwise_singleton _ _, ?_⟩
    intro d hd c' hc'
    rw [List.mem_singleton.mp hc']
    exact UInt64.le_trans (le_lastHeight hdelivered hd) hlast

theorem notDecreasing_iff (hs : Tracking heightOf executed s) (hs' : Tracking heightOf executed s')
    (hstep : FinalityStep s l s') (hordered : Ordered s.delivered) :
    NotDecreasing heightOf ⟨s, l, s'⟩ ↔ Ordered s'.delivered := by
  have hsame : s'.delivered = s.delivered →
      (NotDecreasing heightOf ⟨s, l, s'⟩ ↔ Ordered s'.delivered) := by
    intro h
    rw [NotDecreasing, hs.finalized, hs'.finalized, h]
    exact ⟨fun _ => hordered, fun _ => UInt64.le_refl _⟩
  cases l with
  | track x =>
      cases hstep with
      | track _ _ => exact hsame rfl
  | header celestiaHeight headerHash =>
      obtain ⟨new, -, hdelivered, -⟩ := header_step hstep
      exact hsame hdelivered
  | deliver =>
      obtain ⟨c, rest, -, -, hdelivered, -⟩ := deliver_step hs hstep
      rw [NotDecreasing, hs.finalized, hs'.finalized, hdelivered, lastHeight_append,
        ordered_append_singleton]
      exact (and_iff_right hordered).symm

/-- The finalized height never decreases when the delivered confirmations are
ordered by height, and only then. -/
theorem notDecreasing_run_iff (hs : Tracking heightOf executed s)
    (hrun : Run FinalityStep s ts s') (hordered : Ordered s.delivered)
    (htracks : ∀ tr ∈ ts, TracksExecuted heightOf executed tr) :
    (∀ tr ∈ ts, NotDecreasing heightOf tr) ↔ Ordered s'.delivered :=
  (hrun.forall_iff (J := fun s => Ordered s.delivered)
    (fun _ hstep hside hpre => hpre.step hstep hside)
    (fun _ hstep hside hpre => notDecreasing_iff hpre (hpre.step hstep hside) hstep)
    (fun _ hstep hpre hpost => hpost.sublist (prefix_of_step hpre hstep).2.sublist)
    htracks hs).2 hordered

theorem ascending_iff (hstep : FinalityStep s l s') (hs : Tracking heightOf executed s)
    (hordered : Ordered s.confirmed) : Ascending ⟨s, l, s'⟩ ↔ Ordered s'.confirmed := by
  cases l with
  | track x =>
      cases hstep with
      | track _ _ => exact ⟨fun _ => hordered, fun _ => trivial⟩
  | deliver =>
      obtain ⟨c, rest, -, hconfirmed, -⟩ := deliver_step hs hstep
      rw [hconfirmed]
      exact ⟨fun _ => hordered, fun _ => trivial⟩
  | header celestiaHeight headerHash =>
      obtain ⟨new, hconfirmed, -, -, -, -, -, hnewOrdered, hnew⟩ := header_step hstep
      rw [hconfirmed, Ordered, List.pairwise_append]
      constructor
      · intro hcond
        refine ⟨hordered, hnewOrdered, ?_⟩
        intro c hc d hd
        obtain ⟨e, he, hreached, rfl⟩ := (hnew d).mp hd
        exact hcond c hc e he hreached
      · rintro ⟨-, -, hall⟩ c hc e he hreached
        exact hall c hc _ ((hnew _).mpr ⟨e, he, hreached, rfl⟩)

theorem ascending_run_iff (hs : Tracking heightOf executed s) (hrun : Run FinalityStep s ts s')
    (hordered : Ordered s.confirmed)
    (htracks : ∀ tr ∈ ts, TracksExecuted heightOf executed tr) :
    (∀ tr ∈ ts, Ascending tr) ↔ Ordered s'.confirmed :=
  (hrun.forall_iff (J := fun s => Ordered s.confirmed)
    (fun _ hstep hside hpre => hpre.step hstep hside)
    (fun _ hstep _ hpre => ascending_iff hstep hpre)
    (fun _ hstep hpre hpost => hpost.sublist (prefix_of_step hpre hstep).1.sublist)
    htracks hs).2 hordered

/-- Firm finality only moves forward when every header meets the condition; once all
confirmations are delivered, only then. -/
theorem finalized_notDecreasing_iff (hgenesis : heightOf genesisHash = 0)
    (hrun : Run FinalityStep (initial genesisHash executed) ts s)
    (htracks : ∀ tr ∈ ts, TracksExecuted heightOf executed tr) :
    ((∀ tr ∈ ts, Ascending tr) → ∀ tr ∈ ts, NotDecreasing heightOf tr) ∧
      (s.node.confirmations = [] →
        ((∀ tr ∈ ts, NotDecreasing heightOf tr) ↔ ∀ tr ∈ ts, Ascending tr)) := by
  have hstart : Tracking heightOf executed (initial genesisHash executed) :=
    tracking_initial hgenesis
  have hsplit := (tracking_of_run hstart hrun htracks).1.split
  have hdelivered := notDecreasing_run_iff hstart hrun List.Pairwise.nil htracks
  have hconfirmed := ascending_run_iff hstart hrun List.Pairwise.nil htracks
  rw [hdelivered, hconfirmed]
  constructor
  · intro h
    refine h.sublist ?_
    rw [hsplit]
    exact List.sublist_append_left _ _
  · intro hfed
    rw [hsplit, hfed, List.append_nil]

end Invariant

section Examples

/-- A header is played with the order in which it visits the pending submissions. -/
inductive FinalityMove
  | track (submission : BlobSubmission)
  | header (celestiaHeight : UInt64) (headerHash : B256) (visit : List PendingEntry)
  | deliver

def visitingNode (visit : List PendingEntry) : Prog.Env NodeOp Ans NodeState :=
  acceptingNode { genesisBackend with visits := fun _ => visit }

theorem visitingNode_sound (visit : List PendingEntry) (o : NodeOp) (s : NodeState) (ans : Ans o)
    (s' : NodeState) (h : visitingNode visit o s = some (ans, s')) : acceptingSem o s ans s' := by
  refine ⟨acceptingNode_sound _ o s ans s' h, ?_⟩
  cases o <;> first
    | trivial
    | (cases h; rfl)

def playMove (s : FinalityState) : FinalityMove → Option (FinalityLabel × FinalityState)
  | .track x =>
      ((op (.track x)).run (visitingNode []) s.node).map fun r =>
        (.track x, { s with node := r.2.2 })
  | .header h hash visit =>
      ((processHeader h hash).run (visitingNode visit) s.node).map fun r =>
        (.header h hash,
          { s with
            node := r.2.2
            confirmed := s.confirmed ++ r.2.2.confirmations.drop s.node.confirmations.length })
  | .deliver =>
      match s.node.confirmations with
      | [] => none
      | c :: rest =>
          ((handleFinalityConfirmation c).run (visitingNode [])
            { s.node with confirmations := rest }).map fun r =>
              (.deliver, { s with node := r.2.2, delivered := s.delivered ++ [c] })

theorem step_of_playMove (s : FinalityState) (m : FinalityMove) (l : FinalityLabel)
    (s' : FinalityState) (h : playMove s m = some (l, s')) : FinalityStep s l s' := by
  cases m with
  | track x =>
      simp only [playMove] at h
      obtain ⟨⟨tr, a, node⟩, hrun, heq⟩ := Option.map_eq_some_iff.mp h
      cases heq
      exact .track x (Prog.exec_of_run (visitingNode_sound []) hrun)
  | header celestiaHeight headerHash visit =>
      simp only [playMove] at h
      obtain ⟨⟨tr, a, node⟩, hrun, heq⟩ := Option.map_eq_some_iff.mp h
      cases heq
      have hexec := Prog.exec_of_run (visitingNode_sound visit) hrun
      refine .header celestiaHeight headerHash hexec ?_
      obtain ⟨_, -, rfl⟩ := ensures_processHeader celestiaHeight headerHash _ _ _ hexec
      simp
  | deliver =>
      simp only [playMove] at h
      split at h
      · cases h
      · rename_i c rest hqueue
        obtain ⟨⟨tr, a, node⟩, hrun, heq⟩ := Option.map_eq_some_iff.mp h
        cases heq
        exact .deliver hqueue (Prog.exec_of_run (visitingNode_sound []) hrun)

def hashOf (n : Nat) : B256 := FixedBytes.repeatByte (UInt8.ofNat n)

def twoHeights (hash : B256) : UInt64 :=
  if hash = hashOf 1 then 1 else if hash = hashOf 2 then 2 else 0

def twoBlocks : Finset B256 := {hashOf 1, hashOf 2}

def submissionAt (n : Nat) : BlobSubmission where
  blockHash := hashOf n
  blockHeight := UInt64.ofNat n
  celestiaHeight := 10
  commitment := []

def entryAt (n : Nat) : PendingEntry := ⟨hashOf n, ⟨UInt64.ofNat n, 10⟩⟩

def oneByOne (first second : Nat) : List FinalityMove :=
  [.track (submissionAt first), .header 10 FixedBytes.zero [entryAt first], .deliver,
    .track (submissionAt second), .header 11 FixedBytes.zero [entryAt second], .deliver]

def oneByOneLabels (first second : Nat) : List FinalityLabel :=
  [.track (submissionAt first), .header 10 FixedBytes.zero, .deliver,
    .track (submissionAt second), .header 11 FixedBytes.zero, .deliver]

theorem tracksExecuted_of_labels {ts : List FinalityTransition} {first second : Nat}
    (hlabels : ts.map Transition.label = oneByOneLabels first second)
    (hfirst : hashOf first ∈ twoBlocks ∧ twoHeights (hashOf first) = UInt64.ofNat first)
    (hsecond : hashOf second ∈ twoBlocks ∧ twoHeights (hashOf second) = UInt64.ofNat second) :
    ∀ tr ∈ ts, TracksExecuted twoHeights twoBlocks tr := by
  intro tr htr
  have hlabel : tr.label ∈ oneByOneLabels first second := by
    rw [← hlabels]
    exact List.mem_map_of_mem htr
  simp only [oneByOneLabels, List.mem_cons, List.not_mem_nil, or_false] at hlabel
  rcases hlabel with h | h | h | h | h | h <;> rw [TracksExecuted, h]
  · exact hfirst
  · trivial
  · trivial
  · exact hsecond
  · trivial
  · trivial

theorem finalized_notDecreasing_iff_inOrder :
    ∃ ts s, Run FinalityStep (initial FixedBytes.zero twoBlocks) ts s ∧
      s.node.forkchoice.finalized = hashOf 2 ∧
      ((∀ tr ∈ ts, Ascending tr) → ∀ tr ∈ ts, NotDecreasing twoHeights tr) ∧
      (s.node.confirmations = [] →
        ((∀ tr ∈ ts, NotDecreasing twoHeights tr) ↔ ∀ tr ∈ ts, Ascending tr)) := by
  obtain ⟨ts, s, hrun, hcheck⟩ := exists_run_of_play step_of_playMove
    (initial FixedBytes.zero twoBlocks) (oneByOne 1 2)
    (fun ts s => decide (ts.map Transition.label = oneByOneLabels 1 2 ∧
      s.node.forkchoice.finalized = hashOf 2)) (by decide +kernel)
  obtain ⟨hlabels, hfinalized⟩ := of_decide_eq_true hcheck
  exact ⟨ts, s, hrun, hfinalized, finalized_notDecreasing_iff (by decide +kernel) hrun
    (tracksExecuted_of_labels hlabels (by decide +kernel) (by decide +kernel))⟩

def headerHeightOf : FinalityLabel → Option UInt64
  | .header celestiaHeight _ => some celestiaHeight
  | _ => none

theorem lateTracking_decreases :
    ¬ ∀ (heightOf : B256 → UInt64) (executed : Finset B256) (genesisHash : B256)
      (ts : List FinalityTransition) (s : FinalityState),
      heightOf genesisHash = 0 → Set.InjOn heightOf executed →
      Run FinalityStep (initial genesisHash executed) ts s →
      (∀ tr ∈ ts, TracksExecuted heightOf executed tr) →
      (ts.filterMap fun tr => headerHeightOf tr.label).Pairwise (· ≤ ·) →
      s.node.confirmations = [] → ∀ tr ∈ ts, NotDecreasing heightOf tr := by
  intro hclaim
  obtain ⟨ts, s, hrun, hcheck⟩ := exists_run_of_play step_of_playMove
    (initial FixedBytes.zero twoBlocks) (oneByOne 2 1)
    (fun ts s => decide (ts.map Transition.label = oneByOneLabels 2 1 ∧
      s.node.confirmations = [] ∧ s.confirmed.map FinalityConfirmation.blockHeight = [2, 1]))
    (by decide +kernel)
  obtain ⟨hlabels, hfed, hconfirmed⟩ := of_decide_eq_true hcheck
  have htracks := tracksExecuted_of_labels hlabels (by decide +kernel) (by decide +kernel)
  have hheaders : (ts.filterMap fun tr => headerHeightOf tr.label) = [10, 11] := by
    have hmap : (ts.filterMap fun tr => headerHeightOf tr.label) =
        (ts.map Transition.label).filterMap headerHeightOf := by
      rw [List.filterMap_map]
      rfl
    rw [hmap, hlabels]
    rfl
  have hmono := hclaim twoHeights twoBlocks FixedBytes.zero ts s (by decide +kernel)
    (by
      intro x hx y hy hxy
      revert hxy
      simp only [twoBlocks, Finset.coe_insert, Finset.coe_singleton, Set.mem_insert_iff,
        Set.mem_singleton_iff] at hx hy
      rcases hx with rfl | rfl <;> rcases hy with rfl | rfl <;> decide +kernel)
    hrun htracks (by rw [hheaders]; decide) hfed
  have hstart : Tracking twoHeights twoBlocks (initial FixedBytes.zero twoBlocks) :=
    tracking_initial (by decide +kernel)
  have hordered : Ordered s.confirmed := by
    rw [(tracking_of_run hstart hrun htracks).1.split, hfed, List.append_nil]
    exact (notDecreasing_run_iff hstart hrun List.Pairwise.nil htracks).mp hmono
  have hheights := List.pairwise_map.mpr hordered
  rw [hconfirmed] at hheights
  revert hheights
  decide

end Examples

end Rkb.Sequencer.FirmFinality
