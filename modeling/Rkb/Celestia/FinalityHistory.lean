import Rkb.Library.Runs
import Rkb.Celestia.Finality

namespace Rkb.Celestia.FinalityHistory

open Rkb.Library.Bytes
open Rkb.Library.Runs
open Rkb.Types.Blocks
open Rkb.Celestia.Blobs
open Rkb.Celestia.Finality

/-- A call of the tracker; one of `on_celestia_finality` with the list that it returned. -/
inductive TrackerCall
  | track (submission : BlobSubmission)
  | header (celestiaHeight : UInt64) (headerHash : B256) (returned : List FinalityConfirmation)

inductive TrackerStep : FinalityTracker → TrackerCall → FinalityTracker → Prop
  | track (self : FinalityTracker) (submission : BlobSubmission) :
      TrackerStep self (.track submission) (self.track submission)
  | header (self : FinalityTracker) {visit : List PendingEntry} (celestiaHeight : UInt64)
      (headerHash : B256) :
      (visit : Multiset PendingEntry) = self.pending.entries →
      TrackerStep self
        (.header celestiaHeight headerHash
          (self.onCelestiaFinality visit celestiaHeight headerHash).2)
        (self.onCelestiaFinality visit celestiaHeight headerHash).1

abbrev TrackerTransition : Type := Transition FinalityTracker TrackerCall

def trackedOf : TrackerCall → Option BlobSubmission
  | .track submission => some submission
  | .header _ _ _ => none

def tracked (ts : List TrackerTransition) : List BlobSubmission :=
  ts.filterMap fun t => trackedOf t.label

def returnedOf : TrackerCall → List FinalityConfirmation
  | .track _ => []
  | .header _ _ returned => returned

def reportsOf (blockHash : B256) (t : TrackerTransition) : List FinalityConfirmation :=
  (returnedOf t.label).filter fun c => c.blockHash = blockHash

def confirmationOf (submission : BlobSubmission) (headerHash : B256) : FinalityConfirmation where
  blockHash := submission.blockHash
  blockHeight := submission.blockHeight
  celestiaHeight := submission.celestiaHeight
  celestiaHeaderHash := headerHash

/-- The confirmation of a submission, where the call has a header at its height or above. -/
def reaches (submission : BlobSubmission) : TrackerCall → Option FinalityConfirmation
  | .track _ => none
  | .header celestiaHeight headerHash _ =>
      if submission.celestiaHeight ≤ celestiaHeight then
        some (confirmationOf submission headerHash)
      else none

/-- One confirmation, in the first call that reaches the submission. -/
def firstReached (submission : BlobSubmission) :
    List TrackerTransition → List (List FinalityConfirmation)
  | [] => []
  | t :: ts =>
      match reaches submission t.label with
      | some confirmation => [confirmation] :: ts.map fun _ => []
      | none => [] :: firstReached submission ts

/-- The submissions that no later header has reached. -/
def awaiting : List TrackerTransition → List BlobSubmission
  | [] => []
  | t :: ts =>
      ((trackedOf t.label).filter fun submission =>
        ts.all fun u => (reaches submission u.label).isNone).toList ++ awaiting ts

section Awaiting

variable {ts us ws : List TrackerTransition} {t : TrackerTransition}
  {submission : BlobSubmission}

theorem tracked_append : tracked (us ++ ws) = tracked us ++ tracked ws := List.filterMap_append

theorem awaiting_sublist : (awaiting ts).Sublist (tracked ts) := by
  induction ts with
  | nil => exact List.Sublist.refl _
  | cons t ts ih =>
      rw [awaiting, tracked, List.filterMap_cons]
      cases trackedOf t.label with
      | none => exact ih
      | some submission =>
          dsimp only
          rw [Option.filter_some]
          split
          · exact ih.cons_cons submission
          · exact ih.cons submission

theorem awaiting_append_singleton (t : TrackerTransition) :
    awaiting (ts ++ [t]) =
      (awaiting ts).filter (fun submission => (reaches submission t.label).isNone) ++
        (trackedOf t.label).toList := by
  induction ts with
  | nil => cases h : trackedOf t.label <;> simp [awaiting, h]
  | cons u ts ih =>
      rw [List.cons_append, awaiting, ih, awaiting, List.filter_append, List.append_assoc]
      congr 1
      cases trackedOf u.label with
      | none => rfl
      | some submission =>
          simp only [Option.filter_some, List.all_append, List.all_cons, List.all_nil,
            Bool.and_true]
          cases ts.all fun u => (reaches submission u.label).isNone with
          | false => rfl
          | true => cases hreached : (reaches submission t.label).isNone <;> simp [hreached]

theorem mem_awaiting_iff (ht : t.label = .track submission)
    (hws : ∀ u ∈ ws, u.label ≠ .track submission) :
    submission ∈ awaiting (us ++ t :: ws) ↔ ∀ u ∈ ws, reaches submission u.label = none := by
  induction ws using List.reverseRecOn with
  | nil =>
      rw [awaiting_append_singleton, ht]
      simp [trackedOf]
  | append_singleton ws u ih =>
      have hrest := ih fun v hv => hws v (List.mem_append_left _ hv)
      have hu := hws u (List.mem_append_right _ List.mem_cons_self)
      have hother : submission ∉ (trackedOf u.label).toList := by
        cases hlabel : u.label with
        | header celestiaHeight headerHash returned => simp [trackedOf]
        | track other =>
            rw [hlabel] at hu
            simp only [trackedOf, Option.toList_some, List.mem_singleton]
            rintro rfl
            exact hu rfl
      rw [← List.cons_append, ← List.append_assoc, awaiting_append_singleton, List.mem_append,
        List.mem_filter, hrest, or_iff_left hother, Option.isNone_iff_eq_none,
        List.forall_mem_append, List.forall_mem_singleton]

end Awaiting

def entryOf (submission : BlobSubmission) : PendingEntry :=
  ⟨submission.blockHash, ⟨submission.blockHeight, submission.celestiaHeight⟩⟩

section Tracker

variable {a b : FinalityTracker} {t : TrackerTransition} {submission : BlobSubmission}
  {xs : List BlobSubmission}

theorem entries_track (h : submission.blockHash ∉ a.pending) :
    (a.track submission).pending.entries = entryOf submission ::ₘ a.pending.entries :=
  Finmap.entries_insert_of_notMem h

theorem isNone_reaches {celestiaHeight : UInt64} {headerHash : B256}
    {returned : List FinalityConfirmation} :
    (reaches submission (.header celestiaHeight headerHash returned)).isNone =
      FinalityTracker.keeps celestiaHeight (entryOf submission).1 (entryOf submission).2 := by
  show (if submission.celestiaHeight ≤ celestiaHeight then some _ else none).isNone =
    decide (celestiaHeight < submission.celestiaHeight)
  split
  · rename_i hreached
    exact (decide_eq_false (UInt64.not_lt.mpr hreached)).symm
  · rename_i hreached
    exact (decide_eq_true (UInt64.not_le.mp hreached)).symm

theorem entries_step {call : TrackerCall} (hstep : TrackerStep a call b)
    (hentries : a.pending.entries = xs.map entryOf)
    (hnew : ∀ submission, trackedOf call = some submission →
      submission.blockHash ∉ xs.map BlobSubmission.blockHash) :
    b.pending.entries =
      ((xs.filter fun submission => (reaches submission call).isNone) ++
        (trackedOf call).toList).map entryOf := by
  cases hstep with
  | track submission =>
      have hnotMem : submission.blockHash ∉ a.pending := by
        rw [Finmap.mem_def, hentries, Multiset.keys, Multiset.map_coe, List.map_map]
        exact hnew submission rfl
      have hkeep : (xs.filter fun s => (reaches s (.track submission)).isNone) = xs :=
        List.filter_eq_self.mpr fun _ _ => rfl
      rw [entries_track hnotMem, hentries, hkeep, List.map_append, ← Multiset.coe_add,
        add_comm]
      rfl
  | header celestiaHeight headerHash hvisit =>
      simp only [isNone_reaches, trackedOf, Option.toList_none, List.append_nil]
      show a.pending.entries.filter _ = _
      rw [hentries, Multiset.filter_coe, List.filter_map]
      simp only [Bool.decide_eq_true]
      rfl

theorem filter_blockHash (hnodup : (xs.map BlobSubmission.blockHash).Nodup)
    (hinj : ∀ s ∈ xs, s.blockHash = submission.blockHash → s = submission) :
    (xs.filter fun s => s.blockHash = submission.blockHash) =
      if submission ∈ xs then [submission] else [] := by
  have hsame : ∀ s ∈ xs, decide (s.blockHash = submission.blockHash) = (s == submission) := by
    intro s hs
    rw [beq_eq_decide]
    apply decide_eq_decide.mpr
    exact ⟨hinj s hs, congrArg _⟩
  rw [List.filter_congr hsame, List.filter_beq]
  split
  · rename_i hmem
    rw [List.count_eq_one_of_mem hnodup.of_map hmem]
    rfl
  · rename_i hmem
    rw [List.count_eq_zero.mpr hmem]
    rfl

theorem returnedOf_perm {call : TrackerCall} (hstep : TrackerStep a call b)
    (hentries : a.pending.entries = xs.map entryOf) :
    (returnedOf call).Perm (xs.filterMap fun s => reaches s call) := by
  cases hstep with
  | track other =>
      have hnone : (xs.filterMap fun s => reaches s (.track other)) = [] :=
        List.filterMap_eq_nil_iff.mpr fun _ _ => rfl
      rw [hnone]
      exact List.Perm.refl []
  | @header visit celestiaHeight headerHash hvisit =>
      have hperm : visit.Perm (xs.map entryOf) :=
        Multiset.coe_eq_coe.mp (hvisit.trans hentries)
      have hreached := hperm.filterMap fun e =>
        if !FinalityTracker.keeps celestiaHeight e.1 e.2 then
          some (FinalityTracker.buildConfirmation e.1 e.2 headerHash)
        else none
      rw [← List.filterMap_filter, List.filterMap_map] at hreached
      refine (List.perm_insertionSort _ _).trans ?_
      rw [← List.filterMap_eq_map]
      refine hreached.trans (List.Perm.of_eq ?_)
      apply List.filterMap_congr
      intro s _
      show (if !decide (celestiaHeight < s.celestiaHeight) then some (confirmationOf s headerHash)
        else none) = if s.celestiaHeight ≤ celestiaHeight then some (confirmationOf s headerHash)
        else none
      simp

theorem sorted_of_step {call : TrackerCall} (hstep : TrackerStep a call b) :
    (returnedOf call).Pairwise fun c d => c.blockHeight ≤ d.blockHeight := by
  cases hstep with
  | track submission => exact List.Pairwise.nil
  | header celestiaHeight headerHash hvisit => exact FinalityTracker.sorted_confirmations _ _ _ _

theorem blockHash_of_reaches {call : TrackerCall} {c : FinalityConfirmation}
    (h : reaches submission call = some c) : c.blockHash = submission.blockHash := by
  cases call with
  | track other => cases h
  | header celestiaHeight headerHash returned =>
      rw [reaches] at h
      split at h
      · exact congrArg FinalityConfirmation.blockHash (Option.some.inj h).symm
      · cases h

theorem reportsOf_step (hstep : TrackerStep a t.label b)
    (hentries : a.pending.entries = xs.map entryOf)
    (hnodup : (xs.map BlobSubmission.blockHash).Nodup)
    (hinj : ∀ s ∈ xs, s.blockHash = submission.blockHash → s = submission) :
    reportsOf submission.blockHash t =
      if submission ∈ xs then (reaches submission t.label).toList else [] := by
  have hsame : ∀ s ∈ xs, (reaches s t.label).filter (fun c => c.blockHash = submission.blockHash) =
      if decide (s.blockHash = submission.blockHash) then reaches s t.label else none := by
    intro s _
    cases hreached : reaches s t.label with
    | none => exact (ite_self _).symm
    | some c =>
        have hhash := blockHash_of_reaches hreached
        simp only [Option.filter_some, hhash]
  have hperm := (returnedOf_perm hstep hentries).filter fun c =>
    c.blockHash = submission.blockHash
  rw [List.filter_filterMap, List.filterMap_congr hsame, ← List.filterMap_filter,
    filter_blockHash hnodup hinj] at hperm
  rw [reportsOf]
  split
  · rename_i hmem
    rw [if_pos hmem] at hperm
    cases hreached : reaches submission t.label with
    | none =>
        rw [List.filterMap_cons, hreached] at hperm
        exact hperm.eq_nil
    | some c =>
        rw [List.filterMap_cons, hreached] at hperm
        exact hperm.eq_singleton
  · rename_i hmem
    rw [if_neg hmem] at hperm
    exact hperm.eq_nil

end Tracker

section History

variable {b : FinalityTracker} {ts us vs ws : List TrackerTransition} {t : TrackerTransition}
  {submission : BlobSubmission}

abbrev Distinct (ts : List TrackerTransition) : Prop :=
  ((tracked ts).map BlobSubmission.blockHash).Nodup

theorem Distinct.awaiting (h : Distinct ts) :
    ((awaiting ts).map BlobSubmission.blockHash).Nodup :=
  h.sublist (awaiting_sublist.map _)

theorem Distinct.begins (h : Distinct (us ++ ws)) : Distinct us := by
  rw [Distinct, tracked_append, List.map_append] at h
  exact h.of_append_left

theorem mem_tracked (ht : t ∈ ts) (h : trackedOf t.label = some submission) :
    submission ∈ tracked ts :=
  List.mem_filterMap.mpr ⟨t, ht, h⟩

theorem entries_awaiting (hrun : Run TrackerStep FinalityTracker.new ts b)
    (hdistinct : Distinct ts) : b.pending.entries = (awaiting ts).map entryOf := by
  refine hrun.history (fun us b => Distinct us → b.pending.entries = (awaiting us).map entryOf)
    (fun _ => rfl) ?_ hdistinct
  intro us t _ hstep ih hdistinct
  have hus : Distinct us := hdistinct.begins
  rw [awaiting_append_singleton]
  apply entries_step hstep (ih hus)
  intro submission htracked hmem
  rw [Distinct, tracked_append, List.map_append] at hdistinct
  exact hdistinct.disjoint ((awaiting_sublist.map _).subset hmem)
    (List.mem_map_of_mem (mem_tracked List.mem_cons_self htracked))

theorem reportsOf_at (hrun : Run TrackerStep FinalityTracker.new (us ++ t :: ws) b)
    (hdistinct : Distinct (us ++ t :: ws)) (htracked : submission ∈ tracked (us ++ t :: ws)) :
    reportsOf submission.blockHash t =
      if submission ∈ awaiting us then (reaches submission t.label).toList else [] := by
  have hus : Distinct us := hdistinct.begins
  have hstep := hrun.step_of_mem (List.mem_append_right us List.mem_cons_self)
  refine reportsOf_step hstep (entries_awaiting hrun.at_step.1 hus) hus.awaiting ?_
  intro s hs hhash
  refine List.inj_on_of_nodup_map hdistinct ?_ htracked hhash
  rw [tracked_append]
  exact List.mem_append_left _ (awaiting_sublist.subset hs)

theorem notMem_tracked (hdistinct : Distinct (us ++ ws)) (htracked : submission ∈ tracked us) :
    submission ∉ tracked ws := by
  intro hagain
  rw [Distinct, tracked_append, List.map_append] at hdistinct
  exact hdistinct.disjoint (List.mem_map_of_mem htracked) (List.mem_map_of_mem hagain)

theorem reports_before (hrun : Run TrackerStep FinalityTracker.new (us ++ ws) b)
    (hdistinct : Distinct (us ++ ws)) (htracked : submission ∈ tracked ws) :
    us.map (reportsOf submission.blockHash) = us.map fun _ => [] := by
  apply List.map_congr_left
  intro u hu
  obtain ⟨us₁, us₂, rfl⟩ := List.append_of_mem hu
  rw [List.append_assoc] at hrun hdistinct
  have hlater : submission ∈ tracked (u :: us₂ ++ ws) := by
    rw [tracked_append]
    exact List.mem_append_right _ htracked
  have hnot : submission ∉ awaiting us₁ := fun hmem =>
    notMem_tracked hdistinct (awaiting_sublist.subset hmem) hlater
  have hall : submission ∈ tracked (us₁ ++ (u :: us₂ ++ ws)) := by
    rw [tracked_append]
    exact List.mem_append_right _ hlater
  exact (reportsOf_at hrun hdistinct hall).trans (if_neg hnot)

/-- What the calls after the tracking report: the first header that reaches the
submission confirms it, and it waits no longer. -/
theorem reports_from (hrun : Run TrackerStep FinalityTracker.new (us ++ ws) b)
    (hdistinct : Distinct (us ++ ws)) (htracked : submission ∈ tracked us) :
    ws.map (reportsOf submission.blockHash) =
      if submission ∈ awaiting us then firstReached submission ws else ws.map fun _ => [] := by
  induction ws generalizing us with
  | nil => exact (ite_self _).symm
  | cons u ws ih =>
      have hother : submission ∉ (trackedOf u.label).toList := by
        intro hmem
        exact notMem_tracked hdistinct htracked
          (mem_tracked List.mem_cons_self (Option.mem_toList.mp hmem))
      have hall : submission ∈ tracked (us ++ u :: ws) := by
        rw [tracked_append]
        exact List.mem_append_left _ htracked
      have hhere := reportsOf_at hrun hdistinct hall
      have hbefore : submission ∈ tracked (us ++ [u]) := by
        rw [tracked_append]
        exact List.mem_append_left _ htracked
      rw [← List.singleton_append, ← List.append_assoc] at hrun hdistinct
      have hrest := ih hrun hdistinct hbefore
      simp only [awaiting_append_singleton, List.mem_append, or_iff_left hother, List.mem_filter,
        Option.isNone_iff_eq_none] at hrest
      rw [List.map_cons, hhere, hrest, firstReached]
      by_cases hmem : submission ∈ awaiting us
      · cases reaches submission u.label with
        | none => simp [hmem]
        | some c => simp [hmem]
      · simp [hmem]

/-- Each submission is confirmed once, by the first header that reaches it after it was
tracked, and until then it is among those counted. -/
theorem confirmed_once (hrun : Run TrackerStep FinalityTracker.new ts b)
    (hdistinct : Distinct ts) :
    b.pendingCount = (awaiting ts).length ∧
      (∀ u ∈ ts, (returnedOf u.label).Pairwise (fun c d => c.blockHeight ≤ d.blockHeight) ∧
        ∀ c ∈ returnedOf u.label, c.blockHash ∈ (tracked ts).map BlobSubmission.blockHash) ∧
      ∀ us t vs submission, ts = us ++ t :: vs → t.label = .track submission →
        (submission ∈ awaiting ts ↔ ∀ u ∈ vs, reaches submission u.label = none) ∧
        ts.map (reportsOf submission.blockHash) =
          us.map (fun _ => []) ++ [] :: firstReached submission vs := by
  refine ⟨?_, ?_, ?_⟩
  · rw [FinalityTracker.pendingCount, entries_awaiting hrun hdistinct, Multiset.coe_card,
      List.length_map]
  · intro u hu
    have hstep := hrun.step_of_mem hu
    refine ⟨sorted_of_step hstep, ?_⟩
    intro c hc
    obtain ⟨us, vs, rfl⟩ := List.append_of_mem hu
    have hperm := returnedOf_perm hstep (entries_awaiting hrun.at_step.1 hdistinct.begins)
    obtain ⟨submission, hmem, hreached⟩ := List.mem_filterMap.mp (hperm.mem_iff.mp hc)
    rw [tracked_append, blockHash_of_reaches hreached, List.map_append]
    exact List.mem_append_left _ (List.mem_map_of_mem (awaiting_sublist.subset hmem))
  · rintro us t vs submission rfl ht
    have hnow : submission ∈ tracked [t] :=
      mem_tracked List.mem_cons_self (congrArg trackedOf ht)
    have hthrough : submission ∈ tracked (us ++ [t]) := by
      rw [tracked_append]
      exact List.mem_append_right _ hnow
    have hsplit : us ++ t :: vs = (us ++ [t]) ++ vs := by
      rw [List.append_assoc, List.singleton_append]
    constructor
    · apply mem_awaiting_iff ht
      intro u hu hlabel
      rw [hsplit] at hdistinct
      exact notMem_tracked hdistinct hthrough (mem_tracked hu (congrArg trackedOf hlabel))
    · have hlater : submission ∈ tracked (t :: vs) := by
        rw [← List.singleton_append, tracked_append]
        exact List.mem_append_left _ hnow
      have hbefore := reports_before hrun hdistinct hlater
      have hreport : reportsOf submission.blockHash t = [] := by
        rw [reportsOf, ht]
        rfl
      rw [List.map_append, List.map_cons, hbefore, hreport]
      rw [hsplit] at hrun hdistinct
      rw [reports_from hrun hdistinct hthrough, if_pos]
      rw [awaiting_append_singleton, ht]
      exact List.mem_append_right _ (List.mem_singleton_self submission)

def early : BlobSubmission := ⟨FixedBytes.repeatByte 1, 4, 5, []⟩

def late : BlobSubmission := ⟨FixedBytes.repeatByte 2, 1, 2, []⟩

theorem confirmed_once_late :
    ∃ ts b, Run TrackerStep FinalityTracker.new ts b ∧ b.pendingCount = 0 ∧
      ts.map (reportsOf late.blockHash) = [[], [], [], [confirmationOf late FixedBytes.zero]] := by
  have hrun := Run.cons (TrackerStep.track FinalityTracker.new early) <|
    .cons (@TrackerStep.header _ [entryOf early] 3 FixedBytes.zero rfl) <|
    .cons (TrackerStep.track _ late) <|
    .cons (@TrackerStep.header _ [entryOf late, entryOf early] 5 FixedBytes.zero rfl) <| .nil _
  obtain ⟨hcount, -, hreports⟩ := confirmed_once hrun (by decide +kernel)
  refine ⟨_, _, hrun, hcount.trans (by decide +kernel), ?_⟩
  exact (hreports [_, _] _ [_] late rfl rfl).2.trans (by decide +kernel)

end History

end Rkb.Celestia.FinalityHistory
