import Rkb.Library.Runs
import Rkb.Sequencer.SyncPlan

namespace Rkb.Node.IndexLog

open Rkb.Library.Bytes
open Rkb.Library.Maps
open Rkb.Library.Program
open Rkb.Library.Runs
open Rkb.Library.Text
open Rkb.Types.Blocks
open Rkb.Execution.Errors
open Rkb.Celestia.Index
open Rkb.Sequencer.SyncPlan
open Rkb.Node.Effects
open Rkb.Node.Shared

structure IndexState where
  node : NodeState
  index : Option BlockIndex

namespace IndexState

def fresh (s : NodeState) : IndexState where
  node := { s with indexFile := none }
  index := none

def text (a : IndexState) : List Char := indexText a.node

end IndexState

/-- An insert completes, returns an error, or is cut short by a crash. -/
inductive IndexLabel
  | opened
  | notOpened
  | inserted (entry : IndexEntry)
  | failed (entry : IndexEntry)
  | crashed (entry : IndexEntry)
  | dropped

inductive IndexStep (json : IndexJson) : IndexState → IndexLabel → IndexState → Prop
  | opened {s s' : NodeState} {tr : List NodeEvent} {index : BlockIndex} :
      (BlockIndex.openIndex json).Exec nodeSem s tr (.ok index) s' →
      IndexStep json ⟨s, none⟩ .opened ⟨s', some index⟩
  | notOpened {s s' : NodeState} {tr : List NodeEvent} {e : CelestiaError} :
      (BlockIndex.openIndex json).Exec nodeSem s tr (.error e) s' →
      IndexStep json ⟨s, none⟩ .notOpened ⟨s', none⟩
  | inserted {s s' : NodeState} {tr : List NodeEvent} {index index' : BlockIndex}
      {entry : IndexEntry} :
      (index.insert json entry).Exec nodeSem s tr (.ok index') s' →
      IndexStep json ⟨s, some index⟩ (.inserted entry) ⟨s', some index'⟩
  | failed {s s' : NodeState} {tr : List NodeEvent} {index : BlockIndex} {entry : IndexEntry}
      {e : CelestiaError} :
      (index.insert json entry).Exec nodeSem s tr (.error e) s' →
      IndexStep json ⟨s, some index⟩ (.failed entry) ⟨s', some index⟩
  | crashed {s : NodeState} {index : BlockIndex} {entry : IndexEntry} {written : List Char} :
      written <+: lineOf json entry →
      IndexStep json ⟨s, some index⟩ (.crashed entry)
        ⟨{ s with indexFile := some (indexText s ++ written) }, none⟩
  | dropped {s : NodeState} {index : BlockIndex} :
      IndexStep json ⟨s, some index⟩ .dropped ⟨s, none⟩

section Steps

variable {json : IndexJson} {s : NodeState} {a b : IndexState} {l : IndexLabel}

theorem ensures_insert {index : BlockIndex} (hfile : index.file = true) (entry : IndexEntry) :
    (index.insert json entry).Ensures nodeSem s fun _ r s' =>
      (∀ index', r = .ok index' →
        index' = index.record entry ∧ indexText s' = indexText s ++ lineOf json entry) ∧
      (∀ e, r = .error e →
        ∃ written, written <+: lineOf json entry ∧ indexText s' = indexText s ++ written) := by
  obtain ⟨text, htext, -⟩ := json.roundTrip entry
  unfold BlockIndex.insert lineOf
  simp only [htext, hfile, if_true]
  refine Prog.ensures_perform_bind.mpr ?_
  rintro answer s₁ (⟨rfl, rfl⟩ | ⟨e, written, hwritten, rfl, rfl⟩)
  · refine Prog.ensures_pure.mpr ⟨?_, ?_⟩
    · rintro _ ⟨rfl⟩
      exact ⟨rfl, rfl⟩
    · rintro _ ⟨⟩
  · cases e with
    | writeFailed e =>
        refine Prog.ensures_pure.mpr ⟨?_, ?_⟩
        · rintro _ ⟨⟩
        · rintro _ -
          exact ⟨written, hwritten, rfl⟩
    | flushFailed e =>
        refine Prog.ensures_pure.mpr ⟨?_, ?_⟩
        · rintro _ ⟨⟩
        · rintro _ -
          exact ⟨written, hwritten, rfl⟩

theorem ensures_openIndex :
    (BlockIndex.openIndex json).Ensures nodeSem s fun _ _ s' => indexText s' = indexText s := by
  have hkeeps : ∀ o : NodeOp, (o = .createIndexDir ∨ o = .indexExists ∨ o = .readIndexFile ∨
      o = .openIndexFile) → ∀ s₁ ans s₂, indexText s₁ = indexText s → nodeSem o s₁ ans s₂ →
      indexText s₂ = indexText s := by
    rintro o (rfl | rfl | rfl | rfl) s₁ ans s₂ hs₁ hsem
    · cases hsem
      exact hs₁
    · obtain ⟨-, rfl⟩ := hsem
      exact hs₁
    · obtain ⟨rfl, -⟩ := hsem
      exact hs₁
    · rcases hsem with ⟨-, rfl⟩ | ⟨-, rfl⟩
      · exact hs₁
      · exact hs₁
  refine Prog.Performs.keeps (J := fun s' => indexText s' = indexText s) ?_ hkeeps rfl
  refine (Prog.performs_perform (by simp)).bind fun created => ?_
  split
  · exact Prog.performs_pure _
  · refine Prog.Performs.bind ?_ fun replayed => ?_
    · refine (Prog.performs_perform (by simp)).bind fun found => ?_
      split
      · refine (Prog.performs_perform (by simp)).bind fun response => ?_
        split <;> exact Prog.performs_pure _
      · exact Prog.performs_pure _
    · split
      · exact Prog.performs_pure _
      · refine (Prog.performs_perform (by simp)).bind fun answer => ?_
        split <;> exact Prog.performs_pure _

/-- What a step does to the text of the file and to the index. -/
def Does (json : IndexJson) (a b : IndexState) : IndexLabel → Prop
  | .opened => b.text = a.text ∧ b.index = some (openedIndex json a.text)
  | .notOpened => b.text = a.text ∧ b.index = none
  | .inserted entry => b.text = a.text ++ lineOf json entry ∧
      b.index = a.index.map fun index => index.record entry
  | .failed entry => b.index = a.index ∧
      ∃ written, written <+: lineOf json entry ∧ b.text = a.text ++ written
  | .crashed entry => b.index = none ∧
      ∃ written, written <+: lineOf json entry ∧ b.text = a.text ++ written
  | .dropped => b.text = a.text ∧ b.index = none

def Writing (a : IndexState) : Prop := ∀ index ∈ a.index, index.file = true

theorem does_of_step (hwriting : Writing a) (h : IndexStep json a l b) : Does json a b l := by
  cases h with
  | opened h =>
      obtain ⟨rfl, -⟩ := succeeds_openIndex _ _ _ h _ rfl
      exact ⟨ensures_openIndex _ _ _ h, rfl⟩
  | notOpened h => exact ⟨ensures_openIndex _ _ _ h, rfl⟩
  | inserted h =>
      obtain ⟨rfl, htext⟩ := (ensures_insert (hwriting _ rfl) _ _ _ _ h).1 _ rfl
      exact ⟨htext, rfl⟩
  | failed h => exact ⟨rfl, (ensures_insert (hwriting _ rfl) _ _ _ _ h).2 _ rfl⟩
  | crashed h => exact ⟨rfl, _, h, rfl⟩
  | dropped => exact ⟨rfl, rfl⟩

theorem Does.writing (hwriting : Writing a) (h : Does json a b l) : Writing b := by
  intro index hindex
  cases l with
  | opened =>
      rw [h.2] at hindex
      cases hindex
      rfl
  | inserted entry =>
      rw [h.2] at hindex
      obtain ⟨before, hbefore, rfl⟩ := Option.map_eq_some_iff.mp hindex
      exact hwriting before hbefore
  | failed entry =>
      rw [h.1] at hindex
      exact hwriting index hindex
  | crashed entry => exact absurd (h.1.symm.trans hindex) (Option.some_ne_none index).symm
  | notOpened | dropped => exact absurd (h.2.symm.trans hindex) (Option.some_ne_none index).symm

theorem run_induction {ts : List (Transition IndexState IndexLabel)}
    (Inv : List (Transition IndexState IndexLabel) → IndexState → Prop)
    (hnil : Inv [] (.fresh s))
    (hstep : ∀ us t, us ++ [t] <+: ts → Does json t.pre t.post t.label → Inv us t.pre →
      Inv (us ++ [t]) t.post)
    (hrun : Run (IndexStep json) (.fresh s) ts b) : Inv ts b := by
  refine (hrun.history (fun us b => Writing b ∧ Inv us b) ⟨?_, hnil⟩ ?_).2
  · rintro _ ⟨⟩
  · rintro us t hus hlast ⟨hwriting, hinv⟩
    have hdoes := does_of_step hwriting hlast
    exact ⟨hdoes.writing hwriting, hstep us t hus hdoes hinv⟩

end Steps

section History

variable {json : IndexJson} {s : NodeState} {b : IndexState} {index : BlockIndex}
  {ts : List (Transition IndexState IndexLabel)}

/-- The entries that a replay of the text takes in, in their order. -/
def readEntries (json : IndexJson) (text : List Char) : List IndexEntry :=
  (lines text).filterMap fun line => if line.isEmpty then none else json.fromStr line

/-- The index of a process that has taken in these entries. -/
def indexOf (entries : List IndexEntry) : BlockIndex :=
  { entries.foldl BlockIndex.record BlockIndex.new with file := true }

theorem replayLines_eq_foldl (index : BlockIndex) (text : List Char) :
    index.replayLines json text = (readEntries json text).foldl BlockIndex.record index := by
  rw [BlockIndex.replayLines, readEntries, List.foldl_filterMap]
  congr 1
  funext index line
  split
  · rfl
  · rw [BlockIndex.parseAndInsert]
    cases json.fromStr line <;> rfl

theorem openedIndex_eq_indexOf (text : List Char) :
    openedIndex json text = indexOf (readEntries json text) := by
  rw [openedIndex, replayLines_eq_foldl]
  rfl

theorem indexOf_append_singleton (entries : List IndexEntry) (entry : IndexEntry) :
    indexOf (entries ++ [entry]) = (indexOf entries).record entry := by
  rw [indexOf, List.foldl_append]
  rfl

/-- The entries that the running process has taken in: those that it read when it opened
the file, and those that it has inserted. -/
def heldAfter (json : IndexJson) (entries : List IndexEntry)
    (t : Transition IndexState IndexLabel) : List IndexEntry :=
  match t.label with
  | .opened => readEntries json t.pre.text
  | .inserted entry => entries ++ [entry]
  | _ => entries

def held (json : IndexJson) (ts : List (Transition IndexState IndexLabel)) : List IndexEntry :=
  ts.foldl (heldAfter json) []

theorem held_append_singleton (t : Transition IndexState IndexLabel) :
    held json (ts ++ [t]) = heldAfter json (held json ts) t :=
  List.foldl_append

theorem index_eq_held (hrun : Run (IndexStep json) (.fresh s) ts b) :
    ∀ index ∈ b.index, index = indexOf (held json ts) := by
  refine run_induction (fun us b => ∀ index ∈ b.index, index = indexOf (held json us)) ?_ ?_ hrun
  · rintro _ ⟨⟩
  · rintro us ⟨a, l, c⟩ - hdoes hinv index hindex
    rw [held_append_singleton]
    cases l with
    | opened =>
        rw [hdoes.2] at hindex
        cases hindex
        exact openedIndex_eq_indexOf _
    | inserted entry =>
        rw [hdoes.2] at hindex
        obtain ⟨before, hbefore, rfl⟩ := Option.map_eq_some_iff.mp hindex
        rw [hinv before hbefore]
        exact (indexOf_append_singleton _ entry).symm
    | failed entry =>
        rw [hdoes.1] at hindex
        exact hinv index hindex
    | crashed entry => exact absurd (hdoes.1.symm.trans hindex) (Option.some_ne_none index).symm
    | notOpened | dropped =>
        exact absurd (hdoes.2.symm.trans hindex) (Option.some_ne_none index).symm

end History

section Refinement

variable {json : IndexJson} {s : NodeState} {b : IndexState} {index : BlockIndex}
  {ts : List (Transition IndexState IndexLabel)}

def insertAll (json : IndexJson) (index : BlockIndex) :
    List IndexEntry → NodeProg (Except CelestiaError BlockIndex)
  | [] => return .ok index
  | entry :: entries => do
      match ← index.insert json entry with
      | .error e => return .error e
      | .ok index => insertAll json index entries

theorem insertAll_eq_pure (hfile : index.file = false) (entries : List IndexEntry) :
    insertAll json index entries = Prog.pure (.ok (entries.foldl BlockIndex.record index)) := by
  induction entries generalizing index with
  | nil => rfl
  | cons entry entries ih =>
      obtain ⟨text, htext, -⟩ := json.roundTrip entry
      have hinsert : index.insert json entry = Prog.pure (.ok (index.record entry)) := by
        unfold BlockIndex.insert
        simp only [htext, hfile]
        rfl
      rw [insertAll, hinsert, Prog.pure_bind]
      exact ih hfile

def insertedEntry : IndexLabel → Option IndexEntry
  | .inserted entry => some entry
  | _ => none

def inserts (ts : List (Transition IndexState IndexLabel)) : List IndexEntry :=
  ts.filterMap fun t => insertedEntry t.label

def ReturnsOk : IndexLabel → Prop
  | .failed _ => False
  | .crashed _ => False
  | _ => True

theorem inserts_append_singleton (t : Transition IndexState IndexLabel) :
    inserts (ts ++ [t]) = inserts ts ++ (insertedEntry t.label).toList := by
  rw [inserts, List.filterMap_append]
  rfl

theorem text_eq_lines (hrun : Run (IndexStep json) (.fresh s) ts b)
    (hok : ∀ t ∈ ts, ReturnsOk t.label) :
    b.text = (inserts ts).flatMap (lineOf json) ∧
      ∀ index ∈ b.index, index = indexOf (inserts ts) := by
  refine run_induction (fun us b => b.text = (inserts us).flatMap (lineOf json) ∧
    ∀ index ∈ b.index, index = indexOf (inserts us)) ⟨rfl, ?_⟩ ?_ hrun
  · rintro _ ⟨⟩
  · rintro us ⟨a, l, c⟩ hus hdoes ⟨htext, hinv⟩
    have hreturns : ReturnsOk l := hok _ (hus.subset (List.mem_append_right us List.mem_cons_self))
    rw [inserts_append_singleton]
    cases l with
    | opened =>
        simp only [insertedEntry, Option.toList_none, List.append_nil]
        refine ⟨hdoes.1.trans htext, ?_⟩
        intro index hindex
        rw [hdoes.2] at hindex
        cases hindex
        rw [openedIndex, htext, BlockIndex.replayLines_flatMap]
        rfl
    | inserted entry =>
        refine ⟨?_, ?_⟩
        · rw [hdoes.1, htext]
          simp [insertedEntry]
        · intro index hindex
          rw [hdoes.2] at hindex
          obtain ⟨before, hbefore, rfl⟩ := Option.map_eq_some_iff.mp hindex
          rw [hinv before hbefore]
          exact (indexOf_append_singleton _ entry).symm
    | failed entry => exact hreturns.elim
    | crashed entry => exact hreturns.elim
    | notOpened | dropped =>
        simp only [insertedEntry, Option.toList_none, List.append_nil]
        refine ⟨hdoes.1.trans htext, ?_⟩
        intro index hindex
        exact absurd (hdoes.2.symm.trans hindex) (Option.some_ne_none index).symm

/-- However often the index was reopened between the inserts, its maps are those of one
that has executed all of them in memory. -/
theorem index_refines_memory (hrun : Run (IndexStep json) (.fresh s) ts b)
    (hok : ∀ t ∈ ts, ReturnsOk t.label) (hindex : b.index = some index) :
    ∃ reference, insertAll json BlockIndex.new (inserts ts) = Prog.pure (.ok reference) ∧
      index.byHeight = reference.byHeight ∧ index.byHash = reference.byHash := by
  refine ⟨_, insertAll_eq_pure rfl _, ?_⟩
  rw [(text_eq_lines hrun hok).2 index hindex]
  exact ⟨rfl, rfl⟩

end Refinement

section Coherence

variable {json : IndexJson} {s : NodeState} {b : IndexState} {index : BlockIndex}
  {entries : List IndexEntry} {ts : List (Transition IndexState IndexLabel)}

/-- The lookups by hash find entries with this hash, and find one for each entry. -/
structure Coherent (index : BlockIndex) : Prop where
  found : ∀ hash entry, index.getByHash hash = some entry → entry.blockHash = hash
  complete : ∀ height entry, index.byHeight.lookup height = some entry →
    ∃ entry', index.getByHash entry.blockHash = some entry' ∧
      entry'.blockHash = entry.blockHash

/-- No entry that is the last one of its hash is followed by an entry at its height. -/
def Undisplaced : List IndexEntry → Prop
  | [] => True
  | entry :: entries =>
      ((∃ later ∈ entries, later.blockHash = entry.blockHash) ∨
        ∀ later ∈ entries, later.blockHeight ≠ entry.blockHeight) ∧ Undisplaced entries

def lastOfHash (entries : List IndexEntry) (hash : B256) : Option IndexEntry :=
  lastWhere (fun entry => entry.blockHash = hash) entries

def lastAtHeight (entries : List IndexEntry) (height : UInt64) : Option IndexEntry :=
  lastWhere (fun entry => entry.blockHeight = height) entries

theorem byHash_foldl_record (index : BlockIndex) (entries : List IndexEntry) :
    (entries.foldl BlockIndex.record index).byHash =
      entries.foldl (fun m entry => m.insert entry.blockHash entry.blockHeight) index.byHash := by
  induction entries generalizing index with
  | nil => rfl
  | cons entry entries ih => exact ih (index.record entry)

theorem byHeight_foldl_record (index : BlockIndex) (entries : List IndexEntry) :
    (entries.foldl BlockIndex.record index).byHeight =
      entries.foldl (fun m entry => m.insert entry.blockHeight entry) index.byHeight := by
  induction entries generalizing index with
  | nil => rfl
  | cons entry entries ih => exact ih (index.record entry)

theorem lookup_byHash_indexOf (entries : List IndexEntry) (hash : B256) :
    (indexOf entries).byHash.lookup hash =
      (lastOfHash entries hash).map IndexEntry.blockHeight := by
  have hfold := lookup_foldl_insert IndexEntry.blockHash IndexEntry.blockHeight ∅ entries hash
  rw [Finmap.lookup_empty, Option.or_none] at hfold
  rw [← lastOfHash] at hfold
  rw [← hfold, indexOf, byHash_foldl_record]
  rfl

theorem lookup_byHeight_indexOf (entries : List IndexEntry) (height : UInt64) :
    (indexOf entries).byHeight.lookup height = lastAtHeight entries height := by
  have hfold := lookup_foldl_insert IndexEntry.blockHeight id ∅ entries height
  rw [Finmap.lookup_empty, Option.or_none, Option.map_id, id_eq] at hfold
  rw [lastAtHeight, ← hfold, indexOf, byHeight_foldl_record]
  rfl

theorem getByHash_indexOf (entries : List IndexEntry) (hash : B256) :
    (indexOf entries).getByHash hash =
      (lastOfHash entries hash).bind fun entry => lastAtHeight entries entry.blockHeight := by
  rw [BlockIndex.getByHash, lookup_byHash_indexOf]
  cases lastOfHash entries hash with
  | none => rfl
  | some entry => exact lookup_byHeight_indexOf entries entry.blockHeight

theorem lastOfHash_cons (entry : IndexEntry) (entries : List IndexEntry) (hash : B256) :
    lastOfHash (entry :: entries) hash =
      (lastOfHash entries hash).or (if entry.blockHash = hash then some entry else none) := by
  rw [lastOfHash, lastWhere_cons]
  simp only [decide_eq_true_eq]
  rfl

theorem lastAtHeight_cons (entry : IndexEntry) (entries : List IndexEntry) (height : UInt64) :
    lastAtHeight (entry :: entries) height =
      (lastAtHeight entries height).or
        (if entry.blockHeight = height then some entry else none) := by
  rw [lastAtHeight, lastWhere_cons]
  simp only [decide_eq_true_eq]
  rfl

theorem lastOfHash_eq_some {hash : B256} {entry : IndexEntry}
    (h : lastOfHash entries hash = some entry) : entry ∈ entries ∧ entry.blockHash = hash := by
  simpa using lastWhere_eq_some h

theorem lastAtHeight_eq_some {height : UInt64} {entry : IndexEntry}
    (h : lastAtHeight entries height = some entry) :
    entry ∈ entries ∧ entry.blockHeight = height := by
  simpa using lastWhere_eq_some h

theorem isSome_lastOfHash_of_mem {entry : IndexEntry} (h : entry ∈ entries) :
    (lastOfHash entries entry.blockHash).isSome = true := by
  rw [← Option.ne_none_iff_isSome]
  intro hnone
  exact lastWhere_eq_none.mp hnone entry h (decide_eq_true rfl)

theorem isSome_lastAtHeight_of_mem {entry : IndexEntry} (h : entry ∈ entries) :
    (lastAtHeight entries entry.blockHeight).isSome = true := by
  rw [← Option.ne_none_iff_isSome]
  intro hnone
  exact lastWhere_eq_none.mp hnone entry h (decide_eq_true rfl)

/-- The last entry at the height of this one has the given hash. -/
def KeepsHeight (entries : List IndexEntry) (hash : B256) (entry : IndexEntry) : Prop :=
  ∃ last, lastAtHeight entries entry.blockHeight = some last ∧ last.blockHash = hash

theorem keepsHeight_cons_of_mem {first entry : IndexEntry} {hash : B256}
    (h : entry ∈ entries) :
    KeepsHeight (first :: entries) hash entry ↔ KeepsHeight entries hash entry := by
  obtain ⟨last, hlast⟩ := Option.isSome_iff_exists.mp (isSome_lastAtHeight_of_mem h)
  rw [KeepsHeight, KeepsHeight, lastAtHeight_cons, hlast, Option.some_or]

theorem keepsHeight_cons_self {first : IndexEntry}
    (hunique : ∀ later ∈ entries, later.blockHash ≠ first.blockHash) :
    KeepsHeight (first :: entries) first.blockHash first ↔
      ∀ later ∈ entries, later.blockHeight ≠ first.blockHeight := by
  rw [KeepsHeight, lastAtHeight_cons, if_pos rfl]
  constructor
  · rintro ⟨last, hlast, hhash⟩ later hmem hheight
    obtain ⟨last', hlast'⟩ := Option.isSome_iff_exists.mp (isSome_lastAtHeight_of_mem hmem)
    rw [hheight] at hlast'
    rw [hlast', Option.some_or] at hlast
    cases hlast
    exact hunique last (lastAtHeight_eq_some hlast').1 hhash
  · intro hfree
    have hnone : lastAtHeight entries first.blockHeight = none := by
      apply lastWhere_eq_none.mpr
      simpa using hfree
    exact ⟨first, by rw [hnone, Option.none_or], rfl⟩

theorem lastOfHash_eq_none {hash : B256} :
    lastOfHash entries hash = none ↔ ∀ later ∈ entries, later.blockHash ≠ hash := by
  rw [lastOfHash, lastWhere_eq_none]
  simp only [decide_eq_true_eq]

theorem undisplaced_iff :
    Undisplaced entries ↔ ∀ hash entry, lastOfHash entries hash = some entry →
      KeepsHeight entries hash entry := by
  induction entries with
  | nil =>
      constructor
      · rintro - hash entry ⟨⟩
      · exact fun _ => trivial
  | cons first entries ih =>
      rw [Undisplaced, ih]
      constructor
      · rintro ⟨hfirst, hrest⟩ hash entry hlast
        rw [lastOfHash_cons] at hlast
        cases hlater : lastOfHash entries hash with
        | some later =>
            rw [hlater, Option.some_or] at hlast
            cases hlast
            apply (keepsHeight_cons_of_mem (lastOfHash_eq_some hlater).1).mpr
            exact hrest hash entry hlater
        | none =>
            rw [hlater, Option.none_or] at hlast
            split at hlast
            · rename_i hhash
              cases hlast
              subst hhash
              have hunique := lastOfHash_eq_none.mp hlater
              rcases hfirst with ⟨later, hmem, hsame⟩ | hfree
              · exact absurd hsame (hunique later hmem)
              · exact (keepsHeight_cons_self hunique).mpr hfree
            · cases hlast
      · intro hall
        constructor
        · by_cases hlater : ∃ later ∈ entries, later.blockHash = first.blockHash
          · exact .inl hlater
          · have hunique : ∀ later ∈ entries, later.blockHash ≠ first.blockHash := by
              simpa using hlater
            refine .inr ((keepsHeight_cons_self hunique).mp (hall _ first ?_))
            rw [lastOfHash_cons, lastOfHash_eq_none.mpr hunique, if_pos rfl, Option.none_or]
        · intro hash entry hlast
          apply (keepsHeight_cons_of_mem (lastOfHash_eq_some hlast).1).mp
          apply hall
          rw [lastOfHash_cons, hlast, Option.some_or]

theorem coherent_indexOf_iff : Coherent (indexOf entries) ↔ Undisplaced entries := by
  rw [undisplaced_iff]
  constructor
  · intro h hash entry hlast
    obtain ⟨last, hheight⟩ := Option.isSome_iff_exists.mp
      (isSome_lastAtHeight_of_mem (lastOfHash_eq_some hlast).1)
    refine ⟨last, hheight, h.found hash last ?_⟩
    rw [getByHash_indexOf, hlast]
    exact hheight
  · intro h
    refine ⟨?_, ?_⟩
    · intro hash entry hget
      rw [getByHash_indexOf] at hget
      obtain ⟨last, hlast, hheight⟩ := Option.bind_eq_some_iff.mp hget
      obtain ⟨entry', hheight', hhash⟩ := h hash last hlast
      rw [hheight] at hheight'
      cases hheight'
      exact hhash
    · intro height entry hlookup
      rw [lookup_byHeight_indexOf] at hlookup
      obtain ⟨last, hlast⟩ := Option.isSome_iff_exists.mp
        (isSome_lastOfHash_of_mem (lastAtHeight_eq_some hlookup).1)
      obtain ⟨entry', hheight, hhash⟩ := h _ last hlast
      refine ⟨entry', ?_, hhash⟩
      rw [getByHash_indexOf, hlast]
      exact hheight

/-- The lookups by hash are coherent exactly when no hash has lost its height to another. -/
theorem coherent_iff_undisplaced (hrun : Run (IndexStep json) (.fresh s) ts b)
    (hindex : b.index = some index) : Coherent index ↔ Undisplaced (held json ts) := by
  rw [index_eq_held hrun index hindex]
  exact coherent_indexOf_iff

end Coherence

section Runs

variable {json : IndexJson} {index : BlockIndex}

theorem exists_exec_openIndex (json : IndexJson) (s : NodeState) :
    ∃ tr, (BlockIndex.openIndex json).Exec nodeSem s tr (.ok (openedIndex json (indexText s)))
      { s with indexFile := some (indexText s) } := by
  obtain ⟨f, c, e, q, p, t, k, x, y, file⟩ := s
  cases file with
  | none =>
      exact ⟨_, (.ok () : Except String Unit), _, _, rfl, rfl, false, _, _, rfl, ⟨rfl, rfl⟩,
        (.ok () : Except String Unit), _, _, rfl, .inl ⟨rfl, rfl⟩, rfl, rfl, rfl⟩
  | some text =>
      exact ⟨_, (.ok () : Except String Unit), _, _, rfl, rfl, true, _, _, rfl, ⟨rfl, rfl⟩,
        (.ok text : Except IndexReadError (List Char)), _, _, rfl,
        ⟨rfl, fun _ h => congrArg some (Except.ok.inj h)⟩,
        (.ok () : Except String Unit), _, _, rfl, .inl ⟨rfl, rfl⟩, rfl, rfl, rfl⟩

theorem step_opened (s : NodeState) :
    IndexStep json ⟨s, none⟩ .opened
      ⟨{ s with indexFile := some (indexText s) }, some (openedIndex json (indexText s))⟩ := by
  obtain ⟨tr, hexec⟩ := exists_exec_openIndex json s
  exact .opened hexec

theorem step_inserted (s : NodeState) (hfile : index.file = true) (entry : IndexEntry) :
    IndexStep json ⟨s, some index⟩ (.inserted entry)
      ⟨{ s with indexFile := some (indexText s ++ lineOf json entry) },
        some (index.record entry)⟩ := by
  obtain ⟨text, htext, -⟩ := json.roundTrip entry
  have hexec : (index.insert json entry).Exec nodeSem s
      [⟨.appendIndexFile (text ++ ['\n']), (.ok () : Except IndexAppendError Unit)⟩]
      (.ok (index.record entry))
      { s with indexFile := some (indexText s ++ lineOf json entry) } := by
    unfold BlockIndex.insert lineOf
    simp only [htext, hfile, if_true]
    exact ⟨(.ok () : Except IndexAppendError Unit), _, _, rfl, .inl ⟨rfl, rfl⟩, rfl, rfl, rfl⟩
  exact .inserted hexec

theorem exists_run_inserts (json : IndexJson) (s : NodeState) (entries : List IndexEntry) :
    ∃ ts node, Run (IndexStep json) (.fresh s) ts ⟨node, some (indexOf entries)⟩ ∧
      inserts ts = entries ∧ held json ts = entries ∧ ∀ t ∈ ts, ReturnsOk t.label := by
  induction entries using List.reverseRecOn with
  | nil =>
      refine ⟨_, _, .cons (step_opened _) (.nil _), rfl, rfl, ?_⟩
      intro t ht
      obtain rfl := List.mem_singleton.mp ht
      trivial
  | append_singleton entries entry ih =>
      obtain ⟨ts, node, hrun, hinserts, hheld, hok⟩ := ih
      have hlast := @step_inserted json (indexOf entries) node rfl entry
      rw [← indexOf_append_singleton] at hlast
      refine ⟨_, _, hrun.append (.cons hlast (.nil _)), ?_, ?_, ?_⟩
      · rw [inserts_append_singleton, hinserts]
        rfl
      · rw [held_append_singleton, hheld]
        rfl
      · intro t ht
        rcases List.mem_append.mp ht with ht | ht
        · exact hok t ht
        · obtain rfl := List.mem_singleton.mp ht
          trivial

def entryAt (height : UInt64) (hashByte : UInt8) : IndexEntry :=
  ⟨height, FixedBytes.repeatByte hashByte, 100, [1, 2, 3]⟩

theorem index_refines_memory_reopened :
    ∃ ts b index, Run (IndexStep .compact) (.fresh (.start none)) ts b ∧ b.index = some index ∧
      (∃ reference, insertAll .compact BlockIndex.new [entryAt 1 1, entryAt 1 2] =
          Prog.pure (.ok reference) ∧
        index.byHeight = reference.byHeight ∧ index.byHash = reference.byHash) ∧
      index.getByHeight 1 = some (entryAt 1 2) := by
  obtain ⟨ts, node, hrun, hinserts, -, hok⟩ :=
    exists_run_inserts .compact (.start none) [entryAt 1 1, entryAt 1 2]
  have hreopened := hrun.append (.cons .dropped (.cons (step_opened node) (.nil _)))
  refine ⟨_, _, _, hreopened, rfl, ?_⟩
  have hrefines := index_refines_memory hreopened (fun t ht => ?_) rfl
  · rw [inserts, List.filterMap_append, ← inserts, hinserts] at hrefines
    obtain ⟨reference, hreference, hheights, hhashes⟩ := hrefines
    refine ⟨⟨reference, hreference, hheights, hhashes⟩, ?_⟩
    have hmemory := hreference.symm.trans (insertAll_eq_pure rfl [entryAt 1 1, entryAt 1 2])
    obtain rfl := Except.ok.inj (Prog.pure.inj hmemory)
    rw [BlockIndex.getByHeight, hheights]
    exact BlockIndex.getByHeight_record (BlockIndex.new.record (entryAt 1 1)) (entryAt 1 2) 1
  · rcases List.mem_append.mp ht with ht | ht
    · exact hok t ht
    · rcases List.mem_pair.mp ht with rfl | rfl
      · trivial
      · trivial

theorem coherent_iff_undisplaced_two :
    ∃ ts b index, Run (IndexStep .compact) (.fresh (.start none)) ts b ∧ b.index = some index ∧
      Coherent index := by
  obtain ⟨ts, node, hrun, -, hheld, -⟩ :=
    exists_run_inserts .compact (.start none) [entryAt 1 1, entryAt 2 2, entryAt 2 2]
  refine ⟨ts, _, _, hrun, rfl, (coherent_iff_undisplaced hrun rfl).mpr ?_⟩
  rw [hheld]
  simp [Undisplaced, entryAt]

theorem displaced_hash_incoherent :
    ¬ ∀ (json : IndexJson) (s : NodeState) (ts : List (Transition IndexState IndexLabel))
      (b : IndexState) (index : BlockIndex), Run (IndexStep json) (.fresh s) ts b →
      b.index = some index → Coherent index := by
  intro hclaim
  obtain ⟨ts, node, hrun, -, -, -⟩ :=
    exists_run_inserts .compact (.start none) [entryAt 1 1, entryAt 1 2]
  have hcoherent := hclaim _ _ _ _ _ hrun rfl
  have hhash := hcoherent.found (FixedBytes.repeatByte 1) (entryAt 1 2) (by decide +kernel)
  exact absurd hhash (by decide)

end Runs

end Rkb.Node.IndexLog
