import Rkb.Node.IndexLog

/-!
Inserts that fail or crash. What they leave at the end of the file is glued to what the
next insert appends, so an entry is only safe behind a line feed.
-/

namespace Rkb.Node.TornLines

open Rkb.Library.Maps
open Rkb.Library.Runs
open Rkb.Library.Text
open Rkb.Celestia.Index
open Rkb.Sequencer.SyncPlan
open Rkb.Node.Effects
open Rkb.Node.Shared
open Rkb.Node.IndexLog

section Pieces

variable {json : IndexJson} {entry : IndexEntry}

def textOf (json : IndexJson) (entry : IndexEntry) : List Char :=
  match json.toJson entry with
  | .ok text => text
  | .error _ => []

theorem lineOf_eq (json : IndexJson) (entry : IndexEntry) :
    lineOf json entry = textOf json entry ++ ['\n'] := by
  obtain ⟨text, htext, -⟩ := json.roundTrip entry
  rw [lineOf, textOf, htext]

theorem textOf_spec (json : IndexJson) (entry : IndexEntry) :
    json.fromStr (textOf json entry) = some entry ∧ textOf json entry ≠ [] ∧
      '\n' ∉ textOf json entry ∧ '\r' ∉ textOf json entry := by
  obtain ⟨text, htext, hrest⟩ := json.roundTrip entry
  rw [textOf, htext]
  exact hrest

/-- What a torn write of an entry may leave: a beginning of its text. -/
def IsPiece (json : IndexJson) (p : IndexEntry × List Char) : Prop :=
  p.2 ≠ [] ∧ p.2 <+: textOf json p.1

def glued (pieces : List (IndexEntry × List Char)) : List Char := pieces.flatMap Prod.snd

/-- The JSON library reads pieces in a row as an entry only where they are one whole text. -/
def RejectsTorn (json : IndexJson) : Prop :=
  ∀ pieces entry, (∀ p ∈ pieces, IsPiece json p) → json.fromStr (glued pieces) = some entry →
    pieces = [(entry, textOf json entry)]

theorem notMem_glued {pieces : List (IndexEntry × List Char)}
    (hpieces : ∀ p ∈ pieces, IsPiece json p) :
    '\n' ∉ glued pieces ∧ '\r' ∉ glued pieces := by
  constructor
  · intro h
    obtain ⟨p, hp, hc⟩ := List.mem_flatMap.mp h
    exact (textOf_spec json p.1).2.2.1 ((hpieces p hp).2.subset hc)
  · intro h
    obtain ⟨p, hp, hc⟩ := List.mem_flatMap.mp h
    exact (textOf_spec json p.1).2.2.2 ((hpieces p hp).2.subset hc)

theorem glued_eq_nil {pieces : List (IndexEntry × List Char)}
    (hpieces : ∀ p ∈ pieces, IsPiece json p) (h : glued pieces = []) : pieces = [] := by
  cases pieces with
  | nil => rfl
  | cons p pieces =>
      rw [glued, List.flatMap_cons, List.append_eq_nil_iff] at h
      exact absurd h.1 (hpieces p List.mem_cons_self).1

end Pieces

section Replay

variable {json : IndexJson} {index : BlockIndex} {done : List Char}
  {pieces : List (IndexEntry × List Char)}

theorem replayLines_append (hdone : Terminated done) (rest : List Char) :
    index.replayLines json (done ++ rest) =
      (index.replayLines json done).replayLines json rest := by
  rw [BlockIndex.replayLines, hdone.lines_append, List.foldl_append]
  rfl

theorem replayLines_line {line : List Char} (hline : line ≠ []) (hfeed : '\n' ∉ line)
    (hreturn : '\r' ∉ line) :
    index.replayLines json (line ++ ['\n']) = index.parseAndInsert json line := by
  have hempty : line.isEmpty = false := List.isEmpty_eq_false_iff.mpr hline
  rw [BlockIndex.replayLines, lines_append hfeed hreturn, lines_nil, List.foldl_cons, hempty]
  rfl

theorem replayLines_tail {line : List Char} (hline : line ≠ []) (hfeed : '\n' ∉ line) :
    index.replayLines json line = index.parseAndInsert json line := by
  have hempty : line.isEmpty = false := List.isEmpty_eq_false_iff.mpr hline
  rw [BlockIndex.replayLines, lines_of_notMem hfeed hline, List.foldl_cons, hempty]
  rfl

end Replay

section Survival

variable {index : BlockIndex} {attempts : List (IndexEntry × Bool)} {entry : IndexEntry}

/-- The last insert attempted at a height, and whether it returned `Ok`. -/
def lastAttempt (attempts : List (IndexEntry × Bool)) (height : UInt64) :
    Option (IndexEntry × Bool) :=
  lastWhere (fun a => a.1.blockHeight = height) attempts

/-- The index has the entry of the last insert at each height; where that insert failed,
it may have any. -/
structure Survives (attempts : List (IndexEntry × Bool)) (index : BlockIndex) : Prop where
  kept : ∀ height entry, lastAttempt attempts height = some (entry, true) →
    index.getByHeight height = some entry
  absent : ∀ height, lastAttempt attempts height = none → index.getByHeight height = none

theorem lastAttempt_append_singleton (a : IndexEntry × Bool) (height : UInt64) :
    lastAttempt (attempts ++ [a]) height =
      if a.1.blockHeight = height then some a else lastAttempt attempts height := by
  rw [lastAttempt, lastWhere_append_singleton]
  simp only [decide_eq_true_eq]
  rfl

theorem survives_new : Survives [] BlockIndex.new where
  kept := by rintro height entry ⟨⟩
  absent height _ := BlockIndex.getByHeight_new height

theorem Survives.append_ok (h : Survives attempts index) :
    Survives (attempts ++ [(entry, true)]) (index.record entry) := by
  constructor
  · intro height e hlast
    rw [lastAttempt_append_singleton] at hlast
    rw [BlockIndex.getByHeight_record]
    split at hlast
    · rename_i hheight
      cases hlast
      rw [if_pos hheight.symm]
    · rename_i hheight
      rw [if_neg (Ne.symm hheight)]
      exact h.kept height e hlast
  · intro height hlast
    rw [lastAttempt_append_singleton] at hlast
    rw [BlockIndex.getByHeight_record]
    split at hlast
    · cases hlast
    · rename_i hheight
      rw [if_neg (Ne.symm hheight)]
      exact h.absent height hlast

theorem Survives.append_failed (h : Survives attempts index) :
    Survives (attempts ++ [(entry, false)]) index := by
  constructor
  · intro height e hlast
    rw [lastAttempt_append_singleton] at hlast
    split at hlast
    · cases hlast
    · exact h.kept height e hlast
  · intro height hlast
    rw [lastAttempt_append_singleton] at hlast
    split at hlast
    · cases hlast
    · exact h.absent height hlast

theorem Survives.record_of_failed {e : IndexEntry} (h : Survives attempts index)
    (hfailed : lastAttempt attempts entry.blockHeight = some (e, false)) :
    Survives attempts (index.record entry) := by
  constructor
  · intro height e' hlast
    rw [BlockIndex.getByHeight_record, if_neg]
    · exact h.kept height e' hlast
    · rintro rfl
      rw [hfailed] at hlast
      cases hlast
  · intro height hlast
    rw [BlockIndex.getByHeight_record, if_neg]
    · exact h.absent height hlast
    · rintro rfl
      rw [hfailed] at hlast
      cases hlast

end Survival

section Log

variable {json : IndexJson} {attempts : List (IndexEntry × Bool)} {entry : IndexEntry}
  {done : List Char} {pieces : List (IndexEntry × List Char)}

/-- The content of the file: whole lines, then what torn writes have left since. -/
structure TornLog (json : IndexJson) (attempts : List (IndexEntry × Bool)) (done : List Char)
    (pieces : List (IndexEntry × List Char)) : Prop where
  terminated : Terminated done
  torn : ∀ p ∈ pieces, IsPiece json p
  /-- A text that lacks only its line feed is that of a failed insert. -/
  whole : ∀ entry, pieces = [(entry, textOf json entry)] →
    ∃ e, lastAttempt attempts entry.blockHeight = some (e, false)
  survives : Survives attempts (BlockIndex.new.replayLines json done)

theorem survives_parse_glued {index : BlockIndex} (hjson : RejectsTorn json)
    (h : Survives attempts index) (htorn : ∀ p ∈ pieces, IsPiece json p)
    (hwhole : ∀ entry, pieces = [(entry, textOf json entry)] →
      ∃ e, lastAttempt attempts entry.blockHeight = some (e, false)) :
    Survives attempts (index.parseAndInsert json (glued pieces)) := by
  rw [BlockIndex.parseAndInsert]
  split
  · rename_i entry hread
    obtain ⟨e, hfailed⟩ := hwhole entry (hjson pieces entry htorn hread)
    exact h.record_of_failed hfailed
  · exact h

theorem TornLog.replay (hjson : RejectsTorn json) (h : TornLog json attempts done pieces) :
    Survives attempts (BlockIndex.new.replayLines json (done ++ glued pieces)) := by
  by_cases hpieces : pieces = []
  · subst hpieces
    rw [glued, List.flatMap_nil, List.append_nil]
    exact h.survives
  · have hglued : glued pieces ≠ [] := fun hnil => hpieces (glued_eq_nil h.torn hnil)
    rw [replayLines_append h.terminated, replayLines_tail hglued (notMem_glued h.torn).1]
    exact survives_parse_glued hjson h.survives h.torn h.whole

theorem TornLog.pieces_eq_nil (h : TornLog json attempts done pieces)
    (hterminated : Terminated (done ++ glued pieces)) : pieces = [] := by
  apply glued_eq_nil h.torn
  by_contra hglued
  rcases hterminated with hnil | ⟨body, hbody⟩
  · exact hglued (List.append_eq_nil_iff.mp hnil).2
  · have hlast : (glued pieces).getLast? = some '\n' := by
      rw [← List.getLast?_append_of_ne_nil done hglued, hbody, List.getLast?_concat]
    exact (notMem_glued h.torn).1 (List.mem_of_getLast? hlast)

theorem TornLog.append_ok (h : TornLog json attempts done []) :
    TornLog json (attempts ++ [(entry, true)]) (done ++ lineOf json entry) [] where
  terminated := by
    rw [lineOf_eq, ← List.append_assoc]
    exact .inr ⟨_, rfl⟩
  torn := by simp
  whole := by rintro entry ⟨⟩
  survives := by
    have hline := BlockIndex.replayLines_lineOf json (BlockIndex.new.replayLines json done) entry []
    rw [List.append_nil] at hline
    rw [replayLines_append h.terminated, hline]
    exact h.survives.append_ok

theorem whole_append_failed
    (hwhole : ∀ entry, pieces = [(entry, textOf json entry)] →
      ∃ e, lastAttempt attempts entry.blockHeight = some (e, false)) :
    ∀ e, pieces = [(e, textOf json e)] →
      ∃ e', lastAttempt (attempts ++ [(entry, false)]) e.blockHeight = some (e', false) := by
  intro e he
  rw [lastAttempt_append_singleton]
  split
  · exact ⟨entry, rfl⟩
  · exact hwhole e he

theorem whole_append_piece (written : List Char) :
    ∀ e, pieces ++ [(entry, written)] = [(e, textOf json e)] →
      ∃ e', lastAttempt (attempts ++ [(entry, false)]) e.blockHeight = some (e', false) := by
  intro e he
  have hmem : (entry, written) ∈ [(e, textOf json e)] := by
    rw [← he]
    simp
  cases List.mem_singleton.mp hmem
  rw [lastAttempt_append_singleton, if_pos rfl]
  exact ⟨entry, rfl⟩

theorem glued_concat (p : IndexEntry × List Char) :
    glued (pieces ++ [p]) = glued pieces ++ p.2 := by
  rw [glued, List.flatMap_append, List.flatMap_singleton]
  rfl

theorem TornLog.torn_concat (h : TornLog json attempts done pieces)
    {p : IndexEntry × List Char} (hp : IsPiece json p) :
    ∀ q ∈ pieces ++ [p], IsPiece json q :=
  List.forall_mem_append.mpr ⟨h.torn, List.forall_mem_singleton.mpr hp⟩

theorem TornLog.append_nothing (h : TornLog json attempts done pieces) :
    TornLog json (attempts ++ [(entry, false)]) done pieces where
  terminated := h.terminated
  torn := h.torn
  whole := whole_append_failed h.whole
  survives := h.survives.append_failed

theorem TornLog.append_piece (h : TornLog json attempts done pieces) {written : List Char}
    (hpiece : IsPiece json (entry, written)) :
    TornLog json (attempts ++ [(entry, false)]) done (pieces ++ [(entry, written)]) where
  terminated := h.terminated
  torn := h.torn_concat hpiece
  whole := whole_append_piece written
  survives := h.survives.append_failed

theorem TornLog.append_line (hjson : RejectsTorn json) (h : TornLog json attempts done pieces) :
    TornLog json (attempts ++ [(entry, false)]) (done ++ glued pieces ++ lineOf json entry) [] := by
  have hpiece : IsPiece json (entry, textOf json entry) :=
    ⟨(textOf_spec json entry).2.1, List.prefix_rfl⟩
  have hpieces := h.torn_concat hpiece
  have hne : glued (pieces ++ [(entry, textOf json entry)]) ≠ [] := by
    intro hnil
    simpa using glued_eq_nil hpieces hnil
  obtain ⟨hfeed, hreturn⟩ := notMem_glued hpieces
  have hline : done ++ glued pieces ++ lineOf json entry =
      done ++ (glued (pieces ++ [(entry, textOf json entry)]) ++ ['\n']) := by
    rw [glued_concat, lineOf_eq]
    simp only [List.append_assoc]
  rw [hline]
  refine ⟨.inr ⟨_, (List.append_assoc _ _ _).symm⟩, by simp, by rintro e ⟨⟩, ?_⟩
  rw [replayLines_append h.terminated, replayLines_line hne hfeed hreturn]
  exact survives_parse_glued hjson h.survives.append_failed hpieces (whole_append_piece _)

theorem TornLog.append_failed (hjson : RejectsTorn json) (h : TornLog json attempts done pieces)
    {written : List Char} (hwritten : written <+: lineOf json entry) :
    ∃ done' pieces', done ++ glued pieces ++ written = done' ++ glued pieces' ∧
      TornLog json (attempts ++ [(entry, false)]) done' pieces' := by
  by_cases hnil : written = []
  · refine ⟨done, pieces, ?_, h.append_nothing⟩
    rw [hnil, List.append_nil]
  · rw [lineOf_eq, List.prefix_concat_iff, ← lineOf_eq] at hwritten
    rcases hwritten with rfl | hbegins
    · exact ⟨_, [], (List.append_nil _).symm, h.append_line hjson⟩
    · refine ⟨done, pieces ++ [(entry, written)], ?_, h.append_piece ⟨hnil, hbegins⟩⟩
      rw [glued_concat, List.append_assoc]

end Log

section Compact

variable {entry : IndexEntry}

theorem expect_eq_some {literal text rest : List Char} (h : expect literal text = some rest) :
    text = literal ++ rest := by
  rw [expect] at h
  split at h
  · rename_i hbegins
    cases h
    exact (List.prefix_iff_eq_append.mp (List.isPrefixOf_iff_prefix.mp hbegins)).symm
  · cases h

theorem braces_of_readObject {text : List Char} {t : JsonText} (h : readObject text = some t) :
    text.count '\x7b' = 1 ∧ '\x7d' ∈ text := by
  obtain ⟨rest, hopen, hrest⟩ := Option.bind_eq_some_iff.mp h
  obtain rfl := expect_eq_some hopen
  obtain ⟨⟨hlast, hfree, -⟩, -⟩ := Option.ite_none_right_eq_some.mp hrest
  have hclose : rest.dropLast ++ ['\x7d'] = rest := List.dropLast_append_getLast? _ hlast
  rw [← hclose]
  constructor
  · rw [List.count_append, List.count_append, List.count_eq_zero.mpr hfree]
    rfl
  · simp

theorem braces_of_fromStr {text : List Char}
    (h : IndexJson.compact.fromStr text = some entry) :
    text.count '\x7b' = 1 ∧ '\x7d' ∈ text := by
  rw [IndexJson.fromStr] at h
  split at h
  · rename_i hfields
    obtain ⟨t, ht, -⟩ := Option.bind_eq_some_iff.mp hfields
    exact braces_of_readObject ht
  · cases h

theorem notMem_bodyText (entry : IndexEntry) :
    '\x7d' ∉ '\x7b' :: bodyText (membersOf entry) := by
  intro hc
  rcases List.mem_cons.mp hc with hc | hc
  · exact absurd hc (by decide)
  · exact absurd (inside_of_mem_bodyText (IndexJson.plain_membersOf entry) _ hc) (by decide)

theorem rejectsTorn_compact : RejectsTorn .compact := by
  intro pieces entry hpieces hread
  obtain ⟨hopen, hclose⟩ := braces_of_fromStr hread
  have hcount : ∀ p ∈ pieces, 0 < p.2.count '\x7b' := by
    intro p hp
    obtain ⟨hne, rest, hrest⟩ := hpieces p hp
    have hhead : (textOf .compact p.1).head? = some '\x7b' := rfl
    rw [← hrest, List.head?_append_of_ne_nil _ hne] at hhead
    exact List.count_pos_iff.mpr (List.mem_of_mem_head? hhead)
  obtain _ | ⟨p, _ | ⟨q, rest⟩⟩ := pieces
  · cases hclose
  · obtain ⟨hne, hbegins⟩ := hpieces p List.mem_cons_self
    have hp : glued [p] = p.2 := by simp [glued]
    rw [hp] at hclose hread
    have htext : textOf .compact p.1 =
        ('\x7b' :: bodyText (membersOf p.1)) ++ ['\x7d'] := rfl
    rw [htext, List.prefix_concat_iff] at hbegins
    rcases hbegins with hwhole | hpart
    · have hself := (textOf_spec .compact p.1).1
      rw [htext, ← hwhole] at hself
      obtain rfl : entry = p.1 := Option.some.inj (hread.symm.trans hself)
      rw [htext, ← hwhole]
    · exact absurd (hpart.subset hclose) (notMem_bodyText p.1)
  · have hp := hcount p List.mem_cons_self
    have hq := hcount q (List.mem_cons_of_mem p List.mem_cons_self)
    simp only [glued, List.flatMap_cons, List.count_append] at hopen
    omega

end Compact

section Runs

variable {json : IndexJson} {s s' : NodeState} {b : IndexState} {index : BlockIndex}
  {ts : List (Transition IndexState IndexLabel)} {tr : List NodeEvent}

def attempt : IndexLabel → Option (IndexEntry × Bool)
  | .inserted entry => some (entry, true)
  | .failed entry => some (entry, false)
  | .crashed entry => some (entry, false)
  | _ => none

def attempts (ts : List (Transition IndexState IndexLabel)) : List (IndexEntry × Bool) :=
  ts.filterMap fun t => attempt t.label

theorem attempts_append_singleton (t : Transition IndexState IndexLabel) :
    attempts (ts ++ [t]) = attempts ts ++ (attempt t.label).toList := by
  rw [attempts, List.filterMap_append]
  rfl

/-- An insert that succeeds begins a line of its own. -/
def BeginsLine (t : Transition IndexState IndexLabel) : Prop :=
  ∀ entry, t.label = .inserted entry → Terminated t.pre.text

theorem exists_tornLog (hjson : RejectsTorn json) (hrun : Run (IndexStep json) (.fresh s) ts b)
    (hlines : ∀ t ∈ ts, BeginsLine t) :
    ∃ done pieces, b.text = done ++ glued pieces ∧ TornLog json (attempts ts) done pieces := by
  refine run_induction (fun us b => ∃ done pieces, b.text = done ++ glued pieces ∧
    TornLog json (attempts us) done pieces) ?_ ?_ hrun
  · exact ⟨[], [], rfl, .inl rfl, by simp, by rintro e ⟨⟩, survives_new⟩
  · rintro us ⟨a, l, c⟩ hus hdoes ⟨done, pieces, htext, hlog⟩
    rw [attempts_append_singleton]
    have hfailed : ∀ entry written, written <+: lineOf json entry → c.text = a.text ++ written →
        ∃ done' pieces', c.text = done' ++ glued pieces' ∧
          TornLog json (attempts us ++ [(entry, false)]) done' pieces' := by
      intro entry written hwritten hc
      obtain ⟨done', pieces', hglued, hlog'⟩ := hlog.append_failed hjson hwritten
      exact ⟨done', pieces', by rw [hc, ← hglued, ← htext], hlog'⟩
    cases l with
    | inserted entry =>
        have hbegins :=
          hlines _ (hus.subset (List.mem_append_right us List.mem_cons_self)) entry rfl
        rw [htext] at hbegins
        obtain rfl := hlog.pieces_eq_nil hbegins
        refine ⟨done ++ lineOf json entry, [], ?_, hlog.append_ok⟩
        rw [hdoes.1, htext]
        simp [glued]
    | failed entry =>
        obtain ⟨-, written, hwritten, hc⟩ := hdoes
        exact hfailed entry written hwritten hc
    | crashed entry =>
        obtain ⟨-, written, hwritten, hc⟩ := hdoes
        exact hfailed entry written hwritten hc
    | opened | notOpened | dropped =>
        simp only [attempt, Option.toList_none, List.append_nil]
        exact ⟨done, pieces, hdoes.1.trans htext, hlog⟩

/-- Entries survive failures and crashes as long as no insert succeeds behind a torn line. -/
theorem survives_of_beginsLine (hjson : RejectsTorn json)
    (hrun : Run (IndexStep json) (.fresh s) ts b) (hlines : ∀ t ∈ ts, BeginsLine t)
    (hopen : (BlockIndex.openIndex json).Exec nodeSem b.node tr (.ok index) s') :
    Survives (attempts ts) index := by
  obtain ⟨done, pieces, htext, hlog⟩ := exists_tornLog hjson hrun hlines
  obtain ⟨rfl, -⟩ := succeeds_openIndex _ _ _ hopen _ rfl
  have hsurvives := hlog.replay hjson
  rw [← htext] at hsurvives
  exact ⟨hsurvives.kept, hsurvives.absent⟩

theorem survives_of_beginsLine_crash :
    ∃ ts index, attempts ts = [(entryAt 1 1, true), (entryAt 2 2, false)] ∧
      Survives (attempts ts) index ∧ index.getByHeight 1 = some (entryAt 1 1) := by
  have hrun : Run (IndexStep .compact) (.fresh (.start none)) _ _ :=
    .cons (step_opened _) (.cons (step_inserted _ rfl (entryAt 1 1)) (.cons
      (@IndexStep.crashed .compact _ _ (entryAt 2 2) ['\x7b'] (by decide +kernel)) (.nil _)))
  obtain ⟨tr, hopen⟩ := exists_exec_openIndex .compact _
  have hsurvives := survives_of_beginsLine rejectsTorn_compact hrun ?_ hopen
  · exact ⟨_, _, rfl, hsurvives, hsurvives.kept 1 (entryAt 1 1) rfl⟩
  · intro t ht entry hlabel
    rcases List.mem_cons.mp ht with rfl | ht
    · cases hlabel
    · rcases List.mem_pair.mp ht with rfl | rfl
      · exact .inl rfl
      · cases hlabel

theorem acknowledged_entry_lost :
    ¬ ∀ (json : IndexJson) (s s' : NodeState) (ts : List (Transition IndexState IndexLabel))
      (b : IndexState) (tr : List NodeEvent) (index : BlockIndex), RejectsTorn json →
      Run (IndexStep json) (.fresh s) ts b →
      (BlockIndex.openIndex json).Exec nodeSem b.node tr (.ok index) s' →
      Survives (attempts ts) index := by
  intro hclaim
  have hrun : Run (IndexStep .compact) (.fresh (.start none)) _ _ :=
    .cons (step_opened _) (.cons
      (@IndexStep.crashed .compact _ _ (entryAt 1 1) ['\x7b'] (by decide +kernel)) (.cons
      (step_opened _) (.cons (step_inserted _ rfl (entryAt 2 2)) (.nil _))))
  obtain ⟨tr, hopen⟩ := exists_exec_openIndex .compact _
  have hkept := (hclaim _ _ _ _ _ _ _ rejectsTorn_compact hrun hopen).kept 2 (entryAt 2 2) rfl
  exact absurd hkept (by decide +kernel)

end Runs

end Rkb.Node.TornLines
