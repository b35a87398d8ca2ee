import Mathlib.Data.Finset.Max
import Rkb.Library.Text
import Rkb.Node.Effects

namespace Rkb.Celestia.Index

open Rkb.Library.Bytes
open Rkb.Library.Maps
open Rkb.Library.Text
open Rkb.Types.Blocks
open Rkb.Execution.Errors
open Rkb.Node.Effects

structure IndexEntry where
  blockHeight : UInt64
  blockHash : B256
  celestiaHeight : UInt64
  commitment : List UInt8
deriving DecidableEq

/-- A value as a derived serialization hands it to the JSON library. -/
inductive JsonValue
  | u64 (n : UInt64)
  | string (s : List Char)
  | b256 (hash : B256)

/-- An object or an array, with the texts of its values. -/
inductive JsonText
  | object (members : List (List Char × List Char))
  | array (elements : List (List Char))

/-- Letters, digits and underscores, which JSON writes as they are. -/
def IsPlain (text : List Char) : Prop := ∀ c ∈ text, c.isAlphanum = true ∨ c = '_'

def JsonValue.IsPlain : JsonValue → Prop
  | .string s => Index.IsPlain s
  | _ => True

/-- How the JSON library reads a text, and the text of a value of each type. -/
structure JsonReader where
  text : List Char → Option JsonText
  u64 : List Char → Option UInt64
  string : List Char → Option (List Char)
  b256 : List Char → Option B256

def JsonReader.Reads (reader : JsonReader) : JsonValue → List Char → Prop
  | .u64 n, text => reader.u64 text = some n
  | .string s, text => reader.string text = some s
  | .b256 hash, text => reader.b256 text = some hash

/-- The JSON library. An object that it has written reads back and has no line break. -/
structure IndexJson extends JsonReader where
  object : List (List Char × JsonValue) → Except String (List Char)
  reads_object : ∀ members, (∀ m ∈ members, IsPlain m.1 ∧ m.2.IsPlain) →
    ∃ line members', object members = .ok line ∧ text line = some (.object members') ∧
      List.Forall₂ (fun m m' => m.1 = m'.1 ∧ toJsonReader.Reads m.2 m'.2) members members' ∧
      line ≠ [] ∧ '\n' ∉ line ∧ '\r' ∉ line

def membersOf (entry : IndexEntry) : List (List Char × JsonValue) :=
  [("block_height".toList, .u64 entry.blockHeight),
    ("block_hash".toList, .b256 entry.blockHash),
    ("celestia_height".toList, .u64 entry.celestiaHeight),
    ("commitment".toList, .string (hexEncode entry.commitment))]

/-- The member of this name, where there is just one. -/
def field (members : List (List Char × List Char)) (name : String) : Option (List Char) :=
  match members.filter fun m => m.1 = name.toList with
  | [m] => some m.2
  | _ => none

/-- The texts of the fields, by name or in their order. Members of other names are ignored. -/
def fieldTexts : JsonText → Option (List (List Char))
  | .object members =>
      ["block_height", "block_hash", "celestia_height", "commitment"].mapM (field members)
  | .array elements => some elements

namespace IndexJson

variable (json : IndexJson)

/-- `serde_json::to_string`. -/
def toJson (entry : IndexEntry) : Except String (List Char) := json.object (membersOf entry)

/-- `serde_json::from_str`. -/
def fromStr (line : List Char) : Option IndexEntry :=
  match (json.text line).bind fieldTexts with
  | some [blockHeight, blockHash, celestiaHeight, commitment] => do
      let blockHeight ← json.u64 blockHeight
      let blockHash ← json.b256 blockHash
      let celestiaHeight ← json.u64 celestiaHeight
      let commitment ← hexDecode (← json.string commitment)
      return { blockHeight, blockHash, celestiaHeight, commitment }
  | _ => none

theorem plain_membersOf (entry : IndexEntry) :
    ∀ m ∈ membersOf entry, IsPlain m.1 ∧ m.2.IsPlain := by
  have hname : ∀ name : List Char, (name.all fun c => c.isAlphanum || c == '_') = true →
      IsPlain name := by
    intro name h c hc
    simpa using List.all_eq_true.mp h c hc
  have hcommitment : IsPlain (hexEncode entry.commitment) :=
    fun c hc => .inl (isAlphanum_of_mem_hexEncode hc)
  simp only [membersOf, List.forall_mem_cons]
  exact ⟨⟨hname _ rfl, trivial⟩, ⟨hname _ rfl, trivial⟩, ⟨hname _ rfl, trivial⟩,
    ⟨hname _ rfl, hcommitment⟩, nofun⟩

theorem roundTrip (entry : IndexEntry) : ∃ line, json.toJson entry = .ok line ∧
    json.fromStr line = some entry ∧ line ≠ [] ∧ '\n' ∉ line ∧ '\r' ∉ line := by
  obtain ⟨line, members, hline, htext, hmembers, hbreaks⟩ :=
    json.reads_object (membersOf entry) (plain_membersOf entry)
  refine ⟨line, hline, ?_, hbreaks⟩
  rcases hmembers with _ | ⟨⟨hname₁, hheight⟩, _ | ⟨⟨hname₂, hhash⟩, _ | ⟨⟨hname₃, hcelestia⟩,
    _ | ⟨⟨hname₄, hcommitment⟩, _ | _⟩⟩⟩⟩
  rename_i height hash celestia commitment
  obtain ⟨name₁, height⟩ := height
  obtain ⟨name₂, hash⟩ := hash
  obtain ⟨name₃, celestia⟩ := celestia
  obtain ⟨name₄, commitment⟩ := commitment
  subst hname₁ hname₂ hname₃ hname₄
  have hfields : (json.text line).bind fieldTexts = some [height, hash, celestia, commitment] := by
    rw [htext]
    rfl
  rw [fromStr, hfields]
  simp only [JsonReader.Reads] at hheight hhash hcelestia hcommitment
  simp [hheight, hhash, hcelestia, hcommitment, hexDecode_hexEncode]

end IndexJson

/-- `file` tells whether the file is open for appending. -/
structure BlockIndex where
  byHeight : HashMap UInt64 IndexEntry
  byHash : HashMap B256 UInt64
  file : Bool

namespace BlockIndex

def new : BlockIndex := { byHeight := ∅, byHash := ∅, file := false }

def record (self : BlockIndex) (entry : IndexEntry) : BlockIndex :=
  { self with
    byHash := self.byHash.insert entry.blockHash entry.blockHeight
    byHeight := self.byHeight.insert entry.blockHeight entry }

def getByHeight (self : BlockIndex) (height : UInt64) : Option IndexEntry :=
  self.byHeight.lookup height

def getByHash (self : BlockIndex) (hash : B256) : Option IndexEntry :=
  (self.byHash.lookup hash).bind self.byHeight.lookup

def latestHeight (self : BlockIndex) : Option UInt64 :=
  (self.byHeight.keys.image UInt64.toNat).max.map UInt64.ofNat

variable (json : IndexJson)

/-- A malformed line is skipped. -/
def parseAndInsert (self : BlockIndex) (line : List Char) : BlockIndex :=
  match json.fromStr line with
  | some entry => self.record entry
  | none => self

def replayLines (self : BlockIndex) (text : List Char) : BlockIndex :=
  (lines text).foldl
    (fun index line => if line.isEmpty then index else index.parseAndInsert json line) self

def replay (self : BlockIndex) : NodeProg (Except CelestiaError BlockIndex) := do
  let response : Except IndexReadError (List Char) ← op .readIndexFile
  match response with
  | .error (.openFailed e) =>
      return .error (.internal ("failed to open index for replay: " ++ e))
  | .error (.lineFailed e) => return .error (.internal ("failed to read index line: " ++ e))
  | .ok text => return .ok (self.replayLines json text)

def replayIfExists (self : BlockIndex) : NodeProg (Except CelestiaError BlockIndex) := do
  let found : Bool ← op .indexExists
  if found then self.replay json else return .ok self

/-- `BlockIndex::open`. -/
def openIndex : NodeProg (Except CelestiaError BlockIndex) := do
  let created : Except String Unit ← op .createIndexDir
  match created with
  | .error e => return .error (.internal ("failed to create index directory: " ++ e))
  | .ok () =>
      match ← new.replayIfExists json with
      | .error e => return .error e
      | .ok index => do
          let opened : Except String Unit ← op .openIndexFile
          match opened with
          | .error e => return .error (.internal ("failed to open index file: " ++ e))
          | .ok () => return .ok { index with file := true }

/-- The new index, or the error that leaves it as it was. -/
def insert (self : BlockIndex) (entry : IndexEntry) :
    NodeProg (Except CelestiaError BlockIndex) := do
  match json.toJson entry with
  | .error e => return .error (.internal ("failed to serialize index entry: " ++ e))
  | .ok text =>
      if self.file then do
        let written : Except IndexAppendError Unit ← op (.appendIndexFile (text ++ ['\n']))
        match written with
        | .error (.writeFailed e) =>
            return .error (.internal ("failed to write index entry: " ++ e))
        | .error (.flushFailed e) => return .error (.internal ("failed to flush index: " ++ e))
        | .ok () => return .ok (self.record entry)
      else return .ok (self.record entry)

end BlockIndex

def lineOf (json : IndexJson) (entry : IndexEntry) : List Char :=
  match json.toJson entry with
  | .ok text => text ++ ['\n']
  | .error _ => []

namespace BlockIndex

theorem getByHeight_record (self : BlockIndex) (entry : IndexEntry) (height : UInt64) :
    (self.record entry).getByHeight height =
      if height = entry.blockHeight then some entry else self.getByHeight height :=
  lookup_insert _ _ _ _

theorem getByHeight_new (height : UInt64) : new.getByHeight height = none :=
  Finmap.lookup_empty _

theorem replayLines_lineOf (json : IndexJson) (self : BlockIndex) (entry : IndexEntry)
    (rest : List Char) :
    self.replayLines json (lineOf json entry ++ rest) =
      (self.record entry).replayLines json rest := by
  obtain ⟨text, htext, hread, hnonempty, hfeed, hreturn⟩ := json.roundTrip entry
  have hline : lineOf json entry ++ rest = text ++ '\n' :: rest := by
    rw [lineOf, htext]
    simp
  have hempty : text.isEmpty = false := by
    rw [List.isEmpty_eq_false_iff]
    exact hnonempty
  rw [hline, replayLines, lines_append hfeed hreturn, List.foldl_cons, hempty]
  simp only [Bool.false_eq_true, if_false, parseAndInsert, hread]
  rfl

theorem replayLines_flatMap (json : IndexJson) (self : BlockIndex) (entries : List IndexEntry) :
    self.replayLines json (entries.flatMap (lineOf json)) = entries.foldl record self := by
  induction entries generalizing self with
  | nil => rfl
  | cons entry entries ih =>
      rw [List.flatMap_cons, replayLines_lineOf, ih, List.foldl_cons]

theorem getByHeight_foldl_isSome (self : BlockIndex) (entries : List IndexEntry)
    (height : UInt64) :
    ((entries.foldl record self).getByHeight height).isSome =
      ((self.getByHeight height).isSome ||
        decide (height ∈ entries.map IndexEntry.blockHeight)) := by
  induction entries generalizing self with
  | nil => simp
  | cons entry entries ih =>
      rw [List.foldl_cons, ih, getByHeight_record]
      by_cases hheight : height = entry.blockHeight
      · simp [hheight]
      · simp [hheight]

end BlockIndex

section Compact

def quoted (text : List Char) : List Char := '"' :: (text ++ ['"'])

def unquoted (text : List Char) : Option (List Char) := do
  let text ← expect ['"'] text
  if text.getLast? = some '"' then some text.dropLast else none

def readHeight (text : List Char) : Option (UInt64 × List Char) := do
  let (n, text) ← natural text
  if n < 2 ^ 64 then some (UInt64.ofNat n, text) else none

def valueText : JsonValue → List Char
  | .u64 n => Nat.toDigits 10 n.toNat
  | .string s => quoted s
  | .b256 hash => quoted ("0x".toList ++ hexEncode hash.bytes)

def memberText (m : List Char × JsonValue) : List Char :=
  [':'].intercalate [quoted m.1, valueText m.2]

def bodyText (members : List (List Char × JsonValue)) : List Char :=
  [','].intercalate (members.map memberText)

def objectText (members : List (List Char × JsonValue)) : List Char :=
  ['\x7b'] ++ (bodyText members ++ ['\x7d'])

def readMember (text : List Char) : Option (List Char × List Char) :=
  match text.splitOn ':' with
  | [name, value] => (unquoted name).map fun name => (name, value)
  | _ => none

/-- Objects are read which have no other object inside. -/
def readObject (text : List Char) : Option JsonText := do
  let text ← expect ['\x7b'] text
  let body := text.dropLast
  if text.getLast? = some '\x7d' ∧ '\x7b' ∉ body ∧ '\x7d' ∉ body then
    if body = [] then some (.object []) else ((body.splitOn ',').mapM readMember).map .object
  else none

def compactReader : JsonReader where
  text := readObject
  u64 text := (readHeight text).bind fun r => if r.2 = [] then some r.1 else none
  string := unquoted
  b256 text := do
    let digits ← expect "0x".toList (← unquoted text)
    FixedBytes.ofList (← hexDecode digits)

theorem readHeight_toDigits (height : UInt64) {rest : List Char}
    (hstop : ∀ c ∈ rest.head?, c.isDigit = false) :
    readHeight (Nat.toDigits 10 height.toNat ++ rest) = some (height, rest) := by
  rw [readHeight, natural_toDigits _ hstop]
  simp [height.toNat_lt]

@[simp] theorem unquoted_quoted (text : List Char) : unquoted (quoted text) = some text := by
  have hopen : expect ['"'] (quoted text) = some (text ++ ['"']) := expect_append ['"'] _
  rw [unquoted, hopen]
  simp

theorem reads_valueText (value : JsonValue) : compactReader.Reads value (valueText value) := by
  cases value with
  | u64 n =>
      have hdigits : readHeight (Nat.toDigits 10 n.toNat) = some (n, []) := by
        have h := @readHeight_toDigits n [] nofun
        rwa [List.append_nil] at h
      simp [JsonReader.Reads, compactReader, valueText, hdigits]
  | string s => exact unquoted_quoted s
  | b256 hash =>
      have hdigits := expect_append "0x".toList (hexEncode hash.bytes)
      simp only [JsonReader.Reads, compactReader, valueText, unquoted_quoted, Option.bind_eq_bind,
        Option.bind_some, hdigits, hexDecode_hexEncode, FixedBytes.ofList_bytes]

/-- What stands between two separators: a quote, or a plain character. -/
def Inside (c : Char) : Prop := c = '"' ∨ c.isAlphanum = true ∨ c = '_'

instance (c : Char) : Decidable (Inside c) := inferInstanceAs (Decidable (_ ∨ _))

theorem inside_of_mem_quoted {text : List Char} (h : IsPlain text) :
    ∀ c ∈ quoted text, Inside c := by
  intro c hc
  have hmem : c = '"' ∨ c ∈ text := by
    simpa [quoted, or_comm, or_assoc] using hc
  exact hmem.imp_right (h c)

theorem inside_of_mem_valueText {value : JsonValue} (h : value.IsPlain) :
    ∀ c ∈ valueText value, Inside c := by
  cases value with
  | u64 n =>
      intro c hc
      have hdigit := Nat.isDigit_of_mem_toDigits (by decide) (by decide) hc
      exact .inr (.inl (by simp [Char.isAlphanum, hdigit]))
  | string s => exact inside_of_mem_quoted h
  | b256 hash =>
      refine inside_of_mem_quoted ?_
      intro c hc
      rcases List.mem_append.mp hc with hc | hc
      · have hcases : c = '0' ∨ c = 'x' := by simpa using hc
        rcases hcases with rfl | rfl
        · exact .inl rfl
        · exact .inl rfl
      · exact .inl (isAlphanum_of_mem_hexEncode hc)

variable {members : List (List Char × JsonValue)}

theorem inside_of_mem_memberText {m : List Char × JsonValue} (h : IsPlain m.1 ∧ m.2.IsPlain) :
    ∀ c ∈ memberText m, c = ':' ∨ Inside c := by
  intro c hc
  have hmem : c ∈ quoted m.1 ∨ c = ':' ∨ c ∈ valueText m.2 := by
    simpa [memberText, List.intercalate, List.intersperse] using hc
  rcases hmem with hc | hc | hc
  · exact .inr (inside_of_mem_quoted h.1 c hc)
  · exact .inl hc
  · exact .inr (inside_of_mem_valueText h.2 c hc)

theorem inside_of_mem_bodyText (hplain : ∀ m ∈ members, IsPlain m.1 ∧ m.2.IsPlain) :
    ∀ c ∈ bodyText members, c ∈ [',', ':'] ∨ Inside c := by
  intro c hc
  induction members with
  | nil => cases hc
  | cons m members ih =>
      rw [List.forall_mem_cons] at hplain
      have hfirst : c ∈ memberText m → c ∈ [',', ':'] ∨ Inside c := by
        intro hc
        exact (inside_of_mem_memberText hplain.1 c hc).imp_left fun h => by simp [h]
      rw [bodyText, List.map_cons] at hc
      by_cases hlast : members = []
      · subst hlast
        exact hfirst (by simpa [List.intercalate] using hc)
      · rw [List.intercalate_cons_of_ne_nil (mt List.map_eq_nil_iff.mp hlast),
          List.mem_append, List.mem_append] at hc
        rcases hc with (hc | hc) | hc
        · exact hfirst hc
        · exact .inl (List.mem_cons.mpr (.inl (List.mem_singleton.mp hc)))
        · exact ih hplain.2 hc

theorem bodyText_ne_nil (hmembers : members ≠ []) : bodyText members ≠ [] := by
  cases members with
  | nil => exact absurd rfl hmembers
  | cons m rest =>
      cases rest <;>
        simp [bodyText, memberText, quoted, List.intercalate, List.intersperse]

theorem readMember_memberText {m : List Char × JsonValue} (h : IsPlain m.1 ∧ m.2.IsPlain) :
    readMember (memberText m) = some (m.1, valueText m.2) := by
  have hcolon : ¬ Inside ':' := by decide
  have hsplit : (memberText m).splitOn ':' = [quoted m.1, valueText m.2] := by
    refine List.splitOn_intercalate ':' ?_ (List.cons_ne_nil _ _)
    simp only [List.forall_mem_cons]
    exact ⟨fun hc => hcolon (inside_of_mem_quoted h.1 _ hc),
      fun hc => hcolon (inside_of_mem_valueText h.2 _ hc), nofun⟩
  rw [readMember, hsplit]
  simp

theorem mapM_readMember (hplain : ∀ m ∈ members, IsPlain m.1 ∧ m.2.IsPlain) :
    (members.map memberText).mapM readMember =
      some (members.map fun m => (m.1, valueText m.2)) := by
  induction members with
  | nil => rfl
  | cons m members ih =>
      rw [List.forall_mem_cons] at hplain
      simp [readMember_memberText hplain.1, ih hplain.2]

theorem readObject_objectText (hplain : ∀ m ∈ members, IsPlain m.1 ∧ m.2.IsPlain) :
    readObject (objectText members) =
      some (.object (members.map fun m => (m.1, valueText m.2))) := by
  have hbody : '\x7b' ∉ bodyText members ∧ '\x7d' ∉ bodyText members := by
    constructor <;> exact fun hc => absurd (inside_of_mem_bodyText hplain _ hc) (by decide)
  rw [readObject, objectText, expect_append]
  simp only [Option.bind_eq_bind, Option.bind_some, List.dropLast_concat]
  rw [if_pos ⟨List.getLast?_concat, hbody⟩]
  by_cases hmembers : members = []
  · subst hmembers
    rfl
  · have hcomma : ∀ text ∈ members.map memberText, ',' ∉ text := by
      intro text htext hc
      obtain ⟨m, hm, rfl⟩ := List.mem_map.mp htext
      exact absurd (inside_of_mem_memberText (hplain m hm) _ hc) (by decide)
    rw [if_neg (bodyText_ne_nil hmembers), bodyText,
      List.splitOn_intercalate ',' hcomma (mt List.map_eq_nil_iff.mp hmembers),
      mapM_readMember hplain]
    rfl

def IndexJson.compact : IndexJson where
  toJsonReader := compactReader
  object members := .ok (objectText members)
  reads_object members hplain := by
    have hbreak : ∀ c ∈ ['\n', '\r'], c ∉ objectText members := by
      intro c hc hmem
      have hinside : c ∈ bodyText members → c ∈ [',', ':'] ∨ Inside c :=
        inside_of_mem_bodyText hplain c
      simp only [List.mem_cons, List.not_mem_nil, or_false] at hc
      rcases hc with rfl | rfl
      · exact absurd hmem (by simpa [objectText] using mt hinside (by decide))
      · exact absurd hmem (by simpa [objectText] using mt hinside (by decide))
    refine ⟨_, _, rfl, readObject_objectText hplain, ?_, ?_, hbreak _ (by decide),
      hbreak _ (by decide)⟩
    · rw [List.forall₂_map_right_iff, List.forall₂_same]
      exact fun m _ => ⟨rfl, reads_valueText m.2⟩
    · exact List.cons_ne_nil _ _

end Compact

end Rkb.Celestia.Index
