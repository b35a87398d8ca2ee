import Mathlib.Data.Finmap
import Mathlib.Data.List.Induction

/-!
Hash maps as finite maps. A map has no order; code that iterates over one is
given the order of its visit as a list of the map's entries.
-/

namespace Rkb.Library.Maps

abbrev HashMap (κ ν : Type) : Type := Finmap fun _ : κ => ν

variable {κ ν : Type}

def retain (p : κ → ν → Bool) (m : HashMap κ ν) : HashMap κ ν where
  entries := m.entries.filter fun e => p e.1 e.2
  nodupKeys := by
    have hnodup := m.nodupKeys
    rw [← Multiset.nodup_keys] at hnodup ⊢
    exact Multiset.nodup_of_le (Multiset.map_le_map (Multiset.filter_le _ _)) hnodup

theorem mem_entries_retain {p : κ → ν → Bool} {m : HashMap κ ν} {e : (_ : κ) × ν} :
    e ∈ (retain p m).entries ↔ e ∈ m.entries ∧ p e.1 e.2 = true := by
  rw [retain, Multiset.mem_filter]

variable {ν' : Type} {m : HashMap κ ν} {m' : HashMap κ ν'}

def SameKeys (m : HashMap κ ν) (m' : HashMap κ ν') : Prop := ∀ k, k ∈ m ↔ k ∈ m'

theorem sameKeys_empty : SameKeys (∅ : HashMap κ ν) (∅ : HashMap κ ν') := fun _ =>
  iff_of_false Finmap.notMem_empty Finmap.notMem_empty

theorem SameKeys.keys_eq (h : SameKeys m m') : m.keys = m'.keys := by
  ext k
  rw [Finmap.mem_keys, Finmap.mem_keys]
  exact h k

variable [DecidableEq κ]

theorem mem_entries_iff {m : HashMap κ ν} {k : κ} {v : ν} :
    (⟨k, v⟩ : (_ : κ) × ν) ∈ m.entries ↔ m.lookup k = some v := by
  induction m using Finmap.induction_on with
  | H a => exact AList.mem_lookup_iff.symm

theorem lookup_retain (p : κ → ν → Bool) (m : HashMap κ ν) (k : κ) :
    (retain p m).lookup k = (m.lookup k).filter (p k) := by
  ext v
  rw [← mem_entries_iff, mem_entries_retain, mem_entries_iff, Option.filter_eq_some_iff]

theorem lookup_insert (m : HashMap κ ν) (k k' : κ) (v : ν) :
    (m.insert k v).lookup k' = if k' = k then some v else m.lookup k' := by
  split
  · rename_i h
    rw [h, Finmap.lookup_insert]
  · rename_i h
    rw [Finmap.lookup_insert_of_ne m h]

theorem lookup_erase (m : HashMap κ ν) (k k' : κ) :
    (m.erase k).lookup k' = if k' = k then none else m.lookup k' := by
  split
  · rename_i h
    rw [h, Finmap.lookup_erase]
  · rename_i h
    rw [Finmap.lookup_erase_ne h]

section Keys

theorem mem_retain {keep : κ → Bool} {k : κ} :
    k ∈ retain (fun k _ => keep k) m ↔ k ∈ m ∧ keep k = true := by
  rw [← Finmap.lookup_isSome, lookup_retain, ← Finmap.lookup_isSome]
  cases m.lookup k with
  | none => simp
  | some v => cases keep k <;> simp [Option.filter_some]

theorem SameKeys.insert (h : SameKeys m m') (k : κ) (v : ν) (v' : ν') :
    SameKeys (m.insert k v) (m'.insert k v') := by
  intro k'
  rw [Finmap.mem_insert, Finmap.mem_insert, h k']

theorem SameKeys.erase (h : SameKeys m m') (k : κ) : SameKeys (m.erase k) (m'.erase k) := by
  intro k'
  rw [Finmap.mem_erase, Finmap.mem_erase, h k']

theorem SameKeys.erase_right (h : SameKeys m m') {k : κ} (hk : k ∉ m) :
    SameKeys m (m'.erase k) := by
  intro k'
  rw [Finmap.mem_erase, ← h k', and_iff_right_of_imp]
  rintro hmem rfl
  exact hk hmem

theorem SameKeys.retain (h : SameKeys m m') (keep : κ → Bool) :
    SameKeys (retain (fun k _ => keep k) m) (Maps.retain (fun k _ => keep k) m') := by
  intro k
  rw [mem_retain, mem_retain, h k]

end Keys

section Log

variable {α : Type} {p : α → Bool}

def lastWhere (p : α → Bool) (xs : List α) : Option α := (xs.filter p).getLast?

theorem lastWhere_append_singleton (xs : List α) (x : α) :
    lastWhere p (xs ++ [x]) = if p x then some x else lastWhere p xs := by
  rw [lastWhere, List.filter_append]
  split
  · rename_i h
    rw [List.filter_cons_of_pos h]
    exact List.getLast?_concat
  · rename_i h
    rw [List.filter_cons_of_neg h, List.filter_nil, List.append_nil]
    rfl

theorem lastWhere_cons (x : α) (xs : List α) :
    lastWhere p (x :: xs) = (lastWhere p xs).or (if p x then some x else none) := by
  induction xs using List.reverseRecOn with
  | nil => exact lastWhere_append_singleton [] x
  | append_singleton xs y ih =>
      rw [← List.cons_append, lastWhere_append_singleton, lastWhere_append_singleton, ih]
      split <;> rfl

theorem lastWhere_eq_some {xs : List α} {x : α} (h : lastWhere p xs = some x) :
    x ∈ xs ∧ p x = true :=
  List.mem_filter.mp (List.mem_of_getLast? h)

theorem lastWhere_eq_none {xs : List α} : lastWhere p xs = none ↔ ∀ x ∈ xs, ¬ p x = true := by
  rw [lastWhere, List.getLast?_eq_none_iff, List.filter_eq_nil_iff]

theorem lookup_foldl_insert (key : α → κ) (value : α → ν) (m : HashMap κ ν) (xs : List α)
    (k : κ) :
    (xs.foldl (fun m x => m.insert (key x) (value x)) m).lookup k =
      ((lastWhere (fun x => key x = k) xs).map value).or (m.lookup k) := by
  induction xs using List.reverseRecOn with
  | nil => rfl
  | append_singleton xs x ih =>
      rw [List.foldl_append, List.foldl_cons, List.foldl_nil, lookup_insert, ih,
        lastWhere_append_singleton]
      by_cases h : k = key x
      · subst h
        simp
      · simp [h, Ne.symm h]

end Log

end Rkb.Library.Maps
