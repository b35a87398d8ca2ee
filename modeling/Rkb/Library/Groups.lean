import Mathlib.Data.List.Basic
import Mathlib.Order.Lattice

namespace Rkb.Library.Groups

variable {α κ : Type*} [LinearOrder κ] {key : α → κ} {xs : List α}

theorem eq_filter_append_filter {k : κ} (hsorted : xs.Pairwise fun a b => key a ≤ key b)
    (hleast : ∀ x ∈ xs, k ≤ key x) :
    xs = xs.filter (fun x => key x = k) ++ xs.filter (fun x => key x ≠ k) := by
  induction xs with
  | nil => rfl
  | cons x xs ih =>
      rw [List.pairwise_cons] at hsorted
      rw [List.forall_mem_cons] at hleast
      have hrest := ih hsorted.2 hleast.2
      by_cases hx : key x = k
      · rw [List.filter_cons_of_pos (by simpa using hx),
          List.filter_cons_of_neg (by simpa using hx),
          List.cons_append, ← hrest]
      · -- whatever follows is above `k` as well
        have hlater : ∀ y ∈ xs, key y ≠ k := by
          intro y hy heq
          have hle : key x ≤ k := heq ▸ hsorted.1 y hy
          exact hx (le_antisymm hle hleast.1)
        have hnone : xs.filter (fun y => key y = k) = [] := by
          rw [List.filter_eq_nil_iff]
          simpa using hlater
        have hall : xs.filter (fun y => key y ≠ k) = xs := by
          rw [List.filter_eq_self]
          simpa using hlater
        rw [List.filter_cons_of_neg (by simpa using hx),
          List.filter_cons_of_pos (by simpa using hx),
          hnone, hall, List.nil_append]

theorem sublist_flatMap {keys : List κ} {groups : κ → List α}
    (hkeys : keys.Pairwise (· < ·)) (hsorted : xs.Pairwise fun a b => key a ≤ key b)
    (hmem : ∀ x ∈ xs, key x ∈ keys)
    (hgroup : ∀ k ∈ keys, (xs.filter fun x => key x = k).Sublist (groups k)) :
    xs.Sublist (keys.flatMap groups) := by
  induction keys generalizing xs with
  | nil =>
      have hnil : xs = [] := List.eq_nil_iff_forall_not_mem.mpr fun x hx =>
        List.not_mem_nil (hmem x hx)
      rw [hnil]
      exact List.nil_sublist _
  | cons k keys ih =>
      rw [List.pairwise_cons] at hkeys
      have hleast : ∀ x ∈ xs, k ≤ key x := by
        intro x hx
        rcases List.mem_cons.mp (hmem x hx) with heq | hlater
        · exact le_of_eq heq.symm
        · exact le_of_lt (hkeys.1 _ hlater)
      rw [eq_filter_append_filter hsorted hleast, List.flatMap_cons]
      refine (hgroup k List.mem_cons_self).append (ih hkeys.2 (hsorted.filter _) ?_ ?_)
      · intro x hx
        obtain ⟨hx, hne⟩ := List.mem_filter.mp hx
        exact (List.mem_cons.mp (hmem x hx)).resolve_left (by simpa using hne)
      · intro k' hk'
        have hne : k' ≠ k := ne_of_gt (hkeys.1 k' hk')
        rw [List.filter_filter]
        refine List.Sublist.trans ?_ (hgroup k' (List.mem_cons_of_mem _ hk'))
        refine List.monotone_filter_right xs fun x hx => ?_
        simp only [Bool.and_eq_true] at hx
        exact hx.1

end Rkb.Library.Groups
