import Mathlib.Data.List.Induction

namespace Rkb.Library.Runs

variable {S L : Type*}

structure Transition (S L : Type*) where
  pre : S
  label : L
  post : S

/-- `Run step s ts s'`: the steps `ts` lead from `s` to `s'`. -/
inductive Run (step : S → L → S → Prop) : S → List (Transition S L) → S → Prop
  | nil (s : S) : Run step s [] s
  | cons {s s₁ s' : S} {l : L} {ts : List (Transition S L)} :
      step s l s₁ → Run step s₁ ts s' → Run step s (⟨s, l, s₁⟩ :: ts) s'

variable {step : S → L → S → Prop} {s s' : S} {ts : List (Transition S L)}

theorem Run.append {s₁ : S} {us : List (Transition S L)}
    (hfirst : Run step s ts s₁) (hsecond : Run step s₁ us s') :
    Run step s (ts ++ us) s' := by
  induction hfirst with
  | nil s => exact hsecond
  | cons hstep _ ih => exact .cons hstep (ih hsecond)

theorem Run.split {us vs : List (Transition S L)} (hrun : Run step s (us ++ vs) s') :
    ∃ s₁, Run step s us s₁ ∧ Run step s₁ vs s' := by
  induction us generalizing s with
  | nil => exact ⟨s, .nil s, hrun⟩
  | cons t us ih =>
      cases hrun with
      | cons hstep hrest =>
          obtain ⟨s₂, hus, hvs⟩ := ih hrest
          exact ⟨s₂, .cons hstep hus, hvs⟩

theorem Run.at_step {us vs : List (Transition S L)} {t : Transition S L}
    (hrun : Run step s (us ++ t :: vs) s') :
    Run step s us t.pre ∧ Run step s (us ++ [t]) t.post := by
  obtain ⟨s₁, hus, hrest⟩ := hrun.split
  cases hrest with
  | cons hstep _ => exact ⟨hus, hus.append (.cons hstep (.nil _))⟩

/-- Induction on the last step, for an invariant that also speaks of the steps made. -/
theorem Run.history (Inv : List (Transition S L) → S → Prop) (hnil : Inv [] s)
    (hstep : ∀ us t, us ++ [t] <+: ts → step t.pre t.label t.post → Inv us t.pre →
      Inv (us ++ [t]) t.post)
    (hrun : Run step s ts s') : Inv ts s' := by
  induction ts using List.reverseRecOn generalizing s' with
  | nil =>
      cases hrun
      exact hnil
  | append_singleton us t ih =>
      obtain ⟨s₁, hus, ht⟩ := hrun.split
      cases ht with
      | cons hlast hend =>
          cases hend
          apply hstep us _ List.prefix_rfl hlast
          apply ih _ hus
          intro vs u hbegins
          exact hstep vs u (hbegins.trans (List.prefix_append us _))

theorem Run.step_of_mem (hrun : Run step s ts s') {t : Transition S L}
    (ht : t ∈ ts) : step t.pre t.label t.post := by
  induction hrun with
  | nil s => simp at ht
  | cons hstep _ ih =>
      rcases List.mem_cons.mp ht with rfl | ht
      · exact hstep
      · exact ih ht

/-- An invariant that every step meeting `Cond` preserves holds in every state
of a run all of whose steps meet `Cond`. -/
theorem Run.invariant (Inv : S → Prop) (Cond : Transition S L → Prop)
    (hstep : ∀ t : Transition S L, step t.pre t.label t.post → Cond t →
      Inv t.pre → Inv t.post)
    (hrun : Run step s ts s') (hcond : ∀ t ∈ ts, Cond t) (hs : Inv s) :
    Inv s' ∧ ∀ t ∈ ts, Inv t.pre ∧ Inv t.post := by
  induction hrun with
  | nil s => exact ⟨hs, by simp⟩
  | @cons s s₁ s' l ts hfirst _ ih =>
      have hs₁ : Inv s₁ :=
        hstep ⟨s, l, s₁⟩ hfirst (hcond _ (by simp)) hs
      obtain ⟨hlast, hall⟩ := ih (fun t ht => hcond t (by simp [ht])) hs₁
      refine ⟨hlast, ?_⟩
      intro t ht
      rcases List.mem_cons.mp ht with rfl | ht
      · exact ⟨hs, hs₁⟩
      · exact hall t ht

/-- A condition on the steps and a property of the states that is never regained:
where a step meets the one exactly when it keeps the other, so does a run. -/
theorem Run.forall_iff {Inv J : S → Prop} {Side Cond : Transition S L → Prop}
    (hinv : ∀ t : Transition S L, step t.pre t.label t.post → Side t → Inv t.pre → Inv t.post)
    (hcond : ∀ t : Transition S L, step t.pre t.label t.post → Side t → Inv t.pre → J t.pre →
      (Cond t ↔ J t.post))
    (hlost : ∀ t : Transition S L, step t.pre t.label t.post → Inv t.pre → J t.post → J t.pre)
    (hrun : Run step s ts s') (hside : ∀ t ∈ ts, Side t) (hs : Inv s) :
    (J s' → J s) ∧ (J s → ((∀ t ∈ ts, Cond t) ↔ J s')) := by
  induction hrun with
  | nil s => exact ⟨id, fun hJ => ⟨fun _ => hJ, fun _ _ ht => absurd ht List.not_mem_nil⟩⟩
  | @cons s s₁ s' l ts hfirst _ ih =>
      have hnow : Side ⟨s, l, s₁⟩ := hside _ List.mem_cons_self
      obtain ⟨hearlier, hlater⟩ := ih (fun t ht => hside t (List.mem_cons_of_mem _ ht))
        (hinv ⟨s, l, s₁⟩ hfirst hnow hs)
      have hback : J s₁ → J s := hlost ⟨s, l, s₁⟩ hfirst hs
      refine ⟨fun hlast => hback (hearlier hlast), fun hJ => ?_⟩
      have hiff := hcond ⟨s, l, s₁⟩ hfirst hnow hs hJ
      rw [List.forall_mem_cons]
      constructor
      · rintro ⟨hmeets, hall⟩
        exact (hlater (hiff.mp hmeets)).mp hall
      · intro hlast
        have hJ₁ := hearlier hlast
        exact ⟨hiff.mpr hJ₁, (hlater hJ₁).mpr hlast⟩

section Play

variable {M : Type*} (move : S → M → Option (L × S))

def play (s : S) : List M → Option (List (Transition S L) × S)
  | [] => some ([], s)
  | m :: ms =>
      match move s m with
      | none => none
      | some (l, s₁) => (play s₁ ms).map fun r => (⟨s, l, s₁⟩ :: r.1, r.2)

variable {move}

theorem run_of_play (hsound : ∀ s m l s', move s m = some (l, s') → step s l s') {ms : List M}
    (h : play move s ms = some (ts, s')) : Run step s ts s' := by
  induction ms generalizing s ts with
  | nil =>
      simp only [play, Option.some.injEq, Prod.mk.injEq] at h
      obtain ⟨rfl, rfl⟩ := h
      exact .nil s
  | cons m ms ih =>
      simp only [play] at h
      split at h
      · cases h
      · rename_i l s₁ hmove
        obtain ⟨⟨us, t⟩, hplay, heq⟩ := Option.map_eq_some_iff.mp h
        simp only [Prod.mk.injEq] at heq
        obtain ⟨rfl, rfl⟩ := heq
        exact .cons (hsound s m l s₁ hmove) (ih hplay)

theorem exists_run_of_play (hsound : ∀ s m l s', move s m = some (l, s') → step s l s') (s : S)
    (ms : List M) (check : List (Transition S L) → S → Bool)
    (h : (play move s ms).any (fun r => check r.1 r.2) = true) :
    ∃ ts s', Run step s ts s' ∧ check ts s' = true := by
  cases hplay : play move s ms with
  | none =>
      rw [hplay] at h
      cases h
  | some r =>
      rw [hplay] at h
      exact ⟨r.1, r.2, run_of_play hsound hplay, h⟩

end Play

end Rkb.Library.Runs
