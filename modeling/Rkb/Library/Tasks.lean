import Mathlib.Logic.Function.Basic
import Rkb.Library.Program
import Rkb.Library.Runs

/-!
Tasks that share a state and interleave operation by operation, and the
rely-guarantee rule for them. A task between two of its programs is the program
that has returned the task's local state.
-/

namespace Rkb.Library.Tasks

open Rkb.Library.Program
open Rkb.Library.Runs

/-- The effect of the tasks' operations, the inputs they take up in a state, and
the program that handles an input. -/
structure System (Op : Type) (Ans : Op → Type) (S Task : Type) (Local Input : Task → Type) where
  sem : Task → Sem Op Ans S
  accept : (t : Task) → Local t → S → Input t → S → Prop
  handler : (t : Task) → Local t → Input t → Prog Op Ans (Local t)

/-- The shared state and what each task has left to do. -/
structure Config (Op : Type) (Ans : Op → Type) (S : Type) {Task : Type}
    (Local : Task → Type) where
  shared : S
  task : (t : Task) → Prog Op Ans (Local t)

/-- A task takes up an input, or performs its next operation. -/
inductive Label (Ans : Op → Type) {Task : Type} (Input : Task → Type)
  | start (t : Task) (x : Input t)
  | act (t : Task) (e : Event Ans)

variable {Op : Type} {Ans : Op → Type} {S Task : Type} {Local Input : Task → Type}

abbrev TaskTransition (Ans : Op → Type) (S : Type) (Local Input : Task → Type) : Type :=
  Transition (Config Op Ans S Local) (Label Ans Input)

variable [DecidableEq Task]

/-- One step of the interleaving. Any task may move at any time. -/
inductive Step (sys : System Op Ans S Task Local Input) :
    Config Op Ans S Local → Label Ans Input → Config Op Ans S Local → Prop
  | start {c : Config Op Ans S Local} {t : Task} {l : Local t} {x : Input t} {s' : S} :
      c.task t = .pure l → sys.accept t l c.shared x s' →
      Step sys c (.start t x) ⟨s', Function.update c.task t (sys.handler t l x)⟩
  | act {c : Config Op Ans S Local} {t : Task} {o : Op}
      {k : Ans o → Prog Op Ans (Local t)} {ans : Ans o} {s' : S} :
      c.task t = .op o k → sys.sem t o c.shared ans s' →
      Step sys c (.act t ⟨o, ans⟩) ⟨s', Function.update c.task t (k ans)⟩

section RelyGuarantee

variable (sem : Sem Op Ans S) (Inv : S → Prop) (Rely Guar : S → S → Prop)
  (Allowed : (o : Op) → S → Ans o → Prop)

/-- From `s` on, whatever the other tasks do within `Rely`, every operation of
the program keeps the invariant, stays within `Guar` and is `Allowed`, and the
value it returns satisfies `Q`. -/
def Safe {α : Type} (Q : α → S → Prop) : Prog Op Ans α → S → Prop
  | .pure a, s => Q a s
  | .op o k, s => ∀ s₁, Rely s s₁ → Inv s₁ → ∀ ans s₂, sem o s₁ ans s₂ →
      (Inv s₂ ∧ Guar s₁ s₂ ∧ Allowed o s₁ ans) ∧ Safe Q (k ans) s₂

variable {sem Inv Rely Guar Allowed} {α β : Type} {Q : α → S → Prop} {R : β → S → Prop}

theorem safe_bind {p : Prog Op Ans α} {f : α → Prog Op Ans β} {s : S}
    (hp : Safe sem Inv Rely Guar Allowed Q p s)
    (hf : ∀ a s', Q a s' → Safe sem Inv Rely Guar Allowed R (f a) s') :
    Safe sem Inv Rely Guar Allowed R (p >>= f) s := by
  induction p generalizing s with
  | pure a => exact hf a s hp
  | op o k ih =>
      intro s₁ hrely hinv ans s₂ hsem
      obtain ⟨hstep, hrest⟩ := hp s₁ hrely hinv ans s₂ hsem
      exact ⟨hstep, ih ans hrest⟩

theorem Safe.mono {Q' : α → S → Prop} {p : Prog Op Ans α} {s : S}
    (hp : Safe sem Inv Rely Guar Allowed Q p s) (himp : ∀ a s', Q a s' → Q' a s') :
    Safe sem Inv Rely Guar Allowed Q' p s := by
  induction p generalizing s with
  | pure a => exact himp a s hp
  | op o k ih =>
      intro s₁ hrely hinv ans s₂ hsem
      obtain ⟨hstep, hrest⟩ := hp s₁ hrely hinv ans s₂ hsem
      exact ⟨hstep, ih ans hrest⟩

theorem Safe.stable (htrans : ∀ s₁ s₂ s₃, Rely s₁ s₂ → Rely s₂ s₃ → Rely s₁ s₃)
    (hQ : ∀ a s₁ s₂, Q a s₁ → Rely s₁ s₂ → Q a s₂)
    {p : Prog Op Ans α} {s s' : S} (hp : Safe sem Inv Rely Guar Allowed Q p s)
    (hrely : Rely s s') : Safe sem Inv Rely Guar Allowed Q p s' := by
  cases p with
  | pure a => exact hQ a s s' hp hrely
  | op o k =>
      intro s₁ hrely₁ hinv ans s₂ hsem
      exact hp s₁ (htrans s s' s₁ hrely hrely₁) hinv ans s₂ hsem

theorem Safe.returns {R : α → Prop} {p : Prog Op Ans α} {s : S}
    (hp : Safe sem Inv Rely Guar Allowed Q p s) (hreturns : p.Returns R) :
    Safe sem Inv Rely Guar Allowed (fun a s' => Q a s' ∧ R a) p s := by
  induction p generalizing s with
  | pure a => exact ⟨hp, hreturns⟩
  | op o k ih =>
      intro s₁ hrely hinv ans s₂ hsem
      obtain ⟨hstep, hrest⟩ := hp s₁ hrely hinv ans s₂ hsem
      exact ⟨hstep, ih ans hrest (hreturns ans)⟩

theorem safe_of_performs {P : Op → Prop} {J : S → Prop}
    (hstable : ∀ s s', J s → Rely s s' → J s')
    (hop : ∀ o, P o → ∀ s ans s', Inv s → J s → sem o s ans s' →
      (Inv s' ∧ Guar s s' ∧ Allowed o s ans) ∧ J s')
    {p : Prog Op Ans α} {s : S} (hp : p.Performs P) (hs : J s) :
    Safe sem Inv Rely Guar Allowed (fun _ s' => J s') p s := by
  induction p generalizing s with
  | pure a => exact hs
  | op o k ih =>
      intro s₁ hrely hinv ans s₂ hsem
      obtain ⟨hstep, hJ⟩ := hop o hp.1 s₁ ans s₂ hinv (hstable s s₁ hs hrely) hsem
      exact ⟨hstep, ih ans (hp.2 ans) hJ⟩

end RelyGuarantee

/-- The obligations of a rely-guarantee proof: what a task guarantees the others
may rely on, its local state stays `Good` meanwhile, and the inputs it accepts
are handled safely. -/
structure RelyGuarantee (sys : System Op Ans S Task Local Input) (Inv : S → Prop)
    (Rely Guar : Task → S → S → Prop) (Allowed : Task → (o : Op) → S → Ans o → Prop)
    (Good : (t : Task) → Local t → S → Prop) : Prop where
  refl : ∀ t s, Rely t s s
  trans : ∀ t s₁ s₂ s₃, Rely t s₁ s₂ → Rely t s₂ s₃ → Rely t s₁ s₃
  guarantee : ∀ t u s s', u ≠ t → Guar t s s' → Rely u s s'
  good : ∀ t l s s', Good t l s → Rely t s s' → Good t l s'
  accepted : ∀ t l s x s', Inv s → Good t l s → sys.accept t l s x s' →
    Inv s' ∧ Guar t s s' ∧
      Safe (sys.sem t) Inv (Rely t) (Guar t) (Allowed t) (Good t) (sys.handler t l x) s'

/-- The invariant holds and every task is safe, its local state being `Good`. -/
def SafeConfig (sys : System Op Ans S Task Local Input) (Inv : S → Prop)
    (Rely Guar : Task → S → S → Prop) (Allowed : Task → (o : Op) → S → Ans o → Prop)
    (Good : (t : Task) → Local t → S → Prop) (c : Config Op Ans S Local) : Prop :=
  Inv c.shared ∧ ∀ t, Safe (sys.sem t) Inv (Rely t) (Guar t) (Allowed t) (Good t)
    (c.task t) c.shared

section Rule

variable {sys : System Op Ans S Task Local Input} {Inv : S → Prop}
  {Rely Guar : Task → S → S → Prop} {Allowed : Task → (o : Op) → S → Ans o → Prop}
  {Good : (t : Task) → Local t → S → Prop} {c c' : Config Op Ans S Local}

theorem RelyGuarantee.update (hrules : RelyGuarantee sys Inv Rely Guar Allowed Good)
    (hc : SafeConfig sys Inv Rely Guar Allowed Good c) {t : Task} {p : Prog Op Ans (Local t)}
    {s' : S} (hinv : Inv s') (hguar : Guar t c.shared s')
    (hp : Safe (sys.sem t) Inv (Rely t) (Guar t) (Allowed t) (Good t) p s') :
    SafeConfig sys Inv Rely Guar Allowed Good ⟨s', Function.update c.task t p⟩ := by
  refine ⟨hinv, ?_⟩
  intro u
  by_cases hu : u = t
  · subst hu
    simpa only [Function.update_self] using hp
  · simp only [Function.update_of_ne hu]
    exact (hc.2 u).stable (hrules.trans u) (fun l s₁ s₂ => hrules.good u l s₁ s₂)
      (hrules.guarantee t u _ _ hu hguar)

theorem RelyGuarantee.step (hrules : RelyGuarantee sys Inv Rely Guar Allowed Good)
    {l : Label Ans Input} (hstep : Step sys c l c')
    (hc : SafeConfig sys Inv Rely Guar Allowed Good c) :
    SafeConfig sys Inv Rely Guar Allowed Good c' ∧
      ∀ t o ans, l = .act t ⟨o, ans⟩ → Allowed t o c.shared ans := by
  cases hstep with
  | @start t l x s' hidle haccept =>
      have hl : Good t l c.shared := by
        have hsafe := hc.2 t
        rwa [hidle] at hsafe
      obtain ⟨hinv, hguar, hsafe⟩ := hrules.accepted t l c.shared x s' hc.1 hl haccept
      exact ⟨hrules.update hc hinv hguar hsafe, by simp⟩
  | @act t o k ans s' hop hsem =>
      have hsafe := hc.2 t
      rw [hop] at hsafe
      obtain ⟨⟨hinv, hguar, hallowed⟩, hrest⟩ :=
        hsafe c.shared (hrules.refl t _) hc.1 ans s' hsem
      refine ⟨hrules.update hc hinv hguar hrest, ?_⟩
      rintro u o' ans' heq
      simp only [Label.act.injEq, Sigma.mk.injEq] at heq
      obtain ⟨rfl, rfl, hans⟩ := heq
      exact eq_of_heq hans ▸ hallowed

/-- The rely-guarantee rule: every state of every run is safe, and every
operation performed in it was allowed. -/
theorem RelyGuarantee.run (hrules : RelyGuarantee sys Inv Rely Guar Allowed Good)
    {ts : List (TaskTransition Ans S Local Input)} (hrun : Run (Step sys) c ts c')
    (hc : SafeConfig sys Inv Rely Guar Allowed Good c) :
    SafeConfig sys Inv Rely Guar Allowed Good c' ∧
      ∀ tr ∈ ts, ∀ t o ans, tr.label = .act t ⟨o, ans⟩ → Allowed t o tr.pre.shared ans := by
  have hall := hrun.invariant (SafeConfig sys Inv Rely Guar Allowed Good) (fun _ => True)
    (fun t ht _ hpre => (hrules.step ht hpre).1) (fun _ _ => trivial) hc
  refine ⟨hall.1, ?_⟩
  intro tr htr
  exact (hrules.step (hrun.step_of_mem htr) (hall.2 tr htr).1).2

end Rule

section Restriction

/-- The same tasks where an operation is only performed in a state that
satisfies `P`. -/
def System.restrict (sys : System Op Ans S Task Local Input)
    (P : Task → (o : Op) → S → Ans o → Prop) : System Op Ans S Task Local Input :=
  { sys with sem := fun t o s ans s' => sys.sem t o s ans s' ∧ P t o s ans }

variable {sys : System Op Ans S Task Local Input} {P : Task → (o : Op) → S → Ans o → Prop}
  {c c' : Config Op Ans S Local}

theorem run_restrict {ts : List (TaskTransition Ans S Local Input)}
    (hrun : Run (Step sys) c ts c')
    (hP : ∀ tr ∈ ts, ∀ t o ans, tr.label = .act t ⟨o, ans⟩ → P t o tr.pre.shared ans) :
    Run (Step (sys.restrict P)) c ts c' := by
  induction hrun with
  | nil c => exact .nil c
  | @cons c c₁ c' l ts hstep _ ih =>
      have hfirst : Step (sys.restrict P) c l c₁ := by
        cases hstep with
        | start hidle haccept => exact .start hidle haccept
        | @act t o k ans s' hop hsem =>
            exact .act hop ⟨hsem, hP _ List.mem_cons_self t o ans rfl⟩
      exact .cons hfirst (ih fun tr htr => hP tr (List.mem_cons_of_mem _ htr))

end Restriction

section Schedules

/-- A deterministic environment of the tasks: the answers and the states after
them, `none` where a task has to wait. -/
structure Environment (Op : Type) (Ans : Op → Type) (S Task : Type)
    (Local Input : Task → Type) where
  answer : (t : Task) → (o : Op) → S → Option (Ans o × S)
  take : (t : Task) → Local t → S → Input t → Option S

inductive Move {Task : Type} (Input : Task → Type)
  | start (t : Task) (x : Input t)
  | act (t : Task)

variable (sys : System Op Ans S Task Local Input) (env : Environment Op Ans S Task Local Input)

def playMove (c : Config Op Ans S Local) :
    Move Input → Option (Label Ans Input × Config Op Ans S Local)
  | .start t x =>
      match c.task t with
      | .op _ _ => none
      | .pure l => (env.take t l c.shared x).map fun s' =>
          (.start t x, ⟨s', Function.update c.task t (sys.handler t l x)⟩)
  | .act t =>
      match c.task t with
      | .pure _ => none
      | .op o k => (env.answer t o c.shared).map fun r =>
          (.act t ⟨o, r.1⟩, ⟨r.2, Function.update c.task t (k r.1)⟩)

structure Environment.Sound : Prop where
  answer : ∀ t o s ans s', env.answer t o s = some (ans, s') → sys.sem t o s ans s'
  take : ∀ t l s x s', env.take t l s x = some s' → sys.accept t l s x s'

variable {sys env}

theorem step_of_playMove (hsound : env.Sound sys) (c : Config Op Ans S Local) (m : Move Input)
    (l : Label Ans Input) (c' : Config Op Ans S Local)
    (h : playMove sys env c m = some (l, c')) : Step sys c l c' := by
  cases m with
  | start t x =>
      simp only [playMove] at h
      split at h
      · cases h
      · rename_i l hidle
        obtain ⟨s', htake, heq⟩ := Option.map_eq_some_iff.mp h
        cases heq
        exact .start hidle (hsound.take t l _ x s' htake)
  | act t =>
      simp only [playMove] at h
      split at h
      · cases h
      · rename_i o k hop
        obtain ⟨⟨ans, s'⟩, hanswer, heq⟩ := Option.map_eq_some_iff.mp h
        cases heq
        exact .act hop (hsound.answer t o _ ans s' hanswer)

end Schedules

end Rkb.Library.Tasks
