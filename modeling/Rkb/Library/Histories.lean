import Rkb.Library.Tasks

namespace Rkb.Library.Histories

open Rkb.Library.Program
open Rkb.Library.Runs
open Rkb.Library.Tasks

variable {Op : Type} {Ans : Op → Type} {S : Type}

section Trace

variable {sem : Sem Op Ans S} {Inv : S → Prop} {Rely Guar : S → S → Prop}
  {Allowed : (o : Op) → S → Ans o → Prop} {α : Type}

/-- A program is safe where each of its operations keeps `J`, a fact about the
events it has performed that the other tasks cannot make false. It returns what
it returns to the same answers when it runs alone. -/
theorem safe_of_trace {P : Op → Prop} {J : List (Event Ans) → S → Prop}
    (hstable : ∀ tr s s', J tr s → Rely s s' → J tr s')
    (hop : ∀ o, P o → ∀ tr s ans s', Inv s → J tr s → sem o s ans s' →
      (Inv s' ∧ Guar s s' ∧ Allowed o s ans) ∧ J (tr ++ [⟨o, ans⟩]) s')
    {p : Prog Op Ans α} (hp : p.Performs P) (past : List (Event Ans)) {s : S} (hs : J past s) :
    Safe sem Inv Rely Guar Allowed
      (fun a s' => ∃ tr, p.Exec anyAnswer () tr a () ∧ J (past ++ tr) s') p s := by
  induction p generalizing past s with
  | pure a => exact ⟨[], ⟨rfl, rfl, rfl⟩, by rwa [List.append_nil]⟩
  | op o k ih =>
      intro s₁ hrely hinv ans s₂ hsem
      obtain ⟨hstep, hJ⟩ := hop o hp.1 past s₁ ans s₂ hinv (hstable past s s₁ hs hrely) hsem
      refine ⟨hstep, (ih ans (hp.2 ans) _ hJ).mono ?_⟩
      rintro a s' ⟨tr, hexec, hlast⟩
      refine ⟨⟨o, ans⟩ :: tr, ⟨ans, (), tr, rfl, trivial, hexec⟩, ?_⟩
      rwa [List.append_assoc] at hlast

end Trace

section Logged

variable {Task : Type} {Local Input : Task → Type}

/-- The operation of one step, with the task that performs it. -/
def eventOf : Label Ans Input → List (Task × Event Ans)
  | .start _ _ => []
  | .act t e => [(t, e)]

def events (ts : List (TaskTransition Ans S Local Input)) : List (Task × Event Ans) :=
  ts.flatMap fun tr => eventOf tr.label

theorem exists_of_mem_events {ts : List (TaskTransition Ans S Local Input)} {t : Task} {o : Op}
    {ans : Ans o} (h : (t, ⟨o, ans⟩) ∈ events ts) :
    ∃ us tr vs, ts = us ++ tr :: vs ∧ tr.label = .act t ⟨o, ans⟩ := by
  obtain ⟨tr, htr, hevent⟩ := List.mem_flatMap.mp h
  obtain ⟨us, vs, rfl⟩ := List.append_of_mem htr
  refine ⟨us, tr, vs, rfl, ?_⟩
  cases hlabel : tr.label with
  | start u x =>
      rw [hlabel] at hevent
      cases hevent
  | act u e =>
      rw [hlabel] at hevent
      cases List.mem_singleton.mp hevent
      rfl

/-- The same tasks over a state that keeps all the operations performed. -/
def logged (sys : System Op Ans S Task Local Input) :
    System Op Ans (S × List (Task × Event Ans)) Task Local Input where
  sem t o s ans s' := sys.sem t o s.1 ans s'.1 ∧ s'.2 = s.2 ++ [(t, ⟨o, ans⟩)]
  accept t l s x s' := sys.accept t l s.1 x s'.1 ∧ s'.2 = s.2
  handler := sys.handler

def withLog (c : Config Op Ans S Local) (log : List (Task × Event Ans)) :
    Config Op Ans (S × List (Task × Event Ans)) Local where
  shared := (c.shared, log)
  task := c.task

variable [DecidableEq Task] {sys : System Op Ans S Task Local Input} {c c' : Config Op Ans S Local}
  {l : Label Ans Input} {ts : List (TaskTransition Ans S Local Input)}

theorem step_logged (hstep : Step sys c l c') (log : List (Task × Event Ans)) :
    Step (logged sys) (withLog c log) l (withLog c' (log ++ eventOf l)) := by
  cases hstep with
  | @start t l x s' hidle haccept =>
      rw [eventOf, List.append_nil]
      exact .start (c := withLog c log) hidle ⟨haccept, rfl⟩
  | @act t o k ans s' hop hsem =>
      exact .act (c := withLog c log) hop ⟨hsem, rfl⟩

theorem run_logged (hrun : Run (Step sys) c ts c') (log : List (Task × Event Ans)) :
    ∃ us, Run (Step (logged sys)) (withLog c log) us (withLog c' (log ++ events ts)) := by
  induction hrun generalizing log with
  | nil c => exact ⟨[], by simpa [events] using Run.nil (withLog c log)⟩
  | @cons c c₁ c' l ts hstep _ ih =>
      obtain ⟨us, hrun⟩ := ih (log ++ eventOf l)
      rw [List.append_assoc] at hrun
      exact ⟨_, .cons (step_logged hstep log) hrun⟩

section Rule

variable {Inv : S × List (Task × Event Ans) → Prop}
  {Rely Guar : Task → S × List (Task × Event Ans) → S × List (Task × Event Ans) → Prop}
  {Allowed : Task → (o : Op) → S × List (Task × Event Ans) → Ans o → Prop}
  {Good : (t : Task) → Local t → S × List (Task × Event Ans) → Prop}

/-- The rely-guarantee rule for an invariant and for conditions on the operations that
speak of what has been performed before. -/
theorem run_of_relyGuarantee (hrules : RelyGuarantee (logged sys) Inv Rely Guar Allowed Good)
    (hrun : Run (Step sys) c ts c')
    (hc : SafeConfig (logged sys) Inv Rely Guar Allowed Good (withLog c [])) :
    SafeConfig (logged sys) Inv Rely Guar Allowed Good (withLog c' (events ts)) ∧
      ∀ us tr vs, ts = us ++ tr :: vs → ∀ t o ans, tr.label = .act t ⟨o, ans⟩ →
        Allowed t o (tr.pre.shared, events us) ans := by
  have hsafe : ∀ {us c₁}, Run (Step sys) c us c₁ →
      SafeConfig (logged sys) Inv Rely Guar Allowed Good (withLog c₁ (events us)) := by
    intro us c₁ hus
    obtain ⟨us', hrun'⟩ := run_logged hus []
    exact (hrules.run hrun' hc).1
  refine ⟨hsafe hrun, ?_⟩
  rintro us tr vs rfl t o ans hlabel
  have hstep : Step sys tr.pre tr.label tr.post :=
    hrun.step_of_mem (List.mem_append_right _ List.mem_cons_self)
  exact (hrules.step (step_logged hstep (events us)) (hsafe hrun.at_step.1)).2 t o ans hlabel

end Rule

end Logged

section Guarded

variable {Task : Type}

def Grows (s s' : S × List (Task × Event Ans)) : Prop := s.2 <+: s'.2

def past (s : S × List (Task × Event Ans)) : List (Event Ans) := s.2.map Prod.snd

abbrev LoggedSem (sem : Sem Op Ans S) (t : Task) : Sem Op Ans (S × List (Task × Event Ans)) :=
  fun o s ans s' => sem o s.1 ans s'.1 ∧ s'.2 = s.2 ++ [(t, ⟨o, ans⟩)]

/-- The invariant is kept by operations that require something of the log, which stays true
while the log grows. -/
structure Guarded (sem : Sem Op Ans S) (Inv : S × List (Task × Event Ans) → Prop)
    (Requires : S × List (Task × Event Ans) → Op → Prop) : Prop where
  grow : ∀ {s s' o}, Grows s s' → Requires s o → Requires s' o
  step : ∀ {t s o ans s'}, Inv s → Requires s o → LoggedSem sem t o s ans s' → Inv s'

/-- Every operation of the program keeps the invariant and has what it requires, whatever the
other tasks do meanwhile. -/
abbrev SafeGuarded (sem : Sem Op Ans S) (Inv : S × List (Task × Event Ans) → Prop)
    (Requires : S × List (Task × Event Ans) → Op → Prop) (t : Task) {α : Type}
    (Q : α → S × List (Task × Event Ans) → Prop) (p : Prog Op Ans α)
    (s : S × List (Task × Event Ans)) : Prop :=
  Safe (LoggedSem sem t) Inv Grows Grows (fun o s _ => Requires s o) Q p s

variable {sem : Sem Op Ans S} {Inv : S × List (Task × Event Ans) → Prop}
  {Requires : S × List (Task × Event Ans) → Op → Prop} {t : Task}
  {s s' s'' : S × List (Task × Event Ans)} {o : Op} {ans : Ans o} {α β : Type}
  {Q : α → S × List (Task × Event Ans) → Prop}

theorem Grows.refl (s : S × List (Task × Event Ans)) : Grows s s := List.prefix_rfl

theorem Grows.trans (h : Grows s s') (h' : Grows s' s'') : Grows s s'' := List.IsPrefix.trans h h'

theorem Grows.past_subset (h : Grows s s') : past s ⊆ past s' :=
  (List.IsPrefix.map Prod.snd h).subset

theorem grows_of_loggedSem (h : LoggedSem sem t o s ans s') : Grows s s' := by
  rw [Grows, h.2]
  exact List.prefix_append _ _

theorem safe_grows {p : Prog Op Ans α} (hp : SafeGuarded sem Inv Requires t Q p s) :
    SafeGuarded sem Inv Requires t (fun a s' => Q a s' ∧ Grows s s') p s := by
  have hfrom : ∀ s₀, Grows s₀ s →
      SafeGuarded sem Inv Requires t (fun a s' => Q a s' ∧ Grows s₀ s') p s := by
    intro s₀ hs₀
    induction p generalizing s with
    | pure a => exact ⟨hp, hs₀⟩
    | op o k ih =>
        intro s₁ hrely hinv ans s₂ hsem
        obtain ⟨hstep, hrest⟩ := hp s₁ hrely hinv ans s₂ hsem
        exact ⟨hstep, ih ans hrest ((hs₀.trans hrely).trans hstep.2.1)⟩
  exact hfrom s (Grows.refl s)

theorem Guarded.safe_of_performs (h : Guarded sem Inv Requires) {p : Prog Op Ans α}
    (hp : p.Performs (Requires s)) : SafeGuarded sem Inv Requires t (fun a s' => Grows s s' ∧
      ∃ tr, p.Exec anyAnswer () tr a () ∧ tr ⊆ past s') p s := by
  refine Safe.mono (safe_of_trace (J := fun tr s' => Grows s s' ∧ tr ⊆ past s')
    ?_ ?_ hp [] ⟨Grows.refl s, List.nil_subset _⟩) ?_
  · rintro tr s₁ s₂ ⟨hgrows, hsub⟩ hrely
    exact ⟨hgrows.trans hrely, List.Subset.trans hsub (Grows.past_subset hrely)⟩
  · rintro o ho tr s₁ ans s₂ hinv ⟨hgrows, hsub⟩ hsem
    have hrequires := h.grow hgrows ho
    have hstep := grows_of_loggedSem hsem
    refine ⟨⟨h.step hinv hrequires hsem, hstep, hrequires⟩, hgrows.trans hstep, ?_⟩
    refine List.append_subset.mpr ⟨List.Subset.trans hsub hstep.past_subset, ?_⟩
    rw [past, hsem.2, List.map_append]
    exact List.subset_append_right _ _
  · rintro a s' ⟨tr, hexec, hgrows, hsub⟩
    exact ⟨hgrows, tr, hexec, hsub⟩

theorem Guarded.safe (h : Guarded sem Inv Requires) {p : Prog Op Ans α}
    (hp : p.Performs (Requires s)) : SafeGuarded sem Inv Requires t (fun _ _ => True) p s :=
  (h.safe_of_performs hp).mono fun _ _ _ => trivial

theorem Guarded.safe_of_ensures (h : Guarded sem Inv Requires) {p : Prog Op Ans α}
    {P : List (Event Ans) → α → Prop} (hp : p.Performs (Requires s))
    (hensures : p.Ensures anyAnswer () fun tr a _ => P tr a) :
    SafeGuarded sem Inv Requires t (fun a s' => Grows s s' ∧ ∃ tr, P tr a ∧ tr ⊆ past s') p s := by
  refine (h.safe_of_performs hp).mono ?_
  rintro a s' ⟨hgrows, tr, hexec, hsub⟩
  exact ⟨hgrows, tr, hensures tr a () hexec, hsub⟩

theorem Guarded.safe_perform_bind (h : Guarded sem Inv Requires) {f : Ans o → Prog Op Ans α}
    (ho : Requires s o)
    (hf : ∀ s₁ ans s₂, Grows s s₂ → Inv s₁ → LoggedSem sem t o s₁ ans s₂ →
      SafeGuarded sem Inv Requires t Q (f ans) s₂) :
    SafeGuarded sem Inv Requires t Q (Prog.perform o >>= f) s := by
  intro s₁ hgrows hinv ans s₂ hsem
  have hrequires := h.grow hgrows ho
  have hstep := grows_of_loggedSem hsem
  exact ⟨⟨h.step hinv hrequires hsem, hstep, hrequires⟩,
    hf s₁ ans s₂ (Grows.trans hgrows hstep) hinv hsem⟩

theorem Guarded.safe_performs_bind (h : Guarded sem Inv Requires) {p : Prog Op Ans β}
    {f : β → Prog Op Ans α} (hp : p.Performs (Requires s))
    (hf : ∀ b s', Grows s s' → SafeGuarded sem Inv Requires t Q (f b) s') :
    SafeGuarded sem Inv Requires t Q (p >>= f) s :=
  safe_bind (h.safe_of_performs hp) fun b s' hb => hf b s' hb.1

variable [DecidableEq Task] {Local Input : Task → Type} {sys : System Op Ans S Task Local Input}
  {c c' : Config Op Ans S Local} {ts : List (TaskTransition Ans S Local Input)}

/-- The rule for a system whose operations have the same effect in every task. -/
theorem run_of_safeGuarded (hsem : sys.sem = fun _ => sem)
    (haccept : ∀ t l s x s', Inv s → (logged sys).accept t l s x s' → Inv s' ∧
      SafeGuarded sem Inv Requires t (fun _ _ => True) (sys.handler t l x) s')
    (hinv : Inv (c.shared, []))
    (hstart : ∀ t, SafeGuarded sem Inv Requires t (fun _ _ => True) (c.task t) (c.shared, []))
    (hrun : Run (Step sys) c ts c') :
    Inv (c'.shared, events ts) ∧
      ∀ us tr vs, ts = us ++ tr :: vs → ∀ t o ans, tr.label = .act t ⟨o, ans⟩ →
        Requires (tr.pre.shared, events us) o := by
  have hlogged : (logged sys).sem = LoggedSem sem := by
    funext t
    rw [logged, hsem]
  have hrules : RelyGuarantee (logged sys) Inv (fun _ => Grows) (fun _ => Grows)
      (fun _ o s _ => Requires s o) (fun _ _ _ => True) := by
    refine ⟨fun _ => Grows.refl, fun _ _ _ _ => Grows.trans, fun _ _ _ _ _ h => h,
      fun _ _ _ _ _ _ => trivial, ?_⟩
    intro t l s x s' hs _ hx
    obtain ⟨hs', hsafe⟩ := haccept t l s x s' hs hx
    have hgrows : s.2 <+: s'.2 := hx.2 ▸ List.prefix_rfl
    rw [hlogged]
    exact ⟨hs', hgrows, hsafe⟩
  have hconfig : SafeConfig (logged sys) Inv (fun _ => Grows) (fun _ => Grows)
      (fun _ o s _ => Requires s o) (fun _ _ _ => True) (withLog c []) := by
    refine ⟨hinv, fun t => ?_⟩
    rw [hlogged]
    exact hstart t
  obtain ⟨⟨hlast, -⟩, hallowed⟩ := run_of_relyGuarantee hrules hrun hconfig
  exact ⟨hlast, hallowed⟩

end Guarded

section Abstraction

variable {Task : Type} {Local Input : Task → Type} {S' : Type}

def mapShared (f : S → S') (c : Config Op Ans S Local) : Config Op Ans S' Local where
  shared := f c.shared
  task := c.task

variable [DecidableEq Task] {f : S → S'} {sys : System Op Ans S Task Local Input}
  {sys' : System Op Ans S' Task Local Input} {c c' : Config Op Ans S Local}

theorem step_mapShared (hhandler : sys'.handler = sys.handler)
    (hsem : ∀ t o s ans s', sys.sem t o s ans s' → sys'.sem t o (f s) ans (f s'))
    (haccept : ∀ t l s x s', sys.accept t l s x s' → sys'.accept t l (f s) x (f s'))
    {l : Label Ans Input} (hstep : Step sys c l c') :
    Step sys' (mapShared f c) l (mapShared f c') := by
  cases hstep with
  | @start t l x s' hidle h =>
      have hnext : Step sys' (mapShared f c) (.start t x)
          ⟨f s', Function.update c.task t (sys'.handler t l x)⟩ :=
        .start (c := mapShared f c) hidle (haccept t l _ x s' h)
      rwa [hhandler] at hnext
  | @act t o k ans s' hop h =>
      exact .act (c := mapShared f c) hop (hsem t o _ ans s' h)

/-- What the tasks do where they see more of the state, they also do where they
see less. -/
theorem run_mapShared (hhandler : sys'.handler = sys.handler)
    (hsem : ∀ t o s ans s', sys.sem t o s ans s' → sys'.sem t o (f s) ans (f s'))
    (haccept : ∀ t l s x s', sys.accept t l s x s' → sys'.accept t l (f s) x (f s'))
    {ts : List (TaskTransition Ans S Local Input)} (hrun : Run (Step sys) c ts c') :
    ∃ us, Run (Step sys') (mapShared f c) us (mapShared f c') ∧ events us = events ts := by
  induction hrun with
  | nil c => exact ⟨[], .nil _, rfl⟩
  | @cons c c₁ c' l ts hstep _ ih =>
      obtain ⟨us, hrun, hevents⟩ := ih
      refine ⟨_, .cons (step_mapShared hhandler hsem haccept hstep) hrun, ?_⟩
      exact congrArg (eventOf l ++ ·) hevents

end Abstraction

section Projection

variable {Task : Type} [DecidableEq Task]

def eventsOf (t : Task) (log : List (Task × Event Ans)) : List (Event Ans) :=
  (log.filter fun e => e.1 = t).map Prod.snd

theorem eventsOf_append (t : Task) (log₁ log₂ : List (Task × Event Ans)) :
    eventsOf t (log₁ ++ log₂) = eventsOf t log₁ ++ eventsOf t log₂ := by
  rw [eventsOf, List.filter_append, List.map_append]
  rfl

end Projection

end Rkb.Library.Histories
