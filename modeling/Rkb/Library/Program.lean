import Mathlib.Data.List.Basic

/-!
Programs over a signature of atomic operations, with the rules of their pre- and
postconditions. A program is a tree: a node performs an operation and branches
on its answer. Nothing here fixes what the operations do; that is the parameter
`sem`, a relation between the state before, the answer and the state after.
-/

namespace Rkb.Library.Program

/-- A program that performs operations of the signature `Op`, the operation `o`
being answered by a value of `Ans o`, and then returns. -/
inductive Prog (Op : Type) (Ans : Op → Type) (α : Type) : Type
  | pure (a : α)
  | op (o : Op) (k : Ans o → Prog Op Ans α)

abbrev Event {Op : Type} (Ans : Op → Type) : Type := (o : Op) × Ans o

/-- What an operation may answer in a state, and the state it leaves. -/
abbrev Sem (Op : Type) (Ans : Op → Type) (S : Type) : Type :=
  (o : Op) → S → Ans o → S → Prop

variable {Op : Type} {Ans : Op → Type} {S α β : Type}

/-- The same operations where only the answers that satisfy `P` are given. -/
def Sem.restrict (sem : Sem Op Ans S) (P : (o : Op) → Ans o → Prop) : Sem Op Ans S :=
  fun o s ans s' => sem o s ans s' ∧ P o ans

namespace Prog

protected def bind : Prog Op Ans α → (α → Prog Op Ans β) → Prog Op Ans β
  | .pure a, f => f a
  | .op o k, f => .op o fun ans => (k ans).bind f

instance : Monad (Prog Op Ans) where
  pure := Prog.pure
  bind := Prog.bind

def perform (o : Op) : Prog Op Ans (Ans o) := .op o .pure

@[simp] theorem pure_eq (a : α) : (Pure.pure a : Prog Op Ans α) = .pure a := rfl

@[simp] theorem pure_bind (a : α) (f : α → Prog Op Ans β) :
    (Prog.pure a : Prog Op Ans α) >>= f = f a := rfl

@[simp] theorem op_bind (o : Op) (k : Ans o → Prog Op Ans α) (f : α → Prog Op Ans β) :
    (Prog.op o k) >>= f = .op o fun ans => k ans >>= f := rfl

theorem bind_assoc {γ : Type} (p : Prog Op Ans α) (f : α → Prog Op Ans β)
    (g : β → Prog Op Ans γ) : p >>= f >>= g = p >>= fun a => f a >>= g := by
  induction p with
  | pure a => rfl
  | op o k ih => simp only [op_bind, ih]

/-- `Exec sem p s tr a s'`: from `s`, the program can perform the events `tr`,
return `a` and leave the state `s'`. -/
def Exec (sem : Sem Op Ans S) : Prog Op Ans α → S → List (Event Ans) → α → S → Prop
  | .pure a, s, tr, b, s' => tr = [] ∧ b = a ∧ s' = s
  | .op o k, s, tr, b, s' => ∃ ans s₁ rest, tr = ⟨o, ans⟩ :: rest ∧
      sem o s ans s₁ ∧ (k ans).Exec sem s₁ rest b s'

variable {sem : Sem Op Ans S}

theorem exec_bind {p : Prog Op Ans α} {f : α → Prog Op Ans β} {s s' : S}
    {tr : List (Event Ans)} {b : β} :
    (p >>= f).Exec sem s tr b s' ↔ ∃ tr₁ a s₁ tr₂, tr = tr₁ ++ tr₂ ∧
      p.Exec sem s tr₁ a s₁ ∧ (f a).Exec sem s₁ tr₂ b s' := by
  induction p generalizing s tr with
  | pure a =>
      constructor
      · intro h
        exact ⟨[], a, s, tr, rfl, ⟨rfl, rfl, rfl⟩, h⟩
      · rintro ⟨tr₁, a', s₁, tr₂, rfl, ⟨rfl, rfl, rfl⟩, h⟩
        exact h
  | op o k ih =>
      constructor
      · rintro ⟨ans, s₁, rest, rfl, hsem, hrest⟩
        obtain ⟨tr₁, a, s₂, tr₂, rfl, hp, hf⟩ := (ih ans).mp hrest
        exact ⟨⟨o, ans⟩ :: tr₁, a, s₂, tr₂, rfl, ⟨ans, s₁, tr₁, rfl, hsem, hp⟩, hf⟩
      · rintro ⟨_, a, s₂, tr₂, rfl, ⟨ans, s₁, tr₁, rfl, hsem, hp⟩, hf⟩
        exact ⟨ans, s₁, tr₁ ++ tr₂, rfl, hsem, (ih ans).mpr ⟨tr₁, a, s₂, tr₂, rfl, hp, hf⟩⟩

/-- Every execution of `p` from `s` ends as `Q` says. -/
def Ensures (sem : Sem Op Ans S) (p : Prog Op Ans α) (s : S)
    (Q : List (Event Ans) → α → S → Prop) : Prop :=
  ∀ tr a s', p.Exec sem s tr a s' → Q tr a s'

theorem Ensures.mono {p : Prog Op Ans α} {s : S}
    {Q R : List (Event Ans) → α → S → Prop} (h : p.Ensures sem s Q)
    (himp : ∀ tr a s', Q tr a s' → R tr a s') : p.Ensures sem s R :=
  fun tr a s' hexec => himp tr a s' (h tr a s' hexec)

theorem ensures_pure {a : α} {s : S} {Q : List (Event Ans) → α → S → Prop} :
    (Prog.pure a : Prog Op Ans α).Ensures sem s Q ↔ Q [] a s := by
  constructor
  · intro h
    exact h [] a s ⟨rfl, rfl, rfl⟩
  · rintro h _ _ _ ⟨rfl, rfl, rfl⟩
    exact h

theorem ensures_op {o : Op} {k : Ans o → Prog Op Ans α} {s : S}
    {Q : List (Event Ans) → α → S → Prop} :
    (Prog.op o k).Ensures sem s Q ↔ ∀ ans s₁, sem o s ans s₁ →
      (k ans).Ensures sem s₁ fun tr a s' => Q (⟨o, ans⟩ :: tr) a s' := by
  constructor
  · intro h ans s₁ hsem tr a s' hexec
    exact h _ a s' ⟨ans, s₁, tr, rfl, hsem, hexec⟩
  · rintro h _ a s' ⟨ans, s₁, tr, rfl, hsem, hexec⟩
    exact h ans s₁ hsem tr a s' hexec

theorem ensures_bind {p : Prog Op Ans α} {f : α → Prog Op Ans β} {s : S}
    {Q : List (Event Ans) → β → S → Prop} :
    (p >>= f).Ensures sem s Q ↔ p.Ensures sem s fun tr₁ a s₁ =>
      (f a).Ensures sem s₁ fun tr₂ b s' => Q (tr₁ ++ tr₂) b s' := by
  constructor
  · intro h tr₁ a s₁ hp tr₂ b s' hf
    exact h _ b s' (exec_bind.mpr ⟨tr₁, a, s₁, tr₂, rfl, hp, hf⟩)
  · intro h tr b s' hexec
    obtain ⟨tr₁, a, s₁, tr₂, rfl, hp, hf⟩ := exec_bind.mp hexec
    exact h tr₁ a s₁ hp tr₂ b s' hf

theorem ensures_perform_bind {o : Op} {f : Ans o → Prog Op Ans α} {s : S}
    {Q : List (Event Ans) → α → S → Prop} :
    ((perform o : Prog Op Ans (Ans o)) >>= f).Ensures sem s Q ↔
      ∀ ans s₁, sem o s ans s₁ →
        (f ans).Ensures sem s₁ fun tr a s' => Q (⟨o, ans⟩ :: tr) a s' :=
  ensures_op

/-- `p` never gets stuck from `s`, and every execution ends as `Q` says. -/
def Total (sem : Sem Op Ans S) :
    Prog Op Ans α → S → (List (Event Ans) → α → S → Prop) → Prop
  | .pure a, s, Q => Q [] a s
  | .op o k, s, Q => (∃ ans s₁, sem o s ans s₁) ∧ ∀ ans s₁, sem o s ans s₁ →
      (k ans).Total sem s₁ fun tr a s' => Q (⟨o, ans⟩ :: tr) a s'

theorem Total.ensures {p : Prog Op Ans α} {s : S}
    {Q : List (Event Ans) → α → S → Prop} (h : p.Total sem s Q) :
    p.Ensures sem s Q := by
  induction p generalizing s Q with
  | pure a => exact ensures_pure.mpr h
  | op o k ih => exact ensures_op.mpr fun ans s₁ hsem => ih ans (h.2 ans s₁ hsem)

theorem Total.exists_exec {p : Prog Op Ans α} {s : S}
    {Q : List (Event Ans) → α → S → Prop} (h : p.Total sem s Q) :
    ∃ tr a s', p.Exec sem s tr a s' := by
  induction p generalizing s Q with
  | pure a => exact ⟨[], a, s, rfl, rfl, rfl⟩
  | op o k ih =>
      obtain ⟨ans, s₁, hsem⟩ := h.1
      obtain ⟨tr, a, s', hexec⟩ := ih ans (h.2 ans s₁ hsem)
      exact ⟨⟨o, ans⟩ :: tr, a, s', ans, s₁, tr, rfl, hsem, hexec⟩

theorem Total.mono {p : Prog Op Ans α} {s : S}
    {Q R : List (Event Ans) → α → S → Prop} (h : p.Total sem s Q)
    (himp : ∀ tr a s', Q tr a s' → R tr a s') : p.Total sem s R := by
  induction p generalizing s Q R with
  | pure a => exact himp [] a s h
  | op o k ih =>
      exact ⟨h.1, fun ans s₁ hsem => ih ans (h.2 ans s₁ hsem) fun tr a s' => himp _ a s'⟩

theorem total_bind {p : Prog Op Ans α} {f : α → Prog Op Ans β} {s : S}
    {Q : List (Event Ans) → β → S → Prop} :
    (p >>= f).Total sem s Q ↔ p.Total sem s fun tr₁ a s₁ =>
      (f a).Total sem s₁ fun tr₂ b s' => Q (tr₁ ++ tr₂) b s' := by
  induction p generalizing s Q with
  | pure a => rfl
  | op o k ih => simp only [op_bind, Total, ih, List.cons_append]

section Stops

/-- `Stops sem p s tr r s'`: a longest execution of `p` from `s`. The program returns
`r`, or it is left at an operation without an answer, where `r` is `none`. -/
def Stops (sem : Sem Op Ans S) :
    Prog Op Ans α → S → List (Event Ans) → Option α → S → Prop
  | .pure a, s, tr, r, s' => tr = [] ∧ r = some a ∧ s' = s
  | .op o k, s, tr, r, s' =>
      (tr = [] ∧ r = none ∧ s' = s ∧ ∀ ans s₁, ¬ sem o s ans s₁) ∨
        ∃ ans s₁ rest, tr = ⟨o, ans⟩ :: rest ∧ sem o s ans s₁ ∧ (k ans).Stops sem s₁ rest r s'

theorem Exec.stops {p : Prog Op Ans α} {s s' : S} {tr : List (Event Ans)} {a : α}
    (h : p.Exec sem s tr a s') : p.Stops sem s tr (some a) s' := by
  induction p generalizing s tr with
  | pure b =>
      obtain ⟨rfl, rfl, rfl⟩ := h
      exact ⟨rfl, rfl, rfl⟩
  | op o k ih =>
      obtain ⟨ans, s₁, rest, rfl, hsem, hrest⟩ := h
      exact .inr ⟨ans, s₁, rest, rfl, hsem, ih ans hrest⟩

theorem Stops.exec {p : Prog Op Ans α} {s s' : S} {tr : List (Event Ans)} {a : α}
    (h : p.Stops sem s tr (some a) s') : p.Exec sem s tr a s' := by
  induction p generalizing s tr with
  | pure b =>
      obtain ⟨rfl, hreturned, rfl⟩ := h
      exact ⟨rfl, Option.some.inj hreturned, rfl⟩
  | op o k ih =>
      rcases h with ⟨-, hnone, -⟩ | ⟨ans, s₁, rest, rfl, hsem, hrest⟩
      · cases hnone
      · exact ⟨ans, s₁, rest, rfl, hsem, ih ans hrest⟩

/-- Every longest execution of `p` from `s` ends as `Q` says. -/
def Halts (sem : Sem Op Ans S) (p : Prog Op Ans α) (s : S)
    (Q : List (Event Ans) → Option α → S → Prop) : Prop :=
  ∀ tr r s', p.Stops sem s tr r s' → Q tr r s'

variable {s : S}

theorem halts_pure {a : α} {Q : List (Event Ans) → Option α → S → Prop} (h : Q [] (some a) s) :
    (Prog.pure a : Prog Op Ans α).Halts sem s Q := by
  rintro _ _ _ ⟨rfl, rfl, rfl⟩
  exact h

theorem halts_op {o : Op} {k : Ans o → Prog Op Ans α}
    {Q : List (Event Ans) → Option α → S → Prop}
    (hleft : (∀ ans s₁, ¬ sem o s ans s₁) → Q [] none s)
    (hanswer : ∀ ans s₁, sem o s ans s₁ →
      (k ans).Halts sem s₁ fun tr r s' => Q (⟨o, ans⟩ :: tr) r s') :
    (Prog.op o k).Halts sem s Q := by
  rintro tr r s' (⟨rfl, rfl, rfl, hnone⟩ | ⟨ans, s₁, rest, rfl, hsem, hrest⟩)
  · exact hleft hnone
  · exact hanswer ans s₁ hsem rest r s' hrest

theorem halts_perform_bind {o : Op} {f : Ans o → Prog Op Ans α}
    {Q : List (Event Ans) → Option α → S → Prop}
    (hleft : (∀ ans s₁, ¬ sem o s ans s₁) → Q [] none s)
    (hanswer : ∀ ans s₁, sem o s ans s₁ →
      (f ans).Halts sem s₁ fun tr r s' => Q (⟨o, ans⟩ :: tr) r s') :
    ((perform o : Prog Op Ans (Ans o)) >>= f).Halts sem s Q :=
  halts_op hleft hanswer

theorem halts_bind {p : Prog Op Ans α} {f : α → Prog Op Ans β}
    {Q : List (Event Ans) → Option β → S → Prop}
    (h : p.Halts sem s fun tr₁ r₁ s₁ =>
      match r₁ with
      | none => Q tr₁ none s₁
      | some a => (f a).Halts sem s₁ fun tr₂ r s' => Q (tr₁ ++ tr₂) r s') :
    (p >>= f).Halts sem s Q := by
  induction p generalizing s Q with
  | pure a => exact h [] (some a) s ⟨rfl, rfl, rfl⟩
  | op o k ih =>
      refine halts_op ?_ ?_
      · intro hnone
        exact h [] none s (.inl ⟨rfl, rfl, rfl, hnone⟩)
      · intro ans s₁ hsem
        refine ih ans ?_
        intro tr r s' hstops
        exact h (⟨o, ans⟩ :: tr) r s' (.inr ⟨ans, s₁, tr, rfl, hsem, hstops⟩)

theorem Halts.mono {p : Prog Op Ans α} {Q R : List (Event Ans) → Option α → S → Prop}
    (h : p.Halts sem s Q) (himp : ∀ tr r s', Q tr r s' → R tr r s') : p.Halts sem s R :=
  fun tr r s' hstops => himp tr r s' (h tr r s' hstops)

theorem Halts.and {p : Prog Op Ans α} {Q R : List (Event Ans) → Option α → S → Prop}
    (hQ : p.Halts sem s Q) (hR : p.Halts sem s R) :
    p.Halts sem s fun tr r s' => Q tr r s' ∧ R tr r s' :=
  fun tr r s' hstops => ⟨hQ tr r s' hstops, hR tr r s' hstops⟩

theorem Ensures.halts {p : Prog Op Ans α} {Q : List (Event Ans) → α → S → Prop}
    (h : p.Ensures sem s Q) : p.Halts sem s fun tr r s' => ∀ a, r = some a → Q tr a s' := by
  rintro tr _ s' hstops a rfl
  exact h tr a s' hstops.exec

-- from here on an execution is taken apart by the rules only
attribute [irreducible] Stops

end Stops

/-- Every operation `p` may perform, on any answers, satisfies `P`. -/
def Performs (P : Op → Prop) : Prog Op Ans α → Prop
  | .pure _ => True
  | .op o k => P o ∧ ∀ ans, (k ans).Performs P

@[simp] theorem performs_pure {P : Op → Prop} (a : α) :
    (Prog.pure a : Prog Op Ans α).Performs P := trivial

theorem performs_perform {P : Op → Prop} {o : Op} (h : P o) :
    (perform o : Prog Op Ans (Ans o)).Performs P := ⟨h, fun _ => trivial⟩

theorem Performs.bind {P : Op → Prop} {p : Prog Op Ans α} {f : α → Prog Op Ans β}
    (hp : p.Performs P) (hf : ∀ a, (f a).Performs P) : (p >>= f).Performs P := by
  induction p with
  | pure a => exact hf a
  | op o k ih => exact ⟨hp.1, fun ans => ih ans (hp.2 ans)⟩

theorem Performs.mono {P P' : Op → Prop} {p : Prog Op Ans α} (hp : p.Performs P)
    (himp : ∀ o, P o → P' o) : p.Performs P' := by
  induction p with
  | pure a => trivial
  | op o k ih => exact ⟨himp o hp.1, fun ans => ih ans (hp.2 ans)⟩

theorem Performs.of_mem {P : Op → Prop} {p : Prog Op Ans α} (hp : p.Performs P)
    {s s' : S} {tr : List (Event Ans)} {a : α} (hexec : p.Exec sem s tr a s')
    {e : Event Ans} (he : e ∈ tr) : P e.1 := by
  induction p generalizing s tr with
  | pure b =>
      obtain ⟨rfl, -, -⟩ := hexec
      simp at he
  | op o k ih =>
      obtain ⟨ans, s₁, rest, rfl, -, hrest⟩ := hexec
      rcases List.mem_cons.mp he with rfl | he
      · exact hp.1
      · exact ih ans (hp.2 ans) hrest he

theorem Performs.ensures {P : Op → Prop} {p : Prog Op Ans α} (hp : p.Performs P) (s : S) :
    p.Ensures sem s fun tr _ _ => ∀ e ∈ tr, P e.1 :=
  fun _ _ _ hexec _ he => hp.of_mem hexec he

theorem Performs.keeps {P : Op → Prop} {J : S → Prop} {p : Prog Op Ans α} (hp : p.Performs P)
    (hop : ∀ o, P o → ∀ s ans s', J s → sem o s ans s' → J s') {s : S} (hs : J s) :
    p.Ensures sem s fun _ _ s' => J s' := by
  induction p generalizing s with
  | pure a => exact ensures_pure.mpr hs
  | op o k ih =>
      refine ensures_op.mpr ?_
      intro ans s₁ hsem
      exact ih ans (hp.2 ans) (hop o hp.1 s ans s₁ hs hsem)

theorem Performs.halts {P : Op → Prop} {J : S → Prop} {p : Prog Op Ans α} (hp : p.Performs P)
    (hop : ∀ o, P o → ∀ s ans s', J s → sem o s ans s' → J s') {s : S} (hs : J s) :
    p.Halts sem s fun tr _ s' => J s' ∧ ∀ e ∈ tr, P e.1 := by
  induction p generalizing s with
  | pure a => exact halts_pure ⟨hs, by simp⟩
  | op o k ih =>
      apply halts_op
      · exact fun _ => ⟨hs, by simp⟩
      · intro ans s₁ hsem
        refine (ih ans (hp.2 ans) (hop o hp.1 s ans s₁ hs hsem)).mono ?_
        rintro tr _ s' ⟨hs', hall⟩
        exact ⟨hs', List.forall_mem_cons.mpr ⟨hp.1, hall⟩⟩

section Counting

variable {counted : Op → Bool}

/-- On any answers `p` performs at most `n` of the operations that are counted. -/
def AtMost (counted : Op → Bool) : Prog Op Ans α → Nat → Prop
  | .pure _, _ => True
  | .op o k, n => ∃ m, (counted o).toNat + m ≤ n ∧ ∀ ans, (k ans).AtMost counted m

theorem AtMost.mono {p : Prog Op Ans α} {m n : Nat} (h : p.AtMost counted m) (hle : m ≤ n) :
    p.AtMost counted n := by
  cases p with
  | pure a => trivial
  | op o k =>
      obtain ⟨more, hmore, hrest⟩ := h
      exact ⟨more, Nat.le_trans hmore hle, hrest⟩

theorem AtMost.bind {p : Prog Op Ans α} {f : α → Prog Op Ans β} {m n : Nat}
    (hp : p.AtMost counted m) (hf : ∀ a, (f a).AtMost counted n) :
    (p >>= f).AtMost counted (m + n) := by
  induction p generalizing m with
  | pure a => exact (hf a).mono (Nat.le_add_left n m)
  | op o k ih =>
      obtain ⟨more, hmore, hrest⟩ := hp
      exact ⟨more + n, by omega, fun ans => ih ans (hrest ans)⟩

theorem atMost_perform (o : Op) : (perform o : Prog Op Ans (Ans o)).AtMost counted 1 :=
  ⟨0, Bool.toNat_le (counted o), fun _ => trivial⟩

theorem Performs.atMost {p : Prog Op Ans α} (hp : p.Performs fun o => counted o = false) :
    p.AtMost counted 0 := by
  induction p with
  | pure a => trivial
  | op o k ih =>
      refine ⟨0, ?_, fun ans => ih ans (hp.2 ans)⟩
      rw [hp.1]
      exact Nat.le_refl 0

theorem performs_uncounted {o : Op} (h : counted o = false) :
    (perform o : Prog Op Ans (Ans o)).Performs fun o => counted o = false :=
  performs_perform (P := fun o => counted o = false) h

theorem AtMost.bind_performs {p : Prog Op Ans α} {f : α → Prog Op Ans β} {n : Nat}
    (hp : p.AtMost counted n) (hf : ∀ a, (f a).Performs fun o => counted o = false) :
    (p >>= f).AtMost counted n :=
  hp.bind fun a => (hf a).atMost

theorem Performs.bind_atMost {p : Prog Op Ans α} {f : α → Prog Op Ans β} {n : Nat}
    (hp : p.Performs fun o => counted o = false) (hf : ∀ a, (f a).AtMost counted n) :
    (p >>= f).AtMost counted n := by
  have hbind := hp.atMost.bind hf
  rw [Nat.zero_add] at hbind
  exact hbind

theorem AtMost.halts {p : Prog Op Ans α} {n : Nat} (hp : p.AtMost counted n) (s : S) :
    p.Halts sem s fun tr _ _ => tr.countP (fun e => counted e.1) ≤ n := by
  induction p generalizing n s with
  | pure a => exact halts_pure (Nat.zero_le n)
  | op o k ih =>
      obtain ⟨more, hmore, hrest⟩ := hp
      apply halts_op
      · exact fun _ => Nat.zero_le n
      · intro ans s₁ _
        refine (ih ans (hrest ans) s₁).mono ?_
        intro tr _ _ hcount
        rw [List.countP_cons]
        have hone : (if counted o = true then 1 else 0) = (counted o).toNat := by
          cases counted o <;> rfl
        show _ + (if counted o = true then 1 else 0) ≤ n
        omega

end Counting

theorem exec_of_restrict {P : (o : Op) → Ans o → Prop} {p : Prog Op Ans α} {s s' : S}
    {tr : List (Event Ans)} {a : α} (h : p.Exec (sem.restrict P) s tr a s') :
    p.Exec sem s tr a s' := by
  induction p generalizing s tr with
  | pure b => exact h
  | op o k ih =>
      obtain ⟨ans, s₁, rest, rfl, ⟨hsem, -⟩, hrest⟩ := h
      exact ⟨ans, s₁, rest, rfl, hsem, ih ans hrest⟩

section Fallible

variable {ε ε' : Type} {Q : α → S → Prop} {R : β → S → Prop}

/-- Every execution of `p` that succeeds ends as `Q` says. -/
def Succeeds (sem : Sem Op Ans S) (p : Prog Op Ans (Except ε α)) (s : S)
    (Q : α → S → Prop) : Prop :=
  p.Ensures sem s fun _ r s' => ∀ a, r = .ok a → Q a s'

theorem succeeds_ok {a : α} {s : S} (h : Q a s) :
    (Prog.pure (.ok a) : Prog Op Ans (Except ε α)).Succeeds sem s Q := by
  refine ensures_pure.mpr ?_
  rintro _ ⟨rfl⟩
  exact h

theorem succeeds_error {e : ε} {s : S} :
    (Prog.pure (.error e) : Prog Op Ans (Except ε α)).Succeeds sem s Q := by
  refine ensures_pure.mpr ?_
  rintro _ ⟨⟩

/-- The rest of a program after a part that may fail; it returns the part's error. -/
theorem Succeeds.bind {p : Prog Op Ans (Except ε α)}
    {f : Except ε α → Prog Op Ans (Except ε' β)} {s : S} (hp : p.Succeeds sem s Q)
    (herror : ∀ e, ∃ e', f (.error e) = Prog.pure (.error e'))
    (hok : ∀ a s₁, Q a s₁ → (f (.ok a)).Succeeds sem s₁ R) : (p >>= f).Succeeds sem s R := by
  refine ensures_bind.mpr (Ensures.mono hp ?_)
  intro tr r s₁ hr
  cases r with
  | error e =>
      obtain ⟨e', he⟩ := herror e
      rw [he]
      exact succeeds_error
  | ok a => exact hok a s₁ (hr a rfl)

theorem Succeeds.mono {Q' : α → S → Prop} {p : Prog Op Ans (Except ε α)} {s : S}
    (hp : p.Succeeds sem s Q) (himp : ∀ a s', Q a s' → Q' a s') : p.Succeeds sem s Q' :=
  Ensures.mono hp fun _ _ s' hr a ha => himp a s' (hr a ha)

theorem Succeeds.restrict {P : (o : Op) → Ans o → Prop} {p : Prog Op Ans (Except ε α)} {s : S}
    (hp : p.Succeeds sem s Q) : p.Succeeds (sem.restrict P) s Q :=
  fun tr r s' hexec => hp tr r s' (exec_of_restrict hexec)

theorem succeeds_perform_bind {o : Op} {f : Ans o → Prog Op Ans (Except ε α)} {s : S}
    (hf : ∀ ans s₁, sem o s ans s₁ → (f ans).Succeeds sem s₁ Q) :
    ((perform o : Prog Op Ans (Ans o)) >>= f).Succeeds sem s Q :=
  ensures_perform_bind.mpr hf

end Fallible

/-- Every value that `p` may return, on any answers, satisfies `R`. -/
def Returns (R : α → Prop) : Prog Op Ans α → Prop
  | .pure a => R a
  | .op _ k => ∀ ans, (k ans).Returns R

theorem Returns.bind {R : β → Prop} {R' : α → Prop} {p : Prog Op Ans α}
    {f : α → Prog Op Ans β} (hp : p.Returns R') (hf : ∀ a, R' a → (f a).Returns R) :
    (p >>= f).Returns R := by
  induction p with
  | pure a => exact hf a hp
  | op o k ih => exact fun ans => ih ans (hp ans)

theorem Returns.of_exec {R : α → Prop} {p : Prog Op Ans α} (hp : p.Returns R) {s s' : S}
    {tr : List (Event Ans)} {a : α} (hexec : p.Exec sem s tr a s') : R a := by
  induction p generalizing s tr with
  | pure b =>
      obtain ⟨-, rfl, -⟩ := hexec
      exact hp
  | op o k ih =>
      obtain ⟨ans, s₁, rest, -, -, hrest⟩ := hexec
      exact ih ans (hp ans) hrest

theorem Performs.bind_of_returns {P : Op → Prop} {R : α → Prop} {p : Prog Op Ans α}
    {f : α → Prog Op Ans β} (hp : p.Performs P) (hreturns : p.Returns R)
    (hf : ∀ a, R a → (f a).Performs P) : (p >>= f).Performs P := by
  induction p with
  | pure a => exact hf a hreturns
  | op o k ih => exact ⟨hp.1, fun ans => ih ans (hp.2 ans) (hreturns ans)⟩

theorem bind_congr_of_returns {R : α → Prop} {p : Prog Op Ans α} {f g : α → Prog Op Ans β}
    (hp : p.Returns R) (hfg : ∀ a, R a → f a = g a) : p >>= f = p >>= g := by
  induction p with
  | pure a => exact hfg a hp
  | op o k ih =>
      rw [op_bind, op_bind]
      congr 1
      funext ans
      exact ih ans (hp ans)

theorem returns_true (p : Prog Op Ans α) : p.Returns fun _ => True := by
  induction p with
  | pure a => trivial
  | op o k ih => exact ih

theorem Returns.mono {R R' : α → Prop} {p : Prog Op Ans α} (hp : p.Returns R)
    (himp : ∀ a, R a → R' a) : p.Returns R' := by
  induction p with
  | pure a => exact himp a hp
  | op o k ih => exact fun ans => ih ans (hp ans)

theorem Returns.of_first {C : Prop} {p : Prog Op Ans α} (hp : p.Returns fun _ => C)
    (f : α → Prog Op Ans β) : (p >>= f).Returns fun _ => C :=
  hp.bind fun a hC => (returns_true (f a)).mono fun _ _ => hC

/-- Each operation is performed by a program over another signature. -/
def handle {Op' : Type} {Ans' : Op' → Type} (h : (o : Op) → Prog Op' Ans' (Ans o)) :
    Prog Op Ans α → Prog Op' Ans' α
  | .pure a => .pure a
  | .op o k => h o >>= fun ans => (k ans).handle h

/-- A deterministic environment: the answer to each operation and the state
after it, or `none` where the operation blocks. -/
abbrev Env (Op : Type) (Ans : Op → Type) (S : Type) : Type :=
  (o : Op) → S → Option (Ans o × S)

def run (env : Env Op Ans S) : Prog Op Ans α → S → Option (List (Event Ans) × α × S)
  | .pure a, s => some ([], a, s)
  | .op o k, s =>
      match env o s with
      | none => none
      | some (ans, s₁) =>
          ((k ans).run env s₁).map fun r => (⟨o, ans⟩ :: r.1, r.2.1, r.2.2)

theorem run_bind (env : Env Op Ans S) (p : Prog Op Ans α) (f : α → Prog Op Ans β) (s : S) :
    (p >>= f).run env s = (p.run env s).bind fun r =>
      ((f r.2.1).run env r.2.2).map fun q => (r.1 ++ q.1, q.2) := by
  induction p generalizing s with
  | pure a =>
      change (f a).run env s = ((f a).run env s).map _
      cases (f a).run env s <;> rfl
  | op o k ih =>
      rw [op_bind, run, run]
      cases env o s with
      | none => rfl
      | some r =>
          simp only [ih, Option.map_bind, Option.bind_map, Function.comp_def, Option.map_map,
            List.cons_append]

theorem exec_of_run {env : Env Op Ans S}
    (hsound : ∀ o s ans s', env o s = some (ans, s') → sem o s ans s')
    {p : Prog Op Ans α} {s s' : S} {tr : List (Event Ans)} {a : α}
    (h : p.run env s = some (tr, a, s')) : p.Exec sem s tr a s' := by
  induction p generalizing s tr with
  | pure b =>
      simp only [run, Option.some.injEq, Prod.mk.injEq] at h
      exact ⟨h.1.symm, h.2.1.symm, h.2.2.symm⟩
  | op o k ih =>
      simp only [run] at h
      split at h
      · simp at h
      · rename_i ans s₁ henv
        obtain ⟨⟨rest, b, t⟩, hrun, heq⟩ := Option.map_eq_some_iff.mp h
        simp only [Prod.mk.injEq] at heq
        obtain ⟨rfl, rfl, rfl⟩ := heq
        exact ⟨ans, s₁, rest, rfl, hsound o s ans s₁ henv, ih ans hrun⟩

end Prog

/-- The semantics in which the environment may answer anything. -/
def anyAnswer : Sem Op Ans Unit := fun _ _ _ _ => True

theorem Prog.Performs.halts_anyAnswer {P : Op → Prop} {p : Prog Op Ans α} (hp : p.Performs P) :
    p.Halts anyAnswer () fun tr _ _ => ∀ e ∈ tr, P e.1 :=
  (Performs.halts (J := fun _ => True) hp (fun _ _ _ _ _ _ _ => trivial) trivial).mono
    fun _ _ _ h => h.2

theorem Prog.exists_exec_of_check {sem : Sem Op Ans S} {env : Prog.Env Op Ans S}
    (hsound : ∀ o s ans s', env o s = some (ans, s') → sem o s ans s') (p : Prog Op Ans α) (s : S)
    (check : List (Event Ans) → α → S → Bool)
    (h : (p.run env s).any (fun r => check r.1 r.2.1 r.2.2) = true) :
    ∃ tr a s', p.Exec sem s tr a s' ∧ check tr a s' = true := by
  cases hrun : p.run env s with
  | none =>
      rw [hrun] at h
      cases h
  | some r =>
      rw [hrun] at h
      exact ⟨r.1, r.2.1, r.2.2, Prog.exec_of_run hsound hrun, h⟩

theorem Prog.Halts.exists_exec {sem : Sem Op Ans S} {env : Prog.Env Op Ans S}
    (hsound : ∀ o s ans s', env o s = some (ans, s') → sem o s ans s') {p : Prog Op Ans α} {s : S}
    {Q : List (Event Ans) → Option α → S → Prop} {R : List (Event Ans) → α → S → Prop}
    (hp : p.Halts sem s Q) (check : List (Event Ans) → α → S → Bool)
    (h : (p.run env s).any (fun r => check r.1 r.2.1 r.2.2) = true)
    (himp : ∀ tr a s', Q tr (some a) s' → check tr a s' = true → R tr a s') :
    ∃ tr a s', p.Exec sem s tr a s' ∧ R tr a s' := by
  obtain ⟨tr, a, s', hexec, hcheck⟩ := Prog.exists_exec_of_check hsound p s check h
  exact ⟨tr, a, s', hexec, himp tr a s' (hp tr (some a) s' hexec.stops) hcheck⟩

theorem Prog.exists_run_of_check {ε : Type} (env : Prog.Env Op Ans S)
    (p : Prog Op Ans (Except ε α)) (s : S) (check : S → Bool)
    (h : (p.run env s).any (fun r => r.2.1.isOk && check r.2.2) = true) :
    ∃ tr a s', p.run env s = some (tr, .ok a, s') ∧ check s' = true := by
  cases hrun : p.run env s with
  | none =>
      rw [hrun] at h
      cases h
  | some r =>
      obtain ⟨tr, r, s'⟩ := r
      rw [hrun, Option.any_some, Bool.and_eq_true] at h
      cases r with
      | error e => exact absurd h.1 Bool.false_ne_true
      | ok a => exact ⟨tr, a, s', rfl, h.2⟩

theorem Prog.exists_success_of_check {ε : Type} {sem : Sem Op Ans S} {env : Prog.Env Op Ans S}
    (hsound : ∀ o s ans s', env o s = some (ans, s') → sem o s ans s')
    (p : Prog Op Ans (Except ε α)) (s : S) (check : S → Bool)
    (h : (p.run env s).any (fun r => r.2.1.isOk && check r.2.2) = true) :
    ∃ tr a s', p.Exec sem s tr (.ok a) s' ∧ check s' = true := by
  obtain ⟨tr, a, s', hrun, hcheck⟩ := Prog.exists_run_of_check env p s check h
  exact ⟨tr, a, s', Prog.exec_of_run hsound hrun, hcheck⟩

theorem Prog.exists_exec_of_run (env : Prog.Env Op Ans Unit) (p : Prog Op Ans α)
    (check : List (Event Ans) → α → Bool)
    (h : (p.run env ()).any (fun r => check r.1 r.2.1) = true) :
    ∃ tr a, p.Exec anyAnswer () tr a () ∧ check tr a = true := by
  obtain ⟨tr, a, ⟨⟩, hexec, hcheck⟩ := Prog.exists_exec_of_check
    (fun _ _ _ _ _ => (trivial : anyAnswer _ _ _ _)) p () (fun tr a _ => check tr a) h
  exact ⟨tr, a, hexec, hcheck⟩

/-- In an environment that answers everything, a program whose operations all
have an answer never gets stuck. -/
theorem Prog.Ensures.total {p : Prog Op Ans α} {Q : List (Event Ans) → α → Unit → Prop}
    (h : p.Ensures anyAnswer () Q) (hp : p.Performs fun o => Nonempty (Ans o)) :
    p.Total anyAnswer () Q := by
  induction p generalizing Q with
  | pure a => exact ensures_pure.mp h
  | op o k ih =>
      obtain ⟨ans⟩ := hp.1
      refine ⟨⟨ans, (), trivial⟩, ?_⟩
      intro ans s₁ hsem
      exact ih ans (ensures_op.mp h ans s₁ hsem) (hp.2 ans)

theorem Prog.Performs.exists_exec {p : Prog Op Ans α}
    (hp : p.Performs fun o => Nonempty (Ans o)) : ∃ tr a, p.Exec anyAnswer () tr a () := by
  have hensures : p.Ensures anyAnswer () fun _ _ _ => True := fun _ _ _ _ => trivial
  obtain ⟨tr, a, ⟨⟩, hexec⟩ := (hensures.total hp).exists_exec
  exact ⟨tr, a, hexec⟩

end Rkb.Library.Program
