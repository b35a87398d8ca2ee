import Rkb.Library.Tasks
import Rkb.Consensus.ActorRuns
import Rkb.Node.Shared
import Rkb.Sequencer.Finalization

/-!
The finalization loop and the event loop on the shared forkchoice. Each owns a
part of the cell, but writes the whole of it back.
-/

namespace Rkb.Sequencer.ForkchoiceRace

open Rkb.Library.Bytes
open Rkb.Library.Program
open Rkb.Library.Runs
open Rkb.Library.Tasks
open Rkb.Types.Blocks
open Rkb.Execution.Errors
open Rkb.Execution.Forkchoice
open Rkb.Execution.Client
open Rkb.Celestia.Finality
open Rkb.Consensus.ActorRuns
open Rkb.Sequencer.Finalization
open Rkb.Node.Effects
open Rkb.Node.Shared

inductive LoopTask
  | finalization
  | events
deriving DecidableEq

def LoopInput : LoopTask → Type
  | .finalization => Block
  | .events => FinalityConfirmation

/-- What an observer writes down of a loop: the hash that its current operation
applies, the forkchoice it read, and the last hash whose update reth accepted. -/
structure LoopBook where
  hash : B256
  read : Option ForkchoiceState
  succeeded : B256

structure Observed where
  node : NodeState
  book : LoopTask → LoopBook

def LoopBook.observe (self : LoopBook) : (o : NodeOp) → Ans o → LoopBook
  | .readForkchoice, ans => { self with read := some ans }
  | .forkchoiceUpdated _ _, ans =>
      if accepted ans then { self with succeeded := self.hash } else self
  | _, _ => self

def LoopBook.take (self : LoopBook) (hash : B256) : LoopBook :=
  { self with hash := hash, read := none }

def inputHash : (t : LoopTask) → LoopInput t → B256
  | .finalization, block => Block.blockHash block
  | .events, confirmation => FinalityConfirmation.blockHash confirmation

def loopHandler : (t : LoopTask) → Unit → LoopInput t → NodeProg Unit
  | .finalization, _, (block : Block) => do
      let _ ← executeAndUpdateForkchoice block block.blockHash
      return ()
  | .events, _, confirmation => updateFinalizedForkchoice confirmation

/-- The two loops, each taking up blocks or confirmations one after another. -/
def loops : System NodeOp Ans Observed LoopTask (fun _ => Unit) LoopInput where
  sem t o s ans s' := nodeSem o s.node ans s'.node ∧
    s'.book = Function.update s.book t ((s.book t).observe o ans)
  accept t _ s x s' := s'.node = s.node ∧
    s'.book = Function.update s.book t ((s.book t).take (inputHash t x))
  handler := loopHandler

abbrev LoopConfig : Type := Config NodeOp Ans Observed (fun _ : LoopTask => Unit)

abbrev LoopTransition : Type := TaskTransition Ans Observed (fun _ : LoopTask => Unit) LoopInput

def initial (genesisHash : B256) : LoopConfig where
  shared :=
    { node := NodeState.initialized genesisHash none
      book := fun _ => { hash := genesisHash, read := none, succeeded := genesisHash } }
  task _ := .pure ()

def idle (c : LoopConfig) (t : LoopTask) : Bool :=
  match c.task t with
  | .pure _ => true
  | .op _ _ => false

/-- The part of the forkchoice that a loop owns is on the last hash whose update
succeeded. -/
def settled (t : LoopTask) (s : Observed) : Prop :=
  match t with
  | .finalization => s.node.forkchoice.head = (s.book t).succeeded ∧
      s.node.forkchoice.safe = (s.book t).succeeded
  | .events => s.node.forkchoice.finalized = (s.book t).succeeded

/-- No update is lost: head and safe are on the last soft update that succeeded,
finalized is on the last firm update that succeeded. -/
def NoLostUpdate (c : LoopConfig) : Prop :=
  c.shared.node.forkchoice =
    { head := (c.shared.book .finalization).succeeded
      safe := (c.shared.book .finalization).succeeded
      finalized := (c.shared.book .events).succeeded }

def applied : LoopTask → ForkchoiceState → B256 → ForkchoiceState
  | .finalization, f, hash => f.withSoft hash
  | .events, f, hash => f.withFirm hash

/-- The part of the cell that the loop does not own is still as the loop read it. -/
def unchangedSinceRead (t : LoopTask) (s : Observed) : Bool :=
  match t, (s.book t).read with
  | _, none => true
  | .finalization, some read => read.finalized == s.node.forkchoice.finalized
  | .events, some read =>
      read.head == s.node.forkchoice.head && read.safe == s.node.forkchoice.safe

def isWrite : NodeOp → Bool
  | .writeForkchoice _ => true
  | _ => false

/-- The condition on a step: a loop writes only what it has not missed. -/
def undisturbed (tr : LoopTransition) : Bool :=
  match tr.label with
  | .start _ _ => true
  | .act t e => !isWrite e.1 || unchangedSinceRead t tr.pre.shared

section Proof

/-- What a loop relies on: its book and its part of the cell are left alone. -/
def ownPart (t : LoopTask) (s s' : Observed) : Prop :=
  s'.book t = s.book t ∧
    match t with
    | .finalization => s'.node.forkchoice.head = s.node.forkchoice.head ∧
        s'.node.forkchoice.safe = s.node.forkchoice.safe
    | .events => s'.node.forkchoice.finalized = s.node.forkchoice.finalized

def otherParts (t : LoopTask) (s s' : Observed) : Prop := ∀ u, u ≠ t → ownPart u s s'

theorem ownPart_refl (t : LoopTask) (s : Observed) : ownPart t s s := by
  cases t <;> simp [ownPart]

theorem ownPart_trans {t : LoopTask} {s₁ s₂ s₃ : Observed} (h₁ : ownPart t s₁ s₂)
    (h₂ : ownPart t s₂ s₃) : ownPart t s₁ s₃ := by
  cases t <;> simp_all [ownPart]

theorem settled_of_ownPart {t : LoopTask} {s s' : Observed} (hs : settled t s)
    (h : ownPart t s s') : settled t s' := by
  cases t <;> simp_all [settled, ownPart]

def Undisturbed (t : LoopTask) (o : NodeOp) (s : Observed) (_ : Ans o) : Prop :=
  (!isWrite o || unchangedSinceRead t s) = true

abbrev undisturbedLoops : System NodeOp Ans Observed LoopTask (fun _ => Unit) LoopInput :=
  loops.restrict Undisturbed

def writesApplied (t : LoopTask) (o : NodeOp) (s : Observed) (_ : Ans o) : Prop :=
  ∀ f, o = .writeForkchoice f →
    ∃ read, (s.book t).read = some read ∧ f = applied t read (s.book t).hash

abbrev SafeLoop {α : Type} (t : LoopTask) (Q : α → Observed → Prop) (p : NodeProg α)
    (s : Observed) : Prop :=
  Safe (undisturbedLoops.sem t) (fun _ => True) (ownPart t) (otherParts t)
    (writesApplied t) Q p s

/-- The operations that the observer does not write down and that leave the cell. -/
def Quiet : NodeOp → Prop
  | .readForkchoice | .writeForkchoice _ | .forkchoiceUpdated _ _ => False
  | _ => True

variable {t : LoopTask} {s s' : Observed} {o : NodeOp} {ans : Ans o} {hash : B256}
  {read : ForkchoiceState}

theorem step_of_sem (ho : ∀ f, o ≠ .writeForkchoice f) (h : loops.sem t o s ans s') :
    True ∧ otherParts t s s' ∧ writesApplied t o s ans := by
  refine ⟨trivial, ?_, fun f hf => absurd hf (ho f)⟩
  intro u hu
  have hcell := forkchoice_of_nodeSem ho h.1
  have hbook : s'.book u = s.book u := by rw [h.2, Function.update_of_ne hu]
  cases u <;> exact ⟨hbook, by simp [hcell]⟩

theorem ownPart_of_quiet (ho : Quiet o) (h : loops.sem t o s ans s') : ownPart t s s' := by
  have hwrite : ∀ f, o ≠ .writeForkchoice f := by
    rintro f rfl
    exact ho
  have hcell := forkchoice_of_nodeSem hwrite h.1
  have hbook : s'.book t = s.book t := by
    rw [h.2, Function.update_self]
    cases o <;> first | rfl | exact ho.elim
  cases t <;> exact ⟨hbook, by simp [hcell]⟩

/-- The loop works on `hash`; its part of the cell is still the settled one. -/
def working (t : LoopTask) (hash : B256) (s : Observed) : Prop :=
  settled t s ∧ (s.book t).hash = hash

/-- reth has accepted the update to `hash` on top of the forkchoice `read`. -/
def updated (t : LoopTask) (hash : B256) (read : ForkchoiceState) (s : Observed) : Prop :=
  (s.book t).succeeded = hash ∧ (s.book t).hash = hash ∧ (s.book t).read = some read

theorem working_of_ownPart (hs : working t hash s) (h : ownPart t s s') : working t hash s' :=
  ⟨settled_of_ownPart hs.1 h, by rw [h.1, hs.2]⟩

theorem updated_of_ownPart (hs : updated t hash read s) (h : ownPart t s s') :
    updated t hash read s' := by
  rw [updated, h.1]
  exact hs

theorem safe_of_quiet {α : Type} {p : NodeProg α} (hp : p.Performs Quiet)
    (hs : working t hash s) : SafeLoop t (fun _ => working t hash) p s := by
  refine safe_of_performs (J := working t hash) (fun _ _ => working_of_ownPart) ?_ hp hs
  rintro o ho s₁ ans s₂ - hworking ⟨hsem, -⟩
  have hwrite : ∀ f, o ≠ .writeForkchoice f := by
    rintro f rfl
    exact ho
  exact ⟨step_of_sem hwrite hsem,
    working_of_ownPart hworking (ownPart_of_quiet ho hsem)⟩

theorem safe_readForkchoice (hs : working t hash s) :
    SafeLoop t (fun read s' => working t hash s' ∧ (s'.book t).read = some read)
      (op .readForkchoice) s := by
  rintro s₁ hrely - ans s₂ ⟨hsem, -⟩
  have hworking := working_of_ownPart hs hrely
  refine ⟨step_of_sem (by rintro f ⟨⟩) hsem, ?_⟩
  have hcell := forkchoice_of_nodeSem (by rintro f ⟨⟩) hsem.1
  have hbook : s₂.book t = { s₁.book t with read := some ans } := by
    rw [hsem.2, Function.update_self]
    rfl
  refine ⟨⟨?_, ?_⟩, ?_⟩
  · have hsettled := hworking.1
    cases t <;> simp_all [settled]
  · rw [hbook]
    exact hworking.2
  · rw [hbook]

/-- Where an update of the forkchoice on reth leaves the loop. -/
def requested (t : LoopTask) (hash : B256) (read : ForkchoiceState) :
    Except ExecutionError Unit → Observed → Prop
  | .ok _, s => updated t hash read s
  | .error _, s => settled t s

/-- The request to reth is the point at which an update succeeds or fails. -/
theorem safe_updateForkchoice (f : ForkchoiceState)
    (hs : working t hash s ∧ (s.book t).read = some read) :
    SafeLoop t (requested t hash read) (updateForkchoice f) s := by
  rintro s₁ hrely - response s₂ ⟨hsem, -⟩
  refine ⟨step_of_sem (by rintro f ⟨⟩) hsem, ?_⟩
  have hworking := working_of_ownPart hs.1 hrely
  have hread : (s₁.book t).read = some read := by rw [hrely.1, hs.2]
  have hcell := forkchoice_of_nodeSem (by rintro f ⟨⟩) hsem.1
  have hbook : s₂.book t = if accepted response then
      { s₁.book t with succeeded := (s₁.book t).hash } else s₁.book t := by
    rw [hsem.2, Function.update_self]
    rfl
  have hfailed : accepted response = false → settled t s₂ := by
    intro hno
    rw [hno] at hbook
    refine settled_of_ownPart hworking.1 ⟨hbook, ?_⟩
    cases t <;> simp [hcell]
  have hsucceeded : accepted response = true → updated t hash read s₂ := by
    intro hyes
    rw [hyes, if_pos rfl] at hbook
    rw [updated, hbook]
    exact ⟨hworking.2, hworking.2, hread⟩
  have hcached : accepted response = true →
      SafeLoop t (requested t hash read)
        (op (.writeCached f) >>= fun _ => Prog.pure (Except.ok ())) s₂ := by
    rintro hyes s₃ hrely₃ - ans s₄ ⟨hsem₄, -⟩
    refine ⟨step_of_sem (by rintro f ⟨⟩) hsem₄, ?_⟩
    exact updated_of_ownPart (hsucceeded hyes)
      (ownPart_trans hrely₃ (ownPart_of_quiet (show Quiet (.writeCached f) from trivial) hsem₄))
  cases response with
  | clientError reason => exact hfailed rfl
  | requestError e => exact hfailed rfl
  | answer u =>
      obtain ⟨⟨status, latest⟩, payloadId⟩ := u
      cases status with
      | valid => exact hcached rfl
      | invalid validationError => exact hfailed rfl
      | syncing => exact hcached rfl
      | accepted => exact hcached rfl

theorem safe_writeForkchoice (hs : updated t hash read s) :
    SafeLoop t (fun _ => settled t) (op (.writeForkchoice (applied t read hash))) s := by
  rintro s₁ hrely - ans s₂ ⟨hsem, hundisturbed⟩
  have hupdated := updated_of_ownPart hs hrely
  have hkeeps : unchangedSinceRead t s₁ = true := hundisturbed
  have hnode : s₂.node = { s₁.node with forkchoice := applied t read hash } := hsem.1
  have hbook : s₂.book = s₁.book := by
    rw [hsem.2]
    exact Function.update_eq_self t s₁.book
  obtain ⟨hsucceeded, hhash, hread⟩ := hupdated
  refine ⟨⟨trivial, ?_, ?_⟩, ?_⟩
  · intro u hu
    cases t <;> cases u <;>
      simp_all [ownPart, applied, unchangedSinceRead, ForkchoiceState.withSoft,
        ForkchoiceState.withFirm]
  · rintro f ⟨rfl⟩
    exact ⟨read, hread, by rw [hhash]⟩
  · cases t <;>
      simp_all [Safe, settled, applied, ForkchoiceState.withSoft, ForkchoiceState.withFirm]

theorem quiet_executeBlock (block : Block) : (executeBlock block).Performs Quiet :=
  performs_executeBlock (fun _ => trivial) fun _ _ => trivial

theorem safe_executeAndUpdateForkchoice (block : Block)
    (hs : working .finalization block.blockHash s) :
    SafeLoop .finalization (fun _ => settled .finalization)
      (executeAndUpdateForkchoice block block.blockHash) s := by
  refine safe_bind (safe_of_quiet (quiet_executeBlock block) hs) ?_
  intro result s₁ hs₁
  cases result with
  | error e => exact hs₁.1
  | ok result =>
      simp only [Report.wrapErr]
      split
      · exact hs₁.1
      · refine safe_bind (safe_readForkchoice hs₁) ?_
        intro current s₂ hs₂
        refine safe_bind (safe_updateForkchoice (current.withSoft block.blockHash) hs₂) ?_
        intro response s₃ hs₃
        cases response with
        | error e => exact hs₃
        | ok _ => exact safe_bind (safe_writeForkchoice hs₃) fun _ _ hs₄ => hs₄

theorem safe_updateFinalizedForkchoice (confirmation : FinalityConfirmation)
    (hs : working .events confirmation.blockHash s) :
    SafeLoop .events (fun _ => settled .events) (updateFinalizedForkchoice confirmation) s := by
  refine safe_bind (safe_readForkchoice hs) ?_
  intro current s₁ hs₁
  refine safe_bind (safe_updateForkchoice (current.withFirm confirmation.blockHash) hs₁) ?_
  intro response s₂ hs₂
  cases response with
  | error e => exact hs₂
  | ok _ => exact safe_writeForkchoice hs₂

theorem relyGuarantee : RelyGuarantee undisturbedLoops (fun _ => True) ownPart otherParts
    writesApplied (fun t _ => settled t) where
  refl := ownPart_refl
  trans _ _ _ _ := ownPart_trans
  guarantee _ u _ _ hu h := h u hu
  good _ _ _ _ := settled_of_ownPart
  accepted t l s x s' _ hs haccept := by
    obtain ⟨hnode, hbook⟩ := haccept
    have hself : s'.book t = (s.book t).take (inputHash t x) := by
      rw [hbook, Function.update_self]
    have hworking : working t (inputHash t x) s' := by
      refine ⟨?_, by rw [hself]; rfl⟩
      have hsucceeded : (s'.book t).succeeded = (s.book t).succeeded := by rw [hself]; rfl
      cases t <;> simp_all [settled]
    refine ⟨trivial, ?_, ?_⟩
    · intro u hu
      have hother : s'.book u = s.book u := by rw [hbook, Function.update_of_ne hu]
      cases u <;> exact ⟨hother, by simp [hnode]⟩
    · cases t with
      | finalization => exact safe_bind (safe_executeAndUpdateForkchoice x hworking) fun _ _ h => h
      | events => exact safe_updateFinalizedForkchoice x hworking

end Proof

variable {genesisHash : B256} {ts : List LoopTransition} {c c' : LoopConfig}

theorem safeConfig_of_undisturbed (hrun : Run (Step loops) (initial genesisHash) ts c)
    (hundisturbed : ∀ tr ∈ ts, undisturbed tr = true) :
    SafeConfig undisturbedLoops (fun _ => True) ownPart otherParts writesApplied
      (fun t _ => settled t) c := by
  have hrestricted : Run (Step undisturbedLoops) (initial genesisHash) ts c := by
    refine run_restrict hrun ?_
    intro tr htr t o ans hlabel
    have htr' := hundisturbed tr htr
    rw [undisturbed, hlabel] at htr'
    exact htr'
  refine (relyGuarantee.run hrestricted ⟨trivial, ?_⟩).1
  intro t
  cases t <;> simp [Safe, initial, settled, NodeState.initialized, ForkchoiceState.genesis]

theorem settled_of_idle {t : LoopTask}
    (hc : SafeConfig undisturbedLoops (fun _ => True) ownPart otherParts writesApplied
      (fun t _ => settled t) c) (hidle : idle c t = true) : settled t c.shared := by
  have ht := hc.2 t
  cases hprog : c.task t with
  | pure l =>
      rw [hprog] at ht
      exact ht
  | op o k => simp [idle, hprog] at hidle

theorem noLostUpdate_iff : NoLostUpdate c ↔ ∀ t, settled t c.shared := by
  constructor
  · intro h t
    rw [NoLostUpdate] at h
    cases t <;> simp [settled, h]
  · intro h
    obtain ⟨hhead, hsafe⟩ := h .finalization
    have hfinalized : c.shared.node.forkchoice.finalized = (c.shared.book .events).succeeded :=
      h .events
    rw [NoLostUpdate, ← hfinalized]
    cases hcell : c.shared.node.forkchoice with
    | mk head safe finalized =>
        rw [hcell] at hhead hsafe
        rw [← hhead, show safe = head from hsafe.trans hhead.symm]

/-- A loop about to write has `applied` its hash to what it read, also where the
write is disturbed: it would write the same had the other part not changed. -/
theorem applied_of_write {t : LoopTask} {f read : ForkchoiceState}
    {k : Unit → NodeProg Unit}
    (hc : SafeConfig undisturbedLoops (fun _ => True) ownPart otherParts writesApplied
      (fun t _ => settled t) c)
    (htask : c.task t = .op (.writeForkchoice f) k)
    (hread : (c.shared.book t).read = some read) :
    f = applied t read (c.shared.book t).hash := by
  let cell : ForkchoiceState :=
    match t with
    | .finalization => { c.shared.node.forkchoice with finalized := read.finalized }
    | .events => { c.shared.node.forkchoice with head := read.head, safe := read.safe }
  let s₁ : Observed := { c.shared with node := { c.shared.node with forkchoice := cell } }
  have hrely : ownPart t c.shared s₁ := by cases t <;> simp [ownPart, s₁, cell]
  have hunchanged : unchangedSinceRead t s₁ = true := by
    cases t <;> simp [unchangedSinceRead, s₁, cell, hread]
  have hsafe := hc.2 t
  rw [htask] at hsafe
  have hsem : undisturbedLoops.sem t (.writeForkchoice f) s₁ ()
      { s₁ with node := { s₁.node with forkchoice := f } } :=
    ⟨⟨rfl, (Function.update_eq_self t s₁.book).symm⟩, hunchanged⟩
  obtain ⟨r, hr, hf⟩ := (hsafe s₁ hrely trivial () _ hsem).1.2.2 f rfl
  have hsame : r = read := by
    have hr' : (c.shared.book t).read = some r := hr
    rw [hread] at hr'
    exact (Option.some.inj hr').symm
  rw [hf, hsame]

/-- The first write that has missed something loses it, unless the other loop is still at
work. -/
theorem lostUpdate_of_disturbed (hrun : Run (Step loops) (initial genesisHash) ts c)
    (hundisturbed : ∀ tr ∈ ts, undisturbed tr = true) {l : Label Ans LoopInput}
    (hstep : Step loops c l c') (hdisturbed : undisturbed ⟨c, l, c'⟩ = false)
    (hidle : ∀ t, idle c' t = true) : ¬ NoLostUpdate c' := by
  have hc := safeConfig_of_undisturbed hrun hundisturbed
  cases hstep with
  | start hpure haccept => simp [undisturbed] at hdisturbed
  | @act t o k ans s' htask hsem =>
      simp only [undisturbed, Bool.or_eq_false_iff, Bool.not_eq_false'] at hdisturbed
      obtain ⟨hwrite, hmissed⟩ := hdisturbed
      cases o <;> simp only [isWrite, Bool.false_eq_true] at hwrite
      rename_i f
      cases hread : (c.shared.book t).read with
      | none => simp [unchangedSinceRead, hread] at hmissed
      | some read =>
          have hf := applied_of_write hc htask hread
          have hcell : s'.node.forkchoice = f := by
            rw [hsem.1]
          intro hno
          rw [noLostUpdate_iff] at hno
          have hother : ∀ u, u ≠ t → settled u c.shared ∧ s'.book u = c.shared.book u := by
            intro u hu
            refine ⟨settled_of_idle hc ?_, by rw [hsem.2, Function.update_of_ne hu]⟩
            have hu' := hidle u
            simpa only [idle, Function.update_of_ne hu] using hu'
          cases t with
          | finalization =>
              obtain ⟨hold, hbook⟩ := hother .events (by decide)
              have hnew := hno .events
              simp_all [settled, applied, unchangedSinceRead]
          | events =>
              obtain ⟨⟨hhead, hsafe⟩, hbook⟩ := hother .finalization (by decide)
              obtain ⟨hnewHead, hnewSafe⟩ := hno .finalization
              simp_all [applied, unchangedSinceRead, ForkchoiceState.withFirm]

/-- In a run whose loops write only what they have not missed, no update is lost. -/
theorem noLostUpdate_of_undisturbed (hrun : Run (Step loops) (initial genesisHash) ts c)
    (hundisturbed : ∀ tr ∈ ts, undisturbed tr = true) (hidle : ∀ t, idle c t = true) :
    NoLostUpdate c := by
  have hc := safeConfig_of_undisturbed hrun hundisturbed
  rw [noLostUpdate_iff]
  exact fun t => settled_of_idle hc (hidle t)

section Schedules

def loopEnvironment (backend : Backend) :
    Environment NodeOp Ans Observed LoopTask (fun _ => Unit) LoopInput where
  answer t o s := (acceptingNode backend o s.node).map fun r =>
    (r.1, { node := r.2, book := Function.update s.book t ((s.book t).observe o r.1) })
  take t _ s x :=
    some { s with book := Function.update s.book t ((s.book t).take (inputHash t x)) }

theorem loopEnvironment_sound (backend : Backend) : (loopEnvironment backend).Sound loops where
  answer t o s ans s' h := by
    obtain ⟨⟨ans', node⟩, hnode, heq⟩ := Option.map_eq_some_iff.mp h
    simp only [Prod.mk.injEq] at heq
    obtain ⟨rfl, rfl⟩ := heq
    exact ⟨acceptingNode_sound backend o s.node ans' node hnode, rfl⟩
  take t l s x s' h := by
    cases h
    exact ⟨rfl, rfl⟩

def chainConfirmation (n : Nat) : FinalityConfirmation where
  blockHash := (chainBlock n).blockHash
  blockHeight := UInt64.ofNat n
  celestiaHeight := 10
  celestiaHeaderHash := FixedBytes.zero

def startBlock (n : Nat) : Move LoopInput := .start .finalization (chainBlock n)

def startConfirmation (n : Nat) : Move LoopInput := .start .events (chainConfirmation n)

def sequentialSchedule : List (Move LoopInput) :=
  startBlock 1 :: List.replicate 5 (.act .finalization) ++
    startConfirmation 1 :: List.replicate 4 (.act .events) ++
    startBlock 2 :: List.replicate 5 (.act .finalization)

/-- The confirmation of block 1 falls between the read and the write of block 2. -/
def racingSchedule : List (Move LoopInput) :=
  startBlock 1 :: List.replicate 5 (.act .finalization) ++
    startBlock 2 :: List.replicate 4 (.act .finalization) ++
    startConfirmation 1 :: List.replicate 4 (.act .events) ++ [.act .finalization]

def allIdle (c : LoopConfig) : Bool := idle c .finalization && idle c .events

theorem idle_of_allIdle {c : LoopConfig} (h : allIdle c = true) (t : LoopTask) :
    idle c t = true := by
  rw [allIdle, Bool.and_eq_true] at h
  cases t
  · exact h.1
  · exact h.2

theorem noLostUpdate_of_undisturbed_sequential :
    ∃ ts c, Run (Step loops) (initial FixedBytes.zero) ts c ∧
      (c.shared.book .finalization).succeeded = (chainBlock 2).blockHash ∧
      (c.shared.book .events).succeeded = (chainBlock 1).blockHash ∧ NoLostUpdate c := by
  obtain ⟨ts, c, hrun, hcheck⟩ := exists_run_of_play
    (step_of_playMove (loopEnvironment_sound genesisBackend)) (initial FixedBytes.zero)
    sequentialSchedule
    (fun ts c => ts.all undisturbed && allIdle c &&
      decide ((c.shared.book .finalization).succeeded = (chainBlock 2).blockHash ∧
        (c.shared.book .events).succeeded = (chainBlock 1).blockHash)) (by decide +kernel)
  simp only [Bool.and_eq_true, decide_eq_true_eq, List.all_eq_true] at hcheck
  obtain ⟨⟨hundisturbed, hidle⟩, hsoft, hfirm⟩ := hcheck
  exact ⟨ts, c, hrun, hsoft, hfirm,
    noLostUpdate_of_undisturbed hrun hundisturbed (idle_of_allIdle hidle)⟩

/-- The write of block 2 puts the genesis block back as the finalized one. -/
theorem racing_lostUpdate :
    ¬ ∀ ts c, Run (Step loops) (initial FixedBytes.zero) ts c → (∀ t, idle c t = true) →
      NoLostUpdate c := by
  intro hclaim
  obtain ⟨ts, c, hrun, hcheck⟩ := exists_run_of_play
    (step_of_playMove (loopEnvironment_sound genesisBackend)) (initial FixedBytes.zero)
    racingSchedule
    (fun _ c => allIdle c &&
      decide (c.shared.node.forkchoice.finalized ≠ (c.shared.book .events).succeeded))
    (by decide +kernel)
  simp only [Bool.and_eq_true, decide_eq_true_eq] at hcheck
  have hno := hclaim ts c hrun (idle_of_allIdle hcheck.1)
  exact hcheck.2 (noLostUpdate_iff.mp hno .events)

end Schedules

end Rkb.Sequencer.ForkchoiceRace
