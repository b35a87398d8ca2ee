import Rkb.Consensus.Agreement

namespace Rkb.Consensus.FinalizedChain

open Rkb.Library.Bytes
open Rkb.Library.Program
open Rkb.Types.Blocks
open Rkb.Execution.Payload
open Rkb.Execution.Client
open Rkb.Consensus.Messages
open Rkb.Consensus.Actor
open Rkb.Consensus.ActorSteps
open Rkb.Consensus.ActorRuns
open Rkb.Consensus.DigestBinding
open Rkb.Consensus.Agreement
open Rkb.Node.Effects

/-- The first block is a child of `parent`, and every other one of the block
before it. -/
def Linked : B256 → List Block → Prop
  | _, [] => True
  | parent, block :: blocks => block.parentHash = parent ∧ Linked block.blockHash blocks

def tip (parent : B256) (blocks : List Block) : B256 :=
  blocks.foldl (fun _ block => block.blockHash) parent

/-- Where the step finalizes a block, that block is a child of the last one. -/
def ExtendsTip (t : ActorTransition) : Prop :=
  ∀ digest block, t.label.1 = .finalize digest →
    t.pre.pendingBlocks.lookup digest = some block → block.height = t.pre.height →
    block.parentHash = t.pre.lastHash

/-- The requests of `apply_built_payload`. The one of `start_building` has
attributes. -/
def Applies : NodeOp → Prop
  | .newPayload _ _ _ => True
  | .forkchoiceUpdated _ none => True
  | _ => False

def sentOf : NodeOp → Option ExecutionPayloadV3
  | .newPayload payload _ _ => some payload
  | _ => none

def sent (tr : List NodeEvent) : List ExecutionPayloadV3 := tr.filterMap fun e => sentOf e.1

/-- The step calls `apply_built_payload` once, on the payload stored with the
block, and then broadcasts the block. -/
def AppliesOnce (t : ActorTransition) (block : Block) : Prop :=
  ∃ digest payload tr r, t.label.1 = .finalize digest ∧
    t.pre.pendingBlocks.lookup digest = some block ∧
    t.pre.pendingPayloads.lookup digest = some payload ∧
    (applyBuiltPayload payload).Exec anyAnswer () tr r () ∧
    sent tr = payload.toExecutionPayload.toList ∧
    t.label.2 = tr ++ [⟨.broadcastBlock block, ()⟩]

/-- The step makes no request of `apply_built_payload`; what a receipt sends to
reth is its own `import_payload`. -/
def AppliesNothing (t : ActorTransition) : Prop :=
  (∀ e ∈ t.label.2, ¬ Applies e.1) ∨
    ∃ digest block payload r, t.label.1 = .receiveBlock digest block payload ∧
      (importPayload payload).Exec anyAnswer () t.label.2 r ()

variable (sha256 : List UInt8 → AppDigest)

variable {sha256} {config : ApplicationConfig} {self self' : Application} {l : ActorLabel}
  {ts : List ActorTransition}

theorem finalizedBlocks_append (us vs : List ActorTransition) :
    finalizedBlocks (us ++ vs) = finalizedBlocks us ++ finalizedBlocks vs :=
  List.flatMap_append

theorem extendsTip_iff (h : Outcome sha256 self l.1 l.2 self') (blocks : List Block) :
    Linked self.lastHash (broadcasts l.2 ++ blocks) ↔
      ExtendsTip ⟨self, l, self'⟩ ∧ Linked self'.lastHash blocks := by
  rcases finalize_of_outcome h with
    ⟨hnone, -, hlast⟩ | ⟨digest, block, hl, hlookup, hheight, hone, rfl⟩
  · rw [hnone, hlast, List.nil_append]
    refine ⟨fun hlinked => ⟨?_, hlinked⟩, And.right⟩
    -- a finalization of a block at the actor's height would have broadcast it
    intro d b hmessage hlookup hheight
    obtain ⟨message, tr⟩ := l
    simp only at h hnone hmessage hlookup hheight
    subst hmessage
    cases h with
    | unknown hmissing =>
        rw [hlookup] at hmissing
        cases hmissing
    | wrongHeight hlookup' hother =>
        rw [hlookup] at hlookup'
        cases hlookup'
        exact absurd hheight hother
    | finalized _ _ hbroadcast _ _ =>
        rw [hbroadcast] at hnone
        cases hnone
  · rw [hone]
    constructor
    · rintro ⟨hparent, hrest⟩
      refine ⟨?_, hrest⟩
      intro d b hmessage hlookup' _
      simp only at hmessage hlookup' ⊢
      rw [hl] at hmessage
      cases hmessage
      rw [hlookup] at hlookup'
      cases hlookup'
      exact hparent
    · rintro ⟨hextends, hrest⟩
      exact ⟨hextends digest block hl hlookup hheight, hrest⟩

theorem linked_of_run_iff (hrun : ActorRun sha256 self ts self') :
    Linked self.lastHash (finalizedBlocks ts) ↔ ∀ t ∈ ts, ExtendsTip t := by
  induction hrun with
  | nil => simp [finalizedBlocks, Linked]
  | @cons self self₁ self' l ts hstep _ ih =>
      have hsplit : finalizedBlocks (⟨self, l, self₁⟩ :: ts) =
          broadcasts l.2 ++ finalizedBlocks ts := rfl
      rw [hsplit, extendsTip_iff hstep.outcome, ih, List.forall_mem_cons]

/-- The finalized chain is hash-linked exactly when no step finalizes a pending
block that is not a child of the tip. -/
theorem linked_iff_extendsTip (hrun : ActorRun sha256 (Application.new config) ts self') :
    Linked config.initialHash (finalizedBlocks ts) ↔ ∀ t ∈ ts, ExtendsTip t :=
  linked_of_run_iff hrun

section Heights

theorem tip_append (parent : B256) (xs ys : List Block) :
    tip parent (xs ++ ys) = tip (tip parent xs) ys :=
  List.foldl_append

theorem tip_of_run (hrun : ActorRun sha256 self ts self') :
    self'.lastHash = tip self.lastHash (finalizedBlocks ts) := by
  induction hrun with
  | nil => rfl
  | @cons self self₁ self' l ts hstep _ ih =>
      have hsplit : finalizedBlocks (⟨self, l, self₁⟩ :: ts) =
          broadcasts l.2 ++ finalizedBlocks ts := rfl
      rw [hsplit, tip_append, ih]
      rcases finalize_of_outcome hstep.outcome with
        ⟨hnone, -, hlast⟩ | ⟨digest, block, -, -, -, hone, rfl⟩
      · rw [hnone, hlast]
        rfl
      · rw [hone]
        rfl

def HasPayloads (app : Application) : Prop := Pairs (fun _ _ _ => True) app

theorem hasPayloads_step (h : Outcome sha256 self l.1 l.2 self') (hself : HasPayloads self) :
    HasPayloads self' :=
  Pairs.outcome hself h (fun _ _ _ _ _ => trivial) fun _ _ => trivial

theorem sent_append (tr₁ tr₂ : List NodeEvent) : sent (tr₁ ++ tr₂) = sent tr₁ ++ sent tr₂ :=
  List.filterMap_append

def SendsNothing (o : NodeOp) : Prop := sentOf o = none

theorem ensures_sent_nil {α S : Type} {sem : Sem NodeOp Ans S} {s : S} {p : NodeProg α}
    (hp : p.Performs SendsNothing) :
    p.Ensures sem s fun tr _ _ => sent tr = [] := by
  refine (hp.ensures s).mono fun tr _ _ h => ?_
  exact List.filterMap_eq_nil_iff.mpr h

section Requests

variable {S α β : Type} {sem : Sem NodeOp Ans S} {s : S}

theorem ensures_requestNewPayload (payload : Option ExecutionPayloadV3) :
    (requestNewPayload payload).Ensures sem s fun tr _ _ => sent tr = payload.toList := by
  cases payload with
  | none => exact Prog.ensures_op.mpr fun ans => ans.elim
  | some payload =>
      refine Prog.ensures_perform_bind.mpr fun response s₁ _ => ?_
      exact Prog.ensures_pure.mpr rfl

theorem ensures_sent_bind {p : NodeProg α} {f : α → NodeProg β}
    {payloads : List ExecutionPayloadV3}
    (hp : p.Ensures sem s fun tr _ _ => sent tr = payloads)
    (hf : ∀ a, (f a).Performs SendsNothing) :
    (p >>= f).Ensures sem s fun tr _ _ => sent tr = payloads := by
  refine Prog.ensures_bind.mpr (hp.mono fun tr₁ a s₁ hfirst => ?_)
  refine (ensures_sent_nil (hf a)).mono fun tr₂ _ _ hrest => ?_
  rw [sent_append, hfirst, hrest, List.append_nil]

theorem ensures_applyBuiltPayload (payload : BuiltPayload) :
    (applyBuiltPayload payload).Ensures sem s
      fun tr _ _ => sent tr = payload.toExecutionPayload.toList := by
  apply ensures_sent_bind
  · apply ensures_sent_bind (ensures_requestNewPayload payload.toExecutionPayload)
    intro response
    split <;> exact Prog.performs_pure _
  · intro result
    split
    · exact Prog.performs_pure _
    · have hread : SendsNothing .readCached := rfl
      refine (Prog.performs_perform hread).bind fun cached => ?_
      exact performs_updateForkchoice rfl rfl

theorem ensures_executeBlock (block : Block) :
    (executeBlock block).Ensures sem s
      fun tr _ _ => sent tr = (buildPayload block).toList := by
  apply ensures_sent_bind (ensures_requestNewPayload (buildPayload block))
  intro response
  split
  · exact Prog.performs_pure _
  · simp only
    split <;> exact Prog.performs_pure _

end Requests

/-- A finalization does nothing outside the actor, or it applies the stored
payload and then broadcasts the block. -/
theorem ensures_finalize_calls (digest : AppDigest) :
    (self.processMessage sha256 (.finalize digest)).Ensures anyAnswer () fun tr _ _ =>
      tr = [] ∨ ∃ block tr₁, self.pendingBlocks.lookup digest = some block ∧
        (applyToReth (self.pendingPayloads.lookup digest)).Exec anyAnswer () tr₁ () () ∧
        tr = tr₁ ++ [⟨.broadcastBlock block, ()⟩] := by
  simp only [Application.processMessage]
  unfold Application.finalize
  split
  · exact Prog.ensures_pure.mpr (.inl rfl)
  · rename_i block hlookup
    simp only
    split
    · exact Prog.ensures_pure.mpr (.inl rfl)
    · rw [Prog.bind_assoc]
      refine Prog.ensures_bind.mpr fun tr₁ _ s₁ happly => ?_
      refine Prog.ensures_op.mpr fun ans s₂ _ => Prog.ensures_pure.mpr ?_
      exact .inr ⟨block, tr₁, hlookup, happly, rfl⟩

theorem exec_applyToReth {payload : BuiltPayload} {tr : List NodeEvent}
    (h : (applyToReth (some payload)).Exec anyAnswer () tr () ()) :
    ∃ r, (applyBuiltPayload payload).Exec anyAnswer () tr r () := by
  obtain ⟨tr₁, r, ⟨⟩, tr₂, rfl, happly, rfl, -, -⟩ := Prog.exec_bind.mp h
  rw [List.append_nil]
  exact ⟨r, happly⟩

theorem ensures_receiveBlock_calls (digest : AppDigest) (block : Block) (payload : BuiltPayload) :
    (self.processMessage sha256 (.receiveBlock digest block payload)).Ensures anyAnswer ()
      fun tr _ _ => tr = [] ∨ ∃ r, (importPayload payload).Exec anyAnswer () tr r () := by
  simp only [Application.processMessage]
  unfold Application.handleReceiveBlock
  split
  · exact Prog.ensures_pure.mpr (.inl rfl)
  · refine Prog.ensures_bind.mpr fun tr₁ r s₁ himport => ?_
    refine Prog.ensures_pure.mpr (.inr ⟨r, ?_⟩)
    rw [List.append_nil]
    exact himport

theorem performs_handlePropose :
    (self.handlePropose sha256).Performs fun o => ¬ Applies o := by
  have hpropose : (self.propose sha256).Performs fun o => ¬ Applies o := by
    refine performs_propose sha256 (R := fun _ => True) id id id ?_ ?_ fun _ _ => id
    · intro timestamp
      refine (performs_startBuilding id fun _ => id).bind fun response => ?_
      split
      · exact Prog.performs_pure _
      · refine (performs_getPayload id id).bind fun response => ?_
        split <;> exact Prog.performs_pure _
    · exact fun timestamp => (Prog.returns_true _).mono fun _ _ _ _ => trivial
  refine hpropose.bind fun r => ?_
  exact Prog.Performs.bind ⟨id, fun _ => trivial⟩ fun _ => Prog.performs_pure _

/-- The calls of one step: it broadcasts a block right after it applied the
payload stored with that block, or it does neither. -/
theorem applies_step {t : ActorTransition} (hstep : ActorStep sha256 t.pre t.label t.post)
    (hpre : HasPayloads t.pre) :
    (∃ block, broadcasts t.label.2 = [block] ∧ AppliesOnce t block) ∨
      (broadcasts t.label.2 = [] ∧ AppliesNothing t) := by
  obtain ⟨self, ⟨message, tr⟩, self'⟩ := t
  simp only at hstep hpre ⊢
  have hsilent : (∀ d, message ≠ .finalize d) → broadcasts tr = [] := by
    intro hmessage
    rcases finalize_of_outcome hstep.outcome with ⟨hnone, -⟩ | ⟨digest, -, hl, -⟩
    · exact hnone
    · exact absurd hl (hmessage digest)
  have hnothing : (self.processMessage sha256 message).Performs (fun o => ¬ Applies o) →
      AppliesNothing ⟨self, (message, tr), self'⟩ :=
    fun h => .inl fun e he => h.of_mem hstep he
  cases message with
  | finalize digest =>
      rcases ensures_finalize_calls digest tr self' () hstep with
        rfl | ⟨block, tr₁, hlookup, happly, rfl⟩
      · exact .inr ⟨rfl, .inl fun e he => absurd he List.not_mem_nil⟩
      · obtain ⟨payload, hpayload, -⟩ := hpre digest block hlookup
        rw [hpayload] at happly
        obtain ⟨r, hexec⟩ := exec_applyToReth happly
        refine .inl ⟨block, ?_, digest, payload, tr₁, r, rfl, hlookup, hpayload, hexec,
          ensures_applyBuiltPayload payload tr₁ r () hexec, rfl⟩
        have hinternal := silent_of_internal fun e he =>
          ((internal_applyToReth (some payload)).of_mem happly he).1
        change broadcasts (tr₁ ++ _) = _
        rw [broadcasts, List.filterMap_append]
        exact (congrArg₂ _ hinternal.1 rfl).trans (List.nil_append _)
  | receiveBlock digest block payload =>
      refine .inr ⟨hsilent (by simp), ?_⟩
      rcases ensures_receiveBlock_calls digest block payload tr self' () hstep with
        rfl | ⟨r, himport⟩
      · exact .inl fun e he => absurd he List.not_mem_nil
      · exact .inr ⟨digest, block, payload, r, rfl, himport⟩
  | propose => exact .inr ⟨hsilent (by simp), hnothing performs_handlePropose⟩
  | genesis epoch =>
      refine .inr ⟨hsilent (by simp), hnothing ?_⟩
      exact Prog.Performs.bind ⟨id, fun _ => trivial⟩ fun _ => Prog.performs_pure _
  | verify payload =>
      refine .inr ⟨hsilent (by simp), hnothing ?_⟩
      exact Prog.Performs.bind ⟨id, fun _ => trivial⟩ fun _ => Prog.performs_pure _
  | broadcast payload => exact .inr ⟨hsilent (by simp), hnothing (Prog.performs_pure _)⟩

theorem map_height_of_run (hrun : ActorRun sha256 self ts self')
    (hheight : self.height.toNat + (finalizedBlocks ts).length < 2 ^ 64) :
    (finalizedBlocks ts).map (fun b => b.height.toNat) =
      List.range' self.height.toNat (finalizedBlocks ts).length := by
  obtain ⟨-, hheights⟩ := heights_of_run hrun hheight
  apply List.ext_getElem
  · simp
  · intro k hk hk'
    simp only [List.length_map] at hk
    rw [List.getElem_map, List.getElem_range', Nat.one_mul]
    exact hheights k _ (List.getElem?_eq_getElem hk)

theorem hasPayloads_of_run (hrun : ActorRun sha256 self ts self') (hself : HasPayloads self) :
    ∀ t ∈ ts, HasPayloads t.pre := by
  have hinvariant := hrun.invariant HasPayloads (fun _ => True)
    (fun _ hstep _ hpre => hasPayloads_step hstep.outcome hpre) (fun _ _ => trivial) hself
  exact fun t ht => (hinvariant.2 t ht).1

/-- The heights of the finalized blocks are consecutive, the actor's height and
last hash follow them step by step, and each block is broadcast right after its
payload was applied, once. -/
theorem finalizedBlocks_consecutive (hrun : ActorRun sha256 (Application.new config) ts self')
    (hheight : config.initialHeight.toNat + (finalizedBlocks ts).length < 2 ^ 64) :
    (finalizedBlocks ts).map (fun b => b.height.toNat) =
        List.range' config.initialHeight.toNat (finalizedBlocks ts).length ∧
      (∀ us t vs, ts = us ++ t :: vs →
        t.post.height.toNat =
            config.initialHeight.toNat + (finalizedBlocks (us ++ [t])).length ∧
          t.post.lastHash = tip config.initialHash (finalizedBlocks (us ++ [t]))) ∧
      ∀ t ∈ ts, (∃ block, broadcasts t.label.2 = [block] ∧ AppliesOnce t block) ∨
        (broadcasts t.label.2 = [] ∧ AppliesNothing t) := by
  refine ⟨map_height_of_run hrun hheight, ?_, ?_⟩
  · rintro us t vs rfl
    obtain ⟨-, hupto⟩ := hrun.at_step
    have hle : (finalizedBlocks (us ++ [t])).length ≤
        (finalizedBlocks (us ++ t :: vs)).length := by
      rw [List.append_cons us t vs, finalizedBlocks_append (us ++ [t]), List.length_append]
      exact Nat.le_add_right _ _
    have hstart : (Application.new config).height = config.initialHeight := rfl
    refine ⟨(heights_of_run hupto ?_).1, tip_of_run hupto⟩
    rw [hstart]
    omega
  · intro t ht
    exact applies_step (hrun.step_of_mem ht) (hasPayloads_of_run hrun (pairs_new config) t ht)

end Heights

section Examples

theorem linked_iff_extendsTip_firstBlock :
    ∃ (ts : List ActorTransition) (self' : Application),
      ActorRun Library.Sha256.sha256 (Application.new genesisConfig) ts self' ∧
      ts.map (fun t => t.label.1) = [receive₁, .finalize digest₁] ∧
      (Linked genesisConfig.initialHash (finalizedBlocks ts) ↔ ∀ t ∈ ts, ExtendsTip t) := by
  obtain ⟨ts, self', hrun, hmessages, -⟩ :=
    exists_run_of_replay Library.Sha256.sha256 acceptingEnv (Application.new genesisConfig)
      [receive₁, .finalize digest₁] (fun _ _ => true) (by decide +kernel)
  exact ⟨ts, self', hrun, hmessages, linked_iff_extendsTip hrun⟩

def resentMessages : List Message :=
  [receive₁, .finalize digest₁, receive₁, .finalize digest₁]

theorem finalizedBlocks_consecutive_resent :
    ∃ (ts : List ActorTransition) (self' : Application),
      ActorRun Library.Sha256.sha256 (Application.new genesisConfig) ts self' ∧
      ts.map (fun t => t.label.1) = resentMessages ∧
      finalizedBlocks ts = [buildBlockFromPayload firstPayload] ∧
      self'.height = 2 ∧
      (finalizedBlocks ts).map (fun b => b.height.toNat) =
        List.range' genesisConfig.initialHeight.toNat (finalizedBlocks ts).length ∧
      ∀ t ∈ ts, (∃ block, broadcasts t.label.2 = [block] ∧ AppliesOnce t block) ∨
        (broadcasts t.label.2 = [] ∧ AppliesNothing t) := by
  obtain ⟨ts, self', hrun, hmessages, hcheck⟩ :=
    exists_run_of_replay Library.Sha256.sha256 acceptingEnv (Application.new genesisConfig)
      resentMessages (fun ts self' => decide (finalizedBlocks ts =
        [buildBlockFromPayload firstPayload] ∧ self'.height = 2)) (by decide +kernel)
  obtain ⟨hblocks, hheight⟩ := of_decide_eq_true hcheck
  obtain ⟨hheights, -, happlies⟩ := finalizedBlocks_consecutive hrun (by rw [hblocks]; decide)
  exact ⟨ts, self', hrun, hmessages, hblocks, hheight, hheights, happlies⟩

def orphanPayload : BuiltPayload :=
  emptyPayload 1 (FixedBytes.repeatByte 9) (FixedBytes.repeatByte 1)

def orphan : ProposedBlock := proposedBlock Library.Sha256.sha256 orphanPayload

/-- The relay delivers an orphan at the height of the actor, consensus finalizes
it, and the actor takes it as the first block. -/
theorem orphan_not_linked :
    ∃ (ts : List ActorTransition) (self' : Application),
      ActorRun Library.Sha256.sha256 (Application.new genesisConfig) ts self' ∧
      ts.map (fun t => t.label.1) =
        [.receiveBlock orphan.digest orphan.block orphan.payload, .finalize orphan.digest] ∧
      ¬ Linked genesisConfig.initialHash (finalizedBlocks ts) := by
  obtain ⟨ts, self', hrun, hmessages, hblocks⟩ :=
    exists_run_of_replay Library.Sha256.sha256 acceptingEnv (Application.new genesisConfig)
      [.receiveBlock orphan.digest orphan.block orphan.payload, .finalize orphan.digest]
      (fun ts _ => decide (finalizedBlocks ts = [orphan.block])) (by decide +kernel)
  refine ⟨ts, self', hrun, hmessages, ?_⟩
  rw [of_decide_eq_true hblocks]
  rintro ⟨hparent, -⟩
  exact absurd hparent (by decide)

end Examples

end Rkb.Consensus.FinalizedChain
