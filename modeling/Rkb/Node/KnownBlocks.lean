import Rkb.Consensus.OwnProposals
import Rkb.Node.ExecutedFinality
import Rkb.Node.LoggedNode
import Rkb.Sequencer.FailedUpdates

namespace Rkb.Node.KnownBlocks

open Rkb.Library.Bytes
open Rkb.Library.Histories
open Rkb.Library.Program
open Rkb.Library.Runs
open Rkb.Library.Tasks
open Rkb.Types.Blocks
open Rkb.Execution.Errors
open Rkb.Execution.Forkchoice
open Rkb.Execution.Payload
open Rkb.Execution.Client
open Rkb.Celestia.Blobs
open Rkb.Celestia.Finality
open Rkb.Celestia.Client
open Rkb.Celestia.Index
open Rkb.Consensus.Messages
open Rkb.Consensus.Actor
open Rkb.Consensus.ActorSteps
open Rkb.Consensus.OwnProposals
open Rkb.Sequencer.Batch
open Rkb.Sequencer.FailedUpdates
open Rkb.Sequencer.Finalization
open Rkb.Sequencer.Sync
open Rkb.Node.Effects
open Rkb.Node.LoggedNode
open Rkb.Node.Shared
open Rkb.Node.System

/-- Reth was given the payload of a block with this hash, and answered with this status. -/
def Answered (tr : List NodeEvent) (hash : B256) (status : PayloadStatusEnum) : Prop :=
  ∃ payload response,
    (⟨.newPayload payload [] FixedBytes.zero, (.answer response : RpcAnswer PayloadStatus)⟩ :
      NodeEvent) ∈ tr ∧
    payload.payloadInner.payloadInner.blockHash = hash ∧ response.status = status

def Given (tr : List NodeEvent) (hash : B256) : Prop :=
  ∃ status, Answered tr hash status ∧ ∀ validationError, status ≠ .invalid validationError

/-- The genesis block, a block that reth was given, or one that it reported as its head. -/
def Known (genesisHash : B256) (tr : List NodeEvent) (hash : B256) : Prop :=
  hash = genesisHash ∨ Given tr hash ∨ ∃ head ∈ heads tr, head.hash = hash

def Validated (genesisHash : B256) (tr : List NodeEvent) (hash : B256) : Prop :=
  hash = genesisHash ∨ Answered tr hash .valid

structure Sound (genesisHash : B256) (tr : List NodeEvent) (state : ForkchoiceState) : Prop where
  head : Known genesisHash tr state.head
  safe : Known genesisHash tr state.safe
  finalized : Validated genesisHash tr state.finalized

/-- Both copies of the forkchoice are sound, and every executed block was found valid. -/
structure SoundOnly (genesisHash : B256) (s : LoggedState) : Prop where
  forkchoice : Sound genesisHash (past s) s.1.forkchoice
  cached : Sound genesisHash (past s) s.1.cached
  executed : ∀ hash ∈ s.1.executed, Answered (past s) hash .valid

/-- What a task has to know before it performs an operation. -/
def Requires (genesisHash : B256) (s : LoggedState) : NodeOp → Prop
  | .forkchoiceUpdated state _ => Sound genesisHash (past s)
      ⟨state.headBlockHash, state.safeBlockHash, state.finalizedBlockHash⟩
  | .writeCached state => Sound genesisHash (past s) state
  | .writeForkchoice state => Sound genesisHash (past s) state
  | .insertExecuted hash => Answered (past s) hash .valid
  | _ => True

section Growth

variable {genesisHash : B256} {tr tr' : List NodeEvent} {hash : B256} {s s' : LoggedState}
  {o : NodeOp}

theorem Answered.mono {status : PayloadStatusEnum} (h : Answered tr hash status)
    (hsub : tr ⊆ tr') : Answered tr' hash status := by
  obtain ⟨payload, response, hmem, hanswer⟩ := h
  exact ⟨payload, response, hsub hmem, hanswer⟩

theorem Answered.known (h : Answered tr hash .valid) : Known genesisHash tr hash :=
  .inr (.inl ⟨.valid, h, nofun⟩)

theorem Known.mono (h : Known genesisHash tr hash) (hsub : tr ⊆ tr') :
    Known genesisHash tr' hash := by
  rcases h with hgenesis | ⟨status, hanswered, hvalid⟩ | ⟨head, hhead, hhash⟩
  · exact .inl hgenesis
  · exact .inr (.inl ⟨status, hanswered.mono hsub, hvalid⟩)
  · exact .inr (.inr ⟨head, List.filterMap_subset headOf hsub hhead, hhash⟩)

theorem Validated.mono (h : Validated genesisHash tr hash) (hsub : tr ⊆ tr') :
    Validated genesisHash tr' hash :=
  h.imp_right fun hvalid => hvalid.mono hsub

theorem Sound.mono {state : ForkchoiceState} (h : Sound genesisHash tr state) (hsub : tr ⊆ tr') :
    Sound genesisHash tr' state where
  head := h.head.mono hsub
  safe := h.safe.mono hsub
  finalized := h.finalized.mono hsub

theorem Sound.withSoft {state : ForkchoiceState} (h : Sound genesisHash tr state)
    (hvalid : Answered tr hash .valid) : Sound genesisHash tr (state.withSoft hash) where
  head := hvalid.known
  safe := hvalid.known
  finalized := h.finalized

theorem Sound.withFirm {state : ForkchoiceState} (h : Sound genesisHash tr state)
    (hvalid : Answered tr hash .valid) : Sound genesisHash tr (state.withFirm hash) where
  head := h.head
  safe := h.safe
  finalized := .inr hvalid

theorem requires_of_grows (h : Grows s s') (ho : Requires genesisHash s o) :
    Requires genesisHash s' o := by
  cases o <;> first
    | trivial
    | exact Sound.mono ho h.past_subset
    | exact Answered.mono ho h.past_subset

end Growth

section Answers

variable {block : Block}

theorem ensures_requestNewPayload (payload : Option ExecutionPayloadV3) :
    (requestNewPayload payload).Ensures anyAnswer () fun tr r _ =>
      ∀ response, r = .ok response → ∃ p, payload = some p ∧
        (⟨.newPayload p [] FixedBytes.zero, (.answer response : RpcAnswer PayloadStatus)⟩ :
          NodeEvent) ∈ tr := by
  cases payload with
  | none =>
      refine Prog.ensures_op.mpr ?_
      rintro ⟨⟩
  | some p =>
      refine Prog.ensures_op.mpr ?_
      rintro (reason | e | response) ⟨⟩ -
      · exact Prog.ensures_pure.mpr nofun
      · exact Prog.ensures_pure.mpr nofun
      · refine Prog.ensures_pure.mpr ?_
        rintro _ ⟨rfl⟩
        exact ⟨p, rfl, List.mem_singleton_self _⟩

theorem ensures_executeBlock (block : Block) :
    (executeBlock block).Ensures anyAnswer () fun tr r _ =>
      ∀ result, r = .ok result → result.isValid = true → Answered tr block.blockHash .valid := by
  refine Prog.ensures_bind.mpr ((ensures_requestNewPayload _).mono ?_)
  rintro tr r ⟨⟩ hanswer
  cases r with
  | error e => exact Prog.ensures_pure.mpr nofun
  | ok response =>
      obtain ⟨payload, hpayload, hmem⟩ := hanswer response rfl
      have hhash := blockHash_of_buildPayload hpayload
      simp only
      split
      · rename_i hstatus
        refine Prog.ensures_pure.mpr ?_
        rintro _ ⟨rfl⟩ -
        rw [List.append_nil]
        exact ⟨payload, response, hmem, hhash, hstatus⟩
      · exact Prog.ensures_pure.mpr nofun
      all_goals
        refine Prog.ensures_pure.mpr ?_
        rintro _ ⟨rfl⟩ ⟨⟩

theorem ensures_callNewPayload (payload : BuiltPayload) :
    (callNewPayload payload).Ensures anyAnswer () fun tr r _ =>
      r = .ok () → Given tr payload.blockHash := by
  refine Prog.ensures_bind.mpr ((ensures_requestNewPayload _).mono ?_)
  rintro tr r ⟨⟩ hanswer
  cases r with
  | error e => exact Prog.ensures_pure.mpr nofun
  | ok response =>
      obtain ⟨p, hpayload, hmem⟩ := hanswer response rfl
      have hhash := blockHash_of_toExecutionPayload hpayload
      refine Prog.ensures_pure.mpr ?_
      intro hok
      rw [List.append_nil]
      refine ⟨response.status, ⟨p, response, hmem, hhash, rfl⟩, ?_⟩
      intro validationError hinvalid
      rw [hinvalid] at hok
      cases hok

end Answers

section Operations

variable {genesisHash : B256} {s s' : LoggedState} {o : NodeOp} {ans : Ans o} {t : NodeTask}

theorem unmoved_of_nodeSem {state state' : NodeState} (h : nodeSem o state ans state')
    (hcached : ∀ f, o ≠ .writeCached f) (hforkchoice : ∀ f, o ≠ .writeForkchoice f)
    (hexecuted : ∀ hash, o ≠ .insertExecuted hash) :
    state'.forkchoice = state.forkchoice ∧ state'.cached = state.cached ∧
      state'.executed = state.executed := by
  cases o
  case writeCached f => exact absurd rfl (hcached f)
  case writeForkchoice f => exact absurd rfl (hforkchoice f)
  case insertExecuted hash => exact absurd rfl (hexecuted hash)
  case onCelestiaFinality =>
      obtain ⟨visit, -, -, rfl⟩ := h
      exact ⟨rfl, rfl, rfl⟩
  case readIndexFile =>
      rw [h.1]
      exact ⟨rfl, rfl, rfl⟩
  case queueBlock => rcases h with ⟨-, rfl⟩ | ⟨-, rfl⟩ <;> exact ⟨rfl, rfl, rfl⟩
  case sendConfirmation => rcases h with ⟨-, rfl⟩ | ⟨-, rfl⟩ <;> exact ⟨rfl, rfl, rfl⟩
  case openIndexFile => rcases h with ⟨-, rfl⟩ | ⟨-, rfl⟩ <;> exact ⟨rfl, rfl, rfl⟩
  case appendIndexFile =>
      rcases h with ⟨-, rfl⟩ | ⟨e, written, -, -, rfl⟩ <;> exact ⟨rfl, rfl, rfl⟩
  all_goals first
    | (cases h; exact ⟨rfl, rfl, rfl⟩)
    | (obtain ⟨-, rfl⟩ := h; exact ⟨rfl, rfl, rfl⟩)

theorem soundOnly_of_loggedSem (hs : SoundOnly genesisHash s) (ho : Requires genesisHash s o)
    (hsem : LoggedSem nodeSem t o s ans s') : SoundOnly genesisHash s' := by
  have hgrows := grows_of_loggedSem hsem
  have hsub := hgrows.past_subset
  have hlater := requires_of_grows hgrows ho
  obtain ⟨hsem, -⟩ := hsem
  by_cases hcached : ∃ f, o = .writeCached f
  · obtain ⟨f, rfl⟩ := hcached
    have hstate : s'.1 = { s.1 with cached := f } := hsem
    refine ⟨?_, ?_, ?_⟩ <;> rw [hstate]
    · exact hs.forkchoice.mono hsub
    · exact hlater
    · exact fun hash hmem => (hs.executed hash hmem).mono hsub
  by_cases hforkchoice : ∃ f, o = .writeForkchoice f
  · obtain ⟨f, rfl⟩ := hforkchoice
    have hstate : s'.1 = { s.1 with forkchoice := f } := hsem
    refine ⟨?_, ?_, ?_⟩ <;> rw [hstate]
    · exact hlater
    · exact hs.cached.mono hsub
    · exact fun hash hmem => (hs.executed hash hmem).mono hsub
  by_cases hexecuted : ∃ hash, o = .insertExecuted hash
  · obtain ⟨hash, rfl⟩ := hexecuted
    have hstate : s'.1 = { s.1 with executed := insert hash s.1.executed } := hsem
    refine ⟨?_, ?_, ?_⟩ <;> rw [hstate]
    · exact hs.forkchoice.mono hsub
    · exact hs.cached.mono hsub
    · intro other hmem
      rcases Finset.mem_insert.mp hmem with rfl | hmem
      · exact hlater
      · exact (hs.executed other hmem).mono hsub
  obtain ⟨hforkchoice', hcached', hexecuted'⟩ := unmoved_of_nodeSem hsem
    (fun f h => hcached ⟨f, h⟩) (fun f h => hforkchoice ⟨f, h⟩) fun hash h => hexecuted ⟨hash, h⟩
  refine ⟨?_, ?_, ?_⟩
  · rw [hforkchoice']
    exact hs.forkchoice.mono hsub
  · rw [hcached']
    exact hs.cached.mono hsub
  · rw [hexecuted']
    exact fun hash hmem => (hs.executed hash hmem).mono hsub

end Operations

section Programs

variable {genesisHash : B256} {t : NodeTask} {α : Type}

abbrev SafeSound (genesisHash : B256) (t : NodeTask) (Q : α → LoggedState → Prop)
    (p : NodeProg α) (s : LoggedState) : Prop :=
  SafeGuarded nodeSem (SoundOnly genesisHash) (Requires genesisHash) t Q p s

theorem guarded : GuardedNode (SoundOnly genesisHash) (Requires genesisHash) where
  grow := requires_of_grows
  step := soundOnly_of_loggedSem
  free {s o} ho := by
    cases o <;> trivial

end Programs

section Execution

variable {genesisHash : B256} {t : NodeTask} {s : LoggedState} {state : ForkchoiceState}

theorem requires_updateForkchoice (h : Sound genesisHash (past s) state) :
    (updateForkchoice state).Performs (Requires genesisHash s) :=
  performs_updateForkchoice h h

theorem safe_executeThenUpdate (executionContext updateContext : String)
    (invalid : ExecutionResult → Report) (block : Block) :
    SafeSound genesisHash t
      (fun r s' => r = .ok () → Answered (past s') block.blockHash .valid)
      (executeThenUpdate executionContext updateContext invalid block block.blockHash) s := by
  have hexecute : (executeBlock block).Performs (Requires genesisHash s) :=
    performs_executeBlock (fun _ => trivial) fun _ _ => trivial
  refine safe_bind (guarded.safe_of_ensures hexecute (ensures_executeBlock block)) ?_
  rintro result s₁ ⟨-, tr, hvalid, hsub⟩
  have hfails : ∀ (e : Report) (s' : LoggedState), (.error e : Except Report Unit) = .ok () →
      Answered (past s') block.blockHash .valid := by
    intro e s' h
    cases h
  cases result with
  | error e => exact hfails _ _
  | ok result =>
      by_cases hresult : result.isValid = true
      · have hanswered := (hvalid result rfl hresult).mono hsub
        simp only [Report.wrapErr, hresult, Bool.not_true, Bool.false_eq_true, if_false]
        refine guarded.safe_perform_bind trivial fun s₂ current s₃ hgrows hinv hsem => ?_
        have hstep := (grows_of_loggedSem hsem).past_subset
        have hlater := hanswered.mono (hgrows.past_subset)
        obtain ⟨⟨rfl, -⟩, -⟩ := hsem
        have hsound := (hinv.forkchoice.mono hstep).withSoft hlater
        refine guarded.safe_performs_bind (requires_updateForkchoice hsound)
          fun response s₄ hgrows₄ => ?_
        cases response with
        | error e => exact hfails _ _
        | ok _ =>
            refine guarded.safe_perform_bind (hsound.mono (hgrows₄.past_subset)) ?_
            intro s₅ _ s₆ hgrows₆ _ _ _
            exact hlater.mono (hgrows₄.trans hgrows₆).past_subset
      · simp only [Report.wrapErr, hresult]
        exact hfails _ _

theorem safe_handleFinalityConfirmation (confirmation : FinalityConfirmation) :
    SafeSound genesisHash t (fun _ _ => True) (handleFinalityConfirmation confirmation) s := by
  have hcheck : Requires genesisHash s (.containsExecuted confirmation.blockHash) := trivial
  refine guarded.safe_perform_bind hcheck ?_
  intro s₁ (executed : Bool) s₂ _ hinv hsem
  cases executed with
  | false => exact trivial
  | true =>
      have hvalid : Answered (past s₂) confirmation.blockHash .valid := by
        have hmem : confirmation.blockHash ∈ s₁.1.executed := of_decide_eq_true hsem.1.1.symm
        exact (hinv.executed _ hmem).mono (grows_of_loggedSem hsem).past_subset
      refine guarded.safe_perform_bind trivial fun s₃ current s₄ hgrows hinv₃ hsem₃ => ?_
      have hstep := (grows_of_loggedSem hsem₃).past_subset
      obtain ⟨⟨rfl, -⟩, -⟩ := hsem₃
      have hsound := (hinv₃.forkchoice.mono hstep).withFirm (hvalid.mono (hgrows.past_subset))
      refine guarded.safe_performs_bind (requires_updateForkchoice hsound)
        fun response s₅ hgrows₅ => ?_
      cases response with
      | error e => exact trivial
      | ok _ =>
          have hwrite : (op (.writeForkchoice (s₃.1.forkchoice.withFirm
              confirmation.blockHash))).Performs (Requires genesisHash s₅) :=
            Prog.performs_perform (hsound.mono (Grows.past_subset hgrows₅))
          exact guarded.safe hwrite

end Execution

section Actor

variable {genesisHash : B256} {t : NodeTask} {s : LoggedState} {self : Application}
  {sha256 : List UInt8 → AppDigest}

theorem safe_applyToReth (payload : Option BuiltPayload) :
    SafeSound genesisHash t (fun _ _ => True) (applyToReth payload) s := by
  cases payload with
  | none => exact trivial
  | some payload =>
      have hcall : (callNewPayload payload).Performs (Requires genesisHash s) :=
        performs_callNewPayload (fun _ => trivial) fun _ _ => trivial
      refine safe_bind (Q := fun _ _ => True) ?_ fun _ _ _ => trivial
      refine safe_bind (guarded.safe_of_ensures hcall (ensures_callNewPayload payload)) ?_
      rintro response s₁ ⟨-, tr, hgiven, hsub⟩
      cases response with
      | error e => exact trivial
      | ok _ =>
          have hknown : Known genesisHash tr payload.blockHash := .inr (.inl (hgiven rfl))
          refine guarded.safe_perform_bind trivial fun s₂ cached s₃ hgrows hinv hsem => ?_
          have hstep := (grows_of_loggedSem hsem).past_subset
          have hlater := (hknown.mono hsub).mono (hgrows.past_subset)
          obtain ⟨⟨rfl, -⟩, -⟩ := hsem
          have hsound : Sound genesisHash (past s₃)
              ⟨payload.blockHash, payload.blockHash, s₂.1.cached.finalized⟩ :=
            ⟨hlater, hlater, (hinv.cached.mono hstep).finalized⟩
          exact guarded.safe (requires_updateForkchoice hsound)

/-- A block is built only on a head that reth has just reported. -/
theorem safe_buildViaReth (timestamp : UInt64)
    (hknown : Known genesisHash (past s) self.lastHash) :
    SafeSound genesisHash t (fun _ _ => True) (self.buildViaReth timestamp) s := by
  refine safe_bind (Q := fun _ _ => True) ?_ fun response s' _ => ?_
  · refine guarded.safe_perform_bind trivial fun s₁ cached s₂ hgrows hinv hsem => ?_
    have hstep := (grows_of_loggedSem hsem).past_subset
    have hlater := hknown.mono (hgrows.past_subset)
    obtain ⟨⟨rfl, -⟩, -⟩ := hsem
    have hsound : Sound genesisHash (past s₂)
        ⟨self.lastHash, self.lastHash, s₁.1.cached.finalized⟩ :=
      ⟨hlater, hlater, (hinv.cached.mono hstep).finalized⟩
    have hrequest : Requires genesisHash s₂ (.forkchoiceUpdated
        (buildForkchoiceState self.lastHash s₁.1.cached.finalized)
        (some (buildPayloadAttributes self.lastHash timestamp self.proposer))) := hsound
    refine guarded.safe ((Prog.performs_perform hrequest).bind fun response => ?_)
    split <;> exact Prog.performs_pure _
  · cases response with
    | error e => exact trivial
    | ok payloadId =>
        refine guarded.safe_performs_bind (performs_getPayload trivial trivial)
          fun response s'' _ => ?_
        cases response with
        | error e => exact trivial
        | ok payload => exact trivial

theorem safe_propose :
    SafeSound genesisHash t (fun _ _ => True) (self.propose sha256) s := by
  rw [propose_eq]
  have htime : (timeToBuild self).Performs (Requires genesisHash s) :=
    performs_timeToBuild trivial trivial trivial
  refine safe_bind (guarded.safe_of_ensures htime ensures_timeToBuild) ?_
  rintro timestamp s₁ ⟨-, tr, hhead, hsub⟩
  cases timestamp with
  | none => exact trivial
  | some timestamp =>
      obtain ⟨head, hmem, hhash, -⟩ := hhead timestamp rfl
      have hknown : Known genesisHash tr self.lastHash := .inr (.inr ⟨head, hmem, hhash⟩)
      refine safe_bind (safe_buildViaReth timestamp (hknown.mono hsub)) fun payload s₂ _ => ?_
      cases payload with
      | none => exact trivial
      | some payload => exact guarded.safe_perform_bind trivial fun _ _ _ _ _ _ => trivial

end Actor

section Sequencer

variable {genesisHash : B256} {t : NodeTask} {s : LoggedState} {json : IndexJson}

theorem safe_processFinalizedBlock (ctx : FinalizationContext) (block : Block)
    (isLeader : Bool) :
    SafeSound genesisHash t (fun _ _ => True) (processFinalizedBlock ctx block isLeader) s := by
  have hexecute : SafeSound genesisHash t
      (fun r s' => r = .ok () → Answered (past s') block.blockHash .valid)
      (executeAndUpdateForkchoice block block.blockHash) s := safe_executeThenUpdate _ _ _ block
  refine safe_bind hexecute fun result s₁ hvalid => ?_
  split
  · exact trivial
  · refine guarded.safe_perform_bind (hvalid rfl) fun _ _ s₂ _ _ _ => ?_
    split
    · exact guarded.safe (performs_submitToCelestia trivial (fun _ => trivial)
        (fun _ => trivial) fun _ _ => trivial)
    · exact trivial

theorem safe_syncSingleBlock (index : BlockIndex) (block : Block) (celestiaHeight : UInt64)
    (expectedParent : B256) :
    SafeSound genesisHash t (fun _ _ => True)
      (syncSingleBlock json index block celestiaHeight expectedParent) s := by
  have hexecute : ∀ s₁, SafeSound genesisHash t
      (fun r s' => r = .ok () → Answered (past s') block.blockHash .valid)
      (executeSyncBlock block block.blockHash block.height) s₁ :=
    fun _ => safe_executeThenUpdate _ _ _ block
  refine guarded.safe_performs_bind (performs_checkParentContinuity fun _ => trivial) ?_
  intro _ s₁ _
  refine safe_bind (hexecute s₁) fun result s₂ hvalid => ?_
  split
  · exact trivial
  · refine guarded.safe_perform_bind (hvalid rfl) fun _ _ s₃ _ _ _ => ?_
    refine guarded.safe_performs_bind (performs_insert trivial) ?_
    intro result s₄ _
    split <;> exact trivial

end Sequencer

section Node

variable {PublicKey : Type} {node : NodeParams PublicKey} {genesisHash : B256}

theorem safe_of_accept (t : NodeTask) (l : Local t) (s : LoggedState) (x : Input t)
    (s' : LoggedState) (hinv : SoundOnly genesisHash s)
    (haccept : (logged (system node)).accept t l s x s') :
    SoundOnly genesisHash s' ∧
      SafeSound genesisHash t (fun _ _ => True) (handler node t l x) s' := by
  obtain ⟨state', log'⟩ := s'
  obtain ⟨haccept, hlog⟩ := haccept
  simp only at haccept hlog
  subst hlog
  obtain ⟨hforkchoice, hcached, hexecuted, -⟩ := keeps_of_accept haccept
  refine ⟨⟨?_, ?_, ?_⟩, ?_⟩
  · rw [hforkchoice]
    exact hinv.forkchoice
  · rw [hcached]
    exact hinv.cached
  · rw [hexecuted]
    exact hinv.executed
  cases t with
  | main =>
      cases x with
      | confirmation confirmation =>
          exact safe_bind (safe_handleFinalityConfirmation confirmation) fun _ _ _ => trivial
      | ctrlC => exact trivial
  | application =>
      exact guarded.safe_processMessage (fun _ => safe_propose)
        (fun payload _ => safe_applyToReth payload) x
  | finalization => exact safe_processFinalizedBlock _ x.1 x.2
  | batch =>
      exact guarded.safe
        (performs_batchIteration (fun _ => trivial) (fun _ => trivial) (fun _ => trivial) _ l x)
  | headers => exact guarded.safe (performs_processHeader trivial fun _ => trivial)
  | tracking =>
      have htrack : (op (.track x)).Performs (Requires genesisHash (state', s.2)) :=
        Prog.performs_perform trivial
      exact guarded.safe htrack

variable [DecidableEq PublicKey] {indexFile : Option (List Char)} {application : Application}
  {ts : List NodeTransition} {c : NodeConfig}

theorem soundOnly_of_run
    (hrun : Run (Step (system node)) (initial node genesisHash indexFile application) ts c) :
    SoundOnly genesisHash (c.shared, events ts) ∧
      ∀ us tr vs, ts = us ++ tr :: vs → ∀ t o ans, tr.label = .act t ⟨o, ans⟩ →
        Requires genesisHash (tr.pre.shared, events us) o := by
  have hgenesis : Sound genesisHash [] (ForkchoiceState.genesis genesisHash) :=
    ⟨.inl rfl, .inl rfl, .inl rfl⟩
  have hstart : ∀ t, SafeSound genesisHash t (fun _ _ => True)
      ((initial node genesisHash indexFile application).task t)
      (NodeState.initialized genesisHash indexFile, []) := by
    intro t
    cases t with
    | main => exact guarded.safe_startMain fun index block celestiaHeight expectedParent _ _ =>
        safe_syncSingleBlock index block celestiaHeight expectedParent
    | _ => trivial
  refine run_of_safeGuarded rfl safe_of_accept ?_ hstart hrun
  exact ⟨hgenesis, hgenesis, fun _ h => absurd h (Finset.notMem_empty _)⟩

/-- In every run of a node, each forkchoice that reth is told has as head and as safe block
the genesis block, a block whose payload reth was given before and did not refuse, or one that
reth has reported as its head, and has as final block the genesis block or one that reth found
valid. Whatever the node counts as executed reth found valid. -/
theorem known_of_run
    (hrun : Run (Step (system node)) (initial node genesisHash indexFile application) ts c) :
    (∀ before tr after, ts = before ++ tr :: after → ∀ t state attributes ans,
      tr.label = .act t ⟨.forkchoiceUpdated state attributes, ans⟩ →
        Sound genesisHash ((events before).map Prod.snd)
          ⟨state.headBlockHash, state.safeBlockHash, state.finalizedBlockHash⟩) ∧
      Sound genesisHash ((events ts).map Prod.snd) c.shared.forkchoice ∧
      ∀ hash ∈ c.shared.executed, Answered ((events ts).map Prod.snd) hash .valid := by
  obtain ⟨hinv, hrequires⟩ := soundOnly_of_run hrun
  refine ⟨?_, hinv.forkchoice, hinv.executed⟩
  intro before tr after hts t state attributes ans hlabel
  exact hrequires before tr after hts t (.forkchoiceUpdated state attributes) ans hlabel

end Node

section Example

open Rkb.Consensus.ActorRuns (chainBlock genesisConfig)
open Rkb.Node.ExecutedFinality (soleValidator firstBlockBackend firstBlockSchedule)

theorem known_of_run_firstBlock : ∃ ts c, Run (Step (system soleValidator))
    (initial soleValidator FixedBytes.zero none (Application.new genesisConfig)) ts c ∧
      c.shared.forkchoice.finalized = (chainBlock 1).blockHash ∧
      Answered ((events ts).map Prod.snd) (chainBlock 1).blockHash .valid := by
  obtain ⟨ts, c, hrun, hcheck⟩ := exists_run_of_play
    (step_of_playMove (environment_sound soleValidator firstBlockBackend))
    (initial soleValidator FixedBytes.zero none (Application.new genesisConfig))
    firstBlockSchedule
    (fun _ c => decide (c.shared.forkchoice.finalized =
      (chainBlock 1).blockHash)) (by decide +kernel)
  have hfinalized := of_decide_eq_true hcheck
  refine ⟨ts, c, hrun, hfinalized, ?_⟩
  rcases (known_of_run hrun).2.1.finalized with hgenesis | hvalid
  · rw [hfinalized] at hgenesis
    exact absurd hgenesis (by decide)
  · rwa [hfinalized] at hvalid

end Example

end Rkb.Node.KnownBlocks
