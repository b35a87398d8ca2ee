import Rkb.Sequencer.Finalization
import Rkb.Sequencer.SyncEffect

namespace Rkb.Sequencer.FailedUpdates

open Rkb.Library.Bytes
open Rkb.Library.Program
open Rkb.Types.Blocks
open Rkb.Execution.Errors
open Rkb.Execution.Forkchoice
open Rkb.Execution.Payload
open Rkb.Execution.Client
open Rkb.Celestia.Finality
open Rkb.Consensus.ActorRuns
open Rkb.Consensus.FinalizedChain
open Rkb.Sequencer.Finalization
open Rkb.Sequencer.Sync
open Rkb.Sequencer.SyncEffect
open Rkb.Node.Effects
open Rkb.Node.Shared

def engineState (f : ForkchoiceState) : EngineForkchoiceState :=
  ⟨f.head, f.safe, f.finalized⟩

def askedOf : NodeOp → Option EngineForkchoiceState
  | .forkchoiceUpdated state _ => some state
  | _ => none

def asked (tr : List NodeEvent) : List EngineForkchoiceState := tr.filterMap fun e => askedOf e.1

def reportsValid : NodeEvent → Bool
  | ⟨.newPayload _ _ _, response⟩ => validated response
  | _ => false

def acceptsUpdate : NodeEvent → Bool
  | ⟨.forkchoiceUpdated _ _, response⟩ => accepted response
  | _ => false

/-- Reth has reported a payload `VALID` and accepted a forkchoice update. -/
def took (tr : List NodeEvent) : Bool := tr.any reportsValid && tr.any acceptsUpdate

section Traces

variable {tr tr₁ tr₂ : List NodeEvent}

theorem asked_append : asked (tr₁ ++ tr₂) = asked tr₁ ++ asked tr₂ := List.filterMap_append

theorem took_append_left (h : took tr₁ = true) : took (tr₁ ++ tr₂) = true := by
  rw [took, Bool.and_eq_true] at h ⊢
  rw [List.any_append, List.any_append, h.1, h.2]
  exact ⟨rfl, rfl⟩

theorem asked_eq_nil (h : ∀ e ∈ tr, askedOf e.1 = none) : asked tr = [] :=
  List.filterMap_eq_nil_iff.mpr h

end Traces

section Requests

variable {s : NodeState}

theorem halts_executeBlock (block : Block) :
    (executeBlock block).Halts nodeSem s fun tr r s' =>
      s' = s ∧ sent tr = (buildPayload block).toList ∧ asked tr = [] ∧
        tr.any acceptsUpdate = false ∧
        (tr.any reportsValid = true ↔ ∃ result, r = some (.ok result) ∧ result.isValid = true) := by
  unfold executeBlock requestNewPayload
  cases buildPayload block with
  | none =>
      apply Prog.halts_op
      · intro _
        refine ⟨rfl, rfl, rfl, rfl, ?_⟩
        simp
      · exact fun ans => ans.elim
  | some payload =>
      apply Prog.halts_op
      · intro hstuck
        exact absurd rfl (hstuck (.clientError "") s)
      · rintro response s₁ rfl
        cases response with
        | clientError reason =>
            refine Prog.halts_pure ⟨rfl, rfl, rfl, rfl, ?_⟩
            simp [reportsValid, validated]
        | requestError e =>
            refine Prog.halts_pure ⟨rfl, rfl, rfl, rfl, ?_⟩
            simp [reportsValid, validated]
        | answer response =>
            obtain ⟨status, latest⟩ := response
            cases status with
            | valid =>
                refine Prog.halts_pure ⟨rfl, rfl, rfl, rfl, ?_⟩
                exact ⟨fun _ => ⟨_, rfl, rfl⟩, fun _ => rfl⟩
            | invalid reason =>
                refine Prog.halts_pure ⟨rfl, rfl, rfl, rfl, ?_⟩
                simp [reportsValid, validated]
            | syncing =>
                refine Prog.halts_pure ⟨rfl, rfl, rfl, rfl, ?_⟩
                simp [reportsValid, validated, ExecutionResult.isValid]
            | accepted =>
                refine Prog.halts_pure ⟨rfl, rfl, rfl, rfl, ?_⟩
                simp [reportsValid, validated, ExecutionResult.isValid]

theorem halts_updateForkchoice (f : ForkchoiceState) :
    (updateForkchoice f).Halts nodeSem s fun tr r s' =>
      sent tr = [] ∧ asked tr = [engineState f] ∧ tr.any reportsValid = false ∧
        (tr.any acceptsUpdate = true ∧ r = some (.ok ()) ∧ s' = { s with cached := f } ∨
          tr.any acceptsUpdate = false ∧ (∃ e, r = some (.error e)) ∧ s' = s) := by
  have hwritten : ∀ e : NodeEvent, sentOf e.1 = none → askedOf e.1 = some (engineState f) →
      reportsValid e = false → acceptsUpdate e = true →
      (op (.writeCached f) >>= fun _ =>
        (Prog.pure (.ok ()) : NodeProg (Except ExecutionError Unit))).Halts nodeSem s
          fun tr r s' => sent (e :: tr) = [] ∧ asked (e :: tr) = [engineState f] ∧
            (e :: tr).any reportsValid = false ∧
            ((e :: tr).any acceptsUpdate = true ∧ r = some (.ok ()) ∧
                s' = { s with cached := f } ∨
              (e :: tr).any acceptsUpdate = false ∧ (∃ e, r = some (.error e)) ∧ s' = s) := by
    intro e hsent hasked hreports haccepts
    apply Prog.halts_op
    · intro hstuck
      exact absurd rfl (hstuck () _)
    · rintro _ s₁ rfl
      refine Prog.halts_pure ⟨?_, ?_, ?_, .inl ⟨?_, rfl, rfl⟩⟩
      · exact List.filterMap_cons_none hsent
      · exact List.filterMap_cons_some hasked
      · rw [List.any_cons, hreports]
        rfl
      · rw [List.any_cons, haccepts]
        rfl
  unfold updateForkchoice
  apply Prog.halts_op
  · intro hstuck
    exact absurd rfl (hstuck (.clientError "") s)
  · rintro response s₁ rfl
    cases response with
    | clientError reason =>
        exact Prog.halts_pure ⟨rfl, rfl, rfl, .inr ⟨rfl, ⟨_, rfl⟩, rfl⟩⟩
    | requestError e => exact Prog.halts_pure ⟨rfl, rfl, rfl, .inr ⟨rfl, ⟨_, rfl⟩, rfl⟩⟩
    | answer response =>
        obtain ⟨⟨status, latest⟩, payloadId⟩ := response
        cases status with
        | invalid reason =>
            exact Prog.halts_pure ⟨rfl, rfl, rfl, .inr ⟨rfl, ⟨_, rfl⟩, rfl⟩⟩
        | valid => exact hwritten _ rfl rfl rfl rfl
        | syncing => exact hwritten _ rfl rfl rfl rfl
        | accepted => exact hwritten _ rfl rfl rfl rfl

/-- The rule for a program that reads the shared forkchoice, sends what follows from it, and
writes this back where reth accepts it. -/
theorem halts_move {α : Type} (next : ForkchoiceState → ForkchoiceState)
    (k : ForkchoiceState → Except ExecutionError Unit → NodeProg α) (good : α) (bad : α → Prop)
    (herror : ∀ current e, ∃ a, bad a ∧ k current (.error e) = Prog.pure a)
    (hok : ∀ current, k current (.ok ()) =
      .op (.writeForkchoice (next current)) fun _ => .pure good) :
    (op .readForkchoice >>= fun current => updateForkchoice (next current) >>= k current).Halts
      nodeSem s fun tr r s' => sent tr = [] ∧ tr.any reportsValid = false ∧
        (tr.any acceptsUpdate = true ∧ r = some good ∧
            asked tr = [engineState (next s.forkchoice)] ∧
            s' = { s with forkchoice := next s.forkchoice, cached := next s.forkchoice } ∨
          tr.any acceptsUpdate = false ∧ (∃ a, bad a ∧ r = some a) ∧ s' = s) := by
  apply Prog.halts_perform_bind
  · intro hstuck
    exact absurd ⟨rfl, rfl⟩ (hstuck s.forkchoice s)
  · rintro current s₁ ⟨rfl, rfl⟩
    apply Prog.halts_bind
    refine (halts_updateForkchoice _).mono ?_
    rintro tr₁ _ s₂ ⟨hsent, hasked, hreports, ⟨haccepts, rfl, rfl⟩ | ⟨haccepts, ⟨e, rfl⟩, rfl⟩⟩
    · dsimp only
      rw [hok]
      apply Prog.halts_op
      · intro hstuck
        exact absurd rfl (hstuck () _)
      · rintro _ s₃ rfl
        refine Prog.halts_pure ⟨?_, ?_, .inl ⟨?_, rfl, ?_, rfl⟩⟩
        · exact (sent_append tr₁ _).trans (by rw [hsent]; rfl)
        · simp [hreports, reportsValid]
        · simp [haccepts]
        · exact asked_append.trans (by rw [hasked]; rfl)
    · obtain ⟨a, ha, hk⟩ := herror s₂.forkchoice e
      dsimp only
      rw [hk]
      refine Prog.halts_pure ?_
      rw [List.append_nil]
      refine ⟨hsent, ?_, .inr ⟨?_, ⟨a, ha, rfl⟩, rfl⟩⟩
      · simp [hreports, reportsValid]
      · simp [haccepts, acceptsUpdate]

/-- `execute_and_update_forkchoice` and `execute_sync_block`, which differ in the reports of
their errors. -/
def executeThenUpdate (executionContext updateContext : String)
    (invalid : ExecutionResult → Report) (block : Block) (blockHash : B256) :
    NodeProg (Except Report Unit) := do
  match Report.wrapErr ExecutionError.display executionContext (← executeBlock block) with
  | .error e => return .error e
  | .ok result =>
      if !result.isValid then return .error (invalid result)
      else
        let current : ForkchoiceState ← op .readForkchoice
        let newForkchoice := current.withSoft blockHash
        match Report.wrapErr ExecutionError.display updateContext
          (← updateForkchoice newForkchoice) with
        | .error e => return .error e
        | .ok () => do
            let _ ← op (.writeForkchoice newForkchoice)
            return .ok ()

theorem executeAndUpdateForkchoice_eq (block : Block) (blockHash : B256) :
    executeAndUpdateForkchoice block blockHash =
      executeThenUpdate "execution failed" "forkchoice update failed"
        (fun result => .bail ("block invalid: " ++ result.status.debug)) block blockHash := rfl

theorem executeSyncBlock_eq (block : Block) (blockHash : B256) (blockHeight : UInt64) :
    executeSyncBlock block blockHash blockHeight =
      executeThenUpdate ("failed to execute block " ++ toString blockHeight)
        ("failed to update forkchoice for block " ++ toString blockHeight)
        (fun result => .bail ("block " ++ toString blockHeight ++ " invalid during sync: " ++
          result.status.debug)) block blockHash := rfl

theorem halts_executeThenUpdate (executionContext updateContext : String)
    (invalid : ExecutionResult → Report) (block : Block) (blockHash : B256) :
    (executeThenUpdate executionContext updateContext invalid block blockHash).Halts nodeSem s
      fun tr r s' => sent tr = (buildPayload block).toList ∧
        (took tr = true ∧ r = some (.ok ()) ∧
            asked tr = [engineState (s.forkchoice.withSoft blockHash)] ∧
            s' = { s with
              forkchoice := s.forkchoice.withSoft blockHash
              cached := s.forkchoice.withSoft blockHash } ∨
          took tr = false ∧ (∀ u, r ≠ some (.ok u)) ∧ s' = s) := by
  apply Prog.halts_bind
  refine (halts_executeBlock block).mono ?_
  rintro tr₁ r₁ s₁ ⟨rfl, hsent, hasked, hnone, hvalid⟩
  have hfailed : took tr₁ = false := by rw [took, hnone, Bool.and_false]
  cases r₁ with
  | none => exact ⟨hsent, .inr ⟨hfailed, by rintro u ⟨⟩, rfl⟩⟩
  | some result =>
      cases result with
      | error e =>
          refine Prog.halts_pure ?_
          rw [List.append_nil]
          exact ⟨hsent, .inr ⟨hfailed, by rintro u ⟨⟩, rfl⟩⟩
      | ok result =>
          simp only [Report.wrapErr]
          split
          · refine Prog.halts_pure ?_
            rw [List.append_nil]
            exact ⟨hsent, .inr ⟨hfailed, by rintro u ⟨⟩, rfl⟩⟩
          · rename_i hresult
            have hreports : tr₁.any reportsValid = true :=
              hvalid.mpr ⟨result, rfl, by simpa using hresult⟩
            refine (halts_move (fun f => f.withSoft blockHash) _ (.ok ())
              (fun r => ∀ u, r ≠ .ok u) ?_ fun _ => rfl).mono ?_
            · exact fun _ e => ⟨_, by rintro u ⟨⟩, rfl⟩
            · rintro tr₂ r s' ⟨hsent₂, -, hmoved⟩
              refine ⟨by rw [sent_append, hsent, hsent₂, List.append_nil], ?_⟩
              have htook : took (tr₁ ++ tr₂) = tr₂.any acceptsUpdate := by
                rw [took, List.any_append, List.any_append, hreports, hnone]
                rfl
              rw [htook, asked_append, hasked]
              rcases hmoved with ⟨haccepts, rfl, hasked₂, rfl⟩ | ⟨haccepts, ⟨a, ha, rfl⟩, rfl⟩
              · exact .inl ⟨haccepts, rfl, hasked₂, rfl⟩
              · exact .inr ⟨haccepts, fun u h => ha u (Option.some.inj h), rfl⟩

end Requests

section Atomicity

variable {s s' : NodeState} {f : ForkchoiceState} {tr : List NodeEvent}

structure Completes (f : ForkchoiceState) (tr : List NodeEvent) (s' : NodeState) : Prop where
  asked : asked tr = [engineState f]
  cached : s'.cached = f
  shared : s'.forkchoice = f
  safe : f.head = f.safe

structure Untouched (s s' : NodeState) : Prop where
  shared : s'.forkchoice = s.forkchoice
  cached : s'.cached = s.cached
  executed : s'.executed = s.executed

/-- An operation that neither asks reth for an update nor changes a forkchoice. -/
def Aside (o : NodeOp) : Prop :=
  askedOf o = none ∧ ∀ s ans s', nodeSem o s ans s' →
    s'.forkchoice = s.forkchoice ∧ s'.cached = s.cached

theorem aside_queueBlock (block : Block) : Aside (.queueBlock block) := by
  refine ⟨rfl, ?_⟩
  rintro s ans s' (⟨-, rfl⟩ | ⟨-, rfl⟩)
  · exact ⟨rfl, rfl⟩
  · exact ⟨rfl, rfl⟩

theorem aside_submitToCelestia (ctx : FinalizationContext) (block : Block) :
    (submitToCelestia ctx block).Performs Aside := by
  apply performs_submitToCelestia
  · exact aside_queueBlock block
  · intro blobs
    refine ⟨rfl, ?_⟩
    rintro s ans s' rfl
    exact ⟨rfl, rfl⟩
  · intro millis
    refine ⟨rfl, ?_⟩
    rintro s ans s' rfl
    exact ⟨rfl, rfl⟩
  · intro submission _
    refine ⟨rfl, ?_⟩
    rintro s ans s' rfl
    exact ⟨rfl, rfl⟩

theorem Completes.append_aside {s₁ : NodeState} {tr₂ : List NodeEvent} (h : Completes f tr s₁)
    (hshared : s'.forkchoice = s₁.forkchoice) (hcached : s'.cached = s₁.cached)
    (hasked : ∀ e ∈ tr₂, askedOf e.1 = none) : Completes f (tr ++ tr₂) s' where
  asked := by rw [asked_append, h.asked, asked_eq_nil hasked, List.append_nil]
  cached := hcached.trans h.cached
  shared := hshared.trans h.shared
  safe := h.safe

theorem halts_executeSyncBlock (block : Block) (blockHash : B256) (blockHeight : UInt64) :
    (executeSyncBlock block blockHash blockHeight).Halts nodeSem s fun tr r s' =>
      took tr = true ∧ r = some (.ok ()) ∧ Completes (s.forkchoice.withSoft blockHash) tr s' ∨
        took tr = false ∧ (∀ u, r ≠ some (.ok u)) ∧ Untouched s s' := by
  rw [executeSyncBlock_eq]
  refine (halts_executeThenUpdate _ _ _ block blockHash).mono ?_
  rintro tr r s' ⟨-, ⟨htook, hok, hasked, rfl⟩ | ⟨htook, hfailed, rfl⟩⟩
  · exact .inl ⟨htook, hok, hasked, rfl, rfl, rfl⟩
  · exact .inr ⟨htook, hfailed, rfl, rfl, rfl⟩

/-- What comes after the update of a finalized block does not concern the forkchoice. -/
theorem halts_processFinalizedBlock (ctx : FinalizationContext) (block : Block)
    (isLeader : Bool) :
    (processFinalizedBlock ctx block isLeader).Halts nodeSem s fun tr _ s' =>
      took tr = true ∧ Completes (s.forkchoice.withSoft block.blockHash) tr s' ∨
        took tr = false ∧ Untouched s s' := by
  unfold processFinalizedBlock
  rw [executeAndUpdateForkchoice_eq]
  apply Prog.halts_bind
  refine (halts_executeThenUpdate _ _ _ block block.blockHash).mono ?_
  rintro tr₁ r₁ s₁ ⟨-, ⟨htook, rfl, hasked, rfl⟩ | ⟨htook, hfailed, rfl⟩⟩
  · have hupdated : Completes (s.forkchoice.withSoft block.blockHash) tr₁ { s with
        forkchoice := s.forkchoice.withSoft block.blockHash
        cached := s.forkchoice.withSoft block.blockHash } := ⟨hasked, rfl, rfl, rfl⟩
    have hrest : (op (.insertExecuted block.blockHash) >>= fun _ =>
        if isLeader then submitToCelestia ctx block else Pure.pure ()).Performs Aside := by
      have hinsert : Aside (.insertExecuted block.blockHash) := by
        refine ⟨rfl, ?_⟩
        rintro s ans s' rfl
        exact ⟨rfl, rfl⟩
      refine (Prog.performs_perform hinsert).bind fun _ => ?_
      split
      · exact aside_submitToCelestia ctx block
      · exact Prog.performs_pure _
    refine (hrest.halts (J := fun s' => s'.forkchoice = s.forkchoice.withSoft block.blockHash ∧
      s'.cached = s.forkchoice.withSoft block.blockHash) ?_ ⟨rfl, rfl⟩).mono ?_
    · rintro o ho s₂ ans s₃ ⟨hshared, hcached⟩ hsem
      obtain ⟨hshared', hcached'⟩ := ho.2 _ _ _ hsem
      exact ⟨hshared'.trans hshared, hcached'.trans hcached⟩
    · rintro tr₂ _ s' ⟨⟨hshared, hcached⟩, hall⟩
      exact .inl ⟨took_append_left htook,
        hupdated.append_aside hshared hcached fun e he => (hall e he).1⟩
  · have hkept : Untouched s₁ s₁ := ⟨rfl, rfl, rfl⟩
    cases r₁ with
    | none => exact .inr ⟨htook, hkept⟩
    | some result =>
        cases result with
        | error e =>
            refine Prog.halts_pure (.inr ⟨?_, hkept⟩)
            rw [List.append_nil]
            exact htook
        | ok u => exact absurd rfl (hfailed u)

theorem halts_handleFinalityConfirmation (hsafe : s.forkchoice.head = s.forkchoice.safe)
    (confirmation : FinalityConfirmation) :
    (handleFinalityConfirmation confirmation).Halts nodeSem s fun tr _ s' =>
      tr.any acceptsUpdate = true ∧
          Completes (s.forkchoice.withFirm confirmation.blockHash) tr s' ∨
        tr.any acceptsUpdate = false ∧ Untouched s s' := by
  have hkept : Untouched s s := ⟨rfl, rfl, rfl⟩
  apply Prog.halts_op
  · exact fun _ => .inr ⟨rfl, hkept⟩
  · rintro executed s₁ ⟨rfl, rfl⟩
    by_cases hexecuted : confirmation.blockHash ∈ s₁.executed
    · simp only [hexecuted]
      refine (halts_move (fun f => f.withFirm confirmation.blockHash) _ () (fun _ => True) ?_
        fun _ => rfl).mono ?_
      · exact fun _ e => ⟨(), trivial, rfl⟩
      · rintro tr _ s' ⟨-, -, ⟨haccepts, -, hasked, rfl⟩ | ⟨haccepts, -, rfl⟩⟩
        · exact .inl ⟨haccepts, hasked, rfl, rfl, hsafe⟩
        · exact .inr ⟨haccepts, rfl, rfl, rfl⟩
    · simp only [hexecuted]
      exact Prog.halts_pure (.inr ⟨rfl, hkept⟩)

/-- Each of the three operations makes its update as a whole where reth takes it, and leaves
no trace where it does not; `execute_sync_block` returns `Ok` in the first case only. -/
theorem update_completes_or_untouched (s : NodeState)
    (hsafe : s.forkchoice.head = s.forkchoice.safe) :
    (∀ ctx block isLeader, (processFinalizedBlock ctx block isLeader).Halts nodeSem s
      fun tr _ s' => took tr = true ∧ Completes (s.forkchoice.withSoft block.blockHash) tr s' ∨
        took tr = false ∧ Untouched s s') ∧
    (∀ block blockHash blockHeight, (executeSyncBlock block blockHash blockHeight).Halts nodeSem s
      fun tr r s' =>
        took tr = true ∧ r = some (.ok ()) ∧ Completes (s.forkchoice.withSoft blockHash) tr s' ∨
        took tr = false ∧ (∀ u, r ≠ some (.ok u)) ∧ Untouched s s') ∧
    (∀ confirmation, (handleFinalityConfirmation confirmation).Halts nodeSem s
      fun tr _ s' =>
        tr.any acceptsUpdate = true ∧
          Completes (s.forkchoice.withFirm confirmation.blockHash) tr s' ∨
        tr.any acceptsUpdate = false ∧ Untouched s s') :=
  ⟨halts_processFinalizedBlock, halts_executeSyncBlock, halts_handleFinalityConfirmation hsafe⟩

end Atomicity

section Example

def takesHead (head : B256) : Prog.Env NodeOp Ans NodeState
  | .forkchoiceUpdated f a, s =>
      some ((RpcAnswer.answer ⟨⟨if f.headBlockHash = head then .valid else .invalid "unknown head",
        none⟩, none⟩ : Ans (.forkchoiceUpdated f a)), s)
  | o, s => acceptingNode genesisBackend o s

theorem takesHead_sound (head : B256) (o : NodeOp) (s : NodeState) (ans : Ans o) (s' : NodeState)
    (h : takesHead head o s = some (ans, s')) : nodeSem o s ans s' := by
  cases o
  case forkchoiceUpdated f a =>
      cases h
      rfl
  all_goals exact acceptingNode_sound genesisBackend _ _ _ _ h

theorem update_completes_or_untouched_refused :
    (∃ tr r s', (executeSyncBlock (chainBlock 1) (chainBlock 1).blockHash 1).Exec nodeSem
        (NodeState.initialized FixedBytes.zero none) tr r s' ∧ r = .ok () ∧
      Completes ((ForkchoiceState.genesis FixedBytes.zero).withSoft (chainBlock 1).blockHash)
        tr s') ∧
    ∃ tr r s', (executeSyncBlock (chainBlock 2) (chainBlock 2).blockHash 2).Exec nodeSem
        (NodeState.initialized FixedBytes.zero none) tr r s' ∧ r.isOk = false ∧ asked tr ≠ [] ∧
      Untouched (NodeState.initialized FixedBytes.zero none) s' := by
  have hupdates := update_completes_or_untouched (NodeState.initialized FixedBytes.zero none) rfl
  constructor
  · refine (hupdates.2.1 _ _ _).exists_exec (takesHead_sound (chainBlock 1).blockHash)
      (fun tr _ _ => took tr) (by decide +kernel) ?_
    rintro tr r s' (⟨-, hok, hcompletes⟩ | ⟨hrefused, -⟩) htook
    · exact ⟨Option.some.inj hok, hcompletes⟩
    · exact absurd (hrefused.symm.trans htook) Bool.false_ne_true
  · refine (hupdates.2.1 _ _ _).exists_exec (takesHead_sound (chainBlock 1).blockHash)
      (fun tr r _ => decide (r.isOk = false ∧ asked tr ≠ [])) (by decide +kernel) ?_
    rintro tr r s' (⟨-, hok, -⟩ | ⟨-, -, huntouched⟩) hcheck
    · cases hok
      cases hcheck
    · obtain ⟨hfailed, hasked⟩ := of_decide_eq_true hcheck
      exact ⟨hfailed, hasked, huntouched⟩

end Example

end Rkb.Sequencer.FailedUpdates
