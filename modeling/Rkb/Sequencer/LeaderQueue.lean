import Rkb.Consensus.ActorRuns
import Rkb.Sequencer.Finalization

namespace Rkb.Sequencer.LeaderQueue

open Rkb.Library.Bytes
open Rkb.Library.Program
open Rkb.Types.Blocks
open Rkb.Execution.Errors
open Rkb.Execution.Forkchoice
open Rkb.Execution.Payload
open Rkb.Execution.Client
open Rkb.Celestia.Blobs
open Rkb.Consensus.ActorRuns
open Rkb.Sequencer.Finalization
open Rkb.Node.Effects

def processFinalizedBlocks (ctx : FinalizationContext) : List Block → NodeProg Unit
  | [] => return ()
  | block :: blocks => do
      processFinalizedBlock ctx block true
      processFinalizedBlocks ctx blocks

/-- No answer of reth is `INVALID`, and the batch loop takes every block. -/
def Transient : (o : NodeOp) → Ans o → Prop
  | .newPayload _ _ _, .answer response => ∀ reason, response.status ≠ .invalid reason
  | .forkchoiceUpdated _ _, .answer response =>
      ∀ reason, response.payloadStatus.status ≠ .invalid reason
  | .queueBlock _, taken => taken = true
  | _, _ => True

/-- The semantics in which reth may fail in any other way, any number of times. -/
def transientTrouble : Sem NodeOp Ans Unit := anyAnswer.restrict Transient

def queuedOf : NodeEvent → Option Block
  | ⟨.queueBlock block, true⟩ => some block
  | _ => none

def queued (tr : List NodeEvent) : List Block := tr.filterMap queuedOf

/-- What the callback needs of an answer: a payload has to be `VALID`, while a
forkchoice may also be answered by `SYNCING` or `ACCEPTED`. -/
def engineReady : NodeEvent → Bool
  | ⟨.newPayload _ _ _, .answer response⟩ => response.status == .valid
  | ⟨.newPayload _ _ _, _⟩ => false
  | ⟨.forkchoiceUpdated _ _, response⟩ => accepted response
  | _ => true

def HasBloom (block : Block) : Prop := block.logsBloom.toList.length = 256

variable {ctx : FinalizationContext} {block : Block} {blocks : List Block} {tr : List NodeEvent}
  {r : Option Unit}

theorem queued_append (tr₁ tr₂ : List NodeEvent) :
    queued (tr₁ ++ tr₂) = queued tr₁ ++ queued tr₂ :=
  List.filterMap_append

/-- A part of the callback that puts nothing on the channel and returns; it succeeds
exactly when reth was ready at each of its requests. -/
def Settles {ε α : Type} (tr : List NodeEvent) (r : Option (Except ε α)) : Prop :=
  queued tr = [] ∧
    ∃ result, r = some result ∧ ((∃ a, result = .ok a) ↔ ∀ e ∈ tr, engineReady e = true)

/-- The same where the block may also make `Bloom::from_slice` panic. -/
def Attempts {α : Type} (block : Block) (good : α → Prop) (tr : List NodeEvent)
    (r : Option α) : Prop :=
  queued tr = [] ∧
    ((∃ a, r = some a ∧ good a) ↔ HasBloom block ∧ ∀ e ∈ tr, engineReady e = true)

section Rules

variable {ε ε' α β : Type}

theorem settles_ok (a : α) :
    (Prog.pure (.ok a) : NodeProg (Except ε α)).Halts transientTrouble ()
      fun tr r _ => Settles tr r :=
  Prog.halts_pure ⟨rfl, _, rfl, by simp⟩

theorem settles_op (o : NodeOp) {k : Ans o → NodeProg (Except ε α)} (ans : Ans o)
    (htransient : Transient o ans)
    (hquiet : ∀ ans, queuedOf ⟨o, ans⟩ = none ∧ engineReady ⟨o, ans⟩ = true)
    (hk : ∀ ans, (k ans).Halts transientTrouble () fun tr r _ => Settles tr r) :
    (Prog.op o k).Halts transientTrouble () fun tr r _ => Settles tr r := by
  apply Prog.halts_op
  · intro hstuck
    exact absurd ⟨trivial, htransient⟩ (hstuck ans ())
  · intro ans _ _
    refine (hk ans).mono ?_
    rintro tr _ _ ⟨hqueued, result, rfl, hresult⟩
    refine ⟨?_, result, rfl, ?_⟩
    · rw [queued, List.filterMap_cons, (hquiet ans).1]
      exact hqueued
    · rw [hresult, List.forall_mem_cons]
      simp [(hquiet ans).2]

theorem settles_bind {p : NodeProg (Except ε α)} {f : Except ε α → NodeProg (Except ε' β)}
    (hp : p.Halts transientTrouble () fun tr r _ => Settles tr r)
    (herror : ∀ e, ∃ e', f (.error e) = Prog.pure (.error e'))
    (hok : ∀ a, (f (.ok a)).Halts transientTrouble () fun tr r _ => Settles tr r) :
    (p >>= f).Halts transientTrouble () fun tr r _ => Settles tr r := by
  apply Prog.halts_bind
  refine hp.mono ?_
  rintro tr₁ _ ⟨⟩ ⟨hqueued, result, rfl, hresult⟩
  cases result with
  | error e =>
      obtain ⟨e', he'⟩ := herror e
      simp only [he']
      refine Prog.halts_pure ?_
      rw [List.append_nil]
      refine ⟨hqueued, _, rfl, ?_⟩
      rw [← hresult]
      simp
  | ok a =>
      refine (hok a).mono ?_
      rintro tr₂ _ _ ⟨hqueued₂, result₂, rfl, hresult₂⟩
      refine ⟨?_, result₂, rfl, ?_⟩
      · rw [queued_append, hqueued, hqueued₂]
        rfl
      · have hready := hresult.mp ⟨a, rfl⟩
        rw [hresult₂, List.forall_mem_append]
        exact ⟨fun h => ⟨hready, h⟩, And.right⟩

theorem attempts_bind {good : α → Prop} {p : NodeProg α} {f : α → NodeProg (Except ε β)}
    (hp : p.Halts transientTrouble () fun tr r _ => Attempts block good tr r)
    (hbad : ∀ a, ¬ good a → ∃ e, f a = Prog.pure (.error e))
    (hgood : ∀ a, good a → (f a).Halts transientTrouble () fun tr r _ => Settles tr r) :
    (p >>= f).Halts transientTrouble ()
      fun tr r _ => Attempts block (fun result => ∃ b, result = .ok b) tr r := by
  apply Prog.halts_bind
  refine hp.mono ?_
  rintro tr₁ r₁ ⟨⟩ ⟨hqueued, hattempt⟩
  cases r₁ with
  | none =>
      refine ⟨hqueued, ?_⟩
      rw [← hattempt]
      simp
  | some a =>
      by_cases ha : good a
      · refine (hgood a ha).mono ?_
        rintro tr₂ _ _ ⟨hqueued₂, result, rfl, hresult⟩
        obtain ⟨hbloom, hready⟩ := hattempt.mp ⟨a, rfl, ha⟩
        refine ⟨?_, ?_⟩
        · rw [queued_append, hqueued, hqueued₂]
          rfl
        · rw [List.forall_mem_append]
          simp only [Option.some.injEq, exists_eq_left', hresult]
          exact ⟨fun h => ⟨hbloom, hready, h⟩, fun h => h.2.2⟩
      · obtain ⟨e, he⟩ := hbad a ha
        simp only [he]
        refine Prog.halts_pure ?_
        rw [List.append_nil]
        refine ⟨hqueued, ?_⟩
        rw [← hattempt]
        simp [ha]

end Rules

def Executed (r : Except ExecutionError ExecutionResult) : Prop :=
  ∃ result, r = .ok result ∧ result.isValid = true

theorem halts_executeBlock (block : Block) :
    (executeBlock block).Halts transientTrouble () fun tr r _ => Attempts block Executed tr r := by
  unfold executeBlock
  have hbloom : (buildPayload block).isSome = true ↔ HasBloom block := buildPayload_isSome
  cases hbuild : buildPayload block with
  | none =>
      have hnot : ¬ HasBloom block := by
        intro h
        rw [hbuild] at hbloom
        cases hbloom.mpr h
      apply Prog.halts_op
      · intro _
        refine ⟨rfl, ?_⟩
        simp [hnot]
      · intro ans
        exact ans.elim
  | some payload =>
      have hhas : HasBloom block := by
        apply hbloom.mp
        rw [hbuild]
        rfl
      apply Prog.halts_op
      · intro hnone
        exact absurd ⟨trivial, trivial⟩ (hnone (.clientError "") ())
      · intro response _ hresponse
        cases response with
        | clientError reason =>
            refine Prog.halts_pure ⟨rfl, ?_⟩
            simp [Executed, engineReady]
        | requestError e =>
            refine Prog.halts_pure ⟨rfl, ?_⟩
            simp [Executed, engineReady]
        | answer response =>
            have hvalid := hresponse.2
            simp only [Transient] at hvalid
            obtain ⟨status, hash⟩ := response
            cases status with
            | valid =>
                refine Prog.halts_pure ⟨rfl, ?_⟩
                simp [Executed, engineReady, hhas, ExecutionResult.isValid]
            | invalid reason => exact absurd rfl (hvalid reason)
            | syncing =>
                refine Prog.halts_pure ⟨rfl, ?_⟩
                simp [Executed, engineReady, ExecutionResult.isValid]
            | accepted =>
                refine Prog.halts_pure ⟨rfl, ?_⟩
                simp [Executed, engineReady, ExecutionResult.isValid]

theorem halts_updateForkchoice (state : ForkchoiceState) :
    (updateForkchoice state).Halts transientTrouble () fun tr r _ => Settles tr r := by
  -- an accepted request is followed by a write of the cached state
  have hwritten : ∀ e : NodeEvent, engineReady e = true → queuedOf e = none →
      (op (.writeCached state) >>= fun _ =>
        (Prog.pure (.ok ()) : NodeProg (Except ExecutionError Unit))).Halts transientTrouble ()
          fun tr r _ => Settles (e :: tr) r := by
    intro e hready hnone
    refine (settles_op (.writeCached state) () trivial (fun _ => ⟨rfl, rfl⟩)
      fun _ => settles_ok ()).mono ?_
    rintro tr _ _ ⟨hqueued, result, rfl, hresult⟩
    refine ⟨?_, result, rfl, ?_⟩
    · rw [queued, List.filterMap_cons, hnone]
      exact hqueued
    · rw [hresult, List.forall_mem_cons]
      simp [hready]
  unfold updateForkchoice
  apply Prog.halts_op
  · intro hstuck
    exact absurd ⟨trivial, trivial⟩ (hstuck (.clientError "") ())
  · intro response _ hresponse
    cases response with
    | clientError reason =>
        refine Prog.halts_pure ⟨rfl, _, rfl, ?_⟩
        simp [engineReady, accepted]
    | requestError e =>
        refine Prog.halts_pure ⟨rfl, _, rfl, ?_⟩
        simp [engineReady, accepted]
    | answer response =>
        have hvalid := hresponse.2
        simp only [Transient] at hvalid
        obtain ⟨⟨status, hash⟩, payloadId⟩ := response
        cases status with
        | valid => exact hwritten _ rfl rfl
        | invalid reason => exact absurd rfl (hvalid reason)
        | syncing => exact hwritten _ rfl rfl
        | accepted => exact hwritten _ rfl rfl

theorem halts_executeAndUpdateForkchoice (block : Block) :
    (executeAndUpdateForkchoice block block.blockHash).Halts transientTrouble ()
      fun tr r _ => Attempts block (fun result => ∃ a, result = .ok a) tr r := by
  refine attempts_bind (halts_executeBlock block) ?_ ?_
  · intro r hr
    cases r with
    | error e => exact ⟨_, rfl⟩
    | ok result =>
        cases hvalid : result.isValid with
        | true => exact absurd ⟨result, rfl, hvalid⟩ hr
        | false =>
            simp only [Report.wrapErr, hvalid, Bool.not_false, if_true]
            exact ⟨_, rfl⟩
  · rintro _ ⟨result, rfl, hvalid⟩
    simp only [Report.wrapErr, hvalid, Bool.not_true, Bool.false_eq_true, if_false]
    refine settles_op .readForkchoice (ForkchoiceState.genesis FixedBytes.zero) trivial
      (fun _ => ⟨rfl, rfl⟩) ?_
    intro current
    refine settles_bind (halts_updateForkchoice _) ?_ ?_
    · intro e
      exact ⟨_, rfl⟩
    · intro _
      exact settles_op (.writeForkchoice _) () trivial (fun _ => ⟨rfl, rfl⟩) fun _ => settles_ok ()

/-- One finalized block: it is put on the channel exactly when nothing went wrong. -/
theorem halts_processFinalizedBlock (hctx : ctx.batchTx = true ∧ ctx.batchEnabled = true)
    (block : Block) :
    (processFinalizedBlock ctx block true).Halts transientTrouble () fun tr r _ =>
      (queued tr = [block] ∧ r = some () ∧ HasBloom block ∧ ∀ e ∈ tr, engineReady e = true) ∨
        (queued tr = [] ∧ ¬ (HasBloom block ∧ ∀ e ∈ tr, engineReady e = true)) := by
  apply Prog.halts_bind
  refine (halts_executeAndUpdateForkchoice block).mono ?_
  rintro tr₁ r₁ ⟨⟩ ⟨hqueued, hattempt⟩
  cases r₁ with
  | none =>
      refine .inr ⟨hqueued, ?_⟩
      rw [← hattempt]
      simp
  | some result =>
      cases result with
      | error e =>
          refine Prog.halts_pure (.inr ⟨?_, ?_⟩)
          · rw [List.append_nil]
            exact hqueued
          · rw [List.append_nil, ← hattempt]
            simp
      | ok _ =>
          obtain ⟨hbloom, hready⟩ := hattempt.mp ⟨_, rfl, (), rfl⟩
          simp only [if_true, submitToCelestia, queueForBatch, hctx.1, hctx.2, Bool.not_true,
            Bool.false_eq_true, if_false]
          apply Prog.halts_op
          · intro hstuck
            exact absurd ⟨trivial, trivial⟩ (hstuck () ())
          · intro _ _ _
            apply Prog.halts_op
            · intro hstuck
              exact absurd ⟨trivial, rfl⟩ (hstuck true ())
            · rintro taken _ ⟨-, rfl⟩
              refine Prog.halts_pure (.inl ⟨?_, rfl, hbloom, ?_⟩)
              · rw [queued_append, hqueued]
                rfl
              · rw [List.forall_mem_append]
                refine ⟨hready, ?_⟩
                simp [engineReady]

theorem halts_processFinalizedBlocks (hctx : ctx.batchTx = true ∧ ctx.batchEnabled = true)
    (blocks : List Block) :
    (processFinalizedBlocks ctx blocks).Halts transientTrouble () fun tr _ _ =>
      (queued tr).length ≤ blocks.length ∧
        (queued tr = blocks ↔
          (∀ block ∈ blocks, HasBloom block) ∧ ∀ e ∈ tr, engineReady e = true) := by
  induction blocks with
  | nil =>
      refine Prog.halts_pure ⟨le_rfl, ?_⟩
      simp [queued]
  | cons block blocks ih =>
      apply Prog.halts_bind
      refine (halts_processFinalizedBlock hctx block).mono ?_
      rintro tr₁ r₁ ⟨⟩ (⟨hqueued, rfl, hbloom, hready⟩ | ⟨hqueued, hnot⟩)
      · refine ih.mono ?_
        rintro tr₂ _ _ ⟨hlength, hiff⟩
        rw [queued_append, hqueued, List.singleton_append, List.length_cons, List.length_cons,
          List.cons.injEq, List.forall_mem_cons, List.forall_mem_append, hiff]
        refine ⟨Nat.succ_le_succ hlength, ?_⟩
        constructor
        · rintro ⟨-, hblooms, hready₂⟩
          exact ⟨⟨hbloom, hblooms⟩, hready, hready₂⟩
        · rintro ⟨⟨-, hblooms⟩, -, hready₂⟩
          exact ⟨rfl, hblooms, hready₂⟩
      · -- the block is missing, and what follows cannot make up for it
        have hmissing : ∀ tr₂ : List NodeEvent, (queued tr₂).length ≤ blocks.length →
            (queued (tr₁ ++ tr₂)).length ≤ (block :: blocks).length ∧
              (queued (tr₁ ++ tr₂) = block :: blocks ↔
                (∀ b ∈ block :: blocks, HasBloom b) ∧
                  ∀ e ∈ tr₁ ++ tr₂, engineReady e = true) := by
          intro tr₂ hlength
          rw [queued_append, hqueued, List.nil_append, List.length_cons]
          refine ⟨by omega, ?_⟩
          constructor
          · intro heq
            rw [heq, List.length_cons] at hlength
            omega
          · rintro ⟨hblooms, hready⟩
            rw [List.forall_mem_append] at hready
            exact absurd ⟨hblooms block List.mem_cons_self, hready.1⟩ hnot
        cases r₁ with
        | none =>
            have hstopped := hmissing [] (Nat.zero_le _)
            rw [List.append_nil] at hstopped
            exact hstopped
        | some _ => exact ih.mono fun tr₂ _ _ h => hmissing tr₂ h.1

/-- While reth answers no `INVALID`, the leader queues all the finalized blocks in
order exactly when reth was ready at every request and no block makes it panic. -/
theorem queued_eq_iff_engineReady (hctx : ctx.batchTx = true ∧ ctx.batchEnabled = true)
    (hrun : (processFinalizedBlocks ctx blocks).Stops transientTrouble () tr r ()) :
    queued tr = blocks ↔
      (∀ block ∈ blocks, HasBloom block) ∧ ∀ e ∈ tr, engineReady e = true :=
  (halts_processFinalizedBlocks hctx blocks tr r () hrun).2

section Examples

def batching : FinalizationContext where
  celestia := digestClient
  batchTx := true
  batchEnabled := true

def payloadEnv (response : RpcAnswer PayloadStatus) : Prog.Env NodeOp Ans Unit
  | .newPayload p v r, s => some ((response : Ans (.newPayload p v r)), s)
  | .forkchoiceUpdated f a, s =>
      some ((RpcAnswer.answer ⟨⟨.syncing, none⟩, none⟩ : Ans (.forkchoiceUpdated f a)), s)
  | .readForkchoice, s =>
      some ((ForkchoiceState.genesis FixedBytes.zero : Ans .readForkchoice), s)
  | .writeForkchoice f, s => some ((() : Ans (.writeForkchoice f)), s)
  | .writeCached f, s => some ((() : Ans (.writeCached f)), s)
  | .insertExecuted b, s => some ((() : Ans (.insertExecuted b)), s)
  | .queueBlock b, s => some ((true : Ans (.queueBlock b)), s)
  | _, _ => none

theorem transient_payloadEnv {response : RpcAnswer PayloadStatus}
    (hresponse : ∀ status, response = .answer status → ∀ reason, status.status ≠ .invalid reason)
    (o : NodeOp) (s : Unit) (ans : Ans o) (s' : Unit)
    (h : payloadEnv response o s = some (ans, s')) : transientTrouble o s ans s' := by
  refine ⟨trivial, ?_⟩
  cases o with
  | newPayload p v r =>
      cases h
      cases response with
      | answer status => exact hresponse status rfl
      | clientError _ => trivial
      | requestError _ => trivial
  | forkchoiceUpdated f a =>
      cases h
      simp [Transient]
  | queueBlock b =>
      cases h
      rfl
  | _ => trivial

theorem exists_stops {response : RpcAnswer PayloadStatus}
    (hresponse : ∀ status, response = .answer status → ∀ reason, status.status ≠ .invalid reason)
    (blocks : List Block) (check : List NodeEvent → Bool)
    (h : ((processFinalizedBlocks batching blocks).run (payloadEnv response) ()).any
      (fun r => check r.1) = true) :
    ∃ tr, (processFinalizedBlocks batching blocks).Stops transientTrouble () tr (some ()) () ∧
      check tr = true := by
  obtain ⟨tr, ⟨⟩, ⟨⟩, hexec, hcheck⟩ := Prog.exists_exec_of_check
    (transient_payloadEnv hresponse) (processFinalizedBlocks batching blocks) ()
    (fun tr _ _ => check tr) h
  exact ⟨tr, hexec.stops, hcheck⟩

theorem hasBloom_chainBlock (n : Nat) : HasBloom (chainBlock n) := List.length_replicate

theorem queued_eq_iff_engineReady_twoBlocks :
    ∃ tr, (processFinalizedBlocks batching [chainBlock 1, chainBlock 2]).Stops
        transientTrouble () tr (some ()) () ∧
      queued tr = [chainBlock 1, chainBlock 2] := by
  obtain ⟨tr, hstops, hcheck⟩ := @exists_stops (.answer ⟨.valid, none⟩) (by simp)
    [chainBlock 1, chainBlock 2] (fun tr => decide (∀ e ∈ tr, engineReady e = true))
    (by decide +kernel)
  refine ⟨tr, hstops, (queued_eq_iff_engineReady ⟨rfl, rfl⟩ hstops).mpr ?_⟩
  refine ⟨?_, of_decide_eq_true hcheck⟩
  simp [hasBloom_chainBlock]

theorem transient_trouble_not_queued :
    HasBloom (chainBlock 1) ∧
      ∀ response ∈ ([.requestError "timeout", .answer ⟨.syncing, none⟩,
          .answer ⟨.accepted, none⟩] : List (RpcAnswer PayloadStatus)),
        ∃ tr, (processFinalizedBlocks batching [chainBlock 1]).Stops
            transientTrouble () tr (some ()) () ∧
          queued tr ≠ [chainBlock 1] := by
  refine ⟨hasBloom_chainBlock 1, ?_⟩
  intro response hmem
  have hresponse : ∀ status, response = .answer status →
      ∀ reason, status.status ≠ .invalid reason := by
    rintro status rfl reason
    simp only [List.mem_cons, List.not_mem_nil, or_false] at hmem
    rcases hmem with hmem | hmem | hmem
    · cases hmem
    · cases hmem
      simp
    · cases hmem
      simp
  obtain ⟨tr, hstops, hcheck⟩ := exists_stops hresponse [chainBlock 1]
    (fun tr => decide (queued tr ≠ [chainBlock 1])) (by
      simp only [List.mem_cons, List.not_mem_nil, or_false] at hmem
      rcases hmem with rfl | rfl | rfl
      · decide +kernel
      · decide +kernel
      · decide +kernel)
  exact ⟨tr, hstops, of_decide_eq_true hcheck⟩

end Examples

end Rkb.Sequencer.LeaderQueue
