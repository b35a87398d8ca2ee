import Rkb.Consensus.Actor

/-!
What processing one message can do to the application actor, for any answers of
reth and the clock. The results about whole runs use this inversion only.
-/

namespace Rkb.Consensus.ActorSteps

open Rkb.Library.Maps
open Rkb.Library.Program
open Rkb.Types.Blocks
open Rkb.Library.Bytes
open Rkb.Execution.Forkchoice
open Rkb.Execution.Payload
open Rkb.Execution.Client
open Rkb.Consensus.Messages
open Rkb.Consensus.Actor
open Rkb.Node.Effects

def broadcastOf : NodeOp → Option Block
  | .broadcastBlock block => some block
  | _ => none

def relayOf : NodeOp → Option ProposedBlock
  | .relayBlock proposed => some proposed
  | _ => none

def broadcasts (tr : List NodeEvent) : List Block := tr.filterMap fun e => broadcastOf e.1

def relayed (tr : List NodeEvent) : List ProposedBlock := tr.filterMap fun e => relayOf e.1

def Silent (tr : List NodeEvent) : Prop := broadcasts tr = [] ∧ relayed tr = []

def Internal (o : NodeOp) : Prop := broadcastOf o = none ∧ relayOf o = none

theorem silent_of_internal {tr : List NodeEvent} (h : ∀ e ∈ tr, Internal e.1) : Silent tr := by
  refine ⟨?_, ?_⟩
  · exact List.filterMap_eq_nil_iff.mpr fun e he => (h e he).1
  · exact List.filterMap_eq_nil_iff.mpr fun e he => (h e he).2

/-- The operation sends reth no other payload than the given one, and makes no
other block the head. -/
def SendsOnly (payload : Option BuiltPayload) : NodeOp → Prop
  | .newPayload sent _ _ => ∃ built, payload = some built ∧ built.toExecutionPayload = some sent
  | .forkchoiceUpdated state _ =>
      ∃ built, payload = some built ∧ state.headBlockHash = built.blockHash
  | _ => True

variable (sha256 : List UInt8 → AppDigest)

def proposedBlock (payload : BuiltPayload) : ProposedBlock where
  digest := computeDigest sha256 payload.blockHash
  block := buildBlockFromPayload payload
  payload := payload

def withProposal (self : Application) (payload : BuiltPayload) : Application :=
  let proposed := proposedBlock sha256 payload
  { self with
    pendingBlocks := self.pendingBlocks.insert proposed.digest proposed.block
    pendingPayloads := self.pendingPayloads.insert proposed.digest proposed.payload
    verified := insert proposed.digest self.verified
    lastProposedHeight := some self.height }

def dropped (self : Application) (digest : AppDigest) : Application :=
  { self with
    pendingBlocks := self.pendingBlocks.erase digest
    pendingPayloads := self.pendingPayloads.erase digest }

def advanced (self : Application) (digest : AppDigest) (block : Block) : Application :=
  { dropped self digest with
    height := block.height + 1
    lastHash := block.blockHash }.cleanupStaleBlocks

def stored (self : Application) (digest : AppDigest) (block : Block) (payload : BuiltPayload)
    (verified : Finset AppDigest) : Application :=
  { self with
    pendingBlocks := self.pendingBlocks.insert digest block
    pendingPayloads := self.pendingPayloads.insert digest payload
    verified := verified }

section States

variable {self : Application} {digest k : AppDigest} {block b : Block} {payload : BuiltPayload}
  {v : Finset AppDigest}

theorem lookup_dropped :
    (dropped self digest).pendingBlocks.lookup k =
      if k = digest then none else self.pendingBlocks.lookup k :=
  lookup_erase _ _ _

theorem lookup_stored :
    (stored self digest block payload v).pendingBlocks.lookup k =
      if k = digest then some block else self.pendingBlocks.lookup k :=
  lookup_insert _ _ _ _

theorem lookup_withProposal :
    (withProposal sha256 self payload).pendingBlocks.lookup k =
      if k = computeDigest sha256 payload.blockHash then some (buildBlockFromPayload payload)
      else self.pendingBlocks.lookup k :=
  lookup_insert _ _ _ _

@[simp] theorem advanced_height : (advanced self digest block).height = block.height + 1 := rfl

@[simp] theorem advanced_lastHash : (advanced self digest block).lastHash = block.blockHash := rfl

theorem lookup_advanced :
    (advanced self digest block).pendingBlocks.lookup k = some b ↔
      k ≠ digest ∧ self.pendingBlocks.lookup k = some b ∧ ¬ b.height < block.height + 1 := by
  simp only [advanced, Application.cleanupStaleBlocks, lookup_retain, Option.filter_eq_some_iff,
    Application.isStale, dropped, lookup_erase]
  split
  · simp_all
  · constructor
    · rintro ⟨hlookup, hstale⟩
      simp_all
    · rintro ⟨hne, hlookup, hheight⟩
      simp_all

theorem payload_advanced (h : (advanced self digest block).pendingBlocks.lookup k = some b) :
    (advanced self digest block).pendingPayloads.lookup k = self.pendingPayloads.lookup k := by
  obtain ⟨hne, hlookup, hheight⟩ := lookup_advanced.mp h
  simp only [advanced, Application.cleanupStaleBlocks, lookup_retain, Application.isStale,
    dropped, lookup_erase, if_neg hne, hlookup, decide_eq_false hheight, Bool.not_false]
  cases self.pendingPayloads.lookup k <;> rfl

/-- Every pending block has a payload stored beside it, and `R` holds of the two
and their digest. -/
def Pairs (R : AppDigest → Block → BuiltPayload → Prop) (self : Application) : Prop :=
  ∀ d b, self.pendingBlocks.lookup d = some b →
    ∃ p, self.pendingPayloads.lookup d = some p ∧ R d b p

variable {R : AppDigest → Block → BuiltPayload → Prop}

theorem pairs_new (config : ApplicationConfig) : Pairs R (Application.new config) := by
  intro d b h
  simp [Application.new] at h

theorem Pairs.stored (hself : Pairs R self) (hR : R digest block payload) :
    Pairs R (stored self digest block payload v) := by
  intro k b h
  rw [lookup_stored] at h
  simp only [ActorSteps.stored, lookup_insert]
  split at h
  · rename_i hk
    rw [if_pos hk, hk, ← Option.some.inj h]
    exact ⟨payload, rfl, hR⟩
  · rename_i hk
    rw [if_neg hk]
    exact hself k b h

theorem Pairs.dropped (hself : Pairs R self) : Pairs R (dropped self digest) := by
  intro k b h
  rw [lookup_dropped] at h
  simp only [ActorSteps.dropped, lookup_erase]
  split at h
  · cases h
  · rename_i hk
    rw [if_neg hk]
    exact hself k b h

theorem Pairs.unknown (hself : Pairs R self) (hlookup : self.pendingBlocks.lookup digest = none) :
    Pairs R { self with pendingPayloads := self.pendingPayloads.erase digest } := by
  intro k b h
  have hne : k ≠ digest := by
    rintro rfl
    rw [hlookup] at h
    cases h
  rw [lookup_erase, if_neg hne]
  exact hself k b h

theorem Pairs.advanced (hself : Pairs R self) : Pairs R (advanced self digest block) := by
  intro k b h
  rw [payload_advanced h]
  exact hself k b (lookup_advanced.mp h).2.1

end States

inductive Outcome (self : Application) : Message → List NodeEvent → Application → Prop
  | genesis {epoch : UInt64} {tr : List NodeEvent} (verified : Finset AppDigest) :
      Silent tr → Outcome self (.genesis epoch) tr { self with verified := verified }
  | proposedNull {tr : List NodeEvent} : Silent tr → Outcome self .propose tr self
  | proposed {tr : List NodeEvent} (payload : BuiltPayload) :
      broadcasts tr = [] → relayed tr = [proposedBlock sha256 payload] →
      Outcome self .propose tr (withProposal sha256 self payload)
  | verified {payload : AppDigest} {tr : List NodeEvent} (verified : Finset AppDigest) :
      Silent tr → Outcome self (.verify payload) tr { self with verified := verified }
  | broadcast {payload : AppDigest} : Outcome self (.broadcast payload) [] self
  | unknown {digest : AppDigest} :
      self.pendingBlocks.lookup digest = none →
      Outcome self (.finalize digest) []
        { self with pendingPayloads := self.pendingPayloads.erase digest }
  | wrongHeight {digest : AppDigest} {block : Block} :
      self.pendingBlocks.lookup digest = some block → block.height ≠ self.height →
      Outcome self (.finalize digest) [] (dropped self digest)
  | finalized {digest : AppDigest} {block : Block} {tr : List NodeEvent} :
      self.pendingBlocks.lookup digest = some block → block.height = self.height →
      broadcasts tr = [block] → relayed tr = [] →
      (∀ e ∈ tr, SendsOnly (self.pendingPayloads.lookup digest) e.1) →
      Outcome self (.finalize digest) tr (advanced self digest block)
  | alreadyPending {digest : AppDigest} {block : Block} {payload : BuiltPayload} :
      digest ∈ self.pendingBlocks →
      Outcome self (.receiveBlock digest block payload) [] self
  | received {digest : AppDigest} {block : Block} {payload : BuiltPayload}
      {tr : List NodeEvent} (verified : Finset AppDigest) :
      digest ∉ self.pendingBlocks → Silent tr →
      Outcome self (.receiveBlock digest block payload) tr
        (stored self digest block payload verified)

theorem Pairs.outcome {sha256 : List UInt8 → AppDigest}
    {R : AppDigest → Block → BuiltPayload → Prop} {self self' : Application}
    {message : Message} {tr : List NodeEvent} (hself : Pairs R self)
    (h : Outcome sha256 self message tr self')
    (hreceive : ∀ d b p, message = .receiveBlock d b p → d ∉ self.pendingBlocks → R d b p)
    (hpropose : ∀ proposed ∈ relayed tr, R proposed.digest proposed.block proposed.payload) :
    Pairs R self' := by
  cases h with
  | genesis _ _ => exact hself
  | proposedNull _ => exact hself
  | proposed payload _ hrelay =>
      have hR := hpropose (proposedBlock sha256 payload) (by rw [hrelay]; exact List.mem_cons_self)
      exact Pairs.stored (v := ∅) hself hR
  | verified _ _ => exact hself
  | broadcast => exact hself
  | unknown hlookup => exact hself.unknown hlookup
  | wrongHeight _ _ => exact hself.dropped
  | finalized _ _ _ _ _ => exact hself.advanced
  | alreadyPending _ => exact hself
  | received _ hpending _ => exact hself.stored (hreceive _ _ _ rfl hpending)

variable {S : Type} {sem : Sem NodeOp Ans S} {s : S} {self : Application}

theorem performs_waitForRethSyncLoop {P : NodeOp → Prop} (hhead : P .getHead)
    (hsleep : P (.sleep 100)) (attempts : Nat) :
    (self.waitForRethSyncLoop attempts).Performs P := by
  induction attempts with
  | zero => exact Prog.performs_pure _
  | succ attempts ih =>
      have hagain : (op (.sleep 100) >>= fun _ =>
          self.waitForRethSyncLoop attempts).Performs P :=
        (Prog.performs_perform hsleep).bind fun _ => ih
      have hquery : queryRethHead.Performs P := by
        refine (performs_getHead hhead).bind fun response => ?_
        cases response with
        | error e => exact Prog.performs_pure _
        | ok head => exact Prog.performs_pure _
      refine hquery.bind fun head => ?_
      cases head with
      | none => exact hagain
      | some head =>
          simp only
          split
          · exact Prog.performs_pure _
          · exact hagain
          · exact Prog.performs_pure _

theorem performs_canBuildBlock {P : NodeOp → Prop} (hnow : P .now) (blockTiming : BlockTiming)
    (parentTimestamp : UInt64) : (canBuildBlock blockTiming parentTimestamp).Performs P := by
  refine (Prog.performs_perform hnow).bind fun now => ?_
  cases blockTiming with
  | vanilla => exact Prog.performs_pure _
  | subsecond => exact Prog.performs_pure _

theorem performs_buildViaReth {P : NodeOp → Prop} {timestamp : UInt64} (hread : P .readCached)
    (hrequest : ∀ f, P (.forkchoiceUpdated (buildForkchoiceState self.lastHash f)
      (some (buildPayloadAttributes self.lastHash timestamp self.proposer))))
    (hpanic : P (.panic "Uint::to")) (hpayload : ∀ payloadId, P (.getPayload payloadId)) :
    (self.buildViaReth timestamp).Performs P := by
  refine (performs_startBuilding hread hrequest).bind fun response => ?_
  cases response with
  | error e => exact Prog.performs_pure _
  | ok payloadId =>
      refine (performs_getPayload hpanic (hpayload payloadId)).bind fun response => ?_
      cases response with
      | error e => exact Prog.performs_pure _
      | ok payload => exact Prog.performs_pure _

theorem internal_buildViaReth (timestamp : UInt64) :
    (self.buildViaReth timestamp).Performs Internal :=
  performs_buildViaReth ⟨rfl, rfl⟩ (fun _ => ⟨rfl, rfl⟩) ⟨rfl, rfl⟩ fun _ => ⟨rfl, rfl⟩

/-- The time at which `propose` asks reth to build; `none` where it does not. -/
def timeToBuild (self : Application) : NodeProg (Option UInt64) := do
  if self.alreadyProposedAtHeight then return none
  else
    match ← self.waitForRethSync with
    | .failed => return none
    | .synced parentTimestamp =>
        if !(← canBuildBlock self.blockTiming parentTimestamp) then return none
        else return some (← wallClockTimestamp)

def buildAt (self : Application) : Option UInt64 → NodeProg (AppDigest × Application)
  | none => return (nullProposalDigest, self)
  | some timestamp => do
      match ← self.buildViaReth timestamp with
      | some payload => self.completeProposal sha256 payload
      | none => return (nullProposalDigest, self)

theorem propose_eq : self.propose sha256 = timeToBuild self >>= buildAt sha256 self := by
  unfold Application.propose timeToBuild
  split
  · rfl
  · refine Eq.trans ?_ (Prog.bind_assoc _ _ _).symm
    congr 1
    funext result
    cases result with
    | failed => rfl
    | synced parentTimestamp =>
        refine Eq.trans ?_ (Prog.bind_assoc _ _ _).symm
        refine congrArg (canBuildBlock self.blockTiming parentTimestamp >>= ·) ?_
        funext canBuild
        cases canBuild with
        | false => rfl
        | true => rfl

theorem performs_timeToBuild {P : NodeOp → Prop} (hhead : P .getHead) (hsleep : P (.sleep 100))
    (hnow : P .now) : (timeToBuild self).Performs P := by
  unfold timeToBuild
  split
  · exact Prog.performs_pure _
  · refine (performs_waitForRethSyncLoop hhead hsleep 10).bind fun result => ?_
    cases result with
    | failed => exact Prog.performs_pure _
    | synced parentTimestamp =>
        refine (performs_canBuildBlock hnow _ _).bind fun canBuild => ?_
        cases canBuild with
        | false => exact Prog.performs_pure _
        | true => exact (Prog.performs_perform hnow).bind fun _ => Prog.performs_pure _

theorem performs_propose {P : NodeOp → Prop} {R : BuiltPayload → Prop} (hhead : P .getHead)
    (hsleep : P (.sleep 100)) (hnow : P .now)
    (hbuild : ∀ timestamp, (self.buildViaReth timestamp).Performs P)
    (hreturns : ∀ timestamp,
      (self.buildViaReth timestamp).Returns fun r => ∀ built, r = some built → R built)
    (hrelay : ∀ built, R built → P (.relayBlock (proposedBlock sha256 built))) :
    (self.propose sha256).Performs P := by
  rw [propose_eq]
  refine (performs_timeToBuild hhead hsleep hnow).bind fun timestamp => ?_
  cases timestamp with
  | none => exact Prog.performs_pure _
  | some timestamp =>
      refine (hbuild timestamp).bind_of_returns (hreturns timestamp) fun built hbuilt => ?_
      cases built with
      | none => exact Prog.performs_pure _
      | some built => exact ⟨hrelay built (hbuilt built rfl), fun _ => Prog.performs_pure _⟩

/-- A program of internal operations followed by one that ends as `Q` says of a
trace without visible events in front. -/
theorem ensures_internal_bind {α β : Type} {p : NodeProg α} {f : α → NodeProg β}
    {Q : List NodeEvent → β → S → Prop} (hp : p.Performs Internal)
    (hf : ∀ a s₁ tr₁, Silent tr₁ →
      (f a).Ensures sem s₁ fun tr₂ b s₂ => Q (tr₁ ++ tr₂) b s₂) :
    (p >>= f).Ensures sem s Q := by
  refine Prog.ensures_bind.mpr ((hp.ensures s).mono fun tr₁ a s₁ htr => ?_)
  exact hf a s₁ tr₁ (silent_of_internal htr)

theorem silent_append {tr₁ tr₂ : List NodeEvent} :
    Silent (tr₁ ++ tr₂) ↔ Silent tr₁ ∧ Silent tr₂ := by
  simp only [Silent, broadcasts, relayed, List.filterMap_append, List.append_eq_nil_iff]
  tauto

/-- What `propose` returns: the null digest and no change, or a completed proposal. -/
def ProposeResult (self : Application) (tr : List NodeEvent)
    (r : AppDigest × Application) : Prop :=
  (Silent tr ∧ r = (nullProposalDigest, self)) ∨
    ∃ payload, broadcasts tr = [] ∧ relayed tr = [proposedBlock sha256 payload] ∧
      r = ((proposedBlock sha256 payload).digest, withProposal sha256 self payload)

theorem proposeResult_append {tr₁ tr₂ : List NodeEvent} {r : AppDigest × Application}
    (hsilent : Silent tr₁) (h : ProposeResult sha256 self tr₂ r) :
    ProposeResult sha256 self (tr₁ ++ tr₂) r := by
  obtain ⟨hbroadcast, hrelay⟩ := hsilent
  rcases h with ⟨hsilent₂, hr⟩ | ⟨payload, hbroadcast₂, hrelay₂, hr⟩
  · exact .inl ⟨silent_append.mpr ⟨⟨hbroadcast, hrelay⟩, hsilent₂⟩, hr⟩
  · refine .inr ⟨payload, ?_, ?_, hr⟩
    · rw [broadcasts, List.filterMap_append]
      exact List.append_eq_nil_iff.mpr ⟨hbroadcast, hbroadcast₂⟩
    · rw [relayed, List.filterMap_append]
      exact (congrArg₂ _ hrelay hrelay₂).trans (List.nil_append _)

theorem ensures_completeProposal (payload : BuiltPayload) :
    (self.completeProposal sha256 payload).Ensures sem s
      fun tr r _ => ProposeResult sha256 self tr r := by
  refine Prog.ensures_op.mpr fun ans s₁ _ => Prog.ensures_pure.mpr ?_
  exact .inr ⟨payload, rfl, rfl, rfl⟩

theorem ensures_propose :
    (self.propose sha256).Ensures sem s fun tr r _ => ProposeResult sha256 self tr r := by
  have hnull : ∀ s₁ : S, (Prog.pure (nullProposalDigest, self) :
      NodeProg (AppDigest × Application)).Ensures sem s₁
        fun tr r _ => ProposeResult sha256 self tr r :=
    fun s₁ => Prog.ensures_pure.mpr (.inl ⟨⟨rfl, rfl⟩, rfl⟩)
  -- whatever precedes the outcome is internal, so it can be put in front of it
  have hprefix : ∀ {α : Type} {p : NodeProg α} {f : α → NodeProg (AppDigest × Application)}
      {s₁ : S}, p.Performs Internal →
      (∀ a s₂, (f a).Ensures sem s₂ fun tr r _ => ProposeResult sha256 self tr r) →
      (p >>= f).Ensures sem s₁ fun tr r _ => ProposeResult sha256 self tr r := by
    intro α p f s₁ hp hf
    refine ensures_internal_bind hp fun a s₂ tr₁ hsilent => ?_
    exact (hf a s₂).mono fun tr₂ r _ h => proposeResult_append sha256 hsilent h
  rw [propose_eq]
  refine hprefix (performs_timeToBuild ⟨rfl, rfl⟩ ⟨rfl, rfl⟩ ⟨rfl, rfl⟩) fun timestamp s₁ => ?_
  cases timestamp with
  | none => exact hnull s₁
  | some timestamp =>
      refine hprefix (internal_buildViaReth timestamp) fun payload s₂ => ?_
      cases payload with
      | none => exact hnull s₂
      | some payload => exact ensures_completeProposal sha256 payload

theorem ensures_handlePropose :
    (self.handlePropose sha256).Ensures sem s
      fun tr self' _ => Outcome sha256 self .propose tr self' := by
  refine Prog.ensures_bind.mpr ((ensures_propose sha256).mono fun tr₁ r s₁ hr => ?_)
  refine Prog.ensures_op.mpr fun ans s₂ _ => Prog.ensures_pure.mpr ?_
  have hrespond : Silent [⟨.respondDigest r.1, ans⟩] := ⟨rfl, rfl⟩
  rcases hr with ⟨hsilent, rfl⟩ | ⟨payload, hbroadcast, hrelay, rfl⟩
  · exact .proposedNull (silent_append.mpr ⟨hsilent, hrespond⟩)
  · refine .proposed payload ?_ ?_
    · rw [broadcasts, List.filterMap_append]
      exact List.append_eq_nil_iff.mpr ⟨hbroadcast, hrespond.1⟩
    · rw [relayed, List.filterMap_append]
      exact (congrArg₂ _ hrelay hrespond.2).trans (List.append_nil _)

theorem performs_applyToReth {P : NodeOp → Prop} {payload : Option BuiltPayload}
    (h : ∀ built, payload = some built → (applyBuiltPayload built).Performs P) :
    (applyToReth payload).Performs P := by
  cases payload with
  | none => exact Prog.performs_pure _
  | some built => exact (h built rfl).bind fun _ => Prog.performs_pure _

theorem internal_applyToReth (payload : Option BuiltPayload) :
    (applyToReth payload).Performs fun o => Internal o ∧ SendsOnly payload o := by
  refine performs_applyToReth fun built hbuilt => ?_
  refine performs_applyBuiltPayload (fun _ => ⟨⟨rfl, rfl⟩, trivial⟩) ?_
    ⟨⟨rfl, rfl⟩, trivial⟩ ?_ ?_
  · intro sent hsent
    exact ⟨⟨rfl, rfl⟩, built, hbuilt, hsent⟩
  · exact fun f => ⟨⟨rfl, rfl⟩, built, hbuilt, rfl⟩
  · exact fun f => ⟨⟨rfl, rfl⟩, trivial⟩

theorem ensures_finalize (digest : AppDigest) :
    (self.processMessage sha256 (.finalize digest)).Ensures sem s
      fun tr self' _ => Outcome sha256 self (.finalize digest) tr self' := by
  simp only [Application.processMessage]
  unfold Application.finalize
  split
  · rename_i hlookup
    exact Prog.ensures_pure.mpr (.unknown hlookup)
  · rename_i block hlookup
    by_cases hheight : block.height = self.height
    · have hvalid : Application.isValidHeight
          { self with pendingBlocks := self.pendingBlocks.erase digest } block = true :=
        beq_iff_eq.mpr hheight
      simp only [hvalid, Bool.not_true, Bool.false_eq_true, if_false]
      rw [Prog.bind_assoc]
      have happly := internal_applyToReth (self.pendingPayloads.lookup digest)
      refine Prog.ensures_bind.mpr ((happly.ensures s).mono fun tr₁ _ s₁ htr => ?_)
      refine Prog.ensures_op.mpr fun ans s₂ _ => Prog.ensures_pure.mpr ?_
      have hsilent : Silent tr₁ := silent_of_internal fun e he => (htr e he).1
      refine .finalized hlookup hheight ?_ ?_ ?_
      · rw [broadcasts, List.filterMap_append]
        exact (congrArg₂ _ hsilent.1 rfl).trans (List.nil_append _)
      · rw [relayed, List.filterMap_append]
        exact List.append_eq_nil_iff.mpr ⟨hsilent.2, rfl⟩
      · intro e he
        rcases List.mem_append.mp he with he | he
        · exact (htr e he).2
        · rw [List.mem_singleton.mp he]
          trivial
    · have hvalid : Application.isValidHeight
          { self with pendingBlocks := self.pendingBlocks.erase digest } block = false :=
        beq_eq_false_iff_ne.mpr hheight
      simp only [hvalid, Bool.not_false, if_true]
      exact Prog.ensures_pure.mpr (.wrongHeight hlookup hheight)

theorem ensures_handleReceiveBlock (digest : AppDigest) (block : Block) (payload : BuiltPayload) :
    (self.handleReceiveBlock digest block payload).Ensures sem s
      fun tr self' _ => Outcome sha256 self (.receiveBlock digest block payload) tr self' := by
  unfold Application.handleReceiveBlock
  split
  · rename_i hpending
    exact Prog.ensures_pure.mpr (.alreadyPending hpending)
  · rename_i hpending
    have himport : (importPayload payload).Performs Internal :=
      performs_importPayload (fun _ => ⟨rfl, rfl⟩) fun _ _ => ⟨rfl, rfl⟩
    refine ensures_internal_bind himport fun response s₁ tr₁ hsilent => ?_
    rw [← List.append_nil tr₁] at hsilent
    exact Prog.ensures_pure.mpr (.received _ hpending hsilent)

theorem verify_snd (self : Application) (payload : AppDigest) :
    ∃ v, (self.verify payload).2 = { self with verified := v } := by
  unfold Application.verify
  split
  · exact ⟨self.verified, rfl⟩
  · split <;> exact ⟨_, rfl⟩

/-- The inversion of one step of the actor. -/
theorem ensures_processMessage (message : Message) :
    (self.processMessage sha256 message).Ensures sem s
      fun tr self' _ => Outcome sha256 self message tr self' := by
  cases message with
  | genesis epoch =>
      refine Prog.ensures_op.mpr fun ans s₁ _ => Prog.ensures_pure.mpr ?_
      exact .genesis _ ⟨rfl, rfl⟩
  | propose => exact ensures_handlePropose sha256
  | verify payload =>
      obtain ⟨v, hv⟩ := verify_snd self payload
      simp only [Application.processMessage, Application.handleVerify]
      generalize self.verify payload = r at hv
      obtain ⟨valid, self'⟩ := r
      subst hv
      refine Prog.ensures_op.mpr fun ans s₁ _ => Prog.ensures_pure.mpr ?_
      exact .verified v ⟨rfl, rfl⟩
  | broadcast payload => exact Prog.ensures_pure.mpr .broadcast
  | finalize digest => exact ensures_finalize sha256 digest
  | receiveBlock digest block payload =>
      exact ensures_handleReceiveBlock sha256 digest block payload

section Operations

/-- The operations by which the actor asks reth, waits and answers its caller. -/
def Plain : NodeOp → Prop
  | .now => True
  | .sleep _ => True
  | .panic _ => True
  | .getHead => True
  | .newPayload _ _ _ => True
  | .forkchoiceUpdated _ _ => True
  | .getPayload _ => True
  | .readCached => True
  | .writeCached _ => True
  | .respondDigest _ => True
  | .respondValid _ => True
  | _ => False

/-- Besides these the actor relays what it has built, and broadcasts where it finalizes. -/
theorem performs_processMessage {P : NodeOp → Prop} {message : Message}
    (hplain : ∀ o, Plain o → P o) (hrelay : ∀ built, P (.relayBlock (proposedBlock sha256 built)))
    (hmessage : ∀ digest, message ≠ .finalize digest) :
    (self.processMessage sha256 message).Performs P := by
  have hrespond : ∀ digest, P (.respondDigest digest) := fun _ => hplain _ trivial
  cases message with
  | genesis epoch => exact (Prog.performs_perform (hrespond _)).bind fun _ => Prog.performs_pure _
  | propose =>
      have hpropose : (self.propose sha256).Performs P := by
        refine performs_propose (R := fun _ => True) sha256 (hplain _ trivial) (hplain _ trivial)
          (hplain _ trivial) ?_ ?_ fun built _ => hrelay built
        · intro timestamp
          apply performs_buildViaReth
          · exact hplain _ trivial
          · exact fun _ => hplain _ trivial
          · exact hplain _ trivial
          · exact fun _ => hplain _ trivial
        · exact fun timestamp => (Prog.returns_true _).mono fun _ _ _ _ => trivial
      exact hpropose.bind fun r =>
        (Prog.performs_perform (hrespond _)).bind fun _ => Prog.performs_pure _
  | verify payload =>
      have hvalid : P (.respondValid (self.verify payload).1) := hplain _ trivial
      exact (Prog.performs_perform hvalid).bind fun _ => Prog.performs_pure _
  | broadcast payload => exact Prog.performs_pure _
  | finalize digest => exact absurd rfl (hmessage digest)
  | receiveBlock digest block payload =>
      simp only [Application.processMessage]
      unfold Application.handleReceiveBlock
      split
      · exact Prog.performs_pure _
      · have himport : (importPayload payload).Performs P := by
          apply performs_importPayload
          · exact fun _ => hplain _ trivial
          · exact fun _ _ => hplain _ trivial
        exact himport.bind fun _ => Prog.performs_pure _

theorem plain_applyToReth (payload : Option BuiltPayload) :
    (applyToReth payload).Performs Plain :=
  performs_applyToReth fun _ _ => performs_applyBuiltPayload (fun _ => trivial)
    (fun _ _ => trivial) trivial (fun _ => trivial) fun _ => trivial

end Operations

section Answers

def Answered (o : NodeOp) : Prop := Nonempty (Ans o)

theorem answered_importPayload {payload : BuiltPayload}
    (hpayload : payload.toExecutionPayload ≠ none) :
    (importPayload payload).Performs Answered := by
  apply performs_importPayload
  · intro hnone
    exact absurd hnone hpayload
  · intro _ _
    exact ⟨(RpcAnswer.clientError "" : RpcAnswer PayloadStatus)⟩

theorem answered_applyBuiltPayload {payload : BuiltPayload}
    (hpayload : payload.toExecutionPayload ≠ none) :
    (applyBuiltPayload payload).Performs Answered := by
  apply performs_applyBuiltPayload
  · intro hnone
    exact absurd hnone hpayload
  · intro _ _
    exact ⟨(RpcAnswer.clientError "" : RpcAnswer PayloadStatus)⟩
  · exact ⟨ForkchoiceState.genesis FixedBytes.zero⟩
  · intro _
    exact ⟨(RpcAnswer.clientError "" : RpcAnswer ForkchoiceUpdated)⟩
  · intro _
    exact ⟨()⟩

variable {sha256}

theorem answered_receiveBlock {payload : BuiltPayload} (digest : AppDigest) (block : Block)
    (hpayload : payload.toExecutionPayload ≠ none) :
    (self.processMessage sha256 (.receiveBlock digest block payload)).Performs Answered := by
  simp only [Application.processMessage]
  unfold Application.handleReceiveBlock
  split
  · exact Prog.performs_pure _
  · exact (answered_importPayload hpayload).bind fun _ => Prog.performs_pure _

theorem answered_finalize {digest : AppDigest} {payload : BuiltPayload}
    (hlookup : self.pendingPayloads.lookup digest = some payload)
    (hpayload : payload.toExecutionPayload ≠ none) :
    (self.processMessage sha256 (.finalize digest)).Performs Answered := by
  have happly : (applyToReth (some payload)).Performs Answered := by
    apply performs_applyToReth
    rintro built ⟨rfl⟩
    exact answered_applyBuiltPayload hpayload
  simp only [Application.processMessage]
  unfold Application.finalize
  split
  · exact Prog.performs_pure _
  · simp only [hlookup]
    split
    · exact Prog.performs_pure _
    · rw [Prog.bind_assoc]
      refine happly.bind fun _ => ?_
      exact Prog.Performs.bind ⟨⟨()⟩, fun _ => trivial⟩ fun _ => Prog.performs_pure _

end Answers

end Rkb.Consensus.ActorSteps
