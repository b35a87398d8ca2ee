import Rkb.Consensus.ActorRuns

namespace Rkb.Consensus.OwnProposals

open Rkb.Library.Bytes
open Rkb.Library.Program
open Rkb.Types.Blocks
open Rkb.Execution.Payload
open Rkb.Execution.Client
open Rkb.Consensus.Messages
open Rkb.Consensus.Actor
open Rkb.Consensus.ActorSteps
open Rkb.Consensus.ActorRuns
open Rkb.Node.Effects

section Guard

def isHeadQuery : NodeOp → Bool
  | .getHead => true
  | _ => false

/-- A forkchoice request that carries payload attributes asks reth to build. -/
def isBuildRequest : NodeOp → Bool
  | .forkchoiceUpdated _ (some _) => true
  | _ => false

def headOf : NodeEvent → Option RethHead
  | ⟨.getHead, .answer (hash, number, timestamp)⟩ => some ⟨hash, number, timestamp⟩
  | _ => none

def readingOf : NodeEvent → Option UInt64
  | ⟨.now, now⟩ => some now
  | _ => none

def heads (tr : List NodeEvent) : List RethHead := tr.filterMap headOf

def readings (tr : List NodeEvent) : List UInt64 := tr.filterMap readingOf

/-- The timestamps that a timing mode allows after the parent's. -/
def Allows : BlockTiming → (parentTimestamp timestamp : UInt64) → Prop
  | .vanilla, parentTimestamp, timestamp => parentTimestamp < timestamp
  | .subsecond, parentTimestamp, timestamp => parentTimestamp ≤ timestamp

instance (blockTiming : BlockTiming) (parentTimestamp timestamp : UInt64) :
    Decidable (Allows blockTiming parentTimestamp timestamp) :=
  match blockTiming with
  | .vanilla => inferInstanceAs (Decidable (parentTimestamp < timestamp))
  | .subsecond => inferInstanceAs (Decidable (parentTimestamp ≤ timestamp))

variable {self : Application}

theorem Allows.later {blockTiming : BlockTiming} {parentTimestamp now timestamp : UInt64}
    (h : Allows blockTiming parentTimestamp now) (hlater : now ≤ timestamp) :
    Allows blockTiming parentTimestamp timestamp := by
  cases blockTiming with
  | vanilla => exact UInt64.lt_of_lt_of_le h hlater
  | subsecond => exact UInt64.le_trans h hlater

theorem checkSyncState_synced {head : RethHead} (h : self.checkSyncState head = .synced) :
    head.hash = self.lastHash := by
  by_contra hne
  simp only [Application.checkSyncState, if_neg hne] at h
  by_cases hbehind : head.number < if self.height = 0 then 0 else self.height - 1
  · rw [if_pos hbehind] at h
    cases h
  · rw [if_neg hbehind] at h
    cases h

theorem readings_eq_nil {tr : List NodeEvent} (h : ∀ e ∈ tr, e.1 ≠ .now) : readings tr = [] := by
  apply List.filterMap_eq_nil_iff.mpr
  rintro ⟨o, ans⟩ he
  cases o with
  | now => exact absurd rfl (h _ he)
  | _ => rfl

theorem heads_append (tr₁ tr₂ : List NodeEvent) : heads (tr₁ ++ tr₂) = heads tr₁ ++ heads tr₂ :=
  List.filterMap_append

theorem readings_append (tr₁ tr₂ : List NodeEvent) :
    readings (tr₁ ++ tr₂) = readings tr₁ ++ readings tr₂ :=
  List.filterMap_append

theorem ensures_queryRethHead : queryRethHead.Ensures anyAnswer () fun tr r _ =>
    ∀ head, r = some head → head ∈ heads tr := by
  refine Prog.ensures_op.mpr ?_
  rintro (reason | e | ⟨hash, number, timestamp⟩) ⟨⟩ -
  · exact Prog.ensures_pure.mpr nofun
  · exact Prog.ensures_pure.mpr nofun
  · refine Prog.ensures_pure.mpr ?_
    rintro head ⟨rfl⟩
    exact List.mem_singleton.mpr rfl

/-- The wait ends well only on a head that is the actor's last block. -/
def SyncedOn (self : Application) (tr : List NodeEvent) (r : SyncResult) : Prop :=
  ∀ parentTimestamp, r = .synced parentTimestamp →
    ∃ head ∈ heads tr, head.hash = self.lastHash ∧ head.timestamp = parentTimestamp

theorem SyncedOn.after {tr₂ : List NodeEvent} {r : SyncResult} (h : SyncedOn self tr₂ r)
    (tr₁ : List NodeEvent) : SyncedOn self (tr₁ ++ tr₂) r := by
  intro parentTimestamp hsynced
  obtain ⟨head, hhead, hhash, htime⟩ := h parentTimestamp hsynced
  rw [heads_append]
  exact ⟨head, List.mem_append_right _ hhead, hhash, htime⟩

theorem ensures_waitForRethSyncLoop (attempts : Nat) :
    (self.waitForRethSyncLoop attempts).Ensures anyAnswer () fun tr r _ => SyncedOn self tr r := by
  induction attempts with
  | zero => exact Prog.ensures_pure.mpr nofun
  | succ attempts ih =>
      have hagain : (op (.sleep 100) >>= fun _ => self.waitForRethSyncLoop attempts).Ensures
          anyAnswer () fun tr r _ => SyncedOn self tr r := by
        refine Prog.ensures_op.mpr ?_
        rintro _ ⟨⟩ -
        exact ih
      refine Prog.ensures_bind.mpr (ensures_queryRethHead.mono ?_)
      rintro tr₁ r ⟨⟩ hanswer
      have hlater := hagain.mono fun tr₂ r _ (hsynced : SyncedOn self tr₂ r) => hsynced.after tr₁
      cases r with
      | none => exact hlater
      | some head =>
          dsimp only
          split
          · rename_i hcheck
            refine Prog.ensures_pure.mpr ?_
            rintro _ ⟨rfl⟩
            rw [List.append_nil]
            exact ⟨head, hanswer head rfl, checkSyncState_synced hcheck, rfl⟩
          · exact hlater
          · exact Prog.ensures_pure.mpr nofun

theorem ensures_canBuildBlock (blockTiming : BlockTiming) (parentTimestamp : UInt64) :
    (canBuildBlock blockTiming parentTimestamp).Ensures anyAnswer () fun tr r _ =>
      ∃ now, readings tr = [now] ∧ (r = true → Allows blockTiming parentTimestamp now) := by
  refine Prog.ensures_op.mpr ?_
  rintro (now : UInt64) ⟨⟩ -
  cases blockTiming with
  | vanilla => exact Prog.ensures_pure.mpr ⟨now, rfl, fun h => of_decide_eq_true h⟩
  | subsecond => exact Prog.ensures_pure.mpr ⟨now, rfl, fun h => of_decide_eq_true h⟩

/-- The clock is read twice: once for the guard, and once for the timestamp. -/
theorem ensures_timeToBuild : (timeToBuild self).Ensures anyAnswer () fun tr r _ =>
    ∀ timestamp, r = some timestamp → ∃ head ∈ heads tr, head.hash = self.lastHash ∧
      ∃ now, readings tr = [now, timestamp] ∧ Allows self.blockTiming head.timestamp now := by
  unfold timeToBuild
  split
  · exact Prog.ensures_pure.mpr nofun
  · have hwait : (self.waitForRethSync).Performs fun o => o ≠ .now :=
      performs_waitForRethSyncLoop nofun nofun 10
    refine Prog.ensures_bind.mpr ?_
    intro tr₁ r ⟨⟩ hexec
    have hsynced := ensures_waitForRethSyncLoop 10 tr₁ r () hexec
    have hquiet : readings tr₁ = [] := readings_eq_nil fun e he => hwait.of_mem hexec he
    cases r with
    | failed => exact Prog.ensures_pure.mpr nofun
    | synced parentTimestamp =>
        obtain ⟨head, hhead, hhash, rfl⟩ := hsynced parentTimestamp rfl
        refine Prog.ensures_bind.mpr ((ensures_canBuildBlock _ _).mono ?_)
        rintro tr₂ canBuild ⟨⟩ ⟨now, hnow, hallows⟩
        cases canBuild with
        | false => exact Prog.ensures_pure.mpr nofun
        | true =>
            refine Prog.ensures_op.mpr ?_
            rintro timestamp ⟨⟩ -
            refine Prog.ensures_pure.mpr ?_
            rintro _ ⟨rfl⟩
            refine ⟨head, ?_, hhash, now, ?_, hallows rfl⟩
            · rw [heads_append]
              exact List.mem_append_left _ hhead
            · rw [readings_append, readings_append, hquiet, hnow]
              rfl

/-- Where the operation asks reth to build, it asks for a child of the actor's last block, at
this time and with the actor's fee recipient. -/
def BuildsChild (self : Application) (timestamp : UInt64) (o : NodeOp) : Prop :=
  ∀ state attributes, o = .forkchoiceUpdated state (some attributes) →
    state.headBlockHash = self.lastHash ∧
      attributes = buildPayloadAttributes self.lastHash timestamp self.proposer

section Requests

variable {sha256 : List UInt8 → AppDigest} {P : NodeOp → Prop}

variable (sha256) in
def conclude (self : Application) : Option BuiltPayload → NodeProg (AppDigest × Application)
  | some payload => self.completeProposal sha256 payload
  | none => return (nullProposalDigest, self)

theorem buildAt_eq (timestamp : UInt64) : buildAt sha256 self (some timestamp) =
    self.buildViaReth timestamp >>= conclude sha256 self := by
  refine congrArg (self.buildViaReth timestamp >>= ·) (funext fun built => ?_)
  cases built <;> rfl

theorem performs_conclude (hrelay : ∀ proposed, P (.relayBlock proposed))
    (built : Option BuiltPayload) : (conclude sha256 self built).Performs P := by
  cases built with
  | none => exact Prog.performs_pure _
  | some payload => exact (Prog.performs_perform (hrelay _)).bind fun _ => Prog.performs_pure _

theorem performs_buildAt (timestamp : UInt64) :
    (buildAt sha256 self (some timestamp)).Performs (BuildsChild self timestamp) := by
  rw [buildAt_eq]
  apply Prog.Performs.bind
  · apply performs_buildViaReth
    · exact nofun
    · rintro finalized _ _ ⟨⟩
      exact ⟨rfl, rfl⟩
    · exact nofun
    · exact fun _ => nofun
  · exact performs_conclude fun _ => nofun

theorem atMost_waitForRethSyncLoop (attempts : Nat) :
    (self.waitForRethSyncLoop attempts).AtMost isHeadQuery attempts := by
  induction attempts with
  | zero => trivial
  | succ attempts ih =>
      have hsleep : Prog.Performs (fun o => isHeadQuery o = false) (op (.sleep 100)) :=
        Prog.performs_uncounted rfl
      have hagain : (op (.sleep 100) >>= fun _ =>
          self.waitForRethSyncLoop attempts).AtMost isHeadQuery attempts :=
        hsleep.bind_atMost fun _ => ih
      have hquery : queryRethHead.AtMost isHeadQuery 1 := by
        refine ⟨0, Nat.le_refl 1, ?_⟩
        rintro (reason | e | head)
        · trivial
        · trivial
        · trivial
      refine (hquery.bind (n := attempts) fun head => ?_).mono (by omega)
      cases head with
      | none => exact hagain
      | some head =>
          dsimp only
          split
          · trivial
          · exact hagain
          · trivial

theorem atMost_timeToBuild : (timeToBuild self).AtMost isHeadQuery 10 := by
  have hclock : ∀ blockTiming parentTimestamp, (canBuildBlock blockTiming parentTimestamp).Performs
      fun o => isHeadQuery o = false :=
    performs_canBuildBlock (P := fun o => isHeadQuery o = false) rfl
  have hnow : Prog.Performs (fun o => isHeadQuery o = false) (op .now) :=
    Prog.performs_uncounted rfl
  unfold timeToBuild
  split
  · trivial
  · refine (atMost_waitForRethSyncLoop 10).bind_performs fun result => ?_
    cases result with
    | failed => exact Prog.performs_pure _
    | synced parentTimestamp =>
        refine (hclock _ _).bind fun canBuild => ?_
        cases canBuild with
        | false => exact Prog.performs_pure _
        | true => exact hnow.bind fun _ => Prog.performs_pure _

theorem atMost_headQueries : (self.propose sha256).AtMost isHeadQuery 10 := by
  have hbuild : ∀ timestamp, (self.buildViaReth timestamp).Performs
      fun o => isHeadQuery o = false := fun timestamp =>
    performs_buildViaReth (P := fun o => isHeadQuery o = false) rfl (fun _ => rfl) rfl fun _ => rfl
  rw [propose_eq]
  apply atMost_timeToBuild.bind_performs
  rintro (_ | timestamp)
  · trivial
  · rw [buildAt_eq]
    exact (hbuild timestamp).bind (performs_conclude fun _ => rfl)

theorem atMost_startBuilding (parentHash : B256) (timestamp : UInt64) (feeRecipient : Address) :
    (startBuilding parentHash timestamp feeRecipient).AtMost isBuildRequest 1 := by
  have hread : Prog.Performs (fun o => isBuildRequest o = false) (op .readCached) :=
    Prog.performs_uncounted rfl
  refine hread.bind_atMost fun cached => ?_
  refine (Prog.atMost_perform _).bind_performs fun response => ?_
  split <;> trivial

theorem atMost_buildViaReth (timestamp : UInt64) :
    (self.buildViaReth timestamp).AtMost isBuildRequest 1 := by
  have hpayload : ∀ payloadId, (getPayload payloadId).Performs fun o => isBuildRequest o = false :=
    fun payloadId => performs_getPayload (P := fun o => isBuildRequest o = false) rfl rfl
  refine (atMost_startBuilding _ _ _).bind_performs fun response => ?_
  cases response with
  | error e => exact Prog.performs_pure _
  | ok payloadId =>
      refine (hpayload payloadId).bind fun response => ?_
      cases response with
      | error e => exact Prog.performs_pure _
      | ok payload => exact Prog.performs_pure _

theorem timeToBuild_quiet :
    (timeToBuild self).Performs fun o => isBuildRequest o = false :=
  performs_timeToBuild (P := fun o => isBuildRequest o = false) rfl rfl rfl

theorem atMost_buildRequests : (self.propose sha256).AtMost isBuildRequest 1 := by
  rw [propose_eq]
  apply timeToBuild_quiet.bind_atMost
  rintro (_ | timestamp)
  · trivial
  · rw [buildAt_eq]
    exact (atMost_buildViaReth timestamp).bind_performs (performs_conclude fun _ => rfl)

theorem append_eq_before {tr₁ tr₂ before after : List NodeEvent} {e : NodeEvent}
    (h : tr₁ ++ tr₂ = before ++ e :: after) (hfirst : e ∉ tr₁) :
    e ∈ tr₂ ∧ ∃ between, before = tr₁ ++ between := by
  rcases List.append_eq_append_iff.mp h with ⟨between, rfl, rfl⟩ | ⟨rest, rfl, hrest⟩
  · exact ⟨List.mem_append_right _ List.mem_cons_self, between, rfl⟩
  · cases rest with
    | nil =>
        rw [List.nil_append] at hrest
        rw [← hrest, List.append_nil]
        exact ⟨List.mem_cons_self, [], (List.append_nil before).symm⟩
    | cons e' rest =>
        obtain ⟨rfl, -⟩ := List.cons.inj hrest
        exact absurd (List.mem_append_right _ List.mem_cons_self) hfirst

/-- The build requests of a trace follow an answer whose head is the actor's last block. -/
def Guarded (self : Application) (tr : List NodeEvent) : Prop :=
  ∀ before after state attributes response,
    tr = before ++ (⟨.forkchoiceUpdated state (some attributes), response⟩ :: after) →
      ∃ head ∈ heads before, head.hash = self.lastHash ∧ state.headBlockHash = self.lastHash ∧
        attributes.suggestedFeeRecipient = self.proposer ∧
        Allows self.blockTiming head.timestamp attributes.timestamp

theorem guarded_of_quiet {tr : List NodeEvent} (h : ∀ e ∈ tr, isBuildRequest e.1 = false) :
    Guarded self tr := by
  rintro before after state attributes response rfl
  have hrequest := h _ (List.mem_append_right _ List.mem_cons_self)
  cases hrequest

theorem guarded_append {tr₁ tr₂ : List NodeEvent} {head : RethHead} {now timestamp : UInt64}
    (hquiet : ∀ e ∈ tr₁, isBuildRequest e.1 = false) (hhead : head ∈ heads tr₁)
    (hhash : head.hash = self.lastHash) (hclock : readings tr₁ = [now, timestamp])
    (hallows : Allows self.blockTiming head.timestamp now)
    (hchild : ∀ e ∈ tr₂, BuildsChild self timestamp e.1)
    (hpairwise : (readings (tr₁ ++ tr₂)).Pairwise (· ≤ ·)) : Guarded self (tr₁ ++ tr₂) := by
  intro before after state attributes response htr
  have hfirst : (⟨.forkchoiceUpdated state (some attributes), response⟩ : NodeEvent) ∉ tr₁ := by
    intro hmem
    cases hquiet _ hmem
  obtain ⟨hmem, between, rfl⟩ := append_eq_before htr hfirst
  obtain ⟨hparent, rfl⟩ := hchild _ hmem state attributes rfl
  have hlater : now ≤ timestamp := by
    rw [readings_append, hclock, List.cons_append] at hpairwise
    exact List.rel_of_pairwise_cons hpairwise List.mem_cons_self
  rw [heads_append]
  exact ⟨head, List.mem_append_left _ hhead, hhash, hparent, rfl, hallows.later hlater⟩

theorem halts_propose_guard : (self.propose sha256).Halts anyAnswer () fun tr _ _ =>
    (readings tr).Pairwise (· ≤ ·) → Guarded self tr := by
  rw [propose_eq]
  refine Prog.halts_bind ((ensures_timeToBuild.halts.and
    timeToBuild_quiet.halts_anyAnswer).mono ?_)
  rintro tr₁ r ⟨⟩ ⟨hresult, hquiet⟩
  rcases r with _ | _ | timestamp
  · exact fun _ => guarded_of_quiet hquiet
  · refine Prog.halts_pure fun _ => ?_
    rw [List.append_nil]
    exact guarded_of_quiet hquiet
  · obtain ⟨head, hhead, hhash, now, hclock, hallows⟩ := hresult _ rfl timestamp rfl
    refine (performs_buildAt timestamp).halts_anyAnswer.mono ?_
    rintro tr₂ _ ⟨⟩ hchild hpairwise
    exact guarded_append hquiet hhead hhash hclock hallows hchild hpairwise

/-- One call of `propose`, with any answers of reth and a clock that does not go back: it asks
for a child of its last block only once that block is reth's head and the time is legal, it
makes at most ten queries and one build request, and it changes nothing without a proposal. -/
theorem propose_guarded : (self.propose sha256).Halts anyAnswer () fun tr r _ =>
    ((readings tr).Pairwise (· ≤ ·) → ∀ before after state attributes response,
      tr = before ++ (⟨.forkchoiceUpdated state (some attributes), response⟩ :: after) →
        ∃ head ∈ heads before, head.hash = self.lastHash ∧ state.headBlockHash = self.lastHash ∧
          attributes.suggestedFeeRecipient = self.proposer ∧
          Allows self.blockTiming head.timestamp attributes.timestamp) ∧
      tr.countP (fun e => isHeadQuery e.1) ≤ 10 ∧
      tr.countP (fun e => isBuildRequest e.1) ≤ 1 ∧
      ∀ digest self', r = some (digest, self') → relayed tr = [] →
        digest = nullProposalDigest ∧ self' = self := by
  refine (halts_propose_guard.and ((atMost_headQueries.halts ()).and
    ((atMost_buildRequests.halts ()).and (ensures_propose sha256).halts))).mono ?_
  rintro tr r ⟨⟩ ⟨hguard, hqueries, hrequests, hresult⟩
  refine ⟨hguard, hqueries, hrequests, ?_⟩
  rintro digest self' hr hnone
  rcases hresult _ hr with ⟨-, hnull⟩ | ⟨payload, -, hrelayed, -⟩
  · exact Prod.mk.inj hnull
  · rw [hrelayed] at hnone
    cases hnone

end Requests

end Guard

section Heights

variable {sha256 : List UInt8 → AppDigest} {config : ApplicationConfig}
  {self self' : Application} {l : ActorLabel} {ts : List ActorTransition}

def respondOf : NodeOp → Option AppDigest
  | .respondDigest digest => some digest
  | _ => none

def responses (tr : List NodeEvent) : List AppDigest := tr.filterMap fun e => respondOf e.1

/-- The blocks relayed along a run, each with the actor's height where its proposal completed. -/
def proposals (ts : List ActorTransition) : List (UInt64 × ProposedBlock) :=
  ts.flatMap fun t => (relayed t.label.2).map fun proposed => (t.pre.height, proposed)

theorem alreadyProposed_eq_false : self.alreadyProposedAtHeight = false ↔
    ∀ last, self.lastProposedHeight = some last → last < self.height := by
  rw [Application.alreadyProposedAtHeight]
  cases self.lastProposedHeight with
  | none => exact ⟨fun _ => nofun, fun _ => rfl⟩
  | some last =>
      dsimp only
      rw [Bool.not_eq_false', decide_eq_true_eq]
      constructor
      · rintro hless _ ⟨rfl⟩
        exact hless
      · exact fun h => h last rfl

/-- The first check of `propose` lets it relay at most once a height. -/
theorem alreadyProposed_of_relayed {tr : List NodeEvent}
    (h : ActorStep sha256 self (.propose, tr) self') (hrelayed : relayed tr ≠ []) :
    self.alreadyProposedAtHeight = false := by
  by_contra halready
  rw [Bool.not_eq_false] at halready
  have hnull : self.propose sha256 = Prog.pure (nullProposalDigest, self) := by
    rw [Application.propose, if_pos halready]
    rfl
  have hquiet : (self.handlePropose sha256).Ensures anyAnswer () fun tr _ _ => relayed tr = [] := by
    rw [Application.handlePropose, hnull]
    refine Prog.ensures_op.mpr ?_
    rintro _ ⟨⟩ -
    exact Prog.ensures_pure.mpr rfl
  exact hrelayed (hquiet tr self' () h)

theorem proposal_step (h : ActorStep sha256 self l self') :
    (relayed l.2 = [] ∧ self'.lastProposedHeight = self.lastProposedHeight) ∨
      ∃ proposed, relayed l.2 = [proposed] ∧ self'.lastProposedHeight = some self.height ∧
        self'.height = self.height ∧
        ∀ last, self.lastProposedHeight = some last → last < self.height := by
  obtain ⟨message, tr⟩ := l
  have houtcome := h.outcome
  simp only at houtcome ⊢
  cases houtcome with
  | genesis _ hsilent => exact .inl ⟨hsilent.2, rfl⟩
  | proposedNull hsilent => exact .inl ⟨hsilent.2, rfl⟩
  | proposed payload _ hrelay =>
      have hnew := alreadyProposed_of_relayed h (hrelay ▸ List.cons_ne_nil _ _)
      exact .inr ⟨_, hrelay, rfl, rfl, alreadyProposed_eq_false.mp hnew⟩
  | verified _ hsilent => exact .inl ⟨hsilent.2, rfl⟩
  | broadcast => exact .inl ⟨rfl, rfl⟩
  | unknown _ => exact .inl ⟨rfl, rfl⟩
  | wrongHeight _ _ => exact .inl ⟨rfl, rfl⟩
  | finalized _ _ _ hrelay _ => exact .inl ⟨hrelay, rfl⟩
  | alreadyPending _ => exact .inl ⟨rfl, rfl⟩
  | received _ _ hsilent => exact .inl ⟨hsilent.2, rfl⟩

def Increasing (ts : List ActorTransition) (self : Application) : Prop :=
  ((proposals ts).map Prod.fst).Pairwise (· < ·) ∧
    ∀ p ∈ proposals ts, ∃ last, self.lastProposedHeight = some last ∧ p.1 ≤ last

theorem proposals_concat (us : List ActorTransition) (t : ActorTransition) :
    proposals (us ++ [t]) =
      proposals us ++ (relayed t.label.2).map fun proposed => (t.pre.height, proposed) := by
  rw [proposals, List.flatMap_append, List.flatMap_singleton]
  rfl

theorem increasing_of_run (hrun : ActorRun sha256 (Application.new config) ts self) :
    Increasing ts self := by
  refine hrun.history Increasing ⟨.nil, nofun⟩ ?_
  rintro us t - hstep ⟨hpairwise, hbelow⟩
  rw [Increasing, proposals_concat]
  rcases proposal_step hstep with ⟨hnone, hlast⟩ | ⟨proposed, hone, hlast, -, hless⟩
  · rw [hnone, List.map_nil, List.append_nil, hlast]
    exact ⟨hpairwise, hbelow⟩
  · rw [hone, hlast, List.map_singleton]
    have hall : ∀ p ∈ proposals us, p.1 < t.pre.height := by
      intro p hp
      obtain ⟨last, hsome, hle⟩ := hbelow p hp
      exact UInt64.lt_of_le_of_lt hle (hless last hsome)
    constructor
    · rw [List.map_append, List.pairwise_append]
      refine ⟨hpairwise, List.pairwise_singleton _ _, ?_⟩
      intro height hheight height' hheight'
      obtain ⟨p, hp, rfl⟩ := List.mem_map.mp hheight
      obtain rfl := List.mem_singleton.mp hheight'
      exact hall p hp
    · intro p hp
      refine ⟨_, rfl, ?_⟩
      rcases List.mem_append.mp hp with hp | hp
      · exact UInt64.le_of_lt (hall p hp)
      · obtain rfl := List.mem_singleton.mp hp
        exact UInt64.le_refl _

theorem length_le_one {height : UInt64} {ps : List (UInt64 × ProposedBlock)}
    (h : (ps.map Prod.fst).Pairwise (· < ·)) (hsame : ∀ p ∈ ps, p.1 = height) :
    ps.length ≤ 1 := by
  rcases ps with _ | ⟨p, _ | ⟨q, ps⟩⟩
  · exact Nat.zero_le 1
  · exact Nat.le_refl 1
  · have hless : p.1 < q.1 := List.rel_of_pairwise_cons h List.mem_cons_self
    rw [hsame p List.mem_cons_self, hsame q (List.mem_cons_of_mem _ List.mem_cons_self)] at hless
    exact absurd hless (UInt64.lt_irrefl height)

theorem ensures_handlePropose_null : (self.handlePropose sha256).Ensures anyAnswer ()
    fun tr _ _ => relayed tr = [] → responses tr = [nullProposalDigest] := by
  have hquiet : (self.propose sha256).Performs fun o => respondOf o = none := by
    refine performs_propose sha256 (R := fun _ => True) rfl rfl rfl ?_ ?_ fun _ _ => rfl
    · exact fun _ => performs_buildViaReth (P := fun o => respondOf o = none) rfl (fun _ => rfl)
        rfl fun _ => rfl
    · exact fun _ => (Prog.returns_true _).mono fun _ _ _ _ => trivial
  refine Prog.ensures_bind.mpr ?_
  intro tr r ⟨⟩ hexec
  have hnone : responses tr = [] :=
    List.filterMap_eq_nil_iff.mpr fun e he => hquiet.of_mem hexec he
  refine Prog.ensures_op.mpr ?_
  rintro _ ⟨⟩ -
  refine Prog.ensures_pure.mpr ?_
  intro hsilent
  rw [responses, List.filterMap_append]
  refine (congrArg (· ++ _) hnone).trans ?_
  rcases ensures_propose sha256 tr r () hexec with ⟨-, rfl⟩ | ⟨payload, -, hrelay, -⟩
  · rfl
  · rw [relayed, List.filterMap_append] at hsilent
    have htr : relayed tr = [] := (List.append_eq_nil_iff.mp hsilent).1
    rw [hrelay] at htr
    cases htr

theorem lastProposed_le_height (hrun : ActorRun sha256 (Application.new config) ts self)
    (hwrap : ∀ block ∈ finalizedBlocks ts, block.height.toNat + 1 < 2 ^ 64) {last : UInt64}
    (hlast : self.lastProposedHeight = some last) : last ≤ self.height := by
  refine (hrun.invariant
    (fun self => ∀ last, self.lastProposedHeight = some last → last ≤ self.height)
    (fun t => ∀ block ∈ broadcasts t.label.2, block.height.toNat + 1 < 2 ^ 64)
    ?_ ?_ nofun).1 last hlast
  · intro t hstep hnowrap hle last hlast
    rcases proposal_step hstep with ⟨-, hsame⟩ | ⟨proposed, -, hnew, hheight, -⟩
    · rw [hsame] at hlast
      have hbefore := hle last hlast
      rcases height_of_outcome hstep.outcome with
        ⟨-, hheight⟩ | ⟨digest, block, -, hone, hblock, hheight⟩
      · rw [hheight]
        exact hbefore
      · have hroom := hnowrap block (hone ▸ List.mem_cons_self)
        rw [hblock] at hroom
        rw [UInt64.le_iff_toNat_le] at hbefore ⊢
        rw [hheight, toNat_succ hroom]
        omega
    · rw [hnew] at hlast
      rw [hheight, Option.some.inj hlast]
      exact UInt64.le_refl _
  · intro t ht block hblock
    exact hwrap block (List.mem_flatMap.mpr ⟨t, ht, hblock⟩)

/-- An actor relays at most one block of its own at each of its heights, and these heights
increase; every other proposal is answered by the null digest. -/
theorem ownProposals_increase (hrun : ActorRun sha256 (Application.new config) ts self) :
    ((proposals ts).map Prod.fst).Pairwise (· < ·) ∧
      (∀ height, ((proposals ts).filter fun p => p.1 = height).length ≤ 1) ∧
      (∀ t ∈ ts, t.label.1 = .propose → relayed t.label.2 = [] →
        responses t.label.2 = [nullProposalDigest]) ∧
      ((∀ block ∈ finalizedBlocks ts, block.height.toNat + 1 < 2 ^ 64) →
        ∀ last, self.lastProposedHeight = some last → last ≤ self.height) := by
  have hpairwise := (increasing_of_run hrun).1
  refine ⟨hpairwise, ?_, ?_, fun hwrap last hlast => lastProposed_le_height hrun hwrap hlast⟩
  · intro height
    apply length_le_one
    · exact hpairwise.sublist (List.filter_sublist.map Prod.fst)
    · exact fun p hp => of_decide_eq_true (List.mem_filter.mp hp).2
  · rintro ⟨pre, ⟨message, tr⟩, post⟩ ht rfl hnone
    exact ensures_handlePropose_null tr post () (hrun.step_of_mem ht) hnone

def buildingEnv (payload : BuiltPayload) : Prog.Env NodeOp Ans Unit
  | .getHead, s => some ((RpcAnswer.answer (payload.parentHash, 0, 0) : Ans .getHead), s)
  | .now, s => some (((1 : UInt64) : Ans .now), s)
  | .forkchoiceUpdated f a, s =>
      some ((RpcAnswer.answer ⟨⟨.valid, none⟩, some FixedBytes.zero⟩ :
        Ans (.forkchoiceUpdated f a)), s)
  | .getPayload payloadId, s =>
      payload.toExecutionPayload.map fun built =>
        ((RpcAnswer.answer built : Ans (.getPayload payloadId)), s)
  | .relayBlock proposed, s => some ((() : Ans (.relayBlock proposed)), s)
  | o, s => acceptingEnv o s

theorem ownProposals_increase_twice : ∃ ts self,
    ActorRun Library.Sha256.sha256 (Application.new genesisConfig) ts self ∧
      ts.map (fun t => t.label.1) = [.propose, .propose] ∧
      (proposals ts).map Prod.fst = [1] ∧
      ∀ last, self.lastProposedHeight = some last → last ≤ self.height := by
  obtain ⟨ts, self, hrun, hmessages, hcheck⟩ :=
    exists_run_of_replay Library.Sha256.sha256
      (buildingEnv (emptyPayload 1 FixedBytes.zero (FixedBytes.repeatByte 1)))
      (Application.new genesisConfig) [.propose, .propose]
      (fun ts _ => decide ((proposals ts).map Prod.fst = [1]) && decide (finalizedBlocks ts = []))
      (by decide +kernel)
  rw [Bool.and_eq_true, decide_eq_true_eq, decide_eq_true_eq] at hcheck
  refine ⟨ts, self, hrun, hmessages, hcheck.1, (ownProposals_increase hrun).2.2.2 ?_⟩
  rw [hcheck.2]
  exact nofun

def lastHeight : UInt64 := 18446744073709551615

def lastHeightConfig : ApplicationConfig := { genesisConfig with initialHeight := lastHeight }

/-- The block of the last height is proposed and finalized, and the height is zero. -/
theorem lastProposed_exceeds_height : ∃ ts self,
    ActorRun Library.Sha256.sha256 (Application.new lastHeightConfig) ts self ∧
      ts.map (fun t => t.label.1) =
        [.propose, .finalize (computeDigest Library.Sha256.sha256 (FixedBytes.repeatByte 1))] ∧
      ∃ last, self.lastProposedHeight = some last ∧ ¬ last ≤ self.height := by
  obtain ⟨ts, self, hrun, hmessages, hcheck⟩ :=
    exists_run_of_replay Library.Sha256.sha256
      (buildingEnv (emptyPayload lastHeight FixedBytes.zero (FixedBytes.repeatByte 1)))
      (Application.new lastHeightConfig)
      [.propose, .finalize (computeDigest Library.Sha256.sha256 (FixedBytes.repeatByte 1))]
      (fun _ self => decide (self.lastProposedHeight = some lastHeight) &&
        decide (self.height = 0))
      (by decide +kernel)
  rw [Bool.and_eq_true, decide_eq_true_eq, decide_eq_true_eq] at hcheck
  refine ⟨ts, self, hrun, hmessages, lastHeight, hcheck.1, ?_⟩
  rw [hcheck.2]
  decide +kernel

end Heights

end Rkb.Consensus.OwnProposals
