import Rkb.Library.Tasks
import Rkb.Consensus.ActorRuns
import Rkb.Node.Shared
import Rkb.Sequencer.Finalization

/-!
The head of reth under its two drivers. The application actor applies a block
and then broadcasts it; the finalization loop receives it from the channel and
makes it the head once more.
-/

namespace Rkb.Sequencer.HeadOrder

open Rkb.Library.Bytes
open Rkb.Library.Program
open Rkb.Library.Runs
open Rkb.Library.Tasks
open Rkb.Types.Blocks
open Rkb.Execution.Forkchoice
open Rkb.Execution.Payload
open Rkb.Execution.Client
open Rkb.Celestia.Blobs
open Rkb.Consensus.Messages
open Rkb.Consensus.Actor
open Rkb.Consensus.ActorSteps
open Rkb.Consensus.ActorRuns
open Rkb.Sequencer.Finalization
open Rkb.Node.Effects
open Rkb.Node.Shared

inductive HeadTask
  | application
  | finalization
deriving DecidableEq

def HeadLocal : HeadTask → Type
  | .application => Application
  | .finalization => Unit

/-- A finalized block comes with whether this node is its leader. -/
def HeadInput : HeadTask → Type
  | .application => Message
  | .finalization => Block × Bool

/-- `channel` holds the blocks that were broadcast and not received yet, `heads`
the heads that reth was sent, in order. An observer counts the blocks that the
actor has applied and those that the loop has taken up. -/
structure HeadState where
  node : NodeState
  channel : List Block
  heads : List B256
  applied : Nat
  taken : Nat

/-- The request of `apply_built_payload` has no attributes, that of
`start_building` has. -/
def HeadState.observe (self : HeadState) (t : HeadTask) : NodeOp → HeadState
  | .broadcastBlock block => { self with channel := self.channel ++ [block] }
  | .forkchoiceUpdated state attributes =>
      { self with
        heads := self.heads ++ [state.headBlockHash]
        applied :=
          match t, attributes with
          | .application, none => self.applied + 1
          | _, _ => self.applied }
  | _ => self

section Model

variable (heightOf : B256 → Nat)

/-- reth answers Valid, and what it builds has the height its hash stands for. -/
def Answered : (o : NodeOp) → Ans o → Prop
  | .newPayload _ _ _, ans => ∃ latest, ans = RpcAnswer.answer ⟨.valid, latest⟩
  | .forkchoiceUpdated _ _, ans => ∃ latest id, ans = RpcAnswer.answer ⟨⟨.valid, latest⟩, id⟩
  | .getPayload _, ans => ∀ payload : ExecutionPayloadV3, ans = RpcAnswer.answer payload →
      heightOf payload.payloadInner.payloadInner.blockHash =
        payload.payloadInner.payloadInner.blockNumber.toNat
  | _, _ => True

/-- The payload is that of the block, and the hash stands for its height. -/
def Belongs (_ : AppDigest) (block : Block) (payload : BuiltPayload) : Prop :=
  heightOf block.blockHash = block.height.toNat ∧ payload.blockHash = block.blockHash

variable (sha256 : List UInt8 → AppDigest) (ctx : FinalizationContext)

/-- The actor and the finalization loop. The actor takes up messages of any kind. -/
def drivers : System NodeOp Ans HeadState HeadTask HeadLocal HeadInput where
  sem t o s ans s' := nodeSem o s.node ans s'.node ∧ Answered heightOf o ans ∧
    s' = { s.observe t o with node := s'.node }
  accept
    | .application, _, s, message, s' =>
        (∀ d b p, (message : Message) = .receiveBlock d b p → Belongs heightOf d b p) ∧ s' = s
    | .finalization, _, s, (block, _), s' =>
        ∃ rest, s.channel = block :: rest ∧
          s' = { s with channel := rest, taken := s.taken + 1 }
  handler
    | .application, app, message => Application.processMessage sha256 app message
    | .finalization, _, (block, isLeader) => processFinalizedBlock ctx block isLeader

end Model

abbrev HeadConfig : Type := Config NodeOp Ans HeadState HeadLocal

abbrev HeadTransition : Type := TaskTransition Ans HeadState HeadLocal HeadInput

def initial (config : ApplicationConfig) : HeadConfig where
  shared :=
    { node := NodeState.initialized config.initialHash none
      channel := []
      heads := []
      applied := 0
      taken := 0 }
  task
    | .application => .pure (Application.new config)
    | .finalization => .pure ()

def NeverDecreases (heightOf : B256 → Nat) (heads : List B256) : Prop :=
  heads.Pairwise fun earlier later => heightOf earlier ≤ heightOf later

/-- When the loop makes a block the head, the actor has applied no later one. -/
def notAhead (tr : HeadTransition) : Bool :=
  match tr.label with
  | .start _ _ => true
  | .act .application _ => true
  | .act .finalization e =>
      match e.1 with
      | .forkchoiceUpdated _ _ => decide (tr.pre.shared.applied ≤ tr.pre.shared.taken)
      | _ => true

section Proof

variable {heightOf : B256 → Nat} {sha256 : List UInt8 → AppDigest} {ctx : FinalizationContext}
  {config : ApplicationConfig} {s s' : HeadState} {app : Application}

variable (heightOf) (config) in
/-- With `n` the first height, the blocks applied are those of heights `n` to
`n + applied - 1`; the channel holds the next ones for the loop. -/
structure Ordered (s : HeadState) : Prop where
  below : ∀ h ∈ s.heads, heightOf h ≤ config.initialHeight.toNat + (s.applied - 1)
  parent : s.applied = 0 → ∀ h ∈ s.heads, h = config.initialHash
  ahead : s.taken < s.applied →
    ∃ h ∈ s.heads, heightOf h + 1 = config.initialHeight.toNat + s.applied
  channel : ∀ (i : Nat) (block : Block), s.channel[i]? = some block →
    heightOf block.blockHash = config.initialHeight.toNat + s.taken + i
  balance : s.taken + s.channel.length ≤ s.applied

/-- Nothing that the actor knows of changes but for the front of the channel, and
the loop does not take up another block by itself. -/
def Rely : HeadTask → HeadState → HeadState → Prop
  | .application, s, s' => s'.applied = s.applied ∧
      s'.taken + s'.channel.length = s.taken + s.channel.length
  | .finalization, s, s' => s'.taken = s.taken

def Guar (t : HeadTask) (s s' : HeadState) : Prop := ∀ u, u ≠ t → Rely u s s'

variable (heightOf) (config) in
/-- What a task may name as the head: the loop the block it took up last, the
actor the next block, or the last one as the parent of a proposal. -/
def Names (t : HeadTask) (o : NodeOp) (s : HeadState) (_ : Ans o) : Prop :=
  match t, o with
  | .finalization, .forkchoiceUpdated state _ => 0 < s.taken ∧
      heightOf state.headBlockHash + 1 = config.initialHeight.toNat + s.taken
  | .application, .forkchoiceUpdated state none =>
      heightOf state.headBlockHash = config.initialHeight.toNat + s.applied
  | .application, .forkchoiceUpdated state (some _) =>
      (s.applied = 0 → state.headBlockHash = config.initialHash) ∧
        (0 < s.applied →
          heightOf state.headBlockHash + 1 = config.initialHeight.toNat + s.applied)
  | _, _ => True

variable (heightOf) (config) in
structure Waiting (app : Application) (s : HeadState) : Prop where
  height : app.height.toNat = config.initialHeight.toNat + s.applied
  sent : s.taken + s.channel.length = s.applied
  first : s.applied = 0 → app.lastHash = config.initialHash
  tip : 0 < s.applied → heightOf app.lastHash + 1 = config.initialHeight.toNat + s.applied
  pairs : Pairs (Belongs heightOf) app

variable (heightOf) (config) in
def Good : (t : HeadTask) → HeadLocal t → HeadState → Prop
  | .application, (app : Application), s => Waiting heightOf config app s
  | .finalization, _, _ => True

variable (config) in
/-- The actor applies a block only while its height stays below the maximum. -/
def InRange (t : HeadTask) (o : NodeOp) (s : HeadState) (_ : Ans o) : Prop :=
  match t, o with
  | .application, .forkchoiceUpdated _ none =>
      config.initialHeight.toNat + s.applied + 1 < 2 ^ 64
  | _, _ => True

variable (heightOf sha256 ctx config) in
abbrev rangedDrivers : System NodeOp Ans HeadState HeadTask HeadLocal HeadInput :=
  (drivers heightOf sha256 ctx).restrict (InRange config)

variable (heightOf sha256 ctx config) in
abbrev SafeDriver {α : Type} (t : HeadTask) (Q : α → HeadState → Prop) (p : NodeProg α)
    (s : HeadState) : Prop :=
  Safe ((rangedDrivers heightOf sha256 ctx config).sem t) (Ordered heightOf config) (Rely t)
    (Guar t) (Names heightOf config t) Q p s

def Quiet : NodeOp → Prop
  | .broadcastBlock _ | .forkchoiceUpdated _ _ => False
  | _ => True

variable {t : HeadTask} {o : NodeOp} {ans : Ans o} {block : Block} {payload : BuiltPayload}

theorem rely_refl (t : HeadTask) (s : HeadState) : Rely t s s := by
  cases t <;> simp [Rely]

theorem rely_trans {s₁ s₂ s₃ : HeadState} (h₁ : Rely t s₁ s₂) (h₂ : Rely t s₂ s₃) :
    Rely t s₁ s₃ := by
  cases t
  · exact ⟨h₂.1.trans h₁.1, h₂.2.trans h₁.2⟩
  · exact Eq.trans h₂ h₁

theorem observe_of_quiet (ho : Quiet o) : s.observe t o = s := by
  cases o <;> first | rfl | exact ho.elim

theorem eq_of_quiet (ho : Quiet o)
    (h : (rangedDrivers heightOf sha256 ctx config).sem t o s ans s') :
    s' = { s with node := s'.node } := by
  obtain ⟨⟨-, -, hs'⟩, -⟩ := h
  rw [observe_of_quiet ho] at hs'
  exact hs'

theorem Ordered.congr {node : NodeState} (hs : Ordered heightOf config s) :
    Ordered heightOf config { s with node := node } :=
  ⟨hs.below, hs.parent, hs.ahead, hs.channel, hs.balance⟩

theorem allowed_of_quiet (ho : Quiet o) (hinv : Ordered heightOf config s)
    (h : (rangedDrivers heightOf sha256 ctx config).sem t o s ans s') :
    Ordered heightOf config s' ∧ Guar t s s' ∧ Names heightOf config t o s ans := by
  rw [eq_of_quiet ho h]
  refine ⟨hinv.congr, ?_, ?_⟩
  · intro u _
    cases u <;> simp [Rely]
  · cases o <;> first | exact ho.elim | (cases t <;> trivial)

theorem Waiting.stable (hs : Waiting heightOf config app s) (h : Rely .application s s') :
    Waiting heightOf config app s' := by
  obtain ⟨happlied, hsent⟩ := h
  refine ⟨?_, ?_, ?_, ?_, hs.pairs⟩
  · rw [happlied, hs.height]
  · rw [happlied, hsent, hs.sent]
  · rw [happlied]
    exact hs.first
  · rw [happlied]
    exact hs.tip

def Asks (app : Application) (o : NodeOp) : Prop :=
  Quiet o ∨ ∃ state attributes, o = .forkchoiceUpdated state (some attributes) ∧
    state.headBlockHash = app.lastHash

theorem allowed_of_asks (hparent : heightOf config.initialHash ≤ config.initialHeight.toNat)
    (ho : Asks app o) (hinv : Ordered heightOf config s)
    (hs : Waiting heightOf config app s)
    (h : (rangedDrivers heightOf sha256 ctx config).sem .application o s ans s') :
    (Ordered heightOf config s' ∧ Guar .application s s' ∧
      Names heightOf config .application o s ans) ∧ Waiting heightOf config app s' := by
  rcases ho with hquiet | ⟨state, attributes, rfl, hhead⟩
  · refine ⟨allowed_of_quiet hquiet hinv h, ?_⟩
    rw [eq_of_quiet hquiet h]
    exact ⟨hs.height, hs.sent, hs.first, hs.tip, hs.pairs⟩
  · obtain ⟨⟨-, -, hs'⟩, -⟩ := h
    rw [hs']
    refine ⟨⟨⟨?_, ?_, ?_, hinv.channel, hinv.balance⟩, ?_, ?_⟩,
      ⟨hs.height, hs.sent, hs.first, hs.tip, hs.pairs⟩⟩
    · intro h hmem
      rcases List.mem_append.mp hmem with hmem | hmem
      · exact hinv.below h hmem
      · rw [List.mem_singleton.mp hmem, hhead]
        simp only [HeadState.observe]
        rcases Nat.eq_zero_or_pos s.applied with hzero | hpos
        · rw [hs.first hzero]
          omega
        · have htip := hs.tip hpos
          omega
    · intro hzero h hmem
      rcases List.mem_append.mp hmem with hmem | hmem
      · exact hinv.parent hzero h hmem
      · rw [List.mem_singleton.mp hmem, hhead]
        exact hs.first hzero
    · intro hlt
      obtain ⟨h, hmem, hheight⟩ := hinv.ahead hlt
      exact ⟨h, List.mem_append_left _ hmem, hheight⟩
    · intro u _
      cases u <;> simp [Rely, HeadState.observe]
    · rw [Names, hhead]
      exact ⟨hs.first, hs.tip⟩

theorem safe_asks {α : Type} {p : NodeProg α}
    (hparent : heightOf config.initialHash ≤ config.initialHeight.toNat)
    (hp : p.Performs (Asks app)) (hs : Waiting heightOf config app s) :
    SafeDriver heightOf sha256 ctx config .application
      (fun _ => Waiting heightOf config app) p s := by
  refine safe_of_performs (J := Waiting heightOf config app)
    (fun _ _ => Waiting.stable) ?_ hp hs
  intro o ho s₁ ans s₂ hinv hJ h
  exact allowed_of_asks hparent ho hinv hJ h

variable (config) in
/-- The actor has made the block of its height the head and not broadcast it yet. -/
def Applied (app : Application) (s : HeadState) : Prop :=
  app.height.toNat + 1 = config.initialHeight.toNat + s.applied ∧
    s.taken + s.channel.length + 1 = s.applied ∧ app.height.toNat + 1 < 2 ^ 64

theorem Applied.stable (hs : Applied config app s) (h : Rely .application s s') :
    Applied config app s' := by
  obtain ⟨happlied, hsent⟩ := h
  rw [Applied, happlied, hsent]
  exact hs

theorem safe_applied {α : Type} {p : NodeProg α} (hp : p.Performs Quiet)
    (hs : Applied config app s) :
    SafeDriver heightOf sha256 ctx config .application
      (fun _ => Applied config app) p s := by
  refine safe_of_performs (J := Applied config app)
    (fun _ _ => Applied.stable) ?_ hp hs
  intro o ho s₁ ans s₂ hinv hJ h
  refine ⟨allowed_of_quiet ho hinv h, ?_⟩
  rw [eq_of_quiet ho h]
  exact hJ

theorem allowed_of_apply {state : EngineForkchoiceState} {ans : Ans (.forkchoiceUpdated state none)}
    (hinv : Ordered heightOf config s) (hs : Waiting heightOf config app s)
    (hhead : heightOf state.headBlockHash = app.height.toNat)
    (h : (rangedDrivers heightOf sha256 ctx config).sem .application
      (.forkchoiceUpdated state none) s ans s') :
    (Ordered heightOf config s' ∧ Guar .application s s' ∧
      Names heightOf config .application (.forkchoiceUpdated state none) s ans) ∧
      Applied config app s' := by
  obtain ⟨⟨-, -, hs'⟩, hrange⟩ := h
  simp only [InRange] at hrange
  have hheight := hs.height
  have hsent := hs.sent
  rw [hs']
  refine ⟨⟨⟨?_, ?_, ?_, hinv.channel, ?_⟩, ?_, ?_⟩, ?_⟩
  · intro h hmem
    simp only [HeadState.observe] at hmem ⊢
    rcases List.mem_append.mp hmem with hmem | hmem
    · have hbelow := hinv.below h hmem
      omega
    · rw [List.mem_singleton.mp hmem]
      omega
  · intro hzero
    simp only [HeadState.observe] at hzero
    omega
  · intro _
    refine ⟨state.headBlockHash, List.mem_append_right _ (List.mem_singleton_self _), ?_⟩
    simp only [HeadState.observe]
    omega
  · have hbalance := hinv.balance
    simp only [HeadState.observe]
    omega
  · intro u hu
    cases u with
    | application => exact absurd rfl hu
    | finalization => rfl
  · rw [Names, hhead, hheight]
  · simp only [Applied, HeadState.observe]
    omega

theorem Waiting.quiet (hs : Waiting heightOf config app s)
    (h : (rangedDrivers heightOf sha256 ctx config).sem .application o s ans s')
    (ho : Quiet o) : Waiting heightOf config app s' := by
  rw [eq_of_quiet ho h]
  exact ⟨hs.height, hs.sent, hs.first, hs.tip, hs.pairs⟩

theorem safe_applyBuiltPayload (hhead : heightOf payload.blockHash = app.height.toNat)
    (hs : Waiting heightOf config app s) :
    SafeDriver heightOf sha256 ctx config .application (fun _ => Applied config app)
      (applyBuiltPayload payload) s := by
  unfold applyBuiltPayload callNewPayload requestNewPayload
  cases payload.toExecutionPayload with
  | none =>
      intro s₁ _ _ ans
      exact ans.elim
  | some sent =>
      intro s₁ hrely hinv ans s₂ h
      have hs₂ := (hs.stable hrely).quiet h trivial
      refine ⟨allowed_of_quiet trivial hinv h, ?_⟩
      obtain ⟨⟨-, ⟨latest, rfl⟩, -⟩, -⟩ := h
      -- the payload was valid, so the head is set to it
      intro s₃ hrely₃ hinv₃ cached s₄ h₄
      have hs₄ := (hs₂.stable hrely₃).quiet h₄ trivial
      refine ⟨allowed_of_quiet trivial hinv₃ h₄, ?_⟩
      intro s₅ hrely₅ hinv₅ response s₆ h₆
      obtain ⟨hallowed, hs₆⟩ := allowed_of_apply hinv₅ (hs₄.stable hrely₅) hhead h₆
      refine ⟨hallowed, ?_⟩
      obtain ⟨⟨-, ⟨latest', id, rfl⟩, -⟩, -⟩ := h₆
      exact safe_applied ⟨trivial, fun _ => trivial⟩ hs₆

theorem safe_broadcast {app' : Application} (hs : Applied config app s)
    (hblock : heightOf block.blockHash = app.height.toNat)
    (hheight : app'.height = app.height + 1) (hlast : app'.lastHash = block.blockHash)
    (hpairs : Pairs (Belongs heightOf) app') :
    SafeDriver heightOf sha256 ctx config .application (fun _ => Waiting heightOf config app')
      (op (.broadcastBlock block)) s := by
  intro s₁ hrely hinv ans s₂ h
  obtain ⟨⟨-, -, hs'⟩, -⟩ := h
  obtain ⟨hnext, hsent, hrange⟩ := hs.stable hrely
  have hchannel := hinv.channel
  have hbalance := hinv.balance
  have hsucc : app'.height.toNat = app.height.toNat + 1 := by
    rw [hheight]
    exact toNat_succ hrange
  rw [hs']
  refine ⟨⟨⟨hinv.below, hinv.parent, hinv.ahead, ?_, ?_⟩, ?_, ?_⟩, ⟨?_, ?_, ?_, ?_, hpairs⟩⟩
  · intro i b hi
    simp only [HeadState.observe] at hi ⊢
    rw [List.getElem?_append] at hi
    split at hi
    · exact hchannel i b hi
    · rename_i hlen
      have hb : i = s₁.channel.length ∧ block = b := by
        rw [List.getElem?_singleton] at hi
        split at hi
        · exact ⟨by omega, Option.some.inj hi⟩
        · cases hi
      obtain ⟨rfl, rfl⟩ := hb
      omega
  · simp only [HeadState.observe, List.length_append, List.length_singleton]
    omega
  · intro u hu
    cases u with
    | application => exact absurd rfl hu
    | finalization => rfl
  · trivial
  · simp only [HeadState.observe]
    omega
  · simp only [HeadState.observe, List.length_append, List.length_singleton]
    omega
  · intro hzero
    simp only [HeadState.observe] at hzero
    omega
  · intro _
    rw [hlast]
    simp only [HeadState.observe]
    omega

theorem Waiting.congr {app' : Application} (hs : Waiting heightOf config app s)
    (hheight : app'.height = app.height) (hlast : app'.lastHash = app.lastHash)
    (hpairs : Pairs (Belongs heightOf) app') : Waiting heightOf config app' s := by
  refine ⟨?_, hs.sent, ?_, ?_, hpairs⟩
  · rw [hheight, hs.height]
  · rw [hlast]
    exact hs.first
  · rw [hlast]
    exact hs.tip

theorem safe_finalize (digest : AppDigest) (hs : Waiting heightOf config app s) :
    SafeDriver heightOf sha256 ctx config .application (Waiting heightOf config)
      (app.processMessage sha256 (.finalize digest)) s := by
  simp only [Application.processMessage]
  unfold Application.finalize
  split
  · rename_i hlookup
    exact hs.congr rfl rfl (hs.pairs.unknown hlookup)
  · rename_i block hlookup
    obtain ⟨payload, hpayload, hblock, hhash⟩ := hs.pairs digest block hlookup
    by_cases hheight : block.height = app.height
    · have hvalid : Application.isValidHeight
          { app with pendingBlocks := app.pendingBlocks.erase digest } block = true :=
        beq_iff_eq.mpr hheight
      simp only [hvalid, Bool.not_true, Bool.false_eq_true, if_false, hpayload]
      rw [Prog.bind_assoc]
      have hhead : heightOf payload.blockHash = app.height.toNat := by
        rw [hhash, hblock, hheight]
      have happly : SafeDriver heightOf sha256 ctx config .application
          (fun _ => Applied config app) (applyToReth (some payload)) s :=
        safe_bind (safe_applyBuiltPayload hhead hs) fun _ _ happlied => happlied
      refine safe_bind happly ?_
      intro _ s₁ hs₁
      rw [Prog.bind_assoc]
      have hnext : (advanced app digest block).height = app.height + 1 := by
        rw [advanced_height, hheight]
      refine safe_bind (safe_broadcast hs₁ ?_ hnext rfl hs.pairs.advanced)
        fun _ _ hwaiting => hwaiting
      rw [hblock, hheight]
    · have hvalid : Application.isValidHeight
          { app with pendingBlocks := app.pendingBlocks.erase digest } block = false :=
        beq_eq_false_iff_ne.mpr hheight
      simp only [hvalid, Bool.not_false, if_true]
      exact hs.congr rfl rfl hs.pairs.dropped

theorem asks_buildPayload (timestamp : UInt64) :
    (startBuilding app.lastHash timestamp app.proposer).Performs (Asks app) :=
  performs_startBuilding (.inl trivial) fun _ => .inr ⟨_, _, rfl, rfl⟩

theorem toBuiltPayload_eq_some {built : BuiltPayload} {executionPayload : ExecutionPayloadV3}
    (h : toBuiltPayload executionPayload = some built) :
    built.blockHash = executionPayload.payloadInner.payloadInner.blockHash ∧
      built.blockNumber = executionPayload.payloadInner.payloadInner.blockNumber := by
  unfold toBuiltPayload at h
  dsimp only at h
  split at h
  · cases h
    exact ⟨rfl, rfl⟩
  · cases h

theorem safe_getPayload (payloadId : PayloadId) (hs : Waiting heightOf config app s) :
    SafeDriver heightOf sha256 ctx config .application
      (fun r s' => Waiting heightOf config app s' ∧
        ∀ payload, r = .ok payload → heightOf payload.blockHash = payload.blockNumber.toNat)
      (getPayload payloadId) s := by
  intro s₁ hrely hinv response s₂ h
  have hs₂ := (hs.stable hrely).quiet h trivial
  refine ⟨allowed_of_quiet trivial hinv h, ?_⟩
  obtain ⟨⟨-, hanswer, -⟩, -⟩ := h
  cases response with
  | clientError reason => exact ⟨hs₂, by simp⟩
  | requestError e => exact ⟨hs₂, by simp⟩
  | answer executionPayload =>
      cases hbuilt : toBuiltPayload executionPayload with
      | none =>
          simp only [RpcAnswer.result, Prog.bind, hbuilt]
          intro s₃ _ _ ans
          exact ans.elim
      | some built =>
          simp only [RpcAnswer.result, Prog.bind, hbuilt]
          refine ⟨hs₂, ?_⟩
          rintro _ ⟨rfl⟩
          obtain ⟨hhash, hnumber⟩ := toBuiltPayload_eq_some hbuilt
          rw [hhash, hnumber]
          exact hanswer executionPayload rfl

theorem safe_propose (hparent : heightOf config.initialHash ≤ config.initialHeight.toNat)
    (hs : Waiting heightOf config app s) :
    SafeDriver heightOf sha256 ctx config .application
      (fun r => Waiting heightOf config r.2) (app.propose sha256) s := by
  rw [propose_eq]
  refine safe_bind (safe_asks hparent (performs_timeToBuild (.inl trivial) (.inl trivial)
    (.inl trivial)) hs) ?_
  intro timestamp s₁ hs₁
  cases timestamp with
  | none => exact hs₁
  | some timestamp =>
      simp only [buildAt, Application.buildViaReth]
      rw [Prog.bind_assoc]
      refine safe_bind (safe_asks hparent (asks_buildPayload timestamp) hs₁) ?_
      intro response s₂ hs₂
      cases response with
      | error e => exact hs₂
      | ok payloadId =>
          simp only
          rw [Prog.bind_assoc]
          refine safe_bind (safe_getPayload payloadId hs₂) ?_
          rintro response s₃ ⟨hs₃, hpayload⟩
          cases response with
          | error e => exact hs₃
          | ok payload =>
              have hbelongs : Belongs heightOf (computeDigest sha256 payload.blockHash)
                  (buildBlockFromPayload payload) payload := ⟨hpayload payload rfl, rfl⟩
              simp only [Prog.pure_eq, Prog.pure_bind]
              refine safe_bind (safe_asks (p := op (.relayBlock
                (proposedBlock sha256 payload))) hparent
                ⟨.inl trivial, fun _ => trivial⟩ hs₃) ?_
              intro _ s₄ hs₄
              exact hs₄.congr rfl rfl (Pairs.stored (v := ∅) hs₄.pairs hbelongs)

theorem safe_processMessage
    (hparent : heightOf config.initialHash ≤ config.initialHeight.toNat) (message : Message)
    (hreceive : ∀ d b p, message = .receiveBlock d b p → Belongs heightOf d b p)
    (hs : Waiting heightOf config app s) :
    SafeDriver heightOf sha256 ctx config .application (Waiting heightOf config)
      (app.processMessage sha256 message) s := by
  have hop : ∀ {s₁ : HeadState} {app' : Application} (o : NodeOp), Quiet o →
      Waiting heightOf config app' s₁ →
      SafeDriver heightOf sha256 ctx config .application
        (fun _ => Waiting heightOf config app') (op o) s₁ :=
    fun o ho hs₁ => safe_asks hparent ⟨.inl ho, fun _ => trivial⟩ hs₁
  cases message with
  | genesis epoch =>
      refine safe_bind (hop (.respondDigest _) trivial hs) ?_
      intro _ s₁ hs₁
      exact hs₁.congr rfl rfl hs₁.pairs
  | propose =>
      refine safe_bind (safe_propose hparent hs) ?_
      intro r s₁ hs₁
      exact safe_bind (hop (.respondDigest r.1) trivial hs₁) fun _ _ hs₂ => hs₂
  | verify digest =>
      obtain ⟨v, hv⟩ := verify_snd app digest
      refine safe_bind (hop (.respondValid _) trivial hs) ?_
      intro _ s₁ hs₁
      change Waiting heightOf config (app.verify digest).2 s₁
      rw [hv]
      exact hs₁.congr rfl rfl hs₁.pairs
  | broadcast digest => exact hs
  | finalize digest => exact safe_finalize digest hs
  | receiveBlock digest block payload =>
      simp only [Application.processMessage]
      unfold Application.handleReceiveBlock
      split
      · exact hs
      · have himport : (importPayload payload).Performs (Asks app) :=
          performs_importPayload (fun _ => .inl trivial) fun _ _ => .inl trivial
        refine safe_bind (safe_asks hparent himport hs) ?_
        intro response s₁ hs₁
        exact hs₁.congr rfl rfl
          (Pairs.stored hs₁.pairs (hreceive digest block payload rfl))

/-- The operations of the callback: it names no other head than its block. -/
def NamesBlock (block : Block) : NodeOp → Prop
  | .broadcastBlock _ => False
  | .forkchoiceUpdated state _ => state.headBlockHash = block.blockHash
  | _ => True

theorem namesBlock_processFinalizedBlock (block : Block) (isLeader : Bool) :
    (processFinalizedBlock ctx block isLeader).Performs (NamesBlock block) := by
  apply performs_processFinalizedBlock
  · apply performs_executeAndUpdateForkchoice
    · exact performs_executeBlock (fun _ => trivial) fun _ _ => trivial
    · trivial
    · exact fun current => performs_updateForkchoice rfl trivial
    · exact fun current => trivial
  · trivial
  · exact performs_submitToCelestia trivial (fun _ => trivial) (fun _ => trivial) fun _ _ => trivial

variable (heightOf config) in
def Processing (block : Block) (s : HeadState) : Prop :=
  0 < s.taken ∧ heightOf block.blockHash + 1 = config.initialHeight.toNat + s.taken

theorem Processing.stable (hs : Processing heightOf config block s)
    (h : Rely .finalization s s') : Processing heightOf config block s' := by
  have htaken : s'.taken = s.taken := h
  rw [Processing, htaken]
  exact hs

theorem allowed_of_namesBlock (ho : NamesBlock block o) (hinv : Ordered heightOf config s)
    (hs : Processing heightOf config block s)
    (h : (rangedDrivers heightOf sha256 ctx config).sem .finalization o s ans s') :
    (Ordered heightOf config s' ∧ Guar .finalization s s' ∧
      Names heightOf config .finalization o s ans) ∧ Processing heightOf config block s' := by
  by_cases hquiet : Quiet o
  · refine ⟨allowed_of_quiet hquiet hinv h, ?_⟩
    rw [eq_of_quiet hquiet h]
    exact hs
  · cases o <;> first | exact absurd trivial hquiet | exact ho.elim | skip
    rename_i state attributes
    obtain ⟨⟨-, -, hs'⟩, -⟩ := h
    obtain ⟨hpos, hheight⟩ := hs
    have hhead : state.headBlockHash = block.blockHash := ho
    have hbalance := hinv.balance
    have happlied : (s.observe .finalization (.forkchoiceUpdated state attributes)).applied =
        s.applied := by
      cases attributes <;> rfl
    rw [hs']
    refine ⟨⟨⟨?_, ?_, ?_, hinv.channel, ?_⟩, ?_, ?_⟩, hpos, hheight⟩
    · intro h hmem
      simp only [happlied]
      rcases List.mem_append.mp hmem with hmem | hmem
      · exact hinv.below h hmem
      · rw [List.mem_singleton.mp hmem, hhead]
        omega
    · intro hzero
      simp only [happlied] at hzero
      omega
    · intro hlt
      simp only [happlied] at hlt ⊢
      obtain ⟨h, hmem, hahead⟩ := hinv.ahead hlt
      exact ⟨h, List.mem_append_left _ hmem, hahead⟩
    · simp only [happlied]
      exact hbalance
    · intro u hu
      cases u with
      | application => exact ⟨happlied, rfl⟩
      | finalization => exact absurd rfl hu
    · rw [Names, hhead]
      exact ⟨hpos, hheight⟩

theorem safe_processFinalizedBlock (isLeader : Bool) (hs : Processing heightOf config block s) :
    SafeDriver heightOf sha256 ctx config .finalization (fun _ _ => True)
      (processFinalizedBlock ctx block isLeader) s := by
  refine Safe.mono (safe_of_performs (J := Processing heightOf config block)
    (fun _ _ => Processing.stable) ?_ (namesBlock_processFinalizedBlock block isLeader) hs)
    fun _ _ _ => trivial
  intro o ho s₁ ans s₂ hinv hJ h
  exact allowed_of_namesBlock ho hinv hJ h

theorem relyGuarantee (hparent : heightOf config.initialHash ≤ config.initialHeight.toNat) :
    RelyGuarantee (rangedDrivers heightOf sha256 ctx config) (Ordered heightOf config) Rely Guar
      (Names heightOf config) (Good heightOf config) where
  refl := rely_refl
  trans _ _ _ _ := rely_trans
  guarantee _ u _ _ hu h := h u hu
  good t _ _ _ hs h := by
    cases t with
    | application => exact Waiting.stable hs h
    | finalization => trivial
  accepted t l s x s' hinv hs haccept := by
    cases t with
    | application =>
        obtain ⟨hreceive, rfl⟩ := haccept
        refine ⟨hinv, fun u _ => rely_refl u _, ?_⟩
        exact safe_processMessage hparent x hreceive hs
    | finalization =>
        obtain ⟨block, isLeader⟩ := x
        obtain ⟨rest, hchannel, rfl⟩ := haccept
        have hfirst := hinv.channel 0 block (by rw [hchannel]; rfl)
        have hbalance := hinv.balance
        rw [hchannel, List.length_cons] at hbalance
        refine ⟨⟨hinv.below, hinv.parent, ?_, ?_, ?_⟩, ?_, ?_⟩
        · intro hlt
          exact hinv.ahead (by omega)
        · intro i b hi
          have hb := hinv.channel (i + 1) b (by rw [hchannel]; exact hi)
          simp only
          omega
        · simp only
          omega
        · intro u hu
          cases u with
          | application =>
              refine ⟨rfl, ?_⟩
              simp only [hchannel, List.length_cons]
              omega
          | finalization => exact absurd rfl hu
        · apply safe_processFinalizedBlock
          refine ⟨Nat.succ_pos _, ?_⟩
          simp only
          omega

end Proof

section Order

variable {heightOf : B256 → Nat} {sha256 : List UInt8 → AppDigest} {ctx : FinalizationContext}
  {config : ApplicationConfig} {ts : List HeadTransition} {c c' : HeadConfig}
  {l : Label Ans HeadInput}

theorem neverDecreases_append_singleton {heads : List B256} {head : B256} :
    NeverDecreases heightOf (heads ++ [head]) ↔
      NeverDecreases heightOf heads ∧ ∀ h ∈ heads, heightOf h ≤ heightOf head := by
  rw [NeverDecreases, List.pairwise_append]
  constructor
  · rintro ⟨hheads, -, hlast⟩
    exact ⟨hheads, fun h hmem => hlast h hmem head (List.mem_singleton_self _)⟩
  · rintro ⟨hheads, hlast⟩
    refine ⟨hheads, List.pairwise_singleton _ _, ?_⟩
    intro h hmem h' hmem'
    rw [List.mem_singleton.mp hmem']
    exact hlast h hmem

/-- The heads that the loop names keep the order exactly where the actor is not ahead. -/
theorem loop_keeps_order_iff {s : HeadState} {head : B256} (hordered : Ordered heightOf config s)
    (hpos : 0 < s.taken) (hhead : heightOf head + 1 = config.initialHeight.toNat + s.taken) :
    s.applied ≤ s.taken ↔ ∀ h ∈ s.heads, heightOf h ≤ heightOf head := by
  constructor
  · intro hle h hmem
    have hbelow := hordered.below h hmem
    omega
  · intro hall
    by_contra hlt
    obtain ⟨h, hmem, hahead⟩ := hordered.ahead (by omega)
    have hle := hall h hmem
    omega

theorem actor_keeps_order {s : HeadState} {state : EngineForkchoiceState}
    {attributes : Option EnginePayloadAttributes} {ans : Ans (.forkchoiceUpdated state attributes)}
    (hordered : Ordered heightOf config s)
    (hnames : Names heightOf config .application (.forkchoiceUpdated state attributes) s ans) :
    ∀ h ∈ s.heads, heightOf h ≤ heightOf state.headBlockHash := by
  intro h hmem
  have hbelow := hordered.below h hmem
  cases attributes with
  | none =>
      simp only [Names] at hnames
      omega
  | some attributes =>
      obtain ⟨hfirst, htip⟩ := hnames
      rcases Nat.eq_zero_or_pos s.applied with hzero | hpos
      · rw [hfirst hzero, hordered.parent hzero h hmem]
      · have hheight := htip hpos
        omega

theorem notAhead_iff_of_step
    (hstep : Step (rangedDrivers heightOf sha256 ctx config) c l c')
    (hordered : Ordered heightOf config c.shared)
    (hnames : ∀ t o ans, l = .act t ⟨o, ans⟩ → Names heightOf config t o c.shared ans) :
    (NeverDecreases heightOf c'.shared.heads → NeverDecreases heightOf c.shared.heads) ∧
      (NeverDecreases heightOf c.shared.heads →
        (notAhead ⟨c, l, c'⟩ = true ↔ NeverDecreases heightOf c'.shared.heads)) := by
  cases hstep with
  | @start t app x s' hidle haccept =>
      have hheads : s'.heads = c.shared.heads := by
        cases t with
        | application => rw [haccept.2]
        | finalization =>
            obtain ⟨rest, -, rfl⟩ := haccept
            rfl
      rw [hheads]
      exact ⟨id, fun h => ⟨fun _ => h, fun _ => rfl⟩⟩
  | @act t o k ans s' hop hsem =>
      obtain ⟨⟨-, -, hs'⟩, -⟩ := hsem
      have hallowed := hnames t o ans rfl
      rw [hs']
      by_cases hhead : ∃ state attributes, o = .forkchoiceUpdated state attributes
      · obtain ⟨state, attributes, rfl⟩ := hhead
        have hheads : (c.shared.observe t (.forkchoiceUpdated state attributes)).heads =
            c.shared.heads ++ [state.headBlockHash] := rfl
        simp only [hheads, neverDecreases_append_singleton]
        refine ⟨And.left, ?_⟩
        intro hkept
        cases t with
        | application => exact ⟨fun _ => ⟨hkept, actor_keeps_order hordered hallowed⟩, fun _ => rfl⟩
        | finalization =>
            obtain ⟨hpos, hheight⟩ := hallowed
            rw [and_iff_right hkept, ← loop_keeps_order_iff hordered hpos hheight]
            exact decide_eq_true_iff
      · have hheads : (c.shared.observe t o).heads = c.shared.heads := by
          cases o <;> first | rfl | exact absurd ⟨_, _, rfl⟩ hhead
        have hnot : notAhead ⟨c, .act t ⟨o, ans⟩,
            ⟨{ c.shared.observe t o with node := s'.node },
              Function.update c.task t (k ans)⟩⟩ = true := by
          cases t <;> cases o <;> first | rfl | exact absurd ⟨_, _, rfl⟩ hhead
        simp only [hheads]
        exact ⟨id, fun h => ⟨fun _ => h, fun _ => hnot⟩⟩

variable (heightOf config) in
abbrev SafeDrivers (sha256 : List UInt8 → AppDigest) (ctx : FinalizationContext)
    (c : HeadConfig) : Prop :=
  SafeConfig (rangedDrivers heightOf sha256 ctx config) (Ordered heightOf config) Rely Guar
    (Names heightOf config) (Good heightOf config) c

theorem safeDrivers_initial : SafeDrivers heightOf config sha256 ctx (initial config) := by
  refine ⟨⟨by simp [initial], by simp [initial], by simp [initial], by simp [initial],
    le_rfl⟩, ?_⟩
  intro t
  cases t with
  | application =>
      exact ⟨rfl, rfl, fun _ => rfl, fun hpos => absurd hpos (lt_irrefl 0), pairs_new config⟩
  | finalization => trivial

/-- The heads that reth is sent never decrease exactly when the loop makes no block
the head after the actor has applied a later one. -/
theorem neverDecreases_iff_notAhead
    (hparent : heightOf config.initialHash ≤ config.initialHeight.toNat)
    (hrun : Run (Step (drivers heightOf sha256 ctx)) (initial config) ts c)
    (hrange : ∀ tr ∈ ts, config.initialHeight.toNat + tr.pre.shared.applied + 1 < 2 ^ 64) :
    NeverDecreases heightOf c.shared.heads ↔ ∀ tr ∈ ts, notAhead tr = true := by
  have hrestricted : Run (Step (rangedDrivers heightOf sha256 ctx config)) (initial config)
      ts c := by
    refine run_restrict hrun ?_
    intro tr htr t o ans _
    unfold InRange
    split
    · exact hrange tr htr
    · trivial
  have hrules : RelyGuarantee (rangedDrivers heightOf sha256 ctx config) (Ordered heightOf config)
      Rely Guar (Names heightOf config) (Good heightOf config) := relyGuarantee hparent
  have hstep : ∀ tr : HeadTransition,
      Step (rangedDrivers heightOf sha256 ctx config) tr.pre tr.label tr.post →
      SafeDrivers heightOf config sha256 ctx tr.pre → _ := fun tr htr hsafe =>
    notAhead_iff_of_step htr hsafe.1 (hrules.step htr hsafe).2
  have hall := @Run.forall_iff _ _ _ _ _ _ (SafeDrivers heightOf config sha256 ctx)
    (fun c => NeverDecreases heightOf c.shared.heads) (fun _ => True)
    (fun tr => notAhead tr = true)
    (fun tr htr _ hsafe => (hrules.step htr hsafe).1)
    (fun tr htr _ hsafe hkept => (hstep tr htr hsafe).2 hkept)
    (fun tr htr hsafe hkept => (hstep tr htr hsafe).1 hkept)
    hrestricted (fun _ _ => trivial) safeDrivers_initial
  exact (hall.2 List.Pairwise.nil).symm

end Order

section Schedules

variable (heightOf : B256 → Nat)

def driverEnvironment : Environment NodeOp Ans HeadState HeadTask HeadLocal HeadInput where
  answer t o s :=
    match o with
    | .broadcastBlock block =>
        some ((() : Ans (.broadcastBlock block)), s.observe t (.broadcastBlock block))
    | o => (acceptingNode genesisBackend o s.node).map fun r =>
        (r.1, { s.observe t o with node := r.2 })
  take
    | .application, _, s, message =>
        match (message : Message) with
        | .receiveBlock _ block payload =>
            if heightOf block.blockHash = block.height.toNat ∧
                payload.blockHash = block.blockHash then some s
            else none
        | _ => some s
    | .finalization, _, s, (block, _) =>
        if s.channel.head? = some block then
          some { s with channel := s.channel.tail, taken := s.taken + 1 }
        else none

variable {heightOf}

theorem answered_of_acceptingNode {o : NodeOp} {node node' : NodeState} {ans : Ans o}
    (h : acceptingNode genesisBackend o node = some (ans, node')) : Answered heightOf o ans := by
  cases o <;> first | trivial | (cases h; exact ⟨_, rfl⟩) | (cases h; exact ⟨_, _, rfl⟩)

variable (heightOf) in
theorem driverEnvironment_sound (sha256 : List UInt8 → AppDigest) (ctx : FinalizationContext) :
    (driverEnvironment heightOf).Sound (drivers heightOf sha256 ctx) where
  answer t o s ans s' h := by
    simp only [driverEnvironment] at h
    split at h
    · cases h
      exact ⟨rfl, trivial, rfl⟩
    · obtain ⟨⟨ans', node⟩, hnode, heq⟩ := Option.map_eq_some_iff.mp h
      simp only [Prod.mk.injEq] at heq
      obtain ⟨rfl, rfl⟩ := heq
      exact ⟨acceptingNode_sound genesisBackend o s.node ans' node hnode,
        answered_of_acceptingNode hnode, rfl⟩
  take t l s x s' h := by
    cases t with
    | application =>
        simp only [driverEnvironment] at h
        split at h
        · obtain ⟨hbelongs, ⟨⟩⟩ := Option.ite_none_right_eq_some.mp h
          refine ⟨?_, rfl⟩
          rintro d b p ⟨rfl⟩
          exact hbelongs
        · rename_i message hmessage
          cases h
          refine ⟨?_, rfl⟩
          rintro d b p rfl
          exact absurd rfl (hmessage d b p)
    | finalization =>
        obtain ⟨block, isLeader⟩ := x
        obtain ⟨hhead, ⟨⟩⟩ := Option.ite_none_right_eq_some.mp h
        exact ⟨_, (List.cons_head?_tail hhead).symm, rfl⟩

def firstByte (hash : B256) : Nat := (hash.bytes.headD 0).toNat

def exampleContext : FinalizationContext where
  celestia := digestClient
  batchTx := true
  batchEnabled := true

def chainProposal (n : Nat) : ProposedBlock :=
  proposedBlock Library.Sha256.sha256 (emptyPayload (UInt64.ofNat n)
    (FixedBytes.repeatByte (UInt8.ofNat (n - 1))) (FixedBytes.repeatByte (UInt8.ofNat n)))

def receives (n : Nat) : List (Move HeadInput) :=
  [.start .application (.receiveBlock (chainProposal n).digest (chainProposal n).block
    (chainProposal n).payload), .act .application]

def finalizes (n : Nat) : List (Move HeadInput) :=
  .start .application (.finalize (chainProposal n).digest) ::
    List.replicate 5 (.act .application)

def processes (n : Nat) : List (Move HeadInput) :=
  .start .finalization ((chainProposal n).block, false) ::
    List.replicate 6 (.act .finalization)

theorem neverDecreases_iff_notAhead_alternating :
    ∃ ts c, Run (Step (drivers firstByte Library.Sha256.sha256 exampleContext))
        (initial genesisConfig) ts c ∧
      c.shared.heads.map firstByte = [1, 1, 2, 2] ∧
      (NeverDecreases firstByte c.shared.heads ↔ ∀ tr ∈ ts, notAhead tr = true) := by
  obtain ⟨ts, c, hrun, hcheck⟩ := exists_run_of_play
    (step_of_playMove (driverEnvironment_sound firstByte Library.Sha256.sha256 exampleContext))
    (initial genesisConfig)
    (receives 1 ++ finalizes 1 ++ processes 1 ++ receives 2 ++ finalizes 2 ++ processes 2)
    (fun ts c => decide (c.shared.heads.map firstByte = [1, 1, 2, 2]) &&
      ts.all fun tr => decide (genesisConfig.initialHeight.toNat + tr.pre.shared.applied + 1 <
        2 ^ 64)) (by decide +kernel)
  simp only [Bool.and_eq_true, decide_eq_true_eq, List.all_eq_true] at hcheck
  exact ⟨ts, c, hrun, hcheck.1, neverDecreases_iff_notAhead (by decide) hrun hcheck.2⟩

/-- The actor applies blocks 1 and 2 before the loop processes block 1. -/
theorem actorAhead_decreases :
    ∃ ts c, Run (Step (drivers firstByte Library.Sha256.sha256 exampleContext))
        (initial genesisConfig) ts c ∧
      c.shared.heads.map firstByte = [1, 2, 1] ∧ ¬ NeverDecreases firstByte c.shared.heads := by
  obtain ⟨ts, c, hrun, hcheck⟩ := exists_run_of_play
    (step_of_playMove (driverEnvironment_sound firstByte Library.Sha256.sha256 exampleContext))
    (initial genesisConfig)
    (receives 1 ++ receives 2 ++ finalizes 1 ++ finalizes 2 ++ processes 1)
    (fun _ c => decide (c.shared.heads.map firstByte = [1, 2, 1])) (by decide +kernel)
  have hheads := of_decide_eq_true hcheck
  refine ⟨ts, c, hrun, hheads, ?_⟩
  intro hordered
  have hmapped : (c.shared.heads.map firstByte).Pairwise (· ≤ ·) := List.pairwise_map.mpr hordered
  rw [hheads] at hmapped
  exact absurd hmapped (by decide)

end Schedules

end Rkb.Sequencer.HeadOrder
