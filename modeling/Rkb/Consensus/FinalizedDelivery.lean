import Rkb.Library.Broadcast
import Rkb.Consensus.ActorRuns
import Rkb.Consensus.Runtime

/-!
The finalization loop beside the application actor. The actor sends each block it
finalizes to a broadcast channel and never waits; the loop takes the next block
when the callback of the last one has returned.
-/

namespace Rkb.Consensus.FinalizedDelivery

open Rkb.Library.Bytes
open Rkb.Library.Program
open Rkb.Library.Runs
open Rkb.Library.Broadcast
open Rkb.Types.Blocks
open Rkb.Execution.Payload
open Rkb.Consensus.Messages
open Rkb.Consensus.Runtime
open Rkb.Consensus.Actor
open Rkb.Consensus.ActorSteps
open Rkb.Consensus.ActorRuns

inductive BlockReceiveResult
  | block (block : Block)
  | error
  | stopped

/-- The branch of `wait_for_block` in which `recv` has returned. -/
def waitForBlock : Except RecvError Block → BlockReceiveResult
  | .ok block => .block block
  | .error _ => .error

/-- Where `run_finalization_loop` is: before the next block, in the callback of
one, or after the loop. -/
inductive LoopState
  | waiting
  | handling
  | terminated
deriving DecidableEq

/-- `delivered` are the calls of `on_finalized` so far, and `alive` tells whether
the actor still holds the sender. -/
structure DeliveryState where
  app : Application
  alive : Bool
  channel : Channel Block
  loop : LoopState
  delivered : List (Block × Bool)

inductive DeliveryLabel
  | message (l : ActorLabel)
  | actorStopped
  | received
  | stopped
  | callbackReturned

abbrev DeliveryTransition : Type := Transition DeliveryState DeliveryLabel

variable {PublicKey : Type} [DecidableEq PublicKey]

/-- The state in which the actor and the loop start. The channel retains as many
blocks as tokio makes of the capacity asked for. -/
def start (config : SimplexRuntimeConfig PublicKey) (retained : Nat) : DeliveryState where
  app := createApplication config
  alive := true
  channel := .new retained
  loop := .waiting
  delivered := []

/-- One turn of the loop, up to the call of `on_finalized`; the loop panics where
the leader cannot be computed. -/
def runFinalizationLoop (config : SimplexRuntimeConfig PublicKey) (s : DeliveryState) :
    BlockReceiveResult → DeliveryState
  | .block block =>
      match finalizedBlockIsLeader config block.height with
      | some leader =>
          { s with loop := .handling, delivered := s.delivered ++ [(block, leader)] }
      | none => { s with loop := .terminated }
  | .error => { s with loop := .terminated }
  | .stopped => { s with loop := .terminated }

inductive DeliveryStep (sha256 : List UInt8 → AppDigest)
    (config : SimplexRuntimeConfig PublicKey) :
    DeliveryState → DeliveryLabel → DeliveryState → Prop
  | message {s : DeliveryState} {l : ActorLabel} {app : Application} :
      s.alive = true → ActorStep sha256 s.app l app →
      DeliveryStep sha256 config s (.message l)
        { s with app := app, channel := s.channel.sendAll (broadcasts l.2) }
  | actorStopped {s : DeliveryState} :
      DeliveryStep sha256 config s .actorStopped { s with alive := false }
  | received {s : DeliveryState} {r : Except RecvError Block} {channel : Channel Block} :
      s.loop = .waiting → s.channel.recv (!s.alive) = some (r, channel) →
      DeliveryStep sha256 config s .received
        (runFinalizationLoop config { s with channel := channel } (waitForBlock r))
  | stopped {s : DeliveryState} :
      s.loop = .waiting →
      DeliveryStep sha256 config s .stopped (runFinalizationLoop config s .stopped)
  | callbackReturned {s : DeliveryState} :
      s.loop = .handling →
      DeliveryStep sha256 config s .callbackReturned { s with loop := .waiting }

def actorTransition (t : DeliveryTransition) : Option ActorTransition :=
  match t.label with
  | .message l => some ⟨t.pre.app, l, t.post.app⟩
  | _ => none

def actorSteps (ts : List DeliveryTransition) : List ActorTransition :=
  ts.filterMap actorTransition

def Continues (t : DeliveryTransition) : Prop :=
  t.label ≠ .stopped ∧ t.label ≠ .actorStopped

/-- When the loop takes a block, the channel still retains all it has not taken. -/
def KeepsUp (t : DeliveryTransition) : Prop :=
  t.label = .received → t.pre.channel.unread ≤ t.pre.channel.capacity

variable {sha256 : List UInt8 → AppDigest} {config : SimplexRuntimeConfig PublicKey}
  {retained : Nat} {s s' : DeliveryState} {l : DeliveryLabel} {ts : List DeliveryTransition}

theorem runFinalizationLoop_block (hstart : startSimplexRuntime config = .ok ()) (block : Block) :
    ∃ leader, runFinalizationLoop config s (.block block) =
      { s with loop := .handling, delivered := s.delivered ++ [(block, leader)] } := by
  obtain ⟨leader, hleader⟩ := finalizedBlockIsLeader_of_start hstart block.height
  exact ⟨leader, by simp only [runFinalizationLoop, hleader]⟩

theorem runFinalizationLoop_frame (config : SimplexRuntimeConfig PublicKey) (s : DeliveryState)
    (result : BlockReceiveResult) :
    (runFinalizationLoop config s result).app = s.app ∧
      (runFinalizationLoop config s result).alive = s.alive ∧
      (runFinalizationLoop config s result).channel = s.channel := by
  cases result with
  | block block =>
      simp only [runFinalizationLoop]
      split <;> exact ⟨rfl, rfl, rfl⟩
  | error => exact ⟨rfl, rfl, rfl⟩
  | stopped => exact ⟨rfl, rfl, rfl⟩

/-- The actor's part of a run is a run of the actor, whatever the loop does, and
the channel was sent what the actor finalized. -/
theorem actorRun_of_run (hrun : Run (DeliveryStep sha256 config) s ts s') :
    ActorRun sha256 s.app (actorSteps ts) s'.app ∧
      s'.channel.sent = s.channel.sent ++ finalizedBlocks (actorSteps ts) := by
  induction hrun with
  | nil s => exact ⟨.nil _, (List.append_nil _).symm⟩
  | @cons s s₁ s' l ts hstep _ ih =>
      obtain ⟨hactor, hsent⟩ := ih
      cases hstep with
      | @message l app halive hmessage =>
          refine ⟨.cons hmessage hactor, ?_⟩
          rw [hsent, Channel.sent_sendAll, List.append_assoc]
          rfl
      | actorStopped => exact ⟨hactor, hsent⟩
      | @received r channel hloop hrecv =>
          obtain ⟨happ, -, hchannel⟩ :=
            runFinalizationLoop_frame config { s with channel := channel } (waitForBlock r)
          rw [happ] at hactor
          rw [hchannel, (Channel.sent_of_recv hrecv).1] at hsent
          exact ⟨hactor, hsent⟩
      | stopped hloop => exact ⟨hactor, hsent⟩
      | callbackReturned hloop => exact ⟨hactor, hsent⟩

/-- Until the loop ends, it has passed on what it took from the channel. -/
structure InStep (retained : Nat) (s : DeliveryState) : Prop where
  alive : s.alive = true
  capacity : s.channel.capacity = retained
  delivered : s.loop ≠ .terminated →
    s.delivered.map Prod.fst = s.channel.sent.take s.channel.next

omit [DecidableEq PublicKey] in
theorem inStep_start : InStep retained (start config retained) where
  alive := rfl
  capacity := rfl
  delivered _ := rfl

theorem received_cases (hstart : startSimplexRuntime config = .ok ())
    {r : Except RecvError Block} {channel : Channel Block} (hs : InStep retained s)
    (hloop : s.loop = .waiting) (hrecv : s.channel.recv (!s.alive) = some (r, channel)) :
    InStep retained (runFinalizationLoop config { s with channel := channel } (waitForBlock r)) ∧
      (s.channel.unread ≤ s.channel.capacity ↔
        (runFinalizationLoop config { s with channel := channel } (waitForBlock r)).loop ≠
          .terminated) := by
  rw [hs.alive] at hrecv
  have hcapacity : channel.capacity = retained :=
    (Channel.sent_of_recv hrecv).2.trans hs.capacity
  rcases Channel.recv_open hrecv with ⟨hunread, block, rfl, htake⟩ | ⟨hlag, missed, rfl⟩
  · obtain ⟨leader, hturn⟩ :=
      runFinalizationLoop_block (s := { s with channel := channel }) hstart block
    simp only [waitForBlock, hturn]
    refine ⟨⟨hs.alive, hcapacity, fun _ => ?_⟩, ?_⟩
    · have hdelivered := hs.delivered (by simp [hloop])
      rw [List.map_append, hdelivered, htake]
      rfl
    · simp [hunread]
  · refine ⟨⟨hs.alive, hcapacity, fun h => absurd rfl h⟩, ?_⟩
    constructor
    · intro hunread
      omega
    · intro h
      exact absurd rfl h

theorem inStep_step (hstart : startSimplexRuntime config = .ok ()) {t : DeliveryTransition}
    (hstep : DeliveryStep sha256 config t.pre t.label t.post) (ht : Continues t)
    (hs : InStep retained t.pre) : InStep retained t.post := by
  obtain ⟨s, l, s'⟩ := t
  simp only at hstep hs ⊢
  cases hstep with
  | message halive hmessage =>
      refine ⟨hs.alive, ?_, ?_⟩
      · rw [Channel.capacity_sendAll, hs.capacity]
      · intro hloop
        rw [hs.delivered hloop, Channel.sent_sendAll, Channel.next_sendAll]
        exact (List.take_append_of_le_length s.channel.next_le).symm
  | actorStopped => exact absurd rfl ht.2
  | received hloop hrecv => exact (received_cases hstart hs hloop hrecv).1
  | stopped hloop => exact absurd rfl ht.1
  | callbackReturned hloop =>
      refine ⟨hs.alive, hs.capacity, fun _ => ?_⟩
      exact hs.delivered (by simp [hloop])

theorem keepsUp_iff (hstart : startSimplexRuntime config = .ok ()) {t : DeliveryTransition}
    (hstep : DeliveryStep sha256 config t.pre t.label t.post) (ht : Continues t)
    (hs : InStep retained t.pre) (hloop : t.pre.loop ≠ .terminated) :
    KeepsUp t ↔ t.post.loop ≠ .terminated := by
  obtain ⟨s, l, s'⟩ := t
  simp only at hstep hs hloop ⊢
  cases hstep with
  | message halive hmessage => simp [KeepsUp, hloop]
  | actorStopped => exact absurd rfl ht.2
  | received hwaiting hrecv =>
      have hiff := (received_cases hstart hs hwaiting hrecv).2
      rw [← hiff]
      simp [KeepsUp]
  | stopped hwaiting => exact absurd rfl ht.1
  | callbackReturned hhandling => simp [KeepsUp]

theorem loop_of_step {t : DeliveryTransition}
    (hstep : DeliveryStep sha256 config t.pre t.label t.post)
    (hloop : t.post.loop ≠ .terminated) : t.pre.loop ≠ .terminated := by
  obtain ⟨s, l, s'⟩ := t
  simp only at hstep hloop ⊢
  cases hstep with
  | message halive hmessage => exact hloop
  | actorStopped => exact hloop
  | received hwaiting hrecv => simp [hwaiting]
  | stopped hwaiting => simp [hwaiting]
  | callbackReturned hhandling => simp [hhandling]

/-- The callback has been given a prefix of the finalized blocks and the loop runs
on, exactly when the loop was never further behind than the channel reaches. -/
theorem delivered_prefix_iff_keepsUp (hstart : startSimplexRuntime config = .ok ())
    (hrun : Run (DeliveryStep sha256 config) (start config retained) ts s)
    (hcontinues : ∀ t ∈ ts, Continues t) :
    (s.delivered.map Prod.fst <+: finalizedBlocks (actorSteps ts) ∧ s.loop ≠ .terminated) ↔
      ∀ t ∈ ts, KeepsUp t := by
  have hinv := hrun.invariant (InStep retained) Continues
    (fun _ hstep ht hs => inStep_step hstart hstep ht hs) hcontinues inStep_start
  have hiff := @Run.forall_iff _ _ _ _ _ _ (InStep retained) (fun s => s.loop ≠ .terminated)
    Continues KeepsUp (fun _ hstep ht hs => inStep_step hstart hstep ht hs)
    (fun _ hstep ht hs hloop => keepsUp_iff hstart hstep ht hs hloop)
    (fun _ hstep _ hloop => loop_of_step hstep hloop) hrun hcontinues inStep_start
  rw [hiff.2 (by simp [start])]
  refine ⟨And.right, fun hloop => ⟨?_, hloop⟩⟩
  have hsent : s.channel.sent = finalizedBlocks (actorSteps ts) := (actorRun_of_run hrun).2
  rw [hinv.1.delivered hloop, hsent]
  exact List.take_prefix _ _

section Examples

def nextPayload (app : Application) : BuiltPayload :=
  emptyPayload app.height app.lastHash (FixedBytes.repeatByte app.height.toUInt8)

def nextDigest (app : Application) : AppDigest :=
  computeDigest Library.Sha256.sha256 (nextPayload app).blockHash

def NothingPending (app : Application) : Prop := ∀ d, app.pendingBlocks.lookup d = none

theorem exists_actorStep (app : Application) {message : Message}
    (h : (app.processMessage Library.Sha256.sha256 message).Performs Answered) :
    ∃ l app', l.1 = message ∧ ActorStep Library.Sha256.sha256 app l app' := by
  obtain ⟨tr, app', hexec⟩ := Prog.Performs.exists_exec h
  exact ⟨(message, tr), app', rfl, hexec⟩

theorem toExecutionPayload_nextPayload (app : Application) :
    (nextPayload app).toExecutionPayload ≠ none := by
  rw [← Option.isSome_iff_ne_none, toExecutionPayload_isSome]
  exact List.length_replicate

theorem exists_finalized (app : Application) (happ : NothingPending app) :
    ∃ l₁ app₁ l₂ app₂, ActorStep Library.Sha256.sha256 app l₁ app₁ ∧
      ActorStep Library.Sha256.sha256 app₁ l₂ app₂ ∧ broadcasts l₁.2 = [] ∧
      (∃ block, broadcasts l₂.2 = [block]) ∧ NothingPending app₂ := by
  obtain ⟨⟨m₁, tr₁⟩, app₁, rfl, hreceive⟩ := exists_actorStep app
    (answered_receiveBlock (nextDigest app) (buildBlockFromPayload (nextPayload app))
      (toExecutionPayload_nextPayload app))
  have hreceived := hreceive.outcome
  simp only at hreceived
  cases hreceived with
  | alreadyPending hpending =>
      rw [← Finmap.lookup_isSome, happ] at hpending
      cases hpending
  | received v _ hsilent =>
      have hblock : (stored app (nextDigest app) (buildBlockFromPayload (nextPayload app))
          (nextPayload app) v).pendingBlocks.lookup (nextDigest app) =
            some (buildBlockFromPayload (nextPayload app)) := by
        rw [lookup_stored, if_pos rfl]
      have hpayload : (stored app (nextDigest app) (buildBlockFromPayload (nextPayload app))
          (nextPayload app) v).pendingPayloads.lookup (nextDigest app) =
            some (nextPayload app) := by
        simp [stored]
      obtain ⟨⟨m₂, tr₂⟩, app₂, rfl, hfinalize⟩ :=
        exists_actorStep _ (answered_finalize hpayload (toExecutionPayload_nextPayload app))
      refine ⟨_, _, _, app₂, hreceive, hfinalize, hsilent.1, ?_⟩
      have hfinalized := hfinalize.outcome
      simp only at hfinalized
      cases hfinalized with
      | unknown hnone =>
          rw [hblock] at hnone
          cases hnone
      | wrongHeight hlookup hheight =>
          rw [hblock, Option.some.injEq] at hlookup
          rw [← hlookup] at hheight
          exact absurd rfl hheight
      | @finalized _ block _ hlookup _ hbroadcast _ _ =>
          refine ⟨⟨block, hbroadcast⟩, fun d => ?_⟩
          rw [Option.eq_none_iff_forall_ne_some]
          intro b hb
          obtain ⟨hne, hb, -⟩ := lookup_advanced.mp hb
          rw [lookup_stored, if_neg hne, happ] at hb
          cases hb

theorem exists_run_behind (config : SimplexRuntimeConfig PublicKey) (n : Nat)
    (halive : s.alive = true) (hpending : NothingPending s.app) :
    ∃ ts app blocks, Run (DeliveryStep Library.Sha256.sha256 config) s ts
        { s with app := app, channel := s.channel.sendAll blocks } ∧
      (∀ t ∈ ts, ∃ l, t.label = .message l) ∧ blocks.length = n ∧ NothingPending app := by
  induction n generalizing s with
  | zero => exact ⟨[], s.app, [], .nil _, by simp, rfl, hpending⟩
  | succ n ih =>
      obtain ⟨l₁, app₁, l₂, app₂, hreceive, hfinalize, hnone, ⟨block, hone⟩, hpending₂⟩ :=
        exists_finalized s.app hpending
      obtain ⟨ts, app, blocks, hrun, hlabels, hlength, hlast⟩ :=
        ih (s := { s with app := app₂, channel := s.channel.send block }) halive hpending₂
      have hfirst : DeliveryStep Library.Sha256.sha256 config s (.message l₁)
          { s with app := app₁, channel := s.channel.sendAll (broadcasts l₁.2) } :=
        .message halive hreceive
      rw [hnone, Channel.sendAll_nil] at hfirst
      have hsecond : DeliveryStep Library.Sha256.sha256 config { s with app := app₁ } (.message l₂)
          { s with app := app₂, channel := s.channel.sendAll (broadcasts l₂.2) } :=
        .message halive hfinalize
      rw [hone, Channel.sendAll_cons, Channel.sendAll_nil] at hsecond
      refine ⟨_, app, block :: blocks, .cons hfirst (.cons hsecond hrun), ?_, ?_, hlast⟩
      · simp only [List.forall_mem_cons]
        exact ⟨⟨l₁, rfl⟩, ⟨l₂, rfl⟩, hlabels⟩
      · rw [List.length_cons, hlength]

def singleValidator : SimplexRuntimeConfig Nat where
  publicKey := 0
  validators := [0]
  ourAddress := FixedBytes.zero
  initialHash := FixedBytes.zero
  blockTiming := .vanilla

theorem startSimplexRuntime_singleValidator :
    startSimplexRuntime singleValidator = .ok () := rfl

theorem nothingPending_start : NothingPending (start singleValidator retained).app := by
  intro d
  simp [start, createApplication, Application.new]

theorem continues_of_message {t : DeliveryTransition} (h : ∃ l, t.label = .message l) :
    Continues t ∧ KeepsUp t := by
  obtain ⟨l, hl⟩ := h
  simp [Continues, KeepsUp, hl]

theorem exists_first (hretained : 0 < retained) :
    ∃ ts s, Run (DeliveryStep Library.Sha256.sha256 singleValidator)
        (start singleValidator retained) ts s ∧
      (∀ t ∈ ts, Continues t ∧ KeepsUp t) ∧ s.alive = true ∧ s.loop = .handling ∧
      NothingPending s.app ∧ s.channel.capacity = retained ∧
      s.channel.sent.length = 1 ∧ s.channel.next = 1 ∧ s.delivered.length = 1 := by
  obtain ⟨ts, app, blocks, hrun, hlabels, hlength, hpending⟩ :=
    exists_run_behind (s := start singleValidator retained) singleValidator 1 rfl
      nothingPending_start
  generalize hchannel : (start singleValidator retained).channel.sendAll blocks = channel at hrun
  have hsent : channel.sent.length = 1 := by
    rw [← hchannel, Channel.sent_sendAll, List.length_append, hlength]
    rfl
  have hnext : channel.next = 0 := by
    rw [← hchannel, Channel.next_sendAll]
    rfl
  have hcapacity : channel.capacity = retained := by
    rw [← hchannel, Channel.capacity_sendAll]
    rfl
  have hunread : channel.unread ≤ channel.capacity := by
    rw [hcapacity, Channel.unread]
    omega
  obtain ⟨block, channel', hrecv, hnext'⟩ :=
    Channel.recv_of_retained hunread (by omega) false
  obtain ⟨leader, hturn⟩ := runFinalizationLoop_block
    (s := ⟨app, true, channel', .waiting, []⟩) startSimplexRuntime_singleValidator block
  have hreceived : DeliveryStep Library.Sha256.sha256 singleValidator
      ⟨app, true, channel, .waiting, []⟩ .received
      ⟨app, true, channel', .handling, [(block, leader)]⟩ := by
    have hstep := @DeliveryStep.received _ _ Library.Sha256.sha256 singleValidator
      ⟨app, true, channel, .waiting, []⟩ _ _ rfl hrecv
    rw [waitForBlock, hturn] at hstep
    exact hstep
  obtain ⟨hsent', hcapacity'⟩ := Channel.sent_of_recv hrecv
  refine ⟨_, _, hrun.append (.cons hreceived (.nil _)), ?_, rfl, rfl, hpending, ?_, ?_, ?_, rfl⟩
  · intro t ht
    rcases List.mem_append.mp ht with ht | ht
    · exact continues_of_message (hlabels t ht)
    · rw [List.mem_singleton.mp ht]
      exact ⟨⟨by simp, by simp⟩, fun _ => hunread⟩
  · exact hcapacity'.trans hcapacity
  · rw [hsent', hsent]
  · rw [hnext', hnext]

theorem delivered_prefix_iff_keepsUp_first :
    ∃ ts s, Run (DeliveryStep Library.Sha256.sha256 singleValidator)
        (start singleValidator 128) ts s ∧ s.delivered.length = 1 ∧
      s.delivered.map Prod.fst <+: finalizedBlocks (actorSteps ts) ∧ s.loop ≠ .terminated := by
  obtain ⟨ts, s, hrun, hall, -, -, -, -, -, -, hlength⟩ := exists_first (by decide : 0 < 128)
  have hiff := delivered_prefix_iff_keepsUp startSimplexRuntime_singleValidator hrun
    fun t ht => (hall t ht).1
  exact ⟨ts, s, hrun, hlength, hiff.mpr fun t ht => (hall t ht).2⟩

/-- During the callback of the first block the actor finalizes one block more than
the channel retains: the loop then ends, with all of them undelivered. -/
theorem slowCallback_ends_loop :
    startSimplexRuntime singleValidator = .ok () ∧
      ∀ retained ∈ [100, 128], ∃ ts s,
        Run (DeliveryStep Library.Sha256.sha256 singleValidator)
          (start singleValidator retained) ts s ∧
        (∀ t ∈ ts, Continues t) ∧
        (finalizedBlocks (actorSteps ts)).length = retained + 2 ∧
        s.delivered.length = 1 ∧
        ¬ (s.delivered.map Prod.fst <+: finalizedBlocks (actorSteps ts) ∧
          s.loop ≠ .terminated) := by
  refine ⟨startSimplexRuntime_singleValidator, ?_⟩
  intro retained hretained
  have hpositive : 0 < retained := by
    simp only [List.mem_cons, List.not_mem_nil, or_false] at hretained
    omega
  obtain ⟨ts, s, hrun, hall, halive, hloop, hpending, hcapacity, hsent₁, hnext₁, hlength⟩ :=
    exists_first hpositive
  obtain ⟨us, app, blocks, hbehind, hlabels, hblocks, -⟩ :=
    exists_run_behind singleValidator (retained + 1) halive hpending
  -- the callback returns, and the loop finds that it has missed a block
  have hlag : (s.channel.sendAll blocks).capacity < (s.channel.sendAll blocks).unread := by
    simp only [Channel.unread, Channel.capacity_sendAll, Channel.sent_sendAll,
      Channel.next_sendAll, List.length_append, hblocks, hcapacity, hsent₁, hnext₁]
    omega
  obtain ⟨missed, channel', hrecv⟩ := Channel.recv_of_lagging hlag (!s.alive)
  have hreturned : DeliveryStep Library.Sha256.sha256 singleValidator
      { s with app := app, channel := s.channel.sendAll blocks } .callbackReturned
      { s with app := app, channel := s.channel.sendAll blocks, loop := .waiting } :=
    .callbackReturned hloop
  have hended : DeliveryStep Library.Sha256.sha256 singleValidator
      { s with app := app, channel := s.channel.sendAll blocks, loop := .waiting } .received
      { s with app := app, channel := channel', loop := .terminated } :=
    @DeliveryStep.received _ _ Library.Sha256.sha256 singleValidator
      { s with app := app, channel := s.channel.sendAll blocks, loop := .waiting } _ _ rfl hrecv
  have hwhole := (hrun.append hbehind).append (.cons hreturned (.cons hended (.nil _)))
  refine ⟨_, _, hwhole, ?_, ?_, hlength, fun h => absurd rfl h.2⟩
  · intro t ht
    simp only [List.mem_append, List.mem_cons, List.not_mem_nil, or_false] at ht
    rcases ht with (ht | ht) | rfl | rfl
    · exact (hall t ht).1
    · exact (continues_of_message (hlabels t ht)).1
    · simp [Continues]
    · simp [Continues]
  · have hsent := (actorRun_of_run hwhole).2
    have hnew : (start singleValidator retained).channel.sent = [] := rfl
    rw [hnew, List.nil_append] at hsent
    rw [← hsent, (Channel.sent_of_recv hrecv).1, Channel.sent_sendAll, List.length_append, hblocks,
      hsent₁]
    omega

end Examples

end Rkb.Consensus.FinalizedDelivery
