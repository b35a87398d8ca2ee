import Rkb.Library.Broadcast
import Rkb.Library.Histories
import Rkb.Node.ExecutedFinality
import Rkb.Sequencer.BatchInvariant
import Rkb.Sequencer.LeaderQueue

/-!
The way of a finalized block to Celestia: from the actor through the broadcast
channel to the finalization loop, from there to the batch loop or straight into a
submission. The log of the operations says how far each block has come.
-/

namespace Rkb.Node.Pipeline

open Rkb.Library.Broadcast
open Rkb.Library.Histories
open Rkb.Library.Program
open Rkb.Library.Runs
open Rkb.Library.Tasks
open Rkb.Types.Blocks
open Rkb.Execution.Errors
open Rkb.Execution.Forkchoice
open Rkb.Execution.Payload
open Rkb.Execution.Client
open Rkb.Celestia.Blobs
open Rkb.Celestia.Client
open Rkb.Celestia.Index
open Rkb.Consensus.Messages
open Rkb.Consensus.Actor
open Rkb.Consensus.ActorRuns
open Rkb.Consensus.ActorSteps
open Rkb.Consensus.Runtime
open Rkb.Sequencer.Batch
open Rkb.Sequencer.BatchInvariant
open Rkb.Sequencer.Finalization
open Rkb.Sequencer.LeaderQueue (engineReady)
open Rkb.Sequencer.Sync
open Rkb.Node.Effects
open Rkb.Node.Shared
open Rkb.Node.System

/-- A node, and the channel between its actor and its finalization loop. -/
structure PipelineState where
  node : NodeState
  finalized : Channel Block

variable {PublicKey : Type}

section System

variable [DecidableEq PublicKey]

/-- The finalization loop takes the next block of the channel. It ends where it lags or
panics, and takes nothing any more. -/
def accept (config : SimplexRuntimeConfig PublicKey) :
    (t : NodeTask) → Local t → PipelineState → Input t → PipelineState → Prop
  | .finalization, _, s, x, s' => s.node.runtime = true ∧ s'.node = s.node ∧
      s.finalized.recv false = some (.ok x.1, s'.finalized) ∧
      finalizedBlockIsLeader config x.1.height = some x.2
  | t, l, s, x, s' => System.accept t l s.node x s'.node ∧ s'.finalized = s.finalized

/-- The tasks of a node. What the actor broadcasts is sent to the channel. -/
def pipeline (node : NodeParams PublicKey) (config : SimplexRuntimeConfig PublicKey) :
    System NodeOp Ans PipelineState NodeTask Local Input where
  sem _ o s ans s' := nodeSem o s.node ans s'.node ∧
    s'.finalized = s.finalized.sendAll (broadcastOf o).toList
  accept := accept config
  handler := handler node

def pipelineInitial (node : NodeParams PublicKey) (config : SimplexRuntimeConfig PublicKey)
    (genesisHash : B256) (indexFile : Option (List Char)) (retained : Nat) :
    Config NodeOp Ans PipelineState Local where
  shared := ⟨NodeState.initialized genesisHash indexFile, .new retained⟩
  task := (initial node genesisHash indexFile (createApplication config)).task

/-- The node of the other results, whose finalization loop may be handed any block,
can do what the node with the channel does. -/
theorem run_system {node : NodeParams PublicKey} {config : SimplexRuntimeConfig PublicKey}
    {c c' : Config NodeOp Ans PipelineState Local}
    {ts : List (TaskTransition Ans PipelineState Local Input)}
    (hrun : Run (Step (pipeline node config)) c ts c') :
    ∃ us, Run (Step (system node)) (mapShared PipelineState.node c) us
      (mapShared PipelineState.node c') ∧ events us = events ts := by
  have hsem : ∀ t o s ans s', (pipeline node config).sem t o s ans s' →
      (system node).sem t o s.node ans s'.node := fun _ _ _ _ _ => And.left
  have hhandler : (system node).handler = (pipeline node config).handler := rfl
  refine run_mapShared hhandler hsem ?_ hrun
  intro t l s x s' h
  cases t with
  | finalization => exact ⟨h.1, h.2.1⟩
  | _ => exact h.1

def caughtUp (c : Config NodeOp Ans PipelineState Local) : Bool :=
  match c.task .finalization, c.task .batch with
  | .pure _, .pure loop =>
      c.shared.finalized.next == c.shared.finalized.sent.length &&
        (BatchLoop.state loop).pendingBlocks.isEmpty && c.shared.node.batchQueue.isEmpty
  | _, _ => false

theorem caughtUp_iff {c : Config NodeOp Ans PipelineState Local} :
    caughtUp c = true ↔ c.task .finalization = .pure () ∧
      c.shared.finalized.next = c.shared.finalized.sent.length ∧
      ∃ loop, c.task .batch = .pure loop ∧ (BatchLoop.state loop).pendingBlocks = [] ∧
        c.shared.node.batchQueue = [] := by
  unfold caughtUp
  split
  · rename_i u loop hfinalization hbatch
    have hunit : c.task .finalization = .pure () := hfinalization
    rw [hunit, hbatch]
    simp [and_assoc]
  · rename_i hrunning
    constructor
    · exact nofun
    · rintro ⟨hfinalization, -, loop, hbatch, -⟩
      exact absurd hbatch (hrunning _ _ hfinalization)

end System

section Log

abbrev NodeLog : Type := List (NodeTask × NodeEvent)

abbrev LoggedState : Type := PipelineState × NodeLog

def queuedOf : NodeEvent → Option Block
  | ⟨.queueBlock block, true⟩ => some block
  | _ => none

def blobsOf : NodeEvent → List Blob
  | ⟨.submitBlobs blobs, .ok _⟩ => blobs
  | _ => []

def finalized (log : NodeLog) : List Block := log.filterMap fun e => broadcastOf e.2.1

/-- The blocks that the batch channel has accepted, in order. -/
def queued (log : NodeLog) : List Block := log.filterMap fun e => queuedOf e.2

/-- The blobs whose submission Celestia has acknowledged, in order. -/
def acknowledged (log : NodeLog) : List Blob := log.flatMap fun e => blobsOf e.2

/-- The blobs of one task whose submission Celestia has acknowledged. -/
def acknowledgedBy (t : NodeTask) (log : NodeLog) : List Blob := (eventsOf t log).flatMap blobsOf

/-- Reth has taken what it was given, the batch channel the block, or Celestia the blobs. -/
def succeeded : NodeEvent → Bool
  | ⟨.queueBlock _, taken⟩ => taken
  | ⟨.submitBlobs _, .ok _⟩ => true
  | ⟨.submitBlobs _, .error _⟩ => false
  | e => engineReady e

def Created (celestia : CelestiaClient) (blocks : List Block) (blobs : List Blob) : Prop :=
  blocks.map celestia.createBlobForBlock = blobs.map Except.ok

theorem Created.append {celestia : CelestiaClient} {blocks₁ blocks₂ : List Block}
    {blobs₁ blobs₂ : List Blob} (h₁ : Created celestia blocks₁ blobs₁)
    (h₂ : Created celestia blocks₂ blobs₂) :
    Created celestia (blocks₁ ++ blocks₂) (blobs₁ ++ blobs₂) := by
  rw [Created, List.map_append, List.map_append]
  exact congrArg₂ (· ++ ·) h₁ h₂

theorem created_nil {celestia : CelestiaClient} {blobs : List Blob}
    (h : Created celestia [] blobs) : blobs = [] :=
  List.map_eq_nil_iff.mp h.symm

theorem acknowledged_eq {t : NodeTask} {log : NodeLog}
    (h : ∀ u, u ≠ t → acknowledgedBy u log = []) : acknowledged log = acknowledgedBy t log := by
  induction log with
  | nil => rfl
  | cons e log ih =>
      obtain ⟨u, e⟩ := e
      have hcons : ∀ v, acknowledgedBy v ((u, e) :: log) =
          (if u = v then blobsOf e else []) ++ acknowledgedBy v log := by
        intro v
        by_cases huv : u = v <;> simp [acknowledgedBy, eventsOf, huv]
      have hrest : acknowledged log = acknowledgedBy t log := by
        refine ih fun v hv => ?_
        have hv' := h v hv
        rw [hcons] at hv'
        exact (List.append_eq_nil_iff.mp hv').2
      have hhead : acknowledged ((u, e) :: log) = blobsOf e ++ acknowledged log := rfl
      rw [hhead, hrest, hcons t]
      by_cases hut : u = t
      · rw [if_pos hut]
      · have hnone := h u hut
        rw [hcons, if_pos rfl, List.append_eq_nil_iff] at hnone
        rw [if_neg hut, hnone.1]

end Log

section Effects

abbrev LoggedSem (t : NodeTask) (o : NodeOp) (s : LoggedState) (ans : Ans o)
    (s' : LoggedState) : Prop :=
  (nodeSem o s.1.node ans s'.1.node ∧
    s'.1.finalized = s.1.finalized.sendAll (broadcastOf o).toList) ∧
  s'.2 = s.2 ++ [(t, ⟨o, ans⟩)]

/-- What an event adds to the channels and to the log. -/
structure Effect (t : NodeTask) (e : NodeEvent) (s s' : LoggedState) : Prop where
  finalized : finalized s'.2 = finalized s.2 ++ (broadcastOf e.1).toList
  queued : queued s'.2 = queued s.2 ++ (queuedOf e).toList
  events : ∀ u, eventsOf u s'.2 = eventsOf u s.2 ++ if u = t then [e] else []
  grows : s.2 <+: s'.2
  channel : s'.1.finalized = s.1.finalized.sendAll (broadcastOf e.1).toList
  batchQueue : s'.1.node.batchQueue = s.1.node.batchQueue ++ (queuedOf e).toList

theorem batchQueue_of_nodeSem {o : NodeOp} {s s' : NodeState} {ans : Ans o}
    (h : nodeSem o s ans s') : s'.batchQueue = s.batchQueue ++ (queuedOf ⟨o, ans⟩).toList := by
  cases o
  case queueBlock block => rcases h with ⟨rfl, rfl⟩ | ⟨rfl, rfl⟩ <;> simp [queuedOf]
  case onCelestiaFinality =>
      obtain ⟨visit, -, -, rfl⟩ := h
      exact (List.append_nil _).symm
  case readIndexFile =>
      rw [h.1]
      exact (List.append_nil _).symm
  case sendConfirmation =>
      rcases h with ⟨-, rfl⟩ | ⟨-, rfl⟩ <;> exact (List.append_nil _).symm
  case openIndexFile =>
      rcases h with ⟨-, rfl⟩ | ⟨-, rfl⟩ <;> exact (List.append_nil _).symm
  case appendIndexFile =>
      rcases h with ⟨-, rfl⟩ | ⟨e, written, -, -, rfl⟩ <;> exact (List.append_nil _).symm
  all_goals first
    | (cases h; exact (List.append_nil _).symm)
    | (obtain ⟨-, rfl⟩ := h; exact (List.append_nil _).symm)

theorem effect_of_loggedSem {t : NodeTask} {o : NodeOp} {ans : Ans o} {s s' : LoggedState}
    (h : LoggedSem t o s ans s') : Effect t ⟨o, ans⟩ s s' := by
  obtain ⟨⟨hnode, hchannel⟩, hlog⟩ := h
  refine ⟨?_, ?_, ?_, hlog ▸ List.prefix_append _ _, hchannel, batchQueue_of_nodeSem hnode⟩
  · rw [hlog, finalized, List.filterMap_append]
    cases hbroadcast : broadcastOf o <;> simp [finalized, hbroadcast]
  · rw [hlog, queued, List.filterMap_append]
    cases hqueued : queuedOf ⟨o, ans⟩ <;> simp [queued, hqueued]
  · intro u
    rw [hlog, eventsOf_append]
    by_cases hu : u = t
    · simp [eventsOf, hu]
    · simp [eventsOf, hu, Ne.symm hu]

theorem Effect.acknowledged {t : NodeTask} {e : NodeEvent} {s s' : LoggedState}
    (he : Effect t e s s') (u : NodeTask) :
    acknowledgedBy u s'.2 = acknowledgedBy u s.2 ++ if u = t then blobsOf e else [] := by
  rw [acknowledgedBy, he.events, List.flatMap_append, acknowledgedBy]
  by_cases hu : u = t <;> simp [hu]

theorem Effect.mem_events {t : NodeTask} {e : NodeEvent} {s s' : LoggedState}
    (he : Effect t e s s') : e ∈ eventsOf t s'.2 := by
  rw [he.events, if_pos rfl]
  exact List.mem_append_right _ (List.mem_singleton_self _)

def Quiet : NodeOp → Prop
  | .broadcastBlock _ => False
  | .queueBlock _ => False
  | .submitBlobs _ => False
  | _ => True

theorem quiet_of_plain {o : NodeOp} (h : Plain o) : Quiet o := by
  cases o <;> trivial

end Effects

section Invariant

variable [DecidableEq PublicKey]

def leads (config : SimplexRuntimeConfig PublicKey) (block : Block) : Bool :=
  finalizedBlockIsLeader config block.height = some true

/-- The blocks that the finalization loop has taken as their leader. -/
def led (config : SimplexRuntimeConfig PublicKey) (channel : Channel Block) : List Block :=
  (channel.sent.take channel.next).filter (leads config)

abbrev batching (node : NodeParams PublicKey) : Bool := (finalizationContext node).batchEnabled

/-- What the finalization loop has passed on: to the batch channel, or to Celestia. -/
def PassedOn (node : NodeParams PublicKey) (log : NodeLog) (blocks : List Block) : Prop :=
  queued log = (if batching node then blocks else []) ∧
    Created node.celestia (if batching node then [] else blocks)
      (acknowledgedBy .finalization log)

/-- Each stage has a subsequence of what the stage before it had. -/
structure Piped (node : NodeParams PublicKey) (config : SimplexRuntimeConfig PublicKey)
    (s : LoggedState) : Prop where
  sent : s.1.finalized.sent = finalized s.2
  heights : (finalized s.2).map Block.height =
    (List.range' 1 (finalized s.2).length).map UInt64.ofNat
  passed : ∃ blocks, blocks.Sublist (led config s.1.finalized) ∧ PassedOn node s.2 blocks
  submitted : ∃ blocks, blocks <+: queued s.2 ∧
    Created node.celestia blocks (acknowledgedBy .batch s.2)
  others : ∀ t, t ≠ .batch → t ≠ .finalization → acknowledgedBy t s.2 = []

def Stays (config : SimplexRuntimeConfig PublicKey) : NodeTask → LoggedState → LoggedState → Prop
  | .application, s, s' => finalized s'.2 = finalized s.2
  | .finalization, s, s' => queued s'.2 = queued s.2 ∧
      acknowledgedBy .finalization s'.2 = acknowledgedBy .finalization s.2 ∧
      led config s'.1.finalized = led config s.1.finalized
  | .batch, s, s' => acknowledgedBy .batch s'.2 = acknowledgedBy .batch s.2 ∧
      ∃ new, queued s'.2 = queued s.2 ++ new ∧
        s'.1.node.batchQueue = s.1.node.batchQueue ++ new
  | _, _, _ => True

/-- What a task relies on: its own stage is moved by nobody else. -/
def Frame (config : SimplexRuntimeConfig PublicKey) (t : NodeTask) (s s' : LoggedState) : Prop :=
  s.2 <+: s'.2 ∧ Stays config t s s'

/-- What a task guarantees the others. -/
def FrameOthers (config : SimplexRuntimeConfig PublicKey) (t : NodeTask) (s s' : LoggedState) :
    Prop :=
  ∀ u, u ≠ t → Frame config u s s'

/-- The batch loop holds what it has taken and not submitted. -/
def Holding (celestia : CelestiaClient) (pending : List Block) (s : LoggedState) : Prop :=
  ∃ blocks, Created celestia blocks (acknowledgedBy .batch s.2) ∧
    queued s.2 = blocks ++ pending ++ s.1.node.batchQueue

/-- Nothing that the finalization loop has tried has failed. Without batches, every block that
it has taken as its leader gives a blob. -/
def Unfailing (node : NodeParams PublicKey) (config : SimplexRuntimeConfig PublicKey)
    (s : LoggedState) : Prop :=
  (batching node = false → ∀ block ∈ led config s.1.finalized,
      ∃ blob, node.celestia.createBlobForBlock block = .ok blob) ∧
    ∀ e ∈ eventsOf .finalization s.2, succeeded e = true

/-- The finalization loop has taken these blocks as their leader and not passed them on. As
long as nothing fails, it has passed on all the others. -/
def Owing (node : NodeParams PublicKey) (config : SimplexRuntimeConfig PublicKey)
    (pending : List Block) (s : LoggedState) : Prop :=
  ∃ blocks, (blocks ++ pending).Sublist (led config s.1.finalized) ∧ PassedOn node s.2 blocks ∧
    (Unfailing node config s → blocks ++ pending = led config s.1.finalized)

/-- Only blocks that are finalized and that this node leads are submitted. -/
def Submits (node : NodeParams PublicKey) (config : SimplexRuntimeConfig PublicKey) :
    NodeTask → (o : NodeOp) → LoggedState → Ans o → Prop
  | _, .submitBlobs blobs, s, _ => ∃ blocks,
      blocks.Sublist ((finalized s.2).filter (leads config)) ∧ Created node.celestia blocks blobs
  | _, _, _, _ => True

/-- The actor's height is the next one of the finalized chain. -/
def AtTip (app : Application) (s : LoggedState) : Prop :=
  app.height = UInt64.ofNat (1 + (finalized s.2).length)

variable {node : NodeParams PublicKey} {config : SimplexRuntimeConfig PublicKey}
  {s s' s'' : LoggedState} {t : NodeTask}

theorem Stays.refl (s : LoggedState) : Stays config t s s := by
  cases t
  case application => rfl
  case finalization => exact ⟨rfl, rfl, rfl⟩
  case batch => exact ⟨rfl, [], (List.append_nil _).symm, (List.append_nil _).symm⟩
  all_goals trivial

theorem Stays.trans (h₁ : Stays config t s s') (h₂ : Stays config t s' s'') :
    Stays config t s s'' := by
  cases t
  case application => exact Eq.trans h₂ h₁
  case finalization =>
      exact ⟨h₂.1.trans h₁.1, h₂.2.1.trans h₁.2.1, h₂.2.2.trans h₁.2.2⟩
  case batch =>
      obtain ⟨hacked₁, new₁, hqueued₁, hqueue₁⟩ := h₁
      obtain ⟨hacked₂, new₂, hqueued₂, hqueue₂⟩ := h₂
      refine ⟨hacked₂.trans hacked₁, new₁ ++ new₂, ?_, ?_⟩
      · rw [hqueued₂, hqueued₁, List.append_assoc]
      · rw [hqueue₂, hqueue₁, List.append_assoc]
  all_goals trivial

theorem Frame.refl (s : LoggedState) : Frame config t s s := ⟨List.prefix_rfl, Stays.refl s⟩

theorem Frame.trans (h₁ : Frame config t s s') (h₂ : Frame config t s' s'') :
    Frame config t s s'' :=
  ⟨h₁.1.trans h₂.1, h₁.2.trans h₂.2⟩

theorem Frame.events (h : Frame config t s s') (u : NodeTask) :
    eventsOf u s.2 ⊆ eventsOf u s'.2 := by
  obtain ⟨rest, hrest⟩ := h.1
  rw [← hrest, eventsOf_append]
  exact List.subset_append_left _ _

theorem AtTip.frame {app : Application} (h : AtTip app s)
    (hframe : Frame config .application s s') : AtTip app s' := by
  have hsame : finalized s'.2 = finalized s.2 := hframe.2
  rw [AtTip, hsame]
  exact h

theorem Holding.frame {celestia : CelestiaClient} {pending : List Block}
    (h : Holding celestia pending s) (hframe : Frame config .batch s s') :
    Holding celestia pending s' := by
  obtain ⟨blocks, hcreated, hqueued⟩ := h
  obtain ⟨-, hacked, new, hqueued', hqueue'⟩ := hframe
  refine ⟨blocks, hacked ▸ hcreated, ?_⟩
  rw [hqueued', hqueue', hqueued, List.append_assoc _ _ new]

theorem Unfailing.of_grows (h : Unfailing node config s') (hgrows : s.2 <+: s'.2)
    (hled : led config s.1.finalized ⊆ led config s'.1.finalized) : Unfailing node config s := by
  refine ⟨fun hbatching block hblock => h.1 hbatching block (hled hblock), fun e he => h.2 e ?_⟩
  obtain ⟨rest, hrest⟩ := hgrows
  rw [← hrest, eventsOf_append]
  exact List.mem_append_left _ he

theorem not_unfailing {e : NodeEvent} (he : e ∈ eventsOf .finalization s.2)
    (hfailed : succeeded e = false) : ¬ Unfailing node config s := by
  intro h
  rw [h.2 e he] at hfailed
  cases hfailed

theorem Owing.frame {pending : List Block} (h : Owing node config pending s)
    (hframe : Frame config .finalization s s') : Owing node config pending s' := by
  obtain ⟨blocks, hsub, hpassed, hall⟩ := h
  obtain ⟨hgrows, hqueued, hacked, hled⟩ := hframe
  refine ⟨blocks, hled ▸ hsub, ?_, ?_⟩
  · rw [PassedOn, hqueued, hacked]
    exact hpassed
  · intro h
    rw [hled]
    exact hall (h.of_grows hgrows (hled ▸ List.Subset.refl _))

theorem Owing.failed {pending : List Block} (h : Owing node config pending s)
    (hfailed : ¬ Unfailing node config s) : Owing node config [] s := by
  obtain ⟨blocks, hsub, hpassed, -⟩ := h
  refine ⟨blocks, ?_, hpassed, fun h => absurd h hfailed⟩
  rw [List.append_nil]
  exact (List.sublist_append_left _ _).trans hsub

/-- What is sent to a channel later has not been received yet. -/
theorem led_sendAll (config : SimplexRuntimeConfig PublicKey) (channel : Channel Block)
    (blocks : List Block) : led config (channel.sendAll blocks) = led config channel := by
  rw [led, Channel.sent_sendAll, Channel.next_sendAll,
    List.take_append_of_le_length channel.next_le]
  rfl

theorem Piped.led_sublist (hs : Piped node config s) :
    (led config s.1.finalized).Sublist ((finalized s.2).filter (leads config)) := by
  rw [led, hs.sent]
  exact (List.take_sublist _ _).filter _

theorem Piped.queued_sublist (hs : Piped node config s) :
    (queued s.2).Sublist ((finalized s.2).filter (leads config)) := by
  obtain ⟨blocks, hsub, hqueued, -⟩ := hs.passed
  rw [hqueued]
  split
  · exact hsub.trans hs.led_sublist
  · exact List.nil_sublist _

theorem Piped.acknowledged_batch (hs : Piped node config s) (hbatching : batching node = true) :
    acknowledged s.2 = acknowledgedBy .batch s.2 := by
  obtain ⟨blocks, -, -, hcreated⟩ := hs.passed
  rw [hbatching, if_pos rfl] at hcreated
  refine acknowledged_eq fun u hu => ?_
  by_cases hfinalization : u = .finalization
  · rw [hfinalization]
    exact created_nil hcreated
  · exact hs.others u hu hfinalization

theorem Piped.acknowledged_immediate (hs : Piped node config s)
    (hbatching : batching node = false) :
    acknowledged s.2 = acknowledgedBy .finalization s.2 := by
  obtain ⟨blocks, -, hqueued, -⟩ := hs.passed
  obtain ⟨submitted, hprefix, hcreated⟩ := hs.submitted
  rw [hqueued, hbatching] at hprefix
  rw [List.prefix_nil.mp hprefix] at hcreated
  refine acknowledged_eq fun u hu => ?_
  by_cases hbatch : u = .batch
  · rw [hbatch]
    exact created_nil hcreated
  · exact hs.others u hbatch hu

theorem Piped.exists_submitted (hs : Piped node config s) :
    ∃ submitted, submitted.Sublist ((finalized s.2).filter (leads config)) ∧
      Created node.celestia submitted (acknowledged s.2) := by
  cases hbatching : batching node with
  | true =>
      obtain ⟨submitted, hprefix, hcreated⟩ := hs.submitted
      rw [hs.acknowledged_batch hbatching]
      exact ⟨submitted, hprefix.sublist.trans hs.queued_sublist, hcreated⟩
  | false =>
      obtain ⟨passed, hsub, -, hcreated⟩ := hs.passed
      rw [hbatching] at hcreated
      rw [hs.acknowledged_immediate hbatching]
      exact ⟨passed, hsub.trans hs.led_sublist, hcreated⟩

theorem Piped.passedOn_of_drained (hs : Piped node config s) (howing : Owing node config [] s)
    (hdrained : s.1.finalized.next = s.1.finalized.sent.length)
    (hunfailing : Unfailing node config s) :
    PassedOn node s.2 ((finalized s.2).filter (leads config)) := by
  obtain ⟨blocks, -, hpassed, hall⟩ := howing
  have hblocks := hall hunfailing
  rw [List.append_nil, led, hdrained, List.take_length, hs.sent] at hblocks
  rwa [← hblocks]

theorem Piped.created_of_passedOn {blocks : List Block} (hs : Piped node config s)
    (hpassed : PassedOn node s.2 blocks) (hholding : Holding node.celestia [] s)
    (hqueue : s.1.node.batchQueue = []) : Created node.celestia blocks (acknowledged s.2) := by
  obtain ⟨hqueued, hcreated⟩ := hpassed
  cases hbatching : batching node with
  | true =>
      obtain ⟨submitted, hsubmitted, hqueued'⟩ := hholding
      rw [hqueue, List.append_nil, List.append_nil, hqueued, hbatching, if_pos rfl] at hqueued'
      rw [hs.acknowledged_batch hbatching, hqueued']
      exact hsubmitted
  | false =>
      rw [hbatching] at hcreated
      rw [hs.acknowledged_immediate hbatching]
      exact hcreated

theorem Holding.sublist {pending : List Block} (hs : Piped node config s)
    (h : Holding node.celestia pending s) :
    pending.Sublist ((finalized s.2).filter (leads config)) := by
  obtain ⟨blocks, -, hqueued⟩ := h
  refine List.Sublist.trans ?_ hs.queued_sublist
  rw [hqueued]
  exact (List.sublist_append_right _ _).trans (List.sublist_append_left _ _)

theorem Owing.sublist {pending : List Block} (hs : Piped node config s)
    (h : Owing node config pending s) :
    pending.Sublist ((finalized s.2).filter (leads config)) := by
  obtain ⟨blocks, hsub, -⟩ := h
  exact (List.sublist_append_right _ _).trans (hsub.trans hs.led_sublist)

theorem submits_of_quiet {o : NodeOp} (ho : Quiet o) (ans : Ans o) :
    Submits node config t o s ans := by
  cases o <;> first
    | exact ho.elim
    | trivial

end Invariant

section Failures

theorem ensures_executeBlock (block : Block) :
    (executeBlock block).Ensures anyAnswer () fun tr r _ =>
      (∃ result, r = .ok result ∧ result.isValid = true) ∨ ∃ e ∈ tr, succeeded e = false := by
  unfold executeBlock requestNewPayload
  cases buildPayload block with
  | none =>
      refine Prog.ensures_op.mpr ?_
      rintro ⟨⟩
  | some payload =>
      refine Prog.ensures_op.mpr ?_
      rintro (reason | e | ⟨status, latest⟩) ⟨⟩ -
      · exact Prog.ensures_pure.mpr (.inr ⟨_, List.mem_cons_self, rfl⟩)
      · exact Prog.ensures_pure.mpr (.inr ⟨_, List.mem_cons_self, rfl⟩)
      · cases status with
        | valid => exact Prog.ensures_pure.mpr (.inl ⟨_, rfl, rfl⟩)
        | _ => exact Prog.ensures_pure.mpr (.inr ⟨_, List.mem_cons_self, rfl⟩)

theorem ensures_updateForkchoice (state : ForkchoiceState) :
    (updateForkchoice state).Ensures anyAnswer () fun tr r _ =>
      r = .ok () ∨ ∃ e ∈ tr, succeeded e = false := by
  have hwritten : ∀ e : NodeEvent, (op (.writeCached state) >>= fun _ =>
      (Prog.pure (.ok ()) : NodeProg (Except ExecutionError Unit))).Ensures anyAnswer ()
        fun tr r _ => r = .ok () ∨ ∃ e' ∈ e :: tr, succeeded e' = false := by
    intro e
    refine Prog.ensures_op.mpr ?_
    rintro _ ⟨⟩ -
    exact Prog.ensures_pure.mpr (.inl rfl)
  refine Prog.ensures_op.mpr ?_
  rintro (reason | e | ⟨⟨status, latest⟩, payloadId⟩) ⟨⟩ -
  · exact Prog.ensures_pure.mpr (.inr ⟨_, List.mem_cons_self, rfl⟩)
  · exact Prog.ensures_pure.mpr (.inr ⟨_, List.mem_cons_self, rfl⟩)
  · cases status with
    | invalid reason => exact Prog.ensures_pure.mpr (.inr ⟨_, List.mem_cons_self, rfl⟩)
    | _ => exact hwritten _

theorem ensures_executeAndUpdateForkchoice (block : Block) :
    (executeAndUpdateForkchoice block block.blockHash).Ensures anyAnswer () fun tr r _ =>
      r = .ok () ∨ ∃ e ∈ tr, succeeded e = false := by
  refine Prog.ensures_bind.mpr ((ensures_executeBlock block).mono ?_)
  rintro tr₁ result ⟨⟩ (⟨result, rfl, hvalid⟩ | ⟨e, he, hfailed⟩)
  · simp only [Report.wrapErr, hvalid, Bool.not_true, Bool.false_eq_true, if_false]
    refine Prog.ensures_perform_bind.mpr ?_
    rintro current ⟨⟩ -
    refine Prog.ensures_bind.mpr ((ensures_updateForkchoice _).mono ?_)
    rintro tr₂ response ⟨⟩ hresponse
    cases response with
    | error e =>
        rcases hresponse with hok | ⟨e, he, hfailed⟩
        · cases hok
        · refine Prog.ensures_pure.mpr (.inr ⟨e, ?_, hfailed⟩)
          simp [he]
    | ok _ =>
        refine Prog.ensures_op.mpr ?_
        rintro _ ⟨⟩ -
        exact Prog.ensures_pure.mpr (.inl rfl)
  · intro tr₂ r s' _
    exact .inr ⟨e, List.mem_append_left _ he, hfailed⟩

end Failures

section Steps

variable [DecidableEq PublicKey] {node : NodeParams PublicKey}
  {config : SimplexRuntimeConfig PublicKey} {s s' : LoggedState} {t : NodeTask} {e : NodeEvent}

theorem Piped.still (hs : Piped node config s) (he : Effect t e s s')
    (hbroadcast : broadcastOf e.1 = none) (hqueued : queuedOf e = none)
    (hblobs : blobsOf e = []) : Piped node config s' ∧ ∀ u, Frame config u s s' := by
  have hacked' := he.acknowledged
  obtain ⟨hfinalized', hqueued', -, hgrows, hchannel', hqueue'⟩ := he
  rw [hbroadcast, Option.toList_none] at hfinalized' hchannel'
  rw [hqueued, Option.toList_none] at hqueued' hqueue'
  simp only [hblobs, ite_self, List.append_nil] at hacked' hfinalized' hqueued' hqueue'
  rw [Channel.sendAll_nil] at hchannel'
  refine ⟨⟨?_, ?_, ?_, ?_, ?_⟩, ?_⟩
  · rw [hchannel', hfinalized']
    exact hs.sent
  · rw [hfinalized']
    exact hs.heights
  · rw [hchannel']
    simp only [PassedOn, hqueued', hacked']
    exact hs.passed
  · rw [hqueued', hacked']
    exact hs.submitted
  · intro u hbatch hfinalization
    rw [hacked']
    exact hs.others u hbatch hfinalization
  · refine fun u => ⟨hgrows, ?_⟩
    cases u
    case application => exact hfinalized'
    case finalization => exact ⟨hqueued', hacked' _, by rw [hchannel']⟩
    case batch => exact ⟨hacked' _, [], by rw [hqueued', List.append_nil],
        by rw [hqueue', List.append_nil]⟩
    all_goals trivial

theorem Piped.quiet {o : NodeOp} {ans : Ans o} (hs : Piped node config s) (ho : Quiet o)
    (he : Effect t ⟨o, ans⟩ s s') : Piped node config s' ∧ ∀ u, Frame config u s s' := by
  cases o <;> first
    | exact ho.elim
    | exact hs.still he rfl rfl rfl

theorem Piped.broadcast {block : Block} {ans : Ans (.broadcastBlock block)}
    (hs : Piped node config s) (he : Effect .application ⟨.broadcastBlock block, ans⟩ s s')
    (hheight : block.height = UInt64.ofNat (1 + (finalized s.2).length)) :
    Piped node config s' ∧ FrameOthers config .application s s' ∧
      finalized s'.2 = finalized s.2 ++ [block] := by
  have hacked' := he.acknowledged
  obtain ⟨hfinalized', hqueued', -, hgrows, hchannel', hqueue'⟩ := he
  have hblobs : blobsOf ⟨.broadcastBlock block, ans⟩ = [] := rfl
  have hnone : queuedOf ⟨.broadcastBlock block, ans⟩ = none := rfl
  have hsome : (broadcastOf (.broadcastBlock block)).toList = [block] := rfl
  simp only [hblobs, hnone, hsome, ite_self, List.append_nil, Option.toList_none]
    at hfinalized' hqueued' hacked' hqueue' hchannel'
  have hled : led config s'.1.finalized = led config s.1.finalized := by
    rw [hchannel', led_sendAll]
  refine ⟨⟨?_, ?_, ?_, ?_, ?_⟩, ?_, hfinalized'⟩
  · rw [hchannel', hfinalized', Channel.sent_sendAll, hs.sent]
  · rw [hfinalized', List.map_append, hs.heights, List.length_append, List.length_singleton,
      List.range'_concat, List.map_append]
    simp [hheight]
  · simp only [hled, PassedOn, hqueued', hacked']
    exact hs.passed
  · rw [hqueued', hacked']
    exact hs.submitted
  · intro u hbatch hfinalization
    rw [hacked']
    exact hs.others u hbatch hfinalization
  · refine fun u hu => ⟨hgrows, ?_⟩
    cases u
    case application => exact absurd rfl hu
    case finalization => exact ⟨hqueued', hacked' _, hled⟩
    case batch => exact ⟨hacked' _, [], by rw [hqueued', List.append_nil],
        by rw [hqueue', List.append_nil]⟩
    all_goals trivial

theorem Piped.queue {block : Block} (hs : Piped node config s)
    (he : Effect .finalization ⟨.queueBlock block, (true : Bool)⟩ s s')
    (hbatching : batching node = true) (hblock : Owing node config [block] s) :
    Piped node config s' ∧ FrameOthers config .finalization s s' ∧ Owing node config [] s' := by
  have hacked' := he.acknowledged
  obtain ⟨hfinalized', hqueued', -, hgrows, hchannel', hqueue'⟩ := he
  have hblobs : blobsOf ⟨.queueBlock block, (true : Bool)⟩ = [] := rfl
  have hnone : broadcastOf (.queueBlock block) = none := rfl
  have hsome : (queuedOf ⟨.queueBlock block, (true : Bool)⟩).toList = [block] := rfl
  simp only [hblobs, hnone, hsome, ite_self, List.append_nil, Option.toList_none,
    Channel.sendAll_nil] at hfinalized' hqueued' hacked' hqueue' hchannel'
  obtain ⟨blocks, hsub, hpassed, hall⟩ := hblock
  have hpassed' : PassedOn node s'.2 (blocks ++ [block]) := by
    simp only [PassedOn, hbatching, if_true] at hpassed ⊢
    rw [hqueued', hpassed.1, hacked']
    exact ⟨rfl, hpassed.2⟩
  rw [← hchannel'] at hsub hall
  refine ⟨⟨?_, ?_, ⟨blocks ++ [block], hsub, hpassed'⟩, ?_, ?_⟩, ?_, ?_⟩
  · rw [hchannel', hfinalized']
    exact hs.sent
  · rw [hfinalized']
    exact hs.heights
  · obtain ⟨submitted, hprefix, hcreated⟩ := hs.submitted
    refine ⟨submitted, ?_, hacked' .batch ▸ hcreated⟩
    rw [hqueued']
    exact hprefix.trans (List.prefix_append _ _)
  · intro u hbatch hfinalization
    rw [hacked']
    exact hs.others u hbatch hfinalization
  · refine fun u hu => ⟨hgrows, ?_⟩
    cases u
    case application => exact hfinalized'
    case finalization => exact absurd rfl hu
    case batch => exact ⟨hacked' _, [block], hqueued', hqueue'⟩
    all_goals trivial
  · refine ⟨blocks ++ [block], ?_, hpassed', ?_⟩
    · rwa [List.append_nil]
    · intro h
      rw [List.append_nil]
      exact hall (h.of_grows hgrows (hchannel' ▸ List.Subset.refl _))

theorem Piped.submitImmediate {block : Block} {blob : Blob} {celestiaHeight : UInt64}
    (hs : Piped node config s)
    (he : Effect .finalization ⟨.submitBlobs [blob], (.ok celestiaHeight : Except String UInt64)⟩
      s s')
    (hbatching : batching node = false) (hblock : Owing node config [block] s)
    (hblob : node.celestia.createBlobForBlock block = .ok blob) :
    Piped node config s' ∧ FrameOthers config .finalization s s' ∧ Owing node config [] s' := by
  have hacked' := he.acknowledged
  obtain ⟨hfinalized', hqueued', -, hgrows, hchannel', hqueue'⟩ := he
  have hblobs : blobsOf ⟨.submitBlobs [blob], (.ok celestiaHeight : Except String UInt64)⟩ =
      [blob] := rfl
  have hnone : broadcastOf (.submitBlobs [blob]) = none := rfl
  have hnone' : queuedOf ⟨.submitBlobs [blob], (.ok celestiaHeight : Except String UInt64)⟩ =
      none := rfl
  simp only [hblobs, hnone, hnone', List.append_nil, Option.toList_none,
    Channel.sendAll_nil] at hfinalized' hqueued' hacked' hqueue' hchannel'
  have hother : ∀ u, u ≠ .finalization → acknowledgedBy u s'.2 = acknowledgedBy u s.2 := by
    intro u hu
    rw [hacked', if_neg hu, List.append_nil]
  obtain ⟨blocks, hsub, hpassed, hall⟩ := hblock
  have hpassed' : PassedOn node s'.2 (blocks ++ [block]) := by
    simp only [PassedOn, hbatching, Bool.false_eq_true, if_false] at hpassed ⊢
    rw [hqueued', hacked', if_pos rfl]
    exact ⟨hpassed.1, hpassed.2.append (congrArg (fun r => [r]) hblob)⟩
  rw [← hchannel'] at hsub hall
  refine ⟨⟨?_, ?_, ⟨blocks ++ [block], hsub, hpassed'⟩, ?_, ?_⟩, ?_, ?_⟩
  · rw [hchannel', hfinalized']
    exact hs.sent
  · rw [hfinalized']
    exact hs.heights
  · rw [hqueued', hother .batch (by decide)]
    exact hs.submitted
  · intro u hbatch hfinalization
    rw [hother u hfinalization]
    exact hs.others u hbatch hfinalization
  · refine fun u hu => ⟨hgrows, ?_⟩
    cases u
    case application => exact hfinalized'
    case finalization => exact absurd rfl hu
    case batch => exact ⟨hother _ hu, [], by rw [hqueued', List.append_nil],
        by rw [hqueue', List.append_nil]⟩
    all_goals trivial
  · refine ⟨blocks ++ [block], ?_, hpassed', ?_⟩
    · rwa [List.append_nil]
    · intro h
      rw [List.append_nil]
      exact hall (h.of_grows hgrows (hchannel' ▸ List.Subset.refl _))

theorem Piped.submitBatch {pending : List Block} {blobs : List Blob} {celestiaHeight : UInt64}
    (hs : Piped node config s)
    (he : Effect .batch ⟨.submitBlobs blobs, (.ok celestiaHeight : Except String UInt64)⟩ s s')
    (hpending : Holding node.celestia pending s) (hblobs : Created node.celestia pending blobs) :
    Piped node config s' ∧ FrameOthers config .batch s s' ∧ Holding node.celestia [] s' := by
  have hacked' := he.acknowledged
  obtain ⟨hfinalized', hqueued', -, hgrows, hchannel', hqueue'⟩ := he
  have hsome : blobsOf ⟨.submitBlobs blobs, (.ok celestiaHeight : Except String UInt64)⟩ =
      blobs := rfl
  have hnone : broadcastOf (.submitBlobs blobs) = none := rfl
  have hnone' : queuedOf ⟨.submitBlobs blobs, (.ok celestiaHeight : Except String UInt64)⟩ =
      none := rfl
  simp only [hsome, hnone, hnone', List.append_nil, Option.toList_none,
    Channel.sendAll_nil] at hfinalized' hqueued' hacked' hqueue' hchannel'
  have hother : ∀ u, u ≠ .batch → acknowledgedBy u s'.2 = acknowledgedBy u s.2 := by
    intro u hu
    rw [hacked', if_neg hu, List.append_nil]
  obtain ⟨blocks, hcreated, hqueued⟩ := hpending
  have hcreated' : Created node.celestia (blocks ++ pending) (acknowledgedBy .batch s'.2) := by
    rw [hacked', if_pos rfl]
    exact hcreated.append hblobs
  refine ⟨⟨?_, ?_, ?_, ?_, ?_⟩, ?_, ?_⟩
  · rw [hchannel', hfinalized']
    exact hs.sent
  · rw [hfinalized']
    exact hs.heights
  · simp only [hchannel', PassedOn, hqueued', hother .finalization (by decide)]
    exact hs.passed
  · refine ⟨blocks ++ pending, ?_, hcreated'⟩
    rw [hqueued', hqueued]
    exact List.prefix_append _ _
  · intro u hbatch hfinalization
    rw [hother u hbatch]
    exact hs.others u hbatch hfinalization
  · refine fun u hu => ⟨hgrows, ?_⟩
    cases u
    case application => exact hfinalized'
    case finalization => exact ⟨hqueued', hother _ hu, by rw [hchannel']⟩
    case batch => exact absurd rfl hu
    all_goals trivial
  · refine ⟨blocks ++ pending, hcreated', ?_⟩
    rw [hqueued', hqueue', List.append_nil]
    exact hqueued

end Steps

section Programs

variable [DecidableEq PublicKey] {node : NodeParams PublicKey}
  {config : SimplexRuntimeConfig PublicKey} {s : LoggedState} {t : NodeTask} {α β : Type}
  {Q : α → LoggedState → Prop}

abbrev SafePipe (node : NodeParams PublicKey) (config : SimplexRuntimeConfig PublicKey)
    (t : NodeTask) (Q : α → LoggedState → Prop) (p : NodeProg α) (s : LoggedState) : Prop :=
  Safe (LoggedSem t) (Piped node config) (Frame config t) (FrameOthers config t)
    (Submits node config t) Q p s

theorem safe_of_quiet {p : NodeProg α} (hp : p.Performs Quiet) :
    SafePipe node config t (fun a s' => Frame config t s s' ∧
      ∃ tr, p.Exec anyAnswer () tr a () ∧ tr ⊆ eventsOf t s'.2) p s := by
  refine Safe.mono (safe_of_trace (J := fun tr s' => Frame config t s s' ∧ tr ⊆ eventsOf t s'.2)
    ?_ ?_ hp [] ⟨Frame.refl s, List.nil_subset _⟩) ?_
  · rintro tr s₁ s₂ ⟨hframe, hsub⟩ hrely
    exact ⟨hframe.trans hrely, List.Subset.trans hsub (hrely.events t)⟩
  · rintro o ho tr s₁ ans s₂ hinv ⟨hframe, hsub⟩ hsem
    have he := effect_of_loggedSem hsem
    obtain ⟨hpiped, hall⟩ := hinv.quiet ho he
    refine ⟨⟨hpiped, fun u _ => hall u, submits_of_quiet ho ans⟩, hframe.trans (hall t), ?_⟩
    refine List.append_subset.mpr ⟨List.Subset.trans hsub ((hall t).events t), ?_⟩
    intro e hmem
    rw [List.mem_singleton.mp hmem]
    exact he.mem_events
  · rintro a s' ⟨tr, hexec, hframe, hsub⟩
    exact ⟨hframe, tr, hexec, hsub⟩

theorem safe_quiet_bind {p : NodeProg β} {f : β → NodeProg α} (hp : p.Performs Quiet)
    (hf : ∀ b s', Frame config t s s' → SafePipe node config t Q (f b) s') :
    SafePipe node config t Q (p >>= f) s :=
  safe_bind (safe_of_quiet hp) fun b s' h => hf b s' h.1

theorem SafePipe.ignore {p : NodeProg α} (hp : SafePipe node config t Q p s) :
    SafePipe node config t (fun _ _ => True) p s :=
  hp.mono fun _ _ _ => trivial

section Application

variable {app : Application} {sha256 : List UInt8 → AppDigest}

theorem safe_finalize {digest : AppDigest} (happ : AtTip app s) :
    SafePipe node config .application AtTip
      (app.processMessage sha256 (.finalize digest)) s := by
  simp only [Application.processMessage]
  unfold Application.finalize
  split
  · exact happ
  · rename_i block hlookup
    simp only
    split
    · exact happ
    · rename_i hvalid
      have hheight : block.height = app.height := by
        rw [Bool.not_eq_true, Bool.not_eq_false'] at hvalid
        exact beq_iff_eq.mp hvalid
      rw [Prog.bind_assoc]
      have happly := (plain_applyToReth (app.pendingPayloads.lookup digest)).mono
        fun _ => quiet_of_plain
      refine safe_quiet_bind happly ?_
      intro _ s₁ hframe₁ s₂ hframe₂ hinv _ s₃ hsem
      have htip : AtTip app s₂ := (happ.frame hframe₁).frame hframe₂
      obtain ⟨hpiped, hothers, hfinalized⟩ :=
        hinv.broadcast (effect_of_loggedSem hsem) (hheight.trans htip)
      refine ⟨⟨hpiped, hothers, trivial⟩, ?_⟩
      have hnext : block.height + 1 = UInt64.ofNat (1 + (finalized s₃.2).length) := by
        rw [hfinalized, List.length_append, List.length_singleton, ← Nat.add_assoc, hheight, htip]
        exact (UInt64.ofNat_add _ 1).symm
      exact hnext

theorem safe_processMessage (message : Message) (happ : AtTip app s) :
    SafePipe node config .application AtTip (app.processMessage sha256 message) s := by
  by_cases hfinalize : ∃ digest, message = .finalize digest
  · obtain ⟨digest, rfl⟩ := hfinalize
    exact safe_finalize happ
  · have hmessage : ∀ digest, message ≠ .finalize digest :=
      fun digest h => hfinalize ⟨digest, h⟩
    have hquiet : (app.processMessage sha256 message).Performs Quiet :=
      performs_processMessage sha256 (fun _ => quiet_of_plain) (fun _ => trivial) hmessage
    refine (safe_of_quiet hquiet).mono ?_
    rintro app' s' ⟨hframe, tr, hexec, -⟩
    have htip : AtTip app s' := happ.frame hframe
    have houtcome := ensures_processMessage sha256 message tr app' () hexec
    rcases height_of_outcome (l := (message, tr)) houtcome with
      ⟨-, hheight⟩ | ⟨digest, block, hmessage', -⟩
    · rwa [AtTip, hheight]
    · exact absurd hmessage' (hmessage digest)

end Application

section Submission

/-- What a submission leaves: `J` where it succeeded, still `I` where it did not, and `L`
as well. -/
def Settled (I J L : LoggedState → Prop) : Except CelestiaError α → LoggedState → Prop
  | .ok _, s => J s
  | .error _, s => I s ∧ L s

theorem safe_withRetryLoop {I J L : LoggedState → Prop} {operationName : String}
    {baseDelayMs : UInt64} {blobs : List Blob}
    (hstable : ∀ s s', I s → Frame config t s s' → I s')
    (hsubmits : ∀ s, Piped node config s → I s → ∃ blocks,
      blocks.Sublist ((finalized s.2).filter (leads config)) ∧ Created node.celestia blocks blobs)
    (hok : ∀ s s' celestiaHeight, Piped node config s → I s →
      Effect t ⟨.submitBlobs blobs, (.ok celestiaHeight : Except String UInt64)⟩ s s' →
        Piped node config s' ∧ FrameOthers config t s s' ∧ J s')
    (herror : ∀ s s' e,
      Effect t ⟨.submitBlobs blobs, (.error e : Except String UInt64)⟩ s s' → L s')
    (attempts : UInt32) (remaining : Nat) (hs : I s) :
    SafePipe node config t (Settled I J L)
      (withRetryLoop operationName baseDelayMs (submit blobs) attempts remaining) s := by
  have hfails : ∀ s₁ s₂ e, Piped node config s₁ → I s₁ →
      LoggedSem t (.submitBlobs blobs) s₁ (.error e : Except String UInt64) s₂ →
        Piped node config s₂ ∧ FrameOthers config t s₁ s₂ ∧ I s₂ ∧ L s₂ := by
    intro s₁ s₂ e hinv h₁ hsem
    have he := effect_of_loggedSem hsem
    obtain ⟨hpiped, hall⟩ := hinv.still he rfl rfl rfl
    exact ⟨hpiped, fun u _ => hall u, hstable s₁ s₂ h₁ (hall t), herror s₁ s₂ e he⟩
  induction remaining generalizing attempts s with
  | zero =>
      intro s₁ hframe hinv (ans : Except String UInt64) s₂ hsem
      have h₁ := hstable s s₁ hs hframe
      cases ans with
      | error e =>
          obtain ⟨hpiped, hothers, h₂⟩ := hfails s₁ s₂ e hinv h₁ hsem
          exact ⟨⟨hpiped, hothers, hsubmits s₁ hinv h₁⟩, h₂⟩
      | ok height =>
          obtain ⟨hpiped, hothers, h₂⟩ := hok s₁ s₂ height hinv h₁ (effect_of_loggedSem hsem)
          exact ⟨⟨hpiped, hothers, hsubmits s₁ hinv h₁⟩, h₂⟩
  | succ remaining ih =>
      intro s₁ hframe hinv (ans : Except String UInt64) s₂ hsem
      have h₁ := hstable s s₁ hs hframe
      cases ans with
      | error e =>
          obtain ⟨hpiped, hothers, h₂, -⟩ := hfails s₁ s₂ e hinv h₁ hsem
          refine ⟨⟨hpiped, hothers, hsubmits s₁ hinv h₁⟩, ?_⟩
          have hsleep : (op (.sleep (baseDelayMs * attempts.toUInt64))).Performs Quiet :=
            Prog.performs_perform trivial
          have hagain : SafePipe node config t (Settled I J L)
              (op (.sleep (baseDelayMs * attempts.toUInt64)) >>= fun _ =>
                withRetryLoop operationName baseDelayMs (submit blobs) (attempts + 1) remaining)
              s₂ :=
            safe_quiet_bind hsleep fun _ s₃ hframe₃ => ih (attempts + 1) (hstable s₂ s₃ h₂ hframe₃)
          exact hagain
      | ok height =>
          obtain ⟨hpiped, hothers, h₂⟩ := hok s₁ s₂ height hinv h₁ (effect_of_loggedSem hsem)
          exact ⟨⟨hpiped, hothers, hsubmits s₁ hinv h₁⟩, h₂⟩

theorem safe_submitImmediate {block : Block} (hbatching : batching node = false)
    (hblock : Owing node config [block] s) :
    SafePipe node config .finalization (fun _ => Owing node config [])
      (submitImmediate node.celestia block) s := by
  unfold submitImmediate submitBlock
  split
  · rename_i e hcreate
    refine hblock.failed fun h => ?_
    obtain ⟨_, hsub, -⟩ := hblock
    obtain ⟨blob, hblob⟩ :=
      h.1 hbatching block (hsub.subset (List.mem_append_right _ (List.mem_singleton_self _)))
    rw [hblob] at hcreate
    cases hcreate
  · rename_i blob hcreate
    have hretry : SafePipe node config .finalization (fun _ => Owing node config [])
        (submitWithRetry blob) s := by
      refine safe_bind (safe_withRetryLoop (I := Owing node config [block])
        (J := Owing node config []) (L := fun s => ¬ Unfailing node config s)
        (fun _ _ h => h.frame) ?_ ?_ ?_ 1 _ hblock) fun r s' h => ?_
      · exact fun s₁ hinv howing =>
          ⟨[block], howing.sublist hinv, congrArg (fun r => [r]) hcreate⟩
      · exact fun s₁ s₂ celestiaHeight hinv howing he =>
          hinv.submitImmediate he hbatching howing hcreate
      · exact fun s₁ s₂ e he => not_unfailing he.mem_events rfl
      · cases r with
        | error e => exact h.1.failed h.2
        | ok height => exact h
    rw [Prog.bind_assoc]
    refine safe_bind hretry fun r s' h => ?_
    cases r with
    | error e => exact h
    | ok r =>
        have htrack : ∀ submission, (trackFinality submission).Performs Quiet :=
          fun _ => Prog.performs_perform trivial
        exact (safe_of_quiet (htrack _)).mono fun _ s'' hframe => h.frame hframe.1

theorem safe_queueForBatch {batchTx : Bool} {block : Block} (hbatchTx : batchTx = true)
    (hbatching : batching node = true) (hblock : Owing node config [block] s) :
    SafePipe node config .finalization (fun _ => Owing node config [])
      (queueForBatch batchTx block) s := by
  unfold queueForBatch
  rw [hbatchTx]
  intro s₁ hframe hinv (taken : Bool) s₂ hsem
  have he := effect_of_loggedSem hsem
  cases taken with
  | false =>
      obtain ⟨hpiped, hall⟩ := hinv.still he rfl rfl rfl
      refine ⟨⟨hpiped, fun u _ => hall u, trivial⟩, ?_⟩
      exact ((hblock.frame hframe).frame (hall _)).failed (not_unfailing he.mem_events rfl)
  | true =>
      obtain ⟨hpiped, hothers, hdone⟩ := hinv.queue he hbatching (hblock.frame hframe)
      exact ⟨⟨hpiped, hothers, trivial⟩, hdone⟩

theorem safe_processFinalizedBlock {block : Block} {isLeader : Bool}
    (hblock : Owing node config (if isLeader then [block] else []) s) :
    SafePipe node config .finalization (fun _ => Owing node config [])
      (processFinalizedBlock (finalizationContext node) block isLeader) s := by
  have hexecute : (executeAndUpdateForkchoice block block.blockHash).Performs Quiet :=
    performs_executeAndUpdateForkchoice
      (performs_executeBlock (fun _ => trivial) fun _ _ => trivial) trivial
      (fun _ => performs_updateForkchoice trivial trivial) fun _ => trivial
  have hinsert : (op (.insertExecuted block.blockHash)).Performs Quiet :=
    Prog.performs_perform trivial
  refine safe_bind (safe_of_quiet hexecute) ?_
  rintro result s₁ ⟨hframe₁, tr, hexec, hsub⟩
  have h₁ := hblock.frame hframe₁
  split
  · rename_i e
    obtain ⟨e, he, hfailed⟩ :=
      (ensures_executeAndUpdateForkchoice block tr _ () hexec).resolve_left nofun
    exact h₁.failed (not_unfailing (hsub he) hfailed)
  · refine safe_quiet_bind hinsert fun _ s₂ hframe₂ => ?_
    have h₂ := h₁.frame hframe₂
    cases isLeader with
    | false => exact h₂
    | true =>
        unfold submitToCelestia
        simp only [if_true]
        split
        · rename_i hbatching
          have hpositive : 0 < node.config.batchIntervalMs := of_decide_eq_true hbatching
          exact safe_queueForBatch (decide_eq_true (UInt64.pos_iff_ne_zero.mp hpositive))
            hbatching h₂
        · rename_i hbatching
          exact safe_submitImmediate (Bool.not_eq_true _ ▸ hbatching) h₂

theorem safe_submitBlocks {blocks : List Block} (hblocks : Holding node.celestia blocks s) :
    SafePipe node config .batch
      (Settled (Holding node.celestia blocks) (Holding node.celestia []) fun _ => True)
      (submitBlocks node.celestia blocks) s := by
  unfold submitBlocks
  split
  · rename_i hempty
    rw [List.isEmpty_iff.mp hempty] at hblocks
    exact hblocks
  · split
    · exact ⟨hblocks, trivial⟩
    · rename_i blobs infos hcreate
      have hcreated : Created node.celestia blocks blobs := (createBlobsForBlocks_eq_ok hcreate).1
      refine safe_bind (safe_withRetryLoop (I := Holding node.celestia blocks)
        (J := Holding node.celestia []) (L := fun _ => True) (fun _ _ h => h.frame)
        ?_ ?_ (fun _ _ _ _ => trivial) 1 _ hblocks) fun r s' h => ?_
      · exact fun s₁ hinv hholding => ⟨blocks, hholding.sublist hinv, hcreated⟩
      · exact fun s₁ s₂ celestiaHeight hinv hholding he => hinv.submitBatch he hholding hcreated
      · cases r with
        | error e => exact h
        | ok height => exact h

theorem safe_submitBatch {state : BatchState}
    (hstate : Holding node.celestia state.pendingBlocks s) :
    SafePipe node config .batch (fun r => Holding node.celestia r.2.pendingBlocks)
      (submitBatch node.celestia state) s := by
  unfold submitBatch
  simp only
  split
  · rename_i hempty
    rwa [List.isEmpty_iff.mp hempty] at hstate
  · refine safe_bind (safe_submitBlocks hstate) fun r s' h => ?_
    cases r with
    | error e => exact h.1
    | ok submissions =>
        refine safe_quiet_bind (performs_logBatchSuccess (fun _ => trivial) submissions)
          fun _ s'' hframe => ?_
        exact Holding.frame h hframe

theorem safe_batchIteration {maxBatchSizeBytes : Nat} {loop : BatchLoop} {event : BatchEvent}
    (hloop : Holding node.celestia (loop.state.pendingBlocks ++ (receivedOf event).toList) s) :
    SafePipe node config .batch (fun loop' => Holding node.celestia loop'.state.pendingBlocks)
      (batchIteration node.celestia maxBatchSizeBytes loop event) s := by
  have hwait := congrArg BatchState.pendingBlocks
    (waitForBatchEvent_state event loop.state maxBatchSizeBytes)
  simp only at hwait
  rw [← hwait] at hloop
  unfold batchIteration
  generalize waitForBatchEvent event loop.state maxBatchSizeBytes = waited at hloop
  obtain ⟨action, state⟩ := waited
  cases action with
  | «continue» => exact hloop
  | submit =>
      refine safe_bind (safe_submitBatch hloop) ?_
      rintro ⟨succeeded, state'⟩ s' h
      cases succeeded <;> exact h
  | shutdown => exact safe_bind (safe_submitBatch hloop) fun _ _ h => h

end Submission

section Others

variable {json : IndexJson} {celestia : CelestiaClient}

theorem quiet_of_retrieves {o : NodeOp} (h : Retrieves o) : Quiet o := by
  cases o <;> trivial

theorem quiet_syncSingleBlock (index : BlockIndex) (block : Block) (celestiaHeight : UInt64)
    (expectedParent : B256) :
    (syncSingleBlock json index block celestiaHeight expectedParent).Performs Quiet := by
  refine performs_syncSingleBlock (fun _ => trivial) ?_ trivial fun _ => trivial
  exact performs_executeSyncBlock
    (performs_executeBlock (fun _ => trivial) fun _ _ => trivial) trivial
    (fun _ => performs_updateForkchoice trivial trivial) fun _ => trivial

theorem quiet_initFromCelestia (genesisDaHeight : UInt64) :
    (initFromCelestia json celestia genesisDaHeight).Performs Quiet :=
  performs_initFromCelestia (fun _ => quiet_of_retrieves) trivial quiet_syncSingleBlock _

theorem quiet_startMain : (startMain node).Performs Quiet := by
  refine Prog.Performs.bind ?_ fun result => by split <;> exact Prog.performs_pure _
  refine (Prog.performs_perform trivial).bind fun forkchoice => ?_
  split
  · exact Prog.performs_pure _
  · refine (quiet_initFromCelestia _).bind fun synced => ?_
    split
    · exact Prog.performs_pure _
    · have hruntime : ∀ r : Except Report (SimplexRuntimeConfig PublicKey),
          (op .spawnRuntime >>= fun _ => Prog.pure r).Performs Quiet :=
        fun r => (Prog.performs_perform trivial).bind fun _ => Prog.performs_pure _
      simp only
      split
      · exact (Prog.performs_perform trivial).bind fun _ => hruntime _
      · exact hruntime _

theorem quiet_mainHandler (input : MainInput) : (mainHandler input).Performs Quiet := by
  cases input with
  | ctrlC => exact Prog.performs_pure _
  | confirmation confirmation =>
      have hconfirmation : (handleFinalityConfirmation confirmation).Performs Quiet := by
        have hverify : (verifyBlockExecuted confirmation).Performs Quiet :=
          Prog.performs_perform trivial
        refine hverify.bind fun executed => ?_
        split
        · exact Prog.performs_pure _
        · refine (Prog.performs_perform trivial).bind fun current => ?_
          refine (performs_updateForkchoice trivial trivial).bind fun response => ?_
          split
          · exact Prog.performs_pure _
          · exact Prog.performs_perform trivial
      exact hconfirmation.bind fun _ => Prog.performs_pure _

end Others

end Programs

section Node

variable [DecidableEq PublicKey] {node : NodeParams PublicKey}
  {config : SimplexRuntimeConfig PublicKey}

def Good (node : NodeParams PublicKey) (config : SimplexRuntimeConfig PublicKey) :
    (t : NodeTask) → Local t → LoggedState → Prop
  | .application, app, s => AtTip app s
  | .finalization, _, s => Owing node config [] s
  | .batch, loop, s => Holding node.celestia (BatchLoop.state loop).pendingBlocks s
  | _, _, _ => True

theorem accepted_block (config : SimplexRuntimeConfig PublicKey)
    {channel channel' : Channel Block} {block : Block}
    (h : channel.recv false = some (.ok block, channel')) :
    channel'.sent = channel.sent ∧
      led config channel' = led config channel ++ if leads config block then [block] else [] := by
  have hsent := (Channel.sent_of_recv h).1
  rcases Channel.recv_open h with ⟨-, b, hb, htake⟩ | ⟨-, missed, hmissed⟩
  · cases hb
    refine ⟨hsent, ?_⟩
    rw [led, htake, List.filter_append, List.filter_singleton, Bool.cond_eq_ite]
    rfl
  · cases hmissed

theorem piped_of_input {s s' : LoggedState} {t : NodeTask} (hs : Piped node config s)
    (hchannel : s'.1.finalized = s.1.finalized) (hlog : s'.2 = s.2)
    (hqueue : t ≠ .batch → s'.1.node.batchQueue = s.1.node.batchQueue) :
    Piped node config s' ∧ FrameOthers config t s s' := by
  refine ⟨⟨?_, ?_, ?_, ?_, ?_⟩, ?_⟩
  · rw [hchannel, hlog]
    exact hs.sent
  · rw [hlog]
    exact hs.heights
  · rw [hchannel, hlog]
    exact hs.passed
  · rw [hlog]
    exact hs.submitted
  · rw [hlog]
    exact hs.others
  · refine fun u hu => ⟨hlog ▸ List.prefix_rfl, ?_⟩
    cases u
    case application => exact congrArg finalized hlog
    case finalization =>
        exact ⟨congrArg queued hlog, congrArg _ hlog, congrArg (led config) hchannel⟩
    case batch =>
        refine ⟨congrArg _ hlog, [], ?_, ?_⟩
        · rw [hlog, List.append_nil]
        · rw [hqueue hu.symm, List.append_nil]
    all_goals trivial

theorem piped_of_received {s s' : LoggedState} {block : Block} {isLeader : Bool}
    (hs : Piped node config s) (howing : Owing node config [] s)
    (hnode : s'.1.node = s.1.node) (hlog : s'.2 = s.2)
    (hrecv : s.1.finalized.recv false = some (.ok block, s'.1.finalized))
    (hleader : finalizedBlockIsLeader config block.height = some isLeader) :
    Piped node config s' ∧ FrameOthers config .finalization s s' ∧
      Owing node config (if isLeader then [block] else []) s' := by
  obtain ⟨hsent, hled⟩ := accepted_block config hrecv
  obtain ⟨blocks, hsub, hpassed⟩ := hs.passed
  refine ⟨⟨?_, ?_, ⟨blocks, ?_, ?_⟩, ?_, ?_⟩, ?_, ?_⟩
  · rw [hsent, hlog]
    exact hs.sent
  · rw [hlog]
    exact hs.heights
  · rw [hled]
    exact hsub.trans (List.sublist_append_left _ _)
  · rwa [hlog]
  · rw [hlog]
    exact hs.submitted
  · rw [hlog]
    exact hs.others
  · refine fun u hu => ⟨hlog ▸ List.prefix_rfl, ?_⟩
    cases u
    case application => exact congrArg finalized hlog
    case finalization => exact absurd rfl hu
    case batch =>
        refine ⟨congrArg _ hlog, [], ?_, ?_⟩
        · rw [hlog, List.append_nil]
        · rw [hnode, List.append_nil]
    all_goals trivial
  · have hleads : leads config block = isLeader := by
      rw [leads, hleader]
      cases isLeader <;> rfl
    rw [hleads] at hled
    obtain ⟨blocks, hsub, hpassed, hall⟩ := howing
    rw [List.append_nil] at hsub hall
    refine ⟨blocks, ?_, by rwa [hlog], fun h => ?_⟩
    · rw [hled]
      exact hsub.append (List.Sublist.refl _)
    · have hgrows : led config s.1.finalized ⊆ led config s'.1.finalized :=
        hled ▸ List.subset_append_left _ _
      rw [hled, hall (h.of_grows (hlog ▸ List.prefix_rfl) hgrows)]

theorem holding_of_accept {celestia : CelestiaClient} {loop : BatchLoop} {event : BatchEvent}
    {s s' : LoggedState} (hloop : Holding celestia loop.state.pendingBlocks s)
    (hlog : s'.2 = s.2) (haccept : System.accept .batch loop s.1.node event s'.1.node) :
    Holding celestia (loop.state.pendingBlocks ++ (receivedOf event).toList) s' := by
  obtain ⟨blocks, hcreated, hqueued⟩ := hloop
  refine ⟨blocks, hlog ▸ hcreated, ?_⟩
  rw [hlog, hqueued]
  obtain ⟨-, -, htake⟩ := haccept
  cases event with
  | tick =>
      have hnode : s'.1.node = s.1.node := htake
      rw [hnode]
      simp [receivedOf]
  | received block =>
      cases block with
      | none =>
          obtain ⟨-, hnode⟩ := htake
          rw [hnode]
          simp [receivedOf]
      | some block =>
          obtain ⟨rest, hqueue, hnode⟩ := htake
          rw [hqueue, hnode]
          simp [receivedOf]

theorem relyGuarantee : RelyGuarantee (logged (pipeline node config)) (Piped node config)
    (Frame config) (FrameOthers config) (Submits node config) (Good node config) where
  refl _ s := Frame.refl s
  trans _ _ _ _ h₁ h₂ := h₁.trans h₂
  guarantee _ u _ _ hne h := h u hne
  good t l s s' hgood hrely := by
    cases t with
    | application => exact AtTip.frame hgood hrely
    | finalization => exact Owing.frame hgood hrely
    | batch => exact Holding.frame hgood hrely
    | _ => trivial
  accepted t l s x s' hinv hgood haccept := by
    obtain ⟨haccept, hlog⟩ := haccept
    cases t with
    | main =>
        obtain ⟨haccept, hchannel⟩ := haccept
        have hqueue : s'.1.node.batchQueue = s.1.node.batchQueue := by
          cases x with
          | confirmation confirmation =>
              obtain ⟨-, rest, -, hnode⟩ := haccept
              rw [hnode]
          | ctrlC => rw [haccept.2]
        obtain ⟨hpiped, hothers⟩ := piped_of_input hinv hchannel hlog fun _ => hqueue
        exact ⟨hpiped, hothers, (safe_of_quiet (quiet_mainHandler x)).ignore⟩
    | application =>
        obtain ⟨⟨-, hnode⟩, hchannel⟩ := haccept
        obtain ⟨hpiped, hothers⟩ := piped_of_input hinv hchannel hlog fun _ => by rw [hnode]
        have hframe : Frame config .application s s' :=
          ⟨hlog ▸ List.prefix_rfl, congrArg finalized hlog⟩
        exact ⟨hpiped, hothers, safe_processMessage x (AtTip.frame hgood hframe)⟩
    | finalization =>
        obtain ⟨-, hnode, hrecv, hleader⟩ := haccept
        obtain ⟨hpiped, hothers, hawaiting⟩ := piped_of_received hinv hgood hnode hlog hrecv hleader
        exact ⟨hpiped, hothers, safe_processFinalizedBlock hawaiting⟩
    | batch =>
        obtain ⟨haccept, hchannel⟩ := haccept
        obtain ⟨hpiped, hothers⟩ := piped_of_input hinv hchannel hlog fun h => absurd rfl h
        exact ⟨hpiped, hothers, safe_batchIteration (holding_of_accept hgood hlog haccept)⟩
    | headers =>
        obtain ⟨hnode, hchannel⟩ := haccept
        have hqueue : s'.1.node.batchQueue = s.1.node.batchQueue :=
          congrArg NodeState.batchQueue hnode
        obtain ⟨hpiped, hothers⟩ := piped_of_input hinv hchannel hlog fun _ => hqueue
        have hheader : (processHeader x.1 x.2).Performs Quiet :=
          performs_processHeader trivial fun _ => trivial
        exact ⟨hpiped, hothers, (safe_of_quiet hheader).ignore⟩
    | tracking =>
        obtain ⟨⟨-, hnode⟩, hchannel⟩ := haccept
        obtain ⟨hpiped, hothers⟩ := piped_of_input hinv hchannel hlog fun _ => by rw [hnode]
        have htrack : (op (.track x)).Performs Quiet := Prog.performs_perform trivial
        exact ⟨hpiped, hothers, (safe_of_quiet htrack).ignore⟩

variable {genesisHash : B256} {indexFile : Option (List Char)} {retained : Nat}
  {ts : List (TaskTransition Ans PipelineState Local Input)}
  {c : Config NodeOp Ans PipelineState Local}

theorem safeConfig_initial :
    SafeConfig (logged (pipeline node config)) (Piped node config) (Frame config)
      (FrameOthers config) (Submits node config) (Good node config)
      (withLog (pipelineInitial node config genesisHash indexFile retained) []) := by
  have hpassed : PassedOn node [] [] := by
    constructor
    · exact (ite_self _).symm
    · rw [ite_self]
      rfl
  refine ⟨⟨rfl, rfl, ⟨[], List.nil_sublist _, ?_⟩, ⟨[], List.nil_prefix, rfl⟩,
    fun _ _ _ => rfl⟩, ?_⟩
  · exact hpassed
  · intro t
    cases t with
    | main =>
        have hstart : (startMain node).Performs Quiet := quiet_startMain
        exact (safe_of_quiet hstart).ignore
    | application => rfl
    | finalization => exact ⟨[], List.nil_sublist _, hpassed, fun _ => rfl⟩
    | batch => exact ⟨[], rfl, rfl⟩
    | _ => trivial

theorem piped_of_run (hrun : Run (Step (pipeline node config))
    (pipelineInitial node config genesisHash indexFile retained) ts c) :
    Piped node config (c.shared, events ts) :=
  (run_of_relyGuarantee relyGuarantee hrun safeConfig_initial).1.1

/-- In every run of a node, the blobs that Celestia has acknowledged are, in the order of
the acknowledgements, those of blocks that the actor has finalized and that this node leads,
each once and in chain order. A block that was queued for a batch is acknowledged, pending or
still in the channel whenever the batch loop waits. -/
theorem submitted_of_run
    (hrun : Run (Step (pipeline node config))
      (pipelineInitial node config genesisHash indexFile retained) ts c) :
    (finalized (events ts)).map Block.height =
        (List.range' 1 (finalized (events ts)).length).map UInt64.ofNat ∧
      (queued (events ts)).Sublist ((finalized (events ts)).filter (leads config)) ∧
      ∃ submitted, submitted.Sublist ((finalized (events ts)).filter (leads config)) ∧
        Created node.celestia submitted (acknowledged (events ts)) ∧
        ∀ loop, node.config.batchIntervalMs ≠ 0 → c.task .batch = .pure loop →
          queued (events ts) =
            submitted ++ loop.state.pendingBlocks ++ c.shared.node.batchQueue := by
  obtain ⟨⟨hpiped, hsafe⟩, -⟩ := run_of_relyGuarantee relyGuarantee hrun safeConfig_initial
  have hinv : Piped node config (c.shared, events ts) := hpiped
  have hqueue : (queued (events ts)).Sublist ((finalized (events ts)).filter (leads config)) :=
    hinv.queued_sublist
  refine ⟨hinv.heights, hqueue, ?_⟩
  by_cases hidle : node.config.batchIntervalMs ≠ 0 ∧ ∃ loop, c.task .batch = .pure loop
  · obtain ⟨hinterval, loop, hloop⟩ := hidle
    have hgood := hsafe .batch
    rw [withLog, hloop] at hgood
    obtain ⟨blocks, hblocks, hqueued⟩ := hgood
    have hbatching : batching node = true :=
      decide_eq_true (UInt64.pos_iff_ne_zero.mpr hinterval)
    refine ⟨blocks, ?_, ?_, ?_⟩
    · refine List.Sublist.trans ?_ hqueue
      rw [hqueued, List.append_assoc]
      exact List.sublist_append_left _ _
    · have hacknowledged := hinv.acknowledged_batch hbatching
      rw [hacknowledged]
      exact hblocks
    · intro loop' _ hloop'
      obtain rfl : loop = loop' := Prog.pure.inj (hloop.symm.trans hloop')
      exact hqueued
  · obtain ⟨submitted, hsub, hcreated⟩ := hinv.exists_submitted
    exact ⟨submitted, hsub, hcreated, fun loop hinterval hloop =>
      absurd ⟨hinterval, loop, hloop⟩ hidle⟩

theorem passedOn_of_run (hrun : Run (Step (pipeline node config))
    (pipelineInitial node config genesisHash indexFile retained) ts c)
    (hblobs : node.config.batchIntervalMs = 0 →
      ∀ block ∈ (finalized (events ts)).filter (leads config),
        ∃ blob, node.celestia.createBlobForBlock block = .ok blob)
    (hsucceeded : ∀ e ∈ eventsOf .finalization (events ts), succeeded e = true)
    (hcaughtUp : caughtUp c = true) :
    PassedOn node (events ts) ((finalized (events ts)).filter (leads config)) ∧
      Created node.celestia ((finalized (events ts)).filter (leads config))
        (acknowledged (events ts)) := by
  obtain ⟨⟨hpiped, hsafe⟩, -⟩ := run_of_relyGuarantee relyGuarantee hrun safeConfig_initial
  have hinv : Piped node config (c.shared, events ts) := hpiped
  obtain ⟨hidle, hdrained, loop, hloop, hpending, hqueue⟩ := caughtUp_iff.mp hcaughtUp
  have howing := hsafe .finalization
  rw [withLog, hidle] at howing
  have hholding : Holding node.celestia (BatchLoop.state loop).pendingBlocks
      (c.shared, events ts) := by
    have hgood := hsafe .batch
    rw [withLog, hloop] at hgood
    exact hgood
  rw [hpending] at hholding
  have hunfailing : Unfailing node config (c.shared, events ts) := by
    refine ⟨fun hbatching block hblock => ?_, hsucceeded⟩
    have hzero : node.config.batchIntervalMs = 0 := by
      simpa [batching, finalizationContext] using hbatching
    exact hblobs hzero block (hinv.led_sublist.subset hblock)
  have hpassed := hinv.passedOn_of_drained howing hdrained hunfailing
  exact ⟨hpassed, hinv.created_of_passedOn hpassed hholding hqueue⟩

/-- Nothing is lost on the way to Celestia while nothing fails: once the loops have caught up,
Celestia has acknowledged every block that the actor has finalized and that this node leads,
each once and in chain order, and with batches each has gone through the batch channel. Without
batches, a block that gives no blob would be such a failure. -/
theorem acknowledged_of_run
    (hrun : Run (Step (pipeline node config))
      (pipelineInitial node config genesisHash indexFile retained) ts c)
    (hblobs : node.config.batchIntervalMs = 0 →
      ∀ block ∈ (finalized (events ts)).filter (leads config),
        ∃ blob, node.celestia.createBlobForBlock block = .ok blob)
    (hsucceeded : ∀ e ∈ eventsOf .finalization (events ts), succeeded e = true)
    (hcaughtUp : caughtUp c = true) :
    Created node.celestia ((finalized (events ts)).filter (leads config))
        (acknowledged (events ts)) ∧
      queued (events ts) = if node.config.batchIntervalMs ≠ 0 then
        (finalized (events ts)).filter (leads config) else [] := by
  obtain ⟨⟨hqueued, -⟩, hcreated⟩ := passedOn_of_run hrun hblobs hsucceeded hcaughtUp
  refine ⟨hcreated, hqueued.trans ?_⟩
  simp [batching, finalizationContext, UInt64.pos_iff_ne_zero]

theorem submits_of_run
    (hrun : Run (Step (pipeline node config))
      (pipelineInitial node config genesisHash indexFile retained) ts c)
    {t : NodeTask} {blobs : List Blob} {ans : Except String UInt64}
    (hsubmitted : (t, ⟨.submitBlobs blobs, ans⟩) ∈ events ts) :
    ∃ blocks, blocks.Sublist ((finalized (events ts)).filter (leads config)) ∧
      Created node.celestia blocks blobs := by
  obtain ⟨-, hallowed⟩ := run_of_relyGuarantee relyGuarantee hrun safeConfig_initial
  obtain ⟨before, tr, after, rfl, hlabel⟩ := exists_of_mem_events hsubmitted
  obtain ⟨blocks, hsub, hcreated⟩ :=
    hallowed before tr after rfl t (.submitBlobs blobs) ans hlabel
  refine ⟨blocks, hsub.trans (List.Sublist.filter _ ?_), hcreated⟩
  have hlog : events (before ++ tr :: after) = events before ++ events (tr :: after) :=
    List.flatMap_append
  rw [hlog, finalized, finalized, List.filterMap_append]
  exact List.sublist_append_left _ _

end Node

section Example

open Rkb.Library.Bytes (FixedBytes)
open Rkb.Node.ExecutedFinality (soleValidator)

/-- All goes well, and the channel is the broadcast channel. -/
def answerPipeline (backend : Backend) : Prog.Env NodeOp Ans PipelineState
  | .broadcastBlock block, s =>
      some ((() : Ans (.broadcastBlock block)), { s with finalized := s.finalized.send block })
  | o, s => (acceptingNode backend o s.node).map fun r => (r.1, { s with node := r.2 })

def receivedBlock (block : Block) : Option (Except RecvError Block × Channel Block) →
    Option (Channel Block)
  | some (.ok b, channel) => if b = block then some channel else none
  | _ => none

def takePipeline {PublicKey : Type} [DecidableEq PublicKey]
    (config : SimplexRuntimeConfig PublicKey) (backend : Backend) :
    (t : NodeTask) → Local t → PipelineState → Input t → Option PipelineState
  | .finalization, _, s, x =>
      if s.node.runtime ∧ finalizedBlockIsLeader config x.1.height = some x.2 then
        (receivedBlock x.1 (s.finalized.recv false)).map fun channel =>
          { s with finalized := channel }
      else none
  | t, l, s, x => ((environment backend).take t l s.node x).map fun node =>
      { s with node := node }

def pipelineEnvironment {PublicKey : Type} [DecidableEq PublicKey]
    (config : SimplexRuntimeConfig PublicKey) (backend : Backend) :
    Environment NodeOp Ans PipelineState NodeTask Local Input where
  answer _ := answerPipeline backend
  take := takePipeline config backend

theorem recv_of_receivedBlock {block : Block}
    {r : Option (Except RecvError Block × Channel Block)} {channel : Channel Block}
    (h : receivedBlock block r = some channel) : r = some (.ok block, channel) := by
  unfold receivedBlock at h
  split at h
  · obtain ⟨rfl, ⟨⟩⟩ := Option.ite_none_right_eq_some.mp h
    rfl
  · cases h

theorem pipelineEnvironment_sound {PublicKey : Type} [DecidableEq PublicKey]
    (node : NodeParams PublicKey) (config : SimplexRuntimeConfig PublicKey) (backend : Backend) :
    (pipelineEnvironment config backend).Sound (pipeline node config) where
  answer t o s ans s' h := by
    have hother : (acceptingNode backend o s.node).map
        (fun r => ((r.1, { s with node := r.2 }) : Ans o × PipelineState)) = some (ans, s') →
          broadcastOf o = none → (pipeline node config).sem t o s ans s' := by
      intro h hnone
      obtain ⟨⟨ans₁, node₁⟩, hanswer, heq⟩ := Option.map_eq_some_iff.mp h
      cases heq
      refine ⟨acceptingNode_sound backend o s.node ans₁ node₁ hanswer, ?_⟩
      rw [hnone]
      rfl
    cases o
    case broadcastBlock block =>
        cases h
        exact ⟨rfl, rfl⟩
    all_goals exact hother h rfl
  take t l s x s' h := by
    have hother : ((environment backend).take t l s.node x).map
        (fun state => ({ s with node := state } : PipelineState)) = some s' →
          System.accept t l s.node x s'.node ∧ s'.finalized = s.finalized := by
      intro h
      obtain ⟨node₁, htake, heq⟩ := Option.map_eq_some_iff.mp h
      cases heq
      exact ⟨(environment_sound node backend).take t l s.node x node₁ htake, rfl⟩
    cases t
    case finalization =>
        obtain ⟨⟨hruntime, hleader⟩, h⟩ := Option.ite_none_right_eq_some.mp h
        obtain ⟨channel, hreceived, heq⟩ := Option.map_eq_some_iff.mp h
        cases heq
        exact ⟨hruntime, rfl, recv_of_receivedBlock hreceived, hleader⟩
    all_goals exact hother h

def soleConfig : SimplexRuntimeConfig UInt64 where
  publicKey := 1
  validators := [1]
  ourAddress := FixedBytes.zero
  initialHash := FixedBytes.zero
  blockTiming := .vanilla

/-- The payload of the block of height `n`, and the digest that it is known by. -/
def payloadOf (n : Nat) : BuiltPayload :=
  emptyPayload (UInt64.ofNat n) (FixedBytes.repeatByte (UInt8.ofNat (n - 1)))
    (FixedBytes.repeatByte (UInt8.ofNat n))

def digestOf (n : Nat) : AppDigest := FixedBytes.repeatByte (UInt8.ofNat n)

def finalizeMoves (n : Nat) : List (Move Input) :=
  .start .application (.receiveBlock (digestOf n) (chainBlock n) (payloadOf n)) ::
    .act .application ::
    .start .application (.finalize (digestOf n)) :: List.replicate 5 (.act .application)

/-- The finalization loop executes a block, and queues it where this node leads it. -/
def executeMoves (n : Nat) (isLeader : Bool) : List (Move Input) :=
  .start .finalization (chainBlock n, isLeader) ::
    List.replicate (if isLeader then 7 else 6) (.act .finalization)

/-- Celestia answers once two blocks have been executed. -/
def answerLate (backend : Backend) : Prog.Env NodeOp Ans PipelineState
  | .submitBlobs blobs, s =>
      if s.node.executed.card < 2 then
        some ((.error "unavailable" : Ans (.submitBlobs blobs)), s)
      else answerPipeline backend (.submitBlobs blobs) s
  | o, s => answerPipeline backend o s

def lateEnvironment {PublicKey : Type} [DecidableEq PublicKey]
    (config : SimplexRuntimeConfig PublicKey) (backend : Backend) :
    Environment NodeOp Ans PipelineState NodeTask Local Input where
  answer _ := answerLate backend
  take := takePipeline config backend

theorem lateEnvironment_sound {PublicKey : Type} [DecidableEq PublicKey]
    (node : NodeParams PublicKey) (config : SimplexRuntimeConfig PublicKey) (backend : Backend) :
    (lateEnvironment config backend).Sound (pipeline node config) where
  answer t o s ans s' h := by
    have hsound := (pipelineEnvironment_sound node config backend).answer t o s ans s'
    cases o
    case submitBlobs blobs =>
        simp only [lateEnvironment, answerLate] at h
        split at h
        · cases h
          exact ⟨rfl, rfl⟩
        · exact hsound h
    all_goals exact hsound h
  take := (pipelineEnvironment_sound node config backend).take

/-- The batch of the first block fails, and that of both blocks goes through. -/
def twoBatchesSchedule : List (Move Input) :=
  List.replicate 3 (.act .main) ++ finalizeMoves 1 ++ finalizeMoves 2 ++ executeMoves 1 true ++
    .start .batch (.received (some (chainBlock 1))) :: List.replicate 5 (.act .batch) ++
    executeMoves 2 true ++
    .start .batch (.received (some (chainBlock 2))) :: List.replicate 3 (.act .batch)

def TwoBatches (ts : List (TaskTransition Ans PipelineState Local Input))
    (c : Config NodeOp Ans PipelineState Local) : Prop :=
  Run (Step (pipeline soleValidator soleConfig))
    (pipelineInitial soleValidator soleConfig FixedBytes.zero none 128) ts c ∧
    (finalized (events ts)).filter (leads soleConfig) = [chainBlock 1, chainBlock 2] ∧
    ((events ts).filter fun e => !succeeded e.2).length = 3

theorem exists_twoBatches : ∃ ts c, TwoBatches ts c ∧ (acknowledged (events ts)).length = 2 ∧
    (∀ e ∈ eventsOf NodeTask.finalization (events ts), succeeded e = true) ∧
    caughtUp c = true := by
  obtain ⟨ts, c, hrun, hcheck⟩ := exists_run_of_play
    (step_of_playMove (lateEnvironment_sound soleValidator soleConfig genesisBackend))
    (pipelineInitial soleValidator soleConfig FixedBytes.zero none 128) twoBatchesSchedule
    (fun ts c => decide (
      (finalized (events ts)).filter (leads soleConfig) = [chainBlock 1, chainBlock 2] ∧
      ((events ts).filter fun e => !succeeded e.2).length = 3 ∧
      (acknowledged (events ts)).length = 2 ∧
      (∀ e ∈ eventsOf NodeTask.finalization (events ts), succeeded e = true) ∧
      caughtUp c = true)) (by decide +kernel)
  obtain ⟨hfinalized, hfailed, hrest⟩ := of_decide_eq_true hcheck
  exact ⟨ts, c, ⟨hrun, hfinalized, hfailed⟩, hrest⟩

theorem submitted_of_run_twoBatches : ∃ ts c, TwoBatches ts c ∧
    Created soleValidator.celestia [chainBlock 1, chainBlock 2] (acknowledged (events ts)) := by
  obtain ⟨ts, c, htwo, hlength, -⟩ := exists_twoBatches
  obtain ⟨-, -, submitted, hsub, hcreated, -⟩ := submitted_of_run htwo.1
  have hcount := congrArg List.length hcreated
  rw [List.length_map, List.length_map, hlength] at hcount
  rw [htwo.2.1] at hsub
  obtain rfl := hsub.eq_of_length hcount
  exact ⟨ts, c, htwo, hcreated⟩

/-- The finalization loop has not seen the failures of the batch loop. -/
theorem acknowledged_of_run_twoBatches : ∃ ts c, TwoBatches ts c ∧
    Created soleValidator.celestia [chainBlock 1, chainBlock 2] (acknowledged (events ts)) ∧
    queued (events ts) = [chainBlock 1, chainBlock 2] := by
  obtain ⟨ts, c, htwo, -, hsucceeded, hcaughtUp⟩ := exists_twoBatches
  have hblobs : soleValidator.config.batchIntervalMs = 0 →
      ∀ block ∈ (finalized (events ts)).filter (leads soleConfig),
        ∃ blob, soleValidator.celestia.createBlobForBlock block = .ok blob :=
    fun _ _ _ => ⟨_, rfl⟩
  obtain ⟨hcreated, hqueued⟩ := acknowledged_of_run htwo.1 hblobs hsucceeded hcaughtUp
  rw [htwo.2.1] at hcreated hqueued
  exact ⟨ts, c, htwo, hcreated, hqueued⟩

end Example

end Rkb.Node.Pipeline
