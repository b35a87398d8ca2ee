import Rkb.Library.Tasks
import Rkb.Consensus.Actor
import Rkb.Node.Shared
import Rkb.Sequencer.Batch
import Rkb.Sequencer.Finalization
import Rkb.Sequencer.Startup

/-!
A node after its components are initialized: the main task with the sync and the
event loop, the application actor, the finalization loop, the batch loop, the
header subscription, and the tasks that track one submission each.
-/

namespace Rkb.Node.System

open Rkb.Library.Tasks
open Rkb.Types.Blocks
open Rkb.Execution.Errors
open Rkb.Celestia.Blobs
open Rkb.Celestia.Finality
open Rkb.Celestia.Client
open Rkb.Celestia.Index
open Rkb.Consensus.Messages
open Rkb.Consensus.Actor
open Rkb.Sequencer.Batch
open Rkb.Sequencer.Finalization
open Rkb.Sequencer.RuntimeConfig
open Rkb.Sequencer.Startup
open Rkb.Node.Effects
open Rkb.Node.Shared

inductive NodeTask
  | main
  | application
  | finalization
  | batch
  | headers
  | tracking
deriving DecidableEq

inductive MainState
  | eventLoop
  | failed (report : Report)
  | stopped

inductive MainInput
  | confirmation (confirmation : FinalityConfirmation)
  | ctrlC

def Local : NodeTask → Type
  | .main => MainState
  | .application => Application
  | .finalization => Unit
  | .batch => BatchLoop
  | .headers => Unit
  | .tracking => Unit

/-- A finalized block comes with whether this node is its leader. -/
def Input : NodeTask → Type
  | .main => MainInput
  | .application => Message
  | .finalization => Block × Bool
  | .batch => BatchEvent
  | .headers => UInt64 × B256
  | .tracking => BlobSubmission

structure NodeParams (PublicKey : Type) where
  sha256 : List UInt8 → AppDigest
  keys : KeyScheme PublicKey
  json : IndexJson
  celestia : CelestiaClient
  config : SequencerConfig
  inputs : ConsensusInputs

/-- The inputs a task may take up. A channel is received from at its front, and its
receiver sees the end of it only when it is empty. -/
def accept : (t : NodeTask) → Local t → NodeState → Input t → NodeState → Prop
  | .main, state, s, .confirmation confirmation, s' => state = .eventLoop ∧
      ∃ rest, s.confirmations = confirmation :: rest ∧ s' = { s with confirmations := rest }
  | .main, state, s, .ctrlC, s' => state = .eventLoop ∧ s' = s
  | .application, _, s, _, s' => s.runtime = true ∧ s' = s
  | .finalization, _, s, _, s' => s.runtime = true ∧ s' = s
  | .batch, loop, s, event, s' => s.batchTask = true ∧ BatchLoop.exited loop = false ∧
      match (event : BatchEvent) with
      | .tick => s' = s
      | .received none => s.batchQueue = [] ∧ s' = s
      | .received (some block) =>
          ∃ rest, s.batchQueue = block :: rest ∧ s' = { s with batchQueue := rest }
  | .headers, _, s, _, s' => s' = s
  | .tracking, _, s, submission, s' =>
      submission ∈ s.spawned ∧ s' = { s with spawned := s.spawned.erase submission }

variable {PublicKey : Type} (node : NodeParams PublicKey)

def finalizationContext : FinalizationContext where
  celestia := node.celestia
  batchTx := decide (node.config.batchIntervalMs ≠ 0)
  batchEnabled := decide (0 < node.config.batchIntervalMs)

def mainHandler : MainInput → NodeProg MainState
  | .confirmation confirmation => do
      handleFinalityConfirmation confirmation
      return .eventLoop
  | .ctrlC => return .stopped

def handler : (t : NodeTask) → Local t → Input t → NodeProg (Local t)
  | .main, _, input => mainHandler input
  | .application, application, message =>
      Application.processMessage node.sha256 application message
  | .finalization, _, (block, isLeader) =>
      processFinalizedBlock (finalizationContext node) block isLeader
  | .batch, loop, event =>
      batchIteration node.celestia node.config.maxBatchSizeBytes loop event
  | .headers, _, (celestiaHeight, headerHash) => processHeader celestiaHeight headerHash
  | .tracking, _, submission => op (.track submission)

def system : System NodeOp Ans NodeState NodeTask Local Input where
  sem _ := nodeSem
  accept := accept
  handler := handler node

abbrev NodeConfig : Type := Config NodeOp Ans NodeState Local

abbrev NodeTransition : Type := TaskTransition Ans NodeState Local Input

def startMain [DecidableEq PublicKey] : NodeProg MainState := do
  match ← runComponents node.keys node.json node.celestia node.config node.inputs with
  | .error e => return .failed e
  | .ok _ => return .eventLoop

/-- `init_forkchoice` has succeeded. The main task is about to sync; the others wait
until it spawns them. -/
def initial [DecidableEq PublicKey] (genesisHash : B256) (indexFile : Option (List Char))
    (application : Application) : NodeConfig where
  shared := NodeState.initialized genesisHash indexFile
  task
    | .main => startMain node
    | .application => .pure application
    | .finalization => .pure ()
    | .batch => .pure BatchLoop.new
    | .headers => .pure ()
    | .tracking => .pure ()

section Environment

def takeMain : MainState → NodeState → MainInput → Option NodeState
  | .eventLoop, s, .confirmation confirmation =>
      if s.confirmations.head? = some confirmation then
        some { s with confirmations := s.confirmations.tail }
      else none
  | .eventLoop, s, .ctrlC => some s
  | _, _, _ => none

def takeBatch (loop : BatchLoop) (s : NodeState) : BatchEvent → Option NodeState
  | .tick => if s.batchTask ∧ loop.exited = false then some s else none
  | .received none =>
      if s.batchTask ∧ loop.exited = false ∧ s.batchQueue = [] then some s else none
  | .received (some block) =>
      if s.batchTask ∧ loop.exited = false ∧ s.batchQueue.head? = some block then
        some { s with batchQueue := s.batchQueue.tail }
      else none

def takeTracking (s : NodeState) (submission : BlobSubmission) : Option NodeState :=
  if submission ∈ s.spawned then some { s with spawned := s.spawned.erase submission } else none

def environment (backend : Backend) : Environment NodeOp Ans NodeState NodeTask Local Input where
  answer _ := acceptingNode backend
  take
    | .main => takeMain
    | .application => fun _ s _ => if s.runtime then some s else none
    | .finalization => fun _ s _ => if s.runtime then some s else none
    | .batch => takeBatch
    | .headers => fun _ s _ => some s
    | .tracking => fun _ => takeTracking

variable {s s' : NodeState}

theorem accept_of_takeMain {state : MainState} {x : MainInput}
    (h : takeMain state s x = some s') : accept .main state s x s' := by
  unfold takeMain at h
  split at h
  · rename_i confirmation
    obtain ⟨hhead, ⟨⟩⟩ := Option.ite_none_right_eq_some.mp h
    exact ⟨rfl, _, (List.cons_head?_tail hhead).symm, rfl⟩
  · cases h
    exact ⟨rfl, rfl⟩
  · cases h

theorem accept_of_takeBatch {loop : BatchLoop} {event : BatchEvent}
    (h : takeBatch loop s event = some s') : accept .batch loop s event s' := by
  unfold takeBatch at h
  split at h
  · obtain ⟨⟨htask, hexited⟩, ⟨⟩⟩ := Option.ite_none_right_eq_some.mp h
    exact ⟨htask, hexited, rfl⟩
  · obtain ⟨⟨htask, hexited, hempty⟩, ⟨⟩⟩ := Option.ite_none_right_eq_some.mp h
    exact ⟨htask, hexited, hempty, rfl⟩
  · obtain ⟨⟨htask, hexited, hhead⟩, ⟨⟩⟩ := Option.ite_none_right_eq_some.mp h
    exact ⟨htask, hexited, _, (List.cons_head?_tail hhead).symm, rfl⟩

theorem environment_sound (backend : Backend) : (environment backend).Sound (system node) where
  answer _ := acceptingNode_sound backend
  take t l s x s' h := by
    cases t with
    | main => exact accept_of_takeMain h
    | application =>
        obtain ⟨hruntime, ⟨⟩⟩ := Option.ite_none_right_eq_some.mp h
        exact ⟨hruntime, rfl⟩
    | finalization =>
        obtain ⟨hruntime, ⟨⟩⟩ := Option.ite_none_right_eq_some.mp h
        exact ⟨hruntime, rfl⟩
    | batch => exact accept_of_takeBatch h
    | headers =>
        cases h
        rfl
    | tracking =>
        obtain ⟨hspawned, ⟨⟩⟩ := Option.ite_none_right_eq_some.mp h
        exact ⟨hspawned, rfl⟩

end Environment

end Rkb.Node.System
