import Rkb.Library.Broadcast
import Rkb.Library.Histories
import Rkb.Consensus.ActorSteps
import Rkb.Consensus.Relay
import Rkb.Consensus.Runtime

/-!
The validators of a chain, joined by the block relay. Every validator runs an
application actor, the consensus engine in front of the actor's mailbox, and the
relay task. The engine asks for anything at any time. The network loses, repeats
and reorders packets, but a packet names its true sender.
-/

namespace Rkb.Consensus.Cluster

open Rkb.Library.Broadcast
open Rkb.Library.Program
open Rkb.Library.Tasks
open Rkb.Types.Blocks
open Rkb.Types.Wire
open Rkb.Consensus.Messages
open Rkb.Consensus.Actor
open Rkb.Consensus.Relay
open Rkb.Consensus.Runtime
open Rkb.Node.Effects

/-- What the engine reports. Of the votes and certificates only a finalization is
passed on, and only its payload. -/
inductive Activity
  | notarize
  | notarization
  | certification
  | nullify
  | nullification
  | finalize
  | finalization (payload : AppDigest)
  | conflictingNotarize
  | conflictingFinalize
  | nullifyFinalize
deriving DecidableEq

def handleActivity : Activity → Option Message
  | .finalization payload => some (.finalize payload)
  | _ => none

/-- The engine's calls of the mailbox as its automaton and relay, and of the reporter. -/
inductive EngineCall
  | genesis (epoch : UInt64)
  | propose
  | verify (payload : AppDigest)
  | broadcast (payload : AppDigest)
  | report (activity : Activity)
deriving DecidableEq

def EngineCall.message : EngineCall → Option Message
  | .genesis epoch => some (.genesis epoch)
  | .propose => some .propose
  | .verify payload => some (.verify payload)
  | .broadcast payload => some (.broadcast payload)
  | .report activity => handleActivity activity

def EngineCall.finalized : EngineCall → Option AppDigest
  | .report (.finalization payload) => some payload
  | _ => none

variable {PublicKey : Type}

structure Packet (PublicKey : Type) where
  sender : PublicKey
  recipients : Finset PublicKey
  message : List UInt8

variable (alloy : AlloySerde)

def broadcastProposedBlock (participants : Finset PublicKey) (proposed : ProposedBlock) :
    Option (Finset PublicKey × List UInt8) :=
  match serializeProposedBlock alloy proposed with
  | none => none
  | some encoded => some (participants, encoded)

/-- What is sent to whom, and whether the relay goes on. -/
def handleLocalBlock (participants : Finset PublicKey) :
    Except RecvError ProposedBlock → Option (Finset PublicKey × List UInt8) × Bool
  | .ok proposed => (broadcastProposedBlock alloy participants proposed, true)
  | .error (.lagged _) => (none, true)
  | .error .closed => (none, false)

/-- What is put into the mailbox, and whether the relay goes on. -/
def handleP2pResult : Except Unit (PublicKey × List UInt8) → Option Message × Bool
  | .ok (_, message) => (handleP2pBlock alloy message, true)
  | .error () => (none, false)

/-- What a validator's tasks share. `finalized` are all the blocks its actor sent to
the subscribers, `reported` all the digests its engine reported as finalized. -/
structure Validator where
  mailbox : List Message
  blockRelay : Channel ProposedBlock
  finalized : List Block
  reported : List AppDigest

def Validator.new (retained : Nat) : Validator where
  mailbox := []
  blockRelay := Channel.new retained
  finalized := []
  reported := []

/-- The validators, and every packet that was ever sent. -/
structure ClusterState (PublicKey : Type) where
  validator : PublicKey → Validator
  wire : List (Packet PublicKey)

/-- `faulty` are the validators that may send anything over the relay, and `retained` is
what tokio makes of the capacity of the relay's channel. -/
structure ClusterParams (PublicKey : Type) where
  sha256 : List UInt8 → AppDigest
  alloy : AlloySerde
  mailboxSize : Nat
  retained : Nat
  config : PublicKey → SimplexRuntimeConfig PublicKey
  faulty : Finset PublicKey

inductive ClusterTask (PublicKey : Type)
  | application (n : PublicKey)
  | engine (n : PublicKey)
  | relay (n : PublicKey)
  | network
deriving DecidableEq

/-- The relay's next input, from its own actor or from the network. -/
inductive RelayInput (PublicKey : Type)
  | own (result : Except RecvError ProposedBlock)
  | p2p (result : Except Unit (PublicKey × List UInt8))

/-- The relay remembers whether it still runs. -/
def Local : ClusterTask PublicKey → Type
  | .application _ => Application
  | .engine _ => Unit
  | .relay _ => Bool
  | .network => Unit

def Input : ClusterTask PublicKey → Type
  | .application _ => Message
  | .engine _ => EngineCall
  | .relay _ => RelayInput PublicKey
  | .network => Packet PublicKey

variable [DecidableEq PublicKey]

namespace ClusterState

def setValidator (s : ClusterState PublicKey) (n : PublicKey) (v : Validator) :
    ClusterState PublicKey :=
  { s with validator := Function.update s.validator n v }

def setMailbox (s : ClusterState PublicKey) (n : PublicKey) (mailbox : List Message) :
    ClusterState PublicKey :=
  s.setValidator n { s.validator n with mailbox := mailbox }

def setRelay (s : ClusterState PublicKey) (n : PublicKey) (blockRelay : Channel ProposedBlock) :
    ClusterState PublicKey :=
  s.setValidator n { s.validator n with blockRelay := blockRelay }

def addFinalized (s : ClusterState PublicKey) (n : PublicKey) (block : Block) :
    ClusterState PublicKey :=
  s.setValidator n { s.validator n with finalized := (s.validator n).finalized ++ [block] }

def addReported (s : ClusterState PublicKey) (n : PublicKey) (digests : List AppDigest) :
    ClusterState PublicKey :=
  s.setValidator n { s.validator n with reported := (s.validator n).reported ++ digests }

def addPacket (s : ClusterState PublicKey) (packet : Packet PublicKey) : ClusterState PublicKey :=
  { s with wire := s.wire ++ [packet] }

end ClusterState

/-- A message is put into a mailbox, or refused by a full one. -/
def TrySend (mailboxSize : Nat) (n : PublicKey) (message : Message)
    (s s' : ClusterState PublicKey) : Prop :=
  s' = s.setMailbox n ((s.validator n).mailbox ++ [message]) ∨
    mailboxSize ≤ (s.validator n).mailbox.length ∧ s' = s

def TrySendAny (mailboxSize : Nat) (n : PublicKey) :
    Option Message → ClusterState PublicKey → ClusterState PublicKey → Prop
  | none, s, s' => s' = s
  | some message, s, s' => TrySend mailboxSize n message s s'

/-- The network takes the packet, or the sender is over its rate or not connected. -/
def SendToRecipients (n : PublicKey) : Option (Finset PublicKey × List UInt8) →
    ClusterState PublicKey → ClusterState PublicKey → Prop
  | none, s, s' => s' = s
  | some (recipients, encoded), s, s' => s' = s ∨ s' = s.addPacket ⟨n, recipients, encoded⟩

variable (params : ClusterParams PublicKey)

/-- The effect of an actor's operations on the others; reth and the clock answer
anything. -/
def clusterSem : ClusterTask PublicKey → Sem NodeOp Ans (ClusterState PublicKey)
  | .application n, .relayBlock proposed, s, _, s' =>
      s' = s.setRelay n ((s.validator n).blockRelay.send proposed)
  | .application n, .broadcastBlock block, s, _, s' => s' = s.addFinalized n block
  | _, _, s, _, s' => s' = s

def accept : (t : ClusterTask PublicKey) → Local t → ClusterState PublicKey → Input t →
    ClusterState PublicKey → Prop
  | .application n, _, s, message, s' =>
      ∃ rest, (s.validator n).mailbox = message :: rest ∧ s' = s.setMailbox n rest
  | .engine n, _, s, call, s' =>
      TrySendAny params.mailboxSize n (EngineCall.message call)
        (s.addReported n (EngineCall.finalized call).toList) s'
  | .relay n, running, s, .own result, s' => running = true ∧
      ∃ closed blockRelay, (s.validator n).blockRelay.recv closed = some (result, blockRelay) ∧
        SendToRecipients n (handleLocalBlock params.alloy (params.config n).participants result).1
          (s.setRelay n blockRelay) s'
  | .relay n, running, s, .p2p result, s' => running = true ∧
      (∀ sender message, result = .ok (sender, message) →
        ∃ packet ∈ s.wire, packet.sender = sender ∧ n ∈ packet.recipients ∧
          packet.message = message) ∧
      TrySendAny params.mailboxSize n (handleP2pResult params.alloy result).1 s s'
  | .network, _, s, packet, s' => Packet.sender packet ∈ params.faulty ∧ s' = s.addPacket packet

def handler : (t : ClusterTask PublicKey) → Local t → Input t → NodeProg (Local t)
  | .application _, application, message =>
      Application.processMessage params.sha256 application message
  | .engine _, _, _ => Prog.pure ()
  | .relay n, _, .own result =>
      .pure (handleLocalBlock params.alloy (params.config n).participants result).2
  | .relay _, _, .p2p result => .pure (handleP2pResult params.alloy result).2
  | .network, _, _ => Prog.pure ()

def system : System NodeOp Ans (ClusterState PublicKey) (ClusterTask PublicKey) Local Input where
  sem := clusterSem
  accept := accept params
  handler := handler params

abbrev ClusterConfig (PublicKey : Type) : Type :=
  Config NodeOp Ans (ClusterState PublicKey) (Local : ClusterTask PublicKey → Type)

abbrev ClusterTransition (PublicKey : Type) : Type :=
  TaskTransition Ans (ClusterState PublicKey) (Local : ClusterTask PublicKey → Type) Input

def initial : ClusterConfig PublicKey where
  shared := { validator := fun _ => Validator.new params.retained, wire := [] }
  task
    | .application n => .pure (createApplication (params.config n))
    | .engine _ => Prog.pure ()
    | .relay _ => Prog.pure true
    | .network => Prog.pure ()

end Rkb.Consensus.Cluster
