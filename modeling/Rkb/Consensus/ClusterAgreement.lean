import Rkb.Library.Sha256
import Rkb.Consensus.ClusterSafety
import Rkb.Consensus.OwnProposals

namespace Rkb.Consensus.ClusterAgreement

open Rkb.Library.Broadcast
open Rkb.Library.Bytes
open Rkb.Library.Runs
open Rkb.Library.Tasks
open Rkb.Types.Wire
open Rkb.Execution.Payload
open Rkb.Consensus.Messages
open Rkb.Consensus.Actor
open Rkb.Consensus.ActorSteps
open Rkb.Consensus.ActorRuns
open Rkb.Consensus.Relay
open Rkb.Consensus.Cluster
open Rkb.Consensus.ClusterSafety
open Rkb.Node.Effects

variable {PublicKey : Type} {params : ClusterParams PublicKey}

section Agreement

variable {s : ClusterState PublicKey}

def UniqueDigests (params : ClusterParams PublicKey) (s : ClusterState PublicKey) : Prop :=
  ∀ p q, Origin params s p → Origin params s q → p.digest = q.digest → p = q

def OneBlockPerHeight (params : ClusterParams PublicKey) (s : ClusterState PublicKey) : Prop :=
  ∀ n m p q, Origin params s p → Origin params s q → p.digest ∈ (s.validator n).reported →
    q.digest ∈ (s.validator m).reported → p.block.height = q.block.height → p.digest = q.digest

theorem isPrefix_of_getElem? {α : Type} {as bs : List α} (hle : as.length ≤ bs.length)
    (h : ∀ (k : Nat) (a b : α), as[k]? = some a → bs[k]? = some b → a = b) : as <+: bs := by
  rw [List.prefix_iff_getElem?]
  intro k hk
  have hbs : bs[k]? = some bs[k] := List.getElem?_eq_getElem (hk.trans_le hle)
  rw [hbs]
  exact congrArg some (h k _ _ (List.getElem?_eq_getElem hk) hbs).symm

/-- Two validators agree on every block that both have finalized. -/
theorem isPrefix_of_uniqueDigests (htraced : Traced params s)
    (hunique : UniqueDigests params s) (hheight : OneBlockPerHeight params s)
    (n m : PublicKey) :
    (s.validator n).finalized <+: (s.validator m).finalized ∨
      (s.validator m).finalized <+: (s.validator n).finalized := by
  have hsame : ∀ n m (k : Nat) a b, (s.validator n).finalized[k]? = some a →
      (s.validator m).finalized[k]? = some b → a = b := by
    intro n m k a b ha hb
    obtain ⟨d, hd, p, hp⟩ := htraced.finalized n a (List.mem_of_getElem? ha)
    obtain ⟨e, he, q, hq⟩ := htraced.finalized m b (List.mem_of_getElem? hb)
    have hblock : a.height = b.height :=
      (htraced.heights n k a ha).trans (htraced.heights m k b hb).symm
    have hdigest := hheight n m _ _ hp hq hd he hblock
    exact congrArg ProposedBlock.block (hunique _ _ hp hq hdigest)
  rcases Nat.le_total (s.validator n).finalized.length
    (s.validator m).finalized.length with hle | hle
  · exact .inl (isPrefix_of_getElem? hle (hsame n m))
  · exact .inr (isPrefix_of_getElem? hle (hsame m n))

/-- Where only proposals travel, the digest determines the block as far as SHA-256
and reth's block hash do. -/
theorem uniqueDigests_of_honest (htraced : Traced params s)
    (hhonest : ∀ packet ∈ s.wire, packet.sender ∉ params.faulty)
    (hsha : ∀ n m, ∀ p ∈ proposals s n, ∀ q ∈ proposals s m,
      computeDigest params.sha256 p.payload.blockHash =
        computeDigest params.sha256 q.payload.blockHash →
      p.payload.blockHash = q.payload.blockHash)
    (hreth : ∀ n m, ∀ p ∈ proposals s n, ∀ q ∈ proposals s m,
      p.payload.blockHash = q.payload.blockHash → p.payload = q.payload) :
    UniqueDigests params s := by
  have hproposed : ∀ p, Origin params s p → ∃ n, p ∈ proposals s n := by
    rintro p (hp | ⟨packet, hpacket, hfaulty, -⟩)
    · exact hp
    · exact absurd hfaulty (hhonest packet hpacket)
  intro p q hp hq hdigest
  obtain ⟨n, hn⟩ := hproposed p hp
  obtain ⟨m, hm⟩ := hproposed q hq
  have hpayload := hreth n m p hn q hm
  have hhash := hsha n m p hn q hm
  obtain ⟨x, rfl⟩ := htraced.proposals n p hn
  obtain ⟨y, rfl⟩ := htraced.proposals m q hm
  exact congrArg (proposedBlock params.sha256) (hpayload (hhash hdigest))

end Agreement

section Runs

variable [DecidableEq PublicKey] {ts : List (ClusterTransition PublicKey)}
  {c : ClusterConfig PublicKey}

theorem safeConfig_initial : SafeConfig (system params) (Traced params) Rely Guarantee
    (fun _ _ _ _ => True) (Good params) (initial params) := by
  refine ⟨⟨?_, ?_, ?_, ?_, ?_⟩, ?_⟩
  · exact fun _ _ h => absurd h List.not_mem_nil
  · exact fun _ h => absurd h List.not_mem_nil
  · exact fun _ _ h => absurd h List.not_mem_nil
  · exact fun _ _ h => absurd h List.not_mem_nil
  · exact fun _ _ _ h => by cases h
  · intro t
    cases t with
    | application n => exact ⟨pairs_new _, rfl⟩
    | _ => trivial

theorem safeConfig_of_run (hrun : Run (Step (system params)) (initial params) ts c) :
    SafeConfig (system params) (Traced params) Rely Guarantee (fun _ _ _ _ => True)
      (Good params) c :=
  (relyGuarantee.run hrun safeConfig_initial).1

theorem traced_of_run (hrun : Run (Step (system params)) (initial params) ts c) :
    Traced params c.shared :=
  (safeConfig_of_run hrun).1

/-- No validator invents a block: what waits at an idle actor and what it has
finalized was proposed by some validator's actor, under the digest of its own
payload, unless a faulty validator sent it. -/
theorem origin_of_run (hrun : Run (Step (system params)) (initial params) ts c) :
    (∀ n app, c.task (.application n) = .pure app →
      ∀ digest block, app.pendingBlocks.lookup digest = some block →
        ∃ payload, app.pendingPayloads.lookup digest = some payload ∧
          Origin params c.shared ⟨digest, block, payload⟩) ∧
      (∀ n, ∀ block ∈ (c.shared.validator n).finalized,
        ∃ digest ∈ (c.shared.validator n).reported, ∃ payload,
          Origin params c.shared ⟨digest, block, payload⟩) ∧
      ∀ n, ∀ proposed ∈ proposals c.shared n,
        ∃ payload, proposed = proposedBlock params.sha256 payload := by
  have htraced := traced_of_run hrun
  refine ⟨?_, htraced.finalized, htraced.proposals⟩
  intro n app hidle
  have hgood := (safeConfig_of_run hrun).2 (.application n)
  rw [hidle] at hgood
  exact GoodActor.pending hgood

/-- Agreement. Whatever the relay, the mailboxes and reth do, the finalized chain of
one validator is a prefix of another's, if nothing but proposals is relayed, the block
hash that reth computes determines the block, SHA-256 does not collide on these hashes,
and the engines finalize at most one block of each height. -/
theorem finalized_agree (hrun : Run (Step (system params)) (initial params) ts c)
    (hhonest : ∀ packet ∈ c.shared.wire, packet.sender ∉ params.faulty)
    (hsha : ∀ n m, ∀ p ∈ proposals c.shared n, ∀ q ∈ proposals c.shared m,
      computeDigest params.sha256 p.payload.blockHash =
        computeDigest params.sha256 q.payload.blockHash →
      p.payload.blockHash = q.payload.blockHash)
    (hreth : ∀ n m, ∀ p ∈ proposals c.shared n, ∀ q ∈ proposals c.shared m,
      p.payload.blockHash = q.payload.blockHash → p.payload = q.payload)
    (hheight : OneBlockPerHeight params c.shared) (n m : PublicKey) :
    (c.shared.validator n).finalized <+: (c.shared.validator m).finalized ∨
      (c.shared.validator m).finalized <+: (c.shared.validator n).finalized := by
  have htraced := traced_of_run hrun
  exact isPrefix_of_uniqueDigests htraced (uniqueDigests_of_honest htraced hhonest hsha hreth)
    hheight n m

end Runs

section Example

def twoValidators : ClusterParams Bool where
  sha256 := Library.Sha256.sha256
  alloy := AlloySerde.binary
  mailboxSize := 1024
  retained := 128
  config n :=
    { publicKey := n
      validators := [true, false]
      ourAddress := FixedBytes.zero
      initialHash := FixedBytes.zero
      blockTiming := .vanilla }
  faulty := ∅

def clusterAnswer (payload : BuiltPayload) (t : ClusterTask Bool) (o : NodeOp)
    (s : ClusterState Bool) : Option (Ans o × ClusterState Bool) :=
  match t, o with
  | .application n, .relayBlock proposed =>
      some (((), s.setRelay n ((s.validator n).blockRelay.send proposed)) :
        Ans (.relayBlock proposed) × ClusterState Bool)
  | .application n, .broadcastBlock block =>
      some (((), s.addFinalized n block) : Ans (.broadcastBlock block) × ClusterState Bool)
  | _, o => (OwnProposals.buildingEnv payload o ()).map fun r => (r.1, s)

theorem clusterAnswer_sound (payload : BuiltPayload) (t : ClusterTask Bool) (o : NodeOp)
    (s : ClusterState Bool) (ans : Ans o) (s' : ClusterState Bool)
    (h : clusterAnswer payload t o s = some (ans, s')) : clusterSem t o s ans s' := by
  unfold clusterAnswer at h
  split at h
  · cases h
    rfl
  · cases h
    rfl
  · rename_i hrelay hbroadcast
    obtain ⟨r, -, heq⟩ := Option.map_eq_some_iff.mp h
    cases heq
    cases t with
    | application n =>
        cases o
        case relayBlock proposed => exact (hrelay n proposed rfl rfl).elim
        case broadcastBlock block => exact (hbroadcast n block rfl rfl).elim
        all_goals rfl
    | engine n => rfl
    | relay n => rfl
    | network => rfl

def sendAll (n : Bool) (message : Option Message) (s : ClusterState Bool) : ClusterState Bool :=
  match message with
  | none => s
  | some message => s.setMailbox n ((s.validator n).mailbox ++ [message])

def takeMessage (n : Bool) (s : ClusterState Bool) (message : Message) :
    Option (ClusterState Bool) :=
  if (s.validator n).mailbox.head? = some message then
    some (s.setMailbox n (s.validator n).mailbox.tail)
  else none

def takeOwn (params : ClusterParams Bool) (n running : Bool) (s : ClusterState Bool)
    (result : Except RecvError ProposedBlock) : Option (ClusterState Bool) :=
  match result, (s.validator n).blockRelay.recv false with
  | .ok proposed, some (.ok received, blockRelay) =>
      if running = true ∧ received = proposed then
        some ((s.setRelay n blockRelay).addPacket ⟨n, (params.config n).participants,
          (proposedBlockCodec params.alloy).encode proposed⟩)
      else none
  | _, _ => none

def takePacket (params : ClusterParams Bool) (n running : Bool) (s : ClusterState Bool)
    (result : Except Unit (Bool × List UInt8)) : Option (ClusterState Bool) :=
  match result with
  | .ok (sender, message) =>
      if running = true ∧ ∃ packet ∈ s.wire, packet.sender = sender ∧ n ∈ packet.recipients ∧
          packet.message = message then
        some (sendAll n (handleP2pBlock params.alloy message) s)
      else none
  | .error () => none

/-- Every packet is sent, and every message finds room in its mailbox. -/
def clusterEnvironment (params : ClusterParams Bool) (payload : BuiltPayload) :
    Environment NodeOp Ans (ClusterState Bool) (ClusterTask Bool) Local Input where
  answer := clusterAnswer payload
  take
    | .application n => fun _ s message => takeMessage n s message
    | .engine n => fun _ s call => some (sendAll n (EngineCall.message call)
        (s.addReported n (EngineCall.finalized call).toList))
    | .relay n => fun running s input =>
        match (input : RelayInput Bool) with
        | .own result => takeOwn params n running s result
        | .p2p result => takePacket params n running s result
    | .network => fun _ _ _ => none

theorem trySendAny_sendAll (mailboxSize : Nat) (n : Bool) (message : Option Message)
    (s : ClusterState Bool) : TrySendAny mailboxSize n message s (sendAll n message s) := by
  cases message with
  | none => rfl
  | some message => exact .inl rfl

theorem clusterEnvironment_sound (params : ClusterParams Bool) (payload : BuiltPayload) :
    (clusterEnvironment params payload).Sound (system params) where
  answer := clusterAnswer_sound payload
  take t l s x s' h := by
    cases t with
    | application n =>
        obtain ⟨hhead, ⟨⟩⟩ := Option.ite_none_right_eq_some.mp h
        exact ⟨_, (List.cons_head?_tail hhead).symm, rfl⟩
    | engine n =>
        cases h
        exact trySendAny_sendAll _ _ _ _
    | relay n =>
        cases x with
        | own result =>
            simp only [clusterEnvironment, takeOwn] at h
            split at h
            · rename_i proposed received blockRelay hrecv
              obtain ⟨⟨hrunning, rfl⟩, ⟨⟩⟩ := Option.ite_none_right_eq_some.mp h
              exact ⟨hrunning, false, blockRelay, hrecv, .inr rfl⟩
            · cases h
        | p2p result =>
            simp only [clusterEnvironment, takePacket] at h
            split at h
            · rename_i sender message
              obtain ⟨⟨hrunning, hpacket⟩, ⟨⟩⟩ := Option.ite_none_right_eq_some.mp h
              refine ⟨hrunning, ?_, trySendAny_sendAll _ _ _ _⟩
              rintro _ _ ⟨rfl⟩
              exact hpacket
            · cases h
    | network => cases h

def relayedPayload : BuiltPayload :=
  emptyPayload 1 FixedBytes.zero (FixedBytes.repeatByte 1)

def relayedProposal : ProposedBlock := proposedBlock Library.Sha256.sha256 relayedPayload

def relayedMessage : Message :=
  .receiveBlock relayedProposal.digest relayedProposal.block relayedProposal.payload

def finalization : EngineCall := .report (.finalization relayedProposal.digest)

/-- The first validator proposes, its relay sends the block to the second one, and
both finalize it. -/
def relaySchedule : List (Move (Input : ClusterTask Bool → Type)) :=
  .start (.engine true) EngineCall.propose ::
    .start (.application true) Message.propose :: List.replicate 8 (.act (.application true)) ++
    .start (.relay true) (RelayInput.own (.ok relayedProposal)) ::
    .start (.relay false) (RelayInput.p2p
      (.ok (true, (proposedBlockCodec AlloySerde.binary).encode relayedProposal))) ::
    .start (.engine true) finalization :: .start (.engine false) finalization ::
    .start (.application false) relayedMessage :: .act (.application false) ::
    .start (.application false) (.finalize relayedProposal.digest : Message) ::
    List.replicate 5 (.act (.application false)) ++
    .start (.application true) (.finalize relayedProposal.digest : Message) ::
    List.replicate 5 (.act (.application true))

theorem exists_relayRun : ∃ ts c, Run (Step (system twoValidators)) (initial twoValidators) ts c ∧
    (∀ n, (c.shared.validator n).finalized = [relayedProposal.block]) ∧
      (∀ n, (c.shared.validator n).reported = [relayedProposal.digest]) ∧
      ∀ n, ∀ p ∈ proposals c.shared n, p = relayedProposal := by
  obtain ⟨ts, c, hrun, hcheck⟩ := exists_run_of_play
    (step_of_playMove (clusterEnvironment_sound twoValidators relayedPayload))
    (initial twoValidators) relaySchedule
    (fun _ c => decide ((∀ n, (c.shared.validator n).finalized = [relayedProposal.block]) ∧
      (∀ n, (c.shared.validator n).reported = [relayedProposal.digest]) ∧
      ∀ n, ∀ p ∈ proposals c.shared n, p = relayedProposal)) (by decide +kernel)
  exact ⟨ts, c, hrun, of_decide_eq_true hcheck⟩

theorem origin_of_run_relayed : ∃ ts c,
    Run (Step (system twoValidators)) (initial twoValidators) ts c ∧
      (c.shared.validator false).finalized = [relayedProposal.block] ∧
      ∃ digest ∈ (c.shared.validator false).reported, ∃ payload,
        Origin twoValidators c.shared ⟨digest, relayedProposal.block, payload⟩ := by
  obtain ⟨ts, c, hrun, hfinalized, -, -⟩ := exists_relayRun
  refine ⟨ts, c, hrun, hfinalized false, ?_⟩
  refine (origin_of_run hrun).2.1 false relayedProposal.block ?_
  rw [hfinalized]
  exact List.mem_singleton_self _

theorem finalized_agree_relayed : ∃ ts c,
    Run (Step (system twoValidators)) (initial twoValidators) ts c ∧
      (∀ n, (c.shared.validator n).finalized = [relayedProposal.block]) ∧
      ((c.shared.validator true).finalized <+: (c.shared.validator false).finalized ∨
        (c.shared.validator false).finalized <+: (c.shared.validator true).finalized) := by
  obtain ⟨ts, c, hrun, hfinalized, hreported, hproposals⟩ := exists_relayRun
  refine ⟨ts, c, hrun, hfinalized, finalized_agree hrun ?_ ?_ ?_ ?_ true false⟩
  · exact fun _ _ => Finset.notMem_empty _
  · intro n m p hp q hq _
    rw [hproposals n p hp, hproposals m q hq]
  · intro n m p hp q hq _
    rw [hproposals n p hp, hproposals m q hq]
  · intro n m p q _ _ hp hq _
    rw [hreported, List.mem_singleton] at hp hq
    rw [hp, hq]

end Example

end Rkb.Consensus.ClusterAgreement
