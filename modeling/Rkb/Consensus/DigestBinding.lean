import Rkb.Library.Sha256
import Rkb.Consensus.ActorRuns
import Rkb.Consensus.Relay

namespace Rkb.Consensus.DigestBinding

open Rkb.Library.Bytes
open Rkb.Library.Maps
open Rkb.Types.Wire
open Rkb.Execution.Payload
open Rkb.Consensus.Messages
open Rkb.Consensus.Actor
open Rkb.Consensus.ActorSteps
open Rkb.Consensus.ActorRuns
open Rkb.Consensus.Relay

variable (sha256 : List UInt8 → AppDigest)

/-- Every pending digest is the digest of its block, which is the block of the
payload stored beside it. -/
structure Bound (app : Application) : Prop where
  digest : ∀ d b, app.pendingBlocks.lookup d = some b → d = computeDigest sha256 b.blockHash
  payload : ∀ d b, app.pendingBlocks.lookup d = some b →
    ∃ p, app.pendingPayloads.lookup d = some p ∧ b = buildBlockFromPayload p

/-- The block that `finalize` broadcasts is the one consensus agreed on, and the
payload and head it sends to reth are that block's. -/
def FinalizesAgreed (t : ActorTransition) : Prop :=
  ∀ d, t.label.1 = .finalize d → ∀ b ∈ broadcasts t.label.2,
    d = computeDigest sha256 b.blockHash ∧
      ∃ p, b = buildBlockFromPayload p ∧ ∀ e ∈ t.label.2, SendsOnly (some p) e.1

/-- A block that is stored comes with its own digest and payload. -/
def HonestReceive (t : ActorTransition) : Prop :=
  ∀ d b p, t.label.1 = .receiveBlock d b p → d ∉ t.pre.pendingBlocks →
    d = computeDigest sha256 b.blockHash ∧ b = buildBlockFromPayload p

variable {sha256} {self self' : Application} {ts : List ActorTransition}

theorem bound_iff_pairs : Bound sha256 self ↔
    Pairs (fun d b p => d = computeDigest sha256 b.blockHash ∧ b = buildBlockFromPayload p)
      self := by
  constructor
  · intro h d b hlookup
    obtain ⟨p, hp, hblock⟩ := h.payload d b hlookup
    exact ⟨p, hp, h.digest d b hlookup, hblock⟩
  · intro h
    refine ⟨?_, ?_⟩
    · intro d b hlookup
      obtain ⟨p, -, hdigest, -⟩ := h d b hlookup
      exact hdigest
    · intro d b hlookup
      obtain ⟨p, hp, -, hblock⟩ := h d b hlookup
      exact ⟨p, hp, hblock⟩

theorem bound_new (config : ApplicationConfig) : Bound sha256 (Application.new config) :=
  bound_iff_pairs.mpr (pairs_new config)

/-- The step lemma: the binding is kept by every step that is not a dishonest
receipt. -/
theorem bound_step {t : ActorTransition} (hstep : ActorStep sha256 t.pre t.label t.post)
    (hhonest : HonestReceive sha256 t) (hpre : Bound sha256 t.pre) : Bound sha256 t.post := by
  rw [bound_iff_pairs] at hpre ⊢
  refine hpre.outcome hstep.outcome hhonest ?_
  intro proposed hmem
  obtain ⟨-, payload, rfl⟩ := proposed_of_outcome hstep.outcome hmem
  exact ⟨rfl, rfl⟩

theorem finalizesAgreed_of_bound {t : ActorTransition}
    (hstep : ActorStep sha256 t.pre t.label t.post) (hpre : Bound sha256 t.pre) :
    FinalizesAgreed sha256 t := by
  intro d hmessage b hb
  obtain ⟨pre, ⟨message, tr⟩, post⟩ := t
  have houtcome := hstep.outcome
  simp only at houtcome hpre hmessage hb ⊢
  subst hmessage
  cases houtcome with
  | unknown _ => simp [broadcasts] at hb
  | wrongHeight _ _ => simp [broadcasts] at hb
  | @finalized _ block _ hlookup _ hbroadcast _ hsends =>
      rw [hbroadcast, List.mem_singleton] at hb
      subst hb
      obtain ⟨p, hp, hblock⟩ := hpre.payload d b hlookup
      rw [hp] at hsends
      exact ⟨hpre.digest d b hlookup, p, hblock, hsends⟩

theorem honestReceive_of_bound {t : ActorTransition}
    (hstep : ActorStep sha256 t.pre t.label t.post) (hpost : Bound sha256 t.post) :
    HonestReceive sha256 t := by
  intro d b p hmessage hpending
  obtain ⟨pre, ⟨message, tr⟩, post⟩ := t
  have houtcome := hstep.outcome
  simp only at houtcome hpost hmessage hpending ⊢
  subst hmessage
  cases houtcome with
  | alreadyPending hmem => exact absurd hmem hpending
  | received v _ _ =>
      have hlookup : (stored pre d b p v).pendingBlocks.lookup d = some b := by
        rw [lookup_stored, if_pos rfl]
      obtain ⟨q, hq, hblock⟩ := hpost.payload d b hlookup
      have hqp : q = p := by
        simp only [stored, lookup_insert, if_true, Option.some.injEq] at hq
        exact hq.symm
      exact ⟨hpost.digest d b hlookup, hqp ▸ hblock⟩

theorem bound_of_run {self : Application} (hrun : ActorRun sha256 self ts self')
    (hhonest : ∀ t ∈ ts, HonestReceive sha256 t) (hself : Bound sha256 self) :
    Bound sha256 self' ∧ ∀ t ∈ ts, Bound sha256 t.pre ∧ Bound sha256 t.post :=
  hrun.invariant (Bound sha256) (HonestReceive sha256)
    (fun _ hstep hcond hpre => bound_step hstep hcond hpre) hhonest hself

/-- The digests of a run stay bound exactly when every block it stored came with
its own digest and payload. -/
theorem bound_iff_honestReceive {config : ApplicationConfig}
    (hrun : ActorRun sha256 (Application.new config) ts self') :
    (Bound sha256 self' ∧
      ∀ t ∈ ts, Bound sha256 t.pre ∧ Bound sha256 t.post ∧ FinalizesAgreed sha256 t) ↔
      ∀ t ∈ ts, HonestReceive sha256 t := by
  constructor
  · rintro ⟨-, hall⟩ t ht
    exact honestReceive_of_bound (hrun.step_of_mem ht) (hall t ht).2.1
  · intro hhonest
    obtain ⟨hlast, hall⟩ := bound_of_run hrun hhonest (bound_new config)
    refine ⟨hlast, ?_⟩
    intro t ht
    obtain ⟨hpre, hpost⟩ := hall t ht
    exact ⟨hpre, hpost, finalizesAgreed_of_bound (hrun.step_of_mem ht) hpre⟩

section Examples

def firstPayload : BuiltPayload :=
  emptyPayload 1 FixedBytes.zero (FixedBytes.repeatByte 1)

def firstReceive : Message :=
  .receiveBlock (computeDigest Library.Sha256.sha256 firstPayload.blockHash)
    (buildBlockFromPayload firstPayload) firstPayload

theorem bound_iff_honestReceive_firstBlock :
    ∃ (ts : List ActorTransition) (self' : Application),
      ts.map (fun t => t.label.1) = [firstReceive] ∧
      ((Bound Library.Sha256.sha256 self' ∧ ∀ t ∈ ts, Bound Library.Sha256.sha256 t.pre ∧
          Bound Library.Sha256.sha256 t.post ∧ FinalizesAgreed Library.Sha256.sha256 t) ↔
        ∀ t ∈ ts, HonestReceive Library.Sha256.sha256 t) := by
  obtain ⟨ts, self', hrun, hmessages, -⟩ :=
    exists_run_of_replay Library.Sha256.sha256 acceptingEnv (Application.new genesisConfig)
      [firstReceive] (fun _ _ => true) (by decide +kernel)
  exact ⟨ts, self', hmessages, bound_iff_honestReceive hrun⟩

/-- A relayed block whose sender wrote the zero digest next to it. -/
def forgedProposal : ProposedBlock where
  digest := FixedBytes.zero
  block := buildBlockFromPayload firstPayload
  payload := firstPayload

def forgedReceive : Message :=
  .receiveBlock forgedProposal.digest forgedProposal.block forgedProposal.payload

theorem forgedRelay_not_bound :
    ∃ (bytes : List UInt8) (message : Message) (ts : List ActorTransition) (self' : Application),
      handleP2pBlock AlloySerde.binary bytes = some message ∧
      ActorRun Library.Sha256.sha256 (Application.new genesisConfig) ts self' ∧
      ts.map (fun t => t.label.1) = [message] ∧ ¬ Bound Library.Sha256.sha256 self' := by
  obtain ⟨ts, self', hrun, hmessages, hlookup⟩ :=
    exists_run_of_replay Library.Sha256.sha256 acceptingEnv (Application.new genesisConfig)
      [forgedReceive]
      (fun _ self' => decide
        (self'.pendingBlocks.lookup forgedProposal.digest = some forgedProposal.block))
      (by decide +kernel)
  refine ⟨(proposedBlockCodec AlloySerde.binary).encode forgedProposal, _, ts, self', ?_, hrun,
    hmessages, ?_⟩
  · have hdecode := deserialize_serialize AlloySerde.binary forgedProposal []
    rw [List.append_nil] at hdecode
    rw [handleP2pBlock, hdecode]
    rfl
  · intro hbound
    have hforged : forgedProposal.digest ≠
        computeDigest Library.Sha256.sha256 forgedProposal.block.blockHash := by
      decide +kernel
    exact hforged (hbound.digest _ _ (of_decide_eq_true hlookup))

end Examples

end Rkb.Consensus.DigestBinding
