import Rkb.Consensus.MessageOrder
import Rkb.Node.Transport
import Rkb.Sequencer.Sync

namespace Rkb.Sequencer.NetworkInput

open Rkb.Library.Program
open Rkb.Library.Bytes
open Rkb.Types.Blocks
open Rkb.Types.Wire
open Rkb.Execution.Forkchoice
open Rkb.Execution.Payload
open Rkb.Execution.Client
open Rkb.Celestia.Blobs
open Rkb.Celestia.Index
open Rkb.Consensus.Messages
open Rkb.Consensus.Actor
open Rkb.Consensus.ActorSteps
open Rkb.Consensus.ActorRuns
open Rkb.Consensus.DigestBinding
open Rkb.Consensus.MessageOrder
open Rkb.Consensus.Relay
open Rkb.Sequencer.Sync
open Rkb.Node.Effects
open Rkb.Node.Transport

/-- On any answers the program runs to a result; a panic has no answer. -/
def NeverPanics {α : Type} (p : NodeProg α) : Prop := p.Total anyAnswer () fun _ _ _ => True

theorem neverPanics_of_answered {α : Type} {p : NodeProg α} (h : p.Performs Answered) :
    NeverPanics p :=
  Prog.Ensures.total (fun _ _ _ _ => trivial) h

theorem NeverPanics.of_returns {α : Type} {C : Prop} {p : NodeProg α} (h : NeverPanics p)
    (hreturns : p.Returns fun _ => C) : C := by
  obtain ⟨tr, a, s', hexec⟩ := h.exists_exec
  exact hreturns.of_exec hexec

variable (sha256 : List UInt8 → AppDigest)

/-- The receipt of a proposed block does not panic, nor does a later finalization of it. -/
def HandledSafely (self : Application) (proposed : ProposedBlock) : Prop :=
  NeverPanics (self.processMessage sha256
      (.receiveBlock proposed.digest proposed.block proposed.payload)) ∧
    ∀ tr self₁ us self₂,
      ActorStep sha256 self
          (.receiveBlock proposed.digest proposed.block proposed.payload, tr) self₁ →
        ActorRun sha256 self₁ us self₂ →
          NeverPanics (self₂.processMessage sha256 (.finalize proposed.digest))

section Bloom

variable {payload : BuiltPayload} {block : Block}

theorem toExecutionPayload_ne_none (h : HasBloom payload) : payload.toExecutionPayload ≠ none :=
  Option.isSome_iff_ne_none.mp (toExecutionPayload_isSome.mpr h)

theorem returns_requestNewPayload (request : Option ExecutionPayloadV3) :
    (requestNewPayload request).Returns fun _ => request.isSome = true := by
  cases request with
  | none => exact fun ans => ans.elim
  | some p => exact (Prog.returns_true _).mono fun _ _ => rfl

theorem returns_importPayload : (importPayload payload).Returns fun _ => HasBloom payload :=
  ((returns_requestNewPayload payload.toExecutionPayload).mono fun _ h =>
    toExecutionPayload_isSome.mp h).of_first _

theorem returns_executeBlock :
    (executeBlock block).Returns fun _ => block.logsBloom.toList.length = 256 :=
  ((returns_requestNewPayload (buildPayload block)).mono fun _ h =>
    buildPayload_isSome.mp h).of_first _

theorem hasBloom_toBuiltPayload {p : ExecutionPayloadV3} (h : toBuiltPayload p = some payload) :
    HasBloom payload := by
  simp only [toBuiltPayload] at h
  split at h
  · obtain rfl := Option.some.inj h
    exact p.payloadInner.payloadInner.logsBloom.length_eq
  · cases h

theorem returns_getPayload (payloadId : PayloadId) :
    (getPayload payloadId).Returns fun r => ∀ built, r = .ok built → HasBloom built := by
  refine (Prog.returns_true _).bind fun response _ => ?_
  split
  · rintro _ ⟨⟩
  · split
    · exact fun ans => ans.elim
    · rename_i built hbuilt
      rintro _ ⟨rfl⟩
      exact hasBloom_toBuiltPayload hbuilt

end Bloom

section Actor

variable {sha256} {self self' : Application} {payload : BuiltPayload}

def RelaysBloom (o : NodeOp) : Prop := ∀ proposed, relayOf o = some proposed →
  HasBloom proposed.payload

theorem relaysBloom_of_internal {o : NodeOp} (h : Internal o) : RelaysBloom o := by
  intro proposed hproposed
  rw [h.2] at hproposed
  cases hproposed

theorem returns_buildViaReth (timestamp : UInt64) :
    (self.buildViaReth timestamp).Returns fun r => ∀ built, r = some built → HasBloom built := by
  refine (Prog.returns_true _).bind fun response _ => ?_
  split
  · rintro _ ⟨⟩
  · refine (returns_getPayload _).bind fun result hresult => ?_
    split
    · rintro _ ⟨rfl⟩
      exact hresult _ rfl
    · rintro _ ⟨⟩

theorem relaysBloom_propose : (self.propose sha256).Performs RelaysBloom := by
  refine performs_propose sha256 ?_ ?_ ?_ ?_ returns_buildViaReth ?_
  · exact relaysBloom_of_internal ⟨rfl, rfl⟩
  · exact relaysBloom_of_internal ⟨rfl, rfl⟩
  · exact relaysBloom_of_internal ⟨rfl, rfl⟩
  · exact fun timestamp => (internal_buildViaReth timestamp).mono fun _ => relaysBloom_of_internal
  · rintro built hbuilt proposed ⟨rfl⟩
    exact hbuilt

theorem hasBloom_of_relayed {l : ActorLabel} (hstep : ActorStep sha256 self l self')
    {proposed : ProposedBlock} (hmem : proposed ∈ relayed l.2) : HasBloom proposed.payload := by
  obtain ⟨message, tr⟩ := l
  obtain ⟨rfl, -⟩ := proposed_of_outcome hstep.outcome hmem
  obtain ⟨e, he, hrelay⟩ := List.mem_filterMap.mp hmem
  have hhandle : (self.handlePropose sha256).Performs RelaysBloom := by
    refine relaysBloom_propose.bind fun r => ?_
    exact (Prog.performs_perform (relaysBloom_of_internal ⟨rfl, rfl⟩)).bind fun _ =>
      Prog.performs_pure _
  exact hhandle.of_mem hstep he proposed hrelay

theorem hasBloom_of_received {digest : AppDigest} {block : Block} {tr : List NodeEvent}
    (hstep : ActorStep sha256 self (.receiveBlock digest block payload, tr) self')
    (hpending : digest ∉ self.pendingBlocks) : HasBloom payload := by
  have hreturns : (self.handleReceiveBlock digest block payload).Returns
      fun _ => HasBloom payload := by
    unfold Application.handleReceiveBlock
    rw [if_neg hpending]
    exact returns_importPayload.of_first _
  exact hreturns.of_exec hstep

abbrev Blooms (self : Application) : Prop := Pairs (fun _ _ payload => HasBloom payload) self

theorem blooms_of_run {config : ApplicationConfig} {ts : List ActorTransition}
    (hrun : ActorRun sha256 (Application.new config) ts self) : Blooms self := by
  refine (hrun.invariant Blooms (fun _ => True) ?_ (fun _ _ => trivial) (pairs_new config)).1
  rintro ⟨pre, ⟨message, tr⟩, post⟩ hstep - hpre
  refine hpre.outcome hstep.outcome ?_ fun proposed hmem => hasBloom_of_relayed hstep hmem
  rintro d b p rfl hpending
  exact hasBloom_of_received hstep hpending

theorem neverPanics_finalize (hself : Blooms self) (digest : AppDigest) :
    NeverPanics (self.processMessage sha256 (.finalize digest)) := by
  apply neverPanics_of_answered
  cases hlookup : self.pendingBlocks.lookup digest with
  | none =>
      simp only [Application.processMessage, Application.finalize, hlookup]
      exact Prog.performs_pure _
  | some block =>
      obtain ⟨payload, hpayload, hbloom⟩ := hself digest block hlookup
      exact answered_finalize hpayload (toExecutionPayload_ne_none hbloom)

variable (sha256) in
theorem neverPanics_receiveBlock_iff (digest : AppDigest) (block : Block) :
    NeverPanics (self.processMessage sha256 (.receiveBlock digest block payload)) ↔
      digest ∈ self.pendingBlocks ∨ HasBloom payload := by
  by_cases hpending : digest ∈ self.pendingBlocks
  · refine iff_of_true ?_ (.inl hpending)
    simp only [Application.processMessage, Application.handleReceiveBlock, if_pos hpending]
    exact trivial
  · constructor
    · intro h
      obtain ⟨tr, self', s', hstep⟩ := h.exists_exec
      exact .inr (hasBloom_of_received hstep hpending)
    · rintro (hmem | hbloom)
      · exact absurd hmem hpending
      · apply neverPanics_of_answered
        exact answered_receiveBlock digest block (toExecutionPayload_ne_none hbloom)

end Actor

section Sync

variable {json : IndexJson} {index : BlockIndex} {block : Block}

theorem neverPanics_syncSingleBlock_iff (celestiaHeight : UInt64) (expectedParent : B256) :
    NeverPanics (syncSingleBlock json index block celestiaHeight expectedParent) ↔
      block.logsBloom.toList.length = 256 := by
  constructor
  · intro h
    apply h.of_returns
    exact (Prog.returns_true _).bind fun _ _ => (returns_executeBlock.of_first _).of_first _
  · intro hbloom
    have hpayload := buildPayload_isSome.mpr hbloom
    apply neverPanics_of_answered
    apply performs_syncSingleBlock
    · exact fun _ => ⟨()⟩
    · apply performs_executeSyncBlock
      · apply performs_executeBlock
        · intro hnone
          rw [hnone] at hpayload
          cases hpayload
        · exact fun _ _ => ⟨(RpcAnswer.clientError "" : RpcAnswer PayloadStatus)⟩
      · exact ⟨ForkchoiceState.genesis FixedBytes.zero⟩
      · intro current
        apply performs_updateForkchoice
        · exact ⟨(RpcAnswer.clientError "" : RpcAnswer ForkchoiceUpdated)⟩
        · exact ⟨()⟩
      · exact fun _ => ⟨()⟩
    · exact ⟨()⟩
    · exact fun _ => ⟨(.ok () : Except IndexAppendError Unit)⟩

end Sync

section Decoded

variable (alloy : AlloySerde) (celestia : CelestiaClient) (json : IndexJson)

/-- What the decoders accept is handled without a panic exactly when the bloom filter
has 256 bytes, or when the actor holds a block of this digest already. -/
theorem handledSafely_iff :
    (∀ config ts self message proposed,
      ActorRun sha256 (Application.new config) ts self →
        deserializeProposedBlock alloy message = some proposed →
          (HandledSafely sha256 self proposed ↔
            proposed.digest ∈ self.pendingBlocks ∨ HasBloom proposed.payload)) ∧
      ∀ data block, celestia.decodeBlock data = some block →
        ∀ index celestiaHeight expectedParent,
          (NeverPanics (syncSingleBlock json index block celestiaHeight expectedParent) ↔
            block.logsBloom.toList.length = 256) := by
  constructor
  · intro config ts self message proposed hrun _
    refine Iff.trans ?_ (neverPanics_receiveBlock_iff sha256 proposed.digest proposed.block)
    constructor
    · exact And.left
    · intro hreceive
      refine ⟨hreceive, ?_⟩
      intro tr self₁ us self₂ hstep hlater
      exact neverPanics_finalize (blooms_of_run (hrun.append (.cons hstep hlater))) _
  · intro data block _ index celestiaHeight expectedParent
    exact neverPanics_syncSingleBlock_iff celestiaHeight expectedParent

theorem decodeBlock_encoded (block : Block) :
    celestia.decodeBlock ((blockCodec celestia.alloy).encode block) = some block := by
  have hdecoded := decodeBlock_encode celestia block []
  rwa [List.append_nil] at hdecoded

theorem deserialize_encoded (proposed : ProposedBlock) :
    deserializeProposedBlock alloy ((proposedBlockCodec alloy).encode proposed) =
      some proposed := by
  have hdecoded := deserialize_serialize alloy proposed []
  rwa [List.append_nil] at hdecoded

theorem handledSafely_iff_first :
    HandledSafely Library.Sha256.sha256 (Application.new genesisConfig) firstProposal ∧
      NeverPanics (syncSingleBlock IndexJson.compact BlockIndex.new firstProposal.block 1
        FixedBytes.zero) := by
  have hbloom : firstPayload.logsBloom.toList.length = 256 := List.length_replicate
  obtain ⟨hactor, hsync⟩ := handledSafely_iff Library.Sha256.sha256 AlloySerde.binary digestClient
    IndexJson.compact
  refine ⟨?_, ?_⟩
  · exact (hactor genesisConfig [] _ _ firstProposal (.nil _)
      (deserialize_encoded _ firstProposal)).mpr (.inr hbloom)
  · have hblock : firstProposal.block.logsBloom = firstPayload.logsBloom := rfl
    have hdecoded := decodeBlock_encoded digestClient firstProposal.block
    rw [hsync _ _ hdecoded, hblock]
    exact hbloom

def bloomlessPayload : BuiltPayload := { firstPayload with logsBloom := Vec.empty }

def bloomlessProposal : ProposedBlock := proposedBlock Library.Sha256.sha256 bloomlessPayload

theorem bloomless_panics :
    (∃ message, deserializeProposedBlock AlloySerde.binary message = some bloomlessProposal ∧
      ¬ HandledSafely Library.Sha256.sha256 (Application.new genesisConfig) bloomlessProposal) ∧
      ∃ data, digestClient.decodeBlock data = some bloomlessProposal.block ∧
        ¬ NeverPanics (syncSingleBlock IndexJson.compact BlockIndex.new bloomlessProposal.block 1
          FixedBytes.zero) := by
  have hbloom : ¬ bloomlessPayload.logsBloom.toList.length = 256 := by
    show ¬ 0 = 256
    omega
  constructor
  · refine ⟨_, deserialize_encoded _ bloomlessProposal, ?_⟩
    rintro ⟨hreceive, -⟩
    rcases (neverPanics_receiveBlock_iff _ _ _).mp hreceive with hpending | hhas
    · exact Finmap.notMem_empty hpending
    · exact hbloom hhas
  · refine ⟨_, decodeBlock_encoded digestClient _, ?_⟩
    intro hsync
    exact hbloom ((neverPanics_syncSingleBlock_iff _ _).mp hsync)

end Decoded

end Rkb.Sequencer.NetworkInput
