import Rkb.Consensus.FinalizedChain
import Rkb.Consensus.Relay

namespace Rkb.Node.Transport

open Rkb.Library.Bytes
open Rkb.Library.Program
open Rkb.Types.Blocks
open Rkb.Types.Wire
open Rkb.Execution.Errors
open Rkb.Execution.Payload
open Rkb.Execution.Client
open Rkb.Celestia.Blobs
open Rkb.Consensus.Messages
open Rkb.Consensus.Actor
open Rkb.Consensus.DigestBinding
open Rkb.Consensus.FinalizedChain
open Rkb.Consensus.Relay
open Rkb.Node.Effects

section RoundTrip

theorem decodeBlock_encode (celestia : CelestiaClient) (block : Block) (t : List UInt8) :
    celestia.decodeBlock ((blockCodec celestia.alloy).encode block ++ t) = some block := by
  rw [CelestiaClient.decodeBlock, (blockCodec celestia.alloy).decode_encode]
  rfl

/-- Blocks and proposed blocks read back, whatever follows them; so different blocks
have different encodings, and none begins with another. -/
theorem decode_encode_append (celestia : CelestiaClient) (alloy : AlloySerde) :
    (∀ (block : Block) (t : List UInt8), ∃ data, celestia.encodeBlock block = .ok data ∧
        celestia.decodeBlock (data ++ t) = some block) ∧
      (∀ (proposed : ProposedBlock) (t : List UInt8), ∃ message,
        serializeProposedBlock alloy proposed = some message ∧
          deserializeProposedBlock alloy (message ++ t) = some proposed) ∧
      ∀ (block block' : Block) (data data' : List UInt8), block ≠ block' →
        celestia.encodeBlock block = .ok data → celestia.encodeBlock block' = .ok data' →
          data ≠ data' ∧ ¬ data <+: data' := by
  refine ⟨?_, ?_, ?_⟩
  · intro block t
    exact ⟨_, rfl, decodeBlock_encode celestia block t⟩
  · intro proposed t
    exact ⟨_, rfl, deserialize_serialize alloy proposed t⟩
  · rintro block block' data data' hne ⟨rfl⟩ ⟨rfl⟩
    have hbegins : ¬ (blockCodec celestia.alloy).encode block <+:
        (blockCodec celestia.alloy).encode block' :=
      mt (blockCodec celestia.alloy).eq_of_encode_isPrefix hne
    refine ⟨?_, hbegins⟩
    intro heq
    apply hbegins
    rw [heq]

end RoundTrip

section Payloads

theorem buildPayload_buildBlockFromPayload (payload : BuiltPayload) :
    buildPayload (buildBlockFromPayload payload) = payload.toExecutionPayload := by
  have htransactions :
      (payload.transactions.map Transaction.mk).map Transaction.data = payload.transactions := by
    rw [Vec.map_map]
    exact Vec.map_id payload.transactions
  unfold buildPayload BuiltPayload.toExecutionPayload
  rw [← htransactions]
  rfl

theorem executeBlock_sends_applied (payload : BuiltPayload) {S : Type} {sem : Sem NodeOp Ans S}
    {s s₁ s₂ : S} {trExecuted trApplied : List NodeEvent}
    {executed : Except ExecutionError ExecutionResult} {applied : Except ExecutionError Unit}
    (hexecuted : (executeBlock (buildBlockFromPayload payload)).Exec sem s trExecuted executed s₁)
    (happlied : (applyBuiltPayload payload).Exec sem s trApplied applied s₂) :
    sent trExecuted = sent trApplied := by
  have hblock := ensures_executeBlock (buildBlockFromPayload payload) _ _ _ hexecuted
  rw [buildPayload_buildBlockFromPayload] at hblock
  exact hblock.trans (ensures_applyBuiltPayload payload _ _ _ happlied).symm

/-- A block is executed as the payload that it was built from, and so is the block that
arrives over Celestia or over the relay. -/
theorem arrives_with_payload (celestia : CelestiaClient) (alloy : AlloySerde)
    (payload : BuiltPayload) (digest : AppDigest) (hbloom : payload.logsBloom.toList.length = 256) :
    ∃ executionPayload, payload.toExecutionPayload = some executionPayload ∧
      buildPayload (buildBlockFromPayload payload) = some executionPayload ∧
      (∃ data, celestia.encodeBlock (buildBlockFromPayload payload) = .ok data ∧
        (celestia.decodeBlock data).bind buildPayload = some executionPayload) ∧
      ∃ message proposed,
        serializeProposedBlock alloy ⟨digest, buildBlockFromPayload payload, payload⟩ =
          some message ∧
        deserializeProposedBlock alloy message = some proposed ∧
        buildPayload proposed.block = some executionPayload ∧
        proposed.payload.toExecutionPayload = some executionPayload := by
  obtain ⟨executionPayload, happlied⟩ :=
    Option.isSome_iff_exists.mp (toExecutionPayload_isSome.mpr hbloom)
  have hexecuted : buildPayload (buildBlockFromPayload payload) = some executionPayload := by
    rw [buildPayload_buildBlockFromPayload, happlied]
  refine ⟨executionPayload, happlied, hexecuted, ?_, ?_⟩
  · refine ⟨_, rfl, ?_⟩
    have hdecoded := decodeBlock_encode celestia (buildBlockFromPayload payload) []
    rw [List.append_nil] at hdecoded
    rw [hdecoded]
    exact hexecuted
  · have hreceived :=
      deserialize_serialize alloy ⟨digest, buildBlockFromPayload payload, payload⟩ []
    rw [List.append_nil] at hreceived
    exact ⟨_, _, rfl, hreceived, hexecuted, happlied⟩

theorem arrives_with_payload_first :
    ∃ executionPayload, firstPayload.toExecutionPayload = some executionPayload ∧
      buildPayload (buildBlockFromPayload firstPayload) = some executionPayload ∧
      ∃ data, digestClient.encodeBlock (buildBlockFromPayload firstPayload) = .ok data ∧
        (digestClient.decodeBlock data).bind buildPayload = some executionPayload := by
  have hbloom : firstPayload.logsBloom.toList.length = 256 := List.length_replicate
  obtain ⟨executionPayload, happlied, hexecuted, hserved, -⟩ :=
    arrives_with_payload digestClient AlloySerde.binary firstPayload FixedBytes.zero hbloom
  exact ⟨executionPayload, happlied, hexecuted, hserved⟩

end Payloads

end Rkb.Node.Transport
