import Rkb.Types.Wire
import Rkb.Consensus.Messages

namespace Rkb.Consensus.Relay

open Rkb.Library.Codecs
open Rkb.Types.Wire
open Rkb.Execution.Payload
open Rkb.Consensus.Messages

variable (alloy : AlloySerde)

def builtPayloadCodec : Codec BuiltPayload :=
  (alloy.b256.pair (Codec.u64.pair (alloy.b256.pair (alloy.address.pair
    (alloy.b256.pair (alloy.b256.pair (alloy.bytes.pair (alloy.b256.pair (alloy.bytes.pair
      (Codec.u64.pair (Codec.u64.pair (Codec.u64.pair
        ((Codec.vec alloy.bytes).pair Codec.u64))))))))))))).map
    (fun r =>
      { blockHash := r.1
        blockNumber := r.2.1
        parentHash := r.2.2.1
        feeRecipient := r.2.2.2.1
        stateRoot := r.2.2.2.2.1
        receiptsRoot := r.2.2.2.2.2.1
        logsBloom := r.2.2.2.2.2.2.1
        prevRandao := r.2.2.2.2.2.2.2.1
        extraData := r.2.2.2.2.2.2.2.2.1
        gasLimit := r.2.2.2.2.2.2.2.2.2.1
        gasUsed := r.2.2.2.2.2.2.2.2.2.2.1
        timestamp := r.2.2.2.2.2.2.2.2.2.2.2.1
        transactions := r.2.2.2.2.2.2.2.2.2.2.2.2.1
        baseFeePerGas := r.2.2.2.2.2.2.2.2.2.2.2.2.2 })
    (fun p => (p.blockHash, p.blockNumber, p.parentHash, p.feeRecipient, p.stateRoot,
      p.receiptsRoot, p.logsBloom, p.prevRandao, p.extraData, p.gasLimit, p.gasUsed, p.timestamp,
      p.transactions, p.baseFeePerGas))
    fun _ => rfl

/-- The digest is spelled as an array, without a length. -/
def proposedBlockCodec : Codec ProposedBlock :=
  ((Codec.raw 32).pair ((blockCodec alloy).pair (builtPayloadCodec alloy))).map
    (fun r => ⟨r.1, r.2.1, r.2.2⟩)
    (fun proposed => (proposed.digest, proposed.block, proposed.payload))
    fun _ => rfl

def serializeProposedBlock (proposed : ProposedBlock) : Option (List UInt8) :=
  some ((proposedBlockCodec alloy).encode proposed)

/-- Bytes after the value are accepted. -/
def deserializeProposedBlock (message : List UInt8) : Option ProposedBlock :=
  ((proposedBlockCodec alloy).decode message).map Prod.fst

def handleP2pBlock (message : List UInt8) : Option Message :=
  (deserializeProposedBlock alloy message).map fun proposed =>
    .receiveBlock proposed.digest proposed.block proposed.payload

theorem deserialize_serialize (proposed : ProposedBlock) (t : List UInt8) :
    deserializeProposedBlock alloy ((proposedBlockCodec alloy).encode proposed ++ t) =
      some proposed := by
  rw [deserializeProposedBlock, (proposedBlockCodec alloy).decode_encode]
  rfl

end Rkb.Consensus.Relay
