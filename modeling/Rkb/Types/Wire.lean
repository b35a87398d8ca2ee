import Rkb.Library.Codecs
import Rkb.Types.Blocks

/-!
The binary format of blocks: fixed-width little-endian integers, 64-bit length
prefixes, the fields of a structure in their order. How the byte types of alloy
spell themselves in it is a parameter.
-/

namespace Rkb.Types.Wire

open Rkb.Library.Bytes
open Rkb.Library.Codecs
open Rkb.Types.Blocks

structure AlloySerde where
  b256 : Codec B256
  address : Codec Address
  bytes : Codec Bytes

/-- All three as byte strings with their length in front. -/
def AlloySerde.binary : AlloySerde where
  b256 := Codec.sized 32 (by decide)
  address := Codec.sized 20 (by decide)
  bytes := Codec.vec Codec.byte

/-- What all three cost: eight bytes of length, then the bytes. -/
structure AlloySerde.Prefixed (alloy : AlloySerde) : Prop where
  b256 : ∀ a, (alloy.b256.encode a).length = 8 + 32
  address : ∀ a, (alloy.address.encode a).length = 8 + 20
  bytes : ∀ v : Bytes, (alloy.bytes.encode v).length = 8 + v.toList.length

theorem AlloySerde.prefixed_binary : AlloySerde.binary.Prefixed where
  b256 := Codec.length_sized (by decide)
  address := Codec.length_sized (by decide)
  bytes := Codec.length_vec_byte

def transactionCodec : Codec Transaction :=
  (Codec.vec Codec.byte).map Transaction.mk Transaction.data fun _ => rfl

variable (alloy : AlloySerde)

def blockHeaderCodec : Codec BlockHeader :=
  (Codec.u64.pair (Codec.u64.pair (alloy.b256.pair alloy.address))).map
    (fun r => ⟨r.1, r.2.1, r.2.2.1, r.2.2.2⟩)
    (fun header => (header.height, header.timestamp, header.parentHash, header.proposer))
    fun _ => rfl

def signatureCodec : Codec Signature :=
  (alloy.address.pair
    ((Codec.hexString 32 (by decide)).pair (Codec.hexString 64 (by decide)))).map
    (fun r => ⟨r.1, r.2.1, r.2.2⟩)
    (fun sig => (sig.validator, sig.publicKeyBytes, sig.signatureBytes))
    fun _ => rfl

def blockCodec : Codec Block :=
  ((blockHeaderCodec alloy).pair
    ((Codec.vec transactionCodec).pair
      ((Codec.vec (signatureCodec alloy)).pair
        (alloy.b256.pair (alloy.b256.pair (alloy.bytes.pair (alloy.b256.pair (alloy.bytes.pair
          (Codec.u64.pair (Codec.u64.pair (Codec.u64.pair alloy.b256))))))))))).map
    (fun r =>
      { header := r.1
        transactions := r.2.1
        signatures := r.2.2.1
        stateRoot := r.2.2.2.1
        receiptsRoot := r.2.2.2.2.1
        logsBloom := r.2.2.2.2.2.1
        prevRandao := r.2.2.2.2.2.2.1
        extraData := r.2.2.2.2.2.2.2.1
        gasUsed := r.2.2.2.2.2.2.2.2.1
        gasLimit := r.2.2.2.2.2.2.2.2.2.1
        baseFeePerGas := r.2.2.2.2.2.2.2.2.2.2.1
        blockHash := r.2.2.2.2.2.2.2.2.2.2.2 })
    (fun b => (b.header, b.transactions, b.signatures, b.stateRoot, b.receiptsRoot, b.logsBloom,
      b.prevRandao, b.extraData, b.gasUsed, b.gasLimit, b.baseFeePerGas, b.blockHash))
    fun _ => rfl

section Lengths

variable {alloy} (halloy : alloy.Prefixed)

theorem length_transactions (v : Vec Transaction) :
    ((Codec.vec transactionCodec).encode v).length =
      8 + (v.toList.map fun tx => 8 + tx.data.toList.length).sum := by
  rw [Codec.length_vec]
  congr 3
  funext tx
  exact Codec.length_vec_byte tx.data

include halloy

theorem length_blockHeader (header : BlockHeader) :
    ((blockHeaderCodec alloy).encode header).length = 84 := by
  simp [blockHeaderCodec, halloy.b256, halloy.address]

theorem length_signatures (v : Vec Signature) :
    ((Codec.vec (signatureCodec alloy)).encode v).length = 8 + 236 * v.toList.length := by
  have hlength : ∀ sig, ((signatureCodec alloy).encode sig).length = 236 := by
    intro sig
    simp [signatureCodec, halloy.address]
  rw [Codec.length_vec]
  simp only [hlength]
  rw [List.map_const', List.sum_replicate_nat, Nat.mul_comm]

/-- Everything but the transactions, the signatures and the two byte strings has a fixed size. -/
theorem length_block (block : Block) :
    ((blockCodec alloy).encode block).length =
      300 + (block.transactions.toList.map fun tx => 8 + tx.data.toList.length).sum +
        236 * block.signatures.toList.length + block.logsBloom.toList.length +
        block.extraData.toList.length := by
  simp only [blockCodec, Codec.encode_map, Codec.length_pair, Codec.length_u64,
    length_transactions, length_blockHeader halloy, length_signatures halloy, halloy.b256,
    halloy.bytes]
  omega

end Lengths

end Rkb.Types.Wire
