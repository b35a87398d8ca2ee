import Rkb.Library.Bytes

namespace Rkb.Types.Blocks

open Rkb.Library.Bytes

abbrev B256 : Type := FixedBytes 32

abbrev Address : Type := FixedBytes 20

abbrev Bytes : Type := Vec UInt8

abbrev BlockHash : Type := B256

structure Transaction where
  data : Bytes
deriving DecidableEq

structure BlockHeader where
  height : UInt64
  timestamp : UInt64
  parentHash : BlockHash
  proposer : Address
deriving DecidableEq

structure Signature where
  validator : Address
  publicKeyBytes : FixedBytes 32
  signatureBytes : FixedBytes 64
deriving DecidableEq

structure Block where
  header : BlockHeader
  transactions : Vec Transaction
  signatures : Vec Signature
  stateRoot : B256
  receiptsRoot : B256
  logsBloom : Bytes
  prevRandao : B256
  extraData : Bytes
  gasUsed : UInt64
  gasLimit : UInt64
  baseFeePerGas : UInt64
  blockHash : B256
deriving DecidableEq

structure BlockParams where
  header : BlockHeader
  transactions : Vec Transaction
  stateRoot : B256
  receiptsRoot : B256
  logsBloom : Bytes
  prevRandao : B256
  extraData : Bytes
  gasUsed : UInt64
  gasLimit : UInt64
  baseFeePerGas : UInt64
  blockHash : B256

namespace Block

def new (params : BlockParams) : Block where
  header := params.header
  transactions := params.transactions
  signatures := Vec.empty
  stateRoot := params.stateRoot
  receiptsRoot := params.receiptsRoot
  logsBloom := params.logsBloom
  prevRandao := params.prevRandao
  extraData := params.extraData
  gasUsed := params.gasUsed
  gasLimit := params.gasLimit
  baseFeePerGas := params.baseFeePerGas
  blockHash := params.blockHash

def height (self : Block) : UInt64 := self.header.height

def timestamp (self : Block) : UInt64 := self.header.timestamp

def parentHash (self : Block) : BlockHash := self.header.parentHash

end Block

/-- When the leader may propose: once the wall clock has passed the parent's
timestamp, or already in the same second. -/
inductive BlockTiming
  | vanilla
  | subsecond
deriving DecidableEq

end Rkb.Types.Blocks
