import Rkb.Execution.Payload

namespace Rkb.Consensus.Messages

open Rkb.Library.Bytes
open Rkb.Types.Blocks
open Rkb.Execution.Payload

abbrev AppDigest : Type := FixedBytes 32

structure ProposedBlock where
  digest : AppDigest
  block : Block
  payload : BuiltPayload
deriving DecidableEq

/-- The messages of the application actor's mailbox. The consensus context of
`Propose` and `Verify` is only logged. -/
inductive Message
  | genesis (epoch : UInt64)
  | propose
  | verify (payload : AppDigest)
  | broadcast (payload : AppDigest)
  | finalize (digest : AppDigest)
  | receiveBlock (digest : AppDigest) (block : Block) (payload : BuiltPayload)
deriving DecidableEq

end Rkb.Consensus.Messages
