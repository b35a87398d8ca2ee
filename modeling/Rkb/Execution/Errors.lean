import Rkb.Types.Blocks

namespace Rkb.Execution.Errors

open Rkb.Library.Bytes
open Rkb.Types.Blocks

def displayHash (hash : B256) : String := "0x" ++ String.ofList (hexEncode hash.bytes)

inductive ExecutionError
  | connectionFailed (reason : String)
  | executionFailed (reason : String)
  | invalidBlock (reason : String)
  | forkchoiceFailed (reason : String)
  | parentNotFound (parentHash : B256)
  | invalidJwt (reason : String)
  | rpc (reason : String)
  | internal (reason : String)
deriving DecidableEq

def ExecutionError.display : ExecutionError → String
  | .connectionFailed reason => "failed to connect to reth: " ++ reason
  | .executionFailed reason => "block execution failed: " ++ reason
  | .invalidBlock reason => "invalid block: " ++ reason
  | .forkchoiceFailed reason => "forkchoice update failed: " ++ reason
  | .parentNotFound parentHash => "parent block not found: " ++ displayHash parentHash
  | .invalidJwt reason => "invalid JWT secret: " ++ reason
  | .rpc reason => "RPC error: " ++ reason
  | .internal reason => "internal error: " ++ reason

inductive CelestiaError
  | connectionFailed (reason : String)
  | submissionFailed (reason : String)
  | subscriptionFailed (reason : String)
  | encodeFailed (reason : String)
  | decodeFailed (reason : String)
  | blobNotFound (height : UInt64)
  | invalidConfig (reason : String)
  | internal (reason : String)
deriving DecidableEq

def CelestiaError.display : CelestiaError → String
  | .connectionFailed reason => "failed to connect to Celestia: " ++ reason
  | .submissionFailed reason => "submission failed: " ++ reason
  | .subscriptionFailed reason => "subscription failed: " ++ reason
  | .encodeFailed reason => "failed to encode block: " ++ reason
  | .decodeFailed reason => "failed to decode block: " ++ reason
  | .blobNotFound height => "blob not found at height " ++ toString height
  | .invalidConfig reason => "invalid configuration: " ++ reason
  | .internal reason => "internal error: " ++ reason

/-- An error and the contexts wrapped around it, the outermost first. -/
structure Report where
  chain : List String
deriving DecidableEq

namespace Report

def bail (msg : String) : Report := ⟨[msg]⟩

def wrapErr {ε α : Type} (display : ε → String) (msg : String) :
    Except ε α → Except Report α
  | .ok a => .ok a
  | .error e => .error ⟨[msg, display e]⟩

def context {α : Type} (msg : String) : Except Report α → Except Report α
  | .ok a => .ok a
  | .error r => .error ⟨msg :: r.chain⟩

end Report

end Rkb.Execution.Errors
