import Rkb.Consensus.Runtime

namespace Rkb.Sequencer.RuntimeConfig

open Rkb.Library.Bytes
open Rkb.Types.Blocks
open Rkb.Execution.Errors
open Rkb.Consensus.Runtime

structure KeyScheme (PublicKey : Type) where
  fromSeed : UInt64 → PublicKey
  deriveAddress : PublicKey → Address

structure ConsensusConfig where
  validatorSeeds : List UInt64
  privateKeyPath : String
  blockTiming : BlockTiming

/-- What is read outside of the configuration: the text of the key file, and
whether the network addresses and the bootstrap peers resolve. -/
structure ConsensusInputs where
  privateKeyFile : Except String (List Char)
  networkAddrs : Except Report Unit
  bootstrappers : Except Report Unit

variable {PublicKey : Type} [DecidableEq PublicKey] (keys : KeyScheme PublicKey)

def buildValidatorSet (consensus : ConsensusConfig) (ourPubkey : PublicKey) :
    Except Report (List PublicKey × Address) :=
  let validators := consensus.validatorSeeds.map keys.fromSeed
  if ourPubkey ∈ validators then .ok (validators, keys.deriveAddress ourPubkey)
  else .error (.bail "our public key is not in the validator set")

def isWhiteSpace (c : Char) : Bool :=
  let code := c.toNat
  decide (0x09 ≤ code ∧ code ≤ 0x0d ∨ 0x2000 ≤ code ∧ code ≤ 0x200a) ||
    code ∈ [0x20, 0x85, 0xa0, 0x1680, 0x2028, 0x2029, 0x202f, 0x205f, 0x3000]

def trim (cs : List Char) : List Char :=
  ((cs.dropWhile isWhiteSpace).reverse.dropWhile isWhiteSpace).reverse

/-- The seed of our private key: the first eight bytes of the key file. -/
def loadPrivateKey (path : String) (file : Except String (List Char)) : Except Report UInt64 := do
  let contents ← Report.wrapErr id ("failed to read private key from " ++ path) file
  match hexDecode (trim contents) with
  | none => .error (.bail "private key must be hex-encoded")
  | some seedBytes =>
      if seedBytes.length = 32 then .ok (UInt64.ofNat (ofLeBytes (seedBytes.take 8)))
      else .error (.bail ("private key must be exactly 32 bytes (got " ++
        toString seedBytes.length ++ ")"))

def buildRuntimeConfig (consensus : ConsensusConfig) (inputs : ConsensusInputs)
    (initialHash : B256) : Except Report (SimplexRuntimeConfig PublicKey) := do
  let seed ← loadPrivateKey consensus.privateKeyPath inputs.privateKeyFile
  let ourPubkey := keys.fromSeed seed
  let (validators, ourAddress) ← buildValidatorSet keys consensus ourPubkey
  inputs.networkAddrs
  inputs.bootstrappers
  return { publicKey := ourPubkey
           validators := validators
           ourAddress := ourAddress
           initialHash := initialHash
           blockTiming := consensus.blockTiming }

def seedKeys : KeyScheme UInt64 where
  fromSeed := id
  deriveAddress := fun _ => FixedBytes.zero

def consensusOf (seeds : List UInt64) : ConsensusConfig where
  validatorSeeds := seeds
  privateKeyPath := "validator.key"
  blockTiming := .vanilla

def soleInputs : ConsensusInputs where
  privateKeyFile := .ok (hexEncode (1 :: List.replicate 31 0))
  networkAddrs := .ok ()
  bootstrappers := .ok ()

end Rkb.Sequencer.RuntimeConfig
