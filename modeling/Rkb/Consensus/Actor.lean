import Rkb.Library.Maps
import Rkb.Execution.Client

namespace Rkb.Consensus.Actor

open Rkb.Library.Maps
open Rkb.Types.Blocks
open Rkb.Execution.Payload
open Rkb.Execution.Client
open Rkb.Consensus.Messages
open Rkb.Node.Effects

structure ApplicationConfig where
  initialHeight : UInt64
  initialHash : B256
  proposer : Address
  blockTiming : BlockTiming

/-- `height` is the height of the next block to finalize. -/
structure Application where
  pendingBlocks : HashMap AppDigest Block
  pendingPayloads : HashMap AppDigest BuiltPayload
  verified : Finset AppDigest
  height : UInt64
  lastHash : B256
  proposer : Address
  lastProposedHeight : Option UInt64
  blockTiming : BlockTiming

structure RethHead where
  hash : B256
  number : UInt64
  timestamp : UInt64

inductive SyncCheck
  | synced
  | behind
  | diverged

inductive SyncResult
  | synced (parentTimestamp : UInt64)
  | failed

def nullProposalDigest : AppDigest where
  bytes :=
    [0x9d, 0x15, 0x7a, 0x9d, 0x5a, 0x23, 0x8b, 0x4c,
      0x7d, 0x9f, 0x8c, 0x2b, 0x3e, 0x4a, 0x5f, 0x6d,
      0x8e, 0x9a, 0x0b, 0x1c, 0x2d, 0x3e, 0x4f, 0x5a,
      0x6b, 0x7c, 0x8d, 0x9e, 0xaf, 0xb0, 0xc1, 0xd2]
  length_eq := rfl

def buildBlockFromPayload (payload : BuiltPayload) : Block :=
  let header : BlockHeader :=
    { height := payload.blockNumber
      timestamp := payload.timestamp
      parentHash := payload.parentHash
      proposer := payload.feeRecipient }
  Block.new
    { header := header
      transactions := payload.transactions.map Transaction.mk
      stateRoot := payload.stateRoot
      receiptsRoot := payload.receiptsRoot
      logsBloom := payload.logsBloom
      prevRandao := payload.prevRandao
      extraData := payload.extraData
      gasUsed := payload.gasUsed
      gasLimit := payload.gasLimit
      baseFeePerGas := payload.baseFeePerGas
      blockHash := payload.blockHash }

def queryRethHead : NodeProg (Option RethHead) := do
  match ← getHead with
  | .ok (hash, number, timestamp) => return some ⟨hash, number, timestamp⟩
  | .error _ => return none

def wallClockTimestamp : NodeProg UInt64 := op .now

def canBuildBlock (blockTiming : BlockTiming) (parentTimestamp : UInt64) : NodeProg Bool := do
  let now ← wallClockTimestamp
  match blockTiming with
  | .vanilla => return decide (parentTimestamp < now)
  | .subsecond => return decide (parentTimestamp ≤ now)

def applyToReth (payload : Option BuiltPayload) : NodeProg Unit := do
  match payload with
  | none => return ()
  | some payload =>
      let _ ← applyBuiltPayload payload
      return ()

variable (sha256 : List UInt8 → AppDigest)

def computeDigest (blockHash : B256) : AppDigest := sha256 blockHash.bytes

namespace Application

def new (config : ApplicationConfig) : Application where
  pendingBlocks := ∅
  pendingPayloads := ∅
  verified := ∅
  height := config.initialHeight
  lastHash := config.initialHash
  proposer := config.proposer
  lastProposedHeight := none
  blockTiming := config.blockTiming

def genesis (self : Application) (epoch : UInt64) : AppDigest × Application :=
  let digest := sha256 ("genesis:" ++ toString epoch).toUTF8.toList
  (digest, { self with verified := insert digest self.verified })

def checkSyncState (self : Application) (head : RethHead) : SyncCheck :=
  let expectedHeight := if self.height = 0 then 0 else self.height - 1
  if head.hash = self.lastHash then .synced
  else if head.number < expectedHeight then .behind
  else .diverged

def waitForRethSyncLoop (self : Application) : Nat → NodeProg SyncResult
  | 0 => return .failed
  | attempts + 1 => do
      match ← queryRethHead with
      | none =>
          let _ ← op (.sleep 100)
          waitForRethSyncLoop self attempts
      | some head =>
          match self.checkSyncState head with
          | .synced => return .synced head.timestamp
          | .behind =>
              let _ ← op (.sleep 100)
              waitForRethSyncLoop self attempts
          | .diverged => return .failed

def waitForRethSync (self : Application) : NodeProg SyncResult := self.waitForRethSyncLoop 10

def alreadyProposedAtHeight (self : Application) : Bool :=
  match self.lastProposedHeight with
  | none => false
  | some last => !(last < self.height)

def buildViaReth (self : Application) (timestamp : UInt64) : NodeProg (Option BuiltPayload) := do
  match ← startBuilding self.lastHash timestamp self.proposer with
  | .error _ => return none
  | .ok payloadId =>
      match ← getPayload payloadId with
      | .ok payload => return some payload
      | .error _ => return none

def completeProposal (self : Application) (payload : BuiltPayload) :
    NodeProg (AppDigest × Application) := do
  let block := buildBlockFromPayload payload
  let digest := computeDigest sha256 block.blockHash
  let _ ← op (.relayBlock { digest := digest, block := block, payload := payload })
  return (digest,
    { self with
      pendingBlocks := self.pendingBlocks.insert digest block
      pendingPayloads := self.pendingPayloads.insert digest payload
      verified := insert digest self.verified
      lastProposedHeight := some self.height })

def propose (self : Application) : NodeProg (AppDigest × Application) := do
  if self.alreadyProposedAtHeight then
    return (nullProposalDigest, self)
  else
    match ← self.waitForRethSync with
    | .failed => return (nullProposalDigest, self)
    | .synced parentTimestamp =>
        if !(← canBuildBlock self.blockTiming parentTimestamp) then
          return (nullProposalDigest, self)
        else
          let timestamp ← wallClockTimestamp
          match ← self.buildViaReth timestamp with
          | some payload => self.completeProposal sha256 payload
          | none => return (nullProposalDigest, self)

/-- Unknown digests are accepted optimistically, so the two accepting branches of
the source coincide. -/
def verify (self : Application) (payload : AppDigest) : Bool × Application :=
  if payload = nullProposalDigest then (false, self)
  else if payload ∈ self.pendingBlocks ∨ payload ∈ self.verified then
    (true, { self with verified := insert payload self.verified })
  else
    (true, { self with verified := insert payload self.verified })

def isStale (self : Application) (digest : AppDigest) : Bool :=
  match self.pendingBlocks.lookup digest with
  | some block => block.height < self.height
  | none => false

/-- The stale digests are removed one by one from both maps. -/
def cleanupStaleBlocks (self : Application) : Application :=
  { self with
    pendingBlocks := retain (fun digest _ => !self.isStale digest) self.pendingBlocks
    pendingPayloads := retain (fun digest _ => !self.isStale digest) self.pendingPayloads }

def isValidHeight (self : Application) (block : Block) : Bool := block.height == self.height

def finalize (self : Application) (digest : AppDigest) :
    NodeProg (Option Block × Application) :=
  match self.pendingBlocks.lookup digest with
  | none => return (none, { self with pendingPayloads := self.pendingPayloads.erase digest })
  | some block => do
      let self := { self with pendingBlocks := self.pendingBlocks.erase digest }
      if !self.isValidHeight block then
        return (none, { self with pendingPayloads := self.pendingPayloads.erase digest })
      else
        let payload := self.pendingPayloads.lookup digest
        let self := { self with pendingPayloads := self.pendingPayloads.erase digest }
        applyToReth payload
        let self := { self with height := block.height + 1, lastHash := block.blockHash }
        let self := self.cleanupStaleBlocks
        let _ ← op (.broadcastBlock block)
        return (some block, self)

def handleReceiveBlock (self : Application) (digest : AppDigest) (block : Block)
    (payload : BuiltPayload) : NodeProg Application := do
  if digest ∈ self.pendingBlocks then
    return self
  else
    let response ← importPayload payload
    let importSucceeded :=
      match response with
      | .ok () => true
      | .error _ => false
    return { self with
      pendingBlocks := self.pendingBlocks.insert digest block
      pendingPayloads := self.pendingPayloads.insert digest payload
      verified := if importSucceeded then insert digest self.verified else self.verified }

def handleGenesis (self : Application) (epoch : UInt64) : NodeProg Application := do
  let (digest, self) := self.genesis sha256 epoch
  let _ ← op (.respondDigest digest)
  return self

def handlePropose (self : Application) : NodeProg Application := do
  let (digest, self) ← self.propose sha256
  let _ ← op (.respondDigest digest)
  return self

def handleVerify (self : Application) (payload : AppDigest) : NodeProg Application := do
  let (valid, self) := self.verify payload
  let _ ← op (.respondValid valid)
  return self

def processMessage (self : Application) : Message → NodeProg Application
  | .genesis epoch => self.handleGenesis sha256 epoch
  | .propose => self.handlePropose sha256
  | .verify payload => self.handleVerify payload
  | .broadcast _ => return self
  | .finalize digest => do
      let (_, self) ← self.finalize digest
      return self
  | .receiveBlock digest block payload => self.handleReceiveBlock digest block payload

def processMessages (self : Application) : List Message → NodeProg Application
  | [] => return self
  | message :: messages => do
      let self ← self.processMessage sha256 message
      self.processMessages messages

end Application

end Rkb.Consensus.Actor
