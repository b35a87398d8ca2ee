import Rkb.Types.Blocks

namespace Rkb.Execution.Forkchoice

open Rkb.Types.Blocks

/-- `head` and `safe` follow soft confirmations, `finalized` follows Celestia. -/
structure ForkchoiceState where
  head : B256
  safe : B256
  finalized : B256
deriving DecidableEq

structure EngineForkchoiceState where
  headBlockHash : B256
  safeBlockHash : B256
  finalizedBlockHash : B256
deriving DecidableEq

namespace ForkchoiceState

def genesis (genesisHash : B256) : ForkchoiceState :=
  { head := genesisHash, safe := genesisHash, finalized := genesisHash }

def withSoft (self : ForkchoiceState) (blockHash : B256) : ForkchoiceState :=
  { head := blockHash, safe := blockHash, finalized := self.finalized }

def withFirm (self : ForkchoiceState) (blockHash : B256) : ForkchoiceState :=
  { head := self.head, safe := self.safe, finalized := blockHash }

@[simp] theorem withSoft_finalized (s : ForkchoiceState) (h : B256) :
    (s.withSoft h).finalized = s.finalized := rfl

@[simp] theorem withFirm_finalized (s : ForkchoiceState) (h : B256) :
    (s.withFirm h).finalized = h := rfl

end ForkchoiceState

end Rkb.Execution.Forkchoice
