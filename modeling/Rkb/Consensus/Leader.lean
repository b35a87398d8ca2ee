namespace Rkb.Consensus.Leader

/-- `height as usize % validator_count` on a 64-bit machine; `none` where the
division by zero panics. -/
def leaderIndex (height : UInt64) (validatorCount : Nat) : Option Nat :=
  if validatorCount = 0 then none else some (height.toNat % validatorCount)

def isLeader (ourIndex : Nat) (height : UInt64) (validatorCount : Nat) : Option Bool :=
  (leaderIndex height validatorCount).map fun index => index == ourIndex

end Rkb.Consensus.Leader
