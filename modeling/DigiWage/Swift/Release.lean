import DigiWage.Lib.Run
import DigiWage.Swift.Locks

/-!
# Locked inputs are released

Inputs are locked when a lock is complete and when the mempool rejects a request, and they are released with the request
of an expired lock.
-/

namespace DigiWage

open Lib

/-! ## The cleaning -/

namespace SwiftTX

variable {env : SwiftEnv} {s : SwiftTX} {tx : CTransaction} {ctx : CConsensusVote} {h : Uint256} {now : Int}
  {lock : CTransactionLock}

end SwiftTX

namespace Cleaned

variable {now : Int} {e : Sigma fun _ : Uint256 => CTransactionLock}
  {entries : List (Sigma fun _ : Uint256 => CTransactionLock)} {s s' : SwiftTX}

end Cleaned

namespace SwiftTX

end SwiftTX

/-! ## The invariant -/

namespace SwiftTX

/-- `ix` puts the transaction into `mapTxLockReq`. -/
def takes (env : SwiftEnv) (s : SwiftTX) (tx : CTransaction) : Bool :=
  (s.conflictingLock tx).isNone && (env.acceptToMemoryPool tx || (s.createNewLock env tx).2.hasCompleteLock tx.hash)

variable {env : SwiftEnv} {s s' : SwiftTX} {tx : CTransaction} {ctx : CConsensusVote} {h : Uint256} {now : Int}

/-- A run of the maps, in the form of `Lib.Run`. -/
def returns (s : SwiftTX) (op : SwiftOp) : Option SwiftTX := some (s.step op)

theorem foldlM_returns : ∀ (ops : List SwiftOp) (s : SwiftTX), ops.foldlM returns s = some (s.run ops)
  | [], _ => rfl
  | op :: ops, s => by
    rw [List.foldlM_cons]
    exact foldlM_returns ops (s.step op)

/-- A node at height 100 that knows all masternodes, with inputs from height 90. -/
def sampleEnv (now : Int) (accepts : Bool) : SwiftEnv where
  now
  fLiteMode := false
  isBlockchainSynced := true
  swiftTx := true
  maxValue := 1000
  tipHeight := 100
  coinsHeight _ := some 90
  getTransaction _ := none
  acceptToMemoryPool _ := accepts
  getMasternodeRank _ _ := 1
  checkSignature _ := true
  activeMasternode := none
  sign _ _ _ := none

/-- A transaction that spends one output. -/
def sampleTx : CTransaction := ⟨7, 1, [⟨⟨1, 0⟩, ([] : List UInt8), 0⟩], [⟨COIN, ([0x6a] : List UInt8), 0⟩], 0⟩

/-- The vote of a masternode for the transaction, at the height of its lock. -/
def sampleVote (masternode : Uint256) : CConsensusVote := ⟨⟨⟨masternode, 0⟩, ([] : List UInt8), 0⟩, 7, 93, 1, []⟩

/-- The mempool accepts a request, and six masternodes vote for it. -/
def lockedOps : List SwiftOp :=
  .ix (sampleEnv 1000 true) sampleTx :: [11, 12, 13, 14, 15, 16].map fun m => .txlvote (sampleEnv 1000 true) (sampleVote m)

end SwiftTX

end DigiWage
