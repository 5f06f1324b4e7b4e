import DigiWage.Pool.Basic
import DigiWage.Supply.Connect
import Mathlib.Logic.Relation

/-!
# The pool beside the chain

The memory pool of a node while blocks come and go: `AcceptToMemoryPool`, `ConnectTip` and `DisconnectTip` of `main.cpp`,
with `removeForBlock`, `removeCoinbaseSpends` and `check` of `txmempool.cpp`.

* `poolView` is `CCoinsViewMemPool`: the transactions of the pool over the coins of the tip.
* `RelayEnv` has what `AcceptToMemoryPool` asks of the node beside pool and chain: the spork, and whether the checks
  pass that look at standardness, transaction locks, signature operations, fees, priority and scripts.
* `ConnectTip` uses `ConnectBlock` of `Coins/Burned.lean`, and `DisconnectTip` the undo data that it left.
* `check` goes through the transactions in any order; the code takes that of the hashes.
-/

namespace DigiWage

open Lib

def locktimeThreshold : Nat := 500000000

def CTxIn.isFinal (txin : CTxIn) : Bool := txin.nSequence == 2 ^ 32 - 1

/-- `IsFinalTx` for a height other than 0; without a time it takes the clock. -/
def isFinalTx (adjustedTime : Nat) (tx : CTransaction) (nBlockHeight nBlockTime : Nat) : Bool :=
  let nBlockTime := if nBlockTime = 0 then adjustedTime else nBlockTime
  tx.nLockTime == 0 || decide (tx.nLockTime < if tx.nLockTime < locktimeThreshold then nBlockHeight else nBlockTime) ||
    tx.vin.all CTxIn.isFinal

/-- `GetMedianTimePast`, of the times of a block and its ancestors. -/
def medianTimePast (times : List Nat) : Nat :=
  let pmedian := (times.take 11).mergeSort fun a b => decide (a ≤ b)
  pmedian.getD (pmedian.length / 2) 0

/-- The parameters of the chain, and what the checks of transactions ask of the node. -/
structure PoolEnv extends ConnectEnv where
  /-- The time of the genesis block. -/
  genesisTime : Nat
  /-- `nCoinbaseMaturity` is an `int`. -/
  maturity_lt : nCoinbaseMaturity < 2 ^ 31

/-- What `AcceptToMemoryPool` asks of the node. -/
structure RelayEnv where
  /-- `SPORK_17_COLDSTAKING_ENFORCEMENT`. -/
  fColdStakingActive : Bool
  /-- The checks of standardness, transaction locks, signature operations, fees, priority and scripts. -/
  policy : CTxMemPool → CTransaction → Bool

def mempoolHeight : Int32 := 0x7FFFFFFF

namespace CTxMemPool

/-- `CCoinsViewMemPool`. -/
def poolView (pool : CTxMemPool) (view : CoinsView) : CoinsView where
  coins txid :=
    match pool.mapTx.lookup txid with
    | some entry => CCoins.fromTx entry.tx mempoolHeight
    | none => view.coins txid
  hashBlock := view.hashBlock

/-- The test of `removeCoinbaseSpends` on one input, with its unsigned difference. -/
def spendsImmature (env : PoolEnv) (view : CoinsView) (nMemPoolHeight : Nat) (pool : CTxMemPool) (txin : CTxIn) : Bool :=
  let coins := view.coins txin.prevout.hash
  !pool.contains txin.prevout.hash && (coins.isPruned || ((coins.fCoinBase || coins.fCoinStake) &&
    decide (UInt32.ofNat nMemPoolHeight - coins.nHeight.toUInt32 < UInt32.ofInt env.nCoinbaseMaturity)))

def removeCoinbaseSpends (env : PoolEnv) (view : CoinsView) (nMemPoolHeight : Nat) (pool : CTxMemPool) : CTxMemPool :=
  let transactionsToRemove := (pool.mapTx.entries.map fun e => e.2.tx).filter fun tx =>
    tx.vin.any (pool.spendsImmature env view nMemPoolHeight)
  transactionsToRemove.foldl (fun pool tx => (pool.remove tx true).2) pool

/-! ## `check` -/

/-- The loop of `check` over the inputs of the transaction under a hash, from the index on: `fDependsWait`; `none` when an
assertion fails. -/
def checkVin (view : CoinsView) (pool : CTxMemPool) (hash : Uint256) : Nat → Bool → List CTxIn → Option Bool
  | _, fDependsWait, [] => some fDependsWait
  | i, fDependsWait, txin :: vin =>
    let depends := match pool.mapTx.lookup txin.prevout.hash with
      | some entry2 =>
        if decide (txin.prevout.n < entry2.tx.vout.length) && !(entry2.tx.vout.getD txin.prevout.n .null).isNull then some true
        else none
      | none =>
        if txin.isZerocoinSpend || (view.coins txin.prevout.hash).isAvailable txin.prevout.n then some fDependsWait
        else none
    match depends with
    | none => none
    | some fDependsWait =>
      if txin.isZerocoinSpend then checkVin view pool hash (i + 1) false vin
      else if pool.mapNextTx.lookup txin.prevout = some ⟨hash, i⟩ then checkVin view pool hash (i + 1) fDependsWait vin
      else none

/-- `HaveInputs`, also of a zerocoin spend. -/
def haveInputs (mempoolDuplicate : CoinsView) (tx : CTransaction) : Bool :=
  tx.hasZerocoinSpendInputs || mempoolDuplicate.haveInputs tx

/-- `CheckInputs` and `UpdateCoins` on the copy of the view; `none` when an assertion fails. -/
def checkSpend (env : PoolEnv) (nSpendHeight : Int) (mempoolDuplicate : CoinsView) (tx : CTransaction) : Option CoinsView :=
  if tx.isCoinBase || tx.hasZerocoinSpendInputs || env.checkInputs mempoolDuplicate nSpendHeight tx then
    (updateCoins tx mempoolDuplicate 1000000).map Prod.snd
  else none

/-- The first loop of `check`: the copy of the view, and `waitingOnDependants`. -/
def checkEntries (env : PoolEnv) (nSpendHeight : Int) (view : CoinsView) (pool : CTxMemPool) :
    List (Sigma fun _ : Uint256 => CTxMemPoolEntry) → CoinsView → Option (CoinsView × List CTransaction)
  | [], mempoolDuplicate => some (mempoolDuplicate, [])
  | e :: es, mempoolDuplicate =>
    match pool.checkVin view e.1 0 false e.2.tx.vin with
    | none => none
    | some true => (checkEntries env nSpendHeight view pool es mempoolDuplicate).map fun r => (r.1, e.2.tx :: r.2)
    | some false =>
      match checkSpend env nSpendHeight mempoolDuplicate e.2.tx with
      | none => none
      | some mempoolDuplicate => checkEntries env nSpendHeight view pool es mempoolDuplicate

/-- The loop of `check` over the transactions that wait for others; false when an assertion fails. -/
def checkWaiting (env : PoolEnv) (nSpendHeight : Int) (stepsSinceLastRemove : Nat) (mempoolDuplicate : CoinsView) :
    List CTransaction → Bool
  | [] => true
  | tx :: waitingOnDependants =>
    if !haveInputs mempoolDuplicate tx then
      if stepsSinceLastRemove + 1 < waitingOnDependants.length + 1 then
        checkWaiting env nSpendHeight (stepsSinceLastRemove + 1) mempoolDuplicate (waitingOnDependants ++ [tx])
      else false
    else
      match checkSpend env nSpendHeight mempoolDuplicate tx with
      | none => false
      | some mempoolDuplicate => checkWaiting env nSpendHeight 0 mempoolDuplicate waitingOnDependants
termination_by txs => (txs.length, txs.length - stepsSinceLastRemove)
decreasing_by
  · simp only [List.length_append, List.length_cons, List.length_nil]
    apply Prod.Lex.right
    omega
  · apply Prod.Lex.left
    simp

/-- The loop of `check` over `mapNextTx`. -/
def checkNext (pool : CTxMemPool) : Bool :=
  pool.mapNextTx.entries.all fun e =>
    match pool.mapTx.lookup e.2.ptx with
    | none => false
    | some entry => entry.tx.vin[e.2.n]?.map CTxIn.prevout == some e.1

/-- `check`, through the transactions in the given order; false when an assertion fails. -/
def check (env : PoolEnv) (nSpendHeight : Int) (view : CoinsView) (pool : CTxMemPool)
    (order : List (Sigma fun _ : Uint256 => CTxMemPoolEntry)) : Bool :=
  match pool.checkEntries env nSpendHeight view order view with
  | none => false
  | some (mempoolDuplicate, waitingOnDependants) =>
    checkWaiting env nSpendHeight 0 mempoolDuplicate waitingOnDependants && pool.checkNext &&
      pool.totalTxSize == (order.map fun e => e.2.nTxSize).sum

end CTxMemPool

/-! ## The node -/

/-- `pcoinsTip`, the blocks above the genesis block (the tip first), the pool, and `GetAdjustedTime`. -/
structure PoolNode where
  view : CoinsView
  chain : List ChainLink
  pool : CTxMemPool
  adjustedTime : Nat

/-- The calls that change pool or chain, a clock that moves, and a restart, which forgets the pool. -/
inductive PoolOp where
  | accept (relay : RelayEnv) (tx : CTransaction)
  | connectTip (checks : ConnectChecks) (block : CBlock)
  | disconnectTip (relay : RelayEnv)
  | tick (adjustedTime : Nat)
  | clear

namespace PoolNode

variable (env : PoolEnv)

/-- The genesis block alone, whose coinbase is in no view, and an empty pool. -/
def genesis : PoolNode := ⟨⟨fun _ => .empty, env.hashGenesisBlock⟩, [], .empty, 0⟩

/-- `chainActive.Height()`. -/
def height (s : PoolNode) : Nat := s.chain.length

/-- The times of the tip and its ancestors. -/
def times (s : PoolNode) : List Nat := s.chain.map (fun l => l.block.nTime) ++ [env.genesisTime]

/-- `CheckFinalTx` with `STANDARD_LOCKTIME_VERIFY_FLAGS`, which have `LOCKTIME_MEDIAN_TIME_PAST`. -/
def checkFinalTx (s : PoolNode) (tx : CTransaction) : Bool :=
  isFinalTx s.adjustedTime tx (s.height + 1) (medianTimePast (s.times env))

/-- `AcceptToMemoryPool` beside the chain of a node, for the coins of `pcoinsTip` and the height after its best block;
`none` when it returns false. -/
def acceptToMemoryPool (relay : RelayEnv) (s : PoolNode) (view : CoinsView) (nSpendHeight : Nat) (pool : CTxMemPool)
    (tx : CTransaction) : Option CTxMemPool :=
  if tx.containsZerocoins then none
  else if env.checkTransaction (decide (env.params.heightStartZC ≤ s.height)) relay.fColdStakingActive tx ≠ .pass then none
  else if tx.isCoinBase || tx.isCoinStake then none
  -- only accept nLockTime-using transactions that can be mined in the next block
  else if !s.checkFinalTx env tx then none
  -- `IsStandardTx`, "unless regtest", for the clock
  else if !env.params.isRegTestNet && !isFinalTx s.adjustedTime tx (s.height + 1) 0 then none
  else if pool.contains tx.hash then none
  else if tx.vin.any fun txin => (pool.mapNextTx.lookup txin.prevout).isSome then none
  else if !((pool.poolView view).coins tx.hash).isPruned then none
  else if !relay.policy pool tx then none
  else if !env.checkInputs (pool.poolView view) nSpendHeight tx then none
  else some (pool.addUnchecked tx.hash ⟨tx, env.txSize tx⟩)

/-- `AcceptToMemoryPool` between the blocks. -/
def accept (relay : RelayEnv) (tx : CTransaction) (s : PoolNode) : PoolNode :=
  match s.acceptToMemoryPool env relay s.view (s.height + 1) s.pool tx with
  | none => s
  | some pool => { s with pool := pool }

/-- `ConnectTip`; heights are an `int`. A write to the disk that fails stops the node. -/
def connectTip (checks : ConnectChecks) (block : CBlock) (s : PoolNode) : PoolNode :=
  if 2 ^ 31 ≤ s.height + 1 ∨ block.hash = env.hashGenesisBlock then s
  else
    match (connectBlock env.hashGenesisBlock false checks block (Int32.ofNat (s.height + 1)) s.view 0).1 with
    | none => s
    | some (undo, view) =>
      ⟨view, ⟨block, Int32.ofNat (s.height + 1), s.view, undo⟩ :: s.chain, (s.pool.removeForBlock block.vtx).2, s.adjustedTime⟩

/-- The body of the loop of `DisconnectTip` over the transactions of the block. The best block of `pcoinsTip` is the
parent by then, while `chainActive` still has the block. -/
def resurrect (relay : RelayEnv) (s : PoolNode) (view : CoinsView) (pool : CTxMemPool) (tx : CTransaction) : CTxMemPool :=
  if tx.isCoinBase || tx.isCoinStake then (pool.remove tx true).2
  else
    match s.acceptToMemoryPool env relay view s.height pool tx with
    | none => (pool.remove tx true).2
    | some pool => pool

def disconnectTip (relay : RelayEnv) (s : PoolNode) : PoolNode :=
  match s.chain with
  | [] => s
  | l :: ls =>
    match disconnectBlock l.block l.nHeight s.view l.undo with
    | some (true, view) =>
      ⟨view, ls, (l.block.vtx.foldl (s.resurrect env relay view) s.pool).removeCoinbaseSpends env view s.height,
        s.adjustedTime⟩
    | _ => s

/-- One call. -/
def step (s : PoolNode) : PoolOp → PoolNode
  | .accept relay tx => s.accept env relay tx
  | .connectTip checks block => s.connectTip env checks block
  | .disconnectTip relay => s.disconnectTip env relay
  | .tick adjustedTime => { s with adjustedTime := adjustedTime }
  | .clear => { s with pool := .empty }

/-- The calls of a run, from the genesis block and an empty pool. -/
def run (ops : List PoolOp) : PoolNode := ops.foldl (step env) (genesis env)

end PoolNode

end DigiWage
