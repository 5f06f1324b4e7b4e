import DigiWage.Chain.Index

/-!
# The chain state and the operations on it

The variables of `main.cpp` around the block index: the status of each entry, `chainActive`,
`setBlockIndexCandidates` and `mapBlocksUnlinked`; and the functions that change them: `AddToBlockIndex`,
`ReceivedBlockTransactions`, `InvalidBlockFound`, `FindMostWorkChain`, `ActivateBestChain`, `InvalidateBlock` and
`ReconsiderBlock`.

* A walk along `pprev` is a walk along `BlockIndex.path`. A loop over `mapBlockIndex` that treats each entry alone is
  written entry by entry.
* Whether `ConnectBlock` and `DisconnectBlock` succeed is up to an oracle, which is asked anew at each call.
* A function returns `none` when an assertion fails or a null pointer is followed.
-/

namespace DigiWage

/-! ## Status -/

def BLOCK_VALID_TREE : Nat := 2
def BLOCK_VALID_TRANSACTIONS : Nat := 3
def BLOCK_VALID_SCRIPTS : Nat := 5

/-- The fields of `CBlockIndex` that change: `nStatus`, with `nValid` for `nStatus & BLOCK_VALID_MASK`, and the
counters. -/
structure BlockStatus where
  nValid : Nat
  haveData : Bool
  haveUndo : Bool
  failedValid : Bool
  failedChild : Bool
  nTx : Nat
  nChainTx : Nat
  nSequenceId : Nat
deriving DecidableEq, Repr

namespace BlockStatus

/-- The status of `CBlockIndex()`. -/
def init : BlockStatus := ⟨0, false, false, false, false, 0, 0, 0⟩

/-- `nStatus & BLOCK_FAILED_MASK`. -/
def failed (st : BlockStatus) : Bool := st.failedValid || st.failedChild

/-- `CBlockIndex::IsValid`. -/
def isValid (st : BlockStatus) (nUpTo : Nat) : Bool := !st.failed && decide (nUpTo ≤ st.nValid)

/-- `CBlockIndex::RaiseValidity`. -/
def raiseValidity (st : BlockStatus) (nUpTo : Nat) : BlockStatus :=
  if st.failed then st else if st.nValid < nUpTo then { st with nValid := nUpTo } else st

/-- The status once the `nVtx` transactions of the block are there. -/
def received (st : BlockStatus) (nVtx : Nat) : BlockStatus :=
  { st with nTx := nVtx % 2 ^ 32, nChainTx := 0, haveData := true }.raiseValidity BLOCK_VALID_TRANSACTIONS

/-- The status but for `nChainTx` and `nSequenceId`. -/
def core (st : BlockStatus) : BlockStatus := { st with nChainTx := 0, nSequenceId := 0 }

/-- `nStatus &= ~BLOCK_FAILED_MASK`. -/
def clearFailed (st : BlockStatus) : BlockStatus := { st with failedValid := false, failedChild := false }

theorem received_spec (st : BlockStatus) (nVtx : Nat) : (st.received nVtx).nTx = nVtx % 2 ^ 32 ∧
    (st.received nVtx).nChainTx = 0 ∧ (st.received nVtx).haveData = true ∧
    (st.received nVtx).failedValid = st.failedValid ∧ (st.received nVtx).failedChild = st.failedChild ∧
    st.nValid ≤ (st.received nVtx).nValid ∧
    (st.failed = false → BLOCK_VALID_TRANSACTIONS ≤ (st.received nVtx).nValid) := by
  unfold received raiseValidity
  dsimp only
  split
  · rename_i hf
    exact ⟨rfl, rfl, rfl, rfl, rfl, Nat.le_refl _, fun h => by rw [failed] at h hf; rw [h] at hf; cases hf⟩
  · split
    · rename_i hlt
      exact ⟨rfl, rfl, rfl, rfl, rfl, Nat.le_of_lt hlt, fun _ => Nat.le_refl _⟩
    · rename_i hlt
      exact ⟨rfl, rfl, rfl, rfl, rfl, Nat.le_refl _, fun _ => Nat.le_of_not_lt hlt⟩

end BlockStatus

/-! ## The active chain -/

structure CChain where
  vChain : List (Option Ptr)
deriving DecidableEq, Repr

namespace CChain

def tip (c : CChain) : Option Ptr := c.vChain.getLast?.join

/-- `CChain::operator[]`. -/
def get (c : CChain) (nHeight : Nat) : Option Ptr := c.vChain[nHeight]?.join

def contains (t : BlockIndex) (c : CChain) (p : Ptr) : Bool := c.get (t.nHeight p) == some p

/-- `std::vector::resize`. -/
def resize (v : List (Option Ptr)) (n : Nat) : List (Option Ptr) := v.take n ++ List.replicate (n - v.length) none

/-- The loop of `SetTip`. -/
def setTipLoop (t : BlockIndex) : List Ptr → List (Option Ptr) → List (Option Ptr)
  | [], v => v
  | p :: ps, v => if v[t.nHeight p]? = some (some p) then v else setTipLoop t ps (v.set (t.nHeight p) (some p))

def setTip (t : BlockIndex) (c : CChain) (pindex : Option Ptr) : CChain :=
  match pindex with
  | none => ⟨[]⟩
  | some p => ⟨setTipLoop t (t.path p) (resize c.vChain (t.nHeight p + 1))⟩

/-- `CChain::FindFork`: the last common block of the chain and an entry. -/
def findFork (t : BlockIndex) (c : CChain) (p : Ptr) : Option Ptr :=
  -- `Height()` is -1 for the empty chain
  if c.vChain.length ≤ t.nHeight p then
    match c.vChain.length with
    | 0 => none
    | n + 1 =>
      match t.getAncestor p n with
      | none => none
      | some q => (t.path q).find? (c.contains t)
  else (t.path p).find? (c.contains t)

end CChain

/-! ## The state -/

/-- The chain variables of `main.cpp`. `nCalls` counts the calls of the oracle. -/
structure ChainState where
  index : BlockIndex
  status : Ptr → BlockStatus
  chainActive : CChain
  setBlockIndexCandidates : List Ptr
  mapBlocksUnlinked : List (Ptr × Ptr)
  nBlockSequenceId : Nat
  pindexBestInvalid : Option Ptr
  pindexBestHeader : Option Ptr
  nCalls : Nat

/-- The results of `ConnectBlock`: valid, a broken consensus rule, or a system error. -/
inductive ConnectResult where
  | valid
  | invalid
  | error
deriving DecidableEq, Repr

/-- What `ConnectBlock` and `DisconnectBlock` return for a block when they are called for the `n`-th time. -/
structure Oracle where
  connect : Nat → Ptr → ConnectResult
  disconnect : Nat → Ptr → Bool

namespace ChainState

variable (s : ChainState)

/-- The state with another status for `p`. -/
def setStatus (p : Ptr) (f : BlockStatus → BlockStatus) : ChainState :=
  { s with status := Function.update s.status p (f (s.status p)) }

def insertCandidate (p : Ptr) : ChainState :=
  { s with setBlockIndexCandidates :=
      if p ∈ s.setBlockIndexCandidates then s.setBlockIndexCandidates else p :: s.setBlockIndexCandidates }

def eraseCandidates (l : List Ptr) : ChainState :=
  { s with setBlockIndexCandidates := s.setBlockIndexCandidates.filter (· ∉ l) }

def tip : Option Ptr := s.chainActive.tip

/-- `CBlockIndexWorkComparator`: most work first, then the earliest received, then the address. -/
def workLess (pa pb : Ptr) : Bool :=
  if s.index.work pb < s.index.work pa then false
  else if s.index.work pa < s.index.work pb then true
  else if (s.status pa).nSequenceId < (s.status pb).nSequenceId then false
  else if (s.status pb).nSequenceId < (s.status pa).nSequenceId then true
  else if pa < pb then false
  else if pb < pa then true
  else false

/-! ## New headers and data -/

/-- `AddToBlockIndex`: the entry of the block, made at the address `new` unless the hash is known. -/
def addToBlockIndex (new : Ptr) (block : CBlockHeader) : Ptr × ChainState :=
  match s.index.find block.hash with
  | some p => (p, s)
  | none =>
    let index := s.index.add new block
    let better := match s.pindexBestHeader with
      | none => true
      | some h => decide (index.work h < index.work new)
    (new, { s with
      index := index
      status := Function.update s.status new (BlockStatus.init.raiseValidity BLOCK_VALID_TREE)
      pindexBestHeader := if better then some new else s.pindexBestHeader })

/-- `nChainTx` of the parent, or 0. -/
def parentChainTx (p : Ptr) : Nat :=
  match s.index.pprev p with
  | none => 0
  | some q => (s.status q).nChainTx

/-- The body of the loop of `ReceivedBlockTransactions` for one entry, but for the queue. -/
def linkEntry (p : Ptr) : ChainState :=
  let s₁ := { s.setStatus p (fun st =>
      { st with nChainTx := (s.parentChainTx p + st.nTx) % 2 ^ 32, nSequenceId := s.nBlockSequenceId }) with
    nBlockSequenceId := (s.nBlockSequenceId + 1) % 2 ^ 32 }
  let s₂ := match s₁.tip with
    | none => s₁.insertCandidate p
    | some tip => if s₁.workLess p tip then s₁ else s₁.insertCandidate p
  { s₂ with mapBlocksUnlinked := s₂.mapBlocksUnlinked.filter (·.1 ≠ p) }

/-- The entries that wait for `p`. -/
def waiting (p : Ptr) : List Ptr := (s.mapBlocksUnlinked.filter (·.1 = p)).map Prod.snd

end ChainState

/-- The loop of `ReceivedBlockTransactions` over the queue. Each round takes one entry off the queue and moves entries
from `mapBlocksUnlinked` to it, so `queue.length + mapBlocksUnlinked.length` rounds are enough. -/
def linkQueue : Nat → List Ptr → ChainState → ChainState
  | 0, _, s => s
  | _ + 1, [], s => s
  | fuel + 1, p :: queue, s => linkQueue fuel (queue ++ s.waiting p) (s.linkEntry p)

namespace ChainState

variable (s : ChainState)

/-- `ReceivedBlockTransactions`, for a block with `nVtx` transactions. -/
def receivedBlockTransactions (pindexNew : Ptr) (nVtx : Nat) : ChainState :=
  let s₁ := s.setStatus pindexNew fun st => st.received nVtx
  match s₁.index.pprev pindexNew with
  | none => linkQueue (1 + s₁.mapBlocksUnlinked.length) [pindexNew] s₁
  | some pprev =>
    if (s₁.status pprev).nChainTx ≠ 0 then linkQueue (1 + s₁.mapBlocksUnlinked.length) [pindexNew] s₁
    else if (s₁.status pprev).isValid BLOCK_VALID_TREE then
      { s₁ with mapBlocksUnlinked := s₁.mapBlocksUnlinked ++ [(pprev, pindexNew)] }
    else s₁

/-! ## Failed blocks -/

/-- `InvalidChainFound`, but for its log lines. -/
def invalidChainFound (pindexNew : Ptr) : ChainState :=
  match s.pindexBestInvalid with
  | none => { s with pindexBestInvalid := some pindexNew }
  | some b => if s.index.work b < s.index.work pindexNew then { s with pindexBestInvalid := some pindexNew } else s

/-- `InvalidBlockFound`, when the block is not corrupted. -/
def invalidBlockFound (pindex : Ptr) : ChainState :=
  ((s.setStatus pindex fun st => { st with failedValid := true }).eraseCandidates [pindex]).invalidChainFound pindex

/-! ## The chain with the most work -/

/-- The last element of `setBlockIndexCandidates`. -/
def bestCandidate : Option Ptr :=
  s.setBlockIndexCandidates.foldl
    (fun best p => match best with
      | none => some p
      | some q => if s.workLess q p then some p else some q) none

/-- The entries from `p` down to the active chain. -/
def branch (p : Ptr) : List Ptr := (s.index.path p).takeWhile fun q => !s.chainActive.contains s.index q

/-- A block that cannot be connected: failed, or without data. -/
def unusable (p : Ptr) : Bool := (s.status p).failed || !(s.status p).haveData

/-- The assertion in the loop of `FindMostWorkChain`. -/
def linked (p : Ptr) : Bool := decide ((s.status p).nChainTx ≠ 0) || s.index.nHeight p == 0

/-- `FindMostWorkChain`, when `pindexTest` on the branch of `pindexNew` is unusable: remove the branch above it from
the set. -/
def removeBranch (pindexNew pindexTest : Ptr) : ChainState :=
  let failedChain := (s.status pindexTest).failed
  let above := (s.branch pindexNew).takeWhile (· ≠ pindexTest)
  let s₁ := if failedChain then s.invalidChainFound pindexNew else s
  let s₂ := if failedChain then
      { s₁ with status := fun p => if p ∈ above then { s₁.status p with failedChild := true } else s₁.status p }
    else
      { s₁ with mapBlocksUnlinked := s₁.mapBlocksUnlinked ++ above.filterMap fun p =>
          (s₁.index.pprev p).map fun q => (q, p) }
  s₂.eraseCandidates (pindexTest :: above)

end ChainState

/-- `FindMostWorkChain`. Each round but the last removes a candidate, so as many rounds as candidates are enough. -/
def findMostWorkLoop : Nat → ChainState → Option (Option Ptr × ChainState)
  | 0, s => some (none, s)
  | fuel + 1, s =>
    match s.bestCandidate with
    | none => some (none, s)
    | some pindexNew =>
      match (s.branch pindexNew).find? s.unusable with
      | none => if (s.branch pindexNew).all s.linked then some (some pindexNew, s) else none
      | some pindexTest =>
        if ((s.branch pindexNew).takeWhile (· ≠ pindexTest)).all s.linked && s.linked pindexTest then
          findMostWorkLoop fuel (s.removeBranch pindexNew pindexTest)
        else none

def findMostWorkChain (s : ChainState) : Option (Option Ptr × ChainState) :=
  findMostWorkLoop s.setBlockIndexCandidates.length s

namespace ChainState

variable (s : ChainState)

/-- `PruneBlockIndexCandidates`: the candidates are sorted, so all that are worse than the tip go. -/
def pruneBlockIndexCandidates : Option ChainState :=
  match s.tip with
  | none => none
  | some tip =>
    let left := s.setBlockIndexCandidates.filter fun p => !s.workLess p tip
    if left.isEmpty then none else some { s with setBlockIndexCandidates := left }

/-! ## Moving the tip -/

/-- `DisconnectTip`: whether it succeeds, and the state. Disconnecting the genesis block follows a null pointer. -/
def disconnectTip (orc : Oracle) : Option (Bool × ChainState) :=
  match s.tip with
  | none => none
  | some pindexDelete =>
    let s₁ := { s with nCalls := s.nCalls + 1 }
    if orc.disconnect s.nCalls pindexDelete then
      match s.index.pprev pindexDelete with
      | none => none
      | some pprev => some (true, { s₁ with chainActive := s.chainActive.setTip s.index (some pprev) })
    else some (false, s₁)

/-- `ConnectTip`. The genesis block is connected without raising its validity. -/
def connectTip (orc : Oracle) (pindexNew : Ptr) : Option (ConnectResult × ChainState) :=
  if s.index.pprev pindexNew = s.tip then
    let s₁ := { s with nCalls := s.nCalls + 1 }
    match orc.connect s.nCalls pindexNew with
    | .valid =>
      let s₂ := if s.index.pprev pindexNew = none then s₁
        else s₁.setStatus pindexNew fun st => { st with haveUndo := true }.raiseValidity BLOCK_VALID_SCRIPTS
      some (.valid, { s₂ with chainActive := s.chainActive.setTip s.index (some pindexNew) })
    | .invalid => some (.invalid, s₁.invalidBlockFound pindexNew)
    | .error => some (.error, s₁)
  else none

end ChainState

/-- The first loop of `ActivateBestChainStep`: disconnect down to the fork. -/
def disconnectTo (orc : Oracle) (pindexFork : Option Ptr) : Nat → ChainState → Option (Bool × ChainState)
  | 0, s => some (true, s)
  | fuel + 1, s =>
    if s.tip = none ∨ s.tip = pindexFork then some (true, s)
    else
      match s.disconnectTip orc with
      | none => none
      | some (false, s') => some (false, s')
      | some (true, s') => disconnectTo orc pindexFork fuel s'

/-- How the loop over `vpindexToConnect` ends: all connected, left early, or a system error. -/
inductive BatchResult where
  | through
  | left
  | error
deriving DecidableEq, Repr

/-- The loop of `ActivateBestChainStep` over a batch of blocks, the lowest first. -/
def connectBatch (orc : Oracle) (pindexOldTip : Option Ptr) (back : Ptr) :
    List Ptr → ChainState → Option (BatchResult × ChainState)
  | [], s => some (.through, s)
  | p :: ps, s =>
    match s.connectTip orc p with
    | none => none
    | some (.error, s') => some (.error, s')
    | some (.invalid, s') => some (.left, s'.invalidChainFound back)
    | some (.valid, s') =>
      match s'.pruneBlockIndexCandidates with
      | none => none
      | some s'' =>
        if (match pindexOldTip with
            | none => true
            | some old => decide (s''.index.work old < s''.index.work p))
        then some (.left, s'')
        else connectBatch orc pindexOldTip back ps s''

/-- The loop of `ActivateBestChainStep` over batches of 32 blocks; `next` is `nHeight + 1`. -/
def connectBatches (orc : Oracle) (pindexOldTip : Option Ptr) (pindexMostWork : Ptr) :
    Nat → Nat → ChainState → Option (Bool × ChainState)
  | 0, _, s => some (true, s)
  | fuel + 1, next, s =>
    if next = s.index.nHeight pindexMostWork + 1 then some (true, s)
    else
      let nTargetHeight := min (next + 31) (s.index.nHeight pindexMostWork)
      match s.index.getAncestor pindexMostWork nTargetHeight with
      | none => none
      | some pindexIter =>
        let vpindexToConnect := (s.index.path pindexIter).takeWhile fun q => s.index.nHeight q + 1 ≠ next
        match connectBatch orc pindexOldTip (vpindexToConnect.getLastD pindexIter) vpindexToConnect.reverse s with
        | none => none
        | some (.error, s') => some (false, s')
        | some (.left, s') => some (true, s')
        | some (.through, s') => connectBatches orc pindexOldTip pindexMostWork fuel (nTargetHeight + 1) s'

def activateBestChainStep (orc : Oracle) (pindexMostWork : Ptr) (s : ChainState) : Option (Bool × ChainState) :=
  let pindexFork := s.chainActive.findFork s.index pindexMostWork
  match disconnectTo orc pindexFork s.chainActive.vChain.length s with
  | none => none
  | some (false, s') => some (false, s')
  | some (true, s') =>
    let next := match pindexFork with
      | none => 0
      | some f => s.index.nHeight f + 1
    connectBatches orc s.tip pindexMostWork (s.index.nHeight pindexMostWork + 1) next s'

/-- How `ActivateBestChain` ends: it returns true or false, an assertion fails, or the rounds do not suffice. -/
inductive Activation where
  | done (s : ChainState)
  | failed (s : ChainState)
  | aborted
  | running

/-- `ActivateBestChain`, for at most `fuel` rounds of its loop. -/
def activateBestChain (orc : Oracle) : Nat → ChainState → Activation
  | 0, _ => .running
  | fuel + 1, s =>
    match findMostWorkChain s with
    | none => .aborted
    | some (none, s') => .done s'
    | some (some pindexMostWork, s') =>
      if s'.tip = some pindexMostWork then .done s'
      else
        match activateBestChainStep orc pindexMostWork s' with
        | none => .aborted
        | some (false, s'') => .failed s''
        | some (true, s'') => if s''.tip = some pindexMostWork then .done s'' else activateBestChain orc fuel s''

/-! ## Invalidating and reconsidering by hand -/

/-- The loop of `InvalidateBlock`: disconnect and mark until the block is off the chain. -/
def invalidateLoop (orc : Oracle) (pindex : Ptr) : Nat → ChainState → Option (Bool × ChainState)
  | 0, s => some (true, s)
  | fuel + 1, s =>
    if s.chainActive.contains s.index pindex then
      match s.tip with
      | none => none
      | some pindexWalk =>
        match ((s.setStatus pindexWalk fun st => { st with failedChild := true }).eraseCandidates [pindexWalk]).disconnectTip
            orc with
        | none => none
        | some (false, s') => some (false, s')
        | some (true, s') => invalidateLoop orc pindex fuel s'
    else some (true, s)

namespace ChainState

/-- The candidates that `InvalidateBlock` adds again. -/
def readded (s : ChainState) (tip : Ptr) : List Ptr :=
  s.index.mapBlockIndex.filter fun q =>
    (s.status q).isValid BLOCK_VALID_TRANSACTIONS && decide ((s.status q).nChainTx ≠ 0) && !s.workLess q tip

def invalidateBlock (s : ChainState) (orc : Oracle) (pindex : Ptr) : Option (Bool × ChainState) :=
  let s₁ := (s.setStatus pindex fun st => { st with failedValid := true }).eraseCandidates [pindex]
  match invalidateLoop orc pindex s₁.chainActive.vChain.length s₁ with
  | none => none
  | some (false, s₂) => some (false, s₂)
  | some (true, s₂) =>
    match s₂.tip with
    | none => none
    | some tip => some (true, ((s₂.readded tip).foldl insertCandidate s₂).invalidChainFound pindex)

/-- The entries whose failure `ReconsiderBlock` clears in its first loop: `pindex` and its descendants. -/
def reconsidered (s : ChainState) (pindex : Ptr) : List Ptr :=
  s.index.mapBlockIndex.filter fun q => !(s.status q).isValid BLOCK_VALID_TRANSACTIONS &&
    s.index.getAncestor q (s.index.nHeight pindex) == some pindex

/-- The state after the first loop of `ReconsiderBlock`, but for the candidates. -/
def cleared (s : ChainState) (pindex : Ptr) : ChainState :=
  { s with
    status := fun q => if q ∈ s.reconsidered pindex then (s.status q).clearFailed else s.status q
    pindexBestInvalid := match s.pindexBestInvalid with
      | none => none
      | some b => if b ∈ s.reconsidered pindex then none else some b }

/-- The candidates that the first loop of `ReconsiderBlock` compares with the tip. -/
def compared (s : ChainState) (pindex : Ptr) : List Ptr :=
  (s.reconsidered pindex).filter fun q =>
    ((s.cleared pindex).status q).isValid BLOCK_VALID_TRANSACTIONS &&
      decide (((s.cleared pindex).status q).nChainTx ≠ 0)

/-- The second loop of `ReconsiderBlock`: remove the invalidity flag from all ancestors too. -/
def clearAncestors (s : ChainState) (pindex : Ptr) : ChainState :=
  { s with status := fun q => if q ∈ s.index.path pindex then (s.status q).clearFailed else s.status q }

def reconsiderBlock (s : ChainState) (pindex : Ptr) : Option ChainState :=
  match s.tip with
  | none => if (s.compared pindex).isEmpty then some ((s.cleared pindex).clearAncestors pindex) else none
  | some tip =>
    some ((((s.compared pindex).filter ((s.cleared pindex).workLess tip)).foldl insertCandidate
      (s.cleared pindex)).clearAncestors pindex)

/-! ## What `AddToBlockIndex` does -/

/-- `s'` is `s` with a new entry at `new` for the block. -/
structure Added (s : ChainState) (new : Ptr) (block : CBlockHeader) (s' : ChainState) : Prop where
  fresh : new ∉ s.index.mapBlockIndex
  index : s'.index = s.index.add new block
  mapBlockIndex : s'.index.mapBlockIndex = new :: s.index.mapBlockIndex
  entry_new : s'.index.entry new = s.index.newEntry block
  status_new : s'.status new = ⟨BLOCK_VALID_TREE, false, false, false, false, 0, 0, 0⟩
  status_old : ∀ p ∈ s.index.mapBlockIndex, s'.status p = s.status p
  chainActive : s'.chainActive = s.chainActive
  setBlockIndexCandidates : s'.setBlockIndexCandidates = s.setBlockIndexCandidates
  mapBlocksUnlinked : s'.mapBlocksUnlinked = s.mapBlocksUnlinked

theorem addToBlockIndex_added {s : ChainState} {new : Ptr} {block : CBlockHeader}
    (hnew : new ∉ s.index.mapBlockIndex) (hhash : s.index.find block.hash = none) :
    Added s new block (s.addToBlockIndex new block).2 := by
  obtain ⟨hmap, hentry⟩ := BlockIndex.add_of_fresh hnew hhash
  unfold addToBlockIndex
  rw [hhash]
  refine ⟨hnew, rfl, hmap, ?_, ?_, ?_, rfl, rfl, rfl⟩
  · show (s.index.add new block).entry new = _
    rw [hentry, Function.update_self]
  · show Function.update s.status new (BlockStatus.init.raiseValidity BLOCK_VALID_TREE) new = _
    rw [Function.update_self]
    rfl
  · intro p hp
    refine Function.update_of_ne ?_ _ _
    rintro rfl
    exact hnew hp

namespace Added

variable {s s' : ChainState} {new : Ptr} {block : CBlockHeader} {p : Ptr}

theorem pprev (h : Added s new block s') (hp : p ∈ s.index.mapBlockIndex) : s'.index.pprev p = s.index.pprev p := by
  rw [h.index, BlockIndex.pprev_add hp]

theorem isAnc (h : Added s new block s') {a : Ptr} (hp : p ∈ s.index.mapBlockIndex) :
    s'.index.IsAnc a p ↔ s.index.IsAnc a p := by
  rw [h.index]
  exact BlockIndex.anc_add hp

theorem pprev_new (h : Added s new block s') {q : Ptr} (hq : s'.index.pprev new = some q) :
    q ∈ s.index.mapBlockIndex ∧ s.index.find block.hashPrevBlock = some q := by
  unfold BlockIndex.pprev at hq
  rw [h.entry_new] at hq
  obtain ⟨hq, hf, -⟩ := BlockIndex.newEntry_some hq
  exact ⟨hq, hf⟩

end Added

end ChainState

end DigiWage
