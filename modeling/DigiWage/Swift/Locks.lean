import DigiWage.Script.Basic
import Mathlib.Data.List.AList

/-!
# Transaction locks

The messages `ix` and `txlvote` of `ProcessMessageSwiftTX`, the functions of `swifttx.cpp` that they call, and
`CleanTransactionLocksList`.

* The maps are the globals of `swifttx.cpp`. A map that is only looked up is a function to options; `mapTxLocks`, over
  which the cleaning goes, is an association list. A lock stands under its `txHash`.
* `SwiftEnv` is what the code asks of the rest of the node while it treats one message. The node has at least the genesis
  block, so that `chainActive.Tip()` is not null.
* `mapUnknownVotes` decides about relaying only, and `nTimeout` is read by the wallet only.
-/

namespace DigiWage

/-- The value that a 64-bit integer gets in an `int`. -/
def toInt32 (n : Int) : Int := n.bmod (2 ^ 32)

/-! ## Scripts -/

namespace CScript

/-- The loop of `IsNormalPaymentScript` at the `i`-th opcode. It ends at the sixth. -/
def normalLoop : Nat → Nat → List UInt8 → Bool
  | 0, _, _ => false
  | _ + 1, _, [] => true
  | fuel + 1, i, pc =>
    let (opcode, rest) := getOp pc
    if i = 0 ∧ opcode ≠ OP_DUP then false
    else if i = 1 ∧ opcode ≠ OP_HASH160 then false
    else if i = 3 ∧ opcode ≠ OP_EQUALVERIFY then false
    else if i = 4 ∧ opcode ≠ OP_CHECKSIG then false
    else if i = 5 then false
    else normalLoop fuel (i + 1) rest

def isNormalPaymentScript (s : CScript) : Bool := s.bytes.length == 25 && normalLoop 6 0 s.bytes

end CScript

/-- The transaction that `CTransaction()` makes; its hash is not computed. -/
def CTransaction.null : CTransaction := ⟨0, 1, [], [], 0⟩

/-- The outputs that a transaction spends. -/
def CTransaction.prevouts (tx : CTransaction) : List COutPoint := tx.vin.map CTxIn.prevout

/-! ## Votes and locks -/

def SWIFTTX_SIGNATURES_REQUIRED : Int := 6
def SWIFTTX_SIGNATURES_TOTAL : Int := 10

structure CConsensusVote where
  vinMasternode : CTxIn
  txHash : Uint256
  nBlockHeight : Int
  nMessVersion : Int
  vchSig : List UInt8
deriving DecidableEq, Repr

namespace CConsensusVote

/-- The collateral of the masternode that votes. -/
def masternode (v : CConsensusVote) : COutPoint := v.vinMasternode.prevout

def getHash (v : CConsensusVote) : Uint256 := v.masternode.hash + BitVec.ofNat 256 v.masternode.n + v.txHash

end CConsensusVote

structure CTransactionLock where
  nBlockHeight : Int
  vecConsensusVotes : List CConsensusVote
  nExpiration : Int
deriving DecidableEq, Repr

namespace CTransactionLock

def addSignature (lock : CTransactionLock) (cv : CConsensusVote) : CTransactionLock :=
  { lock with vecConsensusVotes := lock.vecConsensusVotes ++ [cv] }

/-- `CTransactionLock::CountSignatures`: only the votes for the height of the lock count. -/
def countSignatures (lock : CTransactionLock) : Int :=
  if lock.nBlockHeight = 0 then -1 else lock.vecConsensusVotes.countP fun v => v.nBlockHeight == lock.nBlockHeight

/-- The lock has all the signatures it needs. -/
def complete (lock : CTransactionLock) : Bool := decide (SWIFTTX_SIGNATURES_REQUIRED ≤ lock.countSignatures)

end CTransactionLock

/-- What the code asks of the rest of the node. -/
structure SwiftEnv where
  /-- `GetTime()`. -/
  now : Int
  fLiteMode : Bool
  isBlockchainSynced : Bool
  /-- `SPORK_2_SWIFTTX` is active. -/
  swiftTx : Bool
  /-- `GetSporkValue(SPORK_5_MAX_VALUE)`. -/
  maxValue : Int
  tipHeight : Int
  /-- `nHeight` of the coins of a transaction, in the chain or in the mempool. -/
  coinsHeight : Uint256 → Option Int
  getTransaction : Uint256 → Option CTransaction
  /-- `AcceptToMemoryPool` but for the locked inputs. -/
  acceptToMemoryPool : CTransaction → Bool
  /-- `GetMasternodeRank` for a collateral and a height; -1 when the masternode is not ranked. -/
  getMasternodeRank : COutPoint → Int → Int
  checkSignature : CConsensusVote → Bool
  /-- `activeMasternode.vin` on a masternode. -/
  activeMasternode : Option CTxIn
  /-- `nMessVersion` and `vchSig` after `Sign`, if it does not fail. -/
  sign : CTxIn → Uint256 → Int → Option (Int × List UInt8)

namespace SwiftEnv

variable (env : SwiftEnv)

/-- `ProcessMessageSwiftTX` goes on to the commands. -/
def listens : Bool := !env.fLiteMode && env.swiftTx && env.isBlockchainSynced

/-- The loop of `IsIXTXValid` over the inputs: `nValueIn` and `missingTx`. -/
def valueIn : List CTxIn → Int × Bool
  | [] => (0, false)
  | i :: vin =>
    let (nValueIn, missingTx) := valueIn vin
    match env.getTransaction i.prevout.hash with
    | none => (nValueIn, true)
    | some tx2 => (nValueIn + ((tx2.vout[i.prevout.n]?).map CTxOut.nValue).getD 0, missingTx)

def isIXTXValid (tx : CTransaction) : Bool :=
  let nValueOut := (tx.vout.map CTxOut.nValue).sum
  let (nValueIn, missingTx) := env.valueIn tx.vin
  if tx.vout.length < 1 then false
  else if tx.nLockTime ≠ 0 then false
  else if env.maxValue * COIN < nValueOut then false
  else if missingTx then true
  else !decide (nValueIn - nValueOut < COIN / 100)

/-- The checks of `ix` before it makes a lock. -/
def isValidRequest (tx : CTransaction) : Bool :=
  env.isIXTXValid tx && tx.vout.all fun o => o.scriptPubKey.isNormalPaymentScript || o.scriptPubKey.isUnspendable

def getInputAge (vin : CTxIn) : Int :=
  match env.coinsHeight vin.prevout.hash with
  | none => -1
  | some nHeight => if nHeight < 0 then 0 else env.tipHeight + 1 - nHeight

/-- The height of the lock in `CreateNewLock`, from the age of the first input; `none` when an input is too new. -/
def lockHeight (tx : CTransaction) : Option Int :=
  if tx.vin.any fun i => decide (env.getInputAge i < 5) then none
  else some (env.tipHeight - ((tx.vin.head?.map env.getInputAge).getD 0) + 4)

/-- The masternode is in the top `SWIFTTX_SIGNATURES_TOTAL`. -/
def topRanked (masternode : COutPoint) (nBlockHeight : Int) : Bool :=
  let n := env.getMasternodeRank masternode nBlockHeight
  n != -1 && decide (n ≤ SWIFTTX_SIGNATURES_TOTAL)

/-- The checks of `ProcessConsensusVote`. -/
def isValidVote (ctx : CConsensusVote) : Bool :=
  env.topRanked ctx.masternode ctx.nBlockHeight && env.checkSignature ctx

/-- `nExpiration` of a new lock. -/
def newExpiration : Int := toInt32 (env.now + 60 * 60)

/-- The vote that `DoConsensusVote` casts. -/
def ownVote (txHash : Uint256) (nBlockHeight : Int) : Option CConsensusVote :=
  match env.activeMasternode with
  | none => none
  | some vin =>
    if !env.topRanked vin.prevout nBlockHeight then none
    else
      match env.sign vin txHash nBlockHeight with
      | none => none
      | some (nMessVersion, vchSig) =>
        let ctx : CConsensusVote := ⟨vin, txHash, nBlockHeight, nMessVersion, vchSig⟩
        if env.checkSignature ctx then some ctx else none

end SwiftEnv

/-! ## The maps -/

/-- The globals of `swifttx.cpp`. -/
structure SwiftTX where
  mapTxLockReq : Uint256 → Option CTransaction
  mapTxLockReqRejected : Uint256 → Option CTransaction
  mapTxLockVote : Uint256 → Option CConsensusVote
  mapTxLocks : AList fun _ : Uint256 => CTransactionLock
  mapLockedInputs : COutPoint → Option Uint256

/-- The loop that locks the inputs of a transaction that are not locked. -/
def lockInputs (tx : CTransaction) (txHash : Uint256) (mapLockedInputs : COutPoint → Option Uint256) :
    COutPoint → Option Uint256 :=
  fun o => (mapLockedInputs o).or (if o ∈ tx.prevouts then some txHash else none)

namespace SwiftTX

def empty : SwiftTX := ⟨fun _ => none, fun _ => none, fun _ => none, ∅, fun _ => none⟩

variable (env : SwiftEnv) (s : SwiftTX)

/-- `mapTxLocks[txHash].nExpiration = GetTime()`, when there is such a lock. -/
def expire (txHash : Uint256) : SwiftTX :=
  match s.mapTxLocks.lookup txHash with
  | none => s
  | some lock => { s with mapTxLocks := s.mapTxLocks.insert txHash { lock with nExpiration := toInt32 env.now } }

/-- The first lock of another transaction on an input. -/
def conflictingLock (tx : CTransaction) : Option Uint256 :=
  tx.prevouts.findSome? fun o => (s.mapLockedInputs o).filter fun h => h != tx.hash

def checkForConflictingLocks (tx : CTransaction) : Bool × SwiftTX :=
  match s.conflictingLock tx with
  | none => (false, s)
  | some h => (true, (s.expire env tx.hash).expire env h)

/-- `CreateNewLock`: the height, 0 when an input is too new. -/
def createNewLock (tx : CTransaction) : Int × SwiftTX :=
  match env.lockHeight tx with
  | none => (0, s)
  | some nBlockHeight =>
    let lock := match s.mapTxLocks.lookup tx.hash with
      | none => ⟨nBlockHeight, [], env.newExpiration⟩
      | some lock => { lock with nBlockHeight }
    (nBlockHeight, { s with mapTxLocks := s.mapTxLocks.insert tx.hash lock })

/-- `AcceptToMemoryPool`: a transaction with an input that another one locked is not accepted. -/
def acceptToMemoryPool (tx : CTransaction) : Bool := env.acceptToMemoryPool tx && (s.conflictingLock tx).isNone

def doConsensusVote (txHash : Uint256) (nBlockHeight : Int) : SwiftTX :=
  match env.ownVote txHash nBlockHeight with
  | none => s
  | some ctx => { s with mapTxLockVote := Function.update s.mapTxLockVote ctx.getHash (some ctx) }

/-- `ProcessConsensusVote` when the lock is complete. The map gets an empty request when there is none. -/
def completeLock (txHash : Uint256) : SwiftTX :=
  let tx := (s.mapTxLockReq txHash).getD .null
  let s₁ := { s with mapTxLockReq := Function.update s.mapTxLockReq txHash (some tx) }
  let (conflict, s₂) := s₁.checkForConflictingLocks env tx
  if conflict then s₂ else { s₂ with mapLockedInputs := lockInputs tx txHash s₂.mapLockedInputs }

/-- The lock of the transaction that a vote is for, a new one if there is none. -/
def voteLock (ctx : CConsensusVote) : CTransactionLock :=
  ((s.mapTxLocks.lookup ctx.txHash).getD ⟨0, [], env.newExpiration⟩).addSignature ctx

def processConsensusVote (ctx : CConsensusVote) : SwiftTX :=
  if !env.isValidVote ctx then s
  else
    let s₁ := { s with mapTxLocks := s.mapTxLocks.insert ctx.txHash (s.voteLock env ctx) }
    if (s.voteLock env ctx).complete then s₁.completeLock env ctx.txHash else s₁

/-- `ix` when the mempool takes the transaction. -/
def acceptRequest (tx : CTransaction) (nBlockHeight : Int) : SwiftTX :=
  let s₁ := s.doConsensusVote env tx.hash nBlockHeight
  { s₁ with mapTxLockReq := Function.update s₁.mapTxLockReq tx.hash (some tx) }

/-- `ix` when the mempool does not take the transaction. -/
def rejectRequest (tx : CTransaction) : SwiftTX :=
  let s₁ := { s with
    mapTxLockReqRejected := Function.update s.mapTxLockReqRejected tx.hash (some tx)
    mapLockedInputs := lockInputs tx tx.hash s.mapLockedInputs }
  if ((s₁.mapTxLocks.lookup tx.hash).map CTransactionLock.complete).getD false then
    let (conflict, s₂) := s₁.checkForConflictingLocks env tx
    if conflict then s₂ else { s₂ with mapTxLockReq := Function.update s₂.mapTxLockReq tx.hash (some tx) }
  else s₁

/-- The message goes on to make a lock. -/
def isNewRequest (tx : CTransaction) : Bool :=
  env.listens && (s.mapTxLockReq tx.hash).isNone && (s.mapTxLockReqRejected tx.hash).isNone && env.isValidRequest tx

/-- The message `ix`. -/
def ix (tx : CTransaction) : SwiftTX :=
  if !s.isNewRequest env tx then s
  else
    let (nBlockHeight, s₁) := s.createNewLock env tx
    if s₁.acceptToMemoryPool env tx then s₁.acceptRequest env tx nBlockHeight else s₁.rejectRequest env tx

/-- The message `txlvote`. -/
def txlvote (ctx : CConsensusVote) : SwiftTX :=
  if !env.listens then s
  else if (s.mapTxLockVote ctx.getHash).isSome then s
  else { s with mapTxLockVote := Function.update s.mapTxLockVote ctx.getHash (some ctx) }.processConsensusVote env ctx

/-- What `CleanTransactionLocksList` releases with an expired lock. -/
def release (txHash : Uint256) (lock : CTransactionLock) : SwiftTX :=
  match s.mapTxLockReq txHash with
  | none => s
  | some tx =>
    { s with
      mapLockedInputs := fun o => if o ∈ tx.prevouts then none else s.mapLockedInputs o
      mapTxLockReq := Function.update s.mapTxLockReq txHash none
      mapTxLockReqRejected := Function.update s.mapTxLockReqRejected txHash none
      mapTxLockVote := fun k => if k ∈ lock.vecConsensusVotes.map CConsensusVote.getHash then none else s.mapTxLockVote k }

/-- The loop of `CleanTransactionLocksList`. -/
def cleanLoop (now : Int) : List (Sigma fun _ : Uint256 => CTransactionLock) → SwiftTX → SwiftTX
  | [], s => s
  | ⟨txHash, lock⟩ :: rest, s =>
    if lock.nExpiration < now then
      let s₁ := s.release txHash lock
      cleanLoop now rest { s₁ with mapTxLocks := s₁.mapTxLocks.erase txHash }
    else cleanLoop now rest s

/-- `CleanTransactionLocksList`, at the time `now`. -/
def cleanTransactionLocksList (now : Int) : SwiftTX := cleanLoop now s.mapTxLocks.entries s

end SwiftTX

/-! ## What the functions change -/

namespace SwiftTX

variable {env : SwiftEnv} {s : SwiftTX} {tx : CTransaction} {ctx : CConsensusVote} {h : Uint256} {nBlockHeight : Int}

@[simp] theorem expire_mapTxLockReq : (s.expire env h).mapTxLockReq = s.mapTxLockReq := by
  unfold expire
  split <;> rfl

@[simp] theorem expire_mapTxLockVote : (s.expire env h).mapTxLockVote = s.mapTxLockVote := by
  unfold expire
  split <;> rfl

@[simp] theorem expire_mapLockedInputs : (s.expire env h).mapLockedInputs = s.mapLockedInputs := by
  unfold expire
  split <;> rfl

theorem expire_lookup (env : SwiftEnv) (s : SwiftTX) (h h' : Uint256) : ∃ e : CTransactionLock → Int,
    (s.expire env h).mapTxLocks.lookup h' = (s.mapTxLocks.lookup h').map fun l => { l with nExpiration := e l } := by
  unfold expire
  cases hl : s.mapTxLocks.lookup h with
  | none => exact ⟨fun l => l.nExpiration, by simp⟩
  | some lock =>
    by_cases hh : h' = h
    · subst hh
      exact ⟨fun _ => toInt32 env.now, by simp [hl]⟩
    · exact ⟨fun l => l.nExpiration, by simp [AList.lookup_insert_ne hh]⟩

theorem checkForConflictingLocks_fst : (s.checkForConflictingLocks env tx).1 = (s.conflictingLock tx).isSome := by
  unfold checkForConflictingLocks
  split <;> simp [*]

@[simp] theorem checkForConflictingLocks_mapTxLockReq :
    (s.checkForConflictingLocks env tx).2.mapTxLockReq = s.mapTxLockReq := by
  unfold checkForConflictingLocks
  split <;> simp

@[simp] theorem checkForConflictingLocks_mapTxLockVote :
    (s.checkForConflictingLocks env tx).2.mapTxLockVote = s.mapTxLockVote := by
  unfold checkForConflictingLocks
  split <;> simp

@[simp] theorem checkForConflictingLocks_mapLockedInputs :
    (s.checkForConflictingLocks env tx).2.mapLockedInputs = s.mapLockedInputs := by
  unfold checkForConflictingLocks
  split <;> simp

theorem checkForConflictingLocks_lookup (h : Uint256) : ∃ e : CTransactionLock → Int,
    (s.checkForConflictingLocks env tx).2.mapTxLocks.lookup h =
      (s.mapTxLocks.lookup h).map fun l => { l with nExpiration := e l } := by
  unfold checkForConflictingLocks
  split
  · exact ⟨fun l => l.nExpiration, by simp⟩
  · rename_i h₂ _
    obtain ⟨e₁, h₁⟩ := expire_lookup env s tx.hash h
    obtain ⟨e₂, h₂⟩ := expire_lookup env (s.expire env tx.hash) h₂ h
    exact ⟨fun l => e₂ { l with nExpiration := e₁ l }, by rw [h₂, h₁, Option.map_map]; rfl⟩

theorem conflictingLock_congr {s' : SwiftTX} (heq : s'.mapLockedInputs = s.mapLockedInputs) :
    s'.conflictingLock tx = s.conflictingLock tx := by
  unfold conflictingLock
  rw [heq]

theorem conflictingLock_lockInputs {s' : SwiftTX} (heq : s'.mapLockedInputs = lockInputs tx tx.hash s.mapLockedInputs) :
    s'.conflictingLock tx = s.conflictingLock tx := by
  have hfun : (fun o => (s'.mapLockedInputs o).filter fun h => h != tx.hash) =
      fun o => (s.mapLockedInputs o).filter fun h => h != tx.hash := by
    funext o
    rw [heq]
    unfold lockInputs
    cases s.mapLockedInputs o with
    | none => by_cases ho : o ∈ tx.prevouts <;> simp [ho]
    | some h => rfl
  unfold conflictingLock
  rw [hfun]

theorem eq_hash_of_conflictingLock (hnone : s.conflictingLock tx = none) {o : COutPoint} (ho : o ∈ tx.prevouts)
    (hlock : s.mapLockedInputs o = some h) : h = tx.hash := by
  have hfilter := List.findSome?_eq_none_iff.mp hnone o ho
  rw [hlock] at hfilter
  by_contra hne
  simp [hne] at hfilter

@[simp] theorem doConsensusVote_mapTxLockReq :
    (s.doConsensusVote env h nBlockHeight).mapTxLockReq = s.mapTxLockReq := by
  unfold doConsensusVote
  split <;> rfl

@[simp] theorem doConsensusVote_mapTxLocks : (s.doConsensusVote env h nBlockHeight).mapTxLocks = s.mapTxLocks := by
  unfold doConsensusVote
  split <;> rfl

@[simp] theorem doConsensusVote_mapLockedInputs :
    (s.doConsensusVote env h nBlockHeight).mapLockedInputs = s.mapLockedInputs := by
  unfold doConsensusVote
  split <;> rfl

/-! ### A rejected request -/

/-- The lock of the transaction is complete. -/
def hasCompleteLock (s : SwiftTX) (h : Uint256) : Bool := ((s.mapTxLocks.lookup h).map CTransactionLock.complete).getD false

@[simp] theorem completeLock_mapTxLockReq : (s.completeLock env h).mapTxLockReq =
    Function.update s.mapTxLockReq h (some ((s.mapTxLockReq h).getD .null)) := by
  unfold completeLock
  dsimp only
  split <;> simp

@[simp] theorem completeLock_mapTxLockVote : (s.completeLock env h).mapTxLockVote = s.mapTxLockVote := by
  unfold completeLock
  dsimp only
  split <;> simp

theorem completeLock_mapLockedInputs : (s.completeLock env h).mapLockedInputs =
    if (s.conflictingLock ((s.mapTxLockReq h).getD .null)).isSome then s.mapLockedInputs
    else lockInputs ((s.mapTxLockReq h).getD .null) h s.mapLockedInputs := by
  unfold completeLock
  dsimp only
  rw [checkForConflictingLocks_fst]
  have hsame : ∀ req tx, conflictingLock { s with mapTxLockReq := req } tx = s.conflictingLock tx := fun _ _ => rfl
  rw [hsame]
  split <;> simp

theorem completeLock_lookup (env : SwiftEnv) (s : SwiftTX) (h h' : Uint256) :
    ∃ e : CTransactionLock → Int, (s.completeLock env h).mapTxLocks.lookup h' =
      (s.mapTxLocks.lookup h').map fun l => { l with nExpiration := e l } := by
  unfold completeLock
  dsimp only
  split
  · exact checkForConflictingLocks_lookup h'
  · exact checkForConflictingLocks_lookup h'

end SwiftTX

/-! ### A vote -/

namespace SwiftTX

/-- The key of a vote is in `mapTxLockVote`. -/
def seen (s : SwiftTX) (k : Uint256) : Bool := (s.mapTxLockVote k).isSome

/-- The maps with the vote, and with its lock. -/
def withVote (env : SwiftEnv) (s : SwiftTX) (ctx : CConsensusVote) : SwiftTX :=
  { s with
    mapTxLockVote := Function.update s.mapTxLockVote ctx.getHash (some ctx)
    mapTxLocks := s.mapTxLocks.insert ctx.txHash (s.voteLock env ctx) }

variable {env : SwiftEnv} {s : SwiftTX} {ctx : CConsensusVote}

theorem txlvote_of_valid (hlisten : env.listens = true) (hseen : s.seen ctx.getHash = false)
    (hvalid : env.isValidVote ctx = true) : s.txlvote env ctx =
      if (s.voteLock env ctx).complete then (s.withVote env ctx).completeLock env ctx.txHash else s.withVote env ctx := by
  unfold seen at hseen
  unfold txlvote processConsensusVote
  rw [hlisten, hseen, hvalid]
  rfl

end SwiftTX

/-! ## Runs -/

/-- What happens to the maps. -/
inductive SwiftOp where
  | ix (env : SwiftEnv) (tx : CTransaction)
  | txlvote (env : SwiftEnv) (ctx : CConsensusVote)
  | doConsensusVote (env : SwiftEnv) (txHash : Uint256) (nBlockHeight : Int)
  | clean (now : Int)

namespace SwiftTX

def step (s : SwiftTX) : SwiftOp → SwiftTX
  | .ix env tx => s.ix env tx
  | .txlvote env ctx => s.txlvote env ctx
  | .doConsensusVote env txHash nBlockHeight => s.doConsensusVote env txHash nBlockHeight
  | .clean now => s.cleanTransactionLocksList now

def run (s : SwiftTX) (ops : List SwiftOp) : SwiftTX := ops.foldl step s

end SwiftTX

end DigiWage
