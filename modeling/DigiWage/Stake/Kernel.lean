import DigiWage.Stake.Modifier
import DigiWage.Hash

/-!
# The stake kernel

`CheckProofOfStake` of `kernel.cpp`, with `CPivStake` of `stakeinput.cpp`, `CStakeKernel`, `GetOldModifier` and
`GetTransaction`.

* A `StakeNode` is a node on a block index: its active chain, and where it looks up transactions.
* `checkProofOfStake_eq`: whether a proof is valid comes down to the bytes that `CStakeKernel` hashes and the target.
-/

namespace DigiWage

open Lib

/-! ## The node -/

/-- A node on a block index. -/
structure StakeNode (n : StakeIndex) where
  /-- The tip of `chainActive`. -/
  tip : Ptr
  tip_mem : tip ∈ n.index.mapBlockIndex
  /-- `mempool.lookup`. -/
  mempool : Uint256 → Option CTransaction
  fTxIndex : Bool
  /-- `ReadTxIndex`, and what is read at that place: the transaction and the hash of the header. -/
  readTxIndex : Uint256 → Option (CTransaction × Uint256)
  /-- `nHeight` of the coins in `pcoinsTip`. -/
  accessCoins : Uint256 → Option Int
  readBlockFromDisk : Ptr → Option CBlock

structure CPivStake where
  txFrom : CTransaction
  nPosition : Nat
  pindexFrom : Option Ptr

namespace StakeNode

variable {n : StakeIndex} (s : StakeNode n)

def chainActive : CChain := CChain.ofTip n.index s.tip

/-- The end of `GetTransaction`: a scan of the block. -/
def scanBlock (hash : Uint256) (pindexSlow : Ptr) : Option (CTransaction × Uint256) :=
  match s.readBlockFromDisk pindexSlow with
  | none => none
  | some block => (block.vtx.find? fun tx => tx.hash == hash).map fun tx => (tx, (n.index.entry pindexSlow).hash)

/-- `GetTransaction` with `fAllowSlow`: the transaction, and `hashBlock`, which is left null for a transaction of the
mempool. -/
def getTransaction (hash : Uint256) : Option (CTransaction × Uint256) :=
  match s.mempool hash with
  | some tx => some (tx, 0)
  | none =>
    if s.fTxIndex then
      match s.readTxIndex hash with
      | none => none
      | some (tx, hashBlock) => if tx.hash ≠ hash then none else some (tx, hashBlock)
    else
      match s.accessCoins hash with
      | none => none
      | some nHeight =>
        if 0 < nHeight then
          match s.chainActive.get nHeight.toNat with
          | none => none
          | some pindexSlow => s.scanBlock hash pindexSlow
        else none

/-- The entry of a block, when it is in the active chain. -/
def activeIndex (hashBlock : Uint256) : Option Ptr :=
  match n.index.find hashBlock with
  | none => none
  | some pindex => if s.chainActive.contains n.index pindex then some pindex else none

/-- `CPivStake::InitFromTxIn`. -/
def initFromTxIn (txin : CTxIn) : Option CPivStake :=
  match s.getTransaction txin.prevout.hash with
  | none => none
  | some (txPrev, hashBlock) => (s.activeIndex hashBlock).map fun pindex => ⟨txPrev, txin.prevout.n, some pindex⟩

/-- `CPivStake::GetIndexFrom`. -/
def getIndexFrom (input : CPivStake) : Option Ptr :=
  match input.pindexFrom with
  | some pindexFrom => some pindexFrom
  | none =>
    match s.getTransaction input.txFrom.hash with
    | none => none
    | some (_, hashBlock) => s.activeIndex hashBlock

/-! ## The kernel -/

/-- The loop of `GetOldModifier` over the next blocks of the active chain. -/
def getOldModifierLoop (params : StakeParams) (timeFrom : Nat) : Nat → List StakeEntry → Option UInt64
  | _, [] => none
  | nStakeModifierTime, pindex :: next =>
    let nStakeModifierTime := if pindex.generatedStakeModifier then pindex.nTime else nStakeModifierTime
    if nStakeModifierTime < timeFrom + OLD_MODIFIER_INTERVAL then
      getOldModifierLoop params timeFrom nStakeModifierTime next
    else some (pindex.getStakeModifierV1 params)

/-- The blocks of the active chain above a height. -/
def above (nHeight : Nat) : List StakeEntry := ((n.index.path s.tip).reverse.drop (nHeight + 1)).map n.entry

def getOldModifier (params : StakeParams) (pindexFrom : Ptr) : Option UInt64 :=
  getOldModifierLoop params (n.entry pindexFrom).nTime (n.entry pindexFrom).nTime (s.above (n.index.nHeight pindexFrom))

/-- `CStakeKernel::stakeModifier`. A V1 modifier that is not found is 0. -/
def stakeModifier (params : StakeParams) (pindexPrev pindexFrom : Ptr) : List UInt8 :=
  if !params.isStakeModifierV2 (n.index.nHeight pindexPrev + 1) then
    leBytes 8 ((s.getOldModifier params pindexFrom).getD 0).toNat
  else leBytes 32 ((n.entry pindexPrev).getStakeModifierV2 params).toNat

/-- The bytes that `CStakeKernel::GetHash` hashes. -/
def kernelBytes (params : StakeParams) (pindexPrev pindexFrom : Ptr) (input : CPivStake) (nTime : Nat) : List UInt8 :=
  s.stakeModifier params pindexPrev pindexFrom ++ leBytes 4 (n.entry pindexFrom).nTime ++
    (leBytes 4 input.nPosition ++ leBytes 32 input.txFrom.hash.toNat) ++ leBytes 4 nTime

/-- `CStakeKernel::CheckKernelHash`; `none` when the output is out of range. -/
def checkKernel (params : StakeParams) (hash : List UInt8 → Uint256) (pindexPrev pindexFrom : Ptr) (input : CPivStake)
    (nBits nTime : Nat) : Option Bool :=
  match input.txFrom.vout[input.nPosition]? with
  | none => none
  | some o => some (checkKernelHash (hash (s.kernelBytes params pindexPrev pindexFrom input nTime)) nBits o.nValue)

/-- `LoadStakeInput`; `none` for an index out of range. -/
def loadStakeInput (block : CBlock) (pindexPrev : Ptr) : Option (Option (CTransaction × CPivStake)) :=
  if block.hashPrevBlock ≠ (n.index.entry pindexPrev).hash then some none
  else if !block.isProofOfStake then some none
  else
    match block.vtx[1]? with
    | none => none
    | some tx =>
      match tx.vin[0]? with
      | none => none
      | some txin => some ((s.initFromTxIn txin).map fun input => (tx, input))

/-- `CheckProofOfStake`; `verifyScript` is the check of the signature of the coinstake, for the transaction it spends. -/
def checkProofOfStake (params : StakeParams) (hash : List UInt8 → Uint256)
    (verifyScript : CTransaction → CTransaction → Bool) (block : CBlock) (pindexPrev : Ptr) : Option Bool :=
  match s.loadStakeInput block pindexPrev with
  | none => none
  | some none => some false
  | some (some (tx, input)) =>
    match s.getIndexFrom input with
    | none => some false
    | some pindexFrom =>
      if !contextCheck params.toConsensusParams n.index pindexFrom (n.index.nHeight pindexPrev + 1) block.nTime then
        some false
      -- `GetTxFrom`
      else if input.txFrom.vin.isEmpty && input.txFrom.vout.isEmpty then some false
      else if input.txFrom.vout.length ≤ input.nPosition then none
      else if !verifyScript tx input.txFrom then some false
      else s.checkKernel params hash pindexPrev pindexFrom input block.nBits block.nTime

/-! ## Two active chains -/

/-- The target that the kernel hash has to meet. -/
def stakeTarget (nBits : Nat) (stakeValue : Int) : Uint256 :=
  (setCompact nBits).1 * (BitVec.ofNat 256 (stakeValue % 2 ^ 64).toNat / 100)

theorem checkKernelHash_eq (hashProofOfStake : Uint256) (nBits : Nat) (stakeValue : Int) :
    checkKernelHash hashProofOfStake nBits stakeValue = decide (hashProofOfStake < stakeTarget nBits stakeValue) := rfl

theorem forall_hash_ge_iff {bytes : List UInt8} {target : Uint256} :
    (∀ hash : List UInt8 → Uint256, decide (hash bytes < target) = false) ↔ target = 0 := by
  constructor
  · intro h
    have hzero := of_decide_eq_false (h fun _ => 0)
    exact BitVec.le_zero_iff.mp (BitVec.not_lt.mp hzero)
  · rintro rfl hash
    exact decide_eq_false BitVec.not_lt_zero

theorem forall_hash_iff {bytes bytes' : List UInt8} {target : Uint256} :
    (∀ hash : List UInt8 → Uint256, decide (hash bytes < target) = decide (hash bytes' < target)) ↔
      target = 0 ∨ bytes = bytes' := by
  constructor
  · intro h
    by_cases hbytes : bytes = bytes'
    · exact Or.inr hbytes
    · -- a hash function that only the second text fails to meet the target with
      have hmax : ¬ BitVec.allOnes 256 < target := by
        rw [BitVec.lt_def, BitVec.toNat_allOnes]
        have := target.isLt
        omega
      have hsplit := h fun b => if b = bytes' then BitVec.allOnes 256 else 0
      rw [if_neg hbytes, if_pos rfl, decide_eq_false hmax] at hsplit
      exact Or.inl (BitVec.le_zero_iff.mp (BitVec.not_lt.mp (of_decide_eq_false hsplit)))
  · rintro (rfl | rfl) hash
    · have hzero : ∀ h : Uint256, decide (h < 0) = false := fun _ => decide_eq_false BitVec.not_lt_zero
      rw [hzero, hzero]
    · rfl

section Found

variable {params : StakeParams} {hash : List UInt8 → Uint256} {verifyScript : CTransaction → CTransaction → Bool}
variable {s s' : StakeNode n} {block : CBlock} {tx txPrev : CTransaction} {txin : CTxIn} {o : CTxOut}
variable {pindexPrev pindexFrom : Ptr}

/-- What the node finds on its active chain under the hash is the transaction, in the block of `pindexFrom`. -/
def Origin (s : StakeNode n) (hash : Uint256) (txPrev : CTransaction) (pindexFrom : Ptr) : Prop :=
  ∀ tx hashBlock q, s.getTransaction hash = some (tx, hashBlock) → s.activeIndex hashBlock = some q →
    tx = txPrev ∧ q = pindexFrom

/-- The node finds the transaction. -/
def Finds (s : StakeNode n) (hash : Uint256) (txPrev : CTransaction) (pindexFrom : Ptr) : Prop :=
  s.getTransaction hash = some (txPrev, (n.index.entry pindexFrom).hash)

instance (hash : Uint256) : Decidable (s.Finds hash txPrev pindexFrom) := by
  unfold Finds
  infer_instance

theorem activeIndex_of_anc (hmem : pindexFrom ∈ n.index.mapBlockIndex) (hanc : n.index.IsAnc pindexFrom s.tip) :
    s.activeIndex (n.index.entry pindexFrom).hash = some pindexFrom := by
  have hcontains : s.chainActive.contains n.index pindexFrom = true := (CChain.contains_iff s.tip_mem).mpr hanc
  rw [activeIndex, BlockIndex.find_eq hmem]
  simp only [hcontains, if_true]

theorem activeIndex_some {hashBlock : Uint256} {q : Ptr} (h : s.activeIndex hashBlock = some q) :
    (n.index.entry q).hash = hashBlock := by
  unfold activeIndex at h
  cases hfind : n.index.find hashBlock with
  | none =>
    rw [hfind] at h
    cases h
  | some pindex =>
    rw [hfind] at h
    dsimp only at h
    split at h
    · cases h
      exact (BlockIndex.find_some hfind).2
    · cases h

theorem Finds.origin {h : Uint256} (hfinds : s.Finds h txPrev pindexFrom) (hmem : pindexFrom ∈ n.index.mapBlockIndex)
    (hanc : n.index.IsAnc pindexFrom s.tip) : s.Origin h txPrev pindexFrom := by
  intro tx hashBlock q hget hactive
  rw [hfinds] at hget
  cases hget
  rw [activeIndex_of_anc hmem hanc] at hactive
  exact ⟨rfl, (Option.some.inj hactive).symm⟩

theorem initFromTxIn_eq (hmem : pindexFrom ∈ n.index.mapBlockIndex) (hanc : n.index.IsAnc pindexFrom s.tip)
    (horigin : s.Origin txin.prevout.hash txPrev pindexFrom) : s.initFromTxIn txin =
      if s.Finds txin.prevout.hash txPrev pindexFrom then some ⟨txPrev, txin.prevout.n, some pindexFrom⟩ else none := by
  unfold initFromTxIn
  split_ifs with hfinds
  · rw [hfinds]
    simp only [activeIndex_of_anc hmem hanc, Option.map_some]
  · cases hget : s.getTransaction txin.prevout.hash with
    | none => rfl
    | some r =>
      obtain ⟨tx, hashBlock⟩ := r
      cases hactive : s.activeIndex hashBlock with
      | none => simp only [hactive, Option.map_none]
      | some q =>
        obtain ⟨rfl, rfl⟩ := horigin tx hashBlock q hget hactive
        rw [Finds, hget, activeIndex_some hactive] at hfinds
        exact absurd rfl hfinds

/-- Everything but the kernel hash is all right with the stake. -/
def StakeOk (params : StakeParams) (verifyScript : CTransaction → CTransaction → Bool) (n : StakeIndex) (block : CBlock)
    (tx txPrev : CTransaction) (pindexPrev pindexFrom : Ptr) : Bool :=
  contextCheck params.toConsensusParams n.index pindexFrom (n.index.nHeight pindexPrev + 1) block.nTime &&
    verifyScript tx txPrev

theorem checkProofOfStake_eq (hprev : block.hashPrevBlock = (n.index.entry pindexPrev).hash)
    (hpos : block.isProofOfStake = true) (htx : block.vtx[1]? = some tx) (htxin : tx.vin[0]? = some txin)
    (hout : txPrev.vout[txin.prevout.n]? = some o) (hmem : pindexFrom ∈ n.index.mapBlockIndex)
    (hanc : n.index.IsAnc pindexFrom s.tip) (horigin : s.Origin txin.prevout.hash txPrev pindexFrom) :
    s.checkProofOfStake params hash verifyScript block pindexPrev =
      if s.Finds txin.prevout.hash txPrev pindexFrom ∧
        StakeOk params verifyScript n block tx txPrev pindexPrev pindexFrom = true then
        some (checkKernelHash (hash (s.kernelBytes params pindexPrev pindexFrom
          ⟨txPrev, txin.prevout.n, some pindexFrom⟩ block.nTime)) block.nBits o.nValue)
      else some false := by
  obtain ⟨hlt, -⟩ := List.getElem?_eq_some_iff.mp hout
  have hnonempty : txPrev.vout.isEmpty = false := by
    rw [List.isEmpty_eq_false_iff_exists_mem]
    exact ⟨o, List.mem_of_getElem? hout⟩
  simp only [checkProofOfStake, loadStakeInput, hprev, hpos, htx, htxin, initFromTxIn_eq hmem hanc horigin, ne_eq,
    not_true_eq_false, if_false, Bool.not_true, Bool.false_eq_true]
  by_cases hfinds : s.Finds txin.prevout.hash txPrev pindexFrom
  · simp only [hfinds, if_true, Option.map_some, getIndexFrom, hnonempty, Bool.and_false, Bool.false_eq_true, if_false,
      Nat.not_le.mpr hlt, checkKernel, hout, StakeOk, true_and]
    cases contextCheck params.toConsensusParams n.index pindexFrom (n.index.nHeight pindexPrev + 1) block.nTime with
    | false => simp
    | true =>
      cases verifyScript tx txPrev with
      | false => simp
      | true => simp
  · simp only [hfinds, if_false, Option.map_none, false_and]

theorem kernelBytes_inj {nTime : Nat} {input : CPivStake} :
    s.kernelBytes params pindexPrev pindexFrom input nTime = s'.kernelBytes params pindexPrev pindexFrom input nTime ↔
      params.isStakeModifierV2 (n.index.nHeight pindexPrev + 1) = true ∨
        (s.getOldModifier params pindexFrom).getD 0 = (s'.getOldModifier params pindexFrom).getD 0 := by
  simp only [kernelBytes, List.append_left_inj, stakeModifier]
  cases params.isStakeModifierV2 (n.index.nHeight pindexPrev + 1) with
  | true => simp
  | false =>
    simp only [Bool.not_false, if_true, Bool.false_eq_true, false_or]
    rw [leBytes_inj (UInt64.toNat_lt _) (UInt64.toNat_lt _), UInt64.toNat_inj]

/-- Two nodes on a block index, with the block of the staked output on both active chains, agree on a proof of stake,
whatever the hash function is, exactly when something else is wrong with the stake, or both find the output or neither
does, and the modifier is a V2 modifier or `GetOldModifier` gives the same on both chains. -/
theorem checkProofOfStake_iff (params : StakeParams) (verifyScript : CTransaction → CTransaction → Bool) {n : StakeIndex}
    {s s' : StakeNode n} {block : CBlock} {tx txPrev : CTransaction} {txin : CTxIn} {o : CTxOut}
    {pindexPrev pindexFrom : Ptr} (hprev : block.hashPrevBlock = (n.index.entry pindexPrev).hash)
    (hpos : block.isProofOfStake = true) (htx : block.vtx[1]? = some tx) (htxin : tx.vin[0]? = some txin)
    (hout : txPrev.vout[txin.prevout.n]? = some o) (hmem : pindexFrom ∈ n.index.mapBlockIndex)
    (hanc : n.index.IsAnc pindexFrom s.tip) (hanc' : n.index.IsAnc pindexFrom s'.tip)
    (horigin : s.Origin txin.prevout.hash txPrev pindexFrom)
    (horigin' : s'.Origin txin.prevout.hash txPrev pindexFrom) :
    (∀ hash, s.checkProofOfStake params hash verifyScript block pindexPrev =
        s'.checkProofOfStake params hash verifyScript block pindexPrev) ↔
      (StakeOk params verifyScript n block tx txPrev pindexPrev pindexFrom = false ∨
        stakeTarget block.nBits o.nValue = 0) ∨
      (s.Finds txin.prevout.hash txPrev pindexFrom ↔ s'.Finds txin.prevout.hash txPrev pindexFrom) ∧
        (s.Finds txin.prevout.hash txPrev pindexFrom →
          params.isStakeModifierV2 (n.index.nHeight pindexPrev + 1) = true ∨
          (s.getOldModifier params pindexFrom).getD 0 = (s'.getOldModifier params pindexFrom).getD 0) := by
  simp only [checkProofOfStake_eq hprev hpos htx htxin hout hmem hanc horigin,
    checkProofOfStake_eq hprev hpos htx htxin hout hmem hanc' horigin', checkKernelHash_eq]
  cases StakeOk params verifyScript n block tx txPrev pindexPrev pindexFrom with
  | false => simp
  | true =>
    by_cases hfinds : s.Finds txin.prevout.hash txPrev pindexFrom <;>
      by_cases hfinds' : s'.Finds txin.prevout.hash txPrev pindexFrom
    · simp only [hfinds, hfinds', and_self, if_true, Option.some.injEq, forall_hash_iff, kernelBytes_inj,
        Bool.true_eq_false, false_or, true_imp_iff, true_and]
    · simp only [hfinds, hfinds', false_and, and_self, if_true, if_false, Option.some.injEq, forall_hash_ge_iff,
        Bool.true_eq_false, false_or, iff_false, not_true_eq_false, or_false]
    · simp only [hfinds, hfinds', false_and, and_self, if_true, if_false, Option.some.injEq, @eq_comm Bool false,
        forall_hash_ge_iff, Bool.true_eq_false, false_or, iff_true, or_false]
    · simp [hfinds, hfinds']

end Found

/-! ## A fork -/

/-- The genesis block and three blocks on it. The second block is alone in the selection interval of the third. -/
def forkBlocks : List (Ptr × CBlock) :=
  [(0, ⟨⟨1, 7, 0, 0, 0, 0, 0⟩, []⟩), (1, ⟨⟨2, 7, 1, 0, 60, 0, 0⟩, []⟩), (2, ⟨⟨3, 7, 2, 0, 3060, 0, 0⟩, []⟩),
   (3, ⟨⟨4, 7, 3, 0, 6060, 0, 0⟩, []⟩)]

theorem run_forkBlocks : (StakeIndex.run regTestStakeParams hash256 4096 forkBlocks).isSome := by decide

def forkIndex : StakeIndex := (StakeIndex.run regTestStakeParams hash256 4096 forkBlocks).get run_forkBlocks

/-- A transaction of block 1. -/
def stakedTx : CTransaction := ⟨77, 1, [⟨⟨5, 0⟩, ([] : List UInt8), 0⟩], [⟨100, ([] : List UInt8), 0⟩], 0⟩

/-- A node with the index of all transactions. -/
def forkNode (tip : Ptr) (hmem : tip ∈ forkIndex.index.mapBlockIndex) : StakeNode forkIndex where
  tip := tip
  tip_mem := hmem
  mempool _ := none
  fTxIndex := true
  readTxIndex h := if h = 77 then some (stakedTx, 2) else none
  accessCoins _ := none
  readBlockFromDisk _ := none

/-- The node whose tip is the parent of the staked block, and one that is a block behind. -/
def upNode : StakeNode forkIndex := forkNode 3 (by decide)

def behindNode : StakeNode forkIndex := forkNode 2 (by decide)

/-- The stake of the output of `stakedTx`. -/
def forkStake : CTransaction :=
  ⟨78, 1, [⟨⟨77, 0⟩, ([] : List UInt8), 0⟩], [⟨0, ([] : List UInt8), 0⟩, ⟨100, ([] : List UInt8), 0⟩], 0⟩

def forkBlock : CBlock := ⟨⟨5, 7, 4, 0, 9001, 0x207fffff, 0⟩, [⟨79, 1, [], [], 0⟩, forkStake]⟩

theorem forkIndex_mem : (1 : Ptr) ∈ forkIndex.index.mapBlockIndex := by decide

theorem upNode_anc : forkIndex.index.IsAnc 1 upNode.tip := (BlockIndex.mem_path upNode.tip_mem).mp (by decide)

theorem behindNode_anc : forkIndex.index.IsAnc 1 behindNode.tip :=
  (BlockIndex.mem_path behindNode.tip_mem).mp (by decide)

theorem upNode_finds : upNode.Finds 77 stakedTx 1 := by decide

theorem behindNode_finds : behindNode.Finds 77 stakedTx 1 := by decide

/-- The two nodes do not hash the same for the block. -/
theorem checkProofOfStake_fork : ¬ ∀ hash,
    upNode.checkProofOfStake regTestStakeParams hash (fun _ _ => true) forkBlock 3 =
      behindNode.checkProofOfStake regTestStakeParams hash (fun _ _ => true) forkBlock 3 := by
  intro h
  have h := (checkProofOfStake_iff regTestStakeParams (fun _ _ => true) (by decide) (by decide)
    (show forkBlock.vtx[1]? = some forkStake from rfl) (show forkStake.vin[0]? = some ⟨⟨77, 0⟩, ([] : List UInt8), 0⟩ from rfl)
    (show stakedTx.vout[0]? = some ⟨100, ([] : List UInt8), 0⟩ from rfl) forkIndex_mem upNode_anc behindNode_anc
    (upNode_finds.origin forkIndex_mem upNode_anc) (behindNode_finds.origin forkIndex_mem behindNode_anc)).mp h
  rcases h with (hok | htarget) | ⟨-, hmodifier⟩
  · exact absurd hok (by decide)
  · exact absurd htarget (by decide)
  · exact absurd (hmodifier upNode_finds) (by decide +kernel)

/-- The node that is a block behind does not accept the block that the other node accepts. -/
theorem checkProofOfStake_differs : ¬ ∀ (params : StakeParams) (verifyScript : CTransaction → CTransaction → Bool)
    (n : StakeIndex) (s s' : StakeNode n) (block : CBlock) (tx txPrev : CTransaction) (txin : CTxIn) (o : CTxOut)
    (pindexPrev pindexFrom : Ptr), block.hashPrevBlock = (n.index.entry pindexPrev).hash →
    block.isProofOfStake = true → block.vtx[1]? = some tx → tx.vin[0]? = some txin →
    txPrev.vout[txin.prevout.n]? = some o → pindexFrom ∈ n.index.mapBlockIndex → n.index.IsAnc pindexFrom s.tip →
    n.index.IsAnc pindexFrom s'.tip → s.Finds txin.prevout.hash txPrev pindexFrom →
    s'.Finds txin.prevout.hash txPrev pindexFrom →
    s.checkProofOfStake params hash256 verifyScript block pindexPrev =
      s'.checkProofOfStake params hash256 verifyScript block pindexPrev := by
  intro hall
  have h := hall regTestStakeParams (fun _ _ => true) forkIndex upNode behindNode forkBlock forkStake stakedTx
    ⟨⟨77, 0⟩, ([] : List UInt8), 0⟩ ⟨100, ([] : List UInt8), 0⟩ 3 1 (by decide) (by decide) rfl rfl rfl
    forkIndex_mem upNode_anc behindNode_anc upNode_finds behindNode_finds
  exact absurd h (by decide +kernel)

end StakeNode

end DigiWage
