import DigiWage.Chain.Difficulty
import DigiWage.Lib.Run

/-!
# Miners

`CreateNewBlock` and `BitcoinMiner` of `miner.cpp`, and a network of nodes that take in the blocks that miners have found. No node
compares the target of a block with `GetNextWorkRequired`, but every miner sets it on its own chain.

* `mineBlock_spec`: the block of a miner stands on an entry of its node and has the target that is required there.
-/

namespace DigiWage

open Lib ChainState

/-! ## Block templates -/

/-- What a miner takes from the rest of its node. -/
structure MinerEnv where
  /-- The checks of `TestBlockValidity`: `CheckBlock` is called without the merkle root. -/
  accept : AcceptEnv
  fPowAllowMinDifficultyBlocks : Bool
  /-- `-blockversion`. -/
  blockVersion : Option Int32
  /-- The coinbase on a parent, with the payees and the fees. -/
  txNew : Ptr → CTransaction
  /-- `CreateCoinStake` for a parent and a target: the coinstake and its time. -/
  createCoinStake : Ptr → Nat → Option (CTransaction × Int)
  /-- The transactions of the memory pool that go into the block. -/
  selected : List CTransaction
  /-- The coinbase with another extra nonce in its script. -/
  withExtraNonce : CTransaction → Nat → CTransaction
  blockMerkleRoot : List CTransaction → Uint256
  /-- `GetHash`; it does not look at `hash`. -/
  getHash : CBlock → Uint256
  /-- `ConnectBlock` with `fJustCheck`. -/
  justConnects : CBlock → Ptr → Bool

/-- The version of a new block. On the regression test network it can be overridden. -/
def newBlockVersion (params : ConsensusParams) (env : MinerEnv) (nHeight : Nat) : Int32 :=
  let nVersion : Int32 := if nHeight < params.heightStartZC then 3 else if nHeight < params.heightRHF then 4 else 5
  if params.isRegTestNet then env.blockVersion.getD nVersion else nVersion

def updateTime (params : ConsensusParams) (env : MinerEnv) (t : BlockIndex) (adjustedTime : Int) (pindexPrev : Ptr)
    (pblock : CBlock) : CBlock :=
  { pblock with
    nTime := (max ((getMedianTimePast t pindexPrev : Int) + 1) adjustedTime % 2 ^ 32).toNat
    nBits := if env.fPowAllowMinDifficultyBlocks then getNextWorkRequired params t pindexPrev else pblock.nBits }

/-- `IncrementExtraNonce`, to the given extra nonce. -/
def incrementExtraNonce (env : MinerEnv) (nExtraNonce : Nat) (pblock : CBlock) : CBlock :=
  let vtx := pblock.vtx.modifyHead fun tx => env.withExtraNonce tx nExtraNonce
  { pblock with vtx := vtx, hashMerkleRoot := env.blockMerkleRoot vtx }

/-- The block with its hash. -/
def MinerEnv.hashed (env : MinerEnv) (pblock : CBlock) : CBlock := { pblock with hash := env.getHash pblock }

def testBlockValidity (params : ConsensusParams) (env : MinerEnv) (s : ChainState) (block : CBlock) (pindexPrev : Ptr) :
    Bool :=
  s.tip == some pindexPrev &&
    (contextualCheckBlockHeader params env.accept s block.toCBlockHeader pindexPrev).isOk &&
    (checkBlock params env.accept block).isOk && (env.accept.contextualCheckBlock block (some pindexPrev)).isOk &&
    env.justConnects block pindexPrev

/-- `GetChainTip`: the entry that the map has for the hash of the tip. -/
def getChainTip (s : ChainState) : Option Ptr := s.tip.bind fun p => s.index.find (s.index.entry p).hash

def createNewBlock (params : ConsensusParams) (env : MinerEnv) (s : ChainState) (fProofOfStake : Bool) : Option CBlock :=
  match getChainTip s with
  | none => none
  | some pindexPrev =>
    let nVersion := newBlockVersion params env (s.index.nHeight pindexPrev + 1)
    let hashPrevBlock := (s.index.entry pindexPrev).hash
    let nBits := getNextWorkRequired params s.index pindexPrev
    let pblock : Option CBlock :=
      if fProofOfStake then
        (env.createCoinStake pindexPrev nBits).map fun (txCoinStake, nTxNewTime) =>
          incrementExtraNonce env 1 ⟨⟨0, nVersion, hashPrevBlock, 0, (nTxNewTime % 2 ^ 32).toNat, nBits, 0⟩,
            env.txNew pindexPrev :: txCoinStake :: env.selected⟩
      else
        -- the target is set again after `UpdateTime`
        some { updateTime params env s.index env.accept.adjustedTime pindexPrev
          ⟨⟨0, nVersion, hashPrevBlock, 0, 0, 0, 0⟩, env.txNew pindexPrev :: env.selected⟩ with nBits := nBits }
    match pblock.map env.hashed with
    | none => none
    | some pblock => if testBlockValidity params env s pblock pindexPrev then some pblock else none

/-! ## Miners -/

/-- What a miner changes in its block while it looks for a solution. -/
inductive SearchStep where
  | incrementExtraNonce (nExtraNonce : Nat)
  | nextNonce
  | updateTime (adjustedTime : Int)

def SearchStep.apply (params : ConsensusParams) (env : MinerEnv) (t : BlockIndex) (pindexPrev : Ptr) (pblock : CBlock) :
    SearchStep → CBlock
  | incrementExtraNonce nExtraNonce => DigiWage.incrementExtraNonce env nExtraNonce pblock
  | nextNonce => { pblock with nNonce := (pblock.nNonce + 1) % 2 ^ 32 }
  | updateTime adjustedTime => DigiWage.updateTime params env t adjustedTime pindexPrev pblock

/-- A round of `BitcoinMiner`: a new block, and for a proof-of-work block a search that ends with a solution. The search is
given up when the tip changes, so one parent is there all the time. -/
def mineBlock (params : ConsensusParams) (env : MinerEnv) (s : ChainState) (fProofOfStake : Bool) (search : List SearchStep) :
    Option CBlock :=
  match getChainTip s, createNewBlock params env s fProofOfStake with
  | some pindexPrev, some pblock =>
    if fProofOfStake then some pblock
    else
      let pblock := env.hashed (search.foldl (SearchStep.apply params env s.index pindexPrev) pblock)
      if pblock.hash ≤ (setCompact pblock.nBits).1 then some pblock else none
  | _, _ => none

/-- The block stands on the entry and has the target that is required there. -/
def StandsOn (params : ConsensusParams) (t : BlockIndex) (p : Ptr) (block : CBlock) : Prop :=
  block.hashPrevBlock = (t.entry p).hash ∧ block.nBits = getNextWorkRequired params t p

section

variable {params : ConsensusParams} {env : MinerEnv} {s : ChainState} {t : BlockIndex} {p : Ptr} {block : CBlock}

theorem createNewBlock_spec {fProofOfStake : Bool} (h : createNewBlock params env s fProofOfStake = some block) :
    ∃ p, getChainTip s = some p ∧ StandsOn params s.index p block := by
  unfold createNewBlock at h
  split at h
  · cases h
  · rename_i p hp
    refine ⟨p, hp, ?_⟩
    dsimp only at h
    split at h
    · cases h
    · rename_i b hb
      obtain ⟨b₀, hb₀, rfl⟩ := Option.map_eq_some_iff.mp hb
      rw [Option.ite_none_right_eq_some, Option.some.injEq] at h
      obtain ⟨-, rfl⟩ := h
      cases fProofOfStake with
      | false =>
        cases hb₀
        exact ⟨rfl, rfl⟩
      | true =>
        obtain ⟨stake, -, rfl⟩ := Option.map_eq_some_iff.mp hb₀
        exact ⟨rfl, rfl⟩

theorem StandsOn.apply (h : StandsOn params t p block) (o : SearchStep) :
    StandsOn params t p (o.apply params env t p block) := by
  cases o with
  | incrementExtraNonce nExtraNonce => exact h
  | nextNonce => exact h
  | updateTime adjustedTime =>
    refine ⟨h.1, ?_⟩
    simp only [SearchStep.apply, updateTime, h.2, ite_self]

theorem StandsOn.search (h : StandsOn params t p block) (search : List SearchStep) :
    StandsOn params t p (search.foldl (SearchStep.apply params env t p) block) := by
  induction search generalizing block with
  | nil => exact h
  | cons o search ih => exact ih (h.apply o)

theorem mineBlock_spec {fProofOfStake : Bool} {search : List SearchStep}
    (h : mineBlock params env s fProofOfStake search = some block) :
    ∃ p ∈ s.index.mapBlockIndex, StandsOn params s.index p block := by
  unfold mineBlock at h
  split at h
  · rename_i p b hp hb
    obtain ⟨q, hq, hstands⟩ := createNewBlock_spec hb
    rw [hp, Option.some.injEq] at hq
    subst hq
    obtain ⟨tip, -, hfind⟩ := Option.bind_eq_some_iff.mp hp
    refine ⟨p, (BlockIndex.find_some hfind).1, ?_⟩
    cases fProofOfStake with
    | true =>
      cases h
      exact hstands
    | false =>
      simp only [Bool.false_eq_true, if_false, Option.ite_none_right_eq_some, Option.some.injEq] at h
      obtain ⟨-, rfl⟩ := h
      exact hstands.search search
  · cases h

end

/-! ## The network -/

/-- The nodes of a network, and the hashes of the blocks that their miners have found. -/
structure MiningNetwork where
  node : Nat → ChainState
  mined : List Uint256

/-- Node `i` finds a block, or does what an operation says. -/
inductive MiningOp where
  | mine (i : Nat) (env : MinerEnv) (fProofOfStake : Bool) (search : List SearchStep)
  | process (i : Nat) (op : AcceptOp)

/-- The source has the blocks that are found under their hashes. -/
def MiningOp.step (src : BlockSource) (params : ConsensusParams) (n : MiningNetwork) : MiningOp → Option MiningNetwork
  | mine i env fProofOfStake search =>
    match mineBlock params env (n.node i) fProofOfStake search with
    | none => none
    | some pblock => if src.block pblock.hash = pblock then some { n with mined := pblock.hash :: n.mined } else none
  | process i op => (op.step src params (n.node i)).map fun s => { n with node := Function.update n.node i s }

/-- Nodes without blocks. -/
def MiningNetwork.init : MiningNetwork := ⟨fun _ => ChainState.init, []⟩

/-- A node takes in the genesis block and blocks that miners of the network have found. -/
def TakesMined (src : BlockSource) (n : MiningNetwork) : MiningOp → Prop
  | .mine .. => True
  | .process _ op => ∀ hash ∈ op.taken, hash = src.hashGenesisBlock ∨ hash ∈ n.mined

instance (src : BlockSource) (n : MiningNetwork) : ∀ o, Decidable (TakesMined src n o)
  | .mine .. => isTrue trivial
  | .process _ op => Option.decidableForallMem op.taken

/-- Along a run the nodes have blocks of the source; those found stand on blocks with the target that is required there,
and all others are the genesis block. -/
structure MinedInv (src : BlockSource) (params : ConsensusParams) (n : MiningNetwork) : Prop where
  indexOf (i : Nat) : IndexOf src (n.node i).index
  stands : ∀ hash ∈ n.mined, ∃ t, IndexOf src t ∧ ∃ p ∈ t.mapBlockIndex, StandsOn params t p (src.block hash)
  known (i : Nat) : ∀ p ∈ (n.node i).index.mapBlockIndex, ((n.node i).index.entry p).hash = src.hashGenesisBlock ∨
    ((n.node i).index.entry p).hash ∈ n.mined

theorem MinedInv.init (src : BlockSource) (params : ConsensusParams) : MinedInv src params .init where
  indexOf _ := .empty src
  stands _ hash := by simp [MiningNetwork.init] at hash
  known _ p hp := by simp [MiningNetwork.init, ChainState.init, BlockIndex.empty] at hp

theorem MinedInv.mine {src : BlockSource} {params : ConsensusParams} {n : MiningNetwork} (h : MinedInv src params n) {i : Nat}
    {env : MinerEnv} {fProofOfStake : Bool} {search : List SearchStep} {pblock : CBlock}
    (hmine : mineBlock params env (n.node i) fProofOfStake search = some pblock) (hsrc : src.block pblock.hash = pblock) :
    MinedInv src params { n with mined := pblock.hash :: n.mined } where
  indexOf := h.indexOf
  stands := by
    intro hash hmem
    rcases List.mem_cons.mp hmem with rfl | hmem
    · rw [hsrc]
      exact ⟨_, h.indexOf i, mineBlock_spec hmine⟩
    · exact h.stands hash hmem
  known j p hp := (h.known j p hp).imp_right fun hmem => List.mem_cons_of_mem _ hmem

theorem MinedInv.process {src : BlockSource} {params : ConsensusParams} {n : MiningNetwork} (h : MinedInv src params n) {i : Nat}
    {op : AcceptOp} {s : ChainState} (htakes : TakesMined src n (.process i op))
    (heq : op.step src params (n.node i) = some s) :
    MinedInv src params { n with node := Function.update n.node i s } := by
  have hindex := step_indexOf (h.indexOf i) heq
  have hknown : ∀ p ∈ s.index.mapBlockIndex, (s.index.entry p).hash = src.hashGenesisBlock ∨ (s.index.entry p).hash ∈ n.mined := by
    rcases acceptOp_step heq with hsame | ⟨new, hash, s₁, htaken, ha, -, -, hs₁⟩
    · rw [hsame]
      exact h.known i
    · intro p hp
      rw [hs₁, ha.mapBlockIndex] at hp
      rcases List.mem_cons.mp hp with rfl | hp
      · rw [hs₁, ha.entry_new, BlockIndex.newEntry_header.1, src.hash_block hash]
        exact htakes hash htaken
      · rw [hs₁, ha.index, BlockIndex.add_entry hp]
        exact h.known i p hp
  refine ⟨fun j => ?_, h.stands, fun j => ?_⟩ <;> dsimp only <;> by_cases hj : j = i
  · rwa [hj, Function.update_self]
  · rw [Function.update_of_ne hj]
    exact h.indexOf j
  · rwa [hj, Function.update_self]
  · rw [Function.update_of_ne hj]
    exact h.known j

/-- **Difficulty.** In a network whose nodes take in nothing but blocks of their miners, every entry of every node but the genesis
block has the target that `GetNextWorkRequired` gives for its parent. -/
theorem nBits_required_of_mined {src : BlockSource} {params : ConsensusParams} {ops : List MiningOp} {n : MiningNetwork}
    (hmeets : Meets (MiningOp.step src params) (TakesMined src) .init ops)
    (hrun : ops.foldlM (MiningOp.step src params) .init = some n) :
    ∀ i, ∀ p ∈ (n.node i).index.mapBlockIndex, ((n.node i).index.entry p).hash ≠ src.hashGenesisBlock →
      ∃ q, (n.node i).index.pprev p = some q ∧
        ((n.node i).index.entry p).nBits = getNextWorkRequired params (n.node i).index q := by
  have h : MinedInv src params n := by
    refine hmeets.keeps (fun n o n' h htakes heq => ?_) (.init src params) hrun
    cases o with
    | mine i env fProofOfStake search =>
      simp only [MiningOp.step] at heq
      split at heq
      · cases heq
      · rename_i pblock hmine
        rw [Option.ite_none_right_eq_some, Option.some.injEq] at heq
        obtain ⟨hsrc, rfl⟩ := heq
        exact h.mine hmine hsrc
    | process i op =>
      obtain ⟨s, hs, rfl⟩ := Option.map_eq_some_iff.mp heq
      exact h.process htakes hs
  intro i p hp hne
  obtain ⟨q, hq, hqh⟩ : ∃ q, (n.node i).index.pprev p = some q ∧
      ((n.node i).index.entry q).hash = (src.block ((n.node i).index.entry p).hash).hashPrevBlock := by
    rcases (h.indexOf i).parent p hp with ⟨hg, -⟩ | ⟨-, hpar⟩
    · exact absurd hg hne
    · exact hpar
  refine ⟨q, hq, ?_⟩
  -- the miner required the same on its own node
  obtain ⟨t, ht, q', hq', hprev, hbits⟩ := h.stands _ ((h.known i p hp).resolve_left hne)
  rw [(h.indexOf i).nBits p hp, hbits]
  exact getNextWorkRequired_congr ht (h.indexOf i) hq' ((n.node i).index.rooted.mem hp hq) (hprev.symm.trans hqh.symm)

/-! ## Two nodes on the regression test network -/

/-- A coinstake that spends the first output of transaction 7. -/
def sampleCoinStake : CTransaction :=
  ⟨9, 1, [⟨⟨7, 0⟩, ([] : List UInt8), 0⟩], [⟨0, ([] : List UInt8), 0⟩, ⟨1000, [0x76], 0⟩], 0⟩

/-- An environment in which the genesis block has the output, and all that is left open passes. -/
def stakingEnv : AcceptEnv :=
  { AcceptEnv.lenient with getTransaction := fun _ => some (⟨7, 1, [], [⟨1000, [0x76], 0⟩], 0⟩, 0) }

/-- A miner and staker whose coinbase has the extra nonce as its script. -/
def sampleMiner : MinerEnv where
  accept := stakingEnv
  fPowAllowMinDifficultyBlocks := true
  blockVersion := none
  txNew _ := ⟨0, 1, [], [], 0⟩
  createCoinStake _ _ := some (sampleCoinStake, 2000)
  selected := []
  withExtraNonce tx nExtraNonce := { tx with vin := [⟨⟨0, 2 ^ 32 - 1⟩, [UInt8.ofNat nExtraNonce], 2 ^ 32 - 1⟩] }
  blockMerkleRoot vtx := BitVec.ofNat 256 vtx.length
  getHash pblock := pblock.hashPrevBlock + 1
  justConnects _ _ := true

/-- Blocks in a row. Block 2 is a proof-of-stake block. -/
def minedSource : BlockSource where
  block h :=
    let coinbase := sampleMiner.withExtraNonce (sampleMiner.txNew 0) 1
    if h = 2 then ⟨⟨h, 3, h - 1, 2, 2000, 0x1e0ffff0, 0⟩, [coinbase, sampleCoinStake]⟩
    else ⟨⟨h, 3, h - 1, 1, 1000 * h.toNat, 0x1e0ffff0, 1⟩, [coinbase]⟩
  hash_block h := by dsimp only; split <;> rfl
  hashGenesisBlock := 0

/-- Node `i` takes in a block and connects it. -/
def takes (i hash : Nat) : List MiningOp :=
  [.process i (.acceptBlock stakingEnv ⟨fun _ => ⟨false, false, [⟨1000, [0x76], 0⟩], 0, 0⟩, 0⟩ hash (BitVec.ofNat 256 hash)
      false),
    .process i (.activateBestChain .succeeds 10)]

/-- Two nodes have the genesis block. Node 0 finds block 1 by work, and node 1 block 2 on it by stake. -/
def minedRun : List MiningOp :=
  takes 0 0 ++ takes 1 0 ++ [.mine 0 sampleMiner false [.incrementExtraNonce 1, .updateTime 1000, .nextNonce]] ++
    takes 0 1 ++ takes 1 1 ++ [.mine 1 sampleMiner true []] ++ takes 0 2

theorem minedRun_spec : Meets (MiningOp.step minedSource (regTestParams 1552000)) (TakesMined minedSource) .init minedRun ∧
    (minedRun.foldlM (MiningOp.step minedSource (regTestParams 1552000)) .init).any fun n =>
      decide (2 ∈ (n.node 0).index.mapBlockIndex ∧ ((n.node 0).index.entry 2).hash ≠ 0) := by decide +kernel

theorem nBits_required_of_mined_run :
    ∃ n, minedRun.foldlM (MiningOp.step minedSource (regTestParams 1552000)) .init = some n ∧
      ∃ q, (n.node 0).index.pprev 2 = some q ∧
        ((n.node 0).index.entry 2).nBits = getNextWorkRequired (regTestParams 1552000) (n.node 0).index q := by
  obtain ⟨n, hrun, hn⟩ := (Option.any_eq_true _ _).mp minedRun_spec.2
  obtain ⟨hmem, hne⟩ := of_decide_eq_true hn
  exact ⟨n, hrun, nBits_required_of_mined minedRun_spec.1 hrun 0 2 hmem hne⟩

end DigiWage
