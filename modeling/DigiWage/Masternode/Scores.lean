import DigiWage.Chain.Active
import DigiWage.Chain.Failure
import DigiWage.Lib.Run
import DigiWage.Masternode.Announce

/-!
# The scores of masternodes

`CalculateScore` takes the hash of a block of the active chain from `GetBlockHash`, which remembers what it returned for
each height in `mapCacheBlockHashes`. The map is not touched when blocks are disconnected.

* `getBlockHash`, `calculateScore` and `getMasternodeRank`, with the map as part of the state.
-/

namespace DigiWage

open Lib

/-! ## Block hashes -/

/-- The chain with `mapCacheBlockHashes`. -/
structure ScoreState where
  chain : ChainState
  mapCacheBlockHashes : Int → Option Uint256

/-- The loop of `GetBlockHash`, along `pprev`. -/
def getBlockHashLoop (t : BlockIndex) (nBlocksAgo : Int) : List Ptr → Int → Option Uint256
  | [], _ => none
  | p :: ps, n =>
    if t.nHeight p = 0 then none
    else if nBlocksAgo ≤ n then some (t.entry p).hash
    else getBlockHashLoop t nBlocksAgo ps (n + 1)

namespace ScoreState

variable (st : ScoreState)

/-- `GetBlockHash`. The height 0 stands for that of the tip. -/
def getBlockHash (nBlockHeight : Int) : Option Uint256 × ScoreState :=
  match st.chain.tip with
  | none => (none, st)
  | some tip =>
    let nTip : Int := st.chain.index.nHeight tip
    let nBlockHeight := if nBlockHeight = 0 then nTip else nBlockHeight
    match st.mapCacheBlockHashes nBlockHeight with
    | some hash => (some hash, st)
    | none =>
      if nTip = 0 ∨ nTip + 1 < nBlockHeight then (none, st)
      else
        let nBlocksAgo := if 0 < nBlockHeight then nTip + 1 - nBlockHeight else 0
        match getBlockHashLoop st.chain.index nBlocksAgo (st.chain.index.path tip) 0 with
        | none => (none, st)
        | some hash => (some hash, { st with
            mapCacheBlockHashes := Function.update st.mapCacheBlockHashes nBlockHeight (some hash) })

end ScoreState

/-! ## Scores and ranks -/

/-- `CHashWriter` for one hash and for two. -/
structure ScoreHash where
  hash : Uint256 → Uint256
  hashTwo : Uint256 → Uint256 → Uint256

/-- The conversion to `int`. -/
def int32 (x : Int) : Int := x.bmod (2 ^ 32)

/-- What `CalculateScore` computes for a collateral from the hash of the block. -/
def ScoreHash.score (H : ScoreHash) (prevout : COutPoint) (hash : Uint256) : Uint256 :=
  let aux := prevout.hash + BitVec.ofNat 256 prevout.n
  let hash2 := H.hash hash
  let hash3 := H.hashTwo hash aux
  if hash2 < hash3 then hash3 - hash2 else hash2 - hash3

/-- `CMasternode::CalculateScore`; the argument `mod` is not used. -/
def ScoreState.calculateScore (H : ScoreHash) (st : ScoreState) (mn : CMasternode) (nBlockHeight : Int) :
    Uint256 × ScoreState :=
  if st.chain.tip = none then (0, st)
  else
    let r := st.getBlockHash (int32 nBlockHeight)
    match r.1 with
    | none => (0, r.2)
    | some hash => (H.score mn.vin.prevout hash, r.2)

def MN_WINNER_MINIMUM_AGE : Int := 8000

/-- What the rank of a masternode depends on besides the chain and the list. -/
structure RankEnv where
  node : MasternodeEnv
  hash : ScoreHash
  /-- `SPORK_8_MASTERNODE_PAYMENT_ENFORCEMENT` is active. -/
  paymentEnforcement : Bool
  /-- `sort(rbegin, rend)` with `CompareScoreTxIn`. -/
  sort : List (Int × CTxIn) → List (Int × CTxIn)

namespace RankEnv

variable (env : RankEnv)

/-- `GetMasternodeRank` skips the masternode without a check. -/
def skips (minProtocol : Int) (mn : CMasternode) : Bool :=
  decide (mn.protocolVersion < minProtocol) ||
    (env.paymentEnforcement && decide (env.node.getAdjustedTime - mn.sigTime < MN_WINNER_MINIMUM_AGE))

/-- The masternode after the check that `fOnlyActive` asks for. -/
def checked (fOnlyActive : Bool) (mn : CMasternode) : CMasternode := if fOnlyActive then mn.check env.node false else mn

/-- The loop of `GetMasternodeRank`: the scores, the list after the checks, and the state. -/
def scan (nBlockHeight minProtocol : Int) (fOnlyActive : Bool) : List CMasternode → ScoreState →
    List (Int × CTxIn) × List CMasternode × ScoreState
  | [], st => ([], [], st)
  | mn :: mns, st =>
    if env.skips minProtocol mn then
      let r := scan nBlockHeight minProtocol fOnlyActive mns st
      (r.1, mn :: r.2.1, r.2.2)
    else
      let mn' := env.checked fOnlyActive mn
      if fOnlyActive && !mn'.isEnabled then
        let r := scan nBlockHeight minProtocol fOnlyActive mns st
        (r.1, mn' :: r.2.1, r.2.2)
      else
        let score := st.calculateScore env.hash mn' nBlockHeight
        let r := scan nBlockHeight minProtocol fOnlyActive mns score.2
        (((getCompact score.1 : Int), mn'.vin) :: r.1, mn' :: r.2.1, r.2.2)

/-- The place of the first pair with the outpoint, from 1 on, or -1. -/
def rankOf (vin : CTxIn) (vecMasternodeScores : List (Int × CTxIn)) : Int :=
  match vecMasternodeScores.findIdx? fun s => decide (s.2.prevout = vin.prevout) with
  | none => -1
  | some i => i + 1

/-- `CMasternodeMan::GetMasternodeRank`. -/
def getMasternodeRank (st : ScoreState) (man : CMasternodeMan) (vin : CTxIn) (nBlockHeight minProtocol : Int)
    (fOnlyActive : Bool) : Int × CMasternodeMan × ScoreState :=
  let r := st.getBlockHash (int32 nBlockHeight)
  match r.1 with
  | none => (-1, man, r.2)
  | some _ =>
    let scanned := env.scan nBlockHeight minProtocol fOnlyActive man.vMasternodes r.2
    (rankOf vin (env.sort scanned.1), { man with vMasternodes := scanned.2.1 }, scanned.2.2)

end RankEnv

/-! ## What `GetBlockHash` returns -/

theorem getBlockHashLoop_path {t : BlockIndex} (nBlocksAgo : Int) {p : Ptr} (hp : p ∈ t.mapBlockIndex) : ∀ {n : Int},
    n ≤ nBlocksAgo → nBlocksAgo - n < t.nHeight p → ∃ a, t.IsAnc a p ∧ (t.nHeight a : Int) = t.nHeight p - (nBlocksAgo - n) ∧
      getBlockHashLoop t nBlocksAgo (t.path p) n = some (t.entry a).hash := by
  refine t.rooted.induct_on (C := fun p => ∀ {n : Int}, n ≤ nBlocksAgo → nBlocksAgo - n < t.nHeight p →
    ∃ a, t.IsAnc a p ∧ (t.nHeight a : Int) = t.nHeight p - (nBlocksAgo - n) ∧
      getBlockHashLoop t nBlocksAgo (t.path p) n = some (t.entry a).hash) (fun p hp ih n hle hlt => ?_) p hp
  cases hpar : t.pprev p with
  | none =>
    have hroot := t.rooted.root hp hpar
    omega
  | some q =>
    have hsucc := t.rooted.succ hp hpar
    rw [t.path_some hp hpar, getBlockHashLoop, if_neg (by omega)]
    by_cases hn : nBlocksAgo ≤ n
    · rw [if_pos hn]
      exact ⟨p, .refl p, by omega, rfl⟩
    · rw [if_neg hn]
      by_cases hone : nBlocksAgo - (n + 1) < t.nHeight q
      · obtain ⟨a, ha, hheight, heq⟩ := ih q hpar (n := n + 1) (by omega) hone
        exact ⟨a, .up hpar ha, by omega, heq⟩
      · omega

namespace ScoreState

variable {st st' : ScoreState} {tip p : Ptr} {h k : Int} {x : Uint256}

/-- The height that is looked up. -/
def lookedUp (st : ScoreState) (h : Int) : Int :=
  if h = 0 then (st.chain.tip.map fun tip => (st.chain.index.nHeight tip : Int)).getD 0 else h

/-- The height is one of a block of the active chain above the genesis block, plus one. -/
def InRange (st : ScoreState) (k : Int) : Prop :=
  ∃ tip, st.chain.tip = some tip ∧ 1 < k ∧ k ≤ st.chain.index.nHeight tip + 1

/-- The block of the active chain at the height below has the hash. -/
def IsActiveHash (st : ScoreState) (k : Int) (x : Uint256) : Prop :=
  ∃ p, st.chain.chainActive.get (k - 1).toNat = some p ∧ (st.chain.index.entry p).hash = x

/-- What is remembered for blocks of the active chain are their hashes. -/
def CacheOk (st : ScoreState) : Prop :=
  ∀ k x, st.InRange k → st.mapCacheBlockHashes k = some x → st.IsActiveHash k x

theorem getBlockHash_cached (htip : st.chain.tip = some tip) (hx : st.mapCacheBlockHashes (st.lookedUp h) = some x) :
    st.getBlockHash h = (some x, st) := by
  unfold lookedUp at hx
  rw [htip] at hx
  unfold getBlockHash
  rw [htip]
  dsimp only [Option.map_some, Option.getD_some] at hx ⊢
  rw [hx]

theorem getBlockHash_new (hact : st.chain.Active) (hk : st.InRange (st.lookedUp h))
    (hnone : st.mapCacheBlockHashes (st.lookedUp h) = none) : ∃ x, st.IsActiveHash (st.lookedUp h) x ∧
      st.getBlockHash h = (some x, { st with
        mapCacheBlockHashes := Function.update st.mapCacheBlockHashes (st.lookedUp h) (some x) }) := by
  obtain ⟨tip, htip, hlow, hhigh⟩ := hk
  obtain ⟨hmem, hchain⟩ := hact.of_tip htip
  have hkey : st.lookedUp h = if h = 0 then (st.chain.index.nHeight tip : Int) else h := by
    unfold lookedUp
    rw [htip]
    rfl
  obtain ⟨a, ha, hheight, hloop⟩ := getBlockHashLoop_path (n := 0)
    (st.chain.index.nHeight tip + 1 - st.lookedUp h) hmem (by omega) (by omega)
  refine ⟨(st.chain.index.entry a).hash, ⟨a, ?_, rfl⟩, ?_⟩
  · rw [hchain, CChain.get_ofTip hmem]
    exact ⟨ha, by omega⟩
  · unfold getBlockHash
    rw [htip]
    dsimp only
    rw [← hkey, hnone]
    dsimp only
    rw [if_neg (by omega), if_pos (by omega), hloop]

theorem getBlockHash_cases (st : ScoreState) (h : Int) : (st.getBlockHash h).2 = st ∨
    st.mapCacheBlockHashes (st.lookedUp h) = none ∧ ∃ x, st.getBlockHash h = (some x, { st with
      mapCacheBlockHashes := Function.update st.mapCacheBlockHashes (st.lookedUp h) (some x) }) := by
  cases htip : st.chain.tip with
  | none =>
    left
    unfold getBlockHash
    rw [htip]
  | some tip =>
    have hkey : st.lookedUp h = if h = 0 then (st.chain.index.nHeight tip : Int) else h := by
      unfold lookedUp
      rw [htip]
      rfl
    cases hx : st.mapCacheBlockHashes (st.lookedUp h) with
    | some x =>
      left
      rw [getBlockHash_cached htip hx]
    | none =>
      unfold getBlockHash
      rw [htip]
      dsimp only
      rw [← hkey, hx]
      dsimp only
      split
      · exact .inl rfl
      · split
        · exact .inl rfl
        · rename_i x _
          exact .inr ⟨rfl, x, rfl⟩

theorem getBlockHash_spec (hact : st.chain.Active) (hcache : st.CacheOk) (hk : st.InRange (st.lookedUp h)) :
    ∃ x, st.IsActiveHash (st.lookedUp h) x ∧ (st.getBlockHash h).1 = some x := by
  cases hx : st.mapCacheBlockHashes (st.lookedUp h) with
  | none =>
    obtain ⟨x, hx, heq⟩ := getBlockHash_new hact hk hx
    exact ⟨x, hx, by rw [heq]⟩
  | some x =>
    refine ⟨x, hcache _ x hk hx, ?_⟩
    obtain ⟨tip, htip, -⟩ := hk
    rw [getBlockHash_cached htip hx]

end ScoreState

/-! ## Runs -/

/-- Queries, new blocks, and moves of the tip. -/
inductive ScoreOp where
  | getBlockHash (nBlockHeight : Int)
  | addToBlockIndex (new : Ptr) (block : CBlockHeader)
  | connectTip (orc : Oracle) (p : Ptr)
  | disconnectTip (orc : Oracle)

namespace ScoreState

variable {st st' : ScoreState} {op : ScoreOp} {tip p : Ptr} {h k : Int} {x : Uint256} {orc : Oracle}

/-- The chain moves, and the map stays. -/
def moves (st : ScoreState) (op : ChainOp) : Option ScoreState :=
  (op.step st.chain).map fun chain => { st with chain := chain }

def step (st : ScoreState) : ScoreOp → Option ScoreState
  | .getBlockHash nBlockHeight => some (st.getBlockHash nBlockHeight).2
  | .addToBlockIndex new block => st.moves (.addToBlockIndex new block)
  | .connectTip orc p => st.moves (.connectTip orc p)
  | .disconnectTip orc => st.moves (.disconnectTip orc)

/-- A node without blocks. -/
def init : ScoreState := ⟨ChainState.init, fun _ => none⟩

/-- `GetBlockHash` returns hashes of the active chain. -/
def Correct (st : ScoreState) : Prop :=
  ∀ h x, st.InRange (st.lookedUp h) → (st.getBlockHash h).1 = some x → st.IsActiveHash (st.lookedUp h) x

/-- A block is connected only where no hash of another block is remembered for its height. -/
def ConnectsFresh (st : ScoreState) : ScoreOp → Prop
  | .connectTip orc p => p ∈ st.chain.index.mapBlockIndex → st.chain.index.pprev p = st.chain.tip →
    orc.connect st.chain.nCalls p = .valid → 0 < st.chain.index.nHeight p →
    (st.mapCacheBlockHashes (st.chain.index.nHeight p + 1)).all (fun x => (st.chain.index.entry p).hash == x) = true
  | _ => True

instance (st : ScoreState) : ∀ op, Decidable (st.ConnectsFresh op)
  | .connectTip _ p => inferInstanceAs (Decidable (p ∈ st.chain.index.mapBlockIndex → _))
  | .getBlockHash _ => inferInstanceAs (Decidable True)
  | .addToBlockIndex _ _ => inferInstanceAs (Decidable True)
  | .disconnectTip _ => inferInstanceAs (Decidable True)

theorem correct_iff (hact : st.chain.Active) : st.Correct ↔ st.CacheOk := by
  constructor
  · intro hcorrect k x hk hx
    have hne : st.lookedUp k = k := by
      obtain ⟨tip, -, hlow, -⟩ := hk
      unfold lookedUp
      rw [if_neg (by omega)]
    obtain ⟨tip, htip, -⟩ := id hk
    rw [← hne] at hx hk ⊢
    exact hcorrect k x hk (by rw [getBlockHash_cached htip hx])
  · intro hcache h x hk hx
    obtain ⟨y, hy, heq⟩ := getBlockHash_spec hact hcache hk
    rw [hx] at heq
    cases heq
    exact hy

theorem cacheOk_getBlockHash (hact : st.chain.Active) (hcache : st.CacheOk) : (st.getBlockHash h).2.CacheOk := by
  rcases getBlockHash_cases st h with heq | ⟨hnone, x, heq⟩
  · rw [heq]
    exact hcache
  · rw [heq]
    intro k y hk hy
    dsimp only at hy
    have hk' : st.InRange k := hk
    by_cases hkey : k = st.lookedUp h
    · rw [hkey, Function.update_self] at hy
      rw [hkey] at hk' ⊢
      obtain ⟨z, hz, heq'⟩ := getBlockHash_new hact hk' hnone
      rw [heq'] at heq
      cases heq
      cases hy
      exact hz
    · rw [Function.update_of_ne hkey] at hy
      exact hcache k y hk' hy

theorem getBlockHash_chain : (st.getBlockHash h).2.chain = st.chain := by
  rcases getBlockHash_cases st h with heq | ⟨-, x, heq⟩
  · rw [heq]
  · rw [heq]

theorem isActiveHash_iff (hact : st.chain.Active) (htip : st.chain.tip = some tip) : st.IsActiveHash k x ↔
    ∃ p, st.chain.index.IsAnc p tip ∧ st.chain.index.nHeight p = (k - 1).toNat ∧ (st.chain.index.entry p).hash = x := by
  obtain ⟨hmem, hchain⟩ := hact.of_tip htip
  unfold IsActiveHash
  simp only [hchain, CChain.get_ofTip hmem, and_assoc]

theorem wellFormed_step (hwf : st.chain.WellFormed) (heq : st.step op = some st') : st'.chain.WellFormed := by
  have hmoves : ∀ {op : ChainOp}, st.moves op = some st' → st'.chain.WellFormed := by
    intro op h
    obtain ⟨chain, hchain, rfl⟩ := Option.map_eq_some_iff.mp h
    exact ChainState.step_wellFormed hwf hchain
  cases op with
  | getBlockHash h =>
    cases heq
    rw [getBlockHash_chain]
    exact hwf
  | addToBlockIndex new block => exact hmoves heq
  | connectTip orc p => exact hmoves heq
  | disconnectTip orc => exact hmoves heq

theorem cacheOk_addToBlockIndex {new : Ptr} {block : CBlockHeader} (hwf : st.chain.WellFormed) (hcache : st.CacheOk)
    (heq : st.step (.addToBlockIndex new block) = some st') : st'.CacheOk := by
  have hwf' := wellFormed_step hwf heq
  simp only [step, moves, ChainOp.step, Option.map_eq_some_iff, Option.ite_none_left_eq_some, Option.some.injEq] at heq
  obtain ⟨chain, ⟨hnew, rfl⟩, rfl⟩ := heq
  cases hfind : st.chain.index.find block.hash with
  | some p =>
    have hsame : (st.chain.addToBlockIndex new block).2 = st.chain := by
      unfold ChainState.addToBlockIndex
      rw [hfind]
    rw [hsame]
    exact hcache
  | none =>
    have hadded := ChainState.addToBlockIndex_added hnew hfind
    rintro k x ⟨tip, htip, hlow, hhigh⟩ hx
    have htip₀ : st.chain.tip = some tip := by
      rw [← htip, ChainState.tip, ChainState.tip, hadded.chainActive]
    have hmem := (hwf.active.of_tip htip₀).1
    dsimp only at hhigh
    rw [hadded.index, BlockIndex.nHeight_add hmem] at hhigh
    obtain ⟨p, hanc, hheight, hhash⟩ :=
      (isActiveHash_iff hwf.active htip₀).mp (hcache k x ⟨tip, htip₀, hlow, hhigh⟩ hx)
    refine (isActiveHash_iff hwf'.active htip).mpr ⟨p, (hadded.isAnc hmem).mpr hanc, ?_, ?_⟩
    · have hp := st.chain.index.rooted.anc_mem hmem hanc
      dsimp only
      rw [hadded.index, BlockIndex.nHeight_add hp, hheight]
    · have hp := st.chain.index.rooted.anc_mem hmem hanc
      dsimp only
      rw [hadded.index, BlockIndex.add_entry hp, hhash]

theorem cacheOk_disconnectTip (hwf : st.chain.WellFormed) (hcache : st.CacheOk)
    (heq : st.step (.disconnectTip orc) = some st') : st'.CacheOk := by
  have hwf' := wellFormed_step hwf heq
  simp only [step, moves, ChainOp.step, Option.map_eq_some_iff] at heq
  obtain ⟨chain, ⟨⟨ok, chain'⟩, hdis, rfl⟩, rfl⟩ := heq
  obtain ⟨tip, htip, hmem, -, ⟨-, rfl⟩ | ⟨-, q, hq, rfl⟩⟩ := ChainState.disconnectTip_cases hwf.active hdis
  · exact hcache
  · have hqmem := st.chain.index.rooted.mem hmem hq
    have htip' : (CChain.ofTip st.chain.index q).tip = some q := CChain.tip_ofTip hqmem
    rintro k x ⟨tip', htip'', hlow, hhigh⟩ hx
    have hsame : tip' = q := Option.some.inj (htip''.symm.trans htip')
    subst hsame
    have hsucc := st.chain.index.rooted.succ hmem hq
    dsimp only at hhigh hx
    obtain ⟨p, hanc, hheight, hhash⟩ :=
      (isActiveHash_iff hwf.active htip).mp (hcache k x ⟨tip, htip, hlow, by omega⟩ hx)
    refine (isActiveHash_iff hwf'.active htip'').mpr ⟨p, ?_, hheight, hhash⟩
    have hne : p ≠ tip := by
      rintro rfl
      omega
    obtain ⟨q', hq', hanc'⟩ := hanc.of_ne hne
    rw [hq] at hq'
    cases hq'
    exact hanc'

theorem cacheOk_connectTip_iff (hwf : st.chain.WellFormed) (hcache : st.CacheOk)
    (heq : st.step (.connectTip orc p) = some st') : st'.CacheOk ↔ st.ConnectsFresh (.connectTip orc p) := by
  have hwf' := wellFormed_step hwf heq
  simp only [step, moves, ChainOp.step, Option.map_eq_some_iff, Option.ite_none_right_eq_some] at heq
  obtain ⟨chain, ⟨hmem, ⟨r, chain'⟩, hcon, rfl⟩, rfl⟩ := heq
  obtain ⟨hpar, hres, hcases⟩ := ChainState.connectTip_cases hwf.active hmem hcon
  rcases hcases with ⟨rfl, rfl⟩ | ⟨rfl, rfl⟩ | ⟨rfl, rfl⟩
  · -- The block is the new tip.
    have htip : (st.chain.connected p).tip = some p := CChain.tip_ofTip hmem
    constructor
    · intro hcache' _ _ _ hpos
      rw [Option.all_eq_true]
      intro x hx
      obtain ⟨a, hanc, hheight, hhash⟩ := (isActiveHash_iff hwf'.active htip).mp
        (hcache' (st.chain.index.nHeight p + 1) x ⟨p, htip, by omega, le_refl _⟩ hx)
      have ha : a = p := st.chain.index.rooted.anc_eq hmem hanc (by
        have h : st.chain.index.nHeight a = ((st.chain.index.nHeight p : Int) + 1 - 1).toNat := hheight
        show st.chain.index.nHeight p ≤ st.chain.index.nHeight a
        omega)
      rw [← ha]
      exact beq_of_eq hhash
    · rintro hfresh k x ⟨tip, htip', hlow, hhigh⟩ hx
      have hsame : tip = p := Option.some.inj (htip'.symm.trans htip)
      subst hsame
      have hhigh : k ≤ st.chain.index.nHeight tip + 1 := hhigh
      rw [isActiveHash_iff hwf'.active htip]
      by_cases hk : k = st.chain.index.nHeight tip + 1
      · subst hk
        have hown := (Option.all_eq_true _ _).mp (hfresh hmem hpar hres (by omega)) x hx
        refine ⟨tip, .refl tip, ?_, eq_of_beq hown⟩
        show st.chain.index.nHeight tip = _
        omega
      · cases hpar' : st.chain.index.pprev tip with
        | none =>
          have hroot := st.chain.index.rooted.root hmem hpar'
          omega
        | some q =>
          have hsucc := st.chain.index.rooted.succ hmem hpar'
          have hq : st.chain.tip = some q := hpar.symm.trans hpar'
          obtain ⟨a, hanc, hheight, hhash⟩ := (isActiveHash_iff hwf.active hq).mp
            (hcache k x ⟨q, hq, hlow, by omega⟩ hx)
          exact ⟨a, .up hpar' hanc, hheight, hhash⟩
  · -- The block is marked, and the chain stays.
    have hsame : CacheOk ⟨{ st.chain with nCalls := st.chain.nCalls + 1 }.invalidBlockFound p, st.mapCacheBlockHashes⟩ := by
      unfold ChainState.invalidBlockFound
      obtain ⟨b, hb⟩ := ChainState.invalidChainFound_eq
        (({ st.chain with nCalls := st.chain.nCalls + 1 }.setStatus p fun s => { s with failedValid := true }).eraseCandidates
          [p]) p
      rw [hb]
      exact hcache
    refine iff_of_true hsame fun _ _ hvalid => ?_
    rw [hres] at hvalid
    cases hvalid
  · refine iff_of_true hcache fun _ _ hvalid => ?_
    rw [hres] at hvalid
    cases hvalid

theorem cacheOk_step_iff (hwf : st.chain.WellFormed) (hcache : st.CacheOk) (heq : st.step op = some st') :
    st'.CacheOk ↔ st.ConnectsFresh op := by
  cases op with
  | getBlockHash h =>
    cases heq
    exact iff_of_true (cacheOk_getBlockHash hwf.active hcache) trivial
  | addToBlockIndex new block => exact iff_of_true (cacheOk_addToBlockIndex hwf hcache heq) trivial
  | connectTip orc p => exact cacheOk_connectTip_iff hwf hcache heq
  | disconnectTip orc => exact iff_of_true (cacheOk_disconnectTip hwf hcache heq) trivial

theorem connectsFresh_of_none (hnone : st.step op = none) : st.ConnectsFresh op := by
  cases op with
  | connectTip orc p =>
    intro hmem hpar hvalid
    simp only [step, moves, ChainOp.step, Option.map_eq_none_iff, if_pos hmem, ChainState.connectTip, if_pos hpar, hvalid]
      at hnone
    cases hnone
  | getBlockHash h => trivial
  | addToBlockIndex new block => trivial
  | disconnectTip orc => trivial

theorem correct_run_iff : ∀ (ops : List ScoreOp) {st : ScoreState}, st.chain.WellFormed → st.CacheOk →
    ((∀ pre st', pre <+: ops → pre.foldlM step st = some st' → st'.Correct) ↔ Meets step ConnectsFresh st ops)
  | [], st, hwf, hcache => by
    refine iff_of_true (fun pre st' hpre hrun => ?_) trivial
    rw [List.prefix_nil.mp hpre] at hrun
    cases hrun
    exact (correct_iff hwf.active).mpr hcache
  | op :: ops, st, hwf, hcache => by
    have hnext : ∀ {st₁}, st.step op = some st₁ → ∀ {pre : List ScoreOp}, (op :: pre).foldlM step st = pre.foldlM step st₁ := by
      intro st₁ h₁ pre
      rw [List.foldlM_cons, h₁]
      rfl
    constructor
    · intro hall
      have hcache₁ : ∀ st₁, st.step op = some st₁ → st₁.CacheOk := fun st₁ h₁ =>
        (correct_iff (wellFormed_step hwf h₁).active).mp (hall [op] st₁ ⟨ops, rfl⟩ (hnext h₁))
      refine ⟨?_, fun st₁ h₁ => (correct_run_iff ops (wellFormed_step hwf h₁) (hcache₁ st₁ h₁)).mp ?_⟩
      · cases h₁ : st.step op with
        | none => exact connectsFresh_of_none h₁
        | some st₁ => exact (cacheOk_step_iff hwf hcache h₁).mp (hcache₁ st₁ h₁)
      · intro pre st' hpre hrun
        exact hall (op :: pre) st' ((List.prefix_cons_inj op).mpr hpre) ((hnext h₁).trans hrun)
    · rintro ⟨hfresh, hrest⟩ pre st' hpre hrun
      cases pre with
      | nil =>
        cases hrun
        exact (correct_iff hwf.active).mpr hcache
      | cons o pre =>
        obtain ⟨rfl, hpre'⟩ := List.cons_prefix_cons.mp hpre
        obtain ⟨st₁, h₁, hrun⟩ := foldlM_cons_some hrun
        have hcache₁ := (cacheOk_step_iff hwf hcache h₁).mpr hfresh
        exact (correct_run_iff ops (wellFormed_step hwf h₁) hcache₁).mpr (hrest st₁ h₁) pre st' hpre' hrun

theorem cacheOk_init : init.CacheOk := by
  rintro k x - hx
  cases hx

/-! ## Two nodes with the same active chain -/

/-- The hashes of the active chain. -/
def activeHashes (st : ScoreState) : List (Option Uint256) :=
  st.chain.chainActive.vChain.map (Option.map fun p => (st.chain.index.entry p).hash)

theorem isActiveHash_unique {st₁ st₂ : ScoreState} {y : Uint256} (hsame : st₁.activeHashes = st₂.activeHashes)
    (hx : st₁.IsActiveHash k x) (hy : st₂.IsActiveHash k y) : x = y := by
  have hget : ∀ {st : ScoreState} {x : Uint256}, st.IsActiveHash k x → st.activeHashes[(k - 1).toNat]? = some (some x) := by
    rintro st x ⟨p, hp, rfl⟩
    unfold CChain.get at hp
    unfold activeHashes
    rw [List.getElem?_map, Option.join_eq_some_iff.mp hp]
    rfl
  have h := (hget hx).symm.trans ((congrArg (fun l => l[(k - 1).toNat]?) hsame).trans (hget hy))
  exact Option.some.inj (Option.some.inj h)

theorem length_activeHashes (hact : st.chain.Active) (htip : st.chain.tip = some tip) :
    st.activeHashes.length = st.chain.index.nHeight tip + 1 := by
  obtain ⟨hmem, hchain⟩ := hact.of_tip htip
  unfold activeHashes
  rw [List.length_map, hchain, CChain.length_ofTip hmem]

theorem lookedUp_eq {st₁ st₂ : ScoreState} {tip₁ tip₂ : Ptr} (hact₁ : st₁.chain.Active) (hact₂ : st₂.chain.Active)
    (hsame : st₁.activeHashes = st₂.activeHashes) (htip₁ : st₁.chain.tip = some tip₁) (htip₂ : st₂.chain.tip = some tip₂) :
    st₁.lookedUp h = st₂.lookedUp h := by
  have h₁ := length_activeHashes hact₁ htip₁
  have h₂ := length_activeHashes hact₂ htip₂
  rw [hsame, h₂] at h₁
  unfold lookedUp
  rw [htip₁, htip₂]
  simp only [Option.map_some, Option.getD_some]
  split
  · omega
  · rfl

theorem getBlockHash_same {st₁ st₂ : ScoreState} (hact₁ : st₁.chain.Active) (hact₂ : st₂.chain.Active)
    (hcache₁ : st₁.CacheOk) (hcache₂ : st₂.CacheOk) (hsame : st₁.activeHashes = st₂.activeHashes)
    (hrange : st₁.InRange (st₁.lookedUp h)) : (st₁.getBlockHash h).1 = (st₂.getBlockHash h).1 := by
  obtain ⟨tip₁, htip₁, hlow, hhigh⟩ := id hrange
  have hlen := length_activeHashes hact₁ htip₁
  rcases hact₂.tip_cases with ⟨hnil, -⟩ | ⟨tip₂, -, -, htip₂⟩
  · rw [hsame, activeHashes, hnil] at hlen
    cases hlen
  · have hkey := lookedUp_eq (h := h) hact₁ hact₂ hsame htip₁ htip₂
    have hlen₂ := length_activeHashes hact₂ htip₂
    rw [← hsame, hlen] at hlen₂
    have hrange₂ : st₂.InRange (st₂.lookedUp h) := ⟨tip₂, htip₂, hkey ▸ hlow, by rw [← hkey]; omega⟩
    obtain ⟨x, hx, heq⟩ := getBlockHash_spec hact₁ hcache₁ hrange
    obtain ⟨y, hy, heq₂⟩ := getBlockHash_spec hact₂ hcache₂ hrange₂
    rw [hkey] at hx
    rw [heq, heq₂, isActiveHash_unique hsame hx hy]

theorem getBlockHash_again (hx : (st.getBlockHash h).1 = some x) :
    (st.getBlockHash h).2.getBlockHash h = (some x, (st.getBlockHash h).2) := by
  rcases getBlockHash_cases st h with heq | ⟨-, y, heq⟩
  · rw [heq]
    exact Prod.ext hx heq
  · rw [heq] at hx
    cases hx
    obtain ⟨tip, htip⟩ : ∃ tip, st.chain.tip = some tip := by
      cases htip : st.chain.tip with
      | none =>
        unfold getBlockHash at heq
        rw [htip] at heq
        cases heq
      | some tip => exact ⟨tip, rfl⟩
    rw [heq]
    refine getBlockHash_cached htip ?_
    exact Function.update_self _ _ _

theorem calculateScore_fst (H : ScoreHash) (mn : CMasternode) :
    (st.calculateScore H mn h).1 = ((st.getBlockHash (int32 h)).1.map (H.score mn.collateral)).getD 0 := by
  unfold calculateScore
  split
  · rename_i htip
    unfold getBlockHash
    rw [htip]
    rfl
  · dsimp only
    cases (st.getBlockHash (int32 h)).1 <;> rfl

theorem calculateScore_snd (H : ScoreHash) (mn : CMasternode) (hst : st.getBlockHash (int32 h) = (some x, st)) :
    (st.calculateScore H mn h).2 = st := by
  unfold calculateScore
  split
  · rfl
  · rw [hst]

end ScoreState

namespace RankEnv

variable {env : RankEnv} {st : ScoreState} {h minProtocol : Int} {fOnlyActive : Bool} {hash : Uint256}

/-- The pair of a masternode in `vecMasternodeScores`, for the hash of the block. -/
def scoreOf (env : RankEnv) (hash : Uint256) (minProtocol : Int) (fOnlyActive : Bool) (mn : CMasternode) :
    Option (Int × CTxIn) :=
  if env.skips minProtocol mn then none
  else
    let mn' := env.checked fOnlyActive mn
    if fOnlyActive && !mn'.isEnabled then none else some ((getCompact (env.hash.score mn'.collateral hash) : Int), mn'.vin)

theorem scan_fst (hst : st.getBlockHash (int32 h) = (some hash, st)) : ∀ mns : List CMasternode,
    (env.scan h minProtocol fOnlyActive mns st).1 = mns.filterMap (env.scoreOf hash minProtocol fOnlyActive)
  | [] => rfl
  | mn :: mns => by
    have hscore : ∀ mn, (st.calculateScore env.hash mn h).1 = env.hash.score mn.collateral hash := by
      intro mn
      rw [ScoreState.calculateScore_fst, hst]
      rfl
    have ih := scan_fst hst mns
    unfold scan
    by_cases hskip : env.skips minProtocol mn = true
    · have hnone : env.scoreOf hash minProtocol fOnlyActive mn = none := if_pos hskip
      rw [List.filterMap_cons_none hnone, if_pos hskip]
      exact ih
    · rw [if_neg hskip]
      dsimp only
      by_cases hleft : (fOnlyActive && !(env.checked fOnlyActive mn).isEnabled) = true
      · have hnone : env.scoreOf hash minProtocol fOnlyActive mn = none := (if_neg hskip).trans (if_pos hleft)
        rw [List.filterMap_cons_none hnone, if_pos hleft]
        exact ih
      · have hsome : env.scoreOf hash minProtocol fOnlyActive mn = some (_, _) := (if_neg hskip).trans (if_neg hleft)
        rw [List.filterMap_cons_some hsome, if_neg hleft]
        dsimp only
        rw [hscore, ScoreState.calculateScore_snd _ _ hst, ih]

theorem getMasternodeRank_fst (env : RankEnv) (st : ScoreState) (man : CMasternodeMan) (vin : CTxIn)
    (h minProtocol : Int) (fOnlyActive : Bool) : (env.getMasternodeRank st man vin h minProtocol fOnlyActive).1 =
      ((st.getBlockHash (int32 h)).1.map fun hash =>
        rankOf vin (env.sort (man.vMasternodes.filterMap (env.scoreOf hash minProtocol fOnlyActive)))).getD (-1) := by
  unfold getMasternodeRank
  dsimp only
  cases hx : (st.getBlockHash (int32 h)).1 with
  | none => rfl
  | some hash =>
    dsimp only [Option.map_some, Option.getD_some]
    rw [scan_fst (ScoreState.getBlockHash_again hx)]

end RankEnv

/-! ## Histories -/

namespace ScoreState

/-- Along a run `GetBlockHash` returns the hashes of the active chain exactly if each block is connected where no hash of
another block is remembered. Then nodes with the same active chain have the same scores and ranks, however they got there. -/
theorem blockHash_active_iff (ops₁ : List ScoreOp) :
    ((∀ pre st, pre <+: ops₁ → pre.foldlM step init = some st → st.Correct) ↔ Meets step ConnectsFresh init ops₁) ∧
    ∀ (ops₂ : List ScoreOp) (st₁ st₂ : ScoreState), Meets step ConnectsFresh init ops₁ →
      Meets step ConnectsFresh init ops₂ → ops₁.foldlM step init = some st₁ → ops₂.foldlM step init = some st₂ →
      st₁.activeHashes = st₂.activeHashes → ∀ h, st₁.InRange (st₁.lookedUp (int32 h)) →
        (∀ H mn, (st₁.calculateScore H mn h).1 = (st₂.calculateScore H mn h).1) ∧
        ∀ (env : RankEnv) man vin minProtocol fOnlyActive,
          (env.getMasternodeRank st₁ man vin h minProtocol fOnlyActive).1 =
            (env.getMasternodeRank st₂ man vin h minProtocol fOnlyActive).1 := by
  refine ⟨correct_run_iff ops₁ .init cacheOk_init, ?_⟩
  intro ops₂ st₁ st₂ hmeets₁ hmeets₂ hrun₁ hrun₂ hsame h hrange
  have hinv : ∀ {ops : List ScoreOp} {st : ScoreState}, Meets step ConnectsFresh init ops →
      ops.foldlM step init = some st → st.chain.WellFormed ∧ st.CacheOk := by
    intro ops st hmeets hrun
    refine hmeets.keeps (I := fun st => st.chain.WellFormed ∧ st.CacheOk) ?_ ⟨.init, cacheOk_init⟩ hrun
    rintro st op st' ⟨hwf, hcache⟩ hfresh heq
    exact ⟨wellFormed_step hwf heq, (cacheOk_step_iff hwf hcache heq).mpr hfresh⟩
  obtain ⟨hwf₁, hcache₁⟩ := hinv hmeets₁ hrun₁
  obtain ⟨hwf₂, hcache₂⟩ := hinv hmeets₂ hrun₂
  have hhash := getBlockHash_same hwf₁.active hwf₂.active hcache₁ hcache₂ hsame hrange
  constructor
  · intro H mn
    rw [calculateScore_fst, calculateScore_fst, hhash]
  · intro env man vin minProtocol fOnlyActive
    rw [RankEnv.getMasternodeRank_fst, RankEnv.getMasternodeRank_fst, hhash]

/-- A genesis block, a child and two grandchildren. -/
def fourBlocks : List ScoreOp :=
  [.addToBlockIndex 0 ⟨1, 7, 0, 0, 0, 0x207fffff, 0⟩, .addToBlockIndex 1 ⟨2, 7, 1, 0, 0, 0x207fffff, 0⟩,
    .addToBlockIndex 2 ⟨3, 7, 2, 0, 0, 0x207fffff, 0⟩, .addToBlockIndex 3 ⟨4, 7, 2, 0, 0, 0x207fffff, 0⟩,
    .connectTip .succeeds 0, .connectTip .succeeds 1]

/-- The first grandchild is connected and replaced by the second one, with a query in between. -/
def replaceTip (nBlockHeight : Int) : List ScoreOp :=
  fourBlocks ++ [.connectTip .succeeds 2, .getBlockHash nBlockHeight, .disconnectTip .succeeds, .connectTip .succeeds 3]

/-- The second grandchild is connected at once. -/
def connectSecond : List ScoreOp := fourBlocks ++ [.connectTip .succeeds 3]

theorem replaceTip_isSome : ((replaceTip 3).foldlM step init).isSome ∧ ((replaceTip 2).foldlM step init).isSome ∧
    (connectSecond.foldlM step init).isSome := by decide

theorem blockHash_active_iff_replaced : Meets step ConnectsFresh init (replaceTip 2) ∧
    ∀ (H : ScoreHash) (mn : CMasternode),
      (calculateScore H (((replaceTip 2).foldlM step init).get replaceTip_isSome.2.1) mn 3).1 =
        (calculateScore H ((connectSecond.foldlM step init).get replaceTip_isSome.2.2) mn 3).1 :=
  ⟨by decide, ((blockHash_active_iff (replaceTip 2)).2 connectSecond _ _ (by decide) (by decide)
    (Option.some_get _).symm (Option.some_get _).symm (by decide) 3
    ⟨3, by decide, by decide, by decide⟩).1⟩

/-- The hash of the block that was replaced is returned. -/
theorem blockHash_not_active : ¬ ∀ (ops : List ScoreOp) (st : ScoreState), ops.foldlM step init = some st → st.Correct := by
  intro hall
  have hcorrect := hall (replaceTip 3) _ (Option.some_get replaceTip_isSome.1).symm
  obtain ⟨p, hp, hhash⟩ := hcorrect 3 3 ⟨3, by decide, by decide, by decide⟩ (by decide)
  have hactive : (((replaceTip 3).foldlM step init).get replaceTip_isSome.1).chain.chainActive.get
      ((((replaceTip 3).foldlM step init).get replaceTip_isSome.1).lookedUp 3 - 1).toNat = some 3 := by decide
  rw [hactive] at hp
  cases hp
  revert hhash
  decide

end ScoreState

end DigiWage
