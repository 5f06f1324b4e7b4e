import DigiWage.Stake.Kernel

/-!
# The staker

`Stake` of `kernel.cpp`, as `CreateCoinStake` of the wallet calls it for one output after the other, and what
`CheckProofOfStake` says of the block that is made of it.

* `Stake` does the contextual checks with the time of the attempt before, and with 0 for the first output. On all networks
  these checks are made at V2 heights only, where the time does not matter (`contextCheck_time`).
-/

namespace DigiWage

open Lib

namespace StakeNode

variable {n : StakeIndex} (s : StakeNode n)

def getTimeSlot (params : StakeParams) (nTime : Int) : Int :=
  nTime.tdiv params.nTimeSlotLength * params.nTimeSlotLength

/-- The time at which `Stake` tries a block. -/
def stakeTime (params : StakeParams) (adjustedTime : Int) : Int :=
  if params.isRegTestNet then adjustedTime else getTimeSlot params adjustedTime

/-- `Stake`: what it returns, and `nTimeTx`. -/
def stake (params : StakeParams) (hash : List UInt8 → Uint256) (pindexPrev : Ptr) (nBits : Nat) (adjustedTime : Int)
    (input : CPivStake) (nTimeTx : Int) : Option (Bool × Int) :=
  match s.getIndexFrom input with
  | none => some (false, nTimeTx)
  | some pindexFrom =>
    if !contextCheck params.toConsensusParams n.index pindexFrom (n.index.nHeight pindexPrev + 1)
        (nTimeTx % 2 ^ 32).toNat then some (false, nTimeTx)
    else
      let nTimeTx := stakeTime params adjustedTime
      if nTimeTx ≤ (n.entry pindexPrev).nTime ∧ !params.isRegTestNet then some (false, nTimeTx)
      else (s.checkKernel params hash pindexPrev pindexFrom input nBits (nTimeTx % 2 ^ 32).toNat).map fun res =>
        (res, nTimeTx)

/-- `nTxNewTime` after the kernel search of `CreateCoinStake` has tried some outputs, each at an adjusted time. -/
def triedTime (params : StakeParams) (hash : List UInt8 → Uint256) (pindexPrev : Ptr) (nBits : Nat) (nTxNewTime : Int)
    (tried : List (CPivStake × Int)) : Option Int :=
  tried.foldlM (fun nTimeTx input =>
    (s.stake params hash pindexPrev nBits input.2 input.1 nTimeTx).map Prod.snd) nTxNewTime

/-- The input that `CreateCoinStake` makes for an output of the active chain. -/
structure Spendable (input : CPivStake) (pindexFrom : Ptr) : Prop where
  fresh : input.pindexFrom = none
  finds : s.Finds input.txFrom.hash input.txFrom pindexFrom
  mem : pindexFrom ∈ n.index.mapBlockIndex
  anc : n.index.IsAnc pindexFrom s.tip
  out : input.nPosition < input.txFrom.vout.length

/-- A block on the tip at the time `t`, whose coinstake validly spends the output. -/
structure StakesOutput (verifyScript : CTransaction → CTransaction → Bool) (nBits : Nat) (input : CPivStake) (t : Int)
    (block : CBlock) : Prop where
  prev : block.hashPrevBlock = (n.index.entry s.tip).hash
  pos : block.isProofOfStake = true
  bits : block.nBits = nBits
  time : (block.nTime : Int) = t
  time_lt : block.nTime < 2 ^ 32
  spends : ∃ tx txin, block.vtx[1]? = some tx ∧ tx.vin[0]? = some txin ∧
    txin.prevout = ⟨input.txFrom.hash, input.nPosition⟩ ∧ verifyScript tx input.txFrom = true

end StakeNode

/-! ## Agreement -/

theorem contextCheck_time (net : Network) (t : BlockIndex) (pindexFrom : Ptr) (nHeight nTime nTime' : Nat) :
    contextCheck net.params.toConsensusParams t pindexFrom nHeight nTime =
      contextCheck net.params.toConsensusParams t pindexFrom nHeight nTime' := by
  have hV2 : net.params.heightRHF ≤ nHeight + 1 → net.params.isStakeModifierV2 nHeight = true := by
    intro hh
    rw [ConsensusParams.isStakeModifierV2, decide_eq_true_iff]
    cases net with
    | main =>
      have : 1552000 ≤ nHeight + 1 := hh
      show 1551945 ≤ nHeight
      omega
    | testNet =>
      have : 1552000 ≤ nHeight + 1 := hh
      show 500 ≤ nHeight
      omega
    | regTest =>
      have : 1552000 ≤ nHeight + 1 := hh
      show 251 ≤ nHeight
      omega
  unfold contextCheck ConsensusParams.hasStakeMinAgeOrDepth
  by_cases hh : nHeight + 1 < net.params.heightRHF
  · simp [hh]
  · simp [hV2 (Nat.le_of_not_lt hh)]

namespace StakeNode

variable {n : StakeIndex} {s : StakeNode n} {hash : List UInt8 → Uint256} {input : CPivStake} {pindexFrom : Ptr}
variable {verifyScript : CTransaction → CTransaction → Bool} {nBits : Nat} {block : CBlock} {t : Int}

theorem Spendable.getIndexFrom (h : s.Spendable input pindexFrom) : s.getIndexFrom input = some pindexFrom := by
  simp only [StakeNode.getIndexFrom, h.fresh, show s.getTransaction input.txFrom.hash = _ from h.finds,
    activeIndex_of_anc h.mem h.anc]

theorem StakesOutput.checkProofOfStake {params : StakeParams} (h : s.StakesOutput verifyScript nBits input t block)
    (hinput : s.Spendable input pindexFrom) : s.checkProofOfStake params hash verifyScript block s.tip =
      if contextCheck params.toConsensusParams n.index pindexFrom (n.index.nHeight s.tip + 1) block.nTime then
        s.checkKernel params hash s.tip pindexFrom input nBits block.nTime
      else some false := by
  obtain ⟨tx, txin, htx, htxin, hprevout, hverify⟩ := h.spends
  have hout := List.getElem?_eq_getElem hinput.out
  have horigin := hinput.finds.origin hinput.mem hinput.anc
  obtain ⟨prevout, scriptSig, nSequence⟩ := txin
  cases hprevout
  rw [checkProofOfStake_eq h.prev h.pos htx htxin hout hinput.mem hinput.anc horigin]
  simp only [hinput.finds, StakeOk, hverify, Bool.and_true, true_and, checkKernel, hout, h.bits]
  rfl

theorem Spendable.stake (net : Network) (hinput : s.Spendable input pindexFrom) (adjustedTime nTimeTx : Int) :
    s.stake net.params hash s.tip nBits adjustedTime input nTimeTx =
      if contextCheck net.params.toConsensusParams n.index pindexFrom (n.index.nHeight s.tip + 1) 0 then
        if stakeTime net.params adjustedTime ≤ (n.entry s.tip).nTime ∧ !net.params.isRegTestNet then
          some (false, stakeTime net.params adjustedTime)
        else (s.checkKernel net.params hash s.tip pindexFrom input nBits
          (stakeTime net.params adjustedTime % 2 ^ 32).toNat).map fun res => (res, stakeTime net.params adjustedTime)
      else some (false, nTimeTx) := by
  unfold StakeNode.stake
  simp only [hinput.getIndexFrom, contextCheck_time net n.index pindexFrom _ (nTimeTx % 2 ^ 32).toNat 0]
  cases contextCheck net.params.toConsensusParams n.index pindexFrom (n.index.nHeight s.tip + 1) 0 with
  | false => rfl
  | true => rfl

theorem StakesOutput.time_mod (h : s.StakesOutput verifyScript nBits input t block) : (t % 2 ^ 32).toNat = block.nTime := by
  have := h.time
  have := h.time_lt
  omega

/-- Staker and validator agree, on every network. A kernel that `Stake` finds makes a block that passes, and a block that
would pass at the time of the staker is found by `Stake`, whatever outputs were tried before. -/
theorem staker_agrees (net : Network) (hash : List UInt8 → Uint256) (verifyScript : CTransaction → CTransaction → Bool)
    {n : StakeIndex} {s : StakeNode n} {input : CPivStake} {pindexFrom : Ptr} (hinput : s.Spendable input pindexFrom)
    (nBits : Nat) (adjustedTime : Int) :
    (∀ nTimeTx t block, s.stake net.params hash s.tip nBits adjustedTime input nTimeTx = some (true, t) →
      s.StakesOutput verifyScript nBits input t block →
      s.checkProofOfStake net.params hash verifyScript block s.tip = some true) ∧
    (∀ block, ((n.entry s.tip).nTime : Int) < stakeTime net.params adjustedTime →
      s.StakesOutput verifyScript nBits input (stakeTime net.params adjustedTime) block →
      s.checkProofOfStake net.params hash verifyScript block s.tip = some true →
      ∀ tried nTimeTx, s.triedTime net.params hash s.tip nBits 0 tried = some nTimeTx →
        s.stake net.params hash s.tip nBits adjustedTime input nTimeTx =
          some (true, stakeTime net.params adjustedTime)) := by
  constructor
  · intro nTimeTx t block hstake hblock
    rw [hinput.stake net] at hstake
    rw [hblock.checkProofOfStake hinput, contextCheck_time net n.index pindexFrom _ block.nTime 0]
    split_ifs at hstake with hcontext hlate
    · -- the time slot has passed
      cases hstake
    · obtain ⟨res, hkernel, hres⟩ := Option.map_eq_some_iff.mp hstake
      cases hres
      rw [hblock.time_mod] at hkernel
      rw [if_pos hcontext]
      exact hkernel
    · cases hstake
  · intro block hlater hblock hcheck tried nTimeTx _
    rw [hblock.checkProofOfStake hinput, contextCheck_time net n.index pindexFrom _ block.nTime 0] at hcheck
    split_ifs at hcheck with hcontext
    · rw [hinput.stake net, if_pos hcontext, if_neg (fun h => absurd h.1 (by omega)), hblock.time_mod, hcheck]
      rfl
    · cases hcheck

/-! ## On the fork -/

/-- The output of `stakedTx`, as the wallet has it. -/
def forkInput : CPivStake := ⟨stakedTx, 0, none⟩

/-- The block that stakes it on the tip, at a time. -/
def forkBlockAt (nTime : Nat) : CBlock := { forkBlock with nTime := nTime }

theorem forkInput_spendable : upNode.Spendable forkInput 1 where
  fresh := rfl
  finds := upNode_finds
  mem := forkIndex_mem
  anc := upNode_anc
  out := by decide

theorem forkBlockAt_stakes {nTime : Nat} (hlt : nTime < 2 ^ 32) :
    upNode.StakesOutput (fun _ _ => true) 0x207fffff forkInput nTime (forkBlockAt nTime) where
  prev := (by decide : forkBlock.hashPrevBlock = (forkIndex.index.entry upNode.tip).hash)
  pos := (by decide : forkBlock.isProofOfStake = true)
  bits := rfl
  time := rfl
  time_lt := hlt
  spends := ⟨forkStake, _, rfl, rfl, rfl, rfl⟩

/-- `Stake` finds a kernel in the slot that starts at 9030, and the block passes. -/
theorem staker_agrees_fork :
    upNode.stake testNetStakeParams hash256 upNode.tip 0x207fffff 9031 forkInput 0 = some (true, 9030) ∧
    upNode.checkProofOfStake testNetStakeParams hash256 (fun _ _ => true) (forkBlockAt 9030) upNode.tip = some true := by
  have hagrees := staker_agrees .testNet hash256 (fun _ _ => true) forkInput_spendable 0x207fffff 9031
  have hstake : upNode.stake testNetStakeParams hash256 upNode.tip 0x207fffff 9031 forkInput 0 = some (true, 9030) := by
    decide +kernel
  exact ⟨hstake, hagrees.1 0 9030 _ hstake (forkBlockAt_stakes (by decide))⟩

/-- On regtest `Stake` does not try the current time slot but the adjusted time. -/
theorem staker_misses_slot : ¬ ∀ (net : Network) (verifyScript : CTransaction → CTransaction → Bool) (n : StakeIndex)
    (s : StakeNode n) (input : CPivStake) (pindexFrom : Ptr), s.Spendable input pindexFrom →
    ∀ (nBits : Nat) (adjustedTime : Int) (block : CBlock),
      ((n.entry s.tip).nTime : Int) < getTimeSlot net.params adjustedTime →
      s.StakesOutput verifyScript nBits input (getTimeSlot net.params adjustedTime) block →
      s.checkProofOfStake net.params hash256 verifyScript block s.tip = some true →
      s.stake net.params hash256 s.tip nBits adjustedTime input 0 = some (true, getTimeSlot net.params adjustedTime) := by
  intro hall
  have h := hall .regTest (fun _ _ => true) forkIndex upNode forkInput 1 forkInput_spendable 0x207fffff 9031
    (forkBlockAt 9030) (by decide) (forkBlockAt_stakes (by decide)) (by decide +kernel)
  exact absurd h (by decide +kernel)

end StakeNode

end DigiWage
