import DigiWage.Chain.Arrivals
import DigiWage.Chain.Active

/-!
# Proof-of-work and the difficulty

`GetNextWorkRequired` and `CheckProofOfWork` of `pow.cpp`. The required target depends on the heights, times and targets
of the chain below only (`nextWork_congr`), so two nodes that have the same block require the same of its children
(`getNextWorkRequired_congr`).

* An entry and its ancestors are a list of entries, the entry first.
* `*=` takes a `uint32_t`, so that the factor is cut to 32 bits.
-/

namespace DigiWage

open Lib

/-- `Consensus::Params`, as far as the checks of headers and of stakes use it. -/
structure ConsensusParams where
  isRegTestNet : Bool
  powLimit : Uint256
  posLimitV1 : Uint256
  posLimitV2 : Uint256
  nTargetTimespan : Nat
  nTargetTimespanV2 : Nat
  nTargetSpacing : Nat
  nFutureTimeDriftPoW : Nat
  nFutureTimeDriftPoS : Nat
  nTimeSlotLength : Nat
  nStakeMinAge : Nat
  nStakeMinDepth : Nat
  heightLastPoW : Nat
  heightStartStakeModifierV2 : Nat
  heightStartTimeProtoV2 : Nat
  heightStartZC : Nat
  heightRHF : Nat
  spacing_pos : 0 < nTargetSpacing

theorem sixty_pos : 0 < 60 := by decide

namespace ConsensusParams

variable (params : ConsensusParams)

def targetTimespan (fV2 : Bool) : Nat := if fV2 then params.nTargetTimespanV2 else params.nTargetTimespan

def proofOfStakeLimit (fV2 : Bool) : Uint256 := if fV2 then params.posLimitV2 else params.posLimitV1

def isTimeProtocolV2 (nHeight : Nat) : Bool := decide (params.heightStartTimeProtoV2 ≤ nHeight)

def isStakeModifierV2 (nHeight : Nat) : Bool := decide (params.heightStartStakeModifierV2 ≤ nHeight)

def futureBlockTimeDrift (nHeight : Nat) : Int :=
  if params.isTimeProtocolV2 nHeight then (params.nTimeSlotLength : Int) - 1
  else if params.heightLastPoW < nHeight then params.nFutureTimeDriftPoS else params.nFutureTimeDriftPoW

def isValidBlockTimeStamp (nTime : Nat) (nHeight : Nat) : Bool :=
  !params.isTimeProtocolV2 nHeight || nTime % params.nTimeSlotLength == 0

/-- The sum of the times is a `uint32_t`. -/
def hasStakeMinAgeOrDepth (contextHeight contextTime utxoFromBlockHeight utxoFromBlockTime : Nat) : Bool :=
  if !params.isStakeModifierV2 contextHeight then
    decide ((utxoFromBlockTime + params.nStakeMinAge) % 2 ^ 32 ≤ contextTime)
  else decide ((params.nStakeMinDepth : Int) ≤ (contextHeight : Int) - utxoFromBlockHeight)

end ConsensusParams

/-! ## `GetNextWorkRequired` -/

/-- `uint256::operator*=(uint32_t)` with a signed factor. -/
def mulUint32 (v : Uint256) (k : Int) : Uint256 := v * BitVec.ofNat 256 (k % 2 ^ 32).toNat

/-- The target after the last proof-of-work block: it changes with every block, towards the target spacing. -/
def nextTargetPoS (params : ConsensusParams) (pindexLast pprev : CBlockIndex) : Nat :=
  let fTimeV2 := params.isTimeProtocolV2 (pindexLast.nHeight + 1)
  let bnTargetLimit := params.proofOfStakeLimit fTimeV2
  let nActualSpacing : Int := (pindexLast.nTime : Int) - pprev.nTime
  let nActualSpacing : Int := if nActualSpacing < 0 then 1 else nActualSpacing
  let nActualSpacing : Int := if fTimeV2 && decide (params.nTargetSpacing * 10 < nActualSpacing)
    then params.nTargetSpacing * 10 else nActualSpacing
  let bnNew := (setCompact pindexLast.nBits).1
  -- on the first block with the V2 time protocol, reduce the difficulty by a factor 16
  let bnNew := if fTimeV2 && !params.isTimeProtocolV2 pindexLast.nHeight then bnNew <<< 4 else bnNew
  let nInterval := params.targetTimespan fTimeV2 / params.nTargetSpacing
  let bnNew := mulUint32 bnNew (((nInterval : Int) - 1) * params.nTargetSpacing + nActualSpacing + nActualSpacing)
  let bnNew := bnNew / BitVec.ofNat 256 ((nInterval + 1) * params.nTargetSpacing)
  getCompact (if bnNew = 0 ∨ bnTargetLimit < bnNew then bnTargetLimit else bnNew)

/-- The variables of the loop of DarkGravity. -/
structure DarkGravity where
  countBlocks : Nat
  pastDifficultyAverage : Uint256
  nActualTimespan : Int
  lastBlockTime : Nat

/-- The loop over the last 24 blocks. -/
def darkGravityLoop : List CBlockIndex → DarkGravity → DarkGravity
  | [], g => g
  | blockReading :: rest, g =>
    if blockReading.nHeight = 0 ∨ 24 < g.countBlocks + 1 then g
    else
      let countBlocks := g.countBlocks + 1
      let target := (setCompact blockReading.nBits).1
      darkGravityLoop rest
        { countBlocks := countBlocks
          pastDifficultyAverage := if countBlocks = 1 then target
            else (g.pastDifficultyAverage * BitVec.ofNat 256 countBlocks + target) / BitVec.ofNat 256 (countBlocks + 1)
          nActualTimespan := if 0 < g.lastBlockTime
            then g.nActualTimespan + ((g.lastBlockTime : Int) - blockReading.nTime) else g.nActualTimespan
          lastBlockTime := blockReading.nTime }

/-- The target before the last proof-of-work block: DarkGravity v3. -/
def nextTargetPoW (params : ConsensusParams) (chain : List CBlockIndex) : Nat :=
  let g := darkGravityLoop chain ⟨0, 0, 0, 0⟩
  let nTargetTimespan : Nat := g.countBlocks * params.nTargetSpacing
  let nActualTimespan : Int := if g.nActualTimespan < (nTargetTimespan / 3 : Nat) then (nTargetTimespan / 3 : Nat)
    else g.nActualTimespan
  let nActualTimespan : Int := if (nTargetTimespan * 3 : Nat) < nActualTimespan then (nTargetTimespan * 3 : Nat)
    else nActualTimespan
  let bnNew := mulUint32 g.pastDifficultyAverage nActualTimespan / BitVec.ofNat 256 nTargetTimespan
  getCompact (if params.powLimit < bnNew then params.powLimit else bnNew)

/-- `GetNextWorkRequired`, on `pindexLast` and its ancestors. -/
def nextWork (params : ConsensusParams) : List CBlockIndex → Nat
  | [] => getCompact params.powLimit
  | pindexLast :: rest =>
    if params.isRegTestNet then pindexLast.nBits
    else if pindexLast.nHeight < 24 then getCompact params.powLimit
    else if params.heightLastPoW ≤ pindexLast.nHeight then
      match rest with
      -- an entry at such a height has a parent
      | [] => getCompact params.powLimit
      | pprev :: _ => nextTargetPoS params pindexLast pprev
    else nextTargetPoW params (pindexLast :: rest)

def getNextWorkRequired (params : ConsensusParams) (t : BlockIndex) (pindexLast : Ptr) : Nat :=
  nextWork params ((t.path pindexLast).map t.entry)

def checkProofOfWork (params : ConsensusParams) (hash : Uint256) (nBits : Nat) : Bool :=
  let (bnTarget, fNegative, fOverflow) := setCompact nBits
  params.isRegTestNet ||
    (!(fNegative || bnTarget == 0 || fOverflow || decide (params.powLimit < bnTarget)) && !decide (bnTarget < hash))

/-! ## The chain decides -/

/-- Two entries look the same to `GetNextWorkRequired`. -/
def SameWork (a b : CBlockIndex) : Prop := a.nHeight = b.nHeight ∧ a.nTime = b.nTime ∧ a.nBits = b.nBits

theorem darkGravityLoop_congr {l l' : List CBlockIndex} (h : List.Forall₂ SameWork l l') :
    ∀ g, darkGravityLoop l g = darkGravityLoop l' g := by
  induction h with
  | nil => exact fun _ => rfl
  | cons hab _ ih =>
    obtain ⟨hh, ht, hb⟩ := hab
    intro g
    simp only [darkGravityLoop, hh, ht, hb, ih]

theorem nextWork_congr {params : ConsensusParams} {l l' : List CBlockIndex} (h : List.Forall₂ SameWork l l') :
    nextWork params l = nextWork params l' := by
  cases h with
  | nil => rfl
  | cons hab hrest =>
    obtain ⟨hh, ht, hb⟩ := hab
    have hloop := darkGravityLoop_congr (.cons ⟨hh, ht, hb⟩ hrest)
    unfold nextWork
    cases hrest with
    | nil => simp only [hh, hb, nextTargetPoW, hloop]
    | cons hcd _ => simp only [hh, ht, hb, hcd.2.1, nextTargetPoW, nextTargetPoS, hloop]

theorem IndexOf.sameWork {src : BlockSource} {t t' : BlockIndex} (h : IndexOf src t) (h' : IndexOf src t') :
    ∀ p ∈ t.mapBlockIndex, ∀ p' ∈ t'.mapBlockIndex, (t.entry p).hash = (t'.entry p').hash →
      List.Forall₂ SameWork ((t.path p).map t.entry) ((t'.path p').map t'.entry) := by
  refine t.rooted.induct_on fun p hp ih p' hp' hhash => ?_
  have htime : (t.entry p).nTime = (t'.entry p').nTime := by rw [h.nTime p hp, h'.nTime p' hp', hhash]
  have hbits : (t.entry p).nBits = (t'.entry p').nBits := by rw [h.nBits p hp, h'.nBits p' hp', hhash]
  rcases h.parent p hp with ⟨hg, hpar⟩ | ⟨hg, q, hq, hqh⟩
  · have hpar' : t'.pprev p' = none := by
      rcases h'.parent p' hp' with ⟨-, hpar'⟩ | ⟨hg', -⟩
      · exact hpar'
      · exact absurd (hhash.symm.trans hg) hg'
    rw [t.path_none hp hpar, t'.path_none hp' hpar']
    exact .cons ⟨(t.rooted.root hp hpar).trans (t'.rooted.root hp' hpar').symm, htime, hbits⟩ .nil
  · obtain ⟨q', hq', hqh'⟩ : ∃ q', t'.pprev p' = some q' ∧
        (t'.entry q').hash = (src.block (t'.entry p').hash).hashPrevBlock := by
      rcases h'.parent p' hp' with ⟨hg', -⟩ | ⟨-, h⟩
      · exact absurd (hhash.trans hg') hg
      · exact h
    have hrest := ih q hq q' (t'.rooted.mem hp' hq') (by rw [hqh, hqh', hhash])
    rw [t.path_some hp hq, t'.path_some hp' hq']
    refine .cons ⟨?_, htime, hbits⟩ hrest
    -- the heights are one above those of the parents
    have hhead : t.nHeight q = t'.nHeight q' := by
      obtain ⟨l, hl⟩ := CChain.path_head (t.rooted.mem hp hq)
      obtain ⟨l', hl'⟩ := CChain.path_head (t'.rooted.mem hp' hq')
      rw [hl, hl'] at hrest
      cases hrest with
      | cons hab _ => exact hab.1
    have h₁ : (t.entry p).nHeight = t.nHeight q + 1 := t.rooted.succ hp hq
    have h₂ : (t'.entry p').nHeight = t'.nHeight q' + 1 := t'.rooted.succ hp' hq'
    rw [h₁, h₂, hhead]

theorem getNextWorkRequired_congr {src : BlockSource} {params : ConsensusParams} {t t' : BlockIndex}
    (h : IndexOf src t) (h' : IndexOf src t') {p p' : Ptr} (hp : p ∈ t.mapBlockIndex) (hp' : p' ∈ t'.mapBlockIndex)
    (hhash : (t.entry p).hash = (t'.entry p').hash) :
    getNextWorkRequired params t p = getNextWorkRequired params t' p' :=
  nextWork_congr (h.sameWork h' p hp p' hp' hhash)

end DigiWage
