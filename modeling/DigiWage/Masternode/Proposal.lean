import DigiWage.Masternode.Payout
import Mathlib.Order.Interval.Set.Infinite
import Mathlib.Data.Int.Interval
import Mathlib.Data.Set.Card

/-!
# When a proposal is paid

The constructor of `CBudgetProposalBroadcast` and `CBudgetProposal::IsPassing`. Block heights are `int`, and wrap around.

* `coversPeriod_iff`: a proposal for `n` payments from the cycle `m` on covers the cycles `m, …, m + n - 1`, if its end fits.
-/

namespace DigiWage

namespace CBudgetProposal

variable {env : BudgetEnv} {hash : Uint256} {p : CBudgetProposal}

/-- The last check of `CBudgetProposal::IsValid`: the tip is above the last block at which the proposal is valid. -/
def expired (env : BudgetEnv) (p : CBudgetProposal) : Bool :=
  env.tipHeight.any fun nHeight =>
    decide ((p.nBlockStart + env.nBudgetCycleBlocks * p.getTotalPaymentCount env).bmod (2 ^ 32) < nHeight)

/-- The other checks. -/
structure Sound (env : BudgetEnv) (hash : Uint256) (p : CBudgetProposal) : Prop where
  support : p.getNays - p.getYeas ≤ (env.countEnabled / 10 : Nat)
  start : 0 ≤ p.nBlockStart
  start_le_end : p.nBlockStart ≤ p.nBlockEnd
  least : 10 * COIN ≤ p.nAmount
  paid : p.address.empty = false
  collateral : (env.isBudgetCollateralValid p.nFeeTXHash hash false).1 = true
  single : p.address.isPayToScriptHash = false
  most : p.nAmount ≤ env.getTotalBudget p.nBlockStart

theorem isValid_iff : p.isValid env hash = true ↔ p.Sound env hash ∧ p.expired env = false := by
  have hunfold : p.isValid env hash = if ((env.countEnabled / 10 : Nat) : Int) < p.getNays - p.getYeas then false
      else if p.nBlockStart < 0 then false
      else if p.nBlockEnd < p.nBlockStart then false
      else if p.nAmount < 10 * COIN then false
      else if p.address.empty then false
      else if !(env.isBudgetCollateralValid p.nFeeTXHash hash false).1 then false
      else if p.address.isPayToScriptHash then false
      else if env.getTotalBudget p.nBlockStart < p.nAmount then false
      else !p.expired env := by
    unfold isValid expired
    cases env.tipHeight with
    | none => rfl
    | some _ => rfl
  rw [hunfold]
  simp only [CFinalizedBudget.ite_false_iff, Bool.not_eq_true', Bool.not_eq_false, Bool.not_eq_true, Int.not_lt]
  constructor
  · rintro ⟨h1, h2, h3, h4, h5, h6, h7, h8, h9⟩
    exact ⟨⟨h1, h2, h3, h4, h5, h6, h7, h8⟩, h9⟩
  · rintro ⟨h, h9⟩
    exact ⟨h.support, h.start, h.start_le_end, h.least, h.paid, h.collateral, h.single, h.most, h9⟩

/-! ## The periods of a proposal -/

/-- `CBudgetProposalBroadcast`, for a number of payments. -/
def broadcast (env : BudgetEnv) (strProposalName strURL : String) (nPaymentCount : Int) (address : CScript)
    (nAmount nBlockStart : Int) (nFeeTXHash : Uint256) : CBudgetProposal :=
  let nCycleStart := nBlockStart - nBlockStart.tmod env.nBudgetCycleBlocks
  ⟨true, strProposalName, strURL, nBlockStart, (nCycleStart + (env.nBudgetCycleBlocks + 1) * nPaymentCount).bmod (2 ^ 32),
    nAmount, address, nFeeTXHash, ∅⟩

/-- The conditions of `IsPassing` on the blocks. -/
def coversPeriod (p : CBudgetProposal) (nBlockStartBudget nBlockEndBudget : Int) : Bool :=
  decide (p.nBlockStart ≤ nBlockStartBudget) && decide (nBlockEndBudget ≤ p.nBlockEnd)

/-- The cycles that `GetBudget` considers at some height, and which the proposal covers. -/
def paidPeriods (env : BudgetEnv) (p : CBudgetProposal) : Set Int :=
  { k | (∃ nHeight : Nat, env.nextBlockStart nHeight = k * env.nBudgetCycleBlocks) ∧
    p.coversPeriod (k * env.nBudgetCycleBlocks) (k * env.nBudgetCycleBlocks + env.nBudgetCycleBlocks - 1) = true }

theorem exists_nextBlockStart_iff (hC : 0 < env.nBudgetCycleBlocks) (k : Int) :
    (∃ nHeight : Nat, env.nextBlockStart nHeight = k * env.nBudgetCycleBlocks) ↔ 1 ≤ k := by
  unfold BudgetEnv.nextBlockStart
  constructor
  · rintro ⟨n, hn⟩
    have h := Int.tmod_add_mul_tdiv (n : Int) env.nBudgetCycleBlocks
    have hq : 0 ≤ (n : Int).tdiv env.nBudgetCycleBlocks := Int.tdiv_nonneg (by omega) hC.le
    have hk : (k - 1) * env.nBudgetCycleBlocks = (n : Int).tdiv env.nBudgetCycleBlocks * env.nBudgetCycleBlocks := by
      rw [Int.sub_mul, ← hn, Int.mul_comm ((n : Int).tdiv _)]
      omega
    have := Int.eq_of_mul_eq_mul_right hC.ne' hk
    omega
  · intro hk
    refine ⟨((k - 1) * env.nBudgetCycleBlocks).toNat, ?_⟩
    have h0 : 0 ≤ (k - 1) * env.nBudgetCycleBlocks := Int.mul_nonneg (by omega) hC.le
    rw [Int.toNat_of_nonneg h0, Int.mul_tmod_left, Int.sub_mul]
    omega

/-! ## Passing -/

/-- `CBudgetProposal` with the fields that `GetBudget` reads beside, and the amount that it allots. -/
structure Listed extends CBudgetProposal where
  nTime : Int
  nAlloted : Int
deriving DecidableEq

/-- `GetAdjustedTime()` and the time after which a proposal is established. -/
structure PassingEnv extends BudgetEnv where
  getAdjustedTime : Int
  nProposalEstablishmentTime : Int

def Listed.isEstablished (env : PassingEnv) (p : Listed) : Bool :=
  decide (p.nTime < env.getAdjustedTime - env.nProposalEstablishmentTime)

def Listed.isPassing (env : PassingEnv) (p : Listed) (nBlockStartBudget nBlockEndBudget : Int) (mnCount : Nat) : Bool :=
  if !p.fValid then false
  else if env.tipHeight.isNone then false
  else if nBlockStartBudget < p.nBlockStart then false
  else if p.nBlockEnd < nBlockEndBudget then false
  else if p.getYeas - p.getNays ≤ (mnCount / 10 : Nat) then false
  else if !p.isEstablished env then false
  else true

/-! ## The periods that a proposal covers -/

section

variable {strProposalName strURL : String} {n m nAmount : Int} {address : CScript} {nFeeTXHash : Uint256}

/-- The end block, and the distance to it, fit. -/
theorem broadcast_end (hstart : 0 ≤ m) (hn : 1 ≤ n) (hC : n + 1 < env.nBudgetCycleBlocks)
    (hfits : m * env.nBudgetCycleBlocks + (env.nBudgetCycleBlocks + 1) * n < 2 ^ 31) :
    (broadcast env strProposalName strURL n address nAmount (m * env.nBudgetCycleBlocks) nFeeTXHash).nBlockEnd =
      m * env.nBudgetCycleBlocks + (env.nBudgetCycleBlocks + 1) * n ∧ 0 ≤ m * env.nBudgetCycleBlocks ∧
      0 ≤ (env.nBudgetCycleBlocks + 1) * n := by
  have hfirst : 0 ≤ m * env.nBudgetCycleBlocks := Int.mul_nonneg hstart (by omega)
  have hlength : 0 ≤ (env.nBudgetCycleBlocks + 1) * n := Int.mul_nonneg (by omega) (by omega)
  refine ⟨?_, hfirst, hlength⟩
  simp only [broadcast, Int.mul_tmod_left, Int.sub_zero]
  exact Int.bmod_eq_of_le (by omega) (by omega)

theorem coversPeriod_iff (hstart : 0 ≤ m) (hn : 1 ≤ n) (hC : n + 1 < env.nBudgetCycleBlocks)
    (hfits : m * env.nBudgetCycleBlocks + (env.nBudgetCycleBlocks + 1) * n < 2 ^ 31) (k : Int) :
    (broadcast env strProposalName strURL n address nAmount (m * env.nBudgetCycleBlocks) nFeeTXHash).coversPeriod
      (k * env.nBudgetCycleBlocks) (k * env.nBudgetCycleBlocks + env.nBudgetCycleBlocks - 1) = true ↔
      m ≤ k ∧ k < m + n := by
  have hpos : 0 < env.nBudgetCycleBlocks := by omega
  unfold coversPeriod
  rw [(broadcast_end hstart hn hC hfits).1, Bool.and_eq_true, decide_eq_true_eq, decide_eq_true_eq, broadcast]
  clear hfits
  generalize env.nBudgetCycleBlocks = C at hC hpos ⊢
  refine and_congr (Int.mul_le_mul_right hpos) ?_
  constructor
  · intro h
    have hlt : (k - m) * C < n * C := by
      rw [Int.sub_mul]
      rw [Int.add_mul, Int.one_mul, Int.mul_comm C n] at h
      omega
    have := Int.lt_of_mul_lt_mul_right hlt hpos.le
    omega
  · intro h
    have hle : (k + 1) * C ≤ (m + n) * C := Int.mul_le_mul_of_nonneg_right (by omega) hpos.le
    rw [Int.add_mul, Int.add_mul, Int.one_mul] at hle
    rw [Int.add_mul, Int.one_mul, Int.mul_comm C n]
    omega

theorem getTotalPaymentCount_broadcast (hstart : 0 ≤ m) (hn : 1 ≤ n) (hC : n + 1 < env.nBudgetCycleBlocks)
    (hfits : m * env.nBudgetCycleBlocks + (env.nBudgetCycleBlocks + 1) * n < 2 ^ 31) :
    (broadcast env strProposalName strURL n address nAmount (m * env.nBudgetCycleBlocks)
      nFeeTXHash).getTotalPaymentCount env = n := by
  have hpos : 0 < env.nBudgetCycleBlocks := by omega
  obtain ⟨hend, hfirst, hlength⟩ := @broadcast_end env strProposalName strURL n m nAmount address nFeeTXHash hstart hn hC hfits
  have hcycle : (broadcast env strProposalName strURL n address nAmount (m * env.nBudgetCycleBlocks)
      nFeeTXHash).getBlockStartCycle env = m * env.nBudgetCycleBlocks := by
    simp only [getBlockStartCycle, broadcast, Int.mul_tmod_left, Int.sub_zero]
  rw [getTotalPaymentCount, hend, hcycle, add_sub_cancel_left, Int.bmod_eq_of_le (by omega) (by omega),
    Int.tdiv_eq_ediv_of_nonneg hlength, Int.add_mul, Int.one_mul, Int.mul_comm, Int.add_comm,
    Int.add_mul_ediv_right _ _ hpos.ne', Int.ediv_eq_zero_of_lt (by omega) (by omega), Int.zero_add]

end

/-- The proposal is paid `n` times, counts `n` payments, and does not expire before the last of these superblocks. -/
def PaidAsOften (env : BudgetEnv) (n : Int) (p : CBudgetProposal) : Prop :=
  (p.paidPeriods env).ncard = n ∧ p.getTotalPaymentCount env = n ∧
    ∀ k ∈ p.paidPeriods env, ∀ nHeight ≤ k * env.nBudgetCycleBlocks,
      p.expired { env with tipHeight := some nHeight } = false

/-- **Payments.** A proposal for `n` payments that starts at a superblock is paid as often as it asks for, if its end block fits. -/
theorem paid_nPaymentCount_times (env : BudgetEnv) (strProposalName strURL : String) (n : Int) (address : CScript)
    (nAmount nBlockStart : Int) (nFeeTXHash : Uint256) (hstart : 0 < nBlockStart)
    (haligned : nBlockStart.tmod env.nBudgetCycleBlocks = 0) (hn : 1 ≤ n) (hC : n + 1 < env.nBudgetCycleBlocks)
    (hfits : nBlockStart + (env.nBudgetCycleBlocks + 1) * n < 2 ^ 31) :
    PaidAsOften env n (broadcast env strProposalName strURL n address nAmount nBlockStart nFeeTXHash) := by
  have hpos : 0 < env.nBudgetCycleBlocks := by omega
  obtain ⟨m, rfl⟩ : ∃ m, nBlockStart = m * env.nBudgetCycleBlocks := by
    obtain ⟨m, hm⟩ := Int.dvd_of_tmod_eq_zero haligned
    exact ⟨m, by rw [hm, Int.mul_comm]⟩
  have hm : 0 < m := Int.pos_of_mul_pos_left hstart hpos
  have hperiods : (broadcast env strProposalName strURL n address nAmount (m * env.nBudgetCycleBlocks)
      nFeeTXHash).paidPeriods env = Set.Ico m (m + n) := by
    ext k
    rw [Set.mem_Ico, ← coversPeriod_iff hm.le hn hC hfits k]
    show (∃ nHeight : Nat, env.nextBlockStart nHeight = _) ∧ _ ↔ _
    rw [exists_nextBlockStart_iff hpos]
    refine and_iff_right_of_imp fun h => ?_
    have := (coversPeriod_iff hm.le hn hC hfits k).mp h
    omega
  refine ⟨?_, getTotalPaymentCount_broadcast hm.le hn hC hfits, ?_⟩
  · rw [hperiods, ← Finset.coe_Ico, Set.ncard_coe_finset, Int.card_Ico]
    omega
  · intro k hk nHeight hle
    rw [hperiods, Set.mem_Ico] at hk
    have hcount : (broadcast env strProposalName strURL n address nAmount (m * env.nBudgetCycleBlocks)
        nFeeTXHash).getTotalPaymentCount { env with tipHeight := some nHeight } = n :=
      @getTotalPaymentCount_broadcast { env with tipHeight := some nHeight } _ _ n m _ _ _ hm.le hn hC hfits
    have hlast : k * env.nBudgetCycleBlocks ≤ (m + n) * env.nBudgetCycleBlocks :=
      Int.mul_le_mul_of_nonneg_right (by omega) hpos.le
    rw [Int.add_mul, Int.mul_comm n] at hlast
    rw [Int.add_mul, Int.one_mul] at hfits
    have hcycles : 0 ≤ env.nBudgetCycleBlocks * n := Int.mul_nonneg hpos.le (by omega)
    rw [expired, Option.any_some, hcount, decide_eq_false_iff_not, Int.not_lt]
    show _ ≤ (m * env.nBudgetCycleBlocks + env.nBudgetCycleBlocks * n).bmod _
    rw [Int.bmod_eq_of_le (by omega) (by omega)]
    omega

theorem paid_twice :
    PaidAsOften CFinalizedBudget.mainNetNode 2 (broadcast CFinalizedBudget.mainNetNode "proposal" "" 2 [0x51] (10 * COIN) 734400 7) :=
  paid_nPaymentCount_times CFinalizedBudget.mainNetNode "proposal" "" 2 [0x51] (10 * COIN) 734400 7
    (by decide) (by decide) (by decide) (by decide) (by decide)

theorem not_paidAsOften {n : Int} (hn : n ≠ 0) (h : ∀ k : Int, 1 ≤ k →
    p.coversPeriod (k * env.nBudgetCycleBlocks) (k * env.nBudgetCycleBlocks + env.nBudgetCycleBlocks - 1) = false)
    (hC : 0 < env.nBudgetCycleBlocks) : ¬ PaidAsOften env n p := by
  rintro ⟨hcard, -⟩
  have hnone : p.paidPeriods env = ∅ := by
    refine Set.eq_empty_of_forall_notMem fun k hk => ?_
    have hcovers := h k ((exists_nextBlockStart_iff hC k).mp hk.1)
    rw [hk.2] at hcovers
    cases hcovers
  rw [hnone, Set.ncard_empty] at hcard
  exact hn hcard.symm

/-- At the genesis block no proposal is paid, and an end block that does not fit is below the start. -/
theorem not_paid_nPaymentCount_times :
    ¬ PaidAsOften CFinalizedBudget.mainNetNode 1 (broadcast CFinalizedBudget.mainNetNode "proposal" "" 1 [0x51] (10 * COIN) 0 7) ∧
    ¬ PaidAsOften CFinalizedBudget.mainNetNode 43198
      (broadcast CFinalizedBudget.mainNetNode "proposal" "" 43198 [0x51] (10 * COIN) 432000000 7) := by
  constructor <;> refine not_paidAsOften (by decide) (fun k hk => ?_) (by decide)
  · have hend : (broadcast CFinalizedBudget.mainNetNode "proposal" "" 1 [0x51] (10 * COIN) 0 7).nBlockEnd = 43201 := by decide
    rw [coversPeriod, hend, show CFinalizedBudget.mainNetNode.nBudgetCycleBlocks = 43200 from rfl, Bool.and_eq_false_iff]
    exact .inr (decide_eq_false (by omega))
  · have hend : (broadcast CFinalizedBudget.mainNetNode "proposal" "" 43198 [0x51] (10 * COIN) 432000000 7).nBlockEnd =
        -1996770498 := by decide
    rw [coversPeriod, hend, show CFinalizedBudget.mainNetNode.nBudgetCycleBlocks = 43200 from rfl, Bool.and_eq_false_iff]
    exact .inr (decide_eq_false (by omega))

end CBudgetProposal

end DigiWage
