import DigiWage.Masternode.Manager
import Mathlib.Algebra.Order.BigOperators.Group.List

/-!
# What a finalized budget pays

`CFinalizedBudget::IsValid` compares `GetTotalPayout` with `GetTotalBudget`, and looks at no amount by itself.

* `isValid_iff`: the checks of `IsValid` as a structure.
-/

namespace DigiWage

theorem between_ite {p : Prop} [Decidable p] {lo hi a b : Int} (ha : lo ≤ a ∧ a ≤ hi) (hb : lo ≤ b ∧ b ≤ hi) :
    lo ≤ (if p then a else b) ∧ (if p then a else b) ≤ hi := by
  split
  · exact ha
  · exact hb

theorem BudgetEnv.getTotalBudget_bounds (env : BudgetEnv) (nHeight : Int) :
    0 ≤ env.getTotalBudget nHeight ∧ env.getTotalBudget nHeight ≤ 648000 * COIN := by
  have hsubsidy : ∀ n : Int, 0 ≤ n ∧ n ≤ 50 * COIN →
      0 ≤ n / 100 * 10 * 1440 * 30 ∧ n / 100 * 10 * 1440 * 30 ≤ 648000 * COIN := by
    unfold COIN
    intro n hn
    omega
  unfold BudgetEnv.getTotalBudget
  cases env.tipHeight with
  | none => simp [COIN]
  | some _ =>
    refine between_ite (by decide) (between_ite (by decide) (hsubsidy _ ?_))
    iterate 11 refine between_ite (by decide) ?_
    decide

/-- The first block of the superblock after a height. -/
def BudgetEnv.nextBlockStart (env : BudgetEnv) (nHeight : Int) : Int :=
  nHeight - nHeight.tmod env.nBudgetCycleBlocks + env.nBudgetCycleBlocks

theorem BudgetEnv.nextBlockStart_tmod (env : BudgetEnv) (nHeight : Int) :
    (env.nextBlockStart nHeight).tmod env.nBudgetCycleBlocks = 0 := by
  have h := Int.tmod_add_mul_tdiv nHeight env.nBudgetCycleBlocks
  have hnext : env.nextBlockStart nHeight =
      env.nBudgetCycleBlocks * (nHeight.tdiv env.nBudgetCycleBlocks + 1) := by
    unfold nextBlockStart
    rw [Int.mul_add, Int.mul_one]
    omega
  rw [hnext, Int.mul_tmod_right]

namespace CFinalizedBudget

variable {env : BudgetEnv} {hash : Uint256} {b : CFinalizedBudget}

/-- The checks of `CFinalizedBudget::IsValid` but the collateral. -/
structure Proper (env : BudgetEnv) (b : CFinalizedBudget) : Prop where
  aligned : b.nBlockStart.tmod env.nBudgetCycleBlocks = 0
  count : b.vecBudgetPayments.length ≤ 100
  named : b.strBudgetName ≠ ""
  start : b.nBlockStart ≠ 0
  fee : b.nFeeTXHash ≠ 0
  payout : b.getTotalPayout ≤ env.getTotalBudget b.nBlockStart
  age : ∀ nHeight, env.tipHeight = some nHeight →
    env.nextBlockStart nHeight - 2 * env.nBudgetCycleBlocks ≤ b.getBlockEnd

theorem ite_false_iff {p : Prop} [Decidable p] {a : Bool} : (if p then false else a) = true ↔ ¬ p ∧ a = true := by
  by_cases h : p
  · simp [h]
  · simp [h]

theorem isValid_iff : b.isValid env hash = true ↔
    b.Proper env ∧ (env.isBudgetCollateralValid b.nFeeTXHash hash true).1 = true := by
  have hend : b.getBlockEnd - b.nBlockStart = b.vecBudgetPayments.length - 1 := by
    unfold getBlockEnd
    omega
  unfold isValid
  simp only [ite_false_iff, Bool.not_eq_true', Bool.not_eq_false, hend]
  constructor
  · rintro ⟨h1, -, h3, h4, h5, h6, h7, h8, h9⟩
    refine ⟨⟨not_not.mp h1, by omega, h4, h5, h6, by omega, fun nHeight ht => ?_⟩, h8⟩
    rw [ht] at h9
    simpa [BudgetEnv.nextBlockStart] using h9
  · rintro ⟨h, h8⟩
    have := h.count
    refine ⟨not_not.mpr h.aligned, by omega, by omega, h.named, h.start, h.fee, Int.not_lt.mpr h.payout, h8, ?_⟩
    have hage := h.age
    cases ht : env.tipHeight with
    | none => rfl
    | some n => simpa [BudgetEnv.nextBlockStart] using hage n ht

/-! ## The payout -/

/-- The sum of the amounts, as unbounded integers. -/
def exactPayout (b : CFinalizedBudget) : Int := (b.vecBudgetPayments.map CTxBudgetPayment.nAmount).sum

theorem getTotalPayout_eq (b : CFinalizedBudget) : b.getTotalPayout = b.exactPayout.bmod (2 ^ 64) := by
  have hfold : ∀ (l : List CTxBudgetPayment) (n : Int),
      l.foldl (fun ret payment => (ret + payment.nAmount).bmod (2 ^ 64)) (n.bmod (2 ^ 64)) =
        (n + (l.map CTxBudgetPayment.nAmount).sum).bmod (2 ^ 64) := by
    intro l
    induction l with
    | nil => intro n; simp
    | cons payment l ih =>
      intro n
      rw [List.foldl_cons, Int.bmod_add_bmod, ih, List.map_cons, List.sum_cons, Int.add_assoc]
  have h := hfold b.vecBudgetPayments 0
  rw [Int.zero_add] at h
  exact h

theorem getTotalPayout_of_lt (h0 : 0 ≤ b.exactPayout) (h : b.exactPayout < 2 ^ 63) : b.getTotalPayout = b.exactPayout := by
  rw [getTotalPayout_eq]
  exact Int.bmod_eq_of_le (by omega) (by omega)

/-- The budget makes payments, of positive amounts, and no more than the limit in all. -/
structure PaysWithin (env : BudgetEnv) (b : CFinalizedBudget) : Prop where
  pays : b.vecBudgetPayments ≠ []
  positive : ∀ payment ∈ b.vecBudgetPayments, 0 < payment.nAmount
  within : b.exactPayout ≤ env.getTotalBudget b.nBlockStart

/-- A valid budget keeps within the limit exactly when it has a payment, its amounts are positive and their sum does not
wrap. -/
theorem paysWithin_iff (h : b.isValid env hash = true) : b.PaysWithin env ↔ b.vecBudgetPayments ≠ [] ∧
    (∀ payment ∈ b.vecBudgetPayments, 0 < payment.nAmount) ∧ b.exactPayout < 2 ^ 63 := by
  obtain ⟨hproper, -⟩ := isValid_iff.mp h
  constructor
  · rintro ⟨hpays, hpos, hle⟩
    have := (env.getTotalBudget_bounds b.nBlockStart).2
    unfold COIN at this
    exact ⟨hpays, hpos, by omega⟩
  · rintro ⟨hpays, hpos, hlt⟩
    have h0 : 0 ≤ b.exactPayout := by
      refine List.sum_nonneg (List.forall_mem_map.mpr fun payment hp => ?_)
      exact Int.le_of_lt (hpos payment hp)
    refine ⟨hpays, hpos, ?_⟩
    rw [← getTotalPayout_of_lt h0 hlt]
    exact hproper.payout

/-! ## Budgets of the main network -/

/-- A node of the main network at height 700000, which finds every collateral valid. -/
def mainNetNode : BudgetEnv where
  now := 1700000000
  isTestNet := false
  heightLastPoW := 1000
  heightStartZCSerialsV2 := 2 ^ 31 - 1
  nBudgetCycleBlocks := 43200
  tipHeight := some 700000
  countEnabled := 100
  isBudgetCollateralValid _ _ _ := (true, 6)
  known _ := true
  checkBudgetVoteSignature _ _ := true
  checkFinalizedBudgetVoteSignature _ _ := true
  fLiteMode := false
  isBlockchainSynced := true
  isSynced := true
  budgetSynced := true
  rand := 0

/-- A budget of the superblock at height 734400 with these amounts. -/
def budgetOf (amounts : List Int) : CFinalizedBudget :=
  ⟨true, "main", 734400, amounts.map fun nAmount => ⟨1, [0x51], nAmount⟩, ∅, 8, 0⟩

theorem paysWithin_budgetOf : (budgetOf [10 * COIN, 20 * COIN]).PaysWithin mainNetNode ↔
    (budgetOf [10 * COIN, 20 * COIN]).vecBudgetPayments ≠ [] ∧
      (∀ payment ∈ (budgetOf [10 * COIN, 20 * COIN]).vecBudgetPayments, 0 < payment.nAmount) ∧
      (budgetOf [10 * COIN, 20 * COIN]).exactPayout < 2 ^ 63 :=
  @paysWithin_iff mainNetNode 2 _ (by decide)

/-- A budget without payments, one with a negative amount, and one whose amounts add up to `2 ^ 64` are valid. -/
theorem not_paysWithin : ¬ ∀ (env : BudgetEnv) (hash : Uint256) (b : CFinalizedBudget), b.isValid env hash = true →
    b.PaysWithin env := by
  intro h
  exact (h mainNetNode 2 (budgetOf []) (by decide)).pays rfl

example : (budgetOf [-1]).isValid mainNetNode 2 = true ∧
    (budgetOf [2 ^ 63 - 1, 2 ^ 63 - 1, 2]).isValid mainNetNode 2 = true := by decide

end CFinalizedBudget

end DigiWage
