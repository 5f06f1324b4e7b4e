import DigiWage.Masternode.Budget
import DigiWage.Lib.Measure

/-!
# Superblocks

Producer and validator of budget payments, and `IsBlockPayeeValid` of `masternode-payments.cpp`.
-/

namespace DigiWage

open Lib CFinalizedBudget

/-! ## The leading budget -/

namespace BudgetState

variable {m : BudgetState} {nBlockHeight : Int}

/-- The highest count over a list of budgets. -/
def highestOf (nBlockHeight : Int) (bs : List CFinalizedBudget) (n : Int) : Int :=
  bs.foldl (fun n b => if n < b.getVoteCount ∧ b.inWindow nBlockHeight = true then b.getVoteCount else n) n

theorem highestOf_spec (nBlockHeight : Int) : ∀ (bs : List CFinalizedBudget) (n : Int), n ≤ highestOf nBlockHeight bs n ∧
    (∀ b ∈ bs, b.inWindow nBlockHeight = true → b.getVoteCount ≤ highestOf nBlockHeight bs n) ∧
    (highestOf nBlockHeight bs n = n ∨
      ∃ b ∈ bs, b.inWindow nBlockHeight = true ∧ b.getVoteCount = highestOf nBlockHeight bs n)
  | [], n => ⟨Int.le_refl n, by simp, Or.inl rfl⟩
  | b :: bs, n => by
    unfold highestOf
    rw [List.foldl_cons]
    by_cases hb : n < b.getVoteCount ∧ b.inWindow nBlockHeight = true
    · rw [if_pos hb]
      obtain ⟨h₁, h₂, h₃⟩ := highestOf_spec nBlockHeight bs b.getVoteCount
      unfold highestOf at h₁ h₂ h₃
      refine ⟨by omega, ?_, Or.inr ?_⟩
      · intro a ha hw
        rcases List.mem_cons.mp ha with rfl | ha
        · exact h₁
        · exact h₂ a ha hw
      · rcases h₃ with h₃ | ⟨a, ha, hw, h₃⟩
        · exact ⟨b, List.mem_cons_self, hb.2, h₃.symm⟩
        · exact ⟨a, List.mem_cons_of_mem _ ha, hw, h₃⟩
    · rw [if_neg hb]
      obtain ⟨h₁, h₂, h₃⟩ := highestOf_spec nBlockHeight bs n
      unfold highestOf at h₁ h₂ h₃
      refine ⟨h₁, ?_, ?_⟩
      · intro a ha hw
        rcases List.mem_cons.mp ha with rfl | ha
        · have : ¬ n < a.getVoteCount := fun h => hb ⟨h, hw⟩
          omega
        · exact h₂ a ha hw
      · rcases h₃ with h₃ | ⟨a, ha, hw, h₃⟩
        · exact Or.inl h₃
        · exact Or.inr ⟨a, List.mem_cons_of_mem _ ha, hw, h₃⟩

/-- The first of the budgets that pay at the height with the most votes. -/
structure Leads (m : BudgetState) (nBlockHeight : Int) (b : CFinalizedBudget) : Prop where
  inWindow : b.inWindow nBlockHeight = true
  votes : b.getVoteCount = m.highestCount 0 nBlockHeight
  first : ∃ l₁ l₂, m.mapFinalizedBudgets = l₁ ++ b :: l₂ ∧
    ∀ a ∈ l₁, a.inWindow nBlockHeight = true → a.getVoteCount < b.getVoteCount

theorem Leads.unique {b b' : CFinalizedBudget} (h : m.Leads nBlockHeight b) (h' : m.Leads nBlockHeight b') : b = b' := by
  obtain ⟨l₁, l₂, hl, hfirst⟩ := h.first
  obtain ⟨k₁, k₂, hk, hfirst'⟩ := h'.first
  have hvotes := h.votes.trans h'.votes.symm
  rw [hl] at hk
  rcases List.append_eq_append_iff.mp hk with ⟨as, rfl, has⟩ | ⟨as, rfl, has⟩
  · cases as with
    | nil => exact (List.cons.inj has).1
    | cons a as =>
      obtain ⟨rfl, -⟩ := List.cons.inj has
      have := hfirst' b (by simp) h.inWindow
      omega
  · cases as with
    | nil => exact (List.cons.inj has).1.symm
    | cons a as =>
      obtain ⟨rfl, -⟩ := List.cons.inj has
      have := hfirst b' (by simp) h'.inWindow
      omega

theorem highestCount_of_isBudgetPaymentBlock (h : m.isBudgetPaymentBlock nBlockHeight = true) :
    (m.countEnabled / 20 : Nat) < m.highestCount 0 nBlockHeight := by
  unfold isBudgetPaymentBlock at h
  rw [decide_eq_true_eq] at h
  obtain ⟨h₁, -, h₃⟩ := highestOf_spec nBlockHeight m.mapFinalizedBudgets (-1)
  obtain ⟨-, h₂, -⟩ := highestOf_spec nBlockHeight m.mapFinalizedBudgets 0
  unfold highestCount at h ⊢
  unfold highestOf at h₁ h₂ h₃
  rcases h₃ with h₃ | ⟨b, hb, hw, h₃⟩
  · omega
  · have := h₂ b hb hw
    omega

end BudgetState

/-! ## Producer and validator -/

namespace BudgetState

variable {m : BudgetState} {nBlockHeight : Int} {tx : CTransaction} {hist : PaymentHistory}

/-- One of the budgets that the validator asks finds its payment in the transaction once and for the first time. -/
def PaidOnce (m : BudgetState) (hist : PaymentHistory) (tx : CTransaction) (nBlockHeight : Int) : Prop :=
  ∃ l₁ b l₂, counted (m.nCountThreshold nBlockHeight) nBlockHeight m.mapFinalizedBudgets = l₁ ++ b :: l₂ ∧
    b.nPaid tx nBlockHeight = 1 ∧ b.Unpaid (historyAfter nBlockHeight tx l₁ hist) nBlockHeight

theorem isTransactionValid_valid_iff (h : m.isBudgetPaymentBlock nBlockHeight = true) :
    (m.isTransactionValid hist tx nBlockHeight).1 = .valid ↔ m.PaidOnce hist tx nBlockHeight := by
  have hlt := highestCount_of_isBudgetPaymentBlock h
  unfold isTransactionValid
  rw [if_neg (by omega)]
  exact validateLoop_valid_iff (by decide)

/-- A budget of one payment at height 100, with the vote of one masternode. -/
def oneBudget : CFinalizedBudget :=
  ⟨true, "main", 100, [⟨7, ([0x51] : List UInt8), 10 * COIN⟩],
    (∅ : VoteMap Unit).insert ⟨1, 0⟩ ⟨true, ⟨⟨1, 0⟩, ([] : List UInt8), 0⟩, 0, (), 0⟩, 1, 0⟩

end BudgetState

/-! ## `IsBlockPayeeValid` -/

/-- What `IsBlockPayeeValid` asks of the node. -/
structure PayeeEnv where
  isSynced : Bool
  heightLastPoW : Nat
  /-- `SPORK_13_ENABLE_SUPERBLOCKS` and `SPORK_9_MASTERNODE_BUDGET_ENFORCEMENT`. -/
  superblocks : Bool
  budgetEnforcement : Bool
  payments : PaymentEnv
  masternodePayments : CMasternodePayments
  budget : BudgetState

namespace PayeeEnv

variable (env : PayeeEnv)

/-- The transaction that has to make the payment; `none` when the block has no such transaction. -/
def payeeTx (block : CBlock) (nBlockHeight : Int) : Option CTransaction :=
  if (env.heightLastPoW : Int) < nBlockHeight then block.vtx[1]? else block.vtx[0]?

/-- The masternode is paid, or need not be. -/
def masternodePaid (txNew : CTransaction) (nBlockHeight : Int) : Bool :=
  env.masternodePayments.isTransactionValid env.payments txNew nBlockHeight || !env.payments.paymentEnforcement

/-- `IsBlockPayeeValid` on a synced node, for the transaction that makes the payment. -/
def checkPayee (hist : PaymentHistory) (txNew : CTransaction) (nBlockHeight : Int) : Bool × PaymentHistory :=
  if env.superblocks && env.budget.isBudgetPaymentBlock nBlockHeight then
    match env.budget.isTransactionValid hist txNew nBlockHeight with
    | (.valid, hist') => (true, hist')
    | (.inValid, hist') => (!env.budgetEnforcement && env.masternodePaid txNew nBlockHeight, hist')
    -- a double payment, or not enough votes: a masternode gets the payment
    | (_, hist') => (env.masternodePaid txNew nBlockHeight, hist')
  else (env.masternodePaid txNew nBlockHeight, hist)

/-- `IsBlockPayeeValid`; `none` when it reads past the end of the transactions. -/
def isBlockPayeeValid (hist : PaymentHistory) (block : CBlock) (nBlockHeight : Int) : Option (Bool × PaymentHistory) :=
  if !env.isSynced then some (true, hist)
  else
    match env.payeeTx block nBlockHeight with
    | none => none
    | some txNew => some (env.checkPayee hist txNew nBlockHeight)

/-- The status of a transaction when all that the budgets schedule is paid already. -/
def settled (txNew : CTransaction) (nBlockHeight : Int) : TrxValidationStatus :=
  BudgetState.settledLoop (env.budget.nCountThreshold nBlockHeight) nBlockHeight txNew env.budget.mapFinalizedBudgets
    false .inValid

/-- The answer when all that the budgets schedule is paid already: a masternode has to be paid, and with budget
enforcement the last of the budgets that are asked has to be paid. -/
def acceptedPaid (txNew : CTransaction) (nBlockHeight : Int) : Bool :=
  env.masternodePaid txNew nBlockHeight && (!env.budgetEnforcement || env.settled txNew nBlockHeight != .inValid)

variable {env}

theorem checkPayee_fst {hist : PaymentHistory} {txNew : CTransaction} {nBlockHeight : Int}
    (hs : env.superblocks = true) (hb : env.budget.isBudgetPaymentBlock nBlockHeight = true) :
    (env.checkPayee hist txNew nBlockHeight).1 =
      (decide ((env.budget.isTransactionValid hist txNew nBlockHeight).1 = .valid) ||
        env.acceptedPaid txNew nBlockHeight) ∧
    (env.checkPayee hist txNew nBlockHeight).2 = (env.budget.isTransactionValid hist txNew nBlockHeight).2 := by
  have hloop : env.budget.isTransactionValid hist txNew nBlockHeight = BudgetState.validateLoop
      (env.budget.nCountThreshold nBlockHeight) nBlockHeight txNew env.budget.mapFinalizedBudgets false .inValid hist := by
    have hlt := BudgetState.highestCount_of_isBudgetPaymentBlock hb
    unfold BudgetState.isTransactionValid
    rw [if_neg (by omega)]
  have hset : (env.budget.isTransactionValid hist txNew nBlockHeight).1 ≠ .valid →
      (env.budget.isTransactionValid hist txNew nBlockHeight).1 = env.settled txNew nBlockHeight := by
    rw [hloop]
    exact BudgetState.validateLoop_settled
  unfold checkPayee acceptedPaid
  rw [hs, hb]
  rcases hres : env.budget.isTransactionValid hist txNew nBlockHeight with ⟨st, hist'⟩
  rw [hres] at hset
  cases st with
  | valid => simp
  | inValid =>
    rw [← hset (by simp)]
    cases env.budgetEnforcement <;> simp
  | doublePayment =>
    rw [← hset (by simp)]
    simp
  | voteThreshold =>
    rw [← hset (by simp)]
    simp

end PayeeEnv

end DigiWage
