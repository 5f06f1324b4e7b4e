import DigiWage.Masternode.Votes
import DigiWage.Masternode.Payments

/-!
# Finalized budgets

`CFinalizedBudget` and the part of `CBudgetManager` that pays them: `IsBudgetPaymentBlock`, `FillBlockPayee`,
`IsTransactionValid` and the payment history of `IsPaidAlready`.

* `mapFinalizedBudgets` is the list of its budgets, in the order of the map.
* `mapPayment_History` is a global of `masternode-budget.cpp`. It is passed along and returned.
* `isTransactionValid_spec`: what one budget says about a transaction, by the number of outputs that make its payment.
* `validateLoop_valid_iff`, `validateLoop_settled`: the manager says `Valid` when a budget does, and otherwise what it
  says when all is paid already.
-/

namespace DigiWage

inductive TrxValidationStatus where
  | inValid
  | valid
  | doublePayment
  | voteThreshold
deriving DecidableEq, Repr

structure CTxBudgetPayment where
  nProposalHash : Uint256
  payee : CScript
  nAmount : Int
deriving DecidableEq, Repr

/-- The output makes the payment. -/
def CTxBudgetPayment.paidBy (payment : CTxBudgetPayment) (out : CTxOut) : Bool :=
  payment.payee == out.scriptPubKey && payment.nAmount == out.nValue

structure CFinalizedBudget where
  fValid : Bool
  strBudgetName : String
  nBlockStart : Int
  vecBudgetPayments : List CTxBudgetPayment
  mapVotes : VoteMap Unit
  nFeeTXHash : Uint256
  nTime : Int
deriving DecidableEq

/-- `mapPayment_History`: the heights at which the proposals were paid. -/
abbrev PaymentHistory := Uint256 → Option Int

namespace CFinalizedBudget

variable (b : CFinalizedBudget)

/-- `GetBlockEnd`; it is below the start when there are no payments. -/
def getBlockEnd : Int := b.nBlockStart + (b.vecBudgetPayments.length - 1)

def getVoteCount : Int := b.mapVotes.keys.length

/-- The payments of the budget are made from `GetBlockStart` to `GetBlockEnd`. -/
def inWindow (nBlockHeight : Int) : Bool := decide (b.nBlockStart ≤ nBlockHeight) && decide (nBlockHeight ≤ b.getBlockEnd)

/-- `GetPayeeAndAmount` and `GetBudgetPaymentByBlock`: the payment scheduled at a height. -/
def getBudgetPaymentByBlock (nBlockHeight : Int) : Option CTxBudgetPayment :=
  let i := nBlockHeight - b.nBlockStart
  if i < 0 then none
  else if (b.vecBudgetPayments.length : Int) - 1 < i then none
  else b.vecBudgetPayments[i.toNat]?

/-- Payments from former and future payment cycles are removed. -/
def cleanHistory (hist : PaymentHistory) : PaymentHistory := fun p => (hist p).filter b.inWindow

/-- `CFinalizedBudget::IsPaidAlready`: a new payment is inserted for the checks with later blocks. -/
def isPaidAlready (hist : PaymentHistory) (nProposalHash : Uint256) (nBlockHeight : Int) : Bool × PaymentHistory :=
  match b.cleanHistory hist nProposalHash with
  | none => (false, Function.update (b.cleanHistory hist) nProposalHash (some nBlockHeight))
  | some _ => (true, b.cleanHistory hist)

/-- The loop of `CFinalizedBudget::IsTransactionValid` over the outputs. -/
def payLoop (payment : CTxBudgetPayment) (nBlockHeight : Int) :
    List CTxOut → TrxValidationStatus → PaymentHistory → TrxValidationStatus × PaymentHistory
  | [], status, hist => (status, hist)
  | out :: vout, status, hist =>
    if payment.paidBy out then
      match b.isPaidAlready hist payment.nProposalHash nBlockHeight with
      -- no matter what was found before, stop all checks here
      | (true, hist') => (.doublePayment, hist')
      | (false, hist') => payLoop payment nBlockHeight vout .valid hist'
    else payLoop payment nBlockHeight vout status hist

def isTransactionValid (hist : PaymentHistory) (txNew : CTransaction) (nBlockHeight : Int) :
    TrxValidationStatus × PaymentHistory :=
  match b.getBudgetPaymentByBlock nBlockHeight with
  | none => (.inValid, hist)
  | some payment => b.payLoop payment nBlockHeight txNew.vout .inValid hist

end CFinalizedBudget

/-! ## The manager -/

/-- The budgets of the manager, and `mnodeman.CountEnabled(ActiveProtocol())`. -/
structure BudgetState where
  mapFinalizedBudgets : List CFinalizedBudget
  countEnabled : Nat

namespace BudgetState

variable (m : BudgetState)

/-- The highest count of votes of a budget that pays at the height, at least `n`. -/
def highestCount (n : Int) (nBlockHeight : Int) : Int :=
  m.mapFinalizedBudgets.foldl
    (fun n b => if n < b.getVoteCount ∧ b.inWindow nBlockHeight = true then b.getVoteCount else n) n

/-- `CBudgetManager::IsBudgetPaymentBlock`: more than 5% of the network voted for a budget. -/
def isBudgetPaymentBlock (nBlockHeight : Int) : Bool :=
  decide ((m.countEnabled / 20 : Nat) < m.highestCount (-1) nBlockHeight)

/-- The loop of `FillBlockPayee`: the first payment of a budget with the highest count. -/
def fillLoop (nBlockHeight : Int) : List CFinalizedBudget → Int × Option CTxBudgetPayment →
    Int × Option CTxBudgetPayment
  | [], best => best
  | b :: bs, best =>
    fillLoop nBlockHeight bs <|
      if best.1 < b.getVoteCount ∧ b.inWindow nBlockHeight = true then
        match b.getBudgetPaymentByBlock nBlockHeight with
        | none => best
        | some payment => (b.getVoteCount, some payment)
      else best

/-- The payment that `FillBlockPayee` makes. -/
def chosenPayment (nBlockHeight : Int) : Option CTxBudgetPayment :=
  (fillLoop nBlockHeight m.mapFinalizedBudgets (0, none)).2

/-- `CBudgetManager::FillBlockPayee` on top of a tip; `none` when it reads past the end of the outputs. -/
def fillBlockPayee (tipHeight : Nat) (txNew : CMutableTransaction) (fProofOfStake : Bool) :
    Option CMutableTransaction :=
  if fProofOfStake then
    match m.chosenPayment (tipHeight + 1) with
    | none => some txNew
    | some p => some { txNew with vout := txNew.vout ++ [paymentOut p.payee p.nAmount] }
  else
    match txNew.vout with
    | [] => none
    | o :: vout =>
      let o' := { o with nValue := getBlockValue tipHeight }
      match m.chosenPayment (tipHeight + 1) with
      | none => some { txNew with vout := o' :: vout }
      | some p => some { txNew with
          vout := [o', { (vout.headD CTxOut.null) with scriptPubKey := p.payee, nValue := p.nAmount }] }

/-- The loop of `CBudgetManager::IsTransactionValid` over the budgets. -/
def validateLoop (nCountThreshold nBlockHeight : Int) (txNew : CTransaction) : List CFinalizedBudget → Bool →
    TrxValidationStatus → PaymentHistory → TrxValidationStatus × PaymentHistory
  | [], fThreshold, status, hist => (if fThreshold then status else .voteThreshold, hist)
  | b :: bs, fThreshold, status, hist =>
    if nCountThreshold < b.getVoteCount then
      if b.inWindow nBlockHeight then
        match b.isTransactionValid hist txNew nBlockHeight with
        | (.valid, hist') => (.valid, hist')
        | (status', hist') => validateLoop nCountThreshold nBlockHeight txNew bs true status' hist'
      else validateLoop nCountThreshold nBlockHeight txNew bs true status hist
    else validateLoop nCountThreshold nBlockHeight txNew bs fThreshold status hist

/-- The votes that a budget needs more than: those of the leader less 10% of the network. -/
def nCountThreshold (nBlockHeight : Int) : Int := m.highestCount 0 nBlockHeight - (m.countEnabled / 10 : Nat)

/-- `CBudgetManager::IsTransactionValid`. -/
def isTransactionValid (hist : PaymentHistory) (txNew : CTransaction) (nBlockHeight : Int) :
    TrxValidationStatus × PaymentHistory :=
  if m.highestCount 0 nBlockHeight < (m.countEnabled / 20 : Nat) then (.inValid, hist)
  else validateLoop (m.nCountThreshold nBlockHeight) nBlockHeight txNew m.mapFinalizedBudgets false .inValid hist

end BudgetState

/-! ## What one budget says -/

namespace CFinalizedBudget

variable {b : CFinalizedBudget} {nBlockHeight : Int} {tx : CTransaction} {hist : PaymentHistory}

theorem inWindow_iff : b.inWindow nBlockHeight = true ↔ b.nBlockStart ≤ nBlockHeight ∧ nBlockHeight ≤ b.getBlockEnd := by
  simp [inWindow]

theorem exists_payment (hw : b.inWindow nBlockHeight = true) :
    ∃ payment, b.getBudgetPaymentByBlock nBlockHeight = some payment := by
  obtain ⟨h₁, h₂⟩ := inWindow_iff.mp hw
  unfold getBlockEnd at h₂
  unfold getBudgetPaymentByBlock
  dsimp only
  rw [if_neg (by omega), if_neg (by omega)]
  exact ⟨_, List.getElem?_eq_getElem (by omega)⟩

/-- The number of outputs that make the payment scheduled at the height. -/
def nPaid (b : CFinalizedBudget) (tx : CTransaction) (nBlockHeight : Int) : Nat :=
  match b.getBudgetPaymentByBlock nBlockHeight with
  | none => 0
  | some payment => tx.vout.countP payment.paidBy

/-- The proposal that is paid at the height was not paid in the cycle of the budget. -/
def Unpaid (b : CFinalizedBudget) (hist : PaymentHistory) (nBlockHeight : Int) : Prop :=
  ∀ payment, b.getBudgetPaymentByBlock nBlockHeight = some payment → b.cleanHistory hist payment.nProposalHash = none

instance (b : CFinalizedBudget) (hist : PaymentHistory) (nBlockHeight : Int) :
    Decidable (b.Unpaid hist nBlockHeight) :=
  match h : b.getBudgetPaymentByBlock nBlockHeight with
  | none => isTrue fun _ h' => by rw [h] at h'; cases h'
  | some payment => decidable_of_iff (b.cleanHistory hist payment.nProposalHash = none)
      ⟨fun h' _ hp => by rw [h] at hp; cases hp; exact h', fun h' => h' _ h⟩

theorem cleanHistory_keeps {p : Uint256} (hw : b.inWindow nBlockHeight = true) (hp : hist p = some nBlockHeight) :
    b.cleanHistory hist p = some nBlockHeight := by
  simp [cleanHistory, hp, hw]

theorem cleanHistory_clean (hist : PaymentHistory) : b.cleanHistory (b.cleanHistory hist) = b.cleanHistory hist := by
  funext p
  simp [cleanHistory, Option.filter_filter]

theorem cleanHistory_paid (hist : PaymentHistory) (hw : b.inWindow nBlockHeight = true) (p : Uint256) :
    b.cleanHistory (Function.update (b.cleanHistory hist) p (some nBlockHeight)) =
      Function.update (b.cleanHistory hist) p (some nBlockHeight) := by
  funext q
  by_cases hq : q = p
  · subst hq
    rw [Function.update_self]
    exact cleanHistory_keeps hw (Function.update_self ..)
  · rw [Function.update_of_ne hq]
    unfold cleanHistory
    rw [Function.update_of_ne hq]
    exact congrFun (cleanHistory_clean hist) q

theorem payLoop_paid {payment : CTxBudgetPayment} {n : Int}
    (hpaid : b.cleanHistory hist payment.nProposalHash = some n) : ∀ (vout : List CTxOut) (status : TrxValidationStatus),
    b.payLoop payment nBlockHeight vout status hist =
      if vout.countP payment.paidBy = 0 then (status, hist) else (.doublePayment, b.cleanHistory hist)
  | [], status => by simp [payLoop]
  | out :: vout, status => by
    unfold payLoop
    cases hout : payment.paidBy out with
    | true => simp [isPaidAlready, hpaid, hout]
    | false =>
      rw [if_neg (by simp), payLoop_paid hpaid vout status, List.countP_cons_of_neg (by simp [hout])]

theorem payLoop_unpaid {payment : CTxBudgetPayment} (hw : b.inWindow nBlockHeight = true)
    (hunpaid : b.cleanHistory hist payment.nProposalHash = none) : ∀ (vout : List CTxOut) (status : TrxValidationStatus),
    b.payLoop payment nBlockHeight vout status hist =
      if vout.countP payment.paidBy = 0 then (status, hist)
      else (if vout.countP payment.paidBy = 1 then .valid else .doublePayment,
        Function.update (b.cleanHistory hist) payment.nProposalHash (some nBlockHeight))
  | [], status => by simp [payLoop]
  | out :: vout, status => by
    unfold payLoop
    cases hout : payment.paidBy out with
    | true =>
      have hpaid := congrFun (cleanHistory_paid hist hw payment.nProposalHash) payment.nProposalHash
      rw [Function.update_self] at hpaid
      simp only [if_true, isPaidAlready, hunpaid]
      rw [payLoop_paid hpaid vout, cleanHistory_paid hist hw, List.countP_cons_of_pos hout]
      by_cases h0 : vout.countP payment.paidBy = 0 <;> simp [h0]
    | false =>
      rw [if_neg (by simp), payLoop_unpaid hw hunpaid vout status, List.countP_cons_of_neg (by simp [hout])]

theorem isTransactionValid_spec (hist : PaymentHistory) (tx : CTransaction) (hw : b.inWindow nBlockHeight = true) :
    (b.nPaid tx nBlockHeight = 0 ∧ b.isTransactionValid hist tx nBlockHeight = (.inValid, hist)) ∨
    (0 < b.nPaid tx nBlockHeight ∧ ¬ b.Unpaid hist nBlockHeight ∧
      b.isTransactionValid hist tx nBlockHeight = (.doublePayment, b.cleanHistory hist)) ∨
    (0 < b.nPaid tx nBlockHeight ∧ b.Unpaid hist nBlockHeight ∧ ∃ payment,
      b.getBudgetPaymentByBlock nBlockHeight = some payment ∧ b.isTransactionValid hist tx nBlockHeight =
        (if b.nPaid tx nBlockHeight = 1 then .valid else .doublePayment,
          Function.update (b.cleanHistory hist) payment.nProposalHash (some nBlockHeight))) := by
  obtain ⟨payment, hp⟩ := exists_payment hw
  have hun : b.Unpaid hist nBlockHeight ↔ b.cleanHistory hist payment.nProposalHash = none := by
    simp [Unpaid, hp]
  simp only [nPaid, isTransactionValid, hp, hun, Option.some.injEq, exists_eq_left']
  rcases Nat.eq_zero_or_pos (tx.vout.countP payment.paidBy) with h0 | hpos
  · cases hc : b.cleanHistory hist payment.nProposalHash with
    | none => exact Or.inl ⟨h0, by rw [payLoop_unpaid hw hc, if_pos h0]⟩
    | some n => exact Or.inl ⟨h0, by rw [payLoop_paid hc, if_pos h0]⟩
  · have h0 : tx.vout.countP payment.paidBy ≠ 0 := by omega
    cases hc : b.cleanHistory hist payment.nProposalHash with
    | none => exact Or.inr (Or.inr ⟨hpos, rfl, by rw [payLoop_unpaid hw hc, if_neg h0]⟩)
    | some n => exact Or.inr (Or.inl ⟨hpos, by simp, by rw [payLoop_paid hc, if_neg h0]⟩)

theorem isTransactionValid_valid_iff (hw : b.inWindow nBlockHeight = true) :
    (b.isTransactionValid hist tx nBlockHeight).1 = .valid ↔
      b.nPaid tx nBlockHeight = 1 ∧ b.Unpaid hist nBlockHeight := by
  rcases isTransactionValid_spec hist tx hw with ⟨h, hs⟩ | ⟨h, hun, hs⟩ | ⟨h, hun, payment, -, hs⟩
  · simp [hs, h]
  · simp [hs, hun]
  · rw [hs]
    by_cases h1 : b.nPaid tx nBlockHeight = 1 <;> simp [h1, hun]

theorem isTransactionValid_settled (hw : b.inWindow nBlockHeight = true)
    (h : (b.isTransactionValid hist tx nBlockHeight).1 ≠ .valid) :
    (b.isTransactionValid hist tx nBlockHeight).1 =
      if b.nPaid tx nBlockHeight = 0 then .inValid else .doublePayment := by
  rcases isTransactionValid_spec hist tx hw with ⟨h0, hs⟩ | ⟨h0, hun, hs⟩ | ⟨h0, hun, payment, -, hs⟩
  · rw [hs, if_pos h0]
  · rw [hs, if_neg (by omega)]
  · rw [hs] at h ⊢
    by_cases h1 : b.nPaid tx nBlockHeight = 1
    · simp [h1] at h
    · rw [if_neg h1, if_neg (by omega)]

end CFinalizedBudget

/-! ## What the manager says -/

namespace BudgetState

open CFinalizedBudget

variable {nThreshold nBlockHeight : Int} {tx : CTransaction}

/-- The budgets that the manager asks: those with enough votes that pay at the height. -/
def counted (nThreshold nBlockHeight : Int) (bs : List CFinalizedBudget) : List CFinalizedBudget :=
  bs.filter fun b => decide (nThreshold < b.getVoteCount) && b.inWindow nBlockHeight

/-- The history that the budgets leave one after the other. -/
def historyAfter (nBlockHeight : Int) (tx : CTransaction) (bs : List CFinalizedBudget) (hist : PaymentHistory) :
    PaymentHistory :=
  bs.foldl (fun hist b => (b.isTransactionValid hist tx nBlockHeight).2) hist

/-- The loop over the budgets when all they schedule is paid already. -/
def settledLoop (nThreshold nBlockHeight : Int) (tx : CTransaction) : List CFinalizedBudget → Bool →
    TrxValidationStatus → TrxValidationStatus
  | [], fThreshold, status => if fThreshold then status else .voteThreshold
  | b :: bs, fThreshold, status =>
    if nThreshold < b.getVoteCount then
      settledLoop nThreshold nBlockHeight tx bs true
        (if b.inWindow nBlockHeight then if b.nPaid tx nBlockHeight = 0 then .inValid else .doublePayment else status)
    else settledLoop nThreshold nBlockHeight tx bs fThreshold status

theorem counted_cons (b : CFinalizedBudget) (bs : List CFinalizedBudget) : counted nThreshold nBlockHeight (b :: bs) =
    if nThreshold < b.getVoteCount ∧ b.inWindow nBlockHeight = true then b :: counted nThreshold nBlockHeight bs
    else counted nThreshold nBlockHeight bs := by
  unfold counted
  rw [List.filter_cons]
  simp only [Bool.and_eq_true, decide_eq_true_eq]

theorem validateLoop_cons (b : CFinalizedBudget) (bs : List CFinalizedBudget) (fThreshold : Bool)
    (status : TrxValidationStatus) (hist : PaymentHistory) :
    (¬ (nThreshold < b.getVoteCount ∧ b.inWindow nBlockHeight = true) ∧
      validateLoop nThreshold nBlockHeight tx (b :: bs) fThreshold status hist =
        validateLoop nThreshold nBlockHeight tx bs (fThreshold || decide (nThreshold < b.getVoteCount)) status hist) ∨
    (nThreshold < b.getVoteCount ∧ b.inWindow nBlockHeight = true ∧
      (b.isTransactionValid hist tx nBlockHeight).1 = .valid ∧
      validateLoop nThreshold nBlockHeight tx (b :: bs) fThreshold status hist =
        b.isTransactionValid hist tx nBlockHeight) ∨
    (nThreshold < b.getVoteCount ∧ b.inWindow nBlockHeight = true ∧
      (b.isTransactionValid hist tx nBlockHeight).1 ≠ .valid ∧
      validateLoop nThreshold nBlockHeight tx (b :: bs) fThreshold status hist =
        validateLoop nThreshold nBlockHeight tx bs true (b.isTransactionValid hist tx nBlockHeight).1
          (b.isTransactionValid hist tx nBlockHeight).2) := by
  by_cases hv : nThreshold < b.getVoteCount
  · cases hw : b.inWindow nBlockHeight with
    | false => exact Or.inl ⟨by simp, by simp [validateLoop, hv, hw]⟩
    | true =>
      rcases hres : b.isTransactionValid hist tx nBlockHeight with ⟨st, hist'⟩
      by_cases hst : st = .valid
      · subst hst
        exact Or.inr (Or.inl ⟨hv, rfl, rfl, by simp [validateLoop, hv, hw, hres]⟩)
      · exact Or.inr (Or.inr ⟨hv, rfl, hst, by cases st <;> simp_all [validateLoop]⟩)
  · exact Or.inl ⟨fun h => hv h.1, by simp [validateLoop, hv]⟩

theorem validateLoop_valid_iff : ∀ {bs : List CFinalizedBudget} {fThreshold : Bool} {status : TrxValidationStatus}
    {hist : PaymentHistory}, status ≠ .valid →
    ((validateLoop nThreshold nBlockHeight tx bs fThreshold status hist).1 = .valid ↔
      ∃ l₁ b l₂, counted nThreshold nBlockHeight bs = l₁ ++ b :: l₂ ∧ b.nPaid tx nBlockHeight = 1 ∧
        b.Unpaid (historyAfter nBlockHeight tx l₁ hist) nBlockHeight)
  | [], fThreshold, status, hist, hst => by
    have hne : (validateLoop nThreshold nBlockHeight tx [] fThreshold status hist).1 ≠ .valid := by
      cases fThreshold
      · simp [validateLoop]
      · exact hst
    refine ⟨fun h => absurd h hne, ?_⟩
    rintro ⟨l₁, b, l₂, h, -⟩
    simp [counted] at h
  | b :: bs, fThreshold, status, hist, hst => by
    rw [counted_cons]
    rcases validateLoop_cons b bs fThreshold status hist with ⟨hc, hloop⟩ | ⟨hv, hw, hval, hloop⟩ |
      ⟨hv, hw, hval, hloop⟩
    · rw [if_neg hc, hloop]
      exact validateLoop_valid_iff hst
    · rw [if_pos ⟨hv, hw⟩, hloop]
      refine ⟨fun _ => ?_, fun _ => hval⟩
      obtain ⟨h1, hun⟩ := (isTransactionValid_valid_iff hw).mp hval
      exact ⟨[], b, _, rfl, h1, hun⟩
    · rw [if_pos ⟨hv, hw⟩, hloop, validateLoop_valid_iff hval]
      constructor
      · rintro ⟨l₁, a, l₂, h, h1, hun⟩
        exact ⟨b :: l₁, a, l₂, by rw [h]; rfl, h1, hun⟩
      · rintro ⟨l₁, a, l₂, h, h1, hun⟩
        cases l₁ with
        | nil =>
          cases h
          exact absurd ((isTransactionValid_valid_iff hw).mpr ⟨h1, hun⟩) hval
        | cons b' l₁ =>
          rw [List.cons_append, List.cons.injEq] at h
          obtain ⟨rfl, h⟩ := h
          exact ⟨l₁, a, l₂, h, h1, hun⟩

theorem validateLoop_settled : ∀ {bs : List CFinalizedBudget} {fThreshold : Bool} {status : TrxValidationStatus}
    {hist : PaymentHistory}, (validateLoop nThreshold nBlockHeight tx bs fThreshold status hist).1 ≠ .valid →
    (validateLoop nThreshold nBlockHeight tx bs fThreshold status hist).1 =
      settledLoop nThreshold nBlockHeight tx bs fThreshold status
  | [], _, _, _, _ => rfl
  | b :: bs, fThreshold, status, hist, h => by
    rcases validateLoop_cons b bs fThreshold status hist with ⟨hc, hloop⟩ | ⟨hv, hw, hval, hloop⟩ |
      ⟨hv, hw, hval, hloop⟩
    · rw [hloop] at h ⊢
      rw [validateLoop_settled h]
      by_cases hv : nThreshold < b.getVoteCount
      · have hw : b.inWindow nBlockHeight = false := by simpa [hv] using hc
        simp [settledLoop, hv, hw]
      · simp [settledLoop, hv]
    · rw [hloop] at h
      exact absurd hval h
    · rw [hloop] at h ⊢
      rw [validateLoop_settled h, isTransactionValid_settled hw hval]
      simp [settledLoop, hv, hw]

end BudgetState

end DigiWage
