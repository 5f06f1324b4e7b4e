import DigiWage.Masternode.Proposal
import DigiWage.Lib.Greedy
import DigiWage.Lib.Election
import Mathlib.Data.Prod.Lex

/-!
# The budget that a node submits

`GetBudget` and `SubmitFinalBudget` of `CBudgetManager`. The proposals are ranked by `std::sort`, which leaves the order
of proposals with the same votes and the same fee hash open: the sort is a parameter, of which only `KeySort` is known.

* `getBudget_eq`: the loop of `GetBudget` is the greedy selection of `Lib.Greedy` among the passing proposals.
-/

namespace DigiWage

namespace CBudgetProposal

/-- `GetYeas() - GetNays()`. -/
def Listed.netYeas (p : Listed) : Int := p.getYeas - p.getNays

/-- What `sortProposalsByVotes` compares. -/
def Listed.rank (p : Listed) : Int ×ₗ Nat := toLex (p.netYeas, p.nFeeTXHash.toNat)

/-- `CBudgetProposal::CleanAndRemove`. -/
def Listed.clean (env : PassingEnv) (p : Listed) : Listed := { p with mapVotes := cleanAndRemove env.known p.mapVotes }

def Listed.getAmount (p : Listed) : Int := p.nAmount

/-- `SetAllotted(GetAmount())`. -/
def Listed.allotted (p : Listed) : Listed := { p with nAlloted := p.getAmount }

variable (env : PassingEnv) (sort : List Listed → List Listed)

/-- The proposals as the loop of `GetBudget` goes through them. -/
def ranked (mapProposals : List Listed) : List Listed := sort (mapProposals.map (Listed.clean env))

/-- The loop of `GetBudget` over the ranked proposals, with `nBudgetAllocated`. -/
def getBudgetLoop (nBlockStart nBlockEnd : Int) (mnCount : Nat) (nTotalBudget : Int) : List Listed → Int → List Listed
  | [], _ => []
  | p :: ps, nBudgetAllocated =>
    if p.isPassing env nBlockStart nBlockEnd mnCount then
      if p.getAmount + nBudgetAllocated ≤ nTotalBudget then
        p.allotted :: getBudgetLoop nBlockStart nBlockEnd mnCount nTotalBudget ps (nBudgetAllocated + p.getAmount)
      else getBudgetLoop nBlockStart nBlockEnd mnCount nTotalBudget ps nBudgetAllocated
    else getBudgetLoop nBlockStart nBlockEnd mnCount nTotalBudget ps nBudgetAllocated

/-- `CBudgetManager::GetBudget`. -/
def getBudget (mapProposals : List Listed) : List Listed :=
  match env.tipHeight with
  | none => []
  | some nHeight =>
    let nBlockStart := env.nextBlockStart nHeight
    let nBlockEnd := nBlockStart + env.nBudgetCycleBlocks - 1
    getBudgetLoop env nBlockStart nBlockEnd env.countEnabled (env.getTotalBudget nBlockStart)
      (ranked env sort mapProposals) 0

/-- The wallet and the chain, for the fee transactions of finalized budgets. -/
structure FinalizeEnv extends PassingEnv where
  nBudgetFeeConfirmations : Int
  /-- `GetBudgetFinalizationCollateralTX`: the id of a transaction for the hash of a budget. -/
  makeCollateral : Uint256 → Option Uint256
  /-- The confirmations of a transaction, if it is found. -/
  confirmations : Uint256 → Option Int

/-- `nSubmittedHeight`, `mapSeenFinalizedBudgets` and `mapCollateralTxids`. -/
structure FinalizeState where
  nSubmittedHeight : Int
  mapSeenFinalizedBudgets : Uint256 → Bool
  mapCollateralTxids : Uint256 → Option Uint256

variable (hashes : BudgetHashes)

/-- `vecTxBudgetPayments` of `SubmitFinalBudget`. -/
def budgetPayments (mapProposals : List Listed) : List CTxBudgetPayment :=
  (getBudget env sort mapProposals).map fun p =>
    ⟨hashes.getProposalHash p.toCBudgetProposal, p.address, p.nAlloted⟩

/-- The `CFinalizedBudgetBroadcast` that `SubmitFinalBudget` makes at a height. -/
def finalBudget (mapProposals : List Listed) (nCurrentHeight : Int) (txidCollateral : Uint256) : CFinalizedBudget :=
  ⟨true, "main", env.nextBlockStart nCurrentHeight, budgetPayments env sort hashes mapProposals, ∅, txidCollateral, 0⟩

def finalizationWindow : Int := if env.isTestNet then 64 else env.nBudgetCycleBlocks.tdiv 30 * 2

/-- `CBudgetManager::SubmitFinalBudget`: the budget that is added and relayed, if any. -/
def submitFinalBudget (env : FinalizeEnv) (sort : List Listed → List Listed) (hashes : BudgetHashes)
    (mapProposals : List Listed) (st : FinalizeState) : Option CFinalizedBudget × FinalizeState :=
  match env.tipHeight with
  | none => (none, st)
  | some nCurrentHeight =>
    let nBlockStart := env.nextBlockStart nCurrentHeight
    if nBlockStart ≤ st.nSubmittedHeight then (none, st)
    else if finalizationWindow env.toPassingEnv < nBlockStart - nCurrentHeight then (none, st)
    else if (budgetPayments env.toPassingEnv sort hashes mapProposals).length < 1 then (none, st)
    else
      let hash := hashes.getBudgetHash (finalBudget env.toPassingEnv sort hashes mapProposals nCurrentHeight 0)
      if st.mapSeenFinalizedBudgets hash then (none, { st with nSubmittedHeight := nCurrentHeight })
      else
        match (st.mapCollateralTxids hash).orElse fun _ => env.makeCollateral hash with
        | none => (none, st)
        | some txidCollateral =>
          let st := { st with mapCollateralTxids := Function.update st.mapCollateralTxids hash (some txidCollateral) }
          match env.confirmations txidCollateral with
          | none => (none, st)
          | some conf =>
            if conf < env.nBudgetFeeConfirmations + 1 then (none, st)
            else
              let budget := finalBudget env.toPassingEnv sort hashes mapProposals nCurrentHeight txidCollateral
              if !budget.isValid env.toBudgetEnv hash then (none, st)
              else (some budget, { st with
                mapSeenFinalizedBudgets := Function.update st.mapSeenFinalizedBudgets hash true
                nSubmittedHeight := nCurrentHeight })

/-! ## The selection -/

section

variable {env : PassingEnv} {sort : List Listed → List Listed} {mapProposals : List Listed}

/-- The proposals that pass, in the order of their rank. -/
def passing (env : PassingEnv) (nHeight : Int) (ps : List Listed) : List Listed :=
  ps.filter fun p => p.isPassing env (env.nextBlockStart nHeight)
    (env.nextBlockStart nHeight + env.nBudgetCycleBlocks - 1) env.countEnabled

/-- Of the passing proposals those that fit into the budget, each after those ranked before it. -/
def fitting (env : PassingEnv) (nHeight : Int) (ps : List Listed) : List Listed :=
  Lib.allot Listed.getAmount (env.getTotalBudget (env.nextBlockStart nHeight)) (passing env nHeight ps) 0

theorem getBudgetLoop_eq (s e : Int) (mnCount : Nat) (nTotalBudget : Int) (ps : List Listed) : ∀ nBudgetAllocated : Int,
    getBudgetLoop env s e mnCount nTotalBudget ps nBudgetAllocated =
      (Lib.allot Listed.getAmount nTotalBudget (ps.filter fun p => p.isPassing env s e mnCount)
        nBudgetAllocated).map Listed.allotted := by
  induction ps with
  | nil => exact fun _ => rfl
  | cons p ps ih =>
    intro nBudgetAllocated
    unfold getBudgetLoop
    by_cases hp : p.isPassing env s e mnCount = true
    · rw [if_pos hp, List.filter_cons, if_pos hp]
      by_cases hfits : p.getAmount + nBudgetAllocated ≤ nTotalBudget
      · rw [if_pos hfits, Lib.allot_cons_of_le hfits, List.map_cons, ih]
      · rw [if_neg hfits, Lib.allot_cons_of_not_le hfits, ih]
    · rw [if_neg hp, List.filter_cons, if_neg hp, ih]

theorem getBudget_eq {nHeight : Int} (htip : env.tipHeight = some nHeight) : getBudget env sort mapProposals =
    (fitting env nHeight (ranked env sort mapProposals)).map Listed.allotted := by
  unfold getBudget fitting passing
  simp only [htip]
  exact getBudgetLoop_eq ..

theorem budgetPayments_amounts {hashes : BudgetHashes} {nHeight : Int} (htip : env.tipHeight = some nHeight) :
    (budgetPayments env sort hashes mapProposals).map CTxBudgetPayment.nAmount =
      (fitting env nHeight (ranked env sort mapProposals)).map Listed.getAmount := by
  unfold budgetPayments
  rw [getBudget_eq htip, List.map_map, List.map_map]
  rfl

/-- The budget of a node keeps the limit and the ranking, leaves out no passing proposal that fits in what is left after
those ranked before it, and passes the checks of `IsValid` but the collateral. -/
structure Honoured (env : PassingEnv) (sort : List Listed → List Listed) (hashes : BudgetHashes)
    (mapProposals : List Listed) (nHeight : Int) (txidCollateral : Uint256) : Prop where
  within : ((finalBudget env sort hashes mapProposals nHeight txidCollateral).vecBudgetPayments.map
    CTxBudgetPayment.nAmount).sum ≤ env.getTotalBudget (env.nextBlockStart nHeight)
  decreasing : (getBudget env sort mapProposals).Pairwise fun p q => q.netYeas ≤ p.netYeas
  pays : ∀ before p after, ranked env sort mapProposals = before ++ p :: after →
    p.isPassing env (env.nextBlockStart nHeight) (env.nextBlockStart nHeight + env.nBudgetCycleBlocks - 1)
      env.countEnabled = true →
    p.getAmount + ((fitting env nHeight before).map Listed.getAmount).sum ≤
      env.getTotalBudget (env.nextBlockStart nHeight) →
    ∃ rest, getBudget env sort mapProposals = (fitting env nHeight before).map Listed.allotted ++ p.allotted :: rest
  proper : (finalBudget env sort hashes mapProposals nHeight txidCollateral).Proper env.toBudgetEnv

theorem sum_fitting_le (nHeight : Int) (ps : List Listed) : ((fitting env nHeight ps).map Listed.getAmount).sum ≤
    env.getTotalBudget (env.nextBlockStart nHeight) := by
  have h : 0 + Lib.totalCost Listed.getAmount (fitting env nHeight ps) ≤ _ :=
    Lib.add_cost_allot_le (passing env nHeight ps) (env.getTotalBudget_bounds (env.nextBlockStart nHeight)).1
  rwa [zero_add] at h

theorem fitting_sublist (nHeight : Int) (ps : List Listed) : (fitting env nHeight ps).Sublist ps :=
  (Lib.allot_sublist _ _).trans List.filter_sublist

theorem getBudget_pairwise {nHeight : Int} (htip : env.tipHeight = some nHeight) (hsort : Lib.KeySort Listed.rank sort) :
    (getBudget env sort mapProposals).Pairwise fun p q => q.netYeas ≤ p.netYeas := by
  rw [getBudget_eq htip, List.pairwise_map]
  refine List.Pairwise.sublist (fitting_sublist nHeight _) ((hsort.sorted _).imp fun {p q} h => ?_)
  rcases Prod.Lex.le_iff.mp h with h | h
  · exact Int.le_of_lt h
  · exact Int.le_of_eq h.1

theorem getBudget_of_fits {nHeight : Int} (htip : env.tipHeight = some nHeight) {before after : List Listed} {p : Listed}
    (h : ranked env sort mapProposals = before ++ p :: after)
    (hp : p.isPassing env (env.nextBlockStart nHeight) (env.nextBlockStart nHeight + env.nBudgetCycleBlocks - 1)
      env.countEnabled = true)
    (hfits : p.getAmount + ((fitting env nHeight before).map Listed.getAmount).sum ≤
      env.getTotalBudget (env.nextBlockStart nHeight)) :
    ∃ rest, getBudget env sort mapProposals = (fitting env nHeight before).map Listed.allotted ++ p.allotted :: rest := by
  have hsplit : passing env nHeight (ranked env sort mapProposals) =
      passing env nHeight before ++ p :: passing env nHeight after := by
    unfold passing
    rw [h, List.filter_append, List.filter_cons, if_pos hp]
  rw [getBudget_eq htip]
  unfold fitting at hfits ⊢
  rw [hsplit]
  obtain ⟨l, hl⟩ := @Lib.allot_eq_of_fits _ _ _ Listed.getAmount (env.getTotalBudget (env.nextBlockStart nHeight)) _
    (passing env nHeight before) (passing env nHeight after) p 0 (by rwa [zero_add])
  exact ⟨l.map Listed.allotted, by rw [hl, List.map_append, List.map_cons]⟩

theorem proper_finalBudget_iff {hashes : BudgetHashes} {nHeight : Nat} {txidCollateral : Uint256}
    (hC : 0 < env.nBudgetCycleBlocks) (htip : env.tipHeight = some (nHeight : Int)) (hfee : txidCollateral ≠ 0)
    (hpos : ∀ p ∈ ranked env sort mapProposals, 0 ≤ p.getAmount) :
    (finalBudget env sort hashes mapProposals nHeight txidCollateral).Proper env.toBudgetEnv ↔
      (fitting env nHeight (ranked env sort mapProposals)).length ≤ 100 := by
  have hlen : (finalBudget env sort hashes mapProposals nHeight txidCollateral).vecBudgetPayments.length =
      (fitting env nHeight (ranked env sort mapProposals)).length := by
    have h := congrArg List.length
      (@budgetPayments_amounts env sort mapProposals hashes (nHeight : Int) htip)
    rwa [List.length_map, List.length_map] at h
  have hsum : (finalBudget env sort hashes mapProposals nHeight txidCollateral).exactPayout =
      ((fitting env nHeight (ranked env sort mapProposals)).map Listed.getAmount).sum :=
    congrArg List.sum (budgetPayments_amounts htip)
  have hle := @sum_fitting_le env nHeight (ranked env sort mapProposals)
  have h0 : 0 ≤ ((fitting env nHeight (ranked env sort mapProposals)).map Listed.getAmount).sum := by
    refine List.sum_nonneg (List.forall_mem_map.mpr fun p hp => hpos p ?_)
    exact (fitting_sublist _ _).subset hp
  have hmax := (env.getTotalBudget_bounds (env.nextBlockStart nHeight)).2
  unfold COIN at hmax
  have hmod := Int.tmod_lt_of_pos (nHeight : Int) hC
  constructor
  · intro h
    exact hlen ▸ h.count
  · intro hcount
    refine ⟨?_, by rwa [hlen], by simp [finalBudget], ?_, hfee, ?_, ?_⟩
    · exact env.nextBlockStart_tmod nHeight
    · show (nHeight : Int) - _ + _ ≠ 0
      omega
    · rw [CFinalizedBudget.getTotalPayout_of_lt (by omega) (by omega), hsum]
      exact hle
    · intro n hn
      rw [htip, Option.some.injEq] at hn
      subst hn
      unfold CFinalizedBudget.getBlockEnd
      show _ ≤ env.nextBlockStart nHeight + _
      omega

/-- The budget of a node is honoured exactly when no more than a hundred of the passing proposals fit into it. -/
theorem honoured_iff {hashes : BudgetHashes} {nHeight : Nat} {txidCollateral : Uint256}
    (hC : 0 < env.nBudgetCycleBlocks) (htip : env.tipHeight = some (nHeight : Int)) (hfee : txidCollateral ≠ 0)
    (hsort : Lib.KeySort Listed.rank sort)
    (hvalid : ∀ p ∈ mapProposals, p.isValid env.toBudgetEnv (hashes.getProposalHash p.toCBudgetProposal) = true) :
    Honoured env sort hashes mapProposals nHeight txidCollateral ↔
      (fitting env nHeight (ranked env sort mapProposals)).length ≤ 100 := by
  have hpos : ∀ p ∈ ranked env sort mapProposals, 0 ≤ p.getAmount := by
    intro p hp
    obtain ⟨q, hq, rfl⟩ := List.mem_map.mp ((hsort.perm _).mem_iff.mp hp)
    have hleast := (isValid_iff.mp (hvalid q hq)).1.least
    unfold COIN at hleast
    show 0 ≤ q.nAmount
    omega
  constructor
  · intro h
    exact (proper_finalBudget_iff hC htip hfee hpos).mp h.proper
  · intro hcount
    refine ⟨?_, getBudget_pairwise htip hsort, fun before p after h hp hfits => getBudget_of_fits htip h hp hfits,
      (proper_finalBudget_iff hC htip hfee hpos).mpr hcount⟩
    exact (congrArg List.sum (budgetPayments_amounts htip)).trans_le (sum_fitting_le _ _)

end

/-! ## A hundred and one proposals -/

/-- A node of the main network with nine masternodes. -/
def nineNode : PassingEnv where
  toBudgetEnv := { CFinalizedBudget.mainNetNode with countEnabled := 9 }
  getAdjustedTime := 1700000000
  nProposalEstablishmentTime := 24 * 60 * 60

/-- `std::sort` that keeps the order of equal proposals. -/
def stableSort : List Listed → List Listed := List.insertionSort fun p q => q.rank ≤ p.rank

/-- Proposals for one payment of ten coins at the next superblock, each with a vote. -/
def tenCoins (n : Nat) : List Listed :=
  (List.range n).map fun i =>
    { broadcast nineNode.toBudgetEnv (toString i) "" 1 [0x51] (10 * COIN) 734400 (BitVec.ofNat 256 (i + 1)) with
      mapVotes := AList.singleton ⟨1, 0⟩ ⟨true, ⟨⟨1, 0⟩, [], 0⟩, 1, VOTE_YES, 0⟩
      nTime := 0
      nAlloted := 0 }

def sampleHashes : BudgetHashes := ⟨fun _ _ _ _ _ _ => 1, fun _ _ _ => 2⟩

theorem isValid_tenCoins {n : Nat} : ∀ p ∈ tenCoins n,
    p.isValid nineNode.toBudgetEnv (sampleHashes.getProposalHash p.toCBudgetProposal) = true := by
  intro p hp
  obtain ⟨i, -, rfl⟩ := List.mem_map.mp hp
  rfl

theorem honoured_tenCoins : Honoured nineNode stableSort sampleHashes (tenCoins 3) 700000 8 ↔
    (fitting nineNode 700000 (ranked nineNode stableSort (tenCoins 3))).length ≤ 100 :=
  honoured_iff (by decide) rfl (by decide) (Lib.keySort_insertionSort _) isValid_tenCoins

/-- With 101 proposals that fit, the budget has a payment too many. -/
theorem not_honoured : ¬ ∀ (env : PassingEnv) (sort : List Listed → List Listed) (hashes : BudgetHashes)
    (mapProposals : List Listed) (nHeight : Nat) (txidCollateral : Uint256), 0 < env.nBudgetCycleBlocks →
    env.tipHeight = some (nHeight : Int) → txidCollateral ≠ 0 → Lib.KeySort Listed.rank sort →
    (∀ p ∈ mapProposals, p.isValid env.toBudgetEnv (hashes.getProposalHash p.toCBudgetProposal) = true) →
    Honoured env sort hashes mapProposals nHeight txidCollateral := by
  intro h
  have hcount := (h nineNode stableSort sampleHashes (tenCoins 101) 700000 8 (by decide) rfl (by decide)
    (Lib.keySort_insertionSort _) isValid_tenCoins).proper.count
  exact absurd hcount (by decide +kernel)

end CBudgetProposal

end DigiWage
