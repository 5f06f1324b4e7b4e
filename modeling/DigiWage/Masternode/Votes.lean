import DigiWage.Primitives
import Mathlib.Data.List.AList

/-!
# Votes on proposals and budgets

`CBudgetVote` and `CFinalizedBudgetVote` differ in one field, and `CBudgetProposal` and `CFinalizedBudget` keep them in
the same way: the last vote of each masternode, by `AddOrUpdateVote`.

* A map that the source keys by the hash of an object is keyed by the object.
-/

namespace DigiWage

/-- `CBudgetVote`, with `nVote`, or `CFinalizedBudgetVote`, without. -/
structure BudgetVote (γ : Type) where
  /-- Whether the masternode is still known. -/
  fValid : Bool
  vin : CTxIn
  /-- The hash of the proposal or of the budget. -/
  nHash : Uint256
  nVote : γ
  nTime : Int
deriving DecidableEq, Repr

abbrev CBudgetVote := BudgetVote Int

abbrev CFinalizedBudgetVote := BudgetVote Unit

def VOTE_YES : Int := 1
def VOTE_NO : Int := 2

def BUDGET_VOTE_UPDATE_MIN : Int := 60 * 60

/-- `mapVotes`: the vote of each masternode, by its collateral. -/
abbrev VoteMap (γ : Type) := AList fun _ : COutPoint => BudgetVote γ

/-- Why `AddOrUpdateVote` does not take a vote. -/
inductive VoteError where
  | olderThanExisting
  | tooSoon
  | tooFarAhead
deriving DecidableEq, Repr

section

variable {γ : Type}

/-- The collateral of the masternode that voted. -/
def BudgetVote.voter (vote : BudgetVote γ) : COutPoint := vote.vin.prevout

/-- `CBudgetProposal::AddOrUpdateVote` and `CFinalizedBudget::AddOrUpdateVote`, at the time `now`. The difference of two times has 64
bits. -/
def addOrUpdateVote (now : Int) (mapVotes : VoteMap γ) (vote : BudgetVote γ) : Except VoteError (VoteMap γ) :=
  let added : Except VoteError (VoteMap γ) :=
    if now + 60 * 60 < vote.nTime then .error .tooFarAhead else .ok (mapVotes.insert vote.voter vote)
  match mapVotes.lookup vote.voter with
  | none => added
  | some old =>
    if vote.nTime < old.nTime then .error .olderThanExisting
    else if (vote.nTime - old.nTime).bmod (2 ^ 64) < BUDGET_VOTE_UPDATE_MIN then .error .tooSoon
    else added

/-- `CleanAndRemove`: votes of masternodes that are not known any more do not count. -/
def cleanAndRemove (known : CTxIn → Bool) (mapVotes : VoteMap γ) : VoteMap γ :=
  ⟨mapVotes.entries.map fun e => ⟨e.1, { e.2 with fValid := known e.2.vin }⟩, by
    have h := mapVotes.nodupKeys
    unfold List.NodupKeys List.keys at h ⊢
    rwa [List.map_map]⟩

theorem taken_iff {p : Prop} [Decidable p] {e : VoteError} {m m' : VoteMap γ} :
    (if p then (.error e : Except VoteError (VoteMap γ)) else .ok m) = .ok m' ↔ m' = m ∧ ¬ p := by
  by_cases h : p
  · simp [h]
  · simp [h, eq_comm]

theorem addOrUpdateVote_ok_iff {now : Int} {mapVotes mapVotes' : VoteMap γ} {vote : BudgetVote γ} :
    addOrUpdateVote now mapVotes vote = .ok mapVotes' ↔ mapVotes' = mapVotes.insert vote.voter vote ∧
      vote.nTime ≤ now + 60 * 60 ∧
      ∀ old, mapVotes.lookup vote.voter = some old →
        old.nTime ≤ vote.nTime ∧ BUDGET_VOTE_UPDATE_MIN ≤ (vote.nTime - old.nTime).bmod (2 ^ 64) := by
  unfold addOrUpdateVote BUDGET_VOTE_UPDATE_MIN
  dsimp only
  cases h : mapVotes.lookup vote.voter with
  | none =>
    rw [taken_iff, Int.not_lt]
    simp
  | some old =>
    simp only [Option.some.injEq, forall_eq']
    by_cases h₁ : vote.nTime < old.nTime
    · rw [if_pos h₁]
      constructor
      · rintro ⟨⟩
      · omega
    · rw [if_neg h₁]
      by_cases h₂ : (vote.nTime - old.nTime).bmod (2 ^ 64) < 60 * 60
      · rw [if_pos h₂]
        constructor
        · rintro ⟨⟩
        · omega
      · rw [if_neg h₂, taken_iff, Int.not_lt]
        constructor
        · rintro ⟨rfl, hnow⟩
          exact ⟨rfl, hnow, by omega, by omega⟩
        · rintro ⟨rfl, hnow, -⟩
          exact ⟨rfl, hnow⟩

end

end DigiWage
