import DigiWage.Coins.Compressor
import DigiWage.Lib.Flagged
import Mathlib.Algebra.BigOperators.Group.Finset.Basic
import Mathlib.Data.List.Sort

/-!
# Coin selection

`CWallet::SelectCoinsMinConf` and `ApproximateBestSubset` of `wallet/wallet.cpp`. Amounts are 64 bits wide, and `none` stands
for a sum that does not fit.

* The random choices are streams: of numbers for the shuffle, and of bits for each search.
* `approximateBestSubset_spec`: whatever the bits, the flags that are kept reach the target, and their total is kept with them.
-/

namespace DigiWage

open Lib

/-! ## Amounts -/

/-- The sum of two amounts. -/
def addAmount (a b : Int) : Option Int := if -2 ^ 63 ≤ a + b ∧ a + b ≤ int64Max then some (a + b) else none

def CENT : Int := 1000000

theorem addAmount_eq {a b : Int} (h : 0 ≤ a + b) (h' : a + b ≤ int64Max) : addAmount a b = some (a + b) := by
  rw [addAmount, if_pos ⟨by omega, h'⟩]

theorem addAmount_some {a b c : Int} (h : addAmount a b = some c) : c = a + b := by
  rw [addAmount] at h
  split at h
  · exact (Option.some.inj h).symm
  · cases h

/-! ## Outputs of the wallet -/

/-- A transaction of the wallet. `fFromMe` is `IsFromMe(ISMINE_ALL)`. -/
structure CWalletTx where
  hash : Uint256
  vout : List CTxOut
  fFromMe : Bool
deriving DecidableEq

/-- A coin: the transaction, and the index of the output. -/
structure WalletCoin where
  tx : CWalletTx
  i : Fin tx.vout.length
deriving DecidableEq

/-- The value of a coin. -/
def WalletCoin.nValue (c : WalletCoin) : Int := (c.tx.vout.get c.i).nValue

structure COutput extends WalletCoin where
  nDepth : Int
  fSpendable : Bool

/-! ## The standard library -/

/-- `std::iter_swap`. -/
def iterSwap {A : Type} (l : List A) (i j : Nat) : List A :=
  match l[i]?, l[j]? with
  | some a, some b => (l.set i b).set j a
  | _, _ => l

/-- `std::random_shuffle`: each element is swapped with one before it or itself. -/
def randomShuffle {A : Type} (rand : Nat → Nat) (l : List A) : List A :=
  (List.range l.length).foldl (fun l i => iterSwap l i (rand i % (i + 1))) l

theorem iterSwap_perm {A : Type} (l : List A) (i j : Nat) : (iterSwap l i j).Perm l := by
  unfold iterSwap
  cases hi : l[i]? with
  | none => exact List.Perm.refl l
  | some a =>
    cases hj : l[j]? with
    | none => exact List.Perm.refl l
    | some b =>
      obtain ⟨hlti, rfl⟩ := List.getElem?_eq_some_iff.mp hi
      obtain ⟨hltj, rfl⟩ := List.getElem?_eq_some_iff.mp hj
      exact List.set_set_perm hlti hltj

theorem randomShuffle_perm {A : Type} (rand : Nat → Nat) (l : List A) : (randomShuffle rand l).Perm l := by
  have hfold : ∀ (is : List Nat) (l' : List A),
      (is.foldl (fun l i => iterSwap l i (rand i % (i + 1))) l').Perm l' := by
    intro is
    induction is with
    | nil => exact fun l' => List.Perm.refl l'
    | cons i is ih => exact fun l' => (ih _).trans (iterSwap_perm l' i _)
  exact hfold _ l

/-! ## The search for a subset -/

/-- The variables of `ApproximateBestSubset`. `nBits` random bits have been used. -/
structure SubsetState where
  nTotal : Int
  vfIncluded : List Bool
  fReachedTarget : Bool
  vfBest : List Bool
  nBest : Int
  nBits : Nat

namespace SubsetState

/-- An element is included. If the target is reached, the total is kept if it is better, and the element is taken out again. -/
def includeItem (nTargetValue : Int) (s : SubsetState) (i : Nat) (nValue : Int) : Option SubsetState := do
  let nTotal ← addAmount s.nTotal nValue
  let vfIncluded := s.vfIncluded.set i true
  if nTargetValue ≤ nTotal then
    let best := if nTotal < s.nBest then (vfIncluded, nTotal) else (s.vfBest, s.nBest)
    some ⟨nTotal - nValue, vfIncluded.set i false, true, best.1, best.2, s.nBits⟩
  else some { s with nTotal := nTotal, vfIncluded := vfIncluded }

/-- One round of the inner loop: the element at `i`. -/
def visit (randbool : Nat → Bool) (nTargetValue : Int) (nPass : Nat) (s : SubsetState) (i : Nat) (nValue : Int) :
    Option SubsetState :=
  if nPass = 0 then
    let s' := { s with nBits := s.nBits + 1 }
    if randbool s.nBits then s'.includeItem nTargetValue i nValue else some s'
  else if s.vfIncluded.getD i false then some s
  else s.includeItem nTargetValue i nValue

/-- The inner loop, over the elements from `i` on. -/
def pass (randbool : Nat → Bool) (nTargetValue : Int) (nPass : Nat) : List WalletCoin → Nat → SubsetState →
    Option SubsetState
  | [], _, s => some s
  | c :: vValue, i, s => do
    let s ← s.visit randbool nTargetValue nPass i c.nValue
    pass randbool nTargetValue nPass vValue (i + 1) s

/-- One repetition: a random pass, and if that does not reach the target, one over what is left. -/
def repetition (randbool : Nat → Bool) (nTargetValue : Int) (vValue : List WalletCoin) (s : SubsetState) :
    Option SubsetState := do
  let s := { s with vfIncluded := List.replicate vValue.length false, nTotal := 0, fReachedTarget := false }
  let s ← pass randbool nTargetValue 0 vValue 0 s
  if s.fReachedTarget then some s else pass randbool nTargetValue 1 vValue 0 s

/-- The repetitions, until the target is met exactly. -/
def repetitions (randbool : Nat → Bool) (nTargetValue : Int) (vValue : List WalletCoin) : Nat → SubsetState →
    Option SubsetState
  | 0, s => some s
  | iterations + 1, s =>
    if s.nBest = nTargetValue then some s
    else do
      let s ← repetition randbool nTargetValue vValue s
      repetitions randbool nTargetValue vValue iterations s

end SubsetState

/-- `ApproximateBestSubset`: `vfBest` and `nBest`. -/
def approximateBestSubset (randbool : Nat → Bool) (vValue : List WalletCoin) (nTotalLower nTargetValue : Int)
    (iterations : Nat) : Option (List Bool × Int) := do
  let s ← SubsetState.repetitions randbool nTargetValue vValue iterations
    ⟨0, [], false, List.replicate vValue.length true, nTotalLower, 0⟩
  some (s.vfBest, s.nBest)

/-! ## The selection -/

/-- What the selection depends on: the confirmations that are asked for, the denominations and the random choices. -/
structure SelectEnv where
  nConfMine : Int
  nConfTheirs : Int
  obfuScationDenominations : List Int
  getRandInt : Nat → Nat
  randbool : Nat → Bool
  randbool' : Nat → Bool

/-- What the loop over the coins finds. -/
inductive Scanned where
  /-- A coin of the target value. -/
  | exact (coin : WalletCoin)
  /-- The coins below the target plus a cent, their total, and the smallest coin of the others. -/
  | coins (vValue : List WalletCoin) (nTotalLower : Int) (coinLowestLarger : Option WalletCoin)

/-- The chosen coins and their value. -/
abbrev SelectedCoins := Finset WalletCoin × Int

/-- One more coin is chosen. -/
def SelectedCoins.add (s : SelectedCoins) (c : WalletCoin) : Option SelectedCoins := do
  let nValueRet ← addAmount s.2 c.nValue
  some (insert c s.1, nValueRet)

namespace SelectEnv

variable (env : SelectEnv)

def isDenominatedAmount (nInputAmount : Int) : Bool := env.obfuScationDenominations.any (nInputAmount == ·)

def lessThenDenom (out1 out2 : COutput) : Bool :=
  !env.isDenominatedAmount out1.nValue && env.isDenominatedAmount out2.nValue

/-- Spendable and deep enough. -/
def eligible (output : COutput) : Bool :=
  output.fSpendable && !decide (output.nDepth < if output.tx.fFromMe then env.nConfMine else env.nConfTheirs)

/-- The loop over the coins. -/
def scan (nTargetValue : Int) (tryDenom : Nat) : List COutput → List WalletCoin → Int → Option WalletCoin → Option Scanned
  | [], vValue, nTotalLower, coinLowestLarger => some (.coins vValue nTotalLower coinLowestLarger)
  | output :: vCoins, vValue, nTotalLower, coinLowestLarger =>
    if !env.eligible output then scan nTargetValue tryDenom vCoins vValue nTotalLower coinLowestLarger
    else
      let coin := output.toWalletCoin
      let n := coin.nValue
      if tryDenom = 0 ∧ env.isDenominatedAmount n then scan nTargetValue tryDenom vCoins vValue nTotalLower coinLowestLarger
      else if n = nTargetValue then some (.exact coin)
      else do
        let limit ← addAmount nTargetValue CENT
        if n < limit then do
          let nTotalLower ← addAmount nTotalLower n
          scan nTargetValue tryDenom vCoins (vValue ++ [coin]) nTotalLower coinLowestLarger
        else if n < (coinLowestLarger.map WalletCoin.nValue).getD int64Max then
          scan nTargetValue tryDenom vCoins vValue nTotalLower (some coin)
        else scan nTargetValue tryDenom vCoins vValue nTotalLower coinLowestLarger

/-- The loop that adds coins to the chosen ones. -/
def addAll (coins : List WalletCoin) : Option SelectedCoins := coins.foldlM SelectedCoins.add (∅, 0)

/-- The bigger coin is returned if "either the stochastic approximation didn't find a good solution, or the next bigger coin
is closer", and else the subset. -/
def pick (nTargetValue limit : Int) (vValue : List WalletCoin) (coinLowestLarger : Option WalletCoin) (vfBest : List Bool)
    (nBest : Int) : Option (Bool × SelectedCoins) :=
  match coinLowestLarger with
  | some coin =>
    if (nBest ≠ nTargetValue ∧ nBest < limit) ∨ coin.nValue ≤ nBest then (addAll [coin]).map (true, ·)
    else (addAll (flagged vValue vfBest)).map (true, ·)
  | none => (addAll (flagged vValue vfBest)).map (true, ·)

/-- "Solve subset sum by stochastic approximation". -/
def solve (nTargetValue : Int) (vValue : List WalletCoin) (nTotalLower : Int) (coinLowestLarger : Option WalletCoin) :
    Option (Bool × SelectedCoins) := do
  let vValue := vValue.insertionSort fun a b => b.nValue ≤ a.nValue
  let limit ← addAmount nTargetValue CENT
  let (vfBest, nBest) ← approximateBestSubset env.randbool vValue nTotalLower nTargetValue 1000
  if nBest ≠ nTargetValue ∧ limit ≤ nTotalLower then do
    let (vfBest, nBest) ← approximateBestSubset env.randbool' vValue nTotalLower limit 1000
    pick nTargetValue limit vValue coinLowestLarger vfBest nBest
  else pick nTargetValue limit vValue coinLowestLarger vfBest nBest

/-- What follows the loop over the coins. `again` is what is done when the coins do not suffice. -/
def conclude (nTargetValue : Int) (again : Option WalletCoin → Option (Bool × SelectedCoins)) : Scanned →
    Option (Bool × SelectedCoins)
  | .exact coin => (addAll [coin]).map (true, ·)
  | .coins vValue nTotalLower coinLowestLarger =>
    if nTotalLower = nTargetValue then (addAll vValue).map (true, ·)
    else if nTotalLower < nTargetValue then
      match coinLowestLarger with
      | none => again none
      | some coin => (addAll [coin]).map (true, ·)
    else env.solve nTargetValue vValue nTotalLower coinLowestLarger

/-- `SelectCoinsMinConf`: the answer, the chosen coins and their value. -/
def selectCoinsMinConf (nTargetValue : Int) (vCoins : List COutput) : Option (Bool × SelectedCoins) := do
  let vCoins := (randomShuffle env.getRandInt vCoins).insertionSort fun a b => !env.lessThenDenom b a
  let first ← env.scan nTargetValue 0 vCoins [] 0 none
  env.conclude nTargetValue (fun coinLowestLarger => do
    let second ← env.scan nTargetValue 1 vCoins [] 0 coinLowestLarger
    env.conclude nTargetValue (fun _ => some (false, ∅, 0)) second) first

end SelectEnv

/-! ## What the search keeps -/

/-- The value of some coins. -/
abbrev valueOf (coins : List WalletCoin) : Int := totalCost WalletCoin.nValue coins

/-- Coins whose values and their sum are amounts. -/
structure Countable (coins : List WalletCoin) : Prop where
  nonneg : ∀ c ∈ coins, 0 ≤ c.nValue
  le_max : valueOf coins ≤ int64Max

theorem Countable.of_sublist {coins coins' : List WalletCoin} (h : Countable coins') (hsub : coins.Sublist coins') :
    Countable coins where
  nonneg c hc := h.nonneg c (hsub.subset hc)
  le_max := (totalCost_le_of_sublist hsub h.nonneg).trans h.le_max

theorem Countable.of_perm {coins coins' : List WalletCoin} (h : Countable coins') (hperm : coins.Perm coins') :
    Countable coins where
  nonneg c hc := h.nonneg c (hperm.subset hc)
  le_max := (totalCost_perm hperm).trans_le h.le_max

namespace SubsetState

variable {vValue rest : List WalletCoin} {nTargetValue : Int} {s : SubsetState} {c : WalletCoin} {randbool : Nat → Bool}
  {i nPass : Nat}

/-- The flags that are kept reach the target, and their total is kept with them. -/
structure Kept (vValue : List WalletCoin) (nTargetValue : Int) (s : SubsetState) : Prop where
  best : s.nBest = valueOf (flagged vValue s.vfBest)
  reached : nTargetValue ≤ s.nBest

/-- During a repetition, the total is that of the included elements. -/
structure Holds (vValue : List WalletCoin) (nTargetValue : Int) (s : SubsetState) : Prop extends Kept vValue nTargetValue s where
  length : s.vfIncluded.length = vValue.length
  total : s.nTotal = valueOf (flagged vValue s.vfIncluded)

theorem Holds.includeItem (h : s.Holds vValue nTargetValue) (hcount : Countable vValue) (hc : vValue[i]? = some c)
    (hi : s.vfIncluded[i]? = some false) : ∃ s', s.includeItem nTargetValue i c.nValue = some s' ∧
      s'.Holds vValue nTargetValue ∧ ∀ j, i ≠ j → s'.vfIncluded[j]? = s.vfIncluded[j]? := by
  have hvalue : s.nTotal + c.nValue = valueOf (flagged vValue (s.vfIncluded.set i true)) := by
    rw [h.total]
    exact ((totalCost_flagged_set hc hi).trans (add_comm _ _)).symm
  have hsub := hcount.of_sublist (flagged_sublist vValue (s.vfIncluded.set i true))
  have hnonneg : 0 ≤ s.nTotal + c.nValue := by
    rw [hvalue]
    exact totalCost_nonneg hsub.nonneg
  have hle : s.nTotal + c.nValue ≤ int64Max := by
    rw [hvalue]
    exact hsub.le_max
  have hback : (s.vfIncluded.set i true).set i false = s.vfIncluded := by
    obtain ⟨hlt, hval⟩ := List.getElem?_eq_some_iff.mp hi
    rw [List.set_set, ← hval, List.set_getElem_self]
  rw [SubsetState.includeItem, addAmount_eq hnonneg hle]
  simp only [Option.bind_eq_bind, Option.bind_some, hback]
  by_cases hreach : nTargetValue ≤ s.nTotal + c.nValue
  · rw [if_pos hreach]
    refine ⟨_, rfl, ⟨?_, h.length, ?_⟩, fun j _ => rfl⟩
    · by_cases hbetter : s.nTotal + c.nValue < s.nBest
      · simp only [if_pos hbetter]
        exact ⟨hvalue, hreach⟩
      · simp only [if_neg hbetter]
        exact ⟨h.best, h.reached⟩
    · rw [Int.add_sub_cancel]
      exact h.total
  · rw [if_neg hreach]
    refine ⟨_, rfl, ⟨⟨h.best, h.reached⟩, ?_, hvalue⟩, fun j hj => ?_⟩
    · rw [List.length_set, h.length]
    · rw [List.getElem?_set_ne hj]

theorem Holds.visit (h : s.Holds vValue nTargetValue) (hcount : Countable vValue) (hc : vValue[i]? = some c)
    (hi : nPass = 0 → s.vfIncluded[i]? = some false) :
    ∃ s', s.visit randbool nTargetValue nPass i c.nValue = some s' ∧ s'.Holds vValue nTargetValue ∧
      ∀ j, i ≠ j → s'.vfIncluded[j]? = s.vfIncluded[j]? := by
  unfold SubsetState.visit
  by_cases hpass : nPass = 0
  · rw [if_pos hpass]
    have h' : ({ s with nBits := s.nBits + 1 } : SubsetState).Holds vValue nTargetValue :=
      ⟨⟨h.best, h.reached⟩, h.length, h.total⟩
    simp only
    split
    · exact h'.includeItem hcount hc (hi hpass)
    · exact ⟨_, rfl, h', fun j _ => rfl⟩
  · rw [if_neg hpass]
    have hlt : i < s.vfIncluded.length := by
      rw [h.length]
      exact (List.getElem?_eq_some_iff.mp hc).1
    cases hf : s.vfIncluded[i]? with
    | none =>
      rw [List.getElem?_eq_getElem hlt] at hf
      cases hf
    | some f =>
      rw [List.getD_eq_getElem?_getD, hf]
      cases f with
      | true => exact ⟨s, rfl, h, fun j _ => rfl⟩
      | false => exact h.includeItem hcount hc hf

theorem Holds.pass (hcount : Countable vValue) : ∀ (rest : List WalletCoin) (i : Nat) {s : SubsetState},
    s.Holds vValue nTargetValue → vValue.drop i = rest →
    (nPass = 0 → ∀ j, i ≤ j → j < vValue.length → s.vfIncluded[j]? = some false) →
    ∃ s', pass randbool nTargetValue nPass rest i s = some s' ∧ s'.Holds vValue nTargetValue
  | [], i, s, h, _, _ => ⟨s, rfl, h⟩
  | c :: rest, i, s, h, hdrop, hfree => by
    have hc : vValue[i]? = some c := by rw [← List.head?_drop, hdrop, List.head?_cons]
    have hlt : i < vValue.length := (List.getElem?_eq_some_iff.mp hc).1
    obtain ⟨s', hvisit, h', hother⟩ := h.visit hcount hc fun hpass => hfree hpass i le_rfl hlt
    have hdrop' : vValue.drop (i + 1) = rest := by rw [← List.drop_drop, hdrop, List.drop_one, List.tail_cons]
    obtain ⟨s'', hpass, h''⟩ := Holds.pass hcount rest (i + 1) h' hdrop' fun hpass j hj hjlt => by
      rw [hother j (by omega)]
      exact hfree hpass j (by omega) hjlt
    exact ⟨s'', by rw [SubsetState.pass, hvisit]; exact hpass, h''⟩

theorem Kept.repetition (h : s.Kept vValue nTargetValue) (hcount : Countable vValue) (randbool : Nat → Bool) :
    ∃ s', repetition randbool nTargetValue vValue s = some s' ∧ s'.Kept vValue nTargetValue := by
  have hstart : ({ s with vfIncluded := List.replicate vValue.length false, nTotal := 0, fReachedTarget := false } :
      SubsetState).Holds vValue nTargetValue := by
    refine ⟨⟨h.best, h.reached⟩, List.length_replicate, ?_⟩
    simp only [valueOf, flagged_none, totalCost_nil]
  obtain ⟨s', hpass, h'⟩ := @Holds.pass vValue nTargetValue randbool 0 hcount vValue 0 _ hstart rfl
    fun _ j _ hj => List.getElem?_replicate_of_lt hj
  rw [SubsetState.repetition, hpass]
  simp only [Option.bind_eq_bind, Option.bind_some]
  split
  · exact ⟨s', rfl, h'.toKept⟩
  · obtain ⟨s'', hpass', h''⟩ := @Holds.pass vValue nTargetValue randbool 1 hcount vValue 0 s' h' rfl fun h01 => by cases h01
    exact ⟨s'', hpass', h''.toKept⟩

theorem Kept.repetitions (hcount : Countable vValue) (randbool : Nat → Bool) : ∀ (iterations : Nat) {s : SubsetState},
    s.Kept vValue nTargetValue →
    ∃ s', repetitions randbool nTargetValue vValue iterations s = some s' ∧ s'.Kept vValue nTargetValue
  | 0, s, h => ⟨s, rfl, h⟩
  | iterations + 1, s, h => by
    rw [SubsetState.repetitions]
    by_cases hexact : s.nBest = nTargetValue
    · exact ⟨s, if_pos hexact, h⟩
    · rw [if_neg hexact]
      obtain ⟨s', hrep, h'⟩ := h.repetition hcount randbool
      obtain ⟨s'', hrest, h''⟩ := Kept.repetitions hcount randbool iterations h'
      exact ⟨s'', by rw [hrep]; exact hrest, h''⟩

end SubsetState

theorem approximateBestSubset_spec {vValue : List WalletCoin} {nTotalLower nTargetValue : Int} (hcount : Countable vValue)
    (htotal : nTotalLower = valueOf vValue) (hreach : nTargetValue ≤ nTotalLower) (randbool : Nat → Bool)
    (iterations : Nat) : ∃ vfBest nBest,
      approximateBestSubset randbool vValue nTotalLower nTargetValue iterations = some (vfBest, nBest) ∧
      nBest = valueOf (flagged vValue vfBest) ∧ nTargetValue ≤ nBest := by
  have hstart : SubsetState.Kept vValue nTargetValue
      ⟨0, [], false, List.replicate vValue.length true, nTotalLower, 0⟩ := by
    refine ⟨?_, hreach⟩
    rw [flagged_all]
    exact htotal
  obtain ⟨s, hrun, hs⟩ := hstart.repetitions hcount randbool iterations
  exact ⟨s.vfBest, s.nBest, by rw [approximateBestSubset, hrun]; rfl, hs.best, hs.reached⟩

/-! ## The chosen coins -/

theorem foldlM_add (coins : List WalletCoin) : ∀ (s : SelectedCoins), 0 ≤ s.2 → (∀ c ∈ coins, 0 ≤ c.nValue) →
    s.2 + valueOf coins ≤ int64Max → coins.foldlM SelectedCoins.add s = some (coins.toFinset ∪ s.1, s.2 + valueOf coins) := by
  induction coins with
  | nil =>
    intro s _ _ _
    simp [List.foldlM]
  | cons c coins ih =>
    intro s hs hnonneg hle
    have hvalue : valueOf (c :: coins) = c.nValue + valueOf coins := totalCost_cons c coins
    have hc : 0 ≤ c.nValue := hnonneg c List.mem_cons_self
    have hrest : ∀ c ∈ coins, 0 ≤ c.nValue := fun c hc => hnonneg c (List.mem_cons_of_mem _ hc)
    have hpos : 0 ≤ valueOf coins := totalCost_nonneg hrest
    have hadd : s.add c = some (insert c s.1, s.2 + c.nValue) := by
      rw [SelectedCoins.add, addAmount_eq (by omega) (by omega)]
      rfl
    rw [List.foldlM_cons, hadd]
    simp only [Option.bind_eq_bind, Option.bind_some]
    rw [ih _ (by simp only; omega) hrest (by simp only; omega)]
    congr 2
    · ext x
      simp only [List.toFinset_cons, Finset.mem_union, Finset.mem_insert]
      tauto
    · simp only
      omega

theorem addAll_eq {coins : List WalletCoin} (h : Countable coins) :
    SelectEnv.addAll coins = some (coins.toFinset, valueOf coins) := by
  rw [SelectEnv.addAll, foldlM_add coins (∅, 0) le_rfl h.nonneg (by simpa using h.le_max)]
  simp

theorem addAll_map {coins : List WalletCoin} (h : Countable coins) :
    (SelectEnv.addAll coins).map (true, ·) = some (true, coins.toFinset, valueOf coins) := by
  rw [addAll_eq h, Option.map_some]

namespace SelectEnv

variable {env : SelectEnv} {nTargetValue : Int} {tryDenom : Nat} {vCoins : List COutput}

/-- The coins that are spendable and deep enough. -/
def eligibleCoins (env : SelectEnv) (vCoins : List COutput) : List WalletCoin :=
  (vCoins.filter env.eligible).map COutput.toWalletCoin

/-- The coins that the loop considers. -/
def considered (env : SelectEnv) (tryDenom : Nat) (output : COutput) : Bool :=
  env.eligible output && !(tryDenom == 0 && env.isDenominatedAmount output.nValue)

/-- The considered coins below the target plus a cent. -/
def lower (env : SelectEnv) (nTargetValue : Int) (tryDenom : Nat) (vCoins : List COutput) : List WalletCoin :=
  (vCoins.filter fun output => env.considered tryDenom output && decide (output.nValue < nTargetValue + CENT)).map
    COutput.toWalletCoin

/-- What the loop finds. -/
def Finds (env : SelectEnv) (nTargetValue : Int) (tryDenom : Nat) (vCoins : List COutput) (vValue : List WalletCoin)
    (coinLowestLarger : Option WalletCoin) : Scanned → Prop
  | .exact coin => coin ∈ env.eligibleCoins vCoins ∧ coin.nValue = nTargetValue
  | .coins vValue' nTotalLower larger =>
    vValue' = vValue ++ env.lower nTargetValue tryDenom vCoins ∧ nTotalLower = valueOf vValue' ∧
    (∀ c, larger = some c → coinLowestLarger = some c ∨ (c ∈ env.eligibleCoins vCoins ∧ nTargetValue + CENT ≤ c.nValue)) ∧
    (larger = none → coinLowestLarger = none ∧
      ∀ output ∈ vCoins, env.considered tryDenom output = true → output.nValue < nTargetValue + CENT)

theorem mem_eligibleCoins {c : WalletCoin} :
    c ∈ env.eligibleCoins vCoins ↔ ∃ output ∈ vCoins, env.eligible output = true ∧ output.toWalletCoin = c := by
  simp [eligibleCoins, and_assoc]

theorem eligibleCoins_subset {c : WalletCoin} {output : COutput} (h : c ∈ env.eligibleCoins vCoins) :
    c ∈ env.eligibleCoins (output :: vCoins) := by
  obtain ⟨o, ho, h⟩ := mem_eligibleCoins.mp h
  exact mem_eligibleCoins.mpr ⟨o, List.mem_cons_of_mem _ ho, h⟩

theorem lower_cons_of_not {output : COutput}
    (h : (env.considered tryDenom output && decide (output.nValue < nTargetValue + CENT)) = false) :
    env.lower nTargetValue tryDenom (output :: vCoins) = env.lower nTargetValue tryDenom vCoins := by
  rw [lower, List.filter_cons_of_neg (by rw [h]; exact Bool.false_ne_true)]
  rfl

theorem lower_cons {output : COutput} (h : env.considered tryDenom output = true)
    (hlt : output.nValue < nTargetValue + CENT) : env.lower nTargetValue tryDenom (output :: vCoins) =
      output.toWalletCoin :: env.lower nTargetValue tryDenom vCoins := by
  rw [lower, List.filter_cons_of_pos (by rw [h, decide_eq_true hlt]; rfl)]
  rfl

theorem Finds.cons {output : COutput} {vValue : List WalletCoin} {larger larger' : Option WalletCoin} {r : Scanned}
    (h : env.Finds nTargetValue tryDenom vCoins vValue larger' r)
    (hlower : (env.considered tryDenom output && decide (output.nValue < nTargetValue + CENT)) = false)
    (hsome : ∀ c, larger' = some c → larger = some c ∨
      (c ∈ env.eligibleCoins (output :: vCoins) ∧ nTargetValue + CENT ≤ c.nValue))
    (hnone : larger' = none → larger = none ∧
      (env.considered tryDenom output = true → output.nValue < nTargetValue + CENT)) :
    env.Finds nTargetValue tryDenom (output :: vCoins) vValue larger r := by
  cases r with
  | exact coin => exact ⟨eligibleCoins_subset h.1, h.2⟩
  | coins vValue' nTotalLower found =>
    obtain ⟨hvalue, htotal, hfound, hnot⟩ := h
    refine ⟨by rw [lower_cons_of_not hlower, hvalue], htotal, ?_, ?_⟩
    · intro c hc
      rcases hfound c hc with hlarger | ⟨hmem, hle⟩
      · exact hsome c hlarger
      · exact .inr ⟨eligibleCoins_subset hmem, hle⟩
    · intro hfoundNone
      obtain ⟨hlarger, hall⟩ := hnot hfoundNone
      obtain ⟨hlarger', hfirst⟩ := hnone hlarger
      refine ⟨hlarger', fun o ho hcons => ?_⟩
      rcases List.mem_cons.mp ho with rfl | ho
      · exact hfirst hcons
      · exact hall o ho hcons

theorem Finds.cons_lower {output : COutput} {vValue : List WalletCoin} {larger : Option WalletCoin} {r : Scanned}
    (h : env.Finds nTargetValue tryDenom vCoins (vValue ++ [output.toWalletCoin]) larger r)
    (hcons : env.considered tryDenom output = true) (hlt : output.nValue < nTargetValue + CENT) :
    env.Finds nTargetValue tryDenom (output :: vCoins) vValue larger r := by
  cases r with
  | exact coin => exact ⟨eligibleCoins_subset h.1, h.2⟩
  | coins vValue' nTotalLower' found =>
    obtain ⟨hvalue, htotal, hfound, hnot⟩ := h
    refine ⟨?_, htotal, fun c hc => (hfound c hc).imp_right fun h => ⟨eligibleCoins_subset h.1, h.2⟩,
      fun hnone => ⟨(hnot hnone).1, fun o ho hconsidered => ?_⟩⟩
    · rw [lower_cons hcons hlt, hvalue, List.append_assoc]
      rfl
    · rcases List.mem_cons.mp ho with rfl | ho
      · exact hlt
      · exact (hnot hnone).2 o ho hconsidered

section Scan

variable {output : COutput} {vValue : List WalletCoin} {nTotalLower : Int} {larger : Option WalletCoin}

theorem considered_iff : env.considered tryDenom output = true ↔
    env.eligible output = true ∧ ¬ (tryDenom = 0 ∧ env.isDenominatedAmount output.nValue = true) := by
  rw [considered, Bool.and_eq_true, Bool.not_eq_true', Bool.eq_false_iff, ne_eq, Bool.and_eq_true, beq_iff_eq]

theorem scan_cons_of_not (h : env.considered tryDenom output = false) :
    env.scan nTargetValue tryDenom (output :: vCoins) vValue nTotalLower larger =
      env.scan nTargetValue tryDenom vCoins vValue nTotalLower larger := by
  rw [Bool.eq_false_iff, ne_eq, considered_iff, not_and, not_not] at h
  rw [scan]
  cases heligible : env.eligible output with
  | false => rfl
  | true => exact if_pos (h heligible)

theorem scan_cons (h : env.considered tryDenom output = true) :
    env.scan nTargetValue tryDenom (output :: vCoins) vValue nTotalLower larger =
      if output.nValue = nTargetValue then some (.exact output.toWalletCoin)
      else (addAmount nTargetValue CENT).bind fun limit =>
        if output.nValue < limit then (addAmount nTotalLower output.nValue).bind fun nTotalLower =>
          env.scan nTargetValue tryDenom vCoins (vValue ++ [output.toWalletCoin]) nTotalLower larger
        else if output.nValue < (larger.map WalletCoin.nValue).getD int64Max then
          env.scan nTargetValue tryDenom vCoins vValue nTotalLower (some output.toWalletCoin)
        else env.scan nTargetValue tryDenom vCoins vValue nTotalLower larger := by
  obtain ⟨heligible, hdenom⟩ := considered_iff.mp h
  rw [scan, heligible]
  exact if_neg hdenom

end Scan

theorem scan_finds (htarget : 0 ≤ nTargetValue) (hlimit : nTargetValue + CENT ≤ int64Max) :
    ∀ (vCoins : List COutput) (vValue : List WalletCoin) (nTotalLower : Int) (larger : Option WalletCoin),
      (∀ output ∈ vCoins, 0 ≤ output.nValue ∧ output.nValue < int64Max) → nTotalLower = valueOf vValue →
      0 ≤ nTotalLower → nTotalLower + valueOf (env.lower nTargetValue tryDenom vCoins) ≤ int64Max →
      ∃ r, env.scan nTargetValue tryDenom vCoins vValue nTotalLower larger = some r ∧
        env.Finds nTargetValue tryDenom vCoins vValue larger r := by
  have hcent : CENT = 1000000 := rfl
  intro vCoins
  induction vCoins with
  | nil =>
    intro vValue nTotalLower larger _ htotal _ _
    refine ⟨_, rfl, ?_, htotal, fun c hc => .inl hc, fun hnone => ⟨hnone, fun o ho => (by cases ho)⟩⟩
    exact (List.append_nil vValue).symm
  | cons output vCoins ih =>
    intro vValue nTotalLower larger hvalues htotal hnonneg hfits
    have hrest : ∀ o ∈ vCoins, 0 ≤ o.nValue ∧ o.nValue < int64Max := fun o ho => hvalues o (List.mem_cons_of_mem _ ho)
    obtain ⟨hpos, hmax⟩ := hvalues output List.mem_cons_self
    cases hcons : env.considered tryDenom output with
    | false =>
      have hlower : (env.considered tryDenom output && decide (output.nValue < nTargetValue + CENT)) = false := by
        rw [hcons, Bool.false_and]
      rw [lower_cons_of_not hlower] at hfits
      rw [scan_cons_of_not hcons]
      obtain ⟨r, hscan, hfinds⟩ := ih vValue nTotalLower larger hrest htotal hnonneg hfits
      refine ⟨r, hscan, hfinds.cons hlower (fun c hc => .inl hc) fun hnone => ⟨hnone, fun hconsidered => ?_⟩⟩
      rw [hcons] at hconsidered
      cases hconsidered
    | true =>
      have hmem : output.toWalletCoin ∈ env.eligibleCoins (output :: vCoins) :=
        mem_eligibleCoins.mpr ⟨output, List.mem_cons_self, (considered_iff.mp hcons).1, rfl⟩
      rw [scan_cons hcons]
      by_cases hexact : output.nValue = nTargetValue
      · rw [if_pos hexact]
        exact ⟨_, rfl, hmem, hexact⟩
      rw [if_neg hexact, addAmount_eq (by omega) hlimit, Option.bind_some]
      by_cases hlt : output.nValue < nTargetValue + CENT
      · rw [if_pos hlt]
        rw [lower_cons hcons hlt] at hfits
        have hsum : valueOf (output.toWalletCoin :: env.lower nTargetValue tryDenom vCoins) =
            output.nValue + valueOf (env.lower nTargetValue tryDenom vCoins) := totalCost_cons _ _
        have hlow : 0 ≤ valueOf (env.lower nTargetValue tryDenom vCoins) := by
          apply totalCost_nonneg
          intro c hc
          obtain ⟨o, ho, rfl⟩ := List.mem_map.mp hc
          exact (hrest o (List.mem_of_mem_filter ho)).1
        have htotal' : nTotalLower + output.nValue = valueOf (vValue ++ [output.toWalletCoin]) := by
          have happend : valueOf (vValue ++ [output.toWalletCoin]) = valueOf vValue + valueOf [output.toWalletCoin] :=
            totalCost_append _ _
          have hone : valueOf [output.toWalletCoin] = output.nValue + valueOf [] := totalCost_cons _ _
          rw [happend, hone, ← htotal, valueOf, totalCost_nil, add_zero]
        rw [addAmount_eq (by omega) (by omega), Option.bind_some]
        obtain ⟨r, hscan, hfinds⟩ := ih (vValue ++ [output.toWalletCoin]) (nTotalLower + output.nValue) larger hrest
          htotal' (by omega) (by omega)
        exact ⟨r, hscan, hfinds.cons_lower hcons hlt⟩
      · rw [if_neg hlt]
        have hlower : (env.considered tryDenom output && decide (output.nValue < nTargetValue + CENT)) = false := by
          rw [decide_eq_false hlt, Bool.and_false]
        rw [lower_cons_of_not hlower] at hfits
        by_cases hless : output.nValue < (larger.map WalletCoin.nValue).getD int64Max
        · rw [if_pos hless]
          obtain ⟨r, hscan, hfinds⟩ := ih vValue nTotalLower (some output.toWalletCoin) hrest htotal hnonneg hfits
          refine ⟨r, hscan, hfinds.cons hlower (fun c hc => ?_) fun hnone => by cases hnone⟩
          cases hc
          exact .inr ⟨hmem, Int.not_lt.mp hlt⟩
        · rw [if_neg hless]
          obtain ⟨r, hscan, hfinds⟩ := ih vValue nTotalLower larger hrest htotal hnonneg hfits
          refine ⟨r, hscan, hfinds.cons hlower (fun c hc => .inl hc) fun hnone => ?_⟩
          rw [hnone] at hless
          exact absurd hmax hless

/-! ## The choice -/

variable {coins vValue : List WalletCoin} {nTotalLower : Int} {larger : Option WalletCoin}

/-- The answer chooses some of the coins, and they reach the target. -/
def Chooses (coins : List WalletCoin) (nTargetValue : Int) (r : Bool × SelectedCoins) : Prop :=
  ∃ chosen : List WalletCoin, r = (true, chosen.toFinset, valueOf chosen) ∧ chosen.Nodup ∧ chosen ⊆ coins ∧
    nTargetValue ≤ valueOf chosen

theorem chooses_all {chosen : List WalletCoin} (hcount : Countable chosen) (hnodup : chosen.Nodup) (hsub : chosen ⊆ coins)
    (hreach : nTargetValue ≤ valueOf chosen) :
    ∃ r, (addAll chosen).map (true, ·) = some r ∧ Chooses coins nTargetValue r :=
  ⟨_, addAll_map hcount, chosen, rfl, hnodup, hsub, hreach⟩

theorem chooses_one {c : WalletCoin} (hpos : 0 ≤ c.nValue) (hmax : c.nValue ≤ int64Max) (hmem : c ∈ coins)
    (hreach : nTargetValue ≤ c.nValue) : ∃ r, (addAll [c]).map (true, ·) = some r ∧ Chooses coins nTargetValue r := by
  have hone : valueOf [c] = c.nValue := by simp [valueOf]
  apply chooses_all ⟨?_, by rw [hone]; exact hmax⟩ (List.nodup_singleton c) ?_ (by rw [hone]; exact hreach)
  · intro c' hc'
    rw [List.mem_singleton.mp hc']
    exact hpos
  · intro c' hc'
    rw [List.mem_singleton.mp hc']
    exact hmem

theorem solve_chooses (hlimit : nTargetValue + CENT ≤ int64Max) (hpos : 0 ≤ nTargetValue) (hcount : Countable vValue)
    (hnodup : vValue.Nodup) (hsub : vValue ⊆ coins) (htotal : nTotalLower = valueOf vValue)
    (hreach : nTargetValue ≤ nTotalLower)
    (hlarger : ∀ c, larger = some c → c ∈ coins ∧ nTargetValue + CENT ≤ c.nValue ∧ c.nValue ≤ int64Max) :
    ∃ r, env.solve nTargetValue vValue nTotalLower larger = some r ∧ Chooses coins nTargetValue r := by
  have hcent : CENT = 1000000 := rfl
  have hsort : (vValue.insertionSort fun a b => b.nValue ≤ a.nValue).Perm vValue := List.perm_insertionSort _ _
  unfold solve
  generalize vValue.insertionSort (fun a b => b.nValue ≤ a.nValue) = sorted at hsort
  have hcount' := hcount.of_perm hsort
  have htotal' : nTotalLower = valueOf sorted := htotal.trans (totalCost_perm hsort).symm
  rw [addAmount_eq (by omega) hlimit]
  obtain ⟨vfBest, nBest, hbest, hvalue, htarget⟩ :=
    approximateBestSubset_spec hcount' htotal' hreach env.randbool 1000
  simp only [Option.bind_eq_bind, Option.bind_some, hbest]
  have hpick {vfBest : List Bool} {nBest : Int} (hvalue : nBest = valueOf (flagged sorted vfBest))
      (htarget : nTargetValue ≤ nBest) : ∃ r, pick nTargetValue (nTargetValue + CENT) sorted larger vfBest nBest = some r ∧
        Chooses coins nTargetValue r := by
    have hsubset : ∃ r, (addAll (flagged sorted vfBest)).map (true, ·) = some r ∧ Chooses coins nTargetValue r := by
      have hflagged := flagged_sublist sorted vfBest
      apply chooses_all (hcount'.of_sublist hflagged) (hflagged.nodup (hsort.nodup_iff.mpr hnodup))
        (fun c hc => hsub (hsort.subset (hflagged.subset hc)))
      rw [← hvalue]
      exact htarget
    unfold pick
    cases larger with
    | none => exact hsubset
    | some c =>
      obtain ⟨hmem, hle, hmax⟩ := hlarger c rfl
      simp only
      split
      · exact chooses_one (by omega) hmax hmem (by omega)
      · exact hsubset
  by_cases hmore : nBest ≠ nTargetValue ∧ nTargetValue + CENT ≤ nTotalLower
  · rw [if_pos hmore]
    -- the second search is for a bigger target
    obtain ⟨vfBest', nBest', hrun, hvalue', htarget'⟩ :=
      approximateBestSubset_spec hcount' htotal' hmore.2 env.randbool' 1000
    rw [hrun]
    exact hpick hvalue' (by omega)
  · rw [if_neg hmore]
    exact hpick hvalue htarget

theorem conclude_spec (hlimit : nTargetValue + CENT ≤ int64Max) (hpos : 0 ≤ nTargetValue)
    (hvalues : ∀ c ∈ env.eligibleCoins vCoins, 0 ≤ c.nValue ∧ c.nValue ≤ int64Max)
    (hnodup : (env.eligibleCoins vCoins).Nodup) (hcount : Countable (env.lower nTargetValue tryDenom vCoins))
    {r : Scanned} (hfinds : env.Finds nTargetValue tryDenom vCoins [] none r)
    (again : Option WalletCoin → Option (Bool × SelectedCoins)) :
    (∃ s, env.conclude nTargetValue again r = some s ∧ Chooses (env.eligibleCoins vCoins) nTargetValue s) ∨
    (env.conclude nTargetValue again r = again none ∧
      valueOf (env.lower nTargetValue tryDenom vCoins) < nTargetValue ∧
      ∀ output ∈ vCoins, env.considered tryDenom output = true → output.nValue < nTargetValue + CENT) := by
  have hcent : CENT = 1000000 := rfl
  have hsublist : (env.lower nTargetValue tryDenom vCoins).Sublist (env.eligibleCoins vCoins) := by
    apply List.Sublist.map
    apply List.monotone_filter_right
    intro output h
    simp only [considered, Bool.and_eq_true] at h
    exact h.1.1
  cases r with
  | exact coin =>
    obtain ⟨hmem, hvalue⟩ := hfinds
    obtain ⟨hnonneg, hmax⟩ := hvalues coin hmem
    exact .inl (chooses_one hnonneg hmax hmem hvalue.ge)
  | coins vValue nTotalLower larger =>
    obtain ⟨hvValue, htotal, hlarger, hnone⟩ := hfinds
    rw [List.nil_append] at hvValue
    subst hvValue
    have hlargerMem : ∀ c, larger = some c →
        c ∈ env.eligibleCoins vCoins ∧ nTargetValue + CENT ≤ c.nValue ∧ c.nValue ≤ int64Max := by
      intro c hc
      obtain ⟨hmem, hle⟩ := (hlarger c hc).resolve_left fun h => by cases h
      exact ⟨hmem, hle, (hvalues c hmem).2⟩
    unfold conclude
    simp only
    by_cases hequal : nTotalLower = nTargetValue
    · rw [if_pos hequal]
      exact .inl (chooses_all hcount (hsublist.nodup hnodup) hsublist.subset (by rw [← htotal]; exact hequal.ge))
    rw [if_neg hequal]
    by_cases hless : nTotalLower < nTargetValue
    · rw [if_pos hless]
      cases larger with
      | none => exact .inr ⟨rfl, by rw [← htotal]; exact hless, (hnone rfl).2⟩
      | some c =>
        obtain ⟨hmem, hle, hmax⟩ := hlargerMem c rfl
        exact .inl (chooses_one (by omega) hmax hmem (by omega))
    · rw [if_neg hless]
      exact .inl (solve_chooses hlimit hpos hcount (hsublist.nodup hnodup) hsublist.subset htotal (by omega) hlargerMem)

/-- The selection succeeds exactly when the eligible coins suffice, and then with eligible coins that reach the target. -/
structure Exact (env : SelectEnv) (nTargetValue : Int) (vCoins : List COutput) (r : Bool × SelectedCoins) : Prop where
  enough : r.1 = true ↔ nTargetValue ≤ valueOf (env.eligibleCoins vCoins)
  chosen : ∀ c ∈ r.2.1, ∃ output ∈ vCoins, env.eligible output = true ∧ output.toWalletCoin = c
  value : r.2.2 = ∑ c ∈ r.2.1, c.nValue
  reached : r.1 = true → nTargetValue ≤ r.2.2
  refused : r.1 = false → r.2.1 = ∅ ∧ r.2.2 = 0

theorem Chooses.exact {r : Bool × SelectedCoins} (h : Chooses (env.eligibleCoins vCoins) nTargetValue r)
    (hnonneg : ∀ c ∈ env.eligibleCoins vCoins, 0 ≤ c.nValue) : env.Exact nTargetValue vCoins r := by
  obtain ⟨chosen, rfl, hnodup, hsub, hreach⟩ := h
  refine ⟨⟨fun _ => ?_, fun _ => rfl⟩, ?_, ?_, fun _ => hreach, fun h => by cases h⟩
  · obtain ⟨l, hperm, hsublist⟩ := hnodup.subperm hsub
    calc nTargetValue ≤ valueOf chosen := hreach
      _ = valueOf l := totalCost_perm hperm.symm
      _ ≤ valueOf (env.eligibleCoins vCoins) := totalCost_le_of_sublist hsublist hnonneg
  · intro c hc
    exact mem_eligibleCoins.mp (hsub (List.mem_toFinset.mp hc))
  · exact (List.sum_toFinset WalletCoin.nValue hnodup).symm

/-- The sums that the selection makes are amounts: the target and a cent, and the eligible coins below that. -/
structure Fits (env : SelectEnv) (nTargetValue : Int) (vCoins : List COutput) : Prop where
  limit : nTargetValue + CENT ≤ int64Max
  sum : valueOf ((env.eligibleCoins vCoins).filter fun c => c.nValue < nTargetValue + CENT) ≤ int64Max

/-- The selection has a result, and it is exact. -/
def SelectsExactly (env : SelectEnv) (nTargetValue : Int) (vCoins : List COutput) : Prop :=
  ∃ r, env.selectCoinsMinConf nTargetValue vCoins = some r ∧ env.Exact nTargetValue vCoins r

theorem lower_one (env : SelectEnv) (nTargetValue : Int) (vCoins : List COutput) : env.lower nTargetValue 1 vCoins =
    (env.eligibleCoins vCoins).filter fun c => c.nValue < nTargetValue + CENT := by
  rw [lower, eligibleCoins, List.filter_map, List.filter_filter]
  congr 1
  apply List.filter_congr
  intro output _
  simp [considered, Bool.and_comm]

theorem lower_zero_sublist (env : SelectEnv) (nTargetValue : Int) (vCoins : List COutput) :
    (env.lower nTargetValue 0 vCoins).Sublist (env.lower nTargetValue 1 vCoins) := by
  apply List.Sublist.map
  apply List.monotone_filter_right
  intro output h
  simp only [considered, Bool.and_eq_true] at h ⊢
  exact ⟨⟨h.1.1, rfl⟩, h.2⟩

/-- The coins in the order in which the loop goes over them. -/
def sortedCoins (env : SelectEnv) (vCoins : List COutput) : List COutput :=
  (randomShuffle env.getRandInt vCoins).insertionSort fun a b => !env.lessThenDenom b a

theorem sortedCoins_perm (env : SelectEnv) (vCoins : List COutput) : (env.sortedCoins vCoins).Perm vCoins :=
  (List.perm_insertionSort _ _).trans (randomShuffle_perm _ _)

theorem selectCoinsMinConf_eq (env : SelectEnv) (nTargetValue : Int) (vCoins : List COutput) :
    env.selectCoinsMinConf nTargetValue vCoins =
      (env.scan nTargetValue 0 (env.sortedCoins vCoins) [] 0 none).bind fun first =>
        env.conclude nTargetValue (fun coinLowestLarger =>
          (env.scan nTargetValue 1 (env.sortedCoins vCoins) [] 0 coinLowestLarger).bind fun second =>
            env.conclude nTargetValue (fun _ => some (false, ∅, 0)) second) first := rfl

theorem Fits.of_total {env : SelectEnv} {nTargetValue : Int} {vCoins : List COutput} (hlimit : nTargetValue + CENT ≤ int64Max)
    (hnonneg : ∀ c ∈ vCoins.map COutput.toWalletCoin, 0 ≤ c.nValue)
    (htotal : valueOf (vCoins.map COutput.toWalletCoin) ≤ int64Max) : env.Fits nTargetValue vCoins := by
  have hsublist : ((env.eligibleCoins vCoins).filter fun c => c.nValue < nTargetValue + CENT).Sublist
      (vCoins.map COutput.toWalletCoin) := List.filter_sublist.trans (List.filter_sublist.map _)
  exact ⟨hlimit, (totalCost_le_of_sublist hsublist hnonneg).trans htotal⟩

theorem Fits.selectsExactly {env : SelectEnv} {nTargetValue : Int} {vCoins : List COutput}
    (hfits : env.Fits nTargetValue vCoins) (hpos : 0 ≤ nTargetValue) (hdistinct : (vCoins.map COutput.toWalletCoin).Nodup)
    (hrange : ∀ output ∈ vCoins, 0 ≤ output.nValue ∧ output.nValue ≤ CTxOutCompressor.maxMoney) :
    env.SelectsExactly nTargetValue vCoins := by
  have hperm := env.sortedCoins_perm vCoins
  rw [SelectsExactly, selectCoinsMinConf_eq]
  generalize env.sortedCoins vCoins = sorted at hperm
  have hmoney : CTxOutCompressor.maxMoney < int64Max := by decide
  have hvalues : ∀ output ∈ sorted, 0 ≤ output.nValue ∧ output.nValue < int64Max := by
    intro output hout
    obtain ⟨hnonneg, hle⟩ := hrange output (hperm.subset hout)
    exact ⟨hnonneg, hle.trans_lt hmoney⟩
  have heligible : (env.eligibleCoins sorted).Perm (env.eligibleCoins vCoins) := (hperm.filter _).map _
  have hnodup : (env.eligibleCoins sorted).Nodup :=
    heligible.nodup_iff.mpr (hdistinct.sublist (List.filter_sublist.map COutput.toWalletCoin))
  have hcoins : ∀ c ∈ env.eligibleCoins sorted, 0 ≤ c.nValue ∧ c.nValue ≤ int64Max := by
    intro c hc
    obtain ⟨output, hout, -, rfl⟩ := mem_eligibleCoins.mp hc
    exact ⟨(hvalues output hout).1, (hvalues output hout).2.le⟩
  have hlower1 : Countable (env.lower nTargetValue 1 sorted) := by
    rw [lower_one]
    refine ⟨fun c hc => (hcoins c (List.mem_of_mem_filter hc)).1, ?_⟩
    rw [valueOf, totalCost_perm (heligible.filter _)]
    exact hfits.sum
  have hlower0 : Countable (env.lower nTargetValue 0 sorted) := hlower1.of_sublist (lower_zero_sublist _ _ _)
  have hexact {r : Bool × SelectedCoins} (h : Chooses (env.eligibleCoins sorted) nTargetValue r) :
      env.Exact nTargetValue vCoins r := by
    obtain ⟨chosen, hr, hchosen, hsub, hreach⟩ := h
    exact Chooses.exact ⟨chosen, hr, hchosen, fun c hc => heligible.subset (hsub hc), hreach⟩ fun c hc =>
      (hcoins c (heligible.symm.subset hc)).1
  obtain ⟨r0, hscan0, hfinds0⟩ := @scan_finds env nTargetValue 0 hpos hfits.limit sorted [] 0 none hvalues rfl le_rfl
    (by rw [zero_add]; exact hlower0.le_max)
  obtain ⟨r1, hscan1, hfinds1⟩ := @scan_finds env nTargetValue 1 hpos hfits.limit sorted [] 0 none hvalues rfl le_rfl
    (by rw [zero_add]; exact hlower1.le_max)
  rw [hscan0, Option.bind_some]
  rcases conclude_spec hfits.limit hpos hcoins hnodup hlower0 hfinds0 _ with ⟨r, hr, hchooses⟩ | ⟨hagain, -, -⟩
  · exact ⟨r, hr, hexact hchooses⟩
  · rw [hagain, hscan1, Option.bind_some]
    rcases conclude_spec hfits.limit hpos hcoins hnodup hlower1 hfinds1 fun _ => some (false, ∅, 0) with
      ⟨r, hr, hchooses⟩ | ⟨hfalse, hless, hall⟩
    · exact ⟨r, hr, hexact hchooses⟩
    · -- all eligible coins are too few
      refine ⟨_, hfalse, ⟨fun h => (by cases h), fun henough => ?_⟩, fun c hc => (by cases hc), rfl, fun h => (by cases h),
        fun _ => ⟨rfl, rfl⟩⟩
      have hlowerAll : env.lower nTargetValue 1 sorted = env.eligibleCoins sorted := by
        rw [lower_one, List.filter_eq_self]
        intro c hc
        obtain ⟨output, hout, helig, rfl⟩ := mem_eligibleCoins.mp hc
        apply decide_eq_true
        exact hall output hout (by rw [considered, helig]; rfl)
      rw [hlowerAll, valueOf, totalCost_perm heligible] at hless
      exact absurd henough (Int.not_le.mpr hless)

/-- Coin selection is exact, as long as the sums are amounts: for every list of distinct coins, whatever the random choices. -/
theorem selectCoinsMinConf_exact (env : SelectEnv) (nTargetValue : Int) (vCoins : List COutput) (hpos : 0 < nTargetValue)
    (hdistinct : (vCoins.map COutput.toWalletCoin).Nodup)
    (hrange : ∀ output ∈ vCoins, 0 ≤ output.nValue ∧ output.nValue ≤ CTxOutCompressor.maxMoney)
    (hfits : env.Fits nTargetValue vCoins) : env.SelectsExactly nTargetValue vCoins :=
  hfits.selectsExactly hpos.le hdistinct hrange

theorem scan_limit (hlimit : int64Max < nTargetValue + CENT) : ∀ (vCoins : List COutput) {r : Scanned},
    (∀ output ∈ vCoins, output.nValue < nTargetValue) → env.scan nTargetValue tryDenom vCoins [] 0 none = some r →
    r = .coins [] 0 none
  | [], r, _, h => (Option.some.inj h).symm
  | output :: vCoins, r, hvalues, h => by
    have hrest := fun (r : Scanned) => @scan_limit hlimit vCoins r fun o ho => hvalues o (List.mem_cons_of_mem _ ho)
    have hlt : output.nValue < nTargetValue := hvalues output List.mem_cons_self
    have hnone : addAmount nTargetValue CENT = none := if_neg fun hfits => Int.not_le.mpr hlimit hfits.2
    cases hcons : env.considered tryDenom output with
    | false =>
      rw [scan_cons_of_not hcons] at h
      exact hrest r h
    | true =>
      rw [scan_cons hcons, if_neg hlt.ne, hnone] at h
      cases h

theorem exact_of_selected {env : SelectEnv} {nTargetValue : Int} {vCoins : List COutput} {s : SelectedCoins}
    (hpos : 0 ≤ nTargetValue) (hdistinct : (vCoins.map COutput.toWalletCoin).Nodup)
    (hrange : ∀ output ∈ vCoins, 0 ≤ output.nValue ∧ output.nValue ≤ CTxOutCompressor.maxMoney)
    (htotal : valueOf (vCoins.map COutput.toWalletCoin) + CENT ≤ int64Max)
    (h : env.selectCoinsMinConf nTargetValue vCoins = some (true, s)) : env.Exact nTargetValue vCoins (true, s) := by
  have hcent : CENT = 1000000 := rfl
  have hnonneg : ∀ c ∈ vCoins.map COutput.toWalletCoin, 0 ≤ c.nValue := by
    intro c hc
    obtain ⟨output, hout, rfl⟩ := List.mem_map.mp hc
    exact (hrange output hout).1
  by_cases hlimit : nTargetValue + CENT ≤ int64Max
  · have hfits : env.Fits nTargetValue vCoins := .of_total hlimit hnonneg (by omega)
    obtain ⟨r, hr, hexact⟩ := hfits.selectsExactly hpos hdistinct hrange
    rw [h] at hr
    cases hr
    exact hexact
  · -- the target is more than all coins
    have hvalues : ∀ output ∈ env.sortedCoins vCoins, output.nValue < nTargetValue := by
      intro output hout
      have hmem := (env.sortedCoins_perm vCoins).subset hout
      have hone : valueOf [output.toWalletCoin] ≤ valueOf (vCoins.map COutput.toWalletCoin) := totalCost_le_of_sublist
        (List.singleton_sublist.mpr (List.mem_map_of_mem hmem)) hnonneg
      have hvalue : valueOf [output.toWalletCoin] = output.nValue := by simp [valueOf]
      omega
    have hzero : nTargetValue ≠ 0 := by
      have hmax : CENT ≤ int64Max := by decide
      omega
    rw [selectCoinsMinConf_eq, Option.bind_eq_some_iff] at h
    obtain ⟨first, hfirst, h⟩ := h
    rw [scan_limit (Int.not_le.mp hlimit) _ hvalues hfirst, conclude, if_neg (Ne.symm hzero), if_pos (by omega)] at h
    obtain ⟨second, hsecond, h⟩ := Option.bind_eq_some_iff.mp h
    rw [scan_limit (Int.not_le.mp hlimit) _ hvalues hsecond, conclude, if_neg (Ne.symm hzero), if_pos (by omega)] at h
    cases h

/-- Two coins, of one transaction. -/
def twoCoins : List COutput :=
  let tx : CWalletTx := ⟨1, [⟨3 * COIN, ([] : List UInt8), -10⟩, ⟨5 * COIN, ([] : List UInt8), -10⟩], false⟩
  [⟨⟨tx, 0⟩, 10, true⟩, ⟨⟨tx, 1⟩, 10, true⟩]

theorem selectCoinsMinConf_exact_twoCoins : SelectsExactly ⟨1, 6, [], id, fun _ => true, fun _ => false⟩ (6 * COIN) twoCoins :=
  selectCoinsMinConf_exact _ _ _ (by decide) (by decide) (by decide) ⟨by decide, by decide⟩

theorem scan_overflow (hdenom : env.obfuScationDenominations = []) (hlimit : nTargetValue + CENT ≤ int64Max) :
    ∀ (vCoins : List COutput) (vValue : List WalletCoin) (nTotalLower : Int) (larger : Option WalletCoin),
      (∀ output ∈ vCoins, 0 ≤ output.nValue ∧ output.nValue < nTargetValue) → 0 ≤ nTotalLower → nTotalLower ≤ int64Max →
      int64Max < nTotalLower + valueOf (env.eligibleCoins vCoins) →
      env.scan nTargetValue tryDenom vCoins vValue nTotalLower larger = none := by
  have hcent : CENT = 1000000 := rfl
  intro vCoins
  induction vCoins with
  | nil =>
    intro vValue nTotalLower larger _ _ hle hlt
    have hzero : valueOf (env.eligibleCoins []) = 0 := rfl
    omega
  | cons output vCoins ih =>
    intro vValue nTotalLower larger hvalues hnonneg hle hlt
    obtain ⟨hpos, hbelow⟩ := hvalues output List.mem_cons_self
    have hrest : ∀ o ∈ vCoins, 0 ≤ o.nValue ∧ o.nValue < nTargetValue := fun o ho => hvalues o (List.mem_cons_of_mem _ ho)
    have hnot : ¬ (tryDenom = 0 ∧ env.isDenominatedAmount output.nValue = true) := by
      rw [isDenominatedAmount, hdenom, List.any_nil]
      exact fun h => Bool.false_ne_true h.2
    cases heligible : env.eligible output with
    | false =>
      have hskip : env.eligibleCoins (output :: vCoins) = env.eligibleCoins vCoins := by
        rw [eligibleCoins, List.filter_cons_of_neg (by rw [heligible]; exact Bool.false_ne_true)]
        rfl
      rw [hskip] at hlt
      rw [scan_cons_of_not (by rw [considered, heligible, Bool.false_and])]
      exact ih vValue nTotalLower larger hrest hnonneg hle hlt
    | true =>
      have hvalue : valueOf (env.eligibleCoins (output :: vCoins)) = output.nValue + valueOf (env.eligibleCoins vCoins) := by
        have hcons : env.eligibleCoins (output :: vCoins) = output.toWalletCoin :: env.eligibleCoins vCoins := by
          rw [eligibleCoins, List.filter_cons_of_pos heligible]
          rfl
        rw [hcons]
        exact totalCost_cons _ _
      rw [scan_cons (considered_iff.mpr ⟨heligible, hnot⟩), if_neg hbelow.ne, addAmount_eq (by omega) hlimit, Option.bind_some,
        if_pos (by omega)]
      by_cases hsum : nTotalLower + output.nValue ≤ int64Max
      · rw [addAmount_eq (by omega) hsum]
        exact ih _ _ larger hrest (by omega) hsum (by omega)
      · rw [addAmount, if_neg (by omega)]
        rfl

/-- The coins of a transaction whose outputs all have the largest value. -/
def maxCoins (n : Nat) : List COutput :=
  let tx : CWalletTx := ⟨1, List.replicate n ⟨CTxOutCompressor.maxMoney, ([] : List UInt8), -10⟩, false⟩
  (List.finRange tx.vout.length).map fun i => ⟨⟨tx, i⟩, 10, true⟩

theorem nValue_maxCoins {n : Nat} {output : COutput} (h : output ∈ maxCoins n) :
    output.nValue = CTxOutCompressor.maxMoney := by
  obtain ⟨i, -, rfl⟩ := List.mem_map.mp h
  simp [WalletCoin.nValue]

theorem nodup_maxCoins (n : Nat) : ((maxCoins n).map COutput.toWalletCoin).Nodup := by
  rw [maxCoins, List.map_map]
  refine (List.nodup_finRange _).map fun i j hij => ?_
  simpa using hij

theorem not_selectsExactly_maxCoins (n : Nat) (hn : int64Max < n * CTxOutCompressor.maxMoney) :
    ¬ SelectsExactly ⟨1, 6, [], id, fun _ => true, fun _ => false⟩ (CTxOutCompressor.maxMoney + 1) (maxCoins n) := by
  let env : SelectEnv := ⟨1, 6, [], id, fun _ => true, fun _ => false⟩
  have hperm := env.sortedCoins_perm (maxCoins n)
  have hmoney : 0 ≤ CTxOutCompressor.maxMoney := by decide
  have hall : env.eligibleCoins (maxCoins n) = (maxCoins n).map COutput.toWalletCoin := by
    rw [eligibleCoins, List.filter_eq_self.mpr]
    intro output h
    obtain ⟨i, -, rfl⟩ := List.mem_map.mp h
    rfl
  have hsum : valueOf (env.eligibleCoins (env.sortedCoins (maxCoins n))) = n * CTxOutCompressor.maxMoney := by
    have hsorted : (env.eligibleCoins (env.sortedCoins (maxCoins n))).Perm (env.eligibleCoins (maxCoins n)) := (hperm.filter _).map _
    have hconst : ((maxCoins n).map COutput.toWalletCoin).map WalletCoin.nValue =
        List.replicate n CTxOutCompressor.maxMoney := by
      rw [List.eq_replicate_iff]
      constructor
      · simp [maxCoins]
      · intro x hx
        obtain ⟨c, hc, rfl⟩ := List.mem_map.mp hx
        obtain ⟨output, hout, rfl⟩ := List.mem_map.mp hc
        exact nValue_maxCoins hout
    rw [valueOf, totalCost_perm hsorted, hall, totalCost, hconst, List.sum_replicate, nsmul_eq_mul]
  have hscan : env.scan (CTxOutCompressor.maxMoney + 1) 0 (env.sortedCoins (maxCoins n)) [] 0 none = none := by
    apply scan_overflow rfl (by decide) _ [] 0 none ?_ le_rfl (by decide) (by rw [zero_add, hsum]; exact hn)
    intro output hout
    rw [nValue_maxCoins (hperm.subset hout)]
    omega
  rintro ⟨r, hrun, -⟩
  rw [selectCoinsMinConf_eq, hscan] at hrun
  cases hrun

/-- Neither the largest amount as a target, nor coins whose sum is too large, are added up. -/
theorem not_selectsExactly :
    ¬ (∀ (env : SelectEnv) (vCoins : List COutput), (vCoins.map COutput.toWalletCoin).Nodup →
      (∀ output ∈ vCoins, 0 ≤ output.nValue ∧ output.nValue ≤ CTxOutCompressor.maxMoney) →
      env.SelectsExactly int64Max vCoins) ∧
    ¬ ∀ (env : SelectEnv) (vCoins : List COutput), (vCoins.map COutput.toWalletCoin).Nodup →
      (∀ output ∈ vCoins, 0 ≤ output.nValue ∧ output.nValue ≤ CTxOutCompressor.maxMoney) →
      env.SelectsExactly (CTxOutCompressor.maxMoney + 1) vCoins := by
  constructor
  · intro h
    obtain ⟨r, hrun, -⟩ := h ⟨1, 6, [], id, fun _ => true, fun _ => false⟩ twoCoins (by decide) (by decide)
    cases hrun
  · intro h
    refine not_selectsExactly_maxCoins 769 (by decide) (h _ _ (nodup_maxCoins 769) fun output hout => ?_)
    rw [nValue_maxCoins hout]
    decide

end SelectEnv

end DigiWage
