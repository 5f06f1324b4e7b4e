import DigiWage.Chain.CheckBlock
import DigiWage.Coins.Value

/-!
# Amounts in `ConnectBlock`

`ConnectBlock` of `main.cpp` as far as amounts go: `CheckInputs`, the sums `nFees`, `nValueIn` and `nValueOut` over the
transactions, the money supply of the block, and `IsBlockValueValid` of `masternode-payments.cpp`.

* The sums are 64-bit integers: `addInt64` wraps.
* `ConnectEnv` has the checks that do not look at amounts: signatures, their number, the parsing of zerocoin mints, and
  the writes to the disk.
* `connectTxs_spec` says what the loop computes: the sums of the fees, of what goes in and of what goes out, up to a
  multiple of `2 ^ 64`.
-/

namespace DigiWage

open Lib ChainState

/-- `int64_t` from an integer. -/
def int64 (x : Int) : Int := x.bmod (2 ^ 64)

/-- Addition of `int64_t`. -/
def addInt64 (a b : Int) : Int := int64 (a + b)

/-- The integer is an `int64_t`. -/
def InInt64 (x : Int) : Prop := -2 ^ 63 ≤ x ∧ x ≤ int64Max

/-- What `ConnectBlock` asks of the node. -/
structure ConnectEnv extends CheckEnv where
  hashGenesisBlock : Uint256
  nCoinbaseMaturity : Int
  nBudgetCycleBlocks : Nat
  /-- `TxInToZerocoinSpend(txIn).getDenomination()`. -/
  denomination : CTxIn → Int
  /-- The checks of a transaction that do not look at amounts: signatures, their number, zerocoin mints. -/
  txChecks : CoinsView → CTransaction → Bool
  /-- `UpdateZWAGESupply`, `CCheckQueueControl::Wait` and the writes to the disk succeed. -/
  blockChecks : CBlock → Bool

/-- The sums of `ConnectBlock`. -/
structure Totals where
  nFees : Int
  nValueIn : Int
  nValueOut : Int
deriving DecidableEq, Repr

namespace ConnectEnv

variable (env : ConnectEnv)

/-- The loop of `CheckInputs` over the inputs, with the sum so far. -/
def checkInputValues (view : CoinsView) (nSpendHeight : Int) : Int → List CTxIn → Option Int
  | nValueIn, [] => some nValueIn
  | nValueIn, txin :: vin =>
    let coins := view.coins txin.prevout.hash
    let nValue := (coins.out txin.prevout.n).nValue
    if (coins.fCoinBase || coins.fCoinStake) && decide (nSpendHeight - coins.nHeight.toInt < env.nCoinbaseMaturity) then
      none
    else if !env.moneyRange nValue || !env.moneyRange (addInt64 nValueIn nValue) then none
    else checkInputValues view nSpendHeight (addInt64 nValueIn nValue) vin

/-- `CheckInputs` but for the signatures; `none` when `GetValueOut` throws counts as a failure. -/
def checkInputs (view : CoinsView) (nSpendHeight : Int) (tx : CTransaction) : Bool :=
  view.haveInputs tx &&
    match env.checkInputValues view nSpendHeight 0 tx.vin with
    | none => false
    | some nValueIn => tx.isCoinStake ||
      match tx.getValueOut with
      | none => false
      | some nValueOut => decide (nValueOut ≤ nValueIn) && env.moneyRange (nValueIn - nValueOut)

/-- The value of the zerocoin spends of a transaction. -/
def zerocoinSpent (tx : CTransaction) : List Int :=
  (tx.vin.filter CTxIn.isZerocoinSpend).map fun txin => env.denomination txin * COIN

/-- The part of the loop of `ConnectBlock` that looks at the inputs of a transaction. -/
def countInputs (nHeight : Nat) (view : CoinsView) (tx : CTransaction) (t : Totals) : Option Totals :=
  if tx.hasZerocoinSpendInputs then some { t with nValueIn := (env.zerocoinSpent tx).foldl addInt64 t.nValueIn }
  else if tx.isCoinBase then some t
  else
    match tx.getValueOut with
    | none => none
    | some nValueOut =>
      if env.checkInputs view nHeight tx then
        let nValueIn := int64 (view.getValueIn tx)
        some { t with
          nFees := if tx.isCoinStake then t.nFees else addInt64 t.nFees (nValueIn - nValueOut)
          nValueIn := addInt64 t.nValueIn nValueIn }
      else none

/-- One round of the loop of `ConnectBlock`. -/
def connectTx (nHeight : Nat) (view : CoinsView) (t : Totals) (tx : CTransaction) : Option (Totals × CoinsView) :=
  if !(view.coins tx.hash).isPruned then none
  else if !env.isInitialBlockDownload && tx.containsZerocoins then none
  else if !env.txChecks view tx then none
  else
    match env.countInputs nHeight view tx t with
    | none => none
    | some t' =>
      match tx.getValueOut with
      | none => none
      | some nValueOut =>
        match updateCoins tx view (Int32.ofNat nHeight) with
        | none => none
        | some (_, view') => some ({ t' with nValueOut := addInt64 t'.nValueOut nValueOut }, view')

/-- The loop of `ConnectBlock`. -/
def connectTxs (nHeight : Nat) : List CTransaction → CoinsView → Totals → Option (Totals × CoinsView)
  | [], view, t => some (t, view)
  | tx :: txs, view, t =>
    match env.connectTx nHeight view t tx with
    | none => none
    | some (t', view') => connectTxs nHeight txs view' t'

def isBlockValueValid (s : ChainState) (block : CBlock) (nExpectedValue nMinted : Int) : Bool :=
  let nHeight := s.nextHeight block.hashPrevBlock
  if s.tip = none then true
  else if !env.isSynced then
    decide (nHeight % env.nBudgetCycleBlocks < 100) || decide (nMinted ≤ nExpectedValue)
  else if !env.superblocks then decide (nMinted ≤ nExpectedValue)
  -- "the value of the block is evaluated in CheckBlock"
  else env.budget.isBudgetPaymentBlock nHeight || decide (nMinted ≤ nExpectedValue)

/-- What `ConnectBlock` leaves for a block: the view, the sums, the money supply and the amount minted. -/
structure Connected where
  view : CoinsView
  totals : Totals
  nMoneySupply : Int
  nMint : Int

/-- `nExpectedMint`: the fees go to the miner, and a staker destroys them. -/
def nExpectedMint (block : CBlock) (prevHeight : Nat) (nFees : Int) : Int :=
  if block.isProofOfWork then addInt64 (getBlockValue prevHeight) nFees else getBlockValue prevHeight

/-- `ConnectBlock` for a block other than the genesis block that is in the index, on a parent of the given height and
money supply. -/
def connectBlock (s : ChainState) (view : CoinsView) (prevHeight : Nat) (nMoneySupplyPrev : Int) (block : CBlock) :
    Option Connected :=
  let nHeight := prevHeight + 1
  if view.hashBlock ≠ block.hashPrevBlock then none
  else if decide (nHeight ≤ env.params.heightLastPoW) && block.isProofOfStake then none
  else if decide (env.params.heightLastPoW < nHeight) && block.isProofOfWork then none
  else
    match env.connectTxs nHeight block.vtx view ⟨0, 0, 0⟩ with
    | none => none
    | some (t, view') =>
      let nMoneySupply := addInt64 (addInt64 nMoneySupplyPrev t.nValueOut) (-t.nValueIn)
      let nMint := addInt64 (nMoneySupply - nMoneySupplyPrev) t.nFees
      if !env.isBlockValueValid s block (nExpectedMint block prevHeight t.nFees) nMint then none
      else if !env.blockChecks block then none
      else some ⟨{ view' with hashBlock := block.hash }, t, nMoneySupply, nMint⟩

end ConnectEnv

/-! ## 64-bit sums -/

theorem int64_of_inInt64 {x : Int} (h : InInt64 x) : int64 x = x := by
  obtain ⟨h1, h2⟩ := h
  unfold int64Max at h2
  exact Int.bmod_eq_of_le (by omega) (by omega)

theorem inInt64_int64 (x : Int) : InInt64 (int64 x) := by
  have h1 := Int.le_bmod (x := x) (m := 2 ^ 64) (by decide)
  have h2 := Int.bmod_lt (x := x) (m := 2 ^ 64) (by decide)
  unfold InInt64 int64Max int64
  omega

@[simp] theorem int64_add_left (a b : Int) : int64 (int64 a + b) = int64 (a + b) := Int.bmod_add_bmod

@[simp] theorem addInt64_int64_left (a b : Int) : addInt64 (int64 a) b = int64 (a + b) := Int.bmod_add_bmod

@[simp] theorem addInt64_int64_right (a b : Int) : addInt64 a (int64 b) = int64 (a + b) := Int.add_bmod_bmod

theorem foldl_addInt64 : ∀ (l : List Int) (a : Int), l.foldl addInt64 (int64 a) = int64 (a + l.sum)
  | [], a => by simp
  | b :: l, a => by
    rw [List.foldl_cons, addInt64_int64_left, foldl_addInt64 l (a + b), List.sum_cons, add_assoc]

namespace ConnectEnv

variable {env : ConnectEnv}

/-! ## What the loop computes -/

/-- What a transaction takes in: the denominations of its zerocoin spends, or the outputs it spends. -/
def txValueIn (env : ConnectEnv) (view : CoinsView) (tx : CTransaction) : Int :=
  if tx.hasZerocoinSpendInputs then (env.zerocoinSpent tx).sum
  else if tx.isCoinBase then 0 else view.getValueIn tx

/-- What transactions take in that follow one another from a view on. -/
def valuesIn (env : ConnectEnv) (nHeight : Nat) : List CTransaction → CoinsView → Int
  | [], _ => 0
  | tx :: txs, view => env.txValueIn view tx +
    match updateCoins tx view (Int32.ofNat nHeight) with
    | none => 0
    | some (_, view') => valuesIn env nHeight txs view'

/-- What transactions give out. -/
def valuesOut (txs : List CTransaction) : Int := (txs.map fun tx => (tx.vout.map CTxOut.nValue).sum).sum

/-- What one round of the loop has checked and done. -/
structure TxStep (env : ConnectEnv) (nHeight : Nat) (view : CoinsView) (tx : CTransaction) (view' : CoinsView) :
    Prop where
  pruned : (view.coins tx.hash).isPruned = true
  valueOut : tx.getValueOut = some (tx.vout.map CTxOut.nValue).sum
  inputs : tx.noInputs = false → env.checkInputs view nHeight tx = true
  updated : ∃ undo, updateCoins tx view (Int32.ofNat nHeight) = some (undo, view')

/-- Rounds of the loop one after the other. -/
inductive TxRun (env : ConnectEnv) (nHeight : Nat) : CoinsView → List CTransaction → CoinsView → Prop
  | nil (view : CoinsView) : TxRun env nHeight view [] view
  | cons {view view' view'' : CoinsView} {tx : CTransaction} {txs : List CTransaction}
      (step : TxStep env nHeight view tx view') (run : TxRun env nHeight view' txs view'') :
      TxRun env nHeight view (tx :: txs) view''

theorem TxStep.valuesIn_cons {nHeight : Nat} {view view' : CoinsView} {tx : CTransaction}
    (h : TxStep env nHeight view tx view') (txs : List CTransaction) :
    env.valuesIn nHeight (tx :: txs) view = env.txValueIn view tx + env.valuesIn nHeight txs view' := by
  obtain ⟨undo, hu⟩ := h.updated
  rw [valuesIn, hu]

theorem TxStep.txFees_cons {nHeight : Nat} {view view' : CoinsView} {tx : CTransaction}
    (h : TxStep env nHeight view tx view') (txs : List CTransaction) :
    txFees (Int32.ofNat nHeight) (tx :: txs) view = txFee view tx + txFees (Int32.ofNat nHeight) txs view' := by
  obtain ⟨undo, hu⟩ := h.updated
  rw [txFees, hu]

theorem countInputs_spec {nHeight : Nat} {view : CoinsView} {tx : CTransaction} {a b c : Int} {t' : Totals}
    (h : env.countInputs nHeight view tx ⟨int64 a, int64 b, int64 c⟩ = some t') :
    (tx.noInputs = false → env.checkInputs view nHeight tx = true) ∧
      t' = ⟨int64 (a + txFee view tx), int64 (b + env.txValueIn view tx), int64 c⟩ := by
  unfold countInputs at h
  unfold txFee txValueIn CTransaction.noInputs
  cases hz : tx.hasZerocoinSpendInputs with
  | true =>
    rw [hz, if_pos rfl] at h
    cases h
    simp [foldl_addInt64]
  | false =>
    rw [hz, if_neg (by simp)] at h
    cases hb : tx.isCoinBase with
    | true =>
      rw [hb, if_pos rfl] at h
      cases h
      simp
    | false =>
      rw [hb, if_neg (by simp)] at h
      split at h
      · cases h
      · rename_i v hv
        split at h
        · rename_i hin
          cases h
          have hsum := sum_of_foldlM_addValueOut hv
          rw [zero_add] at hsum
          refine ⟨fun _ => hin, ?_⟩
          cases hs : tx.isCoinStake with
          | true => simp
          | false =>
            have hfee : addInt64 (int64 a) (int64 (view.getValueIn tx) - v) =
                int64 (a + (view.getValueIn tx - (tx.vout.map CTxOut.nValue).sum)) := by
              rw [addInt64_int64_left, ← hsum]
              unfold int64
              rw [← Int.add_bmod_bmod, Int.bmod_sub_bmod, Int.add_bmod_bmod]
            simp [hfee]
        · cases h

theorem connectTx_spec {nHeight : Nat} {view view' : CoinsView} {tx : CTransaction} {a b c : Int} {t' : Totals}
    (h : env.connectTx nHeight view ⟨int64 a, int64 b, int64 c⟩ tx = some (t', view')) :
    TxStep env nHeight view tx view' ∧ (tx.containsZerocoins = true → env.isInitialBlockDownload = true) ∧
      t' = ⟨int64 (a + txFee view tx), int64 (b + env.txValueIn view tx),
        int64 (c + (tx.vout.map CTxOut.nValue).sum)⟩ := by
  unfold connectTx at h
  split at h
  · cases h
  · rename_i hp
    split at h
    · cases h
    · rename_i hz
      split at h
      · cases h
      · split at h
        · cases h
        · rename_i t₁ hc
          obtain ⟨hin, rfl⟩ := countInputs_spec hc
          split at h
          · cases h
          · rename_i v hv
            split at h
            · cases h
            · rename_i undo view₁ hu
              cases h
              have hsum := sum_of_foldlM_addValueOut hv
              rw [zero_add] at hsum
              subst hsum
              refine ⟨⟨by simpa using hp, hv, hin, undo, hu⟩, fun hzc => ?_, by simp⟩
              by_contra hibd
              exact hz (by simp [hzc, hibd])

theorem connectTxs_spec {nHeight : Nat} : ∀ {txs : List CTransaction} {view view' : CoinsView} {a b c : Int}
    {t' : Totals}, env.connectTxs nHeight txs view ⟨int64 a, int64 b, int64 c⟩ = some (t', view') →
    TxRun env nHeight view txs view' ∧
      t' = ⟨int64 (a + txFees (Int32.ofNat nHeight) txs view), int64 (b + env.valuesIn nHeight txs view),
        int64 (c + valuesOut txs)⟩
  | [], view, view', a, b, c, t', h => by
    cases h
    exact ⟨.nil view, by simp [txFees, valuesIn, valuesOut]⟩
  | tx :: txs, view, view', a, b, c, t', h => by
    unfold connectTxs at h
    split at h
    · cases h
    · rename_i t₁ view₁ htx
      obtain ⟨hstep, -, rfl⟩ := connectTx_spec htx
      obtain ⟨hrun, rfl⟩ := connectTxs_spec h
      refine ⟨.cons hstep hrun, ?_⟩
      rw [hstep.valuesIn_cons, hstep.txFees_cons]
      simp only [valuesOut, List.map_cons, List.sum_cons, add_assoc]

end ConnectEnv

end DigiWage
