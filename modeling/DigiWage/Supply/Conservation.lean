import DigiWage.Supply.Connect
import DigiWage.Chain.Difficulty
import Mathlib.Tactic.Ring

/-!
# Value conservation

For a block without zerocoin transactions that `CheckBlock` and `ConnectBlock` accept, the value of the view changes by
the change of the money supply less the unspendable outputs, and that change is bounded by the block value. This holds
of integers; `ConnectBlock` adds up 64-bit amounts over the block without checking the sums.

* `TxStep.value` and `TxRun.value`: what one transaction, and a run of them, does to the value of the view.
-/

namespace DigiWage

open Lib ChainState

theorem getBlockValue_nonneg (nHeight : Int) : 0 ≤ getBlockValue nHeight := by
  unfold getBlockValue
  repeat' split
  all_goals decide

namespace ConnectEnv

variable {env : ConnectEnv}

/-! ## Ranges -/

theorem checkInputValues_spec (hmax : env.nMaxMoneyOut ≤ 2 ^ 61) {view : CoinsView} {nSpendHeight : Int} :
    ∀ {vin : List CTxIn} {acc r : Int}, env.checkInputValues view nSpendHeight acc vin = some r →
    0 ≤ acc → acc ≤ 2 ^ 61 →
    r = acc + (vin.map fun txin => ((view.coins txin.prevout.hash).out txin.prevout.n).nValue).sum ∧
      0 ≤ r ∧ r ≤ 2 ^ 61
  | [], acc, r, h, h0, h1 => by
    cases h
    exact ⟨by simp, h0, h1⟩
  | txin :: vin, acc, r, h, h0, h1 => by
    unfold checkInputValues at h
    dsimp only at h
    split at h
    · cases h
    · split at h
      · cases h
      · rename_i hr
        rw [Bool.or_eq_true, not_or, Bool.not_eq_true', Bool.not_eq_false, Bool.not_eq_true', Bool.not_eq_false,
          CheckEnv.moneyRange_iff, CheckEnv.moneyRange_iff] at hr
        obtain ⟨⟨hv0, hv1⟩, hs0, hs1⟩ := hr
        have hsum : addInt64 acc ((view.coins txin.prevout.hash).out txin.prevout.n).nValue =
            acc + ((view.coins txin.prevout.hash).out txin.prevout.n).nValue := by
          refine int64_of_inInt64 ⟨?_, ?_⟩
          · omega
          · unfold int64Max
            omega
        rw [hsum] at h hs0 hs1
        obtain ⟨ih, ih0, ih1⟩ := checkInputValues_spec hmax h hs0 (by omega)
        refine ⟨?_, ih0, ih1⟩
        rw [ih, List.map_cons, List.sum_cons, add_assoc]

/-- What a round of the loop has found out about the amounts. -/
structure Ranges (view : CoinsView) (tx : CTransaction) (valueIn : Int) : Prop where
  in_nonneg : 0 ≤ valueIn
  fee_nonneg : 0 ≤ txFee view tx
  fee_le : txFee view tx ≤ valueIn
  out_nonneg : 0 ≤ (tx.vout.map CTxOut.nValue).sum

theorem TxStep.inputs_spec {nHeight : Nat} {view view' : CoinsView} {tx : CTransaction}
    (h : TxStep env nHeight view tx view') (hmax : env.nMaxMoneyOut ≤ 2 ^ 61) (hin : tx.noInputs = false) :
    view.haveInputs tx = true ∧ 0 ≤ view.getValueIn tx ∧
      (tx.isCoinStake = false → (tx.vout.map CTxOut.nValue).sum ≤ view.getValueIn tx) := by
  have hc := h.inputs hin
  rw [checkInputs, Bool.and_eq_true] at hc
  obtain ⟨hhave, hc⟩ := hc
  split at hc
  · cases hc
  · rename_i r hr
    obtain ⟨hval, h0, -⟩ := checkInputValues_spec hmax hr (le_refl 0) (by decide)
    rw [zero_add] at hval
    have hval : r = view.getValueIn tx := hval
    refine ⟨hhave, hval ▸ h0, fun hs => ?_⟩
    rw [hs, Bool.false_or, h.valueOut] at hc
    simp only [Bool.and_eq_true, decide_eq_true_eq] at hc
    exact hc.1.trans hval.le

theorem TxStep.ranges {nHeight : Nat} {view view' : CoinsView} {tx : CTransaction}
    (h : TxStep env nHeight view tx view') (hmax : env.nMaxMoneyOut ≤ 2 ^ 61) (hs : env.Sound tx)
    (hz : tx.hasZerocoinSpendInputs = false) : Ranges view tx (env.txValueIn view tx) := by
  have hout : 0 ≤ (tx.vout.map CTxOut.nValue).sum :=
    List.sum_nonneg fun x hx => by
      obtain ⟨o, ho, rfl⟩ := List.mem_map.mp hx
      exact (hs.value o ho).1
  have hnone : tx.noInputs = tx.isCoinBase := by rw [CTransaction.noInputs, hz, Bool.or_false]
  unfold txValueIn
  rw [hz, if_neg (by simp)]
  cases hb : tx.isCoinBase with
  | true => exact ⟨by simp, by simp [txFee, hnone, hb], by simp [txFee, hnone, hb], hout⟩
  | false =>
    obtain ⟨-, h0, hfee⟩ := h.inputs_spec hmax (by rw [hnone, hb])
    cases hst : tx.isCoinStake with
    | true => exact ⟨by simpa using h0, by simp [txFee, hst], by simpa [txFee, hst] using h0, hout⟩
    | false =>
      have := hfee hst
      refine ⟨by simpa using h0, ?_, ?_, hout⟩
      · simp only [txFee, hnone, hb, hst, Bool.or_self, Bool.false_eq_true, if_false]
        omega
      · simp only [txFee, hnone, hb, hst, Bool.or_self, Bool.false_eq_true, if_false]
        omega

theorem TxRun.partial_le {nHeight : Nat} {view view' : CoinsView} {txs : List CTransaction}
    (h : TxRun env nHeight view txs view') (hmax : env.nMaxMoneyOut ≤ 2 ^ 61) (hs : ∀ tx ∈ txs, env.Sound tx)
    (hz : ∀ tx ∈ txs, tx.hasZerocoinSpendInputs = false) (k : Nat) :
    (0 ≤ txFees (Int32.ofNat nHeight) (txs.take k) view ∧
      txFees (Int32.ofNat nHeight) (txs.take k) view ≤ env.valuesIn nHeight txs view) ∧
    (0 ≤ env.valuesIn nHeight (txs.take k) view ∧
      env.valuesIn nHeight (txs.take k) view ≤ env.valuesIn nHeight txs view) ∧
    (0 ≤ valuesOut (txs.take k) ∧ valuesOut (txs.take k) ≤ valuesOut txs) := by
  induction h generalizing k with
  | nil view => simp [txFees, valuesIn, valuesOut]
  | @cons view view₁ view₂ tx txs step run ih =>
    have hr := step.ranges hmax (hs tx List.mem_cons_self) (hz tx List.mem_cons_self)
    have ih := ih (fun x hx => hs x (List.mem_cons_of_mem _ hx)) fun x hx => hz x (List.mem_cons_of_mem _ hx)
    rw [step.valuesIn_cons]
    cases k with
    | zero =>
      obtain ⟨⟨-, hf⟩, -, -, ho⟩ := ih 0
      have := hr.in_nonneg
      have := hr.out_nonneg
      simp only [List.take_zero, txFees, valuesIn, valuesOut, List.map_nil, List.sum_nil, List.map_cons,
        List.sum_cons] at hf ho ⊢
      omega
    | succ k =>
      obtain ⟨⟨hf0, hf1⟩, ⟨hi0, hi1⟩, ho0, ho1⟩ := ih k
      have h1 := hr.in_nonneg
      have h2 := hr.fee_nonneg
      have h3 := hr.fee_le
      have h4 := hr.out_nonneg
      rw [List.take_succ_cons, step.valuesIn_cons, step.txFees_cons]
      simp only [valuesOut, List.map_cons, List.sum_cons] at ho0 ho1 ⊢
      omega

/-! ## The value of the view -/

theorem TxStep.value {nHeight : Nat} {view view' : CoinsView} {tx : CTransaction}
    (h : TxStep env nHeight view tx view') (hmax : env.nMaxMoneyOut ≤ 2 ^ 61) (hs : env.Sound tx)
    (hz : tx.hasZerocoinSpendInputs = false) :
    view'.value = view.value - env.txValueIn view tx + (tx.vout.map CTxOut.nValue).sum - tx.unspendableValue := by
  obtain ⟨undo, hu⟩ := h.updated
  have hspends : tx.spends = if tx.isCoinBase then [] else tx.vin.map CTxIn.prevout := by
    rw [CTransaction.spends, hz, Bool.or_false]
  have hall : tx.vin.filter (fun txin => !txin.isZerocoinSpend) = tx.vin := by
    rw [List.filter_eq_self]
    intro txin htxin
    rw [CTransaction.hasZerocoinSpendInputs, List.any_eq_false] at hz
    simpa using hz txin htxin
  have hnd : tx.spends.Nodup := by
    rw [hspends]
    split
    · exact List.nodup_nil
    · exact hall ▸ hs.distinct
  have hsum : (tx.spends.map view.worthAt).sum = env.txValueIn view tx := by
    unfold txValueIn
    rw [hz, if_neg (by simp), hspends]
    cases hb : tx.isCoinBase with
    | true => simp
    | false =>
      rw [if_neg (by simp), if_neg (by simp), List.map_map]
      have hin : tx.noInputs = false := by rw [CTransaction.noInputs, hz, hb]; rfl
      have hhave := (h.inputs_spec hmax hin).1
      rw [CoinsView.haveInputs, hb, Bool.false_or, List.all_eq_true] at hhave
      refine congrArg List.sum (List.map_congr_left fun txin htxin => ?_)
      exact CTxOut.worth_of_not_isNull (CCoins.isAvailable_iff.mp (hhave txin htxin)).1
  rw [CoinsView.value_updateCoins hu h.pruned hnd fun o ho => (hs.value o ho).1, hsum]

theorem TxRun.value {nHeight : Nat} {view view' : CoinsView} {txs : List CTransaction}
    (h : TxRun env nHeight view txs view') (hmax : env.nMaxMoneyOut ≤ 2 ^ 61) (hs : ∀ tx ∈ txs, env.Sound tx)
    (hz : ∀ tx ∈ txs, tx.hasZerocoinSpendInputs = false) :
    view'.value = view.value - env.valuesIn nHeight txs view + valuesOut txs - unspendable txs := by
  induction h with
  | nil view => simp [valuesIn, valuesOut, unspendable]
  | @cons view view₁ view₂ tx txs step run ih =>
    have ih := ih (fun x hx => hs x (List.mem_cons_of_mem _ hx)) fun x hx => hz x (List.mem_cons_of_mem _ hx)
    rw [ih, step.value hmax (hs tx List.mem_cons_self) (hz tx List.mem_cons_self), step.valuesIn_cons]
    simp only [valuesOut, unspendable, List.map_cons, List.sum_cons]
    omega

/-! ## Blocks -/

/-- The budget and superblock rules make no allowance for the block. -/
def NoAllowance (env : ConnectEnv) (s : ChainState) (block : CBlock) : Prop :=
  s.tip ≠ none ∧ (env.isSynced = false → 100 ≤ s.nextHeight block.hashPrevBlock % env.nBudgetCycleBlocks) ∧
    (env.isSynced = true → env.superblocks = true →
      env.budget.isBudgetPaymentBlock (s.nextHeight block.hashPrevBlock) = false)

theorem nMint_le_of_noAllowance {s : ChainState} {block : CBlock} {nExpectedValue nMinted : Int}
    (ha : env.NoAllowance s block) (h : env.isBlockValueValid s block nExpectedValue nMinted = true) :
    nMinted ≤ nExpectedValue := by
  obtain ⟨htip, hunsynced, hsynced⟩ := ha
  unfold isBlockValueValid at h
  dsimp only at h
  rw [if_neg htip] at h
  cases hs : env.isSynced with
  | false =>
    have := hunsynced hs
    rw [hs] at h
    simp only [Bool.not_false, if_true, Bool.or_eq_true, decide_eq_true_eq] at h
    omega
  | true =>
    rw [hs] at h
    simp only [Bool.not_true, Bool.false_eq_true, if_false] at h
    cases hsb : env.superblocks with
    | false =>
      rw [hsb] at h
      simpa using h
    | true =>
      rw [hsb, hsynced hs hsb] at h
      simpa using h

theorem supply_int64 (prev vout vin : Int) :
    addInt64 (addInt64 prev (int64 vout)) (-int64 vin) = int64 (prev + vout - vin) := by
  rw [addInt64_int64_right, addInt64_int64_left, ← sub_eq_add_neg]
  exact Int.sub_bmod_bmod

theorem connectBlock_spec {s : ChainState} {view : CoinsView} {prevHeight : Nat} {prev : Int} {block : CBlock}
    {r : Connected} (h : env.connectBlock s view prevHeight prev block = some r) :
    (∃ view', TxRun env (prevHeight + 1) view block.vtx view' ∧ r.view = { view' with hashBlock := block.hash }) ∧
    r.totals = ⟨int64 (txFees (Int32.ofNat (prevHeight + 1)) block.vtx view),
      int64 (env.valuesIn (prevHeight + 1) block.vtx view), int64 (valuesOut block.vtx)⟩ ∧
    r.nMoneySupply = int64 (prev + valuesOut block.vtx - env.valuesIn (prevHeight + 1) block.vtx view) ∧
    r.nMint = addInt64 (r.nMoneySupply - prev) r.totals.nFees ∧
    env.isBlockValueValid s block (nExpectedMint block prevHeight r.totals.nFees) r.nMint = true := by
  unfold connectBlock at h
  dsimp only at h
  split at h
  · cases h
  · split at h
    · cases h
    · split at h
      · cases h
      · split at h
        · cases h
        · rename_i t view' htxs
          have h0 : (⟨0, 0, 0⟩ : Totals) = ⟨int64 0, int64 0, int64 0⟩ := rfl
          rw [h0] at htxs
          obtain ⟨hrun, rfl⟩ := connectTxs_spec htxs
          split at h
          · cases h
          · rename_i hvalid
            split at h
            · cases h
            · cases h
              simp only [zero_add] at hvalid ⊢
              exact ⟨⟨view', hrun, rfl⟩, trivial, supply_int64 _ _ _, trivial, by simpa using hvalid⟩

/-- The block conserves value: the view changes by the change of the money supply less what nobody can spend, that change
is at most the block value (less the fees when they are destroyed) unless there is an allowance, and none of the sums
overflows on the way. -/
structure Conserves (env : ConnectEnv) (s : ChainState) (view : CoinsView) (prevHeight : Nat) (prev : Int)
    (block : CBlock) (r : Connected) : Prop where
  value : r.view.value = view.value + (r.nMoneySupply - prev) - unspendable block.vtx
  bound : env.NoAllowance s block → r.nMoneySupply - prev ≤ getBlockValue prevHeight -
    if block.isProofOfWork then 0 else txFees (Int32.ofNat (prevHeight + 1)) block.vtx view
  noOverflow : ∀ k, InInt64 (txFees (Int32.ofNat (prevHeight + 1)) (block.vtx.take k) view) ∧
    InInt64 (env.valuesIn (prevHeight + 1) (block.vtx.take k) view) ∧ InInt64 (valuesOut (block.vtx.take k))

/-- What goes in, what goes out and the new money supply are 64-bit integers. -/
structure Fits (env : ConnectEnv) (view : CoinsView) (prevHeight : Nat) (prev : Int) (block : CBlock) : Prop where
  valueIn : env.valuesIn (prevHeight + 1) block.vtx view ≤ int64Max
  valueOut : valuesOut block.vtx ≤ int64Max
  supply : InInt64 (prev + valuesOut block.vtx - env.valuesIn (prevHeight + 1) block.vtx view)

theorem int64_le {x : Int} (h : -2 ^ 63 ≤ x) : int64 x ≤ x := by
  by_cases hx : x ≤ int64Max
  · rw [int64_of_inInt64 ⟨h, hx⟩]
  · have := (inInt64_int64 x).2
    omega

theorem bound_of_fits {s : ChainState} {view : CoinsView} {prevHeight : Nat} {prev : Int} {block : CBlock} {r : Connected}
    (hfees : 0 ≤ txFees (Int32.ofNat (prevHeight + 1)) block.vtx view ∧
      txFees (Int32.ofNat (prevHeight + 1)) block.vtx view ≤ env.valuesIn (prevHeight + 1) block.vtx view)
    (hout : 0 ≤ valuesOut block.vtx) (hfit : env.Fits view prevHeight prev block)
    (h : env.connectBlock s view prevHeight prev block = some r) (ha : env.NoAllowance s block) :
    r.nMoneySupply - prev ≤ getBlockValue prevHeight -
      if block.isProofOfWork then 0 else txFees (Int32.ofNat (prevHeight + 1)) block.vtx view := by
  obtain ⟨-, htot, hsupply, hmint, hvalid⟩ := connectBlock_spec h
  obtain ⟨hin, ho, hs⟩ := hfit
  rw [int64_of_inInt64 hs] at hsupply
  generalize txFees (Int32.ofNat (prevHeight + 1)) block.vtx view = fees at hfees htot ⊢
  generalize env.valuesIn (prevHeight + 1) block.vtx view = vin at *
  generalize valuesOut block.vtx = vout at *
  have hM : int64Max = 2 ^ 63 - 1 := rfl
  have hf : int64 fees = fees := int64_of_inInt64 ⟨by omega, by omega⟩
  have hle := nMint_le_of_noAllowance ha hvalid
  have hmint' : r.nMint = r.nMoneySupply - prev + fees := by
    rw [hmint, htot]
    dsimp only
    rw [hf]
    exact int64_of_inInt64 ⟨by omega, by omega⟩
  rw [hmint', htot] at hle
  dsimp only at hle
  rw [hf] at hle
  unfold nExpectedMint at hle
  split at hle
  · rename_i hw
    have := int64_le (x := getBlockValue prevHeight + fees) (by have := getBlockValue_nonneg prevHeight; omega)
    rw [if_pos hw]
    unfold addInt64 at hle
    omega
  · rename_i hw
    rw [if_neg hw]
    omega

/-- A block without zerocoin transactions that is accepted conserves value without an overflow exactly when what goes
in, what goes out and the new money supply are 64-bit integers. -/
theorem conserves_iff {s : ChainState} {hist hist' : PaymentHistory} {view : CoinsView} {prevHeight : Nat} {prev : Int}
    {block : CBlock} {r : Connected} (hmax : env.nMaxMoneyOut ≤ 120000000 * COIN)
    (hcheck : env.checkBlock s hist block = some (.ok (), hist'))
    (hz : ∀ tx ∈ block.vtx, tx.containsZerocoins = false)
    (hconn : env.connectBlock s view prevHeight prev block = some r) :
    env.Conserves s view prevHeight prev block r ↔ env.Fits view prevHeight prev block := by
  have hmax' : env.nMaxMoneyOut ≤ 2 ^ 61 := hmax.trans (by decide)
  have hs := CheckEnv.checkBlock_sound hcheck
  have hz' : ∀ tx ∈ block.vtx, tx.hasZerocoinSpendInputs = false := fun tx htx => by
    have := hz tx htx
    rw [CTransaction.containsZerocoins, Bool.or_eq_false_iff] at this
    exact this.1
  obtain ⟨⟨view', hrun, hview⟩, -, hsupply, -⟩ := connectBlock_spec hconn
  have hvalue := hrun.value hmax' hs hz'
  have hview' : r.view.value = view'.value := by rw [hview]; rfl
  have hall := hrun.partial_le hmax' hs hz' block.vtx.length
  rw [List.take_length] at hall
  have hM : int64Max = 2 ^ 63 - 1 := rfl
  constructor
  · intro hc
    have ho := hc.noOverflow block.vtx.length
    rw [List.take_length] at ho
    refine ⟨ho.2.1.2, ho.2.2.2, ?_⟩
    have heq : r.nMoneySupply = prev + valuesOut block.vtx - env.valuesIn (prevHeight + 1) block.vtx view := by
      have := hc.value
      omega
    rw [← heq, hsupply]
    exact inInt64_int64 _
  · intro hfit
    refine ⟨?_, bound_of_fits hall.1 hall.2.2.1 hfit hconn, fun k => ?_⟩
    · rw [hview', hvalue, hsupply, int64_of_inInt64 hfit.supply]
      omega
    · obtain ⟨⟨h1, h2⟩, ⟨h3, h4⟩, h5, h6⟩ := hrun.partial_le hmax' hs hz' k
      have := hfit.valueIn
      have := hfit.valueOut
      exact ⟨⟨by omega, by omega⟩, ⟨by omega, by omega⟩, by omega, by omega⟩

end ConnectEnv

/-! ## A coin that moves many times in a block -/

/-- A node on the regression test network, without masternodes and budgets. -/
def regTestEnv : ConnectEnv where
  params := regTestParams 0
  noReturn _ := true
  nMaxMoneyOut := 43199500 * COIN
  zcTimeStart := 0
  blockMerkleRoot _ := (0, false)
  blockSize block := 100 * block.vtx.length
  txSize _ := 100
  legacySigOps _ := 0
  isInitialBlockDownload := false
  isSynced := true
  swiftTxFiltering := false
  mapLockedInputs _ := none
  coldStaking := false
  superblocks := false
  budgetEnforcement := false
  getTransaction _ := none
  payments := ⟨false, 0, 0, 0, none⟩
  masternodePayments := .empty
  budget := ⟨[], 0⟩
  hashGenesisBlock := 0
  nCoinbaseMaturity := 100
  nBudgetCycleBlocks := 144
  denomination _ := 0
  txChecks _ _ := true
  blockChecks _ := true

/-- A chain of the genesis block and one more. -/
def twoBlockChain : ChainState :=
  { ((ChainState.init.addToBlockIndex 0 ⟨0, 7, 0, 0, 0, 0x1e0ffff0, 0⟩).2.addToBlockIndex 1
      ⟨1, 7, 0, 0, 1, 0x1e0ffff0, 0⟩).2 with chainActive := ⟨[some 0, some 1]⟩ }

/-- All the money there may be, in one output. -/
def allMoney : CTxOut := ⟨43199500 * COIN, ([0x51] : List UInt8), -10⟩

def moveHash (i : Nat) : Uint256 := BitVec.ofNat 256 (i + 2)

/-- The transaction that moves the coin for the `i`-th time. -/
def moveTx (i : Nat) : CTransaction := ⟨moveHash (i + 1), 1, [⟨⟨moveHash i, 0⟩, ([] : List UInt8), 0⟩], [allMoney], 0⟩

/-- A coinbase that takes nothing. -/
def idleCoinBase : CTransaction :=
  ⟨1, 1, [⟨⟨0, 2 ^ 32 - 1⟩, ([0x51, 0x51] : List UInt8), 0⟩], [⟨0, ([0x51] : List UInt8), -10⟩], 0⟩

/-- A block that moves the coin `n` times. -/
def moveBlock (n : Nat) : CBlock :=
  ⟨⟨2, 7, 1, 0, 2, 0x1e0ffff0, 0⟩, idleCoinBase :: (List.range' 0 n).map moveTx⟩

/-- The view with that coin alone. -/
def moveView : CoinsView where
  coins h := if h = moveHash 0 then ⟨false, false, [allMoney], 1, 1⟩ else .empty
  hashBlock := 1

theorem moveHash_ne {i j : Nat} (hi : i < 4000) (hj : j < 4000) (hne : i ≠ j) : moveHash i ≠ moveHash j := by
  intro h
  have h' := congrArg BitVec.toNat h
  simp only [moveHash, BitVec.toNat_ofNat] at h'
  omega

theorem moveTx_flags (k : Nat) : (moveTx k).hasZerocoinSpendInputs = false ∧ (moveTx k).containsZerocoins = false ∧
    (moveTx k).isCoinBase = false ∧ (moveTx k).isCoinStake = false := by
  have hz : (moveTx k).hasZerocoinSpendInputs = false := by
    simp [moveTx, CTransaction.hasZerocoinSpendInputs, CTxIn.isZerocoinSpend, CScript.isZerocoinSpend,
      CScript.startsWithOpcode, CScript.bytes]
  have hm : (moveTx k).hasZerocoinMintOutputs = false := rfl
  refine ⟨hz, by rw [CTransaction.containsZerocoins, hz, hm]; rfl, ?_, ?_⟩
  · simp [moveTx, CTransaction.isCoinBase, COutPoint.isNull]
  · simp [moveTx, CTransaction.isCoinStake]

theorem countInputs_moveTx {k : Nat} {view : CoinsView} {nh : Int32} {a b c : Int}
    (hc : view.coins (moveHash k) = ⟨false, false, [allMoney], nh, 1⟩) :
    regTestEnv.countInputs 2 view (moveTx k) ⟨int64 a, int64 b, int64 c⟩ =
      some ⟨int64 a, int64 (b + allMoney.nValue), int64 c⟩ := by
  obtain ⟨hz, -, hb, hs⟩ := moveTx_flags k
  have hout : (moveTx k).getValueOut = some allMoney.nValue := rfl
  have hval : view.getValueIn (moveTx k) = allMoney.nValue := by
    simp [CoinsView.getValueIn, moveTx, hc, CCoins.out]
  have hin : regTestEnv.checkInputs view (2 : Nat) (moveTx k) = true := by
    have hhave : view.haveInputs (moveTx k) = true := by
      rw [CoinsView.haveInputs, hb]
      simp only [moveTx, List.all_cons, List.all_nil, hc]
      rfl
    have hsum : regTestEnv.checkInputValues view (2 : Nat) 0 (moveTx k).vin = some allMoney.nValue := by
      have hout : ∀ nh, (⟨false, false, [allMoney], nh, 1⟩ : CCoins).out 0 = allMoney := fun _ => rfl
      simp only [moveTx, ConnectEnv.checkInputValues, hc, hout, Bool.or_self, Bool.false_and, Bool.false_eq_true, if_false]
      decide
    rw [ConnectEnv.checkInputs, hhave, hsum, hs, hout]
    decide
  unfold ConnectEnv.countInputs
  rw [hz, if_neg (by simp), hb, if_neg (by simp), hout]
  dsimp only
  rw [if_pos hin, hs, hval]
  have h0 : int64 allMoney.nValue - allMoney.nValue = 0 := by decide
  simp [h0]

theorem connectTx_moveTx {k : Nat} {view : CoinsView} {nh : Int32} {a b c : Int}
    (hc : view.coins (moveHash k) = ⟨false, false, [allMoney], nh, 1⟩)
    (hfree : (view.coins (moveHash (k + 1))).isPruned = true) (hk : k + 1 < 4000) :
    ∃ view', regTestEnv.connectTx 2 view ⟨int64 a, int64 b, int64 c⟩ (moveTx k) =
        some (⟨int64 a, int64 (b + allMoney.nValue), int64 (c + allMoney.nValue)⟩, view') ∧
      view'.coins (moveHash (k + 1)) = ⟨false, false, [allMoney], 2, 1⟩ ∧
      ∀ j, k + 1 < j → j < 4000 → view'.coins (moveHash j) = view.coins (moveHash j) := by
  obtain ⟨hz, hcz, hb, hs⟩ := moveTx_flags k
  have hspends : (moveTx k).spends = [⟨moveHash k, 0⟩] := by rw [CTransaction.spends, hz, hb]; rfl
  have hn : ((view.coins (moveHash k)).out 0).isNull = false := by rw [hc]; rfl
  have hupd : updateCoins (moveTx k) view (Int32.ofNat 2) = some ([(view.coins (moveHash k)).undoOf 0],
      (view.modifyCoins (moveHash k) fun c => c.spent 0).modifyCoins (moveHash (k + 1)) fun _ =>
        CCoins.fromTx (moveTx k) (Int32.ofNat 2)) := by
    rw [updateCoins, hspends]
    simp only [CoinsView.spendInputs, CoinsView.spendInput_of_out (o := ⟨moveHash k, 0⟩) hn]
    rfl
  refine ⟨(view.modifyCoins (moveHash k) fun c => c.spent 0).modifyCoins (moveHash (k + 1)) fun _ =>
    CCoins.fromTx (moveTx k) (Int32.ofNat 2), ?_, ?_, fun j hj hj' => ?_⟩
  · have hfree' : ((view.coins (moveTx k).hash).isPruned) = true := hfree
    have hchecks : regTestEnv.txChecks view (moveTx k) = true := rfl
    have hout : (moveTx k).getValueOut = some allMoney.nValue := rfl
    unfold ConnectEnv.connectTx
    rw [hfree', hcz, hchecks, countInputs_moveTx hc]
    simp only [Bool.not_true, Bool.and_false, Bool.false_eq_true, if_false]
    rw [hout, hupd]
    simp only [addInt64_int64_left]
  · rw [CoinsView.modifyCoins_self]
    have hfrom : CCoins.fromTx (moveTx k) (Int32.ofNat 2) = ⟨false, false, [allMoney], 2, 1⟩ := by
      rw [CCoins.fromTx, hb, hs]
      rfl
    rw [hfrom]
    rfl
  · rw [CoinsView.modifyCoins_of_ne _ _ (moveHash_ne hj' hk (by omega)),
      CoinsView.modifyCoins_of_ne _ _ (moveHash_ne hj' (by omega) (by omega))]

theorem connectTxs_moves : ∀ {n k : Nat} {view : CoinsView} {nh : Int32} {a b c : Int},
    view.coins (moveHash k) = ⟨false, false, [allMoney], nh, 1⟩ →
    (∀ j, k < j → j < 4000 → (view.coins (moveHash j)).isPruned = true) → k + n < 4000 →
    ∃ view', regTestEnv.connectTxs 2 ((List.range' k n).map moveTx) view ⟨int64 a, int64 b, int64 c⟩ =
      some (⟨int64 a, int64 (b + n * allMoney.nValue), int64 (c + n * allMoney.nValue)⟩, view')
  | 0, k, view, nh, a, b, c, _, _, _ => ⟨view, by simp [ConnectEnv.connectTxs]⟩
  | n + 1, k, view, nh, a, b, c, hc, hfree, hk => by
    obtain ⟨view₁, h₁, hc₁, hrest⟩ := connectTx_moveTx (a := a) (b := b) (c := c) hc
      (hfree (k + 1) (by omega) (by omega)) (by omega)
    obtain ⟨view₂, h₂⟩ := connectTxs_moves (n := n) (k := k + 1) (a := a) (b := b + allMoney.nValue)
      (c := c + allMoney.nValue) hc₁
      (fun j hj hj' => by rw [hrest j hj hj']; exact hfree j (by omega) hj') (by omega)
    refine ⟨view₂, ?_⟩
    rw [List.range'_succ, List.map_cons, ConnectEnv.connectTxs, h₁]
    dsimp only
    rw [h₂]
    have hx : ∀ x : Int, x + allMoney.nValue + n * allMoney.nValue = x + (n + 1 : Nat) * allMoney.nValue := by
      intro x
      push_cast
      ring
    rw [hx, hx]

theorem connectTxs_moveBlock {n : Nat} (hn : n < 4000) : ∃ view',
    regTestEnv.connectTxs 2 (moveBlock n).vtx moveView ⟨0, 0, 0⟩ =
      some (⟨int64 0, int64 (n * allMoney.nValue), int64 (n * allMoney.nValue)⟩, view') := by
  have hfirst : ∃ view₁, regTestEnv.connectTx 2 moveView ⟨0, 0, 0⟩ idleCoinBase =
      some (⟨int64 0, int64 0, int64 0⟩, view₁) ∧
      ∀ j, j < 4000 → view₁.coins (moveHash j) = moveView.coins (moveHash j) := by
    refine ⟨moveView.modifyCoins 1 fun _ => CCoins.fromTx idleCoinBase (Int32.ofNat 2), rfl, fun j hj => ?_⟩
    refine CoinsView.modifyCoins_of_ne _ _ fun h => ?_
    have h' := congrArg BitVec.toNat h
    have h1 : BitVec.toNat (1 : Uint256) = 1 := rfl
    simp only [moveHash, BitVec.toNat_ofNat, h1] at h'
    omega
  obtain ⟨view₁, h₁, hsame⟩ := hfirst
  have hcoin : view₁.coins (moveHash 0) = ⟨false, false, [allMoney], 1, 1⟩ := by
    rw [hsame 0 (by omega)]
    simp [moveView]
  obtain ⟨view₂, h₂⟩ := connectTxs_moves (n := n) (a := 0) (b := 0) (c := 0) hcoin
    (fun j hj hj' => by
      have hempty : moveView.coins (moveHash j) = .empty := if_neg (moveHash_ne hj' (by omega) (by omega))
      rw [hsame j hj', hempty]
      rfl) (by omega)
  refine ⟨view₂, ?_⟩
  rw [moveBlock, ConnectEnv.connectTxs, h₁]
  dsimp only
  rw [h₂, zero_add]

theorem moveBlock_isProofOfStake (n : Nat) : (moveBlock n).isProofOfStake = false := by
  cases n with
  | zero => rfl
  | succ n => exact (moveTx_flags 0).2.2.2

theorem connectBlock_moveBlock {n : Nat} (hn : n < 4000) :
    ∃ r, regTestEnv.connectBlock twoBlockChain moveView 1 allMoney.nValue (moveBlock n) = some r := by
  obtain ⟨view', h⟩ := connectTxs_moveBlock hn
  have hpow : (moveBlock n).isProofOfWork = true := by rw [CBlock.isProofOfWork, moveBlock_isProofOfStake]; rfl
  have hsupply : addInt64 (addInt64 allMoney.nValue (int64 (n * allMoney.nValue))) (-int64 (n * allMoney.nValue)) =
      allMoney.nValue := by
    rw [ConnectEnv.supply_int64, add_sub_cancel_right]
    decide
  have hvalid : regTestEnv.isBlockValueValid twoBlockChain (moveBlock n)
      (ConnectEnv.nExpectedMint (moveBlock n) 1 (int64 0)) (addInt64 (allMoney.nValue - allMoney.nValue) (int64 0)) =
        true := by
    rw [ConnectEnv.nExpectedMint, hpow, sub_self]
    have htip : twoBlockChain.tip ≠ none := by decide
    have hsync : regTestEnv.isSynced = true := rfl
    have hsb : regTestEnv.superblocks = false := rfl
    simp only [ConnectEnv.isBlockValueValid, if_neg htip, hsync, hsb, Bool.not_true, Bool.not_false, Bool.false_eq_true,
      if_false, if_true]
    decide
  unfold ConnectEnv.connectBlock
  dsimp only
  rw [if_neg (by simp [moveView, moveBlock]), moveBlock_isProofOfStake, hpow, if_neg (by simp), if_neg (by decide), h]
  simp only [hsupply, hvalid]
  exact ⟨_, rfl⟩

theorem checkTransactions_moves : ∀ l : List Nat,
    regTestEnv.checkTransactions true false (l.map moveTx) = .ok ()
  | [] => rfl
  | k :: l => by
    have h : regTestEnv.checkTransaction true false (moveTx k) = .ok () := by
      obtain ⟨-, -, hb, hs⟩ := moveTx_flags k
      have houts : regTestEnv.checkOuts false true 0 (moveTx k).vout = .ok () := rfl
      have hdup : CheckEnv.checkDuplicates [] (moveTx k).vin = .ok () := rfl
      have hprev : CheckEnv.checkPrevouts true (moveTx k) = .ok () := by
        rw [CheckEnv.checkPrevouts, hb]
        simp [moveTx, COutPoint.isNull]
        rfl
      unfold CheckEnv.checkTransaction
      rw [hb, hs, if_neg (by simp [moveTx]), if_neg (by simp [moveTx]), if_neg (by simp [regTestEnv, maxZerocoinTxSize])]
      simp only [Bool.not_false, Bool.and_self, houts, hdup, hprev]
    rw [List.map_cons, CheckEnv.checkTransactions, h]
    exact checkTransactions_moves l

theorem checkBlock_moveBlock {n : Nat} (hn : n < 4000) (hist : PaymentHistory) :
    regTestEnv.checkBlock twoBlockChain hist (moveBlock n) = some (.ok (), hist) := by
  have hpos := moveBlock_isProofOfStake n
  have hheader : regTestEnv.checkHeader (moveBlock n).toCBlockHeader (!(moveBlock n).isProofOfStake) = .ok () := by
    rw [hpos]
    change regTestEnv.checkHeader ⟨2, 7, 1, 0, 2, 0x1e0ffff0, 0⟩ true = .ok ()
    decide
  have hshape : regTestEnv.checkShape (moveBlock n) = .ok () := by
    have hlen : (moveBlock n).vtx.length = n + 1 := by simp [moveBlock]
    have hsmall : (decide (maxBlockSize < (moveBlock n).vtx.length) ||
        decide (maxBlockSize < regTestEnv.blockSize (moveBlock n))) = false := by
      have hsize : regTestEnv.blockSize (moveBlock n) = 100 * (moveBlock n).vtx.length := rfl
      rw [Bool.or_eq_false_iff, decide_eq_false_iff_not, decide_eq_false_iff_not, hsize, hlen, maxBlockSize]
      omega
    have hroot : regTestEnv.blockMerkleRoot (moveBlock n).vtx = (0, false) := rfl
    have hhash : (moveBlock n).hashMerkleRoot = 0 := rfl
    have hne : (moveBlock n).vtx.isEmpty = false := rfl
    have hhead : (moveBlock n).vtx.head?.any CTransaction.isCoinBase = true := rfl
    have htail : (moveBlock n).vtx.tail.any CTransaction.isCoinBase = false := by
      rw [List.any_eq_false]
      intro tx htx
      obtain ⟨k, -, rfl⟩ := List.mem_map.mp htx
      simp [(moveTx_flags k).2.2.1]
    have hlock : regTestEnv.swiftTxFiltering = false := rfl
    unfold CheckEnv.checkShape
    rw [hroot, hhash, hne, Bool.false_or, hsmall, hhead, htail, hpos, hlock]
    rfl
  have hpay : regTestEnv.checkPayments twoBlockChain hist (moveBlock n) = some (.ok false, hist) := by
    have hfree : regTestEnv.checkFreeOutput (moveBlock n) 2 = some true := by
      rw [CheckEnv.checkFreeOutput, hpos]
    have hpayee : regTestEnv.payee.isBlockPayeeValid hist (moveBlock n) (2 : Nat) = some (true, hist) := rfl
    have hnext : twoBlockChain.nextHeight (moveBlock n).hashPrevBlock = 2 := by
      change twoBlockChain.nextHeight 1 = 2
      decide
    unfold CheckEnv.checkPayments
    rw [hnext, if_neg (by decide), hfree]
    simp only [hpayee]
    rfl
  have hbody : regTestEnv.checkBody (moveBlock n) false = .ok () := by
    have hcb : regTestEnv.checkTransaction true false idleCoinBase = .ok () := rfl
    have hsum : ∀ l : List CTransaction, (l.map regTestEnv.legacySigOps).sum = 0 := by
      intro l
      induction l with
      | nil => rfl
      | cons tx l ih => simp [regTestEnv]
    have hzc : regTestEnv.fZerocoinActive (moveBlock n) = true := rfl
    unfold CheckEnv.checkBody
    rw [hzc, hsum, moveBlock, CheckEnv.checkTransactions, hcb]
    simp only [checkTransactions_moves]
    rfl
  exact (CheckEnv.checkBlock_of_checks hheader hshape hpay).trans (by rw [hbody])

theorem moveBlock_containsZerocoins (n : Nat) : ∀ tx ∈ (moveBlock n).vtx, tx.containsZerocoins = false := by
  intro tx htx
  rcases List.mem_cons.mp htx with rfl | htx
  · rfl
  · obtain ⟨k, -, rfl⟩ := List.mem_map.mp htx
    exact (moveTx_flags k).2.1

theorem valuesOut_moveBlock (n : Nat) : ConnectEnv.valuesOut (moveBlock n).vtx = n * allMoney.nValue := by
  have h : ∀ l : List Nat, ConnectEnv.valuesOut (l.map moveTx) = l.length * allMoney.nValue := by
    intro l
    induction l with
    | nil => simp [ConnectEnv.valuesOut]
    | cons k l ih =>
      have hk : ((moveTx k).vout.map CTxOut.nValue).sum = allMoney.nValue := rfl
      simp only [ConnectEnv.valuesOut, List.map_cons, List.sum_cons, hk, List.length_cons] at ih ⊢
      rw [ih]
      push_cast
      ring
  have hcb : (idleCoinBase.vout.map CTxOut.nValue).sum = 0 := rfl
  have := h (List.range' 0 n)
  rw [List.length_range'] at this
  rw [← this]
  simp only [ConnectEnv.valuesOut, moveBlock, List.map_cons, List.sum_cons, hcb, zero_add]

namespace ConnectEnv

theorem conserves_moveBlock : ∃ r,
    regTestEnv.connectBlock twoBlockChain moveView 1 allMoney.nValue (moveBlock 1) = some r ∧
      (regTestEnv.Conserves twoBlockChain moveView 1 allMoney.nValue (moveBlock 1) r ↔
        regTestEnv.Fits moveView 1 allMoney.nValue (moveBlock 1)) := by
  obtain ⟨r, hr⟩ := connectBlock_moveBlock (n := 1) (by decide)
  exact ⟨r, hr, conserves_iff (by decide) (checkBlock_moveBlock (by decide) fun _ => none)
    (moveBlock_containsZerocoins 1) hr⟩

/-- A coin with all the money that moves 2136 times in a block makes `nValueIn` and `nValueOut` overflow. -/
theorem not_conserves : ¬ ∀ (env : ConnectEnv) s hist hist' view prevHeight prev block r,
    env.nMaxMoneyOut ≤ 120000000 * COIN → env.checkBlock s hist block = some (.ok (), hist') →
    (∀ tx ∈ block.vtx, tx.containsZerocoins = false) → env.connectBlock s view prevHeight prev block = some r →
    env.Conserves s view prevHeight prev block r := by
  intro hall
  obtain ⟨r, hr⟩ := connectBlock_moveBlock (n := 2136) (by decide)
  have h := (hall _ _ _ _ _ _ _ _ _ (by decide) (checkBlock_moveBlock (by decide) fun _ => none)
    (moveBlock_containsZerocoins 2136) hr).noOverflow (moveBlock 2136).vtx.length
  have hout := h.2.2.2
  rw [List.take_length, valuesOut_moveBlock] at hout
  revert hout
  decide

end ConnectEnv

end DigiWage
