import DigiWage.Supply.Conservation

/-!
# The amount a block may mint

`IsBlockValueValid` compares the amount that a block mints with the block value, unless the block is a superblock:
"the value of the block is evaluated in CheckBlock". `CheckBlock` only looks for one output, so in a superblock nothing
bounds the amount.
-/

namespace DigiWage

open Lib ChainState

namespace ConnectEnv

/-- The amount minted is at most the block value, the fees in the proof-of-work phase, and at the height of a budget
payment the amount of a payment that some finalized budget schedules there. -/
def MintBounded (env : ConnectEnv) (prevHeight : Nat) (block : CBlock) (r : Connected) : Prop :=
  ∃ allowance : Int, (allowance = 0 ∨ env.budget.isBudgetPaymentBlock (prevHeight + 1 : Nat) = true ∧
      ∃ b ∈ env.budget.mapFinalizedBudgets, ∃ payment, b.getBudgetPaymentByBlock (prevHeight + 1 : Nat) = some payment ∧
        allowance = payment.nAmount) ∧
    r.nMint ≤ getBlockValue prevHeight + (if block.isProofOfWork then r.totals.nFees else 0) + allowance

/-- On a synced node every accepted block is bounded when superblocks are disabled or no budget is paid at its height;
otherwise the check of the amount accepts everything. -/
theorem nMint_bounded {env : ConnectEnv} {s : ChainState} {view : CoinsView} {prevHeight : Nat} {prev : Int}
    {block : CBlock} {r : Connected} (hsync : env.isSynced = true) (htip : s.tip ≠ none)
    (hheight : s.nextHeight block.hashPrevBlock = prevHeight + 1)
    (hconn : env.connectBlock s view prevHeight prev block = some r) :
    ((env.superblocks = false ∨ env.budget.isBudgetPaymentBlock (prevHeight + 1 : Nat) = false) →
      env.MintBounded prevHeight block r) ∧
    (¬ (env.superblocks = false ∨ env.budget.isBudgetPaymentBlock (prevHeight + 1 : Nat) = false) →
      ∀ nExpectedValue nMinted, env.isBlockValueValid s block nExpectedValue nMinted = true) := by
  constructor
  · intro hno
    obtain ⟨-, htot, -, -, hvalid⟩ := connectBlock_spec hconn
    have ha : env.NoAllowance s block := by
      refine ⟨htip, fun h => absurd h (by simp [hsync]), fun _ hsb => ?_⟩
      rw [hheight]
      rcases hno with h | h
      · rw [hsb] at h; cases h
      · exact h
    have hle := nMint_le_of_noAllowance ha hvalid
    refine ⟨0, .inl rfl, ?_⟩
    unfold nExpectedMint at hle
    split at hle
    · rename_i hw
      have hfees := inInt64_int64 (txFees (Int32.ofNat (prevHeight + 1)) block.vtx view)
      have hint := int64_le (x := getBlockValue prevHeight + r.totals.nFees) (by
        have := getBlockValue_nonneg prevHeight
        rw [htot]
        exact (Int.le_add_of_nonneg_left this).trans' hfees.1)
      rw [if_pos hw]
      unfold addInt64 at hle
      omega
    · rename_i hw
      rw [if_neg hw]
      omega
  · intro hsuper nExpectedValue nMinted
    rw [not_or, Bool.not_eq_false, Bool.not_eq_false] at hsuper
    unfold isBlockValueValid
    dsimp only
    rw [if_neg htip, hsync, hsuper.1, hheight, hsuper.2]
    rfl

/-- The block that moves a coin once mints no more than the block value. -/
theorem nMint_bounded_moveBlock : ∃ r,
    regTestEnv.connectBlock twoBlockChain moveView 1 allMoney.nValue (moveBlock 1) = some r ∧
      regTestEnv.MintBounded 1 (moveBlock 1) r := by
  obtain ⟨r, hr⟩ := connectBlock_moveBlock (n := 1) (by decide)
  have hheight : twoBlockChain.nextHeight (moveBlock 1).hashPrevBlock = 1 + 1 := by
    change twoBlockChain.nextHeight 1 = 2
    decide
  exact ⟨r, hr, (nMint_bounded rfl (by decide) hheight hr).1 (.inl rfl)⟩

end ConnectEnv

/-! ## A superblock that mints a million coins -/

/-- The node with superblocks, the enforcement of payments, and a budget of one payment at the height 144 that one
masternode of ten voted for. -/
def superblockNode : ConnectEnv :=
  { regTestEnv with
    superblocks := true
    budgetEnforcement := true
    payments := ⟨true, 0, 0, 0, none⟩
    budget := ⟨[{ BudgetState.oneBudget with nBlockStart := 144 }], 10⟩ }

/-- A chain of the heights up to 143. -/
def cycleChain : ChainState :=
  { runArrivals (chainSource 1) (chainArrivals 144) with chainActive := ⟨(List.range 144).map some⟩ }

/-- A coinbase that pays the budget, and a million coins to someone else. -/
def greedyCoinBase : CTransaction :=
  ⟨1, 1, [⟨⟨0, 2 ^ 32 - 1⟩, ([0x51, 0x51] : List UInt8), 0⟩],
    [paymentOut [0x51] (10 * COIN), ⟨1000000 * COIN, ([0x52] : List UInt8), -10⟩], 0⟩

def greedyBlock : CBlock := ⟨⟨2, 7, 143, 0, 2, 0x1e0ffff0, 0⟩, [greedyCoinBase]⟩

theorem straight_withActive {n : Nat} {s : ChainState} (h : Straight n s) (c : CChain) :
    Straight n { s with chainActive := c } :=
  ⟨h.map, h.hash, h.pprev, h.haveData, h.failed⟩

theorem nextHeight_of_straight {n : Nat} {s : ChainState} (h : Straight n s) {i : Nat} (hi : i < n) :
    s.nextHeight (.ofNat 256 i) = i + 1 := by
  have hheight : ∀ i < n, s.index.nHeight i = i := by
    intro i
    induction i with
    | zero => exact fun hi => s.index.rooted.root (h.mem.mpr hi) (h.pprev 0 hi)
    | succ i ih =>
      intro hi
      have hp : s.index.pprev (i + 1) = some i := h.pprev (i + 1) hi
      rw [s.index.rooted.succ (h.mem.mpr hi) hp, ih (by omega)]
  have hfind : s.index.find (.ofNat 256 i) = some i := by
    rw [← h.hash i hi]
    exact BlockIndex.find_eq (h.mem.mpr hi)
  rw [ChainState.nextHeight, hfind]
  exact congrArg (· + 1) (hheight i hi)

theorem cycleChain_nextHeight : cycleChain.nextHeight greedyBlock.hashPrevBlock = 144 := by
  have hst : Straight 144 cycleChain := straight_withActive (straight_run (k := 1) (by decide) 144 (by omega)) _
  exact nextHeight_of_straight (i := 143) hst (by decide)

theorem checkBlock_greedyBlock : ∃ hist', superblockNode.checkBlock cycleChain (fun _ => none) greedyBlock =
    some (.ok (), hist') := by
  have hheader : superblockNode.checkHeader greedyBlock.toCBlockHeader (!greedyBlock.isProofOfStake) = .ok () := by
    decide
  have hshape : superblockNode.checkShape greedyBlock = .ok () := by decide
  have hpay : ∃ hist', superblockNode.checkPayments cycleChain (fun _ => none) greedyBlock = some (.ok false, hist') := by
    have htip : cycleChain.tip ≠ none := by decide
    have hpayee : ∃ hist', superblockNode.payee.isBlockPayeeValid (fun _ => none) greedyBlock (144 : Nat) =
        some (true, hist') := by
      have hs : superblockNode.payee.superblocks = true := rfl
      have hbb : superblockNode.payee.budget.isBudgetPaymentBlock 144 = true := by decide
      have hpaid : (superblockNode.payee.budget.isTransactionValid (fun _ => none) greedyCoinBase 144).1 = .valid := by
        decide
      have hfst : (superblockNode.payee.checkPayee (fun _ => none) greedyCoinBase 144).1 = true := by
        rw [(PayeeEnv.checkPayee_fst hs hbb).1, hpaid]
        rfl
      exact ⟨_, congrArg some (Prod.ext hfst rfl)⟩
    obtain ⟨hist', hpayee⟩ := hpayee
    refine ⟨hist', ?_⟩
    unfold CheckEnv.checkPayments
    rw [cycleChain_nextHeight, if_neg (by simp [htip]; rfl)]
    have hfree : superblockNode.checkFreeOutput greedyBlock 144 = some true := rfl
    simp only [hfree, hpayee]
    rfl
  have hbody : superblockNode.checkBody greedyBlock false = .ok () := by decide
  obtain ⟨hist', hpay⟩ := hpay
  exact ⟨hist', (CheckEnv.checkBlock_of_checks hheader hshape hpay).trans (by rw [hbody])⟩

theorem connectBlock_greedyBlock : ∃ r,
    superblockNode.connectBlock cycleChain ⟨fun _ => .empty, 143⟩ 143 0 greedyBlock = some r ∧
      r.nMint = 1000010 * COIN ∧ r.totals.nFees = 0 := by
  have htxs : ∃ view', superblockNode.connectTxs 144 greedyBlock.vtx ⟨fun _ => .empty, 143⟩ ⟨0, 0, 0⟩ =
      some (⟨0, 0, 1000010 * COIN⟩, view') := ⟨_, rfl⟩
  obtain ⟨view', htxs⟩ := htxs
  have hbb : superblockNode.budget.isBudgetPaymentBlock (144 : Nat) = true := by decide
  have hvalid : ∀ nExpectedValue nMinted,
      superblockNode.isBlockValueValid cycleChain greedyBlock nExpectedValue nMinted = true := by
    intro nExpectedValue nMinted
    have htip : cycleChain.tip ≠ none := by decide
    simp only [ConnectEnv.isBlockValueValid, if_neg htip, cycleChain_nextHeight, hbb]
    rfl
  refine ⟨⟨{ view' with hashBlock := greedyBlock.hash }, ⟨0, 0, 1000010 * COIN⟩, 1000010 * COIN, 1000010 * COIN⟩, ?_, rfl, rfl⟩
  unfold ConnectEnv.connectBlock
  dsimp only
  rw [if_neg (by decide), if_neg (by decide), if_neg (by decide), htxs]
  simp only [hvalid]
  rfl

namespace ConnectEnv

/-- The block value at the height 144 is 120 coins, and the budget pays 10. -/
theorem nMint_not_bounded : ¬ ∀ (env : ConnectEnv) s hist hist' view prevHeight prev block r,
    env.isSynced = true → s.tip ≠ none → s.nextHeight block.hashPrevBlock = prevHeight + 1 →
    env.checkBlock s hist block = some (.ok (), hist') → env.connectBlock s view prevHeight prev block = some r →
    env.MintBounded prevHeight block r := by
  intro hall
  obtain ⟨hist', hcheck⟩ := checkBlock_greedyBlock
  obtain ⟨r, hr, hmint, hfees⟩ := connectBlock_greedyBlock
  obtain ⟨allowance, hallow, hle⟩ := hall superblockNode cycleChain _ _ _ _ _ _ _ rfl (by decide) cycleChain_nextHeight
    hcheck hr
  have hval : getBlockValue 143 = 120 * COIN := by decide
  have hC : COIN = 100000000 := rfl
  have hten : allowance ≤ 10 * COIN := by
    rcases hallow with rfl | ⟨-, b, hb, payment, hp, rfl⟩
    · decide
    · rw [List.mem_singleton.mp hb] at hp
      cases hp
      decide
  rw [hmint, hfees, show ((143 : Nat) : Int) = 143 from rfl, hval] at hle
  split at hle <;> omega

end ConnectEnv

end DigiWage
