import DigiWage.Chain.Accept
import DigiWage.Stake.ColdStake
import DigiWage.Masternode.Superblock

/-!
# `CheckBlock`

`CheckTransaction` of `consensus/tx_verify.cpp` and `CheckBlock` of `main.cpp`, check by check. A block that comes from a
peer has not been checked before, so `fChecked` is not set.

* `CheckEnv` holds what the checks ask of the node: parameters, sporks, transaction locks, sizes and counts of
  signature operations, the Merkle root, the database of transactions, the masternode payments and the budgets.
* A result is `none` where the code reads past the end of a vector.
* `checkTransaction_spec` and `checkBlock_sound` say what an accepted block satisfies.
-/

namespace DigiWage

open Lib ChainState

/-- What `CheckBlock` asks of the node. -/
structure CheckEnv where
  params : ConsensusParams
  /-- What `CheckBlockHeader` returns where it has no return statement. -/
  noReturn : CBlockHeader → Bool
  nMaxMoneyOut : Int
  zcTimeStart : Nat
  /-- `BlockMerkleRoot`, and whether it found a repeated sequence of transactions. -/
  blockMerkleRoot : List CTransaction → Uint256 × Bool
  blockSize : CBlock → Nat
  txSize : CTransaction → Nat
  /-- `GetLegacySigOpCount`. -/
  legacySigOps : CTransaction → Nat
  isInitialBlockDownload : Bool
  isSynced : Bool
  /-- `SPORK_3_SWIFTTX_BLOCK_FILTERING` and `mapLockedInputs`. -/
  swiftTxFiltering : Bool
  mapLockedInputs : COutPoint → Option Uint256
  /-- `SPORK_17_COLDSTAKING_ENFORCEMENT`, `SPORK_13_ENABLE_SUPERBLOCKS`, `SPORK_9_MASTERNODE_BUDGET_ENFORCEMENT`. -/
  coldStaking : Bool
  superblocks : Bool
  budgetEnforcement : Bool
  getTransaction : Uint256 → Option CTransaction
  payments : PaymentEnv
  masternodePayments : CMasternodePayments
  budget : BudgetState

def maxZerocoinTxSize : Nat := 150000

/-- `MAX_BLOCK_SIZE_CURRENT`. -/
def maxBlockSize : Nat := 2000000

/-- `MAX_BLOCK_SIGOPS_CURRENT` and `MAX_BLOCK_SIGOPS_LEGACY`. -/
def maxBlockSigOps (fZerocoinActive : Bool) : Nat := if fZerocoinActive then 40000 else 20000

def minColdStakingAmount : Int := COIN

namespace CheckEnv

variable (env : CheckEnv)

/-- What `CheckColdStakeFreeOutput` asks of the node. -/
def stake : StakeEnv where
  isRegTestNet := env.params.isRegTestNet
  isSynced := env.isSynced
  isBudgetPaymentBlock := env.budget.isBudgetPaymentBlock
  superblocksEnabled := env.superblocks
  getTransaction := env.getTransaction

/-- What `IsBlockPayeeValid` asks of the node. -/
def payee : PayeeEnv where
  isSynced := env.isSynced
  heightLastPoW := env.params.heightLastPoW
  superblocks := env.superblocks
  budgetEnforcement := env.budgetEnforcement
  payments := env.payments
  masternodePayments := env.masternodePayments
  budget := env.budget

/-- `Consensus::Params::MoneyRange`. -/
def moneyRange (nValue : Int) : Bool := decide (0 ≤ nValue) && decide (nValue ≤ env.nMaxMoneyOut)

/-! ## `CheckTransaction` -/

/-- The loop over the outputs, with the sum so far. -/
def checkOuts (fColdStakingActive userTx : Bool) : Int → List CTxOut → Check
  | _, [] => .pass
  | nValueOut, txout :: vout =>
    if txout.isEmpty && userTx then .dos 100 ""
    else if txout.nValue < 0 then .dos 100 "bad-txns-vout-negative"
    else if env.nMaxMoneyOut < txout.nValue then .dos 100 "bad-txns-vout-toolarge"
    else if !env.moneyRange (nValueOut + txout.nValue) then .dos 100 "bad-txns-txouttotal-toolarge"
    else if txout.scriptPubKey.isPayToColdStaking && !fColdStakingActive then .dos 10 "bad-txns-cold-stake"
    else if txout.scriptPubKey.isPayToColdStaking && decide (txout.nValue < minColdStakingAmount) then
      .dos 100 "bad-txns-cold-stake"
    else checkOuts fColdStakingActive userTx (nValueOut + txout.nValue) vout

/-- The loop over the inputs, with the outpoints seen so far; zerocoin spends may share one. -/
def checkDuplicates : List COutPoint → List CTxIn → Check
  | _, [] => .pass
  | seen, txin :: vin =>
    if txin.prevout ∈ seen then .dos 100 "bad-txns-inputs-duplicate"
    else checkDuplicates (if txin.isZerocoinSpend then seen else txin.prevout :: seen) vin

/-- The last checks of the inputs: the script of a coinbase, or null outpoints. -/
def checkPrevouts (fZerocoinActive : Bool) (tx : CTransaction) : Check :=
  if tx.isCoinBase then
    if tx.vin.any fun txin => decide (txin.scriptSig.bytes.length < 2) || decide (150 < txin.scriptSig.bytes.length) then
      .dos 100 "bad-cb-length"
    else .pass
  else if tx.vin.any fun txin => txin.prevout.isNull && (fZerocoinActive && !txin.isZerocoinSpend) then
    .dos 10 "bad-txns-prevout-null"
  else .pass

def checkTransaction (fZerocoinActive fColdStakingActive : Bool) (tx : CTransaction) : Check :=
  if tx.vin.isEmpty then .dos 10 "bad-txns-vin-empty"
  else if tx.vout.isEmpty then .dos 10 "bad-txns-vout-empty"
  else if maxZerocoinTxSize < env.txSize tx then .dos 100 "bad-txns-oversize"
  else
    match env.checkOuts fColdStakingActive (!tx.isCoinBase && !tx.isCoinStake) 0 tx.vout with
    | .error e => .error e
    | .ok () =>
      match checkDuplicates [] tx.vin with
      | .error e => .error e
      | .ok () => checkPrevouts fZerocoinActive tx

/-- The loop of `CheckBlock` over the transactions. -/
def checkTransactions (fZerocoinActive fColdStakingActive : Bool) : List CTransaction → Check
  | [] => .pass
  | tx :: vtx =>
    match env.checkTransaction fZerocoinActive fColdStakingActive tx with
    | .error e => .error e
    | .ok () => checkTransactions fZerocoinActive fColdStakingActive vtx

/-! ## `CheckBlock` -/

/-- `state.DoS(...)` for a block that may have been corrupted on the way. -/
def corrupt (level : Nat) (chRejectReason : String) : Check := .error (some ⟨level, chRejectReason, true⟩)

/-- A transaction spends an input that is locked for another one. -/
def conflicts (tx : CTransaction) : Bool :=
  !tx.isCoinBase && tx.vin.any fun txin =>
    match env.mapLockedInputs txin.prevout with
    | none => false
    | some hash => hash != tx.hash

/-- The coinbase of a proof-of-stake block has one empty output. -/
def emptyCoinBase (block : CBlock) : Bool :=
  match block.vtx with
  | tx :: _ =>
    match tx.vout with
    | [o] => o.isEmpty
    | _ => false
  | [] => false

/-- The checks of `CheckBlock` from the Merkle root to the transaction locks. -/
def checkShape (block : CBlock) : Check :=
  if block.hashMerkleRoot ≠ (env.blockMerkleRoot block.vtx).1 then corrupt 100 "bad-txnmrklroot"
  else if (env.blockMerkleRoot block.vtx).2 then corrupt 100 "bad-txns-duplicate"
  else if block.vtx.isEmpty || decide (maxBlockSize < block.vtx.length) ||
      decide (maxBlockSize < env.blockSize block) then .dos 100 "bad-blk-length"
  else if !(block.vtx.head?.any CTransaction.isCoinBase) then .dos 100 "bad-cb-missing"
  else if block.vtx.tail.any CTransaction.isCoinBase then .dos 100 "bad-cb-multiple"
  else if block.isProofOfStake && !emptyCoinBase block then .dos 100 ""
  -- the second transaction is a coinstake, or the block would not be proof-of-stake
  else if block.isProofOfStake && (block.vtx.drop 2).any CTransaction.isCoinStake then .dos 100 ""
  else if env.swiftTxFiltering && block.vtx.any env.conflicts then .dos 0 "conflicting-tx-ix"
  else .pass

end CheckEnv

/-- The height that `CheckBlock` and `IsBlockValueValid` give a block: one more than that of its parent, or 0. The tip
is in the index, so the case that it is the parent is not a case of its own. -/
def ChainState.nextHeight (s : ChainState) (hashPrevBlock : Uint256) : Nat :=
  match s.index.find hashPrevBlock with
  | none => 0
  | some pindexPrev => s.index.nHeight pindexPrev + 1

namespace CheckEnv

variable (env : CheckEnv)

/-- `CheckColdStakeFreeOutput` for the coinstake of a proof-of-stake block. -/
def checkFreeOutput (block : CBlock) (nHeight : Nat) : Option Bool :=
  match block.isProofOfStake, block.vtx with
  | true, _ :: tx :: _ => checkColdStakeFreeOutput env.stake tx nHeight
  | _, _ => some true

/-- The checks of `CheckBlock` on cold stakes and payees: whether cold staking is active for the transactions. -/
def checkPayments (s : ChainState) (hist : PaymentHistory) (block : CBlock) :
    Option (Except (Option Rejection) Bool × PaymentHistory) :=
  let nHeight := s.nextHeight block.hashPrevBlock
  if s.tip = none ∨ nHeight = 0 ∨ env.isInitialBlockDownload then some (.ok true, hist)
  else
    match env.checkFreeOutput block nHeight with
    | none => none
    | some false => some (.error (some ⟨0, "bad-p2cs-outs", false⟩), hist)
    | some true =>
      match env.payee.isBlockPayeeValid hist block nHeight with
      | none => none
      | some (false, hist') => some (.error (some ⟨0, "bad-cb-payee", false⟩), hist')
      | some (true, hist') => some (.ok env.coldStaking, hist')

def fZerocoinActive (block : CBlock) : Bool := decide (env.zcTimeStart < block.nTime)

/-- The last checks of `CheckBlock`: the transactions and their signature operations. -/
def checkBody (block : CBlock) (fColdStakingActive : Bool) : Check :=
  match env.checkTransactions (env.fZerocoinActive block) fColdStakingActive block.vtx with
  | .error e => .error e
  | .ok () =>
    if maxBlockSigOps (env.fZerocoinActive block) < (block.vtx.map env.legacySigOps).sum then
      corrupt 100 "bad-blk-sigops"
    else .pass

/-- `CheckBlockHeader`. -/
def checkHeader (block : CBlockHeader) (fCheckPOW : Bool) : Check :=
  if fCheckPOW && !checkProofOfWork env.params block.hash block.nBits then .dos 50 "high-hash"
  else if env.params.isRegTestNet then .pass
  else if env.noReturn block then .pass else .fail

/-- `CheckBlock`, with the history of budget payments that it leaves. -/
def checkBlock (s : ChainState) (hist : PaymentHistory) (block : CBlock) : Option (Check × PaymentHistory) :=
  match env.checkHeader block.toCBlockHeader (!block.isProofOfStake) with
  | .error _ => some (corrupt 100 "bad-header", hist)
  | .ok () =>
    match env.checkShape block with
    | .error e => some (.error e, hist)
    | .ok () =>
      match env.checkPayments s hist block with
      | none => none
      | some (.error e, hist') => some (.error e, hist')
      | some (.ok fColdStakingActive, hist') => some (env.checkBody block fColdStakingActive, hist')

/-! ## What is accepted -/

variable {env : CheckEnv}

theorem checkBlock_of_checks {s : ChainState} {hist hist' : PaymentHistory} {block : CBlock} {fColdStakingActive : Bool}
    (hheader : env.checkHeader block.toCBlockHeader (!block.isProofOfStake) = .ok ())
    (hshape : env.checkShape block = .ok ())
    (hpay : env.checkPayments s hist block = some (.ok fColdStakingActive, hist')) :
    env.checkBlock s hist block = some (env.checkBody block fColdStakingActive, hist') := by
  unfold checkBlock
  simp only [hheader, hshape, hpay]

theorem moneyRange_iff {nValue : Int} : env.moneyRange nValue = true ↔ 0 ≤ nValue ∧ nValue ≤ env.nMaxMoneyOut := by
  simp [moneyRange]

theorem checkOuts_ok {cold user : Bool} : ∀ {vout : List CTxOut} {nValueOut : Int},
    env.checkOuts cold user nValueOut vout = .ok () →
    (∀ o ∈ vout, 0 ≤ o.nValue ∧ o.nValue ≤ env.nMaxMoneyOut) ∧
      (vout ≠ [] → nValueOut + (vout.map CTxOut.nValue).sum ≤ env.nMaxMoneyOut)
  | [], _, _ => by simp
  | o :: vout, nValueOut, h => by
    unfold checkOuts at h
    split at h
    · cases h
    · split at h
      · cases h
      · rename_i h0
        split at h
        · cases h
        · rename_i hmax
          split at h
          · cases h
          · rename_i hr
            rw [Bool.not_eq_true', Bool.not_eq_false, moneyRange_iff] at hr
            split at h
            · cases h
            · split at h
              · cases h
              · obtain ⟨ih1, ih2⟩ := checkOuts_ok h
                refine ⟨?_, fun _ => ?_⟩
                · intro x hx
                  rcases List.mem_cons.mp hx with rfl | hx
                  · exact ⟨by omega, by omega⟩
                  · exact ih1 x hx
                · by_cases hne : vout = []
                  · subst hne
                    simpa using hr.2
                  · have := ih2 hne
                    rw [List.map_cons, List.sum_cons]
                    omega

theorem checkDuplicates_ok : ∀ {vin : List CTxIn} {seen : List COutPoint}, checkDuplicates seen vin = .ok () →
    (∀ txin ∈ vin, txin.prevout ∉ seen) ∧
      ((vin.filter fun txin => !txin.isZerocoinSpend).map CTxIn.prevout).Nodup
  | [], _, _ => by simp
  | txin :: vin, seen, h => by
    unfold checkDuplicates at h
    split at h
    · cases h
    · rename_i hseen
      obtain ⟨ih1, ih2⟩ := checkDuplicates_ok h
      cases hz : txin.isZerocoinSpend with
      | true =>
        rw [hz, if_pos rfl] at ih1
        refine ⟨?_, by simpa [hz] using ih2⟩
        intro x hx
        rcases List.mem_cons.mp hx with rfl | hx
        · exact hseen
        · exact ih1 x hx
      | false =>
        rw [hz, if_neg (by simp)] at ih1
        refine ⟨?_, ?_⟩
        · intro x hx
          rcases List.mem_cons.mp hx with rfl | hx
          · exact hseen
          · exact fun hm => ih1 x hx (List.mem_cons_of_mem _ hm)
        · rw [List.filter_cons_of_pos (by simp [hz]), List.map_cons, List.nodup_cons]
          refine ⟨fun hm => ?_, ih2⟩
          obtain ⟨x, hx, heq⟩ := List.mem_map.mp hm
          exact ih1 x (List.mem_filter.mp hx).1 (heq ▸ List.mem_cons_self)

/-- What `CheckTransaction` ensures of the amounts and the inputs. -/
structure Sound (env : CheckEnv) (tx : CTransaction) : Prop where
  vin : tx.vin ≠ []
  vout : tx.vout ≠ []
  value : ∀ o ∈ tx.vout, 0 ≤ o.nValue ∧ o.nValue ≤ env.nMaxMoneyOut
  total : (tx.vout.map CTxOut.nValue).sum ≤ env.nMaxMoneyOut
  distinct : ((tx.vin.filter fun txin => !txin.isZerocoinSpend).map CTxIn.prevout).Nodup

theorem checkTransaction_spec {zc cold : Bool} {tx : CTransaction} (h : env.checkTransaction zc cold tx = .ok ()) :
    env.Sound tx := by
  unfold checkTransaction at h
  split at h
  · cases h
  · rename_i hvin
    split at h
    · cases h
    · rename_i hvout
      split at h
      · cases h
      · split at h
        · cases h
        · rename_i houts
          split at h
          · cases h
          · rename_i hdup
            have hne : tx.vout ≠ [] := by simpa using hvout
            obtain ⟨h1, h2⟩ := checkOuts_ok houts
            exact ⟨by simpa using hvin, hne, h1, by simpa using h2 hne, (checkDuplicates_ok hdup).2⟩

theorem checkTransactions_ok {zc cold : Bool} : ∀ {vtx : List CTransaction},
    env.checkTransactions zc cold vtx = .ok () → ∀ tx ∈ vtx, env.Sound tx
  | [], _ => by simp
  | tx :: vtx, h => by
    unfold checkTransactions at h
    split at h
    · cases h
    · rename_i htx
      intro x hx
      rcases List.mem_cons.mp hx with rfl | hx
      · exact checkTransaction_spec htx
      · exact checkTransactions_ok h x hx

theorem checkBlock_cases {s : ChainState} {hist hist' : PaymentHistory} {block : CBlock}
    (h : env.checkBlock s hist block = some (.ok (), hist')) :
    ∃ cold, env.checkHeader block.toCBlockHeader (!block.isProofOfStake) = .ok () ∧ env.checkShape block = .ok () ∧
      env.checkPayments s hist block = some (.ok cold, hist') ∧ env.checkBody block cold = .ok () := by
  unfold checkBlock at h
  split at h
  · cases h
  · rename_i hheader
    split at h
    · cases h
    · rename_i hshape
      split at h
      · cases h
      · cases h
      · rename_i cold hist₁ hpay
        simp only [Option.some.injEq, Prod.mk.injEq] at h
        obtain ⟨hbody, rfl⟩ := h
        exact ⟨cold, hheader, hshape, hpay, hbody⟩

theorem checkBlock_sound {s : ChainState} {hist hist' : PaymentHistory} {block : CBlock}
    (h : env.checkBlock s hist block = some (.ok (), hist')) : ∀ tx ∈ block.vtx, env.Sound tx := by
  obtain ⟨cold, -, -, -, hbody⟩ := checkBlock_cases h
  unfold checkBody at hbody
  split at hbody
  · cases hbody
  · rename_i htxs
    exact checkTransactions_ok htxs

end CheckEnv

end DigiWage
