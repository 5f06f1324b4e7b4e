import DigiWage.Pool.Check
import DigiWage.Script.Flags

/-!
# `AcceptToMemoryPool`, exit by exit

The whole of `AcceptToMemoryPool` of `main.cpp`, with `mapDeltas` of the pool and the transactions that masternodes
broadcast (`mapObfuscationBroadcastTxes`).

* `earlyChecks`, `feeRules` and `lastChecks` are its three parts. Between the first two the transaction of a masternode gets
  its deltas; after the last one it is stored.

`double` is a type of which the code uses 0, sums and the comparison with 0.
-/

namespace DigiWage

open Lib

def DEFAULT_BLOCK_PRIORITY_SIZE : Nat := 50000

def MAX_TX_SIGOPS_CURRENT : Nat := 2000000 / 50 / 5

/-- `CFeeRate::GetFee`. -/
def getFee (nZensPerK : Int) (nSize : Nat) : Int :=
  let nFee := nZensPerK * nSize / 1000
  if nFee = 0 ∧ 0 < nZensPerK then nZensPerK else nFee

/-- What `AcceptToMemoryPool` asks of the node. -/
structure MempoolEnv (L : Type) extends PoolEnv where
  scripts : ScriptEnv
  /-- `height_start_BIP65`. -/
  heightStartBIP65 : Nat
  /-- The checks of `IsStandardTx` on size, scripts and outputs: the reason it gives. -/
  nonstandardForm : CTransaction → Option String
  areInputsStandard : CoinsView → CTransaction → Bool
  /-- `GetP2SHSigOpCount`. -/
  p2shSigOps : CoinsView → CTransaction → Nat
  /-- `minRelayTxFee`. -/
  minRelayTxFee : Int
  /-- `-relaypriority`. -/
  relayPriority : Bool
  /-- `AllowFree` of the priority at a height. -/
  allowFree : CoinsView → CTransaction → Nat → Bool
  /-- The limit on free transactions: whether one of this size passes, and the state after it. -/
  limitFree : L → Nat → Bool × L

/-- The node, with what the pool knows about priorities. -/
structure MempoolNode (D L : Type) extends PoolNode where
  mapDeltas : AList fun _ : Uint256 => D × Int
  mapObfuscationBroadcastTxes : Uint256 → Bool
  freeLimiter : L

/-- Why a transaction is refused, and `pfMissingInputs`. -/
structure Refusal where
  rejection : Option Rejection
  fMissingInputs : Bool
deriving DecidableEq, Repr

/-- `state.DoS(...)`. -/
def Refusal.dos (level : Nat) (reason : String) : Refusal := ⟨some ⟨level, reason, false⟩, false⟩

/-- `return error(...)` and `return false`. -/
def Refusal.fail : Refusal := ⟨none, false⟩

namespace MempoolNode

variable {D L : Type} (env : MempoolEnv L)

/-- `IsStandardTx`: the reason against it. -/
def nonstandard (s : PoolNode) (tx : CTransaction) : Option String :=
  if 1 < tx.nVersion ∨ tx.nVersion < 1 then some "version"
  else if !isFinalTx s.adjustedTime tx (s.height + 1) 0 then some "non-final"
  else env.nonstandardForm tx

/-- `AcceptToMemoryPool` up to the fees: `nFees`, or why the transaction is refused. -/
def earlyChecks (s : PoolNode) (tx : CTransaction) : Except Refusal Int :=
  let view := s.pool.poolView s.view
  if tx.containsZerocoins then .error (.dos 10 "bad-tx")
  else
    match env.checkTransaction (decide (env.params.heightStartZC ≤ s.height)) env.coldStaking tx with
    | .error e => .error (.dos (100 + (e.map Rejection.nDoS).getD 0) "bad-tx")
    | .ok () =>
      if tx.isCoinBase then .error (.dos 100 "coinbase")
      else if tx.isCoinStake then .error (.dos 100 "coinstake")
      else if !s.checkFinalTx env.toPoolEnv tx then .error (.dos 0 "non-final")
      -- rather not work on nonstandard transactions (unless regtest)
      else if !env.params.isRegTestNet && (nonstandard env s tx).isSome then
        .error (.dos 0 ((nonstandard env s tx).getD ""))
      else if s.pool.contains tx.hash then .error .fail
      else if tx.vin.any fun txin => (env.mapLockedInputs txin.prevout).any (· ≠ tx.hash) then
        .error (.dos 0 "tx-lock-conflict")
      else if tx.vin.any fun txin => (s.pool.mapNextTx.lookup txin.prevout).isSome then .error .fail
      else if !(view.coins tx.hash).isPruned then .error .fail
      else if tx.vin.any fun txin => (view.coins txin.prevout.hash).isPruned then .error ⟨none, true⟩
      else if !view.haveInputs tx then .error (.dos 0 "bad-txns-inputs-spent")
      else if !env.params.isRegTestNet && !env.areInputsStandard view tx then .error .fail
      else if MAX_TX_SIGOPS_CURRENT < env.legacySigOps tx + env.p2shSigOps view tx then
        .error (.dos 0 "bad-txns-too-many-sigops")
      else
        match tx.getValueOut with
        | none => .error .fail
        | some nValueOut => .ok (view.getValueIn tx - nValueOut)

/-- The checks after those on fees. -/
def lastChecks (s : PoolNode) (tx : CTransaction) (fRejectInsaneFee : Bool) (nFees : Int) : Except Refusal Unit :=
  if fRejectInsaneFee && decide (getFee env.minRelayTxFee (env.txSize tx) * 10000 < nFees) then .error .fail
  else if !env.params.isRegTestNet && decide (nFees = 0) then .error .fail
  else
    match env.acceptScripts env.scripts (s.pool.poolView s.view) (s.height + 1 : Nat) tx
      (decide (env.heightStartBIP65 ≤ s.height)) with
    | .connectInputsFailed => .error .fail
    | .bug => .error .fail
    | .stored => .ok ()

section Deltas

variable [Zero D] [Add D] [NatCast D] [LT D] [DecidableLT D]

/-- `CTxMemPool::PrioritiseTransaction`. -/
def prioritiseTransaction (hash : Uint256) (dPriorityDelta : D) (nFeeDelta : Int) (s : MempoolNode D L) :
    MempoolNode D L :=
  let deltas := (s.mapDeltas.lookup hash).getD (0, 0)
  { s with mapDeltas := s.mapDeltas.insert hash (deltas.1 + dPriorityDelta, deltas.2 + nFeeDelta) }

/-- `CTxMemPool::ApplyDeltas`, from 0 on. -/
def applyDeltas (hash : Uint256) (s : MempoolNode D L) : D × Int :=
  match s.mapDeltas.lookup hash with
  | none => (0, 0)
  | some deltas => (0 + deltas.1, 0 + deltas.2)

def getMinRelayFee (s : MempoolNode D L) (tx : CTransaction) (nBytes : Nat) (fAllowFree : Bool) : Int :=
  let deltas := s.applyDeltas tx.hash
  if 0 < deltas.1 ∨ 0 < deltas.2 then 0
  else
    let nMinFee := if fAllowFree && decide (nBytes < DEFAULT_BLOCK_PRIORITY_SIZE - 1000) then 0
      else getFee env.minRelayTxFee nBytes
    if env.moneyRange nMinFee then nMinFee else env.nMaxMoneyOut

/-- The rules on fees: whether the transaction passes, and the limiter after it. -/
def feeRules (s : MempoolNode D L) (tx : CTransaction) (fLimitFree : Bool) (nFees : Int) : Except Refusal Unit × L :=
  let nSize := env.txSize tx
  if fLimitFree && decide (nFees < getMinRelayFee env s tx nSize true) then
    (.error (.dos 0 "insufficient fee"), s.freeLimiter)
  else if env.relayPriority && decide (nFees < getFee env.minRelayTxFee nSize) &&
      !env.allowFree (s.pool.poolView s.view) tx (s.height + 1) then
    (.error (.dos 0 "insufficient priority"), s.freeLimiter)
  else if fLimitFree && decide (nFees < getFee env.minRelayTxFee nSize) then
    let r := env.limitFree s.freeLimiter nSize
    (if r.1 then .ok () else .error (.dos 0 "rate limited free transaction"), r.2)
  else (.ok (), s.freeLimiter)

/-- The part of `AcceptToMemoryPool` on priority and fees: the transaction of a masternode gets its deltas. -/
def feeStage (s : MempoolNode D L) (tx : CTransaction) (fLimitFree ignoreFees : Bool) (nFees : Int) :
    Except Refusal Unit × MempoolNode D L :=
  if s.mapObfuscationBroadcastTxes tx.hash then (.ok (), s.prioritiseTransaction tx.hash ((1000 : Nat) : D) (COIN / 10))
  else if !ignoreFees then
    let f := feeRules env s tx fLimitFree nFees
    (f.1, { s with freeLimiter := f.2 })
  else (.ok (), s)

/-- `AcceptToMemoryPool`: what it returns, and the node after it. -/
def acceptToMemoryPool (s : MempoolNode D L) (tx : CTransaction) (fLimitFree fRejectInsaneFee ignoreFees : Bool) :
    Except Refusal Unit × MempoolNode D L :=
  match earlyChecks env s.toPoolNode tx with
  | .error e => (.error e, s)
  | .ok nFees =>
    match feeStage env s tx fLimitFree ignoreFees nFees with
    | (.error e, s) => (.error e, s)
    | (.ok (), s) =>
      match lastChecks env s.toPoolNode tx fRejectInsaneFee nFees with
      | .error e => (.error e, s)
      | .ok () => (.ok (), { s with pool := s.pool.addUnchecked tx.hash ⟨tx, env.txSize tx⟩ })

end Deltas

/-! ## The checks -/

variable {env} {s s' : MempoolNode D L} {tx : CTransaction} {fLimitFree fRejectInsaneFee ignoreFees : Bool} {nFees : Int}

theorem lastChecks_eq_ok_iff {n : PoolNode} : lastChecks env n tx fRejectInsaneFee nFees = .ok () ↔
    ¬ (fRejectInsaneFee = true ∧ getFee env.minRelayTxFee (env.txSize tx) * 10000 < nFees) ∧
    ¬ (env.params.isRegTestNet = false ∧ nFees = 0) ∧
    env.checkInputScripts env.scripts (n.pool.poolView n.view) (n.height + 1 : Nat) tx
      (withCLTV STANDARD_SCRIPT_VERIFY_FLAGS (decide (env.heightStartBIP65 ≤ n.height))) = true := by
  have hbug := @acceptScripts_ne_bug env.toConnectEnv env.scripts (n.pool.poolView n.view) (n.height + 1 : Nat) tx
    (decide (env.heightStartBIP65 ≤ n.height))
  have hscripts : env.acceptScripts env.scripts (n.pool.poolView n.view) (n.height + 1 : Nat) tx
        (decide (env.heightStartBIP65 ≤ n.height)) = .stored ↔
      env.checkInputScripts env.scripts (n.pool.poolView n.view) (n.height + 1 : Nat) tx
        (withCLTV STANDARD_SCRIPT_VERIFY_FLAGS (decide (env.heightStartBIP65 ≤ n.height))) = true := by
    rw [ConnectEnv.acceptScripts] at hbug ⊢
    split at hbug
    · rename_i hstandard
      rw [if_pos hstandard]
      simpa using hstandard
    · rename_i hstandard
      split at hbug
      · exact absurd rfl hbug
      · rename_i hmandatory
        rw [if_neg hstandard, if_neg hmandatory]
        simpa using hstandard
  rw [lastChecks, guard_eq_ok, guard_eq_ok, Bool.and_eq_true, Bool.and_eq_true, decide_eq_true_eq, decide_eq_true_eq,
    Bool.not_eq_true', ← hscripts]
  refine and_congr_right fun _ => and_congr_right fun _ => ?_
  cases env.acceptScripts env.scripts (n.pool.poolView n.view) (n.height + 1 : Nat) tx
    (decide (env.heightStartBIP65 ≤ n.height)) <;> simp

theorem not_isCoinBase_of_earlyChecks {n : PoolNode} (h : earlyChecks env n tx = .ok nFees) : ¬ tx.isCoinBase = true := by
  rw [earlyChecks, guard_eq_ok] at h
  obtain ⟨-, h⟩ := h
  split at h
  · cases h
  · exact (guard_eq_ok.mp h).1

theorem pool_of_earlyChecks {n : PoolNode} (h : earlyChecks env n tx = .ok nFees) {policy : CTxMemPool → CTransaction → Bool}
    (hpolicy : policy n.pool tx = true)
    (hinputs : env.checkInputs (n.pool.poolView n.view) (n.height + 1 : Nat) tx = true) :
    n.acceptToMemoryPool env.toPoolEnv ⟨env.coldStaking, policy⟩ n.view (n.height + 1) n.pool tx =
      some (n.pool.addUnchecked tx.hash ⟨tx, env.txSize tx⟩) := by
  rw [earlyChecks, guard_eq_ok] at h
  obtain ⟨hzerocoins, h⟩ := h
  split at h
  · cases h
  · rename_i hcheck
    simp only [guard_eq_ok] at h
    obtain ⟨hcoinBase, hcoinStake, hfinal, hstandard, hpool, -, hnext, hhave, -⟩ := h
    have hstandard : ¬ (!env.params.isRegTestNet && !isFinalTx n.adjustedTime tx (n.height + 1) 0) = true := by
      intro hnot
      rw [Bool.and_eq_true] at hnot
      apply hstandard
      rw [nonstandard]
      split
      · simp [hnot.1]
      · simp [hnot.1, hnot.2]
    have hpass : ¬ env.checkTransaction (decide (env.params.heightStartZC ≤ n.height)) env.coldStaking tx ≠ .pass :=
      not_not_intro hcheck
    rw [PoolNode.acceptToMemoryPool, if_neg hzerocoins, if_neg hpass, if_neg (by simp [hcoinBase, hcoinStake]),
      if_neg hfinal, if_neg hstandard, if_neg hpool, if_neg hnext, if_neg hhave, if_neg (by simp [hpolicy]),
      if_neg (by simpa using hinputs)]

/-! ## Refusals -/

/-- The transaction of a masternode gets its deltas, and then it is refused: for an insane fee, for no fee, or for its
inputs and scripts. -/
def RefusedLate (env : MempoolEnv L) (s : MempoolNode D L) (tx : CTransaction) (fRejectInsaneFee : Bool) : Prop :=
  s.mapObfuscationBroadcastTxes tx.hash = true ∧ ∃ nFees, earlyChecks env s.toPoolNode tx = .ok nFees ∧
    ((fRejectInsaneFee = true ∧ getFee env.minRelayTxFee (env.txSize tx) * 10000 < nFees) ∨
      (env.params.isRegTestNet = false ∧ nFees = 0) ∨
      env.checkInputScripts env.scripts (s.pool.poolView s.view) (s.height + 1 : Nat) tx
        (withCLTV STANDARD_SCRIPT_VERIFY_FLAGS (decide (env.heightStartBIP65 ≤ s.height))) = false)

theorem refusedLate_iff (hearly : earlyChecks env s.toPoolNode tx = .ok nFees)
    (hknown : s.mapObfuscationBroadcastTxes tx.hash = true) :
    RefusedLate env s tx fRejectInsaneFee ↔ ¬ lastChecks env s.toPoolNode tx fRejectInsaneFee nFees = .ok () := by
  rw [lastChecks_eq_ok_iff]
  constructor
  · rintro ⟨-, nFees', hok, hcause⟩
    rw [hearly] at hok
    cases hok
    rintro ⟨hinsane, hzero, hscripts⟩
    rcases hcause with hcause | hcause | hcause
    · exact hinsane hcause
    · exact hzero hcause
    · rw [hscripts] at hcause
      cases hcause
  · intro hnot
    refine ⟨hknown, nFees, hearly, ?_⟩
    by_contra hcause
    simp only [not_or, Bool.not_eq_false] at hcause
    exact hnot hcause

/-- Pool and deltas are the same. -/
structure SamePool (s s' : MempoolNode D L) : Prop where
  pool : s'.pool = s.pool
  mapDeltas : s'.mapDeltas = s.mapDeltas

variable [Zero D] [Add D] [NatCast D] [LT D] [DecidableLT D]

theorem feeStage_cases (env : MempoolEnv L) (s : MempoolNode D L) (tx : CTransaction) (fLimitFree ignoreFees : Bool)
    (nFees : Int) :
    (s.mapObfuscationBroadcastTxes tx.hash = true ∧ feeStage env s tx fLimitFree ignoreFees nFees =
      (.ok (), s.prioritiseTransaction tx.hash ((1000 : Nat) : D) (COIN / 10))) ∨
    (s.mapObfuscationBroadcastTxes tx.hash = false ∧ ∃ r freeLimiter,
      feeStage env s tx fLimitFree ignoreFees nFees = (r, { s with freeLimiter := freeLimiter })) := by
  rw [feeStage]
  cases hknown : s.mapObfuscationBroadcastTxes tx.hash with
  | true => exact .inl ⟨rfl, rfl⟩
  | false =>
    refine .inr ⟨rfl, ?_⟩
    rw [if_neg (by simp)]
    split
    · exact ⟨_, _, rfl⟩
    · exact ⟨_, s.freeLimiter, rfl⟩

theorem accept_refusedLate (h : RefusedLate env s tx fRejectInsaneFee) (fLimitFree ignoreFees : Bool) :
    ∃ e, acceptToMemoryPool env s tx fLimitFree fRejectInsaneFee ignoreFees =
      (.error e, s.prioritiseTransaction tx.hash ((1000 : Nat) : D) (COIN / 10)) := by
  obtain ⟨hknown, nFees, hearly, -⟩ := id h
  have hlast := (refusedLate_iff hearly hknown).mp h
  have hstage := (feeStage_cases env s tx fLimitFree ignoreFees nFees).resolve_right fun hnot => by simp [hknown] at hnot
  have hsame : lastChecks env (s.prioritiseTransaction tx.hash ((1000 : Nat) : D) (COIN / 10)).toPoolNode tx
      fRejectInsaneFee nFees = lastChecks env s.toPoolNode tx fRejectInsaneFee nFees := rfl
  simp only [acceptToMemoryPool, hearly, hstage.2, hsame]
  cases hcase : lastChecks env s.toPoolNode tx fRejectInsaneFee nFees with
  | error e => exact ⟨e, rfl⟩
  | ok u => exact absurd hcase hlast

theorem accept_refused (h : ¬ RefusedLate env s tx fRejectInsaneFee) {e : Refusal}
    (hrefused : acceptToMemoryPool env s tx fLimitFree fRejectInsaneFee ignoreFees = (.error e, s')) : SamePool s s' := by
  rw [acceptToMemoryPool] at hrefused
  cases hearly : earlyChecks env s.toPoolNode tx with
  | error e' =>
    rw [hearly] at hrefused
    cases hrefused
    exact ⟨rfl, rfl⟩
  | ok nFees =>
    simp only [hearly] at hrefused
    rcases feeStage_cases env s tx fLimitFree ignoreFees nFees with ⟨hknown, hstage⟩ | ⟨-, r, freeLimiter, hstage⟩
    · have hlast : lastChecks env s.toPoolNode tx fRejectInsaneFee nFees = .ok () := by
        by_contra hnot
        exact h ((refusedLate_iff hearly hknown).mpr hnot)
      have hsame : lastChecks env (s.prioritiseTransaction tx.hash ((1000 : Nat) : D) (COIN / 10)).toPoolNode tx
          fRejectInsaneFee nFees = lastChecks env s.toPoolNode tx fRejectInsaneFee nFees := rfl
      rw [hstage] at hrefused
      dsimp only at hrefused
      rw [hsame, hlast] at hrefused
      cases hrefused
    · rw [hstage] at hrefused
      cases r with
      | error e' =>
        cases hrefused
        exact ⟨rfl, rfl⟩
      | ok u =>
        dsimp only at hrefused
        split at hrefused
        · cases hrefused
          exact ⟨rfl, rfl⟩
        · cases hrefused

theorem accept_accepted (h : acceptToMemoryPool env s tx fLimitFree fRejectInsaneFee ignoreFees = (.ok (), s')) :
    ∃ nFees, earlyChecks env s.toPoolNode tx = .ok nFees ∧
      lastChecks env s.toPoolNode tx fRejectInsaneFee nFees = .ok () ∧
      s'.pool = s.pool.addUnchecked tx.hash ⟨tx, env.txSize tx⟩ := by
  rw [acceptToMemoryPool] at h
  cases hearly : earlyChecks env s.toPoolNode tx with
  | error e =>
    rw [hearly] at h
    cases h
  | ok nFees =>
    refine ⟨nFees, rfl, ?_⟩
    simp only [hearly] at h
    have hsame : (feeStage env s tx fLimitFree ignoreFees nFees).2.toPoolNode = s.toPoolNode := by
      rcases feeStage_cases env s tx fLimitFree ignoreFees nFees with ⟨-, hstage⟩ | ⟨-, r, freeLimiter, hstage⟩
      · rw [hstage]
        rfl
      · rw [hstage]
    split at h
    · cases h
    · rename_i s₁ hstage
      rw [hstage] at hsame
      dsimp only at hsame
      rw [hsame] at h
      split at h
      · cases h
      · rename_i hlast
        cases h
        exact ⟨hlast, rfl⟩

theorem accept_pool (env : MempoolEnv L) (s : MempoolNode D L) (tx : CTransaction)
    (fLimitFree fRejectInsaneFee ignoreFees : Bool) :
    let r := acceptToMemoryPool env s tx fLimitFree fRejectInsaneFee ignoreFees
    let relay : RelayEnv := ⟨env.coldStaking, fun _ _ => r.1.toBool⟩
    r.2.pool = (s.toPoolNode.acceptToMemoryPool env.toPoolEnv relay s.view (s.height + 1) s.pool tx).getD s.pool := by
  dsimp only
  cases hr : acceptToMemoryPool env s tx fLimitFree fRejectInsaneFee ignoreFees with
  | mk ret s' =>
    cases ret with
    | error e =>
      have hnone : s.toPoolNode.acceptToMemoryPool env.toPoolEnv ⟨env.coldStaking, fun _ _ => false⟩ s.view (s.height + 1)
          s.pool tx = none := by
        simp [PoolNode.acceptToMemoryPool]
      have hsame : s'.pool = s.pool := by
        by_cases hlate : RefusedLate env s tx fRejectInsaneFee
        · obtain ⟨e', he'⟩ := accept_refusedLate hlate fLimitFree ignoreFees
          rw [he'] at hr
          cases hr
          rfl
        · exact (accept_refused hlate hr).pool
      rw [show (Except.error e : Except Refusal Unit).toBool = false from rfl, hnone]
      exact hsame
    | ok u =>
      obtain ⟨nFees, hearly, hlast, hpool⟩ := accept_accepted hr
      have hzerocoins : tx.hasZerocoinSpendInputs = false := by
        have hnot := (guard_eq_ok.mp hearly).1
        rw [Bool.not_eq_true, CTransaction.containsZerocoins, Bool.or_eq_false_iff] at hnot
        exact hnot.1
      have hcoinBase := not_isCoinBase_of_earlyChecks hearly
      have hscripts := (lastChecks_eq_ok_iff.mp hlast).2.2
      rw [ConnectEnv.checkInputScripts, if_pos (by simp [hzerocoins, hcoinBase]), Bool.and_eq_true] at hscripts
      rw [show (Except.ok u : Except Refusal Unit).toBool = true from rfl,
        pool_of_earlyChecks hearly rfl (by simpa using hscripts.1)]
      exact hpool

/-- **`AcceptToMemoryPool` is atomic** exactly when the transaction is not refused after it got the deltas of a masternode's
transaction. -/
theorem accept_atomic_iff (env : MempoolEnv L) (s : MempoolNode D L) (tx : CTransaction)
    (fLimitFree fRejectInsaneFee ignoreFees : Bool) :
    (∀ e s', acceptToMemoryPool env s tx fLimitFree fRejectInsaneFee ignoreFees = (.error e, s') → SamePool s s') ↔
      ¬ RefusedLate env s tx fRejectInsaneFee := by
  constructor
  · intro hatomic hlate
    obtain ⟨e, he⟩ := accept_refusedLate hlate fLimitFree ignoreFees
    have hdeltas := (hatomic e _ he).mapDeltas
    have hlookup := congrArg (AList.lookup tx.hash) hdeltas
    rw [prioritiseTransaction, AList.lookup_insert] at hlookup
    rw [← hlookup, Option.getD_some, Option.some.injEq, Prod.mk.injEq] at hlookup
    simp [COIN] at hlookup
  · intro hlate e s' hrefused
    exact accept_refused hlate hrefused

/-- The fee delta of a transaction. -/
def feeDelta (s : MempoolNode D L) (hash : Uint256) : Int := ((s.mapDeltas.lookup hash).map Prod.snd).getD 0

omit [LT D] [DecidableLT D] [NatCast D] in
theorem feeDelta_prioritiseTransaction (s : MempoolNode D L) (hash : Uint256) (d : D) (n : Int) :
    (s.prioritiseTransaction hash d n).feeDelta hash = s.feeDelta hash + n := by
  rw [feeDelta, prioritiseTransaction, AList.lookup_insert, feeDelta]
  cases s.mapDeltas.lookup hash <;> rfl

theorem feeDelta_offers (h : RefusedLate env s tx fRejectInsaneFee) (fLimitFree ignoreFees : Bool) (n : Nat) :
    let offer := fun s => (acceptToMemoryPool env s tx fLimitFree fRejectInsaneFee ignoreFees).2
    RefusedLate env (offer^[n] s) tx fRejectInsaneFee ∧
      (offer^[n] s).feeDelta tx.hash = s.feeDelta tx.hash + n * (COIN / 10) := by
  intro offer
  induction n with
  | zero => exact ⟨h, by simp⟩
  | succ n ih =>
    obtain ⟨hlate, hdelta⟩ := ih
    obtain ⟨e, he⟩ := accept_refusedLate hlate fLimitFree ignoreFees
    have hstep : offer (offer^[n] s) = (offer^[n] s).prioritiseTransaction tx.hash ((1000 : Nat) : D) (COIN / 10) :=
      congrArg Prod.snd he
    rw [Function.iterate_succ_apply', hstep]
    refine ⟨hlate, ?_⟩
    rw [feeDelta_prioritiseTransaction, hdelta]
    push_cast
    ring

/-! A transaction of a masternode that pays no fee. -/

def freeEnv : MempoolEnv Unit where
  toConnectEnv := { regTestEnv with params := { regTestParams 0 with isRegTestNet := false }, nCoinbaseMaturity := 1 }
  genesisTime := 0
  maturity_lt := by decide
  scripts := ⟨fun _ => true, fun _ _ => noChecker⟩
  heightStartBIP65 := 0
  nonstandardForm _ := none
  areInputsStandard _ _ := true
  p2shSigOps _ _ := 0
  minRelayTxFee := 10000
  relayPriority := true
  allowFree _ _ _ := true
  limitFree _ _ := (true, ())

def freeTx : CTransaction :=
  ⟨9, 1, [⟨⟨8, 0⟩, ([] : List UInt8), 0⟩], [⟨10 * COIN, ([0x51] : List UInt8), -10⟩], 0⟩

def freeNode : MempoolNode Int Unit where
  toPoolNode := .run freeEnv.toPoolEnv [.connectTip passes ⟨⟨101, 7, 0, 0, 0, 0, 0⟩, [PoolNode.poolCoinBase]⟩]
  mapDeltas := ∅
  mapObfuscationBroadcastTxes hash := hash == 9
  freeLimiter := ()

/-- It is refused and has a fee delta. -/
theorem not_accept_atomic : ¬ ∀ e s', acceptToMemoryPool freeEnv freeNode freeTx true false true = (.error e, s') →
    SamePool freeNode s' := by
  intro h
  have hrefused : (acceptToMemoryPool freeEnv freeNode freeTx true false true).1 = .error .fail := by decide
  have hdelta : (acceptToMemoryPool freeEnv freeNode freeTx true false true).2.feeDelta 9 = COIN / 10 := by decide
  have hsame := h .fail (acceptToMemoryPool freeEnv freeNode freeTx true false true).2 (Prod.ext hrefused rfl)
  rw [feeDelta, hsame.mapDeltas] at hdelta
  revert hdelta
  decide

end MempoolNode

end DigiWage
