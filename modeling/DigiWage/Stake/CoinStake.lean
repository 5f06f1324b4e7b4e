import DigiWage.Masternode.Budget
import DigiWage.Script.SignatureHash
import DigiWage.Script.Standard
import DigiWage.Stake.Kernel

/-!
# The coinstake of the wallet

`CWallet::CreateCoinStake` of `wallet/wallet.cpp` with `CPivStake::CreateTxOuts` of `stakeinput.cpp`, for any pattern of
kernel hits and of failures.

* `fillBlockPayee_shares`: how the credit is divided over the outputs, and that the masternode payment leaves none of them
  negative.
-/

namespace DigiWage

open CScript Lib

def MAX_STANDARD_TX_SIZE : Nat := 100000

def DEFAULT_BLOCK_MAX_SIZE : Nat := 750000

namespace CPivStake

def getValue (input : CPivStake) : Option Int := (input.txFrom.vout[input.nPosition]?).map CTxOut.nValue

/-- What `CPivStake::CreateTxIn` makes. -/
def txIn (input : CPivStake) : CTxIn := ⟨⟨input.txFrom.hash, input.nPosition⟩, ([] : List UInt8), 2 ^ 32 - 1⟩

end CPivStake

/-- A round of the kernel search: the input, and what is found in it. `CreateTxIn` of a `CPivStake` never fails. -/
structure StakeRound where
  input : CPivStake
  /-- Another block has come in. -/
  fNewBlock : Bool
  /-- The wallet is locked, or shutdown has been requested. -/
  fStopped : Bool
  /-- What `Stake` returns. -/
  fKernelFound : Bool
  /-- What `CreateTxIn` returns. -/
  fTxIn : Bool

/-- What the coinstake depends on: the wallet and the payments. -/
structure CoinStakeEnv where
  nStakeSplitThreshold : Int
  /-- `GetKey`, and the public key of what it gets. -/
  getKey : CKeyID → Option { pubKey : Valtype // pubKey.length ≤ 65 }
  /-- Whether `SignSignature` succeeds. -/
  canSign : CTxIn → Bool
  scriptSig : CMutableTransaction → Nat → CScript
  tipHeight : Nat
  /-- `SPORK_13_ENABLE_SUPERBLOCKS`. -/
  enableSuperblocks : Bool
  budget : BudgetState
  paymentEnv : PaymentEnv
  masternodePayments : CMasternodePayments

namespace CoinStakeEnv

variable (env : CoinStakeEnv)

/-- The number of outputs that `CreateTxOuts` makes. -/
def splitCount (nTotal : Int) : Nat :=
  if 0 < env.nStakeSplitThreshold then
    -- the quotient is cut to an `int`
    let nSplit := (nTotal.tdiv env.nStakeSplitThreshold).bmod (2 ^ 32)
    let txSizeMax := MAX_STANDARD_TX_SIZE / 2 ^ 11
    if 1 < nSplit then min nSplit.toNat txSizeMax else 1
  else 1

/-- The script of the outputs of `CreateTxOuts`, `some none` where it returns false. -/
def stakeScript (input : CPivStake) : Option (Option CScript) := do
  let out ← input.txFrom.vout[input.nPosition]?
  let scriptPubKeyKernel := out.scriptPubKey
  match solver scriptPubKeyKernel with
  | (false, _, _) => some none
  | (true, .TX_PUBKEYHASH, vSolutions) => do
    let keyID ← (vSolutions[0]?).bind uint160
    some ((env.getKey keyID).map fun pubKey => push pubKey.1 ++ [OP_CHECKSIG])
  | (true, .TX_COLDSTAKE, vSolutions) => do
    let keyID ← (vSolutions[0]?).bind uint160
    some ((env.getKey keyID).map fun _ => scriptPubKeyKernel)
  | (true, .TX_PUBKEY, _) => some (some scriptPubKeyKernel)
  | (true, _, _) => some none

/-- `CPivStake::CreateTxOuts`. -/
def createTxOuts (input : CPivStake) (nTotal : Int) : Option (Option (List CTxOut)) :=
  (env.stakeScript input).map fun script =>
    script.map fun scriptPubKey => List.replicate (env.splitCount nTotal) (paymentOut scriptPubKey 0)

/-- The credit is divided over the outputs behind the first one. The last one takes what remains. -/
def splitStake (nCredit : Int) (vout : List CTxOut) : List CTxOut :=
  let outputs := vout.length - 1
  let nShare := nCredit.tdiv outputs
  let nRemaining := if 1 < outputs then nCredit - nShare * (outputs - 1 : Nat) else nCredit
  vout.mapIdx fun i o =>
    if 1 < outputs ∧ 1 ≤ i ∧ i < outputs then { o with nValue := nShare }
    else if i = outputs then { o with nValue := o.nValue + nRemaining }
    else o

/-- A budget payment is due on top of the tip. -/
def budgetDue : Bool := env.enableSuperblocks && env.budget.isBudgetPaymentBlock (env.tipHeight + 1)

def fillBlockPayee (txNew : CMutableTransaction) : Option CMutableTransaction :=
  if env.budgetDue then env.budget.fillBlockPayee env.tipHeight txNew true
  else env.masternodePayments.fillBlockPayee env.paymentEnv env.tipHeight txNew true

/-- The size of a transaction. -/
def serializeSize (txNew : CMutableTransaction) : Nat :=
  (CTransaction.serialize ⟨0, txNew.nVersion, txNew.vin, txNew.vout, txNew.nLockTime⟩).length

end CoinStakeEnv

/-- How the kernel search ends. -/
inductive KernelSearch where
  | stopped
  | ended (fKernelFound : Bool) (txNew : CMutableTransaction)

namespace CoinStakeEnv

variable (env : CoinStakeEnv)

/-- The loop of the kernel search; `none` for an access out of range. -/
def kernelSearch : List StakeRound → Bool → CMutableTransaction → Option KernelSearch
  | [], fKernelFound, txNew => some (.ended fKernelFound txNew)
  | r :: rounds, _, txNew =>
    if r.fNewBlock || r.fStopped then some .stopped
    else if !r.fKernelFound then kernelSearch rounds false txNew
    else do
      let nValue ← r.input.getValue
      let nCredit := nValue + getBlockValue env.tipHeight
      match ← env.createTxOuts r.input nCredit with
      | none => kernelSearch rounds true txNew
      | some vout =>
        let txNew := { txNew with vout := splitStake nCredit (txNew.vout ++ vout) }
        if DEFAULT_BLOCK_MAX_SIZE / 5 ≤ serializeSize txNew then some .stopped
        else do
          let txNew ← env.fillBlockPayee txNew
          if r.fTxIn then some (.ended true { txNew with vin := txNew.vin ++ [r.input.txIn] })
          else kernelSearch rounds true { txNew with vin := [], vout := [] }

/-- The first output of a coinstake. -/
def marker : CTxOut := ⟨0, ([] : List UInt8), -10⟩

/-- What follows the kernel search: the inputs are signed. -/
def signCoinStake (txNew : CMutableTransaction) : KernelSearch → Bool × CMutableTransaction
  | .stopped => (false, txNew)
  | .ended fKernelFound txNew =>
    if !fKernelFound then (false, txNew)
    else if !txNew.vin.all env.canSign then (false, txNew)
    else (true, { txNew with vin := txNew.vin.mapIdx fun nIn txin => { txin with scriptSig := env.scriptSig txNew nIn } })

/-- `CreateCoinStake`: the answer and the transaction. -/
def createCoinStake (rounds : List StakeRound) (txNew : CMutableTransaction) : Option (Bool × CMutableTransaction) :=
  if rounds = [] then some (false, txNew)
  else
    let txNew := { txNew with vin := [], vout := [marker] }
    (env.kernelSearch rounds false txNew).map (env.signCoinStake txNew)

/-! ## Well-formed coinstakes -/

/-- A coinstake of an input. Its outputs are the marker, those made for this input and the masternode payment. -/
structure WellFormed (input : CPivStake) (tx : CMutableTransaction) : Prop where
  spends : ∃ scriptSig, tx.vin = [{ input.txIn with scriptSig := scriptSig }]
  marked : tx.vout.head? = some marker
  outputs : 2 ≤ tx.vout.length
  nonneg : ∀ o ∈ tx.vout, 0 ≤ o.nValue
  pays : ∃ nValue outs, input.getValue = some nValue ∧ voutValue tx.vout = nValue + getBlockValue env.tipHeight ∧
    env.createTxOuts input (nValue + getBlockValue env.tipHeight) = some (some outs) ∧
    tx.vout.map CTxOut.scriptPubKey = marker.scriptPubKey :: (outs.map CTxOut.scriptPubKey ++
      (env.masternodePayments.payeeToPay env.paymentEnv env.tipHeight).toList)

/-- Whenever a coinstake is returned, it is one of an input of the wallet. -/
def CoinStakeCorrect (rounds : List StakeRound) (txNew : CMutableTransaction) : Prop :=
  ∀ tx, env.createCoinStake rounds txNew = some (true, tx) → ∃ r ∈ rounds, env.WellFormed r.input tx

end CoinStakeEnv

/-! ## The outputs of an input -/

namespace CoinStakeEnv

variable {env : CoinStakeEnv} {input : CPivStake} {s : CScript}

/-- A script that a coinstake pays to. -/
structure Payee (s : CScript) : Prop where
  nonempty : s.bytes ≠ []
  noMint : s.isZerocoinMint = false
  short : s.bytes.length ≤ 100

theorem Payee.of_head {opcode : UInt8} {rest : List UInt8} (h : s.bytes = opcode :: rest) (hop : opcode ≠ OP_ZEROCOINMINT)
    (hlen : s.bytes.length ≤ 100) : Payee s := by
  refine ⟨by rw [h]; exact List.cons_ne_nil _ _, ?_, hlen⟩
  rw [isZerocoinMint, startsWithOpcode, h]
  simpa using hop

theorem Payee.of_pubKey {pubKey : Valtype} (h : pubKey.length ≤ 65) : Payee (push pubKey ++ [OP_CHECKSIG] : List UInt8) := by
  have hpush : push pubKey = UInt8.ofNat pubKey.length :: pubKey := by
    have h76 : OP_PUSHDATA1.toNat = 76 := rfl
    rw [push, if_pos (by omega)]
  have hbytes : (show CScript from (push pubKey ++ [OP_CHECKSIG] : List UInt8)).bytes =
      UInt8.ofNat pubKey.length :: (pubKey ++ [OP_CHECKSIG]) := by
    show push pubKey ++ [OP_CHECKSIG] = _
    rw [hpush, List.cons_append]
  apply Payee.of_head hbytes
  · intro hmint
    have hsize : UInt8.size = 256 := rfl
    have hnat : (UInt8.ofNat pubKey.length).toNat = pubKey.length := UInt8.toNat_ofNat_of_lt' (by omega)
    rw [hmint] at hnat
    have hop : OP_ZEROCOINMINT.toNat = 193 := rfl
    omega
  · rw [hbytes, List.length_cons, List.length_append]
    simp only [List.length_cons, List.length_nil]
    omega

theorem Payee.of_pubKeyScript {key : Valtype} (h : IsPubKeyScript s key) : Payee s := by
  obtain ⟨⟨hmin, hmax⟩, opcode, hparses⟩ := h
  obtain ⟨mid, hread, rest, hread', hrest⟩ := hparses
  cases hrest
  have hlen := length_le_of_getOp2 hread
  have hlen' := length_le_of_getOp2 hread'
  simp only [List.length_nil] at hlen'
  have hhead := head_of_getOp2 hread
  cases hbytes : s.bytes with
  | nil =>
    rw [hbytes] at hhead
    cases hhead
  | cons b bytes =>
    rw [hbytes] at hhead
    cases hhead
    apply Payee.of_head hbytes
    · rintro rfl
      have hkey := (eq_cons_of_getOp2 hread (by decide)).2
      rw [hkey] at hmin
      exact absurd hmin (by decide)
    · omega

theorem Payee.of_delegation {ea eb a b : List UInt8} (ha : a.length = 20) (hea : ea ∈ pushForms a) (hb : b.length = 20)
    (heb : eb ∈ pushForms b) : Payee (Solver.delegationScript ea eb) := by
  have hle {vch enc : List UInt8} (hlen : vch.length = 20) (henc : enc ∈ pushForms vch) : enc.length ≤ 25 := by
    simp only [pushForms, List.mem_cons, List.not_mem_nil, or_false] at henc
    rcases henc with rfl | rfl | rfl | rfl
    · have h76 : OP_PUSHDATA1.toNat = 76 := rfl
      rw [push, if_pos (by omega), List.length_cons]
      omega
    · simp [hlen]
    · simp [hlen]
    · simp [hlen]
  have hea' := hle ha hea
  have heb' := hle hb heb
  refine @Payee.of_head _ OP_DUP _ rfl (by decide) ?_
  have hbytes : (Solver.delegationScript ea eb).bytes = OP_DUP :: OP_HASH160 :: OP_ROT :: OP_IF :: OP_CHECKCOLDSTAKEVERIFY ::
      (ea ++ OP_ELSE :: (eb ++ [OP_ENDIF, OP_EQUALVERIFY, OP_CHECKSIG])) := rfl
  rw [hbytes]
  simp only [List.length_cons, List.length_append, List.length_nil]
  omega

theorem stakeScript_spec (h : env.stakeScript input = some (some s)) : Payee s := by
  unfold stakeScript at h
  cases hout : input.txFrom.vout[input.nPosition]? with
  | none =>
    rw [hout] at h
    cases h
  | some out =>
    rw [hout] at h
    simp only [Option.bind_eq_bind, Option.bind_some] at h
    generalize hsolver : solver out.scriptPubKey = res at h
    obtain ⟨fSolved, whichType, vSolutions⟩ := res
    cases fSolved with
    | false => cases h
    | true =>
      cases whichType with
      | TX_PUBKEYHASH =>
        obtain ⟨keyID, -, h⟩ := Option.bind_eq_some_iff.mp h
        cases hkey : env.getKey keyID with
        | none =>
          rw [hkey] at h
          cases h
        | some pubKey =>
          rw [hkey] at h
          cases h
          exact Payee.of_pubKey pubKey.2
      | TX_COLDSTAKE =>
        obtain ⟨keyID, -, h⟩ := Option.bind_eq_some_iff.mp h
        have hs : s = out.scriptPubKey := by
          cases hkey : env.getKey keyID with
          | none =>
            rw [hkey] at h
            cases h
          | some pubKey =>
            rw [hkey] at h
            cases h
            rfl
        rw [hs]
        obtain ⟨a, ea, b, eb, ha, hea, hb, heb, hs, -⟩ := (solver_coldStake_iff _ _).mp hsolver
        rw [hs]
        exact Payee.of_delegation ha hea hb heb
      | TX_PUBKEY =>
        simp only [Option.some.injEq] at h
        subst h
        obtain ⟨key, hkey, -⟩ := solver_pubKey_iff.mp hsolver
        exact Payee.of_pubKeyScript hkey
      | _ => cases h

/-! ## The division of the credit -/

variable {k : Nat} {nCredit nPayment a : Int} {vout : List CTxOut} {txNew : CMutableTransaction}

/-- Outputs of the same script: all but the last one of the same value. -/
def shares (s : CScript) (k : Nat) (nShare nLast : Int) : List CTxOut :=
  List.replicate k (paymentOut s nShare) ++ [paymentOut s nLast]

theorem voutValue_shares (s : CScript) (k : Nat) (nShare nLast : Int) :
    voutValue (shares s k nShare nLast) = k * nShare + nLast := by
  have hrepl : voutValue (List.replicate k (paymentOut s nShare)) = k * nShare := by
    rw [voutValue, List.map_replicate, List.sum_replicate, nsmul_eq_mul]
    rfl
  rw [shares, voutValue_append, hrepl]
  simp [paymentOut]

theorem scripts_shares (s : CScript) (k : Nat) (nShare nLast : Int) :
    (shares s k nShare nLast).map CTxOut.scriptPubKey = List.replicate (k + 1) s := by
  rw [shares, List.map_append, List.map_replicate, List.replicate_succ']
  rfl

/-- The marker, and the credit divided over `k + 1` outputs. -/
def divided (s : CScript) (k : Nat) (nCredit : Int) : List CTxOut :=
  marker :: shares s k (nCredit.tdiv (k + 1 : Nat)) (nCredit - nCredit.tdiv (k + 1 : Nat) * k)

theorem splitStake_marker (s : CScript) (k : Nat) (nCredit : Int) :
    splitStake nCredit (marker :: List.replicate (k + 1) (paymentOut s 0)) = divided s k nCredit := by
  have houtputs : (marker :: List.replicate (k + 1) (paymentOut s 0)).length - 1 = k + 1 := by simp
  have hremaining : (if 1 < k + 1 then nCredit - nCredit.tdiv (k + 1 : Nat) * (k + 1 - 1 : Nat) else nCredit) =
      nCredit - nCredit.tdiv (k + 1 : Nat) * k := by
    by_cases hk : 1 < k + 1
    · rw [if_pos hk, Nat.add_sub_cancel]
    · obtain rfl : k = 0 := by omega
      simp
  simp only [splitStake, houtputs, hremaining, divided]
  generalize nCredit.tdiv (k + 1 : Nat) = nShare
  generalize nCredit - nShare * k = nLast
  apply List.ext_getElem?
  intro i
  rw [List.getElem?_mapIdx]
  cases i with
  | zero => simp
  | succ i =>
    rw [List.getElem?_cons_succ, List.getElem?_cons_succ, shares]
    rcases Nat.lt_trichotomy i k with hlt | heq | hgt
    · have hrange : 1 < k + 1 ∧ 1 ≤ i + 1 ∧ i + 1 < k + 1 := by omega
      rw [List.getElem?_append_left (by simpa using hlt), List.getElem?_replicate_of_lt (by omega),
        List.getElem?_replicate_of_lt hlt, Option.map_some, if_pos hrange]
      rfl
    · subst heq
      have hrange : ¬ (1 < i + 1 ∧ 1 ≤ i + 1 ∧ i + 1 < i + 1) := by omega
      rw [List.getElem?_append_right (by simp), List.getElem?_replicate_of_lt (by omega), Option.map_some, if_neg hrange,
        if_pos rfl]
      simp [paymentOut]
    · rw [List.getElem?_eq_none (by simp; omega), List.getElem?_eq_none (by simp; omega)]
      rfl

theorem scripts_splitStake (nCredit : Int) (vout : List CTxOut) :
    (splitStake nCredit vout).map CTxOut.scriptPubKey = vout.map CTxOut.scriptPubKey := by
  simp only [splitStake]
  apply List.ext_getElem?
  intro i
  rw [List.getElem?_map, List.getElem?_mapIdx, List.getElem?_map]
  cases vout[i]? with
  | none => rfl
  | some o =>
    simp only [Option.map_some]
    split_ifs <;> rfl

/-! ## The masternode payment -/

theorem subtractLast_append (l : List CTxOut) (o : CTxOut) :
    subtractLast a (l ++ [o]) = l ++ [{ o with nValue := o.nValue - a }] := by
  induction l with
  | nil => rfl
  | cons o' l ih =>
    cases l with
    | nil => rfl
    | cons o'' l =>
      rw [List.cons_append, List.cons_append, subtractLast]
      exact congrArg (o' :: ·) ih

theorem subtractPayment_shares (s : CScript) (k : Nat) (nShare nLast : Int) :
    subtractPayment nPayment (marker :: shares s k nShare nLast) =
      marker :: shares s k (nShare - nPayment.tdiv (k + 1 : Nat))
        (nLast - nPayment.tdiv (k + 1 : Nat) - (nPayment - nPayment.tdiv (k + 1 : Nat) * (k + 1 : Nat))) := by
  cases k with
  | zero => simp [subtractPayment, shares, paymentOut]
  | succ k =>
    have hall (b : Int) : subtractAll b (shares s (k + 1) nShare nLast) = shares s (k + 1) (nShare - b) (nLast - b) := by
      simp [subtractAll, shares, paymentOut]
    have hlength : (shares s (k + 1) nShare nLast).length = k + 1 + 1 := by simp [shares]
    have hmany : subtractPayment nPayment (marker :: shares s (k + 1) nShare nLast) =
        marker :: subtractLast (nPayment - nPayment.tdiv (shares s (k + 1) nShare nLast).length *
          (shares s (k + 1) nShare nLast).length)
          (subtractAll (nPayment.tdiv (shares s (k + 1) nShare nLast).length) (shares s (k + 1) nShare nLast)) := by
      have hcons : ∃ o o' rest, shares s (k + 1) nShare nLast = o :: o' :: rest := by
        cases k with
        | zero => exact ⟨_, _, _, rfl⟩
        | succ k => exact ⟨_, _, _, rfl⟩
      obtain ⟨o, o', rest, hshares⟩ := hcons
      rw [hshares]
      rfl
    rw [hmany, hlength, hall, shares, subtractLast_append]
    rfl

theorem scripts_subtractPayment (vout : List CTxOut) :
    (subtractPayment nPayment vout).map CTxOut.scriptPubKey = vout.map CTxOut.scriptPubKey := by
  have hlast (b : Int) (l : List CTxOut) : (subtractLast b l).map CTxOut.scriptPubKey = l.map CTxOut.scriptPubKey := by
    rcases List.eq_nil_or_concat l with rfl | ⟨l, o, rfl⟩
    · rfl
    · rw [List.concat_eq_append, subtractLast_append]
      simp
  unfold subtractPayment
  split
  · rfl
  · split
    · rfl
    · rfl
    · simp [hlast, subtractAll, Function.comp_def]

theorem shares_nonneg {n : Int} (hn : 1 ≤ n) (hn' : n ≤ 48) (hpos : 0 ≤ nPayment) (hle : nPayment + 48 * 48 ≤ nCredit) :
    0 ≤ nCredit.tdiv n - nPayment.tdiv n ∧
      0 ≤ nCredit - nCredit.tdiv n * (n - 1) - nPayment.tdiv n - (nPayment - nPayment.tdiv n * n) := by
  have hcredit : nCredit.tdiv n = nCredit / n := Int.tdiv_eq_ediv_of_nonneg (by omega)
  have hpayment : nPayment.tdiv n = nPayment / n := Int.tdiv_eq_ediv_of_nonneg hpos
  rw [hcredit, hpayment]
  have h1 := Int.mul_ediv_add_emod nCredit n
  have h2 := Int.mul_ediv_add_emod nPayment n
  have h3 := Int.emod_nonneg nCredit (by omega : n ≠ 0)
  have h4 := Int.emod_nonneg nPayment (by omega : n ≠ 0)
  have h5 := Int.emod_lt_of_pos nCredit (by omega : 0 < n)
  have h6 := Int.emod_lt_of_pos nPayment (by omega : 0 < n)
  generalize nCredit / n = q at *
  generalize nPayment / n = r at *
  generalize nCredit % n = u at *
  generalize nPayment % n = v at *
  -- the shares are 47 apart, more than the remainder of the payment
  have hgap : 47 ≤ q - r := by
    by_contra hlt
    have hmul : n * (q - r) ≤ n * 46 := Int.mul_le_mul_of_nonneg_left (by omega) (by omega)
    have hdist : n * (q - r) = n * q - n * r := Int.mul_sub n q r
    omega
  have hq : q * (n - 1) = n * q - q := by
    rw [Int.mul_sub, Int.mul_one, Int.mul_comm]
  have hr : r * n = n * r := Int.mul_comm r n
  rw [hq, hr]
  omega

/-! ## A completed attempt -/

theorem length_writeCompactSize_le (n : Nat) : (writeCompactSize n).length ≤ 9 := by
  unfold writeCompactSize
  split_ifs <;> simp

theorem serializeSize_lt {vout : List CTxOut} (hcount : vout.length ≤ 49)
    (hscripts : ∀ s ∈ vout.map CTxOut.scriptPubKey, CScript.bytes s = [] ∨ Payee s) (hvin : txNew.vin = []) :
    serializeSize { txNew with vout := vout } < DEFAULT_BLOCK_MAX_SIZE / 5 := by
  have hone : ∀ o ∈ vout, o.serialize.length ≤ 117 := by
    intro o ho
    have hlen : o.scriptPubKey.bytes.length ≤ 100 := by
      rcases hscripts o.scriptPubKey (List.mem_map_of_mem ho) with hnil | hpayee
      · rw [hnil]
        exact Nat.zero_le _
      · exact hpayee.short
    have hcompact := length_writeCompactSize_le o.scriptPubKey.bytes.length
    rw [CTxOut.serialize, CScript.serialize, List.length_append, List.length_append, length_leBytes]
    omega
  have hsum : (vout.flatMap CTxOut.serialize).length ≤ 117 * vout.length := by
    clear hcount hscripts
    induction vout with
    | nil => simp
    | cons o vout ih =>
      have hfirst := hone o List.mem_cons_self
      have hrest := ih fun o' ho' => hone o' (List.mem_cons_of_mem _ ho')
      rw [List.flatMap_cons, List.length_append, List.length_cons]
      omega
  have hlimit : DEFAULT_BLOCK_MAX_SIZE / 5 = 150000 := rfl
  have hin := length_writeCompactSize_le 0
  have hout := length_writeCompactSize_le vout.length
  rw [serializeSize, CTransaction.serialize, hvin]
  simp only [writeVector, List.length_append, writeInt32, length_leBytes, List.flatMap_nil, List.length_nil]
  omega

theorem fillBlockPayee_scripts (hbudget : env.budgetDue = false) (hne : txNew.vout ≠ []) :
    ∃ vout, env.fillBlockPayee txNew = some { txNew with vout := vout } ∧ vout.map CTxOut.scriptPubKey =
      txNew.vout.map CTxOut.scriptPubKey ++ (env.masternodePayments.payeeToPay env.paymentEnv env.tipHeight).toList := by
  rw [fillBlockPayee, hbudget]
  simp only [Bool.false_eq_true, if_false, CMasternodePayments.fillBlockPayee]
  cases env.masternodePayments.payeeToPay env.paymentEnv env.tipHeight with
  | none => exact ⟨txNew.vout, rfl, by simp⟩
  | some payee =>
    simp only [if_true]
    cases hsecond : (txNew.vout ++ [paymentOut payee (getMasternodePayment env.tipHeight (getBlockValue env.tipHeight) 0)])[1]?
      with
    | none =>
      have hlen := List.getElem?_eq_none_iff.mp hsecond
      have hpos := List.length_pos_iff.mpr hne
      rw [List.length_append, List.length_singleton] at hlen
      omega
    | some o =>
      refine ⟨_, rfl, ?_⟩
      rw [List.map_append]
      cases o.isZerocoinMint with
      | true => rfl
      | false =>
        simp only [Bool.false_eq_true, if_false, scripts_subtractPayment]
        rfl

theorem masternodePayment_le (nHeight : Int) :
    getMasternodePayment nHeight (getBlockValue nHeight) 0 + 48 * 48 ≤ getBlockValue nHeight := by
  unfold getMasternodePayment getBlockValue
  split_ifs <;> decide

theorem fillBlockPayee_shares (hbudget : env.budgetDue = false) (hs : Payee s) (hk : k < 48)
    (hcredit : getBlockValue env.tipHeight ≤ nCredit) :
    ∃ vout, env.fillBlockPayee { txNew with vout := divided s k nCredit } = some { txNew with vout := vout } ∧
      vout.head? = some marker ∧ 2 ≤ vout.length ∧ (∀ o ∈ vout, 0 ≤ o.nValue) ∧ voutValue vout = nCredit ∧
      vout.map CTxOut.scriptPubKey = marker.scriptPubKey :: (List.replicate (k + 1) s ++
        (env.masternodePayments.payeeToPay env.paymentEnv env.tipHeight).toList) := by
  have hpayment := getMasternodePayment_nonneg env.tipHeight
  have hleaves := masternodePayment_le env.tipHeight
  rw [fillBlockPayee, hbudget]
  simp only [Bool.false_eq_true, if_false, CMasternodePayments.fillBlockPayee, divided]
  generalize hM : getMasternodePayment env.tipHeight (getBlockValue env.tipHeight) 0 = nPayment at *
  have hnonneg {nShare nLast : Int} (hshare : 0 ≤ nShare) (hlast : 0 ≤ nLast) :
      ∀ o ∈ marker :: shares s k nShare nLast, 0 ≤ o.nValue := by
    intro o ho
    rcases List.mem_cons.mp ho with rfl | ho
    · exact le_rfl
    · rcases List.mem_append.mp ho with ho | ho
      · rw [List.eq_of_mem_replicate ho]
        exact hshare
      · rw [List.mem_singleton.mp ho]
        exact hlast
  have hlength (nShare nLast : Int) : 2 ≤ (marker :: shares s k nShare nLast).length := by simp [shares]
  have hscripts (nShare nLast : Int) : (marker :: shares s k nShare nLast).map CTxOut.scriptPubKey =
      marker.scriptPubKey :: List.replicate (k + 1) s := by rw [List.map_cons, scripts_shares]
  have hvalue (nShare nLast : Int) : voutValue (marker :: shares s k nShare nLast) = k * nShare + nLast := by
    rw [voutValue_cons, voutValue_shares]
    exact zero_add _
  have hk' : ((k + 1 : Nat) : Int) = k + 1 := by push_cast; rfl
  obtain ⟨hshare, hlast⟩ := @shares_nonneg nCredit nPayment (k + 1 : Nat) (by omega) (by omega) hpayment (by omega)
  obtain ⟨hshare0, hlast0⟩ := @shares_nonneg nCredit 0 (k + 1 : Nat) (by omega) (by omega) le_rfl (by omega)
  have hminus : ((k + 1 : Nat) : Int) - 1 = k := by omega
  rw [hminus] at hlast hlast0
  simp only [Int.zero_tdiv, Int.sub_zero, Int.zero_mul] at hshare0 hlast0
  have hcomm (x : Int) : k * x = x * k := Int.mul_comm _ _
  cases env.masternodePayments.payeeToPay env.paymentEnv env.tipHeight with
  | none =>
    refine ⟨_, rfl, rfl, hlength _ _, hnonneg hshare0 hlast0, ?_, ?_⟩
    · rw [hvalue, hcomm]
      omega
    · rw [hscripts]
      simp
  | some payee =>
    have hsecond : ∃ o, (marker :: shares s k (nCredit.tdiv (k + 1 : Nat)) (nCredit - nCredit.tdiv (k + 1 : Nat) * k) ++
        [paymentOut payee nPayment])[1]? = some o ∧ o.isZerocoinMint = false := by
      cases k with
      | zero => exact ⟨_, rfl, hs.noMint⟩
      | succ k => exact ⟨_, rfl, hs.noMint⟩
    obtain ⟨o, ho, hmint⟩ := hsecond
    simp only [if_true, ho, hmint, Bool.false_eq_true, if_false, subtractPayment_shares]
    refine ⟨_, rfl, rfl, ?_, ?_, ?_, ?_⟩
    · rw [List.length_append]
      exact (hlength _ _).trans (Nat.le_add_right _ _)
    · intro o' ho'
      rcases List.mem_append.mp ho' with ho' | ho'
      · exact hnonneg hshare hlast o' ho'
      · rw [List.mem_singleton.mp ho']
        exact hpayment
    · rw [voutValue_append, hvalue]
      have hpaid : voutValue [paymentOut payee nPayment] = nPayment := by simp [paymentOut]
      rw [hpaid, Int.mul_sub, hcomm, hcomm, hk', Int.mul_add, Int.mul_one]
      omega
    · rw [List.map_append, hscripts]
      rfl

/-! ## Attempts -/

/-- The search is cut short. -/
def stops (r : StakeRound) : Bool := r.fNewBlock || r.fStopped

/-- `CreateTxOuts` succeeds. -/
def makesOuts (env : CoinStakeEnv) (r : StakeRound) : Bool :=
  match env.stakeScript r.input with
  | some (some _) => true
  | _ => false

/-- A kernel hit with its outputs and its input made. -/
def completes (env : CoinStakeEnv) (r : StakeRound) : Bool := r.fKernelFound && env.makesOuts r && r.fTxIn

/-- A kernel hit whose outputs are made, but not its input. -/
def losesMarker (env : CoinStakeEnv) (r : StakeRound) : Bool := r.fKernelFound && env.makesOuts r && !r.fTxIn

/-- The input spends an output that exists, and whose value is not negative. -/
def Stakeable (input : CPivStake) : Prop := ∃ out, input.txFrom.vout[input.nPosition]? = some out ∧ 0 ≤ out.nValue

/-- The transaction between two attempts: with the marker, or with no output. -/
def between (txNew : CMutableTransaction) (marked : Bool) : CMutableTransaction :=
  { txNew with vin := [], vout := if marked then [marker] else [] }

variable {r : StakeRound} {rounds pre post : List StakeRound} {marked fKernelFound : Bool}

theorem exists_stakeScript (h : Stakeable input) (env : CoinStakeEnv) : ∃ script, env.stakeScript input = some script := by
  obtain ⟨out, hout, -⟩ := h
  unfold stakeScript
  rw [hout]
  simp only [Option.bind_eq_bind, Option.bind_some]
  have hkey {hash : Valtype} (hlen : hash.length = 20) : ∃ keyID, uint160 hash = some keyID := ⟨_, if_pos hlen⟩
  generalize hsolver : solver out.scriptPubKey = res
  obtain ⟨fSolved, whichType, vSolutions⟩ := res
  cases fSolved with
  | false => exact ⟨none, rfl⟩
  | true =>
    cases whichType with
    | TX_PUBKEYHASH =>
      obtain ⟨hash, hscript, rfl⟩ := solver_pubKeyHash_iff.mp hsolver
      obtain ⟨keyID, hkeyID⟩ := hkey hscript.1
      exact ⟨_, by simp only [List.getElem?_cons_zero, Option.bind_some, hkeyID]; rfl⟩
    | TX_COLDSTAKE =>
      obtain ⟨a, ea, b, eb, ha, -, -, -, -, rfl⟩ := (solver_coldStake_iff _ _).mp hsolver
      obtain ⟨keyID, hkeyID⟩ := hkey ha
      exact ⟨_, by simp only [List.getElem?_cons_zero, Option.bind_some, hkeyID]; rfl⟩
    | TX_PUBKEY => exact ⟨_, rfl⟩
    | _ => exact ⟨none, rfl⟩

theorem splitCount_bounds (env : CoinStakeEnv) (nTotal : Int) : ∃ k < 48, env.splitCount nTotal = k + 1 := by
  have hmax : MAX_STANDARD_TX_SIZE / 2 ^ 11 = 48 := rfl
  unfold splitCount
  simp only [hmax]
  generalize (nTotal.tdiv env.nStakeSplitThreshold).bmod (2 ^ 32) = nSplit
  split_ifs with h1 h2
  · exact ⟨min nSplit.toNat 48 - 1, by omega, by omega⟩
  · exact ⟨0, by omega, rfl⟩
  · exact ⟨0, by omega, rfl⟩

theorem scripts_attempt (s : CScript) (nCredit : Int) (n : Nat) (marked : Bool) :
    (splitStake nCredit ((if marked then [marker] else []) ++ List.replicate n (paymentOut s 0))).map CTxOut.scriptPubKey =
      (if marked then [marker.scriptPubKey] else []) ++ List.replicate n s := by
  rw [scripts_splitStake, List.map_append, List.map_replicate]
  cases marked with
  | true => rfl
  | false => rfl

theorem kernelSearch_made (hbudget : env.budgetDue = false) (hstake : Stakeable r.input) (hgo : stops r = false)
    (hhit : r.fKernelFound = true) (hscript : env.stakeScript r.input = some (some s)) (txNew : CMutableTransaction)
    (marked fKernelFound : Bool) (rounds : List StakeRound) :
    ∃ nValue k vout, r.input.getValue = some nValue ∧ 0 ≤ nValue ∧ k < 48 ∧
      env.createTxOuts r.input (nValue + getBlockValue env.tipHeight) = some (some (List.replicate (k + 1) (paymentOut s 0))) ∧
      env.fillBlockPayee { between txNew marked with vout := (splitStake (nValue + getBlockValue env.tipHeight)
        ((if marked then [marker] else []) ++ List.replicate (k + 1) (paymentOut s 0))) } =
        some { between txNew marked with vout := vout } ∧
      vout.map CTxOut.scriptPubKey = (if marked then [marker.scriptPubKey] else []) ++ List.replicate (k + 1) s ++
        (env.masternodePayments.payeeToPay env.paymentEnv env.tipHeight).toList ∧
      env.kernelSearch (r :: rounds) fKernelFound (between txNew marked) =
        if r.fTxIn then some (.ended true { between txNew marked with vin := [r.input.txIn], vout := vout })
        else env.kernelSearch rounds true (between txNew false) := by
  obtain ⟨out, hout, hnonneg⟩ := hstake
  have hvalue : r.input.getValue = some out.nValue := by rw [CPivStake.getValue, hout, Option.map_some]
  obtain ⟨k, hk, hcount⟩ := splitCount_bounds env (out.nValue + getBlockValue env.tipHeight)
  have houts : env.createTxOuts r.input (out.nValue + getBlockValue env.tipHeight) =
      some (some (List.replicate (k + 1) (paymentOut s 0))) := by
    rw [createTxOuts, hscript, hcount]
    rfl
  have hscripts := scripts_attempt s (out.nValue + getBlockValue env.tipHeight) (k + 1) marked
  generalize hsplit : splitStake (out.nValue + getBlockValue env.tipHeight)
    ((if marked then [marker] else []) ++ List.replicate (k + 1) (paymentOut s 0)) = split at hscripts
  have hlength : split.length = (if marked then [marker.scriptPubKey] else []).length + (k + 1) := by
    rw [← List.length_map CTxOut.scriptPubKey, hscripts, List.length_append, List.length_replicate]
  have hmarkers : (if marked then [marker.scriptPubKey] else []).length ≤ 1 := by
    cases marked with
    | true => exact le_rfl
    | false => exact Nat.zero_le _
  have hsmall : serializeSize { between txNew marked with vout := split } < DEFAULT_BLOCK_MAX_SIZE / 5 := by
    apply serializeSize_lt (by omega) ?_ rfl
    intro s' hs'
    rw [hscripts] at hs'
    rcases List.mem_append.mp hs' with hs' | hs'
    · cases marked with
      | true =>
        rw [List.mem_singleton.mp hs']
        exact .inl rfl
      | false => cases hs'
    · rw [List.eq_of_mem_replicate hs']
      exact .inr (stakeScript_spec hscript)
  have hne : split ≠ [] := by
    intro hnil
    rw [hnil] at hlength
    simp at hlength
  obtain ⟨vout, hfill, hfilled⟩ := @fillBlockPayee_scripts env { between txNew marked with vout := split } hbudget hne
  rw [hscripts] at hfilled
  refine ⟨out.nValue, k, vout, hvalue, hnonneg, hk, houts, by rw [hsplit]; exact hfill, hfilled, ?_⟩
  have hgo' : (r.fNewBlock || r.fStopped) = false := hgo
  rw [kernelSearch, hgo', hhit, hvalue]
  simp only [Bool.false_eq_true, if_false, Bool.not_true, Option.bind_eq_bind, Option.bind_some, houts]
  have hvout : (between txNew marked).vout = if marked then [marker] else [] := rfl
  rw [hvout, hsplit, if_neg (Nat.not_le.mpr hsmall), hfill]
  simp only [Option.bind_some]
  split
  · rfl
  · rfl

theorem kernelSearch_attempt (hbudget : env.budgetDue = false) (hstake : Stakeable r.input) (hgo : stops r = false)
    (hfail : env.completes r = false) (txNew : CMutableTransaction) (marked fKernelFound : Bool) (rounds : List StakeRound) :
    env.kernelSearch (r :: rounds) fKernelFound (between txNew marked) =
      env.kernelSearch rounds r.fKernelFound (between txNew (marked && !env.losesMarker r)) := by
  obtain ⟨script, hscript⟩ := exists_stakeScript hstake env
  have hgo' : (r.fNewBlock || r.fStopped) = false := hgo
  cases hhit : r.fKernelFound with
  | false =>
    rw [kernelSearch, hgo', hhit, losesMarker, hhit]
    simp
  | true =>
    cases script with
    | none =>
      obtain ⟨out, hout, -⟩ := hstake
      have hvalue : r.input.getValue = some out.nValue := by rw [CPivStake.getValue, hout, Option.map_some]
      have houts (nTotal : Int) : env.createTxOuts r.input nTotal = some none := by
        rw [createTxOuts, hscript]
        rfl
      have hkeeps : env.losesMarker r = false := by simp [losesMarker, makesOuts, hscript]
      rw [kernelSearch, hgo', hhit, hvalue, hkeeps, Bool.not_false, Bool.and_true]
      simp only [Bool.false_eq_true, if_false, Bool.not_true, Option.bind_eq_bind, Option.bind_some, houts]
    | some s =>
      have hmakes : env.makesOuts r = true := by rw [makesOuts, hscript]
      have hin : r.fTxIn = false := by simpa [completes, hhit, hmakes] using hfail
      obtain ⟨nValue, k, vout, -, -, -, -, -, -, hsearch⟩ :=
        kernelSearch_made hbudget hstake hgo hhit hscript txNew marked fKernelFound rounds
      have hloses : env.losesMarker r = true := by rw [losesMarker, hhit, hmakes, hin]; rfl
      rw [hsearch, hin, hloses]
      simp

theorem kernelSearch_attempts (hbudget : env.budgetDue = false) (txNew : CMutableTransaction) (rounds : List StakeRound) :
    ∀ (pre : List StakeRound) (marked fKernelFound : Bool), (∀ r ∈ pre, Stakeable r.input) →
      (∀ r ∈ pre, stops r = false ∧ env.completes r = false) →
      env.kernelSearch (pre ++ rounds) fKernelFound (between txNew marked) =
        env.kernelSearch rounds ((pre.getLast?.map StakeRound.fKernelFound).getD fKernelFound)
          (between txNew (marked && !pre.any env.losesMarker))
  | [], marked, fKernelFound, _, _ => by simp
  | r :: pre, marked, fKernelFound, hstake, hfail => by
    obtain ⟨hgo, hnot⟩ := hfail r List.mem_cons_self
    rw [List.cons_append, kernelSearch_attempt hbudget (hstake r List.mem_cons_self) hgo hnot,
      kernelSearch_attempts hbudget txNew rounds pre _ _ (fun r hr => hstake r (List.mem_cons_of_mem _ hr))
        fun r hr => hfail r (List.mem_cons_of_mem _ hr)]
    have hlast : (((r :: pre).getLast?.map StakeRound.fKernelFound).getD fKernelFound) =
        (pre.getLast?.map StakeRound.fKernelFound).getD r.fKernelFound := by
      rw [List.getLast?_cons]
      cases pre.getLast? with
      | none => rfl
      | some last => rfl
    rw [hlast, List.any_cons, Bool.not_or, Bool.and_assoc]

theorem exists_end (env : CoinStakeEnv) : ∀ rounds : List StakeRound,
    (∀ r ∈ rounds, stops r = false ∧ env.completes r = false) ∨
    ∃ pre r post, rounds = pre ++ r :: post ∧ (∀ r ∈ pre, stops r = false ∧ env.completes r = false) ∧
      ¬ (stops r = false ∧ env.completes r = false)
  | [] => .inl fun r hr => by cases hr
  | r :: rounds => by
    by_cases hr : stops r = false ∧ env.completes r = false
    · rcases exists_end env rounds with hall | ⟨pre, r', post, rfl, hpre, hend⟩
      · left
        intro r' hr'
        rcases List.mem_cons.mp hr' with rfl | hr'
        · exact hr
        · exact hall r' hr'
      · refine .inr ⟨r :: pre, r', post, rfl, fun x hx => ?_, hend⟩
        rcases List.mem_cons.mp hx with rfl | hx
        · exact hr
        · exact hpre x hx
    · exact .inr ⟨[], r, rounds, rfl, fun x hx => (by cases hx), hr⟩

/-! ## When the coinstake is right -/

/-- The search does not end with a failed attempt, and an input is made for each attempt whose outputs are made before one
that completes the coinstake. -/
structure Fits (env : CoinStakeEnv) (rounds : List StakeRound) : Prop where
  last : ∀ pre r, rounds = pre ++ [r] → (∀ r ∈ pre, stops r = false ∧ env.completes r = false) → stops r = false →
    r.fKernelFound = true → env.completes r = true
  marker : ∀ pre r post, rounds = pre ++ r :: post → (∀ r ∈ pre, stops r = false ∧ env.completes r = false) →
    stops r = false → env.completes r = true → env.canSign r.input.txIn = true → ∀ r ∈ pre, env.losesMarker r = false

variable {tx : CMutableTransaction}

theorem createCoinStake_eq (hne : rounds ≠ []) (txNew : CMutableTransaction) : env.createCoinStake rounds txNew =
    (env.kernelSearch rounds false (between txNew true)).map (env.signCoinStake (between txNew true)) := if_neg hne

theorem kernelSearch_completed (hbudget : env.budgetDue = false) (hstake : ∀ x ∈ pre ++ r :: post, Stakeable x.input)
    (hpre : ∀ x ∈ pre, stops x = false ∧ env.completes x = false) (hgo : stops r = false)
    (hcompletes : env.completes r = true) (txNew : CMutableTransaction) :
    ∃ s nValue k vout, Payee s ∧ r.input.getValue = some nValue ∧ 0 ≤ nValue ∧ k < 48 ∧
      env.createTxOuts r.input (nValue + getBlockValue env.tipHeight) = some (some (List.replicate (k + 1) (paymentOut s 0))) ∧
      env.fillBlockPayee { between txNew (!pre.any env.losesMarker) with vout :=
        (splitStake (nValue + getBlockValue env.tipHeight) ((if !pre.any env.losesMarker then [marker] else []) ++
          List.replicate (k + 1) (paymentOut s 0))) } =
        some { between txNew (!pre.any env.losesMarker) with vout := vout } ∧
      vout.map CTxOut.scriptPubKey = (if !pre.any env.losesMarker then [marker.scriptPubKey] else []) ++
        List.replicate (k + 1) s ++ (env.masternodePayments.payeeToPay env.paymentEnv env.tipHeight).toList ∧
      env.kernelSearch (pre ++ r :: post) false (between txNew true) =
        some (.ended true { txNew with vin := [r.input.txIn], vout := vout }) := by
  have hr := hstake r (List.mem_append_right _ List.mem_cons_self)
  simp only [completes, Bool.and_eq_true] at hcompletes
  obtain ⟨⟨hhit, hmakes⟩, hin⟩ := hcompletes
  obtain ⟨script, hscript⟩ := exists_stakeScript hr env
  cases script with
  | none =>
    rw [makesOuts, hscript] at hmakes
    cases hmakes
  | some s =>
    have hattempts := kernelSearch_attempts hbudget txNew (r :: post) pre true false
      (fun x hx => hstake x (List.mem_append_left _ hx)) hpre
    obtain ⟨nValue, k, vout, hvalue, hnonneg, hk, houts, hfill, hscripts, hsearch⟩ :=
      kernelSearch_made hbudget hr hgo hhit hscript txNew (!pre.any env.losesMarker)
        ((pre.getLast?.map StakeRound.fKernelFound).getD false) post
    rw [Bool.true_and, hsearch, hin, if_pos rfl] at hattempts
    exact ⟨s, nValue, k, vout, stakeScript_spec hscript, hvalue, hnonneg, hk, houts, hfill, hscripts, hattempts⟩

theorem createCoinStake_failed (hne : rounds ≠ []) (hbudget : env.budgetDue = false)
    (hstake : ∀ r ∈ rounds, Stakeable r.input) (hfail : ∀ r ∈ rounds, stops r = false ∧ env.completes r = false) (txNew : CMutableTransaction) :
    ∃ tx, tx.vin = [] ∧ env.createCoinStake rounds txNew =
      some ((rounds.getLast?.map StakeRound.fKernelFound).getD false, tx) := by
  have hattempts := kernelSearch_attempts hbudget txNew [] rounds true false hstake hfail
  rw [List.append_nil] at hattempts
  rw [createCoinStake_eq hne, hattempts]
  simp only [kernelSearch, Option.map_some, signCoinStake]
  cases (rounds.getLast?.map StakeRound.fKernelFound).getD false with
  | false => exact ⟨_, rfl, rfl⟩
  | true => exact ⟨_, rfl, rfl⟩

theorem CoinStakeCorrect.last (hcorrect : env.CoinStakeCorrect (pre ++ [r]) txNew) (hbudget : env.budgetDue = false)
    (hstake : ∀ x ∈ pre ++ [r], Stakeable x.input) (hpre : ∀ x ∈ pre, stops x = false ∧ env.completes x = false)
    (hgo : stops r = false) (hhit : r.fKernelFound = true) : env.completes r = true := by
  by_contra hnot
  have hfail : ∀ x ∈ pre ++ [r], stops x = false ∧ env.completes x = false := by
    intro x hx
    rcases List.mem_append.mp hx with hx | hx
    · exact hpre x hx
    · rw [List.mem_singleton.mp hx]
      exact ⟨hgo, eq_false_of_ne_true hnot⟩
  obtain ⟨tx, hvin, hcreate⟩ := createCoinStake_failed (by simp) hbudget hstake hfail txNew
  rw [List.getLast?_append, List.getLast?_singleton, Option.some_or, Option.map_some, Option.getD_some, hhit] at hcreate
  obtain ⟨r', -, hwell⟩ := hcorrect tx hcreate
  obtain ⟨scriptSig, hspends⟩ := hwell.spends
  rw [hvin] at hspends
  cases hspends

theorem CoinStakeCorrect.marker_kept (hcorrect : env.CoinStakeCorrect (pre ++ r :: post) txNew) (hbudget : env.budgetDue = false)
    (hstake : ∀ x ∈ pre ++ r :: post, Stakeable x.input) (hpre : ∀ x ∈ pre, stops x = false ∧ env.completes x = false)
    (hgo : stops r = false) (hcompletes : env.completes r = true) (hsign : env.canSign r.input.txIn = true) :
    ∀ x ∈ pre, env.losesMarker x = false := by
  intro x hx
  by_contra hlose
  have hany : pre.any env.losesMarker = true := List.any_eq_true.mpr ⟨x, hx, eq_true_of_ne_false hlose⟩
  obtain ⟨s, nValue, k, vout, hs, -, -, -, -, -, hscripts, hsearch⟩ :=
    kernelSearch_completed hbudget hstake hpre hgo hcompletes txNew
  obtain ⟨r', -, hwell⟩ := hcorrect { txNew with
      vin := [{ r.input.txIn with scriptSig := env.scriptSig { txNew with vin := [r.input.txIn], vout := vout } 0 }]
      vout := vout } (by
    rw [createCoinStake_eq (by simp), hsearch, Option.map_some, signCoinStake]
    simp [hsign])
  -- the first output is one of the input's
  have hfirst : (vout.map CTxOut.scriptPubKey).head? = some s := by
    rw [hscripts, hany]
    rfl
  have hmarked : vout.head? = some marker := hwell.marked
  rw [List.head?_map, hmarked, Option.map_some, Option.some.injEq] at hfirst
  apply hs.nonempty
  rw [← hfirst]
  rfl

theorem Fits.no_hit (hfits : env.Fits rounds) (hne : rounds ≠ [])
    (hfail : ∀ r ∈ rounds, stops r = false ∧ env.completes r = false) :
    (rounds.getLast?.map StakeRound.fKernelFound).getD false = false := by
  rcases List.eq_nil_or_concat rounds with hnil | ⟨pre, r, hconcat⟩
  · exact absurd hnil hne
  · rw [List.concat_eq_append] at hconcat
    subst hconcat
    obtain ⟨hgo, hnot⟩ := hfail r (List.mem_append_right _ List.mem_cons_self)
    rw [List.getLast?_append, List.getLast?_singleton, Option.some_or, Option.map_some, Option.getD_some]
    apply eq_false_of_ne_true
    intro hhit
    have hcompletes := hfits.last pre r rfl (fun x hx => hfail x (List.mem_append_left _ hx)) hgo hhit
    rw [hnot] at hcompletes
    cases hcompletes

theorem wellFormed_completed (hbudget : env.budgetDue = false) (hstake : ∀ x ∈ pre ++ r :: post, Stakeable x.input)
    (hpre : ∀ x ∈ pre, stops x = false ∧ env.completes x = false) (hgo : stops r = false)
    (hcompletes : env.completes r = true)
    (hkept : env.canSign r.input.txIn = true → ∀ x ∈ pre, env.losesMarker x = false)
    (hcreate : env.createCoinStake (pre ++ r :: post) txNew = some (true, tx)) : env.WellFormed r.input tx := by
  obtain ⟨s, nValue, k, vout, hs, hvalue, hnonneg, hk, houts, hfill, hscripts, hsearch⟩ :=
    kernelSearch_completed hbudget hstake hpre hgo hcompletes txNew
  rw [createCoinStake_eq (by simp), hsearch, Option.map_some, signCoinStake, Option.some.injEq] at hcreate
  simp only [Bool.not_true, Bool.false_eq_true, if_false, List.all_cons, List.all_nil, Bool.and_true] at hcreate
  cases hsign : env.canSign r.input.txIn with
  | false =>
    rw [hsign] at hcreate
    cases hcreate
  | true =>
    rw [hsign] at hcreate
    cases hcreate
    have hany : pre.any env.losesMarker = false := by
      rw [List.any_eq_false]
      intro x hx hlose
      rw [hkept hsign x hx] at hlose
      cases hlose
    rw [hany] at hfill
    obtain ⟨vout', hfill', hmarked, hlength, hvalues, hsum, hscripts'⟩ :=
      @fillBlockPayee_shares env s k (nValue + getBlockValue env.tipHeight) (between txNew true) hbudget hs hk (by omega)
    rw [← splitStake_marker] at hfill'
    have hsame : vout' = vout := by
      have heq := hfill'.symm.trans hfill
      rw [Option.some.injEq, CMutableTransaction.mk.injEq] at heq
      exact heq.2.2.1
    subst hsame
    refine ⟨⟨_, rfl⟩, hmarked, hlength, hvalues, nValue, _, hvalue, hsum, houts, ?_⟩
    rw [hscripts', List.map_replicate]
    rfl

/-- The coinstake is well formed whenever it is returned, exactly when the search does not end with a failed attempt and no
attempt before the one that completes it has lost the marker. -/
theorem coinStake_correct_iff (env : CoinStakeEnv) (rounds : List StakeRound) (txNew : CMutableTransaction)
    (hbudget : env.budgetDue = false) (hstake : ∀ r ∈ rounds, Stakeable r.input) :
    env.CoinStakeCorrect rounds txNew ↔ env.Fits rounds := by
  constructor
  · intro hcorrect
    refine ⟨?_, ?_⟩
    · rintro pre r rfl hpre hgo hhit
      exact hcorrect.last hbudget hstake hpre hgo hhit
    · rintro pre r post rfl hpre hgo hcompletes hsign
      exact hcorrect.marker_kept hbudget hstake hpre hgo hcompletes hsign
  · intro hfits tx hcreate
    by_cases hne : rounds = []
    · rw [createCoinStake, if_pos hne] at hcreate
      cases hcreate
    rcases exists_end env rounds with hfail | ⟨pre, r, post, rfl, hpre, hend⟩
    · obtain ⟨tx', -, hcreate'⟩ := createCoinStake_failed hne hbudget hstake hfail txNew
      rw [hcreate', hfits.no_hit hne hfail] at hcreate
      cases hcreate
    · cases hgo : stops r with
      | true =>
        have hattempts := kernelSearch_attempts hbudget txNew (r :: post) pre true false
          (fun r hr => hstake r (List.mem_append_left _ hr)) hpre
        have hstop : (r.fNewBlock || r.fStopped) = true := hgo
        rw [kernelSearch, hstop, if_pos rfl] at hattempts
        rw [createCoinStake_eq hne, hattempts] at hcreate
        cases hcreate
      | false =>
        have hcompletes : env.completes r = true := by simpa [hgo] using hend
        refine ⟨r, List.mem_append_right _ List.mem_cons_self, ?_⟩
        exact wellFormed_completed hbudget hstake hpre hgo hcompletes (hfits.marker pre r post rfl hpre hgo hcompletes) hcreate

/-- A coin of a script hash: a kernel hit whose outputs `CreateTxOuts` does not make. -/
def scriptHashRound : StakeRound where
  input := ⟨⟨7, 1, [], [paymentOut (OP_HASH160 :: push (List.replicate 20 0) ++ [CScriptCompressor.OP_EQUAL] : List UInt8) 5], 0⟩, 0, none⟩
  fNewBlock := false
  fStopped := false
  fKernelFound := true
  fTxIn := true

/-- A wallet without keys, and no votes for payments. -/
def keylessEnv : CoinStakeEnv where
  nStakeSplitThreshold := 0
  getKey := fun _ => none
  canSign := fun _ => true
  scriptSig := fun _ _ => ([] : List UInt8)
  tipHeight := 1000
  enableSuperblocks := false
  budget := ⟨[], 0⟩
  paymentEnv := ⟨true, 0, 0, 20, none⟩
  masternodePayments := .empty

/-- A coin of a key. -/
def pubKeyHashRound : StakeRound :=
  { scriptHashRound with
    input := ⟨⟨8, 1, [], [paymentOut (OP_DUP :: OP_HASH160 :: push (List.replicate 20 0) ++ [OP_EQUALVERIFY, OP_CHECKSIG] : List UInt8)
      (9 * COIN)], 0⟩, 0, none⟩ }

/-- A wallet with the key, that splits its stakes, and a masternode to pay. -/
def keyEnv : CoinStakeEnv :=
  { keylessEnv with
    nStakeSplitThreshold := 60 * COIN
    getKey := fun _ => some ⟨2 :: List.replicate 32 0, by decide⟩
    paymentEnv := ⟨true, 1, 1, 20, some ([OP_DUP, OP_HASH160] : List UInt8)⟩ }

/-- A hit without outputs, a miss, and a hit that completes the coinstake. -/
def threeRounds : List StakeRound := [scriptHashRound, { pubKeyHashRound with fKernelFound := false }, pubKeyHashRound]

theorem fits_threeRounds : keyEnv.Fits threeRounds := by
  refine ⟨fun pre r hrounds _ _ _ => ?_, fun pre r post hrounds _ _ _ _ x hx => ?_⟩
  · have hlast : threeRounds.getLast? = some r := by rw [hrounds, List.getLast?_concat]
    cases hlast
    decide
  · have hkept : ∀ x ∈ threeRounds, keyEnv.losesMarker x = false := by decide
    exact hkept x (hrounds ▸ List.mem_append_left _ hx)

theorem coinStake_correct_iff_threeRounds :
    keyEnv.CoinStakeCorrect threeRounds ⟨1, [], [], 0⟩ ∧
    (keyEnv.createCoinStake threeRounds ⟨1, [], [], 0⟩).map (fun r => (r.1, r.2.vout.map CTxOut.nValue)) =
      some (true, [0, 2450000000, 2450000000, 80 * COIN]) := by
  have hstake : ∀ r ∈ threeRounds, Stakeable r.input := by
    intro r hr
    rcases List.mem_cons.mp hr with rfl | hr
    · exact ⟨_, rfl, by decide⟩
    · rcases List.mem_pair.mp hr with rfl | rfl
      · exact ⟨_, rfl, by decide⟩
      · exact ⟨_, rfl, by decide⟩
  exact ⟨(coinStake_correct_iff keyEnv threeRounds ⟨1, [], [], 0⟩ rfl hstake).mpr fits_threeRounds, by decide⟩

/-- The kernel is found, no output is made, and a transaction without inputs is returned. -/
theorem not_coinStakeCorrect_scriptHash : ¬ ∀ (env : CoinStakeEnv) (rounds : List StakeRound) (txNew : CMutableTransaction),
    env.budgetDue = false → (∀ r ∈ rounds, Stakeable r.input) → env.CoinStakeCorrect rounds txNew := by
  intro hall
  have hstake : ∀ r ∈ [scriptHashRound], Stakeable r.input := by
    intro r hr
    rw [List.mem_singleton.mp hr]
    exact ⟨_, rfl, by decide⟩
  have hcreate : keylessEnv.createCoinStake [scriptHashRound] ⟨1, [], [], 0⟩ = some (true, ⟨1, [], [marker], 0⟩) := rfl
  obtain ⟨r, -, hwell⟩ := hall keylessEnv [scriptHashRound] ⟨1, [], [], 0⟩ rfl hstake _ hcreate
  obtain ⟨scriptSig, hspends⟩ := hwell.spends
  cases hspends

end CoinStakeEnv

end DigiWage
