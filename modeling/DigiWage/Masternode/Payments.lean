import DigiWage.Stake.ColdStake

/-!
# Masternode payments

The votes for the payee of a block, the producer `CMasternodePayments::FillBlockPayee` and the validator
`CMasternodePayments::IsTransactionValid` of `masternode-payments.cpp`.

* `getPayee_spec`: the producer takes a payee with the most votes, so one with six votes when there is one.
* `fillBlockPayee_spec`: a coinstake pays the masternode out of its own outputs.
-/

namespace DigiWage

structure CMutableTransaction where
  nVersion : Int32
  vin : List CTxIn
  vout : List CTxOut
  nLockTime : Nat
deriving DecidableEq, Repr

/-! ## Votes for payees -/

structure CMasternodePayee where
  scriptPubKey : CScript
  nVotes : Int
deriving DecidableEq, Repr

def MNPAYMENTS_SIGNATURES_REQUIRED : Int := 6

/-- `CMasternodeBlockPayees`: the payees of a block with their votes. -/
structure CMasternodeBlockPayees where
  nBlockHeight : Int
  vecPayments : List CMasternodePayee
deriving DecidableEq, Repr

/-- What the payments ask of the masternode manager and the sporks. -/
structure PaymentEnv where
  /-- `SPORK_8_MASTERNODE_PAYMENT_ENFORCEMENT`. -/
  paymentEnforcement : Bool
  /-- `mnodeman.stable_size()` and `mnodeman.size()`. -/
  stableSize : Int
  size : Int
  nMasternodeCountDrift : Int
  /-- The script that pays `mnodeman.GetCurrentMasterNode(1)`. -/
  winningNode : Option CScript

namespace CMasternodeBlockPayees

/-- The loop of `AddPayee`. -/
def addVotes (payeeIn : CScript) (nIncrement : Int) : List CMasternodePayee → List CMasternodePayee
  | [] => [⟨payeeIn, nIncrement⟩]
  | p :: ps =>
    if p.scriptPubKey = payeeIn then { p with nVotes := p.nVotes + nIncrement } :: ps
    else p :: addVotes payeeIn nIncrement ps

def addPayee (b : CMasternodeBlockPayees) (payeeIn : CScript) (nIncrement : Int) : CMasternodeBlockPayees :=
  { b with vecPayments := addVotes payeeIn nIncrement b.vecPayments }

/-- The loop of `GetPayee`: the first of the payees with the most votes. -/
def getPayeeLoop : List CMasternodePayee → Option CScript × Int → Option CScript × Int
  | [], best => best
  | p :: ps, best => getPayeeLoop ps (if best.2 < p.nVotes then (some p.scriptPubKey, p.nVotes) else best)

def getPayee (b : CMasternodeBlockPayees) : Option CScript := (getPayeeLoop b.vecPayments (none, -1)).1

/-- The payment that the validator requires. -/
def requiredMasternodePayment (env : PaymentEnv) (b : CMasternodeBlockPayees) : Int :=
  let nReward := getBlockValue b.nBlockHeight
  let nMasternode_Drift_Count := if env.paymentEnforcement then env.stableSize + env.nMasternodeCountDrift
    else env.size + env.nMasternodeCountDrift
  getMasternodePayment b.nBlockHeight nReward nMasternode_Drift_Count

/-- `nMaxSignatures`: the most votes of a payee that has enough. -/
def nMaxSignatures (b : CMasternodeBlockPayees) : Int :=
  b.vecPayments.foldl (fun n p => if n ≤ p.nVotes ∧ MNPAYMENTS_SIGNATURES_REQUIRED ≤ p.nVotes then p.nVotes else n) 0

def isTransactionValid (env : PaymentEnv) (b : CMasternodeBlockPayees) (txNew : CTransaction) : Bool :=
  if b.nMaxSignatures < MNPAYMENTS_SIGNATURES_REQUIRED then true
  else b.vecPayments.any fun payee =>
    decide (MNPAYMENTS_SIGNATURES_REQUIRED ≤ payee.nVotes) && txNew.vout.any fun out =>
      payee.scriptPubKey == out.scriptPubKey && out.nValue == b.requiredMasternodePayment env

end CMasternodeBlockPayees

/-! ## The payments -/

/-- `CMasternodePayments`: the payees of the blocks, by their height. -/
structure CMasternodePayments where
  mapMasternodeBlocks : Int → Option CMasternodeBlockPayees
  keyed : ∀ h b, mapMasternodeBlocks h = some b → b.nBlockHeight = h

namespace CMasternodePayments

/-- No votes. -/
def empty : CMasternodePayments := ⟨fun _ => none, by simp⟩

/-- The end of `AddWinningMasternode`: a vote of a masternode for the payee of a block. -/
def addWinningMasternode (mp : CMasternodePayments) (nBlockHeight : Int) (payee : CScript) : CMasternodePayments where
  mapMasternodeBlocks := Function.update mp.mapMasternodeBlocks nBlockHeight
    (some (((mp.mapMasternodeBlocks nBlockHeight).getD ⟨nBlockHeight, []⟩).addPayee payee 1))
  keyed h b hb := by
    by_cases hh : h = nBlockHeight
    · subst hh
      rw [Function.update_self, Option.some.injEq] at hb
      subst hb
      cases hm : mp.mapMasternodeBlocks h with
      | none => rfl
      | some b' => exact mp.keyed h b' hm
    · rw [Function.update_of_ne hh] at hb
      exact mp.keyed h b hb

def getBlockPayee (mp : CMasternodePayments) (nBlockHeight : Int) : Option CScript :=
  match mp.mapMasternodeBlocks nBlockHeight with
  | none => none
  | some b => b.getPayee

def isTransactionValid (env : PaymentEnv) (mp : CMasternodePayments) (txNew : CTransaction) (nBlockHeight : Int) :
    Bool :=
  match mp.mapMasternodeBlocks nBlockHeight with
  | none => true
  | some b => b.isTransactionValid env txNew

/-- The masternode to pay on top of a tip: the one voted for, or the current one. -/
def payeeToPay (env : PaymentEnv) (mp : CMasternodePayments) (tipHeight : Nat) : Option CScript :=
  match mp.getBlockPayee (tipHeight + 1) with
  | some payee => some payee
  | none => env.winningNode

end CMasternodePayments

/-- Take the same amount off each output. -/
def subtractAll (nAmount : Int) (vout : List CTxOut) : List CTxOut :=
  vout.map fun o => { o with nValue := o.nValue - nAmount }

/-- Take an amount off the last output. -/
def subtractLast (nAmount : Int) : List CTxOut → List CTxOut
  | [] => []
  | [o] => [{ o with nValue := o.nValue - nAmount }]
  | o :: o' :: vout => o :: subtractLast nAmount (o' :: vout)

/-- The outputs of a coinstake after the masternode payment is subtracted from the stake reward. -/
def subtractPayment (masternodePayment : Int) : List CTxOut → List CTxOut
  | [] => []
  | m :: outs =>
    match outs with
    | [] => [m]
    | [o] => [m, { o with nValue := o.nValue - masternodePayment }]
    | _ =>
      let outputs : Int := outs.length
      let mnPaymentSplit := masternodePayment.tdiv outputs
      let mnPaymentRemainder := masternodePayment - mnPaymentSplit * outputs
      m :: subtractLast mnPaymentRemainder (subtractAll mnPaymentSplit outs)

/-- A new output, with its script and value set. -/
def paymentOut (payee : CScript) (nValue : Int) : CTxOut := { CTxOut.null with scriptPubKey := payee, nValue := nValue }

/-- `CMasternodePayments::FillBlockPayee` on top of a tip; `none` when it reads past the end of the outputs. -/
def CMasternodePayments.fillBlockPayee (env : PaymentEnv) (mp : CMasternodePayments) (tipHeight : Nat)
    (txNew : CMutableTransaction) (fProofOfStake : Bool) : Option CMutableTransaction :=
  let blockValue := getBlockValue tipHeight
  let masternodePayment := getMasternodePayment tipHeight blockValue 0
  match mp.payeeToPay env tipHeight with
  | none => some txNew
  | some payee =>
    let payment := paymentOut payee masternodePayment
    if fProofOfStake then
      match (txNew.vout ++ [payment])[1]? with
      | none => none
      | some o =>
        some { txNew with vout := (if o.isZerocoinMint then txNew.vout
          else subtractPayment masternodePayment txNew.vout) ++ [payment] }
    else
      let o := txNew.vout.headD CTxOut.null
      some { txNew with vout := [{ o with nValue := blockValue - masternodePayment },
        { (txNew.vout.tail.headD CTxOut.null) with scriptPubKey := payee, nValue := masternodePayment }] }

/-! ## The payee -/

namespace CMasternodeBlockPayees

theorem getPayeeLoop_spec : ∀ (l : List CMasternodePayee) (best : Option CScript × Int),
    best.2 ≤ (getPayeeLoop l best).2 ∧ (∀ p ∈ l, p.nVotes ≤ (getPayeeLoop l best).2) ∧
    (getPayeeLoop l best = best ∨ ∃ p ∈ l, getPayeeLoop l best = (some p.scriptPubKey, p.nVotes))
  | [], best => ⟨Int.le_refl _, by simp, Or.inl rfl⟩
  | p :: l, best => by
    unfold getPayeeLoop
    by_cases h : best.2 < p.nVotes
    · rw [if_pos h]
      obtain ⟨h₁, h₂, h₃⟩ := getPayeeLoop_spec l (some p.scriptPubKey, p.nVotes)
      simp only at h₁
      refine ⟨by omega, ?_, Or.inr ?_⟩
      · intro q hq
        rcases List.mem_cons.mp hq with rfl | hq
        · exact h₁
        · exact h₂ q hq
      · rcases h₃ with h₃ | ⟨q, hq, h₃⟩
        · exact ⟨p, List.mem_cons_self, h₃⟩
        · exact ⟨q, List.mem_cons_of_mem _ hq, h₃⟩
    · rw [if_neg h]
      obtain ⟨h₁, h₂, h₃⟩ := getPayeeLoop_spec l best
      refine ⟨h₁, ?_, ?_⟩
      · intro q hq
        rcases List.mem_cons.mp hq with rfl | hq
        · omega
        · exact h₂ q hq
      · rcases h₃ with h₃ | ⟨q, hq, h₃⟩
        · exact Or.inl h₃
        · exact Or.inr ⟨q, List.mem_cons_of_mem _ hq, h₃⟩

/-- A payee has the six votes that the validator asks for. -/
def Voted (b : CMasternodeBlockPayees) : Prop := ∃ p ∈ b.vecPayments, MNPAYMENTS_SIGNATURES_REQUIRED ≤ p.nVotes

theorem getPayee_spec {b : CMasternodeBlockPayees} (h : b.Voted) :
    ∃ p ∈ b.vecPayments, b.getPayee = some p.scriptPubKey ∧ MNPAYMENTS_SIGNATURES_REQUIRED ≤ p.nVotes := by
  obtain ⟨q, hq, hvotes⟩ := h
  obtain ⟨-, hmax, hres⟩ := getPayeeLoop_spec b.vecPayments (none, -1)
  have hle := hmax q hq
  unfold MNPAYMENTS_SIGNATURES_REQUIRED at hvotes
  rcases hres with hres | ⟨p, hp, hres⟩
  · rw [hres] at hle
    simp only at hle
    omega
  · refine ⟨p, hp, by rw [getPayee, hres], ?_⟩
    rw [hres] at hle
    exact Int.le_trans hvotes hle

theorem foldl_maxSignatures : ∀ (l : List CMasternodePayee) (n : Int), MNPAYMENTS_SIGNATURES_REQUIRED ≤ l.foldl
      (fun n p => if n ≤ p.nVotes ∧ MNPAYMENTS_SIGNATURES_REQUIRED ≤ p.nVotes then p.nVotes else n) n ↔
    MNPAYMENTS_SIGNATURES_REQUIRED ≤ n ∨ ∃ p ∈ l, MNPAYMENTS_SIGNATURES_REQUIRED ≤ p.nVotes
  | [], n => by simp
  | p :: l, n => by
    have hstep : MNPAYMENTS_SIGNATURES_REQUIRED ≤
        (if n ≤ p.nVotes ∧ MNPAYMENTS_SIGNATURES_REQUIRED ≤ p.nVotes then p.nVotes else n) ↔
        MNPAYMENTS_SIGNATURES_REQUIRED ≤ n ∨ MNPAYMENTS_SIGNATURES_REQUIRED ≤ p.nVotes := by
      split <;> omega
    rw [List.foldl_cons, foldl_maxSignatures l, hstep]
    simp only [List.mem_cons, exists_eq_or_imp, or_assoc]

theorem nMaxSignatures_iff (b : CMasternodeBlockPayees) :
    MNPAYMENTS_SIGNATURES_REQUIRED ≤ b.nMaxSignatures ↔ b.Voted := by
  unfold nMaxSignatures Voted
  rw [foldl_maxSignatures]
  have h : ¬ MNPAYMENTS_SIGNATURES_REQUIRED ≤ 0 := by decide
  simp [h]

theorem isTransactionValid_iff {env : PaymentEnv} {b : CMasternodeBlockPayees} {tx : CTransaction} :
    b.isTransactionValid env tx = true ↔ (b.Voted → ∃ p ∈ b.vecPayments, MNPAYMENTS_SIGNATURES_REQUIRED ≤ p.nVotes ∧
      ∃ o ∈ tx.vout, o.scriptPubKey = p.scriptPubKey ∧
        o.nValue = getMasternodePayment b.nBlockHeight (getBlockValue b.nBlockHeight) 0) := by
  rw [← nMaxSignatures_iff]
  unfold isTransactionValid
  by_cases h : b.nMaxSignatures < MNPAYMENTS_SIGNATURES_REQUIRED
  · rw [if_pos h]
    exact ⟨fun _ h' => by omega, fun _ => rfl⟩
  · rw [if_neg h]
    have h' : MNPAYMENTS_SIGNATURES_REQUIRED ≤ b.nMaxSignatures := by omega
    -- the count of masternodes makes no difference to the payment
    have hreq : b.requiredMasternodePayment env =
      getMasternodePayment b.nBlockHeight (getBlockValue b.nBlockHeight) 0 := rfl
    simp only [List.any_eq_true, Bool.and_eq_true, decide_eq_true_eq, beq_iff_eq, h', true_imp_iff, hreq]
    exact ⟨fun ⟨p, hp, hv, o, ho, hs, hn⟩ => ⟨p, hp, hv, o, ho, hs.symm, hn⟩,
      fun ⟨p, hp, hv, o, ho, hs, hn⟩ => ⟨p, hp, hv, o, ho, hs.symm, hn⟩⟩

end CMasternodeBlockPayees

namespace CMasternodePayments

/-- A payee of the block at the height has six votes. -/
def Voted (mp : CMasternodePayments) (nBlockHeight : Int) : Prop :=
  ∃ b, mp.mapMasternodeBlocks nBlockHeight = some b ∧ b.Voted

theorem isTransactionValid_of_paid {env : PaymentEnv} {mp : CMasternodePayments} {tipHeight : Nat} {payee : CScript}
    {tx : CTransaction} (hpayee : mp.payeeToPay env tipHeight = some payee)
    (hpaid : mp.Voted (tipHeight + 1) → ∃ o ∈ tx.vout, o.scriptPubKey = payee ∧
      o.nValue = getMasternodePayment (tipHeight + 1) (getBlockValue (tipHeight + 1)) 0) :
    mp.isTransactionValid env tx (tipHeight + 1) = true := by
  unfold isTransactionValid
  cases hb : mp.mapMasternodeBlocks (tipHeight + 1) with
  | none => rfl
  | some b =>
    refine CMasternodeBlockPayees.isTransactionValid_iff.mpr fun hvoted => ?_
    obtain ⟨p, hp, hget, hvotes⟩ := CMasternodeBlockPayees.getPayee_spec hvoted
    obtain ⟨o, ho, hscript, hvalue⟩ := hpaid ⟨b, hb, hvoted⟩
    have hpp : p.scriptPubKey = payee := by
      simpa [payeeToPay, getBlockPayee, hb, hget] using hpayee
    rw [mp.keyed _ _ hb]
    exact ⟨p, hp, hvotes, o, ho, hscript.trans hpp.symm, hvalue⟩

theorem exists_value_of_isTransactionValid {env : PaymentEnv} {mp : CMasternodePayments} {h : Int} {tx : CTransaction}
    (hvoted : mp.Voted h) (hvalid : mp.isTransactionValid env tx h = true) :
    ∃ o ∈ tx.vout, o.nValue = getMasternodePayment h (getBlockValue h) 0 := by
  obtain ⟨b, hb, hvoted⟩ := hvoted
  rw [isTransactionValid, hb] at hvalid
  obtain ⟨-, -, -, o, ho, -, hvalue⟩ := CMasternodeBlockPayees.isTransactionValid_iff.mp hvalid hvoted
  rw [mp.keyed _ _ hb] at hvalue
  exact ⟨o, ho, hvalue⟩

end CMasternodePayments

/-! ## The outputs -/

/-- The value of the outputs. -/
def voutValue (vout : List CTxOut) : Int := (vout.map CTxOut.nValue).sum

@[simp] theorem voutValue_nil : voutValue [] = 0 := rfl

@[simp] theorem voutValue_cons (o : CTxOut) (vout : List CTxOut) : voutValue (o :: vout) = o.nValue + voutValue vout := by
  simp [voutValue]

@[simp] theorem voutValue_append (vout vout' : List CTxOut) :
    voutValue (vout ++ vout') = voutValue vout + voutValue vout' := by
  simp [voutValue]

theorem voutValue_subtractAll (a : Int) : ∀ vout : List CTxOut,
    voutValue (subtractAll a vout) = voutValue vout - a * vout.length
  | [] => by simp [subtractAll]
  | o :: vout => by
    have ih := voutValue_subtractAll a vout
    unfold subtractAll at ih ⊢
    rw [List.map_cons, voutValue_cons, voutValue_cons, ih, List.length_cons]
    push_cast
    rw [Int.mul_add]
    omega

theorem voutValue_subtractLast (a : Int) : ∀ {vout : List CTxOut}, vout ≠ [] →
    voutValue (subtractLast a vout) = voutValue vout - a
  | [], h => absurd rfl h
  | [o], _ => by simp [subtractLast]
  | o :: o' :: vout, _ => by
    have ih := voutValue_subtractLast a (List.cons_ne_nil o' vout)
    rw [subtractLast, voutValue_cons, ih, voutValue_cons o]
    omega

theorem voutValue_subtractPayment (a : Int) {vout : List CTxOut} (h : 2 ≤ vout.length) :
    voutValue (subtractPayment a vout) = voutValue vout - a := by
  match vout, h with
  | [m, o], _ =>
    simp [subtractPayment]
    omega
  | m :: o :: o' :: rest, _ =>
    have hne : subtractAll (a.tdiv ((o :: o' :: rest).length : Int)) (o :: o' :: rest) ≠ [] := by simp [subtractAll]
    rw [subtractPayment, voutValue_cons, voutValue_subtractLast _ hne, voutValue_subtractAll, voutValue_cons m]
    · omega
    · simp
    · simp

/-! ## Producer and validator -/

/-- The transactions that the wallet and the miner complete: a coinbase or coinstake with at least two outputs. The
outputs of a coinstake go to the script of the kernel, which is no zerocoin mint. -/
structure Payable (txNew : CMutableTransaction) (fProofOfStake : Bool) : Prop where
  outputs : 2 ≤ txNew.vout.length
  noMint : fProofOfStake = true → ∀ o, txNew.vout[1]? = some o → o.isZerocoinMint = false

theorem fillBlockPayee_spec {env : PaymentEnv} {mp : CMasternodePayments} {tipHeight : Nat} {payee : CScript}
    {txNew : CMutableTransaction} {fProofOfStake : Bool} (h : Payable txNew fProofOfStake)
    (hpayee : mp.payeeToPay env tipHeight = some payee) :
    ∃ vout, mp.fillBlockPayee env tipHeight txNew fProofOfStake = some { txNew with vout := vout } ∧
      (∃ o ∈ vout, o.scriptPubKey = payee ∧
        o.nValue = getMasternodePayment tipHeight (getBlockValue tipHeight) 0) ∧
      (fProofOfStake = true → voutValue vout = voutValue txNew.vout) := by
  unfold CMasternodePayments.fillBlockPayee
  rw [hpayee]
  cases fProofOfStake with
  | false =>
    refine ⟨_, rfl, ⟨_, List.mem_cons_of_mem _ List.mem_cons_self, rfl, rfl⟩, ?_⟩
    rintro ⟨⟩
  | true =>
    have hlen := h.outputs
    obtain ⟨o, ho⟩ : ∃ o, txNew.vout[1]? = some o := ⟨_, List.getElem?_eq_getElem (by omega)⟩
    have hmint := h.noMint rfl o ho
    have ho' : ∀ p, (txNew.vout ++ [p])[1]? = some o := by
      intro p
      rw [List.getElem?_append_left (by omega), ho]
    refine ⟨subtractPayment (getMasternodePayment tipHeight (getBlockValue tipHeight) 0) txNew.vout ++
      [paymentOut payee (getMasternodePayment tipHeight (getBlockValue tipHeight) 0)], ?_,
      ⟨_, List.mem_append_right _ List.mem_cons_self, rfl, rfl⟩, fun _ => ?_⟩
    · simp only [ho', hmint, if_true, Bool.false_eq_true, if_false]
    · rw [voutValue_append, voutValue_subtractPayment _ h.outputs]
      simp [paymentOut]

/-- The heights at which the subsidy is not that of the block below. -/
def subsidyChanges : List Nat := [1, 86400, 259200, 432000, 604800]

theorem getMasternodePayment_eq_iff (n : Nat) :
    getMasternodePayment n (getBlockValue n) 0 = getMasternodePayment (n + 1) (getBlockValue (n + 1)) 0 ↔
      n + 1 ∉ subsidyChanges := by
  simp only [subsidyChanges, List.mem_cons, List.not_mem_nil, or_false]
  unfold getMasternodePayment getBlockValue COIN
  repeat' split
  all_goals first | omega | (simp only [Int.reduceMul, Int.reduceTDiv]; omega)

/-- Producer and validator agree on a completed transaction: the validator accepts it in the block above the tip, and a
coinstake pays out what it did before. -/
def PaymentAgrees (env : PaymentEnv) (mp : CMasternodePayments) (tipHeight : Nat) (txNew : CMutableTransaction)
    (fProofOfStake : Bool) : Prop :=
  ∃ txNew', mp.fillBlockPayee env tipHeight txNew fProofOfStake = some txNew' ∧
    (∀ tx : CTransaction, tx.vout = txNew'.vout → mp.isTransactionValid env tx (tipHeight + 1) = true) ∧
    (fProofOfStake = true → voutValue txNew'.vout = voutValue txNew.vout)

/-- **Masternode payments.** On top of a tip, producer and validator agree about every transaction exactly when the
subsidy of the new block is that of the tip, or nobody has six votes. -/
theorem fillBlockPayee_agrees_iff (env : PaymentEnv) (mp : CMasternodePayments) (tipHeight : Nat) (payee : CScript)
    (hpayee : mp.payeeToPay env tipHeight = some payee) :
    (∀ txNew fProofOfStake, Payable txNew fProofOfStake → PaymentAgrees env mp tipHeight txNew fProofOfStake) ↔
      tipHeight + 1 ∉ subsidyChanges ∨ ¬ mp.Voted (tipHeight + 1) := by
  constructor
  · intro hall
    by_contra hcon
    rw [not_or, not_not, not_not] at hcon
    obtain ⟨hchange, hvoted⟩ := hcon
    -- a coinstake whose outputs are worth nothing has no output of the value that is required
    obtain ⟨txNew', hfill, hvalid, -⟩ := hall ⟨1, [], [⟨0, [], 0⟩, ⟨0, [], 0⟩], 0⟩ true
      ⟨by simp, by rintro - o ⟨⟩; rfl⟩
    obtain ⟨o, ho, hvalue⟩ := CMasternodePayments.exists_value_of_isTransactionValid hvoted
      (hvalid ⟨0, 1, [], txNew'.vout, 0⟩ rfl)
    have hne := mt (getMasternodePayment_eq_iff tipHeight).mp (not_not.mpr hchange)
    have hpos : ∀ n : Int, 0 < getMasternodePayment n (getBlockValue n) 0 := by
      intro n
      unfold getMasternodePayment getBlockValue COIN
      repeat' split
      all_goals decide
    have h₁ := hpos (tipHeight + 1)
    have h₂ := hpos tipHeight
    unfold CMasternodePayments.fillBlockPayee at hfill
    rw [hpayee] at hfill
    cases hfill
    have ho' : o ∈ [⟨0, [], 0⟩, ⟨0 - getMasternodePayment tipHeight (getBlockValue tipHeight) 0, [], 0⟩,
      paymentOut payee (getMasternodePayment tipHeight (getBlockValue tipHeight) 0)] := ho
    simp only [List.mem_cons, List.not_mem_nil, or_false] at ho'
    rcases ho' with rfl | rfl | rfl <;> simp only [paymentOut] at hvalue
    all_goals omega
  · intro hcond txNew fProofOfStake htx
    obtain ⟨vout, hfill, ⟨o, ho, hscript, hvalue⟩, hsum⟩ := fillBlockPayee_spec htx hpayee
    refine ⟨_, hfill, fun tx hvout => ?_, hsum⟩
    refine CMasternodePayments.isTransactionValid_of_paid hpayee fun hvoted => ⟨o, ?_, hscript, ?_⟩
    · rw [hvout]
      exact ho
    · rw [hvalue, getMasternodePayment_eq_iff]
      exact hcond.resolve_right fun hn => hn hvoted

/-! ## At the first change of the subsidy -/

/-- Six masternodes vote for the same payee of block 86400. -/
def sixVotes : CMasternodePayments :=
  (List.replicate 6 ([0x51] : List UInt8)).foldl (fun mp payee => mp.addWinningMasternode 86400 payee) .empty

/-- Six votes for the payee of block 100. -/
def sixVotesEarly : CMasternodePayments :=
  (List.replicate 6 ([0x51] : List UInt8)).foldl (fun mp payee => mp.addWinningMasternode 100 payee) .empty

def quietEnv : PaymentEnv := ⟨true, 10, 10, 20, none⟩

/-- A coinstake of 1000 coins. -/
def thousandStake : CMutableTransaction := ⟨1, [], [⟨0, [], 0⟩, ⟨1000 * COIN, ([0x52] : List UInt8), 0⟩], 0⟩

theorem thousandStake_payable : Payable thousandStake true := ⟨by decide, by rintro - o ⟨⟩; rfl⟩

theorem fillBlockPayee_agrees_early : PaymentAgrees quietEnv sixVotesEarly 99 thousandStake true :=
  (fillBlockPayee_agrees_iff quietEnv sixVotesEarly 99 [0x51] (by decide)).mpr (Or.inl (by decide)) thousandStake true
    thousandStake_payable

/-- In block 86400 the producer pays two thirds of 120 coins, and the validator wants two thirds of 60 coins. -/
theorem fillBlockPayee_not_agrees : ¬ ∀ env mp tipHeight payee txNew fProofOfStake,
    CMasternodePayments.payeeToPay env mp tipHeight = some payee → Payable txNew fProofOfStake →
    PaymentAgrees env mp tipHeight txNew fProofOfStake := by
  intro hall
  obtain ⟨tx, hfill, hvalid, -⟩ := hall quietEnv sixVotes 86399 [0x51] thousandStake true (by decide)
    thousandStake_payable
  have h := hvalid ⟨0, 1, [], tx.vout, 0⟩ rfl
  revert h
  cases hfill
  decide

end DigiWage
