import DigiWage.Pool.Fees
import DigiWage.Stake.CoinStake
import DigiWage.Wallet.Coins

/-!
# Creating transactions

`CWallet::CreateTransaction`, `SelectCoins` and `GetMinimumFee` of `wallet/wallet.cpp`. Inputs are selected again in each round, for
a fee that rises until it is enough.

* `Pays` is what the outputs to the payees do, and `Changes` what the change does to them: both keep one balance.
* `attempt_cases`: a round is refused, or it ends with the check of the fee of a transaction that is `Made`.
-/

namespace DigiWage

open CScript Lib

def MAX_FREE_TRANSACTION_CREATE_SIZE : Nat := 1000

def CTxOut.isDust (minRelayTxFee : CFeeRate) (o : CTxOut) : Bool :=
  let nSize := o.serialize.length + 148
  decide (o.nValue < 3 * getFee minRelayTxFee nSize)

inductive AvailableCoinsType where
  | ALL_COINS
  | ONLY_DENOMINATED
  | ONLY_NOT12000IFMN
  | ONLY_NONDENOMINATED_NOT12000IFMN
  | ONLY_12000
  | STAKEABLE_COINS
deriving DecidableEq

/-- `CCoinControl`, with what is read of it here. -/
structure CCoinControl where
  destChange : CTxDestination
  fSplitBlock : Bool
  nSplitBlock : Int
  /-- `HasSelected()`. -/
  hasSelected : Bool

/-- The arguments of `CreateTransaction`. -/
structure SendArgs where
  vecSend : List (CScript × Int)
  coinControl : Option CCoinControl
  coin_type : AvailableCoinsType
  useIX : Bool
  nFeePay : Int

/-- The fee to pay at least: a cent with `useIX`. -/
def SendArgs.feePay (args : SendArgs) : Int := if args.useIX && decide (args.nFeePay < CENT) then CENT else args.nFeePay

/-- Whether the coin control has an address for the change. -/
def SendArgs.customChange (args : SendArgs) : Bool :=
  args.coinControl.any fun coinControl => decide (coinControl.destChange ≠ .noDestination)

/-- The input that spends a coin. -/
def WalletCoin.txIn (c : WalletCoin) : CTxIn := ⟨⟨c.tx.hash, c.i⟩, ([] : List UInt8), 2 ^ 32 - 1⟩

/-- The output that a coin stands for. -/
def WalletCoin.txOut (c : WalletCoin) : CTxOut := c.tx.vout.get c.i

/-- What `CreateTransaction` depends on, for the arguments of a call. -/
structure SendWallet where
  /-- What `AvailableCoins` gives for the arguments. -/
  vCoins : List COutput
  /-- The coins in the order of a `std::set`: by address and index. -/
  coinOrder : List WalletCoin
  bSpendZeroConfChange : Bool
  obfuScationDenominations : List Int
  /-- The random choices of each selection in each round. -/
  choices : Nat → Nat → (Nat → Nat) × (Nat → Bool) × (Nat → Bool)
  /-- `GetRandInt` for the place of the change, in each round. -/
  getRandInt : Nat → Nat
  /-- The key that `GetReservedKey` gives: "should never fail, as we just unlocked". -/
  reservedKey : CKeyID
  /-- `SignSignature`: the script for an input, if it succeeds. -/
  signSignature : CMutableTransaction → Nat → Option CScript
  fSendFreeTransactions : Bool
  /-- Whether the priority of a transaction is high enough to send it for free. -/
  enoughPriority : List WalletCoin → CMutableTransaction → Bool
  minRelayTxFee : CFeeRate
  payTxFee : CFeeRate
  fPayAtLeastCustomFee : Bool
  /-- `mempool.estimateFee(nTxConfirmTarget)`. -/
  estimateFee : CFeeRate
  minTxFee : CFeeRate
  maxTxFee : Int
  distinct : (vCoins.map COutput.toWalletCoin).Nodup
  range : ∀ output ∈ vCoins, 0 ≤ output.nValue ∧ output.nValue ≤ CTxOutCompressor.maxMoney
  order : coinOrder.Perm (vCoins.map COutput.toWalletCoin)
  /-- All coins with the largest fee and a cent are an amount. -/
  total : valueOf (vCoins.map COutput.toWalletCoin) + maxTxFee + CENT ≤ int64Max
  maxTxFee_nonneg : 0 ≤ maxTxFee

/-- A transaction that has been created, with the selected coins and the fee. -/
structure Created where
  tx : CMutableTransaction
  setCoins : List WalletCoin
  nFeeRet : Int
  fStakeDelegationVoided : Bool
  /-- `mapValue["DS"] = "1"`. -/
  fObfuscated : Bool

/-- How a round of the fee loop ends. -/
inductive Attempt where
  | refused (strFailReason : String)
  | done (created : Created)
  | again (nFeeRet : Int) (fStakeDelegationVoided : Bool)

/-! ## The outputs -/

/-- The loop that adds up the amounts: `some none` for one that is refused, `none` for a sum that does not fit. -/
def sumAmounts : List (CScript × Int) → Int → Option (Option Int)
  | [], nValue => some (if nValue < 0 then none else some nValue)
  | s :: vecSend, nValue =>
    if nValue < 0 then some none
    else do
      let nValue ← addAmount nValue s.2
      sumAmounts vecSend nValue

/-- The outputs for a payee of a transaction that splits the amounts. The last one takes the remainder. -/
def splitOuts (nSplitBlock : Int) (s : CScript × Int) : List CTxOut :=
  (List.range nSplitBlock.toNat).map fun (i : Nat) =>
    if (i : Int) = nSplitBlock - 1 then
      let nRemainder := s.2.tmod nSplitBlock
      paymentOut s.1 (s.2.tdiv nSplitBlock + nRemainder)
    else paymentOut s.1 (s.2.tdiv nSplitBlock)

/-- The outputs to the payees; `none` for an amount that is too small. -/
def payeeOuts (minRelayTxFee : CFeeRate) (coinControl : Option CCoinControl) (vecSend : List (CScript × Int)) :
    Option (List CTxOut) :=
  let vout := vecSend.map fun s => paymentOut s.1 s.2
  match coinControl with
  | none => some (vecSend.flatMap (splitOuts 1))
  | some coinControl =>
    if !coinControl.fSplitBlock then
      if vout.any (CTxOut.isDust minRelayTxFee) then none else some vout
    else some (vecSend.flatMap (splitOuts coinControl.nSplitBlock))

/-- The change is added to the first output with its script; `some none` where there is none. -/
def combineChange (scriptChange : CScript) (nChange : Int) : List CTxOut → Option (Option (List CTxOut))
  | [] => some none
  | o :: vout =>
    if scriptChange = o.scriptPubKey then
      (addAmount o.nValue nChange).map fun nValue => some ({ o with nValue := nValue } :: vout)
    else (combineChange scriptChange nChange vout).map fun vout => vout.map (o :: ·)

/-- The failure of `SelectCoins`. -/
def insufficientFunds (coin_type : AvailableCoinsType) (useIX : Bool) : String :=
  let strFailReason := match coin_type with
    | .ALL_COINS => "Insufficient funds."
    | .ONLY_NOT12000IFMN => "Unable to locate enough funds for this transaction that are not equal 12000 WAGE."
    | .ONLY_NONDENOMINATED_NOT12000IFMN =>
      "Unable to locate enough Obfuscation non-denominated funds for this transaction that are not equal 12000 WAGE."
    | _ => "Unable to locate enough Obfuscation denominated funds for this transaction. " ++
      "Obfuscation uses exact denominated amounts to send funds, you might simply need to anonymize some more coins."
  if useIX then
    strFailReason ++ " SwiftX requires inputs with at least 6 confirmations, you might need to wait a few minutes and try again."
  else strFailReason

namespace SendWallet

variable (w : SendWallet)

/-! ## Coins and fees -/

def selectEnv (nRound nCall : Nat) (nConfMine nConfTheirs : Int) : SelectEnv where
  nConfMine := nConfMine
  nConfTheirs := nConfTheirs
  obfuScationDenominations := w.obfuScationDenominations
  getRandInt := (w.choices nRound nCall).1
  randbool := (w.choices nRound nCall).2.1
  randbool' := (w.choices nRound nCall).2.2

def selectCoins (args : SendArgs) (nRound : Nat) (nTargetValue : Int) : Option (Bool × SelectedCoins) :=
  if args.coinControl.any CCoinControl.hasSelected then do
    let s ← SelectEnv.addAll ((w.vCoins.filter COutput.fSpendable).map COutput.toWalletCoin)
    some (decide (nTargetValue ≤ s.2), s)
  else do
    let r ← (w.selectEnv nRound 0 1 6).selectCoinsMinConf nTargetValue w.vCoins
    if r.1 then some r
    else do
      let r ← (w.selectEnv nRound 1 1 1).selectCoinsMinConf nTargetValue w.vCoins
      if r.1 then some r
      else if w.bSpendZeroConfChange then (w.selectEnv nRound 2 0 1).selectCoinsMinConf nTargetValue w.vCoins
      else some r

/-- The coins of the set in its order. -/
def inOrder (setCoins : Finset WalletCoin) : List WalletCoin := w.coinOrder.filter (· ∈ setCoins)

def getMinimumFee (nTxBytes : Nat) : Int :=
  let nFeeNeeded := getFee w.payTxFee nTxBytes
  let nFeeNeeded := if w.fPayAtLeastCustomFee ∧ 0 < nFeeNeeded ∧ nFeeNeeded < getFee w.payTxFee 1000 then
    getFee w.payTxFee 1000 else nFeeNeeded
  let nFeeNeeded := if nFeeNeeded = 0 then getFee w.estimateFee nTxBytes else nFeeNeeded
  let nFeeNeeded := if nFeeNeeded = 0 then getFee w.minTxFee nTxBytes else nFeeNeeded
  let nFeeNeeded := if nFeeNeeded < getFee w.minRelayTxFee nTxBytes then getFee w.minRelayTxFee nTxBytes else nFeeNeeded
  if w.maxTxFee < nFeeNeeded then w.maxTxFee else nFeeNeeded

/-- The script that the change goes to: of the address of the coin control, or else of the reserved key. -/
def scriptChange (args : SendArgs) : CScript :=
  match args.coinControl with
  | none => getScriptForDestination (.keyID w.reservedKey)
  | some coinControl =>
    if coinControl.destChange ≠ .noDestination then getScriptForDestination coinControl.destChange
    else getScriptForDestination (.keyID w.reservedKey)

/-- A new output for the change at a random position, unless it is dust. -/
def insertChange (args : SendArgs) (nRound : Nat) (vout : List CTxOut) (nChange nFeeRet : Int) : List CTxOut × Int :=
  let newTxOut := paymentOut (w.scriptChange args) nChange
  -- "Never create dust outputs; if we would, just add the dust to the fee."
  if newTxOut.isDust w.minRelayTxFee then (vout, nFeeRet + nChange)
  else (vout.insertIdx (w.getRandInt nRound % (vout.length + 1)) newTxOut, nFeeRet)

/-- The change: the outputs and the fee. -/
def addChange (args : SendArgs) (nRound : Nat) (vout : List CTxOut) (nChange nFeeRet : Int) : Option (List CTxOut × Int) :=
  if 0 < nChange then
    if args.customChange then do
      match ← combineChange (w.scriptChange args) nChange vout with
      | some vout => some (vout, nFeeRet)
      | none => some (w.insertChange args nRound vout nChange nFeeRet)
    else some (w.insertChange args nRound vout nChange nFeeRet)
  else some (vout, nFeeRet)

/-- The loop that signs the inputs from `nIn` on. -/
def signAll : Nat → Nat → CMutableTransaction → Option CMutableTransaction
  | _, 0, txNew => some txNew
  | nIn, n + 1, txNew => do
    let scriptSig ← w.signSignature txNew nIn
    signAll (nIn + 1) n { txNew with vin := txNew.vin.modify nIn fun txin => { txin with scriptSig := scriptSig } }

/-- The transaction can be completed as a free one. -/
def qualifiesFree (setCoins : List WalletCoin) (txNew : CMutableTransaction) : Bool :=
  w.fSendFreeTransactions && decide (CoinStakeEnv.serializeSize txNew ≤ MAX_FREE_TRANSACTION_CREATE_SIZE) &&
    w.enoughPriority setCoins txNew

/-- The fee that is needed for a transaction. -/
def feeNeeded (args : SendArgs) (txNew : CMutableTransaction) : Int :=
  max args.feePay (w.getMinimumFee (CoinStakeEnv.serializeSize txNew))

/-- The end of a round: whether the fee is enough. -/
def checkFee (args : SendArgs) (created : Created) : Attempt :=
  let nBytes := CoinStakeEnv.serializeSize created.tx
  if MAX_STANDARD_TX_SIZE ≤ nBytes then .refused "Transaction too large"
  else if w.qualifiesFree created.setCoins created.tx then .done created
  else
    let nFeeNeeded := w.feeNeeded args created.tx
    -- not even the relay fee on the next pass: we must be at the maximum allowed fee
    if nFeeNeeded < getFee w.minRelayTxFee nBytes then .refused "Transaction too large for fee policy"
    else if nFeeNeeded ≤ created.nFeeRet then .done created
    else .again nFeeNeeded created.fStakeDelegationVoided

/-- A round of the fee loop. -/
def attempt (args : SendArgs) (nValue : Int) (nRound : Nat) (nFeeRet : Int) (fStakeDelegationVoided : Bool) :
    Option Attempt := do
  let nTotalValue ← addAmount nValue nFeeRet
  match payeeOuts w.minRelayTxFee args.coinControl args.vecSend with
  | none => some (.refused "Transaction amount too small")
  | some vout => do
    let (fSelected, setCoins, nValueIn) ← w.selectCoins args nRound nTotalValue
    if !fSelected then some (.refused (insufficientFunds args.coin_type args.useIX))
    else do
      let setCoins := w.inOrder setCoins
      let fStakeDelegationVoided := fStakeDelegationVoided || setCoins.any fun c => c.txOut.scriptPubKey.isPayToColdStaking
      let nChange := nValueIn - nValue - nFeeRet
      let fObfuscated := decide (args.coin_type = .ONLY_DENOMINATED)
      let (vout, nFeeRet) ← w.addChange args nRound vout (if fObfuscated then 0 else nChange)
        (if fObfuscated then nFeeRet + nChange else nFeeRet)
      match w.signAll 0 setCoins.length ⟨1, setCoins.map WalletCoin.txIn, vout, 0⟩ with
      | none => some (.refused "Signing transaction failed")
      | some txNew => some (w.checkFee args ⟨txNew, setCoins, nFeeRet, fStakeDelegationVoided, fObfuscated⟩)

/-- The fee loop, for at most `fuel` rounds. -/
def feeLoop (args : SendArgs) (nValue : Int) : Nat → Nat → Int → Bool → Option (Except String Created)
  | 0, _, _, _ => none
  | fuel + 1, nRound, nFeeRet, fStakeDelegationVoided => do
    match ← w.attempt args nValue nRound nFeeRet fStakeDelegationVoided with
    | .refused strFailReason => some (.error strFailReason)
    | .done created => some (.ok created)
    | .again nFeeRet fStakeDelegationVoided => feeLoop args nValue fuel (nRound + 1) nFeeRet fStakeDelegationVoided

/-- `CreateTransaction`: the transaction, or the reason why it fails. There is no result where an amount does not fit into 64 bits,
or when the rounds do not suffice. -/
def createTransaction (fuel : Nat) (args : SendArgs) : Option (Except String Created) := do
  match ← sumAmounts args.vecSend 0 with
  | none => some (.error "Transaction amounts must be positive")
  | some nValue =>
    if args.vecSend = [] then some (.error "Transaction amounts must be positive")
    else w.feeLoop args nValue fuel 0 (if 0 < args.feePay then args.feePay else 0) false

end SendWallet

/-! ## Sound transactions -/

/-- The sum of the outputs of a script. -/
def receivedBy (s : CScript) (vout : List CTxOut) : Int := voutValue (vout.filter fun o => o.scriptPubKey = s)

/-- What is requested for a script. -/
def requestedFor (s : CScript) (vecSend : List (CScript × Int)) : Int := ((vecSend.filter fun r => r.1 = s).map Prod.snd).sum

/-- The sum of the amounts. -/
def amountTotal (vecSend : List (CScript × Int)) : Int := (vecSend.map Prod.snd).sum

/-- A transaction that loses no money: no amount is negative, each payee receives the amounts requested for it, with the change if it
goes to the same script, what the inputs have more than the outputs is the fee, and the fee is enough. -/
structure SendWallet.Sound (w : SendWallet) (args : SendArgs) (created : Created) : Prop where
  positive : ∀ s ∈ args.vecSend, 0 ≤ s.2
  nonneg : ∀ o ∈ created.tx.vout, 0 ≤ o.nValue
  spends : created.tx.vin.map CTxIn.prevout = created.setCoins.map fun c => c.txIn.prevout
  distinct : created.setCoins.Nodup
  received : ∀ s ∈ args.vecSend, receivedBy s.1 created.tx.vout = requestedFor s.1 args.vecSend +
    if s.1 = w.scriptChange args then valueOf created.setCoins - amountTotal args.vecSend - created.nFeeRet else 0
  balance : valueOf created.setCoins - voutValue created.tx.vout = created.nFeeRet
  fee : w.qualifiesFree created.setCoins created.tx = true ∨ w.feeNeeded args created.tx ≤ created.nFeeRet

/-- No amount is negative, and amounts that are split are split into one output at least. -/
structure SendArgs.Sendable (args : SendArgs) : Prop where
  positive : ∀ s ∈ args.vecSend, 0 ≤ s.2
  splits : ∀ coinControl, args.coinControl = some coinControl → coinControl.fSplitBlock = true →
    1 ≤ coinControl.nSplitBlock ∨ ∀ s ∈ args.vecSend, s.2 = 0

/-! ## The outputs to the payees -/

theorem receivedBy_append (s : CScript) (vout vout' : List CTxOut) :
    receivedBy s (vout ++ vout') = receivedBy s vout + receivedBy s vout' := by
  rw [receivedBy, List.filter_append, voutValue_append]
  rfl

theorem receivedBy_cons (s : CScript) (o : CTxOut) (vout : List CTxOut) :
    receivedBy s (o :: vout) = (if o.scriptPubKey = s then o.nValue else 0) + receivedBy s vout := by
  by_cases h : o.scriptPubKey = s
  · rw [receivedBy, List.filter_cons_of_pos (by simpa using h), voutValue_cons, if_pos h]
    rfl
  · rw [receivedBy, List.filter_cons_of_neg (by simpa using h), if_neg h, zero_add]
    rfl

theorem voutValue_perm {vout vout' : List CTxOut} (h : vout.Perm vout') : voutValue vout = voutValue vout' :=
  (h.map CTxOut.nValue).sum_eq

theorem receivedBy_perm (s : CScript) {vout vout' : List CTxOut} (h : vout.Perm vout') :
    receivedBy s vout = receivedBy s vout' := voutValue_perm (h.filter _)

theorem receivedBy_of_script {s s' : CScript} : ∀ {vout : List CTxOut}, (∀ o ∈ vout, o.scriptPubKey = s') →
    receivedBy s vout = if s' = s then voutValue vout else 0
  | [], _ => by simp [receivedBy]
  | o :: vout, h => by
    have ih := @receivedBy_of_script s s' vout fun o' ho' => h o' (List.mem_cons_of_mem _ ho')
    rw [receivedBy_cons, ih, h o List.mem_cons_self, voutValue_cons]
    split <;> simp

/-- What outputs to payees do: the amounts are divided over them. -/
structure Pays (vecSend : List (CScript × Int)) (vout : List CTxOut) : Prop where
  value : voutValue vout = amountTotal vecSend
  received : ∀ s, receivedBy s vout = requestedFor s vecSend
  nonneg : (∀ s ∈ vecSend, 0 ≤ s.2) → ∀ o ∈ vout, 0 ≤ o.nValue ∧ o.nValue ≤ amountTotal vecSend

theorem amountTotal_nonneg {vecSend : List (CScript × Int)} (h : ∀ s ∈ vecSend, 0 ≤ s.2) : 0 ≤ amountTotal vecSend := by
  apply List.sum_nonneg
  intro a ha
  obtain ⟨s, hs, rfl⟩ := List.mem_map.mp ha
  exact h s hs

theorem pays_flatMap {f : CScript × Int → List CTxOut} (vecSend : List (CScript × Int))
    (hscript : ∀ s ∈ vecSend, ∀ o ∈ f s, o.scriptPubKey = s.1) (hvalue : ∀ s ∈ vecSend, voutValue (f s) = s.2)
    (hnonneg : ∀ s ∈ vecSend, 0 ≤ s.2 → ∀ o ∈ f s, 0 ≤ o.nValue ∧ o.nValue ≤ s.2) : Pays vecSend (vecSend.flatMap f) := by
  induction vecSend with
  | nil => exact ⟨rfl, fun s => rfl, fun _ o ho => (by cases ho)⟩
  | cons s vecSend ih =>
    obtain ⟨hvalue', hreceived, hnonneg'⟩ := ih (fun s hs => hscript s (List.mem_cons_of_mem _ hs))
      (fun s hs => hvalue s (List.mem_cons_of_mem _ hs)) fun s hs => hnonneg s (List.mem_cons_of_mem _ hs)
    have htotal : amountTotal (s :: vecSend) = s.2 + amountTotal vecSend := by simp [amountTotal]
    refine ⟨?_, fun s' => ?_, fun hpos o ho => ?_⟩
    · rw [List.flatMap_cons, voutValue_append, hvalue s List.mem_cons_self, hvalue', htotal]
    · rw [List.flatMap_cons, receivedBy_append, hreceived, receivedBy_of_script (hscript s List.mem_cons_self),
        hvalue s List.mem_cons_self]
      by_cases h : s.1 = s'
      · simp [requestedFor, h]
      · simp [requestedFor, h]
    · have hrest := amountTotal_nonneg fun s hs => hpos s (List.mem_cons_of_mem _ hs)
      have hfirst := hpos s List.mem_cons_self
      rw [htotal]
      rw [List.flatMap_cons] at ho
      rcases List.mem_append.mp ho with ho | ho
      · obtain ⟨h0, hle⟩ := hnonneg s List.mem_cons_self hfirst o ho
        omega
      · obtain ⟨h0, hle⟩ := hnonneg' (fun s hs => hpos s (List.mem_cons_of_mem _ hs)) o ho
        omega

theorem splitOuts_eq (n : Nat) (s : CScript × Int) : splitOuts (n + 1 : Nat) s =
    List.replicate n (paymentOut s.1 (s.2.tdiv (n + 1 : Nat))) ++
      [paymentOut s.1 (s.2.tdiv (n + 1 : Nat) + s.2.tmod (n + 1 : Nat))] := by
  rw [splitOuts, Int.toNat_natCast, List.range_succ, List.map_append]
  congr 1
  · apply List.eq_replicate_iff.mpr
    refine ⟨by simp, fun o ho => ?_⟩
    obtain ⟨i, hi, rfl⟩ := List.mem_map.mp ho
    rw [List.mem_range] at hi
    rw [if_neg (by omega)]
  · simp

theorem splitOuts_script {nSplitBlock : Int} {s : CScript × Int} : ∀ o ∈ splitOuts nSplitBlock s, o.scriptPubKey = s.1 := by
  intro o ho
  obtain ⟨i, -, rfl⟩ := List.mem_map.mp ho
  simp only
  split <;> rfl

theorem splitOuts_spec {nSplitBlock : Int} (h : 1 ≤ nSplitBlock) (s : CScript × Int) :
    voutValue (splitOuts nSplitBlock s) = s.2 ∧
      (0 ≤ s.2 → ∀ o ∈ splitOuts nSplitBlock s, 0 ≤ o.nValue ∧ o.nValue ≤ s.2) := by
  obtain ⟨n, rfl⟩ : ∃ n : Nat, nSplitBlock = (n + 1 : Nat) := ⟨(nSplitBlock - 1).toNat, by omega⟩
  have hdivision := Int.mul_tdiv_add_tmod s.2 (n + 1 : Nat)
  have hsucc : ((n + 1 : Nat) : Int) * s.2.tdiv (n + 1 : Nat) = n * s.2.tdiv (n + 1 : Nat) + s.2.tdiv (n + 1 : Nat) := by
    push_cast
    ring
  rw [splitOuts_eq]
  constructor
  · have hrepl : voutValue (List.replicate n (paymentOut s.1 (s.2.tdiv (n + 1 : Nat)))) = n * s.2.tdiv (n + 1 : Nat) := by
      rw [voutValue, List.map_replicate, List.sum_replicate, nsmul_eq_mul]
      rfl
    rw [voutValue_append, hrepl]
    simp only [voutValue_cons, voutValue_nil, paymentOut]
    omega
  · intro hpos o ho
    have hquot : 0 ≤ s.2.tdiv (n + 1 : Nat) := Int.tdiv_nonneg hpos (by omega)
    have hrem : 0 ≤ s.2.tmod (n + 1 : Nat) := Int.tmod_nonneg _ hpos
    have hparts : 0 ≤ (n : Int) * s.2.tdiv (n + 1 : Nat) := Int.mul_nonneg (by omega) hquot
    rcases List.mem_append.mp ho with ho | ho
    · rw [List.eq_of_mem_replicate ho]
      simp only [paymentOut]
      omega
    · rw [List.mem_singleton.mp ho]
      simp only [paymentOut]
      omega

theorem payeeOuts_nil {minRelayTxFee : CFeeRate} {args : SendArgs} {coinControl : CCoinControl}
    (hcontrol : args.coinControl = some coinControl) (hsplit : coinControl.fSplitBlock = true)
    (hn : coinControl.nSplitBlock < 1) : payeeOuts minRelayTxFee args.coinControl args.vecSend = some [] := by
  have hnil : args.vecSend.flatMap (splitOuts coinControl.nSplitBlock) = [] := by
    rw [List.flatMap_eq_nil_iff]
    intro s _
    rw [splitOuts, Int.toNat_of_nonpos (by omega)]
    rfl
  unfold payeeOuts
  rw [hcontrol]
  simp only [hsplit, hnil, Bool.not_true, Bool.false_eq_true, if_false]

theorem payeeOuts_pays {minRelayTxFee : CFeeRate} {args : SendArgs} {vout : List CTxOut} (hsend : args.Sendable)
    (h : payeeOuts minRelayTxFee args.coinControl args.vecSend = some vout) : Pays args.vecSend vout := by
  have hsplit {nSplitBlock : Int} (hn : 1 ≤ nSplitBlock) : Pays args.vecSend (args.vecSend.flatMap (splitOuts nSplitBlock)) :=
    pays_flatMap args.vecSend (fun s _ => splitOuts_script) (fun s _ => (splitOuts_spec hn s).1) fun s _ => (splitOuts_spec hn s).2
  unfold payeeOuts at h
  cases hcontrol : args.coinControl with
  | none =>
    rw [hcontrol] at h
    cases h
    exact hsplit le_rfl
  | some coinControl =>
    rw [hcontrol] at h
    simp only at h
    cases hfSplit : coinControl.fSplitBlock with
    | false =>
      rw [hfSplit] at h
      simp only [Bool.not_false, if_true] at h
      split at h
      · cases h
      · cases h
        rw [List.map_eq_flatMap]
        apply pays_flatMap
        · intro s _ o ho
          rw [List.mem_singleton.mp ho]
          rfl
        · intro s _
          simp [paymentOut]
        · intro s _ hpos o ho
          rw [List.mem_singleton.mp ho]
          exact ⟨hpos, le_rfl⟩
    | true =>
      rcases Int.lt_or_le 0 coinControl.nSplitBlock with hn | hn
      · rw [hfSplit] at h
        cases h
        exact hsplit hn
      · -- no output, and nothing is requested
        have hvout := @payeeOuts_nil minRelayTxFee args coinControl hcontrol hfSplit (by omega)
        unfold payeeOuts at hvout
        rw [hcontrol] at hvout
        obtain rfl : [] = vout := Option.some.inj (hvout.symm.trans h)
        have hzero := (hsend.splits coinControl hcontrol hfSplit).resolve_left (by omega)
        have hsum {l : List (CScript × Int)} (hl : ∀ s ∈ l, s.2 = 0) : (l.map Prod.snd).sum = 0 := by
          apply List.sum_eq_zero
          intro a ha
          obtain ⟨s, hs, rfl⟩ := List.mem_map.mp ha
          exact hl s hs
        refine ⟨?_, fun s => ?_, fun _ o ho => by cases ho⟩
        · rw [amountTotal, hsum hzero]
          rfl
        · rw [requestedFor, hsum fun r hr => hzero r (List.mem_of_mem_filter hr)]
          rfl

/-! ## The change -/

/-- What the change does to outputs: some of it is paid to a script, and the rest goes to the fee. -/
structure Changes (s : CScript) (vout : List CTxOut) (nPaid : Int) (vout' : List CTxOut) : Prop where
  value : voutValue vout' = voutValue vout + nPaid
  received : ∀ s', receivedBy s' vout' = receivedBy s' vout + if s' = s then nPaid else 0
  nonneg : (∀ o ∈ vout, 0 ≤ o.nValue) → ∀ o ∈ vout', 0 ≤ o.nValue

theorem Changes.zero (s : CScript) (vout : List CTxOut) : Changes s vout 0 vout :=
  ⟨(add_zero _).symm, fun s' => by simp, fun h => h⟩

theorem Changes.cons {s : CScript} {vout vout' : List CTxOut} {nPaid : Int} (h : Changes s vout nPaid vout') (o : CTxOut) :
    Changes s (o :: vout) nPaid (o :: vout') := by
  refine ⟨?_, fun s' => ?_, fun hpos o' ho' => ?_⟩
  · rw [voutValue_cons, voutValue_cons, h.value]
    omega
  · rw [receivedBy_cons, receivedBy_cons, h.received s']
    omega
  · rcases List.mem_cons.mp ho' with rfl | ho'
    · exact hpos o' List.mem_cons_self
    · exact h.nonneg (fun o ho => hpos o (List.mem_cons_of_mem _ ho)) o' ho'

theorem changes_first (o : CTxOut) (vout : List CTxOut) {nChange : Int} (hpos : 0 ≤ nChange) :
    Changes o.scriptPubKey (o :: vout) nChange ({ o with nValue := o.nValue + nChange } :: vout) := by
  refine ⟨?_, fun s' => ?_, fun h o' ho' => ?_⟩
  · rw [voutValue_cons, voutValue_cons]
    simp only
    omega
  · rw [receivedBy_cons, receivedBy_cons]
    simp only [@eq_comm _ s']
    split <;> omega
  · rcases List.mem_cons.mp ho' with rfl | ho'
    · exact Int.add_nonneg (h o List.mem_cons_self) hpos
    · exact h o' (List.mem_cons_of_mem _ ho')

theorem changes_insertIdx (s : CScript) (vout : List CTxOut) {nChange : Int} (hpos : 0 ≤ nChange) (i : Nat) :
    Changes s vout nChange (vout.insertIdx (i % (vout.length + 1)) (paymentOut s nChange)) := by
  have hperm : (vout.insertIdx (i % (vout.length + 1)) (paymentOut s nChange)).Perm (paymentOut s nChange :: vout) :=
    List.perm_insertIdx _ _ (Nat.le_of_lt_succ (Nat.mod_lt _ (Nat.succ_pos _)))
  refine ⟨?_, fun s' => ?_, fun h o ho => ?_⟩
  · rw [voutValue_perm hperm, voutValue_cons]
    exact add_comm _ _
  · rw [receivedBy_perm s' hperm, receivedBy_cons]
    simp only [@eq_comm _ s']
    exact add_comm _ _
  · rcases List.mem_cons.mp (hperm.subset ho) with rfl | ho
    · exact hpos
    · exact h o ho

theorem combineChange_changes {s : CScript} {nChange : Int} (hpos : 0 ≤ nChange) : ∀ {vout vout' : List CTxOut},
    combineChange s nChange vout = some (some vout') → Changes s vout nChange vout'
  | [], _, h => by cases h
  | o :: vout, vout', h => by
    rw [combineChange] at h
    split at h
    · rename_i hscript
      obtain ⟨nValue, hadd, h⟩ := Option.map_eq_some_iff.mp h
      obtain rfl := addAmount_some hadd
      cases h
      rw [hscript]
      exact changes_first o vout hpos
    · obtain ⟨rest, hrest, h⟩ := Option.map_eq_some_iff.mp h
      cases rest with
      | none => cases h
      | some rest =>
        cases h
        exact (combineChange_changes hpos hrest).cons o

theorem combineChange_isSome {s : CScript} {nChange : Int} (hpos : 0 ≤ nChange) : ∀ {vout : List CTxOut},
    (∀ o ∈ vout, 0 ≤ o.nValue ∧ o.nValue + nChange ≤ int64Max) → ∃ r, combineChange s nChange vout = some r
  | [], _ => ⟨none, rfl⟩
  | o :: vout, h => by
    rw [combineChange]
    split
    · obtain ⟨hnonneg, hle⟩ := h o List.mem_cons_self
      rw [addAmount_eq (by omega) hle]
      exact ⟨_, rfl⟩
    · obtain ⟨r, hr⟩ := combineChange_isSome hpos fun o ho => h o (List.mem_cons_of_mem _ ho)
      rw [hr]
      exact ⟨_, rfl⟩

namespace SendWallet

variable {w : SendWallet} {args : SendArgs} {nRound : Nat} {nChange nFeeRet nFeeRet' : Int} {vout vout' : List CTxOut}

theorem insertChange_spec (hpos : 0 ≤ nChange) (h : w.insertChange args nRound vout nChange nFeeRet = (vout', nFeeRet')) :
    ∃ nPaid, nFeeRet ≤ nFeeRet' ∧ nPaid + nFeeRet' = nChange + nFeeRet ∧ Changes (w.scriptChange args) vout nPaid vout' := by
  unfold insertChange at h
  simp only at h
  split at h
  · cases h
    exact ⟨0, by omega, by omega, Changes.zero _ _⟩
  · cases h
    exact ⟨nChange, le_rfl, rfl, changes_insertIdx _ _ hpos _⟩

theorem addChange_spec (hpos : 0 ≤ nChange) (h : w.addChange args nRound vout nChange nFeeRet = some (vout', nFeeRet')) :
    ∃ nPaid, nFeeRet ≤ nFeeRet' ∧ nPaid + nFeeRet' = nChange + nFeeRet ∧ Changes (w.scriptChange args) vout nPaid vout' := by
  unfold addChange at h
  split at h
  · split at h
    · obtain ⟨r, hr, h⟩ := Option.bind_eq_some_iff.mp h
      cases r with
      | none => exact insertChange_spec hpos (Option.some.inj h)
      | some combined =>
        cases h
        exact ⟨nChange, le_rfl, rfl, combineChange_changes hpos hr⟩
    · exact insertChange_spec hpos (Option.some.inj h)
  · cases h
    obtain rfl : nChange = 0 := by omega
    exact ⟨0, le_rfl, rfl, Changes.zero _ _⟩

theorem addChange_isSome (hpos : 0 ≤ nChange) (h : ∀ o ∈ vout, 0 ≤ o.nValue ∧ o.nValue + nChange ≤ int64Max) :
    ∃ r, w.addChange args nRound vout nChange nFeeRet = some r := by
  unfold addChange
  split
  · split
    · obtain ⟨r, hr⟩ := @combineChange_isSome (w.scriptChange args) nChange hpos vout h
      rw [hr]
      cases r with
      | none => exact ⟨_, rfl⟩
      | some combined => exact ⟨_, rfl⟩
    · exact ⟨_, rfl⟩
  · exact ⟨_, rfl⟩

/-! ## Signing -/

theorem signAll_spec : ∀ (nIn n : Nat) {txNew tx : CMutableTransaction}, w.signAll nIn n txNew = some tx →
    tx.vout = txNew.vout ∧ tx.vin.map CTxIn.prevout = txNew.vin.map CTxIn.prevout
  | _, 0, _, _, h => by
    cases h
    exact ⟨rfl, rfl⟩
  | nIn, n + 1, txNew, tx, h => by
    obtain ⟨scriptSig, -, h⟩ := Option.bind_eq_some_iff.mp h
    obtain ⟨hvout, hvin⟩ := signAll_spec (nIn + 1) n h
    refine ⟨hvout, hvin.trans ?_⟩
    apply List.ext_getElem?
    intro i
    rw [List.getElem?_map, List.getElem?_map, List.getElem?_modify]
    cases txNew.vin[i]? with
    | none => rfl
    | some txin =>
      simp only [Option.map_some]
      split <;> rfl

end SendWallet

/-! ## The amounts -/

theorem sumAmounts_eq : ∀ {vecSend : List (CScript × Int)} {nValue total : Int},
    sumAmounts vecSend nValue = some (some total) → total = nValue + amountTotal vecSend ∧ 0 ≤ total
  | [], nValue, total, h => by
    rw [sumAmounts] at h
    split at h
    · cases h
    · cases h
      exact ⟨(add_zero _).symm, by omega⟩
  | s :: vecSend, nValue, total, h => by
    rw [sumAmounts] at h
    split at h
    · cases h
    · obtain ⟨nValue', hadd, h⟩ := Option.bind_eq_some_iff.mp h
      have hvalue := addAmount_some hadd
      obtain ⟨htotal, hpos⟩ := sumAmounts_eq h
      have hcons : amountTotal (s :: vecSend) = s.2 + amountTotal vecSend := by simp [amountTotal]
      exact ⟨by omega, hpos⟩

theorem sumAmounts_of_positive : ∀ {vecSend : List (CScript × Int)} {nValue : Int}, (∀ s ∈ vecSend, 0 ≤ s.2) → 0 ≤ nValue →
    nValue + amountTotal vecSend ≤ int64Max → sumAmounts vecSend nValue = some (some (nValue + amountTotal vecSend))
  | [], nValue, _, hpos, _ => by
    rw [sumAmounts, if_neg (Int.not_lt.mpr hpos)]
    exact congrArg (fun total => some (some total)) (add_zero nValue).symm
  | s :: vecSend, nValue, h, hpos, hle => by
    have hs := h s List.mem_cons_self
    have hrest := amountTotal_nonneg fun s hs => h s (List.mem_cons_of_mem _ hs)
    have hcons : amountTotal (s :: vecSend) = s.2 + amountTotal vecSend := by simp [amountTotal]
    have ih := @sumAmounts_of_positive vecSend (nValue + s.2) (fun s hs => h s (List.mem_cons_of_mem _ hs)) (by omega) (by omega)
    rw [sumAmounts, if_neg (Int.not_lt.mpr hpos), addAmount_eq (by omega) (by omega)]
    simp only [Option.bind_eq_bind, Option.bind_some]
    rw [ih, hcons, add_assoc]

namespace SendWallet

variable {w : SendWallet} {args : SendArgs} {nRound : Nat} {nTargetValue nValue nFeeRet : Int} {s : SelectedCoins}
  {created created' : Created}

/-! ## The coins -/

/-- The value of all coins. -/
def allCoins (w : SendWallet) : Int := valueOf (w.vCoins.map COutput.toWalletCoin)

theorem coin_nonneg {c : WalletCoin} (hc : c ∈ w.vCoins.map COutput.toWalletCoin) : 0 ≤ c.nValue := by
  obtain ⟨output, hout, rfl⟩ := List.mem_map.mp hc
  exact (w.range output hout).1

theorem allCoins_le (w : SendWallet) : w.allCoins + CENT ≤ int64Max := by
  have htotal : w.allCoins + w.maxTxFee + CENT ≤ int64Max := w.total
  have hmax := w.maxTxFee_nonneg
  omega

theorem countable_spendable (w : SendWallet) : Countable ((w.vCoins.filter COutput.fSpendable).map COutput.toWalletCoin) := by
  have hcent : 0 ≤ CENT := by decide
  have hall := w.allCoins_le
  have hcount : Countable (w.vCoins.map COutput.toWalletCoin) := by
    refine ⟨fun c hc => coin_nonneg hc, ?_⟩
    rw [allCoins] at hall
    omega
  exact hcount.of_sublist (List.filter_sublist.map _)

theorem selectCoins_chosen (hpos : 0 ≤ nTargetValue) (h : w.selectCoins args nRound nTargetValue = some (true, s)) :
    nTargetValue ≤ s.2 ∧ (∀ c ∈ s.1, c ∈ w.vCoins.map COutput.toWalletCoin) ∧ s.2 = ∑ c ∈ s.1, c.nValue := by
  have hexact {env : SelectEnv} (h : env.selectCoinsMinConf nTargetValue w.vCoins = some (true, s)) :
      nTargetValue ≤ s.2 ∧ (∀ c ∈ s.1, c ∈ w.vCoins.map COutput.toWalletCoin) ∧ s.2 = ∑ c ∈ s.1, c.nValue := by
    have hex := SelectEnv.exact_of_selected hpos w.distinct w.range w.allCoins_le h
    refine ⟨hex.reached rfl, fun c hc => ?_, hex.value⟩
    obtain ⟨output, hout, -, hcoin⟩ := hex.chosen c hc
    exact List.mem_map.mpr ⟨output, hout, hcoin⟩
  unfold selectCoins at h
  split at h
  · rw [addAll_eq w.countable_spendable] at h
    simp only [Option.bind_eq_bind, Option.bind_some, Option.some.injEq, Prod.mk.injEq, decide_eq_true_eq] at h
    obtain ⟨hreach, rfl⟩ := h
    refine ⟨hreach, fun c hc => ?_, ?_⟩
    · exact (List.filter_sublist.map COutput.toWalletCoin).subset (List.mem_toFinset.mp hc)
    · have hnodup : ((w.vCoins.filter COutput.fSpendable).map COutput.toWalletCoin).Nodup :=
        w.distinct.sublist (List.filter_sublist.map _)
      exact (List.sum_toFinset WalletCoin.nValue hnodup).symm
  · obtain ⟨r, hr, h⟩ := Option.bind_eq_some_iff.mp h
    split at h
    · cases h
      exact hexact hr
    · obtain ⟨r', hr', h⟩ := Option.bind_eq_some_iff.mp h
      split at h
      · cases h
        exact hexact hr'
      · rename_i hnot
        split at h
        · exact hexact h
        · rw [Option.some.inj h] at hnot
          exact absurd rfl hnot

theorem selectCoins_isSome (hpos : 0 ≤ nTargetValue) (hlimit : nTargetValue + CENT ≤ int64Max) :
    ∃ r, w.selectCoins args nRound nTargetValue = some r := by
  have hcent : 0 ≤ CENT := by decide
  have hsome (env : SelectEnv) : ∃ r, env.selectCoinsMinConf nTargetValue w.vCoins = some r := by
    have hall := w.allCoins_le
    rw [allCoins] at hall
    have hfits : env.Fits nTargetValue w.vCoins := .of_total hlimit (fun c hc => coin_nonneg hc) (by omega)
    obtain ⟨r, hr, -⟩ := hfits.selectsExactly hpos w.distinct w.range
    exact ⟨r, hr⟩
  unfold selectCoins
  split
  · rw [addAll_eq w.countable_spendable]
    exact ⟨_, rfl⟩
  · obtain ⟨r, hr⟩ := hsome (w.selectEnv nRound 0 1 6)
    obtain ⟨r', hr'⟩ := hsome (w.selectEnv nRound 1 1 1)
    simp only [hr, hr', Option.bind_eq_bind, Option.bind_some]
    split
    · exact ⟨_, rfl⟩
    · split
      · exact ⟨_, rfl⟩
      · split
        · exact hsome _
        · exact ⟨_, rfl⟩

theorem inOrder_spec (hsub : ∀ c ∈ s.1, c ∈ w.vCoins.map COutput.toWalletCoin) (hsum : s.2 = ∑ c ∈ s.1, c.nValue) :
    (w.inOrder s.1).Nodup ∧ valueOf (w.inOrder s.1) = s.2 ∧ s.2 ≤ w.allCoins := by
  have hnodup : (w.inOrder s.1).Nodup := (w.order.nodup_iff.mpr w.distinct).sublist List.filter_sublist
  have hvalue : valueOf (w.inOrder s.1) = s.2 := by
    have hset : (w.inOrder s.1).toFinset = s.1 := by
      ext c
      rw [List.mem_toFinset, inOrder, List.mem_filter, decide_eq_true_eq]
      exact ⟨And.right, fun hc => ⟨w.order.symm.subset (hsub c hc), hc⟩⟩
    rw [hsum]
    nth_rewrite 2 [← hset]
    exact (List.sum_toFinset WalletCoin.nValue hnodup).symm
  refine ⟨hnodup, hvalue, ?_⟩
  calc s.2 = valueOf (w.inOrder s.1) := hvalue.symm
    _ ≤ valueOf w.coinOrder := totalCost_le_of_sublist List.filter_sublist fun c hc => coin_nonneg (w.order.subset hc)
    _ = w.allCoins := totalCost_perm w.order

/-! ## A round -/

/-- What a round has made when it comes to the fee. -/
structure Made (w : SendWallet) (args : SendArgs) (nValue nFeeRet : Int) (created : Created) : Prop where
  distinct : created.setCoins.Nodup
  enough : nValue + nFeeRet ≤ w.allCoins
  spends : created.tx.vin.map CTxIn.prevout = created.setCoins.map fun c => c.txIn.prevout
  more : nFeeRet ≤ created.nFeeRet
  outs : ∃ vout nPaid, payeeOuts w.minRelayTxFee args.coinControl args.vecSend = some vout ∧
    Changes (w.scriptChange args) vout nPaid created.tx.vout ∧
    valueOf created.setCoins = nValue + nPaid + created.nFeeRet

theorem attempt_cases (hvalue : 0 ≤ nValue) (hfee : 0 ≤ nFeeRet) {fVoided : Bool} {a : Attempt}
    (h : w.attempt args nValue nRound nFeeRet fVoided = some a) :
    (∃ strFailReason, a = .refused strFailReason) ∨ ∃ created, Made w args nValue nFeeRet created ∧ a = w.checkFee args created := by
  obtain ⟨nTotalValue, hadd, h⟩ := Option.bind_eq_some_iff.mp h
  obtain rfl := addAmount_some hadd
  cases hpayees : payeeOuts w.minRelayTxFee args.coinControl args.vecSend with
  | none =>
    rw [hpayees] at h
    exact .inl ⟨_, (Option.some.inj h).symm⟩
  | some vout =>
    rw [hpayees] at h
    obtain ⟨⟨fSelected, setCoins, nValueIn⟩, hselect, h⟩ := Option.bind_eq_some_iff.mp h
    cases fSelected with
    | false => exact .inl ⟨_, (Option.some.inj h).symm⟩
    | true =>
      obtain ⟨hreach, hsub, hsum⟩ := selectCoins_chosen (by omega) hselect
      obtain ⟨hnodup, hcoins, hall⟩ := inOrder_spec hsub hsum
      simp only at hreach hcoins hall
      obtain ⟨⟨vout', nFeeRet'⟩, hchange, h⟩ := Option.bind_eq_some_iff.mp h
      have hspec : ∃ nPaid, nFeeRet ≤ nFeeRet' ∧ nPaid + nFeeRet' = nValueIn - nValue ∧
          Changes (w.scriptChange args) vout nPaid vout' := by
        split at hchange
        · obtain ⟨nPaid, hmore, hbalance, hchanges⟩ := addChange_spec le_rfl hchange
          exact ⟨nPaid, by omega, by omega, hchanges⟩
        · obtain ⟨nPaid, hmore, hbalance, hchanges⟩ := addChange_spec (by omega) hchange
          exact ⟨nPaid, by omega, by omega, hchanges⟩
      obtain ⟨nPaid, hmore, hbalance, hchanges⟩ := hspec
      cases hsign : w.signAll 0 (w.inOrder setCoins).length
        ⟨1, (w.inOrder setCoins).map WalletCoin.txIn, vout', 0⟩ with
      | none =>
        simp only [hsign] at h
        exact .inl ⟨_, (Option.some.inj h).symm⟩
      | some txNew =>
        simp only [hsign] at h
        obtain ⟨hvout, hvin⟩ := signAll_spec _ _ hsign
        refine .inr ⟨_, ⟨hnodup, by omega, ?_, hmore, vout, nPaid, hpayees, ?_, ?_⟩, (Option.some.inj h).symm⟩
        · simp only [hvin, List.map_map]
          rfl
        · simp only [hvout]
          exact hchanges
        · simp only [hcoins]
          omega

theorem getMinimumFee_le (w : SendWallet) (nTxBytes : Nat) : w.getMinimumFee nTxBytes ≤ w.maxTxFee := by
  have hobey (nFeeNeeded : Int) : (if w.maxTxFee < nFeeNeeded then w.maxTxFee else nFeeNeeded) ≤ w.maxTxFee := by
    split <;> omega
  exact hobey _

theorem checkFee_done (h : w.checkFee args created = .done created') :
    created' = created ∧ (w.qualifiesFree created.setCoins created.tx = true ∨ w.feeNeeded args created.tx ≤ created.nFeeRet) := by
  unfold checkFee at h
  simp only at h
  split at h
  · cases h
  · split at h
    · rename_i hfree
      cases h
      exact ⟨rfl, .inl hfree⟩
    · split at h
      · cases h
      · split at h
        · rename_i hle
          cases h
          exact ⟨rfl, .inr hle⟩
        · cases h

theorem checkFee_again {nFeeRet' : Int} {fVoided : Bool} (h : w.checkFee args created = .again nFeeRet' fVoided) :
    created.nFeeRet < nFeeRet' ∧ nFeeRet' ≤ max args.feePay w.maxTxFee := by
  unfold checkFee at h
  simp only at h
  split at h
  · cases h
  · split at h
    · cases h
    · split at h
      · cases h
      · split at h
        · cases h
        · cases h
          have hle := w.getMinimumFee_le (CoinStakeEnv.serializeSize created.tx)
          rw [feeNeeded] at *
          omega

theorem payeeOuts_cases (hpos : ∀ s ∈ args.vecSend, 0 ≤ s.2) {minRelayTxFee : CFeeRate} {vout : List CTxOut}
    (h : payeeOuts minRelayTxFee args.coinControl args.vecSend = some vout) : Pays args.vecSend vout ∨ vout = [] := by
  by_cases hsend : args.Sendable
  · exact .inl (payeeOuts_pays hsend h)
  · have hnone : ∃ coinControl, args.coinControl = some coinControl ∧ coinControl.fSplitBlock = true ∧
        coinControl.nSplitBlock < 1 := by
      by_contra hnone
      apply hsend
      refine ⟨hpos, fun coinControl hcontrol hsplit => .inl ?_⟩
      exact Int.not_lt.mp fun hlt => hnone ⟨coinControl, hcontrol, hsplit, hlt⟩
    obtain ⟨coinControl, hcontrol, hsplit, hn⟩ := hnone
    rw [payeeOuts_nil hcontrol hsplit hn] at h
    exact .inr (Option.some.inj h).symm

theorem attempt_isSome (hpos : ∀ s ∈ args.vecSend, 0 ≤ s.2) (hfee : 0 ≤ nFeeRet)
    (hlimit : amountTotal args.vecSend + nFeeRet + CENT ≤ int64Max) (fVoided : Bool) :
    ∃ a, w.attempt args (amountTotal args.vecSend) nRound nFeeRet fVoided = some a := by
  have hcent : CENT = 1000000 := rfl
  have hvalue := amountTotal_nonneg hpos
  rw [attempt, addAmount_eq (by omega) (by omega)]
  simp only [Option.bind_eq_bind, Option.bind_some]
  cases hpayees : payeeOuts w.minRelayTxFee args.coinControl args.vecSend with
  | none => exact ⟨_, rfl⟩
  | some vout =>
    have hbounds : ∀ o ∈ vout, 0 ≤ o.nValue ∧ o.nValue ≤ amountTotal args.vecSend := by
      rcases payeeOuts_cases hpos hpayees with hpays | rfl
      · exact hpays.nonneg hpos
      · intro o ho
        cases ho
    obtain ⟨⟨fSelected, setCoins, nValueIn⟩, hselect⟩ := @selectCoins_isSome w args nRound _ (by omega) hlimit
    simp only [hselect, Option.bind_some]
    cases fSelected with
    | false => exact ⟨_, rfl⟩
    | true =>
      obtain ⟨hreach, hsub, hsum⟩ := selectCoins_chosen (by omega) hselect
      obtain ⟨-, -, hle⟩ := inOrder_spec hsub hsum
      simp only at hreach hle
      have hall := w.allCoins_le
      have hchange (fObfuscated : Bool) (nFee : Int) : ∃ r, w.addChange args nRound vout
          (if fObfuscated then 0 else nValueIn - amountTotal args.vecSend - nFeeRet) nFee = some r := by
        apply addChange_isSome
        · split <;> omega
        · intro o ho
          obtain ⟨ho, hmax⟩ := hbounds o ho
          refine ⟨ho, ?_⟩
          split <;> omega
      obtain ⟨r, hr⟩ := hchange (decide (args.coin_type = .ONLY_DENOMINATED)) (if decide (args.coin_type = .ONLY_DENOMINATED) then
        nFeeRet + (nValueIn - amountTotal args.vecSend - nFeeRet) else nFeeRet)
      simp only [Bool.not_true, Bool.false_eq_true, if_false, hr, Option.bind_some]
      split <;> exact ⟨_, rfl⟩

/-! ## The fee loop -/

/-- The fee that is needed at most. -/
def maxFee (w : SendWallet) (args : SendArgs) : Int := max args.feePay w.maxTxFee

/-- The rounds of the fee loop at most. -/
def rounds (w : SendWallet) (args : SendArgs) : Nat := (w.maxFee args - max 0 args.feePay).toNat + 1

theorem attempt_again (hvalue : 0 ≤ nValue) (hfee : 0 ≤ nFeeRet) {nFeeRet' : Int} {fVoided fVoided' : Bool}
    (h : w.attempt args nValue nRound nFeeRet fVoided = some (.again nFeeRet' fVoided')) :
    nFeeRet < nFeeRet' ∧ nFeeRet' ≤ w.maxFee args ∧ nValue ≤ w.allCoins := by
  rcases attempt_cases hvalue hfee h with ⟨strFailReason, h⟩ | ⟨created, hmade, h⟩
  · cases h
  · obtain ⟨hlt, hle⟩ := checkFee_again h.symm
    have hmore := hmade.more
    have henough := hmade.enough
    exact ⟨by omega, hle, by omega⟩

theorem feeLoop_stable (hvalue : 0 ≤ nValue) : ∀ (fuel fuel' nRound : Nat) {nFeeRet : Int} (fVoided : Bool), 0 ≤ nFeeRet →
    (w.maxFee args - nFeeRet).toNat < fuel → (w.maxFee args - nFeeRet).toNat < fuel' →
    w.feeLoop args nValue fuel nRound nFeeRet fVoided = w.feeLoop args nValue fuel' nRound nFeeRet fVoided
  | 0, _, _, _, _, _, h, _ => absurd h (Nat.not_lt_zero _)
  | _, 0, _, _, _, _, _, h => absurd h (Nat.not_lt_zero _)
  | fuel + 1, fuel' + 1, nRound, nFeeRet, fVoided, hfee, hfuel, hfuel' => by
    rw [feeLoop, feeLoop]
    cases hattempt : w.attempt args nValue nRound nFeeRet fVoided with
    | none => rfl
    | some a =>
      cases a with
      | refused strFailReason => rfl
      | done created => rfl
      | again nFeeRet' fVoided' =>
        obtain ⟨hlt, hle, -⟩ := attempt_again hvalue hfee hattempt
        exact feeLoop_stable hvalue fuel fuel' (nRound + 1) fVoided' (by omega) (by omega) (by omega)

theorem feeLoop_isSome (hpos : ∀ s ∈ args.vecSend, 0 ≤ s.2)
    (hlimit : amountTotal args.vecSend + max 0 args.feePay + CENT ≤ int64Max) :
    ∀ (fuel nRound : Nat) {nFeeRet : Int} (fVoided : Bool), 0 ≤ nFeeRet →
      amountTotal args.vecSend + nFeeRet + CENT ≤ int64Max → (w.maxFee args - nFeeRet).toNat < fuel →
      ∃ r, w.feeLoop args (amountTotal args.vecSend) fuel nRound nFeeRet fVoided = some r
  | 0, _, _, _, _, _, h => absurd h (Nat.not_lt_zero _)
  | fuel + 1, nRound, nFeeRet, fVoided, hfee, hfits, hfuel => by
    obtain ⟨a, hattempt⟩ := @attempt_isSome w args nRound nFeeRet hpos hfee hfits fVoided
    rw [feeLoop, hattempt]
    simp only [Option.bind_eq_bind, Option.bind_some]
    cases a with
    | refused strFailReason => exact ⟨_, rfl⟩
    | done created => exact ⟨_, rfl⟩
    | again nFeeRet' fVoided' =>
      obtain ⟨hlt, hle, hall⟩ := attempt_again (amountTotal_nonneg hpos) hfee hattempt
      have hnext : amountTotal args.vecSend + nFeeRet' + CENT ≤ int64Max := by
        have htotal : w.allCoins + w.maxTxFee + CENT ≤ int64Max := w.total
        rw [maxFee] at hle
        omega
      exact feeLoop_isSome hpos hlimit fuel (nRound + 1) fVoided' (by omega) hnext (by omega)

theorem feeLoop_ok (hvalue : 0 ≤ nValue) : ∀ (fuel nRound : Nat) {nFeeRet : Int} {fVoided : Bool}, 0 ≤ nFeeRet →
    w.feeLoop args nValue fuel nRound nFeeRet fVoided = some (.ok created) →
    ∃ nFee, 0 ≤ nFee ∧ Made w args nValue nFee created ∧
      (w.qualifiesFree created.setCoins created.tx = true ∨ w.feeNeeded args created.tx ≤ created.nFeeRet)
  | 0, _, _, _, _, h => by cases h
  | fuel + 1, nRound, nFeeRet, fVoided, hfee, h => by
    obtain ⟨a, hattempt, h⟩ := Option.bind_eq_some_iff.mp h
    cases a with
    | refused strFailReason => cases h
    | done done =>
      cases h
      rcases attempt_cases hvalue hfee hattempt with ⟨strFailReason, hdone⟩ | ⟨made, hmade, hdone⟩
      · cases hdone
      · obtain ⟨rfl, henough⟩ := checkFee_done hdone.symm
        exact ⟨nFeeRet, hfee, hmade, henough⟩
    | again nFeeRet' fVoided' =>
      obtain ⟨hlt, -, -⟩ := attempt_again hvalue hfee hattempt
      exact feeLoop_ok hvalue fuel (nRound + 1) (by omega) h

/-! ## The transaction -/

theorem createTransaction_made {fuel : Nat} (h : w.createTransaction fuel args = some (.ok created)) :
    0 ≤ amountTotal args.vecSend ∧ ∃ nFee, 0 ≤ nFee ∧ Made w args (amountTotal args.vecSend) nFee created ∧
      (w.qualifiesFree created.setCoins created.tx = true ∨ w.feeNeeded args created.tx ≤ created.nFeeRet) := by
  obtain ⟨sum, hsum, h⟩ := Option.bind_eq_some_iff.mp h
  cases sum with
  | none => cases h
  | some nValue =>
    obtain ⟨htotal, hvalue⟩ := sumAmounts_eq hsum
    obtain rfl : nValue = amountTotal args.vecSend := by omega
    simp only at h
    split at h
    · cases h
    · exact ⟨hvalue, feeLoop_ok hvalue fuel 0 (by split <;> omega) h⟩

theorem Made.sound {nFee : Int} (hmade : Made w args (amountTotal args.vecSend) nFee created) (hsend : args.Sendable)
    (hfee : w.qualifiesFree created.setCoins created.tx = true ∨ w.feeNeeded args created.tx ≤ created.nFeeRet) :
    w.Sound args created := by
  obtain ⟨vout, nPaid, hpayees, hchanges, hbalance⟩ := hmade.outs
  have hpays := payeeOuts_pays hsend hpayees
  have hvalue := hchanges.value
  have htotal := hpays.value
  refine ⟨hsend.positive, ?_, hmade.spends, hmade.distinct, fun s hs => ?_, by omega, hfee⟩
  · exact hchanges.nonneg fun o ho => (hpays.nonneg hsend.positive o ho).1
  · obtain rfl : nPaid = valueOf created.setCoins - amountTotal args.vecSend - created.nFeeRet := by omega
    rw [hchanges.received, hpays.received]

theorem Made.sendable {nFee : Int} (hmade : Made w args (amountTotal args.vecSend) nFee created)
    (hsound : w.Sound args created) : args.Sendable := by
  refine ⟨hsound.positive, fun coinControl hcontrol hsplit => ?_⟩
  by_cases hn : 1 ≤ coinControl.nSplitBlock
  · exact .inl hn
  · right
    obtain ⟨vout, nPaid, hpayees, hchanges, hbalance⟩ := hmade.outs
    rw [payeeOuts_nil hcontrol hsplit (by omega)] at hpayees
    obtain rfl : [] = vout := Option.some.inj hpayees
    have hvalue := hchanges.value
    have hreturned := hsound.balance
    rw [voutValue_nil] at hvalue
    have htotal : amountTotal args.vecSend = 0 := by omega
    intro s hs
    have hle : s.2 ≤ amountTotal args.vecSend := by
      apply List.single_le_sum
      · intro a ha
        obtain ⟨r, hr, rfl⟩ := List.mem_map.mp ha
        exact hsound.positive r hr
      · exact List.mem_map_of_mem hs
    have hnonneg := hsound.positive s hs
    omega

/-- The fee loop ends. A transaction that it makes loses no money exactly where no amount is negative and the amounts are split into
one output at least. -/
theorem createTransaction_sound_iff (w : SendWallet) (args : SendArgs) :
    (∀ fuel, w.rounds args ≤ fuel → w.createTransaction fuel args = w.createTransaction (w.rounds args) args) ∧
    ((∀ s ∈ args.vecSend, 0 ≤ s.2) → amountTotal args.vecSend + max 0 args.feePay + CENT ≤ int64Max →
      ∃ r, w.createTransaction (w.rounds args) args = some r) ∧
    ∀ fuel created, w.createTransaction fuel args = some (.ok created) → (w.Sound args created ↔ args.Sendable) := by
  have hfirst : (if 0 < args.feePay then args.feePay else 0) = max 0 args.feePay := by
    split <;> omega
  have hcent : CENT = 1000000 := rfl
  refine ⟨fun fuel hfuel => ?_, fun hpos hlimit => ?_, fun fuel created h => ?_⟩
  · unfold createTransaction
    cases hsum : sumAmounts args.vecSend 0 with
    | none => rfl
    | some sum =>
      cases sum with
      | none => rfl
      | some nValue =>
        obtain ⟨-, hvalue⟩ := sumAmounts_eq hsum
        simp only [Option.bind_eq_bind, Option.bind_some, hfirst]
        split
        · rfl
        · apply feeLoop_stable hvalue
          · omega
          · rw [rounds] at hfuel
            omega
          · exact Nat.lt_succ_self _
  · have hsum := sumAmounts_of_positive hpos le_rfl (by omega)
    rw [zero_add] at hsum
    rw [createTransaction, hsum]
    simp only [Option.bind_eq_bind, Option.bind_some, hfirst]
    split
    · exact ⟨_, rfl⟩
    · exact feeLoop_isSome hpos hlimit _ 0 false (by omega) hlimit (Nat.lt_succ_self _)
  · obtain ⟨-, nFee, -, hmade, hfee⟩ := createTransaction_made h
    exact ⟨hmade.sendable, fun hsend => hmade.sound hsend hfee⟩

/-- A wallet with one coin, of 20 cents. -/
def oneCoinWallet : SendWallet where
  vCoins := [⟨⟨⟨1, [⟨20 * CENT, ([] : List UInt8), -10⟩], false⟩, 0⟩, 10, true⟩]
  coinOrder := [⟨⟨1, [⟨20 * CENT, ([] : List UInt8), -10⟩], false⟩, 0⟩]
  bSpendZeroConfChange := true
  obfuScationDenominations := []
  choices := fun _ _ => (id, fun _ => true, fun _ => false)
  getRandInt := id
  reservedKey := 7
  signSignature := fun _ _ => some ([OP_1] : List UInt8)
  fSendFreeTransactions := false
  enoughPriority := fun _ _ => false
  minRelayTxFee := 10000
  payTxFee := 0
  fPayAtLeastCustomFee := true
  estimateFee := 0
  minTxFee := 10000
  maxTxFee := COIN
  distinct := by simp
  range := by decide
  order := List.Perm.refl _
  total := by decide
  maxTxFee_nonneg := by decide

/-- Two amounts for one payee: ten cents, and another one. -/
def sendTwo (nAmount : Int) : SendArgs :=
  let payee : CScript := ([CScriptCompressor.OP_EQUAL] : List UInt8)
  ⟨[(payee, 10 * CENT), (payee, nAmount)], none, .ALL_COINS, false, CENT⟩

theorem sendTwo_sendable {nAmount : Int} (h : 0 ≤ nAmount) : (sendTwo nAmount).Sendable := by
  refine ⟨fun s hs => ?_, fun coinControl hcontrol => by cases hcontrol⟩
  rcases List.mem_cons.mp hs with rfl | hs
  · decide
  · rw [List.mem_singleton.mp hs]
    exact h

theorem createTransaction_sound_iff_oneCoin : ∃ created,
    oneCoinWallet.createTransaction 1 (sendTwo 5) = some (.ok created) ∧ oneCoinWallet.Sound (sendTwo 5) created := by
  obtain ⟨created, h⟩ : ∃ created, oneCoinWallet.createTransaction 1 (sendTwo 5) = some (.ok created) := ⟨_, rfl⟩
  obtain ⟨-, -, hiff⟩ := createTransaction_sound_iff oneCoinWallet (sendTwo 5)
  exact ⟨created, h, (hiff 1 created h).mpr (sendTwo_sendable (by decide))⟩

/-- The last amount is negative, and the sum before it is not. -/
theorem not_createTransaction_sound_oneCoin : ¬ ∀ (w : SendWallet) (args : SendArgs) (fuel : Nat) (created : Created),
    w.createTransaction fuel args = some (.ok created) → w.Sound args created := by
  intro hclaim
  obtain ⟨created, h⟩ : ∃ created, oneCoinWallet.createTransaction 1 (sendTwo (-5)) = some (.ok created) := ⟨_, rfl⟩
  have hpositive := (hclaim _ _ _ _ h).positive _ (List.mem_cons_of_mem _ List.mem_cons_self)
  revert hpositive
  decide

end SendWallet

end DigiWage
