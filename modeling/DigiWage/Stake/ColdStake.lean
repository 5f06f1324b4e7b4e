import DigiWage.Primitives
import Mathlib.Algebra.BigOperators.Group.List.Basic
import Mathlib.Data.Int.Basic

/-!
# Cold staking

A pay-to-cold-staking script lets a delegate stake the coins of an owner. `CTransaction::CheckColdStake` is the test of
`OP_CHECKCOLDSTAKEVERIFY`, and `CheckColdStakeFreeOutput` the test of `CheckBlock` for the last output of a coinstake.
-/

namespace DigiWage

/-! ## Rewards -/

def getBlockValue (nHeight : Int) : Int :=
  if nHeight = 0 then 27179800 * COIN
  else if 0 < nHeight ∧ nHeight < 86400 then 120 * COIN
  else if 86400 ≤ nHeight ∧ nHeight < 259200 then 60 * COIN
  else if 259200 ≤ nHeight ∧ nHeight < 432000 then 30 * COIN
  else if 432000 ≤ nHeight ∧ nHeight < 604800 then 15 * COIN
  else 750000000

/-- `GetMasternodePayment`: 66.66% of the block value. -/
def getMasternodePayment (_nHeight blockValue _nMasternodeCount : Int) : Int := blockValue.tdiv 3 * 2

theorem getMasternodePayment_nonneg (nHeight : Int) :
    0 ≤ getMasternodePayment nHeight (getBlockValue nHeight) 0 := by
  unfold getMasternodePayment getBlockValue
  repeat' split
  all_goals decide

/-! ## The two checks -/

def CTransaction.checkColdStake (tx : CTransaction) (script : CScript) : Bool :=
  if !tx.isCoinStake then false
  else
    match tx.vin, tx.vout with
    | txin :: vin, _ :: o :: vout =>
      if vin.any (·.scriptSig ≠ txin.scriptSig) then false
      else if o.scriptPubKey ≠ script then false
      -- the outputs from the third to the last but one
      else if decide (3 < tx.vin.length) && vout.dropLast.any (·.scriptPubKey ≠ script) then false
      else true
    | _, _ => false

/-- What `CheckColdStakeFreeOutput` asks the node. -/
structure StakeEnv where
  isRegTestNet : Bool
  isSynced : Bool
  isBudgetPaymentBlock : Int → Bool
  superblocksEnabled : Bool
  getTransaction : Uint256 → Option CTransaction

/-- `CheckColdStakeFreeOutput` before the node is synced: the staker does not transfer value to the free output. -/
def checkFreeOutputUnsynced (env : StakeEnv) (tx : CTransaction) (nHeight : Int) : Option Bool :=
  match tx.vin with
  | [] => none
  | txin :: _ =>
    match env.getTransaction txin.prevout.hash with
    | none => some false
    | some txPrev =>
      match txPrev.vout[txin.prevout.n]? with
      | none => none
      | some o =>
        let amtIn := o.nValue + getBlockValue (nHeight - 1)
        let amtOut := (tx.vout.tail.dropLast.map CTxOut.nValue).sum
        some (amtOut == amtIn)

/-- `CheckColdStakeFreeOutput`; `none` when it reads past the end of a vector. -/
def checkColdStakeFreeOutput (env : StakeEnv) (tx : CTransaction) (nHeight : Int) : Option Bool :=
  if !tx.hasP2CSOutputs then some true
  else
    match tx.vout.reverse with
    | lastOut :: prevOut :: _ :: _ =>
      if lastOut.scriptPubKey ≠ prevOut.scriptPubKey then
        -- last output can either be a mn reward or a budget payment
        if lastOut.nValue = getMasternodePayment nHeight (getBlockValue nHeight) 0 then some true
        else if env.isRegTestNet then some false
        else if !env.isSynced then checkFreeOutputUnsynced env tx nHeight
        else if env.isBudgetPaymentBlock nHeight then some env.superblocksEnabled
        else some false
      else some true
    | _ => some true

/-! ## The coins of the owner -/

/-- The value of the outputs that do not carry the script. -/
def foreignValue (tx : CTransaction) (script : CScript) : Int :=
  ((tx.vout.filter (·.scriptPubKey ≠ script)).map CTxOut.nValue).sum

/-- The coinstake passes both checks for a cold-staking script, on a synced node and at a height without budget
payments. -/
structure ColdStakeAccepted (env : StakeEnv) (tx : CTransaction) (script : CScript) (nHeight : Int) : Prop where
  p2cs : script.isPayToColdStaking = true
  coldStake : tx.checkColdStake script = true
  synced : env.isSynced = true
  noBudget : env.isBudgetPaymentBlock nHeight = false
  freeOutput : checkColdStakeFreeOutput env tx nHeight = some true

/-- At most the masternode payment leaves the script, and only in the last output. -/
structure OwnerSafe (tx : CTransaction) (script : CScript) (nHeight : Int) : Prop where
  value : foreignValue tx script ≤ getMasternodePayment nHeight (getBlockValue nHeight) 0
  scripts : ∀ i o, tx.vout[i]? = some o → 0 < i → i + 1 < tx.vout.length → o.scriptPubKey = script

theorem CTransaction.shape_of_isCoinStake {tx : CTransaction} (h : tx.isCoinStake = true) :
    ∃ txin vin m o vout, tx.vin = txin :: vin ∧ tx.vout = m :: o :: vout ∧ m.isEmpty = true := by
  unfold isCoinStake at h
  split at h
  · cases h
  · rename_i txin vin hvin
    split at h
    · cases h
    · split at h
      · rename_i m o vout hvout
        exact ⟨txin, vin, m, o, vout, hvin, hvout, h⟩
      · cases h

theorem CTransaction.checkColdStake_spec {tx : CTransaction} {script : CScript}
    (h : tx.checkColdStake script = true) : ∃ m o vout, tx.vout = m :: o :: vout ∧ m.isEmpty = true ∧
      o.scriptPubKey = script ∧ (3 < tx.vin.length → ∀ x ∈ vout.dropLast, x.scriptPubKey = script) := by
  unfold checkColdStake at h
  split at h
  · cases h
  · rename_i hcs
    rw [Bool.not_eq_true', Bool.not_eq_false] at hcs
    obtain ⟨txin, vin, m, o, vout, hvin, hvout, hm⟩ := shape_of_isCoinStake hcs
    rw [hvin, hvout] at h
    refine ⟨m, o, vout, hvout, hm, ?_⟩
    simp only at h
    split at h
    · cases h
    · split at h
      · cases h
      · rename_i ho
        split at h
        · cases h
        · rename_i hmid
          refine ⟨by simpa using ho, fun hlen x hx => ?_⟩
          by_contra hne
          refine hmid ?_
          rw [← hvin, decide_eq_true hlen, Bool.true_and, List.any_eq_true]
          exact ⟨x, hx, by simpa using hne⟩

theorem freeOutput_spec {env : StakeEnv} {tx : CTransaction} {nHeight : Int} (hp : tx.hasP2CSOutputs = true)
    (hsync : env.isSynced = true) (hbudget : env.isBudgetPaymentBlock nHeight = false)
    (h : checkColdStakeFreeOutput env tx nHeight = some true) {a b : CTxOut} {l : List CTxOut}
    (hvout : tx.vout.reverse = b :: a :: l) (hl : l ≠ []) : b.scriptPubKey = a.scriptPubKey ∨
      b.nValue = getMasternodePayment nHeight (getBlockValue nHeight) 0 := by
  obtain ⟨c, l, rfl⟩ := List.exists_cons_of_ne_nil hl
  unfold checkColdStakeFreeOutput at h
  rw [hp, hvout, hsync, hbudget] at h
  simp only [Bool.not_true, Bool.false_eq_true, if_false] at h
  split at h
  · split at h
    · rename_i heq
      exact Or.inr heq
    · split at h <;> cases h
  · rename_i heq
    exact Or.inl (by simpa using heq)

theorem foreignValue_cons {tx : CTransaction} {script : CScript} {m o : CTxOut} {vout : List CTxOut}
    (hvout : tx.vout = m :: o :: vout) (hm : m.isEmpty = true) (ho : o.scriptPubKey = script) :
    foreignValue tx script = ((vout.filter (·.scriptPubKey ≠ script)).map CTxOut.nValue).sum := by
  have hm0 : m.nValue = 0 := by
    unfold CTxOut.isEmpty at hm
    rw [Bool.and_eq_true, beq_iff_eq] at hm
    exact hm.1
  unfold foreignValue
  rw [hvout, List.filter_cons, List.filter_cons_of_neg (by simp [ho])]
  split
  · rw [List.map_cons, List.sum_cons, hm0, zero_add]
  · rfl

theorem ownerSafe_of_middle {env : StakeEnv} {tx : CTransaction} {script : CScript} {nHeight : Int}
    (h : ColdStakeAccepted env tx script nHeight) {m o : CTxOut} {vout : List CTxOut}
    (hvout : tx.vout = m :: o :: vout) (hm : m.isEmpty = true) (ho : o.scriptPubKey = script)
    (hmid : ∀ x ∈ vout.dropLast, x.scriptPubKey = script) : OwnerSafe tx script nHeight := by
  have hnonneg := getMasternodePayment_nonneg nHeight
  rcases List.eq_nil_or_concat vout with rfl | ⟨mid, last, rfl⟩
  · refine ⟨?_, fun i x hx h0 hlast => ?_⟩
    · rw [foreignValue_cons hvout hm ho]
      exact hnonneg
    · rw [hvout] at hlast
      simp only [List.length_cons, List.length_nil] at hlast
      omega
  · rw [List.concat_eq_append] at hvout hmid
    rw [List.dropLast_concat] at hmid
    -- the output before the last one carries the script
    have hprev : ∃ a l, tx.vout.reverse = last :: a :: l ∧ l ≠ [] ∧ a.scriptPubKey = script := by
      rw [hvout]
      rcases List.eq_nil_or_concat mid with rfl | ⟨mid', x, rfl⟩
      · exact ⟨o, [m], rfl, by simp, ho⟩
      · refine ⟨x, mid'.reverse ++ [o, m], by simp, by simp, hmid x (by simp)⟩
    obtain ⟨a, l, hrev, hl, ha⟩ := hprev
    have hp2cs : tx.hasP2CSOutputs = true := by
      unfold CTransaction.hasP2CSOutputs
      rw [hvout, List.any_eq_true]
      exact ⟨o, by simp, by rw [ho]; exact h.p2cs⟩
    have hlast := freeOutput_spec hp2cs h.synced h.noBudget h.freeOutput hrev hl
    have hfilter : mid.filter (·.scriptPubKey ≠ script) = [] := by
      rw [List.filter_eq_nil_iff]
      intro x hx
      simp [hmid x hx]
    refine ⟨?_, fun i x hx h0 hi => ?_⟩
    · rw [foreignValue_cons hvout hm ho, List.filter_append, hfilter, List.nil_append]
      by_cases hs : last.scriptPubKey = script
      · rw [List.filter_cons_of_neg (by simp [hs])]
        exact hnonneg
      · rw [List.filter_cons_of_pos (by simp [hs])]
        simp only [List.filter_nil, List.map_cons, List.map_nil, List.sum_cons, List.sum_nil, add_zero]
        exact Int.le_of_eq (hlast.resolve_left (by rw [ha]; exact hs))
    · rw [hvout] at hx hi
      simp only [List.length_cons, List.length_append, List.length_nil] at hi
      obtain ⟨j, rfl⟩ := Nat.exists_eq_add_one_of_ne_zero (Nat.pos_iff_ne_zero.mp h0)
      rw [List.getElem?_cons_succ] at hx
      cases j with
      | zero =>
        cases hx
        exact ho
      | succ j =>
        rw [List.getElem?_cons_succ, List.getElem?_append_left (by omega)] at hx
        exact hmid x (List.mem_of_getElem? hx)

/-- The outputs between the second and the last carry the script. -/
def MiddleOutputs (tx : CTransaction) (script : CScript) : Prop :=
  ∀ x ∈ (tx.vout.drop 2).dropLast, x.scriptPubKey = script

theorem middleOutputs_of_ownerSafe {tx : CTransaction} {script : CScript} {nHeight : Int}
    (h : OwnerSafe tx script nHeight) : MiddleOutputs tx script := by
  intro x hx
  obtain ⟨i, hi, rfl⟩ := List.mem_iff_getElem.mp hx
  have hlen : i < tx.vout.length - 2 - 1 := by simpa using hi
  refine h.scripts (2 + i) _ ?_ (by omega) (by omega)
  rw [List.getElem_dropLast, List.getElem_drop]
  exact List.getElem?_eq_getElem (by omega)

/-- A pay-to-cold-staking script, with null key hashes. -/
def coldScript : CScript :=
  ([0x76, 0xa9, 0x7b, 0x63, 0xd1, 0x14] ++ List.replicate 20 0 ++ [0x67, 0x14] ++ List.replicate 20 0 ++
    [0x68, 0x88, 0xac] : List UInt8)

/-- The script of the delegate. -/
def delegateScript : CScript := ([0x51] : List UInt8)

/-- A synced node of the main network, without budget payments. -/
def syncedEnv : StakeEnv := ⟨false, true, fun _ => false, false, fun _ => none⟩

/-- A coinstake with `nIn` inputs that gives the script one output of 1 coin and the delegate the other `nOut - 2`
outputs, of 100 coins each. -/
def stealingStake (nIn nOut : Nat) : CTransaction :=
  ⟨9, 1, List.replicate nIn ⟨⟨5, 0⟩, delegateScript, 0⟩,
    ⟨0, ([] : List UInt8), 0⟩ :: ⟨COIN, coldScript, 0⟩ :: List.replicate (nOut - 2) ⟨100 * COIN, delegateScript, 0⟩, 0⟩

theorem stealingStake_accepted {nIn nOut : Nat} (h₁ : 1 ≤ nIn) (h₃ : nIn ≤ 3) (h₄ : 4 ≤ nOut) (nHeight : Int) :
    ColdStakeAccepted syncedEnv (stealingStake nIn nOut) coldScript nHeight := by
  obtain ⟨n, rfl⟩ : ∃ n, nIn = n + 1 := ⟨nIn - 1, by omega⟩
  obtain ⟨k, rfl⟩ : ∃ k, nOut = k + 4 := ⟨nOut - 4, by omega⟩
  have hstake : (stealingStake (n + 1) (k + 4)).isCoinStake = true := by
    unfold CTransaction.isCoinStake stealingStake
    rw [List.replicate_succ]
    rfl
  refine ⟨by decide, ?_, rfl, rfl, ?_⟩
  · unfold CTransaction.checkColdStake
    rw [hstake]
    have hsig : (List.replicate n (⟨⟨5, 0⟩, delegateScript, 0⟩ : CTxIn)).any
        (fun txin => decide (txin.scriptSig ≠ delegateScript)) = false := by
      rw [List.any_eq_false]
      intro txin h
      simp [List.eq_of_mem_replicate h]
    have hlen : ¬ 3 < (stealingStake (n + 1) (k + 4)).vin.length := by
      unfold stealingStake
      rw [List.length_replicate]
      omega
    rw [decide_eq_false hlen]
    simp only [stealingStake, List.replicate_succ, hsig]
    rfl
  · unfold checkColdStakeFreeOutput
    have hrev : ∃ a c l, (stealingStake (n + 1) (k + 4)).vout.reverse = a :: a :: c :: l := by
      have hne : List.replicate k (⟨100 * COIN, delegateScript, 0⟩ : CTxOut) ++
          [⟨COIN, coldScript, 0⟩, ⟨0, ([] : List UInt8), 0⟩] ≠ [] := by simp
      obtain ⟨c, l, hcl⟩ := List.exists_cons_of_ne_nil hne
      refine ⟨⟨100 * COIN, delegateScript, 0⟩, c, l, ?_⟩
      rw [← hcl]
      unfold stealingStake
      rw [List.reverse_cons, List.reverse_cons, List.reverse_replicate, List.append_assoc]
      rfl
    obtain ⟨a, c, l, hrev⟩ := hrev
    split
    · rfl
    · rw [hrev]
      simp

/-- **Cold staking.** An accepted coinstake keeps the owner's coins exactly when it has more than three inputs or the
outputs that `CheckColdStake` skips carry the script; and the numbers of inputs and outputs for which every accepted
coinstake does are those with more than three inputs or at most three outputs. -/
theorem ownerSafe_iff (env : StakeEnv) (tx : CTransaction) (script : CScript) (nHeight : Int) (nIn nOut : Nat) :
    (ColdStakeAccepted env tx script nHeight →
      (OwnerSafe tx script nHeight ↔ 3 < tx.vin.length ∨ MiddleOutputs tx script)) ∧
    (1 ≤ nIn → 2 ≤ nOut →
      ((∀ env tx script nHeight, tx.vin.length = nIn → tx.vout.length = nOut →
        ColdStakeAccepted env tx script nHeight → OwnerSafe tx script nHeight) ↔ 3 < nIn ∨ nOut ≤ 3)) := by
  have hsafe : ∀ env tx script nHeight, ColdStakeAccepted env tx script nHeight →
      3 < tx.vin.length ∨ MiddleOutputs tx script → OwnerSafe tx script nHeight := by
    intro env tx script nHeight h hcond
    obtain ⟨m, o, vout, hvout, hm, ho, hmid⟩ := CTransaction.checkColdStake_spec h.coldStake
    refine ownerSafe_of_middle h hvout hm ho ?_
    rcases hcond with hlen | hcond
    · exact hmid hlen
    · unfold MiddleOutputs at hcond
      rwa [hvout] at hcond
  refine ⟨fun h => ⟨fun hs => Or.inr (middleOutputs_of_ownerSafe hs), hsafe env tx script nHeight h⟩,
    fun hIn hOut => ⟨fun hall => ?_, fun hcond => ?_⟩⟩
  · by_contra hbad
    rw [not_or, Nat.not_lt, Nat.not_le] at hbad
    have hacc := stealingStake_accepted hIn hbad.1 hbad.2 1
    have hlen : (stealingStake nIn nOut).vout.length = nOut := by
      simp only [stealingStake, List.length_cons, List.length_replicate]
      omega
    have hs := hall syncedEnv _ coldScript 1 (by simp [stealingStake]) hlen hacc
    obtain ⟨k, rfl⟩ : ∃ k, nOut = k + 4 := ⟨nOut - 4, by omega⟩
    have hthird := hs.scripts 2 ⟨100 * COIN, delegateScript, 0⟩ rfl (by omega) (by rw [hlen]; omega)
    revert hthird
    decide
  · intro env tx script nHeight hvin hvout h
    refine hsafe env tx script nHeight h ?_
    rcases hcond with hlen | hlen
    · exact Or.inl (by omega)
    · refine Or.inr fun x hx => ?_
      have := List.length_pos_of_mem hx
      simp only [List.length_dropLast, List.length_drop] at this
      omega

/-- A coinstake of one input and three outputs, which pays the masternode in the last one. -/
def honestStake : CTransaction :=
  ⟨9, 1, [⟨⟨5, 0⟩, delegateScript, 0⟩],
    [⟨0, ([] : List UInt8), 0⟩, ⟨200 * COIN, coldScript, 0⟩, ⟨80 * COIN, delegateScript, 0⟩], 0⟩

theorem honestStake_safe : OwnerSafe honestStake coldScript 1000 := by
  have hacc : ColdStakeAccepted syncedEnv honestStake coldScript 1000 :=
    ⟨by decide, by decide, rfl, rfl, by decide⟩
  refine ((ownerSafe_iff syncedEnv honestStake coldScript 1000 1 3).1 hacc).mpr (Or.inr ?_)
  unfold MiddleOutputs
  decide

/-- One input and four outputs: the delegate takes 200 coins. -/
theorem stealingStake_not_safe : ¬ ∀ env tx script nHeight, ColdStakeAccepted env tx script nHeight →
    OwnerSafe tx script nHeight := by
  intro hall
  have hs := hall syncedEnv (stealingStake 1 4) coldScript 1000
    (stealingStake_accepted (by decide) (by decide) (by decide) 1000)
  have hvalue : ¬ foreignValue (stealingStake 1 4) coldScript ≤
      getMasternodePayment 1000 (getBlockValue 1000) 0 := by decide
  exact hvalue hs.value

end DigiWage
