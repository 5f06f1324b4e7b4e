import DigiWage.Script.Interpreter

/-!
# Spending a delegated output

`GetScriptForStakeDelegation` of `script/standard.cpp` makes the script of a pay-to-cold-staking output:

    OP_DUP OP_HASH160 OP_ROT OP_IF OP_CHECKCOLDSTAKEVERIFY <staker> OP_ELSE <owner> OP_ENDIF OP_EQUALVERIFY OP_CHECKSIG

* A run of the script is taken apart into the part before the condition (`evalLoop_hashRot`), the condition
  (`evalLoop_branches`) and the part behind it (`evalLoop_signature`).
-/

namespace DigiWage

open CScript EvalEnv Lib

/-- `CKeyID`: the hash of a public key. -/
abbrev CKeyID := BitVec 160

def CKeyID.toByteVector (key : CKeyID) : Valtype := leBytes 20 key.toNat

@[simp] theorem CKeyID.length_toByteVector (key : CKeyID) : key.toByteVector.length = 20 := length_leBytes 20 _

def getScriptForStakeDelegation (stakingKey spendingKey : CKeyID) : CScript :=
  OP_DUP :: OP_HASH160 :: OP_ROT :: OP_IF :: OP_CHECKCOLDSTAKEVERIFY :: (push stakingKey.toByteVector ++
    OP_ELSE :: (push spendingKey.toByteVector ++ [OP_ENDIF, OP_EQUALVERIFY, OP_CHECKSIG]))

theorem isPayToColdStaking_delegation (a b : CKeyID) : (getScriptForStakeDelegation a b).isPayToColdStaking = true := rfl

/-! ## The parts of the script -/

section Parts

variable {env : EvalEnv} {st st' : EvalState} {a b : CKeyID} {pc : List UInt8} {fuel : Nat}

theorem evalLoop_exec {opcode : UInt8} (h : env.evalLoop fuel st (opcode :: pc) = .ok st') (hexec : st.fExec = true)
    (hb : OP_PUSHDATA4 < opcode) :
    ∃ fuel' st₁, env.evalOpcode opcode pc (counted opcode st) = .ok st₁ ∧ env.evalLoop fuel' st₁ pc = .ok st' := by
  obtain ⟨fuel', st₁, hins, hrest⟩ := evalLoop_opcode hb h
  rw [evalInstruction_exec (by rw [counted_fExec]; exact hexec) hb] at hins
  exact ⟨fuel', st₁, hins, hrest⟩

theorem evalLoop_control {opcode : UInt8} (h : env.evalLoop fuel st (opcode :: pc) = .ok st') (hif : OP_IF ≤ opcode)
    (hendif : opcode ≤ OP_ENDIF) :
    ∃ fuel' st₁, env.evalOpcode opcode pc (counted opcode st) = .ok st₁ ∧ env.evalLoop fuel' st₁ pc = .ok st' := by
  obtain ⟨fuel', st₁, hins, hrest⟩ := evalLoop_opcode (UInt8.lt_of_lt_of_le (by decide) hif) h
  rw [evalInstruction_control hif hendif] at hins
  exact ⟨fuel', st₁, hins, hrest⟩

theorem evalOpcode_if : env.evalOpcode OP_IF pc st = beginIf false st := rfl

theorem evalOpcode_coldStake : env.evalOpcode OP_CHECKCOLDSTAKEVERIFY pc st =
    if !env.checker.checkColdStake env.script then .error .CHECKCOLDSTAKEVERIFY else .ok st := rfl

theorem evalOpcode_equalVerify : env.evalOpcode OP_EQUALVERIFY pc st = equal true st := rfl

theorem evalOpcode_checkSig : env.evalOpcode OP_CHECKSIG pc st = env.checkSigOp false st := rfl

theorem evalLoop_hashRot (hexec : st.fExec = true)
    (h : env.evalLoop fuel st (OP_DUP :: OP_HASH160 :: OP_ROT :: pc) = .ok st') :
    ∃ vchPubKey fStake s n fuel', st.stack = vchPubKey :: fStake :: s ∧
      env.evalLoop fuel' { st with stack := fStake :: hash160 vchPubKey :: vchPubKey :: s, nOpCount := n } pc =
        .ok st' := by
  obtain ⟨stack, altstack, vfExec, nOpCount, code⟩ := st
  obtain ⟨fuel₁, st₁, hdup, h⟩ := evalLoop_exec h hexec (by decide)
  cases stack with
  | nil => cases hdup
  | cons vchPubKey s =>
    cases hdup
    obtain ⟨fuel₂, st₂, hhash, h⟩ := evalLoop_exec h hexec (by decide)
    cases hhash
    obtain ⟨fuel₃, st₃, hrot, h⟩ := evalLoop_exec h hexec (by decide)
    cases s with
    | nil => cases hrot
    | cons fStake s =>
      cases hrot
      exact ⟨vchPubKey, fStake, s, _, fuel₃, rfl, h⟩

/-- The key that the condition leaves on the stack: the staker's in a transaction that passes `CheckColdStake`, or the
owner's. -/
def Selects (checker : SignatureChecker) (script : CScript) (a b : CKeyID) (fStake key : Valtype) : Prop :=
  (castToBool fStake = true ∧ key = a.toByteVector ∧ checker.checkColdStake script = true) ∨
    (castToBool fStake = false ∧ key = b.toByteVector)

theorem evalLoop_branches {fStake : Valtype} {s : List Valtype} (hexec : st.fExec = true) (hstack : st.stack = fStake :: s)
    (h : env.evalLoop fuel st (OP_IF :: OP_CHECKCOLDSTAKEVERIFY :: (push a.toByteVector ++
      OP_ELSE :: (push b.toByteVector ++ OP_ENDIF :: pc))) = .ok st') :
    ∃ key n fuel', Selects env.checker env.script a b fStake key ∧
      env.evalLoop fuel' { st with stack := key :: s, nOpCount := n } pc = .ok st' := by
  obtain ⟨stack, altstack, vfExec, nOpCount, code⟩ := st
  cases hstack
  obtain ⟨fuel₁, st₁, hif, h⟩ := evalLoop_control h (by decide) (by decide)
  rw [evalOpcode_if, beginIf, counted_fExec, hexec] at hif
  cases hif
  have hall : vfExec.all id = true := hexec
  have hin : ∀ (s : List Valtype) (n : Nat), EvalState.fExec ⟨s, altstack, true :: vfExec, n, code⟩ = true :=
    fun _ _ => by simp [EvalState.fExec, hall]
  have hout : ∀ (s : List Valtype) (n : Nat), EvalState.fExec ⟨s, altstack, false :: vfExec, n, code⟩ = false :=
    fun _ _ => by simp [EvalState.fExec]
  cases hflag : castToBool fStake with
  | true =>
    rw [hflag] at h
    obtain ⟨fuel₂, st₂, hcold, h⟩ := evalLoop_exec h (hin _ _) (by decide)
    rw [evalOpcode_coldStake] at hcold
    split at hcold
    · cases hcold
    rename_i hchecked
    cases hcold
    obtain ⟨fuel₃, st₃, hpush, h⟩ := evalLoop_push (by simp) h
    obtain rfl := evalInstruction_push hpush (hin _ _) (by rw [CKeyID.length_toByteVector]; decide)
    obtain ⟨fuel₄, st₄, helse, h⟩ := evalLoop_control h (by decide) (by decide)
    cases helse
    -- the owner's key is skipped
    obtain ⟨fuel₅, st₅, hpush, h⟩ := evalLoop_push (by simp) h
    obtain rfl := evalInstruction_skip hpush (hout _ _) (by rw [CKeyID.length_toByteVector]; decide)
    obtain ⟨fuel₆, st₆, hendif, h⟩ := evalLoop_control h (by decide) (by decide)
    cases hendif
    exact ⟨_, _, fuel₆, .inl ⟨hflag, rfl, by simpa using hchecked⟩, h⟩
  | false =>
    rw [hflag] at h
    -- the check and the staker's key are skipped
    obtain ⟨fuel₂, st₂, hcold, h⟩ := evalLoop_opcode (by decide) h
    obtain rfl := evalInstruction_skip hcold (hout _ _) (.inr (by decide))
    obtain ⟨fuel₃, st₃, hpush, h⟩ := evalLoop_push (by simp) h
    obtain rfl := evalInstruction_skip hpush (hout _ _) (by rw [CKeyID.length_toByteVector]; decide)
    obtain ⟨fuel₄, st₄, helse, h⟩ := evalLoop_control h (by decide) (by decide)
    cases helse
    obtain ⟨fuel₅, st₅, hpush, h⟩ := evalLoop_push (by simp) h
    obtain rfl := evalInstruction_push hpush (hin _ _) (by rw [CKeyID.length_toByteVector]; decide)
    obtain ⟨fuel₆, st₆, hendif, h⟩ := evalLoop_control h (by decide) (by decide)
    cases hendif
    exact ⟨_, _, fuel₆, .inr ⟨hflag, rfl⟩, h⟩

theorem evalLoop_signature {key hash vchPubKey : Valtype} {s : List Valtype} (hexec : st.fExec = true)
    (hstack : st.stack = key :: hash :: vchPubKey :: s)
    (h : env.evalLoop fuel st [OP_EQUALVERIFY, OP_CHECKSIG] = .ok st') :
    hash = key ∧ ∃ vchSig s', s = vchSig :: s' ∧
      st'.stack = ofBool (env.checker.checkSig vchSig vchPubKey (scriptCode st vchSig)) :: s' ∧ st'.vfExec = st.vfExec := by
  obtain ⟨stack, altstack, vfExec, nOpCount, code⟩ := st
  cases hstack
  obtain ⟨fuel₁, st₁, hequal, h⟩ := evalLoop_exec h hexec (by decide)
  rw [evalOpcode_equalVerify] at hequal
  obtain ⟨vch, s₁, hs₁, rfl⟩ := equal_ok hequal
  cases hs₁
  obtain ⟨fuel₂, st₂, hsig, h⟩ := evalLoop_exec h hexec (by decide)
  rw [evalOpcode_checkSig] at hsig
  obtain ⟨vchPubKey', vchSig, s', hs', rfl⟩ := checkSigOp_ok hsig
  cases hs'
  simp only [evalLoop] at h
  cases h
  exact ⟨rfl, vchSig, s', rfl, rfl, rfl⟩

end Parts

/-! ## The whole script -/

theorem evalScript_delegation {checkLowS : Valtype → Bool} {flags : UInt32} {checker : SignatureChecker} {a b : CKeyID}
    {s s' : List Valtype}
    (h : EvalEnv.evalScript ⟨checkLowS, flags, checker, getScriptForStakeDelegation a b⟩ s = .ok s') :
    ∃ vchPubKey fStake vchSig rest, s = vchPubKey :: fStake :: vchSig :: rest ∧
      Selects checker (getScriptForStakeDelegation a b) a b fStake (hash160 vchPubKey) ∧
      s' = ofBool (checker.checkSig vchSig vchPubKey
        (findAndDelete (getScriptForStakeDelegation a b) (push vchSig))) :: rest := by
  unfold evalScript at h
  split at h
  · cases h
  obtain ⟨st, hloop, h⟩ := bind_eq_ok h
  obtain ⟨vchPubKey, fStake, s₁, n₁, fuel₁, hs, hloop⟩ := evalLoop_hashRot rfl hloop
  obtain ⟨key, n₂, fuel₂, hsel, hloop⟩ := evalLoop_branches rfl rfl hloop
  obtain ⟨hkey, vchSig, rest, rfl, hst, hvf⟩ := evalLoop_signature rfl rfl hloop
  rw [hvf] at h
  cases h
  rw [← hkey] at hsel
  exact ⟨vchPubKey, fStake, vchSig, rest, hs, hsel, hst⟩

/-- A pay-to-cold-staking output is spent by a signature that the checker accepts, of a key on the stack that the
`scriptSig` leaves: the owner's key, or the staker's key when `CheckColdStake` accepts the transaction. -/
theorem verifyScript_delegation (checkLowS : Valtype → Bool) (a b : CKeyID) (scriptSig : CScript) (flags : UInt32)
    (checker : SignatureChecker)
    (h : verifyScript checkLowS scriptSig (getScriptForStakeDelegation a b) flags checker = .ok ()) :
    ∃ vchPubKey fStake vchSig rest,
      EvalEnv.evalScript ⟨checkLowS, flags, checker, scriptSig⟩ [] = .ok (vchPubKey :: fStake :: vchSig :: rest) ∧
      checker.checkSig vchSig vchPubKey (findAndDelete (getScriptForStakeDelegation a b) (push vchSig)) = true ∧
      (hash160 vchPubKey = b.toByteVector ∨
        hash160 vchPubKey = a.toByteVector ∧ checker.checkColdStake (getScriptForStakeDelegation a b) = true) := by
  unfold verifyScript at h
  split at h
  · cases h
  obtain ⟨stackCopy, hsig, h⟩ := bind_eq_ok h
  obtain ⟨stack, hpub, h⟩ := bind_eq_ok h
  obtain ⟨_, htop, -⟩ := bind_eq_ok h
  obtain ⟨vchPubKey, fStake, vchSig, rest, rfl, hsel, rfl⟩ := evalScript_delegation hpub
  refine ⟨vchPubKey, fStake, vchSig, rest, hsig, ?_, ?_⟩
  · rw [checkTop, castToBool_ofBool] at htop
    split at htop
    · assumption
    · cases htop
  · rcases hsel with ⟨-, hkey, hcold⟩ | ⟨-, hkey⟩
    · exact .inr ⟨hkey, hcold⟩
    · exact .inl hkey

/-- A compressed public key and a signature in strict encoding. -/
def sampleDelegate : Valtype := 0x02 :: List.replicate 32 1

def sampleSignature : Valtype := [0x30, 0x06, 0x02, 0x01, 0x01, 0x02, 0x01, 0x01, 0x01]

/-- A checker that accepts the signature of the key, in a transaction that is a cold stake. -/
def sampleChecker : SignatureChecker where
  checkSig vchSig vchPubKey _ := vchSig == sampleSignature && vchPubKey == sampleDelegate
  checkLockTime _ := false
  checkColdStake _ := true

/-- The `scriptSig` of a staker: the signature, true, and the key. -/
def sampleStake : CScript := push sampleSignature ++ 0x51 :: push sampleDelegate

def sampleStakerKey : CKeyID := 0x902c212162027f35386cf33503fe3b2a776d599b#160

theorem verifyScript_sampleStake : verifyScript (fun _ => true) sampleStake (getScriptForStakeDelegation sampleStakerKey 7)
    (SCRIPT_VERIFY_P2SH ||| SCRIPT_VERIFY_STRICTENC ||| SCRIPT_VERIFY_MINIMALDATA) sampleChecker = .ok () := by
  decide +kernel

theorem verifyScript_delegation_sample : ∃ vchPubKey fStake vchSig rest,
    EvalEnv.evalScript ⟨fun _ => true,
      SCRIPT_VERIFY_P2SH ||| SCRIPT_VERIFY_STRICTENC ||| SCRIPT_VERIFY_MINIMALDATA, sampleChecker, sampleStake⟩ [] =
        .ok (vchPubKey :: fStake :: vchSig :: rest) ∧
    sampleChecker.checkSig vchSig vchPubKey
      (findAndDelete (getScriptForStakeDelegation sampleStakerKey 7) (push vchSig)) = true ∧
    (hash160 vchPubKey = CKeyID.toByteVector 7 ∨ hash160 vchPubKey = sampleStakerKey.toByteVector ∧
      sampleChecker.checkColdStake (getScriptForStakeDelegation sampleStakerKey 7) = true) :=
  verifyScript_delegation _ sampleStakerKey 7 sampleStake _ sampleChecker verifyScript_sampleStake

end DigiWage
