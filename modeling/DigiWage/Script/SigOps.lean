import DigiWage.Lib.Traced
import DigiWage.Script.Interpreter
import DigiWage.Script.Standard

/-!
# Counted and executed signature operations

`CScript::GetSigOpCount` counts the signature operations of a script without executing it; `EvalScript` asks the checker.

* `evalScriptT` is `evalScript` with the calls of `checker.CheckSig` that it makes, also where it fails; its result is that
  of `evalScript` (`result_evalScriptT`).
* The count looks at the opcode before `OP_CHECKMULTISIG`. `NumberOnTop` is what links the scan to the run: behind an executed
  `OP_n` the number `n` is on top of the stack.
-/

namespace DigiWage

open CScript Lib

namespace CScript

def OP_CHECKSIGVERIFY : UInt8 := 0xad
def OP_CHECKMULTISIGVERIFY : UInt8 := 0xaf

/-! ## The count -/

/-- What one opcode adds to the count. -/
def sigOpsOf (fAccurate : Bool) (lastOpcode opcode : UInt8) : Nat :=
  if opcode = OP_CHECKSIG ∨ opcode = OP_CHECKSIGVERIFY then 1
  else if opcode = OP_CHECKMULTISIG ∨ opcode = OP_CHECKMULTISIGVERIFY then
    if fAccurate ∧ OP_1 ≤ lastOpcode ∧ lastOpcode ≤ OP_16 then (decodeOpN lastOpcode).toNat else 20
  else 0

/-- The loop of `CScript::GetSigOpCount`. It ends where no instruction can be read. -/
def sigOpLoop (fAccurate : Bool) : Nat → UInt8 → List UInt8 → Nat
  | 0, _, _ => 0
  | fuel + 1, lastOpcode, pc =>
    match getOp2 pc with
    | none => 0
    | some (opcode, _, rest) => sigOpsOf fAccurate lastOpcode opcode + sigOpLoop fAccurate fuel opcode rest

/-- `CScript::GetSigOpCount(bool)`. For a script of at most `MAX_SIZE` bytes the count is an `unsigned int`. -/
def getSigOpCount (s : CScript) (fAccurate : Bool) : Nat :=
  sigOpLoop fAccurate s.bytes.length OP_INVALIDOPCODE s.bytes

/-- The loop of `CScript::GetSigOpCount` over an input: the data of the last instruction; `none` where it gives up. -/
def lastPushLoop : Nat → List UInt8 → Valtype → Option Valtype
  | _, [], data => some data
  | 0, _ :: _, _ => none
  | fuel + 1, b :: pc, _ =>
    match getOp2 (b :: pc) with
    | none => none
    | some (opcode, data, rest) => if OP_16 < opcode then none else lastPushLoop fuel rest data

/-- `CScript::GetSigOpCount(const CScript&)`. -/
def getSigOpCountFor (scriptPubKey scriptSig : CScript) : Nat :=
  if !scriptPubKey.isPayToScriptHash then scriptPubKey.getSigOpCount true
  else
    match lastPushLoop scriptSig.bytes.length scriptSig.bytes [] with
    | none => 0
    | some data => CScript.getSigOpCount data true

theorem byte_spec : ∀ b, (OpcodeType.ofByte b = some .OP_CHECKSIG ∨ OpcodeType.ofByte b = some .OP_CHECKSIGVERIFY →
      b = OP_CHECKSIG ∨ b = OP_CHECKSIGVERIFY) ∧
    (OpcodeType.ofByte b = some .OP_CHECKMULTISIG ∨ OpcodeType.ofByte b = some .OP_CHECKMULTISIGVERIFY →
      ¬ (b = OP_CHECKSIG ∨ b = OP_CHECKSIGVERIFY) ∧ (b = OP_CHECKMULTISIG ∨ b = OP_CHECKMULTISIGVERIFY)) ∧
    (OP_IF ≤ b ∧ b ≤ OP_ENDIF → OpcodeType.ofByte b ≠ some .OP_CHECKSIG ∧ OpcodeType.ofByte b ≠ some .OP_CHECKSIGVERIFY ∧
      OpcodeType.ofByte b ≠ some .OP_CHECKMULTISIG ∧ OpcodeType.ofByte b ≠ some .OP_CHECKMULTISIGVERIFY) ∧
    (b ≤ OP_16 → (decodeOpN b).toNat ≤ 20 ∨ b < OP_1) ∧ (OP_PUSHDATA4 < b ∧ ¬ OP_1 ≤ b → b = 0x4f ∨ b = 0x50) := by
  refine fun b => ⟨?_, ?_, ?_, ?_, ?_⟩ <;> revert b <;> apply forall_byte <;> decide +kernel

theorem number_spec : ∀ n < 16, (∀ fRequireMinimal, CScriptNum.ofVch (CScriptNum.serialize ((UInt8.ofNat (81 + n)).toNat - 0x50))
      fRequireMinimal CScriptNum.nDefaultMaxNumSize = some ((n : Int) + 1)) ∧ (decodeOpN (UInt8.ofNat (81 + n))).toNat = n + 1 ∧
    OpcodeType.ofByte (UInt8.ofNat (81 + n)) = OpcodeType.table[n + 2]? ∧
    CScript.getSigOpCount (CScriptNum.serialize ((UInt8.ofNat (81 + n)).toNat - 0x50)) true = 0 := by
  decide +kernel

end CScript

/-! ## The calls -/

/-- The arguments of `BaseSignatureChecker::CheckSig`. -/
structure SigCall where
  vchSig : Valtype
  vchPubKey : Valtype
  scriptCode : CScript

/-- Evaluations with the calls that they make. -/
abbrev EvalTraced (A : Type) := Traced SigCall ScriptError A

namespace EvalEnv

variable (env : EvalEnv)

/-- `checker.CheckSig`. -/
def checkSigT (vchSig vchPubKey : Valtype) (scriptCode : CScript) : EvalTraced Bool :=
  .ask ⟨vchSig, vchPubKey, scriptCode⟩ (env.checker.checkSig vchSig vchPubKey scriptCode)

/-- `OP_CHECKSIG` and `OP_CHECKSIGVERIFY`. -/
def checkSigOpT (fVerify : Bool) (st : EvalState) : EvalTraced EvalState :=
  match st.stack with
  | vchPubKey :: vchSig :: s => do
    .lift (env.checkSignatureEncoding vchSig)
    .lift (env.checkPubKeyEncoding vchPubKey)
    let fSuccess ← env.checkSigT vchSig vchPubKey (scriptCode st vchSig)
    .lift (verified { st with stack := s } fVerify fSuccess (ofBool fSuccess) .CHECKSIGVERIFY)
  | _ => .lift (.error .INVALID_STACK_OPERATION)

/-- The loop of `OP_CHECKMULTISIG`. -/
def checkMultiSigLoopT (scriptCode : CScript) : List Valtype → List Valtype → EvalTraced Bool
  | [], _ => .lift (.ok true)
  | _ :: _, [] => .lift (.ok false)
  | vchSig :: sigs, vchPubKey :: keys => do
    .lift (env.checkSignatureEncoding vchSig)
    .lift (env.checkPubKeyEncoding vchPubKey)
    let fOk ← env.checkSigT vchSig vchPubKey scriptCode
    let left := if fOk then sigs else vchSig :: sigs
    if keys.length < left.length then .lift (.ok false) else checkMultiSigLoopT scriptCode left keys

/-- `OP_CHECKMULTISIG` and `OP_CHECKMULTISIGVERIFY`. -/
def checkMultiSigOpT (fVerify : Bool) (st : EvalState) : EvalTraced EvalState :=
  match st.stack with
  | [] => .lift (.error .INVALID_STACK_OPERATION)
  | top :: s => do
    let nKeysCount := CScriptNum.getint (← Traced.lift (env.scriptNum top CScriptNum.nDefaultMaxNumSize))
    if nKeysCount < 0 ∨ 20 < nKeysCount then .lift (.error .PUBKEY_COUNT)
    else
      let nKeys := nKeysCount.toNat
      let st := { st with nOpCount := st.nOpCount + nKeys }
      if 201 < st.nOpCount then .lift (.error .OP_COUNT)
      else
        match s.drop nKeys with
        | [] => .lift (.error .INVALID_STACK_OPERATION)
        | sigTop :: s' => do
          let nSigsCount := CScriptNum.getint (← Traced.lift (env.scriptNum sigTop CScriptNum.nDefaultMaxNumSize))
          if nSigsCount < 0 ∨ nKeysCount < nSigsCount then .lift (.error .SIG_COUNT)
          else
            let nSigs := nSigsCount.toNat
            if s'.length < nSigs + 1 then .lift (.error .INVALID_STACK_OPERATION)
            else
              let keys := s.take nKeys
              let sigs := s'.take nSigs
              let scriptCode := sigs.foldl (fun code vchSig => findAndDelete code (CScript.push vchSig)) st.pbegincodehash
              let fSuccess ← env.checkMultiSigLoopT scriptCode sigs keys
              match s'.drop nSigs with
              | [] => .lift (.error .INVALID_STACK_OPERATION)
              | dummy :: s'' =>
                if hasFlag env.flags SCRIPT_VERIFY_NULLDUMMY && !dummy.isEmpty then .lift (.error .SIG_NULLDUMMY)
                else .lift (verified { st with stack := s'' } fVerify fSuccess (ofBool fSuccess) .CHECKMULTISIGVERIFY)

/-- The `switch` of `EvalScript`; the other opcodes do not call the checker's `CheckSig`. -/
def evalOpcodeT (opcode : UInt8) (pc : List UInt8) (st : EvalState) : EvalTraced EvalState :=
  match OpcodeType.ofByte opcode with
  | some .OP_CHECKSIG => env.checkSigOpT false st
  | some .OP_CHECKSIGVERIFY => env.checkSigOpT true st
  | some .OP_CHECKMULTISIG => env.checkMultiSigOpT false st
  | some .OP_CHECKMULTISIGVERIFY => env.checkMultiSigOpT true st
  | _ => .lift (env.evalOpcode opcode pc st)

/-- What is done with an instruction that was read. -/
def evalInstructionT (opcode : UInt8) (vchPushValue : Valtype) (pc : List UInt8) (st : EvalState) : EvalTraced EvalState :=
  if st.fExec && decide (opcode ≤ OP_PUSHDATA4) then
    if env.fRequireMinimal && !checkMinimalPush vchPushValue opcode then .lift (.error .MINIMALDATA)
    else .lift (.ok (st.push vchPushValue))
  else if st.fExec || (decide (OP_IF ≤ opcode) && decide (opcode ≤ OP_ENDIF)) then env.evalOpcodeT opcode pc st
  else .lift (.ok st)

/-- One turn of the loop. -/
def evalStepT (st : EvalState) (pc : List UInt8) : EvalTraced (EvalState × List UInt8) :=
  match getOp2 pc with
  | none => .lift (.error .BAD_OPCODE)
  | some (opcode, vchPushValue, pc) =>
    if maxScriptElementSize < vchPushValue.length then .lift (.error .PUSH_SIZE)
    else if OP_16 < opcode ∧ 201 < (counted opcode st).nOpCount then .lift (.error .OP_COUNT)
    else if isDisabled opcode then .lift (.error .DISABLED_OPCODE)
    else do
      let st ← env.evalInstructionT opcode vchPushValue pc (counted opcode st)
      if 1000 < st.stack.length + st.altstack.length then .lift (.error .STACK_SIZE) else .lift (.ok (st, pc))

/-- The loop of `EvalScript`. -/
def evalLoopT : Nat → EvalState → List UInt8 → EvalTraced EvalState
  | _, st, [] => .lift (.ok st)
  | 0, _, _ :: _ => .lift (.error .UNKNOWN_ERROR)
  | fuel + 1, st, b :: pc => do
    let (st, rest) ← env.evalStepT st (b :: pc)
    evalLoopT fuel st rest

/-- `EvalScript`. -/
def evalScriptT (stack : List Valtype) : EvalTraced (List Valtype) :=
  if maxScriptSize < env.script.bytes.length then .lift (.error .SCRIPT_SIZE)
  else do
    let st ← env.evalLoopT env.script.bytes.length ⟨stack, [], [], 0, env.script.bytes⟩ env.script.bytes
    if !st.vfExec.isEmpty then .lift (.error .UNBALANCED_CONDITIONAL) else .lift (.ok st.stack)

/-! ## The calls change no result -/

section Erasure

variable {env}

theorem result_ite {A : Type} {p : Prop} [Decidable p] (x y : EvalTraced A) :
    (if p then x else y).result = if p then x.result else y.result := apply_ite Traced.result p x y

theorem result_checkSigOpT (fVerify : Bool) (st : EvalState) :
    (env.checkSigOpT fVerify st).result = env.checkSigOp fVerify st := by
  unfold checkSigOpT checkSigOp
  cases st.stack with
  | nil => rfl
  | cons vchPubKey s =>
    cases s with
    | nil => rfl
    | cons vchSig s =>
      simp only [checkSigT, Traced.result_bind, Traced.result_lift, Traced.result_ask]
      rfl

theorem result_checkMultiSigLoopT (scriptCode : CScript) (sigs keys : List Valtype) :
    (env.checkMultiSigLoopT scriptCode sigs keys).result = env.checkMultiSigLoop scriptCode sigs keys := by
  induction keys generalizing sigs with
  | nil => cases sigs <;> rfl
  | cons vchPubKey keys ih =>
    cases sigs with
    | nil => rfl
    | cons vchSig sigs =>
      simp only [checkMultiSigLoopT, checkMultiSigLoop, checkSigT, Traced.result_bind, Traced.result_lift,
        Traced.result_ask, result_ite, ih]
      rfl

theorem result_checkMultiSigOpT (fVerify : Bool) (st : EvalState) :
    (env.checkMultiSigOpT fVerify st).result = env.checkMultiSigOp fVerify st := by
  unfold checkMultiSigOpT checkMultiSigOp
  cases st.stack with
  | nil => rfl
  | cons top s =>
    simp only [Traced.result_bind, Traced.result_lift, result_ite]
    congr 1
    funext num
    split
    · rfl
    split
    · rfl
    cases s.drop (CScriptNum.getint num).toNat with
    | nil => rfl
    | cons sigTop s' =>
      simp only [Traced.result_bind, Traced.result_lift, result_ite, result_checkMultiSigLoopT]
      congr 1
      funext nSigs
      split
      · rfl
      split
      · rfl
      congr 1
      funext fSuccess
      cases s'.drop (CScriptNum.getint nSigs).toNat with
      | nil => rfl
      | cons dummy s'' => simp only [Traced.result_lift, result_ite]

theorem result_evalOpcodeT (opcode : UInt8) (pc : List UInt8) (st : EvalState) :
    (env.evalOpcodeT opcode pc st).result = env.evalOpcode opcode pc st := by
  unfold evalOpcodeT
  split
  · rename_i hop
    rw [result_checkSigOpT, evalOpcode, hop]
  · rename_i hop
    rw [result_checkSigOpT, evalOpcode, hop]
  · rename_i hop
    rw [result_checkMultiSigOpT, evalOpcode, hop]
  · rename_i hop
    rw [result_checkMultiSigOpT, evalOpcode, hop]
  · rfl

theorem result_evalStepT (st : EvalState) (pc : List UInt8) : (env.evalStepT st pc).result = env.evalStep st pc := by
  unfold evalStepT evalStep
  cases getOp2 pc with
  | none => rfl
  | some x =>
    simp only [result_ite, Traced.result_bind, Traced.result_lift, evalInstructionT, evalInstruction, result_evalOpcodeT]

theorem result_evalLoopT (fuel : Nat) (st : EvalState) (pc : List UInt8) :
    (env.evalLoopT fuel st pc).result = env.evalLoop fuel st pc := by
  induction fuel generalizing st pc with
  | zero => cases pc <;> rfl
  | succ fuel ih =>
    cases pc with
    | nil => rfl
    | cons b pc => simp only [evalLoopT, evalLoop, Traced.result_bind, result_evalStepT, ih]

theorem result_evalScriptT (stack : List Valtype) : (env.evalScriptT stack).result = env.evalScript stack := by
  simp only [evalScriptT, evalScript, result_ite, Traced.result_bind, Traced.result_lift, result_evalLoopT]

end Erasure

/-! ## The calls of one opcode -/

section Bounds

variable {env : EvalEnv} {st st' : EvalState} {opcode lastOpcode : UInt8} {vch : Valtype} {pc rest : List UInt8} {fuel : Nat}

theorem atMost_checkSigOpT (fVerify : Bool) (st : EvalState) : (env.checkSigOpT fVerify st).AtMost 1 := by
  unfold checkSigOpT
  cases st.stack with
  | nil => exact .lift 1
  | cons vchPubKey s =>
    cases s with
    | nil => exact .lift 1
    | cons vchSig s =>
      refine .lift_bind fun _ _ => .lift_bind fun _ _ => ?_
      exact (Traced.AtMost.ask _ _).bind fun _ _ => .lift 0

theorem atMost_checkMultiSigLoopT (scriptCode : CScript) (sigs keys : List Valtype) :
    (env.checkMultiSigLoopT scriptCode sigs keys).AtMost keys.length := by
  induction keys generalizing sigs with
  | nil => cases sigs <;> exact .lift 0
  | cons vchPubKey keys ih =>
    cases sigs with
    | nil => exact .lift _
    | cons vchSig sigs =>
      refine .lift_bind fun _ _ => .lift_bind fun _ _ => ?_
      rw [List.length_cons, Nat.add_comm]
      exact (Traced.AtMost.ask _ _).bind fun _ _ => .ite (fun _ => .lift _) fun _ => ih _

theorem atMost_checkMultiSigOpT (fVerify : Bool) {n : Nat} (h : ∀ top s num, st.stack = top :: s →
    env.scriptNum top CScriptNum.nDefaultMaxNumSize = .ok num → CScriptNum.getint num ≤ 20 →
      (CScriptNum.getint num).toNat ≤ n) : (env.checkMultiSigOpT fVerify st).AtMost n := by
  unfold checkMultiSigOpT
  cases hs : st.stack with
  | nil => exact .lift n
  | cons top s =>
    refine .lift_bind fun num hnum => .ite (fun _ => .lift n) fun hcount => .ite (fun _ => .lift n) fun _ => ?_
    have hn := h top s num hs hnum (by omega)
    cases s.drop (CScriptNum.getint num).toNat with
    | nil => exact .lift n
    | cons sigTop s' =>
      refine .lift_bind fun nSigs _ => .ite (fun _ => .lift n) fun _ => .ite (fun _ => .lift n) fun _ => ?_
      have hkeys : (s.take (CScriptNum.getint num).toNat).length ≤ n := Nat.le_trans (List.length_take_le _ _) hn
      refine ((atMost_checkMultiSigLoopT _ _ _).mono hkeys).bind (n := 0) fun fSuccess _ => ?_
      cases s'.drop (CScriptNum.getint nSigs).toNat with
      | nil => exact .lift 0
      | cons dummy s'' => exact .ite (fun _ => .lift 0) fun _ => .lift 0

/-- Behind an executed `OP_n` the number `n` is on top of the stack. -/
def NumberOnTop (lastOpcode : UInt8) (st : EvalState) : Prop :=
  OP_1 ≤ lastOpcode → lastOpcode ≤ OP_16 → st.fExec = true →
    ∃ s, st.stack = CScriptNum.serialize (lastOpcode.toNat - 0x50) :: s

theorem exists_number (hlo : OP_1 ≤ opcode) (hhi : opcode ≤ OP_16) : ∃ n, n < 16 ∧ opcode = UInt8.ofNat (81 + n) := by
  rw [UInt8.le_iff_toNat_le] at hlo hhi
  have h1 : OP_1.toNat = 81 := rfl
  have h16 : OP_16.toNat = 96 := rfl
  refine ⟨opcode.toNat - 81, by omega, ?_⟩
  have hadd : 81 + (opcode.toNat - 81) = opcode.toNat := by omega
  rw [hadd, UInt8.ofNat_toNat]

theorem scriptNum_serialize {num : Int} (hlo : OP_1 ≤ opcode) (hhi : opcode ≤ OP_16)
    (h : env.scriptNum (CScriptNum.serialize (opcode.toNat - 0x50)) CScriptNum.nDefaultMaxNumSize = .ok num) :
    (CScriptNum.getint num).toNat = (decodeOpN opcode).toNat := by
  obtain ⟨n, hn, rfl⟩ := exists_number hlo hhi
  have hn' := number_spec n hn
  simp only [scriptNum, hn'.1 env.fRequireMinimal] at h
  cases h
  rw [hn'.2.1, CScriptNum.getint]
  omega

theorem evalOpcode_number (hlo : OP_1 ≤ opcode) (hhi : opcode ≤ OP_16) :
    env.evalOpcode opcode pc st = .ok (st.push (CScriptNum.serialize (opcode.toNat - 0x50))) := by
  obtain ⟨n, hn, rfl⟩ := exists_number hlo hhi
  have hcases : n = 0 ∨ n = 1 ∨ n = 2 ∨ n = 3 ∨ n = 4 ∨ n = 5 ∨ n = 6 ∨ n = 7 ∨ n = 8 ∨ n = 9 ∨ n = 10 ∨ n = 11 ∨
      n = 12 ∨ n = 13 ∨ n = 14 ∨ n = 15 := by omega
  rw [evalOpcode, (number_spec n hn).2.2.1]
  rcases hcases with rfl | rfl | rfl | rfl | rfl | rfl | rfl | rfl | rfl | rfl | rfl | rfl | rfl | rfl | rfl | rfl <;> rfl

theorem sigOpsOf_checkSig (h : OpcodeType.ofByte opcode = some .OP_CHECKSIG ∨
    OpcodeType.ofByte opcode = some .OP_CHECKSIGVERIFY) : sigOpsOf true lastOpcode opcode = 1 := by
  rw [sigOpsOf, if_pos ((byte_spec opcode).1 h)]

theorem sigOpsOf_checkMultiSig (h : OpcodeType.ofByte opcode = some .OP_CHECKMULTISIG ∨
    OpcodeType.ofByte opcode = some .OP_CHECKMULTISIGVERIFY) : sigOpsOf true lastOpcode opcode =
      if OP_1 ≤ lastOpcode ∧ lastOpcode ≤ OP_16 then (decodeOpN lastOpcode).toNat else 20 := by
  have hbyte := (byte_spec opcode).2.1 h
  rw [sigOpsOf, if_neg hbyte.1, if_pos hbyte.2]
  simp only [true_and]

theorem atMost_evalOpcodeT (htop : NumberOnTop lastOpcode st) (hexec : st.fExec = true) :
    (env.evalOpcodeT opcode pc st).AtMost (sigOpsOf true lastOpcode opcode) := by
  have hmulti (fVerify : Bool) : (env.checkMultiSigOpT fVerify st).AtMost
      (if OP_1 ≤ lastOpcode ∧ lastOpcode ≤ OP_16 then (decodeOpN lastOpcode).toNat else 20) := by
    apply atMost_checkMultiSigOpT
    intro top s num hs hnum hle
    split
    · rename_i hlast
      obtain ⟨s', hs'⟩ := htop hlast.1 hlast.2 hexec
      rw [hs'] at hs
      cases hs
      rw [scriptNum_serialize hlast.1 hlast.2 hnum]
    · omega
  unfold evalOpcodeT
  split
  · rename_i hop
    rw [sigOpsOf_checkSig (.inl hop)]
    exact atMost_checkSigOpT false st
  · rename_i hop
    rw [sigOpsOf_checkSig (.inr hop)]
    exact atMost_checkSigOpT true st
  · rename_i hop
    rw [sigOpsOf_checkMultiSig (.inl hop)]
    exact hmulti false
  · rename_i hop
    rw [sigOpsOf_checkMultiSig (.inr hop)]
    exact hmulti true
  · exact .lift _

theorem evalOpcodeT_control (hif : OP_IF ≤ opcode) (hendif : opcode ≤ OP_ENDIF) :
    env.evalOpcodeT opcode pc st = .lift (env.evalOpcode opcode pc st) := by
  have hbyte := (byte_spec opcode).2.2.1 ⟨hif, hendif⟩
  unfold evalOpcodeT
  split
  · rename_i hop
    exact absurd hop hbyte.1
  · rename_i hop
    exact absurd hop hbyte.2.1
  · rename_i hop
    exact absurd hop hbyte.2.2.1
  · rename_i hop
    exact absurd hop hbyte.2.2.2
  · rfl

theorem numberOnTop_counted (htop : NumberOnTop lastOpcode st) : NumberOnTop lastOpcode (counted opcode st) := by
  intro hlo hhi hexec
  rw [counted_fExec] at hexec
  obtain ⟨s, hs⟩ := htop hlo hhi hexec
  refine ⟨s, ?_⟩
  unfold counted
  split
  · exact hs
  · exact hs

theorem atMost_evalStepT (htop : NumberOnTop lastOpcode st) (hread : getOp2 pc = some (opcode, vch, rest)) :
    (env.evalStepT st pc).AtMost (sigOpsOf true lastOpcode opcode) := by
  unfold evalStepT
  rw [hread]
  refine .ite (fun _ => .lift _) fun _ => .ite (fun _ => .lift _) fun _ => .ite (fun _ => .lift _) fun _ => ?_
  rw [← Nat.add_zero (sigOpsOf true lastOpcode opcode)]
  refine Traced.AtMost.bind ?_ fun _ _ => .ite (fun _ => .lift 0) fun _ => .lift 0
  unfold evalInstructionT
  refine .ite (fun _ => .ite (fun _ => .lift _) fun _ => .lift _) fun _ => .ite (fun hcond => ?_) fun _ => .lift _
  cases hexec : (counted opcode st).fExec with
  | true => exact atMost_evalOpcodeT (numberOnTop_counted htop) hexec
  | false =>
    rw [hexec] at hcond
    simp only [Bool.false_or, Bool.and_eq_true, decide_eq_true_eq] at hcond
    rw [evalOpcodeT_control hcond.1 hcond.2]
    exact .lift _

theorem numberOnTop_evalStep (hread : getOp2 pc = some (opcode, vch, rest)) (h : env.evalStep st pc = .ok (st', rest)) :
    NumberOnTop opcode st' := by
  intro hlo hhi hexec
  obtain ⟨opcode', vch', hread', hins⟩ := evalStep_ok h
  rw [hread] at hread'
  cases hread'
  have hpush : OP_PUSHDATA4 < opcode := UInt8.lt_of_lt_of_le (by decide) hlo
  have hcontrol : opcode < OP_IF := UInt8.lt_of_le_of_lt hhi (by decide)
  cases hcounted : (counted opcode st).fExec with
  | true =>
    rw [evalInstruction_exec hcounted hpush, evalOpcode_number hlo hhi] at hins
    cases hins
    exact ⟨_, rfl⟩
  | false =>
    rw [evalInstruction_skip hins hcounted (.inl hcontrol), hcounted] at hexec
    cases hexec

theorem atMost_evalLoopT (htop : NumberOnTop lastOpcode st) {fuel' : Nat} (hfuel : pc.length ≤ fuel') :
    (env.evalLoopT fuel st pc).AtMost (sigOpLoop true fuel' lastOpcode pc) := by
  induction fuel generalizing st pc lastOpcode fuel' with
  | zero => cases pc <;> exact .lift _
  | succ fuel ih =>
    cases pc with
    | nil => exact .lift _
    | cons b pc =>
      cases fuel' with
      | zero => cases hfuel
      | succ fuel' =>
        rw [evalLoopT, sigOpLoop]
        cases hread : getOp2 (b :: pc) with
        | none =>
          unfold evalStepT
          rw [hread]
          exact .lift_bind fun _ h => by cases h
        | some x =>
          obtain ⟨opcode, vch, rest⟩ := x
          refine (atMost_evalStepT htop hread).bind ?_
          rintro ⟨st', rest'⟩ hstep
          rw [result_evalStepT] at hstep
          obtain ⟨opcode', vch', hread', -⟩ := evalStep_ok hstep
          rw [hread] at hread'
          cases hread'
          have hlen := length_of_getOp2 hread
          exact ih (numberOnTop_evalStep hread hstep) (by omega)

theorem atMost_evalScriptT (env : EvalEnv) (stack : List Valtype) :
    (env.evalScriptT stack).AtMost (env.script.getSigOpCount true) := by
  unfold evalScriptT
  refine .ite (fun _ => .lift _) fun _ => ?_
  rw [← Nat.add_zero (env.script.getSigOpCount true)]
  refine Traced.AtMost.bind (atMost_evalLoopT ?_ (Nat.le_refl _)) fun _ _ => .ite (fun _ => .lift 0) fun _ => .lift 0
  intro _ hhi _
  exact absurd hhi (by decide)

end Bounds

end EvalEnv

/-! ## The count -/

namespace CScript

variable {lastOpcode opcode : UInt8} {pc : List UInt8} {fuel : Nat}

theorem decodeOpN_le (h : opcode ≤ OP_16) : (decodeOpN opcode).toNat ≤ 20 ∨ opcode < OP_1 := (byte_spec opcode).2.2.2.1 h

theorem sigOpsOf_le (fAccurate : Bool) (lastOpcode opcode : UInt8) :
    sigOpsOf fAccurate lastOpcode opcode ≤ sigOpsOf false lastOpcode opcode ∧
      sigOpsOf false lastOpcode opcode ≤ 20 := by
  unfold sigOpsOf
  split
  · omega
  · split
    · simp only [Bool.false_eq_true, false_and, if_false]
      split
      · rename_i hlast
        rcases decodeOpN_le hlast.2.2 with h | h
        · exact ⟨h, Nat.le_refl 20⟩
        · exact absurd hlast.2.1 (UInt8.not_le.mpr h)
      · omega
    · omega

theorem sigOpLoop_le (fAccurate : Bool) (fuel : Nat) (lastOpcode : UInt8) (pc : List UInt8) :
    sigOpLoop fAccurate fuel lastOpcode pc ≤ sigOpLoop false fuel lastOpcode pc := by
  induction fuel generalizing lastOpcode pc with
  | zero => exact Nat.le_refl 0
  | succ fuel ih =>
    simp only [sigOpLoop]
    split
    · exact Nat.le_refl 0
    · exact Nat.add_le_add (sigOpsOf_le fAccurate _ _).1 (ih _ _)

theorem sigOpLoop_le_length (fuel : Nat) (lastOpcode : UInt8) (pc : List UInt8) :
    sigOpLoop false fuel lastOpcode pc ≤ 20 * pc.length := by
  induction fuel generalizing lastOpcode pc with
  | zero => exact Nat.zero_le _
  | succ fuel ih =>
    rw [sigOpLoop]
    cases hread : getOp2 pc with
    | none => exact Nat.zero_le _
    | some x =>
      obtain ⟨opcode, vch, rest⟩ := x
      have hlen := length_of_getOp2 hread
      have hop := (sigOpsOf_le false lastOpcode opcode).2
      have hrest := ih opcode rest
      simp only
      omega

/-! ## The redeem script -/

/-- What the count takes for the last element that an input pushes, against the stack: a number counts as no data. -/
def LastPush (data : Valtype) (stack : List Valtype) : Prop :=
  stack.head? = some data ∨ (data = [] ∧ ∀ top ∈ stack.head?, CScript.getSigOpCount top true = 0)

end CScript

namespace EvalEnv

variable {env : EvalEnv} {st st' : EvalState} {opcode : UInt8} {vch data : Valtype} {pc rest : List UInt8} {fuel : Nat}

theorem getSigOpCount_number (hop : OP_PUSHDATA4 < opcode) (hle : opcode ≤ OP_16)
    (h : env.evalOpcode opcode pc st = .ok st') :
    st'.vfExec = st.vfExec ∧ ∃ top, st'.stack = top :: st.stack ∧ CScript.getSigOpCount top true = 0 := by
  by_cases hlo : OP_1 ≤ opcode
  · rw [evalOpcode_number hlo hle] at h
    cases h
    obtain ⟨n, hn, rfl⟩ := exists_number hlo hle
    exact ⟨rfl, _, rfl, (number_spec n hn).2.2.2⟩
  · rcases (byte_spec opcode).2.2.2.2 ⟨hop, hlo⟩ with rfl | rfl
    · cases h
      have hnegate : CScript.getSigOpCount (CScriptNum.serialize ((0x4f : UInt8).toNat - 0x50)) true = 0 := by
        decide +kernel
      exact ⟨rfl, _, rfl, hnegate⟩
    · cases h

theorem lastPush_evalLoop (hexec : st.vfExec = []) (hlast : LastPush data st.stack)
    (h : env.evalLoop fuel st pc = .ok st') {fuel' : Nat} (hfuel : pc.length ≤ fuel')
    (hpush : isPushOnlyLoop fuel' pc = true) :
    ∃ data', lastPushLoop fuel' pc data = some data' ∧ LastPush data' st'.stack := by
  induction fuel' generalizing fuel st pc data with
  | zero =>
    obtain rfl : pc = [] := List.length_eq_zero_iff.mp (Nat.le_zero.mp hfuel)
    cases fuel <;> cases h <;> exact ⟨data, rfl, hlast⟩
  | succ fuel' ih =>
    cases pc with
    | nil =>
      cases fuel <;> cases h <;> exact ⟨data, rfl, hlast⟩
    | cons b pc =>
      obtain ⟨fuel₁, st₁, rest, hstep, hrun⟩ := evalLoop_cons h
      obtain ⟨opcode, vch, hread, hins⟩ := evalStep_ok hstep
      rw [isPushOnlyLoop, hread] at hpush
      · rw [lastPushLoop, hread]
        simp only at hpush ⊢
        by_cases hop : OP_16 < opcode
        · rw [if_pos hop] at hpush
          cases hpush
        rw [if_neg hop] at hpush ⊢
        have hlen := length_of_getOp2 hread
        have hle : opcode ≤ OP_16 := UInt8.not_lt.mp hop
        have hcounted : counted opcode st = st := by rw [counted, if_neg hop]
        have hfExec : st.fExec = true := by rw [EvalState.fExec, hexec, List.all_nil]
        rw [hcounted] at hins
        by_cases hdata : opcode ≤ OP_PUSHDATA4
        · rw [evalInstruction_push hins hfExec hdata] at hrun
          have hexec' : (st.push vch).vfExec = [] := hexec
          exact ih hexec' (.inl rfl) hrun (by omega) hpush
        · rw [UInt8.not_le] at hdata
          rw [evalInstruction_exec hfExec hdata] at hins
          obtain ⟨hvf, top, hs, hcount⟩ := getSigOpCount_number hdata hle hins
          have hvch := (eq_cons_of_getOp2 hread hdata).2
          refine ih (hvf.trans hexec) (.inr ⟨hvch, ?_⟩) hrun (by omega) hpush
          intro top' htop
          rw [hs] at htop
          cases htop
          exact hcount
      · exact List.cons_ne_nil b pc

/-- The calls that evaluations make are bounded by what is counted beforehand. -/
structure SigOpsBound (env : EvalEnv) (stack : List Valtype) : Prop where
  erasure : (env.evalScriptT stack).result = env.evalScript stack
  calls : (env.evalScriptT stack).AtMost (env.script.getSigOpCount true)
  accurate : env.script.getSigOpCount true ≤ env.script.getSigOpCount false
  -- a script that can be received does not count further than an `unsigned int`
  fits : env.script.bytes.length ≤ MAX_SIZE → env.script.getSigOpCount false < 2 ^ 32
  redeem : ∀ scriptSig scriptPubKey : CScript, scriptPubKey.isPayToScriptHash = true → scriptSig.isPushOnly = true →
    ∀ pubKeySerialized rest, evalScript { env with script := scriptSig } [] = .ok (pubKeySerialized :: rest) →
      (evalScriptT { env with script := pubKeySerialized } rest).AtMost (scriptPubKey.getSigOpCountFor scriptSig)

/-- The counted signature operations bound the executed ones. -/
theorem sigOps_bound (env : EvalEnv) (stack : List Valtype) : SigOpsBound env stack := by
  refine ⟨result_evalScriptT stack, atMost_evalScriptT env stack, sigOpLoop_le true _ _ _, ?_, ?_⟩
  · intro hlen
    have hle : env.script.getSigOpCount false ≤ 20 * env.script.bytes.length := sigOpLoop_le_length _ _ _
    have hmax : MAX_SIZE = 33554432 := rfl
    omega
  · intro scriptSig scriptPubKey hp2sh hpush pubKeySerialized rest hsig
    rw [evalScript] at hsig
    obtain ⟨-, hsig⟩ := guard_eq_ok.mp hsig
    obtain ⟨st, hrun, hend⟩ := bind_eq_ok hsig
    obtain ⟨-, hstack⟩ := guard_eq_ok.mp hend
    rw [Except.ok.injEq] at hstack
    obtain ⟨data, hdata, hlast⟩ := lastPush_evalLoop rfl (.inr ⟨rfl, by simp⟩) hrun (Nat.le_refl _) hpush
    have hcount : scriptPubKey.getSigOpCountFor scriptSig = CScript.getSigOpCount data true := by
      rw [getSigOpCountFor, hp2sh, hdata]
      rfl
    rw [hcount]
    have hcalls := atMost_evalScriptT { env with script := pubKeySerialized } rest
    rw [hstack, LastPush, List.head?_cons] at hlast
    rcases hlast with hlast | ⟨-, hlast⟩
    · cases hlast
      exact hcalls
    · have hzero : CScript.getSigOpCount pubKeySerialized true = 0 := hlast _ rfl
      rw [hzero] at hcalls
      exact hcalls.mono (Nat.zero_le _)

end EvalEnv

end DigiWage
