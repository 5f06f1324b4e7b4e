import DigiWage.Lib.Matches
import DigiWage.Script.Interpreter

/-!
# The interpreter with its guards

`EvalScript` as the source writes it: each opcode compares the size of the stack with what it needs and then reads, pops,
erases and inserts by position. An access that is out of range, an assertion that fails and a loop that does not end are
outcomes of their own (`EvalStop`), apart from the exception of `CScriptNum`.
-/

namespace DigiWage

open CScript Lib

/-- How `EvalScript` can end other than by returning true. -/
inductive EvalStop where
  | set_error (error : ScriptError)
  | scriptnum_error
  -- an access out of the range of a stack, or `popstack` of an empty one
  | out_of_range
  | assertion
  | out_of_rounds
deriving DecidableEq, Repr

/-- The error that is returned; `scriptnum_error` is the only exception that is expected. -/
def EvalStop.error? : EvalStop → Option ScriptError
  | .set_error error => some error
  | .scriptnum_error => some .UNKNOWN_ERROR
  | _ => none

/-- Computations of `EvalScript`. -/
abbrev Checked (A : Type) := Except EvalStop A

namespace Checked

/-- `return set_error(serror, error)`. -/
def fail {A : Type} (error : ScriptError) : Checked A := .error (.set_error error)

/-- A function that sets the error itself. -/
def check {A : Type} : Except ScriptError A → Checked A
  | .ok a => .ok a
  | .error error => fail error

/-! ## The stack -/

/-- The guard of an opcode that needs `n` elements. -/
def need (stack : List Valtype) (n : Nat) (error : ScriptError) : Checked Unit :=
  if stack.length < n then fail error else .ok ()

/-- `stacktop(-i)`: `stack.at` throws out of its range. -/
def stacktop (stack : List Valtype) (i : Nat) : Checked Valtype :=
  if i = 0 then .error .out_of_range
  else
    match stack[i - 1]? with
    | none => .error .out_of_range
    | some vch => .ok vch

def popstack : List Valtype → Checked (List Valtype)
  | [] => .error .out_of_range
  | _ :: stack => .ok stack

/-- `popstack`, `n` times. -/
def popstackN : Nat → List Valtype → Checked (List Valtype)
  | 0, stack => .ok stack
  | n + 1, stack => do popstackN n (← popstack stack)

/-- `swap(stacktop(-i), stacktop(-j))`. -/
def swapTop (stack : List Valtype) (i j : Nat) : Checked (List Valtype) := do
  let x ← stacktop stack i
  let y ← stacktop stack j
  .ok ((stack.set (i - 1) y).set (j - 1) x)

/-- `stack.erase(stack.end() - i, stack.end() - j)`. -/
def eraseRange (stack : List Valtype) (i j : Nat) : Checked (List Valtype) :=
  if stack.length < i ∨ i < j then .error .out_of_range else .ok (stack.take j ++ stack.drop i)

/-- `stack.erase(stack.end() - i)`. -/
def eraseTop (stack : List Valtype) (i : Nat) : Checked (List Valtype) :=
  if i = 0 ∨ stack.length < i then .error .out_of_range else .ok (stack.eraseIdx (i - 1))

/-- `stack.insert(stack.end() - i, vch)`. -/
def insertTop (stack : List Valtype) (i : Nat) (vch : Valtype) : Checked (List Valtype) :=
  if stack.length < i then .error .out_of_range else .ok (stack.take i ++ vch :: stack.drop i)

/-- The result of a test on top of the stack, and for the opcodes that end in `VERIFY` what they do with it. -/
def verifyTop (stack : List Valtype) (fVerify fValue : Bool) (error : ScriptError) : Checked (List Valtype) :=
  if fVerify then
    if fValue then popstack stack else fail error
  else .ok stack

/-! ## Numbers -/

def int64Min : Int := -2 ^ 63
def int64Max : Int := 2 ^ 63 - 1

/-- `CScriptNum::operator+=`. -/
def addAssign (value rhs : Int) : Checked Int :=
  if rhs = 0 ∨ (0 < rhs ∧ value ≤ int64Max - rhs) ∨ (rhs < 0 ∧ int64Min - rhs ≤ value) then .ok (value + rhs)
  else .error .assertion

/-- `CScriptNum::operator-=`. -/
def subAssign (value rhs : Int) : Checked Int :=
  if rhs = 0 ∨ (0 < rhs ∧ int64Min + rhs ≤ value) ∨ (rhs < 0 ∧ value ≤ int64Max + rhs) then .ok (value - rhs)
  else .error .assertion

/-- `CScriptNum::operator-`. -/
def negate (value : Int) : Checked Int := if value ≠ int64Min then .ok (-value) else .error .assertion

/-- The result of an addition or a subtraction, where it is a 64-bit number. -/
def inInt64 (value : Int) : Checked Int :=
  if int64Min ≤ value ∧ value ≤ int64Max then .ok value else .error .assertion

/-- The numeric opcodes of one operand. -/
def unaryNumAt : OpcodeType → Int → Checked Int
  | .OP_1ADD => fun bn => addAssign bn 1
  | .OP_1SUB => fun bn => subAssign bn 1
  | .OP_NEGATE => fun bn => negate bn
  | .OP_ABS => fun bn => if bn < 0 then negate bn else .ok bn
  | .OP_NOT => fun bn => .ok (boolNum (bn == 0))
  | .OP_0NOTEQUAL => fun bn => .ok (boolNum (bn != 0))
  | _ => fun _ => .error .assertion

/-- The numeric opcodes of two operands. -/
def binaryNumAt : OpcodeType → Int → Int → Checked Int
  | .OP_ADD => fun bn1 bn2 => inInt64 (bn1 + bn2)
  | .OP_SUB => fun bn1 bn2 => inInt64 (bn1 - bn2)
  | .OP_BOOLAND => fun bn1 bn2 => .ok (boolNum (bn1 != 0 && bn2 != 0))
  | .OP_BOOLOR => fun bn1 bn2 => .ok (boolNum (bn1 != 0 || bn2 != 0))
  | .OP_NUMEQUAL => fun bn1 bn2 => .ok (boolNum (bn1 == bn2))
  | .OP_NUMEQUALVERIFY => fun bn1 bn2 => .ok (boolNum (bn1 == bn2))
  | .OP_NUMNOTEQUAL => fun bn1 bn2 => .ok (boolNum (bn1 != bn2))
  | .OP_LESSTHAN => fun bn1 bn2 => .ok (boolNum (decide (bn1 < bn2)))
  | .OP_GREATERTHAN => fun bn1 bn2 => .ok (boolNum (decide (bn2 < bn1)))
  | .OP_LESSTHANOREQUAL => fun bn1 bn2 => .ok (boolNum (decide (bn1 ≤ bn2)))
  | .OP_GREATERTHANOREQUAL => fun bn1 bn2 => .ok (boolNum (decide (bn2 ≤ bn1)))
  | .OP_MIN => fun bn1 bn2 => .ok (if bn1 < bn2 then bn1 else bn2)
  | .OP_MAX => fun bn1 bn2 => .ok (if bn2 < bn1 then bn1 else bn2)
  | _ => fun _ _ => .error .assertion

/-! ## Families of opcodes -/

/-- The opcodes that replace the top of the stack with its hash. -/
def hashAt (hash : List UInt8 → List UInt8) (stack : List Valtype) : Checked (List Valtype) := do
  need stack 1 .INVALID_STACK_OPERATION
  let vch ← stacktop stack 1
  let stack ← popstack stack
  .ok (hash vch :: stack)

/-- The opcodes that only rearrange or measure the stack. -/
def stackOpAt (op : OpcodeType) (stack : List Valtype) : Checked (List Valtype) :=
  match op with
  | .OP_2DROP => do
    need stack 2 .INVALID_STACK_OPERATION
    let stack ← popstack stack
    popstack stack
  | .OP_2DUP => do
    need stack 2 .INVALID_STACK_OPERATION
    let vch1 ← stacktop stack 2
    let vch2 ← stacktop stack 1
    .ok (vch2 :: vch1 :: stack)
  | .OP_3DUP => do
    need stack 3 .INVALID_STACK_OPERATION
    let vch1 ← stacktop stack 3
    let vch2 ← stacktop stack 2
    let vch3 ← stacktop stack 1
    .ok (vch3 :: vch2 :: vch1 :: stack)
  | .OP_2OVER => do
    need stack 4 .INVALID_STACK_OPERATION
    let vch1 ← stacktop stack 4
    let vch2 ← stacktop stack 3
    .ok (vch2 :: vch1 :: stack)
  | .OP_2ROT => do
    need stack 6 .INVALID_STACK_OPERATION
    let vch1 ← stacktop stack 6
    let vch2 ← stacktop stack 5
    let stack ← eraseRange stack 6 4
    .ok (vch2 :: vch1 :: stack)
  | .OP_2SWAP => do
    need stack 4 .INVALID_STACK_OPERATION
    let stack ← swapTop stack 4 2
    swapTop stack 3 1
  | .OP_IFDUP => do
    need stack 1 .INVALID_STACK_OPERATION
    let vch ← stacktop stack 1
    .ok (if castToBool vch then vch :: stack else stack)
  | .OP_DEPTH => .ok (CScriptNum.serialize stack.length :: stack)
  | .OP_DROP => do
    need stack 1 .INVALID_STACK_OPERATION
    popstack stack
  | .OP_DUP => do
    need stack 1 .INVALID_STACK_OPERATION
    let vch ← stacktop stack 1
    .ok (vch :: stack)
  | .OP_NIP => do
    need stack 2 .INVALID_STACK_OPERATION
    eraseTop stack 2
  | .OP_OVER => do
    need stack 2 .INVALID_STACK_OPERATION
    let vch ← stacktop stack 2
    .ok (vch :: stack)
  | .OP_ROT => do
    need stack 3 .INVALID_STACK_OPERATION
    let stack ← swapTop stack 3 2
    swapTop stack 2 1
  | .OP_SWAP => do
    need stack 2 .INVALID_STACK_OPERATION
    swapTop stack 2 1
  | .OP_TUCK => do
    need stack 2 .INVALID_STACK_OPERATION
    let vch ← stacktop stack 1
    insertTop stack 2 vch
  | .OP_SIZE => do
    need stack 1 .INVALID_STACK_OPERATION
    let vch ← stacktop stack 1
    .ok (CScriptNum.serialize vch.length :: stack)
  | .OP_RIPEMD160 => hashAt ripemd160 stack
  | .OP_SHA1 => hashAt sha1 stack
  | .OP_SHA256 => hashAt sha256 stack
  | .OP_HASH160 => hashAt hash160 stack
  | .OP_HASH256 => hashAt (fun x => sha256 (sha256 x)) stack
  | _ => fail .INVALID_STACK_OPERATION

/-- `OP_IF` and `OP_NOTIF`. -/
def beginIfAt (fNot : Bool) (st : EvalState) : Checked EvalState := do
  if st.fExec then
    need st.stack 1 .UNBALANCED_CONDITIONAL
    let vch ← stacktop st.stack 1
    let fValue := if fNot then !castToBool vch else castToBool vch
    let stack ← popstack st.stack
    .ok { st with stack := stack, vfExec := fValue :: st.vfExec }
  else .ok { st with vfExec := false :: st.vfExec }

/-- `OP_VERIFY`. -/
def verifyAt (st : EvalState) : Checked EvalState := do
  need st.stack 1 .INVALID_STACK_OPERATION
  let fValue := castToBool (← stacktop st.stack 1)
  if fValue then
    let stack ← popstack st.stack
    .ok { st with stack := stack }
  else fail .VERIFY

/-- `OP_TOALTSTACK`. -/
def toAltStackAt (st : EvalState) : Checked EvalState := do
  need st.stack 1 .INVALID_STACK_OPERATION
  let vch ← stacktop st.stack 1
  let stack ← popstack st.stack
  .ok { st with stack := stack, altstack := vch :: st.altstack }

/-- `OP_FROMALTSTACK`. -/
def fromAltStackAt (st : EvalState) : Checked EvalState := do
  need st.altstack 1 .INVALID_ALTSTACK_OPERATION
  let vch ← stacktop st.altstack 1
  let altstack ← popstack st.altstack
  .ok { st with stack := vch :: st.stack, altstack := altstack }

/-- `OP_EQUAL` and `OP_EQUALVERIFY`. -/
def equalAt (fVerify : Bool) (st : EvalState) : Checked EvalState := do
  need st.stack 2 .INVALID_STACK_OPERATION
  let vch1 ← stacktop st.stack 2
  let vch2 ← stacktop st.stack 1
  let fEqual := vch1 == vch2
  let stack ← popstack st.stack
  let stack ← popstack stack
  let stack ← verifyTop (ofBool fEqual :: stack) fVerify fEqual .EQUALVERIFY
  .ok { st with stack := stack }

end Checked

namespace EvalEnv

open Checked

variable (env : EvalEnv)

/-- `CScriptNum` of an element of the stack. -/
def scriptNumAt (vch : Valtype) (nMaxNumSize : Nat) : Checked Int :=
  match CScriptNum.ofVch vch env.fRequireMinimal nMaxNumSize with
  | none => .error .scriptnum_error
  | some n => .ok n

/-- `OP_CHECKLOCKTIMEVERIFY`. -/
def checkLockTimeVerifyAt (st : EvalState) : Checked EvalState :=
  if !hasFlag env.flags SCRIPT_VERIFY_CHECKLOCKTIMEVERIFY then
    if hasFlag env.flags SCRIPT_VERIFY_DISCOURAGE_UPGRADABLE_NOPS then fail .DISCOURAGE_UPGRADABLE_NOPS else .ok st
  else do
    need st.stack 1 .INVALID_STACK_OPERATION
    let nLockTime ← env.scriptNumAt (← stacktop st.stack 1) 5
    if nLockTime < 0 then fail .NEGATIVE_LOCKTIME
    else if !env.checker.checkLockTime nLockTime then fail .UNSATISFIED_LOCKTIME
    else .ok st

/-- `OP_PICK` and `OP_ROLL`. -/
def pickAt (fRoll : Bool) (st : EvalState) : Checked EvalState := do
  need st.stack 2 .INVALID_STACK_OPERATION
  let n := CScriptNum.getint (← env.scriptNumAt (← stacktop st.stack 1) CScriptNum.nDefaultMaxNumSize)
  let stack ← popstack st.stack
  if n < 0 ∨ (stack.length : Int) ≤ n then fail .INVALID_STACK_OPERATION
  else
    let vch ← stacktop stack (n.toNat + 1)
    let stack ← if fRoll then eraseTop stack (n.toNat + 1) else .ok stack
    .ok { st with stack := vch :: stack }

/-- The numeric opcodes of one operand. -/
def evalUnaryAt (op : OpcodeType) (st : EvalState) : Checked EvalState := do
  need st.stack 1 .INVALID_STACK_OPERATION
  let bn ← env.scriptNumAt (← stacktop st.stack 1) CScriptNum.nDefaultMaxNumSize
  let bn ← unaryNumAt op bn
  let stack ← popstack st.stack
  .ok { st with stack := CScriptNum.serialize bn :: stack }

/-- The numeric opcodes of two operands. -/
def evalBinaryAt (op : OpcodeType) (fVerify : Bool) (st : EvalState) : Checked EvalState := do
  need st.stack 2 .INVALID_STACK_OPERATION
  let bn1 ← env.scriptNumAt (← stacktop st.stack 2) CScriptNum.nDefaultMaxNumSize
  let bn2 ← env.scriptNumAt (← stacktop st.stack 1) CScriptNum.nDefaultMaxNumSize
  let bn ← binaryNumAt op bn1 bn2
  let stack ← popstack st.stack
  let stack ← popstack stack
  let stack := CScriptNum.serialize bn :: stack
  if fVerify then
    if castToBool (← stacktop stack 1) then
      let stack ← popstack stack
      .ok { st with stack := stack }
    else fail .NUMEQUALVERIFY
  else .ok { st with stack := stack }

/-- `OP_WITHIN`. -/
def withinAt (st : EvalState) : Checked EvalState := do
  need st.stack 3 .INVALID_STACK_OPERATION
  let bn1 ← env.scriptNumAt (← stacktop st.stack 3) CScriptNum.nDefaultMaxNumSize
  let bn2 ← env.scriptNumAt (← stacktop st.stack 2) CScriptNum.nDefaultMaxNumSize
  let bn3 ← env.scriptNumAt (← stacktop st.stack 1) CScriptNum.nDefaultMaxNumSize
  let fValue := decide (bn2 ≤ bn1) && decide (bn1 < bn3)
  let stack ← popstack st.stack
  let stack ← popstack stack
  let stack ← popstack stack
  .ok { st with stack := ofBool fValue :: stack }

/-- `OP_CHECKSIG` and `OP_CHECKSIGVERIFY`. -/
def checkSigAt (fVerify : Bool) (st : EvalState) : Checked EvalState := do
  need st.stack 2 .INVALID_STACK_OPERATION
  let vchSig ← stacktop st.stack 2
  let vchPubKey ← stacktop st.stack 1
  let scriptCode := scriptCode st vchSig
  check (env.checkSignatureEncoding vchSig)
  check (env.checkPubKeyEncoding vchPubKey)
  let fSuccess := env.checker.checkSig vchSig vchPubKey scriptCode
  let stack ← popstack st.stack
  let stack ← popstack stack
  let stack ← verifyTop (ofBool fSuccess :: stack) fVerify fSuccess .CHECKSIGVERIFY
  .ok { st with stack := stack }

/-- The loop that drops the signatures from the script code, at its `k`-th round. -/
def dropSigsAt (stack : List Valtype) (isig : Nat) : Nat → Nat → CScript → Checked CScript
  | 0, _, scriptCode => .ok scriptCode
  | rounds + 1, k, scriptCode => do
    let vchSig ← stacktop stack (isig + k)
    dropSigsAt stack isig rounds (k + 1) (findAndDelete scriptCode (CScript.push vchSig))

/-- The loop of `OP_CHECKMULTISIG` over signatures and keys. -/
def checkMultiSigLoopAt (stack : List Valtype) (scriptCode : CScript) :
    Nat → (nSigsCount nKeysCount : Int) → (isig ikey : Nat) → Checked Bool
  | 0, _, _, _, _ => .error .out_of_rounds
  | rounds + 1, nSigsCount, nKeysCount, isig, ikey =>
    if 0 < nSigsCount then do
      let vchSig ← stacktop stack isig
      let vchPubKey ← stacktop stack ikey
      check (env.checkSignatureEncoding vchSig)
      check (env.checkPubKeyEncoding vchPubKey)
      let fOk := env.checker.checkSig vchSig vchPubKey scriptCode
      let isig := if fOk then isig + 1 else isig
      let nSigsCount := if fOk then nSigsCount - 1 else nSigsCount
      if nKeysCount - 1 < nSigsCount then .ok false
      else checkMultiSigLoopAt stack scriptCode rounds nSigsCount (nKeysCount - 1) isig (ikey + 1)
    else .ok true

/-- `OP_CHECKMULTISIG` and `OP_CHECKMULTISIGVERIFY`. -/
def checkMultiSigAt (fVerify : Bool) (st : EvalState) : Checked EvalState := do
  need st.stack 1 .INVALID_STACK_OPERATION
  let nKeysCount := CScriptNum.getint (← env.scriptNumAt (← stacktop st.stack 1) CScriptNum.nDefaultMaxNumSize)
  if nKeysCount < 0 ∨ 20 < nKeysCount then fail .PUBKEY_COUNT
  else
    let st := { st with nOpCount := st.nOpCount + nKeysCount.toNat }
    if 201 < st.nOpCount then fail .OP_COUNT
    else
      let ikey := 2
      let i := ikey + nKeysCount.toNat
      need st.stack i .INVALID_STACK_OPERATION
      let nSigsCount := CScriptNum.getint (← env.scriptNumAt (← stacktop st.stack i) CScriptNum.nDefaultMaxNumSize)
      if nSigsCount < 0 ∨ nKeysCount < nSigsCount then fail .SIG_COUNT
      else
        let isig := i + 1
        let i := isig + nSigsCount.toNat
        need st.stack i .INVALID_STACK_OPERATION
        let scriptCode ← dropSigsAt st.stack isig nSigsCount.toNat 0 st.pbegincodehash
        let fSuccess ←
          env.checkMultiSigLoopAt st.stack scriptCode (nKeysCount.toNat + 1) nSigsCount nKeysCount isig ikey
        let stack ← popstackN (i - 1) st.stack
        need stack 1 .INVALID_STACK_OPERATION
        let fDummy ←
          if hasFlag env.flags SCRIPT_VERIFY_NULLDUMMY then do
            let dummy ← stacktop stack 1
            .ok !dummy.isEmpty
          else .ok false
        if fDummy then fail .SIG_NULLDUMMY
        else
          let stack ← popstack stack
          let stack ← verifyTop (ofBool fSuccess :: stack) fVerify fSuccess .CHECKMULTISIGVERIFY
          .ok { st with stack := stack }

/-! ## One opcode -/

/-- The `switch` of `EvalScript`; `pc` is the place behind the opcode. -/
def evalOpcodeAt (opcode : UInt8) (pc : List UInt8) (st : EvalState) : Checked EvalState :=
  match OpcodeType.ofByte opcode with
  | none => fail .BAD_OPCODE
  | some op =>
    match op with
    | .OP_1NEGATE | .OP_1 | .OP_2 | .OP_3 | .OP_4 | .OP_5 | .OP_6 | .OP_7 | .OP_8 | .OP_9 | .OP_10 | .OP_11 | .OP_12
    | .OP_13 | .OP_14 | .OP_15 | .OP_16 => .ok (st.push (CScriptNum.serialize (opcode.toNat - 0x50)))
    | .OP_NOP => .ok st
    | .OP_CHECKLOCKTIMEVERIFY => env.checkLockTimeVerifyAt st
    | .OP_NOP1 | .OP_NOP3 | .OP_NOP4 | .OP_NOP5 | .OP_NOP6 | .OP_NOP7 | .OP_NOP8 | .OP_NOP9 | .OP_NOP10 =>
      if hasFlag env.flags SCRIPT_VERIFY_DISCOURAGE_UPGRADABLE_NOPS then fail .DISCOURAGE_UPGRADABLE_NOPS else .ok st
    | .OP_IF => beginIfAt false st
    | .OP_NOTIF => beginIfAt true st
    | .OP_ELSE =>
      match st.vfExec with
      | [] => fail .UNBALANCED_CONDITIONAL
      | fValue :: vfExec => .ok { st with vfExec := (!fValue) :: vfExec }
    | .OP_ENDIF =>
      match st.vfExec with
      | [] => fail .UNBALANCED_CONDITIONAL
      | _ :: vfExec => .ok { st with vfExec := vfExec }
    | .OP_VERIFY => verifyAt st
    | .OP_RETURN => fail .OP_RETURN
    | .OP_TOALTSTACK => toAltStackAt st
    | .OP_FROMALTSTACK => fromAltStackAt st
    | .OP_2DROP | .OP_2DUP | .OP_3DUP | .OP_2OVER | .OP_2ROT | .OP_2SWAP | .OP_IFDUP | .OP_DEPTH | .OP_DROP | .OP_DUP
    | .OP_NIP | .OP_OVER | .OP_ROT | .OP_SWAP | .OP_TUCK | .OP_SIZE
    | .OP_RIPEMD160 | .OP_SHA1 | .OP_SHA256 | .OP_HASH160 | .OP_HASH256 => do
      let stack ← stackOpAt op st.stack
      .ok { st with stack := stack }
    | .OP_PICK => env.pickAt false st
    | .OP_ROLL => env.pickAt true st
    | .OP_EQUAL => equalAt false st
    | .OP_EQUALVERIFY => equalAt true st
    | .OP_1ADD | .OP_1SUB | .OP_NEGATE | .OP_ABS | .OP_NOT | .OP_0NOTEQUAL => env.evalUnaryAt op st
    | .OP_ADD | .OP_SUB | .OP_BOOLAND | .OP_BOOLOR | .OP_NUMEQUAL | .OP_NUMNOTEQUAL | .OP_LESSTHAN | .OP_GREATERTHAN
    | .OP_LESSTHANOREQUAL | .OP_GREATERTHANOREQUAL | .OP_MIN | .OP_MAX => env.evalBinaryAt op false st
    | .OP_NUMEQUALVERIFY => env.evalBinaryAt op true st
    | .OP_WITHIN => env.withinAt st
    | .OP_CODESEPARATOR => .ok { st with pbegincodehash := pc }
    | .OP_CHECKSIG => env.checkSigAt false st
    | .OP_CHECKSIGVERIFY => env.checkSigAt true st
    | .OP_CHECKMULTISIG => env.checkMultiSigAt false st
    | .OP_CHECKMULTISIGVERIFY => env.checkMultiSigAt true st
    | .OP_CHECKCOLDSTAKEVERIFY =>
      if !env.checker.checkColdStake env.script then fail .CHECKCOLDSTAKEVERIFY else .ok st
    | _ => fail .BAD_OPCODE

/-- What is done with an instruction that was read. -/
def evalInstructionAt (opcode : UInt8) (vchPushValue : Valtype) (pc : List UInt8) (st : EvalState) : Checked EvalState :=
  if st.fExec && decide (opcode ≤ OP_PUSHDATA4) then
    if env.fRequireMinimal && !checkMinimalPush vchPushValue opcode then fail .MINIMALDATA
    else .ok (st.push vchPushValue)
  else if st.fExec || (decide (OP_IF ≤ opcode) && decide (opcode ≤ OP_ENDIF)) then env.evalOpcodeAt opcode pc st
  else .ok st

/-- One turn of the loop. -/
def evalStepAt (st : EvalState) (pc : List UInt8) : Checked (EvalState × List UInt8) :=
  match getOp2 pc with
  | none => fail .BAD_OPCODE
  | some (opcode, vchPushValue, pc) =>
    if maxScriptElementSize < vchPushValue.length then fail .PUSH_SIZE
    else if OP_16 < opcode ∧ 201 < (counted opcode st).nOpCount then fail .OP_COUNT
    else if isDisabled opcode then fail .DISABLED_OPCODE
    else do
      let st ← env.evalInstructionAt opcode vchPushValue pc (counted opcode st)
      if 1000 < st.stack.length + st.altstack.length then fail .STACK_SIZE else .ok (st, pc)

/-- The loop of `EvalScript`. -/
def evalLoopAt : Nat → EvalState → List UInt8 → Checked EvalState
  | _, st, [] => .ok st
  | 0, _, _ :: _ => .error .out_of_rounds
  | rounds + 1, st, b :: pc => do
    let (st, rest) ← env.evalStepAt st (b :: pc)
    evalLoopAt rounds st rest

/-- `EvalScript`, without what it makes of an exception. -/
def evalScriptAt (stack : List Valtype) : Checked (List Valtype) :=
  if maxScriptSize < env.script.bytes.length then fail .SCRIPT_SIZE
  else do
    let st ← env.evalLoopAt env.script.bytes.length ⟨stack, [], [], 0, env.script.bytes⟩ env.script.bytes
    if !st.vfExec.isEmpty then fail .UNBALANCED_CONDITIONAL else .ok st.stack

end EvalEnv

/-! ## No faults -/

theorem CScriptNum.ofVch_bound {vch : Valtype} {fRequireMinimal : Bool} {n : Int}
    (h : CScriptNum.ofVch vch fRequireMinimal nDefaultMaxNumSize = some n) : -2 ^ 32 < n ∧ n < 2 ^ 32 := by
  have hlen : vch.length ≤ 4 ∧ n = setVch vch := by
    unfold CScriptNum.ofVch at h
    split at h
    · cases h
    · rename_i hlen
      refine ⟨Nat.not_lt.mp hlen, ?_⟩
      split at h
      · cases h
        rfl
      · split at h
        · cases h
        · cases h
          rfl
  obtain ⟨hlen, rfl⟩ := hlen
  have hpow : 256 ^ vch.length ≤ 256 ^ 4 := Nat.pow_le_pow_right (by omega) hlen
  have hlt := ofLeBytes_lt vch
  have hpow' : (256 : Nat) ^ (vch.length - 1) ≤ 256 ^ 3 := Nat.pow_le_pow_right (by omega) (by omega)
  have hcast : ((256 : Int) ^ (vch.length - 1)) = ((256 ^ (vch.length - 1) : Nat) : Int) := by push_cast; rfl
  have hnonneg : (0 : Int) ≤ ((256 ^ (vch.length - 1) : Nat) : Int) := Int.natCast_nonneg _
  unfold setVch
  split
  · omega
  · split
    · rw [hcast]
      omega
    · omega

namespace Checked

theorem matches_fail {A : Type} (error : ScriptError) :
    Matches EvalStop.error? (fail error : Checked A) (.error error) := rfl

theorem matches_check {A : Type} (x : Except ScriptError A) : Matches EvalStop.error? (check x) x := by
  cases x <;> rfl

/-- An opcode of the stack, where an element may be missing. -/
def orInvalid (x : Option (List Valtype)) : Except ScriptError (List Valtype) :=
  match x with
  | none => .error .INVALID_STACK_OPERATION
  | some stack => .ok stack

theorem stackOpAt_matches (op : OpcodeType) (stack : List Valtype) :
    Matches EvalStop.error? (stackOpAt op stack) (orInvalid (stackOp op stack)) := by
  cases op with
  | OP_2DROP => rcases stack with _ | ⟨x2, _ | ⟨x1, s⟩⟩ <;> rfl
  | OP_2DUP => rcases stack with _ | ⟨x2, _ | ⟨x1, s⟩⟩ <;> rfl
  | OP_3DUP => rcases stack with _ | ⟨x3, _ | ⟨x2, _ | ⟨x1, s⟩⟩⟩ <;> rfl
  | OP_2OVER => rcases stack with _ | ⟨x4, _ | ⟨x3, _ | ⟨x2, _ | ⟨x1, s⟩⟩⟩⟩ <;> rfl
  | OP_2ROT => rcases stack with _ | ⟨x6, _ | ⟨x5, _ | ⟨x4, _ | ⟨x3, _ | ⟨x2, _ | ⟨x1, s⟩⟩⟩⟩⟩⟩ <;> rfl
  | OP_2SWAP => rcases stack with _ | ⟨x4, _ | ⟨x3, _ | ⟨x2, _ | ⟨x1, s⟩⟩⟩⟩ <;> rfl
  | OP_IFDUP => rcases stack with _ | ⟨x, s⟩ <;> rfl
  | OP_DROP => rcases stack with _ | ⟨x, s⟩ <;> rfl
  | OP_DUP => rcases stack with _ | ⟨x, s⟩ <;> rfl
  | OP_NIP => rcases stack with _ | ⟨x2, _ | ⟨x1, s⟩⟩ <;> rfl
  | OP_OVER => rcases stack with _ | ⟨x2, _ | ⟨x1, s⟩⟩ <;> rfl
  | OP_ROT => rcases stack with _ | ⟨x3, _ | ⟨x2, _ | ⟨x1, s⟩⟩⟩ <;> rfl
  | OP_SWAP => rcases stack with _ | ⟨x2, _ | ⟨x1, s⟩⟩ <;> rfl
  | OP_TUCK => rcases stack with _ | ⟨x2, _ | ⟨x1, s⟩⟩ <;> rfl
  | OP_SIZE => rcases stack with _ | ⟨x, s⟩ <;> rfl
  | OP_RIPEMD160 => rcases stack with _ | ⟨x, s⟩ <;> rfl
  | OP_SHA1 => rcases stack with _ | ⟨x, s⟩ <;> rfl
  | OP_SHA256 => rcases stack with _ | ⟨x, s⟩ <;> rfl
  | OP_HASH160 => rcases stack with _ | ⟨x, s⟩ <;> rfl
  | OP_HASH256 => rcases stack with _ | ⟨x, s⟩ <;> rfl
  | _ => exact rfl

/-! ### Positions -/

section Positions

variable {stack : List Valtype} {i n : Nat}

theorem stacktop_succ {s : List Valtype} {vch : Valtype} (h : stack.drop i = vch :: s) :
    stacktop stack (i + 1) = .ok vch := by
  have hget : stack[i]? = some vch := by
    have hzero := congrArg (fun l => l[0]?) h
    simpa using hzero
  simp only [stacktop, Nat.add_sub_cancel, hget]
  rfl

theorem popstackN_eq (h : n ≤ stack.length) : popstackN n stack = .ok (stack.drop n) := by
  induction n generalizing stack with
  | zero => rfl
  | succ n ih =>
    cases stack with
    | nil => cases h
    | cons vch stack => exact ih (Nat.le_of_succ_le_succ h)

end Positions

theorem unaryNumAt_eq {op : OpcodeType} {bn : Int} (hbn : -2 ^ 32 < bn ∧ bn < 2 ^ 32)
    (hop : op = .OP_1ADD ∨ op = .OP_1SUB ∨ op = .OP_NEGATE ∨ op = .OP_ABS ∨ op = .OP_NOT ∨ op = .OP_0NOTEQUAL) :
    unaryNumAt op bn = .ok (unaryNum op bn) := by
  have hmin : int64Min = -2 ^ 63 := rfl
  have hmax : int64Max = 2 ^ 63 - 1 := rfl
  rcases hop with rfl | rfl | rfl | rfl | rfl | rfl
  · simp only [unaryNumAt, unaryNum, addAssign]
    rw [if_pos (by omega)]
  · simp only [unaryNumAt, unaryNum, subAssign]
    rw [if_pos (by omega)]
  · simp only [unaryNumAt, unaryNum, negate]
    rw [if_pos (by omega)]
  · simp only [unaryNumAt, unaryNum, negate]
    split
    · rw [if_pos (by omega)]
    · rfl
  · rfl
  · rfl

theorem binaryNumAt_eq {op : OpcodeType} {bn1 bn2 : Int} (h1 : -2 ^ 32 < bn1 ∧ bn1 < 2 ^ 32)
    (h2 : -2 ^ 32 < bn2 ∧ bn2 < 2 ^ 32)
    (hop : op ∈ [.OP_ADD, .OP_SUB, .OP_BOOLAND, .OP_BOOLOR, .OP_NUMEQUAL, .OP_NUMEQUALVERIFY, .OP_NUMNOTEQUAL,
      .OP_LESSTHAN, .OP_GREATERTHAN, .OP_LESSTHANOREQUAL, .OP_GREATERTHANOREQUAL, .OP_MIN, .OP_MAX]) :
    binaryNumAt op bn1 bn2 = .ok (binaryNum op bn1 bn2) := by
  have hmin : int64Min = -2 ^ 63 := rfl
  have hmax : int64Max = 2 ^ 63 - 1 := rfl
  simp only [List.mem_cons, List.not_mem_nil, or_false] at hop
  rcases hop with rfl | rfl | hop
  · simp only [binaryNumAt, binaryNum, inInt64]
    rw [if_pos (by omega)]
  · simp only [binaryNumAt, binaryNum, inInt64]
    rw [if_pos (by omega)]
  · rcases hop with rfl | rfl | rfl | rfl | rfl | rfl | rfl | rfl | rfl | rfl | rfl <;> rfl

theorem beginIfAt_matches (fNot : Bool) (st : EvalState) :
    Matches EvalStop.error? (beginIfAt fNot st) (EvalEnv.beginIf fNot st) := by
  unfold beginIfAt EvalEnv.beginIf
  cases st.fExec with
  | false => rfl
  | true => cases st.stack <;> rfl

theorem verifyTop_matches (st : EvalState) (stack : List Valtype) (fVerify fValue : Bool) (error : ScriptError) :
    Matches EvalStop.error? (do
      let stack ← verifyTop (ofBool fValue :: stack) fVerify fValue error
      .ok { st with stack := stack }) (verified { st with stack := stack } fVerify fValue (ofBool fValue) error) := by
  cases fVerify <;> cases fValue <;> rfl

theorem verifyAt_matches (st : EvalState) : Matches EvalStop.error? (verifyAt st) (match st.stack with
    | [] => .error .INVALID_STACK_OPERATION
    | vch :: s => if castToBool vch then .ok { st with stack := s } else .error .VERIFY) := by
  unfold verifyAt
  cases st.stack with
  | nil => rfl
  | cons vch s => exact .ite (fun _ => rfl) fun _ => rfl

theorem toAltStackAt_matches (st : EvalState) : Matches EvalStop.error? (toAltStackAt st) (match st.stack with
    | [] => .error .INVALID_STACK_OPERATION
    | vch :: s => .ok { st with stack := s, altstack := vch :: st.altstack }) := by
  unfold toAltStackAt
  cases st.stack <;> rfl

theorem fromAltStackAt_matches (st : EvalState) : Matches EvalStop.error? (fromAltStackAt st) (match st.altstack with
    | [] => .error .INVALID_ALTSTACK_OPERATION
    | vch :: s => .ok { st with stack := vch :: st.stack, altstack := s }) := by
  unfold fromAltStackAt
  cases st.altstack <;> rfl

theorem equalAt_matches (fVerify : Bool) (st : EvalState) :
    Matches EvalStop.error? (equalAt fVerify st) (EvalEnv.equal fVerify st) := by
  unfold equalAt EvalEnv.equal
  rcases st.stack with _ | ⟨vch2, _ | ⟨vch1, s⟩⟩
  · rfl
  · rfl
  · exact verifyTop_matches st s fVerify (vch1 == vch2) .EQUALVERIFY

end Checked

namespace EvalEnv

open Checked

variable {env : EvalEnv} {st : EvalState}

theorem scriptNumAt_matches (vch : Valtype) (nMaxNumSize : Nat) :
    Matches EvalStop.error? (env.scriptNumAt vch nMaxNumSize) (env.scriptNum vch nMaxNumSize) := by
  unfold scriptNumAt scriptNum
  cases CScriptNum.ofVch vch env.fRequireMinimal nMaxNumSize <;> rfl

theorem scriptNum_bound {vch : Valtype} {n : Int} (h : env.scriptNum vch CScriptNum.nDefaultMaxNumSize = .ok n) :
    -2 ^ 32 < n ∧ n < 2 ^ 32 := by
  unfold scriptNum at h
  split at h
  · cases h
  · rename_i hnum
    cases h
    exact CScriptNum.ofVch_bound hnum

theorem checkLockTimeVerifyAt_matches (st : EvalState) :
    Matches EvalStop.error? (env.checkLockTimeVerifyAt st) (env.checkLockTimeVerify st) := by
  unfold checkLockTimeVerifyAt checkLockTimeVerify
  refine Matches.ite (fun _ => .ite (fun _ => rfl) fun _ => rfl) fun _ => ?_
  cases st.stack with
  | nil => rfl
  | cons top s =>
    refine (scriptNumAt_matches top 5).bind fun nLockTime _ => ?_
    exact .ite (fun _ => rfl) fun _ => .ite (fun _ => rfl) fun _ => rfl

theorem evalUnaryAt_matches {op : OpcodeType}
    (hop : op = .OP_1ADD ∨ op = .OP_1SUB ∨ op = .OP_NEGATE ∨ op = .OP_ABS ∨ op = .OP_NOT ∨ op = .OP_0NOTEQUAL)
    (st : EvalState) : Matches EvalStop.error? (env.evalUnaryAt op st) (env.evalUnary op st) := by
  unfold evalUnaryAt evalUnary
  cases st.stack with
  | nil => rfl
  | cons top s =>
    refine (scriptNumAt_matches top _).bind fun bn hbn => ?_
    rw [unaryNumAt_eq (scriptNum_bound hbn) hop]
    rfl

theorem evalBinaryAt_matches {op : OpcodeType} (fVerify : Bool)
    (hop : op ∈ [.OP_ADD, .OP_SUB, .OP_BOOLAND, .OP_BOOLOR, .OP_NUMEQUAL, .OP_NUMEQUALVERIFY, .OP_NUMNOTEQUAL,
      .OP_LESSTHAN, .OP_GREATERTHAN, .OP_LESSTHANOREQUAL, .OP_GREATERTHANOREQUAL, .OP_MIN, .OP_MAX])
    (st : EvalState) : Matches EvalStop.error? (env.evalBinaryAt op fVerify st) (env.evalBinary op fVerify st) := by
  unfold evalBinaryAt evalBinary
  rcases st.stack with _ | ⟨x2, _ | ⟨x1, s⟩⟩
  · rfl
  · rfl
  · refine (scriptNumAt_matches x1 _).bind fun bn1 h1 => ?_
    refine (scriptNumAt_matches x2 _).bind fun bn2 h2 => ?_
    rw [binaryNumAt_eq (scriptNum_bound h1) (scriptNum_bound h2) hop]
    cases fVerify with
    | false => rfl
    | true =>
      change Matches EvalStop.error? (if castToBool (CScriptNum.serialize (binaryNum op bn1 bn2)) = true then _ else _)
        (if castToBool (CScriptNum.serialize (binaryNum op bn1 bn2)) = true then _ else _)
      exact .ite (fun _ => .ok _) fun _ => matches_fail _

theorem withinAt_matches (st : EvalState) : Matches EvalStop.error? (env.withinAt st) (env.within st) := by
  unfold withinAt within
  rcases st.stack with _ | ⟨x3, _ | ⟨x2, _ | ⟨x1, s⟩⟩⟩
  · rfl
  · rfl
  · rfl
  · refine (scriptNumAt_matches x1 _).bind fun bn1 _ => ?_
    refine (scriptNumAt_matches x2 _).bind fun bn2 _ => ?_
    exact (scriptNumAt_matches x3 _).bind fun bn3 _ => rfl

theorem checkSigAt_matches (fVerify : Bool) (st : EvalState) :
    Matches EvalStop.error? (env.checkSigAt fVerify st) (env.checkSigOp fVerify st) := by
  unfold checkSigAt checkSigOp
  rcases st.stack with _ | ⟨vchPubKey, _ | ⟨vchSig, s⟩⟩
  · rfl
  · rfl
  · refine (matches_check (env.checkSignatureEncoding vchSig)).bind fun _ _ => ?_
    refine (matches_check (env.checkPubKeyEncoding vchPubKey)).bind fun _ _ => ?_
    exact verifyTop_matches st s fVerify _ .CHECKSIGVERIFY

theorem pickAt_matches (fRoll : Bool) (st : EvalState) :
    Matches EvalStop.error? (env.pickAt fRoll st) (env.pick fRoll st) := by
  unfold pickAt pick
  rcases st.stack with _ | ⟨top, _ | ⟨x, s⟩⟩
  · rfl
  · rfl
  · refine (scriptNumAt_matches top _).bind fun num _ => ?_
    refine Matches.ite (fun _ => rfl) fun hrange => ?_
    have hlt : (CScriptNum.getint num).toNat < (x :: s).length := by omega
    have hdrop := List.drop_eq_getElem_cons hlt
    have herase : eraseTop (x :: s) ((CScriptNum.getint num).toNat + 1) =
        .ok ((x :: s).eraseIdx (CScriptNum.getint num).toNat) := by
      rw [eraseTop, if_neg (by omega)]
      rfl
    rw [stacktop_succ hdrop, herase, List.getD_eq_getElem?_getD, List.getElem?_eq_getElem hlt, Option.getD_some]
    cases fRoll <;> rfl

/-! ### `OP_CHECKMULTISIG` -/

theorem dropSigsAt_eq {stack : List Valtype} {isig : Nat} (n k : Nat) (scriptCode : CScript)
    (hlen : isig + k + n ≤ stack.length) :
    dropSigsAt stack (isig + 1) n k scriptCode =
      .ok (((stack.drop (isig + k)).take n).foldl (fun code vchSig => findAndDelete code (CScript.push vchSig))
        scriptCode) := by
  induction n generalizing k scriptCode with
  | zero => rfl
  | succ n ih =>
    have hlt : isig + k < stack.length := by omega
    have hdrop := List.drop_eq_getElem_cons hlt
    have hread := stacktop_succ hdrop
    have hpos : isig + 1 + k = isig + k + 1 := by omega
    have hrest := ih (k + 1) (findAndDelete scriptCode (CScript.push stack[isig + k])) (by omega)
    rw [dropSigsAt, hpos, hread, hdrop, List.take_succ_cons, List.foldl_cons]
    exact hrest

theorem checkMultiSigLoopAt_matches {stack : List Valtype} (scriptCode : CScript) {rounds nSigs nKeys isig ikey : Nat}
    (hsigs : isig + nSigs ≤ stack.length) (hkeys : ikey + nKeys ≤ stack.length) (hle : nSigs ≤ nKeys)
    (hrounds : nKeys < rounds) :
    Matches EvalStop.error? (env.checkMultiSigLoopAt stack scriptCode rounds nSigs nKeys (isig + 1) (ikey + 1))
      (env.checkMultiSigLoop scriptCode ((stack.drop isig).take nSigs) ((stack.drop ikey).take nKeys)) := by
  induction rounds generalizing nSigs nKeys isig ikey with
  | zero => omega
  | succ rounds ih =>
    cases nSigs with
    | zero =>
      rw [List.take_zero, checkMultiSigLoopAt, if_neg (by omega), checkMultiSigLoop]
      exact .ok true
    | succ nSigs =>
      obtain ⟨nKeys, rfl⟩ : ∃ n, nKeys = n + 1 := ⟨nKeys - 1, by omega⟩
      have hsig := List.drop_eq_getElem_cons (by omega : isig < stack.length)
      have hkey := List.drop_eq_getElem_cons (by omega : ikey < stack.length)
      have hreadSig := stacktop_succ hsig
      have hreadKey := stacktop_succ hkey
      generalize stack[isig] = vchSig at hsig hreadSig
      generalize stack[ikey] = vchPubKey at hkey hreadKey
      have hcount : ((stack.drop (ikey + 1)).take nKeys).length = nKeys := by
        rw [List.length_take, List.length_drop]
        omega
      have hcount' : ((stack.drop (isig + 1)).take nSigs).length = nSigs := by
        rw [List.length_take, List.length_drop]
        omega
      rw [checkMultiSigLoopAt, if_pos (by omega), hreadSig, hreadKey, hsig, hkey, List.take_succ_cons,
        List.take_succ_cons, checkMultiSigLoop]
      refine (matches_check (env.checkSignatureEncoding vchSig)).bind fun _ _ => ?_
      refine (matches_check (env.checkPubKeyEncoding vchPubKey)).bind fun _ _ => ?_
      have hnat : ((nKeys + 1 : Nat) : Int) - 1 = (nKeys : Nat) := by omega
      have hnat' : ((nSigs + 1 : Nat) : Int) - 1 = (nSigs : Nat) := by omega
      cases env.checker.checkSig vchSig vchPubKey scriptCode with
      | true =>
        simp only [if_true, hnat, hnat']
        rw [if_neg (by omega), if_neg (by omega)]
        exact ih (by omega) (by omega) (by omega) (by omega)
      | false =>
        simp only [Bool.false_eq_true, if_false, hnat]
        by_cases hfew : nKeys < nSigs + 1
        · rw [if_pos (by omega), if_pos (by rw [hcount, List.length_cons, hcount']; exact hfew)]
          rfl
        · rw [if_neg (by omega), if_neg (by rw [hcount, List.length_cons, hcount']; exact hfew), ← List.take_succ_cons,
            ← hsig]
          exact ih (by omega) (by omega) (by omega) (by omega)

theorem checkMultiSigAt_matches (fVerify : Bool) (st : EvalState) :
    Matches EvalStop.error? (env.checkMultiSigAt fVerify st) (env.checkMultiSigOp fVerify st) := by
  unfold checkMultiSigAt checkMultiSigOp
  cases hstack : st.stack with
  | nil => rfl
  | cons top s =>
    refine (scriptNumAt_matches top _).bind fun num _ => ?_
    generalize CScriptNum.getint num = nKeysCount
    refine Matches.ite (fun _ => rfl) fun hrange => ?_
    obtain ⟨nKeys, rfl⟩ : ∃ n : Nat, nKeysCount = n := ⟨nKeysCount.toNat, by omega⟩
    simp only [Int.toNat_natCast]
    refine Matches.ite (fun _ => rfl) fun _ => ?_
    cases hkeys : s.drop nKeys with
    | nil =>
      have hshort : s.length ≤ nKeys := List.drop_eq_nil_iff.mp hkeys
      have hneed : need (top :: s) (2 + nKeys) .INVALID_STACK_OPERATION = fail .INVALID_STACK_OPERATION :=
        if_pos (by rw [List.length_cons]; omega)
      rw [hneed]
      rfl
    | cons sigTop s' =>
      have hlen : s.length = nKeys + 1 + s'.length := by
        have hlength := congrArg List.length hkeys
        rw [List.length_drop, List.length_cons] at hlength
        omega
      have hneed : need (top :: s) (2 + nKeys) .INVALID_STACK_OPERATION = .ok () :=
        if_neg (by rw [List.length_cons]; omega)
      have hdrop : (top :: s).drop (nKeys + 1) = sigTop :: s' := hkeys
      have hread : stacktop (top :: s) (2 + nKeys) = .ok sigTop := by
        rw [Nat.add_comm]
        exact stacktop_succ hdrop
      have hrest : (top :: s).drop (2 + nKeys) = s' := by
        rw [show 2 + nKeys = 1 + (nKeys + 1) by omega, Nat.add_comm, ← List.drop_drop, hdrop]
        rfl
      rw [hneed, hread]
      refine (scriptNumAt_matches sigTop _).bind fun num' _ => ?_
      generalize CScriptNum.getint num' = nSigsCount
      refine Matches.ite (fun _ => rfl) fun hrange' => ?_
      obtain ⟨nSigs, rfl⟩ : ∃ n : Nat, nSigsCount = n := ⟨nSigsCount.toNat, by omega⟩
      simp only [Int.toNat_natCast]
      by_cases hfew : s'.length < nSigs + 1
      · have hneed' : need (top :: s) (2 + nKeys + 1 + nSigs) .INVALID_STACK_OPERATION = fail .INVALID_STACK_OPERATION :=
          if_pos (by rw [List.length_cons]; omega)
        rw [hneed', if_pos hfew]
        rfl
      have hneed' : need (top :: s) (2 + nKeys + 1 + nSigs) .INVALID_STACK_OPERATION = .ok () :=
        if_neg (by rw [List.length_cons]; omega)
      have hsigs : dropSigsAt (top :: s) (2 + nKeys + 1) nSigs 0 st.pbegincodehash = .ok
          ((s'.take nSigs).foldl (fun code vchSig => findAndDelete code (CScript.push vchSig)) st.pbegincodehash) := by
        rw [← hrest]
        exact dropSigsAt_eq nSigs 0 st.pbegincodehash (by rw [List.length_cons]; omega)
      rw [hneed', if_neg hfew, hsigs]
      have hloop := @checkMultiSigLoopAt_matches env (top :: s)
        ((s'.take nSigs).foldl (fun code vchSig => findAndDelete code (CScript.push vchSig)) st.pbegincodehash)
        (nKeys + 1) nSigs nKeys (2 + nKeys) 1 (by rw [List.length_cons]; omega) (by rw [List.length_cons]; omega)
        (by omega) (by omega)
      rw [hrest] at hloop
      refine Matches.bind hloop fun fSuccess _ => ?_
      have hpop : popstackN (2 + nKeys + 1 + nSigs - 1) (top :: s) = .ok (s'.drop nSigs) := by
        rw [popstackN_eq (by rw [List.length_cons]; omega), ← hrest, List.drop_drop]
        congr 2
        omega
      rw [hpop]
      cases hdummy : s'.drop nSigs with
      | nil => rfl
      | cons dummy s'' =>
        have hverify := verifyTop_matches { st with nOpCount := st.nOpCount + nKeys } s'' fVerify fSuccess
          .CHECKMULTISIGVERIFY
        cases hasFlag env.flags SCRIPT_VERIFY_NULLDUMMY with
        | false => exact hverify
        | true =>
          cases dummy with
          | nil => exact hverify
          | cons b dummy => rfl

/-! ### One opcode -/

theorem evalOpcodeAt_matches (opcode : UInt8) (pc : List UInt8) (st : EvalState) :
    Matches EvalStop.error? (env.evalOpcodeAt opcode pc st) (env.evalOpcode opcode pc st) := by
  have hstackOp (op : OpcodeType) : Matches EvalStop.error? (do
      let stack ← stackOpAt op st.stack
      .ok { st with stack := stack }) (match stackOp op st.stack with
      | none => .error .INVALID_STACK_OPERATION
      | some s => .ok { st with stack := s }) := by
    have h := (stackOpAt_matches op st.stack).bind (f := fun stack => .ok { st with stack := stack })
      (g := fun stack => .ok { st with stack := stack }) fun stack _ => .ok _
    cases hop : stackOp op st.stack with
    | none =>
      rw [hop] at h
      exact h
    | some s =>
      rw [hop] at h
      exact h
  unfold evalOpcodeAt evalOpcode
  cases OpcodeType.ofByte opcode with
  | none => rfl
  | some op =>
    cases op with
    | OP_CHECKLOCKTIMEVERIFY => exact checkLockTimeVerifyAt_matches st
    | OP_NOP1 | OP_NOP3 | OP_NOP4 | OP_NOP5 | OP_NOP6 | OP_NOP7 | OP_NOP8 | OP_NOP9 | OP_NOP10 =>
      exact .ite (fun _ => rfl) fun _ => rfl
    | OP_IF => exact beginIfAt_matches false st
    | OP_NOTIF => exact beginIfAt_matches true st
    | OP_ELSE => cases st.vfExec <;> rfl
    | OP_ENDIF => cases st.vfExec <;> rfl
    | OP_VERIFY => exact verifyAt_matches st
    | OP_TOALTSTACK => exact toAltStackAt_matches st
    | OP_FROMALTSTACK => exact fromAltStackAt_matches st
    | OP_PICK => exact pickAt_matches false st
    | OP_ROLL => exact pickAt_matches true st
    | OP_EQUAL => exact equalAt_matches false st
    | OP_EQUALVERIFY => exact equalAt_matches true st
    | OP_1ADD | OP_1SUB | OP_NEGATE | OP_ABS | OP_NOT | OP_0NOTEQUAL => exact evalUnaryAt_matches (by simp) st
    | OP_ADD | OP_SUB | OP_BOOLAND | OP_BOOLOR | OP_NUMEQUAL | OP_NUMNOTEQUAL | OP_LESSTHAN | OP_GREATERTHAN
    | OP_LESSTHANOREQUAL | OP_GREATERTHANOREQUAL | OP_MIN | OP_MAX => exact evalBinaryAt_matches false (by simp) st
    | OP_NUMEQUALVERIFY => exact evalBinaryAt_matches true (by simp) st
    | OP_WITHIN => exact withinAt_matches st
    | OP_CHECKSIG => exact checkSigAt_matches false st
    | OP_CHECKSIGVERIFY => exact checkSigAt_matches true st
    | OP_CHECKMULTISIG => exact checkMultiSigAt_matches false st
    | OP_CHECKMULTISIGVERIFY => exact checkMultiSigAt_matches true st
    | OP_CHECKCOLDSTAKEVERIFY => exact .ite (fun _ => rfl) fun _ => rfl
    | _ => first | exact rfl | exact hstackOp _

/-! ### Turns and runs -/

theorem evalInstructionAt_matches (opcode : UInt8) (vchPushValue : Valtype) (pc : List UInt8) (st : EvalState) :
    Matches EvalStop.error? (env.evalInstructionAt opcode vchPushValue pc st)
      (env.evalInstruction opcode vchPushValue pc st) :=
  .ite (fun _ => .ite (fun _ => rfl) fun _ => rfl) fun _ => .ite (fun _ => evalOpcodeAt_matches opcode pc st) fun _ => rfl

theorem evalStepAt_matches (st : EvalState) (pc : List UInt8) :
    Matches EvalStop.error? (env.evalStepAt st pc) (env.evalStep st pc) := by
  unfold evalStepAt evalStep
  cases getOp2 pc with
  | none => rfl
  | some x =>
    obtain ⟨opcode, vchPushValue, rest⟩ := x
    refine Matches.ite (fun _ => rfl) fun _ => .ite (fun _ => rfl) fun _ => .ite (fun _ => rfl) fun _ => ?_
    refine (evalInstructionAt_matches opcode vchPushValue rest _).bind fun st' _ => ?_
    exact .ite (fun _ => rfl) fun _ => rfl

theorem evalLoopAt_matches {rounds : Nat} {st : EvalState} {pc : List UInt8} (h : pc.length ≤ rounds) :
    Matches EvalStop.error? (env.evalLoopAt rounds st pc) (env.evalLoop rounds st pc) := by
  induction rounds generalizing st pc with
  | zero =>
    obtain rfl : pc = [] := List.length_eq_zero_iff.mp (Nat.le_zero.mp h)
    rfl
  | succ rounds ih =>
    cases pc with
    | nil => rfl
    | cons b pc =>
      refine (evalStepAt_matches st (b :: pc)).bind ?_
      rintro ⟨st', rest⟩ hstep
      have hlen := length_of_evalStep hstep
      rw [List.length_cons] at h hlen
      exact ih (by omega)

theorem evalScriptAt_matches (env : EvalEnv) (stack : List Valtype) :
    Matches EvalStop.error? (env.evalScriptAt stack) (env.evalScript stack) := by
  unfold evalScriptAt evalScript
  refine Matches.ite (fun _ => rfl) fun _ => ?_
  refine (evalLoopAt_matches (Nat.le_refl _)).bind fun st _ => ?_
  exact .ite (fun _ => rfl) fun _ => rfl

end EvalEnv

end DigiWage
