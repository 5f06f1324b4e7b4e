import DigiWage.Script.Parse
import DigiWage.Coins.Compressor
import DigiWage.Hash
import DigiWage.Lib.Fallible

/-!
# The script interpreter

`EvalScript` and `VerifyScript` of `script/interpreter.cpp`.

* The stack is a list with the top first, and `vfExec` a list with the innermost condition first.
* Both functions return `.ok` where the source returns true; where it returns false they return the error that it sets. An
  exception is caught and becomes `UNKNOWN_ERROR`.
* The signature checker is any object of the class `BaseSignatureChecker`. `CPubKey::CheckLowS` belongs to the library of
  elliptic curves and is a parameter.
* One turn of the loop is `evalStep`; `evalLoop_cons` takes a successful run apart, and `evalStep_opcode` and
  `evalStep_push` say what a successful turn does.
-/

namespace DigiWage

open CScript Lib

/-- `ScriptError`, without the prefix `SCRIPT_ERR`. -/
inductive ScriptError where
  | UNKNOWN_ERROR | EVAL_FALSE | OP_RETURN
  | SCRIPT_SIZE | PUSH_SIZE | OP_COUNT | STACK_SIZE | SIG_COUNT | PUBKEY_COUNT
  | VERIFY | EQUALVERIFY | CHECKCOLDSTAKEVERIFY | CHECKMULTISIGVERIFY | CHECKSIGVERIFY | NUMEQUALVERIFY
  | BAD_OPCODE | DISABLED_OPCODE | INVALID_STACK_OPERATION | INVALID_ALTSTACK_OPERATION | UNBALANCED_CONDITIONAL
  | NEGATIVE_LOCKTIME | UNSATISFIED_LOCKTIME
  | SIG_HASHTYPE | SIG_DER | MINIMALDATA | SIG_PUSHONLY | SIG_HIGH_S | SIG_NULLDUMMY | PUBKEYTYPE
  | DISCOURAGE_UPGRADABLE_NOPS
deriving DecidableEq, Repr

/-! ## The flags -/

def SCRIPT_VERIFY_P2SH : UInt32 := 1
def SCRIPT_VERIFY_STRICTENC : UInt32 := 2
def SCRIPT_VERIFY_DERSIG : UInt32 := 4
def SCRIPT_VERIFY_LOW_S : UInt32 := 8
def SCRIPT_VERIFY_NULLDUMMY : UInt32 := 16
def SCRIPT_VERIFY_SIGPUSHONLY : UInt32 := 32
def SCRIPT_VERIFY_MINIMALDATA : UInt32 := 64
def SCRIPT_VERIFY_DISCOURAGE_UPGRADABLE_NOPS : UInt32 := 128
def SCRIPT_VERIFY_CHECKLOCKTIMEVERIFY : UInt32 := 512

/-- One of the bits of `mask` is set. -/
def hasFlag (flags mask : UInt32) : Bool := flags &&& mask != 0

/-! ## Elements of the stack -/

/-- `CastToBool`. The last byte may be the sign of a negative zero. -/
def castToBool : Valtype → Bool
  | [] => false
  | [b] => b != 0 && b != 0x80
  | b :: vch => b != 0 || castToBool vch

def vchFalse : Valtype := []
def vchTrue : Valtype := [1]

/-- `fValue ? vchTrue : vchFalse`. -/
def ofBool (fValue : Bool) : Valtype := if fValue then vchTrue else vchFalse

@[simp] theorem castToBool_ofBool (fValue : Bool) : castToBool (ofBool fValue) = fValue := by
  cases fValue <;> decide

def isCompressedOrUncompressedPubKey (vchPubKey : Valtype) : Bool :=
  if vchPubKey.length < 33 then false
  else if vchPubKey.getD 0 0 = 0x04 then vchPubKey.length == 65
  else if vchPubKey.getD 0 0 = 0x02 ∨ vchPubKey.getD 0 0 = 0x03 then vchPubKey.length == 33
  else false

def isValidSignatureEncoding (sig : Valtype) : Bool :=
  let lenR := (sig.getD 3 0).toNat
  let lenS := (sig.getD (5 + lenR) 0).toNat
  if sig.length < 9 then false
  else if 73 < sig.length then false
  else if sig.getD 0 0 ≠ 0x30 then false
  else if (sig.getD 1 0).toNat ≠ sig.length - 3 then false
  else if sig.length ≤ 5 + lenR then false
  else if lenR + lenS + 7 ≠ sig.length then false
  else if sig.getD 2 0 ≠ 0x02 then false
  else if lenR = 0 then false
  else if sig.getD 4 0 &&& 0x80 ≠ 0 then false
  else if 1 < lenR ∧ sig.getD 4 0 = 0 ∧ sig.getD 5 0 &&& 0x80 = 0 then false
  else if sig.getD (lenR + 4) 0 ≠ 0x02 then false
  else if lenS = 0 then false
  else if sig.getD (lenR + 6) 0 &&& 0x80 ≠ 0 then false
  else if 1 < lenS ∧ sig.getD (lenR + 6) 0 = 0 ∧ sig.getD (lenR + 7) 0 &&& 0x80 = 0 then false
  else true

def isDefinedHashtypeSignature (vchSig : Valtype) : Bool :=
  match vchSig.getLast? with
  | none => false
  | some last =>
    -- without `SIGHASH_ANYONECANPAY`, from `SIGHASH_ALL` to `SIGHASH_SINGLE`
    let nHashType := last &&& 0x7f
    !(decide (nHashType < 1) || decide (3 < nHashType))

def checkMinimalPush (data : Valtype) (opcode : UInt8) : Bool :=
  match data with
  | [] => opcode == 0
  | b :: rest =>
    if rest = [] ∧ 1 ≤ b ∧ b ≤ 16 then opcode.toNat == 0x51 + (b.toNat - 1)
    else if rest = [] ∧ b = 0x81 then opcode == 0x4f
    else if data.length ≤ 75 then opcode.toNat == data.length
    else if data.length ≤ 255 then opcode == OP_PUSHDATA1
    else if data.length ≤ 65535 then opcode == OP_PUSHDATA2
    else true

/-! ## The state -/

/-- `BaseSignatureChecker`. -/
structure SignatureChecker where
  checkSig : Valtype → Valtype → CScript → Bool
  checkLockTime : Int → Bool
  checkColdStake : CScript → Bool

/-- What stays the same while a script is evaluated. -/
structure EvalEnv where
  checkLowS : Valtype → Bool
  flags : UInt32
  checker : SignatureChecker
  script : CScript

/-- The local variables of `EvalScript`, without the place in the script. `pbegincodehash` is what is left of the script
from the last code separator on. -/
structure EvalState where
  stack : List Valtype
  altstack : List Valtype
  vfExec : List Bool
  nOpCount : Nat
  pbegincodehash : List UInt8
deriving DecidableEq, Repr

namespace EvalState

/-- `stack.push_back`. -/
def push (st : EvalState) (vch : Valtype) : EvalState := { st with stack := vch :: st.stack }

/-- `fExec`: all conditions around the place hold. -/
def fExec (st : EvalState) : Bool := st.vfExec.all id

end EvalState

namespace EvalEnv

variable (env : EvalEnv)

def fRequireMinimal : Bool := hasFlag env.flags SCRIPT_VERIFY_MINIMALDATA

/-- `CheckSignatureEncoding`, with `IsLowDERSignature`. -/
def checkSignatureEncoding (vchSig : Valtype) : Except ScriptError Unit :=
  if vchSig.isEmpty then .ok ()
  else if hasFlag env.flags (SCRIPT_VERIFY_DERSIG ||| SCRIPT_VERIFY_LOW_S ||| SCRIPT_VERIFY_STRICTENC) &&
      !isValidSignatureEncoding vchSig then .error .SIG_DER
  else if hasFlag env.flags SCRIPT_VERIFY_LOW_S && !isValidSignatureEncoding vchSig then .error .SIG_DER
  else if hasFlag env.flags SCRIPT_VERIFY_LOW_S && !env.checkLowS vchSig.dropLast then .error .SIG_HIGH_S
  else if hasFlag env.flags SCRIPT_VERIFY_STRICTENC && !isDefinedHashtypeSignature vchSig then .error .SIG_HASHTYPE
  else .ok ()

def checkPubKeyEncoding (vchPubKey : Valtype) : Except ScriptError Unit :=
  if hasFlag env.flags SCRIPT_VERIFY_STRICTENC && !isCompressedOrUncompressedPubKey vchPubKey then .error .PUBKEYTYPE
  else .ok ()

/-- `CScriptNum` of an element of the stack; the exception is caught at the end of `EvalScript`. -/
def scriptNum (vch : Valtype) (nMaxNumSize : Nat) : Except ScriptError Int :=
  match CScriptNum.ofVch vch env.fRequireMinimal nMaxNumSize with
  | none => .error .UNKNOWN_ERROR
  | some n => .ok n

end EvalEnv

/-! ## Families of opcodes -/

/-- The opcodes that only rearrange or measure the stack; `none` when it is too short. -/
def stackOp : OpcodeType → List Valtype → Option (List Valtype)
  | .OP_2DROP => fun | _ :: _ :: s => some s | _ => none
  | .OP_2DUP => fun | x2 :: x1 :: s => some (x2 :: x1 :: x2 :: x1 :: s) | _ => none
  | .OP_3DUP => fun | x3 :: x2 :: x1 :: s => some (x3 :: x2 :: x1 :: x3 :: x2 :: x1 :: s) | _ => none
  | .OP_2OVER => fun | x4 :: x3 :: x2 :: x1 :: s => some (x2 :: x1 :: x4 :: x3 :: x2 :: x1 :: s) | _ => none
  | .OP_2ROT => fun
    | x6 :: x5 :: x4 :: x3 :: x2 :: x1 :: s => some (x2 :: x1 :: x6 :: x5 :: x4 :: x3 :: s)
    | _ => none
  | .OP_2SWAP => fun | x4 :: x3 :: x2 :: x1 :: s => some (x2 :: x1 :: x4 :: x3 :: s) | _ => none
  | .OP_IFDUP => fun | x :: s => some (if castToBool x then x :: x :: s else x :: s) | _ => none
  | .OP_DEPTH => fun s => some (CScriptNum.serialize s.length :: s)
  | .OP_DROP => fun | _ :: s => some s | _ => none
  | .OP_DUP => fun | x :: s => some (x :: x :: s) | _ => none
  | .OP_NIP => fun | x2 :: _ :: s => some (x2 :: s) | _ => none
  | .OP_OVER => fun | x2 :: x1 :: s => some (x1 :: x2 :: x1 :: s) | _ => none
  | .OP_ROT => fun | x3 :: x2 :: x1 :: s => some (x1 :: x3 :: x2 :: s) | _ => none
  | .OP_SWAP => fun | x2 :: x1 :: s => some (x1 :: x2 :: s) | _ => none
  | .OP_TUCK => fun | x2 :: x1 :: s => some (x2 :: x1 :: x2 :: s) | _ => none
  | .OP_SIZE => fun | x :: s => some (CScriptNum.serialize x.length :: x :: s) | _ => none
  -- (in -- hash)
  | .OP_RIPEMD160 => fun | x :: s => some (ripemd160 x :: s) | _ => none
  | .OP_SHA1 => fun | x :: s => some (sha1 x :: s) | _ => none
  | .OP_SHA256 => fun | x :: s => some (sha256 x :: s) | _ => none
  | .OP_HASH160 => fun | x :: s => some (hash160 x :: s) | _ => none
  | .OP_HASH256 => fun | x :: s => some (sha256 (sha256 x) :: s) | _ => none
  | _ => fun _ => none

/-- `0` and `1`, for the comparisons. -/
def boolNum (b : Bool) : Int := if b then 1 else 0

/-- The numeric opcodes of one operand. -/
def unaryNum : OpcodeType → Int → Int
  | .OP_1ADD => fun bn => bn + 1
  | .OP_1SUB => fun bn => bn - 1
  | .OP_NEGATE => fun bn => -bn
  | .OP_ABS => fun bn => if bn < 0 then -bn else bn
  | .OP_NOT => fun bn => boolNum (bn == 0)
  | .OP_0NOTEQUAL => fun bn => boolNum (bn != 0)
  | _ => fun bn => bn

/-- The numeric opcodes of two operands. -/
def binaryNum : OpcodeType → Int → Int → Int
  | .OP_ADD => fun bn1 bn2 => bn1 + bn2
  | .OP_SUB => fun bn1 bn2 => bn1 - bn2
  | .OP_BOOLAND => fun bn1 bn2 => boolNum (bn1 != 0 && bn2 != 0)
  | .OP_BOOLOR => fun bn1 bn2 => boolNum (bn1 != 0 || bn2 != 0)
  | .OP_NUMEQUAL => fun bn1 bn2 => boolNum (bn1 == bn2)
  | .OP_NUMEQUALVERIFY => fun bn1 bn2 => boolNum (bn1 == bn2)
  | .OP_NUMNOTEQUAL => fun bn1 bn2 => boolNum (bn1 != bn2)
  | .OP_LESSTHAN => fun bn1 bn2 => boolNum (decide (bn1 < bn2))
  | .OP_GREATERTHAN => fun bn1 bn2 => boolNum (decide (bn2 < bn1))
  | .OP_LESSTHANOREQUAL => fun bn1 bn2 => boolNum (decide (bn1 ≤ bn2))
  | .OP_GREATERTHANOREQUAL => fun bn1 bn2 => boolNum (decide (bn2 ≤ bn1))
  | .OP_MIN => fun bn1 bn2 => if bn1 < bn2 then bn1 else bn2
  | .OP_MAX => fun bn1 bn2 => if bn2 < bn1 then bn1 else bn2
  | _ => fun _ _ => 0

/-- The second half of the opcodes that end in `VERIFY`: the result is popped when it is true. -/
def verified (st : EvalState) (fVerify fValue : Bool) (vch : Valtype) (error : ScriptError) :
    Except ScriptError EvalState :=
  if !fVerify then .ok (st.push vch)
  else if fValue then .ok st
  else .error error

namespace EvalEnv

variable (env : EvalEnv)

/-- `OP_CHECKLOCKTIMEVERIFY`. -/
def checkLockTimeVerify (st : EvalState) : Except ScriptError EvalState :=
  if !hasFlag env.flags SCRIPT_VERIFY_CHECKLOCKTIMEVERIFY then
    if hasFlag env.flags SCRIPT_VERIFY_DISCOURAGE_UPGRADABLE_NOPS then .error .DISCOURAGE_UPGRADABLE_NOPS else .ok st
  else
    match st.stack with
    | [] => .error .INVALID_STACK_OPERATION
    | top :: _ => do
      let nLockTime ← env.scriptNum top 5
      if nLockTime < 0 then .error .NEGATIVE_LOCKTIME
      else if !env.checker.checkLockTime nLockTime then .error .UNSATISFIED_LOCKTIME
      else .ok st

/-- `OP_IF` and `OP_NOTIF`. -/
def beginIf (fNot : Bool) (st : EvalState) : Except ScriptError EvalState :=
  if !st.fExec then .ok { st with vfExec := false :: st.vfExec }
  else
    match st.stack with
    | [] => .error .UNBALANCED_CONDITIONAL
    | vch :: s => .ok { st with stack := s, vfExec := (if fNot then !castToBool vch else castToBool vch) :: st.vfExec }

/-- `OP_PICK` and `OP_ROLL`. -/
def pick (fRoll : Bool) (st : EvalState) : Except ScriptError EvalState :=
  match st.stack with
  | top :: x :: s => do
    let n := CScriptNum.getint (← env.scriptNum top CScriptNum.nDefaultMaxNumSize)
    if n < 0 ∨ ((x :: s).length : Int) ≤ n then .error .INVALID_STACK_OPERATION
    else
      let vch := (x :: s).getD n.toNat []
      let rest := if fRoll then (x :: s).eraseIdx n.toNat else x :: s
      .ok { st with stack := vch :: rest }
  | _ => .error .INVALID_STACK_OPERATION

/-- `OP_EQUAL` and `OP_EQUALVERIFY`. -/
def equal (fVerify : Bool) (st : EvalState) : Except ScriptError EvalState :=
  match st.stack with
  | vch2 :: vch1 :: s =>
    let fEqual := vch1 == vch2
    verified { st with stack := s } fVerify fEqual (ofBool fEqual) .EQUALVERIFY
  | _ => .error .INVALID_STACK_OPERATION

/-- The numeric opcodes of one operand. -/
def evalUnary (op : OpcodeType) (st : EvalState) : Except ScriptError EvalState :=
  match st.stack with
  | top :: s => do
    let bn ← env.scriptNum top CScriptNum.nDefaultMaxNumSize
    .ok { st with stack := CScriptNum.serialize (unaryNum op bn) :: s }
  | _ => .error .INVALID_STACK_OPERATION

/-- The numeric opcodes of two operands. -/
def evalBinary (op : OpcodeType) (fVerify : Bool) (st : EvalState) : Except ScriptError EvalState :=
  match st.stack with
  | x2 :: x1 :: s => do
    let bn1 ← env.scriptNum x1 CScriptNum.nDefaultMaxNumSize
    let bn2 ← env.scriptNum x2 CScriptNum.nDefaultMaxNumSize
    let vch := CScriptNum.serialize (binaryNum op bn1 bn2)
    verified { st with stack := s } fVerify (castToBool vch) vch .NUMEQUALVERIFY
  | _ => .error .INVALID_STACK_OPERATION

/-- `OP_WITHIN`. -/
def within (st : EvalState) : Except ScriptError EvalState :=
  match st.stack with
  | x3 :: x2 :: x1 :: s => do
    let bn1 ← env.scriptNum x1 CScriptNum.nDefaultMaxNumSize
    let bn2 ← env.scriptNum x2 CScriptNum.nDefaultMaxNumSize
    let bn3 ← env.scriptNum x3 CScriptNum.nDefaultMaxNumSize
    .ok { st with stack := ofBool (decide (bn2 ≤ bn1) && decide (bn1 < bn3)) :: s }
  | _ => .error .INVALID_STACK_OPERATION

/-- The script that a signature signs: from the last code separator on, and without the signature. -/
def scriptCode (st : EvalState) (vchSig : Valtype) : CScript := findAndDelete st.pbegincodehash (push vchSig)

/-- `OP_CHECKSIG` and `OP_CHECKSIGVERIFY`. -/
def checkSigOp (fVerify : Bool) (st : EvalState) : Except ScriptError EvalState :=
  match st.stack with
  | vchPubKey :: vchSig :: s => do
    env.checkSignatureEncoding vchSig
    env.checkPubKeyEncoding vchPubKey
    let fSuccess := env.checker.checkSig vchSig vchPubKey (scriptCode st vchSig)
    verified { st with stack := s } fVerify fSuccess (ofBool fSuccess) .CHECKSIGVERIFY
  | _ => .error .INVALID_STACK_OPERATION

/-- The loop of `OP_CHECKMULTISIG` over the signatures and the keys that are left. There are at least as many keys. -/
def checkMultiSigLoop (scriptCode : CScript) : List Valtype → List Valtype → Except ScriptError Bool
  | [], _ => .ok true
  | _ :: _, [] => .ok false
  | vchSig :: sigs, vchPubKey :: keys => do
    env.checkSignatureEncoding vchSig
    env.checkPubKeyEncoding vchPubKey
    let left := if env.checker.checkSig vchSig vchPubKey scriptCode then sigs else vchSig :: sigs
    -- more signatures left than keys: too many have failed
    if keys.length < left.length then .ok false else checkMultiSigLoop scriptCode left keys

/-- `OP_CHECKMULTISIG` and `OP_CHECKMULTISIGVERIFY`. -/
def checkMultiSigOp (fVerify : Bool) (st : EvalState) : Except ScriptError EvalState :=
  match st.stack with
  | [] => .error .INVALID_STACK_OPERATION
  | top :: s => do
    let nKeysCount := CScriptNum.getint (← env.scriptNum top CScriptNum.nDefaultMaxNumSize)
    if nKeysCount < 0 ∨ 20 < nKeysCount then .error .PUBKEY_COUNT
    else
      let nKeys := nKeysCount.toNat
      let st := { st with nOpCount := st.nOpCount + nKeys }
      if 201 < st.nOpCount then .error .OP_COUNT
      else
        match s.drop nKeys with
        | [] => .error .INVALID_STACK_OPERATION
        | sigTop :: s' => do
          let nSigsCount := CScriptNum.getint (← env.scriptNum sigTop CScriptNum.nDefaultMaxNumSize)
          if nSigsCount < 0 ∨ nKeysCount < nSigsCount then .error .SIG_COUNT
          else
            let nSigs := nSigsCount.toNat
            if s'.length < nSigs + 1 then .error .INVALID_STACK_OPERATION
            else
              let keys := s.take nKeys
              let sigs := s'.take nSigs
              let scriptCode := sigs.foldl (fun code vchSig => findAndDelete code (CScript.push vchSig)) st.pbegincodehash
              let fSuccess ← env.checkMultiSigLoop scriptCode sigs keys
              -- one extra argument is consumed
              match s'.drop nSigs with
              | [] => .error .INVALID_STACK_OPERATION
              | dummy :: s'' =>
                if hasFlag env.flags SCRIPT_VERIFY_NULLDUMMY && !dummy.isEmpty then .error .SIG_NULLDUMMY
                else verified { st with stack := s'' } fVerify fSuccess (ofBool fSuccess) .CHECKMULTISIGVERIFY

/-! ## One opcode -/

/-- The `switch` of `EvalScript`; `pc` is the place behind the opcode. -/
def evalOpcode (opcode : UInt8) (pc : List UInt8) (st : EvalState) : Except ScriptError EvalState :=
  match OpcodeType.ofByte opcode with
  | none => .error .BAD_OPCODE
  | some op =>
    match op with
    | .OP_1NEGATE | .OP_1 | .OP_2 | .OP_3 | .OP_4 | .OP_5 | .OP_6 | .OP_7 | .OP_8 | .OP_9 | .OP_10 | .OP_11 | .OP_12
    | .OP_13 | .OP_14 | .OP_15 | .OP_16 => .ok (st.push (CScriptNum.serialize (opcode.toNat - 0x50)))
    | .OP_NOP => .ok st
    | .OP_CHECKLOCKTIMEVERIFY => env.checkLockTimeVerify st
    | .OP_NOP1 | .OP_NOP3 | .OP_NOP4 | .OP_NOP5 | .OP_NOP6 | .OP_NOP7 | .OP_NOP8 | .OP_NOP9 | .OP_NOP10 =>
      if hasFlag env.flags SCRIPT_VERIFY_DISCOURAGE_UPGRADABLE_NOPS then .error .DISCOURAGE_UPGRADABLE_NOPS else .ok st
    | .OP_IF => beginIf false st
    | .OP_NOTIF => beginIf true st
    | .OP_ELSE =>
      match st.vfExec with
      | [] => .error .UNBALANCED_CONDITIONAL
      | fValue :: vfExec => .ok { st with vfExec := (!fValue) :: vfExec }
    | .OP_ENDIF =>
      match st.vfExec with
      | [] => .error .UNBALANCED_CONDITIONAL
      | _ :: vfExec => .ok { st with vfExec := vfExec }
    | .OP_VERIFY =>
      match st.stack with
      | [] => .error .INVALID_STACK_OPERATION
      | vch :: s => if castToBool vch then .ok { st with stack := s } else .error .VERIFY
    | .OP_RETURN => .error .OP_RETURN
    | .OP_TOALTSTACK =>
      match st.stack with
      | [] => .error .INVALID_STACK_OPERATION
      | vch :: s => .ok { st with stack := s, altstack := vch :: st.altstack }
    | .OP_FROMALTSTACK =>
      match st.altstack with
      | [] => .error .INVALID_ALTSTACK_OPERATION
      | vch :: s => .ok { st with stack := vch :: st.stack, altstack := s }
    | .OP_2DROP | .OP_2DUP | .OP_3DUP | .OP_2OVER | .OP_2ROT | .OP_2SWAP | .OP_IFDUP | .OP_DEPTH | .OP_DROP | .OP_DUP
    | .OP_NIP | .OP_OVER | .OP_ROT | .OP_SWAP | .OP_TUCK | .OP_SIZE
    | .OP_RIPEMD160 | .OP_SHA1 | .OP_SHA256 | .OP_HASH160 | .OP_HASH256 =>
      match stackOp op st.stack with
      | none => .error .INVALID_STACK_OPERATION
      | some s => .ok { st with stack := s }
    | .OP_PICK => env.pick false st
    | .OP_ROLL => env.pick true st
    | .OP_EQUAL => equal false st
    | .OP_EQUALVERIFY => equal true st
    | .OP_1ADD | .OP_1SUB | .OP_NEGATE | .OP_ABS | .OP_NOT | .OP_0NOTEQUAL => env.evalUnary op st
    | .OP_ADD | .OP_SUB | .OP_BOOLAND | .OP_BOOLOR | .OP_NUMEQUAL | .OP_NUMNOTEQUAL | .OP_LESSTHAN | .OP_GREATERTHAN
    | .OP_LESSTHANOREQUAL | .OP_GREATERTHANOREQUAL | .OP_MIN | .OP_MAX => env.evalBinary op false st
    | .OP_NUMEQUALVERIFY => env.evalBinary op true st
    | .OP_WITHIN => env.within st
    | .OP_CODESEPARATOR => .ok { st with pbegincodehash := pc }
    | .OP_CHECKSIG => env.checkSigOp false st
    | .OP_CHECKSIGVERIFY => env.checkSigOp true st
    | .OP_CHECKMULTISIG => env.checkMultiSigOp false st
    | .OP_CHECKMULTISIGVERIFY => env.checkMultiSigOp true st
    | .OP_CHECKCOLDSTAKEVERIFY =>
      if !env.checker.checkColdStake env.script then .error .CHECKCOLDSTAKEVERIFY else .ok st
    | _ => .error .BAD_OPCODE

/-- The opcodes that fail even where they are not executed. -/
def isDisabled (opcode : UInt8) : Bool :=
  match OpcodeType.ofByte opcode with
  | some .OP_CAT | some .OP_SUBSTR | some .OP_LEFT | some .OP_RIGHT | some .OP_INVERT | some .OP_AND | some .OP_OR
  | some .OP_XOR | some .OP_2MUL | some .OP_2DIV | some .OP_MUL | some .OP_DIV | some .OP_MOD | some .OP_LSHIFT
  | some .OP_RSHIFT => true
  | _ => false

def maxScriptElementSize : Nat := 520

/-- What is done with an instruction that was read. -/
def evalInstruction (opcode : UInt8) (vchPushValue : Valtype) (pc : List UInt8) (st : EvalState) :
    Except ScriptError EvalState :=
  if st.fExec && decide (opcode ≤ OP_PUSHDATA4) then
    if env.fRequireMinimal && !checkMinimalPush vchPushValue opcode then .error .MINIMALDATA
    else .ok (st.push vchPushValue)
  else if st.fExec || (decide (OP_IF ≤ opcode) && decide (opcode ≤ OP_ENDIF)) then env.evalOpcode opcode pc st
  else .ok st

/-- The count of an instruction. -/
def counted (opcode : UInt8) (st : EvalState) : EvalState :=
  if OP_16 < opcode then { st with nOpCount := st.nOpCount + 1 } else st

/-- One turn of the loop: the state after it, and the place in the script. -/
def evalStep (st : EvalState) (pc : List UInt8) : Except ScriptError (EvalState × List UInt8) :=
  match getOp2 pc with
  | none => .error .BAD_OPCODE
  | some (opcode, vchPushValue, pc) =>
    if maxScriptElementSize < vchPushValue.length then .error .PUSH_SIZE
    else if OP_16 < opcode ∧ 201 < (counted opcode st).nOpCount then .error .OP_COUNT
    else if isDisabled opcode then .error .DISABLED_OPCODE
    else do
      let st ← env.evalInstruction opcode vchPushValue pc (counted opcode st)
      if 1000 < st.stack.length + st.altstack.length then .error .STACK_SIZE else .ok (st, pc)

/-- The loop of `EvalScript`. A turn reads at least one byte, so that the length of the script is fuel enough. -/
def evalLoop : Nat → EvalState → List UInt8 → Except ScriptError EvalState
  | _, st, [] => .ok st
  | 0, _, _ :: _ => .error .UNKNOWN_ERROR
  | fuel + 1, st, b :: pc => do
    let (st, rest) ← env.evalStep st (b :: pc)
    evalLoop fuel st rest

/-- `EvalScript`: the stack that it leaves. -/
def evalScript (stack : List Valtype) : Except ScriptError (List Valtype) :=
  if maxScriptSize < env.script.bytes.length then .error .SCRIPT_SIZE
  else do
    let st ← env.evalLoop env.script.bytes.length ⟨stack, [], [], 0, env.script.bytes⟩ env.script.bytes
    if !st.vfExec.isEmpty then .error .UNBALANCED_CONDITIONAL else .ok st.stack

/-! ## Runs -/

section Run

variable {env : EvalEnv} {st st' : EvalState} {b : UInt8} {pc : List UInt8} {vch : Valtype} {fuel : Nat}

@[simp] theorem counted_fExec : (counted b st).fExec = st.fExec := by
  unfold counted
  split <;> rfl

theorem evalStep_ok {rest : List UInt8} (h : env.evalStep st pc = .ok (st', rest)) :
    ∃ opcode vchPushValue, getOp2 pc = some (opcode, vchPushValue, rest) ∧
      env.evalInstruction opcode vchPushValue rest (counted opcode st) = .ok st' := by
  unfold evalStep at h
  split at h
  · cases h
  · rename_i opcode vchPushValue pc' hop
    split at h
    · cases h
    split at h
    · cases h
    split at h
    · cases h
    obtain ⟨st₁, hins, h⟩ := bind_eq_ok h
    split at h
    · cases h
    · cases h
      exact ⟨opcode, vchPushValue, hop, hins⟩

theorem length_of_evalStep {rest : List UInt8} (h : env.evalStep st pc = .ok (st', rest)) : rest.length < pc.length := by
  obtain ⟨_, _, hop, -⟩ := evalStep_ok h
  exact length_of_getOp2 hop

theorem evalLoop_cons (h : env.evalLoop fuel st (b :: pc) = .ok st') :
    ∃ fuel' st₁ rest, env.evalStep st (b :: pc) = .ok (st₁, rest) ∧ env.evalLoop fuel' st₁ rest = .ok st' := by
  cases fuel with
  | zero => cases h
  | succ fuel =>
    obtain ⟨⟨st₁, rest⟩, hstep, hrest⟩ := bind_eq_ok h
    exact ⟨fuel, st₁, rest, hstep, hrest⟩

theorem evalLoop_opcode (hb : OP_PUSHDATA4 < b) (h : env.evalLoop fuel st (b :: pc) = .ok st') :
    ∃ fuel' st₁, env.evalInstruction b [] pc (counted b st) = .ok st₁ ∧ env.evalLoop fuel' st₁ pc = .ok st' := by
  obtain ⟨fuel', st₁, rest, hstep, hrest⟩ := evalLoop_cons h
  obtain ⟨opcode, vchPushValue, hop, hins⟩ := evalStep_ok hstep
  simp only [getOp2, if_pos hb] at hop
  cases hop
  exact ⟨fuel', st₁, hins, hrest⟩

theorem evalLoop_push (hlen : vch.length < 76) (h : env.evalLoop fuel st (CScript.push vch ++ pc) = .ok st') :
    ∃ fuel' st₁, env.evalInstruction (UInt8.ofNat vch.length) vch pc st = .ok st₁ ∧
      env.evalLoop fuel' st₁ pc = .ok st' := by
  have hnat : (UInt8.ofNat vch.length).toNat = vch.length := UInt8.toNat_ofNat_of_lt' (Nat.lt_trans hlen (by decide))
  have hcount : counted (UInt8.ofNat vch.length) st = st := by
    have h16 : ¬ OP_16 < UInt8.ofNat vch.length := by
      rw [UInt8.lt_iff_toNat_lt, hnat]
      have : OP_16.toNat = 96 := rfl
      omega
    rw [counted, if_neg h16]
  have hpush : CScript.push vch = UInt8.ofNat vch.length :: vch := if_pos hlen
  rw [hpush, List.cons_append] at h
  obtain ⟨fuel', st₁, rest, hstep, hrest⟩ := evalLoop_cons h
  obtain ⟨opcode, vchPushValue, hop, hins⟩ := evalStep_ok hstep
  rw [getOp2_direct hlen] at hop
  split at hop
  · cases hop
  · cases hop
    rw [hcount] at hins
    exact ⟨fuel', st₁, hins, hrest⟩

/-! ## Instructions -/

theorem evalInstruction_exec (hexec : st.fExec = true) (hb : OP_PUSHDATA4 < b) :
    env.evalInstruction b vch pc st = env.evalOpcode b pc st := by
  have hle : ¬ b ≤ OP_PUSHDATA4 := UInt8.not_le.2 hb
  simp [evalInstruction, hexec, hle]

theorem evalInstruction_control (hif : OP_IF ≤ b) (hendif : b ≤ OP_ENDIF) :
    env.evalInstruction b vch pc st = env.evalOpcode b pc st := by
  have hle : ¬ b ≤ OP_PUSHDATA4 := UInt8.not_le.2 (UInt8.lt_of_lt_of_le (by decide) hif)
  simp [evalInstruction, hif, hendif, hle]

theorem evalInstruction_push (h : env.evalInstruction b vch pc st = .ok st') (hexec : st.fExec = true)
    (hb : b ≤ OP_PUSHDATA4) : st' = st.push vch := by
  simp only [evalInstruction, hexec, hb, decide_true, Bool.and_self, if_true] at h
  split at h
  · cases h
  · cases h
    rfl

theorem evalInstruction_skip (h : env.evalInstruction b vch pc st = .ok st') (hexec : st.fExec = false)
    (hb : b < OP_IF ∨ OP_ENDIF < b) : st' = st := by
  have hcond : (decide (OP_IF ≤ b) && decide (b ≤ OP_ENDIF)) = false := by
    rcases hb with hb | hb
    · simp [UInt8.not_le.2 hb]
    · simp [UInt8.not_le.2 hb]
  simp only [evalInstruction, hexec, hcond, Bool.false_and, Bool.false_or, Bool.false_eq_true, if_false] at h
  exact (Except.ok.inj h).symm

theorem checkSigOp_ok (h : env.checkSigOp false st = .ok st') :
    ∃ vchPubKey vchSig s, st.stack = vchPubKey :: vchSig :: s ∧
      st' = { st with
        stack := ofBool (env.checker.checkSig vchSig vchPubKey (scriptCode st vchSig)) :: s } := by
  unfold checkSigOp at h
  split at h
  · rename_i vchPubKey vchSig s hs
    obtain ⟨_, -, h⟩ := bind_eq_ok h
    obtain ⟨_, -, h⟩ := bind_eq_ok h
    cases h
    exact ⟨vchPubKey, vchSig, s, hs, rfl⟩
  · cases h

theorem equal_ok (h : equal true st = .ok st') :
    ∃ vch s, st.stack = vch :: vch :: s ∧ st' = { st with stack := s } := by
  unfold equal at h
  split at h
  · rename_i vch2 vch1 s hs
    by_cases heq : vch1 = vch2
    · subst heq
      simp only [verified, Bool.not_true, Bool.false_eq_true, if_false, beq_self_eq_true, if_true] at h
      cases h
      exact ⟨vch1, s, hs, rfl⟩
    · simp [verified, heq] at h
  · cases h

end Run

end EvalEnv

/-- The last test of `VerifyScript`: the top of the stack is true. -/
def checkTop : List Valtype → Except ScriptError Unit
  | [] => .error .EVAL_FALSE
  | top :: _ => if castToBool top then .ok () else .error .EVAL_FALSE

def verifyScript (checkLowS : Valtype → Bool) (scriptSig scriptPubKey : CScript) (flags : UInt32)
    (checker : SignatureChecker) : Except ScriptError Unit :=
  if hasFlag flags SCRIPT_VERIFY_SIGPUSHONLY && !scriptSig.isPushOnly then .error .SIG_PUSHONLY
  else do
    let stackCopy ← EvalEnv.evalScript ⟨checkLowS, flags, checker, scriptSig⟩ []
    let stack ← EvalEnv.evalScript ⟨checkLowS, flags, checker, scriptPubKey⟩ stackCopy
    checkTop stack
    if hasFlag flags SCRIPT_VERIFY_P2SH && scriptPubKey.isPayToScriptHash then
      if !scriptSig.isPushOnly then .error .SIG_PUSHONLY
      else
        match stackCopy with
        -- `assert(!stackCopy.empty())`
        | [] => .error .UNKNOWN_ERROR
        | pubKeySerialized :: rest => do
          let stack ← EvalEnv.evalScript ⟨checkLowS, flags, checker, pubKeySerialized⟩ rest
          checkTop stack
    else .ok ()

end DigiWage
