import DigiWage.Primitives
import DigiWage.Lib.Bytes

/-!
# Scripts as programs

The parts of `script/script.h` that take a script apart and put it together: opcodes, pushes, the numbers of scripts and
`FindAndDelete`.

* A place in a script (`const_iterator`) is what is left of it from there.
* `CScriptNum` throws for a number that is too long or not minimal; here its result is an option.
-/

namespace DigiWage

open Lib

/-- `valtype`: an element of the stack. -/
abbrev Valtype := List UInt8

/-! ## Opcodes -/

/-- `opcodetype`, from `OP_1NEGATE` on: below are the pushes. The template parameters of `script/standard.cpp` are left
out, they are no opcodes to execute. -/
inductive OpcodeType where
  | OP_1NEGATE | OP_RESERVED
  | OP_1 | OP_2 | OP_3 | OP_4 | OP_5 | OP_6 | OP_7 | OP_8
  | OP_9 | OP_10 | OP_11 | OP_12 | OP_13 | OP_14 | OP_15 | OP_16
  | OP_NOP | OP_VER | OP_IF | OP_NOTIF | OP_VERIF | OP_VERNOTIF | OP_ELSE | OP_ENDIF | OP_VERIFY | OP_RETURN
  | OP_TOALTSTACK | OP_FROMALTSTACK | OP_2DROP | OP_2DUP | OP_3DUP | OP_2OVER | OP_2ROT | OP_2SWAP | OP_IFDUP
  | OP_DEPTH | OP_DROP | OP_DUP | OP_NIP | OP_OVER | OP_PICK | OP_ROLL | OP_ROT | OP_SWAP | OP_TUCK
  | OP_CAT | OP_SUBSTR | OP_LEFT | OP_RIGHT | OP_SIZE
  | OP_INVERT | OP_AND | OP_OR | OP_XOR | OP_EQUAL | OP_EQUALVERIFY | OP_RESERVED1 | OP_RESERVED2
  | OP_1ADD | OP_1SUB | OP_2MUL | OP_2DIV | OP_NEGATE | OP_ABS | OP_NOT | OP_0NOTEQUAL
  | OP_ADD | OP_SUB | OP_MUL | OP_DIV | OP_MOD | OP_LSHIFT | OP_RSHIFT
  | OP_BOOLAND | OP_BOOLOR | OP_NUMEQUAL | OP_NUMEQUALVERIFY | OP_NUMNOTEQUAL | OP_LESSTHAN | OP_GREATERTHAN
  | OP_LESSTHANOREQUAL | OP_GREATERTHANOREQUAL | OP_MIN | OP_MAX | OP_WITHIN
  | OP_RIPEMD160 | OP_SHA1 | OP_SHA256 | OP_HASH160 | OP_HASH256 | OP_CODESEPARATOR
  | OP_CHECKSIG | OP_CHECKSIGVERIFY | OP_CHECKMULTISIG | OP_CHECKMULTISIGVERIFY
  | OP_NOP1 | OP_CHECKLOCKTIMEVERIFY | OP_NOP3 | OP_NOP4 | OP_NOP5 | OP_NOP6 | OP_NOP7 | OP_NOP8 | OP_NOP9 | OP_NOP10
  | OP_ZEROCOINMINT | OP_ZEROCOINSPEND | OP_CHECKCOLDSTAKEVERIFY
deriving DecidableEq, Repr

namespace OpcodeType

/-- The opcodes from `0x4f` to `0xb9`, in order. -/
def table : List OpcodeType :=
  [OP_1NEGATE, -- 0x4f
   OP_RESERVED, OP_1, OP_2, OP_3, OP_4, OP_5, OP_6, OP_7, -- 0x50
   OP_8, OP_9, OP_10, OP_11, OP_12, OP_13, OP_14, OP_15, -- 0x58
   OP_16, OP_NOP, OP_VER, OP_IF, OP_NOTIF, OP_VERIF, OP_VERNOTIF, OP_ELSE, -- 0x60
   OP_ENDIF, OP_VERIFY, OP_RETURN, OP_TOALTSTACK, OP_FROMALTSTACK, OP_2DROP, OP_2DUP, OP_3DUP, -- 0x68
   OP_2OVER, OP_2ROT, OP_2SWAP, OP_IFDUP, OP_DEPTH, OP_DROP, OP_DUP, OP_NIP, -- 0x70
   OP_OVER, OP_PICK, OP_ROLL, OP_ROT, OP_SWAP, OP_TUCK, OP_CAT, OP_SUBSTR, -- 0x78
   OP_LEFT, OP_RIGHT, OP_SIZE, OP_INVERT, OP_AND, OP_OR, OP_XOR, OP_EQUAL, -- 0x80
   OP_EQUALVERIFY, OP_RESERVED1, OP_RESERVED2, OP_1ADD, OP_1SUB, OP_2MUL, OP_2DIV, OP_NEGATE, -- 0x88
   OP_ABS, OP_NOT, OP_0NOTEQUAL, OP_ADD, OP_SUB, OP_MUL, OP_DIV, OP_MOD, -- 0x90
   OP_LSHIFT, OP_RSHIFT, OP_BOOLAND, OP_BOOLOR, OP_NUMEQUAL, OP_NUMEQUALVERIFY, OP_NUMNOTEQUAL, OP_LESSTHAN, -- 0x98
   OP_GREATERTHAN, OP_LESSTHANOREQUAL, OP_GREATERTHANOREQUAL, OP_MIN, OP_MAX, OP_WITHIN, OP_RIPEMD160, OP_SHA1, -- 0xa0
   OP_SHA256, OP_HASH160, OP_HASH256, OP_CODESEPARATOR, OP_CHECKSIG, OP_CHECKSIGVERIFY, OP_CHECKMULTISIG, -- 0xa8
   OP_CHECKMULTISIGVERIFY, -- 0xaf
   OP_NOP1, OP_CHECKLOCKTIMEVERIFY, OP_NOP3, OP_NOP4, OP_NOP5, OP_NOP6, OP_NOP7, OP_NOP8, -- 0xb0
   OP_NOP9, OP_NOP10] -- 0xb8

/-- The opcode that a byte stands for. -/
def ofByte (b : UInt8) : Option OpcodeType :=
  if b < 0x4f then none
  else if b ≤ 0xb9 then table[b.toNat - 0x4f]?
  else if b = 0xc1 then some OP_ZEROCOINMINT
  else if b = 0xc2 then some OP_ZEROCOINSPEND
  else if b = 0xd1 then some OP_CHECKCOLDSTAKEVERIFY
  else none

end OpcodeType

namespace CScript

def OP_PUSHDATA1 : UInt8 := 0x4c
def OP_PUSHDATA2 : UInt8 := 0x4d
def OP_PUSHDATA4 : UInt8 := 0x4e
def OP_16 : UInt8 := 0x60
def OP_IF : UInt8 := 0x63
def OP_ELSE : UInt8 := 0x67
def OP_ENDIF : UInt8 := 0x68
def OP_DUP : UInt8 := 0x76
def OP_HASH160 : UInt8 := 0xa9
def OP_INVALIDOPCODE : UInt8 := 0xff

/-! ## Reading -/

/-- The size of the data to push and what comes after it; `none` when the script ends before. -/
def pushSize (opcode : UInt8) (pc : List UInt8) : Option (Nat × List UInt8) :=
  if opcode < OP_PUSHDATA1 then some (opcode.toNat, pc)
  else
    let nBytes := if opcode = OP_PUSHDATA1 then 1 else if opcode = OP_PUSHDATA2 then 2 else 4
    if pc.length < nBytes then none
    else some ((pc.take nBytes).foldr (fun b n => b.toNat + 256 * n) 0, pc.drop nBytes)

/-- `(unsigned int)(end() - pc)`: the number of bytes left, as the source compares it with the size of a push. -/
def bytesLeft (pc : List UInt8) : Nat := pc.length % 2 ^ 32

theorem bytesLeft_le (pc : List UInt8) : bytesLeft pc ≤ pc.length := Nat.mod_le _ _

theorem bytesLeft_eq {pc : List UInt8} (h : pc.length < 2 ^ 32) : bytesLeft pc = pc.length := Nat.mod_eq_of_lt h

/-- `CScript::GetOp2`, without the data: the opcode, and where it leaves off. -/
def getOp : List UInt8 → UInt8 × List UInt8
  | [] => (OP_INVALIDOPCODE, [])
  | opcode :: pc =>
    if OP_PUSHDATA4 < opcode then (opcode, pc)
    else
      match pushSize opcode pc with
      | none => (OP_INVALIDOPCODE, pc)
      | some (nSize, pc) => if bytesLeft pc < nSize then (OP_INVALIDOPCODE, pc) else (opcode, pc.drop nSize)

/-- `CScript::GetOp2` where it returns true: the opcode, the data to push, and where it leaves off. -/
def getOp2 : List UInt8 → Option (UInt8 × Valtype × List UInt8)
  | [] => none
  | opcode :: pc =>
    if OP_PUSHDATA4 < opcode then some (opcode, [], pc)
    else
      match pushSize opcode pc with
      | none => none
      | some (nSize, pc) => if bytesLeft pc < nSize then none else some (opcode, pc.take nSize, pc.drop nSize)

theorem pushSize_drop {opcode : UInt8} {pc rest : List UInt8} {nSize : Nat}
    (h : pushSize opcode pc = some (nSize, rest)) : ∃ n ≤ 4, rest = pc.drop n := by
  simp only [pushSize] at h
  split at h
  · cases h
    exact ⟨0, by omega, rfl⟩
  · have hbytes : (if opcode = OP_PUSHDATA1 then 1 else if opcode = OP_PUSHDATA2 then 2 else 4) ≤ 4 := by
      split
      · omega
      · split <;> omega
    generalize (if opcode = OP_PUSHDATA1 then 1 else if opcode = OP_PUSHDATA2 then 2 else 4) = nBytes at h hbytes
    split at h
    · cases h
    · cases h
      exact ⟨nBytes, hbytes, rfl⟩

theorem length_of_pushSize {opcode : UInt8} {pc rest : List UInt8} {nSize : Nat}
    (h : pushSize opcode pc = some (nSize, rest)) : rest.length ≤ pc.length := by
  obtain ⟨n, -, rfl⟩ := pushSize_drop h
  simp

theorem length_of_getOp2 {pc rest : List UInt8} {opcode : UInt8} {data : Valtype}
    (h : getOp2 pc = some (opcode, data, rest)) : rest.length < pc.length := by
  cases pc with
  | nil => cases h
  | cons b pc =>
    simp only [getOp2] at h
    split at h
    · cases h
      simp
    · split at h
      · cases h
      · rename_i nSize mid hsize
        have hmid := length_of_pushSize hsize
        split at h
        · cases h
        · cases h
          simp only [List.length_drop, List.length_cons]
          omega

/-- `CScript::IsPushOnly` from a place on. -/
def isPushOnlyLoop : Nat → List UInt8 → Bool
  | _, [] => true
  | 0, _ => false
  | fuel + 1, pc =>
    match getOp2 pc with
    | none => false
    | some (opcode, _, rest) => if OP_16 < opcode then false else isPushOnlyLoop fuel rest

def isPushOnly (s : CScript) : Bool := isPushOnlyLoop s.bytes.length s.bytes

/-! ## Writing -/

/-- `CScript::operator<<` for a vector of bytes. -/
def push (b : Valtype) : List UInt8 :=
  if b.length < OP_PUSHDATA1.toNat then UInt8.ofNat b.length :: b
  else if b.length ≤ 0xff then OP_PUSHDATA1 :: UInt8.ofNat b.length :: b
  else if b.length ≤ 0xffff then OP_PUSHDATA2 :: leBytes 2 b.length ++ b
  else OP_PUSHDATA4 :: leBytes 4 b.length ++ b

/-- The inner loop of `FindAndDelete`: what is left behind the copies of `b`, and how many there were. -/
def skipCopies (b : List UInt8) : Nat → List UInt8 → List UInt8 × Nat
  | 0, pc => (pc, 0)
  | fuel + 1, pc =>
    if b.isPrefixOf pc then
      let (rest, nFound) := skipCopies b fuel (pc.drop b.length)
      (rest, nFound + 1)
    else (pc, 0)

/-- The outer loop of `FindAndDelete` from a place on: what stays of the script, and the number of deleted copies. -/
def findAndDeleteLoop (b : List UInt8) : Nat → List UInt8 → List UInt8 × Nat
  | 0, pc => (pc, 0)
  | fuel + 1, pc =>
    let (pc2, nFound) := skipCopies b pc.length pc
    match getOp2 pc2 with
    | none => (pc2, nFound)
    | some (_, _, rest) =>
      let (result, nLater) := findAndDeleteLoop b fuel rest
      (pc2.take (pc2.length - rest.length) ++ result, nFound + nLater)

def findAndDelete (s : CScript) (b : List UInt8) : CScript :=
  if b.isEmpty then s
  else
    let (result, nFound) := findAndDeleteLoop b (s.bytes.length + 1) s.bytes
    if 0 < nFound then result else s

end CScript

/-! ## Numbers -/

namespace CScriptNum

def setVch (vch : Valtype) : Int :=
  match vch.getLast? with
  | none => 0
  | some last =>
    if last &&& 0x80 ≠ 0 then -((ofLeBytes vch : Int) - 0x80 * 256 ^ (vch.length - 1)) else ofLeBytes vch

/-- The constructor of `CScriptNum` from an element of the stack; `none` when it throws. -/
def ofVch (vch : Valtype) (fRequireMinimal : Bool) (nMaxNumSize : Nat) : Option Int :=
  if nMaxNumSize < vch.length then none
  else
    match vch.reverse with
    | [] => some (setVch vch)
    | last :: before =>
      -- the most significant byte, without the sign bit, is zero; it is needed when the next one has the highest bit set
      if fRequireMinimal && last &&& 0x7f == 0 && before.headD 0 &&& 0x80 == 0 then none
      else some (setVch vch)

def nDefaultMaxNumSize : Nat := 4

/-- The bytes of `absvalue`, of at most 64 bits, the lowest first. -/
def absBytes : Nat → Nat → List UInt8
  | 0, _ => []
  | fuel + 1, n => if n = 0 then [] else UInt8.ofNat n :: absBytes fuel (n / 256)

def serialize (value : Int) : Valtype :=
  let result := absBytes 8 value.natAbs
  match result.getLast? with
  | none => []
  | some last =>
    if last &&& 0x80 ≠ 0 then result ++ [if value < 0 then 0x80 else 0]
    else if value < 0 then result.dropLast ++ [last ||| 0x80]
    else result

def getint (value : Int) : Int := max (-2 ^ 31) (min value (2 ^ 31 - 1))

end CScriptNum

-- `-255` is `0xff80` and back
example : CScriptNum.serialize (-255) = [0xff, 0x80] ∧ CScriptNum.ofVch [0xff, 0x80] true 4 = some (-255) := by decide

end DigiWage
