import DigiWage.Script.Solver

/-!
# The text of a script

`CScript::ToString`, with `GetOpName`, and `ValueString` of `script/script.cpp`.
-/

namespace DigiWage

namespace CScript

/-- What `GetOpName` calls the opcodes from `0x4f` to `0xb9`, in order. -/
def opNames : List String :=
  ["-1", -- 0x4f
   "OP_RESERVED", "1", "2", "3", "4", "5", "6", "7", -- 0x50
   "8", "9", "10", "11", "12", "13", "14", "15", -- 0x58
   "16", "OP_NOP", "OP_VER", "OP_IF", "OP_NOTIF", "OP_VERIF", "OP_VERNOTIF", "OP_ELSE", -- 0x60
   "OP_ENDIF", "OP_VERIFY", "OP_RETURN", "OP_TOALTSTACK", "OP_FROMALTSTACK", "OP_2DROP", "OP_2DUP", "OP_3DUP", -- 0x68
   "OP_2OVER", "OP_2ROT", "OP_2SWAP", "OP_IFDUP", "OP_DEPTH", "OP_DROP", "OP_DUP", "OP_NIP", -- 0x70
   "OP_OVER", "OP_PICK", "OP_ROLL", "OP_ROT", "OP_SWAP", "OP_TUCK", "OP_CAT", "OP_SUBSTR", -- 0x78
   "OP_LEFT", "OP_RIGHT", "OP_SIZE", "OP_INVERT", "OP_AND", "OP_OR", "OP_XOR", "OP_EQUAL", -- 0x80
   "OP_EQUALVERIFY", "OP_RESERVED1", "OP_RESERVED2", "OP_1ADD", "OP_1SUB", "OP_2MUL", "OP_2DIV", "OP_NEGATE", -- 0x88
   "OP_ABS", "OP_NOT", "OP_0NOTEQUAL", "OP_ADD", "OP_SUB", "OP_MUL", "OP_DIV", "OP_MOD", -- 0x90
   "OP_LSHIFT", "OP_RSHIFT", "OP_BOOLAND", "OP_BOOLOR", "OP_NUMEQUAL", "OP_NUMEQUALVERIFY", "OP_NUMNOTEQUAL",
   "OP_LESSTHAN", -- 0x98
   "OP_GREATERTHAN", "OP_LESSTHANOREQUAL", "OP_GREATERTHANOREQUAL", "OP_MIN", "OP_MAX", "OP_WITHIN", "OP_RIPEMD160",
   "OP_SHA1", -- 0xa0
   "OP_SHA256", "OP_HASH160", "OP_HASH256", "OP_CODESEPARATOR", "OP_CHECKSIG", "OP_CHECKSIGVERIFY",
   "OP_CHECKMULTISIG", "OP_CHECKMULTISIGVERIFY", -- 0xa8
   "OP_NOP1", "OP_CHECKLOCKTIMEVERIFY", "OP_NOP3", "OP_NOP4", "OP_NOP5", "OP_NOP6", "OP_NOP7", "OP_NOP8", -- 0xb0
   "OP_NOP9", "OP_NOP10"] -- 0xb8

example : opNames.length = OpcodeType.table.length := by decide

def getOpName (opcode : UInt8) : String :=
  if opcode = OP_0 then "0"
  else if opcode = OP_PUSHDATA1 then "OP_PUSHDATA1"
  else if opcode = OP_PUSHDATA2 then "OP_PUSHDATA2"
  else if opcode = OP_PUSHDATA4 then "OP_PUSHDATA4"
  else if opcode < OP_PUSHDATA4 then "OP_UNKNOWN"
  else if opcode ≤ 0xb9 then opNames.getD (opcode.toNat - 0x4f) "OP_UNKNOWN"
  else if opcode = OP_ZEROCOINMINT then "OP_ZEROCOINMINT"
  else if opcode = OP_ZEROCOINSPEND then "OP_ZEROCOINSPEND"
  else if opcode = OP_CHECKCOLDSTAKEVERIFY then "OP_CHECKCOLDSTAKEVERIFY"
  else if opcode = OP_INVALIDOPCODE then "OP_INVALIDOPCODE"
  else "OP_UNKNOWN"

def hexStr (vch : Valtype) : String :=
  String.ofList (vch.flatMap fun b => [Nat.digitChar (b.toNat / 16), Nat.digitChar (b.toNat % 16)])

/-- `ValueString`; the constructor of `CScriptNum` does not throw for up to four bytes. -/
def valueString (vch : Valtype) : String :=
  if vch.length ≤ 4 then (CScriptNum.getint (CScriptNum.setVch vch)).repr else hexStr vch

/-- The loop of `CScript::ToString` from a place on. -/
def toStringLoop : Nat → String → List UInt8 → String
  | _, str, [] => str
  | 0, str, _ => str
  | fuel + 1, str, pc =>
    let str := if str = "" then str else str ++ " "
    match getOp2 pc with
    | none => str ++ "[error]"
    | some (opcode, vch, rest) =>
      if opcode ≤ OP_PUSHDATA4 then toStringLoop fuel (str ++ valueString vch) rest
      -- a spend of zerocoins has no further opcodes
      else if opcode = OP_ZEROCOINSPEND then str ++ getOpName opcode
      else toStringLoop fuel (str ++ getOpName opcode) rest

def toString (s : CScript) : String := toStringLoop s.bytes.length "" s.bytes

/-- A payment to a key hash that is pushed by these bytes. -/
def payToKeyHash (enc : List UInt8) : CScript := OP_DUP :: OP_HASH160 :: (enc ++ [OP_EQUALVERIFY, OP_CHECKSIG])

end CScript

end DigiWage
