import Mathlib.Data.List.Basic
import Mathlib.Algebra.Ring.Nat
import Mathlib.Algebra.Ring.Int.Defs

/-!
# Scripts, transactions and blocks

The data of `primitives/transaction.h`, `primitives/block.h` and the byte tests of `script/script.cpp` that the chain
code reads.

* A script is its byte string; `isUnspendable`, `isZerocoinMint`, `isZerocoinSpend` and `isPayToColdStaking` are the
  fast tests of `CScript`.
* A transaction carries its cached hash (`CTransaction::hash`), and a block the hash of its header, so nothing below
  depends on the hash function.
* A `CAmount` is an `Int`; the places where a 64-bit sum could wrap say so.
-/

namespace DigiWage

abbrev Uint256 := BitVec 256

instance : LawfulBEq Uint256 := instLawfulBEq

def COIN : Int := 100000000

/-- The largest `int64_t`. -/
def int64Max : Int := 2 ^ 63 - 1

/-- `MESS_VER_HASH` of `messagesigner.h`. -/
def MESS_VER_HASH : Int := 1

/-! ## Scripts -/

/-- `CScript`: a vector of bytes. -/
def CScript := List UInt8
deriving DecidableEq, Repr

namespace CScript

def OP_RETURN : UInt8 := 0x6a
def OP_ROT : UInt8 := 0x7b
def OP_EQUALVERIFY : UInt8 := 0x88
def OP_CHECKSIG : UInt8 := 0xac
def OP_ZEROCOINMINT : UInt8 := 0xc1
def OP_ZEROCOINSPEND : UInt8 := 0xc2
def OP_CHECKCOLDSTAKEVERIFY : UInt8 := 0xd1

def maxScriptSize : Nat := 10000

/-- The bytes of a script. -/
def bytes (s : CScript) : List UInt8 := s

/-- `std::vector::empty`. -/
def empty (s : CScript) : Bool := s.bytes.isEmpty

def startsWithOpcode (s : CScript) (opcode : UInt8) : Bool := s.bytes.head? == some opcode

def isZerocoinMint (s : CScript) : Bool := s.startsWithOpcode OP_ZEROCOINMINT

def isZerocoinSpend (s : CScript) : Bool := s.startsWithOpcode OP_ZEROCOINSPEND

def isUnspendable (s : CScript) : Bool := s.bytes.head? == some OP_RETURN || decide (maxScriptSize < s.bytes.length)

def isPayToColdStaking (s : CScript) : Bool :=
  s.bytes.length == 51 && s.bytes[2]? == some OP_ROT && s.bytes[4]? == some OP_CHECKCOLDSTAKEVERIFY &&
    s.bytes[5]? == some 0x14 && s.bytes[27]? == some 0x14 && s.bytes[49]? == some OP_EQUALVERIFY &&
    s.bytes[50]? == some OP_CHECKSIG

end CScript

/-! ## Transactions -/

structure COutPoint where
  hash : Uint256
  n : Nat
deriving DecidableEq, Repr

/-- `COutPoint::IsNull`: the null hash and the index `(uint32_t) -1`. -/
def COutPoint.isNull (o : COutPoint) : Bool := o.hash == 0 && o.n == 2 ^ 32 - 1

structure CTxIn where
  prevout : COutPoint
  scriptSig : CScript
  nSequence : Nat
deriving DecidableEq, Repr

def CTxIn.isZerocoinSpend (txin : CTxIn) : Bool := txin.prevout.hash == 0 && txin.scriptSig.isZerocoinSpend

structure CTxOut where
  nValue : Int
  scriptPubKey : CScript
  nRounds : Int
deriving DecidableEq, Repr

namespace CTxOut

/-- The output that `CTxOut()` and `SetNull` make. -/
def null : CTxOut := ⟨-1, ([] : List UInt8), -10⟩

def setNull (_ : CTxOut) : CTxOut := null

def isNull (o : CTxOut) : Bool := o.nValue == -1

def isEmpty (o : CTxOut) : Bool := o.nValue == 0 && o.scriptPubKey.empty

def isZerocoinMint (o : CTxOut) : Bool := o.scriptPubKey.isZerocoinMint

@[simp] theorem isNull_null : null.isNull = true := rfl

@[simp] theorem isUnspendable_null : null.scriptPubKey.isUnspendable = false := rfl

@[simp] theorem isZerocoinMint_null : null.isZerocoinMint = false := rfl

end CTxOut

/-- `CTransaction`, with the hash it caches. -/
structure CTransaction where
  hash : Uint256
  nVersion : Int32
  vin : List CTxIn
  vout : List CTxOut
  nLockTime : Nat
deriving DecidableEq, Repr

namespace CTransaction

def hasZerocoinSpendInputs (tx : CTransaction) : Bool := tx.vin.any CTxIn.isZerocoinSpend

def hasZerocoinMintOutputs (tx : CTransaction) : Bool := tx.vout.any CTxOut.isZerocoinMint

/-- `CTransaction::ContainsZerocoins`; `HasZerocoinPublicSpendInputs` is always false. -/
def containsZerocoins (tx : CTransaction) : Bool := tx.hasZerocoinSpendInputs || tx.hasZerocoinMintOutputs

def isCoinBase (tx : CTransaction) : Bool :=
  match tx.vin with
  | [txin] => txin.prevout.isNull && !tx.containsZerocoins
  | _ => false

/-- `CTransaction::IsCoinStake`: the coin stake transaction is marked with the first output empty. -/
def isCoinStake (tx : CTransaction) : Bool :=
  match tx.vin with
  | [] => false
  | txin :: _ =>
    if txin.prevout.isNull && !txin.isZerocoinSpend then false
    else
      match tx.vout with
      | o :: _ :: _ => o.isEmpty
      | _ => false

/-- One addition of `GetValueOut`; `none` when it throws. -/
def addValueOut (nValueOut : Int) (o : CTxOut) : Option Int :=
  if o.nValue < 0 then none
  else if int64Max < nValueOut + o.nValue then none
  else some (nValueOut + o.nValue)

/-- `CTransaction::GetValueOut`; `none` when it throws on a negative value or at the `int64_t` boundary. -/
def getValueOut (tx : CTransaction) : Option Int := tx.vout.foldlM addValueOut 0

def hasP2CSOutputs (tx : CTransaction) : Bool := tx.vout.any fun o => o.scriptPubKey.isPayToColdStaking

theorem nonneg_of_foldlM_addValueOut : ∀ {l : List CTxOut} {a b : Int}, l.foldlM addValueOut a = some b →
    ∀ o ∈ l, 0 ≤ o.nValue
  | [], _, _, _ => by simp
  | o :: l, a, b, h => by
    simp only [List.foldlM_cons, Option.bind_eq_bind, Option.bind_eq_some_iff] at h
    obtain ⟨c, hc, h⟩ := h
    intro x hx
    rcases List.mem_cons.mp hx with rfl | hx
    · unfold addValueOut at hc
      split at hc
      · cases hc
      · omega
    · exact nonneg_of_foldlM_addValueOut h x hx

theorem nonneg_of_getValueOut {tx : CTransaction} {v : Int} (h : tx.getValueOut = some v) :
    ∀ o ∈ tx.vout, 0 ≤ o.nValue := nonneg_of_foldlM_addValueOut h

end CTransaction

/-! ## Blocks -/

/-- `CBlockHeader`, with its hash. -/
structure CBlockHeader where
  hash : Uint256
  nVersion : Int32
  hashPrevBlock : Uint256
  hashMerkleRoot : Uint256
  nTime : Nat
  nBits : Nat
  nNonce : Nat
deriving DecidableEq, Repr

structure CBlock extends CBlockHeader where
  vtx : List CTransaction
deriving DecidableEq, Repr

namespace CBlock

def isProofOfStake (b : CBlock) : Bool :=
  match b.vtx with
  | _ :: tx :: _ => tx.isCoinStake
  | _ => false

def isProofOfWork (b : CBlock) : Bool := !b.isProofOfStake

end CBlock

end DigiWage
