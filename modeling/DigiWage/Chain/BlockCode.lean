import DigiWage.Hash
import DigiWage.Script.SignatureHash

/-!
# Blocks as bytes

`SerializationOp` of `CTransaction` and of `CBlock`, for reading. The checkpoint of a header is there in version 4 only, and the
signature of a block only when its second transaction is a coinstake, which is known once the transactions are read.

* `CTransaction.unserialize_serialize`, `CTransaction.serialize_of_unserialize`: a transaction has one encoding.
* `Encoded.block_encoding`: so has a block, whatever was in the fields that are not written.
-/

namespace DigiWage

open Lib

/-! ## Vectors of bytes -/

/-- The loop of `Unserialize_impl` over `nSize` bytes: limit size per read so bogus size value won't cause out of memory. -/
def readChars (nSize : Nat) (s : Stream) : Option (List UInt8 × Stream) :=
  if nSize = 0 then some ([], s)
  else do
    let blk := min nSize (1 + 4999999)
    let (v, s) ← s.read blk
    let (w, s) ← readChars (nSize - blk) s
    some (v ++ w, s)
termination_by nSize
decreasing_by omega

/-- `Serialize` of a vector of bytes. -/
def writeCharVector (v : List UInt8) : List UInt8 := writeCompactSize v.length ++ v

/-- `Unserialize` of a vector of bytes. -/
def readCharVector (s : Stream) : Option (List UInt8 × Stream) := do
  let (nSize, s) ← readCompactSize s
  readChars nSize s

theorem readChars_eq_read (nSize : Nat) (s : Stream) : readChars nSize s = s.read nSize := by
  fun_induction readChars nSize s with
  | case1 s => simp [Stream.read]
  | case2 nSize s h blk ih =>
    have hblk : blk ≤ nSize := Nat.min_le_left _ _
    by_cases hlen : s.length < blk
    · rw [Stream.read, if_pos hlen, Stream.read, if_pos (by omega)]
      rfl
    · have hfirst : s.read blk = some (s.take blk, s.drop blk) := if_neg hlen
      rw [hfirst]
      show (readChars (nSize - blk) (s.drop blk)).bind (fun r => some (s.take blk ++ r.1, r.2)) = s.read nSize
      rw [ih, Stream.read, Stream.read, List.length_drop]
      by_cases hrest : s.length < nSize
      · rw [if_pos (by omega), if_pos hrest]
        rfl
      · rw [if_neg (by omega), if_neg hrest, Option.bind_some, List.drop_drop, ← List.take_add, Nat.add_sub_cancel' hblk]

theorem readCharVector_write {v : List UInt8} (h : v.length ≤ MAX_SIZE) (s : Stream) :
    readCharVector (writeCharVector v ++ s) = some (v, s) := by
  rw [readCharVector, writeCharVector, List.append_assoc, readCompactSize_write h]
  show readChars v.length (v ++ s) = some (v, s)
  rw [readChars_eq_read]
  exact Stream.read_append v s rfl

theorem readCharVector_eq_some {v : List UInt8} {s s' : Stream} (h : readCharVector s = some (v, s')) : s = writeCharVector v ++ s' := by
  obtain ⟨⟨n, s₁⟩, hsize, h⟩ := Option.bind_eq_some_iff.mp h
  obtain ⟨-, hs⟩ := readCompactSize_eq_some hsize
  dsimp only at h
  rw [readChars_eq_read] at h
  obtain ⟨hlen, hs₁⟩ := Stream.read_eq_some h
  rw [writeCharVector, hlen, hs, hs₁, List.append_assoc]

theorem writeVector_map {α : Type} {write : α → List UInt8} {f : α → α} (h : ∀ a, write (f a) = write a) (v : List α) :
    writeVector write (v.map f) = writeVector write v := by
  simp [writeVector, List.flatMap_map, h]

/-! ## Transactions -/

def CScript.unserialize (s : Stream) : Option (CScript × Stream) := readCharVector s

def COutPoint.unserialize (s : Stream) : Option (COutPoint × Stream) := do
  let (hash, s) ← readUint256 s
  let (n, s) ← readUInt 4 s
  some (⟨hash, n⟩, s)

def CTxIn.unserialize (s : Stream) : Option (CTxIn × Stream) := do
  let (prevout, s) ← COutPoint.unserialize s
  let (scriptSig, s) ← CScript.unserialize s
  let (nSequence, s) ← readUInt 4 s
  some (⟨prevout, scriptSig, nSequence⟩, s)

def CTxOut.unserialize (s : Stream) : Option (CTxOut × Stream) := do
  let (nValue, s) ← readInt64 s
  let (scriptPubKey, s) ← CScript.unserialize s
  some ({ CTxOut.null with nValue := nValue.toInt, scriptPubKey := scriptPubKey }, s)

def CTransaction.updateHash (tx : CTransaction) : CTransaction := { tx with hash := hash256 tx.serialize }

def CTransaction.unserialize (s : Stream) : Option (CTransaction × Stream) := do
  let (nVersion, s) ← readInt32 s
  let (vin, s) ← readVector CTxIn.unserialize s
  let (vout, s) ← readVector CTxOut.unserialize s
  let (nLockTime, s) ← readUInt 4 s
  some (CTransaction.updateHash ⟨0, nVersion, vin, vout, nLockTime⟩, s)

/-! ## Transactions are read back -/

/-- What is not written is as in a new object: `nRounds`. -/
def CTxOut.reread (o : CTxOut) : CTxOut := { o with nRounds := CTxOut.null.nRounds }

/-- What is not written is as in a new object: `nRounds`, and the hash, which is computed. -/
def CTransaction.reread (tx : CTransaction) : CTransaction := CTransaction.updateHash { tx with vout := tx.vout.map CTxOut.reread }

/-- The numbers have their widths, and the script is not too long. -/
structure CTxIn.Fits (txin : CTxIn) : Prop where
  n : txin.prevout.n < 2 ^ 32
  scriptSig : txin.scriptSig.bytes.length ≤ MAX_SIZE
  nSequence : txin.nSequence < 2 ^ 32

structure CTxOut.Fits (o : CTxOut) : Prop where
  nValue : -2 ^ 63 ≤ o.nValue ∧ o.nValue < 2 ^ 63
  scriptPubKey : o.scriptPubKey.bytes.length ≤ MAX_SIZE

structure CTransaction.Fits (tx : CTransaction) : Prop where
  vin : tx.vin.length ≤ MAX_SIZE
  txin : ∀ txin ∈ tx.vin, txin.Fits
  vout : tx.vout.length ≤ MAX_SIZE
  txout : ∀ o ∈ tx.vout, o.Fits
  nLockTime : tx.nLockTime < 2 ^ 32

theorem CScript.unserialize_serialize {script : CScript} (h : script.bytes.length ≤ MAX_SIZE) (s : Stream) :
    CScript.unserialize (script.serialize ++ s) = some (script, s) := readCharVector_write h s

theorem COutPoint.unserialize_serialize {o : COutPoint} (h : o.n < 2 ^ 32) (s : Stream) :
    COutPoint.unserialize (o.serialize ++ s) = some (o, s) := by
  rw [COutPoint.unserialize, COutPoint.serialize, List.append_assoc, readUint256_write]
  simp only [Option.bind_eq_bind, Option.bind_some]
  rw [readUInt_write h, Option.bind_some]

theorem CTxIn.unserialize_serialize {txin : CTxIn} (h : txin.Fits) (s : Stream) :
    CTxIn.unserialize (txin.serialize ++ s) = some (txin, s) := by
  rw [CTxIn.unserialize, CTxIn.serialize, List.append_assoc, List.append_assoc, COutPoint.unserialize_serialize h.n]
  simp only [Option.bind_eq_bind, Option.bind_some]
  rw [CScript.unserialize_serialize h.scriptSig, Option.bind_some, readUInt_write h.nSequence, Option.bind_some]

theorem CTxOut.serialize_reread (o : CTxOut) : o.reread.serialize = o.serialize := rfl

theorem leBytes_eq_writeInt64 (n : Int) : leBytes 8 (n % 2 ^ 64).toNat = writeInt64 (Int64.ofInt n) := by
  have hbits : (Int64.ofInt n).toUInt64.toNat = (BitVec.ofInt 64 n).toNat := rfl
  rw [writeInt64, hbits, BitVec.toNat_ofInt]
  rfl

theorem CTxOut.unserialize_serialize {o : CTxOut} (h : o.Fits) (s : Stream) :
    CTxOut.unserialize (o.serialize ++ s) = some (o.reread, s) := by
  rw [CTxOut.unserialize, CTxOut.serialize, List.append_assoc, leBytes_eq_writeInt64, readInt64_write]
  simp only [Option.bind_eq_bind, Option.bind_some]
  rw [CScript.unserialize_serialize h.scriptPubKey, Option.bind_some, Int64.toInt_ofInt_of_le h.nValue.1 h.nValue.2]
  rfl

theorem CTransaction.serialize_hash (tx : CTransaction) (hash : Uint256) :
    CTransaction.serialize { tx with hash := hash } = tx.serialize := by simp only [serialize]

theorem CTransaction.updateHash_hash (tx : CTransaction) (hash : Uint256) :
    CTransaction.updateHash { tx with hash := hash } = CTransaction.updateHash tx := by
  rw [updateHash, updateHash, serialize_hash]

theorem CTransaction.unserialize_serialize {tx : CTransaction} (h : tx.Fits) (s : Stream) :
    CTransaction.unserialize (tx.serialize ++ s) = some (tx.reread, s) := by
  have hvout : (tx.vout.map CTxOut.reread).length ≤ MAX_SIZE := by
    rw [List.length_map]
    exact h.vout
  have hread : ∀ o ∈ tx.vout.map CTxOut.reread, ∀ s, CTxOut.unserialize (o.serialize ++ s) = some (o, s) := by
    intro o ho s
    obtain ⟨o', ho', rfl⟩ := List.mem_map.mp ho
    exact CTxOut.unserialize_serialize (h.txout o' ho') s
  rw [CTransaction.unserialize, CTransaction.serialize, List.append_assoc, List.append_assoc, List.append_assoc, readInt32_write]
  simp only [Option.bind_eq_bind, Option.bind_some]
  rw [readVector_write h.vin fun i hi => CTxIn.unserialize_serialize (h.txin i hi), Option.bind_some,
    ← writeVector_map CTxOut.serialize_reread, readVector_write hvout hread, Option.bind_some, readUInt_write h.nLockTime,
    Option.bind_some, CTransaction.reread, ← CTransaction.updateHash_hash { tx with vout := tx.vout.map CTxOut.reread } 0]

theorem CTransaction.serialize_reread (tx : CTransaction) : tx.reread.serialize = tx.serialize := by
  rw [reread, updateHash, serialize_hash, serialize, serialize, writeVector_map CTxOut.serialize_reread]

theorem CTransaction.isCoinStake_reread (tx : CTransaction) : tx.reread.isCoinStake = tx.isCoinStake := by
  cases hvout : tx.vout with
  | nil => simp [isCoinStake, reread, updateHash, hvout]
  | cons o l =>
    cases l with
    | nil => simp [isCoinStake, reread, updateHash, hvout]
    | cons o' l => simp [isCoinStake, reread, updateHash, hvout, CTxOut.isEmpty, CTxOut.reread]

/-! ## Transactions have one encoding -/

theorem CScript.serialize_of_unserialize {script : CScript} {s s' : Stream} (h : CScript.unserialize s = some (script, s')) :
    s = script.serialize ++ s' := readCharVector_eq_some h

theorem COutPoint.serialize_of_unserialize {o : COutPoint} {s s' : Stream} (h : COutPoint.unserialize s = some (o, s')) :
    s = o.serialize ++ s' := by
  obtain ⟨⟨hash, s₁⟩, hhash, h⟩ := Option.bind_eq_some_iff.mp h
  obtain ⟨⟨n, s₂⟩, hn, h⟩ := Option.bind_eq_some_iff.mp h
  obtain ⟨rfl, rfl⟩ := Prod.mk.inj (Option.some.inj h)
  rw [readUint256_eq_some hhash, (readUInt_eq_some hn).2, COutPoint.serialize, List.append_assoc]

theorem CTxIn.serialize_of_unserialize {txin : CTxIn} {s s' : Stream} (h : CTxIn.unserialize s = some (txin, s')) :
    s = txin.serialize ++ s' := by
  obtain ⟨⟨prevout, s₁⟩, hprevout, h⟩ := Option.bind_eq_some_iff.mp h
  obtain ⟨⟨scriptSig, s₂⟩, hscript, h⟩ := Option.bind_eq_some_iff.mp h
  obtain ⟨⟨nSequence, s₃⟩, hsequence, h⟩ := Option.bind_eq_some_iff.mp h
  obtain ⟨rfl, rfl⟩ := Prod.mk.inj (Option.some.inj h)
  rw [COutPoint.serialize_of_unserialize hprevout, CScript.serialize_of_unserialize hscript, (readUInt_eq_some hsequence).2, CTxIn.serialize, List.append_assoc,
    List.append_assoc]

theorem CTxOut.serialize_of_unserialize {o : CTxOut} {s s' : Stream} (h : CTxOut.unserialize s = some (o, s')) :
    s = o.serialize ++ s' := by
  obtain ⟨⟨nValue, s₁⟩, hvalue, h⟩ := Option.bind_eq_some_iff.mp h
  obtain ⟨⟨scriptPubKey, s₂⟩, hscript, h⟩ := Option.bind_eq_some_iff.mp h
  obtain ⟨rfl, rfl⟩ := Prod.mk.inj (Option.some.inj h)
  rw [readInt64_eq_some hvalue, CScript.serialize_of_unserialize hscript, CTxOut.serialize, leBytes_eq_writeInt64, Int64.ofInt_toInt,
    List.append_assoc]

theorem CTransaction.serialize_of_unserialize {tx : CTransaction} {s s' : Stream} (h : CTransaction.unserialize s = some (tx, s')) :
    s = tx.serialize ++ s' := by
  obtain ⟨⟨nVersion, s₁⟩, hversion, h⟩ := Option.bind_eq_some_iff.mp h
  obtain ⟨⟨vin, s₂⟩, hvin, h⟩ := Option.bind_eq_some_iff.mp h
  obtain ⟨⟨vout, s₃⟩, hvout, h⟩ := Option.bind_eq_some_iff.mp h
  obtain ⟨⟨nLockTime, s₄⟩, hlock, h⟩ := Option.bind_eq_some_iff.mp h
  obtain ⟨rfl, rfl⟩ := Prod.mk.inj (Option.some.inj h)
  rw [readInt32_eq_some hversion, (readVector_eq_some (fun _ _ _ => CTxIn.serialize_of_unserialize) hvin).2,
    (readVector_eq_some (fun _ _ _ => CTxOut.serialize_of_unserialize) hvout).2, (readUInt_eq_some hlock).2]
  simp only [CTransaction.serialize, CTransaction.updateHash, List.append_assoc]

/-! ## Blocks -/

namespace Encoded

/-- `CBlockHeader`, with the fields that are written. -/
structure CBlockHeader where
  nVersion : Int32
  hashPrevBlock : Uint256
  hashMerkleRoot : Uint256
  nTime : UInt32
  nBits : UInt32
  nNonce : UInt32
  nAccumulatorCheckpoint : Uint256
deriving DecidableEq

/-- `CBlock`, with the fields that are written. -/
structure CBlock extends CBlockHeader where
  vtx : List CTransaction
  vchBlockSig : List UInt8
deriving DecidableEq

/-- `CBlockHeader::SetNull`. -/
def CBlockHeader.null : CBlockHeader := ⟨5, 0, 0, 0, 0, 0, 0⟩

/-- `CBlock::SetNull`. -/
def CBlock.null : CBlock := ⟨CBlockHeader.null, [], []⟩

/-- Of the first two transactions, the second is a coinstake. -/
def CBlock.isProofOfStake (b : CBlock) : Bool :=
  match b.vtx with
  | _ :: tx :: _ => tx.isCoinStake
  | _ => false

def writeUInt32 (x : UInt32) : List UInt8 := leBytes 4 x.toNat

def readUInt32 (s : Stream) : Option (UInt32 × Stream) := (readUInt 4 s).map fun r => (UInt32.ofNat r.1, r.2)

/-- `CBlockHeader::SerializationOp`, for writing. -/
def CBlockHeader.serialize (h : CBlockHeader) : List UInt8 :=
  writeInt32 h.nVersion ++ writeUint256 h.hashPrevBlock ++ writeUint256 h.hashMerkleRoot ++ writeUInt32 h.nTime ++ writeUInt32 h.nBits ++
    writeUInt32 h.nNonce ++
    if h.nVersion = 4 then writeUint256 h.nAccumulatorCheckpoint else []

/-- `CBlockHeader::SerializationOp`, for reading into a header. -/
def CBlockHeader.unserialize (h : CBlockHeader) (s : Stream) : Option (CBlockHeader × Stream) := do
  let (nVersion, s) ← readInt32 s
  let (hashPrevBlock, s) ← readUint256 s
  let (hashMerkleRoot, s) ← readUint256 s
  let (nTime, s) ← readUInt32 s
  let (nBits, s) ← readUInt32 s
  let (nNonce, s) ← readUInt32 s
  let h : CBlockHeader := ⟨nVersion, hashPrevBlock, hashMerkleRoot, nTime, nBits, nNonce, h.nAccumulatorCheckpoint⟩
  if nVersion = 4 then do
    let (nAccumulatorCheckpoint, s) ← readUint256 s
    some ({ h with nAccumulatorCheckpoint := nAccumulatorCheckpoint }, s)
  else some (h, s)

/-- `CBlock::SerializationOp`, for writing. -/
def CBlock.serialize (b : CBlock) : List UInt8 :=
  b.toCBlockHeader.serialize ++ writeVector CTransaction.serialize b.vtx ++
    if b.isProofOfStake then writeCharVector b.vchBlockSig else []

/-- `CBlock::SerializationOp`, for reading into a block. -/
def CBlock.unserialize (b : CBlock) (s : Stream) : Option (CBlock × Stream) := do
  let (header, s) ← b.toCBlockHeader.unserialize s
  let (vtx, s) ← readVector CTransaction.unserialize s
  let b : CBlock := ⟨header, vtx, b.vchBlockSig⟩
  if b.isProofOfStake then do
    let (vchBlockSig, s) ← readCharVector s
    some ({ b with vchBlockSig := vchBlockSig }, s)
  else some (b, s)

/-- The vectors are not too long, and the numbers of the transactions have their widths. -/
structure CBlock.Fits (b : CBlock) : Prop where
  vtx : b.vtx.length ≤ MAX_SIZE
  tx : ∀ tx ∈ b.vtx, tx.Fits
  vchBlockSig : b.vchBlockSig.length ≤ MAX_SIZE

/-- The block with what its transactions have in memory only as in new objects. -/
def CBlock.reread (b : CBlock) : CBlock := { b with vtx := b.vtx.map CTransaction.reread }

theorem readUInt32_write (x : UInt32) (s : Stream) : readUInt32 (writeUInt32 x ++ s) = some (x, s) := by
  rw [readUInt32, writeUInt32, readUInt_write (show x.toNat < 2 ^ 32 from x.toNat_lt), Option.map_some, UInt32.ofNat_toNat]

theorem readUInt32_eq_some {x : UInt32} {s s' : Stream} (h : readUInt32 s = some (x, s')) : s = writeUInt32 x ++ s' := by
  obtain ⟨⟨n, r⟩, hread, heq⟩ := Option.map_eq_some_iff.mp h
  obtain ⟨rfl, rfl⟩ := Prod.mk.inj heq
  obtain ⟨hlt, hs⟩ := readUInt_eq_some hread
  rw [hs, writeUInt32, UInt32.toNat_ofNat', Nat.mod_eq_of_lt (show n < 2 ^ 32 from hlt)]

theorem CBlockHeader.unserialize_serialize (h₀ h : CBlockHeader) (s : Stream) : h₀.unserialize (h.serialize ++ s) =
    some ({ h with nAccumulatorCheckpoint := if h.nVersion = 4 then h.nAccumulatorCheckpoint else h₀.nAccumulatorCheckpoint }, s) := by
  rw [CBlockHeader.serialize, CBlockHeader.unserialize]
  simp only [List.append_assoc, readInt32_write, readUint256_write, readUInt32_write, Option.bind_eq_bind, Option.bind_some]
  by_cases h4 : h.nVersion = 4
  · rw [if_pos h4, if_pos h4, if_pos h4, readUint256_write]
    rfl
  · rw [if_neg h4, if_neg h4, if_neg h4, List.nil_append]

theorem CBlockHeader.serialize_of_unserialize {h₀ h : CBlockHeader} {s s' : Stream} (heq : h₀.unserialize s = some (h, s')) :
    s = h.serialize ++ s' := by
  obtain ⟨⟨nVersion, s₁⟩, hversion, heq⟩ := Option.bind_eq_some_iff.mp heq
  obtain ⟨⟨hashPrevBlock, s₂⟩, hprev, heq⟩ := Option.bind_eq_some_iff.mp heq
  obtain ⟨⟨hashMerkleRoot, s₃⟩, hroot, heq⟩ := Option.bind_eq_some_iff.mp heq
  obtain ⟨⟨nTime, s₄⟩, htime, heq⟩ := Option.bind_eq_some_iff.mp heq
  obtain ⟨⟨nBits, s₅⟩, hbits, heq⟩ := Option.bind_eq_some_iff.mp heq
  obtain ⟨⟨nNonce, s₆⟩, hnonce, heq⟩ := Option.bind_eq_some_iff.mp heq
  rw [readInt32_eq_some hversion, readUint256_eq_some hprev, readUint256_eq_some hroot, readUInt32_eq_some htime,
    readUInt32_eq_some hbits, readUInt32_eq_some hnonce]
  dsimp only at heq
  split at heq
  · rename_i h4
    obtain ⟨⟨nAccumulatorCheckpoint, s₇⟩, hcheckpoint, heq⟩ := Option.bind_eq_some_iff.mp heq
    obtain ⟨rfl, rfl⟩ := Prod.mk.inj (Option.some.inj heq)
    rw [readUint256_eq_some hcheckpoint]
    simp only [serialize, if_pos h4, List.append_assoc]
  · rename_i h4
    obtain ⟨rfl, rfl⟩ := Prod.mk.inj (Option.some.inj heq)
    simp only [serialize, if_neg h4, List.append_assoc, List.append_nil]

theorem CBlock.isProofOfStake_reread (b : CBlock) : b.reread.isProofOfStake = b.isProofOfStake := by
  cases hvtx : b.vtx with
  | nil => simp [isProofOfStake, reread, hvtx]
  | cons tx l =>
    cases l with
    | nil => simp [isProofOfStake, reread, hvtx]
    | cons tx' l => simp [isProofOfStake, reread, hvtx, CTransaction.isCoinStake_reread]

theorem CBlock.unserialize_serialize (b₀ : CBlock) {b : CBlock} (h : b.Fits) (s : Stream) : b₀.unserialize (b.serialize ++ s) =
    some ({ b.reread with
      nAccumulatorCheckpoint := if b.nVersion = 4 then b.nAccumulatorCheckpoint else b₀.nAccumulatorCheckpoint
      vchBlockSig := if b.isProofOfStake then b.vchBlockSig else b₀.vchBlockSig }, s) := by
  have hlen : (b.vtx.map CTransaction.reread).length ≤ MAX_SIZE := by
    rw [List.length_map]
    exact h.vtx
  have hread : ∀ tx ∈ b.vtx.map CTransaction.reread, ∀ s, CTransaction.unserialize (tx.serialize ++ s) = some (tx, s) := by
    intro tx htx s
    obtain ⟨tx', htx', rfl⟩ := List.mem_map.mp htx
    rw [CTransaction.serialize_reread]
    exact CTransaction.unserialize_serialize (h.tx tx' htx') s
  rw [serialize, unserialize, List.append_assoc, List.append_assoc, CBlockHeader.unserialize_serialize]
  simp only [Option.bind_eq_bind, Option.bind_some]
  rw [← writeVector_map CTransaction.serialize_reread, readVector_write hlen hread, Option.bind_some]
  have hstake := isProofOfStake_reread b
  cases hpos : b.isProofOfStake with
  | true =>
    rw [hpos] at hstake
    rw [if_pos rfl, if_pos rfl, readCharVector_write h.vchBlockSig, if_pos]
    · rfl
    · exact hstake
  | false =>
    rw [hpos] at hstake
    rw [if_neg Bool.false_ne_true, if_neg Bool.false_ne_true, List.nil_append, if_neg]
    · rfl
    · rw [Bool.not_eq_true]
      exact hstake

theorem CBlock.serialize_of_unserialize {b₀ b : CBlock} {s s' : Stream} (h : b₀.unserialize s = some (b, s')) : s = b.serialize ++ s' := by
  obtain ⟨⟨header, s₁⟩, hheader, h⟩ := Option.bind_eq_some_iff.mp h
  obtain ⟨⟨vtx, s₂⟩, hvtx, h⟩ := Option.bind_eq_some_iff.mp h
  rw [CBlockHeader.serialize_of_unserialize hheader, (readVector_eq_some (fun _ _ _ => CTransaction.serialize_of_unserialize) hvtx).2]
  dsimp only at h
  split at h
  · rename_i hpos
    obtain ⟨⟨vchBlockSig, s₃⟩, hsig, h⟩ := Option.bind_eq_some_iff.mp h
    obtain ⟨rfl, rfl⟩ := Prod.mk.inj (Option.some.inj h)
    have hstake : CBlock.isProofOfStake ⟨header, vtx, vchBlockSig⟩ = true := hpos
    rw [readCharVector_eq_some hsig, serialize, if_pos hstake, List.append_assoc, List.append_assoc]
  · rename_i hpos
    obtain ⟨rfl, rfl⟩ := Prod.mk.inj (Option.some.inj h)
    rw [serialize, if_neg hpos, List.append_nil, List.append_assoc]

/-- A block whose checkpoint is set in version 4 only, and whose signature is there only for a coinstake, is read back from its bytes,
into a new object, and the bytes are consumed. And whatever bytes a block is read from, into whatever object, they are those that are
written for it. -/
theorem block_encoding :
    (∀ b : CBlock, b.Fits → (b.vchBlockSig = [] ∨ b.isProofOfStake = true) → (b.nAccumulatorCheckpoint = 0 ∨ b.nVersion = 4) →
      ∀ s, CBlock.null.unserialize (b.serialize ++ s) = some (b.reread, s)) ∧
    ∀ (b₀ b : CBlock) (s s' : Stream), b₀.unserialize s = some (b, s') → s = b.serialize ++ s' := by
  refine ⟨fun b hfits hsig hcheckpoint s => ?_, fun b₀ b s s' => CBlock.serialize_of_unserialize⟩
  have hsig' : (if b.isProofOfStake then b.vchBlockSig else CBlock.null.vchBlockSig) = b.vchBlockSig := by
    split
    · rfl
    · rename_i hpos
      exact (hsig.resolve_right hpos).symm
  have hcheckpoint' : (if b.nVersion = 4 then b.nAccumulatorCheckpoint else CBlock.null.nAccumulatorCheckpoint) =
      b.nAccumulatorCheckpoint := by
    split
    · rfl
    · rename_i h4
      exact (hcheckpoint.resolve_right h4).symm
  rw [CBlock.unserialize_serialize _ hfits, hsig', hcheckpoint']
  rfl

/-- A block of version 4 with a checkpoint, a coinbase, a coinstake and a signature. -/
def stakedBlock : CBlock :=
  ⟨⟨4, 3, 2, 1000, 0x1e0ffff0, 0, 7⟩,
    [⟨0, 1, [⟨⟨0, 2 ^ 32 - 1⟩, [0x51], 2 ^ 32 - 1⟩], [⟨0, ([] : List UInt8), -10⟩], 0⟩,
      ⟨0, 1, [⟨⟨5, 0⟩, ([] : List UInt8), 2 ^ 32 - 1⟩], [⟨0, ([] : List UInt8), -10⟩, ⟨100, [0x51], -10⟩], 0⟩], [1, 2, 3]⟩

theorem stakedBlock_fits : stakedBlock.Fits where
  vtx := by decide
  tx := by
    have hin : ∀ hash n script, n < 2 ^ 32 → script.bytes.length ≤ MAX_SIZE →
        ∀ txin ∈ [(⟨⟨hash, n⟩, script, 2 ^ 32 - 1⟩ : CTxIn)], txin.Fits := fun hash n script hn hscript =>
      List.forall_mem_singleton.mpr ⟨hn, hscript, by dsimp only; omega⟩
    have hempty : CTxOut.Fits ⟨0, ([] : List UInt8), -10⟩ := ⟨by decide, by decide⟩
    refine List.forall_mem_cons.mpr ⟨?_, List.forall_mem_singleton.mpr ?_⟩
    · exact ⟨by decide, hin _ _ _ (by decide) (by decide), by decide, List.forall_mem_singleton.mpr hempty, by decide⟩
    · refine ⟨by decide, hin _ _ _ (by decide) (by decide), by decide, ?_, by decide⟩
      exact List.forall_mem_cons.mpr ⟨hempty, List.forall_mem_singleton.mpr ⟨by decide, by decide⟩⟩
  vchBlockSig := by decide

theorem block_encoding_staked : CBlock.null.unserialize (stakedBlock.serialize ++ [1]) = some (stakedBlock.reread, [1]) ∧
    stakedBlock.serialize ++ [1] = stakedBlock.reread.serialize ++ [1] := by
  have hread := block_encoding.1 stakedBlock stakedBlock_fits (.inr rfl) (.inr rfl) [1]
  exact ⟨hread, block_encoding.2 _ _ _ _ hread⟩

/-- A block of version 5 with a checkpoint. -/
def checkpointBlock : CBlock := { CBlock.null with nAccumulatorCheckpoint := 1 }

theorem checkpointBlock_fits : checkpointBlock.Fits := ⟨by decide, by simp [checkpointBlock, CBlock.null], by decide⟩

/-- Its checkpoint is not written, and so not read back. -/
theorem not_block_encoding_checkpoint : ¬ ∀ b : CBlock, b.Fits → (b.vchBlockSig = [] ∨ b.isProofOfStake = true) →
    ∀ s, CBlock.null.unserialize (b.serialize ++ s) = some (b.reread, s) := by
  intro hall
  have hread := hall checkpointBlock checkpointBlock_fits (.inl rfl) []
  rw [CBlock.unserialize_serialize _ checkpointBlock_fits, Option.some.injEq, Prod.mk.injEq] at hread
  have hcheckpoint := congrArg (fun b : CBlock => b.nAccumulatorCheckpoint) hread.1
  exact absurd hcheckpoint (by decide)

end Encoded

end DigiWage
