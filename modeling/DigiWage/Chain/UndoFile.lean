import DigiWage.Chain.BlockFiles
import DigiWage.Coins.Size
import DigiWage.Coins.View
import DigiWage.Hash
import DigiWage.Lib.Overwrite
import Mathlib.Data.Nat.Bitwise

/-!
# The undo files

`CBlockUndo::WriteToDisk` and `CBlockUndo::ReadFromDisk` of `main.cpp`, and the serialization of undo data of `undo.h`. A file is the
list of its bytes; reading and writing in a file that was opened do not fail.

* `CTxInUndo.unserialize_serialize`: the code of an entry holds its height and the two flags, and tells whether a version follows.
* `getVectorSize_undo`: the sizes that `CTxInUndo::GetSerializeSize` counts make up the size of undo data.
-/

namespace DigiWage

open Lib

variable {env : PubKeyEnv}

/-! ## Entries -/

namespace CTxInUndo

/-- The version of an entry that has a height; the others keep that of `CTxInUndo()`. -/
def readVersion (nHeight : Nat) (s : Stream) : Option (Nat × Stream) := if 0 < nHeight then readVarInt 32 s else some (0, s)

/-- `CTxInUndo::Unserialize` into a `CTxInUndo()`. -/
def unserialize (env : PubKeyEnv) (s : Stream) : Option (CTxInUndo × Stream) := do
  let (nCode, s) ← readVarInt 32 s
  let nHeight := nCode >>> 2
  let fCoinBase := nCode &&& 2 != 0
  let fCoinStake := nCode &&& 1 != 0
  let (nVersion, s) ← readVersion nHeight s
  let (txout, s) ← CTxOutCompressor.unserialize env s
  some (⟨txout, fCoinBase, fCoinStake, UInt32.ofNat nHeight, Int32.ofInt nVersion⟩, s)

/-- The ranges of an entry. Where it has no height, the rest is as in a `CTxInUndo()`. -/
structure InRange (u : CTxInUndo) : Prop where
  height : u.nHeight.toNat < 2 ^ 30
  version : 0 ≤ u.nVersion.toInt
  noHeight : u.nHeight = 0 → u.fCoinBase = false ∧ u.fCoinStake = false ∧ u.nVersion = 0
  nonneg : 0 ≤ u.txout.nValue
  le_max : u.txout.nValue ≤ CTxOutCompressor.maxMoney
  script_le : u.txout.scriptPubKey.bytes.length ≤ CScript.maxScriptSize

/-- An entry that the format can carry: it does not hold the rounds of the output. -/
structure Carried (u : CTxInUndo) : Prop extends InRange u where
  nRounds : u.txout.nRounds = CTxOut.null.nRounds

variable {u : CTxInUndo}

theorem Carried.txout (h : u.Carried) : CTxOutCompressor.Carried u.txout := ⟨h.nonneg, h.le_max, h.script_le, h.nRounds⟩

theorem Carried.nCode_spec (h : u.Carried) : u.nCode < 2 ^ 32 ∧ u.nCode >>> 2 = u.nHeight.toNat ∧
    (u.nCode &&& 2 != 0) = u.fCoinBase ∧ (u.nCode &&& 1 != 0) = u.fCoinStake := by
  have hheight := h.height
  have hcode : u.nCode = u.nHeight.toNat * 4 + (u.fCoinBase.toNat * 2 + u.fCoinStake.toNat) := by
    unfold nCode
    cases u.fCoinBase <;> cases u.fCoinStake <;>
      simp only [Bool.toNat_true, Bool.toNat_false, if_true, if_false, Bool.false_eq_true] <;> omega
  have hbase := Bool.toNat_le u.fCoinBase
  have hstake := Bool.toNat_le u.fCoinStake
  have h2 : u.nCode &&& 2 = (u.nCode.testBit 1).toNat * 2 := Nat.and_two_pow u.nCode 1
  have h1 : u.nCode &&& 1 = (u.nCode.testBit 0).toNat * 1 := Nat.and_two_pow u.nCode 0
  refine ⟨by omega, ?_, ?_, ?_⟩
  · rw [Nat.shiftRight_eq_div_pow]
    omega
  · have hbit : u.nCode.testBit 1 = u.fCoinBase := by
      rw [Nat.testBit_eq_decide_div_mod_eq, hcode]
      cases u.fCoinBase <;> cases u.fCoinStake <;>
        simp only [Bool.toNat_true, Bool.toNat_false, decide_eq_true_eq, decide_eq_false_iff_not] <;> omega
    rw [h2, hbit]
    cases u.fCoinBase <;> rfl
  · have hbit : u.nCode.testBit 0 = u.fCoinStake := by
      rw [Nat.testBit_eq_decide_div_mod_eq, hcode]
      cases u.fCoinBase <;> cases u.fCoinStake <;>
        simp only [Bool.toNat_true, Bool.toNat_false, decide_eq_true_eq, decide_eq_false_iff_not] <;> omega
    rw [h1, hbit]
    cases u.fCoinStake <;> rfl

theorem readVersion_write (h : u.Carried) (s : Stream) :
    readVersion u.nHeight.toNat ((if 0 < u.nHeight then writeVarInt u.nVersion.toInt else []) ++ s) =
      some (u.nVersion.toInt.toNat, s) := by
  have hnat : 0 < u.nHeight ↔ 0 < u.nHeight.toNat := UInt32.lt_iff_toNat_lt
  unfold readVersion
  by_cases hpos : 0 < u.nHeight
  · rw [if_pos (hnat.mp hpos), if_pos hpos, ← Int.toNat_of_nonneg h.version]
    exact readVarInt_write _ (CCoins.toNat_lt _) _
  · have hzero : u.nHeight = 0 := UInt32.toNat_inj.mp (Nat.eq_zero_of_not_pos fun hlt => hpos (hnat.mpr hlt))
    rw [if_neg fun hlt => hpos (hnat.mpr hlt), if_neg hpos, (h.noHeight hzero).2.2]
    rfl

theorem unserialize_serialize (henv : env.Inverts) (h : u.Carried) (s : Stream) :
    unserialize env (u.serialize env ++ s) = some (u, s) := by
  obtain ⟨hlt, hheight, hbase, hstake⟩ := h.nCode_spec
  rw [unserialize, serialize, List.append_assoc, readVarInt_write _ hlt]
  simp only [Option.bind_eq_bind, Option.bind_some, hheight, hbase, hstake, UInt32.ofNat_toNat, List.append_assoc,
    readVersion_write h, CTxOutCompressor.unserialize_serialize henv h.txout, CCoins.ofInt_toNat h.version]

end CTxInUndo

/-! ## Blocks -/

namespace CBlockUndo

/-- `CBlockUndo::Serialize`: a vector of vectors of entries. -/
def serialize (env : PubKeyEnv) (undo : CBlockUndo) : List UInt8 := writeVector (writeVector (CTxInUndo.serialize env)) undo

def unserialize (env : PubKeyEnv) (s : Stream) : Option (CBlockUndo × Stream) :=
  readVector (readVector (CTxInUndo.unserialize env)) s

/-- `CBlockUndo::GetSerializeSize`: a `CSizeComputer` counts what `SerializationOp` writes. -/
def getSerializeSize (env : PubKeyEnv) (undo : CBlockUndo) : Nat := (serialize env undo).length

/-- The checksum of undo data: the hash of the previous block is hashed with it. -/
def checksum (env : PubKeyEnv) (hashBlock : Uint256) (undo : CBlockUndo) : Uint256 :=
  hash256 (writeUint256 hashBlock ++ serialize env undo)

/-- Undo data that the format can carry. -/
structure Carried (undo : CBlockUndo) : Prop where
  size : undo.length ≤ MAX_SIZE
  size_vprevout : ∀ tx ∈ undo, tx.length ≤ MAX_SIZE
  entry : ∀ tx ∈ undo, ∀ u ∈ tx, u.Carried

variable {undo : CBlockUndo}

theorem unserialize_serialize (henv : env.Inverts) (h : Carried undo) (s : Stream) :
    unserialize env (serialize env undo ++ s) = some (undo, s) := by
  apply readVector_write h.size
  intro tx htx s
  apply readVector_write (h.size_vprevout tx htx)
  intro u hu s
  exact CTxInUndo.unserialize_serialize henv (h.entry tx htx u hu) s

end CBlockUndo

/-! ## Files -/

/-- The undo files that are there, by their number. -/
abbrev UndoFiles := Nat → Option (List UInt8)

/-- `CAutoFile`: an open file, and the place in it. -/
structure CAutoFile where
  file : List UInt8
  offset : Nat

def CAutoFile.write (f : CAutoFile) (data : List UInt8) : CAutoFile :=
  ⟨overwrite 0 f.file f.offset data, f.offset + data.length⟩

/-- What is read from a file on. -/
def CAutoFile.stream (f : CAutoFile) : Stream := f.file.drop f.offset

/-- `OpenUndoFile`: a file that is not there is made, except for reading. -/
def openUndoFile (files : UndoFiles) (pos : CDiskBlockPos) (fReadOnly : Bool) : Option CAutoFile :=
  match files pos.nFile with
  | some file => some ⟨file, pos.nPos.toNat⟩
  | none => if fReadOnly then none else some ⟨[], pos.nPos.toNat⟩

/-- What `ReadFromDisk` fails with. -/
inductive UndoError where
  | openFailed | deserialize | checksumMismatch
deriving DecidableEq, Repr

namespace CBlockUndo

/-- `CBlockUndo::WriteToDisk`: the files after it, and the place of the data behind the header. -/
def writeToDisk (env : PubKeyEnv) (pchMessageStart : Vector UInt8 4) (files : UndoFiles) (pos : CDiskBlockPos) (hashBlock : Uint256)
    (undo : CBlockUndo) : Option (UndoFiles × CDiskBlockPos) := do
  let fileout ← openUndoFile files pos false
  -- the size is an `unsigned int` in the header
  let nSize := undo.getSerializeSize env % 2 ^ 32
  let fileout := (fileout.write pchMessageStart.toList).write (leBytes 4 nSize)
  let fileOutPos := fileout.offset
  let fileout := fileout.write (undo.serialize env)
  let fileout := fileout.write (writeUint256 (undo.checksum env hashBlock))
  some (Function.update files pos.nFile (some fileout.file), { pos with nPos := UInt32.ofNat fileOutPos })

def readFromDisk (env : PubKeyEnv) (files : UndoFiles) (pos : CDiskBlockPos) (hashBlock : Uint256) : Except UndoError CBlockUndo :=
  match openUndoFile files pos true with
  | none => .error .openFailed
  | some filein =>
    match unserialize env filein.stream with
    | none => .error .deserialize
    | some (undo, s) =>
      match readUint256 s with
      | none => .error .deserialize
      | some (hashChecksum, _) => if hashChecksum ≠ undo.checksum env hashBlock then .error .checksumMismatch else .ok undo

end CBlockUndo

/-! ## Round trip -/

@[simp] theorem CAutoFile.write_write (f : CAutoFile) (a b : List UInt8) : (f.write a).write b = f.write (a ++ b) := by
  unfold CAutoFile.write
  rw [overwrite_append, List.length_append, Nat.add_assoc]

theorem openUndoFile_write (files : UndoFiles) (pos : CDiskBlockPos) :
    openUndoFile files pos false = some ⟨(files pos.nFile).getD [], pos.nPos.toNat⟩ := by
  unfold openUndoFile
  split
  · rename_i file hfile
    rw [hfile]
    rfl
  · rename_i hfile
    rw [hfile]
    rfl

namespace CBlockUndo

variable {pchMessageStart : Vector UInt8 4} {files : UndoFiles} {pos : CDiskBlockPos} {hashBlock : Uint256} {undo : CBlockUndo}

/-- The header: the start of a message, and the size. -/
def header (env : PubKeyEnv) (pchMessageStart : Vector UInt8 4) (undo : CBlockUndo) : List UInt8 :=
  pchMessageStart.toList ++ leBytes 4 (undo.getSerializeSize env % 2 ^ 32)

/-- What comes behind the header. -/
def body (env : PubKeyEnv) (hashBlock : Uint256) (undo : CBlockUndo) : List UInt8 :=
  undo.serialize env ++ writeUint256 (undo.checksum env hashBlock)

theorem length_header (env : PubKeyEnv) (pchMessageStart : Vector UInt8 4) (undo : CBlockUndo) :
    (undo.header env pchMessageStart).length = 8 := by
  rw [header, List.length_append, length_leBytes, Vector.length_toList]

theorem length_body (env : PubKeyEnv) (hashBlock : Uint256) (undo : CBlockUndo) :
    (undo.body env hashBlock).length = undo.getSerializeSize env + 32 := by
  rw [body, List.length_append, writeUint256, length_leBytes, getSerializeSize]

theorem writeToDisk_eq (env : PubKeyEnv) (pchMessageStart : Vector UInt8 4) (files : UndoFiles) (pos : CDiskBlockPos)
    (hashBlock : Uint256) (undo : CBlockUndo) : undo.writeToDisk env pchMessageStart files pos hashBlock =
      some (Function.update files pos.nFile (some (overwrite 0 ((files pos.nFile).getD []) pos.nPos.toNat
        (undo.header env pchMessageStart ++ undo.body env hashBlock))),
        { pos with nPos := UInt32.ofNat (pos.nPos.toNat + 8) }) := by
  rw [writeToDisk, openUndoFile_write]
  simp only [Option.bind_eq_bind, Option.bind_some, CAutoFile.write_write]
  have hheader := length_header env pchMessageStart undo
  unfold header at hheader
  simp only [CAutoFile.write, hheader, header, body, List.append_assoc]

theorem readFromDisk_of_stream (henv : env.Inverts) (h : Carried undo) {f : CAutoFile} {rest : List UInt8}
    (hopen : openUndoFile files pos true = some f) (hstream : f.stream = undo.body env hashBlock ++ rest) :
    readFromDisk env files pos hashBlock = .ok undo := by
  rw [body, List.append_assoc] at hstream
  unfold readFromDisk
  rw [hopen]
  simp only [hstream, unserialize_serialize henv h, readUint256_write, ne_eq, not_true, if_false]

theorem openUndoFile_written (hpos : pos.nPos.toNat + 8 < 2 ^ 32) (file : List UInt8) :
    openUndoFile (Function.update files pos.nFile (some file)) { pos with nPos := UInt32.ofNat (pos.nPos.toNat + 8) } true =
      some ⟨file, pos.nPos.toNat + 8⟩ := by
  have hoffset : (UInt32.ofNat (pos.nPos.toNat + 8)).toNat = pos.nPos.toNat + 8 := by
    rw [UInt32.toNat_ofNat', Nat.mod_eq_of_lt hpos]
  rw [openUndoFile, Function.update_self]
  simp only [hoffset]

theorem stream_written (file : List UInt8) (offset : Nat) : ∃ rest, CAutoFile.stream
    ⟨overwrite 0 file offset (undo.header env pchMessageStart ++ undo.body env hashBlock), offset + 8⟩ =
      undo.body env hashBlock ++ rest := by
  have hlen := length_header env pchMessageStart undo
  have hne : undo.header env pchMessageStart ++ undo.body env hashBlock ≠ [] := by
    intro hnil
    rw [(List.append_eq_nil_iff.mp hnil).1] at hlen
    cases hlen
  refine ⟨file.drop (offset + (undo.header env pchMessageStart ++ undo.body env hashBlock).length), ?_⟩
  rw [CAutoFile.stream, ← List.drop_drop, drop_overwrite hne, List.append_assoc, List.drop_left' hlen]

/-- What `WriteToDisk` has written is read back, and it takes the size of the data and 40 bytes more. -/
def RoundTrips (env : PubKeyEnv) (pchMessageStart : Vector UInt8 4) (files : UndoFiles) (pos : CDiskBlockPos) (hashBlock : Uint256)
    (undo : CBlockUndo) : Prop :=
  ∃ files' pos' written, undo.writeToDisk env pchMessageStart files pos hashBlock = some (files', pos') ∧
    readFromDisk env files' pos' hashBlock = .ok undo ∧
    files' = Function.update files pos.nFile (some (overwrite 0 ((files pos.nFile).getD []) pos.nPos.toNat written)) ∧
    written.length = undo.getSerializeSize env + 40

theorem roundTrips_of_carried (henv : env.Inverts) (h : Carried undo) (hpos : pos.nPos.toNat + 8 < 2 ^ 32) :
    RoundTrips env pchMessageStart files pos hashBlock undo := by
  refine ⟨_, _, _, writeToDisk_eq env pchMessageStart files pos hashBlock undo, ?_, rfl, ?_⟩
  · obtain ⟨rest, hstream⟩ := @stream_written env pchMessageStart hashBlock undo ((files pos.nFile).getD []) pos.nPos.toNat
    apply readFromDisk_of_stream henv h _ hstream
    exact openUndoFile_written hpos _
  · rw [List.length_append, length_header, length_body]
    omega

theorem getVectorSize_undo (env : PubKeyEnv) (undo : CBlockUndo) :
    getVectorSize (getVectorSize (CTxInUndo.getSerializeSize env)) undo = undo.getSerializeSize env % 2 ^ 32 := by
  apply getVectorSize_eq
  intro tx _
  apply getVectorSize_eq
  intro u _
  exact u.getSerializeSize_eq env

/-- Undo data that the format can carry, written at a place that with the header has 32 bits, is read back; the functions that count
its size agree. -/
theorem undo_roundTrip (henv : env.Inverts) (h : Carried undo) (hpos : pos.nPos.toNat + 8 < 2 ^ 32) :
    RoundTrips env pchMessageStart files pos hashBlock undo ∧
      getVectorSize (getVectorSize (CTxInUndo.getSerializeSize env)) undo = undo.getSerializeSize env % 2 ^ 32 :=
  ⟨roundTrips_of_carried henv h hpos, getVectorSize_undo env undo⟩

/-- An entry with a height and a version, and one without. -/
def twoEntries : CBlockUndo :=
  [[⟨⟨5, ([0x51] : List UInt8), -10⟩, false, true, 203998, 1⟩, ⟨⟨0, ([] : List UInt8), -10⟩, false, false, 0, 0⟩], []]

theorem carried_twoEntries : Carried twoEntries := by
  refine ⟨by decide, by decide, ?_⟩
  intro tx htx u hu
  simp only [twoEntries, List.mem_cons, List.not_mem_nil, or_false] at htx
  rcases htx with rfl | rfl
  · simp only [List.mem_cons, List.not_mem_nil, or_false] at hu
    rcases hu with rfl | rfl
    · exact ⟨⟨by decide, by decide, by decide, by decide, by decide, by decide⟩, rfl⟩
    · exact ⟨⟨by decide, by decide, by decide, by decide, by decide, by decide⟩, rfl⟩
  · cases hu

/-- Written into a new file. -/
theorem undo_roundTrip_twoEntries :
    RoundTrips CCoins.generatorEnv (Vector.replicate 4 0) (fun _ => none) ⟨0, 0⟩ 0 twoEntries ∧
      getVectorSize (getVectorSize (CTxInUndo.getSerializeSize CCoins.generatorEnv)) twoEntries =
        twoEntries.getSerializeSize CCoins.generatorEnv % 2 ^ 32 :=
  undo_roundTrip CCoins.generatorEnv_inverts carried_twoEntries (by decide)

/-! ### What is not read back -/

theorem unserialize_of_roundTrips (hpos : pos.nPos.toNat + 8 < 2 ^ 32) (h : RoundTrips env pchMessageStart files pos hashBlock undo) :
    ∃ rest s, unserialize env (undo.serialize env ++ rest) = some (undo, s) := by
  obtain ⟨files', pos', written, hwrite, hread, -, -⟩ := h
  rw [writeToDisk_eq] at hwrite
  obtain ⟨rfl, rfl⟩ := Prod.mk.inj (Option.some.inj hwrite)
  obtain ⟨rest, hstream⟩ := @stream_written env pchMessageStart hashBlock undo ((files pos.nFile).getD []) pos.nPos.toNat
  unfold readFromDisk at hread
  rw [openUndoFile_written hpos] at hread
  simp only [hstream] at hread
  rw [body, List.append_assoc] at hread
  split at hread
  · cases hread
  · rename_i undo' s hundo
    split at hread
    · cases hread
    · split at hread
      · cases hread
      · cases hread
        exact ⟨_, s, hundo⟩

/-- One vector too long. -/
def longUndo : CBlockUndo := List.replicate (MAX_SIZE + 1) []

theorem not_roundTrips_longUndo :
    ¬ RoundTrips CCoins.generatorEnv (Vector.replicate 4 0) (fun _ => none) ⟨0, 0⟩ 0 longUndo := by
  intro h
  obtain ⟨rest, s, hread⟩ := unserialize_of_roundTrips (by decide) h
  have hlen : List.length longUndo = MAX_SIZE + 1 := List.length_replicate
  rw [unserialize, readVector, serialize, writeVector, hlen, List.append_assoc,
    readCompactSize_large (Nat.lt_succ_self _) (by decide)] at hread
  cases hread

/-- An output that has been given rounds. -/
def roundsUndo : CBlockUndo := [[⟨⟨0, ([] : List UInt8), 0⟩, false, false, 0, 0⟩]]

/-- What is read for it. -/
def noRoundsUndo : CBlockUndo := [[⟨⟨0, ([] : List UInt8), -10⟩, false, false, 0, 0⟩]]

theorem not_roundTrips_roundsUndo :
    ¬ RoundTrips CCoins.generatorEnv (Vector.replicate 4 0) (fun _ => none) ⟨0, 0⟩ 0 roundsUndo := by
  intro h
  have hcarried : Carried noRoundsUndo := by
    refine ⟨by decide, by decide, ?_⟩
    intro tx htx u hu
    rw [List.mem_singleton.mp htx] at hu
    rw [List.mem_singleton.mp hu]
    exact ⟨⟨by decide, by decide, by decide, by decide, by decide, by decide⟩, rfl⟩
  obtain ⟨rest, s, hread⟩ := unserialize_of_roundTrips (by decide) h
  have hsame : serialize CCoins.generatorEnv roundsUndo = serialize CCoins.generatorEnv noRoundsUndo := rfl
  rw [hsame, unserialize_serialize CCoins.generatorEnv_inverts hcarried] at hread
  have heq : noRoundsUndo = roundsUndo := (Prod.mk.inj (Option.some.inj hread)).1
  exact absurd heq (by decide)

theorem unserialize_large {file : List UInt8} (h : file.take 9 = (writeCompactSize (2 ^ 64 - 1)).take 9) :
    unserialize env (CAutoFile.stream ⟨file, 0⟩) = none := by
  have hsplit : file = writeCompactSize (2 ^ 64 - 1) ++ file.drop 9 := by
    have hall : (writeCompactSize (2 ^ 64 - 1)).take 9 = writeCompactSize (2 ^ 64 - 1) := by decide
    rw [← hall, ← h, List.take_append_drop]
  rw [CAutoFile.stream, List.drop_zero, hsplit, unserialize, readVector, readCompactSize_large (by decide) (by decide)]
  rfl

theorem not_roundTrips_of_wrap (hpos : pos.nPos.toNat + 8 = 2 ^ 32) (hfile : files pos.nFile = some (writeCompactSize (2 ^ 64 - 1))) :
    ¬ RoundTrips env pchMessageStart files pos hashBlock undo := by
  rintro ⟨files', pos', written, hwrite, hread, -, -⟩
  have hoffset : (UInt32.ofNat (pos.nPos.toNat + 8)).toNat = 0 := by
    rw [hpos]
    rfl
  have hlen : (writeCompactSize (2 ^ 64 - 1)).length = 9 := by decide
  have hstart := @take_overwrite UInt8 0 (writeCompactSize (2 ^ 64 - 1))
    (undo.header env pchMessageStart ++ undo.body env hashBlock) pos.nPos.toNat 9 (by omega) hlen.ge
  rw [writeToDisk_eq, hfile, Option.getD_some] at hwrite
  obtain ⟨rfl, rfl⟩ := Prod.mk.inj (Option.some.inj hwrite)
  unfold readFromDisk at hread
  rw [openUndoFile, Function.update_self] at hread
  simp only [hoffset, unserialize_large hstart] at hread
  cases hread

/-- A file that begins with a size that is refused. -/
def largeFile : UndoFiles := fun _ => some (writeCompactSize (2 ^ 64 - 1))

/-- Each of the entries is in range; what was written is not read back. -/
theorem undo_not_roundTrip :
    ((∀ tx ∈ longUndo, ∀ u ∈ tx, u.InRange) ∧
      ¬ RoundTrips CCoins.generatorEnv (Vector.replicate 4 0) (fun _ => none) ⟨0, 0⟩ 0 longUndo) ∧
    ((∀ tx ∈ roundsUndo, ∀ u ∈ tx, u.InRange) ∧
      ¬ RoundTrips CCoins.generatorEnv (Vector.replicate 4 0) (fun _ => none) ⟨0, 0⟩ 0 roundsUndo) ∧
    ¬ RoundTrips CCoins.generatorEnv (Vector.replicate 4 0) largeFile ⟨0, 0xfffffff8⟩ 0 [] := by
  refine ⟨⟨?_, not_roundTrips_longUndo⟩, ⟨?_, not_roundTrips_roundsUndo⟩, not_roundTrips_of_wrap (by decide) rfl⟩
  · intro tx htx u hu
    rw [List.eq_of_mem_replicate htx] at hu
    cases hu
  · intro tx htx u hu
    rw [List.mem_singleton.mp htx] at hu
    rw [List.mem_singleton.mp hu]
    exact ⟨by decide, by decide, by decide, by decide, by decide, by decide⟩

end CBlockUndo

end DigiWage
