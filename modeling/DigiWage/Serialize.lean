import DigiWage.Primitives
import DigiWage.Lib.Bytes
import Mathlib.Tactic.NormNum

/-!
# Streams

Reading from a stream of bytes, and the encodings of `serialize.h` for integers, sizes and vectors. A stream is the list
of the bytes still to be read, and a reader returns `none` where the stream throws.

Each writer has one reading lemma, of the same form: reading what was written, followed by any bytes, gives the value
back and leaves these bytes (`readUInt_write`, `readCompactSize_write`, `readVector_write`). Each reader has an inversion lemma: the
bytes that it has taken are those that are written for the value (`readUInt_eq_some`, `readCompactSize_eq_some`,
`readVector_eq_some`).
-/

namespace DigiWage

open Lib

/-- A stream being read. -/
abbrev Stream := List UInt8

/-- `Stream::read`: the next `n` bytes, `none` at the end of the data. -/
def Stream.read (n : Nat) (s : Stream) : Option (List UInt8 × Stream) :=
  if s.length < n then none else some (s.take n, s.drop n)

theorem Stream.read_append (l s : List UInt8) {n : Nat} (h : l.length = n) : Stream.read n (l ++ s) = some (l, s) := by
  subst h
  simp [Stream.read]

theorem Stream.read_eq_some {n : Nat} {l : List UInt8} {s s' : Stream} (h : Stream.read n s = some (l, s')) :
    l.length = n ∧ s = l ++ s' := by
  unfold Stream.read at h
  split at h
  · cases h
  · obtain ⟨rfl, rfl⟩ := Prod.mk.inj (Option.some.inj h)
    exact ⟨List.length_take_of_le (by omega), (List.take_append_drop n s).symm⟩

/-! ## Integers -/

/-- `READDATA` of an unsigned integer of `k` bytes. -/
def readUInt (k : Nat) (s : Stream) : Option (Nat × Stream) := (s.read k).map fun r => (ofLeBytes r.1, r.2)

/-- What `WRITEDATA` writes, `READDATA` reads. -/
theorem readUInt_write {k n : Nat} (h : n < 256 ^ k) (s : Stream) : readUInt k (leBytes k n ++ s) = some (n, s) := by
  rw [readUInt, Stream.read_append _ _ (length_leBytes k n), Option.map_some, ofLeBytes_leBytes_of_lt h]

theorem readUInt_eq_some {k n : Nat} {s s' : Stream} (h : readUInt k s = some (n, s')) : n < 256 ^ k ∧ s = leBytes k n ++ s' := by
  obtain ⟨⟨l, r⟩, hread, heq⟩ := Option.map_eq_some_iff.mp h
  obtain ⟨rfl, rfl⟩ := Prod.mk.inj heq
  obtain ⟨rfl, rfl⟩ := Stream.read_eq_some hread
  exact ⟨ofLeBytes_lt l, by rw [leBytes_ofLeBytes]⟩

/-- The four bytes of an `int`. -/
def writeInt32 (x : Int32) : List UInt8 := leBytes 4 x.toUInt32.toNat

/-- An `int` of four bytes. -/
def readInt32 (s : Stream) : Option (Int32 × Stream) := (readUInt 4 s).map fun r => ((UInt32.ofNat r.1).toInt32, r.2)

/-- The eight bytes of an `int64_t`. -/
def writeInt64 (x : Int64) : List UInt8 := leBytes 8 x.toUInt64.toNat

/-- An `int64_t` of eight bytes. -/
def readInt64 (s : Stream) : Option (Int64 × Stream) := (readUInt 8 s).map fun r => ((UInt64.ofNat r.1).toInt64, r.2)

theorem readInt32_write (x : Int32) (s : Stream) : readInt32 (writeInt32 x ++ s) = some (x, s) := by
  have hlt : x.toUInt32.toNat < 256 ^ 4 := x.toUInt32.toNat_lt
  rw [readInt32, writeInt32, readUInt_write hlt, Option.map_some, UInt32.ofNat_toNat, Int32.toInt32_toUInt32]

theorem readInt64_write (x : Int64) (s : Stream) : readInt64 (writeInt64 x ++ s) = some (x, s) := by
  have hlt : x.toUInt64.toNat < 256 ^ 8 := x.toUInt64.toNat_lt
  rw [readInt64, writeInt64, readUInt_write hlt, Option.map_some, UInt64.ofNat_toNat, Int64.toInt64_toUInt64]

theorem readInt32_eq_some {x : Int32} {s s' : Stream} (h : readInt32 s = some (x, s')) : s = writeInt32 x ++ s' := by
  obtain ⟨⟨n, r⟩, hread, heq⟩ := Option.map_eq_some_iff.mp h
  obtain ⟨rfl, rfl⟩ := Prod.mk.inj heq
  obtain ⟨hlt, hs⟩ := readUInt_eq_some hread
  rw [hs, writeInt32, UInt32.toUInt32_toInt32, UInt32.toNat_ofNat', Nat.mod_eq_of_lt (show n < 2 ^ 32 from hlt)]

theorem readInt64_eq_some {x : Int64} {s s' : Stream} (h : readInt64 s = some (x, s')) : s = writeInt64 x ++ s' := by
  obtain ⟨⟨n, r⟩, hread, heq⟩ := Option.map_eq_some_iff.mp h
  obtain ⟨rfl, rfl⟩ := Prod.mk.inj heq
  obtain ⟨hlt, hs⟩ := readUInt_eq_some hread
  rw [hs, writeInt64, UInt64.toUInt64_toInt64, UInt64.toNat_ofNat', Nat.mod_eq_of_lt (show n < 2 ^ 64 from hlt)]

/-- A byte. -/
def readUInt8 : Stream → Option (UInt8 × Stream)
  | [] => none
  | b :: s => some (b, s)

/-- `base_blob::Serialize`: the 32 bytes of a hash. -/
def writeUint256 (h : Uint256) : List UInt8 := leBytes 32 h.toNat

/-- `base_blob::Unserialize`. -/
def readUint256 (s : Stream) : Option (Uint256 × Stream) := (readUInt 32 s).map fun r => (BitVec.ofNat 256 r.1, r.2)

theorem readUint256_write (h : Uint256) (s : Stream) : readUint256 (writeUint256 h ++ s) = some (h, s) := by
  have hlt : h.toNat < 256 ^ 32 := h.isLt
  rw [readUint256, writeUint256, readUInt_write hlt, Option.map_some, BitVec.ofNat_toNat, BitVec.setWidth_eq]

theorem readUint256_eq_some {h : Uint256} {s s' : Stream} (heq : readUint256 s = some (h, s')) : s = writeUint256 h ++ s' := by
  obtain ⟨⟨n, r⟩, hread, heq⟩ := Option.map_eq_some_iff.mp heq
  obtain ⟨rfl, rfl⟩ := Prod.mk.inj heq
  obtain ⟨hlt, hs⟩ := readUInt_eq_some hread
  rw [hs, writeUint256, BitVec.toNat_ofNat, Nat.mod_eq_of_lt (show n < 2 ^ 256 from hlt)]

/-! ## Sizes -/

def MAX_SIZE : Nat := 0x02000000

def writeCompactSize (nSize : Nat) : List UInt8 :=
  if nSize < 253 then leBytes 1 nSize
  else if nSize ≤ 0xffff then leBytes 1 253 ++ leBytes 2 nSize
  else if nSize ≤ 0xffffffff then leBytes 1 254 ++ leBytes 4 nSize
  else leBytes 1 255 ++ leBytes 8 nSize

def getSizeOfCompactSize (nSize : Nat) : Nat :=
  if nSize < 253 then 1 else if nSize ≤ 0xffff then 3 else if nSize ≤ 0xffffffff then 5 else 9

theorem length_writeCompactSize (nSize : Nat) : (writeCompactSize nSize).length = getSizeOfCompactSize nSize := by
  unfold writeCompactSize getSizeOfCompactSize
  split_ifs <;> simp only [List.length_append, length_leBytes]

/-- The integer of `k` bytes that follows the first byte of a size; it throws below `least`, where a shorter form exists. -/
def readCanonical (k least : Nat) (s : Stream) : Option (Nat × Stream) := do
  let (xSize, s) ← readUInt k s
  if xSize < least then none else some (xSize, s)

def readCompactSize (s : Stream) : Option (Nat × Stream) := do
  let (chSize, s) ← readUInt 1 s
  let (nSizeRet, s) ←
    if chSize < 253 then some (chSize, s)
    else if chSize = 253 then readCanonical 2 253 s
    else if chSize = 254 then readCanonical 4 0x10000 s
    else readCanonical 8 0x100000000 s
  if MAX_SIZE < nSizeRet then none else some (nSizeRet, s)

theorem readCanonical_write {k least n : Nat} (hlt : n < 256 ^ k) (hleast : least ≤ n) (s : Stream) :
    readCanonical k least (leBytes k n ++ s) = some (n, s) := by
  simp [readCanonical, readUInt_write hlt, hleast]

theorem readCompactSize_write {n : Nat} (h : n ≤ MAX_SIZE) (s : Stream) :
    readCompactSize (writeCompactSize n ++ s) = some (n, s) := by
  have hmax : n ≤ 0x02000000 := h
  unfold readCompactSize writeCompactSize
  split
  · rename_i hsmall
    rw [readUInt_write (by omega)]
    simp [hsmall, h]
  split
  · rename_i hsmall hshort
    rw [List.append_assoc, readUInt_write (by norm_num)]
    simp [@readCanonical_write 2 253 n (by omega) (by omega), h]
  · rename_i hsmall hshort
    rw [if_pos (by omega), List.append_assoc, readUInt_write (by norm_num)]
    simp [@readCanonical_write 4 0x10000 n (by omega) (by omega), h]

theorem readCompactSize_large {n : Nat} (hmax : MAX_SIZE < n) (hlt : n < 2 ^ 64) (s : Stream) :
    readCompactSize (writeCompactSize n ++ s) = none := by
  have hmax' : 0x02000000 < n := hmax
  unfold readCompactSize writeCompactSize
  rw [if_neg (by omega), if_neg (by omega)]
  split
  · rw [List.append_assoc, readUInt_write (by norm_num)]
    simp [@readCanonical_write 4 0x10000 n (by omega) (by omega), hmax]
  · rw [List.append_assoc, readUInt_write (by norm_num)]
    simp [@readCanonical_write 8 0x100000000 n (by omega) (by omega), hmax]

theorem readCanonical_eq_some {k least n : Nat} {s s' : Stream} (h : readCanonical k least s = some (n, s')) :
    least ≤ n ∧ n < 256 ^ k ∧ s = leBytes k n ++ s' := by
  obtain ⟨⟨m, r⟩, hread, h⟩ := Option.bind_eq_some_iff.mp h
  dsimp only at h
  split at h
  · cases h
  · obtain ⟨rfl, rfl⟩ := Prod.mk.inj (Option.some.inj h)
    obtain ⟨hlt, hs⟩ := readUInt_eq_some hread
    exact ⟨by omega, hlt, hs⟩

theorem readCompactSize_eq_some {n : Nat} {s s' : Stream} (h : readCompactSize s = some (n, s')) :
    n ≤ MAX_SIZE ∧ s = writeCompactSize n ++ s' := by
  have hlast : ∀ {x : Option (Nat × Stream)}, (x.bind fun r => if MAX_SIZE < r.1 then none else some (r.1, r.2)) = some (n, s') →
      n ≤ MAX_SIZE ∧ x = some (n, s') := by
    intro x hx
    obtain ⟨⟨m, r⟩, hsize, hx⟩ := Option.bind_eq_some_iff.mp hx
    split at hx
    · cases hx
    · rename_i hmax
      obtain ⟨rfl, rfl⟩ := Prod.mk.inj (Option.some.inj hx)
      exact ⟨Nat.le_of_not_lt hmax, hsize⟩
  obtain ⟨⟨c, s₁⟩, hfirst, h⟩ := Option.bind_eq_some_iff.mp h
  obtain ⟨hc, hs⟩ := readUInt_eq_some hfirst
  dsimp only at h
  split at h
  · rename_i hsmall
    obtain ⟨hmax, heq⟩ := hlast h
    obtain ⟨rfl, rfl⟩ := Prod.mk.inj (Option.some.inj heq)
    exact ⟨hmax, by rw [hs, writeCompactSize, if_pos hsmall]⟩
  · split at h
    · rename_i hfirst
      obtain ⟨hmax, heq⟩ := hlast h
      obtain ⟨hleast, hlt, hs₁⟩ := readCanonical_eq_some heq
      refine ⟨hmax, ?_⟩
      rw [hs, hs₁, writeCompactSize, if_neg (by omega), if_pos (by omega), hfirst, List.append_assoc]
    · split at h
      · rename_i hfirst
        obtain ⟨hmax, heq⟩ := hlast h
        obtain ⟨hleast, hlt, hs₁⟩ := readCanonical_eq_some heq
        refine ⟨hmax, ?_⟩
        rw [hs, hs₁, writeCompactSize, if_neg (by omega), if_neg (by omega), if_pos (by omega), hfirst, List.append_assoc]
      · obtain ⟨hmax, heq⟩ := hlast h
        obtain ⟨hleast, hlt, hs₁⟩ := readCanonical_eq_some heq
        refine ⟨hmax, ?_⟩
        rw [hs, hs₁, writeCompactSize, if_neg (by omega), if_neg (by omega), if_neg (by omega), show c = 255 by omega, List.append_assoc]

/-! ## Vectors -/

/-- The elements of a vector, `k` of them, read one after the other. -/
def readMany {α : Type} (read : Stream → Option (α × Stream)) : Nat → Stream → Option (List α × Stream)
  | 0, s => some ([], s)
  | k + 1, s => do
    let (a, s) ← read s
    let (v, s) ← readMany read k s
    some (a :: v, s)

/-- `Serialize` of a vector: its size, and its elements. -/
def writeVector {α : Type} (write : α → List UInt8) (v : List α) : List UInt8 :=
  writeCompactSize v.length ++ v.flatMap write

/-- `Unserialize` of a vector. -/
def readVector {α : Type} (read : Stream → Option (α × Stream)) (s : Stream) : Option (List α × Stream) := do
  let (nSize, s) ← readCompactSize s
  readMany read nSize s

section vector

variable {α : Type} {write : α → List UInt8} {read : Stream → Option (α × Stream)}

/-- `GetSerializeSize` of a vector, an `unsigned int`, from the sizes of its elements. -/
def getVectorSize (size : α → Nat) (v : List α) : Nat := (getSizeOfCompactSize v.length + (v.map size).sum) % 2 ^ 32

theorem getVectorSize_eq {size : α → Nat} {v : List α} (h : ∀ a ∈ v, size a = (write a).length % 2 ^ 32) :
    getVectorSize size v = (writeVector write v).length % 2 ^ 32 := by
  have hsum : (v.map size).sum % 2 ^ 32 = (v.flatMap write).length % 2 ^ 32 := by
    rw [List.length_flatMap]
    induction v with
    | nil => rfl
    | cons a v ih =>
      have hrest := ih fun b hb => h b (List.mem_cons_of_mem a hb)
      have hfirst := h a List.mem_cons_self
      simp only [List.map_cons, List.sum_cons]
      omega
  rw [getVectorSize, writeVector, List.length_append, length_writeCompactSize]
  omega

theorem readMany_write (v : List α) (hrw : ∀ a ∈ v, ∀ s, read (write a ++ s) = some (a, s)) (s : Stream) :
    readMany read v.length (v.flatMap write ++ s) = some (v, s) := by
  induction v with
  | nil => rfl
  | cons a v ih =>
    have hrest := ih fun b hb => hrw b (List.mem_cons_of_mem a hb)
    rw [List.length_cons, List.flatMap_cons, List.append_assoc, readMany, hrw a List.mem_cons_self]
    simp [hrest]

theorem readVector_write {v : List α} (hlen : v.length ≤ MAX_SIZE)
    (hrw : ∀ a ∈ v, ∀ s, read (write a ++ s) = some (a, s)) (s : Stream) :
    readVector read (writeVector write v ++ s) = some (v, s) := by
  rw [readVector, writeVector, List.append_assoc, readCompactSize_write hlen]
  exact readMany_write v hrw s

theorem readMany_eq_some (hread : ∀ s a s', read s = some (a, s') → s = write a ++ s') : ∀ (k : Nat) {v : List α} {s s' : Stream},
    readMany read k s = some (v, s') → v.length = k ∧ s = v.flatMap write ++ s'
  | 0, v, s, s', h => by
    obtain ⟨rfl, rfl⟩ := Prod.mk.inj (Option.some.inj h)
    exact ⟨rfl, rfl⟩
  | k + 1, v, s, s', h => by
    obtain ⟨⟨a, s₁⟩, hfirst, h⟩ := Option.bind_eq_some_iff.mp h
    obtain ⟨⟨w, s₂⟩, hrest, h⟩ := Option.bind_eq_some_iff.mp h
    obtain ⟨rfl, rfl⟩ := Prod.mk.inj (Option.some.inj h)
    obtain ⟨hlen, hs⟩ := readMany_eq_some hread k hrest
    exact ⟨congrArg (· + 1) hlen, by rw [hread _ _ _ hfirst, hs, List.flatMap_cons, List.append_assoc]⟩

theorem readVector_eq_some (hread : ∀ s a s', read s = some (a, s') → s = write a ++ s') {v : List α} {s s' : Stream}
    (h : readVector read s = some (v, s')) : v.length ≤ MAX_SIZE ∧ s = writeVector write v ++ s' := by
  obtain ⟨⟨n, s₁⟩, hsize, h⟩ := Option.bind_eq_some_iff.mp h
  obtain ⟨hmax, hs⟩ := readCompactSize_eq_some hsize
  dsimp only at h
  obtain ⟨hlen, hs₁⟩ := readMany_eq_some hread n h
  rw [writeVector, hlen, hs, hs₁, List.append_assoc]
  exact ⟨hmax, rfl⟩

end vector

end DigiWage
