import DigiWage.Net.AddrMan

/-!
# The file of the address manager

`CAddrMan::Serialize` and `CAddrMan::Unserialize` of `addrman.h`. The entries are numbered in the order of their ids, those
with a reference first and then the tried ones; the "new" table is written as the numbers of the entries of each bucket, and
the "tried" table is found again from the addresses. `Serialize` returns `none` where an assertion fails, and `Unserialize`
where the stream throws or an assertion of `Delete` fails.
-/

namespace DigiWage.Net

open Lib

namespace CAddrMan

/-! ## Writing -/

section write

variable (k : StreamKind) (m : CAddrMan)

/-- The variables of the first loop of `Serialize`, and what it has written. -/
structure Written where
  nIds : Int
  mapUnkIds : Int → Int
  bytes : List UInt8

/-- One round of the loop of `Serialize` that numbers the entries and writes those with a reference. -/
def writeNew (w : Written) (n : Int) : Option Written :=
  let mapUnkIds := Function.update w.mapUnkIds n w.nIds
  if (m.info n).nRefCount ≠ 0 then
    if w.nIds ≠ m.nNew then some ⟨w.nIds + 1, mapUnkIds, w.bytes ++ (m.info n).serialize k⟩ else none
  else some { w with mapUnkIds }

/-- One round of the loop that writes the tried entries. -/
def writeTried (w : Written) (n : Int) : Option Written :=
  if (m.info n).fInTried then
    if w.nIds ≠ m.nTried then some { w with nIds := w.nIds + 1, bytes := w.bytes ++ (m.info n).serialize k } else none
  else some w

/-- The positions of a "new" bucket that have an entry. -/
def occupied (bucket : Fin 1024) : List (Fin 64) := (List.finRange 64).filter fun i => m.vvNew (bucket, i) ≠ -1

/-- A bucket: the number of its entries, and their indices. -/
def writeBucket (mapUnkIds : Int → Int) (bucket : Fin 1024) : List UInt8 :=
  writeInt32 (Int32.ofNat (m.occupied bucket).length) ++
    (m.occupied bucket).flatMap fun i => writeInt32 (Int32.ofInt (mapUnkIds (m.vvNew (bucket, i))))

def serialize : Option (List UInt8) := do
  let new ← m.ids.foldlM (writeNew k m) ⟨0, fun _ => 0, []⟩
  let tried ← m.ids.foldlM (writeTried k m) { new with nIds := 0, bytes := [] }
  some ([1, 32] ++ (writeUint256 m.nKey ++ (writeInt32 (Int32.ofInt m.nNew) ++ (writeInt32 (Int32.ofInt m.nTried) ++
    (writeInt32 (1024 ^^^ 1073741824) ++ (new.bytes ++ (tried.bytes ++
      newBuckets.flatMap (m.writeBucket new.mapUnkIds))))))))

end write

/-! ## Reading -/

section read

variable (env : AddrEnv) (k : StreamKind)

/-- One round of the loop of `Unserialize` over the new entries, for the id `n`. Where the table that follows is not
`usable`, the entry is put into the bucket of its source at once. -/
def readNew (usable : Bool) (n : Int) (m : CAddrMan) (s : Stream) : Option (CAddrMan × Stream) := do
  let (info, s) ← (m.info n).unserialize k s
  let m := m.append n info
  let p := m.newPlace env n info.source
  some (if ¬ usable ∧ m.vvNew p = -1 then (m.setNew p n).modify n fun i => { i with nRefCount := i.nRefCount + 1 } else m, s)

/-- The loop over the new entries, `count` of them from the id `n` on. -/
def readNews (usable : Bool) : Nat → Int → CAddrMan → Stream → Option (CAddrMan × Stream)
  | 0, _, m, s => some (m, s)
  | count + 1, n, m, s => do
    let (m, s) ← readNew env k usable n m s
    readNews usable count (n + 1) m s

/-- One round of the loop over the tried entries; an entry whose place is taken is lost. -/
def readTried (m : CAddrMan) (nLost : Int) (s : Stream) : Option (CAddrMan × Int × Stream) := do
  let (info, s) ← (default : CAddrInfo).unserialize k s
  let nKBucket := CAddrInfo.getTriedBucket env m.nKey info.toCService
  let q : TriedPlace := (nKBucket, CAddrInfo.getBucketPosition env m.nKey false nKBucket info.toCService)
  if m.vvTried q = -1 then
    some (((m.append m.nIdCount { info with fInTried := true }).setTried q m.nIdCount).nextId, nLost, s)
  else some (m, nLost + 1, s)

/-- The loop over the tried entries. -/
def readTrieds : Nat → CAddrMan → Int → Stream → Option (CAddrMan × Int × Stream)
  | 0, m, nLost, s => some (m, nLost, s)
  | count + 1, m, nLost, s => do
    let (m, nLost, s) ← readTried env k m nLost s
    readTrieds count m nLost s

/-- An index that a bucket gives: the entry is put into the bucket, where its place is empty. -/
def restore (usable : Bool) (bucket : Nat) (m : CAddrMan) (nIndex : Int) : CAddrMan :=
  if 0 ≤ nIndex ∧ nIndex < m.nNew then
    let p := m.placeIn env nIndex (Fin.ofNat 1024 bucket)
    if usable ∧ m.vvNew p = -1 ∧ (m.info nIndex).nRefCount < 8 then
      (m.modify nIndex fun i => { i with nRefCount := i.nRefCount + 1 }).setNew p nIndex
    else m
  else m

/-- The loop over the indices of a bucket. -/
def readIndices (usable : Bool) (bucket : Nat) : Nat → CAddrMan → Stream → Option (CAddrMan × Stream)
  | 0, m, s => some (m, s)
  | nSize + 1, m, s => do
    let (nIndex, s) ← readInt32 s
    readIndices usable bucket nSize (m.restore env usable bucket nIndex.toInt) s

/-- The loop over the buckets, `count` of them from `bucket` on. -/
def readBuckets (usable : Bool) : Nat → Nat → CAddrMan → Stream → Option (CAddrMan × Stream)
  | 0, _, m, s => some (m, s)
  | count + 1, bucket, m, s => do
    let (nSize, s) ← readInt32 s
    let (m, s) ← readIndices env usable bucket nSize.toInt.toNat m s
    readBuckets usable count (bucket + 1) m s

/-- One round of the loop that prunes the new entries without a reference. -/
def prune (m : CAddrMan) (n : Int) : Option CAddrMan :=
  if (m.info n).fInTried = false ∧ (m.info n).nRefCount = 0 then m.delete n else some m

/-- `Unserialize` into the manager `m`, with the key that `Clear` draws. -/
def unserialize (randHash : Uint256) (m : CAddrMan) (s : Stream) : Option (CAddrMan × Stream) := do
  let m := m.clear randHash
  let (nVersion, s) ← readUInt8 s
  let (nKeySize, s) ← readUInt8 s
  if nKeySize ≠ 32 then none
  else
    let (nKey, s) ← readUint256 s
    let (nNew, s) ← readInt32 s
    let (nTried, s) ← readInt32 s
    let (nUBuckets, s) ← readInt32 s
    let nUBuckets := if nVersion ≠ 0 then nUBuckets ^^^ 1073741824 else nUBuckets
    let usable := nVersion == 1 && nUBuckets == 1024
    let m := { m with nKey, nNew := nNew.toInt, nTried := nTried.toInt }
    let (m, s) ← readNews env k usable m.nNew.toNat 0 m s
    let m := { m with nIdCount := m.nNew }
    let (m, nLost, s) ← readTrieds env k m.nTried.toNat m 0 s
    let m := m.addTried (-nLost)
    let (m, s) ← readBuckets env usable nUBuckets.toInt.toNat 0 m s
    let m ← m.ids.foldlM prune m
    some (m, s)

end read

end CAddrMan

end DigiWage.Net
