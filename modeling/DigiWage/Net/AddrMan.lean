import DigiWage.Net.Address
import Mathlib.Data.Finmap
import Mathlib.Data.Finset.Sort
import Mathlib.Data.Fintype.Prod

/-!
# The address manager

`CAddrMan` of `addrman.h` and `addrman.cpp`: the addresses of peers by id, the index of the ids by address, the vector of
all ids in random order, and the two tables of buckets, "new" and "tried". The hash that spreads addresses over the
buckets is a parameter. An operation returns `none` where an assertion fails; `mapInfo[n]` with an id that is not there
gives a fresh entry, as `operator[]` does.
-/

namespace DigiWage.Net

open Lib

/-- The cheap hash of serialized data, `GetHash().GetCheapHash()`. -/
structure AddrEnv where
  cheapHash : List UInt8 → UInt64

structure CAddrInfo extends CAddress where
  nLastTry : Int64
  nLastCountAttempt : Int64
  source : CNetAddr
  nLastSuccess : Int64
  nAttempts : Int32
  nRefCount : Int
  fInTried : Bool
  nRandomPos : Int
deriving DecidableEq

namespace CAddrInfo

/-- `CAddrInfo(addrIn, addrSource)`. -/
def new (addrIn : CAddress) (addrSource : CNetAddr) : CAddrInfo := ⟨addrIn, 0, 0, addrSource, 0, 0, 0, false, -1⟩

/-- `CAddrInfo()`; `NODE_NETWORK` is the service bit of a fresh address. -/
instance : Inhabited CAddrInfo := ⟨new ⟨⟨default, 0⟩, 1, CAddress.initTime⟩ default⟩

/-- `SerializationOp`, writing. -/
def serialize (k : StreamKind) (info : CAddrInfo) : List UInt8 :=
  info.toCAddress.serialize k ++ (info.source.serialize ++ (writeInt64 info.nLastSuccess ++ writeInt32 info.nAttempts))

/-- `SerializationOp`, reading into `info`, which keeps its fields that are in memory only. -/
def unserialize (k : StreamKind) (info : CAddrInfo) (s : Stream) : Option (CAddrInfo × Stream) := do
  let (addr, s) ← CAddress.unserialize k s
  let (source, s) ← CNetAddr.unserialize s
  let (nLastSuccess, s) ← readInt64 s
  let (nAttempts, s) ← readInt32 s
  some ({ info with toCAddress := addr, source, nLastSuccess, nAttempts }, s)

def getTriedBucket (env : AddrEnv) (nKey : Uint256) (a : CService) : Fin 256 :=
  let hash1 := env.cheapHash (writeUint256 nKey ++ writeVector (fun b => [b]) a.getKey)
  let hash2 := env.cheapHash (writeUint256 nKey ++ (writeVector (fun b => [b]) a.getGroup ++ leBytes 8 (hash1.toNat % 8)))
  Fin.ofNat 256 hash2.toNat

instance : NeZero (1024 : Nat) := ⟨by decide⟩

def getNewBucket (env : AddrEnv) (nKey : Uint256) (a : CService) (src : CNetAddr) : Fin 1024 :=
  let vchSourceGroupKey := writeVector (fun b => [b]) src.getGroup
  let hash1 := env.cheapHash (writeUint256 nKey ++ (writeVector (fun b => [b]) a.getGroup ++ vchSourceGroupKey))
  let hash2 := env.cheapHash (writeUint256 nKey ++ (vchSourceGroupKey ++ leBytes 8 (hash1.toNat % 64)))
  Fin.ofNat 1024 hash2.toNat

/-- `GetBucketPosition`, with the letter `N` for a "new" bucket and `K` for a "tried" one. -/
def getBucketPosition (env : AddrEnv) (nKey : Uint256) (fNew : Bool) (nBucket : Nat) (a : CService) : Fin 64 :=
  let hash1 := env.cheapHash (writeUint256 nKey ++ ((if fNew then 78 else 75) :: (writeInt32 (Int32.ofNat nBucket) ++
    writeVector (fun b => [b]) a.getKey)))
  Fin.ofNat 64 hash1.toNat

def isTerrible (info : CAddrInfo) (nNow : Int64) : Bool :=
  let now := nNow.toInt
  let time : Int := info.nTime.toNat
  if info.nLastTry ≠ 0 ∧ now - 60 ≤ info.nLastTry.toInt then false
  else if now + 10 * 60 < time then true
  else if time = 0 ∨ 30 * 24 * 60 * 60 < now - time then true
  else if info.nLastSuccess = 0 ∧ 3 ≤ info.nAttempts.toInt then true
  else decide (7 * 24 * 60 * 60 < now - info.nLastSuccess.toInt ∧ 10 ≤ info.nAttempts.toInt)

end CAddrInfo

/-- The buckets of the "new" table. -/
def newBuckets : List (Fin 1024) := List.finRange 1024

/-- A place in the "new" table: a bucket and a position in it. -/
abbrev NewPlace := Fin 1024 × Fin 64

/-- A place in the "tried" table. -/
abbrev TriedPlace := Fin 256 × Fin 64

/-- `CAddrMan`. The entry `-1` of a table is an empty place. -/
structure CAddrMan where
  nIdCount : Int
  mapInfo : Finmap fun _ : Int => CAddrInfo
  mapAddr : Finmap fun _ : CNetAddr => Int
  vRandom : List Int
  nTried : Int
  vvTried : TriedPlace → Int
  nNew : Int
  vvNew : NewPlace → Int
  nLastGood : Int64
  nKey : Uint256

namespace CAddrMan

/-- `mapInfo[n]`. -/
def info (m : CAddrMan) (n : Int) : CAddrInfo := (m.mapInfo.lookup n).getD default

/-- A change of `mapInfo[n]`. -/
def modify (m : CAddrMan) (n : Int) (f : CAddrInfo → CAddrInfo) : CAddrMan :=
  { m with mapInfo := m.mapInfo.insert n (f (m.info n)) }

/-- The ids in the order in which `mapInfo` is iterated. -/
def ids (m : CAddrMan) : List Int := m.mapInfo.keys.sort (· ≤ ·)

/-- `Find`: the id of an address that has an entry. -/
def find (m : CAddrMan) (addr : CNetAddr) : Option Int :=
  (m.mapAddr.lookup addr).bind fun nId => if nId ∈ m.mapInfo then some nId else none

/-- An entry is put into `mapInfo` under the id `n`, into `mapAddr` and at the end of `vRandom`. -/
def append (m : CAddrMan) (n : Int) (info : CAddrInfo) : CAddrMan :=
  { m with
    mapInfo := m.mapInfo.insert n { info with nRandomPos := m.vRandom.length }
    mapAddr := m.mapAddr.insert info.toCNetAddr n
    vRandom := m.vRandom ++ [n] }

/-- `nIdCount++`, on an `int`. -/
def nextId (m : CAddrMan) : CAddrMan := { m with nIdCount := (m.nIdCount + 1).bmod (2 ^ 32) }

/-- `Create`: the id is `nIdCount`. -/
def create (m : CAddrMan) (addr : CAddress) (addrSource : CNetAddr) : CAddrMan :=
  (m.append m.nIdCount (CAddrInfo.new addr addrSource)).nextId

/-- `mapInfo[n].nRandomPos = pos`. -/
def setRandomPos (m : CAddrMan) (n : Int) (pos : Int) : CAddrMan := m.modify n fun info => { info with nRandomPos := pos }

/-- Another vector of the ids. -/
def setRandom (m : CAddrMan) (v : List Int) : CAddrMan := { m with vRandom := v }

/-- `SwapRandom`; a negative position is out of range as an `unsigned int`. -/
def swapRandom (m : CAddrMan) (nRndPos1 nRndPos2 : Int) : Option CAddrMan :=
  if nRndPos1 = nRndPos2 then some m
  else if 0 ≤ nRndPos1 ∧ nRndPos1 < m.vRandom.length ∧ 0 ≤ nRndPos2 ∧ nRndPos2 < m.vRandom.length then
    let nId1 := m.vRandom.getD nRndPos1.toNat 0
    let nId2 := m.vRandom.getD nRndPos2.toNat 0
    if nId1 ∈ m.mapInfo ∧ nId2 ∈ m.mapInfo then
      some (((m.setRandomPos nId1 nRndPos2).setRandomPos nId2 nRndPos1).setRandom
        ((m.vRandom.set nRndPos1.toNat nId2).set nRndPos2.toNat nId1))
    else none
  else none

def delete (m : CAddrMan) (nId : Int) : Option CAddrMan :=
  if nId ∈ m.mapInfo ∧ (m.info nId).fInTried = false ∧ (m.info nId).nRefCount = 0 then do
    let m ← m.swapRandom (m.info nId).nRandomPos (m.vRandom.length - 1)
    some { m with
      vRandom := m.vRandom.dropLast
      mapAddr := m.mapAddr.erase (m.info nId).toCNetAddr
      mapInfo := m.mapInfo.erase nId
      nNew := m.nNew - 1 }
  else none

/-- The place `p` of `vvNew` is given to `nId`. -/
def setNew (m : CAddrMan) (p : NewPlace) (nId : Int) : CAddrMan := { m with vvNew := Function.update m.vvNew p nId }

/-- The place `p` of `vvTried` is given to `nId`. -/
def setTried (m : CAddrMan) (p : TriedPlace) (nId : Int) : CAddrMan := { m with vvTried := Function.update m.vvTried p nId }

/-- The counters `nNew` and `nTried` change. -/
def addNew (m : CAddrMan) (k : Int) : CAddrMan := { m with nNew := m.nNew + k }
def addTried (m : CAddrMan) (k : Int) : CAddrMan := { m with nTried := m.nTried + k }

def clearNew (m : CAddrMan) (p : NewPlace) : Option CAddrMan :=
  if m.vvNew p = -1 then some m
  else
    let nIdDelete := m.vvNew p
    if 0 < (m.info nIdDelete).nRefCount then
      let m := (m.modify nIdDelete fun info => { info with nRefCount := info.nRefCount - 1 }).setNew p (-1)
      if (m.info nIdDelete).nRefCount = 0 then m.delete nIdDelete else some m
    else none

section operations

variable (env : AddrEnv)

/-- The place of an entry in the "new" table by the address that it came from. -/
def newPlace (m : CAddrMan) (nId : Int) (source : CNetAddr) : NewPlace :=
  let nUBucket := CAddrInfo.getNewBucket env m.nKey (m.info nId).toCService source
  (nUBucket, CAddrInfo.getBucketPosition env m.nKey true nUBucket (m.info nId).toCService)

/-- The place of an entry in the "tried" table. -/
def triedPlace (m : CAddrMan) (nId : Int) : TriedPlace :=
  let nKBucket := CAddrInfo.getTriedBucket env m.nKey (m.info nId).toCService
  (nKBucket, CAddrInfo.getBucketPosition env m.nKey false nKBucket (m.info nId).toCService)

/-- The only place of an entry in a "new" bucket. -/
def placeIn (m : CAddrMan) (nId : Int) (bucket : Fin 1024) : NewPlace :=
  (bucket, CAddrInfo.getBucketPosition env m.nKey true bucket (m.info nId).toCService)

/-- One round of the loop of `MakeTried` that takes an entry out of the new buckets. -/
def leaveBucket (nId : Int) (m : CAddrMan) (bucket : Fin 1024) : CAddrMan :=
  let p := m.placeIn env nId bucket
  if m.vvNew p = nId then (m.setNew p (-1)).modify nId fun info => { info with nRefCount := info.nRefCount - 1 } else m

/-- The part of `MakeTried` that moves the entry at `kp` back to "new", if there is one. -/
def evict (m : CAddrMan) (kp : TriedPlace) : Option CAddrMan :=
  if m.vvTried kp = -1 then some m
  else
    let nIdEvict := m.vvTried kp
    if nIdEvict ∈ m.mapInfo then do
      let m := ((m.modify nIdEvict fun info => { info with fInTried := false }).setTried kp (-1)).addTried (-1)
      let up := m.newPlace env nIdEvict (m.info nIdEvict).source
      let m ← m.clearNew up
      if m.vvNew up = -1 then
        some (((m.modify nIdEvict fun info => { info with nRefCount := 1 }).setNew up nIdEvict).addNew 1)
      else none
    else none

def makeTried (m : CAddrMan) (nId : Int) : Option CAddrMan := do
  let m := (newBuckets.foldl (leaveBucket env nId) m).addNew (-1)
  if (m.info nId).nRefCount = 0 then
    let kp := m.triedPlace env nId
    let m ← m.evict env kp
    if m.vvTried kp = -1 then
      some (((m.setTried kp nId).addTried 1).modify nId fun info => { info with fInTried := true })
    else none
  else none

/-- `Good_`, with the random number `nRnd` at which the search for a bucket begins. -/
def good (m : CAddrMan) (addr : CService) (nTime : Int64) (nRnd : Nat) : Option CAddrMan :=
  let m := { m with nLastGood := nTime }
  match m.find addr.toCNetAddr with
  | none => some m
  | some nId =>
    if (m.info nId).toCService ≠ addr then some m
    else
      let m := m.modify nId fun info => { info with nLastSuccess := nTime, nLastTry := nTime, nAttempts := 0 }
      if (m.info nId).fInTried then some m
      else if (List.range 1024).any fun n => m.vvNew (m.placeIn env nId (Fin.ofNat 1024 (n + nRnd))) = nId then
        m.makeTried env nId
      else some m

/-- The update of an entry that `Add_` finds, its time and its services. -/
def refresh (m : CAddrMan) (nId : Int) (addr : CAddress) (nTimePenalty nNow : Int64) : CAddrMan :=
  m.modify nId fun info =>
    let nUpdateInterval : Int := if nNow.toInt - addr.nTime.toNat < 24 * 60 * 60 then 60 * 60 else 24 * 60 * 60
    let nTime : UInt32 :=
      if addr.nTime ≠ 0 ∧ (info.nTime = 0 ∨
          (info.nTime.toNat : Int) < addr.nTime.toNat - nUpdateInterval - nTimePenalty.toInt) then
        UInt32.ofNat (addr.nTime.toNat - nTimePenalty.toInt).toNat
      else info.nTime
    { info with nTime, nServices := info.nServices ||| addr.nServices }

/-- The end of `Add_`: the entry is put into the bucket of its source, when the place is empty or can be overwritten;
a fresh entry that finds no place is deleted. -/
def insertNew (m : CAddrMan) (nId : Int) (source : CNetAddr) (nNow : Int64) : Option CAddrMan :=
  let p := m.newPlace env nId source
  if m.vvNew p = nId then some m
  else
    let fInsert := m.vvNew p = -1 ∨ (m.info (m.vvNew p)).isTerrible nNow = true ∨
      (1 < (m.info (m.vvNew p)).nRefCount ∧ (m.info nId).nRefCount = 0)
    if fInsert then do
      let m ← m.clearNew p
      some ((m.modify nId fun info => { info with nRefCount := info.nRefCount + 1 }).setNew p nId)
    else if (m.info nId).nRefCount = 0 then m.delete nId
    else some m

/-- `Add_`, with the times that its two kinds of calls of `GetAdjustedTime` return and the random number of its test;
returns the manager, and whether the address is new. -/
def add (m : CAddrMan) (addr : CAddress) (source : CNetAddr) (nTimePenalty nNow nNow' : Int64) (nRandom : Nat) :
    Option (CAddrMan × Bool) :=
  if !addr.isRoutable then some (m, false)
  else
    match m.find addr.toCNetAddr with
    | some nId =>
      let m := m.refresh nId addr nTimePenalty nNow
      let info := m.info nId
      if addr.nTime = 0 ∨ (info.nTime ≠ 0 ∧ addr.nTime ≤ info.nTime) then some (m, false)
      else if info.fInTried then some (m, false)
      else if info.nRefCount = 8 then some (m, false)
      else
        let nFactor := 2 ^ info.nRefCount.toNat
        if 1 < nFactor ∧ nRandom % nFactor ≠ 0 then some (m, false)
        else (m.insertNew env nId source nNow').map fun m => (m, false)
    | none =>
      let nId := m.nIdCount
      let m := (m.create addr source).modify nId fun info =>
        { info with nTime := UInt32.ofNat (info.nTime.toNat - nTimePenalty.toInt).toNat }
      ((m.addNew 1).insertNew env nId source nNow').map fun m => (m, true)

end operations

def attempt (m : CAddrMan) (addr : CService) (fCountFailure : Bool) (nTime : Int64) : CAddrMan :=
  match m.find addr.toCNetAddr with
  | none => m
  | some nId =>
    if (m.info nId).toCService ≠ addr then m
    else
      m.modify nId fun info =>
        if fCountFailure ∧ info.nLastCountAttempt < m.nLastGood then
          { info with nLastTry := nTime, nLastCountAttempt := nTime, nAttempts := info.nAttempts + 1 }
        else { info with nLastTry := nTime }

def connected (m : CAddrMan) (addr : CService) (nTime : Int64) : CAddrMan :=
  match m.find addr.toCNetAddr with
  | none => m
  | some nId =>
    if (m.info nId).toCService ≠ addr then m
    else
      m.modify nId fun info =>
        if 20 * 60 < nTime.toInt - info.nTime.toNat then { info with nTime := UInt32.ofNat (nTime.toInt % 2 ^ 32).toNat }
        else info

/-- `Clear`, with the key that is drawn. It leaves `mapInfo` and `mapAddr` as they are. -/
def clear (m : CAddrMan) (randHash : Uint256) : CAddrMan :=
  { m with
    vRandom := []
    nKey := randHash
    vvNew := fun _ => -1
    vvTried := fun _ => -1
    nIdCount := 0
    nTried := 0
    nNew := 0
    nLastGood := 1 }

/-- The constructor. -/
def new (randHash : Uint256) : CAddrMan :=
  clear ⟨0, ∅, ∅, [], 0, fun _ => 0, 0, fun _ => 0, 0, 0⟩ randHash

end CAddrMan

end DigiWage.Net
