import DigiWage.Serialize

/-!
# Network addresses

`CNetAddr` and `CService` of `netbase.h`, and `CAddress` of `protocol.h`: the ranges an address belongs to, whether it is
routable, the group and the key by which the address manager spreads addresses over its buckets, and the serialization.

* `CNetAddr.unserialize_serialize`, `CService.unserialize_serialize`, `CAddress.unserialize_serialize`: what was written is
  read; the time of an address only where the kind of stream has it.
-/

namespace DigiWage.Net

open Lib

/-- `CNetAddr`: the sixteen bytes of an address, in network byte order. -/
structure CNetAddr where
  ip : List UInt8
  length_ip : ip.length = 16
deriving DecidableEq

structure CService extends CNetAddr where
  port : UInt16
deriving DecidableEq

structure CAddress extends CService where
  nServices : UInt64
  nTime : UInt32
deriving DecidableEq

namespace CNetAddr

/-- `CNetAddr::CNetAddr`, the address of sixteen zero bytes. -/
instance : Inhabited CNetAddr := ⟨⟨List.replicate 16 0, rfl⟩⟩

/-! ## Ranges -/

section ranges

variable (a : CNetAddr)

def getByte (n : Nat) : UInt8 := a.ip.getD (15 - n) 0

def pchIPv4 : List UInt8 := [0, 0, 0, 0, 0, 0, 0, 0, 0, 0, 0xff, 0xff]

def pchOnionCat : List UInt8 := [0xFD, 0x87, 0xD8, 0x7E, 0xEB, 0x43]

/-- `memcmp(ip, pch, sizeof(pch)) == 0`. -/
def startsWith (pch : List UInt8) : Bool := a.ip.take pch.length == pch

def isIPv4 : Bool := a.startsWith pchIPv4

def isTor : Bool := a.startsWith pchOnionCat

def isRFC1918 : Bool :=
  a.isIPv4 && (a.getByte 3 == 10 || (a.getByte 3 == 192 && a.getByte 2 == 168) ||
    (a.getByte 3 == 172 && (16 ≤ a.getByte 2 && a.getByte 2 ≤ 31)))

def isRFC2544 : Bool := a.isIPv4 && a.getByte 3 == 198 && (a.getByte 2 == 18 || a.getByte 2 == 19)

def isRFC3927 : Bool := a.isIPv4 && (a.getByte 3 == 169 && a.getByte 2 == 254)

def isRFC6598 : Bool := a.isIPv4 && a.getByte 3 == 100 && 64 ≤ a.getByte 2 && a.getByte 2 ≤ 127

def isRFC5737 : Bool :=
  a.isIPv4 && ((a.getByte 3 == 192 && a.getByte 2 == 0 && a.getByte 1 == 2) ||
    (a.getByte 3 == 198 && a.getByte 2 == 51 && a.getByte 1 == 100) ||
    (a.getByte 3 == 203 && a.getByte 2 == 0 && a.getByte 1 == 113))

def isRFC3849 : Bool :=
  a.getByte 15 == 0x20 && a.getByte 14 == 0x01 && a.getByte 13 == 0x0D && a.getByte 12 == 0xB8

def isRFC3964 : Bool := a.getByte 15 == 0x20 && a.getByte 14 == 0x02

def isRFC6052 : Bool := a.startsWith [0, 0x64, 0xFF, 0x9B, 0, 0, 0, 0, 0, 0, 0, 0]

def isRFC4380 : Bool := a.getByte 15 == 0x20 && a.getByte 14 == 0x01 && a.getByte 13 == 0 && a.getByte 12 == 0

def isRFC4862 : Bool := a.startsWith [0xFE, 0x80, 0, 0, 0, 0, 0, 0]

def isRFC4193 : Bool := a.getByte 15 &&& 0xFE == 0xFC

def isRFC6145 : Bool := a.startsWith [0, 0, 0, 0, 0, 0, 0, 0, 0xFF, 0xFF, 0, 0]

def isRFC4843 : Bool :=
  a.getByte 15 == 0x20 && a.getByte 14 == 0x01 && a.getByte 13 == 0x00 && a.getByte 12 &&& 0xF0 == 0x10

def isLocal : Bool :=
  (a.isIPv4 && (a.getByte 3 == 127 || a.getByte 3 == 0)) || a.ip == [0, 0, 0, 0, 0, 0, 0, 0, 0, 0, 0, 0, 0, 0, 0, 1]

def isValid : Bool :=
  if a.startsWith (pchIPv4.drop 3) then false
  else if a.ip == List.replicate 16 0 then false
  else if a.isRFC3849 then false
  else if a.isIPv4 && (a.ip.drop 12 == [0xff, 0xff, 0xff, 0xff] || a.ip.drop 12 == [0, 0, 0, 0]) then false
  else true

def isRoutable : Bool :=
  a.isValid && !(a.isRFC1918 || a.isRFC2544 || a.isRFC3927 || a.isRFC4862 || a.isRFC6598 || a.isRFC5737 ||
    (a.isRFC4193 && !a.isTor) || a.isRFC4843 || a.isLocal)

end ranges

/-! ## Groups -/

/-- The `enum Network`. -/
def NET_UNROUTABLE : UInt8 := 0
def NET_IPV4 : UInt8 := 1
def NET_IPV6 : UInt8 := 2
def NET_TOR : UInt8 := 3

/-- The end of `GetGroup`: the class, and the first `nBits` bits of the address from the byte `nStartByte` on. -/
def groupBytes (a : CNetAddr) (nClass : UInt8) (nStartByte nBits : Nat) : List UInt8 :=
  nClass :: (List.range (nBits / 8)).map (fun i => a.getByte (15 - (nStartByte + i))) ++
    if 0 < nBits % 8 then [a.getByte (15 - (nStartByte + nBits / 8)) ||| UInt8.ofNat (1 <<< (nBits % 8) - 1)] else []

def getGroup (a : CNetAddr) : List UInt8 :=
  if !a.isRoutable then a.groupBytes NET_UNROUTABLE 0 0
  else if a.isIPv4 || a.isRFC6145 || a.isRFC6052 then a.groupBytes NET_IPV4 12 16
  else if a.isRFC3964 then a.groupBytes NET_IPV4 2 16
  else if a.isRFC4380 then [NET_IPV4, a.getByte 3 ^^^ 0xFF, a.getByte 2 ^^^ 0xFF]
  else if a.isTor then a.groupBytes NET_TOR 6 4
  else if a.getByte 15 == 0x20 && a.getByte 14 == 0x01 && a.getByte 13 == 0x04 && a.getByte 12 == 0x70 then
    a.groupBytes NET_IPV6 0 36
  else a.groupBytes NET_IPV6 0 32

/-! ## Serialization -/

/-- `SerializationOp`, writing. -/
def serialize (a : CNetAddr) : List UInt8 := a.ip

/-- `SerializationOp`, reading. -/
def unserialize (s : Stream) : Option (CNetAddr × Stream) := do
  let (ip, s) ← s.read 16
  if h : ip.length = 16 then some (⟨ip, h⟩, s) else none

theorem unserialize_serialize (a : CNetAddr) (s : Stream) : unserialize (serialize a ++ s) = some (a, s) := by
  simp [unserialize, serialize, Stream.read_append _ _ a.length_ip, a.length_ip]

end CNetAddr

namespace CService

def getKey (a : CService) : List UInt8 := a.ip ++ [UInt8.ofNat (a.port.toNat / 0x100), UInt8.ofNat a.port.toNat]

/-- `SerializationOp`, writing: the port in network byte order. -/
def serialize (a : CService) : List UInt8 := a.toCNetAddr.serialize ++ (leBytes 2 a.port.toNat).reverse

/-- `SerializationOp`, reading. -/
def unserialize (s : Stream) : Option (CService × Stream) := do
  let (addr, s) ← CNetAddr.unserialize s
  let (portN, s) ← s.read 2
  some (⟨addr, UInt16.ofNat (ofLeBytes portN.reverse)⟩, s)

theorem unserialize_serialize (a : CService) (s : Stream) : unserialize (serialize a ++ s) = some (a, s) := by
  have hlt : a.port.toNat < 256 ^ 2 := a.port.toNat_lt
  rw [unserialize, serialize, List.append_assoc, CNetAddr.unserialize_serialize]
  simp only [Option.bind_eq_bind, Option.bind_some]
  rw [Stream.read_append _ _ (by simp)]
  simp [ofLeBytes_leBytes_of_lt hlt]

end CService

/-- The kind of a stream: the `nType` with its flags, and the `nVersion`. -/
structure StreamKind where
  nType : Nat
  nVersion : Int32

namespace StreamKind

variable (k : StreamKind)

/-- `nType & SER_DISK`. -/
def onDisk : Bool := k.nType.testBit 1

/-- `nType & SER_GETHASH`. -/
def forHash : Bool := k.nType.testBit 2

/-- Whether an address is written with its time, from `CADDR_TIME_VERSION` on. -/
def hasTime : Bool := k.onDisk || (31402 ≤ k.nVersion.toInt && !k.forHash)

end StreamKind

namespace CAddress

/-- `CAddress::Init`: the time of an address that comes without one. -/
def initTime : UInt32 := 100000000

/-- `SerializationOp`, writing. -/
def serialize (k : StreamKind) (a : CAddress) : List UInt8 :=
  (if k.onDisk then writeInt32 k.nVersion else []) ++ ((if k.hasTime then leBytes 4 a.nTime.toNat else []) ++
    (leBytes 8 a.nServices.toNat ++ a.toCService.serialize))

/-- `SerializationOp`, reading. The version that is read does not matter: it is there on disk only, where the time is. -/
def unserialize (k : StreamKind) (s : Stream) : Option (CAddress × Stream) := do
  let (_, s) ← if k.onDisk then readInt32 s else some (k.nVersion, s)
  let (nTime, s) ← if k.hasTime then (readUInt 4 s).map fun r => (UInt32.ofNat r.1, r.2) else some (initTime, s)
  let (nServices, s) ← readUInt 8 s
  let (service, s) ← CService.unserialize s
  some (⟨service, UInt64.ofNat nServices, nTime⟩, s)

/-- The address as it comes back from a stream. -/
def stored (k : StreamKind) (a : CAddress) : CAddress := { a with nTime := if k.hasTime then a.nTime else initTime }

theorem unserialize_serialize (k : StreamKind) (a : CAddress) (s : Stream) :
    unserialize k (serialize k a ++ s) = some (a.stored k, s) := by
  have htime : a.nTime.toNat < 256 ^ 4 := a.nTime.toNat_lt
  have hserv : a.nServices.toNat < 256 ^ 8 := a.nServices.toNat_lt
  cases hd : k.onDisk <;> cases ht : k.hasTime <;>
    simp [unserialize, serialize, stored, hd, ht, readInt32_write, readUInt_write htime, readUInt_write hserv,
      CService.unserialize_serialize]

end CAddress

end DigiWage.Net
