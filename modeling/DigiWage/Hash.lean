import DigiWage.Primitives
import DigiWage.Lib.Bytes
import DigiWage.Lib.Blocks

/-!
# The hash functions

`CSHA256`, `CRIPEMD160` and `CSHA1` of `crypto/`, and what `hash.h` makes of them: `Hash`, which is SHA-256 applied twice,
and `CHash160`. The results on proofs of stake hold for every hash function; there these are for concrete blocks.

* The data are one byte string, so that the buffer of `Write` does not appear.
* `Transform` names its registers anew in each round; here they move on by one (`round`), and `w0` to `w15` are a window
  of sixteen words.
-/

namespace DigiWage

open Lib

namespace Sha256

def ch (x y z : UInt32) : UInt32 := z ^^^ (x &&& (y ^^^ z))

def maj (x y z : UInt32) : UInt32 := (x &&& y) ||| (z &&& (x ||| y))

def Sigma0 (x : UInt32) : UInt32 := (x >>> 2 ||| x <<< 30) ^^^ (x >>> 13 ||| x <<< 19) ^^^ (x >>> 22 ||| x <<< 10)

def Sigma1 (x : UInt32) : UInt32 := (x >>> 6 ||| x <<< 26) ^^^ (x >>> 11 ||| x <<< 21) ^^^ (x >>> 25 ||| x <<< 7)

def sigma0 (x : UInt32) : UInt32 := (x >>> 7 ||| x <<< 25) ^^^ (x >>> 18 ||| x <<< 14) ^^^ (x >>> 3)

def sigma1 (x : UInt32) : UInt32 := (x >>> 17 ||| x <<< 15) ^^^ (x >>> 19 ||| x <<< 13) ^^^ (x >>> 10)

/-- The registers of `Transform`. -/
structure State where
  a : UInt32
  b : UInt32
  c : UInt32
  d : UInt32
  e : UInt32
  f : UInt32
  g : UInt32
  h : UInt32

/-- `Initialize`. -/
def initialState : State :=
  ⟨0x6a09e667, 0xbb67ae85, 0x3c6ef372, 0xa54ff53a, 0x510e527f, 0x9b05688c, 0x1f83d9ab, 0x5be0cd19⟩

/-- `Round`, with the registers of the next round. -/
def round (s : State) (k w : UInt32) : State :=
  let t1 := s.h + Sigma1 s.e + ch s.e s.f s.g + k + w
  let t2 := Sigma0 s.a + maj s.a s.b s.c
  ⟨t1 + t2, s.a, s.b, s.c, s.d + t1, s.e, s.f, s.g⟩

/-- The constants of the 64 rounds. -/
def constants : List UInt32 :=
  [0x428a2f98, 0x71374491, 0xb5c0fbcf, 0xe9b5dba5, 0x3956c25b, 0x59f111f1, 0x923f82a4, 0xab1c5ed5,
   0xd807aa98, 0x12835b01, 0x243185be, 0x550c7dc3, 0x72be5d74, 0x80deb1fe, 0x9bdc06a7, 0xc19bf174,
   0xe49b69c1, 0xefbe4786, 0x0fc19dc6, 0x240ca1cc, 0x2de92c6f, 0x4a7484aa, 0x5cb0a9dc, 0x76f988da,
   0x983e5152, 0xa831c66d, 0xb00327c8, 0xbf597fc7, 0xc6e00bf3, 0xd5a79147, 0x06ca6351, 0x14292967,
   0x27b70a85, 0x2e1b2138, 0x4d2c6dfc, 0x53380d13, 0x650a7354, 0x766a0abb, 0x81c2c92e, 0x92722c85,
   0xa2bfe8a1, 0xa81a664b, 0xc24b8b70, 0xc76c51a3, 0xd192e819, 0xd6990624, 0xf40e3585, 0x106aa070,
   0x19a4c116, 0x1e376c08, 0x2748774c, 0x34b0bcb5, 0x391c0cb3, 0x4ed8aa4a, 0x5b9cca4f, 0x682e6ff3,
   0x748f82ee, 0x78a5636f, 0x84c87814, 0x8cc70208, 0x90befffa, 0xa4506ceb, 0xbef9a3f7, 0xc67178f2]

/-- The rounds of `Transform` for the constants that are left. A round uses up the first word of the window and computes
the one that takes its place. -/
def rounds : List UInt32 → List UInt32 → State → State
  | k :: ks, w :: ws, s =>
    let next := w + sigma1 (ws.getD 13 0) + ws.getD 8 0 + sigma0 (ws.getD 0 0)
    rounds ks (ws ++ [next]) (round s k w)
  | _, _, s => s

def readBE32 (bytes : List UInt8) : UInt32 := bytes.foldl (fun n b => n <<< 8 ||| b.toUInt32) 0

/-- `Transform`, for a chunk of 64 bytes. -/
def transform (s : State) (chunk : List UInt8) : State :=
  let words := (List.range 16).map fun i => readBE32 ((chunk.drop (4 * i)).take 4)
  let r := rounds constants words s
  ⟨s.a + r.a, s.b + r.b, s.c + r.c, s.d + r.d, s.e + r.e, s.f + r.f, s.g + r.g, s.h + r.h⟩

/-- The data with the padding of `Finalize`. -/
def padded (data : List UInt8) : List UInt8 :=
  data ++ 0x80 :: List.replicate ((119 - data.length % 64) % 64) 0 ++ (leBytes 8 (data.length * 8)).reverse

end Sha256

/-- `CSHA256`. -/
def sha256 (data : List UInt8) : List UInt8 :=
  let bytes := Sha256.padded data
  let s := foldBlocks 64 Sha256.transform (bytes.length / 64) bytes Sha256.initialState
  [s.a, s.b, s.c, s.d, s.e, s.f, s.g, s.h].flatMap fun w => (leBytes 4 w.toNat).reverse

theorem length_sha256 (data : List UInt8) : (sha256 data).length = 32 := by
  simp [sha256]

/-- `Hash`. -/
def hash256 (data : List UInt8) : Uint256 := BitVec.ofNat 256 (ofLeBytes (sha256 (sha256 data)))

example : hash256 [] = 0x56944c5d3f98413ef45cf54545538103cc9f298e0575820ad3591376e2e0f65d#256 := by decide +kernel

def rol (x i : UInt32) : UInt32 := x <<< i ||| x >>> (32 - i)

/-! ## RIPEMD-160 -/

namespace Ripemd160

def f1 (x y z : UInt32) : UInt32 := x ^^^ y ^^^ z

def f2 (x y z : UInt32) : UInt32 := (x &&& y) ||| (~~~x &&& z)

def f3 (x y z : UInt32) : UInt32 := (x ||| ~~~y) ^^^ z

def f4 (x y z : UInt32) : UInt32 := (x &&& z) ||| (y &&& ~~~z)

def f5 (x y z : UInt32) : UInt32 := x ^^^ (y ||| ~~~z)

/-- The registers of `Transform`. -/
structure State where
  a : UInt32
  b : UInt32
  c : UInt32
  d : UInt32
  e : UInt32

/-- `Initialize`. -/
def initialState : State := ⟨0x67452301, 0xEFCDAB89, 0x98BADCFE, 0x10325476, 0xC3D2E1F0⟩

/-- `Round`, with the registers of the next round. -/
def round (f : UInt32 → UInt32 → UInt32 → UInt32) (k : UInt32) (s : State) (x r : UInt32) : State :=
  ⟨s.e, rol (s.a + f s.b s.c s.d + x + k) r + s.e, s.b, rol s.c 10, s.d⟩

/-- Rounds of one kind (`R11` to `R52`), for the words they read and the amounts they rotate by. -/
def rounds (f : UInt32 → UInt32 → UInt32 → UInt32) (k : UInt32) (w : List UInt32) (args : List (Nat × UInt32))
    (s : State) : State :=
  args.foldl (fun s a => round f k s (w.getD a.1 0) a.2) s

/-- The rounds of the first line of `Transform`. -/
def line1 (w : List UInt32) (s : State) : State :=
  let s := rounds f1 0 w
    [(0, 11), (1, 14), (2, 15), (3, 12), (4, 5), (5, 8), (6, 7), (7, 9), (8, 11),
       (9, 13), (10, 14), (11, 15), (12, 6), (13, 7), (14, 9), (15, 8)] s
  let s := rounds f2 0x5A827999 w
    [(7, 7), (4, 6), (13, 8), (1, 13), (10, 11), (6, 9), (15, 7), (3, 15), (12, 7),
       (0, 12), (9, 15), (5, 9), (2, 11), (14, 7), (11, 13), (8, 12)] s
  let s := rounds f3 0x6ED9EBA1 w
    [(3, 11), (10, 13), (14, 6), (4, 7), (9, 14), (15, 9), (8, 13), (1, 15), (2, 14),
       (7, 8), (0, 13), (6, 6), (13, 5), (11, 12), (5, 7), (12, 5)] s
  let s := rounds f4 0x8F1BBCDC w
    [(1, 11), (9, 12), (11, 14), (10, 15), (0, 14), (8, 15), (12, 9), (4, 8), (13, 9),
       (3, 14), (7, 5), (15, 6), (14, 8), (5, 6), (6, 5), (2, 12)] s
  rounds f5 0xA953FD4E w
    [(4, 9), (0, 15), (5, 5), (9, 11), (7, 6), (12, 8), (2, 13), (10, 12), (14, 5),
       (1, 12), (3, 13), (8, 14), (11, 11), (6, 8), (15, 5), (13, 6)] s

/-- The rounds of the second line. -/
def line2 (w : List UInt32) (s : State) : State :=
  let s := rounds f5 0x50A28BE6 w
    [(5, 8), (14, 9), (7, 9), (0, 11), (9, 13), (2, 15), (11, 15), (4, 5), (13, 7),
       (6, 7), (15, 8), (8, 11), (1, 14), (10, 14), (3, 12), (12, 6)] s
  let s := rounds f4 0x5C4DD124 w
    [(6, 9), (11, 13), (3, 15), (7, 7), (0, 12), (13, 8), (5, 9), (10, 11), (14, 7),
       (15, 7), (8, 12), (12, 7), (4, 6), (9, 15), (1, 13), (2, 11)] s
  let s := rounds f3 0x6D703EF3 w
    [(15, 9), (5, 7), (1, 15), (3, 11), (7, 8), (14, 6), (6, 6), (9, 14), (11, 12),
       (8, 13), (12, 5), (2, 14), (10, 13), (0, 13), (4, 7), (13, 5)] s
  let s := rounds f2 0x7A6D76E9 w
    [(8, 15), (6, 5), (4, 8), (1, 11), (3, 14), (11, 14), (15, 6), (0, 14), (5, 6),
       (12, 9), (2, 12), (13, 9), (9, 12), (7, 5), (10, 15), (14, 8)] s
  rounds f1 0 w
    [(12, 8), (15, 5), (10, 12), (4, 9), (1, 12), (5, 5), (8, 14), (7, 6), (6, 8),
       (2, 13), (13, 6), (14, 5), (0, 15), (3, 13), (9, 11), (11, 11)] s

/-- `Transform`, for a chunk of 64 bytes. -/
def transform (s : State) (chunk : List UInt8) : State :=
  let w := (List.range 16).map fun i => UInt32.ofNat (ofLeBytes ((chunk.drop (4 * i)).take 4))
  let s1 := line1 w s
  let s2 := line2 w s
  ⟨s.b + s1.c + s2.d, s.c + s1.d + s2.e, s.d + s1.e + s2.a, s.e + s1.a + s2.b, s.a + s1.b + s2.c⟩

/-- The data with the padding of `Finalize`. -/
def padded (data : List UInt8) : List UInt8 :=
  data ++ 0x80 :: List.replicate ((119 - data.length % 64) % 64) 0 ++ leBytes 8 (data.length * 8)

end Ripemd160

/-- `CRIPEMD160`. -/
def ripemd160 (data : List UInt8) : List UInt8 :=
  let bytes := Ripemd160.padded data
  let s := foldBlocks 64 Ripemd160.transform (bytes.length / 64) bytes Ripemd160.initialState
  [s.a, s.b, s.c, s.d, s.e].flatMap fun w => leBytes 4 w.toNat

theorem length_ripemd160 (data : List UInt8) : (ripemd160 data).length = 20 := by
  simp [ripemd160]

/-- `CHash160`. -/
def hash160 (data : List UInt8) : List UInt8 := ripemd160 (sha256 data)

example : hash160 [] = [0xb4, 0x72, 0xa2, 0x66, 0xd0, 0xbd, 0x89, 0xc1, 0x37, 0x06,
    0xa4, 0x13, 0x2c, 0xcf, 0xb1, 0x6f, 0x7c, 0x3b, 0x9f, 0xcb] := by decide +kernel

/-! ## SHA-1 -/

namespace Sha1

def f1 (b c d : UInt32) : UInt32 := d ^^^ (b &&& (c ^^^ d))

def f2 (b c d : UInt32) : UInt32 := b ^^^ c ^^^ d

def f3 (b c d : UInt32) : UInt32 := (b &&& c) ||| (d &&& (b ||| c))

def left (x : UInt32) : UInt32 := x <<< 1 ||| x >>> 31

/-- `Initialize`: the state is that of RIPEMD-160. -/
def initialState : Ripemd160.State := ⟨0x67452301, 0xEFCDAB89, 0x98BADCFE, 0x10325476, 0xC3D2E1F0⟩

/-- `Round`, with the registers of the next round. -/
def round (s : Ripemd160.State) (f k w : UInt32) : Ripemd160.State :=
  ⟨s.e + ((s.a <<< 5 ||| s.a >>> 27) + f + k + w), s.a, s.b <<< 30 ||| s.b >>> 2, s.c, s.d⟩

/-- The rounds from the `i`-th on. A round uses up the first word of the window and computes the one that takes its
place. -/
def rounds : Nat → Nat → List UInt32 → Ripemd160.State → Ripemd160.State
  | rest + 1, i, w :: ws, s =>
    let next := left (w ^^^ ws.getD 12 0 ^^^ ws.getD 7 0 ^^^ ws.getD 1 0)
    let s :=
      if i < 20 then round s (f1 s.b s.c s.d) 0x5A827999 w
      else if i < 40 then round s (f2 s.b s.c s.d) 0x6ED9EBA1 w
      else if i < 60 then round s (f3 s.b s.c s.d) 0x8F1BBCDC w
      else round s (f2 s.b s.c s.d) 0xCA62C1D6 w
    rounds rest (i + 1) (ws ++ [next]) s
  | _, _, _, s => s

/-- `Transform`, for a chunk of 64 bytes. -/
def transform (s : Ripemd160.State) (chunk : List UInt8) : Ripemd160.State :=
  let words := (List.range 16).map fun i => Sha256.readBE32 ((chunk.drop (4 * i)).take 4)
  let r := rounds 80 0 words s
  ⟨s.a + r.a, s.b + r.b, s.c + r.c, s.d + r.d, s.e + r.e⟩

end Sha1

/-- `CSHA1`. -/
def sha1 (data : List UInt8) : List UInt8 :=
  let bytes := Sha256.padded data
  let s := foldBlocks 64 Sha1.transform (bytes.length / 64) bytes Sha1.initialState
  [s.a, s.b, s.c, s.d, s.e].flatMap fun w => (leBytes 4 w.toNat).reverse

theorem length_sha1 (data : List UInt8) : (sha1 data).length = 20 := by
  simp [sha1]

example : sha1 [] = [0xda, 0x39, 0xa3, 0xee, 0x5e, 0x6b, 0x4b, 0x0d, 0x32, 0x55,
    0xbf, 0xef, 0x95, 0x60, 0x18, 0x90, 0xaf, 0xd8, 0x07, 0x09] := by decide +kernel

end DigiWage
