import DigiWage.Hash

/-!
# Hashing a stream

`CSHA256`, `CSHA1`, `CRIPEMD160` and `CHMAC_SHA256` of `crypto/`, and `CHash256` and `CHash160` of `hash.h`: the hashers are fed
with `Write` and give the hash in `Finalize`.

* The buffers start with what the memory held.
-/

namespace DigiWage

open Lib

/-! ## Blocks of 64 bytes -/

namespace Hasher

variable {S : Type} (transform : S → List UInt8 → S)

/-- The constructor. -/
def new (init : S) (buf : Vector UInt8 64) : Buffered S UInt8 := ⟨init, buf.toList, 0⟩

def reset (init : S) (h : Buffered S UInt8) : Buffered S UInt8 := { h with s := init, bytes := 0 }

def write (h : Buffered S UInt8) (data : List UInt8) : Buffered S UInt8 := h.write 64 transform 0 data

def pad : List UInt8 := 0x80 :: List.replicate 63 0

/-- `Finalize` up to the output, for the bytes of `sizedesc`. -/
def finish (sizedesc : Nat → List UInt8) (h : Buffered S UInt8) : Buffered S UInt8 :=
  write transform (write transform h (pad.take (1 + (119 - h.bytes % 64) % 64))) (sizedesc (h.bytes * 8))

variable {transform} {init : S} {data : List UInt8} {h : Buffered S UInt8}

theorem absorbed_new (init : S) (buf : Vector UInt8 64) : Absorbed 64 transform init [] (new init buf) :=
  ⟨0, [], [], rfl, rfl, Nat.succ_pos 63, rfl, buf.length_toList, rfl, rfl⟩

theorem absorbed_write (init : S) (buf : Vector UInt8 64) (data : List UInt8) :
    Absorbed 64 transform init data (write transform (new init buf) data) :=
  (absorbed_new init buf).write (Nat.succ_pos 63) data

theorem absorbed_reset (habs : Absorbed 64 transform init data h) : Absorbed 64 transform init [] (reset init h) := by
  obtain ⟨n, front, rest, -, -, -, -, hbuf, -⟩ := habs
  exact ⟨0, [], [], rfl, rfl, Nat.succ_pos 63, rfl, hbuf, rfl, rfl⟩

/-- The padding of `Finalize`. -/
def padded (sizedesc : Nat → List UInt8) (data : List UInt8) : List UInt8 :=
  data ++ 0x80 :: List.replicate ((119 - data.length % 64) % 64) 0 ++ sizedesc (data.length * 8)

theorem finish_s {sizedesc : Nat → List UInt8} (hsize : ∀ n, (sizedesc n).length = 8) (habs : Absorbed 64 transform init data h) :
    (finish transform sizedesc h).s = foldBlocks 64 transform ((padded sizedesc data).length / 64) (padded sizedesc data) init := by
  have hbytes : h.bytes = data.length := by
    obtain ⟨n, front, rest, -, -, -, -, -, -, hbytes⟩ := habs
    exact hbytes
  have hpad : pad.take (1 + (119 - data.length % 64) % 64) = 0x80 :: List.replicate ((119 - data.length % 64) % 64) 0 := by
    rw [Nat.add_comm, pad, List.take_succ_cons, List.take_replicate, Nat.min_eq_left (by omega)]
  have hall := (habs.write (z := 0) (Nat.succ_pos 63) (pad.take (1 + (119 - data.length % 64) % 64))).write (z := 0) (Nat.succ_pos 63)
    (sizedesc (data.length * 8))
  rw [hpad] at hall
  rw [finish, write, write, hbytes, hpad]
  refine hall.s_eq (Nat.succ_pos 63) ?_
  rw [List.length_append, List.length_append, List.length_cons, List.length_replicate, hsize]
  omega

end Hasher

def writeBE64 (n : Nat) : List UInt8 := (leBytes 8 n).reverse

theorem length_writeBE64 (n : Nat) : (writeBE64 n).length = 8 := by rw [writeBE64, List.length_reverse, length_leBytes]

/-! ## The hashers -/

abbrev CSHA256 := Buffered Sha256.State UInt8

namespace CSHA256

def new (buf : Vector UInt8 64) : CSHA256 := Hasher.new Sha256.initialState buf

def write (h : CSHA256) (data : List UInt8) : CSHA256 := Hasher.write Sha256.transform h data

/-- `Finalize`: the output, and the hasher after it. -/
def finalize (h : CSHA256) : List UInt8 × CSHA256 :=
  let h := Hasher.finish Sha256.transform writeBE64 h
  ([h.s.a, h.s.b, h.s.c, h.s.d, h.s.e, h.s.f, h.s.g, h.s.h].flatMap fun w => (leBytes 4 w.toNat).reverse, h)

def reset (h : CSHA256) : CSHA256 := Hasher.reset Sha256.initialState h

/-- What has been written. -/
abbrev Wrote (data : List UInt8) (h : CSHA256) : Prop := Absorbed 64 Sha256.transform Sha256.initialState data h

theorem finalize_eq {data : List UInt8} {h : CSHA256} (habs : Wrote data h) : (finalize h).1 = sha256 data := by
  have hs := Hasher.finish_s length_writeBE64 habs
  rw [finalize, hs, sha256]
  rfl

theorem reset_finalize {data : List UInt8} {h : CSHA256} (habs : Wrote data h) : Wrote [] (reset (finalize h).2) :=
  Hasher.absorbed_reset ((habs.write (Nat.succ_pos 63) _).write (Nat.succ_pos 63) _)

end CSHA256

abbrev CSHA1 := Buffered Ripemd160.State UInt8

namespace CSHA1

def new (buf : Vector UInt8 64) : CSHA1 := Hasher.new Sha1.initialState buf

def write (h : CSHA1) (data : List UInt8) : CSHA1 := Hasher.write Sha1.transform h data

def finalize (h : CSHA1) : List UInt8 :=
  let h := Hasher.finish Sha1.transform writeBE64 h
  [h.s.a, h.s.b, h.s.c, h.s.d, h.s.e].flatMap fun w => (leBytes 4 w.toNat).reverse

theorem finalize_eq {data : List UInt8} {h : CSHA1} (habs : Absorbed 64 Sha1.transform Sha1.initialState data h) :
    finalize h = sha1 data := by
  have hs := Hasher.finish_s length_writeBE64 habs
  rw [finalize, hs, sha1]
  rfl

end CSHA1

abbrev CRIPEMD160 := Buffered Ripemd160.State UInt8

namespace CRIPEMD160

def new (buf : Vector UInt8 64) : CRIPEMD160 := Hasher.new Ripemd160.initialState buf

def write (h : CRIPEMD160) (data : List UInt8) : CRIPEMD160 := Hasher.write Ripemd160.transform h data

/-- `Finalize`; the size is written with `WriteLE64`. -/
def finalize (h : CRIPEMD160) : List UInt8 :=
  let h := Hasher.finish Ripemd160.transform (leBytes 8) h
  [h.s.a, h.s.b, h.s.c, h.s.d, h.s.e].flatMap fun w => leBytes 4 w.toNat

theorem finalize_eq {data : List UInt8} {h : CRIPEMD160} (habs : Absorbed 64 Ripemd160.transform Ripemd160.initialState data h) :
    finalize h = ripemd160 data := by
  have hs := Hasher.finish_s (length_leBytes 8) habs
  rw [finalize, hs, ripemd160]
  rfl

end CRIPEMD160

/-- `CHash256::Finalize`. -/
def CSHA256.finalizeHash256 (sha : CSHA256) : List UInt8 :=
  let r := sha.finalize
  (r.2.reset.write r.1).finalize.1

/-- `CHash160::Finalize`. -/
def CSHA256.finalizeHash160 (buf : Vector UInt8 64) (sha : CSHA256) : List UInt8 := ((CRIPEMD160.new buf).write sha.finalize.1).finalize

/-! ## HMAC -/

structure CHMAC_SHA256 where
  outer : CSHA256
  inner : CSHA256

namespace CHMAC_SHA256

/-- The constructor, with the buffers of the two hashers and of the one for a long key. -/
def new (bufOuter bufInner bufKey : Vector UInt8 64) (key : List UInt8) : CHMAC_SHA256 :=
  let rkey :=
    if key.length ≤ 64 then key ++ List.replicate (64 - key.length) 0
    else ((CSHA256.new bufKey).write key).finalize.1 ++ List.replicate 32 0
  let rkey := rkey.map (· ^^^ 0x5c)
  let outer := (CSHA256.new bufOuter).write rkey
  let rkey := rkey.map (· ^^^ (0x5c ^^^ 0x36))
  ⟨outer, (CSHA256.new bufInner).write rkey⟩

def write (h : CHMAC_SHA256) (data : List UInt8) : CHMAC_SHA256 := { h with inner := h.inner.write data }

def finalize (h : CHMAC_SHA256) : List UInt8 := (h.outer.write h.inner.finalize.1).finalize.1

end CHMAC_SHA256

/-- The key of a message code, filled up or hashed to the length of a block. -/
def hmacKey (key : List UInt8) : List UInt8 :=
  if key.length ≤ 64 then key ++ List.replicate (64 - key.length) 0 else sha256 key ++ List.replicate 32 0

/-- The message code of the data under a key. -/
def hmacSha256 (key data : List UInt8) : List UInt8 :=
  sha256 ((hmacKey key).map (· ^^^ 0x5c) ++ sha256 ((hmacKey key).map (· ^^^ 0x36) ++ data))

/-! ## Pieces -/

variable (buf : Vector UInt8 64)

theorem CSHA256.wrote_writes (chunks : List (List UInt8)) : Wrote chunks.flatten (chunks.foldl write (new buf)) :=
  (Hasher.absorbed_new Sha256.initialState buf).writes (Nat.succ_pos 63) chunks

theorem CSHA256.wrote_write (data : List UInt8) : Wrote data ((new buf).write data) :=
  Hasher.absorbed_write Sha256.initialState buf data

theorem CHMAC_SHA256.write_outer (chunks : List (List UInt8)) (h : CHMAC_SHA256) :
    (chunks.foldl write h).outer = h.outer ∧ (chunks.foldl write h).inner = chunks.foldl CSHA256.write h.inner := by
  induction chunks generalizing h with
  | nil => exact ⟨rfl, rfl⟩
  | cons chunk chunks ih => exact ih (h.write chunk)

theorem CHMAC_SHA256.wrote_new (bufOuter bufInner bufKey : Vector UInt8 64) (key : List UInt8) :
    CSHA256.Wrote ((hmacKey key).map (· ^^^ 0x5c)) (new bufOuter bufInner bufKey key).outer ∧
    CSHA256.Wrote ((hmacKey key).map (· ^^^ 0x36)) (new bufOuter bufInner bufKey key).inner := by
  have hkey : (if key.length ≤ 64 then key ++ List.replicate (64 - key.length) 0
      else ((CSHA256.new bufKey).write key).finalize.1 ++ List.replicate 32 0) = hmacKey key := by
    rw [CSHA256.finalize_eq (CSHA256.wrote_write bufKey key), hmacKey]
  have hinner : ((hmacKey key).map (· ^^^ 0x5c)).map (· ^^^ (0x5c ^^^ 0x36)) = (hmacKey key).map (· ^^^ 0x36) := by
    rw [List.map_map]
    refine List.map_congr_left fun b _ => ?_
    rw [Function.comp_apply, UInt8.xor_assoc, ← UInt8.xor_assoc 0x5c, UInt8.xor_self, UInt8.zero_xor]
  unfold new
  dsimp only
  rw [hkey, hinner]
  exact ⟨CSHA256.wrote_write bufOuter _, CSHA256.wrote_write bufInner _⟩

/-- Whatever the pieces are in which the data is written, and whatever the buffers held before, the hash is that of the data. -/
theorem finalize_writes (bufHash160 bufOuter bufInner bufKey : Vector UInt8 64) (chunks : List (List UInt8)) :
    (chunks.foldl CSHA256.write (.new buf)).finalize.1 = sha256 chunks.flatten ∧
    (chunks.foldl CSHA1.write (.new buf)).finalize = sha1 chunks.flatten ∧
    (chunks.foldl CRIPEMD160.write (.new buf)).finalize = ripemd160 chunks.flatten ∧
    (chunks.foldl CSHA256.write (.new buf)).finalizeHash256 = leBytes 32 (hash256 chunks.flatten).toNat ∧
    (chunks.foldl CSHA256.write (.new buf)).finalizeHash160 bufHash160 = hash160 chunks.flatten ∧
    ∀ key, (chunks.foldl CHMAC_SHA256.write (.new bufOuter bufInner bufKey key)).finalize = hmacSha256 key chunks.flatten := by
  have hsha := CSHA256.wrote_writes buf chunks
  have hfinal := CSHA256.finalize_eq hsha
  refine ⟨hfinal, ?_, ?_, ?_, ?_, fun key => ?_⟩
  · exact CSHA1.finalize_eq ((Hasher.absorbed_new Sha1.initialState buf).writes (Nat.succ_pos 63) chunks)
  · exact CRIPEMD160.finalize_eq ((Hasher.absorbed_new Ripemd160.initialState buf).writes (Nat.succ_pos 63) chunks)
  · have hagain : CSHA256.Wrote _ (CSHA256.write (CSHA256.reset _) _) := (CSHA256.reset_finalize hsha).write (Nat.succ_pos 63)
      (chunks.foldl CSHA256.write (.new buf)).finalize.1
    rw [List.nil_append, hfinal] at hagain
    have hlen := length_sha256 (sha256 chunks.flatten)
    have hbound : ofLeBytes (sha256 (sha256 chunks.flatten)) < 2 ^ 256 := by
      have hlt := ofLeBytes_lt (sha256 (sha256 chunks.flatten))
      rw [hlen] at hlt
      exact Nat.lt_of_lt_of_le hlt (by decide)
    rw [CSHA256.finalizeHash256, hfinal, CSHA256.finalize_eq hagain, hash256, BitVec.toNat_ofNat, Nat.mod_eq_of_lt hbound, ← hlen,
      leBytes_ofLeBytes]
  · rw [CSHA256.finalizeHash160, hfinal, hash160]
    exact CRIPEMD160.finalize_eq (Hasher.absorbed_write Ripemd160.initialState bufHash160 _)
  · obtain ⟨houter, hinner⟩ := CHMAC_SHA256.wrote_new bufOuter bufInner bufKey key
    obtain ⟨hsame, hwrites⟩ := CHMAC_SHA256.write_outer chunks (.new bufOuter bufInner bufKey key)
    have hin := CSHA256.finalize_eq (hinner.writes (z := 0) (Nat.succ_pos 63) chunks)
    rw [CHMAC_SHA256.finalize, hsame, hwrites]
    exact (congrArg (fun d => (CSHA256.finalize (CSHA256.write _ d)).1) hin).trans
      (CSHA256.finalize_eq (houter.write (Nat.succ_pos 63) _))

end DigiWage
