import DigiWage.Chain.Reindex
import Mathlib.Data.List.Infix

/-!
# Blocks in files

Block files with other bytes between the blocks, and what `LoadExternalBlockFile` makes of them.

* `locate_rejected`, `locate_found`: the search for a header goes on one byte further, until it comes to a block.
* `Scans`: what the loop comes to from a position on, whatever the buffer holds; `scans_record` and `scans_tail` take it over a block
  and over the bytes at the end.
-/

namespace DigiWage

open Lib

/-! ## Layout -/

/-- A block as it is written to a file. -/
def record (start : MessageStart) (block : Encoded.CBlock) : List UInt8 :=
  start.bytes ++ (leBytes 4 block.serialize.length ++ block.serialize)

/-- Blocks, each behind other bytes. -/
def recordBytes (start : MessageStart) (blocks : List (List UInt8 × Encoded.CBlock)) : List UInt8 :=
  blocks.flatMap fun r => r.1 ++ record start r.2

/-- A block file: blocks, each behind other bytes, and the bytes at the end. -/
structure BlockFile where
  blocks : List (List UInt8 × Encoded.CBlock)
  tail : List UInt8

def BlockFile.bytes (start : MessageStart) (file : BlockFile) : List UInt8 := recordBytes start file.blocks ++ file.tail

/-- A block that was written: it is read as it is, it is not too large, and it has its proof of work. -/
structure ImportEnv.Stored {σ : Type} (env : ImportEnv σ) (block : Encoded.CBlock) : Prop where
  reads : ∀ s, Encoded.CBlock.null.unserialize (block.serialize ++ s) = some (block, s)
  size_le : block.serialize.length ≤ MAX_BLOCK_SIZE_CURRENT
  work : block.isProofOfStake = true ∨ checkProofOfWork env.params (env.getHash block) block.nBits.toNat = true

/-- No other bytes contain the message start, and the places have 32 bits. -/
structure ImportEnv.WellFormed {σ : Type} (env : ImportEnv σ) (file : BlockFile) : Prop where
  junk : ∀ r ∈ file.blocks, ¬ env.messageStart.bytes <:+: r.1
  tail : ¬ env.messageStart.bytes <:+: file.tail
  stored : ∀ r ∈ file.blocks, env.Stored r.2
  length_lt : (file.bytes env.messageStart).length < 2 ^ 32

variable {start : MessageStart} {junk rest : List UInt8} {block : Encoded.CBlock} {k : Nat}

theorem length_serialize_ge (block : Encoded.CBlock) : 80 ≤ block.serialize.length := by
  simp only [Encoded.CBlock.serialize, Encoded.CBlockHeader.serialize, writeInt32, writeUint256, Encoded.writeUInt32, List.length_append,
    length_leBytes]
  omega

theorem length_record (start : MessageStart) (block : Encoded.CBlock) : (record start block).length = 8 + block.serialize.length := by
  rw [record, List.length_append, List.length_append, length_leBytes, start.length_bytes]
  omega

theorem drop_record (start : MessageStart) (block : Encoded.CBlock) (rest : List UInt8) :
    (record start block ++ rest).drop 8 = block.serialize ++ rest := by
  rw [record, ← List.append_assoc, List.append_assoc]
  refine List.drop_left' ?_
  rw [List.length_append, length_leBytes, start.length_bytes]

theorem MessageStart.take_ne (h : ¬ start.bytes <:+: junk) (hk : k < junk.length) :
    ((junk ++ (start.bytes ++ rest)).drop k).take 4 ≠ start.bytes := by
  intro heq
  rw [List.drop_append_of_le_length hk.le] at heq
  by_cases hlong : 4 ≤ (junk.drop k).length
  · rw [List.take_append_of_le_length hlong] at heq
    exact h (heq ▸ (List.take_prefix 4 _).isInfix.trans (List.drop_suffix k junk).isInfix)
  · -- the first byte of the start behind them would be one of the others
    have hlen : (junk.drop k).length = junk.length - k := List.length_drop
    have hget := congrArg (·[(junk.drop k).length]?) heq
    rw [List.getElem?_take_of_lt (by omega), List.getElem?_append_right le_rfl, Nat.sub_self] at hget
    obtain ⟨m, hm⟩ : ∃ m, (junk.drop k).length = m + 1 := ⟨_, (Nat.succ_pred_eq_of_pos (by omega)).symm⟩
    rw [hm, bytes, List.cons_append, List.getElem?_cons_zero, List.getElem?_cons_succ] at hget
    exact start.first_notMem (List.mem_of_getElem? hget.symm)

theorem MessageStart.take_ne_of_tail (h : ¬ start.bytes <:+: junk) (k : Nat) : (junk.drop k).take 4 ≠ start.bytes := fun heq =>
  h (heq ▸ (List.take_prefix 4 _).isInfix.trans (List.drop_suffix k junk).isInfix)

/-! ## Headers -/

/-- The buffer of the import, at the position `p`, where it has read ahead from `b` as far as it may. -/
structure BufferAt (file : List UInt8) (f : CBufferedFile) (nReadLimit p b : Nat) : Prop where
  valid : f.Valid
  src : f.src = file
  nBufSize : f.nBufSize = 2 * MAX_BLOCK_SIZE_CURRENT
  nRewind : f.nRewind = MAX_BLOCK_SIZE_CURRENT + 8
  limit : f.nReadLimit = nReadLimit
  pos : f.nReadPos = p
  near : f.nSrcPos ≤ b + MAX_BLOCK_SIZE_CURRENT

/-- The buffer when a round of the loop begins, which is to go back to `a`. -/
structure AtHead (file : List UInt8) (f : CBufferedFile) (a : Nat) : Prop where
  valid : f.Valid
  src : f.src = file
  nBufSize : f.nBufSize = 2 * MAX_BLOCK_SIZE_CURRENT
  nRewind : f.nRewind = MAX_BLOCK_SIZE_CURRENT + 8
  ge : a ≤ f.nReadPos
  le : f.nReadPos ≤ a + 7
  near : f.nSrcPos ≤ a + MAX_BLOCK_SIZE_CURRENT

variable {file : List UInt8} {f f' : CBufferedFile} {limit a b p q n : Nat}

theorem BufferAt.advance (h : BufferAt file f limit p b) (hadv : f.Advanced f' q) (hq : q ≤ b + 8) : BufferAt file f' limit q b := by
  refine ⟨hadv.valid, hadv.src.trans h.src, hadv.nBufSize.trans h.nBufSize, hadv.nRewind.trans h.nRewind, hadv.nReadLimit.trans h.limit,
    hadv.nReadPos, ?_⟩
  have hsrc := hadv.src_le
  have hnear := h.near
  rw [h.nBufSize, h.nRewind] at hsrc
  have hroom : 8 ≤ MAX_BLOCK_SIZE_CURRENT := by decide
  omega

theorem BufferAt.rebase {b' : Nat} (h : BufferAt file f limit p b) (hb : b ≤ b') : BufferAt file f limit p b' :=
  { h with near := h.near.trans (by omega) }

theorem BufferAt.atHead (h : BufferAt file f limit p b) (hge : b ≤ p) (hle : p ≤ b + 7) : AtHead file f b :=
  ⟨h.valid, h.src, h.nBufSize, h.nRewind, h.pos ▸ hge, h.pos ▸ hle, h.near⟩

theorem AtHead.reset (h : AtHead file f a) (hfile : file.length < 2 ^ 32) :
    BufferAt file ((f.setPos a).setLimit CBufferedFile.noLimit) CBufferedFile.noLimit a a := by
  have hge := h.ge
  have hread := h.valid.read_le
  have hsrc := h.valid.src_le
  have hnear := h.near
  obtain ⟨heq, hvalid⟩ := h.valid.setPos (hge.trans hread) (by rw [h.nRewind]; omega)
  have hlimit : ¬ CBufferedFile.noLimit < a := by
    rw [h.src] at hsrc
    rw [CBufferedFile.noLimit]
    omega
  have hset : (f.setPos a).setLimit CBufferedFile.noLimit = { f.setPos a with nReadLimit := CBufferedFile.noLimit } := by
    rw [CBufferedFile.setLimit, if_neg]
    rw [heq]
    exact hlimit
  rw [hset]
  refine ⟨⟨hvalid.room, hvalid.read_le, hvalid.src_le, hvalid.window, hvalid.held, hvalid.ended⟩, ?_, ?_, ?_, rfl, ?_, ?_⟩
  · rw [heq]; exact h.src
  · rw [heq]; exact h.nBufSize
  · rw [heq]; exact h.nRewind
  · rw [heq]
  · rw [heq]; exact h.near

theorem BufferAt.read_ok (h : BufferAt file f CBufferedFile.noLimit p b) (hfile : file.length < 2 ^ 32) (hn : p + 4 ≤ file.length)
    (hp : p + 4 ≤ b + 8) (fuel : Nat) (hfuel : 4 ≤ fuel) :
    ∃ f', f.read fuel 4 = some (.ok ((file.drop p).take 4, f')) ∧ BufferAt file f' CBufferedFile.noLimit (p + 4) b := by
  obtain ⟨f', hread, hadv⟩ := @CBufferedFile.readLoop_ok fuel f 4 h.valid (by rw [h.pos, h.src]; exact hn) hfuel
  rw [h.pos, h.src] at hread
  rw [h.pos] at hadv
  refine ⟨f', ?_, h.advance hadv hp⟩
  rw [CBufferedFile.read, h.limit, h.pos, h.nBufSize, h.nRewind, if_neg, if_neg, hread]
  · rw [MAX_BLOCK_SIZE_CURRENT]
    omega
  · rw [CBufferedFile.noLimit]
    omega

theorem BufferAt.read_error (h : BufferAt file f CBufferedFile.noLimit p b) (hle : p ≤ file.length)
    (hn : file.length < p + 4) (fuel : Nat) (hfuel : 4 ≤ fuel) : ∃ f', f.read fuel 4 = some (.error f') := by
  unfold CBufferedFile.read
  split
  · exact ⟨_, rfl⟩
  · split
    · exact ⟨_, rfl⟩
    · obtain ⟨f', hloop, -⟩ := @CBufferedFile.readLoop_error fuel f 4 h.valid (by rwa [h.pos, h.src]) (by rwa [h.pos, h.src]) hfuel
      exact ⟨f', hloop⟩

theorem locate_ended (h : BufferAt file f CBufferedFile.noLimit a a) (ha : a ≤ file.length)
    (hnone : ∀ p, a ≤ p → p < file.length → file.getD p 0 ≠ start.first) (fuel : Nat) (hfuel : file.length < fuel) :
    locate start fuel f = some .ended := by
  obtain ⟨f', hfind, -⟩ := @CBufferedFile.findByte_error fuel f start.first h.valid (by rwa [h.pos, h.src])
    (by rwa [h.pos, h.src]) (by rw [h.pos, h.src]; omega)
  rw [locate, hfind]

theorem BufferAt.findByte (h : BufferAt file f CBufferedFile.noLimit a a) {ch : UInt8} (hq : NextByte file ch a q)
    (fuel : Nat) (hfuel : file.length < fuel) :
    ∃ f', f.findByte fuel ch = some (.ok f') ∧ BufferAt file f' CBufferedFile.noLimit q q := by
  obtain ⟨haq, hlt, hch, hnot⟩ := hq
  obtain ⟨f', hfind, hadv⟩ := @CBufferedFile.findByte_ok q fuel f ch h.valid (by rwa [h.pos]) (by rwa [h.src])
    (by rwa [h.src]) (by rwa [h.pos, h.src]) (by rw [h.pos]; omega)
  exact ⟨f', hfind, (h.rebase haq).advance hadv (Nat.le_add_right _ _)⟩

theorem locate_rejected (h : BufferAt file f CBufferedFile.noLimit a a) (hfile : file.length < 2 ^ 32)
    (hq : NextByte file start.first a q) (hno : (file.drop q).take 4 ≠ start.bytes) (fuel : Nat) (hfuel : file.length + 4 ≤ fuel) :
    locate start fuel f = some .ended ∨ ∃ f', locate start fuel f = some (.rejected f' (q + 1)) ∧ AtHead file f' (q + 1) := by
  obtain ⟨f₁, hfind, h₁⟩ := h.findByte hq fuel (by omega)
  by_cases hlen : q + 4 ≤ file.length
  · obtain ⟨f₂, hread, h₂⟩ := h₁.read_ok hfile hlen (by omega) fuel (by omega)
    refine .inr ⟨f₂, ?_, (h₂.rebase (Nat.le_succ q)).atHead (by omega) (by omega)⟩
    rw [locate, hfind]
    simp only [hread, if_pos hno, h₁.pos]
  · obtain ⟨f₂, hread⟩ := h₁.read_error hq.2.1.le (by omega) fuel (by omega)
    refine .inl ?_
    rw [locate, hfind]
    simp only [hread]

theorem locate_found (h : BufferAt file f CBufferedFile.noLimit a a) (hfile : file.length < 2 ^ 32) (hq : NextByte file start.first a q)
    (hrecord : file.drop q = record start block ++ rest) (hsize : block.serialize.length ≤ MAX_BLOCK_SIZE_CURRENT)
    (fuel : Nat) (hfuel : file.length + 4 ≤ fuel) :
    ∃ f', locate start fuel f = some (.found f' (q + 1) block.serialize.length) ∧ BufferAt file f' CBufferedFile.noLimit (q + 8) q := by
  have hlen := congrArg List.length hrecord
  rw [List.length_drop, List.length_append, length_record] at hlen
  have hge := length_serialize_ge block
  obtain ⟨f₁, hfind, h₁⟩ := h.findByte hq fuel (by omega)
  obtain ⟨f₂, hread, h₂⟩ := h₁.read_ok hfile (by omega) (by omega) fuel (by omega)
  obtain ⟨f₃, hread', h₃⟩ := h₂.read_ok hfile (by omega) (by omega) fuel (by omega)
  have hstart : (file.drop q).take 4 = start.bytes := by
    rw [hrecord, record, List.append_assoc, List.take_left' start.length_bytes]
  have hnumber : (file.drop (q + 4)).take 4 = leBytes 4 block.serialize.length := by
    rw [← List.drop_drop, hrecord, record, List.append_assoc, List.drop_left' start.length_bytes, List.append_assoc,
      List.take_left' (length_leBytes 4 _)]
  have hvalue : ofLeBytes (leBytes 4 block.serialize.length) = block.serialize.length := by
    apply ofLeBytes_leBytes_of_lt
    rw [MAX_BLOCK_SIZE_CURRENT] at hsize
    omega
  refine ⟨f₃, ?_, h₃⟩
  rw [locate, hfind]
  simp only [hread, hstart, ne_eq, not_true, if_false, hread', hnumber, hvalue, h₁.pos]
  rw [if_neg (by omega)]

/-! ## The loop over a file -/

namespace ImportEnv

variable {σ : Type} {env : ImportEnv σ} {files : Nat → Option (List UInt8)} {st st₁ st' : ImportState σ} {nFile e : Nat}

/-- Whatever the buffer holds, in enough rounds the loop comes from the position `a` and `st` to `st'`. -/
def Scans (env : ImportEnv σ) (files : Nat → Option (List UInt8)) (file : List UInt8) (nFile a : Nat) (st st' : ImportState σ) : Prop :=
  ∃ N, ∀ f, AtHead file f a → ∀ nPos, ∀ fuel ≥ N, env.importLoop files fuel f a (some ⟨nFile, nPos⟩) st = some st'

theorem eof_eq_false (h : AtHead file f a) (hlen : a + 8 ≤ file.length) : f.eof = false := by
  have hle := h.le
  by_contra heof
  rw [Bool.not_eq_false, CBufferedFile.eof, Bool.and_eq_true, beq_iff_eq] at heof
  have hend := h.valid.ended heof.2
  rw [← heof.1, h.src] at hend
  omega

theorem scans_of_rejected (hfile : file.length < 2 ^ 32) (hq : NextByte file env.messageStart.first a q)
    (hno : (file.drop q).take 4 ≠ env.messageStart.bytes) (hend : q + 12 ≤ file.length ∨ st' = st)
    (hnext : env.Scans files file nFile (q + 1) st st') : env.Scans files file nFile a st st' := by
  obtain ⟨N, hnext⟩ := hnext
  refine ⟨max N (file.length + 4) + 1, fun f hf nPos fuel hfuel => ?_⟩
  obtain ⟨fuel, rfl⟩ := Nat.exists_eq_add_of_le' (Nat.le_trans (Nat.le_add_left 1 _) hfuel)
  rw [importLoop]
  rcases hend with hend | rfl
  · have haq := hq.1
    rw [eof_eq_false hf (by omega), if_neg Bool.false_ne_true]
    obtain ⟨f₁, hfind, h₁⟩ := (hf.reset hfile).findByte hq fuel (by omega)
    obtain ⟨f₂, hread, h₂⟩ := h₁.read_ok hfile (by omega) (by omega) fuel (by omega)
    have hlocate : locate env.messageStart fuel ((f.setPos a).setLimit CBufferedFile.noLimit) = some (.rejected f₂ (q + 1)) := by
      rw [locate, hfind]
      simp only [hread, if_pos hno, h₁.pos]
    rw [hlocate]
    exact hnext f₂ ((h₂.rebase (Nat.le_succ q)).atHead (by omega) (by omega)) nPos fuel (by omega)
  · cases heof : f.eof with
    | true => rfl
    | false =>
      rw [if_neg Bool.false_ne_true]
      rcases locate_rejected (hf.reset hfile) hfile hq hno fuel (by omega) with hlocate | ⟨f', hlocate, hf'⟩
      · rw [hlocate]
      · rw [hlocate]
        exact hnext f' hf' nPos fuel (by omega)

/-- Bytes at the end without a header. -/
theorem scans_tail (hfile : file.length < 2 ^ 32) : ∀ {a : Nat}, a ≤ file.length →
    (∀ p, a ≤ p → (file.drop p).take 4 ≠ env.messageStart.bytes) → env.Scans files file nFile a st st := by
  intro a
  induction hn : file.length - a using Nat.strong_induction_on generalizing a with
  | _ n ih =>
    intro ha hno
    rcases exists_nextByte file env.messageStart.first a with ⟨q, hq⟩ | hnone
    · have haq := hq.1
      have hlt := hq.2.1
      exact scans_of_rejected hfile hq (hno q haq) (.inr rfl)
        (ih (file.length - (q + 1)) (by omega) rfl hlt fun p hp => hno p (by omega))
    · refine ⟨file.length + 2, fun f hf nPos fuel hfuel => ?_⟩
      obtain ⟨fuel, rfl⟩ := Nat.exists_eq_add_of_le' (Nat.le_trans (Nat.le_add_left 1 _) hfuel)
      rw [importLoop]
      cases heof : f.eof with
      | true => rfl
      | false =>
        rw [if_neg Bool.false_ne_true, locate_ended (hf.reset hfile) ha hnone fuel (by omega)]

theorem readBlock_ok {n : Nat} (h : BufferAt file f CBufferedFile.noLimit (q + 8) q) (hfile : file.length < 2 ^ 32)
    (hblock : file.drop (q + 8) = block.serialize ++ rest) (hstored : env.Stored block) (hn : n = block.serialize.length)
    (fuel : Nat) (hfuel : file.length ≤ fuel) :
    ∃ f', env.readBlock fuel ((f.setLimit (q + 8 + n)).setPos (q + 8)) = some (.ok (block, f')) ∧
      AtHead file f' (q + 8 + n) ∧ f'.nReadPos = q + 8 + n := by
  subst hn
  rw [← h.pos]
  have hlen := congrArg List.length hblock
  rw [List.length_drop, List.length_append] at hlen
  have hge := length_serialize_ge block
  have hread := h.valid.read_le
  have hnear := h.near
  have hset : f.setLimit (f.nReadPos + block.serialize.length) = { f with nReadLimit := f.nReadPos + block.serialize.length } :=
    if_neg (by omega)
  have hv := h.valid
  have hvalid : CBufferedFile.Valid { f with nReadLimit := f.nReadPos + block.serialize.length } :=
    ⟨hv.room, hv.read_le, hv.src_le, hv.window, hv.held, hv.ended⟩
  obtain ⟨heq, -⟩ := hvalid.setPos (p := f.nReadPos) hread (by
    change f.nSrcPos ≤ f.nReadPos + f.nRewind
    rw [h.nRewind, h.pos]
    omega)
  have hbytes : (f.src.drop f.nReadPos).take (f.nReadPos + block.serialize.length - f.nReadPos) = block.serialize := by
    rw [h.src, h.pos, hblock, Nat.add_sub_cancel_left, List.take_left]
  have hunserialize := hstored.reads []
  rw [List.append_nil] at hunserialize
  obtain ⟨f', hloop, hadv⟩ := @CBufferedFile.readLoop_ok fuel _ block.serialize.length hvalid (by
    change f.nReadPos + block.serialize.length ≤ f.src.length
    rw [h.src, h.pos]
    omega) (by omega)
  refine ⟨f', ?_, ⟨hadv.valid, hadv.src.trans h.src, hadv.nBufSize.trans h.nBufSize, hadv.nRewind.trans h.nRewind, ?_, ?_, ?_⟩, ?_⟩
  · rw [hset, heq, readBlock]
    simp only [hbytes, hunserialize, List.length_nil, Nat.sub_zero, hloop]
  · rw [hadv.nReadPos]
  · rw [hadv.nReadPos]
    exact Nat.le_add_right _ _
  · have hsrc := hadv.src_le
    change f'.nSrcPos ≤ max f.nSrcPos (f.nReadPos + block.serialize.length + (f.nBufSize - f.nRewind)) at hsrc
    rw [h.nBufSize, h.nRewind] at hsrc
    have hpos := h.pos
    have hroom : 8 ≤ MAX_BLOCK_SIZE_CURRENT := by decide
    omega
  · rw [hadv.nReadPos]

/-- Bytes without a header, and a block behind them. -/
theorem scans_record (hfile : file.length < 2 ^ 32) (hrecord : file.drop e = record env.messageStart block ++ rest)
    (hstored : env.Stored block) {M : Nat}
    (himport : ∀ fuel ≥ M, env.importBlock files fuel st block (some ⟨nFile, UInt32.ofNat (e + 8)⟩) = some (st₁, false))
    (hnext : env.Scans files file nFile (e + (record env.messageStart block).length) st₁ st') : ∀ {a : Nat}, a ≤ e →
    (∀ p, a ≤ p → p < e → (file.drop p).take 4 ≠ env.messageStart.bytes) → env.Scans files file nFile a st st' := by
  have hlen := congrArg List.length hrecord
  rw [List.length_drop, List.length_append, length_record] at hlen
  have hge := length_serialize_ge block
  have hfirst : file.getD e 0 = env.messageStart.first := by
    have hget : (file.drop e)[0]? = some env.messageStart.first := by
      rw [hrecord]
      rfl
    rw [List.getElem?_drop, Nat.add_zero] at hget
    rw [List.getD_eq_getElem?_getD, hget, Option.getD_some]
  intro a
  induction hn : e - a using Nat.strong_induction_on generalizing a with
  | _ n ih =>
    intro hae hno
    rcases exists_nextByte file env.messageStart.first a with ⟨q, hq⟩ | hnone
    · have haq := hq.1
      have hqe : q ≤ e := by
        by_contra hlt
        exact hq.2.2.2 e hae (Nat.not_le.mp hlt) hfirst
      rcases Nat.lt_or_eq_of_le hqe with hqe | rfl
      · exact scans_of_rejected hfile hq (hno q haq hqe) (.inl (by omega))
          (ih (e - (q + 1)) (by omega) rfl hqe fun p hp hpe => hno p (by omega) hpe)
      · obtain ⟨N, hnext⟩ := hnext
        refine ⟨max (max N M) (file.length + 4) + 1, fun f hf nPos fuel hfuel => ?_⟩
        obtain ⟨fuel, rfl⟩ := Nat.exists_eq_add_of_le' (Nat.le_trans (Nat.le_add_left 1 _) hfuel)
        obtain ⟨f₁, hlocate, h₁⟩ := locate_found (hf.reset hfile) hfile hq hrecord hstored.size_le fuel (by omega)
        have hblock : file.drop (q + 8) = block.serialize ++ rest := by rw [← List.drop_drop, hrecord, drop_record]
        obtain ⟨f₂, hread, h₂, hpos⟩ := readBlock_ok h₁ hfile hblock hstored rfl fuel (by omega)
        rw [importLoop, eof_eq_false hf (by omega), if_neg Bool.false_ne_true, hlocate]
        simp only [Option.map_some, h₁.pos, hread, himport fuel (by omega), hpos]
        rw [length_record, ← Nat.add_assoc] at hnext
        exact hnext f₂ h₂ _ fuel (by omega)
    · exact absurd hfirst (hnone e hae (by omega))

end ImportEnv

/-! ## The blocks of the files -/

/-- The places of the blocks of a file, from the position `a` on. -/
def places (nFile : Nat) : Nat → List (List UInt8 × Encoded.CBlock) → List PlacedBlock
  | _, [] => []
  | a, (junk, block) :: blocks =>
    (⟨nFile, UInt32.ofNat (a + junk.length + 8)⟩, block) :: places nFile (a + junk.length + (8 + block.serialize.length)) blocks

/-- The places of the blocks of the files, from the number `nFile` on. -/
def allPlaces : Nat → List BlockFile → List PlacedBlock
  | _, [] => []
  | nFile, file :: files => places nFile 0 file.blocks ++ allPlaces (nFile + 1) files

variable {blocks : List (List UInt8 × Encoded.CBlock)} {tail : List UInt8} {x : PlacedBlock} {nFile : Nat}

theorem drop_cons {a : Nat} (hdrop : file.drop a = recordBytes start ((junk, block) :: blocks) ++ tail) :
    file.drop a = junk ++ (record start block ++ (recordBytes start blocks ++ tail)) ∧
    a + junk.length + (8 + block.serialize.length) ≤ file.length ∧
    file.drop (a + junk.length) = record start block ++ (recordBytes start blocks ++ tail) ∧
    file.drop (a + junk.length + (8 + block.serialize.length)) = recordBytes start blocks ++ tail := by
  have hfirst : file.drop a = junk ++ (record start block ++ (recordBytes start blocks ++ tail)) := by
    rw [hdrop, recordBytes, List.flatMap_cons, List.append_assoc, List.append_assoc]
    rfl
  have hlen := congrArg List.length hfirst
  rw [List.length_drop, List.length_append, List.length_append, length_record] at hlen
  have hge := length_serialize_ge block
  have hblock : file.drop (a + junk.length) = record start block ++ (recordBytes start blocks ++ tail) := by
    rw [← List.drop_drop, hfirst, List.drop_left]
  refine ⟨hfirst, by omega, hblock, ?_⟩
  rw [← List.drop_drop, hblock, ← length_record start, List.drop_left]

theorem mem_places : ∀ {blocks : List (List UInt8 × Encoded.CBlock)} {a : Nat}, file.drop a = recordBytes start blocks ++ tail →
    x ∈ places nFile a blocks → ∃ p rest, a + 8 ≤ p ∧ p < file.length ∧ x.1 = ⟨nFile, UInt32.ofNat p⟩ ∧
      file.drop p = x.2.serialize ++ rest ∧ ∃ r ∈ blocks, r.2 = x.2
  | (junk, block) :: blocks, a, hfile, hx => by
    obtain ⟨-, hlen, hblock, hnext⟩ := drop_cons hfile
    have hge := length_serialize_ge block
    rcases List.mem_cons.mp hx with rfl | hx
    · refine ⟨a + junk.length + 8, recordBytes start blocks ++ tail, by omega, by omega, rfl, ?_, _, List.mem_cons_self, rfl⟩
      rw [← List.drop_drop, hblock, drop_record]
    · obtain ⟨p, rest, hp, hlt, hpos, hdrop, r, hr, heq⟩ := mem_places hnext hx
      exact ⟨p, rest, by omega, hlt, hpos, hdrop, r, List.mem_cons_of_mem _ hr, heq⟩

theorem nodup_places (hfile : file.length < 2 ^ 32) : ∀ {blocks : List (List UInt8 × Encoded.CBlock)} {a : Nat},
    file.drop a = recordBytes start blocks ++ tail → (places nFile a blocks).Nodup
  | [], _, _ => .nil
  | (junk, block) :: blocks, a, hdrop => by
    obtain ⟨-, hlen, -, hnext⟩ := drop_cons hdrop
    refine List.nodup_cons.mpr ⟨fun hx => ?_, nodup_places hfile hnext⟩
    obtain ⟨p, rest, hp, hlt, hpos, -⟩ := mem_places hnext hx
    -- the later places are higher
    have hnat := congrArg (fun pos => pos.nPos.toNat) hpos
    simp only [UInt32.toNat_ofNat'] at hnat
    rw [Nat.mod_eq_of_lt (by omega), Nat.mod_eq_of_lt (by omega)] at hnat
    omega

namespace ImportEnv

variable {σ : Type} {env : ImportEnv σ} {files : Nat → Option (List UInt8)} {items waiting taken : List PlacedBlock} {st : ImportState σ}

theorem Readable.subset {items' : List PlacedBlock} (h : env.Readable files items) (hsub : items' ⊆ items) : env.Readable files items' :=
  fun x hx => h x (hsub hx)

theorem Imported.scans (henv : env.AcceptsChildren) (hfile : file.length < 2 ^ 32) (htail : ¬ env.messageStart.bytes <:+: tail) :
    ∀ {blocks : List (List UInt8 × Encoded.CBlock)} {a : Nat} {items waiting taken : List PlacedBlock} {st : ImportState σ},
      a ≤ file.length → file.drop a = recordBytes env.messageStart blocks ++ tail →
      (∀ r ∈ blocks, ¬ env.messageStart.bytes <:+: r.1 ∧ env.Stored r.2) → env.Readable files (items ++ places nFile a blocks) →
      (items ++ places nFile a blocks).Nodup → env.Imported items waiting taken st [] →
      ∃ waiting' taken' st', env.Scans files file nFile a st st' ∧ env.Imported (items ++ places nFile a blocks) waiting' taken' st' []
  | [], a, items, waiting, taken, st, ha, hdrop, _, _, _, h => by
    have hscan : env.Scans files file nFile a st st := by
      refine scans_tail hfile ha fun p hp => ?_
      obtain ⟨k, rfl⟩ := Nat.exists_eq_add_of_le hp
      rw [← List.drop_drop, hdrop]
      exact MessageStart.take_ne_of_tail htail k
    refine ⟨waiting, taken, st, hscan, ?_⟩
    rwa [places, List.append_nil]
  | (junk, block) :: blocks, a, items, waiting, taken, st, ha, hdrop, hblocks, hread, hnodup, h => by
    obtain ⟨⟨hjunk, hstored⟩, hblocks'⟩ := List.forall_mem_cons.mp hblocks
    obtain ⟨hfirst, hlen, hblock, hnext⟩ := drop_cons hdrop
    rw [places, ← List.singleton_append, ← List.append_assoc] at hread hnodup ⊢
    have hx := List.disjoint_of_nodup_append hnodup.of_append_left
    obtain ⟨waiting₁, taken₁, st₁, himport, h₁⟩ := h.importBlock henv (hread.subset (List.subset_append_left _ _))
      fun hmem => hx hmem (List.mem_singleton_self _)
    obtain ⟨waiting', taken', st', hscan, h'⟩ := Imported.scans henv hfile htail hlen hnext hblocks' hread hnodup h₁
    refine ⟨waiting', taken', st', ?_, h'⟩
    rw [← length_record env.messageStart] at hscan
    refine scans_record hfile hblock hstored himport hscan (Nat.le_add_right _ _) fun p hp hpe => ?_
    obtain ⟨k, rfl⟩ := Nat.exists_eq_add_of_le hp
    rw [← List.drop_drop, hfirst, record, List.append_assoc]
    exact MessageStart.take_ne hjunk (by omega)

theorem Imported.loadExternalBlockFile {blockFile : BlockFile} (henv : env.AcceptsChildren) (hwf : env.WellFormed blockFile)
    (hread : env.Readable files (items ++ places nFile 0 blockFile.blocks)) (hnodup : (items ++ places nFile 0 blockFile.blocks).Nodup)
    (h : env.Imported items waiting taken st []) :
    ∃ waiting' taken' st' N, (∀ fuel ≥ N, ∃ loaded,
      env.loadExternalBlockFile files fuel (blockFile.bytes env.messageStart) (some ⟨nFile, 0⟩) st = some (loaded, st')) ∧
      env.Imported (items ++ places nFile 0 blockFile.blocks) waiting' taken' st' [] := by
  obtain ⟨waiting', taken', st', ⟨N, hscan⟩, h'⟩ := h.scans henv hwf.length_lt hwf.tail (Nat.zero_le _) rfl
    (fun r hr => ⟨hwf.junk r hr, hwf.stored r hr⟩) hread hnodup
  have hhead : AtHead (blockFile.bytes env.messageStart) (CBufferedFile.new (blockFile.bytes env.messageStart)
      (2 * MAX_BLOCK_SIZE_CURRENT) (MAX_BLOCK_SIZE_CURRENT + 8)) 0 :=
    ⟨CBufferedFile.valid_new (by decide), rfl, rfl, rfl, le_rfl, Nat.zero_le _, Nat.zero_le _⟩
  refine ⟨waiting', taken', st', N, fun fuel hfuel => ⟨decide (st.loaded.length < st'.loaded.length), ?_⟩, h'⟩
  exact congrArg (Option.map fun st' => (decide (st.loaded.length < st'.loaded.length), st')) (hscan _ hhead 0 fuel hfuel)

end ImportEnv

end DigiWage
