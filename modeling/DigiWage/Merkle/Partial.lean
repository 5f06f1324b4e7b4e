import DigiWage.Chain.CheckBlock
import DigiWage.Coins.Serialize
import DigiWage.Hash
import DigiWage.Merkle.Root
import Mathlib.Data.Nat.Pairing

/-!
# Partial merkle trees

`CPartialMerkleTree` of `merkleblock.h` and `merkleblock.cpp`: some matched transactions of a block with the hashes that
connect them to the merkle root. The tree is walked depth first; a flag for each node that is visited says whether it is
over a match, and only where it is are its children visited. The model is over any type of hashes and any pair hash. The
trees are those of at most 33333 transactions, the limit of `ExtractMatches`, where no position or width wraps around.

* `traverseAndExtract_build`: the walk of the decoder over what the encoder stored gives the node and its matches.
* `traverseAndExtract_sound`: with an injective pair hash, a walk over any flags and hashes that ends with a node of a
  tree has matched leaves of that tree only.
-/

namespace DigiWage

open Lib Lib.Merkle

structure CPartialMerkleTree (α : Type) where
  nTransactions : Nat
  vBits : List Bool
  vHash : List α
  fBad : Bool
deriving DecidableEq

/-- `Hash(BEGIN(left), END(left), BEGIN(right), END(right))`. -/
def hashPair (left right : Uint256) : Uint256 := hash256 (writeUint256 left ++ writeUint256 right)

namespace CPartialMerkleTree

def calcTreeWidth (nTransactions height : Nat) : Nat := (nTransactions + 1 <<< height - 1) >>> height

theorem calcTreeWidth_eq (n h : Nat) : calcTreeWidth n h = width n h := by
  rw [calcTreeWidth, width, Nat.shiftLeft_eq, Nat.shiftRight_eq_div_pow, Nat.one_mul]

/-- The loop for the height of the tree, from `nHeight` on. -/
def heightFrom (nTransactions nHeight : Nat) : Nat :=
  if 1 < calcTreeWidth nTransactions nHeight then heightFrom nTransactions (nHeight + 1) else nHeight
termination_by calcTreeWidth nTransactions nHeight
decreasing_by
  rw [calcTreeWidth_eq, calcTreeWidth_eq, width_succ]
  rename_i h
  rw [calcTreeWidth_eq] at h
  omega

/-! ## Building a tree -/

section build

variable {α : Type} [Zero α] (hash : α → α → α) (nTransactions : Nat) (vTxid : List α) (vMatch : List Bool)

def calcHash : Nat → Nat → α
  | 0, pos => vTxid.getD pos 0
  | height + 1, pos =>
    let left := calcHash height (pos * 2)
    let right := if pos * 2 + 1 < calcTreeWidth nTransactions height then calcHash height (pos * 2 + 1) else left
    hash left right

/-- `fParentOfMatch` of `TraverseAndBuild`. -/
def parentOfMatch (height pos : Nat) : Bool :=
  (List.range (2 ^ height)).any fun i =>
    decide (pos <<< height + i < nTransactions) && vMatch.getD (pos <<< height + i) false

/-- `TraverseAndBuild`: the bits and the hashes that it appends. -/
def traverseAndBuild : Nat → Nat → List Bool × List α
  | 0, pos => ([parentOfMatch nTransactions vMatch 0 pos], [calcHash hash nTransactions vTxid 0 pos])
  | height + 1, pos =>
    if parentOfMatch nTransactions vMatch (height + 1) pos then
      let left := traverseAndBuild height (pos * 2)
      if pos * 2 + 1 < calcTreeWidth nTransactions height then
        let right := traverseAndBuild height (pos * 2 + 1)
        (true :: (left.1 ++ right.1), left.2 ++ right.2)
      else (true :: left.1, left.2)
    else ([false], [calcHash hash nTransactions vTxid (height + 1) pos])

/-- The constructor from the transaction ids and the mask of the matched ones. -/
def new (hash : α → α → α) (vTxid : List α) (vMatch : List Bool) : CPartialMerkleTree α :=
  let r := traverseAndBuild hash vTxid.length vTxid vMatch (heightFrom vTxid.length 0) 0
  ⟨vTxid.length, r.1, r.2, false⟩

end build

/-! ## Extracting the matches -/

/-- What `TraverseAndExtract` changes: the two counts of what is used, `vMatch`, and `fBad` of the tree. -/
structure Extract (α : Type) where
  nBitsUsed : Nat
  nHashUsed : Nat
  vMatch : List α
  fBad : Bool

section extract

variable {α : Type} [Zero α] (hash : α → α → α) (t : CPartialMerkleTree α)

/-- The branch of `TraverseAndExtract` that takes a stored hash, a match or not. `none` is a read outside `vHash`. -/
def useHash (fMatched : Bool) (s : Extract α) : Option (α × Extract α) :=
  if t.vHash.length ≤ s.nHashUsed then some (0, { s with fBad := true })
  else do
    let h ← t.vHash[s.nHashUsed]?
    some (h, { s with nHashUsed := s.nHashUsed + 1, vMatch := if fMatched then s.vMatch ++ [h] else s.vMatch })

/-- `TraverseAndExtract`; `none` is a read outside `vBits` or `vHash`. -/
def traverseAndExtract : Nat → Nat → Extract α → Option (α × Extract α)
  | height, pos, s =>
    if t.vBits.length ≤ s.nBitsUsed then some (0, { s with fBad := true })
    else do
      let fParentOfMatch ← t.vBits[s.nBitsUsed]?
      let s := { s with nBitsUsed := s.nBitsUsed + 1 }
      match height with
      | 0 => t.useHash fParentOfMatch s
      | height + 1 =>
        if fParentOfMatch then do
          let (left, s) ← traverseAndExtract height (pos * 2) s
          if pos * 2 + 1 < calcTreeWidth t.nTransactions height then do
            let (right, s) ← traverseAndExtract height (pos * 2 + 1) s
            some (hash left right, s)
          else some (hash left left, s)
        else t.useHash false s

/-- The limit of `ExtractMatches`: a serialized transaction has at least 60 bytes. -/
def maxTransactions : Nat := maxBlockSize / 60

/-- `ExtractMatches`: the root, or zero in case of failure, and the variables at the end, of which `vMatch` and `fBad`
outlive the call; `none` is a read out of range. -/
def extractMatches : Option (α × Extract α) :=
  let s : Extract α := ⟨0, 0, [], t.fBad⟩
  if t.nTransactions = 0 then some (0, s)
  else if maxTransactions < t.nTransactions then some (0, s)
  else if t.nTransactions < t.vHash.length then some (0, s)
  else if t.vBits.length < t.vHash.length then some (0, s)
  else do
    let (hashMerkleRoot, s) ← traverseAndExtract hash t (heightFrom t.nTransactions 0) 0 s
    if s.fBad then some (0, s)
    else if (s.nBitsUsed + 7) / 8 ≠ (t.vBits.length + 7) / 8 then some (0, s)
    else if s.nHashUsed ≠ t.vHash.length then some (0, s)
    else some (hashMerkleRoot, s)

end extract

/-! ## Serialization -/

/-- The byte at index `i` of `vBytes`: eight bits, the first one lowest. -/
def flagByte (vBits : List Bool) (i : Nat) : UInt8 :=
  (List.range 8).foldl (fun ch p => if vBits.getD (i * 8 + p) false then ch ||| UInt8.ofNat (1 <<< p) else ch) 0

/-- `vBytes` of the writing side. -/
def packBits (vBits : List Bool) : List UInt8 := (List.range ((vBits.length + 7) / 8)).map (flagByte vBits)

/-- `vBits` of the reading side. -/
def unpackBits (vBytes : List UInt8) : List Bool :=
  (List.range (vBytes.length * 8)).map fun p => vBytes.getD (p / 8) 0 &&& UInt8.ofNat (1 <<< (p % 8)) != 0

/-- `SerializationOp`, writing. -/
def serialize (t : CPartialMerkleTree Uint256) : List UInt8 :=
  leBytes 4 t.nTransactions ++ (writeVector writeUint256 t.vHash ++ writeVector (fun b => [b]) (packBits t.vBits))

/-- `SerializationOp`, reading. -/
def unserialize (s : Stream) : Option (CPartialMerkleTree Uint256 × Stream) := do
  let (nTransactions, s) ← readUInt 4 s
  let (vHash, s) ← readVector readUint256 s
  let (vBytes, s) ← readVector readUInt8 s
  some (⟨nTransactions, unpackBits vBytes, vHash, false⟩, s)

/-! ## The height of the tree -/

theorem heightFrom_spec {n : Nat} (h : Nat) (hlt : 2 ^ h < 2 * n) : IsHeight n (heightFrom n h) := by
  fun_induction heightFrom n h with
  | case1 h hwide ih =>
    rw [calcTreeWidth_eq, one_lt_width] at hwide
    exact ih (by rw [pow_succ]; omega)
  | case2 h htop =>
    rw [calcTreeWidth_eq, one_lt_width] at htop
    exact ⟨by omega, hlt⟩

theorem heightFrom_isHeight {n : Nat} (hn : 0 < n) : IsHeight n (heightFrom n 0) := heightFrom_spec 0 (by omega)

/-! ## Completeness -/

section complete

variable {α : Type} [Zero α] {hash : α → α → α} {vTxid : List α} {vMatch : List Bool}

theorem calcHash_eq (n height pos : Nat) :
    calcHash hash n vTxid height pos = node hash (fun i => vTxid.getD i 0) n height pos := by
  induction height generalizing pos with
  | zero => rfl
  | succ height ih =>
    rw [calcHash, ih, ih, calcTreeWidth_eq, Nat.mul_comm pos 2]
    by_cases hlt : 2 * pos + 1 < width n height
    · rw [node_succ_of_lt hlt]
      simp [hlt]
    · rw [node_succ_of_not_lt hlt]
      simp [hlt]

/-- The matched ones among some ids with their flags, in order. -/
def matched (l : List (α × Bool)) : List α := (l.filter fun r => r.2).map fun r => r.1

omit [Zero α] in
theorem matched_append (l l' : List (α × Bool)) : matched (l ++ l') = matched l ++ matched l' := by
  simp [matched]

omit [Zero α] in
theorem matched_eq_nil {l : List (α × Bool)} (h : (l.any fun r => r.2) = false) : matched l = [] := by
  rw [List.any_eq_false] at h
  rw [matched, List.filter_eq_nil_iff.mpr h, List.map_nil]

omit [Zero α] in
theorem parentOfMatch_eq (hlen : vMatch.length = vTxid.length) (height pos : Nat) :
    parentOfMatch vTxid.length vMatch height pos = (slice (vTxid.zip vMatch) height pos).any fun r => r.2 := by
  rw [Bool.eq_iff_iff, parentOfMatch, List.any_eq_true, List.any_eq_true]
  simp only [Nat.shiftLeft_eq, Bool.and_eq_true, decide_eq_true_eq, List.mem_range]
  constructor
  · rintro ⟨i, hi, hlt, hm⟩
    have hzip : pos * 2 ^ height + i < (vTxid.zip vMatch).length := by simp [hlen, hlt]
    refine ⟨(vTxid.zip vMatch)[pos * 2 ^ height + i], ?_, ?_⟩
    · rw [slice, List.mem_take_iff_getElem]
      exact ⟨i, by simp [hlen]; omega, by simp⟩
    · rw [List.getD_eq_getElem _ _ (by omega)] at hm
      simpa using hm
  · rintro ⟨r, hr, hm⟩
    rw [slice, List.mem_take_iff_getElem] at hr
    obtain ⟨i, hi, rfl⟩ := hr
    simp only [List.length_drop, List.length_zip, hlen, Nat.min_self] at hi
    refine ⟨i, by omega, by omega, ?_⟩
    rw [List.getD_eq_getElem _ _ (by omega)]
    simpa using hm

theorem length_build (height pos : Nat) (hpos : pos < width vTxid.length height) :
    (traverseAndBuild hash vTxid.length vTxid vMatch height pos).2.length ≤ (slice vTxid height pos).length ∧
      (traverseAndBuild hash vTxid.length vTxid vMatch height pos).2.length ≤
        (traverseAndBuild hash vTxid.length vTxid vMatch height pos).1.length ∧
      (traverseAndBuild hash vTxid.length vTxid vMatch height pos).1.length < 2 ^ (height + 1) := by
  have hone : ∀ {h p}, p < width vTxid.length h → 1 ≤ (slice vTxid h p).length := by
    intro h p hp
    rw [lt_width] at hp
    have := Nat.two_pow_pos h
    rw [slice, List.length_take, List.length_drop]
    omega
  induction height generalizing pos with
  | zero => exact ⟨hone hpos, le_refl _, by simp [traverseAndBuild]⟩
  | succ height ih =>
    have hpow : 2 ^ (height + 1 + 1) = 2 ^ (height + 1) + 2 ^ (height + 1) := by ring
    have hpow' := Nat.two_pow_pos (height + 1)
    rw [traverseAndBuild]
    split
    · obtain ⟨h1, h2, h3⟩ := ih (2 * pos) (left_lt_width hpos)
      rw [slice_succ, List.length_append, Nat.mul_comm pos 2, calcTreeWidth_eq]
      split
      · rename_i hright
        obtain ⟨h4, h5, h6⟩ := ih (2 * pos + 1) hright
        simp only [List.length_cons, List.length_append]
        omega
      · simp only [List.length_cons]
        omega
    · have := hone hpos
      simp only [List.length_cons, List.length_nil]
      omega

end complete

section decode

variable {β : Type}

theorem drop_eq_cons {l r : List β} {k : Nat} {a : β} (h : l.drop k = a :: r) :
    k < l.length ∧ l[k]? = some a ∧ l.drop (k + 1) = r := by
  have hlt : k < l.length := by
    by_contra hge
    rw [List.drop_eq_nil_of_le (by omega)] at h
    cases h
  rw [List.drop_eq_getElem_cons hlt] at h
  obtain ⟨ha, hr⟩ := List.cons_eq_cons.mp h
  exact ⟨hlt, by rw [List.getElem?_eq_getElem hlt, ha], hr⟩

theorem drop_eq_append {l a r : List β} {k : Nat} (h : l.drop k = a ++ r) : l.drop (k + a.length) = r := by
  rw [← List.drop_drop, h, List.drop_left]

end decode

section complete

variable {α : Type} [Zero α] {hash : α → α → α} {vTxid : List α} {vMatch : List Bool} {t : CPartialMerkleTree α}

theorem useHash_eq (fMatched : Bool) {s : Extract α} {h : α} {hashes : List α}
    (hs : t.vHash.drop s.nHashUsed = h :: hashes) : t.useHash fMatched s =
      some (h, { s with nHashUsed := s.nHashUsed + 1, vMatch := if fMatched then s.vMatch ++ [h] else s.vMatch }) := by
  obtain ⟨hlt, hget, -⟩ := drop_eq_cons hs
  rw [useHash, if_neg (by omega), hget]
  rfl

theorem traverseAndExtract_build (hlen : vMatch.length = vTxid.length) (hn : t.nTransactions = vTxid.length)
    (height pos : Nat) (hpos : pos < width vTxid.length height) (s : Extract α) (bits : List Bool) (hashes : List α)
    (hbits : t.vBits.drop s.nBitsUsed = (traverseAndBuild hash vTxid.length vTxid vMatch height pos).1 ++ bits)
    (hhashes : t.vHash.drop s.nHashUsed = (traverseAndBuild hash vTxid.length vTxid vMatch height pos).2 ++ hashes) :
    traverseAndExtract hash t height pos s = some (calcHash hash vTxid.length vTxid height pos,
      ⟨s.nBitsUsed + (traverseAndBuild hash vTxid.length vTxid vMatch height pos).1.length,
        s.nHashUsed + (traverseAndBuild hash vTxid.length vTxid vMatch height pos).2.length,
        s.vMatch ++ matched (slice (vTxid.zip vMatch) height pos), s.fBad⟩) := by
  induction height generalizing pos s bits hashes with
  | zero =>
    obtain ⟨hlt, hget, -⟩ := drop_eq_cons hbits
    have hlast : pos < vTxid.length := by rwa [width_zero] at hpos
    have hslice : slice (vTxid.zip vMatch) 0 pos = [(vTxid[pos], vMatch[pos])] := by
      rw [slice_zero (by simp [hlen, hlast]), List.getElem_zip]
    have hm : parentOfMatch vTxid.length vMatch 0 pos = vMatch[pos] := by
      rw [parentOfMatch_eq hlen, hslice]
      simp
    rw [traverseAndExtract, if_neg (by omega), hget]
    simp only [Option.bind_eq_bind, Option.bind_some]
    rw [useHash_eq _ (s := ⟨s.nBitsUsed + 1, s.nHashUsed, s.vMatch, s.fBad⟩) hhashes, hslice, hm, calcHash,
      List.getD_eq_getElem _ _ hlast]
    cases vMatch[pos] <;> simp [matched, traverseAndBuild]
  | succ height ih =>
    rw [traverseAndBuild] at hbits hhashes ⊢
    cases hm : parentOfMatch vTxid.length vMatch (height + 1) pos with
    | false =>
      simp only [hm, Bool.false_eq_true, if_false] at hbits hhashes ⊢
      obtain ⟨hlt, hget, -⟩ := drop_eq_cons hbits
      rw [parentOfMatch_eq hlen] at hm
      rw [traverseAndExtract, if_neg (by omega), hget]
      simp only [Option.bind_eq_bind, Option.bind_some, Bool.false_eq_true, if_false]
      rw [useHash_eq _ (s := ⟨s.nBitsUsed + 1, s.nHashUsed, s.vMatch, s.fBad⟩) hhashes, matched_eq_nil hm]
      simp
    | true =>
      simp only [hm, if_true] at hbits hhashes ⊢
      have hleft : pos * 2 < width vTxid.length height := by
        rw [Nat.mul_comm]
        exact left_lt_width hpos
      rw [traverseAndExtract, calcHash, slice_succ, matched_append, hn, Nat.mul_comm 2 pos]
      by_cases hwide : pos * 2 + 1 < calcTreeWidth vTxid.length height
      · simp only [hwide, if_true, List.cons_append, List.append_assoc] at hbits hhashes ⊢
        obtain ⟨hlt, hget, htail⟩ := drop_eq_cons hbits
        have h1 := ih (pos * 2) hleft ⟨s.nBitsUsed + 1, s.nHashUsed, s.vMatch, s.fBad⟩ _ _ htail hhashes
        have h2 := ih (pos * 2 + 1) (by rwa [calcTreeWidth_eq] at hwide)
          ⟨_, _, s.vMatch ++ matched (slice (vTxid.zip vMatch) height (pos * 2)), s.fBad⟩ _ _
          (drop_eq_append htail) (drop_eq_append hhashes)
        rw [if_neg (by omega), hget]
        simp only [Option.bind_eq_bind, Option.bind_some, if_true]
        rw [h1]
        simp only [Option.bind_some]
        rw [h2]
        simp [Nat.add_assoc, Nat.add_comm 1]
      · simp only [hwide, if_false, List.cons_append] at hbits hhashes ⊢
        obtain ⟨hlt, hget, htail⟩ := drop_eq_cons hbits
        have h1 := ih (pos * 2) hleft ⟨s.nBitsUsed + 1, s.nHashUsed, s.vMatch, s.fBad⟩ _ _ htail hhashes
        have hright : slice (vTxid.zip vMatch) height (pos * 2 + 1) = [] := by
          apply slice_of_not_lt
          rw [calcTreeWidth_eq] at hwide
          simpa [hlen] using hwide
        rw [if_neg (by omega), hget]
        simp only [Option.bind_eq_bind, Option.bind_some, if_true]
        rw [h1]
        simp [hright, matched, Nat.add_assoc, Nat.add_comm 1]

end complete

/-! ## Serialization and back -/

theorem bit_flagByte (vBits : List Bool) (i : Nat) {p : Nat} (hp : p < 8) :
    (flagByte vBits i &&& UInt8.ofNat (1 <<< p) != 0) = vBits.getD (i * 8 + p) false := by
  have h : CCoins.availBits (flagByte vBits i) = (List.range 8).map fun p => vBits.getD (i * 8 + p) false :=
    (CCoins.ofBits_spec (vBits.getD (i * 8 + 0) false) (vBits.getD (i * 8 + 1) false)
    (vBits.getD (i * 8 + 2) false) (vBits.getD (i * 8 + 3) false) (vBits.getD (i * 8 + 4) false)
    (vBits.getD (i * 8 + 5) false) (vBits.getD (i * 8 + 6) false) (vBits.getD (i * 8 + 7) false)).1
  exact List.map_inj_left.mp h p (List.mem_range.mpr hp)

theorem unpackBits_packBits (vBits : List Bool) : unpackBits (packBits vBits) =
    vBits ++ List.replicate ((vBits.length + 7) / 8 * 8 - vBits.length) false := by
  have hlen : (packBits vBits).length = (vBits.length + 7) / 8 := by simp [packBits]
  apply List.ext_getElem
  · simp only [unpackBits, List.length_map, List.length_range, hlen, List.length_append, List.length_replicate]
    omega
  intro p hp _
  simp only [unpackBits, List.length_map, List.length_range, hlen] at hp
  have hbyte : (packBits vBits).getD (p / 8) 0 = flagByte vBits (p / 8) := by
    rw [List.getD_eq_getElem _ _ (by rw [hlen]; omega)]
    simp [packBits]
  simp only [unpackBits, List.getElem_map, List.getElem_range, hbyte]
  rw [bit_flagByte _ _ (Nat.mod_lt p (by omega)), Nat.div_add_mod' p 8, List.getElem_append]
  split
  · rename_i hlt
    rw [List.getD_eq_getElem _ _ hlt]
  · rename_i hge
    rw [List.getD_eq_default _ _ (by omega), List.getElem_replicate]

theorem unserialize_serialize {t : CPartialMerkleTree Uint256} (hn : t.nTransactions < 2 ^ 32)
    (hhash : t.vHash.length ≤ MAX_SIZE) (hbits : t.vBits.length ≤ MAX_SIZE) (s : Stream) :
    unserialize (serialize t ++ s) = some (⟨t.nTransactions,
      t.vBits ++ List.replicate ((t.vBits.length + 7) / 8 * 8 - t.vBits.length) false, t.vHash, false⟩, s) := by
  have hbytes : (packBits t.vBits).length ≤ MAX_SIZE := by
    simp only [packBits, List.length_map, List.length_range]
    omega
  rw [serialize, unserialize, List.append_assoc, readUInt_write (by norm_num; omega)]
  simp only [Option.bind_eq_bind, Option.bind_some, List.append_assoc]
  rw [readVector_write hhash fun h _ => readUint256_write h]
  simp only [Option.bind_some]
  rw [readVector_write hbytes fun b _ s => rfl, Option.bind_some, unpackBits_packBits]

/-- What a pair hash makes of partial trees that are built, sent and received: the merkle root of the ids, and exactly the
matched ones in order. -/
def Complete (hash : Uint256 → Uint256 → Uint256) : Prop :=
  ∀ (vTxid : List Uint256) (vMatch : List Bool), 1 ≤ vTxid.length → vTxid.length ≤ maxTransactions →
    vMatch.length = vTxid.length → ∀ rest, ∃ t s, unserialize (serialize (new hash vTxid vMatch) ++ rest) = some (t, rest) ∧
      t.extractMatches hash = some ((computeMerkleRoot hash vTxid).1, s) ∧ s.vMatch = matched (vTxid.zip vMatch)

theorem complete (hash : Uint256 → Uint256 → Uint256) : Complete hash := by
  intro vTxid vMatch hpos hmax hlen rest
  have hmax' : vTxid.length ≤ 33333 := hmax
  obtain ⟨height, hroot, hmerkle⟩ := @computeMerkleRoot_eq _ _ hash _ vTxid
    (List.length_pos_iff.mp (by omega)) (by omega)
  have hwide := width_pos (n := vTxid.length) (h := height) (by omega)
  obtain ⟨hhashes, hbits, hmany⟩ := @length_build _ _ hash vTxid vMatch height 0 hwide
  rw [slice_root hroot.1] at hhashes
  have hpow : 2 ^ (height + 1) < 4 * 33334 := by
    rw [pow_succ]
    linarith [hroot.2]
  have hheight : heightFrom vTxid.length 0 = height := isHeight_unique (heightFrom_isHeight (by omega)) hroot
  have hnew : new hash vTxid vMatch = ⟨vTxid.length, (traverseAndBuild hash vTxid.length vTxid vMatch height 0).1,
      (traverseAndBuild hash vTxid.length vTxid vMatch height 0).2, false⟩ := by
    rw [new, hheight]
  generalize hb : traverseAndBuild hash vTxid.length vTxid vMatch height 0 = b at hnew hhashes hbits hmany
  have hpadded := unserialize_serialize (t := new hash vTxid vMatch) (by rw [hnew]; show vTxid.length < _; omega)
    (by rw [hnew]; show b.2.length ≤ 0x02000000; omega) (by rw [hnew]; show b.1.length ≤ 0x02000000; omega) rest
  rw [hnew] at hpadded ⊢
  refine ⟨_, ⟨b.1.length, b.2.length, matched (vTxid.zip vMatch), false⟩, hpadded, ?_, rfl⟩
  simp only
  generalize hpad : (b.1.length + 7) / 8 * 8 - b.1.length = pad
  generalize ht : (⟨vTxid.length, b.1 ++ List.replicate pad false, b.2, false⟩ : CPartialMerkleTree Uint256) = t
  have hwalk := @traverseAndExtract_build _ _ hash vTxid vMatch t hlen (by rw [← ht]) height 0 hwide ⟨0, 0, [], false⟩
    (List.replicate pad false) [] (by rw [hb, ← ht]; rfl) (by rw [hb, ← ht]; simp)
  rw [hb, calcHash_eq, ← hmerkle, slice_root (by simp [hlen, hroot.1])] at hwalk
  have hcover : (b.1.length + 7) / 8 = (b.1.length + pad + 7) / 8 := by omega
  subst ht
  rw [extractMatches]
  simp only [hheight, hwalk, List.length_append, List.length_replicate]
  rw [if_neg (by omega), if_neg (Nat.not_lt.mpr hmax), if_neg (by omega), if_neg (by omega)]
  simp [hcover]

/-! ## Reads in range -/

section range

variable {α : Type} [Zero α] (hash : α → α → α) (t : CPartialMerkleTree α)

theorem useHash_isSome (fMatched : Bool) (s : Extract α) : (t.useHash fMatched s).isSome := by
  unfold useHash
  split
  · rfl
  · rename_i hlt
    simp [List.getElem?_eq_getElem (Nat.not_le.mp hlt)]

theorem traverseAndExtract_isSome (height pos : Nat) (s : Extract α) : (traverseAndExtract hash t height pos s).isSome := by
  induction height generalizing pos s with
  | zero =>
    rw [traverseAndExtract]
    split
    · rfl
    · rename_i hlt
      rw [List.getElem?_eq_getElem (Nat.not_le.mp hlt)]
      exact useHash_isSome t _ _
  | succ height ih =>
    rw [traverseAndExtract]
    split
    · rfl
    · rename_i hlt
      rw [List.getElem?_eq_getElem (Nat.not_le.mp hlt)]
      simp only [Option.bind_eq_bind, Option.bind_some]
      split
      · obtain ⟨left, hleft⟩ := Option.isSome_iff_exists.mp (ih (pos * 2) { s with nBitsUsed := s.nBitsUsed + 1 })
        rw [hleft, Option.bind_some]
        split
        · obtain ⟨right, hright⟩ := Option.isSome_iff_exists.mp (ih (pos * 2 + 1) left.2)
          rw [hright]
          rfl
        · rfl
      · exact useHash_isSome t _ _

theorem extractMatches_isSome : (t.extractMatches hash).isSome := by
  obtain ⟨r, hr⟩ := Option.isSome_iff_exists.mp
    (traverseAndExtract_isSome hash t (heightFrom t.nTransactions 0) 0 ⟨0, 0, [], t.fBad⟩)
  unfold extractMatches
  simp only [hr, Option.bind_eq_bind, Option.bind_some]
  split_ifs <;> rfl

end range

/-! ## Soundness -/

section sound

variable {α : Type} [Zero α] {hash : α → α → α} {t : CPartialMerkleTree α}

theorem useHash_spec {fMatched : Bool} {s s' : Extract α} {r : α} (h : t.useHash fMatched s = some (r, s'))
    (hgood : s'.fBad = false) : s.fBad = false ∧ s'.vMatch = if fMatched then s.vMatch ++ [r] else s.vMatch := by
  unfold useHash at h
  split at h
  · cases h
    cases hgood
  · obtain ⟨a, -, ha⟩ := Option.bind_eq_some_iff.mp h
    cases ha
    exact ⟨hgood, rfl⟩

theorem traverseAndExtract_sound (hinj : Function.Injective2 hash) {vTxid : List α} (hn : t.nTransactions = vTxid.length)
    (height pos : Nat) (hpos : pos < width vTxid.length height) {s s' : Extract α} {r : α}
    (h : traverseAndExtract hash t height pos s = some (r, s')) (hgood : s'.fBad = false)
    (hr : r = node hash (fun i => vTxid.getD i 0) vTxid.length height pos) :
    s.fBad = false ∧ ∃ l, l.Sublist (slice vTxid height pos) ∧ s'.vMatch = s.vMatch ++ l := by
  induction height generalizing pos s s' r with
  | zero =>
    rw [traverseAndExtract] at h
    split at h
    · cases h
      cases hgood
    · obtain ⟨f, -, hf⟩ := Option.bind_eq_some_iff.mp h
      obtain ⟨hs, hmatch⟩ := useHash_spec hf hgood
      refine ⟨hs, ?_⟩
      have hlast : pos < vTxid.length := by rwa [width_zero] at hpos
      have hleaf : r = vTxid[pos] := by rw [hr, node, List.getD_eq_getElem _ _ hlast]
      rw [hmatch, slice_zero hlast, hleaf]
      cases f with
      | false => exact ⟨[], by simp, by simp⟩
      | true => exact ⟨[vTxid[pos]], by simp, by simp⟩
  | succ height ih =>
    rw [traverseAndExtract] at h
    split at h
    · cases h
      cases hgood
    · obtain ⟨f, -, hf⟩ := Option.bind_eq_some_iff.mp h
      simp only at hf
      split at hf
      · obtain ⟨⟨left, s1⟩, hleft, hf⟩ := Option.bind_eq_some_iff.mp hf
        have hpos1 : pos * 2 < width vTxid.length height := by
          rw [Nat.mul_comm]
          exact left_lt_width hpos
        rw [slice_succ, Nat.mul_comm 2 pos]
        simp only [hn, calcTreeWidth_eq] at hf
        by_cases hwide : pos * 2 + 1 < width vTxid.length height
        · rw [if_pos hwide] at hf
          obtain ⟨⟨right, s2⟩, hright, hf⟩ := Option.bind_eq_some_iff.mp hf
          cases hf
          rw [node_succ_of_lt (by rwa [Nat.mul_comm]), Nat.mul_comm 2 pos] at hr
          obtain ⟨hnode1, hnode2⟩ := hinj hr
          obtain ⟨hs1, l2, hl2, hm2⟩ := ih (pos * 2 + 1) hwide hright hgood hnode2
          obtain ⟨hs, l1, hl1, hm1⟩ := ih (pos * 2) hpos1 hleft hs1 hnode1
          exact ⟨hs, l1 ++ l2, hl1.append hl2, by rw [hm2, hm1, List.append_assoc]⟩
        · rw [if_neg hwide] at hf
          cases hf
          rw [node_succ_of_not_lt (by rwa [Nat.mul_comm]), Nat.mul_comm 2 pos] at hr
          obtain ⟨hs, l, hl, hm⟩ := ih (pos * 2) hpos1 hleft hgood (hinj hr).1
          exact ⟨hs, l, hl.trans (List.sublist_append_left _ _), hm⟩
      · obtain ⟨hs, hmatch⟩ := useHash_spec hf hgood
        exact ⟨hs, [], by simp, by simpa using hmatch⟩

/-- A pair hash admits no false match: for every tree for which `ExtractMatches` returns the merkle root of as many ids
as the tree has, and that root is not zero, what it extracts are some of the ids in order. -/
def Sound [DecidableEq α] (hash : α → α → α) : Prop :=
  ∀ (t : CPartialMerkleTree α) (vTxid : List α) (s : Extract α), t.nTransactions = vTxid.length →
    t.extractMatches hash = some ((computeMerkleRoot hash vTxid).1, s) → (computeMerkleRoot hash vTxid).1 ≠ 0 →
      s.vMatch.Sublist vTxid

theorem sound [DecidableEq α] (hinj : Function.Injective2 hash) : Sound hash := by
  intro t vTxid s hn h hne
  -- a failure returns zero
  have hfail : ∀ {s' : Extract α}, some ((0 : α), s') ≠ some ((computeMerkleRoot hash vTxid).1, s) := fun h =>
    hne (congrArg Prod.fst (Option.some.inj h)).symm
  unfold extractMatches at h
  simp only at h
  split_ifs at h with h0 hmany
  · exact absurd h hfail
  · exact absurd h hfail
  · exact absurd h hfail
  · exact absurd h hfail
  obtain ⟨⟨root, s'⟩, hwalk, h⟩ := Option.bind_eq_some_iff.mp h
  simp only at h
  split_ifs at h with hbad
  · exact absurd h hfail
  · exact absurd h hfail
  · exact absurd h hfail
  cases h
  rw [hn] at h0
  have hmax : vTxid.length ≤ 33333 := by
    rw [← hn]
    exact Nat.not_lt.mp hmany
  obtain ⟨height, hroot, hmerkle⟩ := @computeMerkleRoot_eq _ _ hash _ vTxid
    (List.length_pos_iff.mp (by omega)) (by omega)
  have hheight : heightFrom t.nTransactions 0 = height := by
    rw [hn]
    exact isHeight_unique (heightFrom_isHeight (by omega)) hroot
  rw [hheight] at hwalk
  obtain ⟨-, l, hl, hmatch⟩ := traverseAndExtract_sound hinj hn height 0 (width_pos (by omega)) hwalk
    (by simpa using hbad) hmerkle
  rw [slice_root hroot.1] at hl
  simpa [hmatch] using hl

end sound

/-- Every byte string that is a tree is walked to the end within its bits and hashes. -/
def ReadsInRange (hash : Uint256 → Uint256 → Uint256) : Prop :=
  ∀ bytes t rest, unserialize bytes = some (t, rest) → (t.extractMatches hash).isSome

/-- Partial merkle trees are complete for any pair hash, sound for an injective one where the root is not zero, and read
in range. -/
theorem partialMerkleTree_spec {α : Type} [DecidableEq α] [Zero α] (hash : Uint256 → Uint256 → Uint256)
    (pair : α → α → α) (hinj : Function.Injective2 pair) : Complete hash ∧ Sound pair ∧ ReadsInRange hash :=
  ⟨complete hash, sound hinj, fun _ t _ _ => extractMatches_isSome hash t⟩

theorem partialMerkleTree_spec_pair : Complete hashPair ∧ Sound Nat.pair ∧ ReadsInRange hashPair :=
  partialMerkleTree_spec hashPair Nat.pair fun _ _ _ _ h => Nat.pair_eq_pair.mp h

/-- The bytes of a tree of one transaction with a stored hash, and a byte of flags too many. -/
def paddedTreeBytes : List UInt8 := leBytes 4 1 ++ (writeCompactSize 1 ++ (writeUint256 1 ++ [2, 1, 0]))

/-- A failure is told by a zero root only, and the matches extracted before it stay: for any pair hash the merkle root of
the transaction id zero is returned for a tree that gives another id as matched. -/
theorem not_sound_at_zero : ∃ t : CPartialMerkleTree Uint256, unserialize paddedTreeBytes = some (t, []) ∧
    t.nTransactions = 1 ∧ ∀ hash, ∃ s, t.extractMatches hash = some ((computeMerkleRoot hash [0]).1, s) ∧
      ¬ s.vMatch.Sublist [0] := by
  refine ⟨⟨1, true :: List.replicate 15 false, [1], false⟩, by decide, rfl, fun hash =>
    ⟨⟨1, 1, [1], false⟩, ?_, by decide⟩⟩
  have hheight : heightFrom 1 0 = 0 := by
    rw [heightFrom]
    simp [calcTreeWidth]
  have hroot : (computeMerkleRoot hash [0]).1 = 0 := by
    simp [computeMerkleRoot, MerkleState.addLeaf, MerkleState.climb, firstLevel, MerkleState.sweep]
  rw [hroot, extractMatches]
  simp only [hheight]
  rfl

end CPartialMerkleTree

end DigiWage
