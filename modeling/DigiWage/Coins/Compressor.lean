import DigiWage.Serialize
import Mathlib.Tactic.Ring

/-!
# Compact encodings

The encodings that the coins database uses: `VARINT` of `serialize.h`, and the amounts, scripts and outputs of
`compressor.h`. A stream is the list of the bytes still to be read, and a reader returns `none` where the stream throws.

Each writer has one reading lemma, of the same form: reading what was written, followed by any bytes, gives the value
back and leaves these bytes (`readVarInt_write`, `decompressAmount_compressAmount`, `CScriptCompressor.unserialize_serialize`,
`CTxOutCompressor.unserialize_serialize`).
-/

namespace DigiWage

/-! ## Variable-length integers -/

/-- A byte of `WriteVarInt`: the low seven bits of `n`, with the continuation bit `f`. -/
def varIntByte (n : Int) (f : Bool) : UInt8 := UInt8.ofNat ((n % 128).toNat + if f then 128 else 0)

/-- The bytes of `WriteVarInt` before the last one, for the rest `n` of the value. -/
def writeVarIntHigh (n : Int) : List UInt8 :=
  if n ≤ 0x7f then [varIntByte n true] else writeVarIntHigh (n / 128 - 1) ++ [varIntByte n true]
termination_by n.toNat
decreasing_by omega

/-- `WriteVarInt`: seven bits a byte, the most significant byte first, and one less in every byte but the last. -/
def writeVarInt (n : Int) : List UInt8 :=
  if n ≤ 0x7f then [varIntByte n false] else writeVarIntHigh (n / 128 - 1) ++ [varIntByte n false]

/-- The loop of `ReadVarInt` with the value `n` read so far, in an integer of `w` bits. -/
def readVarIntLoop (w n : Nat) : Stream → Option (Nat × Stream)
  | [] => none
  | chData :: s =>
    let n := (n * 128 + chData.toNat % 128) % 2 ^ w
    if 128 ≤ chData.toNat then readVarIntLoop w ((n + 1) % 2 ^ w) s else some (n, s)

def readVarInt (w : Nat) (s : Stream) : Option (Nat × Stream) := readVarIntLoop w 0 s

theorem toNat_varIntByte (n : Int) (f : Bool) :
    (varIntByte n f).toNat = (n % 128).toNat + if f then 128 else 0 := by
  unfold varIntByte
  rw [UInt8.toNat_ofNat']
  have h : (n % 128).toNat < 128 := by omega
  cases f
  · simp; omega
  · simp; omega

theorem readVarIntLoop_true {w m k : Nat} (n : Int) (s : Stream) (hk : m * 128 + (n % 128).toNat = k)
    (hw : k + 1 < 2 ^ w) : readVarIntLoop w m (varIntByte n true :: s) = readVarIntLoop w (k + 1) s := by
  have h : (varIntByte n true).toNat = (n % 128).toNat + 128 := by simp [toNat_varIntByte]
  rw [readVarIntLoop, h]
  simp only [Nat.add_mod_right, Nat.le_add_left, ↓reduceIte]
  rw [Nat.mod_eq_of_lt (a := (n % 128).toNat) (by omega), hk, Nat.mod_eq_of_lt (a := k) (by omega),
    Nat.mod_eq_of_lt hw]

theorem readVarIntLoop_false {w m k : Nat} (n : Int) (s : Stream) (hk : m * 128 + (n % 128).toNat = k)
    (hw : k < 2 ^ w) : readVarIntLoop w m (varIntByte n false :: s) = some (k, s) := by
  have h : (varIntByte n false).toNat = (n % 128).toNat := by simp [toNat_varIntByte]
  have hlt : (n % 128).toNat < 128 := by omega
  rw [readVarIntLoop, h]
  rw [if_neg (by omega), Nat.mod_eq_of_lt hlt, hk, Nat.mod_eq_of_lt hw]

theorem readVarIntLoop_high {w : Nat} (s : Stream) (k : Nat) (hw : k + 1 < 2 ^ w) :
    readVarIntLoop w 0 (writeVarIntHigh k ++ s) = readVarIntLoop w (k + 1) s := by
  induction k using Nat.strongRecOn generalizing s with
  | ind k ih =>
    rw [writeVarIntHigh]
    split
    · exact readVarIntLoop_true k s (by omega) hw
    · rename_i h
      have hq : ((k : Int) / 128 - 1) = ((k / 128 - 1 : Nat) : Int) := by omega
      rw [hq, List.append_assoc, List.singleton_append, ih (k / 128 - 1) (by omega) _ (by omega)]
      exact readVarIntLoop_true k s (by omega) hw

/-- What `WriteVarInt` writes, `ReadVarInt` reads. -/
theorem readVarInt_write {w : Nat} (k : Nat) (hw : k < 2 ^ w) (s : Stream) :
    readVarInt w (writeVarInt k ++ s) = some (k, s) := by
  unfold readVarInt writeVarInt
  split
  · exact readVarIntLoop_false k s (by omega) hw
  · rename_i h
    have hq : ((k : Int) / 128 - 1) = ((k / 128 - 1 : Nat) : Int) := by omega
    rw [hq, List.append_assoc, List.singleton_append, readVarIntLoop_high _ _ (by omega)]
    exact readVarIntLoop_false k s (by omega) hw

/-! ## Amounts -/

namespace CTxOutCompressor

/-- The loop of `CompressAmount`: divide by ten while that leaves no rest, at most `k` times; returns `n` and the
number of divisions. -/
def scaleDown : Nat → Nat → Nat × Nat
  | 0, n => (n, 0)
  | k + 1, n => if n % 10 = 0 then ((scaleDown k (n / 10)).1, (scaleDown k (n / 10)).2 + 1) else (n, 0)

/-- `CompressAmount`, over `uint64_t`. -/
def compressAmount (nAmount : Nat) : Nat :=
  if nAmount = 0 then 0
  else
    let n := (scaleDown 9 nAmount).1
    let e := (scaleDown 9 nAmount).2
    if e < 9 then (1 + (n / 10 * 9 + n % 10 - 1) * 10 + e) % 2 ^ 64 else (1 + (n - 1) * 10 + 9) % 2 ^ 64

/-- `DecompressAmount`, over `uint64_t`. -/
def decompressAmount (x : Nat) : Nat :=
  if x = 0 then 0
  else
    let e := (x - 1) % 10
    let x := (x - 1) / 10
    let n := if e < 9 then x / 9 * 10 + (x % 9 + 1) else x + 1
    n * 10 ^ e % 2 ^ 64

/-- The value of `DecompressAmount` in unbounded integers. -/
def decompressExact (x : Nat) : Nat :=
  if x = 0 then 0
  else
    let e := (x - 1) % 10
    let x := (x - 1) / 10
    (if e < 9 then x / 9 * 10 + (x % 9 + 1) else x + 1) * 10 ^ e

theorem decompressAmount_eq (x : Nat) : decompressAmount x = decompressExact x % 2 ^ 64 := by
  unfold decompressAmount decompressExact
  split
  · rfl
  · rfl

theorem scaleDown_spec : ∀ (k n : Nat), (scaleDown k n).1 * 10 ^ (scaleDown k n).2 = n ∧ (scaleDown k n).2 ≤ k ∧
    ((scaleDown k n).2 < k → (scaleDown k n).1 % 10 ≠ 0)
  | 0, n => by simp [scaleDown]
  | k + 1, n => by
    rw [scaleDown]
    split
    · rename_i h
      obtain ⟨h1, h2, h3⟩ := scaleDown_spec k (n / 10)
      refine ⟨?_, by simpa using h2, fun hk => h3 (by simpa using hk)⟩
      calc (scaleDown k (n / 10)).1 * 10 ^ ((scaleDown k (n / 10)).2 + 1)
          = (scaleDown k (n / 10)).1 * 10 ^ (scaleDown k (n / 10)).2 * 10 := by rw [pow_succ, mul_assoc]
        _ = n / 10 * 10 := by rw [h1]
        _ = n := by omega
    · rename_i h
      exact ⟨by simp, by simp, fun _ => h⟩

theorem compressAmount_lt (n : Nat) : compressAmount n < 2 ^ 64 := by
  unfold compressAmount
  split
  · omega
  · dsimp only
    split <;> exact Nat.mod_lt _ (by omega)

theorem decompressExact_compressAmount {n : Nat} (h : n ≤ 2 ^ 60) : decompressExact (compressAmount n) = n := by
  obtain ⟨h1, h2, h3⟩ := scaleDown_spec 9 n
  unfold compressAmount
  split
  · rename_i h0
    simp [decompressExact, h0]
  · rename_i h0
    dsimp only
    generalize (scaleDown 9 n).1 = m at h1 h3 ⊢
    generalize (scaleDown 9 n).2 = e at h1 h2 h3 ⊢
    have hm0 : m ≠ 0 := fun hm => h0 (by rw [← h1, hm, Nat.zero_mul])
    have hle : m ≤ n := h1 ▸ Nat.le_mul_of_pos_right m (Nat.pow_pos (by omega))
    split
    · rename_i he
      have hd := h3 he
      have hlt : 1 + (m / 10 * 9 + m % 10 - 1) * 10 + e < 2 ^ 64 := by omega
      rw [Nat.mod_eq_of_lt hlt]
      have he' : (1 + (m / 10 * 9 + m % 10 - 1) * 10 + e - 1) % 10 = e := by omega
      have hx : (1 + (m / 10 * 9 + m % 10 - 1) * 10 + e - 1) / 10 = m / 10 * 9 + m % 10 - 1 := by omega
      have hm : (m / 10 * 9 + m % 10 - 1) / 9 * 10 + ((m / 10 * 9 + m % 10 - 1) % 9 + 1) = m := by omega
      simp only [decompressExact, he', hx, he, ↓reduceIte, hm, h1]
      rw [if_neg (by omega)]
    · rename_i he
      have he9 : e = 9 := by omega
      subst he9
      have hlt : 1 + (m - 1) * 10 + 9 < 2 ^ 64 := by omega
      rw [Nat.mod_eq_of_lt hlt]
      have he' : (1 + (m - 1) * 10 + 9 - 1) % 10 = 9 := by omega
      have hx : (1 + (m - 1) * 10 + 9 - 1) / 10 + 1 = m := by omega
      simp only [decompressExact, he', Nat.lt_irrefl, ↓reduceIte, hx, h1]
      rw [if_neg (by omega)]

theorem decompressAmount_compressAmount {n : Nat} (h : n ≤ 2 ^ 60) : decompressAmount (compressAmount n) = n := by
  rw [decompressAmount_eq, decompressExact_compressAmount h]
  exact Nat.mod_eq_of_lt (by omega)

end CTxOutCompressor

/-! ## Scripts -/

/-- `CPubKey::IsFullyValid` and `CPubKey::Decompress`, on the bytes of a key. -/
structure PubKeyEnv where
  isFullyValid : List UInt8 → Bool
  decompress : List UInt8 → Option (List UInt8)

/-- Decompression inverts compression on valid keys: the parity of the last byte and the first coordinate give the
key back. -/
def PubKeyEnv.Inverts (env : PubKeyEnv) : Prop :=
  ∀ x y : List UInt8, ∀ p : UInt8, x.length = 32 → y.length = 31 →
    env.isFullyValid (0x04 :: x ++ y ++ [p]) = true →
    env.decompress ((0x02 ||| (p &&& 0x01)) :: x) = some (0x04 :: x ++ y ++ [p])

namespace CScriptCompressor

def OP_DUP : UInt8 := 0x76
def OP_EQUAL : UInt8 := 0x87
def OP_HASH160 : UInt8 := 0xa9

def nSpecialScripts : Nat := 6

/-- `std::vector`'s bytes from `i` on, `n` of them. -/
def slice (l : List UInt8) (i n : Nat) : List UInt8 := (l.drop i).take n

def isToKeyID (script : CScript) : Option (List UInt8) :=
  let b := script.bytes
  if b.length = 25 ∧ b[0]? = some OP_DUP ∧ b[1]? = some OP_HASH160 ∧ b[2]? = some 20 ∧
      b[23]? = some CScript.OP_EQUALVERIFY ∧ b[24]? = some CScript.OP_CHECKSIG then some (slice b 3 20)
  else none

def isToScriptID (script : CScript) : Option (List UInt8) :=
  let b := script.bytes
  if b.length = 23 ∧ b[0]? = some OP_HASH160 ∧ b[1]? = some 20 ∧ b[22]? = some OP_EQUAL then some (slice b 2 20)
  else none

/-- `IsToPubKey`: invalid keys cannot be represented in compressed form. -/
def isToPubKey (env : PubKeyEnv) (script : CScript) : Option (List UInt8) :=
  let b := script.bytes
  if b.length = 35 ∧ b[0]? = some 33 ∧ b[34]? = some CScript.OP_CHECKSIG ∧ (b[1]? = some 0x02 ∨ b[1]? = some 0x03) then
    some (slice b 1 33)
  else if b.length = 67 ∧ b[0]? = some 65 ∧ b[66]? = some CScript.OP_CHECKSIG ∧ b[1]? = some 0x04 then
    if env.isFullyValid (slice b 1 65) then some (slice b 1 65) else none
  else none

def compress (env : PubKeyEnv) (script : CScript) : Option (List UInt8) :=
  match isToKeyID script with
  | some keyID => some (0x00 :: keyID)
  | none =>
    match isToScriptID script with
    | some scriptID => some (0x01 :: scriptID)
    | none =>
      match isToPubKey env script with
      | none => none
      | some pubkey =>
        if pubkey[0]? = some 0x02 ∨ pubkey[0]? = some 0x03 then some (pubkey.getD 0 0 :: slice pubkey 1 32)
        else if pubkey[0]? = some 0x04 then some ((0x04 ||| (pubkey.getD 64 0 &&& 0x01)) :: slice pubkey 1 32)
        else none

def getSpecialSize (nSize : Nat) : Nat :=
  if nSize = 0 ∨ nSize = 1 then 20 else if nSize = 2 ∨ nSize = 3 ∨ nSize = 4 ∨ nSize = 5 then 32 else 0

/-- `CScriptCompressor::Decompress`; `none` when the script is left as it was. -/
def decompress (env : PubKeyEnv) (nSize : Nat) (i : List UInt8) : Option CScript :=
  if nSize = 0 then
    some ([OP_DUP, OP_HASH160, 20] ++ i ++ [CScript.OP_EQUALVERIFY, CScript.OP_CHECKSIG] : List UInt8)
  else if nSize = 1 then some ([OP_HASH160, 20] ++ i ++ [OP_EQUAL] : List UInt8)
  else if nSize = 2 ∨ nSize = 3 then some ([33, UInt8.ofNat nSize] ++ i ++ [CScript.OP_CHECKSIG] : List UInt8)
  else if nSize = 4 ∨ nSize = 5 then
    (env.decompress (UInt8.ofNat (nSize - 2) :: i)).map fun pubkey =>
      ([65] ++ pubkey ++ [CScript.OP_CHECKSIG] : List UInt8)
  else none

/-- `CScriptCompressor::Serialize`; `nSize` is an `unsigned int`. -/
def serialize (env : PubKeyEnv) (script : CScript) : List UInt8 :=
  match compress env script with
  | some compr => compr
  | none => writeVarInt (((script.bytes.length + nSpecialScripts) % 2 ^ 32 : Nat) : Int) ++ script.bytes

/-- `CScriptCompressor::Unserialize` into an empty script. -/
def unserialize (env : PubKeyEnv) (s : Stream) : Option (CScript × Stream) := do
  let (nSize, s) ← readVarInt 32 s
  if nSize < nSpecialScripts then
    let (vch, s) ← s.read (getSpecialSize nSize)
    some ((decompress env nSize vch).getD ([] : List UInt8), s)
  else if CScript.maxScriptSize < nSize - nSpecialScripts then
    let (_, s) ← s.read (nSize - nSpecialScripts)
    some (([CScript.OP_RETURN] : List UInt8), s)
  else
    let (script, s) ← s.read (nSize - nSpecialScripts)
    some (script, s)

/-! ## The special scripts -/

theorem length_slice {b : List UInt8} {i n : Nat} (h : i + n ≤ b.length) : (slice b i n).length = n := by
  simp [slice]; omega

theorem slice_add (b : List UInt8) (i m n : Nat) : slice b i (m + n) = slice b i m ++ slice b (i + m) n := by
  simp [slice, List.take_add, List.drop_drop]

theorem slice_one {b : List UInt8} {i : Nat} {x : UInt8} (h : b[i]? = some x) : slice b i 1 = [x] := by
  simp [slice, List.take_add_one, List.getElem?_drop, h]

theorem eq_slices {b : List UInt8} (i n k : Nat) (h : b.length = i + n + k) :
    b = slice b 0 i ++ slice b i n ++ slice b (i + n) k := by
  have hall : slice b 0 (i + n + k) = b := by simp [slice, ← h]
  rw [slice_add, slice_add] at hall
  simpa using hall.symm

theorem isToKeyID_some {script : CScript} {hash : List UInt8} (h : isToKeyID script = some hash) :
    script = ([OP_DUP, OP_HASH160, 20] ++ hash ++ [CScript.OP_EQUALVERIFY, CScript.OP_CHECKSIG] : List UInt8) ∧
      hash.length = 20 := by
  simp only [isToKeyID] at h
  split at h
  · rename_i hc
    obtain ⟨hl, h0, h1, h2, h23, h24⟩ := hc
    cases h
    refine ⟨?_, length_slice (by omega)⟩
    have heq := eq_slices 3 20 2 hl
    rw [slice_add _ 0 2 1, slice_add _ 0 1 1, slice_one h0, slice_one h1, slice_one h2, slice_add _ (3 + 20) 1 1,
      slice_one h23, slice_one h24] at heq
    exact heq
  · cases h

theorem isToScriptID_some {script : CScript} {hash : List UInt8} (h : isToScriptID script = some hash) :
    script = ([OP_HASH160, 20] ++ hash ++ [OP_EQUAL] : List UInt8) ∧ hash.length = 20 := by
  simp only [isToScriptID] at h
  split at h
  · rename_i hc
    obtain ⟨hl, h0, h1, h22⟩ := hc
    cases h
    refine ⟨?_, length_slice (by omega)⟩
    have heq := eq_slices 2 20 1 hl
    rw [slice_add _ 0 1 1, slice_one h0, slice_one h1, slice_one h22] at heq
    exact heq
  · cases h

theorem isToPubKey_some {env : PubKeyEnv} {script : CScript} {pubkey : List UInt8}
    (h : isToPubKey env script = some pubkey) :
    (∃ t x, (t = 0x02 ∨ t = 0x03) ∧ x.length = 32 ∧ pubkey = t :: x ∧
      script = ([33, t] ++ x ++ [CScript.OP_CHECKSIG] : List UInt8)) ∨
    (∃ x y p, x.length = 32 ∧ y.length = 31 ∧ pubkey = 0x04 :: x ++ y ++ [p] ∧ env.isFullyValid pubkey = true ∧
      script = ([65] ++ pubkey ++ [CScript.OP_CHECKSIG] : List UInt8)) := by
  simp only [isToPubKey] at h
  split at h
  · rename_i hc
    obtain ⟨hl, h0, h34, h1⟩ := hc
    cases h
    obtain ⟨t, ht, h1⟩ : ∃ t : UInt8, (t = 0x02 ∨ t = 0x03) ∧ script.bytes[1]? = some t := by
      rcases h1 with h1 | h1
      · exact ⟨_, .inl rfl, h1⟩
      · exact ⟨_, .inr rfl, h1⟩
    refine .inl ⟨t, slice script.bytes 2 32, ht, length_slice (by omega), ?_, ?_⟩
    · rw [slice_add _ 1 1 32, slice_one h1]; rfl
    · have heq := eq_slices 2 32 1 hl
      rw [slice_add _ 0 1 1, slice_one h0, slice_one h1, slice_one h34] at heq
      exact heq
  · split at h
    · rename_i hc
      obtain ⟨hl, h0, h66, h1⟩ := hc
      split at h
      · rename_i hv
        cases h
        obtain ⟨p, hp⟩ : ∃ p, script.bytes[65]? = some p := ⟨_, List.getElem?_eq_getElem (by omega)⟩
        refine .inr ⟨slice script.bytes 2 32, slice script.bytes 34 31, p, length_slice (by omega),
          length_slice (by omega), ?_, hv, ?_⟩
        · rw [slice_add _ 1 64 1, slice_add _ 1 33 31, slice_add _ 1 1 32, slice_one h1, slice_one hp]; rfl
        · have heq := eq_slices 1 65 1 hl
          rw [slice_one h0, slice_one h66] at heq
          exact heq
      · cases h
    · cases h

theorem and_one (p : UInt8) : p &&& 0x01 = 0 ∨ p &&& 0x01 = 1 := by
  have h : ∀ b : BitVec 8, b &&& 1 = 0 ∨ b &&& 1 = 1 := by decide
  rcases h p.toBitVec with h | h
  · exact .inl (UInt8.toBitVec_inj.mp h)
  · exact .inr (UInt8.toBitVec_inj.mp h)

theorem compress_some {env : PubKeyEnv} (henv : env.Inverts) {script : CScript} {compr : List UInt8}
    (h : compress env script = some compr) :
    ∃ (t : Nat) (i : List UInt8), t < nSpecialScripts ∧ compr = writeVarInt (t : Int) ++ i ∧
      i.length = getSpecialSize t ∧ decompress env t i = some script := by
  unfold compress at h
  split at h
  · rename_i hash hk
    obtain ⟨rfl, hl⟩ := isToKeyID_some hk
    cases h
    exact ⟨0, hash, by decide, by simp [writeVarInt]; rfl, hl, rfl⟩
  · split at h
    · rename_i hash hk
      obtain ⟨rfl, hl⟩ := isToScriptID_some hk
      cases h
      exact ⟨1, hash, by decide, by simp [writeVarInt]; rfl, hl, rfl⟩
    · split at h
      · cases h
      · rename_i pubkey hk
        obtain ⟨t, x, ht, hl, rfl, rfl⟩ | ⟨x, y, p, hx, hy, rfl, hv, rfl⟩ := isToPubKey_some hk
        · rw [if_pos (by rcases ht with rfl | rfl <;> simp)] at h
          cases h
          have hs : slice (t :: x) 1 32 = x := by simp [slice, ← hl]
          rcases ht with rfl | rfl
          · exact ⟨2, x, by decide, by rw [hs]; simp [writeVarInt]; rfl, hl, rfl⟩
          · exact ⟨3, x, by decide, by rw [hs]; simp [writeVarInt]; rfl, hl, rfl⟩
        · have hs : slice (0x04 :: x ++ y ++ [p]) 1 32 = x := by simp [slice, ← hx]
          have h64 : (0x04 :: x ++ y ++ [p]).getD 64 0 = p := by
            simp [List.getD_eq_getElem?_getD, hx, hy]
          rw [if_neg (by simp), if_pos (by simp), hs, h64] at h
          cases h
          have hd := henv x y p hx hy hv
          rcases and_one p with hb | hb
          · rw [hb] at hd ⊢
            have h2 : (0x02 ||| 0 : UInt8) = 2 := rfl
            rw [h2] at hd
            refine ⟨4, x, by decide, by simp [writeVarInt]; rfl, hx, ?_⟩
            change Option.map _ (env.decompress (2 :: x)) = _
            rw [hd]
            rfl
          · rw [hb] at hd ⊢
            have h3 : (0x02 ||| 1 : UInt8) = 3 := rfl
            rw [h3] at hd
            refine ⟨5, x, by decide, by simp [writeVarInt]; rfl, hx, ?_⟩
            change Option.map _ (env.decompress (3 :: x)) = _
            rw [hd]
            rfl

/-- A script that is not too long is read back. -/
theorem unserialize_serialize {env : PubKeyEnv} (henv : env.Inverts) {script : CScript}
    (hlen : script.bytes.length ≤ CScript.maxScriptSize) (s : Stream) :
    unserialize env (serialize env script ++ s) = some (script, s) := by
  unfold serialize
  split
  · rename_i compr hc
    obtain ⟨t, i, ht, rfl, hi, hd⟩ := compress_some henv hc
    have ht6 : t < 6 := ht
    rw [List.append_assoc, unserialize, readVarInt_write t (by omega)]
    simp only [Option.bind_eq_bind, Option.bind_some, ht, ↓reduceIte, Stream.read_append i s hi, hd]
    rfl
  · have hmax : script.bytes.length ≤ 10000 := hlen
    have h6 : nSpecialScripts = 6 := rfl
    rw [Nat.mod_eq_of_lt (by omega), List.append_assoc, unserialize, readVarInt_write _ (by omega)]
    simp only [Option.bind_eq_bind, Option.bind_some]
    rw [if_neg (by omega), if_neg (by omega), Stream.read_append _ _ (by omega)]
    rfl

end CScriptCompressor

def CScript.isPayToScriptHash (script : CScript) : Bool := (CScriptCompressor.isToScriptID script).isSome

/-! ## Outputs -/

namespace CTxOutCompressor

/-- `CTxOutCompressor`, writing. -/
def serialize (env : PubKeyEnv) (txout : CTxOut) : List UInt8 :=
  writeVarInt (compressAmount (txout.nValue % 2 ^ 64).toNat : Nat) ++ CScriptCompressor.serialize env txout.scriptPubKey

/-- `CTxOutCompressor`, reading into a `CTxOut()`. -/
def unserialize (env : PubKeyEnv) (s : Stream) : Option (CTxOut × Stream) := do
  let (nVal, s) ← readVarInt 64 s
  let (script, s) ← CScriptCompressor.unserialize env s
  -- the 64-bit amount is signed again
  some (⟨(decompressAmount nVal : Int).bmod (2 ^ 64), script, CTxOut.null.nRounds⟩, s)

/-- `nMaxMoneyOut` of the main network, the largest of the networks' values. -/
def maxMoney : Int := 120000000 * COIN

/-- An output that the format can carry. -/
structure Carried (txout : CTxOut) : Prop where
  nonneg : 0 ≤ txout.nValue
  le_max : txout.nValue ≤ maxMoney
  script_le : txout.scriptPubKey.bytes.length ≤ CScript.maxScriptSize
  nRounds : txout.nRounds = CTxOut.null.nRounds

theorem unserialize_serialize {env : PubKeyEnv} (henv : env.Inverts) {txout : CTxOut} (h : Carried txout)
    (s : Stream) : unserialize env (serialize env txout ++ s) = some (txout, s) := by
  obtain ⟨v, script, r⟩ := txout
  obtain ⟨h0, h1, h2, h3⟩ := h
  have hmax : v ≤ 12000000000000000 := h1
  have hnat : (v % 2 ^ 64).toNat = v.toNat := by
    simp only at h0
    rw [Int.emod_eq_of_lt h0 (by omega)]
  have hb : ((v.toNat : Nat) : Int).bmod (2 ^ 64) = v := by
    simp only at h0
    rw [Int.toNat_of_nonneg h0]
    exact Int.bmod_eq_of_le (by omega) (by omega)
  rw [serialize, List.append_assoc, unserialize, hnat, readVarInt_write _ (compressAmount_lt _)]
  simp only [Option.bind_eq_bind, Option.bind_some, CScriptCompressor.unserialize_serialize henv h2]
  rw [decompressAmount_compressAmount (by omega), hb]
  simp only at h3
  rw [h3]

end CTxOutCompressor

end DigiWage
