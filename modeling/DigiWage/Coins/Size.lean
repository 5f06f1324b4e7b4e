import DigiWage.Coins.Serialize

/-!
# Sizes of coins

`GetSizeOfVarInt` of `serialize.h` and the `GetSerializeSize` methods that are written beside a `Serialize`: those of
`CScriptCompressor`, `CTxInUndo` and `CCoins`. They return an `unsigned int`.

* `length_writeVarInt`: `GetSizeOfVarInt` counts the bytes of `WriteVarInt`, and `getSizeOfVarInt_le_iff` says where one
  more byte begins.
* `CCoins.getSerializeSize` computes its header code with a factor 8 where `Serialize` has 16, so the two agree as long
  as no bound of `varIntBound` lies between the two codes (`CCoins.SameSide`).
-/

namespace DigiWage

/-! ## Variable-length integers -/

def getSizeOfVarInt (n : Int) : Nat := if n ≤ 0x7f then 1 else getSizeOfVarInt (n / 128 - 1) + 1
termination_by n.toNat
decreasing_by omega

theorem length_writeVarIntHigh (n : Int) : (writeVarIntHigh n).length = getSizeOfVarInt n := by
  induction n using writeVarIntHigh.induct with
  | case1 n h =>
    rw [writeVarIntHigh, getSizeOfVarInt, if_pos h, if_pos h]
    rfl
  | case2 n h ih =>
    rw [writeVarIntHigh, getSizeOfVarInt, if_neg h, if_neg h, List.length_append, ih]
    rfl

theorem length_writeVarInt (n : Int) : (writeVarInt n).length = getSizeOfVarInt n := by
  rw [writeVarInt, getSizeOfVarInt]
  split
  · rfl
  · rw [List.length_append, length_writeVarIntHigh]
    rfl

/-- The first value that takes more than `k + 1` bytes. -/
def varIntBound : Nat → Nat
  | 0 => 128
  | k + 1 => 128 * (varIntBound k + 1)

example : (List.range 4).map varIntBound = [128, 16512, 2113664, 270549120] := by decide

theorem getSizeOfVarInt_pos (n : Int) : 0 < getSizeOfVarInt n := by
  rw [getSizeOfVarInt]
  split
  · exact Nat.one_pos
  · exact Nat.succ_pos _

theorem getSizeOfVarInt_le_iff (k : Nat) : ∀ n : Nat, getSizeOfVarInt n ≤ k + 1 ↔ n < varIntBound k := by
  induction k with
  | zero =>
    intro n
    rw [getSizeOfVarInt, varIntBound]
    split
    · omega
    · have := getSizeOfVarInt_pos ((n : Int) / 128 - 1)
      omega
  | succ k ih =>
    intro n
    rw [getSizeOfVarInt, varIntBound]
    split
    · omega
    · rename_i h
      have hq : (n : Int) / 128 - 1 = ((n / 128 - 1 : Nat) : Int) := by omega
      rw [hq, Nat.add_le_add_iff_right, ih]
      omega

theorem getSizeOfVarInt_le_five {n : Nat} (hn : n < 2 ^ 32) : getSizeOfVarInt n ≤ 5 := by
  refine (getSizeOfVarInt_le_iff 4 n).mpr (hn.trans ?_)
  decide

theorem getSizeOfVarInt_eq_iff {a b : Nat} (ha : a < 2 ^ 32) (hb : b < 2 ^ 32) :
    getSizeOfVarInt a = getSizeOfVarInt b ↔ ∀ k < 4, (varIntBound k ≤ a ↔ varIntBound k ≤ b) := by
  have hle : ∀ k n : Nat, varIntBound k ≤ n ↔ k + 1 < getSizeOfVarInt n := by
    intro k n
    have := getSizeOfVarInt_le_iff k n
    omega
  constructor
  · intro h k _
    rw [hle, hle, h]
  · intro h
    have hk : ∀ k < 4, (k + 1 < getSizeOfVarInt a ↔ k + 1 < getSizeOfVarInt b) := by
      intro k hk
      rw [← hle, ← hle]
      exact h k hk
    have := hk 0 (by omega)
    have := hk 1 (by omega)
    have := hk 2 (by omega)
    have := hk 3 (by omega)
    have := getSizeOfVarInt_pos a
    have := getSizeOfVarInt_pos b
    have := getSizeOfVarInt_le_five ha
    have := getSizeOfVarInt_le_five hb
    omega

/-! ## Scripts and outputs -/

def CScriptCompressor.getSerializeSize (env : PubKeyEnv) (script : CScript) : Nat :=
  match compress env script with
  | some compr => compr.length % 2 ^ 32
  | none =>
    (script.bytes.length + getSizeOfVarInt ((script.bytes.length + nSpecialScripts) % 2 ^ 32 : Nat)) % 2 ^ 32

theorem CScriptCompressor.getSerializeSize_eq (env : PubKeyEnv) (script : CScript) :
    getSerializeSize env script = (serialize env script).length % 2 ^ 32 := by
  unfold getSerializeSize serialize
  cases compress env script with
  | some compr => rfl
  | none => simp only [List.length_append, length_writeVarInt, Nat.add_comm]

/-- `CTxOutCompressor::GetSerializeSize`: a `CSizeComputer` counts what `SerializationOp` writes. -/
def CTxOutCompressor.getSerializeSize (env : PubKeyEnv) (txout : CTxOut) : Nat := (serialize env txout).length

/-! ## Undo data of an input -/

namespace CTxInUndo

/-- The code of the height and the two flags, an `unsigned int`. -/
def nCode (u : CTxInUndo) : Nat :=
  (u.nHeight.toNat * 4 + (if u.fCoinBase then 2 else 0) + if u.fCoinStake then 1 else 0) % 2 ^ 32

def serialize (env : PubKeyEnv) (u : CTxInUndo) : List UInt8 :=
  writeVarInt (u.nCode : Nat) ++ ((if 0 < u.nHeight then writeVarInt u.nVersion.toInt else []) ++
    CTxOutCompressor.serialize env u.txout)

def getSerializeSize (env : PubKeyEnv) (u : CTxInUndo) : Nat :=
  (getSizeOfVarInt (u.nCode : Nat) + (if 0 < u.nHeight then getSizeOfVarInt u.nVersion.toInt else 0) +
    CTxOutCompressor.getSerializeSize env u.txout) % 2 ^ 32

theorem getSerializeSize_eq (env : PubKeyEnv) (u : CTxInUndo) :
    u.getSerializeSize env = (u.serialize env).length % 2 ^ 32 := by
  unfold getSerializeSize serialize CTxOutCompressor.getSerializeSize
  rw [List.length_append, List.length_append, length_writeVarInt, Nat.add_assoc]
  split
  · rw [length_writeVarInt]
  · rfl

end CTxInUndo

/-! ## Coins -/

namespace CCoins

/-- `nMaskCode - (fFirst || fSecond ? 0 : 1)`. -/
def maskCode (c : CCoins) : Nat := c.calcMaskSize.2 - if c.isUnspent 0 || c.isUnspent 1 then 0 else 1

/-- The four flags of the header code. -/
def flagCode (c : CCoins) : Nat :=
  c.fCoinBase.toNat + 2 * c.fCoinStake.toNat + 4 * (c.isUnspent 0).toNat + 8 * (c.isUnspent 1).toNat

/-- `nCode` of `GetSerializeSize`, an `unsigned int`. -/
def sizeCode (c : CCoins) : Nat := (8 * c.maskCode + c.flagCode) % 2 ^ 32

/-- `CCoins::GetSerializeSize`; `none` when its assertion fails. -/
def getSerializeSize (env : PubKeyEnv) (c : CCoins) : Option Nat :=
  if c.isUnspent 0 || c.isUnspent 1 || c.calcMaskSize.2 != 0 then
    some ((getSizeOfVarInt c.nVersion.toInt + getSizeOfVarInt (c.sizeCode : Nat) + c.calcMaskSize.1 +
      ((c.vout.filter fun o => !o.isNull).map (CTxOutCompressor.getSerializeSize env)).sum +
      getSizeOfVarInt c.nHeight.toInt) % 2 ^ 32)
  else none

theorem exists_serialize (env : PubKeyEnv) {c : CCoins}
    (h : (c.isUnspent 0 || c.isUnspent 1 || c.calcMaskSize.2 != 0) = true) : ∃ w, c.serialize env = some w :=
  ⟨_, if_pos h⟩

/-- The code of `GetSerializeSize` and that of `Serialize` lie on the same side of each bound of `VARINT`. -/
def SameSide (c : CCoins) : Prop := ∀ k < 4, (varIntBound k ≤ c.sizeCode ↔ varIntBound k ≤ c.nCode)

theorem getSerializeSize_add {env : PubKeyEnv} {c : CCoins} {w : List UInt8} (h : c.serialize env = some w) :
    ∃ r, c.getSerializeSize env = some ((r + getSizeOfVarInt (c.sizeCode : Nat)) % 2 ^ 32) ∧
      w.length = r + getSizeOfVarInt (c.nCode : Nat) := by
  unfold serialize at h
  split at h
  · rename_i ha
    cases h
    refine ⟨getSizeOfVarInt c.nVersion.toInt + c.calcMaskSize.1 +
      ((c.vout.filter fun o => !o.isNull).map (CTxOutCompressor.getSerializeSize env)).sum +
      getSizeOfVarInt c.nHeight.toInt, ?_, ?_⟩
    · rw [getSerializeSize, if_pos ha]
      congr 2
      omega
    · have hout : (outBytes env c.vout).length =
          ((c.vout.filter fun o => !o.isNull).map (CTxOutCompressor.getSerializeSize env)).sum := List.length_flatMap
      simp only [List.length_append, length_writeVarInt, List.length_map, List.length_range, hout]
      omega
  · cases h

theorem getSerializeSize_eq_iff {env : PubKeyEnv} {c : CCoins} {w : List UInt8} (h : c.serialize env = some w) :
    c.getSerializeSize env = some w.length ↔ w.length < 2 ^ 32 ∧ c.SameSide := by
  have hn : c.nCode < 2 ^ 32 := Nat.mod_lt _ (by decide)
  have hs : c.sizeCode < 2 ^ 32 := Nat.mod_lt _ (by decide)
  have h5n := getSizeOfVarInt_le_five hn
  have h5s := getSizeOfVarInt_le_five hs
  obtain ⟨r, hr, hw⟩ := getSerializeSize_add h
  rw [hr, hw, Option.some.injEq, SameSide, ← getSizeOfVarInt_eq_iff hs hn]
  omega

end CCoins

/-- The hand-written sizes count what is written: those of undo data and of scripts as long as it is an `unsigned int`,
that of coins when besides no bound lies between the two codes. -/
theorem getSerializeSize_exact (env : PubKeyEnv) :
    (∀ (c : CCoins) (w : List UInt8), c.serialize env = some w →
      (c.getSerializeSize env = some w.length ↔ w.length < 2 ^ 32 ∧ c.SameSide)) ∧
    (∀ u : CTxInUndo, u.getSerializeSize env = (u.serialize env).length ↔ (u.serialize env).length < 2 ^ 32) ∧
    ∀ script : CScript, CScriptCompressor.getSerializeSize env script =
      (CScriptCompressor.serialize env script).length ↔ (CScriptCompressor.serialize env script).length < 2 ^ 32 := by
  have hmod : ∀ n : Nat, n % 2 ^ 32 = n ↔ n < 2 ^ 32 := by
    intro n
    omega
  refine ⟨fun c w h => CCoins.getSerializeSize_eq_iff h, fun u => ?_, fun script => ?_⟩
  · rw [CTxInUndo.getSerializeSize_eq, hmod]
  · rw [CScriptCompressor.getSerializeSize_eq, hmod]

theorem getSerializeSize_exact_mixedCoins :
    ∃ w, CCoins.mixedCoins.serialize CCoins.generatorEnv = some w ∧
      (CCoins.mixedCoins.getSerializeSize CCoins.generatorEnv = some w.length ↔
        w.length < 2 ^ 32 ∧ CCoins.mixedCoins.SameSide) := by
  obtain ⟨w, hw⟩ := CCoins.exists_serialize CCoins.generatorEnv (c := CCoins.mixedCoins) (by decide)
  exact ⟨w, hw, (getSerializeSize_exact CCoins.generatorEnv).1 _ _ hw⟩

/-- With 66 unspent outputs `Serialize` writes two bytes for its code 140, where the code of `GetSerializeSize` is 76. -/
theorem not_getSerializeSize_exact :
    ¬ ∀ (env : PubKeyEnv) (c : CCoins) (w : List UInt8), c.serialize env = some w →
      c.getSerializeSize env = some w.length := by
  intro h
  obtain ⟨w, hw⟩ := CCoins.exists_serialize CCoins.generatorEnv
    (c := CCoins.coinsOf (List.replicate 66 CCoins.fiveOut)) (by decide)
  have hside := ((CCoins.getSerializeSize_eq_iff hw).mp (h CCoins.generatorEnv _ _ hw)).2
  have h76 : (CCoins.coinsOf (List.replicate 66 CCoins.fiveOut)).sizeCode = 76 := by decide
  have h140 : (CCoins.coinsOf (List.replicate 66 CCoins.fiveOut)).nCode = 140 := by decide
  have h128 := hside 0 (by decide)
  rw [h76, h140] at h128
  exact absurd (h128.mpr (by decide)) (by decide)

end DigiWage
