import DigiWage.Coins.Size

/-!
# Sizes and wraps of the compact encodings

`WriteVarInt` with the buffer that it fills from the lowest digit on, and the amounts of `compressor.h` with every
step over `uint64_t` checked.

* `compressAmount_decompressExact`: compressing inverts decompressing, up to the bound under which no step wraps.
-/

namespace DigiWage

/-! ## The buffer of `WriteVarInt` -/

/-- The first loop of `WriteVarInt`, where `tmp` has the bytes that are stored already; `none` where it writes behind the buffer. -/
def fillVarInt (size n : Nat) (tmp : List UInt8) : Option (List UInt8) :=
  if tmp.length < size then
    if n ≤ 0x7f then some (tmp ++ [varIntByte n (tmp.length ≠ 0)])
    else fillVarInt size ((n >>> 7) - 1) (tmp ++ [varIntByte n (tmp.length ≠ 0)])
  else none
termination_by n
decreasing_by
  rw [Nat.shiftRight_eq_div_pow]
  omega

/-- `WriteVarInt` for an integer of `w` bits: the buffer is filled, and written out from its end. -/
def writeVarIntBuffer (w n : Nat) : Option (List UInt8) := (fillVarInt ((w + 6) / 7) n []).map List.reverse

theorem rest_eq {n : Nat} (h : ¬n ≤ 0x7f) : (((n >>> 7) - 1 : Nat) : Int) = (n : Int) / 128 - 1 := by
  rw [Nat.shiftRight_eq_div_pow]
  omega

theorem fillVarInt_eq (size : Nat) (n : Nat) : ∀ tmp : List UInt8, tmp ≠ [] → tmp.length + getSizeOfVarInt n ≤ size →
    fillVarInt size n tmp = some (tmp ++ (writeVarIntHigh n).reverse) := by
  induction n using Nat.strongRecOn with
  | ind n ih =>
    intro tmp hne hroom
    have hflag : decide (tmp.length ≠ 0) = true := decide_eq_true (List.length_pos_of_ne_nil hne).ne'
    rw [getSizeOfVarInt] at hroom
    rw [fillVarInt, writeVarIntHigh, hflag]
    by_cases hsmall : n ≤ 0x7f
    · rw [if_pos (by omega)] at hroom
      rw [if_pos (by omega), if_pos hsmall, if_pos (by omega)]
      rfl
    · rw [if_neg (by omega), ← rest_eq hsmall] at hroom
      have hlt : (n >>> 7) - 1 < n := by
        rw [Nat.shiftRight_eq_div_pow]
        omega
      rw [if_pos (by omega), if_neg hsmall, if_neg (by omega), ← rest_eq hsmall,
        ih _ hlt (tmp ++ [varIntByte n true]) (by simp) (by rw [List.length_append, List.length_singleton]; omega)]
      simp

theorem getSizeOfVarInt_le {k n : Nat} (h : n < 128 ^ (k + 1)) : getSizeOfVarInt n ≤ k + 1 := by
  refine (getSizeOfVarInt_le_iff k n).mpr (h.trans_le ?_)
  clear h
  induction k with
  | zero => exact le_rfl
  | succ k ih =>
    rw [pow_succ, varIntBound]
    omega

theorem writeVarIntBuffer_eq {w n : Nat} (hroom : getSizeOfVarInt n ≤ (w + 6) / 7) : writeVarIntBuffer w n = some (writeVarInt n) := by
  have hbuf : ([] : List UInt8).length < (w + 6) / 7 := (getSizeOfVarInt_pos n).trans_le hroom
  rw [writeVarIntBuffer, fillVarInt, writeVarInt, if_pos hbuf]
  rw [getSizeOfVarInt] at hroom
  by_cases hsmall : n ≤ 0x7f
  · rw [if_pos hsmall, if_pos (by omega)]
    rfl
  · rw [if_neg (by omega), ← rest_eq hsmall] at hroom
    rw [if_neg hsmall, if_neg (by omega), ← rest_eq hsmall,
      fillVarInt_eq _ _ _ (by simp) (by simp; omega)]
    simp

/-- The encoding of an integer of `w` bits is read back from any stream that goes on, has the size that is told beforehand, and fits
into the buffer. -/
def VarIntOk (w n : Nat) : Prop :=
  ∃ bytes, writeVarIntBuffer w n = some bytes ∧ (∀ s, readVarInt w (bytes ++ s) = some (n, s)) ∧
    bytes.length = getSizeOfVarInt n ∧ bytes.length ≤ (w + 6) / 7

theorem varIntOk {w n k : Nat} (hn : n < 2 ^ w) (hw : w ≤ 7 * (k + 1)) (hk : k + 1 ≤ (w + 6) / 7) : VarIntOk w n := by
  have hdigits : n < 128 ^ (k + 1) := by
    calc n < 2 ^ w := hn
      _ ≤ 2 ^ (7 * (k + 1)) := Nat.pow_le_pow_right (by omega) hw
      _ = 128 ^ (k + 1) := pow_mul 2 7 _
  have hsize := (getSizeOfVarInt_le hdigits).trans hk
  exact ⟨_, writeVarIntBuffer_eq hsize, readVarInt_write n hn, length_writeVarInt n, by rw [length_writeVarInt]; exact hsize⟩

/-! ## Amounts without wraps -/

namespace CTxOutCompressor

/-- A result over `uint64_t`; `none` where it wraps. -/
def fits (n : Nat) : Option Nat := if n < 2 ^ 64 then some n else none

/-- `CompressAmount` with every step checked. A subtraction is of one, from a sum that has been checked. -/
def compressChecked (nAmount : Nat) : Option Nat :=
  if nAmount = 0 then some 0
  else
    let n := (scaleDown 9 nAmount).1
    let e := (scaleDown 9 nAmount).2
    if e < 9 then do
      let d := n % 10
      let n := n / 10
      let m ← fits (n * 9)
      let m ← fits (m + d)
      if m = 0 then none
      else
        let m ← fits ((m - 1) * 10)
        let m ← fits (1 + m)
        fits (m + e)
    else if n = 0 then none
    else do
      let m ← fits ((n - 1) * 10)
      let m ← fits (1 + m)
      fits (m + 9)

/-- The last loop of `DecompressAmount`. -/
def scaleUp : Nat → Nat → Option Nat
  | 0, n => some n
  | e + 1, n => do
    let n ← fits (n * 10)
    scaleUp e n

/-- `DecompressAmount` with every step checked. -/
def decompressChecked (x : Nat) : Option Nat :=
  if x = 0 then some 0
  else do
    let x := x - 1
    let e := x % 10
    let x := x / 10
    let n ← if e < 9 then do
        let d := x % 9 + 1
        let x := x / 9
        let n ← fits (x * 10)
        fits (n + d)
      else fits (x + 1)
    scaleUp e n

theorem fits_eq {n : Nat} (h : n < 2 ^ 64) : fits n = some n := if_pos h

theorem scaleUp_eq : ∀ (e n : Nat), n * 10 ^ e < 2 ^ 64 → scaleUp e n = some (n * 10 ^ e)
  | 0, n, _ => by rw [scaleUp, pow_zero, Nat.mul_one]
  | e + 1, n, h => by
    have hassoc : n * 10 ^ (e + 1) = n * 10 * 10 ^ e := by ring
    rw [hassoc] at h ⊢
    have hle : n * 10 ≤ n * 10 * 10 ^ e := Nat.le_mul_of_pos_right _ (Nat.pow_pos (by omega))
    rw [scaleUp, fits_eq (by omega)]
    exact scaleUp_eq e (n * 10) h

theorem decompressChecked_eq {x : Nat} (h : decompressExact x < 2 ^ 64) : decompressChecked x = some (decompressExact x) := by
  unfold decompressChecked decompressExact at *
  by_cases hx : x = 0
  · rw [if_pos hx, if_pos hx]
  · rw [if_neg hx] at h
    rw [if_neg hx, if_neg hx]
    simp only at h ⊢
    by_cases he : (x - 1) % 10 < 9
    · rw [if_pos he] at h
      rw [if_pos he, if_pos he]
      have hle := Nat.le_mul_of_pos_right ((x - 1) / 10 / 9 * 10 + ((x - 1) / 10 % 9 + 1)) (Nat.pow_pos (n := (x - 1) % 10) (by omega : 0 < 10))
      rw [fits_eq (by omega)]
      simp only [Option.bind_eq_bind, Option.bind_some]
      rw [fits_eq (by omega), Option.bind_some]
      exact scaleUp_eq _ _ h
    · rw [if_neg he] at h
      rw [if_neg he, if_neg he]
      have hle := Nat.le_mul_of_pos_right ((x - 1) / 10 + 1) (Nat.pow_pos (n := (x - 1) % 10) (by omega : 0 < 10))
      rw [fits_eq (by omega)]
      exact scaleUp_eq _ _ h

theorem compressChecked_eq {n : Nat} (h : n ≤ 2 ^ 60) : compressChecked n = some (compressAmount n) := by
  obtain ⟨h1, h2, h3⟩ := scaleDown_spec 9 n
  unfold compressChecked compressAmount
  by_cases h0 : n = 0
  · rw [if_pos h0, if_pos h0]
  · rw [if_neg h0, if_neg h0]
    simp only
    generalize (scaleDown 9 n).1 = m at h1 h3 ⊢
    generalize (scaleDown 9 n).2 = e at h1 h2 h3 ⊢
    have hm0 : m ≠ 0 := fun hm => h0 (by rw [← h1, hm, Nat.zero_mul])
    have hle : m ≤ n := h1 ▸ Nat.le_mul_of_pos_right m (Nat.pow_pos (by omega))
    by_cases he : e < 9
    · have hd := h3 he
      rw [if_pos he, if_pos he, fits_eq (by omega)]
      simp only [Option.bind_eq_bind, Option.bind_some]
      rw [fits_eq (by omega), Option.bind_some, if_neg (by omega), fits_eq (by omega), Option.bind_some, fits_eq (by omega),
        Option.bind_some, fits_eq (by omega), Nat.mod_eq_of_lt (by omega : 1 + (m / 10 * 9 + m % 10 - 1) * 10 + e < 2 ^ 64)]
    · rw [if_neg he, if_neg he, if_neg hm0, fits_eq (by omega)]
      simp only [Option.bind_eq_bind, Option.bind_some]
      rw [fits_eq (by omega), Option.bind_some, fits_eq (by omega), Nat.mod_eq_of_lt (by omega)]

theorem scaleDown_mul : ∀ (k e m : Nat), e ≤ k → (e < k → m % 10 ≠ 0) → scaleDown k (m * 10 ^ e) = (m, e)
  | 0, e, m, he, _ => by
    obtain rfl : e = 0 := by omega
    rw [pow_zero, Nat.mul_one, scaleDown]
  | k + 1, 0, m, _, hm => by
    rw [pow_zero, Nat.mul_one, scaleDown, if_neg (hm (by omega))]
  | k + 1, e + 1, m, he, hm => by
    have hmul : m * 10 ^ (e + 1) = m * 10 ^ e * 10 := by ring
    rw [hmul, scaleDown, if_pos (Nat.mul_mod_left _ _), Nat.mul_div_cancel _ (by omega),
      scaleDown_mul k e m (by omega) fun hlt => hm (by omega)]

theorem compressAmount_decompressExact {x : Nat} (h : decompressExact x ≤ 2 ^ 60) : compressAmount (decompressExact x) = x := by
  unfold decompressExact at *
  by_cases hx : x = 0
  · rw [if_pos hx, hx]
    rfl
  · rw [if_neg hx] at h ⊢
    simp only at h ⊢
    by_cases he : (x - 1) % 10 < 9
    · rw [if_pos he] at h ⊢
      have hscale := scaleDown_mul 9 ((x - 1) % 10) ((x - 1) / 10 / 9 * 10 + ((x - 1) / 10 % 9 + 1)) he.le fun _ => by omega
      have hle := Nat.le_mul_of_pos_right ((x - 1) / 10 / 9 * 10 + ((x - 1) / 10 % 9 + 1)) (Nat.pow_pos (n := (x - 1) % 10) (by omega : 0 < 10))
      rw [compressAmount, if_neg (by omega), hscale]
      simp only
      rw [if_pos he, Nat.mod_eq_of_lt (by omega)]
      omega
    · rw [if_neg he] at h ⊢
      have hnine : (x - 1) % 10 = 9 := by omega
      have hscale := scaleDown_mul 9 9 ((x - 1) / 10 + 1) le_rfl fun hlt => absurd hlt (lt_irrefl _)
      have hle := Nat.le_mul_of_pos_right ((x - 1) / 10 + 1) (Nat.pow_pos (n := 9) (by omega : 0 < 10))
      rw [hnine] at h ⊢
      rw [compressAmount, if_neg (by omega), hscale]
      simp only
      rw [if_neg (lt_irrefl 9), Nat.mod_eq_of_lt (by omega)]
      omega

end CTxOutCompressor

/-- **Compact encodings.** Every unsigned integer of 32 or 64 bits is read back from its encoding, which has the size that
`GetSizeOfVarInt` tells and fits into the buffer. The compression of amounts has an inverse in both directions, and no step of either
wraps in the range of money. -/
theorem varInt_amount_inverse :
    (∀ n : UInt32, VarIntOk 32 n.toNat) ∧ (∀ n : UInt64, VarIntOk 64 n.toNat) ∧
    (∀ a : Nat, (a : Int) ≤ CTxOutCompressor.maxMoney → ∃ x, CTxOutCompressor.compressChecked a = some x ∧
      CTxOutCompressor.compressAmount a = x ∧ CTxOutCompressor.decompressChecked x = some a ∧ CTxOutCompressor.decompressAmount x = a) ∧
    ∀ x : Nat, (CTxOutCompressor.decompressExact x : Int) ≤ CTxOutCompressor.maxMoney →
      CTxOutCompressor.decompressChecked x = some (CTxOutCompressor.decompressAmount x) ∧
      CTxOutCompressor.compressAmount (CTxOutCompressor.decompressAmount x) = x := by
  have hmax : CTxOutCompressor.maxMoney = 12000000000000000 := rfl
  refine ⟨fun n => @varIntOk 32 _ 4 n.toNat_lt (by omega) (by omega), fun n => @varIntOk 64 _ 9 n.toNat_lt (by omega) (by omega),
    fun a ha => ?_, fun x hx => ?_⟩
  · have hinv := @CTxOutCompressor.decompressAmount_compressAmount a (by omega)
    have hexact := @CTxOutCompressor.decompressExact_compressAmount a (by omega)
    have hchecked := @CTxOutCompressor.decompressChecked_eq (CTxOutCompressor.compressAmount a) (by omega)
    rw [hexact] at hchecked
    exact ⟨_, CTxOutCompressor.compressChecked_eq (by omega), rfl, hchecked, hinv⟩
  · have hfit : CTxOutCompressor.decompressExact x < 2 ^ 64 := by omega
    rw [CTxOutCompressor.decompressChecked_eq hfit, CTxOutCompressor.decompressAmount_eq, Nat.mod_eq_of_lt hfit]
    exact ⟨rfl, CTxOutCompressor.compressAmount_decompressExact (by omega)⟩

/-- One coin is compressed without a wrap, and 9 stands for an amount. -/
theorem varInt_amount_inverse_coin :
    (∃ x, CTxOutCompressor.compressChecked 100000000 = some x ∧ CTxOutCompressor.decompressAmount x = 100000000) ∧
      CTxOutCompressor.compressAmount (CTxOutCompressor.decompressAmount 9) = 9 := by
  obtain ⟨x, hx, -, -, hinv⟩ := varInt_amount_inverse.2.2.1 100000000 (by decide)
  exact ⟨⟨x, hx, hinv⟩, (varInt_amount_inverse.2.2.2 9 (by decide)).2⟩

end DigiWage
