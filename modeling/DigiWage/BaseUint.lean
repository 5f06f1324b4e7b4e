import DigiWage.Lib.Limbs
import Mathlib.Data.Nat.ModEq

/-!
# Big integers

`base_uint` of `uint256.h` and `uint256.cpp`: `WIDTH` limbs of 32 bits. The operators change an object in place, and the other operand
is a reference, which may be one to the same object.
-/

namespace DigiWage

open Lib

/-- `base_uint`, with its limbs. -/
structure BaseUint (WIDTH : Nat) where
  pn : Fin WIDTH → UInt32

/-- The other operand of an operator: another object, or the same one. -/
inductive Operand (WIDTH : Nat) where
  | other (b : BaseUint WIDTH)
  | self

namespace BaseUint

variable {WIDTH : Nat}

/-- What a reference stands for while the object is `this`. -/
def deref (this : BaseUint WIDTH) : Operand WIDTH → BaseUint WIDTH
  | .other b => b
  | .self => this

/-- An assignment to a limb. -/
def setLimb (this : BaseUint WIDTH) (i : Fin WIDTH) (v : UInt32) : BaseUint WIDTH := ⟨Function.update this.pn i v⟩

/-- The constructor without arguments, and `*this = 0`. -/
def null : BaseUint WIDTH := ⟨fun _ => 0⟩

/-- `n & 0xffffffff`. -/
def low32 (n : UInt64) : UInt32 := (n &&& 0xffffffff).toUInt32

/-! ## Addition and subtraction -/

/-- A round of `operator+=`: the object, and `carry`. -/
def addRound (b : Operand WIDTH) : BaseUint WIDTH × UInt64 → Fin WIDTH → BaseUint WIDTH × UInt64
  | (this, carry), i =>
    let n := carry + (this.pn i).toUInt64 + ((this.deref b).pn i).toUInt64
    (this.setLimb i (low32 n), n >>> 32)

/-- `operator+=`. -/
def addAssign (this : BaseUint WIDTH) (b : Operand WIDTH) : BaseUint WIDTH := (Fin.foldl WIDTH (addRound b) (this, 0)).1

/-- `operator~`. -/
def complement (b : BaseUint WIDTH) : BaseUint WIDTH := ⟨fun i => ~~~b.pn i⟩

/-- The loop of `operator++` from limb `i` on: it goes on while limbs become zero. -/
def incrementFrom (this : BaseUint WIDTH) : Nat → Nat → BaseUint WIDTH
  | 0, _ => this
  | n + 1, i =>
    if h : i < WIDTH then
      let this := this.setLimb ⟨i, h⟩ (this.pn ⟨i, h⟩ + 1)
      if this.pn ⟨i, h⟩ = 0 ∧ i < WIDTH - 1 then incrementFrom this n (i + 1) else this
    else this

/-- `operator++`. -/
def increment (this : BaseUint WIDTH) : BaseUint WIDTH := this.incrementFrom WIDTH 0

/-- `operator-`. -/
def negate (b : BaseUint WIDTH) : BaseUint WIDTH := b.complement.increment

/-- `operator-=`. -/
def subAssign (this : BaseUint WIDTH) (b : Operand WIDTH) : BaseUint WIDTH := this.addAssign (.other (this.deref b).negate)

/-! ## Multiplication -/

/-- A round of `operator*=` by a `uint32_t`. -/
def mulRound32 (b32 : UInt32) : BaseUint WIDTH × UInt64 → Fin WIDTH → BaseUint WIDTH × UInt64
  | (this, carry), i =>
    let n := carry + b32.toUInt64 * (this.pn i).toUInt64
    (this.setLimb i (low32 n), n >>> 32)

/-- `operator*=` by a `uint32_t`. -/
def mulAssign32 (this : BaseUint WIDTH) (b32 : UInt32) : BaseUint WIDTH := (Fin.foldl WIDTH (mulRound32 b32) (this, 0)).1

/-- A round of the inner loop of `operator*=`, which ends at `i + j < WIDTH`. -/
def mulRound (a : UInt32) (b : Operand WIDTH) (j : Fin WIDTH) : BaseUint WIDTH × UInt64 → Fin WIDTH → BaseUint WIDTH × UInt64
  | (this, carry), i =>
    if h : i + j < WIDTH then
      let n := carry + (this.pn ⟨i + j, h⟩).toUInt64 + a.toUInt64 * ((this.deref b).pn i).toUInt64
      (this.setLimb ⟨i + j, h⟩ (low32 n), n >>> 32)
    else (this, carry)

/-- The inner loop of `operator*=`. -/
def mulRow (a : UInt32) (b : Operand WIDTH) (this : BaseUint WIDTH) (j : Fin WIDTH) : BaseUint WIDTH :=
  (Fin.foldl WIDTH (mulRound a b j) (this, 0)).1

/-- `operator*=`. The other operand is read while the object already holds the result. -/
def mulAssign (this : BaseUint WIDTH) (b : Operand WIDTH) : BaseUint WIDTH :=
  let a := this
  Fin.foldl WIDTH (fun this j => mulRow (a.pn j) b this j) null

/-! ## Shifts -/

/-- `pn[i] |= v`. -/
def orLimb (this : BaseUint WIDTH) (i : Fin WIDTH) (v : UInt32) : BaseUint WIDTH := this.setLimb i (this.pn i ||| v)

/-- A round of `operator<<=`. -/
def shlRound (a : BaseUint WIDTH) (k : Nat) (shift : UInt32) (this : BaseUint WIDTH) (i : Fin WIDTH) : BaseUint WIDTH :=
  let this := if h : i + k + 1 < WIDTH ∧ shift ≠ 0 then this.orLimb ⟨i + k + 1, h.1⟩ (a.pn i >>> (32 - shift)) else this
  if h : i + k < WIDTH then this.orLimb ⟨i + k, h⟩ (a.pn i <<< shift) else this

/-- `operator<<=`. -/
def shlAssign (this : BaseUint WIDTH) (shift : UInt32) : BaseUint WIDTH :=
  Fin.foldl WIDTH (shlRound this (shift / 32).toNat (shift % 32)) null

/-- A round of `operator>>=`. -/
def shrRound (a : BaseUint WIDTH) (k : Nat) (shift : UInt32) (this : BaseUint WIDTH) (i : Fin WIDTH) : BaseUint WIDTH :=
  let this := if k + 1 ≤ i ∧ shift ≠ 0 then this.orLimb ⟨i - k - 1, by omega⟩ (a.pn i <<< (32 - shift)) else this
  if k ≤ i then this.orLimb ⟨i - k, by omega⟩ (a.pn i >>> shift) else this

/-- `operator>>=`. -/
def shrAssign (this : BaseUint WIDTH) (shift : UInt32) : BaseUint WIDTH :=
  Fin.foldl WIDTH (shrRound this (shift / 32).toNat (shift % 32)) null

/-! ## Comparison and division -/

/-- The loop of `CompareTo` below limb `i`. -/
def compareBelow (a b : BaseUint WIDTH) : (i : Nat) → i ≤ WIDTH → Int
  | 0, _ => 0
  | i + 1, h =>
    if a.pn ⟨i, h⟩ < b.pn ⟨i, h⟩ then -1
    else if b.pn ⟨i, h⟩ < a.pn ⟨i, h⟩ then 1
    else compareBelow a b i (Nat.le_of_succ_le h)

def compareTo (this b : BaseUint WIDTH) : Int := compareBelow this b WIDTH le_rfl

/-- The inner loop of `bits`, from bit `bits` down: the position of the highest bit of a limb plus one. -/
def limbBits (limb : UInt32) : Nat → Nat
  | 0 => 1
  | bits + 1 => if limb &&& ((1 : UInt32) <<< UInt32.ofNat (bits + 1)) ≠ 0 then bits + 2 else limbBits limb bits

/-- The loop of `bits` below limb `pos`. -/
def bitsBelow (this : BaseUint WIDTH) : (pos : Nat) → pos ≤ WIDTH → Nat
  | 0, _ => 0
  | pos + 1, h => if this.pn ⟨pos, h⟩ ≠ 0 then 32 * pos + limbBits (this.pn ⟨pos, h⟩) 31 else bitsBelow this pos (Nat.le_of_succ_le h)

/-- `bits`: the position of the highest bit set plus one. -/
def bits (this : BaseUint WIDTH) : Nat := this.bitsBelow WIDTH le_rfl

/-- The loop of `operator/=`, for `n = shift + 1`: the quotient, and `num`. -/
def divLoop (this : BaseUint WIDTH) (num div : BaseUint WIDTH) : Nat → BaseUint WIDTH × BaseUint WIDTH
  | 0 => (this, num)
  | shift + 1 =>
    if 0 ≤ num.compareTo div then
      let this := if h : shift / 32 < WIDTH then this.orLimb ⟨shift / 32, h⟩ ((1 : UInt32) <<< UInt32.ofNat (shift % 32)) else this
      divLoop this (num.subAssign (.other div)) (div.shrAssign 1) shift
    else divLoop this num (div.shrAssign 1) shift

/-- `operator/=`; `none` where it throws "Division by zero". -/
def divAssign (this : BaseUint WIDTH) (b : Operand WIDTH) : Option (BaseUint WIDTH) :=
  let div := this.deref b
  let num := this
  let num_bits := num.bits
  let div_bits := div.bits
  if div_bits = 0 then none
  -- the result is certainly 0
  else if num_bits < div_bits then some null
  else
    let shift := num_bits - div_bits
    some (divLoop null num (div.shlAssign (UInt32.ofNat shift)) (shift + 1)).1

/-! ## The number -/

/-- The number that is represented. -/
def toNat (this : BaseUint WIDTH) : Nat := value 32 fun i => (this.pn i).toNat

variable {a this : BaseUint WIDTH}

theorem limb_lt (a : BaseUint WIDTH) (i : Fin WIDTH) : (a.pn i).toNat < 2 ^ 32 := (a.pn i).toNat_lt

theorem toNat_lt (a : BaseUint WIDTH) : a.toNat < 2 ^ (32 * WIDTH) := value_lt a.limb_lt

@[simp] theorem toNat_null : (null : BaseUint WIDTH).toNat = 0 := value_zero 32 WIDTH

theorem toNat_mod_succ (a : BaseUint WIDTH) (i : Fin WIDTH) :
    a.toNat % 2 ^ (32 * ((i : Nat) + 1)) = a.toNat % 2 ^ (32 * (i : Nat)) + (a.pn i).toNat * 2 ^ (32 * (i : Nat)) :=
  value_mod_succ (by omega) a.limb_lt i

theorem toNat_setLimb (this : BaseUint WIDTH) (i : Fin WIDTH) (v : UInt32) :
    (this.setLimb i v).toNat + (this.pn i).toNat * 2 ^ (32 * (i : Nat)) = this.toNat + v.toNat * 2 ^ (32 * (i : Nat)) := by
  have hmap : (fun j => ((this.setLimb i v).pn j).toNat) = Function.update (fun j => (this.pn j).toNat) i v.toNat := by
    funext j
    by_cases h : j = i
    · subst h
      simp [setLimb]
    · simp [setLimb, Function.update_of_ne h]
  unfold toNat
  rw [hmap, value_update]

@[simp] theorem pn_setLimb_self (this : BaseUint WIDTH) (i : Fin WIDTH) (v : UInt32) : (this.setLimb i v).pn i = v :=
  Function.update_self _ _ _

theorem pn_setLimb_of_ne {i j : Fin WIDTH} (h : j ≠ i) (v : UInt32) : (this.setLimb i v).pn j = this.pn j :=
  Function.update_of_ne h _ _

theorem toNat_low32 (n : UInt64) : (low32 n).toNat = n.toNat % 2 ^ 32 := by
  have hmask : (0xffffffff : UInt64).toNat = 2 ^ 32 - 1 := rfl
  rw [low32, UInt64.toNat_toUInt32, UInt64.toNat_and, hmask, Nat.and_two_pow_sub_one_eq_mod, Nat.mod_mod]

theorem toNat_high32 (n : UInt64) : (n >>> 32).toNat = n.toNat / 2 ^ 32 := by
  rw [UInt64.toNat_shiftRight, Nat.shiftRight_eq_div_pow]
  rfl

theorem carry_step (this : BaseUint WIDTH) (i : Fin WIDTH) (n : UInt64) :
    (this.setLimb i (low32 n)).toNat + (n >>> 32).toNat * 2 ^ (32 * ((i : Nat) + 1)) + (this.pn i).toNat * 2 ^ (32 * (i : Nat)) =
      this.toNat + n.toNat * 2 ^ (32 * (i : Nat)) := by
  have hset := toNat_setLimb this i (low32 n)
  have hsplit := Nat.mod_add_div n.toNat (2 ^ 32)
  rw [toNat_low32] at hset
  rw [toNat_high32, Nat.mul_succ, Nat.pow_add]
  generalize 2 ^ (32 * (i : Nat)) = P at *
  calc _ = (this.setLimb i (low32 n)).toNat + (this.pn i).toNat * P + 2 ^ 32 * (n.toNat / 2 ^ 32) * P := by ring
    _ = this.toNat + (n.toNat % 2 ^ 32 + 2 ^ 32 * (n.toNat / 2 ^ 32)) * P := by rw [hset]; ring
    _ = this.toNat + n.toNat * P := by rw [hsplit]

theorem high32_lt (n : UInt64) : (n >>> 32).toNat < 2 ^ 32 := by
  rw [toNat_high32]
  have hlt := n.toNat_lt
  omega

/-! ## Sums and differences -/

theorem toNat_addAssign (this : BaseUint WIDTH) (b : Operand WIDTH) :
    (this.addAssign b).toNat = (this.toNat + (this.deref b).toNat) % 2 ^ (32 * WIDTH) := by
  -- up to limb `i` the sum with the carry is that of the low limbs, and the limbs from `i` on are unchanged
  have hloop := @foldl_induct (BaseUint WIDTH × UInt64) WIDTH (addRound b) (this, 0)
    (fun i s => s.2.toNat < 2 ^ 32 ∧ (∀ j : Fin WIDTH, i ≤ j → s.1.pn j = this.pn j) ∧
      s.1.toNat + s.2.toNat * 2 ^ (32 * i) = this.toNat + (this.deref b).toNat % 2 ^ (32 * i))
    ⟨by simp, fun j _ => rfl, by simp [Nat.mod_one]⟩ (by
      rintro i ⟨this', carry⟩ ⟨hcarry, hsame, hsum⟩
      simp only [addRound] at hcarry hsame hsum ⊢
      have hread : (this'.deref b).pn i = (this.deref b).pn i := by
        cases b with
        | other b => rfl
        | self => exact hsame i le_rfl
      rw [hread, hsame i le_rfl]
      have hn : (carry + (this.pn i).toUInt64 + ((this.deref b).pn i).toUInt64).toNat =
          carry.toNat + (this.pn i).toNat + ((this.deref b).pn i).toNat := by
        have h1 := this.limb_lt i
        have h2 := (this.deref b).limb_lt i
        simp only [UInt64.toNat_add, UInt32.toNat_toUInt64]
        omega
      refine ⟨high32_lt _, fun j hj => ?_, ?_⟩
      · rw [pn_setLimb_of_ne (by rintro rfl; omega)]
        exact hsame j (by omega)
      · have hstep := carry_step this' i (carry + (this.pn i).toUInt64 + ((this.deref b).pn i).toUInt64)
        rw [hn, hsame i le_rfl] at hstep
        rw [toNat_mod_succ]
        linarith)
  obtain ⟨-, -, hsum⟩ := hloop
  rw [Nat.mod_eq_of_lt (this.deref b).toNat_lt] at hsum
  rw [← hsum, addAssign, Nat.add_mul_mod_self_right, Nat.mod_eq_of_lt (toNat_lt _)]

theorem toNat_complement (b : BaseUint WIDTH) : b.complement.toNat + b.toNat + 1 = 2 ^ (32 * WIDTH) := by
  apply value_add_value
  intro i
  have hlt := b.limb_lt i
  have hsize : UInt32.size = 2 ^ 32 := rfl
  simp only [complement, UInt32.toNat_not]
  omega

theorem toNat_incrementFrom : ∀ (n : Nat) (this : BaseUint WIDTH) (i : Nat), i < WIDTH → WIDTH ≤ i + n →
    ∃ c, (this.incrementFrom n i).toNat + c * 2 ^ (32 * WIDTH) = this.toNat + 2 ^ (32 * i)
  | 0, _, i, hi, hn => absurd hn (by omega)
  | n + 1, this, i, hi, hn => by
    rw [incrementFrom, dif_pos hi]
    simp only [pn_setLimb_self]
    have hset := toNat_setLimb this ⟨i, hi⟩ (this.pn ⟨i, hi⟩ + 1)
    have hadd : (this.pn ⟨i, hi⟩ + 1).toNat = ((this.pn ⟨i, hi⟩).toNat + 1) % 2 ^ 32 := UInt32.toNat_add _ _
    have hlt := this.limb_lt ⟨i, hi⟩
    simp only at hset
    by_cases hzero : this.pn ⟨i, hi⟩ + 1 = 0
    · have hlast : (this.pn ⟨i, hi⟩).toNat + 1 = 2 ^ 32 := by
        rw [hzero, show (0 : UInt32).toNat = 0 from rfl] at hadd
        omega
      -- the limb becomes zero, and the next one is incremented
      have hcarry : (this.setLimb ⟨i, hi⟩ (this.pn ⟨i, hi⟩ + 1)).toNat + 2 ^ (32 * (i + 1)) = this.toNat + 2 ^ (32 * i) := by
        rw [Nat.mul_succ, Nat.pow_add, ← hlast]
        rw [hzero, show (0 : UInt32).toNat = 0 from rfl] at hset
        rw [hzero]
        linarith
      split
      · obtain ⟨c, hc⟩ := toNat_incrementFrom n (this.setLimb ⟨i, hi⟩ (this.pn ⟨i, hi⟩ + 1)) (i + 1) (by omega) (by omega)
        exact ⟨c, hc.trans hcarry⟩
      · rename_i hend
        have htop : i + 1 = WIDTH := by
          rw [not_and] at hend
          have hnot := hend hzero
          omega
        rw [htop] at hcarry
        exact ⟨1, by rw [Nat.one_mul]; exact hcarry⟩
    · rw [if_neg fun h => hzero h.1]
      have hne : (this.pn ⟨i, hi⟩ + 1).toNat ≠ 0 := fun h => hzero (UInt32.toNat_inj.mp h)
      have hone : (this.pn ⟨i, hi⟩ + 1).toNat = (this.pn ⟨i, hi⟩).toNat + 1 := by omega
      rw [hone] at hset
      exact ⟨0, by linarith⟩

theorem toNat_increment (hpos : 0 < WIDTH) (this : BaseUint WIDTH) :
    this.increment.toNat = (this.toNat + 1) % 2 ^ (32 * WIDTH) := by
  obtain ⟨c, hc⟩ := toNat_incrementFrom WIDTH this 0 hpos (by omega)
  rw [Nat.mul_zero, pow_zero] at hc
  rw [← hc, Nat.add_mul_mod_self_right, Nat.mod_eq_of_lt (toNat_lt _), increment]

theorem toNat_negate (hpos : 0 < WIDTH) (b : BaseUint WIDTH) :
    b.negate.toNat = (2 ^ (32 * WIDTH) - b.toNat) % 2 ^ (32 * WIDTH) := by
  have hsum := toNat_complement b
  rw [negate, toNat_increment hpos]
  congr 1
  omega

theorem toNat_subAssign (hpos : 0 < WIDTH) (this : BaseUint WIDTH) (b : Operand WIDTH) :
    (this.subAssign b).toNat = (this.toNat + (2 ^ (32 * WIDTH) - (this.deref b).toNat)) % 2 ^ (32 * WIDTH) := by
  rw [subAssign, toNat_addAssign]
  simp only [deref]
  rw [toNat_negate hpos, Nat.add_mod_mod]

/-! ## Products -/

theorem toNat_mulAssign32 (this : BaseUint WIDTH) (b32 : UInt32) :
    (this.mulAssign32 b32).toNat = this.toNat * b32.toNat % 2 ^ (32 * WIDTH) := by
  -- below limb `i` there is the product of the low limbs with the carry, and from limb `i` on the object is unchanged
  have hloop := @foldl_induct (BaseUint WIDTH × UInt64) WIDTH (mulRound32 b32) (this, 0)
    (fun i s => s.2.toNat < 2 ^ 32 ∧ (∀ j : Fin WIDTH, i ≤ j → s.1.pn j = this.pn j) ∧
      s.1.toNat + s.2.toNat * 2 ^ (32 * i) + this.toNat % 2 ^ (32 * i) = this.toNat + b32.toNat * (this.toNat % 2 ^ (32 * i)))
    ⟨by simp, fun j _ => rfl, by simp [Nat.mod_one]⟩ (by
      rintro i ⟨this', carry⟩ ⟨hcarry, hsame, hprod⟩
      simp only [mulRound32] at hcarry hsame hprod ⊢
      rw [hsame i le_rfl]
      have hn : (carry + b32.toUInt64 * (this.pn i).toUInt64).toNat = carry.toNat + b32.toNat * (this.pn i).toNat := by
        have hmul : b32.toNat * (this.pn i).toNat ≤ (2 ^ 32 - 1) * (2 ^ 32 - 1) :=
          Nat.mul_le_mul (Nat.le_pred_of_lt b32.toNat_lt) (Nat.le_pred_of_lt (this.limb_lt i))
        simp only [UInt64.toNat_add, UInt64.toNat_mul, UInt32.toNat_toUInt64]
        omega
      refine ⟨high32_lt _, fun j hj => ?_, ?_⟩
      · rw [pn_setLimb_of_ne (by rintro rfl; omega)]
        exact hsame j (by omega)
      · have hstep := carry_step this' i (carry + b32.toUInt64 * (this.pn i).toUInt64)
        rw [hn, hsame i le_rfl] at hstep
        rw [toNat_mod_succ]
        linarith)
  obtain ⟨-, -, hprod⟩ := hloop
  rw [Nat.mod_eq_of_lt this.toNat_lt] at hprod
  rw [Nat.add_comm this.toNat] at hprod
  rw [Nat.mul_comm, ← Nat.add_right_cancel hprod, mulAssign32, Nat.add_mul_mod_self_right, Nat.mod_eq_of_lt (toNat_lt _)]

theorem toNat_mulRow (d : UInt32) (b this : BaseUint WIDTH) (j : Fin WIDTH) :
    (mulRow d (.other b) this j).toNat ≡ this.toNat + d.toNat * 2 ^ (32 * (j : Nat)) * b.toNat [MOD 2 ^ (32 * WIDTH)] := by
  -- the limbs of the row that are left out are above the width
  have hloop := @foldl_induct (BaseUint WIDTH × UInt64) WIDTH (mulRound d (.other b) j) (this, 0)
    (fun i s => s.2.toNat < 2 ^ 32 ∧ s.1.toNat + s.2.toNat * 2 ^ (32 * (min i (WIDTH - j) + j)) =
      this.toNat + d.toNat * 2 ^ (32 * (j : Nat)) * (b.toNat % 2 ^ (32 * min i (WIDTH - j))))
    ⟨by simp, by simp [Nat.mod_one]⟩ (by
      rintro i ⟨this', carry⟩ ⟨hcarry, hprod⟩
      simp only [mulRound, deref] at hcarry hprod ⊢
      by_cases h : (i : Nat) + j < WIDTH
      · rw [dif_pos h]
        have hn : (carry + (this'.pn ⟨i + j, h⟩).toUInt64 + d.toUInt64 * (b.pn i).toUInt64).toNat =
            carry.toNat + (this'.pn ⟨i + j, h⟩).toNat + d.toNat * (b.pn i).toNat := by
          have hlimb := this'.limb_lt ⟨i + j, h⟩
          have hmul : d.toNat * (b.pn i).toNat ≤ (2 ^ 32 - 1) * (2 ^ 32 - 1) :=
            Nat.mul_le_mul (Nat.le_pred_of_lt d.toNat_lt) (Nat.le_pred_of_lt (b.limb_lt i))
          simp only [UInt64.toNat_add, UInt64.toNat_mul, UInt32.toNat_toUInt64]
          omega
        refine ⟨high32_lt _, ?_⟩
        have hstep := carry_step this' ⟨i + j, h⟩ (carry + (this'.pn ⟨i + j, h⟩).toUInt64 + d.toUInt64 * (b.pn i).toUInt64)
        rw [hn] at hstep
        rw [Nat.min_eq_left (by omega)] at hprod ⊢
        rw [toNat_mod_succ, Nat.add_right_comm (i : Nat) 1]
        simp only at hstep
        have hpow : 2 ^ (32 * ((i : Nat) + j)) = 2 ^ (32 * (i : Nat)) * 2 ^ (32 * (j : Nat)) := by rw [Nat.mul_add, Nat.pow_add]
        rw [hpow] at hstep hprod
        linarith
      · rw [dif_neg h, Nat.min_eq_right (by omega)]
        rw [Nat.min_eq_right (by omega)] at hprod
        exact ⟨hcarry, hprod⟩)
  obtain ⟨-, hprod⟩ := hloop
  rw [Nat.min_eq_right (Nat.sub_le _ _), Nat.sub_add_cancel j.isLt.le] at hprod
  have hhigh : d.toNat * 2 ^ (32 * (j : Nat)) * (b.toNat % 2 ^ (32 * (WIDTH - j))) ≡
      d.toNat * 2 ^ (32 * (j : Nat)) * b.toNat [MOD 2 ^ (32 * WIDTH)] := by
    have hpow : 2 ^ (32 * WIDTH) = 2 ^ (32 * (j : Nat)) * 2 ^ (32 * (WIDTH - (j : Nat))) := by
      rw [← Nat.pow_add, ← Nat.mul_add, Nat.add_sub_cancel' j.isLt.le]
    rw [hpow, Nat.mul_assoc, Nat.mul_assoc]
    exact ((Nat.mod_modEq _ _).mul_left' _).mul_left _
  calc (mulRow d (.other b) this j).toNat
      ≡ (mulRow d (.other b) this j).toNat + _ * 2 ^ (32 * WIDTH) [MOD 2 ^ (32 * WIDTH)] := by
        rw [Nat.ModEq, Nat.add_mul_mod_self_right]
    _ = this.toNat + d.toNat * 2 ^ (32 * (j : Nat)) * (b.toNat % 2 ^ (32 * (WIDTH - j))) := hprod
    _ ≡ _ [MOD 2 ^ (32 * WIDTH)] := hhigh.add_left _

theorem toNat_mulAssign_other (this b : BaseUint WIDTH) :
    (this.mulAssign (.other b)).toNat = this.toNat * b.toNat % 2 ^ (32 * WIDTH) := by
  have hloop := @foldl_induct (BaseUint WIDTH) WIDTH (fun s j => mulRow (this.pn j) (.other b) s j) null
    (fun j s => s.toNat ≡ this.toNat % 2 ^ (32 * j) * b.toNat [MOD 2 ^ (32 * WIDTH)])
    (by simp [Nat.mod_one, Nat.ModEq.refl]) (by
      intro j s hs
      calc (mulRow (this.pn j) (.other b) s j).toNat
          ≡ s.toNat + (this.pn j).toNat * 2 ^ (32 * (j : Nat)) * b.toNat [MOD 2 ^ (32 * WIDTH)] := toNat_mulRow _ b s j
        _ ≡ this.toNat % 2 ^ (32 * (j : Nat)) * b.toNat + (this.pn j).toNat * 2 ^ (32 * (j : Nat)) * b.toNat
            [MOD 2 ^ (32 * WIDTH)] := hs.add_right _
        _ = this.toNat % 2 ^ (32 * ((j : Nat) + 1)) * b.toNat := by rw [toNat_mod_succ, Nat.add_mul])
  rw [Nat.mod_eq_of_lt this.toNat_lt] at hloop
  rw [← hloop, mulAssign, Nat.mod_eq_of_lt (toNat_lt _)]

theorem mulRow_self (d : UInt32) (j : Fin WIDTH) : mulRow d .self null j = null := by
  have hloop := @foldl_induct (BaseUint WIDTH × UInt64) WIDTH (mulRound d .self j) (null, 0) (fun _ s => s = (null, 0)) rfl (by
      rintro i s rfl
      rw [mulRound]
      split
      · simp [deref, null, setLimb, low32]
      · rfl)
  rw [mulRow]
  exact congrArg Prod.fst hloop

/-- `a *= a`, which no caller does: the operand is read after the object has been set to zero. -/
theorem mulAssign_self (this : BaseUint WIDTH) : this.mulAssign .self = null :=
  foldl_induct (motive := fun _ s => s = null) rfl fun j s hs => by rw [hs, mulRow_self]

/-! ## Shifts -/

theorem testBit_pn (a : BaseUint WIDTH) (i : Fin WIDTH) (m : Nat) :
    (a.pn i).toNat.testBit m = (decide (m < 32) && a.toNat.testBit (32 * (i : Nat) + m)) := by
  by_cases hm : m < 32
  · rw [decide_eq_true hm, Bool.true_and, toNat, testBit_value (by omega) a.limb_lt i hm]
  · rw [decide_eq_false hm, Bool.false_and]
    exact Nat.testBit_lt_two_pow ((a.limb_lt i).trans_le (Nat.pow_le_pow_right (by omega) (Nat.le_of_not_lt hm)))

theorem testBit_toNat (a : BaseUint WIDTH) (n : Nat) :
    a.toNat.testBit n = if h : n / 32 < WIDTH then (a.pn ⟨n / 32, h⟩).toNat.testBit (n % 32) else false := by
  split
  · rw [testBit_pn, decide_eq_true (Nat.mod_lt n (by omega)), Bool.true_and, Nat.div_add_mod]
  · exact Nat.testBit_lt_two_pow (a.toNat_lt.trans_le (Nat.pow_le_pow_right (by omega) (by omega)))

theorem testBit_orLimb (this : BaseUint WIDTH) (i : Fin WIDTH) (v : UInt32) (n : Nat) :
    (this.orLimb i v).toNat.testBit n = (this.toNat.testBit n || (decide (n / 32 = i) && v.toNat.testBit (n % 32))) := by
  rw [testBit_toNat, testBit_toNat]
  by_cases hn : n / 32 < WIDTH
  · rw [dif_pos hn, dif_pos hn]
    by_cases hi : n / 32 = i
    · have heq : (⟨n / 32, hn⟩ : Fin WIDTH) = i := Fin.ext hi
      rw [heq, orLimb, pn_setLimb_self, UInt32.toNat_or, Nat.testBit_or, decide_eq_true hi, Bool.true_and]
    · have hne : (⟨n / 32, hn⟩ : Fin WIDTH) ≠ i := fun h => hi (congrArg Fin.val h)
      rw [orLimb, pn_setLimb_of_ne hne, decide_eq_false hi, Bool.false_and, Bool.or_false]
  · have hi : n / 32 ≠ i := by omega
    rw [dif_neg hn, dif_neg hn, decide_eq_false hi, Bool.false_and, Bool.or_false]

theorem testBit_shiftLeft (v : UInt32) {s : UInt32} (hs : s.toNat < 32) (m : Nat) :
    (v <<< s).toNat.testBit m = (decide (m < 32) && (decide (s.toNat ≤ m) && v.toNat.testBit (m - s.toNat))) := by
  rw [UInt32.toNat_shiftLeft, Nat.mod_eq_of_lt hs, Nat.testBit_mod_two_pow, Nat.testBit_shiftLeft]

theorem testBit_shiftRight (v : UInt32) {s : UInt32} (hs : s.toNat < 32) (m : Nat) :
    (v >>> s).toNat.testBit m = v.toNat.testBit (s.toNat + m) := by
  rw [UInt32.toNat_shiftRight, Nat.mod_eq_of_lt hs, Nat.testBit_shiftRight]

theorem toNat_sub_shift {s : UInt32} (hs : s.toNat < 32) : ((32 : UInt32) - s).toNat = 32 - s.toNat :=
  UInt32.toNat_sub_of_le 32 s (UInt32.le_iff_toNat_le.mpr hs.le)

theorem shift_ne_zero_iff {s : UInt32} : s ≠ 0 ↔ s.toNat ≠ 0 := not_congr UInt32.toNat_inj.symm

theorem testBit_shlRound (a this : BaseUint WIDTH) (k : Nat) {s : UInt32} (hs : s.toNat < 32) (i : Fin WIDTH) (n : Nat) :
    (shlRound a k s this i).toNat.testBit n = (this.toNat.testBit n ||
      (decide (n < 32 * WIDTH ∧ 32 * (i : Nat) + (32 * k + s.toNat) ≤ n ∧ n < 32 * (i : Nat) + (32 * k + s.toNat) + 32) &&
        a.toNat.testBit (n - (32 * k + s.toNat)))) := by
  have hzero := @shift_ne_zero_iff s
  -- the position that a bit of a limb comes from
  have hhigh : n / 32 = i + k + 1 → n % 32 < s.toNat → 32 * (i : Nat) + (32 - s.toNat + n % 32) = n - (32 * k + s.toNat) := by omega
  have hlow : n / 32 = i + k → s.toNat ≤ n % 32 → 32 * (i : Nat) + (n % 32 - s.toNat) = n - (32 * k + s.toNat) := by omega
  rw [Bool.eq_iff_iff]
  by_cases hin : i + k < WIDTH
  · by_cases h1 : (i : Nat) + k + 1 < WIDTH ∧ s ≠ 0
    · have hne := hzero.mp h1.2
      have hsub : ((32 : UInt32) - s).toNat < 32 := by
        rw [toNat_sub_shift hs]
        omega
      rw [shlRound, dif_pos h1, dif_pos hin]
      simp only [testBit_orLimb, testBit_shiftLeft _ hs, testBit_shiftRight _ hsub, testBit_pn, toNat_sub_shift hs, Bool.or_eq_true,
        Bool.and_eq_true, decide_eq_true_eq]
      grind
    · rw [shlRound, dif_neg h1, dif_pos hin]
      simp only [testBit_orLimb, testBit_shiftLeft _ hs, testBit_pn, Bool.or_eq_true, Bool.and_eq_true, decide_eq_true_eq]
      grind
  · rw [shlRound, dif_neg hin, dif_neg fun h => hin (by omega)]
    simp only [Bool.or_eq_true, Bool.and_eq_true, decide_eq_true_eq]
    grind

theorem shift_split (shift : UInt32) :
    (shift % 32).toNat < 32 ∧ 32 * (shift / 32).toNat + (shift % 32).toNat = shift.toNat := by
  rw [UInt32.toNat_mod, UInt32.toNat_div]
  exact ⟨Nat.mod_lt _ (by simp), Nat.div_add_mod _ _⟩

theorem toNat_shlAssign (this : BaseUint WIDTH) (shift : UInt32) :
    (this.shlAssign shift).toNat = this.toNat * 2 ^ shift.toNat % 2 ^ (32 * WIDTH) := by
  obtain ⟨hs, hshift⟩ := shift_split shift
  -- the limbs below `i` have been moved
  have hloop := @foldl_induct (BaseUint WIDTH) WIDTH (shlRound this (shift / 32).toNat (shift % 32)) null
    (fun i s => ∀ n, s.toNat.testBit n =
      (decide (n < 32 * WIDTH ∧ shift.toNat ≤ n ∧ n < 32 * i + shift.toNat) && this.toNat.testBit (n - shift.toNat)))
    (fun n => by
      have hnot : ¬(n < 32 * WIDTH ∧ shift.toNat ≤ n ∧ n < 32 * 0 + shift.toNat) := by omega
      rw [toNat_null, Nat.zero_testBit, decide_eq_false hnot, Bool.false_and])
    (fun i s hinv n => by
      rw [testBit_shlRound _ _ _ hs, hinv, hshift, ← Bool.and_or_distrib_right, ← Bool.decide_or]
      congr 2
      exact propext (by omega))
  apply Nat.eq_of_testBit_eq
  intro n
  rw [shlAssign, hloop, Nat.testBit_mod_two_pow, Nat.testBit_mul_two_pow]
  by_cases hn : n - shift.toNat < 32 * WIDTH
  · grind
  · grind

theorem testBit_shrRound (a this : BaseUint WIDTH) (k : Nat) {s : UInt32} (hs : s.toNat < 32) (i : Fin WIDTH) (n : Nat) :
    (shrRound a k s this i).toNat.testBit n = (this.toNat.testBit n ||
      (decide (32 * (i : Nat) ≤ n + (32 * k + s.toNat) ∧ n + (32 * k + s.toNat) < 32 * (i : Nat) + 32) &&
        a.toNat.testBit (n + (32 * k + s.toNat)))) := by
  have hzero := @shift_ne_zero_iff s
  -- the position that a bit of a limb comes from
  have hlow : n / 32 + (k + 1) = i → 32 - s.toNat ≤ n % 32 → 32 * (i : Nat) + (n % 32 - (32 - s.toNat)) = n + (32 * k + s.toNat) := by
    omega
  have hhigh : n / 32 + k = i → 32 * (i : Nat) + (s.toNat + n % 32) = n + (32 * k + s.toNat) := by omega
  rw [Bool.eq_iff_iff]
  by_cases hin : k ≤ (i : Nat)
  · by_cases h1 : k + 1 ≤ (i : Nat) ∧ s ≠ 0
    · have hne := hzero.mp h1.2
      have hsub : ((32 : UInt32) - s).toNat < 32 := by
        rw [toNat_sub_shift hs]
        omega
      rw [shrRound, if_pos h1, if_pos hin]
      simp only [testBit_orLimb, testBit_shiftLeft _ hsub, testBit_shiftRight _ hs, testBit_pn, toNat_sub_shift hs, Bool.or_eq_true,
        Bool.and_eq_true, decide_eq_true_eq]
      grind
    · rw [shrRound, if_neg h1, if_pos hin]
      simp only [testBit_orLimb, testBit_shiftRight _ hs, testBit_pn, Bool.or_eq_true, Bool.and_eq_true, decide_eq_true_eq]
      -- no bit falls below the limb
      have hin' : 32 * (i : Nat) ≤ n + (32 * k + s.toNat) ∧ n + (32 * k + s.toNat) < 32 * (i : Nat) + 32 ↔
          n / 32 + k = i ∧ s.toNat + n % 32 < 32 := by
        have hedge : (i : Nat) = k ∨ s.toNat = 0 := by grind
        omega
      rw [hin', and_assoc, show n / 32 = i - k ↔ n / 32 + k = i by omega]
      exact or_congr_right (and_congr_right fun hi => by rw [hhigh hi])
  · rw [shrRound, if_neg hin, if_neg fun h => hin (by omega)]
    simp only [Bool.or_eq_true, Bool.and_eq_true, decide_eq_true_eq]
    grind

theorem toNat_shrAssign (this : BaseUint WIDTH) (shift : UInt32) : (this.shrAssign shift).toNat = this.toNat / 2 ^ shift.toNat := by
  obtain ⟨hs, hshift⟩ := shift_split shift
  have hloop := @foldl_induct (BaseUint WIDTH) WIDTH (shrRound this (shift / 32).toNat (shift % 32)) null
    (fun i s => ∀ n, s.toNat.testBit n = (decide (n + shift.toNat < 32 * i) && this.toNat.testBit (n + shift.toNat)))
    (fun n => by rw [toNat_null, Nat.zero_testBit, decide_eq_false (by omega), Bool.false_and])
    (fun i s hinv n => by
      rw [testBit_shrRound _ _ _ hs, hinv, hshift, ← Bool.and_or_distrib_right, ← Bool.decide_or]
      congr 2
      exact propext (by omega))
  apply Nat.eq_of_testBit_eq
  intro n
  rw [shrAssign, hloop, Nat.testBit_div_two_pow]
  by_cases hn : n + shift.toNat < 32 * WIDTH
  · rw [decide_eq_true hn, Bool.true_and]
  · rw [decide_eq_false hn, Bool.false_and]
    exact (Nat.testBit_lt_two_pow (this.toNat_lt.trans_le (Nat.pow_le_pow_right (by omega) (Nat.le_of_not_lt hn)))).symm

/-! ## Comparison and division -/

theorem eq_of_toNat_eq {a b : BaseUint WIDTH} (h : a.toNat = b.toNat) : a = b := by
  have hpn : a.pn = b.pn := by
    funext i
    apply UInt32.toNat_inj.mp
    rw [← limb_eq (by omega) a.limb_lt i, ← limb_eq (by omega) b.limb_lt i]
    exact congrArg (fun x => x / 2 ^ (32 * (i : Nat)) % 2 ^ 32) h
  cases a
  cases b
  exact congrArg BaseUint.mk hpn

theorem toNat_lt_toNat {a b : BaseUint WIDTH} (i : Fin WIDTH) (hlt : a.pn i < b.pn i) (hsame : ∀ j, i < j → a.pn j = b.pn j) :
    a.toNat < b.toNat :=
  value_lt_value a.limb_lt i (UInt32.lt_iff_toNat_lt.mp hlt) fun j hj => congrArg UInt32.toNat (hsame j hj)

/-- The order of numbers, as `CompareTo` tells it. -/
def order (x y : Nat) : Int := if x < y then -1 else if y < x then 1 else 0

theorem order_neg_iff (x y : Nat) : order x y < 0 ↔ x < y := by grind [order]

theorem order_eq_zero_iff (x y : Nat) : order x y = 0 ↔ x = y := by grind [order]

theorem order_pos_iff (x y : Nat) : 0 < order x y ↔ y < x := by grind [order]

theorem compareBelow_eq (a b : BaseUint WIDTH) : ∀ (i : Nat) (h : i ≤ WIDTH), (∀ j : Fin WIDTH, i ≤ j → a.pn j = b.pn j) →
    compareBelow a b i h = order a.toNat b.toNat
  | 0, _, hsame => by
    have heq : a.toNat = b.toNat := congrArg (value 32) (funext fun j => congrArg UInt32.toNat (hsame j (Nat.zero_le _)))
    rw [compareBelow, order, heq, if_neg (lt_irrefl _), if_neg (lt_irrefl _)]
  | i + 1, h, hsame => by
    rw [compareBelow]
    by_cases hlt : a.pn ⟨i, h⟩ < b.pn ⟨i, h⟩
    · rw [if_pos hlt, order, if_pos (toNat_lt_toNat ⟨i, h⟩ hlt fun j hj => hsame j hj)]
    · rw [if_neg hlt]
      by_cases hgt : b.pn ⟨i, h⟩ < a.pn ⟨i, h⟩
      · have hnum := toNat_lt_toNat ⟨i, h⟩ hgt fun j hj => (hsame j hj).symm
        rw [if_pos hgt, order, if_neg (by omega), if_pos hnum]
      · rw [if_neg hgt]
        apply compareBelow_eq a b i
        intro j hj
        rcases Nat.eq_or_lt_of_le hj with heq | hj
        · have hji : j = ⟨i, h⟩ := Fin.ext heq.symm
          rw [hji]
          exact UInt32.le_antisymm (UInt32.not_lt.mp hgt) (UInt32.not_lt.mp hlt)
        · exact hsame j hj

theorem compareTo_eq (this b : BaseUint WIDTH) : this.compareTo b = order this.toNat b.toNat :=
  compareBelow_eq this b WIDTH le_rfl fun j hj => absurd j.isLt (by omega)

theorem compareTo_nonneg_iff (this b : BaseUint WIDTH) : 0 ≤ this.compareTo b ↔ b.toNat ≤ this.toNat := by
  have hneg := order_neg_iff this.toNat b.toNat
  rw [compareTo_eq]
  omega

theorem toNat_one_shiftLeft {m : Nat} (hm : m < 32) : ((1 : UInt32) <<< UInt32.ofNat m).toNat = 2 ^ m := by
  have hof : (UInt32.ofNat m).toNat = m := UInt32.toNat_ofNat_of_lt' (hm.trans (by simp [UInt32.size]))
  rw [UInt32.toNat_shiftLeft, hof, Nat.mod_eq_of_lt hm, UInt32.toNat_one, Nat.one_shiftLeft]
  exact Nat.mod_eq_of_lt (Nat.pow_lt_pow_right (by omega) hm)

theorem limbBits_eq (limb : UInt32) (hne : limb ≠ 0) : ∀ n, n < 32 → limb.toNat < 2 ^ (n + 1) → limbBits limb n = limb.toNat.size
  | 0, _, hlt => by
    have hpos : limb.toNat ≠ 0 := shift_ne_zero_iff.mp hne
    have hone : limb.toNat = 1 := by omega
    rw [limbBits, hone, Nat.size_one]
  | n + 1, hn, hlt => by
    have hbit : limb &&& ((1 : UInt32) <<< UInt32.ofNat (n + 1)) ≠ 0 ↔ limb.toNat.testBit (n + 1) = true := by
      rw [shift_ne_zero_iff, UInt32.toNat_and, toNat_one_shiftLeft hn, and_two_pow_ne_zero_iff]
    rw [limbBits]
    split
    · rename_i h
      rw [size_eq (Nat.ge_two_pow_of_testBit (hbit.mp h)) hlt]
    · rename_i h
      apply limbBits_eq limb hne n (by omega)
      rw [hbit] at h
      exact Nat.lt_of_not_le fun hle => h (Nat.testBit_of_two_pow_le_and_two_pow_add_one_gt hle hlt)

theorem bitsBelow_eq (this : BaseUint WIDTH) : ∀ (pos : Nat) (h : pos ≤ WIDTH), (∀ j : Fin WIDTH, pos ≤ j → this.pn j = 0) →
    this.bitsBelow pos h = this.toNat.size
  | 0, _, hzero => by
    have hnull : this = null := eq_of_toNat_eq (congrArg (value 32) (funext fun j => congrArg UInt32.toNat (hzero j (Nat.zero_le _))))
    rw [bitsBelow, hnull, toNat_null, Nat.size_zero]
  | pos + 1, h, hzero => by
    rw [bitsBelow]
    split
    · rename_i hne
      have hhigh : this.toNat < 2 ^ (32 * (pos + 1)) :=
        value_lt_of_high (by omega) this.limb_lt fun j hj => by rw [hzero j hj]; rfl
      have hsplit := toNat_mod_succ this ⟨pos, h⟩
      rw [Nat.mod_eq_of_lt hhigh] at hsplit
      have hlow := Nat.mod_lt this.toNat (Nat.two_pow_pos (32 * pos))
      rw [limbBits_eq _ hne 31 (by omega) (this.limb_lt _), hsplit, size_add_mul hlow (shift_ne_zero_iff.mp hne)]
    · rename_i hz
      apply bitsBelow_eq this pos
      intro j hj
      rcases Nat.eq_or_lt_of_le hj with heq | hj
      · have hji : j = ⟨pos, h⟩ := Fin.ext heq.symm
        rw [hji]
        exact not_not.mp hz
      · exact hzero j hj

theorem bits_eq (this : BaseUint WIDTH) : this.bits = this.toNat.size :=
  bitsBelow_eq this WIDTH le_rfl fun j hj => absurd j.isLt (by omega)

theorem toNat_setBit {this : BaseUint WIDTH} {shift : Nat} (h : shift / 32 < WIDTH) (hzero : 2 ^ (shift + 1) ∣ this.toNat) :
    (this.orLimb ⟨shift / 32, h⟩ ((1 : UInt32) <<< UInt32.ofNat (shift % 32))).toNat = this.toNat + 2 ^ shift := by
  obtain ⟨q, hq⟩ := hzero
  have hor : this.toNat + 2 ^ shift = this.toNat ||| 2 ^ shift := by
    rw [hq]
    exact Nat.two_pow_add_eq_or_of_lt (Nat.pow_lt_pow_right (by omega) (Nat.lt_succ_self shift)) q
  rw [hor]
  apply Nat.eq_of_testBit_eq
  intro n
  rw [testBit_orLimb, Nat.testBit_or, toNat_one_shiftLeft (Nat.mod_lt _ (by omega)), Nat.testBit_two_pow, Nat.testBit_two_pow,
    ← Bool.decide_and]
  congr 2
  exact propext (by dsimp only; omega)

theorem toNat_shrAssign_one (this : BaseUint WIDTH) : (this.shrAssign 1).toNat = this.toNat / 2 := by
  rw [toNat_shrAssign, UInt32.toNat_one, pow_one]

theorem toNat_subAssign_of_le (hpos : 0 < WIDTH) {this b : BaseUint WIDTH} (h : b.toNat ≤ this.toNat) :
    (this.subAssign (.other b)).toNat = this.toNat - b.toNat := by
  have hlt := this.toNat_lt
  have hb := b.toNat_lt
  have hwrap : this.toNat + (2 ^ (32 * WIDTH) - b.toNat) = this.toNat - b.toNat + 2 ^ (32 * WIDTH) := by omega
  rw [toNat_subAssign hpos]
  simp only [deref]
  rw [hwrap, Nat.add_mod_right, Nat.mod_eq_of_lt (by omega)]

theorem toNat_divLoop (hpos : 0 < WIDTH) {D : Nat} (hD : 0 < D) : ∀ (n : Nat) (this num div : BaseUint WIDTH), n ≤ 32 * WIDTH →
    (∀ shift, n = shift + 1 → div.toNat = D * 2 ^ shift) → num.toNat < D * 2 ^ n → 2 ^ n ∣ this.toNat →
    (divLoop this num div n).1.toNat = this.toNat + num.toNat / D
  | 0, this, num, div, _, _, hnum, _ => by
    rw [divLoop, Nat.div_eq_of_lt (by simpa using hnum), Nat.add_zero]
  | shift + 1, this, num, div, hn, hdiv, hnum, hthis => by
    have hdivisor := hdiv shift rfl
    have hshifted : ∀ s, shift = s + 1 → (div.shrAssign 1).toNat = D * 2 ^ s := by
      intro s hs
      rw [toNat_shrAssign_one, hdivisor, hs, pow_succ, ← Nat.mul_assoc, Nat.mul_div_cancel _ (by omega)]
    have hdvd : 2 ^ shift ∣ this.toNat := (pow_dvd_pow 2 (Nat.le_succ shift)).trans hthis
    rw [pow_succ, ← Nat.mul_assoc] at hnum
    rw [divLoop]
    by_cases hle : div.toNat ≤ num.toNat
    · have hlimb : shift / 32 < WIDTH := by omega
      rw [if_pos ((compareTo_nonneg_iff num div).mpr hle)]
      simp only [dif_pos hlimb]
      have hset := toNat_setBit hlimb hthis
      have hsub := toNat_subAssign_of_le hpos hle
      rw [toNat_divLoop hpos hD shift _ _ _ (by omega) hshifted (by omega) (by rw [hset]; exact dvd_add hdvd dvd_rfl), hset, hsub,
        hdivisor, Nat.sub_mul_div, Nat.add_assoc, Nat.add_sub_cancel']
      exact (Nat.le_div_iff_mul_le hD).mpr (by rw [Nat.mul_comm, ← hdivisor]; exact hle)
    · rw [if_neg fun h => hle ((compareTo_nonneg_iff num div).mp h)]
      exact toNat_divLoop hpos hD shift _ _ _ (by omega) hshifted (by omega) hdvd

theorem toNat_divAssign (hpos : 0 < WIDTH) (hwidth : 32 * WIDTH < 2 ^ 32) (this : BaseUint WIDTH) (b : Operand WIDTH) :
    (this.divAssign b).map toNat = if (this.deref b).toNat = 0 then none else some (this.toNat / (this.deref b).toNat) := by
  rw [divAssign]
  simp only [bits_eq]
  generalize this.deref b = div
  by_cases hzero : div.toNat = 0
  · rw [if_pos hzero, if_pos (Nat.size_eq_zero.mpr hzero), Option.map_none]
  · rw [if_neg hzero, if_neg (mt Nat.size_eq_zero.mp hzero)]
    have hD : 0 < div.toNat := Nat.pos_of_ne_zero hzero
    have hsize : 0 < div.toNat.size := Nat.size_pos.mpr hD
    have hlow : 2 ^ (div.toNat.size - 1) ≤ div.toNat := Nat.lt_size.mp (by omega)
    have hhigh : this.toNat < 2 ^ this.toNat.size := Nat.lt_size_self _
    by_cases hlt : this.toNat.size < div.toNat.size
    · have hnum : this.toNat < div.toNat :=
        hhigh.trans_le ((Nat.pow_le_pow_right (by omega) (by omega)).trans hlow)
      rw [if_pos hlt, Option.map_some, toNat_null, Nat.div_eq_of_lt hnum]
    · rw [if_neg hlt, Option.map_some]
      have hbits : this.toNat.size ≤ 32 * WIDTH := Nat.size_le.mpr this.toNat_lt
      have hshift : (UInt32.ofNat (this.toNat.size - div.toNat.size)).toNat = this.toNat.size - div.toNat.size :=
        UInt32.toNat_ofNat_of_lt' (by rw [UInt32.size]; omega)
      -- the shifted divisor is as long as the number
      have hfits : div.toNat * 2 ^ (this.toNat.size - div.toNat.size) < 2 ^ (32 * WIDTH) := by
        calc div.toNat * 2 ^ (this.toNat.size - div.toNat.size)
            < 2 ^ div.toNat.size * 2 ^ (this.toNat.size - div.toNat.size) :=
              Nat.mul_lt_mul_of_pos_right (Nat.lt_size_self _) (Nat.two_pow_pos _)
          _ = 2 ^ this.toNat.size := by rw [← Nat.pow_add, Nat.add_sub_cancel' (Nat.le_of_not_lt hlt)]
          _ ≤ 2 ^ (32 * WIDTH) := Nat.pow_le_pow_right (by omega) hbits
      have hdiv : (div.shlAssign (UInt32.ofNat (this.toNat.size - div.toNat.size))).toNat =
          div.toNat * 2 ^ (this.toNat.size - div.toNat.size) := by
        rw [toNat_shlAssign, hshift, Nat.mod_eq_of_lt hfits]
      have hnum : this.toNat < div.toNat * 2 ^ (this.toNat.size - div.toNat.size + 1) := by
        calc this.toNat < 2 ^ this.toNat.size := hhigh
          _ = 2 ^ (div.toNat.size - 1) * 2 ^ (this.toNat.size - div.toNat.size + 1) := by
            rw [← Nat.pow_add]
            congr 1
            omega
          _ ≤ _ := Nat.mul_le_mul_right _ hlow
      have hloop := toNat_divLoop hpos hD (this.toNat.size - div.toNat.size + 1) null this _ (by omega)
        (fun s hs => by rw [hdiv, Nat.succ.inj hs]) hnum (by rw [toNat_null]; exact dvd_zero _)
      rw [hloop, toNat_null, Nat.zero_add]

theorem divAssign_other (hpos : 0 < WIDTH) (hwidth : 32 * WIDTH < 2 ^ 32) (this : BaseUint WIDTH) {b : BaseUint WIDTH} {d : Nat}
    (hb : b.toNat = d) (hd : d ≠ 0) : ∃ q, this.divAssign (.other b) = some q ∧ q.toNat = this.toNat / d := by
  have hdiv := toNat_divAssign hpos hwidth this (.other b)
  simp only [deref, hb] at hdiv
  rw [if_neg hd, Option.map_eq_some_iff] at hdiv
  exact hdiv

/-! ## All operators -/

/-- The operators of a 256-bit number compute what they stand for: modulo the width, where they are not exact. -/
structure OperatorsCorrect (a : BaseUint 8) (b : Operand 8) : Prop where
  div : (a.deref b).toNat ≠ 0 → (a.divAssign b).map toNat = some (a.toNat / (a.deref b).toNat)
  mul : (a.mulAssign b).toNat = a.toNat * (a.deref b).toNat % 2 ^ 256
  mul32 (b32 : UInt32) : (a.mulAssign32 b32).toNat = a.toNat * b32.toNat % 2 ^ 256
  add : (a.addAssign b).toNat = (a.toNat + (a.deref b).toNat) % 2 ^ 256
  sub : ((a.subAssign b).toNat : Int) = ((a.toNat : Int) - (a.deref b).toNat) % 2 ^ 256
  shl (shift : UInt32) : (a.shlAssign shift).toNat = a.toNat * 2 ^ shift.toNat % 2 ^ 256
  shr (shift : UInt32) : (a.shrAssign shift).toNat = a.toNat / 2 ^ shift.toNat
  lt : a.compareTo (a.deref b) < 0 ↔ a.toNat < (a.deref b).toNat
  eq : a.compareTo (a.deref b) = 0 ↔ a.toNat = (a.deref b).toNat
  gt : 0 < a.compareTo (a.deref b) ↔ (a.deref b).toNat < a.toNat

theorem toNat_subAssign_int (hpos : 0 < WIDTH) (this : BaseUint WIDTH) (b : Operand WIDTH) :
    ((this.subAssign b).toNat : Int) = ((this.toNat : Int) - (this.deref b).toNat) % 2 ^ (32 * WIDTH) := by
  have hlt := (this.deref b).toNat_lt
  rw [toNat_subAssign hpos, Int.natCast_mod, Nat.cast_add, Nat.cast_sub hlt.le, Nat.cast_pow, Nat.cast_ofNat, add_sub_assoc',
    add_sub_right_comm, Int.add_emod_right]

/-- **The operators are right** for every object and every other operand. -/
theorem operators_correct (a b : BaseUint 8) : OperatorsCorrect a (.other b) := by
  have hcmp := compareTo_eq a b
  exact {
    div := fun hne => by rw [toNat_divAssign (by omega) (by omega), if_neg hne]
    mul := toNat_mulAssign_other a b
    mul32 := toNat_mulAssign32 a
    add := toNat_addAssign a (.other b)
    sub := toNat_subAssign_int (by omega) a (.other b)
    shl := toNat_shlAssign a
    shr := toNat_shrAssign a
    lt := by rw [deref, hcmp, order_neg_iff]
    eq := by rw [deref, hcmp, order_eq_zero_iff]
    gt := by rw [deref, hcmp, order_pos_iff] }

end BaseUint

end DigiWage
