import Mathlib.Data.Nat.Bitwise
import Mathlib.Data.Set.Lattice
import Mathlib.Tactic.Common

/-!
# Keys hashed into a set of bits

A filter stands for a set of keys by the bits that they hash to. The bits are those of a vector of bytes.

* `Covers`: the bits of every key are set. It grows with the bits, and two sets of keys are covered by the union.
-/

namespace DigiWage.Lib

/-! ## Covered keys -/

section Covers

variable {K N : Type*} {idx : K → Set N} {keys keys' : Set K} {bits bits' : Set N}

/-- The bits of every key are set. -/
def Covers (idx : K → Set N) (keys : Set K) (bits : Set N) : Prop := ∀ k ∈ keys, idx k ⊆ bits

theorem Covers.of_empty (hkeys : keys = ∅) : Covers idx keys bits := by
  rw [hkeys]
  intro k hk
  cases hk

theorem Covers.union (h : Covers idx keys bits) (h' : Covers idx keys' bits') :
    Covers idx (keys ∪ keys') (bits ∪ bits') := by
  rintro k (hk | hk)
  · exact (h k hk).trans Set.subset_union_left
  · exact (h' k hk).trans Set.subset_union_right

theorem Covers.insert (h : Covers idx keys bits) (k : K) : Covers idx (insert k keys) (bits ∪ idx k) := by
  rintro k' (rfl | hk')
  · exact Set.subset_union_right
  · exact (h k' hk').trans Set.subset_union_left

end Covers

/-! ## The bits of a vector of bytes -/

section bytes

variable {v w : List UInt8} {b : UInt8} {n j : Nat}

/-- The byte with one bit. -/
def bitByte (j : Nat) : UInt8 := UInt8.ofNat (1 <<< j)

/-- The bits that are set. -/
def setBits (v : List UInt8) : Set Nat := {n | ∃ b, v[n / 8]? = some b ∧ b &&& bitByte (n % 8) ≠ 0}

theorem toNat_bitByte (hj : j < 8) : (bitByte j).toNat = 2 ^ j := by
  have hlt : 2 ^ j < 256 := Nat.pow_lt_pow_right (by omega) hj
  rw [bitByte, UInt8.toNat_ofNat', Nat.one_shiftLeft, Nat.mod_eq_of_lt hlt]

theorem and_bitByte (hj : j < 8) : b &&& bitByte j ≠ 0 ↔ b.toNat.testBit j = true := by
  have hzero : b &&& bitByte j = 0 ↔ (b &&& bitByte j).toNat = 0 := UInt8.toNat_inj.symm
  rw [ne_eq, hzero, UInt8.toNat_and, toNat_bitByte hj, Nat.and_two_pow]
  cases b.toNat.testBit j <;> simp

theorem or_and_bitByte {i : Nat} (hi : i < 8) (hj : j < 8) :
    (b ||| bitByte i) &&& bitByte j ≠ 0 ↔ b &&& bitByte j ≠ 0 ∨ i = j := by
  rw [and_bitByte hj, and_bitByte hj, UInt8.toNat_or, toNat_bitByte hi, Nat.testBit_or, Nat.testBit_two_pow, Bool.or_eq_true,
    decide_eq_true_eq]

theorem setBits_set (h : v[n / 8]? = some b) : setBits (v.set (n / 8) (b ||| bitByte (n % 8))) = insert n (setBits v) := by
  have hlt : n / 8 < v.length := (List.getElem?_eq_some_iff.mp h).1
  ext m
  simp only [setBits, Set.mem_ofPred_eq, Set.mem_insert_iff, List.getElem?_set]
  by_cases hbyte : n / 8 = m / 8
  · rw [← hbyte, h, if_pos rfl, if_pos hlt]
    simp only [Option.some.injEq, exists_eq_left']
    rw [or_and_bitByte (Nat.mod_lt n (by omega)) (Nat.mod_lt m (by omega))]
    have hsame : n % 8 = m % 8 ↔ m = n := by omega
    rw [hsame, or_comm]
  · rw [if_neg hbyte]
    have hne : m ≠ n := by
      rintro rfl
      exact hbyte rfl
    simp [hne]

theorem setBits_or (h : v.length = w.length) : setBits (List.zipWith (· ||| ·) v w) = setBits v ∪ setBits w := by
  ext m
  simp only [setBits, Set.mem_ofPred_eq, Set.mem_union, List.getElem?_zipWith]
  by_cases hm : m / 8 < v.length
  · have hm' : m / 8 < w.length := by omega
    simp only [List.getElem?_eq_getElem hm, List.getElem?_eq_getElem hm', Option.some.injEq, exists_eq_left']
    have hj : m % 8 < 8 := Nat.mod_lt m (by omega)
    rw [and_bitByte hj, and_bitByte hj, and_bitByte hj, UInt8.toNat_or, Nat.testBit_or, Bool.or_eq_true]
  · have hm' : ¬ m / 8 < w.length := by omega
    simp [List.getElem?_eq_none (Nat.not_lt.mp hm), List.getElem?_eq_none (Nat.not_lt.mp hm')]

theorem setBits_zero (h : ∀ b ∈ v, b = 0) : setBits v = ∅ := by
  ext m
  simp only [setBits, Set.mem_ofPred_eq, Set.mem_empty_iff_false, iff_false]
  rintro ⟨b, hb, hset⟩
  rw [h b (List.mem_of_getElem? hb), UInt8.zero_and] at hset
  exact hset rfl

end bytes

end DigiWage.Lib
