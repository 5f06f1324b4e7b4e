import Mathlib.Data.List.Basic
import Mathlib.Data.List.TakeWhile
import Std.Data.String.ToInt

/-!
# Texts

`std::to_string`, and what the parsers know of characters. A `std::string` is a list of bytes.

* `intToString_injective`: a number can be read back, and its text has no other characters than digits and the minus sign
  of a negative number (`mem_intToString`).
-/

namespace DigiWage

/-- `std::to_string`. -/
def intToString (n : Int) : List UInt8 := (toString n).toUTF8.toList

/-- A text that ends with its first zero byte. -/
abbrev CString := { s : List UInt8 // 0 ∉ s }

/-- `c_str()`, as it is read. -/
def cStr (s : List UInt8) : CString := ⟨s.takeWhile (· ≠ 0), fun h => by simpa using List.mem_takeWhile_imp h⟩

/-- `isspace` in the C locale. -/
def isSpace (c : UInt8) : Bool := c = 32 || 9 ≤ c && c ≤ 13

/-- The text without the white space around it. -/
def stripSpaces (s : List UInt8) : List UInt8 := ((s.dropWhile isSpace).reverse.dropWhile isSpace).reverse

def isDigit (c : UInt8) : Bool := 48 ≤ c && c ≤ 57

theorem cStr_of_ne_zero {s : List UInt8} (h : ∀ c ∈ s, c ≠ 0) : (cStr s).1 = s :=
  List.takeWhile_eq_self_iff.mpr fun c hc => by simpa using h c hc

/-! ## Numbers -/

theorem toList_loop_eq (bs : ByteArray) (i : Nat) (r : List UInt8) :
    ByteArray.toList.loop bs i r = r.reverse ++ bs.data.toList.drop i := by
  fun_induction ByteArray.toList.loop bs i r with
  | case1 i r hlt ih =>
    have hi : i < bs.data.toList.length := hlt
    have hget : bs.get! i = bs.data.toList[i] := by
      have : bs.get! i = bs.data[i]! := by cases bs; rfl
      rw [this, getElem!_pos bs.data i hlt, Array.getElem_toList]
    rw [ih, hget, List.drop_eq_getElem_cons hi, List.reverse_cons, List.append_assoc]
    rfl
  | case2 i r hle =>
    have hi : bs.data.toList.length ≤ i := Nat.le_of_not_lt hle
    rw [List.drop_eq_nil_of_le hi, List.append_nil]

theorem toList_eq_data (bs : ByteArray) : bs.toList = bs.data.toList := by
  unfold ByteArray.toList
  simp [toList_loop_eq]

theorem intToString_injective : Function.Injective intToString := by
  intro a b h
  unfold intToString at h
  rw [toList_eq_data, toList_eq_data] at h
  apply Int.repr_injective
  rw [← String.toByteArray_inj]
  exact ByteArray.ext (Array.toList_inj.mp h)

theorem mem_bytes {s : String} (hs : ∀ c ∈ s.toList, c.val ≤ 127) {b : UInt8} (h : b ∈ s.toUTF8.toList) :
    ∃ c ∈ s.toList, b = c.val.toUInt8 := by
  rw [toList_eq_data, String.toUTF8_eq_toByteArray, ← String.ofList_toList (s := s), String.toByteArray_ofList,
    List.utf8Encode, List.toList_data_toByteArray] at h
  obtain ⟨c, hc, hb⟩ := List.mem_flatMap.mp h
  have hsize : c.utf8Size = 1 := by
    unfold Char.utf8Size
    exact if_pos (hs c hc)
  rw [String.utf8EncodeChar_eq_singleton hsize, List.mem_singleton] at hb
  exact ⟨c, hc, hb⟩

theorem val_of_isDigit {c : Char} (h : c.isDigit = true) : 48 ≤ c.val ∧ c.val ≤ 57 := by
  unfold Char.isDigit at h
  simpa using h

/-- The characters of a number. -/
theorem mem_intToString {n : Int} {b : UInt8} (h : b ∈ intToString n) : n < 0 ∧ b = 45 ∨ 48 ≤ b ∧ b ≤ 57 := by
  have hchars : ∀ c ∈ (toString n).toList, n < 0 ∧ c = '-' ∨ c.isDigit = true := by
    intro c hc
    rw [Int.toString_eq_repr, Int.repr_eq_if] at hc
    split at hc
    · rw [Nat.toList_repr] at hc
      exact .inr (Nat.isDigit_of_mem_toDigits (by decide) (by decide) hc)
    · rename_i hneg
      rw [String.toList_append, List.mem_append, Nat.toList_repr] at hc
      rcases hc with hc | hc
      · exact .inl ⟨by omega, List.mem_singleton.mp hc⟩
      · exact .inr (Nat.isDigit_of_mem_toDigits (by decide) (by decide) hc)
  have hval : ∀ c ∈ (toString n).toList, c.val ≤ 127 := by
    intro c hc
    rcases hchars c hc with ⟨-, rfl⟩ | hd
    · decide
    · exact UInt32.le_trans (val_of_isDigit hd).2 (by decide)
  obtain ⟨c, hc, rfl⟩ := mem_bytes hval h
  rcases hchars c hc with ⟨hneg, rfl⟩ | hd
  · exact .inl ⟨hneg, by decide⟩
  · right
    obtain ⟨hlow, hhigh⟩ := val_of_isDigit hd
    rw [UInt32.le_iff_toNat_le] at hlow hhigh
    rw [UInt8.le_iff_toNat_le, UInt8.le_iff_toNat_le, UInt32.toNat_toUInt8]
    have hlow : 48 ≤ c.val.toNat := hlow
    have hhigh : c.val.toNat ≤ 57 := hhigh
    have h48 : (48 : UInt8).toNat = 48 := rfl
    have h57 : (57 : UInt8).toNat = 57 := rfl
    omega

/-! ## White space -/

theorem isSpace_of_isDigit {c : UInt8} (h : isDigit c = true) : isSpace c = false := by
  have hd : 48 ≤ c ∧ c ≤ 57 := by simpa [isDigit] using h
  rw [UInt8.le_iff_toNat_le, UInt8.le_iff_toNat_le] at hd
  have hlow : 48 ≤ c.toNat := hd.1
  rw [isSpace, Bool.or_eq_false_iff, Bool.and_eq_false_iff, decide_eq_false_iff_not, decide_eq_false_iff_not, decide_eq_false_iff_not,
    UInt8.le_iff_toNat_le, UInt8.le_iff_toNat_le]
  refine ⟨?_, .inr ?_⟩
  · rintro rfl
    exact absurd hlow (by decide)
  · have h13 : (13 : UInt8).toNat = 13 := rfl
    omega

theorem stripEnd_append {l sp : List UInt8} (h : ∀ c ∈ l, isSpace c = false) (hsp : ∀ c ∈ sp, isSpace c = true) :
    ((l ++ sp).reverse.dropWhile isSpace).reverse = l := by
  rw [List.reverse_append, List.dropWhile_append_of_pos fun c hc => hsp c (List.mem_reverse.mp hc)]
  cases hrev : l.reverse with
  | nil => rw [List.dropWhile_nil, ← hrev, List.reverse_reverse]
  | cons c l' =>
    have hmem : c ∈ l.reverse := by simp [hrev]
    rw [List.dropWhile_cons_of_neg (by simp [h c (List.mem_reverse.mp hmem)]), ← hrev, List.reverse_reverse]

theorem stripSpaces_self {s : List UInt8} (h : ∀ c ∈ s, isSpace c = false) : stripSpaces s = s := by
  have hdrop : s.dropWhile isSpace = s ++ [] := by
    cases s with
    | nil => rfl
    | cons c s => simp [h c List.mem_cons_self]
  rw [stripSpaces, hdrop]
  exact stripEnd_append h (by simp)

theorem dropWhile_eq_stripSpaces (s : List UInt8) : ∃ sp : List UInt8, (∀ c ∈ sp, isSpace c = true) ∧ s.dropWhile isSpace = stripSpaces s ++ sp := by
  refine ⟨((s.dropWhile isSpace).reverse.takeWhile isSpace).reverse, ?_, ?_⟩
  · intro c hc
    exact List.mem_takeWhile_imp (List.mem_reverse.mp hc)
  · rw [stripSpaces, ← List.reverse_append, List.takeWhile_append_dropWhile, List.reverse_reverse]

theorem mem_stripSpaces {l r : List UInt8} {c : UInt8} (h : ∃ y ∈ c :: r, isSpace y = false) :
    c ∈ ((l ++ c :: r).reverse.dropWhile isSpace).reverse := by
  have hne : (c :: r).reverse.dropWhile isSpace ≠ [] := by
    obtain ⟨y, hy, hspace⟩ := h
    intro hnil
    have hall := List.dropWhile_eq_nil_iff.mp hnil y (List.mem_reverse.mpr hy)
    rw [hspace] at hall
    cases hall
  rw [List.reverse_append, List.dropWhile_append, if_neg (by simpa using hne), List.mem_reverse, List.mem_append]
  left
  -- what is left of the end reaches down to the character
  obtain ⟨p, hp⟩ := List.dropWhile_suffix isSpace (l := (c :: r).reverse)
  have hlast := congrArg List.getLast? hp
  rw [List.getLast?_append_of_ne_nil _ hne] at hlast
  rw [List.reverse_cons] at hlast ⊢
  rw [List.getLast?_concat] at hlast
  exact List.mem_of_getLast? hlast

end DigiWage
