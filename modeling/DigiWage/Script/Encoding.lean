import DigiWage.Script.Parse
import Mathlib.Tactic.Positivity
import Mathlib.Tactic.Ring

/-!
# The encodings of numbers and pushes

`CScriptNum::serialize` and `set_vch` on words of 64 bits, and a script that is put together with `<<` and read with `GetOp`.

* `signed`: the bytes of a number are those of its absolute value with a sign put in. Every minimal encoding is of this form
  (`exists_signed`), and the value gives the bytes back (`absBytes_ofLeBytes`).
* `readsBack_iff`: `GetOp2` counts what is left of a script in 32 bits. A list is read back exactly where no vector is longer than
  the script from it on, modulo `2 ^ 32`; a script of less than `2 ^ 32` bytes always is (`fits_of_size_lt`).
-/

namespace DigiWage

open Lib

namespace CScriptNum

variable {neg : Bool} {r v : Valtype} {last : UInt8}

/-! ## The sign -/

/-- The end of `serialize`: the bytes of the absolute value, with the sign. -/
def signed (neg : Bool) (r : Valtype) : Valtype :=
  if r.getLastD 0 &&& 0x80 ≠ 0 then r ++ [if neg then 0x80 else 0]
  else if neg then r.dropLast ++ [r.getLastD 0 ||| 0x80]
  else r

theorem signed_concat : signed neg (r ++ [last]) =
    if last &&& 0x80 ≠ 0 then r ++ [last] ++ [if neg then 0x80 else 0]
    else if neg then r ++ [last ||| 0x80] else r ++ [last] := by
  simp only [signed, List.getLastD_concat, List.dropLast_concat]

theorem setVch_concat : setVch (r ++ [last]) =
    if last &&& 0x80 ≠ 0 then -((ofLeBytes (r ++ [last]) : Int) - 0x80 * 256 ^ r.length) else ofLeBytes (r ++ [last]) := by
  simp only [setVch, List.getLast?_concat, List.length_append, List.length_singleton, Nat.add_sub_cancel]

theorem ofVch_concat {k : Nat} (hlen : (r ++ [last]).length ≤ k) : ofVch (r ++ [last]) true k =
    if last &&& 0x7f = 0 ∧ r.getLastD 0 &&& 0x80 = 0 then none else some (setVch (r ++ [last])) := by
  have hhead : r.reverse.headD 0 = r.getLastD 0 := by
    rw [List.headD_eq_head?_getD, List.head?_reverse, List.getLastD_eq_getLast?]
  rw [ofVch, if_neg (Nat.not_lt.mpr hlen), List.reverse_concat]
  simp only [hhead, Bool.true_and, Bool.and_eq_true, beq_iff_eq]

/-- The highest bit of a byte, and the others. -/
structure SignBit (b : UInt8) : Prop where
  set : b &&& 0x80 ≠ 0 → 128 ≤ b.toNat ∧ b &&& 0x7f ||| 0x80 = b
  clear : b &&& 0x80 = 0 → b &&& 0x7f = b ∧ (b ||| 0x80).toNat = b.toNat + 128
  clear_low : b &&& 0x7f &&& 0x80 = 0
  set_or : (b ||| 0x80) &&& 0x80 ≠ 0 ∧ (b ||| 0x80) &&& 0x7f = b &&& 0x7f
  low_eq_zero : b &&& 0x7f = 0 → b = if b &&& 0x80 ≠ 0 then 0x80 else 0

theorem signBit : ∀ b, SignBit b := by
  have hset : ∀ b : UInt8, b &&& 0x80 ≠ 0 → 128 ≤ b.toNat ∧ b &&& 0x7f ||| 0x80 = b := forall_byte (by decide +kernel)
  have hclear : ∀ b : UInt8, b &&& 0x80 = 0 → b &&& 0x7f = b ∧ (b ||| 0x80).toNat = b.toNat + 128 :=
    forall_byte (by decide +kernel)
  have hlow : ∀ b : UInt8, b &&& 0x7f &&& 0x80 = 0 := forall_byte (by decide +kernel)
  have hor : ∀ b : UInt8, (b ||| 0x80) &&& 0x80 ≠ 0 ∧ (b ||| 0x80) &&& 0x7f = b &&& 0x7f := forall_byte (by decide +kernel)
  have hzero : ∀ b : UInt8, b &&& 0x7f = 0 → b = if b &&& 0x80 ≠ 0 then 0x80 else 0 := forall_byte (by decide +kernel)
  exact fun b => ⟨hset b, hclear b, hlow b, hor b, hzero b⟩

theorem setVch_signed (neg : Bool) (r : Valtype) (last : UInt8) : setVch (signed neg (r ++ [last])) =
    if neg then -(ofLeBytes (r ++ [last]) : Int) else ofLeBytes (r ++ [last]) := by
  rw [signed_concat]
  by_cases hbit : last &&& 0x80 ≠ 0
  · rw [if_pos hbit, setVch_concat, ofLeBytes_concat]
    cases neg with
    | true =>
      have h80 : (0x80 : UInt8).toNat = 128 := rfl
      rw [if_pos rfl, if_pos rfl, if_pos (by decide), h80]
      push_cast
      ring
    | false => rw [if_neg (by decide), if_neg (by decide), if_neg (by decide), UInt8.toNat_zero, Nat.mul_zero, Nat.add_zero]
  · rw [if_neg hbit]
    cases neg with
    | true =>
      obtain ⟨-, hor⟩ := (signBit last).clear (not_not.mp hbit)
      rw [if_pos rfl, if_pos rfl, setVch_concat, if_pos (signBit last).set_or.1, ofLeBytes_concat, ofLeBytes_concat, hor]
      push_cast
      ring
    | false => rw [if_neg (by decide), if_neg (by decide), setVch_concat, if_neg hbit]

theorem ofVch_signed {k : Nat} (neg : Bool) (hlast : last ≠ 0) (hlen : (signed neg (r ++ [last])).length ≤ k) :
    ofVch (signed neg (r ++ [last])) true k = some (setVch (signed neg (r ++ [last]))) := by
  rw [signed_concat] at hlen ⊢
  by_cases hbit : last &&& 0x80 ≠ 0
  · rw [if_pos hbit] at hlen ⊢
    have hwritten : ¬ (((if neg then 0x80 else 0 : UInt8) &&& 0x7f = 0) ∧ (r ++ [last]).getLastD 0 &&& 0x80 = 0) := by
      rw [List.getLastD_concat]
      exact fun h => hbit h.2
    rw [ofVch_concat hlen, if_neg hwritten]
  · rw [if_neg hbit] at hlen ⊢
    have hlow : last &&& 0x7f ≠ 0 := by
      rw [((signBit last).clear (not_not.mp hbit)).1]
      exact hlast
    cases neg with
    | true =>
      rw [if_pos rfl] at hlen ⊢
      rw [ofVch_concat hlen, if_neg]
      rw [(signBit last).set_or.2]
      exact fun h => hlow h.1
    | false =>
      rw [if_neg (by decide)] at hlen ⊢
      rw [ofVch_concat hlen, if_neg]
      exact fun h => hlow h.1

/-- What is minimal is written so. -/
theorem exists_signed {k : Nat} (h : ofVch (v ++ [last]) true k ≠ none) :
    ∃ neg r b, b ≠ 0 ∧ (r ++ [b]).length ≤ (v ++ [last]).length ∧ v ++ [last] = signed neg (r ++ [b]) := by
  have hlen : (v ++ [last]).length ≤ k := by
    by_contra hk
    exact h (if_pos (Nat.not_le.mp hk))
  rw [ofVch_concat hlen] at h
  by_cases hlow : last &&& 0x7f = 0
  · have hbit : v.getLastD 0 &&& 0x80 ≠ 0 := by
      intro hbit
      exact h (if_pos ⟨hlow, hbit⟩)
    rcases List.eq_nil_or_concat' v with rfl | ⟨r, b, rfl⟩
    · exact absurd rfl hbit
    · rw [List.getLastD_concat] at hbit
      refine ⟨last &&& 0x80 ≠ 0, r, b, ?_, by simp, ?_⟩
      · rintro rfl
        exact absurd rfl hbit
      · rw [signed_concat, if_pos hbit]
        congr 2
        simpa using (signBit last).low_eq_zero hlow
  · refine ⟨last &&& 0x80 ≠ 0, v, last &&& 0x7f, hlow, by simp, ?_⟩
    rw [signed_concat, (signBit last).clear_low, if_neg (by decide)]
    by_cases hbit : last &&& 0x80 ≠ 0
    · rw [if_pos (by simpa using hbit), ((signBit last).set hbit).2]
    · rw [if_neg (by simpa using hbit), ((signBit last).clear (not_not.mp hbit)).1]

/-! ## The absolute value -/

theorem exists_absBytes : ∀ {fuel n : Nat}, 0 < n → n < 256 ^ fuel →
    ∃ r last, absBytes fuel n = r ++ [last] ∧ last ≠ 0 ∧ ofLeBytes (r ++ [last]) = n
  | 0, n, hpos, hlt => by
    rw [Nat.pow_zero] at hlt
    omega
  | fuel + 1, n, hpos, hlt => by
    rw [Nat.pow_succ] at hlt
    have hlow : (UInt8.ofNat n).toNat = n % 256 := UInt8.toNat_ofNat'
    by_cases hhigh : n / 256 = 0
    · refine ⟨[], UInt8.ofNat n, ?_, ?_, ?_⟩
      · rw [absBytes, if_neg (by omega), hhigh]
        cases fuel <;> rfl
      · intro hzero
        rw [hzero, UInt8.toNat_zero] at hlow
        omega
      · rw [List.nil_append, ofLeBytes, ofLeBytes, hlow]
        omega
    · obtain ⟨r, last, hbytes, hlast, hvalue⟩ := exists_absBytes (Nat.pos_of_ne_zero hhigh) (by omega : n / 256 < 256 ^ fuel)
      refine ⟨UInt8.ofNat n :: r, last, ?_, hlast, ?_⟩
      · rw [absBytes, if_neg (by omega), hbytes, List.cons_append]
      · rw [List.cons_append, ofLeBytes, hvalue, hlow]
        omega

theorem ofLeBytes_sign (r : Valtype) (last : UInt8) : ofLeBytes (r ++ [last]) < 2 * (128 * 256 ^ r.length) ∧
    (last &&& 0x80 ≠ 0 ↔ 128 * 256 ^ r.length ≤ ofLeBytes (r ++ [last])) := by
  have hlow := ofLeBytes_lt r
  have hmul {m n : Nat} (h : m ≤ n) : 256 ^ r.length * m ≤ 256 ^ r.length * n := Nat.mul_le_mul_left _ h
  have hlast := hmul (Nat.le_of_lt_succ last.toNat_lt)
  rw [ofLeBytes_concat]
  refine ⟨by omega, ?_⟩
  by_cases hbit : last &&& 0x80 ≠ 0
  · have hset := hmul ((signBit last).set hbit).1
    exact iff_of_true hbit (by omega)
  · have hor := ((signBit last).clear (not_not.mp hbit)).2
    have hlt := (last ||| 0x80).toNat_lt
    have hclear := hmul (by omega : last.toNat ≤ 127)
    exact iff_of_false hbit (by omega)

theorem ofLeBytes_pos (hlast : last ≠ 0) : 0 < ofLeBytes (r ++ [last]) := by
  have hnat : 0 < last.toNat := Nat.pos_of_ne_zero fun h => hlast (UInt8.toNat_inj.mp h)
  rw [ofLeBytes_concat]
  exact Nat.add_pos_right _ (Nat.mul_pos (by positivity) hnat)

theorem absBytes_ofLeBytes (hlast : last ≠ 0) : ∀ {r : Valtype} {fuel : Nat}, r.length < fuel →
    absBytes fuel (ofLeBytes (r ++ [last])) = r ++ [last]
  | [], fuel + 1, _ => by
    have hpos := @ofLeBytes_pos [] last hlast
    have hvalue : ofLeBytes ([] ++ [last]) = last.toNat := by rw [List.nil_append, ofLeBytes, ofLeBytes, Nat.mul_zero, Nat.add_zero]
    have hhigh : last.toNat / 256 = 0 := Nat.div_eq_of_lt last.toNat_lt
    rw [hvalue] at hpos
    rw [hvalue, absBytes, if_neg (by omega), hhigh, UInt8.ofNat_toNat]
    cases fuel <;> rfl
  | b :: r, fuel + 1, hlen => by
    have hpos := @ofLeBytes_pos r last hlast
    have hb := b.toNat_lt
    have hlow : UInt8.ofNat (b.toNat + 256 * ofLeBytes (r ++ [last])) = b := by
      apply UInt8.toNat_inj.1
      rw [UInt8.toNat_ofNat', Nat.add_mul_mod_self_left, Nat.mod_eq_of_lt hb]
    have hhigh : (b.toNat + 256 * ofLeBytes (r ++ [last])) / 256 = ofLeBytes (r ++ [last]) := by omega
    rw [List.cons_append, ofLeBytes, absBytes, if_neg (by omega), hlow, hhigh, absBytes_ofLeBytes hlast (Nat.lt_of_succ_lt_succ hlen)]

/-! ## Numbers -/

theorem serialize_of_absBytes {value : Int} (h : absBytes 8 value.natAbs = r ++ [last]) :
    serialize value = signed (value < 0) (r ++ [last]) := by
  rw [signed_concat]
  simp only [serialize, h, List.getLast?_concat, List.dropLast_concat, decide_eq_true_eq]

theorem exists_serialize {value : Int} (hzero : value ≠ 0) (hlt : value.natAbs < 2 ^ 64) :
    ∃ r last, last ≠ 0 ∧ ofLeBytes (r ++ [last]) = value.natAbs ∧ serialize value = signed (value < 0) (r ++ [last]) := by
  obtain ⟨r, last, hbytes, hlast, hvalue⟩ := @exists_absBytes 8 value.natAbs (Int.natAbs_pos.mpr hzero) hlt
  exact ⟨r, last, hlast, hvalue, serialize_of_absBytes hbytes⟩

theorem setVch_serialize {value : Int} (hlt : value.natAbs < 2 ^ 64) : setVch (serialize value) = value := by
  by_cases hzero : value = 0
  · rw [hzero]
    rfl
  obtain ⟨r, last, -, hvalue, hbytes⟩ := exists_serialize hzero hlt
  rw [hbytes, setVch_signed, hvalue]
  by_cases hneg : value < 0
  · rw [if_pos (by simpa using hneg)]
    omega
  · rw [if_neg (by simpa using hneg)]
    omega

theorem length_serialize_le {value : Int} (hlt : value.natAbs < 2 ^ 63) : (serialize value).length ≤ 8 := by
  by_cases hzero : value = 0
  · rw [hzero]
    exact Nat.zero_le 8
  obtain ⟨r, last, hlast, hvalue, hbytes⟩ := exists_serialize hzero (Nat.lt_trans hlt (by decide))
  have hnat : 0 < last.toNat := Nat.pos_of_ne_zero fun h => hlast (UInt8.toNat_inj.mp h)
  have hbound : 256 ^ r.length * last.toNat < 2 ^ 63 := by
    rw [ofLeBytes_concat] at hvalue
    omega
  rw [hbytes, signed_concat]
  by_cases hbit : last &&& 0x80 ≠ 0
  · have hle := (ofLeBytes_sign r last).2.mp hbit
    have hshort : 256 ^ r.length < 256 ^ 7 := by omega
    have hlen := (Nat.pow_lt_pow_iff_right (by decide)).mp hshort
    rw [if_pos hbit]
    simp only [List.length_append, List.length_singleton]
    omega
  · have hshort : 256 ^ r.length < 256 ^ 8 := by
      have hle : 256 ^ r.length * 1 ≤ 256 ^ r.length * last.toNat := Nat.mul_le_mul_left _ hnat
      omega
    have hlen := (Nat.pow_lt_pow_iff_right (by decide)).mp hshort
    rw [if_neg hbit]
    split_ifs <;> simp only [List.length_append, List.length_singleton] <;> omega

theorem ofVch_serialize {value : Int} {k : Nat} (hlt : value.natAbs < 2 ^ 64) (hlen : (serialize value).length ≤ k) :
    ofVch (serialize value) true k = some value := by
  by_cases hzero : value = 0
  · have hempty : serialize 0 = [] := rfl
    rw [hzero, hempty]
    exact if_neg (Nat.not_lt_zero k)
  have hback := setVch_serialize hlt
  obtain ⟨r, last, hlast, hvalue, hbytes⟩ := exists_serialize hzero hlt
  rw [hbytes] at hlen hback ⊢
  rw [ofVch_signed _ hlast hlen, hback]

theorem serialize_setVch {k : Nat} (hlen : v.length ≤ 8) (h : ofVch v true k ≠ none) : serialize (setVch v) = v := by
  rcases List.eq_nil_or_concat' v with rfl | ⟨v, last, rfl⟩
  · rfl
  obtain ⟨neg, r, b, hb, hle, heq⟩ := exists_signed h
  have hpos := @ofLeBytes_pos r b hb
  have habs : absBytes 8 (setVch (v ++ [last])).natAbs = r ++ [b] := by
    have hr : r.length < 8 := by
      rw [List.length_append, List.length_singleton] at hle
      omega
    have hnat : (setVch (v ++ [last])).natAbs = ofLeBytes (r ++ [b]) := by
      rw [heq, setVch_signed]
      cases neg <;> simp
    rw [hnat, absBytes_ofLeBytes hb hr]
  have hneg : decide (setVch (v ++ [last]) < 0) = neg := by
    rw [heq, setVch_signed]
    cases neg with
    | true => simpa using hpos
    | false => simp
  rw [serialize_of_absBytes habs, hneg, heq]

/-! ## Words -/

/-- The loop of `CScriptNum::serialize`: the bytes of `absvalue`, the lowest first. A word has at most eight. -/
def serializeLoop : Nat → UInt64 → Valtype
  | 0, _ => []
  | fuel + 1, absvalue => if absvalue = 0 then [] else (absvalue &&& 0xff).toUInt8 :: serializeLoop fuel (absvalue >>> 8)

/-- `CScriptNum::serialize`. -/
def serialize64 (value : Int64) : Valtype :=
  if value = 0 then []
  else
    let neg : Bool := value < 0
    let absvalue : UInt64 := if neg then (-value).toUInt64 else value.toUInt64
    let result := serializeLoop 8 absvalue
    if result.getLastD 0 &&& 0x80 ≠ 0 then result ++ [if neg then 0x80 else 0]
    else if neg then result.dropLast ++ [result.getLastD 0 ||| 0x80]
    else result

/-- The loop of `CScriptNum::set_vch`, from the byte `i` on. -/
def setVchLoop : Nat → Valtype → Int64 → Int64
  | _, [], result => result
  | i, b :: vch, result => setVchLoop (i + 1) vch (result ||| (b.toUInt64 <<< UInt64.ofNat (8 * i)).toInt64)

/-- `CScriptNum::set_vch`. -/
def setVch64 (vch : Valtype) : Int64 :=
  if vch.isEmpty then 0
  else
    let result := setVchLoop 0 vch 0
    -- the sign bit is taken out, and the rest is negated
    if vch.getLastD 0 &&& 0x80 ≠ 0 then
      -(result.toUInt64 &&& ~~~((0x80 : UInt64) <<< UInt64.ofNat (8 * (vch.length - 1)))).toInt64
    else result

theorem serializeLoop_eq : ∀ (fuel : Nat) (absvalue : UInt64), serializeLoop fuel absvalue = absBytes fuel absvalue.toNat
  | 0, _ => rfl
  | fuel + 1, absvalue => by
    have hzero : absvalue = 0 ↔ absvalue.toNat = 0 := by rw [← UInt64.toNat_inj, UInt64.toNat_zero]
    have hlow : (absvalue &&& 0xff).toUInt8 = UInt8.ofNat absvalue.toNat := by
      apply UInt8.toNat_inj.mp
      have hmask : absvalue.toNat &&& 255 = absvalue.toNat % 2 ^ 8 := Nat.and_two_pow_sub_one_eq_mod _ 8
      rw [UInt64.toNat_toUInt8, UInt64.toNat_and, UInt8.toNat_ofNat']
      change (absvalue.toNat &&& 255) % 256 = _
      omega
    have hhigh : (absvalue >>> 8).toNat = absvalue.toNat / 256 := by
      rw [UInt64.toNat_shiftRight]
      exact Nat.shiftRight_eq_div_pow _ 8
    rw [serializeLoop, absBytes, serializeLoop_eq fuel, hlow, hhigh]
    simp only [hzero]

theorem toInt_eq_toNat (x : Int64) : x.toInt = if x.toUInt64.toNat < 2 ^ 63 then (x.toUInt64.toNat : Int)
    else x.toUInt64.toNat - 2 ^ 64 := by
  have h := BitVec.toInt_eq_toNat_cond x.toBitVec
  change x.toInt = if 2 * x.toUInt64.toNat < 2 ^ 64 then (x.toUInt64.toNat : Int) else x.toUInt64.toNat - ((2 ^ 64 : Nat) : Int) at h
  rw [h]
  split_ifs <;> omega

theorem natAbs_toInt_lt {x : Int64} (h : x ≠ Int64.minValue) : x.toInt.natAbs < 2 ^ 63 := by
  have hne : x.toInt ≠ -2 ^ 63 := by
    rw [← Int64.toInt_minValue, Ne, Int64.toInt_inj]
    exact h
  have hlt := x.toInt_lt
  have hle := x.le_toInt
  omega

theorem toInt_neg {x : Int64} (h : x ≠ Int64.minValue) : (-x).toInt = -x.toInt := by
  have hlt := natAbs_toInt_lt h
  rw [Int64.toInt_neg, Int.bmod_eq_of_le] <;> omega

theorem serialize64_eq {value : Int64} (h : value ≠ Int64.minValue) : serialize64 value = serialize value.toInt := by
  by_cases hzero : value = 0
  · rw [hzero]
    rfl
  have hint : value.toInt ≠ 0 := by
    intro hzero'
    exact hzero (Int64.toInt_inj.mp hzero')
  have hlt := value.toInt_lt
  have hle := value.le_toInt
  have habs : (if value < 0 then (-value).toUInt64 else value.toUInt64).toNat = value.toInt.natAbs := by
    by_cases hneg : value < 0
    · have hneg' : value.toInt < 0 := Int64.lt_iff_toInt_lt.mp hneg
      have hval := toInt_neg h
      have hword := (-value).toUInt64.toNat_lt
      rw [if_pos hneg]
      rw [toInt_eq_toNat (-value)] at hval
      split_ifs at hval <;> omega
    · have hpos : ¬ value.toInt < 0 := fun hlt => hneg (Int64.lt_iff_toInt_lt.mpr hlt)
      have hval := toInt_eq_toNat value
      have hword := value.toUInt64.toNat_lt
      rw [if_neg hneg]
      split_ifs at hval <;> omega
  have hsign : decide (value < 0) = decide (value.toInt < 0) := decide_eq_decide.mpr Int64.lt_iff_toInt_lt
  obtain ⟨r, last, hbytes, -, -⟩ := @exists_absBytes 8 value.toInt.natAbs (Int.natAbs_pos.mpr hint) (by omega)
  have hloop : serializeLoop 8 (if decide (value < 0) = true then (-value).toUInt64 else value.toUInt64) = r ++ [last] := by
    rw [serializeLoop_eq, ← hbytes, ← habs]
    simp only [decide_eq_true_eq]
  rw [serialize_of_absBytes hbytes, ← hsign, ← hloop]
  exact if_neg hzero

theorem toNat_or_byte {i : Nat} {result : Int64} (b : UInt8) (hi : i < 8) (hlt : result.toUInt64.toNat < 256 ^ i) :
    (result ||| (b.toUInt64 <<< UInt64.ofNat (8 * i)).toInt64).toUInt64.toNat = result.toUInt64.toNat + 256 ^ i * b.toNat := by
  have hpow : 256 ^ i = 2 ^ (8 * i) := (pow_mul 2 8 i).symm
  have hbyte : (b.toUInt64 <<< UInt64.ofNat (8 * i)).toNat = b.toNat <<< (8 * i) := by
    have hshift : (UInt64.ofNat (8 * i)).toNat % 64 = 8 * i := by
      rw [UInt64.toNat_ofNat']
      omega
    have hfits : b.toNat <<< (8 * i) < 2 ^ 64 := by
      calc b.toNat <<< (8 * i) = b.toNat * 2 ^ (8 * i) := Nat.shiftLeft_eq _ _
        _ < 2 ^ 8 * 2 ^ (8 * i) := Nat.mul_lt_mul_of_pos_right b.toNat_lt (Nat.two_pow_pos _)
        _ = 2 ^ (8 + 8 * i) := (pow_add 2 8 (8 * i)).symm
        _ ≤ 2 ^ 64 := Nat.pow_le_pow_right (by decide) (by omega)
    rw [UInt64.toNat_shiftLeft, UInt8.toNat_toUInt64, hshift, Nat.mod_eq_of_lt hfits]
  rw [hpow] at hlt ⊢
  calc (result ||| (b.toUInt64 <<< UInt64.ofNat (8 * i)).toInt64).toUInt64.toNat
      = result.toUInt64.toNat ||| (b.toUInt64 <<< UInt64.ofNat (8 * i)).toNat := by rw [Int64.toUInt64_or, UInt64.toNat_or]; rfl
    _ = b.toNat <<< (8 * i) ||| result.toUInt64.toNat := by rw [hbyte, Nat.or_comm]
    _ = b.toNat <<< (8 * i) + result.toUInt64.toNat := (Nat.shiftLeft_add_eq_or_of_lt hlt _).symm
    _ = result.toUInt64.toNat + 2 ^ (8 * i) * b.toNat := by rw [Nat.shiftLeft_eq, Nat.mul_comm, Nat.add_comm]

theorem toNat_setVchLoop : ∀ {vch : Valtype} {i : Nat} {result : Int64}, i + vch.length ≤ 8 →
    result.toUInt64.toNat < 256 ^ i →
      (setVchLoop i vch result).toUInt64.toNat = result.toUInt64.toNat + 256 ^ i * ofLeBytes vch
  | [], i, result, _, _ => by rw [setVchLoop, ofLeBytes, Nat.mul_zero, Nat.add_zero]
  | b :: vch, i, result, hlen, hlt => by
    rw [List.length_cons] at hlen
    have hor := toNat_or_byte b (by omega : i < 8) hlt
    have hnext : result.toUInt64.toNat + 256 ^ i * b.toNat < 256 ^ (i + 1) := by
      have hb : 256 ^ i * b.toNat ≤ 256 ^ i * 255 := Nat.mul_le_mul_left _ (Nat.le_of_lt_succ b.toNat_lt)
      rw [pow_succ]
      omega
    rw [setVchLoop, toNat_setVchLoop (by omega) (by rwa [hor]), hor, ofLeBytes, pow_succ]
    ring

theorem toNat_and_not {x m : UInt64} {k : Nat} (hm : m.toNat = 2 ^ k) (hlo : 2 ^ k ≤ x.toNat) (hhi : x.toNat < 2 ^ (k + 1)) :
    (x &&& ~~~m).toNat = x.toNat - 2 ^ k := by
  have hm64 : 2 ^ k < 2 ^ 64 := hm ▸ m.toNat_lt
  have hrest : x.toNat - 2 ^ k = x.toNat % 2 ^ k := by
    rw [Nat.mod_eq_sub_mod hlo, Nat.mod_eq_of_lt]
    rw [pow_succ] at hhi
    omega
  have hnot : (~~~m).toNat = 2 ^ 64 - (2 ^ k + 1) := by
    rw [UInt64.toNat_not, hm, Nat.sub_sub, Nat.add_comm 1]
    rfl
  rw [hrest, UInt64.toNat_and, hnot]
  apply Nat.eq_of_testBit_eq
  intro i
  rw [Nat.testBit_and, Nat.testBit_two_pow_sub_succ hm64, Nat.testBit_mod_two_pow, Nat.testBit_two_pow]
  rcases Nat.lt_trichotomy i k with hi | rfl | hi
  · have hi64 : i < 64 := hi.trans ((Nat.pow_lt_pow_iff_right (by decide)).mp hm64)
    simp [hi, hi64, hi.ne']
  · simp
  · have hbit : x.toNat.testBit i = false := Nat.testBit_lt_two_pow (hhi.trans_le (Nat.pow_le_pow_right (by decide) hi))
    simp [hbit]

theorem toInt_setVch64 {vch : Valtype} (hlen : vch.length ≤ 8) : (setVch64 vch).toInt = setVch vch := by
  rcases List.eq_nil_or_concat' vch with rfl | ⟨r, last, rfl⟩
  · rfl
  have hloop : (setVchLoop 0 (r ++ [last]) 0).toUInt64.toNat = ofLeBytes (r ++ [last]) := by
    rw [toNat_setVchLoop (by rwa [Nat.zero_add]) (by decide), pow_zero, Nat.one_mul]
    exact Nat.zero_add _
  have hcode : setVch64 (r ++ [last]) = if last &&& 0x80 ≠ 0 then
      -((setVchLoop 0 (r ++ [last]) 0).toUInt64 &&& ~~~((0x80 : UInt64) <<< UInt64.ofNat (8 * r.length))).toInt64
      else setVchLoop 0 (r ++ [last]) 0 := by
    have hne : (r ++ [last]).isEmpty = false := by simp
    rw [setVch64, hne, if_neg Bool.false_ne_true]
    simp only [List.getLastD_concat, List.length_append, List.length_singleton, Nat.add_sub_cancel]
  rw [List.length_append, List.length_singleton] at hlen
  have hpow : 256 ^ r.length * 128 = 2 ^ (8 * r.length + 7) := by
    rw [pow_add, pow_mul]
    rfl
  have htop : 2 ^ (8 * r.length + 7) ≤ 2 ^ 63 := Nat.pow_le_pow_right (by decide) (by omega)
  obtain ⟨hvalue, hsign⟩ := ofLeBytes_sign r last
  rw [hcode, setVch_concat]
  by_cases hbit : last &&& 0x80 ≠ 0
  · have hle := hsign.mp hbit
    have hmask : ((0x80 : UInt64) <<< UInt64.ofNat (8 * r.length)).toNat = 2 ^ (8 * r.length + 7) := by
      have hshift : (UInt64.ofNat (8 * r.length)).toNat % 64 = 8 * r.length := by
        rw [UInt64.toNat_ofNat']
        omega
      rw [UInt64.toNat_shiftLeft, hshift, Nat.shiftLeft_eq, ← hpow, pow_mul, Nat.mod_eq_of_lt]
      · exact Nat.mul_comm _ _
      · change 128 * 256 ^ r.length < 2 ^ 64
        omega
    have hclear := @toNat_and_not (setVchLoop 0 (r ++ [last]) 0).toUInt64 _ _ hmask (by omega) (by rw [pow_succ]; omega)
    rw [hloop] at hclear
    rw [if_pos hbit, if_pos hbit]
    generalize (setVchLoop 0 (r ++ [last]) 0).toUInt64 &&& ~~~((0x80 : UInt64) <<< UInt64.ofNat (8 * r.length)) = cleared at hclear
    have hint : cleared.toInt64.toInt = cleared.toNat := by
      rw [toInt_eq_toNat]
      exact if_pos (by change cleared.toNat < 2 ^ 63; omega)
    have hmin : cleared.toInt64 ≠ Int64.minValue := by
      intro hmin
      rw [hmin, Int64.toInt_minValue] at hint
      omega
    rw [toInt_neg hmin, hint, hclear, ← hpow, Nat.mul_comm _ 128, Nat.cast_sub hle]
    push_cast
    rfl
  · have hlt := Nat.not_le.mp fun hle => hbit (hsign.mpr hle)
    rw [if_neg hbit, if_neg hbit, toInt_eq_toNat, hloop, if_pos (by omega)]

theorem natAbs_setVch_lt {vch : Valtype} (hlen : vch.length ≤ 8) : (setVch vch).natAbs < 2 ^ 63 := by
  rcases List.eq_nil_or_concat' vch with rfl | ⟨r, last, rfl⟩
  · exact (by decide : 0 < 2 ^ 63)
  rw [List.length_append, List.length_singleton] at hlen
  have htop : 256 ^ r.length ≤ 256 ^ 7 := Nat.pow_le_pow_right (by decide) (by omega)
  obtain ⟨hvalue, hsign⟩ := ofLeBytes_sign r last
  rw [setVch_concat]
  by_cases hbit : last &&& 0x80 ≠ 0
  · have hle := hsign.mp hbit
    have hcast : ((256 : Int) ^ r.length) = ((256 ^ r.length : Nat) : Int) := by push_cast; rfl
    rw [if_pos hbit, hcast]
    omega
  · have hlt := Nat.not_le.mp fun hle => hbit (hsign.mpr hle)
    rw [if_neg hbit]
    omega

end CScriptNum

namespace CScript

/-! ## Scripts -/

/-- What `<<` appends to a script: an opcode, or a vector of bytes. -/
inductive Appended where
  | opcode (opcode : UInt8)
  | data (b : Valtype)
deriving DecidableEq

namespace Appended

/-- The bytes that `CScript::operator<<` inserts at the end. -/
def bytes : Appended → List UInt8
  | .opcode op => [op]
  | .data b => push b

/-- An opcode that is no push, or a vector with a size of 32 bits. -/
def Valid : Appended → Prop
  | .opcode op => OP_PUSHDATA4 < op
  | .data b => b.length < 2 ^ 32

instance : DecidablePred Valid
  | .opcode op => inferInstanceAs (Decidable (OP_PUSHDATA4 < op))
  | .data b => inferInstanceAs (Decidable (b.length < 2 ^ 32))

/-- The number of bytes inserted. -/
def size : Appended → Nat
  | .opcode _ => 1
  | .data b => b.length + if b.length < 0x4c then 1 else if b.length ≤ 0xff then 2 else if b.length ≤ 0xffff then 3 else 5

/-- What `GetOp` read: the data is returned for a push only. -/
def ofRead : UInt8 × Valtype → Appended
  | (op, vch) => if OP_PUSHDATA4 < op then .opcode op else .data vch

end Appended

variable {items : List Appended}

/-- A script that is put together with `<<`. -/
def appendAll (items : List Appended) : CScript := items.foldl (fun (s : List UInt8) x => s ++ x.bytes) []

/-- The script is read with `GetOp` to its end, and what is read is what was appended. -/
def ReadsBack (items : List Appended) : Prop := ∃ ops, Parses (appendAll items) ops ∧ ops.map Appended.ofRead = items

/-- Each vector is at most as long as the script from it on, modulo `2 ^ 32`. -/
def Fits : List Appended → Prop
  | [] => True
  | .opcode _ :: items => Fits items
  | .data b :: items => b.length ≤ (b.length + (items.map Appended.size).sum) % 2 ^ 32 ∧ Fits items

theorem foldl_bytes (items : List Appended) (s : List UInt8) :
    items.foldl (fun (s : List UInt8) x => s ++ x.bytes) s = s ++ items.flatMap Appended.bytes := by
  induction items generalizing s with
  | nil => rw [List.foldl_nil, List.flatMap_nil, List.append_nil]
  | cons x items ih => rw [List.foldl_cons, ih, List.flatMap_cons, List.append_assoc]

theorem bytes_appendAll (items : List Appended) : (appendAll items).bytes = items.flatMap Appended.bytes :=
  (foldl_bytes items []).trans (List.nil_append _)

theorem length_bytes : ∀ x : Appended, x.bytes.length = x.size
  | .opcode _ => rfl
  | .data b => by
    have h1 : OP_PUSHDATA1.toNat = 0x4c := rfl
    change (push b).length = b.length + _
    unfold push
    rw [h1]
    split_ifs <;> simp only [List.cons_append, List.length_cons, List.length_append, length_leBytes] <;> omega

theorem length_flatMap_bytes (items : List Appended) : (items.flatMap Appended.bytes).length = (items.map Appended.size).sum := by
  rw [List.length_flatMap]
  simp only [length_bytes]

theorem reads_cons_iff {opcode : UInt8} {vch : Valtype} {rest : List UInt8} {x : Appended} {p : Prop} [Decidable p]
    (hread : getOp2 (x.bytes ++ rest) = if p then none else some (opcode, vch, rest)) (hx : Appended.ofRead (opcode, vch) = x) :
    (∃ ops, Reads (x.bytes ++ rest) ops [] ∧ ops.map Appended.ofRead = x :: items) ↔
      ¬ p ∧ ∃ ops, Reads rest ops [] ∧ ops.map Appended.ofRead = items := by
  constructor
  · rintro ⟨ops, h, hmap⟩
    obtain ⟨⟨opcode', vch'⟩, ops, rfl, -, hrest⟩ := List.map_eq_cons_iff.mp hmap
    obtain ⟨mid, hnext, h⟩ := h
    rw [hread] at hnext
    split_ifs at hnext with hp
    cases hnext
    exact ⟨hp, ops, h, hrest⟩
  · rintro ⟨hp, ops, h, hmap⟩
    rw [if_neg hp] at hread
    exact ⟨(opcode, vch) :: ops, ⟨rest, hread, h⟩, by rw [List.map_cons, hx, hmap]⟩

theorem reads_iff : ∀ {items : List Appended}, (∀ x ∈ items, x.Valid) →
    ((∃ ops, Reads (items.flatMap Appended.bytes) ops [] ∧ ops.map Appended.ofRead = items) ↔ Fits items)
  | [], _ => ⟨fun _ => trivial, fun _ => ⟨[], rfl, rfl⟩⟩
  | .opcode opcode :: items, hvalid => by
    have hop : OP_PUSHDATA4 < opcode := hvalid _ List.mem_cons_self
    have hread : getOp2 ((Appended.opcode opcode).bytes ++ items.flatMap Appended.bytes) =
        if False then none else some (opcode, [], items.flatMap Appended.bytes) := getOp2_opcode hop
    rw [List.flatMap_cons, reads_cons_iff hread (if_pos hop), reads_iff fun x hx => hvalid x (List.mem_cons_of_mem _ hx)]
    exact ⟨fun h => h.2, fun h => ⟨not_false, h⟩⟩
  | .data b :: items, hvalid => by
    obtain ⟨opcode, hop, hread⟩ := @getOp2_push b (hvalid _ List.mem_cons_self)
    rw [List.flatMap_cons, reads_cons_iff (hread _) (if_neg (UInt8.not_lt.mpr hop)),
      reads_iff fun x hx => hvalid x (List.mem_cons_of_mem _ hx), Nat.not_lt, bytesLeft, List.length_append,
      length_flatMap_bytes]
    rfl

theorem readsBack_iff (hvalid : ∀ x ∈ items, x.Valid) : ReadsBack items ↔ Fits items := by
  rw [← reads_iff hvalid, ReadsBack]
  simp only [Parses, bytes_appendAll]

theorem fits_of_size_lt : ∀ {items : List Appended}, (items.map Appended.size).sum < 2 ^ 32 → Fits items
  | [], _ => trivial
  | .opcode _ :: items, h => by
    rw [List.map_cons, List.sum_cons] at h
    exact @fits_of_size_lt items (by omega)
  | .data b :: items, h => by
    have hlen : b.length ≤ (Appended.data b).size := Nat.le_add_right _ _
    rw [List.map_cons, List.sum_cons] at h
    refine ⟨?_, @fits_of_size_lt items (by omega)⟩
    rw [Nat.mod_eq_of_lt] <;> omega

/-! ## Unique encodings -/

/-- Numbers and what `<<` appends have one encoding each. -/
structure EncodesUniquely (items : List Appended) : Prop where
  set_serialize : ∀ n : Int64, n ≠ Int64.minValue → (CScriptNum.serialize64 n).length ≤ 8 ∧
    CScriptNum.setVch64 (CScriptNum.serialize64 n) = n ∧
    ∀ nMaxNumSize, (CScriptNum.serialize64 n).length ≤ nMaxNumSize →
      CScriptNum.ofVch (CScriptNum.serialize64 n) true nMaxNumSize = some n.toInt
  serialize_set : ∀ (v : Valtype) (nMaxNumSize : Nat), v.length ≤ 8 → CScriptNum.ofVch v true nMaxNumSize ≠ none →
    CScriptNum.serialize64 (CScriptNum.setVch64 v) = v
  reads_back : ReadsBack items

/-- The numbers are as they should be; a list is read back exactly where its pushes fit. -/
theorem encodesUniquely_iff (items : List Appended) (hvalid : ∀ x ∈ items, x.Valid) : EncodesUniquely items ↔ Fits items := by
  constructor
  · intro h
    exact (readsBack_iff hvalid).mp h.reads_back
  intro h
  refine ⟨?_, ?_, (readsBack_iff hvalid).mpr h⟩
  · intro n hn
    have hlt := CScriptNum.natAbs_toInt_lt hn
    have hlen := CScriptNum.length_serialize_le hlt
    rw [CScriptNum.serialize64_eq hn]
    refine ⟨hlen, ?_, fun k hk => CScriptNum.ofVch_serialize (Nat.lt_trans hlt (by decide)) hk⟩
    rw [← Int64.toInt_inj, CScriptNum.toInt_setVch64 hlen, CScriptNum.setVch_serialize (Nat.lt_trans hlt (by decide))]
  · intro v k hlen hmin
    have hword : CScriptNum.setVch64 v ≠ Int64.minValue := by
      intro hword
      have hlt := CScriptNum.natAbs_setVch_lt hlen
      rw [← CScriptNum.toInt_setVch64 hlen, hword, Int64.toInt_minValue] at hlt
      omega
    rw [CScriptNum.serialize64_eq hword, CScriptNum.toInt_setVch64 hlen, CScriptNum.serialize_setVch hlen hmin]

/-- A script of an opcode and three bytes. -/
theorem encodesUniquely_dup : EncodesUniquely [.opcode OP_DUP, .data [1, 2, 3]] :=
  (encodesUniquely_iff _ (by decide)).mpr (fits_of_size_lt (by decide))

/-- Two vectors of `n` bytes. -/
def twoVectors (n : Nat) : List Appended := [.data (List.replicate n 0), .data (List.replicate n 0)]

/-- Behind the size of the first vector there are `2 ^ 32 + 5` bytes, which `GetOp2` takes for five. -/
theorem twoVectors_lost : (∀ x ∈ twoVectors (2 ^ 31), x.Valid) ∧ ¬ EncodesUniquely (twoVectors (2 ^ 31)) := by
  have hlen : (List.replicate (2 ^ 31) (0 : UInt8)).length = 2 ^ 31 := List.length_replicate
  have hvalid : ∀ x ∈ twoVectors (2 ^ 31), x.Valid := by
    intro x hx
    have hx' : x = .data (List.replicate (2 ^ 31) 0) := by
      rcases List.mem_cons.mp hx with hx | hx
      · exact hx
      · exact List.mem_singleton.mp hx
    rw [hx']
    change (List.replicate (2 ^ 31) (0 : UInt8)).length < 2 ^ 32
    rw [hlen]
    decide
  refine ⟨hvalid, fun h => ?_⟩
  have hfits := (readsBack_iff hvalid).mp h.reads_back
  rw [twoVectors] at hfits
  generalize List.replicate (2 ^ 31) (0 : UInt8) = b at hlen hfits
  have hsize : (Appended.data b).size = 2 ^ 31 + 5 := by
    rw [Appended.size, hlen]
    rfl
  obtain ⟨hfirst, -⟩ := hfits
  rw [hlen, List.map_cons, List.map_nil, List.sum_cons, List.sum_nil, hsize] at hfirst
  exact absurd hfirst (by decide)

end CScript

end DigiWage
