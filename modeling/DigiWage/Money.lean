import DigiWage.Lib.Fallible
import DigiWage.Text
import DigiWage.Wallet.Coins
import Mathlib.Data.Nat.Digits.Lemmas
import Mathlib.Data.FinEnum

/-!
# Amounts as texts

`FormatMoney` and `ParseMoney` of `utilmoneystr.cpp`, where every step of the parser over `int64_t` is checked.

* `parseMoney_eq_ok_iff`: the parser accepts the decimal numbers of up to ten digits before the point and eight behind it, and gives
  their exact value.
-/

namespace DigiWage

/-- `.` -/
def charPoint : UInt8 := 46

/-- `0` -/
def charZero : UInt8 := 48

/-- The character of a decimal digit. -/
def digitChar (d : Nat) : UInt8 := UInt8.ofNat (48 + d)

/-- The number that decimal digits stand for. -/
def decimal (s : List UInt8) : Nat := Nat.ofDigits 10 (s.reverse.map fun c => c.toNat - 48)

/-- A number that is not negative with the format `%0wd`. -/
def decimalText (w n : Nat) : List UInt8 :=
  let digits := (Nat.digits 10 n).reverse.map digitChar
  List.replicate (w - digits.length) charZero ++ digits

/-! ## `FormatMoney` -/

/-- `nTrim`, when the loop looks at the first `k` characters: it stops two characters behind one that is no digit. -/
def trimCount (str : List UInt8) : Nat → Nat
  | i + 3 => if str.getD (i + 2) 0 = charZero && isDigit (str.getD i 0) then trimCount str (i + 2) + 1 else 0
  | _ => 0

def formatMoney (n : Int) (fPlus : Bool) : List UInt8 :=
  let nAbs := if n > 0 then n else -n
  let quotient := nAbs / COIN
  let remainder := nAbs % COIN
  let str := decimalText 1 quotient.toNat ++ charPoint :: decimalText 8 remainder.toNat
  let nTrim := trimCount str str.length
  let str := str.take (str.length - nTrim)
  if n < 0 then 45 :: str else if fPlus && n > 0 then 43 :: str else str

/-! ## `ParseMoney` -/

/-- Why no amount is parsed: the function returns false, or a step over `int64_t` overflows. -/
inductive MoneyError where
  | rejected
  | overflow
deriving DecidableEq

/-- A step over `int64_t`. -/
def checkInt64 (n : Int) : Except MoneyError Int := if -2 ^ 63 ≤ n ∧ n ≤ int64Max then .ok n else .error .overflow

/-- The loop over the digits behind the point: `nUnits`, and the rest of the text. -/
def parseFraction : List UInt8 → Int → Int → Except MoneyError (Int × List UInt8)
  | [], _, nUnits => .ok (nUnits, [])
  | c :: p, nMult, nUnits =>
    if isDigit c && nMult > 0 then do
      let term ← checkInt64 (nMult * (c.toNat - 48))
      let nUnits ← checkInt64 (nUnits + term)
      parseFraction p (nMult / 10) nUnits
    else .ok (nUnits, c :: p)

/-- The first loop: `strWhole`, `nUnits`, and the rest of the text. -/
def parseWhole : List UInt8 → List UInt8 → Except MoneyError (List UInt8 × Int × List UInt8)
  | [], strWhole => .ok (strWhole, 0, [])
  | c :: p, strWhole =>
    if c = charPoint then do
      let (nUnits, p) ← parseFraction p (CENT * 10) 0
      return (strWhole, nUnits, p)
    else if isSpace c then .ok (strWhole, 0, c :: p)
    else if !isDigit c then .error .rejected
    else parseWhole p (strWhole ++ [c])

/-- `atoi64`: the number that a text begins with, or the next one that fits in 64 bits. -/
def atoi64 (s : List UInt8) : Int :=
  match s.dropWhile isSpace with
  | 45 :: digits => max (-(decimal (digits.takeWhile isDigit) : Int)) (-2 ^ 63)
  | 43 :: digits => min (decimal (digits.takeWhile isDigit) : Int) int64Max
  | digits => min (decimal (digits.takeWhile isDigit) : Int) int64Max

def parseMoney (pszIn : CString) : Except MoneyError Int := do
  let (strWhole, nUnits, p) ← parseWhole (pszIn.1.dropWhile isSpace) []
  if p.any fun c => !isSpace c then .error .rejected
  -- guard against 63 bit overflow
  else if strWhole.length > 10 then .error .rejected
  else if nUnits < 0 || nUnits > COIN then .error .rejected
  else
    let whole ← checkInt64 (atoi64 strWhole * COIN)
    checkInt64 (whole + nUnits)

/-- A decimal number with up to ten digits, and up to eight behind the point, that has the value `n` in the smallest unit. -/
def IsMoneyText (s : List UInt8) (n : Int) : Prop :=
  ∃ w f : List UInt8, (∀ c ∈ w ++ f, isDigit c = true) ∧ w.length ≤ 10 ∧ f.length ≤ 8 ∧
    (s = w ∧ f = [] ∨ s = w ++ charPoint :: f) ∧ n * 10 ^ f.length = COIN * decimal (w ++ f)

/-! ## Decimal digits -/

theorem isDigit_iff {c : UInt8} : isDigit c = true ↔ 48 ≤ c.toNat ∧ c.toNat ≤ 57 := by
  rw [isDigit, Bool.and_eq_true, decide_eq_true_iff, decide_eq_true_iff, UInt8.le_iff_toNat_le, UInt8.le_iff_toNat_le]
  rfl

theorem toNat_digitChar {d : Nat} (h : d < 10) : (digitChar d).toNat = 48 + d := by
  rw [digitChar, UInt8.toNat_ofNat']
  omega

theorem decimal_nil : decimal [] = 0 := rfl

theorem decimal_append (s t : List UInt8) : decimal (s ++ t) = decimal s * 10 ^ t.length + decimal t := by
  rw [decimal, List.reverse_append, List.map_append, Nat.ofDigits_append, List.length_map, List.length_reverse, Nat.add_comm,
    Nat.mul_comm]
  rfl

theorem decimal_singleton (c : UInt8) : decimal [c] = c.toNat - 48 := by simp [decimal]

theorem decimal_lt {s : List UInt8} (h : ∀ c ∈ s, isDigit c = true) : decimal s < 10 ^ s.length := by
  have hlt := @Nat.ofDigits_lt_base_pow_length 10 (s.reverse.map fun c => c.toNat - 48) (by omega) (by
    intro d hd
    obtain ⟨c, hc, rfl⟩ := List.mem_map.mp hd
    have hdigit := isDigit_iff.mp (h c (List.mem_reverse.mp hc))
    omega)
  rwa [List.length_map, List.length_reverse] at hlt

theorem decimal_replicate_zero (k : Nat) : decimal (List.replicate k charZero) = 0 := by
  rw [decimal, List.reverse_replicate, List.map_replicate]
  exact Nat.ofDigits_replicate_zero

theorem isDigit_decimalText {w n : Nat} : ∀ c ∈ decimalText w n, isDigit c = true := by
  intro c hc
  rcases List.mem_append.mp hc with hc | hc
  · rw [List.eq_of_mem_replicate hc]
    decide
  · obtain ⟨d, hd, rfl⟩ := List.mem_map.mp hc
    have hlt : d < 10 := Nat.digits_lt_base (by omega) (List.mem_reverse.mp hd)
    rw [isDigit_iff, toNat_digitChar hlt]
    omega

theorem decimal_decimalText (w n : Nat) : decimal (decimalText w n) = n := by
  rw [decimalText, decimal_append, decimal_replicate_zero, Nat.zero_mul, Nat.zero_add, decimal, ← List.map_reverse, List.reverse_reverse,
    List.map_map]
  conv_rhs => rw [← Nat.ofDigits_digits 10 n, ← List.map_id (Nat.digits 10 n)]
  congr 1
  refine List.map_congr_left fun d hd => ?_
  rw [Function.comp_apply, toNat_digitChar (Nat.digits_lt_base (by omega) hd)]
  exact Nat.add_sub_cancel_left 48 d

theorem length_decimalText (w n : Nat) : (decimalText w n).length = max w (Nat.digits 10 n).length := by
  rw [decimalText, List.length_append, List.length_replicate, List.length_map, List.length_reverse]
  omega

theorem length_digits_le {n k : Nat} (h : n < 10 ^ k) : (Nat.digits 10 n).length ≤ k := (Nat.digits_length_le_iff (by omega) n).mpr h

/-! ## The loops of the parser -/

theorem checkInt64_eq {n : Int} (h : 0 ≤ n) (hmax : n ≤ int64Max) : checkInt64 n = .ok n := if_pos ⟨by omega, hmax⟩

theorem parseFraction_stop {rest : List UInt8} {nMult : Int} (h : (∀ c ∈ rest.head?, isDigit c = false) ∨ nMult = 0) (nUnits : Int) :
    parseFraction rest nMult nUnits = .ok (nUnits, rest) := by
  cases rest with
  | nil => rfl
  | cons c rest =>
    rw [parseFraction, if_neg]
    rcases h with hc | rfl
    · simp [hc c (by simp)]
    · simp

theorem parseFraction_digits (rest : List UInt8) : ∀ (f : List UInt8) (k : Nat) (nUnits : Int), (∀ c ∈ f, isDigit c = true) →
    f.length ≤ k → k ≤ 8 → 0 ≤ nUnits → nUnits + 10 ^ k ≤ 10 ^ 8 →
    parseFraction (f ++ rest) (10 ^ k / 10) nUnits =
      parseFraction rest (10 ^ (k - f.length) / 10) (nUnits + decimal f * 10 ^ (k - f.length))
  | [], k, nUnits, _, _, _, _, _ => by simp [decimal_nil]
  | c :: f, 0, _, _, hlen, _, _, _ => by cases hlen
  | c :: f, k + 1, nUnits, hdigits, hlen, hk, hpos, hbound => by
    obtain ⟨hc, hf⟩ := List.forall_mem_cons.mp hdigits
    have hdigit := isDigit_iff.mp hc
    have hunit : (10 : Int) ^ (k + 1) / 10 = 10 ^ k := by rw [pow_succ]; exact Int.mul_ediv_cancel _ (by omega)
    have hpow : (0 : Int) < 10 ^ k := by positivity
    rw [pow_succ] at hbound
    have hcast : ((c.toNat - 48 : Nat) : Int) = (c.toNat : Int) - 48 := by omega
    have hterm : 0 ≤ (10 : Int) ^ k * (c.toNat - 48) := Int.mul_nonneg hpow.le (by omega)
    have hterm' : (10 : Int) ^ k * (c.toNat - 48) ≤ 10 ^ k * 9 := Int.mul_le_mul_of_nonneg_left (by omega) hpow.le
    have hmax : (10 : Int) ^ 8 ≤ int64Max := by decide
    have hcons : decimal (c :: f) = (c.toNat - 48) * 10 ^ f.length + decimal f := by
      rw [← decimal_singleton c, ← decimal_append]
      rfl
    rw [List.cons_append, parseFraction, hunit, if_pos (by simp [hc, hpow]), checkInt64_eq hterm (by omega), Lib.ok_bind,
      checkInt64_eq (by omega) (by omega), Lib.ok_bind,
      parseFraction_digits rest f k _ hf (by simpa using hlen) (by omega) (by omega) (by omega), List.length_cons, Nat.add_sub_add_right,
      hcons]
    congr 1
    have hsplit : (10 : Int) ^ k = 10 ^ f.length * 10 ^ (k - f.length) := by
      rw [← pow_add, Nat.add_sub_cancel' (by simpa using hlen)]
    rw [hsplit]
    push_cast
    rw [hcast]
    ring

/-- `nUnits` of the digits behind the point. -/
def fractionUnits (f : List UInt8) : Int := decimal f * 10 ^ (8 - f.length)

theorem fractionUnits_bounds {f : List UInt8} (hf : ∀ c ∈ f, isDigit c = true) (hlen : f.length ≤ 8) :
    0 ≤ fractionUnits f ∧ fractionUnits f < COIN := by
  have hlt : (decimal f : Int) < 10 ^ f.length := by exact_mod_cast decimal_lt hf
  have hpow : (0 : Int) < 10 ^ (8 - f.length) := by positivity
  refine ⟨by unfold fractionUnits; positivity, ?_⟩
  calc fractionUnits f < 10 ^ f.length * 10 ^ (8 - f.length) := Int.mul_lt_mul_of_pos_right hlt hpow
    _ = 10 ^ 8 := by rw [← pow_add, Nat.add_sub_cancel' hlen]
    _ = COIN := by decide

theorem parseFraction_eq {f rest : List UInt8} (hf : ∀ c ∈ f, isDigit c = true) (hlen : f.length ≤ 8)
    (hrest : (∀ c ∈ rest.head?, isDigit c = false) ∨ f.length = 8) :
    parseFraction (f ++ rest) (CENT * 10) 0 = .ok (fractionUnits f, rest) := by
  rw [show CENT * 10 = (10 : Int) ^ 8 / 10 by decide, parseFraction_digits rest f 8 0 hf hlen le_rfl le_rfl (by omega), Int.zero_add]
  refine parseFraction_stop (hrest.imp_right fun h8 => ?_) _
  rw [h8]
  rfl

theorem parseFraction_spec (p : List UInt8) : ∃ f rest : List UInt8, (∀ c ∈ f, isDigit c = true) ∧ f.length ≤ 8 ∧ p = f ++ rest ∧
    parseFraction p (CENT * 10) 0 = .ok (fractionUnits f, rest) := by
  have hdigits : ∀ c ∈ (p.takeWhile isDigit).take 8, isDigit c = true := fun c hc => List.mem_takeWhile_imp (List.mem_of_mem_take hc)
  have hsplit : p = (p.takeWhile isDigit).take 8 ++ ((p.takeWhile isDigit).drop 8 ++ p.dropWhile isDigit) := by
    rw [← List.append_assoc, List.take_append_drop, List.takeWhile_append_dropWhile]
  refine ⟨_, _, hdigits, List.length_take_le _ _, hsplit, ?_⟩
  conv_lhs => rw [hsplit]
  refine parseFraction_eq hdigits (List.length_take_le _ _) ?_
  by_cases hmore : (p.takeWhile isDigit).length ≤ 8
  · left
    rw [List.drop_eq_nil_of_le hmore, List.nil_append]
    intro c hc
    have hhead := List.head?_dropWhile_not isDigit p
    rw [hc] at hhead
    simpa using hhead
  · exact .inr (List.length_take_of_le (by omega))

theorem charPoint_spec : isDigit charPoint = false ∧ isSpace charPoint = false := by decide

theorem parseWhole_digits (rest : List UInt8) : ∀ w strWhole : List UInt8, (∀ c ∈ w, isDigit c = true) →
    parseWhole (w ++ rest) strWhole = parseWhole rest (strWhole ++ w)
  | [], strWhole, _ => by rw [List.nil_append, List.append_nil]
  | c :: w, strWhole, h => by
    obtain ⟨hc, hw⟩ := List.forall_mem_cons.mp h
    have hpoint : c ≠ charPoint := by
      rintro rfl
      rw [charPoint_spec.1] at hc
      cases hc
    rw [List.cons_append, parseWhole, if_neg hpoint, isSpace_of_isDigit hc, hc, if_neg Bool.false_ne_true, if_neg (by decide),
      parseWhole_digits rest w _ hw, List.append_assoc, List.singleton_append]

theorem parseWhole_spaces {rest : List UInt8} (h : ∀ c ∈ rest.head?, isSpace c = true) (strWhole : List UInt8) :
    parseWhole rest strWhole = .ok (strWhole, 0, rest) := by
  cases rest with
  | nil => rfl
  | cons c rest =>
    have hc : isSpace c = true := h c (by simp)
    have hpoint : c ≠ charPoint := by
      rintro rfl
      rw [charPoint_spec.2] at hc
      cases hc
    rw [parseWhole, if_neg hpoint, if_pos hc]

theorem parseWhole_spec (t : List UInt8) : parseWhole t [] = .error .rejected ∨
    ∃ w f rest : List UInt8, (∀ c ∈ w ++ f, isDigit c = true) ∧ f.length ≤ 8 ∧ (t = w ++ rest ∧ f = [] ∨ t = w ++ charPoint :: f ++ rest) ∧
      parseWhole t [] = .ok (w, fractionUnits f, rest) := by
  have hdigits : ∀ c ∈ t.takeWhile isDigit, isDigit c = true := fun c hc => List.mem_takeWhile_imp hc
  have hsplit := List.takeWhile_append_dropWhile (p := isDigit) (l := t)
  have hread := parseWhole_digits (t.dropWhile isDigit) (t.takeWhile isDigit) [] hdigits
  rw [hsplit, List.nil_append] at hread
  have hhead := List.head?_dropWhile_not isDigit t
  cases hrest : t.dropWhile isDigit with
  | nil =>
    right
    refine ⟨t.takeWhile isDigit, [], [], by simpa using hdigits, by simp, .inl ⟨by rw [← hrest, hsplit], rfl⟩, ?_⟩
    rw [hread, hrest]
    rfl
  | cons c p =>
    rw [hrest] at hhead hread hsplit
    have hc : isDigit c = false := by simpa using hhead
    by_cases hpoint : c = charPoint
    · right
      obtain ⟨f, rest, hf, hlen, rfl, hfraction⟩ := parseFraction_spec p
      refine ⟨t.takeWhile isDigit, f, rest, List.forall_mem_append.mpr ⟨hdigits, hf⟩, hlen, .inr ?_, ?_⟩
      · rw [List.append_assoc, List.cons_append, ← hpoint]
        exact hsplit.symm
      · rw [hread, parseWhole, if_pos hpoint, hfraction]
        rfl
    · by_cases hspace : isSpace c = true
      · right
        refine ⟨t.takeWhile isDigit, [], c :: p, by simpa using hdigits, by simp, .inl ⟨hsplit.symm, rfl⟩, ?_⟩
        rw [hread]
        exact parseWhole_spaces (by simpa using hspace) _
      · left
        rw [hread, parseWhole, if_neg hpoint, if_neg hspace, hc]
        rfl

/-! ## `ParseMoney` accepts decimal numbers -/

theorem atoi64_digits {w : List UInt8} (h : ∀ c ∈ w, isDigit c = true) (hlen : w.length ≤ 10) : atoi64 w = decimal w := by
  have hspaces : w.dropWhile isSpace = w := by
    cases w with
    | nil => rfl
    | cons c w => exact List.dropWhile_cons_of_neg (by simp [isSpace_of_isDigit (h c List.mem_cons_self)])
  have hall : w.takeWhile isDigit = w := List.takeWhile_eq_self_iff.mpr h
  have hmax : (decimal w : Int) ≤ int64Max := by
    have hlt : decimal w < 10 ^ 10 := (decimal_lt h).trans_le (Nat.pow_le_pow_right (by omega) hlen)
    have hint : (10 : Int) ^ 10 ≤ int64Max := by decide
    omega
  rw [atoi64, hspaces]
  split
  · exact absurd (h 45 List.mem_cons_self) (by decide)
  · exact absurd (h 43 List.mem_cons_self) (by decide)
  · rw [hall]
    exact min_eq_left hmax

theorem value_iff {w f : List UInt8} (hlen : f.length ≤ 8) (n : Int) :
    n * 10 ^ f.length = COIN * decimal (w ++ f) ↔ n = decimal w * COIN + fractionUnits f := by
  have hcoin : (10 : Int) ^ (8 - f.length) * 10 ^ f.length = COIN := by
    rw [← pow_add, Nat.sub_add_cancel hlen]
    decide
  have hpow : (10 : Int) ^ f.length ≠ 0 := by positivity
  have hvalue : COIN * (decimal (w ++ f) : Int) = (decimal w * COIN + fractionUnits f) * 10 ^ f.length := by
    rw [decimal_append, fractionUnits, ← hcoin]
    push_cast
    ring
  rw [hvalue]
  exact mul_left_inj' hpow

theorem parseMoney_of_parseWhole {psz : CString} {w f rest : List UInt8}
    (hread : parseWhole (psz.1.dropWhile isSpace) [] = .ok (w, fractionUnits f, rest)) (hdigits : ∀ c ∈ w ++ f, isDigit c = true)
    (hlen : f.length ≤ 8) : parseMoney psz =
      if (∀ c ∈ rest, isSpace c = true) ∧ w.length ≤ 10 then .ok (decimal w * COIN + fractionUnits f) else .error .rejected := by
  obtain ⟨hw, hf⟩ := List.forall_mem_append.mp hdigits
  obtain ⟨hpos, hlt⟩ := fractionUnits_bounds hf hlen
  rw [parseMoney, hread, Lib.ok_bind]
  dsimp only
  by_cases hrest : ∀ c ∈ rest, isSpace c = true
  · rw [if_neg (by simpa using hrest)]
    by_cases hwhole : w.length ≤ 10
    · have hdec : decimal w < 10 ^ 10 := (decimal_lt hw).trans_le (Nat.pow_le_pow_right (by omega) hwhole)
      have hmax : (10 : Int) ^ 18 ≤ int64Max := by decide
      have hcoin : COIN = 10 ^ 8 := by decide
      have hunits : 0 ≤ decimal w * COIN ∧ decimal w * COIN + COIN ≤ 10 ^ 18 := by
        rw [hcoin]
        omega
      rw [if_neg (by omega), if_neg (by simp; omega), atoi64_digits hw hwhole, checkInt64_eq hunits.1 (by omega),
        Lib.ok_bind, checkInt64_eq (by omega) (by omega), if_pos ⟨hrest, hwhole⟩]
    · rw [if_pos (by omega), if_neg fun h => hwhole h.2]
  · rw [if_pos (by simpa using hrest), if_neg fun h => hrest h.1]

theorem parseWhole_text {s w f sp : List UInt8} (hdigits : ∀ c ∈ w ++ f, isDigit c = true) (hlen : f.length ≤ 8)
    (hs : s = w ∧ f = [] ∨ s = w ++ charPoint :: f) (hsp : ∀ c ∈ sp, isSpace c = true) :
    parseWhole (s ++ sp) [] = .ok (w, fractionUnits f, sp) := by
  obtain ⟨hw, hf⟩ := List.forall_mem_append.mp hdigits
  have hhead : ∀ c ∈ sp.head?, isSpace c = true := fun c hc => hsp c (List.mem_of_head? hc)
  have hstop : ∀ c ∈ sp.head?, isDigit c = false := by
    intro c hc
    rw [← Bool.not_eq_true]
    intro hdigit
    have hspace := hhead c hc
    rw [isSpace_of_isDigit hdigit] at hspace
    cases hspace
  rcases hs with ⟨rfl, rfl⟩ | rfl
  · rw [parseWhole_digits sp s [] hw, List.nil_append]
    exact parseWhole_spaces hhead s
  · rw [List.append_assoc, parseWhole_digits _ w [] hw, List.nil_append, List.cons_append, parseWhole, if_pos rfl,
      parseFraction_eq hf hlen (.inl hstop)]
    rfl

theorem mem_text {s w f : List UInt8} (hdigits : ∀ c ∈ w ++ f, isDigit c = true) (hs : s = w ∧ f = [] ∨ s = w ++ charPoint :: f) {c : UInt8}
    (hc : c ∈ s) : isDigit c = true ∨ c = charPoint := by
  rw [List.forall_mem_append] at hdigits
  rcases hs with ⟨rfl, -⟩ | rfl
  · exact .inl (hdigits.1 c hc)
  · rcases List.mem_append.mp hc with hc | hc
    · exact .inl (hdigits.1 c hc)
    · exact (List.mem_cons.mp hc).symm.imp_left (hdigits.2 c)

theorem isSpace_text {s w f : List UInt8} (hdigits : ∀ c ∈ w ++ f, isDigit c = true) (hs : s = w ∧ f = [] ∨ s = w ++ charPoint :: f) :
    ∀ c ∈ s, isSpace c = false := by
  intro c hc
  rcases mem_text hdigits hs hc with hdigit | rfl
  · exact isSpace_of_isDigit hdigit
  · exact charPoint_spec.2

theorem parseMoney_eq_ok_iff (psz : CString) (n : Int) : parseMoney psz = .ok n ↔ IsMoneyText (stripSpaces psz.1) n := by
  constructor
  · intro h
    rcases parseWhole_spec (psz.1.dropWhile isSpace) with herr | ⟨w, f, rest, hdigits, hlen, hsplit, hread⟩
    · rw [parseMoney, herr] at h
      cases h
    · rw [parseMoney_of_parseWhole hread hdigits hlen] at h
      split at h
      · rename_i hok
        obtain rfl := Except.ok.inj h
        have hstrip : ∀ s, (s = w ∧ f = [] ∨ s = w ++ charPoint :: f) → psz.1.dropWhile isSpace = s ++ rest → stripSpaces psz.1 = s := by
          intro s hs heq
          rw [stripSpaces, heq]
          exact stripEnd_append (isSpace_text hdigits hs) hok.1
        refine ⟨w, f, hdigits, hok.2, hlen, ?_, (value_iff hlen _).mpr rfl⟩
        rcases hsplit with ⟨heq, hnil⟩ | heq
        · exact .inl ⟨hstrip w (.inl ⟨rfl, hnil⟩) heq, hnil⟩
        · exact .inr (hstrip _ (.inr rfl) heq)
      · cases h
  · rintro ⟨w, f, hdigits, hwhole, hlen, hs, hvalue⟩
    obtain ⟨sp, hsp, hdrop⟩ := dropWhile_eq_stripSpaces psz.1
    have hread := parseWhole_text hdigits hlen hs hsp
    rw [← hdrop] at hread
    rw [parseMoney_of_parseWhole hread hdigits hlen, if_pos ⟨hsp, hwhole⟩, (value_iff hlen n).mp hvalue]

theorem parseMoney_ne_overflow (psz : CString) : parseMoney psz ≠ .error .overflow := by
  rcases parseWhole_spec (psz.1.dropWhile isSpace) with herr | ⟨w, f, rest, hdigits, hlen, -, hread⟩
  · rw [parseMoney, herr]
    exact fun h => by cases h
  · rw [parseMoney_of_parseWhole hread hdigits hlen]
    split
    · exact fun h => by cases h
    · exact fun h => by cases h

/-! ## What `FormatMoney` prints -/

theorem trimCount_eq (q : List UInt8) {c : UInt8} (hc : c ≠ charZero) (r : List UInt8) : ∀ j ≤ r.length, ∃ m ≤ j,
    trimCount (q ++ c :: r) (q.length + 1 + j) = j - m ∧ r.take j = r.take m ++ List.replicate (j - m) charZero
  | 0, _ => by
    refine ⟨0, le_rfl, ?_, by simp⟩
    unfold trimCount
    split
    · rename_i i heq
      have hget : (q ++ c :: r).getD (i + 2) 0 = c := by
        rw [show i + 2 = q.length by omega]
        simp
      rw [hget, if_neg (by simp [hc])]
    · rfl
  | j + 1, hj => by
    unfold trimCount
    split
    · rename_i i heq
      split
      · rename_i hzero
        obtain ⟨m, hm, hcount, htake⟩ := trimCount_eq q hc r j (by omega)
        have hget : r[j]? = some charZero := by
          rw [Bool.and_eq_true, decide_eq_true_iff, show i + 2 = q.length + 1 + j by omega, List.getD_eq_getElem?_getD,
            List.getElem?_append_right (by omega), show q.length + 1 + j - q.length = j + 1 by omega, List.getElem?_cons_succ,
            List.getElem?_eq_getElem (by omega), Option.getD_some] at hzero
          rw [List.getElem?_eq_getElem (by omega), hzero.1]
        refine ⟨m, by omega, ?_, ?_⟩
        · rw [show i + 2 = q.length + 1 + j by omega, hcount]
          omega
        · rw [List.take_add_one, htake, hget, Option.toList_some, List.append_assoc, ← List.replicate_succ',
            show j - m + 1 = j + 1 - m by omega]
      · exact ⟨j + 1, le_rfl, by omega, by simp⟩
    · exact ⟨j + 1, le_rfl, by omega, by simp⟩

theorem isMoneyText_formatMoney {n : Int} (h : 0 ≤ n) (hn : n < 10 ^ 18) : IsMoneyText (formatMoney n false) n := by
  have hcoin : COIN = 10 ^ 8 := by decide
  have habs : (if n > 0 then n else -n) = n := by split <;> omega
  have hquot : 0 ≤ n / COIN ∧ (n / COIN).toNat < 10 ^ 10 := by
    rw [hcoin]
    omega
  have hrem : 0 ≤ n % COIN ∧ (n % COIN).toNat < 10 ^ 8 := by
    rw [hcoin]
    omega
  have hlen : (decimalText 8 (n % COIN).toNat).length = 8 := by
    rw [length_decimalText]
    exact max_eq_left (length_digits_le hrem.2)
  have hpoint : charPoint ≠ charZero := by decide
  obtain ⟨m, hm, hcount, htake⟩ := trimCount_eq (decimalText 1 (n / COIN).toNat) hpoint (decimalText 8 (n % COIN).toNat) 8 (by omega)
  rw [List.take_of_length_le (by omega)] at htake
  have hdigits : ∀ c ∈ (decimalText 8 (n % COIN).toNat).take m, isDigit c = true := fun c hc =>
    isDigit_decimalText c (List.mem_of_mem_take hc)
  have htaken : ((decimalText 8 (n % COIN).toNat).take m).length = m := List.length_take_of_le (by omega)
  refine ⟨decimalText 1 (n / COIN).toNat, (decimalText 8 (n % COIN).toNat).take m, ?_, ?_, by omega, .inr ?_, ?_⟩
  · exact List.forall_mem_append.mpr ⟨isDigit_decimalText, hdigits⟩
  · rw [length_decimalText]
    exact max_le (by omega) (length_digits_le hquot.2)
  · rw [formatMoney]
    simp only [habs]
    have hstr : (decimalText 1 (n / COIN).toNat ++ charPoint :: decimalText 8 (n % COIN).toNat).length =
        (decimalText 1 (n / COIN).toNat).length + 1 + 8 := by
      rw [List.length_append, List.length_cons, hlen]
    rw [hstr, hcount, if_neg (by omega), Bool.false_and, if_neg Bool.false_ne_true, List.take_append, List.take_of_length_le (by omega),
      show (decimalText 1 (n / COIN).toNat).length + 1 + 8 - (8 - m) - (decimalText 1 (n / COIN).toNat).length = m + 1 by omega,
      List.take_succ_cons]
  · rw [value_iff (by omega), fractionUnits, htaken]
    have hfraction : decimal (decimalText 8 (n % COIN).toNat) = decimal ((decimalText 8 (n % COIN).toNat).take m) * 10 ^ (8 - m) := by
      conv_lhs => rw [htake, decimal_append, decimal_replicate_zero, List.length_replicate, Nat.add_zero]
    have hvalue := congrArg (Nat.cast : Nat → Int) hfraction
    rw [decimal_decimalText] at hvalue
    push_cast at hvalue
    rw [decimal_decimalText, ← hvalue, Int.toNat_of_nonneg hquot.1, Int.toNat_of_nonneg hrem.1]
    exact (Int.ediv_mul_add_emod n COIN).symm

theorem cStr_text {s : List UInt8} {n : Int} (h : IsMoneyText s n) : (cStr s).1 = s ∧ stripSpaces s = s := by
  obtain ⟨w, f, hdigits, -, -, hs, -⟩ := h
  refine ⟨cStr_of_ne_zero ?_, stripSpaces_self (isSpace_text hdigits hs)⟩
  rintro c hc rfl
  rcases mem_text hdigits hs hc with hdigit | hpoint
  · exact absurd hdigit (by decide)
  · exact absurd hpoint (by decide)

/-- Amounts below ten digits of coins are printed as texts that are read back, and the texts that are read are the decimal numbers
with at most ten digits, and eight behind the point, up to white space around them; no step overflows. -/
theorem money_roundTrip :
    (∀ n : Int, 0 ≤ n → n < 10 ^ 18 → parseMoney (cStr (formatMoney n false)) = .ok n) ∧
    (∀ (psz : CString) (n : Int), parseMoney psz = .ok n ↔ IsMoneyText (stripSpaces psz.1) n) ∧
    ∀ psz : CString, parseMoney psz ≠ .error .overflow := by
  refine ⟨fun n h hn => ?_, parseMoney_eq_ok_iff, parseMoney_ne_overflow⟩
  have htext := isMoneyText_formatMoney h hn
  obtain ⟨hcstr, hstrip⟩ := cStr_text htext
  rw [parseMoney_eq_ok_iff, hcstr, hstrip]
  exact htext

theorem money_roundTrip_coins : parseMoney (cStr (formatMoney 150000000 false)) = .ok 150000000 ∧ formatMoney 150000000 false = [49, 46, 53, 48] :=
  ⟨money_roundTrip.1 150000000 (by decide) (by decide), by decide⟩

end DigiWage
