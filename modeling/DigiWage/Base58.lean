import DigiWage.Hash
import DigiWage.Lib.Radix
import DigiWage.Text

/-!
# Base 58

`EncodeBase58` and `DecodeBase58` of `base58.cpp`, and both with a checksum. Each multiplies a number in a buffer whose size is a
rational approximation of a logarithm, and asserts that no carry is left over.

* `encodeBase58_spec`, `decodeBase58_spec`: the buffers are large enough, and the numeral is carried over to the other base
  (`Radix.recode`), leading zeros one by one.
-/

namespace DigiWage

open Lib

def pszBase58 : List UInt8 :=
  "123456789ABCDEFGHJKLMNPQRSTUVWXYZabcdefghijkmnopqrstuvwxyz".toList.map fun c => UInt8.ofNat c.toNat

/-- `pszBase58[d]`. -/
def base58Char (d : Nat) : UInt8 := pszBase58.getD d 0

/-- The character `1`. -/
def charOne : UInt8 := 49

/-- Where a text is not decoded: the function returns false, or an assertion fails. -/
inductive Base58Error where
  | rejected
  | assertion
deriving DecidableEq

/-- The loop of `DecodeBase58` over the characters: the buffer, from its end on, and the rest of the text. -/
def decodeLoop : List UInt8 → List Nat → Except Base58Error (List Nat × List UInt8)
  | [], b256 => .ok (b256, [])
  | c :: psz, b256 =>
    if isSpace c then .ok (b256, c :: psz)
    else
      match pszBase58.idxOf? c with
      | none => .error .rejected
      | some ch =>
        let r := Radix.mulAdd 58 256 b256 ch
        if r.2 = 0 then decodeLoop psz r.1 else .error .assertion

def decodeBase58 (psz : CString) : Except Base58Error (List UInt8) :=
  let psz := psz.1.dropWhile isSpace
  let zeroes := (psz.takeWhile (· = charOne)).length
  let psz := psz.dropWhile (· = charOne)
  match decodeLoop psz (List.replicate (psz.length * 733 / 1000 + 1) 0) with
  | .error e => .error e
  | .ok (b256, psz) =>
    if psz.dropWhile isSpace ≠ [] then .error .rejected
    else .ok (List.replicate zeroes 0 ++ (b256.reverse.dropWhile (· = 0)).map UInt8.ofNat)

/-- `EncodeBase58`; `none` where an assertion fails. -/
def encodeBase58 (vch : List UInt8) : Option (List UInt8) :=
  let zeroes := (vch.takeWhile (· = 0)).length
  let vch := vch.dropWhile (· = 0)
  (Radix.convert 256 58 (vch.map UInt8.toNat) (List.replicate (vch.length * 138 / 100 + 1) 0)).map fun b58 =>
    List.replicate zeroes charOne ++ (b58.reverse.dropWhile (· = 0)).map base58Char

/-- The first four bytes of `Hash`. -/
def checksum (data : List UInt8) : List UInt8 := (leBytes 32 (hash256 data).toNat).take 4

def encodeBase58Check (vchIn : List UInt8) : Option (List UInt8) := encodeBase58 (vchIn ++ checksum vchIn)

def decodeBase58Check (psz : CString) : Except Base58Error (List UInt8) :=
  match decodeBase58 psz with
  | .error e => .error e
  | .ok vchRet =>
    if vchRet.length < 4 then .error .rejected
    else if checksum (vchRet.take (vchRet.length - 4)) ≠ vchRet.drop (vchRet.length - 4) then .error .rejected
    else .ok (vchRet.take (vchRet.length - 4))

/-- `DecodeBase58` of a `std::string`, which passes `c_str()`. -/
def decodeBase58String (str : List UInt8) : Except Base58Error (List UInt8) := decodeBase58 (cStr str)

/-- `DecodeBase58Check` of a `std::string`. -/
def decodeBase58CheckString (str : List UInt8) : Except Base58Error (List UInt8) := decodeBase58Check (cStr str)

/-! ## Characters -/

theorem pszBase58_eq : pszBase58 = (List.range' 49 9 ++ List.range' 65 8 ++ List.range' 74 5 ++ List.range' 80 11 ++
    List.range' 97 11 ++ List.range' 109 14).map UInt8.ofNat := by decide

theorem idxOf?_base58Char : ∀ d < 58, pszBase58.idxOf? (base58Char d) = some d := by
  simp only [base58Char, pszBase58_eq]
  decide

theorem base58Char_spec : ∀ d < 58, isSpace (base58Char d) = false ∧ base58Char d ≠ 0 ∧ (base58Char d = charOne ↔ d = 0) := by
  simp only [base58Char, pszBase58_eq]
  decide

theorem idxOf?_eq_some {c : UInt8} {d : Nat} (h : pszBase58.idxOf? c = some d) : d < 58 ∧ base58Char d = c := by
  obtain ⟨hd, hc, -⟩ := List.idxOf?_eq_some_iff.mp h
  have hlen : pszBase58.length = 58 := by rw [pszBase58_eq]; rfl
  refine ⟨by omega, ?_⟩
  rw [base58Char, List.getD_eq_getElem?_getD, List.getElem?_eq_getElem hd, Option.getD_some]
  simpa using hc

theorem chars_split : ∀ psz : List UInt8, ∃ (ds : List Nat) (rest : List UInt8), (∀ d ∈ ds, d < 58) ∧ psz = ds.map base58Char ++ rest ∧
    ∀ c ∈ rest.head?, pszBase58.idxOf? c = none
  | [] => ⟨[], [], by simp, rfl, by simp⟩
  | c :: psz => by
    cases hc : pszBase58.idxOf? c with
    | none => exact ⟨[], c :: psz, by simp, rfl, by simpa using hc⟩
    | some d =>
      obtain ⟨hd, rfl⟩ := idxOf?_eq_some hc
      obtain ⟨ds, rest, hds, rfl, hrest⟩ := chars_split psz
      exact ⟨d :: ds, rest, List.forall_mem_cons.mpr ⟨hd, hds⟩, rfl, hrest⟩

theorem map_base58Char_injective : ∀ {ds ds' : List Nat}, (∀ d ∈ ds, d < 58) → (∀ d ∈ ds', d < 58) →
    ds.map base58Char = ds'.map base58Char → ds = ds'
  | [], [], _, _, _ => rfl
  | [], _ :: _, _, _, h => by cases h
  | _ :: _, [], _, _, h => by cases h
  | d :: ds, d' :: ds', hd, hd', h => by
    obtain ⟨hhead, htail⟩ := List.cons.inj h
    obtain ⟨hd, hds⟩ := List.forall_mem_cons.mp hd
    obtain ⟨hd', hds'⟩ := List.forall_mem_cons.mp hd'
    have hidx := idxOf?_base58Char d hd
    rw [hhead, idxOf?_base58Char d' hd', Option.some.injEq] at hidx
    rw [hidx, map_base58Char_injective hds hds' htail]

/-! ## Sizes of the buffers -/

theorem encode_size (n : Nat) : 256 ^ n ≤ 58 ^ (n * 138 / 100 + 1) := by
  have hlog : (256 : Nat) ^ 8 ≤ 58 ^ 11 := by norm_num
  apply (Nat.pow_le_pow_iff_left (by omega : 8 ≠ 0)).mp
  calc (256 ^ n) ^ 8 = (256 ^ 8) ^ n := by rw [← pow_mul, ← pow_mul, Nat.mul_comm]
    _ ≤ (58 ^ 11) ^ n := Nat.pow_le_pow_left hlog n
    _ = 58 ^ (11 * n) := by rw [← pow_mul]
    _ ≤ 58 ^ ((n * 138 / 100 + 1) * 8) := Nat.pow_le_pow_right (by omega) (by omega)
    _ = (58 ^ (n * 138 / 100 + 1)) ^ 8 := by rw [pow_mul]

theorem decode_size (n : Nat) : 58 ^ n ≤ 256 ^ (n * 733 / 1000 + 1) := by
  have hlog : (58 : Nat) ^ 22 ≤ 2 ^ 129 := by norm_num
  apply (Nat.pow_le_pow_iff_left (by omega : 22 ≠ 0)).mp
  calc (58 ^ n) ^ 22 = (58 ^ 22) ^ n := by rw [← pow_mul, ← pow_mul, Nat.mul_comm]
    _ ≤ (2 ^ 129) ^ n := Nat.pow_le_pow_left hlog n
    _ = 2 ^ (129 * n) := by rw [← pow_mul]
    _ ≤ 2 ^ (8 * ((n * 733 / 1000 + 1) * 22)) := Nat.pow_le_pow_right (by omega) (by omega)
    _ = (256 ^ (n * 733 / 1000 + 1)) ^ 22 := by rw [← pow_mul, pow_mul 2 8]; norm_num

theorem ofDigits_reverse_lt {b : Nat} (hb : 1 < b) {ds : List Nat} (h : ∀ d ∈ ds, d < b) : Nat.ofDigits b ds.reverse < b ^ ds.length := by
  rw [← List.length_reverse]
  exact Nat.ofDigits_lt_base_pow_length hb fun d hd => h d (List.mem_reverse.mp hd)

/-! ## Encoding -/

theorem map_toNat_takeWhile (l : List UInt8) : (l.map UInt8.toNat).takeWhile (· = 0) = (l.takeWhile (· = 0)).map UInt8.toNat := by
  rw [List.takeWhile_map]
  congr 2
  funext c
  simp [← UInt8.toNat_inj]

theorem map_toNat_dropWhile (l : List UInt8) : (l.map UInt8.toNat).dropWhile (· = 0) = (l.dropWhile (· = 0)).map UInt8.toNat := by
  rw [List.dropWhile_map]
  congr 2
  funext c
  simp [← UInt8.toNat_inj]

theorem encodeBase58_spec (vch : List UInt8) :
    encodeBase58 vch = some ((Radix.recode 256 58 (vch.map UInt8.toNat)).map base58Char) := by
  have hlt : ∀ d ∈ (vch.dropWhile (· = 0)).map UInt8.toNat, d < 256 := by
    intro d hd
    obtain ⟨c, -, rfl⟩ := List.mem_map.mp hd
    exact c.toNat_lt
  have hfits := ofDigits_reverse_lt (by omega) hlt
  rw [List.length_map] at hfits
  obtain ⟨b58, heq, hdigits⟩ := @Radix.convert_eq 256 58 (by omega) (by omega) _ _ (hfits.trans_le (encode_size _))
  rw [encodeBase58]
  simp only [heq, Option.map_some, hdigits]
  rw [Radix.recode, Radix.takeWhile_zero, map_toNat_dropWhile, map_toNat_takeWhile, List.length_map, List.map_append, List.map_replicate]
  rfl

/-! ## Decoding -/

theorem decodeLoop_digits (rest : List UInt8) : ∀ (ds buffer : List Nat), (∀ d ∈ ds, d < 58) →
    decodeLoop (ds.map base58Char ++ rest) buffer =
      match Radix.convert 58 256 ds buffer with
      | none => .error .assertion
      | some b256 => decodeLoop rest b256
  | [], buffer, _ => rfl
  | d :: ds, buffer, h => by
    obtain ⟨hd, hds⟩ := List.forall_mem_cons.mp h
    rw [List.map_cons, List.cons_append, decodeLoop, (base58Char_spec d hd).1, idxOf?_base58Char d hd, Radix.convert]
    simp only [Bool.false_eq_true, if_false]
    split
    · exact decodeLoop_digits rest ds _ hds
    · rfl

theorem dropWhile_one {rest : List UInt8} (hrest : ∀ c ∈ rest.head?, pszBase58.idxOf? c = none) : ∀ {ds : List Nat}, (∀ d ∈ ds, d < 58) →
    (ds.map base58Char ++ rest).dropWhile (· = charOne) = (ds.dropWhile (· = 0)).map base58Char ++ rest ∧
      ((ds.map base58Char ++ rest).takeWhile (· = charOne)).length = (ds.takeWhile (· = 0)).length
  | [], _ => by
    cases rest with
    | nil => exact ⟨rfl, rfl⟩
    | cons c rest =>
      have hne : c ≠ charOne := by
        rintro rfl
        have hnone := hrest charOne (by simp)
        rw [show pszBase58.idxOf? charOne = some 0 by rw [pszBase58_eq]; rfl] at hnone
        cases hnone
      simp [hne]
  | d :: ds, h => by
    obtain ⟨hd, hds⟩ := List.forall_mem_cons.mp h
    have hone := (base58Char_spec d hd).2.2
    obtain ⟨hdrop, htake⟩ := dropWhile_one hrest hds
    by_cases hzero : d = 0
    · have hchar : base58Char 0 = charOne := (base58Char_spec 0 (by omega)).2.2.mpr rfl
      subst hzero
      simp only [List.map_cons, List.cons_append]
      rw [List.dropWhile_cons_of_pos (by simpa using hchar), List.dropWhile_cons_of_pos (by simp),
        List.takeWhile_cons_of_pos (by simpa using hchar), List.takeWhile_cons_of_pos (by simp), List.length_cons, List.length_cons, htake]
      exact ⟨hdrop, rfl⟩
    · have hchar : base58Char d ≠ charOne := fun heq => hzero (hone.mp heq)
      simp only [List.map_cons, List.cons_append]
      rw [List.dropWhile_cons_of_neg (by simpa using hchar), List.dropWhile_cons_of_neg (by simpa using hzero),
        List.takeWhile_cons_of_neg (by simpa using hchar), List.takeWhile_cons_of_neg (by simpa using hzero)]
      exact ⟨rfl, rfl⟩

theorem stripSpaces_digits {ds : List Nat} (h : ∀ d ∈ ds, d < 58) {rest : List UInt8} (hrest : rest.dropWhile isSpace = []) :
    ((ds.map base58Char ++ rest).reverse.dropWhile isSpace).reverse = ds.map base58Char := by
  refine stripEnd_append (fun c hc => ?_) (List.dropWhile_eq_nil_iff.mp hrest)
  obtain ⟨d, hd, rfl⟩ := List.mem_map.mp hc
  exact (base58Char_spec d (h d hd)).1

theorem not_map_base58Char {w : List UInt8} {c : UInt8} (hc : c ∈ w) (hnone : pszBase58.idxOf? c = none) {ds : List Nat}
    (h : ∀ d ∈ ds, d < 58) : w ≠ ds.map base58Char := by
  rintro rfl
  obtain ⟨d, hd, rfl⟩ := List.mem_map.mp hc
  rw [idxOf?_base58Char d (h d hd)] at hnone
  cases hnone

theorem decodeBase58_split {psz : CString} {ds : List Nat} {rest : List UInt8} (hds : ∀ d ∈ ds, d < 58)
    (hsplit : psz.1.dropWhile isSpace = ds.map base58Char ++ rest) (hrest : ∀ c ∈ rest.head?, pszBase58.idxOf? c = none) :
    decodeBase58 psz =
      if rest.dropWhile isSpace = [] then .ok ((Radix.recode 58 256 ds).map UInt8.ofNat) else .error .rejected := by
  obtain ⟨hdrop, htake⟩ := dropWhile_one hrest hds
  have hdigits : ∀ d ∈ ds.dropWhile (· = 0), d < 58 := fun d hd => hds d ((List.dropWhile_sublist _).subset hd)
  have hfits : Nat.ofDigits 58 (ds.dropWhile (· = 0)).reverse <
      256 ^ (((ds.dropWhile (· = 0)).map base58Char ++ rest).length * 733 / 1000 + 1) := by
    have hlen : (ds.dropWhile (· = 0)).length ≤ ((ds.dropWhile (· = 0)).map base58Char ++ rest).length := by simp
    exact (ofDigits_reverse_lt (by omega) hdigits).trans_le ((decode_size _).trans (Nat.pow_le_pow_right (by omega) (by omega)))
  obtain ⟨b256, hconv, hbytes⟩ := @Radix.convert_eq 58 256 (by omega) (by omega) _ _ hfits
  have hloop := decodeLoop_digits rest _ (List.replicate (((ds.dropWhile (· = 0)).map base58Char ++ rest).length * 733 / 1000 + 1) 0) hdigits
  rw [hconv] at hloop
  have hresult : List.replicate (ds.takeWhile (· = 0)).length 0 ++ (b256.reverse.dropWhile (· = 0)).map UInt8.ofNat =
      (Radix.recode 58 256 ds).map UInt8.ofNat := by
    rw [hbytes, Radix.recode, Radix.takeWhile_zero, List.map_append, List.map_replicate, List.length_replicate]
    rfl
  unfold decodeBase58
  simp only [hsplit, hdrop, htake, hloop]
  rw [← hresult]
  cases rest with
  | nil => rfl
  | cons c rest =>
    rw [decodeLoop]
    by_cases hspace : isSpace c = true
    · rw [if_pos hspace]
      by_cases htail : (c :: rest).dropWhile isSpace = []
      · simp only [htail, ne_eq, not_true, if_true, if_false]
      · simp only [htail, ne_eq, not_false_eq_true, if_true, if_false]
    · -- a character that stands for no digit
      have htail : (c :: rest).dropWhile isSpace ≠ [] := by rw [List.dropWhile_cons_of_neg hspace]; exact List.cons_ne_nil c rest
      rw [if_neg hspace, hrest c (by simp), if_neg htail]

theorem decodeBase58_spec (psz : CString) :
    (∃ ds : List Nat, (∀ d ∈ ds, d < 58) ∧ stripSpaces psz.1 = ds.map base58Char ∧
      decodeBase58 psz = .ok ((Radix.recode 58 256 ds).map UInt8.ofNat)) ∨
    decodeBase58 psz = .error .rejected ∧ ∀ ds : List Nat, (∀ d ∈ ds, d < 58) → stripSpaces psz.1 ≠ ds.map base58Char := by
  obtain ⟨ds, rest, hds, hsplit, hrest⟩ := chars_split (psz.1.dropWhile isSpace)
  have hstrip : stripSpaces psz.1 = ((ds.map base58Char ++ rest).reverse.dropWhile isSpace).reverse := by rw [stripSpaces, hsplit]
  rw [decodeBase58_split hds hsplit hrest]
  by_cases htail : rest.dropWhile isSpace = []
  · left
    exact ⟨ds, hds, by rw [hstrip, stripSpaces_digits hds htail], if_pos htail⟩
  · right
    refine ⟨if_neg htail, ?_⟩
    cases rest with
    | nil => exact absurd List.dropWhile_nil htail
    | cons c rest =>
      -- the first character that stands for no digit is not stripped
      have hmem : c ∈ stripSpaces psz.1 := by
        rw [hstrip]
        apply mem_stripSpaces
        by_contra hall
        exact htail (List.dropWhile_eq_nil_iff.mpr fun y hy => by
          rw [← Bool.not_eq_false]
          exact fun hy' => hall ⟨y, hy, hy'⟩)
      exact fun ds' hds' => not_map_base58Char hmem (hrest c (by simp)) hds'

/-! ## Both directions -/

theorem map_ofNat_toNat {ds : List Nat} (h : ∀ d ∈ ds, d < 256) : (ds.map UInt8.ofNat).map UInt8.toNat = ds := by
  rw [List.map_map]
  conv_rhs => rw [← List.map_id ds]
  refine List.map_congr_left fun d hd => ?_
  rw [Function.comp_apply, UInt8.toNat_ofNat']
  exact Nat.mod_eq_of_lt (h d hd)

theorem map_toNat_ofNat (l : List UInt8) : (l.map UInt8.toNat).map UInt8.ofNat = l := by
  rw [List.map_map]
  conv_rhs => rw [← List.map_id l]
  exact List.map_congr_left fun c _ => UInt8.ofNat_toNat

theorem toNat_lt_256 {l : List UInt8} : ∀ d ∈ l.map UInt8.toNat, d < 256 := by
  intro d hd
  obtain ⟨c, -, rfl⟩ := List.mem_map.mp hd
  exact c.toNat_lt

theorem cStr_digits {ds : List Nat} (h : ∀ d ∈ ds, d < 58) : (cStr (ds.map base58Char)).1 = ds.map base58Char := by
  refine cStr_of_ne_zero fun c hc => ?_
  obtain ⟨d, hd, rfl⟩ := List.mem_map.mp hc
  exact (base58Char_spec d (h d hd)).2.1

theorem stripSpaces_map {ds : List Nat} (h : ∀ d ∈ ds, d < 58) : stripSpaces (ds.map base58Char) = ds.map base58Char := by
  refine stripSpaces_self fun c hc => ?_
  obtain ⟨d, hd, rfl⟩ := List.mem_map.mp hc
  exact (base58Char_spec d (h d hd)).1

theorem decodeBase58_eq_ok_iff (psz : CString) (vch : List UInt8) :
    decodeBase58 psz = .ok vch ↔ encodeBase58 vch = some (stripSpaces psz.1) := by
  rw [encodeBase58_spec, Option.some.injEq]
  have henc : ∀ d ∈ Radix.recode 256 58 (vch.map UInt8.toNat), d < 58 := Radix.recode_lt (by omega)
  rcases decodeBase58_spec psz with ⟨ds, hds, hstrip, heq⟩ | ⟨heq, hnot⟩
  · rw [heq, hstrip, Except.ok.injEq]
    constructor
    · rintro rfl
      rw [map_ofNat_toNat (Radix.recode_lt (by omega)), Radix.recode_recode (by omega) (by omega) hds]
    · intro hmap
      rw [← map_base58Char_injective henc hds hmap, Radix.recode_recode (by omega) (by omega) toNat_lt_256, map_toNat_ofNat]
  · rw [heq]
    exact iff_of_false (by simp) fun hmap => hnot _ henc hmap.symm

theorem decodeBase58_ne_assertion (psz : CString) : decodeBase58 psz ≠ .error .assertion := by
  rcases decodeBase58_spec psz with ⟨ds, -, -, heq⟩ | ⟨heq, -⟩ <;> simp [heq]

theorem length_checksum (data : List UInt8) : (checksum data).length = 4 := by simp [checksum]

theorem decodeBase58Check_eq_ok_iff (psz : CString) (vchRet : List UInt8) :
    decodeBase58Check psz = .ok vchRet ↔ encodeBase58Check vchRet = some (stripSpaces psz.1) := by
  rw [encodeBase58Check, ← decodeBase58_eq_ok_iff, decodeBase58Check]
  have hlen := length_checksum vchRet
  cases heq : decodeBase58 psz with
  | error e => simp
  | ok v =>
    simp only [Except.ok.injEq]
    by_cases hshort : v.length < 4
    · rw [if_pos hshort]
      refine iff_of_false (by simp) ?_
      rintro rfl
      rw [List.length_append] at hshort
      omega
    · rw [if_neg hshort]
      have hsplit := List.take_append_drop (v.length - 4) v
      by_cases hsum : checksum (v.take (v.length - 4)) = v.drop (v.length - 4)
      · rw [if_neg (not_not.mpr hsum), Except.ok.injEq]
        constructor
        · rintro rfl
          rw [hsum, hsplit]
        · rintro rfl
          rw [List.length_append, hlen, Nat.add_sub_cancel, List.take_left]
      · rw [if_pos hsum]
        refine iff_of_false (by simp) ?_
        rintro rfl
        rw [List.length_append, hlen, Nat.add_sub_cancel, List.take_left, List.drop_left] at hsum
        exact hsum rfl

/-- **Base 58.** Bytes are decoded from their encoding, and an accepted text without the white space around it is the encoding of what it
is decoded to; no assertion fails. With the checksum the accepted texts are the encodings. Of a `std::string` only what stands before
the first null character is a text. -/
theorem base58_roundTrip :
    (∀ b, ∃ s, encodeBase58 b = some s ∧ decodeBase58String s = .ok b) ∧
    (∀ s v, decodeBase58 s = .ok v → encodeBase58 v = some (stripSpaces s.1)) ∧
    (∀ str v, decodeBase58String str = .ok v → encodeBase58 v = some (stripSpaces (cStr str).1)) ∧
    (∀ b, encodeBase58 b ≠ none) ∧ (∀ s, decodeBase58 s ≠ .error .assertion) ∧
    (∀ s b, decodeBase58Check s = .ok b ↔ encodeBase58Check b = some (stripSpaces s.1)) ∧
    ∀ str b, decodeBase58CheckString str = .ok b ↔ encodeBase58Check b = some (stripSpaces (cStr str).1) := by
  refine ⟨fun b => ?_, fun s v => (decodeBase58_eq_ok_iff s v).mp, fun str v => (decodeBase58_eq_ok_iff (cStr str) v).mp,
    fun b => by simp [encodeBase58_spec], decodeBase58_ne_assertion, decodeBase58Check_eq_ok_iff,
    fun str => decodeBase58Check_eq_ok_iff (cStr str)⟩
  have hlt : ∀ d ∈ Radix.recode 256 58 (b.map UInt8.toNat), d < 58 := Radix.recode_lt (by omega)
  refine ⟨_, encodeBase58_spec b, ?_⟩
  rw [decodeBase58String, decodeBase58_eq_ok_iff, encodeBase58_spec, cStr_digits hlt, stripSpaces_map hlt]

/-- The text `2g` after a space stands for the letter `a`. -/
theorem base58_roundTrip_letter : encodeBase58 [0x61] = some (stripSpaces [0x20, 0x32, 0x67]) :=
  base58_roundTrip.2.1 ⟨[0x20, 0x32, 0x67], by decide⟩ [0x61] (by decide)

/-- What stands behind a null character is not looked at. -/
theorem not_base58_roundTrip_null : ¬ ∀ str v, decodeBase58String str = .ok v → encodeBase58 v = some (stripSpaces str) := by
  intro h
  have henc := h [0x32, 0x67, 0, 0x78] [0x61] (by decide)
  revert henc
  decide

end DigiWage
