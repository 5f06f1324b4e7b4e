import DigiWage.Lib.Bytes
import DigiWage.Lib.Packed
import DigiWage.Text

/-!
# Base 64 and base 32

`EncodeBase64`, `DecodeBase64`, `EncodeBase32` and `DecodeBase32` of `utilstrencodings.cpp`. Each is a state machine: the mode says how
many bits are left over, and each mode has its own shifts and, at the end, its own padding.

* `encodes64`, `encodes32`: what is written are the bits of the bytes, filled up with zeros (`Packed`), and the padding.
* `decodes64`, `decodes32`: what is read are the bits of the characters, and `pfInvalid` says whether the rest is a padding of zeros.
-/

namespace DigiWage

open Lib

/-! ## Encoding -/

/-- `pbase64[n]`. -/
def pbase64 (n : Nat) : UInt8 :=
  ("ABCDEFGHIJKLMNOPQRSTUVWXYZabcdefghijklmnopqrstuvwxyz0123456789+/".toList.map fun c => UInt8.ofNat c.toNat).getD n 0

/-- The loop of `EncodeBase64`, and the end after it. -/
def encodeBase64Loop (mode left : Nat) : List UInt8 → List UInt8
  | [] => if mode = 0 then [] else pbase64 left :: 61 :: if mode = 1 then [61] else []
  | b :: pch =>
    let enc := b.toNat
    match mode with
    | 0 => pbase64 (enc >>> 2) :: encodeBase64Loop 1 ((enc &&& 3) <<< 4) pch
    | 1 => pbase64 (left ||| enc >>> 4) :: encodeBase64Loop 2 ((enc &&& 15) <<< 2) pch
    | _ => pbase64 (left ||| enc >>> 6) :: pbase64 (enc &&& 63) :: encodeBase64Loop 0 left pch

def encodeBase64 (pch : List UInt8) : List UInt8 := encodeBase64Loop 0 0 pch

/-- `pbase32[n]`. -/
def pbase32 (n : Nat) : UInt8 := ((List.range 26).map (fun i => UInt8.ofNat (97 + i)) ++
  (List.range 6).map fun i => UInt8.ofNat (50 + i)).getD n 0

/-- `nPadding[mode]`. -/
def nPadding (mode : Nat) : Nat := [0, 6, 4, 3, 1].getD mode 0

/-- The loop of `EncodeBase32`, and the end after it. -/
def encodeBase32Loop (mode left : Nat) : List UInt8 → List UInt8
  | [] => if mode = 0 then [] else pbase32 left :: List.replicate (nPadding mode) 61
  | b :: pch =>
    let enc := b.toNat
    match mode with
    | 0 => pbase32 (enc >>> 3) :: encodeBase32Loop 1 ((enc &&& 7) <<< 2) pch
    | 1 => pbase32 (left ||| enc >>> 6) :: pbase32 (enc >>> 1 &&& 31) :: encodeBase32Loop 2 ((enc &&& 1) <<< 4) pch
    | 2 => pbase32 (left ||| enc >>> 4) :: encodeBase32Loop 3 ((enc &&& 15) <<< 1) pch
    | 3 => pbase32 (left ||| enc >>> 7) :: pbase32 (enc >>> 2 &&& 31) :: encodeBase32Loop 4 ((enc &&& 3) <<< 3) pch
    | _ => pbase32 (left ||| enc >>> 5) :: pbase32 (enc &&& 31) :: encodeBase32Loop 0 left pch

def encodeBase32 (pch : List UInt8) : List UInt8 := encodeBase32Loop 0 0 pch

/-! ## Decoding -/

def decode64Table : List Int :=
  [-1, -1, -1, -1, -1, -1, -1, -1, -1, -1, -1, -1, -1, -1, -1, -1, -1, -1, -1, -1,
   -1, -1, -1, -1, -1, -1, -1, -1, -1, -1, -1, -1, -1, -1, -1, -1, -1, -1, -1, -1,
   -1, -1, -1, 62, -1, -1, -1, 63, 52, 53, 54, 55, 56, 57, 58, 59, 60, 61, -1, -1,
   -1, -1, -1, -1, -1, 0, 1, 2, 3, 4, 5, 6, 7, 8, 9, 10, 11, 12, 13, 14,
   15, 16, 17, 18, 19, 20, 21, 22, 23, 24, 25, -1, -1, -1, -1, -1, -1, 26, 27, 28,
   29, 30, 31, 32, 33, 34, 35, 36, 37, 38, 39, 40, 41, 42, 43, 44, 45, 46, 47, 48,
   49, 50, 51, -1, -1, -1, -1, -1, -1, -1, -1, -1, -1, -1, -1, -1, -1, -1, -1, -1,
   -1, -1, -1, -1, -1, -1, -1, -1, -1, -1, -1, -1, -1, -1, -1, -1, -1, -1, -1, -1,
   -1, -1, -1, -1, -1, -1, -1, -1, -1, -1, -1, -1, -1, -1, -1, -1, -1, -1, -1, -1,
   -1, -1, -1, -1, -1, -1, -1, -1, -1, -1, -1, -1, -1, -1, -1, -1, -1, -1, -1, -1,
   -1, -1, -1, -1, -1, -1, -1, -1, -1, -1, -1, -1, -1, -1, -1, -1, -1, -1, -1, -1,
   -1, -1, -1, -1, -1, -1, -1, -1, -1, -1, -1, -1, -1, -1, -1, -1, -1, -1, -1, -1,
   -1, -1, -1, -1, -1, -1, -1, -1, -1, -1, -1, -1, -1, -1, -1, -1]

def decode32Table : List Int :=
  [-1, -1, -1, -1, -1, -1, -1, -1, -1, -1, -1, -1, -1, -1, -1, -1, -1, -1, -1, -1,
   -1, -1, -1, -1, -1, -1, -1, -1, -1, -1, -1, -1, -1, -1, -1, -1, -1, -1, -1, -1,
   -1, -1, -1, -1, -1, -1, -1, -1, -1, -1, 26, 27, 28, 29, 30, 31, -1, -1, -1, -1,
   -1, -1, -1, -1, -1, 0, 1, 2, 3, 4, 5, 6, 7, 8, 9, 10, 11, 12, 13, 14,
   15, 16, 17, 18, 19, 20, 21, 22, 23, 24, 25, -1, -1, -1, -1, -1, -1, 0, 1, 2,
   3, 4, 5, 6, 7, 8, 9, 10, 11, 12, 13, 14, 15, 16, 17, 18, 19, 20, 21, 22,
   23, 24, 25, -1, -1, -1, -1, -1, -1, -1, -1, -1, -1, -1, -1, -1, -1, -1, -1, -1,
   -1, -1, -1, -1, -1, -1, -1, -1, -1, -1, -1, -1, -1, -1, -1, -1, -1, -1, -1, -1,
   -1, -1, -1, -1, -1, -1, -1, -1, -1, -1, -1, -1, -1, -1, -1, -1, -1, -1, -1, -1,
   -1, -1, -1, -1, -1, -1, -1, -1, -1, -1, -1, -1, -1, -1, -1, -1, -1, -1, -1, -1,
   -1, -1, -1, -1, -1, -1, -1, -1, -1, -1, -1, -1, -1, -1, -1, -1, -1, -1, -1, -1,
   -1, -1, -1, -1, -1, -1, -1, -1, -1, -1, -1, -1, -1, -1, -1, -1, -1, -1, -1, -1,
   -1, -1, -1, -1, -1, -1, -1, -1, -1, -1, -1, -1, -1, -1, -1, -1]

/-- The variables of a decoder. -/
structure Decoder where
  mode : Nat
  left : Nat
  vchRet : List UInt8

/-- The `switch` of `DecodeBase64`. -/
def decode64Step (st : Decoder) (dec : Nat) : Decoder :=
  match st.mode with
  | 0 => ⟨1, dec, st.vchRet⟩
  | 1 => ⟨2, dec &&& 15, st.vchRet ++ [UInt8.ofNat (st.left <<< 2 ||| dec >>> 4)]⟩
  | 2 => ⟨3, dec &&& 3, st.vchRet ++ [UInt8.ofNat (st.left <<< 4 ||| dec >>> 2)]⟩
  | _ => ⟨0, st.left, st.vchRet ++ [UInt8.ofNat (st.left <<< 6 ||| dec)]⟩

/-- The `switch` of `DecodeBase32`. -/
def decode32Step (st : Decoder) (dec : Nat) : Decoder :=
  match st.mode with
  | 0 => ⟨1, dec, st.vchRet⟩
  | 1 => ⟨2, dec &&& 3, st.vchRet ++ [UInt8.ofNat (st.left <<< 3 ||| dec >>> 2)]⟩
  | 2 => ⟨3, st.left <<< 5 ||| dec, st.vchRet⟩
  | 3 => ⟨4, dec &&& 15, st.vchRet ++ [UInt8.ofNat (st.left <<< 1 ||| dec >>> 4)]⟩
  | 4 => ⟨5, dec &&& 1, st.vchRet ++ [UInt8.ofNat (st.left <<< 4 ||| dec >>> 1)]⟩
  | 5 => ⟨6, st.left <<< 5 ||| dec, st.vchRet⟩
  | 6 => ⟨7, dec &&& 7, st.vchRet ++ [UInt8.ofNat (st.left <<< 2 ||| dec >>> 3)]⟩
  | _ => ⟨0, st.left, st.vchRet ++ [UInt8.ofNat (st.left <<< 5 ||| dec)]⟩

/-- The loop of a decoder, and where it stops. A text ends with a zero byte, which stands for no digit. -/
def decodeChars (table : List Int) (step : Decoder → Nat → Decoder) : Decoder → List UInt8 → Decoder × List UInt8
  | st, [] => (st, [])
  | st, c :: p =>
    let dec := table.getD c.toNat (-1)
    if dec = -1 then (st, c :: p) else decodeChars table step (step st dec.toNat) p

/-- `p[0] == '=' && ... && table[p[n]] == -1`, with the zero byte at the end of the text. -/
def endsPadded (table : List Int) (n : Nat) (p : List UInt8) : Bool :=
  (List.range n).all (fun i => p.getD i 0 == 61) && table.getD (p.getD n 0).toNat (-1) == -1

/-- `*pfInvalid` of `DecodeBase64`. -/
def invalid64 (st : Decoder) (p : List UInt8) : Bool :=
  match st.mode with
  | 0 => false
  -- 4n+1, impossible
  | 1 => true
  | 2 => st.left != 0 || !endsPadded decode64Table 2 p
  | _ => st.left != 0 || !endsPadded decode64Table 1 p

/-- `*pfInvalid` of `DecodeBase32`. -/
def invalid32 (st : Decoder) (p : List UInt8) : Bool :=
  match st.mode with
  | 0 => false
  | 2 => st.left != 0 || !endsPadded decode32Table 6 p
  | 4 => st.left != 0 || !endsPadded decode32Table 4 p
  | 5 => st.left != 0 || !endsPadded decode32Table 3 p
  | 7 => st.left != 0 || !endsPadded decode32Table 1 p
  -- 8n+1, 8n+3 and 8n+6, impossible
  | _ => true

/-- `DecodeBase64`: the bytes and `*pfInvalid`. -/
def decodeBase64 (p : CString) : List UInt8 × Bool :=
  let (st, p) := decodeChars decode64Table decode64Step ⟨0, 0, []⟩ p.1
  (st.vchRet, invalid64 st p)

/-- `DecodeBase32`: the bytes and `*pfInvalid`. -/
def decodeBase32 (p : CString) : List UInt8 × Bool :=
  let (st, p) := decodeChars decode32Table decode32Step ⟨0, 0, []⟩ p.1
  (st.vchRet, invalid32 st p)

/-! ## What both bases have in common -/

/-- A character that stands for a digit. -/
def isDigitOf (table : List Int) (c : UInt8) : Bool := table.getD c.toNat (-1) != -1

/-- The digits at the beginning of a text. -/
def digitsOf (table : List Int) (p : List UInt8) : List Nat :=
  (p.takeWhile (isDigitOf table)).map fun c => (table.getD c.toNat (-1)).toNat

/-- The number of `=` that complete a group of `group` characters. -/
def paddingOf (group n : Nat) : Nat := (group - n % group) % group

/-- What a decoder reads of a text that it accepts: the digits at its beginning, and the padding. -/
def acceptedPrefix (table : List Int) (group : Nat) (p : List UInt8) : List UInt8 :=
  p.takeWhile (isDigitOf table) ++ List.replicate (paddingOf group (digitsOf table p).length) 61

/-- The digits of `w` bits and their characters; characters that stand for the same digit have the same `norm`. -/
structure Alphabet (w : Nat) (table : List Int) (char : Nat → UInt8) (norm : UInt8 → UInt8) : Prop where
  table_char : ∀ d < 2 ^ w, table.getD (char d).toNat (-1) = d
  char_table : ∀ c : UInt8, isDigitOf table c = true →
    (table.getD c.toNat (-1)).toNat < 2 ^ w ∧ char (table.getD c.toNat (-1)).toNat = norm c
  zero : table.getD 0 (-1) = -1
  padding : table.getD 61 (-1) = -1
  norm_padding : norm 61 = 61

/-- An encoder writes the bits of the bytes, filled up with fewer zeros than a digit has, and completes the group. -/
def Encodes (w group : Nat) (char : Nat → UInt8) (encode : List UInt8 → List UInt8) : Prop :=
  ∀ b, ∃ ds s, encode b = ds.map char ++ List.replicate (paddingOf group ds.length) 61 ∧ s < w ∧
    Packed w 8 ds (b.map UInt8.toNat) s 0

/-- A decoder reads the bits of the digits, and accepts zeros that are left over and a padding that completes the group. -/
def Decodes (w group : Nat) (table : List Int) (decode : CString → List UInt8 × Bool) : Prop :=
  ∀ p, ∃ r x, r < 8 ∧ Packed w 8 (digitsOf table p.1) ((decode p).1.map UInt8.toNat) r x ∧
    ((decode p).2 = false ↔
      r < w ∧ x = 0 ∧ endsPadded table (paddingOf group (digitsOf table p.1).length) (p.1.dropWhile (isDigitOf table)) = true)

theorem char_table_of_zipIdx {w : Nat} {table : List Int} {char : Nat → UInt8} {norm : UInt8 → UInt8} (h : ∀ q ∈ table.zipIdx, q.1 ≠ -1 →
    q.1.toNat < 2 ^ w ∧ char q.1.toNat = norm (UInt8.ofNat q.2)) (c : UInt8) (hc : isDigitOf table c = true) :
    (table.getD c.toNat (-1)).toNat < 2 ^ w ∧ char (table.getD c.toNat (-1)).toNat = norm c := by
  rw [isDigitOf, List.getD_eq_getElem?_getD] at hc
  rw [List.getD_eq_getElem?_getD]
  cases hget : table[c.toNat]? with
  | none =>
    rw [hget] at hc
    cases hc
  | some v =>
    rw [hget] at hc
    have hv := h (v, c.toNat) (List.mem_zipIdx_iff_getElem?.mpr hget) (by simpa using hc)
    rwa [UInt8.ofNat_toNat] at hv

theorem pbase64_eq (n : Nat) :
    pbase64 n = ((List.range' 65 26 ++ List.range' 97 26 ++ List.range' 48 10 ++ [43, 47]).map UInt8.ofNat).getD n 0 :=
  congrArg (List.getD · n 0) (by decide)

theorem alphabet64 : Alphabet 6 decode64Table pbase64 id where
  table_char := by simp only [pbase64_eq]; decide
  char_table := char_table_of_zipIdx (by simp only [pbase64_eq]; decide +kernel)
  zero := rfl
  padding := rfl
  norm_padding := rfl

/-- A letter as a small one. -/
def toLower (c : UInt8) : UInt8 := if 65 ≤ c ∧ c ≤ 90 then c + 32 else c

theorem alphabet32 : Alphabet 5 decode32Table pbase32 toLower where
  table_char := by decide
  char_table := char_table_of_zipIdx (by decide +kernel)
  zero := rfl
  padding := rfl
  norm_padding := rfl

section base

variable {w group : Nat} {table : List Int} {char : Nat → UInt8} {norm : UInt8 → UInt8}

theorem Alphabet.isDigitOf_char (h : Alphabet w table char norm) {d : Nat} (hd : d < 2 ^ w) : isDigitOf table (char d) = true := by
  rw [isDigitOf, h.table_char d hd]
  simp

theorem Alphabet.not_isDigitOf_padding (h : Alphabet w table char norm) : isDigitOf table 61 = false := by
  have hpadding := h.padding
  simpa [isDigitOf] using hpadding

theorem Alphabet.takeWhile_chars (h : Alphabet w table char norm) {ds : List Nat} (hds : ∀ d ∈ ds, d < 2 ^ w) (n : Nat) :
    (ds.map char ++ List.replicate n 61).takeWhile (isDigitOf table) = ds.map char ∧
      (ds.map char ++ List.replicate n 61).dropWhile (isDigitOf table) = List.replicate n 61 := by
  have hall : ∀ c ∈ ds.map char, isDigitOf table c = true := by
    intro c hc
    obtain ⟨d, hd, rfl⟩ := List.mem_map.mp hc
    exact h.isDigitOf_char (hds d hd)
  rw [List.takeWhile_append_of_pos hall, List.dropWhile_append_of_pos hall]
  cases n with
  | zero => simp
  | succ n => simp [List.replicate_succ, h.not_isDigitOf_padding]

theorem Alphabet.digitsOf_chars (h : Alphabet w table char norm) {ds : List Nat} (hds : ∀ d ∈ ds, d < 2 ^ w) (n : Nat) :
    digitsOf table (ds.map char ++ List.replicate n 61) = ds := by
  rw [digitsOf, (h.takeWhile_chars hds n).1, List.map_map]
  conv_rhs => rw [← List.map_id ds]
  exact List.map_congr_left fun d hd => by rw [Function.comp_apply, h.table_char d (hds d hd), Int.toNat_natCast, id]

theorem Alphabet.map_digitsOf (h : Alphabet w table char norm) (p : List UInt8) :
    (digitsOf table p).map char = (p.takeWhile (isDigitOf table)).map norm := by
  rw [digitsOf, List.map_map]
  exact List.map_congr_left fun c hc => (h.char_table c (List.mem_takeWhile_imp hc)).2

theorem endsPadded_replicate (hzero : table.getD 0 (-1) = -1) (n : Nat) : endsPadded table n (List.replicate n 61) = true := by
  have hend : (List.replicate n (61 : UInt8)).getD n 0 = 0 := by
    rw [List.getD_eq_getElem?_getD, List.getElem?_eq_none (by simp), Option.getD_none]
  rw [endsPadded, hend, Bool.and_eq_true, List.all_eq_true]
  refine ⟨fun i hi => ?_, by simpa using hzero⟩
  simp [List.getD_eq_getElem?_getD, List.mem_range.mp hi]

theorem replicate_prefix : ∀ (n : Nat) (p : List UInt8), (∀ i < n, p.getD i 0 = 61) → List.replicate n 61 <+: p
  | 0, p, _ => List.nil_prefix
  | n + 1, [], h => by
    have hfirst := h 0 (Nat.succ_pos n)
    cases hfirst
  | n + 1, c :: p, h => by
    have hfirst : c = 61 := h 0 (Nat.succ_pos n)
    rw [List.replicate_succ, hfirst, List.cons_prefix_cons]
    exact ⟨rfl, replicate_prefix n p fun i hi => h (i + 1) (Nat.succ_lt_succ hi)⟩

theorem prefix_of_endsPadded {n : Nat} {p : List UInt8} (h : endsPadded table n p = true) : List.replicate n 61 <+: p := by
  rw [endsPadded, Bool.and_eq_true, List.all_eq_true] at h
  exact replicate_prefix n p fun i hi => by simpa using h.1 i (List.mem_range.mpr hi)

theorem decode_encode {encode : List UInt8 → List UInt8} {decode : CString → List UInt8 × Bool} (h : Alphabet w table char norm)
    (henc : Encodes w group char encode) (hdec : Decodes w group table decode) (hw : w ≤ 8) (b : List UInt8) :
    decode (cStr (encode b)) = (b, false) := by
  obtain ⟨ds, s, heq, hs, hpacked⟩ := henc b
  obtain ⟨r, x, hr, hread, hvalid⟩ := hdec (cStr (encode b))
  have hne : ∀ c ∈ encode b, c ≠ 0 := by
    rintro c hc rfl
    rw [heq, List.mem_append] at hc
    rcases hc with hc | hc
    · obtain ⟨d, hd, hzero⟩ := List.mem_map.mp hc
      have htable := h.table_char d (hpacked.source_lt d hd)
      rw [hzero, show (0 : UInt8).toNat = 0 from rfl, h.zero] at htable
      omega
    · simp at hc
  have htext : (cStr (encode b)).1 = ds.map char ++ List.replicate (paddingOf group ds.length) 61 := by
    rw [cStr_of_ne_zero hne, heq]
  have hdigits : digitsOf table (cStr (encode b)).1 = ds := by rw [htext, h.digitsOf_chars hpacked.source_lt]
  rw [hdigits] at hread hvalid
  obtain ⟨hbytes, rfl, rfl⟩ := hread.unique hpacked hr (hs.trans_le hw)
  have hend : endsPadded table (paddingOf group ds.length) ((cStr (encode b)).1.dropWhile (isDigitOf table)) = true := by
    rw [htext, (h.takeWhile_chars hpacked.source_lt _).2]
    exact endsPadded_replicate h.zero _
  exact Prod.ext (List.map_injective_iff.mpr (fun _ _ => UInt8.toNat_inj.mp) hbytes) (hvalid.mpr ⟨hs, rfl, hend⟩)

theorem encode_decode {encode : List UInt8 → List UInt8} {decode : CString → List UInt8 × Bool} (h : Alphabet w table char norm)
    (henc : Encodes w group char encode) (hdec : Decodes w group table decode) {p : CString} (hvalid : (decode p).2 = false) :
    acceptedPrefix table group p.1 <+: p.1 ∧ encode (decode p).1 = (acceptedPrefix table group p.1).map norm := by
  obtain ⟨r, x, -, hread, hiff⟩ := hdec p
  obtain ⟨hr, rfl, hend⟩ := hiff.mp hvalid
  obtain ⟨ds, s, heq, hs, hpacked⟩ := henc (decode p).1
  constructor
  · conv_rhs => rw [← List.takeWhile_append_dropWhile (p := isDigitOf table) (l := p.1)]
    exact (List.prefix_append_right_inj _).mpr (prefix_of_endsPadded hend)
  · rw [heq, ← hread.source_unique hpacked hr hs, acceptedPrefix, List.map_append, List.map_replicate, h.norm_padding, h.map_digitsOf]

end base


/-! ## The encoders -/

/-- The state of an encoder after the bytes `bs`: the digits `ds` are written, and the pending bits, as many as the mode says, are the
highest ones of `left`. -/
def EncodeState (w : Nat) (bits : List Nat) (mode left : Nat) (bs ds : List Nat) : Prop :=
  mode < bits.length ∧ ∃ x, Packed 8 w bs ds (bits.getD mode 0) x ∧ (mode ≠ 0 → left = x <<< (w - bits.getD mode 0))

theorem encodes_of_modes {w group : Nat} {char : Nat → UInt8} {bits : List Nat} {loop : Nat → Nat → List UInt8 → List UInt8}
    (hbits : 0 < bits.length ∧ bits.getD 0 0 = 0)
    (hstep : ∀ mode left bs ds (b : UInt8), EncodeState w bits mode left bs ds → ∃ ds' mode' left',
      (∀ pch, loop mode left (b :: pch) = List.map char ds' ++ loop mode' left' pch) ∧
        EncodeState w bits mode' left' (bs ++ [b.toNat]) (ds ++ ds'))
    (hend : ∀ mode left bs ds, EncodeState w bits mode left bs ds → ∃ ds' s,
      loop mode left [] = List.map char ds' ++ List.replicate (paddingOf group (ds ++ ds').length) 61 ∧ s < w ∧
        Packed w 8 (ds ++ ds') bs s 0) : Encodes w group char (loop 0 0) := by
  have hrun : ∀ (pch : List UInt8) (mode left : Nat) (bs ds : List Nat), EncodeState w bits mode left bs ds → ∃ ds' s,
      loop mode left pch = List.map char ds' ++ List.replicate (paddingOf group (ds ++ ds').length) 61 ∧ s < w ∧
        Packed w 8 (ds ++ ds') (bs ++ pch.map UInt8.toNat) s 0 := by
    intro pch
    induction pch with
    | nil =>
      intro mode left bs ds h
      rw [List.map_nil, List.append_nil]
      exact hend mode left bs ds h
    | cons b pch ih =>
      intro mode left bs ds h
      obtain ⟨ds₁, mode', left', hloop, hnext⟩ := hstep mode left bs ds b h
      obtain ⟨ds₂, s, heq, hs, hpacked⟩ := ih mode' left' _ _ hnext
      rw [List.append_assoc] at heq hpacked
      refine ⟨ds₁ ++ ds₂, s, ?_, hs, ?_⟩
      · rw [hloop, heq, List.map_append, List.append_assoc]
      · rw [List.append_assoc, List.singleton_append] at hpacked
        exact hpacked
  intro b
  have hstart : EncodeState w bits 0 0 [] [] := ⟨hbits.1, 0, by rw [hbits.2]; exact .nil, fun h => absurd rfl h⟩
  obtain ⟨ds, s, heq, hs, hpacked⟩ := hrun b 0 0 [] [] hstart
  exact ⟨ds, s, heq, hs, hpacked⟩

theorem paddingOf_eq {group n k : Nat} (h : n % group = (group - k) % group) (hk : k < group) : paddingOf group n = k := by
  rw [paddingOf, h]
  rcases Nat.eq_zero_or_pos k with rfl | hpos
  · simp
  · rw [Nat.mod_eq_of_lt (by omega : group - k < group), Nat.mod_eq_of_lt (by omega)]
    omega

theorem EncodeState.pad {w group n mode left x : Nat} {bits bs ds : List Nat} (h : Packed 8 w bs ds (bits.getD mode 0) x)
    (hleft : mode ≠ 0 → left = x <<< (w - bits.getD mode 0)) (hmode : mode ≠ 0) (hpos : 0 < bits.getD mode 0)
    (hle : bits.getD mode 0 ≤ w) (hn : paddingOf group (ds.length + 1) = n) (char : Nat → UInt8) : ∃ ds' s,
      char left :: List.replicate n 61 = List.map char ds' ++ List.replicate (paddingOf group (ds ++ ds').length) 61 ∧ s < w ∧
        Packed w 8 (ds ++ ds') bs s 0 := by
  refine ⟨[x * 2 ^ (w - bits.getD mode 0)], w - bits.getD mode 0, ?_, by omega, h.pad hle⟩
  rw [List.length_append, List.length_singleton, hn, hleft hmode, Nat.shiftLeft_eq]
  rfl

theorem encode64_end (mode left : Nat) (bs ds : List Nat) (h : EncodeState 6 [0, 2, 4] mode left bs ds) : ∃ ds' s,
    encodeBase64Loop mode left [] = ds'.map pbase64 ++ List.replicate (paddingOf 4 (ds ++ ds').length) 61 ∧ s < 6 ∧
      Packed 6 8 (ds ++ ds') bs s 0 := by
  obtain ⟨hmode, x, hpacked, hleft⟩ := h
  have hbits := hpacked.bits
  match mode, hmode with
  | 0, _ =>
    obtain rfl : x = 0 := Nat.lt_one_iff.mp hpacked.pending_lt
    have hbits : 8 * bs.length = 6 * ds.length + 0 := hbits
    refine ⟨[], 0, ?_, by omega, by rw [List.append_nil]; exact hpacked.symm⟩
    rw [List.append_nil, @paddingOf_eq 4 ds.length 0 (by omega) (by omega)]
    rfl
  | 1, _ =>
    have hbits : 8 * bs.length = 6 * ds.length + 2 := hbits
    exact EncodeState.pad hpacked hleft (by decide) (by decide) (by decide) (@paddingOf_eq 4 _ 2 (by omega) (by omega)) pbase64
  | 2, _ =>
    have hbits : 8 * bs.length = 6 * ds.length + 4 := hbits
    exact EncodeState.pad hpacked hleft (by decide) (by decide) (by decide) (@paddingOf_eq 4 _ 1 (by omega) (by omega)) pbase64

theorem and_mask (k x : Nat) : x &&& (2 ^ k - 1) = x % 2 ^ k := Nat.and_two_pow_sub_one_eq_mod x k

theorem encode64_step (mode left : Nat) (bs ds : List Nat) (b : UInt8) (h : EncodeState 6 [0, 2, 4] mode left bs ds) : ∃ ds' mode' left',
    (∀ pch, encodeBase64Loop mode left (b :: pch) = ds'.map pbase64 ++ encodeBase64Loop mode' left' pch) ∧
      EncodeState 6 [0, 2, 4] mode' left' (bs ++ [b.toNat]) (ds ++ ds') := by
  obtain ⟨hmode, x, hpacked, hleft⟩ := h
  have hb := b.toNat_lt
  match mode, hmode with
  | 0, _ =>
    obtain rfl : x = 0 := Nat.lt_one_iff.mp hpacked.pending_lt
    have hfill := @Packed.fill _ _ _ _ _ _ 6 2 hpacked hb rfl
    rw [Nat.zero_shiftLeft, Nat.zero_or] at hfill
    exact ⟨_, 1, _, fun _ => rfl, by decide, _, hfill, fun _ => congrArg (· <<< 4) (and_mask 2 b.toNat)⟩
  | 1, _ =>
    have hfill := @Packed.fill _ _ _ _ _ _ 4 4 hpacked hb rfl
    rw [← show left = x <<< 4 from hleft (by decide)] at hfill
    exact ⟨_, 2, _, fun _ => rfl, by decide, _, hfill, fun _ => congrArg (· <<< 2) (and_mask 4 b.toNat)⟩
  | 2, _ =>
    have hfill := (@Packed.fill _ _ _ _ _ _ 2 6 hpacked hb rfl).pop_all
    rw [← show left = x <<< 2 from hleft (by decide), ← and_mask, List.append_assoc] at hfill
    exact ⟨_, 0, left, fun _ => rfl, by decide, _, hfill, fun h => absurd rfl h⟩

theorem encodes64 : Encodes 6 4 pbase64 encodeBase64 := encodes_of_modes ⟨by decide, rfl⟩ encode64_step encode64_end

theorem encode32_end (mode left : Nat) (bs ds : List Nat) (h : EncodeState 5 [0, 3, 1, 4, 2] mode left bs ds) : ∃ ds' s,
    encodeBase32Loop mode left [] = ds'.map pbase32 ++ List.replicate (paddingOf 8 (ds ++ ds').length) 61 ∧ s < 5 ∧
      Packed 5 8 (ds ++ ds') bs s 0 := by
  obtain ⟨hmode, x, hpacked, hleft⟩ := h
  have hbits := hpacked.bits
  match mode, hmode with
  | 0, _ =>
    obtain rfl : x = 0 := Nat.lt_one_iff.mp hpacked.pending_lt
    have hbits : 8 * bs.length = 5 * ds.length + 0 := hbits
    refine ⟨[], 0, ?_, by omega, by rw [List.append_nil]; exact hpacked.symm⟩
    rw [List.append_nil, @paddingOf_eq 8 ds.length 0 (by omega) (by omega)]
    rfl
  | 1, _ =>
    have hbits : 8 * bs.length = 5 * ds.length + 3 := hbits
    exact EncodeState.pad hpacked hleft (by decide) (by decide) (by decide) (@paddingOf_eq 8 _ 6 (by omega) (by omega)) pbase32
  | 2, _ =>
    have hbits : 8 * bs.length = 5 * ds.length + 1 := hbits
    exact EncodeState.pad hpacked hleft (by decide) (by decide) (by decide) (@paddingOf_eq 8 _ 4 (by omega) (by omega)) pbase32
  | 3, _ =>
    have hbits : 8 * bs.length = 5 * ds.length + 4 := hbits
    exact EncodeState.pad hpacked hleft (by decide) (by decide) (by decide) (@paddingOf_eq 8 _ 3 (by omega) (by omega)) pbase32
  | 4, _ =>
    have hbits : 8 * bs.length = 5 * ds.length + 2 := hbits
    exact EncodeState.pad hpacked hleft (by decide) (by decide) (by decide) (@paddingOf_eq 8 _ 1 (by omega) (by omega)) pbase32

theorem shiftRight_and_mask (k x : Nat) : x % 2 ^ (5 + k) / 2 ^ k = x >>> k &&& 31 := by
  have hmask : x >>> k &&& 31 = x >>> k % 2 ^ 5 := and_mask 5 _
  rw [hmask, Nat.shiftRight_eq_div_pow, Nat.pow_add, Nat.mul_comm, Nat.mod_mul_right_div_self]

theorem mod_and_mask (k x : Nat) : x % 2 ^ (5 + k) % 2 ^ k = x % 2 ^ k :=
  Nat.mod_mod_of_dvd x (Nat.pow_dvd_pow 2 (Nat.le_add_left k 5))

theorem encode32_step (mode left : Nat) (bs ds : List Nat) (b : UInt8) (h : EncodeState 5 [0, 3, 1, 4, 2] mode left bs ds) :
    ∃ ds' mode' left', (∀ pch, encodeBase32Loop mode left (b :: pch) = ds'.map pbase32 ++ encodeBase32Loop mode' left' pch) ∧
      EncodeState 5 [0, 3, 1, 4, 2] mode' left' (bs ++ [b.toNat]) (ds ++ ds') := by
  obtain ⟨hmode, x, hpacked, hleft⟩ := h
  have hb := b.toNat_lt
  match mode, hmode with
  | 0, _ =>
    obtain rfl : x = 0 := Nat.lt_one_iff.mp hpacked.pending_lt
    have hfill := @Packed.fill _ _ _ _ _ _ 5 3 hpacked hb rfl
    rw [Nat.zero_shiftLeft, Nat.zero_or] at hfill
    exact ⟨_, 1, _, fun _ => rfl, by decide, _, hfill, fun _ => congrArg (· <<< 2) (and_mask 3 b.toNat)⟩
  | 1, _ =>
    have hfill := (@Packed.fill _ _ _ _ _ _ 2 6 hpacked hb rfl).pop_high 1
    rw [← show left = x <<< 2 from hleft (by decide), shiftRight_and_mask 1, mod_and_mask 1, List.append_assoc] at hfill
    exact ⟨_, 2, _, fun _ => rfl, by decide, _, hfill, fun _ => congrArg (· <<< 4) (and_mask 1 b.toNat)⟩
  | 2, _ =>
    have hfill := @Packed.fill _ _ _ _ _ _ 4 4 hpacked hb rfl
    rw [← show left = x <<< 4 from hleft (by decide)] at hfill
    exact ⟨_, 3, _, fun _ => rfl, by decide, _, hfill, fun _ => congrArg (· <<< 1) (and_mask 4 b.toNat)⟩
  | 3, _ =>
    have hfill := (@Packed.fill _ _ _ _ _ _ 1 7 hpacked hb rfl).pop_high 2
    rw [← show left = x <<< 1 from hleft (by decide), shiftRight_and_mask 2, mod_and_mask 2, List.append_assoc] at hfill
    exact ⟨_, 4, _, fun _ => rfl, by decide, _, hfill, fun _ => congrArg (· <<< 3) (and_mask 2 b.toNat)⟩
  | 4, _ =>
    have hfill := (@Packed.fill _ _ _ _ _ _ 3 5 hpacked hb rfl).pop_all
    rw [← show left = x <<< 3 from hleft (by decide), ← and_mask, List.append_assoc] at hfill
    exact ⟨_, 0, left, fun _ => rfl, by decide, _, hfill, fun h => absurd rfl h⟩

theorem encodes32 : Encodes 5 8 pbase32 encodeBase32 := encodes_of_modes ⟨by decide, rfl⟩ encode32_step encode32_end

/-! ## The decoders -/

theorem decodeChars_eq (table : List Int) (step : Decoder → Nat → Decoder) : ∀ (st : Decoder) (p : List UInt8),
    decodeChars table step st p = ((digitsOf table p).foldl step st, p.dropWhile (isDigitOf table))
  | st, [] => rfl
  | st, c :: p => by
    by_cases hc : table.getD c.toNat (-1) = -1
    · have hno : isDigitOf table c = false := by rw [isDigitOf, hc]; rfl
      rw [decodeChars, if_pos hc, digitsOf, List.takeWhile_cons_of_neg (by simp [hno]), List.dropWhile_cons_of_neg (by simp [hno])]
      rfl
    · have hyes : isDigitOf table c = true := by simpa [isDigitOf] using hc
      have ih := decodeChars_eq table step (step st (table.getD c.toNat (-1)).toNat) p
      rw [decodeChars, if_neg hc, ih, List.dropWhile_cons_of_pos hyes, digitsOf, digitsOf, List.takeWhile_cons_of_pos hyes]
      rfl

/-- The state of a decoder after the digits `ds`: the pending bits, as many as the mode says, are those of `left`. -/
def DecodeState (w : Nat) (bits : List Nat) (st : Decoder) (ds : List Nat) : Prop :=
  st.mode < bits.length ∧ ∃ x, Packed w 8 ds (st.vchRet.map UInt8.toNat) (bits.getD st.mode 0) x ∧ (st.mode ≠ 0 → st.left = x)

theorem DecodeState.foldl {w : Nat} {bits : List Nat} {step : Decoder → Nat → Decoder}
    (hstep : ∀ st ds d, DecodeState w bits st ds → d < 2 ^ w → DecodeState w bits (step st d) (ds ++ [d])) :
    ∀ (ds' : List Nat) {st : Decoder} {ds : List Nat}, (∀ d ∈ ds', d < 2 ^ w) → DecodeState w bits st ds →
      DecodeState w bits (ds'.foldl step st) (ds ++ ds')
  | [], st, ds, _, h => by
    rw [List.append_nil]
    exact h
  | d :: ds', st, ds, hlt, h => by
    obtain ⟨hd, hds'⟩ := List.forall_mem_cons.mp hlt
    have hrest := DecodeState.foldl hstep ds' hds' (hstep st ds d h hd)
    rw [List.append_assoc, List.singleton_append] at hrest
    exact hrest

theorem Packed.fill_byte {w k m r x d : Nat} {ds : List Nat} {vch : List UInt8} (h : Packed w 8 ds (vch.map UInt8.toNat) r x)
    (hd : d < 2 ^ w) (hw : w = k + m) (hr : r + k = 8) :
    Packed w 8 (ds ++ [d]) ((vch ++ [UInt8.ofNat (x <<< k ||| d >>> m)]).map UInt8.toNat) m (d % 2 ^ m) := by
  subst hw
  have hfill := h.fill hd hr
  have hbyte : x <<< k ||| d >>> m < 2 ^ 8 := hfill.target_lt _ (List.mem_append_right _ (List.mem_singleton_self _))
  rw [List.map_append, List.map_singleton, UInt8.toNat_ofNat', Nat.mod_eq_of_lt hbyte]
  exact hfill

theorem decode64_step (st : Decoder) (ds : List Nat) (d : Nat) (h : DecodeState 6 [0, 6, 4, 2] st ds) (hd : d < 2 ^ 6) :
    DecodeState 6 [0, 6, 4, 2] (decode64Step st d) (ds ++ [d]) := by
  obtain ⟨mode, left, vchRet⟩ := st
  obtain ⟨hmode, x, hpacked, hleft⟩ := h
  match mode, hmode with
  | 0, _ =>
    obtain rfl : x = 0 := Nat.lt_one_iff.mp hpacked.pending_lt
    have hpush := hpacked.push hd
    rw [Nat.zero_mul, Nat.zero_add] at hpush
    exact ⟨(by decide : 1 < 4), _, hpush, fun _ => rfl⟩
  | 1, _ =>
    obtain rfl := hleft (Nat.succ_ne_zero _)
    exact ⟨(by decide : 2 < 4), _, @Packed.fill_byte 6 2 4 _ _ _ _ _ hpacked hd rfl rfl, fun _ => and_mask 4 d⟩
  | 2, _ =>
    obtain rfl := hleft (Nat.succ_ne_zero _)
    exact ⟨(by decide : 3 < 4), _, @Packed.fill_byte 6 4 2 _ _ _ _ _ hpacked hd rfl rfl, fun _ => and_mask 2 d⟩
  | 3, _ =>
    obtain rfl := hleft (Nat.succ_ne_zero _)
    exact ⟨(by decide : 0 < 4), _, @Packed.fill_byte 6 6 0 _ _ _ _ _ hpacked hd rfl rfl, fun h => absurd rfl h⟩

theorem Packed.keep {w v r x d : Nat} {source target : List Nat} (h : Packed w v source target r x) (hd : d < 2 ^ w) :
    Packed w v (source ++ [d]) target (r + w) (x <<< w ||| d) := by
  rw [← Nat.shiftLeft_add_eq_or_of_lt hd, Nat.shiftLeft_eq]
  exact h.push hd

theorem decode32_step (st : Decoder) (ds : List Nat) (d : Nat) (h : DecodeState 5 [0, 5, 2, 7, 4, 1, 6, 3] st ds) (hd : d < 2 ^ 5) :
    DecodeState 5 [0, 5, 2, 7, 4, 1, 6, 3] (decode32Step st d) (ds ++ [d]) := by
  obtain ⟨mode, left, vchRet⟩ := st
  obtain ⟨hmode, x, hpacked, hleft⟩ := h
  match mode, hmode with
  | 0, _ =>
    obtain rfl : x = 0 := Nat.lt_one_iff.mp hpacked.pending_lt
    have hpush := hpacked.push hd
    rw [Nat.zero_mul, Nat.zero_add] at hpush
    exact ⟨(by decide : 1 < 8), _, hpush, fun _ => rfl⟩
  | 1, _ =>
    obtain rfl := hleft (Nat.succ_ne_zero _)
    exact ⟨(by decide : 2 < 8), _, @Packed.fill_byte 5 3 2 _ _ _ _ _ hpacked hd rfl rfl, fun _ => and_mask 2 d⟩
  | 2, _ =>
    obtain rfl := hleft (Nat.succ_ne_zero _)
    exact ⟨(by decide : 3 < 8), _, Packed.keep hpacked hd, fun _ => rfl⟩
  | 3, _ =>
    obtain rfl := hleft (Nat.succ_ne_zero _)
    exact ⟨(by decide : 4 < 8), _, @Packed.fill_byte 5 1 4 _ _ _ _ _ hpacked hd rfl rfl, fun _ => and_mask 4 d⟩
  | 4, _ =>
    obtain rfl := hleft (Nat.succ_ne_zero _)
    exact ⟨(by decide : 5 < 8), _, @Packed.fill_byte 5 4 1 _ _ _ _ _ hpacked hd rfl rfl, fun _ => and_mask 1 d⟩
  | 5, _ =>
    obtain rfl := hleft (Nat.succ_ne_zero _)
    exact ⟨(by decide : 6 < 8), _, Packed.keep hpacked hd, fun _ => rfl⟩
  | 6, _ =>
    obtain rfl := hleft (Nat.succ_ne_zero _)
    exact ⟨(by decide : 7 < 8), _, @Packed.fill_byte 5 2 3 _ _ _ _ _ hpacked hd rfl rfl, fun _ => and_mask 3 d⟩
  | 7, _ =>
    obtain rfl := hleft (Nat.succ_ne_zero _)
    exact ⟨(by decide : 0 < 8), _, @Packed.fill_byte 5 5 0 _ _ _ _ _ hpacked hd rfl rfl, fun h => absurd rfl h⟩

section verdict

variable {w group : Nat} {table : List Int} {char : Nat → UInt8} {norm : UInt8 → UInt8}

theorem endsPadded_zero (hzero : table.getD 0 (-1) = -1) {p : List UInt8} (h : ∀ c ∈ p.head?, isDigitOf table c = false) :
    endsPadded table 0 p = true := by
  cases p with
  | nil => simpa [endsPadded] using hzero
  | cons c p => simpa [endsPadded, isDigitOf] using h c (by simp)

theorem verdict_padded {n k r x : Nat} {p : List UInt8} (hr : r < w) (h : paddingOf group n = k) :
    (x != 0 || !endsPadded table k p) = false ↔ r < w ∧ x = 0 ∧ endsPadded table (paddingOf group n) p = true := by
  rw [h]
  simp [hr]

theorem verdict_impossible {r : Nat} {P : Prop} (hr : w ≤ r) : true = false ↔ r < w ∧ P :=
  iff_of_false Bool.true_eq_false.mp fun h => Nat.not_lt.mpr hr h.1

theorem decodes_of_modes (h : Alphabet w table char norm) {bits : List Nat} {step : Decoder → Nat → Decoder}
    {invalid : Decoder → List UInt8 → Bool} (hbits : 0 < bits.length ∧ bits.getD 0 0 = 0 ∧ ∀ r ∈ bits, r < 8)
    (hstep : ∀ st ds d, DecodeState w bits st ds → d < 2 ^ w → DecodeState w bits (step st d) (ds ++ [d]))
    (hinvalid : ∀ (st : Decoder) (ds : List Nat) (x : Nat) (p : List UInt8), st.mode < bits.length →
      Packed w 8 ds (st.vchRet.map UInt8.toNat) (bits.getD st.mode 0) x → (st.mode ≠ 0 → st.left = x) →
      (∀ c ∈ p.head?, isDigitOf table c = false) →
      (invalid st p = false ↔ bits.getD st.mode 0 < w ∧ x = 0 ∧ endsPadded table (paddingOf group ds.length) p = true)) :
    Decodes w group table fun p =>
      let (st, p) := decodeChars table step ⟨0, 0, []⟩ p.1
      (st.vchRet, invalid st p) := by
  intro p
  simp only [decodeChars_eq]
  have hlt : ∀ d ∈ digitsOf table p.1, d < 2 ^ w := by
    intro d hd
    obtain ⟨c, hc, rfl⟩ := List.mem_map.mp hd
    exact (h.char_table c (List.mem_takeWhile_imp hc)).1
  have hstart : DecodeState w bits ⟨0, 0, []⟩ [] := ⟨hbits.1, 0, by rw [hbits.2.1]; exact .nil, fun h => absurd rfl h⟩
  obtain ⟨hmode, x, hpacked, hleft⟩ := DecodeState.foldl hstep _ hlt hstart
  have hhead : ∀ c ∈ (p.1.dropWhile (isDigitOf table)).head?, isDigitOf table c = false := by
    intro c hc
    have hnot := List.head?_dropWhile_not (isDigitOf table) p.1
    rw [Option.mem_def.mp hc] at hnot
    simpa using hnot
  refine ⟨_, x, ?_, hpacked, hinvalid _ _ x _ hmode hpacked hleft hhead⟩
  rw [List.getD_eq_getElem?_getD, List.getElem?_eq_getElem hmode]
  exact hbits.2.2 _ (List.getElem_mem hmode)

end verdict

theorem decodes64 : Decodes 6 4 decode64Table decodeBase64 := by
  refine decodes_of_modes alphabet64 ⟨by decide, rfl, by decide⟩ decode64_step fun st ds x p hmode hpacked hleft hhead => ?_
  obtain ⟨mode, left, vchRet⟩ := st
  have hbits := hpacked.bits
  match mode, hmode with
  | 0, _ =>
    obtain rfl : x = 0 := Nat.lt_one_iff.mp hpacked.pending_lt
    have hbits : 6 * ds.length = 8 * (vchRet.map UInt8.toNat).length + 0 := hbits
    rw [@paddingOf_eq 4 ds.length 0 (by omega) (by omega), endsPadded_zero alphabet64.zero hhead]
    exact iff_of_true rfl ⟨(by decide : 0 < 6), rfl, rfl⟩
  | 1, _ => exact verdict_impossible (by decide : 6 ≤ 6)
  | 2, _ =>
    obtain rfl := hleft (Nat.succ_ne_zero _)
    have hbits : 6 * ds.length = 8 * (vchRet.map UInt8.toNat).length + 4 := hbits
    exact verdict_padded (by decide : 4 < 6) (paddingOf_eq (by omega) (by omega))
  | 3, _ =>
    obtain rfl := hleft (Nat.succ_ne_zero _)
    have hbits : 6 * ds.length = 8 * (vchRet.map UInt8.toNat).length + 2 := hbits
    exact verdict_padded (by decide : 2 < 6) (paddingOf_eq (by omega) (by omega))

theorem decodes32 : Decodes 5 8 decode32Table decodeBase32 := by
  refine decodes_of_modes alphabet32 ⟨by decide, rfl, by decide⟩ decode32_step fun st ds x p hmode hpacked hleft hhead => ?_
  obtain ⟨mode, left, vchRet⟩ := st
  have hbits := hpacked.bits
  match mode, hmode with
  | 0, _ =>
    obtain rfl : x = 0 := Nat.lt_one_iff.mp hpacked.pending_lt
    have hbits : 5 * ds.length = 8 * (vchRet.map UInt8.toNat).length + 0 := hbits
    rw [@paddingOf_eq 8 ds.length 0 (by omega) (by omega), endsPadded_zero alphabet32.zero hhead]
    exact iff_of_true rfl ⟨(by decide : 0 < 5), rfl, rfl⟩
  | 1, _ => exact verdict_impossible (by decide : 5 ≤ 5)
  | 2, _ =>
    obtain rfl := hleft (Nat.succ_ne_zero _)
    have hbits : 5 * ds.length = 8 * (vchRet.map UInt8.toNat).length + 2 := hbits
    exact verdict_padded (by decide : 2 < 5) (paddingOf_eq (by omega) (by omega))
  | 3, _ => exact verdict_impossible (by decide : 5 ≤ 7)
  | 4, _ =>
    obtain rfl := hleft (Nat.succ_ne_zero _)
    have hbits : 5 * ds.length = 8 * (vchRet.map UInt8.toNat).length + 4 := hbits
    exact verdict_padded (by decide : 4 < 5) (paddingOf_eq (by omega) (by omega))
  | 5, _ =>
    obtain rfl := hleft (Nat.succ_ne_zero _)
    have hbits : 5 * ds.length = 8 * (vchRet.map UInt8.toNat).length + 1 := hbits
    exact verdict_padded (by decide : 1 < 5) (paddingOf_eq (by omega) (by omega))
  | 6, _ => exact verdict_impossible (by decide : 5 ≤ 6)
  | 7, _ =>
    obtain rfl := hleft (Nat.succ_ne_zero _)
    have hbits : 5 * ds.length = 8 * (vchRet.map UInt8.toNat).length + 3 := hbits
    exact verdict_padded (by decide : 3 < 5) (paddingOf_eq (by omega) (by omega))

/-! ## Both directions -/

theorem encodeBase32_injective : Function.Injective encodeBase32 := by
  intro b b' h
  have hdecode := decode_encode alphabet32 encodes32 decodes32 (by decide) b
  rw [h, decode_encode alphabet32 encodes32 decodes32 (by decide) b'] at hdecode
  exact (congrArg Prod.fst hdecode).symm

/-- Each decoder inverts its encoder, whatever the length of the bytes is. What a decoder accepts is encoded again: the characters of the
alphabet at the beginning of the text, in base 32 as small letters, and the padding that completes the last group. -/
theorem base64_base32_roundTrip :
    (∀ b, decodeBase64 (cStr (encodeBase64 b)) = (b, false) ∧ decodeBase32 (cStr (encodeBase32 b)) = (b, false)) ∧
    (∀ p : CString, (decodeBase64 p).2 = false → acceptedPrefix decode64Table 4 p.1 <+: p.1 ∧
      encodeBase64 (decodeBase64 p).1 = acceptedPrefix decode64Table 4 p.1) ∧
    ∀ p : CString, (decodeBase32 p).2 = false → acceptedPrefix decode32Table 8 p.1 <+: p.1 ∧
      encodeBase32 (decodeBase32 p).1 = (acceptedPrefix decode32Table 8 p.1).map toLower := by
  refine ⟨fun b => ⟨?_, ?_⟩, fun p hp => ?_, fun p hp => ?_⟩
  · exact decode_encode alphabet64 encodes64 decodes64 (by decide) b
  · exact decode_encode alphabet32 encodes32 decodes32 (by decide) b
  · have hencode := encode_decode alphabet64 encodes64 decodes64 hp
    rwa [List.map_id] at hencode
  · exact encode_decode alphabet32 encodes32 decodes32 hp

/-- "aGk=" and "NBUQ====" are read as the same bytes. -/
theorem base64_base32_roundTrip_texts :
    encodeBase64 (decodeBase64 (cStr [97, 71, 107, 61])).1 = acceptedPrefix decode64Table 4 (cStr [97, 71, 107, 61]).1 ∧
    encodeBase32 (decodeBase32 (cStr [78, 66, 85, 81, 61, 61, 61, 61])).1 =
      (acceptedPrefix decode32Table 8 (cStr [78, 66, 85, 81, 61, 61, 61, 61]).1).map toLower :=
  ⟨(base64_base32_roundTrip.2.1 _ (by decide)).2, (base64_base32_roundTrip.2.2 _ (by decide)).2⟩

end DigiWage
