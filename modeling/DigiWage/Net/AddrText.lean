import DigiWage.Base64
import DigiWage.Net.Address

/-!
# The text of an address

`CNetAddr::ToStringIP` and `CService::ToString` of `netbase.cpp`. The numeric form of an address comes from `getnameinfo`.

* `toString_injective`: an address and its port can be read back from the text, as long as `getnameinfo` gives different
  addresses of a family different names.
* `dottedNames` is a `getnameinfo` of that kind.
-/

namespace DigiWage.Net

/-- `getnameinfo` with `NI_NUMERICHOST`, for the address of `GetSockAddr`. It does not fail for an address of the families
that `GetSockAddr` knows, the name consists of hexadecimal digits, points and colons, and says which address it is. -/
structure NumericNames where
  getnameinfo : CNetAddr → Option (List UInt8)
  succeeds : ∀ a, a.isTor = false → (getnameinfo a).isSome = true
  chars : ∀ a name, getnameinfo a = some name → ∀ c ∈ name, 46 ≤ c ∧ c ≤ 58 ∨ 97 ≤ c ∧ c ≤ 102
  inj : ∀ a b, a.isIPv4 = b.isIPv4 → a.isTor = false → b.isTor = false → getnameinfo a = getnameinfo b → a = b

/-- Texts with a separator between them. -/
def joinWith (sep : UInt8) : List (List UInt8) → List UInt8
  | [] => []
  | [s] => s
  | s :: ss => s ++ sep :: joinWith sep ss

/-- `%x`. -/
def hexString (n : Nat) : List UInt8 := (Nat.toDigits 16 n).map fun c => c.val.toUInt8

namespace CNetAddr

variable (names : NumericNames) (a : CNetAddr)

def toStringIP : List UInt8 :=
  -- ".onion"
  if a.isTor then encodeBase32 (a.ip.drop 6) ++ [46, 111, 110, 105, 111, 110]
  else
    match names.getnameinfo a with
    | some name => name
    | none =>
      if a.isIPv4 then joinWith 46 ([3, 2, 1, 0].map fun i => intToString (a.getByte i).toNat)
      else joinWith 58 ([15, 13, 11, 9, 7, 5, 3, 1].map fun i =>
        hexString ((a.getByte i).toNat <<< 8 ||| (a.getByte (i - 1)).toNat))

end CNetAddr

namespace CService

variable (names : NumericNames) (a : CService)

/-- The address of `ToStringIPPort`, in brackets in IPv6. -/
def toStringHost : List UInt8 :=
  if a.isIPv4 || a.isTor then a.toStringIP names else 91 :: a.toStringIP names ++ [93]

def toString : List UInt8 := a.toStringHost names ++ 58 :: intToString a.port.toNat

end CService

/-! ## Reading the text -/

theorem append_cons_inj_of_notMem {α : Type} {c : α} {l l' r r' : List α} (hr : c ∉ r) (hr' : c ∉ r')
    (h : l ++ c :: r = l' ++ c :: r') : l = l' ∧ r = r' := by
  rcases List.append_eq_append_iff.mp h with ⟨m, hl, hm⟩ | ⟨m, hl, hm⟩
  · cases m with
    | nil => exact ⟨by simpa using hl.symm, by simpa using hm⟩
    | cons d m =>
      rw [List.cons_append, List.cons.injEq] at hm
      exact absurd (hm.2 ▸ List.mem_append_right m List.mem_cons_self) hr
  · cases m with
    | nil => exact ⟨by simpa using hl, by simpa using hm.symm⟩
    | cons d m =>
      rw [List.cons_append, List.cons.injEq] at hm
      exact absurd (hm.2 ▸ List.mem_append_right m List.mem_cons_self) hr'

theorem append_cons_inj_of_notMem_left {α : Type} {c : α} {l l' r r' : List α} (hl : c ∉ l) (hl' : c ∉ l')
    (h : l ++ c :: r = l' ++ c :: r') : l = l' ∧ r = r' := by
  have hrev := congrArg List.reverse h
  simp only [List.reverse_append, List.reverse_cons, List.append_assoc, List.singleton_append] at hrev
  obtain ⟨hr, hl⟩ := append_cons_inj_of_notMem (by simpa using hl) (by simpa using hl') hrev
  exact ⟨List.reverse_inj.mp hl, List.reverse_inj.mp hr⟩

theorem joinWith_inj {sep : UInt8} {α : Type} {f : α → List UInt8} (hf : Function.Injective f)
    (hsep : ∀ x, sep ∉ f x) : ∀ {l l' : List α}, l.length = l'.length →
      joinWith sep (l.map f) = joinWith sep (l'.map f) → l = l'
  | [], [], _, _ => rfl
  | [x], [y], _, h => by rw [hf h]
  | x :: x' :: l, y :: y' :: l', hlen, h => by
    obtain ⟨hxy, hrest⟩ := append_cons_inj_of_notMem_left (hsep x) (hsep y) h
    rw [hf hxy, joinWith_inj hf hsep (Nat.succ.inj hlen) hrest]

theorem mem_joinWith {sep c : UInt8} : ∀ {l : List (List UInt8)}, c ∈ joinWith sep l → c = sep ∨ ∃ s ∈ l, c ∈ s
  | [s], h => .inr ⟨s, List.mem_singleton_self s, h⟩
  | s :: s' :: l, h => by
    rcases List.mem_append.mp h with h | h
    · exact .inr ⟨s, List.mem_cons_self, h⟩
    · rcases List.mem_cons.mp h with h | h
      · exact .inl h
      · rcases mem_joinWith h with h | ⟨t, ht, h⟩
        · exact .inl h
        · exact .inr ⟨t, List.mem_cons_of_mem s ht, h⟩

theorem notMem_intToString {n : Int} {c : UInt8} (h₁ : c ≠ 45) (h₂ : c < 48 ∨ 57 < c) : c ∉ intToString n := by
  intro hc
  rcases mem_intToString hc with ⟨-, h⟩ | ⟨hlow, hhigh⟩
  · exact h₁ h
  · rcases h₂ with h₂ | h₂
    · exact absurd hlow (UInt8.not_le.mpr h₂)
    · exact absurd hhigh (UInt8.not_le.mpr h₂)

/-! ## The numeric names -/

namespace CNetAddr

theorem ext_ip {a b : CNetAddr} (h : a.ip = b.ip) : a = b := by
  cases a
  cases b
  cases h
  rfl

theorem isTor_eq_false_of_isIPv4 {a : CNetAddr} (h : a.isIPv4 = true) : a.isTor = false := by
  unfold isIPv4 startsWith pchIPv4 at h
  unfold isTor startsWith pchOnionCat
  have h := eq_of_beq h
  by_contra ht
  have ht := eq_of_beq (Bool.eq_true_of_not_eq_false ht)
  have hhead := congrArg (fun l : List UInt8 => l[0]?) h
  have hhead' := congrArg (fun l : List UInt8 => l[0]?) ht
  simp at hhead hhead'
  rw [hhead] at hhead'
  cases hhead'

variable {names : NumericNames} {a b : CNetAddr}

theorem toStringIP_of_not_isTor (h : a.isTor = false) : names.getnameinfo a = some (a.toStringIP names) := by
  obtain ⟨name, hname⟩ := Option.isSome_iff_exists.mp (names.succeeds a h)
  unfold toStringIP
  rw [h, if_neg (by decide), hname]

theorem toStringIP_chars (h : a.isTor = false) {c : UInt8} (hc : c ∈ a.toStringIP names) :
    46 ≤ c ∧ c ≤ 58 ∨ 97 ≤ c ∧ c ≤ 102 := names.chars a _ (toStringIP_of_not_isTor h) c hc

theorem mem_toStringIP_of_isTor (h : a.isTor = true) : 110 ∈ a.toStringIP names := by
  unfold toStringIP
  rw [if_pos h]
  simp

theorem toStringIP_injective (hfamily : a.isIPv4 = b.isIPv4) (htor : a.isTor = b.isTor)
    (h : a.toStringIP names = b.toStringIP names) : a = b := by
  cases ha : a.isTor with
  | false =>
    have hb : b.isTor = false := htor ▸ ha
    apply names.inj a b hfamily ha hb
    rw [toStringIP_of_not_isTor ha, toStringIP_of_not_isTor hb, h]
  | true =>
    have hb : b.isTor = true := htor ▸ ha
    unfold toStringIP at h
    rw [if_pos ha, if_pos hb] at h
    have htail := encodeBase32_injective (List.append_cancel_right h)
    -- the first six bytes are those of the range
    have hhead : a.ip.take 6 = b.ip.take 6 := (eq_of_beq ha).trans (eq_of_beq hb).symm
    apply ext_ip
    rw [← List.take_append_drop 6 a.ip, ← List.take_append_drop 6 b.ip, hhead, htail]

end CNetAddr

namespace CService

variable {names : NumericNames} {a b : CService}

theorem mem_toStringHost_iff : 110 ∈ a.toStringHost names ↔ a.isTor = true := by
  unfold toStringHost
  cases ht : a.isTor with
  | true => simp [CNetAddr.mem_toStringIP_of_isTor ht]
  | false =>
    have hname : 110 ∉ a.toStringIP names := fun hc => by
      have hrange := CNetAddr.toStringIP_chars ht hc
      revert hrange
      decide
    cases a.isIPv4 with
    | true => simpa using hname
    | false => simpa using hname

theorem mem_toStringHost_bracket_iff (ht : a.isTor = false) : 91 ∈ a.toStringHost names ↔ a.isIPv4 = false := by
  have hname : 91 ∉ a.toStringIP names := fun hc => by
    have hrange := CNetAddr.toStringIP_chars ht hc
    revert hrange
    decide
  unfold toStringHost
  rw [ht]
  cases a.isIPv4 with
  | true => simpa using hname
  | false => simp

theorem toStringHost_injective (h : a.toStringHost names = b.toStringHost names) : a.toCNetAddr = b.toCNetAddr := by
  have htor : a.isTor = b.isTor := by
    have hb : 110 ∈ b.toStringHost names ↔ b.isTor = true := mem_toStringHost_iff
    rw [Bool.eq_iff_iff, ← hb, ← h]
    exact mem_toStringHost_iff.symm
  have hfamily : a.isIPv4 = b.isIPv4 := by
    cases ht : a.isTor with
    | true =>
      have h4 : ∀ c : CService, c.isTor = true → c.isIPv4 = false := by
        intro c hc
        by_contra h4
        rw [CNetAddr.isTor_eq_false_of_isIPv4 (Bool.eq_true_of_not_eq_false h4)] at hc
        cases hc
      rw [h4 a ht, h4 b (htor ▸ ht)]
    | false =>
      have hmem : 91 ∈ a.toStringHost names ↔ a.isIPv4 = false := mem_toStringHost_bracket_iff ht
      rw [h, mem_toStringHost_bracket_iff (htor ▸ ht)] at hmem
      cases ha : a.isIPv4 with
      | true => exact (Bool.eq_true_of_not_eq_false fun hb => by rw [hmem.mp hb] at ha; cases ha).symm
      | false => exact (hmem.mpr ha).symm
  apply CNetAddr.toStringIP_injective hfamily htor
  unfold toStringHost at h
  rw [← hfamily, ← htor] at h
  split at h
  · exact h
  · exact List.append_cancel_right (List.cons.inj h).2

theorem toString_injective (h : a.toString names = b.toString names) : a = b := by
  unfold toString at h
  have hport : ∀ n : Nat, 58 ∉ intToString n := fun n => notMem_intToString (by decide) (by decide)
  obtain ⟨haddr, hport⟩ := append_cons_inj_of_notMem (hport _) (hport _) h
  have haddr := toStringHost_injective haddr
  have hport : a.port = b.port := by
    rw [← UInt16.toNat_inj]
    exact_mod_cast intToString_injective hport
  obtain ⟨a, pa⟩ := a
  obtain ⟨b, pb⟩ := b
  cases haddr
  cases hport
  rfl

end CService

/-! ## Names in decimals -/

/-- A `getnameinfo` that writes an address of IPv4 in decimals with points, and any other in decimals with colons. -/
def dottedName (a : CNetAddr) : List UInt8 :=
  if a.isIPv4 then joinWith 46 ((a.ip.drop 12).map fun b => intToString b.toNat)
  else joinWith 58 (a.ip.map fun b => intToString b.toNat)

theorem byteText_injective : Function.Injective fun b : UInt8 => intToString b.toNat := by
  intro b b' h
  rw [← UInt8.toNat_inj]
  exact_mod_cast intToString_injective h

def dottedNames : NumericNames where
  getnameinfo a := some (dottedName a)
  succeeds _ _ := rfl
  chars a name h c hc := by
    cases h
    have hdigit : ∀ b : UInt8, c ∈ intToString b.toNat → 46 ≤ c ∧ c ≤ 58 ∨ 97 ≤ c ∧ c ≤ 102 := by
      intro b hb
      rcases mem_intToString hb with ⟨hneg, -⟩ | ⟨hlow, hhigh⟩
      · omega
      · exact .inl ⟨UInt8.le_trans (by decide) hlow, UInt8.le_trans hhigh (by decide)⟩
    unfold dottedName at hc
    split at hc
    · rcases mem_joinWith hc with rfl | ⟨s, hs, hc⟩
      · decide
      · obtain ⟨b, -, rfl⟩ := List.mem_map.mp hs
        exact hdigit b hc
    · rcases mem_joinWith hc with rfl | ⟨s, hs, hc⟩
      · decide
      · obtain ⟨b, -, rfl⟩ := List.mem_map.mp hs
        exact hdigit b hc
  inj a b h4 _ _ h := by
    have h := Option.some.inj h
    unfold dottedName at h
    apply CNetAddr.ext_ip
    cases ha : a.isIPv4 with
    | true =>
      have hb : b.isIPv4 = true := h4 ▸ ha
      rw [if_pos ha, if_pos hb] at h
      have hsep : ∀ x : UInt8, (46 : UInt8) ∉ intToString x.toNat := fun _ => notMem_intToString (by decide) (by decide)
      have htail := joinWith_inj byteText_injective hsep (by simp [a.length_ip, b.length_ip]) h
      have hhead : a.ip.take 12 = b.ip.take 12 := (eq_of_beq ha).trans (eq_of_beq hb).symm
      rw [← List.take_append_drop 12 a.ip, ← List.take_append_drop 12 b.ip, hhead, htail]
    | false =>
      have hb : ¬ b.isIPv4 = true := by rw [← h4, ha]; decide
      rw [if_neg (by rw [ha]; decide), if_neg hb] at h
      have hsep : ∀ x : UInt8, (58 : UInt8) ∉ intToString x.toNat := fun _ => notMem_intToString (by decide) (by decide)
      exact joinWith_inj byteText_injective hsep (by rw [a.length_ip, b.length_ip]) h

end DigiWage.Net
