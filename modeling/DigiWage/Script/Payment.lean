import DigiWage.Script.Standard
import DigiWage.Swift.Locks

/-!
# Normal payments

`CScript::IsNormalPaymentScript` reads opcodes and looks at the first, second, fourth and fifth of them, as far as there
are so many.

* `isNormalPaymentScript_iff`: what it accepts. Besides the payments to a key hash these are scripts of the same size in
  which the push takes in the opcodes behind it, or is not a direct one.
-/

namespace DigiWage

open CScript

namespace CScript

variable {opcode b : UInt8} {vch : Valtype} {pc rest : List UInt8} {fuel i : Nat}

/-- The loop of `IsNormalPaymentScript` at the `i`-th opcode; `none` when the rounds do not suffice. -/
def normalRun : Nat → Nat → List UInt8 → Option Bool
  | 0, _, _ => none
  | _ + 1, _, [] => some true
  | fuel + 1, i, pc =>
    let (opcode, rest) := getOp pc
    if i = 0 ∧ opcode ≠ OP_DUP then some false
    else if i = 1 ∧ opcode ≠ OP_HASH160 then some false
    else if i = 3 ∧ opcode ≠ OP_EQUALVERIFY then some false
    else if i = 4 ∧ opcode ≠ OP_CHECKSIG then some false
    else if i = 5 then some false
    else normalRun fuel (i + 1) rest

theorem normalRun_eq (hi : i ≤ 5) (hfuel : 6 ≤ fuel + i) : normalRun fuel i pc = some (normalLoop fuel i pc) := by
  induction fuel generalizing i pc with
  | zero => omega
  | succ fuel ih =>
    cases pc with
    | nil => rw [normalRun, normalLoop]
    | cons b pc =>
      rw [normalRun, normalLoop]
      · generalize getOp (b :: pc) = read
        obtain ⟨opcode, rest⟩ := read
        simp only
        split
        · rfl
        split
        · rfl
        split
        · rfl
        split
        · rfl
        split
        · rfl
        · exact ih (by omega) (by omega)
      · exact List.cons_ne_nil b pc
      · exact List.cons_ne_nil b pc

/-! ## One round -/

theorem getOp_of_getOp2 (h : getOp2 pc = some (opcode, vch, rest)) : getOp pc = (opcode, rest) := by
  cases pc with
  | nil => cases h
  | cons b pc =>
    simp only [getOp2] at h
    rw [getOp]
    split
    · rename_i hop
      rw [if_pos hop] at h
      cases h
      rfl
    · rename_i hop
      rw [if_neg hop] at h
      split at h
      · cases h
      · split at h
        · cases h
        · rename_i hroom
          cases h
          simp only [if_neg hroom]

theorem length_of_getOp_none (h : getOp2 pc = none) : pc.length ≤ (getOp pc).2.length + 5 := by
  cases pc with
  | nil => simp
  | cons b pc =>
    simp only [getOp2] at h
    rw [getOp]
    split at h
    · cases h
    · rename_i hop
      rw [if_neg hop]
      split at h
      · simp only [List.length_cons]
        omega
      · rename_i nSize mid hsize
        have hmid : pc.length ≤ mid.length + 4 := by
          obtain ⟨n, hn, rfl⟩ := pushSize_drop hsize
          rw [List.length_drop]
          omega
        split at h
        · rename_i hroom
          simp only [if_pos hroom, List.length_cons]
          omega
        · cases h

theorem getOp_eq_iff (hop : OP_PUSHDATA4 < opcode) (hvalid : opcode ≠ OP_INVALIDOPCODE) :
    (getOp pc).1 = opcode ↔ pc = opcode :: (getOp pc).2 := by
  constructor
  · intro h
    cases hread : getOp2 pc with
    | some x =>
      obtain ⟨opcode', vch, rest⟩ := x
      rw [getOp_of_getOp2 hread] at h ⊢
      obtain rfl : opcode' = opcode := h
      exact (eq_cons_of_getOp2 hread hop).1
    | none =>
      exfalso
      cases pc with
      | nil => exact hvalid h.symm
      | cons b pc =>
        simp only [getOp2] at hread
        rw [getOp] at h
        split at hread
        · cases hread
        · rename_i hb
          rw [if_neg hb] at h
          split at hread
          · rename_i hsize
            rw [hsize] at h
            exact hvalid h.symm
          · rename_i nSize mid hsize
            rw [hsize] at h
            split at hread
            · rename_i hroom
              simp only [if_pos hroom] at h
              exact hvalid h.symm
            · cases hread
  · intro h
    rw [h, getOp_of_getOp2 (getOp2_opcode hop)]

theorem normalLoop_checked (hi : (i = 0 ∧ opcode = OP_DUP) ∨ (i = 1 ∧ opcode = OP_HASH160) ∨
    (i = 3 ∧ opcode = OP_EQUALVERIFY) ∨ (i = 4 ∧ opcode = OP_CHECKSIG)) :
    normalLoop (fuel + 1) i pc = true ↔ pc = [] ∨ ∃ rest, pc = opcode :: rest ∧ normalLoop fuel (i + 1) rest = true := by
  cases pc with
  | nil => simp [normalLoop]
  | cons b pc =>
    have hop : OP_PUSHDATA4 < opcode ∧ opcode ≠ OP_INVALIDOPCODE := by
      rcases hi with ⟨-, rfl⟩ | ⟨-, rfl⟩ | ⟨-, rfl⟩ | ⟨-, rfl⟩ <;> decide
    have hround : normalLoop (fuel + 1) i (b :: pc) = true ↔
        (getOp (b :: pc)).1 = opcode ∧ normalLoop fuel (i + 1) (getOp (b :: pc)).2 = true := by
      rw [normalLoop]
      · rcases hi with ⟨rfl, rfl⟩ | ⟨rfl, rfl⟩ | ⟨rfl, rfl⟩ | ⟨rfl, rfl⟩ <;> simp
      · exact List.cons_ne_nil b pc
    rw [hround, getOp_eq_iff hop.1 hop.2]
    constructor
    · rintro ⟨heq, hrest⟩
      exact .inr ⟨_, heq, hrest⟩
    · rintro (hnil | ⟨rest, heq, hrest⟩)
      · cases hnil
      · rw [heq, getOp_of_getOp2 (getOp2_opcode hop.1)]
        exact ⟨rfl, hrest⟩

theorem normalLoop_end : normalLoop 3 3 pc = true ↔
    pc = [] ∨ pc = [OP_EQUALVERIFY] ∨ pc = [OP_EQUALVERIFY, OP_CHECKSIG] := by
  have hlast (l : List UInt8) : normalLoop 1 5 l = true ↔ l = [] := by
    cases l with
    | nil => simp [normalLoop]
    | cons b l => simp [normalLoop]
  rw [normalLoop_checked (.inr (.inr (.inl ⟨rfl, rfl⟩)))]
  simp only [normalLoop_checked (.inr (.inr (.inr ⟨rfl, rfl⟩))), hlast]
  constructor
  · rintro (rfl | ⟨_, rfl, rfl | ⟨_, rfl, rfl⟩⟩)
    · exact .inl rfl
    · exact .inr (.inl rfl)
    · exact .inr (.inr rfl)
  · rintro (rfl | rfl | rfl)
    · exact .inl rfl
    · exact .inr ⟨_, rfl, .inl rfl⟩
    · exact .inr ⟨_, rfl, .inr ⟨_, rfl, rfl⟩⟩

end CScript

/-! ## What is accepted -/

/-- A payment to a key hash, with a direct push of 20 bytes. -/
def IsPayToKeyHash (s : CScript) : Prop :=
  ∃ hash : Valtype, hash.length = 20 ∧
    s.bytes = OP_DUP :: OP_HASH160 :: 0x14 :: (hash ++ [OP_EQUALVERIFY, OP_CHECKSIG])

/-- A script of 25 bytes that begins like a payment to a key hash, and in which the third instruction takes in one of the
opcodes that check the key, or is no direct push. -/
def Swallows (s : CScript) : Prop :=
  s.bytes.length = 25 ∧ ∃ opcode vch left, Reads s.bytes [(OP_DUP, []), (OP_HASH160, []), (opcode, vch)] left ∧
    (left = [] ∨ left = [OP_EQUALVERIFY] ∨ (left = [OP_EQUALVERIFY, OP_CHECKSIG] ∧ opcode ≠ 0x14))

/-- `IsNormalPaymentScript` says what a payment to a key hash is. -/
structure NormalPaymentExact (s : CScript) : Prop where
  ends : normalRun 6 0 s.bytes = some (normalLoop 6 0 s.bytes)
  accepts : s.isNormalPaymentScript = true ↔ IsPayToKeyHash s
  solver : s.isNormalPaymentScript = true ↔ (∃ r, solver s = (true, .TX_PUBKEYHASH, r)) ∧ s.bytes.length = 25

variable {s : CScript} {opcode : UInt8} {vch : Valtype} {pc left : List UInt8}

theorem eq_of_getOp2_twenty (h : getOp2 pc = some (0x14, vch, left)) : vch.length = 20 ∧ pc = 0x14 :: (vch ++ left) := by
  have hhead := head_of_getOp2 h
  cases pc with
  | nil => cases h
  | cons b pc =>
    cases hhead
    have hop : ¬ OP_PUSHDATA4 < (0x14 : UInt8) := by decide
    have hsize : pushSize 0x14 pc = some (20, pc) := rfl
    simp only [getOp2, if_neg hop, hsize] at h
    split at h
    · cases h
    · rename_i hroom
      cases h
      refine ⟨?_, ?_⟩
      · have hleft := bytesLeft_le pc
        rw [List.length_take]
        omega
      · rw [List.take_append_drop]

theorem getOp2_twenty (hlen : vch.length = 20) : getOp2 (0x14 :: (vch ++ [OP_EQUALVERIFY, OP_CHECKSIG])) =
    some (0x14, vch, [OP_EQUALVERIFY, OP_CHECKSIG]) := by
  have hop : ¬ OP_PUSHDATA4 < (0x14 : UInt8) := by decide
  have hsize : pushSize 0x14 (vch ++ [OP_EQUALVERIFY, OP_CHECKSIG]) = some (20, vch ++ [OP_EQUALVERIFY, OP_CHECKSIG]) := rfl
  have hroom : ¬ bytesLeft (vch ++ [OP_EQUALVERIFY, OP_CHECKSIG]) < 20 := by
    rw [bytesLeft, List.length_append, hlen]
    decide
  simp only [getOp2, if_neg hop, hsize, if_neg hroom, List.take_left' hlen, List.drop_left' hlen]

theorem isNormalPaymentScript_reads : s.isNormalPaymentScript = true ↔ s.bytes.length = 25 ∧
    ∃ opcode vch left, Reads s.bytes [(OP_DUP, []), (OP_HASH160, []), (opcode, vch)] left ∧
      (left = [] ∨ left = [OP_EQUALVERIFY] ∨ left = [OP_EQUALVERIFY, OP_CHECKSIG]) := by
  have hdup : OP_PUSHDATA4 < OP_DUP := by decide
  have hhash : OP_PUSHDATA4 < OP_HASH160 := by decide
  simp only [isNormalPaymentScript, Bool.and_eq_true, beq_iff_eq]
  refine and_congr_right fun hlen => ?_
  rw [normalLoop_checked (.inl ⟨rfl, rfl⟩)]
  simp only [normalLoop_checked (.inr (.inl ⟨rfl, rfl⟩))]
  constructor
  · rintro (hnil | ⟨s1, hs, rfl | ⟨s2, rfl, h⟩⟩)
    · rw [hnil] at hlen
      cases hlen
    · rw [hs] at hlen
      cases hlen
    · rw [hs] at hlen
      simp only [List.length_cons] at hlen
      -- the third opcode is not looked at
      have hthird : normalLoop 4 2 s2 = normalLoop 3 3 (getOp s2).2 := by
        cases s2 with
        | nil => cases hlen
        | cons b s2 =>
          rw [normalLoop]
          · simp
          · exact List.cons_ne_nil b s2
      rw [hthird, normalLoop_end] at h
      cases hread : getOp2 s2 with
      | none =>
        have hshort := length_of_getOp_none hread
        rcases h with h | h | h
        · rw [h, List.length_nil] at hshort
          omega
        · rw [h, List.length_cons, List.length_nil] at hshort
          omega
        · rw [h, List.length_cons, List.length_cons, List.length_nil] at hshort
          omega
      | some x =>
        obtain ⟨opcode, vch, left⟩ := x
        rw [getOp_of_getOp2 hread] at h
        rw [hs]
        exact ⟨opcode, vch, left, ⟨_, getOp2_opcode hdup, _, getOp2_opcode hhash, _, hread, rfl⟩, h⟩
  · rintro ⟨opcode, vch, left, ⟨s1, h1, s2, h2, _, h3, rfl⟩, h⟩
    have hs := (eq_cons_of_getOp2 h1 hdup).1
    have hs1 := (eq_cons_of_getOp2 h2 hhash).1
    refine .inr ⟨s1, hs, .inr ⟨s2, hs1, ?_⟩⟩
    have hthird : normalLoop 4 2 s2 = normalLoop 3 3 (getOp s2).2 := by
      cases s2 with
      | nil => cases h3
      | cons b s2 =>
        rw [normalLoop]
        · simp
        · exact List.cons_ne_nil b s2
    rw [hthird, normalLoop_end, getOp_of_getOp2 h3]
    exact h

theorem isNormalPaymentScript_iff : s.isNormalPaymentScript = true ↔ IsPayToKeyHash s ∨ Swallows s := by
  have hdup : OP_PUSHDATA4 < OP_DUP := by decide
  have hhash : OP_PUSHDATA4 < OP_HASH160 := by decide
  rw [isNormalPaymentScript_reads]
  constructor
  · rintro ⟨hlen, opcode, vch, left, hreads, h⟩
    rcases h with h | h | h
    · exact .inr ⟨hlen, opcode, vch, left, hreads, .inl h⟩
    · exact .inr ⟨hlen, opcode, vch, left, hreads, .inr (.inl h)⟩
    · by_cases hop : opcode = 0x14
      · obtain ⟨s1, h1, s2, h2, _, h3, rfl⟩ := hreads
        subst hop h
        obtain ⟨hvch, hs2⟩ := eq_of_getOp2_twenty h3
        refine .inl ⟨vch, hvch, ?_⟩
        rw [(eq_cons_of_getOp2 h1 hdup).1, (eq_cons_of_getOp2 h2 hhash).1, hs2]
      · exact .inr ⟨hlen, opcode, vch, left, hreads, .inr (.inr ⟨h, hop⟩)⟩
  · rintro (⟨hash, hlen, hs⟩ | ⟨hlen, opcode, vch, left, hreads, h⟩)
    · rw [hs]
      exact ⟨by simp [hlen], 0x14, hash, _,
        ⟨_, getOp2_opcode hdup, _, getOp2_opcode hhash, _, getOp2_twenty hlen, rfl⟩, .inr (.inr rfl)⟩
    · refine ⟨hlen, opcode, vch, left, hreads, ?_⟩
      rcases h with h | h | h
      · exact .inl h
      · exact .inr (.inl h)
      · exact .inr (.inr h.1)

theorem IsPayToKeyHash.not_swallows (h : IsPayToKeyHash s) : ¬ Swallows s := by
  have hdup : OP_PUSHDATA4 < OP_DUP := by decide
  have hhash : OP_PUSHDATA4 < OP_HASH160 := by decide
  obtain ⟨hash, hlen, hs⟩ := h
  rintro ⟨-, opcode, vch, left, ⟨s1, h1, s2, h2, _, h3, rfl⟩, h⟩
  rw [hs, getOp2_opcode hdup] at h1
  cases h1
  rw [getOp2_opcode hhash] at h2
  cases h2
  rw [getOp2_twenty hlen] at h3
  cases h3
  rcases h with h | h | ⟨-, h⟩
  · cases h
  · cases h
  · exact h rfl

theorem isPayToKeyHash_iff :
    IsPayToKeyHash s ↔ (∃ r, solver s = (true, .TX_PUBKEYHASH, r)) ∧ s.bytes.length = 25 := by
  have hdup : OP_PUSHDATA4 < OP_DUP := by decide
  have hhash : OP_PUSHDATA4 < OP_HASH160 := by decide
  have hverify : OP_PUSHDATA4 < OP_EQUALVERIFY := by decide
  have hchecksig : OP_PUSHDATA4 < OP_CHECKSIG := by decide
  constructor
  · rintro ⟨hash, hlen, hs⟩
    refine ⟨⟨[hash], solver_pubKeyHash_iff.mpr ⟨hash, ⟨hlen, 0x14, ?_⟩, rfl⟩⟩, ?_⟩
    · rw [Parses, hs]
      exact ⟨_, getOp2_opcode hdup, _, getOp2_opcode hhash, _, getOp2_twenty hlen, _, getOp2_opcode hverify, _,
        getOp2_opcode hchecksig, rfl⟩
    · rw [hs]
      simp [hlen]
  · rintro ⟨⟨r, hr⟩, hlen⟩
    obtain ⟨hash, ⟨hhashlen, opcode, s1, h1, s2, h2, s3, h3, s4, h4, s5, h5, rfl⟩, -⟩ := solver_pubKeyHash_iff.mp hr
    have hs := (eq_cons_of_getOp2 h1 hdup).1
    have hs1 := (eq_cons_of_getOp2 h2 hhash).1
    have hs3 := (eq_cons_of_getOp2 h4 hverify).1
    have hs4 := (eq_cons_of_getOp2 h5 hchecksig).1
    have hne : hash ≠ [] := by
      rintro rfl
      cases hhashlen
    obtain ⟨enc, henc, hs2, -⟩ := mem_pushForms_of_getOp2 h3 hne
    have hbytes : s.bytes = OP_DUP :: OP_HASH160 :: (enc ++ [OP_EQUALVERIFY, OP_CHECKSIG]) := by
      rw [hs, hs1, hs2, hs3, hs4]
    have hsize : enc.length = 21 := by
      rw [hbytes] at hlen
      simp only [List.length_cons, List.length_append, List.length_nil] at hlen
      omega
    rcases length_pushForms hhashlen henc with ⟨rfl, -⟩ | hlong
    · refine ⟨hash, hhashlen, ?_⟩
      rw [hbytes, push_eq hhashlen]
      rfl
    · omega

/-- The test is exact where the third instruction takes in no opcode behind it and is a direct push. -/
theorem normalPaymentExact_iff (s : CScript) : NormalPaymentExact s ↔ ¬ Swallows s := by
  constructor
  · intro h hswallows
    exact (h.accepts.mp (isNormalPaymentScript_iff.mpr (.inr hswallows))).not_swallows hswallows
  · intro h
    have haccepts : s.isNormalPaymentScript = true ↔ IsPayToKeyHash s := by
      rw [isNormalPaymentScript_iff]
      exact or_iff_left h
    exact ⟨normalRun_eq (by omega) (by omega), haccepts, haccepts.trans isPayToKeyHash_iff⟩

/-- `OP_DUP OP_HASH160` and a push of 22 bytes. -/
def swallowingScript : CScript := OP_DUP :: OP_HASH160 :: 0x16 :: List.replicate 22 0

theorem not_normalPaymentExact_swallowingScript : ¬ NormalPaymentExact swallowingScript := by
  intro h
  obtain ⟨hash, -, hs⟩ := h.accepts.mp (by decide)
  have hthird : some (0x16 : UInt8) = some 0x14 := congrArg (fun l => l[2]?) hs
  cases hthird

end DigiWage
