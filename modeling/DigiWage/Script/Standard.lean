import DigiWage.Script.Solver

/-!
# `Solver`, byte by byte

`Solver`, `ExtractDestination` and `GetScriptForDestination` of `script/standard.cpp` on the positions of a script, with
every access checked.

* `solverAt` has a result, that of `solver`, for every script but the single opcode `OP_ZEROCOINMINT` (`solverAt_eq`,
  `solverAt_mint`): the commitment is taken from the third byte on.
* `matchLoop_pubKey`, `matchLoop_pubKeyHash` and `matchLoop_multisig`: what the templates match, as lists of instructions.
-/

namespace DigiWage

open CScript Lib

namespace Solver

/-! ## Positions -/

/-- The loop for `OP_PUBKEYS` on positions. -/
def collectKeysAt (script1 : List UInt8) : Nat → Nat → UInt8 → Valtype → List Valtype →
    Option (Nat × UInt8 × Valtype × List Valtype)
  | 0, _, _, _, _ => none
  | fuel + 1, pc1, opcode1, vch1, solutions =>
    if 33 ≤ vch1.length ∧ vch1.length ≤ 65 then do
      let (ok, opcode, vch, pc1) ← getOpAt script1 pc1
      if ok then collectKeysAt script1 fuel pc1 opcode vch (solutions ++ [vch1])
      else some (pc1, opcode, vch, solutions ++ [vch1])
    else some (pc1, opcode1, vch1, solutions)

/-- The comparison with a template on positions: `some none` when they do not match, `none` for an access out of range, and
when the rounds do not suffice. -/
def matchAt (script1 script2 : List UInt8) : Nat → Nat → Nat → List Valtype → Option (Option (List Valtype))
  | 0, _, _, _ => none
  | fuel + 1, pc1, pc2, solutions =>
    if pc1 = script1.length ∧ pc2 = script2.length then some (some solutions)
    else do
      let (ok1, opcode1, vch1, pc1) ← getOpAt script1 pc1
      if !ok1 then some none
      else
        let (ok2, opcode2, vch2, pc2) ← getOpAt script2 pc2
        if !ok2 then some none
        else if opcode2 = OP_PUBKEYS then
          let (pc1, opcode1, vch1, solutions) ←
            collectKeysAt script1 (script1.length - pc1 + 1) pc1 opcode1 vch1 solutions
          let (ok2, opcode2, vch2, pc2) ← getOpAt script2 pc2
          if !ok2 then some none
          else
            match matchOpcode opcode1 vch1 opcode2 vch2 solutions with
            | none => some none
            | some solutions => matchAt script1 script2 fuel pc1 pc2 solutions
        else
          match matchOpcode opcode1 vch1 opcode2 vch2 solutions with
          | none => some none
          | some solutions => matchAt script1 script2 fuel pc1 pc2 solutions

/-- The additional checks for `TX_MULTISIG`: `front()[0]` and `back()[0]` are there. -/
def multisigOkAt (solutions : List Valtype) : Option Bool := do
  let front ← solutions.head?
  let back ← solutions.getLast?
  let m ← front[0]?
  let n ← back[0]?
  some (!(decide (m < 1) || decide (n < 1) || decide (n < m) || solutions.length - 2 != n.toNat))

/-- The scan of the templates. -/
def scanAt (script1 : List UInt8) : List (TxnOutType × List UInt8) → Option (Bool × TxnOutType × List Valtype)
  | [] => some (false, .TX_NONSTANDARD, [])
  | (typeRet, script2) :: rest => do
    match ← matchAt script1 script2 (script2.length + 1) 0 0 [] with
    | none => scanAt script1 rest
    | some solutions =>
      if typeRet = .TX_MULTISIG then
        let fOk ← multisigOkAt solutions
        some (fOk, typeRet, solutions)
      else some (true, typeRet, solutions)

/-- `CScript::IsPushOnly` from a position on. -/
def isPushOnlyAt (s : List UInt8) : Nat → Nat → Option Bool
  | 0, pc => if s.length ≤ pc then some true else none
  | fuel + 1, pc =>
    if s.length ≤ pc then some true
    else do
      let (ok, opcode, _, pc) ← getOpAt s pc
      if !ok then some false
      else if OP_16 < opcode then some false
      else isPushOnlyAt s fuel pc

end Solver

/-- `Solver` on positions; `none` where it accesses the script out of range, and where one of its loops does not end. -/
def solverAt (scriptPubKey : CScript) : Option (Bool × TxnOutType × List Valtype) :=
  let s := scriptPubKey.bytes
  if scriptPubKey.isPayToScriptHash then (bytesAt s 2 20).map fun hashBytes => (true, .TX_SCRIPTHASH, [hashBytes])
  else if scriptPubKey.isZerocoinMint then
    if 150 < s.length then some (false, .TX_ZEROCOINMINT, [])
    -- from `begin() + 2` to `end()`: behind a single byte the range would run backwards
    else if s.length < 2 then none
    else some (true, .TX_ZEROCOINMINT, [s.drop 2])
  else do
    let fData ←
      if s.length < 1 then some false
      else do
        let opcode ← s[0]?
        if opcode = OP_RETURN then Solver.isPushOnlyAt s (s.length - 1) 1 else some false
    if fData then some (true, .TX_NULL_DATA, []) else Solver.scanAt s Solver.templates

/-! ## Destinations -/

abbrev CScriptID := BitVec 160

inductive CTxDestination where
  | noDestination
  | keyID (keyID : CKeyID)
  | scriptID (scriptID : CScriptID)
deriving DecidableEq

def getScriptForDestination : CTxDestination → CScript
  | .noDestination => ([] : List UInt8)
  | .keyID keyID => OP_DUP :: OP_HASH160 :: (push keyID.toByteVector ++ [OP_EQUALVERIFY, OP_CHECKSIG])
  | .scriptID scriptID => OP_HASH160 :: (push (CKeyID.toByteVector scriptID) ++ [CScriptCompressor.OP_EQUAL])

/-- `uint160` of a vector, which asserts that it has 20 bytes. -/
def uint160 (vch : Valtype) : Option (BitVec 160) :=
  if vch.length = 20 then some (BitVec.ofNat 160 (ofLeBytes vch)) else none

/-- `CPubKey::GetLen`. -/
def pubKeyLen (chHeader : UInt8) : Nat :=
  if chHeader = 2 ∨ chHeader = 3 then 33
  else if chHeader = 4 ∨ chHeader = 6 ∨ chHeader = 7 then 65
  else 0

/-- `CPubKey::IsValid` of the key that is made of the bytes. -/
def isValidPubKey : Valtype → Bool
  | [] => false
  | b :: vch => pubKeyLen b != 0 && pubKeyLen b == vch.length + 1

/-- `ExtractDestination`: `some none` where it returns false. -/
def extractDestination (scriptPubKey : CScript) (fColdStake : Bool) : Option (Option CTxDestination) := do
  let (fSolved, whichType, vSolutions) ← solverAt scriptPubKey
  if !fSolved then some none
  else
    match whichType with
    | .TX_PUBKEY => do
      let vch ← vSolutions[0]?
      if isValidPubKey vch then (uint160 (hash160 vch)).map fun keyID => some (.keyID keyID) else some none
    | .TX_PUBKEYHASH => do
      let vch ← vSolutions[0]?
      (uint160 vch).map fun keyID => some (.keyID keyID)
    | .TX_SCRIPTHASH => do
      let vch ← vSolutions[0]?
      (uint160 vch).map fun scriptID => some (.scriptID scriptID)
    | .TX_COLDSTAKE => do
      let vch ← vSolutions[if fColdStake then 0 else 1]?
      (uint160 vch).map fun keyID => some (.keyID keyID)
    -- multisig transactions have more than one address
    | _ => some none

/-! ## All accesses are in range -/

namespace Solver

variable {s s' script1 script2 pc pc1 pc2 rest : List UInt8} {opcode opcode1 : UInt8} {vch vch1 : Valtype}
  {solutions r : List Valtype} {fuel : Nat}

/-- The position of a place in a script. -/
def pos (s pc : List UInt8) : Nat := s.length - pc.length

theorem drop_pos (h : pc <:+ s) : s.drop (pos s pc) = pc := (List.suffix_iff_eq_drop.mp h).symm

theorem length_sub_pos (h : pc <:+ s) : s.length - pos s pc = pc.length := by
  have := h.length_le
  unfold pos
  omega

theorem pos_eq_length (h : pc <:+ s) : pos s pc = s.length ↔ pc = [] := by
  rw [← List.length_eq_zero_iff]
  have := h.length_le
  unfold pos
  omega

theorem getOpAt_some (h : pc <:+ s) (hread : getOp2 pc = some (opcode, vch, rest)) :
    getOpAt s (pos s pc) = some (true, opcode, vch, pos s rest) := by
  have hpos : pos s pc ≤ s.length := Nat.sub_le _ _
  rw [getOpAt_eq hpos, drop_pos h, readResult, hread]
  rfl

theorem getOpAt_none (h : pc <:+ s) (hread : getOp2 pc = none) :
    getOpAt s (pos s pc) = some (false, OP_INVALIDOPCODE, [], pos s (getOp pc).2) := by
  have hpos : pos s pc ≤ s.length := Nat.sub_le _ _
  rw [getOpAt_eq hpos, drop_pos h, readResult, hread]
  rfl

theorem suffix_of_getOp (pc : List UInt8) : (getOp pc).2 <:+ pc := by
  cases pc with
  | nil => exact List.suffix_rfl
  | cons b pc =>
    rw [getOp]
    split
    · exact List.suffix_cons b pc
    · split
      · exact List.suffix_cons b pc
      · rename_i nSize mid hsize
        split
        · exact (suffix_of_pushSize hsize).trans (List.suffix_cons b pc)
        · exact ((List.drop_suffix _ _).trans (suffix_of_pushSize hsize)).trans (List.suffix_cons b pc)

theorem collectKeysAt_eq (h : pc <:+ s) (hfuel : pc.length < fuel) :
    (collectKeys fuel pc opcode vch solutions).1 <:+ s ∧
      collectKeysAt s fuel (pos s pc) opcode vch solutions =
        some (pos s (collectKeys fuel pc opcode vch solutions).1, (collectKeys fuel pc opcode vch solutions).2) := by
  induction fuel generalizing pc opcode vch solutions with
  | zero => omega
  | succ fuel ih =>
    rw [collectKeys, collectKeysAt]
    by_cases hkey : 33 ≤ vch.length ∧ vch.length ≤ 65
    · rw [if_pos hkey, if_pos hkey]
      cases hread : getOp2 pc with
      | none =>
        rw [getOpAt_none h hread]
        exact ⟨(suffix_of_getOp pc).trans h, rfl⟩
      | some x =>
        obtain ⟨opcode', vch', rest⟩ := x
        have hlen := length_of_getOp2 hread
        rw [getOpAt_some h hread]
        exact ih ((suffix_of_getOp2 hread).trans h) (by omega)
    · rw [if_neg hkey, if_neg hkey]
      exact ⟨h, rfl⟩

theorem matchAt_eq (h1 : pc1 <:+ script1) (h2 : pc2 <:+ script2) (hfuel : pc2.length < fuel) :
    matchAt script1 script2 fuel (pos script1 pc1) (pos script2 pc2) solutions =
      some (matchLoop fuel pc1 pc2 solutions) := by
  induction fuel generalizing pc1 pc2 solutions with
  | zero => omega
  | succ fuel ih =>
    have hends : (pos script1 pc1 = script1.length ∧ pos script2 pc2 = script2.length) ↔ (pc1 = [] ∧ pc2 = []) :=
      and_congr (pos_eq_length h1) (pos_eq_length h2)
    rw [matchLoop, matchAt]
    by_cases hend : pc1 = [] ∧ pc2 = []
    · rw [if_pos hend, if_pos (hends.mpr hend)]
    rw [if_neg hend, if_neg (mt hends.mp hend)]
    cases hread1 : getOp2 pc1 with
    | none =>
      rw [getOpAt_none h1 hread1]
      rfl
    | some x =>
      obtain ⟨opcode1, vch1, rest1⟩ := x
      have hs1 := (suffix_of_getOp2 hread1).trans h1
      rw [getOpAt_some h1 hread1]
      cases hread2 : getOp2 pc2 with
      | none =>
        simp only [Option.bind_eq_bind, Option.bind_some, getOpAt_none h2 hread2]
        rfl
      | some y =>
        obtain ⟨opcode2, vch2, rest2⟩ := y
        have hs2 := (suffix_of_getOp2 hread2).trans h2
        have hlen2 := length_of_getOp2 hread2
        simp only [Option.bind_eq_bind, Option.bind_some, getOpAt_some h2 hread2, Bool.not_true, Bool.false_eq_true,
          if_false]
        by_cases hkeys : opcode2 = OP_PUBKEYS
        · rw [if_pos hkeys, if_pos hkeys]
          obtain ⟨hs, hcollect⟩ := @collectKeysAt_eq _ _ opcode1 vch1 solutions _ hs1 (Nat.lt_succ_self rest1.length)
          rw [length_sub_pos hs1, hcollect]
          generalize collectKeys (rest1.length + 1) rest1 opcode1 vch1 solutions = c at hs
          obtain ⟨pc1', opcode1', vch1', solutions'⟩ := c
          simp only [Option.bind_some]
          cases hread3 : getOp2 rest2 with
          | none =>
            rw [getOpAt_none hs2 hread3]
            rfl
          | some z =>
            obtain ⟨opcode3, vch3, rest3⟩ := z
            have hlen3 := length_of_getOp2 hread3
            rw [getOpAt_some hs2 hread3]
            simp only [Option.bind_some, Bool.not_true, Bool.false_eq_true, if_false]
            cases matchOpcode opcode1' vch1' opcode3 vch3 solutions' with
            | none => rfl
            | some solutions'' => exact ih hs ((suffix_of_getOp2 hread3).trans hs2) (by omega)
        · rw [if_neg hkeys, if_neg hkeys]
          cases matchOpcode opcode1 vch1 opcode2 vch2 solutions with
          | none => rfl
          | some solutions' => exact ih hs1 hs2 (by omega)

theorem length_le_pos (h : pc <:+ s) : s.length ≤ pos s pc ↔ pc = [] := by
  rw [← pos_eq_length h]
  exact ⟨fun hle => Nat.le_antisymm (Nat.sub_le _ _) hle, fun heq => heq ▸ Nat.le_refl _⟩

theorem isPushOnlyAt_eq (h : pc <:+ s) (hfuel : pc.length ≤ fuel) :
    isPushOnlyAt s fuel (pos s pc) = some (isPushOnlyLoop fuel pc) := by
  induction fuel generalizing pc with
  | zero =>
    obtain rfl : pc = [] := List.length_eq_zero_iff.mp (Nat.le_zero.mp hfuel)
    rw [isPushOnlyAt, if_pos ((length_le_pos h).mpr rfl), isPushOnlyLoop]
  | succ fuel ih =>
    cases pc with
    | nil => rw [isPushOnlyAt, if_pos ((length_le_pos h).mpr rfl), isPushOnlyLoop]
    | cons b pc =>
      rw [isPushOnlyAt, if_neg (mt (length_le_pos h).mp (List.cons_ne_nil b pc)), isPushOnlyLoop]
      · cases hread : getOp2 (b :: pc) with
        | none =>
          rw [getOpAt_none h hread]
          rfl
        | some x =>
          obtain ⟨opcode, vch, rest⟩ := x
          have hs := (suffix_of_getOp2 hread).trans h
          have hlen := length_of_getOp2 hread
          rw [List.length_cons] at hlen hfuel
          rw [getOpAt_some h hread]
          simp only [Option.bind_eq_bind, Option.bind_some, Bool.not_true, Bool.false_eq_true, if_false]
          by_cases hop : OP_16 < opcode
          · rw [if_pos hop, if_pos hop]
          · rw [if_neg hop, if_neg hop]
            exact ih hs (by omega)
      · exact List.cons_ne_nil b pc

/-! ## What the templates match -/

/-- The size of a key. -/
def KeySize (vch : Valtype) : Prop := 33 ≤ vch.length ∧ vch.length ≤ 65

instance (vch : Valtype) : Decidable (KeySize vch) := inferInstanceAs (Decidable (_ ∧ _))

/-- `CScript::EncodeOP_N` of a positive number. -/
def encodeOpN (n : UInt8) : UInt8 := OP_1 + n - 1

theorem matchOpcode_key : matchOpcode opcode vch OP_PUBKEY [] solutions = some r ↔ KeySize vch ∧ r = solutions ++ [vch] := by
  rw [matchOpcode, if_pos rfl]
  unfold KeySize
  split
  · constructor
    · rintro ⟨⟩
    · omega
  · constructor
    · rintro ⟨⟩
      exact ⟨by omega, rfl⟩
    · rintro ⟨-, rfl⟩
      rfl

theorem matchOpcode_hash : matchOpcode opcode vch OP_PUBKEYHASH [] solutions = some r ↔
    vch.length = 20 ∧ r = solutions ++ [vch] := by
  have hne : OP_PUBKEYHASH ≠ OP_PUBKEY := by decide
  rw [matchOpcode, if_neg hne, if_pos rfl]
  split
  · rename_i hlen
    simp [hlen]
  · rename_i hlen
    simp only [not_not.mp hlen, true_and, Option.some.injEq]
    exact eq_comm

theorem matchOpcode_int : matchOpcode opcode vch OP_SMALLINTEGER [] solutions = some r ↔
    (opcode = OP_0 ∨ (OP_1 ≤ opcode ∧ opcode ≤ OP_16)) ∧ r = solutions ++ [[decodeOpN opcode]] := by
  have hne : OP_SMALLINTEGER ≠ OP_PUBKEY := by decide
  have hne' : OP_SMALLINTEGER ≠ OP_PUBKEYHASH := by decide
  rw [matchOpcode, if_neg hne, if_neg hne', if_pos rfl]
  split
  · rename_i hint
    simp only [hint, true_and, Option.some.injEq]
    exact eq_comm
  · rename_i hint
    simp [hint]

theorem matchLoop_read (h : Plain opcode) : matchLoop (fuel + 1) pc1 (opcode :: pc2) solutions = some r ↔
    ∃ rest, getOp2 pc1 = some (opcode, [], rest) ∧ matchLoop fuel rest pc2 solutions = some r := by
  rw [matchLoop_plain h]
  constructor
  · rintro ⟨rest, rfl, hrest⟩
    exact ⟨rest, getOp2_opcode h.1, hrest⟩
  · rintro ⟨rest, hread, hrest⟩
    exact ⟨rest, (eq_cons_of_getOp2 hread h.1).1, hrest⟩

theorem matchLoop_pubKey : matchLoop 3 pc1 [OP_PUBKEY, OP_CHECKSIG] [] = some r ↔
    ∃ opcode key, KeySize key ∧ Reads pc1 [(opcode, key), (OP_CHECKSIG, [])] [] ∧ r = [key] := by
  have hchecksig : Plain OP_CHECKSIG := by decide
  rw [matchLoop_cons (by decide) (by decide)]
  simp only [matchOpcode_key, matchLoop_read hchecksig, matchLoop_nil]
  constructor
  · rintro ⟨opcode, key, rest, _, hread, ⟨hsize, rfl⟩, last, hlast, rfl, rfl⟩
    exact ⟨opcode, key, hsize, ⟨rest, hread, _, hlast, rfl⟩, rfl⟩
  · rintro ⟨opcode, key, hsize, ⟨rest, hread, last, hlast, rfl⟩, rfl⟩
    exact ⟨opcode, key, rest, _, hread, ⟨hsize, rfl⟩, _, hlast, rfl, rfl⟩

theorem matchLoop_pubKeyHash :
    matchLoop 6 pc1 [OP_DUP, OP_HASH160, OP_PUBKEYHASH, OP_EQUALVERIFY, OP_CHECKSIG] [] = some r ↔
      ∃ opcode hash, hash.length = 20 ∧ Reads pc1 [(OP_DUP, []), (OP_HASH160, []), (opcode, hash), (OP_EQUALVERIFY, []),
        (OP_CHECKSIG, [])] [] ∧ r = [hash] := by
  have hdup : Plain OP_DUP := by decide
  have hhash : Plain OP_HASH160 := by decide
  have hverify : Plain OP_EQUALVERIFY := by decide
  have hchecksig : Plain OP_CHECKSIG := by decide
  rw [matchLoop_read hdup]
  simp only [matchLoop_read hhash]
  have hround (pc : List UInt8) := @matchLoop_cons 3 pc [OP_EQUALVERIFY, OP_CHECKSIG] [] r OP_PUBKEYHASH (by decide)
    (by decide)
  simp only [hround, matchOpcode_hash, matchLoop_read hverify, matchLoop_read hchecksig, matchLoop_nil]
  constructor
  · rintro ⟨s1, h1, s2, h2, opcode, hash, s3, _, h3, ⟨hlen, rfl⟩, s4, h4, s5, h5, rfl, rfl⟩
    exact ⟨opcode, hash, hlen, ⟨s1, h1, s2, h2, s3, h3, s4, h4, _, h5, rfl⟩, rfl⟩
  · rintro ⟨opcode, hash, hlen, ⟨s1, h1, s2, h2, s3, h3, s4, h4, s5, h5, rfl⟩, rfl⟩
    exact ⟨s1, h1, s2, h2, opcode, hash, s3, _, h3, ⟨hlen, rfl⟩, s4, h4, _, h5, rfl, rfl⟩

theorem not_reads_of_getOp2 {op : UInt8 × Valtype} {ops ops' : List (UInt8 × Valtype)} (h : getOp2 pc = none) :
    ¬ Reads pc (ops ++ op :: ops') rest := by
  intro hreads
  cases ops with
  | nil =>
    obtain ⟨mid, hread, -⟩ := hreads
    rw [h] at hread
    cases hread
  | cons op' ops =>
    obtain ⟨mid, hread, -⟩ := hreads
    rw [h] at hread
    cases hread

theorem exists_keys_cons {pc0 : List UInt8} {solutions' : List Valtype} (hread : getOp2 pc0 = some (opcode, vch, pc))
    (hkey : KeySize vch) :
    (∃ keys : List (UInt8 × Valtype), (∀ key ∈ keys, KeySize key.2) ∧ ¬ KeySize vch1 ∧
      Reads pc0 (keys ++ [(opcode1, vch1)]) rest ∧ solutions' = solutions ++ keys.map Prod.snd) ↔
    ∃ keys : List (UInt8 × Valtype), (∀ key ∈ keys, KeySize key.2) ∧ ¬ KeySize vch1 ∧
      Reads pc (keys ++ [(opcode1, vch1)]) rest ∧ solutions' = solutions ++ [vch] ++ keys.map Prod.snd := by
  constructor
  · rintro ⟨keys, hsizes, hstop, hreads, rfl⟩
    cases keys with
    | nil =>
      obtain ⟨mid, hread', -⟩ := hreads
      rw [hread] at hread'
      cases hread'
      exact absurd hkey hstop
    | cons key keys =>
      obtain ⟨mid, hread', hreads⟩ := hreads
      rw [hread] at hread'
      cases hread'
      exact ⟨keys, fun k hk => hsizes k (List.mem_cons_of_mem _ hk), hstop, hreads, by simp⟩
  · rintro ⟨keys, hsizes, hstop, hreads, rfl⟩
    refine ⟨(opcode, vch) :: keys, ?_, hstop, ⟨pc, hread, hreads⟩, by simp⟩
    intro k hk
    rcases List.mem_cons.mp hk with rfl | hk
    · exact hkey
    · exact hsizes k hk

theorem collectKeys_iff {pc0 : List UInt8} {solutions' : List Valtype} (hread : getOp2 pc0 = some (opcode, vch, pc))
    (hfuel : pc.length < fuel) (hop : opcode1 ≠ OP_INVALIDOPCODE) :
    collectKeys fuel pc opcode vch solutions = (rest, opcode1, vch1, solutions') ↔
      ∃ keys : List (UInt8 × Valtype), (∀ key ∈ keys, KeySize key.2) ∧ ¬ KeySize vch1 ∧
        Reads pc0 (keys ++ [(opcode1, vch1)]) rest ∧ solutions' = solutions ++ keys.map Prod.snd := by
  induction fuel generalizing pc0 pc opcode vch solutions with
  | zero => omega
  | succ fuel ih =>
    rw [collectKeys]
    by_cases hkey : KeySize vch
    · have hsize : 33 ≤ vch.length ∧ vch.length ≤ 65 := hkey
      rw [if_pos hsize]
      rw [exists_keys_cons hread hkey]
      cases hnext : getOp2 pc with
      | none =>
        constructor
        · rintro ⟨⟩
          exact absurd rfl hop
        · rintro ⟨keys, -, -, hreads, -⟩
          exact absurd hreads (not_reads_of_getOp2 hnext)
      | some x =>
        obtain ⟨opcode', vch', next⟩ := x
        have hlen := length_of_getOp2 hnext
        exact ih hnext (by omega)
    · have hsize : ¬ (33 ≤ vch.length ∧ vch.length ≤ 65) := hkey
      rw [if_neg hsize]
      constructor
      · rintro ⟨⟩
        exact ⟨[], by simp, hkey, ⟨_, hread, rfl⟩, by simp⟩
      · rintro ⟨keys, hsizes, hstop, hreads, rfl⟩
        cases keys with
        | nil =>
          obtain ⟨mid, hread', rfl⟩ := hreads
          rw [hread] at hread'
          cases hread'
          simp
        | cons key keys =>
          obtain ⟨mid, hread', hreads⟩ := hreads
          rw [hread] at hread'
          cases hread'
          exact absurd (hsizes _ List.mem_cons_self) hkey

theorem smallInt_iff {n : UInt8} (hn : 1 ≤ n) : (opcode = OP_0 ∨ (OP_1 ≤ opcode ∧ opcode ≤ OP_16)) ∧
    decodeOpN opcode = n ↔ n ≤ 16 ∧ opcode = encodeOpN n := by
  have h1 : OP_1.toNat = 81 := rfl
  have h16 : OP_16.toNat = 96 := rfl
  have hsub : (OP_1 - 1).toNat = 80 := rfl
  have hone : (1 : UInt8).toNat = 1 := rfl
  rw [UInt8.le_iff_toNat_le, hone] at hn
  have hencode (hle : n.toNat ≤ 16) : (encodeOpN n).toNat = 80 + n.toNat := by
    have hadd : (OP_1 + n).toNat = 81 + n.toNat := by
      rw [UInt8.toNat_add, h1]
      omega
    rw [encodeOpN, UInt8.toNat_sub_of_le _ _ (by rw [UInt8.le_iff_toNat_le, hadd, hone]; omega), hadd, hone]
    omega
  have hle16 : n ≤ 16 ↔ n.toNat ≤ 16 := UInt8.le_iff_toNat_le
  constructor
  · rintro ⟨rfl | ⟨hlo, hhi⟩, hdecode⟩
    · rw [← hdecode] at hn
      exact absurd hn (by decide)
    · rw [UInt8.le_iff_toNat_le] at hlo hhi
      have hne : opcode ≠ OP_0 := by
        rintro rfl
        exact absurd hlo (by decide)
      have hnum : n.toNat = opcode.toNat - 80 := by
        rw [← hdecode, decodeOpN, if_neg hne, UInt8.toNat_sub_of_le _ _ (by rw [UInt8.le_iff_toNat_le]; omega), hsub]
      have hle : n.toNat ≤ 16 := by omega
      refine ⟨hle16.mpr hle, ?_⟩
      rw [← UInt8.toNat_inj, hencode hle]
      omega
  · rintro ⟨hle, rfl⟩
    rw [hle16] at hle
    have hnum := hencode hle
    have hne : encodeOpN n ≠ OP_0 := by
      intro h
      rw [h] at hnum
      exact absurd hnum (by rw [show OP_0.toNat = 0 from rfl]; omega)
    refine ⟨.inr ?_, ?_⟩
    · rw [UInt8.le_iff_toNat_le, UInt8.le_iff_toNat_le]
      omega
    · rw [decodeOpN, if_neg hne, ← UInt8.toNat_inj,
        UInt8.toNat_sub_of_le _ _ (by rw [UInt8.le_iff_toNat_le]; omega), hsub]
      omega

theorem data_of_smallInt (hread : getOp2 pc = some (opcode, vch, rest))
    (h : opcode = OP_0 ∨ (OP_1 ≤ opcode ∧ opcode ≤ OP_16)) : vch = [] := by
  rcases h with rfl | ⟨hlo, -⟩
  · cases pc with
    | nil => cases hread
    | cons b pc =>
      by_cases hb : OP_PUSHDATA4 < b
      · rw [getOp2_opcode hb] at hread
        cases hread
        rfl
      · simp only [getOp2, if_neg hb] at hread
        split at hread
        · cases hread
        · rename_i nSize mid hsize
          split at hread
          · cases hread
          · cases hread
            cases hsize
            exact List.take_zero
  · have hop : OP_PUSHDATA4 < opcode := UInt8.lt_of_lt_of_le (by decide) hlo
    exact (eq_cons_of_getOp2 hread hop).2

theorem valid_of_smallInt (h : opcode = OP_0 ∨ (OP_1 ≤ opcode ∧ opcode ≤ OP_16)) : opcode ≠ OP_INVALIDOPCODE := by
  rintro rfl
  revert h
  decide

theorem matchLoop_pubKeys (m : UInt8) : matchLoop 4 pc1 [OP_PUBKEYS, OP_SMALLINTEGER, OP_CHECKMULTISIG] [[m]] = some r ↔
    ∃ keys opn, (opn = OP_0 ∨ (OP_1 ≤ opn ∧ opn ≤ OP_16)) ∧ (∀ key ∈ keys, KeySize key.2) ∧
      Reads pc1 (keys ++ [(opn, []), (OP_CHECKMULTISIG, [])]) [] ∧ r = [m] :: keys.map Prod.snd ++ [[decodeOpN opn]] := by
  have hlast : Plain OP_CHECKMULTISIG := by decide
  have htemplate : getOp2 [OP_PUBKEYS, OP_SMALLINTEGER, OP_CHECKMULTISIG] =
      some (OP_PUBKEYS, [], [OP_SMALLINTEGER, OP_CHECKMULTISIG]) := rfl
  have htemplate' : getOp2 [OP_SMALLINTEGER, OP_CHECKMULTISIG] = some (OP_SMALLINTEGER, [], [OP_CHECKMULTISIG]) := rfl
  rw [matchLoop, if_neg (by simp), htemplate]
  cases hread : getOp2 pc1 with
  | none =>
    constructor
    · rintro ⟨⟩
    · rintro ⟨keys, opn, -, -, hreads, -⟩
      exact absurd hreads (not_reads_of_getOp2 hread)
  | some x =>
    obtain ⟨opcode, vch, rest⟩ := x
    simp only [if_true, htemplate']
    constructor
    · intro h
      cases hcollect : collectKeys (rest.length + 1) rest opcode vch [[m]] with
      | mk pc c =>
        obtain ⟨opn, vchn, solutions⟩ := c
        rw [hcollect] at h
        simp only at h
        split at h
        · cases h
        · rename_i solutions' hmatch
          obtain ⟨hopn, rfl⟩ := matchOpcode_int.mp hmatch
          obtain ⟨keys, hsizes, -, hreads, rfl⟩ :=
            (collectKeys_iff hread (Nat.lt_succ_self _) (valid_of_smallInt hopn)).mp hcollect
          obtain ⟨mid, hmid, next, hn, rfl⟩ := reads_append.mp hreads
          obtain rfl := data_of_smallInt hn hopn
          obtain ⟨last, hcheck, hend⟩ := (matchLoop_read hlast).mp h
          obtain ⟨rfl, rfl⟩ := matchLoop_nil.mp hend
          exact ⟨keys, opn, hopn, hsizes, reads_append.mpr ⟨mid, hmid, _, hn, _, hcheck, rfl⟩, by simp⟩
    · rintro ⟨keys, opn, hopn, hsizes, hreads, rfl⟩
      obtain ⟨mid, hmid, next, hn, last, hcheck, rfl⟩ := reads_append.mp hreads
      have hstop : ¬ KeySize [] := by decide
      have hcollect := (@collectKeys_iff rest next opcode opn vch [] [[m]] (rest.length + 1) pc1
        ([[m]] ++ keys.map Prod.snd) hread (Nat.lt_succ_self _) (valid_of_smallInt hopn)).mpr
          ⟨keys, hsizes, hstop, reads_append.mpr ⟨mid, hmid, _, hn, rfl⟩, rfl⟩
      rw [hcollect]
      simp only [matchOpcode_int.mpr ⟨hopn, rfl⟩]
      exact (matchLoop_read hlast).mpr ⟨_, hcheck, matchLoop_nil.mpr ⟨rfl, by simp⟩⟩

theorem matchLoop_multisig :
    matchLoop 5 pc1 [OP_SMALLINTEGER, OP_PUBKEYS, OP_SMALLINTEGER, OP_CHECKMULTISIG] [] = some r ↔
      ∃ opm keys opn, (opm = OP_0 ∨ (OP_1 ≤ opm ∧ opm ≤ OP_16)) ∧ (opn = OP_0 ∨ (OP_1 ≤ opn ∧ opn ≤ OP_16)) ∧
        (∀ key ∈ keys, KeySize key.2) ∧ Reads pc1 ((opm, []) :: keys ++ [(opn, []), (OP_CHECKMULTISIG, [])]) [] ∧
        r = [decodeOpN opm] :: keys.map Prod.snd ++ [[decodeOpN opn]] := by
  have hint : OP_PUSHDATA4 < OP_SMALLINTEGER := by decide
  rw [matchLoop_cons hint (by decide)]
  simp only [matchOpcode_int]
  constructor
  · rintro ⟨opm, vchm, rest, _, hm, ⟨hopm, rfl⟩, h⟩
    obtain ⟨keys, opn, hopn, hsizes, hreads, rfl⟩ := (matchLoop_pubKeys _).mp h
    obtain rfl := data_of_smallInt hm hopm
    exact ⟨opm, keys, opn, hopm, hopn, hsizes, ⟨rest, hm, hreads⟩, rfl⟩
  · rintro ⟨opm, keys, opn, hopm, hopn, hsizes, ⟨rest, hm, hreads⟩, rfl⟩
    exact ⟨opm, [], rest, _, hm, ⟨hopm, rfl⟩, (matchLoop_pubKeys _).mpr ⟨keys, opn, hopn, hsizes, hreads, rfl⟩⟩

theorem getLast?_solutions {m n : UInt8} (keys : List Valtype) : ([m] :: (keys ++ [[n]])).getLast? = some [n] := by
  rw [← List.cons_append, List.getLast?_concat]

theorem multisigOkAt_eq {m n : UInt8} (keys : List Valtype) :
    multisigOkAt ([m] :: (keys ++ [[n]])) = some (multisigOk ([m] :: (keys ++ [[n]]))) := by
  simp [multisigOkAt, multisigOk, getLast?_solutions]

theorem multisigOk_iff {m n : UInt8} (keys : List Valtype) :
    multisigOk ([m] :: (keys ++ [[n]])) = true ↔ 1 ≤ m ∧ m ≤ n ∧ keys.length = n.toNat := by
  have hlen : ([m] :: (keys ++ [[n]])).length - 2 = keys.length := by simp
  have hlast : ([m] :: (keys ++ [[n]])).getLastD [] = [n] := by
    rw [List.getLastD_eq_getLast?, getLast?_solutions, Option.getD_some]
  have hchecks : multisigOk ([m] :: (keys ++ [[n]])) =
      !(decide (m < 1) || decide (n < 1) || decide (n < m) || keys.length != n.toNat) := by
    simp only [multisigOk, hlen, hlast, List.headD_cons]
    rfl
  simp only [hchecks, Bool.not_eq_true', Bool.or_eq_false_iff, decide_eq_false_iff_not, UInt8.not_lt,
    bne_eq_false_iff_eq]
  constructor
  · rintro ⟨⟨⟨hm, -⟩, hle⟩, hkeys⟩
    exact ⟨hm, hle, hkeys⟩
  · rintro ⟨hm, hle, hkeys⟩
    exact ⟨⟨⟨hm, UInt8.le_trans hm hle⟩, hle⟩, hkeys⟩

theorem pos_self (s : List UInt8) : pos s s = 0 := Nat.sub_self _

theorem scanAt_eq (s : CScript) : scanAt s.bytes templates = some (scan s templates) := by
  have hmatch (template : List UInt8) : matchAt s.bytes template (template.length + 1) 0 0 [] =
      some (matchLoop (template.length + 1) s.bytes template []) := by
    have h := @matchAt_eq s.bytes template s.bytes template [] (template.length + 1) List.suffix_rfl List.suffix_rfl
      (Nat.lt_succ_self _)
    rwa [pos_self, pos_self] at h
  simp only [templates, scanAt, hmatch, scan, Option.bind_eq_bind, Option.bind_some]
  cases matchLoop ([OP_PUBKEY, OP_CHECKSIG].length + 1) s.bytes [OP_PUBKEY, OP_CHECKSIG] [] with
  | some r => rfl
  | none =>
    simp only
    cases matchLoop ([OP_DUP, OP_HASH160, OP_PUBKEYHASH, OP_EQUALVERIFY, OP_CHECKSIG].length + 1) s.bytes
      [OP_DUP, OP_HASH160, OP_PUBKEYHASH, OP_EQUALVERIFY, OP_CHECKSIG] [] with
    | some r => rfl
    | none =>
      simp only
      cases hmulti : matchLoop ([OP_SMALLINTEGER, OP_PUBKEYS, OP_SMALLINTEGER, OP_CHECKMULTISIG].length + 1) s.bytes
        [OP_SMALLINTEGER, OP_PUBKEYS, OP_SMALLINTEGER, OP_CHECKMULTISIG] [] with
      | some r =>
        obtain ⟨opm, keys, opn, -, -, -, -, rfl⟩ := matchLoop_multisig.mp hmulti
        simp only [List.cons_append, multisigOkAt_eq, if_true, Option.bind_some]
        simp
      | none =>
        simp only
        cases matchLoop (coldStakeTemplate.length + 1) s.bytes coldStakeTemplate [] with
        | some r => rfl
        | none => rfl

end Solver

theorem solverAt_eq {s : CScript} (h : s.bytes ≠ [OP_ZEROCOINMINT]) : solverAt s = some (solver s) := by
  simp only [solverAt, solver]
  by_cases hp2sh : s.isPayToScriptHash = true
  · have hlen : s.bytes.length = 23 := by
      simp only [isPayToScriptHash, CScriptCompressor.isToScriptID] at hp2sh
      split at hp2sh
      · rename_i hform
        exact hform.1
      · cases hp2sh
    rw [if_pos hp2sh, if_pos hp2sh, bytesAt, if_pos (by omega)]
    rfl
  rw [if_neg hp2sh, if_neg hp2sh]
  by_cases hmint : s.isZerocoinMint = true
  · rw [if_pos hmint, if_pos hmint]
    by_cases hlong : 150 < s.bytes.length
    · rw [if_pos hlong, if_pos hlong]
    · have hlen : ¬ s.bytes.length < 2 := by
        intro hshort
        apply h
        simp only [isZerocoinMint, startsWithOpcode, beq_iff_eq] at hmint
        cases hs : s.bytes with
        | nil =>
          rw [hs] at hmint
          cases hmint
        | cons b rest =>
          rw [hs] at hmint hshort
          cases hmint
          rw [List.length_cons] at hshort
          rw [List.length_eq_zero_iff.mp (by omega : rest.length = 0)]
      rw [if_neg hlong, if_neg hlong, if_neg hlen]
  rw [if_neg hmint, if_neg hmint]
  cases hs : s.bytes with
  | nil =>
    have hscan := Solver.scanAt_eq s
    rw [hs] at hscan
    simpa using hscan
  | cons b rest =>
    have hpush := @Solver.isPushOnlyAt_eq (b :: rest) rest rest.length (List.suffix_cons b rest) (Nat.le_refl _)
    have hpos : Solver.pos (b :: rest) rest = 1 := by simp [Solver.pos]
    rw [hpos] at hpush
    have hscan := Solver.scanAt_eq s
    rw [hs] at hscan
    have hsize : ¬ (b :: rest).length < 1 := by simp
    rw [if_neg hsize]
    simp only [List.getElem?_cons_zero, Option.bind_eq_bind, Option.bind_some, List.length_cons, Nat.add_sub_cancel, hpush,
      hscan, List.head?_cons, Option.some.injEq, List.tail_cons]
    by_cases hreturn : b = OP_RETURN
    · rw [if_pos hreturn]
      cases isPushOnlyLoop rest.length rest with
      | true => simp [hreturn]
      | false => simp
    · rw [if_neg hreturn]
      simp [hreturn]

theorem solverAt_mint {s : CScript} (h : s.bytes = [OP_ZEROCOINMINT]) : solverAt s = none := by
  obtain rfl : s = [OP_ZEROCOINMINT] := h
  rfl

/-! ## The classification -/

section Solved

open Solver

variable {s : CScript} {r : List Valtype}

/-- A key and `OP_CHECKSIG`. -/
def IsPubKeyScript (s : CScript) (key : Valtype) : Prop :=
  KeySize key ∧ ∃ opcode, Parses s [(opcode, key), (OP_CHECKSIG, [])]

/-- The hash of a key, between the opcodes that check it. -/
def IsPubKeyHashScript (s : CScript) (hash : Valtype) : Prop :=
  hash.length = 20 ∧ ∃ opcode, Parses s [(OP_DUP, []), (OP_HASH160, []), (opcode, hash), (OP_EQUALVERIFY, []),
    (OP_CHECKSIG, [])]

/-- `m` of `n` keys. -/
def IsMultisigScript (s : CScript) (m : UInt8) (keys : List Valtype) (n : UInt8) : Prop :=
  1 ≤ m ∧ m ≤ n ∧ n ≤ 16 ∧ keys.length = n.toNat ∧ (∀ key ∈ keys, KeySize key) ∧
    ∃ pushes : List (UInt8 × Valtype), pushes.map Prod.snd = keys ∧
      Parses s ((encodeOpN m, []) :: pushes ++ [(encodeOpN n, []), (OP_CHECKMULTISIG, [])])

theorem solver_eq_scan {opcode : UInt8} {vch : Valtype} {rest : List UInt8}
    (hread : getOp2 s.bytes = some (opcode, vch, rest)) (hhash : opcode ≠ OP_HASH160)
    (hmint : opcode ≠ OP_ZEROCOINMINT) (hreturn : opcode ≠ OP_RETURN) : solver s = scan s templates := by
  have hhead := head_of_getOp2 hread
  have hp2sh : s.isPayToScriptHash = false := by
    simp only [isPayToScriptHash, CScriptCompressor.isToScriptID]
    split
    · rename_i hform
      rw [← List.head?_eq_getElem?, hhead, Option.some.injEq] at hform
      exact absurd hform.2.1 hhash
    · rfl
  have hzerocoin : s.isZerocoinMint = false := by simp [isZerocoinMint, startsWithOpcode, hhead, hmint]
  rw [solver, hp2sh, hzerocoin, hhead, if_neg Bool.false_ne_true, if_neg Bool.false_ne_true, if_neg]
  rintro ⟨heq, -⟩
  exact hreturn (Option.some.inj heq)

theorem scan_of_solver {typeRet : TxnOutType} (h : solver s = (true, typeRet, r)) (hhash : typeRet ≠ .TX_SCRIPTHASH)
    (hmint : typeRet ≠ .TX_ZEROCOINMINT) (hdata : typeRet ≠ .TX_NULL_DATA) : scan s templates = (true, typeRet, r) := by
  unfold solver at h
  split at h
  · cases h
    exact absurd rfl hhash
  split at h
  · split at h
    · cases h
    · cases h
      exact absurd rfl hmint
  split at h
  · cases h
    exact absurd rfl hdata
  · exact h

theorem scan_pubKey (h : scan s templates = (true, .TX_PUBKEY, r)) : ∃ key, IsPubKeyScript s key ∧ r = [key] := by
  simp only [scan, templates] at h
  split at h
  · split at h
    · split at h
      · split at h
        · cases h
        · cases h
      · have htype := congrArg (fun x => x.2.1) h
        cases htype
    · cases h
  · rename_i hmatch
    cases h
    obtain ⟨opcode, key, hsize, hreads, rfl⟩ := matchLoop_pubKey.mp hmatch
    exact ⟨key, ⟨hsize, opcode, hreads⟩, rfl⟩

theorem scan_pubKeyHash (h : scan s templates = (true, .TX_PUBKEYHASH, r)) :
    ∃ hash, IsPubKeyHashScript s hash ∧ r = [hash] := by
  simp only [scan, templates] at h
  split at h
  · split at h
    · split at h
      · split at h
        · cases h
        · cases h
      · have htype := congrArg (fun x => x.2.1) h
        cases htype
    · rename_i hmatch
      cases h
      obtain ⟨opcode, hash, hlen, hreads, rfl⟩ := matchLoop_pubKeyHash.mp hmatch
      exact ⟨hash, ⟨hlen, opcode, hreads⟩, rfl⟩
  · cases h

theorem scan_multisig (h : scan s templates = (true, .TX_MULTISIG, r)) :
    ∃ m keys n, IsMultisigScript s m keys n ∧ r = [m] :: keys ++ [[n]] := by
  simp only [scan, templates] at h
  split at h
  · split at h
    · split at h
      · split at h
        · cases h
        · cases h
      · rename_i hmatch
        obtain ⟨opm, pushes, opn, hopm, hopn, hsizes, hreads, rfl⟩ := matchLoop_multisig.mp hmatch
        simp only [Prod.mk.injEq] at h
        obtain ⟨hok, -, rfl⟩ := h
        obtain ⟨hm, hle, hlen⟩ := (multisigOk_iff _).mp (by simpa using hok)
        obtain ⟨-, hopm'⟩ := (smallInt_iff hm).mp ⟨hopm, rfl⟩
        obtain ⟨hn, hopn'⟩ := (smallInt_iff (UInt8.le_trans hm hle)).mp ⟨hopn, rfl⟩
        refine ⟨_, _, _, ⟨hm, hle, hn, hlen, ?_, pushes, rfl, ?_⟩, rfl⟩
        · intro key hkey
          obtain ⟨push, hpush, rfl⟩ := List.mem_map.mp hkey
          exact hsizes push hpush
        · rw [← hopm', ← hopn']
          exact hreads
    · cases h
  · cases h

theorem solver_pubKey_iff : solver s = (true, .TX_PUBKEY, r) ↔ ∃ key, IsPubKeyScript s key ∧ r = [key] := by
  constructor
  · intro h
    exact scan_pubKey (scan_of_solver h (by decide) (by decide) (by decide))
  · rintro ⟨key, ⟨hsize, opcode, hparses⟩, rfl⟩
    obtain ⟨rest, hread, hrest⟩ := id hparses
    have hpush : ¬ OP_PUSHDATA4 < opcode := by
      intro hop
      rw [(eq_cons_of_getOp2 hread hop).2] at hsize
      exact absurd hsize (by decide)
    have hne : ∀ op, OP_PUSHDATA4 < op → opcode ≠ op := by
      rintro op hop rfl
      exact hpush hop
    rw [solver_eq_scan hread (hne _ (by decide)) (hne _ (by decide)) (hne _ (by decide))]
    have hmatch := matchLoop_pubKey.mpr ⟨opcode, key, hsize, hparses, rfl⟩
    simp only [scan, templates, List.length_cons, List.length_nil, hmatch]
    rfl

theorem not_pubKey {ops : List (UInt8 × Valtype)} (hparses : Parses s ops) (hlen : 2 < ops.length) :
    matchLoop 3 s.bytes [OP_PUBKEY, OP_CHECKSIG] [] = none := by
  apply Option.eq_none_iff_forall_not_mem.mpr
  intro r hr
  obtain ⟨opcode, key, -, hreads, -⟩ := matchLoop_pubKey.mp hr
  rw [hparses.unique hreads] at hlen
  exact absurd hlen (Nat.lt_irrefl 2)

theorem solver_pubKeyHash_iff : solver s = (true, .TX_PUBKEYHASH, r) ↔ ∃ hash, IsPubKeyHashScript s hash ∧ r = [hash] := by
  constructor
  · intro h
    exact scan_pubKeyHash (scan_of_solver h (by decide) (by decide) (by decide))
  · rintro ⟨hash, ⟨hlen, opcode, hparses⟩, rfl⟩
    obtain ⟨rest, hread, hrest⟩ := id hparses
    rw [solver_eq_scan hread (by decide) (by decide) (by decide)]
    have hmatch := matchLoop_pubKeyHash.mpr ⟨opcode, hash, hlen, hparses, rfl⟩
    have hkey := not_pubKey hparses (by simp)
    simp only [scan, templates, List.length_cons, List.length_nil, hmatch, hkey]
    rfl

theorem encodeOpN_le {n : UInt8} (hn : 1 ≤ n) (hle : n ≤ 16) : encodeOpN n ≤ OP_16 := by
  rcases ((smallInt_iff hn).mpr ⟨hle, rfl⟩).1 with h | h
  · rw [h]
    decide
  · exact h.2

theorem solver_multisig_iff : solver s = (true, .TX_MULTISIG, r) ↔
    ∃ m keys n, IsMultisigScript s m keys n ∧ r = [m] :: keys ++ [[n]] := by
  constructor
  · intro h
    exact scan_multisig (scan_of_solver h (by decide) (by decide) (by decide))
  · rintro ⟨m, keys, n, ⟨hm, hle, hn, hlen, hsizes, pushes, rfl, hparses⟩, rfl⟩
    obtain ⟨rest, hread, hrest⟩ := id hparses
    have hm16 := encodeOpN_le hm (UInt8.le_trans hle hn)
    have hne : ∀ op, OP_16 < op → encodeOpN m ≠ op := by
      rintro op hop rfl
      exact absurd hm16 (UInt8.not_le.mpr hop)
    rw [solver_eq_scan hread (hne _ (by decide)) (hne _ (by decide)) (hne _ (by decide))]
    have hopm := (smallInt_iff hm).mpr ⟨UInt8.le_trans hle hn, rfl⟩
    have hopn := (smallInt_iff (UInt8.le_trans hm hle)).mpr ⟨hn, rfl⟩
    have hmatch := matchLoop_multisig.mpr ⟨_, pushes, _, hopm.1, hopn.1,
      fun key hkey => hsizes _ (List.mem_map_of_mem hkey), hparses, rfl⟩
    rw [hopm.2, hopn.2] at hmatch
    have hkey := not_pubKey hparses (by simp)
    have hhash : matchLoop 6 s.bytes [OP_DUP, OP_HASH160, OP_PUBKEYHASH, OP_EQUALVERIFY, OP_CHECKSIG] [] = none := by
      apply Option.eq_none_iff_forall_not_mem.mpr
      intro r hr
      obtain ⟨opcode, hash, -, hreads, -⟩ := matchLoop_pubKeyHash.mp hr
      have heads := congrArg List.head? (hparses.unique hreads)
      simp only [List.cons_append, List.head?_cons, Option.some.injEq, Prod.mk.injEq, and_true] at heads
      exact hne _ (by decide) heads
    have hok : multisigOk ([m] :: (pushes.map Prod.snd ++ [[n]])) = true := (multisigOk_iff _).mpr ⟨hm, hle, hlen⟩
    simp only [scan, templates, List.length_cons, List.length_nil, hmatch, hkey, hhash]
    simp [hok]

/-! ## Destinations -/

theorem uint160_toByteVector (key : BitVec 160) : uint160 (CKeyID.toByteVector key) = some key := by
  rw [uint160, if_pos (CKeyID.length_toByteVector key), CKeyID.toByteVector,
    ofLeBytes_leBytes_of_lt (by exact key.isLt), BitVec.ofNat_toNat, BitVec.setWidth_eq]

theorem isPubKeyHashScript_keyID (keyID : CKeyID) :
    IsPubKeyHashScript (getScriptForDestination (.keyID keyID)) keyID.toByteVector := by
  have hlen := CKeyID.length_toByteVector keyID
  have hroom : 20 ≤ bytesLeft (keyID.toByteVector ++ [OP_EQUALVERIFY, OP_CHECKSIG]) := by
    rw [bytesLeft, List.length_append, hlen]
    decide
  obtain ⟨opcode, hread⟩ := @getOp2_pushForms keyID.toByteVector _ [OP_EQUALVERIFY, OP_CHECKSIG] hlen
    List.mem_cons_self hroom
  exact ⟨hlen, opcode, _, rfl, _, rfl, _, hread, _, rfl, _, rfl, rfl⟩

theorem solver_scriptID (scriptID : CScriptID) : solver (getScriptForDestination (.scriptID scriptID)) =
    (true, .TX_SCRIPTHASH, [CKeyID.toByteVector scriptID]) := by
  have hlen := CKeyID.length_toByteVector scriptID
  have hscript : (getScriptForDestination (.scriptID scriptID)).bytes =
      OP_HASH160 :: 0x14 :: (CKeyID.toByteVector scriptID ++ [CScriptCompressor.OP_EQUAL]) := by
    rw [getScriptForDestination, push_eq hlen]
    rfl
  have hp2sh : (getScriptForDestination (.scriptID scriptID)).isPayToScriptHash = true := by
    simp only [isPayToScriptHash, CScriptCompressor.isToScriptID, hscript]
    rw [if_pos]
    · rfl
    · refine ⟨by simp [hlen], rfl, rfl, ?_⟩
      rw [List.getElem?_cons_succ, List.getElem?_cons_succ, List.getElem?_append_right (by omega), hlen]
      rfl
  have hslice : CScriptCompressor.slice (getScriptForDestination (.scriptID scriptID)) 2 20 =
      CKeyID.toByteVector scriptID := by
    have hdrop : (getScriptForDestination (.scriptID scriptID)).bytes.drop 2 =
        CKeyID.toByteVector scriptID ++ [CScriptCompressor.OP_EQUAL] := congrArg (List.drop 2) hscript
    calc (((getScriptForDestination (.scriptID scriptID)).bytes).drop 2).take 20
      _ = (CKeyID.toByteVector scriptID ++ [CScriptCompressor.OP_EQUAL]).take 20 := by rw [hdrop]
      _ = CKeyID.toByteVector scriptID := List.take_left' hlen
  rw [solver, if_pos hp2sh, hslice]

/-- `Solver` and the destinations on a script are what they should be. -/
structure SolverExact (s : CScript) : Prop where
  total : ∃ r, solverAt s = some r
  pubKey : ∀ r, solverAt s = some (true, .TX_PUBKEY, r) ↔ ∃ key, IsPubKeyScript s key ∧ r = [key]
  pubKeyHash : ∀ r, solverAt s = some (true, .TX_PUBKEYHASH, r) ↔ ∃ hash, IsPubKeyHashScript s hash ∧ r = [hash]
  multisig : ∀ r, solverAt s = some (true, .TX_MULTISIG, r) ↔
    ∃ m keys n, IsMultisigScript s m keys n ∧ r = [m] :: keys ++ [[n]]
  keyID : ∀ keyID, s = getScriptForDestination (.keyID keyID) →
    extractDestination s false = some (some (.keyID keyID))
  scriptID : ∀ scriptID, s = getScriptForDestination (.scriptID scriptID) →
    extractDestination s false = some (some (.scriptID scriptID))

/-- `Solver` is exact on every script but the single opcode `OP_ZEROCOINMINT`. -/
theorem solverExact_iff (s : CScript) : SolverExact s ↔ s.bytes ≠ [OP_ZEROCOINMINT] := by
  constructor
  · intro h hs
    obtain ⟨r, hr⟩ := h.total
    rw [solverAt_mint hs] at hr
    cases hr
  · intro hs
    have hsolver := solverAt_eq hs
    refine ⟨⟨_, hsolver⟩, ?_, ?_, ?_, ?_, ?_⟩
    · intro r
      rw [hsolver, Option.some.injEq, solver_pubKey_iff]
    · intro r
      rw [hsolver, Option.some.injEq, solver_pubKeyHash_iff]
    · intro r
      rw [hsolver, Option.some.injEq, solver_multisig_iff]
    · rintro keyID rfl
      have htype := solver_pubKeyHash_iff.mpr ⟨_, isPubKeyHashScript_keyID keyID, rfl⟩
      simp [extractDestination, hsolver, htype, uint160_toByteVector]
    · rintro scriptID rfl
      simp [extractDestination, hsolver, solver_scriptID, uint160_toByteVector]

/-- The single opcode `OP_ZEROCOINMINT`. -/
def mintScript : CScript := [OP_ZEROCOINMINT]

theorem not_solverExact_mintScript : ¬ SolverExact mintScript := by
  intro h
  obtain ⟨r, hr⟩ := h.total
  cases hr

end Solved

end DigiWage
