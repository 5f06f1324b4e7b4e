import DigiWage.Script.Delegation
import DigiWage.Script.Parse

/-!
# Delegated outputs, for the wallet and for consensus

`Solver` of `script/standard.cpp` compares a script with templates; the fast test `CScript::IsPayToColdStaking` looks at
six of its bytes.

* A template is matched opcode by opcode (`matchLoop_plain`, `matchLoop_hash`, `matchLoop_nil`). A key hash may be pushed in
  four ways (`pushForms`), so that `solver_coldStake_iff` finds more than the scripts of `GetScriptForStakeDelegation`.
* `isPayToColdStaking_iff`: the fast test also passes scripts that differ from these in one of the bytes that it skips.
-/

namespace DigiWage

open CScript Lib

namespace CScript

def OP_0 : UInt8 := 0x00
def OP_1 : UInt8 := 0x51
def OP_CHECKMULTISIG : UInt8 := 0xae
def OP_SMALLINTEGER : UInt8 := 0xfa
def OP_PUBKEYS : UInt8 := 0xfb
def OP_PUBKEYHASH : UInt8 := 0xfd
def OP_PUBKEY : UInt8 := 0xfe

def decodeOpN (opcode : UInt8) : UInt8 := if opcode = OP_0 then 0 else opcode - (OP_1 - 1)

end CScript

inductive TxnOutType where
  | TX_NONSTANDARD | TX_PUBKEY | TX_PUBKEYHASH | TX_SCRIPTHASH | TX_MULTISIG | TX_NULL_DATA | TX_ZEROCOINMINT
  | TX_COLDSTAKE
deriving DecidableEq, Repr

namespace Solver

/-- The template of a cold-staking script. -/
def coldStakeTemplate : List UInt8 :=
  [OP_DUP, OP_HASH160, OP_ROT, OP_IF, OP_CHECKCOLDSTAKEVERIFY, OP_PUBKEYHASH, OP_ELSE, OP_PUBKEYHASH, OP_ENDIF,
    OP_EQUALVERIFY, OP_CHECKSIG]

/-- `mTemplates`, in the order of the types. -/
def templates : List (TxnOutType × List UInt8) :=
  [(.TX_PUBKEY, [OP_PUBKEY, OP_CHECKSIG]),
   (.TX_PUBKEYHASH, [OP_DUP, OP_HASH160, OP_PUBKEYHASH, OP_EQUALVERIFY, OP_CHECKSIG]),
   (.TX_MULTISIG, [OP_SMALLINTEGER, OP_PUBKEYS, OP_SMALLINTEGER, OP_CHECKMULTISIG]),
   (.TX_COLDSTAKE, coldStakeTemplate)]

/-- The loop for `OP_PUBKEYS`: the place, the opcode and the data that it stops at, and the solutions. -/
def collectKeys : Nat → List UInt8 → UInt8 → Valtype → List Valtype → List UInt8 × UInt8 × Valtype × List Valtype
  | 0, pc1, opcode1, vch1, solutions => (pc1, opcode1, vch1, solutions)
  | fuel + 1, pc1, opcode1, vch1, solutions =>
    if 33 ≤ vch1.length ∧ vch1.length ≤ 65 then
      match getOp2 pc1 with
      | none => ((getOp pc1).2, OP_INVALIDOPCODE, [], solutions ++ [vch1])
      | some (opcode, vch, pc1) => collectKeys fuel pc1 opcode vch (solutions ++ [vch1])
    else (pc1, opcode1, vch1, solutions)

/-- One opcode against one of the template; `none` when they do not match. -/
def matchOpcode (opcode1 : UInt8) (vch1 : Valtype) (opcode2 : UInt8) (vch2 : Valtype) (solutions : List Valtype) :
    Option (List Valtype) :=
  if opcode2 = OP_PUBKEY then
    if vch1.length < 33 ∨ 65 < vch1.length then none else some (solutions ++ [vch1])
  else if opcode2 = OP_PUBKEYHASH then
    if vch1.length ≠ 20 then none else some (solutions ++ [vch1])
  else if opcode2 = OP_SMALLINTEGER then
    if opcode1 = OP_0 ∨ (OP_1 ≤ opcode1 ∧ opcode1 ≤ OP_16) then some (solutions ++ [[decodeOpN opcode1]]) else none
  else if opcode1 ≠ opcode2 ∨ vch1 ≠ vch2 then none
  else some solutions

/-- The comparison with a template. Each round reads an opcode of the template. -/
def matchLoop : Nat → List UInt8 → List UInt8 → List Valtype → Option (List Valtype)
  | 0, _, _, _ => none
  | fuel + 1, pc1, pc2, solutions =>
    if pc1 = [] ∧ pc2 = [] then some solutions
    else
      match getOp2 pc1, getOp2 pc2 with
      | some (opcode1, vch1, pc1), some (opcode2, vch2, pc2) =>
        if opcode2 = OP_PUBKEYS then
          let (pc1, opcode1, vch1, solutions) := collectKeys (pc1.length + 1) pc1 opcode1 vch1 solutions
          match getOp2 pc2 with
          | none => none
          | some (opcode2, vch2, pc2) =>
            match matchOpcode opcode1 vch1 opcode2 vch2 solutions with
            | none => none
            | some solutions => matchLoop fuel pc1 pc2 solutions
        else
          match matchOpcode opcode1 vch1 opcode2 vch2 solutions with
          | none => none
          | some solutions => matchLoop fuel pc1 pc2 solutions
      | _, _ => none

/-- The additional checks for `TX_MULTISIG`. -/
def multisigOk (solutions : List Valtype) : Bool :=
  let m := (solutions.headD []).headD 0
  let n := (solutions.getLastD []).headD 0
  !(decide (m < 1) || decide (n < 1) || decide (n < m) || solutions.length - 2 != n.toNat)

/-- The scan of the templates. -/
def scan (script1 : CScript) : List (TxnOutType × List UInt8) → Bool × TxnOutType × List Valtype
  | [] => (false, .TX_NONSTANDARD, [])
  | (typeRet, script2) :: rest =>
    match matchLoop (script2.length + 1) script1.bytes script2 [] with
    | none => scan script1 rest
    | some solutions => (!(typeRet == .TX_MULTISIG && !multisigOk solutions), typeRet, solutions)

end Solver

/-- `Solver`: what it returns, the type and the solutions. -/
def solver (scriptPubKey : CScript) : Bool × TxnOutType × List Valtype :=
  if scriptPubKey.isPayToScriptHash then (true, .TX_SCRIPTHASH, [CScriptCompressor.slice scriptPubKey 2 20])
  else if scriptPubKey.isZerocoinMint then
    if 150 < scriptPubKey.bytes.length then (false, .TX_ZEROCOINMINT, [])
    else (true, .TX_ZEROCOINMINT, [scriptPubKey.bytes.drop 2])
  else if scriptPubKey.bytes.head? = some OP_RETURN ∧
      isPushOnlyLoop scriptPubKey.bytes.tail.length scriptPubKey.bytes.tail = true then (true, .TX_NULL_DATA, [])
  else Solver.scan scriptPubKey Solver.templates

/-! ## Pushes -/

/-- The ways to push less than 76 bytes. -/
def pushForms (vch : Valtype) : List (List UInt8) :=
  [push vch, OP_PUSHDATA1 :: leBytes 1 vch.length ++ vch, OP_PUSHDATA2 :: leBytes 2 vch.length ++ vch,
    OP_PUSHDATA4 :: leBytes 4 vch.length ++ vch]

theorem length_le_of_mem_pushForms {vch enc : List UInt8} (henc : enc ∈ pushForms vch) :
    enc.length ≤ vch.length + 5 := by
  simp only [pushForms, List.mem_cons, List.not_mem_nil, or_false] at henc
  rcases henc with rfl | rfl | rfl | rfl
  · unfold push
    split_ifs <;> simp only [List.cons_append, List.length_cons, List.length_append, length_leBytes] <;> omega
  all_goals
    simp only [List.cons_append, List.length_cons, List.length_append, length_leBytes]
    omega

theorem getOp2_pushForms {vch enc : List UInt8} (rest : List UInt8) (hlen : vch.length = 20) (henc : enc ∈ pushForms vch)
    (hroom : 20 ≤ bytesLeft (vch ++ rest)) : ∃ opcode, getOp2 (enc ++ rest) = some (opcode, vch, rest) := by
  rw [← hlen] at hroom
  have hdata : ∀ (k : Nat) (opcode : UInt8), opcode ≤ OP_PUSHDATA4 → 20 < 256 ^ k →
      ((opcode = OP_PUSHDATA1 ∧ k = 1) ∨ (opcode = OP_PUSHDATA2 ∧ k = 2) ∨ (opcode = OP_PUSHDATA4 ∧ k = 4)) →
        getOp2 (opcode :: (leBytes k vch.length ++ vch) ++ rest) = some (opcode, vch, rest) := by
    intro k opcode hop hk hcase
    rw [getOp2_long hop hcase (by rwa [hlen]), if_neg (Nat.not_lt.mpr hroom)]
  simp only [pushForms, List.mem_cons, List.not_mem_nil, or_false] at henc
  rcases henc with rfl | rfl | rfl | rfl
  · obtain ⟨opcode, -, hread⟩ := @getOp2_push vch (by omega)
    exact ⟨opcode, by rw [hread, if_neg (Nat.not_lt.mpr hroom)]⟩
  · exact ⟨_, hdata 1 _ (by decide) (by decide) (.inl ⟨rfl, rfl⟩)⟩
  · exact ⟨_, hdata 2 _ (by decide) (by decide) (.inr (.inl ⟨rfl, rfl⟩))⟩
  · exact ⟨_, hdata 4 _ (by decide) (by decide) (.inr (.inr ⟨rfl, rfl⟩))⟩

theorem mem_pushForms_of_getOp2 {pc rest : List UInt8} {opcode : UInt8} {vch : Valtype}
    (h : getOp2 pc = some (opcode, vch, rest)) (hne : vch ≠ []) :
    ∃ enc ∈ pushForms vch, pc = enc ++ rest ∧ vch.length ≤ bytesLeft (vch ++ rest) := by
  cases pc with
  | nil => cases h
  | cons b pc =>
    simp only [getOp2] at h
    split at h
    · cases h
      exact absurd rfl hne
    rename_i hle
    split at h
    · cases h
    rename_i nSize pc' hsize
    split at h
    · cases h
    rename_i hroom
    cases h
    have hlen : (pc'.take nSize).length = nSize := by
      have hleft := bytesLeft_le pc'
      rw [List.length_take]
      omega
    suffices hform : ∃ enc ∈ pushForms (pc'.take nSize), opcode :: pc = enc ++ pc'.drop nSize by
      obtain ⟨enc, henc, hpc⟩ := hform
      rw [List.take_append_drop, hlen]
      exact ⟨enc, henc, hpc, Nat.not_lt.mp hroom⟩
    by_cases hdirect : opcode < OP_PUSHDATA1
    · rw [pushSize, if_pos hdirect] at hsize
      cases hsize
      have hlt : opcode.toNat < OP_PUSHDATA1.toNat := UInt8.lt_iff_toNat_lt.1 hdirect
      refine ⟨_, List.mem_cons_self, ?_⟩
      rw [push, if_pos (by rw [hlen]; exact hlt), hlen, UInt8.ofNat_toNat, List.cons_append, List.take_append_drop]
    · have hform : ∀ k, k ≤ pc.length → nSize = ofLeBytes (pc.take k) → pc' = pc.drop k →
          opcode :: pc = (opcode :: leBytes k (pc'.take nSize).length ++ pc'.take nSize) ++ pc'.drop nSize := by
        intro k hk hn hpc
        have htake : (pc.take k).length = k := by
          rw [List.length_take]
          omega
        have hlead : leBytes k nSize = pc.take k := by
          have hback := leBytes_ofLeBytes (pc.take k)
          rwa [htake, ← hn] at hback
        rw [hlen, hlead, List.append_assoc, List.take_append_drop, hpc, List.cons_append, List.take_append_drop]
      obtain ⟨k, hop⟩ : ∃ k, (opcode = OP_PUSHDATA1 ∧ k = 1) ∨ (opcode = OP_PUSHDATA2 ∧ k = 2) ∨
          (opcode = OP_PUSHDATA4 ∧ k = 4) := by
        rw [UInt8.lt_iff_toNat_lt] at hle hdirect
        have h1 : OP_PUSHDATA1.toNat = 76 := rfl
        have h4 : OP_PUSHDATA4.toNat = 78 := rfl
        have hb : opcode.toNat = 76 ∨ opcode.toNat = 77 ∨ opcode.toNat = 78 := by omega
        rcases hb with hb | hb | hb
        · exact ⟨1, .inl ⟨UInt8.toNat_inj.1 hb, rfl⟩⟩
        · exact ⟨2, .inr (.inl ⟨UInt8.toNat_inj.1 hb, rfl⟩)⟩
        · exact ⟨4, .inr (.inr ⟨UInt8.toNat_inj.1 hb, rfl⟩)⟩
      rw [pushSize_long hop] at hsize
      split at hsize
      · cases hsize
      · cases hsize
        refine ⟨_, ?_, hform k (by omega) rfl rfl⟩
        rcases hop with ⟨rfl, rfl⟩ | ⟨rfl, rfl⟩ | ⟨rfl, rfl⟩ <;> simp [pushForms]

/-! ## Templates -/

namespace Solver

variable {fuel : Nat} {pc1 t : List UInt8} {solutions r : List Valtype}

/-- An opcode of a template that stands for itself. -/
def Plain (opcode : UInt8) : Prop :=
  OP_PUSHDATA4 < opcode ∧ opcode ≠ OP_PUBKEYS ∧ opcode ≠ OP_PUBKEY ∧ opcode ≠ OP_PUBKEYHASH ∧ opcode ≠ OP_SMALLINTEGER

instance (opcode : UInt8) : Decidable (Plain opcode) := inferInstanceAs (Decidable (_ ∧ _ ∧ _ ∧ _ ∧ _))

theorem matchLoop_nil : matchLoop (fuel + 1) pc1 [] solutions = some r ↔ pc1 = [] ∧ solutions = r := by
  unfold matchLoop
  cases pc1 with
  | nil => simp
  | cons b pc1 => simp [getOp2]

theorem matchLoop_cons {opcode2 : UInt8} (hop : OP_PUSHDATA4 < opcode2) (hkeys : opcode2 ≠ OP_PUBKEYS) :
    matchLoop (fuel + 1) pc1 (opcode2 :: t) solutions = some r ↔ ∃ opcode1 vch1 rest solutions',
      getOp2 pc1 = some (opcode1, vch1, rest) ∧ matchOpcode opcode1 vch1 opcode2 [] solutions = some solutions' ∧
        matchLoop fuel rest t solutions' = some r := by
  have hread : getOp2 (opcode2 :: t) = some (opcode2, [], t) := by simp [getOp2, hop]
  rw [matchLoop, if_neg (by simp), hread]
  cases hpc : getOp2 pc1 with
  | none => simp
  | some x =>
    obtain ⟨opcode1, vch1, rest⟩ := x
    cases hmatch : matchOpcode opcode1 vch1 opcode2 [] solutions with
    | none => simp [hkeys, hmatch]
    | some solutions' => simp [hkeys, hmatch]

theorem matchLoop_plain {opcode : UInt8} (h : Plain opcode) :
    matchLoop (fuel + 1) pc1 (opcode :: t) solutions = some r ↔ ∃ rest, pc1 = opcode :: rest ∧
      matchLoop fuel rest t solutions = some r := by
  obtain ⟨hop, hkeys, hkey, hhash, hint⟩ := h
  rw [matchLoop_cons hop hkeys]
  constructor
  · rintro ⟨opcode1, vch1, rest, solutions', hread, hmatch, hrest⟩
    simp only [matchOpcode, if_neg hkey, if_neg hhash, if_neg hint] at hmatch
    split at hmatch
    · cases hmatch
    · rename_i heq
      cases hmatch
      obtain ⟨rfl, rfl⟩ : opcode1 = opcode ∧ vch1 = [] := by simpa [not_or] using heq
      cases pc1 with
      | nil => cases hread
      | cons b pc1 =>
        by_cases hb : OP_PUSHDATA4 < b
        · simp only [getOp2, if_pos hb] at hread
          cases hread
          exact ⟨_, rfl, hrest⟩
        · simp only [getOp2, if_neg hb] at hread
          split at hread
          · cases hread
          · split at hread
            · cases hread
            · simp only [Option.some.injEq, Prod.mk.injEq] at hread
              rw [hread.1] at hb
              exact absurd hop hb
  · rintro ⟨rest, rfl, hrest⟩
    refine ⟨opcode, [], rest, solutions, by simp [getOp2, hop], ?_, hrest⟩
    simp [matchOpcode, hkey, hhash, hint]

theorem matchLoop_hash : matchLoop (fuel + 1) pc1 (OP_PUBKEYHASH :: t) solutions = some r ↔
    ∃ vch enc rest, vch.length = 20 ∧ enc ∈ pushForms vch ∧ pc1 = enc ++ rest ∧ 20 ≤ bytesLeft (vch ++ rest) ∧
      matchLoop fuel rest t (solutions ++ [vch]) = some r := by
  rw [matchLoop_cons (by decide) (by decide)]
  constructor
  · rintro ⟨opcode1, vch1, rest, solutions', hread, hmatch, hrest⟩
    rw [matchOpcode, if_neg (by decide), if_pos rfl] at hmatch
    split at hmatch
    · cases hmatch
    · rename_i hlen
      cases hmatch
      rw [not_not] at hlen
      have hne : vch1 ≠ [] := by
        rintro rfl
        simp at hlen
      obtain ⟨enc, henc, hpc, hroom⟩ := mem_pushForms_of_getOp2 hread hne
      rw [hlen] at hroom
      exact ⟨vch1, enc, rest, hlen, henc, hpc, hroom, hrest⟩
  · rintro ⟨vch, enc, rest, hlen, henc, rfl, hroom, hrest⟩
    obtain ⟨opcode, hread⟩ := getOp2_pushForms rest hlen henc hroom
    refine ⟨opcode, vch, rest, _, hread, ?_, hrest⟩
    rw [matchOpcode, if_neg (by decide), if_pos rfl, if_neg (by simpa using hlen)]

/-- A delegation script with some pushes of its keys. -/
def delegationScript (ea eb : List UInt8) : CScript :=
  OP_DUP :: OP_HASH160 :: OP_ROT :: OP_IF :: OP_CHECKCOLDSTAKEVERIFY :: (ea ++
    OP_ELSE :: (eb ++ [OP_ENDIF, OP_EQUALVERIFY, OP_CHECKSIG]))

theorem matchLoop_coldStake (s : CScript) (r : List Valtype) :
    matchLoop (coldStakeTemplate.length + 1) s.bytes coldStakeTemplate [] = some r ↔
      ∃ a ea b eb, a.length = 20 ∧ ea ∈ pushForms a ∧ b.length = 20 ∧ eb ∈ pushForms b ∧
        s = delegationScript ea eb ∧ r = [a, b] := by
  have hplain : ∀ opcode ∈ [OP_DUP, OP_HASH160, OP_ROT, OP_IF, OP_CHECKCOLDSTAKEVERIFY, OP_ELSE, OP_ENDIF,
      OP_EQUALVERIFY, OP_CHECKSIG], Plain opcode := by decide +kernel
  constructor
  · intro h
    obtain ⟨s₁, hs, h₁⟩ := (matchLoop_plain (hplain OP_DUP (by simp))).1 h
    obtain ⟨s₂, rfl, h₂⟩ := (matchLoop_plain (hplain OP_HASH160 (by simp))).1 h₁
    obtain ⟨s₃, rfl, h₃⟩ := (matchLoop_plain (hplain OP_ROT (by simp))).1 h₂
    obtain ⟨s₄, rfl, h₄⟩ := (matchLoop_plain (hplain OP_IF (by simp))).1 h₃
    obtain ⟨s₅, rfl, h₅⟩ := (matchLoop_plain (hplain OP_CHECKCOLDSTAKEVERIFY (by simp))).1 h₄
    obtain ⟨a, ea, s₆, ha, hea, rfl, -, h₆⟩ := matchLoop_hash.1 h₅
    obtain ⟨s₇, rfl, h₇⟩ := (matchLoop_plain (hplain OP_ELSE (by simp))).1 h₆
    obtain ⟨b, eb, s₈, hb, heb, rfl, -, h₈⟩ := matchLoop_hash.1 h₇
    obtain ⟨s₉, rfl, h₉⟩ := (matchLoop_plain (hplain OP_ENDIF (by simp))).1 h₈
    obtain ⟨s₁₀, rfl, h₁₀⟩ := (matchLoop_plain (hplain OP_EQUALVERIFY (by simp))).1 h₉
    obtain ⟨s₁₁, rfl, h₁₁⟩ := (matchLoop_plain (hplain OP_CHECKSIG (by simp))).1 h₁₀
    obtain ⟨rfl, rfl⟩ := matchLoop_nil.1 h₁₁
    exact ⟨a, ea, b, eb, ha, hea, hb, heb, hs, rfl⟩
  · rintro ⟨a, ea, b, eb, ha, hea, hb, heb, rfl, rfl⟩
    have hroom : ∀ (vch : Valtype) (rest : List UInt8), vch.length = 20 → rest.length ≤ 29 → 20 ≤ bytesLeft (vch ++ rest) := by
      intro vch rest hvch hrest
      rw [bytesLeft_eq] <;> rw [List.length_append] <;> omega
    have hlen := length_le_of_mem_pushForms heb
    rw [hb] at hlen
    apply (matchLoop_plain (hplain OP_DUP (by simp))).2
    refine ⟨_, rfl, (matchLoop_plain (hplain OP_HASH160 (by simp))).2 ?_⟩
    refine ⟨_, rfl, (matchLoop_plain (hplain OP_ROT (by simp))).2 ?_⟩
    refine ⟨_, rfl, (matchLoop_plain (hplain OP_IF (by simp))).2 ?_⟩
    refine ⟨_, rfl, (matchLoop_plain (hplain OP_CHECKCOLDSTAKEVERIFY (by simp))).2 ?_⟩
    refine ⟨_, rfl, matchLoop_hash.2 ⟨a, ea, _, ha, hea, rfl, hroom a _ ha ?_, ?_⟩⟩
    · simp only [List.length_cons, List.length_append, List.length_nil]
      omega
    apply (matchLoop_plain (hplain OP_ELSE (by simp))).2
    refine ⟨_, rfl, matchLoop_hash.2 ⟨b, eb, _, hb, heb, rfl, hroom b _ hb (by decide), ?_⟩⟩
    apply (matchLoop_plain (hplain OP_ENDIF (by simp))).2
    refine ⟨_, rfl, (matchLoop_plain (hplain OP_EQUALVERIFY (by simp))).2 ?_⟩
    refine ⟨_, rfl, (matchLoop_plain (hplain OP_CHECKSIG (by simp))).2 ?_⟩
    exact ⟨_, rfl, matchLoop_nil.2 ⟨rfl, rfl⟩⟩

theorem scan_delegationScript (ea eb : List UInt8) :
    scan (delegationScript ea eb) templates = scan (delegationScript ea eb) [(.TX_COLDSTAKE, coldStakeTemplate)] := rfl

end Solver

theorem solver_coldStake_iff (s : CScript) (r : List Valtype) :
    solver s = (true, .TX_COLDSTAKE, r) ↔ ∃ a ea b eb, a.length = 20 ∧ ea ∈ pushForms a ∧ b.length = 20 ∧
      eb ∈ pushForms b ∧ s = Solver.delegationScript ea eb ∧ r = [a, b] := by
  rw [← Solver.matchLoop_coldStake]
  constructor
  · intro h
    unfold solver at h
    split at h
    · cases h
    split at h
    · split at h
      · cases h
      · cases h
    split at h
    · cases h
    simp only [Solver.scan, Solver.templates] at h
    split at h
    · split at h
      · split at h
        · split at h
          · cases h
          · rename_i hmatch
            cases h
            exact hmatch
        · have htype := congrArg (fun x => x.2.1) h
          cases htype
      · cases h
    · cases h
  · intro h
    obtain ⟨a, ea, b, eb, -, -, -, -, rfl, -⟩ := (Solver.matchLoop_coldStake s r).1 h
    have hp2sh : isPayToScriptHash (Solver.delegationScript ea eb) = false := by
      have hhead : OP_DUP ≠ CScriptCompressor.OP_HASH160 := by decide
      simp [isPayToScriptHash, CScriptCompressor.isToScriptID, Solver.delegationScript, bytes, hhead]
    have hmint : isZerocoinMint (Solver.delegationScript ea eb) = false := by
      have hhead : OP_DUP ≠ OP_ZEROCOINMINT := by decide
      simp [isZerocoinMint, startsWithOpcode, Solver.delegationScript, bytes, hhead]
    have hdata : ¬ ((Solver.delegationScript ea eb).bytes.head? = some OP_RETURN ∧
        isPushOnlyLoop (Solver.delegationScript ea eb).bytes.tail.length (Solver.delegationScript ea eb).bytes.tail =
          true) := by
      have hhead : OP_DUP ≠ OP_RETURN := by decide
      simp [Solver.delegationScript, bytes, hhead]
    rw [solver, hp2sh, hmint, if_neg hdata, Solver.scan_delegationScript]
    simp only [Solver.scan, h]
    rfl

/-! ## The fast test -/

theorem drop_eq_cons {l : List UInt8} {i : Nat} {x : UInt8} (h : l[i]? = some x) : l.drop i = x :: l.drop (i + 1) := by
  obtain ⟨hi, rfl⟩ := List.getElem?_eq_some_iff.1 h
  exact List.drop_eq_getElem_cons hi

/-- The fast test passes, but one of the bytes that it does not look at is wrong. -/
def LookAlike (s : CScript) : Prop :=
  (s.bytes.length = 51 ∧ s.bytes[2]? = some OP_ROT ∧ s.bytes[4]? = some OP_CHECKCOLDSTAKEVERIFY ∧
    s.bytes[5]? = some 0x14 ∧ s.bytes[27]? = some 0x14 ∧ s.bytes[49]? = some OP_EQUALVERIFY ∧
    s.bytes[50]? = some OP_CHECKSIG) ∧
  ¬ (s.bytes[0]? = some OP_DUP ∧ s.bytes[1]? = some OP_HASH160 ∧ s.bytes[3]? = some OP_IF ∧
    s.bytes[26]? = some OP_ELSE ∧ s.bytes[48]? = some OP_ENDIF)

/-- A delegation script in which a key is not pushed directly. -/
def LongPush (s : CScript) : Prop :=
  ∃ a ea b eb, a.length = 20 ∧ ea ∈ pushForms a ∧ b.length = 20 ∧ eb ∈ pushForms b ∧
    s = Solver.delegationScript ea eb ∧ ¬ (ea = push a ∧ eb = push b)

/-- The script of a delegation. -/
def IsDelegation (s : CScript) : Prop := ∃ a b : CKeyID, s = getScriptForStakeDelegation a b

theorem exists_keyID {l : List UInt8} (h : l.length = 20) : ∃ key : CKeyID, key.toByteVector = l := by
  have hlt : ofLeBytes l < 2 ^ 160 := by
    have hbound := ofLeBytes_lt l
    rw [h] at hbound
    exact hbound
  refine ⟨BitVec.ofNat 160 (ofLeBytes l), ?_⟩
  rw [CKeyID.toByteVector, BitVec.toNat_ofNat, Nat.mod_eq_of_lt hlt, ← h]
  exact leBytes_ofLeBytes l

theorem delegationScript_toByteVector (a b : CKeyID) :
    getScriptForStakeDelegation a b = Solver.delegationScript (push a.toByteVector) (push b.toByteVector) := rfl

theorem push_eq {a : Valtype} (h : a.length = 20) : push a = 0x14 :: a := by
  rw [push, h]
  rfl

theorem isPayToColdStaking_iff (s : CScript) : s.isPayToColdStaking = true ↔ IsDelegation s ∨ LookAlike s := by
  constructor
  · intro h
    simp only [isPayToColdStaking, Bool.and_eq_true, beq_iff_eq, and_assoc] at h
    by_cases hskipped : s.bytes[0]? = some OP_DUP ∧ s.bytes[1]? = some OP_HASH160 ∧ s.bytes[3]? = some OP_IF ∧
        s.bytes[26]? = some OP_ELSE ∧ s.bytes[48]? = some OP_ENDIF
    · left
      obtain ⟨hlen, h2, h4, h5, h27, h49, h50⟩ := h
      obtain ⟨h0, h1, h3, h26, h48⟩ := hskipped
      have ha : ((s.bytes.drop 6).take 20).length = 20 := by simp [hlen]
      have hb : ((s.bytes.drop 28).take 20).length = 20 := by simp [hlen]
      obtain ⟨a, ha'⟩ := exists_keyID ha
      obtain ⟨b, hb'⟩ := exists_keyID hb
      refine ⟨a, b, ?_⟩
      rw [delegationScript_toByteVector, ha', hb', push_eq ha, push_eq hb]
      -- the script from byte to byte
      have hend : s.bytes.drop 51 = [] := List.drop_eq_nil_of_le (by omega)
      have hfirst : s.bytes.drop 6 = (s.bytes.drop 6).take 20 ++ OP_ELSE :: 0x14 :: s.bytes.drop 28 := calc
        s.bytes.drop 6 = (s.bytes.drop 6).take 20 ++ s.bytes.drop 26 := by
          rw [← @List.drop_drop _ 20 6, List.take_append_drop]
        _ = (s.bytes.drop 6).take 20 ++ OP_ELSE :: 0x14 :: s.bytes.drop 28 := by
          rw [drop_eq_cons h26, drop_eq_cons h27]
      have hsecond : s.bytes.drop 28 = (s.bytes.drop 28).take 20 ++ [OP_ENDIF, OP_EQUALVERIFY, OP_CHECKSIG] := calc
        s.bytes.drop 28 = (s.bytes.drop 28).take 20 ++ s.bytes.drop 48 := by
          rw [← @List.drop_drop _ 20 28, List.take_append_drop]
        _ = (s.bytes.drop 28).take 20 ++ [OP_ENDIF, OP_EQUALVERIFY, OP_CHECKSIG] := by
          rw [drop_eq_cons h48, drop_eq_cons h49, drop_eq_cons h50, hend]
      have hscript : s.bytes = OP_DUP :: OP_HASH160 :: OP_ROT :: OP_IF :: OP_CHECKCOLDSTAKEVERIFY :: 0x14 ::
          ((s.bytes.drop 6).take 20 ++ OP_ELSE :: 0x14 :: ((s.bytes.drop 28).take 20 ++
            [OP_ENDIF, OP_EQUALVERIFY, OP_CHECKSIG])) := calc
        s.bytes = s.bytes.drop 0 := rfl
        _ = OP_DUP :: OP_HASH160 :: OP_ROT :: OP_IF :: OP_CHECKCOLDSTAKEVERIFY :: 0x14 :: s.bytes.drop 6 := by
          rw [drop_eq_cons h0, drop_eq_cons h1, drop_eq_cons h2, drop_eq_cons h3, drop_eq_cons h4, drop_eq_cons h5]
        _ = _ := by rw [← hsecond, ← hfirst]
      exact hscript
    · exact .inr ⟨h, hskipped⟩
  · rintro (⟨a, b, rfl⟩ | h)
    · exact isPayToColdStaking_delegation a b
    · simp only [isPayToColdStaking, Bool.and_eq_true, beq_iff_eq, and_assoc]
      exact h.1

theorem length_pushForms {vch enc : List UInt8} (hlen : vch.length = 20) (henc : enc ∈ pushForms vch) :
    enc = push vch ∧ enc.length = 21 ∨ 21 < enc.length := by
  simp only [pushForms, List.mem_cons, List.not_mem_nil, or_false] at henc
  rcases henc with rfl | rfl | rfl | rfl
  · exact .inl ⟨rfl, by simp [push_eq hlen, hlen]⟩
  · exact .inr (by simp [hlen])
  · exact .inr (by simp [hlen])
  · exact .inr (by simp [hlen])

theorem LongPush.length {s : CScript} (h : LongPush s) : s.bytes.length ≠ 51 := by
  obtain ⟨a, ea, b, eb, ha, hea, hb, heb, rfl, hlong⟩ := h
  have hlength : (Solver.delegationScript ea eb).bytes.length = ea.length + eb.length + 9 := by
    simp only [Solver.delegationScript, bytes, List.length_cons, List.length_append, List.length_nil]
    omega
  rw [hlength]
  rcases length_pushForms ha hea with ⟨rfl, hla⟩ | hla
  · rcases length_pushForms hb heb with ⟨rfl, hlb⟩ | hlb
    · exact absurd ⟨rfl, rfl⟩ hlong
    · omega
  · rcases length_pushForms hb heb with ⟨rfl, hlb⟩ | hlb
    · omega
    · omega

/-- The fast test, the template and the script of a delegation agree on a script. -/
structure DelegationAgrees (s : CScript) : Prop where
  fast_iff_solver : s.isPayToColdStaking = true ↔ ∃ r, solver s = (true, .TX_COLDSTAKE, r)
  fast_iff_script : s.isPayToColdStaking = true ↔ IsDelegation s
  solutions : ∀ a b : CKeyID, s = getScriptForStakeDelegation a b →
    solver s = (true, .TX_COLDSTAKE, [a.toByteVector, b.toByteVector])

theorem solver_delegation (a b : CKeyID) :
    solver (getScriptForStakeDelegation a b) = (true, .TX_COLDSTAKE, [a.toByteVector, b.toByteVector]) := by
  apply (solver_coldStake_iff _ _).2
  refine ⟨_, push a.toByteVector, _, push b.toByteVector, CKeyID.length_toByteVector a, ?_,
    CKeyID.length_toByteVector b, ?_, rfl, rfl⟩
  · exact List.mem_cons_self
  · exact List.mem_cons_self

/-- The fast test and `Solver` agree exactly on the scripts that do not look alike and push no key in a long way. -/
theorem delegated_iff (s : CScript) : DelegationAgrees s ↔ ¬ LookAlike s ∧ ¬ LongPush s := by
  constructor
  · intro h
    constructor
    · intro hlook
      obtain ⟨a, b, rfl⟩ := h.fast_iff_script.1 ((isPayToColdStaking_iff s).2 (.inr hlook))
      exact hlook.2 ⟨rfl, rfl, rfl, rfl, rfl⟩
    · intro hlong
      have hlength := hlong.length
      obtain ⟨a, ea, b, eb, ha, hea, hb, heb, hs, -⟩ := hlong
      have hfast := h.fast_iff_solver.2 ⟨_, (solver_coldStake_iff s _).2 ⟨a, ea, b, eb, ha, hea, hb, heb, hs, rfl⟩⟩
      simp only [isPayToColdStaking, Bool.and_eq_true, beq_iff_eq, and_assoc] at hfast
      exact hlength hfast.1
  · rintro ⟨hlook, hlong⟩
    have hscript : s.isPayToColdStaking = true ↔ IsDelegation s := by
      rw [isPayToColdStaking_iff]
      exact or_iff_left hlook
    refine ⟨?_, hscript, ?_⟩
    · rw [hscript]
      constructor
      · rintro ⟨a, b, rfl⟩
        exact ⟨_, solver_delegation a b⟩
      · rintro ⟨r, hr⟩
        obtain ⟨a, ea, b, eb, ha, hea, hb, heb, hs, -⟩ := (solver_coldStake_iff s r).1 hr
        have hdirect : ea = push a ∧ eb = push b := by
          by_contra hne
          exact hlong ⟨a, ea, b, eb, ha, hea, hb, heb, hs, hne⟩
        obtain ⟨rfl, rfl⟩ := hdirect
        obtain ⟨key, hkey⟩ := exists_keyID ha
        obtain ⟨key', hkey'⟩ := exists_keyID hb
        exact ⟨key, key', by rw [hs, delegationScript_toByteVector, hkey, hkey']⟩
    · rintro a b rfl
      exact solver_delegation a b

/-- A delegation script with `OP_NOP` for its first opcode. -/
def nopScript : CScript := 0x61 :: (getScriptForStakeDelegation 1 2).bytes.tail

/-- The fast test takes it for a delegation, `Solver` does not. -/
theorem not_delegationAgrees_nopScript : ¬ DelegationAgrees nopScript := by
  intro h
  obtain ⟨r, hr⟩ := h.fast_iff_solver.1 rfl
  have htype : (solver nopScript).2.1 = .TX_COLDSTAKE := by rw [hr]
  revert htype
  decide

end DigiWage
