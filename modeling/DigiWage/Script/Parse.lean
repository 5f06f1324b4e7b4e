import DigiWage.Script.Basic

/-!
# Parsing scripts

* `Reads`: the instructions between two places of a script. `Parses`: those of a whole script; a script parses in one way
  (`Parses.unique`).
* `getOpAt`: `GetOp2` on positions, where each access is checked. It never fails, and it reads what `getOp2` reads
  (`getOpAt_eq`), so that `getOp2` stands for it everywhere else.
-/

namespace DigiWage

open Lib

namespace CScript

/-! ## Instructions -/

/-- The instructions between two places of a script. -/
def Reads : List UInt8 → List (UInt8 × Valtype) → List UInt8 → Prop
  | pc, [], rest => pc = rest
  | pc, (opcode, vch) :: ops, rest => ∃ mid, getOp2 pc = some (opcode, vch, mid) ∧ Reads mid ops rest

/-- The instructions of a script that can be read to its end. -/
def Parses (s : CScript) (ops : List (UInt8 × Valtype)) : Prop := Reads s.bytes ops []

variable {pc mid rest : List UInt8} {opcode : UInt8} {vch : Valtype} {ops ops' : List (UInt8 × Valtype)}

theorem Reads.append : ∀ {ops : List (UInt8 × Valtype)} {pc : List UInt8}, Reads pc ops mid → Reads mid ops' rest →
    Reads pc (ops ++ ops') rest
  | [], _, h, h' => by
    cases h
    exact h'
  | (_, _) :: _, _, ⟨next, hread, h⟩, h' => ⟨next, hread, h.append h'⟩

theorem reads_append : ∀ {ops : List (UInt8 × Valtype)} {pc : List UInt8},
    Reads pc (ops ++ ops') rest ↔ ∃ mid, Reads pc ops mid ∧ Reads mid ops' rest
  | [], pc => ⟨fun h => ⟨pc, rfl, h⟩, fun ⟨_, h, h'⟩ => by cases h; exact h'⟩
  | (_, _) :: ops, pc => by
    constructor
    · rintro ⟨next, hread, h⟩
      obtain ⟨mid, h, h'⟩ := reads_append.mp h
      exact ⟨mid, ⟨next, hread, h⟩, h'⟩
    · rintro ⟨mid, h, h'⟩
      exact h.append h'

/-- A script parses in one way. -/
theorem Reads.unique : ∀ {ops ops' : List (UInt8 × Valtype)} {pc : List UInt8}, Reads pc ops [] → Reads pc ops' [] →
    ops = ops'
  | [], [], _, _, _ => rfl
  | [], (_, _) :: _, _, h, ⟨_, hread, _⟩ => by
    cases h
    cases hread
  | (_, _) :: _, [], _, ⟨_, hread, _⟩, h => by
    cases h
    cases hread
  | (_, _) :: ops, (_, _) :: ops', _, ⟨_, hread, h⟩, ⟨_, hread', h'⟩ => by
    rw [hread] at hread'
    cases hread'
    rw [h.unique h']

theorem Parses.unique {s : CScript} (h : Parses s ops) (h' : Parses s ops') : ops = ops' := Reads.unique h h'

theorem suffix_of_pushSize {nSize : Nat} (h : pushSize opcode pc = some (nSize, rest)) : rest <:+ pc := by
  obtain ⟨n, -, rfl⟩ := pushSize_drop h
  exact List.drop_suffix _ _

theorem suffix_of_getOp2 (h : getOp2 pc = some (opcode, vch, rest)) : rest <:+ pc := by
  cases pc with
  | nil => cases h
  | cons b pc =>
    simp only [getOp2] at h
    split at h
    · cases h
      exact List.suffix_cons _ _
    · split at h
      · cases h
      · rename_i nSize mid hsize
        split at h
        · cases h
        · cases h
          exact ((List.drop_suffix _ _).trans (suffix_of_pushSize hsize)).trans (List.suffix_cons _ _)

theorem length_le_of_getOp2 (h : getOp2 pc = some (opcode, vch, rest)) : pc.length ≤ rest.length + vch.length + 5 := by
  cases pc with
  | nil => cases h
  | cons b pc =>
    simp only [getOp2] at h
    split at h
    · cases h
      simp
    · split at h
      · cases h
      · rename_i nSize mid hsize
        have hmid : pc.length ≤ mid.length + 4 := by
          obtain ⟨n, hn, rfl⟩ := pushSize_drop hsize
          rw [List.length_drop]
          omega
        split at h
        · cases h
        · cases h
          rw [List.length_cons, List.length_drop, List.length_take]
          omega

theorem head_of_getOp2 (h : getOp2 pc = some (opcode, vch, rest)) : pc.head? = some opcode := by
  cases pc with
  | nil => cases h
  | cons b pc =>
    simp only [getOp2] at h
    split at h
    · cases h
      rfl
    · split at h
      · cases h
      · split at h
        · cases h
        · cases h
          rfl

theorem getOp2_opcode (h : OP_PUSHDATA4 < opcode) : getOp2 (opcode :: pc) = some (opcode, [], pc) := by
  simp only [getOp2, if_pos h]

theorem eq_cons_of_getOp2 (h : getOp2 pc = some (opcode, vch, rest)) (hop : OP_PUSHDATA4 < opcode) :
    pc = opcode :: rest ∧ vch = [] := by
  have hhead := head_of_getOp2 h
  cases pc with
  | nil => cases h
  | cons b pc =>
    cases hhead
    rw [getOp2_opcode hop] at h
    cases h
    exact ⟨rfl, rfl⟩

/-! ## Pushes -/

theorem foldr_eq_ofLeBytes (l : List UInt8) : l.foldr (fun b n => b.toNat + 256 * n) 0 = ofLeBytes l := by
  induction l with
  | nil => rfl
  | cons b l ih => simp [ofLeBytes, ih]

theorem pushSize_long {n : Nat} {l : List UInt8} (hop : (opcode = OP_PUSHDATA1 ∧ n = 1) ∨
    (opcode = OP_PUSHDATA2 ∧ n = 2) ∨ (opcode = OP_PUSHDATA4 ∧ n = 4)) :
    pushSize opcode l = if l.length < n then none else some (ofLeBytes (l.take n), l.drop n) := by
  simp only [← foldr_eq_ofLeBytes]
  rcases hop with ⟨rfl, rfl⟩ | ⟨rfl, rfl⟩ | ⟨rfl, rfl⟩ <;> rfl

theorem pushSize_data {k : Nat} {opcode : UInt8} {lead rest : List UInt8} (hlead : lead.length = k)
    (hop : (opcode = OP_PUSHDATA1 ∧ k = 1) ∨ (opcode = OP_PUSHDATA2 ∧ k = 2) ∨ (opcode = OP_PUSHDATA4 ∧ k = 4)) :
    pushSize opcode (lead ++ rest) = some (ofLeBytes lead, rest) := by
  have hlong : ¬ (lead ++ rest).length < k := by simp [← hlead]
  rw [pushSize_long hop, if_neg hlong, List.take_left' hlead, List.drop_left' hlead]

theorem getOp2_data {opcode : UInt8} {lead vch rest : List UInt8} (hop : opcode ≤ OP_PUSHDATA4)
    (hsize : pushSize opcode (lead ++ (vch ++ rest)) = some (vch.length, vch ++ rest)) :
    getOp2 (opcode :: (lead ++ (vch ++ rest))) =
      if bytesLeft (vch ++ rest) < vch.length then none else some (opcode, vch, rest) := by
  rw [getOp2, if_neg (UInt8.not_lt.mpr hop), hsize]
  simp only [List.take_left, List.drop_left]

theorem getOp2_long {k : Nat} {opcode : UInt8} {vch rest : List UInt8} (hop : opcode ≤ OP_PUSHDATA4)
    (hcase : (opcode = OP_PUSHDATA1 ∧ k = 1) ∨ (opcode = OP_PUSHDATA2 ∧ k = 2) ∨ (opcode = OP_PUSHDATA4 ∧ k = 4))
    (hlen : vch.length < 256 ^ k) : getOp2 (opcode :: (leBytes k vch.length ++ vch) ++ rest) =
      if bytesLeft (vch ++ rest) < vch.length then none else some (opcode, vch, rest) := by
  rw [List.cons_append, List.append_assoc]
  apply getOp2_data hop
  rw [pushSize_data (length_leBytes k vch.length) hcase, ofLeBytes_leBytes_of_lt hlen]

theorem getOp2_direct {vch rest : List UInt8} (hlen : vch.length < OP_PUSHDATA1.toNat) :
    getOp2 (UInt8.ofNat vch.length :: (vch ++ rest)) =
      if bytesLeft (vch ++ rest) < vch.length then none else some (UInt8.ofNat vch.length, vch, rest) := by
  have h1 : OP_PUSHDATA1.toNat = 76 := rfl
  have h4 : OP_PUSHDATA4.toNat = 78 := rfl
  have hnat : (UInt8.ofNat vch.length).toNat = vch.length := UInt8.toNat_ofNat_of_lt' (by change vch.length < 256; omega)
  have hlt : UInt8.ofNat vch.length < OP_PUSHDATA1 := by
    rw [UInt8.lt_iff_toNat_lt, hnat]
    exact hlen
  have hle : UInt8.ofNat vch.length ≤ OP_PUSHDATA4 := by
    rw [UInt8.le_iff_toNat_le, hnat]
    omega
  apply @getOp2_data _ [] vch rest hle
  rw [List.nil_append, pushSize, if_pos hlt, hnat]

theorem getOp2_push {vch : Valtype} (hlen : vch.length < 2 ^ 32) : ∃ opcode ≤ OP_PUSHDATA4, ∀ rest,
    getOp2 (push vch ++ rest) = if bytesLeft (vch ++ rest) < vch.length then none else some (opcode, vch, rest) := by
  unfold push
  split_ifs with h1 h2 h3
  · refine ⟨UInt8.ofNat vch.length, ?_, fun rest => getOp2_direct h1⟩
    have h76 : OP_PUSHDATA1.toNat = 76 := rfl
    have h78 : OP_PUSHDATA4.toNat = 78 := rfl
    rw [UInt8.le_iff_toNat_le, UInt8.toNat_ofNat']
    omega
  · exact ⟨_, by decide, fun rest => getOp2_long (k := 1) (by decide) (.inl ⟨rfl, rfl⟩) (by omega)⟩
  · exact ⟨_, by decide, fun rest => getOp2_long (k := 2) (by decide) (.inr (.inl ⟨rfl, rfl⟩)) (by omega)⟩
  · exact ⟨_, by decide, fun rest => getOp2_long (k := 4) (by decide) (.inr (.inr ⟨rfl, rfl⟩)) (by omega)⟩

/-! ## Positions -/

/-- The bytes from one position on, `n` of them; `none` where the script is not that long. -/
def bytesAt (s : List UInt8) (pc n : Nat) : Option (List UInt8) :=
  if pc + n ≤ s.length then some ((s.drop pc).take n) else none

/-- The end of `GetOp2` for a push of `nSize` bytes. -/
def readData (s : List UInt8) (opcode : UInt8) (nSize pc : Nat) : Option (Bool × UInt8 × Valtype × Nat) :=
  if (s.length - pc) % 2 ^ 32 < nSize then some (false, OP_INVALIDOPCODE, [], pc)
  else (bytesAt s pc nSize).map fun data => (true, opcode, data, pc + nSize)

/-- `CScript::GetOp2` on positions: whether it succeeds, the opcode, the data to push, and the position after it; `none`
where it accesses a byte outside of the script. -/
def getOpAt (s : List UInt8) (pc : Nat) : Option (Bool × UInt8 × Valtype × Nat) :=
  if s.length ≤ pc then some (false, OP_INVALIDOPCODE, [], pc)
  else do
    let opcode ← s[pc]?
    let pc := pc + 1
    if opcode ≤ OP_PUSHDATA4 then
      if opcode < OP_PUSHDATA1 then readData s opcode opcode.toNat pc
      else if opcode = OP_PUSHDATA1 then
        if s.length - pc < 1 then some (false, OP_INVALIDOPCODE, [], pc)
        else do
          let nSize ← s[pc]?
          readData s opcode nSize.toNat (pc + 1)
      else if opcode = OP_PUSHDATA2 then
        if s.length - pc < 2 then some (false, OP_INVALIDOPCODE, [], pc)
        else do
          let nSize ← bytesAt s pc 2
          readData s opcode (ofLeBytes nSize) (pc + 2)
      else
        if s.length - pc < 4 then some (false, OP_INVALIDOPCODE, [], pc)
        else do
          let nSize ← bytesAt s pc 4
          readData s opcode (ofLeBytes nSize) (pc + 4)
    else some (true, opcode, [], pc)

/-- What `getOp2` and `getOp` say, on positions. -/
def readResult (s pc : List UInt8) : Bool × UInt8 × Valtype × Nat :=
  match getOp2 pc with
  | some (opcode, vch, rest) => (true, opcode, vch, s.length - rest.length)
  | none => (false, OP_INVALIDOPCODE, [], s.length - (getOp pc).2.length)

theorem bytesAt_drop {s : List UInt8} {i n : Nat} (h : ¬ s.length - i < n) (hi : i ≤ s.length) :
    bytesAt s i n = some ((s.drop i).take n) := if_pos (by omega)

theorem readData_eq {s : List UInt8} {nSize i k : Nat} (hk : k ≤ i) (hi : i ≤ s.length)
    (hop : opcode ≤ OP_PUSHDATA4) (hpc : s.drop k = opcode :: pc) (hsize : pushSize opcode pc = some (nSize, s.drop i)) :
    readData s opcode nSize i = some (readResult s (s.drop k)) := by
  unfold readData readResult
  rw [hpc]
  have hleft : bytesLeft (s.drop i) = (s.length - i) % 2 ^ 32 := by rw [bytesLeft, List.length_drop]
  simp only [getOp2, getOp, if_neg (UInt8.not_lt.mpr hop), hsize, hleft]
  by_cases hroom : (s.length - i) % 2 ^ 32 < nSize
  · rw [if_pos hroom, if_pos hroom]
    simp only [if_pos hroom, List.length_drop]
    congr 4
    omega
  · have hbytes : ¬ s.length - i < nSize := by omega
    rw [if_neg hroom, if_neg hroom, bytesAt_drop hbytes hi]
    simp only [Option.map_some, List.drop_drop, List.length_drop]
    congr 4
    omega

theorem readLong_eq {s : List UInt8} {k n : Nat} (hk : k < s.length) (hpc : s.drop k = opcode :: s.drop (k + 1))
    (hle : opcode ≤ OP_PUSHDATA4) (hop : (opcode = OP_PUSHDATA1 ∧ n = 1) ∨ (opcode = OP_PUSHDATA2 ∧ n = 2) ∨
      (opcode = OP_PUSHDATA4 ∧ n = 4)) :
    (if s.length - (k + 1) < n then some (false, OP_INVALIDOPCODE, [], k + 1)
      else (bytesAt s (k + 1) n).bind fun nSize => readData s opcode (ofLeBytes nSize) (k + 1 + n)) =
      some (readResult s (s.drop k)) := by
  have hsize := @pushSize_long opcode n (s.drop (k + 1)) hop
  rw [List.length_drop] at hsize
  by_cases hshort : s.length - (k + 1) < n
  · rw [if_pos hshort] at hsize
    rw [if_pos hshort]
    unfold readResult
    rw [hpc]
    simp only [getOp2, getOp, if_neg (UInt8.not_lt.mpr hle), hsize, List.length_drop]
    congr 4
    omega
  · rw [if_neg hshort, List.drop_drop] at hsize
    rw [if_neg hshort, bytesAt_drop hshort (by omega), Option.bind_some]
    exact readData_eq (by omega) (by omega) hle hpc hsize

theorem getOpAt_eq {s : List UInt8} {k : Nat} (hk : k ≤ s.length) :
    getOpAt s k = some (readResult s (s.drop k)) := by
  unfold getOpAt
  by_cases hend : s.length ≤ k
  · rw [if_pos hend, List.drop_eq_nil_of_le hend]
    have hlast : k = s.length := Nat.le_antisymm hk hend
    rw [hlast]
    rfl
  rw [if_neg hend]
  have hlt : k < s.length := by omega
  have hpc : s.drop k = s[k] :: s.drop (k + 1) := List.drop_eq_getElem_cons hlt
  rw [List.getElem?_eq_getElem hlt]
  generalize s[k] = opcode at hpc
  simp only [Option.bind_eq_bind, Option.bind_some]
  by_cases hop : opcode ≤ OP_PUSHDATA4
  · rw [if_pos hop]
    by_cases hdirect : opcode < OP_PUSHDATA1
    · rw [if_pos hdirect]
      exact readData_eq (by omega) (by omega) hop hpc (if_pos hdirect)
    rw [if_neg hdirect]
    by_cases h1 : opcode = OP_PUSHDATA1
    · rw [if_pos h1, ← readLong_eq hlt hpc hop (.inl ⟨h1, rfl⟩)]
      by_cases hshort : s.length - (k + 1) < 1
      · rw [if_pos hshort, if_pos hshort]
      · have hnext : k + 1 < s.length := by omega
        have hlead : ofLeBytes ((s.drop (k + 1)).take 1) = s[k + 1].toNat := by
          rw [List.drop_eq_getElem_cons hnext, List.take_succ_cons, List.take_zero, ofLeBytes, ofLeBytes, Nat.mul_zero,
            Nat.add_zero]
        rw [if_neg hshort, if_neg hshort, bytesAt_drop hshort (by omega), List.getElem?_eq_getElem hnext,
          Option.bind_some, Option.bind_some, hlead]
    rw [if_neg h1]
    by_cases h2 : opcode = OP_PUSHDATA2
    · rw [if_pos h2]
      exact readLong_eq hlt hpc hop (.inr (.inl ⟨h2, rfl⟩))
    · rw [if_neg h2]
      have h4 : opcode = OP_PUSHDATA4 := by
        rw [UInt8.le_iff_toNat_le] at hop
        rw [UInt8.lt_iff_toNat_lt] at hdirect
        rw [← UInt8.toNat_inj] at h1 h2 ⊢
        have e1 : OP_PUSHDATA1.toNat = 76 := rfl
        have e2 : OP_PUSHDATA2.toNat = 77 := rfl
        have e4 : OP_PUSHDATA4.toNat = 78 := rfl
        omega
      exact readLong_eq hlt hpc hop (.inr (.inr ⟨h4, rfl⟩))
  · rw [if_neg hop]
    unfold readResult
    rw [hpc, getOp2_opcode (UInt8.not_le.mp hop)]
    simp only [List.length_drop]
    congr 4
    omega

end CScript

end DigiWage
