import DigiWage.BaseUint
import DigiWage.Chain.CompactCode
import DigiWage.Chain.Difficulty

/-!
# The work of a chain

`GetBlockProof` in the arithmetic of `BaseUint`, where a division by zero throws. It never does, and the result is the number of hashes
that the target stands for, `2 ^ 256 / (target + 1)` (`getBlockProof_toNat`). So the work grows along every chain whose blocks have
targets, in every state of a run (`blockProof_work`).
-/

namespace DigiWage

open Lib

/-! ## On limbs -/

namespace BaseUint

/-- The constructor from a `uint64_t`. -/
def ofUInt64 (b : UInt64) : BaseUint 8 := ⟨![b.toUInt32, (b >>> 32).toUInt32, 0, 0, 0, 0, 0, 0]⟩

def isNull (this : BaseUint 8) : Bool := decide (∀ i, this.pn i = 0)

/-- `uint256::SetCompact`: the number, `*pfNegative` and `*pfOverflow`. -/
def setCompact (nCompact : UInt32) : BaseUint 8 × Bool × Bool :=
  let nSize := nCompact >>> 24
  let nWord := nCompact &&& 0x007fffff
  let nWord := if nSize ≤ 3 then nWord >>> (8 * (3 - nSize)) else nWord
  let value := if nSize ≤ 3 then ofUInt64 nWord.toUInt64 else (ofUInt64 nWord.toUInt64).shlAssign (8 * (nSize - 3))
  (value, decide (nWord ≠ 0) && decide (nCompact &&& 0x00800000 ≠ 0),
    decide (nWord ≠ 0) && (decide (34 < nSize) || (decide (0xff < nWord) && decide (33 < nSize)) ||
      (decide (0xffff < nWord) && decide (32 < nSize))))

/-- `GetBlockProof`; `none` where the division throws. -/
def getBlockProof (nBits : UInt32) : Option (BaseUint 8) :=
  let (bnTarget, fNegative, fOverflow) := setCompact nBits
  if fNegative || fOverflow || bnTarget.isNull then some null
  else (bnTarget.complement.divAssign (.other (bnTarget.addAssign (.other (ofUInt64 1))))).map (·.addAssign (.other (ofUInt64 1)))

theorem toNat_ofUInt64 (b : UInt64) : (ofUInt64 b).toNat = b.toNat := by
  have hlow : b.toUInt32.toNat = b.toNat % 2 ^ 32 := UInt64.toNat_toUInt32 b
  have hhigh : (b >>> 32).toUInt32.toNat = b.toNat / 2 ^ 32 := by
    rw [UInt64.toNat_toUInt32, toNat_high32, Nat.mod_eq_of_lt]
    have hlt := b.toNat_lt
    omega
  simp only [toNat, value, ofUInt64, Fin.sum_univ_eight]
  simp [hlow, hhigh]
  omega

theorem isNull_iff (this : BaseUint 8) : this.isNull = true ↔ this.toNat = 0 := by
  rw [isNull, decide_eq_true_iff]
  constructor
  · intro h
    have hnull : this = null := eq_of_toNat_eq (congrArg (value 32) (funext fun i => congrArg UInt32.toNat (h i)))
    rw [hnull, toNat_null]
  · intro h i
    have hnull : this = null := eq_of_toNat_eq (by rw [h, toNat_null])
    rw [hnull]
    rfl

theorem size_le_iff (nSize : UInt32) : nSize ≤ 3 ↔ nSize.toNat ≤ 3 := UInt32.le_iff_toNat_le

theorem toNat_word (nSize nWord : UInt32) : (if nSize ≤ 3 then nWord >>> (8 * (3 - nSize)) else nWord).toNat =
    if nSize.toNat ≤ 3 then nWord.toNat >>> (8 * (3 - nSize.toNat)) else nWord.toNat := by
  by_cases h : nSize.toNat ≤ 3
  · have hsub : (3 - nSize).toNat = 3 - nSize.toNat := UInt32.toNat_sub_of_le _ _ ((size_le_iff nSize).mpr h)
    have hmul : (8 * (3 - nSize)).toNat = 8 * (3 - nSize).toNat % 2 ^ 32 := UInt32.toNat_mul _ _
    have hcount : (8 * (3 - nSize)).toNat % 32 = 8 * (3 - nSize.toNat) := by omega
    rw [if_pos ((size_le_iff nSize).mpr h), if_pos h, UInt32.toNat_shiftRight, hcount]
  · rw [if_neg (mt (size_le_iff nSize).mp h), if_neg h]

theorem toNat_number (nSize nWord : UInt32) (hsize : nSize.toNat < 256) :
    (if nSize ≤ 3 then ofUInt64 nWord.toUInt64 else (ofUInt64 nWord.toUInt64).shlAssign (8 * (nSize - 3))).toNat =
      (if nSize.toNat ≤ 3 then BitVec.ofNat 256 nWord.toNat else BitVec.ofNat 256 nWord.toNat <<< (8 * (nSize.toNat - 3))).toNat := by
  have hword : nWord.toNat % 2 ^ 256 = nWord.toNat := Nat.mod_eq_of_lt (nWord.toNat_lt.trans (by norm_num))
  by_cases h : nSize.toNat ≤ 3
  · rw [if_pos ((size_le_iff nSize).mpr h), if_pos h, toNat_ofUInt64, UInt32.toNat_toUInt64, BitVec.toNat_ofNat, hword]
  · have hle : (3 : UInt32) ≤ nSize := UInt32.le_iff_toNat_le.mpr (by simp; omega)
    have hsub : (nSize - 3).toNat = nSize.toNat - 3 := UInt32.toNat_sub_of_le _ _ hle
    have hmul : (8 * (nSize - 3)).toNat = 8 * (nSize - 3).toNat % 2 ^ 32 := UInt32.toNat_mul _ _
    have hcount : (8 * (nSize - 3)).toNat = 8 * (nSize.toNat - 3) := by omega
    rw [if_neg (mt (size_le_iff nSize).mp h), if_neg h, toNat_shlAssign, toNat_ofUInt64, UInt32.toNat_toUInt64, hcount,
      BitVec.toNat_shiftLeft, BitVec.toNat_ofNat, hword, Nat.shiftLeft_eq]

theorem setCompact_toNat (n : UInt32) : (setCompact n).1.toNat = (DigiWage.setCompact n.toNat).1.toNat ∧
    (setCompact n).2 = (DigiWage.setCompact n.toNat).2 := by
  have hsize : n.toNat >>> 24 = (n >>> 24).toNat := (UInt32.toNat_shiftRight n 24).symm
  have hword : n.toNat &&& 0x007fffff = (n &&& 0x007fffff).toNat := (UInt32.toNat_and n 0x007fffff).symm
  have hsign : n.toNat &&& 0x00800000 ≠ 0 ↔ n &&& 0x00800000 ≠ 0 := by
    rw [shift_ne_zero_iff, UInt32.toNat_and]
    rfl
  have hsmall : (n >>> 24).toNat < 256 := by
    have hlt := n.toNat_lt
    rw [← hsize, Nat.shiftRight_eq_div_pow]
    omega
  unfold setCompact DigiWage.setCompact
  simp only [hsign, hsize, hword, ← toNat_word]
  generalize n >>> 24 = nSize at *
  generalize (if nSize ≤ 3 then (n &&& 0x007fffff) >>> (8 * (3 - nSize)) else n &&& 0x007fffff) = nWord
  refine ⟨toNat_number nSize nWord hsmall, ?_⟩
  have h34 : (34 : UInt32) < nSize ↔ 34 < nSize.toNat := UInt32.lt_iff_toNat_lt
  have h33 : (33 : UInt32) < nSize ↔ 33 < nSize.toNat := UInt32.lt_iff_toNat_lt
  have h32 : (32 : UInt32) < nSize ↔ 32 < nSize.toNat := UInt32.lt_iff_toNat_lt
  have hff : (0xff : UInt32) < nWord ↔ 0xff < nWord.toNat := UInt32.lt_iff_toNat_lt
  have hffff : (0xffff : UInt32) < nWord ↔ 0xffff < nWord.toNat := UInt32.lt_iff_toNat_lt
  simp only [shift_ne_zero_iff, h34, h33, h32, hff, hffff]

end BaseUint

/-! ## The proof of a block -/

/-- The target that a compact code stands for. -/
def target (nBits : Nat) : Nat := (setCompact nBits).1.toNat

/-- A compact code of a target: no flag is set, and the number is not zero. -/
def HasTarget (nBits : Nat) : Prop := (setCompact nBits).2 = (false, false) ∧ target nBits ≠ 0

instance (nBits : Nat) : Decidable (HasTarget nBits) := inferInstanceAs (Decidable (_ ∧ _))

theorem target_succ_lt {nBits : Nat} (h : (setCompact nBits).2 = (false, false)) : target nBits + 1 < 2 ^ 256 := by
  obtain ⟨m, k, hm, heq⟩ := encodable_setCompact h
  have hlt : target nBits < 2 ^ 256 := (setCompact nBits).1.isLt
  have hne : target nBits + 1 ≠ 2 ^ 256 := by
    intro hmax
    rw [target, heq] at hmax
    cases k with
    | zero => omega
    | succ k =>
      rw [pow_succ, ← Nat.mul_assoc] at hmax
      omega
  omega

theorem complement_div {t : Nat} (h : t + 1 < 2 ^ 256) : (2 ^ 256 - 1 - t) / (t + 1) + 1 = 2 ^ 256 / (t + 1) := by
  rw [Nat.div_eq_sub_div (Nat.succ_pos t) h.le]
  congr 2
  omega

theorem hasTarget_iff (nBits : Nat) : HasTarget nBits ↔
    ((setCompact nBits).2.1 || (setCompact nBits).2.2 || (setCompact nBits).1 == 0) = false := by
  have hzero : (setCompact nBits).1 = 0 ↔ target nBits = 0 := BitVec.toNat_inj.symm
  rw [HasTarget, Prod.ext_iff, Bool.or_eq_false_iff, Bool.or_eq_false_iff, beq_eq_false_iff_ne, ne_eq, ne_eq, hzero]

theorem getBlockProof_eq (nBits : Nat) : getBlockProof nBits =
    if (setCompact nBits).2.1 || (setCompact nBits).2.2 || (setCompact nBits).1 == 0 then 0
    else ~~~(setCompact nBits).1 / ((setCompact nBits).1 + 1) + 1 := rfl

theorem getBlockProof_of_not {nBits : Nat} (h : ¬HasTarget nBits) : getBlockProof nBits = 0 := by
  rw [hasTarget_iff, Bool.not_eq_false] at h
  rw [getBlockProof_eq, if_pos h]

theorem getBlockProof_toNat {nBits : Nat} (h : HasTarget nBits) : (getBlockProof nBits).toNat = 2 ^ 256 / (target nBits + 1) := by
  have hguard := (hasTarget_iff nBits).mp h
  have hsucc := target_succ_lt h.1
  have hdiv : 2 ^ 256 / (target nBits + 1) < 2 ^ 256 := Nat.div_lt_self (by norm_num) (by have := h.2; omega)
  rw [getBlockProof_eq, hguard, if_neg Bool.false_ne_true, BitVec.toNat_add, BitVec.toNat_udiv, BitVec.toNat_not, BitVec.toNat_add]
  change ((2 ^ 256 - 1 - target nBits) / ((target nBits + 1) % 2 ^ 256) + 1) % 2 ^ 256 = _
  rw [Nat.mod_eq_of_lt hsucc, complement_div hsucc, Nat.mod_eq_of_lt hdiv]

theorem getBlockProof_limbs (nBits : UInt32) :
    (BaseUint.getBlockProof nBits).map BaseUint.toNat = some (getBlockProof nBits.toNat).toNat := by
  obtain ⟨hnum, hflags⟩ := BaseUint.setCompact_toNat nBits
  have hnull : (BaseUint.setCompact nBits).1.isNull = ((setCompact nBits.toNat).1 == 0) := by
    rw [Bool.eq_iff_iff, BaseUint.isNull_iff, hnum, beq_iff_eq]
    exact @BitVec.toNat_inj _ (setCompact nBits.toNat).1 0
  unfold BaseUint.getBlockProof
  simp only [hflags, hnull]
  by_cases h : HasTarget nBits.toNat
  · have hsucc := target_succ_lt h.1
    have hguard := (hasTarget_iff nBits.toNat).mp h
    have hone : (BaseUint.ofUInt64 1).toNat = 1 := BaseUint.toNat_ofUInt64 1
    have hadd : ((BaseUint.setCompact nBits).1.addAssign (.other (BaseUint.ofUInt64 1))).toNat = target nBits.toNat + 1 := by
      rw [BaseUint.toNat_addAssign, hnum]
      simp only [BaseUint.deref, hone]
      exact Nat.mod_eq_of_lt hsucc
    have hcompl := BaseUint.toNat_complement (BaseUint.setCompact nBits).1
    obtain ⟨q, hq, hquot⟩ := BaseUint.divAssign_other (by norm_num) (by norm_num) (BaseUint.setCompact nBits).1.complement hadd (by omega)
    have hcomplement : (BaseUint.setCompact nBits).1.complement.toNat = 2 ^ 256 - 1 - target nBits.toNat := by
      rw [hnum] at hcompl
      rw [target]
      omega
    have hsmall : 2 ^ 256 / (target nBits.toNat + 1) < 2 ^ 256 := Nat.div_lt_self (by norm_num) (by have := h.2; omega)
    rw [if_neg (by rw [hguard]; exact Bool.false_ne_true), hq, Option.map_some, Option.map_some, BaseUint.toNat_addAssign, hquot]
    simp only [BaseUint.deref, hone]
    rw [hcomplement, complement_div hsucc, getBlockProof_toNat h, Nat.mod_eq_of_lt hsmall]
  · have hguard := mt (hasTarget_iff nBits.toNat).mpr h
    rw [Bool.not_eq_false] at hguard
    rw [if_pos hguard, getBlockProof_of_not h, Option.map_some, BaseUint.toNat_null]
    rfl

/-! ## Along runs -/

/-- Every entry adds its proof to the work of its parent. -/
def WorkAdds (t : BlockIndex) : Prop :=
  ∀ p ∈ t.mapBlockIndex, ∀ q, t.pprev p = some q → (t.entry p).nChainWork = (t.entry q).nChainWork + getBlockProof (t.entry p).nBits

theorem WorkAdds.added {s s' : ChainState} {new : Ptr} {block : CBlockHeader} (h : WorkAdds s.index) (ha : ChainState.Added s new block s') :
    WorkAdds s'.index := by
  have hold : ∀ p ∈ s.index.mapBlockIndex, s'.index.entry p = s.index.entry p := fun p hp => by
    rw [ha.index, BlockIndex.add_entry hp]
  intro p hp q hq
  rw [ha.mapBlockIndex] at hp
  rcases List.mem_cons.mp hp with rfl | hp
  · rw [BlockIndex.pprev, ha.entry_new] at hq
    obtain ⟨hqm, -, -, hwork, -⟩ := BlockIndex.newEntry_some hq
    rw [ha.entry_new, hold q hqm, hwork, BlockIndex.newEntry_header.2.1]
  · rw [BlockIndex.pprev, hold p hp] at hq
    rw [hold p hp, hold q (s.index.rooted.mem hp hq)]
    exact h p hp q hq

theorem step_workAdds {src : BlockSource} {params : ConsensusParams} {s s' : ChainState} {op : AcceptOp} (h : WorkAdds s.index)
    (heq : op.step src params s = some s') : WorkAdds s'.index := by
  rcases acceptOp_step heq with hsame | ⟨new, hash, s₁, -, ha, -, -, hindex⟩
  · rw [hsame]
    exact h
  · rw [hindex]
    exact h.added ha

theorem run_workAdds {src : BlockSource} {params : ConsensusParams} : ∀ {ops : List AcceptOp} {s s' : ChainState},
    WorkAdds s.index → ops.foldlM (AcceptOp.step src params) s = some s' → WorkAdds s'.index
  | [], s, s', h, hrun => by
    cases hrun
    exact h
  | op :: ops, s, s', h, hrun => by
    rw [List.foldlM_cons, Option.bind_eq_bind, Option.bind_eq_some_iff] at hrun
    obtain ⟨s₁, h₁, hrun⟩ := hrun
    exact run_workAdds (step_workAdds h h₁) hrun

theorem getBlockProof_pos {nBits : Nat} (h : HasTarget nBits) : 0 < (getBlockProof nBits).toNat := by
  rw [getBlockProof_toNat h]
  exact Nat.div_pos (target_succ_lt h.1).le (Nat.succ_pos _)

/-- **Block proofs.** The division of `GetBlockProof` does not throw. For every target the proof is the number of hashes, at least one,
and it does not grow with the target. So in every state of a run a block with a target has more work than its parent, as long as the
total fits. -/
theorem blockProof_work :
    (∀ nBits : UInt32, (BaseUint.getBlockProof nBits).map BaseUint.toNat = some (getBlockProof nBits.toNat).toNat) ∧
    (∀ nBits, HasTarget nBits →
      (getBlockProof nBits).toNat = 2 ^ 256 / (target nBits + 1) ∧ 1 ≤ (getBlockProof nBits).toNat) ∧
    (∀ nBits nBits', HasTarget nBits → HasTarget nBits' → target nBits ≤ target nBits' →
      (getBlockProof nBits').toNat ≤ (getBlockProof nBits).toNat) ∧
    ∀ src params ops s, runAccept src params ops = some s → ∀ p ∈ s.index.mapBlockIndex, ∀ q, s.index.pprev p = some q →
      HasTarget (s.index.entry p).nBits → s.index.work q + (getBlockProof (s.index.entry p).nBits).toNat < 2 ^ 256 →
      s.index.work q < s.index.work p := by
  refine ⟨getBlockProof_limbs, fun nBits h => ⟨getBlockProof_toNat h, getBlockProof_pos h⟩, fun nBits nBits' h h' hle => ?_, ?_⟩
  · rw [getBlockProof_toNat h, getBlockProof_toNat h']
    exact Nat.div_le_div_left (Nat.succ_le_succ hle) (Nat.succ_pos _)
  · intro src params ops s hrun p hp q hq htarget hfits
    have hadds : WorkAdds s.index := run_workAdds (s := ChainState.init) (by simp [WorkAdds, ChainState.init, BlockIndex.empty]) hrun
    have hpos := getBlockProof_pos htarget
    have hsum : s.index.work p = s.index.work q + (getBlockProof (s.index.entry p).nBits).toNat := by
      rw [BlockIndex.work, hadds p hp q hq, BitVec.toNat_add]
      exact Nat.mod_eq_of_lt hfits
    omega

/-- Block 1 of a run has more work than the genesis block. -/
theorem blockProof_work_run : ∃ s, runAccept easierSource (regTestParams 0) easierRun = some s ∧ s.index.work 0 < s.index.work 1 := by
  have hrun := (Option.some_get easierRun_isSome).symm
  refine ⟨_, hrun, ?_⟩
  exact blockProof_work.2.2.2 _ _ _ _ hrun 1 (by decide) 0 (by decide) (by decide) (by decide)

end DigiWage
