import DigiWage.Chain.Process
import DigiWage.Stake.Kernel

/-!
# Stake validation without a parent

`CheckProofOfStake` and `GetStakeKernelHash` of `kernel.cpp` may be called with a null pointer for the parent of the
block; `LoadStakeInput` then looks it up, but keeps what it finds to itself. Both read an output of the transaction that
the stake spends, at an index that comes with the block.
-/

namespace DigiWage

open Lib

/-- How a call ends that does not return: it follows a null pointer, reads past the end of a vector, or calls `error` with
a format that lacks its argument, which throws. -/
inductive Fault
  | nullPointer
  | outOfRange
  | formatError
deriving DecidableEq, Repr

namespace StakeNode

variable {n : StakeIndex} (s : StakeNode n)

/-- The end of `LoadStakeInput`: the coinstake with its stake input. -/
def loadInput (block : CBlock) : Except Fault (Option (CTransaction × CPivStake)) :=
  if !block.isProofOfStake then .ok none
  else
    match block.vtx[1]? with
    | none => .error .outOfRange
    | some tx =>
      match tx.vin[0]? with
      | none => .error .outOfRange
      | some txin => .ok ((s.initFromTxIn txin).map fun input => (tx, input))

/-- `LoadStakeInput`. The parent that it finds for a null pointer is in a variable of its own. -/
def loadStakeInputFrom (block : CBlock) : Option Ptr → Except Fault (Option (CTransaction × CPivStake))
  | none =>
    match n.index.find block.hashPrevBlock with
    | none => .ok none
    | some _ => s.loadInput block
  | some pindexPrev =>
    if block.hashPrevBlock ≠ (n.index.entry pindexPrev).hash then .error .formatError else s.loadInput block

/-- `CheckProofOfStake`, with `strError` where it returns false. `verifyScript` is the check of the signature, with the
text of its error. -/
def checkProofOfStakeFrom (params : StakeParams) (hash : List UInt8 → Uint256)
    (verifyScript : CTransaction → CTransaction → Option String) (block : CBlock) (pindexPrev : Option Ptr) :
    Except Fault (Except String Unit) :=
  match s.loadStakeInputFrom block pindexPrev with
  | .error fault => .error fault
  | .ok none => .ok (.error "stake input initialization failed")
  | .ok (some (tx, input)) =>
    match pindexPrev with
    | none => .error .nullPointer
    | some pindexPrev =>
      match s.getIndexFrom input with
      | none => .error .formatError
      | some pindexFrom =>
        if !contextCheck params.toConsensusParams n.index pindexFrom (n.index.nHeight pindexPrev + 1) block.nTime then
          .ok (.error "stake input failing contextual checks")
        else if input.txFrom.vin.isEmpty && input.txFrom.vout.isEmpty then
          .ok (.error "unable to get txPrev for coinstake")
        else if input.txFrom.vout.length ≤ input.nPosition then .error .outOfRange
        else
          match verifyScript tx input.txFrom with
          | some serror => .ok (.error ("signature fails: " ++ serror))
          | none =>
            match s.checkKernel params hash pindexPrev pindexFrom input block.nBits block.nTime with
            | none => .error .outOfRange
            | some false => .ok (.error "kernel hash check fails")
            | some true => .ok (.ok ())

/-- `GetStakeKernelHash`. The value of the stake is read before the constructor of `CStakeKernel` follows `pindexPrev`. -/
def getStakeKernelHash (params : StakeParams) (hash : List UInt8 → Uint256) (block : CBlock) (pindexPrev : Option Ptr) :
    Except Fault (Option Uint256) :=
  match s.loadStakeInputFrom block pindexPrev with
  | .error fault => .error fault
  | .ok none => .ok none
  | .ok (some (_, input)) =>
    match input.txFrom.vout[input.nPosition]? with
    | none => .error .outOfRange
    | some _ =>
      match pindexPrev with
      | none => .error .nullPointer
      | some pindexPrev =>
        match s.getIndexFrom input with
        | none => .error .nullPointer
        | some pindexFrom => .ok (some (hash (s.kernelBytes params pindexPrev pindexFrom input block.nTime)))

/-! ## What is to hold -/

/-- `CheckProofOfStake` reads no output past the end, whether the parent is passed in or not. -/
def InRange (params : StakeParams) (hash : List UInt8 → Uint256)
    (verifyScript : CTransaction → CTransaction → Option String) (block : CBlock) : Prop :=
  ∀ pindexPrev : Option Ptr, (∀ p, pindexPrev = some p → p ∈ n.index.mapBlockIndex) →
    s.checkProofOfStakeFrom params hash verifyScript block pindexPrev ≠ .error .outOfRange

/-- With a null pointer the functions return what they return with the parent of the block, and follow no null pointer. -/
structure NullParentOk (params : StakeParams) (hash : List UInt8 → Uint256)
    (verifyScript : CTransaction → CTransaction → Option String) (block : CBlock) : Prop where
  check : s.checkProofOfStakeFrom params hash verifyScript block none ≠ .error .nullPointer
  kernel : s.getStakeKernelHash params hash block none ≠ .error .nullPointer
  parent : ∀ p, n.index.find block.hashPrevBlock = some p →
    s.checkProofOfStakeFrom params hash verifyScript block none =
        s.checkProofOfStakeFrom params hash verifyScript block (some p) ∧
      s.getStakeKernelHash params hash block none = s.getStakeKernelHash params hash block (some p)

/-- The block stakes on a known parent, and its stake input is found in a block of the active chain. -/
structure Loads (block : CBlock) (pindexPrev : Ptr) (tx : CTransaction) (txin : CTxIn) (txPrev : CTransaction)
    (pindexFrom : Ptr) : Prop where
  parent : n.index.find block.hashPrevBlock = some pindexPrev
  proofOfStake : block.isProofOfStake = true
  second : block.vtx[1]? = some tx
  input : tx.vin[0]? = some txin
  found : ∃ hashBlock, s.getTransaction txin.prevout.hash = some (txPrev, hashBlock) ∧
    s.activeIndex hashBlock = some pindexFrom

/-- The check of the signature comes to an output that is there. -/
def ReadsInRange (params : StakeParams) (block : CBlock) : Prop :=
  ∀ pindexPrev tx txin txPrev pindexFrom, s.Loads block pindexPrev tx txin txPrev pindexFrom →
    contextCheck params.toConsensusParams n.index pindexFrom (n.index.nHeight pindexPrev + 1) block.nTime = true →
    txPrev.vin ≠ [] ∨ txPrev.vout ≠ [] → txin.prevout.n < txPrev.vout.length

variable {s} {params : StakeParams} {hash : List UInt8 → Uint256}
  {verifyScript : CTransaction → CTransaction → Option String} {block : CBlock} {pindexPrev pindexFrom : Ptr}
  {tx txPrev : CTransaction} {txin : CTxIn}

theorem Loads.loadInput (h : s.Loads block pindexPrev tx txin txPrev pindexFrom) :
    s.loadInput block = .ok (some (tx, ⟨txPrev, txin.prevout.n, some pindexFrom⟩)) := by
  obtain ⟨hashBlock, hget, hactive⟩ := h.found
  unfold StakeNode.loadInput initFromTxIn
  simp only [h.proofOfStake, Bool.not_true, Bool.false_eq_true, if_false, h.second, h.input, hget, hactive,
    Option.map_some]

theorem loadInput_cases (hparent : n.index.find block.hashPrevBlock = some pindexPrev) :
    s.loadInput block = .ok none ∨ ∃ tx txin txPrev pindexFrom, s.Loads block pindexPrev tx txin txPrev pindexFrom := by
  cases hpos : block.isProofOfStake with
  | false =>
    unfold loadInput
    rw [hpos]
    exact Or.inl rfl
  | true =>
    obtain ⟨tx, txin, txout, hstake⟩ := ProcessEnv.exists_isStake hpos
    cases hget : s.getTransaction txin.prevout.hash with
    | none =>
      refine Or.inl ?_
      simp [loadInput, hpos, hstake.second, hstake.input, initFromTxIn, hget]
    | some r =>
      obtain ⟨txPrev, hashBlock⟩ := r
      cases hactive : s.activeIndex hashBlock with
      | none =>
        refine Or.inl ?_
        simp [loadInput, hpos, hstake.second, hstake.input, initFromTxIn, hget, hactive]
      | some pindexFrom =>
        exact Or.inr ⟨tx, txin, txPrev, pindexFrom, hparent, hpos, hstake.second, hstake.input, hashBlock, hget, hactive⟩

theorem loadStakeInputFrom_parent (hparent : n.index.find block.hashPrevBlock = some pindexPrev) :
    s.loadStakeInputFrom block (some pindexPrev) = s.loadInput block ∧ s.loadStakeInputFrom block none = s.loadInput block := by
  constructor
  · exact if_neg (not_not.mpr (BlockIndex.find_some hparent).2.symm)
  · unfold loadStakeInputFrom
    rw [hparent]

theorem checkProofOfStakeFrom_of_none {parent : Option Ptr} (h : s.loadStakeInputFrom block parent = .ok none) :
    s.checkProofOfStakeFrom params hash verifyScript block parent = .ok (.error "stake input initialization failed") := by
  unfold checkProofOfStakeFrom
  rw [h]

theorem getStakeKernelHash_of_none {parent : Option Ptr} (h : s.loadStakeInputFrom block parent = .ok none) :
    s.getStakeKernelHash params hash block parent = .ok none := by
  unfold getStakeKernelHash
  rw [h]

theorem Loads.outOfRange_iff (h : s.Loads block pindexPrev tx txin txPrev pindexFrom) :
    s.checkProofOfStakeFrom params hash verifyScript block (some pindexPrev) = .error .outOfRange ↔
      contextCheck params.toConsensusParams n.index pindexFrom (n.index.nHeight pindexPrev + 1) block.nTime = true ∧
        (txPrev.vin ≠ [] ∨ txPrev.vout ≠ []) ∧ txPrev.vout.length ≤ txin.prevout.n := by
  have hnull : (txPrev.vin.isEmpty && txPrev.vout.isEmpty) = false ↔ txPrev.vin ≠ [] ∨ txPrev.vout ≠ [] := by
    rw [Bool.and_eq_false_iff, List.isEmpty_eq_false_iff, List.isEmpty_eq_false_iff]
  unfold checkProofOfStakeFrom
  rw [(loadStakeInputFrom_parent h.parent).1, h.loadInput, ← hnull]
  simp only [getIndexFrom]
  cases contextCheck params.toConsensusParams n.index pindexFrom (n.index.nHeight pindexPrev + 1) block.nTime with
  | false => simp
  | true =>
    cases txPrev.vin.isEmpty && txPrev.vout.isEmpty with
    | true => simp
    | false =>
      by_cases hle : txPrev.vout.length ≤ txin.prevout.n
      · simp [hle]
      · obtain ⟨o, hget⟩ : ∃ o, txPrev.vout[txin.prevout.n]? = some o :=
          ⟨_, List.getElem?_eq_getElem (Nat.lt_of_not_le hle)⟩
        cases verifyScript tx txPrev with
        | some serror => simp [hle]
        | none =>
          simp only [Bool.not_true, Bool.false_eq_true, if_false, hle, checkKernel, hget, and_false, iff_false]
          cases checkKernelHash (hash (s.kernelBytes params pindexPrev pindexFrom
            ⟨txPrev, txin.prevout.n, some pindexFrom⟩ block.nTime)) block.nBits o.nValue with
          | false => simp
          | true => simp

theorem loadStakeInputFrom_of_not_loads
    (hno : ¬ ∃ pindexPrev tx txin txPrev pindexFrom, s.Loads block pindexPrev tx txin txPrev pindexFrom) :
    s.loadStakeInputFrom block none = .ok none ∧
      ∀ p, n.index.find block.hashPrevBlock = some p → s.loadStakeInputFrom block (some p) = .ok none := by
  have hload : ∀ p, n.index.find block.hashPrevBlock = some p → s.loadInput block = .ok none := by
    intro p hp
    rcases loadInput_cases hp with hnone | hloads
    · exact hnone
    · exact absurd ⟨p, hloads⟩ hno
  constructor
  · cases hparent : n.index.find block.hashPrevBlock with
    | none =>
      unfold loadStakeInputFrom
      rw [hparent]
    | some p => rw [(loadStakeInputFrom_parent hparent).2, hload p hparent]
  · intro p hp
    rw [(loadStakeInputFrom_parent hp).1, hload p hp]

theorem Loads.nullPointer (h : s.Loads block pindexPrev tx txin txPrev pindexFrom) :
    s.checkProofOfStakeFrom params hash verifyScript block none = .error .nullPointer := by
  unfold checkProofOfStakeFrom
  rw [(loadStakeInputFrom_parent h.parent).2, h.loadInput]

theorem inRange_iff : s.InRange params hash verifyScript block ↔ s.ReadsInRange params block := by
  constructor
  · intro h pindexPrev tx txin txPrev pindexFrom hloads hctx hnull
    by_contra hlt
    refine h (some pindexPrev) ?_ (hloads.outOfRange_iff.mpr ⟨hctx, hnull, Nat.le_of_not_lt hlt⟩)
    rintro p ⟨⟩
    exact (BlockIndex.find_some hloads.parent).1
  · intro h pindexPrev hmem hrange
    cases pindexPrev with
    | none =>
      by_cases hloads : ∃ pindexPrev tx txin txPrev pindexFrom, s.Loads block pindexPrev tx txin txPrev pindexFrom
      · obtain ⟨pindexPrev, tx, txin, txPrev, pindexFrom, hloads⟩ := hloads
        rw [hloads.nullPointer] at hrange
        cases hrange
      · rw [checkProofOfStakeFrom_of_none (loadStakeInputFrom_of_not_loads hloads).1] at hrange
        cases hrange
    | some p =>
      by_cases hhash : block.hashPrevBlock = (n.index.entry p).hash
      · have hparent : n.index.find block.hashPrevBlock = some p := by
          rw [hhash]
          exact BlockIndex.find_eq (hmem p rfl)
        rcases loadInput_cases hparent with hnone | ⟨tx, txin, txPrev, pindexFrom, hloads⟩
        · rw [checkProofOfStakeFrom_of_none ((loadStakeInputFrom_parent hparent).1.trans hnone)] at hrange
          cases hrange
        · obtain ⟨hctx, hnull, hle⟩ := hloads.outOfRange_iff.mp hrange
          exact absurd (h p tx txin txPrev pindexFrom hloads hctx hnull) (Nat.not_lt.mpr hle)
      · have hthrows : s.loadStakeInputFrom block (some p) = .error .formatError := if_pos hhash
        unfold checkProofOfStakeFrom at hrange
        rw [hthrows] at hrange
        cases hrange

theorem nullParentOk_iff : s.NullParentOk params hash verifyScript block ↔
    ¬ ∃ pindexPrev tx txin txPrev pindexFrom, s.Loads block pindexPrev tx txin txPrev pindexFrom := by
  constructor
  · rintro h ⟨pindexPrev, tx, txin, txPrev, pindexFrom, hloads⟩
    exact h.check hloads.nullPointer
  · intro hno
    obtain ⟨hnull, hparent⟩ := loadStakeInputFrom_of_not_loads hno
    constructor
    · rw [checkProofOfStakeFrom_of_none hnull]
      simp
    · rw [getStakeKernelHash_of_none hnull]
      simp
    · intro p hp
      rw [checkProofOfStakeFrom_of_none hnull, checkProofOfStakeFrom_of_none (hparent p hp),
        getStakeKernelHash_of_none hnull, getStakeKernelHash_of_none (hparent p hp)]
      exact ⟨rfl, rfl⟩

/-- No output is read past the end exactly where the check of the signature comes to an output that is there; and stake
validation is safe exactly for the blocks whose stake input is not found. -/
theorem stakeSafe_iff (params : StakeParams) (hash : List UInt8 → Uint256)
    (verifyScript : CTransaction → CTransaction → Option String) {n : StakeIndex} (s : StakeNode n) (block : CBlock) :
    (s.InRange params hash verifyScript block ↔ s.ReadsInRange params block) ∧
      (s.InRange params hash verifyScript block ∧ s.NullParentOk params hash verifyScript block ↔
        ¬ ∃ pindexPrev tx txin txPrev pindexFrom, s.Loads block pindexPrev tx txin txPrev pindexFrom) := by
  refine ⟨inRange_iff, fun h => nullParentOk_iff.mp h.2, fun hno => ⟨inRange_iff.mpr ?_, nullParentOk_iff.mpr hno⟩⟩
  intro pindexPrev tx txin txPrev pindexFrom hloads
  exact absurd ⟨pindexPrev, tx, txin, txPrev, pindexFrom, hloads⟩ hno

/-- A stake of an output that `stakedTx` does not have. -/
def missingStake : CTransaction :=
  ⟨78, 1, [⟨⟨77, 1⟩, ([] : List UInt8), 0⟩], [⟨0, ([] : List UInt8), 0⟩, ⟨100, ([] : List UInt8), 0⟩], 0⟩

def missingBlock : CBlock := ⟨⟨5, 7, 4, 0, 9001, 0x207fffff, 0⟩, [⟨79, 1, [], [], 0⟩, missingStake]⟩

/-- On its parent the block is read past the end, and a block with a valid stake makes the node follow a null pointer. -/
theorem not_stakeSafe : (¬ ∀ (params : StakeParams) (hash : List UInt8 → Uint256)
      (verifyScript : CTransaction → CTransaction → Option String) (n : StakeIndex) (s : StakeNode n) (block : CBlock),
      block.isProofOfStake = true → s.InRange params hash verifyScript block) ∧
    ¬ ∀ (params : StakeParams) (hash : List UInt8 → Uint256)
      (verifyScript : CTransaction → CTransaction → Option String) (n : StakeIndex) (s : StakeNode n) (block : CBlock),
      block.isProofOfStake = true → s.NullParentOk params hash verifyScript block := by
  constructor
  · intro h
    have hrange := h regTestStakeParams hash256 (fun _ _ => none) forkIndex upNode missingBlock (by decide) (some 3)
      (by rintro p ⟨⟩; decide)
    exact hrange (by decide)
  · intro h
    have hnull := (h regTestStakeParams hash256 (fun _ _ => none) forkIndex upNode forkBlock (by decide)).check
    exact hnull (by decide)

end StakeNode

end DigiWage
