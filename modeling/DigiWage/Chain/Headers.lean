import DigiWage.Chain.Process
import DigiWage.Chain.Retarget
import Mathlib.Data.List.Find

/-!
# Headers that are accepted

`AcceptBlockHeader` for a header whose hash is not in `mapBlockIndex`. It is to return true for an acceptable header,
with one entry more, and else to return false and leave the index as it is. Two things stand in the way:
`CheckBlockHeader` ends without a return statement, except on the regression test network, and `AddToBlockIndex` may read
an input that the block does not have.
-/

namespace DigiWage

open Lib ChainState

namespace ProcessEnv

/-- The header of the genesis block, or one on a known parent without a failure flag that `ContextualCheckBlockHeader`
accepts. -/
def Acceptable (env : ProcessEnv) (src : BlockSource) (s : ChainState) (block : CBlock) : Prop :=
  block.hash = src.hashGenesisBlock ∨ ∃ pindexPrev, s.index.find block.hashPrevBlock = some pindexPrev ∧
    (s.status pindexPrev).failed = false ∧
    contextualCheckBlockHeader env.params env.accept s block.toCBlockHeader pindexPrev = .ok ()

/-- `AddToBlockIndex` finds the input that it reads for the stake modifier. -/
def HasModifierInput (env : ProcessEnv) (s : ChainState) (block : CBlock) : Prop :=
  ∀ pprev, s.index.find block.hashPrevBlock = some pprev →
    env.params.isStakeModifierV2 (s.index.nHeight pprev + 1) = true →
    ∃ tx txin, block.vtx[1]? = some tx ∧ tx.vin[0]? = some txin

/-- The state has one entry more, for the hash. -/
structure OneMore (s : ChainState) (hash : Uint256) (pindex : Ptr) (s' : ChainState) : Prop where
  mapBlockIndex : s'.index.mapBlockIndex = pindex :: s.index.mapBlockIndex
  find : ∀ h, s'.index.find h = if h = hash then some pindex else s.index.find h
  entry : ∀ p ∈ s.index.mapBlockIndex, s'.index.entry p = s.index.entry p

/-- `AcceptBlockHeader` has a result. It returns true exactly for an acceptable header, with one entry more, and changes
nothing where it returns false. -/
def HeaderVerdict (env : ProcessEnv) (src : BlockSource) (s : ChainState) (new : Ptr) (block : CBlock) : Prop :=
  ∃ r s', env.acceptBlockHeader src s new block = some (r, s') ∧
    ((∃ pindex, r = .ok pindex) ↔ env.Acceptable src s block) ∧
    (∀ pindex, r = .ok pindex → OneMore s block.hash pindex s') ∧ ∀ e, r = .error e → s' = s

/-- The node, with what comes out of `CheckBlockHeader` where it has no return statement. -/
def withNoReturn (env : ProcessEnv) (noReturn : CBlockHeader → Bool) : ProcessEnv :=
  { env with accept := { env.accept with noReturn := noReturn } }

variable {env : ProcessEnv} {src : BlockSource} {s s' : ChainState} {new : Ptr} {block : CBlock}

theorem acceptable_withNoReturn {noReturn : CBlockHeader → Bool} :
    (env.withNoReturn noReturn).Acceptable src s block ↔ env.Acceptable src s block := Iff.rfl

theorem oneMore_of_added (h : Added s new block.toCBlockHeader s') : OneMore s block.hash new s' := by
  have hold : ∀ p ∈ s.index.mapBlockIndex, s'.index.entry p = s.index.entry p := fun p hp => by
    rw [h.index, BlockIndex.add_entry hp]
  have hnewHash : (s'.index.entry new).hash = block.hash := by
    rw [h.entry_new]
    unfold BlockIndex.newEntry
    split <;> rfl
  refine ⟨h.mapBlockIndex, fun x => ?_, hold⟩
  unfold BlockIndex.find
  rw [h.mapBlockIndex]
  by_cases hx : x = block.hash
  · rw [if_pos hx, List.find?_cons_of_pos (by rw [hnewHash, hx]; exact beq_self_eq_true _)]
  · rw [if_neg hx, List.find?_cons_of_neg (by rw [hnewHash]; simpa using Ne.symm hx)]
    exact List.find?_congr fun p hp => by rw [hold p hp]

theorem addToBlockIndex_of_fresh (env : ProcessEnv) (new : Ptr) (hfresh : s.index.find block.hash = none) :
    (env.HasModifierInput s block →
      env.addToBlockIndex s new block = some (new, (s.addToBlockIndex new block.toCBlockHeader).2)) ∧
    (¬ env.HasModifierInput s block → env.addToBlockIndex s new block = none) := by
  have hfst : s.addToBlockIndex new block.toCBlockHeader = (new, (s.addToBlockIndex new block.toCBlockHeader).2) := by
    unfold ChainState.addToBlockIndex
    rw [hfresh]
  unfold addToBlockIndex HasModifierInput
  rw [hfresh, ← hfst]
  cases hprev : s.index.find block.hashPrevBlock with
  | none => exact ⟨fun _ => rfl, fun h => absurd (fun _ h => by cases h) h⟩
  | some pprev =>
    simp only [Option.some.injEq, forall_eq']
    cases env.params.isStakeModifierV2 (s.index.nHeight pprev + 1) with
    | false => simp
    | true =>
      cases hvtx : block.vtx[1]? with
      | none => simp
      | some tx =>
        cases hvin : tx.vin[0]? with
        | none => simp [hvin]
        | some txin => simp [hvin]

theorem acceptBlockHeader_of_checked (src : BlockSource) (new : Ptr) (hfresh : s.index.find block.hash = none)
    (hchecked : checkBlockHeader env.params env.accept block.toCBlockHeader false = .ok ()) :
    (env.Acceptable src s block → env.acceptBlockHeader src s new block =
      (env.addToBlockIndex s new block).map fun r => (.ok r.1, r.2)) ∧
    (¬ env.Acceptable src s block → ∃ e, env.acceptBlockHeader src s new block = some (.error e, s)) := by
  unfold acceptBlockHeader Acceptable
  rw [hfresh, hchecked]
  dsimp only
  by_cases hg : block.hash = src.hashGenesisBlock
  · rw [if_pos hg]
    refine ⟨fun _ => ?_, fun h => absurd (Or.inl hg) h⟩
    cases env.addToBlockIndex s new block <;> rfl
  · rw [if_neg hg]
    cases hprev : s.index.find block.hashPrevBlock with
    | none => simp [hg]
    | some pindexPrev =>
      cases hfailed : (s.status pindexPrev).failed with
      | true => simp [hg, hfailed]
      | false =>
        cases hctx : contextualCheckBlockHeader env.params env.accept s block.toCBlockHeader pindexPrev with
        | error e => simp [hg, hfailed, hctx]
        | ok u =>
          refine ⟨fun _ => ?_, fun h => absurd (Or.inr ⟨pindexPrev, rfl, hfailed, hctx⟩) h⟩
          simp only [hfailed, hctx]
          cases env.addToBlockIndex s new block <;> rfl

theorem headerVerdict_iff (hfresh : s.index.find block.hash = none) (hnew : new ∉ s.index.mapBlockIndex)
    (hchecked : checkBlockHeader env.params env.accept block.toCBlockHeader false = .ok ()) :
    env.HeaderVerdict src s new block ↔ (env.Acceptable src s block → env.HasModifierInput s block) := by
  obtain ⟨haccept, hreject⟩ := acceptBlockHeader_of_checked src new hfresh hchecked
  obtain ⟨hadd, hmissing⟩ := addToBlockIndex_of_fresh env new hfresh
  constructor
  · rintro ⟨r, s', hrun, -⟩ hacc
    by_contra hinput
    rw [haccept hacc, hmissing hinput] at hrun
    cases hrun
  · intro h
    by_cases hacc : env.Acceptable src s block
    · have hrun := haccept hacc
      rw [hadd (h hacc)] at hrun
      refine ⟨.ok new, _, hrun, iff_of_true ⟨new, rfl⟩ hacc, ?_, ?_⟩
      · intro pindex hpindex
        cases hpindex
        exact oneMore_of_added (addToBlockIndex_added hnew hfresh)
      · intro e he
        cases he
    · obtain ⟨e, hrun⟩ := hreject hacc
      refine ⟨.error e, s, hrun, iff_of_false ?_ hacc, ?_, fun _ _ => rfl⟩
      · rintro ⟨pindex, hpindex⟩
        cases hpindex
      · intro pindex hpindex
        cases hpindex

theorem checkBlockHeader_noReturn {params : ConsensusParams} {accept : AcceptEnv} {header : CBlockHeader} :
    checkBlockHeader params accept header false = .ok () ↔ params.isRegTestNet = true ∨ accept.noReturn header = true := by
  unfold checkBlockHeader
  cases params.isRegTestNet with
  | true => simp [Check.pass]
  | false => cases hret : accept.noReturn header <;> simp [Check.pass, Check.fail]

/-- The verdict on a header that is not known is right, whatever comes out of `CheckBlockHeader` where it ends without a
return statement, exactly on the regression test network and where no input is missing. -/
theorem acceptBlockHeader_exact_iff (hfresh : s.index.find block.hash = none) (hnew : new ∉ s.index.mapBlockIndex) :
    (∀ noReturn, (env.withNoReturn noReturn).HeaderVerdict src s new block ∧
      checkBlockHeader env.params (env.withNoReturn noReturn).accept block.toCBlockHeader false = .ok ()) ↔
    env.params.isRegTestNet = true ∧ (env.Acceptable src s block → env.HasModifierInput s block) := by
  constructor
  · intro h
    obtain ⟨-, hchecked⟩ := h fun _ => false
    have hreg : env.params.isRegTestNet = true := by
      rcases checkBlockHeader_noReturn.mp hchecked with hreg | hret
      · exact hreg
      · cases hret
    refine ⟨hreg, fun hacc => ?_⟩
    have hverdict : (env.withNoReturn fun _ => false).HeaderVerdict src s new block ↔ _ :=
      headerVerdict_iff hfresh hnew hchecked
    exact hverdict.mp (h _).1 (acceptable_withNoReturn.mpr hacc)
  · rintro ⟨hreg, hinput⟩ noReturn
    have hchecked : checkBlockHeader env.params (env.withNoReturn noReturn).accept block.toCBlockHeader false = .ok () :=
      checkBlockHeader_noReturn.mpr (Or.inl hreg)
    have hverdict : (env.withNoReturn noReturn).HeaderVerdict src s new block ↔ _ :=
      headerVerdict_iff hfresh hnew hchecked
    exact ⟨hverdict.mpr fun hacc => hinput (acceptable_withNoReturn.mp hacc), hchecked⟩

/-- The chain of the genesis block. -/
def genesisState : ChainState := { runArrivals (chainSource 1) (chainArrivals 1) with chainActive := ⟨[some 0]⟩ }

/-- A block on top of the genesis block. -/
def childBlock : CBlock := ⟨⟨1, 7, 0, 0, 100, 0, 0⟩, [idleCoinBase]⟩

theorem hasModifierInput_child : regTestProcess.HasModifierInput genesisState childBlock := by
  intro pprev hprev hV2
  have hfind : genesisState.index.find childBlock.hashPrevBlock = some 0 := by decide
  cases hfind.symm.trans hprev
  exact absurd hV2 (by decide)

/-- The header of a block on the genesis block is accepted on the regression test network. -/
theorem acceptBlockHeader_exact_iff_child : regTestProcess.Acceptable (chainSource 1) genesisState childBlock ∧
    ∀ noReturn, (regTestProcess.withNoReturn noReturn).HeaderVerdict (chainSource 1) genesisState 1 childBlock ∧
      checkBlockHeader regTestProcess.params (regTestProcess.withNoReturn noReturn).accept childBlock.toCBlockHeader false = .ok () :=
  ⟨.inr ⟨0, by decide, by decide, rfl⟩,
    (acceptBlockHeader_exact_iff (by decide) (by decide)).mpr ⟨rfl, fun _ => hasModifierInput_child⟩⟩

/-- The genesis block on the main network, where `CheckBlockHeader` happens to return false. -/
theorem not_acceptBlockHeader_exact : ¬ ∀ (env : ProcessEnv) (src : BlockSource) (s : ChainState) (new : Ptr)
    (block : CBlock), s.index.find block.hash = none → new ∉ s.index.mapBlockIndex →
    ∀ noReturn, (env.withNoReturn noReturn).HeaderVerdict src s new block := by
  intro h
  obtain ⟨r, s', hrun, hiff, -⟩ := h { regTestProcess with params := mainNetParams } (chainSource 1) .init 0
    ((chainSource 1).block 0) rfl List.not_mem_nil fun _ => false
  obtain ⟨pindex, rfl⟩ := hiff.mpr (Or.inl rfl)
  cases hrun

end ProcessEnv

end DigiWage
