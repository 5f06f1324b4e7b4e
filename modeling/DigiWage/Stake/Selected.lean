import DigiWage.Lib.Rounds
import DigiWage.Stake.Modifier
import Mathlib.Data.List.Perm.Subperm

/-!
# The blocks of a stake modifier

What `ComputeNextStakeModifier` selects. The search of a round is `scanRound`, so a round takes what `Picks` says, whatever the times of the
blocks are.
-/

namespace DigiWage

open Lib

/-- The blocks from which a modifier is made: the last ones of the chain, back to the first time before the interval. -/
def candidates (start : Int) (chain : List StakeEntry) : List StakeEntry := chain.takeWhile fun e => decide (start ≤ e.nTime)

/-- The candidates in the order of `vSortedByTimestamp`. -/
def sortedCandidates (start : Int) (chain : List StakeEntry) : List StakeEntry :=
  (candidates start chain).reverse.mergeSort fun a b => candidateLe (a.nTime, a.hash) (b.nTime, b.hash)

/-- `fModifierV2`: the earliest candidate is at the height of the new selection. -/
def usesNewSelection (params : StakeParams) (sorted : List StakeEntry) : Bool :=
  match sorted with
  | [] => false
  | e :: _ => decide (params.heightStartStakeModifierNewSelection ≤ e.nHeight)

/-- `nSelectionIntervalStop` after some rounds. -/
def intervalStop (start : Int) : Nat → Int
  | 0 => start
  | nRound + 1 => intervalStop start nRound + getStakeModifierSelectionIntervalSection nRound

/-- What the round after those that selected `sel` takes of the candidates. -/
def TakesRound (hash : List UInt8 → Uint256) (fModifierV2 : Bool) (nStakeModifier : UInt64) (start : Int) (cands sel : List StakeEntry)
    (e : StakeEntry) : Prop :=
  Picks (fun c => (c.nTime : Int)) (fun c => (hashSelection hash fModifierV2 nStakeModifier c).toNat)
    (fun c => c ∈ cands ∧ c.hash ∉ sel.map (·.hash)) (intervalStop start (sel.length + 1)) e

/-- Each bit of a modifier is the entropy bit of the block that the round of this number selected. -/
def HasBits (nStakeModifier : UInt64) (sel : List StakeEntry) : Prop :=
  ∀ i < 64, nStakeModifier.toNat.testBit i = true ↔ ∃ e, sel[i]? = some e ∧ getStakeEntropyBit e.hash = 1

/-- The blocks that are selected on a chain, and the modifier made out of them. -/
structure ModifierSelection (params : StakeParams) (hash : List UInt8 → Uint256) (start : Int) (chain : List StakeEntry)
    (nStakeModifier : UInt64) (sel : List StakeEntry) (nStakeModifierNew : UInt64) : Prop where
  length : sel.length = min 64 (candidates start chain).length
  nodup : (sel.map (·.hash)).Nodup
  takes : ∀ i e, sel[i]? = some e → TakesRound hash (usesNewSelection params (sortedCandidates start chain)) nStakeModifier start
    (candidates start chain) (sel.take i) e
  bits : HasBits nStakeModifierNew sel

variable {params : StakeParams} {hash : List UInt8 → Uint256} {literal : UInt64} {find : Uint256 → Option StakeEntry}
variable {es : List StakeEntry} {prev : UInt64}

/-! ## One round -/

theorem selectLoop_none (hfind : ∀ e ∈ es, find e.hash = some e) (mapSelectedBlocks : List Uint256) (stop : Int)
    (best : Option (Uint256 × StakeEntry)) :
    selectLoop params hash find mapSelectedBlocks stop prev none best (es.map fun e => (e.nTime, e.hash)) =
      selectLoop params hash find mapSelectedBlocks stop prev (some (usesNewSelection params es)) best
        (es.map fun e => (e.nTime, e.hash)) := by
  cases es with
  | nil => rfl
  | cons e es =>
    simp only [List.map_cons, selectLoop, hfind e List.mem_cons_self]
    rfl

theorem selectLoop_eq_scanRound (mapSelectedBlocks : List Uint256) (stop : Int) (fModifierV2 : Bool)
    (hfind : ∀ e ∈ es, find e.hash = some e) (best : Option StakeEntry) :
    selectLoop params hash find mapSelectedBlocks stop prev (some fModifierV2)
      (best.map fun b => (hashSelection hash fModifierV2 prev b, b)) (es.map fun e => (e.nTime, e.hash)) =
      some ((scanRound (fun c => (c.nTime : Int)) (fun c => (hashSelection hash fModifierV2 prev c).toNat)
        (fun c => decide (c.hash ∈ mapSelectedBlocks)) stop best es).map fun b => (hashSelection hash fModifierV2 prev b, b)) := by
  induction es generalizing best with
  | nil => cases best <;> rfl
  | cons e es ih =>
    have ih := ih fun c hc => hfind c (List.mem_cons_of_mem e hc)
    rw [List.map_cons, selectLoop, hfind e List.mem_cons_self]
    cases best with
    | none =>
      simp only [Option.map_none, Option.isSome_none, Bool.false_and, Bool.false_eq_true, if_false, Option.getD_some, scanRound,
        decide_eq_true_eq]
      split
      · exact ih none
      · exact ih (some e)
    | some b =>
      simp only [Option.map_some, Option.isSome_some, Bool.true_and, decide_eq_true_eq, Option.getD_some, scanRound]
      split
      · rfl
      · split
        · exact ih (some b)
        · by_cases hlt : hashSelection hash fModifierV2 prev e < hashSelection hash fModifierV2 prev b
          · rw [if_pos hlt, if_pos (BitVec.lt_def.mp hlt)]
            exact ih (some e)
          · rw [if_neg hlt, if_neg fun h => hlt (BitVec.lt_def.mpr h)]
            exact ih (some b)

theorem selectBlockFromCandidates_picks (hfind : ∀ e ∈ es, find e.hash = some e) (hsorted : es.Pairwise fun a b => a.nTime ≤ b.nTime)
    {mapSelectedBlocks : List Uint256} (hleft : ∃ c ∈ es, c.hash ∉ mapSelectedBlocks) (stop : Int) : ∃ e,
      selectBlockFromCandidates params hash find (es.map fun e => (e.nTime, e.hash)) mapSelectedBlocks stop prev = some e ∧
      Picks (fun c => (c.nTime : Int)) (fun c => (hashSelection hash (usesNewSelection params es) prev c).toNat)
        (fun c => c ∈ es ∧ c.hash ∉ mapSelectedBlocks) stop e := by
  obtain ⟨e, hscan, htakes⟩ := @scanRound_picks StakeEntry Int Nat _ _ (fun c => (c.nTime : Int))
    (fun c => (hashSelection hash (usesNewSelection params es) prev c).toNat) (fun c => decide (c.hash ∈ mapSelectedBlocks)) stop es
    (hsorted.imp fun h => Int.ofNat_le.mpr h) (by simpa using hleft)
  refine ⟨e, ?_, by simpa using htakes⟩
  have hloop := @selectLoop_eq_scanRound params hash find es prev mapSelectedBlocks stop (usesNewSelection params es) hfind none
  rw [hscan] at hloop
  rw [selectBlockFromCandidates, selectLoop_none hfind]
  simp only [Option.map_none] at hloop
  rw [hloop]
  rfl

/-! ## All rounds -/

theorem HasBits.snoc {nStakeModifierNew : UInt64} {sel : List StakeEntry} (h : HasBits nStakeModifierNew sel) (hlen : sel.length < 64)
    (e : StakeEntry) :
    HasBits (nStakeModifierNew ||| (UInt64.ofNat (getStakeEntropyBit e.hash) <<< UInt64.ofNat sel.length)) (sel ++ [e]) := by
  intro i hi
  have hshift : (UInt64.ofNat sel.length).toNat % 64 = sel.length := by
    rw [UInt64.toNat_ofNat']
    omega
  have hbit : getStakeEntropyBit e.hash = 0 ∨ getStakeEntropyBit e.hash = 1 := by
    unfold getStakeEntropyBit
    omega
  have hvalue : (UInt64.ofNat (getStakeEntropyBit e.hash)).toNat = getStakeEntropyBit e.hash := by
    rw [UInt64.toNat_ofNat']
    omega
  rw [UInt64.toNat_or, UInt64.toNat_shiftLeft, hshift, hvalue, Nat.testBit_or, Nat.testBit_mod_two_pow, Nat.testBit_shiftLeft,
    Bool.or_eq_true, h i hi]
  simp only [hi, decide_true, Bool.true_and, Bool.and_eq_true, decide_eq_true_eq]
  rcases Nat.lt_trichotomy i sel.length with hlt | rfl | hlt
  · rw [List.getElem?_append_left hlt]
    exact ⟨fun h => h.resolve_right (by omega), .inl⟩
  · rw [List.getElem?_append_right (Nat.le_refl _), Nat.sub_self, List.getElem?_eq_none (Nat.le_refl _)]
    rcases hbit with hbit | hbit <;> simp [hbit]
  · rw [List.getElem?_eq_none hlt.le, List.getElem?_eq_none (by simp; omega)]
    rcases hbit with hbit | hbit
    · simp [hbit]
    · simp [hbit, Nat.testBit_one_eq_true_iff_self_eq_zero]
      omega

theorem hasBits_zero : HasBits 0 [] := fun i _ => by simp

theorem exists_left (hnodup : (es.map (·.hash)).Nodup) {mapSelectedBlocks : List Uint256} (hlt : mapSelectedBlocks.length < es.length) :
    ∃ c ∈ es, c.hash ∉ mapSelectedBlocks := by
  by_contra hall
  push Not at hall
  have hsubset : es.map (·.hash) ⊆ mapSelectedBlocks := by
    intro h hh
    obtain ⟨c, hc, rfl⟩ := List.mem_map.mp hh
    exact hall c hc
  have hle := (hnodup.subperm hsubset).length_le
  rw [List.length_map] at hle
  omega

theorem selectRounds_spec (hfind : ∀ e ∈ es, find e.hash = some e) (hsorted : es.Pairwise fun a b => a.nTime ≤ b.nTime)
    (hnodup : (es.map (·.hash)).Nodup) (start : Int) : ∀ (left : Nat) (done : List StakeEntry) (nStakeModifierNew : UInt64),
    done.length + left ≤ min 64 es.length → Rounds (TakesRound hash (usesNewSelection params es) prev start es) done →
    HasBits nStakeModifierNew done → ∃ sel m,
      selectRounds params hash find (es.map fun e => (e.nTime, e.hash)) prev left done.length (intervalStop start done.length)
        (done.map (·.hash)).reverse nStakeModifierNew = some m ∧
      sel.length = done.length + left ∧ Rounds (TakesRound hash (usesNewSelection params es) prev start es) sel ∧ HasBits m sel := by
  intro left
  induction left with
  | zero =>
    intro done new _ hdone hbits
    exact ⟨done, new, rfl, rfl, hdone, hbits⟩
  | succ left ih =>
    intro done new hlen hdone hbits
    have hleft := @exists_left es hnodup (done.map (·.hash)).reverse (by simp; omega)
    obtain ⟨e, hselect, htakes⟩ := selectBlockFromCandidates_picks hfind hsorted hleft (intervalStop start (done.length + 1))
    simp only [List.mem_reverse] at htakes
    obtain ⟨sel, m, hrounds, hsel, hr, hm⟩ := ih (done ++ [e])
      (new ||| (UInt64.ofNat (getStakeEntropyBit e.hash) <<< UInt64.ofNat done.length))
      (by rw [List.length_append, List.length_singleton]; omega) (.snoc hdone htakes) (hbits.snoc (by omega) e)
    refine ⟨sel, m, ?_, by rw [hsel, List.length_append, List.length_singleton]; omega, hr, hm⟩
    have hstop : intervalStop start done.length + getStakeModifierSelectionIntervalSection done.length =
        intervalStop start (done.length + 1) := rfl
    rw [selectRounds, hstop, hselect]
    simp only [List.length_append, List.length_singleton, List.map_append, List.map_singleton, List.reverse_append, List.reverse_singleton,
      List.singleton_append] at hrounds
    exact hrounds

/-! ## The candidates -/

theorem sortedCandidates_perm (start : Int) (chain : List StakeEntry) : (sortedCandidates start chain).Perm (candidates start chain) :=
  (List.mergeSort_perm _ _).trans (List.reverse_perm _)

theorem sortedByTimestamp_eq (start : Int) (chain : List StakeEntry) :
    sortedByTimestamp start chain = (sortedCandidates start chain).map fun e => (e.nTime, e.hash) := by
  rw [sortedByTimestamp, sortedCandidates, candidates, ← List.map_reverse]
  exact (@List.map_mergeSort StakeEntry (Nat × Uint256) (fun a b => candidateLe (a.nTime, a.hash) (b.nTime, b.hash)) candidateLe
    (fun e => (e.nTime, e.hash)) _ fun _ _ _ _ => rfl).symm

theorem sortedCandidates_pairwise (start : Int) (chain : List StakeEntry) :
    (sortedCandidates start chain).Pairwise fun a b => a.nTime ≤ b.nTime := by
  refine List.Pairwise.imp ?_ (List.pairwise_mergeSort ?_ ?_ _)
  · intro a b h
    simp only [candidateLe, Bool.or_eq_true, Bool.and_eq_true, decide_eq_true_eq, beq_iff_eq] at h
    omega
  · intro a b c hab hbc
    simp only [candidateLe, Bool.or_eq_true, Bool.and_eq_true, decide_eq_true_eq, beq_iff_eq, BitVec.le_def] at hab hbc ⊢
    omega
  · intro a b
    simp only [candidateLe, Bool.or_eq_true, Bool.and_eq_true, decide_eq_true_eq, beq_iff_eq, BitVec.le_def]
    omega

namespace StakeIndex

variable {n : StakeIndex} {p : Ptr}

theorem chain_find (hp : p ∈ n.index.mapBlockIndex) :
    (∀ e ∈ n.chain p, n.find e.hash = some e) ∧ ((n.chain p).map (·.hash)).Nodup := by
  have hmem : ∀ q ∈ n.index.path p, q ∈ n.index.mapBlockIndex := fun q hq =>
    n.index.rooted.anc_mem hp ((BlockIndex.mem_path hp).mp hq)
  have hpath : (n.index.path p).Nodup := (n.index.rooted.pairwise_path hp).imp fun hlt heq => by
    rw [heq] at hlt
    exact absurd hlt (Nat.lt_irrefl _)
  constructor
  · intro e he
    obtain ⟨q, hq, rfl⟩ := List.mem_map.mp he
    exact find_of_mem (hmem q hq)
  · rw [chain, List.map_map]
    exact List.Nodup.map_on (fun q hq r hr heq => n.index.hash_inj q (hmem q hq) r (hmem r hr) heq) hpath

theorem exists_generated (hok : n.FieldsOk params hash literal) (hp : p ∈ n.index.mapBlockIndex) (hpos : 0 < n.index.nHeight p)
    (hV1 : params.isStakeModifierV2 1 = false) : ∃ e ∈ n.chain p, e.generatedStakeModifier = true := by
  obtain ⟨q, hanc, hheight⟩ := n.index.rooted.exists_at hp (show 1 ≤ n.index.nHeight p from hpos)
  have hq := n.index.rooted.anc_mem hp hanc
  refine ⟨n.entry q, List.mem_map.mpr ⟨q, (BlockIndex.mem_path hp).mpr hanc, rfl⟩, ?_⟩
  cases hpar : n.index.pprev q with
  | none =>
    have := n.index.rooted.root hq hpar
    omega
  | some r =>
    have hr := n.index.rooted.mem hq hpar
    have hsucc := n.index.rooted.succ hq hpar
    have hzero : (n.entry r).nHeight = 0 := by
      show n.index.nHeight r = 0
      omega
    rw [← hheight] at hV1
    rw [entry, hok.next q hq r hpar hV1, chainFields, chain_none hr (pprev_of_nHeight_zero hr hzero)]
    simp only [computeNextStakeModifier, hzero, if_true, StakeFields.setStakeModifier, Bool.false_or]

theorem computeNextStakeModifier_eq {chain : List StakeEntry} {e last : StakeEntry} {m : UInt64} (hhead : chain.head? = some e)
    (hpos : e.nHeight ≠ 0) (hlast : chain.find? (·.generatedStakeModifier) = some last)
    (hrounds : selectRounds params hash find ((sortedCandidates (selectionIntervalStart e.nTime) chain).map fun c => (c.nTime, c.hash))
      (last.getStakeModifierV1 params) (min 64 (candidates (selectionIntervalStart e.nTime) chain).length) 0
      (selectionIntervalStart e.nTime) [] 0 = some m) :
    computeNextStakeModifier params hash literal find chain =
      if e.nTime / MODIFIER_INTERVAL ≤ last.nTime / MODIFIER_INTERVAL then (true, last.getStakeModifierV1 params, false)
      else (true, m, true) := by
  obtain ⟨rest, rfl⟩ := List.head?_eq_some_iff.mp hhead
  rw [computeNextStakeModifier, if_neg hpos, hlast]
  simp only [sortedByTimestamp_eq, List.length_map, (sortedCandidates_perm _ _).length_eq, hrounds]

theorem exists_modifierSelection (hp : p ∈ n.index.mapBlockIndex) (start : Int) (nStakeModifier : UInt64) : ∃ sel m,
    selectRounds params hash n.find ((sortedCandidates start (n.chain p)).map fun c => (c.nTime, c.hash)) nStakeModifier
      (min 64 (candidates start (n.chain p)).length) 0 start [] 0 = some m ∧
    ModifierSelection params hash start (n.chain p) nStakeModifier sel m := by
  obtain ⟨hfind, hnodup⟩ := chain_find hp
  -- the candidates are blocks of the chain
  have hperm := sortedCandidates_perm start (n.chain p)
  have hsub : (candidates start (n.chain p)).Sublist (n.chain p) := List.takeWhile_sublist _
  have hmem : ∀ c, c ∈ sortedCandidates start (n.chain p) ↔ c ∈ candidates start (n.chain p) := fun c => hperm.mem_iff
  obtain ⟨sel, m, hrounds, hlen, hsel, hbits⟩ := @selectRounds_spec params hash n.find _ nStakeModifier
    (fun c hc => hfind c (hsub.subset (hperm.subset hc))) (sortedCandidates_pairwise start (n.chain p))
    ((hperm.map _).nodup_iff.mpr (hnodup.sublist (hsub.map _))) start (min 64 (candidates start (n.chain p)).length) [] 0
    (by rw [hperm.length_eq, List.length_nil, Nat.zero_add]) .nil hasBits_zero
  refine ⟨sel, m, hrounds, by rw [hlen, List.length_nil, Nat.zero_add], ?_, fun i e he => ?_, hbits⟩
  · exact hsel.nodup_map fun l e h => h.mem.2
  · have htakes := hsel.takes_of_getElem? he
    unfold TakesRound at htakes ⊢
    simp only [hmem] at htakes
    exact htakes

theorem isStakeModifierV2_one (network : Network) : network.params.isStakeModifierV2 1 = false := by
  cases network <;> decide

/-- `ComputeNextStakeModifier` on the chain of a block does not fail, where block 1 has an old modifier, as it has on every network and
wherever the function is called. Where it makes a modifier out of blocks, each round takes the block with the least hash among those
that are left up to its stop, or the earliest one, and the modifier consists of the entropy bits of these blocks. -/
theorem computeNextStakeModifier_spec (params : StakeParams) (hash : List UInt8 → Uint256) {literal : UInt64} {ops : List (Ptr × CBlock)}
    {n : StakeIndex} (hrun : run params hash literal ops = some n) {p : Ptr} (hp : p ∈ n.index.mapBlockIndex)
    (hV1 : params.isStakeModifierV2 1 = false) :
    (computeNextStakeModifier params hash literal n.find (n.chain p)).1 = true ∧
    (0 < n.index.nHeight p → ∀ m, computeNextStakeModifier params hash literal n.find (n.chain p) = (true, m, true) →
      ∃ last sel, (n.chain p).find? (·.generatedStakeModifier) = some last ∧
        ModifierSelection params hash (selectionIntervalStart (n.index.entry p).nTime) (n.chain p) (last.getStakeModifierV1 params)
          sel m) := by
  obtain ⟨l, hl⟩ := CChain.path_head hp
  have hhead : (n.chain p).head? = some (n.entry p) := by rw [chain, hl, List.map_cons, List.head?_cons]
  by_cases hzero : n.index.nHeight p = 0
  · refine ⟨?_, fun hpos => absurd hzero hpos.ne'⟩
    obtain ⟨rest, hrest⟩ := List.head?_eq_some_iff.mp hhead
    rw [hrest, computeNextStakeModifier, if_pos (show (n.entry p).nHeight = 0 from hzero)]
  · obtain ⟨e, he, hgenerated⟩ := exists_generated (fieldsOk_run hrun) hp (Nat.pos_of_ne_zero hzero) hV1
    obtain ⟨last, hlast⟩ : ∃ last, (n.chain p).find? (·.generatedStakeModifier) = some last :=
      Option.isSome_iff_exists.mp (List.find?_isSome.mpr ⟨e, he, hgenerated⟩)
    obtain ⟨sel, m, hrounds, hselects⟩ := @exists_modifierSelection params hash n p hp (selectionIntervalStart (n.index.entry p).nTime)
      (last.getStakeModifierV1 params)
    rw [computeNextStakeModifier_eq hhead hzero hlast hrounds]
    split
    · exact ⟨rfl, fun _ m h => by simp at h⟩
    · refine ⟨rfl, fun _ m' h => ⟨last, sel, hlast, ?_⟩⟩
      obtain rfl : m = m' := by simpa using h
      exact hselects

/-- A third block, later than the interval from which the next modifier is made begins. -/
def threeBlocks : List (Ptr × CBlock) := twoBlocks ++ [(2, ⟨⟨3, 7, 2, 0, 6000, 0, 0⟩, []⟩)]

theorem run_threeBlocks : (run regTestStakeParams (fun _ => 0) 4096 threeBlocks).isSome := by decide

theorem computeNextStakeModifier_spec_threeBlocks : ∃ n, run regTestStakeParams (fun _ => 0) 4096 threeBlocks = some n ∧
    (computeNextStakeModifier regTestStakeParams (fun _ => 0) 4096 n.find (n.chain 2)).1 = true ∧
    ∃ last sel, ModifierSelection regTestStakeParams (fun _ => 0) 3913 (n.chain 2)
      (StakeEntry.getStakeModifierV1 regTestStakeParams last) sel 1 := by
  have hrun := (Option.some_get run_threeBlocks).symm
  obtain ⟨hok, hselects⟩ := computeNextStakeModifier_spec regTestStakeParams (fun _ => 0) hrun (by decide : 2 ∈ _)
    (isStakeModifierV2_one .regTest)
  obtain ⟨last, sel, -, hsel⟩ := hselects (by decide +kernel) 1 (by decide +kernel)
  exact ⟨_, hrun, hok, last, sel, hsel⟩

end StakeIndex

end DigiWage
