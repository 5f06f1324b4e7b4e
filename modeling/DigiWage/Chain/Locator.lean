import DigiWage.Chain.Active

/-!
# Block locators

`CChain::GetLocator` of `chain.cpp` and `FindForkInGlobalIndex` of `main.cpp`: a node tells another one hashes of its chain, and that
one looks for the last of these blocks that is on its own chain.

* `getLocatorLoop_spec`: a locator goes down to the root, and with each hash the depth is at most doubled.
-/

namespace DigiWage

open Lib

namespace CChain

def genesis (c : CChain) : Option Ptr := c.get 0

/-- The loop of `GetLocator`, for `fuel` rounds at most; `none` where it goes on. A step that does not fit in an `int` would be larger
than any height, and is not taken. -/
def getLocatorLoop (t : BlockIndex) (c : CChain) : Nat → Option Ptr → Nat → List Uint256 → Option (List Uint256)
  | _, none, _, vHave => some vHave
  | 0, some _, _, _ => none
  | fuel + 1, some pindex, nStep, vHave =>
    let vHave := vHave ++ [(t.entry pindex).hash]
    if t.nHeight pindex = 0 then some vHave
    else
      let nHeight := t.nHeight pindex - nStep
      let pindex := if c.contains t pindex then c.get nHeight else t.getAncestor pindex nHeight
      getLocatorLoop t c fuel pindex (if vHave.length > 10 then nStep * 2 else nStep) vHave

/-- `CChain::GetLocator`, in as many rounds as there are heights. -/
def getLocator (t : BlockIndex) (c : CChain) (pindex : Option Ptr) : Option (List Uint256) :=
  match pindex.or c.tip with
  | none => some []
  | some p => getLocatorLoop t c (t.nHeight p + 1) (some p) 1 []

def findForkInGlobalIndex (t : BlockIndex) (c : CChain) : List Uint256 → Option Ptr
  | [] => c.genesis
  | hash :: vHave =>
    match t.find hash with
    | some pindex => if c.contains t pindex then some pindex else findForkInGlobalIndex t c vHave
    | none => findForkInGlobalIndex t c vHave

/-- The chain after any calls of `SetTip`, with the last tip, where blocks may be added to the index in between. -/
inductive SetTips : BlockIndex → CChain → Option Ptr → Prop
  | empty (t : BlockIndex) : SetTips t ⟨[]⟩ none
  | setTip {t : BlockIndex} {c : CChain} {tip : Option Ptr} (h : SetTips t c tip) (pindex : Option Ptr)
      (hmem : ∀ p ∈ pindex, p ∈ t.mapBlockIndex) : SetTips t (c.setTip t pindex) pindex
  | add {t : BlockIndex} {c : CChain} {tip : Option Ptr} (h : SetTips t c tip) (new : Ptr) (block : CBlockHeader) :
      SetTips (t.add new block) c tip

/-- A hash commits to the header, and so to the parent: blocks with one hash have parents with one hash. -/
def SameParents (t t' : BlockIndex) : Prop :=
  ∀ p q, p ∈ t.mapBlockIndex → q ∈ t'.mapBlockIndex → (t.entry p).hash = (t'.entry q).hash →
    (t.pprev p).map (fun r => (t.entry r).hash) = (t'.pprev q).map fun r => (t'.entry r).hash

/-- The block of `f`, which has the entry `g` in the index of another node, is the last ancestor of `x` on the chain of that node. -/
structure ForkPoint (t : BlockIndex) (x f : Ptr) (t' : BlockIndex) (c : CChain) (g : Ptr) : Prop where
  anc : t.IsAnc f x
  mem : g ∈ t'.mapBlockIndex
  hash : (t.entry f).hash = (t'.entry g).hash
  shared : c.contains t' g = true
  last : ∀ a, t.IsAnc a x → ∀ b ∈ t'.mapBlockIndex, (t.entry a).hash = (t'.entry b).hash → c.contains t' b = true → t.IsAnc a f

/-- Ancestors of `x` down to a root, where the depth below `x` is at most doubled, and one more, with each of them. -/
inductive Descends (t : BlockIndex) (x : Ptr) : List Ptr → Prop
  | root {p : Ptr} (hp : t.IsAnc p x) (h : t.nHeight p = 0) : Descends t x [p]
  | step {p q : Ptr} {ps : List Ptr} (hp : t.IsAnc p x) (hlt : t.nHeight q < t.nHeight p)
      (hdepth : t.nHeight x - t.nHeight q ≤ 2 * (t.nHeight x - t.nHeight p) + 1) (h : Descends t x (q :: ps)) : Descends t x (p :: q :: ps)

variable {t t' : BlockIndex} {c : CChain} {tip : Option Ptr} {p x f g : Ptr}

/-! ## `SetTip` -/

theorem setTips_eq (h : SetTips t c tip) : tip = none ∧ c = ⟨[]⟩ ∨ ∃ p ∈ t.mapBlockIndex, tip = some p ∧ c = ofTip t p := by
  induction h with
  | empty t => exact .inl ⟨rfl, rfl⟩
  | @setTip t c tip h pindex hmem ih =>
    cases pindex with
    | none => exact .inl ⟨rfl, rfl⟩
    | some q =>
      have hq := hmem q rfl
      refine .inr ⟨q, hq, rfl, ?_⟩
      rcases ih with ⟨-, rfl⟩ | ⟨p, hp, -, rfl⟩
      · exact setTip_empty hq
      · exact setTip_ofTip hp hq
  | @add t c tip h new block ih =>
    rcases ih with ih | ⟨p, hp, htip, hc⟩
    · exact .inl ih
    · refine .inr ⟨p, ?_, htip, by rw [ofTip_add hp, hc]⟩
      unfold BlockIndex.add
      split
      · exact List.mem_cons_of_mem _ hp
      · exact hp

theorem SetTips.closed (h : SetTips t c tip) : Closed t c.vChain := by
  rcases setTips_eq h with ⟨-, rfl⟩ | ⟨p, hp, -, rfl⟩
  · intro a i ha
    simp at ha
  · exact closed_ofTip hp

theorem contains_iff_getElem? : c.contains t p = true ↔ c.vChain[t.nHeight p]? = some (some p) := by
  rw [contains, beq_iff_eq, get, Option.join_eq_some_iff]

theorem Closed.contains (hc : Closed t c.vChain) {a : Ptr} (hp : c.contains t p = true) (ha : t.IsAnc a p) : c.contains t a = true :=
  contains_iff_getElem?.mpr ((hc p _ (contains_iff_getElem?.mp hp)).2.2 a ha)

/-! ## `GetLocator` -/

theorem goDown_spec (hc : Closed t c.vChain) (hp : p ∈ t.mapBlockIndex) {nHeight : Nat} (h : nHeight ≤ t.nHeight p) :
    ∃ a, (if c.contains t p then c.get nHeight else t.getAncestor p nHeight) = some a ∧ t.IsAnc a p ∧ t.nHeight a = nHeight := by
  obtain ⟨a, ha, rfl⟩ := t.rooted.exists_at hp h
  refine ⟨a, ?_, ha, rfl⟩
  split
  · rename_i hcontains
    have hget := contains_iff_getElem?.mp (hc.contains hcontains ha)
    rw [get, hget]
    rfl
  · exact (BlockIndex.getAncestor_some_iff hp).mpr ⟨ha, rfl⟩

theorem getLocatorLoop_spec (hc : Closed t c.vChain) (hx : x ∈ t.mapBlockIndex) : ∀ (n : Nat) {p : Ptr} (nStep : Nat) (vHave : List Uint256),
    t.IsAnc p x → t.nHeight p ≤ n → 0 < nStep → (t.nHeight p = 0 ∨ nStep ≤ t.nHeight x - t.nHeight p + 1) →
    ∃ ps, Descends t x (p :: ps) ∧ ∀ fuel, n < fuel →
      getLocatorLoop t c fuel (some p) nStep vHave = some (vHave ++ (p :: ps).map fun q => (t.entry q).hash) := by
  intro n
  induction n with
  | zero =>
    intro p nStep vHave hp hn _ _
    have hroot := Nat.le_zero.mp hn
    refine ⟨[], .root hp hroot, fun fuel hfuel => ?_⟩
    obtain ⟨fuel, rfl⟩ := Nat.exists_eq_succ_of_ne_zero hfuel.ne'
    rw [getLocatorLoop]
    exact if_pos hroot
  | succ n ih =>
    intro p nStep vHave hp hn hpos hstep
    have hle := t.rooted.anc_le hx hp
    by_cases hroot : t.nHeight p = 0
    · refine ⟨[], .root hp hroot, fun fuel hfuel => ?_⟩
      obtain ⟨fuel, rfl⟩ := Nat.exists_eq_succ_of_ne_zero (Nat.zero_lt_of_lt hfuel).ne'
      rw [getLocatorLoop]
      exact if_pos hroot
    · obtain ⟨a, hdown, ha, hheight⟩ := goDown_spec hc (t.rooted.anc_mem hx hp) (Nat.sub_le (t.nHeight p) nStep)
      have hstep := hstep.resolve_left hroot
      -- the next step is the same or twice as large
      have hnext : ∀ m, m = nStep ∨ m = nStep * 2 → 0 < m ∧ (t.nHeight a = 0 ∨ m ≤ t.nHeight x - t.nHeight a + 1) := by
        intro m hm
        omega
      obtain ⟨hpos', hstep'⟩ := hnext (if (vHave ++ [(t.entry p).hash]).length > 10 then nStep * 2 else nStep) (by
        split
        · exact .inr rfl
        · exact .inl rfl)
      obtain ⟨ps, hps, hloop⟩ := ih (if (vHave ++ [(t.entry p).hash]).length > 10 then nStep * 2 else nStep)
        (vHave ++ [(t.entry p).hash]) (ha.trans hp) (by omega) hpos' hstep'
      refine ⟨a :: ps, .step hp (by omega) (by omega) hps, fun fuel hfuel => ?_⟩
      obtain ⟨fuel, rfl⟩ := Nat.exists_eq_succ_of_ne_zero (Nat.zero_lt_of_lt hfuel).ne'
      rw [getLocatorLoop]
      simp only
      rw [if_neg hroot, hdown, hloop fuel (Nat.lt_of_succ_lt_succ hfuel), List.append_assoc]
      rfl

theorem getLocator_spec (h : SetTips t c tip) (hx : x ∈ t.mapBlockIndex) : ∃ ps, Descends t x (x :: ps) ∧
    c.getLocator t (some x) = some ((x :: ps).map fun a => (t.entry a).hash) ∧
    ∀ fuel, t.nHeight x < fuel → getLocatorLoop t c fuel (some x) 1 [] = c.getLocator t (some x) := by
  obtain ⟨ps, hps, hloop⟩ := getLocatorLoop_spec h.closed hx (t.nHeight x) 1 [] (.refl x) le_rfl Nat.one_pos (.inr (by omega))
  have heq : c.getLocator t (some x) = some ((x :: ps).map fun a => (t.entry a).hash) := hloop _ (Nat.lt_succ_self _)
  exact ⟨ps, hps, heq, fun fuel hfuel => by rw [heq]; exact hloop fuel hfuel⟩

theorem Descends.isAnc {ps : List Ptr} (h : Descends t x ps) : ∀ a ∈ ps, t.IsAnc a x := by
  induction h with
  | root hp _ => simpa using hp
  | step hp _ _ _ ih => exact List.forall_mem_cons.mpr ⟨hp, ih⟩

theorem Descends.pairwise {ps : List Ptr} (h : Descends t x ps) : ps.Pairwise fun a b => t.nHeight b < t.nHeight a := by
  induction h with
  | root _ _ => exact List.pairwise_singleton _ _
  | step _ hlt _ _ ih =>
    refine List.pairwise_cons.mpr ⟨fun a ha => ?_, ih⟩
    rcases List.mem_cons.mp ha with rfl | ha
    · exact hlt
    · exact ((List.pairwise_cons.mp ih).1 a ha).trans hlt

theorem Descends.getLast {ps : List Ptr} (h : Descends t x ps) : ∃ a, ps.getLast? = some a ∧ t.nHeight a = 0 := by
  induction h with
  | root _ h => exact ⟨_, rfl, h⟩
  | step _ _ _ _ ih =>
    obtain ⟨a, ha, hroot⟩ := ih
    exact ⟨a, by rw [List.getLast?_cons_cons, ha], hroot⟩

/-! ## `FindForkInGlobalIndex` -/

theorem findFork_above (hx : x ∈ t.mapBlockIndex) (hfork : ForkPoint t x f t' c g) (hp : t.IsAnc p x) (h : t.nHeight f < t.nHeight p)
    (vHave : List Uint256) : findForkInGlobalIndex t' c ((t.entry p).hash :: vHave) = findForkInGlobalIndex t' c vHave := by
  have hf := t.rooted.anc_mem hx hfork.anc
  rw [findForkInGlobalIndex]
  split
  · rename_i b hb
    obtain ⟨hmem, hhash⟩ := BlockIndex.find_some hb
    rw [if_neg]
    intro hcontains
    have hle := t.rooted.anc_le hf (hfork.last p hp b hmem hhash.symm hcontains)
    omega
  · rfl

theorem findFork_below (hparents : SameParents t t') (hc : Closed t' c.vChain) (hx : x ∈ t.mapBlockIndex) (hfork : ForkPoint t x f t' c g)
    (hp : t.IsAnc p x) (h : t.nHeight p ≤ t.nHeight f) (vHave : List Uint256) : ∃ b ∈ t'.mapBlockIndex,
      findForkInGlobalIndex t' c ((t.entry p).hash :: vHave) = some b ∧ (t.entry p).hash = (t'.entry b).hash ∧ c.contains t' b = true := by
  have hf := t.rooted.anc_mem hx hfork.anc
  have hpf : t.IsAnc p f := by
    rcases hp.total hfork.anc with hpf | hfp
    · exact hpf
    · rw [t.rooted.anc_eq (t.rooted.anc_mem hx hp) hfp h]
      exact .refl p
  obtain ⟨b, hb, hhash⟩ := exists_anc_of_label t.rooted t'.rooted hparents hf hfork.mem hfork.hash hpf
  have hmem := t'.rooted.anc_mem hfork.mem hb
  have hcontains := hc.contains hfork.shared hb
  refine ⟨b, hmem, ?_, hhash, hcontains⟩
  rw [findForkInGlobalIndex, hhash, BlockIndex.find_eq hmem]
  exact if_pos hcontains

theorem findFork_descends (hparents : SameParents t t') (hc : Closed t' c.vChain) (hx : x ∈ t.mapBlockIndex)
    (hfork : ForkPoint t x f t' c g) {ps : List Ptr} (h : Descends t x ps)
    (hhead : ∀ p ∈ ps.head?, t.nHeight p ≤ t.nHeight f → t.nHeight x - t.nHeight p ≤ 2 * (t.nHeight x - t.nHeight f)) :
    ∃ a b, t.IsAnc a x ∧ b ∈ t'.mapBlockIndex ∧ findForkInGlobalIndex t' c (ps.map fun q => (t.entry q).hash) = some b ∧
      (t.entry a).hash = (t'.entry b).hash ∧ c.contains t' b = true ∧ t.nHeight x - t.nHeight f ≤ t.nHeight x - t.nHeight a ∧
      t.nHeight x - t.nHeight a ≤ 2 * (t.nHeight x - t.nHeight f) := by
  induction h with
  | @root p hp hroot =>
    obtain ⟨b, hmem, hfind, hhash, hcontains⟩ := findFork_below hparents hc hx hfork hp (by omega) []
    exact ⟨p, b, hp, hmem, hfind, hhash, hcontains, by omega, hhead p rfl (by omega)⟩
  | @step p q ps hp hlt hdepth _ ih =>
    by_cases habove : t.nHeight f < t.nHeight p
    · have hle := t.rooted.anc_le hx hp
      rw [List.map_cons, findFork_above hx hfork hp habove]
      refine ih fun r hr hrf => ?_
      obtain rfl : q = r := by simpa using hr
      omega
    · obtain ⟨b, hmem, hfind, hhash, hcontains⟩ := findFork_below hparents hc hx hfork hp (by omega) ((q :: ps).map fun q => (t.entry q).hash)
      exact ⟨p, b, hp, hmem, hfind, hhash, hcontains, by omega, hhead p rfl (by omega)⟩

/-! ## `FindFork` -/

theorem SameParents.symm (h : SameParents t t') : SameParents t' t := fun q p hq hp hhash => (h p q hp hq hhash.symm).symm

theorem findFork_forkPoint (hparents : SameParents t t') (h : SetTips t' c tip) (hx : x ∈ t.mapBlockIndex)
    (hfork : ForkPoint t x f t' c g) {y : Ptr} (hy : y ∈ t'.mapBlockIndex) (hhash : (t.entry x).hash = (t'.entry y).hash) :
    c.findFork t' y = some g := by
  rcases setTips_eq h with ⟨-, rfl⟩ | ⟨q, hq, -, rfl⟩
  · have hshared := hfork.shared
    simp [contains, get] at hshared
  · have hgq := (contains_iff hq).mp hfork.shared
    have hgy : t'.IsAnc g y := by
      obtain ⟨b, hb, hlabel⟩ := exists_anc_of_label t.rooted t'.rooted hparents hx hy hhash hfork.anc
      rw [t'.hash_inj g hfork.mem b (t'.rooted.anc_mem hy hb) (hfork.hash.symm.trans hlabel)]
      exact hb
    rcases findFork_ofTip hq hy with ⟨r, hr, hrq, hry, hmax⟩ | ⟨-, hnone⟩
    · have hrmem := t'.rooted.anc_mem hy hry
      -- the last common ancestor is an ancestor of `x` too
      obtain ⟨a, ha, hlabel⟩ := exists_anc_of_label t'.rooted t.rooted hparents.symm hy hx hhash.symm hry
      have haf := hfork.last a ha r hrmem hlabel.symm ((contains_iff hq).mpr hrq)
      obtain ⟨b, hb, hlabel'⟩ := exists_anc_of_label t.rooted t'.rooted hparents (t.rooted.anc_mem hx hfork.anc) hfork.mem hfork.hash haf
      obtain rfl := t'.hash_inj r hrmem b (t'.rooted.anc_mem hfork.mem hb) (hlabel.trans hlabel')
      rw [hr, t'.rooted.anc_antisymm hfork.mem hb (hmax g hgq hgy)]
    · exact absurd hgq (hnone g hgy)

/-- A block for a test. -/
def testHeader (hash hashPrevBlock : Uint256) : CBlockHeader := ⟨hash, 1, hashPrevBlock, 0, 0, 0, 0⟩

/-- Two blocks on a root. -/
def nearIndex : BlockIndex := ((BlockIndex.empty.add 0 (testHeader 1 0)).add 1 (testHeader 2 1)).add 2 (testHeader 3 2)

/-- The same root and first block, and another one on these. -/
def farIndex : BlockIndex := ((BlockIndex.empty.add 10 (testHeader 1 0)).add 11 (testHeader 2 1)).add 12 (testHeader 4 2)

def farChain : CChain := (⟨[]⟩ : CChain).setTip farIndex (some 12)

theorem farChain_setTips : SetTips farIndex farChain (some 12) := (SetTips.empty farIndex).setTip (some 12) (by decide)

theorem nearIndex_sameParents : SameParents nearIndex farIndex := by
  have hall : ∀ p ∈ nearIndex.mapBlockIndex, ∀ q ∈ farIndex.mapBlockIndex, (nearIndex.entry p).hash = (farIndex.entry q).hash →
    (nearIndex.pprev p).map (fun r => (nearIndex.entry r).hash) = (farIndex.pprev q).map fun r => (farIndex.entry r).hash := by
    decide
  exact fun p q hp hq => hall p hp q hq

theorem nearIndex_forkPoint : ForkPoint nearIndex 2 1 farIndex farChain 11 where
  anc := .parent (by decide)
  mem := by decide
  hash := by decide
  shared := by decide
  last := by
    intro a ha b hb hhash hcontains
    have hall : ∀ a ∈ nearIndex.mapBlockIndex, ∀ b ∈ farIndex.mapBlockIndex, (nearIndex.entry a).hash = (farIndex.entry b).hash →
      a = 1 ∨ a = 0 := by decide
    rcases hall a (nearIndex.rooted.anc_mem (by decide) ha) b hb hhash with rfl | rfl
    · exact .refl 1
    · exact .parent (by decide)

/-- A chain on which `SetTip` is called holds the ancestors of the last tip. A locator of a block goes down to the root, and with it
another node finds a block of its chain below the block, at most twice as deep as the fork, which `FindFork` finds. -/
theorem locator_spec :
    (∀ (t : BlockIndex) (c : CChain) (tip : Option Ptr), SetTips t c tip → (tip = none → c.vChain = []) ∧
      ∀ p, tip = some p → c.vChain.length = t.nHeight p + 1 ∧ ∀ h a, c.get h = some a ↔ t.IsAnc a p ∧ t.nHeight a = h) ∧
    (∀ (t : BlockIndex) (c : CChain) (tip : Option Ptr), SetTips t c tip → ∀ x ∈ t.mapBlockIndex, ∃ ps : List Ptr,
      ps.head? = some x ∧ (∀ a ∈ ps, t.IsAnc a x) ∧ (ps.Pairwise fun a b => t.nHeight b < t.nHeight a) ∧
      (∃ a, ps.getLast? = some a ∧ t.nHeight a = 0) ∧ c.getLocator t (some x) = some (ps.map fun a => (t.entry a).hash) ∧
      ∀ fuel, t.nHeight x < fuel → getLocatorLoop t c fuel (some x) 1 [] = c.getLocator t (some x)) ∧
    ∀ (t : BlockIndex) (c : CChain) (tip : Option Ptr) (t' : BlockIndex) (c' : CChain) (tip' : Option Ptr), SetTips t c tip →
      SetTips t' c' tip' → SameParents t t' → ∀ x ∈ t.mapBlockIndex, ∀ f g, ForkPoint t x f t' c' g →
      (∃ vHave a b, c.getLocator t (some x) = some vHave ∧ findForkInGlobalIndex t' c' vHave = some b ∧ t.IsAnc a x ∧
        b ∈ t'.mapBlockIndex ∧ (t.entry a).hash = (t'.entry b).hash ∧ c'.contains t' b = true ∧
        t.nHeight x - t.nHeight f ≤ t.nHeight x - t.nHeight a ∧ t.nHeight x - t.nHeight a ≤ 2 * (t.nHeight x - t.nHeight f)) ∧
      ∀ y ∈ t'.mapBlockIndex, (t.entry x).hash = (t'.entry y).hash → c'.findFork t' y = some g := by
  refine ⟨fun t c tip h => ?_, fun t c tip h x hx => ?_, fun t c tip t' c' tip' h h' hparents x hx f g hfork => ⟨?_, ?_⟩⟩
  · rcases setTips_eq h with ⟨htip, hc⟩ | ⟨p, hp, htip, hc⟩
    · refine ⟨fun _ => by rw [hc], fun p hp => ?_⟩
      rw [htip] at hp
      cases hp
    · refine ⟨fun hnone => ?_, fun q hq => ?_⟩
      · rw [hnone] at htip
        cases htip
      · rw [hq] at htip
        obtain rfl := Option.some.inj htip
        rw [hc]
        exact ⟨length_ofTip hp, fun h a => get_ofTip hp h⟩
  · obtain ⟨ps, hps, heq, hfuel⟩ := getLocator_spec h hx
    exact ⟨x :: ps, rfl, hps.isAnc, hps.pairwise, hps.getLast, heq, hfuel⟩
  · obtain ⟨ps, hps, heq, -⟩ := getLocator_spec h hx
    obtain ⟨a, b, hax, hb, hfind, hrest⟩ := findFork_descends hparents h'.closed hx hfork hps fun p hp _ => by
      obtain rfl : x = p := by simpa using hp
      omega
    exact ⟨_, a, b, heq, hfind, hax, hb, hrest⟩
  · exact fun y hy hhash => findFork_forkPoint hparents h' hx hfork hy hhash

theorem locator_spec_twoNodes : (⟨[]⟩ : CChain).getLocator nearIndex (some 2) = some [3, 2, 1] ∧
    ∃ b, findForkInGlobalIndex farIndex farChain [3, 2, 1] = some b ∧ farChain.contains farIndex b = true := by
  have hlist : (⟨[]⟩ : CChain).getLocator nearIndex (some 2) = some [3, 2, 1] := by decide
  obtain ⟨⟨vHave, a, b, hlocator, hfind, -, -, -, hcontains, -⟩, -⟩ := locator_spec.2.2 nearIndex ⟨[]⟩ none farIndex farChain (some 12)
    (.empty nearIndex) farChain_setTips nearIndex_sameParents 2 (by decide) 1 11 nearIndex_forkPoint
  obtain rfl := Option.some.inj (hlist.symm.trans hlocator)
  exact ⟨hlist, b, hfind, hcontains⟩

end CChain

end DigiWage
