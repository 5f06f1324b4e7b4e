import DigiWage.Chain.Compact
import DigiWage.Lib.Forest

/-!
# The block index

The tree of block headers: `CBlockIndex` of `chain.h` with its parent and skip pointers, and `mapBlockIndex`. A pointer
is an address; `CBlockIndex` has here the fields that are fixed when an entry is made, and `Chain/State.lean` keeps the
fields that change.

`BlockIndex` carries what every index built by `AddToBlockIndex` has: hashes are unique, parents are in the index and
one lower, and a skip pointer leads to the ancestor at `GetSkipHeight`.

* `add` is `AddToBlockIndex`; it changes nothing for the entries that were there (`add_entry`, `anc_add`).
-/

namespace DigiWage

open Lib

/-- An address of a `CBlockIndex`. -/
abbrev Ptr := Nat

/-- The fields of `CBlockIndex` that are fixed when the entry is made. -/
structure CBlockIndex where
  hash : Uint256
  pprev : Option Ptr
  pskip : Option Ptr
  nHeight : Nat
  nChainWork : Uint256
  nVersion : Int32
  hashMerkleRoot : Uint256
  nTime : Nat
  nBits : Nat
  nNonce : Nat
deriving DecidableEq, Repr

/-! ## Skip pointers -/

/-- `InvertLowestOne`: turn the lowest 1 bit of a number into a 0. -/
def invertLowestOne (n : Nat) : Nat := n &&& (n - 1)

/-- `GetSkipHeight`: the height to jump back to. -/
def getSkipHeight (height : Nat) : Nat :=
  if height < 2 then 0
  else if height % 2 = 1 then invertLowestOne (invertLowestOne (height - 1)) + 1
  else invertLowestOne height

/-- The loop of `GetAncestor`; `none` when it follows a null pointer. -/
def getAncestorLoop (entry : Ptr → CBlockIndex) (height : Nat) : Nat → Ptr → Nat → Option Ptr
  | 0, pindexWalk, _ => some pindexWalk
  | fuel + 1, pindexWalk, heightWalk =>
    if height < heightWalk then
      let heightSkip := getSkipHeight heightWalk
      let heightSkipPrev := getSkipHeight (heightWalk - 1)
      if heightSkip = height ∨ (height < heightSkip ∧ ¬(heightSkipPrev < heightSkip - 2 ∧ height ≤ heightSkipPrev)) then
        match (entry pindexWalk).pskip with
        | none => none
        | some q => getAncestorLoop entry height fuel q heightSkip
      else
        match (entry pindexWalk).pprev with
        | none => none
        | some q => getAncestorLoop entry height fuel q (heightWalk - 1)
    else some pindexWalk

/-- `CBlockIndex::GetAncestor`. -/
def getAncestor (entry : Ptr → CBlockIndex) (p : Ptr) (height : Nat) : Option Ptr :=
  if (entry p).nHeight < height then none else getAncestorLoop entry height (entry p).nHeight p (entry p).nHeight

theorem invertLowestOne_le (n : Nat) : invertLowestOne n ≤ n - 1 := Nat.and_le_right

theorem getSkipHeight_lt {h : Nat} (hh : 0 < h) : getSkipHeight h < h := by
  unfold getSkipHeight
  split
  · omega
  · split
    · have := invertLowestOne_le (h - 1)
      have := invertLowestOne_le (invertLowestOne (h - 1))
      omega
    · have := invertLowestOne_le h
      omega

section Ancestor

variable {entry : Ptr → CBlockIndex} {S : Ptr → Prop}

/-- Each skip pointer leads to the ancestor of the parent at the skip height. -/
def SkipOk (entry : Ptr → CBlockIndex) (S : Ptr → Prop) : Prop :=
  ∀ p, S p → ∀ q, (entry p).pprev = some q → ∃ a, (entry p).pskip = some a ∧
    Anc (fun p => (entry p).pprev) a q ∧ (entry a).nHeight = getSkipHeight (entry p).nHeight

variable (hR : Rooted (fun p => (entry p).pprev) (fun p => (entry p).nHeight) S) (hskip : SkipOk entry S)
include hR hskip

theorem getAncestorLoop_spec {height : Nat} : ∀ (fuel : Nat) {p : Ptr}, S p → (entry p).nHeight ≤ height + fuel →
    height ≤ (entry p).nHeight → ∃ a, getAncestorLoop entry height fuel p (entry p).nHeight = some a ∧
      Anc (fun p => (entry p).pprev) a p ∧ (entry a).nHeight = height
  | 0, p, _, hf, hh => ⟨p, rfl, .refl p, by omega⟩
  | fuel + 1, p, hp, hf, hh => by
    unfold getAncestorLoop
    split
    · rename_i hlt
      cases hpar : (entry p).pprev with
      | none =>
        have := hR.root hp hpar
        omega
      | some q =>
        have hq := hR.mem hp hpar
        have hsucc : (entry p).nHeight = (entry q).nHeight + 1 := hR.succ hp hpar
        obtain ⟨a, hpskip, ha, hah⟩ := hskip p hp q hpar
        have hskiplt := getSkipHeight_lt (h := (entry p).nHeight) (by omega)
        simp only [hpskip]
        split
        · rename_i hcond
          rw [← hah]
          obtain ⟨b, hb, hba, hbh⟩ :=
            getAncestorLoop_spec fuel (hR.anc_mem hq ha) (by omega) (show height ≤ (entry a).nHeight by omega)
          exact ⟨b, hb, .up hpar (hba.trans ha), hbh⟩
        · have hh' : (entry p).nHeight - 1 = (entry q).nHeight := by omega
          rw [hh']
          obtain ⟨b, hb, hba, hbh⟩ := getAncestorLoop_spec fuel hq (by omega) (show height ≤ (entry q).nHeight by omega)
          exact ⟨b, hb, .up hpar hba, hbh⟩
    · exact ⟨p, rfl, .refl p, by omega⟩

theorem getAncestor_spec {p : Ptr} (hp : S p) {height : Nat} (hh : height ≤ (entry p).nHeight) :
    ∃ a, getAncestor entry p height = some a ∧ Anc (fun p => (entry p).pprev) a p ∧ (entry a).nHeight = height := by
  unfold getAncestor
  rw [if_neg (by omega)]
  exact getAncestorLoop_spec hR hskip _ hp (Nat.le_add_left _ _) hh

end Ancestor

/-! ## The index -/

/-- `mapBlockIndex` with its entries. -/
structure BlockIndex where
  entry : Ptr → CBlockIndex
  mapBlockIndex : List Ptr
  nodup : mapBlockIndex.Nodup
  hash_inj : ∀ p ∈ mapBlockIndex, ∀ q ∈ mapBlockIndex, (entry p).hash = (entry q).hash → p = q
  rooted_entry : Rooted (fun p => (entry p).pprev) (fun p => (entry p).nHeight) (· ∈ mapBlockIndex)
  skip : SkipOk entry (· ∈ mapBlockIndex)

namespace BlockIndex

variable (t : BlockIndex)

/-- The index without entries. -/
def empty : BlockIndex where
  entry := fun _ => ⟨0, none, none, 0, 0, 0, 0, 0, 0, 0⟩
  mapBlockIndex := []
  nodup := List.nodup_nil
  hash_inj := by simp
  rooted_entry := ⟨by simp, by simp, by simp⟩
  skip := by simp [SkipOk]

def pprev (p : Ptr) : Option Ptr := (t.entry p).pprev

def nHeight (p : Ptr) : Nat := (t.entry p).nHeight

/-- The total work up to the entry, as a number. -/
def work (p : Ptr) : Nat := (t.entry p).nChainWork.toNat

/-- `a` is `p` or an ancestor of `p`. -/
abbrev IsAnc (a p : Ptr) : Prop := Anc t.pprev a p

/-- The entry and its ancestors, up to the root. -/
def path (p : Ptr) : List Ptr := Lib.path t.pprev (t.nHeight p) p

/-- `mapBlockIndex.find`. -/
def find (hash : Uint256) : Option Ptr := t.mapBlockIndex.find? fun p => (t.entry p).hash == hash

/-- `pindex->GetAncestor(height)`. -/
def getAncestor (p : Ptr) (height : Nat) : Option Ptr := DigiWage.getAncestor t.entry p height

/-- The entry that `AddToBlockIndex` makes for a block. -/
def newEntry (block : CBlockHeader) : CBlockIndex :=
  match t.find block.hashPrevBlock with
  | none => ⟨block.hash, none, none, 0, getBlockProof block.nBits, block.nVersion, block.hashMerkleRoot, block.nTime,
      block.nBits, block.nNonce⟩
  | some pprev => ⟨block.hash, some pprev, t.getAncestor pprev (getSkipHeight (t.nHeight pprev + 1)),
      t.nHeight pprev + 1, (t.entry pprev).nChainWork + getBlockProof block.nBits, block.nVersion, block.hashMerkleRoot,
      block.nTime, block.nBits, block.nNonce⟩

variable {t}

theorem find_some {hash : Uint256} {p : Ptr} (h : t.find hash = some p) :
    p ∈ t.mapBlockIndex ∧ (t.entry p).hash = hash :=
  ⟨List.mem_of_find?_eq_some h, by simpa using List.find?_some h⟩

theorem find_none {hash : Uint256} (h : t.find hash = none) : ∀ p ∈ t.mapBlockIndex, (t.entry p).hash ≠ hash := by
  intro p hp
  have := List.find?_eq_none.mp h p hp
  simpa using this

theorem find_eq {p : Ptr} (hp : p ∈ t.mapBlockIndex) : t.find (t.entry p).hash = some p := by
  cases h : t.find (t.entry p).hash with
  | none => exact absurd rfl (find_none h p hp)
  | some q =>
    obtain ⟨hq, hh⟩ := find_some h
    rw [t.hash_inj q hq p hp hh]

theorem rooted (t : BlockIndex) : Rooted t.pprev t.nHeight (· ∈ t.mapBlockIndex) := t.rooted_entry

theorem getAncestor_some_iff {p a : Ptr} (hp : p ∈ t.mapBlockIndex) {height : Nat} :
    t.getAncestor p height = some a ↔ t.IsAnc a p ∧ t.nHeight a = height := by
  by_cases hh : height ≤ t.nHeight p
  · obtain ⟨b, hb, hanc, hbh⟩ := getAncestor_spec t.rooted_entry t.skip hp hh
    unfold getAncestor
    rw [hb, Option.some.injEq]
    constructor
    · rintro rfl
      exact ⟨hanc, hbh⟩
    · rintro ⟨ha, hah⟩
      exact t.rooted.anc_unique hp hanc ha (hbh.trans hah.symm)
  · constructor
    · intro h
      have hlt : (t.entry p).nHeight < height := Nat.lt_of_not_le hh
      rw [getAncestor, DigiWage.getAncestor, if_pos hlt] at h
      cases h
    · rintro ⟨ha, hah⟩
      have := t.rooted.anc_le hp ha
      omega

theorem mem_path {p a : Ptr} (hp : p ∈ t.mapBlockIndex) : a ∈ t.path p ↔ t.IsAnc a p := t.rooted.mem_path hp

theorem path_none {p : Ptr} (hp : p ∈ t.mapBlockIndex) (h : t.pprev p = none) : t.path p = [p] :=
  t.rooted.path_none hp h

theorem path_some {p q : Ptr} (hp : p ∈ t.mapBlockIndex) (h : t.pprev p = some q) : t.path p = p :: t.path q :=
  t.rooted.path_some hp h

/-! ## Adding an entry -/

section Add

variable {new : Ptr} {block : CBlockHeader}

theorem newEntry_some {q : Ptr} (h : (t.newEntry block).pprev = some q) : q ∈ t.mapBlockIndex ∧
    t.find block.hashPrevBlock = some q ∧ (t.newEntry block).nHeight = t.nHeight q + 1 ∧
    (t.newEntry block).nChainWork = (t.entry q).nChainWork + getBlockProof block.nBits ∧
    ∃ a, (t.newEntry block).pskip = some a ∧ t.IsAnc a q ∧ t.nHeight a = getSkipHeight (t.newEntry block).nHeight := by
  unfold newEntry at h ⊢
  cases hf : t.find block.hashPrevBlock with
  | none => rw [hf] at h; cases h
  | some q' =>
    rw [hf] at h
    cases h
    have hq := (find_some hf).1
    have hlt := getSkipHeight_lt (h := t.nHeight q + 1) (by omega)
    obtain ⟨a, ha, hanc, hah⟩ := getAncestor_spec t.rooted_entry t.skip hq (Nat.le_of_lt_succ hlt)
    exact ⟨hq, rfl, rfl, rfl, a, ha, hanc, hah⟩

theorem newEntry_none (h : (t.newEntry block).pprev = none) :
    (t.newEntry block).nHeight = 0 ∧ (t.newEntry block).nChainWork = getBlockProof block.nBits := by
  unfold newEntry at h ⊢
  cases hf : t.find block.hashPrevBlock with
  | none => exact ⟨rfl, rfl⟩
  | some q' => rw [hf] at h; cases h

theorem newEntry_header : (t.newEntry block).hash = block.hash ∧ (t.newEntry block).nBits = block.nBits ∧
    (t.newEntry block).nTime = block.nTime := by
  unfold newEntry
  split <;> exact ⟨rfl, rfl, rfl⟩

theorem update_of_mem (hnew : new ∉ t.mapBlockIndex) (e : CBlockIndex) {p : Ptr} (hp : p ∈ t.mapBlockIndex) :
    Function.update t.entry new e p = t.entry p := by
  refine Function.update_of_ne ?_ _ _
  rintro rfl
  exact hnew hp

end Add

/-- The new entry of `AddToBlockIndex`, at the address `new`; the index stays as it is when the address or the hash is
taken. -/
def add (t : BlockIndex) (new : Ptr) (block : CBlockHeader) : BlockIndex :=
  if h : new ∉ t.mapBlockIndex ∧ t.find block.hash = none then
    { entry := Function.update t.entry new (t.newEntry block)
      mapBlockIndex := new :: t.mapBlockIndex
      nodup := List.nodup_cons.mpr ⟨h.1, t.nodup⟩
      hash_inj := by
        intro p hp q hq hpq
        rcases List.mem_cons.mp hp with rfl | hp' <;> rcases List.mem_cons.mp hq with rfl | hq'
        · rfl
        · rw [Function.update_self, update_of_mem h.1 _ hq', newEntry_header.1] at hpq
          exact absurd hpq.symm (find_none h.2 q hq')
        · rw [Function.update_self, update_of_mem h.1 _ hp', newEntry_header.1] at hpq
          exact absurd hpq (find_none h.2 p hp')
        · rw [update_of_mem h.1 _ hp', update_of_mem h.1 _ hq'] at hpq
          exact t.hash_inj p hp' q hq' hpq
      rooted_entry := by
        refine ⟨?_, ?_, ?_⟩
        · intro p q hp hpq
          rcases List.mem_cons.mp hp with rfl | hp'
          · rw [Function.update_self] at hpq
            exact List.mem_cons_of_mem _ (newEntry_some hpq).1
          · rw [update_of_mem h.1 _ hp'] at hpq
            exact List.mem_cons_of_mem _ (t.rooted.mem hp' hpq)
        · intro p q hp hpq
          rcases List.mem_cons.mp hp with rfl | hp'
          · rw [Function.update_self] at hpq ⊢
            obtain ⟨hq, -, hh, -⟩ := newEntry_some hpq
            rw [update_of_mem h.1 _ hq]
            exact hh
          · rw [update_of_mem h.1 _ hp'] at hpq ⊢
            rw [update_of_mem h.1 _ (t.rooted.mem hp' hpq)]
            exact t.rooted.succ hp' hpq
        · intro p hp hpq
          rcases List.mem_cons.mp hp with rfl | hp'
          · rw [Function.update_self] at hpq ⊢
            exact (newEntry_none hpq).1
          · rw [update_of_mem h.1 _ hp'] at hpq ⊢
            exact t.rooted.root hp' hpq
      skip := by
        have hanc : ∀ {a q}, q ∈ t.mapBlockIndex → (Anc (fun p => (Function.update t.entry new (t.newEntry block) p).pprev)
            a q ↔ t.IsAnc a q) := fun hq =>
          t.rooted.anc_congr (fun p hp => by rw [update_of_mem h.1 _ hp]; rfl) hq
        intro p hp q hpq
        rcases List.mem_cons.mp hp with rfl | hp'
        · rw [Function.update_self] at hpq ⊢
          obtain ⟨hq, -, -, -, a, ha, hanc', hah⟩ := newEntry_some hpq
          refine ⟨a, ha, (hanc hq).mpr hanc', ?_⟩
          rw [update_of_mem h.1 _ (t.rooted.anc_mem hq hanc')]
          exact hah
        · rw [update_of_mem h.1 _ hp'] at hpq ⊢
          have hq := t.rooted.mem hp' hpq
          obtain ⟨a, ha, hanc', hah⟩ := t.skip p hp' q hpq
          refine ⟨a, ha, (hanc hq).mpr hanc', ?_⟩
          rw [update_of_mem h.1 _ (t.rooted.anc_mem hq hanc')]
          exact hah }
  else t

section Add

variable {new : Ptr} {block : CBlockHeader}

theorem add_of_fresh (hnew : new ∉ t.mapBlockIndex) (hhash : t.find block.hash = none) :
    (t.add new block).mapBlockIndex = new :: t.mapBlockIndex ∧
      (t.add new block).entry = Function.update t.entry new (t.newEntry block) := by
  unfold add
  rw [dif_pos ⟨hnew, hhash⟩]
  exact ⟨rfl, rfl⟩

/-- The old entries stay. -/
theorem add_entry {p : Ptr} (hp : p ∈ t.mapBlockIndex) : (t.add new block).entry p = t.entry p := by
  unfold add
  split
  · rename_i h
    exact update_of_mem h.1 _ hp
  · rfl

theorem pprev_add {p : Ptr} (hp : p ∈ t.mapBlockIndex) : (t.add new block).pprev p = t.pprev p := by
  unfold pprev
  rw [add_entry hp]

theorem nHeight_add {p : Ptr} (hp : p ∈ t.mapBlockIndex) : (t.add new block).nHeight p = t.nHeight p := by
  unfold nHeight
  rw [add_entry hp]

theorem work_add {p : Ptr} (hp : p ∈ t.mapBlockIndex) : (t.add new block).work p = t.work p := by
  unfold work
  rw [add_entry hp]

theorem path_add {p : Ptr} (hp : p ∈ t.mapBlockIndex) : (t.add new block).path p = t.path p := by
  unfold path
  rw [nHeight_add hp]
  exact t.rooted.path_congr (fun _ hp => pprev_add hp) _ hp

theorem anc_add {a p : Ptr} (hp : p ∈ t.mapBlockIndex) : (t.add new block).IsAnc a p ↔ t.IsAnc a p :=
  t.rooted.anc_congr (fun _ hp => pprev_add hp) hp

end Add

end BlockIndex

end DigiWage
