import DigiWage.Lib.Multimap
import Mathlib.Data.List.Perm.Basic
import Mathlib.Data.Nat.Basic

/-!
# Limited maps

`limitedmap` of `limitedmap.h`: a map that is to keep the elements with the highest values only, with a multimap from the values to
iterators into the map. An iterator is the address of a node of the map.

* `Wf`: the multimap has exactly one entry for each element, under its value. Every call keeps this (`Wf.erase`, `Wf.update`,
  `Wf.insert`, `Wf.insert_full`, `Wf.setMaxSize`) but an insertion into an empty map of maximum one, which uses an invalid iterator
  (`Wf.insert_fault`).
-/

namespace DigiWage

open Lib

/-- An element of the map, with its address. -/
structure MapNode (K V : Type*) where
  ptr : Nat
  key : K
  value : V

/-- What stops the program. -/
inductive MapFault where
  /-- an iterator is used that points to no element -/
  | invalidIterator
  /-- `assert(0)` -/
  | assertion
deriving DecidableEq

/-- `limitedmap`. Addresses from `nextPtr` on are free. -/
structure LimitedMap (K V : Type*) where
  map : List (MapNode K V)
  rmap : List (V × Nat)
  nMaxSize : Nat
  nextPtr : Nat

namespace LimitedMap

variable {K V : Type*}

/-- The constructor. -/
def new (nMaxSizeIn : Nat) : LimitedMap K V := ⟨[], [], nMaxSizeIn, 0⟩

/-- `map.find`. -/
def find [DecidableEq K] (m : LimitedMap K V) (k : K) : Option (MapNode K V) := m.map.find? (·.key = k)

/-- `map.erase(rmap.begin()->second); rmap.erase(rmap.begin());`. -/
def eraseFirst (m : LimitedMap K V) : Except MapFault (LimitedMap K V) :=
  match m.rmap with
  | [] => .error .invalidIterator
  | (_, it) :: rmap =>
    if m.map.any (·.ptr = it) then .ok { m with map := m.map.filter (·.ptr ≠ it), rmap }
    else .error .invalidIterator

variable [LinearOrder V]

def insert [DecidableEq K] (m : LimitedMap K V) (k : K) (v : V) : Except MapFault (LimitedMap K V) :=
  match m.find k with
  | some _ => .ok m
  | none =>
    let ret := m.nextPtr
    let m := { m with map := ⟨ret, k, v⟩ :: m.map, nextPtr := m.nextPtr + 1 }
    match (if m.nMaxSize ≠ 0 ∧ m.map.length = m.nMaxSize then m.eraseFirst else .ok m) with
    | .error e => .error e
    | .ok m => .ok { m with rmap := Multimap.insertUpper (v, ret) m.rmap }

/-- The loop of `erase` and `update` over the range of the value: the reverse map without the entry for `itTarget`. -/
def unlink (m : LimitedMap K V) (itTarget : MapNode K V) : Except MapFault (List (V × Nat)) :=
  if (Multimap.equalRange m.rmap itTarget.value).any (·.2 = itTarget.ptr) then
    .ok (m.rmap.eraseP fun e => e.1 = itTarget.value ∧ e.2 = itTarget.ptr)
  else .error .assertion

def erase [DecidableEq K] (m : LimitedMap K V) (k : K) : Except MapFault (LimitedMap K V) :=
  match m.find k with
  | none => .ok m
  | some itTarget => (m.unlink itTarget).map fun rmap => { m with map := m.map.filter (·.ptr ≠ itTarget.ptr), rmap }

def update [DecidableEq K] (m : LimitedMap K V) (itIn : Nat) (v : V) : Except MapFault (LimitedMap K V) :=
  match m.map.find? (·.ptr = itIn) with
  | none => .error .invalidIterator
  | some node =>
    match m.find node.key with
    | none => .ok m
    | some itTarget => (m.unlink itTarget).map fun rmap =>
      { m with
        map := m.map.map fun n => if n.ptr = itTarget.ptr then { n with value := v } else n
        rmap := Multimap.insertUpper (v, itTarget.ptr) rmap }

/-- The loop of `max_size`. A round erases an element, so that there are no more rounds than elements. -/
def shrink (s : Nat) : Nat → LimitedMap K V → Except MapFault (LimitedMap K V)
  | 0, m => .ok m
  | fuel + 1, m =>
    if s < m.map.length then
      match m.eraseFirst with
      | .error e => .error e
      | .ok m => shrink s fuel m
    else .ok m

/-- `max_size` with a new maximum. -/
def setMaxSize (m : LimitedMap K V) (s : Nat) : Except MapFault (LimitedMap K V) :=
  (if s ≠ 0 then shrink s m.map.length m else .ok m).map fun m => { m with nMaxSize := s }

/-- The calls. An element is updated through the iterator that `find` gives. -/
inductive Op (K V : Type*) where
  | insert (k : K) (v : V)
  | erase (k : K)
  | update (k : K) (v : V)
  | maxSize (s : Nat)

/-- A call. -/
def step [DecidableEq K] (m : LimitedMap K V) : Op K V → Except MapFault (LimitedMap K V)
  | .insert k v => m.insert k v
  | .erase k => m.erase k
  | .update k v =>
    match m.find k with
    | none => .ok m
    | some it => m.update it.ptr v
  | .maxSize s => m.setMaxSize s

/-! ## Elements -/

section Elements

variable {K V : Type*} {map : List (MapNode K V)} {n : MapNode K V}

theorem perm_filter_ptr : ∀ {map : List (MapNode K V)}, (map.map MapNode.ptr).Nodup → n ∈ map →
    map.Perm (n :: map.filter (·.ptr ≠ n.ptr))
  | a :: map, hnd, hn => by
    obtain ⟨hfresh, hnd⟩ := List.nodup_cons.mp hnd
    have hother : ∀ b ∈ map, b.ptr ≠ a.ptr := fun b hb heq => hfresh (heq ▸ List.mem_map_of_mem hb)
    rcases List.mem_cons.mp hn with rfl | hn
    · have hall : map.filter (·.ptr ≠ n.ptr) = map := List.filter_eq_self.mpr fun b hb => by simpa using hother b hb
      rw [List.filter_cons_of_neg (by simp), hall]
    · have hne : a.ptr ≠ n.ptr := (hother n hn).symm
      rw [List.filter_cons_of_pos (by simpa using hne)]
      exact ((perm_filter_ptr hnd hn).cons a).trans (.swap _ _ _)

theorem nodup_filter {α : Type*} {f : MapNode K V → α} {p : MapNode K V → Bool} (h : (map.map f).Nodup) : ((map.filter p).map f).Nodup :=
  h.sublist (List.filter_sublist.map f)

theorem find?_eq_of_nodup {α : Type*} [DecidableEq α] {f : MapNode K V → α} :
    ∀ {map : List (MapNode K V)}, (map.map f).Nodup → n ∈ map → map.find? (f · = f n) = some n
  | a :: map, hnd, hn => by
    obtain ⟨hfresh, hnd⟩ := List.nodup_cons.mp hnd
    rcases List.mem_cons.mp hn with rfl | hn
    · exact List.find?_cons_of_pos (by simp)
    · have hne : f a ≠ f n := fun heq => hfresh (heq ▸ List.mem_map_of_mem hn)
      rw [List.find?_cons_of_neg (by simpa using hne)]
      exact find?_eq_of_nodup hnd hn

theorem map_setValue {α : Type*} {f : MapNode K V → α} (hf : ∀ a v, f { a with value := v } = f a) (map : List (MapNode K V)) (ptr : Nat)
    (v : V) : (map.map fun a => if a.ptr = ptr then { a with value := v } else a).map f = map.map f := by
  rw [List.map_map]
  refine List.map_congr_left fun a _ => ?_
  rw [Function.comp_apply]
  split
  · exact hf a v
  · rfl

end Elements

section Find

variable {K V : Type*} [DecidableEq K] {m : LimitedMap K V} {n : MapNode K V} {k : K}

theorem find_some (h : m.find k = some n) : n ∈ m.map ∧ n.key = k :=
  ⟨List.mem_of_find?_eq_some h, by simpa using List.find?_some h⟩

theorem find_none (h : m.find k = none) : ∀ n ∈ m.map, n.key ≠ k := fun n hn => by
  simpa using List.find?_eq_none.mp h n hn

end Find

/-! ## The two containers -/

/-- The entry of the reverse map for an element. -/
def entry (n : MapNode K V) : V × Nat := (n.value, n.ptr)

/-- The reverse map has one entry for each of the elements. -/
structure Linked (map : List (MapNode K V)) (rmap : List (V × Nat)) : Prop where
  ordered : Multimap.Ordered rmap
  perm : rmap.Perm (map.map entry)

/-- Keys and addresses are unique, and the reverse map has one entry for each element. -/
structure Wf (m : LimitedMap K V) : Prop where
  keys : (m.map.map MapNode.key).Nodup
  ptrs : (m.map.map MapNode.ptr).Nodup
  fresh : ∀ n ∈ m.map, n.ptr < m.nextPtr
  linked : Linked m.map m.rmap

variable {m m' : LimitedMap K V} {map : List (MapNode K V)} {rmap rmap' : List (V × Nat)} {n : MapNode K V} {k : K} {v : V}

theorem Linked.remove (h : Linked map rmap) (hptrs : (map.map MapNode.ptr).Nodup) (hn : n ∈ map) (hsub : rmap'.Sublist rmap)
    (hperm : rmap.Perm (entry n :: rmap')) : Linked (map.filter (·.ptr ≠ n.ptr)) rmap' := by
  refine ⟨h.ordered.sublist hsub, ?_⟩
  have hmap := (perm_filter_ptr hptrs hn).map entry
  exact List.Perm.cons_inv ((hperm.symm.trans h.perm).trans hmap)

theorem Linked.add (h : Linked map rmap) (n : MapNode K V) : Linked (n :: map) (Multimap.insertUpper (entry n) rmap) :=
  ⟨h.ordered.insertUpper (entry n), (Multimap.perm_insertUpper _ _).trans (h.perm.cons _)⟩

theorem eraseFirst_spec (h : Linked map m.rmap) (hsub : ∀ n ∈ map, n ∈ m.map) (hptrs : (map.map MapNode.ptr).Nodup) (hne : map ≠ []) :
    ∃ n ∈ map, (∀ n' ∈ map, n.value ≤ n'.value) ∧
      m.eraseFirst = .ok { m with map := m.map.filter (·.ptr ≠ n.ptr), rmap := m.rmap.tail } ∧
      Linked (map.filter (·.ptr ≠ n.ptr)) m.rmap.tail := by
  cases hr : m.rmap with
  | nil =>
    have hnil := h.perm
    rw [hr] at hnil
    exact absurd (List.map_eq_nil_iff.mp (List.nil_perm.mp hnil)) hne
  | cons e rest =>
    rw [hr] at h
    obtain ⟨n, hn, rfl⟩ := List.mem_map.mp (h.perm.subset List.mem_cons_self)
    refine ⟨n, hn, fun n' hn' => ?_, ?_, h.remove hptrs hn (List.sublist_cons_self _ _) (.refl _)⟩
    · exact h.ordered.head_le (h.perm.symm.subset (List.mem_map_of_mem hn'))
    · have hany : m.map.any (·.ptr = n.ptr) = true := List.any_eq_true.mpr ⟨n, hsub n hn, by simp⟩
      rw [eraseFirst, hr]
      exact if_pos hany

theorem Wf.unlink (h : m.Wf) (hn : n ∈ m.map) :
    ∃ rmap, m.unlink n = .ok rmap ∧ rmap.Sublist m.rmap ∧ m.rmap.Perm (entry n :: rmap) := by
  have hmem : entry n ∈ m.rmap := h.linked.perm.symm.subset (List.mem_map_of_mem hn)
  have hrange : (Multimap.equalRange m.rmap n.value).any (·.2 = n.ptr) = true :=
    List.any_eq_true.mpr ⟨entry n, (Multimap.mem_equalRange h.linked.ordered).mpr ⟨hmem, rfl⟩, by simp [entry]⟩
  refine ⟨m.rmap.eraseP fun e => e.1 = n.value ∧ e.2 = n.ptr, ?_, List.eraseP_sublist, ?_⟩
  · rw [LimitedMap.unlink, if_pos hrange]
  · have hpred : (fun e : V × Nat => decide (e.1 = n.value ∧ e.2 = n.ptr)) = fun e => e == entry n := by
      funext e
      rw [Bool.eq_iff_iff, decide_eq_true_iff, beq_iff_eq, entry, Prod.ext_iff]
    rw [hpred, ← List.erase_eq_eraseP']
    exact List.perm_cons_erase hmem

/-! ## What a call does -/

theorem wf_new (nMaxSizeIn : Nat) : (new nMaxSizeIn : LimitedMap K V).Wf :=
  ⟨List.nodup_nil, List.nodup_nil, by simp [new], ⟨List.Pairwise.nil, .refl _⟩⟩

theorem Wf.shrink (s : Nat) : ∀ (fuel : Nat) {m : LimitedMap K V}, m.Wf → m.map.length ≤ s + fuel →
    ∃ m', shrink s fuel m = .ok m' ∧ m'.Wf ∧ m'.map.Sublist m.map ∧ m'.map.length ≤ s
  | 0, m, h, hlen => ⟨m, rfl, h, List.Sublist.refl _, hlen⟩
  | fuel + 1, m, h, hlen => by
    rw [LimitedMap.shrink]
    split
    · rename_i hs
      obtain ⟨n, hn, -, herase, hl⟩ := eraseFirst_spec h.linked (fun _ => id) h.ptrs (List.ne_nil_of_length_pos (by omega))
      have hcount := (perm_filter_ptr h.ptrs hn).length_eq
      rw [List.length_cons] at hcount
      have hwf : (⟨m.map.filter (·.ptr ≠ n.ptr), m.rmap.tail, m.nMaxSize, m.nextPtr⟩ : LimitedMap K V).Wf :=
        ⟨nodup_filter h.keys, nodup_filter h.ptrs, fun a ha => h.fresh a (List.mem_of_mem_filter ha), hl⟩
      obtain ⟨m', heq, hwf', hsub, hlen'⟩ := Wf.shrink s fuel hwf (by dsimp only; omega)
      rw [herase]
      exact ⟨m', heq, hwf', hsub.trans List.filter_sublist, hlen'⟩
    · exact ⟨m, rfl, h, List.Sublist.refl _, by omega⟩

/-- There are no more elements than the maximum; a maximum of zero stands for none. -/
def Bounded (m : LimitedMap K V) : Prop := m.nMaxSize ≠ 0 → m.map.length ≤ m.nMaxSize

theorem Wf.setMaxSize (h : m.Wf) (s : Nat) : ∃ m', m.setMaxSize s = .ok m' ∧ m'.Wf ∧ m'.Bounded := by
  rw [LimitedMap.setMaxSize]
  by_cases hs : s = 0
  · rw [if_neg (not_not.mpr hs)]
    exact ⟨_, rfl, ⟨h.keys, h.ptrs, h.fresh, h.linked⟩, fun hne => absurd hs hne⟩
  · obtain ⟨m', heq, hwf, -, hlen⟩ := h.shrink s m.map.length (Nat.le_add_left _ _)
    rw [if_pos hs, heq]
    exact ⟨_, rfl, ⟨hwf.keys, hwf.ptrs, hwf.fresh, hwf.linked⟩, fun _ => hlen⟩

variable [DecidableEq K]

/-- `erase` takes the element out. -/
theorem Wf.erase (h : m.Wf) (k : K) : ∃ m', m.erase k = .ok m' ∧ m'.Wf ∧ m'.map.Sublist m.map ∧ m'.nMaxSize = m.nMaxSize := by
  rw [LimitedMap.erase]
  cases hk : m.find k with
  | none => exact ⟨m, rfl, h, List.Sublist.refl _, rfl⟩
  | some it =>
    have hn := (find_some hk).1
    obtain ⟨rmap, heq, hsub, hperm⟩ := h.unlink hn
    refine ⟨{ m with map := m.map.filter (·.ptr ≠ it.ptr), rmap := rmap }, ?_, ?_, List.filter_sublist, rfl⟩
    · simp only [heq, Except.map]
    · exact ⟨nodup_filter h.keys, nodup_filter h.ptrs, fun n hn => h.fresh n (List.mem_of_mem_filter hn),
        h.linked.remove h.ptrs hn hsub hperm⟩

/-- `update` gives the element another value. -/
theorem Wf.update (h : m.Wf) (hn : n ∈ m.map) (v : V) :
    ∃ m', m.update n.ptr v = .ok m' ∧ m'.Wf ∧ m'.map.length = m.map.length ∧ m'.nMaxSize = m.nMaxSize := by
  have hptr : m.map.find? (·.ptr = n.ptr) = some n := find?_eq_of_nodup h.ptrs hn
  have hkey : m.find n.key = some n := find?_eq_of_nodup h.keys hn
  obtain ⟨rmap, heq, hsub, hperm⟩ := h.unlink hn
  have hrest := (h.linked.remove h.ptrs hn hsub hperm).add { n with value := v }
  have hothers : (m.map.filter (·.ptr ≠ n.ptr)).map (fun a => if a.ptr = n.ptr then { a with value := v } else a) =
      m.map.filter (·.ptr ≠ n.ptr) :=
    (List.map_congr_left fun a ha => if_neg (by simpa using List.of_mem_filter ha)).trans (List.map_id _)
  have hmoved : (m.map.map fun a => if a.ptr = n.ptr then { a with value := v } else a).Perm
      ({ n with value := v } :: m.map.filter (·.ptr ≠ n.ptr)) := by
    have hswap := (perm_filter_ptr h.ptrs hn).map fun a => if a.ptr = n.ptr then { a with value := v } else a
    rwa [List.map_cons, if_pos rfl, hothers] at hswap
  refine ⟨{ m with
    map := m.map.map fun a => if a.ptr = n.ptr then { a with value := v } else a
    rmap := Multimap.insertUpper (v, n.ptr) rmap }, ?_, ⟨?_, ?_, ?_, ?_⟩, List.length_map _, rfl⟩
  · rw [LimitedMap.update, hptr]
    simp only [hkey, heq, Except.map]
  · rw [map_setValue fun _ _ => rfl]
    exact h.keys
  · rw [map_setValue fun _ _ => rfl]
    exact h.ptrs
  · intro a ha
    have hmem := List.mem_map_of_mem (f := MapNode.ptr) ha
    rw [map_setValue fun _ _ => rfl] at hmem
    obtain ⟨b, hb, hba⟩ := List.mem_map.mp hmem
    rw [← hba]
    exact h.fresh b hb
  · exact ⟨hrest.ordered, hrest.perm.trans (hmoved.map entry).symm⟩

theorem Wf.withNew (h : m.Wf) (hk : m.find k = none) (v : V) (hsub : map.Sublist m.map) (hl : Linked map rmap) :
    (⟨⟨m.nextPtr, k, v⟩ :: map, Multimap.insertUpper (v, m.nextPtr) rmap, m.nMaxSize, m.nextPtr + 1⟩ : LimitedMap K V).Wf := by
  refine ⟨List.nodup_cons.mpr ⟨?_, h.keys.sublist (hsub.map _)⟩, List.nodup_cons.mpr ⟨?_, h.ptrs.sublist (hsub.map _)⟩, ?_,
    hl.add ⟨m.nextPtr, k, v⟩⟩
  · intro hmem
    obtain ⟨a, ha, hak⟩ := List.mem_map.mp hmem
    exact find_none hk a (hsub.subset ha) hak
  · intro hmem
    obtain ⟨a, ha, hap⟩ := List.mem_map.mp hmem
    exact Nat.ne_of_lt (h.fresh a (hsub.subset ha)) hap
  · intro a ha
    rcases List.mem_cons.mp ha with rfl | ha
    · exact Nat.lt_succ_self _
    · exact Nat.lt_succ_of_lt (h.fresh a (hsub.subset ha))

theorem insert_some (h : m.find k = some n) (v : V) : m.insert k v = .ok m := by
  rw [LimitedMap.insert, h]

theorem Wf.insert (h : m.Wf) (hk : m.find k = none) (v : V) (hfree : ¬(m.nMaxSize ≠ 0 ∧ m.map.length + 1 = m.nMaxSize)) :
    ∃ m', m.insert k v = .ok m' ∧ m'.Wf ∧ m'.map = ⟨m.nextPtr, k, v⟩ :: m.map ∧ m'.nMaxSize = m.nMaxSize := by
  refine ⟨_, ?_, h.withNew hk v (List.Sublist.refl _) h.linked, rfl, rfl⟩
  rw [LimitedMap.insert, hk]
  simp only [List.length_cons]
  rw [if_neg hfree]

theorem Wf.insert_full (h : m.Wf) (hk : m.find k = none) (v : V) (hfull : m.map.length + 1 = m.nMaxSize) (hne : m.map ≠ []) :
    ∃ n ∈ m.map, (∀ n' ∈ m.map, n.value ≤ n'.value) ∧ ∃ m', m.insert k v = .ok m' ∧ m'.Wf ∧
      m'.map = ⟨m.nextPtr, k, v⟩ :: m.map.filter (·.ptr ≠ n.ptr) ∧ m'.nMaxSize = m.nMaxSize := by
  obtain ⟨n, hn, hmin, herase, hl⟩ := @eraseFirst_spec _ _ _ ⟨⟨m.nextPtr, k, v⟩ :: m.map, m.rmap, m.nMaxSize, m.nextPtr + 1⟩ m.map h.linked
    (fun _ => List.mem_cons_of_mem _) h.ptrs hne
  have hold : m.nextPtr ≠ n.ptr := Nat.ne_of_gt (h.fresh n hn)
  refine ⟨n, hn, hmin, _, ?_, h.withNew hk v List.filter_sublist hl, rfl, rfl⟩
  rw [LimitedMap.insert, hk]
  simp only [List.length_cons]
  rw [if_pos ⟨by omega, hfull⟩, herase]
  simp only
  rw [List.filter_cons_of_pos (by simpa using hold)]

/-- `insert` into an empty map of maximum one. -/
theorem Wf.insert_fault (h : m.Wf) (v : V) (hone : m.nMaxSize = 1) (hempty : m.map = []) : m.insert k v = .error .invalidIterator := by
  have hrmap : m.rmap = [] := by
    have hperm := h.linked.perm
    rw [hempty] at hperm
    exact List.perm_nil.mp hperm
  have hk : m.find k = none := by rw [find, hempty, List.find?_nil]
  rw [LimitedMap.insert, hk]
  simp only
  rw [if_pos ⟨by omega, by rw [hempty, hone]; rfl⟩, eraseFirst, hrmap]

/-! ## Runs -/

/-- A call does what the map says: it ends, the two containers fit together and keep the maximum, and an insertion erases an element only
where one more than the maximum would be held otherwise, and then one with the smallest value. -/
def StepOk (m : LimitedMap K V) (op : Op K V) : Prop :=
  ∃ m', m.step op = .ok m' ∧ m'.Wf ∧ m'.Bounded ∧
    ∀ k v, op = .insert k v → ∀ n ∈ m.map, n ∉ m'.map →
      m.map.length + 1 = m.nMaxSize + 1 ∧ ∀ n' ∈ m.map, n.value ≤ n'.value

/-- An insertion of a new key leaves a place free. -/
def HasRoom (m : LimitedMap K V) : Op K V → Prop
  | .insert k _ => m.nMaxSize = 0 ∨ (m.find k).isSome ∨ m.map.length + 1 < m.nMaxSize
  | _ => True

/-- Something holds of every call of a run, up to the call that stops it. -/
def Always (P : LimitedMap K V → Op K V → Prop) (m : LimitedMap K V) : List (Op K V) → Prop
  | [] => True
  | op :: ops => P m op ∧ ∀ m', m.step op = .ok m' → Always P m' ops

theorem stepOk_of_not_insert (h : m.Wf) (hb : m.Bounded) {op : Op K V} (hop : ∀ k v, op ≠ .insert k v) : StepOk m op := by
  have hnone : ∀ {m' : LimitedMap K V} (k : K) (v : V), op = .insert k v → ∀ n ∈ m.map, n ∉ m'.map →
      m.map.length + 1 = m.nMaxSize + 1 ∧ ∀ n' ∈ m.map, n.value ≤ n'.value := fun k v heq => absurd heq (hop k v)
  cases op with
  | insert k v => exact absurd rfl (hop k v)
  | erase k =>
    obtain ⟨m', heq, hwf, hsub, hmax⟩ := h.erase k
    refine ⟨m', heq, hwf, fun hne => ?_, hnone⟩
    rw [hmax] at hne ⊢
    exact Nat.le_trans hsub.length_le (hb hne)
  | update k v =>
    unfold StepOk
    simp only [step]
    cases hk : m.find k with
    | none => exact ⟨m, rfl, h, hb, hnone⟩
    | some it =>
      obtain ⟨m', heq, hwf, hlen, hmax⟩ := h.update (find_some hk).1 v
      refine ⟨m', heq, hwf, fun hne => ?_, hnone⟩
      rw [hmax] at hne ⊢
      rw [hlen]
      exact hb hne
  | maxSize s =>
    obtain ⟨m', heq, hwf, hb'⟩ := h.setMaxSize s
    exact ⟨m', heq, hwf, hb', hnone⟩

theorem not_stepOk_insert_last (h : m.Wf) {k : K} (hk : m.find k = none) (v : V) (hlast : m.map.length + 1 = m.nMaxSize) :
    ¬ StepOk m (.insert k v) := by
  unfold StepOk
  simp only [step]
  rintro ⟨m', heq, -, -, hevict⟩
  by_cases hne : m.map = []
  · have hlen : m.map.length = 0 := by rw [hne]; rfl
    rw [h.insert_fault v (by omega) hne] at heq
    cases heq
  · -- an element goes although there is a place for the new one
    obtain ⟨n, hn, -, m₁, heq₁, -, hmap, -⟩ := h.insert_full hk v hlast hne
    obtain rfl : m₁ = m' := by
      rw [heq₁] at heq
      cases heq
      rfl
    have hgone : n ∉ m₁.map := by
      rw [hmap]
      intro hmem
      rcases List.mem_cons.mp hmem with hnew | hold
      · exact find_none hk n hn (congrArg MapNode.key hnew)
      · simpa using List.of_mem_filter hold
    have hlen := (hevict k v rfl n hn hgone).1
    omega

theorem stepOk_insert_new (h : m.Wf) {k : K} (hk : m.find k = none) (v : V)
    (hfree : ¬ (m.nMaxSize ≠ 0 ∧ m.map.length + 1 = m.nMaxSize)) :
    StepOk m (.insert k v) ↔ m.nMaxSize = 0 ∨ m.map.length + 1 < m.nMaxSize := by
  obtain ⟨m', heq, hwf, hmap, hmax⟩ := h.insert hk v hfree
  have hlen : m'.map.length = m.map.length + 1 := by rw [hmap]; rfl
  unfold StepOk
  simp only [step]
  constructor
  · rintro ⟨m₁, heq₁, -, hb₁, -⟩
    rw [heq] at heq₁
    cases heq₁
    by_cases hzero : m.nMaxSize = 0
    · exact Or.inl hzero
    · have hle := hb₁ (by rwa [hmax])
      rw [hlen, hmax] at hle
      exact Or.inr (by omega)
  · intro hroom
    refine ⟨m', heq, hwf, fun hne => ?_, fun _ _ _ n hn hn' => ?_⟩
    · rw [hmax] at hne ⊢
      rw [hlen]
      omega
    · rw [hmap] at hn'
      exact absurd (List.mem_cons_of_mem _ hn) hn'

theorem stepOk_insert_iff (h : m.Wf) (hb : m.Bounded) (k : K) (v : V) : StepOk m (.insert k v) ↔ HasRoom m (.insert k v) := by
  cases hk : m.find k with
  | some n =>
    unfold StepOk
    simp only [step, HasRoom, hk]
    rw [insert_some hk]
    exact iff_of_true ⟨m, rfl, h, hb, fun _ _ _ n hn hn' => absurd hn hn'⟩ (Or.inr (Or.inl rfl))
  | none =>
    simp only [HasRoom, hk, Option.isSome_none, Bool.false_eq_true, false_or]
    by_cases hfull : m.nMaxSize ≠ 0 ∧ m.map.length + 1 = m.nMaxSize
    · exact iff_of_false (not_stepOk_insert_last h hk v hfull.2) (by omega)
    · exact stepOk_insert_new h hk v hfull

theorem stepOk_iff (h : m.Wf) (hb : m.Bounded) (op : Op K V) : StepOk m op ↔ HasRoom m op := by
  cases op with
  | insert k v => exact stepOk_insert_iff h hb k v
  | erase k => exact iff_of_true (stepOk_of_not_insert h hb (by simp)) trivial
  | update k v => exact iff_of_true (stepOk_of_not_insert h hb (by simp)) trivial
  | maxSize s => exact iff_of_true (stepOk_of_not_insert h hb (by simp)) trivial

theorem always_stepOk_iff : ∀ (ops : List (Op K V)) {m : LimitedMap K V}, m.Wf → m.Bounded →
    (Always StepOk m ops ↔ Always HasRoom m ops)
  | [], _, _, _ => Iff.rfl
  | op :: ops, m, h, hb => by
    rw [Always, Always, stepOk_iff h hb op]
    refine and_congr_right fun hroom => forall_congr' fun m' => imp_congr_right fun heq => ?_
    obtain ⟨m₁, heq₁, hwf, hb₁, -⟩ := (stepOk_iff h hb op).mpr hroom
    rw [heq] at heq₁
    cases heq₁
    exact always_stepOk_iff ops hwf hb₁

/-- **Limited maps.** Along a run the map does what it says exactly as long as every insertion of a new key leaves a place free. -/
theorem runOk_iff (nMaxSize : Nat) (ops : List (Op K V)) :
    Always StepOk (new nMaxSize : LimitedMap K V) ops ↔ Always HasRoom (new nMaxSize : LimitedMap K V) ops :=
  always_stepOk_iff ops (wf_new nMaxSize) fun _ => Nat.zero_le _

/-- Of two elements the first is erased although two may be held. -/
theorem not_runOk_two : ¬Always StepOk (new 2 : LimitedMap Nat Nat) [.insert 0 0, .insert 1 1] := by
  rintro ⟨-, hrun⟩
  obtain ⟨⟨m', heq, -, -, hevict⟩, -⟩ := hrun _ rfl
  cases heq
  have hlen := (hevict 1 1 rfl ⟨0, 0, 0⟩ (by simp [new]) (by simp [new])).1
  simp [new] at hlen

end LimitedMap

end DigiWage
