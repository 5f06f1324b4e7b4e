import DigiWage.Net.AddrFile
import DigiWage.Net.AddrInv

/-!
# Loading the file of the address manager

A manager that `Check_` finds consistent is written, and read into a manager without entries. The ids are renamed to the
numbers of the file: `newIds` first, then `triedIds`.

* `serialize_eq`: what is written.
* `Loaded` is the invariant of the loops over the entries, and `Replaced` that of the loop over the "tried" table.
-/

namespace DigiWage.Net

open Lib

namespace CAddrMan

/-! ## What is written -/

section write

variable (k : StreamKind) (m : CAddrMan)

/-- The ids of the entries with a reference, in the order of the file. -/
def newIds : List Int := m.ids.filter fun n => (m.info n).nRefCount ≠ 0

/-- The ids of the tried entries. -/
def triedIds : List Int := m.ids.filter fun n => (m.info n).fInTried

/-- The number of an entry in the file. -/
def number (n : Int) : Int :=
  if (m.info n).fInTried then m.newIds.length + m.triedIds.idxOf n else m.newIds.idxOf n

theorem nodup_ids : m.ids.Nodup := Finset.sort_nodup _ _

theorem nodup_newIds : m.newIds.Nodup := m.nodup_ids.filter _

theorem nodup_triedIds : m.triedIds.Nodup := m.nodup_ids.filter _

theorem mem_triedIds {n : Int} : n ∈ m.triedIds ↔ n ∈ m.mapInfo ∧ (m.info n).fInTried = true := by
  rw [triedIds, List.mem_filter, mem_ids]

theorem foldlM_writeNew (l : List Int) (hl : l.Nodup) (w : Written)
    (hcount : w.nIds + (l.filter fun n => (m.info n).nRefCount ≠ 0).length ≤ m.nNew) :
    ∃ f, l.foldlM (writeNew k m) w = some ⟨w.nIds + (l.filter fun n => (m.info n).nRefCount ≠ 0).length, f,
        w.bytes ++ (l.filter fun n => (m.info n).nRefCount ≠ 0).flatMap fun n => (m.info n).serialize k⟩ ∧
      (∀ n ∈ l.filter fun n => (m.info n).nRefCount ≠ 0,
        f n = w.nIds + (l.filter fun n => (m.info n).nRefCount ≠ 0).idxOf n) ∧ ∀ n ∉ l, f n = w.mapUnkIds n := by
  induction l generalizing w with
  | nil => exact ⟨w.mapUnkIds, by simp [pure], by simp, by simp⟩
  | cons a l ih =>
    obtain ⟨ha, hl⟩ := List.nodup_cons.mp hl
    rw [List.foldlM_cons]
    by_cases hr : (m.info a).nRefCount ≠ 0
    · rw [List.filter_cons_of_pos (by simpa using hr)] at hcount ⊢
      simp only [List.length_cons, Nat.cast_add, Nat.cast_one] at hcount
      obtain ⟨f, hf, hin, hout⟩ := ih hl ⟨w.nIds + 1, Function.update w.mapUnkIds a w.nIds,
        w.bytes ++ (m.info a).serialize k⟩ (by simp only; omega)
      refine ⟨f, ?_, fun n hn => ?_, fun n hn => ?_⟩
      · rw [writeNew, if_pos hr, if_pos (by omega)]
        simp only [Option.bind_eq_bind, Option.bind_some]
        rw [hf]
        simp only [List.length_cons, List.flatMap_cons, List.append_assoc, Nat.cast_add, Nat.cast_one, Option.some.injEq,
          Written.mk.injEq, and_self, and_true]
        omega
      · rcases List.mem_cons.mp hn with rfl | hn
        · rw [hout n ha, List.idxOf_cons_self]
          simp
        · have hne : a ≠ n := by
            rintro rfl
            exact ha (List.mem_of_mem_filter hn)
          rw [hin n hn, List.idxOf_cons_ne _ hne]
          push_cast
          omega
      · obtain ⟨hna, hn⟩ := not_or.mp (List.mem_cons.not.mp hn)
        exact (hout n hn).trans (Function.update_of_ne hna _ _)
    · rw [List.filter_cons_of_neg (by simpa using hr)] at hcount ⊢
      obtain ⟨f, hf, hin, hout⟩ := ih hl { w with mapUnkIds := Function.update w.mapUnkIds a w.nIds } hcount
      refine ⟨f, ?_, hin, fun n hn => ?_⟩
      · rw [writeNew, if_neg hr]
        exact hf
      · obtain ⟨hna, hn⟩ := not_or.mp (List.mem_cons.not.mp hn)
        exact (hout n hn).trans (Function.update_of_ne hna _ _)

theorem foldlM_writeTried (l : List Int) (w : Written)
    (hcount : w.nIds + (l.filter fun n => (m.info n).fInTried).length ≤ m.nTried) :
    l.foldlM (writeTried k m) w = some { w with
      nIds := w.nIds + (l.filter fun n => (m.info n).fInTried).length
      bytes := w.bytes ++ (l.filter fun n => (m.info n).fInTried).flatMap fun n => (m.info n).serialize k } := by
  induction l generalizing w with
  | nil => simp [pure]
  | cons a l ih =>
    rw [List.foldlM_cons]
    by_cases ht : (m.info a).fInTried
    · rw [List.filter_cons_of_pos (by simpa using ht)] at hcount ⊢
      simp only [List.length_cons, Nat.cast_add, Nat.cast_one] at hcount
      rw [writeTried, if_pos ht, if_pos (by omega)]
      simp only [Option.bind_eq_bind, Option.bind_some]
      rw [ih _ (by simp only; omega)]
      simp only [List.length_cons, List.flatMap_cons, List.append_assoc, Nat.cast_add, Nat.cast_one, Option.some.injEq,
        Written.mk.injEq, and_true]
      omega
    · rw [List.filter_cons_of_neg (by simpa using ht)] at hcount ⊢
      rw [writeTried, if_neg ht]
      exact ih w hcount

end write

section checked

variable {env : AddrEnv} {m : CAddrMan}

theorem Checked.mem_newIds (h : Checked env m) {n : Int} :
    n ∈ m.newIds ↔ n ∈ m.mapInfo ∧ (m.info n).fInTried = false := by
  rw [newIds, List.mem_filter, mem_ids]
  refine and_congr_right fun hn => ?_
  have hfine := h.entry n hn
  cases ht : (m.info n).fInTried with
  | true => simp [hfine.tried_ref ht]
  | false => simpa using (hfine.ref_pos (by simp [ht])).ne'

theorem Checked.length_newIds (h : Checked env m) : (m.newIds.length : Int) = m.nNew := by
  have heq : m.newIds.toFinset = m.untried := by
    ext n
    rw [List.mem_toFinset, h.mem_newIds, mem_untried]
  rw [← h.newCount, ← heq, List.toFinset_card_of_nodup m.nodup_newIds]

theorem Checked.length_triedIds (h : Checked env m) : (m.triedIds.length : Int) = m.nTried := by
  have heq : m.triedIds.toFinset = m.tried := by
    ext n
    rw [List.mem_toFinset, mem_triedIds, mem_tried]
  rw [← h.triedCount, ← heq, List.toFinset_card_of_nodup m.nodup_triedIds]

theorem Checked.serialize_eq (h : Checked env m) (k : StreamKind) : m.serialize k =
    some ([1, 32] ++ (writeUint256 m.nKey ++ (writeInt32 (Int32.ofInt m.nNew) ++ (writeInt32 (Int32.ofInt m.nTried) ++
      (writeInt32 (1024 ^^^ 1073741824) ++ ((m.newIds.flatMap fun n => (m.info n).serialize k) ++
        ((m.triedIds.flatMap fun n => (m.info n).serialize k) ++ newBuckets.flatMap (m.writeBucket m.number)))))))) := by
  obtain ⟨f, hf, hin, -⟩ := foldlM_writeNew k m m.ids m.nodup_ids ⟨0, fun _ => 0, []⟩
    (by have := h.length_newIds; rw [newIds] at this; simp only; omega)
  have htried := foldlM_writeTried k m m.ids
    ⟨0, f, []⟩ (by have := h.length_triedIds; rw [triedIds] at this; simp only; omega)
  have hbucket : m.writeBucket f = m.writeBucket m.number := by
    funext bucket
    unfold writeBucket
    congr 1
    apply List.flatMap_congr
    intro i hi
    have hne : m.vvNew (bucket, i) ≠ -1 := by simpa [occupied] using hi
    have hun : m.vvNew (bucket, i) ∈ m.untried := by
      by_contra hnot
      have := h.refs _ hne
      rw [if_neg hnot, Int.natCast_eq_zero, occurs_eq_zero] at this
      exact this (bucket, i) (mem_newPlaces _) rfl
    have hnew := h.mem_newIds.mpr ((m.mem_untried _).mp hun)
    have hval := hin _ hnew
    rw [hval, number, if_neg (by simp [((m.mem_untried _).mp hun).2]), newIds]
    simp
  unfold serialize
  rw [hf]
  simp only [Option.bind_eq_bind, Option.bind_some]
  rw [htried]
  simp only [Option.bind_some, hbucket, List.nil_append]
  rfl

end checked

/-! ## The entries that are read -/

/-- An entry as it comes back from the file; the fields in memory only are those of `i0`. -/
def reload (k : StreamKind) (i0 i : CAddrInfo) : CAddrInfo :=
  { i0 with
    toCAddress := i.toCAddress.stored k, source := i.source, nLastSuccess := i.nLastSuccess, nAttempts := i.nAttempts }

theorem unserialize_info (k : StreamKind) (i0 i : CAddrInfo) (s : Stream) :
    i0.unserialize k (i.serialize k ++ s) = some (reload k i0 i, s) := by
  simp only [CAddrInfo.unserialize, CAddrInfo.serialize, List.append_assoc]
  rw [CAddress.unserialize_serialize]
  simp only [Option.bind_eq_bind, Option.bind_some]
  rw [CNetAddr.unserialize_serialize]
  simp only [Option.bind_some]
  rw [readInt64_write]
  simp only [Option.bind_some]
  rw [readInt32_write]
  rfl

/-- The index of a manager with the entries `l`, numbered from zero. -/
structure Loaded (m : CAddrMan) (l : List CAddrInfo) : Prop where
  lookup : ∀ x, m.mapInfo.lookup x =
    if 0 ≤ x then l[x.toNat]?.map fun i => { i with nRandomPos := x } else none
  addr : ∀ a x, m.mapAddr.lookup a = some x ↔ 0 ≤ x ∧ ∃ i, l[x.toNat]? = some i ∧ i.toCNetAddr = a
  random : m.vRandom = (List.range l.length).map Int.ofNat

namespace Loaded

variable {m : CAddrMan} {l : List CAddrInfo}

theorem append (h : Loaded m l) {i : CAddrInfo} (hnew : ∀ j ∈ l, j.toCNetAddr ≠ i.toCNetAddr) :
    Loaded (m.append l.length i) (l ++ [i]) := by
  have hlen : (m.vRandom.length : Int) = l.length := by rw [h.random]; simp
  refine ⟨fun x => ?_, fun a x => ?_, ?_⟩
  · show (m.mapInfo.insert (l.length : Int) _).lookup x = _
    by_cases hx : x = l.length
    · rw [hx, Finmap.lookup_insert, hlen]
      simp
    · rw [Finmap.lookup_insert_of_ne _ hx, h.lookup]
      by_cases hx0 : 0 ≤ x
      · rw [if_pos hx0, if_pos hx0]
        rcases Nat.lt_or_ge x.toNat l.length with hlt | hge
        · rw [List.getElem?_append_left hlt]
        · rw [List.getElem?_eq_none hge, List.getElem?_eq_none]
          rw [List.length_append, List.length_singleton]
          omega
      · rw [if_neg hx0, if_neg hx0]
  · show (m.mapAddr.insert i.toCNetAddr (l.length : Int)).lookup a = some x ↔ _
    by_cases ha : a = i.toCNetAddr
    · subst ha
      rw [Finmap.lookup_insert, Option.some.injEq]
      constructor
      · rintro rfl
        exact ⟨by omega, i, by simp, rfl⟩
      · rintro ⟨hx0, j, hj, hja⟩
        rcases Nat.lt_or_ge x.toNat l.length with hlt | hge
        · rw [List.getElem?_append_left hlt] at hj
          exact absurd hja (hnew j (List.mem_of_getElem? hj))
        · have := (List.getElem?_eq_some_iff.mp hj).1
          rw [List.length_append, List.length_singleton] at this
          omega
    · rw [Finmap.lookup_insert_of_ne _ ha, h.addr]
      refine and_congr_right fun hx0 => ?_
      rcases Nat.lt_or_ge x.toNat l.length with hlt | hge
      · rw [List.getElem?_append_left hlt]
      · rw [List.getElem?_eq_none hge]
        simp only [reduceCtorEq, false_and, exists_false, false_iff, not_exists, not_and]
        intro j hj hja
        obtain ⟨hlt, hj⟩ := List.getElem?_eq_some_iff.mp hj
        rw [List.length_append, List.length_singleton] at hlt
        have hx : x.toNat = l.length := by omega
        simp only [hx, List.getElem_concat_length] at hj
        exact ha (by rw [← hja, hj])
  · show m.vRandom ++ [(l.length : Int)] = _
    rw [h.random, List.length_append, List.length_singleton, List.range_succ, List.map_append]
    rfl

theorem mem (h : Loaded m l) (x : Int) : x ∈ m.mapInfo ↔ 0 ≤ x ∧ x < l.length := by
  rw [← Finmap.lookup_isSome, h.lookup]
  by_cases hx : 0 ≤ x
  · rw [if_pos hx, Option.isSome_map, isSome_getElem?]
    omega
  · simp [hx]

theorem info (h : Loaded m l) {x : Nat} {i : CAddrInfo} (hi : l[x]? = some i) :
    m.info x = { i with nRandomPos := x } := by
  apply info_of_lookup
  rw [h.lookup, if_pos (by omega), Int.toNat_natCast, hi, Option.map_some]

theorem indexed (h : Loaded m l) (hid : m.nIdCount = l.length) : Indexed m := by
  have hget : ∀ n ∈ m.mapInfo, ∃ (x : Nat) (i : CAddrInfo), n = x ∧ l[x]? = some i ∧
      m.info n = { i with nRandomPos := n } := fun n hn => by
    obtain ⟨h0, hlt⟩ := (h.mem n).mp hn
    obtain ⟨x, rfl⟩ := Int.eq_ofNat_of_zero_le h0
    have hx : x < l.length := by omega
    exact ⟨x, l[x], rfl, List.getElem?_eq_getElem hx, h.info (List.getElem?_eq_getElem hx)⟩
  refine ⟨by omega, fun n hn => hid ▸ (h.mem n).mp hn, fun n hn => ?_, fun a n hn => ?_, fun n hn => ?_,
    fun i n hn => ?_⟩
  · obtain ⟨x, i, rfl, hi, hinfo⟩ := hget n hn
    rw [h.addr, hinfo]
    exact ⟨by omega, i, by simpa using hi, rfl⟩
  · obtain ⟨h0, i, hi, ha⟩ := (h.addr a n).mp hn
    obtain ⟨x, rfl⟩ := Int.eq_ofNat_of_zero_le h0
    rw [Int.toNat_natCast] at hi
    refine ⟨(h.mem _).mpr ⟨h0, ?_⟩, by rw [h.info hi, ← ha]⟩
    have := (List.getElem?_eq_some_iff.mp hi).1
    omega
  · obtain ⟨x, i, rfl, hi, hinfo⟩ := hget n hn
    have := (List.getElem?_eq_some_iff.mp hi).1
    exact ⟨x, by rw [hinfo], by rw [h.random]; simp [this]⟩
  · rw [h.random, List.getElem?_map] at hn
    obtain ⟨j, hj, rfl⟩ := Option.map_eq_some_iff.mp hn
    obtain ⟨hlt, hj⟩ := List.getElem?_eq_some_iff.mp hj
    rw [List.length_range] at hlt
    rw [List.getElem_range] at hj
    subst hj
    exact ⟨(h.mem _).mpr ⟨by simp, by simpa using hlt⟩, by
      rw [show Int.ofNat i = (i : Int) from rfl, h.info (List.getElem?_eq_getElem hlt)]⟩

end Loaded

/-! ## Numbers that fit -/

section fit

variable {env : AddrEnv} {m : CAddrMan}

theorem Checked.vvTried_place (h : Checked env m) {n : Int} (hn : n ∈ m.triedIds) : m.vvTried (m.triedPlace env n) = n := by
  have hmem := (mem_triedIds m).mp hn
  have hne : n ≠ -1 := fun he => h.noId (he ▸ hmem.1)
  have hone := h.triedOnce n hne
  rw [if_pos ((mem_tried m n).mpr hmem)] at hone
  obtain ⟨q, -, hq⟩ := occurs_pos.mp (show 0 < occurs triedPlaces m.vvTried n by omega)
  have hplace := h.triedAt q (hq ▸ hne)
  rw [hq] at hplace
  rw [hplace, hq]

theorem Checked.vvTried_mem (h : Checked env m) {q : TriedPlace} (hq : m.vvTried q ≠ -1) : m.vvTried q ∈ m.triedIds := by
  have hone := h.triedOnce _ hq
  have hpos : 0 < occurs triedPlaces m.vvTried (m.vvTried q) := occurs_pos.mpr ⟨q, mem_triedPlaces q, rfl⟩
  rw [mem_triedIds, ← mem_tried]
  by_contra hn
  rw [if_neg hn] at hone
  omega

theorem Checked.vvNew_mem (h : Checked env m) {p : NewPlace} (hp : m.vvNew p ≠ -1) : m.vvNew p ∈ m.newIds := by
  have hrefs := h.refs _ hp
  have hpos : 0 < occurs newPlaces m.vvNew (m.vvNew p) := occurs_pos.mpr ⟨p, mem_newPlaces p, rfl⟩
  rw [h.mem_newIds, ← mem_untried]
  by_contra hn
  rw [if_neg hn] at hrefs
  omega

theorem Checked.length_newIds_le (h : Checked env m) : m.newIds.length ≤ 65536 := by
  have hsub : m.newIds ⊆ newPlaces.map m.vvNew := by
    intro n hn
    have hmem := h.mem_newIds.mp hn
    have hne : n ≠ -1 := fun he => h.noId (he ▸ hmem.1)
    have hrefs := h.refs n hne
    rw [if_pos ((mem_untried m n).mpr hmem)] at hrefs
    have := (h.entry n hmem.1).ref_pos (by simp [hmem.2])
    obtain ⟨p, hp, hpn⟩ := occurs_pos.mp (show 0 < occurs newPlaces m.vvNew n by omega)
    exact List.mem_map.mpr ⟨p, hp, hpn⟩
  have := (m.nodup_newIds.subperm hsub).length_le
  rwa [List.length_map, length_newPlaces] at this

theorem Checked.length_triedIds_le (h : Checked env m) : m.triedIds.length ≤ 16384 := by
  have hsub : m.triedIds ⊆ triedPlaces.map m.vvTried := by
    intro n hn
    exact List.mem_map.mpr ⟨_, mem_triedPlaces _, h.vvTried_place hn⟩
  have := (m.nodup_triedIds.subperm hsub).length_le
  rwa [List.length_map, length_triedPlaces] at this

theorem Checked.addr_inj (h : Checked env m) {x y : Int} (hx : x ∈ m.mapInfo) (hy : y ∈ m.mapInfo)
    (heq : (m.info x).toCNetAddr = (m.info y).toCNetAddr) : x = y := by
  rw [← (h.entry x hx).addr, heq, (h.entry y hy).addr]

end fit

/-! ## The loops over the entries -/

section loops

variable {env : AddrEnv} {k : StreamKind} {m : CAddrMan}

theorem Checked.fresh_append (h : Checked env m) {n : Int} {ns : List Int} (hns : ∀ x ∈ n :: ns, x ∈ m.mapInfo)
    (hn : n ∉ ns) {i : CAddrInfo} (hi : i.toCNetAddr = (m.info n).toCNetAddr) {l : List CAddrInfo}
    (hfresh : ∀ x ∈ n :: ns, ∀ j ∈ l, j.toCNetAddr ≠ (m.info x).toCNetAddr) :
    ∀ x ∈ ns, ∀ j ∈ l ++ [i], j.toCNetAddr ≠ (m.info x).toCNetAddr := by
  intro x hx j hj
  rcases List.mem_append.mp hj with hj | hj
  · exact hfresh x (List.mem_cons_of_mem n hx) j hj
  · rw [List.mem_singleton.mp hj, hi]
    intro heq
    have hnx := h.addr_inj (hns n List.mem_cons_self) (hns x (List.mem_cons_of_mem n hx)) heq
    exact hn (hnx ▸ hx)

theorem readNews_write (h : Checked env m) (ns : List Int) (hns : ∀ n ∈ ns, n ∈ m.mapInfo) (hnodup : ns.Nodup)
    {m1 : CAddrMan} {l : List CAddrInfo} (hl : Loaded m1 l)
    (hfresh : ∀ n ∈ ns, ∀ j ∈ l, j.toCNetAddr ≠ (m.info n).toCNetAddr) (s : Stream) :
    ∃ m2, readNews env k true ns.length l.length m1 ((ns.flatMap fun n => (m.info n).serialize k) ++ s) = some (m2, s) ∧
      Loaded m2 (l ++ ns.map fun n => reload k default (m.info n)) ∧
      m2 = { m1 with mapInfo := m2.mapInfo, mapAddr := m2.mapAddr, vRandom := m2.vRandom } := by
  induction ns generalizing m1 l with
  | nil => exact ⟨m1, rfl, by simpa using hl, rfl⟩
  | cons n ns ih =>
    obtain ⟨hn, hnodup⟩ := List.nodup_cons.mp hnodup
    have hnone : m1.info (l.length : Int) = default := by
      have : m1.mapInfo.lookup (l.length : Int) = none := by
        rw [hl.lookup]
        simp
      rw [info, this, Option.getD_none]
    have hl1 := hl.append (i := reload k default (m.info n)) (hfresh n List.mem_cons_self)
    obtain ⟨m2, hread, hl2, hrest⟩ := ih (fun x hx => hns x (List.mem_cons_of_mem n hx)) hnodup hl1
      (h.fresh_append (i := reload k default (m.info n)) hns hn rfl hfresh)
    refine ⟨m2, ?_, by simpa using hl2, hrest⟩
    rw [List.length_append, List.length_singleton, Nat.cast_add, Nat.cast_one] at hread
    rw [List.length_cons, readNews, readNew, List.flatMap_cons, List.append_assoc, hnone, unserialize_info]
    simp only [Option.bind_eq_bind, Option.bind_some, not_true_eq_false, false_and, if_false]
    exact hread

/-- The "tried" table when the entries of `done` have been read, after `count` new ones. -/
structure Replaced (m : CAddrMan) (count : Nat) (done : List Int) (m1 : CAddrMan) : Prop where
  nKey : m1.nKey = m.nKey
  nIdCount : m1.nIdCount = count + done.length
  vvTried : ∀ q, m1.vvTried q = if m.vvTried q ∈ done then (count : Int) + done.idxOf (m.vvTried q) else -1

theorem Replaced.append (h : Checked env m) {count : Nat} {done : List Int} {n : Int} {m1 m2 : CAddrMan}
    (hr : Replaced m count done m1) (hin : n ∈ m.triedIds) (hnd : n ∉ done) (hbound : count + done.length < 2 ^ 31 - 1)
    (hkey : m2.nKey = m1.nKey) (hid : m2.nIdCount = (m1.nIdCount + 1).bmod (2 ^ 32))
    (hvv : m2.vvTried = Function.update m1.vvTried (m.triedPlace env n) m1.nIdCount) :
    Replaced m count (done ++ [n]) m2 := by
  have hat := h.vvTried_place hin
  refine ⟨hkey.trans hr.nKey, ?_, fun r => ?_⟩
  · rw [hid, hr.nIdCount, List.length_append, List.length_singleton, Int.bmod_eq_of_le] <;> push_cast <;> omega
  · rw [hvv]
    by_cases hrq : r = m.triedPlace env n
    · rw [hrq, Function.update_self, hat, if_pos (by simp), hr.nIdCount, List.idxOf_append, if_neg hnd]
      simp
    · -- The place of another entry.
      have hrn : m.vvTried r ≠ n := by
        intro he
        have hplace := h.triedAt r (by rw [he]; exact fun h' => h.noId (h' ▸ ((mem_triedIds m).mp hin).1))
        rw [he] at hplace
        exact hrq hplace.symm
      rw [Function.update_of_ne hrq, hr.vvTried]
      by_cases hd : m.vvTried r ∈ done
      · rw [if_pos hd, if_pos (by simp [hd]), List.idxOf_append, if_pos hd]
      · rw [if_neg hd, if_neg (by simp [hd, hrn])]

theorem readTrieds_write (h : Checked env m) {count : Nat} (hcount : count ≤ 65536) (ns : List Int) (done : List Int)
    (hns : m.triedIds = done ++ ns) {m1 : CAddrMan} {l : List CAddrInfo} (hlen : l.length = count + done.length)
    (hl : Loaded m1 l) (hr : Replaced m count done m1)
    (hfresh : ∀ n ∈ ns, ∀ j ∈ l, j.toCNetAddr ≠ (m.info n).toCNetAddr) (nLost : Int) (s : Stream) :
    ∃ m2, readTrieds env k ns.length m1 nLost ((ns.flatMap fun n => (m.info n).serialize k) ++ s) = some (m2, nLost, s) ∧
      Loaded m2 (l ++ ns.map fun n => { reload k default (m.info n) with fInTried := true }) ∧
      Replaced m count m.triedIds m2 ∧ m2.nNew = m1.nNew ∧ m2.nTried = m1.nTried ∧ m2.vvNew = m1.vvNew ∧
      m2.nLastGood = m1.nLastGood := by
  induction ns generalizing m1 l done with
  | nil =>
    rw [List.append_nil] at hns
    exact ⟨m1, rfl, by simpa using hl, hns ▸ hr, rfl, rfl, rfl, rfl⟩
  | cons n ns ih =>
    have hnodup := m.nodup_triedIds
    have hbound := h.length_triedIds_le
    have hin : n ∈ m.triedIds := by rw [hns]; simp
    rw [hns] at hnodup hbound
    rw [List.length_append, List.length_cons] at hbound
    have hnd : n ∉ done := fun hd => (List.nodup_append.mp hnodup).2.2 n hd n List.mem_cons_self rfl
    have hnn : n ∉ ns := (List.nodup_cons.mp (List.nodup_append.mp hnodup).2.1).1
    have hat := h.vvTried_place hin
    have hid : m1.nIdCount = l.length := by rw [hr.nIdCount, hlen]; push_cast; rfl
    generalize hq : m.triedPlace env n = q at hat
    have hq1 : ((CAddrInfo.getTriedBucket env m1.nKey (reload k default (m.info n)).toCService,
        CAddrInfo.getBucketPosition env m1.nKey false
          (CAddrInfo.getTriedBucket env m1.nKey (reload k default (m.info n)).toCService)
          (reload k default (m.info n)).toCService) : TriedPlace) = q := by
      rw [hr.nKey, ← hq]
      rfl
    have hfree : m1.vvTried q = -1 := by rw [hr.vvTried, hat, if_neg hnd]
    generalize hm2 : ((m1.append m1.nIdCount { reload k default (m.info n) with fInTried := true }).setTried q
      m1.nIdCount).nextId = m2
    have hl2 : Loaded m2 (l ++ [{ reload k default (m.info n) with fInTried := true }]) := by
      have := hl.append (i := { reload k default (m.info n) with fInTried := true }) (hfresh n List.mem_cons_self)
      rw [← hid] at this
      rw [← hm2]
      exact ⟨this.lookup, this.addr, this.random⟩
    have hr2 : Replaced m count (done ++ [n]) m2 := by
      refine hr.append h hin hnd (by omega) ?_ ?_ ?_
      · rw [← hm2]
        rfl
      · rw [← hm2]
        rfl
      · rw [← hm2, hq]
        rfl
    have hmem : ∀ x ∈ n :: ns, x ∈ m.mapInfo := by
      intro x hx
      refine ((mem_triedIds m).mp ?_).1
      rw [hns]
      exact List.mem_append_right done hx
    obtain ⟨m3, hread, hl3, hr3, hnew, htried, hvvNew, hgood⟩ := ih (done ++ [n]) (by rw [hns]; simp)
      (by rw [List.length_append, List.length_append, List.length_singleton, List.length_singleton, hlen]; omega) hl2 hr2
      (h.fresh_append (i := { reload k default (m.info n) with fInTried := true }) hmem hnn rfl hfresh)
    refine ⟨m3, ?_, by simpa using hl3, hr3, ?_, ?_, ?_, ?_⟩
    · rw [List.length_cons, readTrieds, readTried, List.flatMap_cons, List.append_assoc, unserialize_info]
      simp only [Option.bind_eq_bind, Option.bind_some]
      rw [hq1, if_pos hfree, hm2]
      exact hread
    · rw [hnew, ← hm2]
      rfl
    · rw [htried, ← hm2]
      rfl
    · rw [hvvNew, ← hm2]
      rfl
    · rw [hgood, ← hm2]
      rfl

end loops

end CAddrMan

end DigiWage.Net
