import DigiWage.Net.AddrMoves
import DigiWage.Net.AddrReload

/-!
# The manager that is loaded

The rest of `Unserialize`: the "new" table is put together from the indices of the buckets, and nothing is pruned. The
manager that comes out is the one that was written, but for the names of the ids.

* `Renumbered`: what the loops over the entries have read.
* `Restored`: the invariant of the loop over the buckets.
-/

namespace DigiWage.Net

open Lib

namespace CAddrMan

/-! ## The numbers of the file -/

section numbers

variable {env : AddrEnv} {m : CAddrMan}

/-- The ids in the order of the file. -/
def fileIds (m : CAddrMan) : List Int := m.newIds ++ m.triedIds

theorem Checked.mem_fileIds (h : Checked env m) {n : Int} : n ∈ m.fileIds ↔ n ∈ m.mapInfo := by
  rw [fileIds, List.mem_append, h.mem_newIds, mem_triedIds, ← and_or_left]
  simp

theorem Checked.nodup_fileIds (h : Checked env m) : m.fileIds.Nodup := by
  refine List.nodup_append.mpr ⟨m.nodup_newIds, m.nodup_triedIds, fun a ha b hb hab => ?_⟩
  have hnew := (h.mem_newIds.mp ha).2
  rw [hab, ((mem_triedIds m).mp hb).2] at hnew
  cases hnew

theorem Checked.number_eq (h : Checked env m) {n : Int} (hn : n ∈ m.mapInfo) : m.number n = m.fileIds.idxOf n := by
  unfold number fileIds
  rw [List.idxOf_append]
  cases ht : (m.info n).fInTried with
  | true =>
    have hnew : n ∉ m.newIds := fun hnew => by simp [(h.mem_newIds.mp hnew).2] at ht
    rw [if_pos rfl, if_neg hnew, Nat.cast_add, add_comm]
  | false => rw [if_neg (by simp), if_pos (h.mem_newIds.mpr ⟨hn, ht⟩)]

theorem Checked.number_inj (h : Checked env m) {x y : Int} (hx : x ∈ m.mapInfo) (hy : y ∈ m.mapInfo)
    (heq : m.number x = m.number y) : x = y := by
  rw [h.number_eq hx, h.number_eq hy, Nat.cast_inj] at heq
  exact (List.idxOf_inj (h.mem_fileIds.mpr hx)).mp heq

theorem Checked.bijOn_number (h : Checked env m) :
    Set.BijOn m.number {n | n ∈ m.mapInfo} {x | 0 ≤ x ∧ x < m.fileIds.length} := by
  refine ⟨fun n hn => ?_, fun x hx y hy => h.number_inj hx hy, fun x hx => ?_⟩
  · have hlt := List.idxOf_lt_length_iff.mpr (h.mem_fileIds.mpr hn)
    show 0 ≤ m.number n ∧ m.number n < m.fileIds.length
    rw [h.number_eq hn]
    omega
  · obtain ⟨h0, hlt⟩ := hx
    obtain ⟨i, rfl⟩ := Int.eq_ofNat_of_zero_le h0
    have hi : i < m.fileIds.length := by omega
    have hmem : m.fileIds[i] ∈ m.mapInfo := h.mem_fileIds.mp (List.getElem_mem hi)
    exact ⟨m.fileIds[i], hmem, by rw [h.number_eq hmem, h.nodup_fileIds.idxOf_getElem]⟩

theorem Checked.number_of_new (h : Checked env m) {n : Int} (hn : n ∈ m.newIds) :
    0 ≤ m.number n ∧ m.number n < m.nNew ∧ m.number n < 2 ^ 31 := by
  have hbound := h.length_newIds_le
  have hlt := List.idxOf_lt_length_iff.mpr hn
  rw [number, if_neg (by simp [(h.mem_newIds.mp hn).2]), ← h.length_newIds]
  omega

end numbers

/-! ## The places of the file -/

section places

variable (m : CAddrMan)

theorem filter_product {α β : Type} (l : List α) (l' : List β) (P : α × β → Bool) :
    (l.product l').filter P = l.flatMap fun a => (l'.filter fun b => P (a, b)).map (Prod.mk a) := by
  rw [List.product, List.filter_flatMap]
  refine List.flatMap_congr fun a _ => ?_
  rw [List.filter_map]
  rfl

theorem drop_finRange {n start : Nat} (h : start < n) :
    (List.finRange n).drop start = ⟨start, h⟩ :: (List.finRange n).drop (start + 1) := by
  rw [List.drop_eq_getElem_cons (by rwa [List.length_finRange]), List.getElem_finRange]
  rfl

/-- The places of the "new" table that have an entry, in the order of the file. -/
def usedPlaces : List NewPlace := newBuckets.flatMap fun bucket => (m.occupied bucket).map (Prod.mk bucket)

theorem usedPlaces_eq : m.usedPlaces = newPlaces.filter fun p => m.vvNew p ≠ -1 := by
  unfold usedPlaces newPlaces
  generalize newBuckets = l
  rw [filter_product]
  rfl

theorem mem_usedPlaces (p : NewPlace) : p ∈ m.usedPlaces ↔ m.vvNew p ≠ -1 := by
  rw [usedPlaces_eq, List.mem_filter]
  simp [mem_newPlaces]

theorem nodup_usedPlaces : m.usedPlaces.Nodup := by
  rw [usedPlaces_eq]
  exact nodup_newPlaces.filter _

theorem occurs_usedPlaces {n : Int} (hn : n ≠ -1) : occurs m.usedPlaces m.vvNew n = occurs newPlaces m.vvNew n := by
  rw [usedPlaces_eq]
  exact occurs_filter _ _ fun p hp => by simpa [hp] using hn

theorem Checked.occurs_lt {env : AddrEnv} {m : CAddrMan} (h : Checked env m) {done rest : List NewPlace} {p : NewPlace}
    (hused : m.usedPlaces = done ++ p :: rest) : occurs done m.vvNew (m.vvNew p) < 8 := by
  have hne : m.vvNew p ≠ -1 := (m.mem_usedPlaces p).mp (by simp [hused])
  have hun := h.mem_newIds.mp (h.vvNew_mem hne)
  have hrefs := h.refs _ hne
  rw [if_pos ((m.mem_untried _).mpr hun), ← m.occurs_usedPlaces hne, hused, occurs_append, occurs_cons, if_pos rfl] at hrefs
  have hle := (h.entry _ hun.1).ref_le (by simp [hun.2])
  omega

end places

/-! ## The loop over the buckets -/

/-- The entries of `m` have been read: each is there under its number, and has no reference. -/
structure Renumbered (k : StreamKind) (m base : CAddrMan) : Prop where
  nKey : base.nKey = m.nKey
  nNew : base.nNew = m.nNew
  nTried : base.nTried = m.nTried
  bij : Set.BijOn m.number {n | n ∈ m.mapInfo} {x | x ∈ base.mapInfo}
  info : ∀ n ∈ m.mapInfo, base.info (m.number n) =
    { reload k default (m.info n) with fInTried := (m.info n).fInTried, nRandomPos := m.number n }
  vvNew : ∀ p, base.vvNew p = -1
  vvTried : ∀ q, base.vvTried q = if m.vvTried q = -1 then -1 else m.number (m.vvTried q)

/-- The manager when the places `done` have been read. -/
structure Restored (m base : CAddrMan) (done : List NewPlace) (m1 : CAddrMan) : Prop where
  rest : m1 = { base with mapInfo := m1.mapInfo, vvNew := m1.vvNew }
  mem : ∀ x, x ∈ m1.mapInfo ↔ x ∈ base.mapInfo
  info : ∀ x, m1.info x = { base.info x with nRefCount := (m1.info x).nRefCount }
  refs : ∀ n ∈ m.mapInfo, (m1.info (m.number n)).nRefCount = occurs done m.vvNew n
  vvNew : ∀ p, m1.vvNew p = if p ∈ done then m.number (m.vvNew p) else -1

section buckets

variable {env : AddrEnv} {k : StreamKind} {m base m1 : CAddrMan}

theorem Renumbered.restored (hb : Renumbered k m base) : Restored m base [] base where
  rest := rfl
  mem _ := Iff.rfl
  info _ := rfl
  refs n hn := by
    rw [hb.info n hn]
    rfl
  vvNew p := by rw [hb.vvNew, if_neg List.not_mem_nil]

theorem Restored.restore (h : Checked env m) (hb : Renumbered k m base) {done rest : List NewPlace}
    (hr : Restored m base done m1) {p : NewPlace} (hused : m.usedPlaces = done ++ p :: rest) :
    Restored m base (done ++ [p]) (m1.restore env true p.1 (m.number (m.vvNew p))) := by
  have hne : m.vvNew p ≠ -1 := (m.mem_usedPlaces p).mp (by simp [hused])
  have hnew := h.vvNew_mem hne
  have hn := (h.mem_newIds.mp hnew).1
  have hlt := h.occurs_lt hused
  have hnodup := m.nodup_usedPlaces
  rw [hused] at hnodup
  have hdone : p ∉ done := fun hp => (List.nodup_append.mp hnodup).2.2 p hp p List.mem_cons_self rfl
  have hplace := h.newAt p hne
  obtain ⟨h0, hltNew, -⟩ := h.number_of_new hnew
  generalize hn' : m.vvNew p = n at *
  have hnum : m.number n ∈ m1.mapInfo := (hr.mem _).mpr (hb.bij.mapsTo hn)
  have hkey : m1.nKey = m.nKey := by rw [hr.rest]; exact hb.nKey
  have hnNew : m1.nNew = m.nNew := by rw [hr.rest]; exact hb.nNew
  have hserv : (m1.info (m.number n)).toCService = (m.info n).toCService := by
    rw [hr.info, hb.info n hn]
    rfl
  have hat : m1.placeIn env (m.number n) (Fin.ofNat 1024 p.1) = p := by
    rw [Fin.ofNat_val_eq_self, ← hplace]
    simp only [placeIn, hserv, hkey]
  have hfree : m1.vvNew p = -1 := by rw [hr.vvNew, if_neg hdone]
  have hcount : (m1.info (m.number n)).nRefCount < 8 := by
    rw [hr.refs n hn]
    omega
  rw [CAddrMan.restore, if_pos ⟨h0, by rw [hnNew]; exact hltNew⟩]
  simp only [hat]
  rw [if_pos ⟨trivial, hfree, hcount⟩]
  refine ⟨?_, fun x => ?_, fun x => ?_, fun x hx => ?_, fun p' => ?_⟩
  · rw [hr.rest]
    rfl
  · rw [mapInfo_setNew, mem_modify _ _ hnum, hr.mem]
  · rw [info_setNew]
    by_cases hx : x = m.number n
    · rw [hx, info_modify_self, hr.info]
    · rw [info_modify_of_ne _ _ _ hx]
      exact hr.info x
  · rw [info_setNew, occurs_append, occurs_cons, occurs_nil, hn']
    by_cases hxn : x = n
    · subst hxn
      rw [info_modify_self, if_pos rfl]
      show (m1.info (m.number x)).nRefCount + 1 = _
      rw [hr.refs x hx]
      omega
    · rw [info_modify_of_ne _ _ _ fun he => hxn (h.number_inj hx hn he), hr.refs x hx, if_neg (Ne.symm hxn)]
      omega
  · show Function.update m1.vvNew p (m.number n) p' = _
    by_cases hp : p' = p
    · rw [hp, Function.update_self, if_pos (by simp), hn']
    · rw [Function.update_of_ne hp, hr.vvNew]
      simp [hp]

theorem readIndices_write (h : Checked env m) (hb : Renumbered k m base) (bucket : Fin 1024) (is : List (Fin 64))
    {done rest : List NewPlace} (hr : Restored m base done m1)
    (hused : m.usedPlaces = done ++ (is.map (Prod.mk bucket) ++ rest)) (s : Stream) :
    ∃ m2, readIndices env true bucket is.length m1
        ((is.flatMap fun i => writeInt32 (Int32.ofInt (m.number (m.vvNew (bucket, i))))) ++ s) = some (m2, s) ∧
      Restored m base (done ++ is.map (Prod.mk bucket)) m2 := by
  induction is generalizing m1 done with
  | nil => exact ⟨m1, rfl, by simpa using hr⟩
  | cons i is ih =>
    rw [List.map_cons, List.cons_append] at hused
    have hne : m.vvNew (bucket, i) ≠ -1 := (m.mem_usedPlaces _).mp (by simp [hused])
    obtain ⟨h0, -, hfit⟩ := h.number_of_new (h.vvNew_mem hne)
    obtain ⟨m2, hread, hr2⟩ := ih (hr.restore h hb hused) (by simpa using hused)
    refine ⟨m2, ?_, by simpa using hr2⟩
    rw [List.length_cons, readIndices, List.flatMap_cons, List.append_assoc, readInt32_write]
    simp only [Option.bind_eq_bind, Option.bind_some]
    rw [Int32.toInt_ofInt_of_le (by omega) hfit]
    exact hread

theorem readBuckets_write (h : Checked env m) (hb : Renumbered k m base) (count start : Nat) (hall : start + count = 1024)
    {done : List NewPlace} (hr : Restored m base done m1)
    (hused : m.usedPlaces = done ++ (newBuckets.drop start).flatMap fun bucket => (m.occupied bucket).map (Prod.mk bucket))
    (s : Stream) :
    ∃ m2, readBuckets env true count start m1 ((newBuckets.drop start).flatMap (m.writeBucket m.number) ++ s) = some (m2, s) ∧
      Restored m base m.usedPlaces m2 := by
  have hlen : newBuckets.length = 1024 := List.length_finRange
  induction count generalizing m1 start done with
  | zero =>
    rw [List.drop_eq_nil_of_le (by omega), List.flatMap_nil, List.append_nil] at hused
    rw [List.drop_eq_nil_of_le (by omega)]
    exact ⟨m1, rfl, hused ▸ hr⟩
  | succ count ih =>
    have hstart : start < 1024 := by omega
    have hdrop : newBuckets.drop start = (⟨start, hstart⟩ : Fin 1024) :: newBuckets.drop (start + 1) :=
      drop_finRange hstart
    rw [hdrop, List.flatMap_cons] at hused
    obtain ⟨m2, hread, hr2⟩ := readIndices_write h hb ⟨start, hstart⟩ (m.occupied ⟨start, hstart⟩) hr hused
      ((newBuckets.drop (start + 1)).flatMap (m.writeBucket m.number) ++ s)
    obtain ⟨m3, hread3, hr3⟩ := ih (start + 1) (by omega) hr2 (by rw [hused, List.append_assoc])
    refine ⟨m3, ?_, hr3⟩
    simp only at hread
    have hsize : (m.occupied ⟨start, hstart⟩).length ≤ 64 :=
      (List.length_filter_le _ _).trans List.length_finRange.le
    rw [hdrop, List.flatMap_cons, writeBucket, readBuckets, List.append_assoc, List.append_assoc, readInt32_write]
    simp only [Option.bind_eq_bind, Option.bind_some]
    rw [Int32.toInt_ofNat_of_lt (by omega), Int.toNat_natCast, hread]
    exact hread3

end buckets

/-! ## The whole file -/

/-- Two managers that differ in the names of the ids, and in what is not stored. -/
structure Renamed (k : StreamKind) (φ : Int → Int) (m m' : CAddrMan) : Prop where
  nKey : m'.nKey = m.nKey
  nNew : m'.nNew = m.nNew
  nTried : m'.nTried = m.nTried
  bij : Set.BijOn φ {n | n ∈ m.mapInfo} {x | x ∈ m'.mapInfo}
  address : ∀ n ∈ m.mapInfo, (m'.info (φ n)).toCAddress = (m.info n).toCAddress.stored k
  source : ∀ n ∈ m.mapInfo, (m'.info (φ n)).source = (m.info n).source
  nLastSuccess : ∀ n ∈ m.mapInfo, (m'.info (φ n)).nLastSuccess = (m.info n).nLastSuccess
  nAttempts : ∀ n ∈ m.mapInfo, (m'.info (φ n)).nAttempts = (m.info n).nAttempts
  fInTried : ∀ n ∈ m.mapInfo, (m'.info (φ n)).fInTried = (m.info n).fInTried
  nRefCount : ∀ n ∈ m.mapInfo, (m'.info (φ n)).nRefCount = (m.info n).nRefCount
  nLastTry : ∀ n ∈ m.mapInfo, (m'.info (φ n)).nLastTry = 0
  vvNew : ∀ p, m'.vvNew p = if m.vvNew p = -1 then -1 else φ (m.vvNew p)
  vvTried : ∀ q, m'.vvTried q = if m.vvTried q = -1 then -1 else φ (m.vvTried q)

section whole

variable {env : AddrEnv} {k : StreamKind} {m m1 : CAddrMan}

theorem Loaded.renumbered (h : Checked env m)
    (hl : Loaded m1 (m.newIds.map (fun n => reload k default (m.info n)) ++
      m.triedIds.map fun n => { reload k default (m.info n) with fInTried := true }))
    (hr : Replaced m m.newIds.length m.triedIds m1) (hnew : m1.nNew = m.nNew) (htried : m1.nTried = m.nTried)
    (hvvNew : ∀ p, m1.vvNew p = -1) : Renumbered k m m1 := by
  have hlist : m.newIds.map (fun n => reload k default (m.info n)) ++
      m.triedIds.map (fun n => { reload k default (m.info n) with fInTried := true }) =
      m.fileIds.map fun n => { reload k default (m.info n) with fInTried := (m.info n).fInTried } := by
    rw [fileIds, List.map_append]
    congr 1
    · refine List.map_congr_left fun n hn => ?_
      rw [(h.mem_newIds.mp hn).2]
      rfl
    · refine List.map_congr_left fun n hn => ?_
      rw [((mem_triedIds m).mp hn).2]
  rw [hlist] at hl
  refine ⟨hr.nKey, hnew, htried, ?_, fun n hn => ?_, hvvNew, fun q => ?_⟩
  · have hmem : {x | x ∈ m1.mapInfo} = {x : Int | 0 ≤ x ∧ x < m.fileIds.length} := by
      ext x
      show x ∈ m1.mapInfo ↔ 0 ≤ x ∧ x < m.fileIds.length
      rw [hl.mem, List.length_map]
    rw [hmem]
    exact h.bijOn_number
  · have hget := congrArg (Option.map fun n => { reload k default (m.info n) with fInTried := (m.info n).fInTried })
      (List.getElem?_idxOf (h.mem_fileIds.mpr hn))
    rw [← List.getElem?_map, Option.map_some] at hget
    rw [h.number_eq hn]
    exact hl.info hget
  · rw [hr.vvTried]
    by_cases hq : m.vvTried q = -1
    · rw [if_pos hq, if_neg]
      rw [hq, mem_triedIds]
      exact fun hmem => h.noId hmem.1
    · have hin := h.vvTried_mem hq
      rw [if_neg hq, if_pos hin, number, if_pos ((mem_triedIds m).mp hin).2]

theorem Restored.renamed {base : CAddrMan} (h : Checked env m) (hb : Renumbered k m base)
    (hr : Restored m base m.usedPlaces m1) : Renamed k m.number m m1 := by
  have hinfo : ∀ n ∈ m.mapInfo, m1.info (m.number n) = { reload k default (m.info n) with
      fInTried := (m.info n).fInTried, nRandomPos := m.number n, nRefCount := (m1.info (m.number n)).nRefCount } :=
    fun n hn => by
      rw [hr.info]
      simp only [hb.info n hn]
  have hmem : {x | x ∈ m1.mapInfo} = {x | x ∈ base.mapInfo} := Set.ext hr.mem
  refine ⟨by rw [hr.rest]; exact hb.nKey, by rw [hr.rest]; exact hb.nNew, by rw [hr.rest]; exact hb.nTried,
    hmem ▸ hb.bij, fun n hn => by rw [hinfo n hn]; rfl, fun n hn => by rw [hinfo n hn]; rfl,
    fun n hn => by rw [hinfo n hn]; rfl, fun n hn => by rw [hinfo n hn]; rfl, fun n hn => by rw [hinfo n hn],
    fun n hn => ?_, fun n hn => by rw [hinfo n hn]; rfl, fun p => ?_, fun q => ?_⟩
  · have hne : n ≠ -1 := fun he => h.noId (he ▸ hn)
    rw [hr.refs n hn, occurs_usedPlaces m hne, h.refs n hne]
    cases ht : (m.info n).fInTried with
    | true => rw [if_neg (by simp [mem_untried, ht]), (h.entry n hn).tried_ref ht]
    | false => rw [if_pos ((m.mem_untried n).mpr ⟨hn, ht⟩)]
  · rw [hr.vvNew]
    by_cases hp : m.vvNew p = -1
    · rw [if_pos hp, if_neg fun hmem => (m.mem_usedPlaces p).mp hmem hp]
    · rw [if_neg hp, if_pos ((m.mem_usedPlaces p).mpr hp)]
  · rw [hr.rest]
    exact hb.vvTried q

theorem foldlM_prune (l : List Int) (hl : ∀ n ∈ l, (m1.info n).fInTried = false → (m1.info n).nRefCount ≠ 0) :
    l.foldlM prune m1 = some m1 := by
  induction l with
  | nil => rfl
  | cons n l ih =>
    have hn : prune m1 n = some m1 := if_neg fun hp => hl n List.mem_cons_self hp.1 hp.2
    rw [List.foldlM_cons, hn]
    exact ih fun x hx => hl x (List.mem_cons_of_mem n hx)

theorem Checked.readEntries_write (h : Checked env m) (hl : Loaded m1 []) (hkey : m1.nKey = m.nKey)
    (hnNew : m1.nNew = m.nNew) (hnTried : m1.nTried = m.nTried) (hvvNew : ∀ p, m1.vvNew p = -1)
    (hvvTried : ∀ q, m1.vvTried q = -1) (s : Stream) :
    ∃ m2 m3, readNews env k true m.newIds.length 0 m1 ((m.newIds.flatMap fun n => (m.info n).serialize k) ++
        ((m.triedIds.flatMap fun n => (m.info n).serialize k) ++ s)) =
        some (m2, (m.triedIds.flatMap fun n => (m.info n).serialize k) ++ s) ∧ m2.nTried = m.nTried ∧
      readTrieds env k m.triedIds.length { m2 with nIdCount := m2.nNew } 0
        ((m.triedIds.flatMap fun n => (m.info n).serialize k) ++ s) = some (m3, 0, s) ∧
      Renumbered k m m3 ∧ Indexed m3 := by
  obtain ⟨m2, hread2, hl2, hrest2⟩ := readNews_write (k := k) h m.newIds (fun n hn => (h.mem_newIds.mp hn).1)
    m.nodup_newIds hl (by simp) ((m.triedIds.flatMap fun n => (m.info n).serialize k) ++ s)
  have hnNew2 : m2.nNew = m.nNew := by
    rw [hrest2]
    exact hnNew
  have hnTried2 : m2.nTried = m.nTried := by
    rw [hrest2]
    exact hnTried
  have hvvNew2 : m2.vvNew = m1.vvNew := by rw [hrest2]
  generalize hm2 : ({ m2 with nIdCount := m2.nNew } : CAddrMan) = m2'
  have hr2 : Replaced m m.newIds.length [] m2' := by
    refine ⟨?_, ?_, fun q => ?_⟩
    · rw [← hm2, hrest2]
      exact hkey
    · rw [← hm2]
      simp [hnNew2, h.length_newIds]
    · rw [← hm2, hrest2]
      simp [hvvTried]
  have hl2' : Loaded m2' (m.newIds.map fun n => reload k default (m.info n)) := by
    rw [List.nil_append] at hl2
    rw [← hm2]
    exact ⟨hl2.lookup, hl2.addr, hl2.random⟩
  obtain ⟨m3, hread3, hl3, hr3, hnNew3, hnTried3, hvvNew3, -⟩ := readTrieds_write (k := k) h h.length_newIds_le m.triedIds
    [] rfl (by simp) hl2' hr2 (fun n hn j hj => by
      obtain ⟨x, hx, rfl⟩ := List.mem_map.mp hj
      intro heq
      have hxn := h.addr_inj (h.mem_newIds.mp hx).1 ((mem_triedIds m).mp hn).1 heq
      have hflag := (h.mem_newIds.mp hx).2
      rw [hxn, ((mem_triedIds m).mp hn).2] at hflag
      cases hflag) 0 s
  refine ⟨m2, m3, hread2, hnTried2, hm2 ▸ hread3, hl3.renumbered h hr3 (by rw [hnNew3, ← hm2, hnNew2])
    (by rw [hnTried3, ← hm2, hnTried2]) (fun p => ?_), hl3.indexed ?_⟩
  · rw [hvvNew3, ← hm2]
    exact (congrFun hvvNew2 p).trans (hvvNew p)
  · rw [hr3.nIdCount, List.length_append, List.length_map, List.length_map, Nat.cast_add]

theorem Checked.unserialize_serialize (h : Checked env m) (k : StreamKind) :
    ∃ bytes, m.serialize k = some bytes ∧ ∀ randHash m0 rest, m0.mapInfo = ∅ → m0.mapAddr = ∅ →
      ∃ m', unserialize env k randHash m0 (bytes ++ rest) = some (m', rest) ∧ Renamed k m.number m m' ∧ Indexed m' := by
  refine ⟨_, h.serialize_eq k, fun randHash m0 rest hinfo0 haddr0 => ?_⟩
  have hnew := h.length_newIds
  have htried := h.length_triedIds
  have hnewLe := h.length_newIds_le
  have htriedLe := h.length_triedIds_le
  generalize hm1 : ({ m0.clear randHash with nKey := m.nKey, nNew := m.nNew, nTried := m.nTried } : CAddrMan) = m1
  have hl1 : Loaded m1 [] := by
    rw [← hm1]
    refine ⟨fun x => ?_, fun a x => ?_, rfl⟩
    · show m0.mapInfo.lookup x = _
      rw [hinfo0]
      simp
    · show m0.mapAddr.lookup a = some x ↔ _
      rw [haddr0]
      simp
  obtain ⟨m2, m3, hread2, hnTried2, hread3, hb, hi3⟩ := h.readEntries_write (k := k) hl1 (by rw [← hm1]) (by rw [← hm1])
    (by rw [← hm1]) (fun p => by rw [← hm1]; rfl) (fun q => by rw [← hm1]; rfl)
    (newBuckets.flatMap (m.writeBucket m.number) ++ rest)
  obtain ⟨m4, hread4, hr4⟩ := readBuckets_write h hb 1024 0 rfl hb.restored
    (by rw [List.nil_append, List.drop_zero, usedPlaces]) rest
  rw [List.drop_zero] at hread4
  have hrenamed := hr4.renamed h hb
  have hprune : m4.ids.foldlM prune m4 = some m4 := foldlM_prune m4.ids fun x hx hflag => by
    obtain ⟨n, hn, rfl⟩ := hrenamed.bij.surjOn ((mem_ids m4 x).mp hx)
    rw [hrenamed.fInTried n hn] at hflag
    rw [hrenamed.nRefCount n hn]
    exact ((h.entry n hn).ref_pos (by simp [hflag])).ne'
  refine ⟨m4, ?_, hrenamed, hi3.congr (by rw [hr4.rest]) hr4.mem (fun x _ => by rw [hr4.info]; exact ⟨rfl, rfl⟩)
    (by rw [hr4.rest]) (by rw [hr4.rest])⟩
  have hnewToInt : (Int32.ofInt m.nNew).toInt = m.nNew := Int32.toInt_ofInt_of_le (by omega) (by omega)
  have htriedToInt : (Int32.ofInt m.nTried).toInt = m.nTried := Int32.toInt_ofInt_of_le (by omega) (by omega)
  have hbuckets : ((1024 ^^^ 1073741824 : Int32) ^^^ 1073741824) = 1024 := by decide
  have hversion : (if (1 : UInt8) ≠ 0 then (1024 : Int32) else 1024 ^^^ 1073741824) = 1024 := if_pos (by decide)
  have husable : ((1 : UInt8) == 1 && (1024 : Int32) == 1024) = true := by decide
  have hsize : (1024 : Int32).toInt.toNat = 1024 := by decide
  have hlost : m3.addTried (-0) = m3 := by simp [addTried]
  unfold unserialize
  simp only [List.cons_append, List.nil_append, List.append_assoc, readUInt8, Option.bind_eq_bind, Option.bind_some,
    readUint256_write, readInt32_write, hnewToInt, htriedToInt, hbuckets]
  rw [if_neg (by decide), hversion, husable, hm1, show m.nNew.toNat = m.newIds.length by omega, hread2]
  simp only [Option.bind_some]
  rw [show m2.nTried.toNat = m.triedIds.length by omega, hread3]
  simp only [Option.bind_some]
  rw [hlost, hsize, hread4]
  simp only [Option.bind_some]
  rw [hprune]
  rfl

end whole

end CAddrMan

end DigiWage.Net
