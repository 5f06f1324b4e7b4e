import DigiWage.Net.AddrRestore
import DigiWage.Lib.Run

/-!
# The operations of the address manager

A manager at rest is `Whole`, and then it is `Checked`. Each operation keeps this, and passes its assertions.

* `Whole.checked`, and `Renamed.whole` for a manager that was loaded.
-/

namespace DigiWage.Net

open Lib

namespace CAddrMan

/-- The manager is at rest. -/
structure Whole (env : AddrEnv) (m : CAddrMan) : Prop where
  index : Indexed m
  tables : Placed env m (fun _ => False) 0 0

section whole

variable {env : AddrEnv} {m : CAddrMan}

theorem Indexed.length_vRandom (h : Indexed m) : m.vRandom.length = m.mapInfo.keys.card := by
  have hnodup : m.vRandom.Nodup := by
    refine List.nodup_iff_getElem?_ne_getElem?.mpr fun i j hij hj heq => ?_
    have hget := List.getElem?_eq_getElem hj
    have hi := (h.random i _ (heq.trans hget)).2
    have hj := (h.random j _ hget).2
    omega
  have hset : m.vRandom.toFinset = m.mapInfo.keys := by
    ext n
    rw [List.mem_toFinset, Finmap.mem_keys]
    constructor
    · intro hn
      obtain ⟨i, hi⟩ := List.mem_iff_getElem?.mp hn
      exact (h.random i n hi).1
    · intro hn
      obtain ⟨i, -, hi⟩ := h.position n hn
      exact List.mem_of_getElem? hi
  rw [← hset, List.toFinset_card_of_nodup hnodup]

theorem Whole.checked (h : Whole env m) : Checked env m := by
  obtain ⟨hi, hp⟩ := h
  have huntried := hp.newCount
  have htried := hp.triedCount
  refine ⟨?_, fun n hn => ?_, by omega, by omega, hp.noId, fun q hq => (hp.triedAt q hq).2, fun n hn => ?_,
    fun p hq => (hp.newAt p hq).2, fun n hn => ?_, hp.key⟩
  · have hsum : m.tried.card + m.untried.card = m.mapInfo.keys.card :=
      Finset.card_filter_add_card_filter_not fun n => (m.info n).fInTried = true
    rw [hi.length_vRandom]
    omega
  · have hok := hp.entry n hn
    have hrefs := hp.refs n hn
    obtain ⟨i, hpos, hget⟩ := hi.position n hn
    have hlt := (List.getElem?_eq_some_iff.mp hget).1
    refine ⟨hok.tried_success, hok.tried_ref, fun ht => ?_, fun _ => hok.ref_le, by rw [hi.addr n hn, Option.getD_some],
      by omega, by omega, by rw [hpos, Int.toNat_natCast, List.getD_eq_getElem?_getD, hget, Option.getD_some], hok.lastTry,
      hok.lastSuccess⟩
    have := hok.live id (by simpa using ht)
    omega
  · by_cases hmem : n ∈ m.mapInfo
    · rw [hp.triedOnce n hmem]
      simp only [mem_tried, hmem, true_and]
    · rw [if_neg fun h => hmem ((mem_tried m n).mp h).1, occurs_eq_zero]
      intro q _ hq
      rw [← hq] at hn hmem
      exact hmem (hp.triedAt q hn).1
  · by_cases hmem : n ∈ m.mapInfo
    · rw [hp.refs n hmem]
      cases ht : (m.info n).fInTried with
      | true => rw [if_neg (by simp [mem_untried, ht]), (hp.entry n hmem).tried_ref ht]
      | false => rw [if_pos ((mem_untried m n).mpr ⟨hmem, ht⟩)]
    · rw [if_neg fun h => hmem ((mem_untried m n).mp h).1, Nat.cast_eq_zero, occurs_eq_zero]
      intro p _ hq
      rw [← hq] at hn hmem
      exact hmem (hp.newAt p hn).1

end whole

/-! ## A manager that was loaded -/

namespace Renamed

variable {env : AddrEnv} {k : StreamKind} {φ : Int → Int} {m m' : CAddrMan}

theorem mem (hr : Renamed k φ m m') {n : Int} (hn : n ∈ m.mapInfo) : φ n ∈ m'.mapInfo := hr.bij.mapsTo hn

theorem exists_eq (hr : Renamed k φ m m') {x : Int} (hx : x ∈ m'.mapInfo) : ∃ n ∈ m.mapInfo, φ n = x := hr.bij.surjOn hx

theorem toCService (hr : Renamed k φ m m') {n : Int} (hn : n ∈ m.mapInfo) :
    (m'.info (φ n)).toCService = (m.info n).toCService := by
  rw [hr.address n hn]
  rfl

theorem place_iff (hr : Renamed k φ m m') (hi : Indexed m') (hneg : -1 ∉ m.mapInfo) {n y z : Int} (hn : n ∈ m.mapInfo)
    (hy : y ≠ -1 → y ∈ m.mapInfo) (hz : z = if y = -1 then -1 else φ y) : z = φ n ↔ y = n := by
  rw [hz]
  by_cases he : y = -1
  · rw [if_pos he, he]
    refine iff_of_false (hi.ne_neg_one (hr.mem hn)).symm fun hne => ?_
    exact hneg (hne ▸ hn)
  · rw [if_neg he]
    exact ⟨hr.bij.injOn (hy he) hn, congrArg φ⟩

theorem card_eq (hr : Renamed k φ m m') {S S' : Finset Int} (hS : ∀ n ∈ S, n ∈ m.mapInfo)
    (hS' : ∀ x ∈ S', x ∈ m'.mapInfo) (hiff : ∀ n ∈ m.mapInfo, φ n ∈ S' ↔ n ∈ S) : S'.card = S.card := by
  symm
  refine Finset.card_nbij φ (fun n hn => (hiff n (hS n hn)).mpr hn) (fun x hx y hy => ?_) fun x hx => ?_
  · exact hr.bij.injOn (hS x hx) (hS y hy)
  · obtain ⟨n, hn, rfl⟩ := hr.exists_eq (hS' x hx)
    exact ⟨n, (hiff n hn).mp hx, rfl⟩

theorem mem_tried_iff (hr : Renamed k φ m m') {n : Int} (hn : n ∈ m.mapInfo) : φ n ∈ m'.tried ↔ n ∈ m.tried := by
  simp only [mem_tried, hr.mem hn, hn, hr.fInTried n hn]

theorem mem_untried_iff (hr : Renamed k φ m m') {n : Int} (hn : n ∈ m.mapInfo) : φ n ∈ m'.untried ↔ n ∈ m.untried := by
  simp only [mem_untried, hr.mem hn, hn, hr.fInTried n hn]

theorem triedPlace_eq (hr : Renamed k φ m m') {n : Int} (hn : n ∈ m.mapInfo) :
    m'.triedPlace env (φ n) = m.triedPlace env n := by
  simp only [triedPlace, hr.toCService hn, hr.nKey]

theorem placeIn_eq (hr : Renamed k φ m m') {n : Int} (hn : n ∈ m.mapInfo) (bucket : Fin 1024) :
    m'.placeIn env (φ n) bucket = m.placeIn env n bucket := by
  simp only [placeIn, hr.toCService hn, hr.nKey]

theorem entryOk (hr : Renamed k φ m m') (h : Checked env m) {n : Int} (hn : n ∈ m.mapInfo) (live : Prop) :
    EntryOk live (m'.info (φ n)) := by
  have hfine := h.entry n hn
  refine ⟨?_, ?_, ?_, fun _ => ?_, by rw [hr.nLastTry n hn]; exact Int64.lt_irrefl, ?_⟩
  · rw [hr.fInTried n hn, hr.nRefCount n hn]
    exact hfine.tried_ref
  · rw [hr.fInTried n hn, hr.nLastSuccess n hn]
    exact hfine.success
  · rw [hr.nRefCount n hn]
    by_cases ht : (m.info n).fInTried = true
    · rw [hfine.tried_ref ht]
      omega
    · exact hfine.ref_le ht
  · rw [hr.fInTried n hn, hr.nRefCount n hn]
    intro ht
    exact (hfine.ref_pos (by simp [ht])).ne'
  · rw [hr.nLastSuccess n hn]
    exact hfine.lastSuccess

theorem whole (hr : Renamed k φ m m') (h : Checked env m) (hi : Indexed m') : Whole env m' := by
  have htriedMem : ∀ q, m.vvTried q ≠ -1 → m.vvTried q ∈ m.mapInfo := fun q hq =>
    ((mem_triedIds m).mp (h.vvTried_mem hq)).1
  have hnewMem : ∀ p, m.vvNew p ≠ -1 → m.vvNew p ∈ m.mapInfo := fun p hq => (h.mem_newIds.mp (h.vvNew_mem hq)).1
  have hneg : ∀ n ∈ m.mapInfo, n ≠ -1 := fun n hn he => h.noId (he ▸ hn)
  refine ⟨hi, fun hx => hi.ne_neg_one hx rfl, fun x hx => ?_, fun q hq => ?_, fun p hq => ?_, fun x hx => ?_,
    fun x hx => ?_, ?_, ?_, hr.nKey ▸ h.key⟩
  · obtain ⟨n, hn, rfl⟩ := hr.exists_eq hx
    exact hr.entryOk h hn _
  · have hne : m.vvTried q ≠ -1 := by
      intro he
      rw [hr.vvTried, if_pos he] at hq
      exact hq rfl
    rw [hr.vvTried, if_neg hne]
    have hn := htriedMem q hne
    refine ⟨hr.mem hn, ?_⟩
    rw [hr.triedPlace_eq hn]
    exact h.triedAt q hne
  · have hne : m.vvNew p ≠ -1 := by
      intro he
      rw [hr.vvNew, if_pos he] at hq
      exact hq rfl
    rw [hr.vvNew, if_neg hne]
    have hn := hnewMem p hne
    refine ⟨hr.mem hn, ?_⟩
    rw [hr.placeIn_eq hn]
    exact h.newAt p hne
  · obtain ⟨n, hn, rfl⟩ := hr.exists_eq hx
    have hplaces : ∀ q, m'.vvTried q = φ n ↔ m.vvTried q = n := fun q =>
      hr.place_iff hi h.noId hn (htriedMem q) (hr.vvTried q)
    rw [occurs_congr fun q _ => hplaces q, h.triedOnce n (hneg n hn), hr.fInTried n hn]
    simp only [mem_tried, hn, true_and]
  · obtain ⟨n, hn, rfl⟩ := hr.exists_eq hx
    have hplaces : ∀ p, m'.vvNew p = φ n ↔ m.vvNew p = n := fun p =>
      hr.place_iff hi h.noId hn (hnewMem p) (hr.vvNew p)
    rw [occurs_congr fun p _ => hplaces p, h.refs n (hneg n hn), hr.nRefCount n hn]
    cases ht : (m.info n).fInTried with
    | true => rw [if_neg (by simp [mem_untried, ht]), (h.entry n hn).tried_ref ht]
    | false => rw [if_pos ((mem_untried m n).mpr ⟨hn, ht⟩)]
  · rw [add_zero, hr.nNew, ← h.newCount, Nat.cast_inj]
    exact hr.card_eq (fun n hn => ((mem_untried m n).mp hn).1) (fun x hx => ((mem_untried m' x).mp hx).1)
      fun n hn => hr.mem_untried_iff hn
  · rw [add_zero, hr.nTried, ← h.triedCount, Nat.cast_inj]
    exact hr.card_eq (fun n hn => ((mem_tried m n).mp hn).1) (fun x hx => ((mem_tried m' x).mp hx).1)
      fun n hn => hr.mem_tried_iff hn

end Renamed

/-! ## The operations -/

section operations

variable {env : AddrEnv} {m : CAddrMan} {n : Int}

theorem Whole.modify (h : Whole env m) (hn : n ∈ m.mapInfo) (f : CAddrInfo → CAddrInfo)
    (hserv : (f (m.info n)).toCService = (m.info n).toCService) (hflag : (f (m.info n)).fInTried = (m.info n).fInTried)
    (href : (f (m.info n)).nRefCount = (m.info n).nRefCount) (hpos : (f (m.info n)).nRandomPos = (m.info n).nRandomPos)
    (hsuccess : (f (m.info n)).fInTried = true → (f (m.info n)).nLastSuccess ≠ 0)
    (hlastTry : ¬ (f (m.info n)).nLastTry < 0) (hlastSuccess : ¬ (f (m.info n)).nLastSuccess < 0) :
    Whole env (m.modify n f) := by
  have hold := h.tables.entry n hn
  refine ⟨h.index.modify hn f (by rw [hserv]) hpos, h.tables.rewrite hn f hserv hflag href
    ⟨?_, hsuccess, ?_, ?_, hlastTry, hlastSuccess⟩⟩
  · rw [hflag, href]
    exact hold.tried_ref
  · rw [href]
    exact hold.ref_le
  · rw [hflag, href]
    exact hold.live

theorem insertNew_spec {limbo : Int → Prop} (hi : Indexed m) (h : Placed env m limbo 0 0) (hn : n ∈ m.mapInfo)
    (hflag : (m.info n).fInTried = false) (hle : (m.info n).nRefCount < 8) (hlimbo : ∀ x, limbo x → x = n)
    (source : CNetAddr) (nNow : Int64) : ∃ m', m.insertNew env n source nNow = some m' ∧ Whole env m' := by
  unfold insertNew
  simp only
  have hplace : m.placeIn env n (m.newPlace env n source).1 = m.newPlace env n source := rfl
  generalize m.newPlace env n source = p at hplace
  by_cases hp : m.vvNew p = n
  · refine ⟨m, if_pos hp, hi, h.limbo_imp fun x hx hl _ hr => ?_⟩
    rw [hlimbo x hl] at hr
    exact h.vvNew_ne hn hr p hp
  rw [if_neg hp]
  by_cases hins : m.vvNew p = -1 ∨ (m.info (m.vvNew p)).isTerrible nNow = true ∨
      (1 < (m.info (m.vvNew p)).nRefCount ∧ (m.info n).nRefCount = 0)
  · obtain ⟨m1, hclear, hi1, h1, hvv, hkept⟩ := clearNew_spec hi h p
    have hne : n ≠ m.vvNew p := Ne.symm hp
    have hn1 : n ∈ m1.mapInfo := (hkept.mem n hne).mpr hn
    have hsame : SameEntry (m.info n) (m1.info n) := hkept.info n hne
    have hfree : m1.vvNew p = -1 := by rw [hvv, Function.update_self]
    have hat : m1.placeIn env n p.1 = p := (placeIn_congr (by rw [hsame]) hkept.nKey p.1).trans hplace
    rw [if_pos hins, hclear]
    exact ⟨_, rfl, (hi1.modify hn1 _ rfl rfl).setNew p n, h1.enter hn1 (by rw [hsame, hflag]) hfree hat
      (by rw [hsame]; exact hle) fun x hx hl => hx (hlimbo x hl)⟩
  rw [if_neg hins]
  by_cases hzero : (m.info n).nRefCount = 0
  · obtain ⟨m', hdelete, hi', h', -, hgone, -⟩ := delete_spec hi h hn hflag hzero
    rw [if_pos hzero]
    refine ⟨m', hdelete, hi', h'.limbo_imp fun x hx hl _ _ => hgone ?_⟩
    rwa [← hlimbo x hl]
  · refine ⟨m, if_neg hzero, hi, h.limbo_imp fun x hx hl _ hr => hzero ?_⟩
    rwa [← hlimbo x hl]

theorem add_spec (h : Whole env m) (hid : m.nIdCount < 2 ^ 31 - 1) (addr : CAddress) (source : CNetAddr)
    (nTimePenalty nNow nNow' : Int64) (nRandom : Nat) :
    ∃ m' fNew, m.add env addr source nTimePenalty nNow nNow' nRandom = some (m', fNew) ∧ Whole env m' := by
  unfold add
  by_cases hroute : (!addr.isRoutable) = true
  · exact ⟨m, false, if_pos hroute, h⟩
  rw [if_neg hroute]
  cases hfind : m.find addr.toCNetAddr with
  | some n =>
    obtain ⟨hn, -⟩ := h.index.find_eq_some.mp hfind
    have hold := h.tables.entry n hn
    have h1 : Whole env (m.refresh n addr nTimePenalty nNow) :=
      h.modify hn _ rfl rfl rfl rfl hold.tried_success hold.lastTry hold.lastSuccess
    have hn1 : n ∈ (m.refresh n addr nTimePenalty nNow).mapInfo := (mem_modify m _ hn n).mpr hn
    simp only
    generalize m.refresh n addr nTimePenalty nNow = m1 at h1 hn1
    by_cases htime : addr.nTime = 0 ∨ ((m1.info n).nTime ≠ 0 ∧ addr.nTime ≤ (m1.info n).nTime)
    · exact ⟨m1, false, if_pos htime, h1⟩
    by_cases hflag : (m1.info n).fInTried = true
    · exact ⟨m1, false, by rw [if_neg htime, if_pos hflag], h1⟩
    by_cases hfull : (m1.info n).nRefCount = 8
    · exact ⟨m1, false, by rw [if_neg htime, if_neg hflag, if_pos hfull], h1⟩
    by_cases hskip : 1 < 2 ^ (m1.info n).nRefCount.toNat ∧ nRandom % 2 ^ (m1.info n).nRefCount.toNat ≠ 0
    · exact ⟨m1, false, by rw [if_neg htime, if_neg hflag, if_neg hfull, if_pos hskip], h1⟩
    have hle := (h1.tables.entry n hn1).ref_le
    obtain ⟨m', hinsert, hwhole⟩ := insertNew_spec h1.index h1.tables hn1 (by simpa using hflag) (by omega)
      (fun x hx => hx.elim) source nNow'
    exact ⟨m', false, by rw [if_neg htime, if_neg hflag, if_neg hfull, if_neg hskip, hinsert]; rfl, hwhole⟩
  | none =>
    have hnone := h.index.find_eq_none.mp hfind
    have hi1 := h.index.create source hnone hid
    have h1 := h.tables.create h.index addr source
    have hn1 : m.nIdCount ∈ (m.create addr source).mapInfo := Finmap.mem_insert.mpr (.inl rfl)
    have hinfo1 := info_create_self m addr source
    simp only
    generalize m.create addr source = m1 at hi1 h1 hn1 hinfo1
    have htimeOnly : ∃ f : CAddrInfo → CAddrInfo, (∀ i, f i = { i with nTime := (f i).nTime }) ∧ f = fun i =>
        { i with nTime := UInt32.ofNat ((i.nTime.toNat : Int) - nTimePenalty.toInt).toNat } := ⟨_, fun _ => rfl, rfl⟩
    obtain ⟨f, hf, hdef⟩ := htimeOnly
    rw [← hdef]
    have hentry : EntryOk (¬ (m.nIdCount = m.nIdCount ∨ False)) (f (m1.info m.nIdCount)) := by
      obtain ⟨h1, h2, h3, h4, h5, h6⟩ := h1.entry _ hn1
      rw [hf]
      exact ⟨h1, h2, h3, h4, h5, h6⟩
    have hi2 := (hi1.modify hn1 f (by rw [hf]) (by rw [hf])).addNew 1
    have h2 := (h1.rewrite hn1 f (by rw [hf]) (by rw [hf]) (by rw [hf]) hentry).addNew 1
    have hinfo2 : ((m1.modify m.nIdCount f).addNew 1).info m.nIdCount = f (m1.info m.nIdCount) := by
      rw [info_addNew, info_modify_self]
    rw [add_sub_cancel_right] at h2
    obtain ⟨m', hinsert, hwhole⟩ := insertNew_spec hi2 h2 ((mem_modify m1 f hn1 _).mpr hn1)
      (by rw [hinfo2, hf, hinfo1]; rfl) (by rw [hinfo2, hf, hinfo1]; simp [CAddrInfo.new])
      (fun x hx => hx.resolve_right id) source nNow'
    exact ⟨m', true, by rw [hinsert]; rfl, hwhole⟩

theorem good_spec (h : Whole env m) (addr : CService) {nTime : Int64} (htime : 0 < nTime) (nRnd : Nat) :
    ∃ m', m.good env addr nTime nRnd = some m' ∧ Whole env m' := by
  have hne : nTime ≠ 0 := by
    rintro rfl
    exact Int64.lt_irrefl htime
  have hnonneg : ¬ nTime < 0 := Int64.lt_asymm htime
  have h1 : Whole env { m with nLastGood := nTime } := by
    obtain ⟨hi, hp⟩ := h
    exact ⟨hi.of_index rfl rfl rfl rfl, hp.noId, hp.entry, hp.triedAt, hp.newAt, hp.triedOnce, hp.refs, hp.newCount,
      hp.triedCount, hp.key⟩
  unfold good
  simp only
  generalize ({ m with nLastGood := nTime } : CAddrMan) = m1 at h1
  cases hfind : m1.find addr.toCNetAddr with
  | none => exact ⟨m1, rfl, h1⟩
  | some n =>
    obtain ⟨hn, -⟩ := h1.index.find_eq_some.mp hfind
    simp only
    by_cases hserv : (m1.info n).toCService ≠ addr
    · exact ⟨m1, if_pos hserv, h1⟩
    rw [if_neg hserv]
    have h2 : Whole env (m1.modify n fun i => { i with nLastSuccess := nTime, nLastTry := nTime, nAttempts := 0 }) :=
      h1.modify hn _ rfl rfl rfl rfl (fun _ => hne) hnonneg hnonneg
    have hn2 := (mem_modify m1 (fun i => { i with nLastSuccess := nTime, nLastTry := nTime, nAttempts := 0 }) hn n).mpr hn
    have hsuccess := congrArg CAddrInfo.nLastSuccess
      (info_modify_self m1 n fun i => { i with nLastSuccess := nTime, nLastTry := nTime, nAttempts := 0 })
    generalize (m1.modify n fun i => { i with nLastSuccess := nTime, nLastTry := nTime, nAttempts := 0 }) = m2
      at h2 hn2 hsuccess
    by_cases hflag : (m2.info n).fInTried = true
    · exact ⟨m2, if_pos hflag, h2⟩
    rw [if_neg hflag]
    split
    · obtain ⟨m', hmake, hi', h'⟩ := makeTried_spec h2.index h2.tables hn2 (by simpa using hflag)
        (by rw [hsuccess]; exact hne)
      exact ⟨m', hmake, hi', h'⟩
    · exact ⟨m2, rfl, h2⟩

theorem attempt_spec (h : Whole env m) (addr : CService) (fCountFailure : Bool) {nTime : Int64} (htime : 0 < nTime) :
    Whole env (m.attempt addr fCountFailure nTime) := by
  have hnonneg : ¬ nTime < 0 := Int64.lt_asymm htime
  unfold attempt
  cases hfind : m.find addr.toCNetAddr with
  | none => exact h
  | some n =>
    obtain ⟨hn, -⟩ := h.index.find_eq_some.mp hfind
    have hold := h.tables.entry n hn
    simp only
    split
    · exact h
    · apply h.modify hn <;> split
      all_goals first
        | rfl
        | exact hold.tried_success
        | exact hnonneg
        | exact hold.lastSuccess

theorem connected_spec (h : Whole env m) (addr : CService) (nTime : Int64) : Whole env (m.connected addr nTime) := by
  unfold connected
  cases hfind : m.find addr.toCNetAddr with
  | none => exact h
  | some n =>
    obtain ⟨hn, -⟩ := h.index.find_eq_some.mp hfind
    have hold := h.tables.entry n hn
    simp only
    split
    · exact h
    · apply h.modify hn <;> split
      all_goals first
        | rfl
        | exact hold.tried_success
        | exact hold.lastTry
        | exact hold.lastSuccess

theorem whole_clear (r : Uint256) (hr : r ≠ 0) (hinfo : m.mapInfo = ∅) (haddr : m.mapAddr = ∅) :
    Whole env (m.clear r) := by
  have hmem : ∀ n, n ∉ (m.clear r).mapInfo := fun n hn => by
    have hn : n ∈ m.mapInfo := hn
    rw [hinfo] at hn
    exact Finmap.notMem_empty hn
  have htried : (m.clear r).tried = ∅ := Finset.eq_empty_of_forall_notMem fun n hn => hmem n ((mem_tried _ n).mp hn).1
  have huntried : (m.clear r).untried = ∅ :=
    Finset.eq_empty_of_forall_notMem fun n hn => hmem n ((mem_untried _ n).mp hn).1
  refine ⟨⟨le_rfl, fun n hn => absurd hn (hmem n), fun n hn => absurd hn (hmem n), fun a n hn => ?_,
    fun n hn => absurd hn (hmem n), fun i n hn => by simp [clear] at hn⟩, hmem _, fun n hn => absurd hn (hmem n),
    fun q hq => absurd rfl hq, fun p hp => absurd rfl hp, fun n hn => absurd hn (hmem n), fun n hn => absurd hn (hmem n),
    by rw [huntried]; rfl, by rw [htried]; rfl, hr⟩
  have hn : m.mapAddr.lookup a = some n := hn
  rw [haddr, Finmap.lookup_empty] at hn
  cases hn

theorem Indexed.mapAddr_eq_empty (h : Indexed m) (hinfo : m.mapInfo = ∅) : m.mapAddr = ∅ := by
  refine Finmap.ext_lookup fun a => ?_
  rw [Finmap.lookup_empty, Option.eq_none_iff_forall_ne_some]
  intro n hn
  have hn := (h.back a n hn).1
  rw [hinfo] at hn
  exact Finmap.notMem_empty hn

theorem clear_checked_iff (h : Indexed m) (r : Uint256) : Checked env (m.clear r) ↔ m.mapInfo = ∅ ∧ r ≠ 0 := by
  constructor
  · intro hc
    refine ⟨?_, hc.key⟩
    refine Finmap.ext_lookup fun n => ?_
    rw [Finmap.lookup_empty, Finmap.lookup_eq_none]
    intro hn
    have hfine := hc.entry n hn
    have hlt : ((m.clear r).info n).nRandomPos < 0 := hfine.pos_lt
    exact absurd hfine.pos_nonneg (Int.not_le.mpr hlt)
  · rintro ⟨hinfo, hr⟩
    exact (whole_clear r hr hinfo (h.mapAddr_eq_empty hinfo)).checked

end operations

end CAddrMan

end DigiWage.Net
