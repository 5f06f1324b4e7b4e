import DigiWage.Net.AddrInv

/-!
# Entries of the address manager on the move

What each change of the tables does to the invariant: an entry enters a place of the "new" table or leaves it, is moved to
"tried" or back, is created or deleted; and from these what `ClearNew`, `Delete` and `MakeTried` do.
-/

namespace DigiWage.Net

open Lib

namespace CAddrMan

section simps

variable (m : CAddrMan) (n k b : Int) (p : NewPlace) (q : TriedPlace)

@[simp] theorem info_setNew : (m.setNew p b).info n = m.info n := rfl
@[simp] theorem info_setTried : (m.setTried q b).info n = m.info n := rfl
@[simp] theorem info_addNew : (m.addNew k).info n = m.info n := rfl
@[simp] theorem info_addTried : (m.addTried k).info n = m.info n := rfl
@[simp] theorem mapInfo_setNew : (m.setNew p b).mapInfo = m.mapInfo := rfl
@[simp] theorem mapInfo_setTried : (m.setTried q b).mapInfo = m.mapInfo := rfl
@[simp] theorem mapInfo_addNew : (m.addNew k).mapInfo = m.mapInfo := rfl
@[simp] theorem mapInfo_addTried : (m.addTried k).mapInfo = m.mapInfo := rfl

theorem modify_congr {f g : CAddrInfo → CAddrInfo} (h : f (m.info n) = g (m.info n)) : m.modify n f = m.modify n g := by
  rw [modify, modify, h]

end simps

theorem Indexed.of_index {m m' : CAddrMan} (h : Indexed m) (hid : m'.nIdCount = m.nIdCount) (hinfo : m'.mapInfo = m.mapInfo)
    (haddr : m'.mapAddr = m.mapAddr) (hrandom : m'.vRandom = m.vRandom) : Indexed m' :=
  h.congr hid (fun x => by rw [hinfo]) (fun x _ => by simp only [info, hinfo, and_self]) haddr hrandom

theorem Indexed.setNew {m : CAddrMan} (h : Indexed m) (p : NewPlace) (b : Int) : Indexed (m.setNew p b) :=
  h.of_index rfl rfl rfl rfl

theorem Indexed.setTried {m : CAddrMan} (h : Indexed m) (q : TriedPlace) (b : Int) : Indexed (m.setTried q b) :=
  h.of_index rfl rfl rfl rfl

theorem Indexed.addNew {m : CAddrMan} (h : Indexed m) (k : Int) : Indexed (m.addNew k) := h.of_index rfl rfl rfl rfl

theorem Indexed.addTried {m : CAddrMan} (h : Indexed m) (k : Int) : Indexed (m.addTried k) := h.of_index rfl rfl rfl rfl

namespace Placed

variable {env : AddrEnv} {m : CAddrMan} {limbo limbo' : Int → Prop} {dNew dTried : Int} {n : Int}

theorem addNew (h : Placed env m limbo dNew dTried) (k : Int) : Placed env (m.addNew k) limbo (dNew - k) dTried :=
  { noId := h.noId, entry := h.entry, triedAt := h.triedAt, newAt := h.newAt, triedOnce := h.triedOnce, refs := h.refs,
    newCount := h.newCount.trans (by simp only [CAddrMan.addNew]; omega), triedCount := h.triedCount, key := h.key }

theorem new_of_vvNew (h : Placed env m limbo dNew dTried) {p : NewPlace} (hp : m.vvNew p = n) (hn : n ≠ -1) :
    n ∈ m.mapInfo ∧ 0 < (m.info n).nRefCount ∧ (m.info n).fInTried = false := by
  have hmem : n ∈ m.mapInfo := hp ▸ (h.newAt p (hp ▸ hn)).1
  have hpos : 0 < occurs newPlaces m.vvNew n := occurs_pos.mpr ⟨p, mem_newPlaces p, hp⟩
  have hrefs := h.refs n hmem
  refine ⟨hmem, by omega, ?_⟩
  by_contra ht
  have := (h.entry n hmem).tried_ref (by simpa using ht)
  omega

theorem vvNew_ne (h : Placed env m limbo dNew dTried) (hn : n ∈ m.mapInfo) (href : (m.info n).nRefCount = 0)
    (p : NewPlace) : m.vvNew p ≠ n := by
  have hrefs := h.refs n hn
  exact occurs_eq_zero.mp (by omega) p (mem_newPlaces p)

theorem tried_of_vvTried (h : Placed env m limbo dNew dTried) {q : TriedPlace} (hq : m.vvTried q = n) (hn : n ≠ -1) :
    n ∈ m.mapInfo ∧ (m.info n).fInTried = true ∧ m.triedPlace env n = q := by
  obtain ⟨hmem, hplace⟩ := h.triedAt q (hq ▸ hn)
  rw [hq] at hmem hplace
  refine ⟨hmem, ?_, hplace⟩
  have hpos : 0 < occurs triedPlaces m.vvTried n := occurs_pos.mpr ⟨q, mem_triedPlaces q, hq⟩
  by_contra ht
  have := h.triedOnce n hmem
  rw [if_neg ht] at this
  omega

theorem vvTried_ne (h : Placed env m limbo dNew dTried) (hn : n ∈ m.mapInfo) (hflag : (m.info n).fInTried = false)
    (q : TriedPlace) : m.vvTried q ≠ n := by
  have hocc := h.triedOnce n hn
  rw [hflag] at hocc
  exact occurs_eq_zero.mp (by simpa using hocc) q (mem_triedPlaces q)

theorem ne_neg_one (h : Placed env m limbo dNew dTried) (hn : n ∈ m.mapInfo) : n ≠ -1 := fun he => h.noId (he ▸ hn)

theorem setNew (h : Placed env m limbo dNew dTried) (hn : n ∈ m.mapInfo) (f : CAddrInfo → CAddrInfo) {p : NewPlace} {b : Int}
    (hserv : (f (m.info n)).toCService = (m.info n).toCService) (hflag : (f (m.info n)).fInTried = (m.info n).fInTried)
    (hold : m.vvNew p = n ∨ m.vvNew p = -1) (hb : b = -1 ∨ b = n ∧ m.placeIn env n p.1 = p)
    (href : (f (m.info n)).nRefCount + (if m.vvNew p = n then 1 else 0) = (m.info n).nRefCount + if b = n then 1 else 0)
    (hentry : EntryOk (¬ limbo' n) (f (m.info n))) (hlimbo : ∀ x, x ≠ n → limbo x → limbo' x) :
    Placed env ((m.modify n f).setNew p b) limbo' dNew dTried := by
  have hother : ∀ x, x ≠ n → ((m.modify n f).setNew p b).info x = m.info x := fun x hx => info_modify_of_ne m n f hx
  have hself : ((m.modify n f).setNew p b).info n = f (m.info n) := info_modify_self m n f
  have hflags : ∀ x ∈ m.mapInfo, (((m.modify n f).setNew p b).info x).fInTried = (m.info x).fInTried := fun x _ => by
    by_cases hx : x = n
    · rw [hx, hself, hflag]
    · rw [hother x hx]
  have hocc : ∀ x, occurs newPlaces ((m.modify n f).setNew p b).vvNew x + (if m.vvNew p = x then 1 else 0) =
      occurs newPlaces m.vvNew x + if b = x then 1 else 0 := occurs_update nodup_newPlaces (mem_newPlaces p) m.vvNew b
  have hmem : ∀ x, x ∈ ((m.modify n f).setNew p b).mapInfo ↔ x ∈ m.mapInfo := mem_modify m f hn
  have hnn : n ≠ -1 := h.ne_neg_one hn
  refine h.move hmem hn hother (by rw [hself, hserv]) rfl hlimbo (by rwa [hself]) (fun _ => .inl rfl) (fun q => ?_)
    (fun _ _ _ => rfl) ?_ (fun x hx hxn => ?_) ?_ ?_ ?_
  · by_cases hq : q = p
    · subst hq
      have he : ((m.modify n f).setNew q b).vvNew q = b := Function.update_self _ _ _
      rw [he]
      exact .inr hb
    · exact .inl (Function.update_of_ne hq _ _)
  · rw [hself, hflag]
    exact h.triedOnce n hn
  · have hx1 : x ≠ -1 := h.ne_neg_one hx
    have := hocc x
    rw [if_neg, if_neg] at this
    · omega
    · rcases hb with rfl | ⟨rfl, -⟩
      · exact hx1.symm
      · exact hxn.symm
    · rcases hold with he | he
      · rw [he]
        exact hxn.symm
      · rw [he]
        exact hx1.symm
  · have hcount := hocc n
    have := h.refs n hn
    rw [hself]
    split_ifs at hcount href <;> omega
  · rw [untried_congr hmem hflags]
    exact h.newCount
  · rw [tried_congr hmem hflags]
    exact h.triedCount

theorem enter (h : Placed env m limbo dNew dTried) (hn : n ∈ m.mapInfo) (hflag : (m.info n).fInTried = false)
    {p : NewPlace} (hfree : m.vvNew p = -1) (hp : m.placeIn env n p.1 = p) (hle : (m.info n).nRefCount < 8)
    (hlimbo : ∀ x, x ≠ n → limbo x → limbo' x) :
    Placed env ((m.modify n fun i => { i with nRefCount := i.nRefCount + 1 }).setNew p n) limbo' dNew dTried := by
  have hold := h.entry n hn
  have hrefs := h.refs n hn
  refine h.setNew hn _ rfl rfl (.inr hfree) (.inr ⟨rfl, hp⟩) ?_ ?_ hlimbo
  · rw [hfree, if_neg (h.ne_neg_one hn).symm, if_pos rfl, add_zero]
  · exact ⟨fun ht => absurd ht (by simp [hflag]), fun ht => absurd ht (by simp [hflag]), by simp only; omega,
      fun _ _ => by simp only; omega, hold.lastTry, hold.lastSuccess⟩

theorem leave (h : Placed env m limbo dNew dTried) {p : NewPlace} (hp : m.vvNew p = n) (hn : n ≠ -1)
    (hlimbo : ∀ x, x ≠ n → limbo x → limbo' x) (hlast : (m.info n).nRefCount = 1 → limbo' n) :
    Placed env ((m.modify n fun i => { i with nRefCount := i.nRefCount - 1 }).setNew p (-1)) limbo' dNew dTried := by
  obtain ⟨hmem, hpos, hflag⟩ := h.new_of_vvNew hp hn
  have hold := h.entry n hmem
  refine h.setNew hmem _ rfl rfl (.inl hp) (.inl rfl) ?_ ?_ hlimbo
  · rw [if_pos hp, if_neg hn.symm]
    simp
  · refine ⟨fun ht => absurd ht (by simp [hflag]), fun ht => absurd ht (by simp [hflag]), ?_, fun hl _ he => ?_,
      hold.lastTry, hold.lastSuccess⟩
    · have := hold.ref_le
      simp only
      omega
    · exact hl (hlast (by simp only at he; omega))

theorem retire (h : Placed env m limbo dNew dTried) {q : TriedPlace} (hq : m.vvTried q = n) (hn : n ≠ -1)
    (hlimbo : ∀ x, x ≠ n → limbo x → limbo' x) (hl : limbo' n) :
    Placed env (((m.modify n fun i => { i with fInTried := false }).setTried q (-1)).addTried (-1)) limbo' (dNew + 1)
      dTried := by
  obtain ⟨hmem, hflag, -⟩ := h.tried_of_vvTried hq hn
  generalize hm' : ((m.modify n fun i => { i with fInTried := false }).setTried q (-1)).addTried (-1) = m'
  have hother : ∀ x, x ≠ n → m'.info x = m.info x := fun x hx => by
    rw [← hm', info_addTried, info_setTried, info_modify_of_ne _ _ _ hx]
  have hself : m'.info n = { m.info n with fInTried := false } := by
    rw [← hm', info_addTried, info_setTried, info_modify_self]
  have hmem' : ∀ x, x ∈ m'.mapInfo ↔ x ∈ m.mapInfo := fun x => by
    rw [← hm', mapInfo_addTried, mapInfo_setTried, mem_modify m _ hmem]
  have hvv : m'.vvTried = Function.update m.vvTried q (-1) := by
    rw [← hm']
    rfl
  have hocc : ∀ x, occurs triedPlaces m'.vvTried x + (if m.vvTried q = x then 1 else 0) =
      occurs triedPlaces m.vvTried x + if -1 = x then 1 else 0 := by
    rw [hvv]
    exact occurs_update nodup_triedPlaces (mem_triedPlaces q) m.vvTried (-1)
  have hfalse : (m'.info n).fInTried = false := by rw [hself]
  have hold := h.entry n hmem
  refine h.move hmem' hmem hother (by rw [hself]) (by rw [← hm']; rfl) hlimbo ?_ (fun r => ?_)
    (fun _ => .inl (by rw [← hm']; rfl)) (fun x hx hxn => ?_) ?_ (fun _ _ _ => by rw [← hm']; rfl) ?_ ?_ ?_
  · rw [hself]
    exact ⟨by simp, by simp, hold.ref_le, fun hl' => absurd hl hl', hold.lastTry, hold.lastSuccess⟩
  · rw [hvv]
    by_cases hr : r = q
    · exact .inr (.inl (by rw [hr, Function.update_self]))
    · exact .inl (Function.update_of_ne hr _ _)
  · have := hocc x
    rw [hq, if_neg hxn.symm, if_neg (h.ne_neg_one hx).symm] at this
    omega
  · have := hocc n
    have hone := h.triedOnce n hmem
    rw [if_pos hflag] at hone
    rw [hq, if_pos rfl, if_neg hn.symm] at this
    rw [hfalse]
    simp only [Bool.false_eq_true, if_false]
    omega
  · rw [hself, ← hm']
    exact h.refs n hmem
  · rw [untried_of_false hmem' hmem hother hfalse, Finset.card_insert_of_notMem, ← hm']
    · have := h.newCount
      show ((m.untried.card + 1 : Nat) : Int) = m.nNew + (dNew + 1)
      push_cast
      omega
    · rw [mem_untried, hflag]
      simp
  · have hin : n ∈ m.tried := (mem_tried m n).mpr ⟨hmem, hflag⟩
    have hpos : 0 < m.tried.card := Finset.card_pos.mpr ⟨n, hin⟩
    rw [tried_of_false hmem' hmem hother hfalse, Finset.card_erase_of_mem hin, ← hm']
    have := h.triedCount
    show ((m.tried.card - 1 : Nat) : Int) = m.nTried + -1 + dTried
    omega

theorem promote (h : Placed env m limbo dNew dTried) (hmem : n ∈ m.mapInfo) (hflag : (m.info n).fInTried = false)
    (href : (m.info n).nRefCount = 0) (hsuccess : (m.info n).nLastSuccess ≠ 0) {q : TriedPlace} (hq : m.vvTried q = -1)
    (hp : m.triedPlace env n = q) (hlimbo : ∀ x, x ≠ n → limbo x → limbo' x) :
    Placed env (((m.setTried q n).addTried 1).modify n fun i => { i with fInTried := true }) limbo' (dNew - 1) dTried := by
  have hn : n ≠ -1 := h.ne_neg_one hmem
  generalize hm' : (((m.setTried q n).addTried 1).modify n fun i => { i with fInTried := true }) = m'
  have hother : ∀ x, x ≠ n → m'.info x = m.info x := fun x hx => by
    rw [← hm', info_modify_of_ne _ _ _ hx, info_addTried, info_setTried]
  have hself : m'.info n = { m.info n with fInTried := true } := by
    rw [← hm', info_modify_self, info_addTried, info_setTried]
  have hmem' : ∀ x, x ∈ m'.mapInfo ↔ x ∈ m.mapInfo := fun x => by
    rw [← hm', mem_modify _ _ (by simpa using hmem), mapInfo_addTried, mapInfo_setTried]
  have hvv : m'.vvTried = Function.update m.vvTried q n := by
    rw [← hm']
    rfl
  have hocc : ∀ x, occurs triedPlaces m'.vvTried x + (if m.vvTried q = x then 1 else 0) =
      occurs triedPlaces m.vvTried x + if n = x then 1 else 0 := by
    rw [hvv]
    exact occurs_update nodup_triedPlaces (mem_triedPlaces q) m.vvTried n
  have htrue : (m'.info n).fInTried = true := by rw [hself]
  have hold := h.entry n hmem
  refine h.move hmem' hmem hother (by rw [hself]) (by rw [← hm']; rfl) hlimbo ?_ (fun r => ?_)
    (fun _ => .inl (by rw [← hm']; rfl)) (fun x hx hxn => ?_) ?_ (fun _ _ _ => by rw [← hm']; rfl) ?_ ?_ ?_
  · rw [hself]
    exact ⟨fun _ => href, fun _ => hsuccess, hold.ref_le, by simp, hold.lastTry, hold.lastSuccess⟩
  · rw [hvv]
    by_cases hr : r = q
    · exact .inr (.inr ⟨by rw [hr, Function.update_self], by rw [hr, hp]⟩)
    · exact .inl (Function.update_of_ne hr _ _)
  · have := hocc x
    rw [hq, if_neg hxn.symm, if_neg (h.ne_neg_one hx).symm] at this
    omega
  · have := hocc n
    have hzero := h.triedOnce n hmem
    rw [hflag] at hzero
    simp only [Bool.false_eq_true, if_false] at hzero
    rw [hq, if_pos rfl, if_neg hn.symm] at this
    rw [if_pos htrue]
    omega
  · rw [hself, ← hm']
    exact h.refs n hmem
  · have hin : n ∈ m.untried := (mem_untried m n).mpr ⟨hmem, hflag⟩
    have hpos : 0 < m.untried.card := Finset.card_pos.mpr ⟨n, hin⟩
    rw [untried_of_true hmem' hmem hother htrue, Finset.card_erase_of_mem hin, ← hm']
    have := h.newCount
    show ((m.untried.card - 1 : Nat) : Int) = m.nNew + (dNew - 1)
    omega
  · rw [tried_of_true hmem' hmem hother htrue, Finset.card_insert_of_notMem, ← hm']
    · have := h.triedCount
      show ((m.tried.card + 1 : Nat) : Int) = m.nTried + 1 + dTried
      push_cast
      omega
    · rw [mem_tried, hflag]
      simp

theorem erase {m' : CAddrMan} (h : Placed env m limbo dNew dTried) (hn : n ∈ m.mapInfo)
    (hflag : (m.info n).fInTried = false) (href : (m.info n).nRefCount = 0) (hinfo : m'.mapInfo = m.mapInfo.erase n)
    (hnew : m'.nNew = m.nNew - 1) (htried : m'.nTried = m.nTried) (hvvNew : m'.vvNew = m.vvNew)
    (hvvTried : m'.vvTried = m.vvTried) (hkey : m'.nKey = m.nKey) : Placed env m' limbo dNew dTried := by
  have hmem : ∀ x, x ∈ m'.mapInfo ↔ x ≠ n ∧ x ∈ m.mapInfo := fun x => by rw [hinfo, Finmap.mem_erase]
  have hget : ∀ x, x ≠ n → m'.info x = m.info x := fun x hx => by simp [info, hinfo, Finmap.lookup_erase_ne hx]
  have huntried : m'.untried = m.untried.erase n := by
    ext x
    rw [mem_untried, Finset.mem_erase, mem_untried, hmem, and_assoc]
    exact and_congr_right fun hx => by rw [hget x hx]
  have htried' : m'.tried = m.tried := by
    ext x
    rw [mem_tried, mem_tried, hmem]
    by_cases hx : x = n
    · simp [hx, hflag]
    · simp [hx, hget x hx]
  refine ⟨fun hx => h.noId ((hmem _).mp hx).2, fun x hx => ?_, fun p hp => ?_, fun p hp => ?_, fun x hx => ?_,
    fun x hx => ?_, ?_, ?_, hkey ▸ h.key⟩
  · obtain ⟨hne, hx⟩ := (hmem x).mp hx
    rw [hget x hne]
    exact h.entry x hx
  · rw [hvvTried] at hp ⊢
    have hne := h.vvTried_ne hn hflag p
    rw [triedPlace_congr (by rw [hget _ hne]) hkey, hmem]
    exact ⟨⟨hne, (h.triedAt p hp).1⟩, (h.triedAt p hp).2⟩
  · rw [hvvNew] at hp ⊢
    have hne := h.vvNew_ne hn href p
    rw [placeIn_congr (by rw [hget _ hne]) hkey, hmem]
    exact ⟨⟨hne, (h.newAt p hp).1⟩, (h.newAt p hp).2⟩
  · obtain ⟨hne, hx⟩ := (hmem x).mp hx
    rw [hget x hne, hvvTried]
    exact h.triedOnce x hx
  · obtain ⟨hne, hx⟩ := (hmem x).mp hx
    rw [hget x hne, hvvNew]
    exact h.refs x hx
  · have hin : n ∈ m.untried := (mem_untried m n).mpr ⟨hn, hflag⟩
    have hpos : 0 < m.untried.card := Finset.card_pos.mpr ⟨n, hin⟩
    have := h.newCount
    rw [huntried, Finset.card_erase_of_mem hin, hnew]
    omega
  · rw [htried', htried]
    exact h.triedCount

theorem entryOk_new (addr : CAddress) (source : CNetAddr) (pos : Int) {live : Prop} (hl : ¬ live) :
    EntryOk live { CAddrInfo.new addr source with nRandomPos := pos } where
  tried_ref _ := rfl
  tried_success := by simp [CAddrInfo.new]
  ref_le := by simp [CAddrInfo.new]
  live h := absurd h hl
  lastTry := Int64.lt_irrefl
  lastSuccess := Int64.lt_irrefl

theorem create (h : Placed env m limbo dNew dTried) (hi : Indexed m) (addr : CAddress) (source : CNetAddr) :
    Placed env (m.create addr source) (fun x => x = m.nIdCount ∨ limbo x) (dNew + 1) dTried := by
  have hfresh := hi.idCount_notMem
  have hid := hi.idCount
  have hself := info_create_self m addr source
  have hother : ∀ x ∈ m.mapInfo, (m.create addr source).info x = m.info x := fun x hx =>
    info_create_of_ne m addr source fun he => hfresh (he ▸ hx)
  have hmem := mem_create m addr source
  refine ⟨fun hx => ?_, fun x hx => ?_, fun p hp => ?_, fun p hp => ?_, fun x hx => ?_, fun x hx => ?_, ?_, ?_,
    h.key⟩
  · rcases (hmem _).mp hx with hx | hx
    · omega
    · exact h.noId hx
  · rcases (hmem x).mp hx with rfl | hx
    · rw [hself]
      exact entryOk_new addr source _ (by simp)
    · rw [hother x hx]
      have hx' := h.entry x hx
      exact { hx' with live := fun hl => hx'.live fun hlx => hl (.inr hlx) }
  · rw [create_vvTried] at hp ⊢
    obtain ⟨hx, hpl⟩ := h.triedAt p hp
    rw [triedPlace_congr (by rw [hother _ hx]) (create_nKey m addr source), hmem]
    exact ⟨.inr hx, hpl⟩
  · rw [create_vvNew] at hp ⊢
    obtain ⟨hx, hpl⟩ := h.newAt p hp
    rw [placeIn_congr (by rw [hother _ hx]) (create_nKey m addr source), hmem]
    exact ⟨.inr hx, hpl⟩
  · rw [create_vvTried]
    rcases (hmem x).mp hx with rfl | hx
    · rw [hself]
      simp only [CAddrInfo.new, Bool.false_eq_true, if_false]
      rw [occurs_eq_zero]
      intro p _ hp
      exact hfresh (hp ▸ (h.triedAt p (by omega)).1)
    · rw [hother x hx]
      exact h.triedOnce x hx
  · rw [create_vvNew]
    rcases (hmem x).mp hx with rfl | hx
    · rw [hself]
      simp only [CAddrInfo.new, Int.natCast_eq_zero]
      rw [occurs_eq_zero]
      intro p _ hp
      exact hfresh (hp ▸ (h.newAt p (by omega)).1)
    · rw [hother x hx]
      exact h.refs x hx
  · rw [untried_create, Finset.card_insert_of_notMem]
    · have := h.newCount
      rw [create_nNew]
      push_cast
      omega
    · rw [mem_untried]
      exact fun hx => hfresh hx.1
  · rw [tried_create hi, create_nTried]
    exact h.triedCount

end Placed

/-! ## Delete and ClearNew -/

/-- What a change that concerns the entry `n` leaves of the others. -/
structure Kept (m m' : CAddrMan) (n : Int) : Prop where
  mem : ∀ x, x ≠ n → (x ∈ m'.mapInfo ↔ x ∈ m.mapInfo)
  info : ∀ x, x ≠ n → SameEntry (m.info x) (m'.info x)
  nKey : m'.nKey = m.nKey
  vvTried : m'.vvTried = m.vvTried
  nIdCount : m'.nIdCount = m.nIdCount

theorem SameEntry.trans {a b c : CAddrInfo} (h : SameEntry a b) (h' : SameEntry b c) : SameEntry a c := by
  unfold SameEntry at h h' ⊢
  rw [h', h]

theorem Kept.refl (m : CAddrMan) (n : Int) : Kept m m n := ⟨fun _ _ => Iff.rfl, fun _ _ => rfl, rfl, rfl, rfl⟩

theorem Kept.trans {m m' m'' : CAddrMan} {n : Int} (h : Kept m m' n) (h' : Kept m' m'' n) : Kept m m'' n where
  mem x hx := (h'.mem x hx).trans (h.mem x hx)
  info x hx := (h.info x hx).trans (h'.info x hx)
  nKey := h'.nKey.trans h.nKey
  vvTried := h'.vvTried.trans h.vvTried
  nIdCount := h'.nIdCount.trans h.nIdCount

theorem Kept.setNew {m : CAddrMan} {n : Int} (hn : n ∈ m.mapInfo) (f : CAddrInfo → CAddrInfo) (p : NewPlace) (b : Int) :
    Kept m ((m.modify n f).setNew p b) n :=
  ⟨fun x _ => mem_modify m f hn x, fun x hx => by rw [info_setNew, info_modify_of_ne _ _ _ hx]; rfl, rfl, rfl, rfl⟩

section moves

variable {env : AddrEnv} {m : CAddrMan} {limbo limbo' : Int → Prop} {dNew dTried : Int} {n : Int}

theorem delete_spec (hi : Indexed m) (h : Placed env m limbo dNew dTried) (hn : n ∈ m.mapInfo)
    (hflag : (m.info n).fInTried = false) (href : (m.info n).nRefCount = 0) :
    ∃ m', m.delete n = some m' ∧ Indexed m' ∧ Placed env m' limbo dNew dTried ∧ Kept m m' n ∧ n ∉ m'.mapInfo ∧
      m'.vvNew = m.vvNew := by
  obtain ⟨i, hpos, hr⟩ := hi.position n hn
  have hlt := (List.getElem?_eq_some_iff.mp hr).1
  obtain ⟨m1, hswap, hi1, hs, hlast, hlen⟩ := hi.swapRandom hr (List.getElem?_eq_getElem (show m.vRandom.length - 1 <
    m.vRandom.length by omega))
  have hcast : ((m.vRandom.length - 1 : Nat) : Int) = m.vRandom.length - 1 := by omega
  have hn1 : n ∈ m1.mapInfo := (hs.mem n).mpr hn
  have hflag1 : (m1.info n).fInTried = false := by rw [hs.info n, hflag]
  have href1 : (m1.info n).nRefCount = 0 := by rw [hs.info n, href]
  rw [delete, if_pos ⟨hn, hflag, href⟩, hpos, ← hcast, hswap]
  rw [← hlen] at hlast
  refine ⟨_, rfl, hi1.popLast hlast rfl rfl rfl rfl,
    (h.shuffle hs).erase hn1 hflag1 href1 rfl rfl rfl rfl rfl rfl, ⟨fun x hx => ?_, fun x hx => ?_, ?_, ?_, ?_⟩, ?_, ?_⟩
  · rw [Finmap.mem_erase, hs.mem]
    exact and_iff_right hx
  · have : ({ m1 with
        vRandom := m1.vRandom.dropLast, mapAddr := m1.mapAddr.erase (m1.info n).toCNetAddr,
        mapInfo := m1.mapInfo.erase n, nNew := m1.nNew - 1 } : CAddrMan).info x = m1.info x := by
      simp [CAddrMan.info, Finmap.lookup_erase_ne hx]
    rw [this]
    exact hs.info x
  · rw [hs.rest]
  · rw [hs.rest]
  · rw [hs.rest]
  · rw [Finmap.mem_erase]
    exact fun hx => hx.1 rfl
  · rw [hs.rest]

theorem clearNew_spec (hi : Indexed m) (h : Placed env m limbo dNew dTried) (p : NewPlace) :
    ∃ m', m.clearNew p = some m' ∧ Indexed m' ∧ Placed env m' limbo dNew dTried ∧
      m'.vvNew = Function.update m.vvNew p (-1) ∧ Kept m m' (m.vvNew p) := by
  unfold clearNew
  by_cases hp : m.vvNew p = -1
  · refine ⟨m, if_pos hp, hi, h, ?_, .refl m _⟩
    rw [← hp, Function.update_eq_self]
  obtain ⟨hn, hpos, hflag⟩ := h.new_of_vvNew (n := m.vvNew p) rfl hp
  rw [if_neg hp]
  simp only
  rw [if_pos hpos]
  generalize hm1 : (m.modify (m.vvNew p) fun i => { i with nRefCount := i.nRefCount - 1 }).setNew p (-1) = m1
  have hself : m1.info (m.vvNew p) = { m.info (m.vvNew p) with nRefCount := (m.info (m.vvNew p)).nRefCount - 1 } := by
    rw [← hm1, info_setNew, info_modify_self]
  have hi1 : Indexed m1 := by
    rw [← hm1]
    exact (hi.modify hn _ rfl rfl).setNew p (-1)
  have hkept : Kept m m1 (m.vvNew p) := by
    rw [← hm1]
    exact .setNew hn _ p _
  have hvv : m1.vvNew = Function.update m.vvNew p (-1) := by
    rw [← hm1]
    rfl
  by_cases hlast : (m1.info (m.vvNew p)).nRefCount = 0
  · rw [if_pos hlast]
    have hleave : Placed env m1 (fun x => x = m.vvNew p ∨ limbo x) dNew dTried := by
      rw [← hm1]
      exact h.leave rfl hp (fun x _ => .inr) fun _ => .inl rfl
    have hmem1 : m.vvNew p ∈ m1.mapInfo := by
      rw [← hm1, mapInfo_setNew, mem_modify m _ hn]
      exact hn
    obtain ⟨m', hdelete, hi', h', hkept', hgone, hvv'⟩ := delete_spec hi1 hleave hmem1 (by rw [hself, hflag]) hlast
    have hrest : Placed env m' limbo dNew dTried := h'.limbo_imp fun x hx hl _ _ => by
      refine hl.resolve_left fun he => ?_
      rw [he] at hx
      exact hgone hx
    exact ⟨m', hdelete, hi', hrest, hvv'.trans hvv, hkept.trans hkept'⟩
  · rw [if_neg hlast]
    refine ⟨m1, rfl, hi1, ?_, hvv, hkept⟩
    rw [← hm1]
    refine h.leave rfl hp (fun x _ => id) fun hone => absurd ?_ hlast
    rw [hself, hone]
    rfl

/-! ## MakeTried -/

theorem foldl_leaveBucket (l : List (Fin 1024)) (hi : Indexed m) (h : Placed env m limbo dNew dTried)
    (hn : n ∈ m.mapInfo) (hl : limbo n) (hrest : ∀ p, m.vvNew p = n → p.1 ∈ l) :
    ∃ m', l.foldl (leaveBucket env n) m = m' ∧ Indexed m' ∧ Placed env m' limbo dNew dTried ∧ (∀ p, m'.vvNew p ≠ n) ∧
      n ∈ m'.mapInfo ∧ m'.info n = { m.info n with nRefCount := (m'.info n).nRefCount } ∧ Kept m m' n := by
  induction l generalizing m with
  | nil => exact ⟨m, rfl, hi, h, fun p hp => by simpa using hrest p hp, hn, rfl, .refl m n⟩
  | cons b l ih =>
    rw [List.foldl_cons]
    have hplace : ∀ p, m.vvNew p = n → p.1 = b → p = m.placeIn env n b := by
      intro p hp hb
      have := (h.newAt p (hp ▸ h.ne_neg_one hn)).2
      rw [hp, hb] at this
      exact this.symm
    have hrest' : ∀ p, m.vvNew p = n → p ≠ m.placeIn env n b → p.1 ∈ l := fun p hp hne =>
      (List.mem_cons.mp (hrest p hp)).resolve_left fun hb => hne (hplace p hp hb)
    unfold leaveBucket
    simp only
    by_cases hat : m.vvNew (m.placeIn env n b) = n
    · rw [if_pos hat]
      have hswap : ((m.setNew (m.placeIn env n b) (-1)).modify n fun i => { i with nRefCount := i.nRefCount - 1 }) =
          (m.modify n fun i => { i with nRefCount := i.nRefCount - 1 }).setNew (m.placeIn env n b) (-1) := rfl
      rw [hswap]
      generalize hm1 : (m.modify n fun i => { i with nRefCount := i.nRefCount - 1 }).setNew (m.placeIn env n b) (-1) = m1
      have hi1 : Indexed m1 := by
        rw [← hm1]
        exact (hi.modify hn _ rfl rfl).setNew _ _
      have h1 : Placed env m1 limbo dNew dTried := by
        rw [← hm1]
        exact h.leave hat (h.ne_neg_one hn) (fun x _ => id) fun _ => hl
      have hn1 : n ∈ m1.mapInfo := by
        rw [← hm1, mapInfo_setNew, mem_modify m _ hn]
        exact hn
      have hself : m1.info n = { m.info n with nRefCount := (m.info n).nRefCount - 1 } := by
        rw [← hm1, info_setNew, info_modify_self]
      have hkept : Kept m m1 n := by
        rw [← hm1]
        exact .setNew hn _ _ _
      have hvv : ∀ p, m1.vvNew p = n → p ≠ m.placeIn env n b ∧ m.vvNew p = n := fun p hp => by
        rw [← hm1] at hp
        by_cases hpp : p = m.placeIn env n b
        · rw [hpp] at hp
          exact absurd ((Function.update_self _ _ _).symm.trans hp) (h.ne_neg_one hn).symm
        · exact ⟨hpp, (Function.update_of_ne hpp _ _).symm.trans hp⟩
      obtain ⟨m', hm', hi', h', hnone, hn', hinfo, hkept'⟩ := ih hi1 h1 hn1 fun p hp => hrest' p (hvv p hp).2 (hvv p hp).1
      refine ⟨m', hm', hi', h', hnone, hn', ?_, hkept.trans hkept'⟩
      rw [hself] at hinfo
      exact hinfo
    · rw [if_neg hat]
      exact ih hi h hn fun p hp => hrest' p hp fun he => hat (he ▸ hp)

theorem evict_spec (hi : Indexed m) (h : Placed env m limbo dNew dTried) (q : TriedPlace) :
    ∃ m', m.evict env q = some m' ∧ Indexed m' ∧ Placed env m' limbo dNew dTried ∧ m'.vvTried q = -1 ∧ m'.nKey = m.nKey ∧
      ∀ x ∈ m.mapInfo, (m.info x).fInTried = false → (m.info x).nRefCount = 0 →
        x ∈ m'.mapInfo ∧ SameEntry (m.info x) (m'.info x) := by
  unfold evict
  by_cases hq : m.vvTried q = -1
  · exact ⟨m, if_pos hq, hi, h, hq, rfl, fun x hx _ _ => ⟨hx, rfl⟩⟩
  obtain ⟨hn, hflag, -⟩ := h.tried_of_vvTried (n := m.vvTried q) rfl hq
  rw [if_neg hq]
  simp only
  rw [if_pos hn]
  generalize hv : m.vvTried q = n at hq hn hflag ⊢
  have hzero := (h.entry n hn).tried_ref hflag
  -- the entry is taken out of the "tried" table
  generalize hm1 : ((m.modify n fun i => { i with fInTried := false }).setTried q (-1)).addTried (-1) = m1
  have hi1 : Indexed m1 := by
    rw [← hm1]
    exact ((hi.modify hn _ rfl rfl).setTried _ _).addTried _
  have h1 : Placed env m1 (fun x => x = n ∨ limbo x) (dNew + 1) dTried := by
    rw [← hm1]
    exact h.retire hv hq (fun x _ => .inr) (.inl rfl)
  have hself1 : m1.info n = { m.info n with fInTried := false } := by
    rw [← hm1, info_addTried, info_setTried, info_modify_self]
  have hother1 : ∀ x, x ≠ n → m1.info x = m.info x := fun x hx => by
    rw [← hm1, info_addTried, info_setTried, info_modify_of_ne _ _ _ hx]
  have hmem1 : ∀ x, x ∈ m1.mapInfo ↔ x ∈ m.mapInfo := fun x => by
    rw [← hm1, mapInfo_addTried, mapInfo_setTried, mem_modify m _ hn]
  have hvv1 : m1.vvTried q = -1 := by
    rw [← hm1]
    exact Function.update_self _ _ _
  have hkey1 : m1.nKey = m.nKey := by
    rw [← hm1]
    rfl
  have hn1 : n ∈ m1.mapInfo := (hmem1 n).mpr hn
  have hzero1 : (m1.info n).nRefCount = 0 := by rw [hself1]; exact hzero
  -- its place in the "new" table is cleared
  generalize hp : m1.newPlace env n (m1.info n).source = p
  obtain ⟨m2, hclear, hi2, h2, hvv2, hkept⟩ := clearNew_spec hi1 h1 p
  have hfree : m2.vvNew p = -1 := by rw [hvv2, Function.update_self]
  rw [hclear]
  simp only [Option.bind_eq_bind, Option.bind_some]
  rw [if_pos hfree]
  have hne : n ≠ m1.vvNew p := (h1.vvNew_ne hn1 hzero1 p).symm
  have hn2 : n ∈ m2.mapInfo := (hkept.mem n hne).mpr hn1
  have hsame : SameEntry (m1.info n) (m2.info n) := hkept.info n hne
  have hzero2 : (m2.info n).nRefCount = 0 := by rw [hsame]; exact hzero1
  have hflag2 : (m2.info n).fInTried = false := by rw [hsame, hself1]
  have hplace : m2.placeIn env n p.1 = p := by
    rw [placeIn_congr (by rw [hsame]) hkept.nKey, ← hp]
    rfl
  have hone : (m2.modify n fun i => { i with nRefCount := 1 }) =
      m2.modify n fun i => { i with nRefCount := i.nRefCount + 1 } :=
    modify_congr m2 n (by rw [hzero2]; rfl)
  refine ⟨_, rfl, ((hi2.modify hn2 _ rfl rfl).setNew _ _).addNew _, ?_, ?_, hkept.nKey.trans hkey1, fun x hx hxf hxr => ?_⟩
  · have henter : Placed env _ limbo _ dTried := (h2.enter hn2 hflag2 hfree hplace (by omega)
      (fun x hx hl => hl.resolve_left hx)).addNew 1
    rw [hone]
    simpa using henter
  · exact (congrFun hkept.vvTried q).trans hvv1
  · have hxn : x ≠ n := by
      rintro rfl
      rw [hflag] at hxf
      cases hxf
    have hx1 : x ∈ m1.mapInfo := (hmem1 x).mpr hx
    have hxne : x ≠ m1.vvNew p := (h1.vvNew_ne hx1 (by rw [hother1 x hxn, hxr]) p).symm
    rw [mapInfo_addNew, mapInfo_setNew, mem_modify _ _ hn2, info_addNew, info_setNew, info_modify_of_ne _ _ _ hxn,
      ← hother1 x hxn]
    exact ⟨(hkept.mem x hxne).mpr hx1, hkept.info x hxne⟩

theorem leaveBuckets_spec (hi : Indexed m) (h : Placed env m limbo dNew dTried) (hn : n ∈ m.mapInfo) :
    ∃ m', newBuckets.foldl (leaveBucket env n) m = m' ∧ Indexed m' ∧
      Placed env m' (fun x => x = n ∨ limbo x) dNew dTried ∧ n ∈ m'.mapInfo ∧ m'.info n = { m.info n with nRefCount := 0 } := by
  have hlimbo : Placed env m (fun x => x = n ∨ limbo x) dNew dTried := h.limbo_imp fun x _ hl _ _ => .inr hl
  obtain ⟨m1, hm1, hi1, h1, hnone, hn1, hinfo, -⟩ := foldl_leaveBucket newBuckets hi hlimbo hn (.inl rfl)
    fun p _ => mem_newBuckets p.1
  have hzero : (m1.info n).nRefCount = 0 := by
    rw [← h1.refs n hn1, Int.natCast_eq_zero, occurs_eq_zero]
    exact fun p _ => hnone p
  rw [hzero] at hinfo
  exact ⟨m1, hm1, hi1, h1, hn1, hinfo⟩

theorem makeTried_spec (hi : Indexed m) (h : Placed env m limbo dNew dTried) (hn : n ∈ m.mapInfo)
    (hflag : (m.info n).fInTried = false) (hsuccess : (m.info n).nLastSuccess ≠ 0) :
    ∃ m', m.makeTried env n = some m' ∧ Indexed m' ∧ Placed env m' limbo dNew dTried := by
  obtain ⟨m1, hleave, hi1, h1, hn1, hinfo⟩ := leaveBuckets_spec hi h hn
  have hzero : ((m1.addNew (-1)).info n).nRefCount = 0 := by rw [info_addNew, hinfo]
  have hflag1 : ((m1.addNew (-1)).info n).fInTried = false := by rw [info_addNew, hinfo, hflag]
  obtain ⟨m2, hevict, hi2, h2, hvv, hkey, hkept⟩ := evict_spec (hi1.addNew (-1)) (h1.addNew (-1))
    ((m1.addNew (-1)).triedPlace env n)
  obtain ⟨hn2, hsame⟩ := hkept n hn1 hflag1 hzero
  have hplace : m2.triedPlace env n = (m1.addNew (-1)).triedPlace env n := triedPlace_congr (by rw [hsame]) hkey
  have hpromote : Placed env _ limbo _ _ := h2.promote hn2 (by rw [hsame, hflag1]) (by rw [hsame]; exact hzero)
    (by rw [hsame, info_addNew, hinfo]; exact hsuccess) hvv hplace fun x hx hl => hl.resolve_left hx
  refine ⟨_, ?_, ((hi2.setTried _ _).addTried _).modify hn2 _ rfl rfl, by simpa using hpromote⟩
  unfold makeTried
  simp only [hleave]
  rw [if_pos hzero, hevict]
  simp only [Option.bind_eq_bind, Option.bind_some]
  rw [if_pos hvv]

end moves

end CAddrMan

end DigiWage.Net
