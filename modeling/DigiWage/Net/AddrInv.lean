import DigiWage.Net.AddrCheck

/-!
# The invariant of the address manager

Between the operations, and in the middle of them, the five structures of `CAddrMan` fit together. `Indexed` says it of
`mapInfo`, `mapAddr` and `vRandom`; `Placed` says it of the entries and the two tables, but for some ids in limbo, which
may be new and have no reference, and with differences between the counters and what they count. At rest nothing is in
limbo and the differences are zero, which implies `Checked`.

Each change of the manager has one lemma for each part it touches: an entry is rewritten (`Placed.rewrite`), enters or
leaves a place, is created, deleted, promoted or evicted.
-/

namespace DigiWage.Net

open Lib

namespace CAddrMan

/-! ## Reading a changed manager -/

section read

variable (m : CAddrMan) (n : Int) (f : CAddrInfo → CAddrInfo)

theorem info_of_lookup {n : Int} {i : CAddrInfo} (h : m.mapInfo.lookup n = some i) : m.info n = i := by
  rw [info, h, Option.getD_some]

@[simp] theorem info_modify_self : (m.modify n f).info n = f (m.info n) := by
  simp [info, modify, Finmap.lookup_insert]

theorem info_modify_of_ne {x : Int} (h : x ≠ n) : (m.modify n f).info x = m.info x := by
  simp [info, modify, Finmap.lookup_insert_of_ne _ h]

theorem mem_modify {n : Int} (hn : n ∈ m.mapInfo) (x : Int) : x ∈ (m.modify n f).mapInfo ↔ x ∈ m.mapInfo := by
  simp only [modify, Finmap.mem_insert]
  exact ⟨fun h => h.elim (fun h => h ▸ hn) id, .inr⟩

theorem info_setRandomPos_self (pos : Int) : (m.setRandomPos n pos).info n = { m.info n with nRandomPos := pos } :=
  info_modify_self m n _

theorem info_setRandomPos_of_ne {x : Int} (pos : Int) (h : x ≠ n) : (m.setRandomPos n pos).info x = m.info x :=
  info_modify_of_ne m n _ h

theorem mem_setRandomPos {n : Int} (pos : Int) (hn : n ∈ m.mapInfo) (x : Int) :
    x ∈ (m.setRandomPos n pos).mapInfo ↔ x ∈ m.mapInfo :=
  mem_modify m _ hn x

@[simp] theorem info_setRandom (v : List Int) : (m.setRandom v).info n = m.info n := rfl
@[simp] theorem mapInfo_setRandom (v : List Int) : (m.setRandom v).mapInfo = m.mapInfo := rfl

theorem info_create_self (addr : CAddress) (source : CNetAddr) : (m.create addr source).info m.nIdCount =
    { CAddrInfo.new addr source with nRandomPos := m.vRandom.length } := by
  simp [info, create, append, nextId, Finmap.lookup_insert]

theorem info_create_of_ne (addr : CAddress) (source : CNetAddr) {x : Int} (h : x ≠ m.nIdCount) :
    (m.create addr source).info x = m.info x := by
  simp [info, create, append, nextId, Finmap.lookup_insert_of_ne _ h]

@[simp] theorem create_vvNew (addr : CAddress) (source : CNetAddr) : (m.create addr source).vvNew = m.vvNew := rfl
@[simp] theorem create_vvTried (addr : CAddress) (source : CNetAddr) : (m.create addr source).vvTried = m.vvTried := rfl
@[simp] theorem create_nKey (addr : CAddress) (source : CNetAddr) : (m.create addr source).nKey = m.nKey := rfl
@[simp] theorem create_nNew (addr : CAddress) (source : CNetAddr) : (m.create addr source).nNew = m.nNew := rfl
@[simp] theorem create_nTried (addr : CAddress) (source : CNetAddr) : (m.create addr source).nTried = m.nTried := rfl

theorem mem_create (addr : CAddress) (source : CNetAddr) (x : Int) :
    x ∈ (m.create addr source).mapInfo ↔ x = m.nIdCount ∨ x ∈ m.mapInfo := by
  simp [create, append, nextId, Finmap.mem_insert]

end read

/-! ## The index -/

/-- `mapInfo`, `mapAddr` and `vRandom` have the same entries, each id is below `nIdCount`. -/
structure Indexed (m : CAddrMan) : Prop where
  idCount : 0 ≤ m.nIdCount
  ids : ∀ n ∈ m.mapInfo, 0 ≤ n ∧ n < m.nIdCount
  addr : ∀ n ∈ m.mapInfo, m.mapAddr.lookup (m.info n).toCNetAddr = some n
  back : ∀ a n, m.mapAddr.lookup a = some n → n ∈ m.mapInfo ∧ (m.info n).toCNetAddr = a
  position : ∀ n ∈ m.mapInfo, ∃ i : Nat, (m.info n).nRandomPos = i ∧ m.vRandom[i]? = some n
  random : ∀ (i : Nat) n, m.vRandom[i]? = some n → n ∈ m.mapInfo ∧ (m.info n).nRandomPos = i

namespace Indexed

variable {m m' : CAddrMan}

theorem ne_neg_one (h : Indexed m) {n : Int} (hn : n ∈ m.mapInfo) : n ≠ -1 := by
  have := (h.ids n hn).1
  omega

theorem congr (h : Indexed m) (hid : m'.nIdCount = m.nIdCount) (hmem : ∀ x, x ∈ m'.mapInfo ↔ x ∈ m.mapInfo)
    (hinfo : ∀ x ∈ m.mapInfo, (m'.info x).toCNetAddr = (m.info x).toCNetAddr ∧
      (m'.info x).nRandomPos = (m.info x).nRandomPos)
    (haddr : m'.mapAddr = m.mapAddr) (hrandom : m'.vRandom = m.vRandom) : Indexed m' where
  idCount := hid ▸ h.idCount
  ids n hn := hid ▸ h.ids n ((hmem n).mp hn)
  addr n hn := by
    rw [haddr, (hinfo n ((hmem n).mp hn)).1]
    exact h.addr n ((hmem n).mp hn)
  back a n hn := by
    rw [haddr] at hn
    obtain ⟨hn', ha⟩ := h.back a n hn
    exact ⟨(hmem n).mpr hn', by rw [(hinfo n hn').1, ha]⟩
  position n hn := by
    rw [hrandom, (hinfo n ((hmem n).mp hn)).2]
    exact h.position n ((hmem n).mp hn)
  random i n hn := by
    rw [hrandom] at hn
    obtain ⟨hn', hi⟩ := h.random i n hn
    exact ⟨(hmem n).mpr hn', by rw [(hinfo n hn').2, hi]⟩

theorem modify (h : Indexed m) {n : Int} (hn : n ∈ m.mapInfo) (f : CAddrInfo → CAddrInfo)
    (haddr : (f (m.info n)).toCNetAddr = (m.info n).toCNetAddr) (hpos : (f (m.info n)).nRandomPos = (m.info n).nRandomPos) :
    Indexed (m.modify n f) := by
  refine h.congr rfl (m.mem_modify f hn) (fun x _ => ?_) rfl rfl
  by_cases hx : x = n
  · subst hx
    rw [info_modify_self]
    exact ⟨haddr, hpos⟩
  · rw [info_modify_of_ne _ _ _ hx]
    exact ⟨rfl, rfl⟩

theorem addr_inj (h : Indexed m) {x y : Int} (hx : x ∈ m.mapInfo) (hy : y ∈ m.mapInfo)
    (heq : (m.info x).toCNetAddr = (m.info y).toCNetAddr) : x = y := by
  have hax := h.addr x hx
  rw [heq, h.addr y hy] at hax
  exact (Option.some.inj hax).symm

theorem find_eq_some (h : Indexed m) {a : CNetAddr} {n : Int} :
    m.find a = some n ↔ n ∈ m.mapInfo ∧ (m.info n).toCNetAddr = a := by
  unfold find
  rw [Option.bind_eq_some_iff]
  constructor
  · rintro ⟨x, hx, hxn⟩
    split at hxn
    · cases hxn
      exact h.back a n hx
    · cases hxn
  · rintro ⟨hn, rfl⟩
    exact ⟨n, h.addr n hn, if_pos hn⟩

theorem find_eq_none (h : Indexed m) {a : CNetAddr} : m.find a = none ↔ m.mapAddr.lookup a = none := by
  unfold find
  rw [Option.bind_eq_none_iff]
  constructor
  · intro hx
    by_contra hne
    obtain ⟨n, hn⟩ := Option.ne_none_iff_exists'.mp hne
    have := hx n hn
    rw [if_pos (h.back a n hn).1] at this
    cases this
  · intro hx n hn
    rw [hx] at hn
    cases hn

theorem idCount_notMem (h : Indexed m) : m.nIdCount ∉ m.mapInfo := fun hmem => absurd (h.ids _ hmem).2 (lt_irrefl _)

theorem create (h : Indexed m) {addr : CAddress} (source : CNetAddr) (hnew : m.mapAddr.lookup addr.toCNetAddr = none)
    (hid : m.nIdCount < 2 ^ 31 - 1) : Indexed (m.create addr source) := by
  have hcount : (m.nIdCount + 1).bmod (2 ^ 32) = m.nIdCount + 1 := by
    have := h.idCount
    rw [Int.bmod_eq_of_le] <;> omega
  have hself := info_create_self m addr source
  have hother : ∀ x ∈ m.mapInfo, (m.create addr source).info x = m.info x := fun x hx =>
    info_create_of_ne m addr source fun he => h.idCount_notMem (he ▸ hx)
  have hmem := mem_create m addr source
  have hnone : ∀ x ∈ m.mapInfo, (m.info x).toCNetAddr ≠ addr.toCNetAddr := fun x hx he => by
    have := h.addr x hx
    rw [he, hnew] at this
    cases this
  refine ⟨?_, fun n hn => ?_, fun n hn => ?_, fun a n hn => ?_, fun n hn => ?_, fun i n hn => ?_⟩
  · show 0 ≤ (m.nIdCount + 1).bmod (2 ^ 32)
    have := h.idCount
    omega
  · show 0 ≤ n ∧ n < (m.nIdCount + 1).bmod (2 ^ 32)
    rcases (hmem n).mp hn with rfl | hn
    · have := h.idCount
      omega
    · have := h.ids n hn
      omega
  · rcases (hmem n).mp hn with rfl | hn
    · rw [hself]
      exact Finmap.lookup_insert _
    · rw [hother n hn]
      exact (Finmap.lookup_insert_of_ne _ (hnone n hn)).trans (h.addr n hn)
  · by_cases ha : a = addr.toCNetAddr
    · subst ha
      have : m.nIdCount = n := Option.some.inj ((Finmap.lookup_insert _).symm.trans hn)
      subst this
      exact ⟨(hmem _).mpr (.inl rfl), by rw [hself]; rfl⟩
    · obtain ⟨hn', hna⟩ := h.back a n ((Finmap.lookup_insert_of_ne _ ha).symm.trans hn)
      exact ⟨(hmem n).mpr (.inr hn'), by rw [hother n hn', hna]⟩
  · rcases (hmem n).mp hn with rfl | hn
    · exact ⟨m.vRandom.length, by rw [hself], by simp [CAddrMan.create, append, nextId]⟩
    · obtain ⟨i, hi, hr⟩ := h.position n hn
      refine ⟨i, by rw [hother n hn, hi], ?_⟩
      show (m.vRandom ++ [m.nIdCount])[i]? = some n
      rw [List.getElem?_append_left (List.getElem?_eq_some_iff.mp hr).1, hr]
  · have hn : (m.vRandom ++ [m.nIdCount])[i]? = some n := hn
    rcases Nat.lt_or_ge i m.vRandom.length with hi | hi
    · rw [List.getElem?_append_left hi] at hn
      obtain ⟨hn', hpos⟩ := h.random i n hn
      exact ⟨(hmem n).mpr (.inr hn'), by rw [hother n hn', hpos]⟩
    · obtain ⟨hlt, hget⟩ := List.getElem?_eq_some_iff.mp hn
      simp only [List.length_append, List.length_cons, List.length_nil] at hlt
      have hi : i = m.vRandom.length := by omega
      subst hi
      simp only [List.getElem_concat_length] at hget
      subst hget
      exact ⟨(hmem _).mpr (.inl rfl), by rw [hself]⟩

end Indexed

/-- Two entries that differ in their positions in `vRandom` only. -/
def SameEntry (a b : CAddrInfo) : Prop := b = { a with nRandomPos := b.nRandomPos }

/-- What `SwapRandom` leaves as it is: all but positions. -/
structure Shuffled (m m' : CAddrMan) : Prop where
  mem : ∀ x, x ∈ m'.mapInfo ↔ x ∈ m.mapInfo
  info : ∀ x, SameEntry (m.info x) (m'.info x)
  rest : m' = { m with mapInfo := m'.mapInfo, vRandom := m'.vRandom }

theorem Shuffled.refl (m : CAddrMan) : Shuffled m m := ⟨fun _ => Iff.rfl, fun _ => rfl, rfl⟩

/-- The ids `a` and `b` at two positions of `vRandom` have changed places. -/
structure Swapped (m : CAddrMan) (i j : Nat) (a b : Int) (m' : CAddrMan) : Prop where
  mem : ∀ x, x ∈ m'.mapInfo ↔ x ∈ m.mapInfo
  first : m'.info a = { m.info a with nRandomPos := j }
  second : m'.info b = { m.info b with nRandomPos := i }
  other : ∀ x, x ≠ a → x ≠ b → m'.info x = m.info x
  random : ∀ k, m'.vRandom[k]? = if k = j then some a else if k = i then some b else m.vRandom[k]?
  length : m'.vRandom.length = m.vRandom.length
  rest : m' = { m with mapInfo := m'.mapInfo, vRandom := m'.vRandom }

theorem Indexed.exists_swapped {m : CAddrMan} (h : Indexed m) {i j : Nat} (hij : i ≠ j) {a b : Int}
    (hi : m.vRandom[i]? = some a) (hj : m.vRandom[j]? = some b) :
    ∃ m', m.swapRandom i j = some m' ∧ Swapped m i j a b m' := by
  obtain ⟨hilt, hia⟩ := List.getElem?_eq_some_iff.mp hi
  obtain ⟨hjlt, hjb⟩ := List.getElem?_eq_some_iff.mp hj
  obtain ⟨ha, hapos⟩ := h.random i a hi
  obtain ⟨hb, hbpos⟩ := h.random j b hj
  have hab : a ≠ b := by
    rintro rfl
    rw [hapos] at hbpos
    omega
  have hgeta : m.vRandom.getD (i : Int).toNat 0 = a := by simp [hilt, hia]
  have hgetb : m.vRandom.getD (j : Int).toNat 0 = b := by simp [hjlt, hjb]
  unfold CAddrMan.swapRandom
  rw [if_neg (by omega), if_pos ⟨by omega, by omega, by omega, by omega⟩]
  simp only [hgeta, hgetb]
  rw [if_pos ⟨ha, hb⟩]
  refine ⟨_, rfl, fun x => ?_, ?_, ?_, fun x hxa hxb => ?_, fun k => ?_, by simp [setRandom], rfl⟩
  · rw [mapInfo_setRandom, mem_setRandomPos _ _ ((mem_setRandomPos m _ ha b).mpr hb), mem_setRandomPos _ _ ha]
  · rw [info_setRandom, info_setRandomPos_of_ne _ _ _ hab, info_setRandomPos_self]
  · rw [info_setRandom, info_setRandomPos_self, info_setRandomPos_of_ne _ _ _ hab.symm]
  · rw [info_setRandom, info_setRandomPos_of_ne _ _ _ hxb, info_setRandomPos_of_ne _ _ _ hxa]
  · simp only [setRandom, Int.toNat_natCast, List.getElem?_set, List.length_set]
    by_cases hkj : k = j
    · subst hkj
      simp [hjlt]
    · by_cases hki : k = i
      · subst hki
        simp [hkj, Ne.symm hkj, hilt]
      · simp [hkj, hki, Ne.symm hkj, Ne.symm hki]

namespace Swapped

variable {m m' : CAddrMan} {i j : Nat} {a b : Int}

theorem shuffled (hs : Swapped m i j a b m') : Shuffled m m' := by
  refine ⟨hs.mem, fun x => ?_, hs.rest⟩
  by_cases hxa : x = a
  · rw [hxa, hs.first]
    rfl
  · by_cases hxb : x = b
    · rw [hxb, hs.second]
      rfl
    · rw [hs.other x hxa hxb]
      rfl

theorem position (hs : Swapped m i j a b m') (h : Indexed m) (hij : i ≠ j) (hi : m.vRandom[i]? = some a)
    (hj : m.vRandom[j]? = some b) {n : Int} (hn : n ∈ m.mapInfo) :
    ∃ k : Nat, (m'.info n).nRandomPos = k ∧ m'.vRandom[k]? = some n := by
  by_cases hna : n = a
  · subst hna
    exact ⟨j, by rw [hs.first], by rw [hs.random, if_pos rfl]⟩
  · by_cases hnb : n = b
    · subst hnb
      exact ⟨i, by rw [hs.second], by rw [hs.random, if_neg hij, if_pos rfl]⟩
    · obtain ⟨k, hk, hr⟩ := h.position n hn
      refine ⟨k, by rw [hs.other n hna hnb, hk], ?_⟩
      rw [hs.random, if_neg, if_neg, hr]
      · rintro rfl
        exact hna (Option.some.inj (hr.symm.trans hi))
      · rintro rfl
        exact hnb (Option.some.inj (hr.symm.trans hj))

theorem random_mem (hs : Swapped m i j a b m') (h : Indexed m) (hi : m.vRandom[i]? = some a) (hj : m.vRandom[j]? = some b)
    {k : Nat} {n : Int} (hn : m'.vRandom[k]? = some n) : n ∈ m.mapInfo ∧ (m'.info n).nRandomPos = k := by
  obtain ⟨ha, hapos⟩ := h.random i a hi
  obtain ⟨hb, hbpos⟩ := h.random j b hj
  rw [hs.random] at hn
  split at hn
  · rename_i hk
    cases hn
    exact ⟨ha, by rw [hs.first, hk]⟩
  · split at hn
    · rename_i hk
      cases hn
      exact ⟨hb, by rw [hs.second, hk]⟩
    · rename_i hkj hki
      obtain ⟨hn', hk⟩ := h.random k n hn
      refine ⟨hn', ?_⟩
      rw [hs.other n, hk]
      · rintro rfl
        rw [hapos] at hk
        omega
      · rintro rfl
        rw [hbpos] at hk
        omega

theorem indexed (hs : Swapped m i j a b m') (h : Indexed m) (hij : i ≠ j) (hi : m.vRandom[i]? = some a)
    (hj : m.vRandom[j]? = some b) : Indexed m' := by
  have haddr : ∀ x, (m'.info x).toCNetAddr = (m.info x).toCNetAddr := fun x => by rw [hs.shuffled.info x]
  refine ⟨?_, fun n hn => ?_, fun n hn => ?_, fun x n hn => ?_, fun n hn => hs.position h hij hi hj ((hs.mem n).mp hn),
    fun k n hn => ?_⟩
  · rw [hs.rest]
    exact h.idCount
  · rw [hs.rest]
    exact h.ids n ((hs.mem n).mp hn)
  · rw [haddr, hs.rest]
    exact h.addr n ((hs.mem n).mp hn)
  · rw [hs.rest] at hn
    obtain ⟨hn', hx⟩ := h.back x n hn
    exact ⟨(hs.mem n).mpr hn', by rw [haddr, hx]⟩
  · obtain ⟨hn', hk⟩ := hs.random_mem h hi hj hn
    exact ⟨(hs.mem n).mpr hn', hk⟩

end Swapped

theorem Indexed.swapRandom {m : CAddrMan} (h : Indexed m) {i j : Nat} {a b : Int} (hi : m.vRandom[i]? = some a)
    (hj : m.vRandom[j]? = some b) : ∃ m', m.swapRandom i j = some m' ∧ Indexed m' ∧ Shuffled m m' ∧
      m'.vRandom[j]? = some a ∧ m'.vRandom.length = m.vRandom.length := by
  by_cases hij : i = j
  · subst hij
    exact ⟨m, if_pos rfl, h, .refl m, hi, rfl⟩
  · obtain ⟨m', hswap, hs⟩ := h.exists_swapped hij hi hj
    exact ⟨m', hswap, hs.indexed h hij hi hj, hs.shuffled, by rw [hs.random, if_pos rfl], hs.length⟩

theorem Indexed.popLast {m m' : CAddrMan} (h : Indexed m) {n : Int} (hn : m.vRandom[m.vRandom.length - 1]? = some n)
    (hid : m'.nIdCount = m.nIdCount) (hinfo : m'.mapInfo = m.mapInfo.erase n)
    (haddr : m'.mapAddr = m.mapAddr.erase (m.info n).toCNetAddr) (hrandom : m'.vRandom = m.vRandom.dropLast) :
    Indexed m' := by
  obtain ⟨hn', hpos⟩ := h.random _ n hn
  have hmem : ∀ x, x ∈ m'.mapInfo ↔ x ≠ n ∧ x ∈ m.mapInfo := fun x => by rw [hinfo, Finmap.mem_erase]
  have hget : ∀ x, x ≠ n → m'.info x = m.info x := fun x hx => by
    simp [info, hinfo, Finmap.lookup_erase_ne hx]
  have hdrop : ∀ i, m'.vRandom[i]? = if i < m.vRandom.length - 1 then m.vRandom[i]? else none := fun i => by
    rw [hrandom, List.getElem?_dropLast]
  refine ⟨hid ▸ h.idCount, fun x hx => hid ▸ h.ids x ((hmem x).mp hx).2, fun x hx => ?_, fun a x hx => ?_,
    fun x hx => ?_, fun i x hx => ?_⟩
  · obtain ⟨hne, hx⟩ := (hmem x).mp hx
    rw [hget x hne, haddr, Finmap.lookup_erase_ne fun he => hne (h.addr_inj hx hn' he)]
    exact h.addr x hx
  · rw [haddr] at hx
    by_cases ha : a = (m.info n).toCNetAddr
    · rw [ha, Finmap.lookup_erase] at hx
      cases hx
    · rw [Finmap.lookup_erase_ne ha] at hx
      obtain ⟨hx', hxa⟩ := h.back a x hx
      have hne : x ≠ n := fun he => ha (by rw [← hxa, he])
      exact ⟨(hmem x).mpr ⟨hne, hx'⟩, by rw [hget x hne, hxa]⟩
  · obtain ⟨hne, hx⟩ := (hmem x).mp hx
    obtain ⟨i, hi, hr⟩ := h.position x hx
    refine ⟨i, by rw [hget x hne, hi], ?_⟩
    rw [hdrop, if_pos, hr]
    have hlt := (List.getElem?_eq_some_iff.mp hr).1
    have : i ≠ m.vRandom.length - 1 := by
      rintro rfl
      exact hne (Option.some.inj (hr.symm.trans hn))
    omega
  · rw [hdrop] at hx
    split at hx
    · rename_i hi
      obtain ⟨hx', hxi⟩ := h.random i x hx
      have hne : x ≠ n := by
        rintro rfl
        rw [hpos] at hxi
        omega
      exact ⟨(hmem x).mpr ⟨hne, hx'⟩, by rw [hget x hne, hxi]⟩
    · cases hx

/-! ## The tables -/

/-- What holds of each entry; one that is `live` and new has a reference. -/
structure EntryOk (live : Prop) (i : CAddrInfo) : Prop where
  tried_ref : i.fInTried = true → i.nRefCount = 0
  tried_success : i.fInTried = true → i.nLastSuccess ≠ 0
  ref_le : i.nRefCount ≤ 8
  live : live → i.fInTried = false → i.nRefCount ≠ 0
  lastTry : ¬ i.nLastTry < 0
  lastSuccess : ¬ i.nLastSuccess < 0

/-- The entries and the two tables fit together. The ids in `limbo` may be without a place; `dNew` and `dTried` are by how
much the counters are behind. -/
structure Placed (env : AddrEnv) (m : CAddrMan) (limbo : Int → Prop) (dNew dTried : Int) : Prop where
  noId : -1 ∉ m.mapInfo
  entry : ∀ n ∈ m.mapInfo, EntryOk (¬ limbo n) (m.info n)
  triedAt : ∀ p, m.vvTried p ≠ -1 → m.vvTried p ∈ m.mapInfo ∧ m.triedPlace env (m.vvTried p) = p
  newAt : ∀ p, m.vvNew p ≠ -1 → m.vvNew p ∈ m.mapInfo ∧ m.placeIn env (m.vvNew p) p.1 = p
  triedOnce : ∀ n ∈ m.mapInfo, occurs triedPlaces m.vvTried n = if (m.info n).fInTried then 1 else 0
  refs : ∀ n ∈ m.mapInfo, (occurs newPlaces m.vvNew n : Int) = (m.info n).nRefCount
  newCount : (m.untried.card : Int) = m.nNew + dNew
  triedCount : (m.tried.card : Int) = m.nTried + dTried
  key : m.nKey ≠ 0

section places

variable {m m' : CAddrMan} {n : Int}

theorem triedPlace_congr {env : AddrEnv} (hserv : (m'.info n).toCService = (m.info n).toCService)
    (hkey : m'.nKey = m.nKey) : m'.triedPlace env n = m.triedPlace env n := by
  simp only [triedPlace, hserv, hkey]

theorem placeIn_congr {env : AddrEnv} (hserv : (m'.info n).toCService = (m.info n).toCService) (hkey : m'.nKey = m.nKey)
    (bucket : Fin 1024) : m'.placeIn env n bucket = m.placeIn env n bucket := by
  simp only [placeIn, hserv, hkey]

variable (hmem : ∀ x, x ∈ m'.mapInfo ↔ x ∈ m.mapInfo)

include hmem

theorem tried_congr (hflag : ∀ x ∈ m.mapInfo, (m'.info x).fInTried = (m.info x).fInTried) : m'.tried = m.tried := by
  ext x
  rw [mem_tried, mem_tried, hmem]
  exact and_congr_right fun hx => by rw [hflag x hx]

theorem untried_congr (hflag : ∀ x ∈ m.mapInfo, (m'.info x).fInTried = (m.info x).fInTried) : m'.untried = m.untried := by
  ext x
  rw [mem_untried, mem_untried, hmem]
  exact and_congr_right fun hx => by rw [hflag x hx]

variable (hn : n ∈ m.mapInfo) (hother : ∀ x, x ≠ n → m'.info x = m.info x)

include hn hother

theorem tried_of_true (h : (m'.info n).fInTried = true) : m'.tried = insert n m.tried := by
  ext x
  rw [mem_tried, Finset.mem_insert, mem_tried, hmem]
  by_cases hx : x = n
  · subst hx
    simp [hn, h]
  · simp [hx, hother x hx]

theorem tried_of_false (h : (m'.info n).fInTried = false) : m'.tried = m.tried.erase n := by
  ext x
  rw [mem_tried, Finset.mem_erase, mem_tried, hmem]
  by_cases hx : x = n
  · subst hx
    simp [h]
  · simp [hx, hother x hx]

theorem untried_of_true (h : (m'.info n).fInTried = true) : m'.untried = m.untried.erase n := by
  ext x
  rw [mem_untried, Finset.mem_erase, mem_untried, hmem]
  by_cases hx : x = n
  · subst hx
    simp [h]
  · simp [hx, hother x hx]

theorem untried_of_false (h : (m'.info n).fInTried = false) : m'.untried = insert n m.untried := by
  ext x
  rw [mem_untried, Finset.mem_insert, mem_untried, hmem]
  by_cases hx : x = n
  · subst hx
    simp [hn, h]
  · simp [hx, hother x hx]

end places

section fresh

variable {m : CAddrMan}

theorem tried_create (hi : Indexed m) (addr : CAddress) (source : CNetAddr) :
    (m.create addr source).tried = m.tried := by
  ext x
  rw [mem_tried, mem_tried, mem_create]
  by_cases hx : x = m.nIdCount
  · simp [hx, info_create_self, CAddrInfo.new, hi.idCount_notMem]
  · simp [hx, info_create_of_ne _ _ _ hx]

theorem untried_create (addr : CAddress) (source : CNetAddr) :
    (m.create addr source).untried = insert m.nIdCount m.untried := by
  ext x
  rw [mem_untried, Finset.mem_insert, mem_untried, mem_create]
  by_cases hx : x = m.nIdCount
  · simp [hx, info_create_self, CAddrInfo.new]
  · simp [hx, info_create_of_ne _ _ _ hx]

end fresh

namespace Placed

variable {env : AddrEnv} {m m' : CAddrMan} {limbo limbo' : Int → Prop} {dNew dTried dNew' dTried' : Int} {n : Int}

theorem limbo_imp (h : Placed env m limbo dNew dTried)
    (hlimbo : ∀ x ∈ m.mapInfo, limbo x → (m.info x).fInTried = false → (m.info x).nRefCount = 0 → limbo' x) :
    Placed env m limbo' dNew dTried :=
  { h with
    entry := fun x hx => { h.entry x hx with
      live := fun hl ht hr => by
        by_cases hlx : limbo x
        · exact hl (hlimbo x hx hlx ht hr)
        · exact (h.entry x hx).live hlx ht hr } }

theorem move (h : Placed env m limbo dNew dTried) (hmem : ∀ x, x ∈ m'.mapInfo ↔ x ∈ m.mapInfo) (hn : n ∈ m.mapInfo)
    (hother : ∀ x, x ≠ n → m'.info x = m.info x) (hserv : (m'.info n).toCService = (m.info n).toCService)
    (hkey : m'.nKey = m.nKey) (hlimbo : ∀ x, x ≠ n → limbo x → limbo' x) (hentry : EntryOk (¬ limbo' n) (m'.info n))
    (htried : ∀ p, m'.vvTried p = m.vvTried p ∨ m'.vvTried p = -1 ∨ m'.vvTried p = n ∧ m.triedPlace env n = p)
    (hnew : ∀ p, m'.vvNew p = m.vvNew p ∨ m'.vvNew p = -1 ∨ m'.vvNew p = n ∧ m.placeIn env n p.1 = p)
    (htriedOcc : ∀ x ∈ m.mapInfo, x ≠ n → occurs triedPlaces m'.vvTried x = occurs triedPlaces m.vvTried x)
    (htriedOcc' : occurs triedPlaces m'.vvTried n = if (m'.info n).fInTried then 1 else 0)
    (hnewOcc : ∀ x ∈ m.mapInfo, x ≠ n → occurs newPlaces m'.vvNew x = occurs newPlaces m.vvNew x)
    (hnewOcc' : (occurs newPlaces m'.vvNew n : Int) = (m'.info n).nRefCount)
    (hnewCount : (m'.untried.card : Int) = m'.nNew + dNew') (htriedCount : (m'.tried.card : Int) = m'.nTried + dTried') :
    Placed env m' limbo' dNew' dTried' := by
  have hservice : ∀ x, (m'.info x).toCService = (m.info x).toCService := fun x => by
    by_cases hx : x = n
    · rw [hx, hserv]
    · rw [hother x hx]
  refine ⟨fun hx => h.noId ((hmem _).mp hx), fun x hx => ?_, fun p hp => ?_, fun p hp => ?_, fun x hx => ?_,
    fun x hx => ?_, hnewCount, htriedCount, hkey ▸ h.key⟩
  · by_cases hxn : x = n
    · rw [hxn]
      exact hentry
    · rw [hother x hxn]
      have hx := h.entry x ((hmem x).mp hx)
      exact { hx with live := fun hl => hx.live fun hlx => hl (hlimbo x hxn hlx) }
  · rw [triedPlace_congr (hservice _) hkey, hmem]
    rcases htried p with he | he | ⟨he, hpl⟩
    · rw [he] at hp ⊢
      exact h.triedAt p hp
    · exact absurd he hp
    · rw [he]
      exact ⟨hn, hpl⟩
  · rw [placeIn_congr (hservice _) hkey, hmem]
    rcases hnew p with he | he | ⟨he, hpl⟩
    · rw [he] at hp ⊢
      exact h.newAt p hp
    · exact absurd he hp
    · rw [he]
      exact ⟨hn, hpl⟩
  · by_cases hxn : x = n
    · rw [hxn, htriedOcc']
    · rw [htriedOcc x ((hmem x).mp hx) hxn, hother x hxn]
      exact h.triedOnce x ((hmem x).mp hx)
  · by_cases hxn : x = n
    · rw [hxn, hnewOcc']
    · rw [hnewOcc x ((hmem x).mp hx) hxn, hother x hxn]
      exact h.refs x ((hmem x).mp hx)

theorem rewrite (h : Placed env m limbo dNew dTried) (hn : n ∈ m.mapInfo) (f : CAddrInfo → CAddrInfo)
    (hserv : (f (m.info n)).toCService = (m.info n).toCService) (hflag : (f (m.info n)).fInTried = (m.info n).fInTried)
    (href : (f (m.info n)).nRefCount = (m.info n).nRefCount) (hentry : EntryOk (¬ limbo n) (f (m.info n))) :
    Placed env (m.modify n f) limbo dNew dTried := by
  have hother := fun x hx => info_modify_of_ne m n f (x := x) hx
  have hflags : ∀ x ∈ m.mapInfo, ((m.modify n f).info x).fInTried = (m.info x).fInTried := fun x _ => by
    by_cases hx : x = n
    · rw [hx, info_modify_self, hflag]
    · rw [hother x hx]
  refine h.move (mem_modify m f hn) hn hother (by rw [info_modify_self, hserv]) rfl (fun _ _ => id)
    (by rwa [info_modify_self]) (fun p => .inl rfl) (fun p => .inl rfl) (fun _ _ _ => rfl) ?_ (fun _ _ _ => rfl) ?_ ?_ ?_
  · rw [info_modify_self, hflag]
    exact h.triedOnce n hn
  · rw [info_modify_self, href]
    exact h.refs n hn
  · rw [untried_congr (mem_modify m f hn) hflags]
    exact h.newCount
  · rw [tried_congr (mem_modify m f hn) hflags]
    exact h.triedCount

theorem shuffle (h : Placed env m limbo dNew dTried) (hs : Shuffled m m') : Placed env m' limbo dNew dTried := by
  have hserv : ∀ x, (m'.info x).toCService = (m.info x).toCService := fun x => by rw [hs.info x]
  have hflag : ∀ x, (m'.info x).fInTried = (m.info x).fInTried := fun x => by rw [hs.info x]
  have href : ∀ x, (m'.info x).nRefCount = (m.info x).nRefCount := fun x => by rw [hs.info x]
  have hkey : m'.nKey = m.nKey := by rw [hs.rest]
  have hvvNew : m'.vvNew = m.vvNew := by rw [hs.rest]
  have hvvTried : m'.vvTried = m.vvTried := by rw [hs.rest]
  refine ⟨fun hx => h.noId ((hs.mem _).mp hx), fun x hx => ?_, fun p hp => ?_, fun p hp => ?_, fun x hx => ?_,
    fun x hx => ?_, ?_, ?_, hkey ▸ h.key⟩
  · have hx := h.entry x ((hs.mem x).mp hx)
    rw [hs.info x]
    exact ⟨hx.tried_ref, hx.tried_success, hx.ref_le, hx.live, hx.lastTry, hx.lastSuccess⟩
  · rw [hvvTried] at hp ⊢
    rw [triedPlace_congr (hserv _) hkey, hs.mem]
    exact h.triedAt p hp
  · rw [hvvNew] at hp ⊢
    rw [placeIn_congr (hserv _) hkey, hs.mem]
    exact h.newAt p hp
  · rw [hvvTried, hflag]
    exact h.triedOnce x ((hs.mem x).mp hx)
  · rw [hvvNew, href]
    exact h.refs x ((hs.mem x).mp hx)
  · rw [untried_congr hs.mem fun x _ => hflag x, hs.rest]
    exact h.newCount
  · rw [tried_congr hs.mem fun x _ => hflag x, hs.rest]
    exact h.triedCount

end Placed

end CAddrMan

end DigiWage.Net
