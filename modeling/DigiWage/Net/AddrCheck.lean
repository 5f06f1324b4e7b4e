import DigiWage.Lib.Fallible
import DigiWage.Lib.Places
import DigiWage.Net.AddrMan

/-!
# The consistency check of the address manager

`CAddrMan::Check_`: a pass over `mapInfo` that collects the tried ids and the reference counts of the new ones, and a pass
over each table that takes off what it finds. The result is the error code, or success for zero. Looking up an address in
`mapAddr` adds it with id zero when it is not there; the lookups of later entries give zero for it either way.

* `Checked`: what it comes to, and `check_eq_ok_iff`: `Check_` returns zero exactly then.
-/

namespace DigiWage.Net

open Lib

/-- The places of the "new" table, bucket by bucket. -/
def newPlaces : List NewPlace := newBuckets.product (List.finRange 64)

/-- The places of the "tried" table. -/
def triedPlaces : List TriedPlace := (List.finRange 256).product (List.finRange 64)

theorem mem_newBuckets (b : Fin 1024) : b ∈ newBuckets := List.mem_finRange b

theorem mem_newPlaces (p : NewPlace) : p ∈ newPlaces :=
  List.mem_product.mpr ⟨mem_newBuckets _, List.mem_finRange _⟩

theorem mem_triedPlaces (p : TriedPlace) : p ∈ triedPlaces :=
  List.mem_product.mpr ⟨List.mem_finRange _, List.mem_finRange _⟩

theorem nodup_newPlaces : newPlaces.Nodup := (List.nodup_finRange _).product (List.nodup_finRange _)

theorem nodup_triedPlaces : triedPlaces.Nodup := (List.nodup_finRange _).product (List.nodup_finRange _)

theorem length_newPlaces : newPlaces.length = 65536 :=
  (List.length_product _ _).trans (by rw [newBuckets, List.length_finRange, List.length_finRange])

theorem length_triedPlaces : triedPlaces.length = 16384 :=
  (List.length_product _ _).trans (by rw [List.length_finRange, List.length_finRange])

namespace CAddrMan

/-! ## The check -/

/-- The sets that `Check_` collects: `setTried`, and `mapNew` with the reference counts. -/
abbrev CheckSets := Finset Int × Finmap fun _ : Int => Int

/-- One round of the loop over `mapInfo`. -/
def checkEntry (m : CAddrMan) (s : CheckSets) (n : Int) : Except Int CheckSets :=
  let info := m.info n
  if info.fInTried ∧ info.nLastSuccess = 0 then .error (-1)
  else if info.fInTried ∧ info.nRefCount ≠ 0 then .error (-2)
  else if ¬ info.fInTried ∧ (info.nRefCount < 0 ∨ 8 < info.nRefCount) then .error (-3)
  else if ¬ info.fInTried ∧ info.nRefCount = 0 then .error (-4)
  else
    let s := if info.fInTried then (insert n s.1, s.2) else (s.1, s.2.insert n info.nRefCount)
    if (m.mapAddr.lookup info.toCNetAddr).getD 0 ≠ n then .error (-5)
    else if info.nRandomPos < 0 ∨ m.vRandom.length ≤ info.nRandomPos ∨ m.vRandom.getD info.nRandomPos.toNat 0 ≠ n then
      .error (-14)
    else if info.nLastTry < 0 then .error (-6)
    else if info.nLastSuccess < 0 then .error (-8)
    else .ok s

section check

variable (env : AddrEnv) (m : CAddrMan)

/-- One round of the loop over `vvTried`. -/
def checkTried (setTried : Finset Int) (p : TriedPlace) : Except Int (Finset Int) :=
  if m.vvTried p = -1 then .ok setTried
  else if m.vvTried p ∉ setTried then .error (-11)
  else if CAddrInfo.getTriedBucket env m.nKey (m.info (m.vvTried p)).toCService ≠ p.1 then .error (-17)
  else if CAddrInfo.getBucketPosition env m.nKey false p.1 (m.info (m.vvTried p)).toCService ≠ p.2 then .error (-18)
  else .ok (setTried.erase (m.vvTried p))

/-- One round of the loop over `vvNew`. -/
def checkNew (mapNew : Finmap fun _ : Int => Int) (p : NewPlace) : Except Int (Finmap fun _ : Int => Int) :=
  if m.vvNew p = -1 then .ok mapNew
  else if m.vvNew p ∉ mapNew then .error (-12)
  else if CAddrInfo.getBucketPosition env m.nKey true p.1 (m.info (m.vvNew p)).toCService ≠ p.2 then .error (-19)
  else
    let n := (mapNew.lookup (m.vvNew p)).getD 0 - 1
    .ok (if n = 0 then mapNew.erase (m.vvNew p) else mapNew.insert (m.vvNew p) n)

def check : Except Int Unit :=
  if (m.vRandom.length : Int) ≠ m.nTried + m.nNew then .error (-7)
  else do
    let s ← m.ids.foldlM (checkEntry m) (∅, ∅)
    if (s.1.card : Int) ≠ m.nTried then .error (-9)
    else if (s.2.keys.card : Int) ≠ m.nNew then .error (-10)
    else do
      let setTried ← triedPlaces.foldlM (checkTried env m) s.1
      let mapNew ← newPlaces.foldlM (checkNew env m) s.2
      if setTried.card ≠ 0 then .error (-13)
      else if mapNew.keys.card ≠ 0 then .error (-15)
      else if m.nKey = 0 then .error (-16)
      else .ok ()

end check

/-! ## What it comes to -/

/-- The ids of the entries that are in the "tried" table. -/
def tried (m : CAddrMan) : Finset Int := m.mapInfo.keys.filter fun n => (m.info n).fInTried

/-- The ids of the other entries. -/
def untried (m : CAddrMan) : Finset Int := m.mapInfo.keys.filter fun n => ¬ (m.info n).fInTried

/-- What `Check_` asks of an entry. -/
structure EntryFine (m : CAddrMan) (n : Int) : Prop where
  success : (m.info n).fInTried → (m.info n).nLastSuccess ≠ 0
  tried_ref : (m.info n).fInTried → (m.info n).nRefCount = 0
  ref_pos : ¬ (m.info n).fInTried → 0 < (m.info n).nRefCount
  ref_le : ¬ (m.info n).fInTried → (m.info n).nRefCount ≤ 8
  addr : (m.mapAddr.lookup (m.info n).toCNetAddr).getD 0 = n
  pos_nonneg : 0 ≤ (m.info n).nRandomPos
  pos_lt : (m.info n).nRandomPos < m.vRandom.length
  random : m.vRandom.getD (m.info n).nRandomPos.toNat 0 = n
  lastTry : ¬ (m.info n).nLastTry < 0
  lastSuccess : ¬ (m.info n).nLastSuccess < 0

/-- What `Check_` asks of the manager. -/
structure Checked (env : AddrEnv) (m : CAddrMan) : Prop where
  size : (m.vRandom.length : Int) = m.nTried + m.nNew
  entry : ∀ n ∈ m.mapInfo, m.EntryFine n
  triedCount : (m.tried.card : Int) = m.nTried
  newCount : (m.untried.card : Int) = m.nNew
  noId : -1 ∉ m.mapInfo
  triedAt : ∀ p, m.vvTried p ≠ -1 → m.triedPlace env (m.vvTried p) = p
  triedOnce : ∀ n ≠ -1, occurs triedPlaces m.vvTried n = if n ∈ m.tried then 1 else 0
  newAt : ∀ p, m.vvNew p ≠ -1 → m.placeIn env (m.vvNew p) p.1 = p
  refs : ∀ n ≠ -1, (occurs newPlaces m.vvNew n : Int) = if n ∈ m.untried then (m.info n).nRefCount else 0
  key : m.nKey ≠ 0

/-! ## The loop over the entries -/

section entries

variable (m : CAddrMan)

/-- What a round over `mapInfo` that finds no error makes of the sets. -/
def collect (s : CheckSets) (n : Int) : CheckSets :=
  if (m.info n).fInTried then (insert n s.1, s.2) else (s.1, s.2.insert n (m.info n).nRefCount)

theorem checkEntry_eq_ok (s : CheckSets) (n : Int) (s' : CheckSets) :
    checkEntry m s n = .ok s' ↔ m.EntryFine n ∧ s' = m.collect s n := by
  unfold checkEntry
  simp only [guard_eq_ok, Except.ok.injEq]
  constructor
  · rintro ⟨h1, h2, h3, h4, h5, h6, h7, h8, rfl⟩
    refine ⟨⟨fun ht h => h1 ⟨ht, h⟩, fun ht => ?_, fun ht => ?_, fun ht => ?_, not_not.mp h5, ?_, ?_, ?_, h7, h8⟩, rfl⟩
    · by_contra h
      exact h2 ⟨ht, h⟩
    · by_contra h
      rcases Int.lt_or_eq_of_le (Int.not_lt.mp h) with h | h
      · exact h3 ⟨ht, .inl h⟩
      · exact h4 ⟨ht, h⟩
    · by_contra h
      exact h3 ⟨ht, .inr (Int.not_le.mp h)⟩
    · omega
    · omega
    · by_contra h
      exact h6 (.inr (.inr h))
  · rintro ⟨h, rfl⟩
    refine ⟨fun h' => h.success h'.1 h'.2, fun h' => h'.2 (h.tried_ref h'.1), fun h' => ?_, fun h' => ?_,
      not_not.mpr h.addr, ?_, h.lastTry, h.lastSuccess, rfl⟩
    · have := h.ref_pos h'.1
      have := h.ref_le h'.1
      omega
    · have := h.ref_pos h'.1
      omega
    · rintro (h' | h' | h')
      · exact absurd h' (Int.not_lt.mpr h.pos_nonneg)
      · exact absurd h' (Int.not_le.mpr h.pos_lt)
      · exact h' h.random

theorem foldl_collect (l : List Int) (s : CheckSets) :
    (∀ n, n ∈ (l.foldl m.collect s).1 ↔ n ∈ s.1 ∨ n ∈ l ∧ (m.info n).fInTried) ∧
      ∀ n, (l.foldl m.collect s).2.lookup n =
        if n ∈ l ∧ ¬ (m.info n).fInTried then some (m.info n).nRefCount else s.2.lookup n := by
  induction l generalizing s with
  | nil => simp
  | cons a l ih =>
    obtain ⟨h1, h2⟩ := ih (m.collect s a)
    rw [List.foldl_cons]
    refine ⟨fun n => ?_, fun n => ?_⟩
    · rw [h1, collect]
      by_cases hna : n = a
      · subst hna
        cases (m.info n).fInTried <;> simp
      · cases (m.info a).fInTried <;> simp [hna]
    · rw [h2, collect]
      by_cases hna : n = a
      · subst hna
        cases (m.info n).fInTried <;> simp
      · cases (m.info a).fInTried <;> simp [hna, Finmap.lookup_insert_of_ne]

theorem mem_ids (n : Int) : n ∈ m.ids ↔ n ∈ m.mapInfo := by simp [ids, Finmap.mem_keys]

theorem mem_tried (n : Int) : n ∈ m.tried ↔ n ∈ m.mapInfo ∧ (m.info n).fInTried = true := by
  simp [tried, Finmap.mem_keys]

theorem mem_untried (n : Int) : n ∈ m.untried ↔ n ∈ m.mapInfo ∧ (m.info n).fInTried = false := by
  simp [untried, Finmap.mem_keys]

theorem collected_tried : (m.ids.foldl m.collect (∅, ∅)).1 = m.tried := by
  ext n
  rw [(foldl_collect m m.ids (∅, ∅)).1 n, mem_tried, mem_ids]
  simp

theorem collected_lookup (n : Int) : (m.ids.foldl m.collect (∅, ∅)).2.lookup n =
    if n ∈ m.untried then some (m.info n).nRefCount else none := by
  rw [(foldl_collect m m.ids (∅, ∅)).2 n]
  simp [mem_untried, mem_ids]

theorem collected_untried : (m.ids.foldl m.collect (∅, ∅)).2.keys = m.untried := by
  ext n
  rw [Finmap.mem_keys, ← Finmap.lookup_isSome, collected_lookup]
  by_cases h : n ∈ m.untried <;> simp [h]

end entries

/-! ## The loops over the tables -/

/-- The id at a place, if there is one. -/
def entryAt (v : Int) : Option Int := if v = -1 then none else some v

theorem entryAt_eq_some {v n : Int} : entryAt v = some n ↔ v = n ∧ n ≠ -1 := by
  unfold entryAt
  split <;> simp_all
  rintro rfl
  assumption

theorem entryAt_eq_none {v : Int} : entryAt v = none ↔ v = -1 := by simp [entryAt]

section tables

variable {ι : Type}

theorem occurs_entryAt (l : List ι) (f : ι → Int) (n : Int) :
    occurs l (fun p => entryAt (f p)) (some n) = if n = -1 then 0 else occurs l f n := by
  induction l with
  | nil => simp
  | cons p l ih =>
    rw [occurs_cons, occurs_cons, ih]
    by_cases hn : n = -1 <;> simp [entryAt_eq_some, hn]

variable (env : AddrEnv) (m : CAddrMan)

theorem takes_checkTried : Takes (fun _ : Finset Int => True) (fun p => entryAt (m.vvTried p))
    (fun p => m.triedPlace env (m.vvTried p) = p) (fun s n => if n ∈ s then 1 else 0) (checkTried env m) where
  skip s p hp := if_pos (entryAt_eq_none.mp hp)
  take s p n _ hp hright hn := by
    obtain ⟨rfl, hne⟩ := entryAt_eq_some.mp hp
    have hmem : m.vvTried p ∈ s := by
      by_contra h
      simp [h] at hn
    have hbucket := congrArg Prod.fst hright
    have hpos := congrArg Prod.snd hright
    simp only [triedPlace] at hbucket hpos
    rw [hbucket] at hpos
    refine ⟨s.erase (m.vvTried p), ?_, trivial, fun n => ?_⟩
    · rw [checkTried, if_neg hne, if_neg (not_not.mpr hmem), if_neg (not_not.mpr hbucket), if_neg (not_not.mpr hpos)]
    · by_cases h : m.vvTried p = n
      · subst h
        simp [hmem]
      · simp [h, Ne.symm h]
  fail s p n s' _ hp h := by
    obtain ⟨rfl, hne⟩ := entryAt_eq_some.mp hp
    rw [checkTried, if_neg hne] at h
    simp only [guard_eq_ok, not_not] at h
    obtain ⟨hmem, hbucket, hpos, -⟩ := h
    refine ⟨?_, by simp [hmem]⟩
    rw [triedPlace, hbucket]
    exact Prod.ext rfl hpos

theorem takes_checkNew : Takes (fun s : Finmap fun _ : Int => Int => ∀ n v, s.lookup n = some v → 0 < v)
    (fun p => entryAt (m.vvNew p)) (fun p => m.placeIn env (m.vvNew p) p.1 = p) (fun s n => ((s.lookup n).getD 0).toNat)
    (checkNew env m) where
  skip s p hp := if_pos (entryAt_eq_none.mp hp)
  take s p n hv hp hright hn := by
    obtain ⟨rfl, hne⟩ := entryAt_eq_some.mp hp
    obtain ⟨v, hlook⟩ : ∃ v, s.lookup (m.vvNew p) = some v := by
      rw [← Option.ne_none_iff_exists']
      intro h
      simp [h] at hn
    have hv0 := hv _ _ hlook
    have hpos : CAddrInfo.getBucketPosition env m.nKey true p.1 (m.info (m.vvNew p)).toCService = p.2 :=
      congrArg Prod.snd hright
    have hstep : checkNew env m s p =
        .ok (if v - 1 = 0 then s.erase (m.vvNew p) else s.insert (m.vvNew p) (v - 1)) := by
      rw [checkNew, if_neg hne, if_neg (not_not.mpr (Finmap.mem_of_lookup_eq_some hlook)), if_neg (not_not.mpr hpos),
        hlook, Option.getD_some]
    refine ⟨_, hstep, fun n w hw => ?_, fun n => ?_⟩
    · split at hw
      · by_cases h : n = m.vvNew p
        · subst h
          rw [Finmap.lookup_erase] at hw
          cases hw
        · exact hv n w (by rwa [Finmap.lookup_erase_ne h] at hw)
      · by_cases h : n = m.vvNew p
        · subst h
          rw [Finmap.lookup_insert] at hw
          cases hw
          omega
        · exact hv n w (by rwa [Finmap.lookup_insert_of_ne _ h] at hw)
    · by_cases h : m.vvNew p = n
      · subst h
        split
        · simp [hlook]
          omega
        · simp [hlook]
          omega
      · rw [if_neg h]
        split
        · simp [Finmap.lookup_erase_ne (Ne.symm h)]
        · simp [Finmap.lookup_insert_of_ne _ (Ne.symm h)]
  fail s p n s' hv hp h := by
    obtain ⟨rfl, hne⟩ := entryAt_eq_some.mp hp
    rw [checkNew, if_neg hne] at h
    simp only [guard_eq_ok, not_not] at h
    obtain ⟨hmem, hpos, -⟩ := h
    obtain ⟨v, hlook⟩ := Finmap.mem_iff.mp hmem
    refine ⟨Prod.ext rfl hpos, ?_⟩
    have := hv _ _ hlook
    simp [hlook, this]

theorem checkTried_loop_iff : (∃ s, triedPlaces.foldlM (checkTried env m) m.tried = .ok s ∧ s.card = 0) ↔
    -1 ∉ m.tried ∧ (∀ p, m.vvTried p ≠ -1 → m.triedPlace env (m.vvTried p) = p) ∧
      ∀ n ≠ -1, occurs triedPlaces m.vvTried n = if n ∈ m.tried then 1 else 0 := by
  have hentries : ∀ n, occurs triedPlaces (fun p => entryAt (m.vvTried p)) (some n) =
      if n = -1 then 0 else occurs triedPlaces m.vvTried n := occurs_entryAt _ _
  constructor
  · rintro ⟨s, hs, hempty⟩
    obtain ⟨-, hright, hocc⟩ := (takes_checkTried env m).foldlM_ok triedPlaces trivial hs
    rw [Finset.card_eq_zero] at hempty
    simp only [hentries, hempty, Finset.notMem_empty, if_false] at hocc
    refine ⟨fun hmem => ?_, fun p hp => ?_, fun n hn => ?_⟩
    · have := hocc (-1)
      simp [hmem] at this
    · exact hright p (mem_triedPlaces p) (by simpa [entryAt_eq_none] using hp)
    · have := hocc n
      rw [if_neg hn] at this
      omega
  · rintro ⟨hnoId, hat, honce⟩
    have hone : ∀ n, occurs triedPlaces (fun p => entryAt (m.vvTried p)) (some n) = if n ∈ m.tried then 1 else 0 := by
      intro n
      rw [hentries]
      split
      · rename_i hn
        rw [if_neg (by rwa [hn])]
      · exact honce n ‹_›
    obtain ⟨s, hs⟩ := (takes_checkTried env m).exists_ok triedPlaces (s := m.tried) trivial
      (fun p _ hp => hat p (by simpa [entryAt_eq_none] using hp)) (fun n => (hone n).le)
    obtain ⟨-, -, hocc⟩ := (takes_checkTried env m).foldlM_ok triedPlaces trivial hs
    refine ⟨s, hs, ?_⟩
    rw [Finset.card_eq_zero, Finset.eq_empty_iff_forall_notMem]
    intro n hn
    have := hocc n
    rw [hone, if_pos hn] at this
    omega

/-- The loop over `vvNew` ends with no count left exactly when every id is at a place of its own, and each one that is not
tried occurs as often as it is counted. -/
theorem checkNew_loop_iff (hentry : ∀ n ∈ m.mapInfo, m.EntryFine n) :
    (∃ s, newPlaces.foldlM (checkNew env m) (m.ids.foldl m.collect (∅, ∅)).2 = .ok s ∧ s.keys.card = 0) ↔
      -1 ∉ m.untried ∧ (∀ p, m.vvNew p ≠ -1 → m.placeIn env (m.vvNew p) p.1 = p) ∧
        ∀ n ≠ -1, (occurs newPlaces m.vvNew n : Int) = if n ∈ m.untried then (m.info n).nRefCount else 0 := by
  have hentries : ∀ n, occurs newPlaces (fun p => entryAt (m.vvNew p)) (some n) =
      if n = -1 then 0 else occurs newPlaces m.vvNew n := occurs_entryAt _ _
  have href_pos : ∀ n ∈ m.untried, 0 < (m.info n).nRefCount := by
    intro n hn
    rw [mem_untried] at hn
    exact (hentry n hn.1).ref_pos (by simp [hn.2])
  have hvalid : ∀ n v, (m.ids.foldl m.collect (∅, ∅)).2.lookup n = some v → 0 < v := by
    intro n v hv
    rw [collected_lookup] at hv
    split at hv
    · rename_i hn
      cases hv
      exact href_pos n hn
    · cases hv
  have hrefs : ∀ n, ((m.ids.foldl m.collect (∅, ∅)).2.lookup n).getD 0 =
      if n ∈ m.untried then (m.info n).nRefCount else 0 := by
    intro n
    rw [collected_lookup]
    split <;> rfl
  constructor
  · rintro ⟨s, hs, hempty⟩
    obtain ⟨-, hright, hocc⟩ := (takes_checkNew env m).foldlM_ok newPlaces hvalid hs
    rw [Finset.card_eq_zero] at hempty
    have hlook : ∀ n, s.lookup n = none := by
      intro n
      rw [Finmap.lookup_eq_none, ← Finmap.mem_keys, hempty]
      exact Finset.notMem_empty n
    simp only [hentries, hlook, hrefs, Option.getD_none, Int.toNat_zero] at hocc
    refine ⟨fun hmem => ?_, fun p hp => ?_, fun n hn => ?_⟩
    · have hcount := hocc (-1)
      have := href_pos _ hmem
      rw [if_pos rfl, if_pos hmem] at hcount
      omega
    · exact hright p (mem_newPlaces p) (by simpa [entryAt_eq_none] using hp)
    · have hcount := hocc n
      rw [if_neg hn] at hcount
      split
      · rename_i hun
        rw [if_pos hun] at hcount
        have := href_pos n hun
        omega
      · rename_i hun
        rw [if_neg hun] at hcount
        omega
  · rintro ⟨hnoId, hat, hcounts⟩
    have href : ∀ n, occurs newPlaces (fun p => entryAt (m.vvNew p)) (some n) =
        (if n ∈ m.untried then (m.info n).nRefCount else 0).toNat := by
      intro n
      rw [hentries]
      split
      · rename_i hn
        rw [if_neg (by rwa [hn])]
        rfl
      · have := hcounts n ‹_›
        omega
    obtain ⟨s, hs⟩ := (takes_checkNew env m).exists_ok newPlaces hvalid
      (fun p _ hp => hat p (by simpa [entryAt_eq_none] using hp)) (fun n => by rw [hrefs, href])
    obtain ⟨hvalid', -, hocc⟩ := (takes_checkNew env m).foldlM_ok newPlaces hvalid hs
    refine ⟨s, hs, ?_⟩
    rw [Finset.card_eq_zero, Finset.eq_empty_iff_forall_notMem]
    intro n hn
    obtain ⟨v, hv⟩ := Finmap.mem_iff.mp (Finmap.mem_keys.mp hn)
    have hcount := hocc n
    rw [hrefs, href, hv, Option.getD_some] at hcount
    have := hvalid' n v hv
    omega

end tables

/-! ## The whole check -/

theorem noId_iff (m : CAddrMan) : -1 ∉ m.mapInfo ↔ -1 ∉ m.tried ∧ -1 ∉ m.untried := by
  rw [mem_tried, mem_untried]
  cases (m.info (-1)).fInTried <;> simp

theorem check_eq_ok_iff (env : AddrEnv) (m : CAddrMan) : check env m = .ok () ↔ m.Checked env := by
  unfold check
  simp only [guard_eq_ok, not_not, bind_eq_ok_iff, foldlM_eq_ok (checkEntry_eq_ok m)]
  constructor
  · rintro ⟨hsize, s, ⟨hentry, rfl⟩, hcount, hcount', s1, hs1, s2, hs2, hempty, hempty', hkey, -⟩
    simp only [mem_ids] at hentry
    rw [collected_tried] at hcount hs1
    rw [collected_untried] at hcount'
    obtain ⟨hnoId, hat, honce⟩ := (checkTried_loop_iff env m).mp ⟨s1, hs1, hempty⟩
    obtain ⟨hnoId', hat', hcounts⟩ := (checkNew_loop_iff env m hentry).mp ⟨s2, hs2, hempty'⟩
    exact ⟨hsize, hentry, hcount, hcount', m.noId_iff.mpr ⟨hnoId, hnoId'⟩, hat, honce, hat', hcounts, hkey⟩
  · intro h
    obtain ⟨hnoId, hnoId'⟩ := m.noId_iff.mp h.noId
    obtain ⟨s1, hs1, hempty⟩ := (checkTried_loop_iff env m).mpr ⟨hnoId, h.triedAt, h.triedOnce⟩
    obtain ⟨s2, hs2, hempty'⟩ := (checkNew_loop_iff env m h.entry).mpr ⟨hnoId', h.newAt, h.refs⟩
    refine ⟨h.size, _, ⟨fun n hn => h.entry n ((m.mem_ids n).mp hn), rfl⟩, ?_, ?_, s1, ?_, s2, hs2, hempty, hempty', h.key,
      trivial⟩
    · rw [collected_tried]
      exact h.triedCount
    · rw [collected_untried]
      exact h.newCount
    · rw [collected_tried]
      exact hs1

end CAddrMan

end DigiWage.Net
