import DigiWage.Coins.Basic
import DigiWage.Lib.WriteBack
import Mathlib.Data.List.AList

/-!
# The stack of coins caches

`CCoinsViewCache` of `coins.cpp`: a map from txids to entries with a DIRTY and a FRESH flag, over another cache or
over the database of `txdb.cpp`. Reading fills the caches on the way down, so every operation returns the new stack;
an operation returns `none` when an assertion of the source fails.

The specification is a stack of plain maps from txids to `CCoins`, one for each layer, in which pruned and absent
entries are the same (`CCoins.beq`).

* `Shows v ms` is the invariant: the flags of each layer fit what the layer below shows.
* Each operation keeps it (`getCoins_shows`, `modifyCoins_shows`, `flush_shows`, …), so every run of operations does
  (`run_shows`).
* `stack_refines` puts this in terms of lookups.
-/

namespace DigiWage

open Lib.WriteBack

/-! ## The caches -/

/-- `CCoinsCacheEntry`: the coins, and the flags DIRTY and FRESH. -/
abbrev CCoinsCacheEntry := Entry CCoins

abbrev CCoinsMap := AList fun _ : Uint256 => CCoinsCacheEntry

/-- `CCoinsViewDB`: the records of the database. -/
structure CCoinsViewDB where
  coins : Uint256 → Option CCoins
  hashBlock : Uint256

structure CCoinsViewCache where
  hasModifier : Bool
  hashBlock : Uint256
  cacheCoins : CCoinsMap

/-- A view: the database, or a cache with its base. -/
inductive CCoinsView where
  | db (d : CCoinsViewDB)
  | cache (c : CCoinsViewCache) (base : CCoinsView)

namespace CCoinsViewCache

/-- `CCoinsViewCache(base)`. -/
def new : CCoinsViewCache := ⟨false, 0, ∅⟩

/-- The end of `FetchCoins`: keep what the base returned, as fresh when it is pruned. -/
def fill (c : CCoinsViewCache) (txid : Uint256) (tmp : CCoins) : CCoinsViewCache :=
  { c with cacheCoins := c.cacheCoins.insert txid ⟨tmp, false, tmp.isPruned⟩ }

/-- `ModifyCoins` on the entry it found or made, the edit, and `~CCoinsModifier`. -/
def modifyEntry (c : CCoinsViewCache) (txid : Uint256) (e : CCoinsCacheEntry) (edit : CCoins → CCoins) :
    CCoinsViewCache :=
  let coins := (edit e.val).cleanup
  if e.fresh && coins.isPruned then { c with cacheCoins := c.cacheCoins.erase txid }
  else { c with cacheCoins := c.cacheCoins.insert txid ⟨coins, true, e.fresh⟩ }

/-- The body of the loop of `BatchWrite`; `none` when its assertion fails. -/
def writeEntry (cacheCoins : CCoinsMap) (txid : Uint256) (it : CCoinsCacheEntry) : Option CCoinsMap :=
  if it.dirty then
    match cacheCoins.lookup txid with
    | none =>
      if !it.val.isPruned then
        if it.fresh then some (cacheCoins.insert txid ⟨it.val, true, true⟩) else none
      else some cacheCoins
    | some itUs =>
      if itUs.fresh && it.val.isPruned then some (cacheCoins.erase txid)
      else some (cacheCoins.insert txid ⟨it.val, true, itUs.fresh⟩)
  else some cacheCoins

end CCoinsViewCache

/-- The body of the loop of `CCoinsViewDB::BatchWrite`, with `BatchWriteCoins`. -/
def CCoinsViewDB.writeEntry (coins : Uint256 → Option CCoins) (txid : Uint256) (it : CCoinsCacheEntry) :
    Uint256 → Option CCoins :=
  if it.dirty then Function.update coins txid (if it.val.isPruned then none else some it.val) else coins

namespace CCoinsView

/-- `GetCoins`, which is `FetchCoins` on a cache. `AccessCoins` returns the same entry. -/
def getCoins : CCoinsView → Uint256 → Option CCoins × CCoinsView
  | db d, txid => (d.coins txid, db d)
  | cache c base, txid =>
    match c.cacheCoins.lookup txid with
    | some e => (some e.val, cache c base)
    | none =>
      match getCoins base txid with
      | (none, base') => (none, cache c base')
      | (some tmp, base') => (some tmp, cache (c.fill txid tmp) base')

def haveCoins (v : CCoinsView) (txid : Uint256) : Bool × CCoinsView :=
  match v with
  | db d => ((d.coins txid).isSome, db d)
  | cache c base =>
    match getCoins (cache c base) txid with
    | (none, v') => (false, v')
    | (some coins, v') => (!coins.vout.isEmpty, v')

/-- `ModifyCoins`, an edit of the entry, and `~CCoinsModifier`; only caches have it. -/
def modifyCoins (v : CCoinsView) (txid : Uint256) (edit : CCoins → CCoins) : Option CCoinsView :=
  match v with
  | db _ => none
  | cache c base =>
    if c.hasModifier then none
    else
      match c.cacheCoins.lookup txid with
      | some e => some (cache (c.modifyEntry txid e edit) base)
      | none =>
        match getCoins base txid with
        | (none, base') => some (cache (c.modifyEntry txid ⟨CCoins.empty, false, true⟩ edit) base')
        | (some coins, base') => some (cache (c.modifyEntry txid ⟨coins, false, coins.isPruned⟩ edit) base')

def getBestBlock : CCoinsView → Uint256 × CCoinsView
  | db d => (d.hashBlock, db d)
  | cache c base =>
    if c.hashBlock = 0 then
      let r := getBestBlock base
      (r.1, cache { c with hashBlock := r.1 } r.2)
    else (c.hashBlock, cache c base)

/-- `SetBestBlock`; only caches have it. -/
def setBestBlock (v : CCoinsView) (hashBlockIn : Uint256) : Option CCoinsView :=
  match v with
  | db _ => none
  | cache c base => some (cache { c with hashBlock := hashBlockIn } base)

/-- `BatchWrite`; `none` when an assertion fails. -/
def batchWrite (v : CCoinsView) (mapCoins : CCoinsMap) (hashBlockIn : Uint256) : Option CCoinsView :=
  match v with
  | db d =>
    some (db ⟨mapCoins.entries.foldl (fun m kv => CCoinsViewDB.writeEntry m kv.1 kv.2) d.coins,
      if hashBlockIn = 0 then d.hashBlock else hashBlockIn⟩)
  | cache c base =>
    if c.hasModifier then none
    else
      match mapCoins.entries.foldlM (fun m kv => CCoinsViewCache.writeEntry m kv.1 kv.2) c.cacheCoins with
      | none => none
      | some cacheCoins => some (cache { c with hashBlock := hashBlockIn, cacheCoins := cacheCoins } base)

def flush (v : CCoinsView) : Option CCoinsView :=
  match v with
  | db _ => none
  | cache c base =>
    match batchWrite base c.cacheCoins c.hashBlock with
    | none => none
    | some base' => some (cache { c with cacheCoins := ∅ } base')

/-- The stack after a read (of the given layer) in the layer `depth` below the top. -/
def readAt (read : CCoinsView → CCoinsView) : CCoinsView → Nat → CCoinsView
  | v, 0 => read v
  | db d, _ + 1 => db d
  | cache c base, depth + 1 => cache c (readAt read base depth)

/-- The view below. -/
def base : CCoinsView → CCoinsView
  | db d => db d
  | cache _ b => b

/-- What the view shows for a txid; an absent entry shows the empty `CCoins()`. -/
def shown (v : CCoinsView) (txid : Uint256) : CCoins := (v.getCoins txid).1.getD CCoins.empty

/-- The layer has an entry of its own for the txid. -/
def Holds : CCoinsView → Uint256 → Prop
  | db _, _ => True
  | cache c _, txid => (c.cacheCoins.lookup txid).isSome = true

end CCoinsView

/-! ## Runs -/

/-- The operations on a stack: reads of any layer, and changes of the top. -/
inductive CoinsOp where
  | getCoins (depth : Nat) (txid : Uint256)
  | haveCoins (depth : Nat) (txid : Uint256)
  | modifyCoins (txid : Uint256) (edit : CCoins → CCoins)
  | getBestBlock
  | setBestBlock (hashBlock : Uint256)
  | push
  | flush
  | pop

/-- One operation. -/
def CoinsOp.step (v : CCoinsView) : CoinsOp → Option CCoinsView
  | getCoins depth txid => some (CCoinsView.readAt (fun v => (v.getCoins txid).2) v depth)
  | haveCoins depth txid => some (CCoinsView.readAt (fun v => (v.haveCoins txid).2) v depth)
  | modifyCoins txid edit => v.modifyCoins txid edit
  | getBestBlock => some v.getBestBlock.2
  | setBestBlock hashBlock => v.setBestBlock hashBlock
  | push => some (.cache .new v)
  | flush => v.flush
  | pop => match v with
    | .db _ => none
    | .cache _ base => some base

/-- A run of operations; `none` when an assertion fails or there is no cache to work on. -/
def runCoins (v : CCoinsView) (ops : List CoinsOp) : Option CCoinsView := ops.foldlM CoinsOp.step v

/-- A plain map from txids to coins. -/
abbrev CoinsMap := Uint256 → CCoins

/-- The operation on the stack of plain maps; the last one is the database. -/
def CoinsOp.specStep : List CoinsMap → CoinsOp → Option (List CoinsMap)
  | m :: m' :: ms, modifyCoins txid edit => some (Function.update m txid (edit (m txid)).cleanup :: m' :: ms)
  | m :: m' :: ms, setBestBlock _ => some (m :: m' :: ms)
  | m :: ms, push => some (m :: m :: ms)
  | m :: _ :: ms, flush => some (m :: m :: ms)
  | _ :: m' :: ms, pop => some (m' :: ms)
  | ms, getCoins _ _ => some ms
  | ms, haveCoins _ _ => some ms
  | ms, getBestBlock => some ms
  | _, _ => none

/-- The run of the plain maps; `none` when there is no cache to work on. -/
def specCoins (ms : List CoinsMap) (ops : List CoinsOp) : Option (List CoinsMap) := ops.foldlM CoinsOp.specStep ms

/-! ## The invariant -/

theorem beq_iff_same {a b : CCoins} : CCoins.beq a b = true ↔ Same CCoins.isPruned a b := by
  by_cases h : a.isPruned = true ∧ b.isPruned = true
  · exact ⟨fun _ => Or.inr h, fun _ => CCoins.beq_of_isPruned h.1 h.2⟩
  · have h' : a.isPruned = false ∨ b.isPruned = false := by
      rw [not_and_or, Bool.not_eq_true, Bool.not_eq_true] at h
      exact h
    rw [CCoins.beq_true_iff h']
    exact ⟨Or.inl, fun hs => hs.resolve_right h⟩

/-- No entry of the cache ends in a null output. -/
def CCoinsMap.Tidy (m : CCoinsMap) : Prop := ∀ txid e, m.lookup txid = some e → e.val.cleanup = e.val

/-- The stack shows the plain maps. -/
def Shows : CCoinsView → List CoinsMap → Prop
  | .db d, [m] => ∀ txid, Same CCoins.isPruned ((d.coins txid).getD CCoins.empty) (m txid) ∧
      ∀ c, d.coins txid = some c → c.cleanup = c
  | .cache c base, m :: m' :: ms => c.hasModifier = false ∧ c.cacheCoins.Tidy ∧
      (∀ txid, Slot CCoins.isPruned (base.Holds txid) (c.cacheCoins.lookup txid) (m' txid) (m txid)) ∧
      Shows base (m' :: ms)
  | _, _ => False

theorem lookup_insert_eq (m : CCoinsMap) (txid : Uint256) (e : CCoinsCacheEntry) (t : Uint256) :
    (m.insert txid e).lookup t = if t = txid then some e else m.lookup t := by
  split
  · rename_i h
    subst h
    exact AList.lookup_insert m
  · rename_i h
    exact AList.lookup_insert_ne h

theorem lookup_erase_eq (m : CCoinsMap) (txid t : Uint256) :
    (m.erase txid).lookup t = if t = txid then none else m.lookup t := by
  split
  · rename_i h
    subst h
    exact AList.lookup_erase _ _
  · rename_i h
    exact AList.lookup_erase_ne h

theorem CCoinsMap.Tidy.insert {m : CCoinsMap} (h : m.Tidy) (txid : Uint256) {e : CCoinsCacheEntry}
    (he : e.val.cleanup = e.val) : CCoinsMap.Tidy (m.insert txid e) := by
  intro t e' ht
  rw [lookup_insert_eq] at ht
  split at ht
  · cases ht
    exact he
  · exact h t e' ht

theorem CCoinsMap.Tidy.erase {m : CCoinsMap} (h : m.Tidy) (txid : Uint256) : CCoinsMap.Tidy (m.erase txid) := by
  intro t e' ht
  rw [lookup_erase_eq] at ht
  split at ht
  · cases ht
  · exact h t e' ht

theorem CCoins.cleanup_cleanup (c : CCoins) : c.cleanup.cleanup = c.cleanup := by
  simp [CCoins.cleanup, List.rdropWhile_idempotent]

/-! ## Reading -/

/-- Reading changes nothing that is shown, and leaves an entry in every layer it went through. -/
theorem getCoins_shows (txid : Uint256) : ∀ {v : CCoinsView} {m : CoinsMap} {ms : List CoinsMap}, Shows v (m :: ms) →
    Shows (v.getCoins txid).2 (m :: ms) ∧ Same CCoins.isPruned (v.shown txid) (m txid) ∧
      (∀ c, (v.getCoins txid).1 = some c → c.cleanup = c ∧ (v.getCoins txid).2.Holds txid) ∧
      ∀ t, v.Holds t → (v.getCoins txid).2.Holds t
  | .db d, m, ms, h => by
    cases ms with
    | cons => exact h.elim
    | nil => exact ⟨h, (h txid).1, fun c hc => ⟨(h txid).2 c hc, trivial⟩, fun _ ht => ht⟩
  | .cache c base, m, [], h => h.elim
  | .cache c base, m, m' :: ms, h => by
    obtain ⟨hmod, htidy, hslot, hbase⟩ := h
    have hs := hslot txid
    cases hl : c.cacheCoins.lookup txid with
    | some e =>
      rw [hl] at hs
      have hget : (CCoinsView.cache c base).getCoins txid = (some e.val, .cache c base) := by
        simp only [CCoinsView.getCoins, hl]
      simp only [CCoinsView.shown, hget, Option.getD_some, Option.some.injEq]
      refine ⟨⟨hmod, htidy, hslot, hbase⟩, hs.1, ?_, fun _ ht => ht⟩
      rintro _ rfl
      exact ⟨htidy txid e hl, by simp [CCoinsView.Holds, hl]⟩
    | none =>
      rw [hl] at hs
      obtain ⟨hb, hsame, hpull, hmono⟩ := getCoins_shows txid hbase
      have hslot' : ∀ t, Slot CCoins.isPruned ((base.getCoins txid).2.Holds t) (c.cacheCoins.lookup t) (m' t) (m t) :=
        fun t => (hslot t).mono (hmono t)
      cases hr : base.getCoins txid with
      | mk r base' =>
        rw [hr] at hb hpull hmono hslot'
        simp only [CCoinsView.shown, hr] at hsame
        cases r with
        | none =>
          have hget : (CCoinsView.cache c base).getCoins txid = (none, .cache c base') := by
            simp only [CCoinsView.getCoins, hl, hr]
          simp only [CCoinsView.shown, hget]
          exact ⟨⟨hmod, htidy, hslot', hb⟩, hsame.trans hs, fun _ hc => (by cases hc), fun _ ht => ht⟩
        | some tmp =>
          have hget : (CCoinsView.cache c base).getCoins txid = (some tmp, .cache (c.fill txid tmp) base') := by
            simp only [CCoinsView.getCoins, hl, hr]
          obtain ⟨hclean, hholds⟩ := hpull tmp rfl
          simp only [CCoinsView.shown, hget, Option.getD_some, Option.some.injEq]
          refine ⟨⟨hmod, htidy.insert txid hclean, fun t => ?_, hb⟩, hsame.trans hs, ?_, fun t ht => ?_⟩
          · show Slot _ _ ((c.cacheCoins.insert txid _).lookup t) _ _
            rw [lookup_insert_eq]
            split
            · rename_i ht
              subst ht
              exact Slot.fetch hs hsame hholds
            · exact hslot' t
          · rintro _ rfl
            exact ⟨hclean, by simp [CCoinsView.Holds, CCoinsViewCache.fill]⟩
          · simp only [CCoinsView.Holds, CCoinsViewCache.fill, lookup_insert_eq] at ht ⊢
            split
            · rfl
            · exact ht

theorem getCoins_snd_shows (txid : Uint256) {v : CCoinsView} {m : CoinsMap} {ms : List CoinsMap}
    (h : Shows v (m :: ms)) : Shows (v.getCoins txid).2 (m :: ms) ∧ ∀ t, v.Holds t → (v.getCoins txid).2.Holds t :=
  ⟨(getCoins_shows txid h).1, (getCoins_shows txid h).2.2.2⟩

theorem haveCoins_shows {c : CCoinsViewCache} {base : CCoinsView} {m : CoinsMap} {ms : List CoinsMap}
    (h : Shows (.cache c base) (m :: ms)) (txid : Uint256) :
    ((CCoinsView.cache c base).haveCoins txid).1 = !(m txid).isPruned := by
  obtain ⟨-, hsame, hpull, -⟩ := getCoins_shows txid h
  simp only [CCoinsView.haveCoins]
  unfold CCoinsView.shown at hsame
  rw [← hsame.blank_eq]
  cases hr : (CCoinsView.cache c base).getCoins txid with
  | mk r v' =>
    rw [hr] at hpull
    cases r with
    | none => rfl
    | some coins =>
      have hclean := (hpull coins rfl).1
      have hnil : coins.isPruned = true ↔ coins.vout = [] := by
        constructor
        · intro hp
          rw [← hclean]
          exact List.rdropWhile_eq_nil_iff.mpr (List.all_eq_true.mp hp)
        · intro hn
          rw [CCoins.isPruned, hn]
          rfl
      simp only [Option.getD_some]
      rw [Bool.eq_iff_iff, Bool.not_eq_true', Bool.not_eq_true', ← Bool.not_eq_true, ← Bool.not_eq_true,
        List.isEmpty_iff, hnil]

theorem haveCoins_snd (v : CCoinsView) (txid : Uint256) : (v.haveCoins txid).2 = (v.getCoins txid).2 := by
  unfold CCoinsView.haveCoins
  cases v with
  | db d => rfl
  | cache c base =>
    simp only
    split <;> rename_i h <;> rw [h]

theorem readAt_shows {read : CCoinsView → CCoinsView} (hread : ∀ {v m ms}, Shows v (m :: ms) →
    Shows (read v) (m :: ms) ∧ ∀ t, v.Holds t → (read v).Holds t) : ∀ {v : CCoinsView} (depth : Nat) {m : CoinsMap}
    {ms : List CoinsMap}, Shows v (m :: ms) → Shows (CCoinsView.readAt read v depth) (m :: ms) ∧
      ∀ t, v.Holds t → (CCoinsView.readAt read v depth).Holds t
  | v, 0, m, ms, h => by cases v <;> exact hread h
  | .db d, _ + 1, m, ms, h => ⟨h, fun _ ht => ht⟩
  | .cache c base, _ + 1, m, [], h => h.elim
  | .cache c base, depth + 1, m, m' :: ms, h => by
    obtain ⟨hmod, htidy, hslot, hbase⟩ := h
    obtain ⟨hb, hholds⟩ := readAt_shows hread depth hbase
    exact ⟨⟨hmod, htidy, fun t => (hslot t).mono (hholds t), hb⟩, fun _ ht => ht⟩

/-! ## Editing -/

/-- The edit does not tell pruned entries apart. -/
def RespectsPruned (edit : CCoins → CCoins) : Prop :=
  ∀ c d, CCoins.beq c d = true → CCoins.beq (edit c).cleanup (edit d).cleanup = true

theorem modifyEntry_lookup (c : CCoinsViewCache) (txid : Uint256) (e : CCoinsCacheEntry) (edit : CCoins → CCoins)
    (t : Uint256) : (c.modifyEntry txid e edit).cacheCoins.lookup t =
      if t = txid then modified CCoins.isPruned e (edit e.val).cleanup else c.cacheCoins.lookup t := by
  simp only [CCoinsViewCache.modifyEntry, modified]
  split
  · rw [lookup_erase_eq]
  · rw [lookup_insert_eq]

theorem modifyEntry_tidy {c : CCoinsViewCache} (h : c.cacheCoins.Tidy) (txid : Uint256) (e : CCoinsCacheEntry)
    (edit : CCoins → CCoins) : (c.modifyEntry txid e edit).cacheCoins.Tidy := by
  simp only [CCoinsViewCache.modifyEntry]
  split
  · exact h.erase txid
  · exact h.insert txid (CCoins.cleanup_cleanup _)

theorem modifyEntry_shows {c : CCoinsViewCache} {base : CCoinsView} {m m' : CoinsMap} {ms : List CoinsMap}
    {txid : Uint256} {edit : CCoins → CCoins} (hedit : RespectsPruned edit) (hmod : c.hasModifier = false)
    (htidy : c.cacheCoins.Tidy)
    (hslot : ∀ t, Slot CCoins.isPruned (base.Holds t) (c.cacheCoins.lookup t) (m' t) (m t))
    (hbase : Shows base (m' :: ms)) {e : CCoinsCacheEntry}
    (he : Slot CCoins.isPruned (base.Holds txid) (some e) (m' txid) (m txid)) :
    Shows (.cache (c.modifyEntry txid e edit) base) (Function.update m txid (edit (m txid)).cleanup :: m' :: ms) := by
  have hmod' : (c.modifyEntry txid e edit).hasModifier = false := by
    simp only [CCoinsViewCache.modifyEntry]
    split <;> exact hmod
  refine ⟨hmod', modifyEntry_tidy htidy txid e edit, fun t => ?_, hbase⟩
  rw [modifyEntry_lookup]
  by_cases ht : t = txid
  · subst ht
    rw [if_pos rfl, Function.update_self]
    exact he.modify (beq_iff_same.mp (hedit _ _ (beq_iff_same.mpr he.1)))
  · rw [if_neg ht, Function.update_of_ne ht]
    exact hslot t

/-- `ModifyCoins` succeeds on a cache and edits what is shown. -/
theorem modifyCoins_shows {c : CCoinsViewCache} {base : CCoinsView} {m : CoinsMap} {ms : List CoinsMap}
    (h : Shows (.cache c base) (m :: ms)) (txid : Uint256) {edit : CCoins → CCoins} (hedit : RespectsPruned edit) :
    ∃ v', (CCoinsView.cache c base).modifyCoins txid edit = some v' ∧
      Shows v' (Function.update m txid (edit (m txid)).cleanup :: ms) := by
  cases ms with
  | nil => exact h.elim
  | cons m' ms =>
    obtain ⟨hmod, htidy, hslot, hbase⟩ := h
    have hs := hslot txid
    simp only [CCoinsView.modifyCoins, hmod, Bool.false_eq_true, ↓reduceIte]
    cases hl : c.cacheCoins.lookup txid with
    | some e =>
      rw [hl] at hs
      exact ⟨_, rfl, modifyEntry_shows hedit hmod htidy hslot hbase hs⟩
    | none =>
      rw [hl] at hs
      obtain ⟨hb, hsame, hpull, hmono⟩ := getCoins_shows txid hbase
      have hslot' := fun t => (hslot t).mono (hmono t)
      cases hr : base.getCoins txid with
      | mk r base' =>
        rw [hr] at hb hpull hslot'
        simp only [CCoinsView.shown, hr] at hsame
        cases r with
        | none =>
          refine ⟨_, rfl, modifyEntry_shows hedit hmod htidy hslot' hb ?_⟩
          exact Slot.create hs rfl hsame.symm.blank_eq
        | some coins =>
          refine ⟨_, rfl, modifyEntry_shows hedit hmod htidy hslot' hb ?_⟩
          exact Slot.fetch hs hsame (hpull coins rfl).2

/-! ## Flushing -/

theorem writeEntry_slots (m : CCoinsMap) (txid : Uint256) (it : CCoinsCacheEntry) (us : Option CCoinsCacheEntry)
    (h : (if it.dirty then written CCoins.isPruned (m.lookup txid) it else some (m.lookup txid)) = some us) :
    ∃ m', CCoinsViewCache.writeEntry m txid it = some m' ∧
      ∀ t, m'.lookup t = if t = txid then us else m.lookup t := by
  -- an unchanged map fits when the slot stays as it is
  have hsame : us = m.lookup txid → ∀ t, m.lookup t = if t = txid then us else m.lookup t := by
    rintro rfl t
    split
    · rename_i ht
      rw [ht]
    · rfl
  unfold CCoinsViewCache.writeEntry
  split at h
  · rename_i hd
    rw [if_pos hd]
    unfold written at h
    cases hl : m.lookup txid with
    | none =>
      rw [hl] at h hsame
      simp only at h ⊢
      cases hp : it.val.isPruned with
      | true =>
        simp only [hp, ↓reduceIte, Option.some.injEq] at h
        exact ⟨m, by simp, hsame h.symm⟩
      | false =>
        simp only [hp, Bool.false_eq_true, ↓reduceIte] at h
        split at h
        · rename_i hf
          cases h
          exact ⟨_, by simp [hf], lookup_insert_eq _ _ _⟩
        · cases h
    | some itUs =>
      rw [hl] at h
      simp only at h ⊢
      split at h
      · rename_i hc
        cases h
        exact ⟨_, if_pos hc, lookup_erase_eq _ _⟩
      · rename_i hc
        cases h
        exact ⟨_, if_neg hc, lookup_insert_eq _ _ _⟩
  · rename_i hd
    rw [if_neg hd]
    cases h
    exact ⟨m, rfl, hsame rfl⟩

theorem batchWrite_cache {c : CCoinsViewCache} (hmod : c.hasModifier = false) (base : CCoinsView) (child : CCoinsMap)
    (hashBlock : Uint256) (h : ∀ t it, child.lookup t = some it → it.dirty = true →
      ∃ us, written CCoins.isPruned (c.cacheCoins.lookup t) it = some us) :
    ∃ cacheCoins : CCoinsMap, (CCoinsView.cache c base).batchWrite child hashBlock =
        some (.cache { c with hashBlock := hashBlock, cacheCoins := cacheCoins } base) ∧
      (∀ t, child.lookup t = none → cacheCoins.lookup t = c.cacheCoins.lookup t) ∧
      ∀ t it, child.lookup t = some it → (if it.dirty then written CCoins.isPruned (c.cacheCoins.lookup t) it
        else some (c.cacheCoins.lookup t)) = some (cacheCoins.lookup t) := by
  obtain ⟨cacheCoins, hfold, hslots⟩ := foldlM_slots (fun (m : CCoinsMap) t => m.lookup t)
    CCoinsViewCache.writeEntry (fun it us => if it.dirty then written CCoins.isPruned us it else some us)
    writeEntry_slots child.entries child.nodupKeys c.cacheCoins fun t it hit => by
      split
      · rename_i hd
        exact h t it hit hd
      · exact ⟨_, rfl⟩
  refine ⟨cacheCoins, ?_, hslots⟩
  simp only [CCoinsView.batchWrite, hmod, Bool.false_eq_true, ↓reduceIte, hfold]

theorem batchWrite_db (d : CCoinsViewDB) (child : CCoinsMap) (hashBlock : Uint256) :
    ∃ d' : CCoinsViewDB, (CCoinsView.db d).batchWrite child hashBlock = some (.db d') ∧
      (∀ t, child.lookup t = none → d'.coins t = d.coins t) ∧
      ∀ t it, child.lookup t = some it →
        d'.coins t = if it.dirty then (if it.val.isPruned then none else some it.val) else d.coins t := by
  have hstep : ∀ (m : Uint256 → Option CCoins) txid (it : CCoinsCacheEntry) w,
      some (if it.dirty then (if it.val.isPruned then none else some it.val) else m txid) = some w →
      ∃ m', some (CCoinsViewDB.writeEntry m txid it) = some m' ∧ ∀ t, m' t = if t = txid then w else m t := by
    rintro m txid it _ ⟨⟩
    refine ⟨_, rfl, fun t => ?_⟩
    unfold CCoinsViewDB.writeEntry
    split
    · by_cases ht : t = txid
      · subst ht; simp
      · simp [ht]
    · split
      · rename_i ht
        rw [ht]
      · rfl
  obtain ⟨m', hfold, hnone, hsome⟩ := foldlM_slots (fun (m : Uint256 → Option CCoins) t => m t)
    (fun m txid it => some (CCoinsViewDB.writeEntry m txid it))
    (fun it us => some (if it.dirty then (if it.val.isPruned then none else some it.val) else us)) hstep
    child.entries child.nodupKeys d.coins
    fun _ _ _ => ⟨_, rfl⟩
  have hfold' : child.entries.foldl (fun m kv => CCoinsViewDB.writeEntry m kv.1 kv.2) d.coins = m' := by
    have := List.foldlM_pure (m := Option)
      (f := fun (m : Uint256 → Option CCoins) (kv : Sigma fun _ : Uint256 => CCoinsCacheEntry) =>
        CCoinsViewDB.writeEntry m kv.1 kv.2) (b := d.coins) (l := child.entries)
    exact Option.some.inj (this.symm.trans hfold)
  refine ⟨⟨m', if hashBlock = 0 then d.hashBlock else hashBlock⟩, by simp only [CCoinsView.batchWrite, hfold'],
    hnone, fun t it ht => ?_⟩
  exact (Option.some.inj (hsome t it ht)).symm

theorem written_val {us us' : Option CCoinsCacheEntry} {it e : CCoinsCacheEntry}
    (h : written CCoins.isPruned us it = some us') (he : us' = some e) : e.val = it.val := by
  subst he
  unfold written at h
  split at h
  · split at h
    · cases h
    · split at h
      · cases h; rfl
      · cases h
  · split at h
    · cases h
    · cases h; rfl

section shows

variable {m m' : CoinsMap} {ms : List CoinsMap} {child : CCoinsMap}

theorem batchWrite_db_shows {d : CCoinsViewDB} (hbase : Shows (.db d) [m']) (htidy : child.Tidy)
    (hslot : ∀ t, Slot CCoins.isPruned ((CCoinsView.db d).Holds t) (child.lookup t) (m' t) (m t)) (hashBlock : Uint256) :
    ∃ base', (CCoinsView.db d).batchWrite child hashBlock = some base' ∧ Shows base' [m] := by
  obtain ⟨d', hw, hnone, hsome⟩ := batchWrite_db d child hashBlock
  refine ⟨_, hw, fun t => ?_⟩
  have hst := hslot t
  obtain ⟨hsame, hclean⟩ := hbase t
  cases hl : child.lookup t with
  | none =>
    rw [hl] at hst
    rw [hnone t hl]
    exact ⟨hsame.trans hst, hclean⟩
  | some it =>
    rw [hl] at hst
    rw [hsome t it hl]
    split
    · split
      · rename_i hp
        refine ⟨?_, fun c hc => by cases hc⟩
        exact Same.trans (.of_blank rfl hp) hst.1
      · refine ⟨hst.1, fun c hc => ?_⟩
        cases hc
        exact htidy t it hl
    · rename_i hd
      exact ⟨hsame.trans (hst.2.2.1 (by simpa using hd)), hclean⟩

theorem batchWrite_cache_shows {c : CCoinsViewCache} {base : CCoinsView} {m'' : CoinsMap}
    (hbase : Shows (.cache c base) (m' :: m'' :: ms)) (htidy : child.Tidy)
    (hslot : ∀ t, Slot CCoins.isPruned ((CCoinsView.cache c base).Holds t) (child.lookup t) (m' t) (m t))
    (hashBlock : Uint256) :
    ∃ base', (CCoinsView.cache c base).batchWrite child hashBlock = some base' ∧ Shows base' (m :: m'' :: ms) := by
  obtain ⟨hmod, htidyc, hslotc, hb⟩ := hbase
  have hwrite : ∀ t it, child.lookup t = some it → it.dirty = true →
      ∃ us, written CCoins.isPruned (c.cacheCoins.lookup t) it = some us := by
    intro t it hit hd
    have hst := hslot t
    rw [hit] at hst
    obtain ⟨us, hus, -⟩ := (hslotc t).write hst
    exact ⟨us, hus⟩
  obtain ⟨cacheCoins, hw, hnone, hsome⟩ := batchWrite_cache hmod base child hashBlock hwrite
  refine ⟨_, hw, hmod, fun t e he => ?_, fun t => ?_, hb⟩
  · simp only at he
    cases hl : child.lookup t with
    | none => exact htidyc t e ((hnone t hl).symm.trans he)
    | some it =>
      have ht := hsome t it hl
      split at ht
      · rw [written_val ht he]
        exact htidy t it hl
      · exact htidyc t e ((Option.some.inj ht).trans he)
  · have hst := hslot t
    simp only
    cases hl : child.lookup t with
    | none =>
      rw [hl] at hst
      rw [hnone t hl]
      exact (hslotc t).congr hst
    | some it =>
      rw [hl] at hst
      have ht := hsome t it hl
      split at ht
      · obtain ⟨us, hus, hslot'⟩ := (hslotc t).write hst
        rw [hus] at ht
        rw [← Option.some.inj ht]
        exact hslot'
      · rename_i hd
        rw [← Option.some.inj ht]
        exact (hslotc t).congr (hst.2.2.1 (by simpa using hd))

/-- **Writing a child back into its parent** succeeds, and the parent shows what the child showed. -/
theorem batchWrite_shows {base : CCoinsView} (hbase : Shows base (m' :: ms)) (htidy : child.Tidy)
    (hslot : ∀ t, Slot CCoins.isPruned (base.Holds t) (child.lookup t) (m' t) (m t)) (hashBlock : Uint256) :
    ∃ base', base.batchWrite child hashBlock = some base' ∧ Shows base' (m :: ms) := by
  cases base with
  | db d =>
    cases ms with
    | nil => exact batchWrite_db_shows hbase htidy hslot hashBlock
    | cons => exact hbase.elim
  | cache c base =>
    cases ms with
    | nil => exact hbase.elim
    | cons m'' ms => exact batchWrite_cache_shows hbase htidy hslot hashBlock

end shows

/-- `Flush` succeeds on a cache; afterwards the parent shows what the child shows. -/
theorem flush_shows {c : CCoinsViewCache} {base : CCoinsView} {m m' : CoinsMap} {ms : List CoinsMap}
    (h : Shows (.cache c base) (m :: m' :: ms)) : ∃ v', (CCoinsView.cache c base).flush = some v' ∧
      Shows v' (m :: m :: ms) ∧ Shows v'.base (m :: ms) := by
  obtain ⟨hmod, htidy, hslot, hbase⟩ := h
  obtain ⟨base', hw, hb⟩ := batchWrite_shows hbase htidy hslot c.hashBlock
  refine ⟨.cache { c with cacheCoins := ∅ } base', by simp only [CCoinsView.flush, hw], ?_, hb⟩
  refine ⟨hmod, fun t e he => ?_, fun t => ?_, hb⟩
  · rw [AList.lookup_empty] at he
    cases he
  · simp only [AList.lookup_empty]
    exact Same.refl _

/-! ## Runs of the stack -/

theorem getBestBlock_shows : ∀ {v : CCoinsView} {ms : List CoinsMap}, Shows v ms → Shows v.getBestBlock.2 ms ∧
    ∀ t, v.Holds t → v.getBestBlock.2.Holds t
  | .db d, ms, h => ⟨h, fun _ ht => ht⟩
  | .cache c base, [], h => h.elim
  | .cache c base, [m], h => h.elim
  | .cache c base, m :: m' :: ms, h => by
    obtain ⟨hmod, htidy, hslot, hbase⟩ := h
    obtain ⟨hb, hholds⟩ := getBestBlock_shows hbase
    unfold CCoinsView.getBestBlock
    split
    · exact ⟨⟨hmod, htidy, fun t => (hslot t).mono (hholds t), hb⟩, fun _ ht => ht⟩
    · exact ⟨⟨hmod, htidy, hslot, hbase⟩, fun _ ht => ht⟩

/-- The operation edits only in ways that do not tell pruned entries apart. -/
def CoinsOp.Respects : CoinsOp → Prop
  | modifyCoins _ edit => RespectsPruned edit
  | _ => True

theorem Shows.cache_of_cons {v : CCoinsView} {m m' : CoinsMap} {ms : List CoinsMap} (h : Shows v (m :: m' :: ms)) :
    ∃ c base, v = .cache c base := by
  cases v with
  | db d => exact h.elim
  | cache c base => exact ⟨c, base, rfl⟩

theorem Shows.ne_nil {v : CCoinsView} {ms : List CoinsMap} (h : Shows v ms) : ∃ m ms', ms = m :: ms' := by
  cases ms with
  | nil => cases v <;> exact h.elim
  | cons m ms => exact ⟨m, ms, rfl⟩

theorem step_shows {v : CCoinsView} {ms ms' : List CoinsMap} {op : CoinsOp} (h : Shows v ms) (hop : op.Respects)
    (hs : op.specStep ms = some ms') : ∃ v', op.step v = some v' ∧ Shows v' ms' := by
  cases op with
  | getCoins depth txid =>
    obtain ⟨m, ms, rfl⟩ := h.ne_nil
    simp only [CoinsOp.specStep, Option.some.injEq] at hs
    subst hs
    exact ⟨_, rfl, (readAt_shows (getCoins_snd_shows txid) depth h).1⟩
  | haveCoins depth txid =>
    obtain ⟨m, ms, rfl⟩ := h.ne_nil
    simp only [CoinsOp.specStep, Option.some.injEq] at hs
    subst hs
    refine ⟨_, rfl, (readAt_shows (fun hv => ?_) depth h).1⟩
    rw [haveCoins_snd]
    exact getCoins_snd_shows txid hv
  | modifyCoins txid edit =>
    obtain ⟨m, _ | ⟨m', ms⟩, rfl⟩ := h.ne_nil
    · simp [CoinsOp.specStep] at hs
    · obtain ⟨c, base, rfl⟩ := h.cache_of_cons
      simp only [CoinsOp.specStep, Option.some.injEq] at hs
      subst hs
      exact modifyCoins_shows h txid hop
  | getBestBlock =>
    simp only [CoinsOp.specStep, Option.some.injEq] at hs
    subst hs
    exact ⟨_, rfl, (getBestBlock_shows h).1⟩
  | setBestBlock hashBlock =>
    obtain ⟨m, _ | ⟨m', ms⟩, rfl⟩ := h.ne_nil
    · simp [CoinsOp.specStep] at hs
    · obtain ⟨c, base, rfl⟩ := h.cache_of_cons
      simp only [CoinsOp.specStep, Option.some.injEq] at hs
      subst hs
      exact ⟨_, rfl, h⟩
  | push =>
    obtain ⟨m, ms, rfl⟩ := h.ne_nil
    simp only [CoinsOp.specStep, Option.some.injEq] at hs
    subst hs
    refine ⟨_, rfl, rfl, fun t e he => ?_, fun t => Same.refl _, h⟩
    cases he
  | flush =>
    obtain ⟨m, _ | ⟨m', ms⟩, rfl⟩ := h.ne_nil
    · simp [CoinsOp.specStep] at hs
    · obtain ⟨c, base, rfl⟩ := h.cache_of_cons
      simp only [CoinsOp.specStep, Option.some.injEq] at hs
      subst hs
      obtain ⟨v', hv', hshows, -⟩ := flush_shows h
      exact ⟨v', hv', hshows⟩
  | pop =>
    obtain ⟨m, _ | ⟨m', ms⟩, rfl⟩ := h.ne_nil
    · simp [CoinsOp.specStep] at hs
    · obtain ⟨c, base, rfl⟩ := h.cache_of_cons
      simp only [CoinsOp.specStep, Option.some.injEq] at hs
      subst hs
      exact ⟨base, rfl, h.2.2.2⟩

/-- Every run of operations keeps the invariant. -/
theorem run_shows : ∀ {ops : List CoinsOp} {v : CCoinsView} {ms ms' : List CoinsMap}, Shows v ms →
    (∀ op ∈ ops, op.Respects) → specCoins ms ops = some ms' → ∃ v', runCoins v ops = some v' ∧ Shows v' ms'
  | [], v, _, _, h, _, hs => by cases hs; exact ⟨v, rfl, h⟩
  | op :: ops, v, ms, ms', h, hops, hs => by
    simp only [specCoins, List.foldlM_cons, Option.bind_eq_bind, Option.bind_eq_some_iff] at hs
    obtain ⟨ms₁, hs₁, hs₂⟩ := hs
    obtain ⟨v₁, hv₁, h₁⟩ := step_shows h (hops op List.mem_cons_self) hs₁
    obtain ⟨v', hv', h'⟩ := run_shows h₁ (fun o ho => hops o (List.mem_cons_of_mem _ ho)) hs₂
    refine ⟨v', ?_, h'⟩
    rw [runCoins, List.foldlM_cons, hv₁]
    exact hv'

/-- **The stack of caches refines plain maps.** No assertion fails in a run; afterwards the top cache returns what the
plain map of the top returns, and flushing it into its parent makes the parent show what the top shows. -/
theorem stack_refines {d : CCoinsViewDB} (hd : ∀ txid c, d.coins txid = some c → c.cleanup = c) {ops : List CoinsOp}
    (hops : ∀ op ∈ ops, op.Respects) {m m' : CoinsMap} {ms : List CoinsMap}
    (hs : specCoins [fun txid => (d.coins txid).getD CCoins.empty] ops = some (m :: m' :: ms)) :
    ∃ v, runCoins (.db d) ops = some v ∧
      (∀ txid, CCoins.beq ((v.getCoins txid).1.getD CCoins.empty) (m txid) = true) ∧
      (∀ txid, (v.haveCoins txid).1 = !(m txid).isPruned) ∧
      ∃ v', v.flush = some v' ∧ ∀ txid, CCoins.beq (v'.base.shown txid) (v.shown txid) = true := by
  have hdb : Shows (.db d) [fun txid => (d.coins txid).getD CCoins.empty] :=
    fun txid => ⟨Same.refl _, fun c hc => hd txid c hc⟩
  obtain ⟨v, hv, h⟩ := run_shows hdb hops hs
  obtain ⟨c, base, rfl⟩ := h.cache_of_cons
  obtain ⟨v', hflush, -, hparent⟩ := flush_shows h
  refine ⟨_, hv, fun txid => beq_iff_same.mpr (getCoins_shows txid h).2.1, haveCoins_shows h, v', hflush,
    fun txid => beq_iff_same.mpr ?_⟩
  exact (getCoins_shows txid hparent).2.1.trans (getCoins_shows txid h).2.1.symm

/-- The empty database. -/
def emptyDB : CCoinsViewDB := ⟨fun _ => none, 0⟩

/-- Coins at height 3 with one output. -/
def oneCoin : CCoins := ⟨false, false, [⟨COIN, ([0x51] : List UInt8), -10⟩], 3, 1⟩

/-- Create an entry, remove its outputs, and put one back: the second edit makes the cache forget the height. -/
def forgetOps : List CoinsOp :=
  [.push, .modifyCoins 5 fun _ => oneCoin, .modifyCoins 5 fun c => { c with vout := [] },
    .modifyCoins 5 fun c => { c with vout := oneCoin.vout }]

/-- An edit that keeps the metadata of a pruned entry tells the cache from the plain map. -/
theorem stack_forgets_pruned : ¬ ∀ (d : CCoinsViewDB), (∀ txid c, d.coins txid = some c → c.cleanup = c) →
    ∀ (ops : List CoinsOp) (m m' : CoinsMap) (ms : List CoinsMap),
    specCoins [fun txid => (d.coins txid).getD CCoins.empty] ops = some (m :: m' :: ms) →
    ∃ v, runCoins (.db d) ops = some v ∧
      ∀ txid, CCoins.beq ((v.getCoins txid).1.getD CCoins.empty) (m txid) = true := by
  intro h
  obtain ⟨v, hv, hget⟩ := h emptyDB (fun txid c hc => by cases hc) forgetOps _ _ _ rfl
  have hrun : (runCoins (.db emptyDB) forgetOps).map (fun v => ((v.getCoins 5).1.getD CCoins.empty).nHeight) =
      some 0 := by decide
  have h5 := hget 5
  rw [hv, Option.map_some, Option.some.injEq] at hrun
  rw [CCoins.beq_true_iff (Or.inr (by decide))] at h5
  rw [h5] at hrun
  exact absurd hrun (by decide)

/-- Edits, a second cache, and flushes down to the database. -/
def layerOps : List CoinsOp :=
  [.push, .modifyCoins 5 fun _ => oneCoin, .getCoins 0 6, .push, .haveCoins 1 5, .modifyCoins 5 fun c => c.clear, .flush,
    .modifyCoins 6 fun _ => oneCoin, .flush, .pop, .flush]

theorem respectsPruned_const (c : CCoins) : RespectsPruned fun _ => c := fun _ _ _ => CCoins.beq_refl _

theorem stack_refines_layers : ∃ m m' ms, specCoins [fun txid => (emptyDB.coins txid).getD CCoins.empty] layerOps =
      some (m :: m' :: ms) ∧ ∃ v, runCoins (.db emptyDB) layerOps = some v ∧
      (∀ txid, CCoins.beq ((v.getCoins txid).1.getD CCoins.empty) (m txid) = true) ∧
      (∀ txid, (v.haveCoins txid).1 = !(m txid).isPruned) ∧
      ∃ v', v.flush = some v' ∧ ∀ txid, CCoins.beq (v'.base.shown txid) (v.shown txid) = true := by
  have hops : ∀ op ∈ layerOps, op.Respects := by
    simp only [layerOps, List.forall_mem_cons, CoinsOp.Respects, true_and, List.not_mem_nil, false_imp_iff,
      implies_true, and_true]
    exact ⟨respectsPruned_const _, respectsPruned_const _, respectsPruned_const _⟩
  exact ⟨_, _, _, rfl, stack_refines (fun txid c hc => by cases hc) hops rfl⟩

end DigiWage
