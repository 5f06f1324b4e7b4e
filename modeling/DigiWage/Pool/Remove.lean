import DigiWage.Lib.Worklist
import DigiWage.Pool.Invariant

/-!
# What a recursive removal takes out

`CTxMemPool::remove` of `txmempool.cpp` is a search of the graph of the pool, which shrinks while it goes on.

* `removeStep` is one round of its loop over the deque. `removeLoop_ends`: the loop ends, with what `removeLoop` gives.
* `Removing` is the invariant of the loop: pool and `mapNextTx` are the old ones without the transactions taken so far, and
  the deque is a worklist of the old pool (`Lib/Worklist.lean`). An edge disappears with its parent or with its child; a
  child is then on the deque or gone.
-/

namespace DigiWage

open Lib

namespace CTxMemPool

/-- The deque with which `remove` starts. -/
def txToRemove (pool : CTxMemPool) (origTx : CTransaction) (fRecursive : Bool) : List Uint256 :=
  if fRecursive && !pool.contains origTx.hash then origTx.hash :: pool.children origTx.hash origTx else [origTx.hash]

/-- One round of the loop of `remove`: the deque, `removed` and the pool. -/
def removeStep (fRecursive : Bool) :
    List Uint256 × List CTransaction × CTxMemPool → List Uint256 × List CTransaction × CTxMemPool
  | ([], removed, pool) => ([], removed, pool)
  | (hash :: txToRemove, removed, pool) =>
    match pool.mapTx.lookup hash with
    | none => (txToRemove, removed, pool)
    | some entry =>
      (if fRecursive then txToRemove ++ pool.children hash entry.tx else txToRemove, removed ++ [entry.tx],
        pool.erase hash entry)

/-! ## The loop ends -/

variable {pool pool' : CTxMemPool} {fRecursive : Bool}

theorem removeStep_skip (removed : List CTransaction) : ∀ queue : List Uint256,
    ∃ n, match pool.nextToRemove queue with
      | none => (removeStep fRecursive)^[n] (queue, removed, pool) = ([], removed, pool)
      | some (hash, entry, rest) => pool.mapTx.lookup hash = some entry ∧
          (removeStep fRecursive)^[n] (queue, removed, pool) = (hash :: rest, removed, pool) := by
  intro queue
  induction queue with
  | nil => exact ⟨0, rfl⟩
  | cons hash queue ih =>
    rw [nextToRemove]
    cases hentry : pool.mapTx.lookup hash with
    | none =>
      obtain ⟨n, hn⟩ := ih
      refine ⟨n + 1, ?_⟩
      have hstep : removeStep fRecursive (hash :: queue, removed, pool) = (queue, removed, pool) := by
        simp [removeStep, hentry]
      simpa only [Function.iterate_succ_apply, hstep] using hn
    | some entry => exact ⟨0, hentry, rfl⟩

theorem removeLoop_ends (n : Nat) : ∀ (queue : List Uint256) (removed : List CTransaction) (pool : CTxMemPool),
    pool.mapTx.entries.length ≤ n → ∃ m, (removeStep fRecursive)^[m] (queue, removed, pool) =
      ([], removed ++ (removeLoop fRecursive n queue pool).1, (removeLoop fRecursive n queue pool).2) := by
  induction n with
  | zero =>
    intro queue removed pool hlength
    obtain ⟨m, hm⟩ := @removeStep_skip pool fRecursive removed queue
    have hnone : pool.nextToRemove queue = none := by
      cases hnext : pool.nextToRemove queue with
      | none => rfl
      | some r =>
        have hentry := (nextToRemove_some hnext).1
        rw [lookup_of_length (by omega)] at hentry
        cases hentry
    rw [hnone] at hm
    exact ⟨m, by simpa [removeLoop] using hm⟩
  | succ n ih =>
    intro queue removed pool hlength
    obtain ⟨m, hm⟩ := @removeStep_skip pool fRecursive removed queue
    rw [removeLoop]
    cases hnext : pool.nextToRemove queue with
    | none =>
      rw [hnext] at hm
      exact ⟨m, by simpa using hm⟩
    | some r =>
      obtain ⟨hash, entry, rest⟩ := r
      rw [hnext] at hm
      obtain ⟨hentry, hm⟩ := hm
      have hshorter := length_erase hentry
      obtain ⟨m', hm'⟩ := ih (if fRecursive then rest ++ pool.children hash entry.tx else rest) (removed ++ [entry.tx])
        (pool.erase hash entry) (by omega)
      have hstep : removeStep fRecursive (hash :: rest, removed, pool) =
          (if fRecursive then rest ++ pool.children hash entry.tx else rest, removed ++ [entry.tx],
            pool.erase hash entry) := by
        simp [removeStep, hentry]
      refine ⟨m' + 1 + m, ?_⟩
      rw [Function.iterate_add_apply, hm, Function.iterate_succ_apply, hstep, hm', List.append_assoc]
      rfl

/-! ## Consistent pools -/

/-- The entries are under their hashes. `mapNextTx` has their inputs; those of zerocoin spends it does not have. -/
structure Consistent (pool : CTxMemPool) : Prop where
  keyed : ∀ hash entry, pool.mapTx.lookup hash = some entry → entry.tx.hash = hash
  spends : ∀ o p, pool.mapNextTx.lookup o = some p → pool.Spends o p
  next : ∀ hash entry i txin, pool.mapTx.lookup hash = some entry → entry.tx.vin[i]? = some txin →
    txin.isZerocoinSpend = false → pool.mapNextTx.lookup txin.prevout = some ⟨hash, i⟩
  zerocoins : ∀ hash entry, pool.mapTx.lookup hash = some entry → ∀ txin ∈ entry.tx.vin, txin.isZerocoinSpend = true →
    pool.mapNextTx.lookup txin.prevout = none

theorem Wf.consistent (h : pool.Wf) (hz : ∀ hash entry, pool.mapTx.lookup hash = some entry →
    entry.tx.hasZerocoinSpendInputs = false) : pool.Consistent where
  keyed := h.keyed
  spends o p := (h.next o p).mp
  next hash entry i txin hentry hin _ := (h.next _ _).mpr ⟨entry, hentry, by rw [hin]; rfl⟩
  zerocoins hash entry hentry txin hin hspend := by
    have hnone := hz hash entry hentry
    rw [CTransaction.hasZerocoinSpendInputs, List.any_eq_false] at hnone
    exact absurd hspend (hnone txin hin)

/-- The pool has a transaction under the hash that spends an output of the transaction. -/
def SpendsOutput (pool : CTxMemPool) (tx : CTransaction) (hash : Uint256) : Prop :=
  ∃ entry, pool.mapTx.lookup hash = some entry ∧ ∃ txin ∈ entry.tx.vin, txin.isZerocoinSpend = false ∧
    txin.prevout.hash = tx.hash ∧ txin.prevout.n < tx.vout.length

theorem Consistent.ptx_eq (h : pool.Consistent) {hash : Uint256} {entry : CTxMemPoolEntry} {o : COutPoint} {p : CInPoint}
    (hentry : pool.mapTx.lookup hash = some entry) (ho : o ∈ entry.tx.vin.map CTxIn.prevout)
    (hp : pool.mapNextTx.lookup o = some p) : p.ptx = hash := by
  obtain ⟨txin, hin, rfl⟩ := List.mem_map.mp ho
  cases hspend : txin.isZerocoinSpend with
  | true =>
    rw [h.zerocoins hash entry hentry txin hin hspend] at hp
    cases hp
  | false =>
    obtain ⟨i, hi⟩ := List.getElem?_of_mem hin
    rw [h.next hash entry i txin hentry hi hspend] at hp
    cases hp
    rfl

theorem Consistent.mem_children (h : pool.Consistent) (tx : CTransaction) (hash : Uint256) :
    hash ∈ pool.children tx.hash tx ↔ pool.SpendsOutput tx hash := by
  simp only [children, List.mem_filterMap, List.mem_range, Option.map_eq_some_iff]
  constructor
  · rintro ⟨i, hi, p, hp, rfl⟩
    obtain ⟨entry, hentry, hin⟩ := h.spends _ _ hp
    obtain ⟨txin, hin, hprev⟩ := Option.map_eq_some_iff.mp hin
    refine ⟨entry, hentry, txin, List.mem_of_getElem? hin, ?_, by rw [hprev], by rw [hprev]; exact hi⟩
    by_contra hspend
    have hnone := h.zerocoins _ entry hentry txin (List.mem_of_getElem? hin) (by simpa using hspend)
    rw [hprev, hp] at hnone
    cases hnone
  · rintro ⟨entry, hentry, txin, hin, hspend, hhash, hn⟩
    obtain ⟨i, hi⟩ := List.getElem?_of_mem hin
    refine ⟨txin.prevout.n, hn, ⟨hash, i⟩, ?_, rfl⟩
    rw [← hhash]
    exact h.next hash entry i txin hentry hi hspend

theorem Consistent.next_erase (h : pool.Consistent) {hash : Uint256} {entry : CTxMemPoolEntry}
    (hentry : pool.mapTx.lookup hash = some entry) (o : COutPoint) (p : CInPoint) :
    (pool.erase hash entry).mapNextTx.lookup o = some p ↔ pool.mapNextTx.lookup o = some p ∧ p.ptx ≠ hash := by
  have hlookup : (pool.erase hash entry).mapNextTx.lookup o =
      if o ∈ entry.tx.vin.map CTxIn.prevout then none else pool.mapNextTx.lookup o := lookup_foldl_erase o entry.tx.vin _
  rw [hlookup]
  constructor
  · intro hp
    split at hp
    · cases hp
    · rename_i ho
      refine ⟨hp, fun heq => ?_⟩
      obtain ⟨e, he, hin⟩ := h.spends o p hp
      rw [heq, hentry] at he
      cases he
      obtain ⟨txin, hin, hprev⟩ := Option.map_eq_some_iff.mp hin
      exact ho (List.mem_map.mpr ⟨txin, List.mem_of_getElem? hin, hprev⟩)
  · rintro ⟨hp, hne⟩
    rw [if_neg ?_, hp]
    intro ho
    exact hne (h.ptx_eq hentry ho hp)

theorem Consistent.erase (h : pool.Consistent) {hash : Uint256} {entry : CTxMemPoolEntry}
    (hentry : pool.mapTx.lookup hash = some entry) : (pool.erase hash entry).Consistent := by
  have hsub : Sub (pool.erase hash entry) pool := sub_erase
  refine ⟨fun x e he => h.keyed x e (hsub x e he), fun o p hp => ?_, fun x e i txin he hi hspend => ?_,
    fun x e he txin hin hspend => ?_⟩
  · obtain ⟨hp, hne⟩ := (h.next_erase hentry o p).mp hp
    obtain ⟨e, he, hin⟩ := h.spends o p hp
    exact ⟨e, by rw [lookup_erase, if_neg hne, he], hin⟩
  · refine (h.next_erase hentry _ _).mpr ⟨h.next x e i txin (hsub x e he) hi hspend, fun heq => ?_⟩
    rw [lookup_erase, if_pos heq] at he
    cases he
  · cases hp : (pool.erase hash entry).mapNextTx.lookup txin.prevout with
    | none => rfl
    | some p =>
      have hold := ((h.next_erase hentry _ p).mp hp).1
      rw [h.zerocoins x e (hsub x e he) txin hin hspend] at hold
      cases hold

/-! ## The search -/

variable (pool) (t : CTransaction)

/-- The transaction, and what spends its outputs when the pool does not have it. -/
def Starts (fRecursive : Bool) (hash : Uint256) : Prop :=
  hash = t.hash ∨ (fRecursive = true ∧ pool.mapTx.lookup t.hash = none ∧ pool.SpendsOutput t hash)

/-- From a transaction of the pool to one that spends an output of it. -/
def Follows (fRecursive : Bool) (hash child : Uint256) : Prop :=
  fRecursive = true ∧ ∃ entry, pool.mapTx.lookup hash = some entry ∧ pool.SpendsOutput entry.tx child

/-- The transaction and what is reached from it by spending outputs. -/
def Descends (hash : Uint256) : Prop := ReachedFrom (pool.Starts t true) (pool.Follows true) hash

/-- The invariant of the loop of `remove`. -/
structure Removing (fRecursive : Bool) (queue : List Uint256) (removed : List CTransaction) (pool' : CTxMemPool) : Prop where
  consistent : pool'.Consistent
  worklist : Worklist (pool.Starts t fRecursive) (fun hash => (pool.mapTx.lookup hash).isSome) (pool.Follows fRecursive)
    queue (removed.map CTransaction.hash)
  entries : ∀ hash, pool'.mapTx.lookup hash =
    if hash ∈ removed.map CTransaction.hash then none else pool.mapTx.lookup hash
  next : ∀ o p, pool'.mapNextTx.lookup o = some p ↔
    pool.mapNextTx.lookup o = some p ∧ p.ptx ∉ removed.map CTransaction.hash
  listed : ∀ tx ∈ removed, ∃ entry, pool.mapTx.lookup tx.hash = some entry ∧ entry.tx = tx

variable {pool t} {queue : List Uint256} {removed : List CTransaction}

theorem removing_init (h : pool.Consistent) : Removing pool t fRecursive (pool.txToRemove t fRecursive) [] pool := by
  refine ⟨h, .init (fun x hx => ?_) (fun x hx _ => ?_), fun hash => by simp, fun o p => by simp, by simp⟩
  · rw [txToRemove] at hx
    split at hx
    · rename_i hcase
      simp only [Bool.and_eq_true, Bool.not_eq_true', contains, Option.isSome_eq_false_iff,
        Option.isNone_iff_eq_none] at hcase
      rcases List.mem_cons.mp hx with rfl | hx
      · exact .inl rfl
      · exact .inr ⟨hcase.1, hcase.2, (h.mem_children t x).mp hx⟩
    · exact .inl (List.mem_singleton.mp hx)
  · rw [txToRemove]
    rcases hx with rfl | ⟨hrec, hnone, hspends⟩
    · split <;> simp
    · rw [if_pos (by simp [hrec, contains, hnone])]
      exact List.mem_cons_of_mem _ ((h.mem_children t x).mpr hspends)

theorem Removing.step (h : Removing pool t fRecursive queue removed pool') :
    Removing pool t fRecursive (removeStep fRecursive (queue, removed, pool')).1
      (removeStep fRecursive (queue, removed, pool')).2.1 (removeStep fRecursive (queue, removed, pool')).2.2 := by
  cases queue with
  | nil => exact h
  | cons hash queue =>
    rw [removeStep]
    cases hentry : pool'.mapTx.lookup hash with
    | none =>
      refine ⟨h.consistent, h.worklist.skip ?_, h.entries, h.next, h.listed⟩
      rw [h.entries] at hentry
      split at hentry
      · rename_i hin
        exact .inr hin
      · exact .inl (by simp [hentry])
    | some entry =>
      have hkey := h.consistent.keyed hash entry hentry
      have hold : hash ∉ removed.map CTransaction.hash ∧ pool.mapTx.lookup hash = some entry := by
        rw [h.entries] at hentry
        split at hentry
        · cases hentry
        · exact ⟨by assumption, hentry⟩
      obtain ⟨hnew, hold⟩ := hold
      have hmap : (removed ++ [entry.tx]).map CTransaction.hash = removed.map CTransaction.hash ++ [hash] := by
        simp [hkey]
      -- The children that the shrunken pool shows are those of the old pool that have not gone.
      have hchild : ∀ x, x ∈ pool'.children hash entry.tx ↔
          pool.SpendsOutput entry.tx x ∧ x ∉ removed.map CTransaction.hash := by
        intro x
        rw [← hkey, h.consistent.mem_children]
        constructor
        · rintro ⟨e, he, hspend⟩
          rw [h.entries] at he
          split at he
          · cases he
          · exact ⟨⟨e, he, hspend⟩, by assumption⟩
        · rintro ⟨⟨e, he, hspend⟩, hx⟩
          exact ⟨e, by rw [h.entries, if_neg hx, he], hspend⟩
      refine ⟨h.consistent.erase hentry, ?_, fun x => ?_, fun o p => ?_, fun tx htx => ?_⟩
      · dsimp only
        rw [hmap]
        have hpresent : (pool.mapTx.lookup hash).isSome = true := by rw [hold]; rfl
        cases fRecursive with
        | true =>
          refine h.worklist.take hpresent hnew (fun x hx => ⟨rfl, entry, hold, ((hchild x).mp hx).1⟩) fun x hx _ => ?_
          obtain ⟨-, e, he, hspends⟩ := hx
          rw [hold] at he
          cases he
          by_cases hgone : x ∈ removed.map CTransaction.hash
          · exact .inr (List.mem_append_left _ hgone)
          · exact .inl ((hchild x).mpr ⟨hspends, hgone⟩)
        | false =>
          have htake := @Worklist.take _ _ _ _ _ _ [] _ h.worklist hpresent hnew (by simp) fun x hx _ => by cases hx.1
          rwa [List.append_nil] at htake
      · rw [lookup_erase, h.entries, hmap]
        by_cases hx : x = hash
        · simp [hx]
        · simp [hx]
      · rw [h.consistent.next_erase hentry, h.next, hmap]
        simp [and_assoc]
      · rcases List.mem_append.mp htx with htx | htx
        · exact h.listed tx htx
        · rw [List.mem_singleton.mp htx]
          exact ⟨entry, by rw [hkey, hold], rfl⟩

theorem Removing.run (h : Removing pool t fRecursive queue removed pool') (n : Nat) :
    Removing pool t fRecursive ((removeStep fRecursive)^[n] (queue, removed, pool')).1
      ((removeStep fRecursive)^[n] (queue, removed, pool')).2.1
      ((removeStep fRecursive)^[n] (queue, removed, pool')).2.2 := by
  induction n with
  | zero => exact h
  | succ n ih =>
    rw [Function.iterate_succ_apply']
    exact ih.step

/-! ## What goes -/

/-- The transactions of the pool under these hashes are taken out, each once; everything else stays. -/
structure TakesOut (pool : CTxMemPool) (gone : Uint256 → Prop) (removed : List CTransaction) (pool' : CTxMemPool) :
    Prop where
  listed : ∀ tx, tx ∈ removed ↔ ∃ hash entry, gone hash ∧ pool.mapTx.lookup hash = some entry ∧ entry.tx = tx
  once : (removed.map CTransaction.hash).Nodup
  mapTx_gone : ∀ hash, gone hash → pool'.mapTx.lookup hash = none
  mapTx_kept : ∀ hash, ¬ gone hash → pool'.mapTx.lookup hash = pool.mapTx.lookup hash
  mapNextTx : ∀ o p, pool'.mapNextTx.lookup o = some p ↔ pool.mapNextTx.lookup o = some p ∧ ¬ gone p.ptx

theorem Removing.takesOut (hpool : pool.Consistent) (h : Removing pool t fRecursive [] removed pool') :
    TakesOut pool (ReachedFrom (pool.Starts t fRecursive) (pool.Follows fRecursive)) removed pool' := by
  have hmem : ∀ x, x ∈ removed.map CTransaction.hash ↔
      ReachedFrom (pool.Starts t fRecursive) (pool.Follows fRecursive) x ∧ (pool.mapTx.lookup x).isSome := by
    intro x
    apply h.worklist.mem_iff
    rintro x y ⟨-, entry, hentry, -⟩
    simp [hentry]
  refine ⟨fun tx => ?_, h.worklist.nodup, fun hash hgone => ?_, fun hash hkept => ?_, fun o p => ?_⟩
  · constructor
    · intro htx
      obtain ⟨entry, hentry, heq⟩ := h.listed tx htx
      exact ⟨tx.hash, entry, ((hmem tx.hash).mp (List.mem_map_of_mem htx)).1, hentry, heq⟩
    · rintro ⟨hash, entry, hgone, hentry, rfl⟩
      obtain ⟨tx, htx, hhash⟩ := List.mem_map.mp ((hmem hash).mpr ⟨hgone, by simp [hentry]⟩)
      obtain ⟨e, he, rfl⟩ := h.listed tx htx
      rw [hhash, hentry] at he
      cases he
      exact htx
  · rw [h.entries]
    split
    · rfl
    · rename_i hnot
      cases hentry : pool.mapTx.lookup hash with
      | none => rfl
      | some entry => exact absurd ((hmem hash).mpr ⟨hgone, by simp [hentry]⟩) hnot
  · rw [h.entries, if_neg fun hin => hkept ((hmem hash).mp hin).1]
  · rw [h.next]
    refine and_congr_right fun hp => not_congr ?_
    obtain ⟨entry, hentry, -⟩ := hpool.spends o p hp
    rw [hmem, hentry]
    simp

theorem takesOut_remove (hpool : pool.Consistent) (t : CTransaction) (fRecursive : Bool) :
    TakesOut pool (ReachedFrom (pool.Starts t fRecursive) (pool.Follows fRecursive)) (pool.remove t fRecursive).1
      (pool.remove t fRecursive).2 := by
  obtain ⟨n, hn⟩ := @removeLoop_ends fRecursive pool.mapTx.entries.length (pool.txToRemove t fRecursive) []
    pool le_rfl
  have hend := (@removing_init pool fRecursive t hpool).run n
  rw [hn] at hend
  exact hend.takesOut hpool

theorem reachedFrom_false (hash : Uint256) :
    ReachedFrom (pool.Starts t false) (pool.Follows false) hash ↔ hash = t.hash := by
  constructor
  · intro h
    apply h.rec_on
    · rintro x (hx | ⟨hfalse, -⟩)
      · exact hx
      · cases hfalse
    · rintro x y - ⟨hfalse, -⟩ -
      cases hfalse
  · intro h
    exact .self (.inl h)

/-- Recursive removal is exact: the loop ends, and the transaction and what descends from it go, each once. Without the
recursion the transaction alone goes. -/
theorem remove_exact (pool : CTxMemPool) (h : pool.Consistent) (t : CTransaction) (removed : List CTransaction) :
    (∀ fRecursive, ∃ n, (removeStep fRecursive)^[n] (pool.txToRemove t fRecursive, removed, pool) =
      ([], removed ++ (pool.remove t fRecursive).1, (pool.remove t fRecursive).2)) ∧
    TakesOut pool (pool.Descends t) (pool.remove t true).1 (pool.remove t true).2 ∧
    TakesOut pool (fun hash => hash = t.hash) (pool.remove t false).1 (pool.remove t false).2 := by
  refine ⟨fun fRecursive => removeLoop_ends _ _ removed pool le_rfl, takesOut_remove h t true, ?_⟩
  have hfalse : ReachedFrom (pool.Starts t false) (pool.Follows false) = fun hash => hash = t.hash :=
    funext fun hash => propext (reachedFrom_false hash)
  rw [← hfalse]
  exact takesOut_remove h t false

/-- A transaction that spends these outputs and has two of its own. -/
def spender (hash : Uint256) (prevouts : List COutPoint) : CTransaction :=
  ⟨hash, 1, prevouts.map fun o => ⟨o, ([] : List UInt8), 0⟩, 
    [⟨1, ([] : List UInt8), 0⟩, ⟨1, ([] : List UInt8), 0⟩], 0⟩

/-- A transaction, a child, and a transaction that is a child of both. -/
def diamond : CTxMemPool :=
  ((CTxMemPool.empty.addUnchecked 1 ⟨spender 1 [⟨9, 0⟩], 100⟩).addUnchecked 2 ⟨spender 2 [⟨1, 0⟩], 100⟩).addUnchecked 3
    ⟨spender 3 [⟨1, 1⟩, ⟨2, 0⟩], 100⟩

theorem hasZerocoinSpendInputs_spender (hash : Uint256) (prevouts : List COutPoint) :
    (spender hash prevouts).hasZerocoinSpendInputs = false := by
  rw [CTransaction.hasZerocoinSpendInputs, List.any_eq_false]
  intro txin hin
  obtain ⟨o, -, rfl⟩ := List.mem_map.mp hin
  simp [CTxIn.isZerocoinSpend, CScript.isZerocoinSpend, CScript.startsWithOpcode, CScript.bytes]

theorem consistent_diamond : diamond.Consistent := by
  have hfirst := @Wf.addUnchecked _ (spender 1 [⟨9, 0⟩]) Wf.empty (by decide)
    (hasZerocoinSpendInputs_spender 1 _) (by decide) (by decide) 100
  have hsecond := @Wf.addUnchecked _ (spender 2 [⟨1, 0⟩]) hfirst (by decide)
    (hasZerocoinSpendInputs_spender 2 _) (by decide) (by decide) 100
  have hthird := @Wf.addUnchecked _ (spender 3 [⟨1, 1⟩, ⟨2, 0⟩]) hsecond (by decide)
    (hasZerocoinSpendInputs_spender 3 _) (by decide) (by decide) 100
  refine Wf.consistent hthird fun hash entry hentry => ?_
  rw [diamond, lookup_addUnchecked, lookup_addUnchecked, lookup_addUnchecked] at hentry
  split at hentry
  · cases hentry
    exact hasZerocoinSpendInputs_spender 3 _
  · split at hentry
    · cases hentry
      exact hasZerocoinSpendInputs_spender 2 _
    · split at hentry
      · cases hentry
        exact hasZerocoinSpendInputs_spender 1 _
      · rw [lookup_empty] at hentry
        cases hentry

/-- The grandchild is on the deque twice and goes once. -/
theorem remove_exact_diamond :
    TakesOut diamond (diamond.Descends (spender 1 [⟨9, 0⟩])) (diamond.remove (spender 1 [⟨9, 0⟩]) true).1
      (diamond.remove (spender 1 [⟨9, 0⟩]) true).2 ∧
    (diamond.remove (spender 1 [⟨9, 0⟩]) true).1.map CTransaction.hash = [1, 2, 3] :=
  ⟨(remove_exact diamond consistent_diamond (spender 1 [⟨9, 0⟩]) []).2.1, by decide⟩

end CTxMemPool

end DigiWage
