import DigiWage.Coins.View
import DigiWage.Lib.Ballot
import DigiWage.Lib.MapTotal

/-!
# The memory pool

`CTxMemPool` of `txmempool.cpp`: the transactions (`mapTx`), who spends which output (`mapNextTx`) and the total size.

* A pointer to a transaction of the pool is its hash.
* `removeLoop` is the loop of `remove` over the deque. It takes a transaction out in each round, so that there are at most
  as many rounds as transactions.
* `Wf`: `mapNextTx` has exactly the inputs of the transactions, with owner and index, and `totalTxSize` is the sum of the
  sizes. Adding and erasing keep it (`Wf.addUnchecked`, `Wf.erase`).
* `removes_loop`, `removes_true`: what `remove` takes out; after a recursive removal no transaction is left that spends an
  output of one that went.
-/

namespace DigiWage

open Lib

structure CTxMemPoolEntry where
  tx : CTransaction
  nTxSize : Nat
deriving DecidableEq, Repr

/-- `CInPoint`: the transaction that spends an output, and the index of the input. -/
structure CInPoint where
  ptx : Uint256
  n : Nat
deriving DecidableEq, Repr

structure CTxMemPool where
  mapTx : AList fun _ : Uint256 => CTxMemPoolEntry
  mapNextTx : AList fun _ : COutPoint => CInPoint
  totalTxSize : Nat

namespace CTxMemPool

def empty : CTxMemPool := ⟨∅, ∅, 0⟩

variable (pool : CTxMemPool)

/-- `CTxMemPool::exists`. -/
def contains (hash : Uint256) : Bool := (pool.mapTx.lookup hash).isSome

/-- The loop of `addUnchecked` over the inputs, from the index on. -/
def insertNext (hash : Uint256) : Nat → List CTxIn → (AList fun _ : COutPoint => CInPoint) →
    AList fun _ : COutPoint => CInPoint
  | _, [], m => m
  | i, txin :: vin, m => insertNext hash (i + 1) vin (m.insert txin.prevout ⟨hash, i⟩)

def addUnchecked (hash : Uint256) (entry : CTxMemPoolEntry) : CTxMemPool where
  mapTx := pool.mapTx.insert hash entry
  mapNextTx := if entry.tx.hasZerocoinSpendInputs then pool.mapNextTx else insertNext hash 0 entry.tx.vin pool.mapNextTx
  totalTxSize := pool.totalTxSize + entry.nTxSize

/-- The transactions of the pool that spend the outputs of a transaction. -/
def children (hash : Uint256) (tx : CTransaction) : List Uint256 :=
  (List.range tx.vout.length).filterMap fun i => (pool.mapNextTx.lookup ⟨hash, i⟩).map CInPoint.ptx

/-- The end of a round of `remove`: an entry goes. -/
def erase (hash : Uint256) (entry : CTxMemPoolEntry) : CTxMemPool where
  mapTx := pool.mapTx.erase hash
  mapNextTx := entry.tx.vin.foldl (fun m txin => m.erase txin.prevout) pool.mapNextTx
  totalTxSize := pool.totalTxSize - entry.nTxSize

/-- The first hash of the deque that is in the pool, its entry and the rest of the deque. -/
def nextToRemove : List Uint256 → Option (Uint256 × CTxMemPoolEntry × List Uint256)
  | [] => none
  | hash :: txToRemove =>
    match pool.mapTx.lookup hash with
    | none => nextToRemove txToRemove
    | some entry => some (hash, entry, txToRemove)

/-- The loop of `remove`, with the transactions that go. -/
def removeLoop (fRecursive : Bool) : Nat → List Uint256 → CTxMemPool → List CTransaction × CTxMemPool
  | 0, _, pool => ([], pool)
  | n + 1, txToRemove, pool =>
    match pool.nextToRemove txToRemove with
    | none => ([], pool)
    | some (hash, entry, rest) =>
      let r := removeLoop fRecursive n (if fRecursive then rest ++ pool.children hash entry.tx else rest)
        (pool.erase hash entry)
      (entry.tx :: r.1, r.2)

/-- `remove`, with the transactions that it appends to `removed`. -/
def remove (origTx : CTransaction) (fRecursive : Bool) : List CTransaction × CTxMemPool :=
  -- the children of a transaction that is not in the pool
  let txToRemove := if fRecursive && !pool.contains origTx.hash then origTx.hash :: pool.children origTx.hash origTx
    else [origTx.hash]
  removeLoop fRecursive pool.mapTx.entries.length txToRemove pool

/-- The body of the loop of `removeConflicts` for one input of a transaction. -/
def removeConflict (hash : Uint256) (r : List CTransaction × CTxMemPool) (txin : CTxIn) : List CTransaction × CTxMemPool :=
  match (r.2.mapNextTx.lookup txin.prevout).bind fun p => r.2.mapTx.lookup p.ptx with
  | none => r
  | some txConflict =>
    if txConflict.tx.hash = hash then r
    else
      let removed := r.2.remove txConflict.tx true
      (r.1 ++ removed.1, removed.2)

/-- `removeConflicts`, which appends to the conflicts so far. -/
def removeConflicts (tx : CTransaction) (r : List CTransaction × CTxMemPool) : List CTransaction × CTxMemPool :=
  tx.vin.foldl (removeConflict tx.hash) r

/-- `removeForBlock`, with the conflicts. -/
def removeForBlock (vtx : List CTransaction) : List CTransaction × CTxMemPool :=
  vtx.foldl (fun r tx => removeConflicts tx (r.1, (r.2.remove tx false).2)) ([], pool)

/-! ## Well-formed pools -/

/-- The pool has an entry for the transaction, and this input. -/
def Spends (o : COutPoint) (p : CInPoint) : Prop :=
  ∃ entry, pool.mapTx.lookup p.ptx = some entry ∧ entry.tx.vin[p.n]?.map CTxIn.prevout = some o

/-- The entries are under their hashes, `mapNextTx` has exactly their inputs, and `totalTxSize` is the sum of the sizes. -/
structure Wf : Prop where
  keyed : ∀ hash entry, pool.mapTx.lookup hash = some entry → entry.tx.hash = hash
  next : ∀ o p, pool.mapNextTx.lookup o = some p ↔ pool.Spends o p
  size : pool.totalTxSize = (pool.mapTx.entries.map fun e => e.2.nTxSize).sum

variable {pool} {pool' : CTxMemPool} {hash : Uint256} {entry : CTxMemPoolEntry} {tx : CTransaction}

@[simp] theorem lookup_empty (hash : Uint256) : CTxMemPool.empty.mapTx.lookup hash = none := AList.lookup_empty hash

theorem Wf.empty : Wf .empty := by
  refine ⟨fun hash entry h => ?_, fun o p => ?_, rfl⟩
  · rw [lookup_empty] at h
    cases h
  · have hnext : CTxMemPool.empty.mapNextTx.lookup o = none := AList.lookup_empty o
    simp only [hnext, Spends, lookup_empty, reduceCtorEq, false_and, exists_false]

theorem lookup_insertNext {o : COutPoint} {p : CInPoint} (vin : List CTxIn) : ∀ (i : Nat)
    (m : AList fun _ : COutPoint => CInPoint), (vin.map CTxIn.prevout).Nodup →
    ((insertNext hash i vin m).lookup o = some p ↔ (∃ j, p = ⟨hash, i + j⟩ ∧ vin[j]?.map CTxIn.prevout = some o) ∨
      (o ∉ vin.map CTxIn.prevout ∧ m.lookup o = some p)) := by
  induction vin with
  | nil =>
    intro i m _
    simp [insertNext]
  | cons txin vin ih =>
    intro i m hnodup
    obtain ⟨hnew, hnodup⟩ := List.nodup_cons.mp hnodup
    rw [insertNext, ih (i + 1) _ hnodup]
    by_cases ho : o = txin.prevout
    · subst ho
      rw [AList.lookup_insert]
      constructor
      · rintro (⟨j, -, hj⟩ | ⟨-, hp⟩)
        · obtain ⟨txin', hj, hprev⟩ := Option.map_eq_some_iff.mp hj
          exact absurd (List.mem_map.mpr ⟨txin', List.mem_of_getElem? hj, hprev⟩) hnew
        · exact .inl ⟨0, (Option.some.inj hp).symm, rfl⟩
      · rintro (⟨j, rfl, hj⟩ | ⟨hnot, -⟩)
        · cases j with
          | zero => exact .inr ⟨hnew, rfl⟩
          | succ j =>
            rw [List.getElem?_cons_succ] at hj
            obtain ⟨txin', hj, hprev⟩ := Option.map_eq_some_iff.mp hj
            exact absurd (List.mem_map.mpr ⟨txin', List.mem_of_getElem? hj, hprev⟩) hnew
        · simp at hnot
    · rw [AList.lookup_insert_ne ho]
      refine or_congr ⟨?_, ?_⟩ (and_congr_left fun _ => by simp [ho])
      · rintro ⟨j, rfl, hj⟩
        exact ⟨j + 1, by rw [Nat.add_right_comm, Nat.add_assoc], hj⟩
      · rintro ⟨j, rfl, hj⟩
        cases j with
        | zero => simp [Ne.symm ho] at hj
        | succ j => exact ⟨j, by rw [Nat.add_right_comm, Nat.add_assoc], hj⟩

theorem lookup_foldl_erase (o : COutPoint) (vin : List CTxIn) : ∀ m : AList fun _ : COutPoint => CInPoint,
    (vin.foldl (fun m txin => m.erase txin.prevout) m).lookup o =
      if o ∈ vin.map CTxIn.prevout then none else m.lookup o := by
  induction vin with
  | nil => simp
  | cons txin vin ih =>
    intro m
    rw [List.foldl_cons, ih]
    by_cases ho : o = txin.prevout
    · subst ho
      simp [AList.lookup_erase]
    · simp [ho, AList.lookup_erase_ne ho]

theorem lookup_addUnchecked (x : Uint256) :
    (pool.addUnchecked hash entry).mapTx.lookup x = if x = hash then some entry else pool.mapTx.lookup x := by
  split
  · rename_i heq
    rw [heq]
    exact AList.lookup_insert _
  · rename_i hne
    exact AList.lookup_insert_ne hne

theorem lookup_erase (x : Uint256) :
    (pool.erase hash entry).mapTx.lookup x = if x = hash then none else pool.mapTx.lookup x := by
  split
  · rename_i heq
    rw [heq]
    exact AList.lookup_erase _ _
  · rename_i hne
    exact AList.lookup_erase_ne hne

theorem Wf.spends_unique (h : pool.Wf) {o : COutPoint} {p p' : CInPoint} (hp : pool.Spends o p) (hp' : pool.Spends o p') :
    p = p' := Option.some.inj (((h.next o p).mpr hp).symm.trans ((h.next o p').mpr hp'))

theorem Wf.addUnchecked (h : pool.Wf) (hnew : pool.mapTx.lookup tx.hash = none) (hz : tx.hasZerocoinSpendInputs = false)
    (hnodup : (tx.vin.map CTxIn.prevout).Nodup) (hfree : ∀ txin ∈ tx.vin, pool.mapNextTx.lookup txin.prevout = none)
    (nTxSize : Nat) : (pool.addUnchecked tx.hash ⟨tx, nTxSize⟩).Wf := by
  refine ⟨fun hash entry hentry => ?_, fun o p => ?_, ?_⟩
  · rw [lookup_addUnchecked] at hentry
    split at hentry
    · rename_i heq
      cases hentry
      exact heq.symm
    · exact h.keyed hash entry hentry
  · unfold Spends
    rw [lookup_addUnchecked]
    unfold CTxMemPool.addUnchecked
    dsimp only
    rw [hz, if_neg (by simp), lookup_insertNext _ _ _ hnodup]
    constructor
    · rintro (⟨j, rfl, hj⟩ | ⟨-, hp⟩)
      · exact ⟨⟨tx, nTxSize⟩, if_pos rfl, by simpa using hj⟩
      · obtain ⟨entry, hentry, hin⟩ := (h.next o p).mp hp
        refine ⟨entry, ?_, hin⟩
        rw [if_neg ?_, hentry]
        rintro heq
        rw [heq, hnew] at hentry
        cases hentry
    · rintro ⟨entry, hentry, hin⟩
      split at hentry
      · rename_i heq
        cases hentry
        exact .inl ⟨p.n, by rw [← heq, Nat.zero_add], hin⟩
      · have hold := (h.next o p).mpr ⟨entry, hentry, hin⟩
        refine .inr ⟨fun hmem => ?_, hold⟩
        obtain ⟨txin, htxin, rfl⟩ := List.mem_map.mp hmem
        rw [hfree txin htxin] at hold
        cases hold
  · have hnot : tx.hash ∉ pool.mapTx := AList.lookup_eq_none.mp hnew
    unfold CTxMemPool.addUnchecked
    dsimp only
    rw [AList.entries_insert_of_notMem hnot, List.map_cons, List.sum_cons, h.size, Nat.add_comm]

theorem Wf.erase (h : pool.Wf) (hentry : pool.mapTx.lookup hash = some entry) : (pool.erase hash entry).Wf := by
  refine ⟨fun x e he => ?_, fun o p => ?_, ?_⟩
  · rw [lookup_erase] at he
    split at he
    · cases he
    · exact h.keyed x e he
  · unfold Spends
    rw [lookup_erase]
    unfold CTxMemPool.erase
    dsimp only
    rw [lookup_foldl_erase]
    constructor
    · intro hp
      split at hp
      · cases hp
      · rename_i hnot
        obtain ⟨e, he, hin⟩ := (h.next o p).mp hp
        refine ⟨e, ?_, hin⟩
        rw [if_neg ?_, he]
        rintro heq
        rw [heq, hentry] at he
        cases he
        obtain ⟨txin, hn, hprev⟩ := Option.map_eq_some_iff.mp hin
        exact hnot (List.mem_map.mpr ⟨txin, List.mem_of_getElem? hn, hprev⟩)
    · rintro ⟨e, he, hin⟩
      split at he
      · cases he
      · rename_i hne
        rw [if_neg ?_]
        · exact (h.next o p).mpr ⟨e, he, hin⟩
        · intro hmem
          obtain ⟨txin, htxin, hprev⟩ := List.mem_map.mp hmem
          obtain ⟨i, hi⟩ := List.getElem?_of_mem htxin
          have hspends : pool.Spends o ⟨hash, i⟩ := ⟨entry, hentry, by rw [hi, Option.map_some, hprev]⟩
          exact hne (congrArg CInPoint.ptx (h.spends_unique ⟨e, he, hin⟩ hspends))
  · have hsum := ((perm_erase hentry).map fun e => e.2.nTxSize).sum_eq
    rw [List.map_cons, List.sum_cons] at hsum
    show pool.totalTxSize - entry.nTxSize = ((pool.mapTx.erase hash).entries.map fun e => e.2.nTxSize).sum
    rw [h.size, hsum]
    exact Nat.add_sub_cancel_left _ _

/-! ## Removing -/

/-- The entries of the first pool are entries of the second one. -/
def Sub (pool' pool : CTxMemPool) : Prop :=
  ∀ hash entry, pool'.mapTx.lookup hash = some entry → pool.mapTx.lookup hash = some entry

theorem Sub.refl (pool : CTxMemPool) : Sub pool pool := fun _ _ h => h

theorem Sub.trans {pool'' : CTxMemPool} (h : Sub pool'' pool') (h' : Sub pool' pool) : Sub pool'' pool :=
  fun hash entry hentry => h' hash entry (h hash entry hentry)

theorem Sub.lookup_eq_none (h : Sub pool' pool) (hnone : pool.mapTx.lookup hash = none) :
    pool'.mapTx.lookup hash = none := by
  cases hentry : pool'.mapTx.lookup hash with
  | none => rfl
  | some entry =>
    rw [h hash entry hentry] at hnone
    cases hnone

theorem sub_erase : Sub (pool.erase hash entry) pool := by
  intro x e he
  rw [lookup_erase] at he
  split at he
  · cases he
  · exact he

/-- Of what the first pool keeps, it keeps the transactions of the second one whose outputs are spent. -/
def Closed (pool' pool : CTxMemPool) : Prop :=
  ∀ hash entry, pool'.mapTx.lookup hash = some entry → ∀ txin ∈ entry.tx.vin, ∀ parent,
    pool.mapTx.lookup txin.prevout.hash = some parent → txin.prevout.n < parent.tx.vout.length →
    pool'.mapTx.lookup txin.prevout.hash = some parent

theorem nextToRemove_none : ∀ {txToRemove : List Uint256}, pool.nextToRemove txToRemove = none →
    ∀ x ∈ txToRemove, pool.mapTx.lookup x = none := by
  intro txToRemove
  induction txToRemove with
  | nil => simp
  | cons x txToRemove ih =>
    intro hnext
    unfold nextToRemove at hnext
    split at hnext
    · rename_i hx
      simp only [List.mem_cons, forall_eq_or_imp]
      exact ⟨hx, ih hnext⟩
    · cases hnext

theorem nextToRemove_some {rest : List Uint256} : ∀ {txToRemove : List Uint256},
    pool.nextToRemove txToRemove = some (hash, entry, rest) → pool.mapTx.lookup hash = some entry ∧
      (∀ x ∈ txToRemove, pool.mapTx.lookup x = none ∨ x = hash ∨ x ∈ rest) ∧ ∀ x ∈ hash :: rest, x ∈ txToRemove := by
  intro txToRemove
  induction txToRemove with
  | nil => simp [nextToRemove]
  | cons x txToRemove ih =>
    intro hnext
    unfold nextToRemove at hnext
    split at hnext
    · rename_i hx
      obtain ⟨hentry, hrest, hsub⟩ := ih hnext
      refine ⟨hentry, fun y hy => ?_, fun y hy => List.mem_cons_of_mem x (hsub y hy)⟩
      rcases List.mem_cons.mp hy with rfl | hy
      · exact .inl hx
      · exact hrest y hy
    · rename_i e he
      cases hnext
      refine ⟨he, fun y hy => ?_, fun y hy => hy⟩
      rcases List.mem_cons.mp hy with rfl | hy
      · exact .inr (.inl rfl)
      · exact .inr (.inr hy)

theorem lookup_of_length (hlength : pool.mapTx.entries.length = 0) (x : Uint256) : pool.mapTx.lookup x = none := by
  rw [AList.lookup_eq_none]
  intro hmem
  have hkeys : x ∈ pool.mapTx.entries.keys := hmem
  rw [List.length_eq_zero_iff.mp hlength] at hkeys
  simp at hkeys

theorem length_erase (hentry : pool.mapTx.lookup hash = some entry) :
    (pool.erase hash entry).mapTx.entries.length < pool.mapTx.entries.length := by
  rw [(perm_erase hentry).length_eq]
  exact Nat.lt_succ_self _

theorem Wf.mem_children (h : pool.Wf) (hentry : pool.mapTx.lookup hash = some entry) {txin : CTxIn}
    (hin : txin ∈ entry.tx.vin) (hn : txin.prevout.n < tx.vout.length) : hash ∈ pool.children txin.prevout.hash tx := by
  obtain ⟨i, hi⟩ := List.getElem?_of_mem hin
  have hspends : pool.Spends txin.prevout ⟨hash, i⟩ := ⟨entry, hentry, by rw [hi]; rfl⟩
  refine List.mem_filterMap.mpr ⟨txin.prevout.n, List.mem_range.mpr hn, ?_⟩
  rw [(h.next _ _).mpr hspends]
  rfl

theorem sub_removeLoop (fRecursive : Bool) (n : Nat) : ∀ (txToRemove : List Uint256) (pool : CTxMemPool),
    Sub (removeLoop fRecursive n txToRemove pool).2 pool := by
  induction n with
  | zero => exact fun _ pool => .refl pool
  | succ n ih =>
    intro txToRemove pool
    unfold removeLoop
    cases pool.nextToRemove txToRemove with
    | none => exact .refl pool
    | some r => exact (ih _ _).trans sub_erase

theorem sub_remove (tx : CTransaction) (fRecursive : Bool) (pool : CTxMemPool) : Sub (pool.remove tx fRecursive).2 pool :=
  sub_removeLoop fRecursive _ _ pool

theorem sub_removeConflicts (tx : CTransaction) : ∀ r : List CTransaction × CTxMemPool, Sub (removeConflicts tx r).2 r.2 := by
  unfold removeConflicts
  induction tx.vin with
  | nil => exact fun r => .refl r.2
  | cons txin vin ih =>
    intro r
    rw [List.foldl_cons]
    refine (ih _).trans ?_
    unfold removeConflict
    split
    · exact .refl r.2
    · split
      · exact .refl r.2
      · exact sub_remove _ true r.2

theorem sub_removeForBlock (vtx : List CTransaction) (pool : CTxMemPool) : Sub (pool.removeForBlock vtx).2 pool := by
  have hgeneral : ∀ r : List CTransaction × CTxMemPool,
      Sub (vtx.foldl (fun r tx => removeConflicts tx (r.1, (r.2.remove tx false).2)) r).2 r.2 := by
    induction vtx with
    | nil => exact fun r => .refl r.2
    | cons tx vtx ih =>
      intro r
      rw [List.foldl_cons]
      exact (ih _).trans ((sub_removeConflicts tx _).trans (sub_remove tx false r.2))
  exact hgeneral ([], pool)

/-- What the loop of `remove` leaves. -/
structure Removes (fRecursive : Bool) (txToRemove : List Uint256) (pool pool' : CTxMemPool) : Prop where
  wf : pool'.Wf
  sub : Sub pool' pool
  gone : ∀ x ∈ txToRemove, pool'.mapTx.lookup x = none
  closed : fRecursive = true → Closed pool' pool
  others : fRecursive = false → ∀ x, x ∉ txToRemove → pool'.mapTx.lookup x = pool.mapTx.lookup x

theorem removes_loop (fRecursive : Bool) (n : Nat) : ∀ (txToRemove : List Uint256) {pool : CTxMemPool}, pool.Wf →
    pool.mapTx.entries.length ≤ n → Removes fRecursive txToRemove pool (removeLoop fRecursive n txToRemove pool).2 := by
  have hstop : ∀ {txToRemove : List Uint256} {pool : CTxMemPool}, pool.Wf →
      (∀ x ∈ txToRemove, pool.mapTx.lookup x = none) → Removes fRecursive txToRemove pool pool := by
    intro txToRemove pool hwf hgone
    exact ⟨hwf, .refl pool, hgone, fun _ _ _ _ _ _ _ hparent _ => hparent, fun _ _ _ => rfl⟩
  induction n with
  | zero =>
    intro txToRemove pool hwf hlength
    exact hstop hwf fun x _ => lookup_of_length (by omega) x
  | succ n ih =>
    intro txToRemove pool hwf hlength
    unfold removeLoop
    cases hnext : pool.nextToRemove txToRemove with
    | none => exact hstop hwf (nextToRemove_none hnext)
    | some r =>
      obtain ⟨hash, entry, rest⟩ := r
      obtain ⟨hentry, hrest, hqueue⟩ := nextToRemove_some hnext
      have hshorter := length_erase hentry
      have hgoes := ih (if fRecursive then rest ++ pool.children hash entry.tx else rest) (hwf.erase hentry) (by omega)
      dsimp only
      have hsub := hgoes.sub.trans sub_erase
      have hhash : (removeLoop fRecursive n (if fRecursive then rest ++ pool.children hash entry.tx else rest)
          (pool.erase hash entry)).2.mapTx.lookup hash = none :=
        hgoes.sub.lookup_eq_none (by rw [lookup_erase, if_pos rfl])
      refine ⟨hgoes.wf, hsub, fun x hx => ?_, fun hrec => ?_, fun hrec x hx => ?_⟩
      · rcases hrest x hx with hnone | rfl | hmem
        · exact hsub.lookup_eq_none hnone
        · exact hhash
        · apply hgoes.gone
          split
          · exact List.mem_append_left _ hmem
          · exact hmem
      · intro y e he txin hin parent hparent hn
        by_cases heq : txin.prevout.hash = hash
        · -- A child of the transaction that goes is put on the deque, so that it goes too.
          rw [heq, hentry] at hparent
          cases hparent
          have hchild := hwf.mem_children (hsub y e he) hin hn
          rw [heq] at hchild
          have hgone := hgoes.gone y (by rw [if_pos hrec]; exact List.mem_append_right _ hchild)
          rw [hgone] at he
          cases he
        · refine hgoes.closed hrec y e he txin hin parent ?_ hn
          rw [lookup_erase, if_neg heq]
          exact hparent
      · subst hrec
        have hne : x ≠ hash := fun heq => hx (hqueue x (by simp [heq]))
        rw [hgoes.others rfl x fun hmem => hx (hqueue x (List.mem_cons_of_mem _ hmem)), lookup_erase, if_neg hne]

theorem removes_false (h : pool.Wf) (tx : CTransaction) : Removes false [tx.hash] pool (pool.remove tx false).2 :=
  removes_loop false _ _ h le_rfl

theorem removes_true (h : pool.Wf) (tx : CTransaction) : Removes true [tx.hash] pool (pool.remove tx true).2 ∧
    (pool.mapTx.lookup tx.hash = none → ∀ hash entry, (pool.remove tx true).2.mapTx.lookup hash = some entry →
      ∀ txin ∈ entry.tx.vin, txin.prevout.hash = tx.hash → tx.vout.length ≤ txin.prevout.n) := by
  have hgoes := removes_loop true pool.mapTx.entries.length
    (if true && !pool.contains tx.hash then tx.hash :: pool.children tx.hash tx else [tx.hash]) h le_rfl
  have hself : tx.hash ∈ if true && !pool.contains tx.hash then tx.hash :: pool.children tx.hash tx else [tx.hash] := by
    split <;> simp
  refine ⟨⟨hgoes.wf, hgoes.sub, fun x hx => ?_, hgoes.closed, fun hrec => by cases hrec⟩, ?_⟩
  · rw [List.mem_singleton.mp hx]
    exact hgoes.gone _ hself
  · intro hnone hash entry hentry txin hin heq
    by_contra hn
    have hchild := h.mem_children (hgoes.sub hash entry hentry) hin (Nat.lt_of_not_le hn)
    have habsent : (true && !pool.contains tx.hash) = true := by simp [contains, hnone]
    have hgone := hgoes.gone hash (by
      rw [if_pos habsent, ← heq]
      exact List.mem_cons_of_mem _ hchild)
    have hentry : (removeLoop true pool.mapTx.entries.length _ pool).2.mapTx.lookup hash = some entry := hentry
    rw [hgone] at hentry
    cases hentry

end CTxMemPool

end DigiWage
