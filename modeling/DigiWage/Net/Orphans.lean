import DigiWage.Serialize
import DigiWage.Lib.InverseIndex
import DigiWage.Lib.MapTotal
import DigiWage.Lib.Run

/-!
# Orphan transactions

`mapOrphanTransactions` and `mapOrphanTransactionsByPrev` of `main.cpp`, with the functions that keep them. A `std::map`
is an `AList`; where the source goes through one in the order of its keys, `keysInOrder` is that order.

* `Wf.addOrphanTx`, `Wf.eraseOrphanTx`: the two functions that change the maps keep them inverse; the others call them.
-/

namespace DigiWage.Net

open Lib Lib.KeyIndex

abbrev NodeId := Int

/-! ## Sizes -/

/-- `CTxIn::GetSerializeSize`. -/
def sizeTxIn (txin : CTxIn) : Nat :=
  32 + 4 + (writeCompactSize txin.scriptSig.bytes.length).length + txin.scriptSig.bytes.length + 4

/-- `CTxOut::GetSerializeSize`. -/
def sizeTxOut (txout : CTxOut) : Nat :=
  8 + (writeCompactSize txout.scriptPubKey.bytes.length).length + txout.scriptPubKey.bytes.length

/-- `CTransaction::GetSerializeSize`. -/
def sizeTx (tx : CTransaction) : Nat :=
  4 + (writeCompactSize tx.vin.length).length + (tx.vin.map sizeTxIn).sum +
    (writeCompactSize tx.vout.length).length + (tx.vout.map sizeTxOut).sum + 4

/-! ## The maps -/

structure COrphanTx where
  tx : CTransaction
  fromPeer : NodeId
deriving DecidableEq

/-- The two maps. -/
structure OrphanMaps where
  mapOrphanTransactions : AList fun _ : Uint256 => COrphanTx
  mapOrphanTransactionsByPrev : KeyIndex Uint256 Uint256

/-- The keys of a map, from the smallest. -/
def keysInOrder (m : AList fun _ : Uint256 => COrphanTx) : List Uint256 :=
  m.keys.mergeSort fun a b => decide (a.toNat ≤ b.toNat)

namespace OrphanMaps

/-- No orphans. -/
def empty : OrphanMaps := ⟨∅, ∅⟩

def addOrphanTx (s : OrphanMaps) (tx : CTransaction) (peer : NodeId) : Bool × OrphanMaps :=
  let hash := tx.hash
  if (s.mapOrphanTransactions.lookup hash).isSome then (false, s)
  else
    let sz := sizeTx tx % 2 ^ 32
    if 5000 < sz then (false, s)
    else
      (true, { mapOrphanTransactions := s.mapOrphanTransactions.insert hash ⟨tx, peer⟩
               mapOrphanTransactionsByPrev := tx.vin.foldl (fun m txin => m.link hash txin.prevout.hash)
                 s.mapOrphanTransactionsByPrev })

def eraseOrphanTx (s : OrphanMaps) (hash : Uint256) : OrphanMaps :=
  match s.mapOrphanTransactions.lookup hash with
  | none => s
  | some orphan =>
    { mapOrphanTransactionsByPrev := orphan.tx.vin.foldl (fun m txin => m.unlink hash txin.prevout.hash)
        s.mapOrphanTransactionsByPrev
      mapOrphanTransactions := s.mapOrphanTransactions.erase hash }

/-- The loop of `EraseOrphansFor`, over the keys that the iterator has before it; `none` when the entry it stands on is
gone. -/
def eraseOrphansForLoop (peer : NodeId) : List Uint256 → OrphanMaps → Option OrphanMaps
  | [], s => some s
  | key :: rest, s =>
    match s.mapOrphanTransactions.lookup key with
    | none => none
    | some maybeErase =>
      if maybeErase.fromPeer = peer then eraseOrphansForLoop peer rest (s.eraseOrphanTx maybeErase.tx.hash)
      else eraseOrphansForLoop peer rest s

def eraseOrphansFor (s : OrphanMaps) (peer : NodeId) : Option OrphanMaps :=
  eraseOrphansForLoop peer (keysInOrder s.mapOrphanTransactions) s

/-- The orphan at `lower_bound(randomhash)`, or the first one. -/
def pickOrphan (s : OrphanMaps) (randomhash : Uint256) : Option Uint256 :=
  let keys := keysInOrder s.mapOrphanTransactions
  (keys.find? fun key => decide (randomhash.toNat ≤ key.toNat)).or keys.head?

/-- The loop of `LimitOrphanTxSize`, with the random hash of each round; `none` when the fuel runs out, and when the
iterator of an empty map is dereferenced. -/
def limitOrphanTxSizeLoop (nMaxOrphans : Nat) (randomhash : Nat → Uint256) : Nat → Nat → OrphanMaps → Option (Nat × OrphanMaps)
  | 0, _, _ => none
  | fuel + 1, nEvicted, s =>
    if nMaxOrphans < s.mapOrphanTransactions.entries.length then
      match s.pickOrphan (randomhash nEvicted) with
      | none => none
      | some key => limitOrphanTxSizeLoop nMaxOrphans randomhash fuel (nEvicted + 1) (s.eraseOrphanTx key)
    else some (nEvicted, s)

def limitOrphanTxSize (s : OrphanMaps) (nMaxOrphans : Nat) (randomhash : Nat → Uint256) : Option (Nat × OrphanMaps) :=
  limitOrphanTxSizeLoop nMaxOrphans randomhash (s.mapOrphanTransactions.entries.length + 1) 0 s

/-! ## The invariant -/

/-- The hashes of the transactions that a stored orphan spends from. -/
def refs (orphan : COrphanTx) : List Uint256 := orphan.tx.vin.map fun txin => txin.prevout.hash

/-- The orphans are under their hashes, and the second map is the inverse index of the first. -/
structure Wf (s : OrphanMaps) : Prop where
  keyed : ∀ hash orphan, s.mapOrphanTransactions.lookup hash = some orphan → orphan.tx.hash = hash
  inverse : Inverse refs s.mapOrphanTransactions s.mapOrphanTransactionsByPrev

theorem wf_empty : empty.Wf := by
  refine ⟨fun hash orphan h => ?_, inverse_empty⟩
  simp [empty] at h

variable {s : OrphanMaps}

theorem Wf.addOrphanTx (h : s.Wf) (tx : CTransaction) (peer : NodeId) : (s.addOrphanTx tx peer).2.Wf := by
  unfold OrphanMaps.addOrphanTx
  dsimp only
  split
  · exact h
  · rename_i hnew
    split
    · exact h
    · rw [Option.not_isSome_iff_eq_none] at hnew
      refine ⟨fun hash orphan hlookup => ?_, ?_⟩
      · by_cases hhash : hash = tx.hash
        · rw [hhash, AList.lookup_insert] at hlookup
          cases hlookup
          exact hhash.symm
        · rw [AList.lookup_insert_ne hhash] at hlookup
          exact h.keyed hash orphan hlookup
      · have hinsert := h.inverse.insert (v := ⟨tx, peer⟩) hnew
        rwa [refs, List.foldl_map] at hinsert

theorem Wf.eraseOrphanTx (h : s.Wf) (hash : Uint256) : (s.eraseOrphanTx hash).Wf := by
  unfold OrphanMaps.eraseOrphanTx
  cases hlookup : s.mapOrphanTransactions.lookup hash with
  | none => exact h
  | some orphan =>
    refine ⟨fun hash' orphan' hlookup' => ?_, ?_⟩
    · by_cases hhash : hash' = hash
      · rw [hhash, AList.lookup_erase] at hlookup'
        cases hlookup'
      · rw [AList.lookup_erase_ne hhash] at hlookup'
        exact h.keyed hash' orphan' hlookup'
    · have herase := h.inverse.erase hlookup
      rwa [refs, List.foldl_map] at herase

theorem mapOrphanTransactions_eraseOrphanTx (s : OrphanMaps) (hash : Uint256) :
    (s.eraseOrphanTx hash).mapOrphanTransactions = s.mapOrphanTransactions.erase hash := by
  unfold OrphanMaps.eraseOrphanTx
  cases hlookup : s.mapOrphanTransactions.lookup hash with
  | none =>
    have hnot : hash ∉ s.mapOrphanTransactions.keys := AList.lookup_eq_none.mp hlookup
    exact AList.ext (List.kerase_of_notMem_keys hnot).symm
  | some orphan => rfl

theorem Wf.eraseOrphansForLoop (peer : NodeId) : ∀ (keys : List Uint256) {s : OrphanMaps}, s.Wf → keys.Nodup →
    (∀ key ∈ keys, key ∈ s.mapOrphanTransactions) → ∃ s', eraseOrphansForLoop peer keys s = some s' ∧ s'.Wf
  | [], s, h, _, _ => ⟨s, rfl, h⟩
  | key :: rest, s, h, hnodup, hmem => by
    obtain ⟨hkey, hrest⟩ := List.nodup_cons.mp hnodup
    obtain ⟨orphan, hlookup⟩ := Option.isSome_iff_exists.mp (AList.lookup_isSome.mpr (hmem key List.mem_cons_self))
    have hmem' : ∀ key' ∈ rest, key' ∈ s.mapOrphanTransactions := fun key' hkey' => hmem key' (List.mem_cons_of_mem _ hkey')
    unfold OrphanMaps.eraseOrphansForLoop
    simp only [hlookup]
    split
    · refine Wf.eraseOrphansForLoop peer rest (h.eraseOrphanTx _) hrest fun key' hkey' => ?_
      rw [h.keyed key orphan hlookup, mapOrphanTransactions_eraseOrphanTx, AList.mem_erase]
      exact ⟨fun heq => hkey (heq ▸ hkey'), hmem' key' hkey'⟩
    · exact Wf.eraseOrphansForLoop peer rest h hrest hmem'

theorem mem_keysInOrder {m : AList fun _ : Uint256 => COrphanTx} {key : Uint256} : key ∈ keysInOrder m ↔ key ∈ m :=
  List.mem_mergeSort.trans AList.mem_keys.symm

theorem Wf.eraseOrphansFor (h : s.Wf) (peer : NodeId) : ∃ s', s.eraseOrphansFor peer = some s' ∧ s'.Wf := by
  refine Wf.eraseOrphansForLoop peer _ h ?_ fun key hkey => mem_keysInOrder.mp hkey
  exact (List.mergeSort_perm _ _).nodup_iff.mpr s.mapOrphanTransactions.keys_nodup

theorem exists_pickOrphan (s : OrphanMaps) (hpos : 0 < s.mapOrphanTransactions.entries.length) (randomhash : Uint256) :
    ∃ key, s.pickOrphan randomhash = some key ∧ key ∈ s.mapOrphanTransactions := by
  unfold pickOrphan
  dsimp only
  cases hfind : (keysInOrder s.mapOrphanTransactions).find? fun key => decide (randomhash.toNat ≤ key.toNat) with
  | some key => exact ⟨key, rfl, mem_keysInOrder.mp (List.mem_of_find?_eq_some hfind)⟩
  | none =>
    cases hkeys : keysInOrder s.mapOrphanTransactions with
    | nil =>
      have hlen : (keysInOrder s.mapOrphanTransactions).length = s.mapOrphanTransactions.entries.length := by
        rw [keysInOrder, List.length_mergeSort, AList.keys, List.keys, List.length_map]
      rw [hkeys, List.length_nil] at hlen
      omega
    | cons key rest => exact ⟨key, rfl, mem_keysInOrder.mp (hkeys ▸ List.mem_cons_self)⟩

theorem length_eraseOrphanTx {hash : Uint256} (hmem : hash ∈ s.mapOrphanTransactions) :
    (s.eraseOrphanTx hash).mapOrphanTransactions.entries.length + 1 = s.mapOrphanTransactions.entries.length := by
  rw [mapOrphanTransactions_eraseOrphanTx]
  obtain ⟨orphan, horphan⟩ := Option.isSome_iff_exists.mp (AList.lookup_isSome.mpr hmem)
  exact (perm_erase horphan).length_eq.symm

theorem Wf.limitOrphanTxSizeLoop (nMaxOrphans : Nat) (randomhash : Nat → Uint256) : ∀ (fuel nEvicted : Nat) {s : OrphanMaps},
    s.Wf → s.mapOrphanTransactions.entries.length < fuel → ∃ n s',
      limitOrphanTxSizeLoop nMaxOrphans randomhash fuel nEvicted s = some (n, s') ∧ s'.Wf ∧
        s'.mapOrphanTransactions.entries.length = min s.mapOrphanTransactions.entries.length nMaxOrphans
  | 0, _, _, _, hfuel => absurd hfuel (Nat.not_lt_zero _)
  | fuel + 1, nEvicted, s, h, hfuel => by
    unfold OrphanMaps.limitOrphanTxSizeLoop
    split
    · rename_i hlt
      obtain ⟨key, hpick, hmem⟩ := s.exists_pickOrphan (by omega) (randomhash nEvicted)
      have hlen := length_eraseOrphanTx hmem
      simp only [hpick]
      obtain ⟨n, s', hloop, hwf, hlen'⟩ := Wf.limitOrphanTxSizeLoop nMaxOrphans randomhash fuel (nEvicted + 1)
        (h.eraseOrphanTx key) (by omega)
      exact ⟨n, s', hloop, hwf, by omega⟩
    · exact ⟨nEvicted, s, rfl, h, by omega⟩

theorem Wf.limitOrphanTxSize (h : s.Wf) (nMaxOrphans : Nat) (randomhash : Nat → Uint256) : ∃ n s',
    s.limitOrphanTxSize nMaxOrphans randomhash = some (n, s') ∧ s'.Wf ∧
      s'.mapOrphanTransactions.entries.length = min s.mapOrphanTransactions.entries.length nMaxOrphans :=
  h.limitOrphanTxSizeLoop nMaxOrphans randomhash _ 0 (Nat.lt_succ_self _)

end OrphanMaps

/-! ## Runs -/

/-- A call of one of the functions, with the random hashes it draws. -/
inductive OrphanOp where
  | addOrphanTx (tx : CTransaction) (peer : NodeId)
  | eraseOrphanTx (hash : Uint256)
  | eraseOrphansFor (peer : NodeId)
  | limitOrphanTxSize (nMaxOrphans : Nat) (randomhash : Nat → Uint256)

namespace OrphanMaps

/-- The maps after a call. -/
def step (s : OrphanMaps) : OrphanOp → Option OrphanMaps
  | .addOrphanTx tx peer => some (s.addOrphanTx tx peer).2
  | .eraseOrphanTx hash => some (s.eraseOrphanTx hash)
  | .eraseOrphansFor peer => s.eraseOrphansFor peer
  | .limitOrphanTxSize nMaxOrphans randomhash => (s.limitOrphanTxSize nMaxOrphans randomhash).map Prod.snd

theorem Wf.step {s : OrphanMaps} (h : s.Wf) (op : OrphanOp) : ∃ s', s.step op = some s' ∧ s'.Wf := by
  cases op with
  | addOrphanTx tx peer => exact ⟨_, rfl, h.addOrphanTx tx peer⟩
  | eraseOrphanTx hash => exact ⟨_, rfl, h.eraseOrphanTx hash⟩
  | eraseOrphansFor peer => exact h.eraseOrphansFor peer
  | limitOrphanTxSize nMaxOrphans randomhash =>
    obtain ⟨n, s', hlimit, hwf, -⟩ := h.limitOrphanTxSize nMaxOrphans randomhash
    exact ⟨s', by rw [OrphanMaps.step, hlimit, Option.map_some], hwf⟩

/-- Every sequence of calls has a result. There the second map is the inverse index of the first and has no empty set, and
`LimitOrphanTxSize` ends with at most as many orphans as are allowed. -/
theorem inverse_run (ops : List OrphanOp) : ∃ s, ops.foldlM step empty = some s ∧
    (∀ p h, h ∈ s.mapOrphanTransactionsByPrev.keysAt p ↔
      ∃ orphan, s.mapOrphanTransactions.lookup h = some orphan ∧ ∃ txin ∈ orphan.tx.vin, txin.prevout.hash = p) ∧
    (∀ p keys, s.mapOrphanTransactionsByPrev.lookup p = some keys → keys ≠ ∅) ∧
    ∀ nMaxOrphans randomhash, ∃ nEvicted s', s.limitOrphanTxSize nMaxOrphans randomhash = some (nEvicted, s') ∧
      s'.mapOrphanTransactions.entries.length ≤ nMaxOrphans := by
  obtain ⟨s, hrun, hwf⟩ := Meets.exists_run (P := fun _ _ => True) (I := Wf) (fun s op h _ => h.step op) wf_empty
    (Meets.of_forall fun _ _ _ => trivial)
  refine ⟨s, hrun, fun p h => ?_, hwf.inverse.noneEmpty, fun nMaxOrphans randomhash => ?_⟩
  · rw [hwf.inverse.mem_iff]
    simp only [refs, List.mem_map]
  · obtain ⟨nEvicted, s', hlimit, -, hlen⟩ := hwf.limitOrphanTxSize nMaxOrphans randomhash
    exact ⟨nEvicted, s', hlimit, by omega⟩

end OrphanMaps

end DigiWage.Net
