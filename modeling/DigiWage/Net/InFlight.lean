import DigiWage.Chain.Index
import DigiWage.Lib.MapTotal
import DigiWage.Net.Address
import DigiWage.Net.Orphans

/-!
# Blocks in flight

The blocks that are requested from peers: `mapNodeState` with the queue of each node, `mapBlocksInFlight` and
`nQueuedValidatedHeaders` of `main.cpp`. An iterator of a `std::list` is the address of its list node; addresses are
given out by a counter.

* `Linked`: the map leads to the entries of the queues and back. Every operation keeps it (`Wf.step`), and where
  it holds only an operation on a node that is not connected has no result (`Wf.isSome_step_iff`).
* `FinalizeNode` takes the entries of a queue out of the map, but leaves them in `nQueuedValidatedHeaders`
  (`Wf.finalizeNode`).
-/

namespace DigiWage.Net

open Lib

/-- The address of a node of a `std::list`. -/
abbrev ListNode := Nat

structure QueuedBlock where
  hash : Uint256
  pindex : Option Ptr
  nTime : Int
  nValidatedQueuedBefore : Int
  fValidatedHeaders : Bool
deriving DecidableEq

/-- `CNodeState`, with the fields that the operations use. -/
structure CNodeState where
  address : CService
  fCurrentlyConnected : Bool
  nMisbehavior : Int
  name : String
  fSyncStarted : Bool
  nStallingSince : Int
  vBlocksInFlight : List (ListNode × QueuedBlock)
  nBlocksInFlight : Int
  fPreferredDownload : Bool
deriving DecidableEq

namespace CNodeState

/-- `CNodeState::CNodeState`. -/
def new : CNodeState := ⟨⟨default, 0⟩, false, 0, "", false, 0, [], 0, false⟩

/-- The hashes in the queue. -/
def hashes (state : CNodeState) : List Uint256 := state.vBlocksInFlight.map fun e => e.2.hash

/-- The number of entries in the queue with `fValidatedHeaders` set. -/
def validated (state : CNodeState) : Nat := state.vBlocksInFlight.countP fun e => e.2.fValidatedHeaders

end CNodeState

/-- The state of `main.cpp` that is kept for nodes. -/
structure NodeStates where
  mapNodeState : AList fun _ : NodeId => CNodeState
  mapBlocksInFlight : AList fun _ : Uint256 => NodeId × ListNode
  nQueuedValidatedHeaders : Int
  nSyncStarted : Int
  nPreferredDownload : Int
  orphans : OrphanMaps
  nextListNode : ListNode

namespace NodeStates

/-- No node and no block. -/
def empty : NodeStates := ⟨∅, ∅, 0, 0, 0, .empty, 0⟩

/-- `InitializeNode`, with `addrName` and `addr` of the node. -/
def initializeNode (s : NodeStates) (nodeid : NodeId) (addrName : String) (addr : CService) : NodeStates :=
  let state := (s.mapNodeState.lookup nodeid).getD .new
  { s with mapNodeState := s.mapNodeState.insert nodeid { state with name := addrName, address := addr } }

/-- `FinalizeNode`, with the address that is passed to `AddressCurrentlyConnected`; `none` when it follows the null pointer
that `State` returns. -/
def finalizeNode (s : NodeStates) (nodeid : NodeId) : Option (Option CService × NodeStates) :=
  match s.mapNodeState.lookup nodeid with
  | none => none
  | some state =>
    match s.orphans.eraseOrphansFor nodeid with
    | none => none
    | some orphans =>
      some (if state.nMisbehavior = 0 ∧ state.fCurrentlyConnected = true then some state.address else none,
        { s with
          nSyncStarted := s.nSyncStarted - state.fSyncStarted.toInt
          mapBlocksInFlight := state.vBlocksInFlight.foldl (fun m entry => m.erase entry.2.hash) s.mapBlocksInFlight
          orphans := orphans
          nPreferredDownload := s.nPreferredDownload - state.fPreferredDownload.toInt
          mapNodeState := s.mapNodeState.erase nodeid })

/-- `MarkBlockAsReceived`; `none` when it follows a null pointer or an iterator that leads nowhere. -/
def markBlockAsReceived (s : NodeStates) (hash : Uint256) : Option NodeStates :=
  match s.mapBlocksInFlight.lookup hash with
  | none => some s
  | some (nodeid, it) =>
    match s.mapNodeState.lookup nodeid with
    | none => none
    | some state =>
      match state.vBlocksInFlight.find? fun e => e.1 == it with
      | none => none
      | some entry =>
        some { s with
          nQueuedValidatedHeaders := s.nQueuedValidatedHeaders - entry.2.fValidatedHeaders.toInt
          mapNodeState := s.mapNodeState.insert nodeid { state with
            vBlocksInFlight := state.vBlocksInFlight.eraseP fun e => e.1 == it
            nBlocksInFlight := state.nBlocksInFlight - 1
            nStallingSince := 0 }
          mapBlocksInFlight := s.mapBlocksInFlight.erase hash }

/-- The entry at the end of the queue that `MarkBlockAsInFlight` makes. -/
def pushInFlight (s : NodeStates) (nodeid : NodeId) (state : CNodeState) (hash : Uint256) (pindex : Option Ptr)
    (nTimeMicros : Int) : NodeStates :=
  let newentry : QueuedBlock := ⟨hash, pindex, nTimeMicros, s.nQueuedValidatedHeaders, pindex.isSome⟩
  { s with
    nQueuedValidatedHeaders := s.nQueuedValidatedHeaders + newentry.fValidatedHeaders.toInt
    mapNodeState := s.mapNodeState.insert nodeid { state with
      vBlocksInFlight := state.vBlocksInFlight ++ [(s.nextListNode, newentry)]
      nBlocksInFlight := state.nBlocksInFlight + 1 }
    mapBlocksInFlight := s.mapBlocksInFlight.insert hash (nodeid, s.nextListNode)
    nextListNode := s.nextListNode + 1 }

/-- `MarkBlockAsInFlight`, at the time `nTimeMicros`; `none` when its assertion fails. -/
def markBlockAsInFlight (s : NodeStates) (nodeid : NodeId) (hash : Uint256) (pindex : Option Ptr) (nTimeMicros : Int) :
    Option NodeStates :=
  match s.mapNodeState.lookup nodeid with
  | none => none
  | some _ =>
    match s.markBlockAsReceived hash with
    | none => none
    | some s =>
      match s.mapNodeState.lookup nodeid with
      | none => none
      | some state => some (s.pushInFlight nodeid state hash pindex nTimeMicros)

end NodeStates

/-! ## Queues and the map -/

/-- The map leads to the entries of the queues and back, and each entry is at an address of its own. -/
structure Linked (q : NodeId → List (ListNode × QueuedBlock)) (m : Uint256 → Option (NodeId × ListNode))
    (next : ListNode) : Prop where
  mem_iff : ∀ hash n it, m hash = some (n, it) ↔ ∃ e, (it, e) ∈ q n ∧ e.hash = hash
  nodup : ∀ n, ((q n).map Prod.fst).Nodup
  fresh : ∀ n, ∀ e ∈ q n, e.1 < next

theorem find?_queue {v : List (ListNode × QueuedBlock)} {it : ListNode} {e : QueuedBlock} (hnodup : (v.map Prod.fst).Nodup)
    (hmem : (it, e) ∈ v) : (v.find? fun e => e.1 == it) = some (it, e) ∧ v.Perm ((it, e) :: v.eraseP fun e => e.1 == it) := by
  have huniq : ∀ e', (it, e') ∈ v → e' = e := fun e' hmem' => by
    have heq := List.inj_on_of_nodup_map hnodup hmem' hmem rfl
    exact congrArg Prod.snd heq
  constructor
  · cases hfind : v.find? fun e => e.1 == it with
    | none => exact absurd (List.find?_eq_none.mp hfind (it, e) hmem) (by simp)
    | some e' =>
      obtain ⟨it', e'⟩ := e'
      have hit : it' = it := by simpa using List.find?_some hfind
      subst hit
      rw [huniq e' (List.mem_of_find?_eq_some hfind)]
  · obtain ⟨⟨it', e'⟩, l₁, l₂, -, hit, hv, herase⟩ := List.exists_of_eraseP (p := fun e => e.1 == it) hmem (by simp)
    have hit : it' = it := by simpa using hit
    subst hit
    rw [herase, hv, huniq e' (by rw [hv]; exact List.mem_append_right _ List.mem_cons_self)]
    exact List.perm_middle

namespace Linked

variable {q : NodeId → List (ListNode × QueuedBlock)} {m : Uint256 → Option (NodeId × ListNode)} {next it : ListNode}
  {n : NodeId} {e : QueuedBlock} {hash : Uint256}

theorem hash_inj (h : Linked q m next) {n' : NodeId} {x y : ListNode × QueuedBlock} (hx : x ∈ q n) (hy : y ∈ q n')
    (hhash : x.2.hash = y.2.hash) : n = n' ∧ x.1 = y.1 := by
  have hx' := (h.mem_iff x.2.hash n x.1).mpr ⟨x.2, hx, rfl⟩
  have hy' := (h.mem_iff x.2.hash n' y.1).mpr ⟨y.2, hy, hhash.symm⟩
  rw [hx'] at hy'
  exact ⟨congrArg Prod.fst (Option.some.inj hy'), congrArg Prod.snd (Option.some.inj hy')⟩

theorem nodup_hashes (h : Linked q m next) (n : NodeId) : ((q n).map fun e => e.2.hash).Nodup := by
  have hq : (q n).Nodup := (h.nodup n).of_map _
  refine hq.map_on fun x hx y hy hhash => ?_
  exact List.inj_on_of_nodup_map (h.nodup n) hx hy (h.hash_inj hx hy hhash).2

theorem receive (h : Linked q m next) {v : List (ListNode × QueuedBlock)} (hperm : (q n).Perm ((it, e) :: v)) :
    Linked (Function.update q n v) (Function.update m e.hash none) next := by
  have hmem : (it, e) ∈ q n := hperm.mem_iff.mpr List.mem_cons_self
  have hsub : ∀ x ∈ v, x ∈ q n := fun x hx => hperm.mem_iff.mpr (List.mem_cons_of_mem _ hx)
  have hnodup : it ∉ v.map Prod.fst ∧ (v.map Prod.fst).Nodup :=
    List.nodup_cons.mp ((hperm.map Prod.fst).nodup_iff.mp (h.nodup n))
  -- no other entry has the hash
  have hne : ∀ n', ∀ x ∈ Function.update q n v n', x.2.hash ≠ e.hash := by
    intro n' x hx hhash
    by_cases hn : n' = n
    · subst hn
      rw [Function.update_self] at hx
      have heq := (h.hash_inj (hsub x hx) hmem hhash).2
      exact hnodup.1 (List.mem_map.mpr ⟨x, hx, heq⟩)
    · rw [Function.update_of_ne hn] at hx
      exact hn (h.hash_inj hx hmem hhash).1
  refine ⟨fun hash n' it' => ?_, fun n' => ?_, fun n' x hx => ?_⟩
  · by_cases hhash : hash = e.hash
    · rw [hhash, Function.update_self]
      constructor
      · intro hnone
        cases hnone
      · rintro ⟨e', he', hhash'⟩
        exact absurd hhash' (hne n' (it', e') he')
    · rw [Function.update_of_ne hhash, h.mem_iff]
      by_cases hn : n' = n
      · subst hn
        rw [Function.update_self]
        constructor
        · rintro ⟨e', he', rfl⟩
          rcases List.mem_cons.mp (hperm.mem_iff.mp he') with heq | hv
          · exact absurd (congrArg (fun x : ListNode × QueuedBlock => x.2.hash) heq) hhash
          · exact ⟨e', hv, rfl⟩
        · rintro ⟨e', he', rfl⟩
          exact ⟨e', hsub _ he', rfl⟩
      · rw [Function.update_of_ne hn]
  · by_cases hn : n' = n
    · subst hn
      rw [Function.update_self]
      exact hnodup.2
    · rw [Function.update_of_ne hn]
      exact h.nodup n'
  · by_cases hn : n' = n
    · subst hn
      rw [Function.update_self] at hx
      exact h.fresh n' x (hsub x hx)
    · rw [Function.update_of_ne hn] at hx
      exact h.fresh n' x hx

theorem push (h : Linked q m next) (hnew : m e.hash = none) :
    Linked (Function.update q n (q n ++ [(next, e)])) (Function.update m e.hash (some (n, next))) (next + 1) := by
  have hne : ∀ n', ∀ x ∈ q n', x.2.hash ≠ e.hash := by
    intro n' x hx hhash
    have hx' := (h.mem_iff e.hash n' x.1).mpr ⟨x.2, hx, hhash⟩
    rw [hnew] at hx'
    cases hx'
  have hmem : ∀ n' x, x ∈ Function.update q n (q n ++ [(next, e)]) n' ↔ x ∈ q n' ∨ n' = n ∧ x = (next, e) := by
    intro n' x
    by_cases hn : n' = n
    · subst hn
      rw [Function.update_self, List.mem_append, List.mem_singleton]
      simp
    · rw [Function.update_of_ne hn]
      simp [hn]
  refine ⟨fun hash n' it => ?_, fun n' => ?_, fun n' x hx => ?_⟩
  · simp only [hmem]
    by_cases hhash : hash = e.hash
    · rw [hhash, Function.update_self]
      constructor
      · intro hsome
        cases hsome
        exact ⟨e, Or.inr ⟨rfl, rfl⟩, rfl⟩
      · rintro ⟨e', he' | ⟨rfl, heq⟩, hhash'⟩
        · exact absurd hhash' (hne n' (it, e') he')
        · cases heq
          rfl
    · rw [Function.update_of_ne hhash, h.mem_iff]
      constructor
      · rintro ⟨e', he', rfl⟩
        exact ⟨e', Or.inl he', rfl⟩
      · rintro ⟨e', he' | ⟨rfl, heq⟩, rfl⟩
        · exact ⟨e', he', rfl⟩
        · cases heq
          exact absurd rfl hhash
  · by_cases hn : n' = n
    · subst hn
      rw [Function.update_self, List.map_append]
      refine List.nodup_append.mpr ⟨h.nodup n', List.nodup_singleton _, fun a ha b hb => ?_⟩
      obtain ⟨x, hx, rfl⟩ := List.mem_map.mp ha
      have hlt := h.fresh n' x hx
      rw [List.map_singleton, List.mem_singleton] at hb
      exact hb ▸ Nat.ne_of_lt hlt
    · rw [Function.update_of_ne hn]
      exact h.nodup n'
  · rcases (hmem n' x).mp hx with hx | ⟨-, rfl⟩
    · exact Nat.lt_succ_of_lt (h.fresh n' x hx)
    · exact Nat.lt_succ_self _

theorem drop (h : Linked q m next) (n : NodeId) :
    Linked (Function.update q n []) (fun hash => if hash ∈ (q n).map (fun e => e.2.hash) then none else m hash) next := by
  refine ⟨fun hash n' it => ?_, fun n' => ?_, fun n' x hx => ?_⟩
  · by_cases hn : n' = n
    · subst hn
      rw [Function.update_self]
      constructor
      · intro hsome
        split at hsome
        · cases hsome
        · rename_i hnot
          obtain ⟨e, he, hhash⟩ := (h.mem_iff hash n' it).mp hsome
          exact absurd (List.mem_map.mpr ⟨(it, e), he, hhash⟩) hnot
      · rintro ⟨e, he, -⟩
        cases he
    · rw [Function.update_of_ne hn, ← h.mem_iff]
      constructor
      · intro hsome
        split at hsome
        · cases hsome
        · exact hsome
      · intro hsome
        rw [if_neg ?_]
        · exact hsome
        · intro hmem
          obtain ⟨x, hx, hhash⟩ := List.mem_map.mp hmem
          obtain ⟨e, he, rfl⟩ := (h.mem_iff hash n' it).mp hsome
          exact hn (h.hash_inj he hx hhash.symm).1
  · by_cases hn : n' = n
    · rw [hn, Function.update_self]
      exact List.nodup_nil
    · rw [Function.update_of_ne hn]
      exact h.nodup n'
  · by_cases hn : n' = n
    · rw [hn, Function.update_self] at hx
      cases hx
    · rw [Function.update_of_ne hn] at hx
      exact h.fresh n' x hx

end Linked

namespace NodeStates

/-! ## The invariant -/

/-- The queue of a node; a node that is not connected has none. -/
def queueOf (s : NodeStates) (nodeid : NodeId) : List (ListNode × QueuedBlock) :=
  ((s.mapNodeState.lookup nodeid).map CNodeState.vBlocksInFlight).getD []

/-- `nQueuedValidatedHeaders` as the queues have it. -/
def validated (s : NodeStates) : Int := total (fun state => (state.validated : Int)) s.mapNodeState

/-- What every operation keeps. -/
structure Wf (s : NodeStates) : Prop where
  linked : Linked s.queueOf s.mapBlocksInFlight.lookup s.nextListNode
  count : ∀ nodeid state, s.mapNodeState.lookup nodeid = some state →
    state.nBlocksInFlight = state.vBlocksInFlight.length
  orphans : s.orphans.Wf

theorem wf_empty : empty.Wf := by
  refine ⟨⟨fun hash n it => ?_, fun n => ?_, fun n e he => ?_⟩, fun nodeid state h => ?_, OrphanMaps.wf_empty⟩
  · simp [empty, queueOf]
  · simp [empty, queueOf]
  · simp [empty, queueOf] at he
  · simp [empty] at h

variable {s s' : NodeStates} {nodeid : NodeId} {state : CNodeState} {hash : Uint256}

theorem queueOf_of_some (h : s.mapNodeState.lookup nodeid = some state) : s.queueOf nodeid = state.vBlocksInFlight := by
  rw [queueOf, h, Option.map_some, Option.getD_some]

theorem queueOf_insert (h : s'.mapNodeState = s.mapNodeState.insert nodeid state) :
    s'.queueOf = Function.update s.queueOf nodeid state.vBlocksInFlight := by
  funext n
  unfold queueOf
  by_cases hn : n = nodeid
  · rw [h, hn, AList.lookup_insert, Function.update_self, Option.map_some, Option.getD_some]
  · rw [h, AList.lookup_insert_ne hn, Function.update_of_ne hn]

theorem queueOf_erase (h : s'.mapNodeState = s.mapNodeState.erase nodeid) :
    s'.queueOf = Function.update s.queueOf nodeid [] := by
  funext n
  unfold queueOf
  by_cases hn : n = nodeid
  · rw [h, hn, AList.lookup_erase, Function.update_self, Option.map_none, Option.getD_none]
  · rw [h, AList.lookup_erase_ne hn, Function.update_of_ne hn]

theorem lookup_insert_inFlight {m : AList fun _ : Uint256 => NodeId × ListNode} {v : NodeId × ListNode} :
    (m.insert hash v).lookup = Function.update (fun h => m.lookup h) hash (some v) := by
  funext h
  by_cases hh : h = hash
  · rw [hh, AList.lookup_insert, Function.update_self]
  · rw [AList.lookup_insert_ne hh, Function.update_of_ne hh]

theorem lookup_erase_inFlight {m : AList fun _ : Uint256 => NodeId × ListNode} :
    (m.erase hash).lookup = Function.update (fun h => m.lookup h) hash none := by
  funext h
  by_cases hh : h = hash
  · rw [hh, AList.lookup_erase, Function.update_self]
  · rw [AList.lookup_erase_ne hh, Function.update_of_ne hh]

theorem lookup_foldl_erase : ∀ (v : List (ListNode × QueuedBlock)) (m : AList fun _ : Uint256 => NodeId × ListNode)
    (h : Uint256), (v.foldl (fun m entry => m.erase entry.2.hash) m).lookup h =
      if h ∈ v.map (fun e => e.2.hash) then none else m.lookup h
  | [], m, h => by simp
  | e :: v, m, h => by
    rw [List.foldl_cons, lookup_foldl_erase v]
    by_cases hh : h = e.2.hash
    · rw [hh, AList.lookup_erase, ite_self]
      exact (if_pos List.mem_cons_self).symm
    · rw [AList.lookup_erase_ne hh]
      exact if_congr ((List.mem_cons.trans (or_iff_right hh)).symm) rfl rfl

/-- The entries that `nQueuedValidatedHeaders` counts and no queue has. -/
def unqueued (s : NodeStates) : Int := s.nQueuedValidatedHeaders - s.validated

/-- The nodes that are connected stay the same. -/
def SameNodes (s s' : NodeStates) : Prop := ∀ n, n ∈ s'.mapNodeState ↔ n ∈ s.mapNodeState

/-! ## The operations -/

theorem Wf.markBlockAsReceived (h : s.Wf) (hash : Uint256) : ∃ s', s.markBlockAsReceived hash = some s' ∧ s'.Wf ∧
    s'.unqueued = s.unqueued ∧ SameNodes s s' ∧ s'.mapBlocksInFlight.lookup hash = none := by
  unfold NodeStates.markBlockAsReceived
  cases hmap : s.mapBlocksInFlight.lookup hash with
  | none => exact ⟨s, rfl, h, rfl, fun _ => Iff.rfl, hmap⟩
  | some p =>
    obtain ⟨nodeid, it⟩ := p
    obtain ⟨e, he, rfl⟩ := (h.linked.mem_iff hash nodeid it).mp hmap
    cases hnode : s.mapNodeState.lookup nodeid with
    | none =>
      rw [queueOf, hnode] at he
      cases he
    | some state =>
      have hqueue := queueOf_of_some hnode
      have hnodup := h.linked.nodup nodeid
      rw [hqueue] at he hnodup
      obtain ⟨hfind, hperm⟩ := find?_queue hnodup he
      have hleave : (s.queueOf nodeid).Perm ((it, e) :: state.vBlocksInFlight.eraseP fun e => e.1 == it) := by
        rw [hqueue]
        exact hperm
      simp only [hnode, hfind]
      refine ⟨_, rfl, ⟨?_, ?_, h.orphans⟩, ?_, ?_, ?_⟩
      · have hlinked := h.linked.receive hleave
        rw [queueOf_insert rfl]
        simp only [lookup_erase_inFlight]
        exact hlinked
      · intro n st hst
        by_cases hn : n = nodeid
        · rw [hn, AList.lookup_insert] at hst
          cases hst
          have hcount := h.count nodeid state hnode
          have hlen := hperm.length_eq
          rw [List.length_cons] at hlen
          dsimp only
          omega
        · rw [AList.lookup_insert_ne hn] at hst
          exact h.count n st hst
      · have hvalidated := hperm.countP_eq fun e => e.2.fValidatedHeaders
        rw [List.countP_cons] at hvalidated
        simp only [unqueued, validated, total_insert, total_erase hnode, CNodeState.validated, hvalidated]
        cases e.fValidatedHeaders with
        | false => simp
        | true =>
          simp
          omega
      · intro n
        simp only [AList.mem_insert]
        refine or_iff_right_of_imp ?_
        rintro rfl
        exact AList.lookup_isSome.mp (by rw [hnode]; rfl)
      · exact AList.lookup_erase _ _

theorem Wf.pushInFlight (h : s.Wf) (hnode : s.mapNodeState.lookup nodeid = some state)
    (hnew : s.mapBlocksInFlight.lookup hash = none) (pindex : Option Ptr) (nTimeMicros : Int) :
    (s.pushInFlight nodeid state hash pindex nTimeMicros).Wf ∧
      (s.pushInFlight nodeid state hash pindex nTimeMicros).unqueued = s.unqueued := by
  constructor
  · refine ⟨?_, ?_, h.orphans⟩
    · have hlinked := h.linked.push (n := nodeid)
        (e := ⟨hash, pindex, nTimeMicros, s.nQueuedValidatedHeaders, pindex.isSome⟩) hnew
      rw [queueOf_of_some hnode] at hlinked
      unfold NodeStates.pushInFlight
      rw [queueOf_insert rfl]
      simp only [lookup_insert_inFlight]
      exact hlinked
    · intro n st hst
      by_cases hn : n = nodeid
      · unfold NodeStates.pushInFlight at hst
        rw [hn, AList.lookup_insert] at hst
        cases hst
        have hcount := h.count nodeid state hnode
        simp only [List.length_append, List.length_singleton]
        omega
      · unfold NodeStates.pushInFlight at hst
        rw [AList.lookup_insert_ne hn] at hst
        exact h.count n st hst
  · simp only [NodeStates.pushInFlight, unqueued, validated, total_insert, total_erase hnode, CNodeState.validated,
      List.countP_append, List.countP_singleton]
    cases pindex with
    | none => simp
    | some pindex =>
      simp
      omega

theorem Wf.markBlockAsInFlight (h : s.Wf) (hnode : nodeid ∈ s.mapNodeState) (hash : Uint256) (pindex : Option Ptr)
    (nTimeMicros : Int) : ∃ s', s.markBlockAsInFlight nodeid hash pindex nTimeMicros = some s' ∧ s'.Wf ∧
      s'.unqueued = s.unqueued := by
  obtain ⟨state, hstate⟩ := Option.isSome_iff_exists.mp (AList.lookup_isSome.mpr hnode)
  obtain ⟨s₁, hmark, hwf, hunqueued, hsame, hnew⟩ := h.markBlockAsReceived hash
  obtain ⟨state₁, hstate₁⟩ := Option.isSome_iff_exists.mp (AList.lookup_isSome.mpr ((hsame nodeid).mpr hnode))
  have hpush := hwf.pushInFlight hstate₁ hnew pindex nTimeMicros
  refine ⟨s₁.pushInFlight nodeid state₁ hash pindex nTimeMicros, ?_, hpush.1, hpush.2.trans hunqueued⟩
  unfold NodeStates.markBlockAsInFlight
  simp only [hstate, hmark, hstate₁]

theorem Wf.initializeNode (h : s.Wf) (nodeid : NodeId) (addrName : String) (addr : CService) :
    (s.initializeNode nodeid addrName addr).Wf ∧ (s.initializeNode nodeid addrName addr).unqueued = s.unqueued := by
  have hqueue : ((s.mapNodeState.lookup nodeid).getD .new).vBlocksInFlight = s.queueOf nodeid := by
    unfold queueOf
    cases s.mapNodeState.lookup nodeid with
    | none => rfl
    | some state => rfl
  refine ⟨⟨?_, ?_, h.orphans⟩, ?_⟩
  · unfold NodeStates.initializeNode
    rw [queueOf_insert rfl, hqueue, Function.update_eq_self]
    exact h.linked
  · intro n st hst
    unfold NodeStates.initializeNode at hst
    by_cases hn : n = nodeid
    · rw [hn, AList.lookup_insert] at hst
      cases hst
      cases hnode : s.mapNodeState.lookup nodeid with
      | none => rfl
      | some state => exact h.count nodeid state hnode
    · rw [AList.lookup_insert_ne hn] at hst
      exact h.count n st hst
  · simp only [NodeStates.initializeNode, unqueued, validated, total_insert, CNodeState.validated]
    cases hnode : s.mapNodeState.lookup nodeid with
    | none =>
      rw [total_erase_of_notMem hnode]
      simp [CNodeState.new]
    | some state =>
      rw [total_erase hnode]
      rfl

theorem Wf.finalizeNode (h : s.Wf) (hnode : s.mapNodeState.lookup nodeid = some state) : ∃ addr s',
    s.finalizeNode nodeid = some (addr, s') ∧ s'.Wf ∧ s'.unqueued = s.unqueued + state.validated := by
  obtain ⟨orphans, horphans, hwf⟩ := h.orphans.eraseOrphansFor nodeid
  unfold NodeStates.finalizeNode
  simp only [hnode, horphans]
  refine ⟨_, _, rfl, ⟨?_, ?_, hwf⟩, ?_⟩
  · have hlinked := h.linked.drop nodeid
    rw [queueOf_of_some hnode] at hlinked
    rw [queueOf_erase rfl]
    simp only [lookup_foldl_erase]
    exact hlinked
  · intro n st hst
    by_cases hn : n = nodeid
    · rw [hn, AList.lookup_erase] at hst
      cases hst
    · rw [AList.lookup_erase_ne hn] at hst
      exact h.count n st hst
  · simp only [unqueued, validated, total_erase hnode]
    omega

end NodeStates

/-! ## Runs -/

/-- A call of one of the functions. -/
inductive NodeOp where
  | initializeNode (nodeid : NodeId) (addrName : String) (addr : CService)
  | finalizeNode (nodeid : NodeId)
  | markBlockAsReceived (hash : Uint256)
  | markBlockAsInFlight (nodeid : NodeId) (hash : Uint256) (pindex : Option Ptr) (nTimeMicros : Int)

/-- The node that a call needs. -/
def NodeOp.needs : NodeOp → Option NodeId
  | .initializeNode .. => none
  | .finalizeNode nodeid => some nodeid
  | .markBlockAsReceived _ => none
  | .markBlockAsInFlight nodeid .. => some nodeid

namespace NodeStates

variable {s s' : NodeStates} {op : NodeOp}

/-- The state after a call. -/
def step (s : NodeStates) : NodeOp → Option NodeStates
  | .initializeNode nodeid addrName addr => some (s.initializeNode nodeid addrName addr)
  | .finalizeNode nodeid => (s.finalizeNode nodeid).map Prod.snd
  | .markBlockAsReceived hash => s.markBlockAsReceived hash
  | .markBlockAsInFlight nodeid hash pindex nTimeMicros => s.markBlockAsInFlight nodeid hash pindex nTimeMicros

/-- The entries with validated headers that a call takes out of a queue without counting them. -/
def dropped (s : NodeStates) : NodeOp → Nat
  | .finalizeNode nodeid => ((s.mapNodeState.lookup nodeid).map CNodeState.validated).getD 0
  | _ => 0

theorem Wf.exists_step (h : s.Wf) (hneeds : ∀ nodeid, op.needs = some nodeid → nodeid ∈ s.mapNodeState) :
    ∃ s', s.step op = some s' ∧ s'.Wf ∧ s'.unqueued = s.unqueued + s.dropped op := by
  cases op with
  | initializeNode nodeid addrName addr =>
    have hinit := h.initializeNode nodeid addrName addr
    exact ⟨_, rfl, hinit.1, by simp [hinit.2, dropped]⟩
  | finalizeNode nodeid =>
    obtain ⟨state, hstate⟩ := Option.isSome_iff_exists.mp (AList.lookup_isSome.mpr (hneeds nodeid rfl))
    obtain ⟨addr, s', hfinal, hwf, hunqueued⟩ := h.finalizeNode hstate
    exact ⟨s', by rw [step, hfinal, Option.map_some], hwf, by simp [hunqueued, dropped, hstate]⟩
  | markBlockAsReceived hash =>
    obtain ⟨s', hmark, hwf, hunqueued, -, -⟩ := h.markBlockAsReceived hash
    exact ⟨s', hmark, hwf, by simp [hunqueued, dropped]⟩
  | markBlockAsInFlight nodeid hash pindex nTimeMicros =>
    obtain ⟨s', hmark, hwf, hunqueued⟩ := h.markBlockAsInFlight (hneeds nodeid rfl) hash pindex nTimeMicros
    exact ⟨s', hmark, hwf, by simp [hunqueued, dropped]⟩

theorem Wf.isSome_step_iff (h : s.Wf) :
    (s.step op).isSome = true ↔ ∀ nodeid, op.needs = some nodeid → nodeid ∈ s.mapNodeState := by
  refine ⟨fun hsome nodeid hneeds => ?_, fun hneeds => ?_⟩
  · by_contra hnot
    have hlookup : s.mapNodeState.lookup nodeid = none := AList.lookup_eq_none.mpr hnot
    cases op with
    | initializeNode => cases hneeds
    | markBlockAsReceived => cases hneeds
    | finalizeNode n =>
      cases hneeds
      rw [step, NodeStates.finalizeNode, hlookup] at hsome
      cases hsome
    | markBlockAsInFlight n =>
      cases hneeds
      rw [step, NodeStates.markBlockAsInFlight, hlookup] at hsome
      cases hsome
  · obtain ⟨s', hs', -⟩ := h.exists_step hneeds
    rw [hs']
    rfl

theorem Wf.step (h : s.Wf) (hstep : s.step op = some s') : s'.Wf ∧ s'.unqueued = s.unqueued + s.dropped op := by
  obtain ⟨s₁, hs₁, hwf, hunqueued⟩ := h.exists_step (h.isSome_step_iff.mp (by rw [hstep]; rfl))
  rw [hstep] at hs₁
  cases hs₁
  exact ⟨hwf, hunqueued⟩

theorem Wf.unqueued_run : ∀ (ops : List NodeOp) {s s' : NodeStates}, s.Wf → ops.foldlM NodeStates.step s = some s' →
    s'.Wf ∧ s.unqueued ≤ s'.unqueued ∧
      (s'.unqueued = s.unqueued ↔ Meets NodeStates.step (fun s op => s.dropped op = 0) s ops)
  | [], s, s', h, hrun => by
    cases hrun
    exact ⟨h, le_refl _, iff_of_true rfl trivial⟩
  | op :: ops, s, s', h, hrun => by
    obtain ⟨s₁, hstep, hrun⟩ := foldlM_cons_some hrun
    obtain ⟨hwf, hone⟩ := h.step hstep
    obtain ⟨hwf', hle, hiff⟩ := Wf.unqueued_run ops hwf hrun
    refine ⟨hwf', by omega, fun heq => ⟨by omega, fun s₂ hs₂ => ?_⟩, fun ⟨hzero, hrest⟩ => ?_⟩
    · rw [hstep] at hs₂
      cases hs₂
      exact hiff.mp (by omega)
    · have hsame := hiff.mpr (hrest s₁ hstep)
      omega

/-! ## Exactness -/

/-- The download accounting is exact: the hashes in flight are those in the queues of the connected nodes, each in one
queue only, and the counters are the numbers of entries and of entries with validated headers. -/
structure Exact (s : NodeStates) : Prop where
  inFlight : ∀ hash, hash ∈ s.mapBlocksInFlight ↔
    ∃ nodeid state, s.mapNodeState.lookup nodeid = some state ∧ hash ∈ state.hashes
  once : ∀ nodeid nodeid' state state' hash, s.mapNodeState.lookup nodeid = some state →
    s.mapNodeState.lookup nodeid' = some state' → hash ∈ state.hashes → hash ∈ state'.hashes → nodeid = nodeid'
  nodup : ∀ nodeid state, s.mapNodeState.lookup nodeid = some state → state.hashes.Nodup
  nBlocksInFlight : ∀ nodeid state, s.mapNodeState.lookup nodeid = some state →
    state.nBlocksInFlight = state.vBlocksInFlight.length
  nQueuedValidatedHeaders : s.nQueuedValidatedHeaders = s.validated

theorem Wf.exact_iff (h : s.Wf) : s.Exact ↔ s.unqueued = 0 := by
  refine ⟨fun hexact => ?_, fun hzero => ⟨fun hash => ?_, ?_, fun nodeid state hstate => ?_, h.count, ?_⟩⟩
  · rw [unqueued, hexact.nQueuedValidatedHeaders, sub_self]
  · rw [← AList.lookup_isSome, Option.isSome_iff_exists]
    constructor
    · rintro ⟨⟨nodeid, it⟩, hmap⟩
      obtain ⟨e, he, rfl⟩ := (h.linked.mem_iff hash nodeid it).mp hmap
      cases hstate : s.mapNodeState.lookup nodeid with
      | none =>
        rw [queueOf, hstate] at he
        cases he
      | some state =>
        rw [queueOf_of_some hstate] at he
        exact ⟨nodeid, state, hstate, List.mem_map.mpr ⟨(it, e), he, rfl⟩⟩
    · rintro ⟨nodeid, state, hstate, hmem⟩
      obtain ⟨x, hx, rfl⟩ := List.mem_map.mp hmem
      rw [← queueOf_of_some hstate] at hx
      exact ⟨_, (h.linked.mem_iff x.2.hash nodeid x.1).mpr ⟨x.2, hx, rfl⟩⟩
  · intro nodeid nodeid' state state' hash hstate hstate' hmem hmem'
    obtain ⟨x, hx, hxhash⟩ := List.mem_map.mp hmem
    obtain ⟨y, hy, hyhash⟩ := List.mem_map.mp hmem'
    rw [← queueOf_of_some hstate] at hx
    rw [← queueOf_of_some hstate'] at hy
    exact (h.linked.hash_inj hx hy (hxhash.trans hyhash.symm)).1
  · have hnodup := h.linked.nodup_hashes nodeid
    rwa [queueOf_of_some hstate] at hnodup
  · unfold unqueued at hzero
    omega

/-- At the end of a run the accounting is exact iff no call of the run finalized a node with a validated header in its
queue. -/
theorem inFlight_exact_iff (ops : List NodeOp) (s : NodeStates) (hrun : ops.foldlM step empty = some s) :
    s.Exact ↔ Meets step (fun s op => s.dropped op = 0) empty ops := by
  obtain ⟨hwf, -, hiff⟩ := wf_empty.unqueued_run ops hrun
  rw [hwf.exact_iff, ← hiff]
  rfl

/-- A block is requested twice and received. -/
theorem inFlight_exact_iff_received : ∃ s, [NodeOp.initializeNode 1 "" ⟨default, 0⟩, .initializeNode 2 "" ⟨default, 0⟩,
    .markBlockAsInFlight 1 7 (some 0) 0, .markBlockAsInFlight 2 7 none 1, .markBlockAsReceived 7].foldlM step empty =
      some s ∧ (s.Exact ↔ Meets step (fun s op => s.dropped op = 0) empty
        [.initializeNode 1 "" ⟨default, 0⟩, .initializeNode 2 "" ⟨default, 0⟩, .markBlockAsInFlight 1 7 (some 0) 0,
          .markBlockAsInFlight 2 7 none 1, .markBlockAsReceived 7]) :=
  ⟨_, rfl, inFlight_exact_iff _ _ rfl⟩

/-- A node with a requested block whose header is validated. -/
def requested : NodeStates :=
  (empty.initializeNode 1 "" ⟨default, 0⟩).pushInFlight 1 { CNodeState.new with address := ⟨default, 0⟩ } 7 (some 0) 0

theorem run_requested : [NodeOp.initializeNode 1 "" ⟨default, 0⟩, .markBlockAsInFlight 1 7 (some 0) 0].foldlM step empty =
    some requested := rfl

/-- The node is finalized: the counter stays at one, without any queue. -/
theorem not_inFlight_exact : ¬ ∀ (ops : List NodeOp) (s : NodeStates), ops.foldlM step empty = some s → s.Exact := by
  intro h
  have hwf := (wf_empty.unqueued_run _ run_requested).1
  obtain ⟨s, hstep, hwf', hunqueued⟩ := @Wf.exists_step _ (.finalizeNode 1) hwf fun nodeid hneeds => by
    cases hneeds
    decide
  have hrun : [NodeOp.initializeNode 1 "" ⟨default, 0⟩, .markBlockAsInFlight 1 7 (some 0) 0, .finalizeNode 1].foldlM step
      empty = some s := by
    show (requested.step (.finalizeNode 1) >>= pure) = some s
    rw [hstep]
    rfl
  have hzero := hwf'.exact_iff.mp (h _ s hrun)
  rw [hunqueued] at hzero
  exact absurd hzero (by decide)

end NodeStates

end DigiWage.Net
