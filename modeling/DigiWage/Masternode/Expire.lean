import DigiWage.Masternode.Resend

/-!
# Removing expired masternodes

`CMasternodeMan::CheckAndRemove` with its loops over `mapSeenMasternodeBroadcast`, which erase from
`masternodeSync.mapSeenSyncMNB` as well. `mapSeenMasternodeBroadcast` is the list of its broadcasts in the order of their
keys, which are their hashes.

The last of these loops erases the entry, advances the iterator, and then looks at the entry after it: `expireLoop` has no
result where that is the end of the map.

* `expireLoop_spec`: what the loop over the expired broadcasts leaves, with the hashes it erases elsewhere (`shifted`).
-/

namespace DigiWage

/-- A map from hashes to times or counts. -/
abbrev SyncMap := Uint256 → Option Int

/-- `CMasternodeMan` with `mapSeenSyncMNB`, for the hash of broadcasts. -/
structure ListCache (hash : Int × CPubKey → Uint256) where
  vMasternodes : List CMasternode
  mapSeenMasternodeBroadcast : List CMasternodeBroadcast
  mapSeenMasternodePing : CTxIn × Option Uint256 × Int → Option CMasternodePing
  mAskedUsForMasternodeList : List UInt8 → Option Int
  mWeAskedForMasternodeList : List UInt8 → Option Int
  mWeAskedForMasternodeListEntry : COutPoint → Option Int
  mapSeenSyncMNB : SyncMap
  sorted : mapSeenMasternodeBroadcast.Pairwise fun a b => hash a.getHash < hash b.getHash

namespace ListCache

variable {hash : Int × CPubKey → Uint256}

/-! ## The loops -/

/-- `mapSeenSyncMNB.erase`. -/
def eraseSync (sync : SyncMap) (k : Uint256) : SyncMap := Function.update sync k none

/-- The loop that erases the broadcasts of a masternode. -/
def forgetLoop (hash : Int × CPubKey → Uint256) (vin : CTxIn) : List CMasternodeBroadcast → SyncMap →
    List CMasternodeBroadcast × SyncMap
  | [], sync => ([], sync)
  | mnb :: rest, sync =>
    if mnb.vin = vin then forgetLoop hash vin rest (eraseSync sync (hash mnb.getHash))
    else (mnb :: (forgetLoop hash vin rest sync).1, (forgetLoop hash vin rest sync).2)

/-- What the loop over the masternodes changes. -/
structure Removal where
  mapSeenMasternodeBroadcast : List CMasternodeBroadcast
  mapSeenSyncMNB : SyncMap
  mWeAskedForMasternodeListEntry : COutPoint → Option Int

/-- The body of that loop for a masternode that is removed. -/
def Removal.forget (hash : Int × CPubKey → Uint256) (r : Removal) (mn : CMasternode) : Removal where
  mapSeenMasternodeBroadcast := (forgetLoop hash mn.vin r.mapSeenMasternodeBroadcast r.mapSeenSyncMNB).1
  mapSeenSyncMNB := (forgetLoop hash mn.vin r.mapSeenMasternodeBroadcast r.mapSeenSyncMNB).2
  mWeAskedForMasternodeListEntry := Function.update r.mWeAskedForMasternodeListEntry mn.vin.prevout none

/-- The loop over the masternodes: those that stay, and what it changes. -/
def removeLoop (hash : Int × CPubKey → Uint256) (env : MasternodeEnv) (forceExpiredRemoval : Bool) :
    List CMasternode → Removal → List CMasternode × Removal
  | [], r => ([], r)
  | mn :: mns, r =>
    if CMasternodeMan.isInactive env forceExpiredRemoval mn then
      removeLoop hash env forceExpiredRemoval mns (r.forget hash mn)
    else
      (mn :: (removeLoop hash env forceExpiredRemoval mns r).1, (removeLoop hash env forceExpiredRemoval mns r).2)

/-- The last ping is older than twice `MASTERNODE_REMOVAL_SECONDS`. -/
def expired (env : MasternodeEnv) (mnb : CMasternodeBroadcast) : Bool :=
  decide (mnb.lastPing.sigTime < env.now - MASTERNODE_REMOVAL_SECONDS * 2)

/-- The loop over the expired broadcasts; `none` where it dereferences the end of the map. -/
def expireLoop (hash : Int × CPubKey → Uint256) (env : MasternodeEnv) : List CMasternodeBroadcast → SyncMap →
    Option (List CMasternodeBroadcast × SyncMap)
  | [], sync => some ([], sync)
  | mnb :: rest, sync =>
    if expired env mnb then
      -- the iterator has moved on before the hash is taken
      match rest with
      | [] => none
      | next :: _ => expireLoop hash env rest (eraseSync sync (hash next.getHash))
    else (expireLoop hash env rest sync).map fun r => (mnb :: r.1, r.2)

/-! ## What the loops leave -/

/-- The sync map without some hashes. -/
def without (ks : List Uint256) (sync : SyncMap) : SyncMap := fun k => if k ∈ ks then none else sync k

/-- The hash of a broadcast. -/
abbrev key (hash : Int × CPubKey → Uint256) (mnb : CMasternodeBroadcast) : Uint256 := hash mnb.getHash

theorem without_nil (sync : SyncMap) : without [] sync = sync := by
  funext k
  simp [without]

theorem without_eraseSync (ks : List Uint256) (sync : SyncMap) (k : Uint256) :
    without ks (eraseSync sync k) = without (k :: ks) sync := by
  funext j
  unfold without eraseSync
  by_cases hj : j = k
  · subst hj
    simp
  · simp [hj]

theorem without_without (ks js : List Uint256) (sync : SyncMap) : without ks (without js sync) = without (js ++ ks) sync := by
  funext k
  unfold without
  by_cases hk : k ∈ ks
  · simp [hk]
  · simp [hk]

theorem forgetLoop_spec (vin : CTxIn) (l : List CMasternodeBroadcast) : ∀ sync, forgetLoop hash vin l sync =
    (l.filter fun mnb => !decide (mnb.vin = vin),
      without ((l.filter fun mnb => decide (mnb.vin = vin)).map (key hash)) sync) := by
  induction l with
  | nil =>
    intro sync
    simp [forgetLoop, without_nil]
  | cons mnb l ih =>
    intro sync
    unfold forgetLoop
    by_cases h : mnb.vin = vin
    · rw [if_pos h, ih, without_eraseSync]
      simp [h]
    · rw [if_neg h, ih]
      simp [h]

theorem without_congr {ks js : List Uint256} (h : ∀ k, k ∈ ks ↔ k ∈ js) (sync : SyncMap) :
    without ks sync = without js sync := by
  funext k
  simp only [without, h]

theorem without_eq_iff {ks js : List Uint256} {sync : SyncMap} :
    without ks sync = without js sync ↔ ∀ k, sync k ≠ none → (k ∈ ks ↔ k ∈ js) := by
  constructor
  · intro h k hk
    have hk' := congrFun h k
    unfold without at hk'
    by_cases h1 : k ∈ ks <;> by_cases h2 : k ∈ js <;> simp_all
  · intro h
    funext k
    unfold without
    by_cases hk : sync k = none
    · simp [hk]
    · simp only [h k hk]

/-- A masternode of the list is that of the broadcast. -/
def isOf (mns : List CMasternode) (mnb : CMasternodeBroadcast) : Bool := mns.any fun mn => mnb.vin == mn.vin

theorem removeLoop_spec (env : MasternodeEnv) (forceExpiredRemoval : Bool) (mns : List CMasternode) : ∀ r : Removal,
    let inactive := mns.filter (CMasternodeMan.isInactive env forceExpiredRemoval)
    let out := removeLoop hash env forceExpiredRemoval mns r
    out.1 = (mns.filter fun mn => !CMasternodeMan.isInactive env forceExpiredRemoval mn) ∧
      out.2.mapSeenMasternodeBroadcast = (r.mapSeenMasternodeBroadcast.filter fun mnb => !isOf inactive mnb) ∧
      out.2.mapSeenSyncMNB =
        without ((r.mapSeenMasternodeBroadcast.filter (isOf inactive)).map (key hash)) r.mapSeenSyncMNB := by
  induction mns with
  | nil =>
    intro r
    have hnone : r.mapSeenMasternodeBroadcast.filter (isOf []) = [] :=
      List.filter_eq_nil_iff.mpr fun mnb _ => by simp [isOf]
    refine ⟨rfl, by simp [removeLoop, isOf], ?_⟩
    simp only [List.filter_nil, hnone]
    exact (without_nil _).symm
  | cons mn mns ih =>
    intro r
    unfold removeLoop
    by_cases hmn : CMasternodeMan.isInactive env forceExpiredRemoval mn = true
    · obtain ⟨h1, h2, h3⟩ := ih (r.forget hash mn)
      simp only [hmn, ↓reduceIte, Bool.not_true, Bool.false_eq_true, not_false_eq_true, List.filter_cons_of_neg,
        List.filter_cons_of_pos]
      refine ⟨h1, ?_, ?_⟩
      · rw [h2, Removal.forget, forgetLoop_spec, List.filter_filter]
        refine List.filter_congr fun mnb _ => ?_
        simp [isOf, Bool.and_comm, beq_eq_decide]
      · rw [h3, Removal.forget, forgetLoop_spec, without_without]
        refine without_congr (fun k => ?_) _
        simp only [List.mem_append, List.mem_map, List.mem_filter, isOf, List.any_cons, decide_eq_true_eq, beq_iff_eq,
          Bool.or_eq_true, Bool.not_eq_true', decide_eq_false_iff_not]
        constructor
        · rintro (⟨mnb, ⟨hm, hv⟩, rfl⟩ | ⟨mnb, ⟨⟨hm, hv⟩, ha⟩, rfl⟩)
          · exact ⟨mnb, ⟨hm, Or.inl hv⟩, rfl⟩
          · exact ⟨mnb, ⟨hm, Or.inr ha⟩, rfl⟩
        · rintro ⟨mnb, ⟨hm, hv⟩, rfl⟩
          by_cases hvin : mnb.vin = mn.vin
          · exact Or.inl ⟨mnb, ⟨hm, hvin⟩, rfl⟩
          · exact Or.inr ⟨mnb, ⟨⟨hm, hvin⟩, hv.resolve_left hvin⟩, rfl⟩
    · obtain ⟨h1, h2, h3⟩ := ih r
      simp only [hmn, Bool.false_eq_true, ↓reduceIte, Bool.not_false, List.filter_cons_of_pos, not_false_eq_true,
        List.filter_cons_of_neg]
      exact ⟨congrArg _ h1, h2, h3⟩

/-- The broadcasts right after an expired one; `prev` tells whether the one before the list is. -/
def afterExpired (env : MasternodeEnv) : Bool → List CMasternodeBroadcast → List CMasternodeBroadcast
  | _, [] => []
  | true, mnb :: l => mnb :: afterExpired env (expired env mnb) l
  | false, mnb :: l => afterExpired env (expired env mnb) l

theorem afterExpired_sublist (env : MasternodeEnv) (l : List CMasternodeBroadcast) : ∀ prev : Bool,
    (afterExpired env prev l).Sublist l := by
  induction l with
  | nil => exact fun _ => .slnil
  | cons mnb l ih =>
    intro prev
    cases prev with
    | true => exact (ih _).cons_cons mnb
    | false => exact (ih _).cons mnb

theorem expireLoop_spec (env : MasternodeEnv) (l : List CMasternodeBroadcast) : ∀ sync, expireLoop hash env l sync =
    if l.getLast?.any (expired env) then none
    else some (l.filter fun mnb => !expired env mnb, without ((afterExpired env false l).map (key hash)) sync) := by
  induction l with
  | nil =>
    intro sync
    simp [expireLoop, afterExpired, without_nil]
  | cons mnb l ih =>
    intro sync
    unfold expireLoop
    by_cases h : expired env mnb = true
    · cases l with
      | nil => simp [h]
      | cons next l =>
        simp only [h, ↓reduceIte]
        rw [ih, without_eraseSync]
        simp [h, afterExpired]
    · rw [if_neg h, ih]
      cases l with
      | nil => simp [h, afterExpired]
      | cons next l =>
        rw [Bool.not_eq_true] at h
        rw [List.getLast?_cons_cons]
        cases (next :: l).getLast?.any (expired env) with
        | true => rfl
        | false => simp [h, afterExpired]

/-! ## The whole function -/

variable (env : MasternodeEnv) (forceExpiredRemoval : Bool) (s : ListCache hash)

/-- `Check` of every masternode. -/
def checked : List CMasternode := s.vMasternodes.map fun mn => mn.check env false

/-- The masternodes in a removable state or with an old protocol. -/
def inactive : List CMasternode := (s.checked env).filter (CMasternodeMan.isInactive env forceExpiredRemoval)

/-- The broadcasts of the masternodes that stay. -/
def keptBroadcasts : List CMasternodeBroadcast :=
  s.mapSeenMasternodeBroadcast.filter fun mnb => !isOf (s.inactive env forceExpiredRemoval) mnb

/-- The broadcast is one of a removed masternode, or its last ping is too old. -/
def isRemoved (mnb : CMasternodeBroadcast) : Bool := isOf (s.inactive env forceExpiredRemoval) mnb || expired env mnb

theorem keptBroadcasts_sublist : (s.keptBroadcasts env forceExpiredRemoval).Sublist s.mapSeenMasternodeBroadcast :=
  List.filter_sublist

/-- Entries of a map of times that are over. -/
def dropPast {κ : Type} (m : κ → Option Int) : κ → Option Int := fun k => (m k).filter fun t => !decide (t < env.now)

/-- What `removeLoop` starts with. -/
def removal : Removal := ⟨s.mapSeenMasternodeBroadcast, s.mapSeenSyncMNB, s.mWeAskedForMasternodeListEntry⟩

theorem removeLoop_removal :
    let out := removeLoop hash env forceExpiredRemoval (s.checked env) s.removal
    out.1 = ((s.checked env).filter fun mn => !CMasternodeMan.isInactive env forceExpiredRemoval mn) ∧
      out.2.mapSeenMasternodeBroadcast = s.keptBroadcasts env forceExpiredRemoval ∧
      out.2.mapSeenSyncMNB = without ((s.mapSeenMasternodeBroadcast.filter
        (isOf (s.inactive env forceExpiredRemoval))).map (key hash)) s.mapSeenSyncMNB :=
  removeLoop_spec env forceExpiredRemoval (s.checked env) s.removal

theorem expireLoop_sublist {l l' : List CMasternodeBroadcast} {sync sync' : SyncMap}
    (h : expireLoop hash env l sync = some (l', sync')) : l'.Sublist l := by
  rw [expireLoop_spec] at h
  split at h
  · cases h
  · cases h
    exact List.filter_sublist

/-- `CMasternodeMan::CheckAndRemove`; `none` when it dereferences an end iterator. -/
def checkAndRemove : Option (ListCache hash) :=
  let out := removeLoop hash env forceExpiredRemoval (s.checked env) s.removal
  match h : expireLoop hash env out.2.mapSeenMasternodeBroadcast out.2.mapSeenSyncMNB with
  | none => none
  | some r => some {
      vMasternodes := out.1
      mapSeenMasternodeBroadcast := r.1
      mapSeenMasternodePing := fun k => (s.mapSeenMasternodePing k).filter fun ping =>
        !decide (ping.sigTime < env.now - MASTERNODE_REMOVAL_SECONDS * 2)
      mAskedUsForMasternodeList := dropPast env s.mAskedUsForMasternodeList
      mWeAskedForMasternodeList := dropPast env s.mWeAskedForMasternodeList
      mWeAskedForMasternodeListEntry := dropPast env out.2.mWeAskedForMasternodeListEntry
      mapSeenSyncMNB := r.2
      sorted := s.sorted.sublist ((expireLoop_sublist env h).trans
        ((s.removeLoop_removal env forceExpiredRemoval).2.1 ▸ s.keptBroadcasts_sublist env forceExpiredRemoval)) }

/-- What is removed is what expired: the inactive masternodes, their broadcasts and those with an old ping, and the hashes
of these broadcasts. -/
structure RemovesExactly (after : ListCache hash) : Prop where
  masternodes : after.vMasternodes =
    (s.checked env).filter fun mn => !CMasternodeMan.isInactive env forceExpiredRemoval mn
  broadcasts : after.mapSeenMasternodeBroadcast =
    s.mapSeenMasternodeBroadcast.filter fun mnb => !s.isRemoved env forceExpiredRemoval mnb
  hashes : after.mapSeenSyncMNB = without
    ((s.mapSeenMasternodeBroadcast.filter (s.isRemoved env forceExpiredRemoval)).map (key hash)) s.mapSeenSyncMNB

/-- Of the broadcasts that stay, in the order of their hashes, the last one is not expired, and each one with an entry in
the sync map is expired exactly when the one before it is. -/
def ExpiresInStep : Prop :=
  (s.keptBroadcasts env forceExpiredRemoval).getLast?.any (expired env) = false ∧
    ∀ mnb ∈ s.keptBroadcasts env forceExpiredRemoval, s.mapSeenSyncMNB (hash mnb.getHash) ≠ none →
      (expired env mnb = true ↔ mnb ∈ afterExpired env false (s.keptBroadcasts env forceExpiredRemoval))

variable {s}

theorem key_inj {a b : CMasternodeBroadcast} (ha : a ∈ s.mapSeenMasternodeBroadcast)
    (hb : b ∈ s.mapSeenMasternodeBroadcast) (h : key hash a = key hash b) : a = b := by
  have hnodup : (s.mapSeenMasternodeBroadcast.map (key hash)).Nodup := by
    refine List.pairwise_map.mpr (s.sorted.imp fun {a b} hlt he => ?_)
    rw [key, key] at he
    rw [he] at hlt
    exact absurd hlt (BitVec.lt_irrefl _)
  exact List.inj_on_of_nodup_map hnodup ha hb h

theorem mem_map_key {l : List CMasternodeBroadcast} (hl : l ⊆ s.mapSeenMasternodeBroadcast) {mnb : CMasternodeBroadcast}
    (hmnb : mnb ∈ s.mapSeenMasternodeBroadcast) : key hash mnb ∈ l.map (key hash) ↔ mnb ∈ l := by
  constructor
  · intro h
    obtain ⟨a, ha, heq⟩ := List.mem_map.mp h
    rwa [← key_inj (hl ha) hmnb heq]
  · exact List.mem_map_of_mem

theorem filter_isRemoved : (s.mapSeenMasternodeBroadcast.filter fun mnb => !s.isRemoved env forceExpiredRemoval mnb) =
    (s.keptBroadcasts env forceExpiredRemoval).filter fun mnb => !expired env mnb := by
  unfold keptBroadcasts isRemoved
  rw [List.filter_filter]
  refine List.filter_congr fun mnb _ => ?_
  rw [Bool.not_or, Bool.and_comm]

theorem checkAndRemove_spec : s.checkAndRemove env forceExpiredRemoval = none ∧
      (s.keptBroadcasts env forceExpiredRemoval).getLast?.any (expired env) = true ∨
    ∃ after, s.checkAndRemove env forceExpiredRemoval = some after ∧
      (s.keptBroadcasts env forceExpiredRemoval).getLast?.any (expired env) = false ∧
      after.vMasternodes = ((s.checked env).filter fun mn => !CMasternodeMan.isInactive env forceExpiredRemoval mn) ∧
      after.mapSeenMasternodeBroadcast =
        (s.keptBroadcasts env forceExpiredRemoval).filter (fun mnb => !expired env mnb) ∧
      after.mapSeenSyncMNB = without ((s.mapSeenMasternodeBroadcast.filter
        (isOf (s.inactive env forceExpiredRemoval))).map (key hash) ++
        (afterExpired env false (s.keptBroadcasts env forceExpiredRemoval)).map (key hash)) s.mapSeenSyncMNB := by
  obtain ⟨h1, h2, h3⟩ := s.removeLoop_removal env forceExpiredRemoval
  unfold checkAndRemove
  dsimp only
  split
  · rename_i h
    rw [expireLoop_spec, h2] at h
    split at h
    · rename_i hlast
      exact Or.inl ⟨rfl, hlast⟩
    · cases h
  · rename_i r h
    rw [expireLoop_spec, h2, h3] at h
    split at h
    · cases h
    · rename_i hlast
      cases h
      exact Or.inr ⟨_, rfl, by simpa using hlast, h1, rfl, without_without _ _ _⟩

/-- What is removed is what expired exactly when the loop over the expired broadcasts goes in step with the sync map. -/
theorem removesExactly_iff (s : ListCache hash) : (∃ after, s.checkAndRemove env forceExpiredRemoval = some after ∧
    s.RemovesExactly env forceExpiredRemoval after) ↔ s.ExpiresInStep env forceExpiredRemoval := by
  have hsub := s.keptBroadcasts_sublist env forceExpiredRemoval
  rcases checkAndRemove_spec env forceExpiredRemoval (s := s) with ⟨hnone, hlast⟩ | ⟨after, hsome, hlast, h1, h2, h3⟩
  · constructor
    · rintro ⟨after, hsome, -⟩
      rw [hnone] at hsome
      cases hsome
    · rintro ⟨hl, -⟩
      rw [hlast] at hl
      cases hl
  · have hiff : (∃ after, s.checkAndRemove env forceExpiredRemoval = some after ∧
        s.RemovesExactly env forceExpiredRemoval after) ↔ after.mapSeenSyncMNB = without
          ((s.mapSeenMasternodeBroadcast.filter (s.isRemoved env forceExpiredRemoval)).map (key hash))
          s.mapSeenSyncMNB := by
      constructor
      · rintro ⟨after', hsome', hrem⟩
        rw [hsome, Option.some.injEq] at hsome'
        rw [hsome']
        exact hrem.hashes
      · intro h
        exact ⟨after, hsome, h1, h2.trans (filter_isRemoved env forceExpiredRemoval).symm, h⟩
    have hafter : afterExpired env false (s.keptBroadcasts env forceExpiredRemoval) ⊆ s.mapSeenMasternodeBroadcast :=
      fun _ h => hsub.subset ((afterExpired_sublist env _ _).subset h)
    rw [hiff, h3, without_eq_iff, ← List.map_append]
    constructor
    · intro h
      refine ⟨hlast, fun mnb hmnb hsync => ?_⟩
      have hseen := hsub.subset hmnb
      have hstays : isOf (s.inactive env forceExpiredRemoval) mnb = false := by simpa using List.of_mem_filter hmnb
      have hk := h _ hsync
      rw [mem_map_key (List.append_subset.mpr ⟨List.filter_subset_self _, hafter⟩) hseen,
        mem_map_key (List.filter_subset_self _) hseen] at hk
      simpa [hstays, isRemoved, hseen] using hk.symm
    · rintro ⟨-, h⟩ k hk
      rw [List.mem_map, List.mem_map]
      refine exists_congr fun mnb => and_congr_left fun heq => ?_
      subst heq
      rw [List.mem_append, List.mem_filter, List.mem_filter, isRemoved, Bool.or_eq_true]
      by_cases hof : isOf (s.inactive env forceExpiredRemoval) mnb = true
      · simp only [hof, and_true, true_or]
        exact or_iff_left_of_imp fun ha => hafter ha
      · constructor
        · rintro (⟨-, hof'⟩ | ha)
          · exact absurd hof' hof
          · have hmnb := (afterExpired_sublist env _ _).subset ha
            exact ⟨hsub.subset hmnb, Or.inr ((h mnb hmnb hk).mpr ha)⟩
        · rintro ⟨hseen, hexp⟩
          have hmnb : mnb ∈ s.keptBroadcasts env forceExpiredRemoval := List.mem_filter.mpr ⟨hseen, by simpa using hof⟩
          exact Or.inr ((h mnb hmnb hk).mp (hexp.resolve_left hof))

/-! ## Two broadcasts -/

/-- The hash of a broadcast is its time. -/
def timeHash (k : Int × CPubKey) : Uint256 := BitVec.ofInt 256 k.1

/-- No masternodes, and two broadcasts that were offered to peers. -/
def twoSeen (pingTime₁ pingTime₂ : Int) : ListCache timeHash where
  vMasternodes := []
  mapSeenMasternodeBroadcast := [sampleBroadcast 0 1 1000 pingTime₁ 0, sampleBroadcast 1 3 2000 pingTime₂ 0]
  mapSeenMasternodePing _ := none
  mAskedUsForMasternodeList _ := none
  mWeAskedForMasternodeList _ := none
  mWeAskedForMasternodeListEntry _ := none
  mapSeenSyncMNB k := if k = 1000 ∨ k = 2000 then some 1 else none
  sorted := List.pairwise_pair.mpr (show timeHash (1000, sampleKey 1) < timeHash (2000, sampleKey 3) by decide)

/-- The broadcast that has not expired loses its entry in the sync map, and the expired one keeps it. -/
theorem not_removesExactly : ¬ ∀ (hash : Int × CPubKey → Uint256) (env : MasternodeEnv) (forceExpiredRemoval : Bool)
    (s : ListCache hash), ∃ after, s.checkAndRemove env forceExpiredRemoval = some after ∧
      s.RemovesExactly env forceExpiredRemoval after := by
  intro h
  obtain ⟨after, hsome, hrem⟩ := h timeHash (sampleNode 100000) false (twoSeen 1000 99000)
  have hlost : ((twoSeen 1000 99000).checkAndRemove (sampleNode 100000) false).map (fun s => s.mapSeenSyncMNB 2000) =
      some none := by decide
  have hkept : without (((twoSeen 1000 99000).mapSeenMasternodeBroadcast.filter
      ((twoSeen 1000 99000).isRemoved (sampleNode 100000) false)).map (key timeHash))
      (twoSeen 1000 99000).mapSeenSyncMNB 2000 = some 1 := by decide
  rw [hsome, Option.map_some, Option.some.injEq, hrem.hashes, hkept] at hlost
  cases hlost

/-- When the last broadcast is expired, the end of the map is dereferenced. -/
example : (twoSeen 99000 1000).checkAndRemove (sampleNode 100000) false = none := by decide

end ListCache

end DigiWage
