import DigiWage.Lib.Run
import DigiWage.Masternode.Manager
import Mathlib.Data.List.MinMax

/-!
# Votes converge

The votes on a proposal or a finalized budget should not depend on the order in which they arrive: for each masternode
the latest one counts (`latestVote`). Once the proposal is known this is what `AddOrUpdateVote` does
(`addOrUpdateVote_latest`). Before that, the manager keeps one orphan vote for each hash, and `NewBlock` does not look at
the orphan votes when it promotes a proposal.

* `KindOp.Lossless`: no vote meets another one that waits, no vote waits when `NewBlock` promotes the proposal, the
  proposal is valid each time it is checked, and no difference of two times overflows.
-/

namespace DigiWage

open Lib

section Latest

variable {γ : Type}

/-- Two votes of a masternode are far enough apart. -/
def Spaced (votes : List (BudgetVote γ)) : Prop :=
  ∀ v ∈ votes, ∀ w ∈ votes, v.voter = w.voter → v ≠ w →
    v.nTime + BUDGET_VOTE_UPDATE_MIN ≤ w.nTime ∨ w.nTime + BUDGET_VOTE_UPDATE_MIN ≤ v.nTime

/-- The latest vote of a masternode. -/
def latestVote (votes : List (BudgetVote γ)) (voter : COutPoint) : Option (BudgetVote γ) :=
  @List.argmax _ Int Int.instLinearOrder.toPreorder Int.decLt BudgetVote.nTime (votes.filter fun v => v.voter = voter)

variable {votes votes' : List (BudgetVote γ)} {v c : BudgetVote γ} {voter : COutPoint}

theorem mem_of_latestVote (h : latestVote votes voter = some c) : c ∈ votes ∧ c.voter = voter := by
  have hmem := List.mem_filter.mp (List.argmax_mem (Option.mem_def.mpr h))
  exact ⟨hmem.1, of_decide_eq_true hmem.2⟩

theorem le_latestVote (h : latestVote votes voter = some c) (hv : v ∈ votes) (hvoter : v.voter = voter) :
    v.nTime ≤ c.nTime :=
  List.le_of_mem_argmax (List.mem_filter.mpr ⟨hv, decide_eq_true hvoter⟩) (Option.mem_def.mpr h)

theorem latestVote_eq_none : latestVote votes voter = none ↔ ∀ v ∈ votes, v.voter ≠ voter := by
  unfold latestVote
  rw [List.argmax_eq_none, List.filter_eq_nil_iff]
  simp only [decide_eq_true_eq]

theorem latestVote_concat : latestVote (votes ++ [v]) voter =
    if v.voter = voter then
      match latestVote votes voter with
      | none => some v
      | some c => if c.nTime < v.nTime then some v else some c
    else latestVote votes voter := by
  unfold latestVote
  rw [List.filter_append]
  by_cases hv : v.voter = voter
  · rw [if_pos hv, List.filter_cons_of_pos (by simpa using hv), List.filter_nil, List.argmax_concat]
    cases (votes.filter fun v => v.voter = voter).argmax BudgetVote.nTime <;> rfl
  · rw [if_neg hv, List.filter_cons_of_neg (by simpa using hv), List.filter_nil, List.append_nil]

theorem latestVote_concat_of_mem (hv : v ∈ votes) : latestVote (votes ++ [v]) voter = latestVote votes voter := by
  rw [latestVote_concat]
  split
  · rename_i hvoter
    cases h : latestVote votes voter with
    | none => exact absurd hvoter (latestVote_eq_none.mp h v hv)
    | some c =>
      have hle := le_latestVote h hv hvoter
      exact if_neg (by omega)
  · rfl

theorem latestVote_congr (hsp : Spaced votes) (hmem : ∀ v, v ∈ votes' ↔ v ∈ votes) :
    latestVote votes' voter = latestVote votes voter := by
  cases h : latestVote votes voter with
  | none =>
    rw [latestVote_eq_none] at h ⊢
    exact fun v hv => h v ((hmem v).mp hv)
  | some c =>
    obtain ⟨hc, hcv⟩ := mem_of_latestVote h
    cases h' : latestVote votes' voter with
    | none => exact absurd hcv (latestVote_eq_none.mp h' c ((hmem c).mpr hc))
    | some c' =>
      obtain ⟨hc', hcv'⟩ := mem_of_latestVote h'
      have hle := le_latestVote h ((hmem c').mp hc') hcv'
      have hle' := le_latestVote h' ((hmem c).mpr hc) hcv
      by_contra hne
      have hne' : c' ≠ c := fun heq => hne (congrArg some heq)
      have hfar := hsp c' ((hmem c').mp hc') c hc (hcv'.trans hcv.symm) hne'
      unfold BUDGET_VOTE_UPDATE_MIN at hfar
      omega

theorem latestVote_concat_of_waiting {waiting : Option (BudgetVote γ)} (hsp : Spaced votes')
    (hsub : ∀ w ∈ votes, w ∈ votes') (hv : v ∈ votes')
    (hwaiting : ∀ voter, latestVote votes voter = waiting.filter fun w => w.voter = voter)
    (holder : ∀ w, waiting = some w → w.voter = v.voter ∧ w.nTime ≤ v.nTime) :
    latestVote (votes ++ [v]) voter = (some v).filter fun w => w.voter = voter := by
  rw [latestVote_concat, hwaiting, Option.filter_some]
  cases waiting with
  | none => simp only [Option.filter_none, decide_eq_true_eq]
  | some w =>
    obtain ⟨hvoter, hle⟩ := holder w rfl
    have hw : latestVote votes v.voter = some w := by
      rw [hwaiting, Option.filter_some, if_pos (decide_eq_true hvoter)]
    have hlt : w ≠ v → w.nTime < v.nTime := by
      intro hne
      have hfar := hsp w (hsub w (mem_of_latestVote hw).1) v hv hvoter hne
      unfold BUDGET_VOTE_UPDATE_MIN at hfar
      omega
    rw [Option.filter_some, hvoter]
    by_cases hv : v.voter = voter
    · simp only [hv, decide_true, if_true]
      by_cases heq : w = v
      · rw [heq, ite_self]
      · rw [if_pos (hlt heq)]
    · simp only [hv, decide_false, if_false, Bool.false_eq_true]

/-- The votes after `AddOrUpdateVote`, whether it takes the vote or not. -/
def votesAfter (now : Int) (mapVotes : VoteMap γ) (vote : BudgetVote γ) : VoteMap γ :=
  match addOrUpdateVote now mapVotes vote with
  | .ok mapVotes' => mapVotes'
  | .error _ => mapVotes

theorem bmod_spaced {t t' : Int} (hfits : t' - t < 2 ^ 63) (hspaced : t + BUDGET_VOTE_UPDATE_MIN ≤ t') :
    t ≤ t' ∧ BUDGET_VOTE_UPDATE_MIN ≤ (t' - t).bmod (2 ^ 64) := by
  unfold BUDGET_VOTE_UPDATE_MIN at *
  rw [Int.bmod_eq_of_le (by omega) (by omega)]
  omega

theorem of_bmod_spaced {t t' : Int} (hfits : t' - t < 2 ^ 63) (h : t ≤ t' ∧ BUDGET_VOTE_UPDATE_MIN ≤ (t' - t).bmod (2 ^ 64)) :
    t + BUDGET_VOTE_UPDATE_MIN ≤ t' := by
  rw [Int.bmod_eq_of_le (by omega) (by omega)] at h
  omega

/-- `AddOrUpdateVote` keeps the latest vote of each masternode, where the difference of the times fits. -/
theorem addOrUpdateVote_latest {now : Int} {mapVotes : VoteMap γ} (hsp : Spaced votes') (hv : v ∈ votes')
    (hsub : ∀ w ∈ votes, w ∈ votes') (hnow : v.nTime ≤ now)
    (hfits : ∀ old, mapVotes.lookup v.voter = some old → v.nTime - old.nTime < 2 ^ 63)
    (hlatest : ∀ voter, mapVotes.lookup voter = latestVote votes voter) :
    ∀ voter, (votesAfter now mapVotes v).lookup voter = latestVote (votes ++ [v]) voter := by
  intro voter
  have htake : ∀ (h : ∀ old, mapVotes.lookup v.voter = some old → old.nTime + BUDGET_VOTE_UPDATE_MIN ≤ v.nTime),
      votesAfter now mapVotes v = mapVotes.insert v.voter v := by
    intro h
    unfold votesAfter
    rw [addOrUpdateVote_ok_iff.mpr ⟨rfl, by omega, fun old hold => bmod_spaced (hfits old hold) (h old hold)⟩]
  have hleave : ∀ old, mapVotes.lookup v.voter = some old → v.nTime < old.nTime + BUDGET_VOTE_UPDATE_MIN →
      votesAfter now mapVotes v = mapVotes := by
    intro old hold hlt
    unfold votesAfter
    cases hadd : addOrUpdateVote now mapVotes v with
    | error e => rfl
    | ok mapVotes' =>
      have hge := of_bmod_spaced (hfits old hold) ((addOrUpdateVote_ok_iff.mp hadd).2.2 old hold)
      omega
  rw [latestVote_concat]
  cases h : latestVote votes v.voter with
  | none =>
    rw [htake (by rw [hlatest, h]; simp)]
    by_cases hvoter : v.voter = voter
    · subst hvoter
      rw [if_pos rfl, h, AList.lookup_insert]
    · rw [if_neg hvoter, AList.lookup_insert_ne (Ne.symm hvoter), hlatest]
  | some c =>
    obtain ⟨hc, hcv⟩ := mem_of_latestVote h
    have hold : mapVotes.lookup v.voter = some c := (hlatest v.voter).trans h
    by_cases hnew : c.nTime + BUDGET_VOTE_UPDATE_MIN ≤ v.nTime
    · rw [htake (by rw [hold]; rintro _ ⟨⟩; exact hnew)]
      by_cases hvoter : v.voter = voter
      · subst hvoter
        unfold BUDGET_VOTE_UPDATE_MIN at hnew
        rw [if_pos rfl, h, AList.lookup_insert]
        exact (if_pos (by omega)).symm
      · rw [if_neg hvoter, AList.lookup_insert_ne (Ne.symm hvoter), hlatest]
    · -- the vote is the latest one, or an older one
      rw [hleave c hold (by omega), hlatest]
      by_cases hvoter : v.voter = voter
      · subst hvoter
        rw [if_pos rfl, h]
        refine (if_neg ?_).symm
        by_cases hcv' : c = v
        · rw [hcv']
          omega
        · have hfar := hsp c (hsub c hc) v hv hcv hcv'
          unfold BUDGET_VOTE_UPDATE_MIN at hfar hnew
          omega
      · rw [if_neg hvoter]

theorem lookup_cleanAndRemove {known : CTxIn → Bool} {mapVotes : VoteMap γ}
    (h : ∀ voter v, mapVotes.lookup voter = some v → known v.vin = true ∧ v.fValid = true) (voter : COutPoint) :
    (cleanAndRemove known mapVotes).lookup voter = mapVotes.lookup voter := by
  have hmap : (cleanAndRemove known mapVotes).lookup voter =
      (mapVotes.lookup voter).map fun v => { v with fValid := known v.vin } :=
    List.dlookup_map₂ (l := mapVotes.entries) (f := fun _ v => ({ v with fValid := known v.vin } : BudgetVote γ)) voter
  rw [hmap]
  cases hv : mapVotes.lookup voter with
  | none => rfl
  | some v =>
    obtain ⟨hknown, hvalid⟩ := h voter v hv
    rw [Option.map_some, hknown, ← hvalid]

end Latest

/-! ## One kind of the maps -/

/-- What happens to the maps of proposals, or to those of finalized budgets. -/
inductive KindOp (γ ι : Type) where
  /-- A proposal or budget arrives. -/
  | item (env : BudgetEnv) (broadcast : ι)
  | vote (env : BudgetEnv) (message : BudgetVote γ) (vchSig : List UInt8)
  /-- `CheckOrphanVotes`, for an arrival of the other kind. -/
  | orphans (env : BudgetEnv)
  /-- `NewBlock`, which first clears what was seen or not. -/
  | newBlock (env : BudgetEnv) (clears : Bool)
  | idle

namespace BudgetKind

variable {γ ι : Type} (kind : BudgetKind γ ι)

/-- The proposal or budget has the hash, and passes the checks. -/
def accepts (env : BudgetEnv) (nHash : Uint256) (item : ι) : Bool :=
  kind.getHash item == nHash && (kind.isCollateralValid env item).1 && kind.isValid env item

theorem accepts_iff {env : BudgetEnv} {nHash : Uint256} {item : ι} : kind.accepts env nHash item = true ↔
    kind.getHash item = nHash ∧ (kind.isCollateralValid env item).1 = true ∧ kind.isValid env item = true := by
  unfold accepts
  rw [Bool.and_eq_true, Bool.and_eq_true, beq_iff_eq, and_assoc]

end BudgetKind

namespace BudgetMaps

variable {γ ι : Type} {kind : BudgetKind γ ι} {m : BudgetMaps γ ι} {env : BudgetEnv} {nHash : Uint256}

theorem receiveItem_cases (kind : BudgetKind γ ι) (env : BudgetEnv) (m : BudgetMaps γ ι) (broadcast : ι) :
    (∃ m', m.receiveItem kind env broadcast = (false, m') ∧
      m'.mapItems = m.mapItems ∧ m'.mapOrphanVotes = m.mapOrphanVotes ∧ m'.mapSeenVotes = m.mapSeenVotes ∧
      ∀ i ∈ m'.vecImmature, i ∈ m.vecImmature ∨ i = kind.setVotes ∅ broadcast) ∨
    (kind.isValid env (kind.setVotes ∅ broadcast) = true ∧ m.receiveItem kind env broadcast = (true,
      { m with mapSeenItems := Function.update m.mapSeenItems (kind.getHash (kind.setVotes ∅ broadcast)) true }.add kind env
        (kind.setVotes ∅ broadcast))) := by
  unfold receiveItem
  dsimp only
  split_ifs with hseen hcollateral hconf hvalid
  · exact .inl ⟨m, rfl, rfl, rfl, rfl, fun i hi => .inl hi⟩
  · refine .inl ⟨_, rfl, rfl, rfl, rfl, fun i hi => ?_⟩
    rwa [List.mem_append, List.mem_singleton] at hi
  · exact .inl ⟨m, rfl, rfl, rfl, rfl, fun i hi => .inl hi⟩
  · exact .inl ⟨_, rfl, rfl, rfl, rfl, fun i hi => .inl hi⟩
  · exact .inr ⟨by simpa using hvalid, rfl⟩

theorem add_mapItems (m : BudgetMaps γ ι) (nHash : Uint256) {item : ι} (hvalid : kind.isValid env item = true) :
    (m.add kind env item).mapItems nHash =
      if kind.getHash item = nHash ∧ m.mapItems nHash = none then some (kind.setValid item) else m.mapItems nHash := by
  unfold add
  simp only [hvalid, Bool.not_true, Bool.false_eq_true, if_false]
  by_cases hhash : kind.getHash item = nHash
  · subst hhash
    cases hknown : m.mapItems (kind.getHash item) with
    | none => simp
    | some known => simp [hknown]
  · simp only [hhash, false_and, if_false]
    split_ifs
    · rfl
    · exact Function.update_of_ne (Ne.symm hhash) ..

theorem add_eq (item : ι) : m.add kind env item = { m with mapItems := (m.add kind env item).mapItems } := by
  unfold add
  split_ifs <;> rfl

theorem update_eq (vote : BudgetVote γ) (pfrom : Bool) : (m.update kind env vote pfrom).2 = { m with
    mapItems := (m.update kind env vote pfrom).2.mapItems
    mapOrphanVotes := (m.update kind env vote pfrom).2.mapOrphanVotes } := by
  unfold update
  split
  · split_ifs <;> rfl
  · split <;> rfl

theorem update_of_ne (kind : BudgetKind γ ι) (env : BudgetEnv) (m : BudgetMaps γ ι) (vote : BudgetVote γ) (pfrom : Bool)
    (hne : vote.nHash ≠ nHash) :
    (m.update kind env vote pfrom).2.mapItems nHash = m.mapItems nHash ∧
      (m.update kind env vote pfrom).2.mapOrphanVotes nHash = m.mapOrphanVotes nHash := by
  unfold update
  split
  · split_ifs
    · exact ⟨rfl, Function.update_of_ne (Ne.symm hne) ..⟩
    · exact ⟨rfl, rfl⟩
  · split
    · exact ⟨rfl, rfl⟩
    · exact ⟨Function.update_of_ne (Ne.symm hne) .., rfl⟩

theorem update_unknown {vote : BudgetVote γ} (hunknown : m.mapItems vote.nHash = none) (hsynced : env.isSynced = true) :
    (m.update kind env vote true).2 =
      { m with mapOrphanVotes := Function.update m.mapOrphanVotes vote.nHash (some vote) } := by
  simp only [update, hunknown, hsynced, Bool.and_self, if_true]

theorem update_known (kind : BudgetKind γ ι) (env : BudgetEnv) (m : BudgetMaps γ ι) (vote : BudgetVote γ) (pfrom : Bool)
    {item : ι} (hitem : m.mapItems vote.nHash = some item) :
    (m.update kind env vote pfrom).2.mapOrphanVotes = m.mapOrphanVotes ∧
      ∃ item', (m.update kind env vote pfrom).2.mapItems vote.nHash = some item' ∧
        kind.mapVotes item' = votesAfter env.now (kind.mapVotes item) vote := by
  cases hadd : addOrUpdateVote env.now (kind.mapVotes item) vote with
  | error e =>
    have hupdate : (m.update kind env vote pfrom).2 = m := by simp only [update, hitem, hadd]
    refine ⟨by rw [hupdate], item, by rw [hupdate, hitem], ?_⟩
    simp only [votesAfter, hadd]
  | ok mapVotes =>
    refine ⟨?_, kind.setVotes mapVotes item, ?_, ?_⟩
    · simp only [update, hitem, hadd]
    · simp only [update, hitem, hadd, Function.update_self]
    · simp only [votesAfter, hadd, kind.mapVotes_setVotes]

theorem promote_spec (kind : BudgetKind γ ι) (env : BudgetEnv) (nHash : Uint256) : ∀ (items : List ι) (m : BudgetMaps γ ι),
    (promote kind env items m).1 = { m with mapItems := (promote kind env items m).1.mapItems } ∧
      (promote kind env items m).1.mapItems nHash =
        (m.mapItems nHash).or ((items.find? (kind.accepts env nHash)).map kind.setValid) ∧
      ∀ i ∈ (promote kind env items m).2, i ∈ items
  | [], m => ⟨rfl, by rw [promote, List.find?_nil, Option.map_none, Option.or_none], fun i hi => hi⟩
  | item :: rest, m => by
    unfold promote
    split_ifs with hcollateral hvalid
    · obtain ⟨heq, hitems, hkept⟩ := promote_spec kind env nHash rest m
      have hno : kind.accepts env nHash item = false := by
        rw [Bool.not_eq_true'] at hcollateral
        simp only [BudgetKind.accepts, hcollateral, Bool.and_false, Bool.false_and]
      refine ⟨heq, ?_, fun i hi => ?_⟩
      · rw [List.find?_cons_of_neg (by rw [hno]; exact Bool.false_ne_true)]
        exact hitems
      · rcases List.mem_cons.mp hi with rfl | hi
        · exact List.mem_cons_self
        · exact List.mem_cons_of_mem item (hkept i hi)
    · obtain ⟨heq, hitems, hkept⟩ := promote_spec kind env nHash rest m
      have hno : kind.accepts env nHash item = false := by
        rw [Bool.not_eq_true'] at hvalid
        simp only [BudgetKind.accepts, hvalid, Bool.and_false]
      refine ⟨heq, ?_, fun i hi => List.mem_cons_of_mem item (hkept i hi)⟩
      rw [List.find?_cons_of_neg (by rw [hno]; exact Bool.false_ne_true)]
      exact hitems
    · obtain ⟨heq, hitems, hkept⟩ := promote_spec kind env nHash rest (m.add kind env item)
      rw [Bool.not_eq_true', Bool.not_eq_false] at hcollateral hvalid
      refine ⟨?_, ?_, fun i hi => List.mem_cons_of_mem item (hkept i hi)⟩
      · rw [heq, add_eq]
      · rw [hitems, add_mapItems m nHash hvalid]
        by_cases hhash : kind.getHash item = nHash
        · have hyes := kind.accepts_iff.mpr ⟨hhash, hcollateral, hvalid⟩
          rw [List.find?_cons_of_pos hyes]
          cases hknown : m.mapItems nHash with
          | none =>
            rw [if_pos ⟨hhash, rfl⟩]
            rfl
          | some known => rw [if_neg (by simp), Option.some_or, Option.some_or]
        · rw [if_neg fun h => hhash h.1, List.find?_cons_of_neg fun h => hhash (kind.accepts_iff.mp h).1]

theorem newBlock_mapItems : (m.newBlock kind env).mapItems nHash =
    (((m.checkAndRemove kind env).cleanItems kind env).mapItems nHash).or
      ((m.vecImmature.find? (kind.accepts env nHash)).map kind.setValid) :=
  (promote_spec kind env nHash m.vecImmature ((m.checkAndRemove kind env).cleanItems kind env)).2.1

variable [DecidableEq γ] (kind)

def apply (m : BudgetMaps γ ι) : KindOp γ ι → BudgetMaps γ ι
  | .item env broadcast =>
    let (checks, m') := m.receiveItem kind env broadcast
    if checks then m'.checkOrphanVotes kind env else m'
  | .vote env message vchSig => m.receiveVote kind env message vchSig
  | .orphans env => m.checkOrphanVotes kind env
  | .newBlock env clears => (if clears then m.clearSeen else m).newBlock kind env
  | .idle => m

end BudgetMaps

section Kind

variable {γ ι : Type} (kind : BudgetKind γ ι)

/-- The node is synced, it knows the masternodes that voted, and no vote is from the future. -/
def BudgetEnv.Synced (env : BudgetEnv) (votes : List (BudgetVote γ)) : Prop :=
  CBudgetManager.listens env = true ∧ env.isSynced = true ∧ ∀ v ∈ votes, v.nTime ≤ env.now ∧ env.known v.vin = true

/-- The vote that a message brings, if it is on the hash. -/
def BudgetVote.on (nHash : Uint256) (message : BudgetVote γ) : Option (BudgetVote γ) :=
  if message.nHash = nHash then some { message with fValid := true } else none

namespace KindOp

/-- The vote on the hash that arrives. -/
def delivered (nHash : Uint256) : KindOp γ ι → Option (BudgetVote γ)
  | .vote _ message _ => message.on nHash
  | _ => none

/-- The node is synced for the votes, and what arrives for the hash is one of them and validly signed. -/
def Sound (votes : List (BudgetVote γ)) (nHash : Uint256) : KindOp γ ι → Prop
  | .item env _ => env.Synced votes
  | .vote env message vchSig => env.Synced votes ∧ (message.nHash = nHash →
      { message with fValid := true } ∈ votes ∧ kind.checkSignature env { message with fValid := true } vchSig = true)
  | .orphans env => env.Synced votes
  | .newBlock env _ => env.Synced votes
  | .idle => True

/-- A vote on an unknown hash meets no orphan vote on it, but an older one of the same masternode; on a known one, the difference
to the time of the masternode's vote fits 64 bits. When `NewBlock` finds the proposal it is valid, and when it promotes it
there is no orphan vote. -/
def Lossless (nHash : Uint256) (m : BudgetMaps γ ι) : KindOp γ ι → Prop
  | .vote _ message _ => message.nHash = nHash →
    match m.mapItems nHash with
    | none => ∀ w, m.mapOrphanVotes nHash = some w → w.voter = message.voter ∧ w.nTime ≤ message.nTime
    | some known => ∀ old, (kind.mapVotes known).lookup message.voter = some old → message.nTime - old.nTime < 2 ^ 63
  | .newBlock env _ => match m.mapItems nHash with
    | some kept => kind.isValid env kept = true
    | none => (∃ item ∈ m.vecImmature, kind.accepts env nHash item = true) → m.mapOrphanVotes nHash = none
  | _ => True

/-- The proposal or budget arrives and passes the checks, or `NewBlock` promotes it. -/
def Arrives (nHash : Uint256) (m : BudgetMaps γ ι) : KindOp γ ι → Prop
  | .item env broadcast => m.mapSeenItems nHash = false ∧ kind.accepts env nHash (kind.setVotes ∅ broadcast) = true
  | .newBlock env _ => ∃ item ∈ m.vecImmature, kind.accepts env nHash item = true
  | _ => False

end KindOp

/-- No vote on the hash is lost: while the proposal or budget is unknown the orphan vote is all there is, and then its votes
are the latest ones. -/
structure Converged (votes : List (BudgetVote γ)) (nHash : Uint256) (delivered : List (BudgetVote γ)) (m : BudgetMaps γ ι) :
    Prop where
  on : ∀ v ∈ delivered, v ∈ votes ∧ v.nHash = nHash ∧ v.fValid = true
  seen : ∀ v, m.mapSeenVotes v = true → v.nHash = nHash → v ∈ delivered
  immature : ∀ item ∈ m.vecImmature, kind.mapVotes item = ∅
  unknown : m.mapItems nHash = none →
    ∀ voter, latestVote delivered voter = (m.mapOrphanVotes nHash).filter fun w => w.voter = voter
  known : ∀ item, m.mapItems nHash = some item →
    m.mapOrphanVotes nHash = none ∧ ∀ voter, (kind.mapVotes item).lookup voter = latestVote delivered voter

namespace Converged

variable {kind} {votes delivered : List (BudgetVote γ)} {nHash : Uint256} {m m' : BudgetMaps γ ι} {env : BudgetEnv}

theorem empty : Converged kind votes nHash [] (BudgetMaps.empty : BudgetMaps γ ι) where
  on _ hv := absurd hv List.not_mem_nil
  seen _ h := absurd h Bool.false_ne_true
  immature _ h := absurd h List.not_mem_nil
  unknown _ _ := rfl
  known _ h := nomatch h

theorem frame (h : Converged kind votes nHash delivered m) (hitems : m'.mapItems nHash = m.mapItems nHash)
    (horphans : m'.mapOrphanVotes nHash = m.mapOrphanVotes nHash)
    (himmature : ∀ item ∈ m'.vecImmature, kind.mapVotes item = ∅)
    (hseen : ∀ v, v.nHash = nHash → m'.mapSeenVotes v = true → m.mapSeenVotes v = true) :
    Converged kind votes nHash delivered m' where
  on := h.on
  seen v hv hon := h.seen v (hseen v hon hv) hon
  immature := himmature
  unknown hnone := by
    rw [horphans]
    exact h.unknown (hitems ▸ hnone)
  known item hitem := by
    rw [horphans]
    exact h.known item (hitems ▸ hitem)

theorem of_known {item : ι} (hon : ∀ v ∈ delivered, v ∈ votes ∧ v.nHash = nHash ∧ v.fValid = true)
    (hseen : ∀ v, m.mapSeenVotes v = true → v.nHash = nHash → v ∈ delivered)
    (himmature : ∀ item ∈ m.vecImmature, kind.mapVotes item = ∅) (hitem : m.mapItems nHash = some item)
    (horphan : m.mapOrphanVotes nHash = none)
    (hlatest : ∀ voter, (kind.mapVotes item).lookup voter = latestVote delivered voter) :
    Converged kind votes nHash delivered m where
  on := hon
  seen := hseen
  immature := himmature
  unknown hnone := by
    rw [hitem] at hnone
    exact absurd hnone (Option.some_ne_none item)
  known i hi := by
    rw [hitem, Option.some.injEq] at hi
    exact ⟨horphan, hi ▸ hlatest⟩

theorem orphan_mem (h : Converged kind votes nHash delivered m) {w : BudgetVote γ} (hw : m.mapOrphanVotes nHash = some w) :
    m.mapItems nHash = none ∧ w ∈ delivered := by
  cases hitem : m.mapItems nHash with
  | some item => exact absurd (h.known item hitem).1 (by rw [hw]; exact Option.some_ne_none w)
  | none =>
    have hlatest := h.unknown hitem w.voter
    rw [hw, Option.filter_some, if_pos (decide_eq_true rfl)] at hlatest
    exact ⟨rfl, (mem_of_latestVote hlatest).1⟩

theorem checkOrphanVotes (h : Converged kind votes nHash delivered m) :
    Converged kind votes nHash delivered (m.checkOrphanVotes kind env) := by
  cases hw : m.mapOrphanVotes nHash with
  | none =>
    refine h.frame ?_ ?_ h.immature fun v _ hv => hv
    · simp only [BudgetMaps.checkOrphanVotes, hw]
    · simp only [BudgetMaps.checkOrphanVotes, hw]
  | some w =>
    obtain ⟨hitem, hmem⟩ := h.orphan_mem hw
    have hupdate : m.update kind env w false = (false, m) := by
      simp only [BudgetMaps.update, (h.on w hmem).2.1, hitem, Bool.false_and, Bool.false_eq_true, if_false]
    refine h.frame ?_ ?_ h.immature fun v _ hv => hv
    · simp only [BudgetMaps.checkOrphanVotes, hw, hupdate]
    · simp only [BudgetMaps.checkOrphanVotes, hw, hupdate, Bool.false_eq_true, if_false]

theorem arrive {item : ι} (h : Converged kind votes nHash delivered m) (henv : env.Synced votes)
    (hunknown : m.mapItems nHash = none) (hvotes : kind.mapVotes item = ∅) (hitems : m'.mapItems nHash = some item)
    (horphans : m'.mapOrphanVotes = m.mapOrphanVotes) (himmature : m'.vecImmature = m.vecImmature)
    (hseen : m'.mapSeenVotes = m.mapSeenVotes) :
    Converged kind votes nHash delivered (m'.checkOrphanVotes kind env) := by
  suffices hsuff : ∃ item', (m'.checkOrphanVotes kind env).mapItems nHash = some item' ∧
      (m'.checkOrphanVotes kind env).mapOrphanVotes nHash = none ∧
      ∀ voter, (kind.mapVotes item').lookup voter = latestVote delivered voter by
    obtain ⟨item', hitem', horphan', hlatest⟩ := hsuff
    exact of_known h.on (fun v hv => h.seen v (hseen ▸ hv)) (fun i hi => h.immature i (himmature ▸ hi)) hitem' horphan'
      hlatest
  have hlatest := h.unknown hunknown
  cases hw : m.mapOrphanVotes nHash with
  | none =>
    refine ⟨item, ?_, ?_, fun voter => ?_⟩
    · simp only [BudgetMaps.checkOrphanVotes, horphans, hw, hitems]
    · simp only [BudgetMaps.checkOrphanVotes, horphans, hw]
    · rw [hlatest, hw, hvotes, AList.lookup_empty, Option.filter_none]
  | some w =>
    obtain ⟨-, hmem⟩ := h.orphan_mem hw
    obtain ⟨hin, hon, -⟩ := h.on w hmem
    have hnow := (henv.2.2 w hin).1
    have hadd : addOrUpdateVote env.now (kind.mapVotes item) w = .ok ((∅ : VoteMap γ).insert w.voter w) := by
      rw [hvotes, addOrUpdateVote_ok_iff]
      refine ⟨rfl, by omega, ?_⟩
      rw [AList.lookup_empty]
      rintro old ⟨⟩
    have hupdate : m'.update kind env w false = (true, { m' with
        mapItems := Function.update m'.mapItems nHash (some (kind.setVotes ((∅ : VoteMap γ).insert w.voter w) item)) }) := by
      simp only [BudgetMaps.update, hon, hitems, hadd]
    refine ⟨kind.setVotes ((∅ : VoteMap γ).insert w.voter w) item, ?_, ?_, fun voter => ?_⟩
    · simp only [BudgetMaps.checkOrphanVotes, horphans, hw, hupdate, Function.update_self]
    · simp only [BudgetMaps.checkOrphanVotes, horphans, hw, hupdate, if_true]
    · rw [hlatest, hw, kind.mapVotes_setVotes, Option.filter_some]
      by_cases hvoter : w.voter = voter
      · rw [← hvoter, AList.lookup_insert, if_pos (decide_eq_true rfl)]
      · rw [AList.lookup_insert_ne (Ne.symm hvoter), AList.lookup_empty, if_neg (by simpa using hvoter)]

theorem newBlock (h : Converged kind votes nHash delivered m) (henv : env.Synced votes)
    (hvalid : ∀ item, m.mapItems nHash = some item → kind.isValid env item = true)
    (hvacant : m.mapItems nHash = none → (∃ item ∈ m.vecImmature, kind.accepts env nHash item = true) →
      m.mapOrphanVotes nHash = none) : Converged kind votes nHash delivered (m.newBlock kind env) := by
  simp only [BudgetMaps.newBlock]
  set m₁ := (m.checkAndRemove kind env).cleanItems kind env with hm₁
  obtain ⟨heq, hitems, hkept⟩ := BudgetMaps.promote_spec kind env nHash m₁.vecImmature m₁
  have himmature : ∀ i ∈ (BudgetMaps.promote kind env m₁.vecImmature m₁).2, kind.mapVotes i = ∅ :=
    fun i hi => h.immature i (hkept i hi)
  have hseen : (BudgetMaps.promote kind env m₁.vecImmature m₁).1.mapSeenVotes = m.mapSeenVotes := by rw [heq]; rfl
  have horphans : (BudgetMaps.promote kind env m₁.vecImmature m₁).1.mapOrphanVotes = m.mapOrphanVotes := by rw [heq]; rfl
  cases hitem : m.mapItems nHash with
  | some item =>
    obtain ⟨horphan, hlatest⟩ := h.known item hitem
    have hitem₁ : m₁.mapItems nHash =
        some (kind.setVotes (cleanAndRemove env.known (kind.mapVotes (kind.setValid item))) (kind.setValid item)) := by
      simp only [hm₁, BudgetMaps.cleanItems, BudgetMaps.checkAndRemove, hitem, Option.bind_some, hvalid item hitem, if_true,
        Option.map_some]
    rw [hitem₁, Option.some_or] at hitems
    refine of_known h.on ?_ himmature hitems ?_ fun voter => ?_
    · exact fun v hv => h.seen v (hseen ▸ hv)
    · exact (congrFun horphans nHash).trans horphan
    · rw [kind.mapVotes_setVotes, kind.mapVotes_setValid, lookup_cleanAndRemove ?_ voter, hlatest]
      intro voter v hv
      rw [hlatest] at hv
      obtain ⟨hmem, -, hfValid⟩ := h.on v (mem_of_latestVote hv).1
      exact ⟨(henv.2.2 v hmem).2, hfValid⟩
  | none =>
    have hitem₁ : m₁.mapItems nHash = none := by
      simp only [hm₁, BudgetMaps.cleanItems, BudgetMaps.checkAndRemove, hitem, Option.bind_none, Option.map_none]
    rw [hitem₁, Option.none_or] at hitems
    cases hfind : m₁.vecImmature.find? (kind.accepts env nHash) with
    | none =>
      refine h.frame ?_ (congrFun horphans nHash) himmature fun v _ hv => hseen ▸ hv
      rw [hfind] at hitems
      exact hitems.trans hitem.symm
    | some item =>
      have hmem : item ∈ m.vecImmature := List.mem_of_find?_eq_some hfind
      have horphan := hvacant hitem ⟨item, hmem, List.find?_some hfind⟩
      have hlatest := h.unknown hitem
      rw [hfind] at hitems
      refine of_known h.on ?_ himmature hitems ?_ fun voter => ?_
      · exact fun v hv => h.seen v (hseen ▸ hv)
      · exact (congrFun horphans nHash).trans horphan
      · rw [hlatest, horphan, kind.mapVotes_setValid, h.immature item hmem, AList.lookup_empty, Option.filter_none]

variable [DecidableEq γ]

theorem item (broadcast : ι) (h : Converged kind votes nHash delivered m) (henv : env.Synced votes) :
    Converged kind votes nHash delivered (m.apply kind (.item env broadcast)) := by
  have hvotes : kind.mapVotes (kind.setVotes ∅ broadcast) = ∅ := kind.mapVotes_setVotes ∅ broadcast
  rcases BudgetMaps.receiveItem_cases kind env m broadcast with
    ⟨m', hreceive, hitems, horphans, hseen, himmature⟩ | ⟨hvalid, hreceive⟩
  · have happly : m.apply kind (.item env broadcast) = m' := by
      simp only [BudgetMaps.apply, hreceive, Bool.false_eq_true, if_false]
    rw [happly]
    refine h.frame (congrFun hitems nHash) (congrFun horphans nHash) ?_ (fun v _ hv => hseen ▸ hv)
    intro i hi
    rcases himmature i hi with hi | rfl
    · exact h.immature i hi
    · exact hvotes
  · simp only [BudgetMaps.apply, hreceive, if_true]
    have hadd := BudgetMaps.add_mapItems { m with
      mapSeenItems := Function.update m.mapSeenItems (kind.getHash (kind.setVotes ∅ broadcast)) true } nHash hvalid
    by_cases harrives : kind.getHash (kind.setVotes ∅ broadcast) = nHash ∧ m.mapItems nHash = none
    · rw [if_pos harrives] at hadd
      have hvotes' := (kind.mapVotes_setValid _).trans hvotes
      exact h.arrive henv harrives.2 hvotes' hadd (by rw [BudgetMaps.add_eq]) (by rw [BudgetMaps.add_eq])
        (by rw [BudgetMaps.add_eq])
    · rw [if_neg harrives] at hadd
      refine (h.frame ?_ ?_ ?_ ?_).checkOrphanVotes
      · exact hadd
      · rw [BudgetMaps.add_eq]
      · rw [BudgetMaps.add_eq]
        exact h.immature
      · rw [BudgetMaps.add_eq]
        exact fun v _ hv => hv

theorem takes {v : BudgetVote γ} (h : Converged kind votes nHash delivered m) (hsp : Spaced votes)
    (hnow : v.nTime ≤ env.now) (hsynced : env.isSynced = true)
    (hon : ∀ w ∈ delivered ++ [v], w ∈ votes ∧ w.nHash = nHash ∧ w.fValid = true)
    (hlossless : match m.mapItems nHash with
      | none => ∀ w, m.mapOrphanVotes nHash = some w → w.voter = v.voter ∧ w.nTime ≤ v.nTime
      | some known => ∀ old, (kind.mapVotes known).lookup v.voter = some old → v.nTime - old.nTime < 2 ^ 63) :
    Converged kind votes nHash (delivered ++ [v])
      (BudgetMaps.update kind env { m with mapSeenVotes := Function.update m.mapSeenVotes v true } v true).2 := by
  obtain ⟨hmem, hhash, -⟩ := hon v (List.mem_append_right _ (List.mem_singleton_self v))
  have hseen : ∀ w, Function.update m.mapSeenVotes v true w = true → w.nHash = nHash → w ∈ delivered ++ [v] := by
    intro w hw hwon
    by_cases heq : w = v
    · exact List.mem_append_right _ (List.mem_singleton.mpr heq)
    · rw [Function.update_of_ne heq] at hw
      exact List.mem_append_left _ (h.seen w hw hwon)
  cases hitem : m.mapItems nHash with
  | none =>
    rw [hitem] at hlossless
    rw [BudgetMaps.update_unknown (by rw [hhash]; exact hitem) hsynced]
    refine ⟨hon, hseen, h.immature, fun _ voter => ?_, fun i hi => ?_⟩
    · simp only [hhash, Function.update_self]
      exact latestVote_concat_of_waiting hsp (fun w hw => (h.on w hw).1) hmem (h.unknown hitem) hlossless
    · rw [hitem] at hi
      cases hi
  | some item =>
    rw [hitem] at hlossless
    obtain ⟨horphan, hlatest⟩ := h.known item hitem
    obtain ⟨horphans, item', hitem', hvotes'⟩ := BudgetMaps.update_known kind env
      { m with mapSeenVotes := Function.update m.mapSeenVotes v true } v true (by rw [hhash]; exact hitem)
    refine of_known hon ?_ ?_ (hhash ▸ hitem') ?_ ?_
    · rw [BudgetMaps.update_eq]
      exact hseen
    · rw [BudgetMaps.update_eq]
      exact h.immature
    · rw [horphans]
      exact horphan
    · rw [hvotes']
      exact addOrUpdateVote_latest hsp hmem (fun w hw => (h.on w hw).1) hnow hlossless hlatest

theorem vote {message : BudgetVote γ} {vchSig : List UInt8} (h : Converged kind votes nHash delivered m)
    (hsp : Spaced votes) (hsound : (KindOp.vote env message vchSig : KindOp γ ι).Sound kind votes nHash)
    (hlossless : (KindOp.vote env message vchSig : KindOp γ ι).Lossless kind nHash m) :
    Converged kind votes nHash (delivered ++ (message.on nHash).toList)
      (m.apply kind (.vote env message vchSig)) := by
  obtain ⟨⟨-, hsynced, henv⟩, hvote⟩ := hsound
  simp only [KindOp.Lossless] at hlossless
  simp only [BudgetVote.on, BudgetMaps.apply, BudgetMaps.receiveVote]
  set v : BudgetVote γ := { message with fValid := true }
  by_cases hhash : message.nHash = nHash
  · obtain ⟨hmem, hsig⟩ := hvote hhash
    have hon : ∀ w ∈ delivered ++ [v], w ∈ votes ∧ w.nHash = nHash ∧ w.fValid = true := by
      intro w hw
      rcases List.mem_append.mp hw with hw | hw
      · exact h.on w hw
      · rw [List.mem_singleton.mp hw]
        exact ⟨hmem, hhash, rfl⟩
    rw [if_pos hhash, Option.toList_some]
    by_cases hseen : m.mapSeenVotes v = true
    · -- it was there already
      rw [if_pos hseen]
      have hlatest : ∀ voter, latestVote (delivered ++ [v]) voter = latestVote delivered voter :=
        fun voter => latestVote_concat_of_mem (h.seen v hseen hhash)
      refine ⟨hon, fun w hw hwon => List.mem_append_left _ (h.seen w hw hwon), h.immature, ?_, ?_⟩
      · simp only [hlatest]
        exact h.unknown
      · simp only [hlatest]
        exact h.known
    · rw [if_neg hseen, (henv v hmem).2, hsig, Bool.not_true, if_neg Bool.false_ne_true, if_neg Bool.false_ne_true]
      exact h.takes hsp (henv v hmem).1 hsynced hon (hlossless hhash)
  · -- it is about something else
    rw [if_neg hhash, Option.toList_none, List.append_nil]
    have hother : ∀ w : BudgetVote γ, w.nHash = nHash →
        Function.update m.mapSeenVotes v true w = true → m.mapSeenVotes w = true := by
      intro w hw hseen
      have hne : w ≠ v := fun heq => hhash (by rw [← hw, heq])
      rwa [Function.update_of_ne hne] at hseen
    split_ifs with hseen hknown hsig
    · exact h
    · exact h
    · exact h.frame rfl rfl h.immature hother
    · obtain ⟨hitems, horphans⟩ := BudgetMaps.update_of_ne kind env
        { m with mapSeenVotes := Function.update m.mapSeenVotes v true } v true hhash
      refine h.frame hitems horphans ?_ ?_
      · rw [BudgetMaps.update_eq]
        exact h.immature
      · rw [BudgetMaps.update_eq]
        exact hother

theorem apply {op : KindOp γ ι} (h : Converged kind votes nHash delivered m) (hsp : Spaced votes)
    (hsound : op.Sound kind votes nHash) (hlossless : op.Lossless kind nHash m) :
    Converged kind votes nHash (delivered ++ (op.delivered nHash).toList) (m.apply kind op) := by
  cases op with
  | item env broadcast =>
    simp only [KindOp.delivered, Option.toList_none, List.append_nil]
    exact h.item broadcast hsound
  | vote env message vchSig => exact h.vote hsp hsound hlossless
  | orphans env =>
    simp only [KindOp.delivered, Option.toList_none, List.append_nil]
    exact h.checkOrphanVotes
  | newBlock env clears =>
    simp only [KindOp.delivered, Option.toList_none, List.append_nil]
    have h₁ : Converged kind votes nHash delivered (if clears then m.clearSeen else m) := by
      split_ifs
      · exact h.frame rfl rfl h.immature fun _ _ hv => absurd hv Bool.false_ne_true
      · exact h
    have hitems : (if clears then m.clearSeen else m).mapItems = m.mapItems := by split_ifs <;> rfl
    have horphans : (if clears then m.clearSeen else m).mapOrphanVotes = m.mapOrphanVotes := by split_ifs <;> rfl
    have himmature : (if clears then m.clearSeen else m).vecImmature = m.vecImmature := by split_ifs <;> rfl
    simp only [KindOp.Lossless] at hlossless
    refine h₁.newBlock hsound ?_ ?_
    · intro item hitem
      rw [hitems] at hitem
      rw [hitem] at hlossless
      exact hlossless
    · intro hnone hex
      rw [hitems] at hnone
      rw [himmature] at hex
      rw [hnone] at hlossless
      rw [horphans]
      exact hlossless hex
  | idle =>
    simp only [KindOp.delivered, Option.toList_none, List.append_nil]
    exact h

end Converged

/-! ## The proposal stays -/

variable {kind} {nHash : Uint256} {m : BudgetMaps γ ι} {env : BudgetEnv}

namespace BudgetMaps

theorem isSome_update {vote : BudgetVote γ} {pfrom : Bool} (h : (m.mapItems nHash).isSome = true) :
    ((m.update kind env vote pfrom).2.mapItems nHash).isSome = true := by
  by_cases hhash : vote.nHash = nHash
  · subst hhash
    obtain ⟨item, hitem⟩ := Option.isSome_iff_exists.mp h
    obtain ⟨-, item', hitem', -⟩ := update_known kind env m vote pfrom hitem
    rw [hitem', Option.isSome_some]
  · rw [(update_of_ne kind env m vote pfrom hhash).1]
    exact h

theorem isSome_checkOrphanVotes (h : (m.mapItems nHash).isSome = true) :
    ((m.checkOrphanVotes kind env).mapItems nHash).isSome = true := by
  unfold checkOrphanVotes
  dsimp only
  split
  · exact h
  · exact isSome_update h

theorem isSome_newBlock (hvalid : ∀ item, m.mapItems nHash = some item → kind.isValid env item = true)
    (h : (m.mapItems nHash).isSome = true ∨ ∃ item ∈ m.vecImmature, kind.accepts env nHash item = true) :
    ((m.newBlock kind env).mapItems nHash).isSome = true := by
  rw [newBlock_mapItems, Option.isSome_or, Bool.or_eq_true, Option.isSome_map]
  refine h.imp (fun h => ?_) fun h => ?_
  · obtain ⟨item, hitem⟩ := Option.isSome_iff_exists.mp h
    simp only [cleanItems, checkAndRemove, hitem, Option.bind_some, hvalid item hitem, if_true, Option.map_some,
      Option.isSome_some]
  · exact List.find?_isSome.mpr h

variable [DecidableEq γ]

theorem isSome_apply {op : KindOp γ ι} (hlossless : op.Lossless kind nHash m)
    (h : (m.mapItems nHash).isSome = true ∨ op.Arrives kind nHash m) :
    ((m.apply kind op).mapItems nHash).isSome = true := by
  cases op with
  | item env broadcast =>
    rcases receiveItem_cases kind env m broadcast with ⟨m', hreceive, hitems, -⟩ | ⟨hvalid, hreceive⟩
    · simp only [apply, hreceive, Bool.false_eq_true, if_false, hitems]
      refine h.resolve_right fun ⟨hseen, haccepts⟩ => ?_
      -- it passes the checks, so that it is added
      obtain ⟨hhash, hcollateral, hvalid⟩ := kind.accepts_iff.mp haccepts
      rw [receiveItem, hhash, hseen, hcollateral, hvalid] at hreceive
      cases hreceive
    · simp only [apply, hreceive, if_true]
      apply isSome_checkOrphanVotes
      rw [add_mapItems _ _ hvalid]
      split_ifs with hadds
      · rfl
      · rcases h with h | ⟨-, haccepts⟩
        · exact h
        · rw [← Option.ne_none_iff_isSome]
          exact fun hnone => hadds ⟨(kind.accepts_iff.mp haccepts).1, hnone⟩
  | vote env message vchSig =>
    have h := h.resolve_right id
    simp only [apply, receiveVote]
    split_ifs
    · exact h
    · exact h
    · exact h
    · exact isSome_update h
  | orphans env => exact isSome_checkOrphanVotes (h.resolve_right id)
  | newBlock env clears =>
    have hitems : (if clears then m.clearSeen else m).mapItems = m.mapItems := by split_ifs <;> rfl
    have himmature : (if clears then m.clearSeen else m).vecImmature = m.vecImmature := by split_ifs <;> rfl
    refine isSome_newBlock (fun item hitem => ?_) ?_
    · rw [hitems] at hitem
      simp only [KindOp.Lossless, hitem] at hlossless
      exact hlossless
    · rw [hitems, himmature]
      exact h
  | idle => exact h.resolve_right id

end BudgetMaps

end Kind

/-! ## The manager -/

/-- Where the manager is. -/
def BudgetOp.env : BudgetOp → BudgetEnv
  | .mprop env _ => env
  | .mvote env _ _ => env
  | .fbs env _ => env
  | .fbvote env _ _ => env
  | .newBlock env => env

/-- What `NewBlock` does, if it does not return at once. -/
def KindOp.ofNewBlock {γ ι : Type} (env : BudgetEnv) : KindOp γ ι :=
  if env.budgetSynced && (env.tipHeight.getD (-1)).tmod 14 == 0 then
    .newBlock env (env.isSynced && (env.tipHeight.getD (-1)).tmod 1440 == (env.rand % 1440 : Nat))
  else .idle

namespace CBudgetManager

variable (hashes : BudgetHashes) (m : CBudgetManager)

/-- What happens to the proposals. -/
def onProposals : BudgetOp → KindOp Int CBudgetProposal
  | .mprop env proposal => if listens env then .item env proposal else .idle
  | .mvote env vote vchSig => if listens env then .vote env vote vchSig else .idle
  | .fbs env budget =>
    if listens env && (m.finalized.receiveItem hashes.finalizedKind env budget).1 then .orphans env else .idle
  | .fbvote _ _ _ => .idle
  | .newBlock env => .ofNewBlock env

/-- What happens to the finalized budgets. -/
def onFinalized : BudgetOp → KindOp Unit CFinalizedBudget
  | .mprop env proposal =>
    if listens env && (m.proposals.receiveItem hashes.proposalKind env proposal).1 then .orphans env else .idle
  | .mvote _ _ _ => .idle
  | .fbs env budget => if listens env then .item env budget else .idle
  | .fbvote env vote vchSig => if listens env then .vote env vote vchSig else .idle
  | .newBlock env => .ofNewBlock env

theorem newBlock_eq (env : BudgetEnv) : m.newBlock hashes env =
    ⟨m.proposals.apply hashes.proposalKind (.ofNewBlock env), m.finalized.apply hashes.finalizedKind (.ofNewBlock env)⟩ := by
  unfold CBudgetManager.newBlock KindOp.ofNewBlock
  cases env.budgetSynced with
  | false => rfl
  | true =>
    rw [Bool.not_true, if_neg Bool.false_ne_true, Bool.true_and]
    by_cases hheight : (env.tipHeight.getD (-1)).tmod 14 = 0
    · rw [if_neg (not_not.mpr hheight), if_pos (beq_iff_eq.mpr hheight), if_pos (beq_iff_eq.mpr hheight)]
      dsimp only [BudgetMaps.apply]
      split_ifs <;> rfl
    · rw [if_pos hheight, if_neg (by simpa using hheight), if_neg (by simpa using hheight)]
      rfl

theorem step_eq (op : BudgetOp) : m.step hashes op = ⟨m.proposals.apply hashes.proposalKind (m.onProposals hashes op),
    m.finalized.apply hashes.finalizedKind (m.onFinalized hashes op)⟩ := by
  cases op with
  | mprop env proposal =>
    simp only [step, onProposals, onFinalized]
    cases listens env with
    | false => rfl
    | true =>
      simp only [Bool.not_true, Bool.false_eq_true, if_false, if_true, Bool.true_and, BudgetMaps.apply]
      split_ifs <;> rfl
  | mvote env vote vchSig =>
    simp only [step, onProposals, onFinalized]
    cases listens env <;> rfl
  | fbs env budget =>
    simp only [step, onProposals, onFinalized]
    cases listens env with
    | false => rfl
    | true =>
      simp only [Bool.not_true, Bool.false_eq_true, if_false, if_true, Bool.true_and, BudgetMaps.apply]
      split_ifs <;> rfl
  | fbvote env vote vchSig =>
    simp only [step, onProposals, onFinalized]
    cases listens env <;> rfl
  | newBlock env => exact m.newBlock_eq hashes env

end CBudgetManager

theorem KindOp.delivered_ofNewBlock {γ ι : Type} (env : BudgetEnv) (nHash : Uint256) :
    (KindOp.ofNewBlock env : KindOp γ ι).delivered nHash = none := by
  unfold KindOp.ofNewBlock
  split_ifs <;> rfl

/-- The proposals of a manager, or its finalized budgets. -/
structure BudgetSide (hashes : BudgetHashes) (γ ι : Type) [DecidableEq γ] where
  kind : BudgetKind γ ι
  maps : CBudgetManager → BudgetMaps γ ι
  /-- What happens to the maps. -/
  on : CBudgetManager → BudgetOp → KindOp γ ι
  /-- The vote that arrives. -/
  message : BudgetOp → Option (BudgetVote γ)
  maps_empty : maps .empty = .empty
  maps_step : ∀ m op, maps (m.step hashes op) = (maps m).apply kind (on m op)
  delivered_on : ∀ m op nHash, CBudgetManager.listens op.env = true →
    (on m op).delivered nHash = (message op).bind (BudgetVote.on nHash)

namespace BudgetHashes

variable (hashes : BudgetHashes)

def proposalSide : BudgetSide hashes Int CBudgetProposal where
  kind := hashes.proposalKind
  maps := CBudgetManager.proposals
  on := CBudgetManager.onProposals hashes
  message
    | .mvote _ vote _ => some vote
    | _ => none
  maps_empty := rfl
  maps_step m op := by rw [m.step_eq hashes op]
  delivered_on m op nHash hlistens := by
    cases op with
    | mprop env proposal =>
      simp only [CBudgetManager.onProposals]
      split_ifs <;> rfl
    | mvote env vote vchSig =>
      simp only [BudgetOp.env] at hlistens
      simp only [CBudgetManager.onProposals, hlistens, if_true]
      rfl
    | fbs env budget =>
      simp only [CBudgetManager.onProposals]
      split_ifs <;> rfl
    | fbvote env vote vchSig => rfl
    | newBlock env => exact KindOp.delivered_ofNewBlock env nHash

def finalizedSide : BudgetSide hashes Unit CFinalizedBudget where
  kind := hashes.finalizedKind
  maps := CBudgetManager.finalized
  on := CBudgetManager.onFinalized hashes
  message
    | .fbvote _ vote _ => some vote
    | _ => none
  maps_empty := rfl
  maps_step m op := by rw [m.step_eq hashes op]
  delivered_on m op nHash hlistens := by
    cases op with
    | mprop env proposal =>
      simp only [CBudgetManager.onFinalized]
      split_ifs <;> rfl
    | mvote env vote vchSig => rfl
    | fbs env budget =>
      simp only [CBudgetManager.onFinalized]
      split_ifs <;> rfl
    | fbvote env vote vchSig =>
      simp only [BudgetOp.env] at hlistens
      simp only [CBudgetManager.onFinalized, hlistens, if_true]
      rfl
    | newBlock env => exact KindOp.delivered_ofNewBlock env nHash

end BudgetHashes

/-- The manager after the messages and blocks. -/
def CBudgetManager.run (hashes : BudgetHashes) (ops : List BudgetOp) : CBudgetManager :=
  ops.foldl (CBudgetManager.step hashes) .empty

/-- `ProcessMessage` and `NewBlock` always return. -/
def CBudgetManager.returns (hashes : BudgetHashes) (m : CBudgetManager) (op : BudgetOp) : Option CBudgetManager :=
  some (m.step hashes op)

namespace BudgetSide

variable {γ ι : Type} [DecidableEq γ] {hashes : BudgetHashes} (side : BudgetSide hashes γ ι)

/-- The votes on the hash that arrive. -/
def delivered (nHash : Uint256) (ops : List BudgetOp) : List (BudgetVote γ) :=
  ops.filterMap fun op => (side.message op).bind (BudgetVote.on nHash)

/-- On a synced node, the votes arrive, and the proposal or budget with the hash does. No vote is from the future, all are
validly signed and from known masternodes, and two of one masternode are far enough apart. -/
structure Delivers (nHash : Uint256) (votes : List (BudgetVote γ)) (ops : List BudgetOp) : Prop where
  spaced : Spaced votes
  sound : Meets (CBudgetManager.returns hashes)
    (fun m op => op.env.Synced votes ∧ (side.on m op).Sound side.kind votes nHash) .empty ops
  arrives : Occurs (CBudgetManager.returns hashes) (fun m op => (side.on m op).Arrives side.kind nHash (side.maps m)) .empty ops
  all : ∀ v, v ∈ side.delivered nHash ops ↔ v ∈ votes

/-- No step of the run loses a vote. -/
def Lossless (nHash : Uint256) (ops : List BudgetOp) : Prop :=
  Meets (CBudgetManager.returns hashes) (fun m op => (side.on m op).Lossless side.kind nHash (side.maps m)) .empty ops

variable {side} {nHash : Uint256} {votes : List (BudgetVote γ)} {ops : List BudgetOp}

theorem delivered_concat (pre : List BudgetOp) (op : BudgetOp) : side.delivered nHash (pre ++ [op]) =
    side.delivered nHash pre ++ ((side.message op).bind (BudgetVote.on nHash)).toList := by
  unfold delivered
  rw [List.filterMap_append]
  simp only [List.filterMap_cons, List.filterMap_nil]
  cases (side.message op).bind (BudgetVote.on nHash) <;> rfl

theorem converge (hdelivers : side.Delivers nHash votes ops) (hlossless : side.Lossless nHash ops) :
    ∃ item, (side.maps (CBudgetManager.run hashes ops)).mapItems nHash = some item ∧
      ∀ voter, (side.kind.mapVotes item).lookup voter = latestVote votes voter := by
  have hrun : ops.foldlM (CBudgetManager.returns hashes) .empty = some (CBudgetManager.run hashes ops) :=
    List.foldlM_pure
  have hmeets := hdelivers.sound.and hlossless
  have hconverged : Converged side.kind votes nHash (side.delivered nHash ops)
      (side.maps (CBudgetManager.run hashes ops)) := by
    refine Meets.keeps_along (I := fun pre m => Converged side.kind votes nHash (side.delivered nHash pre) (side.maps m))
      ?_ [] ?_ hmeets hrun
    · rintro pre m op _ h ⟨⟨hsynced, hsound⟩, hlossless⟩ ⟨⟩
      have hstep := h.apply hdelivers.spaced hsound hlossless
      rw [side.delivered_on m op nHash hsynced.1, ← side.maps_step] at hstep
      rw [delivered_concat]
      exact hstep
    · rw [side.maps_empty]
      exact Converged.empty
  have hknown : ((side.maps (CBudgetManager.run hashes ops)).mapItems nHash).isSome = true := by
    refine hmeets.reaches (K := fun m => ((side.maps m).mapItems nHash).isSome = true) ?_ ?_ hdelivers.arrives hrun
    · rintro m op _ h ⟨-, hlossless⟩ ⟨⟩
      rw [side.maps_step]
      exact BudgetMaps.isSome_apply hlossless (.inl h)
    · rintro m op _ h ⟨-, hlossless⟩ ⟨⟩
      rw [side.maps_step]
      exact BudgetMaps.isSome_apply hlossless (.inr h)
  obtain ⟨item, hitem⟩ := Option.isSome_iff_exists.mp hknown
  refine ⟨item, hitem, fun voter => ?_⟩
  rw [(hconverged.known item hitem).2 voter]
  exact latestVote_congr hdelivers.spaced hdelivers.all

end BudgetSide

/-- Where no step loses a vote, the votes on each proposal and on each finalized budget converge. -/
theorem votes_converge (hashes : BudgetHashes) (ops : List BudgetOp) :
    (∀ nHash votes, hashes.proposalSide.Delivers nHash votes ops → hashes.proposalSide.Lossless nHash ops →
      ∃ proposal, (CBudgetManager.run hashes ops).proposals.mapItems nHash = some proposal ∧
        ∀ voter, proposal.mapVotes.lookup voter = latestVote votes voter) ∧
    ∀ nHash votes, hashes.finalizedSide.Delivers nHash votes ops → hashes.finalizedSide.Lossless nHash ops →
      ∃ budget, (CBudgetManager.run hashes ops).finalized.mapItems nHash = some budget ∧
        ∀ voter, budget.mapVotes.lookup voter = latestVote votes voter :=
  ⟨fun _ _ => BudgetSide.converge, fun _ _ => BudgetSide.converge⟩

/-! ## Votes before the proposal -/

/-- A synced node of the test network at time 10000. -/
def votingEnv : BudgetEnv where
  now := 10000
  isTestNet := true
  heightLastPoW := 0
  heightStartZCSerialsV2 := 0
  nBudgetCycleBlocks := 144
  tipHeight := some 15
  countEnabled := 10
  isBudgetCollateralValid _ _ _ := (true, 6)
  known _ := true
  checkBudgetVoteSignature _ _ := true
  checkFinalizedBudgetVoteSignature _ _ := true
  fLiteMode := false
  isBlockchainSynced := true
  isSynced := true
  budgetSynced := true
  rand := 0

/-- The proposal has hash 1 and the budget hash 2. -/
def votingHashes : BudgetHashes := ⟨fun _ _ _ _ _ _ => 1, fun _ _ _ => 2⟩

def votedProposal : CBudgetProposal := ⟨true, "proposal", "", 144, 300, 10 * COIN, [0x51], 7, ∅⟩

def votedBudget : CFinalizedBudget := ⟨true, "main", 144, [⟨1, [0x51], 10 * COIN⟩], ∅, 8, 0⟩

/-- A masternode votes. -/
def voteOn (nHash : Uint256) {γ : Type} (nVote : γ) (masternode : Uint256) (nTime : Int) : BudgetVote γ :=
  ⟨true, ⟨⟨masternode, 0⟩, [], 0⟩, nHash, nVote, nTime⟩

/-- A masternode votes before the proposal and after it, and so does another one. -/
def proposalVotes : List CBudgetVote := [voteOn 1 VOTE_YES 1 1000, voteOn 1 VOTE_NO 1 5000, voteOn 1 VOTE_YES 2 2000]

def budgetVotes : List CFinalizedBudgetVote := [voteOn 2 () 1 1000]

def votingOps : List BudgetOp :=
  [.mvote votingEnv (voteOn 1 VOTE_YES 1 1000) [], .fbvote votingEnv (voteOn 2 () 1 1000) [],
    .mprop votingEnv votedProposal, .mvote votingEnv (voteOn 1 VOTE_NO 1 5000) [],
    .mvote votingEnv (voteOn 1 VOTE_YES 2 2000) [], .fbs votingEnv votedBudget]

theorem proposalVotes_delivers : votingHashes.proposalSide.Delivers 1 proposalVotes votingOps where
  spaced := by
    unfold Spaced
    decide
  sound := by
    have hsynced : votingEnv.Synced proposalVotes := ⟨rfl, rfl, by decide⟩
    refine .cons _ ⟨hsynced, And.intro hsynced fun _ => And.intro (by decide) rfl⟩ rfl ?_
    refine .cons _ ⟨hsynced, trivial⟩ rfl ?_
    refine .cons _ ⟨hsynced, hsynced⟩ rfl ?_
    refine .cons _ ⟨hsynced, And.intro hsynced fun _ => And.intro (by decide) rfl⟩ rfl ?_
    refine .cons _ ⟨hsynced, And.intro hsynced fun _ => And.intro (by decide) rfl⟩ rfl ?_
    exact .cons _ ⟨hsynced, hsynced⟩ rfl trivial
  arrives := .inr ⟨_, rfl, .inr ⟨_, rfl, .inl (And.intro rfl rfl)⟩⟩
  all := by
    have hall : votingHashes.proposalSide.delivered 1 votingOps = proposalVotes := by decide
    simp only [hall, implies_true]

theorem proposalVotes_lossless : votingHashes.proposalSide.Lossless 1 votingOps := by
  refine .cons _ (fun _ w hw => nomatch hw) rfl (.cons _ trivial rfl (.cons _ trivial rfl ?_))
  refine .cons _ (fun _ old hold => by cases hold; decide) rfl ?_
  refine .cons _ (fun _ old hold => nomatch hold) rfl ?_
  exact .cons _ trivial rfl trivial

theorem budgetVotes_delivers : votingHashes.finalizedSide.Delivers 2 budgetVotes votingOps where
  spaced := by
    unfold Spaced
    decide
  sound := by
    have hsynced : votingEnv.Synced budgetVotes := ⟨rfl, rfl, by decide⟩
    refine .cons _ ⟨hsynced, trivial⟩ rfl ?_
    refine .cons _ ⟨hsynced, And.intro hsynced fun _ => And.intro (by decide) rfl⟩ rfl ?_
    refine .cons _ ⟨hsynced, hsynced⟩ rfl (.cons _ ⟨hsynced, trivial⟩ rfl (.cons _ ⟨hsynced, trivial⟩ rfl ?_))
    exact .cons _ ⟨hsynced, hsynced⟩ rfl trivial
  arrives := .inr ⟨_, rfl, .inr ⟨_, rfl, .inr ⟨_, rfl, .inr ⟨_, rfl, .inr ⟨_, rfl, .inl (And.intro rfl rfl)⟩⟩⟩⟩⟩
  all := by
    have hall : votingHashes.finalizedSide.delivered 2 votingOps = budgetVotes := by decide
    simp only [hall, implies_true]

theorem budgetVotes_lossless : votingHashes.finalizedSide.Lossless 2 votingOps := by
  refine .cons _ trivial rfl (.cons _ (fun _ w hw => nomatch hw) rfl ?_)
  exact .cons _ trivial rfl (.cons _ trivial rfl (.cons _ trivial rfl (.cons _ trivial rfl trivial)))

/-- One vote on each waits, and the rest comes after the proposal. -/
theorem votes_converge_voting :
    (∃ proposal, (CBudgetManager.run votingHashes votingOps).proposals.mapItems 1 = some proposal ∧
      ∀ voter, proposal.mapVotes.lookup voter = latestVote proposalVotes voter) ∧
    ∃ budget, (CBudgetManager.run votingHashes votingOps).finalized.mapItems 2 = some budget ∧
      ∀ voter, budget.mapVotes.lookup voter = latestVote budgetVotes voter :=
  ⟨(votes_converge votingHashes votingOps).1 1 proposalVotes proposalVotes_delivers proposalVotes_lossless,
    (votes_converge votingHashes votingOps).2 2 budgetVotes budgetVotes_delivers budgetVotes_lossless⟩

/-- Two masternodes vote before the proposal arrives. -/
def earlyVotes : List CBudgetVote := [voteOn 1 VOTE_YES 1 1000, voteOn 1 VOTE_YES 2 1000]

def earlyOps : List BudgetOp :=
  [.mvote votingEnv (voteOn 1 VOTE_YES 1 1000) [], .mvote votingEnv (voteOn 1 VOTE_YES 2 1000) [],
    .mprop votingEnv votedProposal]

theorem earlyVotes_delivers : votingHashes.proposalSide.Delivers 1 earlyVotes earlyOps where
  spaced := by
    unfold Spaced
    decide
  sound := by
    have hsynced : votingEnv.Synced earlyVotes := ⟨rfl, rfl, by decide⟩
    refine .cons _ ⟨hsynced, And.intro hsynced fun _ => And.intro (by decide) rfl⟩ rfl ?_
    refine .cons _ ⟨hsynced, And.intro hsynced fun _ => And.intro (by decide) rfl⟩ rfl ?_
    exact .cons _ ⟨hsynced, hsynced⟩ rfl trivial
  arrives := .inr ⟨_, rfl, .inr ⟨_, rfl, .inl (And.intro rfl rfl)⟩⟩
  all := by
    have hall : votingHashes.proposalSide.delivered 1 earlyOps = earlyVotes := by decide
    simp only [hall, implies_true]

/-- The vote of the first one is lost. -/
theorem votes_not_converge : ¬ ∀ hashes ops,
    (∀ nHash votes, BudgetSide.Delivers (BudgetHashes.proposalSide hashes) nHash votes ops →
      ∃ proposal, (CBudgetManager.run hashes ops).proposals.mapItems nHash = some proposal ∧
        ∀ voter, proposal.mapVotes.lookup voter = latestVote votes voter) ∧
    ∀ nHash votes, BudgetSide.Delivers (BudgetHashes.finalizedSide hashes) nHash votes ops →
      ∃ budget, (CBudgetManager.run hashes ops).finalized.mapItems nHash = some budget ∧
        ∀ voter, budget.mapVotes.lookup voter = latestVote votes voter := by
  intro hall
  obtain ⟨proposal, hproposal, hlatest⟩ := (hall votingHashes earlyOps).1 1 earlyVotes earlyVotes_delivers
  have hlost : ((CBudgetManager.run votingHashes earlyOps).proposals.mapItems 1).map (fun p => p.mapVotes.lookup ⟨1, 0⟩)
      ≠ some (latestVote earlyVotes ⟨1, 0⟩) := by decide
  rw [hproposal, Option.map_some, hlatest] at hlost
  exact hlost rfl

end DigiWage
