import DigiWage.Masternode.Converge

/-!
# Offering proposals and budgets

`CBudgetManager::Sync`, `ResetSync` and `MarkSynced`, and `NewBlock` as far as it offers to the peers what the manager has.

* `SyncMaps` adds to the maps whether each vote was sent (`fSynced`).
* The three functions go through the seen maps and look up there what they treat (`visits`). What is pushed to a peer is
  written entry by entry (`Offers`); the counts in the message `ssc` are left out.
-/

namespace DigiWage

/-- A kind with the flag of its items. -/
structure SyncKind (γ ι : Type) extends BudgetKind γ ι where
  fValid : ι → Bool
  fValid_setValid : ∀ i, fValid (setValid i) = true

/-- The maps with the flags `fSynced` of the votes in `mapVotes`, by the hash of the item and the masternode. -/
structure SyncMaps (γ ι : Type) extends BudgetMaps γ ι where
  fSynced : Uint256 → COutPoint → Bool

/-- What `Sync` pushes to a peer: the items, and the votes on them by masternode. -/
structure Offers (γ : Type) where
  items : Uint256 → Bool
  votes : Uint256 → COutPoint → Option (BudgetVote γ)

namespace SyncMaps

variable {γ ι : Type} (kind : SyncKind γ ι) (m : SyncMaps γ ι)

/-- What the loops find for an entry of the seen map: the valid item with the hash. -/
def visits (nHash : Uint256) : Option ι :=
  if m.mapSeenItems nHash then (m.mapItems nHash).filter kind.fValid else none

/-- The vote of a masternode that the loops get to. -/
def visitsVote (nHash : Uint256) (voter : COutPoint) : Option (BudgetVote γ) :=
  (m.visits kind nHash).bind fun item => (kind.mapVotes item).lookup voter

def clearSeen : SyncMaps γ ι := { m with toBudgetMaps := m.toBudgetMaps.clearSeen }

def resetSync : SyncMaps γ ι :=
  { m with fSynced := fun nHash voter =>
      match m.visitsVote kind nHash voter with
      | none => m.fSynced nHash voter
      | some _ => false }

def markSynced : SyncMaps γ ι :=
  { m with fSynced := fun nHash voter =>
      match m.visitsVote kind nHash voter with
      | none => m.fSynced nHash voter
      | some vote => vote.fValid || m.fSynced nHash voter }

def sync (nProp : Uint256) (fPartial : Bool) : Offers γ :=
  let asked (nHash : Uint256) : Bool := nProp == 0 || nHash == nProp
  { items := fun nHash => (m.visits kind nHash).isSome && asked nHash
    votes := fun nHash voter =>
      if asked nHash then
        (m.visitsVote kind nHash voter).filter fun vote => vote.fValid && (!fPartial || !m.fSynced nHash voter)
      else none }

/-- The end of `NewBlock`. The votes on what is promoted would not be sent yet; there are none. -/
def newBlock (env : BudgetEnv) : SyncMaps γ ι where
  toBudgetMaps := m.toBudgetMaps.newBlock kind.toBudgetKind env
  fSynced nHash voter := ((m.checkAndRemove kind.toBudgetKind env).mapItems nHash).isSome && m.fSynced nHash voter

end SyncMaps

/-- What `NewBlock` asks of the rest of the node. -/
structure SyncEnv extends BudgetEnv where
  /-- The versions of `vNodes`. -/
  vNodes : List Int
  activeProtocol : Int

namespace SyncEnv

variable (env : SyncEnv)

/-- The peers that `NewBlock` syncs with. -/
def peers : List Int := env.vNodes.filter fun nVersion => decide (env.activeProtocol ≤ nVersion)

/-- `NewBlock` goes on to the incremental sync; the height of an empty chain is -1. -/
def proceeds : Bool := env.budgetSynced && (env.tipHeight.getD (-1)).tmod 14 == 0

/-- `NewBlock` takes the branch of the full resync. -/
def resyncs : Bool :=
  env.proceeds && env.isSynced && (env.tipHeight.getD (-1)).tmod 1440 == (env.rand % 1440 : Nat)

end SyncEnv

namespace BudgetHashes

variable (hashes : BudgetHashes)

def proposalSync : SyncKind Int CBudgetProposal :=
  { hashes.proposalKind with fValid := CBudgetProposal.fValid, fValid_setValid := fun _ => rfl }

def finalizedSync : SyncKind Unit CFinalizedBudget :=
  { hashes.finalizedKind with fValid := CFinalizedBudget.fValid, fValid_setValid := fun _ => rfl }

end BudgetHashes

/-- `CBudgetManager` with the flags of the votes. -/
structure SyncManager where
  proposals : SyncMaps Int CBudgetProposal
  finalized : SyncMaps Unit CFinalizedBudget

namespace SyncManager

variable (hashes : BudgetHashes) (m : SyncManager) (env : SyncEnv)

/-- The manager without the flags. -/
def manager : CBudgetManager := ⟨m.proposals.toBudgetMaps, m.finalized.toBudgetMaps⟩

def sync (nProp : Uint256) (fPartial : Bool) : Offers Int × Offers Unit :=
  (m.proposals.sync hashes.proposalSync nProp fPartial, m.finalized.sync hashes.finalizedSync nProp fPartial)

/-- The manager when `NewBlock` calls `Sync`. -/
def beforeSync : SyncManager :=
  if env.resyncs then
    ⟨m.proposals.clearSeen.resetSync hashes.proposalSync, m.finalized.clearSeen.resetSync hashes.finalizedSync⟩
  else m

/-- The manager after `MarkSynced`. -/
def afterSync : SyncManager :=
  let m₁ := m.beforeSync hashes env
  if env.isSynced then
    ⟨m₁.proposals.markSynced hashes.proposalSync, m₁.finalized.markSynced hashes.finalizedSync⟩
  else m₁

/-- `NewBlock`, with what it offers to each of the peers. -/
def newBlock : List (Offers Int × Offers Unit) × SyncManager :=
  if !env.proceeds then ([], m)
  else
    (if env.isSynced then env.peers.map fun _ => (m.beforeSync hashes env).sync hashes 0 true else [],
      ⟨(m.afterSync hashes env).proposals.newBlock hashes.proposalSync env.toBudgetEnv,
        (m.afterSync hashes env).finalized.newBlock hashes.finalizedSync env.toBudgetEnv⟩)

theorem manager_newBlock : (m.newBlock hashes env).2.manager = m.manager.newBlock hashes env.toBudgetEnv := by
  unfold newBlock CBudgetManager.newBlock afterSync beforeSync SyncEnv.resyncs SyncEnv.proceeds
  cases env.budgetSynced with
  | false => rfl
  | true =>
    by_cases hheight : (env.tipHeight.getD (-1)).tmod 14 = 0
    · cases env.isSynced with
      | false => simp [hheight, manager, SyncMaps.newBlock, BudgetHashes.proposalSync, BudgetHashes.finalizedSync]
      | true =>
        cases hrand : (env.tipHeight.getD (-1)).tmod 1440 == (env.rand % 1440 : Nat) with
        | false => simp [hheight, manager, SyncMaps.newBlock, SyncMaps.markSynced, BudgetHashes.proposalSync,
            BudgetHashes.finalizedSync]
        | true => simp [hheight, manager, SyncMaps.newBlock, SyncMaps.markSynced, SyncMaps.resetSync,
            SyncMaps.clearSeen, BudgetHashes.proposalSync, BudgetHashes.finalizedSync]
    · simp [hheight]

end SyncManager

/-! ## A full resync -/

namespace SyncMaps

variable {γ ι : Type} {kind : SyncKind γ ι} {m : SyncMaps γ ι} {env : BudgetEnv} {nHash : Uint256}

/-- What is offered is all that is valid, with the valid votes, and can be served afterwards. -/
structure Complete (kind : SyncKind γ ι) (m after : SyncMaps γ ι) (o : Offers γ) : Prop where
  items : ∀ nHash item, m.mapItems nHash = some item → kind.fValid item = true → o.items nHash = true ∧
    ∀ voter vote, (kind.mapVotes item).lookup voter = some vote → vote.fValid = true → o.votes nHash voter = some vote
  served : ∀ nHash, o.items nHash = true → after.mapSeenItems nHash = true
  servedVotes : ∀ nHash voter vote, o.votes nHash voter = some vote → after.mapSeenVotes vote = true

/-- `NewBlock` takes an item with the hash from the immature ones. -/
def Promotes (kind : SyncKind γ ι) (env : BudgetEnv) (m : SyncMaps γ ι) (nHash : Uint256) : Prop :=
  (m.checkAndRemove kind.toBudgetKind env).mapItems nHash = none ∧
    ∃ item ∈ m.vecImmature, kind.accepts env nHash item = true

/-- There is no valid item. -/
def NoneValid (kind : SyncKind γ ι) (m : SyncMaps γ ι) : Prop :=
  ∀ nHash item, m.mapItems nHash = some item → kind.fValid item = false

theorem sync_clearSeen (nProp : Uint256) (fPartial : Bool) : (m.clearSeen.resetSync kind).sync kind nProp fPartial =
    ⟨fun _ => false, fun _ _ => none⟩ := by
  unfold sync visitsVote
  have hvisits : ∀ nHash, (m.clearSeen.resetSync kind).visits kind nHash = none := fun _ => rfl
  simp [hvisits]

theorem complete_nothing_iff (after : SyncMaps γ ι) :
    Complete kind m after ⟨fun _ => false, fun _ _ => none⟩ ↔ m.NoneValid kind := by
  constructor
  · intro h nHash item hitem
    rw [← Bool.not_eq_true]
    intro hvalid
    have hoffered := (h.items nHash item hitem hvalid).1
    simp at hoffered
  · intro h
    refine ⟨fun nHash item hitem hvalid => ?_, by simp, by simp⟩
    rw [h nHash item hitem] at hvalid
    cases hvalid

theorem newBlock_mapSeenItems : (m.newBlock kind env).mapSeenItems = m.mapSeenItems := by
  have heq := (BudgetMaps.promote_spec kind.toBudgetKind env 0 m.vecImmature
    ((m.checkAndRemove kind.toBudgetKind env).cleanItems kind.toBudgetKind env)).1
  exact (congrArg BudgetMaps.mapSeenItems heq :)

/-- The maps, with the seen items cleared or not, when `NewBlock` is done with `Sync`. -/
structure Synced (clears : Bool) (m m' : SyncMaps γ ι) : Prop where
  mapItems : m'.mapItems = m.mapItems
  vecImmature : m'.vecImmature = m.vecImmature
  mapSeenItems : ∀ nHash, m'.mapSeenItems nHash = (!clears && m.mapSeenItems nHash)

theorem sync_promoted_iff {clears : Bool} {m' : SyncMaps γ ι} (h : Synced clears m m') (hpromotes : m.Promotes kind env nHash)
    (fPartial : Bool) : ((m'.newBlock kind env).sync kind 0 fPartial).items nHash = true ↔
      clears = false ∧ m.mapSeenItems nHash = true := by
  obtain ⟨hnone, hsome⟩ := hpromotes
  rw [← h.vecImmature] at hsome
  obtain ⟨item, hfind⟩ := Option.isSome_iff_exists.mp (List.find?_isSome.mpr hsome)
  have hclean : ((m'.checkAndRemove kind.toBudgetKind env).cleanItems kind.toBudgetKind env).mapItems nHash = none := by
    simp only [BudgetMaps.checkAndRemove, ← h.mapItems] at hnone
    simp only [BudgetMaps.cleanItems, BudgetMaps.checkAndRemove, hnone, Option.map_none]
  have hitem : (m'.newBlock kind env).mapItems nHash = some (kind.setValid item) := by
    refine BudgetMaps.newBlock_mapItems.trans ?_
    rw [hclean, hfind]
    rfl
  have hseen : (m'.newBlock kind env).mapSeenItems nHash = (!clears && m.mapSeenItems nHash) := by
    rw [newBlock_mapSeenItems, h.mapSeenItems]
  cases clears <;> simp [sync, visits, hitem, hseen, Option.filter_some, kind.fValid_setValid]

end SyncMaps

namespace SyncManager

variable {hashes : BudgetHashes} {m : SyncManager} {env : SyncEnv}

/-- A full resync offers everything to each peer, and what is promoted is offered by the calls of `Sync` after it. -/
def Resyncs (hashes : BudgetHashes) (env : SyncEnv) (m : SyncManager) : Prop :=
  let after := (m.newBlock hashes env).2
  (env.resyncs = true → ∀ o ∈ (m.newBlock hashes env).1,
    m.proposals.Complete hashes.proposalSync after.proposals o.1 ∧
    m.finalized.Complete hashes.finalizedSync after.finalized o.2) ∧
  (env.proceeds = true → ∀ nHash fPartial,
    (m.proposals.Promotes hashes.proposalSync env.toBudgetEnv nHash →
      (after.sync hashes 0 fPartial).1.items nHash = true) ∧
    (m.finalized.Promotes hashes.finalizedSync env.toBudgetEnv nHash →
      (after.sync hashes 0 fPartial).2.items nHash = true))

theorem newBlock_of_resyncs (h : env.resyncs = true) :
    (m.newBlock hashes env).1 =
      env.peers.map fun _ => (⟨fun _ => false, fun _ _ => none⟩, ⟨fun _ => false, fun _ _ => none⟩) := by
  have hcond := h
  unfold SyncEnv.resyncs at hcond
  simp only [Bool.and_eq_true] at hcond
  unfold newBlock beforeSync sync
  simp [h, hcond.1.1, hcond.1.2, SyncMaps.sync_clearSeen]

theorem newBlock_of_proceeds (h : env.proceeds = true) : (m.newBlock hashes env).2 =
    ⟨(m.afterSync hashes env).proposals.newBlock hashes.proposalSync env.toBudgetEnv,
      (m.afterSync hashes env).finalized.newBlock hashes.finalizedSync env.toBudgetEnv⟩ := by
  simp [newBlock, h]

theorem synced_afterSync (hashes : BudgetHashes) (m : SyncManager) (env : SyncEnv) :
    SyncMaps.Synced env.resyncs m.proposals (m.afterSync hashes env).proposals ∧
    SyncMaps.Synced env.resyncs m.finalized (m.afterSync hashes env).finalized := by
  unfold afterSync beforeSync
  cases env.isSynced <;> cases env.resyncs <;> exact ⟨⟨rfl, rfl, fun _ => rfl⟩, ⟨rfl, rfl, fun _ => rfl⟩⟩

/-- `NewBlock` resyncs as it should exactly if there is no peer or nothing valid when it takes the branch of the full
resync, and it does not take this branch when it promotes an item, which was seen again before. -/
theorem resyncs_iff (hashes : BudgetHashes) (env : SyncEnv) (m : SyncManager) : m.Resyncs hashes env ↔
    (env.resyncs = true → env.peers = [] ∨
      (m.proposals.NoneValid hashes.proposalSync ∧ m.finalized.NoneValid hashes.finalizedSync)) ∧
    (env.proceeds = true → ∀ nHash,
      (m.proposals.Promotes hashes.proposalSync env.toBudgetEnv nHash →
        env.resyncs = false ∧ m.proposals.mapSeenItems nHash = true) ∧
      (m.finalized.Promotes hashes.finalizedSync env.toBudgetEnv nHash →
        env.resyncs = false ∧ m.finalized.mapSeenItems nHash = true)) := by
  unfold Resyncs
  refine and_congr (forall_congr' fun hresyncs => ?_) (forall_congr' fun hproceeds => forall_congr' fun nHash => ?_)
  · rw [newBlock_of_resyncs hresyncs]
    cases env.peers with
    | nil => simp
    | cons p ps => simp +contextual [SyncMaps.complete_nothing_iff]
  · obtain ⟨hproposals, hfinalized⟩ := m.synced_afterSync hashes env
    rw [newBlock_of_proceeds hproceeds]
    constructor
    · intro h
      refine ⟨fun hpromotes => ?_, fun hpromotes => ?_⟩
      · exact (SyncMaps.sync_promoted_iff hproposals hpromotes true).mp ((h true).1 hpromotes)
      · exact (SyncMaps.sync_promoted_iff hfinalized hpromotes true).mp ((h true).2 hpromotes)
    · intro h fPartial
      refine ⟨fun hpromotes => ?_, fun hpromotes => ?_⟩
      · exact (SyncMaps.sync_promoted_iff hproposals hpromotes fPartial).mpr (h.1 hpromotes)
      · exact (SyncMaps.sync_promoted_iff hfinalized hpromotes fPartial).mpr (h.2 hpromotes)

/-- A synced node with one peer, at a height where it takes the branch of the full resync. -/
def resyncEnv : SyncEnv where
  toBudgetEnv := { votingEnv with tipHeight := some 14, rand := 14 }
  vNodes := [70915]
  activeProtocol := 70000

/-- The manager after a proposal and a budget arrived, with their votes. -/
def votedManager : SyncManager :=
  let m := CBudgetManager.run votingHashes votingOps
  ⟨⟨m.proposals, fun _ _ => false⟩, ⟨m.finalized, fun _ _ => false⟩⟩

/-- The proposal that was received is not offered by the full resync. -/
theorem resyncs_nothing : ¬ ∀ (hashes : BudgetHashes) (env : SyncEnv) (m : SyncManager), m.Resyncs hashes env := by
  intro hall
  have hresyncs : resyncEnv.resyncs = true := by decide
  have hcomplete := (hall votingHashes resyncEnv votedManager).1 hresyncs
  rw [newBlock_of_resyncs hresyncs] at hcomplete
  have hnone := (SyncMaps.complete_nothing_iff _).mp (hcomplete _ (List.mem_map_of_mem (a := 70915) (by decide))).1
  have hvalid : (votedManager.proposals.mapItems 1).map (·.fValid) = some true := by decide
  obtain ⟨item, hitem, hvalid⟩ := Option.map_eq_some_iff.mp hvalid
  have hinvalid : item.fValid = false := hnone 1 item hitem
  rw [hinvalid] at hvalid
  cases hvalid

end SyncManager

end DigiWage
