import DigiWage.Lib.Run
import DigiWage.Masternode.Converge
import DigiWage.Masternode.Resend
import DigiWage.Masternode.Winners
import DigiWage.Swift.Locks

/-!
# Forged messages

The handlers of `mvote`, `fbvote`, `mnw`, `mnb` and `txlvote` look up and fill a map of what they have seen, whose keys leave
out the signature, and check the signature later. What a message with a bad signature leaves behind is compared with a node
that did not get the message.

* `AgreeOff` for each part of the node: everything agrees but what was seen, which agrees off the marked keys. Each operation
  keeps it, if no genuine message has a marked key.
* `MessageNode.forged_invisible`: a message with a bad signature is invisible as long as no genuine message comes with the
  key that it marks.
-/

namespace DigiWage

open Lib

/-! ## Budget votes -/

namespace BudgetMaps

variable {γ ι : Type} {kind : BudgetKind γ ι} {env : BudgetEnv} {m m' : BudgetMaps γ ι}
  {K : BudgetVote γ → Prop} {vote : BudgetVote γ} {vchSig : List UInt8}

/-- The maps with other votes that were seen. -/
def withSeen (m : BudgetMaps γ ι) (seen : BudgetVote γ → Bool) : BudgetMaps γ ι := { m with mapSeenVotes := seen }

/-- The function neither reads nor changes which votes were seen. -/
def Blind (f : BudgetMaps γ ι → BudgetMaps γ ι) : Prop := ∀ m seen, f (m.withSeen seen) = (f m).withSeen seen

theorem update_withSeen (m : BudgetMaps γ ι) (seen : BudgetVote γ → Bool) (vote : BudgetVote γ) (pfrom : Bool) :
    (m.withSeen seen).update kind env vote pfrom =
      ((m.update kind env vote pfrom).1, (m.update kind env vote pfrom).2.withSeen seen) := by
  unfold update withSeen
  dsimp only
  split
  · split_ifs <;> rfl
  · split <;> rfl

theorem blind_checkOrphanVotes : Blind (checkOrphanVotes kind env : BudgetMaps γ ι → _) := by
  intro m seen
  unfold checkOrphanVotes
  simp only [update_withSeen]
  rfl

theorem add_withSeen (m : BudgetMaps γ ι) (seen : BudgetVote γ → Bool) (item : ι) :
    (m.withSeen seen).add kind env item = (m.add kind env item).withSeen seen := by
  unfold add withSeen
  dsimp only
  split_ifs <;> rfl

theorem receiveItem_withSeen (m : BudgetMaps γ ι) (seen : BudgetVote γ → Bool) (item : ι) :
    (m.withSeen seen).receiveItem kind env item =
      ((m.receiveItem kind env item).1, (m.receiveItem kind env item).2.withSeen seen) := by
  unfold receiveItem
  rw [show (m.withSeen seen).mapSeenItems = m.mapSeenItems from rfl]
  dsimp only
  split_ifs
  · rfl
  · rfl
  · rfl
  · rfl
  · exact congrArg (Prod.mk true) (add_withSeen { m with mapSeenItems := Function.update m.mapSeenItems _ true } seen _)

theorem promote_withSeen (seen : BudgetVote γ → Bool) : ∀ (items : List ι) (m : BudgetMaps γ ι),
    promote kind env items (m.withSeen seen) =
      ((promote kind env items m).1.withSeen seen, (promote kind env items m).2)
  | [], _ => rfl
  | item :: rest, m => by
    unfold promote
    rw [promote_withSeen seen rest m, add_withSeen, promote_withSeen seen rest (m.add kind env item)]
    split_ifs <;> rfl

theorem blind_newBlock : Blind (newBlock kind env : BudgetMaps γ ι → _) := by
  intro m seen
  unfold newBlock
  have hclean : ((m.withSeen seen).checkAndRemove kind env).cleanItems kind env =
      ((m.checkAndRemove kind env).cleanItems kind env).withSeen seen := rfl
  rw [hclean]
  dsimp only
  rw [show (((m.checkAndRemove kind env).cleanItems kind env).withSeen seen).vecImmature =
    ((m.checkAndRemove kind env).cleanItems kind env).vecImmature from rfl, promote_withSeen]
  rfl

/-- The maps agree but for the votes that were seen, which agree off the marked ones. -/
structure AgreeOff (K : BudgetVote γ → Prop) (m m' : BudgetMaps γ ι) : Prop where
  eq : m' = m.withSeen m'.mapSeenVotes
  seen : EqOff K m.mapSeenVotes m'.mapSeenVotes

theorem AgreeOff.refl (m : BudgetMaps γ ι) : AgreeOff K m m := ⟨rfl, .refl _ _⟩

theorem AgreeOff.symm (h : AgreeOff K m m') : AgreeOff K m' m := by
  refine ⟨?_, h.seen.symm⟩
  rw [h.eq]
  rfl

theorem AgreeOff.trans {m'' : BudgetMaps γ ι} (h : AgreeOff K m m') (h' : AgreeOff K m' m'') : AgreeOff K m m'' := by
  refine ⟨?_, fun v hv => (h.seen v hv).trans (h'.seen v hv)⟩
  rw [h'.eq, h.eq]
  rfl

theorem AgreeOff.of_blind {f : BudgetMaps γ ι → BudgetMaps γ ι} (hf : Blind f) (h : AgreeOff K m m') :
    AgreeOff K (f m) (f m') := by
  have hseen : ∀ m, (f m).mapSeenVotes = m.mapSeenVotes := by
    intro m
    have hself : f m = (f m).withSeen m.mapSeenVotes := hf m m.mapSeenVotes
    rw [hself]
    rfl
  have heq : f m' = (f m).withSeen m'.mapSeenVotes := by
    rw [← hf, ← h.eq]
  refine ⟨?_, ?_⟩
  · rw [hseen m']
    exact heq
  · rw [hseen m, hseen m']
    exact h.seen

theorem AgreeOff.clearSeen (h : AgreeOff K m m') : AgreeOff K m.clearSeen m'.clearSeen := by
  refine ⟨?_, .refl _ _⟩
  rw [h.eq]
  rfl

variable [DecidableEq γ]

/-- The vote gets to the check of the signature. -/
def considers (env : BudgetEnv) (m : BudgetMaps γ ι) (vote : BudgetVote γ) : Bool :=
  !m.mapSeenVotes { vote with fValid := true } && env.known vote.vin

theorem receiveVote_eq (m : BudgetMaps γ ι) (vote : BudgetVote γ) (vchSig : List UInt8) :
    m.receiveVote kind env vote vchSig =
      if !m.considers env vote then m
      else
        let m₁ := m.withSeen (Function.update m.mapSeenVotes { vote with fValid := true } true)
        if !kind.checkSignature env { vote with fValid := true } vchSig then m₁
        else (m₁.update kind env { vote with fValid := true } true).2 := by
  unfold receiveVote considers withSeen
  dsimp only
  cases m.mapSeenVotes { vote with fValid := true } <;> cases env.known vote.vin <;> rfl

theorem receiveVote_of_forged (hsig : kind.checkSignature env { vote with fValid := true } vchSig = false)
    (hK : m.considers env vote = true → K { vote with fValid := true }) :
    AgreeOff K (m.receiveVote kind env vote vchSig) m := by
  rw [receiveVote_eq, hsig]
  split
  · exact .refl m
  · rename_i hconsiders
    refine ⟨rfl, (EqOff.refl K _).update_left (hK ?_) true⟩
    simpa using hconsiders

theorem AgreeOff.receiveVote (h : AgreeOff K m m')
    (hforged : kind.checkSignature env { vote with fValid := true } vchSig = true → ¬ K { vote with fValid := true }) :
    AgreeOff K (m.receiveVote kind env vote vchSig) (m'.receiveVote kind env vote vchSig) := by
  by_cases hK : K { vote with fValid := true }
  · have hsig : kind.checkSignature env { vote with fValid := true } vchSig = false :=
      Bool.eq_false_iff.mpr fun hsig => hforged hsig hK
    exact ((receiveVote_of_forged hsig fun _ => hK).trans h).trans (receiveVote_of_forged hsig fun _ => hK).symm
  · have hconsiders : m.considers env vote = m'.considers env vote := by
      unfold considers
      rw [h.seen _ hK]
    have hseen : AgreeOff K (m.withSeen (Function.update m.mapSeenVotes { vote with fValid := true } true))
        (m'.withSeen (Function.update m'.mapSeenVotes { vote with fValid := true } true)) := by
      refine ⟨?_, h.seen.update _ true⟩
      rw [h.eq]
      rfl
    rw [receiveVote_eq, receiveVote_eq, hconsiders]
    dsimp only
    split_ifs
    · exact h
    · exact hseen
    · exact hseen.of_blind (f := fun m => (m.update kind env { vote with fValid := true } true).2)
        fun m seen => congrArg Prod.snd (update_withSeen m seen _ true)

end BudgetMaps

/-! ## Announcements -/

namespace CMasternodeMan

variable {signer : MessageSigner} {env : MasternodeEnv} {a b : CMasternodeMan} {K : Int × CPubKey → Prop} {vin : CTxIn}
  {ping : CMasternodePing} {m : CMasternodeBroadcast} {pmn : CMasternode}

/-- The managers agree but for the broadcasts that were seen, which agree off the marked keys. -/
structure AgreeOff (K : Int × CPubKey → Prop) (a b : CMasternodeMan) : Prop where
  list : a.vMasternodes = b.vMasternodes
  pings : a.mapSeenMasternodePing = b.mapSeenMasternodePing
  seen : EqOff K a.mapSeenMasternodeBroadcast b.mapSeenMasternodeBroadcast

namespace AgreeOff

theorem refl (a : CMasternodeMan) : AgreeOff K a a := ⟨rfl, rfl, .refl _ _⟩

theorem symm (h : AgreeOff K a b) : AgreeOff K b a := ⟨h.list.symm, h.pings.symm, h.seen.symm⟩

theorem trans {c : CMasternodeMan} (h : AgreeOff K a b) (h' : AgreeOff K b c) : AgreeOff K a c :=
  ⟨h.list.trans h'.list, h.pings.trans h'.pings, fun k hk => (h.seen k hk).trans (h'.seen k hk)⟩

theorem find_eq (h : AgreeOff K a b) : a.find vin = b.find vin := by
  unfold find
  rw [h.list]

theorem modify (h : AgreeOff K a b) (o : COutPoint) (f : CMasternode → CMasternode) :
    AgreeOff K (a.modify o f) (b.modify o f) :=
  ⟨congrArg (modifyEntry o f) h.list, h.pings, h.seen⟩

/-- The results of a function agree. -/
def Results (K : Int × CPubKey → Prop) (r r' : Bool × CMasternodeMan) : Prop := r.1 = r'.1 ∧ AgreeOff K r.2 r'.2

theorem takePing (h : AgreeOff K a b) : Results K (a.takePing env ping pmn) (b.takePing env ping pmn) := by
  refine ⟨rfl, congrArg (modifyEntry _ _) h.list, h.pings, ?_⟩
  exact h.seen.map fun k seen => if k = pmn.getHash then seen.map fun m => { m with lastPing := ping } else seen

theorem checkAndUpdatePing (h : AgreeOff K a b) (signer : MessageSigner) (env : MasternodeEnv) (ping : CMasternodePing)
    (fRequireEnabled : Bool) : Results K (a.checkAndUpdatePing signer env ping fRequireEnabled)
      (b.checkAndUpdatePing signer env ping fRequireEnabled) := by
  unfold CMasternodeMan.checkAndUpdatePing
  rw [h.find_eq]
  split
  · exact ⟨rfl, h⟩
  · cases b.find ping.vin with
    | none => exact ⟨rfl, h⟩
    | some pmn =>
      dsimp only
      split_ifs
      · exact ⟨rfl, h⟩
      · exact ⟨rfl, h⟩
      · exact ⟨rfl, h⟩
      · exact ⟨rfl, h⟩
      · exact ⟨rfl, h⟩
      · exact h.takePing

theorem seePing (h : AgreeOff K a b) : AgreeOff K (a.seePing ping) (b.seePing ping) := by
  refine ⟨h.list, ?_, h.seen⟩
  unfold CMasternodeMan.seePing
  rw [h.pings]

theorem mnp (h : AgreeOff K a b) : AgreeOff K (a.mnp signer env ping) (b.mnp signer env ping) := by
  unfold CMasternodeMan.mnp
  rw [h.pings]
  split_ifs
  · exact h
  · exact h
  · exact (h.seePing.checkAndUpdatePing signer env ping true).2

theorem takeLastPing (h : AgreeOff K a b) {o : COutPoint} : AgreeOff K (a.takeLastPing o ping) (b.takeLastPing o ping) := by
  refine ⟨congrArg (modifyEntry _ _) h.list, ?_, h.seen⟩
  unfold CMasternodeMan.takeLastPing
  rw [h.pings]

theorem updateFromNewBroadcast (h : AgreeOff K a b) :
    Results K (a.updateFromNewBroadcast signer env m pmn) (b.updateFromNewBroadcast signer env m pmn) := by
  have htake := h.modify pmn.collateral (takeBroadcast m)
  obtain ⟨hresult, hping⟩ := htake.checkAndUpdatePing signer env m.lastPing false
  unfold CMasternodeMan.updateFromNewBroadcast
  dsimp only
  rw [hresult]
  split_ifs
  · exact ⟨rfl, h⟩
  · exact ⟨rfl, htake.takeLastPing⟩
  · exact ⟨rfl, hping.takeLastPing⟩
  · exact ⟨rfl, hping⟩

theorem checkPingTime_eq (h : AgreeOff K a b) : a.checkPingTime signer env ping = b.checkPingTime signer env ping := by
  unfold checkPingTime
  rw [h.find_eq]

theorem isValidBroadcast_eq (h : AgreeOff K a b) : a.isValidBroadcast signer env m = b.isValidBroadcast signer env m := by
  unfold isValidBroadcast
  rw [h.checkPingTime_eq]

theorem checkAndUpdate (h : AgreeOff K a b) (signer : MessageSigner) (env : MasternodeEnv) (m : CMasternodeBroadcast) :
    Results K (a.checkAndUpdate signer env m) (b.checkAndUpdate signer env m) := by
  unfold CMasternodeMan.checkAndUpdate
  rw [h.isValidBroadcast_eq, h.find_eq]
  split
  · exact ⟨rfl, h⟩
  · cases b.find m.vin with
    | none => exact ⟨rfl, h⟩
    | some pmn =>
      dsimp only
      split_ifs
      · exact ⟨rfl, h⟩
      · exact ⟨rfl, h⟩
      · exact ⟨rfl, h.updateFromNewBroadcast.2.modify _ _⟩
      · exact ⟨rfl, h⟩

theorem forget (h : AgreeOff K a b) : AgreeOff K (a.forget m) (b.forget m) :=
  ⟨h.list, h.pings, h.seen.update _ _⟩

theorem see (h : AgreeOff K a b) : AgreeOff K (a.see m) (b.see m) := ⟨h.list, h.pings, h.seen.update _ _⟩

theorem insertSeen (h : AgreeOff K a b) : AgreeOff K (a.insertSeen m) (b.insertSeen m) := by
  refine ⟨h.list, h.pings, ?_⟩
  intro k hk
  unfold CMasternodeMan.insertSeen
  dsimp only
  rw [Function.update_apply, Function.update_apply]
  split
  · rename_i heq
    rw [← heq, h.seen k hk]
  · exact h.seen k hk

theorem add (h : AgreeOff K a b) (mn : CMasternode) : AgreeOff K (a.add mn) (b.add mn) := by
  unfold CMasternodeMan.add
  rw [h.find_eq]
  split_ifs
  · exact h
  · exact h
  · exact ⟨congrArg (· ++ [mn]) h.list, h.pings, h.seen⟩

theorem remove (h : AgreeOff K a b) : AgreeOff K (a.remove vin) (b.remove vin) :=
  ⟨congrArg (List.eraseP _) h.list, h.pings, h.seen⟩

theorem addChecked (h : AgreeOff K a b) : Results K (a.addChecked env m) (b.addChecked env m) := by
  unfold CMasternodeMan.addChecked
  split_ifs
  · exact ⟨rfl, h.forget⟩
  · exact ⟨rfl, h⟩
  · exact ⟨rfl, h.forget⟩
  · exact ⟨rfl, h⟩
  · exact ⟨rfl, h.add (.ofBroadcast m)⟩

theorem checkInputsAndAdd (h : AgreeOff K a b) :
    Results K (a.checkInputsAndAdd signer env m) (b.checkInputsAndAdd signer env m) := by
  unfold CMasternodeMan.checkInputsAndAdd
  rw [h.checkPingTime_eq, h.find_eq]
  split_ifs
  · exact ⟨rfl, h⟩
  · exact ⟨rfl, h⟩
  · cases b.find m.vin with
    | none => exact h.addChecked
    | some pmn =>
      dsimp only
      split_ifs
      · exact ⟨rfl, h⟩
      · exact h.remove.addChecked

theorem dseg (h : AgreeOff K a b) : AgreeOff K (a.dseg env vin).2 (b.dseg env vin).2 := by
  unfold CMasternodeMan.dseg
  rw [h.list]
  split_ifs
  · exact h
  · exact h
  · exact List.foldl_rel h fun _ _ _ _ hrel => hrel.insertSeen

theorem updateMasternodeList (h : AgreeOff K a b) :
    AgreeOff K (a.updateMasternodeList signer env m) (b.updateMasternodeList signer env m) := by
  have hseen : AgreeOff K
      { a.insertSeen m with
        mapSeenMasternodePing := Function.update a.mapSeenMasternodePing m.lastPing.getHash
          ((a.mapSeenMasternodePing m.lastPing.getHash).or (some m.lastPing)) }
      { b.insertSeen m with
        mapSeenMasternodePing := Function.update b.mapSeenMasternodePing m.lastPing.getHash
          ((b.mapSeenMasternodePing m.lastPing.getHash).or (some m.lastPing)) } := by
    refine ⟨h.list, ?_, h.insertSeen.seen⟩
    rw [h.pings]
  unfold CMasternodeMan.updateMasternodeList
  dsimp only at hseen ⊢
  rw [hseen.find_eq]
  split
  · exact hseen.add _
  · exact hseen.updateFromNewBroadcast.2

theorem checkAndRemove (h : AgreeOff K a b) {force : Bool} :
    AgreeOff K (a.checkAndRemove env force) (b.checkAndRemove env force) := by
  unfold CMasternodeMan.checkAndRemove
  rw [h.list, h.pings]
  refine ⟨rfl, rfl, fun k hk => ?_⟩
  dsimp only
  rw [h.seen k hk]

theorem reload (h : AgreeOff K a b) : AgreeOff K (a.reload env) (b.reload env) := by
  have hread : AgreeOff K { a with vMasternodes := a.vMasternodes.map reloadEntry }
      { b with vMasternodes := b.vMasternodes.map reloadEntry } :=
    ⟨congrArg (List.map reloadEntry) h.list, h.pings, h.seen⟩
  exact hread.checkAndRemove

end AgreeOff

/-- The broadcast gets to the check of the signature. -/
def considers (env : MasternodeEnv) (man : CMasternodeMan) (m : CMasternodeBroadcast) : Bool :=
  env.listens && (man.mapSeenMasternodeBroadcast m.getHash).isNone

theorem mnb_eq (man : CMasternodeMan) : man.mnb signer env m =
    if !man.considers env m then man
    else
      let r := (man.see m).checkAndUpdate signer env m
      if !r.1 then r.2
      else if !env.isInputAssociatedWithPubkey m then r.2
      else (r.2.checkInputsAndAdd signer env m).2 := by
  unfold CMasternodeMan.mnb considers
  cases env.listens <;> cases man.mapSeenMasternodeBroadcast m.getHash <;> rfl

theorem mnb_of_forged (hsig : m.checkSignature signer = false) (hK : a.considers env m = true → K m.getHash) :
    AgreeOff K (a.mnb signer env m) a := by
  have hreject : (a.see m).checkAndUpdate signer env m = (false, a.see m) := by
    have hvalid : (a.see m).isValidBroadcast signer env m = false := by
      unfold isValidBroadcast
      rw [hsig, Bool.and_false, Bool.false_and]
    unfold checkAndUpdate
    rw [hvalid]
    rfl
  rw [mnb_eq, hreject]
  split
  · exact .refl a
  · rename_i hconsiders
    refine ⟨rfl, rfl, (EqOff.refl K _).update_left (hK ?_) _⟩
    simpa using hconsiders

/-- A broadcast with a marked key is not genuine. -/
theorem AgreeOff.mnb (h : AgreeOff K a b) (hforged : m.checkSignature signer = true → ¬ K m.getHash) :
    AgreeOff K (a.mnb signer env m) (b.mnb signer env m) := by
  by_cases hK : K m.getHash
  · have hsig : m.checkSignature signer = false := Bool.eq_false_iff.mpr fun hsig => hforged hsig hK
    exact ((mnb_of_forged hsig fun _ => hK).trans h).trans (mnb_of_forged hsig fun _ => hK).symm
  · have hconsiders : a.considers env m = b.considers env m := by
      unfold considers
      rw [h.seen _ hK]
    obtain ⟨hresult, hupdate⟩ := h.see.checkAndUpdate signer env m
    rw [mnb_eq, mnb_eq, hconsiders]
    dsimp only
    rw [hresult]
    split_ifs
    · exact h
    · exact hupdate
    · exact hupdate
    · exact hupdate.checkInputsAndAdd.2

theorem AgreeOff.step (h : AgreeOff K a b) : ∀ op : MasternodeOp,
    (∀ env m, op = .mnb env m → m.checkSignature signer = true → ¬ K m.getHash) →
      AgreeOff K (a.step signer op) (b.step signer op)
  | .mnb env m, hforged => h.mnb (hforged env m rfl)
  | .mnp _ _, _ => h.mnp
  | .dseg _ _, _ => h.dseg
  | .updateMasternodeList _ _, _ => h.updateMasternodeList
  | .checkAndRemove _ _, _ => h.checkAndRemove
  | .reload _, _ => h.reload

end CMasternodeMan

/-! ## Votes on locks -/

namespace SwiftTX

variable {env : SwiftEnv} {s t : SwiftTX} {K : Uint256 → Prop} {tx : CTransaction} {ctx : CConsensusVote}

/-- The maps with other votes that were seen. -/
def withSeen (s : SwiftTX) (seen : Uint256 → Option CConsensusVote) : SwiftTX := { s with mapTxLockVote := seen }

/-- The maps agree but for the votes that were seen, which agree off the marked keys. -/
structure AgreeOff (K : Uint256 → Prop) (s t : SwiftTX) : Prop where
  eq : t = s.withSeen t.mapTxLockVote
  seen : EqOff K s.mapTxLockVote t.mapTxLockVote

theorem expire_withSeen (s : SwiftTX) (seen : Uint256 → Option CConsensusVote) (h : Uint256) :
    (s.withSeen seen).expire env h = (s.expire env h).withSeen seen := by
  unfold expire withSeen
  dsimp only
  split <;> rfl

theorem checkForConflictingLocks_withSeen (env : SwiftEnv) (s : SwiftTX) (seen : Uint256 → Option CConsensusVote)
    (tx : CTransaction) : (s.withSeen seen).checkForConflictingLocks env tx =
      ((s.checkForConflictingLocks env tx).1, (s.checkForConflictingLocks env tx).2.withSeen seen) := by
  have hlock : (s.withSeen seen).conflictingLock tx = s.conflictingLock tx := conflictingLock_congr rfl
  unfold checkForConflictingLocks
  rw [hlock]
  split
  · rfl
  · rw [expire_withSeen, expire_withSeen]

theorem createNewLock_withSeen (s : SwiftTX) (seen : Uint256 → Option CConsensusVote) (tx : CTransaction) :
    (s.withSeen seen).createNewLock env tx = ((s.createNewLock env tx).1, (s.createNewLock env tx).2.withSeen seen) := by
  unfold createNewLock
  split <;> rfl

theorem completeLock_withSeen (s : SwiftTX) (seen : Uint256 → Option CConsensusVote) (txHash : Uint256) :
    (s.withSeen seen).completeLock env txHash = (s.completeLock env txHash).withSeen seen := by
  have hcheck := checkForConflictingLocks_withSeen env
    { s with mapTxLockReq := Function.update s.mapTxLockReq txHash (some ((s.mapTxLockReq txHash).getD .null)) } seen
    ((s.mapTxLockReq txHash).getD .null)
  unfold completeLock
  dsimp only [withSeen] at hcheck ⊢
  rw [hcheck]
  split_ifs <;> rfl

theorem processConsensusVote_withSeen (s : SwiftTX) (seen : Uint256 → Option CConsensusVote) (ctx : CConsensusVote) :
    (s.withSeen seen).processConsensusVote env ctx = (s.processConsensusVote env ctx).withSeen seen := by
  have hlock : (s.withSeen seen).voteLock env ctx = s.voteLock env ctx := rfl
  unfold processConsensusVote
  rw [hlock]
  dsimp only
  split_ifs
  · rfl
  · exact completeLock_withSeen { s with mapTxLocks := s.mapTxLocks.insert ctx.txHash (s.voteLock env ctx) } seen ctx.txHash
  · rfl

theorem rejectRequest_withSeen (s : SwiftTX) (seen : Uint256 → Option CConsensusVote) (tx : CTransaction) :
    (s.withSeen seen).rejectRequest env tx = (s.rejectRequest env tx).withSeen seen := by
  have hcheck := checkForConflictingLocks_withSeen env
    { s with
      mapTxLockReqRejected := Function.update s.mapTxLockReqRejected tx.hash (some tx)
      mapLockedInputs := lockInputs tx tx.hash s.mapLockedInputs } seen tx
  unfold rejectRequest
  dsimp only [withSeen] at hcheck ⊢
  rw [hcheck]
  split_ifs <;> rfl

namespace AgreeOff

theorem refl (s : SwiftTX) : AgreeOff K s s := ⟨rfl, .refl _ _⟩

theorem symm (h : AgreeOff K s t) : AgreeOff K t s := by
  refine ⟨?_, h.seen.symm⟩
  rw [h.eq]
  rfl

theorem trans {u : SwiftTX} (h : AgreeOff K s t) (h' : AgreeOff K t u) : AgreeOff K s u := by
  refine ⟨?_, fun k hk => (h.seen k hk).trans (h'.seen k hk)⟩
  rw [h'.eq, h.eq]
  rfl

theorem of_blind {f : SwiftTX → SwiftTX} (hf : ∀ s seen, f (s.withSeen seen) = (f s).withSeen seen) (h : AgreeOff K s t) :
    AgreeOff K (f s) (f t) := by
  have hseen : ∀ s, (f s).mapTxLockVote = s.mapTxLockVote := by
    intro s
    have hself : f s = (f s).withSeen s.mapTxLockVote := hf s s.mapTxLockVote
    rw [hself]
    rfl
  have heq : f t = (f s).withSeen t.mapTxLockVote := by
    rw [← hf, ← h.eq]
  refine ⟨?_, ?_⟩
  · rw [hseen t]
    exact heq
  · rw [hseen s, hseen t]
    exact h.seen

theorem withVotes (h : AgreeOff K s t) {seen seen' : Uint256 → Option CConsensusVote} (hseen : EqOff K seen seen') :
    AgreeOff K (s.withSeen seen) (t.withSeen seen') := by
  refine ⟨?_, hseen⟩
  rw [h.eq]
  rfl

theorem doConsensusVote (h : AgreeOff K s t) {txHash : Uint256} {nBlockHeight : Int} :
    AgreeOff K (s.doConsensusVote env txHash nBlockHeight) (t.doConsensusVote env txHash nBlockHeight) := by
  unfold SwiftTX.doConsensusVote
  split
  · exact h
  · exact h.withVotes (h.seen.update _ _)

theorem acceptRequest (h : AgreeOff K s t) {nBlockHeight : Int} :
    AgreeOff K (s.acceptRequest env tx nBlockHeight) (t.acceptRequest env tx nBlockHeight) :=
  h.doConsensusVote.of_blind
    (f := fun s => { s with mapTxLockReq := Function.update s.mapTxLockReq tx.hash (some tx) }) fun _ _ => rfl

theorem ix (h : AgreeOff K s t) : AgreeOff K (s.ix env tx) (t.ix env tx) := by
  have hnew : s.isNewRequest env tx = t.isNewRequest env tx := by
    rw [h.eq]
    rfl
  have hlock : (s.createNewLock env tx).1 = (t.createNewLock env tx).1 := by
    rw [h.eq, createNewLock_withSeen]
  have hcreate : AgreeOff K (s.createNewLock env tx).2 (t.createNewLock env tx).2 :=
    h.of_blind (f := fun s => (s.createNewLock env tx).2) fun s seen => congrArg Prod.snd (createNewLock_withSeen s seen tx)
  have haccept : (s.createNewLock env tx).2.acceptToMemoryPool env tx =
      (t.createNewLock env tx).2.acceptToMemoryPool env tx := by
    rw [hcreate.eq]
    rfl
  unfold SwiftTX.ix
  dsimp only
  rw [hnew, hlock, haccept]
  split_ifs
  · exact h
  · exact hcreate.acceptRequest
  · exact hcreate.of_blind (f := fun s => s.rejectRequest env tx) fun s seen => rejectRequest_withSeen s seen tx

theorem release (h : AgreeOff K s t) {txHash : Uint256} {lock : CTransactionLock} :
    AgreeOff K (s.release txHash lock) (t.release txHash lock) := by
  have hreq : s.mapTxLockReq = t.mapTxLockReq := by
    rw [h.eq]
    rfl
  unfold SwiftTX.release
  rw [hreq]
  split
  · exact h
  · refine ⟨?_, h.seen.map fun k seen => if k ∈ lock.vecConsensusVotes.map CConsensusVote.getHash then none else seen⟩
    rw [h.eq]
    rfl

theorem cleanLoop {now : Int} : ∀ (locks : List (Sigma fun _ : Uint256 => CTransactionLock)) {s t : SwiftTX},
    AgreeOff K s t → AgreeOff K (cleanLoop now locks s) (cleanLoop now locks t)
  | [], _, _, h => h
  | ⟨txHash, lock⟩ :: rest, s, t, h => by
    unfold SwiftTX.cleanLoop
    split
    · exact cleanLoop rest
        (h.release.of_blind (f := fun s => { s with mapTxLocks := s.mapTxLocks.erase txHash }) fun _ _ => rfl)
    · exact cleanLoop rest h

theorem cleanTransactionLocksList (h : AgreeOff K s t) {now : Int} :
    AgreeOff K (s.cleanTransactionLocksList now) (t.cleanTransactionLocksList now) := by
  have hlocks : s.mapTxLocks = t.mapTxLocks := by
    rw [h.eq]
    rfl
  unfold SwiftTX.cleanTransactionLocksList
  rw [hlocks]
  exact cleanLoop _ h

end AgreeOff

/-- The vote gets to `ProcessConsensusVote`. -/
def considers (env : SwiftEnv) (s : SwiftTX) (ctx : CConsensusVote) : Bool := env.listens && !s.seen ctx.getHash

theorem txlvote_eq (s : SwiftTX) (ctx : CConsensusVote) : s.txlvote env ctx =
    if !s.considers env ctx then s
    else (s.withSeen (Function.update s.mapTxLockVote ctx.getHash (some ctx))).processConsensusVote env ctx := by
  unfold txlvote considers SwiftTX.seen
  cases env.listens <;> cases (s.mapTxLockVote ctx.getHash).isSome <;> rfl

theorem txlvote_of_forged (hsig : env.checkSignature ctx = false) (hK : s.considers env ctx = true → K ctx.getHash) :
    AgreeOff K (s.txlvote env ctx) s := by
  have hvalid : env.isValidVote ctx = false := by
    unfold SwiftEnv.isValidVote
    rw [hsig, Bool.and_false]
  rw [txlvote_eq]
  unfold processConsensusVote
  rw [hvalid]
  split
  · exact .refl s
  · rename_i hconsiders
    refine ⟨rfl, (EqOff.refl K _).update_left (hK ?_) _⟩
    simpa using hconsiders

/-- A vote with a marked key is not genuine. -/
theorem AgreeOff.txlvote (h : AgreeOff K s t) (hforged : env.checkSignature ctx = true → ¬ K ctx.getHash) :
    AgreeOff K (s.txlvote env ctx) (t.txlvote env ctx) := by
  by_cases hK : K ctx.getHash
  · have hsig : env.checkSignature ctx = false := Bool.eq_false_iff.mpr fun hsig => hforged hsig hK
    exact ((txlvote_of_forged hsig fun _ => hK).trans h).trans (txlvote_of_forged hsig fun _ => hK).symm
  · have hconsiders : s.considers env ctx = t.considers env ctx := by
      unfold considers SwiftTX.seen
      rw [h.seen _ hK]
    rw [txlvote_eq, txlvote_eq, hconsiders]
    split
    · exact h
    · exact (h.withVotes (h.seen.update _ _)).of_blind (f := fun s => s.processConsensusVote env ctx)
        fun s seen => processConsensusVote_withSeen s seen ctx

theorem AgreeOff.step (h : AgreeOff K s t) : ∀ op : SwiftOp,
    (∀ env ctx, op = .txlvote env ctx → env.checkSignature ctx = true → ¬ K ctx.getHash) →
      AgreeOff K (s.step op) (t.step op)
  | .ix _ _, _ => h.ix
  | .txlvote env ctx, hforged => h.txlvote (hforged env ctx rfl)
  | .doConsensusVote _ _ _, _ => h.doConsensusVote
  | .clean _, _ => h.cleanTransactionLocksList

end SwiftTX

/-! ## The budget manager -/

theorem BudgetMaps.AgreeOff.receiveItem {γ ι : Type} {m m' : BudgetMaps γ ι} {K : BudgetVote γ → Prop}
    (h : AgreeOff K m m') (kind : BudgetKind γ ι) (env : BudgetEnv) (item : ι) :
    (m.receiveItem kind env item).1 = (m'.receiveItem kind env item).1 ∧
      AgreeOff K (m.receiveItem kind env item).2 (m'.receiveItem kind env item).2 := by
  refine ⟨?_, ?_⟩
  · rw [h.eq, receiveItem_withSeen]
  · exact h.of_blind (f := fun m => (m.receiveItem kind env item).2)
      fun m seen => congrArg Prod.snd (receiveItem_withSeen m seen item)

namespace CBudgetManager

variable {hashes : BudgetHashes} {env : BudgetEnv} {a b : CBudgetManager} {K : CBudgetVote → Prop}
  {L : CFinalizedBudgetVote → Prop}

/-- The managers agree but for the votes that were seen. -/
structure AgreeOff (K : CBudgetVote → Prop) (L : CFinalizedBudgetVote → Prop) (a b : CBudgetManager) : Prop where
  proposals : a.proposals.AgreeOff K b.proposals
  finalized : a.finalized.AgreeOff L b.finalized

theorem AgreeOff.checkOrphanVotes (h : AgreeOff K L a b) :
    AgreeOff K L (a.checkOrphanVotes hashes env) (b.checkOrphanVotes hashes env) :=
  ⟨h.proposals.of_blind BudgetMaps.blind_checkOrphanVotes, h.finalized.of_blind BudgetMaps.blind_checkOrphanVotes⟩

theorem AgreeOff.newBlock (h : AgreeOff K L a b) : AgreeOff K L (a.newBlock hashes env) (b.newBlock hashes env) := by
  have hmaps : ∀ {a b : CBudgetManager}, AgreeOff K L a b → AgreeOff K L
      ⟨a.proposals.newBlock hashes.proposalKind env, a.finalized.newBlock hashes.finalizedKind env⟩
      ⟨b.proposals.newBlock hashes.proposalKind env, b.finalized.newBlock hashes.finalizedKind env⟩ :=
    fun h => ⟨h.proposals.of_blind BudgetMaps.blind_newBlock, h.finalized.of_blind BudgetMaps.blind_newBlock⟩
  unfold CBudgetManager.newBlock
  dsimp only
  split_ifs
  · exact h
  · exact h
  · exact hmaps ⟨h.proposals.clearSeen, h.finalized.clearSeen⟩
  · exact hmaps h

theorem AgreeOff.step (h : AgreeOff K L a b) : ∀ op : BudgetOp,
    (∀ env vote vchSig, op = .mvote env vote vchSig →
      env.checkBudgetVoteSignature { vote with fValid := true } vchSig = true → ¬ K { vote with fValid := true }) →
    (∀ env vote vchSig, op = .fbvote env vote vchSig →
      env.checkFinalizedBudgetVoteSignature { vote with fValid := true } vchSig = true → ¬ L { vote with fValid := true }) →
    AgreeOff K L (a.step hashes op) (b.step hashes op)
  | .mprop env proposal, _, _ => by
    obtain ⟨hchecks, hitem⟩ := h.proposals.receiveItem hashes.proposalKind env proposal
    unfold CBudgetManager.step
    dsimp only
    rw [hchecks]
    split_ifs
    · exact h
    · exact AgreeOff.checkOrphanVotes ⟨hitem, h.finalized⟩
    · exact ⟨hitem, h.finalized⟩
  | .mvote env vote vchSig, hforged, _ => by
    unfold CBudgetManager.step
    dsimp only
    split
    · exact h
    · exact ⟨h.proposals.receiveVote (hforged env vote vchSig rfl), h.finalized⟩
  | .fbs env budget, _, _ => by
    obtain ⟨hchecks, hitem⟩ := h.finalized.receiveItem hashes.finalizedKind env budget
    unfold CBudgetManager.step
    dsimp only
    rw [hchecks]
    split_ifs
    · exact h
    · exact AgreeOff.checkOrphanVotes ⟨h.proposals, hitem⟩
    · exact ⟨h.proposals, hitem⟩
  | .fbvote env vote vchSig, _, hforged => by
    unfold CBudgetManager.step
    dsimp only
    split
    · exact h
    · exact ⟨h.proposals, h.finalized.receiveVote (hforged env vote vchSig rfl)⟩
  | .newBlock _, _, _ => h.newBlock

end CBudgetManager

/-! ## The node -/

/-- The parts of a node that take messages of masternodes. -/
structure MessageNode where
  budget : CBudgetManager
  masternodePayments : CMasternodePaymentVotes
  mnodeman : CMasternodeMan
  swift : SwiftTX

inductive MessageOp where
  | budget (op : BudgetOp)
  | payments (op : PaymentOp)
  | mnodeman (op : MasternodeOp)
  | swift (op : SwiftOp)

/-- The message fails the check of its signature. -/
def MessageOp.Forged (signer : MessageSigner) : MessageOp → Prop
  | .budget (.mvote env vote vchSig) => env.checkBudgetVoteSignature { vote with fValid := true } vchSig = false
  | .budget (.fbvote env vote vchSig) => env.checkFinalizedBudgetVoteSignature { vote with fValid := true } vchSig = false
  | .payments (.mnw env winner) => env.checkSignature winner = false
  | .mnodeman (.mnb _ mnb) => mnb.checkSignature signer = false
  | .swift (.txlvote env ctx) => env.checkSignature ctx = false
  | _ => False

/-- The keys under which messages were seen. -/
structure Marks where
  votes : CBudgetVote → Prop := fun _ => False
  finalizedVotes : CFinalizedBudgetVote → Prop := fun _ => False
  lastVotes : COutPoint → Int → Prop := fun _ _ => False
  broadcasts : Int × CPubKey → Prop := fun _ => False
  lockVotes : Uint256 → Prop := fun _ => False

/-- A genuine message has a marked key. -/
def MessageOp.Repeats (signer : MessageSigner) (K : Marks) : MessageOp → Prop
  | .budget (.mvote env vote vchSig) =>
    env.checkBudgetVoteSignature { vote with fValid := true } vchSig = true ∧ K.votes { vote with fValid := true }
  | .budget (.fbvote env vote vchSig) =>
    env.checkFinalizedBudgetVoteSignature { vote with fValid := true } vchSig = true ∧
      K.finalizedVotes { vote with fValid := true }
  | .payments (.mnw env winner) =>
    env.checkSignature winner = true ∧ K.lastVotes winner.vinMasternode.prevout winner.nBlockHeight
  | .mnodeman (.mnb _ mnb) => mnb.checkSignature signer = true ∧ K.broadcasts mnb.getHash
  | .swift (.txlvote env ctx) => env.checkSignature ctx = true ∧ K.lockVotes ctx.getHash
  | _ => False

namespace MessageNode

variable (hashes : BudgetHashes) (signer : MessageSigner) (n : MessageNode)

def empty : MessageNode := ⟨.empty, .empty, .empty, .empty⟩

def step : MessageOp → MessageNode
  | .budget op => { n with budget := n.budget.step hashes op }
  | .payments op => { n with masternodePayments := n.masternodePayments.step op }
  | .mnodeman op => { n with mnodeman := n.mnodeman.step signer op }
  | .swift op => { n with swift := n.swift.step op }

/-- What is recorded: everything but by which keys messages were seen. -/
def recorded : MessageNode where
  budget := ⟨n.budget.proposals.withSeen fun _ => false, n.budget.finalized.withSeen fun _ => false⟩
  masternodePayments := { n.masternodePayments with mapMasternodesLastVote := fun _ => none }
  mnodeman := { n.mnodeman with mapSeenMasternodeBroadcast := fun _ => none }
  swift := n.swift.withSeen fun _ => none

/-- The node gets messages. What a handler asks of the other parts of the node depends on what is recorded. -/
def run (ops : List (MessageNode → MessageOp)) : MessageNode :=
  ops.foldl (fun n op => n.step hashes signer (op n.recorded)) n

/-- The keys that a message with a bad signature marks: none if it is dropped before. -/
def marks : MessageOp → Marks
  | .budget (.mvote env vote _) =>
    { votes := fun v => CBudgetManager.listens env = true ∧ n.budget.proposals.considers env vote = true ∧
        v = { vote with fValid := true } }
  | .budget (.fbvote env vote _) =>
    { finalizedVotes := fun v => CBudgetManager.listens env = true ∧ n.budget.finalized.considers env vote = true ∧
        v = { vote with fValid := true } }
  | .payments (.mnw env winner) => { lastVotes := n.masternodePayments.marks env winner }
  | .mnodeman (.mnb env mnb) => { broadcasts := fun k => n.mnodeman.considers env mnb = true ∧ k = mnb.getHash }
  | .swift (.txlvote env ctx) => { lockVotes := fun k => n.swift.considers env ctx = true ∧ k = ctx.getHash }
  | _ => {}

/-- The nodes agree but for the keys by which messages were seen. -/
structure AgreeOff (K : Marks) (a b : MessageNode) : Prop where
  budget : a.budget.AgreeOff K.votes K.finalizedVotes b.budget
  masternodePayments : a.masternodePayments.AgreeOff K.lastVotes b.masternodePayments
  mnodeman : a.mnodeman.AgreeOff K.broadcasts b.mnodeman
  swift : a.swift.AgreeOff K.lockVotes b.swift

variable {hashes signer n} {K : Marks} {a b : MessageNode} {op : MessageOp}

theorem AgreeOff.refl (n : MessageNode) : AgreeOff K n n := ⟨⟨.refl _, .refl _⟩, .refl _, .refl _, .refl _⟩

theorem AgreeOff.recorded_eq (h : AgreeOff K a b) : a.recorded = b.recorded := by
  have hproposals : a.budget.proposals.withSeen (fun _ => false) = b.budget.proposals.withSeen fun _ => false := by
    rw [h.budget.proposals.eq]
    rfl
  have hfinalized : a.budget.finalized.withSeen (fun _ => false) = b.budget.finalized.withSeen fun _ => false := by
    rw [h.budget.finalized.eq]
    rfl
  have hswift : a.swift.withSeen (fun _ => none) = b.swift.withSeen fun _ => none := by
    rw [h.swift.eq]
    rfl
  unfold recorded
  dsimp only
  rw [hproposals, hfinalized, hswift, h.masternodePayments.blocks, h.masternodePayments.votes, h.mnodeman.list,
    h.mnodeman.pings]

theorem AgreeOff.step (h : AgreeOff K a b) (hop : ¬ op.Repeats signer K) :
    AgreeOff K (a.step hashes signer op) (b.step hashes signer op) := by
  cases op with
  | budget op =>
    refine ⟨h.budget.step op ?_ ?_, h.masternodePayments, h.mnodeman, h.swift⟩
    · rintro env vote vchSig rfl hsig hK
      exact hop ⟨hsig, hK⟩
    · rintro env vote vchSig rfl hsig hK
      exact hop ⟨hsig, hK⟩
  | payments op =>
    refine ⟨h.budget, ?_, h.mnodeman, h.swift⟩
    cases op with
    | mnw env winner => exact h.masternodePayments.mnw fun hsig hK => hop ⟨hsig, hK⟩
    | cleanPaymentList env => exact h.masternodePayments.cleanPaymentList
  | mnodeman op =>
    refine ⟨h.budget, h.masternodePayments, h.mnodeman.step op ?_, h.swift⟩
    rintro env mnb rfl hsig hK
    exact hop ⟨hsig, hK⟩
  | swift op =>
    refine ⟨h.budget, h.masternodePayments, h.mnodeman, h.swift.step op ?_⟩
    rintro env ctx rfl hsig hK
    exact hop ⟨hsig, hK⟩

theorem agreeOff_of_forged (n : MessageNode) {m : MessageOp} (hforged : m.Forged signer) :
    AgreeOff (n.marks m) (n.step hashes signer m) n := by
  cases m with
  | budget op =>
    cases op with
    | mvote env vote vchSig =>
      unfold MessageNode.step CBudgetManager.step
      dsimp only
      split
      · exact .refl n
      · rename_i hlistens
        refine ⟨⟨BudgetMaps.receiveVote_of_forged hforged fun hconsiders => ?_, .refl _⟩, .refl _, .refl _, .refl _⟩
        exact ⟨by simpa using hlistens, hconsiders, rfl⟩
    | fbvote env vote vchSig =>
      unfold MessageNode.step CBudgetManager.step
      dsimp only
      split
      · exact .refl n
      · rename_i hlistens
        refine ⟨⟨.refl _, BudgetMaps.receiveVote_of_forged hforged fun hconsiders => ?_⟩, .refl _, .refl _, .refl _⟩
        exact ⟨by simpa using hlistens, hconsiders, rfl⟩
    | mprop env proposal => exact hforged.elim
    | fbs env budget => exact hforged.elim
    | newBlock env => exact hforged.elim
  | payments op =>
    cases op with
    | mnw env winner =>
      exact ⟨⟨.refl _, .refl _⟩, CMasternodePaymentVotes.agreeOff_mnw hforged, .refl _, .refl _⟩
    | cleanPaymentList env => exact hforged.elim
  | mnodeman op =>
    cases op with
    | mnb env mnb =>
      exact ⟨⟨.refl _, .refl _⟩, .refl _, CMasternodeMan.mnb_of_forged hforged fun hconsiders => ⟨hconsiders, rfl⟩, .refl _⟩
    | mnp env ping => exact hforged.elim
    | dseg env vin => exact hforged.elim
    | updateMasternodeList env mnb => exact hforged.elim
    | checkAndRemove env force => exact hforged.elim
    | reload env => exact hforged.elim
  | swift op =>
    cases op with
    | txlvote env ctx =>
      exact ⟨⟨.refl _, .refl _⟩, .refl _, .refl _, SwiftTX.txlvote_of_forged hforged fun hconsiders => ⟨hconsiders, rfl⟩⟩
    | ix env tx => exact hforged.elim
    | doConsensusVote env txHash nBlockHeight => exact hforged.elim
    | clean now => exact hforged.elim

/-- A message with a bad signature is invisible in every run in which no genuine message comes with the key that it marks. -/
theorem forged_invisible (hashes : BudgetHashes) (signer : MessageSigner) (n : MessageNode) (m : MessageOp)
    (hforged : m.Forged signer) (ops : List (MessageNode → MessageOp))
    (hops : ∀ op ∈ ops, ∀ r, ¬ (op r).Repeats signer (n.marks m)) :
    ((n.step hashes signer m).run hashes signer ops).recorded = (n.run hashes signer ops).recorded := by
  refine AgreeOff.recorded_eq (K := n.marks m) (List.foldl_rel (agreeOff_of_forged n hforged) fun op hop a b h => ?_)
  rw [h.recorded_eq]
  exact h.step (hops op hop b.recorded)

/-- A node with a proposal, where a good signature is the byte 1. -/
def votingNode : MessageNode :=
  { empty with budget := CBudgetManager.empty.step votingHashes (.mprop votingEnv votedProposal) }

/-- A masternode votes for the proposal. -/
def voteYes (masternode : Uint256) (vchSig : List UInt8) : MessageOp :=
  .budget (.mvote { votingEnv with checkBudgetVoteSignature := fun _ vchSig => vchSig == [1] }
    (voteOn 1 VOTE_YES masternode 1000) vchSig)

theorem forged_invisible_voting :
    ((votingNode.step votingHashes sampleSigner (voteYes 1 [0])).run votingHashes sampleSigner
      [fun _ => voteYes 1 [0], fun _ => voteYes 2 [1]]).recorded =
        (votingNode.run votingHashes sampleSigner [fun _ => voteYes 1 [0], fun _ => voteYes 2 [1]]).recorded := by
  refine forged_invisible votingHashes sampleSigner votingNode (voteYes 1 [0]) rfl _ fun op hop r => ?_
  rcases List.mem_cons.mp hop with rfl | hop
  · rintro ⟨hsig, -⟩
    exact absurd hsig (by decide)
  · rw [List.mem_singleton.mp hop]
    rintro ⟨-, -, -, heq⟩
    exact absurd heq (by decide)

/-- A copy of a vote with a bad signature blocks the vote. -/
theorem forged_blocks : ¬ ∀ (hashes : BudgetHashes) (signer : MessageSigner) (n : MessageNode) (m : MessageOp),
    m.Forged signer → ∀ ops : List (MessageNode → MessageOp),
      ((n.step hashes signer m).run hashes signer ops).recorded = (n.run hashes signer ops).recorded := by
  intro hall
  have heq := hall votingHashes sampleSigner votingNode (voteYes 1 [0]) rfl [fun _ => voteYes 1 [1]]
  have hvotes := congrArg (fun r : MessageNode => (r.budget.proposals.mapItems 1).map fun p => p.mapVotes.lookup ⟨1, 0⟩) heq
  revert hvotes
  decide

end MessageNode

end DigiWage
