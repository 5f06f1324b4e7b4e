import DigiWage.Masternode.Announce
import DigiWage.Supply.Conservation
import DigiWage.Lib.Run

/-!
# Entries that can be announced again

A node that answers `dseg` sends `CMasternodeBroadcast(mn)`. `UpdateFromNewBroadcast` takes the signature of the newer
broadcast and all that was signed but the version of the message, so that the signature of a new message is checked as that
of an old one.

* `Verifies`: each entry of the list, sent as a broadcast, passes `CheckSignature`.
-/

namespace DigiWage

open Lib

/-! ## One entry -/

namespace CMasternodeBroadcast

/-- The signature is one of the old message. -/
def verifiesOld (signer : MessageSigner) (mnb : CMasternodeBroadcast) : Bool :=
  signer.verifyMessage mnb.pubKeyCollateralAddress mnb.vchSig (mnb.getOldStrMessage signer)

variable {signer : MessageSigner} {mnb : CMasternodeBroadcast}

theorem checkSignature_of_verifiesOld (hold : mnb.verifiesOld signer = true) : mnb.checkSignature signer = true := by
  unfold checkSignature
  unfold verifiesOld at hold
  simp only [hold, Bool.or_true]

theorem checkSignature_of_ne (hver : mnb.nMessVersion ≠ MESS_VER_HASH) :
    mnb.checkSignature signer = mnb.verifiesOld signer := by
  unfold checkSignature verifiesOld getStrMessage
  simp only [if_neg hver, Bool.or_self]

end CMasternodeBroadcast

namespace CMasternode

variable {signer : MessageSigner} {env : MasternodeEnv} {mn : CMasternode} {mnb : CMasternodeBroadcast}

@[simp] theorem checkSignature_check (forceCheck : Bool) :
    (mn.check env forceCheck).checkSignature signer = mn.checkSignature signer := by
  unfold check
  split
  · rfl
  · split <;> rfl

theorem checkSignature_reloadEntry (hmn : mn.checkSignature signer = true) :
    (CMasternodeMan.reloadEntry mn).checkSignature signer = true := by
  by_cases hver : mn.nMessVersion = MESS_VER_HASH
  · have hsame : CMasternodeMan.reloadEntry mn = mn := by
      unfold CMasternodeMan.reloadEntry
      rw [← hver]
    rwa [hsame]
  · rw [CMasternodeBroadcast.checkSignature_of_ne hver] at hmn
    exact CMasternodeBroadcast.checkSignature_of_verifiesOld hmn

theorem checkSignature_takeBroadcast (hmnb : mnb.checkSignature signer = true) :
    (CMasternodeMan.takeBroadcast mnb mn).checkSignature signer = true ↔
      mn.nMessVersion = MESS_VER_HASH ∨ mnb.verifiesOld signer = true := by
  by_cases hver : mn.nMessVersion = MESS_VER_HASH
  · refine iff_of_true ?_ (.inl hver)
    by_cases hmver : mnb.nMessVersion = MESS_VER_HASH
    · have hsame : (CMasternodeMan.takeBroadcast mnb mn).checkSignature signer = mnb.checkSignature signer := by
        unfold CMasternodeBroadcast.checkSignature CMasternodeBroadcast.getSignatureHash CMasternodeMan.takeBroadcast
        simp only [hver, hmver]
        rfl
      rwa [hsame]
    · rw [CMasternodeBroadcast.checkSignature_of_ne hmver] at hmnb
      exact CMasternodeBroadcast.checkSignature_of_verifiesOld hmnb
  · have hold : (CMasternodeMan.takeBroadcast mnb mn).checkSignature signer = mnb.verifiesOld signer :=
      CMasternodeBroadcast.checkSignature_of_ne hver
    rw [hold]
    exact ⟨.inr, fun h => h.resolve_left hver⟩

end CMasternode

/-! ## The list -/

theorem mem_modifyEntry {o : COutPoint} {f : CMasternode → CMasternode} {mn : CMasternode} :
    ∀ {mns : List CMasternode}, mn ∈ modifyEntry o f mns →
      mn ∈ mns ∨ ∃ mn₀, mns.find? (fun mn => decide (mn.collateral = o)) = some mn₀ ∧ mn = f mn₀
  | [], h => by cases h
  | m :: mns, h => by
    unfold modifyEntry at h
    by_cases hm : m.collateral = o
    · rw [if_pos hm] at h
      rcases List.mem_cons.mp h with rfl | h
      · exact .inr ⟨m, List.find?_cons_of_pos (decide_eq_true hm), rfl⟩
      · exact .inl (List.mem_cons_of_mem _ h)
    · rw [if_neg hm] at h
      have hskip : (m :: mns).find? (fun mn => decide (mn.collateral = o)) =
          mns.find? fun mn => decide (mn.collateral = o) := List.find?_cons_of_neg (by simpa using hm)
      rcases List.mem_cons.mp h with rfl | h
      · exact .inl List.mem_cons_self
      · rw [hskip]
        exact (mem_modifyEntry h).imp (List.mem_cons_of_mem _) id

namespace CMasternodeMan

variable {signer : MessageSigner} {env : MasternodeEnv} {man man' : CMasternodeMan} {b : CMasternodeBroadcast}
  {ping : CMasternodePing} {pmn : CMasternode} {o : COutPoint} {vin : CTxIn}

/-- Each entry of the list can be announced again. -/
def Verifies (signer : MessageSigner) (man : CMasternodeMan) : Prop :=
  ∀ mn ∈ man.vMasternodes, mn.checkSignature signer = true

theorem collateral_of_find (hfind : man.find vin = some pmn) : pmn.collateral = vin.prevout := by
  have h := List.find?_some hfind
  exact of_decide_eq_true h

theorem mem_of_find (hfind : man.find vin = some pmn) : pmn ∈ man.vMasternodes := List.mem_of_find?_eq_some hfind

theorem Verifies.of_subset (hs : man.Verifies signer) (hsub : ∀ mn ∈ man'.vMasternodes, mn ∈ man.vMasternodes) :
    man'.Verifies signer := fun mn hmn => hs mn (hsub mn hmn)

theorem Verifies.modify (hs : man.Verifies signer) {f : CMasternode → CMasternode}
    (hf : ∀ mn, man.vMasternodes.find? (fun mn => decide (mn.collateral = o)) = some mn →
      mn.checkSignature signer = true → (f mn).checkSignature signer = true) : (man.modify o f).Verifies signer := by
  intro mn hmn
  rcases mem_modifyEntry hmn with hmn | ⟨mn₀, hfind, rfl⟩
  · exact hs mn hmn
  · exact hf mn₀ hfind (hs mn₀ (List.mem_of_find?_eq_some hfind))

theorem checkAndUpdatePing_cases (signer : MessageSigner) (env : MasternodeEnv) (man : CMasternodeMan)
    (ping : CMasternodePing) (fRequireEnabled : Bool) :
    man.checkAndUpdatePing signer env ping fRequireEnabled = (false, man) ∨
      ∃ pmn, man.find ping.vin = some pmn ∧
        man.checkAndUpdatePing signer env ping fRequireEnabled = man.takePing env ping pmn := by
  unfold checkAndUpdatePing
  split
  · exact .inl rfl
  · cases hfind : man.find ping.vin with
    | none => exact .inl rfl
    | some pmn =>
      dsimp only
      split_ifs
      · exact .inl rfl
      · exact .inl rfl
      · exact .inl rfl
      · exact .inl rfl
      · exact .inl rfl
      · exact .inr ⟨pmn, rfl, rfl⟩

theorem Verifies.checkAndUpdatePing (hs : man.Verifies signer) (env : MasternodeEnv) (ping : CMasternodePing)
    (fRequireEnabled : Bool) :
    (man.checkAndUpdatePing signer env ping fRequireEnabled).2.Verifies signer := by
  rcases checkAndUpdatePing_cases signer env man ping fRequireEnabled with heq | ⟨pmn, hfind, heq⟩
  · rw [heq]
    exact hs
  · rw [heq]
    have hpmn : ({ pmn with lastPing := ping }.check env true).checkSignature signer = true := by
      rw [CMasternode.checkSignature_check]
      exact hs pmn (mem_of_find hfind)
    exact hs.modify fun _ _ _ => hpmn

theorem Verifies.updateFromNewBroadcast (hs : man.Verifies signer) (env : MasternodeEnv) (hfind : man.find vin = some pmn)
    (hpmn : pmn.sigTime < b.sigTime → (takeBroadcast b pmn).checkSignature signer = true) :
    (man.updateFromNewBroadcast signer env b pmn).2.Verifies signer := by
  unfold CMasternodeMan.updateFromNewBroadcast
  split
  · exact hs
  · rename_i hnew
    have hs₁ : (man.modify pmn.collateral (takeBroadcast b)).Verifies signer := by
      refine hs.modify fun mn hmn _ => ?_
      have hsame : some mn = some pmn := by
        rw [← hmn, ← hfind, collateral_of_find hfind]
        rfl
      cases hsame
      exact hpmn (by omega)
    have htake : ∀ {man' : CMasternodeMan}, man'.Verifies signer →
        (man'.takeLastPing pmn.collateral b.lastPing).Verifies signer := fun hs' => hs'.modify fun _ _ hmn => hmn
    dsimp only
    split
    · exact htake hs₁
    · have hs₂ := hs₁.checkAndUpdatePing env b.lastPing false
      dsimp only
      split
      · exact htake hs₂
      · exact hs₂

theorem Verifies.add (hs : man.Verifies signer) (hb : b.checkSignature signer = true) :
    (man.add (.ofBroadcast b)).Verifies signer := by
  unfold CMasternodeMan.add
  split_ifs
  · exact hs
  · exact hs
  · intro mn hmn
    rcases List.mem_append.mp hmn with hmn | hmn
    · exact hs mn hmn
    · rw [List.mem_singleton.mp hmn]
      exact hb

theorem Verifies.addChecked (hs : man.Verifies signer) (hb : b.checkSignature signer = true) :
    (man.addChecked env b).2.Verifies signer := by
  unfold CMasternodeMan.addChecked
  split_ifs
  · exact hs
  · exact hs
  · exact hs
  · exact hs
  · exact hs.add hb

theorem Verifies.checkInputsAndAdd (hs : man.Verifies signer) (hb : b.checkSignature signer = true) :
    (man.checkInputsAndAdd signer env b).2.Verifies signer := by
  unfold CMasternodeMan.checkInputsAndAdd
  split_ifs
  · exact hs
  · exact hs
  · cases man.find b.vin with
    | none => exact hs.addChecked hb
    | some pmn =>
      dsimp only
      split
      · exact hs
      · have hrest : (man.remove pmn.vin).Verifies signer := hs.of_subset fun mn hmn => List.mem_of_mem_eraseP hmn
        exact hrest.addChecked hb

theorem checkSignature_of_isValidBroadcast (hvalid : man.isValidBroadcast signer env b = true) :
    b.checkSignature signer = true := by
  unfold isValidBroadcast at hvalid
  simp only [Bool.and_eq_true] at hvalid
  exact hvalid.1.2

/-! ## Runs -/

/-- `CheckAndUpdate` updates the entry by the broadcast. -/
structure Updates (signer : MessageSigner) (env : MasternodeEnv) (man : CMasternodeMan) (b : CMasternodeBroadcast)
    (pmn : CMasternode) : Prop where
  valid : man.isValidBroadcast signer env b = true
  find : man.find b.vin = some pmn
  newer : pmn.sigTime < b.sigTime
  enabled : pmn.isEnabled = true
  sameKey : pmn.pubKeyCollateralAddress = b.pubKeyCollateralAddress
  due : pmn.isBroadcastedWithin env MASTERNODE_MIN_MNB_SECONDS = false

/-- After the update the version of the entry goes with the signature. -/
def KeepsVersion (signer : MessageSigner) (b : CMasternodeBroadcast) (pmn : CMasternode) : Prop :=
  pmn.nMessVersion = MESS_VER_HASH ∨ b.verifiesOld signer = true

/-- Each update that the operation makes keeps an entry with the version of its signature. -/
def UpdatesVersion (signer : MessageSigner) (man : CMasternodeMan) : MasternodeOp → Prop
  | .mnb env b => env.listens = true → (man.mapSeenMasternodeBroadcast b.getHash).isSome = false →
    ∀ pmn, man.Updates signer env b pmn → KeepsVersion signer b pmn
  | .updateMasternodeList _ b => ∀ pmn, man.find b.vin = some pmn → pmn.sigTime < b.sigTime → KeepsVersion signer b pmn
  | _ => True

/-- Broadcasts that are handed to `UpdateMasternodeList` pass `CheckSignature`, as its callers see to. -/
def Accepted (signer : MessageSigner) : MasternodeOp → Prop
  | .updateMasternodeList _ b => b.checkSignature signer = true
  | _ => True

theorem Verifies.checkAndUpdate (hs : man.Verifies signer)
    (hver : ∀ pmn, man.Updates signer env b pmn → KeepsVersion signer b pmn) :
    (man.checkAndUpdate signer env b).2.Verifies signer := by
  unfold CMasternodeMan.checkAndUpdate
  split
  · exact hs
  · rename_i hvalid
    have hvalid : man.isValidBroadcast signer env b = true := by simpa using hvalid
    cases hfind : man.find b.vin with
    | none => exact hs
    | some pmn =>
      dsimp only
      split_ifs with hold henabled hdue
      · exact hs
      · exact hs
      · -- The entry is updated, and then checked.
        have henabled : pmn.isEnabled = true := by simpa using henabled
        have hdue' : pmn.isBroadcastedWithin env MASTERNODE_MIN_MNB_SECONDS = false := by simpa using hdue.2
        have hkeeps := hver pmn ⟨hvalid, hfind, by omega, henabled, hdue.1, hdue'⟩
        have hs₁ := hs.updateFromNewBroadcast env hfind fun _ =>
          (CMasternode.checkSignature_takeBroadcast (checkSignature_of_isValidBroadcast hvalid)).mpr hkeeps
        refine hs₁.modify fun mn _ hmn => ?_
        rw [CMasternode.checkSignature_check]
        exact hmn
      · exact hs

theorem Verifies.mnb (hs : man.Verifies signer) (hver : man.UpdatesVersion signer (.mnb env b)) :
    (man.mnb signer env b).Verifies signer := by
  unfold CMasternodeMan.mnb
  dsimp only
  split_ifs with hlisten hseen hvalid hinput
  · exact hs
  · exact hs
  all_goals
    have hlisten : env.listens = true := by simpa using hlisten
    have hs₀ : (man.see b).Verifies signer := hs
    have hs₁ := hs₀.checkAndUpdate fun pmn (hpmn : (man.see b).Updates signer env b pmn) =>
      hver hlisten (Bool.eq_false_iff.mpr hseen) pmn ⟨hpmn.1, hpmn.2, hpmn.3, hpmn.4, hpmn.5, hpmn.6⟩
  · exact hs₁
  · exact hs₁
  · -- Only a broadcast that is signed gets this far.
    refine hs₁.checkInputsAndAdd (checkSignature_of_isValidBroadcast (?_ : (man.see b).isValidBroadcast signer env b = true))
    by_contra hnot
    apply hvalid
    unfold CMasternodeMan.checkAndUpdate
    simp only [Bool.not_eq_true] at hnot
    simp only [hnot, Bool.not_false, if_true]

theorem Verifies.checkAndRemove (hs : man.Verifies signer) (forceExpiredRemoval : Bool) :
    (man.checkAndRemove env forceExpiredRemoval).Verifies signer := by
  intro mn hmn
  obtain ⟨mn₀, hmn₀, rfl⟩ := List.mem_map.mp (List.mem_of_mem_filter hmn)
  rw [CMasternode.checkSignature_check]
  exact hs mn₀ hmn₀

theorem vMasternodes_foldl_insertSeen (bs : List CMasternodeBroadcast) (man : CMasternodeMan) :
    (bs.foldl insertSeen man).vMasternodes = man.vMasternodes := by
  induction bs generalizing man with
  | nil => rfl
  | cons b bs ih => exact ih (insertSeen man b)

@[simp] theorem vMasternodes_dseg : (man.dseg env vin).2.vMasternodes = man.vMasternodes := by
  unfold dseg
  split_ifs
  · rfl
  · rfl
  · exact vMasternodes_foldl_insertSeen _ man

theorem Verifies.updateMasternodeList (hs : man.Verifies signer) (hb : b.checkSignature signer = true)
    (hver : man.UpdatesVersion signer (.updateMasternodeList env b)) :
    (man.updateMasternodeList signer env b).Verifies signer := by
  unfold CMasternodeMan.updateMasternodeList
  dsimp only
  generalize hman : CMasternodeMan.mk _ _ _ = man₁
  have hlist : man₁.vMasternodes = man.vMasternodes := by rw [← hman]; rfl
  have hs₁ : man₁.Verifies signer := hs.of_subset fun mn hmn => hlist ▸ hmn
  have hfind₁ : man₁.find b.vin = man.find b.vin := by
    unfold CMasternodeMan.find
    rw [hlist]
  cases hfind : man₁.find b.vin with
  | none => exact hs₁.add hb
  | some pmn =>
    exact hs₁.updateFromNewBroadcast env hfind fun hnew =>
      (CMasternode.checkSignature_takeBroadcast hb).mpr (hver pmn (hfind₁.symm.trans hfind) hnew)

theorem Verifies.step (hs : man.Verifies signer) {op : MasternodeOp} (hacc : Accepted signer op)
    (hver : man.UpdatesVersion signer op) : (man.step signer op).Verifies signer := by
  cases op with
  | mnb env b => exact hs.mnb hver
  | mnp env ping =>
    dsimp only [CMasternodeMan.step]
    unfold CMasternodeMan.mnp
    split_ifs
    · exact hs
    · exact hs
    · have hs₀ : (man.seePing ping).Verifies signer := hs
      exact hs₀.checkAndUpdatePing env ping true
  | dseg env vin => exact hs.of_subset fun mn hmn => by rwa [CMasternodeMan.step, vMasternodes_dseg] at hmn
  | updateMasternodeList env b => exact hs.updateMasternodeList hacc hver
  | checkAndRemove env force => exact hs.checkAndRemove force
  | reload env =>
    have hs₁ : Verifies signer { man with vMasternodes := man.vMasternodes.map reloadEntry } := by
      intro mn hmn
      obtain ⟨mn₀, hmn₀, rfl⟩ := List.mem_map.mp hmn
      exact CMasternode.checkSignature_reloadEntry (hs mn₀ hmn₀)
    exact hs₁.checkAndRemove true

/-- The steps of a run always return. -/
def returns (signer : MessageSigner) (man : CMasternodeMan) (op : MasternodeOp) : Option CMasternodeMan :=
  some (man.step signer op)

theorem foldlM_returns : ∀ (ops : List MasternodeOp) (man : CMasternodeMan),
    ops.foldlM (returns signer) man = some (man.run signer ops)
  | [], _ => rfl
  | op :: ops, man => foldlM_returns ops (man.step signer op)

/-- Along runs whose updates give no entry a signature of another version, each entry of the list, as it is sent in answer
to `dseg`, passes `CheckSignature`. -/
theorem entries_verify (signer : MessageSigner) (ops : List MasternodeOp) (hacc : ∀ op ∈ ops, Accepted signer op)
    (hmeets : Meets (returns signer) (UpdatesVersion signer) empty ops) :
    ∀ mn ∈ (empty.run signer ops).vMasternodes, mn.checkSignature signer = true := by
  have hboth := hmeets.and (Meets.of_forall fun op hop (_ : CMasternodeMan) => hacc op hop)
  refine hboth.keeps (I := Verifies signer) ?_ (fun mn hmn => ?_) (foldlM_returns ops empty)
  · rintro man op man' hs ⟨hver, hacc⟩ heq
    cases heq
    exact hs.step hacc hver
  · cases hmn

end CMasternodeMan

/-! ## A masternode that signs its second announcement in the new way -/

/-- Signatures are the key with the message. -/
def sampleSigner : MessageSigner where
  verifyMessage key vchSig strMessage := vchSig == key ++ strMessage
  signatureHash nMessVersion addr sigTime key key₂ protocolVersion := 0xff :: (intToString nMessVersion ++ addr.ip ++
    intToString sigTime ++ key ++ key₂ ++ intToString protocolVersion)
  serviceToString addr := addr.ip ++ 58 :: intToString addr.port
  checkPingSignature ping key := ping.vchSig == key

/-- The output of a collateral, for the id of a key. -/
def sampleOutput (key : CPubKey) : CTxOut := ⟨12000 * COIN, ([0x76, 0xa9, 0x14] ++ key ++ [0x88, 0xac] : List UInt8), -10⟩

def sampleKey (n : UInt8) : CPubKey := List.replicate 20 n

/-- The transaction 5 has collaterals of the keys 1, 3 and 1. -/
def collateralCoins : CTransaction := ⟨5, 1, [], [1, 3, 1].map fun n => sampleOutput (sampleKey n), 0⟩

/-- A node at the time, with the coins of transaction 5. -/
def sampleNode (now : Int) : MasternodeEnv where
  now := now
  getAdjustedTime := now
  fLiteMode := false
  isBlockchainSynced := true
  shutdownRequested := false
  recentlyChecked _ := false
  lockMain := true
  isMainNet := false
  minPaymentsProto := 70000
  activeMasternode := none
  getScriptForKey key := (sampleOutput key).scriptPubKey
  collateralPubKey := ([0x51] : List UInt8)
  tipHeight := 100
  view := ⟨fun h => if h = 5 then ⟨false, false, collateralCoins.vout, 10, 1⟩ else .empty, 1⟩
  getTransaction h := if h = 5 then some collateralCoins else none
  coins_getTransaction h tx n htx havail := by
    split at htx
    · cases htx
      rename_i heq
      dsimp only at havail ⊢
      rw [if_pos heq] at havail ⊢
      exact CCoins.getElem?_of_out (CCoins.isAvailable_iff.mp havail).1
    · cases htx
  poolExists _ := false
  mapNextTx _ := false
  connect := regTestEnv
  hashTx _ := 99
  txPolicy _ := true
  confirmedTime _ := none
  isPingBlock _ := true
  isRFC1918 _ := false
  askedTooSoon := false

/-- An announcement for an output of transaction 5, with a ping at the time. -/
def sampleBroadcast (n : Nat) (key : UInt8) (sigTime pingTime nMessVersion : Int) : CMasternodeBroadcast :=
  let vin : CTxIn := ⟨⟨5, n⟩, ([] : List UInt8), 2 ^ 32 - 1⟩
  let mnb : CMasternodeBroadcast := ⟨vin, ⟨[127, 0, 0, 1], 46005⟩, sampleKey key, sampleKey (key + 1), [], sigTime, 70915,
    ⟨vin, 7, pingTime, nMessVersion, sampleKey (key + 1)⟩, nMessVersion⟩
  { mnb with vchSig := sampleKey key ++ if nMessVersion = MESS_VER_HASH then mnb.getSignatureHash sampleSigner
      else mnb.getStrMessage sampleSigner }

namespace CMasternodeMan

/-- Two announcements of a masternode, the second with the version of messages. -/
def announceTwice (nMessVersion : Int) : List MasternodeOp :=
  [.mnb (sampleNode 1000) (sampleBroadcast 0 1 1000 1000 0),
    .mnb (sampleNode 2600) (sampleBroadcast 0 1 2000 2600 nMessVersion)]

theorem accepted_announceTwice {nMessVersion : Int} : ∀ op ∈ announceTwice nMessVersion, Accepted sampleSigner op := by
  intro op hop
  simp only [announceTwice, List.mem_cons, List.not_mem_nil, or_false] at hop
  rcases hop with rfl | rfl
  · trivial
  · trivial

theorem entries_verify_twice : (empty.run sampleSigner (announceTwice 0)).vMasternodes.length = 1 ∧
    ∀ mn ∈ (empty.run sampleSigner (announceTwice 0)).vMasternodes, mn.checkSignature sampleSigner = true := by
  refine ⟨by decide +kernel, entries_verify sampleSigner (announceTwice 0) accepted_announceTwice ?_⟩
  refine .cons _ (fun _ _ pmn hpmn => ?_) rfl (.cons _ (fun _ _ pmn _ => .inr (by decide +kernel)) rfl trivial)
  cases hpmn.find

/-- An entry that was announced in the old way and updated by a message of the new one does not pass. -/
theorem entries_not_verify : ¬ ∀ (signer : MessageSigner) (ops : List MasternodeOp), (∀ op ∈ ops, Accepted signer op) →
    ∀ mn ∈ (empty.run signer ops).vMasternodes, mn.checkSignature signer = true := by
  intro h
  have hall := h sampleSigner (announceTwice 1) accepted_announceTwice
  have hnot : ¬ ∀ mn ∈ (empty.run sampleSigner (announceTwice 1)).vMasternodes, mn.checkSignature sampleSigner = true := by
    decide +kernel
  exact hnot hall

end CMasternodeMan

end DigiWage
