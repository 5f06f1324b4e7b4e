import DigiWage.Masternode.Resend

/-!
# The collateral of a masternode

`IsInputAssociatedWithPubkey` looks whether some output of the collateral's transaction has the amount and pays to the key;
`CheckInputsAndAdd` looks whether the output that was announced can be spent.
-/

namespace DigiWage

open Lib

/-! ## The outpoints of the list -/

theorem map_collateral_modifyEntry {o : COutPoint} {f : CMasternode → CMasternode}
    (hf : ∀ mn : CMasternode, mn.collateral = o → (f mn).collateral = o) : ∀ mns : List CMasternode,
    (modifyEntry o f mns).map (·.collateral) = mns.map (·.collateral)
  | [] => rfl
  | mn :: mns => by
    unfold modifyEntry
    by_cases hmn : mn.collateral = o
    · rw [if_pos hmn, List.map_cons, List.map_cons, hf mn hmn, hmn]
    · rw [if_neg hmn, List.map_cons, List.map_cons, map_collateral_modifyEntry hf mns]

@[simp] theorem CMasternode.collateral_check {env : MasternodeEnv} {mn : CMasternode} (forceCheck : Bool) :
    (mn.check env forceCheck).collateral = mn.collateral := by
  unfold check
  split
  · rfl
  · split <;> rfl

namespace CMasternodeMan

variable {signer : MessageSigner} {env : MasternodeEnv} {man : CMasternodeMan} {b : CMasternodeBroadcast}
  {ping : CMasternodePing} {pmn : CMasternode} {o : COutPoint} {vin : CTxIn}

/-- The collaterals of the entries. -/
def collaterals (man : CMasternodeMan) : List COutPoint := man.vMasternodes.map (·.collateral)

theorem find_eq_none_iff : man.find vin = none ↔ vin.prevout ∉ man.collaterals := by
  unfold find collaterals
  rw [List.find?_eq_none, List.mem_map]
  constructor
  · rintro h ⟨mn, hmn, heq⟩
    exact h mn hmn (decide_eq_true heq)
  · intro h mn hmn heq
    exact h ⟨mn, hmn, of_decide_eq_true heq⟩

theorem collaterals_modify {f : CMasternode → CMasternode}
    (hf : ∀ mn : CMasternode, mn.collateral = o → (f mn).collateral = o) : (man.modify o f).collaterals = man.collaterals :=
  map_collateral_modifyEntry hf man.vMasternodes

@[simp] theorem collaterals_checkAndUpdatePing (fRequireEnabled : Bool) :
    (man.checkAndUpdatePing signer env ping fRequireEnabled).2.collaterals = man.collaterals := by
  rcases checkAndUpdatePing_cases signer env man ping fRequireEnabled with heq | ⟨pmn, -, heq⟩
  · rw [heq]
  · rw [heq]
    refine collaterals_modify fun _ _ => ?_
    rw [CMasternode.collateral_check]

@[simp] theorem collaterals_updateFromNewBroadcast :
    (man.updateFromNewBroadcast signer env b pmn).2.collaterals = man.collaterals := by
  have htake : ∀ man' : CMasternodeMan, (man'.takeLastPing pmn.collateral b.lastPing).collaterals = man'.collaterals :=
    fun man' => collaterals_modify fun _ h => h
  have hfirst : (man.modify pmn.collateral (takeBroadcast b)).collaterals = man.collaterals :=
    collaterals_modify fun _ h => h
  unfold updateFromNewBroadcast
  dsimp only
  split_ifs
  · rfl
  · exact (htake _).trans hfirst
  · exact (htake _).trans ((collaterals_checkAndUpdatePing false).trans hfirst)
  · exact (collaterals_checkAndUpdatePing false).trans hfirst

@[simp] theorem collaterals_checkAndUpdate :
    (man.checkAndUpdate signer env b).2.collaterals = man.collaterals := by
  unfold checkAndUpdate
  split
  · rfl
  · cases man.find b.vin with
    | none => rfl
    | some pmn =>
      dsimp only
      split_ifs
      · rfl
      · rfl
      · have hcheck : ∀ mn : CMasternode, mn.collateral = pmn.collateral →
            (mn.check env false).collateral = pmn.collateral := fun mn h => (CMasternode.collateral_check false).trans h
        exact (collaterals_modify hcheck).trans collaterals_updateFromNewBroadcast
      · rfl

theorem collaterals_add (man : CMasternodeMan) (mn : CMasternode) :
    (man.add mn).collaterals = man.collaterals ∨
      mn.collateral ∉ man.collaterals ∧ (man.add mn).collaterals = man.collaterals ++ [mn.collateral] := by
  unfold add
  split_ifs with henabled hfind
  · exact .inl rfl
  · exact .inl rfl
  · refine .inr ⟨find_eq_none_iff.mp (Option.not_isSome_iff_eq_none.mp hfind), ?_⟩
    unfold collaterals
    rw [List.map_append, List.map_singleton]

theorem collaterals_remove : (man.remove vin).collaterals.Sublist man.collaterals :=
  List.eraseP_sublist.map _

theorem collaterals_addChecked (env : MasternodeEnv) (man : CMasternodeMan) (b : CMasternodeBroadcast) :
    (man.addChecked env b).2.collaterals = man.collaterals ∨
      (man.addChecked env b).1 = true ∧ b.collateral ∉ man.collaterals ∧
        (man.addChecked env b).2.collaterals = man.collaterals ++ [b.collateral] := by
  unfold addChecked
  split_ifs
  · exact .inl rfl
  · exact .inl rfl
  · exact .inl rfl
  · exact .inl rfl
  · rcases collaterals_add man (.ofBroadcast b) with heq | ⟨hnew, heq⟩
    · exact .inl heq
    · exact .inr ⟨rfl, hnew, heq⟩

/-- A message `mnb` gets to the end of `CheckInputsAndAdd`. -/
structure Adds (signer : MessageSigner) (env : MasternodeEnv) (man : CMasternodeMan) (b : CMasternodeBroadcast) : Prop where
  listens : env.listens = true
  unseen : (man.mapSeenMasternodeBroadcast b.getHash).isSome = false
  valid : ((man.see b).checkAndUpdate signer env b).1 = true
  associated : env.isInputAssociatedWithPubkey b = true
  foreign : env.isOwn b = false
  pinged : b.lastPing.isNull = false
  signed : ((man.see b).checkAndUpdate signer env b).2.checkPingTime signer env b.lastPing = true
  absent : ∀ pmn, ((man.see b).checkAndUpdate signer env b).2.find b.vin = some pmn → pmn.isEnabled = false
  checked : (man.addChecked env b).1 = true

theorem addChecked_fst (man₁ man₂ : CMasternodeMan) : (man₁.addChecked env b).1 = (man₂.addChecked env b).1 := by
  unfold addChecked
  split_ifs <;> rfl

theorem collaterals_mnb (signer : MessageSigner) (env : MasternodeEnv) (man : CMasternodeMan) (b : CMasternodeBroadcast) :
    (man.mnb signer env b).collaterals.Sublist man.collaterals ∨
      man.Adds signer env b ∧ ∃ os, os.Sublist man.collaterals ∧ b.collateral ∉ os ∧
        (man.mnb signer env b).collaterals = os ++ [b.collateral] := by
  have hfirst : ((man.see b).checkAndUpdate signer env b).2.collaterals = man.collaterals := collaterals_checkAndUpdate
  unfold mnb
  dsimp only
  split_ifs with hlisten hseen hvalid hassoc
  · exact .inl (List.Sublist.refl _)
  · exact .inl (List.Sublist.refl _)
  · exact .inl (hfirst ▸ List.Sublist.refl _)
  · exact .inl (hfirst ▸ List.Sublist.refl _)
  · unfold checkInputsAndAdd
    split_ifs with hown hping
    · exact .inl (hfirst ▸ List.Sublist.refl _)
    · exact .inl (hfirst ▸ List.Sublist.refl _)
    · have hping : b.lastPing.isNull = false ∧
          ((man.see b).checkAndUpdate signer env b).2.checkPingTime signer env b.lastPing = true := by simpa using hping
      have hadds : (∀ pmn, ((man.see b).checkAndUpdate signer env b).2.find b.vin = some pmn → pmn.isEnabled = false) →
          (man.addChecked env b).1 = true → man.Adds signer env b := fun habsent hchecked =>
        ⟨by simpa using hlisten, Bool.eq_false_iff.mpr hseen, by simpa using hvalid, by simpa using hassoc,
          Bool.eq_false_iff.mpr hown, hping.1, hping.2, habsent, hchecked⟩
      generalize hman : ((man.see b).checkAndUpdate signer env b).2 = man₁ at *
      cases hfind : man₁.find b.vin with
      | none =>
        dsimp only
        rcases collaterals_addChecked env man₁ b with heq | ⟨hok, hnew, heq⟩
        · exact .inl (heq ▸ hfirst ▸ List.Sublist.refl _)
        · refine .inr ⟨hadds (fun pmn hpmn => ?_) ((addChecked_fst man man₁).trans hok), man₁.collaterals,
            hfirst ▸ List.Sublist.refl _, hnew, heq⟩
          rw [hfind] at hpmn
          cases hpmn
      | some pmn =>
        dsimp only
        split_ifs with henabled
        · exact .inl (hfirst ▸ List.Sublist.refl _)
        · have hsub : (man₁.remove pmn.vin).collaterals.Sublist man.collaterals := hfirst ▸ collaterals_remove
          rcases collaterals_addChecked env (man₁.remove pmn.vin) b with heq | ⟨hok, hnew, heq⟩
          · exact .inl (heq ▸ hsub)
          · refine .inr ⟨hadds (fun pmn' hpmn => ?_) ((addChecked_fst man _).trans hok), _, hsub, hnew, heq⟩
            rw [hfind] at hpmn
            cases hpmn
            exact Bool.eq_false_iff.mpr henabled

/-! ## The entry that is added -/

theorem not_mem_collaterals_remove (hnodup : man.collaterals.Nodup) (hmem : pmn ∈ man.vMasternodes) :
    pmn.collateral ∉ (man.remove pmn.vin).collaterals := by
  obtain ⟨mn, l₁, l₂, -, heq, hl, herase⟩ := List.exists_of_eraseP (p := fun mn => decide (mn.vin = pmn.vin)) hmem
    (decide_eq_true rfl)
  have hvin : mn.vin = pmn.vin := of_decide_eq_true heq
  have hcol : pmn.collateral = mn.collateral := congrArg CTxIn.prevout hvin.symm
  unfold collaterals at hnodup
  rw [hl, List.map_append, List.map_cons] at hnodup
  have hrest := (List.nodup_middle.mp hnodup).notMem
  unfold remove collaterals
  rw [herase, List.map_append, hcol]
  exact hrest

theorem mem_addChecked (hfind : man.find b.vin = none) (hok : (man.addChecked env b).1 = true) :
    (man.addChecked env b).2.vMasternodes = man.vMasternodes ++ [.ofBroadcast b] := by
  unfold addChecked at hok ⊢
  split_ifs at hok ⊢
  have hvin : man.find (CMasternode.ofBroadcast b).vin = none := hfind
  unfold add
  rw [hvin]
  rfl

theorem mem_mnb_of_adds (hnodup : man.collaterals.Nodup) (hadds : man.Adds signer env b) :
    .ofBroadcast b ∈ (man.mnb signer env b).vMasternodes := by
  have hfirst : ((man.see b).checkAndUpdate signer env b).2.collaterals = man.collaterals := collaterals_checkAndUpdate
  have habsent := hadds.absent
  unfold mnb checkInputsAndAdd
  simp only [hadds.listens, hadds.unseen, hadds.valid, hadds.associated, hadds.foreign, hadds.pinged, hadds.signed,
    Bool.not_true, Bool.false_eq_true, if_false, Bool.or_self]
  generalize ((man.see b).checkAndUpdate signer env b).2 = man₁ at *
  cases hfind : man₁.find b.vin with
  | none =>
    dsimp only
    rw [mem_addChecked hfind ((addChecked_fst man₁ man).trans hadds.checked)]
    exact List.mem_append_right _ List.mem_cons_self
  | some pmn =>
    simp only [habsent pmn hfind, Bool.false_eq_true, if_false]
    -- The entry that is there is not enabled, and makes room.
    have hroom : (man₁.remove pmn.vin).find b.vin = none := by
      rw [find_eq_none_iff, ← collateral_of_find hfind]
      exact not_mem_collaterals_remove (hfirst ▸ hnodup) (mem_of_find hfind)
    rw [mem_addChecked hroom ((addChecked_fst _ man).trans hadds.checked)]
    exact List.mem_append_right _ List.mem_cons_self

/-! ## Runs -/

theorem nodup_concat {os : List COutPoint} (hnodup : os.Nodup) (hnew : o ∉ os) : (os ++ [o]).Nodup := by
  rw [← List.concat_eq_append]
  exact hnodup.concat hnew

theorem nodup_checkAndRemove (hnodup : man.collaterals.Nodup) (forceExpiredRemoval : Bool) :
    (man.checkAndRemove env forceExpiredRemoval).collaterals.Nodup := by
  have hsame : (man.vMasternodes.map fun mn => mn.check env false).map (·.collateral) = man.collaterals := by
    rw [List.map_map]
    exact List.map_congr_left fun mn _ => CMasternode.collateral_check false
  rw [← hsame] at hnodup
  exact hnodup.sublist (List.filter_sublist.map _)

theorem nodup_step (hnodup : man.collaterals.Nodup) (op : MasternodeOp) : (man.step signer op).collaterals.Nodup := by
  cases op with
  | mnb env b =>
    rcases collaterals_mnb signer env man b with hsub | ⟨-, os, hsub, hnew, heq⟩
    · exact hnodup.sublist hsub
    · rw [step, heq]
      exact nodup_concat (hnodup.sublist hsub) hnew
  | mnp env ping =>
    dsimp only [step]
    unfold mnp
    split_ifs
    · exact hnodup
    · exact hnodup
    · rw [collaterals_checkAndUpdatePing]
      exact hnodup
  | dseg env vin =>
    unfold collaterals
    rw [step, vMasternodes_dseg]
    exact hnodup
  | updateMasternodeList env b =>
    dsimp only [step]
    unfold updateMasternodeList
    dsimp only
    generalize hman : CMasternodeMan.mk _ _ _ = man₁
    have hnodup₁ : man₁.collaterals.Nodup := by
      rw [← hman]
      exact hnodup
    cases man₁.find b.vin with
    | none =>
      rcases collaterals_add man₁ (.ofBroadcast b) with heq | ⟨hnew, heq⟩
      · exact heq ▸ hnodup₁
      · exact heq ▸ nodup_concat hnodup₁ hnew
    | some pmn =>
      dsimp only
      rw [collaterals_updateFromNewBroadcast]
      exact hnodup₁
  | checkAndRemove env force => exact nodup_checkAndRemove hnodup force
  | reload env =>
    have hsame : (man.vMasternodes.map reloadEntry).map (·.collateral) = man.collaterals := by
      rw [List.map_map]
      rfl
    have hnodup₁ : collaterals { man with vMasternodes := man.vMasternodes.map reloadEntry } |>.Nodup := by
      unfold collaterals
      rw [hsame]
      exact hnodup
    exact nodup_checkAndRemove hnodup₁ true

theorem nodup_run : ∀ (ops : List MasternodeOp) {man : CMasternodeMan}, man.collaterals.Nodup →
    (man.run signer ops).collaterals.Nodup
  | [], _, hnodup => hnodup
  | op :: ops, _, hnodup => nodup_run ops (nodup_step hnodup op)

end CMasternodeMan

/-! ## Owners -/

namespace MasternodeEnv

variable {env : MasternodeEnv} {b : CMasternodeBroadcast}

/-- `IsInputAssociatedWithPubkey` stops at the output with this number. -/
def FindsKeyAt (env : MasternodeEnv) (b : CMasternodeBroadcast) (n : Nat) : Prop :=
  ∃ txVin out, env.getTransaction b.vin.prevout.hash = some txVin ∧ txVin.vout[n]? = some out ∧
    out.nValue = 12000 * COIN ∧ out.scriptPubKey = env.getScriptForKey b.pubKeyCollateralAddress

/-- The collateral is unspent, has 12000 coins and pays to the key of the broadcast. -/
structure OwnsCollateral (env : MasternodeEnv) (b : CMasternodeBroadcast) : Prop where
  unspent : (env.view.coins b.collateral.hash).isAvailable b.collateral.n = true
  value : ((env.view.coins b.collateral.hash).out b.collateral.n).nValue = 12000 * COIN
  script : ((env.view.coins b.collateral.hash).out b.collateral.n).scriptPubKey =
    env.getScriptForKey b.pubKeyCollateralAddress

theorem isInputAssociatedWithPubkey_iff : env.isInputAssociatedWithPubkey b = true ↔ ∃ n, env.FindsKeyAt b n := by
  unfold isInputAssociatedWithPubkey FindsKeyAt
  cases env.getTransaction b.vin.prevout.hash with
  | none => simp
  | some txVin =>
    simp only [List.any_eq_true, Bool.and_eq_true, beq_iff_eq, Option.some.injEq, List.mem_iff_getElem?]
    constructor
    · rintro ⟨out, ⟨n, hn⟩, hvalue, hscript⟩
      exact ⟨n, txVin, out, rfl, hn, hvalue, hscript⟩
    · rintro ⟨n, _, out, rfl, hn, hvalue, hscript⟩
      exact ⟨out, ⟨n, hn⟩, hvalue, hscript⟩

theorem isAvailable_of_acceptableInputs {vin : CTxIn} (hok : env.acceptableInputs (env.collateralTx vin) = true) :
    (env.view.coins vin.prevout.hash).isAvailable vin.prevout.n = true := by
  simp only [acceptableInputs, Bool.and_eq_true, and_assoc] at hok
  obtain ⟨-, hbase, -, -, -, -, -, hhave, -⟩ := hok
  unfold CoinsView.haveInputs at hhave
  rw [Bool.not_eq_true'] at hbase
  rw [hbase, Bool.false_or, List.all_eq_true] at hhave
  exact hhave vin List.mem_cons_self

theorem ownsCollateral_iff (hunspent : (env.view.coins b.collateral.hash).isAvailable b.collateral.n = true)
    (hassoc : env.isInputAssociatedWithPubkey b = true) : env.OwnsCollateral b ↔ env.FindsKeyAt b b.collateral.n := by
  obtain ⟨-, txVin, -, htx, -⟩ := isInputAssociatedWithPubkey_iff.mp hassoc
  have hout := env.coins_getTransaction _ txVin _ htx hunspent
  constructor
  · intro howns
    exact ⟨txVin, _, htx, hout, howns.value, howns.script⟩
  · rintro ⟨txVin', out, htx', hout', hvalue, hscript⟩
    rw [htx] at htx'
    cases htx'
    rw [hout] at hout'
    cases hout'
    exact ⟨hunspent, hvalue, hscript⟩

end MasternodeEnv

namespace CMasternodeMan

theorem isAvailable_of_adds {signer : MessageSigner} {env : MasternodeEnv} {man : CMasternodeMan}
    {b : CMasternodeBroadcast} (hadds : man.Adds signer env b) :
    (env.view.coins b.collateral.hash).isAvailable b.collateral.n = true := by
  have hok := hadds.checked
  unfold addChecked at hok
  split_ifs at hok with hlock hinputs hage htime
  refine MasternodeEnv.isAvailable_of_acceptableInputs ?_
  simpa using hinputs

/-- In each state that a run reaches the entries have different collaterals, and an entry that a message `mnb` adds owns its
collateral exactly if the announced output is itself one in which the key is found. -/
theorem collateral_owned_iff (signer : MessageSigner) (ops : List MasternodeOp) :
    (empty.run signer ops).collaterals.Nodup ∧ ∀ env b, (empty.run signer ops).Adds signer env b →
      .ofBroadcast b ∈ ((empty.run signer ops).mnb signer env b).vMasternodes ∧
        (env.OwnsCollateral b ↔ env.FindsKeyAt b b.collateral.n) := by
  have hnodup : (empty.run signer ops).collaterals.Nodup := nodup_run ops List.nodup_nil
  refine ⟨hnodup, fun env b hadds => ⟨mem_mnb_of_adds hnodup hadds, ?_⟩⟩
  exact MasternodeEnv.ownsCollateral_iff (isAvailable_of_adds hadds) hadds.associated

theorem absent_of_find {man : CMasternodeMan} {vin : CTxIn} (hfind : man.find vin = none) :
    ∀ pmn, man.find vin = some pmn → pmn.isEnabled = false := by
  intro pmn hpmn
  rw [hfind] at hpmn
  cases hpmn

theorem collateral_owned_iff_twice :
    .ofBroadcast (sampleBroadcast 1 3 2000 2000 1) ∈ ((empty.run sampleSigner (announceTwice 0)).mnb sampleSigner
      (sampleNode 2600) (sampleBroadcast 1 3 2000 2000 1)).vMasternodes ∧
    ((sampleNode 2600).OwnsCollateral (sampleBroadcast 1 3 2000 2000 1) ↔
      (sampleNode 2600).FindsKeyAt (sampleBroadcast 1 3 2000 2000 1) 1) := by
  refine (collateral_owned_iff sampleSigner (announceTwice 0)).2 (sampleNode 2600) (sampleBroadcast 1 3 2000 2000 1) ?_
  exact ⟨by decide, by decide +kernel, by decide +kernel, by decide, by decide,
    by decide, by decide +kernel, absent_of_find (by decide +kernel), by decide⟩

/-- The owner of one output of a transaction announces another output of it. -/
theorem collateral_not_owned : ¬ ∀ (signer : MessageSigner) (ops : List MasternodeOp) (env : MasternodeEnv)
    (b : CMasternodeBroadcast), (empty.run signer ops).Adds signer env b → env.OwnsCollateral b := by
  intro h
  have hadds : (empty.run sampleSigner []).Adds sampleSigner (sampleNode 1000) (sampleBroadcast 1 1 1000 1000 1) := by
    exact ⟨by decide, by decide, by decide +kernel, by decide, by decide,
      by decide, by decide +kernel, absent_of_find (by decide +kernel), by decide⟩
  have hscript := (h _ _ _ _ hadds).script
  revert hscript
  decide

end CMasternodeMan

end DigiWage
