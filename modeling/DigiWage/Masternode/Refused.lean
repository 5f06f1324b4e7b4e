import DigiWage.Masternode.Resend

/-!
# Broadcasts that are refused

`CheckAndUpdate` and `CheckInputsAndAdd` of `masternode.cpp` when they return false.

* `CheckInputsAndAdd` removes an entry that is not enabled before its last checks (`FailsLate`).
-/

namespace DigiWage

namespace CMasternodeMan

variable {signer : MessageSigner} {env : MasternodeEnv} {man : CMasternodeMan} {b : CMasternodeBroadcast}
  {pmn : CMasternode}

theorem checkAndUpdate_refused (h : (man.checkAndUpdate signer env b).1 = false) :
    (man.checkAndUpdate signer env b).2 = man := by
  unfold checkAndUpdate at h ⊢
  split
  · rfl
  · rename_i hvalid
    rw [if_neg hvalid] at h
    cases hfind : man.find b.vin with
    | none => rfl
    | some pmn =>
      rw [hfind] at h
      dsimp only at h ⊢
      split_ifs at h ⊢
      all_goals rfl

/-- The checks of `CheckInputsAndAdd` from the lock on fail. -/
def FailsLate (env : MasternodeEnv) (b : CMasternodeBroadcast) : Prop :=
  env.lockMain = false ∨ env.acceptableInputs (env.collateralTx b.vin) = false ∨
    env.getInputAge b.vin < MASTERNODE_MIN_CONFIRMATIONS ∨
    (env.confirmedTime b.vin.prevout.hash).any (fun t => decide (b.sigTime < t)) = true

theorem addChecked_fst_iff : (man.addChecked env b).1 = false ↔ FailsLate env b := by
  unfold addChecked FailsLate
  cases hlock : env.lockMain with
  | false => simp
  | true =>
    cases hinputs : env.acceptableInputs (env.collateralTx b.vin) with
    | false => simp
    | true =>
      by_cases hage : env.getInputAge b.vin < MASTERNODE_MIN_CONFIRMATIONS
      · simp [hage]
      · cases htime : (env.confirmedTime b.vin.prevout.hash).any fun t => decide (b.sigTime < t) <;> simp [hage]

theorem addChecked_refused (h : (man.addChecked env b).1 = false) :
    (man.addChecked env b).2.vMasternodes = man.vMasternodes := by
  unfold addChecked at h ⊢
  split_ifs at h ⊢
  all_goals rfl

theorem length_remove (hmem : pmn ∈ man.vMasternodes) :
    (man.remove pmn.vin).vMasternodes.length < man.vMasternodes.length := by
  obtain ⟨mn, l₁, l₂, -, -, hl, herase⟩ := @List.exists_of_eraseP _ (fun mn => decide (mn.vin = pmn.vin)) _ _ hmem
    (decide_eq_true rfl)
  have hremove : (man.remove pmn.vin).vMasternodes = l₁ ++ l₂ := herase
  rw [hremove, hl]
  simp

/-- The broadcast takes the place of an entry that is not enabled, and then it is refused. -/
def Displaces (signer : MessageSigner) (env : MasternodeEnv) (man : CMasternodeMan) (b : CMasternodeBroadcast) : Prop :=
  env.isOwn b = false ∧ b.lastPing.isNull = false ∧ man.checkPingTime signer env b.lastPing = true ∧
    (∃ pmn, man.find b.vin = some pmn ∧ pmn.isEnabled = false) ∧ FailsLate env b

theorem checkInputsAndAdd_displaces (h : man.Displaces signer env b) : (man.checkInputsAndAdd signer env b).1 = false ∧
    (man.checkInputsAndAdd signer env b).2.vMasternodes.length < man.vMasternodes.length := by
  obtain ⟨hown, hnull, hping, ⟨pmn, hfind, henabled⟩, hlate⟩ := h
  have hmem : pmn ∈ man.vMasternodes := List.mem_of_find?_eq_some hfind
  have hcall : man.checkInputsAndAdd signer env b = (man.remove pmn.vin).addChecked env b := by
    unfold checkInputsAndAdd
    rw [if_neg (by simp [hown]), if_neg (by simp [hnull, hping]), hfind]
    dsimp only
    rw [if_neg (by simp [henabled])]
  have hrefused : ((man.remove pmn.vin).addChecked env b).1 = false := addChecked_fst_iff.mpr hlate
  rw [hcall, addChecked_refused hrefused]
  exact ⟨hrefused, length_remove hmem⟩

theorem checkInputsAndAdd_refused (hnot : ¬ man.Displaces signer env b)
    (h : (man.checkInputsAndAdd signer env b).1 = false) :
    (man.checkInputsAndAdd signer env b).2.vMasternodes = man.vMasternodes := by
  unfold checkInputsAndAdd at h ⊢
  split
  · rfl
  · rename_i hown
    rw [if_neg hown] at h
    split
    · rfl
    · rename_i hping
      rw [if_neg hping] at h
      cases hfind : man.find b.vin with
      | none =>
        rw [hfind] at h
        exact addChecked_refused h
      | some pmn =>
        rw [hfind] at h
        dsimp only at h ⊢
        split
        · rfl
        · rename_i henabled
          rw [if_neg henabled] at h
          have hping : b.lastPing.isNull = false ∧ man.checkPingTime signer env b.lastPing = true := by simpa using hping
          have hdisplaces : man.Displaces signer env b :=
            ⟨Bool.eq_false_iff.mpr hown, hping.1, hping.2, ⟨pmn, hfind, Bool.eq_false_iff.mpr henabled⟩,
              addChecked_fst_iff.mp h⟩
          exact absurd hdisplaces hnot

/-- **A refused broadcast changes no masternode** exactly when it is not refused after it took the place of an entry that
is not enabled. -/
theorem refused_keeps_iff (signer : MessageSigner) (env : MasternodeEnv) (man : CMasternodeMan)
    (b : CMasternodeBroadcast) :
    (((man.checkAndUpdate signer env b).1 = false →
        (man.checkAndUpdate signer env b).2.vMasternodes = man.vMasternodes) ∧
      ((man.checkInputsAndAdd signer env b).1 = false →
        (man.checkInputsAndAdd signer env b).2.vMasternodes = man.vMasternodes)) ↔
    ¬ man.Displaces signer env b := by
  constructor
  · rintro ⟨-, hkeeps⟩ hdisplaces
    obtain ⟨hrefused, hshorter⟩ := checkInputsAndAdd_displaces hdisplaces
    rw [hkeeps hrefused] at hshorter
    exact absurd hshorter (lt_irrefl _)
  · intro hnot
    constructor
    · intro h
      rw [checkAndUpdate_refused h]
    · exact checkInputsAndAdd_refused hnot

/-- A masternode that has just been announced, and then checked: it is pre-enabled. -/
def startedOps : List MasternodeOp :=
  [.mnb (sampleNode 1000) (sampleBroadcast 0 1 1000 1000 0), .checkAndRemove (sampleNode 1000) false]

/-- A new announcement of it arrives while `cs_main` is locked: it is refused, to be checked again later, and the
masternode is gone. -/
theorem not_refused_keeps : ¬ ∀ (signer : MessageSigner) (ops : List MasternodeOp) (env : MasternodeEnv)
    (b : CMasternodeBroadcast), ((empty.run signer ops).checkInputsAndAdd signer env b).1 = false →
      ((empty.run signer ops).checkInputsAndAdd signer env b).2.vMasternodes = (empty.run signer ops).vMasternodes := by
  intro h
  have hkeeps := h sampleSigner startedOps { sampleNode 1500 with lockMain := false } (sampleBroadcast 0 1 1500 1500 0)
    (by decide +kernel)
  have hlength := congrArg List.length hkeeps
  revert hlength
  decide +kernel

end CMasternodeMan

end DigiWage
