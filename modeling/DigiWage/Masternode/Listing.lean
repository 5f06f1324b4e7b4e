import DigiWage.Masternode.Collateral

/-!
# Orders of announcements

Announcements of different masternodes, each of which a node would list, delivered in any order. A broadcast is taken as seen
when one with the same `sigTime` and the same key of the collateral was there before, and the masternodes that are listed
by then check the ping that it carries.

* `Acceptable`: the three stages that a message `mnb` goes through accept the broadcast.
-/

namespace DigiWage

namespace CMasternodeMan

variable {signer : MessageSigner} {env : MasternodeEnv} {m₀ man : CMasternodeMan} {b p q : CMasternodeBroadcast}
  {done msgs : List CMasternodeBroadcast} {o : COutPoint}

/-- A broadcast of a masternode that is not known, which passes `CheckAndUpdate`, `IsInputAssociatedWithPubkey` and
`CheckInputsAndAdd`, and is not the node's own. -/
structure Acceptable (signer : MessageSigner) (man : CMasternodeMan) (env : MasternodeEnv) (b : CMasternodeBroadcast) :
    Prop where
  listens : env.listens = true
  unseen : man.mapSeenMasternodeBroadcast b.getHash = none
  unlisted : man.find b.vin = none
  updates : (man.checkAndUpdate signer env b).1 = true
  associated : env.isInputAssociatedWithPubkey b = true
  foreign : env.isOwn b = false
  adds : (man.checkInputsAndAdd signer env b).1 = true

/-- The messages `mnb`, one after the other. -/
def deliver (signer : MessageSigner) (man : CMasternodeMan) (l : List (MasternodeEnv × CMasternodeBroadcast)) :
    CMasternodeMan := man.run signer (l.map fun m => .mnb m.1 m.2)

/-- The hashes differ, and a ping that names another masternode is signed by it. -/
structure Compatible (signer : MessageSigner) (msgs : List CMasternodeBroadcast) : Prop where
  hashes : (msgs.map CMasternodeBroadcast.getHash).Nodup
  pings : ∀ p ∈ msgs, ∀ q ∈ msgs, p ≠ q → p.lastPing.vin.prevout = q.collateral →
    signer.checkPingSignature p.lastPing q.pubKeyMasternode = true

/-- The broadcasts were added, one after the other. -/
structure Delivered (m₀ : CMasternodeMan) (done : List CMasternodeBroadcast) (man : CMasternodeMan) : Prop where
  list : man.vMasternodes = m₀.vMasternodes ++ done.map .ofBroadcast
  seen : ∀ k, (man.mapSeenMasternodeBroadcast k).isSome = true ↔
    (m₀.mapSeenMasternodeBroadcast k).isSome = true ∨ k ∈ done.map CMasternodeBroadcast.getHash

/-! ## One message -/

theorem isValidBroadcast_of_checkAndUpdate (hok : (man.checkAndUpdate signer env b).1 = true) :
    man.isValidBroadcast signer env b = true := by
  unfold checkAndUpdate at hok
  split at hok
  · cases hok
  · rename_i hvalid
    simpa using hvalid

theorem Acceptable.valid (hacc : man.Acceptable signer env b) : man.isValidBroadcast signer env b = true :=
  isValidBroadcast_of_checkAndUpdate hacc.updates

theorem isValidBroadcast_of (hvalid : m₀.isValidBroadcast signer env b = true)
    (hping : ∀ pmn, man.find b.lastPing.vin = some pmn →
      signer.checkPingSignature b.lastPing pmn.pubKeyMasternode = true) :
    man.isValidBroadcast signer env b = true := by
  have hall : ((man.find b.lastPing.vin).all fun pmn => signer.checkPingSignature b.lastPing pmn.pubKeyMasternode) =
      true := by
    cases hfind : man.find b.lastPing.vin with
    | none => rfl
    | some pmn => exact hping pmn hfind
  simp only [isValidBroadcast, checkPingTime, Bool.and_eq_true, and_assoc] at hvalid ⊢
  obtain ⟨htime, hnull, hpingTime, -, hrest⟩ := hvalid
  exact ⟨htime, hnull, hpingTime, hall, hrest⟩

theorem Acceptable.checked (hacc : man.Acceptable signer env b) : (man.addChecked env b).1 = true := by
  have hok := hacc.adds
  unfold checkInputsAndAdd at hok
  simp only [hacc.foreign, hacc.unlisted, Bool.false_eq_true, if_false] at hok
  split_ifs at hok
  exact hok

theorem Acceptable.mnb (hacc : m₀.Acceptable signer env b)
    (hseen : (man.mapSeenMasternodeBroadcast b.getHash).isSome = false) (hfind : man.find b.vin = none)
    (hping : ∀ pmn, man.find b.lastPing.vin = some pmn →
      signer.checkPingSignature b.lastPing pmn.pubKeyMasternode = true) :
    man.mnb signer env b = { man.see b with vMasternodes := man.vMasternodes ++ [.ofBroadcast b] } := by
  have hvalid : (man.see b).isValidBroadcast signer env b = true := isValidBroadcast_of hacc.valid hping
  have hupdate : (man.see b).checkAndUpdate signer env b = (true, man.see b) := by
    have hfind' : (man.see b).find b.vin = none := hfind
    unfold checkAndUpdate
    rw [hvalid, hfind']
    rfl
  have hchecks : b.lastPing.isNull = false ∧ (man.see b).checkPingTime signer env b.lastPing = true := by
    simp only [isValidBroadcast, Bool.and_eq_true, and_assoc, Bool.not_eq_true'] at hvalid
    exact ⟨hvalid.2.1, hvalid.2.2.1⟩
  have hadd : (man.see b).addChecked env b = (true, (man.see b).add (.ofBroadcast b)) := by
    have hok := (addChecked_fst (man.see b) m₀).trans hacc.checked
    unfold addChecked at hok ⊢
    split_ifs at hok ⊢
    rfl
  have hnew : (man.see b).add (.ofBroadcast b) = { man.see b with vMasternodes := man.vMasternodes ++ [.ofBroadcast b] } := by
    have hfind' : (man.see b).find (CMasternode.ofBroadcast b).vin = none := hfind
    unfold add
    rw [hfind']
    rfl
  have hfind' : (man.see b).find b.vin = none := hfind
  unfold CMasternodeMan.mnb checkInputsAndAdd
  simp only [hacc.listens, hseen, hupdate, hacc.associated, hacc.foreign, hchecks.1, hchecks.2, hfind', hadd, hnew,
    Bool.not_true, Bool.false_eq_true, if_false, Bool.or_self]

theorem vMasternodes_mnb_of_rejected (env : MasternodeEnv) {pmn : CMasternode} (hfind : man.find b.lastPing.vin = some pmn)
    (hping : signer.checkPingSignature b.lastPing pmn.pubKeyMasternode = false) :
    (man.mnb signer env b).vMasternodes = man.vMasternodes := by
  have hpingTime : (man.see b).checkPingTime signer env b.lastPing = false := by
    have hfind' : (man.see b).find b.lastPing.vin = some pmn := hfind
    unfold checkPingTime
    rw [hfind', Option.all_some, hping, Bool.and_false]
  have hvalid : (man.see b).isValidBroadcast signer env b = false := by
    unfold isValidBroadcast
    simp only [hpingTime, Bool.and_false, Bool.false_and]
  unfold mnb checkAndUpdate
  simp only [hvalid, Bool.not_false, if_true]
  split_ifs
  · rfl
  · rfl
  · rfl

theorem mnb_of_seen (hseen : (man.mapSeenMasternodeBroadcast b.getHash).isSome = true) : man.mnb signer env b = man := by
  unfold mnb
  simp only [hseen, if_true, ite_self]

/-! ## All of them -/

theorem Delivered.find_cases (hman : m₀.Delivered done man) {vin : CTxIn} {pmn : CMasternode}
    (hfind : man.find vin = some pmn) :
    m₀.find vin = some pmn ∨ ∃ q ∈ done, q.collateral = vin.prevout ∧ pmn = .ofBroadcast q := by
  unfold find at hfind ⊢
  rw [hman.list, List.find?_append, Option.or_eq_some_iff] at hfind
  rcases hfind with hfind | ⟨-, hfind⟩
  · exact .inl hfind
  · obtain ⟨q, hq, rfl⟩ := List.mem_map.mp (List.mem_of_find?_eq_some hfind)
    have hcol := List.find?_some hfind
    exact .inr ⟨q, hq, of_decide_eq_true hcol, rfl⟩

theorem Delivered.step (hman : m₀.Delivered done man) (hacc : m₀.Acceptable signer env b)
    (hnew : b.collateral ∉ done.map (·.collateral)) (hhash : b.getHash ∉ done.map CMasternodeBroadcast.getHash)
    (hping : ∀ q ∈ done, b.lastPing.vin.prevout = q.collateral →
      signer.checkPingSignature b.lastPing q.pubKeyMasternode = true) :
    m₀.Delivered (done ++ [b]) (man.mnb signer env b) := by
  have hseen : (man.mapSeenMasternodeBroadcast b.getHash).isSome = false := by
    rw [Bool.eq_false_iff, ne_eq, hman.seen]
    rintro (hseen | hseen)
    · rw [hacc.unseen] at hseen
      cases hseen
    · exact hhash hseen
  have hfind : man.find b.vin = none := by
    rw [Option.eq_none_iff_forall_ne_some]
    intro pmn hpmn
    rcases hman.find_cases hpmn with hpmn | ⟨q, hq, hcol, -⟩
    · rw [hacc.unlisted] at hpmn
      cases hpmn
    · exact hnew (List.mem_map.mpr ⟨q, hq, hcol⟩)
  have hsigned : ∀ pmn, man.find b.lastPing.vin = some pmn →
      signer.checkPingSignature b.lastPing pmn.pubKeyMasternode = true := by
    intro pmn hpmn
    rcases hman.find_cases hpmn with hpmn | ⟨q, hq, hcol, rfl⟩
    · have hvalid := hacc.valid
      simp only [isValidBroadcast, checkPingTime, hpmn, Option.all_some, Bool.and_eq_true, and_assoc] at hvalid
      exact hvalid.2.2.2.1
    · exact hping q hq hcol.symm
  rw [hacc.mnb hseen hfind hsigned]
  constructor
  · dsimp only
    rw [hman.list, List.map_append, List.map_singleton, List.append_assoc]
  · intro k
    unfold see
    dsimp only
    rw [List.map_append, List.mem_append, List.map_singleton, List.mem_singleton, ← or_assoc, ← hman.seen]
    by_cases hk : k = b.getHash
    · subst hk
      simp
    · simp [hk]

theorem Delivered.deliver : ∀ (l : List (MasternodeEnv × CMasternodeBroadcast)) {done : List CMasternodeBroadcast}
    {man : CMasternodeMan}, m₀.Delivered done man → (∀ m ∈ l, m₀.Acceptable signer m.1 m.2) →
    ((done ++ l.map Prod.snd).map (·.collateral)).Nodup → Compatible signer (done ++ l.map Prod.snd) →
    m₀.Delivered (done ++ l.map Prod.snd) (man.deliver signer l)
  | [], done, man, hman, _, _, _ => by
    rw [List.map_nil, List.append_nil]
    exact hman
  | (env, b) :: l, done, man, hman, hacc, hcols, hcomp => by
    have hsplit : done ++ ((env, b) :: l).map Prod.snd = (done ++ [b]) ++ l.map Prod.snd := by
      rw [List.map_cons, List.append_assoc, List.singleton_append]
    rw [hsplit] at hcols hcomp ⊢
    have hnew : b.collateral ∉ done.map (·.collateral) := by
      have h := (List.nodup_append.mp (List.map_append ▸ hcols)).1
      rw [List.map_append, List.map_singleton, ← List.concat_eq_append, List.nodup_concat] at h
      exact h.1
    have hhash : b.getHash ∉ done.map CMasternodeBroadcast.getHash := by
      have h := (List.nodup_append.mp (List.map_append ▸ hcomp.hashes)).1
      rw [List.map_append, List.map_singleton, ← List.concat_eq_append, List.nodup_concat] at h
      exact h.1
    have hb : b ∈ (done ++ [b]) ++ l.map Prod.snd := List.mem_append_left _ (List.mem_append_right _ List.mem_cons_self)
    have hnext : m₀.Delivered (done ++ [b]) (man.mnb signer env b) := by
      refine hman.step (hacc _ List.mem_cons_self) hnew hhash fun q hq hname => ?_
      refine hcomp.pings b hb q (List.mem_append_left _ (List.mem_append_left _ hq)) (fun heq => ?_) hname
      subst heq
      exact hnew (List.mem_map_of_mem hq)
    exact hnext.deliver l (fun m hm => hacc m (List.mem_cons_of_mem _ hm)) hcols hcomp

theorem delivered_nil : m₀.Delivered [] m₀ := by
  constructor
  · rw [List.map_nil, List.append_nil]
  · intro k
    simp

theorem not_mem_deliver : ∀ (l : List (MasternodeEnv × CMasternodeBroadcast)) (man : CMasternodeMan), o ∉ man.collaterals →
    (∀ m ∈ l, m.2.collateral ≠ o) → o ∉ (man.deliver signer l).collaterals
  | [], _, hout, _ => hout
  | (env, b) :: l, man, hout, hother => by
    refine not_mem_deliver l (man.mnb signer env b) ?_ fun m hm => hother m (List.mem_cons_of_mem _ hm)
    rcases collaterals_mnb signer env man b with hsub | ⟨-, os, hsub, -, heq⟩
    · exact fun hmem => hout (hsub.mem hmem)
    · rw [heq, List.mem_append, List.mem_singleton]
      rintro (hmem | hmem)
      · exact hout (hsub.mem hmem)
      · exact hother (env, b) List.mem_cons_self hmem.symm

/-! ## Orders -/

theorem exists_delivery : ∀ (msgs : List CMasternodeBroadcast), (∀ b ∈ msgs, ∃ env, m₀.Acceptable signer env b) →
    ∃ l : List (MasternodeEnv × CMasternodeBroadcast), l.map Prod.snd = msgs ∧ ∀ m ∈ l, m₀.Acceptable signer m.1 m.2
  | [], _ => ⟨[], rfl, fun m hm => by cases hm⟩
  | b :: msgs, h => by
    obtain ⟨env, henv⟩ := h b List.mem_cons_self
    obtain ⟨l, hl, hacc⟩ := exists_delivery msgs fun b hb => h b (List.mem_cons_of_mem _ hb)
    refine ⟨(env, b) :: l, by rw [List.map_cons, hl], fun m hm => ?_⟩
    rcases List.mem_cons.mp hm with rfl | hm
    · exact henv
    · exact hacc m hm

/-- Every order of the messages lists all masternodes. -/
def Converges (signer : MessageSigner) (m₀ : CMasternodeMan) (msgs : List CMasternodeBroadcast) : Prop :=
  ∀ l : List (MasternodeEnv × CMasternodeBroadcast), (l.map Prod.snd).Perm msgs →
    (∀ m ∈ l, m₀.Acceptable signer m.1 m.2) →
    ∀ b ∈ msgs, ∃ mn ∈ (m₀.deliver signer l).vMasternodes, mn.toCMasternodeBroadcast = b

theorem Converges.second (hconv : Converges signer m₀ msgs) (hcols : (msgs.map (·.collateral)).Nodup)
    (hacc : ∀ b ∈ msgs, ∃ env, m₀.Acceptable signer env b) (hp : p ∈ msgs) (hq : q ∈ msgs) (hne : p ≠ q) :
    ∃ e₁ e₂, m₀.Acceptable signer e₁ p ∧ m₀.Acceptable signer e₂ q ∧
      q.collateral ∈ ((m₀.mnb signer e₁ p).mnb signer e₂ q).collaterals := by
  have hperm : (p :: q :: (msgs.erase p).erase q).Perm msgs := by
    have hq' : q ∈ msgs.erase p := (List.mem_erase_of_ne hne.symm).mpr hq
    exact (((List.perm_cons_erase hq').cons p).symm).trans (List.perm_cons_erase hp).symm
  obtain ⟨l, hl, haccl⟩ := exists_delivery (p :: q :: (msgs.erase p).erase q) fun b hb => hacc b (hperm.mem_iff.mp hb)
  obtain ⟨⟨e₁, p'⟩, l₁, rfl, hp', hl₁⟩ := List.map_eq_cons_iff.mp hl
  obtain ⟨⟨e₂, q'⟩, l₂, rfl, hq', hl₂⟩ := List.map_eq_cons_iff.mp hl₁
  dsimp only at hp' hq'
  subst hp' hq'
  refine ⟨e₁, e₂, haccl _ List.mem_cons_self, haccl _ (List.mem_cons_of_mem _ List.mem_cons_self), ?_⟩
  by_contra hout
  obtain ⟨mn, hmn, rfl⟩ := hconv _ (hl ▸ hperm) haccl q' hq
  refine not_mem_deliver l₂ _ hout (fun m hm heq => ?_) (List.mem_map_of_mem hmn)
  have hnodup := (hperm.map (·.collateral)).nodup_iff.mpr hcols
  rw [List.map_cons, List.map_cons, List.nodup_cons, List.nodup_cons] at hnodup
  refine hnodup.2.1 (List.mem_map.mpr ⟨m.2, ?_, heq⟩)
  rw [← hl₂]
  exact List.mem_map_of_mem hm

theorem Delivered.collaterals_eq (hman : m₀.Delivered done man) :
    man.collaterals = m₀.collaterals ++ done.map (·.collateral) := by
  unfold collaterals
  rw [hman.list, List.map_append, List.map_map]
  rfl

theorem Acceptable.first (hacc : m₀.Acceptable signer env b) : m₀.Delivered [b] (m₀.mnb signer env b) :=
  delivered_nil.step hacc List.not_mem_nil List.not_mem_nil fun q hq => by cases hq

theorem not_mem_first {e : MasternodeEnv} (hp : m₀.Acceptable signer env p) (hq : m₀.Acceptable signer e q)
    (hne : p.collateral ≠ q.collateral) : q.collateral ∉ (m₀.mnb signer env p).collaterals := by
  rw [hp.first.collaterals_eq, List.mem_append, List.map_singleton, List.mem_singleton]
  rintro (hmem | heq)
  · exact find_eq_none_iff.mp hq.unlisted hmem
  · exact hne heq.symm

theorem Converges.compatible (hconv : Converges signer m₀ msgs) (hcols : (msgs.map (·.collateral)).Nodup)
    (hacc : ∀ b ∈ msgs, ∃ env, m₀.Acceptable signer env b) : Compatible signer msgs := by
  have hinj : ∀ p ∈ msgs, ∀ q ∈ msgs, p ≠ q → p.collateral ≠ q.collateral := fun p hp q hq hne heq =>
    hne (List.inj_on_of_nodup_map hcols hp hq heq)
  constructor
  · refine (List.nodup_map_iff_inj_on (List.Nodup.of_map _ hcols)).mpr fun p hp q hq hhash => ?_
    by_contra hne
    obtain ⟨e₁, e₂, hp₁, hq₂, hmem⟩ := hconv.second hcols hacc hp hq hne
    -- The second broadcast has the hash of the first.
    have hseen : ((m₀.mnb signer e₁ p).mapSeenMasternodeBroadcast q.getHash).isSome = true := by
      rw [hp₁.first.seen]
      exact .inr (List.mem_map.mpr ⟨p, List.mem_cons_self, hhash⟩)
    rw [mnb_of_seen hseen] at hmem
    exact not_mem_first hp₁ hq₂ (hinj p hp q hq hne) hmem
  · intro p hp q hq hne hname
    by_contra hsig
    obtain ⟨e₁, e₂, hq₁, hp₂, hmem⟩ := hconv.second hcols hacc hq hp hne.symm
    -- The first masternode rejects the ping of the second.
    have hfind : (m₀.mnb signer e₁ q).find p.lastPing.vin = some (.ofBroadcast q) := by
      have hnone : m₀.find p.lastPing.vin = none := by
        rw [find_eq_none_iff, hname, ← find_eq_none_iff]
        exact hq₁.unlisted
      unfold find at hnone ⊢
      rw [hq₁.first.list, List.find?_append, hnone, Option.none_or]
      exact List.find?_cons_of_pos (decide_eq_true hname.symm)
    have hsame := vMasternodes_mnb_of_rejected e₂ hfind (Bool.eq_false_iff.mpr hsig)
    unfold collaterals at hmem
    rw [hsame] at hmem
    exact not_mem_first hq₁ hp₂ (hinj q hq p hp hne.symm) hmem

/-- Acceptable broadcasts for different collaterals are all listed, whatever the order in which they come, exactly if they
have different hashes and no ping that names another of the masternodes is wrongly signed. -/
theorem list_converges_iff (signer : MessageSigner) (m₀ : CMasternodeMan) (msgs : List CMasternodeBroadcast)
    (hcols : (msgs.map (·.collateral)).Nodup) (hacc : ∀ b ∈ msgs, ∃ env, m₀.Acceptable signer env b) :
    Converges signer m₀ msgs ↔ Compatible signer msgs := by
  refine ⟨fun hconv => hconv.compatible hcols hacc, fun hcomp l hperm haccl b hb => ?_⟩
  have hcomp' : Compatible signer (l.map Prod.snd) :=
    ⟨(hperm.map _).nodup_iff.mpr hcomp.hashes, fun p hp q hq => hcomp.pings p (hperm.mem_iff.mp hp) q (hperm.mem_iff.mp hq)⟩
  have hend : m₀.Delivered ([] ++ l.map Prod.snd) (m₀.deliver signer l) :=
    delivered_nil.deliver l haccl ((hperm.map _).nodup_iff.mpr hcols) hcomp'
  refine ⟨.ofBroadcast b, ?_, rfl⟩
  rw [hend.list]
  exact List.mem_append_right _ (List.mem_map_of_mem (hperm.mem_iff.mpr hb))

theorem acceptable_sampleBroadcast {n : Nat} {key : UInt8} (h : (n, key) ∈ [(0, 1), (1, 3), (2, 1)]) :
    Acceptable sampleSigner empty (sampleNode 1000) (sampleBroadcast n key 1000 1000 1) := by
  simp only [List.mem_cons, Prod.mk.injEq, List.not_mem_nil, or_false] at h
  rcases h with ⟨rfl, rfl⟩ | ⟨rfl, rfl⟩ | ⟨rfl, rfl⟩ <;>
    exact ⟨by decide, rfl, rfl, by decide +kernel, by decide, by decide, by decide⟩

theorem list_converges_iff_two :
    Converges sampleSigner empty [sampleBroadcast 0 1 1000 1000 1, sampleBroadcast 1 3 1000 1000 1] := by
  refine (list_converges_iff sampleSigner empty _ (by decide) fun b hb => ⟨sampleNode 1000, ?_⟩).mpr
    ⟨by decide, by decide +kernel⟩
  simp only [List.mem_cons, List.not_mem_nil, or_false] at hb
  rcases hb with rfl | rfl
  · exact acceptable_sampleBroadcast (by decide)
  · exact acceptable_sampleBroadcast (by decide)

/-- An owner announces two masternodes in the same second. -/
def twins : List CMasternodeBroadcast := [sampleBroadcast 0 1 1000 1000 1, sampleBroadcast 2 1 1000 1000 1]

/-- The second of them is taken as seen. -/
theorem list_not_converges : ¬ ∀ (signer : MessageSigner) (m₀ : CMasternodeMan) (msgs : List CMasternodeBroadcast),
    (msgs.map (·.collateral)).Nodup → (∀ b ∈ msgs, ∃ env, m₀.Acceptable signer env b) → Converges signer m₀ msgs := by
  intro h
  have hacc : ∀ b ∈ twins, empty.Acceptable sampleSigner (sampleNode 1000) b := by
    intro b hb
    simp only [twins, List.mem_cons, List.not_mem_nil, or_false] at hb
    rcases hb with rfl | rfl
    · exact acceptable_sampleBroadcast (by decide)
    · exact acceptable_sampleBroadcast (by decide)
  have hconv := h sampleSigner empty twins (by decide) fun b hb => ⟨sampleNode 1000, hacc b hb⟩
  have hlisted := hconv (twins.map fun b => (sampleNode 1000, b)) (List.Perm.refl _) (fun m hm => ?_)
    (sampleBroadcast 2 1 1000 1000 1) (List.mem_cons_of_mem _ List.mem_cons_self)
  · revert hlisted
    decide +kernel
  · obtain ⟨b, hb, rfl⟩ := List.mem_map.mp hm
    exact hacc b hb

end CMasternodeMan

end DigiWage
