import DigiWage.Coins.Burned

/-!
# The coins of a chain

`chainCoins` is the coins view that connecting the blocks of a chain one after the other leaves. Two views have the same
coins when `CCoins::operator==` says so for every txid (`SameCoins`); `ConnectBlock` does the same on both
(`SameCoins.countTxs`), so that it takes a view with the coins of a chain to one with the coins of the longer chain.

`DisconnectBlock` takes it back, unless the block empties a coinstake entry (`sameCoins_disconnect_iff`).
-/

namespace DigiWage

open CoinsView

/-! ## The same coins -/

/-- The views have the same coins, to `CCoins::operator==`. -/
def SameCoins (v w : CoinsView) : Prop := ∀ x, CCoins.beq (w.coins x) (v.coins x) = true

theorem CCoins.beq_iff {c d : CCoins} : CCoins.beq d c = true ↔ (c.isPruned = true ∧ d.isPruned = true) ∨ d = c := by
  cases hc : c.isPruned with
  | true =>
    cases hd : d.isPruned with
    | true => simp [CCoins.beq_of_isPruned hd hc]
    | false =>
      rw [CCoins.beq_true_iff (Or.inl hd)]
      simp
  | false =>
    rw [CCoins.beq_true_iff (Or.inr hc)]
    simp

theorem restored_false_iff {c d : CCoins} : Restored false c d ↔ CCoins.beq d c = true := by
  rw [CCoins.beq_iff]
  unfold Restored
  cases hc : c.isPruned with
  | true =>
    simp only [↓reduceIte, true_and]
    refine ⟨Or.inl, fun h => h.elim id ?_⟩
    rintro rfl
    exact hc
  | false => simp

namespace SameCoins

variable {u v w v₁ : CoinsView}

theorem refl (v : CoinsView) : SameCoins v v := fun _ => CCoins.beq_refl _

theorem isPruned (h : SameCoins v w) (x : Uint256) : (w.coins x).isPruned = (v.coins x).isPruned := by
  rcases CCoins.beq_iff.mp (h x) with ⟨hv, hw⟩ | heq
  · rw [hv, hw]
  · rw [heq]

theorem eq (h : SameCoins v w) {x : Uint256} (hx : (v.coins x).isPruned = false) : w.coins x = v.coins x := by
  rcases CCoins.beq_iff.mp (h x) with ⟨hv, -⟩ | heq
  · rw [hx] at hv
    cases hv
  · exact heq

theorem symm (h : SameCoins v w) : SameCoins w v := by
  intro x
  rcases CCoins.beq_iff.mp (h x) with ⟨hv, hw⟩ | heq
  · exact CCoins.beq_of_isPruned hv hw
  · rw [heq]
    exact CCoins.beq_refl _

theorem trans (h₁ : SameCoins u v) (h₂ : SameCoins v w) : SameCoins u w := by
  intro x
  rw [CCoins.beq_iff]
  cases hu : (u.coins x).isPruned with
  | true => exact Or.inl ⟨rfl, by rw [h₂.isPruned, h₁.isPruned, hu]⟩
  | false => exact Or.inr ((h₂.eq (by rw [h₁.isPruned, hu])).trans (h₁.eq hu))

theorem sim (h : SameCoins v w) : Sim v w := by
  intro x
  rcases CCoins.beq_iff.mp (h x) with hpruned | heq
  · exact Or.inl hpruned
  · exact Or.inr ⟨(v.coins x).fCoinStake, heq⟩

theorem modifyCoins (h : SameCoins v w) (txid : Uint256) (c : CCoins) :
    SameCoins (v.modifyCoins txid fun _ => c) (w.modifyCoins txid fun _ => c) := by
  intro x
  by_cases hx : x = txid
  · subst hx
    rw [modifyCoins_self, modifyCoins_self]
    exact CCoins.beq_refl _
  · rw [modifyCoins_of_ne _ _ hx, modifyCoins_of_ne _ _ hx]
    exact h x

theorem spendInput (h : SameCoins v w) {o : COutPoint} {undo : CTxInUndo} (hv : v.spendInput o = some (undo, v₁)) :
    ∃ w₁, w.spendInput o = some (undo, w₁) ∧ SameCoins v₁ w₁ := by
  obtain ⟨hn, rfl, rfl⟩ := spendInput_some hv
  have heq := h.eq (CCoins.not_isPruned_of_out hn)
  have hw := spendInput_of_out (show ((w.coins o.hash).out o.n).isNull = false by rw [heq]; exact hn)
  rw [heq] at hw
  refine ⟨_, hw, fun x => ?_⟩
  by_cases hx : x = o.hash
  · subst hx
    rw [modifyCoins_self, modifyCoins_self, heq]
    exact CCoins.beq_refl _
  · rw [modifyCoins_of_ne _ _ hx, modifyCoins_of_ne _ _ hx]
    exact h x

theorem spendInputs : ∀ {os : List COutPoint} {v w v₁ : CoinsView} {undos : CTxUndo}, SameCoins v w →
    v.spendInputs os = some (undos, v₁) → ∃ w₁, w.spendInputs os = some (undos, w₁) ∧ SameCoins v₁ w₁
  | [], _, w, _, _, h, hv => by
    cases hv
    exact ⟨w, rfl, h⟩
  | o :: os, _, _, _, _, h, hv => by
    obtain ⟨undo, rest, v', hv₁, hv₂, rfl⟩ := spendInputs_cons hv
    obtain ⟨w', hw₁, h'⟩ := h.spendInput hv₁
    obtain ⟨w'', hw₂, h''⟩ := h'.spendInputs hv₂
    exact ⟨w'', by simp only [CoinsView.spendInputs, hw₁, hw₂], h''⟩

theorem isAvailable (h : SameCoins v w) (x : Uint256) (n : Nat) :
    (w.coins x).isAvailable n = (v.coins x).isAvailable n := by
  cases hx : (v.coins x).isPruned with
  | true =>
    have hnot : ∀ c : CCoins, c.isPruned = true → c.isAvailable n = false := by
      intro c hc
      by_contra ha
      rw [Bool.not_eq_false, CCoins.isAvailable_iff] at ha
      rw [CCoins.not_isPruned_of_out ha.1] at hc
      cases hc
    rw [hnot _ hx, hnot _ (by rw [h.isPruned, hx])]
  | false => rw [h.eq hx]

theorem haveInputs (h : SameCoins v w) (tx : CTransaction) : w.haveInputs tx = v.haveInputs tx := by
  unfold CoinsView.haveInputs
  simp only [h.isAvailable]

theorem countTx (h : SameCoins v w) (tx : CTransaction) (c : Counters) : countTx w tx c = DigiWage.countTx v tx c := by
  unfold DigiWage.countTx
  rw [h.haveInputs]
  cases hz : tx.hasZerocoinSpendInputs with
  | true => rfl
  | false =>
    cases hb : tx.isCoinBase with
    | true => rfl
    | false =>
      cases hin : v.haveInputs tx with
      | true => rw [h.sim.getValueIn hin hb]
      | false => rfl

/-- The loop does the same. -/
theorem countTxs {nHeight : Int32} : ∀ {txs : List CTransaction} {v w v' : CoinsView} {c c' : Counters} {us : CBlockUndo},
    SameCoins v w → countTxs nHeight txs v c = some (c', us, v') →
    ∃ w', DigiWage.countTxs nHeight txs w c = some (c', us, w') ∧ SameCoins v' w'
  | [], _, w, _, _, _, _, h, hv => by
    cases hv
    exact ⟨w, rfl, h⟩
  | tx :: txs, _, _, _, _, _, _, h, hv => by
    obtain ⟨c₁, txundo, rest, v₁, hp, ⟨a, ha⟩, hc, hv₁, rfl, hv₂⟩ := countTxs_cons hv
    obtain ⟨w₁, hw₁, h₁⟩ := h.spendInputs hv₁
    obtain ⟨w', hw', h'⟩ := (h₁.modifyCoins tx.hash (CCoins.fromTx tx nHeight)).countTxs hv₂
    refine ⟨w', ?_, h'⟩
    simp only [DigiWage.countTxs, h.isPruned, hp, ha, Option.isSome_some, Bool.and_self, ↓reduceIte, h.countTx, hc,
      updateCoins, hw₁, hw']

end SameCoins

/-! ## The coins of a chain -/

/-- The view that the blocks above the genesis block leave, the tip first; the coinbase of the genesis block is in no view. -/
def chainCoins (hashGenesisBlock : Uint256) : List CBlock → CoinsView
  | [] => ⟨fun _ => .empty, hashGenesisBlock⟩
  | block :: blocks =>
    match countTxs (Int32.ofNat (blocks.length + 1)) block.vtx (chainCoins hashGenesisBlock blocks) ⟨0, 0⟩ with
    | none => chainCoins hashGenesisBlock blocks
    | some (_, _, view) => { view with hashBlock := block.hash }

theorem applied_of_countTxs {nHeight : Int32} : ∀ {txs : List CTransaction} {v v' : CoinsView} {c c' : Counters}
    {undos : CBlockUndo}, countTxs nHeight txs v c = some (c', undos, v') → Applied nHeight txs v undos v'
  | [], v, _, _, _, _, h => by
    cases h
    exact .nil v
  | tx :: txs, _, _, _, _, _, h => by
    obtain ⟨_, txundo, rest, v₁, hp, ⟨a, hval⟩, -, h₁, rfl, hrest⟩ := countTxs_cons h
    exact .cons hp hval h₁ (applied_of_countTxs hrest)

theorem sameCoins_connect {hashGenesisBlock : Uint256} {blocks : List CBlock} {block : CBlock} {view view' : CoinsView}
    {c : Counters} {undos : CBlockUndo} (h : SameCoins (chainCoins hashGenesisBlock blocks) view)
    (hc : countTxs (Int32.ofNat (blocks.length + 1)) block.vtx view ⟨0, 0⟩ = some (c, undos, view')) (hash : Uint256) :
    SameCoins (chainCoins hashGenesisBlock (block :: blocks)) { view' with hashBlock := hash } := by
  obtain ⟨w', hw', hsame⟩ := h.symm.countTxs hc
  rw [chainCoins, hw']
  exact hsame.symm

/-- The transactions empty a coinstake entry of the view. -/
def EmptiesStake (view : CoinsView) (txs : List CTransaction) : Prop :=
  ∃ x, Emptied (view.coins x) x txs ∧ (view.coins x).fCoinStake = true

/-- A block is disconnected from a view with the coins that it left: this succeeds iff no coinstake of its own is emptied
in it, and then the coins from before come back iff it empties no coinstake entry of them. -/
theorem sameCoins_disconnect_iff {nHeight : Int32} (hH : nHeight ≠ 0) {block : CBlock} {v v' w : CoinsView} {c c' : Counters}
    {undos : CBlockUndo} (hv : v.Good) (hc : countTxs nHeight block.vtx v c = some (c', undos, v')) (hw : SameCoins v' w)
    {b : Bool} {w' : CoinsView} (hd : disconnectBlock block nHeight w undos.tail = some (b, w')) :
    (b = true ↔ KeepsOwnStakes nHeight block.vtx) ∧ (SameCoins v w' ↔ ¬ EmptiesStake v block.vtx) := by
  obtain ⟨-, w₁, htxs, rfl⟩ := disconnectBlock_countTxs hc hd
  obtain ⟨b', w₂, lost, hdis, hclean, hrestored, hlost⟩ :=
    disconnect_connect hH hv (applied_of_countTxs hc) fun x => restored_false_iff.mpr (hw x)
  rw [htxs] at hdis
  cases hdis
  refine ⟨hclean, ⟨fun hsame ⟨x, hemptied, hstake⟩ => ?_, fun hnone x => ?_⟩⟩
  · have hkeeps := (hrestored x).beq_iff.mp (hsame x) hemptied.1 ((hlost x hemptied.1).mpr hemptied)
    rw [hstake] at hkeeps
    cases hkeeps
  · refine (hrestored x).beq_iff.mpr fun hp hl => ?_
    by_contra hstake
    exact hnone ⟨x, (hlost x hp).mp hl, by simpa using hstake⟩

end DigiWage
