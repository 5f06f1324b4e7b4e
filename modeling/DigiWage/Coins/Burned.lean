import DigiWage.Coins.Undo
import Mathlib.Algebra.BigOperators.Group.List.Basic

/-!
# Burned coins

`ConnectBlock` adds the unspendable outputs of a block, and the fees of a proof-of-stake block, to `nBurnedCoins`.
`DisconnectBlock` does not take them off again, and `CVerifyDB::VerifyDB` at level 4 connects blocks a second time.

* `countTxs` is the loop of `ConnectBlock` with the two counters; `countTxs_spec` says what they count.
* Disconnecting and connecting again gives the same coins but for `fCoinStake` (`Sim`), so the same fees
  (`countTxs_sim`).
-/

namespace DigiWage

open CoinsView

/-! ## Counting in `ConnectBlock` -/

/-- `CCoinsViewCache::GetValueIn`, for a transaction that spends outputs. -/
def CoinsView.getValueIn (view : CoinsView) (tx : CTransaction) : Int :=
  (tx.vin.map fun txin => ((view.coins txin.prevout.hash).out txin.prevout.n).nValue).sum

/-- The value of the unspendable outputs. -/
def CTransaction.unspendableValue (tx : CTransaction) : Int :=
  ((tx.vout.filter fun o => o.scriptPubKey.isUnspendable).map CTxOut.nValue).sum

/-- The counters of `ConnectBlock`. -/
structure Counters where
  nFees : Int
  nUnspendable : Int
deriving DecidableEq, Repr

/-- The branches of the loop of `ConnectBlock` that count; `none` when inputs are missing or `GetValueOut` throws. -/
def countTx (view : CoinsView) (tx : CTransaction) (c : Counters) : Option Counters :=
  if tx.hasZerocoinSpendInputs then some c
  else if !tx.isCoinBase then
    if view.haveInputs tx then
      match tx.getValueOut with
      | none => none
      | some nValueOut =>
        let nFees := if tx.isCoinStake then c.nFees else c.nFees + (view.getValueIn tx - nValueOut)
        some ⟨nFees, c.nUnspendable + tx.unspendableValue⟩
    else none
  else some c

/-- The loop of `ConnectBlock`, with its counters. -/
def countTxs (nHeight : Int32) : List CTransaction → CoinsView → Counters → Option (Counters × CBlockUndo × CoinsView)
  | [], view, c => some (c, [], view)
  | tx :: txs, view, c =>
    if (view.coins tx.hash).isPruned && tx.getValueOut.isSome then
      match countTx view tx c with
      | none => none
      | some c' =>
        match updateCoins tx view nHeight with
        | none => none
        | some (txundo, view') =>
          match countTxs nHeight txs view' c' with
          | none => none
          | some (c'', undos, view'') => some (c'', txundo :: undos, view'')
    else none

/-- What the rest of the node says to `ConnectBlock`: whether the other checks pass (`CheckBlock`, the phase of the
chain, signatures, the reward), and whether the writes to the disk succeed. -/
structure ConnectChecks where
  checks : Bool
  writes : Bool

/-- `ConnectBlock`: the undo data and the view when it returns true, and `nBurnedCoins`. -/
def connectBlock (hashGenesisBlock : Uint256) (fJustCheck : Bool) (env : ConnectChecks) (block : CBlock)
    (nHeight : Int32) (view : CoinsView) (nBurnedCoins : Int) : Option (CBlockUndo × CoinsView) × Int :=
  if !env.checks || view.hashBlock != block.hashPrevBlock then (none, nBurnedCoins)
  else if block.hash = hashGenesisBlock then
    (some ([], if fJustCheck then view else { view with hashBlock := block.hash }), nBurnedCoins)
  else
    match countTxs nHeight block.vtx view ⟨0, 0⟩ with
    | none => (none, nBurnedCoins)
    | some (c, undos, view') =>
      if fJustCheck then (some (undos.tail, view'), nBurnedCoins)
      else
        -- the proof-of-stake stage destroys fees
        let nUnspendable := if block.isProofOfWork then c.nUnspendable else c.nUnspendable + c.nFees
        if env.writes then
          (some (undos.tail, { view' with hashBlock := block.hash }), nBurnedCoins + nUnspendable)
        else (none, nBurnedCoins + nUnspendable)

/-! ## What is burned -/

/-- The transaction spends no outputs: a coinbase or a zerocoin spend. -/
def CTransaction.noInputs (tx : CTransaction) : Bool := tx.isCoinBase || tx.hasZerocoinSpendInputs

/-- The fee of a transaction: nothing for a coinbase, a coinstake or a zerocoin spend. -/
def txFee (view : CoinsView) (tx : CTransaction) : Int :=
  if tx.noInputs || tx.isCoinStake then 0 else view.getValueIn tx - (tx.vout.map CTxOut.nValue).sum

/-- The fees of transactions that follow one another from a view on. -/
def txFees (nHeight : Int32) : List CTransaction → CoinsView → Int
  | [], _ => 0
  | tx :: txs, view => txFee view tx +
    match updateCoins tx view nHeight with
    | none => 0
    | some (_, view') => txFees nHeight txs view'

/-- The value of the unspendable outputs of the transactions. -/
def unspendable (txs : List CTransaction) : Int := (txs.map CTransaction.unspendableValue).sum

/-- What a block on the view burns: its unspendable outputs, and its fees when it is proof-of-stake. -/
def blockBurn (nHeight : Int32) (view : CoinsView) (block : CBlock) : Int :=
  unspendable block.vtx + if block.isProofOfStake then txFees nHeight block.vtx view else 0

/-- The unspendable outputs that `ConnectBlock` does not look at. -/
def uncounted (txs : List CTransaction) : Int := unspendable (txs.filter CTransaction.noInputs)

theorem sum_of_foldlM_addValueOut : ∀ {l : List CTxOut} {a b : Int}, l.foldlM CTransaction.addValueOut a = some b →
    b = a + (l.map CTxOut.nValue).sum
  | [], a, b, h => by
    cases h
    simp
  | o :: l, a, b, h => by
    simp only [List.foldlM_cons, Option.bind_eq_bind, Option.bind_eq_some_iff] at h
    obtain ⟨c, hc, h⟩ := h
    have hc' : c = a + o.nValue := by
      unfold CTransaction.addValueOut at hc
      split at hc
      · cases hc
      · split at hc <;> cases hc
        rfl
    rw [sum_of_foldlM_addValueOut h, hc', List.map_cons, List.sum_cons, add_assoc]

theorem countTxs_cons {nHeight : Int32} {tx : CTransaction} {txs : List CTransaction} {v v'' : CoinsView}
    {c c'' : Counters} {undos : CBlockUndo} (h : countTxs nHeight (tx :: txs) v c = some (c'', undos, v'')) :
    ∃ c' txundo rest v₁, (v.coins tx.hash).isPruned = true ∧ (∃ a, tx.getValueOut = some a) ∧
      countTx v tx c = some c' ∧ v.spendInputs tx.spends = some (txundo, v₁) ∧ undos = txundo :: rest ∧
      countTxs nHeight txs (v₁.modifyCoins tx.hash fun _ => CCoins.fromTx tx nHeight) c' = some (c'', rest, v'') := by
  simp only [countTxs] at h
  split at h
  · rename_i hacc
    rw [Bool.and_eq_true, Option.isSome_iff_exists] at hacc
    split at h
    · cases h
    · rename_i c' hc'
      split at h
      · cases h
      · rename_i txundo v' hu
        obtain ⟨v₁, h₁, rfl⟩ := updateCoins_some hu
        split at h
        · cases h
        · rename_i c₂ rest v₂ hrest
          cases h
          exact ⟨c', txundo, rest, v₁, hacc.1, hacc.2, hc', h₁, rfl, hrest⟩
  · cases h

theorem countTx_spec {view : CoinsView} {tx : CTransaction} {c c' : Counters} (h : countTx view tx c = some c') :
    c'.nFees = c.nFees + txFee view tx ∧
    c'.nUnspendable = c.nUnspendable + if tx.noInputs then 0 else tx.unspendableValue := by
  unfold countTx at h
  unfold txFee CTransaction.noInputs
  cases hz : tx.hasZerocoinSpendInputs with
  | true =>
    rw [hz, if_pos rfl] at h
    cases h
    simp
  | false =>
    rw [hz] at h
    simp only [Bool.false_eq_true, ↓reduceIte] at h
    cases hb : tx.isCoinBase with
    | true =>
      rw [hb] at h
      cases h
      simp
    | false =>
      rw [hb] at h
      simp only [Bool.not_false, ↓reduceIte] at h
      split at h
      · split at h
        · cases h
        · rename_i a ha
          cases h
          have hsum := sum_of_foldlM_addValueOut ha
          rw [zero_add] at hsum
          cases tx.isCoinStake <;> simp [hsum]
      · cases h

theorem countTxs_spec {nHeight : Int32} : ∀ {txs : List CTransaction} {v v' : CoinsView} {c c' : Counters}
    {undos : CBlockUndo}, countTxs nHeight txs v c = some (c', undos, v') →
    c'.nFees = c.nFees + txFees nHeight txs v ∧ c'.nUnspendable + uncounted txs = c.nUnspendable + unspendable txs
  | [], _, _, _, _, _, h => by
    cases h
    simp [txFees, uncounted]
  | tx :: txs, v, v', c, c', undos, h => by
    obtain ⟨c₁, txundo, rest, v₁, -, -, hc₁, h₁, -, hrest⟩ := countTxs_cons h
    obtain ⟨hf₁, hu₁⟩ := countTx_spec hc₁
    obtain ⟨hf, hu⟩ := countTxs_spec hrest
    have hupd : updateCoins tx v nHeight =
        some (txundo, v₁.modifyCoins tx.hash fun _ => CCoins.fromTx tx nHeight) := by
      simp only [updateCoins, h₁]
    refine ⟨?_, ?_⟩
    · rw [hf, hf₁, txFees, hupd, add_assoc]
    · unfold uncounted unspendable at hu ⊢
      rw [List.filter_cons, List.map_cons, List.sum_cons]
      cases hn : tx.noInputs with
      | true =>
        rw [hn] at hu₁
        simp only [↓reduceIte, List.map_cons, List.sum_cons] at hu₁ ⊢
        omega
      | false =>
        rw [hn] at hu₁
        simp only [Bool.false_eq_true, ↓reduceIte] at hu₁ ⊢
        omega

/-! ## The same coins -/

/-- The views agree but for `fCoinStake` and the form of spent entries. -/
def Sim (v w : CoinsView) : Prop :=
  ∀ x, ((v.coins x).isPruned = true ∧ (w.coins x).isPruned = true) ∨ ∃ b, w.coins x = (v.coins x).withStake b

namespace Sim

variable {v w u v₁ w₁ : CoinsView}

theorem refl (v : CoinsView) : Sim v v := fun x => Or.inr ⟨(v.coins x).fCoinStake, (CCoins.withStake_self _).symm⟩

theorem symm (h : Sim v w) : Sim w v := by
  intro x
  rcases h x with ⟨hv, hw⟩ | ⟨b, hb⟩
  · exact Or.inl ⟨hw, hv⟩
  · exact Or.inr ⟨(v.coins x).fCoinStake, by rw [hb]; rfl⟩

theorem trans (h₁ : Sim u v) (h₂ : Sim v w) : Sim u w := by
  intro x
  rcases h₁ x with ⟨hu, hv⟩ | ⟨b, hb⟩
  · rcases h₂ x with ⟨-, hw⟩ | ⟨b, hb⟩
    · exact Or.inl ⟨hu, hw⟩
    · exact Or.inl ⟨hu, by rw [hb, CCoins.isPruned_withStake]; exact hv⟩
  · rcases h₂ x with ⟨hv, hw⟩ | ⟨b', hb'⟩
    · rw [hb, CCoins.isPruned_withStake] at hv
      exact Or.inl ⟨hv, hw⟩
    · exact Or.inr ⟨b', by rw [hb', hb]; rfl⟩

theorem eq_withStake (h : Sim v w) {x : Uint256} (hx : (v.coins x).isPruned = false) :
    ∃ b, w.coins x = (v.coins x).withStake b := by
  rcases h x with ⟨hv, -⟩ | hb
  · rw [hx] at hv
    cases hv
  · exact hb

theorem isPruned (h : Sim v w) (x : Uint256) : (w.coins x).isPruned = (v.coins x).isPruned := by
  rcases h x with ⟨hv, hw⟩ | ⟨b, hb⟩
  · rw [hv, hw]
  · rw [hb, CCoins.isPruned_withStake]

theorem modifyCoins (h : Sim v w) (txid : Uint256) (c : CCoins) {b : Bool} :
    Sim (v.modifyCoins txid fun _ => c) (w.modifyCoins txid fun _ => c.withStake b) := by
  intro x
  by_cases hx : x = txid
  · subst hx
    rw [modifyCoins_self, modifyCoins_self]
    exact Or.inr ⟨b, rfl⟩
  · rw [modifyCoins_of_ne _ _ hx, modifyCoins_of_ne _ _ hx]
    exact h x

theorem spendInput (h : Sim v w) {o : COutPoint} {undo undo' : CTxInUndo} (hv : v.spendInput o = some (undo, v₁))
    (hw : w.spendInput o = some (undo', w₁)) : Sim v₁ w₁ := by
  obtain ⟨hn, -, rfl⟩ := spendInput_some hv
  obtain ⟨-, -, rfl⟩ := spendInput_some hw
  obtain ⟨b, hb⟩ := h.eq_withStake (CCoins.not_isPruned_of_out hn)
  intro x
  by_cases hx : x = o.hash
  · subst hx
    rw [modifyCoins_self, modifyCoins_self, hb]
    exact Or.inr ⟨b, rfl⟩
  · rw [modifyCoins_of_ne _ _ hx, modifyCoins_of_ne _ _ hx]
    exact h x

theorem spendInputs : ∀ {os : List COutPoint} {v w v₁ w₁ : CoinsView} {undos undos' : CTxUndo}, Sim v w →
    v.spendInputs os = some (undos, v₁) → w.spendInputs os = some (undos', w₁) → Sim v₁ w₁
  | [], _, _, _, _, _, _, h, hv, hw => by
    cases hv
    cases hw
    exact h
  | o :: os, _, _, _, _, _, _, h, hv, hw => by
    obtain ⟨_, _, _, hv₁, hv₂, -⟩ := spendInputs_cons hv
    obtain ⟨_, _, _, hw₁, hw₂, -⟩ := spendInputs_cons hw
    exact (h.spendInput hv₁ hw₁).spendInputs hv₂ hw₂

theorem getValueIn (h : Sim v w) {tx : CTransaction} (hin : v.haveInputs tx = true) (hcb : tx.isCoinBase = false) :
    w.getValueIn tx = v.getValueIn tx := by
  unfold CoinsView.getValueIn
  refine congrArg List.sum (List.map_congr_left fun txin htxin => ?_)
  rw [haveInputs, hcb, Bool.false_or, List.all_eq_true] at hin
  obtain ⟨hn, -⟩ := CCoins.isAvailable_iff.mp (hin txin htxin)
  obtain ⟨b, hb⟩ := h.eq_withStake (CCoins.not_isPruned_of_out hn)
  rw [hb, CCoins.out_withStake]

theorem countTx (h : Sim v w) {tx : CTransaction} {c c₁ c₂ : Counters} (hv : countTx v tx c = some c₁)
    (hw : DigiWage.countTx w tx c = some c₂) : c₁ = c₂ := by
  unfold DigiWage.countTx at hv hw
  cases hz : tx.hasZerocoinSpendInputs with
  | true =>
    rw [hz, if_pos rfl] at hv hw
    cases hv
    cases hw
    rfl
  | false =>
    cases hb : tx.isCoinBase with
    | true =>
      rw [hz, hb] at hv hw
      cases hv
      cases hw
      rfl
    | false =>
      rw [hz, hb] at hv hw
      simp only [Bool.false_eq_true, ↓reduceIte, Bool.not_false] at hv hw
      split at hv
      · rename_i hin
        split at hw
        · rw [h.getValueIn hin hb] at hw
          rw [hv] at hw
          cases hw
          rfl
        · cases hw
      · cases hv

end Sim

theorem countTxs_sim {nHeight : Int32} : ∀ {txs : List CTransaction} {v w v' w' : CoinsView} {c c₁ c₂ : Counters}
    {us us' : CBlockUndo}, Sim v w → countTxs nHeight txs v c = some (c₁, us, v') →
    countTxs nHeight txs w c = some (c₂, us', w') → c₁ = c₂ ∧ Sim v' w'
  | [], _, _, _, _, _, _, _, _, _, h, hv, hw => by
    cases hv
    cases hw
    exact ⟨rfl, h⟩
  | tx :: txs, _, _, _, _, _, _, _, _, _, h, hv, hw => by
    obtain ⟨cv, _, _, v₁, -, -, hcv, hv₁, -, hv₂⟩ := countTxs_cons hv
    obtain ⟨cw, _, _, w₁, -, -, hcw, hw₁, -, hw₂⟩ := countTxs_cons hw
    have hc := h.countTx hcv hcw
    subst hc
    have hsim := (h.spendInputs hv₁ hw₁).modifyCoins tx.hash (CCoins.fromTx tx nHeight)
      (b := (CCoins.fromTx tx nHeight).fCoinStake)
    rw [CCoins.withStake_self] at hsim
    exact countTxs_sim hsim hv₂ hw₂

theorem countTxs_good {nHeight : Int32} (hH : nHeight ≠ 0) : ∀ {txs : List CTransaction} {v v' : CoinsView}
    {c c' : Counters} {undos : CBlockUndo}, v.Good → countTxs nHeight txs v c = some (c', undos, v') → v'.Good
  | [], _, _, _, _, _, hv, h => by
    cases h
    exact hv
  | tx :: txs, _, _, _, _, _, hv, h => by
    obtain ⟨_, _, _, v₁, -, ⟨a, ha⟩, -, h₁, -, h₂⟩ := countTxs_cons h
    have hfrom := CCoins.clean_fromTx (CTransaction.nonneg_of_getValueOut ha) nHeight
    exact countTxs_good hH ((spendInputs_good hv h₁).modifyCoins _ ⟨hfrom, fun _ => hH⟩) h₂

/-! ## Disconnecting gives the same coins back -/

theorem restoreInput_sim {v v₁ w : CoinsView} (hv : v.Good) {o : COutPoint} {undo : CTxInUndo}
    (h : v.spendInput o = some (undo, v₁)) (hw : Sim v₁ w) (b : Bool) : Sim v (restoreInput undo o (b, w)).2 := by
  obtain ⟨hn, rfl, rfl⟩ := spendInput_some h
  intro x
  by_cases hx : x = o.hash
  · subst hx
    refine Or.inr ?_
    show ∃ b', (w.modifyCoins o.hash _).coins o.hash = _
    rw [modifyCoins_self]
    cases hp : ((v.coins o.hash).spent o.n).isPruned with
    | true => exact ⟨false, (restoreCoins_last (hv _) hn hp).1⟩
    | false =>
      have hself := modifyCoins_self v o.hash fun c => c.spent o.n
      rw [((hv _).clean.spent o.n).cleanup_eq] at hself
      obtain ⟨b', hb'⟩ := hw.eq_withStake (x := o.hash) (by rw [hself]; exact hp)
      rw [hb', hself]
      exact ⟨b', (restoreCoins_part (hv _) hn hp b').1⟩
  · have hwx := hw x
    rw [modifyCoins_of_ne _ _ hx] at hwx
    show (_ ∧ ((w.modifyCoins o.hash _).coins x).isPruned = true) ∨ ∃ b, (w.modifyCoins o.hash _).coins x = _
    rw [modifyCoins_of_ne _ _ hx]
    exact hwx

theorem restoreInputs_sim : ∀ {os : List COutPoint} {v v₁ w : CoinsView} {undos : CTxUndo} {b b' : Bool}
    {w' : CoinsView}, v.Good → v.spendInputs os = some (undos, v₁) → Sim v₁ w →
    restoreInputs os undos (b, w) = some (b', w') → Sim v w'
  | [], _, _, _, _, _, _, _, _, h, hw, hr => by
    cases h
    cases hr
    exact hw
  | o :: os, v, _, w, _, b, b', w', hv, h, hw, hr => by
    obtain ⟨undo, rest, v₂, h₁, h₂, rfl⟩ := spendInputs_cons h
    obtain ⟨⟨b₂, w₂⟩, hr₂, heq⟩ := Option.map_eq_some_iff.mp hr
    have hsim := restoreInput_sim hv h₁ (restoreInputs_sim (spendInput_good hv h₁) h₂ hw hr₂) b₂
    rw [heq] at hsim
    exact hsim

theorem txundo_eq {tx : CTransaction} {v v₁ : CoinsView} {txundo : CTxUndo}
    (h : v.spendInputs tx.spends = some (txundo, v₁)) :
    (if tx.isCoinBase || tx.hasZerocoinSpendInputs then [] else txundo) = txundo := by
  split
  · rename_i hcb
    simp only [CTransaction.spends, hcb, ↓reduceIte, CoinsView.spendInputs] at h
    cases h
    rfl
  · rfl

theorem removeOutputs_sim {tx : CTransaction} {v₁ w : CoinsView} {nHeight : Int32} (hp : (v₁.coins tx.hash).isPruned = true)
    (hw : Sim (v₁.modifyCoins tx.hash fun _ => CCoins.fromTx tx nHeight) w) (b : Bool) :
    Sim v₁ (removeOutputs tx nHeight (b, w)).2 := by
  intro x
  rw [removeOutputs_snd]
  by_cases hx : x = tx.hash
  · subst hx
    exact Or.inl ⟨hp, by rw [modifyCoins_self]; rfl⟩
  · have hwx := hw x
    rw [modifyCoins_of_ne _ _ hx] at hwx ⊢
    exact hwx

theorem disconnectTx_sim {tx : CTransaction} {v v₁ w w' : CoinsView} {nHeight : Int32} {txundo : CTxUndo} {b b' : Bool}
    (hv : v.Good) (hp : (v.coins tx.hash).isPruned = true) (h₁ : v.spendInputs tx.spends = some (txundo, v₁))
    (hw : Sim (v₁.modifyCoins tx.hash fun _ => CCoins.fromTx tx nHeight) w)
    (hd : disconnectTx tx txundo nHeight (b, w) = some (b', w')) : Sim v w' := by
  unfold disconnectTx at hd
  rw [txundo_eq h₁] at hd
  exact restoreInputs_sim hv h₁ (removeOutputs_sim (spendInputs_isPruned hv h₁ hp) hw b) hd

theorem disconnectTxs_sim {nHeight : Int32} (hH : nHeight ≠ 0) : ∀ {txs : List CTransaction} {v v' w w' : CoinsView}
    {c c' : Counters} {undos : CBlockUndo} {b b' : Bool}, v.Good →
    countTxs nHeight txs v c = some (c', undos, v') → Sim v' w →
    disconnectTxs nHeight txs undos (b, w) = some (b', w') → Sim v w'
  | [], _, _, _, _, _, _, _, _, _, _, h, hw, hd => by
    cases h
    cases hd
    exact hw
  | tx :: txs, _, _, _, _, _, _, _, _, _, hv, h, hw, hd => by
    obtain ⟨_, txundo, rest, v₁, hp, ⟨a, ha⟩, -, h₁, rfl, h₂⟩ := countTxs_cons h
    have hfrom := CCoins.clean_fromTx (CTransaction.nonneg_of_getValueOut ha) nHeight
    obtain ⟨⟨b₂, w₂⟩, hd₂, hd₁⟩ := Option.bind_eq_some_iff.mp hd
    have hv₂ : (v₁.modifyCoins tx.hash fun _ => CCoins.fromTx tx nHeight).Good :=
      (spendInputs_good hv h₁).modifyCoins tx.hash ⟨hfrom, fun _ => hH⟩
    exact disconnectTx_sim hv hp h₁ (disconnectTxs_sim hH hv₂ h₂ hw hd₂) hd₁

theorem disconnectBlock_some {block : CBlock} {nHeight : Int32} {w w' : CoinsView} {undos : CBlockUndo} {b : Bool}
    (hd : disconnectBlock block nHeight w undos = some (b, w')) : ∃ tx txs w₁, block.vtx = tx :: txs ∧ tx.spends = [] ∧
      disconnectTxs nHeight block.vtx ([] :: undos) (true, w) = some (b, w₁) ∧
      w' = { w₁ with hashBlock := block.hashPrevBlock } := by
  unfold disconnectBlock at hd
  split at hd
  · cases hd
  · rename_i tx txs hvtx
    split at hd
    · rename_i hfirst
      rw [Bool.and_eq_true] at hfirst
      split at hd
      · cases hd
      · rename_i b₁ w₁ hbind
        cases hd
        refine ⟨tx, txs, w₁, hvtx, ?_, ?_, rfl⟩
        · rw [CTransaction.spends, if_pos hfirst.2]
        · rw [hvtx]
          exact hbind
    · cases hd

theorem disconnectBlock_countTxs {block : CBlock} {nHeight : Int32} {v v' w w' : CoinsView} {c c' : Counters}
    {undos : CBlockUndo} {b : Bool} (h : countTxs nHeight block.vtx v c = some (c', undos, v'))
    (hd : disconnectBlock block nHeight w undos.tail = some (b, w')) : undos = [] :: undos.tail ∧
      ∃ w₁, disconnectTxs nHeight block.vtx undos (true, w) = some (b, w₁) ∧
        w' = { w₁ with hashBlock := block.hashPrevBlock } := by
  obtain ⟨tx, txs, w₁, hvtx, hspends, htxs, rfl⟩ := disconnectBlock_some hd
  rw [hvtx] at h
  obtain ⟨_, txundo, rest, _, -, -, -, h₁, rfl, -⟩ := countTxs_cons h
  rw [hspends] at h₁
  cases h₁
  exact ⟨rfl, w₁, htxs, rfl⟩

theorem disconnectBlock_sim {block : CBlock} {nHeight : Int32} (hH : nHeight ≠ 0) {v v' w w' : CoinsView}
    {c c' : Counters} {undos : CBlockUndo} {b : Bool} (hv : v.Good)
    (h : countTxs nHeight block.vtx v c = some (c', undos, v')) (hw : Sim v' w)
    (hd : disconnectBlock block nHeight w undos.tail = some (b, w')) : Sim v w' := by
  obtain ⟨-, w₁, htxs, rfl⟩ := disconnectBlock_countTxs h hd
  have hsim := disconnectTxs_sim hH hv h hw htxs
  exact hsim

/-- Spent entries have no outputs left. -/
def CoinsView.Tidy (view : CoinsView) : Prop := ∀ x, (view.coins x).isPruned = true → (view.coins x).vout = []

theorem CoinsView.Good.tidy {view : CoinsView} (h : view.Good) : view.Tidy := fun x hx => (h x).clean.vout_eq_nil hx

theorem CoinsView.Tidy.modifyCoins {view : CoinsView} (h : view.Tidy) (txid : Uint256) (edit : CCoins → CCoins) :
    (view.modifyCoins txid edit).Tidy := by
  intro x hx
  by_cases hxt : x = txid
  · subst hxt
    rw [modifyCoins_self] at hx ⊢
    rw [CCoins.isPruned_cleanup] at hx
    exact List.rdropWhile_eq_nil_iff.mpr (List.all_eq_true.mp hx)
  · rw [modifyCoins_of_ne _ _ hxt] at hx ⊢
    exact h x hx

/-! What every edit of `DisconnectBlock` keeps, the whole keeps. -/

section Edits

variable {P : CoinsView → Prop} (hclear : ∀ w txid, P w → P (w.modifyCoins txid fun _ => .empty))
  (hrestore : ∀ w undo o, P w → P (w.modifyCoins o.hash (restoreCoins undo o)))

include hrestore in
theorem restoreInputs_keeps : ∀ {os : List COutPoint} {undos : CTxUndo} {r r' : Bool × CoinsView}, P r.2 →
    restoreInputs os undos r = some r' → P r'.2
  | [], [], _, _, h, hr => by
    cases hr
    exact h
  | o :: os, undo :: undos, r, r', h, hr => by
    obtain ⟨r₁, hr₁, rfl⟩ := Option.map_eq_some_iff.mp hr
    exact hrestore _ _ _ (restoreInputs_keeps h hr₁)
  | [], _ :: _, _, _, _, hr => by cases hr
  | _ :: _, [], _, _, _, hr => by cases hr

include hclear hrestore

theorem disconnectTx_keeps {tx : CTransaction} {txundo : CTxUndo} {nHeight : Int32} {r r' : Bool × CoinsView}
    (h : P r.2) (hd : disconnectTx tx txundo nHeight r = some r') : P r'.2 := by
  refine restoreInputs_keeps hrestore ?_ hd
  rw [removeOutputs_snd]
  exact hclear _ _ h

theorem disconnectTxs_keeps {nHeight : Int32} : ∀ {txs : List CTransaction} {undos : CBlockUndo}
    {r r' : Bool × CoinsView}, P r.2 → disconnectTxs nHeight txs undos r = some r' → P r'.2
  | [], [], _, _, h, hd => by
    cases hd
    exact h
  | tx :: txs, txundo :: undos, r, r', h, hd => by
    obtain ⟨r₁, hd₁, hd₂⟩ := Option.bind_eq_some_iff.mp hd
    exact disconnectTx_keeps hclear hrestore (disconnectTxs_keeps h hd₁) hd₂
  | [], _ :: _, _, _, _, hd => by cases hd
  | _ :: _, [], _, _, _, hd => by cases hd

theorem disconnectBlock_keeps (hbest : ∀ w hash, P w → P { w with hashBlock := hash }) {block : CBlock}
    {nHeight : Int32} {w w' : CoinsView} {undos : CBlockUndo} {b : Bool} (h : P w)
    (hd : disconnectBlock block nHeight w undos = some (b, w')) : P w' := by
  obtain ⟨tx, txs, w₁, -, -, htxs, rfl⟩ := disconnectBlock_some hd
  have hw₁ : P w₁ := disconnectTxs_keeps hclear hrestore (r := (true, w)) h htxs
  exact hbest _ _ hw₁

end Edits

theorem disconnectBlock_tidy {block : CBlock} {nHeight : Int32} {w w' : CoinsView} {undos : CBlockUndo} {b : Bool}
    (h : w.Tidy) (hd : disconnectBlock block nHeight w undos = some (b, w')) : w'.Tidy :=
  disconnectBlock_keeps (fun _ _ hw => hw.modifyCoins _ _) (fun _ _ _ hw => hw.modifyCoins _ _) (fun _ _ hw => hw) h hd

theorem Sim.good {v w : CoinsView} (h : Sim v w) (hv : v.Good) (hw : w.Tidy) : w.Good := by
  intro x
  cases hp : (w.coins x).isPruned with
  | true =>
    have hnil := hw x hp
    refine ⟨⟨?_, ?_⟩, fun hf => by rw [hp] at hf; cases hf⟩
    · rw [hnil]
      rfl
    · rw [hnil]
      simp [Lib.Canon]
  | false =>
    rw [h.isPruned] at hp
    obtain ⟨b, hb⟩ := h.eq_withStake hp
    rw [hb]
    exact ⟨(hv x).clean.withStake b, fun _ => (hv x).height hp⟩

/-! ## Runs -/

/-- A connected block: where it stands, the view it was connected to, and its undo data. (The data on the disk are those
of the first time it was connected; they can differ in `fCoinStake`, which nothing reads.) -/
structure ChainLink where
  block : CBlock
  nHeight : Int32
  view : CoinsView
  undo : CBlockUndo

/-- What the block burns. -/
def ChainLink.burn (l : ChainLink) : Int := blockBurn l.nHeight l.view l.block

/-- The coins of the tip, the blocks connected above the starting block (the tip first), and `nBurnedCoins`. -/
structure BurnState where
  view : CoinsView
  chain : List ChainLink
  nBurnedCoins : Int

/-- The first loop of `VerifyDB`: disconnect blocks in memory; `none` when one fails or is not clean. -/
def disconnectMemory : List ChainLink → CoinsView → Option CoinsView
  | [], coins => some coins
  | l :: ls, coins =>
    match disconnectBlock l.block l.nHeight coins l.undo with
    | some (true, coins') => disconnectMemory ls coins'
    | _ => none

/-- The loop of `VerifyDB` at level 4: try reconnecting blocks, until one fails or it is interrupted. -/
def reconnectMemory (hashGenesisBlock : Uint256) : List ChainLink → List ConnectChecks → CoinsView → Int → Int
  | l :: ls, env :: envs, coins, nBurnedCoins =>
    match connectBlock hashGenesisBlock false env l.block l.nHeight coins nBurnedCoins with
    | (none, n) => n
    | (some (_, coins'), n) => reconnectMemory hashGenesisBlock ls envs coins' n
  | _, _, _, nBurnedCoins => nBurnedCoins

/-- The calls of `ConnectBlock` and `DisconnectBlock`: `ConnectTip`, `TestBlockValidity`, `DisconnectTip` and
`VerifyDB`. The size of the cache decides how many blocks `VerifyDB` disconnects. -/
inductive BurnOp where
  | connectTip (env : ConnectChecks) (block : CBlock) (nHeight : Int32)
  | testBlock (env : ConnectChecks) (block : CBlock) (nHeight : Int32)
  | disconnectTip (reads : Bool)
  | verifyDB (nCheckLevel nBlocks : Nat) (envs : List ConnectChecks)

/-- One call. The genesis block, at height 0, is below the starting block or is it. -/
def BurnOp.step (hashGenesisBlock : Uint256) (s : BurnState) : BurnOp → BurnState
  | connectTip env block nHeight =>
    if nHeight = 0 ∨ block.hash = hashGenesisBlock then s
    else
      match connectBlock hashGenesisBlock false env block nHeight s.view s.nBurnedCoins with
      | (none, n) => { s with nBurnedCoins := n }
      | (some (undo, view), n) => ⟨view, ⟨block, nHeight, s.view, undo⟩ :: s.chain, n⟩
  | testBlock env block nHeight =>
    { s with nBurnedCoins := (connectBlock hashGenesisBlock true env block nHeight s.view s.nBurnedCoins).2 }
  | disconnectTip reads =>
    match s.chain with
    | [] => s
    | l :: ls =>
      if reads then
        match disconnectBlock l.block l.nHeight s.view l.undo with
        | some (true, view) => ⟨view, ls, s.nBurnedCoins⟩
        | _ => s
      else s
  | verifyDB nCheckLevel nBlocks envs =>
    if nCheckLevel < 4 then s
    else
      match disconnectMemory (s.chain.take nBlocks) s.view with
      | none => s
      | some coins =>
        { s with nBurnedCoins :=
            reconnectMemory hashGenesisBlock (s.chain.take nBlocks).reverse envs coins s.nBurnedCoins }

/-- Nothing that burned coins is disconnected or verified again; coinbases and zerocoin spends have no unspendable
outputs, and the disk does not fail. -/
def BurnOp.Ok (s : BurnState) : BurnOp → Prop
  | connectTip env block _ => env.writes = true ∧ uncounted block.vtx = 0
  | testBlock _ _ _ => True
  | disconnectTip _ => ∀ l ∈ s.chain.head?, l.burn = 0
  | verifyDB nCheckLevel nBlocks _ => 4 ≤ nCheckLevel → ∀ l ∈ s.chain.take nBlocks, l.burn = 0

theorem connectBlock_cases {hashGenesisBlock : Uint256} {env : ConnectChecks} {block : CBlock} {nHeight : Int32}
    {view : CoinsView} {n : Int} (hg : block.hash ≠ hashGenesisBlock) :
    connectBlock hashGenesisBlock false env block nHeight view n = (none, n) ∨
    ∃ c undos view', countTxs nHeight block.vtx view ⟨0, 0⟩ = some (c, undos, view') ∧
      c.nUnspendable + uncounted block.vtx + (if block.isProofOfStake then c.nFees else 0) =
        blockBurn nHeight view block ∧
      connectBlock hashGenesisBlock false env block nHeight view n =
        (if env.writes then some (undos.tail, { view' with hashBlock := block.hash }) else none,
          n + blockBurn nHeight view block - uncounted block.vtx) := by
  unfold connectBlock
  rw [if_neg hg]
  split
  · exact Or.inl rfl
  · cases hc : countTxs nHeight block.vtx view ⟨0, 0⟩ with
    | none => exact Or.inl rfl
    | some r =>
      obtain ⟨c, undos, view'⟩ := r
      obtain ⟨hf, hu⟩ := countTxs_spec hc
      rw [zero_add] at hf hu
      have hburn : c.nUnspendable + uncounted block.vtx + (if block.isProofOfStake then c.nFees else 0) =
          blockBurn nHeight view block := by
        unfold blockBurn
        rw [hu, hf]
      refine Or.inr ⟨c, undos, view', rfl, hburn, ?_⟩
      have hn : n + (if block.isProofOfWork then c.nUnspendable else c.nUnspendable + c.nFees) =
          n + blockBurn nHeight view block - uncounted block.vtx := by
        rw [← hburn, CBlock.isProofOfWork]
        cases block.isProofOfStake <;> simp <;> omega
      simp only [Bool.false_eq_true, ↓reduceIte, hn]
      split <;> rfl

/-- The blocks of the chain were connected one on the other, up to the same coins. -/
def Connected : List ChainLink → CoinsView → Prop
  | [], _ => True
  | l :: ls, w => l.view.Good ∧ l.nHeight ≠ 0 ∧
    (∃ c undos v', countTxs l.nHeight l.block.vtx l.view ⟨0, 0⟩ = some (c, undos, v') ∧ l.undo = undos.tail ∧
      Sim v' w) ∧ Connected ls l.view

theorem Connected.sim : ∀ {ls : List ChainLink} {v w : CoinsView}, Connected ls v → Sim v w → Connected ls w
  | [], _, _, _, _ => trivial
  | _ :: _, _, _, ⟨hg, hH, ⟨c, undos, v', hc, hu, hsim⟩, hls⟩, h =>
    ⟨hg, hH, ⟨c, undos, v', hc, hu, hsim.trans h⟩, hls⟩

theorem Connected.disconnect {l : ChainLink} {ls : List ChainLink} {w w' : CoinsView} {b : Bool}
    (h : Connected (l :: ls) w) (hd : disconnectBlock l.block l.nHeight w l.undo = some (b, w')) :
    Sim l.view w' ∧ Connected ls w' := by
  obtain ⟨hg, hH, ⟨c, undos, v', hc, hu, hsim⟩, hls⟩ := h
  rw [hu] at hd
  have hsim' := disconnectBlock_sim hH hg hc hsim hd
  exact ⟨hsim', hls.sim hsim'⟩

theorem reconnectMemory_append {hashGenesisBlock : Uint256} : ∀ {ls : List ChainLink} {w coins : CoinsView}
    (tail : List ChainLink) (n : Int), Connected ls w → disconnectMemory ls w = some coins →
    (∀ l ∈ ls, l.burn = 0 ∧ uncounted l.block.vtx = 0 ∧ l.block.hash ≠ hashGenesisBlock) →
    ∀ envs, reconnectMemory hashGenesisBlock (ls.reverse ++ tail) envs coins n = n ∨
      ∃ envs' w', Sim w w' ∧ reconnectMemory hashGenesisBlock (ls.reverse ++ tail) envs coins n =
        reconnectMemory hashGenesisBlock tail envs' w' n
  | [], w, coins, tail, n, _, hd, _, envs => by
    cases hd
    exact Or.inr ⟨envs, w, .refl w, rfl⟩
  | l :: ls, w, coins, tail, n, hc, hd, hz, envs => by
    unfold disconnectMemory at hd
    split at hd
    · rename_i coins₁ hdis
      obtain ⟨hsim, hls⟩ := hc.disconnect hdis
      have hls' : Connected ls coins₁ := hls
      rw [List.reverse_cons, List.append_assoc]
      -- the blocks below first, then `l`
      rcases reconnectMemory_append ([l] ++ tail) n hls' hd
        (fun l' hl' => hz l' (List.mem_cons_of_mem _ hl')) envs with h | ⟨envs', w', hw', heq⟩
      · exact Or.inl h
      · rw [heq]
        cases envs' with
        | nil => exact Or.inl rfl
        | cons env envs' =>
          obtain ⟨hburn, hunc, hgen⟩ := hz l List.mem_cons_self
          obtain ⟨hg, hH, ⟨c, undos, v', hcount, hu, hsimv⟩, -⟩ := hc
          have hcons : reconnectMemory hashGenesisBlock ([l] ++ tail) (env :: envs') w' n =
              match connectBlock hashGenesisBlock false env l.block l.nHeight w' n with
              | (none, n) => n
              | (some (_, coins'), n) => reconnectMemory hashGenesisBlock tail envs' coins' n := rfl
          rw [hcons]
          rcases @connectBlock_cases hashGenesisBlock env l.block l.nHeight w' n hgen with
            hnone | ⟨c', undos', v'', hcount', hburn', hsome⟩
          · rw [hnone]
            exact Or.inl rfl
          · obtain ⟨rfl, hout⟩ := countTxs_sim (hsim.trans hw') hcount hcount'
            have hzero : n + blockBurn l.nHeight w' l.block - uncounted l.block.vtx = n := by
              have hb : blockBurn l.nHeight w' l.block = l.burn := by
                obtain ⟨hf, hun⟩ := countTxs_spec hcount
                rw [zero_add] at hf hun
                rw [← hburn', ChainLink.burn, blockBurn, hf, hun]
              rw [hb, hburn, hunc]
              omega
            rw [hsome, hzero]
            cases env.writes with
            | false => exact Or.inl rfl
            | true => exact Or.inr ⟨envs', { v'' with hashBlock := l.block.hash }, hsimv.symm.trans hout, rfl⟩
    · cases hd

/-- What a run keeps: `nBurnedCoins` is the sum over the chain, and the chain belongs to the coins. -/
structure BurnInv (hashGenesisBlock : Uint256) (start : Int) (s : BurnState) : Prop where
  count : s.nBurnedCoins = start + (s.chain.map ChainLink.burn).sum
  good : s.view.Good
  connected : Connected s.chain s.view
  counted : ∀ l ∈ s.chain, uncounted l.block.vtx = 0 ∧ l.block.hash ≠ hashGenesisBlock

theorem Connected.take : ∀ {ls : List ChainLink} {w : CoinsView} (n : Nat), Connected ls w → Connected (ls.take n) w
  | [], _, n, h => by
    rw [List.take_nil]
    exact h
  | _ :: _, _, 0, _ => trivial
  | _ :: _, _, n + 1, ⟨hg, hH, hcount, hls⟩ => ⟨hg, hH, hcount, hls.take n⟩

namespace BurnInv

variable {hashGenesisBlock : Uint256} {start : Int} {s : BurnState}

theorem connectTip (h : BurnInv hashGenesisBlock start s) {env : ConnectChecks} {block : CBlock} {nHeight : Int32}
    (hw : env.writes = true) (hunc : uncounted block.vtx = 0) :
    BurnInv hashGenesisBlock start (BurnOp.step hashGenesisBlock s (.connectTip env block nHeight)) := by
  unfold BurnOp.step
  dsimp only
  split
  · exact h
  · rename_i hguard
    rw [not_or] at hguard
    rcases @connectBlock_cases hashGenesisBlock env block nHeight s.view s.nBurnedCoins hguard.2 with
      hnone | ⟨c, undos, view', hcount, -, hsome⟩
    · rw [hnone]
      exact h
    · rw [hsome, hw, if_pos rfl, hunc]
      have hgood : view'.Good := countTxs_good hguard.1 h.good hcount
      refine ⟨?_, hgood, ⟨h.good, hguard.1, ⟨c, undos, view', hcount, rfl, .refl _⟩, h.connected⟩, ?_⟩
      · have hcount := h.count
        show s.nBurnedCoins + blockBurn nHeight s.view block - 0 =
          start + (blockBurn nHeight s.view block + (s.chain.map ChainLink.burn).sum)
        omega
      · intro l hl
        rcases List.mem_cons.mp hl with rfl | hl
        · exact ⟨hunc, hguard.2⟩
        · exact h.counted l hl

theorem testBlock (h : BurnInv hashGenesisBlock start s) (env : ConnectChecks) (block : CBlock) (nHeight : Int32) :
    BurnInv hashGenesisBlock start (BurnOp.step hashGenesisBlock s (.testBlock env block nHeight)) := by
  have hn : (connectBlock hashGenesisBlock true env block nHeight s.view s.nBurnedCoins).2 = s.nBurnedCoins := by
    unfold connectBlock
    split
    · rfl
    · split
      · rfl
      · split
        · rfl
        · rfl
  unfold BurnOp.step
  dsimp only
  rw [hn]
  exact h

theorem disconnectTip (h : BurnInv hashGenesisBlock start s) {reads : Bool} (hz : ∀ l ∈ s.chain.head?, l.burn = 0) :
    BurnInv hashGenesisBlock start (BurnOp.step hashGenesisBlock s (.disconnectTip reads)) := by
  unfold BurnOp.step
  dsimp only
  split
  · exact h
  · rename_i l ls hchain
    split
    · split
      · rename_i view hdis
        have hcon := h.connected
        rw [hchain] at hcon
        obtain ⟨hsim, hls⟩ := hcon.disconnect hdis
        have hburn : l.burn = 0 := hz l (by rw [hchain]; rfl)
        refine ⟨?_, hsim.good hcon.1 (disconnectBlock_tidy h.good.tidy hdis), hls, fun l' hl' => h.counted l' ?_⟩
        · rw [h.count, hchain, List.map_cons, List.sum_cons, hburn, zero_add]
        · rw [hchain]
          exact List.mem_cons_of_mem _ hl'
      · exact h
    · exact h

theorem verifyDB (h : BurnInv hashGenesisBlock start s) {nCheckLevel nBlocks : Nat} {envs : List ConnectChecks}
    (hz : 4 ≤ nCheckLevel → ∀ l ∈ s.chain.take nBlocks, l.burn = 0) :
    BurnInv hashGenesisBlock start (BurnOp.step hashGenesisBlock s (.verifyDB nCheckLevel nBlocks envs)) := by
  unfold BurnOp.step
  dsimp only
  split
  · exact h
  · rename_i hlevel
    split
    · exact h
    · rename_i coins hdis
      have hzero : ∀ l ∈ s.chain.take nBlocks,
          l.burn = 0 ∧ uncounted l.block.vtx = 0 ∧ l.block.hash ≠ hashGenesisBlock :=
        fun l hl => ⟨hz (by omega) l hl, h.counted l (List.mem_of_mem_take hl)⟩
      have hn : reconnectMemory hashGenesisBlock (s.chain.take nBlocks).reverse envs coins s.nBurnedCoins =
          s.nBurnedCoins := by
        have hrec := reconnectMemory_append [] s.nBurnedCoins (h.connected.take nBlocks) hdis hzero envs
        rw [List.append_nil] at hrec
        rcases hrec with hrec | ⟨envs', w', -, hrec⟩
        · exact hrec
        · rw [hrec]
          unfold reconnectMemory
          rfl
      rw [hn]
      exact h

theorem step (h : BurnInv hashGenesisBlock start s) {op : BurnOp} (hok : op.Ok s) :
    BurnInv hashGenesisBlock start (op.step hashGenesisBlock s) := by
  cases op with
  | connectTip env block nHeight => exact h.connectTip hok.1 hok.2
  | testBlock env block nHeight => exact h.testBlock env block nHeight
  | disconnectTip reads => exact h.disconnectTip hok
  | verifyDB nCheckLevel nBlocks envs => exact h.verifyDB hok

end BurnInv

/-- An output of 10 coins with txid 7. -/
def tenCoins : CoinsView :=
  ⟨Function.update (fun _ => .empty) 7 ⟨false, false, [⟨10 * COIN, ([0x51] : List UInt8), -10⟩], 1, 1⟩, 100⟩

def passes : ConnectChecks := ⟨true, true⟩

end DigiWage
