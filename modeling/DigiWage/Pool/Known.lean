import DigiWage.Pool.Node

/-!
# Where the coins of a view come from

The views of a run hold outputs of the transactions of the run. `U` is the set of these transactions; no two have the
same hash.

* `Feeds`: one transaction spends an output of the other. It may have cycles on `U` as such, but what is in a view or in
  the pool is accessible: it rests, through its inputs, on transactions without inputs.
* `Known`: every entry of a view has outputs of a transaction of `U`, with its flags, and a height of the chain.
* `Known.countTxs` and `Known.disconnect`: connecting and disconnecting keep it.
-/

namespace DigiWage

open Lib CoinsView

/-- No two transactions of the set have the same hash. -/
def NoCollision (U : CTransaction → Prop) : Prop := ∀ tx tx', U tx → U tx' → tx.hash = tx'.hash → tx = tx'

/-- The transaction under the second hash spends an output of the one under the first. -/
def Feeds (U : CTransaction → Prop) (parent child : Uint256) : Prop :=
  ∃ tx, U tx ∧ tx.hash = child ∧ ∃ o ∈ tx.spends, o.hash = parent

/-- The coins show the output at the outpoint as a transaction of the set has it. -/
def ShowsOut (U : CTransaction → Prop) (view : CoinsView) (o : COutPoint) : Prop :=
  ∃ p, U p ∧ p.hash = o.hash ∧ (view.coins o.hash).out o.n = (CCoins.fromTx p 0).out o.n

/-- The entries of the view are of transactions of the set that rest on others in it, up to a height. -/
structure Known (U : CTransaction → Prop) (height : Nat) (view : CoinsView) : Prop where
  grounded : ∀ x, (view.coins x).isPruned = false → Acc (Feeds U) x
  shows : ∀ o, ((view.coins o.hash).out o.n).isNull = false → ShowsOut U view o
  coinBase : ∀ x, (view.coins x).isPruned = false → (view.coins x).fCoinBase = true → ∃ p, U p ∧ p.hash = x ∧ p.isCoinBase = true
  marked : ∀ p, U p → p.isCoinBase = true → (view.coins p.hash).isPruned = false → (view.coins p.hash).fCoinBase = true
  height : ∀ x, (view.coins x).isPruned = false → 0 ≤ (view.coins x).nHeight.toInt ∧ (view.coins x).nHeight.toInt ≤ height

/-- `fCoinStake` is set for coinstakes only, also in entries that are spent. -/
def StakesKnown (U : CTransaction → Prop) (view : CoinsView) : Prop :=
  ∀ x, (view.coins x).fCoinStake = true → ∃ p, U p ∧ p.hash = x ∧ p.isCoinStake = true

variable {U : CTransaction → Prop} {view view' : CoinsView} {height : Nat} {tx : CTransaction}

theorem out_fromTx (tx : CTransaction) (h : Int32) (n : Nat) : (CCoins.fromTx tx h).out n = (CCoins.fromTx tx 0).out n := rfl

theorem isAvailable_fromTx (tx : CTransaction) (h : Int32) (n : Nat) :
    (CCoins.fromTx tx h).isAvailable n = (CCoins.fromTx tx 0).isAvailable n := rfl

theorem lt_of_isAvailable_fromTx {h : Int32} {n : Nat} (ha : (CCoins.fromTx tx h).isAvailable n = true) :
    n < tx.vout.length := by
  obtain ⟨hn, -⟩ := CCoins.isAvailable_iff.mp ha
  have hlt := (List.getElem?_eq_some_iff.mp (CCoins.getElem?_of_out hn)).1
  have hlen : (CCoins.fromTx tx h).vout.length ≤ tx.vout.length := by
    refine (List.rdropWhile_prefix _ _).length_le.trans ?_
    simp
  omega

theorem ShowsOut.out_eq (hU : NoCollision U) {o : COutPoint} (h : ShowsOut U view o) (h' : ShowsOut U view' o) :
    (view'.coins o.hash).out o.n = (view.coins o.hash).out o.n := by
  obtain ⟨p, hp, hhash, hout⟩ := h
  obtain ⟨p', hp', hhash', hout'⟩ := h'
  rw [hU p' p hp' hp (hhash'.trans hhash.symm)] at hout'
  rw [hout, hout']

theorem acc_of_spends (hU : NoCollision U) (htx : U tx) (h : ∀ o ∈ tx.spends, Acc (Feeds U) o.hash) :
    Acc (Feeds U) tx.hash := by
  apply Acc.intro
  rintro y ⟨tx', htx', hhash, o, ho, rfl⟩
  rw [hU tx' tx htx' htx hhash] at ho
  exact h o ho

/-! ## Connecting -/

theorem Known.spendInputs (hk : Known U height view) (hv : view.Good) {os : List COutPoint} {undos : CTxUndo}
    (h : view.spendInputs os = some (undos, view')) : Known U height view' := by
  have hpruned : ∀ x, (view'.coins x).isPruned = false → (view.coins x).isPruned = false := by
    intro x hx
    by_contra hp
    rw [Bool.not_eq_false] at hp
    rw [spendInputs_isPruned hv h hp] at hx
    cases hx
  refine ⟨fun x hx => hk.grounded x (hpruned x hx), fun o ho => ?_, fun x hx hcb => ?_, fun p hp hcb hx => ?_, fun x hx => ?_⟩
  · have hout := spendInputs_out hv h o.hash o.n
    split at hout
    · rw [hout] at ho
      cases ho
    · rw [hout] at ho
      obtain ⟨p, hp, hhash, heq⟩ := hk.shows o ho
      exact ⟨p, hp, hhash, hout.trans heq⟩
  · obtain ⟨vout, hvout⟩ := spendInputs_meta h x
    rw [hvout] at hcb
    exact hk.coinBase x (hpruned x hx) hcb
  · obtain ⟨vout, hvout⟩ := spendInputs_meta h p.hash
    rw [hvout]
    exact hk.marked p hp hcb (hpruned _ hx)
  · obtain ⟨vout, hvout⟩ := spendInputs_meta h x
    rw [hvout]
    exact hk.height x (hpruned x hx)

theorem Known.fromTx (hU : NoCollision U) (hk : Known U height view) (htx : U tx) (hacc : Acc (Feeds U) tx.hash) {nHeight : Int32}
    (hclean : (CCoins.fromTx tx nHeight).Clean) (hlow : 0 ≤ nHeight.toInt) (hhigh : nHeight.toInt ≤ height) :
    Known U height (view.modifyCoins tx.hash fun _ => CCoins.fromTx tx nHeight) := by
  have hself : (view.modifyCoins tx.hash fun _ => CCoins.fromTx tx nHeight).coins tx.hash = CCoins.fromTx tx nHeight := by
    rw [modifyCoins_self, hclean.cleanup_eq]
  refine ⟨fun x hx => ?_, fun o ho => ?_, fun x hx hcb => ?_, fun p hp hcb hx => ?_, fun x hx => ?_⟩
  · by_cases heq : x = tx.hash
    · exact heq ▸ hacc
    · rw [modifyCoins_of_ne _ _ heq] at hx
      exact hk.grounded x hx
  · by_cases heq : o.hash = tx.hash
    · refine ⟨tx, htx, heq.symm, ?_⟩
      rw [heq, hself, out_fromTx]
    · rw [modifyCoins_of_ne _ _ heq] at ho
      obtain ⟨p, hp, hhash, hout⟩ := hk.shows o ho
      refine ⟨p, hp, hhash, ?_⟩
      rw [modifyCoins_of_ne _ _ heq, hout]
  · by_cases heq : x = tx.hash
    · subst heq
      rw [hself] at hcb
      exact ⟨tx, htx, rfl, hcb⟩
    · rw [modifyCoins_of_ne _ _ heq] at hx hcb
      exact hk.coinBase x hx hcb
  · by_cases heq : p.hash = tx.hash
    · rw [heq, hself, ← hU p tx hp htx heq]
      exact hcb
    · rw [modifyCoins_of_ne _ _ heq] at hx ⊢
      exact hk.marked p hp hcb hx
  · by_cases heq : x = tx.hash
    · subst heq
      rw [hself]
      exact ⟨hlow, hhigh⟩
    · rw [modifyCoins_of_ne _ _ heq] at hx ⊢
      exact hk.height x hx

theorem Known.mono (hk : Known U height view) {height' : Nat} (h : height ≤ height') : Known U height' view := by
  refine ⟨hk.grounded, hk.shows, hk.coinBase, hk.marked, fun x hx => ?_⟩
  obtain ⟨hlow, hhigh⟩ := hk.height x hx
  exact ⟨hlow, by omega⟩

theorem StakesKnown.spendInputs (hs : StakesKnown U view) {os : List COutPoint} {undos : CTxUndo}
    (h : view.spendInputs os = some (undos, view')) : StakesKnown U view' := by
  intro x hx
  obtain ⟨vout, hvout⟩ := spendInputs_meta h x
  rw [hvout] at hx
  exact hs x hx

theorem StakesKnown.fromTx (hs : StakesKnown U view) (htx : U tx) (nHeight : Int32) :
    StakesKnown U (view.modifyCoins tx.hash fun _ => CCoins.fromTx tx nHeight) := by
  intro x hx
  by_cases heq : x = tx.hash
  · subst heq
    rw [modifyCoins_self] at hx
    exact ⟨tx, htx, rfl, hx⟩
  · rw [modifyCoins_of_ne _ _ heq] at hx
    exact hs x hx

theorem spends_of_spendInputs : ∀ {os : List COutPoint} {view view' : CoinsView} {undos : CTxUndo}, view.Good →
    view.spendInputs os = some (undos, view') → ∀ o ∈ os, ((view.coins o.hash).out o.n).isNull = false := by
  intro os
  induction os with
  | nil => simp
  | cons o os ih =>
    intro view view' undos hv h o' ho'
    obtain ⟨_, _, view₁, h₁, h₂, -⟩ := spendInputs_cons h
    rcases List.mem_cons.mp ho' with rfl | ho'
    · exact (spendInput_some h₁).1
    · have hout := spendInput_out hv h₁ o'.hash o'.n
      have hnull := ih (spendInput_good hv h₁) h₂ o' ho'
      split at hout
      · rw [hout] at hnull
        cases hnull
      · rw [← hout]
        exact hnull

/-- The view after `UpdateCoins`. -/
structure Updates (tx : CTransaction) (nHeight : Int32) (view view' : CoinsView) : Prop where
  good : view'.Good
  self : view'.coins tx.hash = CCoins.fromTx tx nHeight
  out : ∀ x n, x ≠ tx.hash → (view'.coins x).out n =
    if (⟨x, n⟩ : COutPoint) ∈ tx.spends then CTxOut.null else (view.coins x).out n
  fields : ∀ x, x ≠ tx.hash → ∃ vout, view'.coins x = { view.coins x with vout := vout }

theorem updates_of_spendInputs (hv : view.Good) {nHeight : Int32} (hne : nHeight ≠ 0) (hvalues : ∀ o ∈ tx.vout, 0 ≤ o.nValue)
    {v₁ : CoinsView} {txundo : CTxUndo} (h : view.spendInputs tx.spends = some (txundo, v₁)) :
    Updates tx nHeight view (v₁.modifyCoins tx.hash fun _ => CCoins.fromTx tx nHeight) := by
  have hclean := CCoins.clean_fromTx hvalues nHeight
  refine ⟨(spendInputs_good hv h).modifyCoins _ ⟨hclean, fun _ => hne⟩, ?_, fun x n hx => ?_, fun x hx => ?_⟩
  · rw [modifyCoins_self, hclean.cleanup_eq]
  · rw [modifyCoins_of_ne _ _ hx]
    exact spendInputs_out hv h x n
  · rw [modifyCoins_of_ne _ _ hx]
    exact spendInputs_meta h x

/-- The view of one more transaction of a block. -/
structure TxConnects (U : CTransaction → Prop) (height : Nat) (tx : CTransaction) (view view' : CoinsView) : Prop where
  updates : ∃ nHeight, Updates tx nHeight view view'
  known : Known U height view'
  stakes : StakesKnown U view'
  absent : (view.coins tx.hash).isPruned = true

theorem txConnects (hU : NoCollision U) (hv : view.Good) (hk : Known U height view) (hs : StakesKnown U view)
    {nHeight : Int32} (hlow : 0 < nHeight.toInt) (hhigh : nHeight.toInt ≤ height) (htx : U tx) {v₁ : CoinsView}
    {txundo : CTxUndo} {a : Int} (habsent : (view.coins tx.hash).isPruned = true) (ha : tx.getValueOut = some a)
    (h : view.spendInputs tx.spends = some (txundo, v₁)) :
    TxConnects U height tx view (v₁.modifyCoins tx.hash fun _ => CCoins.fromTx tx nHeight) := by
  have hvalues := CTransaction.nonneg_of_getValueOut ha
  have hne : nHeight ≠ 0 := by
    rintro rfl
    exact absurd hlow (by decide)
  have hacc : Acc (Feeds U) tx.hash := by
    apply acc_of_spends hU htx
    intro o ho
    exact hk.grounded o.hash (CCoins.not_isPruned_of_out (spends_of_spendInputs hv h o ho))
  exact ⟨⟨nHeight, updates_of_spendInputs hv hne hvalues h⟩,
    (hk.spendInputs hv h).fromTx hU htx hacc (CCoins.clean_fromTx hvalues nHeight) hlow.le hhigh,
    (hs.spendInputs h).fromTx htx nHeight, habsent⟩

/-- The rounds of the loop of `ConnectBlock`, one view after the other. -/
inductive Connects (U : CTransaction → Prop) (height : Nat) : List CTransaction → CoinsView → CoinsView → Prop where
  | nil (view : CoinsView) : Connects U height [] view view
  | cons {tx : CTransaction} {txs : List CTransaction} {view view₁ view' : CoinsView} (htx : U tx)
      (head : TxConnects U height tx view view₁) (tail : Connects U height txs view₁ view') :
      Connects U height (tx :: txs) view view'

theorem connects_of_countTxs (hU : NoCollision U) {nHeight : Int32} (hlow : 0 < nHeight.toInt)
    (hhigh : nHeight.toInt ≤ height) : ∀ {txs : List CTransaction} {view view' : CoinsView} {c c' : Counters}
    {undos : CBlockUndo}, (∀ tx ∈ txs, U tx) → view.Good → Known U height view → StakesKnown U view →
    countTxs nHeight txs view c = some (c', undos, view') → Connects U height txs view view' := by
  intro txs
  induction txs with
  | nil =>
    intro view view' c c' undos _ _ _ _ h
    cases h
    exact .nil view
  | cons tx txs ih =>
    intro view view' c c' undos hin hv hk hs h
    obtain ⟨_, txundo, rest, v₁, hp, ⟨a, ha⟩, -, h₁, -, h₂⟩ := countTxs_cons h
    have htx := hin tx List.mem_cons_self
    have hstep := txConnects hU hv hk hs hlow hhigh htx hp ha h₁
    obtain ⟨_, hupdates⟩ := hstep.updates
    exact .cons htx hstep (ih (fun tx' h' => hin tx' (List.mem_cons_of_mem _ h')) hupdates.good hstep.known hstep.stakes h₂)

namespace Connects

variable {txs : List CTransaction}

theorem known (h : Connects U height txs view view') (hv : view.Good) (hk : Known U height view) (hs : StakesKnown U view) :
    view'.Good ∧ Known U height view' ∧ StakesKnown U view' := by
  induction h with
  | nil view => exact ⟨hv, hk, hs⟩
  | cons _ head _ ih =>
    obtain ⟨_, hupdates⟩ := head.updates
    exact ih hupdates.good head.known head.stakes

theorem out_of_notMem (h : Connects U height txs view view') {o : COutPoint} (hnot : o.hash ∉ txs.map CTransaction.hash)
    (hout : ((view'.coins o.hash).out o.n).isNull = false) :
    (view.coins o.hash).out o.n = (view'.coins o.hash).out o.n := by
  induction h with
  | nil view => rfl
  | cons _ head _ ih =>
    rw [List.map_cons, List.mem_cons, not_or] at hnot
    have heq := ih hnot.2 hout
    obtain ⟨_, hupdates⟩ := head.updates
    have hstep := hupdates.out o.hash o.n hnot.1
    split at hstep
    · rw [← heq, hstep] at hout
      cases hout
    · rw [← hstep, heq]

end Connects

/-! ## Disconnecting -/

theorem disconnectBlock_stakes {block : CBlock} {nHeight : Int32} {undos : CBlockUndo} {b : Bool}
    (hs : StakesKnown U view) (hd : disconnectBlock block nHeight view undos = some (b, view')) : StakesKnown U view' := by
  refine disconnectBlock_keeps (P := StakesKnown U) (fun w txid hw x hx => ?_) (fun w undo o hw x hx => ?_)
    (fun _ _ hw => hw) hs hd
  · by_cases heq : x = txid
    · subst heq
      rw [modifyCoins_self] at hx
      cases hx
    · rw [modifyCoins_of_ne _ _ heq] at hx
      exact hw x hx
  · by_cases heq : x = o.hash
    · subst heq
      rw [modifyCoins_self] at hx
      unfold restoreCoins at hx
      dsimp only at hx
      split at hx
      · cases hx
      · exact hw o.hash hx
    · rw [modifyCoins_of_ne _ _ heq] at hx
      exact hw x hx

theorem Known.sim (hk : Known U height view) (h : Sim view view') : Known U height view' := by
  have hpruned : ∀ x, (view'.coins x).isPruned = false → (view.coins x).isPruned = false := by
    intro x hx
    rw [← h.isPruned]
    exact hx
  have heq : ∀ x, (view'.coins x).isPruned = false → ∃ b, view'.coins x = (view.coins x).withStake b :=
    fun x hx => h.eq_withStake (hpruned x hx)
  refine ⟨fun x hx => hk.grounded x (hpruned x hx), fun o ho => ?_, fun x hx hcb => ?_, fun p hp hcb hx => ?_, fun x hx => ?_⟩
  · obtain ⟨b, hb⟩ := heq o.hash (CCoins.not_isPruned_of_out ho)
    rw [hb, CCoins.out_withStake] at ho
    obtain ⟨p, hp, hhash, hout⟩ := hk.shows o ho
    refine ⟨p, hp, hhash, ?_⟩
    rw [hb, CCoins.out_withStake, hout]
  · obtain ⟨b, hb⟩ := heq x hx
    rw [hb] at hcb
    exact hk.coinBase x (hpruned x hx) hcb
  · obtain ⟨b, hb⟩ := heq p.hash hx
    rw [hb]
    exact hk.marked p hp hcb (hpruned _ hx)
  · obtain ⟨b, hb⟩ := heq x hx
    rw [hb]
    exact hk.height x (hpruned x hx)

theorem Sim.isAvailable (h : Sim view view') {x : Uint256} {n : Nat} (ha : (view.coins x).isAvailable n = true) :
    (view'.coins x).isAvailable n = true := by
  obtain ⟨hn, hz⟩ := CCoins.isAvailable_iff.mp ha
  obtain ⟨b, hb⟩ := h.eq_withStake (CCoins.not_isPruned_of_out hn)
  rw [hb, CCoins.isAvailable_iff, CCoins.out_withStake]
  exact ⟨hn, hz⟩

end DigiWage
