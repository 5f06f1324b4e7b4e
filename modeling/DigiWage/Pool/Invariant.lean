import DigiWage.Pool.Known

/-!
# What the pool keeps

`PoolInv`: pool and chain fit together. The pool is well-formed; its transactions are of the run, final in amount
(`PoolTx`), and every input is an output of the pool or of `pcoinsTip`, the latter mature at the next height.

* `Fits`: a pool and a view fit together. `Shrinks`: a removal takes the children along, so that no input loses its output.
* Connecting a block moves pool and view on together, one transaction at a time (`Inputs.removeForTx`).
* Disconnecting moves the view first. Meanwhile an input may also be an output of a transaction of the block that has
  not been looked at yet (`Waits`), and the loop of `DisconnectTip` resolves these.
-/

namespace DigiWage

open Lib CoinsView CTxMemPool

/-! ## `CheckInputs` on views with the same outputs -/

/-- The coins may be spent at the height. -/
def CCoins.Mature (maturity nSpendHeight : Int) (c : CCoins) : Prop :=
  (c.fCoinBase || c.fCoinStake) = true → maturity ≤ nSpendHeight - c.nHeight.toInt

theorem CCoins.Mature.mono {maturity h h' : Int} {c : CCoins} (hm : c.Mature maturity h) (hle : h ≤ h') :
    c.Mature maturity h' := by
  intro hf
  have := hm hf
  omega

section CheckInputs

variable {env : ConnectEnv} {view view' : CoinsView} {h h' : Int} {tx : CTransaction}

theorem checkInputValues_mature : ∀ {vin : List CTxIn} {a r : Int}, env.checkInputValues view h a vin = some r →
    ∀ txin ∈ vin, (view.coins txin.prevout.hash).Mature env.nCoinbaseMaturity h := by
  intro vin
  induction vin with
  | nil => simp
  | cons txin vin ih =>
    intro a r hr txin' hin
    unfold ConnectEnv.checkInputValues at hr
    dsimp only at hr
    split at hr
    · cases hr
    · rename_i hm
      split at hr
      · cases hr
      · rcases List.mem_cons.mp hin with rfl | hin
        · intro hf
          rw [hf] at hm
          simp at hm
          omega
        · exact ih hr txin' hin

theorem checkInputValues_congr : ∀ {vin : List CTxIn} {a r : Int}, env.checkInputValues view h a vin = some r →
    (∀ txin ∈ vin, (view'.coins txin.prevout.hash).out txin.prevout.n = (view.coins txin.prevout.hash).out txin.prevout.n) →
    (∀ txin ∈ vin, (view'.coins txin.prevout.hash).Mature env.nCoinbaseMaturity h') →
    env.checkInputValues view' h' a vin = some r := by
  intro vin
  induction vin with
  | nil =>
    intro a r hr _ _
    exact hr
  | cons txin vin ih =>
    intro a r hr hout hm
    unfold ConnectEnv.checkInputValues at hr ⊢
    dsimp only at hr ⊢
    split at hr
    · cases hr
    · split at hr
      · cases hr
      · rename_i hrange
        have hmature : ¬ (((view'.coins txin.prevout.hash).fCoinBase || (view'.coins txin.prevout.hash).fCoinStake) &&
            decide (h' - (view'.coins txin.prevout.hash).nHeight.toInt < env.nCoinbaseMaturity)) = true := by
          have := hm txin List.mem_cons_self
          unfold CCoins.Mature at this
          cases hf : (view'.coins txin.prevout.hash).fCoinBase || (view'.coins txin.prevout.hash).fCoinStake with
          | false => simp
          | true =>
            have hle := this hf
            simp
            omega
        rw [if_neg hmature, hout txin List.mem_cons_self, if_neg hrange]
        exact ih hr (fun t ht => hout t (List.mem_cons_of_mem _ ht)) (fun t ht => hm t (List.mem_cons_of_mem _ ht))

theorem checkInputs_congr (hc : env.checkInputs view h tx = true) (hhave : view'.haveInputs tx = true)
    (hout : ∀ txin ∈ tx.vin,
      (view'.coins txin.prevout.hash).out txin.prevout.n = (view.coins txin.prevout.hash).out txin.prevout.n)
    (hm : ∀ txin ∈ tx.vin, (view'.coins txin.prevout.hash).Mature env.nCoinbaseMaturity h') :
    env.checkInputs view' h' tx = true := by
  unfold ConnectEnv.checkInputs at hc ⊢
  rw [Bool.and_eq_true] at hc ⊢
  refine ⟨hhave, ?_⟩
  cases hr : env.checkInputValues view h 0 tx.vin with
  | none =>
    rw [hr] at hc
    exact absurd hc.2 (by simp)
  | some r =>
    rw [hr] at hc
    rw [checkInputValues_congr hr hout hm]
    exact hc.2

theorem checkInputs_spec (hc : env.checkInputs view h tx = true) : view.haveInputs tx = true ∧
    ∀ txin ∈ tx.vin, (view.coins txin.prevout.hash).Mature env.nCoinbaseMaturity h := by
  unfold ConnectEnv.checkInputs at hc
  rw [Bool.and_eq_true] at hc
  refine ⟨hc.1, ?_⟩
  cases hr : env.checkInputValues view h 0 tx.vin with
  | none =>
    rw [hr] at hc
    exact absurd hc.2 (by simp)
  | some r => exact checkInputValues_mature hr

end CheckInputs

/-! ## The transactions of the pool and their inputs -/

/-- What a transaction of the pool is, whatever the chain. -/
structure PoolTx (U : CTransaction → Prop) (env : PoolEnv) (tx : CTransaction) : Prop where
  mem : U tx
  grounded : Acc (Feeds U) tx.hash
  zerocoins : tx.containsZerocoins = false
  coinBase : tx.isCoinBase = false
  coinStake : tx.isCoinStake = false
  distinct : (tx.vin.map CTxIn.prevout).Nodup
  values : ∀ o ∈ tx.vout, 0 ≤ o.nValue
  approved : ∃ view h, env.checkInputs view h tx = true ∧ ∀ txin ∈ tx.vin, ShowsOut U view txin.prevout

namespace PoolTx

variable {U : CTransaction → Prop} {env : PoolEnv} {tx : CTransaction}

theorem hasZerocoinSpendInputs (h : PoolTx U env tx) : tx.hasZerocoinSpendInputs = false :=
  (Bool.or_eq_false_iff.mp h.zerocoins).1

theorem spends (h : PoolTx U env tx) : tx.spends = tx.vin.map CTxIn.prevout := by
  unfold CTransaction.spends
  simp [h.coinBase, h.hasZerocoinSpendInputs]

end PoolTx

namespace CTxMemPool

/-- The pool has the output. -/
def FromPool (pool : CTxMemPool) (o : COutPoint) : Prop :=
  ∃ parent, pool.mapTx.lookup o.hash = some parent ∧ (CCoins.fromTx parent.tx 0).isAvailable o.n = true

/-- The pool does not have the transaction, and the view has the output. -/
def FromView (pool : CTxMemPool) (view : CoinsView) (o : COutPoint) : Prop :=
  pool.mapTx.lookup o.hash = none ∧ (view.coins o.hash).isAvailable o.n = true

/-- The pool does not have the transaction, which is one of the list, with the output. -/
def Waits (pool : CTxMemPool) (txs : List CTransaction) (o : COutPoint) : Prop :=
  pool.mapTx.lookup o.hash = none ∧ ∃ p ∈ txs, p.hash = o.hash ∧ (CCoins.fromTx p 0).isAvailable o.n = true

/-- Every transaction of the pool. -/
def Txs (pool : CTxMemPool) (P : CTransaction → Prop) : Prop :=
  ∀ hash entry, pool.mapTx.lookup hash = some entry → P entry.tx

/-- Every input of the pool. -/
def Inputs (pool : CTxMemPool) (P : COutPoint → Prop) : Prop := pool.Txs fun tx => ∀ txin ∈ tx.vin, P txin.prevout

variable {pool pool' : CTxMemPool} {view view' : CoinsView} {U : CTransaction → Prop} {env : PoolEnv} {tx : CTransaction}

theorem Sub.txs (h : Sub pool' pool) {P : CTransaction → Prop} (hp : pool.Txs P) : pool'.Txs P :=
  fun hash entry hentry => hp hash entry (h hash entry hentry)

theorem Closed.refl (pool : CTxMemPool) : Closed pool pool := fun _ _ _ _ _ _ hparent _ => hparent

theorem Closed.trans {pool'' : CTxMemPool} (h₂ : Closed pool'' pool') (hs : Sub pool'' pool') (h₁ : Closed pool' pool) :
    Closed pool'' pool := by
  intro hash entry hentry txin hin parent hparent hn
  exact h₂ hash entry hentry txin hin parent (h₁ hash entry (hs hash entry hentry) txin hin parent hparent hn) hn

theorem FromPool.closed (hc : Closed pool' pool) {hash : Uint256} {entry : CTxMemPoolEntry}
    (hentry : pool'.mapTx.lookup hash = some entry) {txin : CTxIn} (hin : txin ∈ entry.tx.vin)
    (h : pool.FromPool txin.prevout) : pool'.FromPool txin.prevout := by
  obtain ⟨parent, hparent, ha⟩ := h
  exact ⟨parent, hc hash entry hentry txin hin parent hparent (lt_of_isAvailable_fromTx ha), ha⟩

theorem Sub.fromView (hs : Sub pool' pool) {o : COutPoint} (h : pool.FromView view o) : pool'.FromView view o :=
  ⟨hs.lookup_eq_none h.1, h.2⟩

/-! ## Removals -/

/-- A removal that takes the children along. -/
structure Shrinks (pool pool' : CTxMemPool) : Prop where
  wf : pool'.Wf
  sub : Sub pool' pool
  closed : Closed pool' pool

theorem Shrinks.refl (h : pool.Wf) : Shrinks pool pool := ⟨h, .refl pool, .refl pool⟩

theorem Shrinks.trans {pool'' : CTxMemPool} (h₁ : Shrinks pool pool') (h₂ : Shrinks pool' pool'') : Shrinks pool pool'' :=
  ⟨h₂.wf, h₂.sub.trans h₁.sub, h₂.closed.trans h₂.sub h₁.closed⟩

theorem shrinks_remove (h : pool.Wf) (tx : CTransaction) : Shrinks pool (pool.remove tx true).2 :=
  ⟨(removes_true h tx).1.wf, (removes_true h tx).1.sub, (removes_true h tx).1.closed rfl⟩

theorem gone_remove (h : pool.Wf) (tx : CTransaction) : (pool.remove tx true).2.mapTx.lookup tx.hash = none :=
  (removes_true h tx).1.gone tx.hash (List.mem_singleton.mpr rfl)

theorem shrinks_foldl : ∀ (txs : List CTransaction) {pool : CTxMemPool}, pool.Wf →
    Shrinks pool (txs.foldl (fun pool tx => (pool.remove tx true).2) pool) ∧
    ∀ tx ∈ txs, (txs.foldl (fun pool tx => (pool.remove tx true).2) pool).mapTx.lookup tx.hash = none := by
  intro txs
  induction txs with
  | nil =>
    intro pool h
    exact ⟨.refl h, by simp⟩
  | cons tx txs ih =>
    intro pool h
    have hfirst := shrinks_remove h tx
    obtain ⟨hrest, hgone⟩ := ih hfirst.wf
    refine ⟨hfirst.trans hrest, fun tx' hin => ?_⟩
    rcases List.mem_cons.mp hin with rfl | hin
    · exact hrest.sub.lookup_eq_none (gone_remove h tx')
    · exact hgone tx' hin

theorem shrinks_removeConflict (h : pool.Wf) (hash : Uint256) (removed : List CTransaction) (txin : CTxIn) :
    Shrinks pool (removeConflict hash (removed, pool) txin).2 ∧
    ∀ p, (removeConflict hash (removed, pool) txin).2.Spends txin.prevout p → p.ptx = hash := by
  unfold removeConflict
  dsimp only
  cases hnext : pool.mapNextTx.lookup txin.prevout with
  | none =>
    refine ⟨.refl h, fun p hp => ?_⟩
    have hp : pool.Spends txin.prevout p := hp
    rw [← h.next, hnext] at hp
    cases hp
  | some q =>
    obtain ⟨entry, hentry, hvin⟩ := (h.next _ _).mp hnext
    rw [Option.bind_some, hentry]
    dsimp only
    have hkey := h.keyed _ _ hentry
    split
    · rename_i heq
      refine ⟨.refl h, fun p hp => ?_⟩
      rw [h.spends_unique hp ⟨entry, hentry, hvin⟩, ← hkey, heq]
    · refine ⟨shrinks_remove h entry.tx, fun p hp => ?_⟩
      obtain ⟨e, he, hin⟩ := hp
      have hpq := h.spends_unique ⟨e, (shrinks_remove h entry.tx).sub _ _ he, hin⟩ ⟨entry, hentry, hvin⟩
      rw [hpq, ← hkey, gone_remove h entry.tx] at he
      cases he

theorem shrinks_removeConflicts (tx : CTransaction) (removed : List CTransaction) (h : pool.Wf) :
    Shrinks pool (removeConflicts tx (removed, pool)).2 ∧
    ∀ txin ∈ tx.vin, ∀ p, (removeConflicts tx (removed, pool)).2.Spends txin.prevout p → p.ptx = tx.hash := by
  unfold removeConflicts
  generalize tx.vin = vin
  induction vin generalizing pool removed with
  | nil => exact ⟨.refl h, by simp⟩
  | cons txin vin ih =>
    rw [List.foldl_cons]
    obtain ⟨hfirst, hgone⟩ := shrinks_removeConflict h tx.hash removed txin
    generalize removeConflict tx.hash (removed, pool) txin = r at hfirst hgone
    obtain ⟨removed', pool'⟩ := r
    obtain ⟨hrest, hgone'⟩ := ih removed' hfirst.wf
    refine ⟨hfirst.trans hrest, fun txin' hin p hp => ?_⟩
    rcases List.mem_cons.mp hin with rfl | hin
    · obtain ⟨e, he, hvin⟩ := hp
      exact hgone p ⟨e, hrest.sub _ _ he, hvin⟩
    · exact hgone' txin' hin p hp

/-! ## Connecting a block -/

theorem mem_spends {o : COutPoint} (h : o ∈ tx.spends) : ∃ txin ∈ tx.vin, txin.prevout = o := by
  unfold CTransaction.spends at h
  split at h
  · cases h
  · exact List.mem_map.mp h

/-- An input has its output, mature at the height if it is on the chain. -/
def Funded (env : PoolEnv) (view : CoinsView) (h : Int) (pool : CTxMemPool) (o : COutPoint) : Prop :=
  pool.FromPool o ∨ (pool.FromView view o ∧ (view.coins o.hash).Mature env.nCoinbaseMaturity h)

/-- Pool and view fit together. -/
structure Fits (U : CTransaction → Prop) (env : PoolEnv) (view : CoinsView) (h : Int) (pool : CTxMemPool) : Prop where
  wf : pool.Wf
  txs : pool.Txs (PoolTx U env)
  inputs : pool.Inputs (pool.Funded env view h)

theorem Fits.removeForTx (hU : NoCollision U) {h : Int} {height : Nat} (hf : pool.Fits U env view h) (htx : U tx)
    (hc : TxConnects U height tx view view') (removed : List CTransaction) :
    (removeConflicts tx (removed, (pool.remove tx false).2)).2.Fits U env view' h := by
  obtain ⟨nHeight, hu⟩ := hc.updates
  have hfirst := removes_false hf.wf tx
  obtain ⟨hrest, hconflicts⟩ := shrinks_removeConflicts tx removed hfirst.wf
  generalize (pool.remove tx false).2 = pool₁ at hfirst hrest hconflicts ⊢
  generalize (removeConflicts tx (removed, pool₁)).2 = pool₂ at hrest hconflicts ⊢
  have hsub := hrest.sub.trans hfirst.sub
  have hgone : pool₂.mapTx.lookup tx.hash = none :=
    hrest.sub.lookup_eq_none (hfirst.gone tx.hash (List.mem_singleton.mpr rfl))
  refine ⟨hrest.wf, hsub.txs hf.txs, fun hash entry hentry txin hin => ?_⟩
  rcases hf.inputs hash entry (hsub hash entry hentry) txin hin with ⟨parent, hparent, ha⟩ | ⟨hview, hm⟩
  · by_cases heq : txin.prevout.hash = tx.hash
    · -- The parent is the transaction of the block: it leaves the pool for the chain.
      have hpool := hf.txs _ _ hparent
      have htxeq : parent.tx = tx := hU _ _ hpool.mem htx ((hf.wf.keyed _ _ hparent).trans heq)
      rw [htxeq] at ha hpool
      refine .inr ⟨⟨heq ▸ hgone, ?_⟩, fun hflag => ?_⟩
      · rw [heq, hu.self, isAvailable_fromTx]
        exact ha
      · rw [heq, hu.self] at hflag
        exact absurd hflag (by simp [CCoins.fromTx, CCoins.clearUnspendable, hpool.coinBase, hpool.coinStake])
    · have hparent₁ : pool₁.mapTx.lookup txin.prevout.hash = some parent := by
        rw [hfirst.others rfl _ (by simpa using heq), hparent]
      exact .inl (FromPool.closed hrest.closed hentry hin ⟨parent, hparent₁, ha⟩)
  · obtain ⟨hn, hz⟩ := CCoins.isAvailable_iff.mp hview.2
    have hne : txin.prevout.hash ≠ tx.hash := by
      intro heq
      have hnot := CCoins.not_isPruned_of_out hn
      rw [heq, hc.absent] at hnot
      cases hnot
    have hkept : txin.prevout ∉ tx.spends := by
      intro hmem
      obtain ⟨txin', hin', heq⟩ := mem_spends hmem
      obtain ⟨i, hi⟩ := List.getElem?_of_mem hin
      have hptx := hconflicts txin' hin' ⟨hash, i⟩ ⟨entry, hentry, by rw [hi, Option.map_some, heq]⟩
      have hptx : hash = tx.hash := hptx
      rw [hptx, hgone] at hentry
      cases hentry
    have hout := hu.out txin.prevout.hash txin.prevout.n hne
    rw [if_neg hkept] at hout
    obtain ⟨vout, hvout⟩ := hu.fields _ hne
    refine .inr ⟨⟨hsub.lookup_eq_none hview.1, ?_⟩, ?_⟩
    · rw [CCoins.isAvailable_iff, hout]
      exact ⟨hn, hz⟩
    · rw [hvout]
      exact hm

theorem Fits.removeForBlock (hU : NoCollision U) {h : Int} {height : Nat} {txs : List CTransaction}
    (hc : Connects U height txs view view') : ∀ {pool : CTxMemPool}, pool.Fits U env view h →
    (pool.removeForBlock txs).2.Fits U env view' h := by
  have hgeneral : ∀ (removed : List CTransaction) {pool : CTxMemPool}, pool.Fits U env view h →
      (txs.foldl (fun r tx => removeConflicts tx (r.1, (r.2.remove tx false).2)) (removed, pool)).2.Fits U env view' h := by
    induction hc with
    | nil view =>
      intro removed pool hf
      exact hf
    | cons htx head _ ih =>
      intro removed pool hf
      rw [List.foldl_cons]
      exact ih _ (hf.removeForTx hU htx head removed)
  intro pool hf
  exact hgeneral [] hf

/-! ## `AcceptToMemoryPool` -/

/-- What `AcceptToMemoryPool` has seen of a transaction that it takes. -/
structure Accepts (env : PoolEnv) (s : PoolNode) (view : CoinsView) (nSpendHeight : Nat) (pool : CTxMemPool)
    (tx : CTransaction) : Prop where
  zerocoins : tx.containsZerocoins = false
  sound : env.Sound tx
  coinBase : tx.isCoinBase = false
  coinStake : tx.isCoinStake = false
  final : s.checkFinalTx env tx = true
  standard : env.params.isRegTestNet = false → isFinalTx s.adjustedTime tx (s.height + 1) 0 = true
  new : pool.mapTx.lookup tx.hash = none
  free : ∀ txin ∈ tx.vin, pool.mapNextTx.lookup txin.prevout = none
  absent : (view.coins tx.hash).isPruned = true
  inputs : env.checkInputs (pool.poolView view) nSpendHeight tx = true

theorem poolView_of_none {x : Uint256} (h : pool.mapTx.lookup x = none) : (pool.poolView view).coins x = view.coins x := by
  unfold poolView
  simp [h]

theorem poolView_of_some {x : Uint256} {entry : CTxMemPoolEntry} (h : pool.mapTx.lookup x = some entry) :
    (pool.poolView view).coins x = CCoins.fromTx entry.tx mempoolHeight := by
  unfold poolView
  simp [h]

theorem acceptToMemoryPool_some {relay : RelayEnv} {s : PoolNode} {nSpendHeight : Nat}
    (h : s.acceptToMemoryPool env relay view nSpendHeight pool tx = some pool') :
    Accepts env s view nSpendHeight pool tx ∧
      pool' = pool.addUnchecked tx.hash ⟨tx, env.txSize tx⟩ := by
  unfold PoolNode.acceptToMemoryPool at h
  simp only [Option.ite_none_left_eq_some] at h
  obtain ⟨hz, hcheck, hcb, hfinal, hstandard, hin, hfree, habsent, -, hinputs, h⟩ := h
  have hnew : pool.mapTx.lookup tx.hash = none := by
    simpa [contains] using hin
  rw [Bool.not_eq_true, Bool.or_eq_false_iff] at hcb
  refine ⟨⟨by simpa using hz, ?_, hcb.1, hcb.2, by simpa using hfinal, fun hnet => ?_, hnew, fun txin htxin => ?_, ?_,
    by simpa using hinputs⟩, (Option.some.inj h).symm⟩
  · rw [ne_eq, not_not] at hcheck
    exact CheckEnv.checkTransaction_spec hcheck
  · simpa [hnet] using hstandard
  · by_contra hsome
    exact hfree (List.any_eq_true.mpr ⟨txin, htxin, Option.isSome_iff_ne_none.mpr hsome⟩)
  · rw [poolView_of_none hnew] at habsent
    simpa using habsent

theorem Accepts.funded {s : PoolNode} {nSpendHeight : Nat}
    (ha : Accepts env s view nSpendHeight pool tx) {txin : CTxIn} (hin : txin ∈ tx.vin) :
    pool.Funded env view nSpendHeight txin.prevout := by
  obtain ⟨hhave, hm⟩ := checkInputs_spec ha.inputs
  have havail : ((pool.poolView view).coins txin.prevout.hash).isAvailable txin.prevout.n = true := by
    unfold CoinsView.haveInputs at hhave
    rw [ha.coinBase, Bool.false_or, List.all_eq_true] at hhave
    exact hhave txin hin
  have hm := hm txin hin
  cases hlookup : pool.mapTx.lookup txin.prevout.hash with
  | none =>
    rw [poolView_of_none hlookup] at havail hm
    exact .inr ⟨⟨hlookup, havail⟩, hm⟩
  | some parent =>
    rw [poolView_of_some hlookup, isAvailable_fromTx] at havail
    exact .inl ⟨parent, hlookup, havail⟩

theorem Funded.known {h : Int} {height : Nat} (hwf : pool.Wf) (htxs : pool.Txs (PoolTx U env)) (hk : Known U height view)
    {o : COutPoint} (hf : pool.Funded env view h o) : Acc (Feeds U) o.hash ∧ ShowsOut U (pool.poolView view) o := by
  rcases hf with ⟨parent, hparent, ha⟩ | ⟨⟨hnone, ha⟩, -⟩
  · have hkey := hwf.keyed _ _ hparent
    have hpool := htxs _ _ hparent
    refine ⟨hkey ▸ hpool.grounded, parent.tx, hpool.mem, hkey, ?_⟩
    rw [poolView_of_some hparent, out_fromTx]
  · obtain ⟨hn, -⟩ := CCoins.isAvailable_iff.mp ha
    refine ⟨hk.grounded _ (CCoins.not_isPruned_of_out hn), ?_⟩
    obtain ⟨p, hp, hhash, hout⟩ := hk.shows o hn
    exact ⟨p, hp, hhash, by rw [poolView_of_none hnone, hout]⟩

theorem Accepts.poolTx (hU : NoCollision U) {height : Nat} {s : PoolNode} {nSpendHeight : Nat}
    (ha : Accepts env s view nSpendHeight pool tx) (htx : U tx) (hwf : pool.Wf)
    (htxs : pool.Txs (PoolTx U env)) (hk : Known U height view) : PoolTx U env tx := by
  refine ⟨htx, ?_, ha.zerocoins, ha.coinBase, ha.coinStake, ?_, fun o ho => (ha.sound.value o ho).1, ?_⟩
  · apply acc_of_spends hU htx
    intro o ho
    obtain ⟨txin, hin, rfl⟩ := mem_spends ho
    exact ((ha.funded hin).known hwf htxs hk).1
  · have hz := ha.zerocoins
    unfold CTransaction.containsZerocoins CTransaction.hasZerocoinSpendInputs at hz
    rw [Bool.or_eq_false_iff, List.any_eq_false] at hz
    have hfilter : (tx.vin.filter fun txin => !txin.isZerocoinSpend) = tx.vin := by
      apply List.filter_eq_self.mpr
      intro txin hin
      simpa using hz.1 txin hin
    have hdistinct := ha.sound.distinct
    rw [hfilter] at hdistinct
    exact hdistinct
  · exact ⟨_, _, ha.inputs, fun txin hin => ((ha.funded hin).known hwf htxs hk).2⟩

theorem fromPool_addUnchecked {entry : CTxMemPoolEntry} {hash : Uint256} (hnew : pool.mapTx.lookup hash = none)
    {o : COutPoint} (h : pool.FromPool o) : (pool.addUnchecked hash entry).FromPool o := by
  obtain ⟨parent, hparent, ha⟩ := h
  refine ⟨parent, ?_, ha⟩
  rw [lookup_addUnchecked, if_neg, hparent]
  rintro heq
  rw [heq, hnew] at hparent
  cases hparent

theorem fromView_addUnchecked {entry : CTxMemPoolEntry} {hash : Uint256} (habsent : (view.coins hash).isPruned = true)
    {o : COutPoint} (h : pool.FromView view o) : (pool.addUnchecked hash entry).FromView view o := by
  refine ⟨?_, h.2⟩
  rw [lookup_addUnchecked, if_neg, h.1]
  rintro heq
  have hnot := CCoins.not_isPruned_of_out (CCoins.isAvailable_iff.mp h.2).1
  rw [heq, habsent] at hnot
  cases hnot

theorem Accepts.wf (hU : NoCollision U) {height : Nat} {s : PoolNode} {nSpendHeight : Nat}
    (ha : Accepts env s view nSpendHeight pool tx) (htx : U tx) (hwf : pool.Wf)
    (htxs : pool.Txs (PoolTx U env)) (hk : Known U height view) :
    (pool.addUnchecked tx.hash ⟨tx, env.txSize tx⟩).Wf ∧
    (pool.addUnchecked tx.hash ⟨tx, env.txSize tx⟩).Txs (PoolTx U env) := by
  have hpool := ha.poolTx hU htx hwf htxs hk
  refine ⟨hwf.addUnchecked ha.new hpool.hasZerocoinSpendInputs hpool.distinct ha.free _, fun hash entry hentry => ?_⟩
  rw [lookup_addUnchecked] at hentry
  split at hentry
  · cases hentry
    exact hpool
  · exact htxs hash entry hentry

theorem Fits.accept (hU : NoCollision U) {height : Nat} {s : PoolNode} {nSpendHeight : Nat}
    (hf : pool.Fits U env view nSpendHeight) (hk : Known U height view) (htx : U tx)
    (ha : Accepts env s view nSpendHeight pool tx) :
    (pool.addUnchecked tx.hash ⟨tx, env.txSize tx⟩).Fits U env view nSpendHeight := by
  obtain ⟨hwf, htxs⟩ := ha.wf hU htx hf.wf hf.txs hk
  have hkeep : ∀ o, pool.Funded env view nSpendHeight o →
      (pool.addUnchecked tx.hash ⟨tx, env.txSize tx⟩).Funded env view nSpendHeight o := by
    rintro o (hp | ⟨hv, hm⟩)
    · exact .inl (fromPool_addUnchecked ha.new hp)
    · exact .inr ⟨fromView_addUnchecked ha.absent hv, hm⟩
  refine ⟨hwf, htxs, fun hash entry hentry txin hin => hkeep _ ?_⟩
  rw [lookup_addUnchecked] at hentry
  split at hentry
  · cases hentry
    exact ha.funded hin
  · exact hf.inputs hash entry hentry txin hin

/-! ## Disconnecting a block -/

/-- The pool in the loop of `DisconnectTip`, with the transactions of the block that are still to come. -/
structure Resurrects (U : CTransaction → Prop) (env : PoolEnv) (view : CoinsView) (rest : List CTransaction)
    (pool : CTxMemPool) : Prop where
  wf : pool.Wf
  txs : pool.Txs (PoolTx U env)
  inputs : pool.Inputs fun o => pool.FromPool o ∨ pool.FromView view o ∨ pool.Waits rest o

theorem Resurrects.accept (hU : NoCollision U) {height : Nat} {s : PoolNode} {nSpendHeight : Nat}
    {txs : List CTransaction} (hr : pool.Resurrects U env view (tx :: txs)) (hk : Known U height view)
    (hin : ∀ p ∈ tx :: txs, U p) (ha : Accepts env s view nSpendHeight pool tx) :
    (pool.addUnchecked tx.hash ⟨tx, env.txSize tx⟩).Resurrects U env view txs := by
  have htx := hin tx List.mem_cons_self
  obtain ⟨hwf, htxs⟩ := ha.wf hU htx hr.wf hr.txs hk
  refine ⟨hwf, htxs, fun hash entry hentry txin htxin => ?_⟩
  rw [lookup_addUnchecked] at hentry
  split at hentry
  · cases hentry
    rcases ha.funded htxin with hp | ⟨hv, -⟩
    · exact .inl (fromPool_addUnchecked ha.new hp)
    · exact .inr (.inl (fromView_addUnchecked ha.absent hv))
  · rcases hr.inputs hash entry hentry txin htxin with hp | hv | ⟨hnone, p, hp, hhash, havail⟩
    · exact .inl (fromPool_addUnchecked ha.new hp)
    · exact .inr (.inl (fromView_addUnchecked ha.absent hv))
    · by_cases heq : txin.prevout.hash = tx.hash
      · -- What waited for this transaction has it in the pool now.
        have hptx : p = tx := hU p tx (hin p hp) htx (hhash.trans heq)
        refine .inl ⟨⟨tx, env.txSize tx⟩, ?_, hptx ▸ havail⟩
        rw [lookup_addUnchecked, if_pos heq]
      · refine .inr (.inr ⟨?_, p, ?_, hhash, havail⟩)
        · rw [lookup_addUnchecked, if_neg heq, hnone]
        · rcases List.mem_cons.mp hp with rfl | hp
          · exact absurd hhash.symm heq
          · exact hp

theorem Resurrects.remove {txs : List CTransaction} (hr : pool.Resurrects U env view (tx :: txs)) :
    (pool.remove tx true).2.Resurrects U env view txs := by
  have hs := shrinks_remove hr.wf tx
  refine ⟨hs.wf, hs.sub.txs hr.txs, fun hash entry hentry txin htxin => ?_⟩
  rcases hr.inputs hash entry (hs.sub hash entry hentry) txin htxin with hp | hv | ⟨hnone, p, hp, hhash, havail⟩
  · exact .inl (hp.closed hs.closed hentry htxin)
  · exact .inr (.inl (hs.sub.fromView hv))
  · refine .inr (.inr ⟨hs.sub.lookup_eq_none hnone, p, ?_, hhash, havail⟩)
    rcases List.mem_cons.mp hp with rfl | hp
    · rw [← hhash] at hnone
      have hle := (removes_true hr.wf p).2 hnone hash entry hentry txin htxin hhash.symm
      have hlt := lt_of_isAvailable_fromTx havail
      omega
    · exact hp

theorem Resurrects.foldl (hU : NoCollision U) {height : Nat} (s : PoolNode) (relay : RelayEnv) (hk : Known U height view) :
    ∀ (txs : List CTransaction) {pool : CTxMemPool}, (∀ p ∈ txs, U p) → pool.Resurrects U env view txs →
    (txs.foldl (s.resurrect env relay view) pool).Resurrects U env view [] := by
  intro txs
  induction txs with
  | nil =>
    intro pool _ hr
    exact hr
  | cons tx txs ih =>
    intro pool hin hr
    rw [List.foldl_cons]
    refine ih (fun p hp => hin p (List.mem_cons_of_mem _ hp)) ?_
    unfold PoolNode.resurrect
    split
    · exact hr.remove
    · split
      · exact hr.remove
      · rename_i pool' haccept
        obtain ⟨ha, rfl⟩ := acceptToMemoryPool_some haccept
        exact hr.accept hU hk hin ha

theorem mature_of_not_lt {nHeight : Int32} {H : Nat} {M : Int} (hlow : 0 ≤ nHeight.toInt) (hhigh : nHeight.toInt ≤ H)
    (hH : H < 2 ^ 31) (hM : M < 2 ^ 31) (h : ¬ UInt32.ofNat H - nHeight.toUInt32 < UInt32.ofInt M) :
    M ≤ H - nHeight.toInt := by
  rcases Int.lt_or_le M 0 with hneg | hpos
  · omega
  · have hk : nHeight.toUInt32.toNat = nHeight.toInt.toNat := by
      have h1 : nHeight.toInt = nHeight.toBitVec.toInt := rfl
      have h2 : nHeight.toUInt32.toNat = nHeight.toBitVec.toNat := rfl
      rw [h1] at hlow ⊢
      rw [h2]
      rw [BitVec.toInt_eq_toNat_cond] at hlow ⊢
      split at hlow <;> omega
    rw [UInt32.lt_iff_toNat_lt, UInt32.toNat_sub, hk, UInt32.toNat_ofNat'] at h
    have hm : (UInt32.ofInt M).toNat = M.toNat := by
      unfold UInt32.ofInt
      rw [UInt32.toNat_ofNat']
      omega
    rw [hm] at h
    omega

theorem Resurrects.removeCoinbaseSpends {height : Nat} (hk : Known U height view) (hH : height + 1 < 2 ^ 31)
    (hr : pool.Resurrects U env view []) :
    (pool.removeCoinbaseSpends env view (height + 1)).Fits U env view ((height + 1 : Nat) : Int) := by
  unfold CTxMemPool.removeCoinbaseSpends
  dsimp only
  obtain ⟨hs, hgone⟩ := shrinks_foldl ((pool.mapTx.entries.map fun e => e.2.tx).filter fun tx =>
    tx.vin.any (pool.spendsImmature env view (height + 1))) hr.wf
  refine ⟨hs.wf, hs.sub.txs hr.txs, fun hash entry hentry txin htxin => ?_⟩
  have hold := hs.sub hash entry hentry
  rcases hr.inputs hash entry hold txin htxin with hp | hv | ⟨-, p, hp, -⟩
  · exact .inl (hp.closed hs.closed hentry htxin)
  · refine .inr ⟨hs.sub.fromView hv, fun hflag => ?_⟩
    -- The transaction is still there, so its inputs passed the test.
    have hpass : pool.spendsImmature env view (height + 1) txin = false := by
      by_contra hfail
      rw [Bool.not_eq_false] at hfail
      have hmem : entry.tx ∈ (pool.mapTx.entries.map fun e => e.2.tx).filter fun tx =>
          tx.vin.any (pool.spendsImmature env view (height + 1)) := by
        refine List.mem_filter.mpr ⟨List.mem_map.mpr ⟨⟨hash, entry⟩, AList.mem_lookup_iff.mp hold, rfl⟩, ?_⟩
        exact List.any_eq_true.mpr ⟨txin, htxin, hfail⟩
      have hnone := hgone entry.tx hmem
      rw [hr.wf.keyed hash entry hold, hentry] at hnone
      cases hnone
    have hnot := CCoins.not_isPruned_of_out (CCoins.isAvailable_iff.mp hv.2).1
    unfold spendsImmature at hpass
    simp only [contains, hv.1, hnot, hflag, Option.isSome_none, Bool.not_false, Bool.true_and, Bool.false_or,
      decide_eq_false_iff_not] at hpass
    obtain ⟨hlow, hhigh⟩ := hk.height _ hnot
    exact mature_of_not_lt hlow (by omega) hH env.maturity_lt hpass
  · cases hp

end CTxMemPool

/-! ## The node -/

/-- The blocks of the chain are of the set, at their heights, on known views. -/
def Linked (U : CTransaction → Prop) : List ChainLink → Prop
  | [] => True
  | l :: ls => l.nHeight = Int32.ofNat (ls.length + 1) ∧ ls.length + 1 < 2 ^ 31 ∧ Known U ls.length l.view ∧
    StakesKnown U l.view ∧ (∀ tx ∈ l.block.vtx, U tx) ∧ Linked U ls

/-- The transactions of a call. -/
def PoolOp.txs : PoolOp → List CTransaction
  | accept _ tx => [tx]
  | connectTip _ block => block.vtx
  | disconnectTip _ => []
  | tick _ => []
  | clear => []

theorem noCollision_of_forall {ops : List PoolOp}
    (h : ∀ tx ∈ ops.flatMap PoolOp.txs, ∀ tx' ∈ ops.flatMap PoolOp.txs, tx.hash = tx'.hash → tx = tx') :
    NoCollision fun tx => ∃ op ∈ ops, tx ∈ op.txs := by
  rintro tx tx' ⟨op, hop, htx⟩ ⟨op', hop', htx'⟩ heq
  exact h tx (List.mem_flatMap.mpr ⟨op, hop, htx⟩) tx' (List.mem_flatMap.mpr ⟨op', hop', htx'⟩) heq

/-- The chain belongs to the view, and the pool fits it at the next height. -/
structure PoolInv (U : CTransaction → Prop) (env : PoolEnv) (s : PoolNode) : Prop where
  good : s.view.Good
  connected : Connected s.chain s.view
  linked : Linked U s.chain
  known : Known U s.height s.view
  stakes : StakesKnown U s.view
  fits : s.pool.Fits U env s.view ((s.height + 1 : Nat) : Int)

theorem toInt_ofNat {n : Nat} (h : n < 2 ^ 31) : (Int32.ofNat n).toInt = n := Int32.toInt_ofNat_of_lt h

theorem fits_empty (U : CTransaction → Prop) (env : PoolEnv) (view : CoinsView) (h : Int) :
    CTxMemPool.empty.Fits U env view h := by
  refine ⟨.empty, fun hash entry hentry => ?_, fun hash entry hentry => ?_⟩
  · rw [lookup_empty] at hentry
    cases hentry
  · rw [lookup_empty] at hentry
    cases hentry

theorem PoolNode.connectTip_cases (env : PoolEnv) (s : PoolNode) (checks : ConnectChecks) (block : CBlock) :
    s.connectTip env checks block = s ∨ ∃ c undos view', s.height + 1 < 2 ^ 31 ∧
      (Int32.ofNat (s.height + 1)).toInt = (s.height + 1 : Nat) ∧
      countTxs (Int32.ofNat (s.height + 1)) block.vtx s.view ⟨0, 0⟩ = some (c, undos, view') ∧
      s.connectTip env checks block = ⟨{ view' with hashBlock := block.hash },
        ⟨block, Int32.ofNat (s.height + 1), s.view, undos.tail⟩ :: s.chain, (s.pool.removeForBlock block.vtx).2,
        s.adjustedTime⟩ := by
  unfold PoolNode.connectTip
  split
  · exact .inl rfl
  · rename_i hguard
    rw [not_or, not_le] at hguard
    rcases @connectBlock_cases env.hashGenesisBlock checks block (Int32.ofNat (s.height + 1)) s.view 0 hguard.2 with
      hnone | ⟨c, undos, view', hcount, -, hsome⟩
    · rw [hnone]
      exact .inl rfl
    · rw [hsome]
      cases checks.writes with
      | false => exact .inl rfl
      | true => exact .inr ⟨c, undos, view', hguard.1, toInt_ofNat hguard.1, hcount, rfl⟩

namespace PoolInv

variable {U : CTransaction → Prop} {env : PoolEnv} {s : PoolNode}

theorem genesis (U : CTransaction → Prop) (env : PoolEnv) : PoolInv U env (.genesis env) := by
  refine ⟨fun _ => CCoins.good_empty, trivial, trivial, ⟨fun x hx => ?_, fun o ho => ?_, fun x hx => ?_,
    fun p _ _ hx => ?_, fun x hx => ?_⟩, fun x hx => ?_, fits_empty U env _ _⟩
  · cases hx
  · have ho : (CCoins.empty.out o.n).isNull = false := ho
    rw [CCoins.out_empty] at ho
    cases ho
  · cases hx
  · cases hx
  · cases hx
  · cases hx

theorem accept (hU : NoCollision U) (h : PoolInv U env s) (relay : RelayEnv) {tx : CTransaction} (htx : U tx) :
    PoolInv U env (s.accept env relay tx) := by
  unfold PoolNode.accept
  split
  · exact h
  · rename_i pool haccept
    obtain ⟨ha, rfl⟩ := acceptToMemoryPool_some haccept
    exact ⟨h.good, h.connected, h.linked, h.known, h.stakes, h.fits.accept hU h.known htx ha⟩

theorem connectTip (hU : NoCollision U) (h : PoolInv U env s) (checks : ConnectChecks) {block : CBlock}
    (hin : ∀ tx ∈ block.vtx, U tx) : PoolInv U env (s.connectTip env checks block) := by
  rcases PoolNode.connectTip_cases env s checks block with hsame | ⟨c, undos, view', hlt, hint, hcount, heq⟩
  · rw [hsame]
    exact h
  · rw [heq]
    have hconnects : Connects U (s.height + 1) block.vtx s.view view' :=
      connects_of_countTxs hU (by omega) (by omega) hin h.good (h.known.mono (Nat.le_succ _)) h.stakes hcount
    obtain ⟨hgood, hknown, hstakes⟩ := hconnects.known h.good (h.known.mono (Nat.le_succ _)) h.stakes
    have hne : Int32.ofNat (s.height + 1) ≠ 0 := by
      intro hzero
      rw [hzero] at hint
      exact absurd hint (by simp; omega)
    have hfits := h.fits.removeForBlock hU hconnects
    refine ⟨hgood, ⟨h.good, hne, ⟨c, undos, view', hcount, rfl, fun x => .inr ⟨_, rfl⟩⟩, h.connected⟩,
      ⟨rfl, hlt, h.known, h.stakes, hin, h.linked⟩, ?_, hstakes, hfits.wf, hfits.txs, ?_⟩
    · exact ⟨hknown.grounded, hknown.shows, hknown.coinBase, hknown.marked, hknown.height⟩
    · intro hash entry hentry txin htxin
      rcases hfits.inputs hash entry hentry txin htxin with hp | ⟨hv, hm⟩
      · exact .inl hp
      · refine .inr ⟨hv, hm.mono ?_⟩
        show ((s.height + 1 : Nat) : Int) ≤ ((s.chain.length + 1 + 1 : Nat) : Int)
        unfold PoolNode.height
        omega

theorem resurrects (hU : NoCollision U) (h : PoolInv U env s) {l : ChainLink} {ls : List ChainLink} (hchain : s.chain = l :: ls)
    {view' : CoinsView} (hd : disconnectBlock l.block l.nHeight s.view l.undo = some (true, view')) :
    s.pool.Resurrects U env view' l.block.vtx := by
  have hconnected := h.connected
  have hlinked := h.linked
  rw [hchain] at hconnected hlinked
  obtain ⟨hsim, -⟩ := hconnected.disconnect hd
  obtain ⟨hgood, hne, ⟨c, undos, v', hcount, -, hsim'⟩, -⟩ := hconnected
  obtain ⟨hheight, hlt, hknown, hstakes, hin, -⟩ := hlinked
  have hint := toInt_ofNat hlt
  rw [← hheight] at hint
  have hconnects : Connects U (ls.length + 1) l.block.vtx l.view v' :=
    connects_of_countTxs hU (by omega) (by omega) hin hgood (hknown.mono (Nat.le_succ _)) hstakes hcount
  refine ⟨h.fits.wf, h.fits.txs, fun hash entry hentry txin htxin => ?_⟩
  rcases h.fits.inputs hash entry hentry txin htxin with hp | ⟨⟨hnone, havail⟩, -⟩
  · exact .inl hp
  · refine .inr ?_
    have hbefore := hsim'.symm.isAvailable havail
    by_cases hmem : txin.prevout.hash ∈ l.block.vtx.map CTransaction.hash
    · obtain ⟨p, hp, hhash⟩ := List.mem_map.mp hmem
      refine .inr ⟨hnone, p, hp, hhash, ?_⟩
      rw [CCoins.isAvailable_iff] at havail ⊢
      obtain ⟨p', hp', hhash', hout⟩ := h.known.shows _ havail.1
      rw [hU p' p hp' (hin p hp) (hhash'.trans hhash.symm)] at hout
      rw [← hout]
      exact havail
    · refine .inl ⟨hnone, hsim.isAvailable ?_⟩
      rw [CCoins.isAvailable_iff] at hbefore ⊢
      rw [hconnects.out_of_notMem hmem hbefore.1]
      exact hbefore

theorem disconnectTip (hU : NoCollision U) (h : PoolInv U env s) (relay : RelayEnv) :
    PoolInv U env (s.disconnectTip env relay) := by
  unfold PoolNode.disconnectTip
  split
  · exact h
  · rename_i l ls hchain
    split
    · rename_i view' hd
      have hconnected := h.connected
      have hlinked := h.linked
      rw [hchain] at hconnected hlinked
      obtain ⟨hsim, hls⟩ := hconnected.disconnect hd
      obtain ⟨-, hlt, hknown, -, hin, hlinked⟩ := hlinked
      have hknown' := hknown.sim hsim
      have hheight : s.height = ls.length + 1 := by
        unfold PoolNode.height
        rw [hchain, List.length_cons]
      have hpool := Resurrects.foldl hU s relay hknown' l.block.vtx hin (h.resurrects hU hchain hd)
      rw [hheight]
      exact ⟨hsim.good hconnected.1 (disconnectBlock_tidy h.good.tidy hd), hls, hlinked, hknown',
        disconnectBlock_stakes h.stakes hd, hpool.removeCoinbaseSpends hknown' hlt⟩
    · exact h

theorem step (hU : NoCollision U) (h : PoolInv U env s) {op : PoolOp} (hin : ∀ tx ∈ op.txs, U tx) :
    PoolInv U env (s.step env op) := by
  cases op with
  | accept relay tx => exact h.accept hU relay (hin tx (List.mem_singleton.mpr rfl))
  | connectTip checks block => exact h.connectTip hU checks hin
  | disconnectTip relay => exact h.disconnectTip hU relay
  | tick _ => exact ⟨h.good, h.connected, h.linked, h.known, h.stakes, h.fits⟩
  | clear => exact ⟨h.good, h.connected, h.linked, h.known, h.stakes, fits_empty U env _ _⟩

theorem run (hU : NoCollision U) {ops : List PoolOp} (hin : ∀ op ∈ ops, ∀ tx ∈ op.txs, U tx) :
    PoolInv U env (.run env ops) := by
  unfold PoolNode.run
  induction ops using List.reverseRecOn with
  | nil => exact .genesis U env
  | append_singleton ops op ih =>
    rw [List.foldl_append]
    refine (ih fun op' hop => hin op' (List.mem_append_left _ hop)).step hU (hin op ?_)
    simp

end PoolInv

end DigiWage
