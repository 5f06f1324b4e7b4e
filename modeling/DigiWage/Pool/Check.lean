import DigiWage.Pool.Invariant
import DigiWage.Supply.Conservation

/-!
# `check` never fails

`CTxMemPool::check` spends the transactions of the pool on a copy of `pcoinsTip`, those that depend on others of the pool
after these, and gives up when it goes round without progress.

* `Copy`: the copy of the view, with the transactions spent so far. What is still to be spent has its inputs as soon as
  the transactions it depends on are done (`Copy.haveInputs`), and then passes `CheckInputs` (`Copy.checkSpend`).
* Dependencies are accessible, so that among transactions that wait one has its inputs (`Copy.exists_ready`); the loop
  finds it before it has gone round (`checkWaiting_eq_true`).
* `PoolNode.consistent_run`: the memory pool of a run.
-/

namespace DigiWage

open Lib CoinsView CTxMemPool

namespace CTxMemPool

variable {pool : CTxMemPool} {view : CoinsView} {U : CTransaction → Prop} {env : PoolEnv} {h : Int}

/-! ## The inputs of a transaction -/

theorem isNull_getD {tx : CTransaction} (hvalues : ∀ o ∈ tx.vout, 0 ≤ o.nValue) {n : Nat} (hn : n < tx.vout.length) :
    (tx.vout.getD n .null).isNull = false := by
  rw [List.getD_eq_getElem _ _ hn]
  have hvalue := hvalues _ (List.getElem_mem hn)
  unfold CTxOut.isNull
  rw [beq_eq_false_iff_ne]
  omega

theorem checkVin_eq (htxs : pool.Txs (PoolTx U env)) (hash : Uint256) : ∀ (vin : List CTxIn) (i : Nat) (fDependsWait : Bool),
    (∀ j txin, vin[j]? = some txin → txin.isZerocoinSpend = false ∧
      pool.mapNextTx.lookup txin.prevout = some ⟨hash, i + j⟩ ∧ pool.Funded env view h txin.prevout) →
    pool.checkVin view hash i fDependsWait vin = some (fDependsWait || vin.any fun txin => pool.contains txin.prevout.hash) := by
  intro vin
  induction vin with
  | nil => simp [checkVin]
  | cons txin vin ih =>
    intro i fDependsWait hall
    obtain ⟨hz, hnext, hfunded⟩ := hall 0 txin rfl
    have hrest : ∀ w, pool.checkVin view hash (i + 1) w vin =
        some (w || vin.any fun txin => pool.contains txin.prevout.hash) := by
      intro w
      apply ih
      intro j txin' hj
      have hj' := hall (j + 1) txin' hj
      rw [Nat.add_comm j, ← Nat.add_assoc] at hj'
      exact hj'
    unfold checkVin
    dsimp only
    rw [Nat.add_zero] at hnext
    rcases hfunded with ⟨parent, hparent, ha⟩ | ⟨⟨hnone, ha⟩, -⟩
    · have hlt := lt_of_isAvailable_fromTx ha
      rw [hparent]
      dsimp only
      simp only [hlt, isNull_getD (htxs _ _ hparent).values hlt, decide_true, Bool.not_false, Bool.and_self, ↓reduceIte, hz,
        Bool.false_eq_true, hnext, hrest]
      simp [contains, hparent]
    · rw [hnone]
      dsimp only
      simp only [hz, ha, Bool.or_true, ↓reduceIte, Bool.false_eq_true, hnext, hrest]
      simp [contains, hnone]

/-! ## The copy of the view -/

/-- The copy of the view after the transactions under the hashes `done`. -/
structure Copy (U : CTransaction → Prop) (env : PoolEnv) (h : Int) (pool : CTxMemPool) (done : Uint256 → Prop)
    (view : CoinsView) : Prop where
  good : view.Good
  shows : ∀ o, ((view.coins o.hash).out o.n).isNull = false → ShowsOut U view o
  mature : pool.Inputs fun o => ((view.coins o.hash).out o.n).isNull = false →
    (view.coins o.hash).Mature env.nCoinbaseMaturity h
  ready : ∀ hash entry, pool.mapTx.lookup hash = some entry → ¬ done hash → ∀ txin ∈ entry.tx.vin,
    pool.mapTx.lookup txin.prevout.hash = none ∨ done txin.prevout.hash →
    (view.coins txin.prevout.hash).isAvailable txin.prevout.n = true

theorem mature_of_poolTx (hU : NoCollision U) {height : Nat} (hk : Known U height view) (hs : StakesKnown U view)
    {tx : CTransaction} (hp : PoolTx U env tx) (hnot : (view.coins tx.hash).isPruned = false) (M h : Int) :
    (view.coins tx.hash).Mature M h := by
  intro hflag
  rcases Bool.or_eq_true_iff.mp hflag with hcb | hcs
  · obtain ⟨p, hpU, hhash, hpcb⟩ := hk.coinBase _ hnot hcb
    rw [hU p tx hpU hp.mem hhash, hp.coinBase] at hpcb
    cases hpcb
  · obtain ⟨p, hpU, hhash, hpcs⟩ := hs _ hcs
    rw [hU p tx hpU hp.mem hhash, hp.coinStake] at hpcs
    cases hpcs

theorem copy_start (hU : NoCollision U) {height : Nat} (hv : view.Good) (hk : Known U height view) (hs : StakesKnown U view)
    (hf : pool.Fits U env view h) : Copy U env h pool (fun _ => False) view := by
  refine ⟨hv, hk.shows, fun hash entry hentry txin hin hout => ?_, fun hash entry hentry _ txin hin hparent => ?_⟩
  · rcases hf.inputs hash entry hentry txin hin with ⟨parent, hparent, -⟩ | ⟨-, hm⟩
    · have hkey := hf.wf.keyed _ _ hparent
      rw [← hkey] at hout ⊢
      exact mature_of_poolTx hU hk hs (hf.txs _ _ hparent) (CCoins.not_isPruned_of_out hout) _ _
    · exact hm
  · rcases hparent with hnone | hdone
    · rcases hf.inputs hash entry hentry txin hin with ⟨parent, hparent, -⟩ | ⟨hview, -⟩
      · rw [hnone] at hparent
        cases hparent
      · exact hview.2
    · exact hdone.elim

namespace Copy

variable {done : Uint256 → Prop} {view₀ : CoinsView}

theorem haveInputs (hc : Copy U env h pool done view) (htxs : pool.Txs (PoolTx U env)) {entry : CTxMemPoolEntry}
    (hentry : pool.mapTx.lookup entry.tx.hash = some entry) (hnot : ¬ done entry.tx.hash)
    (hparents : ∀ txin ∈ entry.tx.vin, pool.mapTx.lookup txin.prevout.hash = none ∨ done txin.prevout.hash) :
    view.haveInputs entry.tx = true := by
  unfold CoinsView.haveInputs
  rw [(htxs _ _ hentry).coinBase, Bool.false_or, List.all_eq_true]
  exact fun txin hin => hc.ready _ entry hentry hnot txin hin (hparents txin hin)

theorem inputs_of_haveInputs {tx : CTransaction} (hcoinBase : tx.isCoinBase = false) (hhave : view.haveInputs tx = true) :
    ∀ txin ∈ tx.vin, ((view.coins txin.prevout.hash).out txin.prevout.n).isNull = false := by
  unfold CoinsView.haveInputs at hhave
  rw [hcoinBase, Bool.false_or, List.all_eq_true] at hhave
  exact fun txin hin => (CCoins.isAvailable_iff.mp (hhave txin hin)).1

theorem checkInputs_eq_true (hU : NoCollision U) (hc : Copy U env h pool done view) {entry : CTxMemPoolEntry}
    (hp : PoolTx U env entry.tx) (hentry : pool.mapTx.lookup entry.tx.hash = some entry)
    (hhave : view.haveInputs entry.tx = true) : env.checkInputs view h entry.tx = true := by
  have hout := inputs_of_haveInputs hp.coinBase hhave
  obtain ⟨view₁, h₁, happroved, hshows⟩ := hp.approved
  apply checkInputs_congr happroved hhave
  · intro txin hin
    exact (hshows txin hin).out_eq hU (hc.shows _ (hout txin hin))
  · intro txin hin
    exact hc.mature _ entry hentry txin hin (hout txin hin)

section updates

variable {view' : CoinsView} {entry : CTxMemPoolEntry} {nHeight : Int32}

theorem shows_updates (hc : Copy U env h pool done view) (hu : Updates entry.tx nHeight view view')
    (hp : PoolTx U env entry.tx) (o : COutPoint) (ho : ((view'.coins o.hash).out o.n).isNull = false) :
    ShowsOut U view' o := by
  by_cases heq : o.hash = entry.tx.hash
  · refine ⟨entry.tx, hp.mem, heq.symm, ?_⟩
    rw [heq, hu.self, out_fromTx]
  · have hstep := hu.out o.hash o.n heq
    split at hstep
    · rw [hstep] at ho
      cases ho
    · rw [hstep] at ho
      obtain ⟨p, hp', hhash, hshow⟩ := hc.shows o ho
      exact ⟨p, hp', hhash, by rw [hstep, hshow]⟩

theorem mature_updates (hc : Copy U env h pool done view) (hu : Updates entry.tx nHeight view view')
    (hp : PoolTx U env entry.tx) : pool.Inputs fun o => ((view'.coins o.hash).out o.n).isNull = false →
      (view'.coins o.hash).Mature env.nCoinbaseMaturity h := by
  intro hash e he txin hin ho
  by_cases heq : txin.prevout.hash = entry.tx.hash
  · intro hflag
    rw [heq, hu.self] at hflag
    exact absurd hflag (by simp [CCoins.fromTx, CCoins.clearUnspendable, hp.coinBase, hp.coinStake])
  · have hstep := hu.out txin.prevout.hash txin.prevout.n heq
    obtain ⟨vout, hvout⟩ := hu.fields _ heq
    split at hstep
    · rw [hstep] at ho
      cases ho
    · rw [hstep] at ho
      rw [hvout]
      exact hc.mature hash e he txin hin ho

theorem not_spent (hf : pool.Fits U env view₀ h) (hentry : pool.mapTx.lookup entry.tx.hash = some entry) {hash : Uint256}
    {e : CTxMemPoolEntry} (he : pool.mapTx.lookup hash = some e) (hne : hash ≠ entry.tx.hash) {txin : CTxIn}
    (hin : txin ∈ e.tx.vin) : txin.prevout ∉ entry.tx.spends := by
  intro hmem
  obtain ⟨txin', hin', hsame⟩ := mem_spends hmem
  obtain ⟨i, hi⟩ := List.getElem?_of_mem hin
  obtain ⟨j, hj⟩ := List.getElem?_of_mem hin'
  have hspends : pool.Spends txin.prevout ⟨hash, i⟩ := ⟨e, he, by rw [hi]; rfl⟩
  have hspends' : pool.Spends txin.prevout ⟨entry.tx.hash, j⟩ := ⟨entry, hentry, by rw [hj, Option.map_some, hsame]⟩
  exact hne (congrArg CInPoint.ptx (hf.wf.spends_unique hspends hspends'))

theorem ready_updates (hf : pool.Fits U env view₀ h) (hc : Copy U env h pool done view)
    (hu : Updates entry.tx nHeight view view') (hentry : pool.mapTx.lookup entry.tx.hash = some entry) {hash : Uint256}
    {e : CTxMemPoolEntry} (he : pool.mapTx.lookup hash = some e) (hnot : ¬ done hash) (hne : hash ≠ entry.tx.hash)
    {txin : CTxIn} (hin : txin ∈ e.tx.vin) (hparent : pool.mapTx.lookup txin.prevout.hash = none ∨
      done txin.prevout.hash ∨ txin.prevout.hash = entry.tx.hash) :
    (view'.coins txin.prevout.hash).isAvailable txin.prevout.n = true := by
  by_cases heq : txin.prevout.hash = entry.tx.hash
  · -- The input is an output of the transaction that was spent just now.
    rw [heq, hu.self, isAvailable_fromTx]
    rcases hf.inputs hash e he txin hin with ⟨parent, hlookup, ha⟩ | ⟨⟨hnone, -⟩, -⟩
    · rw [heq, hentry] at hlookup
      cases hlookup
      exact ha
    · rw [heq, hentry] at hnone
      cases hnone
  · have hstep := hu.out txin.prevout.hash txin.prevout.n heq
    rw [if_neg (not_spent hf hentry he hne hin)] at hstep
    rw [CCoins.isAvailable_iff, hstep, ← CCoins.isAvailable_iff]
    apply hc.ready hash e he hnot txin hin
    rcases hparent with hnone | hdone | hself
    · exact .inl hnone
    · exact .inr hdone
    · exact absurd hself heq

end updates

theorem checkSpend (hU : NoCollision U) (hf : pool.Fits U env view₀ h) (hc : Copy U env h pool done view)
    {entry : CTxMemPoolEntry} (hentry : pool.mapTx.lookup entry.tx.hash = some entry)
    (hhave : view.haveInputs entry.tx = true) :
    ∃ view', CTxMemPool.checkSpend env h view entry.tx = some view' ∧
      Copy U env h pool (fun x => done x ∨ x = entry.tx.hash) view' := by
  have hp := hf.txs _ _ hentry
  have hcheck := hc.checkInputs_eq_true hU hp hentry hhave
  have hdistinct : entry.tx.spends.Nodup := by
    rw [hp.spends]
    exact hp.distinct
  have hspends : ∀ o ∈ entry.tx.spends, ((view.coins o.hash).out o.n).isNull = false := by
    intro o ho
    obtain ⟨txin, hin, rfl⟩ := mem_spends ho
    exact inputs_of_haveInputs hp.coinBase hhave txin hin
  obtain ⟨⟨txundo, view₁⟩, hspend⟩ := spendInputs_isSome hc.good hdistinct hspends
  have hheight : (1000000 : Int32) ≠ 0 := by decide
  have hu := updates_of_spendInputs hc.good hheight hp.values hspend
  refine ⟨view₁.modifyCoins entry.tx.hash fun _ => CCoins.fromTx entry.tx 1000000, ?_, hu.good, hc.shows_updates hu hp,
    hc.mature_updates hu hp, ?_⟩
  · unfold CTxMemPool.checkSpend updateCoins
    simp [hcheck, hspend]
  · intro hash e he hnot txin hin hparent
    rw [not_or] at hnot
    exact hc.ready_updates hf hu hentry he hnot.1 hnot.2 hin hparent

theorem exists_ready (hc : Copy U env h pool done view) (htxs : pool.Txs (PoolTx U env))
    {waiting : List CTransaction} (hall : ∀ x, pool.contains x = true → done x ∨ x ∈ waiting.map CTransaction.hash)
    (hwaiting : ∀ tx ∈ waiting, ¬ done tx.hash ∧ ∃ entry, pool.mapTx.lookup tx.hash = some entry ∧ entry.tx = tx)
    {x : Uint256} (hacc : Acc (Feeds U) x) (hx : x ∈ waiting.map CTransaction.hash) :
    ∃ tx ∈ waiting, view.haveInputs tx = true := by
  induction hacc with
  | intro x _ ih =>
    obtain ⟨tx, htx, rfl⟩ := List.mem_map.mp hx
    obtain ⟨hnot, entry, hentry, rfl⟩ := hwaiting tx htx
    by_cases hparents : ∀ txin ∈ entry.tx.vin, pool.mapTx.lookup txin.prevout.hash = none ∨ done txin.prevout.hash
    · exact ⟨entry.tx, htx, hc.haveInputs htxs hentry hnot hparents⟩
    · -- An input is of a transaction that waits as well.
      push Not at hparents
      obtain ⟨txin, hin, hsome, hundone⟩ := hparents
      have hp := htxs _ _ hentry
      have hfeeds : Feeds U txin.prevout.hash entry.tx.hash := by
        refine ⟨entry.tx, hp.mem, rfl, txin.prevout, ?_, rfl⟩
        rw [hp.spends]
        exact List.mem_map.mpr ⟨txin, hin, rfl⟩
      apply ih _ hfeeds
      exact (hall _ (Option.isSome_iff_ne_none.mpr hsome)).resolve_left hundone

end Copy

/-! ## The loops of `check` -/

theorem mem_keys_of_sublist (hwf : pool.Wf) {es : List (Sigma fun _ : Uint256 => CTxMemPoolEntry)}
    (hes : ∀ e ∈ es, pool.mapTx.lookup e.1 = some e.2) {waiting : List CTransaction}
    (hsub : waiting.Sublist (es.map fun e => e.2.tx)) : (waiting.map CTransaction.hash).Sublist (es.map Sigma.fst) := by
  have hkeys : (es.map fun e => e.2.tx).map CTransaction.hash = es.map Sigma.fst := by
    rw [List.map_map]
    exact List.map_congr_left fun e he => hwf.keyed _ _ (hes e he)
  rw [← hkeys]
  exact hsub.map _

theorem checkEntries_spec (hU : NoCollision U) (hf : pool.Fits U env view h) :
    ∀ (es : List (Sigma fun _ : Uint256 => CTxMemPoolEntry)) {done : Uint256 → Prop} {copy : CoinsView},
    Copy U env h pool done copy → (es.map Sigma.fst).Nodup →
    (∀ e ∈ es, pool.mapTx.lookup e.1 = some e.2) → (∀ e ∈ es, ¬ done e.1) →
    ∃ done' copy' waiting, pool.checkEntries env h view es copy = some (copy', waiting) ∧
      Copy U env h pool done' copy' ∧ waiting.Sublist (es.map fun e => e.2.tx) ∧
      (∀ x, done' x ↔ done x ∨ (x ∈ es.map Sigma.fst ∧ x ∉ waiting.map CTransaction.hash)) := by
  intro es
  induction es with
  | nil =>
    intro done copy hc _ _ _
    exact ⟨done, copy, [], rfl, hc, by simp, by simp⟩
  | cons e es ih =>
    intro done copy hc hnodup hes hnot
    have hentry := hes e List.mem_cons_self
    have hkey := hf.wf.keyed _ _ hentry
    have hp := hf.txs _ _ hentry
    have hes' : ∀ e' ∈ es, pool.mapTx.lookup e'.1 = some e'.2 := fun e' he' => hes e' (List.mem_cons_of_mem _ he')
    have hvin : pool.checkVin view e.1 0 false e.2.tx.vin =
        some (e.2.tx.vin.any fun txin => pool.contains txin.prevout.hash) := by
      rw [checkVin_eq hf.txs e.1 e.2.tx.vin 0 false, Bool.false_or]
      intro j txin hj
      have hin := List.mem_of_getElem? hj
      refine ⟨?_, ?_, hf.inputs _ _ hentry txin hin⟩
      · have hz := hp.hasZerocoinSpendInputs
        unfold CTransaction.hasZerocoinSpendInputs at hz
        rw [List.any_eq_false] at hz
        simpa using hz txin hin
      · rw [hf.wf.next]
        exact ⟨e.2, hentry, by simp [hj]⟩
    rw [List.map_cons, List.nodup_cons] at hnodup
    unfold checkEntries
    rw [hvin]
    cases hdepends : e.2.tx.vin.any fun txin => pool.contains txin.prevout.hash with
    | true =>
      obtain ⟨done', copy', waiting, hrun, hc', hsub, hdone⟩ := ih hc hnodup.2 hes'
        fun e' he' => hnot e' (List.mem_cons_of_mem _ he')
      refine ⟨done', copy', e.2.tx :: waiting, by simp [hrun], hc', ?_, fun x => ?_⟩
      · rw [List.map_cons]
        exact hsub.cons_cons _
      · rw [hdone, List.map_cons, List.map_cons, List.mem_cons, List.mem_cons, hkey]
        have hne : x ∈ es.map Sigma.fst → x ≠ e.1 := by
          rintro hx rfl
          exact hnodup.1 hx
        tauto
    | false =>
      rw [← hkey] at hentry
      have hfree := hnot e List.mem_cons_self
      rw [← hkey] at hfree
      have hhave : copy.haveInputs e.2.tx = true := by
        refine hc.haveInputs hf.txs hentry hfree fun txin hin => .inl ?_
        have hout := List.any_eq_false.mp hdepends txin hin
        simpa [contains] using hout
      obtain ⟨copy₁, hspend, hc₁⟩ := hc.checkSpend hU hf hentry hhave
      have hnot' : ∀ e' ∈ es, ¬ (done e'.1 ∨ e'.1 = e.2.tx.hash) := by
        rintro e' he' (hd | heq)
        · exact hnot e' (List.mem_cons_of_mem _ he') hd
        · exact hnodup.1 (List.mem_map.mpr ⟨e', he', by rw [heq, hkey]⟩)
      obtain ⟨done', copy', waiting, hrun, hc', hsub, hdone⟩ := ih hc₁ hnodup.2 hes' hnot'
      refine ⟨done', copy', waiting, by simp [hspend, hrun], hc', ?_, fun x => ?_⟩
      · rw [List.map_cons]
        exact hsub.cons _
      · rw [hdone, List.map_cons, List.mem_cons, hkey]
        have hfresh : x = e.1 → x ∉ waiting.map CTransaction.hash := by
          rintro rfl hmem
          exact hnodup.1 ((mem_keys_of_sublist hf.wf hes' hsub).subset hmem)
        tauto

/-- What the loop over the waiting transactions knows: they wait, all others are done, and those at the end have been
tried since the last one was spent. -/
structure Waiting (pool : CTxMemPool) (done : Uint256 → Prop) (copy : CoinsView) (steps : Nat) (waiting : List CTransaction) :
    Prop where
  distinct : (waiting.map CTransaction.hash).Nodup
  entries : ∀ tx ∈ waiting, ¬ done tx.hash ∧ ∃ entry, pool.mapTx.lookup tx.hash = some entry ∧ entry.tx = tx
  others : ∀ x, pool.contains x = true → done x ∨ x ∈ waiting.map CTransaction.hash
  tried : ∃ front back, waiting = front ++ back ∧ back.length = steps ∧ ∀ tx ∈ back, copy.haveInputs tx = false

namespace Waiting

variable {done : Uint256 → Prop} {copy : CoinsView} {steps : Nat} {tx : CTransaction} {rest : List CTransaction}

theorem rotate (hw : Waiting pool done copy steps (tx :: rest)) (hsteps : steps < rest.length + 1)
    (hhave : copy.haveInputs tx = false) : Waiting pool done copy (steps + 1) (rest ++ [tx]) := by
  obtain ⟨front, back, heq, hlength, hback⟩ := hw.tried
  have hperm : (rest ++ [tx]).Perm (tx :: rest) := List.perm_append_comm
  refine ⟨(hperm.map _).nodup_iff.mpr hw.distinct, fun tx' htx' => hw.entries tx' (hperm.mem_iff.mp htx'), fun x hx => ?_, ?_⟩
  · rw [(hperm.map CTransaction.hash).mem_iff]
    exact hw.others x hx
  · cases front with
    | nil =>
      rw [List.nil_append] at heq
      rw [← heq, List.length_cons] at hlength
      omega
    | cons tx' front =>
      rw [List.cons_append, List.cons.injEq] at heq
      obtain ⟨rfl, rfl⟩ := heq
      refine ⟨front, back ++ [tx], by simp, by simp [hlength], fun tx' htx' => ?_⟩
      rcases List.mem_append.mp htx' with hb | hlast
      · exact hback tx' hb
      · rw [List.mem_singleton.mp hlast]
        exact hhave

theorem all_tried (hw : Waiting pool done copy steps (tx :: rest)) (hsteps : rest.length ≤ steps)
    (hhave : copy.haveInputs tx = false) : ∀ tx' ∈ tx :: rest, copy.haveInputs tx' = false := by
  obtain ⟨front, back, heq, hlength, hback⟩ := hw.tried
  have hsum := congrArg List.length heq
  rw [List.length_cons, List.length_append, hlength] at hsum
  intro tx' htx'
  rcases List.mem_cons.mp htx' with rfl | hrest
  · exact hhave
  · apply hback
    cases front with
    | nil =>
      rw [List.nil_append] at heq
      rw [← heq]
      exact htx'
    | cons tx'' front =>
      rw [List.length_cons] at hsum
      have hnil : front = [] := List.length_eq_zero_iff.mp (by omega)
      rw [hnil, List.cons_append, List.nil_append, List.cons.injEq] at heq
      rw [← heq.2]
      exact hrest

theorem spend (hw : Waiting pool done copy steps (tx :: rest)) (copy' : CoinsView) :
    Waiting pool (fun x => done x ∨ x = tx.hash) copy' 0 rest := by
  have hdistinct := hw.distinct
  rw [List.map_cons, List.nodup_cons] at hdistinct
  refine ⟨hdistinct.2, fun tx' htx' => ?_, fun x hx => ?_, rest, [], by simp, rfl, by simp⟩
  · obtain ⟨hnot, hentry⟩ := hw.entries tx' (List.mem_cons_of_mem _ htx')
    refine ⟨?_, hentry⟩
    rintro (hd | heq)
    · exact hnot hd
    · exact hdistinct.1 (List.mem_map.mpr ⟨tx', htx', heq⟩)
  · have hcases := hw.others x hx
    rw [List.map_cons, List.mem_cons] at hcases
    tauto

end Waiting

theorem guard_iff {tx : CTransaction} (hp : PoolTx U env tx) {copy : CoinsView} :
    (!CTxMemPool.haveInputs copy tx) = true ↔ copy.haveInputs tx = false := by
  simp only [CTxMemPool.haveInputs, hp.hasZerocoinSpendInputs, Bool.false_or, Bool.not_eq_true']

theorem checkWaiting_eq_true (hU : NoCollision U) (hf : pool.Fits U env view h) (steps : Nat) (copy : CoinsView)
    (waiting : List CTransaction) : ∀ done, Copy U env h pool done copy → Waiting pool done copy steps waiting →
    checkWaiting env h steps copy waiting = true := by
  induction steps, copy, waiting using checkWaiting.induct env h with
  | case1 steps copy =>
    intro done _ _
    unfold checkWaiting
    rfl
  | case2 steps copy tx rest hguard hsteps ih =>
    intro done hc hw
    obtain ⟨-, entry, hentry, rfl⟩ := hw.entries tx List.mem_cons_self
    unfold checkWaiting
    rw [if_pos hguard, if_pos hsteps]
    exact ih done hc (hw.rotate (by omega) ((guard_iff (hf.txs _ _ hentry)).mp hguard))
  | case3 steps copy tx rest hguard hsteps =>
    -- All of them have been tried, while one has its inputs.
    intro done hc hw
    exfalso
    obtain ⟨-, entry, hentry, rfl⟩ := hw.entries tx List.mem_cons_self
    have hp := hf.txs _ _ hentry
    obtain ⟨ready, hready, hinputs⟩ := hc.exists_ready hf.txs hw.others hw.entries hp.grounded (by simp)
    rw [hw.all_tried (by omega) ((guard_iff hp).mp hguard) ready hready] at hinputs
    cases hinputs
  | case4 steps copy tx rest hguard hspend =>
    intro done hc hw
    obtain ⟨-, entry, hentry, rfl⟩ := hw.entries tx List.mem_cons_self
    rw [guard_iff (hf.txs _ _ hentry), Bool.not_eq_false] at hguard
    obtain ⟨copy', hspend', -⟩ := hc.checkSpend hU hf hentry hguard
    rw [hspend] at hspend'
    cases hspend'
  | case5 steps copy tx rest hguard copy' hspend ih =>
    intro done hc hw
    obtain ⟨-, entry, hentry, rfl⟩ := hw.entries tx List.mem_cons_self
    unfold checkWaiting
    rw [if_neg hguard, hspend]
    rw [guard_iff (hf.txs _ _ hentry), Bool.not_eq_false] at hguard
    obtain ⟨copy₁, hspend', hc'⟩ := hc.checkSpend hU hf hentry hguard
    rw [hspend] at hspend'
    cases hspend'
    exact ih _ hc' (hw.spend copy')

theorem checkNext_eq_true (hwf : pool.Wf) : pool.checkNext = true := by
  unfold checkNext
  rw [List.all_eq_true]
  intro e he
  obtain ⟨entry, hentry, hin⟩ := (hwf.next _ _).mp (AList.mem_lookup_iff.mpr he)
  rw [hentry]
  simpa using hin

theorem check_eq_true (hU : NoCollision U) {height : Nat} (hv : view.Good) (hk : Known U height view)
    (hs : StakesKnown U view) (hf : pool.Fits U env view h) {order : List (Sigma fun _ : Uint256 => CTxMemPoolEntry)}
    (horder : order.Perm pool.mapTx.entries) : pool.check env h view order = true := by
  have hnodup : (order.map Sigma.fst).Nodup := (horder.map _).nodup_iff.mpr pool.mapTx.nodupKeys
  have hes : ∀ e ∈ order, pool.mapTx.lookup e.1 = some e.2 := fun e he => AList.mem_lookup_iff.mpr (horder.mem_iff.mp he)
  obtain ⟨done, copy, waiting, hrun, hc, hsub, hdone⟩ :=
    checkEntries_spec hU hf order (copy_start hU hv hk hs hf) hnodup hes (fun _ _ => id)
  unfold check
  rw [hrun]
  dsimp only
  have hkeys := mem_keys_of_sublist hf.wf hes hsub
  have hwaiting : checkWaiting env h 0 copy waiting = true := by
    apply checkWaiting_eq_true hU hf 0 copy waiting done hc
    refine ⟨hkeys.nodup hnodup, fun tx htx => ⟨fun hd => ?_, ?_⟩, fun x hx => ?_, waiting, [], by simp, rfl, by simp⟩
    · rcases (hdone _).mp hd with hd | ⟨-, hnot⟩
      · exact hd
      · exact hnot (List.mem_map.mpr ⟨tx, htx, rfl⟩)
    · obtain ⟨e, he, rfl⟩ := List.mem_map.mp (hsub.subset htx)
      refine ⟨e.2, ?_, rfl⟩
      rw [hf.wf.keyed _ _ (hes e he)]
      exact hes e he
    · rw [hdone]
      have hmem : x ∈ order.map Sigma.fst := by
        rw [(horder.map Sigma.fst).mem_iff]
        exact AList.lookup_isSome.mp hx
      tauto
  rw [hwaiting, checkNext_eq_true hf.wf, hf.wf.size, (horder.map fun e => e.2.nTxSize).sum_eq]
  simp

/-- A transaction of the pool spends an output of another. -/
def DependsOn (pool : CTxMemPool) (parent child : Uint256) : Prop :=
  pool.contains parent = true ∧ ∃ entry, pool.mapTx.lookup child = some entry ∧ ∃ txin ∈ entry.tx.vin, txin.prevout.hash = parent

theorem acyclic (hwf : pool.Wf) (htxs : pool.Txs (PoolTx U env)) (x : Uint256) : ¬ Relation.TransGen pool.DependsOn x x := by
  have hfeeds : ∀ a b, pool.DependsOn a b → Feeds U a b := by
    rintro a b ⟨-, entry, hentry, txin, hin, rfl⟩
    have hp := htxs _ _ hentry
    refine ⟨entry.tx, hp.mem, hwf.keyed _ _ hentry, txin.prevout, ?_, rfl⟩
    rw [hp.spends]
    exact List.mem_map.mpr ⟨txin, hin, rfl⟩
  intro hcycle
  have hacc : Acc (Relation.TransGen (Feeds U)) x := by
    obtain ⟨-, -, -, entry, hentry, -⟩ := Relation.TransGen.tail'_iff.mp hcycle
    have hgrounded := (htxs _ _ hentry).grounded
    rw [hwf.keyed _ _ hentry] at hgrounded
    exact Acc.transGen hgrounded
  have hirrefl : ∀ y, Acc (Relation.TransGen (Feeds U)) y → ¬ Relation.TransGen (Feeds U) y y := by
    intro y hy
    induction hy with
    | intro y _ ih =>
      intro hself
      exact ih y hself hself
  exact hirrefl x hacc (Relation.TransGen.mono hfeeds _ _ hcycle)

end CTxMemPool

/-! ## Runs -/

namespace PoolNode

/-- The pool is consistent with itself and with the chain, and `check` finds nothing. -/
structure Consistent (env : PoolEnv) (s : PoolNode) : Prop where
  next : ∀ o p, s.pool.mapNextTx.lookup o = some p ↔ s.pool.Spends o p
  spentOnce : ∀ o p p', s.pool.Spends o p → s.pool.Spends o p' → p = p'
  inputs : ∀ hash entry, s.pool.mapTx.lookup hash = some entry → ∀ txin ∈ entry.tx.vin,
    (txin.prevout.hash ≠ hash ∧ ∃ parent, s.pool.mapTx.lookup txin.prevout.hash = some parent ∧
      txin.prevout.n < parent.tx.vout.length) ∨
    (s.view.coins txin.prevout.hash).isAvailable txin.prevout.n = true
  acyclic : ∀ x, ¬ Relation.TransGen s.pool.DependsOn x x
  size : s.pool.totalTxSize = (s.pool.mapTx.entries.map fun e => e.2.nTxSize).sum
  check : ∀ order, order.Perm s.pool.mapTx.entries → s.pool.check env (s.height + 1 : Nat) s.view order = true

theorem consistent_of_poolInv {U : CTransaction → Prop} {env : PoolEnv} {s : PoolNode} (hU : NoCollision U)
    (h : PoolInv U env s) : s.Consistent env := by
  have hacyclic := CTxMemPool.acyclic h.fits.wf h.fits.txs
  refine ⟨h.fits.wf.next, fun o p p' hp hp' => h.fits.wf.spends_unique hp hp', fun hash entry hentry txin hin => ?_,
    hacyclic, h.fits.wf.size, fun order horder => ?_⟩
  · rcases h.fits.inputs hash entry hentry txin hin with ⟨parent, hparent, ha⟩ | ⟨hview, -⟩
    · refine .inl ⟨?_, parent, hparent, lt_of_isAvailable_fromTx ha⟩
      rintro rfl
      refine hacyclic _ (.single ⟨?_, entry, hentry, txin, hin, rfl⟩)
      simp [contains, hparent]
    · exact .inr hview.2
  · exact check_eq_true hU h.good h.known h.stakes h.fits horder

/-- **The memory pool.** From an empty pool on, `AcceptToMemoryPool`, `ConnectTip` and `DisconnectTip` keep it consistent
with the chain, in whatever order they come: after each call `mapNextTx` has exactly the inputs of the pool, every input
is an output of another transaction of the pool or an unspent one of `pcoinsTip`, nothing depends on itself, the sizes
add up, and no assertion of `check` fails. -/
theorem consistent_run (env : PoolEnv) (ops : List PoolOp) (hhash : NoCollision fun tx => ∃ op ∈ ops, tx ∈ op.txs) :
    ∀ pre, pre <+: ops → (run env pre).Consistent env := by
  intro pre hpre
  apply consistent_of_poolInv hhash
  apply PoolInv.run hhash
  intro op hop tx htx
  exact ⟨op, hpre.subset hop, htx⟩

/-! A coinbase of two outputs; a transaction that spends one of them, and another that spends its output. -/

def shortMaturity : PoolEnv where
  toConnectEnv := { regTestEnv with nCoinbaseMaturity := 1 }
  genesisTime := 0
  maturity_lt := by decide

def poolCoinBase : CTransaction :=
  ⟨8, 1, [⟨⟨0, 2 ^ 32 - 1⟩, ([0x51, 0x51] : List UInt8), 0⟩],
    [⟨10 * COIN, ([0x51] : List UInt8), -10⟩, ⟨10 * COIN, ([0x51] : List UInt8), -10⟩], 0⟩

def poolParent : CTransaction :=
  ⟨9, 1, [⟨⟨8, 0⟩, ([] : List UInt8), 0⟩], [⟨9 * COIN, ([0x51] : List UInt8), -10⟩], 0⟩

def poolChild : CTransaction :=
  ⟨10, 1, [⟨⟨9, 0⟩, ([] : List UInt8), 0⟩], [⟨8 * COIN, ([0x51] : List UInt8), -10⟩], 0⟩

def relayAll : RelayEnv := ⟨false, fun _ _ => true⟩

/-- The coinbase, two transactions for the pool, a block with the first of them, and back. -/
def poolOps : List PoolOp :=
  [.connectTip passes ⟨⟨101, 7, 0, 0, 0, 0, 0⟩, [poolCoinBase]⟩, .accept relayAll poolParent, .accept relayAll poolChild,
    .connectTip passes ⟨⟨102, 7, 101, 0, 0, 0, 0⟩, [{ poolCoinBase with hash := 11 }, poolParent]⟩, .disconnectTip relayAll]

theorem consistent_poolOps : (run shortMaturity poolOps).pool.contains 10 = true ∧
    (run shortMaturity poolOps).Consistent shortMaturity := by
  have hhash : NoCollision fun tx => ∃ op ∈ poolOps, tx ∈ op.txs := noCollision_of_forall (by decide)
  exact ⟨by decide, consistent_run shortMaturity poolOps hhash poolOps (List.prefix_refl _)⟩

end PoolNode

end DigiWage
