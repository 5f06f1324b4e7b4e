import DigiWage.Pool.Check
import DigiWage.Lib.Run

/-!
# Transactions that can go into the next block

`AcceptToMemoryPool` takes only transactions that can be mined in the next block: final at its height, and spending no
immature coinbase or coinstake. `DisconnectTip` lowers the height. It takes out what has become immature, by the flags of
`pcoinsTip`, but does not look at lock times again; it even accepts the transactions of the block with the height of the
block still counted. And the flag of a coinstake is lost when the disconnected block spent its last output.

* `StakesMarked`: coinstakes have their flag. Connecting keeps it, and so does disconnecting a block whose undo data
  have no `fCoinStake` (`disconnectBlock_marked`).
-/

namespace DigiWage

open Lib CoinsView CTxMemPool

/-! ## Lock times -/

theorem isFinalTx_mono {tx : CTransaction} {clock clock' h h' t t' : Nat} (hf : isFinalTx clock tx h t = true) (hh : h ≤ h')
    (ht : (if t = 0 then clock else t) ≤ if t' = 0 then clock' else t') : isFinalTx clock' tx h' t' = true := by
  unfold isFinalTx at hf ⊢
  dsimp only at hf ⊢
  simp only [Bool.or_eq_true, beq_iff_eq, decide_eq_true_eq] at hf ⊢
  rcases hf with (hzero | hlock) | hall
  · exact .inl (.inl hzero)
  · refine .inl (.inr ?_)
    split at hlock
    · rename_i hheight
      rw [if_pos hheight]
      omega
    · rename_i htime
      rw [if_neg htime]
      omega
  · exact .inr hall

/-! ## The flags of coinstakes -/

/-- Every coinstake that has an unspent output has its flag. -/
def StakesMarked (U : CTransaction → Prop) (view : CoinsView) : Prop :=
  ∀ p, U p → p.isCoinStake = true → (view.coins p.hash).isPruned = false → (view.coins p.hash).fCoinStake = true

section Marked

variable {U : CTransaction → Prop} {v v₁ w w' view view' : CoinsView} {tx : CTransaction}

theorem StakesMarked.spendInput (hm : StakesMarked U v) (hv : v.Good) {o : COutPoint} {undo : CTxInUndo}
    (h : v.spendInput o = some (undo, v₁)) : StakesMarked U v₁ := by
  have hs : v.spendInputs [o] = some ([undo], v₁) := by simp [CoinsView.spendInputs, h]
  intro p hp hcs hnot
  obtain ⟨vout, hvout⟩ := spendInputs_meta hs p.hash
  have hbefore : (v.coins p.hash).isPruned = false := by
    by_contra hpruned
    rw [Bool.not_eq_false] at hpruned
    rw [spendInputs_isPruned hv hs hpruned] at hnot
    cases hnot
  rw [hvout]
  exact hm p hp hcs hbefore

theorem Updates.marked (hU : NoCollision U) {nHeight : Int32} (hu : Updates tx nHeight view view') (htx : U tx)
    (hm : StakesMarked U view) : StakesMarked U view' := by
  intro p hp hcs hnot
  by_cases heq : p.hash = tx.hash
  · rw [heq, hu.self, ← hU p tx hp htx heq]
    exact hcs
  · obtain ⟨vout, hvout⟩ := hu.fields _ heq
    have hbefore : (view.coins p.hash).isPruned = false := by
      by_contra hpruned
      rw [Bool.not_eq_false, CCoins.isPruned_iff] at hpruned
      have hafter : (view'.coins p.hash).isPruned = true := by
        rw [CCoins.isPruned_iff]
        intro n
        rw [hu.out _ _ heq]
        split
        · rfl
        · exact hpruned n
      rw [hafter] at hnot
      cases hnot
    rw [hvout]
    exact hm p hp hcs hbefore

theorem Connects.marked (hU : NoCollision U) {height : Nat} {txs : List CTransaction} (h : Connects U height txs view view')
    (hm : StakesMarked U view) : StakesMarked U view' := by
  induction h with
  | nil view => exact hm
  | cons htx head _ ih =>
    obtain ⟨_, hu⟩ := head.updates
    exact ih (hu.marked hU htx hm)

theorem restoreInput_marked (hv : v.Good) (hm : StakesMarked U v) {o : COutPoint} {undo : CTxInUndo}
    (h : v.spendInput o = some (undo, v₁)) (hsim : Sim v₁ w) (hw : StakesMarked U w) (hundo : undo.fCoinStake = false)
    (b : Bool) : StakesMarked U (restoreInput undo o (b, w)).2 := by
  obtain ⟨hn, rfl, rfl⟩ := spendInput_some h
  intro p hp hcs hnot
  have hedit : (restoreInput ((v.coins o.hash).undoOf o.n) o (b, w)).2 =
      w.modifyCoins o.hash (restoreCoins ((v.coins o.hash).undoOf o.n) o) := rfl
  rw [hedit] at hnot ⊢
  by_cases heq : p.hash = o.hash
  · have hstake : (v.coins o.hash).fCoinStake = true := by
      rw [← heq]
      exact hm p hp hcs (by rw [heq]; exact CCoins.not_isPruned_of_out hn)
    -- The flag is set, so that the undo data do not have the last output.
    have hpart : ((v.coins o.hash).spent o.n).vout.length ≠ 0 := by
      intro hlast
      unfold CCoins.undoOf at hundo
      rw [if_pos hlast] at hundo
      rw [hstake] at hundo
      cases hundo
    have hnone : ((v.coins o.hash).undoOf o.n).nHeight = 0 := by
      unfold CCoins.undoOf
      rw [if_neg hpart]
    have hleft : ((v.coins o.hash).spent o.n).isPruned = false := by
      by_contra hpruned
      rw [Bool.not_eq_false] at hpruned
      exact hpart (((hv _).clean.spent o.n).length_eq_zero.mpr hpruned)
    have hwnot : (w.coins p.hash).isPruned = false := by
      rw [hsim.isPruned, heq, modifyCoins_self, CCoins.isPruned_cleanup]
      exact hleft
    have hflag := hw p hp hcs hwnot
    rw [heq] at hflag ⊢
    rw [modifyCoins_self]
    unfold restoreCoins
    simp [hnone, hflag]
  · rw [modifyCoins_of_ne _ _ heq] at hnot ⊢
    exact hw p hp hcs hnot

theorem restoreInputs_marked : ∀ {os : List COutPoint} {v v₁ w w' : CoinsView} {undos : CTxUndo} {b b' : Bool}, v.Good →
    StakesMarked U v → v.spendInputs os = some (undos, v₁) → Sim v₁ w → StakesMarked U w →
    (∀ undo ∈ undos, undo.fCoinStake = false) → restoreInputs os undos (b, w) = some (b', w') → StakesMarked U w' := by
  intro os
  induction os with
  | nil =>
    intro v v₁ w w' undos b b' _ _ h _ hw _ hr
    cases h
    cases hr
    exact hw
  | cons o os ih =>
    intro v v₁ w w' undos b b' hv hm h hsim hw hundos hr
    obtain ⟨undo, rest, v₂, h₁, h₂, rfl⟩ := spendInputs_cons h
    obtain ⟨⟨b₂, w₂⟩, hr₂, heq⟩ := Option.map_eq_some_iff.mp hr
    have hv₂ := spendInput_good hv h₁
    have hsim₂ := restoreInputs_sim hv₂ h₂ hsim hr₂
    have hw₂ := ih hv₂ (hm.spendInput hv h₁) h₂ hsim hw (fun u hu => hundos u (List.mem_cons_of_mem _ hu)) hr₂
    have hdone := restoreInput_marked hv hm h₁ hsim₂ hw₂ (hundos undo List.mem_cons_self) b₂
    rw [heq] at hdone
    exact hdone

/-- The undo data of the transactions have no flag. -/
def NoStakeUndo (undos : CBlockUndo) : Prop := ∀ txundo ∈ undos, ∀ undo ∈ txundo, undo.fCoinStake = false

theorem disconnectTx_marked {nHeight : Int32} {txundo : CTxUndo} {b b' : Bool} (hv : v.Good) (hm : StakesMarked U v)
    (hp : (v.coins tx.hash).isPruned = true) (h₁ : v.spendInputs tx.spends = some (txundo, v₁))
    (hsim : Sim (v₁.modifyCoins tx.hash fun _ => CCoins.fromTx tx nHeight) w) (hw : StakesMarked U w)
    (hundo : ∀ undo ∈ txundo, undo.fCoinStake = false) (hd : disconnectTx tx txundo nHeight (b, w) = some (b', w')) :
    StakesMarked U w' := by
  have hrem := removeOutputs_sim (spendInputs_isPruned hv h₁ hp) hsim b
  have hremm : StakesMarked U (removeOutputs tx nHeight (b, w)).2 := by
    rw [removeOutputs_snd]
    intro p hpU hcs hnot
    by_cases hx : p.hash = tx.hash
    · rw [hx, modifyCoins_self] at hnot
      cases hnot
    · rw [modifyCoins_of_ne _ _ hx] at hnot ⊢
      exact hw p hpU hcs hnot
  unfold disconnectTx at hd
  rw [txundo_eq h₁] at hd
  exact restoreInputs_marked hv hm h₁ hrem hremm hundo hd

theorem disconnectTxs_marked (hU : NoCollision U) {nHeight : Int32} (hH : nHeight ≠ 0) : ∀ {txs : List CTransaction}
    {v v' w w' : CoinsView} {c c' : Counters} {undos : CBlockUndo} {b b' : Bool}, (∀ tx ∈ txs, U tx) → v.Good →
    StakesMarked U v → countTxs nHeight txs v c = some (c', undos, v') → Sim v' w → StakesMarked U w → NoStakeUndo undos →
    disconnectTxs nHeight txs undos (b, w) = some (b', w') → StakesMarked U w' := by
  intro txs
  induction txs with
  | nil =>
    intro v v' w w' c c' undos b b' _ _ _ h _ hw _ hd
    cases h
    cases hd
    exact hw
  | cons tx txs ih =>
    intro v v' w w' c c' undos b b' hin hv hm h hsim hw hundos hd
    obtain ⟨_, txundo, rest, v₁, hp, ⟨a, ha⟩, -, h₁, rfl, h₂⟩ := countTxs_cons h
    obtain ⟨⟨b₂, w₂⟩, hd₂, hd₁⟩ := Option.bind_eq_some_iff.mp hd
    have hu := updates_of_spendInputs hv hH (CTransaction.nonneg_of_getValueOut ha) h₁
    have hsim₂ := disconnectTxs_sim hH hu.good h₂ hsim hd₂
    have hw₂ := ih (fun t ht => hin t (List.mem_cons_of_mem _ ht)) hu.good (hu.marked hU (hin tx List.mem_cons_self) hm) h₂ hsim
      hw (fun u hu' => hundos u (List.mem_cons_of_mem _ hu')) hd₂
    exact disconnectTx_marked hv hm hp h₁ hsim₂ hw₂ (hundos txundo List.mem_cons_self) hd₁

theorem disconnectBlock_marked (hU : NoCollision U) {block : CBlock} {nHeight : Int32} (hH : nHeight ≠ 0) {v' : CoinsView}
    {c c' : Counters} {undos : CBlockUndo} {b : Bool} (hin : ∀ tx ∈ block.vtx, U tx) (hv : v.Good) (hm : StakesMarked U v)
    (h : countTxs nHeight block.vtx v c = some (c', undos, v')) (hsim : Sim v' w) (hw : StakesMarked U w)
    (hundos : NoStakeUndo undos.tail) (hd : disconnectBlock block nHeight w undos.tail = some (b, w')) :
    StakesMarked U w' := by
  obtain ⟨hundo, w₁, htxs, rfl⟩ := disconnectBlock_countTxs h hd
  have hall : NoStakeUndo undos := by
    rw [hundo]
    intro txundo htx undo hmem
    rcases List.mem_cons.mp htx with rfl | htx
    · cases hmem
    · exact hundos txundo htx undo hmem
  have hdone : StakesMarked U w₁ := disconnectTxs_marked hU hH hin hv hm h hsim hw hall htxs
  exact hdone

end Marked

/-! ## Runs -/

namespace PoolNode

variable {env : PoolEnv} {s : PoolNode} {U : CTransaction → Prop}

/-- The transaction is final in the next block: for the time that `CheckFinalTx` takes, and for the clock. -/
def FinalNext (env : PoolEnv) (s : PoolNode) (tx : CTransaction) : Prop :=
  s.checkFinalTx env tx = true ∧ isFinalTx s.adjustedTime tx (s.height + 1) 0 = true

/-- The tests of `AcceptToMemoryPool` on lock times pass. -/
def LockTimesPass (env : PoolEnv) (s : PoolNode) (tx : CTransaction) : Prop :=
  s.checkFinalTx env tx = true ∧ (env.params.isRegTestNet = false → isFinalTx s.adjustedTime tx (s.height + 1) 0 = true)

/-- The pool can go into the next block: it is final there, and spends mature coinbases and coinstakes only. -/
structure Minable (U : CTransaction → Prop) (env : PoolEnv) (s : PoolNode) : Prop where
  final : s.pool.Txs (s.FinalNext env)
  mature : s.pool.Inputs fun o => s.pool.contains o.hash = false → ∀ p, U p → p.hash = o.hash →
    (p.isCoinBase || p.isCoinStake) = true →
    env.nCoinbaseMaturity ≤ ((s.height + 1 : Nat) : Int) - (s.view.coins o.hash).nHeight.toInt

/-- The node without its tip, as far as lock times go. -/
def below (s : PoolNode) : PoolNode := { s with chain := s.chain.tail }

end PoolNode

/-- The time that `IsFinalTx` takes. -/
def lockTime (adjustedTime nBlockTime : Nat) : Nat := if nBlockTime = 0 then adjustedTime else nBlockTime

/-- Time does not go back: neither the clock nor, when a block is connected, the time that `CheckFinalTx` takes. -/
def PoolOp.Forward (env : PoolEnv) (s : PoolNode) : PoolOp → Prop
  | connectTip _ block => lockTime s.adjustedTime (medianTimePast (s.times env)) ≤
      lockTime s.adjustedTime (medianTimePast (block.nTime :: s.times env))
  | tick adjustedTime => s.adjustedTime ≤ adjustedTime
  | _ => True

open PoolNode in
/-- A block that is disconnected makes no transaction of the pool, or of its own, that passed lose its finality, and its
undo data have no flag of a coinstake. On regtest, where `IsStandardTx` is not called, what is accepted is final for the
clock. -/
def PoolOp.Keeps (env : PoolEnv) (s : PoolNode) : PoolOp → Prop
  | accept _ tx => s.LockTimesPass env tx → s.FinalNext env tx
  | disconnectTip _ => ∀ l ∈ s.chain.head?, NoStakeUndo l.undo ∧
      ∀ tx, ((∃ hash entry, s.pool.mapTx.lookup hash = some entry ∧ entry.tx = tx) ∨ tx ∈ l.block.vtx) →
        s.LockTimesPass env tx → s.below.FinalNext env tx
  | _ => True

namespace PoolNode

variable {env : PoolEnv} {s : PoolNode} {U : CTransaction → Prop}

/-- Each call of a run meets a condition in the state before it. -/
def Runs (env : PoolEnv) (P : PoolNode → PoolOp → Prop) (ops : List PoolOp) : Prop :=
  Meets (fun s op => some (s.step env op)) P (genesis env) ops

/-- The lock times and the flags, beside what the pool keeps anyway. -/
structure Ready (U : CTransaction → Prop) (env : PoolEnv) (s : PoolNode) : Prop where
  marked : StakesMarked U s.view
  links : ∀ l ∈ s.chain, StakesMarked U l.view
  final : s.pool.Txs (s.FinalNext env)

theorem Ready.minable (h : Ready U env s) (hi : PoolInv U env s) : s.Minable U env := by
  refine ⟨h.final, fun hash entry hentry txin hin hnone p hp hhash hflag => ?_⟩
  have hlookup : s.pool.mapTx.lookup txin.prevout.hash = none := by
    simpa [contains] using hnone
  rcases hi.fits.inputs hash entry hentry txin hin with ⟨parent, hparent, -⟩ | ⟨⟨-, ha⟩, hm⟩
  · rw [hlookup] at hparent
    cases hparent
  · have hnot := CCoins.not_isPruned_of_out (CCoins.isAvailable_iff.mp ha).1
    apply hm
    rw [← hhash] at hnot ⊢
    rcases Bool.or_eq_true_iff.mp hflag with hcb | hcs
    · rw [hi.known.marked p hp hcb hnot, Bool.true_or]
    · rw [h.marked p hp hcs hnot, Bool.or_true]

theorem lockTimesPass_of_accepts {view : CoinsView} {nSpendHeight : Nat} {pool : CTxMemPool} {tx : CTransaction}
    (ha : Accepts env s view nSpendHeight pool tx) : s.LockTimesPass env tx := ⟨ha.final, ha.standard⟩

theorem txs_addUnchecked {pool : CTxMemPool} {P : CTransaction → Prop} (h : pool.Txs P) {tx : CTransaction} (htx : P tx)
    (n : Nat) : (pool.addUnchecked tx.hash ⟨tx, n⟩).Txs P := by
  intro hash entry hentry
  rw [lookup_addUnchecked] at hentry
  split at hentry
  · cases hentry
    exact htx
  · exact h hash entry hentry

theorem txs_resurrect {P : CTransaction → Prop} (relay : RelayEnv) (view : CoinsView) : ∀ (txs : List CTransaction)
    {pool : CTxMemPool}, pool.Txs P → (∀ tx ∈ txs, s.LockTimesPass env tx → P tx) →
    (txs.foldl (s.resurrect env relay view) pool).Txs P := by
  intro txs
  induction txs with
  | nil =>
    intro pool h _
    exact h
  | cons tx txs ih =>
    intro pool h hpass
    rw [List.foldl_cons]
    refine ih ?_ fun tx' htx' => hpass tx' (List.mem_cons_of_mem _ htx')
    unfold resurrect
    split
    · exact (sub_remove tx true pool).txs h
    · split
      · exact (sub_remove tx true pool).txs h
      · rename_i pool' haccept
        obtain ⟨ha, rfl⟩ := acceptToMemoryPool_some haccept
        exact txs_addUnchecked h (hpass tx List.mem_cons_self (lockTimesPass_of_accepts ha)) _

theorem sub_removeCoinbaseSpends (env : PoolEnv) (view : CoinsView) (nMemPoolHeight : Nat) (pool : CTxMemPool) :
    Sub (pool.removeCoinbaseSpends env view nMemPoolHeight) pool := by
  unfold CTxMemPool.removeCoinbaseSpends
  dsimp only
  generalize (pool.mapTx.entries.map fun e => e.2.tx).filter _ = txs
  induction txs generalizing pool with
  | nil => exact .refl pool
  | cons tx txs ih => exact (ih _).trans (sub_remove tx true pool)

theorem FinalNext.mono {s' : PoolNode} {tx : CTransaction} (h : s.FinalNext env tx) (hheight : s.height ≤ s'.height)
    (hclock : s.adjustedTime ≤ s'.adjustedTime)
    (htime : lockTime s.adjustedTime (medianTimePast (s.times env)) ≤
      lockTime s'.adjustedTime (medianTimePast (s'.times env))) : s'.FinalNext env tx := by
  refine ⟨isFinalTx_mono h.1 (by omega) htime, isFinalTx_mono h.2 (by omega) ?_⟩
  simpa using hclock

namespace Ready

theorem accept (h : Ready U env s) (relay : RelayEnv) {tx : CTransaction}
    (hk : s.LockTimesPass env tx → s.FinalNext env tx) : Ready U env (s.accept env relay tx) := by
  unfold PoolNode.accept
  split
  · exact h
  · rename_i pool haccept
    obtain ⟨ha, rfl⟩ := acceptToMemoryPool_some haccept
    exact ⟨h.marked, h.links, txs_addUnchecked h.final (hk (lockTimesPass_of_accepts ha)) _⟩

theorem connectTip (hU : NoCollision U) (h : Ready U env s) (hi : PoolInv U env s) (checks : ConnectChecks) {block : CBlock}
    (hin : ∀ tx ∈ block.vtx, U tx) (ht : (PoolOp.connectTip checks block).Forward env s) :
    Ready U env (s.connectTip env checks block) := by
  rcases connectTip_cases env s checks block with hsame | ⟨c, undos, view', -, hint, hcount, heq⟩
  · rw [hsame]
    exact h
  · rw [heq]
    have hconnects : Connects U (s.height + 1) block.vtx s.view view' :=
      connects_of_countTxs hU (by omega) (by omega) hin hi.good (hi.known.mono (Nat.le_succ _)) hi.stakes hcount
    have hmarked : StakesMarked U view' := hconnects.marked hU h.marked
    refine ⟨hmarked, fun l hl => ?_, ?_⟩
    · rcases List.mem_cons.mp hl with rfl | hl
      · exact h.marked
      · exact h.links l hl
    · intro hash entry hentry
      have hfinal := h.final hash entry (sub_removeForBlock block.vtx s.pool hash entry hentry)
      exact hfinal.mono (Nat.le_succ _) le_rfl ht

theorem disconnectTip (hU : NoCollision U) (h : Ready U env s) (hi : PoolInv U env s) (relay : RelayEnv)
    (hk : (PoolOp.disconnectTip relay).Keeps env s) : Ready U env (s.disconnectTip env relay) := by
  unfold PoolNode.disconnectTip
  split
  · exact h
  · rename_i l ls hchain
    split
    · rename_i view' hd
      obtain ⟨hundo, hfinal⟩ := hk l (by rw [hchain]; rfl)
      have hconnected := hi.connected
      have hlinked := hi.linked
      rw [hchain] at hconnected hlinked
      obtain ⟨hgood, hne, ⟨c, undos, v', hcount, heq, hsim⟩, -⟩ := hconnected
      obtain ⟨-, -, -, -, hin, -⟩ := hlinked
      have hlink : StakesMarked U l.view := h.links l (by rw [hchain]; exact List.mem_cons_self)
      rw [heq] at hd hundo
      have hmarked := disconnectBlock_marked hU hne hin hgood hlink hcount hsim h.marked hundo hd
      have hbelow : s.below.chain = ls := by
        unfold below
        rw [hchain, List.tail_cons]
      refine ⟨hmarked, fun l' hl' => h.links l' (by rw [hchain]; exact List.mem_cons_of_mem _ hl'), ?_⟩
      have hpool : (l.block.vtx.foldl (s.resurrect env relay view') s.pool).Txs (s.below.FinalNext env) := by
        refine txs_resurrect relay view' l.block.vtx (fun hash entry hentry => ?_) fun tx htx hpass => hfinal tx (.inr htx) hpass
        have hold := h.final hash entry hentry
        exact hfinal entry.tx (.inl ⟨hash, entry, hentry, rfl⟩) ⟨hold.1, fun _ => hold.2⟩
      have hafter := (sub_removeCoinbaseSpends env view' s.height _).txs hpool
      intro hash entry hentry
      have hnext := hafter hash entry hentry
      unfold FinalNext checkFinalTx times PoolNode.height at hnext ⊢
      rw [hbelow] at hnext
      exact hnext
    · exact h

theorem step (hU : NoCollision U) (h : Ready U env s) (hi : PoolInv U env s) {op : PoolOp} (hin : ∀ tx ∈ op.txs, U tx)
    (ht : op.Forward env s) (hk : op.Keeps env s) : Ready U env (s.step env op) := by
  cases op with
  | accept relay tx => exact h.accept relay hk
  | connectTip checks block => exact h.connectTip hU hi checks hin ht
  | disconnectTip relay => exact h.disconnectTip hU hi relay hk
  | tick t =>
    refine ⟨h.marked, h.links, fun hash entry hentry => ?_⟩
    refine (h.final hash entry hentry).mono le_rfl ht ?_
    have ht : s.adjustedTime ≤ t := ht
    show lockTime s.adjustedTime (medianTimePast (s.times env)) ≤ lockTime t (medianTimePast (s.times env))
    unfold lockTime
    split
    · exact ht
    · exact le_rfl
  | clear =>
    refine ⟨h.marked, h.links, fun hash entry hentry => ?_⟩
    have hentry : CTxMemPool.empty.mapTx.lookup hash = some entry := hentry
    rw [lookup_empty] at hentry
    cases hentry

end Ready

theorem ready_genesis (U : CTransaction → Prop) (env : PoolEnv) : Ready U env (genesis env) := by
  refine ⟨fun p _ _ hnot => ?_, fun l hl => ?_, fun hash entry hentry => ?_⟩
  · cases hnot
  · cases hl
  · have hentry : CTxMemPool.empty.mapTx.lookup hash = some entry := hentry
    rw [lookup_empty] at hentry
    cases hentry

theorem foldlM_step (s : PoolNode) (ops : List PoolOp) :
    ops.foldlM (fun s op => some (s.step env op)) s = some (ops.foldl (step env) s) := by
  induction ops generalizing s with
  | nil => rfl
  | cons op ops ih => exact ih (s.step env op)

/-- **The next block.** In a run in which time does not go back, and in which no disconnected block takes the finality of a
transaction or the flag of a coinstake away, after each call all of the pool can go into the next block. -/
theorem minable_run (env : PoolEnv) (ops : List PoolOp) (hhash : NoCollision fun tx => ∃ op ∈ ops, tx ∈ op.txs)
    (htime : Runs env (fun s op => op.Forward env s) ops) (hkeeps : Runs env (fun s op => op.Keeps env s) ops) :
    ∀ pre, pre <+: ops → (run env pre).Minable (fun tx => ∃ op ∈ ops, tx ∈ op.txs) env := by
  intro pre hpre
  obtain ⟨rest, rfl⟩ := hpre
  have hmeets := (Meets.of_append_left htime).and (Meets.of_append_left hkeeps)
  -- The invariant holds of the calls so far, which are calls of the run.
  have hinv := Meets.keeps_along (I := fun done s => done <+: pre → PoolInv (fun tx => ∃ op ∈ pre ++ rest, tx ∈ op.txs) env s ∧
      Ready (fun tx => ∃ op ∈ pre ++ rest, tx ∈ op.txs) env s) (fun done s op s' hI hP hstep hdone => by
    cases hstep
    obtain ⟨hi, hr⟩ := hI ((List.prefix_append done [op]).trans hdone)
    have hin : ∀ tx ∈ op.txs, ∃ op ∈ pre ++ rest, tx ∈ op.txs :=
      fun tx htx => ⟨op, List.mem_append_left _ (hdone.subset (by simp)), htx⟩
    exact ⟨hi.step hhash hin, hr.step hhash hi hin hP.1 hP.2⟩) [] (fun _ => ⟨.genesis _ env, ready_genesis _ env⟩) hmeets
    (foldlM_step (genesis env) pre)
  obtain ⟨hi, hr⟩ := hinv (by simp)
  exact hr.minable hi

theorem finalNext_of_unlocked {tx : CTransaction} (h : tx.nLockTime = 0) : s.FinalNext env tx := by
  constructor
  · simp [checkFinalTx, isFinalTx, h]
  · simp [isFinalTx, h]

/-- A run that disconnects a block without doing harm. -/
theorem minable_poolOps : (run shortMaturity poolOps).pool.contains 10 = true ∧
    (run shortMaturity poolOps).Minable (fun tx => ∃ op ∈ poolOps, tx ∈ op.txs) shortMaturity := by
  refine ⟨by decide, minable_run shortMaturity poolOps ?_ ?_ ?_ poolOps (List.prefix_refl _)⟩
  · exact noCollision_of_forall (by decide)
  · refine .cons _ ?_ rfl (.cons _ trivial rfl (.cons _ trivial rfl (.cons _ ?_ rfl (.cons _ trivial rfl trivial))))
    · simp [PoolOp.Forward, lockTime, medianTimePast, PoolNode.times, genesis, List.mergeSort, shortMaturity]
    · have htimes : (run shortMaturity (poolOps.take 3)).times shortMaturity = [0, 0] := by decide
      have hforward : (PoolOp.connectTip passes
          ⟨⟨102, 7, 101, 0, 0, 0, 0⟩, [{ poolCoinBase with hash := 11 }, poolParent]⟩).Forward
          shortMaturity (run shortMaturity (poolOps.take 3)) := by
        unfold PoolOp.Forward
        dsimp only
        rw [htimes]
        simp [lockTime, medianTimePast, List.mergeSort]
      exact hforward
  · refine .cons _ trivial rfl (.cons _ ?_ rfl (.cons _ ?_ rfl (.cons _ trivial rfl (.cons _ ?_ rfl trivial))))
    · exact fun _ => finalNext_of_unlocked rfl
    · exact fun _ => finalNext_of_unlocked rfl
    · have hkeeps : (PoolOp.disconnectTip relayAll).Keeps shortMaturity (run shortMaturity (poolOps.take 4)) := by
        have hundo : ∀ l ∈ (run shortMaturity (poolOps.take 4)).chain, (l.undo.all fun t => t.all fun u => !u.fCoinStake) = true ∧
            (l.block.vtx.all fun tx => tx.nLockTime == 0) = true := by
          decide
        have hpool : ∀ e ∈ (run shortMaturity (poolOps.take 4)).pool.mapTx.entries, e.2.tx.nLockTime = 0 := by decide
        intro l hl
        obtain ⟨hstake, hlock⟩ := hundo l (List.mem_of_mem_head? hl)
        refine ⟨fun txundo ht undo hu => ?_, ?_⟩
        · have := List.all_eq_true.mp (List.all_eq_true.mp hstake txundo ht) undo hu
          simpa using this
        · rintro tx (⟨hash, entry, hentry, rfl⟩ | htx) -
          · exact finalNext_of_unlocked (hpool _ (AList.mem_lookup_iff.mp hentry))
          · exact finalNext_of_unlocked (by simpa using List.all_eq_true.mp hlock tx htx)
      exact hkeeps

/-- A transaction with lock time 2 that spends the coinbase of the first block. -/
def poolLocked : CTransaction :=
  ⟨12, 1, [⟨⟨8, 0⟩, ([] : List UInt8), 0⟩], [⟨9 * COIN, ([0x51] : List UInt8), -10⟩], 2⟩

/-- Two blocks, the transaction, and the second block goes. -/
def lockedOps : List PoolOp :=
  [.connectTip passes ⟨⟨101, 7, 0, 0, 1, 0, 0⟩, [poolCoinBase]⟩,
    .connectTip passes ⟨⟨102, 7, 101, 0, 1, 0, 0⟩, [{ poolCoinBase with hash := 11 }]⟩, .accept relayAll poolLocked,
    .disconnectTip relayAll]

theorem lockedOps_forward : Runs shortMaturity (fun s op => op.Forward shortMaturity s) lockedOps := by
  refine .cons _ ?_ rfl (.cons _ ?_ rfl (.cons _ trivial rfl (.cons _ trivial rfl trivial)))
  · simp [PoolOp.Forward, lockTime, medianTimePast, PoolNode.times, genesis, List.mergeSort, shortMaturity]
  · have htimes : ((genesis shortMaturity).step shortMaturity
        (.connectTip passes ⟨⟨101, 7, 0, 0, 1, 0, 0⟩, [poolCoinBase]⟩)).times shortMaturity = [1, 0] := by decide
    unfold PoolOp.Forward
    dsimp only
    rw [htimes]
    simp [lockTime, medianTimePast, List.mergeSort]

/-- The transaction was final at height 3, and stays in the pool when the next block has height 2. -/
theorem not_minable_run : ¬ ∀ (env : PoolEnv) (ops : List PoolOp), (NoCollision fun tx => ∃ op ∈ ops, tx ∈ op.txs) →
    Runs env (fun s op => op.Forward env s) ops →
    ∀ pre, pre <+: ops → (run env pre).Minable (fun tx => ∃ op ∈ ops, tx ∈ op.txs) env := by
  intro hall
  have hhash : NoCollision fun tx => ∃ op ∈ lockedOps, tx ∈ op.txs := noCollision_of_forall (by decide)
  have hminable := hall shortMaturity lockedOps hhash lockedOps_forward lockedOps (List.prefix_refl _)
  have hlookup : (run shortMaturity lockedOps).pool.mapTx.lookup 12 = some ⟨poolLocked, 100⟩ := by decide
  have hfinal := (hminable.final _ _ hlookup).2
  have hnot : isFinalTx (run shortMaturity lockedOps).adjustedTime poolLocked ((run shortMaturity lockedOps).height + 1) 0 =
      false := by decide
  rw [hnot] at hfinal
  cases hfinal

end PoolNode

end DigiWage
