import DigiWage.Coins.Exact
import DigiWage.Pool.Check
import DigiWage.Lib.Run

/-!
# Moving the tip

`ConnectTip`, `DisconnectTip` and `DisconnectBlocks` of `main.cpp` with what they return. `ConnectBlock` changes a view over
`pcoinsTip` transaction by transaction, and may fail at any of them; the view is flushed where it returns true only.

* `connectTipResult_snd` and `disconnectTipResult_snd`: the node afterwards is that of `PoolNode.connectTip` and
  `PoolNode.disconnectTip`.
* `ExactTip`: `pcoinsTip` has the best block and the coins of the tip. `ConnectTip` keeps this, and `DisconnectTip` does iff
  the block empties no coinstake entry (`ExactTip.disconnectBlock`).
-/

namespace DigiWage

open Lib CoinsView

/-! ## `ConnectBlock` on the view of `ConnectTip` -/

/-- What the rest of the node says in `ConnectTip`. -/
structure TipChecks where
  /-- `ReadBlockFromDisk`, where the block is not given. -/
  reads : Bool
  /-- `CheckBlock` beside its look at the coinbase, and whether the height is one for proof of work or proof of stake. -/
  start : Bool
  /-- The checks of the transaction at an index: signature operations, zerocoins, amounts and scripts. -/
  passes : Nat → Bool
  /-- The supply, the reward and the queue of script checks. -/
  finish : Bool
  /-- The writes to the disk. -/
  writes : Bool

/-- The loop of `ConnectBlock` from the index on: whether it comes to the end, the undo data, and the view as it is then. -/
def connectLoop (nHeight : Int32) (passes : Nat → Bool) : Nat → List CTransaction → CoinsView → Bool × CBlockUndo × CoinsView
  | _, [], view => (true, [], view)
  | i, tx :: txs, view =>
    if !((view.coins tx.hash).isPruned && passes i && (tx.noInputs || view.haveInputs tx) && tx.getValueOut.isSome) then
      (false, [], view)
    else
      match updateCoins tx view nHeight with
      | none => (false, [], view)
      | some (txundo, view') =>
        let r := connectLoop nHeight passes (i + 1) txs view'
        (r.1, txundo :: r.2.1, r.2.2)

/-- The block starts with a coinbase. -/
def CBlock.startsWithCoinBase (block : CBlock) : Bool := block.vtx.head?.any CTransaction.isCoinBase

theorem CBlock.exists_cons_of_startsWithCoinBase {block : CBlock} (h : block.startsWithCoinBase = true) :
    ∃ tx txs, block.vtx = tx :: txs ∧ tx.isCoinBase = true := by
  unfold startsWithCoinBase at h
  cases hvtx : block.vtx with
  | nil =>
    rw [hvtx] at h
    cases h
  | cons tx txs =>
    rw [hvtx] at h
    exact ⟨tx, txs, rfl, h⟩

/-- `ConnectBlock`: what it returns, the undo data, and the view as it leaves it. -/
def connectBlockOn (hashGenesisBlock : Uint256) (checks : TipChecks) (block : CBlock) (nHeight : Int32) (view : CoinsView) :
    Bool × CBlockUndo × CoinsView :=
  if !(checks.start && block.startsWithCoinBase) || view.hashBlock != block.hashPrevBlock then (false, [], view)
  else if block.hash = hashGenesisBlock then (true, [], { view with hashBlock := block.hash })
  else
    let r := connectLoop nHeight checks.passes 0 block.vtx view
    if r.1 && checks.finish && checks.writes then (true, r.2.1.tail, { r.2.2 with hashBlock := block.hash })
    else (false, r.2.1.tail, r.2.2)

theorem countTx_isSome {view : CoinsView} {tx : CTransaction} (c : Counters) (hval : tx.getValueOut.isSome = true) :
    (countTx view tx c).isSome = (tx.noInputs || view.haveInputs tx) := by
  obtain ⟨a, ha⟩ := Option.isSome_iff_exists.mp hval
  unfold countTx CTransaction.noInputs
  rw [ha]
  cases hz : tx.hasZerocoinSpendInputs with
  | true => simp
  | false =>
    cases hb : tx.isCoinBase with
    | true => simp
    | false => cases hin : view.haveInputs tx <;> simp

theorem countTxs_of_connectLoop {nHeight : Int32} {passes : Nat → Bool} : ∀ {txs : List CTransaction} {i : Nat}
    {view view' : CoinsView} {undos : CBlockUndo} (c : Counters), connectLoop nHeight passes i txs view = (true, undos, view') →
    (∀ j < txs.length, passes (i + j) = true) ∧ ∃ c', countTxs nHeight txs view c = some (c', undos, view')
  | [], i, view, view', undos, c, h => by
    cases h
    exact ⟨fun j hj => absurd hj (Nat.not_lt_zero j), c, rfl⟩
  | tx :: txs, i, view, view', undos, c, h => by
    unfold connectLoop at h
    split at h
    · cases h
    · rename_i hchecks
      simp only [Bool.not_eq_true', Bool.not_eq_false, Bool.and_eq_true] at hchecks
      obtain ⟨⟨⟨hp, hpass⟩, hin⟩, hval⟩ := hchecks
      obtain ⟨c₁, hc₁⟩ := Option.isSome_iff_exists.mp ((countTx_isSome c hval).trans hin)
      cases hu : updateCoins tx view nHeight with
      | none =>
        rw [hu] at h
        cases h
      | some r =>
        rw [hu] at h
        obtain ⟨txundo, view₁⟩ := r
        dsimp only at h
        obtain ⟨hb, hrest⟩ := Prod.mk.inj h
        obtain ⟨hundos, hview⟩ := Prod.mk.inj hrest
        obtain ⟨hpasses, c₂, hc₂⟩ := countTxs_of_connectLoop c₁
          (show connectLoop nHeight passes (i + 1) txs view₁ = (true, (connectLoop nHeight passes (i + 1) txs view₁).2.1, view') by
            rw [← hb, ← hview])
        refine ⟨fun j hj => ?_, c₂, ?_⟩
        · cases j with
          | zero => exact hpass
          | succ j =>
            rw [← Nat.succ_add_eq_add_succ]
            exact hpasses j (Nat.lt_of_succ_lt_succ hj)
        · rw [← hundos]
          simp only [countTxs, hp, hval, Bool.and_self, ↓reduceIte, hc₁, hu, hc₂]

theorem connectLoop_of_countTxs {nHeight : Int32} {passes : Nat → Bool} : ∀ {txs : List CTransaction} {i : Nat}
    {view view' : CoinsView} {undos : CBlockUndo} {c c' : Counters}, (∀ j < txs.length, passes (i + j) = true) →
    countTxs nHeight txs view c = some (c', undos, view') → connectLoop nHeight passes i txs view = (true, undos, view')
  | [], i, view, view', undos, c, c', _, h => by
    cases h
    rfl
  | tx :: txs, i, view, view', undos, c, c', hpasses, h => by
    obtain ⟨c₁, txundo, rest, v₁, hp, ⟨a, ha⟩, hc₁, h₁, rfl, h₂⟩ := countTxs_cons h
    have hval : tx.getValueOut.isSome = true := by rw [ha]; rfl
    have hin : (tx.noInputs || view.haveInputs tx) = true := by
      rw [← countTx_isSome c hval, hc₁]
      rfl
    have hrest : connectLoop nHeight passes (i + 1) txs (v₁.modifyCoins tx.hash fun _ => CCoins.fromTx tx nHeight) =
        (true, rest, view') := by
      refine connectLoop_of_countTxs (fun j hj => ?_) h₂
      rw [Nat.succ_add_eq_add_succ]
      exact hpasses (j + 1) (Nat.succ_lt_succ hj)
    have hpass : passes i = true := hpasses 0 (Nat.zero_lt_succ _)
    unfold connectLoop
    rw [hp, hpass, hin, hval]
    simp only [Bool.and_self, Bool.not_true, Bool.false_eq_true, ↓reduceIte, updateCoins, h₁, hrest]

theorem connectBlockOn_true {hashGenesisBlock : Uint256} {checks : TipChecks} {block : CBlock} {nHeight : Int32}
    {view : CoinsView} (hg : block.hash ≠ hashGenesisBlock)
    (h : (connectBlockOn hashGenesisBlock checks block nHeight view).1 = true) : ∃ c undos view',
      (checks.start = true ∧ block.startsWithCoinBase = true ∧ (∀ j < block.vtx.length, checks.passes j = true) ∧
        checks.finish = true ∧ checks.writes = true) ∧ view.hashBlock = block.hashPrevBlock ∧
      countTxs nHeight block.vtx view ⟨0, 0⟩ = some (c, undos, view') ∧
      connectBlockOn hashGenesisBlock checks block nHeight view = (true, undos.tail, { view' with hashBlock := block.hash }) := by
  unfold connectBlockOn at h ⊢
  by_cases hstart : (!(checks.start && block.startsWithCoinBase) || view.hashBlock != block.hashPrevBlock) = true
  · rw [if_pos hstart] at h
    cases h
  · rw [if_neg hstart, if_neg hg] at h ⊢
    simp only [Bool.or_eq_true, Bool.not_eq_true', Bool.and_eq_false_iff, bne_iff_ne, ne_eq, not_or, Bool.not_eq_false,
      not_not] at hstart
    cases hloop : connectLoop nHeight checks.passes 0 block.vtx view with
    | mk b r =>
      obtain ⟨undos, view'⟩ := r
      rw [hloop] at h
      dsimp only at h ⊢
      split at h
      · rename_i hend
        simp only [Bool.and_eq_true] at hend
        obtain ⟨⟨rfl, hfinish⟩, hwrites⟩ := hend
        obtain ⟨hpasses, c, hc⟩ := countTxs_of_connectLoop ⟨0, 0⟩ hloop
        refine ⟨c, undos, view', ⟨hstart.1.1, hstart.1.2, fun j hj => ?_, hfinish, hwrites⟩, hstart.2, hc, ?_⟩
        · rw [← Nat.zero_add j]
          exact hpasses j hj
        · rw [hfinish, hwrites]
          rfl
      · cases h

/-- What the checks say about a block, all together. -/
def TipChecks.all (checks : TipChecks) (block : CBlock) : ConnectChecks where
  checks := checks.reads && checks.start && block.startsWithCoinBase &&
    (List.range block.vtx.length).all checks.passes && checks.finish
  writes := checks.writes

theorem connectBlock_eq_connectBlockOn {hashGenesisBlock : Uint256} {checks : TipChecks} {block : CBlock} {nHeight : Int32}
    {view : CoinsView} (hg : block.hash ≠ hashGenesisBlock) (hreads : checks.reads = true) (n : Int) :
    (connectBlock hashGenesisBlock false (checks.all block) block nHeight view n).1 =
      if (connectBlockOn hashGenesisBlock checks block nHeight view).1 then
        some (connectBlockOn hashGenesisBlock checks block nHeight view).2 else none := by
  split
  · rename_i hon
    obtain ⟨c, undos, view', ⟨hstart, hcoinbase, hpasses, hfinish, hwrites⟩, hprev, hcount, heq⟩ := connectBlockOn_true hg hon
    have hall : (checks.all block).checks = true := by
      simp only [TipChecks.all, hreads, hstart, hcoinbase, hfinish, Bool.and_true, Bool.true_and, List.all_eq_true,
        List.mem_range]
      exact hpasses
    have hw : (checks.all block).writes = true := hwrites
    rw [heq]
    unfold connectBlock
    simp [hall, hprev, hg, hcount, hw]
  · rename_i hon
    unfold connectBlock
    split
    · rfl
    · rename_i hstart
      simp only [TipChecks.all, Bool.or_eq_true, Bool.not_eq_true', bne_iff_ne, ne_eq, not_or, Bool.not_eq_false, not_not,
        Bool.and_eq_true, List.all_eq_true, List.mem_range] at hstart
      obtain ⟨⟨⟨⟨⟨-, hs⟩, hcoinbase⟩, hpasses⟩, hfinish⟩, hprev⟩ := hstart
      cases hcount : countTxs nHeight block.vtx view ⟨0, 0⟩ with
      | none => rfl
      | some r =>
        obtain ⟨c, undos, view'⟩ := r
        have hloop : connectLoop nHeight checks.passes 0 block.vtx view = (true, undos, view') := by
          refine connectLoop_of_countTxs (fun j hj => ?_) hcount
          rw [Nat.zero_add]
          exact hpasses j hj
        cases hw : checks.writes with
        | false => simp [TipChecks.all, hw]
        | true =>
          refine absurd ?_ hon
          unfold connectBlockOn
          simp [hs, hcoinbase, hprev, hg, hloop, hfinish, hw]

/-! ## `ConnectTip` and `DisconnectTip` -/

/-- A call that moves the tip, and what may come between. -/
inductive TipOp where
  | connectTip (checks : TipChecks) (block : CBlock)
  | disconnectTip (relay : RelayEnv) (reads : Bool)
  | accept (relay : RelayEnv) (tx : CTransaction)
  | tick (adjustedTime : Nat)

namespace PoolNode

variable (env : PoolEnv)

/-- `ConnectTip`, with what it returns. The view is flushed to `pcoinsTip` where `ConnectBlock` returns true. -/
def connectTipResult (checks : TipChecks) (block : CBlock) (s : PoolNode) : Bool × PoolNode :=
  if 2 ^ 31 ≤ s.height + 1 ∨ block.hash = env.hashGenesisBlock then (false, s)
  else if !checks.reads then (false, s)
  else
    let r := connectBlockOn env.hashGenesisBlock checks block (Int32.ofNat (s.height + 1)) s.view
    if r.1 then
      (true, ⟨r.2.2, ⟨block, Int32.ofNat (s.height + 1), s.view, r.2.1⟩ :: s.chain, (s.pool.removeForBlock block.vtx).2,
        s.adjustedTime⟩)
    else (false, s)

/-- `DisconnectTip`, with what it returns. The view is flushed to `pcoinsTip` where `DisconnectBlock` returns true. The
genesis block has no undo data. -/
def disconnectTipResult (relay : RelayEnv) (reads : Bool) (s : PoolNode) : Bool × PoolNode :=
  match s.chain with
  | [] => (false, s)
  | l :: ls =>
    if !reads then (false, s)
    else
      match disconnectBlock l.block l.nHeight s.view l.undo with
      | some (true, view) =>
        (true, ⟨view, ls, (l.block.vtx.foldl (s.resurrect env relay view) s.pool).removeCoinbaseSpends env view s.height,
          s.adjustedTime⟩)
      | _ => (false, s)

/-- One call, with what it returns. -/
def tipStep (s : PoolNode) : TipOp → Bool × PoolNode
  | .connectTip checks block => s.connectTipResult env checks block
  | .disconnectTip relay reads => s.disconnectTipResult env relay reads
  | .accept relay tx => (true, s.accept env relay tx)
  | .tick adjustedTime => (true, { s with adjustedTime := adjustedTime })

/-- The calls of a run, from the genesis block. -/
def tipRun (ops : List TipOp) : PoolNode := ops.foldl (fun s op => (s.tipStep env op).2) (genesis env)

variable {env} {s : PoolNode}

theorem connectTipResult_true {checks : TipChecks} {block : CBlock} (h : (s.connectTipResult env checks block).1 = true) :
    ∃ c undos view', s.height + 1 < 2 ^ 31 ∧ block.startsWithCoinBase = true ∧ s.view.hashBlock = block.hashPrevBlock ∧
      countTxs (Int32.ofNat (s.height + 1)) block.vtx s.view ⟨0, 0⟩ = some (c, undos, view') ∧
      (s.connectTipResult env checks block).2 = ⟨{ view' with hashBlock := block.hash },
        ⟨block, Int32.ofNat (s.height + 1), s.view, undos.tail⟩ :: s.chain, (s.pool.removeForBlock block.vtx).2,
        s.adjustedTime⟩ := by
  unfold connectTipResult at h ⊢
  split at h
  · cases h
  · rename_i hguard
    rw [if_neg hguard]
    rw [not_or, not_le] at hguard
    split at h
    · cases h
    · rename_i hreads
      rw [if_neg hreads]
      dsimp only at h ⊢
      split at h
      · rename_i hon
        obtain ⟨c, undos, view', ⟨-, hcoinbase, -⟩, hprev, hcount, heq⟩ := connectBlockOn_true hguard.2 hon
        refine ⟨c, undos, view', hguard.1, hcoinbase, hprev, hcount, ?_⟩
        rw [heq]
        rfl
      · cases h

theorem connectTipResult_false {checks : TipChecks} {block : CBlock} (h : (s.connectTipResult env checks block).1 = false) :
    (s.connectTipResult env checks block).2 = s := by
  unfold connectTipResult at h ⊢
  split
  · rfl
  · rename_i hguard
    rw [if_neg hguard] at h
    split
    · rfl
    · rename_i hreads
      rw [if_neg hreads] at h
      dsimp only at h ⊢
      split at h
      · cases h
      · rename_i hon
        rw [if_neg hon]

theorem connectTipResult_snd (checks : TipChecks) (block : CBlock) :
    (s.connectTipResult env checks block).2 = s.connectTip env (checks.all block) block := by
  unfold connectTipResult connectTip
  split
  · rfl
  · rename_i hguard
    rw [not_or] at hguard
    cases hreads : checks.reads with
    | false =>
      have hnone : (connectBlock env.hashGenesisBlock false (checks.all block) block (Int32.ofNat (s.height + 1)) s.view 0).1 =
          none := by
        unfold connectBlock
        simp [TipChecks.all, hreads]
      rw [hnone]
      rfl
    | true =>
      rw [connectBlock_eq_connectBlockOn hguard.2 hreads]
      cases hon : (connectBlockOn env.hashGenesisBlock checks block (Int32.ofNat (s.height + 1)) s.view).1 with
      | false => simp only [Bool.not_true, Bool.false_eq_true, ↓reduceIte, hon]
      | true => simp only [Bool.not_true, Bool.false_eq_true, ↓reduceIte, hon]

theorem disconnectTipResult_true {relay : RelayEnv} {reads : Bool} (h : (s.disconnectTipResult env relay reads).1 = true) :
    ∃ l ls view, s.chain = l :: ls ∧ reads = true ∧ disconnectBlock l.block l.nHeight s.view l.undo = some (true, view) ∧
      (s.disconnectTipResult env relay reads).2.view = view ∧ (s.disconnectTipResult env relay reads).2.chain = ls := by
  unfold disconnectTipResult at h ⊢
  cases hchain : s.chain with
  | nil =>
    rw [hchain] at h
    cases h
  | cons l ls =>
    rw [hchain] at h
    dsimp only at h ⊢
    cases reads with
    | false => cases h
    | true =>
      cases hdis : disconnectBlock l.block l.nHeight s.view l.undo with
      | none =>
        rw [hdis] at h
        cases h
      | some r =>
        obtain ⟨fClean, view⟩ := r
        rw [hdis] at h
        cases fClean with
        | false => cases h
        | true => exact ⟨l, ls, view, rfl, rfl, hdis, rfl, rfl⟩

theorem disconnectTipResult_false {relay : RelayEnv} {reads : Bool} (h : (s.disconnectTipResult env relay reads).1 = false) :
    (s.disconnectTipResult env relay reads).2 = s := by
  unfold disconnectTipResult at h ⊢
  cases hchain : s.chain with
  | nil => rfl
  | cons l ls =>
    rw [hchain] at h
    dsimp only at h ⊢
    split
    · rfl
    · rename_i hreads
      rw [if_neg hreads] at h
      split
      · rename_i hdis
        rw [hdis] at h
        cases h
      · rfl

theorem disconnectTipResult_fst (relay : RelayEnv) {l : ChainLink} {ls : List ChainLink} (hchain : s.chain = l :: ls)
    {b : Bool} {view : CoinsView} (hd : disconnectBlock l.block l.nHeight s.view l.undo = some (b, view)) :
    (s.disconnectTipResult env relay true).1 = b := by
  unfold disconnectTipResult
  rw [hchain]
  dsimp only
  rw [hd]
  cases b with
  | false => rfl
  | true => rfl

theorem disconnectTipResult_snd (relay : RelayEnv) : (s.disconnectTipResult env relay true).2 = s.disconnectTip env relay := by
  unfold disconnectTipResult disconnectTip
  cases s.chain with
  | nil => rfl
  | cons l ls =>
    dsimp only
    simp only [Bool.not_true, Bool.false_eq_true, ↓reduceIte]
    cases disconnectBlock l.block l.nHeight s.view l.undo with
    | none => rfl
    | some r =>
      obtain ⟨fClean, view⟩ := r
      cases fClean with
      | false => rfl
      | true => rfl

/-! ## The coins of the tip -/

/-- The blocks above the genesis block, the tip first. -/
def blocks (s : PoolNode) : List CBlock := s.chain.map ChainLink.block

/-- The hash of the last block of a chain. -/
def tipHash (env : PoolEnv) : List ChainLink → Uint256
  | [] => env.hashGenesisBlock
  | l :: _ => l.block.hash

/-- `pcoinsTip` has the best block of the tip. -/
def BestIsTip (env : PoolEnv) (s : PoolNode) : Prop := s.view.hashBlock = tipHash env s.chain

/-- `pcoinsTip` has the best block and the coins of the tip. -/
def Holds (env : PoolEnv) (s : PoolNode) : Prop :=
  s.BestIsTip env ∧ SameCoins (chainCoins env.hashGenesisBlock s.blocks) s.view

/-- The blocks of a chain fit together: each is on the hash of the one below, at its height, and starts with a coinbase. -/
def Stacked (env : PoolEnv) : List ChainLink → Prop
  | [] => True
  | l :: ls => l.block.hashPrevBlock = tipHash env ls ∧ l.block.startsWithCoinBase = true ∧
      l.nHeight = Int32.ofNat (ls.length + 1) ∧ Stacked env ls

/-- Each block of a chain was connected to the coins of the chain below it. -/
def Grounded (env : PoolEnv) : List ChainLink → Prop
  | [] => True
  | l :: ls => SameCoins (chainCoins env.hashGenesisBlock (ls.map ChainLink.block)) l.view ∧ Grounded env ls

/-- What every call keeps, whatever becomes of `fCoinStake`: the best block is the tip, and the chain fits together. -/
structure Coherent (env : PoolEnv) (s : PoolNode) : Prop where
  best : s.BestIsTip env
  good : s.view.Good
  connected : Connected s.chain s.view
  stacked : Stacked env s.chain

/-- Besides, the coins are those of the tip, and were so when each block of the chain was connected. -/
structure ExactTip (env : PoolEnv) (s : PoolNode) : Prop extends Coherent env s where
  coins : SameCoins (chainCoins env.hashGenesisBlock s.blocks) s.view
  grounded : Grounded env s.chain

theorem exactTip_genesis (env : PoolEnv) : (genesis env).ExactTip env :=
  ⟨⟨rfl, fun _ => CCoins.good_empty, trivial, trivial⟩, .refl _, trivial⟩

section moves

variable {s' : PoolNode}

theorem Coherent.congr (h : s.Coherent env) (hview : s'.view = s.view) (hchain : s'.chain = s.chain) : s'.Coherent env := by
  obtain ⟨hbest, hgood, hconnected, hstacked⟩ := h
  unfold BestIsTip at hbest
  rw [← hview, ← hchain] at hbest hconnected
  rw [← hview] at hgood
  rw [← hchain] at hstacked
  exact ⟨hbest, hgood, hconnected, hstacked⟩

theorem ExactTip.congr (h : s.ExactTip env) (hview : s'.view = s.view) (hchain : s'.chain = s.chain) : s'.ExactTip env := by
  refine ⟨h.toCoherent.congr hview hchain, ?_, ?_⟩
  · rw [blocks, hview, hchain]
    exact h.coins
  · rw [hchain]
    exact h.grounded

theorem accept_view_chain (env : PoolEnv) (relay : RelayEnv) (tx : CTransaction) (s : PoolNode) :
    (s.accept env relay tx).view = s.view ∧ (s.accept env relay tx).chain = s.chain := by
  unfold accept
  split
  · exact ⟨rfl, rfl⟩
  · exact ⟨rfl, rfl⟩

/-- `ConnectTip` puts the block on the chain. -/
theorem Coherent.connectTip (h : s.Coherent env) {checks : TipChecks} {block : CBlock}
    (htrue : (s.connectTipResult env checks block).1 = true) : (s.connectTipResult env checks block).2.Coherent env := by
  obtain ⟨c, undos, view', hlt, hcoinbase, hprev, hcount, heq⟩ := connectTipResult_true htrue
  have hint := toInt_ofNat hlt
  have hne : Int32.ofNat (s.height + 1) ≠ 0 := by
    intro hzero
    rw [hzero] at hint
    exact absurd hint (by simp; omega)
  have hgood : view'.Good := countTxs_good hne h.good hcount
  rw [heq]
  exact ⟨rfl, hgood, ⟨h.good, hne, ⟨c, undos, view', hcount, rfl, .refl _⟩, h.connected⟩,
    hprev.symm.trans h.best, hcoinbase, rfl, h.stacked⟩

/-- The coins are those of the longer chain. -/
theorem ExactTip.connectTip (h : s.ExactTip env) {checks : TipChecks} {block : CBlock}
    (htrue : (s.connectTipResult env checks block).1 = true) :
    (s.connectTipResult env checks block).2.blocks = block :: s.blocks ∧ (s.connectTipResult env checks block).2.ExactTip env := by
  have hcoherent := h.toCoherent.connectTip htrue
  obtain ⟨c, undos, view', hlt, -, -, hcount, heq⟩ := connectTipResult_true htrue
  have hlen : s.height = s.blocks.length := (List.length_map _).symm
  rw [hlen] at hcount
  rw [heq] at hcoherent ⊢
  exact ⟨rfl, hcoherent, sameCoins_connect h.coins hcount _, h.coins, h.grounded⟩

/-- `DisconnectTip` takes the tip off. -/
theorem Coherent.disconnectTip (h : s.Coherent env) {l : ChainLink} {ls : List ChainLink} (hchain : s.chain = l :: ls)
    {b : Bool} (hd : disconnectBlock l.block l.nHeight s.view l.undo = some (b, s'.view)) (hchain' : s'.chain = ls) :
    s'.Coherent env := by
  have hconnected := h.connected
  have hstacked := h.stacked
  rw [hchain] at hconnected hstacked
  obtain ⟨hsim, hls⟩ := hconnected.disconnect hd
  obtain ⟨_, _, _, -, -, -, hview⟩ := disconnectBlock_some hd
  refine ⟨?_, hsim.good hconnected.1 (disconnectBlock_tidy h.good.tidy hd), ?_, ?_⟩
  · unfold BestIsTip
    rw [hview, hchain']
    exact hstacked.1
  · rw [hchain']
    exact hls
  · rw [hchain']
    exact hstacked.2.2.2

/-- The block of a tip can be disconnected; this comes out clean iff no coinstake of its own is emptied in it, and the coins
are those of the parent iff it empties no coinstake entry of them. -/
theorem ExactTip.disconnectBlock (h : s.ExactTip env) {l : ChainLink} {ls : List ChainLink} (hchain : s.chain = l :: ls) :
    ∃ b view, disconnectBlock l.block l.nHeight s.view l.undo = some (b, view) ∧
      (b = true ↔ KeepsOwnStakes l.nHeight l.block.vtx) ∧
      (SameCoins (chainCoins env.hashGenesisBlock (ls.map ChainLink.block)) view ↔ ¬ EmptiesStake l.view l.block.vtx) := by
  have hbest := h.best
  have hconnected := h.connected
  have hstacked := h.stacked
  have hgrounded := h.grounded
  unfold BestIsTip at hbest
  rw [hchain] at hbest hconnected hstacked hgrounded
  obtain ⟨hgood, hH, ⟨c, undos, v', hcount, hundo, -⟩, -⟩ := hconnected
  obtain ⟨-, hcoinbase, hheight, -⟩ := hstacked
  -- the view is the one that the block left
  have hsame : SameCoins v' s.view := by
    have hcount' := hcount
    rw [hheight, ← @List.length_map _ _ ls ChainLink.block] at hcount'
    have hleft := sameCoins_connect hgrounded.1 hcount' v'.hashBlock
    have hcoins := h.coins
    rw [blocks, hchain, List.map_cons] at hcoins
    exact hleft.symm.trans hcoins
  obtain ⟨tx, txs, hvtx, hcb⟩ := CBlock.exists_cons_of_startsWithCoinBase hcoinbase
  obtain ⟨b, w, -, hdis, -⟩ :=
    disconnect_connect hH hgood (applied_of_countTxs hcount) fun x => restored_false_iff.mpr (hsame x)
  obtain ⟨txundo, rest, rfl⟩ : ∃ txundo rest, undos = txundo :: rest := by
    rw [hvtx] at hcount
    obtain ⟨_, txundo, rest, _, -, -, -, -, rfl, -⟩ := countTxs_cons hcount
    exact ⟨txundo, rest, rfl⟩
  have hd := disconnectBlock_eq hvtx hcb hbest hdis
  rw [hundo]
  obtain ⟨hclean, hcoins⟩ := sameCoins_disconnect_iff hH hgood hcount hsame hd
  refine ⟨b, _, hd, hclean, ?_⟩
  rw [← hcoins]
  exact ⟨fun hback => hgrounded.1.symm.trans hback, fun hback => hgrounded.1.trans hback⟩

end moves

/-! ## All or nothing -/

/-- What is said of a call that moves the tip: it returned true, the tip is the new block or the parent, and `pcoinsTip` has the
best block and the coins of it; or it returned false and the node is as before. -/
def AllOrNothing (env : PoolEnv) (s : PoolNode) (op : TipOp) : Prop :=
  match op with
  | .connectTip checks block =>
    let r := s.connectTipResult env checks block
    (r.1 = true ∧ r.2.blocks = block :: s.blocks ∧ r.2.Holds env) ∨ (r.1 = false ∧ r.2 = s)
  | .disconnectTip relay reads =>
    let r := s.disconnectTipResult env relay reads
    (r.1 = true ∧ r.2.blocks = s.blocks.tail ∧ r.2.Holds env) ∨ (r.1 = false ∧ r.2 = s)
  | _ => True

/-- A block that is disconnected, and empties no coinstake of its own, empties no coinstake entry of the coins below it. -/
def KeepsTipStakes (s : PoolNode) (op : TipOp) : Prop :=
  match op with
  | .disconnectTip _ reads => reads = true → ∀ l ∈ s.chain.head?, KeepsOwnStakes l.nHeight l.block.vtx →
      ¬ EmptiesStake l.view l.block.vtx
  | _ => True

theorem ExactTip.allOrNothing_iff (h : s.ExactTip env) (op : TipOp) : s.AllOrNothing env op ↔ s.KeepsTipStakes op := by
  cases op with
  | accept => exact Iff.rfl
  | tick => exact Iff.rfl
  | connectTip checks block =>
    refine iff_of_true ?_ trivial
    cases hb : (s.connectTipResult env checks block).1 with
    | true =>
      obtain ⟨hblocks, hexact⟩ := h.connectTip hb
      exact Or.inl ⟨hb, hblocks, hexact.best, hexact.coins⟩
    | false => exact Or.inr ⟨hb, connectTipResult_false hb⟩
  | disconnectTip relay reads =>
    cases hb : (s.disconnectTipResult env relay reads).1 with
    | false =>
      refine iff_of_true (Or.inr ⟨hb, disconnectTipResult_false hb⟩) ?_
      rintro rfl l hl hown
      obtain ⟨ls, hchain⟩ : ∃ ls, s.chain = l :: ls := List.head?_eq_some_iff.mp hl
      obtain ⟨b, view, hd, hclean, -⟩ := h.disconnectBlock hchain
      rw [disconnectTipResult_fst relay hchain hd, ← Bool.not_eq_true] at hb
      exact absurd (hclean.mpr hown) hb
    | true =>
      obtain ⟨l, ls, view, hchain, rfl, hd, hview, hchain'⟩ := disconnectTipResult_true hb
      obtain ⟨b, view', hd', hclean, hcoins⟩ := h.disconnectBlock hchain
      rw [hd] at hd'
      cases hd'
      have hblocks : (s.disconnectTipResult env relay true).2.blocks = ls.map ChainLink.block := by rw [blocks, hchain']
      constructor
      · rintro (⟨-, -, hholds⟩ | ⟨hfalse, -⟩) - l' hl' -
        · rw [hchain] at hl'
          cases hl'
          have hback := hholds.2
          rw [hblocks, hview] at hback
          exact hcoins.mp hback
        · rw [hb] at hfalse
          cases hfalse
      · intro hkeeps
        have hnot := hkeeps rfl l (by rw [hchain]; rfl) (hclean.mp rfl)
        rw [← hview] at hd
        refine Or.inl ⟨hb, ?_, (h.toCoherent.disconnectTip hchain hd hchain').best, ?_⟩
        · rw [hblocks, blocks, hchain]
          rfl
        · rw [hblocks, hview]
          exact hcoins.mpr hnot

theorem Coherent.step (h : s.Coherent env) (op : TipOp) : (s.tipStep env op).2.Coherent env := by
  cases op with
  | accept relay tx =>
    have hsame := accept_view_chain env relay tx s
    exact h.congr hsame.1 hsame.2
  | tick adjustedTime => exact h.congr rfl rfl
  | connectTip checks block =>
    show (s.connectTipResult env checks block).2.Coherent env
    cases hb : (s.connectTipResult env checks block).1 with
    | true => exact h.connectTip hb
    | false =>
      rw [connectTipResult_false hb]
      exact h
  | disconnectTip relay reads =>
    show (s.disconnectTipResult env relay reads).2.Coherent env
    cases hb : (s.disconnectTipResult env relay reads).1 with
    | true =>
      obtain ⟨l, ls, view, hchain, rfl, hd, hview, hchain'⟩ := disconnectTipResult_true hb
      rw [← hview] at hd
      exact h.disconnectTip hchain hd hchain'
    | false =>
      rw [disconnectTipResult_false hb]
      exact h

theorem ExactTip.step (h : s.ExactTip env) {op : TipOp} (hall : s.AllOrNothing env op) : (s.tipStep env op).2.ExactTip env := by
  cases op with
  | accept relay tx =>
    have hsame := accept_view_chain env relay tx s
    exact h.congr hsame.1 hsame.2
  | tick adjustedTime => exact h.congr rfl rfl
  | connectTip checks block =>
    rcases hall with ⟨hb, -, -⟩ | ⟨-, hsame⟩
    · exact (h.connectTip hb).2
    · show (s.connectTipResult env checks block).2.ExactTip env
      rw [hsame]
      exact h
  | disconnectTip relay reads =>
    rcases hall with ⟨hb, -, hholds⟩ | ⟨-, hsame⟩
    · refine ⟨h.toCoherent.step (.disconnectTip relay reads), hholds.2, ?_⟩
      obtain ⟨l, ls, view, hchain, -, -, -, hchain'⟩ := disconnectTipResult_true hb
      have hgrounded := h.grounded
      rw [hchain] at hgrounded
      show Grounded env (s.disconnectTipResult env relay reads).2.chain
      rw [hchain']
      exact hgrounded.2
    · show (s.disconnectTipResult env relay reads).2.ExactTip env
      rw [hsame]
      exact h

theorem ExactTip.meets_iff : ∀ (ops : List TipOp) {s : PoolNode}, s.ExactTip env →
    (Meets (fun s op => some (s.tipStep env op).2) (AllOrNothing env) s ops ↔
      Meets (fun s op => some (s.tipStep env op).2) KeepsTipStakes s ops)
  | [], _, _ => Iff.rfl
  | op :: ops, s, h => by
    constructor
    · rintro ⟨hall, hrest⟩
      refine ⟨(h.allOrNothing_iff op).mp hall, fun s' hs' => ?_⟩
      cases hs'
      exact ((h.step hall).meets_iff ops).mp (hrest _ rfl)
    · rintro ⟨hkeeps, hrest⟩
      have hall := (h.allOrNothing_iff op).mpr hkeeps
      refine ⟨hall, fun s' hs' => ?_⟩
      cases hs'
      exact ((h.step hall).meets_iff ops).mpr (hrest _ rfl)

theorem coherent_tipRun (ops : List TipOp) : (tipRun env ops).Coherent env := by
  unfold tipRun
  induction ops using List.reverseRecOn with
  | nil => exact (exactTip_genesis env).toCoherent
  | append_singleton ops op ih =>
    rw [List.foldl_append]
    exact ih.step op

/-- Whatever the calls, `pcoinsTip` has the best block of the tip; and each call of a run is all or nothing iff none
disconnects a block that empties a coinstake entry of the coins below it. -/
theorem tip_allOrNothing_iff (env : PoolEnv) (ops : List TipOp) :
    (tipRun env ops).BestIsTip env ∧
    (Meets (fun s op => some (s.tipStep env op).2) (AllOrNothing env) (genesis env) ops ↔
      Meets (fun s op => some (s.tipStep env op).2) KeepsTipStakes (genesis env) ops) :=
  ⟨(coherent_tipRun ops).best, (exactTip_genesis env).meets_iff ops⟩

/-- Every check passes. -/
def checksPass : TipChecks := ⟨true, true, fun _ => true, true, true⟩

/-- A block with a coinbase, a block with a coinstake that spends it, and a block that spends both outputs of the coinstake. -/
def stakeOps : List TipOp :=
  [.connectTip checksPass ⟨⟨101, 7, 0, 0, 0, 0, 0⟩, [poolCoinBase]⟩,
    .connectTip checksPass ⟨⟨102, 7, 101, 0, 0, 0, 0⟩, [{ poolCoinBase with hash := 11 },
      ⟨7, 1, [⟨⟨8, 0⟩, ([] : List UInt8), 0⟩],
        [⟨0, ([] : List UInt8), -10⟩, ⟨10 * COIN, ([0x51] : List UInt8), -10⟩], 0⟩]⟩,
    .connectTip checksPass ⟨⟨103, 7, 102, 0, 0, 0, 0⟩, [{ poolCoinBase with hash := 13 },
      ⟨14, 1, [⟨⟨7, 0⟩, ([0x51] : List UInt8), 0⟩, ⟨⟨7, 1⟩, ([] : List UInt8), 0⟩],
        [⟨10 * COIN, ([0x51] : List UInt8), -10⟩], 0⟩]⟩]

/-- The last block is disconnected: the coinstake comes back without its flag. -/
theorem not_tip_allOrNothing : ¬ ∀ (env : PoolEnv) (ops : List TipOp),
    Meets (fun s op => some (s.tipStep env op).2) (AllOrNothing env) (genesis env) ops := by
  intro h
  have hall := (((h shortMaturity (stakeOps ++ [TipOp.disconnectTip relayAll true])).2 _ rfl).2 _ rfl).2 _ rfl
  have hrun : (((tipRun shortMaturity stakeOps).disconnectTipResult shortMaturity relayAll true).1 = true ∧
      CCoins.beq (((tipRun shortMaturity stakeOps).disconnectTipResult shortMaturity relayAll true).2.view.coins 7)
        ((chainCoins shortMaturity.hashGenesisBlock
          ((tipRun shortMaturity stakeOps).disconnectTipResult shortMaturity relayAll true).2.blocks).coins 7) = false) := by
    decide
  rcases hall.1 with ⟨-, -, -, hcoins⟩ | ⟨hfalse, -⟩
  · exact absurd (hcoins 7) (by rw [Bool.not_eq_true]; exact hrun.2)
  · exact absurd hrun.1 (by rw [Bool.not_eq_true]; exact hfalse)

/-! ## `DisconnectBlocks` -/

/-- The loop of `DisconnectBlocks` for so many rounds: what `DisconnectTip` returned in each, which the loop does not look
at, and the node afterwards. -/
def disconnectBlocksLoop (env : PoolEnv) (relay : Nat → RelayEnv) (reads : Nat → Bool) : Nat → Nat → PoolNode →
    List Bool × PoolNode
  | 0, _, s => ([], s)
  | rounds + 1, i, s =>
    let r := s.disconnectTipResult env (relay i) (reads i)
    let rest := disconnectBlocksLoop env relay reads rounds (i + 1) r.2
    (r.1 :: rest.1, rest.2)

/-- `DisconnectBlocks`, with its rounds `for (int i = 0; i <= nBlocks; i++)`. -/
def disconnectBlocks (env : PoolEnv) (relay : Nat → RelayEnv) (reads : Nat → Bool) (nBlocks : Int) (s : PoolNode) :
    List Bool × PoolNode :=
  disconnectBlocksLoop env relay reads (nBlocks + 1).toNat 0 s

theorem disconnectBlocksLoop_spec (relay : Nat → RelayEnv) (reads : Nat → Bool) : ∀ (rounds i : Nat) (s : PoolNode),
    (∀ b ∈ (disconnectBlocksLoop env relay reads rounds i s).1, b = true) →
    rounds ≤ s.height ∧ (disconnectBlocksLoop env relay reads rounds i s).2.chain = s.chain.drop rounds
  | 0, _, s, _ => ⟨Nat.zero_le _, rfl⟩
  | rounds + 1, i, s, hall => by
    unfold disconnectBlocksLoop at hall ⊢
    dsimp only at hall ⊢
    obtain ⟨l, ls, -, hchain, -, -, -, hchain'⟩ := disconnectTipResult_true (hall _ List.mem_cons_self)
    obtain ⟨hle, hdrop⟩ := disconnectBlocksLoop_spec relay reads rounds (i + 1) _ fun b hb =>
      hall b (List.mem_cons_of_mem _ hb)
    unfold height at hle ⊢
    rw [hchain'] at hle hdrop
    rw [hchain, hdrop]
    exact ⟨Nat.succ_le_succ hle, rfl⟩

/-- `DisconnectBlocks(n)` leaves the tip one block below the one that it is to leave, whenever each `DisconnectTip`
succeeds. -/
theorem disconnectBlocks_never (env : PoolEnv) (relay : Nat → RelayEnv) (reads : Nat → Bool) (s : PoolNode) (n : Nat)
    (hn : n < s.height) (hall : ∀ b ∈ (s.disconnectBlocks env relay reads n).1, b = true) :
    (s.disconnectBlocks env relay reads n).2.height = s.height - (n + 1) ∧
      ¬ ((s.disconnectBlocks env relay reads n).2.height = s.height - n ∧
        SameCoins (chainCoins env.hashGenesisBlock (s.blocks.drop n)) (s.disconnectBlocks env relay reads n).2.view) := by
  have hspec := (disconnectBlocksLoop_spec relay reads (n + 1) 0 s hall).2
  have hheight : (s.disconnectBlocks env relay reads n).2.height = s.height - (n + 1) := by
    unfold height disconnectBlocks
    rw [show ((n : Int) + 1).toNat = n + 1 by omega, hspec, List.length_drop]
  refine ⟨hheight, fun hclaim => ?_⟩
  rw [hheight] at hclaim
  omega

/-- From height 2, `DisconnectBlocks(0)` goes to height 1. -/
theorem disconnectBlocks_never_zero :
    ((tipRun shortMaturity (stakeOps.take 2)).disconnectBlocks shortMaturity (fun _ => relayAll) (fun _ => true)
      (0 : Nat)).2.height = (tipRun shortMaturity (stakeOps.take 2)).height - (0 + 1) ∧
      ¬ (((tipRun shortMaturity (stakeOps.take 2)).disconnectBlocks shortMaturity (fun _ => relayAll) (fun _ => true)
        (0 : Nat)).2.height = (tipRun shortMaturity (stakeOps.take 2)).height - 0 ∧
        SameCoins (chainCoins shortMaturity.hashGenesisBlock ((tipRun shortMaturity (stakeOps.take 2)).blocks.drop 0))
          ((tipRun shortMaturity (stakeOps.take 2)).disconnectBlocks shortMaturity (fun _ => relayAll) (fun _ => true)
            (0 : Nat)).2.view) :=
  disconnectBlocks_never shortMaturity (fun _ => relayAll) (fun _ => true) _ 0 (by decide) (by decide)

/-- A chain of two blocks, and none to be replayed. -/
theorem not_disconnectBlocks : ¬ ∀ (env : PoolEnv) (relay : Nat → RelayEnv) (reads : Nat → Bool) (s : PoolNode) (n : Nat),
    s.Holds env → n < s.height → (∀ b ∈ (s.disconnectBlocks env relay reads n).1, b = true) →
    (s.disconnectBlocks env relay reads n).2.height = s.height - n ∧
      SameCoins (chainCoins env.hashGenesisBlock (s.blocks.drop n)) (s.disconnectBlocks env relay reads n).2.view := by
  intro h
  have hexact : (tipRun shortMaturity (stakeOps.take 2)).ExactTip shortMaturity :=
    (((exactTip_genesis shortMaturity).connectTip (by decide)).2.connectTip (by decide)).2
  have hclaim := h shortMaturity (fun _ => relayAll) (fun _ => true) (tipRun shortMaturity (stakeOps.take 2)) 0
    ⟨hexact.best, hexact.coins⟩ (by decide) (by decide)
  exact absurd hclaim.1 (by decide)

end PoolNode

end DigiWage
