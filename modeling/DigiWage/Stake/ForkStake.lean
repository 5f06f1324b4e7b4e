import DigiWage.Lib.Ledger
import DigiWage.Chain.ReorgDepth
import DigiWage.Supply.Recalculate

/-!
# Stakes on a fork

A proof-of-stake block is stored before it is connected, so that `AcceptBlock` has to find out itself whether the inputs of
its coinstake are there to be spent. The coins of the node are those of the active chain.

* `unspentAt`: the outputs that are unspent after the blocks up to an entry. On the active chain these are the coins that
  `ConnectBlock` leaves (`ConnectedChain.unspent`).
* On the tip `AcceptBlock` looks at the coins. On a fork it looks at the blocks of the fork (`checkStakeInputs_of_stored`), but
  not at the coins: `splitHeight` is computed and not used.
-/

namespace DigiWage

open Lib ChainState

/-! ## Unspent outputs -/

/-- The view has the output. -/
def CoinsView.unspent (view : CoinsView) (o : COutPoint) : Bool := !((view.coins o.hash).out o.n).isNull

namespace CTransaction

/-- `UpdateCoins` spends the output. -/
def isSpent (tx : CTransaction) (o : COutPoint) : Bool := tx.spends.contains o

/-- `UpdateCoins` adds the output. -/
def creates (tx : CTransaction) (o : COutPoint) : Bool := tx.hash == o.hash && !((CCoins.fromTx tx 1).out o.n).isNull

end CTransaction

theorem unspent_updateCoins {tx : CTransaction} {view view' : CoinsView} {nHeight : Int32} {undo : CTxUndo}
    (hview : view.Good) (hheight : nHeight ≠ 0) (hpruned : (view.coins tx.hash).isPruned = true)
    (hout : ∀ o ∈ tx.vout, 0 ≤ o.nValue) (h : updateCoins tx view nHeight = some (undo, view')) :
    view'.Good ∧ ∀ o, view'.unspent o = (view.unspent o && !tx.isSpent o || tx.creates o) := by
  obtain ⟨view₁, hspend, rfl⟩ := updateCoins_some h
  have hfrom := CCoins.clean_fromTx hout nHeight
  refine ⟨(CoinsView.spendInputs_good hview hspend).modifyCoins _ ⟨hfrom, fun _ => hheight⟩, fun o => ?_⟩
  unfold CoinsView.unspent CTransaction.isSpent CTransaction.creates
  by_cases hhash : o.hash = tx.hash
  · -- there was nothing under this hash
    have hnone : ((view.coins o.hash).out o.n).isNull = true := by
      rw [hhash]
      exact (CCoins.isPruned_iff _).mp hpruned o.n
    rw [hnone, hhash, CoinsView.modifyCoins_self, hfrom.cleanup_eq, beq_self_eq_true, Bool.not_true, Bool.false_and,
      Bool.false_or, Bool.true_and]
    rfl
  · rw [CoinsView.modifyCoins_of_ne _ _ hhash, CoinsView.spendInputs_out hview hspend,
      beq_false_of_ne (Ne.symm hhash), Bool.false_and, Bool.or_false]
    by_cases hmem : o ∈ tx.spends
    · rw [if_pos hmem, List.contains_iff_mem.mpr hmem]
      simp
    · rw [if_neg hmem, Bool.eq_false_iff.mpr fun hc => hmem (List.contains_iff_mem.mp hc)]
      simp

/-- The loop of `ConnectBlock`. -/
theorem ConnectEnv.TxRun.unspent {env : ConnectEnv} {nHeight : Nat} {view view' : CoinsView} {txs : List CTransaction}
    (h : TxRun env nHeight view txs view') (hheight : Int32.ofNat nHeight ≠ 0) (hview : view.Good) :
    view'.Good ∧
      view'.unspent = unspentAfter CTransaction.isSpent CTransaction.creates txs view.unspent := by
  induction h with
  | nil view => exact ⟨hview, rfl⟩
  | cons step run ih =>
    obtain ⟨undo, hupdate⟩ := step.updated
    obtain ⟨hgood, hunspent⟩ := unspent_updateCoins hview hheight step.pruned
      (CTransaction.nonneg_of_getValueOut step.valueOut) hupdate
    obtain ⟨hgood', hrun⟩ := ih hgood
    refine ⟨hgood', ?_⟩
    rw [hrun, unspentAfter]
    congr 1
    funext o
    exact hunspent o

theorem int32_ofNat_ne_zero {n : Nat} (hpos : 0 < n) (hlt : n < 2 ^ 31) : Int32.ofNat n ≠ 0 := by
  intro h
  have h' := congrArg Int32.toInt h
  rw [Int32.toInt_ofNat_of_lt hlt] at h'
  simp at h'
  omega

theorem ConnectedChain.unspent {denomination : CTxIn → Int} {chain : List (CBlock × Int)} {view : CoinsView}
    (h : ConnectedChain denomination chain view) (hlen : chain.length < 2 ^ 31) : view.Good ∧
      view.unspent = unspentAfter CTransaction.isSpent CTransaction.creates (chainTxs chain) fun _ => false := by
  induction h with
  | genesis hash => exact ⟨fun _ => CCoins.good_empty, rfl⟩
  | @connect chain view env s block r before same accepted ih =>
    rw [List.length_append, List.length_singleton] at hlen
    obtain ⟨hgood, hbefore⟩ := ih (by omega)
    obtain ⟨⟨view', hrun, hview⟩, -⟩ := ConnectEnv.connectBlock_spec accepted
    obtain ⟨hgood', hafter⟩ := hrun.unspent (int32_ofNat_ne_zero (by omega) hlen) hgood
    rw [hview, chainTxs, List.flatMap_append, List.flatMap_singleton, unspentAfter_append]
    refine ⟨hgood', ?_⟩
    rw [← chainTxs, ← hbefore, ← hafter]
    rfl

/-! ## The chain of a block -/

section

variable (src : BlockSource) (t : BlockIndex)

/-- The transactions that connecting the block of an entry adds; `ConnectBlock` skips those of the genesis block. -/
def BlockSource.connectedTxs (q : Ptr) : List CTransaction :=
  if (t.entry q).hash = src.hashGenesisBlock then [] else (src.block (t.entry q).hash).vtx

/-- The transactions of the chain that ends at an entry. -/
def BlockSource.txsTo (p : Ptr) : List CTransaction := (t.path p).reverse.flatMap (src.connectedTxs t)

/-- The output exists and is unspent in the state of the chain that ends at an entry. -/
def unspentAt (p : Ptr) (o : COutPoint) : Bool :=
  unspentAfter CTransaction.isSpent CTransaction.creates (src.txsTo t p) (fun _ => false) o

/-- The coins are those of the active chain. -/
def ChainState.CoinsAgree (s : ChainState) (pcoinsTip : CoinsView) : Prop :=
  ∀ tip, s.tip = some tip → ∀ o, pcoinsTip.unspent o = unspentAt src s.index tip o

end

variable {src : BlockSource} {params : ConsensusParams} {env : AcceptEnv} {s s' s₁ : ChainState} {pcoinsTip : CoinsView}
variable {p q f new : Ptr} {block : CBlock} {stakeTxIn : CTransaction} {pivInputs : List CTxIn}

theorem ChainState.CoinsAgree.of_connectedChain {denomination : CTxIn → Int} {chain : List (CBlock × Int)}
    (h : ConnectedChain denomination chain pcoinsTip) (hlen : chain.length < 2 ^ 31)
    (htxs : ∀ tip, s.tip = some tip → src.txsTo s.index tip = chainTxs chain) : s.CoinsAgree src pcoinsTip := by
  intro tip htip o
  rw [(h.unspent hlen).2, unspentAt, htxs tip htip]

section

variable {t : BlockIndex} {branch : List Ptr} {o : COutPoint}

/-- A block of the branch creates the output. -/
def CreatedOn (src : BlockSource) (t : BlockIndex) (branch : List Ptr) (o : COutPoint) : Prop :=
  ∃ q ∈ branch, ∃ tx ∈ src.connectedTxs t q, tx.creates o = true

theorem mem_branchTxs {tx : CTransaction} : tx ∈ branch.reverse.flatMap (src.connectedTxs t) ↔
    ∃ q ∈ branch, tx ∈ src.connectedTxs t q := by
  simp only [List.mem_flatMap, List.mem_reverse]

theorem unspentAt_of_path (h : t.path p = branch ++ t.path f) (o : COutPoint) :
    unspentAt src t p o = unspentAfter CTransaction.isSpent CTransaction.creates
      (branch.reverse.flatMap (src.connectedTxs t)) (unspentAt src t f) o := by
  unfold unspentAt BlockSource.txsTo
  rw [h, List.reverse_append, List.flatMap_append, unspentAfter_append]

theorem unspentAt_elim (h : t.path p = branch ++ t.path f) (hunspent : unspentAt src t p o = true) :
    unspentAt src t f o = true ∨ CreatedOn src t branch o := by
  rw [unspentAt_of_path h] at hunspent
  refine (unspentAfter_elim _ hunspent).imp_right fun ⟨tx, htx, hcreates⟩ => ?_
  obtain ⟨q, hq, htx⟩ := mem_branchTxs.mp htx
  exact ⟨q, hq, tx, htx, hcreates⟩

theorem unspentAt_of_not_spent (h : t.path p = branch ++ t.path f)
    (hnot : ∀ q ∈ branch, ∀ tx ∈ src.connectedTxs t q, tx.isSpent o = false)
    (hor : unspentAt src t f o = true ∨ CreatedOn src t branch o) : unspentAt src t p o = true := by
  rw [unspentAt_of_path h]
  refine unspentAfter_of_not_spends _ (fun tx htx => ?_) ?_
  · obtain ⟨q, hq, htx⟩ := mem_branchTxs.mp htx
    exact hnot q hq tx htx
  · exact hor.imp_right fun ⟨q, hq, tx, htx, hcreates⟩ => ⟨tx, mem_branchTxs.mpr ⟨q, hq, htx⟩, hcreates⟩

theorem mem_connectedTxs {tx : CTransaction} (h : tx ∈ src.connectedTxs t q) : tx ∈ (src.block (t.entry q).hash).vtx := by
  unfold BlockSource.connectedTxs at h
  split at h
  · exact absurd h List.not_mem_nil
  · exact h

theorem hash_ne_zero (hnull : ∀ q ∈ t.path p, ∀ tx ∈ (src.block (t.entry q).hash).vtx, tx.hash ≠ 0)
    (hpath : t.path p = branch ++ t.path f) (h : unspentAt src t f o = true ∨ CreatedOn src t branch o) : o.hash ≠ 0 := by
  have hcreated : ∃ q ∈ branch ++ t.path f, ∃ tx ∈ src.connectedTxs t q, tx.creates o = true := by
    rcases h with h | ⟨q, hq, h⟩
    · rcases unspentAfter_elim _ h with h | ⟨tx, htx, h⟩
      · cases h
      · obtain ⟨q, hq, htx⟩ := List.mem_flatMap.mp htx
        exact ⟨q, List.mem_append_right _ (List.mem_reverse.mp hq), tx, htx, h⟩
    · exact ⟨q, List.mem_append_left _ hq, h⟩
  obtain ⟨q, hq, tx, htx, h⟩ := hcreated
  unfold CTransaction.creates at h
  rw [Bool.and_eq_true, beq_iff_eq] at h
  rw [← h.1]
  exact hnull q (hpath ▸ hq) tx (mem_connectedTxs htx)

end

/-! ## The walk along the fork -/

theorem findFork_of_path (hact : s.Active) (hp : p ∈ s.index.mapBlockIndex) (hf : s.index.IsAnc f p)
    (hfc : s.chainActive.contains s.index f = true) (hpath : s.index.path p = s.branch p ++ s.index.path f) :
    s.chainActive.findFork s.index p = some f := by
  have hfm := s.index.rooted.anc_mem hp hf
  rcases hact with hnil | ⟨tip, htip, hchain⟩
  · rw [hnil] at hfc
    cases hfc
  · rw [hchain] at hfc ⊢
    rw [CChain.contains_iff htip] at hfc
    rcases CChain.findFork_ofTip htip hp with ⟨g, hg, hgt, hgp, hmax⟩ | ⟨-, hapart⟩
    · -- what is not on the branch is an ancestor of `f`
      have hgf : s.index.IsAnc g f := by
        have hmem : g ∈ s.branch p ++ s.index.path f := hpath ▸ (BlockIndex.mem_path hp).mpr hgp
        rcases List.mem_append.mp hmem with hmem | hmem
        · have hgc := ((mem_branch (Or.inr ⟨tip, htip, hchain⟩) hp).mp hmem).2
          rw [hchain, (CChain.contains_iff htip).mpr hgt] at hgc
          cases hgc
        · exact (BlockIndex.mem_path hfm).mp hmem
      rw [hg, s.index.rooted.anc_antisymm hfm hgf (hmax f hfc hf)]
    · exact absurd hfc (hapart f hf)

theorem isSpent_of_spendsAny {vtx : List CTransaction} {tx : CTransaction} {txin : CTxIn}
    (h : spendsAny pivInputs vtx = false) (htx : tx ∈ vtx) (htxin : txin ∈ pivInputs) : tx.isSpent txin.prevout = false := by
  rw [Bool.eq_false_iff]
  intro hspent
  have hmem : txin.prevout ∈ tx.vin.map CTxIn.prevout := by
    have hmem := List.contains_iff_mem.mp hspent
    unfold CTransaction.spends at hmem
    split at hmem
    · exact absurd hmem List.not_mem_nil
    · exact hmem
  obtain ⟨txin', htxin', heq⟩ := List.mem_map.mp hmem
  unfold spendsAny at h
  rw [List.any_eq_false] at h
  refine h tx htx (List.any_eq_true.mpr ⟨txin', htxin', List.any_eq_true.mpr ⟨txin, htxin, ?_⟩⟩)
  rw [heq, beq_self_eq_true]

/-! ## The checks of `AcceptBlock` -/

section Added

variable {header : CBlockHeader}

theorem contains_added (ha : Added s new header s') (hq : q ∈ s.index.mapBlockIndex) :
    s'.chainActive.contains s'.index q = s.chainActive.contains s.index q := by
  unfold CChain.contains
  rw [ha.chainActive, ha.index, BlockIndex.nHeight_add hq]

theorem readBlockFromDisk_added (ha : Added s new header s') (hq : q ∈ s.index.mapBlockIndex) :
    s'.readBlockFromDisk src q = s.readBlockFromDisk src q := by
  unfold readBlockFromDisk
  rw [ha.status_old q hq, ha.index, BlockIndex.add_entry hq]

theorem walkFork_added (ha : Added s new header s') : ∀ (l : List Ptr) (n : Nat) (bl : CBlock),
    (∀ q ∈ l, q ∈ s.index.mapBlockIndex) → walkFork src env s' pivInputs n l bl = walkFork src env s pivInputs n l bl
  | [], _, _, _ => rfl
  | prev :: rest, n, bl, hl => by
    unfold walkFork
    rw [contains_added ha (hl prev List.mem_cons_self)]
    cases rest with
    | nil => rfl
    | cons pprev rest =>
      have hrest : ∀ q ∈ pprev :: rest, q ∈ s.index.mapBlockIndex := fun q hq => hl q (List.mem_cons_of_mem prev hq)
      dsimp only
      rw [readBlockFromDisk_added ha (hrest pprev List.mem_cons_self)]
      simp only [walkFork_added ha (pprev :: rest) _ _ hrest]

theorem checkStakeInputs_added (ha : Added s new header s') (hp : p ∈ s.index.mapBlockIndex) :
    checkStakeInputs src env pcoinsTip s' block stakeTxIn p = checkStakeInputs src env pcoinsTip s block stakeTxIn p := by
  have hpath : s'.index.path p = s.index.path p := by rw [ha.index, BlockIndex.path_add hp]
  have hmem : ∀ q ∈ s.index.path p, q ∈ s.index.mapBlockIndex :=
    fun q hq => s.index.rooted.anc_mem hp ((BlockIndex.mem_path hp).mp hq)
  unfold checkStakeInputs tip
  rw [ha.chainActive, readBlockFromDisk_added ha hp, hpath]
  simp only [walkFork_added ha _ _ _ hmem]

end Added

theorem isAvailable_of_checkCoins {view : CoinsView} : ∀ {vin : List CTxIn}, checkCoins view false vin = .ok () →
    ∀ txin ∈ vin, (view.coins txin.prevout.hash).isAvailable txin.prevout.n = true
  | [], _, txin, htxin => absurd htxin List.not_mem_nil
  | txin :: vin, h, txin', htxin' => by
    unfold checkCoins CoinsView.accessCoins at h
    split at h
    · cases h
    · rename_i coin hcoin
      split at hcoin
      · cases hcoin
      · cases hcoin
        split at h
        · cases h
        · rename_i hav
          rcases List.mem_cons.mp htxin' with rfl | htxin'
          · simpa using hav
          · exact isAvailable_of_checkCoins h txin' htxin'

theorem checkStakeInputs_of_stored {pindex : Ptr} {fAlreadyCheckedBlock : Bool} (hnew : new ∉ s.index.mapBlockIndex)
    (hstake : block.isProofOfStake = true) (hvtx : block.vtx[1]? = some stakeTxIn)
    (hprev : s.index.find block.hashPrevBlock = some p)
    (h : acceptBlock src params env pcoinsTip s new block fAlreadyCheckedBlock = some (.ok (.stored pindex), s')) :
    checkStakeInputs src env pcoinsTip s block stakeTxIn p = some (.ok ()) := by
  unfold acceptBlock at h
  split at h
  · -- the genesis block has no parent to stake on
    unfold acceptOn at h
    simp only [hstake, Bool.not_true, Bool.false_or, Bool.not_false, if_true] at h
    cases h
  · rw [hprev] at h
    dsimp only at h
    split at h
    · split at h
      · split at h
        · cases h
        · split at h <;> cases h
      · cases h
    · unfold acceptOn at h
      dsimp only at h
      split at h
      · cases h
      · split at h
        · cases h
        · rename_i b s₁ hheader
          have hstored : checkStakeInputs src env pcoinsTip s₁ block stakeTxIn p = some (.ok ()) := by
            unfold acceptBlockData at h
            split at h
            · cases h
            · dsimp only at h
              split at h
              · cases h
              · split at h
                · cases h
                · cases h
                · rename_i hchecked
                  match hv : block.vtx with
                  | [] => rw [hv] at hvtx; cases hvtx
                  | [_] => rw [hv] at hvtx; cases hvtx
                  | _ :: tx :: _ =>
                    rw [hv] at hvtx
                    cases hvtx
                    rw [hstake, hv] at hchecked
                    exact hchecked
          rcases acceptBlockHeader_cases hnew hheader with ⟨rfl, -⟩ | ⟨-, ha, -⟩
          · exact hstored
          · rwa [checkStakeInputs_added ha (BlockIndex.find_some hprev).1] at hstored

/-- **No fake stake.** The inputs of the coinstake of a stored block are unspent in the state of the chain it extends
exactly when it extends the tip, or when each of them is unspent where the fork leaves the active chain or is created on the
fork. -/
theorem stakes_unspent_iff {pindex : Ptr} {fAlreadyCheckedBlock : Bool} (hact : s.Active)
    (hnew : new ∉ s.index.mapBlockIndex) (hcoins : s.CoinsAgree src pcoinsTip)
    (hnull : ∀ q ∈ s.index.mapBlockIndex, ∀ tx ∈ (src.block (s.index.entry q).hash).vtx, tx.hash ≠ 0)
    (hstake : block.isProofOfStake = true) (hvtx : block.vtx[1]? = some stakeTxIn)
    (hprev : s.index.find block.hashPrevBlock = some p)
    (hstored : acceptBlock src params env pcoinsTip s new block fAlreadyCheckedBlock = some (.ok (.stored pindex), s')) :
    (∀ txin ∈ stakeTxIn.vin, unspentAt src s.index p txin.prevout = true) ↔
      (s.tip = some p ∨ ∃ f, s.chainActive.findFork s.index p = some f ∧ ∀ txin ∈ stakeTxIn.vin,
        unspentAt src s.index f txin.prevout = true ∨ CreatedOn src s.index (s.branch p) txin.prevout) := by
  have hp := (BlockIndex.find_some hprev).1
  have hchecks := checkStakeInputs_of_stored hnew hstake hvtx hprev hstored
  unfold checkStakeInputs at hchecks
  dsimp only at hchecks
  split at hchecks
  · cases hchecks
  · by_cases htip : s.tip = some p
    · -- the coins are those of the chain that ends at `p`
      refine ⟨fun _ => .inl htip, fun _ txin htxin => ?_⟩
      rw [htip, bne_self_eq_false, if_neg Bool.false_ne_true] at hchecks
      have hav := isAvailable_of_checkCoins (Option.some.inj hchecks) txin htxin
      rw [← hcoins p htip]
      unfold CoinsView.unspent
      rw [(CCoins.isAvailable_iff.mp hav).1, Bool.not_false]
    · have hfork : (s.tip != some p) = true := by simpa using htip
      rw [if_pos hfork] at hchecks
      cases hread : s.readBlockFromDisk src p with
      | none =>
        rw [hread] at hchecks
        cases hchecks
      | some bl =>
        rw [hread] at hchecks
        dsimp only at hchecks
        split at hchecks
        · cases hchecks
        · cases hchecks
        · rename_i hwalk
          obtain ⟨f, hf, hfc, hpath, hnot, -⟩ := walkFork_ok p hp 0 bl hread hwalk
          have hfind := findFork_of_path hact hp hf hfc hpath
          constructor
          · exact fun hall => .inr ⟨f, hfind, fun txin htxin => unspentAt_elim hpath (hall txin htxin)⟩
          · rintro (htip' | ⟨f', hfind', hall⟩) txin htxin
            · exact absurd htip' htip
            · rw [hfind] at hfind'
              cases hfind'
              refine unspentAt_of_not_spent hpath (fun q hq tx htx => ?_) (hall txin htxin)
              -- the walk leaves out zerocoin spends, but these have the null hash
              have hpiv : txin.isZerocoinSpend = false := by
                rw [Bool.eq_false_iff]
                intro hzerocoin
                unfold CTxIn.isZerocoinSpend at hzerocoin
                rw [Bool.and_eq_true, beq_iff_eq] at hzerocoin
                exact hash_ne_zero (fun q hq => hnull q (s.index.rooted.anc_mem hp ((BlockIndex.mem_path hp).mp hq))) hpath
                  (hall txin htxin) hzerocoin.1
              refine isSpent_of_spendsAny (hnot q hq) (mem_connectedTxs htx) (List.mem_filter.mpr ⟨htxin, ?_⟩)
              rw [hpiv, Bool.not_false]

/-! ## A coin that is spent before the fork -/

/-- A node whose coinbases may be spent at once. -/
def forkEnv : ConnectEnv := { regTestEnv with nCoinbaseMaturity := 1 }

/-- The coins that the loop of `ConnectBlock` leaves after blocks 1 up to some height. -/
def forkCoins : Nat → CoinsView
  | 0 => ⟨fun _ => .empty, 0⟩
  | n + 1 =>
    match forkEnv.connectTxs (n + 1) (reorgSource.block (n + 1)).vtx (forkCoins n) ⟨0, 0, 0⟩ with
    | none => forkCoins n
    | some (_, view) => view

/-- The transactions of these blocks. -/
def forkTxs : Nat → List CTransaction
  | 0 => []
  | n + 1 => forkTxs n ++ (reorgSource.block (n + 1)).vtx

theorem forkCoins_succ {n : Nat}
    (hconnects : (forkEnv.connectTxs (n + 1) (reorgSource.block (n + 1)).vtx (forkCoins n) ⟨0, 0, 0⟩).isSome = true)
    (hheight : Int32.ofNat (n + 1) ≠ 0) (h : (forkCoins n).Good ∧
      (forkCoins n).unspent = unspentAfter CTransaction.isSpent CTransaction.creates (forkTxs n) fun _ => false) :
    (forkCoins (n + 1)).Good ∧ (forkCoins (n + 1)).unspent =
      unspentAfter CTransaction.isSpent CTransaction.creates (forkTxs (n + 1)) fun _ => false := by
  obtain ⟨⟨totals, view⟩, hview⟩ := Option.isSome_iff_exists.mp hconnects
  obtain ⟨hrun, -⟩ := ConnectEnv.connectTxs_spec (a := 0) (b := 0) (c := 0) hview
  obtain ⟨hgood, hunspent⟩ := hrun.unspent hheight h.1
  have hcoins : forkCoins (n + 1) = view := by
    rw [forkCoins, hview]
  rw [hcoins, forkTxs, unspentAfter_append, ← h.2]
  exact ⟨hgood, hunspent⟩

theorem forkCoins_unspent : (forkCoins 3).unspent =
    unspentAfter CTransaction.isSpent CTransaction.creates (forkTxs 3) fun _ => false :=
  (forkCoins_succ (n := 2) (by decide) (by decide) (forkCoins_succ (by decide) (by decide)
    (forkCoins_succ (n := 0) (by decide) (by decide) ⟨fun _ => CCoins.good_empty, rfl⟩))).2

/-- Blocks 1, 2 and 3 are on the active chain. Blocks 2 and 3 stake the first two outputs of the first transaction. -/
def forkState : ChainState := reorgState 3 2

theorem forkState_active : forkState.Active := .inr ⟨3, by decide, by decide⟩

theorem forkState_coinsAgree : forkState.CoinsAgree reorgSource (forkCoins 3) := by
  have htip : forkState.tip = some 3 := by decide
  have htxs : reorgSource.txsTo forkState.index 3 = forkTxs 3 := by decide
  intro tip h o
  rw [htip] at h
  cases h
  rw [unspentAt, htxs, forkCoins_unspent]

theorem forkState_hash_ne_zero : ∀ q ∈ forkState.index.mapBlockIndex,
    ∀ tx ∈ (reorgSource.block (forkState.index.entry q).hash).vtx, tx.hash ≠ 0 := by
  decide

/-- A block on block 2 that stakes an output of the first transaction. -/
def forkBlock (n : Nat) : CBlock :=
  ⟨⟨5, 7, 2, 0, 0, 0x207fffff, 0⟩, [⟨205, 1, [⟨⟨0, 2 ^ 32 - 1⟩, [], 0⟩], [⟨0, [], -10⟩], 0⟩, fundingStake 305 n]⟩

/-- `AcceptBlock` for this block. -/
def acceptForkBlock (n : Nat) : Option (Except (Option Rejection) Accepted × ChainState) :=
  acceptBlock reorgSource reorgParams (reorgDelivery 3 5 []).env (forkCoins 3) forkState 5 (forkBlock n) true

def isStored : Option (Except (Option Rejection) Accepted × ChainState) → Bool
  | some (.ok (.stored _), _) => true
  | _ => false

theorem exists_stored {r : Option (Except (Option Rejection) Accepted × ChainState)} (h : isStored r = true) :
    ∃ pindex s', r = some (.ok (.stored pindex), s') := by
  unfold isStored at h
  split at h
  · exact ⟨_, _, rfl⟩
  · cases h

/-- The third output is unspent. -/
theorem stakes_unspent_forkBlock : unspentAt reorgSource forkState.index 2 ⟨100, 2⟩ = true := by
  obtain ⟨pindex, s', hstored⟩ : ∃ pindex s', acceptForkBlock 2 = some (.ok (.stored pindex), s') :=
    exists_stored (by decide)
  refine (stakes_unspent_iff forkState_active (by decide) forkState_coinsAgree forkState_hash_ne_zero
    (by decide) rfl (by decide) hstored).mpr (.inr ⟨2, by decide, ?_⟩) ⟨⟨100, 2⟩, [], 0⟩
    (List.mem_singleton_self _)
  intro txin htxin
  rw [List.mem_singleton.mp htxin]
  exact .inl (by decide)

/-- The first output is spent by block 2, but the block is stored. -/
theorem stakes_not_unspent : ¬ ∀ src params env pcoinsTip s s' new block stakeTxIn p pindex fAlreadyCheckedBlock,
    s.Active → new ∉ s.index.mapBlockIndex → s.CoinsAgree src pcoinsTip →
    (∀ q ∈ s.index.mapBlockIndex, ∀ tx ∈ (src.block (s.index.entry q).hash).vtx, tx.hash ≠ 0) →
    block.isProofOfStake = true → block.vtx[1]? = some stakeTxIn → s.index.find block.hashPrevBlock = some p →
    acceptBlock src params env pcoinsTip s new block fAlreadyCheckedBlock = some (.ok (.stored pindex), s') →
    ∀ txin ∈ stakeTxIn.vin, unspentAt src s.index p txin.prevout = true := by
  intro hall
  obtain ⟨pindex, s', hstored⟩ : ∃ pindex s', acceptForkBlock 0 = some (.ok (.stored pindex), s') :=
    exists_stored (by decide)
  have hunspent := hall _ _ _ _ _ _ _ _ (fundingStake 305 0) 2 _ _ forkState_active (by decide)
    forkState_coinsAgree forkState_hash_ne_zero (by decide) rfl (by decide) hstored _
    (List.mem_singleton_self _)
  revert hunspent
  decide

end DigiWage
