import DigiWage.Supply.Conservation

/-!
# Recalculating the money supply

`RecalculateWAGESupply` of `zerocoin_verify.cpp` rewrites `nMoneySupply` of the blocks of the active chain from their
transactions. It leaves out unspendable outputs, values a zerocoin spend by its sequence number, and adds the other
inputs of a transaction with zerocoin spends. `ConnectBlock` does none of this.

* `discrepancy` is what the two computations differ by in a block.
-/

namespace DigiWage

open Lib ChainState

/-! ## `RecalculateWAGESupply` -/

/-- What `RecalculateWAGESupply` asks of the node. -/
structure RecalculateEnv where
  /-- `GetTransaction`, with the slow lookup. -/
  getTransaction : Uint256 → Option CTransaction
  /-- `ShutdownRequested` after the block at a height. -/
  shutdownRequested : Nat → Bool

/-- What is summed up over the transactions of a block. -/
structure Recount where
  nValueIn : Int
  nValueOut : Int
  nBurnedCoins : Int
  fBlockHasZerocoin : Bool
deriving DecidableEq, Repr

namespace RecalculateEnv

variable (env : RecalculateEnv)

/-- An input; `none` when the assertion on `GetTransaction` fails or the output is read past the end. -/
def recountIn (c : Recount) (txin : CTxIn) : Option Recount :=
  if txin.isZerocoinSpend then
    some { c with
      nValueIn := addInt64 c.nValueIn (txin.nSequence * COIN)
      nBurnedCoins := addInt64 c.nBurnedCoins (-(txin.nSequence * COIN))
      fBlockHasZerocoin := true }
  else
    match env.getTransaction txin.prevout.hash with
    | none => none
    | some txPrev =>
      match txPrev.vout[txin.prevout.n]? with
      | none => none
      | some o => some { c with nValueIn := addInt64 c.nValueIn o.nValue }

/-- An output. A zerocoin mint counts as burned. -/
def recountOut (c : Recount) (o : CTxOut) : Recount :=
  let c := if o.isZerocoinMint then
      { c with nBurnedCoins := addInt64 c.nBurnedCoins o.nValue, fBlockHasZerocoin := true }
    else c
  if o.scriptPubKey.isUnspendable then c else { c with nValueOut := addInt64 c.nValueOut o.nValue }

/-- A transaction: the inputs unless it is a coinbase, the outputs but for the marker of a coinstake. -/
def recountTx (c : Recount) (tx : CTransaction) : Option Recount :=
  match (if tx.isCoinBase then some c else tx.vin.foldlM env.recountIn c) with
  | none => none
  | some c' => some ((if tx.isCoinStake then tx.vout.drop 1 else tx.vout).foldl recountOut c')

/-- One round of `RecalculateWAGESupply`: the money supply of the block and `nBurnedCoins`. -/
def recalculateBlock (nHeight : Nat) (nSupplyPrev nBurnedCoins : Int) (block : CBlock) : Option (Int × Int) :=
  match block.vtx.foldlM env.recountTx ⟨0, 0, nBurnedCoins, false⟩ with
  | none => none
  | some c =>
    let nBlockValue := addInt64 c.nValueOut (-c.nValueIn)
    let nFees := addInt64 (getBlockValue nHeight) (-nBlockValue)
    some (addInt64 nSupplyPrev nBlockValue,
      if 0 < nFees ∧ c.fBlockHasZerocoin = false then addInt64 c.nBurnedCoins nFees else c.nBurnedCoins)

/-- The loop of `RecalculateWAGESupply` over the blocks from a height on, each with its money supply: whether it was not
stopped, the new supplies and `nBurnedCoins`. -/
def recalculateBlocks : Nat → Int → Int → List (CBlock × Int) → Option (Bool × List Int × Int)
  | _, _, nBurnedCoins, [] => some (true, [], nBurnedCoins)
  | nHeight, nSupplyPrev, nBurnedCoins, (block, _) :: rest =>
    match env.recalculateBlock nHeight nSupplyPrev nBurnedCoins block with
    | none => none
    | some (nMoneySupply, nBurnedCoins') =>
      if env.shutdownRequested nHeight then some (false, nMoneySupply :: rest.map Prod.snd, nBurnedCoins')
      else
        match recalculateBlocks (nHeight + 1) nMoneySupply nBurnedCoins' rest with
        | none => none
        | some (done, supplies, nBurnedCoins'') => some (done, nMoneySupply :: supplies, nBurnedCoins'')

end RecalculateEnv

/-- The money supply of the last block; that of the genesis block is 0. -/
def lastSupply (chain : List (CBlock × Int)) : Int := ((chain.getLast?).map Prod.snd).getD 0

/-- `RecalculateWAGESupply` on a chain of blocks from height 1 on: its result, the money supplies and `nBurnedCoins`;
`none` when it reads past a null pointer or an assertion fails. -/
def RecalculateEnv.recalculateWAGESupply (env : RecalculateEnv) (chain : List (CBlock × Int)) (nBurnedCoins : Int)
    (nHeightStart : Int) : Option (Bool × List Int × Int) :=
  if (chain.length : Int) < nHeightStart then some (false, chain.map Prod.snd, nBurnedCoins)
  -- the genesis block has no parent, and there is no block at a negative height
  else if nHeightStart < 1 then none
  else
    let before := chain.take (nHeightStart.toNat - 1)
    match env.recalculateBlocks nHeightStart.toNat (lastSupply before) 0 (chain.drop (nHeightStart.toNat - 1)) with
    | none => none
    | some (done, supplies, nBurnedCoins') => some (done, before.map Prod.snd ++ supplies, nBurnedCoins')

/-! ## What it computes -/

namespace RecalculateEnv

variable {env : RecalculateEnv}

/-- The value of an input. -/
def inValue (env : RecalculateEnv) (txin : CTxIn) : Int :=
  if txin.isZerocoinSpend then txin.nSequence * COIN
  else ((env.getTransaction txin.prevout.hash).bind fun txPrev => txPrev.vout[txin.prevout.n]?).elim 0 CTxOut.nValue

/-- The output that an input refers to is found, unless the input is a zerocoin spend. -/
def ReadableIn (env : RecalculateEnv) (txin : CTxIn) : Prop :=
  txin.isZerocoinSpend = false →
    ∃ txPrev, env.getTransaction txin.prevout.hash = some txPrev ∧ txin.prevout.n < txPrev.vout.length

/-- The outputs that a transaction spends are found. -/
def Readable (env : RecalculateEnv) (tx : CTransaction) : Prop :=
  tx.isCoinBase = false → ∀ txin ∈ tx.vin, env.ReadableIn txin

/-- The value of the inputs of a transaction. -/
def readIn (env : RecalculateEnv) (tx : CTransaction) : Int :=
  if tx.isCoinBase then 0 else (tx.vin.map env.inValue).sum

theorem recountIn_spec {txin : CTxIn} (h : env.ReadableIn txin) (a o b : Int) (z : Bool) :
    ∃ b' z', env.recountIn ⟨int64 a, o, b, z⟩ txin = some ⟨int64 (a + env.inValue txin), o, b', z'⟩ := by
  unfold recountIn inValue
  split
  · exact ⟨addInt64 b (-(txin.nSequence * COIN)), true, by simp⟩
  · rename_i hz
    obtain ⟨txPrev, hget, hlt⟩ := h (by simpa using hz)
    rw [hget]
    simp only [Option.bind_some, List.getElem?_eq_getElem hlt, Option.elim_some, addInt64_int64_left]
    exact ⟨_, _, rfl⟩

theorem readableIn_of_recountIn {txin : CTxIn} {c c' : Recount} (h : env.recountIn c txin = some c') :
    env.ReadableIn txin := by
  intro hz
  unfold recountIn at h
  rw [hz, if_neg (by simp)] at h
  split at h
  · cases h
  · rename_i txPrev hget
    split at h
    · cases h
    · rename_i o ho
      exact ⟨txPrev, hget, (List.getElem?_eq_some_iff.mp ho).1⟩

theorem recountIns_spec : ∀ {vin : List CTxIn}, (∀ txin ∈ vin, env.ReadableIn txin) → ∀ (a o b : Int) (z : Bool),
    ∃ b' z', vin.foldlM env.recountIn ⟨int64 a, o, b, z⟩ = some ⟨int64 (a + (vin.map env.inValue).sum), o, b', z'⟩
  | [], _, a, o, b, z => ⟨b, z, by simp⟩
  | txin :: vin, h, a, o, b, z => by
    obtain ⟨b₁, z₁, h₁⟩ := recountIn_spec (h txin List.mem_cons_self) a o b z
    obtain ⟨b₂, z₂, h₂⟩ := recountIns_spec (fun t ht => h t (List.mem_cons_of_mem _ ht)) (a + env.inValue txin) o b₁ z₁
    refine ⟨b₂, z₂, ?_⟩
    rw [List.foldlM_cons, h₁, List.map_cons, List.sum_cons, ← add_assoc]
    exact h₂

theorem readableIn_of_recountIns : ∀ {vin : List CTxIn} {c c' : Recount}, vin.foldlM env.recountIn c = some c' →
    ∀ txin ∈ vin, env.ReadableIn txin
  | [], _, _, _ => by simp
  | txin :: vin, c, c', h => by
    rw [List.foldlM_cons] at h
    obtain ⟨c₁, h₁, h₂⟩ := Option.bind_eq_some_iff.mp h
    intro t ht
    rcases List.mem_cons.mp ht with rfl | ht
    · exact readableIn_of_recountIn h₁
    · exact readableIn_of_recountIns h₂ t ht

/-- The outputs that can be spent. -/
def spendableOut (vout : List CTxOut) : Int :=
  ((vout.filter fun o => !o.scriptPubKey.isUnspendable).map CTxOut.nValue).sum

theorem recountOuts_spec : ∀ (vout : List CTxOut) (a o b : Int) (z : Bool),
    ∃ b' z', vout.foldl recountOut ⟨a, int64 o, b, z⟩ = ⟨a, int64 (o + spendableOut vout), b', z'⟩
  | [], a, o, b, z => ⟨b, z, by simp [spendableOut]⟩
  | out :: vout, a, o, b, z => by
    have hstep : ∃ b' z', recountOut ⟨a, int64 o, b, z⟩ out = ⟨a, int64 (o + spendableOut [out]), b', z'⟩ := by
      unfold recountOut spendableOut
      cases out.isZerocoinMint <;> cases hu : out.scriptPubKey.isUnspendable <;> simp [hu]
    obtain ⟨b₁, z₁, h₁⟩ := hstep
    obtain ⟨b₂, z₂, h₂⟩ := recountOuts_spec vout a (o + spendableOut [out]) b₁ z₁
    refine ⟨b₂, z₂, ?_⟩
    have hsum : spendableOut (out :: vout) = spendableOut [out] + spendableOut vout := by
      unfold spendableOut
      cases hu : out.scriptPubKey.isUnspendable <;> simp [hu]
    rw [List.foldl_cons, h₁, h₂, hsum, add_assoc]

theorem spendableOut_coinStake (tx : CTransaction) :
    spendableOut (if tx.isCoinStake then tx.vout.drop 1 else tx.vout) =
      (tx.vout.map CTxOut.nValue).sum - tx.unspendableValue := by
  have hall : ∀ vout : List CTxOut, spendableOut vout = (vout.map CTxOut.nValue).sum -
      ((vout.filter fun o => o.scriptPubKey.isUnspendable).map CTxOut.nValue).sum := by
    intro vout
    induction vout with
    | nil => rfl
    | cons o vout ih =>
      unfold spendableOut at ih ⊢
      cases hu : o.scriptPubKey.isUnspendable
      · simp [hu, ih]
        omega
      · simp [hu, ih]
  split
  · rename_i hs
    unfold CTransaction.isCoinStake at hs
    split at hs
    · cases hs
    · split at hs
      · cases hs
      · split at hs
        · rename_i o o' rest hvout
          have ho : o.nValue = 0 ∧ o.scriptPubKey.isUnspendable = false := by
            unfold CTxOut.isEmpty CScript.empty at hs
            rw [Bool.and_eq_true, beq_iff_eq, List.isEmpty_iff] at hs
            exact ⟨hs.1, by simp [CScript.isUnspendable, hs.2]⟩
          rw [CTransaction.unspendableValue, hvout, List.drop_one, List.tail_cons, hall]
          simp [ho]
        · cases hs
  · exact hall tx.vout

theorem recountTx_spec {tx : CTransaction} (h : env.Readable tx) (a o b : Int) (z : Bool) :
    ∃ b' z', env.recountTx ⟨int64 a, int64 o, b, z⟩ tx = some ⟨int64 (a + env.readIn tx),
      int64 (o + ((tx.vout.map CTxOut.nValue).sum - tx.unspendableValue)), b', z'⟩ := by
  have hin : ∃ b₁ z₁, (if tx.isCoinBase then some ⟨int64 a, int64 o, b, z⟩
      else tx.vin.foldlM env.recountIn ⟨int64 a, int64 o, b, z⟩) =
        some ⟨int64 (a + env.readIn tx), int64 o, b₁, z₁⟩ := by
    unfold readIn
    split
    · exact ⟨b, z, by simp⟩
    · rename_i hb
      exact recountIns_spec (h (by simpa using hb)) a (int64 o) b z
  obtain ⟨b₁, z₁, hin⟩ := hin
  obtain ⟨b₂, z₂, hout⟩ := recountOuts_spec (if tx.isCoinStake then tx.vout.drop 1 else tx.vout)
    (int64 (a + env.readIn tx)) o b₁ z₁
  rw [spendableOut_coinStake] at hout
  refine ⟨b₂, z₂, ?_⟩
  unfold recountTx
  rw [hin]
  exact congrArg some hout

theorem readable_of_recountTx {tx : CTransaction} {c c' : Recount} (h : env.recountTx c tx = some c') :
    env.Readable tx := by
  intro hb
  unfold recountTx at h
  rw [hb, if_neg (by simp)] at h
  split at h
  · cases h
  · rename_i hin
    exact readableIn_of_recountIns hin

theorem recountTxs_spec : ∀ {vtx : List CTransaction}, (∀ tx ∈ vtx, env.Readable tx) → ∀ (a o b : Int) (z : Bool),
    ∃ b' z', vtx.foldlM env.recountTx ⟨int64 a, int64 o, b, z⟩ = some ⟨int64 (a + (vtx.map env.readIn).sum),
      int64 (o + (ConnectEnv.valuesOut vtx - unspendable vtx)), b', z'⟩
  | [], _, a, o, b, z => ⟨b, z, by simp [ConnectEnv.valuesOut, unspendable]⟩
  | tx :: vtx, h, a, o, b, z => by
    obtain ⟨b₁, z₁, h₁⟩ := recountTx_spec (h tx List.mem_cons_self) a o b z
    obtain ⟨b₂, z₂, h₂⟩ := recountTxs_spec (fun t ht => h t (List.mem_cons_of_mem _ ht)) (a + env.readIn tx)
      (o + ((tx.vout.map CTxOut.nValue).sum - tx.unspendableValue)) b₁ z₁
    refine ⟨b₂, z₂, ?_⟩
    have hout : o + (ConnectEnv.valuesOut (tx :: vtx) - unspendable (tx :: vtx)) =
        o + ((tx.vout.map CTxOut.nValue).sum - tx.unspendableValue) + (ConnectEnv.valuesOut vtx - unspendable vtx) := by
      simp only [ConnectEnv.valuesOut, unspendable, List.map_cons, List.sum_cons]
      omega
    rw [List.foldlM_cons, h₁, List.map_cons, List.sum_cons, ← add_assoc, hout]
    exact h₂

theorem readable_of_recountTxs : ∀ {vtx : List CTransaction} {c c' : Recount}, vtx.foldlM env.recountTx c = some c' →
    ∀ tx ∈ vtx, env.Readable tx
  | [], _, _, _ => by simp
  | tx :: vtx, c, c', h => by
    rw [List.foldlM_cons] at h
    obtain ⟨c₁, h₁, h₂⟩ := Option.bind_eq_some_iff.mp h
    intro t ht
    rcases List.mem_cons.mp ht with rfl | ht
    · exact readable_of_recountTx h₁
    · exact readable_of_recountTxs h₂ t ht

theorem recalculateBlock_spec (nHeight : Nat) (nSupplyPrev nBurnedCoins : Int) {block : CBlock}
    (h : ∀ tx ∈ block.vtx, env.Readable tx) : ∃ b', env.recalculateBlock nHeight nSupplyPrev nBurnedCoins block =
      some (int64 (nSupplyPrev + (ConnectEnv.valuesOut block.vtx - unspendable block.vtx) -
        (block.vtx.map env.readIn).sum), b') := by
  obtain ⟨b', z', hc⟩ := recountTxs_spec h 0 0 nBurnedCoins false
  have h0 : int64 0 = 0 := by decide
  rw [h0, zero_add, zero_add] at hc
  have hvalue : addInt64 nSupplyPrev (addInt64 (int64 (ConnectEnv.valuesOut block.vtx - unspendable block.vtx))
      (-int64 (block.vtx.map env.readIn).sum)) = int64 (nSupplyPrev +
        (ConnectEnv.valuesOut block.vtx - unspendable block.vtx) - (block.vtx.map env.readIn).sum) := by
    rw [addInt64_int64_left, addInt64_int64_right, ← sub_eq_add_neg, ← add_sub_assoc]
    unfold int64
    rw [Int.sub_bmod_bmod]
  unfold recalculateBlock
  rw [hc]
  exact ⟨_, congrArg some (Prod.ext hvalue rfl)⟩

theorem readable_of_recalculateBlock {nHeight : Nat} {nSupplyPrev nBurnedCoins : Int} {block : CBlock} {r : Int × Int}
    (h : env.recalculateBlock nHeight nSupplyPrev nBurnedCoins block = some r) : ∀ tx ∈ block.vtx, env.Readable tx := by
  unfold recalculateBlock at h
  split at h
  · cases h
  · rename_i hc
    exact readable_of_recountTxs hc

end RecalculateEnv

/-! ## Unspent outputs are outputs of the chain -/

/-- Every unspent output of the view is an output of one of the transactions. -/
def CoinsView.FromTxs (txs : List CTransaction) (view : CoinsView) : Prop :=
  ∀ (h : Uint256) (n : Nat) (o : CTxOut), (view.coins h).vout[n]? = some o → o.isNull = false →
    ∃ tx ∈ txs, tx.hash = h ∧ tx.vout[n]? = some o

namespace CoinsView

theorem getElem?_of_rdropWhile {l : List CTxOut} {p : CTxOut → Bool} {n : Nat} {o : CTxOut}
    (h : (l.rdropWhile p)[n]? = some o) : l[n]? = some o := by
  obtain ⟨rest, hrest⟩ := List.rdropWhile_prefix p l
  rw [← hrest, List.getElem?_append_left (List.getElem?_eq_some_iff.mp h).1]
  exact h

theorem FromTxs.spendInput {txs : List CTransaction} {view view' : CoinsView} {x : COutPoint} {undo : CTxInUndo}
    (h : view.FromTxs txs) (hs : view.spendInput x = some (undo, view')) : view'.FromTxs txs := by
  obtain ⟨-, -, rfl⟩ := spendInput_some hs
  intro hash n o ho hnull
  by_cases hx : hash = x.hash
  · subst hx
    rw [modifyCoins_self] at ho
    have hset := getElem?_of_rdropWhile (getElem?_of_rdropWhile ho)
    have hne : x.n ≠ n := by
      rintro rfl
      rw [List.getElem?_set_self'] at hset
      obtain ⟨_, _, rfl⟩ := Option.map_eq_some_iff.mp hset
      cases hnull
    rw [List.getElem?_set_ne hne] at hset
    exact h _ n o hset hnull
  · rw [modifyCoins_of_ne _ _ hx] at ho
    exact h hash n o ho hnull

theorem FromTxs.spendInputs {txs : List CTransaction} : ∀ {os : List COutPoint} {view view' : CoinsView} {undos : CTxUndo},
    view.FromTxs txs → view.spendInputs os = some (undos, view') → view'.FromTxs txs
  | [], _, _, _, h, hs => by cases hs; exact h
  | _ :: _, _, _, _, h, hs => by
    obtain ⟨_, _, _, h₁, h₂, -⟩ := spendInputs_cons hs
    exact FromTxs.spendInputs (h.spendInput h₁) h₂

theorem FromTxs.updateCoins {txs : List CTransaction} {view view' : CoinsView} {tx : CTransaction} {nHeight : Int32}
    {undo : CTxUndo} (h : view.FromTxs txs) (hu : updateCoins tx view nHeight = some (undo, view')) :
    view'.FromTxs (txs ++ [tx]) := by
  obtain ⟨view₁, h₁, rfl⟩ := updateCoins_some hu
  have h₁ := h.spendInputs h₁
  intro hash n o ho hnull
  by_cases hx : hash = tx.hash
  · subst hx
    rw [modifyCoins_self] at ho
    have hmap := getElem?_of_rdropWhile (getElem?_of_rdropWhile ho)
    rw [List.getElem?_map] at hmap
    obtain ⟨o', ho', heq⟩ := Option.map_eq_some_iff.mp hmap
    split at heq
    · subst heq
      cases hnull
    · subst heq
      exact ⟨tx, by simp, rfl, ho'⟩
  · rw [modifyCoins_of_ne _ _ hx] at ho
    obtain ⟨t, ht, hrest⟩ := h₁ hash n o ho hnull
    exact ⟨t, by simp [ht], hrest⟩

end CoinsView

/-- The transactions of the blocks of a chain. -/
def chainTxs (chain : List (CBlock × Int)) : List CTransaction := chain.flatMap fun p => p.1.vtx

namespace ConnectEnv

theorem TxRun.fromTxs {env : ConnectEnv} {nHeight : Nat} {view view' : CoinsView} {txs done : List CTransaction}
    (hrun : TxRun env nHeight view txs view') (h : view.FromTxs done) : view'.FromTxs (done ++ txs) := by
  induction hrun generalizing done with
  | nil view => rwa [List.append_nil]
  | cons step run ih =>
    obtain ⟨undo, hu⟩ := step.updated
    have := ih (h.updateCoins hu)
    rwa [List.append_assoc] at this

end ConnectEnv

/-- Blocks from height 1 on that `ConnectBlock` accepts one after the other, with the money supplies it assigns. The node
may be in another state at each of them. -/
inductive ConnectedChain (denomination : CTxIn → Int) : List (CBlock × Int) → CoinsView → Prop
  | genesis (hashGenesisBlock : Uint256) : ConnectedChain denomination [] ⟨fun _ => .empty, hashGenesisBlock⟩
  | connect {chain : List (CBlock × Int)} {view : CoinsView} {env : ConnectEnv} {s : ChainState} {block : CBlock}
      {r : ConnectEnv.Connected} (before : ConnectedChain denomination chain view)
      (same : env.denomination = denomination)
      (accepted : env.connectBlock s view chain.length (lastSupply chain) block = some r) :
      ConnectedChain denomination (chain ++ [(block, r.nMoneySupply)]) r.view

namespace ConnectedChain

variable {denomination : CTxIn → Int}

theorem fromTxs {chain : List (CBlock × Int)} {view : CoinsView} (h : ConnectedChain denomination chain view) :
    view.FromTxs (chainTxs chain) := by
  induction h with
  | genesis hash =>
    intro h n o ho
    simp [CCoins.empty] at ho
  | connect before same accepted ih =>
    obtain ⟨⟨view', hrun, hview⟩, -⟩ := ConnectEnv.connectBlock_spec accepted
    have hfrom := hrun.fromTxs ih
    rw [hview, chainTxs, List.flatMap_append, List.flatMap_singleton]
    exact hfrom

theorem accepted_of_append {post : List (CBlock × Int)} : ∀ {pre : List (CBlock × Int)} {block : CBlock} {supply : Int}
    {view : CoinsView}, ConnectedChain denomination (pre ++ (block, supply) :: post) view →
    ∃ (env : ConnectEnv) (s : ChainState) (view₀ : CoinsView) (r : ConnectEnv.Connected),
      ConnectedChain denomination pre view₀ ∧ env.denomination = denomination ∧
      env.connectBlock s view₀ pre.length (lastSupply pre) block = some r ∧ supply = r.nMoneySupply := by
  induction post using List.reverseRecOn with
  | nil =>
    intro pre block supply view h
    generalize hc : pre ++ [(block, supply)] = chain at h
    cases h with
    | genesis => simp at hc
    | connect before same accepted =>
      obtain ⟨rfl, hb⟩ := List.append_inj' hc rfl
      cases hb
      exact ⟨_, _, _, _, before, same, accepted, rfl⟩
  | append_singleton post last ih =>
    intro pre block supply view h
    rw [← List.cons_append, ← List.append_assoc] at h
    generalize hc : pre ++ (block, supply) :: post ++ [last] = chain at h
    cases h with
    | genesis => simp at hc
    | connect before same accepted =>
      obtain ⟨rfl, -⟩ := List.append_inj' hc rfl
      exact ih before

end ConnectedChain

/-! ## When the two computations agree -/

theorem int64_eq_iff {x y : Int} : int64 x = int64 y ↔ (2 ^ 64 : Int) ∣ x - y := by
  unfold int64
  rw [Int.bmod_eq_bmod_iff_bmod_sub_eq_zero]
  exact Int.dvd_iff_bmod_eq_zero.symm

namespace RecalculateEnv

variable {env : RecalculateEnv} {denomination : CTxIn → Int}

/-- What the zerocoin spends of a transaction change: the value that is read for its inputs less the denominations. -/
def zerocoinGap (env : RecalculateEnv) (denomination : CTxIn → Int) (tx : CTransaction) : Int :=
  if tx.hasZerocoinSpendInputs then
    env.readIn tx - ((tx.vin.filter CTxIn.isZerocoinSpend).map fun txin => denomination txin * COIN).sum
  else 0

/-- What `ConnectBlock` adds to the supply more than `RecalculateWAGESupply`. -/
def discrepancy (env : RecalculateEnv) (denomination : CTxIn → Int) (block : CBlock) : Int :=
  unspendable block.vtx + (block.vtx.map (env.zerocoinGap denomination)).sum

/-- The transactions of a block can be read, and nothing in it counts differently. -/
structure Consistent (env : RecalculateEnv) (denomination : CTxIn → Int) (block : CBlock) : Prop where
  readable : ∀ tx ∈ block.vtx, env.Readable tx
  discrepancy : (2 ^ 64 : Int) ∣ env.discrepancy denomination block

/-- `GetTransaction` finds the transactions of the chain under their hashes, if it finds anything. -/
def Finds (env : RecalculateEnv) (txs : List CTransaction) : Prop :=
  ∀ tx ∈ txs, ∀ txPrev, env.getTransaction tx.hash = some txPrev → txPrev.vout = tx.vout

theorem getValueIn_eq {view : CoinsView} {done : List CTransaction} {tx : CTransaction} (hv : view.FromTxs done)
    (hfind : env.Finds done) (hr : env.Readable tx) (hin : view.haveInputs tx = true) (hcb : tx.isCoinBase = false)
    (hz : tx.hasZerocoinSpendInputs = false) : view.getValueIn tx = env.readIn tx := by
  unfold CoinsView.getValueIn readIn
  rw [hcb, if_neg (by simp)]
  refine congrArg List.sum (List.map_congr_left fun txin htxin => ?_)
  have hzin : txin.isZerocoinSpend = false := by
    unfold CTransaction.hasZerocoinSpendInputs at hz
    simpa using (List.any_eq_false.mp hz) txin htxin
  have hav : (view.coins txin.prevout.hash).isAvailable txin.prevout.n = true := by
    rw [CoinsView.haveInputs, hcb, Bool.false_or, List.all_eq_true] at hin
    exact hin txin htxin
  have hnull := (CCoins.isAvailable_iff.mp hav).1
  obtain ⟨t, ht, hhash, hout⟩ := hv _ _ _ (CCoins.getElem?_of_out hnull) hnull
  obtain ⟨txPrev, hget, -⟩ := hr hcb txin htxin hzin
  have hvout : txPrev.vout = t.vout := hfind t ht txPrev (by rw [hhash]; exact hget)
  unfold inValue
  rw [hzin, if_neg (by simp), hget, Option.bind_some, hvout, hout]
  rfl

theorem valuesIn_eq {cenv : ConnectEnv} {nHeight : Nat} {view view' : CoinsView} {txs done : List CTransaction}
    (hd : cenv.denomination = denomination) (hrun : ConnectEnv.TxRun cenv nHeight view txs view')
    (hv : view.FromTxs done) (hfind : env.Finds (done ++ txs)) (hr : ∀ tx ∈ txs, env.Readable tx) :
    cenv.valuesIn nHeight txs view = (txs.map env.readIn).sum - (txs.map (env.zerocoinGap denomination)).sum := by
  induction hrun generalizing done with
  | nil view => simp [ConnectEnv.valuesIn]
  | @cons view view₁ view₂ tx txs step run ih =>
    obtain ⟨undo, hu⟩ := step.updated
    have hrest := ih (hv.updateCoins hu) (by rwa [List.append_assoc]) fun t ht => hr t (List.mem_cons_of_mem _ ht)
    have htx : cenv.txValueIn view tx = env.readIn tx - env.zerocoinGap denomination tx := by
      unfold ConnectEnv.txValueIn zerocoinGap
      cases hz : tx.hasZerocoinSpendInputs with
      | true =>
        rw [if_pos rfl, if_pos rfl, ConnectEnv.zerocoinSpent, hd]
        omega
      | false =>
        simp only [Bool.false_eq_true, if_false, sub_zero]
        cases hcb : tx.isCoinBase with
        | true => rw [if_pos rfl, readIn, hcb, if_pos rfl]
        | false =>
          rw [if_neg (by simp)]
          have hin := step.inputs (by rw [CTransaction.noInputs, hcb, hz]; rfl)
          rw [ConnectEnv.checkInputs, Bool.and_eq_true] at hin
          exact getValueIn_eq hv (fun t ht => hfind t (List.mem_append_left _ ht)) (hr tx List.mem_cons_self) hin.1 hcb hz
    rw [step.valuesIn_cons, hrest, htx]
    simp only [List.map_cons, List.sum_cons]
    omega

theorem recalculateBlock_iff {cenv : ConnectEnv} {s : ChainState} {pre : List (CBlock × Int)} {view : CoinsView}
    {block : CBlock} {r : ConnectEnv.Connected} (hpre : ConnectedChain denomination pre view)
    (hd : cenv.denomination = denomination)
    (hconn : cenv.connectBlock s view pre.length (lastSupply pre) block = some r)
    (hfind : env.Finds (chainTxs pre ++ block.vtx)) (nHeight : Nat) (nBurnedCoins : Int) :
    (∃ b', env.recalculateBlock nHeight (lastSupply pre) nBurnedCoins block = some (r.nMoneySupply, b')) ↔
      env.Consistent denomination block := by
  obtain ⟨⟨view', hrun, -⟩, -, hsupply, -⟩ := ConnectEnv.connectBlock_spec hconn
  have hsame : (∀ tx ∈ block.vtx, env.Readable tx) → (int64 (lastSupply pre + (ConnectEnv.valuesOut block.vtx -
      unspendable block.vtx) - (block.vtx.map env.readIn).sum) = r.nMoneySupply ↔
        (2 ^ 64 : Int) ∣ env.discrepancy denomination block) := by
    intro hr
    rw [hsupply, valuesIn_eq hd hrun hpre.fromTxs hfind hr, eq_comm, int64_eq_iff, discrepancy]
    refine iff_of_eq (congrArg _ ?_)
    omega
  constructor
  · rintro ⟨b', h⟩
    have hr := readable_of_recalculateBlock h
    obtain ⟨b₁, h₁⟩ := recalculateBlock_spec nHeight (lastSupply pre) nBurnedCoins hr
    rw [h₁] at h
    exact ⟨hr, (hsame hr).mp (congrArg Prod.fst (Option.some.inj h))⟩
  · intro hc
    obtain ⟨b₁, h₁⟩ := recalculateBlock_spec nHeight (lastSupply pre) nBurnedCoins hc.readable
    rw [(hsame hc.readable).mpr hc.discrepancy] at h₁
    exact ⟨b₁, h₁⟩

/-- The blocks from a height on are consistent, up to the one after which the node shuts down. -/
def ConsistentFrom (env : RecalculateEnv) (denomination : CTxIn → Int) (nHeight : Nat) (blocks : List (CBlock × Int)) :
    Prop :=
  ∀ (i : Nat) (block : CBlock) (supply : Int), blocks[i]? = some (block, supply) →
    (∀ j < i, env.shutdownRequested (nHeight + j) = false) → env.Consistent denomination block

theorem consistentFrom_cons {nHeight : Nat} {p : CBlock × Int} {blocks : List (CBlock × Int)} :
    env.ConsistentFrom denomination nHeight (p :: blocks) ↔ env.Consistent denomination p.1 ∧
      (env.shutdownRequested nHeight = false → env.ConsistentFrom denomination (nHeight + 1) blocks) := by
  constructor
  · intro h
    refine ⟨h 0 p.1 p.2 rfl (by simp), fun hs i block supply hi hj => h (i + 1) block supply hi fun j hlt => ?_⟩
    cases j with
    | zero => exact hs
    | succ j =>
      have := hj j (by omega)
      rwa [Nat.add_assoc, Nat.add_comm 1 j] at this
  · rintro ⟨h₀, h₁⟩ i block supply hi hj
    cases i with
    | zero =>
      cases hi
      exact h₀
    | succ i =>
      refine h₁ (hj 0 (by omega)) i block supply hi fun j hlt => ?_
      have := hj (j + 1) (by omega)
      rwa [Nat.add_assoc, Nat.add_comm 1 j]

theorem recalculateBlocks_iff : ∀ {post pre : List (CBlock × Int)} {view : CoinsView},
    ConnectedChain denomination (pre ++ post) view → env.Finds (chainTxs (pre ++ post)) → ∀ nBurnedCoins : Int,
    ((∃ done b', env.recalculateBlocks (pre.length + 1) (lastSupply pre) nBurnedCoins post =
      some (done, post.map Prod.snd, b')) ↔ env.ConsistentFrom denomination (pre.length + 1) post)
  | [], pre, view, _, _, nBurnedCoins => by
    refine ⟨fun _ i block supply hi => by simp at hi, fun _ => ⟨true, nBurnedCoins, rfl⟩⟩
  | (block, supply) :: post, pre, view, hchain, hfind, nBurnedCoins => by
    obtain ⟨cenv, s, view₀, r, hpre, hd, hconn, rfl⟩ := hchain.accepted_of_append
    have hfind₀ : env.Finds (chainTxs pre ++ block.vtx) := by
      intro tx htx
      refine hfind tx ?_
      simp only [chainTxs, List.flatMap_append, List.flatMap_cons, List.mem_append] at htx ⊢
      tauto
    have hblock := recalculateBlock_iff hpre hd hconn hfind₀ (pre.length + 1)
    have happend : pre ++ (block, r.nMoneySupply) :: post = (pre ++ [(block, r.nMoneySupply)]) ++ post := by simp
    rw [happend] at hchain hfind
    have hlast : lastSupply (pre ++ [(block, r.nMoneySupply)]) = r.nMoneySupply := by simp [lastSupply]
    have hlen : (pre ++ [(block, r.nMoneySupply)]).length = pre.length + 1 := by simp
    have hrest := fun b => recalculateBlocks_iff hchain hfind b
    rw [hlast, hlen] at hrest
    rw [consistentFrom_cons, ← hblock nBurnedCoins]
    constructor
    · rintro ⟨done, b', h⟩
      unfold recalculateBlocks at h
      split at h
      · cases h
      · rename_i supply' b₁ hb₁
        split at h
        · rename_i hs
          cases h
          exact ⟨⟨b', hb₁⟩, fun hs' => by simp [hs'] at hs⟩
        · split at h
          · cases h
          · rename_i done' supplies b₂ hb₂
            cases h
            exact ⟨⟨b₁, hb₁⟩, fun _ => (hrest b₁).mp ⟨done, b', hb₂⟩⟩
    · rintro ⟨⟨b₁, hb₁⟩, hs⟩
      unfold recalculateBlocks
      rw [hb₁]
      dsimp only
      cases hstop : env.shutdownRequested (pre.length + 1) with
      | true => exact ⟨false, b₁, rfl⟩
      | false =>
        obtain ⟨done, b₂, hb₂⟩ := (hrest b₁).mpr (hs hstop)
        rw [hb₂]
        exact ⟨done, b₂, rfl⟩

/-- `RecalculateWAGESupply` does its work, and every block from the height on keeps its money supply. -/
def Agrees (env : RecalculateEnv) (chain : List (CBlock × Int)) (nBurnedCoins nHeightStart : Int) : Prop :=
  ∃ done supplies nBurnedCoins', env.recalculateWAGESupply chain nBurnedCoins nHeightStart =
    some (done, supplies, nBurnedCoins') ∧
      ∀ i : Nat, nHeightStart ≤ (i + 1 : Nat) → supplies[i]? = (chain.map Prod.snd)[i]?

/-- The recalculated supplies are those that `ConnectBlock` assigned exactly when the start is a height above the genesis
block and the blocks from there on are consistent. -/
theorem agrees_iff {chain : List (CBlock × Int)} {view : CoinsView} (hchain : ConnectedChain denomination chain view)
    (hfind : env.Finds (chainTxs chain)) (nBurnedCoins nHeightStart : Int) :
    env.Agrees chain nBurnedCoins nHeightStart ↔ 1 ≤ nHeightStart ∧
      env.ConsistentFrom denomination nHeightStart.toNat (chain.drop (nHeightStart.toNat - 1)) := by
  by_cases hlt : (chain.length : Int) < nHeightStart
  · have hdrop : chain.drop (nHeightStart.toNat - 1) = [] := List.drop_eq_nil_of_le (by omega)
    rw [hdrop]
    refine ⟨fun _ => ⟨by omega, fun i block supply hi => by simp at hi⟩, fun _ => ?_⟩
    refine ⟨false, chain.map Prod.snd, nBurnedCoins, ?_, fun i _ => rfl⟩
    rw [recalculateWAGESupply, if_pos hlt]
  · by_cases hpos : nHeightStart < 1
    · refine ⟨?_, fun h => absurd h.1 (by omega)⟩
      rintro ⟨done, supplies, b', h, -⟩
      rw [recalculateWAGESupply, if_neg hlt, if_pos hpos] at h
      cases h
    · -- the blocks before the start and those from the start on
      obtain ⟨k, hk⟩ : ∃ k : Nat, nHeightStart = (k + 1 : Nat) := ⟨nHeightStart.toNat - 1, by omega⟩
      subst hk
      have hsub : ((k + 1 : Nat) : Int).toNat - 1 = k := by omega
      have hto : ((k + 1 : Nat) : Int).toNat = k + 1 := by omega
      have hlen : (chain.take k).length = k := List.length_take_of_le (by omega)
      have hsplit : chain.take k ++ chain.drop k = chain := List.take_append_drop k chain
      have hblocks : ∀ b, _ := recalculateBlocks_iff (by rw [hsplit]; exact hchain) (by rw [hsplit]; exact hfind)
      rw [hlen] at hblocks
      rw [hsub, hto, ← hblocks 0]
      have hrun : env.recalculateWAGESupply chain nBurnedCoins (k + 1 : Nat) =
          match env.recalculateBlocks (k + 1) (lastSupply (chain.take k)) 0 (chain.drop k) with
          | none => none
          | some (done, supplies, b') => some (done, (chain.take k).map Prod.snd ++ supplies, b') := by
        rw [recalculateWAGESupply, if_neg hlt, if_neg hpos]
        dsimp only
        rw [hsub, hto]
      have hmap : chain.map Prod.snd = (chain.take k).map Prod.snd ++ (chain.drop k).map Prod.snd := by
        rw [← List.map_append, hsplit]
      unfold Agrees
      rw [hrun, hmap]
      constructor
      · rintro ⟨done, supplies, b', h, hsame⟩
        refine ⟨by omega, done, b', ?_⟩
        split at h
        · cases h
        · rename_i done' supplies' b₁ hb
          cases h
          rw [hb]
          refine congrArg some (Prod.ext rfl (Prod.ext (List.ext_getElem? fun i => ?_) rfl))
          have := hsame (k + i) (by omega)
          rwa [List.getElem?_append_right (by simp), List.getElem?_append_right (by simp),
            List.length_map, hlen, Nat.add_sub_cancel_left] at this
      · rintro ⟨-, done, b', h⟩
        rw [h]
        exact ⟨done, _, b', rfl, fun i _ => rfl⟩

end RecalculateEnv

/-! ## A coinbase that burns coins -/

/-- The genesis block alone. -/
def genesisChain : ChainState :=
  { (ChainState.init.addToBlockIndex 0 ⟨0, 7, 0, 0, 0, 0x1e0ffff0, 0⟩).2 with chainActive := ⟨[some 0]⟩ }

/-- A coinbase with five coins, and some more in an output that cannot be spent. -/
def burnCoinBase (nValue : Int) : CTransaction :=
  ⟨1, 1, [⟨⟨0, 2 ^ 32 - 1⟩, ([0x51, 0x51] : List UInt8), 0⟩],
    [⟨5 * COIN, ([0x51] : List UInt8), -10⟩, ⟨nValue, ([CScript.OP_RETURN] : List UInt8), -10⟩], 0⟩

def burnBlock (nValue : Int) : CBlock := ⟨⟨1, 7, 0, 0, 1, 0x1e0ffff0, 0⟩, [burnCoinBase nValue]⟩

/-- A node with a transaction index. -/
def burnNode (nValue : Int) : RecalculateEnv where
  getTransaction h := if h = 1 then some (burnCoinBase nValue) else none
  shutdownRequested _ := false

theorem connectBlock_burnBlock : (∃ r, regTestEnv.connectBlock genesisChain ⟨fun _ => .empty, 0⟩ 0 0 (burnBlock 0) =
      some r ∧ r.nMoneySupply = 5 * COIN) ∧
    ∃ r, regTestEnv.connectBlock genesisChain ⟨fun _ => .empty, 0⟩ 0 0 (burnBlock COIN) = some r ∧
      r.nMoneySupply = 6 * COIN :=
  ⟨⟨_, rfl, rfl⟩, ⟨_, rfl, rfl⟩⟩

theorem finds_burnBlock (nValue supply : Int) : (burnNode nValue).Finds (chainTxs [(burnBlock nValue, supply)]) := by
  intro tx htx txPrev hget
  have htx : tx = burnCoinBase nValue := by simpa [chainTxs, burnBlock] using htx
  subst htx
  cases hget
  rfl

namespace RecalculateEnv

/-- A coinbase that burns nothing keeps its supply. -/
theorem agrees_burnBlock : (burnNode 0).Agrees [(burnBlock 0, 5 * COIN)] 0 1 := by
  obtain ⟨⟨r, hr, hsupply⟩, -⟩ := connectBlock_burnBlock
  have hchain := ConnectedChain.connect (.genesis 0) rfl hr
  rw [hsupply] at hchain
  refine (agrees_iff hchain (finds_burnBlock 0 _) 0 1).mpr ⟨by decide, fun i block supply hi _ => ?_⟩
  cases i with
  | zero =>
    cases hi
    refine ⟨fun tx htx hcb => ?_, by decide⟩
    rw [List.mem_singleton.mp htx] at hcb
    cases hcb
  | succ i => cases hi

/-- A coin that the coinbase burns is in the supply of `ConnectBlock` and not in the recalculated one. -/
theorem not_agrees : ¬ ∀ (env : RecalculateEnv) denomination chain view nBurnedCoins nHeightStart,
    ConnectedChain denomination chain view → env.Finds (chainTxs chain) → 1 ≤ nHeightStart →
    env.Agrees chain nBurnedCoins nHeightStart := by
  intro hall
  obtain ⟨-, r, hr, hsupply⟩ := connectBlock_burnBlock
  have hchain := ConnectedChain.connect (.genesis 0) rfl hr
  rw [hsupply] at hchain
  obtain ⟨done, supplies, b', h, hsame⟩ := hall (burnNode COIN) _ _ _ 0 1 hchain (finds_burnBlock COIN _) (by decide)
  cases h
  have := hsame 0 (by decide)
  revert this
  decide

end RecalculateEnv

end DigiWage
