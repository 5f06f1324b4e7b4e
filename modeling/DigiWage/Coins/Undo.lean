import DigiWage.Coins.View

/-!
# Connecting and disconnecting a block

`connectTxs` is the loop of `ConnectBlock` over the transactions of a block, with the checks that decide whether it
may update the view: the BIP30 check, the inputs are available, no outpoint is an input twice (`CheckTransaction`) and
`GetValueOut` does not throw. `disconnectBlock` is `DisconnectBlock` with the undo data that the loop recorded.

Every txid whose entry loses its last unspent output in the block comes back without its `fCoinStake` flag, because
`DisconnectBlock` restores the other fields of `CTxInUndo` only; everything else comes back (`disconnect_connect`).
So disconnecting undoes connecting exactly when no coinstake entry is emptied by the block.
-/

namespace DigiWage

open CoinsView

/-! ## The two loops -/

/-- The checks on one transaction that concern the coins, in a block without zerocoins. -/
def acceptTx (view : CoinsView) (tx : CTransaction) : Bool :=
  (view.coins tx.hash).isPruned && !tx.containsZerocoins && view.haveInputs tx &&
    decide (tx.vin.map CTxIn.prevout).Nodup && tx.getValueOut.isSome

/-- The loop of `ConnectBlock`: check each transaction, then `UpdateCoins`; `none` when the block is rejected. -/
def connectTxs (view : CoinsView) (nHeight : Int32) : List CTransaction → Option (CBlockUndo × CoinsView)
  | [] => some ([], view)
  | tx :: txs =>
    if acceptTx view tx then
      match updateCoins tx view nHeight with
      | none => none
      | some (txundo, view') =>
        match connectTxs view' nHeight txs with
        | none => none
        | some (undos, view'') => some (txundo :: undos, view'')
    else none

/-- What `DisconnectBlock` does with the outputs of a transaction: compare, then remove. -/
def removeOutputs (tx : CTransaction) (nHeight : Int32) (r : Bool × CoinsView) : Bool × CoinsView :=
  let outs := (r.2.coins tx.hash).clearUnspendable
  let outsBlock := CCoins.fromTx tx nHeight
  let outs := if outsBlock.nVersion < 0 then { outs with nVersion := outsBlock.nVersion } else outs
  (r.1 && CCoins.beq outs outsBlock, r.2.modifyCoins tx.hash fun _ => outs.clear)

/-- The entry that `DisconnectBlock` leaves for the outpoint `out` with undo data `undo`. -/
def restoreCoins (undo : CTxInUndo) (out : COutPoint) (c : CCoins) : CCoins :=
  -- undo data contains height: this is the last output of the prevout tx being spent
  let c := if undo.nHeight ≠ 0 then
      { c.clear with fCoinBase := undo.fCoinBase, nHeight := undo.nHeight.toInt32, nVersion := undo.nVersion }
    else c
  { c with vout := Lib.setAt CTxOut.null c.vout out.n undo.txout }

/-- The tests of `DisconnectBlock` on the entry of an input. -/
def restoreClean (undo : CTxInUndo) (out : COutPoint) (c : CCoins) : Bool :=
  if undo.nHeight ≠ 0 then c.isPruned else !c.isPruned && !c.isAvailable out.n

/-- What `DisconnectBlock` does with one input. -/
def restoreInput (undo : CTxInUndo) (out : COutPoint) (r : Bool × CoinsView) : Bool × CoinsView :=
  (r.1 && restoreClean undo out (r.2.coins out.hash), r.2.modifyCoins out.hash (restoreCoins undo out))

/-- The loop over the inputs, from the last to the first; `none` when the undo data has another size. -/
def restoreInputs : List COutPoint → CTxUndo → Bool × CoinsView → Option (Bool × CoinsView)
  | [], [], r => some r
  | o :: os, undo :: undos, r => (restoreInputs os undos r).map (restoreInput undo o)
  | _, _, _ => none

/-- The body of the loop of `DisconnectBlock` for one transaction. -/
def disconnectTx (tx : CTransaction) (txundo : CTxUndo) (nHeight : Int32) (r : Bool × CoinsView) :
    Option (Bool × CoinsView) :=
  restoreInputs tx.spends (if tx.isCoinBase || tx.hasZerocoinSpendInputs then [] else txundo)
    (removeOutputs tx nHeight r)

/-- The loop of `DisconnectBlock`, in reverse order. -/
def disconnectTxs (nHeight : Int32) : List CTransaction → CBlockUndo → Bool × CoinsView → Option (Bool × CoinsView)
  | [], [], r => some r
  | tx :: txs, txundo :: undos, r => (disconnectTxs nHeight txs undos r).bind (disconnectTx tx txundo nHeight)
  | _, _, _ => none

/-- The part of `ConnectBlock` that moves the view over a block with a coinbase (`CheckBlock`): the transactions, and
the best block. The coinbase has no undo data. -/
def connectCoins (block : CBlock) (nHeight : Int32) (view : CoinsView) : Option (CBlockUndo × CoinsView) :=
  match block.vtx with
  | [] => none
  | tx :: _ =>
    if tx.isCoinBase && view.hashBlock == block.hashPrevBlock then
      match connectTxs view nHeight block.vtx with
      | none => none
      | some (undos, view') => some (undos.tail, { view' with hashBlock := block.hash })
    else none

/-- `DisconnectBlock` with `pfClean`: `none` when it fails, else `*pfClean` and the view. -/
def disconnectBlock (block : CBlock) (nHeight : Int32) (view : CoinsView) (blockUndo : CBlockUndo) :
    Option (Bool × CoinsView) :=
  match block.vtx with
  | [] => none
  | tx :: txs =>
    if view.hashBlock == block.hash && (tx.isCoinBase || tx.hasZerocoinSpendInputs) then
      match (disconnectTxs nHeight txs blockUndo (true, view)).bind (disconnectTx tx [] nHeight) with
      | none => none
      | some (fClean, view') => some (fClean, { view' with hashBlock := block.hashPrevBlock })
    else none

/-! ## Undoing one input -/

/-- The coins with another `fCoinStake`. -/
def CCoins.withStake (c : CCoins) (b : Bool) : CCoins := { c with fCoinStake := b }

@[simp] theorem CCoins.withStake_self (c : CCoins) : c.withStake c.fCoinStake = c := rfl
@[simp] theorem CCoins.out_withStake (c : CCoins) (b : Bool) (n : Nat) : (c.withStake b).out n = c.out n := rfl
@[simp] theorem CCoins.isPruned_withStake (c : CCoins) (b : Bool) : (c.withStake b).isPruned = c.isPruned := rfl

theorem CCoins.Clean.withStake {c : CCoins} (hc : c.Clean) (b : Bool) : (c.withStake b).Clean :=
  ⟨hc.trimmed, hc.canon⟩

theorem CCoins.withStake_eq_self {c : CCoins} {b : Bool} : c.withStake b = c ↔ b = c.fCoinStake := by
  refine ⟨fun h => ?_, by rintro rfl; rfl⟩
  rw [← h]
  rfl

/-- `d` is `c` after a round trip: the same, but for a lost `fCoinStake`. -/
def Restored (lost : Bool) (c d : CCoins) : Prop :=
  if c.isPruned then d.isPruned = true else d = c.withStake (c.fCoinStake && !lost)

theorem restored_refl (c : CCoins) : Restored false c c := by
  unfold Restored
  split
  · assumption
  · simp

theorem restored_of_isPruned {lost : Bool} {c d : CCoins} (hc : c.isPruned = true) (hd : d.isPruned = true) :
    Restored lost c d := by
  unfold Restored
  rw [if_pos hc]
  exact hd

theorem Restored.isPruned {lost : Bool} {c d : CCoins} (h : Restored lost c d) (hc : c.isPruned = true) :
    d.isPruned = true := by
  unfold Restored at h
  rwa [if_pos hc] at h

theorem Restored.eq {lost : Bool} {c d : CCoins} (h : Restored lost c d) (hc : c.isPruned = false) :
    d = c.withStake (c.fCoinStake && !lost) := by
  unfold Restored at h
  rwa [if_neg (by simp [hc])] at h

theorem Restored.or_isPruned {lost : Bool} {c d : CCoins} (h : Restored lost c d) :
    Restored (c.isPruned || lost) c d := by
  cases hc : c.isPruned with
  | true => exact restored_of_isPruned hc (h.isPruned hc)
  | false => simpa using h

theorem restoreCoins_last {c d : CCoins} (hc : c.Good) {o : COutPoint} (hn : (c.out o.n).isNull = false)
    (hp : (c.spent o.n).isPruned = true) :
    (restoreCoins (c.undoOf o.n) o d).cleanup = c.withStake false ∧
      restoreClean (c.undoOf o.n) o d = d.isPruned := by
  have hlen : (c.spent o.n).vout.length = 0 := (hc.clean.spent o.n).length_eq_zero.mpr hp
  have hne : c.nHeight.toUInt32 ≠ 0 := by
    intro h0
    have h1 := congrArg UInt32.toInt32 h0
    rw [Int32.toInt32_toUInt32] at h1
    exact hc.height (CCoins.not_isPruned_of_out hn) h1
  -- every other output was spent before
  have hother : ∀ i, i ≠ o.n → c.out i = CTxOut.null := by
    intro i hi
    have h := (CCoins.isPruned_iff _).mp hp i
    rw [hc.clean.out_spent hn, if_neg hi] at h
    exact hc.clean.out_eq_null h
  have hcanon : Lib.Canon CTxOut.isNull CTxOut.null (Lib.setAt CTxOut.null [] o.n (c.out o.n)) :=
    Lib.Canon.setAt (by simp [Lib.Canon]) _ (by simp [hn])
  simp only [CCoins.undoOf, hlen, ↓reduceIte, restoreCoins, restoreClean, ne_eq, hne, not_false_eq_true, and_true]
  refine CCoins.Clean.ext (CCoins.clean_cleanup hcanon) (hc.clean.withStake false) rfl rfl ?_ rfl fun i => ?_
  · exact Int32.toInt32_toUInt32 _
  · rw [CCoins.out_cleanup hcanon]
    show (Lib.setAt CTxOut.null [] o.n (c.out o.n)).getD i CTxOut.null = c.out i
    rw [Lib.getD_setAt]
    by_cases hi : i = o.n
    · simp [hi]
    · simp [hi, hother i hi]

theorem restoreCoins_part {c : CCoins} (hc : c.Good) {o : COutPoint} (hn : (c.out o.n).isNull = false)
    (hp : (c.spent o.n).isPruned = false) (b : Bool) :
    (restoreCoins (c.undoOf o.n) o ((c.spent o.n).withStake b)).cleanup = c.withStake b ∧
      restoreClean (c.undoOf o.n) o ((c.spent o.n).withStake b) = true := by
  have hlen : (c.spent o.n).vout.length ≠ 0 := by
    rw [Ne, (hc.clean.spent o.n).length_eq_zero, hp]
    simp
  have hcanon : Lib.Canon CTxOut.isNull CTxOut.null (Lib.setAt CTxOut.null (c.spent o.n).vout o.n (c.out o.n)) :=
    (hc.clean.spent o.n).canon.setAt _ (by simp [hn])
  have hav : ((c.spent o.n).withStake b).isAvailable o.n = false := by
    by_contra h
    rw [Bool.not_eq_false, CCoins.isAvailable_iff, CCoins.out_withStake, hc.clean.out_spent hn, if_pos rfl] at h
    exact absurd h.1 (by simp)
  simp only [CCoins.undoOf, hlen, ↓reduceIte, restoreCoins, restoreClean, ne_eq, not_true_eq_false]
  refine ⟨CCoins.Clean.ext (CCoins.clean_cleanup hcanon) (hc.clean.withStake b) rfl rfl rfl rfl fun i => ?_, ?_⟩
  · rw [CCoins.out_cleanup hcanon]
    show (Lib.setAt CTxOut.null (c.spent o.n).vout o.n (c.out o.n)).getD i CTxOut.null = c.out i
    rw [Lib.getD_setAt]
    by_cases hi : i = o.n
    · simp [hi]
    · rw [if_neg hi]
      show (c.spent o.n).out i = c.out i
      rw [hc.clean.out_spent hn, if_neg hi]
  · rw [hav, CCoins.isPruned_withStake, hp]
    rfl

theorem restoreInput_restored {v v₁ w : CoinsView} (hv : v.Good) {o : COutPoint} {undo : CTxInUndo}
    (h : v.spendInput o = some (undo, v₁)) {lost : Uint256 → Bool}
    (hw : ∀ x, Restored (lost x) (v₁.coins x) (w.coins x)) (b : Bool) :
    (restoreInput undo o (b, w)).1 = b ∧ ∀ x, Restored ((v₁.coins x).isPruned || lost x) (v.coins x)
      ((restoreInput undo o (b, w)).2.coins x) := by
  obtain ⟨hn, rfl, rfl⟩ := spendInput_some h
  have hc := hv o.hash
  have hnp := CCoins.not_isPruned_of_out hn
  have hself : (v.modifyCoins o.hash fun c => c.spent o.n).coins o.hash = (v.coins o.hash).spent o.n := by
    rw [modifyCoins_self, (hc.clean.spent o.n).cleanup_eq]
  have hwo := hw o.hash
  rw [hself] at hwo
  -- the entry of the input; every other entry is left alone by both
  suffices hentry : restoreClean ((v.coins o.hash).undoOf o.n) o (w.coins o.hash) = true ∧
      Restored (((v.coins o.hash).spent o.n).isPruned || lost o.hash) (v.coins o.hash)
        (restoreCoins ((v.coins o.hash).undoOf o.n) o (w.coins o.hash)).cleanup by
    refine ⟨by simp only [restoreInput]; rw [hentry.1, Bool.and_true], fun x => ?_⟩
    simp only [restoreInput]
    by_cases hx : x = o.hash
    · subst hx
      rw [hself, modifyCoins_self w]
      exact hentry.2
    · have hwx := (hw x).or_isPruned
      rw [modifyCoins_of_ne v _ hx] at hwx ⊢
      rw [modifyCoins_of_ne w _ hx]
      exact hwx
  cases hp : ((v.coins o.hash).spent o.n).isPruned with
  | true =>
    obtain ⟨hr, hcl⟩ := restoreCoins_last (d := w.coins o.hash) hc hn hp
    rw [hcl, hr]
    exact ⟨hwo.isPruned hp, by simp [Restored, hnp]⟩
  | false =>
    rw [hwo.eq hp]
    obtain ⟨hr, hcl⟩ := restoreCoins_part hc hn hp ((v.coins o.hash).fCoinStake && !lost o.hash)
    exact ⟨hcl, by rw [CCoins.spent_fCoinStake, hr]; simp [Restored, hnp]⟩

theorem restoreInputs_restored : ∀ {os : List COutPoint} {v v₁ w : CoinsView} {undos : CTxUndo}, v.Good →
    v.spendInputs os = some (undos, v₁) → ∀ {lost : Uint256 → Bool},
    (∀ x, Restored (lost x) (v₁.coins x) (w.coins x)) → ∀ b : Bool, ∃ w',
      restoreInputs os undos (b, w) = some (b, w') ∧
        ∀ x, Restored ((v₁.coins x).isPruned || lost x) (v.coins x) (w'.coins x)
  | [], v, v₁, w, undos, _, h, lost, hw, b => by
    cases h
    exact ⟨w, rfl, fun x => (hw x).or_isPruned⟩
  | o :: os, v, v₁, w, undos, hv, h, lost, hw, b => by
    obtain ⟨undo, rest, va, h₁, h₂, rfl⟩ := spendInputs_cons h
    have hva := spendInput_good hv h₁
    obtain ⟨w₁, hr, hw₁⟩ := restoreInputs_restored hva h₂ hw b
    obtain ⟨hb, hw₂⟩ := restoreInput_restored hv h₁ hw₁ b
    refine ⟨(restoreInput undo o (b, w₁)).2, ?_, fun x => ?_⟩
    · simp only [restoreInputs, hr, Option.map_some]
      exact congrArg some (Prod.ext hb rfl)
    · have hx := hw₂ x
      cases hp : (va.coins x).isPruned with
      | true => rw [hp] at hx; rw [spendInputs_isPruned hva h₂ hp]; exact hx
      | false => rw [hp] at hx; exact hx

/-! ## Undoing one transaction -/

theorem updateCoins_some {tx : CTransaction} {v v₂ : CoinsView} {nHeight : Int32} {txundo : CTxUndo}
    (h : updateCoins tx v nHeight = some (txundo, v₂)) : ∃ v₁, v.spendInputs tx.spends = some (txundo, v₁) ∧
      v₂ = v₁.modifyCoins tx.hash fun _ => CCoins.fromTx tx nHeight := by
  unfold updateCoins at h
  cases hs : v.spendInputs tx.spends with
  | none => rw [hs] at h; cases h
  | some r =>
    obtain ⟨undos, v₁⟩ := r
    rw [hs] at h
    cases h
    exact ⟨v₁, rfl, rfl⟩

theorem removeOutputs_snd (tx : CTransaction) (nHeight : Int32) (r : Bool × CoinsView) :
    (removeOutputs tx nHeight r).2 = r.2.modifyCoins tx.hash fun _ => CCoins.empty := rfl

theorem removeOutputs_restored {tx : CTransaction} {v₁ w : CoinsView} {nHeight : Int32} {lost : Uint256 → Bool}
    (hnn : ∀ o ∈ tx.vout, 0 ≤ o.nValue) (hp : (v₁.coins tx.hash).isPruned = true)
    (hw : ∀ x, Restored (lost x) ((v₁.modifyCoins tx.hash fun _ => CCoins.fromTx tx nHeight).coins x) (w.coins x))
    (b : Bool) :
    (removeOutputs tx nHeight (b, w)).1 =
        (b && ((CCoins.fromTx tx nHeight).isPruned || !(tx.isCoinStake && lost tx.hash))) ∧
      ∀ x, Restored (lost x) (v₁.coins x) ((removeOutputs tx nHeight (b, w)).2.coins x) := by
  have hclean := CCoins.clean_fromTx hnn nHeight
  have hself := hw tx.hash
  rw [modifyCoins_self, hclean.cleanup_eq] at hself
  refine ⟨?_, fun x => ?_⟩
  · unfold removeOutputs
    dsimp only
    congr 1
    cases hf : (CCoins.fromTx tx nHeight).isPruned with
    | true =>
      have hd : (w.coins tx.hash).clearUnspendable.isPruned = true := by
        rw [CCoins.clearUnspendable, CCoins.isPruned_cleanup]
        have hall := List.all_eq_true.mp (hself.isPruned hf)
        simp only [CCoins.isPruned, List.all_map, List.all_eq_true, Function.comp_apply]
        intro o ho
        split
        · rfl
        · exact hall o ho
      rw [Bool.true_or, CCoins.beq_of_isPruned _ hf]
      split <;> exact hd
    | false =>
      -- the entry is as the block made it, but for a lost `fCoinStake`
      have hd := hself.eq hf
      have hclear : (w.coins tx.hash).clearUnspendable = w.coins tx.hash := by
        rw [hd]
        exact CCoins.clearUnspendable_of_clean (hclean.withStake _) (CCoins.spendable_fromTx tx nHeight)
      have hver : (if (CCoins.fromTx tx nHeight).nVersion < 0 then
          { w.coins tx.hash with nVersion := (CCoins.fromTx tx nHeight).nVersion } else w.coins tx.hash) =
          w.coins tx.hash := by
        rw [hd]
        split <;> rfl
      rw [hclear, hver, hd, Bool.false_or, Bool.eq_iff_iff, CCoins.beq_true_iff (Or.inr hf),
        CCoins.withStake_eq_self]
      have hstake : (CCoins.fromTx tx nHeight).fCoinStake = tx.isCoinStake := rfl
      rw [hstake]
      cases tx.isCoinStake <;> cases lost tx.hash <;> simp
  · by_cases hx : x = tx.hash
    · subst hx
      refine restored_of_isPruned hp ?_
      rw [removeOutputs_snd, modifyCoins_self]
      rfl
    · have hwx := hw x
      rw [modifyCoins_of_ne _ _ hx] at hwx
      rw [removeOutputs_snd, modifyCoins_of_ne _ _ hx]
      exact hwx

theorem disconnectTx_restored {tx : CTransaction} {v v₁ w : CoinsView} {nHeight : Int32} {txundo : CTxUndo}
    {lost : Uint256 → Bool} (hv : v.Good) (hnn : ∀ o ∈ tx.vout, 0 ≤ o.nValue)
    (hp : (v.coins tx.hash).isPruned = true) (h₁ : v.spendInputs tx.spends = some (txundo, v₁))
    (hw : ∀ x, Restored (lost x) ((v₁.modifyCoins tx.hash fun _ => CCoins.fromTx tx nHeight).coins x) (w.coins x))
    (b : Bool) : ∃ w',
      disconnectTx tx txundo nHeight (b, w) =
        some (b && ((CCoins.fromTx tx nHeight).isPruned || !(tx.isCoinStake && lost tx.hash)), w') ∧
      ∀ x, Restored ((v₁.coins x).isPruned || lost x) (v.coins x) (w'.coins x) := by
  have hp₁ := spendInputs_isPruned hv h₁ hp
  obtain ⟨hb, hw₁⟩ := removeOutputs_restored hnn hp₁ hw b
  have hundo : (if tx.isCoinBase || tx.hasZerocoinSpendInputs then [] else txundo) = txundo := by
    split
    · rename_i hcb
      simp only [CTransaction.spends, hcb, ↓reduceIte, spendInputs] at h₁
      cases h₁
      rfl
    · rfl
  obtain ⟨w', hr, hw'⟩ := restoreInputs_restored hv h₁ hw₁ (removeOutputs tx nHeight (b, w)).1
  refine ⟨w', ?_, hw'⟩
  unfold disconnectTx
  rw [hundo, hr, hb]

/-! ## Undoing a block -/

/-- The transactions spend every unspent output of the coins `c` of txid `x`, which has one. -/
def Emptied (c : CCoins) (x : Uint256) (txs : List CTransaction) : Prop :=
  c.isPruned = false ∧ ∀ n, (c.out n).isNull = false → (⟨x, n⟩ : COutPoint) ∈ txs.flatMap CTransaction.spends

/-- No coinstake of the list loses its last unspent output to a later transaction of the list. -/
def KeepsOwnStakes (nHeight : Int32) : List CTransaction → Prop
  | [] => True
  | tx :: txs => (Emptied (CCoins.fromTx tx nHeight) tx.hash txs → tx.isCoinStake = false) ∧
      KeepsOwnStakes nHeight txs

theorem connectTxs_cons {v v'' : CoinsView} {nHeight : Int32} {tx : CTransaction} {txs : List CTransaction}
    {undos : CBlockUndo} (h : connectTxs v nHeight (tx :: txs) = some (undos, v'')) : ∃ txundo rest v₁,
      acceptTx v tx = true ∧ v.spendInputs tx.spends = some (txundo, v₁) ∧ undos = txundo :: rest ∧
      connectTxs (v₁.modifyCoins tx.hash fun _ => CCoins.fromTx tx nHeight) nHeight txs = some (rest, v'') := by
  simp only [connectTxs] at h
  split at h
  · rename_i hacc
    cases hu : updateCoins tx v nHeight with
    | none => rw [hu] at h; cases h
    | some r =>
      obtain ⟨txundo, v'⟩ := r
      obtain ⟨v₁, h₁, rfl⟩ := updateCoins_some hu
      rw [hu] at h
      simp only at h
      cases hr : connectTxs (v₁.modifyCoins tx.hash fun _ => CCoins.fromTx tx nHeight) nHeight txs with
      | none => rw [hr] at h; cases h
      | some r' =>
        obtain ⟨rest, v''⟩ := r'
        rw [hr] at h
        cases h
        exact ⟨txundo, rest, v₁, hacc, h₁, rfl, hr⟩
  · cases h

theorem acceptTx_iff {v : CoinsView} {tx : CTransaction} : acceptTx v tx = true ↔
    (v.coins tx.hash).isPruned = true ∧ tx.containsZerocoins = false ∧ v.haveInputs tx = true ∧
      (tx.vin.map CTxIn.prevout).Nodup ∧ ∃ a, tx.getValueOut = some a := by
  simp [acceptTx, Option.isSome_iff_exists, and_assoc]

theorem emptied_cons {v v₁ : CoinsView} (hv : v.Good) {tx : CTransaction} {txs : List CTransaction}
    {txundo : CTxUndo} (h₁ : v.spendInputs tx.spends = some (txundo, v₁)) {x : Uint256}
    (hx : (v.coins x).isPruned = false) : Emptied (v.coins x) x (tx :: txs) ↔
      (v₁.coins x).isPruned = true ∨ Emptied (v₁.coins x) x txs := by
  have hout := spendInputs_out hv h₁ x
  constructor
  · rintro ⟨-, h⟩
    cases hp : (v₁.coins x).isPruned with
    | true => exact Or.inl rfl
    | false =>
      refine Or.inr ⟨hp, fun n hn => ?_⟩
      rw [hout] at hn
      split at hn
      · simp at hn
      · rename_i hmem
        have := h n hn
        rw [List.flatMap_cons, List.mem_append] at this
        exact this.resolve_left hmem
  · intro h
    refine ⟨hx, fun n hn => ?_⟩
    rw [List.flatMap_cons, List.mem_append]
    by_contra hmem
    rw [not_or] at hmem
    have hn₁ : ((v₁.coins x).out n).isNull = false := by rw [hout, if_neg hmem.1]; exact hn
    rcases h with h | h
    · rw [(CCoins.isPruned_iff _).mp h n] at hn₁
      cases hn₁
    · exact hmem.2 (h.2 n hn₁)

/-- The transactions change the view one after the other, and leave their undo data. -/
inductive Applied (nHeight : Int32) : List CTransaction → CoinsView → CBlockUndo → CoinsView → Prop
  | nil (v : CoinsView) : Applied nHeight [] v [] v
  | cons {tx : CTransaction} {txs : List CTransaction} {v v₁ v' : CoinsView} {txundo : CTxUndo} {rest : CBlockUndo}
      {a : Int} (hp : (v.coins tx.hash).isPruned = true) (hval : tx.getValueOut = some a)
      (h₁ : v.spendInputs tx.spends = some (txundo, v₁))
      (hrest : Applied nHeight txs (v₁.modifyCoins tx.hash fun _ => CCoins.fromTx tx nHeight) rest v') :
      Applied nHeight (tx :: txs) v (txundo :: rest) v'

theorem Applied.cons_inv {nHeight : Int32} {tx : CTransaction} {txs : List CTransaction} {v v' : CoinsView}
    {undos : CBlockUndo} (h : Applied nHeight (tx :: txs) v undos v') : ∃ txundo rest v₁ a,
      (v.coins tx.hash).isPruned = true ∧ tx.getValueOut = some a ∧ v.spendInputs tx.spends = some (txundo, v₁) ∧
      undos = txundo :: rest ∧ Applied nHeight txs (v₁.modifyCoins tx.hash fun _ => CCoins.fromTx tx nHeight) rest v' := by
  cases h with
  | cons hp hval h₁ hrest => exact ⟨_, _, _, _, hp, hval, h₁, rfl, hrest⟩

theorem applied_of_connectTxs {nHeight : Int32} : ∀ {txs : List CTransaction} {v v' : CoinsView} {undos : CBlockUndo},
    connectTxs v nHeight txs = some (undos, v') → Applied nHeight txs v undos v'
  | [], v, _, _, h => by
    cases h
    exact .nil v
  | tx :: txs, _, _, _, h => by
    obtain ⟨txundo, rest, v₁, hacc, h₁, rfl, hrest⟩ := connectTxs_cons h
    obtain ⟨hp, -, -, -, a, hval⟩ := acceptTx_iff.mp hacc
    exact .cons hp hval h₁ (applied_of_connectTxs hrest)

/-- **The round trip of a list of transactions.** Entries come back without `fCoinStake` exactly when the transactions
empty them, and the entries compare clean exactly when no coinstake of the list is emptied. -/
theorem disconnect_connect {nHeight : Int32} (hH : nHeight ≠ 0) {u : CoinsView} : ∀ {txs : List CTransaction}
    {v v' : CoinsView} {undos : CBlockUndo}, v.Good → Applied nHeight txs v undos v' →
    (∀ x, Restored false (v'.coins x) (u.coins x)) → ∃ (b : Bool) (w : CoinsView) (lost : Uint256 → Bool),
      disconnectTxs nHeight txs undos (true, u) = some (b, w) ∧
      (b = true ↔ KeepsOwnStakes nHeight txs) ∧ (∀ x, Restored (lost x) (v.coins x) (w.coins x)) ∧
      ∀ x, (v.coins x).isPruned = false → (lost x = true ↔ Emptied (v.coins x) x txs)
  | [], v, v', undos, _, h, hu => by
    cases h
    refine ⟨true, u, fun _ => false, rfl, by simp [KeepsOwnStakes], hu, fun x hx => ?_⟩
    simp only [Bool.false_eq_true, false_iff]
    rintro ⟨-, he⟩
    have hall : (v.coins x).isPruned = true := by
      rw [CCoins.isPruned_iff]
      intro n
      by_contra hn
      have := he n (by simpa using hn)
      simp at this
    rw [hall] at hx
    cases hx
  | tx :: txs, v, v', undos, hv, h, hu => by
    obtain ⟨txundo, rest, v₁, a, hp, hval, h₁, rfl, hrest⟩ := h.cons_inv
    have hnn := CTransaction.nonneg_of_getValueOut hval
    have hfrom := CCoins.clean_fromTx hnn nHeight
    have hp₁ := spendInputs_isPruned hv h₁ hp
    have hself : (v₁.modifyCoins tx.hash fun _ => CCoins.fromTx tx nHeight).coins tx.hash =
        CCoins.fromTx tx nHeight := by rw [modifyCoins_self, hfrom.cleanup_eq]
    have hv₂ : (v₁.modifyCoins tx.hash fun _ => CCoins.fromTx tx nHeight).Good :=
      (spendInputs_good hv h₁).modifyCoins _ ⟨hfrom, fun _ => hH⟩
    obtain ⟨b, w, lost, hd, hb, hw, hl⟩ := disconnect_connect hH hv₂ hrest hu
    obtain ⟨w', hd', hw'⟩ := disconnectTx_restored hv hnn hp h₁ hw b
    refine ⟨_, w', _, by simp only [disconnectTxs, hd, Option.bind_some]; exact hd', ?_, hw', fun x hx => ?_⟩
    · -- the coinstake of this transaction is compared with the restored entry
      have hown : ((CCoins.fromTx tx nHeight).isPruned || !(tx.isCoinStake && lost tx.hash)) = true ↔
          (Emptied (CCoins.fromTx tx nHeight) tx.hash txs → tx.isCoinStake = false) := by
        cases hf : (CCoins.fromTx tx nHeight).isPruned with
        | true => simp [Emptied, hf]
        | false =>
          have hlx := hl tx.hash (by rw [hself, hf])
          rw [hself] at hlx
          rw [← hlx]
          cases tx.isCoinStake <;> cases lost tx.hash <;> simp
      rw [Bool.and_eq_true, hb, hown, KeepsOwnStakes]
      exact and_comm
    · rw [emptied_cons hv h₁ hx, Bool.or_eq_true]
      cases hpx : (v₁.coins x).isPruned with
      | true => simp
      | false =>
        -- an entry with something left is not the one the transaction adds
        have hne : x ≠ tx.hash := by rintro rfl; rw [hp₁] at hpx; cases hpx
        have hlx := hl x (by rw [modifyCoins_of_ne _ _ hne, hpx])
        rw [modifyCoins_of_ne _ _ hne] at hlx
        simp [hlx]

/-- The block empties no coinstake entry, neither of the view nor of its own. -/
def KeepsStakes (view : CoinsView) (nHeight : Int32) (txs : List CTransaction) : Prop :=
  (∀ x, Emptied (view.coins x) x txs → (view.coins x).fCoinStake = false) ∧ KeepsOwnStakes nHeight txs

theorem Restored.beq_iff {lost : Bool} {c d : CCoins} (h : Restored lost c d) :
    CCoins.beq d c = true ↔ (c.isPruned = false → lost = true → c.fCoinStake = false) := by
  cases hc : c.isPruned with
  | true => simp [CCoins.beq_of_isPruned (h.isPruned hc) hc]
  | false =>
    rw [CCoins.beq_true_iff (Or.inr hc), h.eq hc, CCoins.withStake_eq_self]
    cases c.fCoinStake <;> cases lost <;> simp

theorem connectCoins_some {block : CBlock} {nHeight : Int32} {view view' : CoinsView} {undo : CBlockUndo}
    (h : connectCoins block nHeight view = some (undo, view')) : ∃ tx txs v' undos, block.vtx = tx :: txs ∧
      tx.isCoinBase = true ∧ view.hashBlock = block.hashPrevBlock ∧
      connectTxs view nHeight block.vtx = some (undos, v') ∧ undo = undos.tail ∧
      view' = { v' with hashBlock := block.hash } := by
  unfold connectCoins at h
  cases hvtx : block.vtx with
  | nil => rw [hvtx] at h; cases h
  | cons tx txs =>
    rw [hvtx] at h
    simp only at h
    split at h
    · rename_i hcond
      simp only [Bool.and_eq_true, beq_iff_eq] at hcond
      cases hc : connectTxs view nHeight (tx :: txs) with
      | none => rw [hc] at h; cases h
      | some r =>
        obtain ⟨undos, v'⟩ := r
        rw [hc] at h
        cases h
        exact ⟨tx, txs, v', undos, rfl, hcond.1, hcond.2, rfl, rfl, rfl⟩
    · cases h

theorem disconnectBlock_eq {block : CBlock} {nHeight : Int32} {view : CoinsView} {tx : CTransaction}
    {txs : List CTransaction} {txundo : CTxUndo} {undos : CBlockUndo} (hvtx : block.vtx = tx :: txs)
    (hcb : tx.isCoinBase = true) (hview : view.hashBlock = block.hash) {fClean : Bool} {w : CoinsView}
    (h : disconnectTxs nHeight block.vtx (txundo :: undos) (true, view) = some (fClean, w)) :
    disconnectBlock block nHeight view undos = some (fClean, { w with hashBlock := block.hashPrevBlock }) := by
  -- the undo data of a coinbase is not looked at
  have hfirst : disconnectTx tx txundo nHeight = disconnectTx tx [] nHeight := by
    funext r
    simp [disconnectTx, hcb]
  rw [hvtx, disconnectTxs, hfirst] at h
  simp only [disconnectBlock, hvtx, hview, hcb, Bool.true_or, beq_self_eq_true, Bool.and_self, ↓reduceIte, h]

/-- **Disconnecting undoes connecting, exactly for blocks that empty no coinstake entry.** The result is clean and
every txid has the coins it had. -/
theorem disconnectBlock_undoes_iff {view : CoinsView} (hview : view.Good) {nHeight : Int32} (hH : nHeight ≠ 0)
    {block : CBlock} {undo : CBlockUndo} {view' : CoinsView}
    (h : connectCoins block nHeight view = some (undo, view')) :
    (∃ w, disconnectBlock block nHeight view' undo = some (true, w) ∧
      ∀ txid, CCoins.beq (w.coins txid) (view.coins txid) = true) ↔ KeepsStakes view nHeight block.vtx := by
  obtain ⟨tx, txs, v', undos, hvtx, hcb, hprev, hc, rfl, rfl⟩ := connectCoins_some h
  obtain ⟨fClean, w, lost, hd, hclean, hw, hlost⟩ :=
    disconnect_connect (u := { v' with hashBlock := block.hash }) hH hview (applied_of_connectTxs hc) fun _ => restored_refl _
  obtain ⟨txundo, rest, hundos⟩ : ∃ txundo rest, undos = txundo :: rest := by
    rw [hvtx] at hc
    obtain ⟨txundo, rest, _, -, -, hu, -⟩ := connectTxs_cons hc
    exact ⟨txundo, rest, hu⟩
  subst hundos
  have hdis := disconnectBlock_eq hvtx hcb rfl hd
  rw [List.tail_cons, hdis]
  -- what is lost of the entry of a txid
  have hentry : ∀ txid, CCoins.beq (w.coins txid) (view.coins txid) = true ↔
      (Emptied (view.coins txid) txid block.vtx → (view.coins txid).fCoinStake = false) := by
    intro txid
    rw [(hw txid).beq_iff]
    constructor
    · intro hb he
      exact hb he.1 ((hlost txid he.1).mpr he)
    · intro hb hp hl
      exact hb ((hlost txid hp).mp hl)
  constructor
  · rintro ⟨w', hw', hbeq⟩
    simp only [Option.some.injEq, Prod.mk.injEq] at hw'
    obtain ⟨hf, rfl⟩ := hw'
    exact ⟨fun x => (hentry x).mp (hbeq x), hclean.mp hf⟩
  · rintro ⟨hk, hown⟩
    rw [hclean.mpr hown]
    exact ⟨_, rfl, fun x => (hentry x).mpr (hk x)⟩

/-- A view with one entry: a coinstake with its marker and an output that anyone can spend. -/
def stakeView : CoinsView where
  coins := Function.update (fun _ => CCoins.empty) 7
    ⟨false, true, [⟨0, ([] : List UInt8), -10⟩, ⟨10 * COIN, [0x51], -10⟩], 1, 1⟩
  hashBlock := 1

/-- A coinbase, and a transaction that spends the outputs `ns` of the coinstake of `stakeView`. -/
def stakeSpendBlock (ns : List Nat) : CBlock where
  hash := 2
  nVersion := 7
  hashPrevBlock := 1
  hashMerkleRoot := 0
  nTime := 0
  nBits := 0
  nNonce := 0
  vtx := [⟨8, 1, [⟨⟨0, 2 ^ 32 - 1⟩, ([0x52, 0x00] : List UInt8), 0⟩], [⟨0, [0x51], -10⟩], 0⟩,
    ⟨9, 1, ns.map fun n => ⟨⟨7, n⟩, ([0x51] : List UInt8), 0⟩, [⟨10 * COIN, [0x51], -10⟩], 0⟩]

theorem stakeView_good : stakeView.Good := by
  intro h
  by_cases hh : h = 7
  · subst hh
    refine ⟨⟨rfl, fun o ho hn => ?_⟩, fun _ => by decide⟩
    revert o
    decide
  · simp only [stakeView, Function.update_of_ne hh]
    exact CCoins.good_empty

/-- A block that spends both outputs of a coinstake: the coins come back without `fCoinStake`. -/
theorem disconnectBlock_loses_fCoinStake : ¬ ∀ (view : CoinsView), view.Good → ∀ (nHeight : Int32), nHeight ≠ 0 →
    ∀ (block : CBlock) (undo : CBlockUndo) (view' : CoinsView),
    connectCoins block nHeight view = some (undo, view') →
    ∃ w, disconnectBlock block nHeight view' undo = some (true, w) ∧
      ∀ txid, CCoins.beq (w.coins txid) (view.coins txid) = true := by
  intro hall
  have hrun : ((connectCoins (stakeSpendBlock [0, 1]) 2 stakeView).bind fun r =>
      (disconnectBlock (stakeSpendBlock [0, 1]) 2 r.2 r.1).map fun q => CCoins.beq (q.2.coins 7) (stakeView.coins 7)) =
      some false := by decide
  cases hc : connectCoins (stakeSpendBlock [0, 1]) 2 stakeView with
  | none => rw [hc] at hrun; cases hrun
  | some r =>
    obtain ⟨undo, view'⟩ := r
    obtain ⟨w, hw, hbeq⟩ := hall stakeView stakeView_good 2 (by decide) _ undo view' hc
    rw [hc, Option.bind_some, hw, Option.map_some, hbeq 7] at hrun
    cases hrun

theorem keepsStakes_stakeSpendBlock : KeepsStakes stakeView 2 (stakeSpendBlock [1]).vtx := by
  refine ⟨fun x hx => ?_, fun _ => rfl, fun _ => rfl, trivial⟩
  by_cases hh : x = 7
  · subst hh
    exact absurd (hx.2 0 rfl) (by decide)
  · simp only [stakeView, Function.update_of_ne hh]
    rfl

/-- A block that leaves the marker unspent is undone. -/
theorem disconnectBlock_undoes_part : ∃ undo view' w, connectCoins (stakeSpendBlock [1]) 2 stakeView = some (undo, view') ∧
    disconnectBlock (stakeSpendBlock [1]) 2 view' undo = some (true, w) ∧
    ∀ txid, CCoins.beq (w.coins txid) (stakeView.coins txid) = true := by
  have hrun : (connectCoins (stakeSpendBlock [1]) 2 stakeView).isSome = true := by decide
  obtain ⟨⟨undo, view'⟩, hc⟩ := Option.isSome_iff_exists.mp hrun
  obtain ⟨w, hw⟩ := (disconnectBlock_undoes_iff stakeView_good (by decide) hc).mpr keepsStakes_stakeSpendBlock
  exact ⟨undo, view', w, hc, hw⟩

end DigiWage
