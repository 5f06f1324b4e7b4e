import DigiWage.Coins.Basic

/-!
# Coins views and the inputs of a transaction

A coins view shows `CCoins` for every txid; an absent txid shows the empty `CCoins()`. `modifyCoins` is `ModifyCoins`
followed by an edit and the destructor of `CCoinsModifier`, which cleans the entry up. `Coins/Cache.lean` shows that
the stack of caches of `coins.cpp` presents such a view.

`updateCoins` spends the inputs of a transaction and adds its outputs. The facts about the inputs needed later:

* the entries stay clean with non-zero heights (`spendInputs_good`);
* an output is unspent afterwards exactly when it was unspent and is no input (`spendInputs_out`).
-/

namespace DigiWage

/-- A coins view: what it shows for each txid, and its best block. -/
structure CoinsView where
  coins : Uint256 → CCoins
  hashBlock : Uint256

/-- `CTxUndo::vprevout`. -/
abbrev CTxUndo := List CTxInUndo

/-- `CBlockUndo::vtxundo`: for all but the coinbase. -/
abbrev CBlockUndo := List CTxUndo

namespace CoinsView

/-- `ModifyCoins`, an edit of the entry, and `~CCoinsModifier`. -/
def modifyCoins (view : CoinsView) (txid : Uint256) (edit : CCoins → CCoins) : CoinsView :=
  { view with coins := Function.update view.coins txid (edit (view.coins txid)).cleanup }

/-- `CCoinsViewCache::HaveInputs`, for a transaction without zerocoin spends. -/
def haveInputs (view : CoinsView) (tx : CTransaction) : Bool :=
  tx.isCoinBase || tx.vin.all fun txin => (view.coins txin.prevout.hash).isAvailable txin.prevout.n

@[simp] theorem modifyCoins_hashBlock (view : CoinsView) (txid : Uint256) (edit : CCoins → CCoins) :
    (view.modifyCoins txid edit).hashBlock = view.hashBlock := rfl

theorem modifyCoins_self (view : CoinsView) (txid : Uint256) (edit : CCoins → CCoins) :
    (view.modifyCoins txid edit).coins txid = (edit (view.coins txid)).cleanup := by
  simp [modifyCoins]

theorem modifyCoins_of_ne (view : CoinsView) {txid h : Uint256} (edit : CCoins → CCoins) (hne : h ≠ txid) :
    (view.modifyCoins txid edit).coins h = view.coins h := by
  simp [modifyCoins, hne]

/-- `inputs.ModifyCoins(prevout.hash)->Spend(prevout, undo)`; `none` when the assertion on its result fails. -/
def spendInput (view : CoinsView) (o : COutPoint) : Option (CTxInUndo × CoinsView) :=
  match (view.coins o.hash).spend o with
  | none => none
  | some (undo, c) => some (undo, view.modifyCoins o.hash fun _ => c)

/-- The loop of `UpdateCoins` over the inputs. -/
def spendInputs (view : CoinsView) : List COutPoint → Option (CTxUndo × CoinsView)
  | [] => some ([], view)
  | o :: os =>
    match view.spendInput o with
    | none => none
    | some (undo, view') =>
      match spendInputs view' os with
      | none => none
      | some (undos, view'') => some (undo :: undos, view'')

end CoinsView

/-- The outpoints that `UpdateCoins` spends: none for a coinbase or a zerocoin spend. -/
def CTransaction.spends (tx : CTransaction) : List COutPoint :=
  if tx.isCoinBase || tx.hasZerocoinSpendInputs then [] else tx.vin.map CTxIn.prevout

open CoinsView

def updateCoins (tx : CTransaction) (inputs : CoinsView) (nHeight : Int32) : Option (CTxUndo × CoinsView) :=
  match inputs.spendInputs tx.spends with
  | none => none
  | some (txundo, inputs') => some (txundo, inputs'.modifyCoins tx.hash fun _ => CCoins.fromTx tx nHeight)

/-! ## Views whose entries are in order -/

/-- Clean coins, with a non-zero height unless everything is spent. -/
structure CCoins.Good (c : CCoins) : Prop where
  clean : c.Clean
  height : c.isPruned = false → c.nHeight ≠ 0

/-- All entries are clean, and have non-zero heights unless they are pruned. -/
def CoinsView.Good (view : CoinsView) : Prop := ∀ h, (view.coins h).Good

theorem CCoins.good_empty : CCoins.empty.Good := ⟨clean_empty, fun h => by simp at h⟩

theorem CCoins.Good.spent {c : CCoins} (hc : c.Good) {n : Nat} (hn : (c.out n).isNull = false) : (c.spent n).Good :=
  ⟨hc.clean.spent n, fun _ => hc.height (not_isPruned_of_out hn)⟩

namespace CoinsView

/-- A clean edit keeps the entries in order. -/
theorem Good.modifyCoins {view : CoinsView} (hv : view.Good) (txid : Uint256) {edit : CCoins → CCoins}
    (he : (edit (view.coins txid)).Good) : (view.modifyCoins txid edit).Good := by
  intro h
  by_cases hh : h = txid
  · subst hh
    rw [modifyCoins_self, he.clean.cleanup_eq]
    exact he
  · rw [modifyCoins_of_ne _ _ hh]
    exact hv h

/-! ## Spending the inputs -/

theorem spendInput_some {view view' : CoinsView} {o : COutPoint} {undo : CTxInUndo}
    (h : view.spendInput o = some (undo, view')) : ((view.coins o.hash).out o.n).isNull = false ∧
      undo = (view.coins o.hash).undoOf o.n ∧ view' = view.modifyCoins o.hash fun c => c.spent o.n := by
  unfold spendInput at h
  cases hs : (view.coins o.hash).spend o with
  | none => rw [hs] at h; cases h
  | some r =>
    obtain ⟨hn, rfl⟩ := CCoins.spend_some_iff.mp hs
    rw [hs] at h
    cases h
    exact ⟨hn, rfl, rfl⟩

theorem spendInput_of_out {view : CoinsView} {o : COutPoint} (hn : ((view.coins o.hash).out o.n).isNull = false) :
    view.spendInput o = some ((view.coins o.hash).undoOf o.n, view.modifyCoins o.hash fun c => c.spent o.n) := by
  have hs := CCoins.spend_some_iff.mpr ⟨hn, rfl⟩
  simp [spendInput, hs]
  rfl

theorem spendInputs_cons {view view'' : CoinsView} {o : COutPoint} {os : List COutPoint} {undos : CTxUndo}
    (h : view.spendInputs (o :: os) = some (undos, view'')) : ∃ undo rest view',
      view.spendInput o = some (undo, view') ∧ view'.spendInputs os = some (rest, view'') ∧ undos = undo :: rest := by
  simp only [spendInputs] at h
  cases h₁ : view.spendInput o with
  | none => rw [h₁] at h; cases h
  | some r =>
    obtain ⟨undo, view'⟩ := r
    rw [h₁] at h
    simp only at h
    cases h₂ : view'.spendInputs os with
    | none => rw [h₂] at h; cases h
    | some r₂ =>
      obtain ⟨rest, w⟩ := r₂
      rw [h₂] at h
      cases h
      exact ⟨undo, rest, view', rfl, h₂, rfl⟩

theorem spendInput_out {view view' : CoinsView} (hv : view.Good) {o : COutPoint} {undo : CTxInUndo}
    (h : view.spendInput o = some (undo, view')) (x : Uint256) (i : Nat) :
    (view'.coins x).out i = if (⟨x, i⟩ : COutPoint) = o then CTxOut.null else (view.coins x).out i := by
  obtain ⟨hn, -, rfl⟩ := spendInput_some h
  by_cases hx : x = o.hash
  · subst hx
    rw [modifyCoins_self, ((hv _).clean.spent _).cleanup_eq, (hv _).clean.out_spent hn]
    cases o
    simp [COutPoint.mk.injEq]
  · rw [modifyCoins_of_ne _ _ hx, if_neg]
    rintro rfl
    exact hx rfl

theorem spendInput_good {view view' : CoinsView} (hv : view.Good) {o : COutPoint} {undo : CTxInUndo}
    (h : view.spendInput o = some (undo, view')) : view'.Good := by
  obtain ⟨hn, -, rfl⟩ := spendInput_some h
  exact hv.modifyCoins _ ((hv _).spent hn)

theorem spendInputs_good : ∀ {os : List COutPoint} {view view' : CoinsView} {undos : CTxUndo}, view.Good →
    view.spendInputs os = some (undos, view') → view'.Good
  | [], _, _, _, hv, h => by cases h; exact hv
  | o :: os, _, _, _, hv, h => by
    obtain ⟨_, _, _, h₁, h₂, -⟩ := spendInputs_cons h
    exact spendInputs_good (spendInput_good hv h₁) h₂

theorem spendInputs_out : ∀ {os : List COutPoint} {view view' : CoinsView} {undos : CTxUndo}, view.Good →
    view.spendInputs os = some (undos, view') → ∀ (x : Uint256) (i : Nat),
      (view'.coins x).out i = if (⟨x, i⟩ : COutPoint) ∈ os then CTxOut.null else (view.coins x).out i
  | [], _, _, _, _, h, x, i => by cases h; simp
  | o :: os, _, _, _, hv, h, x, i => by
    obtain ⟨_, _, _, h₁, h₂, -⟩ := spendInputs_cons h
    rw [spendInputs_out (spendInput_good hv h₁) h₂, spendInput_out hv h₁]
    by_cases ho : (⟨x, i⟩ : COutPoint) = o <;> by_cases hos : (⟨x, i⟩ : COutPoint) ∈ os <;> simp [ho, hos]

theorem spendInputs_isPruned {os : List COutPoint} {view view' : CoinsView} {undos : CTxUndo} (hv : view.Good)
    (h : view.spendInputs os = some (undos, view')) {x : Uint256} (hx : (view.coins x).isPruned = true) :
    (view'.coins x).isPruned = true := by
  rw [CCoins.isPruned_iff] at hx ⊢
  intro n
  rw [spendInputs_out hv h]
  split
  · rfl
  · exact hx n

theorem spendInputs_meta : ∀ {os : List COutPoint} {view view' : CoinsView} {undos : CTxUndo},
    view.spendInputs os = some (undos, view') → ∀ x, ∃ vout, view'.coins x = { view.coins x with vout := vout }
  | [], view, _, _, h, x => by
    cases h
    exact ⟨(view.coins x).vout, rfl⟩
  | o :: os, view, _, _, h, x => by
    obtain ⟨_, _, view₁, h₁, h₂, -⟩ := spendInputs_cons h
    obtain ⟨-, -, rfl⟩ := spendInput_some h₁
    obtain ⟨vout, hvout⟩ := spendInputs_meta h₂ x
    by_cases hx : x = o.hash
    · subst hx
      rw [modifyCoins_self] at hvout
      exact ⟨vout, hvout⟩
    · rw [modifyCoins_of_ne _ _ hx] at hvout
      exact ⟨vout, hvout⟩

theorem spendInputs_isSome : ∀ {os : List COutPoint} {view : CoinsView}, view.Good → os.Nodup →
    (∀ o ∈ os, ((view.coins o.hash).out o.n).isNull = false) → ∃ r, view.spendInputs os = some r
  | [], view, _, _, _ => ⟨([], view), rfl⟩
  | o :: os, view, hv, hnd, h => by
    have h₁ := spendInput_of_out (h o List.mem_cons_self)
    have hrest : ∀ o' ∈ os, (((view.modifyCoins o.hash fun c => c.spent o.n).coins o'.hash).out o'.n).isNull = false := by
      intro o' ho'
      have hne : o' ≠ o := fun e => (List.nodup_cons.mp hnd).1 (e ▸ ho')
      rw [spendInput_out hv h₁, if_neg hne]
      exact h o' (List.mem_cons_of_mem _ ho')
    obtain ⟨⟨undos, view''⟩, h₂⟩ := spendInputs_isSome (spendInput_good hv h₁) (List.nodup_cons.mp hnd).2 hrest
    exact ⟨((view.coins o.hash).undoOf o.n :: undos, view''), by simp only [spendInputs, h₁, h₂]⟩

end CoinsView

end DigiWage
