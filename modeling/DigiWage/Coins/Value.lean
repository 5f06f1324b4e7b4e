import DigiWage.Coins.Burned
import Mathlib.Algebra.BigOperators.Group.List.Basic
import Mathlib.Algebra.BigOperators.Fin
import Mathlib.Data.Fintype.BigOperators

/-!
# The value of a view

The sum of `nValue` over all unspent outputs of a coins view, and what `UpdateCoins` does to it.

* Spending an unspent output takes its value away (`value_spendInput`); spending distinct outputs takes away what they
  were worth in the view at the start (`value_spendInputs`).
* The coins of a new transaction are worth its outputs but for the unspendable ones (`value_fromTx`).
* `value_updateCoins` puts the two together. No condition on the view is needed.
-/

namespace DigiWage

/-- There are finitely many hashes. -/
noncomputable instance : Fintype Uint256 :=
  Fintype.ofEquiv (Fin (2 ^ 256)) ⟨BitVec.ofFin, BitVec.toFin, fun _ => rfl, fun _ => rfl⟩

/-- The value of an output, nothing for a spent one. -/
def CTxOut.worth (o : CTxOut) : Int := if o.isNull then 0 else o.nValue

/-- The value of the unspent outputs of an entry. -/
def CCoins.value (c : CCoins) : Int := (c.vout.map CTxOut.worth).sum

/-- The value of all unspent outputs of a view. -/
noncomputable def CoinsView.value (view : CoinsView) : Int := ∑ h, (view.coins h).value

theorem CTxOut.worth_of_not_isNull {o : CTxOut} (h : o.isNull = false) : o.worth = o.nValue := by simp [worth, h]

theorem CTxOut.worth_of_isNull {o : CTxOut} (h : o.isNull = true) : o.worth = 0 := by simp [worth, h]

theorem CTxOut.worth_of_nonneg {o : CTxOut} (h : 0 ≤ o.nValue) : o.worth = o.nValue := by
  refine worth_of_not_isNull ?_
  simp only [isNull, beq_eq_false_iff_ne]
  omega

namespace CCoins

/-! ## One entry -/

theorem value_cleanup (c : CCoins) : c.cleanup.value = c.value := by
  have h : ∀ l : List CTxOut, ((l.rdropWhile CTxOut.isNull).map CTxOut.worth).sum = (l.map CTxOut.worth).sum := by
    intro l
    induction l using List.reverseRecOn with
    | nil => rfl
    | append_singleton l o ih =>
      rw [List.rdropWhile_concat]
      split
      · rename_i ho
        rw [ih, List.map_append, List.sum_append, List.map_singleton, List.sum_singleton,
          CTxOut.worth_of_isNull ho, add_zero]
      · rfl
  exact h c.vout

theorem value_of_isPruned {c : CCoins} (h : c.isPruned = true) : c.value = 0 := by
  rw [isPruned, List.all_eq_true] at h
  refine List.sum_eq_zero fun x hx => ?_
  obtain ⟨o, ho, rfl⟩ := List.mem_map.mp hx
  exact CTxOut.worth_of_isNull (h o ho)

theorem worth_out_spent {c : CCoins} {n : Nat} (hn : (c.out n).isNull = false) (i : Nat) :
    ((c.spent n).out i).worth = if i = n then 0 else (c.out i).worth := by
  have hlt : n < c.vout.length := (List.getElem?_eq_some_iff.mp (getElem?_of_out hn)).1
  have h := Lib.map_getD_rdropWhile (p := CTxOut.isNull) (d := CTxOut.null) (f := CTxOut.worth)
    (fun o ho => (CTxOut.worth_of_isNull ho).trans (CTxOut.worth_of_isNull rfl).symm) (c.vout.set n CTxOut.null) i
  refine h.trans ?_
  rw [Lib.getD_set hlt]
  split
  · exact CTxOut.worth_of_isNull rfl
  · rfl

theorem value_spent {c : CCoins} {n : Nat} (hn : (c.out n).isNull = false) :
    (c.spent n).value = c.value - (c.out n).worth := by
  have hget := getElem?_of_out hn
  obtain ⟨hlt, heq⟩ := List.getElem?_eq_some_iff.mp hget
  unfold spent
  rw [value_cleanup]
  unfold value
  rw [List.map_set, List.sum_set']
  simp only [List.length_map, hlt, ↓reduceDIte, List.getElem_map, heq]
  rw [CTxOut.worth_of_isNull (o := CTxOut.null) rfl]
  omega

/-- The coins of a new transaction are worth its outputs but for the unspendable ones. -/
theorem value_fromTx {tx : CTransaction} (h : ∀ o ∈ tx.vout, 0 ≤ o.nValue) (nHeight : Int32) :
    (fromTx tx nHeight).value = (tx.vout.map CTxOut.nValue).sum - tx.unspendableValue := by
  unfold fromTx clearUnspendable
  rw [value_cleanup]
  unfold value CTransaction.unspendableValue
  dsimp only
  generalize tx.vout = l at h
  induction l with
  | nil => rfl
  | cons o l ih =>
    have ih := ih fun x hx => h x (List.mem_cons_of_mem _ hx)
    have ho := h o List.mem_cons_self
    simp only [List.map_cons, List.sum_cons]
    cases hu : o.scriptPubKey.isUnspendable with
    | true =>
      rw [List.filter_cons_of_pos (by simp [hu]), List.map_cons, List.sum_cons, if_pos rfl,
        CTxOut.worth_of_isNull (o := o.setNull) rfl]
      omega
    | false =>
      rw [List.filter_cons_of_neg (by simp [hu]), if_neg (by simp), CTxOut.worth_of_nonneg ho]
      omega

end CCoins

namespace CoinsView

/-! ## The view -/

/-- What the view shows at an outpoint is worth. -/
def worthAt (view : CoinsView) (o : COutPoint) : Int := ((view.coins o.hash).out o.n).worth

theorem value_modifyCoins (view : CoinsView) (txid : Uint256) (edit : CCoins → CCoins) :
    (view.modifyCoins txid edit).value =
      view.value - (view.coins txid).value + (edit (view.coins txid)).value := by
  have hrest : ∑ h ∈ Finset.univ \ {txid}, ((view.modifyCoins txid edit).coins h).value =
      ∑ h ∈ Finset.univ \ {txid}, (view.coins h).value := by
    refine Finset.sum_congr rfl fun h hh => ?_
    rw [modifyCoins_of_ne _ _ (by simpa using hh)]
  have hsplit : ∀ v : CoinsView, v.value = (v.coins txid).value + ∑ h ∈ Finset.univ \ {txid}, (v.coins h).value :=
    fun v => Finset.sum_eq_add_sum_sdiff_singleton_of_mem (Finset.mem_univ txid) _
  rw [hsplit (view.modifyCoins txid edit), hrest, modifyCoins_self, CCoins.value_cleanup, hsplit view]
  omega

theorem value_spendInput {view view' : CoinsView} {o : COutPoint} {undo : CTxInUndo}
    (h : view.spendInput o = some (undo, view')) : view'.value = view.value - view.worthAt o := by
  obtain ⟨hn, -, rfl⟩ := spendInput_some h
  rw [value_modifyCoins, CCoins.value_spent hn]
  unfold worthAt
  omega

theorem worthAt_spendInput {view view' : CoinsView} {o : COutPoint} {undo : CTxInUndo}
    (h : view.spendInput o = some (undo, view')) {o' : COutPoint} (hne : o' ≠ o) :
    view'.worthAt o' = view.worthAt o' := by
  obtain ⟨hn, -, rfl⟩ := spendInput_some h
  unfold worthAt
  by_cases hx : o'.hash = o.hash
  · have hn' : o'.n ≠ o.n := fun e => hne (by cases o; cases o'; simp_all)
    rw [hx, modifyCoins_self]
    have hc := Lib.map_getD_rdropWhile (p := CTxOut.isNull) (d := CTxOut.null) (f := CTxOut.worth)
      (fun o ho => (CTxOut.worth_of_isNull ho).trans (CTxOut.worth_of_isNull rfl).symm)
      ((view.coins o.hash).spent o.n).vout o'.n
    refine hc.trans ?_
    have := CCoins.worth_out_spent hn o'.n
    rw [if_neg hn'] at this
    exact this
  · rw [modifyCoins_of_ne _ _ hx]

theorem value_spendInputs : ∀ {os : List COutPoint} {view view' : CoinsView} {undos : CTxUndo},
    view.spendInputs os = some (undos, view') → os.Nodup → view'.value = view.value - (os.map view.worthAt).sum
  | [], _, _, _, h, _ => by
    cases h
    simp
  | o :: os, view, view'', _, h, hnd => by
    obtain ⟨_, _, view', h₁, h₂, -⟩ := spendInputs_cons h
    obtain ⟨hno, hnd⟩ := List.nodup_cons.mp hnd
    have hrest : os.map view'.worthAt = os.map view.worthAt :=
      List.map_congr_left fun o' ho' => worthAt_spendInput h₁ fun e => hno (e ▸ ho')
    rw [value_spendInputs h₂ hnd, hrest, value_spendInput h₁, List.map_cons, List.sum_cons]
    omega

theorem spendInputs_of_isPruned {x : Uint256} : ∀ {os : List COutPoint} {view view' : CoinsView} {undos : CTxUndo},
    view.spendInputs os = some (undos, view') → (view.coins x).isPruned = true → view'.coins x = view.coins x
  | [], _, _, _, h, _ => by
    cases h
    rfl
  | o :: os, view, _, _, h, hx => by
    obtain ⟨_, _, view', h₁, h₂, -⟩ := spendInputs_cons h
    obtain ⟨hn, -, rfl⟩ := spendInput_some h₁
    have hne : x ≠ o.hash := by
      rintro rfl
      rw [(CCoins.isPruned_iff _).mp hx o.n] at hn
      cases hn
    have hsame := modifyCoins_of_ne view (fun c => c.spent o.n) hne
    rw [spendInputs_of_isPruned h₂ (by rw [hsame]; exact hx), hsame]

/-- `UpdateCoins` takes the value of the inputs and adds that of the outputs but for the unspendable ones. -/
theorem value_updateCoins {tx : CTransaction} {view view' : CoinsView} {nHeight : Int32} {undo : CTxUndo}
    (h : updateCoins tx view nHeight = some (undo, view')) (hpruned : (view.coins tx.hash).isPruned = true)
    (hnd : tx.spends.Nodup) (hout : ∀ o ∈ tx.vout, 0 ≤ o.nValue) :
    view'.value = view.value - (tx.spends.map view.worthAt).sum +
      (tx.vout.map CTxOut.nValue).sum - tx.unspendableValue := by
  obtain ⟨view₁, h₁, rfl⟩ := updateCoins_some h
  have h0 : (view₁.coins tx.hash).value = 0 := by
    rw [spendInputs_of_isPruned h₁ hpruned]
    exact CCoins.value_of_isPruned hpruned
  rw [value_modifyCoins, h0, value_spendInputs h₁ hnd, CCoins.value_fromTx hout]
  omega

end CoinsView

end DigiWage
