import Mathlib.Data.List.Basic

/-!
# Ledgers

Transactions follow one another; each spends outputs and creates others. `unspentAfter` says which outputs are there and
not spent after some transactions.

* `unspentAfter_elim`: such an output was there before, or one of the transactions created it.
* `unspentAfter_of_not_spends`: when none of the transactions spends it, that is enough.
-/

namespace DigiWage.Lib

variable {T O : Type*}

/-- Which outputs are unspent after the transactions, for those that are before. -/
def unspentAfter (spends creates : T → O → Bool) : List T → (O → Bool) → O → Bool
  | [], before => before
  | tx :: txs, before => unspentAfter spends creates txs fun o => before o && !spends tx o || creates tx o

variable {spends creates : T → O → Bool} {o : O}

theorem unspentAfter_append : ∀ (txs txs' : List T) (before : O → Bool), unspentAfter spends creates (txs ++ txs') before =
    unspentAfter spends creates txs' (unspentAfter spends creates txs before)
  | [], _, _ => rfl
  | _ :: txs, txs', _ => unspentAfter_append txs txs' _

theorem unspentAfter_elim : ∀ (txs : List T) {before : O → Bool}, unspentAfter spends creates txs before o = true →
    before o = true ∨ ∃ tx ∈ txs, creates tx o = true
  | [], _, h => .inl h
  | tx :: txs, before, h => by
    rcases unspentAfter_elim txs h with h | ⟨tx', htx', h⟩
    · rw [Bool.or_eq_true, Bool.and_eq_true] at h
      rcases h with ⟨h, -⟩ | h
      · exact .inl h
      · exact .inr ⟨tx, List.mem_cons_self, h⟩
    · exact .inr ⟨tx', List.mem_cons_of_mem tx htx', h⟩

theorem unspentAfter_of_not_spends : ∀ (txs : List T) {before : O → Bool}, (∀ tx ∈ txs, spends tx o = false) →
    (before o = true ∨ ∃ tx ∈ txs, creates tx o = true) → unspentAfter spends creates txs before o = true
  | [], before, _, h => h.resolve_right fun ⟨_, htx, _⟩ => absurd htx List.not_mem_nil
  | tx :: txs, before, hspends, h => by
    refine unspentAfter_of_not_spends txs (fun tx' htx' => hspends tx' (List.mem_cons_of_mem tx htx')) ?_
    rw [hspends tx List.mem_cons_self, Bool.not_false, Bool.and_true, Bool.or_eq_true, or_assoc]
    rcases h with h | ⟨tx', htx', h⟩
    · exact .inl h
    · rcases List.mem_cons.mp htx' with rfl | htx'
      · exact .inr (.inl h)
      · exact .inr (.inr ⟨tx', htx', h⟩)

end DigiWage.Lib
