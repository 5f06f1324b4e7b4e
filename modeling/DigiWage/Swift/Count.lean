import DigiWage.Swift.Order
import Mathlib.Data.Set.Card

/-!
# Votes are counted once

`mapTxLockVote` drops a second vote of a masternode for a transaction, and the lock of the transaction has the votes that
were processed. The vote that the node itself casts is put into the map only, and a lock that is made again does not get
the votes that an older one left in the map.
-/

namespace DigiWage

open Lib

namespace SwiftTX

/-- A valid vote for the transaction is kept. -/
def Keeps (env : SwiftEnv) (s : SwiftTX) (h : Uint256) (v : CConsensusVote) : Prop :=
  (∃ k, s.mapTxLockVote k = some v) ∧ v.txHash = h ∧ env.isValidVote v = true

/-- The votes of each lock are the valid votes for its transaction that are kept, each once. -/
structure Counted (env : SwiftEnv) (s : SwiftTX) : Prop where
  kept : ∀ h lock, s.mapTxLocks.lookup h = some lock → ∀ v ∈ lock.vecConsensusVotes,
    v.txHash = h ∧ s.mapTxLockVote v.getHash = some v ∧ env.isValidVote v = true
  counted : ∀ h lock, s.mapTxLocks.lookup h = some lock → ∀ v, s.Keeps env h v → v ∈ lock.vecConsensusVotes
  once : ∀ h lock, s.mapTxLocks.lookup h = some lock → (lock.vecConsensusVotes.map CConsensusVote.masternode).Nodup

/-- No valid vote for the transaction is kept when its lock is made. -/
def MakesLock (env : SwiftEnv) (s : SwiftTX) (h : Uint256) : Prop :=
  s.mapTxLocks.lookup h = none → ∀ v, ¬ s.Keeps env h v

variable {env env' : SwiftEnv} {s s' : SwiftTX} {tx : CTransaction} {ctx : CConsensusVote} {h : Uint256} {now : Int}

theorem getHash_ne_of_kept {v : CConsensusVote} (hseen : s.seen ctx.getHash = false)
    (hkept : s.mapTxLockVote v.getHash = some v) : v.getHash ≠ ctx.getHash := by
  intro heq
  unfold seen at hseen
  rw [← heq, hkept] at hseen
  cases hseen

theorem masternode_ne_of_kept {v : CConsensusVote} (hseen : s.seen ctx.getHash = false) (htx : v.txHash = ctx.txHash)
    (hkept : s.mapTxLockVote v.getHash = some v) : v.masternode ≠ ctx.masternode := by
  intro heq
  apply getHash_ne_of_kept hseen hkept
  unfold CConsensusVote.getHash
  rw [heq, htx]

theorem keeps_of_update {k : Uint256} {v : CConsensusVote}
    (hk : Function.update s.mapTxLockVote ctx.getHash (some ctx) k = some v) : v = ctx ∨ s.mapTxLockVote k = some v := by
  by_cases hkey : k = ctx.getHash
  · rw [hkey, Function.update_self] at hk
    cases hk
    exact .inl rfl
  · rw [Function.update_of_ne hkey] at hk
    exact .inr hk

theorem Counted.of_invalid (hs : s.Counted env) (hseen : s.seen ctx.getHash = false)
    (hvalid : env.isValidVote ctx = false) :
    Counted env { s with mapTxLockVote := Function.update s.mapTxLockVote ctx.getHash (some ctx) } := by
  constructor
  · intro h lock hlock v hv
    obtain ⟨htx, hkept, hok⟩ := hs.kept h lock hlock v hv
    refine ⟨htx, ?_, hok⟩
    exact (Function.update_of_ne (getHash_ne_of_kept hseen hkept) _ _).trans hkept
  · rintro h lock hlock v ⟨⟨k, hk⟩, htx, hok⟩
    rcases keeps_of_update hk with rfl | hk
    · rw [hvalid] at hok
      cases hok
    · exact hs.counted h lock hlock v ⟨⟨k, hk⟩, htx, hok⟩
  · exact hs.once

theorem Counted.exists_voteLock (env' : SwiftEnv) (hs : s.Counted env) (hmakes : s.MakesLock env ctx.txHash) :
    ∃ vs, (s.voteLock env' ctx).vecConsensusVotes = vs ++ [ctx] ∧
      (∀ v ∈ vs, v.txHash = ctx.txHash ∧ s.mapTxLockVote v.getHash = some v ∧ env.isValidVote v = true) ∧
      (∀ v, s.Keeps env ctx.txHash v → v ∈ vs) ∧ (vs.map CConsensusVote.masternode).Nodup := by
  unfold voteLock CTransactionLock.addSignature
  cases hl : s.mapTxLocks.lookup ctx.txHash with
  | none =>
    refine ⟨[], rfl, fun v hv => ?_, fun v hv => absurd hv (hmakes hl v), List.nodup_nil⟩
    cases hv
  | some lock => exact ⟨lock.vecConsensusVotes, rfl, hs.kept _ lock hl, hs.counted _ lock hl, hs.once _ lock hl⟩

theorem withVote_lookup {lock' : CTransactionLock} (hlock' : (s.withVote env' ctx).mapTxLocks.lookup h = some lock') :
    h = ctx.txHash ∧ lock' = s.voteLock env' ctx ∨ h ≠ ctx.txHash ∧ s.mapTxLocks.lookup h = some lock' := by
  unfold withVote at hlock'
  by_cases hh : h = ctx.txHash
  · rw [hh, AList.lookup_insert] at hlock'
    cases hlock'
    exact .inl ⟨hh, rfl⟩
  · rw [AList.lookup_insert_ne hh] at hlock'
    exact .inr ⟨hh, hlock'⟩

theorem Keeps.of_withVote {v : CConsensusVote} (hv : (s.withVote env' ctx).Keeps env h v) :
    v = ctx ∧ h = ctx.txHash ∨ s.Keeps env h v := by
  obtain ⟨⟨k, hk⟩, htx, hok⟩ := hv
  rcases keeps_of_update hk with rfl | hk
  · exact .inl ⟨rfl, htx.symm⟩
  · exact .inr ⟨⟨k, hk⟩, htx, hok⟩

theorem Counted.withVote (env' : SwiftEnv) (hs : s.Counted env) (hseen : s.seen ctx.getHash = false)
    (hvalid : env.isValidVote ctx = true) (hmakes : s.MakesLock env ctx.txHash) : (s.withVote env' ctx).Counted env := by
  obtain ⟨vs, hvs, hkept, hcounted, honce⟩ := hs.exists_voteLock env' hmakes
  have hself : (s.withVote env' ctx).mapTxLockVote ctx.getHash = some ctx := Function.update_self _ _ _
  have hstill : ∀ v, s.mapTxLockVote v.getHash = some v → (s.withVote env' ctx).mapTxLockVote v.getHash = some v :=
    fun v hv => (Function.update_of_ne (getHash_ne_of_kept hseen hv) _ _).trans hv
  constructor
  · intro h lock' hlock' v hv
    rcases withVote_lookup hlock' with ⟨rfl, rfl⟩ | ⟨-, hlock⟩
    · rw [hvs] at hv
      rcases List.mem_append.mp hv with hv | hv
      · obtain ⟨htx, hk, hok⟩ := hkept v hv
        exact ⟨htx, hstill v hk, hok⟩
      · rw [List.mem_singleton.mp hv]
        exact ⟨rfl, hself, hvalid⟩
    · obtain ⟨htx, hk, hok⟩ := hs.kept h lock' hlock v hv
      exact ⟨htx, hstill v hk, hok⟩
  · intro h lock' hlock' v hv
    rcases withVote_lookup hlock' with ⟨rfl, rfl⟩ | ⟨hh, hlock⟩
    · rw [hvs]
      rcases hv.of_withVote with ⟨rfl, -⟩ | hv
      · exact List.mem_append_right _ List.mem_cons_self
      · exact List.mem_append_left _ (hcounted v hv)
    · rcases hv.of_withVote with ⟨-, heq⟩ | hv
      · exact absurd heq hh
      · exact hs.counted h lock' hlock v hv
  · intro h lock' hlock'
    rcases withVote_lookup hlock' with ⟨rfl, rfl⟩ | ⟨-, hlock⟩
    · rw [hvs, List.map_append]
      refine honce.append (List.nodup_singleton _) ?_
      intro m hm hm'
      obtain ⟨v, hv, hvm⟩ := List.mem_map.mp hm
      rw [List.map_singleton, List.mem_singleton] at hm'
      obtain ⟨htx, hk, -⟩ := hkept v hv
      exact masternode_ne_of_kept hseen htx hk (hvm.trans hm')
    · exact hs.once h lock' hlock

end SwiftTX

end DigiWage
