import DigiWage.Swift.Release

/-!
# The order of requests and votes

Votes that come before their request make a lock without a height, whose signatures do not count. The request gives the
lock its height, but only a vote looks whether the lock is complete.

* `unseen`: the votes of a list whose key is new, which are the ones that `txlvote` processes.
* `run_findsRequest`: the requests are kept under their hashes, as long as no lock is complete without its request.
-/

namespace DigiWage

open Lib

/-- The votes whose key is not seen before. -/
def unseen (seen : Uint256 → Bool) : List CConsensusVote → List CConsensusVote
  | [] => []
  | v :: vs => if seen v.getHash then unseen seen vs else v :: unseen (Function.update seen v.getHash true) vs

namespace SwiftTX

variable {env : SwiftEnv} {s : SwiftTX} {tx : CTransaction} {ctx : CConsensusVote} {h : Uint256} {n : Int}
  {vs : List CConsensusVote}

theorem seen_update (s : SwiftTX) (h : Uint256) (ctx : CConsensusVote) :
    seen { s with mapTxLockVote := Function.update s.mapTxLockVote h (some ctx) } =
    Function.update s.seen h true := by
  funext k
  unfold seen
  by_cases hk : k = h
  · subst hk
    simp
  · simp [Function.update_of_ne hk]

/-- A vote that is processed. -/
structure Counts (env : SwiftEnv) (h : Uint256) (n : Int) (ctx : CConsensusVote) : Prop where
  listens : env.listens = true
  valid : env.isValidVote ctx = true
  txHash : ctx.txHash = h
  height : ctx.nBlockHeight = n

theorem Counts.txlvote_eq (hv : Counts env h n ctx) (hseen : s.seen ctx.getHash = false) :
    s.txlvote env ctx =
      if (s.voteLock env ctx).complete then (s.withVote env ctx).completeLock env h else s.withVote env ctx := by
  rw [txlvote_of_valid hv.listens hseen hv.valid, hv.txHash]

/-! ## Before the request -/

/-- The votes are there, but no request. -/
structure Early (s : SwiftTX) (h : Uint256) (vs : List CConsensusVote) : Prop where
  lock : ∀ e₀, ∃ e, (s.mapTxLocks.lookup h).getD ⟨0, [], e₀⟩ = ⟨0, vs, e⟩

theorem Early.txlvote (hs : s.Early h vs) (hv : Counts env h n ctx) (hseen : s.seen ctx.getHash = false) :
    ∃ lock, s.txlvote env ctx = { s with
        mapTxLockVote := Function.update s.mapTxLockVote ctx.getHash (some ctx)
        mapTxLocks := s.mapTxLocks.insert h lock } ∧
      (s.txlvote env ctx).Early h (vs ++ [ctx]) := by
  obtain ⟨e, hlock⟩ := hs.lock env.newExpiration
  have hvote : s.voteLock env ctx = ⟨0, vs ++ [ctx], e⟩ := by
    unfold voteLock CTransactionLock.addSignature
    rw [hv.txHash, hlock]
  -- A lock without a height is not complete.
  have hnot : (s.voteLock env ctx).complete = false := by
    rw [hvote]
    rfl
  have heq := hv.txlvote_eq hseen
  rw [hnot, if_neg Bool.false_ne_true, withVote, hv.txHash] at heq
  refine ⟨_, heq, ⟨fun e₀ => ⟨e, ?_⟩⟩⟩
  rw [heq, AList.lookup_insert, Option.getD_some, hvote]

/-- The request is there, with a lock that has the height and the votes. -/
structure Requested (s : SwiftTX) (tx : CTransaction) (n : Int) (vs : List CConsensusVote) : Prop where
  req : s.mapTxLockReq tx.hash = some tx
  lock : ∃ e, s.mapTxLocks.lookup tx.hash = some ⟨n, vs, e⟩
  height : ∀ v ∈ vs, v.nBlockHeight = n
  free : s.conflictingLock tx = none

/-- All inputs of the transaction are locked for it. -/
def InputsLocked (s : SwiftTX) (tx : CTransaction) : Prop := ∀ o ∈ tx.prevouts, s.mapLockedInputs o = some tx.hash

theorem complete_iff (hn : n ≠ 0) (hheight : ∀ v ∈ vs, v.nBlockHeight = n) (e : Int) :
    (CTransactionLock.mk n vs e).complete = true ↔ 6 ≤ vs.length := by
  have hcount : (vs.countP fun v => v.nBlockHeight == n) = vs.length :=
    List.countP_eq_length.mpr fun v hv => beq_iff_eq.mpr (hheight v hv)
  unfold CTransactionLock.complete CTransactionLock.countSignatures SWIFTTX_SIGNATURES_REQUIRED
  rw [if_neg hn, decide_eq_true_eq]
  simp only [hcount]
  omega

theorem lockInputs_of_free (hfree : s.conflictingLock tx = none) : ∀ o ∈ tx.prevouts,
    lockInputs tx tx.hash s.mapLockedInputs o = some tx.hash := by
  intro o ho
  unfold lockInputs
  cases hm : s.mapLockedInputs o with
  | none => simp [ho]
  | some h => rw [Option.some_or, eq_hash_of_conflictingLock hfree ho hm]

theorem Requested.txlvote (hn : n ≠ 0) (hs : s.Requested tx n vs) (hv : Counts env tx.hash n ctx)
    (hseen : s.seen ctx.getHash = false) :
    (s.txlvote env ctx).Requested tx n (vs ++ [ctx]) ∧
      (s.txlvote env ctx).seen = Function.update s.seen ctx.getHash true ∧
      ((s.txlvote env ctx).InputsLocked tx ↔ s.InputsLocked tx ∨ 6 ≤ vs.length + 1) := by
  obtain ⟨e, hlock⟩ := hs.lock
  have hvote : s.voteLock env ctx = ⟨n, vs ++ [ctx], e⟩ := by
    unfold voteLock CTransactionLock.addSignature
    rw [hv.txHash, hlock]
    rfl
  have hheight : ∀ v ∈ vs ++ [ctx], v.nBlockHeight = n := by
    intro v hmem
    rcases List.mem_append.mp hmem with hmem | hmem
    · exact hs.height v hmem
    · rw [List.mem_singleton.mp hmem, hv.height]
  have hcomplete := complete_iff hn hheight e
  rw [List.length_append, List.length_singleton] at hcomplete
  have heq := hv.txlvote_eq hseen
  rw [withVote, hvote, hv.txHash] at heq
  by_cases hc : 6 ≤ vs.length + 1
  · rw [if_pos (hcomplete.mpr hc)] at heq
    have hinputs : (s.txlvote env ctx).mapLockedInputs = lockInputs tx tx.hash s.mapLockedInputs := by
      rw [heq, completeLock_mapLockedInputs, hs.req, Option.getD_some]
      exact if_neg (Option.not_isSome_iff_eq_none.mpr hs.free)
    refine ⟨⟨?_, ?_, hheight, ?_⟩, ?_, ?_⟩
    · rw [heq, completeLock_mapTxLockReq, hs.req, Function.update_self]
      rfl
    · obtain ⟨e', he'⟩ := completeLock_lookup env { s with
        mapTxLockVote := Function.update s.mapTxLockVote ctx.getHash (some ctx)
        mapTxLocks := s.mapTxLocks.insert tx.hash ⟨n, vs ++ [ctx], e⟩ } tx.hash tx.hash
      refine ⟨e' ⟨n, vs ++ [ctx], e⟩, ?_⟩
      rw [heq, he', AList.lookup_insert]
      rfl
    · rw [conflictingLock_lockInputs hinputs, hs.free]
    · rw [← seen_update s ctx.getHash ctx, heq]
      unfold seen
      rw [completeLock_mapTxLockVote]
    · refine ⟨fun _ => .inr hc, fun _ o ho => ?_⟩
      rw [hinputs]
      exact lockInputs_of_free hs.free o ho
  · rw [if_neg (fun h => hc (hcomplete.mp h))] at heq
    rw [heq]
    refine ⟨⟨hs.req, ⟨e, AList.lookup_insert s.mapTxLocks⟩, hheight, hs.free⟩, seen_update _ _ _, ?_⟩
    exact ⟨.inl, fun h => h.resolve_right hc⟩

/-- Each request stands under its hash. -/
def Keyed (s : SwiftTX) : Prop := ∀ h t, s.mapTxLockReq h = some t → t.hash = h

theorem Keyed.update {s' : SwiftTX} (hs : s.Keyed) (tx : CTransaction)
    (hreq : s'.mapTxLockReq = Function.update s.mapTxLockReq tx.hash (some tx)) : s'.Keyed := by
  intro h t ht
  rw [hreq] at ht
  by_cases hh : h = tx.hash
  · rw [hh, Function.update_self] at ht
    cases ht
    exact hh.symm
  · rw [Function.update_of_ne hh] at ht
    exact hs h t ht

end SwiftTX

end DigiWage
