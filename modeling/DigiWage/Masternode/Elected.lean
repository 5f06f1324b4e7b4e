import DigiWage.Lib.Ballot
import DigiWage.Lib.Run
import DigiWage.Masternode.Election
import DigiWage.Masternode.Winners

/-!
# The voters for a payee

The masternodes with the first ten ranks at a height vote for the payee of a block. `IsValid` and `CanVote` are to see to it
that nobody else votes, and nobody twice.

* `VoteNode` is a node that receives votes: `VoteNode.env` answers what `mnw` asks from its chain and its list.
-/

namespace DigiWage

open Lib

/-! ## The node -/

/-- A node with its chain and its list of masternodes. -/
structure VoteNode where
  rank : RankEnv
  sorts : KeySort Prod.fst rank.sort
  scores : ScoreState
  mnodeman : CMasternodeMan
  /-- `pfrom->nVersion`. -/
  peerVersion : Int
  isMessSigV2 : Int → Bool
  checkSignature : CMasternodePaymentWinner → Bool

namespace VoteNode

variable (node : VoteNode)

/-- `mnodeman.GetMasternodeRank` with `ActiveProtocol()`. -/
def getMasternodeRank (vin : CTxIn) (nBlockHeight : Int) : Int :=
  (node.rank.getMasternodeRank node.scores node.mnodeman vin nBlockHeight node.rank.node.minPaymentsProto true).1

/-- What the votes ask of the node. -/
def env : WinnerEnv where
  fLiteMode := node.rank.node.fLiteMode
  isBlockchainSynced := node.rank.node.isBlockchainSynced
  peerVersion := node.peerVersion
  activeProtocol := node.rank.node.minPaymentsProto
  tipHeight := if node.rank.node.lockMain then node.scores.chain.tip.map fun tip => (node.scores.chain.index.nHeight tip : Int)
    else none
  countEnabled := (node.mnodeman.vMasternodes.map fun mn => mn.check node.rank.node false).countP fun mn =>
    !decide (mn.protocolVersion < node.rank.node.minPaymentsProto) && mn.isEnabled
  size := node.mnodeman.vMasternodes.length
  isMessSigV2 := node.isMessSigV2
  protocolVersion vin := (node.mnodeman.find vin).map (·.protocolVersion)
  getMasternodeRank := node.getMasternodeRank
  checkSignature := node.checkSignature
  getBlockHash nBlockHeight := (node.scores.getBlockHash (int32 nBlockHeight)).1

/-- The masternodes that may vote for a block: those with the first ranks 100 blocks before. -/
def elected (nBlockHeight : Int) : List COutPoint :=
  (node.mnodeman.vMasternodes.filter fun mn =>
    let n := node.getMasternodeRank mn.vin (nBlockHeight - 100)
    decide (1 ≤ n) && decide (n ≤ MNPAYMENTS_SIGNATURES_TOTAL)).map (·.collateral)

end VoteNode

/-- A vote that a node receives, or its cleaning. -/
inductive VoteOp where
  | mnw (node : VoteNode) (winner : CMasternodePaymentWinner)
  | cleanPaymentList (node : VoteNode)

namespace CMasternodePaymentVotes

/-- The state of the node changes between the messages. -/
def receive (p : CMasternodePaymentVotes) : VoteOp → Option CMasternodePaymentVotes
  | .mnw node winner => some (p.mnw node.env winner)
  | .cleanPaymentList node => some (p.cleanPaymentList node.env)

/-- The votes recorded for a block. -/
def votesFor (p : CMasternodePaymentVotes) (nBlockHeight : Int) : List CMasternodePaymentWinner :=
  votes CMasternodePaymentWinner.nBlockHeight p.mapMasternodePayeeVotes nBlockHeight

/-- The masternodes that voted for a block, one for each vote. -/
def votersFor (p : CMasternodePaymentVotes) (nBlockHeight : Int) : List COutPoint :=
  (p.votesFor nBlockHeight).map (·.vinMasternode.prevout)

end CMasternodePaymentVotes

/-- The votes that `mapMasternodeBlocks` counts for a block. -/
def CMasternodePayments.countVotes (mp : CMasternodePayments) (nBlockHeight : Int) : Int :=
  match mp.mapMasternodeBlocks nBlockHeight with
  | none => 0
  | some b => (b.vecPayments.map (·.nVotes)).sum

/-! ## The count of the votes -/

theorem CMasternodeBlockPayees.sum_addVotes (payeeIn : CScript) (nIncrement : Int) (l : List CMasternodePayee) :
    ((addVotes payeeIn nIncrement l).map (·.nVotes)).sum = (l.map (·.nVotes)).sum + nIncrement := by
  induction l with
  | nil => simp [addVotes]
  | cons p l ih =>
    unfold addVotes
    split
    · simp
      omega
    · simp [ih]
      omega

theorem CMasternodePayments.countVotes_addWinningMasternode (mp : CMasternodePayments) (nBlockHeight : Int)
    (payee : CScript) (h : Int) : (mp.addWinningMasternode nBlockHeight payee).countVotes h =
      mp.countVotes h + if nBlockHeight = h then 1 else 0 := by
  unfold countVotes addWinningMasternode
  dsimp only
  by_cases heq : h = nBlockHeight
  · subst heq
    rw [Function.update_self, if_pos rfl]
    cases mp.mapMasternodeBlocks h with
    | none => exact CMasternodeBlockPayees.sum_addVotes payee 1 []
    | some b => exact CMasternodeBlockPayees.sum_addVotes payee 1 b.vecPayments
  · rw [Function.update_of_ne heq, if_neg fun h' => heq h'.symm, Int.add_zero]

namespace VoteNode

variable {node : VoteNode} {vin : CTxIn} {h : Int}

theorem of_getMasternodeRank (hrank : node.getMasternodeRank vin h ≠ -1) :
    1 ≤ node.getMasternodeRank vin h ∧ ∃ mn ∈ node.mnodeman.vMasternodes, mn.collateral = vin.prevout := by
  unfold getMasternodeRank at hrank ⊢
  rw [RankEnv.getMasternodeRank_fst] at hrank ⊢
  cases hx : (node.scores.getBlockHash (int32 h)).1 with
  | none => simp [hx] at hrank
  | some hash =>
    rw [hx] at hrank
    simp only [Option.map_some, Option.getD_some] at hrank ⊢
    unfold RankEnv.rankOf at hrank ⊢
    split at hrank
    · simp at hrank
    · rename_i i hi
      obtain ⟨hlt, hvin, -⟩ := List.findIdx?_eq_some_iff_getElem.mp hi
      have hmem := (node.sorts.perm _).mem_iff.mp (List.getElem_mem hlt)
      obtain ⟨mn, hmn, hscore⟩ := List.mem_filterMap.mp hmem
      refine ⟨by omega, mn, hmn, ?_⟩
      rw [← of_decide_eq_true hvin, RankEnv.scoreOf_vin hscore]

theorem getMasternodeRank_congr {vin' : CTxIn} (hvin : vin'.prevout = vin.prevout) :
    node.getMasternodeRank vin' h = node.getMasternodeRank vin h := by
  unfold getMasternodeRank
  simp only [RankEnv.getMasternodeRank_fst, RankEnv.rankOf, hvin]

theorem mem_elected (hrank : node.getMasternodeRank vin (h - 100) ≠ -1)
    (htop : node.getMasternodeRank vin (h - 100) ≤ MNPAYMENTS_SIGNATURES_TOTAL) : vin.prevout ∈ node.elected h := by
  obtain ⟨hpos, mn, hmn, hcol⟩ := of_getMasternodeRank hrank
  refine List.mem_map.mpr ⟨mn, List.mem_filter.mpr ⟨hmn, ?_⟩, hcol⟩
  rw [getMasternodeRank_congr hcol]
  simp [hpos, htop]

end VoteNode

/-! ## Runs -/

namespace CMasternodePaymentVotes

variable {r node : VoteNode} {p p' : CMasternodePaymentVotes} {winner : CMasternodePaymentWinner} {op : VoteOp}

/-- A vote that is counted is by a masternode with a rank, the same as for the node at the end, that has not voted for the
block before its last vote. -/
def ByElected (r : VoteNode) (p : CMasternodePaymentVotes) : VoteOp → Prop
  | .mnw node winner => p.considers node.env winner = true → node.checkSignature winner = true →
    node.getMasternodeRank winner.vinMasternode (winner.nBlockHeight - 100) ≠ -1 ∧
    r.getMasternodeRank winner.vinMasternode (winner.nBlockHeight - 100) =
      node.getMasternodeRank winner.vinMasternode (winner.nBlockHeight - 100) ∧
    (winner.vinMasternode.prevout ∈ p.votersFor winner.nBlockHeight →
      p.mapMasternodesLastVote winner.vinMasternode.prevout = some winner.nBlockHeight)
  | .cleanPaymentList _ => True

instance (r : VoteNode) (p : CMasternodePaymentVotes) : ∀ op, Decidable (ByElected r p op)
  | .mnw _ _ => inferInstanceAs (Decidable (_ → _ → _))
  | .cleanPaymentList _ => isTrue trivial

/-- The votes that are counted are those recorded, by distinct elected masternodes. -/
structure Counted (r : VoteNode) (p : CMasternodePaymentVotes) : Prop where
  count : ∀ h, p.countVotes h = (p.votesFor h).length
  fair : Fair CMasternodePaymentWinner.nBlockHeight (·.vinMasternode.prevout) r.elected p.mapMasternodePayeeVotes

theorem Counted.empty : Counted r .empty := ⟨fun _ => rfl, Fair.empty⟩

theorem Counted.voted (h : Counted r p) : Counted r (p.voted winner) := ⟨h.count, h.fair⟩

theorem Counted.addVote (h : Counted r p) (honce : winner.vinMasternode.prevout ∉ p.votersFor winner.nBlockHeight)
    (helected : winner.vinMasternode.prevout ∈ r.elected winner.nBlockHeight) :
    Counted r (p.addVote node.env winner) := by
  unfold CMasternodePaymentVotes.addVote
  split_ifs with hhash hseen
  · exact h
  · exact h
  · have hnew : winner.getHash ∉ p.mapMasternodePayeeVotes := by
      rw [← AList.lookup_eq_none]
      simpa using hseen
    refine ⟨fun k => ?_, h.fair.insert hnew honce helected⟩
    unfold votesFor
    rw [votes_insert hnew]
    refine (p.countVotes_addWinningMasternode _ _ k).trans ?_
    rw [h.count]
    unfold votesFor
    split_ifs
    · simp
    · simp

theorem rank_le_of_considers (hconsiders : p.considers node.env winner = true) :
    node.getMasternodeRank winner.vinMasternode (winner.nBlockHeight - 100) ≤ MNPAYMENTS_SIGNATURES_TOTAL := by
  unfold considers at hconsiders
  obtain ⟨nHeight, -, hacc⟩ := (Option.any_eq_true _ _).mp hconsiders
  have hvalid : node.env.isValid winner = true := by
    simp only [WinnerEnv.isAcceptable, Bool.and_eq_true] at hacc
    exact hacc.2.2
  unfold WinnerEnv.isValid at hvalid
  split at hvalid
  · cases hvalid
  · simp at hvalid
    exact hvalid.2

theorem Counted.mnw (h : Counted r p) (hby : ByElected r p (.mnw node winner)) : Counted r (p.mnw node.env winner) := by
  rw [mnw_eq]
  split_ifs with hconsiders hlast hsig
  · exact h
  · exact h.voted
  · exact h.voted
  · have hconsiders : p.considers node.env winner = true := by simpa using hconsiders
    obtain ⟨hrank, hsame, honce⟩ := hby hconsiders (by simpa [VoteNode.env] using hsig)
    apply h.voted.addVote
    · intro hvoter
      exact hlast (honce hvoter)
    · apply VoteNode.mem_elected
      · rwa [hsame]
      · rw [hsame]
        exact rank_le_of_considers hconsiders

theorem Counted.cleanPaymentList (h : Counted r p) : Counted r (p.cleanPaymentList node.env) := by
  unfold CMasternodePaymentVotes.cleanPaymentList
  split
  · exact h
  · rename_i nHeight _
    refine ⟨fun k => ?_, h.fair.clean fun nBlockHeight => decide (_ < nHeight - nBlockHeight)⟩
    have hvotes := votes_clean CMasternodePaymentWinner.nBlockHeight p.mapMasternodePayeeVotes
      (fun nBlockHeight => decide (max (((node.env.size * 5 / 4 : Nat) : Int)) 1000 < nHeight - nBlockHeight)) k
    have hcount := h.count k
    unfold votesFor at hcount ⊢
    rw [hvotes]
    unfold CMasternodePayments.countVotes at hcount ⊢
    dsimp only
    by_cases hany : (p.mapMasternodePayeeVotes.entries.any fun e =>
        decide (max (((node.env.size * 5 / 4 : Nat) : Int)) 1000 < nHeight - e.2.nBlockHeight) &&
          e.2.nBlockHeight == k) = true
    · obtain ⟨e, he, hold⟩ := List.any_eq_true.mp hany
      simp only [Bool.and_eq_true, beq_iff_eq] at hold
      obtain ⟨hold, rfl⟩ := hold
      rw [if_pos hany, if_pos hold]
      rfl
    · rw [if_neg hany, hcount]
      split
      · rename_i hold
        -- No vote for the old block is recorded.
        have hnone : votes CMasternodePaymentWinner.nBlockHeight p.mapMasternodePayeeVotes k = [] := by
          unfold votes
          rw [List.map_eq_nil_iff, List.filter_eq_nil_iff]
          intro e he hk
          apply hany
          rw [List.any_eq_true]
          refine ⟨e, he, ?_⟩
          rw [of_decide_eq_true hk, hold]
          simp
        rw [hnone]
      · rfl

theorem Counted.receive (h : Counted r p) (hby : ByElected r p op) (heq : p.receive op = some p') : Counted r p' := by
  cases op with
  | mnw node winner =>
    cases heq
    exact h.mnw hby
  | cleanPaymentList node =>
    cases heq
    exact h.cleanPaymentList

/-- The votes that are counted for a block are at most as many as the elected masternodes, and each of these votes once. -/
theorem votes_once_elected (r : VoteNode) (ops : List VoteOp) (p : CMasternodePaymentVotes)
    (hmeets : Meets receive (ByElected r) .empty ops) (hrun : ops.foldlM receive .empty = some p) (h : Int) :
    p.countVotes h ≤ (r.elected h).length ∧ p.countVotes h = (p.votersFor h).length ∧ (p.votersFor h).Nodup ∧
      ∀ o ∈ p.votersFor h, o ∈ r.elected h := by
  have hcounted : Counted r p := hmeets.keeps (fun _ _ _ hp hby heq => hp.receive hby heq) Counted.empty hrun
  have hlength : (p.votersFor h).length = (p.votesFor h).length := List.length_map ..
  refine ⟨?_, ?_, hcounted.fair.once h, fun o ho => ?_⟩
  · rw [hcounted.count]
    exact_mod_cast hcounted.fair.length_le h
  · rw [hcounted.count, hlength]
  · obtain ⟨winner, hwinner, rfl⟩ := List.mem_map.mp ho
    exact hcounted.fair.elected h winner hwinner

/-- A node with the first masternodes of the sample list. -/
def sampleVoteNode (n : Nat) : VoteNode where
  rank := (QueueEnv.sampleQueue 240).toRankEnv
  sorts := keySort_insertionSort Prod.fst
  scores := QueueEnv.sampleChain
  mnodeman := { QueueEnv.sampleList with vMasternodes := QueueEnv.sampleList.vMasternodes.take n }
  peerVersion := 70915
  isMessSigV2 _ := false
  checkSignature winner := winner.vchSig == [1]

/-- A vote of a masternode of the sample list. -/
def sampleVote (n : Nat) (nBlockHeight : Int) (key : UInt8) : CMasternodePaymentWinner :=
  ⟨⟨⟨5, n⟩, ([] : List UInt8), 2 ^ 32 - 1⟩, nBlockHeight, (sampleOutput (sampleKey key)).scriptPubKey, [1], 0⟩

/-- Two masternodes vote for a block. -/
def voteOnce : List VoteOp := [0, 1].map fun n => .mnw (sampleVoteNode 2) (sampleVote n 5 1)

/-- One masternode votes for a block, for the block below it, and for the first one again with another payee. -/
def voteTwice : List CMasternodePaymentWinner := [sampleVote 0 5 1, sampleVote 0 4 1, sampleVote 0 5 3]

theorem votes_once_elected_two :
    ∃ p, voteOnce.foldlM receive .empty = some p ∧ p.countVotes 5 = 2 ∧
      p.countVotes 5 ≤ ((sampleVoteNode 2).elected 5).length :=
  ⟨_, rfl, by decide, (votes_once_elected (sampleVoteNode 2) voteOnce _ (by decide) rfl 5).1⟩

theorem votes_counted_twice : ¬ ∀ (r : VoteNode) (winners : List CMasternodePaymentWinner) (p : CMasternodePaymentVotes),
    (winners.map (VoteOp.mnw r)).foldlM receive .empty = some p → ∀ h,
      p.countVotes h ≤ (r.elected h).length ∧ (p.votersFor h).Nodup := by
  intro hall
  have hle := (hall (sampleVoteNode 1) voteTwice _ rfl 5).1
  revert hle
  decide

end CMasternodePaymentVotes

end DigiWage
