import DigiWage.Masternode.Announce
import DigiWage.Masternode.Payments

/-!
# Votes for payees

The message `mnw` of `ProcessMessageMasternodePayments`, and `CleanPaymentList`.

* `CMasternodePaymentVotes` adds to the payees of the blocks the votes for them, and the height that each masternode voted
  for last.
* `CanVote` puts the height there before the signature is checked. `AgreeOff` compares two nodes that differ in the heights
  of some masternodes only.
-/

namespace DigiWage

structure CMasternodePaymentWinner where
  vinMasternode : CTxIn
  nBlockHeight : Int
  payee : CScript
  vchSig : List UInt8
  nMessVersion : Int
deriving DecidableEq, Repr

/-- What `CMasternodePaymentWinner::GetHash` hashes. -/
def CMasternodePaymentWinner.getHash (winner : CMasternodePaymentWinner) : CScript × Int × COutPoint :=
  (winner.payee, winner.nBlockHeight, winner.vinMasternode.prevout)

/-- What the code asks of the rest of the node. -/
structure WinnerEnv where
  fLiteMode : Bool
  isBlockchainSynced : Bool
  /-- `pfrom->nVersion`. -/
  peerVersion : Int
  /-- `ActiveProtocol()`. -/
  activeProtocol : Int
  /-- The height of the tip, if there is one and `cs_main` is free. -/
  tipHeight : Option Int
  /-- `mnodeman.CountEnabled()`. -/
  countEnabled : Nat
  /-- `mnodeman.size()`. -/
  size : Nat
  isMessSigV2 : Int → Bool
  /-- The protocol version of the masternode that `mnodeman.Find` finds. -/
  protocolVersion : CTxIn → Option Int
  getMasternodeRank : CTxIn → Int → Int
  checkSignature : CMasternodePaymentWinner → Bool
  /-- `GetBlockHash` for a height. -/
  getBlockHash : Int → Option Uint256

def MNPAYMENTS_SIGNATURES_TOTAL : Int := 10

namespace WinnerEnv

variable (env : WinnerEnv) (winner : CMasternodePaymentWinner)

/-- `CMasternodePaymentWinner::IsValid`. -/
def isValid : Bool :=
  match env.protocolVersion winner.vinMasternode with
  | none => false
  | some protocolVersion =>
    !decide (protocolVersion < env.activeProtocol) &&
      !decide (MNPAYMENTS_SIGNATURES_TOTAL < env.getMasternodeRank winner.vinMasternode (winner.nBlockHeight - 100))

/-- The message goes on to look up the vote, at the height. -/
def listensAt : Option Int :=
  if !env.isBlockchainSynced || env.fLiteMode then none
  else if env.peerVersion < env.activeProtocol then none
  else env.tipHeight

/-- The checks of `mnw` from the height of the vote to `IsValid`. -/
def isAcceptable (nHeight : Int) : Bool :=
  -- `nHeight - (CountEnabled() * 1.25)`
  let nFirstBlock := (4 * nHeight - 5 * env.countEnabled).tdiv 4
  !(decide (winner.nBlockHeight < nFirstBlock) || decide (nHeight + 20 < winner.nBlockHeight)) &&
    !(winner.nMessVersion != MESS_VER_HASH && env.isMessSigV2 (winner.nBlockHeight - 6000)) &&
    env.isValid winner

end WinnerEnv

/-- `CMasternodePayments` with the votes. -/
structure CMasternodePaymentVotes extends CMasternodePayments where
  mapMasternodePayeeVotes : AList fun _ : CScript × Int × COutPoint => CMasternodePaymentWinner
  mapMasternodesLastVote : COutPoint → Option Int

namespace CMasternodePaymentVotes

variable (env : WinnerEnv) (p : CMasternodePaymentVotes) (winner : CMasternodePaymentWinner)

def empty : CMasternodePaymentVotes := ⟨.empty, ∅, fun _ => none⟩

/-- `CanVote`, which records the vote. -/
def canVote (outMasternode : COutPoint) (nBlockHeight : Int) : Bool × CMasternodePaymentVotes :=
  if p.mapMasternodesLastVote outMasternode = some nBlockHeight then (false, p)
  else (true, { p with
    mapMasternodesLastVote := Function.update p.mapMasternodesLastVote outMasternode (some nBlockHeight) })

/-- `AddWinningMasternode`. -/
def addVote : CMasternodePaymentVotes :=
  if (env.getBlockHash (winner.nBlockHeight - 100)).isNone then p
  else if (p.mapMasternodePayeeVotes.lookup winner.getHash).isSome then p
  else
    { p with
      toCMasternodePayments := p.addWinningMasternode winner.nBlockHeight winner.payee
      mapMasternodePayeeVotes := p.mapMasternodePayeeVotes.insert winner.getHash winner }

/-- The message `mnw`. -/
def mnw : CMasternodePaymentVotes :=
  match env.listensAt with
  | none => p
  | some nHeight =>
    if (p.mapMasternodePayeeVotes.lookup winner.getHash).isSome then p
    else if !env.isAcceptable winner nHeight then p
    else
      let r := p.canVote winner.vinMasternode.prevout winner.nBlockHeight
      if !r.1 then r.2
      else if !env.checkSignature winner then r.2
      else r.2.addVote env winner

def cleanPaymentList : CMasternodePaymentVotes :=
  match env.tipHeight with
  | none => p
  | some nHeight =>
    let nLimit : Int := max (env.size * 5 / 4 : Nat) 1000
    let isOld (w : CMasternodePaymentWinner) : Bool := decide (nLimit < nHeight - w.nBlockHeight)
    let votes := p.mapMasternodePayeeVotes.entries
    { p with
      mapMasternodeBlocks := fun h =>
        if votes.any fun e => isOld e.2 && e.2.nBlockHeight == h then none else p.mapMasternodeBlocks h
      keyed := fun h b hb => by
        split at hb
        · cases hb
        · exact p.keyed h b hb
      mapMasternodePayeeVotes := votes.foldl (fun m e => if isOld e.2 then m.erase e.1 else m) p.mapMasternodePayeeVotes }

end CMasternodePaymentVotes

/-- A message, or the cleaning. -/
inductive PaymentOp where
  | mnw (env : WinnerEnv) (winner : CMasternodePaymentWinner)
  | cleanPaymentList (env : WinnerEnv)

def CMasternodePaymentVotes.step (p : CMasternodePaymentVotes) : PaymentOp → CMasternodePaymentVotes
  | .mnw env winner => p.mnw env winner
  | .cleanPaymentList env => p.cleanPaymentList env

/-! ## Forged votes -/

namespace CMasternodePaymentVotes

variable {env : WinnerEnv} {p q : CMasternodePaymentVotes} {winner : CMasternodePaymentWinner}
  {marked : COutPoint → Int → Prop}

/-- The message goes on to `CanVote`. -/
def considers (env : WinnerEnv) (p : CMasternodePaymentVotes) (winner : CMasternodePaymentWinner) : Bool :=
  env.listensAt.any fun nHeight =>
    (p.mapMasternodePayeeVotes.lookup winner.getHash).isNone && env.isAcceptable winner nHeight

/-- The maps after `CanVote`. -/
def voted (p : CMasternodePaymentVotes) (winner : CMasternodePaymentWinner) : CMasternodePaymentVotes :=
  { p with
    mapMasternodesLastVote :=
      Function.update p.mapMasternodesLastVote winner.vinMasternode.prevout (some winner.nBlockHeight) }

theorem canVote_eq (p : CMasternodePaymentVotes) (winner : CMasternodePaymentWinner) :
    p.canVote winner.vinMasternode.prevout winner.nBlockHeight =
      (decide (p.mapMasternodesLastVote winner.vinMasternode.prevout ≠ some winner.nBlockHeight), p.voted winner) := by
  unfold canVote
  split
  · rename_i heq
    have hsame : p.voted winner = p := by
      unfold voted
      rw [← heq, Function.update_eq_self]
    rw [hsame, heq]
    simp
  · rename_i hne
    rw [decide_eq_true hne]
    rfl

theorem mnw_eq (env : WinnerEnv) (p : CMasternodePaymentVotes) (winner : CMasternodePaymentWinner) : p.mnw env winner =
    if !p.considers env winner then p
    else if p.mapMasternodesLastVote winner.vinMasternode.prevout = some winner.nBlockHeight then p.voted winner
    else if !env.checkSignature winner then p.voted winner
    else (p.voted winner).addVote env winner := by
  unfold mnw considers
  rw [canVote_eq]
  cases env.listensAt with
  | none => rfl
  | some nHeight =>
    dsimp only [Option.any_some]
    by_cases hseen : (p.mapMasternodePayeeVotes.lookup winner.getHash).isSome = true
    · have hnone : (p.mapMasternodePayeeVotes.lookup winner.getHash).isNone = false := by simpa using hseen
      rw [if_pos hseen, hnone]
      rfl
    · have hnone : (p.mapMasternodePayeeVotes.lookup winner.getHash).isNone = true := by simpa using hseen
      rw [if_neg hseen, hnone]
      simp

/-- The nodes agree but for the last votes of some masternodes, which are for marked heights. -/
structure AgreeOff (marked : COutPoint → Int → Prop) (p q : CMasternodePaymentVotes) : Prop where
  blocks : p.toCMasternodePayments = q.toCMasternodePayments
  votes : p.mapMasternodePayeeVotes = q.mapMasternodePayeeVotes
  lastVotes : ∀ o, p.mapMasternodesLastVote o = q.mapMasternodesLastVote o ∨
    ((∀ h, p.mapMasternodesLastVote o = some h → marked o h) ∧ ∀ h, q.mapMasternodesLastVote o = some h → marked o h)

theorem AgreeOff.refl (p : CMasternodePaymentVotes) : AgreeOff marked p p := ⟨rfl, rfl, fun _ => .inl rfl⟩

theorem AgreeOff.considers_eq (h : AgreeOff marked p q) : p.considers env winner = q.considers env winner := by
  unfold considers
  rw [h.votes]

theorem AgreeOff.voted (h : AgreeOff marked p q) : AgreeOff marked (p.voted winner) (q.voted winner) := by
  refine ⟨h.blocks, h.votes, fun o => ?_⟩
  unfold CMasternodePaymentVotes.voted
  dsimp only
  by_cases ho : o = winner.vinMasternode.prevout
  · left
    rw [ho, Function.update_self, Function.update_self]
  · rw [Function.update_of_ne ho, Function.update_of_ne ho]
    exact h.lastVotes o

theorem AgreeOff.addVote (h : AgreeOff marked p q) : AgreeOff marked (p.addVote env winner) (q.addVote env winner) := by
  unfold CMasternodePaymentVotes.addVote
  rw [h.votes, h.blocks]
  split_ifs
  · exact h
  · exact h
  · exact ⟨rfl, rfl, h.lastVotes⟩

/-- A vote for a marked height is not genuine. -/
theorem AgreeOff.mnw (h : AgreeOff marked p q)
    (hforged : env.checkSignature winner = true → ¬ marked winner.vinMasternode.prevout winner.nBlockHeight) :
    AgreeOff marked (p.mnw env winner) (q.mnw env winner) := by
  rw [mnw_eq, mnw_eq, h.considers_eq]
  cases hsig : env.checkSignature winner with
  | false =>
    -- The vote is not counted, whether `CanVote` allows it or not.
    simp only [Bool.not_false, if_true, ite_self]
    split_ifs
    · exact h
    · exact h.voted
  | true =>
    have hmarked := hforged hsig
    have hsame : p.mapMasternodesLastVote winner.vinMasternode.prevout = some winner.nBlockHeight ↔
        q.mapMasternodesLastVote winner.vinMasternode.prevout = some winner.nBlockHeight := by
      rcases h.lastVotes winner.vinMasternode.prevout with heq | ⟨hp, hq⟩
      · rw [heq]
      · exact iff_of_false (fun hlast => hmarked (hp _ hlast)) fun hlast => hmarked (hq _ hlast)
    simp only [hsame, Bool.not_true, Bool.false_eq_true, if_false]
    split_ifs
    · exact h
    · exact h.voted
    · exact h.voted.addVote

theorem AgreeOff.cleanPaymentList (h : AgreeOff marked p q) :
    AgreeOff marked (p.cleanPaymentList env) (q.cleanPaymentList env) := by
  unfold CMasternodePaymentVotes.cleanPaymentList
  split
  · exact h
  · refine ⟨?_, ?_, h.lastVotes⟩
    · simp only [h.votes, h.blocks]
    · simp only [h.votes]

/-- The heights that a vote with a bad signature marks: its own, and that of the last vote, which is forgotten. -/
def marks (env : WinnerEnv) (p : CMasternodePaymentVotes) (winner : CMasternodePaymentWinner) (o : COutPoint) (h : Int) :
    Prop :=
  p.considers env winner = true ∧ o = winner.vinMasternode.prevout ∧
    (h = winner.nBlockHeight ∨ p.mapMasternodesLastVote o = some h)

theorem agreeOff_mnw (hsig : env.checkSignature winner = false) : AgreeOff (p.marks env winner) (p.mnw env winner) p := by
  rw [mnw_eq, hsig]
  simp only [Bool.not_false, if_true, ite_self]
  split
  · exact .refl p
  · rename_i hconsiders
    have hconsiders : p.considers env winner = true := by simpa using hconsiders
    refine ⟨rfl, rfl, fun o => ?_⟩
    by_cases ho : o = winner.vinMasternode.prevout
    · subst ho
      refine .inr ⟨fun h hlast => ⟨hconsiders, rfl, .inl ?_⟩, fun h hlast => ⟨hconsiders, rfl, .inr hlast⟩⟩
      have hown : (p.voted winner).mapMasternodesLastVote winner.vinMasternode.prevout = some winner.nBlockHeight :=
        Function.update_self _ _ _
      exact Option.some.inj (hlast.symm.trans hown)
    · exact .inl (Function.update_of_ne ho _ _)

end CMasternodePaymentVotes

end DigiWage
