import DigiWage.Lib.Ballot
import DigiWage.Masternode.Winners

/-!
# The tallies of the votes for payees

`mapMasternodeBlocks` counts the votes of `mapMasternodePayeeVotes`. The two are changed separately: a vote is stored under
its hash and counted for the payee of its block, `CleanPaymentList` erases old votes one by one and the counts block by
block, and `mnpayments.dat` holds both.

* `Tallied`: the count of a payee is the number of the votes stored for it, and a block has counts exactly when a vote for
  it is stored. Each operation keeps it.
-/

namespace DigiWage

open Lib

/-! ## The count of a payee -/

namespace CMasternodeBlockPayees

/-- `nVotes` of a payee, zero where it is not listed. -/
def votesOf (payee : CScript) : List CMasternodePayee → Int
  | [] => 0
  | p :: ps => if p.scriptPubKey = payee then p.nVotes else votesOf payee ps

theorem votesOf_addVotes (payeeIn : CScript) (nIncrement : Int) (payee : CScript) (l : List CMasternodePayee) :
    votesOf payee (addVotes payeeIn nIncrement l) = votesOf payee l + if payeeIn = payee then nIncrement else 0 := by
  induction l with
  | nil => simp [addVotes, votesOf]
  | cons p l ih =>
    unfold addVotes
    by_cases hp : p.scriptPubKey = payeeIn
    · rw [if_pos hp]
      by_cases heq : payeeIn = payee
      · simp [votesOf, hp, heq]
      · simp [votesOf, hp, heq]
    · rw [if_neg hp]
      by_cases heq : p.scriptPubKey = payee
      · have hne : payeeIn ≠ payee := fun h => hp (heq.trans h.symm)
        simp [votesOf, heq, hne]
      · simp [votesOf, heq, ih]

theorem scripts_addVotes (payeeIn : CScript) (nIncrement : Int) (l : List CMasternodePayee) :
    (addVotes payeeIn nIncrement l).map (·.scriptPubKey) =
      if payeeIn ∈ l.map (·.scriptPubKey) then l.map (·.scriptPubKey) else l.map (·.scriptPubKey) ++ [payeeIn] := by
  induction l with
  | nil => simp [addVotes]
  | cons p l ih =>
    unfold addVotes
    split
    · rename_i hp
      simp [hp]
    · rename_i hp
      have hne : payeeIn ≠ p.scriptPubKey := fun h => hp h.symm
      simp only [List.map_cons, ih, List.mem_cons, hne, false_or]
      split
      · rfl
      · rfl

theorem nodup_addVotes {payeeIn : CScript} {nIncrement : Int} {l : List CMasternodePayee}
    (h : (l.map (·.scriptPubKey)).Nodup) : ((addVotes payeeIn nIncrement l).map (·.scriptPubKey)).Nodup := by
  rw [scripts_addVotes]
  split
  · exact h
  · rename_i hnew
    rw [List.nodup_append]
    refine ⟨h, List.nodup_singleton _, ?_⟩
    intro a ha b hb
    rw [List.mem_singleton] at hb
    rintro rfl
    exact hnew (hb ▸ ha)

end CMasternodeBlockPayees

/-- `nVotes` of a payee at a height, zero where the height has no entry. -/
def CMasternodePayments.nVotes (mp : CMasternodePayments) (h : Int) (payee : CScript) : Int :=
  match mp.mapMasternodeBlocks h with
  | none => 0
  | some b => CMasternodeBlockPayees.votesOf payee b.vecPayments

/-! ## The two maps -/

/-- The votes of `mapMasternodePayeeVotes`. -/
abbrev PayeeVotes : Type := AList fun _ : CScript × Int × COutPoint => CMasternodePaymentWinner

/-- The height and the payee that a vote is for. -/
def CMasternodePaymentWinner.choice (winner : CMasternodePaymentWinner) : Int × CScript := (winner.nBlockHeight, winner.payee)

/-- The entries of `mapMasternodePayeeVotes` for a height and a payee. -/
def votesOn (m : PayeeVotes) (h : Int) (payee : CScript) : List CMasternodePaymentWinner :=
  votes CMasternodePaymentWinner.choice m (h, payee)

/-- A vote for the height is stored. -/
def HasVote (m : PayeeVotes) (h : Int) : Prop := ∃ e ∈ m.entries, e.2.nBlockHeight = h

/-- The counts are those of the votes. -/
structure Tallied (mp : CMasternodePayments) (m : PayeeVotes) : Prop where
  count : ∀ h payee, mp.nVotes h payee = (votesOn m h payee).length
  listed : ∀ h, (mp.mapMasternodeBlocks h).isSome = true ↔ HasVote m h
  distinct : ∀ h b, mp.mapMasternodeBlocks h = some b → (b.vecPayments.map (·.scriptPubKey)).Nodup

namespace Tallied

variable {mp : CMasternodePayments} {m : PayeeVotes} {winner : CMasternodePaymentWinner}

theorem empty : Tallied .empty ∅ := by
  refine ⟨fun _ _ => rfl, fun h => ?_, fun _ _ hb => nomatch hb⟩
  constructor
  · intro hsome
    cases hsome
  · rintro ⟨e, he, -⟩
    cases he

theorem add (h : Tallied mp m) (hnew : winner.getHash ∉ m) :
    Tallied (mp.addWinningMasternode winner.nBlockHeight winner.payee) (m.insert winner.getHash winner) := by
  have hentries := AList.entries_insert_of_notMem hnew (b := winner)
  refine ⟨fun k payee => ?_, fun k => ?_, fun k b hb => ?_⟩
  · unfold votesOn
    rw [votes_insert hnew]
    have hcount := h.count k payee
    unfold CMasternodePayments.nVotes votesOn at hcount
    unfold CMasternodePayments.nVotes CMasternodePayments.addWinningMasternode
    dsimp only
    by_cases hk : k = winner.nBlockHeight
    · subst hk
      rw [Function.update_self]
      dsimp only
      have hold : CMasternodeBlockPayees.votesOf payee
          ((mp.mapMasternodeBlocks winner.nBlockHeight).getD ⟨winner.nBlockHeight, []⟩).vecPayments =
          (votes CMasternodePaymentWinner.choice m (winner.nBlockHeight, payee)).length := by
        rw [← hcount]
        cases mp.mapMasternodeBlocks winner.nBlockHeight with
        | none => rfl
        | some b => rfl
      unfold CMasternodeBlockPayees.addPayee
      dsimp only
      rw [CMasternodeBlockPayees.votesOf_addVotes, hold]
      by_cases hp : winner.payee = payee
      · simp [CMasternodePaymentWinner.choice, hp]
      · simp [CMasternodePaymentWinner.choice, hp]
    · rw [Function.update_of_ne hk]
      have hne : winner.choice ≠ (k, payee) := fun heq => hk (congrArg Prod.fst heq).symm
      rw [if_neg hne]
      exact hcount
  · unfold HasVote CMasternodePayments.addWinningMasternode
    dsimp only
    rw [hentries]
    by_cases hk : k = winner.nBlockHeight
    · subst hk
      simp
    · rw [Function.update_of_ne hk, h.listed k]
      unfold HasVote
      have hne : winner.nBlockHeight ≠ k := fun heq => hk heq.symm
      simp [hne]
  · unfold CMasternodePayments.addWinningMasternode at hb
    dsimp only at hb
    by_cases hk : k = winner.nBlockHeight
    · subst hk
      rw [Function.update_self, Option.some.injEq] at hb
      subst hb
      apply CMasternodeBlockPayees.nodup_addVotes
      cases hm : mp.mapMasternodeBlocks winner.nBlockHeight with
      | none => exact List.nodup_nil
      | some b => exact h.distinct _ b hm
    · rw [Function.update_of_ne hk] at hb
      exact h.distinct k b hb

theorem clean (h : Tallied mp m) (old : Int → Bool) {mp' : CMasternodePayments}
    (hblocks : ∀ k, mp'.mapMasternodeBlocks k =
      if m.entries.any fun e => old e.2.nBlockHeight && e.2.nBlockHeight == k then none else mp.mapMasternodeBlocks k) :
    Tallied mp' (m.entries.foldl (fun m e => if old e.2.nBlockHeight then m.erase e.1 else m) m) := by
  -- the old votes of a block go all together
  have hany : ∀ k, (m.entries.any fun e => old e.2.nBlockHeight && e.2.nBlockHeight == k) = true ↔
      old k = true ∧ HasVote m k := by
    intro k
    simp only [List.any_eq_true, Bool.and_eq_true, beq_iff_eq]
    constructor
    · rintro ⟨e, he, hold, rfl⟩
      exact ⟨hold, e, he, rfl⟩
    · rintro ⟨hold, e, he, rfl⟩
      exact ⟨e, he, hold, rfl⟩
  refine ⟨fun k payee => ?_, fun k => ?_, fun k b hb => ?_⟩
  · have hvotes := votes_clean CMasternodePaymentWinner.choice m (fun i => old i.1) (k, payee)
    have hcount := h.count k payee
    unfold votesOn at hcount ⊢
    unfold CMasternodePayments.nVotes at hcount ⊢
    refine Eq.trans ?_ (congrArg (fun l : List CMasternodePaymentWinner => (l.length : Int)) hvotes).symm
    rw [hblocks]
    dsimp only
    by_cases hgone : old k = true ∧ HasVote m k
    · rw [if_pos ((hany k).mpr hgone), if_pos hgone.1]
      rfl
    · rw [if_neg fun ha => hgone ((hany k).mp ha), hcount]
      by_cases hold : old k = true
      · have hnone : ¬ (mp.mapMasternodeBlocks k).isSome = true := fun hs => hgone ⟨hold, (h.listed k).mp hs⟩
        rw [if_pos hold, ← hcount]
        cases hm : mp.mapMasternodeBlocks k with
        | none => rfl
        | some b => simp [hm] at hnone
      · rw [if_neg hold]
  · rw [hblocks]
    unfold HasVote
    rw [entries_clean fun e : Sigma fun _ : CScript × Int × COutPoint => CMasternodePaymentWinner => old e.2.nBlockHeight]
    by_cases hgone : old k = true ∧ HasVote m k
    · rw [if_pos ((hany k).mpr hgone)]
      simp only [Option.isSome_none, Bool.false_eq_true, false_iff]
      rintro ⟨e, he, rfl⟩
      rw [List.mem_filter, hgone.1] at he
      exact absurd he.2 (by decide)
    · rw [if_neg fun ha => hgone ((hany k).mp ha), h.listed k]
      constructor
      · rintro ⟨e, he, rfl⟩
        refine ⟨e, List.mem_filter.mpr ⟨he, ?_⟩, rfl⟩
        by_contra hold
        exact hgone ⟨by simpa using hold, e, he, rfl⟩
      · rintro ⟨e, he, rfl⟩
        exact ⟨e, (List.mem_filter.mp he).1, rfl⟩
  · rw [hblocks] at hb
    split at hb
    · cases hb
    · exact h.distinct k b hb

end Tallied

/-! ## The node and its file -/

/-- `CMasternodePayments` as far as `mnpayments.dat` holds it. -/
structure PaymentsFile where
  mapMasternodePayeeVotes : PayeeVotes
  blocks : CMasternodePayments

/-- A node, with the content of its `mnpayments.dat`. -/
structure TallyNode where
  masternodePayments : CMasternodePaymentVotes
  file : Option PaymentsFile

/-- `ReadResult`, without the cleaning. -/
inductive ReadResult where
  | Ok
  /-- `FileError`, `HashReadError`, `IncorrectHash`, `IncorrectMagicMessage` and `IncorrectMagicNumber`. -/
  | Unreadable
  | IncorrectFormat
deriving DecidableEq, Repr

namespace CMasternodePaymentVotes

variable (p : CMasternodePaymentVotes)

def clear : CMasternodePaymentVotes :=
  { p with toCMasternodePayments := .empty, mapMasternodePayeeVotes := ∅ }

/-- `Unserialize`. -/
def load (file : PaymentsFile) : CMasternodePaymentVotes :=
  { p with toCMasternodePayments := file.blocks, mapMasternodePayeeVotes := file.mapMasternodePayeeVotes }

/-- `CMasternodePaymentDB::Read`. -/
def readFile (env : WinnerEnv) (file : PaymentsFile) (fDryRun : Bool) : ReadResult → CMasternodePaymentVotes
  | .Unreadable => p
  | .IncorrectFormat => p.clear
  | .Ok => if fDryRun then p.load file else (p.load file).cleanPaymentList env

end CMasternodePaymentVotes

/-- What happens to the votes of a node. -/
inductive TallyOp where
  | addWinningMasternode (env : WinnerEnv) (winner : CMasternodePaymentWinner)
  | cleanPaymentList (env : WinnerEnv)
  | clear
  /-- `CMasternodePaymentDB::Write`; of a file that is cut short the checksum does not match. -/
  | write (complete : Bool)
  | read (env : WinnerEnv) (fDryRun : Bool) (result : ReadResult)
  /-- The node stops and starts again. -/
  | restart

namespace TallyNode

def init : TallyNode := ⟨.empty, none⟩

def step (n : TallyNode) : TallyOp → TallyNode
  | .addWinningMasternode env winner => { n with masternodePayments := n.masternodePayments.addVote env winner }
  | .cleanPaymentList env => { n with masternodePayments := n.masternodePayments.cleanPaymentList env }
  | .clear => { n with masternodePayments := n.masternodePayments.clear }
  | .write complete =>
    { n with
      file := if complete then
          some ⟨n.masternodePayments.mapMasternodePayeeVotes, n.masternodePayments.toCMasternodePayments⟩ else none }
  | .read env fDryRun result =>
    match n.file with
    | none => n
    | some file => { n with masternodePayments := n.masternodePayments.readFile env file fDryRun result }
  | .restart => { n with masternodePayments := .empty }

/-- The counts are those of the votes, in memory and in the file. -/
structure Good (n : TallyNode) : Prop where
  memory : Tallied n.masternodePayments.toCMasternodePayments n.masternodePayments.mapMasternodePayeeVotes
  file : ∀ file ∈ n.file, Tallied file.blocks file.mapMasternodePayeeVotes

theorem good_init : Good init := ⟨.empty, fun _ h => nomatch h⟩

end TallyNode

namespace CMasternodePaymentVotes

variable {p : CMasternodePaymentVotes}

theorem tallied_addVote (env : WinnerEnv) (winner : CMasternodePaymentWinner)
    (h : Tallied p.toCMasternodePayments p.mapMasternodePayeeVotes) :
    Tallied (p.addVote env winner).toCMasternodePayments (p.addVote env winner).mapMasternodePayeeVotes := by
  unfold addVote
  split_ifs with hhash hseen
  · exact h
  · exact h
  · apply h.add
    rw [← AList.lookup_eq_none]
    simpa using hseen

theorem tallied_cleanPaymentList (env : WinnerEnv) (h : Tallied p.toCMasternodePayments p.mapMasternodePayeeVotes) :
    Tallied (p.cleanPaymentList env).toCMasternodePayments (p.cleanPaymentList env).mapMasternodePayeeVotes := by
  unfold cleanPaymentList
  cases env.tipHeight with
  | none => exact h
  | some nHeight => exact h.clean (fun k => decide (_ < nHeight - k)) fun _ => rfl

end CMasternodePaymentVotes

namespace TallyNode

variable {n : TallyNode}

theorem Good.step (h : Good n) (op : TallyOp) : Good (n.step op) := by
  cases op with
  | addWinningMasternode env winner => exact ⟨CMasternodePaymentVotes.tallied_addVote env winner h.memory, h.file⟩
  | cleanPaymentList env => exact ⟨CMasternodePaymentVotes.tallied_cleanPaymentList env h.memory, h.file⟩
  | clear => exact ⟨.empty, h.file⟩
  | write complete =>
    cases complete with
    | false => exact ⟨h.memory, fun _ hf => nomatch hf⟩
    | true =>
      refine ⟨h.memory, fun file hf => ?_⟩
      cases hf
      exact h.memory
  | read env fDryRun result =>
    unfold TallyNode.step
    cases hfile : n.file with
    | none => exact h
    | some file =>
      have hload := h.file file hfile
      refine ⟨?_, fun file' hf => h.file file' (by rw [hfile]; exact hf)⟩
      cases result with
      | Unreadable => exact h.memory
      | IncorrectFormat => exact .empty
      | Ok =>
        cases fDryRun with
        | true => exact hload
        | false => exact @CMasternodePaymentVotes.tallied_cleanPaymentList (n.masternodePayments.load file) env hload
  | restart => exact ⟨.empty, h.file⟩

theorem good_run (ops : List TallyOp) : Good (ops.foldl step init) := by
  have hrun : ∀ (ops : List TallyOp) (n : TallyNode), Good n → Good (ops.foldl step n) := by
    intro ops
    induction ops with
    | nil => exact fun _ hn => hn
    | cons op ops ih => exact fun n hn => ih _ (hn.step op)
  exact hrun ops init good_init

/-- After every run the count of a payee at a height is the number of the votes stored for it, where a payee is counted
once, and a height has counts exactly when a vote for it is stored. -/
theorem tallied_run (ops : List TallyOp) :
    let p := (ops.foldl step init).masternodePayments
    (∀ h payee, p.nVotes h payee = (votesOn p.mapMasternodePayeeVotes h payee).length) ∧
    (∀ h, (p.mapMasternodeBlocks h).isSome = true ↔ ∃ e ∈ p.mapMasternodePayeeVotes.entries, e.2.nBlockHeight = h) ∧
    ∀ h b, p.mapMasternodeBlocks h = some b → (b.vecPayments.map (·.scriptPubKey)).Nodup := by
  have hgood := (good_run ops).memory
  exact ⟨hgood.count, hgood.listed, hgood.distinct⟩

end TallyNode

end DigiWage
