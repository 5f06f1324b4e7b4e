import DigiWage.Masternode.Finalize
import DigiWage.Script.Text
import DigiWage.Lib.Election
import DigiWage.Lib.Run

/-!
# Automatic votes

`CheckAndRemove` of `CBudgetManager` on a masternode: `CheckAndVote` compares the payments of each finalized budget with
the proposals of `GetBudget`, payees by their text, and `SubmitVote` votes for the budget if they agree.

* `mapFinalizedBudgets` and `mapProposals` are lists in the order of the maps, and no hash is twice in them.
* `log_checkBudgets`: all checks of one `CheckAndRemove` see the same proposals, and the flag `fAutoChecked` never holds
  one back, since the copy that stays in the map does not have it.
-/

namespace DigiWage

open Lib CBudgetProposal

/-- `CFinalizedBudget`, with its private flag. -/
structure AutoBudget extends CFinalizedBudget where
  fAutoChecked : Bool

/-- A masternode that votes for budgets. -/
structure AutoEnv extends PassingEnv where
  fMasterNode : Bool
  strBudgetMode : String
  /-- `rand()` in `CheckAndVote`, for the budget with the hash. -/
  randVote : Uint256 → Nat
  /-- `activeMasternode.vin`, if `SubmitVote` can sign for it. -/
  signer : Option CTxIn
  /-- The time of the block with the fee transaction, which `IsValid` stores in `nTime`. -/
  collateralTime : Uint256 → Option Int

def CBudgetProposal.Listed.getHash (hashes : BudgetHashes) (p : Listed) : Uint256 :=
  hashes.getProposalHash p.toCBudgetProposal

/-- The payment that a proposal asks for. -/
def CBudgetProposal.Listed.payment (hashes : BudgetHashes) (p : Listed) : CTxBudgetPayment :=
  ⟨p.getHash hashes, p.address, p.getAmount⟩

/-- `CFinalizedBudget::GetHash`. -/
def AutoBudget.getHash (hashes : BudgetHashes) (b : AutoBudget) : Uint256 := hashes.getBudgetHash b.toCFinalizedBudget

/-- `std::sort`, with `sortProposalsByVotes`, `sortProposalsByHash` and `sortPaymentsByHash`. -/
structure BudgetSorts (hashes : BudgetHashes) where
  byVotes : List Listed → List Listed
  proposalsByHash : List Listed → List Listed
  paymentsByHash : List CTxBudgetPayment → List CTxBudgetPayment
  keySort_votes : KeySort Listed.rank byVotes
  keySort_proposals : KeySort (fun p : Listed => OrderDual.toDual (p.getHash hashes).toNat) proposalsByHash
  keySort_payments :
    KeySort (fun payment : CTxBudgetPayment => OrderDual.toDual payment.nProposalHash.toNat) paymentsByHash

/-- A check that `CheckAndVote` makes: the budget, what `GetBudget` returns, and whether it votes. -/
structure VoteCheck where
  nBudgetHash : Uint256
  vecBudgetPayments : List CTxBudgetPayment
  vBudgetProposals : List Listed
  submits : Bool

variable {hashes : BudgetHashes} (sorts : BudgetSorts hashes) (env : AutoEnv)

/-- The proposals after `GetBudget`, which cleans the votes and allots the amounts. -/
def allotAll (mapProposals : List Listed) : List Listed :=
  match env.tipHeight with
  | none => mapProposals.map (Listed.clean env.toPassingEnv)
  | some nHeight =>
    let nBlockStart := env.nextBlockStart nHeight
    let nBlockEnd := nBlockStart + env.nBudgetCycleBlocks - 1
    mapProposals.map fun p =>
      let p := p.clean env.toPassingEnv
      if (getBudget env.toPassingEnv sorts.byVotes mapProposals).any fun q => q.getHash hashes == p.getHash hashes then
        p.allotted
      else if p.isPassing env.toPassingEnv nBlockStart nBlockEnd env.countEnabled then { p with nAlloted := 0 }
      else p

namespace AutoBudget

/-- The copy constructor of `CFinalizedBudget`. -/
def copy (b : CFinalizedBudget) : AutoBudget := { b with fValid := true, fAutoChecked := false }

/-- The comparison of `CheckAndVote`, item by item. -/
def matchLoop (hashes : BudgetHashes) : List CTxBudgetPayment → List Listed → Bool
  | [], _ => true
  | _ :: _, [] => false
  | payment :: payments, p :: ps =>
    if payment.nProposalHash ≠ p.getHash hashes then false
    -- the scripts are not compared themselves
    else if payment.payee.toString ≠ p.address.toString then false
    else if payment.nAmount ≠ p.getAmount then false
    else matchLoop hashes payments ps

/-- The payments match the proposals. -/
def matchesProposals (vecBudgetPayments : List CTxBudgetPayment) (vBudgetProposals : List Listed) : Bool :=
  let proposals := sorts.proposalsByHash vBudgetProposals
  let payments := sorts.paymentsByHash vecBudgetPayments
  if proposals.length = 0 then false
  else if proposals.length ≠ payments.length then false
  else matchLoop hashes payments proposals

/-- `CFinalizedBudget::AddOrUpdateVote`. -/
def takeVote (now : Int) (vote : CFinalizedBudgetVote) (b : AutoBudget) : AutoBudget :=
  match addOrUpdateVote now b.mapVotes vote with
  | .error _ => b
  | .ok mapVotes => { b with mapVotes }

/-- `CFinalizedBudget::SubmitVote`: `UpdateFinalizedBudget` finds the budget itself. -/
def submitVote (hashes : BudgetHashes) (env : AutoEnv) (b : AutoBudget) : AutoBudget :=
  match env.signer with
  | none => b
  | some vin => b.takeVote env.now ⟨true, vin, b.getHash hashes, (), env.getAdjustedTime⟩

/-- `CFinalizedBudget::CheckAndVote`: the budget, the proposals after it, and the check if there was one. -/
def checkAndVote (mapProposals : List Listed) (b : AutoBudget) : AutoBudget × List Listed × Option VoteCheck :=
  if env.tipHeight.isNone then (b, mapProposals, none)
  else if !env.fMasterNode || b.fAutoChecked then (b, mapProposals, none)
  else if env.randVote (b.getHash hashes) % 4 ≠ 0 then (b, mapProposals, none)
  else
    let b := { b with fAutoChecked := true }
    if env.strBudgetMode = "auto" then
      let vBudgetProposals := getBudget env.toPassingEnv sorts.byVotes mapProposals
      let submits := matchesProposals sorts b.vecBudgetPayments vBudgetProposals
      (if submits then b.submitVote hashes env else b, allotAll sorts env mapProposals,
        some ⟨b.getHash hashes, b.vecBudgetPayments, vBudgetProposals, submits⟩)
    else (b, mapProposals, some ⟨b.getHash hashes, b.vecBudgetPayments, [], false⟩)

end AutoBudget

/-- The loop of `CheckAndRemove` over `mapFinalizedBudgets`: what is copied to the new map, the proposals, and the
checks. -/
def checkBudgets : List AutoBudget → List Listed → List AutoBudget × List Listed × List VoteCheck
  | [], mapProposals => ([], mapProposals, [])
  | b :: bs, mapProposals =>
    let b := { b with
      fValid := b.isValid env.toBudgetEnv (b.getHash hashes)
      nTime := (env.collateralTime b.nFeeTXHash).getD b.nTime }
    if b.fValid then
      let (b, mapProposals, check) := b.checkAndVote sorts env mapProposals
      let (bs, mapProposals, checks) := checkBudgets bs mapProposals
      (.copy b.toCFinalizedBudget :: bs, mapProposals, check.toList ++ checks)
    else checkBudgets bs mapProposals

/-- The loop of `CheckAndRemove` over `mapProposals`. -/
def checkProposals (hashes : BudgetHashes) (mapProposals : List Listed) : List Listed :=
  mapProposals.filterMap fun p =>
    if p.isValid env.toBudgetEnv (p.getHash hashes) then
      some { p with fValid := true, nTime := (env.collateralTime p.nFeeTXHash).getD p.nTime }
    else none

/-! ## What `GetBudget` leaves -/

section GetBudget

variable {env : PassingEnv} {p : Listed} {mapProposals : List Listed}

theorem cleanAndRemove_clean {γ : Type} (known : CTxIn → Bool) (mapVotes : VoteMap γ) :
    cleanAndRemove known (cleanAndRemove known mapVotes) = cleanAndRemove known mapVotes := by
  apply AList.ext
  simp only [cleanAndRemove, List.map_map]
  rfl

theorem clean_clean (env : PassingEnv) (p : Listed) : (p.clean env).clean env = p.clean env := by
  unfold Listed.clean
  rw [cleanAndRemove_clean]

/-- The proposal with an amount allotted; nothing else reads it. -/
def CBudgetProposal.Listed.allot (nAlloted : Int) (p : Listed) : Listed := { p with nAlloted }

theorem getBudgetLoop_allot {f : Listed → Int} {s e : Int} {mnCount : Nat} {nTotalBudget : Int} (ps : List Listed) :
    ∀ nBudgetAllocated : Int, getBudgetLoop env s e mnCount nTotalBudget (ps.map fun p => p.allot (f p))
      nBudgetAllocated = getBudgetLoop env s e mnCount nTotalBudget ps nBudgetAllocated := by
  induction ps with
  | nil => exact fun _ => rfl
  | cons p ps ih =>
    intro nBudgetAllocated
    have hpassing : (p.allot (f p)).isPassing env s e mnCount = p.isPassing env s e mnCount := rfl
    have hamount : (p.allot (f p)).getAmount = p.getAmount := rfl
    have hallotted : (p.allot (f p)).allotted = p.allotted := rfl
    simp only [List.map_cons, getBudgetLoop, hpassing, hamount, hallotted, ih]

theorem getBudget_allot {sort : List Listed → List Listed} (hsort : KeySort Listed.rank sort) (f : Listed → Int) :
    getBudget env sort (mapProposals.map fun p => (p.clean env).allot (f (p.clean env))) =
      getBudget env sort mapProposals := by
  have hranked : ranked env sort (mapProposals.map fun p => (p.clean env).allot (f (p.clean env))) =
      (ranked env sort mapProposals).map fun p => p.allot (f p) := by
    unfold ranked
    rw [← hsort.natural (fun p => p.allot (f p)) (fun _ => rfl), List.map_map, List.map_map]
    congr 1
    refine List.map_congr_left fun p _ => ?_
    show ((p.clean env).allot (f (p.clean env))).clean env = (p.clean env).allot (f (p.clean env))
    exact congrArg (Listed.allot (f (p.clean env))) (clean_clean env p)
  unfold getBudget
  rw [hranked]
  cases env.tipHeight with
  | none => rfl
  | some nHeight => exact getBudgetLoop_allot _ _

theorem hashes_getBudget_nodup {hashes : BudgetHashes} {sort : List Listed → List Listed}
    (hsort : KeySort Listed.rank sort) (hnodup : (mapProposals.map (Listed.getHash hashes)).Nodup) :
    ((getBudget env sort mapProposals).map (Listed.getHash hashes)).Nodup := by
  cases htip : env.tipHeight with
  | none =>
    have hnil : getBudget env sort mapProposals = [] := by
      unfold getBudget
      rw [htip]
    simp [hnil]
  | some nHeight =>
    rw [getBudget_eq htip, List.map_map]
    have hsub := (@fitting_sublist env nHeight (ranked env sort mapProposals)).map (Listed.getHash hashes)
    refine List.Nodup.sublist hsub ?_
    have hperm := (hsort.perm (mapProposals.map (Listed.clean env))).map (Listed.getHash hashes)
    rw [List.map_map] at hperm
    exact hperm.nodup_iff.mpr hnodup

end GetBudget

theorem allotAll_eq (mapProposals : List Listed) : ∃ f : Listed → Int, allotAll sorts env mapProposals =
    mapProposals.map fun p => (p.clean env.toPassingEnv).allot (f (p.clean env.toPassingEnv)) := by
  unfold allotAll
  cases env.tipHeight with
  | none => exact ⟨Listed.nAlloted, rfl⟩
  | some nHeight =>
    dsimp only
    refine ⟨fun p => if (getBudget env.toPassingEnv sorts.byVotes mapProposals).any fun q =>
      q.getHash hashes == p.getHash hashes then p.getAmount else if p.isPassing env.toPassingEnv
        (env.nextBlockStart nHeight) (env.nextBlockStart nHeight + env.nBudgetCycleBlocks - 1) env.countEnabled then 0
          else p.nAlloted, List.map_congr_left fun p _ => ?_⟩
    dsimp only
    split
    · rfl
    · split
      · rfl
      · rfl

theorem getBudget_allotAll (mapProposals : List Listed) :
    getBudget env.toPassingEnv sorts.byVotes (allotAll sorts env mapProposals) =
      getBudget env.toPassingEnv sorts.byVotes mapProposals := by
  obtain ⟨f, hf⟩ := allotAll_eq sorts env mapProposals
  rw [hf]
  exact getBudget_allot sorts.keySort_votes f

theorem hashes_allotAll (mapProposals : List Listed) : (allotAll sorts env mapProposals).map (Listed.getHash hashes) =
    mapProposals.map (Listed.getHash hashes) := by
  obtain ⟨f, hf⟩ := allotAll_eq sorts env mapProposals
  rw [hf, List.map_map]
  rfl

/-! ## What is compared -/

/-- What `CheckAndVote` compares of a payment. -/
def CTxBudgetPayment.shown (payment : CTxBudgetPayment) : Uint256 × String × Int :=
  (payment.nProposalHash, payment.payee.toString, payment.nAmount)

/-- The sorts put what is compared in the order of the hashes. -/
def hashOrder (shown : Uint256 × String × Int) : Natᵒᵈ := OrderDual.toDual shown.1.toNat

theorem hashOrder_shown (payment : CTxBudgetPayment) :
    hashOrder payment.shown = OrderDual.toDual payment.nProposalHash.toNat := rfl

/-- The payments are those that the proposals ask for, as multisets. -/
def ExactMatch (hashes : BudgetHashes) (payments : List CTxBudgetPayment) (proposals : List Listed) : Prop :=
  payments.Perm (proposals.map (Listed.payment hashes))

/-- The payments look like those that the proposals ask for. -/
def Resembles (hashes : BudgetHashes) (payments : List CTxBudgetPayment) (proposals : List Listed) : Prop :=
  proposals ≠ [] ∧
    (payments.map CTxBudgetPayment.shown).Perm (proposals.map fun p => (p.payment hashes).shown)

/-- The payments look like those that the proposals ask for, but one of them has another payee with the same text. -/
def Misleads (hashes : BudgetHashes) (payments : List CTxBudgetPayment) (proposals : List Listed) : Prop :=
  Resembles hashes payments proposals ∧
    ∃ payment ∈ payments, ∃ p ∈ proposals, payment.nProposalHash = p.getHash hashes ∧ payment.payee ≠ p.address

section Compare

variable {sorts} {payments : List CTxBudgetPayment} {proposals : List Listed}

theorem matchLoop_iff : ∀ {payments : List CTxBudgetPayment} {proposals : List Listed},
    proposals.length = payments.length → (AutoBudget.matchLoop hashes payments proposals = true ↔
      payments.map CTxBudgetPayment.shown = proposals.map fun p => (p.payment hashes).shown)
  | [], [], _ => by simp [AutoBudget.matchLoop]
  | payment :: payments, p :: ps, hlen => by
    simp only [AutoBudget.matchLoop, CFinalizedBudget.ite_false_iff, not_not, matchLoop_iff (Nat.succ.inj hlen),
      List.map_cons, List.cons.injEq, CTxBudgetPayment.shown, Listed.payment, Prod.mk.injEq, and_assoc]

theorem matchesProposals_iff (hnodup : (proposals.map (Listed.getHash hashes)).Nodup) :
    AutoBudget.matchesProposals sorts payments proposals = true ↔ Resembles hashes payments proposals := by
  have hlenP := (sorts.keySort_payments.perm payments).length_eq
  have hlenQ := (sorts.keySort_proposals.perm proposals).length_eq
  have hkeys : (proposals.map fun p => OrderDual.toDual (p.getHash hashes).toNat).Nodup := by
    have hinj : Function.Injective fun h : Uint256 => OrderDual.toDual h.toNat :=
      fun a b h => BitVec.eq_of_toNat_eq (OrderDual.toDual_inj.mp h)
    have h := hnodup.map hinj
    rwa [List.map_map] at h
  have hsorted : (sorts.paymentsByHash payments).map CTxBudgetPayment.shown =
      (sorts.proposalsByHash proposals).map (fun p => (p.payment hashes).shown) ↔ _ :=
    sorts.keySort_payments.map_sort_eq_iff sorts.keySort_proposals hashOrder_shown (fun _ => rfl) hkeys
  unfold AutoBudget.matchesProposals Resembles
  dsimp only
  rw [← hsorted]
  simp only [CFinalizedBudget.ite_false_iff, hlenP, hlenQ, ne_eq, List.length_eq_zero_iff]
  refine and_congr_right fun _ => ?_
  constructor
  · rintro ⟨hlen, h⟩
    rw [not_not] at hlen
    exact (matchLoop_iff (by omega)).mp h
  · intro h
    have hlen := congrArg List.length h
    rw [List.length_map, List.length_map, hlenP, hlenQ] at hlen
    exact ⟨by omega, (matchLoop_iff (by omega)).mpr h⟩

theorem Resembles.exact_iff (h : Resembles hashes payments proposals)
    (hnodup : (proposals.map (Listed.getHash hashes)).Nodup) :
    ExactMatch hashes payments proposals ↔ ¬ Misleads hashes payments proposals := by
  constructor
  · rintro hexact ⟨-, payment, hpayment, p, hp, hhash, hpayee⟩
    obtain ⟨q, hq, rfl⟩ := List.mem_map.mp (hexact.mem_iff.mp hpayment)
    have hqp : q = p := List.inj_on_of_nodup_map hnodup hq hp hhash
    exact hpayee (congrArg (fun p : Listed => p.address) hqp)
  · intro hmis
    have hpayee : ∀ payment ∈ payments, ∀ p ∈ proposals, payment.nProposalHash = p.getHash hashes →
        payment.payee = p.address := by
      intro payment hpayment p hp hhash
      by_contra hne
      exact hmis ⟨h, payment, hpayment, p, hp, hhash, hne⟩
    obtain ⟨l, hl, hmap⟩ := exists_perm_map h.2.symm
    have hlen := congrArg List.length hmap
    rw [List.length_map, List.length_map] at hlen
    have heq : l = proposals.map (Listed.payment hashes) := by
      refine List.ext_getElem (by rw [List.length_map, hlen]) fun i hi hi' => ?_
      have hip : i < proposals.length := by omega
      have hshown : l[i].shown = ((proposals[i]).payment hashes).shown := by
        have h := List.getElem_of_eq hmap (by rwa [List.length_map] : i < (l.map _).length)
        simpa using h
      simp only [CTxBudgetPayment.shown, Prod.mk.injEq] at hshown
      obtain ⟨hhash, -, hamount⟩ := hshown
      have hpay := hpayee _ (hl.mem_iff.mp (List.getElem_mem hi)) _ (List.getElem_mem hip) hhash
      rw [List.getElem_map]
      exact CTxBudgetPayment.mk.injEq .. ▸ ⟨hhash, hpay, hamount⟩
    rw [heq] at hl
    exact hl.symm

end Compare

/-! ## One `CheckAndRemove` -/

/-- `CheckAndVote` gets as far as the check of a budget that is not checked yet. -/
def AutoEnv.draws (nBudgetHash : Uint256) : Bool :=
  env.tipHeight.isSome && env.fMasterNode && env.randVote nBudgetHash % 4 == 0

/-- The check of a budget. -/
def checkOf (mapProposals : List Listed) (b : AutoBudget) : VoteCheck :=
  if env.strBudgetMode = "auto" then
    ⟨b.getHash hashes, b.vecBudgetPayments, getBudget env.toPassingEnv sorts.byVotes mapProposals,
      AutoBudget.matchesProposals sorts b.vecBudgetPayments (getBudget env.toPassingEnv sorts.byVotes mapProposals)⟩
  else ⟨b.getHash hashes, b.vecBudgetPayments, [], false⟩

namespace AutoBudget

variable {b : AutoBudget} {mapProposals : List Listed}

theorem getHash_submitVote (b : AutoBudget) : (b.submitVote hashes env).getHash hashes = b.getHash hashes := by
  unfold submitVote takeVote
  split
  · rfl
  · split
    · rfl
    · rfl

theorem checkAndVote_frame (mapProposals : List Listed) (b : AutoBudget) :
    (checkAndVote sorts env mapProposals b).1.getHash hashes = b.getHash hashes ∧
      (checkAndVote sorts env mapProposals b).2.1.map (Listed.getHash hashes) =
        mapProposals.map (Listed.getHash hashes) ∧
      getBudget env.toPassingEnv sorts.byVotes (checkAndVote sorts env mapProposals b).2.1 =
        getBudget env.toPassingEnv sorts.byVotes mapProposals := by
  unfold checkAndVote
  split
  · exact ⟨rfl, rfl, rfl⟩
  split
  · exact ⟨rfl, rfl, rfl⟩
  split
  · exact ⟨rfl, rfl, rfl⟩
  dsimp only
  split
  · refine ⟨?_, hashes_allotAll sorts env mapProposals, getBudget_allotAll sorts env mapProposals⟩
    dsimp only
    split
    · exact getHash_submitVote env _
    · rfl
  · exact ⟨rfl, rfl, rfl⟩

theorem checkAndVote_check (hb : b.fAutoChecked = false) : (checkAndVote sorts env mapProposals b).2.2 =
    if env.draws (b.getHash hashes) then some (checkOf sorts env mapProposals b) else none := by
  unfold checkAndVote AutoEnv.draws checkOf
  cases htip : env.tipHeight with
  | none => simp
  | some nHeight =>
    cases hmn : env.fMasterNode with
    | false => simp
    | true =>
      by_cases hrand : env.randVote (b.getHash hashes) % 4 = 0
      · by_cases hauto : env.strBudgetMode = "auto"
        · simp only [hb, hrand, hauto]
          rfl
        · simp [hb, hrand, hauto]
          rfl
      · simp [hb, hrand]

end AutoBudget

/-- `CheckAndRemove` keeps the budget. -/
def AutoEnv.keeps (hashes : BudgetHashes) (b : AutoBudget) : Bool := b.isValid env.toBudgetEnv (b.getHash hashes)

theorem nBudgetHash_checkOf (mapProposals : List Listed) (b : AutoBudget) :
    (checkOf sorts env mapProposals b).nBudgetHash = b.getHash hashes := by
  unfold checkOf
  split
  · rfl
  · rfl

theorem checkOf_congr {ps ps' : List Listed} (h : getBudget env.toPassingEnv sorts.byVotes ps' =
    getBudget env.toPassingEnv sorts.byVotes ps) : checkOf sorts env ps' = checkOf sorts env ps := by
  funext b
  unfold checkOf
  rw [h]

section Loop

variable {b : AutoBudget} {bs : List AutoBudget} {mapProposals : List Listed}

theorem checkBudgets_cons_of_not_keeps (hkeeps : env.keeps hashes b = false) :
    checkBudgets sorts env (b :: bs) mapProposals = checkBudgets sorts env bs mapProposals := by
  have hvalid : b.isValid env.toBudgetEnv (b.getHash hashes) = false := hkeeps
  simp only [checkBudgets, hvalid]
  rfl

theorem checkBudgets_cons_of_keeps (hkeeps : env.keeps hashes b = true) :
    ∃ (b' : AutoBudget) (ps : List Listed) (log : List VoteCheck), b'.getHash hashes = b.getHash hashes ∧
      ps.map (Listed.getHash hashes) = mapProposals.map (Listed.getHash hashes) ∧
      getBudget env.toPassingEnv sorts.byVotes ps = getBudget env.toPassingEnv sorts.byVotes mapProposals ∧
      (b.fAutoChecked = false →
        log = if env.draws (b.getHash hashes) then [checkOf sorts env mapProposals b] else []) ∧
      checkBudgets sorts env (b :: bs) mapProposals = (.copy b'.toCFinalizedBudget :: (checkBudgets sorts env bs ps).1,
        (checkBudgets sorts env bs ps).2.1, log ++ (checkBudgets sorts env bs ps).2.2) := by
  have hvalid : b.isValid env.toBudgetEnv (b.getHash hashes) = true := hkeeps
  let b₁ : AutoBudget := { b with fValid := true, nTime := (env.collateralTime b.nFeeTXHash).getD b.nTime }
  obtain ⟨hhash, hhashes, hget⟩ := b₁.checkAndVote_frame sorts env mapProposals
  refine ⟨(b₁.checkAndVote sorts env mapProposals).1, (b₁.checkAndVote sorts env mapProposals).2.1,
    (b₁.checkAndVote sorts env mapProposals).2.2.toList, hhash, hhashes, hget, fun hb => ?_, ?_⟩
  · rw [@AutoBudget.checkAndVote_check hashes sorts env b₁ mapProposals hb]
    show (if env.draws (b.getHash hashes) = true then some (checkOf sorts env mapProposals b) else none).toList = _
    split
    · rfl
    · rfl
  · simp only [checkBudgets, hvalid]
    rfl

theorem log_checkBudgets (hbs : ∀ b ∈ bs, b.fAutoChecked = false) : ∀ mapProposals : List Listed,
    (checkBudgets sorts env bs mapProposals).2.2 =
      (bs.filter fun b => env.keeps hashes b && env.draws (b.getHash hashes)).map (checkOf sorts env mapProposals) := by
  induction bs with
  | nil => exact fun _ => rfl
  | cons b bs ih =>
    intro mapProposals
    obtain ⟨hb, hrest⟩ := List.forall_mem_cons.mp hbs
    cases hkeeps : env.keeps hashes b with
    | false => rw [checkBudgets_cons_of_not_keeps sorts env hkeeps, ih hrest, List.filter_cons_of_neg (by simp [hkeeps])]
    | true =>
      obtain ⟨b', ps, log, -, -, hget, hlog, heq⟩ := @checkBudgets_cons_of_keeps hashes sorts env b bs mapProposals hkeeps
      rw [heq, ih hrest, checkOf_congr sorts env hget, hlog hb]
      cases hdraws : env.draws (b.getHash hashes) with
      | false => simp [hkeeps, hdraws]
      | true => simp [hkeeps, hdraws]

theorem hashes_checkBudgets (mapProposals : List Listed) :
    (checkBudgets sorts env bs mapProposals).1.map (AutoBudget.getHash hashes) =
      (bs.filter (env.keeps hashes)).map (AutoBudget.getHash hashes) := by
  induction bs generalizing mapProposals with
  | nil => rfl
  | cons b bs ih =>
    cases hkeeps : env.keeps hashes b with
    | false => rw [checkBudgets_cons_of_not_keeps sorts env hkeeps, ih, List.filter_cons_of_neg (by simp [hkeeps])]
    | true =>
      obtain ⟨b', ps, log, hhash, -, -, -, heq⟩ :=
        @checkBudgets_cons_of_keeps hashes sorts env b bs mapProposals hkeeps
      have hcopy : (AutoBudget.copy b'.toCFinalizedBudget).getHash hashes = b.getHash hashes := hhash
      rw [heq, List.filter_cons_of_pos hkeeps, List.map_cons, List.map_cons, ih, hcopy]

theorem unchecked_checkBudgets (mapProposals : List Listed) :
    ∀ b ∈ (checkBudgets sorts env bs mapProposals).1, b.fAutoChecked = false := by
  induction bs generalizing mapProposals with
  | nil => simp [checkBudgets]
  | cons b bs ih =>
    unfold checkBudgets
    dsimp only
    split
    · exact List.forall_mem_cons.mpr ⟨rfl, ih _⟩
    · exact ih _

theorem proposals_checkBudgets (mapProposals : List Listed) :
    (checkBudgets sorts env bs mapProposals).2.1.map (Listed.getHash hashes) =
      mapProposals.map (Listed.getHash hashes) := by
  induction bs generalizing mapProposals with
  | nil => rfl
  | cons b bs ih =>
    cases hkeeps : env.keeps hashes b with
    | false => rw [checkBudgets_cons_of_not_keeps sorts env hkeeps, ih]
    | true =>
      obtain ⟨b', ps, log, -, hhashes, -, -, heq⟩ :=
        @checkBudgets_cons_of_keeps hashes sorts env b bs mapProposals hkeeps
      rw [heq, ih, hhashes]

end Loop

/-! ## The node -/

section Items

variable {ι : Type} {hash : ι → Uint256} {item : ι} {l : List ι}

/-- `std::map::insert`, for items under their hashes. -/
def insertItem (hash : ι → Uint256) (item : ι) (l : List ι) : List ι :=
  if hash item ∈ l.map hash then l else l.orderedInsert (fun a b => (hash a).toNat ≤ (hash b).toNat) item

theorem mem_insertItem {x : ι} (h : x ∈ insertItem hash item l) : x = item ∨ x ∈ l := by
  unfold insertItem at h
  split at h
  · exact .inr h
  · exact List.mem_orderedInsert _ |>.mp h

theorem nodup_insertItem (h : (l.map hash).Nodup) : ((insertItem hash item l).map hash).Nodup := by
  unfold insertItem
  split
  · exact h
  · rename_i hnew
    have hperm := (List.perm_orderedInsert (fun a b => (hash a).toNat ≤ (hash b).toNat) item l).map hash
    exact hperm.nodup_iff.mpr (List.nodup_cons.mpr ⟨hnew, h⟩)

theorem nodup_map_of_hash {f : ι → ι} (hf : ∀ i, hash (f i) = hash i) (h : (l.map hash).Nodup) :
    ((l.map f).map hash).Nodup := by
  rw [List.map_map]
  have hsame : l.map (hash ∘ f) = l.map hash := List.map_congr_left fun i _ => hf i
  rwa [hsame]

end Items

/-- `mapFinalizedBudgets` and `mapProposals`. -/
structure AutoNode (hashes : BudgetHashes) where
  mapFinalizedBudgets : List AutoBudget
  mapProposals : List Listed
  budgets_nodup : (mapFinalizedBudgets.map (AutoBudget.getHash hashes)).Nodup
  proposals_nodup : (mapProposals.map (Listed.getHash hashes)).Nodup

/-- What changes the two maps. -/
inductive AutoOp where
  | checkAndRemove (env : AutoEnv)
  | addFinalizedBudget (env : BudgetEnv) (budget : CFinalizedBudget)
  | updateFinalizedBudget (env : BudgetEnv) (vote : CFinalizedBudgetVote)
  | addProposal (env : BudgetEnv) (proposal : Listed)
  | updateProposal (env : BudgetEnv) (vote : CBudgetVote)
  /-- The loops of `NewBlock` that clean the votes. -/
  | cleanAndRemove (env : PassingEnv)

/-- `CBudgetProposal::AddOrUpdateVote`. -/
def CBudgetProposal.Listed.takeVote (now : Int) (vote : CBudgetVote) (p : Listed) : Listed :=
  match addOrUpdateVote now p.mapVotes vote with
  | .error _ => p
  | .ok mapVotes => { p with mapVotes }

theorem CBudgetProposal.Listed.getHash_takeVote (now : Int) (vote : CBudgetVote) (p : Listed) :
    (p.takeVote now vote).getHash hashes = p.getHash hashes := by
  unfold Listed.takeVote
  split
  · rfl
  · rfl

theorem AutoBudget.takeVote_frame (now : Int) (vote : CFinalizedBudgetVote) (b : AutoBudget) :
    (b.takeVote now vote).getHash hashes = b.getHash hashes ∧ (b.takeVote now vote).fAutoChecked = b.fAutoChecked := by
  unfold AutoBudget.takeVote
  split
  · exact ⟨rfl, rfl⟩
  · exact ⟨rfl, rfl⟩

theorem nodup_checkProposals {mapProposals : List Listed} (h : (mapProposals.map (Listed.getHash hashes)).Nodup) :
    ((checkProposals env hashes mapProposals).map (Listed.getHash hashes)).Nodup := by
  refine h.sublist (sublist_map_filterMap (fun p q hq => ?_) _)
  split at hq
  · cases hq
    rfl
  · cases hq

namespace AutoNode

/-- The maps of a new manager. -/
def empty : AutoNode hashes := ⟨[], [], List.nodup_nil, List.nodup_nil⟩

/-- The keys of `mapFinalizedBudgets`. -/
def keys (n : AutoNode hashes) : List Uint256 := n.mapFinalizedBudgets.map (AutoBudget.getHash hashes)

variable (n : AutoNode hashes)

/-- `CBudgetManager::CheckAndRemove`, with the checks that it makes. -/
def checkAndRemove : AutoNode hashes × List VoteCheck :=
  let r := checkBudgets sorts env n.mapFinalizedBudgets n.mapProposals
  (⟨r.1, checkProposals env hashes r.2.1, by
    rw [hashes_checkBudgets]
    exact n.budgets_nodup.sublist (List.filter_sublist.map _), by
    refine nodup_checkProposals env ?_
    rw [proposals_checkBudgets]
    exact n.proposals_nodup⟩, r.2.2)

/-- `CBudgetManager::AddFinalizedBudget`. -/
def addFinalizedBudget (env : BudgetEnv) (budget : CFinalizedBudget) : AutoNode hashes :=
  if !budget.isValid env (hashes.getBudgetHash budget) then n
  else { n with
    mapFinalizedBudgets := insertItem (AutoBudget.getHash hashes) (.copy budget) n.mapFinalizedBudgets
    budgets_nodup := nodup_insertItem n.budgets_nodup }

/-- `CBudgetManager::UpdateFinalizedBudget`. -/
def updateFinalizedBudget (env : BudgetEnv) (vote : CFinalizedBudgetVote) : AutoNode hashes :=
  { n with
    mapFinalizedBudgets := n.mapFinalizedBudgets.map fun b =>
      if b.getHash hashes = vote.nHash then b.takeVote env.now vote else b
    budgets_nodup := by
      refine nodup_map_of_hash (fun b => ?_) n.budgets_nodup
      split
      · exact (b.takeVote_frame env.now vote).1
      · rfl }

/-- `CBudgetManager::AddProposal`. -/
def addProposal (env : BudgetEnv) (proposal : Listed) : AutoNode hashes :=
  if !proposal.isValid env (proposal.getHash hashes) then n
  else { n with
    mapProposals := insertItem (Listed.getHash hashes) { proposal with fValid := true } n.mapProposals
    proposals_nodup := nodup_insertItem n.proposals_nodup }

/-- `CBudgetManager::UpdateProposal`. -/
def updateProposal (env : BudgetEnv) (vote : CBudgetVote) : AutoNode hashes :=
  { n with
    mapProposals := n.mapProposals.map fun p => if p.getHash hashes = vote.nHash then p.takeVote env.now vote else p
    proposals_nodup := by
      refine nodup_map_of_hash (fun p => ?_) n.proposals_nodup
      split
      · exact p.getHash_takeVote env.now vote
      · rfl }

/-- The loops of `NewBlock` over the votes. -/
def cleanAndRemove (env : PassingEnv) : AutoNode hashes where
  mapFinalizedBudgets := n.mapFinalizedBudgets.map fun b =>
    { b with mapVotes := DigiWage.cleanAndRemove env.known b.mapVotes }
  mapProposals := n.mapProposals.map (Listed.clean env)
  budgets_nodup := nodup_map_of_hash (fun _ => rfl) n.budgets_nodup
  proposals_nodup := nodup_map_of_hash (fun _ => rfl) n.proposals_nodup

/-- One change of the maps, with the checks of `CheckAndVote`. -/
def step (n : AutoNode hashes) : AutoOp → AutoNode hashes × List VoteCheck
  | .checkAndRemove env => n.checkAndRemove sorts env
  | .addFinalizedBudget env budget => (n.addFinalizedBudget env budget, [])
  | .updateFinalizedBudget env vote => (n.updateFinalizedBudget env vote, [])
  | .addProposal env proposal => (n.addProposal env proposal, [])
  | .updateProposal env vote => (n.updateProposal env vote, [])
  | .cleanAndRemove env => (n.cleanAndRemove env, [])

/-- A run, with all its checks. -/
def run : AutoNode hashes → List AutoOp → AutoNode hashes × List VoteCheck
  | n, [] => (n, [])
  | n, op :: ops => ((run (n.step sorts op).1 ops).1, (n.step sorts op).2 ++ (run (n.step sorts op).1 ops).2)

/-! ## The flag -/

/-- Between the calls no budget is marked as checked. -/
def Unchecked (n : AutoNode hashes) : Prop := ∀ b ∈ n.mapFinalizedBudgets, b.fAutoChecked = false

variable {n} {op : AutoOp} {ops : List AutoOp}

theorem unchecked_empty : (empty : AutoNode hashes).Unchecked := by simp [Unchecked, empty]

theorem Unchecked.step (hn : n.Unchecked) (op : AutoOp) : (n.step sorts op).1.Unchecked := by
  cases op with
  | checkAndRemove env => exact unchecked_checkBudgets sorts env _
  | addFinalizedBudget env budget =>
    show (n.addFinalizedBudget env budget).Unchecked
    unfold addFinalizedBudget
    split
    · exact hn
    · intro b hb
      rcases mem_insertItem hb with rfl | hb
      · rfl
      · exact hn b hb
  | updateFinalizedBudget env vote =>
    intro b hb
    obtain ⟨b', hb', rfl⟩ := List.mem_map.mp hb
    split
    · exact (@AutoBudget.takeVote_frame hashes env.now vote b').2.trans (hn b' hb')
    · exact hn b' hb'
  | addProposal env proposal =>
    show (n.addProposal env proposal).Unchecked
    unfold addProposal
    split
    · exact hn
    · exact hn
  | updateProposal env vote => exact hn
  | cleanAndRemove env =>
    intro b hb
    obtain ⟨b', hb', rfl⟩ := List.mem_map.mp hb
    exact hn b' hb'

theorem Unchecked.run (hn : n.Unchecked) : (n.run sorts ops).1.Unchecked := by
  induction ops generalizing n with
  | nil => exact hn
  | cons op ops ih => exact ih (hn.step sorts op)

/-! ## Checked once -/

/-- The operation draws the budget with the hash. -/
def draws (nBudgetHash : Uint256) : AutoOp → Bool
  | .checkAndRemove env => env.draws nBudgetHash
  | _ => false

/-- The checks of the budget with the hash. -/
def countChecks (nBudgetHash : Uint256) (log : List VoteCheck) : Nat :=
  log.countP fun c => c.nBudgetHash == nBudgetHash

/-- The budget with the hash stays in the map during the run. -/
def Kept (nBudgetHash : Uint256) : AutoNode hashes → List AutoOp → Prop
  | n, [] => nBudgetHash ∈ n.keys
  | n, op :: ops => nBudgetHash ∈ n.keys ∧ Kept nBudgetHash (n.step sorts op).1 ops

variable {sorts} {nBudgetHash : Uint256}

theorem Kept.mem_keys (h : Kept sorts nBudgetHash n ops) : nBudgetHash ∈ n.keys := by
  cases ops with
  | nil => exact h
  | cons op ops => exact h.1

theorem countChecks_checkAndRemove {env : AutoEnv} (hn : n.Unchecked)
    (hkept : nBudgetHash ∈ (n.checkAndRemove sorts env).1.keys) :
    countChecks nBudgetHash (n.checkAndRemove sorts env).2 = if env.draws nBudgetHash then 1 else 0 := by
  have hkeys : (n.checkAndRemove sorts env).1.keys =
      (n.mapFinalizedBudgets.filter (env.keeps hashes)).map (AutoBudget.getHash hashes) := hashes_checkBudgets sorts env _
  have hlog : (n.checkAndRemove sorts env).2 = (n.mapFinalizedBudgets.filter fun b =>
      env.keeps hashes b && env.draws (b.getHash hashes)).map (checkOf sorts env n.mapProposals) :=
    log_checkBudgets sorts env hn _
  rw [hkeys] at hkept
  have hcount := List.count_eq_one_of_mem (n.budgets_nodup.sublist (List.filter_sublist.map _)) hkept
  rw [List.count, List.countP_map, List.countP_filter] at hcount
  rw [hlog, countChecks, List.countP_map, List.countP_filter]
  cases hdraws : env.draws nBudgetHash with
  | true =>
    rw [if_pos rfl, ← hcount]
    refine List.countP_congr fun b _ => ?_
    simp only [Function.comp_apply, nBudgetHash_checkOf, Bool.and_eq_true, beq_iff_eq]
    constructor
    · rintro ⟨hb, hkeeps, -⟩
      exact ⟨hb, hkeeps⟩
    · rintro ⟨hb, hkeeps⟩
      exact ⟨hb, hkeeps, by rw [hb, hdraws]⟩
  | false =>
    refine List.countP_eq_zero.mpr fun b _ => ?_
    simp only [Function.comp_apply, nBudgetHash_checkOf, Bool.and_eq_true, beq_iff_eq]
    rintro ⟨hb, -, hdrawn⟩
    rw [hb, hdraws] at hdrawn
    cases hdrawn

theorem countChecks_step (hn : n.Unchecked) (hkept : nBudgetHash ∈ (n.step sorts op).1.keys) :
    countChecks nBudgetHash (n.step sorts op).2 = if draws nBudgetHash op then 1 else 0 := by
  cases op with
  | checkAndRemove env => exact countChecks_checkAndRemove hn hkept
  | addFinalizedBudget env budget => rfl
  | updateFinalizedBudget env vote => rfl
  | addProposal env proposal => rfl
  | updateProposal env vote => rfl
  | cleanAndRemove env => rfl

theorem countChecks_run (hn : n.Unchecked) (hkept : Kept sorts nBudgetHash n ops) :
    countChecks nBudgetHash (n.run sorts ops).2 = ops.countP (draws nBudgetHash) := by
  induction ops generalizing n with
  | nil => rfl
  | cons op ops ih =>
    obtain ⟨-, hkept⟩ := hkept
    have hstep := countChecks_step hn hkept.mem_keys
    have hrest := ih (hn.step sorts op) hkept
    rw [run, countChecks, List.countP_append, ← countChecks, ← countChecks, hstep, hrest, List.countP_cons]
    omega

/-! ## Exact votes -/

/-- No budget that the operation draws looks like the proposals without being them. -/
def NoneMisleads (sorts : BudgetSorts hashes) (n : AutoNode hashes) : AutoOp → Prop
  | .checkAndRemove env => ∀ b ∈ n.mapFinalizedBudgets, env.keeps hashes b = true →
      env.draws (b.getHash hashes) = true → env.strBudgetMode = "auto" →
        ¬ Misleads hashes b.vecBudgetPayments (getBudget env.toPassingEnv sorts.byVotes n.mapProposals)
  | _ => True

/-- The check votes only for what the proposals ask for. -/
def Exact (hashes : BudgetHashes) (c : VoteCheck) : Prop :=
  c.submits = true → ExactMatch hashes c.vecBudgetPayments c.vBudgetProposals

theorem exact_checkOf_iff {env : AutoEnv} {mapProposals : List Listed}
    (hnodup : (mapProposals.map (Listed.getHash hashes)).Nodup) (b : AutoBudget) :
    Exact hashes (checkOf sorts env mapProposals b) ↔ (env.strBudgetMode = "auto" →
      ¬ Misleads hashes b.vecBudgetPayments (getBudget env.toPassingEnv sorts.byVotes mapProposals)) := by
  have hget := @hashes_getBudget_nodup env.toPassingEnv mapProposals hashes sorts.byVotes sorts.keySort_votes hnodup
  by_cases hauto : env.strBudgetMode = "auto"
  · have hcheck : checkOf sorts env mapProposals b = ⟨_, _, _, _⟩ := if_pos hauto
    simp only [hcheck, Exact, matchesProposals_iff hget, hauto, true_implies]
    constructor
    · intro h hmis
      exact (hmis.1.exact_iff hget).mp (h hmis.1) hmis
    · intro h hres
      exact (hres.exact_iff hget).mpr h
  · simp [Exact, checkOf, hauto]

theorem exact_step_iff (hn : n.Unchecked) : (∀ c ∈ (n.step sorts op).2, Exact hashes c) ↔ NoneMisleads sorts n op := by
  cases op with
  | checkAndRemove env =>
    have hlog : (n.step sorts (.checkAndRemove env)).2 = (n.mapFinalizedBudgets.filter fun b =>
        env.keeps hashes b && env.draws (b.getHash hashes)).map (checkOf sorts env n.mapProposals) :=
      log_checkBudgets sorts env hn _
    rw [hlog]
    simp only [NoneMisleads, List.forall_mem_map, List.mem_filter, Bool.and_eq_true, and_imp,
      exact_checkOf_iff n.proposals_nodup]
  | addFinalizedBudget env budget => simp [step, NoneMisleads]
  | updateFinalizedBudget env vote => simp [step, NoneMisleads]
  | addProposal env proposal => simp [step, NoneMisleads]
  | updateProposal env vote => simp [step, NoneMisleads]
  | cleanAndRemove env => simp [step, NoneMisleads]

theorem exact_run_iff (hn : n.Unchecked) : (∀ c ∈ (n.run sorts ops).2, Exact hashes c) ↔
    Meets (fun n op => some (n.step sorts op).1) (NoneMisleads sorts) n ops := by
  induction ops generalizing n with
  | nil => simp [run, Meets]
  | cons op ops ih =>
    have hrest := ih (hn.step sorts op)
    simp only [run, Meets, List.forall_mem_append, exact_step_iff hn, hrest, Option.some.injEq, forall_eq']

/-- The votes of a run are exact, and while a budget is kept it is checked at most once. -/
structure Automatic (sorts : BudgetSorts hashes) (ops : List AutoOp) : Prop where
  exact : ∀ c ∈ (run sorts empty ops).2, Exact hashes c
  once : ∀ (before during after : List AutoOp) (nBudgetHash : Uint256), ops = before ++ during ++ after →
    Kept sorts nBudgetHash (run sorts empty before).1 during →
      countChecks nBudgetHash (run sorts (run sorts empty before).1 during).2 ≤ 1

/-- The votes are exact and cast once exactly when no budget is drawn that looks like the proposals without being them,
and none is drawn twice while it is kept. -/
theorem automatic_iff (sorts : BudgetSorts hashes) (ops : List AutoOp) : Automatic sorts ops ↔
    Meets (fun n op => some (n.step sorts op).1) (NoneMisleads sorts) empty ops ∧
      ∀ (before during after : List AutoOp) (nBudgetHash : Uint256), ops = before ++ during ++ after →
        Kept sorts nBudgetHash (run sorts empty before).1 during → during.countP (draws nBudgetHash) ≤ 1 := by
  constructor
  · rintro ⟨hexact, honce⟩
    refine ⟨(exact_run_iff unchecked_empty).mp hexact, fun before during after nBudgetHash hops hkept => ?_⟩
    rw [← countChecks_run (unchecked_empty.run sorts) hkept]
    exact honce before during after nBudgetHash hops hkept
  · rintro ⟨hmeets, honce⟩
    refine ⟨(exact_run_iff unchecked_empty).mpr hmeets, fun before during after nBudgetHash hops hkept => ?_⟩
    rw [countChecks_run (unchecked_empty.run sorts) hkept]
    exact honce before during after nBudgetHash hops hkept

/-! ## A misleading budget, and one that is checked twice -/

/-- The sorts of `std::stable_sort`. -/
def stableSorts : BudgetSorts sampleHashes where
  byVotes := stableSort
  proposalsByHash := List.insertionSort fun p q =>
    OrderDual.toDual (q.getHash sampleHashes).toNat ≤ OrderDual.toDual (p.getHash sampleHashes).toNat
  paymentsByHash := List.insertionSort fun p q =>
    OrderDual.toDual q.nProposalHash.toNat ≤ OrderDual.toDual p.nProposalHash.toNat
  keySort_votes := keySort_insertionSort _
  keySort_proposals := keySort_insertionSort _
  keySort_payments := keySort_insertionSort _

/-- A masternode in auto mode whose `rand()` is always a multiple of four. -/
def autoNode : AutoEnv where
  toPassingEnv := nineNode
  fMasterNode := true
  strBudgetMode := "auto"
  randVote _ := 0
  signer := some ⟨⟨1, 0⟩, [], 0⟩
  collateralTime _ := none

/-- The hash of a key. -/
def keyHash : List UInt8 := List.replicate 20 7

/-- A proposal of ten coins for the key. -/
def proposalForKey : Listed :=
  { broadcast nineNode.toBudgetEnv "0" "" 1 (CScript.payToKeyHash (CScript.push keyHash)) (10 * COIN) 734400 1 with
    mapVotes := AList.singleton ⟨1, 0⟩ ⟨true, ⟨⟨1, 0⟩, [], 0⟩, 1, VOTE_YES, 0⟩
    nTime := 0
    nAlloted := 0 }

/-- A budget that pays it to another script, in which the key hash is pushed by `OP_PUSHDATA1`. -/
def twinBudget : CFinalizedBudget :=
  ⟨true, "main", 734400, [⟨1, CScript.payToKeyHash (CScript.OP_PUSHDATA1 :: 20 :: keyHash), 10 * COIN⟩], ∅, 8, 0⟩

/-- The checks are made by a masternode in auto mode. -/
def InAutoMode : AutoOp → Prop
  | .checkAndRemove env => env.fMasterNode = true ∧ env.strBudgetMode = "auto"
  | _ => True

/-- The proposal and the budget arrive, and are checked. -/
def twinRun : List AutoOp :=
  [.addProposal nineNode.toBudgetEnv proposalForKey, .addFinalizedBudget nineNode.toBudgetEnv twinBudget,
    .checkAndRemove autoNode]

theorem votes_twinBudget : (run stableSorts empty twinRun).2.map (fun c =>
    (c.submits, c.vecBudgetPayments, c.vBudgetProposals.map (Listed.payment sampleHashes))) =
      [(true, twinBudget.vecBudgetPayments, [proposalForKey.payment sampleHashes])] := by
  decide

/-- The votes of a masternode in auto mode are not exact, and it checks a budget that it keeps twice. -/
theorem not_automatic : (¬ ∀ (hashes : BudgetHashes) (sorts : BudgetSorts hashes) (ops : List AutoOp),
      (∀ op ∈ ops, InAutoMode op) → ∀ c ∈ (run sorts empty ops).2, Exact hashes c) ∧
    ¬ ∀ (hashes : BudgetHashes) (sorts : BudgetSorts hashes) (before during : List AutoOp) (nBudgetHash : Uint256),
      (∀ op ∈ before ++ during, InAutoMode op) → Kept sorts nBudgetHash (run sorts empty before).1 during →
        countChecks nBudgetHash (run sorts (run sorts empty before).1 during).2 ≤ 1 := by
  constructor
  · intro h
    obtain ⟨c, hlog, hc⟩ := List.map_eq_singleton_iff.mp votes_twinBudget
    simp only [Prod.mk.injEq] at hc
    obtain ⟨hsubmits, hpayments, hproposals⟩ := hc
    have hexact := h sampleHashes stableSorts twinRun (by simp [twinRun, InAutoMode, autoNode]) c
      (by rw [hlog]; exact List.mem_cons_self) hsubmits
    rw [ExactMatch, hpayments, hproposals] at hexact
    exact absurd hexact (by decide)
  · intro h
    have hkept : Kept stableSorts 2 (run stableSorts empty [.addFinalizedBudget nineNode.toBudgetEnv twinBudget]).1
        [.checkAndRemove autoNode, .checkAndRemove autoNode] :=
      ⟨by decide, by decide, (by decide : 2 ∈ AutoNode.keys _)⟩
    have honce := h sampleHashes stableSorts _ _ 2 (by simp [InAutoMode, autoNode]) hkept
    rw [countChecks_run (unchecked_empty.run stableSorts) hkept] at honce
    exact absurd honce (by decide)

end AutoNode

end DigiWage
