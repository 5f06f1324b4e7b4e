import Mathlib.Data.List.Find
import DigiWage.Lib.Election
import DigiWage.Masternode.Collateral
import DigiWage.Masternode.Payments
import DigiWage.Masternode.Scores

/-!
# The election of masternodes

`GetMasternodeRank` sorts the masternodes by their scores, of which it keeps the 32 bits of `GetCompact`, and
`GetNextMasternodeInQueueForPayment` by the time since their last payment, of which it looks at the first tenth. Both sorts
compare nothing else.

* `getLastPaid`, `secondsSincePayment`, `isScheduled` and `getNextMasternodeInQueueForPayment`.
* `queue_spec`: the queue elects the best score of the first tenth, in the words of `Lib.elect`.
-/

namespace DigiWage

open Lib

/-! ## The queue -/

def CMasternodeBlockPayees.hasPayeeWithVotes (b : CMasternodeBlockPayees) (payee : CScript) (nVotesReq : Int) : Bool :=
  b.vecPayments.any fun p => decide (nVotesReq ≤ p.nVotes) && p.scriptPubKey == payee

/-- What the queue depends on besides the chain and the list. -/
structure QueueEnv extends RankEnv where
  /-- `CHashWriter` for an input and a time. -/
  hashSigned : CTxIn → Int → Uint256
  masternodePayments : CMasternodePayments
  /-- `mn.sigTime + (nMnCount * 2.6 * 60) > GetAdjustedTime()`, which is computed in floating point. -/
  tooNew : Int → Nat → Bool

/-- The loop of `GetLastPaid`, along `pprev`. -/
def lastPaidLoop (t : BlockIndex) (isPaid : Int → Bool) (nOffset : Int) (nMnCount : Nat) : List Ptr → Nat → Int
  | [], _ => 0
  | p :: ps, n =>
    if t.nHeight p = 0 then 0
    else if nMnCount ≤ n then 0
    else if isPaid (t.nHeight p) then (t.entry p).nTime + nOffset
    else lastPaidLoop t isPaid nOffset nMnCount ps (n + 1)

namespace QueueEnv

variable (env : QueueEnv) (st : ScoreState)

/-- The script that pays a masternode. -/
def payee (mn : CMasternode) : CScript := env.node.getScriptForKey mn.pubKeyCollateralAddress

/-- `CMasternode::GetLastPaid`, for the number of enabled masternodes. -/
def getLastPaid (nEnabled : Nat) (mn : CMasternode) : Int :=
  match st.chain.tip with
  | none => 0
  | some tip =>
    let nOffset := getCompact (env.hashSigned mn.vin mn.sigTime) % 150
    let isPaid (nHeight : Int) :=
      (env.masternodePayments.mapMasternodeBlocks nHeight).any fun b => b.hasPayeeWithVotes (env.payee mn) 2
    -- `CountEnabled() * 1.25`
    lastPaidLoop st.chain.index isPaid nOffset (nEnabled * 5 / 4) (st.chain.index.path tip) 0

/-- `CMasternode::SecondsSincePayment`. -/
def secondsSincePayment (nEnabled : Nat) (mn : CMasternode) : Int :=
  let sec := env.node.getAdjustedTime - env.getLastPaid st nEnabled mn
  let month := 60 * 60 * 24 * 30
  if sec < month then sec else month + getCompact (env.hashSigned mn.vin mn.sigTime)

/-- `CMasternodePayments::IsScheduled`. -/
def isScheduled (mn : CMasternode) (nNotBlockHeight : Int) : Bool :=
  match st.chain.tip with
  | none => false
  | some tip => env.node.lockMain && (List.range 9).any fun i =>
    let h : Int := st.chain.index.nHeight tip + i
    h != nNotBlockHeight && env.masternodePayments.getBlockPayee h == some (env.payee mn)

/-- `CMasternode::GetMasternodeInputAge`, which remembers the age. -/
def getMasternodeInputAge (mn : CMasternode) : Int × CMasternode :=
  match st.chain.tip with
  | none => (0, mn)
  | some tip =>
    let nHeight : Int := st.chain.index.nHeight tip
    let mn' := if mn.cacheInputAge = 0 then
      { mn with cacheInputAge := env.node.getInputAge mn.vin, cacheInputAgeBlock := nHeight } else mn
    (mn'.cacheInputAge + (nHeight - mn'.cacheInputAgeBlock), mn')

/-- `CMasternodeMan::CountEnabled`, with the list after the checks. -/
def countEnabled (mns : List CMasternode) : Nat × List CMasternode :=
  let checked := mns.map fun mn => mn.check env.node false
  (checked.countP fun mn => !decide (mn.protocolVersion < env.node.minPaymentsProto) && mn.isEnabled, checked)

/-- What the loop of `GetNextMasternodeInQueueForPayment` does for one masternode. -/
def queueEntry (nBlockHeight : Int) (fFilterSigTime : Bool) (nMnCount nEnabled : Nat) (mn : CMasternode) :
    Option (Int × CTxIn) × CMasternode :=
  let mn := mn.check env.node false
  if !mn.isEnabled then (none, mn)
  else if mn.protocolVersion < env.node.minPaymentsProto then (none, mn)
  else if env.isScheduled st mn nBlockHeight then (none, mn)
  else if fFilterSigTime && env.tooNew mn.sigTime nMnCount then (none, mn)
  else
    let r := env.getMasternodeInputAge st mn
    if r.1 < nMnCount then (none, r.2) else (some (env.secondsSincePayment st nEnabled r.2, r.2.vin), r.2)

/-- The loop, which gives `vecMasternodeLastPaid` and the list after it. `GetLastPaid` counts the enabled masternodes anew
for each of them. -/
def queueLoop (nBlockHeight : Int) (fFilterSigTime : Bool) (mns : List CMasternode) :
    List (Int × CTxIn) × List CMasternode :=
  let counted := env.countEnabled mns
  let r := counted.2.map
    (env.queueEntry st nBlockHeight fFilterSigTime counted.1 (env.countEnabled counted.2).1)
  (r.filterMap Prod.fst, r.map Prod.snd)

/-- `vecMasternodeLastPaid` before it is sorted, and the list: the loop is run again without `fFilterSigTime` if it leaves
fewer than a third. -/
def lastPaid (nBlockHeight : Int) (fFilterSigTime : Bool) (mns : List CMasternode) :
    List (Int × CTxIn) × List CMasternode :=
  let r := env.queueLoop st nBlockHeight fFilterSigTime mns
  if fFilterSigTime && decide (r.1.length < (env.countEnabled mns).1 / 3) then env.queueLoop st nBlockHeight false r.2
  else r

/-- The loop over the sorted times. -/
def electLoop (nBlockHeight : Int) (nTenthNetwork : Nat) (man : CMasternodeMan) : List (Int × CTxIn) → ScoreState → Nat →
    Uint256 → Option CMasternode → Option CMasternode × ScoreState
  | [], st, _, _, best => (best, st)
  | s :: ss, st, nCountTenth, nHigh, best =>
    match man.find s.2 with
    | none => (best, st)
    | some pmn =>
      let r := st.calculateScore env.hash pmn (nBlockHeight - 100)
      let nHigh' := if nHigh < r.1 then r.1 else nHigh
      let best' := if nHigh < r.1 then some pmn else best
      if nTenthNetwork ≤ nCountTenth + 1 then (best', r.2)
      else electLoop nBlockHeight nTenthNetwork man ss r.2 (nCountTenth + 1) nHigh' best'

/-- `CMasternodeMan::GetNextMasternodeInQueueForPayment`, with `nCount`. -/
def getNextMasternodeInQueueForPayment (man : CMasternodeMan) (nBlockHeight : Int) (fFilterSigTime : Bool) :
    Option CMasternode × Nat × CMasternodeMan × ScoreState :=
  let r := env.lastPaid st nBlockHeight fFilterSigTime man.vMasternodes
  let counted := env.countEnabled r.2
  let man' := { man with vMasternodes := counted.2 }
  let elected := env.electLoop nBlockHeight (counted.1 / 10) man' (env.sort r.1) st 0 0 none
  (elected.1, r.1.length, man', elected.2)

end QueueEnv

/-! ## Ranks -/

theorem CMasternode.vin_check {env : MasternodeEnv} {mn : CMasternode} {b : Bool} : (mn.check env b).vin = mn.vin := by
  unfold check
  split_ifs <;> rfl

namespace RankEnv

variable {env : RankEnv} {st : ScoreState} {man : CMasternodeMan} {mns mns' : List CMasternode} {mn : CMasternode}
  {h minProtocol : Int} {fOnlyActive : Bool} {hash : Uint256} {s : Int × CTxIn}

theorem rankOf_eq_iff {vin : CTxIn} {l l' : List (Int × CTxIn)} : rankOf vin l = rankOf vin l' ↔
    place (fun s => s.2.prevout) vin.prevout l = place (fun s => s.2.prevout) vin.prevout l' := by
  unfold rankOf place
  generalize l.findIdx? _ = i
  generalize l'.findIdx? _ = j
  constructor
  · intro heq
    cases i <;> cases j <;> dsimp only at heq
    · rfl
    · omega
    · omega
    · exact congrArg some (by omega)
  · intro heq
    rw [heq]

theorem scoreOf_vin (hs : env.scoreOf hash minProtocol fOnlyActive mn = some s) : s.2 = mn.vin := by
  unfold scoreOf at hs
  split at hs
  · cases hs
  · dsimp only at hs
    split at hs
    · cases hs
    · cases hs
      unfold checked
      split
      · exact CMasternode.vin_check
      · rfl

/-- No two of the masternodes that are ranked have one score. -/
def Untied (env : RankEnv) (st : ScoreState) (mns : List CMasternode) (nBlockHeight minProtocol : Int)
    (fOnlyActive : Bool) : Prop :=
  ∀ hash ∈ (st.getBlockHash (int32 nBlockHeight)).1,
    ((mns.filterMap (env.scoreOf hash minProtocol fOnlyActive)).map Prod.fst).Nodup

theorem untied_iff (hx : (st.getBlockHash (int32 h)).1 = some hash) : env.Untied st mns h minProtocol fOnlyActive ↔
    ((mns.filterMap (env.scoreOf hash minProtocol fOnlyActive)).map Prod.fst).Nodup := by
  unfold Untied
  rw [hx]
  exact ⟨fun hall => hall hash rfl, fun hnodup x hx => by cases hx; exact hnodup⟩

theorem rank_iff (hsort : KeySort Prod.fst env.sort) (hdist : man.collaterals.Nodup) :
    (∀ mns', mns'.Perm man.vMasternodes → ∀ mn ∈ man.vMasternodes,
      (env.getMasternodeRank st { man with vMasternodes := mns' } mn.vin h minProtocol fOnlyActive).1 =
        (env.getMasternodeRank st man mn.vin h minProtocol fOnlyActive).1) ↔
      env.Untied st man.vMasternodes h minProtocol fOnlyActive := by
  simp only [getMasternodeRank_fst]
  cases hx : (st.getBlockHash (int32 h)).1 with
  | none =>
    refine iff_of_true (fun _ _ _ _ => rfl) fun hash hhash => ?_
    rw [hx] at hhash
    cases hhash
  | some hash =>
    rw [untied_iff hx]
    simp only [Option.map_some, Option.getD_some]
    have hnames : ((man.vMasternodes.filterMap (env.scoreOf hash minProtocol fOnlyActive)).map fun s => s.2.prevout).Nodup :=
      hdist.sublist (sublist_map_filterMap (fun mn s hs => congrArg CTxIn.prevout (scoreOf_vin hs)) _)
    constructor
    · intro hall
      refine (hsort.place_iff hnames).mp fun P' hP' s hs => ?_
      -- Any order of the scores comes from an order of the list.
      obtain ⟨mns', hmns', rfl⟩ := exists_perm_filterMap hP'
      obtain ⟨mn, hmn, hs⟩ := List.mem_filterMap.mp hs
      rw [scoreOf_vin hs]
      exact rankOf_eq_iff.mp (hall mns' hmns' mn hmn)
    · intro hkeys mns' hmns' mn _
      rw [hsort.sort_eq hkeys (hmns'.filterMap _)]

end RankEnv

/-! ## What the queue does with one masternode -/

namespace CMasternode

variable {env : MasternodeEnv} {mn mn' : CMasternode}

theorem checkedState_again : ({ mn with activeState := mn.checkedState env } : CMasternode).checkedState env =
    mn.checkedState env := by
  have hstate : ∀ s, ({ mn with activeState := s } : CMasternode).checkedState env =
      if s = .vinSpent then s
      else if !mn.isPingedWithin env MASTERNODE_REMOVAL_SECONDS (-1) then .remove
      else if !mn.isPingedWithin env MASTERNODE_EXPIRATION_SECONDS (-1) then .expired
      else if mn.lastPing.sigTime - mn.sigTime < MASTERNODE_MIN_MNP_SECONDS then .preEnabled
      else if mn.unitTest then .enabled
      else if !env.lockMain then s
      else if !env.acceptableInputs (env.collateralTx mn.vin) then .vinSpent
      else .enabled := fun _ => rfl
  have hself : mn.checkedState env = _ := hstate mn.activeState
  rw [hstate, hself]
  by_cases hspent : mn.activeState = .vinSpent
  · rw [if_pos hspent, if_pos hspent]
  rw [if_neg hspent]
  -- The state counts where it stays only.
  cases mn.isPingedWithin env MASTERNODE_REMOVAL_SECONDS (-1) with
  | false => rfl
  | true =>
    cases mn.isPingedWithin env MASTERNODE_EXPIRATION_SECONDS (-1) with
    | false => rfl
    | true =>
      by_cases hmin : mn.lastPing.sigTime - mn.sigTime < MASTERNODE_MIN_MNP_SECONDS
      · simp [hmin]
      · cases mn.unitTest with
        | true => simp [hmin]
        | false =>
          cases env.lockMain with
          | false => simp [hmin, hspent]
          | true =>
            cases env.acceptableInputs (env.collateralTx mn.vin) with
            | false => simp [hmin]
            | true => simp [hmin]

theorem check_check : (mn.check env false).check env false = mn.check env false := by
  by_cases hdown : env.shutdownRequested = true
  · unfold check
    rw [if_pos hdown, if_pos hdown]
  · by_cases hrecent : (!false && env.recentlyChecked mn.collateral) = true
    · have hcheck : mn.check env false = mn := by
        unfold check
        rw [if_neg hdown, if_pos hrecent]
      rw [hcheck, hcheck]
    · have hcheck : ∀ mn' : CMasternode, mn'.collateral = mn.collateral →
          mn'.check env false = { mn' with activeState := mn'.checkedState env } := by
        intro mn' heq
        unfold check
        rw [if_neg hdown, heq, if_neg hrecent]
      rw [hcheck mn rfl, hcheck { mn with activeState := mn.checkedState env } rfl, checkedState_again]

/-- The masternodes differ in the age that is remembered only. -/
def Aged (mn mn' : CMasternode) : Prop :=
  ∃ a b, mn' = { mn with cacheInputAge := a, cacheInputAgeBlock := b }

theorem Aged.refl (mn : CMasternode) : mn.Aged mn := ⟨mn.cacheInputAge, mn.cacheInputAgeBlock, rfl⟩

theorem Aged.check (haged : (mn.check env false).Aged mn') : mn'.check env false = mn' := by
  obtain ⟨a, b, rfl⟩ := haged
  have hset : ∀ mn : CMasternode, ({ mn with cacheInputAge := a, cacheInputAgeBlock := b } : CMasternode).check env false =
      { mn.check env false with cacheInputAge := a, cacheInputAgeBlock := b } := by
    intro mn
    unfold CMasternode.check
    split_ifs <;> rfl
  rw [hset, check_check]

end CMasternode

namespace QueueEnv

variable {env : QueueEnv} {st : ScoreState} {man : CMasternodeMan} {mns mns' : List CMasternode} {mn mn' : CMasternode}
  {h : Int} {f f' : Bool} {n m k : Nat} {s : Int × CTxIn}

theorem aged_getMasternodeInputAge (env : QueueEnv) (st : ScoreState) (mn : CMasternode) :
    mn.Aged (env.getMasternodeInputAge st mn).2 := by
  unfold getMasternodeInputAge
  split
  · exact .refl mn
  · dsimp only
    split
    · exact ⟨_, _, rfl⟩
    · exact .refl mn

theorem getMasternodeInputAge_again (env : QueueEnv) (st : ScoreState) (mn : CMasternode) :
    (env.getMasternodeInputAge st (env.getMasternodeInputAge st mn).2).1 = (env.getMasternodeInputAge st mn).1 := by
  cases htip : st.chain.tip with
  | none =>
    unfold getMasternodeInputAge
    rw [htip]
  | some tip =>
    by_cases hzero : mn.cacheInputAge = 0
    · have hnew : (env.getMasternodeInputAge st mn).2 =
          { mn with cacheInputAge := env.node.getInputAge mn.vin, cacheInputAgeBlock := st.chain.index.nHeight tip } := by
        unfold getMasternodeInputAge
        rw [htip]
        exact if_pos hzero
      rw [hnew]
      unfold getMasternodeInputAge
      rw [htip]
      dsimp only
      rw [if_pos hzero]
      split <;> rfl
    · have hold : (env.getMasternodeInputAge st mn).2 = mn := by
        unfold getMasternodeInputAge
        rw [htip]
        exact if_neg hzero
      rw [hold]

theorem queueEntry_check : env.queueEntry st h f n m (mn.check env.node false) = env.queueEntry st h f n m mn := by
  unfold queueEntry
  rw [CMasternode.check_check]

/-- The masternode is left out of the queue, whatever its age. -/
def isSkipped (env : QueueEnv) (st : ScoreState) (nBlockHeight : Int) (fFilterSigTime : Bool) (nMnCount : Nat)
    (mn : CMasternode) : Bool :=
  !mn.isEnabled || decide (mn.protocolVersion < env.node.minPaymentsProto) || env.isScheduled st mn nBlockHeight ||
    (fFilterSigTime && env.tooNew mn.sigTime nMnCount)

/-- The pair of a masternode in `vecMasternodeLastPaid`, for the number of enabled masternodes. -/
def queueTime (env : QueueEnv) (st : ScoreState) (nBlockHeight : Int) (fFilterSigTime : Bool) (nMnCount : Nat)
    (mn : CMasternode) : Option (Int × CTxIn) :=
  let mn' := mn.check env.node false
  if env.isSkipped st nBlockHeight fFilterSigTime nMnCount mn' || decide ((env.getMasternodeInputAge st mn').1 < nMnCount)
  then none else some (env.secondsSincePayment st nMnCount mn', mn'.vin)

theorem queueEntry_cases (env : QueueEnv) (st : ScoreState) (h : Int) (f : Bool) (n : Nat) (mn : CMasternode) :
    (env.queueEntry st h f n n mn).1 = env.queueTime st h f n mn ∧
      ((env.queueEntry st h f n n mn).2 = mn.check env.node false ∨
        (env.queueEntry st h f n n mn).2 = (env.getMasternodeInputAge st (mn.check env.node false)).2) := by
  obtain ⟨a, b, haged⟩ := aged_getMasternodeInputAge env st (mn.check env.node false)
  have hnone : ∀ {p : Bool} {x : Int × CTxIn}, p = true → (none : Option (Int × CTxIn)) = if p then none else some x :=
    fun hp => (if_pos hp).symm
  unfold queueEntry queueTime isSkipped
  dsimp only
  by_cases henabled : (!(mn.check env.node false).isEnabled) = true
  · rw [if_pos henabled]
    exact ⟨hnone (by simp [henabled]), .inl rfl⟩
  rw [if_neg henabled]
  by_cases hproto : (mn.check env.node false).protocolVersion < env.node.minPaymentsProto
  · rw [if_pos hproto]
    exact ⟨hnone (by simp [hproto]), .inl rfl⟩
  rw [if_neg hproto]
  by_cases hsched : env.isScheduled st (mn.check env.node false) h = true
  · rw [if_pos hsched]
    exact ⟨hnone (by simp [hsched]), .inl rfl⟩
  rw [if_neg hsched]
  by_cases hnew : (f && env.tooNew (mn.check env.node false).sigTime n) = true
  · rw [if_pos hnew]
    exact ⟨hnone (by simp [hnew]), .inl rfl⟩
  rw [if_neg hnew]
  by_cases hage : (env.getMasternodeInputAge st (mn.check env.node false)).1 < n
  · rw [if_pos hage]
    exact ⟨hnone (by simp [hage]), .inr rfl⟩
  rw [if_neg hage, if_neg (by simp [henabled, hproto, hsched, hnew, hage])]
  refine ⟨?_, .inr rfl⟩
  rw [haged]
  rfl

/-- The masternode counts as enabled. -/
def isCounted (env : QueueEnv) (mn : CMasternode) : Bool :=
  !decide ((mn.check env.node false).protocolVersion < env.node.minPaymentsProto) && (mn.check env.node false).isEnabled

theorem countEnabled_fst (env : QueueEnv) (mns : List CMasternode) :
    (env.countEnabled mns).1 = mns.countP env.isCounted := List.countP_map

theorem queueTime_check : env.queueTime st h f n (mn.check env.node false) = env.queueTime st h f n mn := by
  unfold queueTime
  rw [CMasternode.check_check]

theorem isCounted_check : env.isCounted (mn.check env.node false) = env.isCounted mn := by
  unfold isCounted
  rw [CMasternode.check_check]

theorem queueEntry_snd (env : QueueEnv) (st : ScoreState) (h : Int) (f : Bool) (n : Nat) (mn : CMasternode) :
    (env.queueEntry st h f n n mn).2.vin = mn.vin ∧ env.isCounted (env.queueEntry st h f n n mn).2 = env.isCounted mn ∧
      ∀ f', env.queueTime st h f' n (env.queueEntry st h f n n mn).2 = env.queueTime st h f' n mn := by
  rcases (env.queueEntry_cases st h f n mn).2 with heq | heq
  · rw [heq]
    exact ⟨CMasternode.vin_check, isCounted_check, fun _ => queueTime_check⟩
  · have haged := env.aged_getMasternodeInputAge st (mn.check env.node false)
    have hcheck := haged.check
    have hage := env.getMasternodeInputAge_again st (mn.check env.node false)
    rw [heq]
    obtain ⟨a, b, hset⟩ := haged
    refine ⟨?_, ?_, fun f' => ?_⟩
    · rw [hset]
      exact CMasternode.vin_check
    · unfold isCounted
      rw [hcheck, hset]
      rfl
    · unfold queueTime
      dsimp only
      rw [hcheck, hage, hset]
      rfl

/-! ## The order of the list -/

theorem countEnabled_perm (hmns : mns'.Perm mns) : (env.countEnabled mns').1 = (env.countEnabled mns).1 := by
  rw [countEnabled_fst, countEnabled_fst, hmns.countP_eq]

theorem countEnabled_map {g : CMasternode → CMasternode} (hg : ∀ mn, env.isCounted (g mn) = env.isCounted mn) :
    (env.countEnabled (mns.map g)).1 = (env.countEnabled mns).1 := by
  rw [countEnabled_fst, countEnabled_fst, List.countP_map]
  exact congrArg (List.countP · mns) (funext hg)

theorem queueLoop_eq (env : QueueEnv) (st : ScoreState) (h : Int) (f : Bool) (mns : List CMasternode) :
    env.queueLoop st h f mns = (mns.filterMap (env.queueTime st h f (env.countEnabled mns).1),
      mns.map fun mn => (env.queueEntry st h f (env.countEnabled mns).1 (env.countEnabled mns).1 mn).2) := by
  have hcount : (env.countEnabled (env.countEnabled mns).2).1 = (env.countEnabled mns).1 :=
    countEnabled_map fun _ => isCounted_check
  unfold queueLoop
  dsimp only
  rw [hcount]
  generalize (env.countEnabled mns).1 = n
  show (List.filterMap Prod.fst (List.map _ (List.map _ mns)), List.map Prod.snd (List.map _ (List.map _ mns))) = _
  rw [List.map_map, List.filterMap_map, List.map_map]
  refine Prod.ext (congrArg (List.filterMap · mns) (funext fun mn => ?_)) (congrArg (List.map · mns) (funext fun mn => ?_))
  · show (env.queueEntry st h f n n (mn.check env.node false)).1 = _
    rw [queueEntry_check, (env.queueEntry_cases st h f n mn).1]
  · show (env.queueEntry st h f n n (mn.check env.node false)).2 = _
    rw [queueEntry_check]

/-- The masternodes that wait for a payment, with the times since their last one. -/
def candidates (env : QueueEnv) (st : ScoreState) (nBlockHeight : Int) (fFilterSigTime : Bool) (mns : List CMasternode) :
    List (Int × CTxIn) :=
  let n := (env.countEnabled mns).1
  let filtered := mns.filterMap (env.queueTime st nBlockHeight fFilterSigTime n)
  if fFilterSigTime && decide (filtered.length < n / 3) then mns.filterMap (env.queueTime st nBlockHeight false n)
  else filtered

theorem queueTime_vin (hs : env.queueTime st h f n mn = some s) : s.2 = mn.vin := by
  unfold queueTime at hs
  dsimp only at hs
  split at hs
  · cases hs
  · cases hs
    exact CMasternode.vin_check

theorem lastPaid_spec (env : QueueEnv) (st : ScoreState) (h : Int) (f : Bool) (mns : List CMasternode) :
    ∃ (time : CMasternode → Option (Int × CTxIn)) (after : CMasternode → CMasternode),
      (∀ mn, (after mn).vin = mn.vin ∧ env.isCounted (after mn) = env.isCounted mn) ∧
      (∀ mn s, time mn = some s → s.2 = mn.vin) ∧
      ∀ mns', mns'.Perm mns → env.candidates st h f mns' = mns'.filterMap time ∧
        env.lastPaid st h f mns' = (mns'.filterMap time, mns'.map after) := by
  obtain ⟨n, hn⟩ : ∃ n, (env.countEnabled mns).1 = n := ⟨_, rfl⟩
  have hcount : ∀ {mns' : List CMasternode}, mns'.Perm mns → (env.countEnabled mns').1 = n :=
    fun hmns' => (countEnabled_perm hmns').trans hn
  have hlength : ∀ {mns' : List CMasternode}, mns'.Perm mns → (mns'.filterMap (env.queueTime st h f n)).length =
      (mns.filterMap (env.queueTime st h f n)).length := fun hmns' => (hmns'.filterMap _).length_eq
  by_cases hfew : (f && decide ((mns.filterMap (env.queueTime st h f n)).length < n / 3)) = true
  · -- The loop is run again, on the list that it left.
    refine ⟨env.queueTime st h false n, fun mn => (env.queueEntry st h false n n (env.queueEntry st h f n n mn).2).2,
      fun mn => ?_, fun mn s hs => queueTime_vin hs, fun mns' hmns' => ?_⟩
    · obtain ⟨hvin, hcounted, -⟩ := env.queueEntry_snd st h f n mn
      obtain ⟨hvin', hcounted', -⟩ := env.queueEntry_snd st h false n (env.queueEntry st h f n n mn).2
      exact ⟨hvin'.trans hvin, hcounted'.trans hcounted⟩
    · have hagain : (env.countEnabled (mns'.map fun mn => (env.queueEntry st h f n n mn).2)).1 = n :=
        (countEnabled_map fun mn => (env.queueEntry_snd st h f n mn).2.1).trans (hcount hmns')
      have htimes : env.queueTime st h false n ∘ (fun mn => (env.queueEntry st h f n n mn).2) =
          env.queueTime st h false n := funext fun mn => (env.queueEntry_snd st h f n mn).2.2 false
      unfold candidates lastPaid
      rw [queueLoop_eq]
      dsimp only
      rw [hcount hmns', hlength hmns', if_pos hfew, if_pos hfew, queueLoop_eq, hagain, List.filterMap_map, htimes, List.map_map]
      exact ⟨rfl, rfl⟩
  · refine ⟨env.queueTime st h f n, fun mn => (env.queueEntry st h f n n mn).2, fun mn => ?_, fun mn s hs => queueTime_vin hs,
      fun mns' hmns' => ?_⟩
    · obtain ⟨hvin, hcounted, -⟩ := env.queueEntry_snd st h f n mn
      exact ⟨hvin, hcounted⟩
    · unfold candidates lastPaid
      rw [queueLoop_eq]
      dsimp only
      rw [hcount hmns', hlength hmns', if_neg hfew, if_neg hfew]
      exact ⟨rfl, rfl⟩

/-! ## The loop over the first tenth -/

/-- The score of a candidate. -/
def score (env : QueueEnv) (st : ScoreState) (nBlockHeight : Int) (s : Int × CTxIn) : Nat :=
  (((st.getBlockHash (int32 (nBlockHeight - 100))).1.map (env.hash.score s.2.prevout)).getD 0).toNat

theorem getBlockHash_calculateScore (H : ScoreHash) : ((st.calculateScore H mn h).2.getBlockHash (int32 h)).1 =
    (st.getBlockHash (int32 h)).1 := by
  have hstate : (st.calculateScore H mn h).2 = st ∨ (st.calculateScore H mn h).2 = (st.getBlockHash (int32 h)).2 := by
    unfold ScoreState.calculateScore
    split
    · exact .inl rfl
    · dsimp only
      split <;> exact .inr rfl
  rcases hstate with heq | heq
  · rw [heq]
  · rw [heq]
    rcases st.getBlockHash_cases (int32 h) with hsame | ⟨-, x, hx⟩
    · rw [hsame]
    · have hsome : (st.getBlockHash (int32 h)).1 = some x := congrArg Prod.fst hx
      rw [ScoreState.getBlockHash_again hsome, hsome]

theorem electLoop_fst (l : List (Int × CTxIn)) : ∀ (best : Option (Int × CTxIn)) {st' : ScoreState} {c : Nat}
    {nHigh : Uint256}, (∀ s ∈ l, (man.find s.2).isSome) →
    (st'.getBlockHash (int32 (h - 100))).1 = (st.getBlockHash (int32 (h - 100))).1 →
    (env.electLoop h k man l st' c nHigh (best.bind fun s => man.find s.2)).1 =
      (electFrom (env.score st h) (l.take (max 1 (k - c))) nHigh.toNat best).bind fun s => man.find s.2 := by
  induction l with
  | nil =>
    intro best st' c nHigh _ _
    rw [List.take_nil]
    rfl
  | cons s l ih =>
    intro best st' c nHigh hfind hst
    obtain ⟨pmn, hpmn⟩ := Option.isSome_iff_exists.mp (hfind s List.mem_cons_self)
    have hscore : (st'.calculateScore env.hash pmn (h - 100)).1.toNat = env.score st h s := by
      unfold score
      rw [ScoreState.calculateScore_fst, hst, CMasternodeMan.collateral_of_find hpmn]
    have hlt : nHigh < (st'.calculateScore env.hash pmn (h - 100)).1 ↔ nHigh.toNat < env.score st h s := by
      rw [← hscore, BitVec.lt_def]
    have hrest : ∀ {nHigh : Uint256} {best : Option (Int × CTxIn)}, ¬ k ≤ c + 1 →
        (env.electLoop h k man l (st'.calculateScore env.hash pmn (h - 100)).2 (c + 1) nHigh
          (best.bind fun s => man.find s.2)).1 =
            (electFrom (env.score st h) (l.take (max 1 (k - c) - 1)) nHigh.toNat best).bind fun s => man.find s.2 := by
      intro nHigh best hk
      rw [ih _ (fun s hs => hfind s (List.mem_cons_of_mem _ hs)) (getBlockHash_calculateScore env.hash |>.trans hst)]
      congr 4
      omega
    have hdone : ∀ {best : Option (Int × CTxIn)} {nHigh : Nat}, k ≤ c + 1 →
        electFrom (env.score st h) (l.take (max 1 (k - c) - 1)) nHigh best = best := by
      intro best nHigh hk
      have hzero : max 1 (k - c) - 1 = 0 := by omega
      rw [hzero, List.take_zero]
      rfl
    have htake : (s :: l).take (max 1 (k - c)) = s :: l.take (max 1 (k - c) - 1) := by
      rw [← List.take_succ_cons]
      congr 1
      omega
    unfold electLoop
    rw [hpmn, htake, electFrom]
    dsimp only
    by_cases hbetter : nHigh.toNat < env.score st h s
    · have hbest : some pmn = (some s).bind fun s => man.find s.2 := hpmn.symm
      rw [if_pos (hlt.mpr hbetter), if_pos (hlt.mpr hbetter), if_pos hbetter, hbest]
      by_cases hk : k ≤ c + 1
      · rw [if_pos hk, hdone hk]
      · rw [if_neg hk, hrest hk, hscore]
    · rw [if_neg (hlt.not.mpr hbetter), if_neg (hlt.not.mpr hbetter), if_neg hbetter]
      by_cases hk : k ≤ c + 1
      · rw [if_pos hk, hdone hk]
      · rw [if_neg hk, hrest hk]

/-- The number of candidates that the loop looks at. -/
def tenth (env : QueueEnv) (mns : List CMasternode) : Nat := max 1 ((env.countEnabled mns).1 / 10)

theorem queue_spec (hsort : KeySort Prod.fst env.sort) (hdist : man.collaterals.Nodup) (st : ScoreState) (h : Int)
    (f : Bool) :
    ∃ (time : CMasternode → Option (Int × CTxIn)) (found : Int × CTxIn → Option CMasternode),
      (∀ mns', mns'.Perm man.vMasternodes → env.candidates st h f mns' = mns'.filterMap time ∧
        (env.getNextMasternodeInQueueForPayment st { man with vMasternodes := mns' } h f).1 =
          (elect (env.score st h) ((env.sort (env.candidates st h f mns')).take (env.tenth man.vMasternodes))).bind found) ∧
      ((man.vMasternodes.filterMap time).map fun s => s.2.prevout).Nodup ∧
      ∀ s ∈ man.vMasternodes.filterMap time, ∃ mn, found s = some mn ∧ mn.collateral = s.2.prevout := by
  obtain ⟨time, after, hafter, htime, hperm⟩ := env.lastPaid_spec st h f man.vMasternodes
  let list (mns : List CMasternode) : List CMasternode := (mns.map after).map fun mn => mn.check env.node false
  have hcols : ∀ mns, (list mns).map (·.collateral) = mns.map (·.collateral) := by
    intro mns
    rw [List.map_map, List.map_map]
    refine List.map_congr_left fun mn _ => congrArg CTxIn.prevout ?_
    exact CMasternode.vin_check.trans (hafter mn).1
  have hfound : ∀ {mns s}, s ∈ mns.filterMap time →
      ∃ mn, (list mns).find? (fun mn => decide (mn.collateral = s.2.prevout)) = some mn ∧ mn.collateral = s.2.prevout := by
    intro mns s hs
    obtain ⟨mn, hmn, hs⟩ := List.mem_filterMap.mp hs
    have hmem : s.2.prevout ∈ (list mns).map (·.collateral) := by
      rw [hcols, htime mn s hs]
      exact List.mem_map_of_mem hmn
    obtain ⟨mn', hmn', heq⟩ := List.mem_map.mp hmem
    have hsome : ((list mns).find? fun mn => decide (mn.collateral = s.2.prevout)).isSome :=
      List.find?_isSome.mpr ⟨mn', hmn', decide_eq_true heq⟩
    obtain ⟨x, hx⟩ := Option.isSome_iff_exists.mp hsome
    have hx' := List.find?_some hx
    exact ⟨x, hx, of_decide_eq_true hx'⟩
  refine ⟨time, fun s => (list man.vMasternodes).find? fun mn => decide (mn.collateral = s.2.prevout),
    fun mns' hmns' => ?_, ?_, fun s hs => hfound hs⟩
  · obtain ⟨hcand, hlast⟩ := hperm mns' hmns'
    refine ⟨hcand, ?_⟩
    have hcount : (env.countEnabled (mns'.map after)).1 = (env.countEnabled man.vMasternodes).1 :=
      (countEnabled_map fun mn => (hafter mn).2).trans (countEnabled_perm hmns')
    -- The list is one with distinct outpoints, so `Find` finds the same in any order.
    have hsame : ∀ s : Int × CTxIn, ({ man with vMasternodes := list mns' } : CMasternodeMan).find s.2 =
        (list man.vMasternodes).find? fun mn => decide (mn.collateral = s.2.prevout) := by
      intro s
      refine List.find?_eq_find?_of_perm ((hmns'.map _).map _) fun a ha b hb => ?_
      have hnodup : ((list mns').map (·.collateral)).Nodup := by
        rw [hcols]
        exact (hmns'.map _).nodup_iff.mpr hdist
      exact List.inj_on_of_nodup_map hnodup ha.1 hb.1 ((of_decide_eq_true ha.2).trans (of_decide_eq_true hb.2).symm)
    have hall : ∀ s ∈ env.sort (mns'.filterMap time),
        (({ man with vMasternodes := list mns' } : CMasternodeMan).find s.2).isSome := by
      intro s hs
      obtain ⟨mn, hmn, -⟩ := hfound ((hsort.perm _).mem_iff.mp hs)
      exact Option.isSome_iff_exists.mpr ⟨mn, hmn⟩
    unfold getNextMasternodeInQueueForPayment elect tenth
    dsimp only
    rw [hlast, hcand, hcount]
    refine (electLoop_fst _ none hall rfl).trans ?_
    rw [Nat.sub_zero]
    exact congrArg _ (funext hsame)
  · exact hdist.sublist (sublist_map_filterMap (fun mn s hs => congrArg CTxIn.prevout (htime mn s hs)) _)

theorem queue_iff (hsort : KeySort Prod.fst env.sort) (hdist : man.collaterals.Nodup) :
    (∀ mns', mns'.Perm man.vMasternodes →
      (env.getNextMasternodeInQueueForPayment st { man with vMasternodes := mns' } h f).1 =
        (env.getNextMasternodeInQueueForPayment st man h f).1) ↔
      Settled Prod.fst (env.score st h) (env.tenth man.vMasternodes) (env.candidates st h f man.vMasternodes) := by
  obtain ⟨time, found, hperm, hnames, hfound⟩ := queue_spec hsort hdist st h f
  obtain ⟨hcand, hself⟩ := hperm man.vMasternodes (.refl _)
  have hself : (env.getNextMasternodeInQueueForPayment st man h f).1 = _ := hself
  rw [hcand] at hself
  rw [hcand, ← hsort.elect_iff (hnames.of_map _)]
  have hmem : ∀ {P' s}, P'.Perm (man.vMasternodes.filterMap time) →
      elect (env.score st h) ((env.sort P').take (env.tenth man.vMasternodes)) = some s →
        s ∈ man.vMasternodes.filterMap time := by
    intro P' s hP' hs
    obtain ⟨pre, post, heq, -⟩ := elect_eq_some_iff.mp hs
    refine ((hsort.perm P').trans hP').mem_iff.mp (List.mem_of_mem_take (i := env.tenth man.vMasternodes) ?_)
    rw [heq]
    exact List.mem_append_right _ List.mem_cons_self
  constructor
  · intro hall P' hP'
    obtain ⟨mns', hmns', hP'eq⟩ := exists_perm_filterMap hP'
    obtain ⟨hcand', heq⟩ := hperm mns' hmns'
    rw [hall mns' hmns', hself, hcand', hP'eq] at heq
    -- The entries of the list are those of the candidates.
    cases hnew : elect (env.score st h) ((env.sort P').take (env.tenth man.vMasternodes)) with
    | none =>
      cases hold : elect (env.score st h) ((env.sort _).take (env.tenth man.vMasternodes)) with
      | none => rfl
      | some s =>
        obtain ⟨mn, hmn, -⟩ := hfound s (hmem (.refl _) hold)
        rw [hnew, hold, Option.bind_some, hmn] at heq
        cases heq
    | some s' =>
      obtain ⟨mn', hmn', hcol'⟩ := hfound s' (hmem hP' hnew)
      cases hold : elect (env.score st h) ((env.sort _).take (env.tenth man.vMasternodes)) with
      | none =>
        rw [hnew, hold, Option.bind_some, hmn'] at heq
        cases heq
      | some s =>
        obtain ⟨mn, hmn, hcol⟩ := hfound s (hmem (.refl _) hold)
        rw [hnew, hold, Option.bind_some, Option.bind_some, hmn, hmn'] at heq
        cases heq
        rw [List.inj_on_of_nodup_map hnames (hmem hP' hnew) (hmem (.refl _) hold) (hcol'.symm.trans hcol)]
  · intro hall mns' hmns'
    obtain ⟨hcand', heq⟩ := hperm mns' hmns'
    rw [heq, hself, hcand', hall _ (hmns'.filterMap time)]

/-- The order in which a node learned of the masternodes does not matter for the ranks and the queue exactly if no two of
the scores tie, and the election in the queue is settled by the times of the last payments. -/
theorem election_iff (env : QueueEnv) (st : ScoreState) (man : CMasternodeMan) (hsort : KeySort Prod.fst env.sort)
    (hdist : man.collaterals.Nodup) (nRankHeight minProtocol : Int) (fOnlyActive : Bool) (nBlockHeight : Int)
    (fFilterSigTime : Bool) :
    (∀ mns', mns'.Perm man.vMasternodes →
      (∀ mn ∈ man.vMasternodes,
        (env.getMasternodeRank st { man with vMasternodes := mns' } mn.vin nRankHeight minProtocol fOnlyActive).1 =
          (env.getMasternodeRank st man mn.vin nRankHeight minProtocol fOnlyActive).1) ∧
      (env.getNextMasternodeInQueueForPayment st { man with vMasternodes := mns' } nBlockHeight fFilterSigTime).1 =
        (env.getNextMasternodeInQueueForPayment st man nBlockHeight fFilterSigTime).1) ↔
      env.Untied st man.vMasternodes nRankHeight minProtocol fOnlyActive ∧
      Settled Prod.fst (env.score st nBlockHeight) (env.tenth man.vMasternodes)
        (env.candidates st nBlockHeight fFilterSigTime man.vMasternodes) := by
  rw [← RankEnv.rank_iff hsort hdist, ← queue_iff hsort hdist, ← forall_and]
  exact forall_congr' fun mns' => imp_and

/-- A node whose hashes are numbers that differ from the given bit on. -/
def sampleQueue (bit : Nat) : QueueEnv where
  node := sampleNode 3000000
  hash := ⟨fun _ => 0, fun _ aux => BitVec.ofNat 256 (2 ^ 252 + 2 ^ bit * aux.toNat)⟩
  paymentEnforcement := true
  sort := List.insertionSort fun s s' => s'.1 ≤ s.1
  hashSigned vin _ := BitVec.ofNat 256 (2 ^ 252 + 2 ^ bit * vin.prevout.n)
  masternodePayments := .empty
  tooNew sigTime nMnCount := decide (3000000 < sigTime + nMnCount * 156)

/-- Two masternodes that were announced long ago. -/
def sampleList : CMasternodeMan :=
  { CMasternodeMan.empty with
    vMasternodes := [(0, 1), (1, 3)].map fun (n, key) => .ofBroadcast (sampleBroadcast n key 1000 2999000 MESS_VER_HASH) }

/-- The chain of a genesis block and two blocks. -/
def sampleChain : ScoreState := (ScoreState.connectSecond.foldlM ScoreState.step ScoreState.init).get
  ScoreState.replaceTip_isSome.2.2

theorem sampleChain_hash : (sampleChain.getBlockHash (int32 3)).1 = some 4 := by decide

theorem election_iff_two :
    (∀ mn ∈ sampleList.vMasternodes,
      ((sampleQueue 240).getMasternodeRank sampleChain
          { sampleList with vMasternodes := sampleList.vMasternodes.reverse } mn.vin 3 70000 true).1 =
        ((sampleQueue 240).getMasternodeRank sampleChain sampleList mn.vin 3 70000 true).1) ∧
    ((sampleQueue 240).getNextMasternodeInQueueForPayment sampleChain
        { sampleList with vMasternodes := sampleList.vMasternodes.reverse } 103 true).1 =
      ((sampleQueue 240).getNextMasternodeInQueueForPayment sampleChain sampleList 103 true).1 :=
  (election_iff (sampleQueue 240) sampleChain sampleList (keySort_insertionSort Prod.fst) (by decide) 3 70000 true 103
    true).mpr ⟨(RankEnv.untied_iff sampleChain_hash).mpr (by decide), by decide⟩ _ (List.reverse_perm _)

/-- Two scores that differ in the last bits have one compact form, and the order of the list decides. -/
theorem election_order : ¬ ∀ (env : QueueEnv) (st : ScoreState) (man : CMasternodeMan), KeySort Prod.fst env.sort →
    man.collaterals.Nodup → (∀ mn ∈ man.vMasternodes, (mn.check env.node false).isEnabled = true) →
    ∀ mns', mns'.Perm man.vMasternodes → ∀ (h minProtocol : Int) (fOnlyActive : Bool) (nBlockHeight : Int)
      (fFilterSigTime : Bool),
      (∀ mn ∈ man.vMasternodes,
        (env.getMasternodeRank st { man with vMasternodes := mns' } mn.vin h minProtocol fOnlyActive).1 =
          (env.getMasternodeRank st man mn.vin h minProtocol fOnlyActive).1) ∧
      (env.getNextMasternodeInQueueForPayment st { man with vMasternodes := mns' } nBlockHeight fFilterSigTime).1 =
        (env.getNextMasternodeInQueueForPayment st man nBlockHeight fFilterSigTime).1 := by
  intro hall
  have hranks := (hall (sampleQueue 0) sampleChain sampleList (keySort_insertionSort Prod.fst) (by decide)
    (by decide) sampleList.vMasternodes.reverse (List.reverse_perm _) 3 70000 true 103 true).1
  revert hranks
  decide

end QueueEnv

end DigiWage
