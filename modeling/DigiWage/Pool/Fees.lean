import DigiWage.Lib.Samples
import DigiWage.Pool.Accept

/-!
# Fee estimates

`CMinerPolicyEstimator` of `txmempool.cpp`: how long transactions with a fee or with a priority waited for a block.

* `Fresh`: the cache is empty or has the samples of the history, sorted. Each call keeps it (`Fresh.step`).
* `estimate_spec`: with a fresh cache an estimate is the one from scratch and does not rise with the number of blocks.

`double` is an ordered type, with `none` for a priority that is not a number.
-/

namespace DigiWage

open Lib

/-- `CFeeRate`: zens for 1000 bytes. -/
abbrev CFeeRate := Int

/-- `CFeeRate(nFeePaid, nSize)`, whose division is unsigned. -/
def CFeeRate.ofFee (nFeePaid : Int) (nSize : Nat) : CFeeRate :=
  if 0 < nSize then int64 ((nFeePaid * 1000 % 2 ^ 64) / nSize) else 0

structure CBlockAverage (P : Type) where
  feeSamples : CircularBuffer CFeeRate 100
  prioritySamples : CircularBuffer P 100

/-- What the estimator reads of a `CTxMemPoolEntry`. -/
structure ConfirmedEntry (P : Type) where
  nFee : Int
  nTxSize : Nat
  nHeight : Nat
  /-- `GetPriority(GetHeight())`. -/
  dPriority : Option P

structure CMinerPolicyEstimator (P : Type) where
  history : List (CBlockAverage P)
  /-- `assert(history.size() > 0)`. -/
  pos : 0 < history.length
  sortedFeeSamples : List CFeeRate
  sortedPrioritySamples : List P
  nBestSeenHeight : Int

/-- A call, with what `std::random_shuffle` does to a bucket and whether "estimatefee" is logged. -/
inductive FeeOp (P : Type) where
  | seenBlock (entries : List (ConfirmedEntry P)) (nBlockHeight : Int) (minRelayFee : CFeeRate)
      (shuffle : List (ConfirmedEntry P) → List (ConfirmedEntry P)) (fLog : Bool)
  | estimateFee (nBlocksToConfirm : Int)
  | estimatePriority (nBlocksToConfirm : Int)

namespace CBlockAverage

variable {P : Type}

def empty : CBlockAverage P := ⟨.empty, .empty⟩

def recordFee (feeRate : CFeeRate) (b : CBlockAverage P) : CBlockAverage P :=
  { b with feeSamples := b.feeSamples.pushBack feeRate }

def recordPriority (priority : P) (b : CBlockAverage P) : CBlockAverage P :=
  { b with prioritySamples := b.prioritySamples.pushBack priority }

/-- `AreSane` of a fee. -/
def areSaneFee (fee minRelayFee : CFeeRate) : Bool :=
  !decide (fee < 0) && !decide (getFee minRelayFee 1000 * 10000 < getFee fee 1000)

end CBlockAverage

namespace CMinerPolicyEstimator

/-! ## Estimates -/

section Estimate

variable {P A : Type} [LinearOrder A]

/-- The samples of all buckets. -/
def allSamples (bucket : CBlockAverage P → List A) (history : List (CBlockAverage P)) : List A := history.flatMap bucket

/-- Which of the sorted samples the estimate for a bucket is. -/
def sampleIndex (bucket : CBlockAverage P → List A) (history : List (CBlockAverage P)) (i nSorted : Nat) : Nat :=
  let nBucketSize := ((history[i]?.map bucket).getD []).length
  let nPrevSize := ((history.take i).map fun b => (bucket b).length).sum
  min (nPrevSize + nBucketSize / 2) (nSorted - 1)

/-- The body of `estimateFee` and `estimatePriority`: the estimate, `none` when the index leaves the sorted samples, and
the cache after it. -/
def estimate (noData : A) (bucket : CBlockAverage P → List A) (history : List (CBlockAverage P)) (sorted : List A)
    (nBlocksToConfirm : Int) : Option A × List A :=
  let nBlocksToConfirm := nBlocksToConfirm - 1
  if nBlocksToConfirm < 0 ∨ (history.length : Int) ≤ nBlocksToConfirm then (some noData, sorted)
  else
    let sorted := if sorted.length = 0 then descending (allSamples bucket history) else sorted
    if sorted.length < 11 then (some noData, sorted)
    else (sorted[sampleIndex bucket history nBlocksToConfirm.toNat sorted.length]?, sorted)

end Estimate

/-! ## The estimator -/

section Estimator

variable {P : Type} [LinearOrder P] [Zero P] [NatCast P]

/-- `AllowFree`; `AllowFreeThreshold` is `COIN * 1440 / 250`. -/
def allowFree (dPriority : Option P) : Bool := dPriority.any fun d => decide (((576000000 : Nat) : P) < d)

def seenTxConfirm (minRelayFee : CFeeRate) (nBlocksAgo : Nat) (history : List (CBlockAverage P)) (feeRate : CFeeRate)
    (dPriority : Option P) : List (CBlockAverage P) :=
  let nBlocksTruncated := min nBlocksAgo (history.length - 1)
  let sufficientFee := decide (minRelayFee < feeRate)
  let sufficientPriority := allowFree dPriority
  if sufficientFee && !sufficientPriority && CBlockAverage.areSaneFee feeRate minRelayFee then
    history.modify nBlocksTruncated (.recordFee feeRate)
  else
    match dPriority with
    | none => history
    | some d =>
      if sufficientPriority && !sufficientFee && decide (0 ≤ d) then history.modify nBlocksTruncated (.recordPriority d)
      else history

/-- The bucket of an entry, if it has one. -/
def confirmations (nBlockHeight : Int) (nEntries : Nat) (entry : ConfirmedEntry P) : Option Nat :=
  let delta := (nBlockHeight - entry.nHeight).bmod (2 ^ 32)
  if delta ≤ 0 then none
  else
    let delta := if (nEntries : Int) ≤ delta - 1 then (nEntries : Int) else delta
    some (delta - 1).toNat

/-- What `seenBlock` records of a bucket. -/
def recordBucket (minRelayFee : CFeeRate) (shuffle : List (ConfirmedEntry P) → List (ConfirmedEntry P))
    (history : List (CBlockAverage P)) (i : Nat) (e : List (ConfirmedEntry P)) : List (CBlockAverage P) :=
  let e := if 10 < e.length then (shuffle e).take 10 else e
  e.foldl (fun history entry =>
    seenTxConfirm minRelayFee i history (.ofFee entry.nFee entry.nTxSize) entry.dPriority) history

/-- The new samples of a block: the entries go to the buckets, and from there to the history. -/
def recordBlock (history : List (CBlockAverage P)) (entries : List (ConfirmedEntry P)) (nBlockHeight : Int)
    (minRelayFee : CFeeRate) (shuffle : List (ConfirmedEntry P) → List (ConfirmedEntry P)) : List (CBlockAverage P) :=
  (List.range history.length).foldl (fun new i => recordBucket minRelayFee shuffle new i
    (entries.filter fun entry => confirmations nBlockHeight history.length entry == some i)) history

theorem length_seenTxConfirm (minRelayFee : CFeeRate) (nBlocksAgo : Nat) (history : List (CBlockAverage P))
    (feeRate : CFeeRate) (dPriority : Option P) :
    (seenTxConfirm minRelayFee nBlocksAgo history feeRate dPriority).length = history.length := by
  unfold seenTxConfirm
  dsimp only
  split
  · simp
  · split
    · rfl
    · split
      · simp
      · rfl

theorem length_recordBucket (minRelayFee : CFeeRate) (shuffle : List (ConfirmedEntry P) → List (ConfirmedEntry P))
    (history : List (CBlockAverage P)) (i : Nat) (e : List (ConfirmedEntry P)) :
    (recordBucket minRelayFee shuffle history i e).length = history.length := by
  rw [recordBucket]
  generalize (if 10 < e.length then (shuffle e).take 10 else e) = e
  induction e generalizing history with
  | nil => rfl
  | cons entry e ih => rw [List.foldl_cons, ih, length_seenTxConfirm]

theorem length_recordBlock (history : List (CBlockAverage P)) (entries : List (ConfirmedEntry P)) (nBlockHeight : Int)
    (minRelayFee : CFeeRate) (shuffle : List (ConfirmedEntry P) → List (ConfirmedEntry P)) :
    (recordBlock history entries nBlockHeight minRelayFee shuffle).length = history.length := by
  rw [recordBlock]
  generalize List.range history.length = buckets
  have hlength : ∀ new : List (CBlockAverage P), (buckets.foldl (fun new i => recordBucket minRelayFee shuffle new i
      (entries.filter fun entry => confirmations nBlockHeight history.length entry == some i)) new).length =
        new.length := by
    induction buckets with
    | nil => exact fun _ => rfl
    | cons i buckets ih =>
      intro new
      rw [List.foldl_cons, ih, length_recordBucket]
  exact hlength history

variable [One P] [Neg P]

/-- `CMinerPolicyEstimator(nEntries)`. -/
def new (P : Type) (nEntries : ℕ+) : CMinerPolicyEstimator P where
  history := List.replicate nEntries .empty
  pos := by simp
  sortedFeeSamples := []
  sortedPrioritySamples := []
  nBestSeenHeight := 0

def fees (b : CBlockAverage P) : List CFeeRate := b.feeSamples.values

def priorities (b : CBlockAverage P) : List P := b.prioritySamples.values

def estimateFee (s : CMinerPolicyEstimator P) (nBlocksToConfirm : Int) : Option CFeeRate × CMinerPolicyEstimator P :=
  let r := estimate 0 fees s.history s.sortedFeeSamples nBlocksToConfirm
  (r.1, { s with sortedFeeSamples := r.2 })

def estimatePriority (s : CMinerPolicyEstimator P) (nBlocksToConfirm : Int) : Option P × CMinerPolicyEstimator P :=
  let r := estimate (-1) priorities s.history s.sortedPrioritySamples nBlocksToConfirm
  (r.1, { s with sortedPrioritySamples := r.2 })

/-- The estimates that `seenBlock` writes to the log for a bucket. -/
def logEstimate (s : CMinerPolicyEstimator P) (i : Nat) : CMinerPolicyEstimator P :=
  if 0 < ((s.history[i]?.map fun b => (fees b).length + (priorities b).length).getD 0) then
    ((s.estimateFee (i + 1)).2.estimatePriority (i + 1)).2
  else s

def seenBlock (s : CMinerPolicyEstimator P) (entries : List (ConfirmedEntry P)) (nBlockHeight : Int)
    (minRelayFee : CFeeRate) (shuffle : List (ConfirmedEntry P) → List (ConfirmedEntry P)) (fLog : Bool) :
    CMinerPolicyEstimator P :=
  if nBlockHeight ≤ s.nBestSeenHeight then s
  else
    let new : CMinerPolicyEstimator P :=
      { history := recordBlock s.history entries nBlockHeight minRelayFee shuffle
        pos := by rw [length_recordBlock]; exact s.pos
        sortedFeeSamples := []
        sortedPrioritySamples := []
        nBestSeenHeight := nBlockHeight }
    if fLog then (List.range new.history.length).foldl logEstimate new else new

/-- One call. -/
def step (s : CMinerPolicyEstimator P) : FeeOp P → CMinerPolicyEstimator P
  | .seenBlock entries nBlockHeight minRelayFee shuffle fLog => s.seenBlock entries nBlockHeight minRelayFee shuffle fLog
  | .estimateFee nBlocksToConfirm => (s.estimateFee nBlocksToConfirm).2
  | .estimatePriority nBlocksToConfirm => (s.estimatePriority nBlocksToConfirm).2

/-- The calls of a run on a new estimator. -/
def run (nEntries : ℕ+) (ops : List (FeeOp P)) : CMinerPolicyEstimator P := ops.foldl step (new P nEntries)

end Estimator

/-! ## The cache -/

section Cache

variable {P A : Type} [LinearOrder A] {noData : A} {bucket : CBlockAverage P → List A} {history : List (CBlockAverage P)}
  {sorted : List A}

/-- The cache of sorted samples is empty or up to date. -/
def CacheFresh (bucket : CBlockAverage P → List A) (history : List (CBlockAverage P)) (sorted : List A) : Prop :=
  sorted = [] ∨ sorted = descending (allSamples bucket history)

theorem CacheFresh.nil : CacheFresh bucket history [] := .inl rfl

theorem CacheFresh.refresh (h : CacheFresh bucket history sorted) :
    (if sorted.length = 0 then descending (allSamples bucket history) else sorted) =
      descending (allSamples bucket history) := by
  rcases h with rfl | rfl
  · rfl
  · split
    · rfl
    · rfl

theorem CacheFresh.estimate (h : CacheFresh bucket history sorted) (nBlocksToConfirm : Int) :
    CacheFresh bucket history (estimate noData bucket history sorted nBlocksToConfirm).2 := by
  rw [CMinerPolicyEstimator.estimate]
  dsimp only
  split
  · exact h
  · rw [h.refresh]
    split
    · exact .inr rfl
    · exact .inr rfl

/-- Not before the first bucket and not after the last one. -/
def InHistory (history : List (CBlockAverage P)) (nBlocksToConfirm : Int) : Prop :=
  1 ≤ nBlocksToConfirm ∧ nBlocksToConfirm ≤ history.length

instance (history : List (CBlockAverage P)) (nBlocksToConfirm : Int) : Decidable (InHistory history nBlocksToConfirm) :=
  inferInstanceAs (Decidable (_ ∧ _))

/-- The estimate that the samples in the history give: the one at the index among all of them in descending order, when
there are enough. -/
def fromScratch (noData : A) (bucket : CBlockAverage P → List A) (history : List (CBlockAverage P))
    (nBlocksToConfirm : Int) : Option A :=
  if InHistory history nBlocksToConfirm ∧ 11 ≤ (allSamples bucket history).length then
    (descending (allSamples bucket history))[sampleIndex bucket history (nBlocksToConfirm - 1).toNat
      (allSamples bucket history).length]?
  else some noData

theorem CacheFresh.estimate_eq (h : CacheFresh bucket history sorted) (nBlocksToConfirm : Int) :
    (CMinerPolicyEstimator.estimate noData bucket history sorted nBlocksToConfirm).1 =
      fromScratch noData bucket history nBlocksToConfirm := by
  rw [CMinerPolicyEstimator.estimate, fromScratch]
  dsimp only
  by_cases hin : InHistory history nBlocksToConfirm
  · obtain ⟨hlow, hhigh⟩ := id hin
    rw [if_neg (by omega), h.refresh, length_descending]
    by_cases hfew : (allSamples bucket history).length < 11
    · rw [if_pos hfew, if_neg fun hboth => absurd hfew (Nat.not_lt.mpr hboth.2)]
    · rw [if_neg hfew, if_pos ⟨hin, Nat.not_lt.mp hfew⟩]
  · have hout : nBlocksToConfirm - 1 < 0 ∨ (history.length : Int) ≤ nBlocksToConfirm - 1 := by
      rw [InHistory] at hin
      omega
    rw [if_pos hout, if_neg fun hboth => hin hboth.1]

theorem estimate_isSome (noData : A) (bucket : CBlockAverage P → List A) (history : List (CBlockAverage P))
    (sorted : List A) (nBlocksToConfirm : Int) :
    (estimate noData bucket history sorted nBlocksToConfirm).1.isSome = true := by
  rw [estimate]
  dsimp only
  generalize (if sorted.length = 0 then descending (allSamples bucket history) else sorted) = sorted
  split
  · rfl
  · split
    · rfl
    · rw [List.getElem?_eq_getElem]
      · rfl
      · rw [sampleIndex]
        omega

omit [LinearOrder A] in
theorem sampleIndex_succ (i nSorted : Nat) :
    sampleIndex bucket history i nSorted ≤ sampleIndex bucket history (i + 1) nSorted := by
  have hprev : ((history.take (i + 1)).map fun b => (bucket b).length).sum =
      ((history.take i).map fun b => (bucket b).length).sum + ((history[i]?.map bucket).getD []).length := by
    rw [List.take_add_one, List.map_append, List.sum_append]
    cases history[i]? <;> simp
  rw [sampleIndex, sampleIndex, hprev]
  omega

/-- What the estimates of a kind are like: those from scratch, in the samples, and falling. -/
structure Estimates (noData : A) (bucket : CBlockAverage P → List A) (history : List (CBlockAverage P))
    (estimates : Int → Option A) : Prop where
  scratch : ∀ n, estimates n = fromScratch noData bucket history n
  inside : ∀ n, (estimates n).isSome = true
  recorded : ∀ n, InHistory history n → 11 ≤ (allSamples bucket history).length →
    ∃ x ∈ allSamples bucket history, estimates n = some x
  falling : ∀ n, 1 ≤ n → n ≤ (history.length : Int) - 1 → ∀ x y, estimates n = some x → estimates (n + 1) = some y → y ≤ x

theorem estimate_spec (noData : A) (h : CacheFresh bucket history sorted) :
    Estimates noData bucket history fun n => (estimate noData bucket history sorted n).1 := by
  refine ⟨h.estimate_eq, estimate_isSome noData bucket history sorted, fun n hin henough => ?_, fun n hlow hhigh x y hx hy => ?_⟩
  · have hsome := estimate_isSome noData bucket history sorted n
    obtain ⟨x, hx⟩ := Option.isSome_iff_exists.mp hsome
    refine ⟨x, ?_, hx⟩
    rw [h.estimate_eq, fromScratch, if_pos ⟨hin, henough⟩] at hx
    exact mem_descending.mp (List.mem_of_getElem? hx)
  · rw [h.estimate_eq, fromScratch] at hx hy
    have hin : InHistory history n := ⟨hlow, by omega⟩
    have hnext : InHistory history (n + 1) := ⟨by omega, by omega⟩
    by_cases henough : 11 ≤ (allSamples bucket history).length
    · rw [if_pos ⟨hin, henough⟩] at hx
      have hsucc : (n + 1 - 1).toNat = (n - 1).toNat + 1 := by omega
      rw [if_pos ⟨hnext, henough⟩, hsucc] at hy
      exact getElem_descending_le (sampleIndex_succ _ _) hx hy
    · rw [if_neg fun hboth => henough hboth.2] at hx hy
      cases hx
      cases hy
      exact le_refl _

end Cache

/-! ## Runs -/

section Runs

variable {P : Type} [LinearOrder P] [Zero P] [One P] [Neg P] [NatCast P]

/-- Both caches are fresh. -/
structure Fresh (s : CMinerPolicyEstimator P) : Prop where
  fees : CacheFresh CMinerPolicyEstimator.fees s.history s.sortedFeeSamples
  priorities : CacheFresh CMinerPolicyEstimator.priorities s.history s.sortedPrioritySamples

variable {s : CMinerPolicyEstimator P}

omit [Zero P] [One P] [Neg P] [NatCast P] in
theorem Fresh.estimateFee (h : Fresh s) (n : Int) : Fresh (s.estimateFee n).2 := ⟨h.fees.estimate n, h.priorities⟩

omit [Zero P] [NatCast P] in
theorem Fresh.estimatePriority (h : Fresh s) (n : Int) : Fresh (s.estimatePriority n).2 :=
  ⟨h.fees, h.priorities.estimate n⟩

omit [Zero P] [NatCast P] in
theorem Fresh.logEstimate (h : Fresh s) (i : Nat) : Fresh (s.logEstimate i) := by
  rw [CMinerPolicyEstimator.logEstimate]
  split
  · exact (h.estimateFee _).estimatePriority _
  · exact h

theorem Fresh.seenBlock (h : Fresh s) (entries : List (ConfirmedEntry P)) (nBlockHeight : Int) (minRelayFee : CFeeRate)
    (shuffle : List (ConfirmedEntry P) → List (ConfirmedEntry P)) (fLog : Bool) :
    Fresh (s.seenBlock entries nBlockHeight minRelayFee shuffle fLog) := by
  rw [CMinerPolicyEstimator.seenBlock]
  split
  · exact h
  · -- The samples of the block are all in the history before the first estimate is asked for.
    have hlog : ∀ (buckets : List Nat) {new : CMinerPolicyEstimator P}, Fresh new →
        Fresh (buckets.foldl CMinerPolicyEstimator.logEstimate new) := by
      intro buckets
      induction buckets with
      | nil => exact fun hnew => hnew
      | cons i buckets ih => exact fun hnew => ih (hnew.logEstimate i)
    dsimp only
    split
    · exact hlog _ ⟨.nil, .nil⟩
    · exact ⟨.nil, .nil⟩

theorem Fresh.step (h : Fresh s) (op : FeeOp P) : Fresh (s.step op) := by
  cases op with
  | seenBlock entries nBlockHeight minRelayFee shuffle fLog =>
    exact h.seenBlock entries nBlockHeight minRelayFee shuffle fLog
  | estimateFee n => exact h.estimateFee n
  | estimatePriority n => exact h.estimatePriority n

theorem fresh_run (nEntries : ℕ+) (ops : List (FeeOp P)) : Fresh (run nEntries ops) := by
  rw [run]
  induction ops using List.reverseRecOn with
  | nil => exact ⟨.nil, .nil⟩
  | append_singleton ops op ih =>
    rw [List.foldl_append]
    exact ih.step op

/-- **Fee estimates are consistent.** After every sequence of calls the estimates of fee and priority are those that the
samples in the history give, lie among them when there are enough, and do not rise with the number of blocks. -/
theorem estimates_consistent (nEntries : ℕ+) (ops : List (FeeOp P)) :
    let s := run nEntries ops
    Estimates 0 fees s.history (fun n => (s.estimateFee n).1) ∧
      Estimates (-1) priorities s.history (fun n => (s.estimatePriority n).1) := by
  have h := fresh_run nEntries ops
  exact ⟨estimate_spec 0 h.fees, estimate_spec (-1) h.priorities⟩

end Runs

end CMinerPolicyEstimator

end DigiWage
