import DigiWage.Net.Address
import DigiWage.Lib.Samples
import Mathlib.Algebra.Order.Group.Int
import Mathlib.Data.Finset.Card

/-!
# The clocks of the peers

`CMedianFilter` of `timedata.h`, and `AddTimeData` of `timedata.cpp`, which sets the offset of `GetAdjustedTime` to the median
of what the peers say, one sample for each address.

* `TimeData.Inv`: until the samples are full, the filter has the value 0 and one sample for each address.
-/

namespace DigiWage.Net

open Lib

/-- `CMedianFilter<int64_t>`. -/
structure CMedianFilter where
  vValues : List Int
  vSorted : List Int
  nSize : Nat

namespace CMedianFilter

variable (f : CMedianFilter)

def new (size : Nat) (initial_value : Int) : CMedianFilter := ⟨[initial_value], [initial_value], size⟩

def input (value : Int) : CMedianFilter :=
  let vValues := (if f.vValues.length = f.nSize then f.vValues.tail else f.vValues) ++ [value]
  { f with vValues := vValues, vSorted := vValues.mergeSort (· ≤ ·) }

/-- `median`; `none` where its assertion fails. -/
def median : Option Int :=
  let size := f.vSorted.length
  if size = 0 then none
  else if size % 2 = 1 then f.vSorted[size / 2]?
  else (f.vSorted[size / 2 - 1]?).bind fun x => (f.vSorted[size / 2]?).map fun y => ((x + y).bmod (2 ^ 64)).tdiv 2

end CMedianFilter

def BITCOIN_TIMEDATA_MAX_SAMPLES : Nat := 200

/-- The arguments of `AddTimeData`. -/
structure TimeSample where
  ip : CNetAddr
  nOffsetSample : Int
  nOffsetLimit : Int
deriving DecidableEq

/-- The static variables of `timedata.cpp`, and `strMiscWarning`. -/
structure TimeData where
  nTimeOffset : Int
  setKnown : Finset CNetAddr
  vTimeOffsets : CMedianFilter
  strMiscWarning : String

namespace TimeData

def new : TimeData := ⟨0, ∅, .new BITCOIN_TIMEDATA_MAX_SAMPLES 0, ""⟩

/-- `abs64`: the least value of 64 bits is its own negative. -/
def abs64 (n : Int) : Int := if 0 ≤ n then n else (-n).bmod (2 ^ 64)

/-- The offset for a median: "only let other nodes change our time by so much". -/
def limited (nMedian nOffsetLimit : Int) : Int :=
  if abs64 nMedian < nOffsetLimit then nMedian else (if 0 < nMedian then 1 else -1) * nOffsetLimit

/-- The warning that goes with the offset. -/
def warning (nMedian nOffsetLimit : Int) : String :=
  if abs64 nMedian < nOffsetLimit then ""
  else "Warning: Please check that your computer's date and time are correct! " ++
    "If your clock is wrong DIGIWAGE Core will not work properly."

/-- `AddTimeData`; `none` where an assertion fails. -/
def addTimeData (isRegTestNet : Bool) (t : TimeData) (x : TimeSample) : Option TimeData :=
  if t.setKnown.card = BITCOIN_TIMEDATA_MAX_SAMPLES then some t
  -- ignore duplicates (except on regtest where all nodes have the same ip)
  else if !isRegTestNet && decide (x.ip ∈ t.setKnown) then some t
  else
    let t := { t with
      setKnown := if isRegTestNet then t.setKnown else insert x.ip t.setKnown
      vTimeOffsets := t.vTimeOffsets.input x.nOffsetSample }
    let size := t.vTimeOffsets.vValues.length
    if 5 ≤ size ∧ size % 2 = 1 then
      t.vTimeOffsets.median.map fun nMedian =>
        { t with nTimeOffset := limited nMedian x.nOffsetLimit, strMiscWarning := warning nMedian x.nOffsetLimit }
    else some t

/-- The samples of a run. -/
def run (isRegTestNet : Bool) (samples : List TimeSample) : Option TimeData := samples.foldlM (addTimeData isRegTestNet) new

/-! ## The samples that count -/

/-- The addresses that have sent a sample. -/
def addresses (samples : List TimeSample) : Finset CNetAddr := (samples.map TimeSample.ip).toFinset

/-- One sample for each address. -/
structure Counted (samples counted : List TimeSample) : Prop where
  mem : ∀ x ∈ counted, x ∈ samples
  nodup : (counted.map TimeSample.ip).Nodup
  all : (counted.map TimeSample.ip).toFinset = addresses samples

/-- Until the samples are full, there is one for each address, and the filter has them and the value 0. -/
structure Inv (samples : List TimeSample) (t : TimeData) : Prop where
  nSize : t.vTimeOffsets.nSize = 200
  full : t.setKnown.card = 200 ∨ t.setKnown.card < 200 ∧ t.setKnown = addresses samples ∧ ∃ counted, Counted samples counted ∧
    t.vTimeOffsets.vValues = 0 :: counted.map TimeSample.nOffsetSample
  le : min 200 (addresses samples).card ≤ t.setKnown.card

theorem inv_new : Inv [] new :=
  ⟨rfl, .inr ⟨by decide, rfl, [], ⟨nofun, .nil, rfl⟩, rfl⟩, Nat.min_le_right _ _⟩

theorem addresses_concat (samples : List TimeSample) (x : TimeSample) :
    addresses (samples ++ [x]) = insert x.ip (addresses samples) := by
  ext ip
  simp [addresses, eq_comm]

theorem Counted.length {samples counted : List TimeSample} (h : Counted samples counted) :
    counted.length = (addresses samples).card := by
  rw [← h.all, List.toFinset_card_of_nodup h.nodup, List.length_map]

/-- The offset is set to the median of the value 0 and the samples, of which there is an even number. -/
def Sets (samples : List TimeSample) (nOffsetLimit nTimeOffset : Int) : Prop :=
  ∃ k counted nMedian, 2 ≤ k ∧ k ≤ 99 ∧ Counted samples counted ∧ counted.length = 2 * k ∧
    ((0 :: counted.map TimeSample.nOffsetSample).mergeSort (· ≤ ·))[k]? = some nMedian ∧
    nTimeOffset = limited nMedian nOffsetLimit

theorem Inv.step {samples : List TimeSample} {t : TimeData} (h : Inv samples t) (x : TimeSample) :
    ∃ t', addTimeData false t x = some t' ∧ Inv (samples ++ [x]) t' ∧
      (t'.nTimeOffset = t.nTimeOffset ∨
        x.ip ∉ addresses samples ∧ Sets (samples ++ [x]) x.nOffsetLimit t'.nTimeOffset) := by
  unfold addTimeData BITCOIN_TIMEDATA_MAX_SAMPLES
  rcases h.full with hfull | ⟨hlt, hknown, counted, hcounted, hvalues⟩
  · -- "the condition ... which will never happen after there are 200 elements"
    rw [if_pos hfull]
    exact ⟨t, rfl, ⟨h.nSize, .inl hfull, by rw [hfull]; exact Nat.min_le_left _ _⟩, .inl rfl⟩
  rw [if_neg (Nat.ne_of_lt hlt)]
  by_cases hin : x.ip ∈ t.setKnown
  · rw [if_pos (by simpa using hin)]
    have hsame : addresses (samples ++ [x]) = addresses samples := by
      rw [addresses_concat, ← hknown, Finset.insert_eq_of_mem hin]
    refine ⟨t, rfl, ⟨h.nSize, .inr ⟨hlt, by rw [hsame, hknown], counted, ?_, hvalues⟩, by rw [hsame]; exact h.le⟩, .inl rfl⟩
    exact ⟨fun y hy => List.mem_append_left _ (hcounted.mem y hy), hcounted.nodup, by rw [hsame, hcounted.all]⟩
  rw [if_neg (by simpa using hin)]
  have hlen : counted.length = t.setKnown.card := by rw [hcounted.length, hknown]
  have hadd : addresses (samples ++ [x]) = insert x.ip t.setKnown := by rw [addresses_concat, hknown]
  have hcard : (insert x.ip t.setKnown).card = t.setKnown.card + 1 := Finset.card_insert_of_notMem hin
  have hnew : Counted (samples ++ [x]) (counted ++ [x]) := by
    refine ⟨fun y hy => ?_, ?_, ?_⟩
    · rcases List.mem_append.mp hy with hy | hy
      · exact List.mem_append_left _ (hcounted.mem y hy)
      · exact List.mem_append_right _ hy
    · rw [List.map_append, List.nodup_append]
      refine ⟨hcounted.nodup, List.nodup_singleton _, ?_⟩
      rintro ip hip ip' hip' rfl
      refine hin ?_
      rw [hknown, ← hcounted.all, List.mem_toFinset, ← List.mem_singleton.mp hip']
      exact hip
    · rw [addresses_concat, ← hcounted.all]
      exact addresses_concat counted x
  have hle : min 200 (addresses (samples ++ [x])).card ≤ (insert x.ip t.setKnown).card := by
    rw [hadd]
    exact Nat.min_le_right _ _
  simp only [Bool.false_eq_true, if_false, CMedianFilter.input, h.nSize, hvalues, List.length_cons, List.length_map]
  by_cases hlast : counted.length + 1 = 200
  · -- the value 0 goes, and the number stays even
    rw [if_pos hlast]
    have hsize : (List.tail (0 :: counted.map TimeSample.nOffsetSample) ++ [x.nOffsetSample]).length = 200 := by
      rw [List.tail_cons, List.length_append, List.length_map, List.length_singleton, hlast]
    rw [if_neg (by rw [hsize]; decide)]
    exact ⟨_, rfl, ⟨rfl, .inl (by rw [hcard]; omega), hle⟩, .inl rfl⟩
  · rw [if_neg hlast]
    have hvalues' : (0 :: counted.map TimeSample.nOffsetSample) ++ [x.nOffsetSample] =
        0 :: (counted ++ [x]).map TimeSample.nOffsetSample := by simp
    have hinv : ∀ nTimeOffset strMiscWarning, Inv (samples ++ [x]) ⟨nTimeOffset, insert x.ip t.setKnown,
        ⟨0 :: (counted ++ [x]).map TimeSample.nOffsetSample,
          (0 :: (counted ++ [x]).map TimeSample.nOffsetSample).mergeSort (· ≤ ·), 200⟩, strMiscWarning⟩ := fun _ _ =>
      ⟨rfl, .inr ⟨by rw [hcard]; omega, hadd.symm, _, hnew, rfl⟩, hle⟩
    rw [hvalues']
    split
    · next hodd =>
      simp only [List.length_cons, List.length_map, List.length_append, List.length_nil] at hodd
      obtain ⟨k, hk⟩ : ∃ k, counted.length + 1 = 2 * k := ⟨(counted.length + 1) / 2, by omega⟩
      have hsorted : ((0 :: (counted ++ [x]).map TimeSample.nOffsetSample).mergeSort (· ≤ ·)).length = 2 * k + 1 := by
        simp only [List.length_mergeSort, List.length_cons, List.length_map, List.length_append, List.length_nil]
        omega
      have hhalf : (2 * k + 1) / 2 = k := by omega
      have hget := List.getElem?_eq_getElem (show k < _ by rw [hsorted]; omega)
      unfold CMedianFilter.median
      simp only [hsorted, Nat.succ_ne_zero, if_false, show (2 * k + 1) % 2 = 1 by omega, if_true, hhalf, hget, Option.map_some]
      refine ⟨_, rfl, hinv _ _, .inr ⟨hknown ▸ hin, k, _, _, by omega, by omega, hnew, ?_, hget, rfl⟩⟩
      rw [List.length_append, List.length_singleton, hk]
    · exact ⟨_, rfl, hinv _ _, .inl rfl⟩

/-! ## A majority of the addresses -/

theorem abs64_eq {n : Int} (h : -2 ^ 63 < n) : abs64 n = |n| := by
  unfold abs64
  split
  · next hn => exact (abs_of_nonneg hn).symm
  · next hn => rw [Int.bmod_eq_of_le (by omega) (by omega), abs_of_neg (not_le.mp hn)]

theorem limited_between {nMedian nOffsetLimit a b : Int} (hlimit : 0 ≤ nOffsetLimit) (hleast : -2 ^ 63 < a) (ha : a ≤ 0)
    (hb : 0 ≤ b) (hle : a ≤ nMedian) (hge : nMedian ≤ b) :
    |limited nMedian nOffsetLimit| ≤ nOffsetLimit ∧ a ≤ limited nMedian nOffsetLimit ∧ limited nMedian nOffsetLimit ≤ b := by
  have habs := abs_nonneg nMedian
  unfold limited
  rw [abs64_eq (hleast.trans_le hle)]
  split
  · next hlt => exact ⟨hlt.le, hle, hge⟩
  · next hlt =>
    split
    · next hpos =>
      rw [abs_of_pos hpos] at hlt
      rw [one_mul, abs_of_nonneg hlimit]
      omega
    · next hpos =>
      rw [abs_of_nonpos (not_lt.mp hpos)] at hlt
      rw [neg_one_mul, abs_neg, abs_of_nonneg hlimit]
      omega

variable {samples counted : List TimeSample} {honest : CNetAddr → Bool} {a b : Int}

theorem Counted.majority (h : Counted samples counted) (ha : a ≤ 0) (hb : 0 ≤ b)
    (hhonest : ∀ x ∈ samples, honest x.ip = true → a ≤ x.nOffsetSample ∧ x.nOffsetSample ≤ b)
    (hmajority : 2 * ((addresses samples).filter fun ip => !honest ip).card ≤ (addresses samples).card) {k : Nat}
    (hlen : counted.length = 2 * k) :
    k < (0 :: counted.map TimeSample.nOffsetSample).countP fun x => decide (a ≤ x ∧ x ≤ b) := by
  have hin : counted.countP (fun x => honest x.ip) ≤
      counted.countP ((fun x => decide (a ≤ x ∧ x ≤ b)) ∘ TimeSample.nOffsetSample) :=
    List.countP_mono_left fun x hx hx' => decide_eq_true (hhonest x (h.mem x hx) hx')
  have hfilter : ((addresses samples).filter fun ip => !honest ip).card = counted.countP fun x => !honest x.ip := by
    rw [← h.all, ← List.toFinset_filter, List.toFinset_card_of_nodup (h.nodup.filter _), ← List.countP_eq_length_filter,
      List.countP_map]
    rfl
  have hsum := List.length_eq_countP_add_countP (fun x : TimeSample => honest x.ip) (l := counted)
  rw [List.countP_cons_of_pos (by simp [ha, hb]), List.countP_map]
  rw [hfilter, ← h.length] at hmajority
  have hnot : (fun x : TimeSample => decide ¬ honest x.ip = true) = fun x => !honest x.ip := by
    funext x
    cases honest x.ip <;> rfl
  rw [hnot] at hsum
  omega

theorem run_concat {t : TimeData} (h : run false samples = some t) (x : TimeSample) :
    run false (samples ++ [x]) = addTimeData false t x := by
  rw [run, List.foldlM_append, ← run, h]
  simp

theorem run_inv (samples : List TimeSample) : ∃ t, run false samples = some t ∧ Inv samples t := by
  induction samples using List.reverseRecOn with
  | nil => exact ⟨_, rfl, inv_new⟩
  | append_singleton samples x ih =>
    obtain ⟨t, hrun, hinv⟩ := ih
    obtain ⟨t', hadd, hinv', -⟩ := hinv.step x
    exact ⟨t', (run_concat hrun x).trans hadd, hinv'⟩

theorem run_settled (hsettled : 198 ≤ (addresses samples).card) (more : List TimeSample) : ∃ t t', run false samples = some t ∧
    run false (samples ++ more) = some t' ∧ t'.nTimeOffset = t.nTimeOffset ∧ 198 ≤ (addresses (samples ++ more)).card := by
  obtain ⟨t, hrun, -⟩ := run_inv samples
  induction more using List.reverseRecOn with
  | nil => exact ⟨t, t, hrun, by rwa [List.append_nil], rfl, by rwa [List.append_nil]⟩
  | append_singleton more x ih =>
    obtain ⟨t₀, t₁, hrun₀, hrun₁, hsame, hcard⟩ := ih
    obtain ⟨t₁', hrun₁', hinv⟩ := run_inv (samples ++ more)
    obtain rfl := Option.some.inj (hrun₁.symm.trans hrun₁')
    obtain ⟨t₂, hadd, -, hoffset⟩ := hinv.step x
    rw [← List.append_assoc]
    refine ⟨t₀, t₂, hrun₀, (run_concat hrun₁ x).trans hadd, ?_, ?_⟩
    · rcases hoffset with hoffset | ⟨hfresh, k, counted, -, -, hk, hcounted, hlen, -⟩
      · rw [hoffset, hsame]
      · rw [hcounted.length, addresses_concat, Finset.card_insert_of_notMem hfresh] at hlen
        omega
    · rw [addresses_concat]
      exact hcard.trans (Finset.card_le_card (Finset.subset_insert _ _))

/-- **The median of the clocks.** Whatever the peers say, no assertion fails, and after 198 addresses the offset stays. Where at
most half of the addresses are dishonest whenever it is set, it is within the limit and in every range around 0 above the
least value of 64 bits that has the samples of the honest ones. -/
theorem timeOffset_of_majority (samples : List TimeSample) (nOffsetLimit a b : Int) (honest : CNetAddr → Bool)
    (h0 : 0 ≤ nOffsetLimit) (hlimit : ∀ x ∈ samples, 0 ≤ x.nOffsetLimit ∧ x.nOffsetLimit ≤ nOffsetLimit)
    (hleast : -2 ^ 63 < a) (ha : a ≤ 0) (hb : 0 ≤ b) :
    ∃ t, run false samples = some t ∧
      ((∀ x ∈ samples, honest x.ip = true → a ≤ x.nOffsetSample ∧ x.nOffsetSample ≤ b) →
        (∀ pre, pre <+: samples → 4 ≤ (addresses pre).card → (addresses pre).card ≤ 198 → (addresses pre).card % 2 = 0 →
          2 * ((addresses pre).filter fun ip => !honest ip).card ≤ (addresses pre).card) →
        |t.nTimeOffset| ≤ nOffsetLimit ∧ a ≤ t.nTimeOffset ∧ t.nTimeOffset ≤ b) ∧
      (198 ≤ (addresses samples).card → ∀ more, ∃ t', run false (samples ++ more) = some t' ∧
        t'.nTimeOffset = t.nTimeOffset) := by
  obtain ⟨t, hrun, -⟩ := run_inv samples
  refine ⟨t, hrun, fun hhonest hmajority => ?_, fun hsettled more => ?_⟩
  · induction samples using List.reverseRecOn generalizing t with
    | nil =>
      cases hrun
      exact ⟨h0, ha, hb⟩
    | append_singleton samples x ih =>
      obtain ⟨t₁, hrun₁, hinv⟩ := run_inv samples
      have hbounds := ih (fun y hy => hlimit y (List.mem_append_left _ hy)) t₁ hrun₁
        (fun y hy => hhonest y (List.mem_append_left _ hy)) fun pre hpre => hmajority pre (hpre.trans (List.prefix_append _ _))
      obtain ⟨t', hadd, -, hoffset⟩ := hinv.step x
      obtain rfl := Option.some.inj (hrun.symm.trans ((run_concat hrun₁ x).trans hadd))
      rcases hoffset with hoffset | ⟨-, k, counted, nMedian, hk2, hk99, hcounted, hlen, hmedian, hoffset⟩
      · rwa [hoffset]
      · have hcard := hcounted.length
        have hmost := hcounted.majority ha hb hhonest
          (hmajority _ (List.prefix_refl _) (by omega) (by omega) (by omega)) hlen
        obtain ⟨y, hy, hay, hyb⟩ := middle_of_majority (List.pairwise_mergeSort' (· ≤ ·) _) (List.mergeSort_perm _ _)
          (by rw [List.length_cons, List.length_map, hlen]) hmost
        obtain rfl := Option.some.inj (hmedian.symm.trans hy)
        obtain ⟨hx0, hxl⟩ := hlimit x (List.mem_append_right _ List.mem_cons_self)
        obtain ⟨habs, hlow, hhigh⟩ := limited_between hx0 hleast ha hb hay hyb
        rw [hoffset]
        exact ⟨habs.trans hxl, hlow, hhigh⟩
  · obtain ⟨t₀, t', hrun₀, hrun', hsame, -⟩ := run_settled hsettled more
    obtain rfl := Option.some.inj (hrun.symm.trans hrun₀)
    exact ⟨t', hrun', hsame⟩

/-! Three peers agree, and a fourth one is a day off. -/

def peerAt (n : UInt8) (nOffsetSample : Int) : TimeSample := ⟨⟨List.replicate 15 0 ++ [n], rfl⟩, nOffsetSample, 15⟩

def fourPeers : List TimeSample := [peerAt 1 2, peerAt 2 86400, peerAt 3 (-1), peerAt 4 3]

theorem timeOffset_fourPeers : ∃ t, run false fourPeers = some t ∧ |t.nTimeOffset| ≤ 15 ∧ -1 ≤ t.nTimeOffset ∧
    t.nTimeOffset ≤ 3 := by
  obtain ⟨t, hrun, hbounds, -⟩ := timeOffset_of_majority fourPeers 15 (-1) 3 (fun ip => decide (ip ≠ (peerAt 2 0).ip))
    (by decide) (by decide) (by decide) (by decide) (by decide)
  refine ⟨t, hrun, hbounds (by decide) fun pre hpre hcard _ _ => ?_⟩
  have hlen : fourPeers.length ≤ pre.length := by
    have hle := List.toFinset_card_le (pre.map TimeSample.ip)
    rw [List.length_map] at hle
    exact hcard.trans hle
  rw [hpre.eq_of_length_le hlen]
  decide

end TimeData

end DigiWage.Net
