import DigiWage.Chain.Difficulty
import DigiWage.Lib.Bytes
import DigiWage.Lib.Run

/-!
# Stake modifiers

The stake modifier of each block, as `AddToBlockIndex` computes it with `ComputeNextStakeModifier` of
`legacy/stakemodifier.cpp`.

* An entry and its ancestors are a list of entries, the entry first. `find` is the lookup in `mapBlockIndex`.
* `Hash` is any function of the bytes.
* Block 1 gets `uint64_t("stakemodifier")`: the address of the literal, which is an input here (`literal`).
* `computeNextStakeModifier_chain`: beside the literal, the next modifier depends on the chain only, whatever else is in
  `mapBlockIndex`.
-/

namespace DigiWage

open Lib

def MODIFIER_INTERVAL : Nat := 60
def MODIFIER_INTERVAL_RATIO : Nat := 3
def OLD_MODIFIER_INTERVAL : Nat := 2087

/-- `Consensus::Params`, with the height from which the selection uses the hash of proof-of-stake blocks too. -/
structure StakeParams extends ConsensusParams where
  heightStartStakeModifierNewSelection : Nat

/-- `CMainParams`. -/
def mainStakeParams : StakeParams where
  isRegTestNet := false
  powLimit := BitVec.allOnes 256 >>> 20
  posLimitV1 := BitVec.allOnes 256 >>> 24
  posLimitV2 := BitVec.allOnes 256 >>> 20
  nTargetTimespan := 40 * 60
  nTargetTimespanV2 := 30 * 60
  nTargetSpacing := 60
  nFutureTimeDriftPoW := 7200
  nFutureTimeDriftPoS := 180
  nTimeSlotLength := 15
  nStakeMinAge := 60 * 60
  nStakeMinDepth := 600
  heightLastPoW := 1000
  heightStartStakeModifierV2 := 1551945
  heightStartTimeProtoV2 := 1552000
  heightStartZC := 1551955
  heightRHF := 1552000
  spacing_pos := sixty_pos
  heightStartStakeModifierNewSelection := 1551935

/-- `CTestNetParams`, which starts from the main net. -/
def testNetStakeParams : StakeParams :=
  { mainStakeParams with
    nStakeMinDepth := 100
    nTargetTimespan := 60
    nTargetTimespanV2 := 60
    heightLastPoW := 200
    heightStartStakeModifierV2 := 500
    heightStartTimeProtoV2 := 500
    heightStartZC := 250
    heightStartStakeModifierNewSelection := 210 }

/-- `CRegTestParams`, which inherits the height of the RHF. -/
def regTestStakeParams : StakeParams := { regTestParams 1552000 with heightStartStakeModifierNewSelection := 0 }

/-- `CBaseChainParams::Network`. -/
inductive Network where
  | main
  | testNet
  | regTest
deriving DecidableEq, Repr

/-- `Params()`. -/
def Network.params : Network → StakeParams
  | main => mainStakeParams
  | testNet => testNetStakeParams
  | regTest => regTestStakeParams

/-! ## Entries -/

/-- The proof-of-stake fields of `CBlockIndex`: the bits of `nFlags`, and the bytes of the modifier. -/
structure StakeFields where
  proofOfStake : Bool
  stakeEntropy : Bool
  generatedStakeModifier : Bool
  vStakeModifier : List UInt8
deriving DecidableEq, Repr

/-- What the stake modifier functions read of a `CBlockIndex`. -/
structure StakeEntry extends StakeFields where
  hash : Uint256
  nHeight : Nat
  nTime : Nat
deriving DecidableEq, Repr

/-- `GetStakeEntropyBit`: the lowest bit of the hash. -/
def getStakeEntropyBit (hash : Uint256) : Nat := hash.toNat % 2 ^ 64 % 2

namespace StakeFields

/-- `SetStakeModifier` for a V1 modifier. -/
def setStakeModifier (st : StakeFields) (nStakeModifier : UInt64) (fGeneratedStakeModifier : Bool) : StakeFields :=
  { st with
    vStakeModifier := leBytes 8 nStakeModifier.toNat
    generatedStakeModifier := st.generatedStakeModifier || fGeneratedStakeModifier }

/-- `SetStakeModifier` for a V2 modifier. -/
def setStakeModifierV2 (st : StakeFields) (nStakeModifier : Uint256) : StakeFields :=
  { st with vStakeModifier := leBytes 32 nStakeModifier.toNat }

end StakeFields

namespace StakeEntry

def getStakeModifierV1 (params : StakeParams) (e : StakeEntry) : UInt64 :=
  if e.vStakeModifier.isEmpty || params.isStakeModifierV2 e.nHeight then 0
  else UInt64.ofNat (ofLeBytes e.vStakeModifier)

def getStakeModifierV2 (params : StakeParams) (e : StakeEntry) : Uint256 :=
  if e.vStakeModifier.isEmpty || !params.isStakeModifierV2 e.nHeight then 0
  else BitVec.ofNat 256 (ofLeBytes e.vStakeModifier)

end StakeEntry

/-! ## The selection -/

section Select

variable (params : StakeParams) (hash : List UInt8 → Uint256) (literal : UInt64) (find : Uint256 → Option StakeEntry)

def getStakeModifierSelectionIntervalSection (nSection : Nat) : Nat :=
  MODIFIER_INTERVAL * 63 / (63 + (63 - nSection) * ( MODIFIER_INTERVAL_RATIO - 1))

/-- The hash by which a candidate is selected. A proof-of-stake block is favored over a proof-of-work block. -/
def hashSelection (fModifierV2 : Bool) (nStakeModifierPrev : UInt64) (pindex : StakeEntry) : Uint256 :=
  let hashProof := if fModifierV2 then pindex.hash else if pindex.proofOfStake then 0 else pindex.hash
  let h := hash (leBytes 32 hashProof.toNat ++ leBytes 8 nStakeModifierPrev.toNat)
  if pindex.proofOfStake then h >>> 32 else h

/-- The loop of `SelectBlockFromCandidates`. `fModifierV2` is not set before the first candidate, `best` holds `hashBest`
and `*pindexSelected` once `fSelected` is set, and the result is `none` when a candidate is not in `mapBlockIndex`. -/
def selectLoop (mapSelectedBlocks : List Uint256) (nSelectionIntervalStop : Int) (nStakeModifierPrev : UInt64) :
    Option Bool → Option (Uint256 × StakeEntry) → List (Nat × Uint256) → Option (Option (Uint256 × StakeEntry))
  | _, best, [] => some best
  | first, best, item :: items =>
    match find item.2 with
    | none => none
    | some pindex =>
      if best.isSome && decide (nSelectionIntervalStop < pindex.nTime) then some best
      else
        let fModifierV2 := first.getD (decide (params.heightStartStakeModifierNewSelection ≤ pindex.nHeight))
        if pindex.hash ∈ mapSelectedBlocks then
          selectLoop mapSelectedBlocks nSelectionIntervalStop nStakeModifierPrev (some fModifierV2) best items
        else
          let h := hashSelection hash fModifierV2 nStakeModifierPrev pindex
          let best := match best with
            | none => some (h, pindex)
            | some (hashBest, selected) => if h < hashBest then some (h, pindex) else some (hashBest, selected)
          selectLoop mapSelectedBlocks nSelectionIntervalStop nStakeModifierPrev (some fModifierV2) best items

/-- `SelectBlockFromCandidates`: the selected block, when it returns true. -/
def selectBlockFromCandidates (vSortedByTimestamp : List (Nat × Uint256)) (mapSelectedBlocks : List Uint256)
    (nSelectionIntervalStop : Int) (nStakeModifierPrev : UInt64) : Option StakeEntry :=
  match selectLoop params hash find mapSelectedBlocks nSelectionIntervalStop nStakeModifierPrev none none
      vSortedByTimestamp with
  | some (some (_, pindex)) => some pindex
  | _ => none

/-- The rounds of `ComputeNextStakeModifier` that are left: each writes the entropy bit of the block it selects. -/
def selectRounds (vSortedByTimestamp : List (Nat × Uint256)) (nStakeModifier : UInt64) :
    Nat → Nat → Int → List Uint256 → UInt64 → Option UInt64
  | 0, _, _, _, nStakeModifierNew => some nStakeModifierNew
  | left + 1, nRound, stop, mapSelectedBlocks, nStakeModifierNew =>
    let nSelectionIntervalStop := stop + getStakeModifierSelectionIntervalSection nRound
    match selectBlockFromCandidates params hash find vSortedByTimestamp mapSelectedBlocks nSelectionIntervalStop
        nStakeModifier with
    | none => none
    | some pindex =>
      selectRounds vSortedByTimestamp nStakeModifier left (nRound + 1) nSelectionIntervalStop
        (pindex.hash :: mapSelectedBlocks)
        (nStakeModifierNew ||| (UInt64.ofNat (getStakeEntropyBit pindex.hash) <<< UInt64.ofNat nRound))

/-- The order of `std::pair<int64_t, uint256>`. -/
def candidateLe (a b : Nat × Uint256) : Bool := decide (a.1 < b.1) || (a.1 == b.1 && decide (a.2 ≤ b.2))

/-- `nSelectionIntervalStart`. -/
def selectionIntervalStart (nTime : Nat) : Int :=
  ((nTime / MODIFIER_INTERVAL * MODIFIER_INTERVAL : Nat) : Int) - OLD_MODIFIER_INTERVAL

/-- `vSortedByTimestamp`. -/
def sortedByTimestamp (start : Int) (chain : List StakeEntry) : List (Nat × Uint256) :=
  (((chain.takeWhile fun e => decide (start ≤ e.nTime)).map fun e => (e.nTime, e.hash)).reverse).mergeSort candidateLe

/-- `ComputeNextStakeModifier` for the entry `pindexPrev` and its ancestors: what it returns, `nStakeModifier` and
`fGeneratedStakeModifier`. -/
def computeNextStakeModifier : List StakeEntry → Bool × UInt64 × Bool
  | [] => (true, 0, true)
  | pindexPrev :: rest =>
    let chain := pindexPrev :: rest
    if pindexPrev.nHeight = 0 then (true, literal, true)
    else
      match chain.find? (·.generatedStakeModifier) with
      | none => (false, 0, false)
      | some p =>
        let nStakeModifier := p.getStakeModifierV1 params
        if pindexPrev.nTime / MODIFIER_INTERVAL ≤ p.nTime / MODIFIER_INTERVAL then (true, nStakeModifier, false)
        else
          let nSelectionIntervalStart := selectionIntervalStart pindexPrev.nTime
          let vSortedByTimestamp := sortedByTimestamp nSelectionIntervalStart chain
          match selectRounds params hash find vSortedByTimestamp nStakeModifier (min 64 vSortedByTimestamp.length) 0
              nSelectionIntervalStart [] 0 with
          | none => (false, nStakeModifier, false)
          | some nStakeModifierNew => (true, nStakeModifierNew, true)

end Select

/-! ## The index -/

/-- `mapBlockIndex`, with the proof-of-stake fields of its entries. -/
structure StakeIndex where
  index : BlockIndex
  stake : Ptr → StakeFields

namespace StakeIndex

/-- The index without entries. -/
def empty : StakeIndex := ⟨.empty, fun _ => ⟨false, false, false, []⟩⟩

variable (n : StakeIndex)

def entry (p : Ptr) : StakeEntry := ⟨n.stake p, (n.index.entry p).hash, n.index.nHeight p, (n.index.entry p).nTime⟩

/-- The entry and its ancestors. -/
def chain (p : Ptr) : List StakeEntry := (n.index.path p).map n.entry

/-- `mapBlockIndex[hash]`. -/
def find (hash : Uint256) : Option StakeEntry := (n.index.find hash).map n.entry

/-- The proof-of-stake fields that `AddToBlockIndex` gives to a block on top of `pprev`. A block on a V2 height has to
have a coinstake. -/
def newFields (params : StakeParams) (hash : List UInt8 → Uint256) (literal : UInt64) (block : CBlock) (pprev : Ptr) :
    Option StakeFields :=
  let st : StakeFields := ⟨block.isProofOfStake, getStakeEntropyBit block.hash == 1, false, []⟩
  if !params.isStakeModifierV2 (n.index.nHeight pprev + 1) then
    let (_, nStakeModifier, fGeneratedStakeModifier) :=
      computeNextStakeModifier params hash literal n.find (n.chain pprev)
    some (st.setStakeModifier nStakeModifier fGeneratedStakeModifier)
  else
    match block.vtx[1]? with
    | none => none
    | some tx =>
      match tx.vin[0]? with
      | none => none
      | some txin => some (st.setStakeModifierV2 (hash (leBytes 32 txin.prevout.hash.toNat ++
          leBytes 32 ((n.entry pprev).getStakeModifierV2 params).toNat)))

/-- `AddToBlockIndex` for a block at the free address `new`; nothing changes when the block is known. -/
def addToBlockIndex (params : StakeParams) (hash : List UInt8 → Uint256) (literal : UInt64) (n : StakeIndex)
    (op : Ptr × CBlock) : Option StakeIndex :=
  let (new, block) := op
  if new ∈ n.index.mapBlockIndex ∨ (n.index.find block.hash).isSome then some n
  else
    match n.index.find block.hashPrevBlock with
    | none => some ⟨n.index.add new block.toCBlockHeader,
        Function.update n.stake new ⟨block.isProofOfStake, false, false, []⟩⟩
    | some pprev => (n.newFields params hash literal block pprev).map fun st =>
        ⟨n.index.add new block.toCBlockHeader, Function.update n.stake new st⟩

/-- The index after blocks arrived one after the other. -/
def run (params : StakeParams) (hash : List UInt8 → Uint256) (literal : UInt64) (ops : List (Ptr × CBlock)) :
    Option StakeIndex := ops.foldlM (addToBlockIndex params hash literal) empty

end StakeIndex

/-! ## The modifier of a chain -/

section Congr

variable {params : StakeParams} {hash : List UInt8 → Uint256} {literal : UInt64}
variable {find find' : Uint256 → Option StakeEntry}

theorem selectLoop_congr {mapSelectedBlocks : List Uint256} {stop : Int} {nStakeModifierPrev : UInt64}
    {items : List (Nat × Uint256)} (h : ∀ c ∈ items, find c.2 = find' c.2) (first : Option Bool)
    (best : Option (Uint256 × StakeEntry)) :
    selectLoop params hash find mapSelectedBlocks stop nStakeModifierPrev first best items =
      selectLoop params hash find' mapSelectedBlocks stop nStakeModifierPrev first best items := by
  induction items generalizing first best with
  | nil => rfl
  | cons item items ih =>
    have ih := ih fun c hc => h c (List.mem_cons_of_mem _ hc)
    simp only [selectLoop, h item List.mem_cons_self, ih]

theorem selectRounds_congr {items : List (Nat × Uint256)} (h : ∀ c ∈ items, find c.2 = find' c.2)
    (nStakeModifier : UInt64) (left nRound : Nat) (stop : Int) (mapSelectedBlocks : List Uint256) (new : UInt64) :
    selectRounds params hash find items nStakeModifier left nRound stop mapSelectedBlocks new =
      selectRounds params hash find' items nStakeModifier left nRound stop mapSelectedBlocks new := by
  induction left generalizing nRound stop mapSelectedBlocks new with
  | zero => rfl
  | succ left ih => simp only [selectRounds, selectBlockFromCandidates, selectLoop_congr h, ih]

theorem mem_sortedByTimestamp {start : Int} {chain : List StakeEntry} {c : Nat × Uint256}
    (h : c ∈ sortedByTimestamp start chain) : ∃ e ∈ chain, e.hash = c.2 := by
  rw [sortedByTimestamp, List.mem_mergeSort, List.mem_reverse, List.mem_map] at h
  obtain ⟨e, he, rfl⟩ := h
  exact ⟨e, (List.takeWhile_prefix _).subset he, rfl⟩

theorem computeNextStakeModifier_congr {chain : List StakeEntry} (h : ∀ e ∈ chain, find e.hash = find' e.hash) :
    computeNextStakeModifier params hash literal find chain =
      computeNextStakeModifier params hash literal find' chain := by
  cases chain with
  | nil => rfl
  | cons pindexPrev rest =>
    have hitems : ∀ c ∈ sortedByTimestamp (selectionIntervalStart pindexPrev.nTime) (pindexPrev :: rest),
        find c.2 = find' c.2 := by
      intro c hc
      obtain ⟨e, he, heq⟩ := mem_sortedByTimestamp hc
      rw [← heq]
      exact h e he
    simp only [computeNextStakeModifier, selectRounds_congr hitems]

end Congr

/-- The lookup of a block by its hash, in the chain alone. -/
def findInChain (chain : List StakeEntry) (hash : Uint256) : Option StakeEntry := chain.find? fun e => e.hash == hash

/-- The proof-of-stake fields of a block on top of a chain, below the first V2 height. -/
def chainFields (params : StakeParams) (hash : List UInt8 → Uint256) (literal : UInt64) (chain : List StakeEntry)
    (proofOfStake : Bool) (blockHash : Uint256) : StakeFields :=
  let next := computeNextStakeModifier params hash literal (findInChain chain) chain
  StakeFields.setStakeModifier ⟨proofOfStake, getStakeEntropyBit blockHash == 1, false, []⟩ next.2.1 next.2.2

namespace StakeIndex

variable {params : StakeParams} {hash : List UInt8 → Uint256} {literal literal' : UInt64} {n n' : StakeIndex}
variable {p p' q q' new : Ptr} {block : CBlock}

theorem find_of_mem (hp : p ∈ n.index.mapBlockIndex) : n.find (n.entry p).hash = some (n.entry p) := by
  rw [find, entry, BlockIndex.find_eq hp]
  rfl

theorem find_eq_findInChain (hp : p ∈ n.index.mapBlockIndex) {e : StakeEntry} (he : e ∈ n.chain p) :
    n.find e.hash = findInChain (n.chain p) e.hash := by
  have hmem : ∀ q ∈ n.index.path p, q ∈ n.index.mapBlockIndex := fun q hq =>
    n.index.rooted.anc_mem hp ((BlockIndex.mem_path hp).mp hq)
  obtain ⟨q, hq, rfl⟩ := List.mem_map.mp he
  rw [find_of_mem (hmem q hq)]
  cases hfind : findInChain (n.chain p) (n.entry q).hash with
  | none =>
    have := List.find?_eq_none.mp hfind (n.entry q) he
    simp at this
  | some e' =>
    obtain ⟨q', hq', rfl⟩ := List.mem_map.mp (List.mem_of_find?_eq_some hfind)
    have hhash : (n.entry q').hash = (n.entry q).hash := by simpa using List.find?_some hfind
    rw [n.index.hash_inj q' (hmem q' hq') q (hmem q hq) hhash]

theorem computeNextStakeModifier_chain (hp : p ∈ n.index.mapBlockIndex) :
    computeNextStakeModifier params hash literal n.find (n.chain p) =
      computeNextStakeModifier params hash literal (findInChain (n.chain p)) (n.chain p) :=
  computeNextStakeModifier_congr fun _ he => find_eq_findInChain hp he

theorem chain_none (hp : p ∈ n.index.mapBlockIndex) (h : n.index.pprev p = none) : n.chain p = [n.entry p] := by
  rw [chain, BlockIndex.path_none hp h]
  rfl

theorem chain_some (hp : p ∈ n.index.mapBlockIndex) (h : n.index.pprev p = some q) :
    n.chain p = n.entry p :: n.chain q := by
  rw [chain, BlockIndex.path_some hp h]
  rfl

/-- The fields of every entry are those of its chain. -/
structure FieldsOk (params : StakeParams) (hash : List UInt8 → Uint256) (literal : UInt64) (n : StakeIndex) : Prop where
  root : ∀ p ∈ n.index.mapBlockIndex, n.index.pprev p = none → n.stake p = ⟨(n.stake p).proofOfStake, false, false, []⟩
  next : ∀ p ∈ n.index.mapBlockIndex, ∀ q, n.index.pprev p = some q →
    params.isStakeModifierV2 (n.index.nHeight p) = false →
    n.stake p = chainFields params hash literal (n.chain q) (n.stake p).proofOfStake (n.index.entry p).hash

/-! ## Runs -/

theorem addToBlockIndex_cases (h : addToBlockIndex params hash literal n (new, block) = some n') : n' = n ∨
    (new ∉ n.index.mapBlockIndex ∧ n.index.find block.hash = none ∧ ∃ st,
      n' = ⟨n.index.add new block.toCBlockHeader, Function.update n.stake new st⟩ ∧
      (n.index.find block.hashPrevBlock = none ∧ st = ⟨block.isProofOfStake, false, false, []⟩ ∨
        ∃ pprev, n.index.find block.hashPrevBlock = some pprev ∧
          n.newFields params hash literal block pprev = some st)) := by
  unfold addToBlockIndex at h
  dsimp only at h
  split at h
  · exact Or.inl (Option.some.inj h).symm
  · rename_i hknown
    push Not at hknown
    refine Or.inr ⟨hknown.1, Option.not_isSome_iff_eq_none.mp hknown.2, ?_⟩
    cases hfind : n.index.find block.hashPrevBlock with
    | none =>
      rw [hfind] at h
      exact ⟨_, (Option.some.inj h).symm, Or.inl ⟨rfl, rfl⟩⟩
    | some pprev =>
      rw [hfind] at h
      obtain ⟨st, hst, rfl⟩ := Option.map_eq_some_iff.mp h
      exact ⟨st, rfl, Or.inr ⟨pprev, rfl, hst⟩⟩

section Added

variable {st : StakeFields} (hnew : new ∉ n.index.mapBlockIndex)
  (hn' : n' = ⟨n.index.add new block.toCBlockHeader, Function.update n.stake new st⟩)
include hnew hn'

theorem stake_of_mem (hp : p ∈ n.index.mapBlockIndex) : n'.stake p = n.stake p := by
  subst hn'
  refine Function.update_of_ne ?_ _ _
  rintro rfl
  exact hnew hp

theorem entry_of_mem (hp : p ∈ n.index.mapBlockIndex) : n'.entry p = n.entry p := by
  rw [entry, stake_of_mem hnew hn' hp]
  subst hn'
  rw [BlockIndex.add_entry hp, BlockIndex.nHeight_add hp]
  rfl

theorem chain_of_mem (hp : p ∈ n.index.mapBlockIndex) : n'.chain p = n.chain p := by
  have hpath : n'.index.path p = n.index.path p := by
    subst hn'
    exact BlockIndex.path_add hp
  rw [chain, hpath]
  apply List.map_congr_left
  intro q hq
  exact entry_of_mem hnew hn' (n.index.rooted.anc_mem hp ((BlockIndex.mem_path hp).mp hq))

end Added

theorem newFields_chain {st : StakeFields} (hq : q ∈ n.index.mapBlockIndex)
    (hV1 : params.isStakeModifierV2 (n.index.nHeight q + 1) = false)
    (h : n.newFields params hash literal block q = some st) :
    st = chainFields params hash literal (n.chain q) st.proofOfStake block.hash := by
  simp only [newFields, hV1, Bool.not_false, if_true, computeNextStakeModifier_chain hq, Option.some.injEq] at h
  rw [← h]
  rfl

theorem FieldsOk.step {op : Ptr × CBlock} (hok : n.FieldsOk params hash literal)
    (h : addToBlockIndex params hash literal n op = some n') : n'.FieldsOk params hash literal := by
  obtain ⟨new, block⟩ := op
  rcases addToBlockIndex_cases h with rfl | ⟨hnew, hhash, st, hn', hst⟩
  · exact hok
  · obtain ⟨hmem, hentry⟩ := BlockIndex.add_of_fresh hnew hhash
    have hmem' : n'.index.mapBlockIndex = new :: n.index.mapBlockIndex := by
      rw [hn']
      exact hmem
    have hpprev : ∀ p ∈ n.index.mapBlockIndex, n'.index.pprev p = n.index.pprev p := by
      intro p hp
      rw [hn']
      exact BlockIndex.pprev_add hp
    have hheight : ∀ p ∈ n.index.mapBlockIndex, n'.index.nHeight p = n.index.nHeight p := by
      intro p hp
      rw [hn']
      exact BlockIndex.nHeight_add hp
    have hentry' : n'.index.entry new = n.index.newEntry block.toCBlockHeader := by
      rw [hn', hentry]
      exact Function.update_self _ _ _
    have hstake : n'.stake new = st := by
      rw [hn']
      exact Function.update_self _ _ _
    constructor
    · intro p hp hroot
      rw [hmem'] at hp
      rcases List.mem_cons.mp hp with rfl | hp
      · rw [BlockIndex.pprev, hentry'] at hroot
        rcases hst with ⟨-, rfl⟩ | ⟨pprev, hfind, -⟩
        · rw [hstake]
        · simp [BlockIndex.newEntry, hfind] at hroot
      · rw [hpprev p hp] at hroot
        rw [stake_of_mem hnew hn' hp]
        exact hok.root p hp hroot
    · intro p hp q hpq hV1
      rw [hmem'] at hp
      rcases List.mem_cons.mp hp with rfl | hp
      · rw [BlockIndex.pprev, hentry'] at hpq
        obtain ⟨hq, hfind, hh, -⟩ := BlockIndex.newEntry_some hpq
        rw [BlockIndex.nHeight, hentry', hh] at hV1
        rcases hst with ⟨hnone, -⟩ | ⟨pprev, hsome, hst⟩
        · rw [hnone] at hfind
          cases hfind
        · rw [hsome] at hfind
          cases hfind
          rw [chain_of_mem hnew hn' hq, hstake, hentry', BlockIndex.newEntry_header.1]
          exact newFields_chain hq hV1 hst
      · rw [hpprev p hp] at hpq
        rw [hheight p hp] at hV1
        have hkept : n'.index.entry p = n.index.entry p := by
          rw [hn']
          exact BlockIndex.add_entry hp
        rw [stake_of_mem hnew hn' hp, chain_of_mem hnew hn' (n.index.rooted.mem hp hpq), hkept]
        exact hok.next p hp q hpq hV1

theorem fieldsOk_empty : empty.FieldsOk params hash literal :=
  ⟨by simp [empty, BlockIndex.empty], by simp [empty, BlockIndex.empty]⟩

theorem fieldsOk_run {ops : List (Ptr × CBlock)} (hrun : run params hash literal ops = some n) :
    n.FieldsOk params hash literal :=
  Meets.keeps (P := fun _ _ => True) (fun _ _ _ hok _ h => FieldsOk.step hok h) fieldsOk_empty
    (Meets.of_forall fun _ _ _ => trivial) hrun

/-! ## Two nodes -/

/-- What a block of the chain says of itself: its hash, its time and whether it is a proof-of-stake block. -/
def blockFacts (n : StakeIndex) (p : Ptr) : Uint256 × Nat × Bool :=
  ((n.index.entry p).hash, (n.index.entry p).nTime, (n.stake p).proofOfStake)

/-- The V1 modifier of an entry. -/
def modifier (params : StakeParams) (n : StakeIndex) (p : Ptr) : UInt64 := (n.entry p).getStakeModifierV1 params

theorem chain_eq (hok : n.FieldsOk params hash literal) (hok' : n'.FieldsOk params hash literal) :
    ∀ p ∈ n.index.mapBlockIndex, ∀ p' ∈ n'.index.mapBlockIndex,
      (n.index.path p).map n.blockFacts = (n'.index.path p').map n'.blockFacts →
      params.isStakeModifierV2 (n.index.nHeight p) = false → n.chain p = n'.chain p' := by
  refine n.index.rooted.induct_on ?_
  intro p hp ih p' hp' hsame hV1
  have hheight : n.index.nHeight p = n'.index.nHeight p' := by
    have hlen := congrArg List.length hsame
    rw [List.length_map, List.length_map, BlockIndex.path, BlockIndex.path, n.index.rooted.length_path hp,
      n'.index.rooted.length_path hp'] at hlen
    omega
  cases hpar : n.index.pprev p with
  | none =>
    cases hpar' : n'.index.pprev p' with
    | none =>
      rw [BlockIndex.path_none hp hpar, BlockIndex.path_none hp' hpar'] at hsame
      simp only [blockFacts, List.map_cons, List.map_nil, List.cons.injEq, Prod.mk.injEq, and_true] at hsame
      obtain ⟨hhash, htime, hpos⟩ := hsame
      rw [chain_none hp hpar, chain_none hp' hpar', entry, entry, hok.root p hp hpar, hok'.root p' hp' hpar', hpos, hhash,
        htime, hheight]
    | some q' =>
      have := n.index.rooted.root hp hpar
      have := n'.index.rooted.succ hp' hpar'
      omega
  | some q =>
    cases hpar' : n'.index.pprev p' with
    | none =>
      have := n.index.rooted.succ hp hpar
      have := n'.index.rooted.root hp' hpar'
      omega
    | some q' =>
      rw [BlockIndex.path_some hp hpar, BlockIndex.path_some hp' hpar'] at hsame
      simp only [List.map_cons, List.cons.injEq] at hsame
      obtain ⟨hfacts, hrest⟩ := hsame
      simp only [blockFacts, Prod.mk.injEq] at hfacts
      obtain ⟨hhash, htime, hpos⟩ := hfacts
      have hsucc := n.index.rooted.succ hp hpar
      have hV1q : params.isStakeModifierV2 (n.index.nHeight q) = false := by
        simp only [ConsensusParams.isStakeModifierV2, decide_eq_false_iff_not] at hV1 ⊢
        omega
      have hchain := ih q hpar q' (n'.index.rooted.mem hp' hpar') hrest hV1q
      rw [chain_some hp hpar, chain_some hp' hpar', entry, entry, hok.next p hp q hpar hV1,
        hok'.next p' hp' q' hpar' (hheight ▸ hV1), hchain, hpos, hhash, htime, hheight]

theorem getStakeModifierV1_setStakeModifier {st : StakeFields} {nStakeModifier : UInt64} {fGenerated : Bool}
    {blockHash : Uint256} {nHeight nTime : Nat} (hV1 : params.isStakeModifierV2 nHeight = false) :
    StakeEntry.getStakeModifierV1 params ⟨st.setStakeModifier nStakeModifier fGenerated, blockHash, nHeight, nTime⟩ =
      nStakeModifier := by
  have hne : (leBytes 8 nStakeModifier.toNat).isEmpty = false := by
    rw [← Bool.not_eq_true, List.isEmpty_iff_length_eq_zero, length_leBytes]
    decide
  have hlt : nStakeModifier.toNat < 256 ^ 8 := nStakeModifier.toNat_lt
  simp only [StakeEntry.getStakeModifierV1, StakeFields.setStakeModifier, hne, hV1, Bool.or_self, Bool.false_eq_true,
    if_false, ofLeBytes_leBytes_of_lt hlt, UInt64.ofNat_toNat]

theorem pprev_of_nHeight_zero (hp : p ∈ n.index.mapBlockIndex) (hzero : n.index.nHeight p = 0) :
    n.index.pprev p = none := by
  cases hpar : n.index.pprev p with
  | none => rfl
  | some q =>
    have := n.index.rooted.succ hp hpar
    omega

theorem path_of_nHeight_zero (hp : p ∈ n.index.mapBlockIndex) (hzero : n.index.nHeight p = 0) : n.index.path p = [p] :=
  BlockIndex.path_none hp (pprev_of_nHeight_zero hp hzero)

theorem modifier_root (hok : n.FieldsOk params hash literal) (hp : p ∈ n.index.mapBlockIndex)
    (hzero : n.index.nHeight p = 0) : n.modifier params p = 0 := by
  rw [modifier, entry, hok.root p hp (pprev_of_nHeight_zero hp hzero)]
  rfl

theorem modifier_first (hok : n.FieldsOk params hash literal) (hp : p ∈ n.index.mapBlockIndex)
    (hheight : n.index.nHeight p = 1) (hV1 : params.isStakeModifierV2 1 = false) : n.modifier params p = literal := by
  cases hpar : n.index.pprev p with
  | none =>
    have := n.index.rooted.root hp hpar
    omega
  | some q =>
    have hq := n.index.rooted.mem hp hpar
    have hsucc := n.index.rooted.succ hp hpar
    have hzero : (n.entry q).nHeight = 0 := by
      show n.index.nHeight q = 0
      omega
    rw [← hheight] at hV1
    rw [modifier, entry, hok.next p hp q hpar hV1, chainFields, chain_none hq (pprev_of_nHeight_zero hq hzero)]
    simp only [computeNextStakeModifier, hzero, if_true]
    exact getStakeModifierV1_setStakeModifier hV1

theorem literal_eq (hok : n.FieldsOk params hash literal) (hok' : n'.FieldsOk params hash literal') :
    ∀ p ∈ n.index.mapBlockIndex, ∀ p' ∈ n'.index.mapBlockIndex, n.index.nHeight p = n'.index.nHeight p' →
      0 < n.index.nHeight p → params.isStakeModifierV2 (n.index.nHeight p) = false →
      (n.index.path p).map (n.modifier params) = (n'.index.path p').map (n'.modifier params) → literal = literal' := by
  refine n.index.rooted.induct_on ?_
  intro p hp ih p' hp' hheight hpos hV1 hsame
  cases hpar : n.index.pprev p with
  | none =>
    have := n.index.rooted.root hp hpar
    omega
  | some q =>
    cases hpar' : n'.index.pprev p' with
    | none =>
      have := n'.index.rooted.root hp' hpar'
      omega
    | some q' =>
      have hsucc := n.index.rooted.succ hp hpar
      have hsucc' := n'.index.rooted.succ hp' hpar'
      rw [BlockIndex.path_some hp hpar, BlockIndex.path_some hp' hpar'] at hsame
      simp only [List.map_cons, List.cons.injEq] at hsame
      by_cases hone : n.index.nHeight p = 1
      · rw [hone] at hV1 hheight
        rw [← modifier_first hok hp hone hV1, ← modifier_first hok' hp' hheight.symm hV1]
        exact hsame.1
      · have hV1q : params.isStakeModifierV2 (n.index.nHeight q) = false := by
          simp only [ConsensusParams.isStakeModifierV2, decide_eq_false_iff_not] at hV1 ⊢
          omega
        exact ih q hpar q' (n'.index.rooted.mem hp' hpar') (by omega) (by omega) hV1q hsame.2

/-- Two nodes that have a chain of blocks give its blocks the same V1 modifiers exactly when the literal is at the same
address in both processes, or the chain is the genesis block. -/
theorem modifiers_eq_iff (params : StakeParams) (hash : List UInt8 → Uint256) {literal literal' : UInt64}
    {ops ops' : List (Ptr × CBlock)} {n n' : StakeIndex} (hrun : run params hash literal ops = some n)
    (hrun' : run params hash literal' ops' = some n') {p p' : Ptr} (hp : p ∈ n.index.mapBlockIndex)
    (hp' : p' ∈ n'.index.mapBlockIndex)
    (hsame : (n.index.path p).map n.blockFacts = (n'.index.path p').map n'.blockFacts)
    (hV1 : params.isStakeModifierV2 (n.index.nHeight p) = false) :
    (n.index.path p).map (n.modifier params) = (n'.index.path p').map (n'.modifier params) ↔
      literal = literal' ∨ n.index.nHeight p = 0 := by
  have hok := fieldsOk_run hrun
  have hok' := fieldsOk_run hrun'
  have hlen := congrArg List.length hsame
  rw [List.length_map, List.length_map, BlockIndex.path, BlockIndex.path, n.index.rooted.length_path hp,
    n'.index.rooted.length_path hp'] at hlen
  constructor
  · intro h
    by_cases hzero : n.index.nHeight p = 0
    · exact Or.inr hzero
    · exact Or.inl (literal_eq hok hok' p hp p' hp' (by omega) (by omega) hV1 h)
  · rintro (rfl | hzero)
    · have hchain := congrArg (List.map (StakeEntry.getStakeModifierV1 params)) (chain_eq hok hok' p hp p' hp' hsame hV1)
      simp only [chain, List.map_map] at hchain
      exact hchain
    · rw [path_of_nHeight_zero hp hzero, path_of_nHeight_zero hp' (by omega), List.map_singleton, List.map_singleton,
        modifier_root hok hp hzero, modifier_root hok' hp' (by omega)]

/-- The genesis block and a block on it, both proof-of-work. -/
def twoBlocks : List (Ptr × CBlock) := [(0, ⟨⟨1, 7, 0, 0, 0, 0, 0⟩, []⟩), (1, ⟨⟨2, 7, 1, 0, 60, 0, 0⟩, []⟩)]

theorem run_twoBlocks : (run regTestStakeParams (fun _ => 0) 4096 twoBlocks).isSome := by decide

theorem run_twoBlocks_elsewhere : (run regTestStakeParams (fun _ => 0) 8192 twoBlocks).isSome := by decide

theorem modifiers_ne_twoBlocks : ∃ n n', run regTestStakeParams (fun _ => 0) 4096 twoBlocks = some n ∧
    run regTestStakeParams (fun _ => 0) 8192 twoBlocks = some n' ∧ 1 ∈ n.index.mapBlockIndex ∧
    (n.index.path 1).map n.blockFacts = (n'.index.path 1).map n'.blockFacts ∧
    (n.index.path 1).map (n.modifier regTestStakeParams) ≠ (n'.index.path 1).map (n'.modifier regTestStakeParams) := by
  have hrun := (Option.some_get run_twoBlocks).symm
  have hrun' := (Option.some_get run_twoBlocks_elsewhere).symm
  refine ⟨_, _, hrun, hrun', by decide, by decide, fun h => ?_⟩
  have h := (modifiers_eq_iff regTestStakeParams (fun _ => 0) hrun hrun' (by decide) (by decide)
    (by decide) (by decide)).mp h
  exact absurd h (by decide)

/-- Two processes that have the literal at different addresses give block 1 different modifiers. -/
theorem modifiers_differ : ¬ ∀ (params : StakeParams) (hash : List UInt8 → Uint256) (literal literal' : UInt64)
    (ops : List (Ptr × CBlock)) (n n' : StakeIndex), run params hash literal ops = some n →
    run params hash literal' ops = some n' → ∀ p ∈ n.index.mapBlockIndex, p ∈ n'.index.mapBlockIndex →
      (n.index.path p).map n.blockFacts = (n'.index.path p).map n'.blockFacts →
      params.isStakeModifierV2 (n.index.nHeight p) = false →
      (n.index.path p).map (n.modifier params) = (n'.index.path p).map (n'.modifier params) := by
  intro hall
  have h := hall regTestStakeParams (fun _ => 0) 4096 8192 twoBlocks _ _ (Option.some_get run_twoBlocks).symm
    (Option.some_get run_twoBlocks_elsewhere).symm 1 (by decide) (by decide) (by decide)
    (by decide)
  exact absurd h (by decide)

end StakeIndex

end DigiWage
