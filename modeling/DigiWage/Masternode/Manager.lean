import DigiWage.Masternode.Budget
import DigiWage.Coins.Compressor

/-!
# The budget manager

`CBudgetManager` as far as it receives proposals, finalized budgets and the votes on them: the commands `mprop`, `mvote`,
`fbs` and `fbvote` of `ProcessMessage`, `CheckOrphanVotes`, `UpdateProposal`, `UpdateFinalizedBudget`, and `NewBlock` with
`CheckAndRemove`.

* Proposals and finalized budgets are kept in the same way (`BudgetMaps`), so that each function is written once, for what
  a `BudgetKind` says about them.
* A map is a function to options. A loop over a map that treats each entry alone is written entry by entry; the orphan
  votes are kept under the hash that the vote names.
* The node is not a masternode and does not suggest budgets, so that `NewBlock` sends no votes and budgets of its own.
-/

namespace DigiWage

/-- What the manager asks of the rest of the node. -/
structure BudgetEnv where
  /-- `GetTime()`. -/
  now : Int
  isTestNet : Bool
  heightLastPoW : Int
  heightStartZCSerialsV2 : Int
  nBudgetCycleBlocks : Int
  /-- The height of the tip, if there is one. -/
  tipHeight : Option Int
  /-- `mnodeman.CountEnabled(ActiveProtocol())`. -/
  countEnabled : Nat
  /-- `IsBudgetCollateralValid`, for the fee transaction, the hash, and whether it is for a finalized budget: the result
  and `nConf`. -/
  isBudgetCollateralValid : Uint256 → Uint256 → Bool → Bool × Int
  /-- `mnodeman.Find`. -/
  known : CTxIn → Bool
  checkBudgetVoteSignature : CBudgetVote → List UInt8 → Bool
  checkFinalizedBudgetVoteSignature : CFinalizedBudgetVote → List UInt8 → Bool
  fLiteMode : Bool
  isBlockchainSynced : Bool
  isSynced : Bool
  /-- The sync of the masternode assets is past the budgets. -/
  budgetSynced : Bool
  /-- `rand()` in `NewBlock`. -/
  rand : Nat

/-- `CBudgetManager::GetTotalBudget`. -/
def BudgetEnv.getTotalBudget (env : BudgetEnv) (nHeight : Int) : Int :=
  match env.tipHeight with
  | none => 0
  | some _ =>
    if env.isTestNet then (500 * COIN / 100) * 10 * 146
    else
      let nSubsidy : Int :=
        if nHeight ≤ env.heightLastPoW ∧ 151200 ≤ nHeight then 50 * COIN
        else if nHeight ≤ 302399 ∧ env.heightLastPoW < nHeight then 50 * COIN
        else if nHeight ≤ 345599 ∧ 302400 ≤ nHeight then 45 * COIN
        else if nHeight ≤ 388799 ∧ 345600 ≤ nHeight then 40 * COIN
        else if nHeight ≤ 431999 ∧ 388800 ≤ nHeight then 35 * COIN
        else if nHeight ≤ 475199 ∧ 432000 ≤ nHeight then 30 * COIN
        else if nHeight ≤ 518399 ∧ 475200 ≤ nHeight then 25 * COIN
        else if nHeight ≤ 561599 ∧ 518400 ≤ nHeight then 20 * COIN
        else if nHeight ≤ 604799 ∧ 561600 ≤ nHeight then 15 * COIN
        else if nHeight ≤ 647999 ∧ 604800 ≤ nHeight then 10 * COIN
        else if env.heightStartZCSerialsV2 ≤ nHeight then 10 * COIN
        else 5 * COIN
      if nHeight ≤ 172800 then 648000 * COIN else (nSubsidy / 100) * 10 * 1440 * 30

/-! ## Proposals and finalized budgets -/

structure CBudgetProposal where
  fValid : Bool
  strProposalName : String
  strURL : String
  nBlockStart : Int
  nBlockEnd : Int
  nAmount : Int
  address : CScript
  nFeeTXHash : Uint256
  mapVotes : VoteMap Int
deriving DecidableEq

namespace CBudgetProposal

variable (p : CBudgetProposal)

/-- The number of valid votes of a kind. -/
def countVotes (nVote : Int) : Int := p.mapVotes.entries.countP fun e => e.2.nVote == nVote && e.2.fValid

def getYeas : Int := p.countVotes VOTE_YES

def getNays : Int := p.countVotes VOTE_NO

def getBlockStartCycle (env : BudgetEnv) : Int := p.nBlockStart - p.nBlockStart.tmod env.nBudgetCycleBlocks

/-- `GetTotalPaymentCount`; the end cycle is `nBlockEnd`. Heights have 32 bits. -/
def getTotalPaymentCount (env : BudgetEnv) : Int :=
  ((p.nBlockEnd - p.getBlockStartCycle env).bmod (2 ^ 32)).tdiv env.nBudgetCycleBlocks

/-- `CBudgetProposal::IsValid`, for a proposal with the hash. -/
def isValid (env : BudgetEnv) (hash : Uint256) : Bool :=
  if ((env.countEnabled / 10 : Nat) : Int) < p.getNays - p.getYeas then false
  else if p.nBlockStart < 0 then false
  else if p.nBlockEnd < p.nBlockStart then false
  else if p.nAmount < 10 * COIN then false
  else if p.address.empty then false
  else if !(env.isBudgetCollateralValid p.nFeeTXHash hash false).1 then false
  else if p.address.isPayToScriptHash then false
  else if env.getTotalBudget p.nBlockStart < p.nAmount then false
  else
    match env.tipHeight with
    | none => true
    | some nHeight => !decide ((p.nBlockStart + env.nBudgetCycleBlocks * p.getTotalPaymentCount env).bmod (2 ^ 32) < nHeight)

end CBudgetProposal

namespace CFinalizedBudget

variable (b : CFinalizedBudget)

/-- `GetTotalPayout`, over `CAmount`, which wraps. -/
def getTotalPayout : Int := b.vecBudgetPayments.foldl (fun ret payment => (ret + payment.nAmount).bmod (2 ^ 64)) 0

/-- `CFinalizedBudget::IsValid`, for a budget with the hash. -/
def isValid (env : BudgetEnv) (hash : Uint256) : Bool :=
  if b.nBlockStart.tmod env.nBudgetCycleBlocks ≠ 0 then false
  else if 100 < b.getBlockEnd - b.nBlockStart then false
  else if 100 < b.vecBudgetPayments.length then false
  else if b.strBudgetName = "" then false
  else if b.nBlockStart = 0 then false
  else if b.nFeeTXHash = 0 then false
  else if env.getTotalBudget b.nBlockStart < b.getTotalPayout then false
  else if !(env.isBudgetCollateralValid b.nFeeTXHash hash true).1 then false
  else
    match env.tipHeight with
    | none => true
    | some nCurrentHeight =>
      let nBlockStart := nCurrentHeight - nCurrentHeight.tmod env.nBudgetCycleBlocks + env.nBudgetCycleBlocks
      !decide (b.getBlockEnd < nBlockStart - 2 * env.nBudgetCycleBlocks)

end CFinalizedBudget

/-- What the manager uses of proposals or of finalized budgets, with votes for `γ`. -/
structure BudgetKind (γ ι : Type) where
  getHash : ι → Uint256
  mapVotes : ι → VoteMap γ
  setVotes : VoteMap γ → ι → ι
  /-- `fValid = true`. -/
  setValid : ι → ι
  isValid : BudgetEnv → ι → Bool
  /-- `IsBudgetCollateralValid`, with `nConf`. -/
  isCollateralValid : BudgetEnv → ι → Bool × Int
  checkSignature : BudgetEnv → BudgetVote γ → List UInt8 → Bool
  mapVotes_setVotes : ∀ votes i, mapVotes (setVotes votes i) = votes
  mapVotes_setValid : ∀ i, mapVotes (setValid i) = mapVotes i
  getHash_setVotes : ∀ votes i, getHash (setVotes votes i) = getHash i

/-- The hashes of proposals and of finalized budgets, of the fields that `GetHash` serializes. -/
structure BudgetHashes where
  proposal : String → String → Int → Int → Int → CScript → Uint256
  finalized : String → Int → List CTxBudgetPayment → Uint256

namespace BudgetHashes

variable (hashes : BudgetHashes)

/-- `CBudgetProposal::GetHash`. -/
def getProposalHash (p : CBudgetProposal) : Uint256 :=
  hashes.proposal p.strProposalName p.strURL p.nBlockStart p.nBlockEnd p.nAmount p.address

/-- `CFinalizedBudget::GetHash`. -/
def getBudgetHash (b : CFinalizedBudget) : Uint256 := hashes.finalized b.strBudgetName b.nBlockStart b.vecBudgetPayments

def proposalKind : BudgetKind Int CBudgetProposal where
  getHash := hashes.getProposalHash
  mapVotes := CBudgetProposal.mapVotes
  setVotes votes p := { p with mapVotes := votes }
  setValid p := { p with fValid := true }
  isValid env p := p.isValid env (hashes.getProposalHash p)
  isCollateralValid env p := env.isBudgetCollateralValid p.nFeeTXHash (hashes.getProposalHash p) false
  checkSignature := BudgetEnv.checkBudgetVoteSignature
  mapVotes_setVotes _ _ := rfl
  mapVotes_setValid _ := rfl
  getHash_setVotes _ _ := rfl

def finalizedKind : BudgetKind Unit CFinalizedBudget where
  getHash := hashes.getBudgetHash
  mapVotes := CFinalizedBudget.mapVotes
  setVotes votes b := { b with mapVotes := votes }
  setValid b := { b with fValid := true }
  isValid env b := b.isValid env (hashes.getBudgetHash b)
  isCollateralValid env b := env.isBudgetCollateralValid b.nFeeTXHash (hashes.getBudgetHash b) true
  checkSignature := BudgetEnv.checkFinalizedBudgetVoteSignature
  mapVotes_setVotes _ _ := rfl
  mapVotes_setValid _ := rfl
  getHash_setVotes _ _ := rfl

end BudgetHashes

/-! ## The maps -/

/-- `mapProposals`, `mapSeenMasternodeBudgetProposals`, `mapSeenMasternodeBudgetVotes`, `mapOrphanMasternodeBudgetVotes`
and `vecImmatureBudgetProposals`, or the same for finalized budgets. -/
structure BudgetMaps (γ ι : Type) where
  mapItems : Uint256 → Option ι
  mapSeenItems : Uint256 → Bool
  mapSeenVotes : BudgetVote γ → Bool
  mapOrphanVotes : Uint256 → Option (BudgetVote γ)
  vecImmature : List ι

namespace BudgetMaps

variable {γ ι : Type} [DecidableEq γ]

/-- The maps of a new manager. -/
def empty : BudgetMaps γ ι := ⟨fun _ => none, fun _ => false, fun _ => false, fun _ => none, []⟩

variable (kind : BudgetKind γ ι) (env : BudgetEnv) (m : BudgetMaps γ ι)

/-- `UpdateProposal` and `UpdateFinalizedBudget`, for a vote that came from a peer or not. -/
def update (vote : BudgetVote γ) (pfrom : Bool) : Bool × BudgetMaps γ ι :=
  match m.mapItems vote.nHash with
  | none =>
    if pfrom && env.isSynced then
      (false, { m with mapOrphanVotes := Function.update m.mapOrphanVotes vote.nHash (some vote) })
    else (false, m)
  | some item =>
    match addOrUpdateVote env.now (kind.mapVotes item) vote with
    | .error _ => (false, m)
    | .ok mapVotes => (true, { m with mapItems := Function.update m.mapItems vote.nHash (some (kind.setVotes mapVotes item)) })

def checkOrphanVotes : BudgetMaps γ ι :=
  { m with
    mapItems := fun nHash => match m.mapOrphanVotes nHash with
      | none => m.mapItems nHash
      | some vote => (m.update kind env vote false).2.mapItems nHash
    mapOrphanVotes := fun nHash => match m.mapOrphanVotes nHash with
      | none => none
      | some vote => if (m.update kind env vote false).1 then none else some vote }

/-- `AddProposal` and `AddFinalizedBudget`, for a copy: the copy constructors set `fValid`. -/
def add (item : ι) : BudgetMaps γ ι :=
  if !kind.isValid env item then m
  else if (m.mapItems (kind.getHash item)).isSome then m
  else { m with mapItems := Function.update m.mapItems (kind.getHash item) (some (kind.setValid item)) }

/-- The commands `mprop` and `fbs`: the maps, and whether it goes on to `CheckOrphanVotes`. The message has no votes. -/
def receiveItem (broadcast : ι) : Bool × BudgetMaps γ ι :=
  let item := kind.setVotes ∅ broadcast
  if m.mapSeenItems (kind.getHash item) then (false, m)
  else if !(kind.isCollateralValid env item).1 then
    (false, if 1 ≤ (kind.isCollateralValid env item).2 then { m with vecImmature := m.vecImmature ++ [item] } else m)
  else
    let m₁ := { m with mapSeenItems := Function.update m.mapSeenItems (kind.getHash item) true }
    if !kind.isValid env item then (false, m₁) else (true, m₁.add kind env item)

/-- The commands `mvote` and `fbvote`. -/
def receiveVote (message : BudgetVote γ) (vchSig : List UInt8) : BudgetMaps γ ι :=
  let vote := { message with fValid := true }
  if m.mapSeenVotes vote then m
  else if !env.known vote.vin then m
  else
    let m₁ := { m with mapSeenVotes := Function.update m.mapSeenVotes vote true }
    if !kind.checkSignature env vote vchSig then m₁ else (m₁.update kind env vote true).2

def clearSeen : BudgetMaps γ ι := { m with mapSeenItems := fun _ => false, mapSeenVotes := fun _ => false }

/-- `CheckAndRemove`: what is not valid any more goes. -/
def checkAndRemove : BudgetMaps γ ι :=
  { m with mapItems := fun nHash => (m.mapItems nHash).bind fun item =>
      if kind.isValid env item then some (kind.setValid item) else none }

/-- `CleanAndRemove` of each proposal or budget. -/
def cleanItems : BudgetMaps γ ι :=
  { m with mapItems := fun nHash => (m.mapItems nHash).map fun item =>
      kind.setVotes (cleanAndRemove env.known (kind.mapVotes item)) item }

/-- The loop of `NewBlock` over `vecImmatureBudgetProposals` or `vecImmatureFinalizedBudgets`; what stays there is
returned too. -/
def promote : List ι → BudgetMaps γ ι → BudgetMaps γ ι × List ι
  | [], m => (m, [])
  | item :: rest, m =>
    if !(kind.isCollateralValid env item).1 then
      let (m', kept) := promote rest m
      (m', item :: kept)
    else if !kind.isValid env item then promote rest m
    else promote rest (m.add kind env item)

/-- What `NewBlock` does with the maps. -/
def newBlock : BudgetMaps γ ι :=
  let m₁ := (m.checkAndRemove kind env).cleanItems kind env
  let (m₂, kept) := promote kind env m₁.vecImmature m₁
  { m₂ with vecImmature := kept }

end BudgetMaps

/-! ## The manager -/

structure CBudgetManager where
  proposals : BudgetMaps Int CBudgetProposal
  finalized : BudgetMaps Unit CFinalizedBudget

/-- The manager receives a message or a new block. -/
inductive BudgetOp where
  | mprop (env : BudgetEnv) (proposal : CBudgetProposal)
  | mvote (env : BudgetEnv) (vote : CBudgetVote) (vchSig : List UInt8)
  | fbs (env : BudgetEnv) (budget : CFinalizedBudget)
  | fbvote (env : BudgetEnv) (vote : CFinalizedBudgetVote) (vchSig : List UInt8)
  | newBlock (env : BudgetEnv)

namespace CBudgetManager

def empty : CBudgetManager := ⟨.empty, .empty⟩

variable (hashes : BudgetHashes) (m : CBudgetManager)

def checkOrphanVotes (env : BudgetEnv) : CBudgetManager :=
  ⟨m.proposals.checkOrphanVotes hashes.proposalKind env, m.finalized.checkOrphanVotes hashes.finalizedKind env⟩

/-- `NewBlock`; the height of an empty chain is -1. -/
def newBlock (env : BudgetEnv) : CBudgetManager :=
  if !env.budgetSynced then m
  else if (env.tipHeight.getD (-1)).tmod 14 ≠ 0 then m
  else
    let clears := env.isSynced && (env.tipHeight.getD (-1)).tmod 1440 == (env.rand % 1440 : Nat)
    let m₁ : CBudgetManager := if clears then ⟨m.proposals.clearSeen, m.finalized.clearSeen⟩ else m
    ⟨m₁.proposals.newBlock hashes.proposalKind env, m₁.finalized.newBlock hashes.finalizedKind env⟩

/-- `ProcessMessage` returns at once in lite mode and before the chain is synced. -/
def listens (env : BudgetEnv) : Bool := !env.fLiteMode && env.isBlockchainSynced

/-- `ProcessMessage` and `NewBlock`. -/
def step : BudgetOp → CBudgetManager
  | .mprop env proposal =>
    if !listens env then m
    else
      let (checks, proposals) := m.proposals.receiveItem hashes.proposalKind env proposal
      if checks then { m with proposals }.checkOrphanVotes hashes env else { m with proposals }
  | .mvote env vote vchSig =>
    if !listens env then m else { m with proposals := m.proposals.receiveVote hashes.proposalKind env vote vchSig }
  | .fbs env budget =>
    if !listens env then m
    else
      let (checks, finalized) := m.finalized.receiveItem hashes.finalizedKind env budget
      if checks then { m with finalized }.checkOrphanVotes hashes env else { m with finalized }
  | .fbvote env vote vchSig =>
    if !listens env then m else { m with finalized := m.finalized.receiveVote hashes.finalizedKind env vote vchSig }
  | .newBlock env => m.newBlock hashes env

end CBudgetManager

end DigiWage
