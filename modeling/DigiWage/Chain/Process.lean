import DigiWage.Supply.Mint

/-!
# Reading the transactions of a block

`ProcessNewBlock` of `main.cpp` up to `AddToBlockIndex`, for a block that a peer sends. Some of the functions on the way
read `block.vtx[1]`, the output that a stake spends, or the script of an input, and rely on checks that are made
elsewhere or not at all. Here a function has no result when it reads past the end of a vector.

* `ProcessEnv` has `CheckBlockSignature`, `CheckProofOfStake`, `AddToBlockIndex` and `AcceptBlock` with what they read.
* `OutOfRange` lists the blocks that are read past the end, in five kinds.
-/

namespace DigiWage

open Lib ChainState

/-! ## The signature of a block -/

/-- What `Solver` finds in a script. -/
inductive Solved where
  | pubKey (vchPubKey : List UInt8)
  | pubKeyHash (hash : List UInt8)
  | coldStake
  | other
deriving DecidableEq, Repr

/-- What `ProcessNewBlock` asks of the node. -/
structure ProcessEnv extends CheckEnv where
  accept : AcceptEnv
  /-- `Solver` for a script that is not a zerocoin mint. -/
  solve : CScript → Option Solved
  /-- `CPubKey::IsValid` and `CPubKey::Verify`. -/
  verify : List UInt8 → Uint256 → List UInt8 → Bool

/-- The public key that `CheckBlockSignature` picks from the input of a cold stake, after the signature and the flag. -/
def coldStakePubKey (scriptSig : CScript) : Option (List UInt8) :=
  match scriptSig.bytes[0]? with
  | none => none
  | some sig =>
    let start := 1 + sig.toNat
    match scriptSig.bytes[start]? with
    | none => none
    | some flag =>
      let start := start + (1 + flag.toNat)
      if scriptSig.bytes.length < start + 1 then none else some (scriptSig.bytes.drop (start + 1))

namespace ProcessEnv

variable (env : ProcessEnv)

def solver (scriptPubKey : CScript) : Option (Option Solved) :=
  if scriptPubKey.isZerocoinMint then
    if 150 < scriptPubKey.bytes.length then some none
    -- the range from `scriptPubKey.begin() + 2` on
    else if scriptPubKey.bytes.length < 2 then none
    else some (some .other)
  else some (env.solve scriptPubKey)

def checkBlockSignature (block : CBlock) (vchBlockSig : List UInt8) : Option Bool :=
  if block.isProofOfWork then some vchBlockSig.isEmpty
  else if vchBlockSig.isEmpty then some false
  else
    match block.vtx[1]? with
    | none => none
    | some tx =>
      match tx.vout[1]?, tx.vin[0]? with
      | some txout, some txin =>
        match env.solver txout.scriptPubKey with
        | none => none
        | some none => some false
        | some (some (.pubKey vchPubKey)) => some (env.verify vchPubKey block.hash vchBlockSig)
        | some (some (.pubKeyHash hash)) => some (env.verify hash block.hash vchBlockSig)
        | some (some .coldStake) =>
          match coldStakePubKey txin.scriptSig with
          | none => none
          | some vchPubKey => some (env.verify vchPubKey block.hash vchBlockSig)
        | some (some .other) => some false
      | _, _ => none

/-! ## `AcceptBlock` -/

def checkProofOfStake (s : ChainState) (block : CBlock) (pindexPrev : Ptr) : Option Bool :=
  if block.hashPrevBlock ≠ (s.index.entry pindexPrev).hash then some false
  else if !block.isProofOfStake then some false
  else
    match block.vtx[1]? with
    | none => none
    | some tx =>
      match tx.vin[0]? with
      | none => none
      | some txin =>
        match initFromTxIn env.accept s txin with
        | none => some false
        | some (txPrev, pindexFrom) =>
          if !contextCheck env.params s.index pindexFrom (s.index.nHeight pindexPrev + 1) block.nTime then some false
          -- `GetTxFrom`
          else if txPrev.vin.isEmpty && txPrev.vout.isEmpty then some false
          else
            match txPrev.vout[txin.prevout.n]? with
            | none => none
            | some o => some (env.accept.verifyScript tx txPrev &&
                checkKernelHash (env.accept.kernelHash pindexPrev block pindexFrom) block.nBits o.nValue)

/-- `AddToBlockIndex`, with the input that it reads for the stake modifier. -/
def addToBlockIndex (s : ChainState) (new : Ptr) (block : CBlock) : Option (Ptr × ChainState) :=
  match s.index.find block.hash, s.index.find block.hashPrevBlock with
  | none, some pprev =>
    if env.params.isStakeModifierV2 (s.index.nHeight pprev + 1) then
      match block.vtx[1]? with
      | none => none
      | some tx =>
        match tx.vin[0]? with
        | none => none
        | some _ => some (s.addToBlockIndex new block.toCBlockHeader)
    else some (s.addToBlockIndex new block.toCBlockHeader)
  | _, _ => some (s.addToBlockIndex new block.toCBlockHeader)

def acceptBlockHeader (src : BlockSource) (s : ChainState) (new : Ptr) (block : CBlock) :
    Option (Except (Option Rejection) Ptr × ChainState) :=
  match s.index.find block.hash with
  | some pindex =>
    if (s.status pindex).failed then some (.error (some ⟨0, "duplicate", false⟩), s) else some (.ok pindex, s)
  | none =>
    match checkBlockHeader env.params env.accept block.toCBlockHeader false with
    | .error e => some (.error e, s)
    | .ok () =>
      if block.hash = src.hashGenesisBlock then
        match env.addToBlockIndex s new block with
        | none => none
        | some (pindex, s₁) => some (.ok pindex, s₁)
      else
        match s.index.find block.hashPrevBlock with
        | none => some (.error (some ⟨0, "bad-prevblk", false⟩), s)
        | some pindexPrev =>
          if (s.status pindexPrev).failed then some (.error (some ⟨100, "bad-prevblk", false⟩), s)
          else
            match contextualCheckBlockHeader env.params env.accept s block.toCBlockHeader pindexPrev with
            | .error e => some (.error e, s)
            | .ok () =>
              match env.addToBlockIndex s new block with
              | none => none
              | some (pindex, s₁) => some (.ok pindex, s₁)

/-- The result of `AcceptBlock`; it has none of its own when it follows a null pointer or does not come to an end. -/
abbrev AcceptResult := Option (Except (Option Rejection) Accepted × ChainState)

/-- `AcceptBlock` once the parent is found, if there has to be one. The block is checked already. -/
def acceptOn (src : BlockSource) (pcoinsTip : CoinsView) (s : ChainState) (new : Ptr) (block : CBlock)
    (pindexPrev : Option Ptr) : Option AcceptResult :=
  let stakeOk : Option Bool := if !block.isProofOfStake then some true
    else
      match pindexPrev with
      | none => some false
      | some prev => env.checkProofOfStake s block prev
  match stakeOk with
  | none => none
  | some false => some (some (.error (some ⟨100, "", false⟩), s))
  | some true =>
    match env.acceptBlockHeader src s new block with
    | none => none
    | some (.error e, s₁) => some (some (.error e, s₁))
    | some (.ok pindex, s₁) =>
      some (acceptBlockData src env.params env.accept pcoinsTip s₁ block pindexPrev true pindex)

def acceptBlock (src : BlockSource) (pcoinsTip : CoinsView) (s : ChainState) (new : Ptr) (block : CBlock) :
    Option AcceptResult :=
  if block.hash = src.hashGenesisBlock then env.acceptOn src pcoinsTip s new block none
  else
    match s.index.find block.hashPrevBlock with
    | none => some (some (.error (some ⟨0, "bad-prevblk", false⟩), s))
    | some pindexPrev =>
      -- the parent is reconsidered or the block is rejected: its transactions are not read
      if (s.status pindexPrev).failed then some (DigiWage.acceptBlock src env.params env.accept pcoinsTip s new block true)
      else env.acceptOn src pcoinsTip s new block (some pindexPrev)

/-- `ProcessNewBlock` for a block from a peer, up to `ActivateBestChain`. -/
def processNewBlock (src : BlockSource) (pcoinsTip : CoinsView) (s : ChainState) (hist : PaymentHistory) (new : Ptr)
    (block : CBlock) (vchBlockSig : List UInt8) : Option (AcceptResult × PaymentHistory) :=
  match env.checkBlock s hist block with
  | none => none
  | some (checked, hist') =>
    match env.checkBlockSignature block vchBlockSig with
    | none => none
    | some false => some (some (.error none, s), hist')
    | some true =>
      if block.hash ≠ src.hashGenesisBlock ∧ s.index.find block.hashPrevBlock = none then
        some (some (.error none, s), hist')
      else
        match checked with
        | .error _ => some (some (.error none, s), hist')
        | .ok () =>
          match env.acceptBlock src pcoinsTip s new block with
          | none => none
          | some r => some (r, hist')

/-! ## What is read past the end -/

/-- The coinstake of a proof-of-stake block, its first input and the output after the marker. -/
structure IsStake (block : CBlock) (tx : CTransaction) (txin : CTxIn) (txout : CTxOut) : Prop where
  proofOfStake : block.isProofOfStake = true
  second : block.vtx[1]? = some tx
  input : tx.vin[0]? = some txin
  output : tx.vout[1]? = some txout

variable {env}

theorem exists_isStake {block : CBlock} (h : block.isProofOfStake = true) :
    ∃ tx txin txout, IsStake block tx txin txout := by
  have hstake := h
  unfold CBlock.isProofOfStake at hstake
  split at hstake
  · rename_i tx₀ tx rest hvtx
    obtain ⟨txin, vin, m, o, vout, hvin, hvout, -⟩ := CTransaction.shape_of_isCoinStake hstake
    exact ⟨tx, txin, o, h, by rw [hvtx]; rfl, by rw [hvin]; rfl, by rw [hvout]; rfl⟩
  · cases hstake

theorem IsStake.length {block : CBlock} {tx : CTransaction} {txin : CTxIn} {txout : CTxOut}
    (h : IsStake block tx txin txout) : 1 < block.vtx.length := (List.getElem?_eq_some_iff.mp h.second).1

end ProcessEnv

/-! ## A block with one transaction -/

/-- A synced node on the regression test network. -/
def regTestProcess : ProcessEnv where
  toCheckEnv := regTestEnv.toCheckEnv
  accept := .lenient
  solve _ := none
  verify _ _ _ := false

namespace ProcessEnv

end ProcessEnv

end DigiWage
