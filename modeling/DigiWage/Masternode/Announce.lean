import DigiWage.Supply.Connect
import DigiWage.Text

/-!
# Masternode announcements

The masternode list of `masternodeman.cpp`: the messages `mnb` and `mnp` with what `masternode.cpp` does for them, the list
that is sent for `dseg`, `UpdateMasternodeList`, `CheckAndRemove`, and saving and reloading.

* `CMasternodeBroadcast` has the fields that are sent; a masternode of the list has the state of the node as well.
* The maps of what was seen are keyed by what is hashed: `GetHash` of a broadcast hashes its `sigTime` and its
  `pubKeyCollateralAddress`.
* A pointer to an entry is its outpoint, which `Find` looks up.
* `MasternodeEnv` is what the code asks of the rest of the node; the bans of peers and the relaying are left out.
-/

namespace DigiWage

/-! ## The data -/

/-- `CPubKey`: the serialized key. -/
abbrev CPubKey := List UInt8

structure CService where
  ip : List UInt8
  port : Nat
deriving DecidableEq, Repr

/-- `CTxIn()`. -/
def CTxIn.null : CTxIn := ⟨⟨0, 2 ^ 32 - 1⟩, ([] : List UInt8), 2 ^ 32 - 1⟩

structure CMasternodePing where
  vin : CTxIn
  blockHash : Uint256
  sigTime : Int
  nMessVersion : Int
  vchSig : List UInt8
deriving DecidableEq, Repr

/-- The ping equals `CMasternodePing()`: `operator==` looks at the input and the block only. -/
def CMasternodePing.isNull (ping : CMasternodePing) : Bool := ping.vin == CTxIn.null && ping.blockHash == 0

/-- What `CMasternodePing::GetHash` hashes. -/
def CMasternodePing.getHash (ping : CMasternodePing) : CTxIn × Option Uint256 × Int :=
  (ping.vin, if ping.nMessVersion = MESS_VER_HASH then some ping.blockHash else none, ping.sigTime)

/-- `CMasternodeBroadcast`, as it is sent. -/
structure CMasternodeBroadcast where
  vin : CTxIn
  addr : CService
  pubKeyCollateralAddress : CPubKey
  pubKeyMasternode : CPubKey
  vchSig : List UInt8
  sigTime : Int
  protocolVersion : Int
  lastPing : CMasternodePing
  nMessVersion : Int
deriving DecidableEq, Repr

/-- The states of a masternode. -/
inductive MasternodeState where
  | preEnabled
  | enabled
  | expired
  | outpointSpent
  | remove
  | watchdogExpired
  | poseBan
  | vinSpent
  | posError
  | missing
deriving DecidableEq, Repr

structure CMasternode extends CMasternodeBroadcast where
  activeState : MasternodeState
  cacheInputAge : Int
  cacheInputAgeBlock : Int
  unitTest : Bool
deriving DecidableEq, Repr

/-- The collateral of a masternode. -/
abbrev CMasternodeBroadcast.collateral (mnb : CMasternodeBroadcast) : COutPoint := mnb.vin.prevout

/-- The masternode that a broadcast announces: `CMasternode(mnb)`. -/
def CMasternode.ofBroadcast (mnb : CMasternodeBroadcast) : CMasternode := ⟨mnb, .enabled, 0, 0, false⟩

def CMasternode.isEnabled (mn : CMasternode) : Bool := mn.activeState == .enabled

/-! ## Signatures -/

/-- `CMessageSigner` and the hashes. A `std::string` is a list of bytes. -/
structure MessageSigner where
  verifyMessage : CPubKey → List UInt8 → List UInt8 → Bool
  /-- `GetSignatureHash().GetHex()` of the version, the address, the time, the two keys and the protocol version. -/
  signatureHash : Int → CService → Int → CPubKey → CPubKey → Int → List UInt8
  /-- `CService::ToString`. -/
  serviceToString : CService → List UInt8
  /-- `CMasternodePing::CheckSignature`. -/
  checkPingSignature : CMasternodePing → CPubKey → Bool

namespace CMasternodeBroadcast

variable (signer : MessageSigner) (mnb : CMasternodeBroadcast)

/-- What `CMasternodeBroadcast::GetHash` hashes. -/
def getHash : Int × CPubKey := (mnb.sigTime, mnb.pubKeyCollateralAddress)

/-- `CMasternode::GetSignatureHash`. -/
def getSignatureHash : List UInt8 :=
  signer.signatureHash mnb.nMessVersion mnb.addr mnb.sigTime mnb.pubKeyCollateralAddress mnb.pubKeyMasternode
    mnb.protocolVersion

def getOldStrMessage : List UInt8 :=
  signer.serviceToString mnb.addr ++ intToString mnb.sigTime ++ mnb.pubKeyCollateralAddress ++ mnb.pubKeyMasternode ++
    intToString mnb.protocolVersion

/-- `CMasternode::GetStrMessage`. -/
def getStrMessage : List UInt8 := mnb.getOldStrMessage signer

def checkSignature : Bool :=
  let strMessage := if mnb.nMessVersion = MESS_VER_HASH then mnb.getSignatureHash signer else mnb.getStrMessage signer
  signer.verifyMessage mnb.pubKeyCollateralAddress mnb.vchSig strMessage ||
    signer.verifyMessage mnb.pubKeyCollateralAddress mnb.vchSig (mnb.getOldStrMessage signer)

end CMasternodeBroadcast

/-! ## The rest of the node -/

def MASTERNODE_MIN_CONFIRMATIONS : Int := 15
def MASTERNODE_MIN_MNP_SECONDS : Int := 10 * 60
def MASTERNODE_MIN_MNB_SECONDS : Int := 5 * 60
def MASTERNODE_EXPIRATION_SECONDS : Int := 120 * 60
def MASTERNODE_REMOVAL_SECONDS : Int := 130 * 60

/-- What the masternode code asks of the rest of the node. -/
structure MasternodeEnv where
  /-- `GetTime()`. -/
  now : Int
  getAdjustedTime : Int
  fLiteMode : Bool
  isBlockchainSynced : Bool
  shutdownRequested : Bool
  /-- The masternode was checked less than `MASTERNODE_CHECK_SECONDS` ago. The vector does not move `lastTimeChecked` with its
  entry, so this is left to the node. -/
  recentlyChecked : COutPoint → Bool
  /-- `TRY_LOCK(cs_main, lockMain)`. -/
  lockMain : Bool
  isMainNet : Bool
  /-- `GetMinMasternodePaymentsProto()`. -/
  minPaymentsProto : Int
  /-- The input and the key of `activeMasternode`, on a masternode. -/
  activeMasternode : Option (COutPoint × CPubKey)
  /-- `GetScriptForDestination` of the id of a key. -/
  getScriptForKey : CPubKey → CScript
  /-- `obfuScationPool.collateralPubKey`. -/
  collateralPubKey : CScript
  tipHeight : Nat
  /-- The coins of the chain and the mempool. -/
  view : CoinsView
  getTransaction : Uint256 → Option CTransaction
  /-- The coins of a transaction are outputs of it. -/
  coins_getTransaction : ∀ h tx n, getTransaction h = some tx → (view.coins h).isAvailable n = true →
    tx.vout[n]? = some ((view.coins h).out n)
  /-- `pool.exists` and `pool.mapNextTx`. -/
  poolExists : Uint256 → Bool
  mapNextTx : COutPoint → Bool
  connect : ConnectEnv
  /-- The hash of a transaction. -/
  hashTx : CMutableTransaction → Uint256
  /-- The number of signature operations and the priority of a transaction are all right. -/
  txPolicy : CTransaction → Bool
  /-- The time of the block in which a transaction got `MASTERNODE_MIN_CONFIRMATIONS`, if its block is known. -/
  confirmedTime : Uint256 → Option Int
  /-- The block is in the active chain, at most 24 blocks below the tip. -/
  isPingBlock : Uint256 → Bool
  isRFC1918 : CService → Bool
  /-- The peer that sent the message may not ask for the whole list yet. -/
  askedTooSoon : Bool

namespace MasternodeEnv

variable (env : MasternodeEnv)

/-- `AcceptableInputs`, without limits on fees and without scripts. -/
def acceptableInputs (tx : CTransaction) : Bool :=
  decide (env.connect.checkTransaction (decide (env.connect.params.heightStartZC ≤ env.tipHeight)) false tx = .pass) &&
    !tx.isCoinBase &&
    !env.poolExists tx.hash &&
    (tx.vin.all fun i => (env.connect.mapLockedInputs i.prevout).all fun h => h == tx.hash) &&
    (tx.hasZerocoinSpendInputs || tx.vin.all fun i => !env.mapNextTx i.prevout) &&
    (env.view.coins tx.hash).vout.isEmpty &&
    (tx.vin.all fun i => !(env.view.coins i.prevout.hash).vout.isEmpty) &&
    env.view.haveInputs tx &&
    env.txPolicy tx &&
    env.connect.checkInputs env.view (env.tipHeight + 1) tx

/-- `11999.99 * COIN`. -/
def collateralValue : Int := 1199999000000

/-- The transaction that `CheckInputsAndAdd` and `Check` make to look whether the collateral can be spent. -/
def collateralTx (vin : CTxIn) : CTransaction :=
  let tx : CMutableTransaction := ⟨1, [vin], [⟨collateralValue, env.collateralPubKey, -10⟩], 0⟩
  ⟨env.hashTx tx, tx.nVersion, tx.vin, tx.vout, tx.nLockTime⟩

def getInputAge (vin : CTxIn) : Int :=
  let coins := env.view.coins vin.prevout.hash
  if coins.vout.isEmpty then -1
  else if coins.nHeight.toInt < 0 then 0
  else env.tipHeight + 1 - coins.nHeight.toInt

/-- `CMasternode::IsInputAssociatedWithPubkey`. -/
def isInputAssociatedWithPubkey (mnb : CMasternodeBroadcast) : Bool :=
  match env.getTransaction mnb.vin.prevout.hash with
  | none => false
  | some txVin => txVin.vout.any fun out =>
    out.nValue == 12000 * COIN && out.scriptPubKey == env.getScriptForKey mnb.pubKeyCollateralAddress

/-- The broadcast is that of the node itself. -/
def isOwn (mnb : CMasternodeBroadcast) : Bool :=
  env.activeMasternode == some (mnb.vin.prevout, mnb.pubKeyMasternode)

/-- `ProcessMessage` goes on to the commands. -/
def listens : Bool := !env.fLiteMode && env.isBlockchainSynced

end MasternodeEnv

namespace CMasternode

variable (env : MasternodeEnv) (mn : CMasternode)

/-- `IsPingedWithin`; the time -1 stands for `GetAdjustedTime()`. -/
def isPingedWithin (seconds now : Int) : Bool :=
  let now := if now = -1 then env.getAdjustedTime else now
  if mn.lastPing.isNull then false else decide (now - mn.lastPing.sigTime < seconds)

def isBroadcastedWithin (seconds : Int) : Bool := decide (env.getAdjustedTime - mn.sigTime < seconds)

/-- The state that `CMasternode::Check` finds. -/
def checkedState : MasternodeState :=
  if mn.activeState = .vinSpent then mn.activeState
  else if !mn.isPingedWithin env MASTERNODE_REMOVAL_SECONDS (-1) then .remove
  else if !mn.isPingedWithin env MASTERNODE_EXPIRATION_SECONDS (-1) then .expired
  else if mn.lastPing.sigTime - mn.sigTime < MASTERNODE_MIN_MNP_SECONDS then .preEnabled
  else if mn.unitTest then .enabled
  else if !env.lockMain then mn.activeState
  else if !env.acceptableInputs (env.collateralTx mn.vin) then .vinSpent
  else .enabled

def check (forceCheck : Bool) : CMasternode :=
  if env.shutdownRequested then mn
  else if !forceCheck && env.recentlyChecked mn.collateral then mn
  else { mn with activeState := mn.checkedState env }

end CMasternode

/-! ## The list -/

structure CMasternodeMan where
  vMasternodes : List CMasternode
  mapSeenMasternodeBroadcast : Int × CPubKey → Option CMasternodeBroadcast
  mapSeenMasternodePing : CTxIn × Option Uint256 × Int → Option CMasternodePing

/-- Changes the first entry with the collateral. -/
def modifyEntry (o : COutPoint) (f : CMasternode → CMasternode) : List CMasternode → List CMasternode
  | [] => []
  | mn :: mns => if mn.collateral = o then f mn :: mns else mn :: modifyEntry o f mns

namespace CMasternodeMan

def empty : CMasternodeMan := ⟨[], fun _ => none, fun _ => none⟩

variable (signer : MessageSigner) (env : MasternodeEnv) (man : CMasternodeMan)

def find (vin : CTxIn) : Option CMasternode := man.vMasternodes.find? fun mn => decide (mn.collateral = vin.prevout)

def modify (o : COutPoint) (f : CMasternode → CMasternode) : CMasternodeMan :=
  { man with vMasternodes := modifyEntry o f man.vMasternodes }

def add (mn : CMasternode) : CMasternodeMan :=
  if !mn.isEnabled then man
  else if (man.find mn.vin).isSome then man
  else { man with vMasternodes := man.vMasternodes ++ [mn] }

def remove (vin : CTxIn) : CMasternodeMan :=
  { man with vMasternodes := man.vMasternodes.eraseP fun mn => decide (mn.vin = vin) }

/-- `mapSeenMasternodeBroadcast.erase(GetHash())`. -/
def forget (mnb : CMasternodeBroadcast) : CMasternodeMan :=
  { man with mapSeenMasternodeBroadcast := Function.update man.mapSeenMasternodeBroadcast mnb.getHash none }

/-- `mapSeenMasternodeBroadcast.insert`. -/
def insertSeen (man : CMasternodeMan) (mnb : CMasternodeBroadcast) : CMasternodeMan :=
  { man with
    mapSeenMasternodeBroadcast := Function.update man.mapSeenMasternodeBroadcast mnb.getHash
      ((man.mapSeenMasternodeBroadcast mnb.getHash).or (some mnb)) }

/-! ### Pings -/

/-- The ping is at most an hour from now. -/
def pingInTime (ping : CMasternodePing) : Bool :=
  !decide (env.getAdjustedTime + 60 * 60 < ping.sigTime) && !decide (ping.sigTime ≤ env.getAdjustedTime - 60 * 60)

/-- `CMasternodePing::CheckAndUpdate` with `fCheckSigTimeOnly`. -/
def checkPingTime (ping : CMasternodePing) : Bool :=
  pingInTime env ping && (man.find ping.vin).all fun pmn => signer.checkPingSignature ping pmn.pubKeyMasternode

/-- `CMasternodePing::CheckAndUpdate` when the ping is taken. -/
def takePing (ping : CMasternodePing) (pmn : CMasternode) : Bool × CMasternodeMan :=
  let hash := pmn.getHash
  let pmn' := { pmn with lastPing := ping }.check env true
  (pmn'.isEnabled,
    { man.modify pmn.collateral fun _ => pmn' with
      mapSeenMasternodeBroadcast := fun k =>
        if k = hash then (man.mapSeenMasternodeBroadcast k).map fun mnb => { mnb with lastPing := ping }
        else man.mapSeenMasternodeBroadcast k })

/-- `CMasternodePing::CheckAndUpdate`. -/
def checkAndUpdatePing (ping : CMasternodePing) (fRequireEnabled : Bool) : Bool × CMasternodeMan :=
  if !pingInTime env ping then (false, man)
  else
    match man.find ping.vin with
    | none => (false, man)
    | some pmn =>
      if pmn.protocolVersion < env.minPaymentsProto then (false, man)
      else if fRequireEnabled && !pmn.isEnabled then (false, man)
      else if pmn.isPingedWithin env (MASTERNODE_MIN_MNP_SECONDS - 60) ping.sigTime then (false, man)
      else if !signer.checkPingSignature ping pmn.pubKeyMasternode then (false, man)
      else if !env.isPingBlock ping.blockHash then (false, man)
      else man.takePing env ping pmn

/-- The ping is put into `mapSeenMasternodePing`. -/
def seePing (ping : CMasternodePing) : CMasternodeMan :=
  { man with mapSeenMasternodePing := Function.update man.mapSeenMasternodePing ping.getHash (some ping) }

/-- The message `mnp`. -/
def mnp (ping : CMasternodePing) : CMasternodeMan :=
  if !env.listens then man
  else if (man.mapSeenMasternodePing ping.getHash).isSome then man
  else ((man.seePing ping).checkAndUpdatePing signer env ping true).2

/-! ### Broadcasts -/

/-- The fields that `UpdateFromNewBroadcast` takes over. -/
def takeBroadcast (mnb : CMasternodeBroadcast) (mn : CMasternode) : CMasternode :=
  { mn with
    pubKeyMasternode := mnb.pubKeyMasternode
    pubKeyCollateralAddress := mnb.pubKeyCollateralAddress
    sigTime := mnb.sigTime
    vchSig := mnb.vchSig
    protocolVersion := mnb.protocolVersion
    addr := mnb.addr }

/-- The entry with the collateral takes the ping of the broadcast over. -/
def takeLastPing (o : COutPoint) (ping : CMasternodePing) : CMasternodeMan :=
  { man.modify o fun mn => { mn with lastPing := ping } with
    mapSeenMasternodePing := Function.update man.mapSeenMasternodePing ping.getHash
      ((man.mapSeenMasternodePing ping.getHash).or (some ping)) }

/-- `UpdateFromNewBroadcast` for an entry of the list. -/
def updateFromNewBroadcast (mnb : CMasternodeBroadcast) (pmn : CMasternode) : Bool × CMasternodeMan :=
  if mnb.sigTime ≤ pmn.sigTime then (false, man)
  else
    let man₁ := man.modify pmn.collateral (takeBroadcast mnb)
    if mnb.lastPing.isNull then (true, man₁.takeLastPing pmn.collateral mnb.lastPing)
    else
      let r := man₁.checkAndUpdatePing signer env mnb.lastPing false
      (true, if r.1 then r.2.takeLastPing pmn.collateral mnb.lastPing else r.2)

/-- The checks of `CMasternodeBroadcast::CheckAndUpdate` before it looks for the masternode. -/
def isValidBroadcast (mnb : CMasternodeBroadcast) : Bool :=
  !decide (env.getAdjustedTime + 60 * 60 < mnb.sigTime) &&
    (!mnb.lastPing.isNull && man.checkPingTime signer env mnb.lastPing) &&
    !decide (mnb.protocolVersion < env.minPaymentsProto) &&
    (env.getScriptForKey mnb.pubKeyCollateralAddress).bytes.length == 25 &&
    (env.getScriptForKey mnb.pubKeyMasternode).bytes.length == 25 &&
    mnb.vin.scriptSig.empty &&
    mnb.checkSignature signer &&
    (if env.isMainNet then mnb.addr.port == 46003 else mnb.addr.port != 46003)

/-- `CMasternodeBroadcast::CheckAndUpdate`. -/
def checkAndUpdate (mnb : CMasternodeBroadcast) : Bool × CMasternodeMan :=
  if !man.isValidBroadcast signer env mnb then (false, man)
  else
    match man.find mnb.vin with
    | none => (true, man)
    | some pmn =>
      if mnb.sigTime ≤ pmn.sigTime then (false, man)
      else if !pmn.isEnabled then (true, man)
      else if pmn.pubKeyCollateralAddress = mnb.pubKeyCollateralAddress ∧
          ¬ pmn.isBroadcastedWithin env MASTERNODE_MIN_MNB_SECONDS then
        (true, (man.updateFromNewBroadcast signer env mnb pmn).2.modify pmn.collateral fun mn => mn.check env false)
      else (true, man)

/-- `CheckInputsAndAdd` from the check of the inputs on. -/
def addChecked (mnb : CMasternodeBroadcast) : Bool × CMasternodeMan :=
  if !env.lockMain then (false, man.forget mnb)
  else if !env.acceptableInputs (env.collateralTx mnb.vin) then (false, man)
  else if env.getInputAge mnb.vin < MASTERNODE_MIN_CONFIRMATIONS then (false, man.forget mnb)
  else if (env.confirmedTime mnb.vin.prevout.hash).any fun t => decide (mnb.sigTime < t) then (false, man)
  else (true, man.add (.ofBroadcast mnb))

/-- `CMasternodeBroadcast::CheckInputsAndAdd`. -/
def checkInputsAndAdd (mnb : CMasternodeBroadcast) : Bool × CMasternodeMan :=
  if env.isOwn mnb then (true, man)
  else if mnb.lastPing.isNull || !man.checkPingTime signer env mnb.lastPing then (false, man)
  else
    match man.find mnb.vin with
    | none => man.addChecked env mnb
    | some pmn => if pmn.isEnabled then (true, man) else (man.remove pmn.vin).addChecked env mnb

/-- The broadcast is put into `mapSeenMasternodeBroadcast`. -/
def see (mnb : CMasternodeBroadcast) : CMasternodeMan :=
  { man with mapSeenMasternodeBroadcast := Function.update man.mapSeenMasternodeBroadcast mnb.getHash (some mnb) }

/-- The message `mnb`. -/
def mnb (mnb : CMasternodeBroadcast) : CMasternodeMan :=
  if !env.listens then man
  else if (man.mapSeenMasternodeBroadcast mnb.getHash).isSome then man
  else
    let r := (man.see mnb).checkAndUpdate signer env mnb
    if !r.1 then r.2
    else if !env.isInputAssociatedWithPubkey mnb then r.2
    else (r.2.checkInputsAndAdd signer env mnb).2

def updateMasternodeList (mnb : CMasternodeBroadcast) : CMasternodeMan :=
  let man₁ : CMasternodeMan := { insertSeen man mnb with
    mapSeenMasternodePing := Function.update man.mapSeenMasternodePing mnb.lastPing.getHash
      ((man.mapSeenMasternodePing mnb.lastPing.getHash).or (some mnb.lastPing)) }
  match man₁.find mnb.vin with
  | none => man₁.add (.ofBroadcast mnb)
  | some pmn => (man₁.updateFromNewBroadcast signer env mnb pmn).2

/-! ### The list that is sent -/

/-- The loop of `dseg`: the broadcasts that are offered to the peer. -/
def offers (vin : CTxIn) : List CMasternode → List CMasternodeBroadcast
  | [] => []
  | mn :: mns =>
    if env.isRFC1918 mn.addr || !mn.isEnabled || !(vin == CTxIn.null || vin == mn.vin) then offers vin mns
    else if vin = mn.vin then [mn.toCMasternodeBroadcast]
    else mn.toCMasternodeBroadcast :: offers vin mns

/-- The message `dseg`: what is offered, which the peer then asks for by its hash. -/
def dseg (vin : CTxIn) : List CMasternodeBroadcast × CMasternodeMan :=
  if !env.listens then ([], man)
  else if vin == CTxIn.null && env.askedTooSoon then ([], man)
  else
    let offered := offers env vin man.vMasternodes
    (offered, offered.foldl insertSeen man)

/-! ### Removing, saving and reloading -/

/-- `CheckAndRemove` drops the masternode. -/
def isInactive (forceExpiredRemoval : Bool) (mn : CMasternode) : Bool :=
  mn.activeState == .remove || mn.activeState == .vinSpent || (forceExpiredRemoval && mn.activeState == .expired) ||
    decide (mn.protocolVersion < env.minPaymentsProto)

def checkAndRemove (forceExpiredRemoval : Bool) : CMasternodeMan :=
  let checked := man.vMasternodes.map fun mn => mn.check env false
  let removed := checked.filter (isInactive env forceExpiredRemoval)
  { vMasternodes := checked.filter fun mn => !isInactive env forceExpiredRemoval mn
    mapSeenMasternodeBroadcast := fun k => (man.mapSeenMasternodeBroadcast k).filter fun mnb =>
      !(removed.any fun mn => mnb.vin == mn.vin) && !decide (mnb.lastPing.sigTime < env.now - MASTERNODE_REMOVAL_SECONDS * 2)
    mapSeenMasternodePing := fun k => (man.mapSeenMasternodePing k).filter fun ping =>
      !decide (ping.sigTime < env.now - MASTERNODE_REMOVAL_SECONDS * 2) }

/-- An entry that was saved and read: `CMasternode::SerializationOp` leaves out `nMessVersion`, which has the value of
`CSignedMessage()`. -/
def reloadEntry (mn : CMasternode) : CMasternode := { mn with nMessVersion := MESS_VER_HASH }

/-- The list is saved, read by `CMasternodeDB::Read`, and cleaned. -/
def reload : CMasternodeMan :=
  { man with vMasternodes := man.vMasternodes.map reloadEntry }.checkAndRemove env true

end CMasternodeMan

/-! ## Runs -/

/-- What happens to the list, each with the state of the rest of the node. -/
inductive MasternodeOp where
  | mnb (env : MasternodeEnv) (mnb : CMasternodeBroadcast)
  | mnp (env : MasternodeEnv) (ping : CMasternodePing)
  | dseg (env : MasternodeEnv) (vin : CTxIn)
  | updateMasternodeList (env : MasternodeEnv) (mnb : CMasternodeBroadcast)
  | checkAndRemove (env : MasternodeEnv) (forceExpiredRemoval : Bool)
  | reload (env : MasternodeEnv)

namespace CMasternodeMan

variable (signer : MessageSigner) (man : CMasternodeMan)

def step : MasternodeOp → CMasternodeMan
  | .mnb env mnb => man.mnb signer env mnb
  | .mnp env ping => man.mnp signer env ping
  | .dseg env vin => (man.dseg env vin).2
  | .updateMasternodeList env mnb => man.updateMasternodeList signer env mnb
  | .checkAndRemove env forceExpiredRemoval => man.checkAndRemove env forceExpiredRemoval
  | .reload env => man.reload env

def run (ops : List MasternodeOp) : CMasternodeMan := ops.foldl (step signer) man

end CMasternodeMan

end DigiWage
