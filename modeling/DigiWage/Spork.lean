import DigiWage.Lib.LastWriter
import DigiWage.Lib.Run
import DigiWage.Primitives
import Mathlib.Data.Int.Order.Basic

/-!
# Sporks

`CSporkManager` of `spork.cpp`: a node that signs sporks with `UpdateSpork`, and nodes that receive them with
`ProcessSpork`. Both write the spork to the database, from which a node that starts again reads it.

* A receiving node keeps the spork with the latest `nTimeSigned`. The signing node overwrites the spork that it has, also
  when the clock stands still or goes back.
* `mapSporks` is only used to answer peers.
-/

namespace DigiWage

open Lib

structure CSporkDef where
  sporkId : Int
  name : String
deriving DecidableEq, Repr

def sporkDefs : List CSporkDef :=
  [⟨10001, "SPORK_2_SWIFTTX"⟩, ⟨10002, "SPORK_3_SWIFTTX_BLOCK_FILTERING"⟩, ⟨10004, "SPORK_5_MAX_VALUE"⟩,
    ⟨10007, "SPORK_8_MASTERNODE_PAYMENT_ENFORCEMENT"⟩, ⟨10008, "SPORK_9_MASTERNODE_BUDGET_ENFORCEMENT"⟩,
    ⟨10012, "SPORK_13_ENABLE_SUPERBLOCKS"⟩, ⟨10013, "SPORK_14_NEW_PROTOCOL_ENFORCEMENT"⟩,
    ⟨10014, "SPORK_15_NEW_PROTOCOL_ENFORCEMENT_2"⟩, ⟨10017, "SPORK_17_COLDSTAKING_ENFORCEMENT"⟩,
    ⟨10019, "SPORK_19_PRICE_USD"⟩]

/-- The node knows the spork: `GetSporkNameByID` is not `"Unknown"`. -/
def knownSpork (nSporkID : Int) : Bool := sporkDefs.any fun d => d.sporkId == nSporkID

/-- `CSporkManager::GetSporkIDByName`; `none` for `SPORK_INVALID`. -/
def getSporkIDByName (strName : String) : Option Int := (sporkDefs.find? fun d => d.name == strName).map CSporkDef.sporkId

structure CSporkMessage where
  nSporkID : Int
  nValue : Int
  nTimeSigned : Int
  nMessVersion : Int
  vchSig : List UInt8
deriving DecidableEq, Repr

/-- What a node asks while it treats a spork. -/
structure SporkEnv where
  /-- `GetTime()`. -/
  now : Int
  getAdjustedTime : Int
  fLiteMode : Bool
  /-- The height of the tip, if there is one. -/
  tipHeight : Option Int
  isMessSigV2 : Int → Bool
  checkSignature : CSporkMessage → Bool
  /-- `nMessVersion` and `vchSig` after `Sign`, if it does not fail. -/
  sign : Int → Int → Int → Option (Int × List UInt8)

/-- The checks of `ProcessSpork` before it looks at the active spork. -/
def SporkEnv.admits (env : SporkEnv) (spork : CSporkMessage) : Bool :=
  if env.fLiteMode then false
  else
    match env.tipHeight with
    | none => false
    | some nChainHeight =>
      if !knownSpork spork.nSporkID then false
      else if env.getAdjustedTime + 2 * 60 * 60 < spork.nTimeSigned then false
      else if spork.nMessVersion ≠ MESS_VER_HASH ∧ env.isMessSigV2 (nChainHeight - 600) then false
      else true

/-- The message that `UpdateSpork` signs. -/
def SporkEnv.signSpork (env : SporkEnv) (nSporkID nValue : Int) : Option CSporkMessage :=
  (env.sign nSporkID nValue env.now).map fun sig => ⟨nSporkID, nValue, env.now, sig.1, sig.2⟩

/-- `CSporkManager` and the database. -/
structure SporkNode where
  mapSporksActive : Int → Option CSporkMessage
  sporkDB : Int → Option CSporkMessage

namespace SporkNode

def empty : SporkNode := ⟨fun _ => none, fun _ => none⟩

variable (node : SporkNode)

/-- The spork becomes active and is written to the database. -/
def setSpork (spork : CSporkMessage) : SporkNode :=
  ⟨Function.update node.mapSporksActive spork.nSporkID (some spork),
    Function.update node.sporkDB spork.nSporkID (some spork)⟩

/-- The active spork was signed before the spork. -/
def isNewer (spork : CSporkMessage) : Bool :=
  match node.mapSporksActive spork.nSporkID with
  | none => true
  | some active => decide (active.nTimeSigned < spork.nTimeSigned)

/-- The message `spork` of `CSporkManager::ProcessSpork`. -/
def processSpork (env : SporkEnv) (spork : CSporkMessage) : SporkNode :=
  if !env.admits spork then node
  else if !node.isNewer spork then node
  else if !env.checkSignature spork then node
  else node.setSpork spork

/-- `CSporkManager::UpdateSpork`. -/
def updateSpork (env : SporkEnv) (nSporkID nValue : Int) : SporkNode :=
  match env.signSpork nSporkID nValue with
  | none => node
  | some spork => node.setSpork spork

/-- The loop of `CSporkManager::LoadSporksFromDB`. -/
def loadLoop (sporkDB : Int → Option CSporkMessage) : List CSporkDef → (Int → Option CSporkMessage) →
    Int → Option CSporkMessage
  | [], active => active
  | d :: defs, active =>
    match sporkDB d.sporkId with
    | none => loadLoop sporkDB defs active
    | some spork => loadLoop sporkDB defs (Function.update active spork.nSporkID (some spork))

/-- `CSporkManager::LoadSporksFromDB` when the node starts again. -/
def loadSporksFromDB : SporkNode := { node with mapSporksActive := loadLoop node.sporkDB sporkDefs fun _ => none }

end SporkNode

/-! ## The network -/

/-- The nodes, and the messages that were signed so far. -/
structure SporkNet (ι : Type) where
  nodes : ι → SporkNode
  signed : List CSporkMessage

/-- The signing node gets the command `spork`, a message is delivered, or a node starts again. -/
inductive SporkOp (ι : Type) where
  | spork (env : SporkEnv) (strName : String) (nValue : Int)
  | deliver (env : SporkEnv) (i : ι) (message : CSporkMessage)
  | restart (i : ι)

namespace SporkNet

variable {ι : Type} [DecidableEq ι]

def empty : SporkNet ι := ⟨fun _ => .empty, []⟩

/-- The message that the command `spork` signs. -/
def signs (env : SporkEnv) (strName : String) (nValue : Int) : Option CSporkMessage :=
  (getSporkIDByName strName).bind fun nSporkID => env.signSpork nSporkID nValue

/-- Only messages that were signed are delivered. -/
def step (signer : ι) (net : SporkNet ι) : SporkOp ι → Option (SporkNet ι)
  | .spork env strName nValue =>
    match getSporkIDByName strName with
    | none => some net
    | some nSporkID =>
      some ⟨Function.update net.nodes signer ((net.nodes signer).updateSpork env nSporkID nValue),
        net.signed ++ (env.signSpork nSporkID nValue).toList⟩
  | .deliver env i message =>
    if message ∈ net.signed then
      some { net with nodes := Function.update net.nodes i ((net.nodes i).processSpork env message) }
    else none
  | .restart i => some { net with nodes := Function.update net.nodes i (net.nodes i).loadSporksFromDB }

/-- The message that an operation brings to a node. -/
def receives (signer i : ι) : SporkOp ι → Option CSporkMessage
  | .spork env strName nValue => if i = signer then signs env strName nValue else none
  | .deliver env j message => if i = j ∧ (env.admits message && env.checkSignature message) = true then some message else none
  | .restart _ => none

/-- The messages that a node received. -/
def received (signer i : ι) (ops : List (SporkOp ι)) : List CSporkMessage := ops.filterMap (receives signer i)

end SporkNet

/-! ## One node -/

namespace SporkNode

variable {node : SporkNode} {env : SporkEnv} {spork : CSporkMessage} {ms : List CSporkMessage}

theorem processSpork_of_accepted (node : SporkNode) (hok : (env.admits spork && env.checkSignature spork) = true) :
    node.processSpork env spork = node ∧ node.isNewer spork = false ∨
      node.processSpork env spork = node.setSpork spork ∧ node.isNewer spork = true := by
  rw [Bool.and_eq_true] at hok
  unfold processSpork
  rw [hok.1, hok.2]
  cases hnewer : node.isNewer spork with
  | false => exact .inl ⟨rfl, rfl⟩
  | true => exact .inr ⟨rfl, rfl⟩

theorem processSpork_of_refused (hno : ¬ (env.admits spork && env.checkSignature spork) = true) :
    node.processSpork env spork = node := by
  unfold processSpork
  split
  · rfl
  · rename_i hadmits
    split
    · rfl
    · split
      · rfl
      · rename_i hsig
        refine absurd ?_ hno
        rw [Bool.not_eq_true, Bool.not_eq_eq_eq_not, Bool.not_false] at hadmits hsig
        rw [hadmits, hsig]
        rfl

theorem mapSporksActive_processSpork (hok : (env.admits spork && env.checkSignature spork) = true) :
    (node.processSpork env spork).mapSporksActive =
      receive CSporkMessage.nSporkID CSporkMessage.nTimeSigned node.mapSporksActive spork := by
  unfold receive
  cases hactive : node.mapSporksActive spork.nSporkID with
  | none =>
    rcases processSpork_of_accepted node hok with ⟨-, hnewer⟩ | ⟨heq, -⟩
    · unfold isNewer at hnewer
      rw [hactive] at hnewer
      cases hnewer
    · rw [heq]
      rfl
  | some active =>
    rcases processSpork_of_accepted node hok with ⟨heq, hnewer⟩ | ⟨heq, hnewer⟩
    · unfold isNewer at hnewer
      rw [hactive] at hnewer
      rw [heq]
      exact (if_neg (of_decide_eq_false hnewer)).symm
    · unfold isNewer at hnewer
      rw [hactive] at hnewer
      rw [heq]
      exact (if_pos (of_decide_eq_true hnewer)).symm

/-- The database has what is active, and nothing else. -/
structure Saved (node : SporkNode) : Prop where
  same : node.sporkDB = node.mapSporksActive
  keyed : ∀ id m, node.mapSporksActive id = some m → m.nSporkID = id
  known : ∀ id m, node.mapSporksActive id = some m → knownSpork id = true

theorem saved_empty : Saved empty := ⟨rfl, fun _ _ h => (nomatch h), fun _ _ h => (nomatch h)⟩

theorem Saved.setSpork (h : node.Saved) (hknown : knownSpork spork.nSporkID = true) : (node.setSpork spork).Saved := by
  constructor
  · unfold SporkNode.setSpork
    rw [h.same]
  · intro id m hm
    change Function.update _ _ _ _ = _ at hm
    by_cases hid : id = spork.nSporkID
    · subst hid
      rw [Function.update_self] at hm
      cases hm
      rfl
    · rw [Function.update_of_ne hid] at hm
      exact h.keyed id m hm
  · intro id m hm
    change Function.update _ _ _ _ = _ at hm
    by_cases hid : id = spork.nSporkID
    · rw [hid]
      exact hknown
    · rw [Function.update_of_ne hid] at hm
      exact h.known id m hm

theorem loadLoop_eq {db : Int → Option CSporkMessage} (hkeyed : ∀ id m, db id = some m → m.nSporkID = id) :
    ∀ (defs : List CSporkDef) (active : Int → Option CSporkMessage) (id : Int),
      loadLoop db defs active id = if (defs.any fun d => d.sporkId == id) = true then (db id).or (active id) else active id
  | [], active, id => by simp [loadLoop]
  | d :: defs, active, id => by
    unfold loadLoop
    cases hd : db d.sporkId with
    | none =>
      dsimp only
      rw [loadLoop_eq hkeyed defs active id, List.any_cons]
      by_cases hid : d.sporkId = id
      · subst hid
        simp [hd]
      · simp [hid]
    | some m =>
      dsimp only
      rw [loadLoop_eq hkeyed defs _ id, List.any_cons, hkeyed _ m hd]
      by_cases hid : d.sporkId = id
      · subst hid
        simp [hd]
      · rw [Function.update_of_ne (Ne.symm hid)]
        simp [hid]

theorem Saved.loadSporksFromDB (h : node.Saved) : node.loadSporksFromDB = node := by
  have hkeyed : ∀ id m, node.sporkDB id = some m → m.nSporkID = id := by
    rw [h.same]
    exact h.keyed
  have hactive : loadLoop node.sporkDB sporkDefs (fun _ => none) = node.mapSporksActive := by
    funext id
    rw [loadLoop_eq hkeyed, h.same, Option.or_none]
    cases hm : node.mapSporksActive id with
    | none => exact ite_self _
    | some m => exact if_pos (h.known id m hm)
  unfold SporkNode.loadSporksFromDB
  rw [hactive]

end SporkNode

/-! ## Runs -/

namespace SporkNet

variable {ι : Type} [DecidableEq ι] {signer : ι} {net net' : SporkNet ι} {pre : List (SporkOp ι)} {op : SporkOp ι}
  {m : CSporkMessage}

/-- The clock of the signing node goes on: the spork that it signs is later than the one that it has, or the same one. -/
def ClockGoesOn (signer : ι) (net : SporkNet ι) : SporkOp ι → Prop
  | .spork env strName nValue => ∀ m, signs env strName nValue = some m →
    NotOlder CSporkMessage.nSporkID CSporkMessage.nTimeSigned (net.nodes signer).mapSporksActive m
  | _ => True

/-- Each node has the latest of the sporks that it received, and the signing node has received all. -/
structure Consistent (signer : ι) (pre : List (SporkOp ι)) (net : SporkNet ι) : Prop where
  latest : ∀ i, Latest CSporkMessage.nSporkID CSporkMessage.nTimeSigned (net.nodes i).mapSporksActive
    (received signer i pre)
  saved : ∀ i, (net.nodes i).Saved
  signed_of_received : ∀ i, ∀ m ∈ received signer i pre, m ∈ net.signed
  received_of_signed : ∀ m ∈ net.signed, m ∈ received signer signer pre
  unique : ∀ m ∈ net.signed, ∀ m' ∈ net.signed, m.nSporkID = m'.nSporkID → m.nTimeSigned = m'.nTimeSigned → m = m'

theorem received_concat (signer i : ι) (pre : List (SporkOp ι)) (op : SporkOp ι) :
    received signer i (pre ++ [op]) = received signer i pre ++ (receives signer i op).toList := by
  unfold received
  rw [List.filterMap_append]
  cases h : receives signer i op <;> simp [h]

theorem consistent_empty : Consistent signer [] (empty : SporkNet ι) := by
  constructor
  · refine fun i => ⟨fun k m hm => ?_, fun m hm => ?_⟩
    · cases hm
    · cases hm
  · exact fun i => SporkNode.saved_empty
  · intro i m hm
    cases hm
  · intro m hm
    cases hm
  · intro m hm
    cases hm

theorem Consistent.idle (h : Consistent signer pre net) (hop : ∀ i, receives signer i op = none) :
    Consistent signer (pre ++ [op]) net := by
  have heq : ∀ i, received signer i (pre ++ [op]) = received signer i pre := fun i => by
    rw [received_concat, hop i, Option.toList_none, List.append_nil]
  constructor
  · intro i
    rw [heq]
    exact h.latest i
  · exact h.saved
  · intro i
    rw [heq]
    exact h.signed_of_received i
  · rw [heq]
    exact h.received_of_signed
  · exact h.unique

theorem Consistent.sign (h : Consistent signer pre net) (hself : receives signer signer op = some m)
    (hothers : ∀ i, i ≠ signer → receives signer i op = none) (hknown : knownSpork m.nSporkID = true)
    (hnew : NotOlder CSporkMessage.nSporkID CSporkMessage.nTimeSigned (net.nodes signer).mapSporksActive m) :
    Consistent signer (pre ++ [op])
      ⟨Function.update net.nodes signer ((net.nodes signer).setSpork m), net.signed ++ [m]⟩ := by
  have hrself : received signer signer (pre ++ [op]) = received signer signer pre ++ [m] := by
    rw [received_concat, hself, Option.toList_some]
  have hrothers : ∀ i, i ≠ signer → received signer i (pre ++ [op]) = received signer i pre := fun i hi => by
    rw [received_concat, hothers i hi, Option.toList_none, List.append_nil]
  constructor
  · intro i
    dsimp only
    by_cases hi : i = signer
    · rw [hi, hrself, Function.update_self]
      exact (h.latest signer).write hnew
    · rw [hrothers i hi, Function.update_of_ne hi]
      exact h.latest i
  · intro i
    dsimp only
    by_cases hi : i = signer
    · rw [hi, Function.update_self]
      exact (h.saved signer).setSpork hknown
    · rw [Function.update_of_ne hi]
      exact h.saved i
  · intro i a ha
    by_cases hi : i = signer
    · rw [hi, hrself] at ha
      rcases List.mem_append.mp ha with ha | ha
      · exact List.mem_append_left _ (h.signed_of_received signer a ha)
      · exact List.mem_append_right _ ha
    · rw [hrothers i hi] at ha
      exact List.mem_append_left _ (h.signed_of_received i a ha)
  · intro a ha
    rw [hrself]
    rcases List.mem_append.mp ha with ha | ha
    · exact List.mem_append_left _ (h.received_of_signed a ha)
    · exact List.mem_append_right _ ha
  · -- A message with the id and the time of the new one is the new one.
    have hm : ∀ a ∈ net.signed, a.nSporkID = m.nSporkID → a.nTimeSigned = m.nTimeSigned → a = m := by
      intro a ha hid htime
      obtain ⟨b, hb, hle⟩ := (h.latest signer).le a (h.received_of_signed a ha)
      rw [hid] at hb
      rcases hnew b hb with hlt | rfl
      · exact absurd (htime ▸ hle) (not_le.mpr hlt)
      · exact h.unique a ha b (h.signed_of_received signer b ((h.latest signer).mem _ b hb).1) hid htime
    intro a ha a' ha' hid htime
    rcases List.mem_append.mp ha with ha | ha
    · rcases List.mem_append.mp ha' with ha' | ha'
      · exact h.unique a ha a' ha' hid htime
      · rw [List.mem_singleton.mp ha'] at hid htime ⊢
        exact hm a ha hid htime
    · rcases List.mem_append.mp ha' with ha' | ha'
      · rw [List.mem_singleton.mp ha] at hid htime ⊢
        exact (hm a' ha' hid.symm htime.symm).symm
      · rw [List.mem_singleton.mp ha, List.mem_singleton.mp ha']

theorem Consistent.deliver (h : Consistent signer pre net) {env : SporkEnv} {i : ι} (hm : m ∈ net.signed)
    (hok : (env.admits m && env.checkSignature m) = true) (hknown : knownSpork m.nSporkID = true) :
    Consistent signer (pre ++ [.deliver env i m])
      { net with nodes := Function.update net.nodes i ((net.nodes i).processSpork env m) } := by
  have hrself : received signer i (pre ++ [.deliver env i m]) = received signer i pre ++ [m] := by
    rw [received_concat, receives, if_pos ⟨rfl, hok⟩, Option.toList_some]
  have hrothers : ∀ j, j ≠ i → received signer j (pre ++ [.deliver env i m]) = received signer j pre := fun j hj => by
    rw [received_concat, receives, if_neg (fun hboth => hj hboth.1), Option.toList_none, List.append_nil]
  constructor
  · intro j
    dsimp only
    by_cases hj : j = i
    · rw [hj, hrself, Function.update_self, SporkNode.mapSporksActive_processSpork hok]
      exact (h.latest i).receive m
    · rw [hrothers j hj, Function.update_of_ne hj]
      exact h.latest j
  · intro j
    dsimp only
    by_cases hj : j = i
    · rw [hj, Function.update_self]
      rcases SporkNode.processSpork_of_accepted (net.nodes i) hok with ⟨heq, -⟩ | ⟨heq, -⟩
      · rw [heq]
        exact h.saved i
      · rw [heq]
        exact (h.saved i).setSpork hknown
    · rw [Function.update_of_ne hj]
      exact h.saved j
  · intro j a ha
    by_cases hj : j = i
    · rw [hj, hrself] at ha
      rcases List.mem_append.mp ha with ha | ha
      · exact h.signed_of_received i a ha
      · rw [List.mem_singleton.mp ha]
        exact hm
    · rw [hrothers j hj] at ha
      exact h.signed_of_received j a ha
  · intro a ha
    rw [received_concat]
    exact List.mem_append_left _ (h.received_of_signed a ha)
  · exact h.unique

theorem knownSpork_of_getSporkIDByName {strName : String} {nSporkID : Int}
    (h : getSporkIDByName strName = some nSporkID) : knownSpork nSporkID = true := by
  unfold getSporkIDByName at h
  rw [Option.map_eq_some_iff] at h
  obtain ⟨d, hd, rfl⟩ := h
  exact List.any_eq_true.mpr ⟨d, List.mem_of_find?_eq_some hd, beq_self_eq_true _⟩

theorem knownSpork_of_admits {env : SporkEnv} (h : env.admits m = true) : knownSpork m.nSporkID = true := by
  unfold SporkEnv.admits at h
  split at h
  · cases h
  · split at h
    · cases h
    · split at h
      · cases h
      · rename_i hknown
        simpa using hknown

/-- The times of the active sporks do not decrease. -/
def TimesGrow (net net' : SporkNet ι) : Prop :=
  ∀ i, Grows CSporkMessage.nTimeSigned (net.nodes i).mapSporksActive (net'.nodes i).mapSporksActive

theorem timesGrow_update {i : ι} {node : SporkNode} {signed : List CSporkMessage}
    (h : Grows CSporkMessage.nTimeSigned (net.nodes i).mapSporksActive node.mapSporksActive) :
    net.TimesGrow ⟨Function.update net.nodes i node, signed⟩ := by
  intro j
  dsimp only
  by_cases hj : j = i
  · subst hj
    rwa [Function.update_self]
  · rw [Function.update_of_ne hj]
    exact .refl

theorem step_consistent (h : Consistent signer pre net) (hcond : ClockGoesOn signer net op)
    (hstep : step signer net op = some net') : Consistent signer (pre ++ [op]) net' ∧ net.TimesGrow net' := by
  cases op with
  | spork env strName nValue =>
    dsimp only [step] at hstep
    cases hid : getSporkIDByName strName with
    | none =>
      rw [hid] at hstep
      cases hstep
      have hsigns : signs env strName nValue = none := by
        unfold signs
        rw [hid]
        rfl
      exact ⟨h.idle fun i => by rw [receives, hsigns, ite_self], fun _ => .refl⟩
    | some nSporkID =>
      rw [hid] at hstep
      cases hstep
      have hsigns : signs env strName nValue = env.signSpork nSporkID nValue := by
        unfold signs
        rw [hid]
        rfl
      unfold SporkNode.updateSpork
      cases hm : env.signSpork nSporkID nValue with
      | none =>
        dsimp only
        rw [Function.update_eq_self, Option.toList_none, List.append_nil]
        exact ⟨h.idle fun i => by rw [receives, hsigns, hm, ite_self], fun _ => .refl⟩
      | some m =>
        have hnew := hcond m (hsigns.trans hm)
        have hknown : knownSpork m.nSporkID = true := by
          unfold SporkEnv.signSpork at hm
          rw [Option.map_eq_some_iff] at hm
          obtain ⟨sig, -, rfl⟩ := hm
          exact knownSpork_of_getSporkIDByName hid
        refine ⟨h.sign ?_ (fun i hi => ?_) hknown hnew, timesGrow_update (grows_write hnew)⟩
        · rw [receives, if_pos rfl, hsigns, hm]
        · rw [receives, if_neg hi]
  | deliver env i m =>
    dsimp only [step] at hstep
    split at hstep
    · rename_i hm
      cases hstep
      by_cases hok : (env.admits m && env.checkSignature m) = true
      · refine ⟨h.deliver hm hok (knownSpork_of_admits (Bool.and_eq_true _ _ ▸ hok).1), timesGrow_update ?_⟩
        rw [SporkNode.mapSporksActive_processSpork hok]
        exact grows_receive _ m
      · rw [SporkNode.processSpork_of_refused hok, Function.update_eq_self]
        exact ⟨h.idle fun j => by rw [receives, if_neg (fun hboth => hok hboth.2)], fun _ => .refl⟩
    · cases hstep
  | restart i =>
    dsimp only [step] at hstep
    cases hstep
    rw [(h.saved i).loadSporksFromDB, Function.update_eq_self]
    exact ⟨h.idle fun _ => rfl, fun _ => .refl⟩

theorem run_consistent {ops : List (SporkOp ι)} (hmeets : Meets (step signer) (ClockGoesOn signer) empty ops)
    (hrun : ops.foldlM (step signer) empty = some net) : Consistent signer ops net := by
  refine hmeets.keeps_along (I := Consistent signer) (fun pre net op net' h hcond hstep => ?_) [] consistent_empty hrun
  exact (step_consistent h hcond hstep).1

theorem run_timesGrow : ∀ {ops pre : List (SporkOp ι)} {net net' : SporkNet ι}, Consistent signer pre net →
    Meets (step signer) (ClockGoesOn signer) net ops → ops.foldlM (step signer) net = some net' → net.TimesGrow net'
  | [], _, _, _, _, _, hrun => by
    cases hrun
    exact fun _ => .refl
  | op :: ops, pre, net, net', h, ⟨hcond, hrest⟩, hrun => by
    obtain ⟨net₁, h₁, hrun⟩ := foldlM_cons_some hrun
    obtain ⟨hcons, hgrow⟩ := step_consistent h hcond h₁
    have hgrow' := run_timesGrow hcons (hrest net₁ h₁) hrun
    intro i k a ha
    obtain ⟨b, hb, hle⟩ := hgrow i k a ha
    obtain ⟨c, hc, hle'⟩ := hgrow' i k b hb
    exact ⟨c, hc, hle.trans hle'⟩

/-- As long as the clock of the signing node goes on between two sporks of one id, all nodes have the same active sporks
once every message was delivered to every node, and on each node the time of an active spork never decreases. -/
theorem sporks_converge (signer : ι) (ops : List (SporkOp ι)) (net : SporkNet ι)
    (hmeets : Meets (step signer) (ClockGoesOn signer) empty ops) (hrun : ops.foldlM (step signer) empty = some net) :
    ((∀ i, i ≠ signer → ∀ m ∈ net.signed, m ∈ received signer i ops) →
      ∀ i j, (net.nodes i).mapSporksActive = (net.nodes j).mapSporksActive) ∧
    ∀ pre post net₁, ops = pre ++ post → pre.foldlM (step signer) empty = some net₁ → net₁.TimesGrow net := by
  have h := run_consistent hmeets hrun
  constructor
  · intro hall i j
    have hreceived : ∀ i m, m ∈ received signer i ops ↔ m ∈ net.signed := by
      intro i m
      refine ⟨h.signed_of_received i m, fun hm => ?_⟩
      by_cases hi : i = signer
      · rw [hi]
        exact h.received_of_signed m hm
      · exact hall i hi m hm
    refine (h.latest i).eq (h.latest j) (fun m => (hreceived j m).trans (hreceived i m).symm) fun m hm m' hm' => ?_
    exact h.unique m ((hreceived i m).mp hm) m' ((hreceived i m').mp hm')
  · rintro pre post net₁ rfl hpre
    have hmid := run_consistent hmeets.of_append_left hpre
    rw [List.foldlM_append, hpre] at hrun
    exact run_timesGrow hmid (hmeets.of_append hpre) hrun

/-! ## Two sporks in one second -/

/-- A node at the time `now` that accepts all signatures. -/
def sporkEnv (now : Int) : SporkEnv where
  now
  getAdjustedTime := now
  fLiteMode := false
  tipHeight := some 100
  isMessSigV2 _ := true
  checkSignature _ := true
  sign _ _ _ := some (1, [])

/-- The message for `SPORK_5_MAX_VALUE`. -/
def maxValueSpork (nValue nTimeSigned : Int) : CSporkMessage := ⟨10004, nValue, nTimeSigned, 1, []⟩

/-- The signing node `false` sets a spork at two times, and the node `true` gets the messages in the other order. -/
def swappedOps (t₁ t₂ : Int) : List (SporkOp Bool) :=
  [.spork (sporkEnv t₁) "SPORK_5_MAX_VALUE" 1000, .spork (sporkEnv t₂) "SPORK_5_MAX_VALUE" 2000,
    .deliver (sporkEnv t₂) true (maxValueSpork 2000 t₂), .deliver (sporkEnv t₂) true (maxValueSpork 1000 t₁)]

theorem sporks_converge_swapped : ∃ net, (swappedOps 100 101).foldlM (step false) empty = some net ∧
    (net.nodes true).mapSporksActive = (net.nodes false).mapSporksActive := by
  refine ⟨_, rfl, (sporks_converge false (swappedOps 100 101) _ ?_ rfl).1 ?_ true false⟩
  · refine .cons _ (fun m hm old hold => ?_) rfl (.cons _ (fun m hm old hold => ?_) rfl (.cons _ trivial rfl
      (.cons _ trivial rfl trivial)))
    · cases hold
    · cases hm
      cases hold
      left
      decide
  · intro i hi m hm
    cases i with
    | false => exact absurd rfl hi
    | true =>
      revert m
      decide

/-- The signing node sets a spork twice in one second, and the other node gets the messages in the order of signing. -/
def sameSecondOps : List (SporkOp Bool) :=
  [.spork (sporkEnv 100) "SPORK_5_MAX_VALUE" 1000, .spork (sporkEnv 100) "SPORK_5_MAX_VALUE" 2000,
    .deliver (sporkEnv 100) true (maxValueSpork 1000 100), .deliver (sporkEnv 100) true (maxValueSpork 2000 100)]

/-- Both messages were delivered, but the signing node has the second and the other one the first. -/
theorem sporks_not_converge : ∃ net, sameSecondOps.foldlM (step false) empty = some net ∧
    (∀ m ∈ net.signed, m ∈ received false true sameSecondOps) ∧
    (net.nodes true).mapSporksActive ≠ (net.nodes false).mapSporksActive := by
  refine ⟨_, rfl, by decide, fun heq => ?_⟩
  have hvalue := congrFun heq 10004
  revert hvalue
  decide

end SporkNet

end DigiWage
