import DigiWage.Hash
import DigiWage.Script.Parse
import DigiWage.Serialize

/-!
# The signature hash

`SignatureHash` of `script/interpreter.cpp` streams the parts of a transaction that a signature signs. The reference is
`SignatureHashOld` of the tests, which edits a copy of the transaction and serializes it.

* An access of the stream that is out of range gives `none`; the answer `UINT256_ONE` is `some none`.
* `writeCode_eq`: the stream writes what `FindAndDelete` leaves of a script that can be read to its end.
-/

namespace DigiWage

open CScript Lib

/-! ## Transactions as bytes -/

/-- `Serialize` of a script. -/
def CScript.serialize (s : CScript) : List UInt8 := writeCompactSize s.bytes.length ++ s.bytes

/-- `COutPoint`: the memory of its two fields. -/
def COutPoint.serialize (o : COutPoint) : List UInt8 := writeUint256 o.hash ++ leBytes 4 o.n

/-- `CTxIn::SerializationOp`. -/
def CTxIn.serialize (txin : CTxIn) : List UInt8 :=
  txin.prevout.serialize ++ txin.scriptSig.serialize ++ leBytes 4 txin.nSequence

/-- `CTxOut::SerializationOp`. -/
def CTxOut.serialize (out : CTxOut) : List UInt8 :=
  leBytes 8 (out.nValue % 2 ^ 64).toNat ++ out.scriptPubKey.serialize

/-- `CTransaction::SerializationOp`. -/
def CTransaction.serialize (tx : CTransaction) : List UInt8 :=
  writeInt32 tx.nVersion ++ writeVector CTxIn.serialize tx.vin ++ writeVector CTxOut.serialize tx.vout ++
    leBytes 4 tx.nLockTime

/-! ## Hash types -/

def SIGHASH_NONE : UInt32 := 2
def SIGHASH_SINGLE : UInt32 := 3
def SIGHASH_ANYONECANPAY : UInt32 := 0x80

/-- `nHashType & SIGHASH_ANYONECANPAY`. -/
def isAnyoneCanPay (nHashType : Int32) : Bool := nHashType.toUInt32 &&& SIGHASH_ANYONECANPAY != 0

/-- `(nHashType & 0x1f) == SIGHASH_SINGLE`. -/
def isHashSingle (nHashType : Int32) : Bool := nHashType.toUInt32 &&& 0x1f == SIGHASH_SINGLE

/-- `(nHashType & 0x1f) == SIGHASH_NONE`. -/
def isHashNone (nHashType : Int32) : Bool := nHashType.toUInt32 &&& 0x1f == SIGHASH_NONE

def CScript.OP_CODESEPARATOR : UInt8 := 0xab

/-! ## The stream -/

structure CTransactionSignatureSerializer where
  txTo : CTransaction
  scriptCode : CScript
  nIn : Nat
  fAnyoneCanPay : Bool
  fHashSingle : Bool
  fHashNone : Bool

namespace CTransactionSignatureSerializer

/-- The loop that counts the code separators. -/
def countSeparators : Nat → List UInt8 → Nat
  | 0, _ => 0
  | fuel + 1, it =>
    match getOp2 it with
    | none => 0
    | some (opcode, _, rest) => (if opcode = OP_CODESEPARATOR then 1 else 0) + countSeparators fuel rest

/-- The loop that writes the script between the code separators, and what it writes at the end. -/
def writeCode : Nat → List UInt8 → List UInt8 → List UInt8
  | 0, _, _ => []
  | fuel + 1, itBegin, it =>
    match getOp2 it with
    | none => if itBegin = [] then [] else itBegin.take (itBegin.length - (getOp it).2.length)
    | some (opcode, _, rest) =>
      if opcode = OP_CODESEPARATOR then itBegin.take (itBegin.length - rest.length - 1) ++ writeCode fuel rest rest
      else writeCode fuel itBegin rest

def serializeScriptCode (scriptCode : CScript) : List UInt8 :=
  let b := scriptCode.bytes
  writeCompactSize (b.length - countSeparators (b.length + 1) b) ++ writeCode (b.length + 1) b b

variable (t : CTransactionSignatureSerializer)

def serializeInput (nInput : Nat) : Option (List UInt8) := do
  let nInput := if t.fAnyoneCanPay then t.nIn else nInput
  let txin ← t.txTo.vin[nInput]?
  let script := if nInput ≠ t.nIn then CScript.serialize ([] : List UInt8) else serializeScriptCode t.scriptCode
  let sequence := if nInput ≠ t.nIn ∧ (t.fHashSingle ∨ t.fHashNone) then leBytes 4 0 else leBytes 4 txin.nSequence
  some (txin.prevout.serialize ++ script ++ sequence)

def serializeOutput (nOutput : Nat) : Option (List UInt8) :=
  if t.fHashSingle ∧ nOutput ≠ t.nIn then some CTxOut.null.serialize
  else (t.txTo.vout[nOutput]?).map CTxOut.serialize

def serialize : Option (List UInt8) := do
  let nInputs := if t.fAnyoneCanPay then 1 else t.txTo.vin.length
  let vin ← (List.range nInputs).mapM t.serializeInput
  let nOutputs := if t.fHashNone then 0 else if t.fHashSingle then t.nIn + 1 else t.txTo.vout.length
  let vout ← (List.range nOutputs).mapM t.serializeOutput
  some (writeInt32 t.txTo.nVersion ++ (writeCompactSize nInputs ++ vin.flatten) ++
    (writeCompactSize nOutputs ++ vout.flatten) ++ leBytes 4 t.txTo.nLockTime)

end CTransactionSignatureSerializer

/-- What `SignatureHash` hashes; `some none` where it answers `UINT256_ONE`. -/
def signatureData (scriptCode : CScript) (txTo : CTransaction) (nIn : Nat) (nHashType : Int32) :
    Option (Option (List UInt8)) :=
  if txTo.vin.length ≤ nIn then some none
  else if isHashSingle nHashType ∧ txTo.vout.length ≤ nIn then some none
  else do
    let txTmp : CTransactionSignatureSerializer :=
      ⟨txTo, scriptCode, nIn, isAnyoneCanPay nHashType, isHashSingle nHashType, isHashNone nHashType⟩
    let bytes ← txTmp.serialize
    some (some (bytes ++ writeInt32 nHashType))

/-- The hash of what was serialized, or `UINT256_ONE`. -/
def hashOf : Option (List UInt8) → Uint256
  | none => 1
  | some bytes => hash256 bytes

def signatureHash (scriptCode : CScript) (txTo : CTransaction) (nIn : Nat) (nHashType : Int32) : Option Uint256 :=
  (signatureData scriptCode txTo nIn nHashType).map hashOf

/-! ## The reference -/

namespace SignatureHashOld

/-- `std::vector::resize` to a smaller size. -/
def resize {A : Type} (l : List A) (n : Nat) : List A := l.take n

/-- All scripts are blanked out, and that of the input is the script code. -/
def blankScripts (vin : List CTxIn) (nIn : Nat) (scriptCode : CScript) : List CTxIn :=
  (vin.map fun txin => { txin with scriptSig := ([] : List UInt8) }).modify nIn fun txin =>
    { txin with scriptSig := scriptCode }

/-- "Let the others update at will." -/
def zeroSequences (vin : List CTxIn) (nIn : Nat) : List CTxIn :=
  vin.mapIdx fun i txin => if i ≠ nIn then { txin with nSequence := 0 } else txin

/-- "Only lock-in the txout payee at same index as txin." -/
def onlyOutput (vout : List CTxOut) (nOut : Nat) : List CTxOut :=
  (resize vout (nOut + 1)).mapIdx fun i out => if i < nOut then out.setNull else out

/-- "Blank out other inputs completely." -/
def onlyInput (vin : List CTxIn) (nIn : Nat) : List CTxIn :=
  match vin[nIn]? with
  | none => vin
  | some txin => resize (vin.set 0 txin) 1

end SignatureHashOld

open SignatureHashOld in
/-- What `SignatureHashOld` hashes; `none` where it answers `UINT256_ONE`. -/
def signatureDataOld (scriptCode : CScript) (txTo : CTransaction) (nIn : Nat) (nHashType : Int32) : Option (List UInt8) :=
  if txTo.vin.length ≤ nIn then none
  else do
    let scriptCode := findAndDelete scriptCode [OP_CODESEPARATOR]
    let vin := blankScripts txTo.vin nIn scriptCode
    let (vin, vout) ←
      if isHashNone nHashType then some (zeroSequences vin nIn, [])
      else if isHashSingle nHashType then
        if txTo.vout.length ≤ nIn then none else some (zeroSequences vin nIn, onlyOutput txTo.vout nIn)
      else some (vin, txTo.vout)
    let vin := if isAnyoneCanPay nHashType then onlyInput vin nIn else vin
    some (CTransaction.serialize { txTo with vin := vin, vout := vout } ++ writeInt32 nHashType)

/-! ## Scripts without code separators -/

namespace CTransactionSignatureSerializer

variable {pc mid : List UInt8} {opcode : UInt8} {vch : Valtype} {ops : List (UInt8 × Valtype)} {fuel fuel' : Nat}

theorem exists_chunk (h : getOp2 pc = some (opcode, vch, mid)) :
    ∃ chunk, pc = chunk ++ mid ∧ pc.take (pc.length - mid.length) = chunk := by
  obtain ⟨chunk, hchunk⟩ := suffix_of_getOp2 h
  refine ⟨chunk, hchunk.symm, ?_⟩
  rw [← hchunk, List.length_append, Nat.add_sub_cancel, List.take_left]

theorem eq_of_separator (h : getOp2 pc = some (OP_CODESEPARATOR, vch, mid)) : pc = OP_CODESEPARATOR :: mid :=
  (eq_cons_of_getOp2 h (by decide)).1

theorem writeCode_append (before : List UInt8) (h : Reads pc ops []) (hfuel : pc.length < fuel) :
    writeCode fuel (before ++ pc) pc = before ++ writeCode fuel pc pc := by
  induction ops generalizing pc fuel before with
  | nil =>
    cases h
    cases fuel with
    | zero => cases hfuel
    | succ fuel =>
      have hread : getOp2 [] = none := rfl
      have hend : (getOp []).2 = [] := rfl
      rw [writeCode, writeCode, hread, List.append_nil]
      simp only [if_true, hend, List.length_nil, Nat.sub_zero, List.take_length, List.append_nil]
      split
      · rename_i hnil
        exact hnil.symm
      · rfl
  | cons op ops ih =>
    obtain ⟨opcode, vch⟩ := op
    obtain ⟨mid, hread, hrest⟩ := h
    have hlen := length_of_getOp2 hread
    cases fuel with
    | zero => cases hfuel
    | succ fuel =>
      rw [writeCode, writeCode, hread]
      simp only
      by_cases hop : opcode = OP_CODESEPARATOR
      · rw [if_pos hop, if_pos hop]
        rw [hop] at hread
        have hpc := eq_of_separator hread
        have hbefore : (before ++ pc).length - mid.length - 1 = before.length := by
          rw [hpc, List.length_append, List.length_cons]
          omega
        have hzero : pc.length - mid.length - 1 = 0 := by
          rw [hpc, List.length_cons]
          omega
        rw [hbefore, hzero, List.take_left, List.take_zero, List.nil_append]
      · rw [if_neg hop, if_neg hop]
        obtain ⟨chunk, hpc, -⟩ := exists_chunk hread
        have hmid : mid.length < fuel := by omega
        rw [hpc, ← List.append_assoc, ih (before ++ chunk) hrest hmid, ih chunk hrest hmid, List.append_assoc]

theorem findAndDeleteLoop_separator (fuel : Nat) (rest : List UInt8) :
    findAndDeleteLoop [OP_CODESEPARATOR] (fuel + 1) (OP_CODESEPARATOR :: rest) =
      ((findAndDeleteLoop [OP_CODESEPARATOR] (fuel + 1) rest).1,
        (findAndDeleteLoop [OP_CODESEPARATOR] (fuel + 1) rest).2 + 1) := by
  have hskip : skipCopies [OP_CODESEPARATOR] (OP_CODESEPARATOR :: rest).length (OP_CODESEPARATOR :: rest) =
      ((skipCopies [OP_CODESEPARATOR] rest.length rest).1, (skipCopies [OP_CODESEPARATOR] rest.length rest).2 + 1) := rfl
  rw [findAndDeleteLoop, hskip, findAndDeleteLoop]
  generalize skipCopies [OP_CODESEPARATOR] rest.length rest = skipped
  obtain ⟨pc2, nFound⟩ := skipped
  simp only
  cases getOp2 pc2 with
  | none => rfl
  | some x =>
    simp only
    congr 1
    omega

/-- What is written is what `FindAndDelete` leaves, and as many code separators are counted as it finds. -/
structure SameCode (fuel fuel' : Nat) (pc : List UInt8) : Prop where
  code : (findAndDeleteLoop [OP_CODESEPARATOR] fuel pc).1 = writeCode fuel' pc pc
  count : (findAndDeleteLoop [OP_CODESEPARATOR] fuel pc).2 = countSeparators fuel' pc
  length : (writeCode fuel' pc pc).length + countSeparators fuel' pc = pc.length
  unchanged : countSeparators fuel' pc = 0 → writeCode fuel' pc pc = pc

theorem SameCode.separator (hread : getOp2 (OP_CODESEPARATOR :: mid) = some (OP_CODESEPARATOR, vch, mid))
    (h : SameCode (fuel + 1) fuel' mid) : SameCode (fuel + 1) (fuel' + 1) (OP_CODESEPARATOR :: mid) := by
  have hwrite : writeCode (fuel' + 1) (OP_CODESEPARATOR :: mid) (OP_CODESEPARATOR :: mid) = writeCode fuel' mid mid := by
    have hzero : (OP_CODESEPARATOR :: mid).length - mid.length - 1 = 0 := by
      rw [List.length_cons]
      omega
    rw [writeCode, hread]
    simp only [if_true, hzero, List.take_zero, List.nil_append]
  have hcount : countSeparators (fuel' + 1) (OP_CODESEPARATOR :: mid) = countSeparators fuel' mid + 1 := by
    rw [countSeparators, hread]
    simp only [if_true]
    omega
  refine ⟨?_, ?_, ?_, ?_⟩
  · rw [findAndDeleteLoop_separator, hwrite]
    exact h.code
  · rw [findAndDeleteLoop_separator, hcount, h.count]
  · have hlength := h.length
    rw [hwrite, hcount, List.length_cons]
    omega
  · intro hzero
    rw [hcount] at hzero
    cases hzero

theorem SameCode.chunk (hread : getOp2 pc = some (opcode, vch, mid)) (hop : opcode ≠ OP_CODESEPARATOR)
    (hrest : Reads mid ops []) (hfuel : mid.length < fuel') (h : SameCode fuel fuel' mid) :
    SameCode (fuel + 1) (fuel' + 1) pc := by
  obtain ⟨chunk, hpc, htake⟩ := exists_chunk hread
  have hhead := head_of_getOp2 hread
  have hskip : skipCopies [OP_CODESEPARATOR] pc.length pc = (pc, 0) := by
    cases pc with
    | nil => cases hhead
    | cons b pc =>
      cases hhead
      have hprefix : List.isPrefixOf [OP_CODESEPARATOR] (opcode :: pc) = false := by
        simp [List.isPrefixOf, Ne.symm hop]
      rw [List.length_cons, skipCopies, hprefix]
      rfl
  have hloop : findAndDeleteLoop [OP_CODESEPARATOR] (fuel + 1) pc =
      (chunk ++ (findAndDeleteLoop [OP_CODESEPARATOR] fuel mid).1,
        (findAndDeleteLoop [OP_CODESEPARATOR] fuel mid).2) := by
    rw [findAndDeleteLoop, hskip]
    simp only [hread, htake, Nat.zero_add]
  have hwrite : writeCode (fuel' + 1) pc pc = chunk ++ writeCode fuel' mid mid := by
    rw [writeCode, hread]
    simp only [if_neg hop]
    rw [hpc]
    exact writeCode_append chunk hrest hfuel
  have hcount : countSeparators (fuel' + 1) pc = countSeparators fuel' mid := by
    rw [countSeparators, hread]
    simp only [if_neg hop, Nat.zero_add]
  refine ⟨?_, ?_, ?_, ?_⟩
  · rw [hloop, hwrite, h.code]
  · rw [hloop, hcount, h.count]
  · have hlength := h.length
    rw [hwrite, hcount, hpc, List.length_append, List.length_append]
    omega
  · intro hzero
    rw [hcount] at hzero
    rw [hwrite, h.unchanged hzero, hpc]

theorem writeCode_eq (h : Reads pc ops []) (hfuel : pc.length < fuel) (hfuel' : pc.length < fuel') :
    SameCode fuel fuel' pc := by
  induction ops generalizing pc fuel fuel' with
  | nil =>
    cases h
    cases fuel with
    | zero => cases hfuel
    | succ fuel =>
      cases fuel' with
      | zero => cases hfuel'
      | succ fuel' => exact ⟨rfl, rfl, rfl, fun _ => rfl⟩
  | cons op ops ih =>
    obtain ⟨opcode, vch⟩ := op
    obtain ⟨mid, hread, hrest⟩ := h
    have hlen := length_of_getOp2 hread
    cases fuel with
    | zero => cases hfuel
    | succ fuel =>
      cases fuel' with
      | zero => cases hfuel'
      | succ fuel' =>
        by_cases hop : opcode = OP_CODESEPARATOR
        · rw [hop] at hread
          obtain rfl := eq_of_separator hread
          rw [List.length_cons] at hfuel hfuel'
          exact (@ih mid (fuel + 1) fuel' hrest (by omega) (by omega)).separator hread
        · exact (@ih mid fuel fuel' hrest (by omega) (by omega)).chunk hread hop hrest (by omega)

theorem serializeScriptCode_eq {scriptCode : CScript} (h : Parses scriptCode ops) :
    serializeScriptCode scriptCode = (findAndDelete scriptCode [OP_CODESEPARATOR]).serialize := by
  have hsame : SameCode (scriptCode.bytes.length + 1) (scriptCode.bytes.length + 1) scriptCode.bytes :=
    writeCode_eq h (Nat.lt_succ_self _) (Nat.lt_succ_self _)
  have hdelete : (findAndDelete scriptCode [OP_CODESEPARATOR]).bytes =
      writeCode (scriptCode.bytes.length + 1) scriptCode.bytes scriptCode.bytes := by
    have hresult : (findAndDelete scriptCode [OP_CODESEPARATOR]).bytes =
        if 0 < (findAndDeleteLoop [OP_CODESEPARATOR] (scriptCode.bytes.length + 1) scriptCode.bytes).2 then
          (findAndDeleteLoop [OP_CODESEPARATOR] (scriptCode.bytes.length + 1) scriptCode.bytes).1
        else scriptCode.bytes := rfl
    rw [hresult, hsame.count, hsame.code]
    split
    · rfl
    · rename_i hzero
      rw [hsame.unchanged (by omega)]
  have hlength := hsame.length
  rw [serializeScriptCode, CScript.serialize, hdelete]
  congr 2
  omega

/-! ## Inputs and outputs -/

theorem mapM_range_eq {A : Type} {f : Nat → Option A} (l : List A) (h : ∀ i < l.length, f i = l[i]?) :
    (List.range l.length).mapM f = some l := by
  have hgeneral : ∀ (values : List A) (start : Nat), (∀ i < values.length, f (start + i) = values[i]?) →
      (List.range' start values.length).mapM f = some values := by
    intro values
    induction values with
    | nil =>
      intro start _
      rfl
    | cons value values ih =>
      intro start hread
      have hfirst : f start = some value := hread 0 (Nat.succ_pos _)
      have hrest := ih (start + 1) fun i hi => by
        rw [Nat.add_right_comm]
        exact hread (i + 1) (Nat.succ_lt_succ hi)
      rw [List.length_cons, List.range'_succ, List.mapM_cons, hfirst, hrest]
      rfl
  rw [List.range_eq_range']
  apply hgeneral l 0
  intro i hi
  rw [Nat.zero_add]
  exact h i hi

variable {t : CTransactionSignatureSerializer} {vin : List CTxIn} {vout : List CTxOut}

theorem serialize_eq (hnIn : vin.length = if t.fAnyoneCanPay then 1 else t.txTo.vin.length)
    (hvin : ∀ i < vin.length, t.serializeInput i = (vin[i]?).map CTxIn.serialize)
    (hnOut : vout.length = if t.fHashNone then 0 else if t.fHashSingle then t.nIn + 1 else t.txTo.vout.length)
    (hvout : ∀ i < vout.length, t.serializeOutput i = (vout[i]?).map CTxOut.serialize) :
    t.serialize = some (CTransaction.serialize { t.txTo with vin := vin, vout := vout }) := by
  have hinputs : (List.range vin.length).mapM t.serializeInput = some (vin.map CTxIn.serialize) := by
    rw [← List.length_map CTxIn.serialize]
    apply mapM_range_eq
    intro i hi
    rw [List.length_map] at hi
    rw [List.getElem?_map, hvin i hi]
  have houtputs : (List.range vout.length).mapM t.serializeOutput = some (vout.map CTxOut.serialize) := by
    rw [← List.length_map CTxOut.serialize]
    apply mapM_range_eq
    intro i hi
    rw [List.length_map] at hi
    rw [List.getElem?_map, hvout i hi]
  simp only [serialize, ← hnIn, ← hnOut, hinputs, houtputs]
  simp only [CTransaction.serialize, writeVector, List.flatMap_def]
  rfl

end CTransactionSignatureSerializer

/-- What becomes of the `i`-th input. -/
def signedInput (scriptCode : CScript) (nIn : Nat) (fOthersFree : Bool) (i : Nat) (txin : CTxIn) : CTxIn :=
  { txin with
    scriptSig := if i = nIn then scriptCode else ([] : List UInt8)
    nSequence := if i ≠ nIn ∧ fOthersFree then 0 else txin.nSequence }

namespace SignatureHashOld

variable {vin : List CTxIn} {nIn i : Nat} {scriptCode : CScript}

theorem getElem?_blankScripts : (blankScripts vin nIn scriptCode)[i]? = (vin[i]?).map (signedInput scriptCode nIn false i) := by
  rw [blankScripts, List.getElem?_modify, List.getElem?_map]
  cases vin[i]? with
  | none => rfl
  | some txin =>
    by_cases hi : nIn = i
    · simp [signedInput, hi]
    · simp [signedInput, hi, Ne.symm hi]

theorem getElem?_zeroSequences : (zeroSequences (blankScripts vin nIn scriptCode) nIn)[i]? =
    (vin[i]?).map (signedInput scriptCode nIn true i) := by
  rw [zeroSequences, List.getElem?_mapIdx, getElem?_blankScripts]
  cases vin[i]? with
  | none => rfl
  | some txin =>
    by_cases hi : i = nIn
    · simp [signedInput, hi]
    · simp [signedInput, hi]

theorem onlyInput_eq {txin : CTxIn} (h : vin[nIn]? = some txin) : onlyInput vin nIn = [txin] := by
  cases vin with
  | nil => cases h
  | cons first vin =>
    rw [onlyInput, h]
    rfl

theorem getElem?_onlyOutput {vout : List CTxOut} {nOut : Nat} (hi : i < nOut + 1) :
    (onlyOutput vout nOut)[i]? = (vout[i]?).map fun out => if i < nOut then CTxOut.null else out := by
  rw [onlyOutput, List.getElem?_mapIdx, resize, List.getElem?_take_of_lt hi]
  rfl

end SignatureHashOld

section Agreement

open SignatureHashOld

variable {scriptCode : CScript} {ops : List (UInt8 × Valtype)} {t : CTransactionSignatureSerializer}

theorem serializeInput_eq (h : Parses t.scriptCode ops) (i : Nat) :
    t.serializeInput i = (t.txTo.vin[if t.fAnyoneCanPay then t.nIn else i]?).map fun txin =>
      (signedInput (findAndDelete t.scriptCode [OP_CODESEPARATOR]) t.nIn (t.fHashSingle || t.fHashNone)
        (if t.fAnyoneCanPay then t.nIn else i) txin).serialize := by
  simp only [CTransactionSignatureSerializer.serializeInput]
  generalize (if t.fAnyoneCanPay then t.nIn else i) = j
  cases t.txTo.vin[j]? with
  | none => rfl
  | some txin =>
    simp only [Option.bind_eq_bind, Option.bind_some, Option.map_some, CTxIn.serialize, signedInput]
    by_cases hj : j = t.nIn
    · simp [hj, CTransactionSignatureSerializer.serializeScriptCode_eq h]
    · by_cases hfree : t.fHashSingle = true ∨ t.fHashNone = true
      · simp [hj, hfree]
      · simp [hj, hfree]

theorem inputs_eq (h : Parses t.scriptCode ops) (hin : t.nIn < t.txTo.vin.length) {vin : List CTxIn}
    (hvin : ∀ i, vin[i]? = (t.txTo.vin[i]?).map (signedInput (findAndDelete t.scriptCode [OP_CODESEPARATOR]) t.nIn
      (t.fHashSingle || t.fHashNone) i)) :
    let final := if t.fAnyoneCanPay then onlyInput vin t.nIn else vin
    final.length = (if t.fAnyoneCanPay then 1 else t.txTo.vin.length) ∧
      ∀ i < final.length, t.serializeInput i = (final[i]?).map CTxIn.serialize := by
  cases hany : t.fAnyoneCanPay with
  | true =>
    have hread := hvin t.nIn
    rw [List.getElem?_eq_getElem hin, Option.map_some] at hread
    simp only [if_true, onlyInput_eq hread]
    refine ⟨rfl, ?_⟩
    intro i hi
    obtain rfl : i = 0 := Nat.lt_one_iff.mp hi
    rw [serializeInput_eq h, hany, if_pos rfl, List.getElem?_eq_getElem hin]
    rfl
  | false =>
    simp only [Bool.false_eq_true, if_false]
    constructor
    · have hmap : vin = t.txTo.vin.mapIdx (signedInput (findAndDelete t.scriptCode [OP_CODESEPARATOR]) t.nIn
          (t.fHashSingle || t.fHashNone)) := by
        apply List.ext_getElem?
        intro i
        rw [hvin i, List.getElem?_mapIdx]
      rw [hmap, List.length_mapIdx]
    · intro i _
      rw [serializeInput_eq h, hany, hvin i, Option.map_map]
      rfl

/-- The bytes that are hashed are those of the reference, and so are the answers for an index that is out of range. -/
theorem signatureHash_eq_old (scriptCode : CScript) (txTo : CTransaction) (nIn : Nat) (nHashType : Int32)
    (h : ∃ ops, Parses scriptCode ops) :
    signatureData scriptCode txTo nIn nHashType = some (signatureDataOld scriptCode txTo nIn nHashType) ∧
      signatureHash scriptCode txTo nIn nHashType = some (hashOf (signatureDataOld scriptCode txTo nIn nHashType)) := by
  obtain ⟨ops, hparses⟩ := h
  have hdata : signatureData scriptCode txTo nIn nHashType = some (signatureDataOld scriptCode txTo nIn nHashType) := by
    unfold signatureData signatureDataOld
    by_cases hin : txTo.vin.length ≤ nIn
    · rw [if_pos hin, if_pos hin]
    rw [if_neg hin, if_neg hin]
    rw [Nat.not_le] at hin
    -- the case of each hash type, with the inputs and outputs that the reference makes
    have hstream {vin : List CTxIn} {vout : List CTxOut}
        (hvin : ∀ i, vin[i]? = (txTo.vin[i]?).map (signedInput (findAndDelete scriptCode [OP_CODESEPARATOR]) nIn
          (isHashSingle nHashType || isHashNone nHashType) i))
        (hlength : vout.length =
          if isHashNone nHashType then 0 else if isHashSingle nHashType then nIn + 1 else txTo.vout.length)
        (hvout : ∀ i < vout.length, CTransactionSignatureSerializer.serializeOutput
          ⟨txTo, scriptCode, nIn, isAnyoneCanPay nHashType, isHashSingle nHashType, isHashNone nHashType⟩ i =
            (vout[i]?).map CTxOut.serialize) :
        CTransactionSignatureSerializer.serialize
          ⟨txTo, scriptCode, nIn, isAnyoneCanPay nHashType, isHashSingle nHashType, isHashNone nHashType⟩ =
            some (CTransaction.serialize
              { txTo with vin := if isAnyoneCanPay nHashType then onlyInput vin nIn else vin, vout := vout }) := by
      obtain ⟨hcount, hinputs⟩ := @inputs_eq ops
        ⟨txTo, scriptCode, nIn, isAnyoneCanPay nHashType, isHashSingle nHashType, isHashNone nHashType⟩ hparses hin vin hvin
      exact CTransactionSignatureSerializer.serialize_eq hcount hinputs hlength hvout
    cases hnone : isHashNone nHashType with
    | true =>
      have hsingle : isHashSingle nHashType = false := by
        simp only [isHashNone, isHashSingle, beq_iff_eq] at hnone ⊢
        rw [hnone]
        rfl
      have h := @hstream (zeroSequences (blankScripts txTo.vin nIn (findAndDelete scriptCode [OP_CODESEPARATOR])) nIn) []
        (fun i => by rw [getElem?_zeroSequences, hnone, Bool.or_true]) (by rw [hnone]; rfl) (fun i hi => by cases hi)
      rw [hnone, hsingle] at h
      simp [hsingle, h]
    | false =>
      cases hsingle : isHashSingle nHashType with
      | true =>
        by_cases hout : txTo.vout.length ≤ nIn
        · simp [hout]
        · rw [Nat.not_le] at hout
          have hlength : (onlyOutput txTo.vout nIn).length = nIn + 1 := by
            rw [onlyOutput, List.length_mapIdx, resize, List.length_take]
            omega
          have h := @hstream (zeroSequences (blankScripts txTo.vin nIn (findAndDelete scriptCode [OP_CODESEPARATOR])) nIn)
            (onlyOutput txTo.vout nIn) (fun i => by rw [getElem?_zeroSequences, hsingle, Bool.true_or])
            (by rw [hnone, hsingle]; exact hlength) (fun i hi => by
              rw [hlength] at hi
              rw [getElem?_onlyOutput hi, CTransactionSignatureSerializer.serializeOutput]
              have hget : i < txTo.vout.length := by omega
              simp only [hsingle, true_and, List.getElem?_eq_getElem hget, Option.map_some]
              by_cases hlast : i = nIn
              · simp [hlast]
              · have hlt : i < nIn := by omega
                simp [hlast, hlt])
          rw [hnone, hsingle] at h
          simp [Nat.not_le.mpr hout, h]
      | false =>
        have h := @hstream (blankScripts txTo.vin nIn (findAndDelete scriptCode [OP_CODESEPARATOR])) txTo.vout
          (fun i => by rw [getElem?_blankScripts, hsingle, hnone]; rfl) (by rw [hnone, hsingle]; rfl)
          (fun i _ => by simp [CTransactionSignatureSerializer.serializeOutput, hsingle])
        rw [hnone, hsingle] at h
        simp [h]
  exact ⟨hdata, by rw [signatureHash, hdata, Option.map_some]⟩

/-- A script with a code separator, signed in the second of two inputs with the hash type `SIGHASH_ALL`. -/
theorem signatureHash_eq_old_separator :
    let txin (n : Nat) : CTxIn := { prevout := ⟨5, n⟩, scriptSig := ([0x51] : List UInt8), nSequence := 7 }
    let txTo : CTransaction := ⟨0, 1, [txin 0, txin 1], [CTxOut.null], 0⟩
    let scriptCode : CScript := ([OP_CODESEPARATOR, OP_CHECKSIG] : List UInt8)
    signatureData scriptCode txTo 1 1 = some (signatureDataOld scriptCode txTo 1 1) ∧
      signatureHash scriptCode txTo 1 1 = some (hashOf (signatureDataOld scriptCode txTo 1 1)) :=
  signatureHash_eq_old _ _ 1 1 ⟨[(OP_CODESEPARATOR, []), (OP_CHECKSIG, [])], _, rfl, _, rfl, rfl⟩

end Agreement

end DigiWage
