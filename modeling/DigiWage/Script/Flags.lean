import DigiWage.Script.Interpreter
import DigiWage.Supply.Connect

/-!
# Verification flags only restrict

A set `f` of flags that is contained in a set `g` and does not contain `SCRIPT_VERIFY_DISCOURAGE_UPGRADABLE_NOPS` accepts
whatever `g` accepts.

* `Restricts` goes through the interpreter: one lemma for each function that reads the flags, then `evalOpcode`, a turn, the
  loop, a script and `VerifyScript` (`verifyScript_restricts`). Both runs go through the same states.
* `OP_CHECKLOCKTIMEVERIFY` does nothing without its flag, which is why the flag about the spare opcodes is excluded.
* `AcceptToMemoryPool` looks at the scripts with the standard flags, and again with the mandatory ones (`acceptScripts`).
  `verifyScript_flags`: the second look never fails.
-/

namespace DigiWage

open CScript Lib

/-- The flags of `f` are flags of `g`. -/
def FlagsSubset (f g : UInt32) : Prop := f &&& g = f

instance (f g : UInt32) : Decidable (FlagsSubset f g) := inferInstanceAs (Decidable (f &&& g = f))

theorem hasFlag_mono {f g : UInt32} (h : FlagsSubset f g) {mask : UInt32} (hf : hasFlag f mask = true) :
    hasFlag g mask = true := by
  simp only [hasFlag, bne_iff_ne, ne_eq] at hf ⊢
  intro hg
  apply hf
  calc f &&& mask = f &&& (g &&& mask) := by rw [← UInt32.and_assoc, h]
    _ = 0 := by rw [hg, UInt32.and_zero]

theorem CScriptNum.ofVch_mono {vch : Valtype} {b c : Bool} {nMaxNumSize : Nat} {n : Int} (hbc : b = true → c = true)
    (h : CScriptNum.ofVch vch c nMaxNumSize = some n) : CScriptNum.ofVch vch b nMaxNumSize = some n := by
  cases b with
  | true => rwa [hbc rfl] at h
  | false =>
    unfold CScriptNum.ofVch at h ⊢
    split at h
    · cases h
    · rename_i hlen
      rw [if_neg hlen]
      split at h
      · exact h
      · split at h
        · cases h
        · exact h

namespace EvalEnv

/-- The same evaluation with other flags. -/
def withFlags (env : EvalEnv) (f : UInt32) : EvalEnv := { env with flags := f }

section Relaxed

variable {env : EvalEnv} {f : UInt32} (hsub : FlagsSubset f env.flags)

include hsub

theorem guard_restricts {A : Type} {mask : UInt32} {b : Bool} {e : ScriptError} {x y : Except ScriptError A}
    (h : Restricts x y) :
    Restricts (if hasFlag env.flags mask && b then .error e else x) (if hasFlag f mask && b then .error e else y) := by
  apply Restricts.guard _ h
  intro hf
  rw [Bool.and_eq_true] at hf ⊢
  exact ⟨hasFlag_mono hsub hf.1, hf.2⟩

theorem checkSignatureEncoding_restricts (vchSig : Valtype) :
    Restricts (env.checkSignatureEncoding vchSig) ((env.withFlags f).checkSignatureEncoding vchSig) := by
  unfold checkSignatureEncoding
  apply Restricts.ite
  · intro _
    exact Restricts.refl _
  · intro _
    apply guard_restricts hsub
    apply guard_restricts hsub
    apply guard_restricts hsub
    apply guard_restricts hsub
    exact Restricts.refl _

theorem checkPubKeyEncoding_restricts (vchPubKey : Valtype) :
    Restricts (env.checkPubKeyEncoding vchPubKey) ((env.withFlags f).checkPubKeyEncoding vchPubKey) := by
  unfold checkPubKeyEncoding
  apply guard_restricts hsub
  exact Restricts.refl _

theorem scriptNum_restricts (vch : Valtype) (nMaxNumSize : Nat) :
    Restricts (env.scriptNum vch nMaxNumSize) ((env.withFlags f).scriptNum vch nMaxNumSize) := by
  intro n hn
  unfold scriptNum at hn ⊢
  cases hnum : CScriptNum.ofVch vch env.fRequireMinimal nMaxNumSize with
  | none =>
    rw [hnum] at hn
    cases hn
  | some m =>
    rw [hnum] at hn
    have hmono : (env.withFlags f).fRequireMinimal = true → env.fRequireMinimal = true := hasFlag_mono hsub
    rw [CScriptNum.ofVch_mono hmono hnum]
    exact hn

theorem pick_restricts (fRoll : Bool) (st : EvalState) :
    Restricts (env.pick fRoll st) ((env.withFlags f).pick fRoll st) := by
  unfold pick
  split
  · apply Restricts.bind (scriptNum_restricts hsub _ _)
    intro n
    exact Restricts.refl _
  · exact Restricts.refl _

theorem evalUnary_restricts (op : OpcodeType) (st : EvalState) :
    Restricts (env.evalUnary op st) ((env.withFlags f).evalUnary op st) := by
  unfold evalUnary
  split
  · apply Restricts.bind (scriptNum_restricts hsub _ _)
    intro bn
    exact Restricts.refl _
  · exact Restricts.refl _

theorem evalBinary_restricts (op : OpcodeType) (fVerify : Bool) (st : EvalState) :
    Restricts (env.evalBinary op fVerify st) ((env.withFlags f).evalBinary op fVerify st) := by
  unfold evalBinary
  split
  · apply Restricts.bind (scriptNum_restricts hsub _ _)
    intro bn1
    apply Restricts.bind (scriptNum_restricts hsub _ _)
    intro bn2
    exact Restricts.refl _
  · exact Restricts.refl _

theorem within_restricts (st : EvalState) : Restricts (env.within st) ((env.withFlags f).within st) := by
  unfold within
  split
  · apply Restricts.bind (scriptNum_restricts hsub _ _)
    intro bn1
    apply Restricts.bind (scriptNum_restricts hsub _ _)
    intro bn2
    apply Restricts.bind (scriptNum_restricts hsub _ _)
    intro bn3
    exact Restricts.refl _
  · exact Restricts.refl _

theorem checkSigOp_restricts (fVerify : Bool) (st : EvalState) :
    Restricts (env.checkSigOp fVerify st) ((env.withFlags f).checkSigOp fVerify st) := by
  unfold checkSigOp
  split
  · apply Restricts.bind (checkSignatureEncoding_restricts hsub _)
    intro _
    apply Restricts.bind (checkPubKeyEncoding_restricts hsub _)
    intro _
    exact Restricts.refl _
  · exact Restricts.refl _

theorem checkMultiSigLoop_restricts (scriptCode : CScript) (keys : List Valtype) : ∀ sigs : List Valtype,
    Restricts (env.checkMultiSigLoop scriptCode sigs keys) ((env.withFlags f).checkMultiSigLoop scriptCode sigs keys) := by
  induction keys with
  | nil =>
    intro sigs
    cases sigs with
    | nil => exact Restricts.refl _
    | cons vchSig sigs => exact Restricts.refl _
  | cons vchPubKey keys ih =>
    intro sigs
    cases sigs with
    | nil => exact Restricts.refl _
    | cons vchSig sigs =>
      apply Restricts.bind (checkSignatureEncoding_restricts hsub _)
      intro _
      apply Restricts.bind (checkPubKeyEncoding_restricts hsub _)
      intro _
      apply Restricts.ite
      · intro _
        exact Restricts.refl _
      · intro _
        exact ih _

theorem checkMultiSigOp_restricts (fVerify : Bool) (st : EvalState) :
    Restricts (env.checkMultiSigOp fVerify st) ((env.withFlags f).checkMultiSigOp fVerify st) := by
  unfold checkMultiSigOp
  split
  · exact Restricts.refl _
  · apply Restricts.bind (scriptNum_restricts hsub _ _)
    intro nKeysCount
    apply Restricts.guard id
    apply Restricts.guard id
    split
    · exact Restricts.refl _
    · apply Restricts.bind (scriptNum_restricts hsub _ _)
      intro nSigsCount
      apply Restricts.guard id
      apply Restricts.guard id
      apply Restricts.bind (checkMultiSigLoop_restricts hsub _ _ _)
      intro fSuccess
      split
      · exact Restricts.refl _
      · apply guard_restricts hsub
        exact Restricts.refl _

omit hsub in
theorem checkLockTimeVerify_of_not (hnop : hasFlag f SCRIPT_VERIFY_DISCOURAGE_UPGRADABLE_NOPS = false)
    (hcltv : hasFlag f SCRIPT_VERIFY_CHECKLOCKTIMEVERIFY = false) (st : EvalState) :
    (env.withFlags f).checkLockTimeVerify st = .ok st := by
  simp [checkLockTimeVerify, withFlags, hnop, hcltv]

theorem checkLockTimeVerify_restricts (hnop : hasFlag f SCRIPT_VERIFY_DISCOURAGE_UPGRADABLE_NOPS = false)
    (st : EvalState) : Restricts (env.checkLockTimeVerify st) ((env.withFlags f).checkLockTimeVerify st) := by
  cases hcltv : hasFlag f SCRIPT_VERIFY_CHECKLOCKTIMEVERIFY with
  | false =>
    rw [checkLockTimeVerify_of_not hnop hcltv]
    intro st' h
    -- the opcode leaves the state as it is
    unfold checkLockTimeVerify at h
    split at h
    · split at h
      · cases h
      · exact h
    · split at h
      · cases h
      · obtain ⟨nLockTime, -, h⟩ := bind_eq_ok h
        split at h
        · cases h
        · split at h
          · cases h
          · exact h
  | true =>
    have hg : hasFlag env.flags SCRIPT_VERIFY_CHECKLOCKTIMEVERIFY = true := hasFlag_mono hsub hcltv
    have hf : hasFlag (env.withFlags f).flags SCRIPT_VERIFY_CHECKLOCKTIMEVERIFY = true := hcltv
    simp only [checkLockTimeVerify, hg, hf, Bool.not_true, Bool.false_eq_true, if_false]
    split
    · exact Restricts.refl _
    · apply Restricts.bind (scriptNum_restricts hsub _ _)
      intro nLockTime
      exact Restricts.refl _

theorem evalOpcode_restricts (hnop : hasFlag f SCRIPT_VERIFY_DISCOURAGE_UPGRADABLE_NOPS = false) (opcode : UInt8)
    (pc : List UInt8) (st : EvalState) :
    Restricts (env.evalOpcode opcode pc st) ((env.withFlags f).evalOpcode opcode pc st) := by
  have hspare : Restricts
      (if hasFlag env.flags SCRIPT_VERIFY_DISCOURAGE_UPGRADABLE_NOPS then
        .error ScriptError.DISCOURAGE_UPGRADABLE_NOPS else .ok st)
      (if hasFlag f SCRIPT_VERIFY_DISCOURAGE_UPGRADABLE_NOPS then
        .error ScriptError.DISCOURAGE_UPGRADABLE_NOPS else .ok st) := by
    apply Restricts.guard _ (Restricts.refl _)
    intro h
    rw [hnop] at h
    cases h
  unfold evalOpcode
  cases OpcodeType.ofByte opcode with
  | none => exact Restricts.refl _
  | some op =>
    cases op with
    | OP_CHECKLOCKTIMEVERIFY => exact checkLockTimeVerify_restricts hsub hnop st
    | OP_NOP1 | OP_NOP3 | OP_NOP4 | OP_NOP5 | OP_NOP6 | OP_NOP7 | OP_NOP8 | OP_NOP9 | OP_NOP10 => exact hspare
    | OP_PICK => exact pick_restricts hsub false st
    | OP_ROLL => exact pick_restricts hsub true st
    | OP_1ADD | OP_1SUB | OP_NEGATE | OP_ABS | OP_NOT | OP_0NOTEQUAL => exact evalUnary_restricts hsub _ st
    | OP_ADD | OP_SUB | OP_BOOLAND | OP_BOOLOR | OP_NUMEQUAL | OP_NUMNOTEQUAL | OP_LESSTHAN | OP_GREATERTHAN
    | OP_LESSTHANOREQUAL | OP_GREATERTHANOREQUAL | OP_MIN | OP_MAX => exact evalBinary_restricts hsub _ false st
    | OP_NUMEQUALVERIFY => exact evalBinary_restricts hsub _ true st
    | OP_WITHIN => exact within_restricts hsub st
    | OP_CHECKSIG => exact checkSigOp_restricts hsub false st
    | OP_CHECKSIGVERIFY => exact checkSigOp_restricts hsub true st
    | OP_CHECKMULTISIG => exact checkMultiSigOp_restricts hsub false st
    | OP_CHECKMULTISIGVERIFY => exact checkMultiSigOp_restricts hsub true st
    | _ => exact Restricts.refl _

variable (hnop : hasFlag f SCRIPT_VERIFY_DISCOURAGE_UPGRADABLE_NOPS = false)

include hnop

theorem evalInstruction_restricts (opcode : UInt8) (vchPushValue : Valtype) (pc : List UInt8) (st : EvalState) :
    Restricts (env.evalInstruction opcode vchPushValue pc st)
      ((env.withFlags f).evalInstruction opcode vchPushValue pc st) := by
  unfold evalInstruction
  apply Restricts.ite
  · intro _
    apply guard_restricts hsub
    exact Restricts.refl _
  · intro _
    apply Restricts.ite
    · intro _
      exact evalOpcode_restricts hsub hnop opcode pc st
    · intro _
      exact Restricts.refl _

theorem evalStep_restricts (st : EvalState) (pc : List UInt8) :
    Restricts (env.evalStep st pc) ((env.withFlags f).evalStep st pc) := by
  unfold evalStep
  split
  · exact Restricts.refl _
  · apply Restricts.guard id
    apply Restricts.guard id
    apply Restricts.guard id
    apply Restricts.bind (evalInstruction_restricts hsub hnop _ _ _ _)
    intro st₁
    exact Restricts.refl _

theorem evalLoop_restricts (fuel : Nat) : ∀ (st : EvalState) (pc : List UInt8),
    Restricts (env.evalLoop fuel st pc) ((env.withFlags f).evalLoop fuel st pc) := by
  induction fuel with
  | zero =>
    intro st pc
    cases pc with
    | nil => exact Restricts.refl _
    | cons b pc => exact Restricts.of_error _ _
  | succ fuel ih =>
    intro st pc
    cases pc with
    | nil => exact Restricts.refl _
    | cons b pc =>
      apply Restricts.bind (evalStep_restricts hsub hnop st (b :: pc))
      intro r
      exact ih r.1 r.2

theorem evalScript_restricts (stack : List Valtype) :
    Restricts (env.evalScript stack) ((env.withFlags f).evalScript stack) := by
  unfold evalScript
  apply Restricts.guard id
  apply Restricts.bind (evalLoop_restricts hsub hnop _ _ _)
  intro st
  exact Restricts.refl _

end Relaxed

end EvalEnv

/-! ## Scripts -/

section Verify

variable {f g : UInt32}

theorem verifyScript_restricts (hsub : FlagsSubset f g)
    (hnop : hasFlag f SCRIPT_VERIFY_DISCOURAGE_UPGRADABLE_NOPS = false) (checkLowS : Valtype → Bool)
    (scriptSig scriptPubKey : CScript) (checker : SignatureChecker) :
    Restricts (verifyScript checkLowS scriptSig scriptPubKey g checker)
      (verifyScript checkLowS scriptSig scriptPubKey f checker) := by
  have heval : ∀ (script : CScript) (stack : List Valtype),
      Restricts (EvalEnv.evalScript ⟨checkLowS, g, checker, script⟩ stack)
        (EvalEnv.evalScript ⟨checkLowS, f, checker, script⟩ stack) := fun script stack =>
    @EvalEnv.evalScript_restricts ⟨checkLowS, g, checker, script⟩ f hsub hnop stack
  unfold verifyScript
  apply Restricts.guard
  · intro hf
    rw [Bool.and_eq_true] at hf ⊢
    exact ⟨hasFlag_mono hsub hf.1, hf.2⟩
  apply Restricts.bind (heval _ _)
  intro stackCopy
  apply Restricts.bind (heval _ _)
  intro stack
  apply Restricts.bind (Restricts.refl _)
  intro _
  -- the second script, of a payment to a script hash
  cases hp2sh : hasFlag f SCRIPT_VERIFY_P2SH && scriptPubKey.isPayToScriptHash with
  | false =>
    intro r h
    cases r
    simp
  | true =>
    have hg : (hasFlag g SCRIPT_VERIFY_P2SH && scriptPubKey.isPayToScriptHash) = true := by
      rw [Bool.and_eq_true] at hp2sh ⊢
      exact ⟨hasFlag_mono hsub hp2sh.1, hp2sh.2⟩
    rw [hg, if_pos rfl, if_pos rfl]
    apply Restricts.guard id
    split
    · exact Restricts.refl _
    · apply Restricts.bind (heval _ _)
      intro stack'
      exact Restricts.refl _

end Verify

/-! ## The two looks of `AcceptToMemoryPool` -/

def MANDATORY_SCRIPT_VERIFY_FLAGS : UInt32 := SCRIPT_VERIFY_P2SH

def STANDARD_SCRIPT_VERIFY_FLAGS : UInt32 :=
  MANDATORY_SCRIPT_VERIFY_FLAGS ||| SCRIPT_VERIFY_DERSIG ||| SCRIPT_VERIFY_STRICTENC ||| SCRIPT_VERIFY_MINIMALDATA |||
    SCRIPT_VERIFY_NULLDUMMY ||| SCRIPT_VERIFY_DISCOURAGE_UPGRADABLE_NOPS

/-- `MANDATORY_SCRIPT_VERIFY_FLAGS` and `STANDARD_SCRIPT_VERIFY_FLAGS` as `AcceptToMemoryPool` uses them. -/
def withCLTV (flags : UInt32) (fCLTVIsActivated : Bool) : UInt32 :=
  if fCLTVIsActivated then flags ||| SCRIPT_VERIFY_CHECKLOCKTIMEVERIFY else flags

/-- What the check of scripts takes from the libraries of signatures. -/
structure ScriptEnv where
  checkLowS : Valtype → Bool
  /-- `CachingTransactionSignatureChecker`, for an input of a transaction. -/
  checker : CTransaction → Nat → SignatureChecker

/-- `CScriptCheck`. -/
def ScriptEnv.scriptCheck (scripts : ScriptEnv) (view : CoinsView) (tx : CTransaction) (flags : UInt32)
    (input : CTxIn × Nat) : Bool :=
  let scriptPubKey := ((view.coins input.1.prevout.hash).out input.1.prevout.n).scriptPubKey
  (verifyScript scripts.checkLowS input.1.scriptSig scriptPubKey flags (scripts.checker tx input.2)).toBool

/-- `CheckInputs` with the scripts. -/
def ConnectEnv.checkInputScripts (env : ConnectEnv) (scripts : ScriptEnv) (view : CoinsView) (nSpendHeight : Int)
    (tx : CTransaction) (flags : UInt32) : Bool :=
  if !tx.isCoinBase && !tx.hasZerocoinSpendInputs then
    env.checkInputs view nSpendHeight tx && tx.vin.zipIdx.all (scripts.scriptCheck view tx flags)
  else true

/-- Where the end of `AcceptToMemoryPool` goes. -/
inductive ScriptStage where
  /-- "ConnectInputs failed". -/
  | connectInputsFailed
  /-- "BUG! PLEASE REPORT THIS! ConnectInputs failed against MANDATORY but not STANDARD flags". -/
  | bug
  | stored
deriving DecidableEq, Repr

/-- The end of `AcceptToMemoryPool`, from the flags on. -/
def ConnectEnv.acceptScripts (env : ConnectEnv) (scripts : ScriptEnv) (view : CoinsView) (nSpendHeight : Int)
    (tx : CTransaction) (fCLTVIsActivated : Bool) : ScriptStage :=
  if !env.checkInputScripts scripts view nSpendHeight tx (withCLTV STANDARD_SCRIPT_VERIFY_FLAGS fCLTVIsActivated) then
    .connectInputsFailed
  else if !env.checkInputScripts scripts view nSpendHeight tx (withCLTV MANDATORY_SCRIPT_VERIFY_FLAGS fCLTVIsActivated)
  then .bug
  else .stored

theorem mandatory_subset_standard (fCLTVIsActivated : Bool) :
    FlagsSubset (withCLTV MANDATORY_SCRIPT_VERIFY_FLAGS fCLTVIsActivated)
      (withCLTV STANDARD_SCRIPT_VERIFY_FLAGS fCLTVIsActivated) := by
  cases fCLTVIsActivated <;> decide

theorem mandatory_spare (fCLTVIsActivated : Bool) :
    hasFlag (withCLTV MANDATORY_SCRIPT_VERIFY_FLAGS fCLTVIsActivated) SCRIPT_VERIFY_DISCOURAGE_UPGRADABLE_NOPS =
      false := by
  cases fCLTVIsActivated <;> decide

section Accept

variable {f g : UInt32} {env : ConnectEnv} {scripts : ScriptEnv} {view : CoinsView} {nSpendHeight : Int} {tx : CTransaction}

theorem scriptCheck_mono (hsub : FlagsSubset f g)
    (hnop : hasFlag f SCRIPT_VERIFY_DISCOURAGE_UPGRADABLE_NOPS = false) {input : CTxIn × Nat}
    (h : scripts.scriptCheck view tx g input = true) : scripts.scriptCheck view tx f input = true := by
  unfold ScriptEnv.scriptCheck at h ⊢
  dsimp only at h ⊢
  cases hg : verifyScript scripts.checkLowS input.1.scriptSig
      ((view.coins input.1.prevout.hash).out input.1.prevout.n).scriptPubKey g (scripts.checker tx input.2) with
  | error e =>
    rw [hg] at h
    cases h
  | ok u =>
    rw [verifyScript_restricts hsub hnop _ _ _ _ u hg]
    rfl

theorem checkInputScripts_mono (hsub : FlagsSubset f g)
    (hnop : hasFlag f SCRIPT_VERIFY_DISCOURAGE_UPGRADABLE_NOPS = false)
    (h : env.checkInputScripts scripts view nSpendHeight tx g = true) :
    env.checkInputScripts scripts view nSpendHeight tx f = true := by
  unfold ConnectEnv.checkInputScripts at h ⊢
  split at h
  · rename_i hspends
    rw [Bool.and_eq_true, List.all_eq_true] at h
    rw [if_pos hspends, Bool.and_eq_true, List.all_eq_true]
    refine ⟨h.1, ?_⟩
    intro input hmem
    exact scriptCheck_mono hsub hnop (h.2 input hmem)
  · rename_i hspends
    rw [if_neg hspends]

theorem acceptScripts_ne_bug (fCLTVIsActivated : Bool) :
    env.acceptScripts scripts view nSpendHeight tx fCLTVIsActivated ≠ .bug := by
  unfold ConnectEnv.acceptScripts
  split
  · simp
  · rename_i hstandard
    simp only [Bool.not_eq_true', Bool.not_eq_false] at hstandard
    have hmandatory := checkInputScripts_mono (mandatory_subset_standard fCLTVIsActivated)
      (mandatory_spare fCLTVIsActivated) hstandard
    simp [hmandatory]

end Accept

/-- What succeeds with more flags succeeds with less of them, unless these are the flag about spare opcodes, so that
`AcceptToMemoryPool` never finds that the mandatory flags fail where the standard ones did not. -/
theorem verifyScript_flags (checkLowS : Valtype → Bool) {f g : UInt32} (scriptSig scriptPubKey : CScript)
    (checker : SignatureChecker) (hsub : FlagsSubset f g)
    (hnop : hasFlag f SCRIPT_VERIFY_DISCOURAGE_UPGRADABLE_NOPS = false)
    (h : verifyScript checkLowS scriptSig scriptPubKey g checker = .ok ()) :
    verifyScript checkLowS scriptSig scriptPubKey f checker = .ok () ∧
      ∀ (env : ConnectEnv) (scripts : ScriptEnv) (view : CoinsView) (nSpendHeight : Int) (tx : CTransaction)
        (fCLTVIsActivated : Bool), env.acceptScripts scripts view nSpendHeight tx fCLTVIsActivated ≠ .bug :=
  ⟨verifyScript_restricts hsub hnop checkLowS scriptSig scriptPubKey checker () h,
    fun _ _ _ _ _ fCLTVIsActivated => acceptScripts_ne_bug fCLTVIsActivated⟩

/-- A checker that refuses everything. -/
def noChecker : SignatureChecker := ⟨fun _ _ _ => false, fun _ => false, fun _ => false⟩

/-- `1 1 ADD` against `2 EQUAL`, with the standard flags and with the mandatory one. -/
theorem verifyScript_flags_sum :
    verifyScript (fun _ => true) [0x51, 0x51, 0x93] [0x52, 0x87] MANDATORY_SCRIPT_VERIFY_FLAGS noChecker = .ok () ∧
      ∀ (env : ConnectEnv) (scripts : ScriptEnv) (view : CoinsView) (nSpendHeight : Int) (tx : CTransaction)
        (fCLTVIsActivated : Bool), env.acceptScripts scripts view nSpendHeight tx fCLTVIsActivated ≠ .bug :=
  verifyScript_flags (fun _ => true) [0x51, 0x51, 0x93] [0x52, 0x87] noChecker (mandatory_subset_standard false)
    (mandatory_spare false) (by decide)

end DigiWage
