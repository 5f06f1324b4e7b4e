import DigiWage.Script.Checked

/-!
# The limits of the interpreter

* `Sized`: what each opcode keeps. An element that is new on the stack is a push of at most 520 bytes, a number, a hash or a
  truth value.
* `limits_of_evalStep`: a turn that does not end the run keeps the limits; `evalScript_safe`: so does a run, and its accesses
  are in range.
-/

namespace DigiWage

open CScript Lib

/-- Elements that are not too large. -/
def Small (stack : List Valtype) : Prop := ∀ vch ∈ stack, vch.length ≤ EvalEnv.maxScriptElementSize

/-- What an opcode keeps. -/
structure Sized (st : EvalState) : Prop where
  stack : Small st.stack
  altstack : Small st.altstack
  nOpCount : st.nOpCount ≤ 201

/-- The limits between two turns. -/
structure Limits (st : EvalState) : Prop extends Sized st where
  size : st.stack.length + st.altstack.length ≤ 1000

/-! ## New elements -/

theorem CScriptNum.length_absBytes (fuel n : Nat) : (absBytes fuel n).length ≤ fuel := by
  induction fuel generalizing n with
  | zero => exact Nat.le_refl 0
  | succ fuel ih =>
    rw [absBytes]
    split
    · exact Nat.zero_le _
    · exact Nat.succ_le_succ (ih _)

theorem CScriptNum.length_serialize (value : Int) : (serialize value).length ≤ 9 := by
  have hlen := length_absBytes 8 value.natAbs
  simp only [serialize]
  split
  · exact Nat.zero_le 9
  · split
    · rw [List.length_append, List.length_singleton]
      omega
    · split
      · rw [List.length_append, List.length_singleton, List.length_dropLast]
        omega
      · omega

theorem length_ofBool (fValue : Bool) : (ofBool fValue).length ≤ 1 := by
  cases fValue <;> decide

namespace Small

variable {stack : List Valtype} {vch : Valtype}

theorem cons (h : vch.length ≤ 520) (hstack : Small stack) : Small (vch :: stack) := List.forall_mem_cons.mpr ⟨h, hstack⟩

theorem head (h : Small (vch :: stack)) : vch.length ≤ 520 := h vch List.mem_cons_self

theorem tail (h : Small (vch :: stack)) : Small stack := fun v hv => h v (List.mem_cons_of_mem _ hv)

theorem number (value : Int) (hstack : Small stack) : Small (CScriptNum.serialize value :: stack) :=
  cons (Nat.le_trans (CScriptNum.length_serialize value) (by omega)) hstack

theorem bool (fValue : Bool) (hstack : Small stack) : Small (ofBool fValue :: stack) :=
  cons (Nat.le_trans (length_ofBool fValue) (by omega)) hstack

theorem of_subset {stack' : List Valtype} (h : Small stack) (hsub : stack' ⊆ stack) : Small stack' :=
  fun v hv => h v (hsub hv)

theorem stackOp {op : OpcodeType} {stack' : List Valtype} (h : Small stack) (hop : stackOp op stack = some stack') :
    Small stack' := by
  have hhash {n : Nat} {hash : List UInt8 → List UInt8} (hlen : ∀ data, (hash data).length = n) (hn : n ≤ 520)
      (x : Valtype) (s : List Valtype) (hs : Small (x :: s)) : Small (hash x :: s) :=
    cons (by rw [hlen]; exact hn) hs.tail
  cases op with
  | OP_2DROP =>
    rcases stack with _ | ⟨x2, _ | ⟨x1, s⟩⟩ <;> cases hop
    exact h.tail.tail
  | OP_2DUP =>
    rcases stack with _ | ⟨x2, _ | ⟨x1, s⟩⟩ <;> cases hop
    exact cons h.head (cons h.tail.head h)
  | OP_3DUP =>
    rcases stack with _ | ⟨x3, _ | ⟨x2, _ | ⟨x1, s⟩⟩⟩ <;> cases hop
    exact cons h.head (cons h.tail.head (cons h.tail.tail.head h))
  | OP_2OVER =>
    rcases stack with _ | ⟨x4, _ | ⟨x3, _ | ⟨x2, _ | ⟨x1, s⟩⟩⟩⟩ <;> cases hop
    exact cons h.tail.tail.head (cons h.tail.tail.tail.head h)
  | OP_2ROT =>
    rcases stack with _ | ⟨x6, _ | ⟨x5, _ | ⟨x4, _ | ⟨x3, _ | ⟨x2, _ | ⟨x1, s⟩⟩⟩⟩⟩⟩ <;> cases hop
    refine h.of_subset fun v hv => ?_
    simp only [List.mem_cons] at hv ⊢
    tauto
  | OP_2SWAP =>
    rcases stack with _ | ⟨x4, _ | ⟨x3, _ | ⟨x2, _ | ⟨x1, s⟩⟩⟩⟩ <;> cases hop
    refine h.of_subset fun v hv => ?_
    simp only [List.mem_cons] at hv ⊢
    tauto
  | OP_IFDUP =>
    rcases stack with _ | ⟨x, s⟩
    · cases hop
    · have hstack' : (if castToBool x then x :: x :: s else x :: s) = stack' := Option.some.inj hop
      rw [← hstack']
      split
      · exact cons h.head h
      · exact h
  | OP_DEPTH =>
    cases hop
    exact number _ h
  | OP_DROP =>
    rcases stack with _ | ⟨x, s⟩ <;> cases hop
    exact h.tail
  | OP_DUP =>
    rcases stack with _ | ⟨x, s⟩ <;> cases hop
    exact cons h.head h
  | OP_NIP =>
    rcases stack with _ | ⟨x2, _ | ⟨x1, s⟩⟩ <;> cases hop
    exact cons h.head h.tail.tail
  | OP_OVER =>
    rcases stack with _ | ⟨x2, _ | ⟨x1, s⟩⟩ <;> cases hop
    exact cons h.tail.head h
  | OP_ROT =>
    rcases stack with _ | ⟨x3, _ | ⟨x2, _ | ⟨x1, s⟩⟩⟩ <;> cases hop
    refine h.of_subset fun v hv => ?_
    simp only [List.mem_cons] at hv ⊢
    tauto
  | OP_SWAP =>
    rcases stack with _ | ⟨x2, _ | ⟨x1, s⟩⟩ <;> cases hop
    exact cons h.tail.head (cons h.head h.tail.tail)
  | OP_TUCK =>
    rcases stack with _ | ⟨x2, _ | ⟨x1, s⟩⟩ <;> cases hop
    exact cons h.head (cons h.tail.head (cons h.head h.tail.tail))
  | OP_SIZE =>
    rcases stack with _ | ⟨x, s⟩ <;> cases hop
    exact number _ h
  | OP_RIPEMD160 =>
    rcases stack with _ | ⟨x, s⟩ <;> cases hop
    exact hhash length_ripemd160 (by omega) x s h
  | OP_SHA1 =>
    rcases stack with _ | ⟨x, s⟩ <;> cases hop
    exact hhash length_sha1 (by omega) x s h
  | OP_SHA256 =>
    rcases stack with _ | ⟨x, s⟩ <;> cases hop
    exact hhash length_sha256 (by omega) x s h
  | OP_HASH160 =>
    rcases stack with _ | ⟨x, s⟩ <;> cases hop
    exact hhash (fun data => length_ripemd160 (sha256 data)) (by omega) x s h
  | OP_HASH256 =>
    rcases stack with _ | ⟨x, s⟩ <;> cases hop
    exact hhash (fun data => length_sha256 (sha256 data)) (by omega) x s h
  | _ => cases hop

end Small

/-! ## Opcodes -/

namespace EvalEnv

variable {env : EvalEnv} {st : EvalState}

theorem verified_sized {fVerify fValue : Bool} {vch : Valtype} {error : ScriptError} (h : Sized st)
    (hvch : vch.length ≤ 520) : Ensures (verified st fVerify fValue vch error) Sized := by
  unfold verified
  exact .ite (fun _ => .ok ⟨h.stack.cons hvch, h.altstack, h.nOpCount⟩) fun _ => .ite (fun _ => .ok h) fun _ => .error _

theorem checkLockTimeVerify_sized (h : Sized st) : Ensures (env.checkLockTimeVerify st) Sized := by
  unfold checkLockTimeVerify
  refine .ite (fun _ => .ite (fun _ => .error _) fun _ => .ok h) fun _ => ?_
  cases st.stack with
  | nil => exact .error _
  | cons top s =>
    exact .bind fun _ _ => .ite (fun _ => .error _) fun _ => .ite (fun _ => .error _) fun _ => .ok h

theorem beginIf_sized (fNot : Bool) (h : Sized st) : Ensures (beginIf fNot st) Sized := by
  unfold beginIf
  refine .ite (fun _ => .ok ⟨h.stack, h.altstack, h.nOpCount⟩) fun _ => ?_
  cases hstack : st.stack with
  | nil => exact .error _
  | cons vch s =>
    have hsmall := h.stack
    rw [hstack] at hsmall
    exact .ok ⟨hsmall.tail, h.altstack, h.nOpCount⟩

theorem pick_sized (fRoll : Bool) (h : Sized st) : Ensures (env.pick fRoll st) Sized := by
  unfold pick
  rcases hstack : st.stack with _ | ⟨top, _ | ⟨x, s⟩⟩
  · exact .error _
  · exact .error _
  · have hsmall := h.stack
    rw [hstack] at hsmall
    refine .bind fun num _ => .ite (fun _ => .error _) fun hrange => .ok ⟨?_, h.altstack, h.nOpCount⟩
    generalize CScriptNum.getint num = n at hrange
    have hlt : n.toNat < (x :: s).length := by omega
    refine Small.cons ?_ ?_
    · rw [List.getD_eq_getElem?_getD, List.getElem?_eq_getElem hlt, Option.getD_some]
      exact hsmall.tail _ (List.getElem_mem hlt)
    · cases fRoll with
      | false => exact hsmall.tail
      | true => exact hsmall.tail.of_subset (List.eraseIdx_subset)

theorem equal_sized (fVerify : Bool) (h : Sized st) : Ensures (equal fVerify st) Sized := by
  unfold equal
  rcases hstack : st.stack with _ | ⟨vch2, _ | ⟨vch1, s⟩⟩
  · exact .error _
  · exact .error _
  · have hsmall := h.stack
    rw [hstack] at hsmall
    exact verified_sized ⟨hsmall.tail.tail, h.altstack, h.nOpCount⟩ (Nat.le_trans (length_ofBool _) (by omega))

theorem evalUnary_sized (op : OpcodeType) (h : Sized st) : Ensures (env.evalUnary op st) Sized := by
  unfold evalUnary
  cases hstack : st.stack with
  | nil => exact .error _
  | cons top s =>
    have hsmall := h.stack
    rw [hstack] at hsmall
    exact .bind fun bn _ => .ok ⟨hsmall.tail.number _, h.altstack, h.nOpCount⟩

theorem evalBinary_sized (op : OpcodeType) (fVerify : Bool) (h : Sized st) : Ensures (env.evalBinary op fVerify st) Sized := by
  unfold evalBinary
  rcases hstack : st.stack with _ | ⟨x2, _ | ⟨x1, s⟩⟩
  · exact .error _
  · exact .error _
  · have hsmall := h.stack
    rw [hstack] at hsmall
    exact .bind fun bn1 _ => .bind fun bn2 _ => verified_sized ⟨hsmall.tail.tail, h.altstack, h.nOpCount⟩
      (Nat.le_trans (CScriptNum.length_serialize _) (by omega))

theorem within_sized (h : Sized st) : Ensures (env.within st) Sized := by
  unfold within
  rcases hstack : st.stack with _ | ⟨x3, _ | ⟨x2, _ | ⟨x1, s⟩⟩⟩
  · exact .error _
  · exact .error _
  · exact .error _
  · have hsmall := h.stack
    rw [hstack] at hsmall
    exact .bind fun bn1 _ => .bind fun bn2 _ => .bind fun bn3 _ =>
      .ok ⟨hsmall.tail.tail.tail.bool _, h.altstack, h.nOpCount⟩

theorem checkSigOp_sized (fVerify : Bool) (h : Sized st) : Ensures (env.checkSigOp fVerify st) Sized := by
  unfold checkSigOp
  rcases hstack : st.stack with _ | ⟨vchPubKey, _ | ⟨vchSig, s⟩⟩
  · exact .error _
  · exact .error _
  · have hsmall := h.stack
    rw [hstack] at hsmall
    exact .bind fun _ _ => .bind fun _ _ => verified_sized ⟨hsmall.tail.tail, h.altstack, h.nOpCount⟩
      (Nat.le_trans (length_ofBool _) (by omega))

theorem checkMultiSigOp_sized (fVerify : Bool) (h : Sized st) : Ensures (env.checkMultiSigOp fVerify st) Sized := by
  unfold checkMultiSigOp
  cases hstack : st.stack with
  | nil => exact .error _
  | cons top s =>
    have hsmall := h.stack
    rw [hstack] at hsmall
    refine .bind fun num _ => .ite (fun _ => .error _) fun _ => .ite (fun _ => .error _) fun hcount => ?_
    generalize (CScriptNum.getint num).toNat = nKeys at hcount
    cases hkeys : s.drop nKeys with
    | nil => exact .error _
    | cons sigTop s' =>
      have hrest : Small s' := by
        have hdrop : Small (s.drop nKeys) := hsmall.tail.of_subset (List.drop_subset _ _)
        rw [hkeys] at hdrop
        exact hdrop.tail
      refine .bind fun num' _ => .ite (fun _ => .error _) fun _ => .ite (fun _ => .error _) fun _ => .bind fun _ _ => ?_
      cases hdummy : s'.drop (CScriptNum.getint num').toNat with
      | nil => exact .error _
      | cons dummy s'' =>
        have hend : Small s'' := by
          have hdrop : Small (s'.drop (CScriptNum.getint num').toNat) := hrest.of_subset (List.drop_subset _ _)
          rw [hdummy] at hdrop
          exact hdrop.tail
        exact .ite (fun _ => .error _) fun _ => verified_sized ⟨hend, h.altstack, Nat.not_lt.mp hcount⟩
          (Nat.le_trans (length_ofBool _) (by omega))

theorem evalOpcode_sized (opcode : UInt8) (pc : List UInt8) (h : Sized st) : Ensures (env.evalOpcode opcode pc st) Sized := by
  have hstackOp {op : OpcodeType} {s : List Valtype} (hop : stackOp op st.stack = some s) : Sized { st with stack := s } :=
    ⟨h.stack.stackOp hop, h.altstack, h.nOpCount⟩
  have hnumber (value : Int) : Sized (st.push (CScriptNum.serialize value)) :=
    ⟨h.stack.number value, h.altstack, h.nOpCount⟩
  unfold evalOpcode
  cases OpcodeType.ofByte opcode with
  | none => exact .error _
  | some op =>
    cases op with
    | OP_1NEGATE | OP_1 | OP_2 | OP_3 | OP_4 | OP_5 | OP_6 | OP_7 | OP_8 | OP_9 | OP_10 | OP_11 | OP_12 | OP_13 | OP_14
    | OP_15 | OP_16 => exact .ok (hnumber _)
    | OP_NOP => exact .ok h
    | OP_CHECKLOCKTIMEVERIFY => exact checkLockTimeVerify_sized h
    | OP_NOP1 | OP_NOP3 | OP_NOP4 | OP_NOP5 | OP_NOP6 | OP_NOP7 | OP_NOP8 | OP_NOP9 | OP_NOP10 =>
      exact .ite (fun _ => .error _) fun _ => .ok h
    | OP_IF => exact beginIf_sized false h
    | OP_NOTIF => exact beginIf_sized true h
    | OP_ELSE =>
      cases st.vfExec with
      | nil => exact .error _
      | cons fValue vfExec => exact .ok ⟨h.stack, h.altstack, h.nOpCount⟩
    | OP_ENDIF =>
      cases st.vfExec with
      | nil => exact .error _
      | cons fValue vfExec => exact .ok ⟨h.stack, h.altstack, h.nOpCount⟩
    | OP_VERIFY =>
      cases hstack : st.stack with
      | nil => exact .error _
      | cons vch s =>
        have hsmall := h.stack
        rw [hstack] at hsmall
        exact .ite (fun _ => .ok ⟨hsmall.tail, h.altstack, h.nOpCount⟩) fun _ => .error _
    | OP_TOALTSTACK =>
      cases hstack : st.stack with
      | nil => exact .error _
      | cons vch s =>
        have hsmall := h.stack
        rw [hstack] at hsmall
        exact .ok ⟨hsmall.tail, h.altstack.cons hsmall.head, h.nOpCount⟩
    | OP_FROMALTSTACK =>
      cases hstack : st.altstack with
      | nil => exact .error _
      | cons vch s =>
        have hsmall := h.altstack
        rw [hstack] at hsmall
        exact .ok ⟨h.stack.cons hsmall.head, hsmall.tail, h.nOpCount⟩
    | OP_2DROP | OP_2DUP | OP_3DUP | OP_2OVER | OP_2ROT | OP_2SWAP | OP_IFDUP | OP_DROP | OP_DUP | OP_NIP | OP_OVER
    | OP_ROT | OP_SWAP | OP_TUCK | OP_SIZE | OP_RIPEMD160 | OP_SHA1 | OP_SHA256 | OP_HASH160 | OP_HASH256 | OP_DEPTH =>
      dsimp only
      split
      · exact .error _
      · rename_i hop
        exact .ok (hstackOp hop)
    | OP_PICK => exact pick_sized false h
    | OP_ROLL => exact pick_sized true h
    | OP_EQUAL => exact equal_sized false h
    | OP_EQUALVERIFY => exact equal_sized true h
    | OP_1ADD | OP_1SUB | OP_NEGATE | OP_ABS | OP_NOT | OP_0NOTEQUAL => exact evalUnary_sized _ h
    | OP_ADD | OP_SUB | OP_BOOLAND | OP_BOOLOR | OP_NUMEQUAL | OP_NUMNOTEQUAL | OP_LESSTHAN | OP_GREATERTHAN
    | OP_LESSTHANOREQUAL | OP_GREATERTHANOREQUAL | OP_MIN | OP_MAX => exact evalBinary_sized _ false h
    | OP_NUMEQUALVERIFY => exact evalBinary_sized _ true h
    | OP_WITHIN => exact within_sized h
    | OP_CODESEPARATOR => exact .ok ⟨h.stack, h.altstack, h.nOpCount⟩
    | OP_CHECKSIG => exact checkSigOp_sized false h
    | OP_CHECKSIGVERIFY => exact checkSigOp_sized true h
    | OP_CHECKMULTISIG => exact checkMultiSigOp_sized false h
    | OP_CHECKMULTISIGVERIFY => exact checkMultiSigOp_sized true h
    | OP_CHECKCOLDSTAKEVERIFY => exact .ite (fun _ => .error _) fun _ => .ok h
    | _ => exact .error _

/-! ## Turns and runs -/

theorem limits_of_evalStep {pc : List UInt8} (h : Limits st) :
    Ensures (env.evalStep st pc) fun next => Limits next.1 := by
  unfold evalStep
  cases getOp2 pc with
  | none => exact .error _
  | some x =>
    obtain ⟨opcode, vchPushValue, rest⟩ := x
    refine .ite (fun _ => .error _) fun hpush => .ite (fun _ => .error _) fun hcount => .ite (fun _ => .error _) fun _ => ?_
    have hcounted : Sized (counted opcode st) := by
      unfold counted at hcount ⊢
      split
      · rename_i hop
        rw [if_pos hop] at hcount
        exact ⟨h.stack, h.altstack, Nat.not_lt.mp fun hlt => hcount ⟨hop, hlt⟩⟩
      · exact h.toSized
    have hins : Ensures (env.evalInstruction opcode vchPushValue rest (counted opcode st)) Sized := by
      unfold evalInstruction
      refine .ite (fun _ => .ite (fun _ => .error _) fun _ => .ok ?_) fun _ =>
        .ite (fun _ => evalOpcode_sized opcode rest hcounted) fun _ => .ok hcounted
      exact ⟨hcounted.stack.cons (Nat.not_lt.mp hpush), hcounted.altstack, hcounted.nOpCount⟩
    exact .bind fun st' hst' => .ite (fun _ => .error _) fun hsize => .ok ⟨hins st' hst', Nat.not_lt.mp hsize⟩

/-- The states between the turns of a run of `EvalScript`. -/
inductive Reached (env : EvalEnv) (stack : List Valtype) : EvalState → List UInt8 → Prop where
  | start : Reached env stack ⟨stack, [], [], 0, env.script.bytes⟩ env.script.bytes
  | turn {st st' : EvalState} {pc rest : List UInt8} (h : Reached env stack st pc)
      (hstep : env.evalStepAt st pc = .ok (st', rest)) : Reached env stack st' rest

/-- `EvalScript` stays within its limits. -/
structure EvalSafe (env : EvalEnv) (stack : List Valtype) : Prop where
  -- it ends, and as the model without positions does
  ends : Matches EvalStop.error? (env.evalScriptAt stack) (env.evalScript stack)
  noFault : ∀ stop, env.evalScriptAt stack = .error stop → stop = .scriptnum_error ∨ ∃ error, stop = .set_error error
  limits : ∀ st pc, Reached env stack st pc → Limits st

theorem evalScript_safe (env : EvalEnv) (stack : List Valtype) (hsize : stack.length ≤ 1000)
    (hsmall : ∀ vch ∈ stack, vch.length ≤ 520) : EvalSafe env stack := by
  have hends := evalScriptAt_matches env stack
  refine ⟨hends, ?_, ?_⟩
  · intro stop hstop
    cases stop with
    | set_error error => exact .inr ⟨error, rfl⟩
    | scriptnum_error => exact .inl rfl
    | out_of_range => exact absurd hstop (hends.no_fault rfl)
    | assertion => exact absurd hstop (hends.no_fault rfl)
    | out_of_rounds => exact absurd hstop (hends.no_fault rfl)
  · intro st pc h
    induction h with
    | start =>
      have hempty : Small [] := by
        rintro vch ⟨⟩
      exact ⟨⟨hsmall, hempty, Nat.zero_le _⟩, hsize⟩
    | turn _ hstep ih => exact limits_of_evalStep ih _ ((evalStepAt_matches _ _).ok_iff.mp hstep)

/-- A checker that takes the signatures of the key 3, and a script that checks one for a key that the input chooses. -/
def branchEnv : EvalEnv :=
  ⟨fun _ => true, 0, ⟨fun _ vchPubKey _ => decide (vchPubKey = [3]), fun _ => false, fun _ => false⟩,
    ([OP_IF] ++ push [2] ++ [OP_ELSE] ++ push [3] ++ [OP_ENDIF, OP_CHECKSIG] : List UInt8)⟩

theorem evalScript_safe_branch : EvalSafe branchEnv [[], [9, 1]] ∧ branchEnv.evalScriptAt [[], [9, 1]] = .ok [[1]] :=
  ⟨evalScript_safe branchEnv [[], [9, 1]] (by decide) (by decide), rfl⟩

end EvalEnv

end DigiWage
