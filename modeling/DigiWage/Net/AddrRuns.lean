import DigiWage.Net.AddrSafe

/-!
# Runs of the address manager

Any sequence of the operations, on a manager that was constructed, with a key for each construction and each `Clear`, the
random numbers and the times as part of the operations.
-/

namespace DigiWage.Net

open Lib

/-- The operations of the address manager. -/
inductive AddrOp where
  | add (addr : CAddress) (source : CNetAddr) (nTimePenalty nNow nNow' : Int64) (nRandom : Nat)
  | good (addr : CService) (nTime : Int64) (nRnd : Nat)
  | attempt (addr : CService) (fCountFailure : Bool) (nTime : Int64)
  | connected (addr : CService) (nTime : Int64)
  | clear (randHash : Uint256)
  | unserialize (k : StreamKind) (s : Stream) (randHash : Uint256)

namespace AddrOp

/-- An operation on the manager, `none` where an assertion fails or the stream throws. -/
def step (env : AddrEnv) (m : CAddrMan) : AddrOp → Option CAddrMan
  | .add addr source nTimePenalty nNow nNow' nRandom => (m.add env addr source nTimePenalty nNow nNow' nRandom).map Prod.fst
  | .good addr nTime nRnd => m.good env addr nTime nRnd
  | .attempt addr fCountFailure nTime => some (m.attempt addr fCountFailure nTime)
  | .connected addr nTime => some (m.connected addr nTime)
  | .clear randHash => some (m.clear randHash)
  | .unserialize k s randHash => (m.unserialize env k randHash s).map Prod.fst

/-- What the callers see to: times are positive, and a file that is loaded was written by a consistent manager. -/
def Proper (env : AddrEnv) : AddrOp → Prop
  | .add _ _ _ nNow nNow' _ => 0 < nNow ∧ 0 < nNow'
  | .good _ nTime _ => 0 < nTime
  | .attempt _ _ nTime => 0 < nTime
  | .connected _ nTime => 0 < nTime
  | .clear _ => True
  | .unserialize k s _ => ∃ saved : CAddrMan, saved.check env = .ok () ∧ ∃ bytes rest, saved.serialize k = some bytes ∧
      s = bytes ++ rest

/-- The manager that is cleared or loaded has no entries, the key that `Clear` draws is not zero, and an id is left for
`Add`. -/
def Fresh (m : CAddrMan) : AddrOp → Prop
  | .add .. => m.nIdCount < 2 ^ 31 - 1
  | .good .. => True
  | .attempt .. => True
  | .connected .. => True
  | .clear randHash => m.mapInfo = ∅ ∧ randHash ≠ 0
  | .unserialize .. => m.mapInfo = ∅

end AddrOp

namespace CAddrMan

/-! ## Saving and loading -/

/-- Loading loses nothing of what was saved. -/
theorem unserialize_saved (env : AddrEnv) (m : CAddrMan) (h : check env m = .ok ()) (k : StreamKind) :
    ∃ bytes, m.serialize k = some bytes ∧ ∀ r randHash rest, ∃ m' φ,
      unserialize env k randHash (new r) (bytes ++ rest) = some (m', rest) ∧ Renamed k φ m m' := by
  obtain ⟨bytes, hbytes, hload⟩ := ((check_eq_ok_iff env m).mp h).unserialize_serialize k
  refine ⟨bytes, hbytes, fun r randHash rest => ?_⟩
  obtain ⟨m', hread, hrenamed, -⟩ := hload randHash (new r) rest rfl rfl
  exact ⟨m', m.number, hread, hrenamed⟩

/-- An address for the examples, 8.8.8.8 with the port 46003. -/
def exampleAddress : CAddress := ⟨⟨⟨CNetAddr.pchIPv4 ++ [8, 8, 8, 8], rfl⟩, 46003⟩, 1, 1000⟩

/-- A hash for the examples: the length of the data. -/
def lengthEnv : AddrEnv := ⟨fun data => UInt64.ofNat data.length⟩

theorem whole_new (env : AddrEnv) {r : Uint256} (hr : r ≠ 0) : Whole env (new r) := whole_clear r hr rfl rfl

theorem unserialize_saved_one : ∃ m fNew, (new 1).add lengthEnv exampleAddress default 0 1000 1000 0 = some (m, fNew) ∧
    ∃ bytes, m.serialize ⟨2, 70000⟩ = some bytes ∧ ∀ r randHash rest, ∃ m' φ,
      unserialize lengthEnv ⟨2, 70000⟩ randHash (new r) (bytes ++ rest) = some (m', rest) ∧ Renamed ⟨2, 70000⟩ φ m m' := by
  obtain ⟨m, fNew, hadd, hwhole⟩ := add_spec (whole_new lengthEnv (by decide : (1 : Uint256) ≠ 0)) (by decide)
    exampleAddress default 0 1000 1000 0
  exact ⟨m, fNew, hadd, unserialize_saved lengthEnv m ((check_eq_ok_iff _ m).mpr hwhole.checked) ⟨2, 70000⟩⟩

/-! ## Runs -/

theorem step_spec {env : AddrEnv} {m : CAddrMan} {op : AddrOp} (h : Whole env m) (hproper : op.Proper env)
    (hfresh : op.Fresh m) : ∃ m', op.step env m = some m' ∧ Whole env m' := by
  cases op with
  | add addr source nTimePenalty nNow nNow' nRandom =>
    obtain ⟨m', fNew, hadd, hwhole⟩ := add_spec h hfresh addr source nTimePenalty nNow nNow' nRandom
    exact ⟨m', by rw [AddrOp.step, hadd]; rfl, hwhole⟩
  | good addr nTime nRnd => exact good_spec h addr hproper nRnd
  | attempt addr fCountFailure nTime => exact ⟨_, rfl, attempt_spec h addr fCountFailure hproper⟩
  | connected addr nTime => exact ⟨_, rfl, connected_spec h addr nTime⟩
  | clear randHash =>
    exact ⟨_, rfl, whole_clear randHash hfresh.2 hfresh.1 (h.index.mapAddr_eq_empty hfresh.1)⟩
  | unserialize k s randHash =>
    obtain ⟨saved, hcheck, bytes, rest, hbytes, rfl⟩ := hproper
    have hchecked := (check_eq_ok_iff env saved).mp hcheck
    obtain ⟨bytes', hbytes', hload⟩ := hchecked.unserialize_serialize k
    cases hbytes.symm.trans hbytes'
    obtain ⟨m', hread, hrenamed, hi⟩ := hload randHash m rest hfresh (h.index.mapAddr_eq_empty hfresh)
    exact ⟨m', by rw [AddrOp.step, hread]; rfl, hrenamed.whole hchecked hi⟩

/-- What a manager must satisfy after each operation: `Check_` finds nothing, and no assertion of `Serialize` fails. -/
def Sound (env : AddrEnv) (m : CAddrMan) : Prop := m.check env = .ok () ∧ ∀ k, m.serialize k ≠ none

theorem Whole.sound {env : AddrEnv} {m : CAddrMan} (h : Whole env m) : Sound env m := by
  refine ⟨(check_eq_ok_iff env m).mpr h.checked, fun k hnone => ?_⟩
  rw [h.checked.serialize_eq k] at hnone
  cases hnone

/-- In a run that clears and loads only managers without entries, every operation passes its assertions, and every state
is sound. -/
theorem run_checked (env : AddrEnv) (randHash : Uint256) (hr : randHash ≠ 0) (ops : List AddrOp)
    (hproper : ∀ op ∈ ops, op.Proper env)
    (hfresh : Meets (AddrOp.step env) (fun m op => op.Fresh m) (new randHash) ops) :
    ∀ pre rest, ops = pre ++ rest → ∃ m, pre.foldlM (AddrOp.step env) (new randHash) = some m ∧ Sound env m := by
  rintro pre rest rfl
  have hmeets : Meets (AddrOp.step env) (fun m op => op.Fresh m ∧ op.Proper env) (new randHash) pre :=
    hfresh.of_append_left.and (.of_forall fun op hop _ => hproper op (List.mem_append_left rest hop))
  obtain ⟨m, hrun, hwhole⟩ := hmeets.exists_run (fun m op h hop => step_spec h hop.2 hop.1) (whole_new env hr)
  exact ⟨m, hrun, hwhole.sound⟩

theorem run_checked_good : ∃ m, [AddrOp.clear 2, .add exampleAddress default 0 1000 1000 0,
    .good exampleAddress.toCService 1001 5, .attempt exampleAddress.toCService true 1002,
    .connected exampleAddress.toCService 1003].foldlM (AddrOp.step lengthEnv) (new 1) = some m ∧ Sound lengthEnv m := by
  refine run_checked lengthEnv 1 (by decide) _ ?_ ?_ _ [] (List.append_nil _).symm
  · simp [AddrOp.Proper]
  · refine .cons ((new 1).clear 2) ⟨rfl, by decide⟩ rfl ⟨show (0 : Int) < 2 ^ 31 - 1 by decide, fun _ _ => ?_⟩
    refine .of_forall fun op hop m => ?_
    simp only [List.mem_cons, List.not_mem_nil, or_false] at hop
    rcases hop with rfl | rfl | rfl <;> exact trivial

/-- Every run of proper operations keeps the manager sound. -/
def StaysChecked (env : AddrEnv) : Prop :=
  ∀ (randHash : Uint256) (ops : List AddrOp), (∀ op ∈ ops, op.Proper env) →
    ∃ m, ops.foldlM (AddrOp.step env) (new randHash) = some m ∧ Sound env m

/-- An address is added, and the manager is cleared. -/
theorem not_staysChecked : ¬ StaysChecked lengthEnv := by
  intro h
  obtain ⟨m1, fNew, hadd, hwhole⟩ := add_spec (whole_new lengthEnv (by decide : (1 : Uint256) ≠ 0)) (by decide)
    exampleAddress default 0 1000 1000 0
  have hentry : ((new 1).add lengthEnv exampleAddress default 0 1000 1000 0).map (fun r => decide (0 ∈ r.1.mapInfo)) =
      some true := by decide
  obtain ⟨m, hrun, hcheck, -⟩ := h 1 [.add exampleAddress default 0 1000 1000 0, .clear 2]
    (by simp [AddrOp.Proper])
  obtain ⟨m1', hstep, hrun⟩ := foldlM_cons_some hrun
  rw [AddrOp.step, hadd] at hstep
  cases hstep
  cases hrun
  rw [hadd, Option.map_some, Option.some.injEq, decide_eq_true_eq] at hentry
  have hempty := ((clear_checked_iff hwhole.index 2).mp ((check_eq_ok_iff lengthEnv _).mp hcheck)).1
  rw [hempty] at hentry
  exact Finmap.notMem_empty hentry

end CAddrMan

end DigiWage.Net
