import DigiWage.Primitives
import DigiWage.Lib.Trim

/-!
# Coins

`CCoins` of `coins.h`, the pruned version of a transaction: its flags, height, version and unspent outputs. A spent
output is null, and null outputs at the end of `vout` are dropped.

`CTxInUndo` of `undo.h` keeps what `Spend` takes away: the output, and the metadata as well when the last unspent
output goes.

* `Clean` is the form in which coins are kept: trimmed, with `CTxOut()` as the only null output.
* `out c n` is the output that `c` shows at `n`; clean coins with the same metadata and outputs are equal
  (`Clean.ext`).
* `spend_some_iff` says once what `Spend` does.
-/

namespace DigiWage

structure CCoins where
  fCoinBase : Bool
  fCoinStake : Bool
  vout : List CTxOut
  nHeight : Int32
  nVersion : Int32
deriving DecidableEq, Repr

structure CTxInUndo where
  txout : CTxOut
  fCoinBase : Bool
  fCoinStake : Bool
  nHeight : UInt32
  nVersion : Int32
deriving DecidableEq, Repr

namespace CCoins

/-- `CCoins()`. -/
def empty : CCoins := ⟨false, false, [], 0, 0⟩

def clear (_ : CCoins) : CCoins := empty

/-- `CCoins::Cleanup`: remove spent outputs at the end of `vout`. -/
def cleanup (c : CCoins) : CCoins := { c with vout := c.vout.rdropWhile CTxOut.isNull }

def clearUnspendable (c : CCoins) : CCoins :=
  cleanup { c with vout := c.vout.map fun o => if o.scriptPubKey.isUnspendable then o.setNull else o }

def fromTx (tx : CTransaction) (nHeightIn : Int32) : CCoins :=
  clearUnspendable ⟨tx.isCoinBase, tx.isCoinStake, tx.vout, nHeightIn, tx.nVersion⟩

/-- `CCoins::IsPruned`: the entire `CCoins` is spent. -/
def isPruned (c : CCoins) : Bool := c.vout.all CTxOut.isNull

def isAvailable (c : CCoins) (nPos : Nat) : Bool :=
  match c.vout[nPos]? with
  | none => false
  | some o => !o.isNull && !o.isZerocoinMint

/-- `operator==`: empty `CCoins` objects are always equal. -/
def beq (a b : CCoins) : Bool :=
  if a.isPruned && b.isPruned then true
  else a.fCoinBase == b.fCoinBase && a.fCoinStake == b.fCoinStake && a.nHeight == b.nHeight &&
    a.nVersion == b.nVersion && a.vout == b.vout

/-- The coins that `Spend` leaves. -/
def spent (c : CCoins) (n : Nat) : CCoins := cleanup { c with vout := c.vout.set n CTxOut.null }

/-- `CCoins::Spend`: mark an outpoint spent, and construct undo information. -/
def spend (c : CCoins) (out : COutPoint) : Option (CTxInUndo × CCoins) :=
  match c.vout[out.n]? with
  | none => none
  | some o =>
    if o.isNull then none
    else
      let c' := c.spent out.n
      some (if c'.vout.length = 0 then ⟨o, c.fCoinBase, c.fCoinStake, c.nHeight.toUInt32, c.nVersion⟩
        else ⟨o, false, false, 0, 0⟩, c')

/-- The output shown at position `n`; a null output beyond the end. -/
def out (c : CCoins) (n : Nat) : CTxOut := c.vout.getD n CTxOut.null

/-- The form in which coins are kept. -/
structure Clean (c : CCoins) : Prop where
  trimmed : Lib.Trimmed CTxOut.isNull c.vout
  canon : Lib.Canon CTxOut.isNull CTxOut.null c.vout

/-! ## Clean coins -/

@[simp] theorem cleanup_fCoinBase (c : CCoins) : c.cleanup.fCoinBase = c.fCoinBase := rfl
@[simp] theorem cleanup_fCoinStake (c : CCoins) : c.cleanup.fCoinStake = c.fCoinStake := rfl
@[simp] theorem cleanup_nHeight (c : CCoins) : c.cleanup.nHeight = c.nHeight := rfl
@[simp] theorem cleanup_nVersion (c : CCoins) : c.cleanup.nVersion = c.nVersion := rfl

@[simp] theorem isPruned_empty : empty.isPruned = true := rfl
@[simp] theorem cleanup_empty : empty.cleanup = empty := rfl
@[simp] theorem out_empty (n : Nat) : empty.out n = CTxOut.null := by simp [out, empty]

theorem clean_empty : empty.Clean := ⟨rfl, by simp [Lib.Canon, empty]⟩

theorem clean_cleanup {c : CCoins} (hc : Lib.Canon CTxOut.isNull CTxOut.null c.vout) : c.cleanup.Clean :=
  ⟨Lib.trimmed_rdropWhile _, hc.rdropWhile⟩

theorem Clean.cleanup_eq {c : CCoins} (hc : c.Clean) : c.cleanup = c := by
  have h : c.vout.rdropWhile CTxOut.isNull = c.vout := hc.trimmed
  simp [cleanup, h]

theorem out_cleanup {c : CCoins} (hc : Lib.Canon CTxOut.isNull CTxOut.null c.vout) (n : Nat) :
    c.cleanup.out n = c.out n := Lib.getD_rdropWhile hc n

theorem isPruned_cleanup (c : CCoins) : c.cleanup.isPruned = c.isPruned := by
  have h : ∀ l : List CTxOut, (l.rdropWhile CTxOut.isNull).all CTxOut.isNull = l.all CTxOut.isNull := by
    intro l
    induction l using List.reverseRecOn with
    | nil => rfl
    | append_singleton l o ih =>
      rw [List.rdropWhile_concat]
      split
      · rename_i ho
        rw [ih, List.all_append, List.all_cons, ho]; simp
      · rfl
  exact h c.vout

theorem isPruned_iff (c : CCoins) : c.isPruned = true ↔ ∀ n, (c.out n).isNull = true :=
  Lib.all_iff_getD rfl c.vout

theorem Clean.vout_eq_nil {c : CCoins} (hc : c.Clean) (h : c.isPruned = true) : c.vout = [] := hc.trimmed.eq_nil h

theorem Clean.length_eq_zero {c : CCoins} (hc : c.Clean) : c.vout.length = 0 ↔ c.isPruned = true := by
  refine ⟨fun h => ?_, fun h => by rw [hc.vout_eq_nil h]; rfl⟩
  simp [isPruned, List.length_eq_zero_iff.mp h]

theorem Clean.out_eq_null {c : CCoins} (hc : c.Clean) {n : Nat} (h : (c.out n).isNull = true) :
    c.out n = CTxOut.null := by
  unfold out at h ⊢
  rcases Nat.lt_or_ge n c.vout.length with hn | hn
  · rw [List.getD_eq_getElem _ _ hn] at h ⊢
    exact hc.canon _ (List.getElem_mem hn) h
  · exact List.getD_eq_default _ _ hn

theorem Clean.ext {a b : CCoins} (ha : a.Clean) (hb : b.Clean) (h1 : a.fCoinBase = b.fCoinBase)
    (h2 : a.fCoinStake = b.fCoinStake) (h3 : a.nHeight = b.nHeight) (h4 : a.nVersion = b.nVersion)
    (h5 : ∀ n, a.out n = b.out n) : a = b := by
  have hv : a.vout = b.vout := Lib.Trimmed.ext rfl ha.trimmed hb.trimmed h5
  cases a; cases b
  simp only at h1 h2 h3 h4 hv
  subst h1 h2 h3 h4 hv
  rfl

theorem out_of_getElem? {c : CCoins} {n : Nat} {o : CTxOut} (h : c.vout[n]? = some o) : c.out n = o := by
  simp [out, List.getD_eq_getElem?_getD, h]

theorem getElem?_of_out {c : CCoins} {n : Nat} (h : (c.out n).isNull = false) : c.vout[n]? = some (c.out n) := by
  unfold out at h ⊢
  rw [List.getD_eq_getElem?_getD] at h ⊢
  cases hg : c.vout[n]? with
  | none => rw [hg] at h; simp at h
  | some o => rfl

theorem isAvailable_iff {c : CCoins} {n : Nat} :
    c.isAvailable n = true ↔ (c.out n).isNull = false ∧ (c.out n).isZerocoinMint = false := by
  unfold isAvailable
  constructor
  · intro h
    cases hg : c.vout[n]? with
    | none => rw [hg] at h; cases h
    | some o => rw [hg] at h; rw [out_of_getElem? hg]; simpa using h
  · rintro ⟨h1, h2⟩
    rw [getElem?_of_out h1]
    simp [h1, h2]

theorem not_isPruned_of_out {c : CCoins} {n : Nat} (h : (c.out n).isNull = false) : c.isPruned = false := by
  by_contra hp
  rw [Bool.not_eq_false, isPruned_iff] at hp
  rw [hp n] at h
  cases h

/-! ## `operator==` -/

theorem beq_of_isPruned {a b : CCoins} (ha : a.isPruned = true) (hb : b.isPruned = true) : beq a b = true := by
  simp [beq, ha, hb]

theorem beq_refl (a : CCoins) : beq a a = true := by simp [beq]

theorem beq_true_iff {a b : CCoins} (h : a.isPruned = false ∨ b.isPruned = false) : beq a b = true ↔ a = b := by
  have hp : (a.isPruned && b.isPruned) = false := by
    rcases h with h | h <;> simp [h]
  simp only [beq, hp, Bool.false_eq_true, ↓reduceIte, Bool.and_eq_true, beq_iff_eq]
  constructor
  · rintro ⟨⟨⟨⟨h1, h2⟩, h3⟩, h4⟩, h5⟩
    cases a; cases b
    simp_all
  · rintro rfl
    simp

/-! ## Spending an output -/

theorem Clean.spent {c : CCoins} (hc : c.Clean) (n : Nat) : (c.spent n).Clean :=
  clean_cleanup (hc.canon.set n fun _ => rfl)

theorem Clean.out_spent {c : CCoins} (hc : c.Clean) {n : Nat} (hn : (c.out n).isNull = false) (i : Nat) :
    (c.spent n).out i = if i = n then CTxOut.null else c.out i := by
  have hlt : n < c.vout.length := (List.getElem?_eq_some_iff.mp (getElem?_of_out hn)).1
  unfold CCoins.spent
  rw [out_cleanup (hc.canon.set n fun _ => rfl)]
  exact Lib.getD_set hlt _ i

@[simp] theorem spent_fCoinBase (c : CCoins) (n : Nat) : (c.spent n).fCoinBase = c.fCoinBase := rfl
@[simp] theorem spent_fCoinStake (c : CCoins) (n : Nat) : (c.spent n).fCoinStake = c.fCoinStake := rfl
@[simp] theorem spent_nHeight (c : CCoins) (n : Nat) : (c.spent n).nHeight = c.nHeight := rfl
@[simp] theorem spent_nVersion (c : CCoins) (n : Nat) : (c.spent n).nVersion = c.nVersion := rfl

/-- What is recorded when output `n` is spent. -/
def undoOf (c : CCoins) (n : Nat) : CTxInUndo :=
  if (c.spent n).vout.length = 0 then ⟨c.out n, c.fCoinBase, c.fCoinStake, c.nHeight.toUInt32, c.nVersion⟩
  else ⟨c.out n, false, false, 0, 0⟩

theorem spend_some_iff {c : CCoins} {o : COutPoint} {r : CTxInUndo × CCoins} :
    c.spend o = some r ↔ (c.out o.n).isNull = false ∧ r = (c.undoOf o.n, c.spent o.n) := by
  unfold spend
  cases hg : c.vout[o.n]? with
  | none =>
    have : c.out o.n = CTxOut.null := by simp [out, List.getD_eq_getElem?_getD, hg]
    simp [this]
  | some x =>
    have hx : c.out o.n = x := out_of_getElem? hg
    cases hnull : x.isNull with
    | true => simp [hx, hnull]
    | false =>
      simp only [Bool.false_eq_true, ↓reduceIte, Option.some.injEq, hx, hnull, true_and]
      constructor
      · rintro rfl; simp [undoOf, hx]
      · rintro rfl; simp [undoOf, hx]

/-! ## Coins of a new transaction -/

theorem canon_clear {l : List CTxOut} (hl : ∀ o ∈ l, 0 ≤ o.nValue) :
    Lib.Canon CTxOut.isNull CTxOut.null
      (l.map fun o => if o.scriptPubKey.isUnspendable then o.setNull else o) := by
  intro x hx hn
  obtain ⟨o, ho, rfl⟩ := List.mem_map.mp hx
  by_cases hu : o.scriptPubKey.isUnspendable = true
  · simp [hu, CTxOut.setNull]
  · simp only [hu, Bool.false_eq_true, ↓reduceIte, CTxOut.isNull, beq_iff_eq] at hn
    have := hl o ho
    omega

theorem clean_fromTx {tx : CTransaction} (h : ∀ o ∈ tx.vout, 0 ≤ o.nValue) (nHeight : Int32) :
    (fromTx tx nHeight).Clean := clean_cleanup (canon_clear h)

theorem clearUnspendable_of_clean {c : CCoins} (hc : c.Clean)
    (hs : ∀ o ∈ c.vout, o.scriptPubKey.isUnspendable = false) : c.clearUnspendable = c := by
  have hmap : (c.vout.map fun o => if o.scriptPubKey.isUnspendable then o.setNull else o) = c.vout := by
    conv_rhs => rw [← List.map_id c.vout]
    exact List.map_congr_left fun o ho => by simp [hs o ho]
  unfold clearUnspendable
  rw [hmap]
  exact hc.cleanup_eq

theorem spendable_fromTx (tx : CTransaction) (nHeight : Int32) :
    ∀ o ∈ (fromTx tx nHeight).vout, o.scriptPubKey.isUnspendable = false := by
  intro o ho
  obtain ⟨x, -, rfl⟩ := List.mem_map.mp ((List.rdropWhile_prefix _ _).subset ho)
  by_cases hu : x.scriptPubKey.isUnspendable = true
  · simp [hu, CTxOut.setNull]
  · simp [hu]

end CCoins

end DigiWage
