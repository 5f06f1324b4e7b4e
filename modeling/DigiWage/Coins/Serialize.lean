import DigiWage.Coins.Basic
import DigiWage.Coins.Compressor

/-!
# Serialization of coins

`CCoins::Serialize` and `CCoins::Unserialize` of `coins.h`: the version, a code that packs the two flags, whether the
first two outputs are unspent and the number of non-zero bytes of the mask, the mask of the further outputs without its
trailing zero bytes, the unspent outputs in their compact form, and the height.

* `calcMaskSize_spec` says once what `CalcMaskSize` returns, and `readMask_append` that the decoder recovers the mask
  from the number of its non-zero bytes.
* `serialize_canon`: the bytes do not depend on `nRounds`, nor on what a spent output holds beside its value.
-/

namespace DigiWage

namespace CCoins

/-- `i < vout.size() && !vout[i].IsNull()`. -/
def isUnspent (c : CCoins) (i : Nat) : Bool := (c.vout[i]?).any fun o => !o.isNull

/-- The number of mask bytes that `CalcMaskSize` looks at: those `b` with `2 + b * 8 < vout.size()`. -/
def maskBlocks (c : CCoins) : Nat := (c.vout.length - 2 + 7) / 8

/-- `fZero` of `CalcMaskSize` for byte `b`. -/
def fZero (c : CCoins) (b : Nat) : Bool := (List.range 8).all fun i => !c.isUnspent (2 + b * 8 + i)

/-- One round of `CalcMaskSize`, on `nLastUsedByte` and `nNonzeroBytes`. -/
def maskStep (c : CCoins) (r : Nat × Nat) (b : Nat) : Nat × Nat := if c.fZero b then r else (b + 1, r.2 + 1)

/-- `CCoins::CalcMaskSize`: the bytes of the mask, and the non-zero ones among them. -/
def calcMaskSize (c : CCoins) : Nat × Nat := (List.range c.maskBlocks).foldl c.maskStep (0, 0)

/-- `chAvail` of `Serialize` for byte `b`. -/
def chAvail (c : CCoins) (b : Nat) : UInt8 :=
  (List.range 8).foldl (fun ch i => if c.isUnspent (2 + b * 8 + i) then ch ||| UInt8.ofNat (1 <<< i) else ch) 0

/-- `nCode` of `Serialize`, an `unsigned int`. -/
def nCode (c : CCoins) : Nat :=
  (16 * (c.calcMaskSize.2 - if c.isUnspent 0 || c.isUnspent 1 then 0 else 1) + c.fCoinBase.toNat +
    2 * c.fCoinStake.toNat + 4 * (c.isUnspent 0).toNat + 8 * (c.isUnspent 1).toNat) % 2 ^ 32

/-- The unspent outputs, as `Serialize` writes them. -/
def outBytes (env : PubKeyEnv) (l : List CTxOut) : List UInt8 :=
  (l.filter fun o => !o.isNull).flatMap (CTxOutCompressor.serialize env)

/-- `CCoins::Serialize`; `none` when its assertion fails. -/
def serialize (env : PubKeyEnv) (c : CCoins) : Option (List UInt8) :=
  if c.isUnspent 0 || c.isUnspent 1 || c.calcMaskSize.2 != 0 then
    some (writeVarInt c.nVersion.toInt ++ (writeVarInt (c.nCode : Nat) ++
      ((List.range c.calcMaskSize.1).map c.chAvail ++ (outBytes env c.vout ++ writeVarInt c.nHeight.toInt))))
  else none

/-- The availability bits of a mask byte. -/
def availBits (ch : UInt8) : List Bool := (List.range 8).map fun p => ch &&& UInt8.ofNat (1 <<< p) != 0

/-- The loop of `Unserialize` over the mask, with `nMaskCode` non-zero bytes still to come. -/
def readMask : Nat → Stream → Option (List Bool × Stream)
  | 0, s => some ([], s)
  | _ + 1, [] => none
  | k + 1, ch :: s => (readMask (if ch != 0 then k else k + 1) s).map fun r => (availBits ch ++ r.1, r.2)

/-- The loop of `Unserialize` over the outputs. -/
def readOuts (env : PubKeyEnv) : List Bool → Stream → Option (List CTxOut × Stream)
  | [], s => some ([], s)
  | false :: v, s => (readOuts env v s).map fun r => (CTxOut.null :: r.1, r.2)
  | true :: v, s => do
    let (o, s) ← CTxOutCompressor.unserialize env s
    (readOuts env v s).map fun r => (o :: r.1, r.2)

def unserialize (env : PubKeyEnv) (s : Stream) : Option (CCoins × Stream) := do
  let (nVersion, s) ← readVarInt 32 s
  let (nCode, s) ← readVarInt 32 s
  let nMaskCode := nCode / 16 + if nCode.testBit 2 || nCode.testBit 3 then 0 else 1
  let (mask, s) ← readMask nMaskCode s
  let (vout, s) ← readOuts env (nCode.testBit 2 :: nCode.testBit 3 :: mask) s
  let (nHeight, s) ← readVarInt 32 s
  some (cleanup ⟨nCode.testBit 0, nCode.testBit 1, vout, Int32.ofInt nHeight, Int32.ofInt nVersion⟩, s)

/-! ## The mask -/

theorem isUnspent_eq (c : CCoins) (i : Nat) : c.isUnspent i = !(c.out i).isNull := by
  unfold isUnspent out
  rw [List.getD_eq_getElem?_getD]
  cases c.vout[i]? with
  | none => rfl
  | some o => rfl

theorem lt_of_isUnspent {c : CCoins} {i : Nat} (h : c.isUnspent i = true) : i < c.vout.length := by
  by_contra hge
  rw [isUnspent, List.getElem?_eq_none (by omega)] at h
  cases h

theorem foldl_maskStep (c : CCoins) (n : Nat) :
    let r := (List.range n).foldl c.maskStep (0, 0)
    r.2 = (List.range n).countP (fun b => !c.fZero b) ∧ r.1 ≤ n ∧ (∀ b < n, c.fZero b = false → b < r.1) ∧
      (0 < r.1 → c.fZero (r.1 - 1) = false) := by
  induction n with
  | zero => simp
  | succ n ih =>
    obtain ⟨h1, h2, h3, h4⟩ := ih
    simp only [List.range_succ, List.foldl_append, List.foldl_cons, List.foldl_nil, List.countP_append,
      List.countP_cons, List.countP_nil]
    generalize (List.range n).foldl c.maskStep (0, 0) = r at h1 h2 h3 h4 ⊢
    unfold maskStep
    cases hz : c.fZero n with
    | true =>
      refine ⟨by simp [h1], by simpa using Nat.le_succ_of_le h2, fun b hb hf => ?_, by simpa using h4⟩
      rcases Nat.lt_succ_iff_lt_or_eq.mp hb with hb | rfl
      · simpa using h3 b hb hf
      · rw [hz] at hf; cases hf
    | false =>
      refine ⟨by simp [h1], by simp, fun b hb _ => by simpa using hb, fun _ => by simpa using hz⟩

theorem calcMaskSize_spec (c : CCoins) :
    c.calcMaskSize.1 ≤ c.maskBlocks ∧ c.calcMaskSize.2 = (List.range c.calcMaskSize.1).countP (fun b => !c.fZero b) ∧
      (∀ b < c.maskBlocks, c.fZero b = false → b < c.calcMaskSize.1) ∧
      (0 < c.calcMaskSize.1 → c.fZero (c.calcMaskSize.1 - 1) = false) := by
  have hdef : (List.range c.maskBlocks).foldl c.maskStep (0, 0) = c.calcMaskSize := rfl
  obtain ⟨h1, h2, h3, h4⟩ := foldl_maskStep c c.maskBlocks
  rw [hdef] at h1 h2 h3 h4
  refine ⟨h2, ?_, h3, h4⟩
  have hsplit : List.range c.maskBlocks = List.range c.calcMaskSize.1 ++
      (List.range (c.maskBlocks - c.calcMaskSize.1)).map (c.calcMaskSize.1 + ·) := by
    rw [← List.range_add, Nat.add_sub_cancel' h2]
  have hrest : ((List.range (c.maskBlocks - c.calcMaskSize.1)).map (c.calcMaskSize.1 + ·)).countP
      (fun b => !c.fZero b) = 0 := by
    rw [List.countP_eq_zero]
    intro b hb
    obtain ⟨i, hi, rfl⟩ := List.mem_map.mp hb
    have hlt := List.mem_range.mp hi
    intro hf
    have := h3 (c.calcMaskSize.1 + i) (by omega) (by simpa using hf)
    omega
  rw [h1, hsplit, List.countP_append, hrest, Nat.add_zero]

theorem ofBits_spec : ∀ b0 b1 b2 b3 b4 b5 b6 b7 : Bool,
    let ch := [b0, b1, b2, b3, b4, b5, b6, b7].zipIdx.foldl
      (fun ch r => if r.1 then ch ||| UInt8.ofNat (1 <<< r.2) else ch) (0 : UInt8)
    availBits ch = [b0, b1, b2, b3, b4, b5, b6, b7] ∧
      (ch = 0 ↔ [b0, b1, b2, b3, b4, b5, b6, b7].all (!·) = true) := by
  decide

theorem availBits_chAvail (c : CCoins) (b : Nat) :
    availBits (c.chAvail b) = (List.range 8).map fun i => c.isUnspent (2 + b * 8 + i) :=
  (ofBits_spec (c.isUnspent (2 + b * 8 + 0)) (c.isUnspent (2 + b * 8 + 1)) (c.isUnspent (2 + b * 8 + 2))
    (c.isUnspent (2 + b * 8 + 3)) (c.isUnspent (2 + b * 8 + 4)) (c.isUnspent (2 + b * 8 + 5))
    (c.isUnspent (2 + b * 8 + 6)) (c.isUnspent (2 + b * 8 + 7))).1

theorem chAvail_eq_zero (c : CCoins) (b : Nat) : c.chAvail b = 0 ↔ c.fZero b = true :=
  (ofBits_spec (c.isUnspent (2 + b * 8 + 0)) (c.isUnspent (2 + b * 8 + 1)) (c.isUnspent (2 + b * 8 + 2))
    (c.isUnspent (2 + b * 8 + 3)) (c.isUnspent (2 + b * 8 + 4)) (c.isUnspent (2 + b * 8 + 5))
    (c.isUnspent (2 + b * 8 + 6)) (c.isUnspent (2 + b * 8 + 7))).2

theorem readMask_append (s : Stream) : ∀ l : List UInt8, (∀ h : l ≠ [], l.getLast h ≠ 0) →
    readMask (l.countP (· != 0)) (l ++ s) = some (l.flatMap availBits, s)
  | [], _ => by simp [readMask]
  | ch :: l, hlast => by
    have hl : ∀ h : l ≠ [], l.getLast h ≠ 0 := fun h => by
      have := hlast (by simp)
      rwa [List.getLast_cons h] at this
    have ih := readMask_append s l hl
    by_cases hch : ch = 0
    · -- a zero byte is not the last one, so a non-zero byte follows
      have hne : l ≠ [] := by
        rintro rfl
        exact hlast (by simp) (by simpa using hch)
      obtain ⟨k, hk⟩ : ∃ k, l.countP (· != 0) = k + 1 := by
        refine Nat.exists_eq_succ_of_ne_zero (Nat.pos_iff_ne_zero.mp (List.countP_pos_iff.mpr ?_))
        exact ⟨_, List.getLast_mem hne, by simpa using hl hne⟩
      rw [hk] at ih
      subst hch
      simp [hk, readMask, ih]
    · simp [hch, readMask, ih]

theorem fZero_of_isUnspent {c : CCoins} {i : Nat} (hi : 2 ≤ i) (h : c.isUnspent i = true) :
    c.fZero ((i - 2) / 8) = false := by
  by_contra hz
  rw [Bool.not_eq_false, fZero, List.all_eq_true] at hz
  have := hz ((i - 2) % 8) (List.mem_range.mpr (by omega))
  rw [show 2 + (i - 2) / 8 * 8 + (i - 2) % 8 = i by omega, h] at this
  cases this

theorem lt_calcMaskSize {c : CCoins} {i : Nat} (hi : 2 ≤ i) (h : c.isUnspent i = true) :
    (i - 2) / 8 < c.calcMaskSize.1 := by
  have hlt := lt_of_isUnspent h
  exact (calcMaskSize_spec c).2.2.1 _ (by unfold maskBlocks; omega) (fZero_of_isUnspent hi h)

theorem readMask_chAvail (c : CCoins) (s : Stream) :
    readMask c.calcMaskSize.2 ((List.range c.calcMaskSize.1).map c.chAvail ++ s) =
      some (((List.range c.calcMaskSize.1).map c.chAvail).flatMap availBits, s) := by
  obtain ⟨-, h1, -, h3⟩ := calcMaskSize_spec c
  have hcount : ((List.range c.calcMaskSize.1).map c.chAvail).countP (· != 0) = c.calcMaskSize.2 := by
    rw [h1, List.countP_map]
    refine List.countP_congr fun b _ => ?_
    simp [chAvail_eq_zero]
  rw [← hcount]
  refine readMask_append s _ fun hne => ?_
  have hpos : 0 < c.calcMaskSize.1 := by
    by_contra h0
    exact hne (by simp [Nat.eq_zero_of_not_pos h0])
  rw [List.getLast_map, List.getLast_range, Ne, chAvail_eq_zero, h3 hpos]
  simp

theorem avail_eq (c : CCoins) (m : Nat) :
    c.isUnspent 0 :: c.isUnspent 1 :: ((List.range m).map c.chAvail).flatMap availBits =
      (List.range (2 + 8 * m)).map c.isUnspent := by
  have h : ((List.range m).map c.chAvail).flatMap availBits =
      (List.range (8 * m)).map fun j => c.isUnspent (2 + j) := by
    induction m with
    | zero => rfl
    | succ m ih =>
      rw [List.range_succ, List.map_append, List.flatMap_append, ih, Nat.mul_succ, List.range_add, List.map_append]
      simp only [List.map_cons, List.map_nil, List.flatMap_cons, List.flatMap_nil, List.append_nil, availBits_chAvail,
        List.map_map]
      congr 1
      refine List.map_congr_left fun i _ => ?_
      simp only [Function.comp_apply]
      congr 1
      omega
  rw [h, List.range_add, List.map_append]
  simp [List.range_succ]

/-! ## The outputs -/

theorem map_out {c : CCoins} {n : Nat} (h : c.vout.length ≤ n) :
    (List.range n).map c.out = c.vout ++ List.replicate (n - c.vout.length) CTxOut.null := by
  refine List.ext_getElem (by simp; omega) fun i hi _ => ?_
  rw [List.getElem_map, List.getElem_range, out]
  rcases Nat.lt_or_ge i c.vout.length with hlt | hge
  · rw [List.getElem_append_left hlt, List.getD_eq_getElem _ _ hlt]
  · rw [List.getElem_append_right hge, List.getD_eq_default _ _ hge, List.getElem_replicate]

theorem outBytes_map_out (env : PubKeyEnv) {c : CCoins} {n : Nat} (h : c.vout.length ≤ n) :
    outBytes env ((List.range n).map c.out) = outBytes env c.vout := by
  rw [map_out h, outBytes, List.filter_append, List.filter_replicate]
  simp [outBytes]

theorem readOuts_append {env : PubKeyEnv} (henv : env.Inverts) (s : Stream) : ∀ l : List CTxOut,
    (∀ o ∈ l, o.isNull = true → o = CTxOut.null) → (∀ o ∈ l, o.isNull = false → CTxOutCompressor.Carried o) →
    readOuts env (l.map fun o => !o.isNull) (outBytes env l ++ s) = some (l, s)
  | [], _, _ => by simp [readOuts, outBytes]
  | o :: l, hnull, hok => by
    have ih := readOuts_append henv s l (fun o ho => hnull o (List.mem_cons_of_mem _ ho))
      fun o ho => hok o (List.mem_cons_of_mem _ ho)
    cases ho : o.isNull with
    | true =>
      have hbytes : outBytes env (o :: l) = outBytes env l := by simp [outBytes, ho]
      rw [hbytes, List.map_cons, ho, hnull o List.mem_cons_self ho]
      simp only [Bool.not_true, readOuts, ih, Option.map_some]
    | false =>
      have hbytes : outBytes env (o :: l) = CTxOutCompressor.serialize env o ++ outBytes env l := by
        simp [outBytes, ho]
      rw [hbytes, List.map_cons, ho, List.append_assoc]
      simp only [Bool.not_false, readOuts, CTxOutCompressor.unserialize_serialize henv (hok o List.mem_cons_self ho),
        Option.bind_eq_bind, Option.bind_some, ih, Option.map_some]

/-! ## The code -/

/-- `nCode` before it is cut to 32 bits. -/
def codeOf (k : Nat) (b0 b1 b2 b3 : Bool) : Nat := 16 * k + b0.toNat + 2 * b1.toNat + 4 * b2.toNat + 8 * b3.toNat

theorem codeOf_bits (k : Nat) (b0 b1 b2 b3 : Bool) :
    (codeOf k b0 b1 b2 b3).testBit 0 = b0 ∧ (codeOf k b0 b1 b2 b3).testBit 1 = b1 ∧
      (codeOf k b0 b1 b2 b3).testBit 2 = b2 ∧ (codeOf k b0 b1 b2 b3).testBit 3 = b3 ∧
      codeOf k b0 b1 b2 b3 / 16 = k := by
  unfold codeOf
  simp only [Nat.testBit_eq_decide_div_mod_eq]
  cases b0 <;> cases b1 <;> cases b2 <;> cases b3 <;>
    simp only [Bool.toNat_true, Bool.toNat_false, decide_eq_true_eq, decide_eq_false_iff_not] <;> omega

/-! ## Round trip -/

/-- The ranges of the format: some output is left, the last one is, the version and the height are not negative, and
the values and scripts of the unspent outputs are within their limits. -/
structure Storable (c : CCoins) : Prop where
  notPruned : c.isPruned = false
  last : ∃ o, c.vout.getLast? = some o ∧ o.isNull = false
  nVersion : 0 ≤ c.nVersion.toInt
  nHeight : 0 ≤ c.nHeight.toInt
  value : ∀ o ∈ c.vout, o.isNull = false → 0 ≤ o.nValue ∧ o.nValue ≤ CTxOutCompressor.maxMoney
  script : ∀ o ∈ c.vout, o.isNull = false → o.scriptPubKey.bytes.length ≤ CScript.maxScriptSize

/-- `Unserialize` on what `Serialize` wrote, followed by any further bytes, gives coins equal to `c` by `operator==`
and stops before these bytes. -/
def RoundTrips (env : PubKeyEnv) (c : CCoins) : Prop :=
  ∃ w, c.serialize env = some w ∧ ∀ s, ∃ c', unserialize env (w ++ s) = some (c', s) ∧ beq c' c = true

/-- The outputs are as the constructors of `CTxOut` and `SetNull` make them. -/
def Built (c : CCoins) : Prop :=
  ∀ o ∈ c.vout, o.nRounds = CTxOut.null.nRounds ∧ (o.isNull = true → o = CTxOut.null)

theorem Storable.isUnspent_last {c : CCoins} (h : c.Storable) :
    0 < c.vout.length ∧ c.isUnspent (c.vout.length - 1) = true := by
  obtain ⟨o, ho, hn⟩ := h.last
  rw [List.getLast?_eq_getElem?] at ho
  refine ⟨?_, by simp [isUnspent, ho, hn]⟩
  by_contra h0
  rw [List.getElem?_eq_none (by omega)] at ho
  cases ho

theorem Storable.length_le {c : CCoins} (h : c.Storable) : c.vout.length ≤ 2 + 8 * c.calcMaskSize.1 := by
  obtain ⟨h0, hlast⟩ := h.isUnspent_last
  by_cases h2 : 2 ≤ c.vout.length - 1
  · have := lt_calcMaskSize h2 hlast
    omega
  · omega

theorem Storable.assert {c : CCoins} (h : c.Storable) :
    (c.isUnspent 0 || c.isUnspent 1 || c.calcMaskSize.2 != 0) = true := by
  obtain ⟨h0, hlast⟩ := h.isUnspent_last
  by_cases h2 : 2 ≤ c.vout.length - 1
  · have hlt := lt_calcMaskSize h2 hlast
    have hz := fZero_of_isUnspent h2 hlast
    have hpos : 0 < c.calcMaskSize.2 := by
      rw [(calcMaskSize_spec c).2.1, List.countP_pos_iff]
      exact ⟨_, List.mem_range.mpr hlt, by simp [hz]⟩
    simp [Nat.pos_iff_ne_zero.mp hpos]
  · obtain h1 | h1 : c.vout.length - 1 = 0 ∨ c.vout.length - 1 = 1 := by omega
    · rw [h1] at hlast; simp [hlast]
    · rw [h1] at hlast; simp [hlast]

theorem nCode_eq {c : CCoins} (hlen : c.vout.length ≤ 2 ^ 31 - 6) :
    c.nCode = codeOf (c.calcMaskSize.2 - if c.isUnspent 0 || c.isUnspent 1 then 0 else 1) c.fCoinBase c.fCoinStake
      (c.isUnspent 0) (c.isUnspent 1) ∧ c.nCode < 2 ^ 32 := by
  obtain ⟨h1, h2, -⟩ := calcMaskSize_spec c
  have hle : c.calcMaskSize.2 ≤ c.calcMaskSize.1 := by
    rw [h2]
    exact List.countP_le_length.trans (by simp)
  have hb : c.maskBlocks ≤ 2 ^ 28 - 1 := by unfold maskBlocks; omega
  have hbit : ∀ b : Bool, b.toNat ≤ 1 := by decide
  have := hbit c.fCoinBase
  have := hbit c.fCoinStake
  have := hbit (c.isUnspent 0)
  have := hbit (c.isUnspent 1)
  refine ⟨Nat.mod_eq_of_lt (by omega), Nat.mod_lt _ (by omega)⟩

theorem ofInt_toNat {n : Int32} (h : 0 ≤ n.toInt) : Int32.ofInt (n.toInt.toNat : Int) = n := by
  rw [Int.toNat_of_nonneg h, Int32.ofInt_toInt]

theorem toNat_lt (n : Int32) : n.toInt.toNat < 2 ^ 32 := by
  have := n.toInt_lt
  omega

theorem Storable.clean {c : CCoins} (h : c.Storable) (hb : c.Built) : c.Clean := by
  refine ⟨List.rdropWhile_eq_self_iff.mpr fun hne => ?_, fun o ho => (hb o ho).2⟩
  obtain ⟨o, ho, hn⟩ := h.last
  rw [List.getLast?_eq_some_getLast hne, Option.some.injEq] at ho
  rw [ho, hn]
  simp

theorem Storable.cleanup_map_out {c : CCoins} (h : c.Storable) (hb : c.Built) :
    cleanup { c with vout := (List.range (2 + 8 * c.calcMaskSize.1)).map c.out } = c := by
  have hcanon : Lib.Canon CTxOut.isNull CTxOut.null ((List.range (2 + 8 * c.calcMaskSize.1)).map c.out) := by
    rw [map_out h.length_le]
    intro o ho hn
    rcases List.mem_append.mp ho with ho | ho
    · exact (hb o ho).2 hn
    · exact List.eq_of_mem_replicate ho
  refine Clean.ext (clean_cleanup hcanon) (h.clean hb) rfl rfl rfl rfl fun n => ?_
  rw [out_cleanup hcanon, map_out h.length_le]
  exact Lib.getD_append_replicate c.vout _ n

theorem unserialize_of_built {env : PubKeyEnv} (henv : env.Inverts) {c : CCoins} (h : c.Storable) (hb : c.Built)
    (hlen : c.vout.length ≤ 2 ^ 31 - 6) :
    ∃ w, c.serialize env = some w ∧ ∀ s, unserialize env (w ++ s) = some (c, s) := by
  refine ⟨_, if_pos h.assert, fun s => ?_⟩
  obtain ⟨hcode, hcode32⟩ := nCode_eq hlen
  obtain ⟨hb0, hb1, hb2, hb3, hdiv⟩ := codeOf_bits
    (c.calcMaskSize.2 - if c.isUnspent 0 || c.isUnspent 1 then 0 else 1) c.fCoinBase c.fCoinStake (c.isUnspent 0)
    (c.isUnspent 1)
  rw [← hcode] at hb0 hb1 hb2 hb3 hdiv
  have hver : c.nVersion.toInt = ((c.nVersion.toInt.toNat : Nat) : Int) := (Int.toNat_of_nonneg h.nVersion).symm
  have hhei : c.nHeight.toInt = ((c.nHeight.toInt.toNat : Nat) : Int) := (Int.toNat_of_nonneg h.nHeight).symm
  -- the number of mask bytes is one more than the code says when neither of the first two outputs is there
  have hmask : c.nCode / 16 + (if c.nCode.testBit 2 || c.nCode.testBit 3 then 0 else 1) = c.calcMaskSize.2 := by
    rw [hdiv, hb2, hb3]
    have hassert := h.assert
    split
    · omega
    · rename_i hf
      rw [Bool.not_eq_true] at hf
      rw [hf, Bool.false_or, bne_iff_ne] at hassert
      omega
  have hmap : (List.range (2 + 8 * c.calcMaskSize.1)).map c.isUnspent =
      ((List.range (2 + 8 * c.calcMaskSize.1)).map c.out).map fun o => !o.isNull := by
    rw [List.map_map]
    exact List.map_congr_left fun i _ => isUnspent_eq c i
  have hmem : ∀ o ∈ (List.range (2 + 8 * c.calcMaskSize.1)).map c.out, o ∈ c.vout ∨ o = CTxOut.null := by
    rw [map_out h.length_le]
    intro o ho
    rcases List.mem_append.mp ho with ho | ho
    · exact .inl ho
    · exact .inr (List.eq_of_mem_replicate ho)
  have houts := readOuts_append henv (writeVarInt c.nHeight.toInt ++ s)
    ((List.range (2 + 8 * c.calcMaskSize.1)).map c.out)
    (fun o ho hn => (hmem o ho).elim (fun hv => (hb o hv).2 hn) id)
    (fun o ho hn => by
      rcases hmem o ho with hv | rfl
      · exact ⟨(h.value o hv hn).1, (h.value o hv hn).2, h.script o hv hn, (hb o hv).1⟩
      · cases hn)
  rw [outBytes_map_out env h.length_le, ← hmap, ← avail_eq, ← hb2, ← hb3] at houts
  have hclean := h.cleanup_map_out hb
  simp only [List.append_assoc, unserialize]
  rw [hver, readVarInt_write _ (toNat_lt _)]
  simp only [Option.bind_eq_bind, Option.bind_some]
  rw [readVarInt_write _ hcode32]
  simp only [Option.bind_some]
  rw [hmask, readMask_chAvail]
  simp only [Option.bind_some]
  rw [houts, hhei]
  simp only [Option.bind_some]
  rw [readVarInt_write _ (toNat_lt _)]
  simp only [Option.bind_some, ofInt_toNat h.nVersion, ofInt_toNat h.nHeight, hb0, hb1]
  rw [hclean]

/-! ## What the format does not carry -/

/-- The output that the format carries in place of `o`. -/
def canonOut (o : CTxOut) : CTxOut := if o.isNull then CTxOut.null else { o with nRounds := CTxOut.null.nRounds }

/-- The coins that the format carries in place of `c`. -/
def canon (c : CCoins) : CCoins := { c with vout := c.vout.map canonOut }

@[simp] theorem isNull_canonOut (o : CTxOut) : (canonOut o).isNull = o.isNull := by
  unfold canonOut
  cases h : o.isNull with
  | true => simp
  | false => exact h

theorem isUnspent_canon (c : CCoins) : c.canon.isUnspent = c.isUnspent := by
  funext i
  simp only [isUnspent, canon, List.getElem?_map]
  cases c.vout[i]? with
  | none => rfl
  | some o => simp

theorem calcMaskSize_canon (c : CCoins) : c.canon.calcMaskSize = c.calcMaskSize := by
  have hz : c.canon.fZero = c.fZero := by funext b; simp only [fZero, isUnspent_canon]
  have hs : c.canon.maskStep = c.maskStep := by funext r b; simp only [maskStep, hz]
  have hm : c.canon.maskBlocks = c.maskBlocks := by simp [maskBlocks, canon]
  rw [calcMaskSize, calcMaskSize, hs, hm]

theorem outBytes_map_canonOut (env : PubKeyEnv) : ∀ l : List CTxOut, outBytes env (l.map canonOut) = outBytes env l
  | [] => rfl
  | o :: l => by
    have ih := outBytes_map_canonOut env l
    simp only [outBytes] at ih ⊢
    cases h : o.isNull with
    | true => simp [h, ih]
    | false =>
      have ho : CTxOutCompressor.serialize env (canonOut o) = CTxOutCompressor.serialize env o := by
        simp [canonOut, h, CTxOutCompressor.serialize]
      simp [h, ih, ho]

theorem serialize_canon (env : PubKeyEnv) (c : CCoins) : c.canon.serialize env = c.serialize env := by
  have ha : c.canon.chAvail = c.chAvail := by funext b; simp only [chAvail, isUnspent_canon]
  have hn : c.canon.nCode = c.nCode := by
    simp only [nCode, isUnspent_canon, calcMaskSize_canon]
    rfl
  have ho : outBytes env c.canon.vout = outBytes env c.vout := outBytes_map_canonOut env c.vout
  simp only [serialize, isUnspent_canon, calcMaskSize_canon, ha, hn, ho]
  rfl

theorem built_canon (c : CCoins) : c.canon.Built := by
  intro o ho
  obtain ⟨x, -, rfl⟩ := List.mem_map.mp ho
  cases h : x.isNull with
  | true => simp [canonOut, h]
  | false => exact ⟨by simp [canonOut, h], fun hn => by rw [isNull_canonOut, h] at hn; cases hn⟩

theorem Storable.canon {c : CCoins} (h : c.Storable) : c.canon.Storable := by
  have hmem : ∀ o ∈ c.canon.vout, o.isNull = false →
      ∃ x ∈ c.vout, x.isNull = false ∧ o.nValue = x.nValue ∧ o.scriptPubKey = x.scriptPubKey := by
    intro o ho hn
    obtain ⟨x, hx, rfl⟩ := List.mem_map.mp ho
    rw [isNull_canonOut] at hn
    exact ⟨x, hx, hn, by simp [canonOut, hn], by simp [canonOut, hn]⟩
  constructor
  · rw [← h.notPruned, isPruned, isPruned, CCoins.canon, List.all_map]
    exact congrArg (List.all c.vout) (funext fun o => isNull_canonOut o)
  · obtain ⟨o, ho, hn⟩ := h.last
    exact ⟨canonOut o, by simp [CCoins.canon, ho], by simpa using hn⟩
  · exact h.nVersion
  · exact h.nHeight
  · intro o ho hn
    obtain ⟨x, hx, hxn, hv, -⟩ := hmem o ho hn
    exact hv ▸ h.value x hx hxn
  · intro o ho hn
    obtain ⟨x, hx, hxn, -, hs⟩ := hmem o ho hn
    exact hs ▸ h.script x hx hxn

theorem built_of_roundTrips {env : PubKeyEnv} (henv : env.Inverts) {c : CCoins} (h : c.Storable)
    (hlen : c.vout.length ≤ 2 ^ 31 - 6) (hr : RoundTrips env c) : c.Built := by
  obtain ⟨w, hw, hread⟩ := hr
  obtain ⟨w', hw', hread'⟩ := unserialize_of_built henv h.canon (built_canon c) (by simpa [CCoins.canon] using hlen)
  rw [serialize_canon, hw, Option.some.injEq] at hw'
  subst hw'
  obtain ⟨c', hc', heq⟩ := hread []
  rw [hread' [], Option.some.injEq, Prod.mk.injEq] at hc'
  have hcanon : c.canon = c := (beq_true_iff (.inr h.notPruned)).mp (hc'.1 ▸ heq)
  rw [← hcanon]
  exact built_canon c

/-- Coins within the ranges of the format and with fewer than `2 ^ 31 - 5` outputs come back equal exactly when their
outputs are as the code builds them. -/
theorem roundTrips_iff {env : PubKeyEnv} (henv : env.Inverts) {c : CCoins} (h : c.Storable)
    (hlen : c.vout.length ≤ 2 ^ 31 - 6) : RoundTrips env c ↔ c.Built := by
  constructor
  · exact built_of_roundTrips henv h hlen
  · intro hb
    obtain ⟨w, hw, hread⟩ := unserialize_of_built henv h hb hlen
    exact ⟨w, hw, fun s => ⟨c, hread s, beq_refl c⟩⟩

/-! ## Fixed coins -/

/-- The uncompressed key of the generator of the curve. -/
def generatorKey : List UInt8 :=
  [0x04, 0x79, 0xBE, 0x66, 0x7E, 0xF9, 0xDC, 0xBB, 0xAC, 0x55, 0xA0, 0x62, 0x95, 0xCE, 0x87, 0x0B, 0x07, 0x02, 0x9B,
    0xFC, 0xDB, 0x2D, 0xCE, 0x28, 0xD9, 0x59, 0xF2, 0x81, 0x5B, 0x16, 0xF8, 0x17, 0x98, 0x48, 0x3A, 0xDA, 0x77, 0x26,
    0xA3, 0xC4, 0x65, 0x5D, 0xA4, 0xFB, 0xFC, 0x0E, 0x11, 0x08, 0xA8, 0xFD, 0x17, 0xB4, 0x48, 0xA6, 0x85, 0x54, 0x19,
    0x9C, 0x47, 0xD0, 0x8F, 0xFB, 0x10, 0xD4, 0xB8]

/-- Keys, of which only the generator is known to be valid. -/
def generatorEnv : PubKeyEnv where
  isFullyValid key := key == generatorKey
  decompress key := if key = 0x02 :: (generatorKey.drop 1).take 32 then some generatorKey else none

theorem generatorEnv_inverts : generatorEnv.Inverts := by
  intro x y p hx hy hv
  have heq : 0x04 :: x ++ y ++ [p] = generatorKey := by simpa [generatorEnv] using hv
  have hxe : x = (generatorKey.drop 1).take 32 := by
    rw [← heq]
    simp [← hx]
  have hp : p = 0xB8 := by
    have h64 : (0x04 :: x ++ y ++ [p])[64]? = some p := by simp [hx, hy]
    rw [heq] at h64
    exact (Option.some.inj h64).symm
  rw [heq, hxe, hp]
  rfl

/-- Coins with a spent output, two key scripts and an unspent output in the second mask byte. -/
def mixedCoins : CCoins where
  fCoinBase := false
  fCoinStake := true
  vout := [CTxOut.null, ⟨5, (65 :: generatorKey ++ [CScript.OP_CHECKSIG] : List UInt8), -10⟩, CTxOut.null, CTxOut.null,
    CTxOut.null, CTxOut.null, CTxOut.null, CTxOut.null, CTxOut.null, CTxOut.null, CTxOut.null,
    ⟨60000000000, (33 :: 0x02 :: (generatorKey.drop 1).take 32 ++ [CScript.OP_CHECKSIG] : List UInt8), -10⟩]
  nHeight := 203998
  nVersion := 1

theorem roundTrips_mixedCoins : RoundTrips generatorEnv mixedCoins ↔ mixedCoins.Built := by
  refine roundTrips_iff generatorEnv_inverts ⟨by decide, ⟨_, rfl, by decide⟩, by decide, by decide, ?_, ?_⟩ (by decide)
  · decide
  · decide

/-- Coins with the outputs `l`. -/
def coinsOf (l : List CTxOut) : CCoins := ⟨false, false, l, 1, 1⟩

/-- An unspent output of five units. -/
def fiveOut : CTxOut := ⟨5, ([] : List UInt8), -10⟩

theorem storable_coinsOf {l : List CTxOut} {o : CTxOut} (hlast : l.getLast? = some o) (hn : o.isNull = false)
    (h : ∀ x ∈ l, x.isNull = false → x.nValue = 5 ∧ x.scriptPubKey.bytes = []) : (coinsOf l).Storable := by
  have h1 : 0 ≤ Int32.toInt 1 := by decide
  refine ⟨?_, ⟨o, hlast, hn⟩, h1, h1, fun x hx hxn => ?_, fun x hx hxn => ?_⟩
  · by_contra hp
    rw [Bool.not_eq_false, isPruned, List.all_eq_true] at hp
    rw [hp o (List.mem_of_getLast? hlast)] at hn
    cases hn
  · rw [(h x hx hxn).1]
    decide
  · rw [(h x hx hxn).2]
    decide

theorem calcMaskSize_full {c : CCoins} (hall : ∀ i < c.vout.length, c.isUnspent i = true) :
    c.calcMaskSize.2 = c.maskBlocks := by
  obtain ⟨h1, h2, h3, -⟩ := calcMaskSize_spec c
  have hz : ∀ b < c.maskBlocks, c.fZero b = false := fun b hb => by
    have hu := fZero_of_isUnspent (i := 2 + b * 8) (by omega) (hall _ (by unfold maskBlocks at hb; omega))
    rwa [show (2 + b * 8 - 2) / 8 = b by omega] at hu
  have hm : c.calcMaskSize.1 = c.maskBlocks := by
    by_contra hne
    have := h3 (c.maskBlocks - 1) (by omega) (hz _ (by omega))
    omega
  rw [h2, hm, List.countP_eq_length.mpr fun b hb => by simp [hz b (List.mem_range.mp hb)], List.length_range]

theorem length_readOuts {env : PubKeyEnv} : ∀ {v : List Bool} {s s' : Stream} {l : List CTxOut},
    readOuts env v s = some (l, s') → l.length = v.length
  | [], s, s', l, h => by simp only [readOuts, Option.some.injEq, Prod.mk.injEq] at h; simp [← h.1]
  | false :: v, s, s', l, h => by
    obtain ⟨r, hr, heq⟩ := Option.map_eq_some_iff.mp h
    cases heq
    simp [length_readOuts hr]
  | true :: v, s, s', l, h => by
    simp only [readOuts, Option.bind_eq_bind, Option.bind_eq_some_iff] at h
    obtain ⟨o, -, h⟩ := h
    obtain ⟨r, hr, heq⟩ := Option.map_eq_some_iff.mp h
    cases heq
    simp [length_readOuts hr]

theorem length_of_code_twelve {env : PubKeyEnv} {c : CCoins} {v : Nat} {s s' : Stream} (hv : v < 2 ^ 32)
    (h : unserialize env (writeVarInt (v : Nat) ++ (writeVarInt ((12 : Nat) : Int) ++ s)) = some (c, s')) :
    c.vout.length ≤ 2 := by
  rw [unserialize, readVarInt_write v hv] at h
  simp only [Option.bind_eq_bind, Option.bind_some] at h
  rw [readVarInt_write 12 (by decide)] at h
  simp only [Option.bind_some, Option.bind_eq_some_iff, Option.some.injEq, Prod.mk.injEq] at h
  obtain ⟨mask, hmask, outs, houts, height, -, hc, -⟩ := h
  have hm : mask.1 = [] := by
    have h0 : 12 / 16 + (if Nat.testBit 12 2 || Nat.testBit 12 3 then 0 else 1) = 0 := by decide
    rw [h0, readMask, Option.some.injEq] at hmask
    rw [← hmask]
  have hl := length_readOuts houts
  rw [hm] at hl
  rw [← hc]
  exact (List.rdropWhile_prefix _ _).length_le.trans hl.le

theorem not_roundTrips_of_wrap {env : PubKeyEnv} {c : CCoins} (h : c.Storable) (hlen : c.vout.length = 2 ^ 31 - 5)
    (hall : ∀ i < c.vout.length, c.isUnspent i = true) (hb : c.fCoinBase = false) (hs : c.fCoinStake = false) :
    ¬ RoundTrips env c := by
  rintro ⟨w, hw, hread⟩
  have hblocks : c.maskBlocks = 2 ^ 28 := by unfold maskBlocks; omega
  have hcode : c.nCode = 12 := by
    rw [nCode, calcMaskSize_full hall, hblocks, hall 0 (by omega), hall 1 (by omega), hb, hs]
    rfl
  rw [serialize, if_pos h.assert, hcode, Option.some.injEq] at hw
  obtain ⟨c', hc', heq⟩ := hread []
  have hcc : c' = c := (beq_true_iff (.inr h.notPruned)).mp heq
  rw [← hw, ← Int.toNat_of_nonneg h.nVersion] at hc'
  simp only [List.append_assoc] at hc'
  have := length_of_code_twelve (toNat_lt _) hc'
  rw [hcc] at this
  omega

/-- An output with its own `nRounds`, a spent output that keeps its script, and `2 ^ 31 - 5` unspent outputs are within
the ranges of the format and do not come back. -/
theorem not_roundTrips :
    ((coinsOf [{ fiveOut with nRounds := 0 }]).Storable ∧
      ¬ RoundTrips generatorEnv (coinsOf [{ fiveOut with nRounds := 0 }])) ∧
    ((coinsOf [⟨-1, ([0x51] : List UInt8), -10⟩, fiveOut]).Storable ∧
      ¬ RoundTrips generatorEnv (coinsOf [⟨-1, ([0x51] : List UInt8), -10⟩, fiveOut])) ∧
    ((coinsOf (List.replicate (2 ^ 31 - 5) fiveOut)).Storable ∧
      ¬ RoundTrips generatorEnv (coinsOf (List.replicate (2 ^ 31 - 5) fiveOut))) := by
  have h1 : (coinsOf [{ fiveOut with nRounds := 0 }]).Storable := storable_coinsOf rfl rfl (by decide)
  have h2 : (coinsOf [⟨-1, ([0x51] : List UInt8), -10⟩, fiveOut]).Storable := storable_coinsOf rfl rfl (by decide)
  refine ⟨⟨h1, fun h => ?_⟩, ⟨h2, fun h => ?_⟩, ?_⟩
  · have hb := built_of_roundTrips generatorEnv_inverts h1 (by decide) h
    exact absurd (hb _ List.mem_cons_self).1 (by decide)
  · have hb := built_of_roundTrips generatorEnv_inverts h2 (by decide) h
    exact absurd ((hb _ List.mem_cons_self).2 rfl) (by decide)
  · generalize hn : 2 ^ 31 - 5 = n
    have hpos : 0 < n := by omega
    have h3 : (coinsOf (List.replicate n fiveOut)).Storable := by
      refine storable_coinsOf (o := fiveOut) (by simp [List.getLast?_replicate]; omega) rfl fun x hx _ => ?_
      rw [List.eq_of_mem_replicate hx]
      exact ⟨rfl, rfl⟩
    have hlen : (coinsOf (List.replicate n fiveOut)).vout.length = 2 ^ 31 - 5 := List.length_replicate.trans hn.symm
    refine ⟨h3, not_roundTrips_of_wrap h3 hlen (fun i hi => ?_) rfl rfl⟩
    have hi' : i < n := by simpa [coinsOf] using hi
    simp [isUnspent, coinsOf, hi']
    rfl

end CCoins

end DigiWage
