import DigiWage.Lib.Bloom
import DigiWage.Lib.Run
import DigiWage.Script.SignatureHash
import DigiWage.Script.Standard

/-!
# Bloom filters

`CBloomFilter` of `bloom.cpp`, with every access of the filter's data and of a script checked: `none` stands for an access
out of range and for a division by zero.

* `BloomOp.Fits`: what an operation needs, where the code does not check it.
-/

namespace DigiWage

open CScript Lib

/-! ## The hash function -/

def ROTL32 (x r : UInt32) : UInt32 := x <<< r ||| x >>> (32 - r)

namespace MurmurHash3

/-- What a block becomes before it is mixed in. -/
def mix (k1 : UInt32) : UInt32 := ROTL32 (k1 * 0xcc9e2d51) 15 * 0x1b873593

/-- The loop over the blocks of four bytes. -/
def body : Nat → List UInt8 → UInt32 → UInt32
  | 0, _, h1 => h1
  | nblocks + 1, data, h1 =>
    let k1 := UInt32.ofNat (ofLeBytes (data.take 4))
    body nblocks (data.drop 4) (ROTL32 (h1 ^^^ mix k1) 13 * 5 + 0xe6546b64)

/-- What is done last. -/
def finalize (h1 : UInt32) : UInt32 :=
  let h1 := h1 ^^^ h1 >>> 16
  let h1 := h1 * 0x85ebca6b
  let h1 := h1 ^^^ h1 >>> 13
  let h1 := h1 * 0xc2b2ae35
  h1 ^^^ h1 >>> 16

end MurmurHash3

open MurmurHash3 in
def murmurHash3 (nHashSeed : UInt32) (vDataToHash : Valtype) : UInt32 :=
  let nblocks := vDataToHash.length / 4
  let h1 := body nblocks vDataToHash nHashSeed
  let tail := vDataToHash.drop (nblocks * 4)
  let h1 := if tail = [] then h1 else h1 ^^^ mix (UInt32.ofNat (ofLeBytes tail))
  finalize (h1 ^^^ UInt32.ofNat vDataToHash.length)

/-! ## The filter -/

def MAX_BLOOM_FILTER_SIZE : Nat := 36000
def MAX_HASH_FUNCS : Nat := 50
def BLOOM_UPDATE_ALL : UInt8 := 1
def BLOOM_UPDATE_P2PUBKEY_ONLY : UInt8 := 2
def BLOOM_UPDATE_MASK : UInt8 := 3

structure CBloomFilter where
  vData : List UInt8
  isFull : Bool
  isEmpty : Bool
  nHashFuncs : Nat
  nTweak : UInt32
  nFlags : UInt8
deriving DecidableEq

namespace CBloomFilter

/-- `CBloomFilter()`. -/
def default : CBloomFilter := ⟨[], true, false, 0, 0, 0⟩

/-- The product with `LN2`, without its fraction. -/
def timesLn2 (n : Nat) : Nat := n * 6931471805599453 / 10 ^ 16

/-- `CBloomFilter` for a number of elements. `nBits` is the size that the logarithm of the rate gives. -/
def construct (nBits nElements : Nat) (nTweakIn : UInt32) (nFlagsIn : UInt8) : Option CBloomFilter :=
  let nSize := min nBits (MAX_BLOOM_FILTER_SIZE * 8) / 8
  if nElements = 0 then none
  else some ⟨List.replicate nSize 0, false, false, min (timesLn2 (nSize * 8 / nElements)) MAX_HASH_FUNCS, nTweakIn, nFlagsIn⟩

def isWithinSizeConstraints (f : CBloomFilter) : Bool :=
  decide (f.vData.length ≤ MAX_BLOOM_FILTER_SIZE) && decide (f.nHashFuncs ≤ MAX_HASH_FUNCS)

def hash (f : CBloomFilter) (nHashNum : Nat) (vDataToHash : Valtype) : Option Nat :=
  if f.vData.length = 0 then none
  else some ((murmurHash3 (UInt32.ofNat nHashNum * 0xFBA4C795 + f.nTweak) vDataToHash).toNat % (f.vData.length * 8))

/-- The loop of `insert` from the round `i` on. -/
def insertLoop (vKey : Valtype) : Nat → Nat → CBloomFilter → Option CBloomFilter
  | 0, _, f => some f
  | rounds + 1, i, f => do
    let nIndex ← f.hash i vKey
    let b ← f.vData[nIndex / 8]?
    insertLoop vKey rounds (i + 1) { f with vData := f.vData.set (nIndex / 8) (b ||| bitByte (nIndex % 8)) }

def insert (f : CBloomFilter) (vKey : Valtype) : Option CBloomFilter :=
  if f.isFull then some f
  else do
    let f ← insertLoop vKey f.nHashFuncs 0 f
    some { f with isEmpty := false }

/-- The loop of `contains` from the round `i` on. -/
def containsLoop (f : CBloomFilter) (vKey : Valtype) : Nat → Nat → Option Bool
  | 0, _ => some true
  | rounds + 1, i => do
    let nIndex ← f.hash i vKey
    let b ← f.vData[nIndex / 8]?
    if b &&& bitByte (nIndex % 8) = 0 then some false else containsLoop f vKey rounds (i + 1)

def contains (f : CBloomFilter) (vKey : Valtype) : Option Bool :=
  if f.isFull then some true
  else if f.isEmpty then some false
  else f.containsLoop vKey f.nHashFuncs 0

def clear (f : CBloomFilter) : CBloomFilter :=
  { f with vData := List.replicate f.vData.length 0, isFull := false, isEmpty := true }

def matchesAll (f : CBloomFilter) : Bool := f.vData.all (· == 0xff)

/-- `Merge`: the filter, and whether it was merged. -/
def merge (f filter : CBloomFilter) : Option (CBloomFilter × Bool) :=
  if !f.matchesAll && !filter.matchesAll then
    if ¬ (filter.vData.length = f.vData.length ∧ filter.nHashFuncs = f.nHashFuncs ∧ filter.nTweak = f.nTweak) then
      some (f, false)
    else some ({ f with vData := List.zipWith (· ||| ·) f.vData filter.vData }, true)
  else do
    let vData : List UInt8 := []
    let _ ← vData[0]?
    some ({ f with vData := vData.set 0 0xff }, true)

def updateEmptyFull (f : CBloomFilter) : CBloomFilter :=
  { f with isFull := f.vData.all (· == 0xff), isEmpty := f.vData.all (· == 0) }

end CBloomFilter

/-! ## Transactions -/

/-- `CoinSpend::ParseSerial`; `none` where it throws. `getvch` is what `CBigNum` makes of the bytes. -/
def parseSerial (getvch : Valtype → Valtype) (s : Stream) : Option Valtype := do
  let (nSize, s) ← readCompactSize s
  let (nSize, s) ← readCompactSize (s.drop nSize)
  let (vch, _) ← readVector readUInt8 (s.drop nSize)
  some (getvch vch)

namespace CBloomFilter

/-- The loop over the data elements of a script, up to one in the filter. `element` is what an element is replaced by, or
`some none` where a parser throws. -/
def scriptLoop (f : CBloomFilter) (s : List UInt8) (element : Valtype → Option (Option Valtype)) :
    Nat → Nat → Option (Option Bool)
  | 0, _ => none
  | fuel + 1, pc =>
    if s.length ≤ pc then some (some false)
    else do
      let (ok, _, data, pc) ← getOpAt s pc
      if !ok then some (some false)
      else
        match ← element data with
        | none => some none
        | some data =>
          let found ← if data = [] then some false else f.contains data
          if found then some (some true) else scriptLoop f s element fuel pc

/-- Whether a data element of an output is in the filter. Of a mint this is what follows the first six bytes. -/
def outputMatches (f : CBloomFilter) (txout : CTxOut) : Option (Option Bool) :=
  let s := txout.scriptPubKey.bytes
  f.scriptLoop s (fun data => (if txout.isZerocoinMint then bytesAt s 6 (s.length - 6) else some data).map some)
    (s.length + 1) 0

/-- Whether a data element of an input is in the filter. Of a spend this is the serial number. -/
def inputMatches (getvch : Valtype → Valtype) (f : CBloomFilter) (txin : CTxIn) : Option (Option Bool) :=
  let s := txin.scriptSig.bytes
  f.scriptLoop s (fun data =>
    if txin.isZerocoinSpend then (bytesAt s 44 (s.length - 44)).map (parseSerial getvch) else some (some data))
    (s.length + 1) 0

/-- The keys to insert for a matching output. -/
def matchedKeys (f : CBloomFilter) (hash : Uint256) (i : Nat) (txout : CTxOut) : Option (List Valtype) :=
  if f.nFlags &&& BLOOM_UPDATE_MASK = BLOOM_UPDATE_ALL then some [(COutPoint.mk hash i).serialize]
  else if f.nFlags &&& BLOOM_UPDATE_MASK = BLOOM_UPDATE_P2PUBKEY_ONLY then do
    let (fSolved, type, _) ← solverAt txout.scriptPubKey
    if fSolved && (type == .TX_PUBKEY || type == .TX_MULTISIG) then some [(COutPoint.mk hash i).serialize] else some []
  else some []

/-- The loop over the outputs: the filter, whether one matched, and the keys that were inserted. -/
def relevantOutputs (hash : Uint256) : Nat → List CTxOut → CBloomFilter → Option (CBloomFilter × Bool × List Valtype)
  | _, [], f => some (f, false, [])
  | i, txout :: vout, f => do
    let found ← f.outputMatches txout
    let keys ← if found = some true then f.matchedKeys hash i txout else some []
    let f ← keys.foldlM insert f
    let (f, fFound, rest) ← relevantOutputs hash (i + 1) vout f
    some (f, found == some true || fFound, keys ++ rest)

/-- The loop over the inputs. -/
def relevantInputs (getvch : Valtype → Valtype) (f : CBloomFilter) : List CTxIn → Option (Option Bool)
  | [] => some (some false)
  | txin :: vin => do
    let spends ← f.contains txin.prevout.serialize
    if spends then some (some true)
    else
      let found ← f.inputMatches getvch txin
      if found = some false then relevantInputs getvch f vin else some found

/-- `IsRelevantAndUpdate`: the filter, the answer, which is `none` when the parser throws, and the keys that were inserted. -/
def isRelevantAndUpdate (getvch : Valtype → Valtype) (f : CBloomFilter) (tx : CTransaction) :
    Option (CBloomFilter × Option Bool × List Valtype) :=
  if f.isFull then some (f, some true, [])
  else if f.isEmpty then some (f, some false, [])
  else do
    let known ← f.contains (writeUint256 tx.hash)
    let (f, fFound, keys) ← relevantOutputs tx.hash 0 tx.vout f
    if known || fFound then some (f, some true, keys)
    else
      let answer ← f.relevantInputs getvch tx.vin
      some (f, answer, keys)

end CBloomFilter

/-! ## Runs -/

/-- Filters, and for each the keys that it stands for: those inserted since its last `clear`, and those of the filters merged
into it since. -/
structure Filters where
  filter : Nat → CBloomFilter
  keys : Nat → List Valtype

/-- The operations on filters. -/
inductive BloomOp where
  | insert (i : Nat) (vKey : Valtype)
  | clear (i : Nat)
  | merge (i j : Nat)
  | updateEmptyFull (i : Nat)
  | isRelevantAndUpdate (i : Nat) (tx : CTransaction)

namespace Filters

/-- One filter changes. -/
def set (s : Filters) (i : Nat) (f : CBloomFilter) (keys : List Valtype) : Filters :=
  ⟨Function.update s.filter i f, Function.update s.keys i keys⟩

/-- One operation. -/
def step (getvch : Valtype → Valtype) (s : Filters) : BloomOp → Option Filters
  | .insert i vKey => do
    let f ← (s.filter i).insert vKey
    some (s.set i f (s.keys i ++ [vKey]))
  | .clear i => some (s.set i (s.filter i).clear [])
  | .merge i j => do
    let (f, merged) ← (s.filter i).merge (s.filter j)
    some (s.set i f (if merged then s.keys i ++ s.keys j else s.keys i))
  | .updateEmptyFull i => some (s.set i (s.filter i).updateEmptyFull (s.keys i))
  | .isRelevantAndUpdate i tx => do
    let (f, _, inserted) ← (s.filter i).isRelevantAndUpdate getvch tx
    some (s.set i f (s.keys i ++ inserted))

end Filters

/-- A filter that is constructed, or received within the size limits. -/
inductive CBloomFilter.Initial : CBloomFilter → Prop
  | default : Initial CBloomFilter.default
  | constructed {nBits nElements nTweakIn nFlagsIn f} (h : construct nBits nElements nTweakIn nFlagsIn = some f) : Initial f
  | received {f : CBloomFilter} (h : f.isWithinSizeConstraints = true) : Initial f.updateEmptyFull

/-- Along the run no access is out of range, and at its end each filter has all its keys. -/
def NoFalseNegatives (getvch : Valtype → Valtype) (start : Nat → CBloomFilter) (ops : List BloomOp) : Prop :=
  ∃ s, ops.foldlM (Filters.step getvch) ⟨start, fun _ => []⟩ = some s ∧
    ∀ i, ∀ vKey ∈ s.keys i, (s.filter i).contains vKey = some true

/-! ## The bits of a key -/

namespace CBloomFilter

variable {f g : CBloomFilter} {vKey : Valtype} {keys : List Valtype}

/-- The bits that a key hashes to. -/
def indexes (f : CBloomFilter) (vKey : Valtype) : Set Nat := {n | ∃ i < f.nHashFuncs, f.hash i vKey = some n}

/-- The filters hash keys alike. -/
def SameHash (f g : CBloomFilter) : Prop :=
  f.vData.length = g.vData.length ∧ f.nHashFuncs = g.nHashFuncs ∧ f.nTweak = g.nTweak

theorem SameHash.hash_eq (h : SameHash f g) (i : Nat) (vKey : Valtype) : f.hash i vKey = g.hash i vKey := by
  rw [hash, hash, h.1, h.2.2]

theorem SameHash.indexes_eq (h : SameHash f g) : f.indexes = g.indexes := by
  funext vKey
  simp only [indexes, h.2.1, h.hash_eq]

/-- There is something to hash into, or nothing is hashed. -/
def CanHash (f : CBloomFilter) : Prop := f.vData ≠ [] ∨ f.nHashFuncs = 0

theorem SameHash.canHash (h : SameHash f g) (hf : f.CanHash) : g.CanHash := by
  rw [CanHash, ← h.2.1]
  apply hf.imp_left
  intro hne hnil
  apply hne
  rw [← List.length_eq_zero_iff, h.1, hnil, List.length_nil]

theorem exists_hash (h : f.vData ≠ []) (i : Nat) (vKey : Valtype) :
    ∃ n b, f.hash i vKey = some n ∧ n < f.vData.length * 8 ∧ f.vData[n / 8]? = some b := by
  have hpos : 0 < f.vData.length := List.length_pos_iff.mpr h
  rw [hash, if_neg (Nat.pos_iff_ne_zero.mp hpos)]
  generalize (murmurHash3 (UInt32.ofNat i * 0xFBA4C795 + f.nTweak) vKey).toNat = m
  have hlt : m % (f.vData.length * 8) < f.vData.length * 8 := Nat.mod_lt _ (by omega)
  have hbyte : m % (f.vData.length * 8) / 8 < f.vData.length := by omega
  exact ⟨_, _, rfl, hlt, List.getElem?_eq_getElem hbyte⟩

theorem insertLoop_spec {rounds i : Nat} (h : f.vData ≠ [] ∨ rounds = 0) :
    ∃ v, insertLoop vKey rounds i f = some { f with vData := v } ∧ v.length = f.vData.length ∧
      setBits v = setBits f.vData ∪ {n | ∃ j, i ≤ j ∧ j < i + rounds ∧ f.hash j vKey = some n} := by
  induction rounds generalizing i f with
  | zero =>
    refine ⟨f.vData, rfl, rfl, ?_⟩
    ext n
    simp only [Set.mem_union, Set.mem_ofPred_eq, iff_self_or]
    rintro ⟨j, hle, hlt, -⟩
    omega
  | succ rounds ih =>
    have hne : f.vData ≠ [] := h.resolve_right (Nat.succ_ne_zero rounds)
    obtain ⟨n, b, hhash, -, hbyte⟩ := exists_hash hne i vKey
    let f' : CBloomFilter := { f with vData := f.vData.set (n / 8) (b ||| bitByte (n % 8)) }
    have hlen : f'.vData.length = f.vData.length := List.length_set
    have hne' : f'.vData ≠ [] := by
      rw [← List.length_pos_iff, hlen, List.length_pos_iff]
      exact hne
    have hsame : SameHash f' f := ⟨hlen, rfl, rfl⟩
    obtain ⟨v, hloop, hvlen, hbits⟩ := @ih f' (i + 1) (.inl hne')
    refine ⟨v, ?_, hvlen.trans hlen, ?_⟩
    · rw [insertLoop, hhash]
      simp only [Option.bind_eq_bind, Option.bind_some, hbyte]
      exact hloop
    · rw [hbits, setBits_set hbyte]
      ext m
      simp only [Set.mem_union, Set.mem_insert_iff, Set.mem_ofPred_eq, hsame.hash_eq]
      constructor
      · rintro ((rfl | hm) | ⟨j, hle, hlt, hj⟩)
        · exact .inr ⟨i, le_rfl, by omega, hhash⟩
        · exact .inl hm
        · exact .inr ⟨j, by omega, by omega, hj⟩
      · rintro (hm | ⟨j, hle, hlt, hj⟩)
        · exact .inl (.inr hm)
        · by_cases heq : j = i
          · rw [heq, hhash] at hj
            exact .inl (.inl (Option.some.inj hj).symm)
          · exact .inr ⟨j, by omega, by omega, hj⟩

theorem containsLoop_spec {rounds i : Nat} (h : f.vData ≠ [] ∨ rounds = 0) :
    ∃ found, f.containsLoop vKey rounds i = some found ∧
      (found = true ↔ {n | ∃ j, i ≤ j ∧ j < i + rounds ∧ f.hash j vKey = some n} ⊆ setBits f.vData) := by
  induction rounds generalizing i with
  | zero =>
    refine ⟨true, rfl, fun _ => ?_, fun _ => rfl⟩
    rintro n ⟨j, hle, hlt, -⟩
    omega
  | succ rounds ih =>
    have hne : f.vData ≠ [] := h.resolve_right (Nat.succ_ne_zero rounds)
    obtain ⟨n, b, hhash, -, hbyte⟩ := exists_hash hne i vKey
    rw [containsLoop, hhash]
    simp only [Option.bind_eq_bind, Option.bind_some, hbyte]
    by_cases hbit : b &&& bitByte (n % 8) = 0
    · rw [if_pos hbit]
      refine ⟨false, rfl, fun hfalse => (Bool.noConfusion hfalse), fun hsub => ?_⟩
      obtain ⟨b', hb', hset⟩ := hsub (show n ∈ _ from ⟨i, le_rfl, by omega, hhash⟩)
      rw [hbyte, Option.some.injEq] at hb'
      rw [← hb'] at hset
      exact absurd hbit hset
    · rw [if_neg hbit]
      obtain ⟨found, hloop, hfound⟩ := @ih (i + 1) (.inl hne)
      refine ⟨found, hloop, hfound.trans ⟨fun hsub => ?_, fun hsub => ?_⟩⟩
      · rintro m ⟨j, hle, hlt, hj⟩
        by_cases heq : j = i
        · rw [heq, hhash, Option.some.injEq] at hj
          rw [← hj]
          exact ⟨b, hbyte, hbit⟩
        · exact hsub ⟨j, by omega, by omega, hj⟩
      · rintro m ⟨j, hle, hlt, hj⟩
        exact hsub ⟨j, by omega, by omega, hj⟩

theorem indexes_eq (f : CBloomFilter) (vKey : Valtype) :
    {n | ∃ j, 0 ≤ j ∧ j < 0 + f.nHashFuncs ∧ f.hash j vKey = some n} = f.indexes vKey := by
  ext n
  simp [indexes]

/-! ## Filters and their keys -/

/-- The flags and the bits of a filter fit the keys that it stands for. -/
structure Holds (f : CBloomFilter) (keys : List Valtype) : Prop where
  full : f.isFull = true → ∀ b ∈ f.vData, b = 0xff
  empty : f.isEmpty = true → f.isFull = true ∨ keys = []
  covers : f.isFull = false → Covers f.indexes {vKey | vKey ∈ keys} (setBits f.vData)
  usable : f.isFull = true ∨ f.isEmpty = true ∨ f.CanHash

/-- The bits decide. -/
structure Active (f : CBloomFilter) : Prop where
  notFull : f.isFull = false
  notEmpty : f.isEmpty = false
  canHash : f.CanHash

theorem Active.contains_spec (h : f.Active) (vKey : Valtype) :
    ∃ found, f.contains vKey = some found ∧ (found = true ↔ f.indexes vKey ⊆ setBits f.vData) := by
  have hloop := @containsLoop_spec f vKey f.nHashFuncs 0 h.canHash
  rw [indexes_eq] at hloop
  rw [contains, h.notFull, h.notEmpty]
  exact hloop

theorem Holds.contains (h : f.Holds keys) (hkey : vKey ∈ keys) : f.contains vKey = some true := by
  cases hfull : f.isFull with
  | true => rw [CBloomFilter.contains, hfull, if_pos rfl]
  | false =>
    have hempty : f.isEmpty = false := by
      cases hempty : f.isEmpty with
      | false => rfl
      | true =>
        have hnil := (h.empty hempty).resolve_left (by rw [hfull]; exact Bool.false_ne_true)
        rw [hnil] at hkey
        cases hkey
    have hcan : f.CanHash := by simpa [hfull, hempty] using h.usable
    obtain ⟨found, hfound, hiff⟩ := (Active.mk hfull hempty hcan).contains_spec vKey
    rw [hfound, hiff.mpr (h.covers hfull vKey hkey)]

theorem Holds.insert (h : f.Holds keys) (hcan : f.isFull = true ∨ f.CanHash) (vKey : Valtype) :
    ∃ g, f.insert vKey = some g ∧ g.Holds (keys ++ [vKey]) ∧ (f.isFull = false → g.Active) := by
  cases hfull : f.isFull with
  | true =>
    refine ⟨f, by rw [CBloomFilter.insert, hfull, if_pos rfl], ⟨h.full, fun _ => .inl hfull, fun hnot => ?_, h.usable⟩,
      fun hnot => Bool.noConfusion hnot⟩
    rw [hfull] at hnot
    cases hnot
  | false =>
    have hcan : f.CanHash := hcan.resolve_left (by rw [hfull]; exact Bool.false_ne_true)
    obtain ⟨v, hloop, hlen, hbits⟩ := @insertLoop_spec f vKey f.nHashFuncs 0 hcan
    rw [indexes_eq] at hbits
    let g : CBloomFilter := { f with vData := v, isEmpty := false }
    have hsame : SameHash f g := ⟨hlen.symm, rfl, rfl⟩
    have hactive : g.Active := ⟨hfull, rfl, hsame.canHash hcan⟩
    refine ⟨g, by rw [CBloomFilter.insert, hfull, hloop]; rfl, ⟨?_, ?_, ?_, ?_⟩, fun _ => hactive⟩
    · intro hnot
      rw [hactive.notFull] at hnot
      cases hnot
    · intro hnot
      cases hnot
    · intro _
      have hkeys : {k | k ∈ keys ++ [vKey]} = Insert.insert vKey {k | k ∈ keys} := by
        ext k
        simp [or_comm]
      rw [hkeys, ← hsame.indexes_eq, show setBits g.vData = _ from hbits]
      exact (h.covers hfull).insert vKey
    · exact .inr (.inr hactive.canHash)

theorem Holds.insertAll (h : f.Holds keys) (hf : f.Active) : ∀ newKeys : List Valtype,
    ∃ g, newKeys.foldlM CBloomFilter.insert f = some g ∧ g.Holds (keys ++ newKeys) ∧ g.Active ∧ (newKeys = [] → g = f) := by
  intro newKeys
  induction newKeys generalizing f keys with
  | nil => exact ⟨f, rfl, by rwa [List.append_nil], hf, fun _ => rfl⟩
  | cons vKey newKeys ih =>
    obtain ⟨f', hinsert, hholds, hactive⟩ := h.insert (.inr hf.canHash) vKey
    obtain ⟨g, hrest, hg, hgactive, -⟩ := ih hholds (hactive hf.notFull)
    rw [List.append_assoc] at hg
    exact ⟨g, by rw [List.foldlM_cons, hinsert]; exact hrest, hg, hgactive, fun hnil => by cases hnil⟩

theorem Holds.clear (f : CBloomFilter) : f.clear.Holds [] where
  full hfull := Bool.noConfusion hfull
  empty _ := .inr rfl
  covers _ := Covers.of_empty (by simp)
  usable := .inr (.inl rfl)

theorem Holds.updateEmptyFull (h : f.Holds keys)
    (hfits : keys = [] ∨ f.nHashFuncs ≠ 0 ∨ f.vData = [] ∨ ∃ b ∈ f.vData, b ≠ 0) : f.updateEmptyFull.Holds keys := by
  have hfull : f.isFull = true → f.updateEmptyFull.isFull = true := by
    intro hf
    simpa [CBloomFilter.updateEmptyFull] using h.full hf
  refine ⟨?_, ?_, ?_, ?_⟩
  · intro hall
    simpa [CBloomFilter.updateEmptyFull] using hall
  · intro hempty
    have hzero : ∀ b ∈ f.vData, b = 0 := by simpa [CBloomFilter.updateEmptyFull] using hempty
    by_cases hnil : f.vData = []
    · exact .inl (by rw [CBloomFilter.updateEmptyFull, hnil]; rfl)
    -- without a bit, no key that hashes to bits was inserted
    rcases hfits with hkeys | hfuncs | hnil' | ⟨b, hb, hne⟩
    · exact .inr hkeys
    · right
      cases hkeys : keys with
      | nil => rfl
      | cons vKey rest =>
        have hnot : f.isFull = false := by
          cases hf : f.isFull with
          | false => rfl
          | true =>
            obtain ⟨b, hb⟩ := List.exists_mem_of_ne_nil _ hnil
            have hbad := h.full hf b hb
            rw [hzero b hb] at hbad
            cases hbad
        obtain ⟨n, b, hhash, -, -⟩ := exists_hash hnil 0 vKey
        have hmem : n ∈ setBits f.vData :=
          h.covers hnot vKey (by rw [hkeys]; exact List.mem_cons_self) ⟨0, Nat.pos_of_ne_zero hfuncs, hhash⟩
        rw [setBits_zero hzero] at hmem
        cases hmem
    · exact absurd hnil' hnil
    · exact absurd (hzero b hb) hne
  · intro hnot
    apply h.covers
    cases hf : f.isFull with
    | false => rfl
    | true =>
      rw [hfull hf] at hnot
      cases hnot
  · by_cases hnil : f.vData = []
    · exact .inl (by rw [CBloomFilter.updateEmptyFull, hnil]; rfl)
    · exact .inr (.inr (.inl hnil))

theorem not_full_of_not_matchesAll (h : f.Holds keys) (hnot : f.matchesAll = false) : f.isFull = false := by
  cases hfull : f.isFull with
  | false => rfl
  | true =>
    have hall : f.matchesAll = true := by simpa [matchesAll] using h.full hfull
    rw [hall] at hnot
    cases hnot

theorem Holds.merge {keys' : List Valtype} (h : f.Holds keys) (h' : g.Holds keys') (hf : f.matchesAll = false)
    (hg : g.matchesAll = false) (hempty : f.isEmpty = true → SameHash g f → keys' = []) :
    ∃ merged filter, f.merge g = some (filter, merged) ∧ filter.Holds (if merged then keys ++ keys' else keys) := by
  have hnot := not_full_of_not_matchesAll h hf
  have hnot' := not_full_of_not_matchesAll h' hg
  rw [CBloomFilter.merge, hf, hg]
  simp only [Bool.not_false, Bool.and_self, if_true]
  by_cases halike : g.vData.length = f.vData.length ∧ g.nHashFuncs = f.nHashFuncs ∧ g.nTweak = f.nTweak
  · have hsame : SameHash g f := halike
    rw [if_neg (not_not.mpr halike)]
    refine ⟨true, _, rfl, ?_⟩
    rw [if_pos rfl]
    let filter : CBloomFilter := { f with vData := List.zipWith (· ||| ·) f.vData g.vData }
    have hlen : f.vData.length = filter.vData.length := by
      rw [List.length_zipWith, hsame.1, Nat.min_self]
    have hsame' : SameHash f filter := ⟨hlen, rfl, rfl⟩
    have hne : f.vData ≠ [] := by
      intro hnil
      rw [matchesAll, hnil] at hf
      cases hf
    refine ⟨?_, ?_, ?_, .inr (.inr (hsame'.canHash (.inl hne)))⟩
    · intro hfull
      rw [hnot] at hfull
      cases hfull
    · intro hf'
      have hkeys : keys = [] := (h.empty hf').resolve_left (by rw [hnot]; exact Bool.false_ne_true)
      rw [hkeys, hempty hf' hsame]
      exact .inr rfl
    · intro _
      have hunion : {k | k ∈ keys ++ keys'} = {k | k ∈ keys} ∪ {k | k ∈ keys'} := by
        ext k
        simp
      rw [hunion, ← hsame'.indexes_eq, setBits_or hsame.1.symm]
      apply Covers.union (h.covers hnot)
      rw [← hsame.indexes_eq]
      exact h'.covers hnot'
  · rw [if_pos halike]
    exact ⟨false, f, rfl, h⟩

/-! ## Scripts that are searched -/

theorem getOpAt_spec {s : List UInt8} {pc : Nat} (hpc : pc < s.length) :
    ∃ ok opcode data pc', getOpAt s pc = some (ok, opcode, data, pc') ∧ (ok = true → pc < pc' ∧ pc' ≤ s.length) := by
  rw [getOpAt_eq hpc.le, readResult]
  cases hread : getOp2 (s.drop pc) with
  | none => exact ⟨_, _, _, _, rfl, fun h => Bool.noConfusion h⟩
  | some r =>
    obtain ⟨opcode, vch, rest⟩ := r
    refine ⟨_, _, _, _, rfl, fun _ => ?_⟩
    have hlen := length_of_getOp2 hread
    rw [List.length_drop] at hlen
    omega

variable {s : List UInt8} {element : Valtype → Option (Option Valtype)} {txout : CTxOut} {txin : CTxIn} {tx : CTransaction}
  {getvch : Valtype → Valtype}

theorem Active.scriptLoop_ne_none (h : f.Active) (helement : ∀ data, ∃ r, element data = some r) {fuel pc : Nat}
    (hpc : pc ≤ s.length) (hfuel : s.length < pc + fuel) : ∃ r, f.scriptLoop s element fuel pc = some r := by
  induction fuel generalizing pc with
  | zero => omega
  | succ fuel ih =>
    rw [scriptLoop]
    by_cases hend : s.length ≤ pc
    · exact ⟨some false, if_pos hend⟩
    rw [if_neg hend]
    obtain ⟨ok, opcode, data, pc', hread, hmove⟩ := getOpAt_spec (Nat.not_le.mp hend)
    obtain ⟨r, hr⟩ := helement data
    rw [hread]
    simp only [Option.bind_eq_bind, Option.bind_some]
    cases ok with
    | false => exact ⟨some false, rfl⟩
    | true =>
      rw [hr]
      cases r with
      | none => exact ⟨none, rfl⟩
      | some data =>
        have hrest := @ih pc' (hmove rfl).2 (by have := (hmove rfl).1; omega)
        by_cases hdata : data = []
        · simpa [hdata] using hrest
        · obtain ⟨found, hfound, -⟩ := h.contains_spec data
          cases found with
          | true => exact ⟨some true, by simp [hdata, hfound]⟩
          | false => simpa [hdata, hfound] using hrest

theorem Active.exists_outputMatches (h : f.Active)
    (hmint : txout.isZerocoinMint = true → 6 ≤ txout.scriptPubKey.bytes.length) : ∃ r, f.outputMatches txout = some r := by
  refine h.scriptLoop_ne_none (fun data => ?_) (Nat.zero_le _) (by omega)
  cases hm : txout.isZerocoinMint with
  | false => exact ⟨some data, rfl⟩
  | true =>
    have hlen := hmint hm
    rw [if_pos rfl, bytesAt, if_pos (by omega)]
    exact ⟨_, rfl⟩

/-- A spend whose script is too short for a serial number. -/
def ShortSpend (txin : CTxIn) : Prop := txin.isZerocoinSpend = true ∧ txin.scriptSig.bytes.length < 44

theorem Active.exists_inputMatches (h : f.Active) (hspend : ¬ ShortSpend txin) (getvch : Valtype → Valtype) :
    ∃ r, f.inputMatches getvch txin = some r := by
  refine h.scriptLoop_ne_none (fun data => ?_) (Nat.zero_le _) (by omega)
  cases hs : txin.isZerocoinSpend with
  | false => exact ⟨some data, rfl⟩
  | true =>
    have hlen : 44 ≤ txin.scriptSig.bytes.length := Nat.not_lt.mp fun hlt => hspend ⟨hs, hlt⟩
    rw [if_pos rfl, bytesAt, if_pos (by omega)]
    exact ⟨_, rfl⟩

theorem exists_matchedKeys (hmint : txout.isZerocoinMint = true → 6 ≤ txout.scriptPubKey.bytes.length) (hash : Uint256)
    (i : Nat) : ∃ keys, f.matchedKeys hash i txout = some keys := by
  have hsolver : txout.scriptPubKey.bytes ≠ [OP_ZEROCOINMINT] := by
    intro hone
    have hm : txout.isZerocoinMint = true := by
      simp [CTxOut.isZerocoinMint, isZerocoinMint, startsWithOpcode, hone]
    have hlen := hmint hm
    rw [hone] at hlen
    exact absurd hlen (by decide)
  unfold matchedKeys
  by_cases hall : f.nFlags &&& BLOOM_UPDATE_MASK = BLOOM_UPDATE_ALL
  · exact ⟨_, if_pos hall⟩
  rw [if_neg hall]
  by_cases hkey : f.nFlags &&& BLOOM_UPDATE_MASK = BLOOM_UPDATE_P2PUBKEY_ONLY
  · rw [if_pos hkey, solverAt_eq hsolver]
    obtain ⟨fSolved, type, solutions⟩ := solver txout.scriptPubKey
    simp only [Option.bind_eq_bind, Option.bind_some]
    split
    · exact ⟨_, rfl⟩
    · exact ⟨_, rfl⟩
  · exact ⟨_, if_neg hkey⟩

theorem Holds.relevantOutputs (hash : Uint256) : ∀ (vout : List CTxOut) {f : CBloomFilter} {keys : List Valtype} (i : Nat),
    f.Holds keys → f.Active → (∀ out ∈ vout, out.isZerocoinMint = true → 6 ≤ out.scriptPubKey.bytes.length) →
    ∃ g found inserted, CBloomFilter.relevantOutputs hash i vout f = some (g, found, inserted) ∧ g.Holds (keys ++ inserted) ∧
      g.Active ∧ (found = false → g = f ∧ ∀ out ∈ vout, f.outputMatches out ≠ some (some true))
  | [], f, keys, i, h, hf, _ => ⟨f, false, [], rfl, by rwa [List.append_nil], hf, fun _ => ⟨rfl, fun out hout => by cases hout⟩⟩
  | txout :: vout, f, keys, i, h, hf, hmint => by
    have hfirst := hmint txout List.mem_cons_self
    obtain ⟨r, hmatch⟩ := hf.exists_outputMatches hfirst
    obtain ⟨newKeys, hkeys⟩ : ∃ newKeys, (if r = some true then f.matchedKeys hash i txout else some []) = some newKeys := by
      by_cases hr : r = some true
      · rw [if_pos hr]
        exact exists_matchedKeys hfirst hash i
      · exact ⟨[], if_neg hr⟩
    obtain ⟨f', hinsert, h', hf', hnone⟩ := h.insertAll hf newKeys
    obtain ⟨g, found, inserted, hrest, hg, hgactive, hunchanged⟩ := Holds.relevantOutputs hash vout (i + 1) h' hf'
      fun out hout => hmint out (List.mem_cons_of_mem _ hout)
    rw [List.append_assoc] at hg
    refine ⟨g, r == some true || found, newKeys ++ inserted, ?_, hg, hgactive, ?_⟩
    · rw [CBloomFilter.relevantOutputs, hmatch]
      simp only [Option.bind_eq_bind, Option.bind_some]
      by_cases hr : r = some true
      · rw [if_pos hr] at hkeys ⊢
        simp only [hkeys, Option.bind_some, hinsert, hrest]
      · rw [if_neg hr] at hkeys ⊢
        cases hkeys
        simp only [hinsert, Option.bind_some, hrest]
    · intro hfound
      simp only [Bool.or_eq_false_iff, beq_eq_false_iff_ne] at hfound
      obtain ⟨hr, hfound⟩ := hfound
      rw [if_neg hr, Option.some.injEq] at hkeys
      obtain ⟨hgf, hout⟩ := hunchanged hfound
      have hff := hnone hkeys.symm
      rw [hff] at hgf hout
      refine ⟨hgf, fun out hmem => ?_⟩
      rcases List.mem_cons.mp hmem with rfl | hmem
      · rw [hmatch, ne_eq, Option.some.injEq]
        exact hr
      · exact hout out hmem

theorem Active.exists_relevantInputs (h : f.Active) {vin : List CTxIn}
    (hspends : ∀ pre txin post, vin = pre ++ txin :: post → ShortSpend txin →
      f.contains txin.prevout.serialize = some true ∨ ∃ txin' ∈ pre, f.contains txin'.prevout.serialize = some true ∨
        f.inputMatches getvch txin' ≠ some (some false)) : ∃ answer, f.relevantInputs getvch vin = some answer := by
  induction vin with
  | nil => exact ⟨some false, rfl⟩
  | cons txin vin ih =>
    obtain ⟨spends, hcontains, -⟩ := h.contains_spec txin.prevout.serialize
    rw [relevantInputs, hcontains]
    simp only [Option.bind_eq_bind, Option.bind_some]
    cases spends with
    | true => exact ⟨some true, rfl⟩
    | false =>
      have hlong : ¬ ShortSpend txin := by
        intro hshort
        rcases hspends [] txin vin rfl hshort with hcontains' | ⟨txin', hmem, -⟩
        · rw [hcontains] at hcontains'
          cases hcontains'
        · cases hmem
      obtain ⟨found, hfound⟩ := h.exists_inputMatches hlong getvch
      rw [hfound]
      simp only [Bool.false_eq_true, if_false, Option.bind_some]
      by_cases hgo : found = some false
      · rw [if_pos hgo]
        apply ih
        intro pre txin' post hvin hshort
        rcases hspends (txin :: pre) txin' post (by rw [hvin]; rfl) hshort with hcontains' | ⟨txin'', hmem, hends⟩
        · exact .inl hcontains'
        · rcases List.mem_cons.mp hmem with rfl | hmem
          · rw [hcontains, hfound, hgo] at hends
            simp at hends
          · exact .inr ⟨txin'', hmem, hends⟩
      · exact ⟨found, if_neg hgo⟩

/-- A transaction that can be searched: the mints have six bytes, and a spend has 44 unless something before it matches. -/
structure Searchable (getvch : Valtype → Valtype) (f : CBloomFilter) (tx : CTransaction) : Prop where
  mints : ∀ out ∈ tx.vout, out.isZerocoinMint = true → 6 ≤ out.scriptPubKey.bytes.length
  spends : ∀ pre txin post, tx.vin = pre ++ txin :: post → ShortSpend txin →
    f.contains (writeUint256 tx.hash) = some true ∨ (∃ out ∈ tx.vout, f.outputMatches out = some (some true)) ∨
    f.contains txin.prevout.serialize = some true ∨ ∃ txin' ∈ pre, f.contains txin'.prevout.serialize = some true ∨
      f.inputMatches getvch txin' ≠ some (some false)

theorem Holds.isRelevantAndUpdate (h : f.Holds keys)
    (hfits : f.isFull = true ∨ f.isEmpty = true ∨ f.Searchable getvch tx) :
    ∃ g answer inserted, f.isRelevantAndUpdate getvch tx = some (g, answer, inserted) ∧ g.Holds (keys ++ inserted) := by
  cases hfull : f.isFull with
  | true => exact ⟨f, some true, [], by rw [CBloomFilter.isRelevantAndUpdate, hfull, if_pos rfl], by rwa [List.append_nil]⟩
  | false =>
    cases hempty : f.isEmpty with
    | true =>
      refine ⟨f, some false, [], ?_, by rwa [List.append_nil]⟩
      rw [CBloomFilter.isRelevantAndUpdate, hfull, hempty]
      rfl
    | false =>
      have hsearch : f.Searchable getvch tx := by simpa [hfull, hempty] using hfits
      have hcan : f.CanHash := by simpa [hfull, hempty] using h.usable
      have hf : f.Active := ⟨hfull, hempty, hcan⟩
      obtain ⟨known, hknown, -⟩ := hf.contains_spec (writeUint256 tx.hash)
      obtain ⟨g, found, inserted, houtputs, hg, hgactive, hunchanged⟩ := h.relevantOutputs tx.hash tx.vout 0 hf hsearch.mints
      rw [CBloomFilter.isRelevantAndUpdate, hfull, hempty]
      simp only [Bool.false_eq_true, if_false, Option.bind_eq_bind, hknown, Option.bind_some, houtputs]
      cases hany : known || found with
      | true => exact ⟨g, some true, inserted, rfl, hg⟩
      | false =>
        rw [Bool.or_eq_false_iff] at hany
        obtain ⟨hnot, hnone⟩ := hany
        obtain ⟨rfl, hout⟩ := hunchanged hnone
        obtain ⟨answer, hanswer⟩ := @Active.exists_relevantInputs g getvch hgactive tx.vin (by
          intro pre txin post hvin hshort
          rcases hsearch.spends pre txin post hvin hshort with hhash | ⟨out, hmem, hmatch⟩ | hrest
          · rw [hknown, hnot] at hhash
            cases hhash
          · exact absurd hmatch (hout out hmem)
          · exact hrest)
        rw [hanswer]
        exact ⟨g, answer, inserted, rfl, hg⟩

theorem Initial.holds (h : f.Initial) : f.Holds [] := by
  cases h with
  | default => exact ⟨fun _ b hb => (by cases hb), fun h => (by cases h), fun _ => Covers.of_empty (by simp), .inl rfl⟩
  | @constructed nBits nElements nTweakIn nFlagsIn f h =>
    unfold construct at h
    by_cases hzero : nElements = 0
    · simp [hzero] at h
    · simp only [if_neg hzero, Option.some.injEq] at h
      subst h
      refine ⟨fun h => (by cases h), fun h => (by cases h), fun _ => Covers.of_empty (by simp), .inr (.inr ?_)⟩
      by_cases hsize : min nBits (MAX_BLOOM_FILTER_SIZE * 8) / 8 = 0
      · right
        simp [hsize, timesLn2]
      · left
        simp [hsize]
  | @received f h =>
    have hnil : Holds { f with isFull := false, isEmpty := true } [] :=
      ⟨fun h => (by cases h), fun _ => .inr rfl, fun _ => Covers.of_empty (by simp), .inr (.inl rfl)⟩
    exact hnil.updateEmptyFull (.inl rfl)

end CBloomFilter

/-! ## Runs of operations -/

/-- What an operation needs of the filters.

* A key is not inserted into a filter without data that has hash functions and is not marked as full.
* Neither of two filters to merge matches everything, and a filter that is marked as empty does not take over keys.
* Without hash functions and without a bit, the flags of a filter with keys are not computed anew. -/
def BloomOp.Fits (getvch : Valtype → Valtype) (s : Filters) : BloomOp → Prop
  | .insert i _ => (s.filter i).isFull = true ∨ (s.filter i).CanHash
  | .clear _ => True
  | .merge i j => (s.filter i).matchesAll = false ∧ (s.filter j).matchesAll = false ∧
      ((s.filter i).isEmpty = true → (s.filter j).SameHash (s.filter i) → s.keys j = [])
  | .updateEmptyFull i => s.keys i = [] ∨ (s.filter i).nHashFuncs ≠ 0 ∨ (s.filter i).vData = [] ∨
      ∃ b ∈ (s.filter i).vData, b ≠ 0
  | .isRelevantAndUpdate i tx => (s.filter i).isFull = true ∨ (s.filter i).isEmpty = true ∨
      (s.filter i).Searchable getvch tx

namespace Filters

variable {s : Filters} {getvch : Valtype → Valtype}

/-- All filters fit their keys. -/
def Hold (s : Filters) : Prop := ∀ i, (s.filter i).Holds (s.keys i)

theorem Hold.set (h : s.Hold) {i : Nat} {f : CBloomFilter} {keys : List Valtype} (hf : f.Holds keys) : (s.set i f keys).Hold := by
  intro j
  by_cases hj : j = i
  · rw [hj]
    simpa [Filters.set] using hf
  · simpa [Filters.set, hj] using h j

theorem Hold.step (h : s.Hold) {op : BloomOp} (hfits : op.Fits getvch s) :
    ∃ s', Filters.step getvch s op = some s' ∧ s'.Hold := by
  cases op with
  | insert i vKey =>
    obtain ⟨f, hinsert, hf, -⟩ := (h i).insert hfits vKey
    exact ⟨_, by rw [Filters.step, hinsert]; rfl, h.set hf⟩
  | clear i => exact ⟨_, rfl, h.set (CBloomFilter.Holds.clear _)⟩
  | merge i j =>
    obtain ⟨merged, f, hmerge, hf⟩ := (h i).merge (h j) hfits.1 hfits.2.1 hfits.2.2
    exact ⟨_, by rw [Filters.step, hmerge]; rfl, h.set hf⟩
  | updateEmptyFull i => exact ⟨_, rfl, h.set ((h i).updateEmptyFull hfits)⟩
  | isRelevantAndUpdate i tx =>
    obtain ⟨f, answer, inserted, hrelevant, hf⟩ := (h i).isRelevantAndUpdate hfits
    exact ⟨_, by rw [Filters.step, hrelevant]; rfl, h.set hf⟩

end Filters

/-- In every run whose operations have what they need, all accesses are in range and every key is found. -/
theorem noFalseNegatives (getvch : Valtype → Valtype) (start : Nat → CBloomFilter) (ops : List BloomOp)
    (hstart : ∀ i, (start i).Initial)
    (hfits : Meets (Filters.step getvch) (fun s op => op.Fits getvch s) ⟨start, fun _ => []⟩ ops) :
    NoFalseNegatives getvch start ops := by
  have hinitial : (⟨start, fun _ => []⟩ : Filters).Hold := fun i => (hstart i).holds
  obtain ⟨s, hrun, hs⟩ := Meets.exists_run (fun s op hs hop => Filters.Hold.step hs hop) hinitial hfits
  exact ⟨s, hrun, fun i vKey hkey => (hs i).contains hkey⟩

/-- A filter of one byte with one hash function. -/
def CBloomFilter.small : CBloomFilter := ⟨[1], false, false, 1, 0, BLOOM_UPDATE_ALL⟩

/-- Two filters, of which one takes over the key of the other, and is then shown a transaction. -/
theorem noFalseNegatives_small :
    NoFalseNegatives id (fun _ => CBloomFilter.small.updateEmptyFull)
      [.insert 1 [7], .merge 0 1, .isRelevantAndUpdate 0 ⟨5, 1, [], [⟨0, ([0x51] : List UInt8), -10⟩], 0⟩] := by
  apply noFalseNegatives
  · intro _
    exact .received (by decide)
  · refine ⟨.inr (.inl (List.cons_ne_nil _ _)), fun s h => ?_⟩
    cases h
    refine ⟨⟨rfl, rfl, fun h => (by cases h)⟩, fun s h => ?_⟩
    cases h
    refine ⟨.inr (.inr ⟨?_, ?_⟩), fun _ _ => trivial⟩
    · intro out hout hmint
      cases List.mem_singleton.mp hout
      cases hmint
    intro pre txin post hvin
    cases pre <;> cases hvin

/-- A received filter is shown an output whose script is the opcode of a mint. -/
theorem not_noFalseNegatives_mint :
    ¬ ∀ (getvch : Valtype → Valtype) (start : Nat → CBloomFilter) (ops : List BloomOp), (∀ i, (start i).Initial) →
      NoFalseNegatives getvch start ops := by
  intro h
  obtain ⟨s, hrun, -⟩ := h id (fun _ => CBloomFilter.small.updateEmptyFull)
    [.isRelevantAndUpdate 0 ⟨5, 1, [], [⟨0, ([OP_ZEROCOINMINT] : List UInt8), -10⟩], 0⟩] fun _ => .received (by decide)
  cases hrun

end DigiWage
