import Mathlib.Data.List.Basic
import Mathlib.Data.Nat.Find
import Mathlib.Data.Nat.ModEq
import Mathlib.Order.Lattice

/-!
# Files that are read through a buffer

`CBufferedFile` of `streams.h`: a ring buffer, filled from a file, in which the reader may go back. The sums of positions and sizes stay
below `2 ^ 64`, the size of the buffer below `2 ^ 32`, and `fread` fails at the end of the file only.

* `Valid`: the buffer holds the last bytes that were read from the file.
* `readLoop_ok`, `findByte_ok`: reading gives the bytes of the file from the position on, whatever the buffer has to be filled with.
-/

namespace DigiWage

/-- The next place of a byte. -/
def NextByte (file : List UInt8) (ch : UInt8) (a q : Nat) : Prop :=
  a ≤ q ∧ q < file.length ∧ file.getD q 0 = ch ∧ ∀ p, a ≤ p → p < q → file.getD p 0 ≠ ch

theorem exists_nextByte (file : List UInt8) (ch : UInt8) (a : Nat) :
    (∃ q, NextByte file ch a q) ∨ ∀ p, a ≤ p → p < file.length → file.getD p 0 ≠ ch := by
  by_cases h : ∃ q, a ≤ q ∧ q < file.length ∧ file.getD q 0 = ch
  · classical
    refine .inl ⟨Nat.find h, (Nat.find_spec h).1, (Nat.find_spec h).2.1, (Nat.find_spec h).2.2, fun p hap hp heq => ?_⟩
    exact Nat.find_min h hp ⟨hap, hp.trans (Nat.find_spec h).2.1, heq⟩
  · exact .inr fun p hap hp heq => h ⟨p, hap, hp, heq⟩

/-- `CBufferedFile`. The buffer is `vchBuf`, of which there are `nBufSize` bytes. -/
structure CBufferedFile where
  src : List UInt8
  feof : Bool
  nSrcPos : Nat
  nReadPos : Nat
  nReadLimit : Nat
  nRewind : Nat
  nBufSize : Nat
  vchBuf : Nat → UInt8

/-- What comes of reading: `none` when it does not end in so many rounds, an error when it throws. -/
abbrev Reading (α : Type) := Option (Except CBufferedFile (α × CBufferedFile))

namespace CBufferedFile

/-- `(uint64_t)(-1)`. -/
def noLimit : Nat := 2 ^ 64 - 1

/-- The constructor. -/
def new (fileIn : List UInt8) (nBufSize nRewindIn : Nat) : CBufferedFile :=
  ⟨fileIn, false, 0, 0, noLimit, nRewindIn, nBufSize, fun _ => 0⟩

/-- What `fread` read goes to the place of the position. -/
def filled (f : CBufferedFile) (data : List UInt8) : CBufferedFile :=
  { f with
    nSrcPos := f.nSrcPos + data.length
    vchBuf := fun i => if f.nSrcPos % f.nBufSize ≤ i ∧ i < f.nSrcPos % f.nBufSize + data.length then
      data.getD (i - f.nSrcPos % f.nBufSize) 0 else f.vchBuf i }

/-- `Fill`: read data from the source to fill the buffer. -/
def fill (f : CBufferedFile) : Except CBufferedFile CBufferedFile :=
  let pos := f.nSrcPos % f.nBufSize
  let readNow := min (f.nBufSize - pos) (f.nBufSize - (f.nSrcPos - f.nReadPos) - f.nRewind)
  if readNow = 0 then .ok f
  else
    let data := (f.src.drop f.nSrcPos).take readNow
    -- `fread` meets the end of the file
    let f := { f with feof := f.feof || decide (data.length < readNow) }
    if data.isEmpty then .error f else .ok (f.filled data)

def eof (f : CBufferedFile) : Bool := f.nReadPos == f.nSrcPos && f.feof

/-- `if (nReadPos == nSrcPos) Fill()`. -/
def refill (f : CBufferedFile) : Except CBufferedFile CBufferedFile := if f.nReadPos = f.nSrcPos then f.fill else .ok f

/-- The loop of `read`. -/
def readLoop : Nat → CBufferedFile → Nat → Reading (List UInt8)
  | _, f, 0 => some (.ok ([], f))
  | 0, _, _ + 1 => none
  | fuel + 1, f, nSize =>
    match f.refill with
    | .error f => some (.error f)
    | .ok f =>
      let pos := f.nReadPos % f.nBufSize
      let nNow := min (min nSize (f.nBufSize - pos)) (f.nSrcPos - f.nReadPos)
      let pch := (List.range nNow).map fun i => f.vchBuf (pos + i)
      match readLoop fuel { f with nReadPos := f.nReadPos + nNow } (nSize - nNow) with
      | none => none
      | some (.error f) => some (.error f)
      | some (.ok (rest, f)) => some (.ok (pch ++ rest, f))

/-- `read`: read a number of bytes. -/
def read (fuel : Nat) (f : CBufferedFile) (nSize : Nat) : Reading (List UInt8) :=
  if f.nReadLimit < nSize + f.nReadPos then some (.error f)
  else if f.nBufSize < nSize + f.nRewind then some (.error f)
  else readLoop fuel f nSize

/-- `SetPos`: rewind to a given reading position. -/
def setPos (f : CBufferedFile) (nPos : Nat) : CBufferedFile :=
  { f with nReadPos := if nPos + f.nRewind < f.nSrcPos then f.nSrcPos - f.nRewind else min nPos f.nSrcPos }

/-- `SetLimit`: prevent reading beyond a certain position. -/
def setLimit (f : CBufferedFile) (nPos : Nat) : CBufferedFile :=
  if nPos < f.nReadPos then f else { f with nReadLimit := nPos }

/-- `FindByte`: search for a given byte in the stream, and remain positioned on it. -/
def findByte : Nat → CBufferedFile → UInt8 → Option (Except CBufferedFile CBufferedFile)
  | 0, _, _ => none
  | fuel + 1, f, ch =>
    match f.refill with
    | .error f => some (.error f)
    | .ok f =>
      if f.vchBuf (f.nReadPos % f.nBufSize) = ch then some (.ok f)
      else findByte fuel { f with nReadPos := f.nReadPos + 1 } ch

/-! ## The buffer holds the file -/

/-- The positions are in order, and the buffer holds what was read last. -/
structure Valid (f : CBufferedFile) : Prop where
  room : f.nRewind < f.nBufSize
  read_le : f.nReadPos ≤ f.nSrcPos
  src_le : f.nSrcPos ≤ f.src.length
  window : f.nSrcPos ≤ f.nReadPos + f.nBufSize
  held : ∀ p < f.nSrcPos, f.nSrcPos ≤ p + f.nBufSize → f.vchBuf (p % f.nBufSize) = f.src.getD p 0
  ended : f.feof = true → f.nSrcPos = f.src.length

/-- `f'` is `f` after reading to `p`: it has not read further from the file than it had to. -/
structure Advanced (f f' : CBufferedFile) (p : Nat) : Prop where
  valid : f'.Valid
  src : f'.src = f.src
  nBufSize : f'.nBufSize = f.nBufSize
  nRewind : f'.nRewind = f.nRewind
  nReadLimit : f'.nReadLimit = f.nReadLimit
  nReadPos : f'.nReadPos = p
  src_le : f'.nSrcPos ≤ max f.nSrcPos (p + (f.nBufSize - f.nRewind))

variable {f f' f'' : CBufferedFile} {p q : Nat}

theorem Valid.refl (h : f.Valid) : Advanced f f f.nReadPos := ⟨h, rfl, rfl, rfl, rfl, rfl, le_max_left _ _⟩

theorem Advanced.trans (h : Advanced f f' p) (h' : Advanced f' f'' q) (hpq : p ≤ q) : Advanced f f'' q := by
  refine ⟨h'.valid, h'.src.trans h.src, h'.nBufSize.trans h.nBufSize, h'.nRewind.trans h.nRewind, h'.nReadLimit.trans h.nReadLimit,
    h'.nReadPos, ?_⟩
  have h₁ := h.src_le
  have h₂ := h'.src_le
  rw [h.nBufSize, h.nRewind] at h₂
  omega

theorem valid_new {fileIn : List UInt8} {nBufSize nRewindIn : Nat} (h : nRewindIn < nBufSize) : (new fileIn nBufSize nRewindIn).Valid where
  room := h
  read_le := le_rfl
  src_le := Nat.zero_le _
  window := Nat.zero_le _
  held _ hp := absurd hp (Nat.not_lt_zero _)
  ended h := by cases h

theorem add_mod_of_lt {a i n : Nat} (h : a % n + i < n) : (a + i) % n = a % n + i := by
  conv_lhs => rw [← Nat.div_add_mod a n, Nat.add_assoc, Nat.mul_add_mod]
  exact Nat.mod_eq_of_lt h

theorem mod_ne_of_lt {a b n : Nat} (hlt : a < b) (hnear : b < a + n) : a % n ≠ b % n := by
  intro h
  have hdvd : n ∣ b - a := (Nat.modEq_iff_dvd' hlt.le).mp h
  exact absurd (Nat.le_of_dvd (by omega) hdvd) (by omega)

theorem Valid.filled {data : List UInt8} {n : Nat} {feof : Bool} (h : f.Valid) (hdata : data = (f.src.drop f.nSrcPos).take n)
    (hplace : n ≤ f.nBufSize - f.nSrcPos % f.nBufSize) (hroom : n ≤ f.nBufSize - f.nRewind) (hend : f.nReadPos = f.nSrcPos)
    (hfeof : feof = true → f.nSrcPos + data.length = f.src.length) :
    Advanced f (CBufferedFile.filled { f with feof := feof } data) f.nReadPos := by
  have hlen : data.length = min n (f.src.length - f.nSrcPos) := by rw [hdata, List.length_take, List.length_drop]
  have hrewind := h.room
  have hsrc := h.src_le
  have hpos : f.nSrcPos % f.nBufSize < f.nBufSize := Nat.mod_lt _ (by omega)
  refine ⟨⟨h.room, ?_, ?_, ?_, ?_, hfeof⟩, rfl, rfl, rfl, rfl, rfl, ?_⟩
  · change f.nReadPos ≤ f.nSrcPos + data.length
    omega
  · change f.nSrcPos + data.length ≤ f.src.length
    omega
  · change f.nSrcPos + data.length ≤ f.nReadPos + f.nBufSize
    omega
  · intro p hp hwindow
    change p < f.nSrcPos + data.length at hp
    change f.nSrcPos + data.length ≤ p + f.nBufSize at hwindow
    change (if f.nSrcPos % f.nBufSize ≤ p % f.nBufSize ∧ p % f.nBufSize < f.nSrcPos % f.nBufSize + data.length then
      data.getD (p % f.nBufSize - f.nSrcPos % f.nBufSize) 0 else f.vchBuf (p % f.nBufSize)) = f.src.getD p 0
    by_cases hnew : f.nSrcPos ≤ p
    · have hadd : (f.nSrcPos + (p - f.nSrcPos)) % f.nBufSize = f.nSrcPos % f.nBufSize + (p - f.nSrcPos) := add_mod_of_lt (by omega)
      rw [Nat.add_sub_cancel' hnew] at hadd
      rw [if_pos (by omega), hadd, Nat.add_sub_cancel_left, hdata, List.getD_eq_getElem?_getD, List.getElem?_take_of_lt (by omega),
        List.getElem?_drop, Nat.add_sub_cancel' hnew, ← List.getD_eq_getElem?_getD]
    · have hother : ¬ (f.nSrcPos % f.nBufSize ≤ p % f.nBufSize ∧ p % f.nBufSize < f.nSrcPos % f.nBufSize + data.length) := by
        rintro ⟨hge, hlt⟩
        -- the place would be that of a byte that was read now
        have hadd : (f.nSrcPos + (p % f.nBufSize - f.nSrcPos % f.nBufSize)) % f.nBufSize =
            f.nSrcPos % f.nBufSize + (p % f.nBufSize - f.nSrcPos % f.nBufSize) := add_mod_of_lt (by omega)
        rw [Nat.add_sub_cancel' hge] at hadd
        exact mod_ne_of_lt (by omega) (by omega) hadd.symm
      rw [if_neg hother]
      exact h.held p (by omega) (by omega)
  · change f.nSrcPos + data.length ≤ max f.nSrcPos (f.nReadPos + (f.nBufSize - f.nRewind))
    omega

theorem Valid.fill_eq (h : f.Valid) (hend : f.nReadPos = f.nSrcPos) : ∃ n, 0 < n ∧ n ≤ f.nBufSize - f.nSrcPos % f.nBufSize ∧
    n ≤ f.nBufSize - f.nRewind ∧ f.fill = if ((f.src.drop f.nSrcPos).take n).isEmpty then
      .error { f with feof := f.feof || decide (((f.src.drop f.nSrcPos).take n).length < n) }
      else .ok (CBufferedFile.filled { f with feof := f.feof || decide (((f.src.drop f.nSrcPos).take n).length < n) }
        ((f.src.drop f.nSrcPos).take n)) := by
  have hroom := h.room
  have hpos : f.nSrcPos % f.nBufSize < f.nBufSize := Nat.mod_lt _ (by omega)
  refine ⟨min (f.nBufSize - f.nSrcPos % f.nBufSize) (f.nBufSize - (f.nSrcPos - f.nReadPos) - f.nRewind), by omega, by omega, by omega, ?_⟩
  exact if_neg (by omega)

theorem Valid.fill_ok (h : f.Valid) (hend : f.nReadPos = f.nSrcPos) (hmore : f.nSrcPos < f.src.length) :
    ∃ f', f.fill = .ok f' ∧ Advanced f f' f.nReadPos ∧ f'.nReadPos < f'.nSrcPos := by
  obtain ⟨n, hpositive, hplace, hroom, hfill⟩ := h.fill_eq hend
  have hlen : ((f.src.drop f.nSrcPos).take n).length = min n (f.src.length - f.nSrcPos) := by rw [List.length_take, List.length_drop]
  have hnonempty : ((f.src.drop f.nSrcPos).take n).isEmpty = false := by
    rw [List.isEmpty_eq_false_iff, ← List.length_pos_iff]
    omega
  rw [hnonempty, if_neg Bool.false_ne_true] at hfill
  refine ⟨_, hfill, h.filled rfl hplace hroom hend ?_, ?_⟩
  · intro hfeof
    rw [Bool.or_eq_true, decide_eq_true_eq] at hfeof
    rcases hfeof with hfeof | hshort
    · exact absurd (h.ended hfeof) hmore.ne
    · omega
  · change f.nReadPos < f.nSrcPos + ((f.src.drop f.nSrcPos).take n).length
    omega

theorem Valid.fill_error (h : f.Valid) (hend : f.nReadPos = f.nSrcPos) (hmore : f.nSrcPos = f.src.length) :
    ∃ f', f.fill = .error f' ∧ Advanced f f' f.nReadPos := by
  obtain ⟨n, -, -, -, hfill⟩ := h.fill_eq hend
  have hnone : (f.src.drop f.nSrcPos).take n = [] := by rw [hmore, List.drop_length, List.take_nil]
  rw [hnone] at hfill
  exact ⟨_, hfill, ⟨h.room, h.read_le, h.src_le, h.window, h.held, fun _ => hmore⟩, rfl, rfl, rfl, rfl, rfl, le_max_left _ _⟩

theorem Valid.refill_ok (h : f.Valid) (hmore : f.nReadPos < f.src.length) :
    ∃ f', f.refill = .ok f' ∧ Advanced f f' f.nReadPos ∧ f'.nReadPos < f'.nSrcPos := by
  unfold refill
  by_cases hend : f.nReadPos = f.nSrcPos
  · rw [if_pos hend]
    exact h.fill_ok hend (by omega)
  · rw [if_neg hend]
    exact ⟨f, rfl, h.refl, lt_of_le_of_ne h.read_le hend⟩

theorem Valid.refill_error (h : f.Valid) (hmore : f.nReadPos = f.src.length) :
    ∃ f', f.refill = .error f' ∧ Advanced f f' f.src.length := by
  have hend : f.nReadPos = f.nSrcPos := by
    have h₁ := h.read_le
    have h₂ := h.src_le
    omega
  rw [refill, if_pos hend, ← hmore]
  exact h.fill_error hend (hend ▸ hmore)

theorem Valid.current (h : f.Valid) (hmore : f.nReadPos < f.nSrcPos) : f.vchBuf (f.nReadPos % f.nBufSize) = f.src.getD f.nReadPos 0 :=
  h.held _ hmore h.window

theorem Valid.at_of_le (h : f.Valid) (hle : p ≤ f.nSrcPos) (hnear : f.nSrcPos ≤ p + f.nBufSize) : { f with nReadPos := p }.Valid :=
  ⟨h.room, hle, h.src_le, hnear, h.held, h.ended⟩

theorem Valid.ahead {n : Nat} (h : f.Valid) (hn : f.nReadPos + n ≤ f.nSrcPos) :
    Advanced f { f with nReadPos := f.nReadPos + n } (f.nReadPos + n) := by
  have hwindow := h.window
  exact ⟨h.at_of_le hn (by omega), rfl, rfl, rfl, rfl, rfl, le_max_left _ _⟩

theorem Valid.copied {n : Nat} (h : f.Valid) (hn : f.nReadPos + n ≤ f.nSrcPos) (hplace : f.nReadPos % f.nBufSize + n ≤ f.nBufSize) :
    (List.range n).map (fun i => f.vchBuf (f.nReadPos % f.nBufSize + i)) = (f.src.drop f.nReadPos).take n := by
  have hsrc := h.src_le
  have hwindow := h.window
  apply List.ext_getElem
  · rw [List.length_map, List.length_range, List.length_take, List.length_drop]
    omega
  · intro i hi hi'
    rw [List.length_map, List.length_range] at hi
    rw [List.getElem_map, List.getElem_range, ← add_mod_of_lt (by omega), h.held _ (by omega) (by omega), List.getElem_take,
      List.getElem_drop, List.getD_eq_getElem?_getD, List.getElem?_eq_getElem (by omega), Option.getD_some]

theorem readLoop_ok : ∀ {fuel : Nat} {f : CBufferedFile} {nSize : Nat}, f.Valid → f.nReadPos + nSize ≤ f.src.length → nSize ≤ fuel →
    ∃ f', readLoop fuel f nSize = some (.ok ((f.src.drop f.nReadPos).take nSize, f')) ∧ Advanced f f' (f.nReadPos + nSize)
  | fuel, f, 0, h, _, _ => by
    refine ⟨f, ?_, h.refl⟩
    cases fuel <;> rfl
  | fuel + 1, f, nSize + 1, h, hlen, hfuel => by
    obtain ⟨f₁, hrefill, hadv₁, hmore⟩ := h.refill_ok (by omega)
    have hv₁ := hadv₁.valid
    have hp₁ : f₁.nReadPos = f.nReadPos := hadv₁.nReadPos
    have hroom := hv₁.room
    have hplace : f₁.nReadPos % f₁.nBufSize < f₁.nBufSize := Nat.mod_lt _ (by omega)
    obtain ⟨nNow, hnow⟩ : ∃ n, n = min (min (nSize + 1) (f₁.nBufSize - f₁.nReadPos % f₁.nBufSize)) (f₁.nSrcPos - f₁.nReadPos) := ⟨_, rfl⟩
    have hadv₂ := hv₁.ahead (n := nNow) (by omega)
    obtain ⟨f', hrest, hadv₃⟩ := @readLoop_ok fuel _ (nSize + 1 - nNow) hadv₂.valid (by
      change f₁.nReadPos + nNow + (nSize + 1 - nNow) ≤ f₁.src.length
      rw [hadv₁.src]
      omega) (by omega)
    have hcopied := hv₁.copied (n := nNow) (by omega) (by omega)
    refine ⟨f', ?_, ?_⟩
    · simp only [readLoop, hrefill, ← hnow, hrest, hcopied]
      rw [hadv₁.src, hp₁, ← List.drop_drop, ← List.take_add, Nat.add_sub_cancel' (by omega)]
    · have hall := (hadv₁.trans hadv₂ (by omega)).trans hadv₃ (by
        change f₁.nReadPos + nNow ≤ f₁.nReadPos + nNow + (nSize + 1 - nNow)
        omega)
      have hend : f₁.nReadPos + nNow + (nSize + 1 - nNow) = f.nReadPos + (nSize + 1) := by omega
      rw [← hend]
      exact hall

theorem readLoop_error : ∀ {fuel : Nat} {f : CBufferedFile} {nSize : Nat}, f.Valid → f.nReadPos ≤ f.src.length →
    f.src.length < f.nReadPos + nSize → nSize ≤ fuel → ∃ f', readLoop fuel f nSize = some (.error f') ∧ Advanced f f' f.src.length
  | _, f, 0, _, hle, hlen, _ => by omega
  | fuel + 1, f, nSize + 1, h, hle, hlen, hfuel => by
    by_cases hend : f.nReadPos = f.src.length
    · obtain ⟨f', hrefill, hadv⟩ := h.refill_error hend
      exact ⟨f', by simp only [readLoop, hrefill], hadv⟩
    obtain ⟨f₁, hrefill, hadv₁, hmore⟩ := h.refill_ok (by omega)
    have hv₁ := hadv₁.valid
    have hp₁ : f₁.nReadPos = f.nReadPos := hadv₁.nReadPos
    have hroom := hv₁.room
    have hsrc := hv₁.src_le
    have hplace : f₁.nReadPos % f₁.nBufSize < f₁.nBufSize := Nat.mod_lt _ (by omega)
    obtain ⟨nNow, hnow⟩ : ∃ n, n = min (min (nSize + 1) (f₁.nBufSize - f₁.nReadPos % f₁.nBufSize)) (f₁.nSrcPos - f₁.nReadPos) := ⟨_, rfl⟩
    have hadv₂ := hv₁.ahead (n := nNow) (by omega)
    obtain ⟨f', hrest, hadv₃⟩ := @readLoop_error fuel _ (nSize + 1 - nNow) hadv₂.valid (by
      change f₁.nReadPos + nNow ≤ f₁.src.length
      omega) (by
      change f₁.src.length < f₁.nReadPos + nNow + (nSize + 1 - nNow)
      rw [hadv₁.src]
      omega) (by omega)
    refine ⟨f', by simp only [readLoop, hrefill, ← hnow, hrest], ?_⟩
    rw [← hadv₁.src] at hle ⊢
    exact (hadv₁.trans hadv₂ (by omega)).trans hadv₃ (by omega)

theorem findByte_ok : ∀ {fuel : Nat} {f : CBufferedFile} {ch : UInt8}, f.Valid → f.nReadPos ≤ q → q < f.src.length →
    f.src.getD q 0 = ch → (∀ p, f.nReadPos ≤ p → p < q → f.src.getD p 0 ≠ ch) → q - f.nReadPos < fuel →
    ∃ f', findByte fuel f ch = some (.ok f') ∧ Advanced f f' q
  | fuel + 1, f, ch, h, hle, hlt, hfound, hnot, hfuel => by
    obtain ⟨f₁, hrefill, hadv₁, hmore⟩ := h.refill_ok (by omega)
    have hp₁ : f₁.nReadPos = f.nReadPos := hadv₁.nReadPos
    have hcurrent := hadv₁.valid.current hmore
    rw [hadv₁.src, hp₁] at hcurrent
    rw [findByte, hrefill]
    simp only [hp₁, hcurrent]
    by_cases hhere : f.nReadPos = q
    · rw [if_pos (by rw [hhere, hfound])]
      exact ⟨f₁, rfl, hhere ▸ hadv₁⟩
    · rw [if_neg (hnot _ le_rfl (by omega))]
      have hadv₂ := hadv₁.valid.ahead (n := 1) (by omega)
      rw [hp₁] at hadv₂
      obtain ⟨f', hrest, hadv₃⟩ := @findByte_ok fuel _ ch hadv₂.valid (by change f.nReadPos + 1 ≤ q; omega)
        (by change q < f₁.src.length; rwa [hadv₁.src]) (by change f₁.src.getD q 0 = ch; rwa [hadv₁.src])
        (fun p hp hpq => by
          change f.nReadPos + 1 ≤ p at hp
          change f₁.src.getD p 0 ≠ ch
          rw [hadv₁.src]
          exact hnot p (by omega) hpq)
        (by change q - (f.nReadPos + 1) < fuel; omega)
      exact ⟨f', hrest, (hadv₁.trans hadv₂ (by omega)).trans hadv₃ (by omega)⟩

theorem findByte_error : ∀ {fuel : Nat} {f : CBufferedFile} {ch : UInt8}, f.Valid → f.nReadPos ≤ f.src.length →
    (∀ p, f.nReadPos ≤ p → p < f.src.length → f.src.getD p 0 ≠ ch) → f.src.length - f.nReadPos < fuel →
    ∃ f', findByte fuel f ch = some (.error f') ∧ Advanced f f' f.src.length
  | fuel + 1, f, ch, h, hle, hnot, hfuel => by
    by_cases hend : f.nReadPos = f.src.length
    · obtain ⟨f', hrefill, hadv⟩ := h.refill_error hend
      exact ⟨f', by rw [findByte, hrefill], hadv⟩
    obtain ⟨f₁, hrefill, hadv₁, hmore⟩ := h.refill_ok (by omega)
    have hp₁ : f₁.nReadPos = f.nReadPos := hadv₁.nReadPos
    have hsrc := hadv₁.valid.src_le
    have hcurrent := hadv₁.valid.current hmore
    rw [hadv₁.src, hp₁] at hcurrent
    have hadv₂ := hadv₁.valid.ahead (n := 1) (by omega)
    rw [hp₁] at hadv₂
    obtain ⟨f', hrest, hadv₃⟩ := @findByte_error fuel _ ch hadv₂.valid (by change f.nReadPos + 1 ≤ f₁.src.length; omega)
      (fun p hp hpq => by
        change f.nReadPos + 1 ≤ p at hp
        change p < f₁.src.length at hpq
        change f₁.src.getD p 0 ≠ ch
        rw [hadv₁.src] at hpq ⊢
        exact hnot p (by omega) hpq)
      (by change f₁.src.length - (f.nReadPos + 1) < fuel; rw [hadv₁.src]; omega)
    refine ⟨f', ?_, ?_⟩
    · rw [findByte, hrefill]
      simp only [hp₁, hcurrent]
      rw [if_neg (hnot _ le_rfl (by omega)), hrest]
    · rw [← hadv₁.src]
      exact (hadv₁.trans hadv₂ (by omega)).trans hadv₃ (by omega)

theorem Valid.setPos (h : f.Valid) (hle : p ≤ f.nSrcPos) (hnear : f.nSrcPos ≤ p + f.nRewind) :
    f.setPos p = { f with nReadPos := p } ∧ (f.setPos p).Valid := by
  have hroom := h.room
  have heq : f.setPos p = { f with nReadPos := p } := by
    rw [CBufferedFile.setPos, if_neg (by omega), min_eq_left hle]
  exact ⟨heq, heq ▸ h.at_of_le hle (by omega)⟩

/-! ## Any calls -/

/-- A call of `read`, `FindByte`, `SetPos` or `SetLimit`. -/
inductive FileCall where
  | read (nSize : Nat)
  | findByte (ch : UInt8)
  | setPos (nPos : Nat)
  | setLimit (nPos : Nat)

/-- The file after a call, whether it returns or throws: `none` when it does not end in so many rounds. -/
def call (fuel : Nat) (f : CBufferedFile) : FileCall → Option CBufferedFile
  | .read nSize => (f.read fuel nSize).map fun
    | .ok (_, f) => f
    | .error f => f
  | .findByte ch => (f.findByte fuel ch).map fun
    | .ok f => f
    | .error f => f
  | .setPos nPos => some (f.setPos nPos)
  | .setLimit nPos => some (f.setLimit nPos)

/-- At its position, the buffered file reads what `file` has there. -/
structure ReadsFile (fuel : Nat) (file : List UInt8) (f : CBufferedFile) : Prop where
  pos_le : f.nReadPos ≤ file.length
  eof : f.eof = true → f.nReadPos = file.length
  read_ok : ∀ n, n + f.nReadPos ≤ min f.nReadLimit file.length → n + f.nRewind ≤ f.nBufSize →
    ∃ f', f.read fuel n = some (.ok ((file.drop f.nReadPos).take n, f')) ∧ f'.nReadPos = f.nReadPos + n
  read_error : ∀ n, min f.nReadLimit file.length < n + f.nReadPos ∨ f.nBufSize < n + f.nRewind →
    ∃ f', f.read fuel n = some (.error f')
  findByte_ok : ∀ ch q, NextByte file ch f.nReadPos q → ∃ f', f.findByte fuel ch = some (.ok f') ∧ f'.nReadPos = q
  findByte_error : ∀ ch, (∀ q, ¬ NextByte file ch f.nReadPos q) → ∃ f', f.findByte fuel ch = some (.error f')
  setPos : ∀ p, (f.setPos p).nReadPos = p ↔ p ≤ f.nSrcPos ∧ f.nSrcPos ≤ p + f.nRewind

/-- `f` is valid, on the file and with the sizes it was made with. -/
structure IsOn (f : CBufferedFile) (file : List UInt8) (nBufSize nRewind : Nat) : Prop where
  valid : f.Valid
  src : f.src = file
  nBufSize : f.nBufSize = nBufSize
  nRewind : f.nRewind = nRewind

variable {file : List UInt8} {nBufSize nRewind fuel : Nat}

theorem Advanced.isOn (hadv : Advanced f f' p) (h : f.IsOn file nBufSize nRewind) : f'.IsOn file nBufSize nRewind :=
  ⟨hadv.valid, hadv.src.trans h.src, hadv.nBufSize.trans h.nBufSize, hadv.nRewind.trans h.nRewind⟩

theorem IsOn.read_error (h : f.IsOn file nBufSize nRewind) (hfuel : nBufSize < fuel) {n : Nat}
    (hn : min f.nReadLimit file.length < n + f.nReadPos ∨ f.nBufSize < n + f.nRewind) :
    ∃ f', f.read fuel n = some (.error f') ∧ f'.IsOn file nBufSize nRewind := by
  have hread := h.valid.read_le.trans h.valid.src_le
  have hsize := h.nBufSize
  unfold read
  split
  · exact ⟨f, rfl, h⟩
  · split
    · exact ⟨f, rfl, h⟩
    · obtain ⟨f', hloop, hadv⟩ := @readLoop_error fuel f n h.valid hread (by rw [h.src]; omega) (by omega)
      exact ⟨f', hloop, hadv.isOn h⟩

theorem IsOn.read_ok (h : f.IsOn file nBufSize nRewind) (hfuel : nBufSize < fuel) {n : Nat}
    (hn : n + f.nReadPos ≤ min f.nReadLimit file.length) (hroom : n + f.nRewind ≤ f.nBufSize) :
    ∃ f', f.read fuel n = some (.ok ((file.drop f.nReadPos).take n, f')) ∧ Advanced f f' (f.nReadPos + n) := by
  have hsize := h.nBufSize
  rw [read, if_neg (by omega), if_neg (by omega), ← h.src]
  exact readLoop_ok h.valid (by rw [h.src]; omega) (by omega)

theorem IsOn.findByte_ok (h : f.IsOn file nBufSize nRewind) (hfuel : file.length < fuel) {ch : UInt8}
    (hq : NextByte file ch f.nReadPos q) : ∃ f', f.findByte fuel ch = some (.ok f') ∧ Advanced f f' q := by
  rw [← h.src] at hq hfuel
  exact CBufferedFile.findByte_ok h.valid hq.1 hq.2.1 hq.2.2.1 hq.2.2.2 (by have := hq.2.1; omega)

theorem IsOn.findByte_error (h : f.IsOn file nBufSize nRewind) (hfuel : file.length < fuel) {ch : UInt8}
    (hno : ∀ p, f.nReadPos ≤ p → p < file.length → file.getD p 0 ≠ ch) :
    ∃ f', f.findByte fuel ch = some (.error f') ∧ f'.IsOn file nBufSize nRewind := by
  rw [← h.src] at hno hfuel
  obtain ⟨f', hfind, hadv⟩ := CBufferedFile.findByte_error h.valid (h.valid.read_le.trans h.valid.src_le) hno (by omega : _ < fuel)
  exact ⟨f', hfind, hadv.isOn h⟩

theorem IsOn.of_call (h : f.IsOn file nBufSize nRewind) (hfuel : max file.length nBufSize < fuel) (c : FileCall) :
    ∃ f', f.call fuel c = some f' ∧ f'.IsOn file nBufSize nRewind := by
  have hroom := h.valid.room
  cases c with
  | read n =>
    by_cases hn : min f.nReadLimit file.length < n + f.nReadPos ∨ f.nBufSize < n + f.nRewind
    · obtain ⟨f', hread, h'⟩ := h.read_error (by omega : nBufSize < fuel) hn
      exact ⟨f', by rw [CBufferedFile.call, hread]; rfl, h'⟩
    · obtain ⟨f', hread, hadv⟩ := h.read_ok (by omega : nBufSize < fuel) (n := n) (by omega) (by omega)
      exact ⟨f', by rw [CBufferedFile.call, hread]; rfl, hadv.isOn h⟩
  | findByte ch =>
    rcases exists_nextByte file ch f.nReadPos with ⟨q, hq⟩ | hno
    · obtain ⟨f', hfind, hadv⟩ := h.findByte_ok (by omega : _ < fuel) hq
      exact ⟨f', by rw [CBufferedFile.call, hfind]; rfl, hadv.isOn h⟩
    · obtain ⟨f', hfind, h'⟩ := h.findByte_error (by omega : _ < fuel) hno
      exact ⟨f', by rw [CBufferedFile.call, hfind]; rfl, h'⟩
  | setPos p =>
    refine ⟨_, rfl, ?_, h.src, h.nBufSize, h.nRewind⟩
    exact h.valid.at_of_le (by split <;> omega) (by split <;> omega)
  | setLimit p =>
    refine ⟨_, rfl, ?_⟩
    unfold setLimit
    split
    · exact h
    · exact ⟨⟨h.valid.room, h.valid.read_le, h.valid.src_le, h.valid.window, h.valid.held, h.valid.ended⟩, h.src, h.nBufSize, h.nRewind⟩

theorem IsOn.readsFile (h : f.IsOn file nBufSize nRewind) (hfuel : max file.length nBufSize < fuel) : ReadsFile fuel file f where
  pos_le := h.src ▸ h.valid.read_le.trans h.valid.src_le
  eof heof := by
    rw [CBufferedFile.eof, Bool.and_eq_true, beq_iff_eq] at heof
    rw [heof.1, h.valid.ended heof.2, h.src]
  read_ok n hn hroom := by
    obtain ⟨f', hread, hadv⟩ := h.read_ok (by omega : nBufSize < fuel) hn hroom
    exact ⟨f', hread, hadv.nReadPos⟩
  read_error n hn := by
    obtain ⟨f', hread, -⟩ := h.read_error (by omega : nBufSize < fuel) hn
    exact ⟨f', hread⟩
  findByte_ok ch q hq := by
    obtain ⟨f', hfind, hadv⟩ := h.findByte_ok (by omega : _ < fuel) hq
    exact ⟨f', hfind, hadv.nReadPos⟩
  findByte_error ch hno := by
    rcases exists_nextByte file ch f.nReadPos with ⟨q, hq⟩ | hnone
    · exact absurd hq (hno q)
    · obtain ⟨f', hfind, -⟩ := h.findByte_error (by omega : _ < fuel) hnone
      exact ⟨f', hfind⟩
  setPos p := by
    change (if p + f.nRewind < f.nSrcPos then f.nSrcPos - f.nRewind else min p f.nSrcPos) = p ↔ _
    split <;> omega

theorem IsOn.of_calls (hfuel : max file.length nBufSize < fuel) : ∀ (calls : List FileCall) {f : CBufferedFile},
    f.IsOn file nBufSize nRewind → ∃ f', calls.foldlM (call fuel) f = some f' ∧ f'.IsOn file nBufSize nRewind
  | [], f, h => ⟨f, rfl, h⟩
  | c :: calls, f, h => by
    obtain ⟨f₁, hcall, h₁⟩ := h.of_call hfuel c
    rw [List.foldlM_cons, hcall]
    exact IsOn.of_calls hfuel calls h₁

/-- Whatever was called, with or without success, the buffered file reads `file` at its position, and no call runs on without end. -/
theorem readsFile_run (hroom : nRewind < nBufSize) (hfuel : max file.length nBufSize < fuel) (calls : List FileCall) :
    ∃ f, calls.foldlM (call fuel) (new file nBufSize nRewind) = some f ∧ ReadsFile fuel file f := by
  obtain ⟨f, hrun, h⟩ := IsOn.of_calls hfuel calls ⟨valid_new hroom, rfl, rfl, rfl⟩
  exact ⟨f, hrun, h.readsFile hfuel⟩

theorem readsFile_run_fiveBytes :
    ∃ f, [FileCall.read 2, .setPos 1, .findByte 4].foldlM (call 6) (new [1, 2, 3, 4, 5] 4 2) = some f ∧ ReadsFile 6 [1, 2, 3, 4, 5] f :=
  readsFile_run (by decide) (by decide) _

end CBufferedFile

end DigiWage
