import DigiWage.Lib.Overwrite

/-!
# Data taken in blocks

A machine that takes a block of `k` elements at a time, fed from a stream through a buffer. The buffer holds what is left of the
stream after its last block; what is behind that in the buffer stays from before.

* `foldBlocks_add`: blocks one after the other.
* `Absorbed.write`: a write is as if its data had come with what was written before.
-/

namespace DigiWage.Lib

section Blocks

variable {S α : Type} (k : Nat) (step : S → List α → S)

/-- The first `n` blocks. -/
def foldBlocks : Nat → List α → S → S
  | 0, _, s => s
  | n + 1, data, s => foldBlocks n (data.drop k) (step s (data.take k))

variable {k step}

theorem foldBlocks_append_left : ∀ (n : Nat) {a : List α} (b : List α) (s : S), k * n ≤ a.length →
    foldBlocks k step n (a ++ b) s = foldBlocks k step n a s
  | 0, _, _, _, _ => rfl
  | n + 1, a, b, s, h => by
    have hk : k ≤ a.length := Nat.le_trans (Nat.le_mul_of_pos_right k (Nat.succ_pos n)) h
    rw [foldBlocks, foldBlocks, List.take_append_of_le_length hk, List.drop_append_of_le_length hk]
    refine foldBlocks_append_left n b _ ?_
    rw [List.length_drop]
    rw [Nat.mul_succ] at h
    omega

theorem foldBlocks_add : ∀ (n m : Nat) (data : List α) (s : S),
    foldBlocks k step (n + m) data s = foldBlocks k step m (data.drop (k * n)) (foldBlocks k step n data s)
  | 0, m, data, s => by
    rw [Nat.zero_add, Nat.mul_zero, List.drop_zero]
    rfl
  | n + 1, m, data, s => by
    rw [Nat.succ_add, foldBlocks, foldBlocks, foldBlocks_add n m, List.drop_drop, Nat.mul_succ, Nat.add_comm k]

variable (k step)

/-- The machine, its buffer, and how much it has been given. -/
structure Buffered (S α : Type) where
  s : S
  buf : List α
  bytes : Nat

/-- The blocks of `data`, and what is left of it; the first argument bounds the rounds. -/
def takeBlocks : Nat → Buffered S α → List α → Buffered S α × List α
  | 0, h, data => (h, data)
  | fuel + 1, h, data =>
    if k ≤ data.length then takeBlocks fuel { h with s := step h.s (data.take k), bytes := h.bytes + k } (data.drop k) else (h, data)

/-- A buffer that is not empty is filled up and taken, when there is enough for that. The data that is left, and where it goes
in the buffer. -/
def Buffered.fill (z : α) (h : Buffered S α) (data : List α) : Buffered S α × List α × Nat :=
  let bufsize := h.bytes % k
  if bufsize ≠ 0 ∧ k ≤ bufsize + data.length then
    let buf := overwrite z h.buf bufsize (data.take (k - bufsize))
    (⟨step h.s buf, buf, h.bytes + (k - bufsize)⟩, data.drop (k - bufsize), 0)
  else (h, data, bufsize)

/-- The buffer is filled up, blocks are taken from the data, and the rest goes to the buffer. -/
def Buffered.write (z : α) (h : Buffered S α) (data : List α) : Buffered S α :=
  let r := h.fill k step z data
  let t := takeBlocks k step r.2.1.length r.1 r.2.1
  { t.1 with buf := overwrite z t.1.buf r.2.2 t.2, bytes := t.1.bytes + t.2.length }

/-- The machine has taken the blocks of `data`, and the rest is in the buffer. -/
def Absorbed (init : S) (data : List α) (h : Buffered S α) : Prop :=
  ∃ n front rest, data = front ++ rest ∧ front.length = k * n ∧ rest.length < k ∧ h.s = foldBlocks k step n front init ∧
    h.buf.length = k ∧ h.buf.take rest.length = rest ∧ h.bytes = data.length

variable {k step} {init : S} {z : α}

theorem takeBlocks_spec (hk : 0 < k) : ∀ (fuel : Nat) (h : Buffered S α) (data : List α), data.length ≤ fuel →
    takeBlocks k step fuel h data =
      ({ h with s := foldBlocks k step (data.length / k) data h.s, bytes := h.bytes + k * (data.length / k) },
      data.drop (k * (data.length / k)))
  | 0, h, data, hfuel => by
    obtain rfl := List.length_eq_zero_iff.mp (Nat.le_zero.mp hfuel)
    rw [takeBlocks, List.length_nil, Nat.zero_div]
    rfl
  | fuel + 1, h, data, hfuel => by
    rw [takeBlocks]
    split
    · next hle =>
      have hdiv : data.length / k = (data.length - k) / k + 1 := Nat.div_eq_sub_div hk hle
      rw [takeBlocks_spec hk fuel _ _ (by rw [List.length_drop]; omega), List.length_drop, hdiv, List.drop_drop, foldBlocks,
        Nat.mul_succ,
        Nat.add_comm (k * _), Nat.add_assoc]
    · next hlt =>
      rw [Nat.div_eq_of_lt (Nat.not_le.mp hlt)]
      rfl

theorem foldBlocks_succ {n : Nat} {front block : List α} (hfront : front.length = k * n) (hblock : block.length = k) (s : S) :
    foldBlocks k step (n + 1) (front ++ block) s = step (foldBlocks k step n front s) block := by
  rw [foldBlocks_add, foldBlocks_append_left n block s (Nat.le_of_eq hfront.symm), List.drop_left' hfront, foldBlocks, foldBlocks,
    List.take_of_length_le (Nat.le_of_eq hblock)]

theorem take_overwrite_rest (z : α) {buf rest : List α} (more : List α) (hbuf : buf.length = k) (hrest : buf.take rest.length = rest)
    (hle : rest.length + more.length ≤ k) :
    (overwrite z buf rest.length more).length = k ∧ (overwrite z buf rest.length more).take (rest ++ more).length = rest ++ more := by
  by_cases hne : more = []
  · subst hne
    rw [List.append_nil]
    exact ⟨hbuf, hrest⟩
  · have hend := @take_overwrite_end α z buf more rest.length hne (by omega)
    rw [hrest] at hend
    rw [length_overwrite hne, List.length_append]
    exact ⟨by omega, hend⟩

theorem absorbed_takeBlocks {n : Nat} {front more : List α} {h : Buffered S α} (hk : 0 < k) (hfront : front.length = k * n)
    (hs : h.s = foldBlocks k step n front init) (hbuf : h.buf.length = k) (hbytes : h.bytes = front.length) :
    Absorbed k step init (front ++ more)
      { (takeBlocks k step more.length h more).1 with
        buf := overwrite z (takeBlocks k step more.length h more).1.buf 0 (takeBlocks k step more.length h more).2
        bytes := (takeBlocks k step more.length h more).1.bytes + (takeBlocks k step more.length h more).2.length } := by
  rw [takeBlocks_spec hk _ h more (Nat.le_refl _)]
  dsimp only
  have hdivmod := Nat.div_add_mod more.length k
  have hmod := Nat.mod_lt more.length hk
  have htake : (more.take (k * (more.length / k))).length = k * (more.length / k) := by
    rw [List.length_take]
    omega
  have hlen : (more.drop (k * (more.length / k))).length < k := by
    rw [List.length_drop]
    omega
  obtain ⟨hlength, hrest⟩ := @take_overwrite_rest _ k z h.buf [] (more.drop (k * (more.length / k))) hbuf rfl
    (by rw [List.length_nil]; omega)
  refine ⟨n + more.length / k, front ++ more.take (k * (more.length / k)), more.drop (k * (more.length / k)), ?_, ?_, hlen,
    ?_, hlength, hrest, ?_⟩
  · rw [List.append_assoc, List.take_append_drop]
  · rw [List.length_append, htake, hfront, Nat.mul_add]
  · rw [foldBlocks_add, foldBlocks_append_left n _ init (Nat.le_of_eq hfront.symm), List.drop_left' hfront, ← hs]
    conv_lhs => rw [← List.take_append_drop (k * (more.length / k)) more]
    rw [List.take_append_drop,
      ← foldBlocks_append_left _ (more.drop (k * (more.length / k))) h.s (Nat.le_of_eq htake.symm), List.take_append_drop]
  · dsimp only
    rw [List.length_append, List.length_drop, hbytes]
    omega

theorem Absorbed.write {data : List α} {h : Buffered S α} (habs : Absorbed k step init data h) (hk : 0 < k) (more : List α) :
    Absorbed k step init (data ++ more) (Buffered.write k step z h more) := by
  obtain ⟨n, front, rest, rfl, hfront, hlt, hs, hbuf, hrest, hbytes⟩ := habs
  have hbufsize : h.bytes % k = rest.length := by
    rw [hbytes, List.length_append, hfront, Nat.mul_add_mod, Nat.mod_eq_of_lt hlt]
  by_cases hnil : rest = []
  · subst hnil
    have hfill : h.fill k step z more = (h, more, 0) := by
      unfold Buffered.fill
      rw [hbufsize]
      exact if_neg fun hboth => hboth.1 rfl
    rw [Buffered.write, hfill, List.append_nil]
    rw [List.append_nil] at hbytes
    exact absorbed_takeBlocks hk hfront hs hbuf hbytes
  have hpos := List.length_pos_of_ne_nil hnil
  by_cases henough : k ≤ rest.length + more.length
  · -- the buffer is filled up
    have hfill : h.fill k step z more = (⟨step h.s (overwrite z h.buf rest.length (more.take (k - rest.length))),
        overwrite z h.buf rest.length (more.take (k - rest.length)), h.bytes + (k - rest.length)⟩,
        more.drop (k - rest.length), 0) := by
      unfold Buffered.fill
      rw [hbufsize]
      exact if_pos ⟨Nat.ne_of_gt hpos, henough⟩
    have htake : (more.take (k - rest.length)).length = k - rest.length := by
      rw [List.length_take]
      omega
    obtain ⟨hlength, hblock⟩ := take_overwrite_rest z (more.take (k - rest.length)) hbuf hrest (by omega)
    have hfull : (rest ++ more.take (k - rest.length)).length = k := by
      rw [List.length_append, htake]
      omega
    rw [hfull, List.take_of_length_le (Nat.le_of_eq hlength)] at hblock
    have hsplit : front ++ rest ++ more = (front ++ (rest ++ more.take (k - rest.length))) ++ more.drop (k - rest.length) := by
      simp only [List.append_assoc, List.take_append_drop]
    rw [Buffered.write, hfill, hsplit]
    refine absorbed_takeBlocks hk (n := n + 1) ?_ ?_ hlength ?_
    · rw [List.length_append, hfull, hfront, Nat.mul_succ]
    · dsimp only
      rw [foldBlocks_succ hfront hfull, hs, hblock]
    · dsimp only
      rw [hbytes, List.length_append, List.length_append, hfull]
      omega
  · -- nothing is taken
    have hfill : h.fill k step z more = (h, more, rest.length) := by
      unfold Buffered.fill
      rw [hbufsize]
      exact if_neg fun hboth => henough hboth.2
    have hshort : more.length / k = 0 := Nat.div_eq_of_lt (by omega)
    rw [Buffered.write, hfill]
    dsimp only
    rw [takeBlocks_spec hk _ h more (Nat.le_refl _), hshort, Nat.mul_zero, List.drop_zero]
    obtain ⟨hlength, hall⟩ := take_overwrite_rest z more hbuf hrest (by omega)
    refine ⟨n, front, rest ++ more, List.append_assoc .., hfront, by rw [List.length_append]; omega, hs, hlength, hall, ?_⟩
    dsimp only
    rw [hbytes, Nat.add_zero, ← List.length_append]

theorem Absorbed.s_eq {data : List α} {h : Buffered S α} (habs : Absorbed k step init data h) (hk : 0 < k)
    (haligned : data.length % k = 0) : h.s = foldBlocks k step (data.length / k) data init := by
  obtain ⟨n, front, rest, rfl, hfront, hlt, hs, -⟩ := habs
  rw [List.length_append, hfront, Nat.mul_add_mod, Nat.mod_eq_of_lt hlt] at haligned
  obtain rfl := List.length_eq_zero_iff.mp haligned
  rw [List.append_nil, hfront, Nat.mul_div_cancel_left n hk]
  exact hs

theorem Absorbed.writes (hk : 0 < k) (chunks : List (List α)) {data : List α} {h : Buffered S α} (habs : Absorbed k step init data h) :
    Absorbed k step init (data ++ chunks.flatten) (chunks.foldl (Buffered.write k step z) h) := by
  induction chunks generalizing data h with
  | nil => rwa [List.flatten_nil, List.append_nil]
  | cons chunk chunks ih =>
    rw [List.flatten_cons, ← List.append_assoc]
    exact ih (habs.write hk chunk)

end Blocks

end DigiWage.Lib
