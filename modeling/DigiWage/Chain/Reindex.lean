import DigiWage.BufferedFile
import DigiWage.Chain.BlockCode
import DigiWage.Chain.BlockFiles
import DigiWage.Chain.Pow
import DigiWage.Lib.Orphans

/-!
# Reading the block files again

`LoadExternalBlockFile` of `main.cpp`, and the loop over the block files of `ThreadImport`. A multimap is the list of its entries in the
order in which they were inserted; entries under different keys do not meet.

* What `ProcessNewBlock` does to the node is a part of `ImportEnv`, as is where a block that cannot be read leaves the file.
-/

namespace DigiWage

open Lib

def MAX_BLOCK_SIZE_CURRENT : Nat := 2000000

/-- `MessageStart`: four bytes, of which the first is not among the others. -/
structure MessageStart where
  first : UInt8
  rest : List UInt8
  length_rest : rest.length = 3
  first_notMem : first ∉ rest

/-- `pchMessageStart`. -/
def MessageStart.bytes (start : MessageStart) : List UInt8 := start.first :: start.rest

theorem MessageStart.length_bytes (start : MessageStart) : start.bytes.length = 4 := congrArg (· + 1) start.length_rest

/-- `pchMessageStart` of the regression test network. -/
def regTestMessageStart : MessageStart := ⟨0xa1, [0xcf, 0x7e, 0xac], rfl, by decide⟩

/-- `CBlockHeader::GetHash`: the bytes from `nVersion` to `nNonce`, or to `nAccumulatorCheckpoint` in version 4, are those that are
written. -/
def Encoded.CBlockHeader.getHash (hashQuark : List UInt8 → Uint256) (h : Encoded.CBlockHeader) : Uint256 :=
  if h.nVersion < 4 then hashQuark h.serialize else hash256 h.serialize

/-- What `ProcessNewBlock` returns, `state.IsError()`, and the node after it. -/
structure Processed (σ : Type) where
  accepted : Bool
  isError : Bool
  node : σ

/-- What the import uses of the node. -/
structure ImportEnv (σ : Type) where
  params : ConsensusParams
  messageStart : MessageStart
  hashQuark : List UInt8 → Uint256
  hashGenesisBlock : Uint256
  /-- The entry of `mapBlockIndex`: whether it has `BLOCK_HAVE_DATA`. -/
  find : σ → Uint256 → Option Bool
  /-- `ProcessNewBlock`, without a peer. -/
  processNewBlock : σ → Encoded.CBlock → Option CDiskBlockPos → Processed σ
  /-- Where the reading of a block that throws leaves the file. -/
  failed : CBufferedFile → CBufferedFile

/-- The node, `mapBlocksUnknownParent`, and the blocks that were accepted: `nLoaded` counts those of a call. -/
structure ImportState (σ : Type) where
  node : σ
  mapBlocksUnknownParent : List (Uint256 × CDiskBlockPos)
  loaded : List Uint256

namespace ImportEnv

variable {σ : Type} (env : ImportEnv σ) (files : Nat → Option (List UInt8))

def getHash (block : Encoded.CBlock) : Uint256 := block.toCBlockHeader.getHash env.hashQuark

def readBlockFromDisk (pos : CDiskBlockPos) : Option Encoded.CBlock :=
  match files pos.nFile with
  | none => none
  | some file =>
    match Encoded.CBlock.null.unserialize (file.drop pos.nPos.toNat) with
    | none => none
    | some (block, _) =>
      if !block.isProofOfStake && !checkProofOfWork env.params (env.getHash block) block.nBits.toNat then none else some block

/-! ## The blocks that wait -/

/-- The loop over the range of `head`: each entry is erased, whatever comes of it. -/
def childLoop (head : Uint256) : List CDiskBlockPos → ImportState σ → List Uint256 → ImportState σ × List Uint256
  | [], st, queue => (st, queue)
  | it :: range, st, queue =>
    let erased := st.mapBlocksUnknownParent.erase (head, it)
    match env.readBlockFromDisk files it with
    | none => childLoop head range { st with mapBlocksUnknownParent := erased } queue
    | some block =>
      let r := env.processNewBlock st.node block (some it)
      if r.accepted then
        childLoop head range ⟨r.node, erased, st.loaded ++ [env.getHash block]⟩ (queue ++ [env.getHash block])
      else childLoop head range ⟨r.node, erased, st.loaded⟩ queue

def equalRange (m : List (Uint256 × CDiskBlockPos)) (head : Uint256) : List CDiskBlockPos :=
  (m.filter (·.1 = head)).map Prod.snd

/-- Recursively process earlier encountered successors of a block; `none` when this does not end in so many rounds. -/
def queueLoop : Nat → ImportState σ → List Uint256 → Option (ImportState σ)
  | _, st, [] => some st
  | 0, _, _ :: _ => none
  | fuel + 1, st, head :: queue =>
    let (st, queue) := env.childLoop files head (equalRange st.mapBlocksUnknownParent head) st queue
    queueLoop fuel st queue

/-- What is done with a block that was read from a file, and whether the loop over the file is left. -/
def importBlock (fuel : Nat) (st : ImportState σ) (block : Encoded.CBlock) (dbp : Option CDiskBlockPos) :
    Option (ImportState σ × Bool) :=
  let hash := env.getHash block
  if hash ≠ env.hashGenesisBlock ∧ env.find st.node block.hashPrevBlock = none then
    match dbp with
    | none => some (st, false)
    | some pos => some ({ st with mapBlocksUnknownParent := st.mapBlocksUnknownParent ++ [(block.hashPrevBlock, pos)] }, false)
  else if env.find st.node hash = some true then (env.queueLoop files fuel st [hash]).map fun st => (st, false)
  else
    let r := env.processNewBlock st.node block dbp
    let st : ImportState σ := ⟨r.node, st.mapBlocksUnknownParent, if r.accepted then st.loaded ++ [hash] else st.loaded⟩
    if r.isError then some (st, true) else (env.queueLoop files fuel st [hash]).map fun st => (st, false)

end ImportEnv

/-! ## The file -/

/-- What comes of looking for a header: the loop is left or goes on, or a block follows. -/
inductive Located where
  | ended
  | rejected (f : CBufferedFile) (nRewind : Nat)
  | found (f : CBufferedFile) (nRewind nSize : Nat)

/-- Locate a header, and read the size. -/
def locate (start : MessageStart) (fuel : Nat) (f : CBufferedFile) : Option Located :=
  match f.findByte fuel start.first with
  | none => none
  | some (.error _) => some .ended
  | some (.ok f) =>
    let nRewind := f.nReadPos + 1
    match f.read fuel 4 with
    | none => none
    | some (.error _) => some .ended
    | some (.ok (buf, f)) =>
      if buf ≠ start.bytes then some (.rejected f nRewind)
      else
        match f.read fuel 4 with
        | none => none
        | some (.error _) => some .ended
        | some (.ok (size, f)) =>
          let nSize := ofLeBytes size
          if nSize < 80 ∨ MAX_BLOCK_SIZE_CURRENT < nSize then some (.rejected f nRewind) else some (.found f nRewind nSize)

namespace ImportEnv

variable {σ : Type} (env : ImportEnv σ) (files : Nat → Option (List UInt8))

/-- `blkdat >> block`: the reads follow each other, and none of them is larger than what the limit leaves. -/
def readBlock (fuel : Nat) (f : CBufferedFile) : Reading Encoded.CBlock :=
  let s := (f.src.drop f.nReadPos).take (f.nReadLimit - f.nReadPos)
  match Encoded.CBlock.null.unserialize s with
  | none => some (.error (env.failed f))
  | some (block, rest) =>
    match f.readLoop fuel (s.length - rest.length) with
    | none => none
    | some (.error f) => some (.error f)
    | some (.ok (_, f)) => some (.ok (block, f))

/-- The loop of `LoadExternalBlockFile`; `none` when it does not end in so many rounds. -/
def importLoop : Nat → CBufferedFile → Nat → Option CDiskBlockPos → ImportState σ → Option (ImportState σ)
  | 0, _, _, _, _ => none
  | fuel + 1, blkdat, nRewind, dbp, st =>
    if blkdat.eof then some st
    else
      match locate env.messageStart fuel ((blkdat.setPos nRewind).setLimit CBufferedFile.noLimit) with
      | none => none
      | some .ended => some st
      | some (.rejected blkdat nRewind) => importLoop fuel blkdat nRewind dbp st
      | some (.found blkdat nRewind nSize) =>
        let nBlockPos := blkdat.nReadPos
        let dbp := dbp.map fun pos => { pos with nPos := UInt32.ofNat nBlockPos }
        match env.readBlock fuel ((blkdat.setLimit (nBlockPos + nSize)).setPos nBlockPos) with
        | none => none
        -- a block that cannot be read is searched for another header
        | some (.error blkdat) => importLoop fuel blkdat nRewind dbp st
        | some (.ok (block, blkdat)) =>
          match env.importBlock files fuel st block dbp with
          | none => none
          | some (st, true) => some st
          | some (st, false) => importLoop fuel blkdat blkdat.nReadPos dbp st

def loadExternalBlockFile (fuel : Nat) (fileIn : List UInt8) (dbp : Option CDiskBlockPos) (st : ImportState σ) :
    Option (Bool × ImportState σ) :=
  let blkdat := CBufferedFile.new fileIn (2 * MAX_BLOCK_SIZE_CURRENT) (MAX_BLOCK_SIZE_CURRENT + 8)
  (env.importLoop files fuel blkdat blkdat.nReadPos dbp st).map fun st' => (decide (st.loaded.length < st'.loaded.length), st')

/-- The loop of `ThreadImport` over the block files from `nFile` on. -/
def reindexLoop (fuel : Nat) : Nat → Nat → ImportState σ → Option (ImportState σ)
  | 0, _, _ => none
  | rounds + 1, nFile, st =>
    match files nFile with
    | none => some st
    | some file =>
      match env.loadExternalBlockFile files fuel file (some ⟨nFile, 0⟩) st with
      | none => none
      | some (_, st) => reindexLoop fuel rounds (nFile + 1) st

/-- `-reindex`: the block files are read from the first on, into a node without blocks. -/
def reindex (fuel : Nat) (s : σ) : Option (ImportState σ) := env.reindexLoop files fuel fuel 0 ⟨s, [], []⟩

end ImportEnv

/-! ## What becomes of the blocks -/

/-- A block is accepted exactly when its parent is in `mapBlockIndex`, and then it is there with its data; no other block is touched. -/
structure ImportEnv.AcceptsChildren {σ : Type} (env : ImportEnv σ) : Prop where
  accepted_iff : ∀ s block pos, (env.processNewBlock s block pos).accepted = true ↔
    env.getHash block = env.hashGenesisBlock ∨ (env.find s block.hashPrevBlock).isSome = true
  find_accepted : ∀ s block pos, (env.processNewBlock s block pos).accepted = true →
    env.find (env.processNewBlock s block pos).node = Function.update (env.find s) (env.getHash block) (some true)
  noError : ∀ s block pos, (env.processNewBlock s block pos).accepted = true → (env.processNewBlock s block pos).isError = false

/-- A block at its place. -/
abbrev PlacedBlock := CDiskBlockPos × Encoded.CBlock

namespace ImportEnv

variable {σ : Type} {env : ImportEnv σ} {files : Nat → Option (List UInt8)} {items waiting taken : List PlacedBlock} {st : ImportState σ}
  {queue : List Uint256} {x : PlacedBlock}

/-- The blocks with their hashes and those of their parents. -/
def lineage (env : ImportEnv σ) : Lineage PlacedBlock Uint256 where
  key x := env.getHash x.2
  parent x := x.2.hashPrevBlock
  root := env.hashGenesisBlock

/-- The entry of `mapBlocksUnknownParent` for a block. -/
def entry (x : PlacedBlock) : Uint256 × CDiskBlockPos := (x.2.hashPrevBlock, x.1)

/-- The state after the blocks `items`, while the children of the blocks in `queue` are still to be looked for. -/
structure Imported (env : ImportEnv σ) (items waiting taken : List PlacedBlock) (st : ImportState σ) (queue : List Uint256) : Prop where
  intake : Lineage.Intake env.lineage items (fun k => (env.find st.node k).isSome = true) waiting taken queue
  data : ∀ k, env.find st.node k ≠ some false
  waits : st.mapBlocksUnknownParent.Perm (waiting.map entry)
  loaded : st.loaded = taken.map env.lineage.key
  queued : ∀ k ∈ queue, (env.find st.node k).isSome = true

/-- The blocks can be read where they are. -/
def Readable (env : ImportEnv σ) (files : Nat → Option (List UInt8)) (items : List PlacedBlock) : Prop :=
  ∀ x ∈ items, env.readBlockFromDisk files x.1 = some x.2

theorem Readable.entry_inj (h : env.Readable files items) {y : PlacedBlock} (hx : x ∈ items) (hy : y ∈ items) (heq : entry x = entry y) :
    x = y := by
  have hpos : x.1 = y.1 := (Prod.mk.inj heq).2
  have hblock : x.2 = y.2 := by
    have hread := h x hx
    rw [hpos, h y hy] at hread
    exact (Option.some.inj hread).symm
  exact Prod.ext hpos hblock

theorem isSome_update {find : Uint256 → Option Bool} {hash k : Uint256} :
    (Function.update find hash (some true) k).isSome = true ↔ (find k).isSome = true ∨ k = hash := by
  rw [Function.update_apply]
  split
  · rename_i heq
    exact iff_of_true rfl (.inr heq)
  · rename_i hne
    exact (or_iff_left hne).symm

theorem data_update {find : Uint256 → Option Bool} {hash : Uint256} (h : ∀ k, find k ≠ some false) (k : Uint256) :
    Function.update find hash (some true) k ≠ some false := by
  rw [Function.update_apply]
  split
  · decide
  · exact h k

theorem Imported.nodup_map (h : env.Imported items waiting taken st queue) (hread : env.Readable files items) :
    st.mapBlocksUnknownParent.Nodup := by
  refine h.waits.nodup_iff.mpr (h.intake.nodup_waiting.map_on fun x hx y hy heq => ?_)
  exact hread.entry_inj (h.intake.waiting_subset hx) (h.intake.waiting_subset hy) heq

theorem Imported.child {head : Uint256} {it : CDiskBlockPos} (henv : env.AcceptsChildren) (hread : env.Readable files items)
    (h : env.Imported items waiting taken st (head :: queue)) (hit : (head, it) ∈ st.mapBlocksUnknownParent) :
    ∃ x ∈ waiting, env.readBlockFromDisk files it = some x.2 ∧ (env.processNewBlock st.node x.2 (some it)).accepted = true ∧
      env.Imported items (waiting.erase x) (taken ++ [x])
        ⟨(env.processNewBlock st.node x.2 (some it)).node, st.mapBlocksUnknownParent.erase (head, it), st.loaded ++ [env.getHash x.2]⟩
        (head :: (queue ++ [env.getHash x.2])) := by
  obtain ⟨x, hx, hentry⟩ := List.mem_map.mp (h.waits.subset hit)
  obtain ⟨hparent, hpos⟩ := Prod.mk.inj hentry
  have hhead := h.queued head List.mem_cons_self
  have haccepted : (env.processNewBlock st.node x.2 (some it)).accepted = true := by
    rw [henv.accepted_iff, hparent]
    exact .inr hhead
  have hfind := henv.find_accepted _ _ _ haccepted
  have hperm := List.perm_cons_erase hx
  refine ⟨x, hx, hpos ▸ hread x (h.intake.waiting_subset hx), haccepted, ⟨?_, ?_, ?_, ?_, ?_⟩⟩
  · refine h.intake.child hperm (by simpa [lineage, hparent] using hhead) fun k => ?_
    rw [hfind]
    exact isSome_update
  · rw [hfind]
    exact data_update h.data
  · have herase := (h.waits.trans (hperm.map entry)).erase (head, it)
    rwa [List.map_cons, hentry, List.erase_cons_head] at herase
  · rw [List.map_append, ← h.loaded]
    rfl
  · intro k hk
    rw [hfind, isSome_update]
    rw [← List.cons_append, List.mem_append, List.mem_singleton] at hk
    exact hk.imp_left (h.queued k)

theorem Imported.childLoop {head : Uint256} (henv : env.AcceptsChildren) (hread : env.Readable files items) :
    ∀ {range : List CDiskBlockPos} {waiting taken : List PlacedBlock} {st : ImportState σ} {queue : List Uint256},
      env.Imported items waiting taken st (head :: queue) → range.Nodup → (∀ it, it ∈ range ↔ (head, it) ∈ st.mapBlocksUnknownParent) →
      ∃ waiting' taken' st' queue', env.childLoop files head range st queue = (st', queue') ∧
        env.Imported items waiting' taken' st' queue' ∧
        queue'.length + st'.mapBlocksUnknownParent.length = queue.length + st.mapBlocksUnknownParent.length
  | [], waiting, taken, st, queue, h, _, hrange => by
    refine ⟨waiting, taken, st, queue, rfl, ⟨h.intake.pop fun x hx hparent => ?_, h.data, h.waits, h.loaded, ?_⟩, rfl⟩
    · refine List.not_mem_nil ((hrange x.1).mpr (h.waits.symm.subset (List.mem_map.mpr ⟨x, hx, ?_⟩)))
      exact congrArg (·, x.1) hparent
    · exact fun k hk => h.queued k (List.mem_cons_of_mem _ hk)
  | it :: range, waiting, taken, st, queue, h, hnodup, hrange => by
    have hit := (hrange it).mp List.mem_cons_self
    obtain ⟨hnot, hnodup'⟩ := List.nodup_cons.mp hnodup
    obtain ⟨x, hx, hblock, haccepted, hnext⟩ := h.child henv hread hit
    have hrange' : ∀ p, p ∈ range ↔ (head, p) ∈ st.mapBlocksUnknownParent.erase (head, it) := by
      intro p
      rw [(h.nodup_map hread).mem_erase_iff, ← hrange p, List.mem_cons]
      constructor
      · intro hp
        refine ⟨fun heq => hnot ?_, .inr hp⟩
        rwa [← (Prod.mk.inj heq).2]
      · rintro ⟨hne, rfl | hp⟩
        · exact absurd rfl hne
        · exact hp
    obtain ⟨waiting', taken', st', queue', hloop, himported, hlen⟩ := Imported.childLoop henv hread hnext hnodup' hrange'
    refine ⟨waiting', taken', st', queue', ?_, himported, ?_⟩
    · rw [ImportEnv.childLoop, hblock]
      simp only [haccepted, if_true]
      exact hloop
    · have hpos : 0 < st.mapBlocksUnknownParent.length := List.length_pos_of_mem hit
      rw [hlen, List.length_append, List.length_singleton, List.length_erase_of_mem hit]
      omega

theorem mem_equalRange {m : List (Uint256 × CDiskBlockPos)} {head : Uint256} {it : CDiskBlockPos} :
    it ∈ equalRange m head ↔ (head, it) ∈ m := by
  unfold equalRange
  simp

theorem nodup_equalRange {m : List (Uint256 × CDiskBlockPos)} (h : m.Nodup) (head : Uint256) : (equalRange m head).Nodup := by
  refine (h.filter _).map_on fun e he e' he' heq => ?_
  have hkey : e.1 = head := by simpa using (List.mem_filter.mp he).2
  have hkey' : e'.1 = head := by simpa using (List.mem_filter.mp he').2
  exact Prod.ext (hkey.trans hkey'.symm) heq

theorem Imported.queueLoop (henv : env.AcceptsChildren) (hread : env.Readable files items) :
    ∀ {n : Nat} {waiting taken : List PlacedBlock} {st : ImportState σ} {queue : List Uint256},
      env.Imported items waiting taken st queue → queue.length + st.mapBlocksUnknownParent.length ≤ n →
      ∃ waiting' taken' st', (∀ fuel ≥ n, env.queueLoop files fuel st queue = some st') ∧ env.Imported items waiting' taken' st' []
  | _, waiting, taken, st, [], h, _ => by
    refine ⟨waiting, taken, st, fun fuel _ => ?_, h⟩
    cases fuel <;> rfl
  | 0, _, _, _, _ :: _, _, hn => by
    rw [List.length_cons] at hn
    omega
  | n + 1, waiting, taken, st, head :: queue, h, hn => by
    obtain ⟨waiting', taken', st', queue', hloop, himported, hlen⟩ :=
      h.childLoop henv hread (nodup_equalRange (h.nodup_map hread) head) fun it => mem_equalRange
    rw [List.length_cons] at hn
    obtain ⟨waiting'', taken'', st'', hrest, himported'⟩ := Imported.queueLoop henv hread (n := n) himported (by omega)
    refine ⟨waiting'', taken'', st'', fun fuel hfuel => ?_, himported'⟩
    obtain ⟨fuel, rfl⟩ := Nat.exists_eq_add_of_le' (Nat.le_trans (Nat.le_add_left 1 n) hfuel)
    simp only [ImportEnv.queueLoop, hloop]
    exact hrest fuel (Nat.le_of_succ_le_succ hfuel)

theorem Imported.importBlock (henv : env.AcceptsChildren) (hread : env.Readable files (items ++ [x]))
    (h : env.Imported items waiting taken st []) (hx : x ∉ items) :
    ∃ waiting' taken' st', (∀ fuel ≥ items.length + 1, env.importBlock files fuel st x.2 (some x.1) = some (st', false)) ∧
      env.Imported (items ++ [x]) waiting' taken' st' [] := by
  have hlen : st.mapBlocksUnknownParent.length ≤ items.length := by
    rw [h.waits.length_eq, List.length_map]
    exact (List.subperm_of_subset h.intake.nodup_waiting h.intake.waiting_subset).length_le
  simp only [ImportEnv.importBlock]
  by_cases hout : env.getHash x.2 ≠ env.hashGenesisBlock ∧ env.find st.node x.2.hashPrevBlock = none
  · simp only [if_pos hout]
    refine ⟨waiting ++ [x], taken, _, fun _ _ => rfl, ⟨?_, h.data, ?_, h.loaded, h.queued⟩⟩
    · refine h.intake.wait hx hout.1 ?_ (List.perm_append_singleton x waiting)
      change ¬ (env.find st.node x.2.hashPrevBlock).isSome = true
      rw [hout.2]
      exact Bool.false_ne_true
    · rw [List.map_append]
      exact h.waits.append_right _
  have hanchored : env.getHash x.2 = env.hashGenesisBlock ∨ (env.find st.node x.2.hashPrevBlock).isSome = true := by
    rw [not_and_or, not_not] at hout
    exact hout.imp_right Option.isSome_iff_ne_none.mpr
  simp only [if_neg hout]
  by_cases hknown : env.find st.node (env.getHash x.2) = some true
  · simp only [if_pos hknown]
    have hsome : (env.find st.node (env.getHash x.2)).isSome = true := by rw [hknown]; rfl
    have hnext : env.Imported (items ++ [x]) waiting taken st [env.getHash x.2] :=
      ⟨h.intake.drop hx hanchored hsome, h.data, h.waits, h.loaded, fun k hk => by rwa [List.mem_singleton.mp hk]⟩
    obtain ⟨waiting', taken', st', hloop, himported⟩ := hnext.queueLoop henv hread (n := items.length + 1) (by
      rw [List.length_singleton]
      omega)
    refine ⟨waiting', taken', st', fun fuel hfuel => ?_, himported⟩
    rw [hloop fuel hfuel]
    rfl
  · simp only [if_neg hknown]
    have haccepted : (env.processNewBlock st.node x.2 (some x.1)).accepted = true := (henv.accepted_iff _ _ _).mpr hanchored
    have hfind := henv.find_accepted _ _ _ haccepted
    have hnew : ¬ (env.find st.node (env.getHash x.2)).isSome = true := by
      intro hsome
      obtain ⟨b, hb⟩ := Option.isSome_iff_exists.mp hsome
      cases b with
      | true => exact hknown hb
      | false => exact h.data _ hb
    have hnext : env.Imported (items ++ [x]) waiting (taken ++ [x])
        ⟨(env.processNewBlock st.node x.2 (some x.1)).node, st.mapBlocksUnknownParent, st.loaded ++ [env.getHash x.2]⟩
        [env.getHash x.2] := by
      refine ⟨h.intake.enter hx hanchored hnew fun k => ?_, ?_, h.waits, ?_, fun k hk => ?_⟩
      · rw [hfind]
        exact isSome_update
      · rw [hfind]
        exact data_update h.data
      · rw [List.map_append, ← h.loaded]
        rfl
      · rw [hfind, isSome_update]
        exact .inr (List.mem_singleton.mp hk)
    obtain ⟨waiting', taken', st', hloop, himported⟩ := hnext.queueLoop henv hread (n := items.length + 1) (by
      change 1 + st.mapBlocksUnknownParent.length ≤ items.length + 1
      omega)
    refine ⟨waiting', taken', st', fun fuel hfuel => ?_, himported⟩
    rw [henv.noError _ _ _ haccepted, if_neg Bool.false_ne_true, if_pos haccepted, hloop fuel hfuel]
    rfl

end ImportEnv

end DigiWage
