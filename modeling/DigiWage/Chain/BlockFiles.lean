import DigiWage.Lib.Extent
import DigiWage.Lib.Run
import Mathlib.Data.Finset.Insert
import Mathlib.Algebra.Ring.Nat

/-!
# Places in the block files

`FindBlockPos` and `FindUndoPos` of `main.cpp`, with the sizes of the files in `vinfoBlockFile`. The sizes are numbers of
32 bits, and the sums are not checked.

* The search for a file ends, and leaves the size of the file that it finds below `MAX_BLOCKFILE_SIZE`
  (`isSome_searchFile`, `searchFile_spec`), also when the sum wraps.
-/

namespace DigiWage

open Lib

def MAX_BLOCKFILE_SIZE : UInt32 := 0x8000000

def BLOCKFILE_CHUNK_SIZE : UInt32 := 0x1000000

def UNDOFILE_CHUNK_SIZE : UInt32 := 0x100000

structure CBlockFileInfo where
  nBlocks : UInt32
  nSize : UInt32
  nUndoSize : UInt32
  nHeightFirst : UInt32
  nHeightLast : UInt32
  nTimeFirst : UInt64
  nTimeLast : UInt64
deriving DecidableEq

namespace CBlockFileInfo

/-- `SetNull`. -/
def null : CBlockFileInfo := ⟨0, 0, 0, 0, 0, 0, 0⟩

def addBlock (info : CBlockFileInfo) (nHeightIn : UInt32) (nTimeIn : UInt64) : CBlockFileInfo :=
  { info with
    nHeightFirst := if info.nBlocks = 0 ∨ info.nHeightFirst > nHeightIn then nHeightIn else info.nHeightFirst
    nTimeFirst := if info.nBlocks = 0 ∨ info.nTimeFirst > nTimeIn then nTimeIn else info.nTimeFirst
    nBlocks := info.nBlocks + 1
    nHeightLast := if nHeightIn > info.nHeightLast then nHeightIn else info.nHeightLast
    nTimeLast := if nTimeIn > info.nTimeLast then nTimeIn else info.nTimeLast }

end CBlockFileInfo

/-- `CDiskBlockPos`, but for the null position, whose file is -1. -/
structure CDiskBlockPos where
  nFile : Nat
  nPos : UInt32
deriving DecidableEq

/-- The number of chunks that so many bytes take. -/
def chunks (nSize nChunk : UInt32) : UInt32 := (nSize + nChunk - 1) / nChunk

/-- The state of `main.cpp` that is kept for the block files. -/
structure BlockFiles where
  vinfoBlockFile : List CBlockFileInfo
  nLastBlockFile : Nat
  setDirtyFileInfo : Finset Nat

/-- `vinfoBlockFile.resize(nFile + 1)`, where it is not that long. -/
def growInfos (infos : List CBlockFileInfo) (nFile : Nat) : List CBlockFileInfo :=
  if infos.length ≤ nFile then infos ++ List.replicate (nFile + 1 - infos.length) .null else infos

/-- The info of a file; a file that is not there yet is to have an empty one. -/
def infoAt (infos : List CBlockFileInfo) (nFile : Nat) : CBlockFileInfo := infos.getD nFile .null

/-- The search loop of `FindBlockPos`, for so many rounds; `none` when it does not end in them. -/
def searchFile (nAddSize : UInt32) : Nat → List CBlockFileInfo → Nat → Option (List CBlockFileInfo × Nat)
  | 0, _, _ => none
  | rounds + 1, infos, nFile =>
    if (infoAt infos nFile).nSize + nAddSize ≥ MAX_BLOCKFILE_SIZE then
      searchFile nAddSize rounds (growInfos infos (nFile + 1)) (nFile + 1)
    else some (infos, nFile)

namespace BlockFiles

/-- No file. -/
def empty : BlockFiles := ⟨[], 0, ∅⟩

/-- The info of a file. -/
def info (s : BlockFiles) : Nat → CBlockFileInfo := infoAt s.vinfoBlockFile

/-- `FindBlockPos`, with the position where `fKnown` is set; `none` when its loop does not end. -/
def findBlockPos (s : BlockFiles) (nAddSize nHeight : UInt32) (nTime : UInt64) (known : Option CDiskBlockPos)
    (checkDiskSpace : UInt64 → Bool) : Option (Bool × CDiskBlockPos × BlockFiles) :=
  match known with
  | some pos =>
    let infos := growInfos s.vinfoBlockFile pos.nFile
    let infos := infos.modify pos.nFile fun info => info.addBlock nHeight nTime
    let infos := infos.modify pos.nFile fun info => { info with nSize := max (pos.nPos + nAddSize) info.nSize }
    some (true, pos, ⟨infos, pos.nFile, insert pos.nFile s.setDirtyFileInfo⟩)
  | none =>
    let infos := growInfos s.vinfoBlockFile s.nLastBlockFile
    -- a file that is not there yet is empty, so one more round than there are files ends the search or nothing does
    match searchFile nAddSize (infos.length + 1) infos s.nLastBlockFile with
    | none => none
    | some (infos, nFile) =>
      let pos : CDiskBlockPos := ⟨nFile, (infoAt infos nFile).nSize⟩
      let infos := infos.modify nFile fun info => info.addBlock nHeight nTime
      let infos := infos.modify nFile fun info => { info with nSize := info.nSize + nAddSize }
      let nOldChunks := chunks pos.nPos BLOCKFILE_CHUNK_SIZE
      let nNewChunks := chunks (infoAt infos nFile).nSize BLOCKFILE_CHUNK_SIZE
      if nNewChunks > nOldChunks ∧ checkDiskSpace (nNewChunks * BLOCKFILE_CHUNK_SIZE - pos.nPos).toUInt64 = false then
        some (false, pos, ⟨infos, nFile, s.setDirtyFileInfo⟩)
      else some (true, pos, ⟨infos, nFile, insert nFile s.setDirtyFileInfo⟩)

/-- `FindUndoPos`; `none` when it reads beyond the end of `vinfoBlockFile`. -/
def findUndoPos (s : BlockFiles) (nFile : Nat) (nAddSize : UInt32) (checkDiskSpace : UInt64 → Bool) :
    Option (Bool × CDiskBlockPos × BlockFiles) :=
  match s.vinfoBlockFile[nFile]? with
  | none => none
  | some info =>
    let pos : CDiskBlockPos := ⟨nFile, info.nUndoSize⟩
    let nNewSize := info.nUndoSize + nAddSize
    let s := { s with
      vinfoBlockFile := s.vinfoBlockFile.modify nFile fun info => { info with nUndoSize := nNewSize }
      setDirtyFileInfo := insert nFile s.setDirtyFileInfo }
    let nOldChunks := chunks pos.nPos UNDOFILE_CHUNK_SIZE
    let nNewChunks := chunks nNewSize UNDOFILE_CHUNK_SIZE
    if nNewChunks > nOldChunks ∧ checkDiskSpace (nNewChunks * UNDOFILE_CHUNK_SIZE - pos.nPos).toUInt64 = false then
      some (false, pos, s)
    else some (true, pos, s)

end BlockFiles

theorem toNat_max (a b : UInt32) : (max a b).toNat = max a.toNat b.toNat := by
  show (if a ≤ b then b else a).toNat = max a.toNat b.toNat
  split
  · rename_i h
    exact (Nat.max_eq_right (UInt32.le_iff_toNat_le.mp h)).symm
  · rename_i h
    exact (Nat.max_eq_left (Nat.le_of_not_le fun hle => h (UInt32.le_iff_toNat_le.mpr hle))).symm

/-! ## The infos of the files -/

section Infos

variable {infos : List CBlockFileInfo} {nFile k : Nat}

theorem length_growInfos : nFile < (growInfos infos nFile).length := by
  unfold growInfos
  split
  · rw [List.length_append, List.length_replicate]
    omega
  · omega

theorem infoAt_growInfos : infoAt (growInfos infos nFile) = infoAt infos := by
  funext k
  unfold growInfos infoAt
  split
  · rw [List.getD_eq_getElem?_getD, List.getD_eq_getElem?_getD, List.getElem?_append]
    split
    · rfl
    · rename_i hk
      rw [List.getElem?_replicate, List.getElem?_eq_none (by omega)]
      split <;> rfl
  · rfl

theorem infoAt_modify (h : nFile < infos.length) (f : CBlockFileInfo → CBlockFileInfo) :
    infoAt (infos.modify nFile f) = Function.update (infoAt infos) nFile (f (infoAt infos nFile)) := by
  funext k
  unfold infoAt
  rw [List.getD_eq_getElem?_getD, List.getElem?_modify]
  by_cases hk : k = nFile
  · subst hk
    rw [Function.update_self, List.getD_eq_getElem?_getD, List.getElem?_eq_getElem h]
    simp only [if_true, Option.map_eq_map, Option.map_some, Option.getD_some]
  · rw [Function.update_of_ne hk, List.getD_eq_getElem?_getD]
    simp only [if_neg (Ne.symm hk), Option.map_eq_map, Option.map_id']

theorem searchFile_spec {nAddSize : UInt32} : ∀ {rounds nFile : Nat} {infos infos' : List CBlockFileInfo} {k : Nat},
    searchFile nAddSize rounds infos nFile = some (infos', k) → nFile < infos.length →
    k < infos'.length ∧ infoAt infos' = infoAt infos ∧ nFile ≤ k ∧
      (infoAt infos k).nSize + nAddSize < MAX_BLOCKFILE_SIZE ∧
      ∀ j < k, nFile ≤ j → MAX_BLOCKFILE_SIZE ≤ (infoAt infos j).nSize + nAddSize
  | 0, _, _, _, _, h, _ => by cases h
  | rounds + 1, nFile, infos, infos', k, h, hlt => by
    unfold searchFile at h
    split at h
    · rename_i hfull
      obtain ⟨hk, hinfos, hle, hsize, hbefore⟩ := searchFile_spec h length_growInfos
      rw [infoAt_growInfos] at hinfos hsize hbefore
      refine ⟨hk, hinfos, by omega, hsize, fun j hj hle' => ?_⟩
      rcases Nat.lt_or_eq_of_le hle' with hlt' | rfl
      · exact hbefore j hj hlt'
      · exact hfull
    · rename_i hroom
      cases h
      exact ⟨hlt, rfl, Nat.le_refl _, UInt32.not_le.mp hroom, fun j hj hle => by omega⟩

theorem infoAt_of_length_le (h : infos.length ≤ k) : infoAt infos k = .null := by
  unfold infoAt
  rw [List.getD_eq_getElem?_getD, List.getElem?_eq_none h]
  rfl

theorem isSome_searchFile {nAddSize : UInt32} (hsize : nAddSize < MAX_BLOCKFILE_SIZE) :
    ∀ {rounds nFile k : Nat} {infos : List CBlockFileInfo}, infoAt infos k = .null → nFile ≤ k → k < nFile + rounds →
    (searchFile nAddSize rounds infos nFile).isSome
  | 0, _, _, _, _, _, _ => by omega
  | rounds + 1, nFile, k, infos, hnull, hle, hlt => by
    unfold searchFile
    split
    · rename_i hfull
      have hne : nFile ≠ k := by
        rintro rfl
        rw [hnull] at hfull
        exact UInt32.not_le.mpr hsize ((UInt32.zero_add nAddSize).symm ▸ hfull)
      rw [← @infoAt_growInfos _ (nFile + 1)] at hnull
      exact isSome_searchFile hsize hnull (by omega) (by omega)
    · rfl

end Infos

/-! ## What the calls do -/

namespace BlockFiles

variable {s s' : BlockFiles} {nAddSize nHeight : UInt32} {nTime : UInt64} {disk : UInt64 → Bool} {ok : Bool}
  {pos : CDiskBlockPos} {nFile : Nat}

/-- The search of `FindBlockPos` looks at the file: each one before it is full. -/
def Examined (s : BlockFiles) (nAddSize : UInt32) (k : Nat) : Prop :=
  s.nLastBlockFile ≤ k ∧ ∀ j < k, s.nLastBlockFile ≤ j → MAX_BLOCKFILE_SIZE ≤ (s.info j).nSize + nAddSize

instance (s : BlockFiles) (nAddSize : UInt32) (k : Nat) : Decidable (s.Examined nAddSize k) :=
  inferInstanceAs (Decidable (_ ∧ _))

theorem info_modify_modify {infos : List CBlockFileInfo} (h : nFile < infos.length) (hinfos : infoAt infos = s.info)
    (f g : CBlockFileInfo → CBlockFileInfo) :
    infoAt ((infos.modify nFile f).modify nFile g) = Function.update s.info nFile (g (f (s.info nFile))) := by
  rw [infoAt_modify (by rwa [List.length_modify]), infoAt_modify h, hinfos, Function.update_self, Function.update_idem]

theorem findBlockPos_search (h : s.findBlockPos nAddSize nHeight nTime none disk = some (ok, pos, s')) :
    s.Examined nAddSize pos.nFile ∧ pos.nPos = (s.info pos.nFile).nSize ∧ pos.nPos + nAddSize < MAX_BLOCKFILE_SIZE ∧
      s'.info = Function.update s.info pos.nFile
        { (s.info pos.nFile).addBlock nHeight nTime with nSize := pos.nPos + nAddSize } := by
  unfold findBlockPos at h
  dsimp only at h
  split at h
  · cases h
  · rename_i infos k hsearch
    obtain ⟨hk, hinfos, hle, hsize, hbefore⟩ := searchFile_spec hsearch length_growInfos
    rw [infoAt_growInfos] at hinfos hsize hbefore
    have hupdate := info_modify_modify (s := s) hk hinfos (fun info => info.addBlock nHeight nTime)
      fun info => { info with nSize := info.nSize + nAddSize }
    have hpos : (infoAt infos k).nSize = (s.info k).nSize := by rw [hinfos]; rfl
    split at h <;> cases h <;> exact ⟨⟨hle, hbefore⟩, hpos, hpos ▸ hsize, by rw [hpos]; exact hupdate⟩

theorem exists_findBlockPos (s : BlockFiles) (nHeight : UInt32) (nTime : UInt64) (disk : UInt64 → Bool)
    (hsize : nAddSize < MAX_BLOCKFILE_SIZE) :
    ∃ ok pos s', s.findBlockPos nAddSize nHeight nTime none disk = some (ok, pos, s') := by
  have hsome : (searchFile nAddSize ((growInfos s.vinfoBlockFile s.nLastBlockFile).length + 1)
      (growInfos s.vinfoBlockFile s.nLastBlockFile) s.nLastBlockFile).isSome :=
    isSome_searchFile hsize (infoAt_of_length_le (Nat.le_refl _)) (Nat.le_of_lt length_growInfos) (by omega)
  obtain ⟨⟨infos, k⟩, hsearch⟩ := Option.isSome_iff_exists.mp hsome
  unfold findBlockPos
  dsimp only
  rw [hsearch]
  dsimp only
  split
  · exact ⟨_, _, _, rfl⟩
  · exact ⟨_, _, _, rfl⟩

theorem findBlockPos_known {p : CDiskBlockPos}
    (h : s.findBlockPos nAddSize nHeight nTime (some p) disk = some (ok, pos, s')) :
    pos = p ∧ s'.info = Function.update s.info p.nFile
      { (s.info p.nFile).addBlock nHeight nTime with nSize := max (p.nPos + nAddSize) (s.info p.nFile).nSize } := by
  unfold findBlockPos at h
  cases h
  exact ⟨rfl, info_modify_modify length_growInfos infoAt_growInfos _ _⟩

theorem findUndoPos_spec (h : s.findUndoPos nFile nAddSize disk = some (ok, pos, s')) :
    pos = ⟨nFile, (s.info nFile).nUndoSize⟩ ∧ s'.info = Function.update s.info nFile
      { s.info nFile with nUndoSize := (s.info nFile).nUndoSize + nAddSize } := by
  unfold findUndoPos at h
  split at h
  · cases h
  · rename_i info hinfo
    obtain ⟨hlt, -⟩ := List.getElem?_eq_some_iff.mp hinfo
    have hat : s.info nFile = info := by
      unfold BlockFiles.info infoAt
      rw [List.getD_eq_getElem?_getD, hinfo]
      rfl
    have hupdate := infoAt_modify hlt fun i => { i with nUndoSize := info.nUndoSize + nAddSize }
    rw [← hat] at h hupdate
    dsimp only at h
    split at h <;> cases h <;> exact ⟨rfl, hupdate⟩

/-- The sizes of the files. -/
def tops (g : CBlockFileInfo → UInt32) (s : BlockFiles) (f : Nat) : Nat := (g (s.info f)).toNat

theorem tops_update {g : CBlockFileInfo → UInt32} {i : CBlockFileInfo} (h : s'.info = Function.update s.info nFile i) :
    s'.tops g = Function.update (s.tops g) nFile (g i).toNat := by
  have hcomp := Function.comp_update (fun i => (g i).toNat) s.info nFile i
  rwa [← h] at hcomp

theorem tops_keep {g : CBlockFileInfo → UInt32} {i : CBlockFileInfo} (h : s'.info = Function.update s.info nFile i)
    (hg : g i = g (s.info nFile)) : s'.tops g = s.tops g := by
  rw [tops_update h, hg]
  exact Function.update_eq_self nFile (s.tops g)

end BlockFiles

/-! ## Runs -/

/-- A call for a position in a block file or in an undo file. -/
inductive FileOp
  | findBlockPos (nAddSize nHeight : UInt32) (nTime : UInt64) (known : Option CDiskBlockPos)
      (checkDiskSpace : UInt64 → Bool)
  | findUndoPos (nFile : Nat) (nAddSize : UInt32) (checkDiskSpace : UInt64 → Bool)

/-- A block that is to find a place is smaller than a file may be. -/
def FileOp.Proper : FileOp → Prop
  | .findBlockPos nAddSize _ _ none _ => nAddSize < MAX_BLOCKFILE_SIZE
  | _ => True

instance : ∀ op : FileOp, Decidable op.Proper
  | .findBlockPos _ _ _ none _ => inferInstanceAs (Decidable (_ < _))
  | .findBlockPos _ _ _ (some _) _ => isTrue trivial
  | .findUndoPos _ _ _ => isTrue trivial

/-- No sum of 32 bits wraps in the call: in the file that the search finds, at the end of the known block, or in the undo
file. -/
def BlockFiles.NoWrap (s : BlockFiles) : FileOp → Prop
  | .findBlockPos nAddSize _ _ none _ =>
    ∀ k < s.vinfoBlockFile.length, s.Examined nAddSize k → (s.info k).nSize.toNat + nAddSize.toNat < 2 ^ 32
  | .findBlockPos nAddSize _ _ (some pos) _ => pos.nPos.toNat + nAddSize.toNat < 2 ^ 32
  | .findUndoPos nFile nAddSize _ => (s.info nFile).nUndoSize.toNat + nAddSize.toNat < 2 ^ 32

instance (s : BlockFiles) : ∀ op, Decidable (s.NoWrap op)
  | .findBlockPos _ _ _ none _ => inferInstanceAs (Decidable (∀ k < s.vinfoBlockFile.length, _ → _))
  | .findBlockPos _ _ _ (some _) _ => inferInstanceAs (Decidable (_ < _))
  | .findUndoPos _ _ _ => inferInstanceAs (Decidable (_ < _))

theorem BlockFiles.add_lt_of_noWrap (s : BlockFiles) {nAddSize nHeight : UInt32} {nTime : UInt64} {disk : UInt64 → Bool}
    {k : Nat} (h : s.NoWrap (.findBlockPos nAddSize nHeight nTime none disk)) (hk : s.Examined nAddSize k) :
    (s.info k).nSize.toNat + nAddSize.toNat < 2 ^ 32 := by
  by_cases hlt : k < s.vinfoBlockFile.length
  · exact h k hlt hk
  · rw [show s.info k = .null from infoAt_of_length_le (Nat.le_of_not_lt hlt)]
    show 0 + nAddSize.toNat < 2 ^ 32
    have := nAddSize.toNat_lt
    omega

/-- The block files, with the places that were given out in the block files and in the undo files. -/
structure FileLog where
  files : BlockFiles
  blocks : List Placed
  undos : List Placed

namespace FileLog

/-- No file and no place. -/
def empty : FileLog := ⟨.empty, [], []⟩

/-- The bytes at a position. -/
def place (pos : CDiskBlockPos) (nAddSize : UInt32) (chosen : Bool) : Placed :=
  ⟨⟨pos.nFile, pos.nPos.toNat, nAddSize.toNat⟩, chosen⟩

/-- One call. A call that finds the disk full has set the position as well. -/
def step (l : FileLog) : FileOp → Option FileLog
  | .findBlockPos nAddSize nHeight nTime known checkDiskSpace =>
    (l.files.findBlockPos nAddSize nHeight nTime known checkDiskSpace).map fun r =>
      { l with files := r.2.2, blocks := l.blocks ++ [place r.2.1 nAddSize known.isNone] }
  | .findUndoPos nFile nAddSize checkDiskSpace =>
    (l.files.findUndoPos nFile nAddSize checkDiskSpace).map fun r =>
      { l with files := r.2.2, undos := l.undos ++ [place r.2.1 nAddSize true] }

/-- No chosen place overlaps an earlier one, in the block files and in the undo files. -/
def Disjoint (l : FileLog) : Prop := Apart l.blocks ∧ Apart l.undos

/-- The sizes are the tops of the places. -/
structure Wf (l : FileLog) : Prop where
  blocks : Sound (l.files.tops CBlockFileInfo.nSize) l.blocks
  undos : Sound (l.files.tops CBlockFileInfo.nUndoSize) l.undos

theorem Wf.empty : Wf empty := ⟨Sound.nil _, Sound.nil _⟩

theorem Wf.pushBlock {l : FileLog} {files : BlockFiles} {pos : CDiskBlockPos} {nAddSize : UInt32} {chosen : Bool}
    {info : CBlockFileInfo} (h : Wf l) (hinfo : files.info = Function.update l.files.info pos.nFile info)
    (hundo : info.nUndoSize = (l.files.info pos.nFile).nUndoSize)
    (hle : (l.files.info pos.nFile).nSize.toNat ≤ info.nSize.toNat)
    (hend : pos.nPos.toNat + nAddSize.toNat ≤ info.nSize.toNat)
    (hpos : chosen = true → (l.files.info pos.nFile).nSize.toNat ≤ pos.nPos.toNat) :
    Wf { l with files := files, blocks := l.blocks ++ [place pos nAddSize chosen] } := by
  constructor
  · show Sound (files.tops CBlockFileInfo.nSize) (l.blocks ++ [place pos nAddSize chosen])
    rw [BlockFiles.tops_update hinfo]
    exact h.blocks.push (e := place pos nAddSize chosen) hle hend hpos
  · show Sound (files.tops CBlockFileInfo.nUndoSize) l.undos
    rw [BlockFiles.tops_keep hinfo hundo]
    exact h.undos

theorem Wf.step {l l' : FileLog} {op : FileOp} (h : Wf l) (hop : l.files.NoWrap op) (hstep : l.step op = some l') :
    Wf l' := by
  cases op with
  | findBlockPos nAddSize nHeight nTime known disk =>
    obtain ⟨⟨ok, pos, files⟩, hfind, rfl⟩ := Option.map_eq_some_iff.mp hstep
    cases known with
    | none =>
      obtain ⟨hexamined, hpos, -, hinfo⟩ := BlockFiles.findBlockPos_search hfind
      have hsum := l.files.add_lt_of_noWrap hop hexamined
      rw [← hpos] at hsum
      have hadd : (pos.nPos + nAddSize).toNat = pos.nPos.toNat + nAddSize.toNat := by
        rw [UInt32.toNat_add, Nat.mod_eq_of_lt hsum]
      apply h.pushBlock hinfo rfl
      · rw [← hpos]
        exact hadd ▸ Nat.le_add_right _ _
      · exact Nat.le_of_eq hadd.symm
      · intro _
        rw [hpos]
    | some p =>
      obtain ⟨rfl, hinfo⟩ := BlockFiles.findBlockPos_known hfind
      have hadd : (pos.nPos + nAddSize).toNat = pos.nPos.toNat + nAddSize.toNat := by
        rw [UInt32.toNat_add, Nat.mod_eq_of_lt hop]
      have hmax := toNat_max (pos.nPos + nAddSize) (l.files.info pos.nFile).nSize
      apply h.pushBlock hinfo rfl
      · exact hmax ▸ Nat.le_max_right _ _
      · exact hadd ▸ hmax ▸ Nat.le_max_left _ _
      · intro hchosen
        cases hchosen
  | findUndoPos nFile nAddSize disk =>
    obtain ⟨⟨ok, pos, files⟩, hfind, rfl⟩ := Option.map_eq_some_iff.mp hstep
    obtain ⟨rfl, hinfo⟩ := BlockFiles.findUndoPos_spec hfind
    have hadd : ((l.files.info nFile).nUndoSize + nAddSize).toNat = (l.files.info nFile).nUndoSize.toNat + nAddSize.toNat := by
      rw [UInt32.toNat_add, Nat.mod_eq_of_lt hop]
    constructor
    · show Sound (files.tops CBlockFileInfo.nSize) l.blocks
      rw [BlockFiles.tops_keep hinfo rfl]
      exact h.blocks
    · show Sound (files.tops CBlockFileInfo.nUndoSize) (l.undos ++ [place ⟨nFile, (l.files.info nFile).nUndoSize⟩ nAddSize true])
      rw [BlockFiles.tops_update hinfo]
      apply h.undos.push (e := place ⟨nFile, (l.files.info nFile).nUndoSize⟩ nAddSize true)
      · exact hadd ▸ Nat.le_add_right _ _
      · exact Nat.le_of_eq hadd.symm
      · intro _
        exact Nat.le_refl _

/-- After every run the next search ends, and leaves the size of its file below the bound. Places are apart after every
run in which no sum wraps. -/
theorem blockFiles_run (ops : List FileOp) (l : FileLog) (hrun : ops.foldlM step empty = some l) :
    (∀ (nAddSize nHeight : UInt32) (nTime : UInt64) (disk : UInt64 → Bool), nAddSize < MAX_BLOCKFILE_SIZE →
      ∃ ok pos s', l.files.findBlockPos nAddSize nHeight nTime none disk = some (ok, pos, s') ∧
        (s'.info pos.nFile).nSize < MAX_BLOCKFILE_SIZE) ∧
      (Meets step (fun l op => l.files.NoWrap op) empty ops → l.Disjoint) := by
  constructor
  · intro nAddSize nHeight nTime disk hsize
    obtain ⟨ok, pos, s', hfind⟩ := l.files.exists_findBlockPos nHeight nTime disk hsize
    obtain ⟨-, -, hroom, hinfo⟩ := BlockFiles.findBlockPos_search hfind
    refine ⟨ok, pos, s', hfind, ?_⟩
    rw [hinfo, Function.update_self]
    exact hroom
  · intro hmeets
    have hwf : Wf l := hmeets.keeps (fun _ _ _ h hop => h.step hop) Wf.empty hrun
    exact ⟨hwf.blocks.apart, hwf.undos.apart⟩

/-- Two blocks, with a known one between them that moves the last file, and their undo data. -/
def knownOps : List FileOp :=
  [.findBlockPos 285 0 0 none fun _ => true, .findBlockPos 300 2 0 (some ⟨1, 4000⟩) fun _ => true,
    .findBlockPos 250 1 0 none fun _ => true, .findUndoPos 0 60 fun _ => true, .findUndoPos 1 70 fun _ => true]

theorem blockFiles_run_known : ∃ l, knownOps.foldlM step empty = some l ∧ l.Disjoint := by
  obtain ⟨l, hrun⟩ : ∃ l, knownOps.foldlM step empty = some l := Option.isSome_iff_exists.mp (by decide)
  exact ⟨l, hrun, (blockFiles_run knownOps l hrun).2 (by decide)⟩

/-- Blocks of 2 MB that spend outputs with long scripts, with 256 MiB of undo data each. -/
def undoOps : List FileOp :=
  (List.replicate 17 [FileOp.findBlockPos 2000000 0 0 none fun _ => true, .findUndoPos 0 0x10000000 fun _ => true]).flatten

theorem proper_undoOps : ∀ op ∈ undoOps, op.Proper := by decide

/-- After 16 blocks the size of the undo file is back at 0. -/
theorem not_blockFiles_run : ¬ ∀ (ops : List FileOp) (l : FileLog), Meets step (fun _ op => op.Proper) empty ops →
    ops.foldlM step empty = some l → l.Disjoint := by
  intro h
  have hundos : (undoOps.foldlM step empty).map FileLog.undos =
      some ((List.range 17).map fun i => ⟨⟨0, i * 0x10000000 % 2 ^ 32, 0x10000000⟩, true⟩) := by decide
  obtain ⟨l, hrun, hl⟩ := Option.map_eq_some_iff.mp hundos
  have hapart : Apart l.undos := (h undoOps l (Meets.of_forall fun op hop _ => proper_undoOps op hop) hrun).2
  rw [hl] at hapart
  have hfirst := List.pairwise_iff_getElem.mp hapart 0 16 (by decide) (by decide) (by decide)
  exact hfirst rfl ⟨rfl, 0, by decide, by decide⟩

end FileLog

end DigiWage
