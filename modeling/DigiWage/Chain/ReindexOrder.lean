import DigiWage.Chain.Difficulty
import DigiWage.Chain.ReindexFiles

/-!
# The order of the blocks in the files

* `reindex_imported`: a reindex comes to an end, after it has imported the blocks of the files in their order.
* `reindexes_iff`: the order makes a difference only to how often copies of a block are accepted.
-/

namespace DigiWage

open Lib

variable {start : MessageStart} {file : BlockFile} {blockFiles : List BlockFile} {nFile i : Nat} {x : PlacedBlock}

/-! ## All files -/

/-- The bytes of the block files. -/
def fileBytes (start : MessageStart) (blockFiles : List BlockFile) (nFile : Nat) : Option (List UInt8) :=
  blockFiles[nFile]?.map (BlockFile.bytes start)

theorem mem_allPlaces : ∀ {blockFiles : List BlockFile} {nFile : Nat}, x ∈ allPlaces nFile blockFiles →
    ∃ i file, blockFiles[i]? = some file ∧ x ∈ places (nFile + i) 0 file.blocks
  | file :: blockFiles, nFile, hx => by
    rcases List.mem_append.mp hx with hx | hx
    · exact ⟨0, file, rfl, hx⟩
    · obtain ⟨i, file', hfile, hx⟩ := mem_allPlaces hx
      refine ⟨i + 1, file', hfile, ?_⟩
      rwa [← Nat.add_assoc, Nat.add_right_comm]

theorem nFile_of_mem_places : ∀ {blocks : List (List UInt8 × Encoded.CBlock)} {a : Nat}, x ∈ places nFile a blocks → x.1.nFile = nFile
  | _ :: _, _, hx => (List.mem_cons.mp hx).elim (fun h => h ▸ rfl) nFile_of_mem_places

namespace ImportEnv

variable {σ : Type} {env : ImportEnv σ} {files : Nat → Option (List UInt8)} {items waiting taken : List PlacedBlock} {st : ImportState σ}

theorem nodup_allPlaces : ∀ {blockFiles : List BlockFile} {nFile : Nat}, (∀ file ∈ blockFiles, env.WellFormed file) →
    (allPlaces nFile blockFiles).Nodup
  | [], _, _ => .nil
  | file :: blockFiles, nFile, hwf => by
    obtain ⟨hfile, hrest⟩ := List.forall_mem_cons.mp hwf
    have hbytes : (file.bytes env.messageStart).drop 0 = recordBytes env.messageStart file.blocks ++ file.tail := rfl
    refine (nodup_places hfile.length_lt hbytes).append (nodup_allPlaces hrest) fun x hx hx' => ?_
    obtain ⟨i, file', -, hx'⟩ := mem_allPlaces hx'
    have hnum := nFile_of_mem_places hx
    rw [nFile_of_mem_places hx'] at hnum
    omega

theorem readable_allPlaces (hwf : ∀ file ∈ blockFiles, env.WellFormed file) :
    env.Readable (fileBytes env.messageStart blockFiles) (allPlaces 0 blockFiles) := by
  intro x hx
  obtain ⟨i, file, hfile, hx⟩ := mem_allPlaces hx
  have hwell := hwf file (List.mem_of_getElem? hfile)
  rw [Nat.zero_add] at hx
  have hbytes : (file.bytes env.messageStart).drop 0 = recordBytes env.messageStart file.blocks ++ file.tail := rfl
  obtain ⟨p, rest, -, hlt, hpos, hdrop, r, hr, hblock⟩ := mem_places hbytes hx
  have hstored := hwell.stored r hr
  rw [hblock] at hstored
  have hp : (UInt32.ofNat p).toNat = p := by
    rw [UInt32.toNat_ofNat']
    exact Nat.mod_eq_of_lt (hlt.trans hwell.length_lt)
  have hwork : (!x.2.isProofOfStake && !checkProofOfWork env.params (env.getHash x.2) x.2.nBits.toNat) = false := by
    rcases hstored.work with hwork | hwork
    · rw [hwork]; rfl
    · rw [hwork, Bool.not_true, Bool.and_false]
  simp only [readBlockFromDisk, hpos, fileBytes, hfile, Option.map_some, hp, hdrop, hstored.reads, hwork, Bool.false_eq_true, if_false]

theorem Imported.reindexLoop (henv : env.AcceptsChildren) :
    ∀ {rest : List BlockFile} {nFile : Nat} {items waiting taken : List PlacedBlock} {st : ImportState σ},
      (∀ i, files (nFile + i) = fileBytes env.messageStart rest i) → (∀ file ∈ rest, env.WellFormed file) →
      env.Readable files (items ++ allPlaces nFile rest) → (items ++ allPlaces nFile rest).Nodup →
      env.Imported items waiting taken st [] → ∃ waiting' taken' st' N,
        (∀ fuel ≥ N, ∀ rounds > rest.length, env.reindexLoop files fuel rounds nFile st = some st') ∧
        env.Imported (items ++ allPlaces nFile rest) waiting' taken' st' []
  | [], nFile, items, waiting, taken, st, hfiles, _, _, _, h => by
    refine ⟨waiting, taken, st, 0, fun fuel _ rounds hrounds => ?_, by rwa [allPlaces, List.append_nil]⟩
    obtain ⟨rounds, rfl⟩ := Nat.exists_eq_add_of_le' hrounds
    have hnone : files nFile = none := hfiles 0
    simp only [ImportEnv.reindexLoop, hnone]
  | file :: rest, nFile, items, waiting, taken, st, hfiles, hwf, hread, hnodup, h => by
    obtain ⟨hfile, hrest⟩ := List.forall_mem_cons.mp hwf
    have hsome : files nFile = some (file.bytes env.messageStart) := hfiles 0
    have hnext : ∀ i, files (nFile + 1 + i) = fileBytes env.messageStart rest i := by
      intro i
      rw [Nat.add_assoc, Nat.add_comm 1 i]
      exact hfiles (i + 1)
    rw [allPlaces, ← List.append_assoc] at hread hnodup ⊢
    obtain ⟨waiting₁, taken₁, st₁, N₁, hload, h₁⟩ := h.loadExternalBlockFile henv hfile (hread.subset (List.subset_append_left _ _))
      hnodup.of_append_left
    obtain ⟨waiting', taken', st', N, hloop, h'⟩ := h₁.reindexLoop henv hnext hrest hread hnodup
    refine ⟨waiting', taken', st', max N₁ N, fun fuel hfuel rounds hrounds => ?_, h'⟩
    obtain ⟨rounds, rfl⟩ := Nat.exists_eq_add_of_le' (Nat.le_trans (Nat.le_add_left 1 _) hrounds)
    obtain ⟨loaded, hloaded⟩ := hload fuel (le_of_max_le_left hfuel)
    simp only [ImportEnv.reindexLoop, hsome, hloaded]
    exact hloop fuel (le_of_max_le_right hfuel) rounds (Nat.lt_of_succ_lt_succ hrounds)

theorem reindex_imported (henv : env.AcceptsChildren) (hwf : ∀ file ∈ blockFiles, env.WellFormed file) {s : σ}
    (hempty : ∀ k, env.find s k = none) : ∃ waiting taken st N,
      (∀ fuel ≥ N, env.reindex (fileBytes env.messageStart blockFiles) fuel s = some st) ∧
      env.Imported (allPlaces 0 blockFiles) waiting taken st [] := by
  have hnone : ∀ k, ¬ (env.find s k).isSome = true := by
    intro k
    rw [hempty k]
    exact Bool.false_ne_true
  have hstart : env.Imported [] [] [] ⟨s, [], []⟩ [] :=
    ⟨.empty hnone, fun k => by rw [hempty k]; exact nofun, .refl _, rfl, fun _ hk => absurd hk List.not_mem_nil⟩
  have hfiles : ∀ i, fileBytes env.messageStart blockFiles (0 + i) = fileBytes env.messageStart blockFiles i := by
    intro i
    rw [Nat.zero_add]
  obtain ⟨waiting, taken, st, N, hloop, h⟩ := @Imported.reindexLoop σ env (fileBytes env.messageStart blockFiles) henv _ _ _ _ _ _ hfiles
    hwf (readable_allPlaces hwf) (nodup_allPlaces hwf) hstart
  refine ⟨waiting, taken, st, max N (blockFiles.length + 1), fun fuel hfuel => ?_, h⟩
  exact hloop fuel (le_of_max_le_left hfuel) fuel (le_of_max_le_right hfuel)

/-! ## What is left -/

/-- What the blocks of the files should come to: those that are linked to the genesis block are in `mapBlockIndex` and were accepted
once, and `mapBlocksUnknownParent` has the others at their places. -/
structure Reindexed (env : ImportEnv σ) (items : List PlacedBlock) (st : ImportState σ) : Prop where
  indexed : ∀ k, (env.find st.node k).isSome = true ↔ env.lineage.Linked items k
  loaded : ∀ k ∈ st.loaded, env.lineage.Linked items k
  once : ∀ k, env.lineage.Linked items k → st.loaded.count k = 1
  nodup : st.mapBlocksUnknownParent.Nodup
  waiting : ∀ e, e ∈ st.mapBlocksUnknownParent ↔ ∃ x ∈ items, ¬ env.lineage.Anchored items x ∧ entry x = e

/-- A reindex comes to an end, and to that. -/
def Reindexes (env : ImportEnv σ) (blockFiles : List BlockFile) (s : σ) : Prop :=
  ∃ N st, (∀ fuel ≥ N, env.reindex (fileBytes env.messageStart blockFiles) fuel s = some st) ∧
    env.Reindexed (allPlaces 0 blockFiles) st

theorem Imported.reindexed_iff (h : env.Imported items waiting taken st []) (hread : env.Readable files items) :
    env.Reindexed items st ↔ env.lineage.NoEarlyCopy items := by
  rw [← h.intake.once_iff, ← h.loaded]
  refine ⟨Reindexed.once, fun honce => ⟨fun k => h.intake.known_iff, fun k hk => ?_, honce, h.nodup_map hread, fun e => ?_⟩⟩
  · rw [h.loaded] at hk
    obtain ⟨x, hx, rfl⟩ := List.mem_map.mp hk
    obtain ⟨hitem, hanchored, -⟩ := h.intake.mem_taken_iff.mp hx
    exact Lineage.linked_iff.mpr ⟨x, hitem, rfl, hanchored⟩
  · rw [h.waits.mem_iff, List.mem_map]
    refine exists_congr fun x => ?_
    rw [h.intake.mem_waiting_iff, and_assoc]

theorem Imported.reindexes_iff {s : σ} {N : Nat} (h : env.Imported (allPlaces 0 blockFiles) waiting taken st [])
    (hwf : ∀ file ∈ blockFiles, env.WellFormed file)
    (hrun : ∀ fuel ≥ N, env.reindex (fileBytes env.messageStart blockFiles) fuel s = some st) :
    env.Reindexes blockFiles s ↔ env.lineage.NoEarlyCopy (allPlaces 0 blockFiles) := by
  rw [← h.reindexed_iff (readable_allPlaces hwf)]
  constructor
  · rintro ⟨N', st', hrun', hst'⟩
    have hsame := (hrun (max N N') (le_max_left _ _)).symm.trans (hrun' (max N N') (le_max_right _ _))
    rwa [Option.some.inj hsame]
  · exact fun hst => ⟨N, st, hrun, hst⟩

end ImportEnv

/-! ## A child of the genesis block -/

/-- A block of version 5 without transactions. -/
def bareBlock (hashPrevBlock : Uint256) : Encoded.CBlock := { Encoded.CBlock.null with hashPrevBlock := hashPrevBlock }

def bareHash (block : Encoded.CBlock) : Uint256 := block.toCBlockHeader.getHash fun _ => 0

/-- The first block, and its child. -/
def bareGenesis : Uint256 := bareHash (bareBlock 0)

/-- A node of which there is the index alone. -/
def bareImport : ImportEnv (Uint256 → Option Bool) where
  params := regTestParams 300
  messageStart := regTestMessageStart
  hashQuark _ := 0
  hashGenesisBlock := bareGenesis
  find s := s
  processNewBlock s block _ :=
    if bareHash block = bareGenesis ∨ (s block.hashPrevBlock).isSome = true then
      ⟨true, false, Function.update s (bareHash block) (some true)⟩
    else ⟨false, false, s⟩
  failed f := f

theorem acceptsChildren_bareImport : bareImport.AcceptsChildren where
  accepted_iff s block pos := by
    change (if _ then _ else _ : Processed (Uint256 → Option Bool)).accepted = true ↔ _
    split
    · rename_i h
      exact iff_of_true rfl h
    · rename_i h
      exact iff_of_false Bool.false_ne_true h
  find_accepted s block pos := by
    change (if _ then _ else _ : Processed (Uint256 → Option Bool)).accepted = true →
      (if _ then _ else _ : Processed (Uint256 → Option Bool)).node = _
    split
    · exact fun _ => rfl
    · exact fun h => absurd h Bool.false_ne_true
  noError s block pos := by
    change _ → (if _ then _ else _ : Processed (Uint256 → Option Bool)).isError = false
    split <;> exact fun _ => rfl

theorem length_bareBlock (hashPrevBlock : Uint256) : (bareBlock hashPrevBlock).serialize.length = 81 := by
  simp only [bareBlock, Encoded.CBlock.null, Encoded.CBlockHeader.null, Encoded.CBlock.serialize, Encoded.CBlockHeader.serialize,
    writeInt32, writeUint256, Encoded.writeUInt32, List.length_append, length_leBytes]
  rfl

theorem stored_bareBlock (hashPrevBlock : Uint256) : bareImport.Stored (bareBlock hashPrevBlock) where
  reads s := Encoded.CBlock.unserialize_serialize Encoded.CBlock.null
    ⟨Nat.zero_le _, fun _ htx => absurd htx List.not_mem_nil, Nat.zero_le _⟩ s
  size_le := by
    rw [length_bareBlock]
    decide
  work := .inr rfl

/-- A file with such blocks, each behind a byte with which the message start begins. -/
def bareFile (parents : List Uint256) : BlockFile := ⟨parents.map fun h => ([0xa1], bareBlock h), [0xa1]⟩

theorem not_infix_bareImport : ¬ bareImport.messageStart.bytes <:+: [0xa1] := fun hinfix => absurd hinfix.length_le (by decide)

theorem wellFormed_bareFile {parents : List Uint256} (h : parents.length ≤ 3) : bareImport.WellFormed (bareFile parents) where
  junk r hr := by
    obtain ⟨hashPrevBlock, -, rfl⟩ := List.mem_map.mp hr
    exact not_infix_bareImport
  tail := not_infix_bareImport
  stored r hr := by
    obtain ⟨hashPrevBlock, -, rfl⟩ := List.mem_map.mp hr
    exact stored_bareBlock hashPrevBlock
  length_lt := by
    have hlen : (recordBytes bareImport.messageStart (bareFile parents).blocks).length = 90 * parents.length := by
      rw [recordBytes, bareFile, List.flatMap_map, List.length_flatMap]
      simp only [List.length_append, length_record, length_bareBlock]
      simp [Nat.mul_comm]
    rw [BlockFile.bytes, List.length_append, hlen]
    change _ + 1 < _
    omega

theorem bareHash_ne : bareHash (bareBlock bareGenesis) ≠ bareGenesis := by decide +kernel

theorem wellFormed_bareFiles {l : List (List Uint256)} (h : ∀ parents ∈ l, parents.length ≤ 3) :
    ∀ file ∈ l.map bareFile, bareImport.WellFormed file := by
  intro file hfile
  obtain ⟨parents, hparents, rfl⟩ := List.mem_map.mp hfile
  exact wellFormed_bareFile (h parents hparents)

/-! ## Copies -/

/-- A reindex ends with every linked block in the index, accepted once, and the others waiting, exactly if no copy of a linked block comes
before the blocks in front of it have linked both. -/
theorem ImportEnv.reindex_iff_noEarlyCopy {σ : Type} {env : ImportEnv σ} (henv : env.AcceptsChildren)
    (hwf : ∀ file ∈ blockFiles, env.WellFormed file) {s : σ} (hempty : ∀ k, env.find s k = none) :
    env.Reindexes blockFiles s ↔ env.lineage.NoEarlyCopy (allPlaces 0 blockFiles) := by
  obtain ⟨waiting, taken, st, N, hrun, h⟩ := reindex_imported henv hwf hempty
  exact h.reindexes_iff hwf hrun

/-- The child comes in a file, and the first block in the next one. -/
theorem reindex_iff_noEarlyCopy_child : bareImport.Reindexes [bareFile [bareGenesis], bareFile [0]] fun _ => none := by
  refine (ImportEnv.reindex_iff_noEarlyCopy acceptsChildren_bareImport
    (wellFormed_bareFiles (l := [[bareGenesis], [0]]) (by decide)) fun _ => rfl).mpr (Lineage.noEarlyCopy_of_nodup ?_)
  exact List.nodup_cons.mpr ⟨fun h => bareHash_ne (List.mem_singleton.mp h), List.nodup_singleton _⟩

/-- A child that comes twice before the first block. -/
def twiceEarly : List PlacedBlock :=
  [(⟨0, 9⟩, bareBlock bareGenesis), (⟨0, 99⟩, bareBlock bareGenesis), (⟨0, 189⟩, bareBlock 0)]

theorem allPlaces_twiceEarly : allPlaces 0 [bareFile [bareGenesis, bareGenesis, 0]] = twiceEarly := by
  simp only [allPlaces, bareFile, List.map_cons, List.map_nil, places, length_bareBlock]
  rfl

theorem not_noEarlyCopy_twiceEarly : ¬ bareImport.lineage.NoEarlyCopy twiceEarly := by
  intro h
  have hroot : bareImport.lineage.key (⟨0, 189⟩, bareBlock 0) = bareGenesis := rfl
  have hlinked : bareImport.lineage.Linked twiceEarly bareGenesis := by
    rw [← hroot]
    exact .root (by simp [twiceEarly]) hroot
  have hbefore : Lineage.before twiceEarly (⟨0, 99⟩, bareBlock bareGenesis) = [(⟨0, 9⟩, bareBlock bareGenesis)] := by decide +kernel
  have hanchored := (h (⟨0, 99⟩, bareBlock bareGenesis) (by simp [twiceEarly]) (⟨0, 9⟩, bareBlock bareGenesis)
    (hbefore ▸ List.mem_singleton_self _) rfl (.inr hlinked) (.inr hlinked)).1
  rw [hbefore] at hanchored
  rcases hanchored with hroot | hparent
  · exact bareHash_ne hroot
  · obtain ⟨x, hx, hkey, -⟩ := Lineage.linked_iff.mp hparent
    rw [List.mem_singleton.mp hx] at hkey
    exact bareHash_ne hkey

/-- The child is not accepted once then. -/
theorem not_reindexes_twiceEarly :
    ¬ ∀ (env : ImportEnv (Uint256 → Option Bool)) (blockFiles : List BlockFile) (s : Uint256 → Option Bool),
      env.AcceptsChildren → (∀ file ∈ blockFiles, env.WellFormed file) → (∀ k, env.find s k = none) → env.Reindexes blockFiles s := by
  intro hall
  have hwf : ∀ file ∈ [bareFile [bareGenesis, bareGenesis, 0]], bareImport.WellFormed file :=
    wellFormed_bareFiles (l := [[bareGenesis, bareGenesis, 0]]) (by decide)
  have hreindexes := hall bareImport _ (fun _ => none) acceptsChildren_bareImport hwf fun _ => rfl
  obtain ⟨waiting, taken, st, N, hrun, h⟩ := ImportEnv.reindex_imported acceptsChildren_bareImport hwf (s := fun _ => none) fun _ => rfl
  rw [h.reindexes_iff hwf hrun, allPlaces_twiceEarly] at hreindexes
  exact not_noEarlyCopy_twiceEarly hreindexes

end DigiWage
