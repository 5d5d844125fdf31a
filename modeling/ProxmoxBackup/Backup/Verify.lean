import ProxmoxBackup.Datastore.DataBlob
import Mathlib.Data.List.AList

/-!
# Verifying snapshots (`src/backup/verify.rs`)

`verify_backup_dir` checks every file its manifest lists: a blob's size and checksum (and that an
unencrypted one decodes), an index file's size and checksum against the manifest, and every
chunk the index references: that it loads, that its crypt mode is the one the manifest records
for the index, and (for an unencrypted chunk) that it decodes to the index's size and digest. A
`VerifyWorker` is shared by the verify calls of a task; it remembers the chunks it verified and
the ones it found corrupt, and skips both later, counting a corrupt one as an error.

What the cache holds is sound (`CacheSound`, kept by every call and so along a whole
`verify_backup_group`, `verifyBackupGroup_keeps`): a remembered chunk loads and passes
`verify_unencrypted` for its digest. So a call that succeeds guarantees that every chunk of every
index of the snapshot has such a content (`verify_ok_chunks_valid`). The cache does not remember
which crypt mode and size the chunk was checked against, and a skipped chunk is not checked
against its index's: `verify_skips_crypt_mode_check` is a snapshot whose index records
encryption for an unencrypted chunk, which fails verification alone and passes after a snapshot
that references the same chunk as unencrypted.

The decoder pool of `verify_index_chunks` runs the chunk checks on four threads; here each chunk
is checked before the next one is loaded, and the chunks are taken in index order
(`ChunkOrder::None`). The worker is never aborted, and the manifest update succeeds.
-/

namespace ProxmoxBackup.Verify

open DataBlob (CryptMode)

/-- What verification reads of an index file through its reader: `compute_csum` (the checksum
and the size of the archive) and, for each chunk, its digest and size (`chunk_info`). -/
structure IndexFile where
  csum : Vector UInt8 32
  size : Nat
  chunks : List (Vector UInt8 32 × Nat)

/-- A file of the manifest (`FileInfo`). -/
structure FileInfo where
  filename : String
  cryptMode : CryptMode
  size : Nat
  csum : Vector UInt8 32

/-- `FileInfo::chunk_crypt_mode`: encrypted indexes reference encrypted chunks, signed and plain
ones plain chunks. -/
def FileInfo.chunkCryptMode (info : FileInfo) : CryptMode :=
  match info.cryptMode with
  | .encrypt => .encrypt
  | .signOnly => .none
  | .none => .none

inductive ArchiveType where
  | fixedIndex
  | dynamicIndex
  | blob
  deriving DecidableEq

/-- `Path::extension` of a file name: it splits the name once at its last dot (`rsplitn(2, '.')`)
and has no extension when there is no dot or the dot starts the name. -/
def extension (name : String) : Option String :=
  let rev := name.toList.reverse
  let after := rev.takeWhile (· ≠ '.')
  if after.length = rev.length ∨ rev.drop (after.length + 1) = [] then none
  else some (String.ofList after.reverse)

/-- `ArchiveType::from_path`. -/
def archiveType (name : String) : Except String ArchiveType :=
  match extension name with
  | some "didx" => .ok .dynamicIndex
  | some "fidx" => .ok .fixedIndex
  | some "blob" => .ok .blob
  | _ => .error s!"unknown archive type: {name.quote}"

/-- A snapshot directory: its manifest's files (or why it does not load), whether another
operation holds its lock, the bytes of its blob files and its index files, and the verify state
recorded in its manifest. -/
structure Snapshot where
  manifest : Except String (List FileInfo)
  locked : Bool
  blobs : String → Option (List UInt8)
  indexes : String → Option IndexFile
  verifyState : Option Bool

/-- The datastore: the chunk files by digest, and the snapshots. -/
structure Store where
  chunks : AList (fun _ : Vector UInt8 32 => List UInt8)
  snapshots : AList (fun _ : Nat => Snapshot)

/-- `VerifyWorker`: the chunks verified, and the chunks found corrupt. -/
structure VerifyWorker where
  verifiedChunks : List (Vector UInt8 32)
  corruptChunks : List (Vector UInt8 32)

def VerifyWorker.new : VerifyWorker := ⟨[], []⟩

variable (zstd : Zstd) (crc32 : List UInt8 → UInt32) (sha256 : List UInt8 → Vector UInt8 32)

/-- `DataStore::load_chunk`: read the chunk file, check its CRC. -/
def loadChunk (store : Store) (digest : Vector UInt8 32) : ExceptT String Option DataBlob :=
  match store.chunks.lookup digest with
  | some bytes => DataBlob.loadFromReader crc32 bytes
  | none => throw "unable to load chunk"

/-- `rename_corrupted_chunk`: the chunk file is moved aside (to `<digest>.<n>.bad`). -/
def renameCorruptedChunk (store : Store) (digest : Vector UInt8 32) : Store :=
  { store with chunks := store.chunks.erase digest }

/-- `verify_blob`. -/
def verifyBlob (snapshot : Snapshot) (info : FileInfo) : ExceptT String Option Unit := do
  let blob ← match snapshot.blobs info.filename with
    | some bytes => DataBlob.loadFromReader crc32 bytes
    | none => throw s!"unable to load blob {info.filename.quote}"
  let rawSize := blob.rawSize
  if rawSize ≠ info.size then throw s!"wrong size ({info.size} != {rawSize})"
  let csum := sha256 blob.rawData
  if csum ≠ info.csum then throw "wrong index checksum"
  match ← blob.cryptMode with
  | .encrypt => pure ()
  | .none =>
    -- digest already verified above
    let _ ← blob.decode zstd sha256 (none : Option (CryptConfig Unit)) none
    pure ()
  | .signOnly => throw "Invalid CryptMode for blob"

/-- The state of `verify_index_chunks`: the worker's sets, the datastore (corrupt chunks are
renamed) and the error count. -/
structure ChunkState where
  worker : VerifyWorker
  store : Store
  errors : Nat

/-- `skip_chunk`: a verified chunk is skipped, and so is a corrupt one, counted as an error. -/
def skipChunk (st : ChunkState) (digest : Vector UInt8 32) : Bool × ChunkState :=
  if digest ∈ st.worker.verifiedChunks then (true, st)
  else if digest ∈ st.worker.corruptChunks then (true, { st with errors := st.errors + 1 })
  else (false, st)

/-- `get_chunks_in_order` with `ChunkOrder::None`: the chunks `skip_chunk` does not skip, in
index order. -/
def getChunksInOrder : ChunkState → List (Vector UInt8 32 × Nat) →
    List (Vector UInt8 32 × Nat) × ChunkState
  | st, [] => ([], st)
  | st, info :: infos =>
    let (skip, st) := skipChunk st info.1
    let (list, st) := getChunksInOrder st infos
    (if skip then list else info :: list, st)

/-- The decoder pool's check of a loaded chunk: its crypt mode against the index's, then its
content against the index's size and digest. -/
def decodeChunk (cryptMode : CryptMode) (st : ChunkState) (chunk : DataBlob)
    (digest : Vector UInt8 32) (size : Nat) : Option ChunkState := do
  match ← chunk.cryptMode.run with
  | .error _ =>
    pure { st with worker := { st.worker with corruptChunks := st.worker.corruptChunks ++ [digest] },
                   errors := st.errors + 1 }
  | .ok chunkCryptMode =>
    let st := if chunkCryptMode ≠ cryptMode then { st with errors := st.errors + 1 } else st
    match ← (chunk.verifyUnencrypted (σ := Unit) zstd sha256 size digest).run with
    | .error _ =>
      pure { st with worker := { st.worker with corruptChunks := st.worker.corruptChunks ++ [digest] },
                     store := renameCorruptedChunk st.store digest,
                     errors := st.errors + 1 }
    | .ok () =>
      pure { st with worker := { st.worker with verifiedChunks := st.worker.verifiedChunks ++ [digest] } }

/-- One listed chunk of the main loop: skipped if verified or corrupt by now, else loaded and
checked; a chunk that does not load is corrupt. -/
def verifyListedChunk (cryptMode : CryptMode) (st : ChunkState)
    (info : Vector UInt8 32 × Nat) : Option ChunkState := do
  let (skip, st) := skipChunk st info.1
  if skip then return st
  match ← (loadChunk crc32 st.store info.1).run with
  | .error _ =>
    pure { st with worker := { st.worker with corruptChunks := st.worker.corruptChunks ++ [info.1] },
                   store := renameCorruptedChunk st.store info.1,
                   errors := st.errors + 1 }
  | .ok chunk => decodeChunk zstd sha256 cryptMode st chunk info.1 info.2

/-- `verify_index_chunks`: list the chunks not skipped, check each; fail if any error was
counted. The worker's sets and the renamed chunks stay as they are either way. -/
def verifyIndexChunks (worker : VerifyWorker) (store : Store) (index : IndexFile)
    (cryptMode : CryptMode) : Option (VerifyWorker × Store × Except String Unit) := do
  let (chunkList, st) := getChunksInOrder ⟨worker, store, 0⟩ index.chunks
  let st ← chunkList.foldlM (verifyListedChunk zstd crc32 sha256 cryptMode) st
  pure (st.worker, st.store, if st.errors > 0 then .error "chunks could not be verified" else .ok ())

/-- The index checks of `verify_fixed_index` and `verify_dynamic_index`: open the index, compare
its size and checksum with the manifest's, then check its chunks. -/
def verifyIndex (worker : VerifyWorker) (store : Store) (snapshot : Snapshot) (info : FileInfo) :
    Option (VerifyWorker × Store × Except String Unit) :=
  match snapshot.indexes info.filename with
  | none => pure (worker, store, .error s!"unable to open index {info.filename.quote}")
  | some index =>
    if index.size ≠ info.size then pure (worker, store, .error s!"wrong size ({info.size} != {index.size})")
    else if index.csum ≠ info.csum then pure (worker, store, .error "wrong index checksum")
    else verifyIndexChunks zstd crc32 sha256 worker store index info.chunkCryptMode

/-- `verify_fixed_index`. -/
def verifyFixedIndex (worker : VerifyWorker) (store : Store) (snapshot : Snapshot)
    (info : FileInfo) : Option (VerifyWorker × Store × Except String Unit) :=
  verifyIndex zstd crc32 sha256 worker store snapshot info

/-- `verify_dynamic_index`. -/
def verifyDynamicIndex (worker : VerifyWorker) (store : Store) (snapshot : Snapshot)
    (info : FileInfo) : Option (VerifyWorker × Store × Except String Unit) :=
  verifyIndex zstd crc32 sha256 worker store snapshot info

/-- The check of one manifest file, by its archive type. -/
def verifyFile (worker : VerifyWorker) (store : Store) (snapshot : Snapshot) (info : FileInfo) :
    Option (VerifyWorker × Store × Except String Unit) :=
  match archiveType info.filename with
  | .error e => pure (worker, store, .error e)
  | .ok .fixedIndex => verifyFixedIndex zstd crc32 sha256 worker store snapshot info
  | .ok .dynamicIndex => verifyDynamicIndex zstd crc32 sha256 worker store snapshot info
  | .ok .blob => do
    let r ← (verifyBlob zstd crc32 sha256 snapshot info).run
    pure (worker, store, r)

/-- The loop over the manifest's files: each is checked, a failure counted. -/
def verifyFiles (snapshot : Snapshot) :
    VerifyWorker × Store × Nat → List FileInfo → Option (VerifyWorker × Store × Nat)
  | acc, [] => pure acc
  | (worker, store, errorCount), info :: infos => do
    let (worker, store, r) ← verifyFile zstd crc32 sha256 worker store snapshot info
    let errorCount := match r with
      | .ok () => errorCount
      | .error _ => errorCount + 1
    verifyFiles snapshot (worker, store, errorCount) infos

/-- `verify_backup_dir_with_lock`: a manifest that does not load fails the snapshot; the filter
may skip it; otherwise every file is checked and the verify state recorded in the manifest. -/
def verifyBackupDirWithLock (worker : VerifyWorker) (store : Store) (snap : Nat)
    (snapshot : Snapshot) (filter : Option (List FileInfo → Bool)) :
    Option (VerifyWorker × Store × Bool) :=
  match snapshot.manifest with
  | .error _ => pure (worker, store, false)
  | .ok files =>
    if filter.any (fun f => !f files) then pure (worker, store, true)
    else do
      let (worker, store, errorCount) ← verifyFiles zstd crc32 sha256 snapshot (worker, store, 0) files
      let snapshot := { snapshot with verifyState := some (errorCount = 0) }
      pure (worker, { store with snapshots := store.snapshots.insert snap snapshot }, errorCount = 0)

/-- `verify_backup_dir`: a snapshot that no longer exists, or that another operation holds
locked, is skipped as verified. -/
def verifyBackupDir (worker : VerifyWorker) (store : Store) (snap : Nat)
    (filter : Option (List FileInfo → Bool)) : Option (VerifyWorker × Store × Bool) :=
  match store.snapshots.lookup snap with
  | none => pure (worker, store, true)
  | some snapshot =>
    if snapshot.locked then pure (worker, store, true)
    else verifyBackupDirWithLock zstd crc32 sha256 worker store snap snapshot filter

/-- `verify_backup_group`: the group's snapshots verified one after the other on one worker;
the ones that fail are collected. -/
def verifyBackupGroup (filter : Option (List FileInfo → Bool)) :
    VerifyWorker × Store → List Nat → Option (VerifyWorker × Store × List Nat)
  | (worker, store), [] => pure (worker, store, [])
  | (worker, store), snap :: snaps => do
    let (worker, store, ok) ← verifyBackupDir zstd crc32 sha256 worker store snap filter
    let (worker, store, errors) ← verifyBackupGroup filter (worker, store) snaps
    pure (worker, store, if ok then errors else snap :: errors)

/-! ## What one chunk check does -/

/-- A chunk that loads from the datastore and passes `verify_unencrypted` for its digest at the
given size. -/
def ChunkValid (store : Store) (digest : Vector UInt8 32) (size : Nat) : Prop :=
  ∃ blob, (loadChunk crc32 store digest).run = some (.ok blob) ∧
    (blob.verifyUnencrypted (σ := Unit) zstd sha256 size digest).run = some (.ok ())

theorem chunkValid_rename {store : Store} {d d' : Vector UInt8 32} (hne : d ≠ d') (size : Nat) :
    ChunkValid zstd crc32 sha256 (renameCorruptedChunk store d') d size ↔
      ChunkValid zstd crc32 sha256 store d size := by
  simp only [ChunkValid, loadChunk, renameCorruptedChunk, AList.lookup_erase_ne hne]

theorem skipChunk_cases (st : ChunkState) (d : Vector UInt8 32) :
    (d ∈ st.worker.verifiedChunks ∧ skipChunk st d = (true, st)) ∨
    (d ∉ st.worker.verifiedChunks ∧ skipChunk st d = (true, { st with errors := st.errors + 1 })) ∨
    (d ∉ st.worker.verifiedChunks ∧ skipChunk st d = (false, st)) := by
  unfold skipChunk
  by_cases hv : d ∈ st.worker.verifiedChunks
  · exact .inl ⟨hv, by simp [hv]⟩
  · by_cases hc : d ∈ st.worker.corruptChunks
    · exact .inr (.inl ⟨hv, by simp [hv, hc]⟩)
    · exact .inr (.inr ⟨hv, by simp [hv, hc]⟩)

/-- What the decoder pool does with a loaded chunk: either it counts an error, leaving the
verified chunks as they are (and may rename the chunk), or the chunk passes `verify_unencrypted`
at the index's size and is remembered as verified. A crypt mode that differs from the index's
is counted as an error in the second case too. -/
theorem decodeChunk_cases {mode : CryptMode} {st st' : ChunkState} {chunk : DataBlob}
    {d : Vector UInt8 32} {size : Nat}
    (h : decodeChunk zstd sha256 mode st chunk d size = some st') :
    (st.errors < st'.errors ∧ st'.worker.verifiedChunks = st.worker.verifiedChunks ∧
      (st'.store = st.store ∨ st'.store = renameCorruptedChunk st.store d)) ∨
    (st.errors ≤ st'.errors ∧
      (chunk.verifyUnencrypted (σ := Unit) zstd sha256 size d).run = some (.ok ()) ∧
      st'.worker.verifiedChunks = st.worker.verifiedChunks ++ [d] ∧ st'.store = st.store) := by
  unfold decodeChunk at h
  cases hm : chunk.cryptMode.run with
  | none => simp [hm] at h
  | some m =>
    cases m with
    | error e =>
      simp only [hm, Option.pure_def, Option.bind_eq_bind, Option.bind_some, Option.some.injEq] at h
      subst h
      exact .inl ⟨Nat.lt_succ_self _, rfl, .inl rfl⟩
    | ok cm =>
      -- the crypt-mode check only counts an error; the content check decides the rest
      have herr : st.errors ≤ (if cm ≠ mode then { st with errors := st.errors + 1 } else st).errors := by
        split <;> simp
      cases hv : (chunk.verifyUnencrypted (σ := Unit) zstd sha256 size d).run with
      | none => simp [hm, hv] at h
      | some r =>
        cases r with
        | error e =>
          simp only [hm, hv, Option.pure_def, Option.bind_eq_bind, Option.bind_some,
            Option.some.injEq] at h
          subst h
          refine .inl ⟨Nat.lt_succ_of_le herr, ?_, .inr ?_⟩ <;> split <;> rfl
        | ok u =>
          simp only [hm, hv, Option.pure_def, Option.bind_eq_bind, Option.bind_some,
            Option.some.injEq] at h
          subst h
          refine .inr ⟨herr, rfl, ?_, ?_⟩ <;> split <;> rfl

/-- What the main loop does with one listed chunk: skip it as verified; count an error, with
the verified chunks unchanged (skipped as corrupt, not loadable, or failing a check of the
decoder pool); or find it valid at the index's size and remember it. -/
theorem verifyListedChunk_cases {mode : CryptMode} {st st' : ChunkState}
    {info : Vector UInt8 32 × Nat}
    (h : verifyListedChunk zstd crc32 sha256 mode st info = some st') :
    (info.1 ∈ st.worker.verifiedChunks ∧ st' = st) ∨
    (info.1 ∉ st.worker.verifiedChunks ∧ st.errors < st'.errors ∧
      st'.worker.verifiedChunks = st.worker.verifiedChunks ∧
      (st'.store = st.store ∨ st'.store = renameCorruptedChunk st.store info.1)) ∨
    (info.1 ∉ st.worker.verifiedChunks ∧ st.errors ≤ st'.errors ∧
      ChunkValid zstd crc32 sha256 st.store info.1 info.2 ∧
      st'.worker.verifiedChunks = st.worker.verifiedChunks ++ [info.1] ∧ st'.store = st.store) := by
  unfold verifyListedChunk at h
  rcases skipChunk_cases st info.1 with ⟨hv, hs⟩ | ⟨hv, hs⟩ | ⟨hv, hs⟩ <;>
    simp only [hs, if_true, if_false, Bool.false_eq_true, pure, Option.some.injEq] at h
  case inl =>
    exact .inl ⟨hv, h.symm⟩
  case inr.inl =>
    subst h
    exact .inr (.inl ⟨hv, Nat.lt_succ_self _, rfl, .inl rfl⟩)
  case inr.inr =>
    cases hl : (loadChunk crc32 st.store info.1).run with
    | none => simp [hl] at h
    | some r =>
      cases r with
      | error e =>
        simp only [hl, Option.bind_eq_bind, Option.bind_some, Option.some.injEq] at h
        subst h
        exact .inr (.inl ⟨hv, Nat.lt_succ_self _, rfl, .inr rfl⟩)
      | ok chunk =>
        simp only [hl, Option.bind_eq_bind, Option.bind_some] at h
        rcases decodeChunk_cases zstd sha256 h with ⟨hlt, hver, hstore⟩ | ⟨hle, hok, hver, hstore⟩
        · exact .inr (.inl ⟨hv, hlt, hver, hstore⟩)
        · exact .inr (.inr ⟨hv, hle, ⟨chunk, hl, hok⟩, hver, hstore⟩)

/-! ## The chunk loop -/

/-- `CacheSound`: every chunk the worker remembers as verified loads from the datastore and
passes `verify_unencrypted` at some size. -/
def CacheSound (worker : VerifyWorker) (store : Store) : Prop :=
  ∀ d ∈ worker.verifiedChunks, ∃ size, ChunkValid zstd crc32 sha256 store d size

theorem CacheSound.verifyListedChunk {mode : CryptMode} {st st' : ChunkState}
    {info : Vector UInt8 32 × Nat} (hs : CacheSound zstd crc32 sha256 st.worker st.store)
    (h : verifyListedChunk zstd crc32 sha256 mode st info = some st') :
    CacheSound zstd crc32 sha256 st'.worker st'.store := by
  rcases verifyListedChunk_cases zstd crc32 sha256 h with
    ⟨-, rfl⟩ | ⟨hv, -, hver, hstore⟩ | ⟨-, -, hvalid, hver, hstore⟩
  case inl => exact hs
  case inr.inl =>
    -- a renamed chunk was not verified, so no remembered chunk loses its file
    intro d hd
    rw [hver] at hd
    obtain ⟨size, hsz⟩ := hs d hd
    refine ⟨size, ?_⟩
    rcases hstore with hstore | hstore <;> rw [hstore]
    · exact hsz
    · exact (chunkValid_rename zstd crc32 sha256 (ne_of_mem_of_not_mem hd hv) size).2 hsz
  case inr.inr =>
    intro d hd
    rw [hver, List.mem_append, List.mem_singleton] at hd
    rw [hstore]
    rcases hd with hd | rfl
    · exact hs d hd
    · exact ⟨info.2, hvalid⟩

/-- What the chunk loop only adds to: the error count, and the verified chunks (at the end). -/
structure Grows (st st' : ChunkState) : Prop where
  errors : st.errors ≤ st'.errors
  verified : st.worker.verifiedChunks <+: st'.worker.verifiedChunks

theorem Grows.refl (st : ChunkState) : Grows st st := ⟨le_rfl, List.prefix_refl _⟩

theorem Grows.trans {st₁ st₂ st₃ : ChunkState} (h₁ : Grows st₁ st₂) (h₂ : Grows st₂ st₃) :
    Grows st₁ st₃ :=
  ⟨h₁.errors.trans h₂.errors, h₁.verified.trans h₂.verified⟩

/-- A listed chunk that counts no error ends up verified. -/
theorem verifyListedChunk_grows {mode : CryptMode} {st st' : ChunkState}
    {info : Vector UInt8 32 × Nat}
    (h : verifyListedChunk zstd crc32 sha256 mode st info = some st') :
    Grows st st' ∧ (st'.errors = st.errors → info.1 ∈ st'.worker.verifiedChunks) := by
  rcases verifyListedChunk_cases zstd crc32 sha256 h with
    ⟨hv, rfl⟩ | ⟨-, hlt, hver, -⟩ | ⟨-, hle, -, hver, -⟩
  · exact ⟨Grows.refl _, fun _ => hv⟩
  · refine ⟨⟨hlt.le, hver ▸ List.prefix_refl _⟩, fun heq => ?_⟩
    omega
  · refine ⟨⟨hle, hver ▸ List.prefix_append _ _⟩, fun _ => ?_⟩
    simp [hver]

/-- The loop over the listed chunks keeps the cache sound, only grows, and, if it counts no
error, leaves every listed chunk verified. -/
theorem foldlM_verifyListedChunk {mode : CryptMode} (list : List (Vector UInt8 32 × Nat)) :
    ∀ {st st' : ChunkState},
      list.foldlM (verifyListedChunk zstd crc32 sha256 mode) st = some st' →
      CacheSound zstd crc32 sha256 st.worker st.store →
      CacheSound zstd crc32 sha256 st'.worker st'.store ∧ Grows st st' ∧
        (st'.errors = st.errors → ∀ info ∈ list, info.1 ∈ st'.worker.verifiedChunks) := by
  induction list with
  | nil =>
    intro st st' h hs
    cases h
    exact ⟨hs, Grows.refl st, fun _ _ hmem => nomatch hmem⟩
  | cons info rest ih =>
    intro st st' h hs
    rw [List.foldlM_cons] at h
    obtain ⟨st₁, h₁, hrest⟩ := Option.bind_eq_some_iff.mp h
    obtain ⟨hg₁, hnew⟩ := verifyListedChunk_grows zstd crc32 sha256 h₁
    obtain ⟨hs', hg, hall⟩ := ih hrest (hs.verifyListedChunk zstd crc32 sha256 h₁)
    refine ⟨hs', hg₁.trans hg, fun heq => ?_⟩
    -- no error at all: none in the first chunk, none in the rest
    have heq₁ : st₁.errors = st.errors := le_antisymm (heq ▸ hg.errors) hg₁.errors
    have heq' : st'.errors = st₁.errors := heq₁ ▸ heq
    intro c hc
    rcases List.mem_cons.mp hc with rfl | hc
    · exact hg.verified.subset (hnew heq₁)
    · exact hall heq' c hc

/-- Listing the chunks changes only the error count (chunks skipped as corrupt); if it counts
none, every chunk of the index is verified already or listed. -/
theorem getChunksInOrder_spec (infos : List (Vector UInt8 32 × Nat)) :
    ∀ (st : ChunkState), (getChunksInOrder st infos).2.worker = st.worker ∧
      (getChunksInOrder st infos).2.store = st.store ∧
      st.errors ≤ (getChunksInOrder st infos).2.errors ∧
      ((getChunksInOrder st infos).2.errors = st.errors →
        ∀ info ∈ infos, info.1 ∈ st.worker.verifiedChunks ∨ info ∈ (getChunksInOrder st infos).1) := by
  induction infos with
  | nil =>
    intro st
    exact ⟨rfl, rfl, le_rfl, fun _ _ hmem => nomatch hmem⟩
  | cons info rest ih =>
    intro st
    rcases skipChunk_cases st info.1 with ⟨hv, hs⟩ | ⟨-, hs⟩ | ⟨-, hs⟩ <;>
      simp only [getChunksInOrder, hs, if_true, if_false, Bool.false_eq_true]
    case inl =>
      obtain ⟨hw, hstore, hle, hall⟩ := ih st
      refine ⟨hw, hstore, hle, fun heq c hc => ?_⟩
      rcases List.mem_cons.mp hc with rfl | hc
      · exact .inl hv
      · exact hall heq c hc
    case inr.inl =>
      -- skipped as corrupt: one error counted, so the last conjunct holds vacuously
      obtain ⟨hw, hstore, hle, -⟩ := ih { st with errors := st.errors + 1 }
      refine ⟨hw, hstore, by simp at hle; omega, fun heq => ?_⟩
      simp at hle
      omega
    case inr.inr =>
      obtain ⟨hw, hstore, hle, hall⟩ := ih st
      refine ⟨hw, hstore, hle, fun heq c hc => ?_⟩
      rcases List.mem_cons.mp hc with rfl | hc
      · exact .inr List.mem_cons_self
      · exact (hall heq c hc).imp id (List.mem_cons_of_mem _)

/-! ## Verify calls -/

/-- What a call leaves of the worker: a sound cache that extends the one it started with. -/
structure Keeps (worker worker' : VerifyWorker) (store' : Store) : Prop where
  sound : CacheSound zstd crc32 sha256 worker' store'
  verified : worker.verifiedChunks <+: worker'.verifiedChunks

theorem Keeps.refl {worker : VerifyWorker} {store : Store}
    (hs : CacheSound zstd crc32 sha256 worker store) : Keeps zstd crc32 sha256 worker worker store :=
  ⟨hs, List.prefix_refl _⟩

theorem Keeps.trans {w₁ w₂ w₃ : VerifyWorker} {s₂ s₃ : Store}
    (h₁ : Keeps zstd crc32 sha256 w₁ w₂ s₂) (h₂ : Keeps zstd crc32 sha256 w₂ w₃ s₃) :
    Keeps zstd crc32 sha256 w₁ w₃ s₃ :=
  ⟨h₂.sound, h₁.verified.trans h₂.verified⟩

/-- `verify_index_chunks` keeps the cache sound; if it succeeds, every chunk of the index is
remembered as verified. -/
theorem verifyIndexChunks_spec {worker worker' : VerifyWorker} {store store' : Store}
    {index : IndexFile} {mode : CryptMode} {r : Except String Unit}
    (hs : CacheSound zstd crc32 sha256 worker store)
    (h : verifyIndexChunks zstd crc32 sha256 worker store index mode = some (worker', store', r)) :
    Keeps zstd crc32 sha256 worker worker' store' ∧
      (r = .ok () → ∀ c ∈ index.chunks, c.1 ∈ worker'.verifiedChunks) := by
  obtain ⟨hw, hstore, -, hlisted⟩ := getChunksInOrder_spec index.chunks ⟨worker, store, 0⟩
  unfold verifyIndexChunks at h
  generalize getChunksInOrder ⟨worker, store, 0⟩ index.chunks = p at h hw hstore hlisted
  obtain ⟨list, st₁⟩ := p
  obtain ⟨st₂, hfold, hpure⟩ := Option.bind_eq_some_iff.mp h
  cases hpure
  dsimp only at hw hstore hlisted
  obtain ⟨hs₂, hg, hall⟩ := foldlM_verifyListedChunk zstd crc32 sha256 list hfold (hw ▸ hstore ▸ hs)
  refine ⟨⟨hs₂, hw ▸ hg.verified⟩, fun hok c hc => ?_⟩
  -- success means no error was counted, neither while listing nor while checking
  have h₂ : st₂.errors = 0 := by
    by_contra hne
    simp [Nat.pos_of_ne_zero hne] at hok
  have h₁ : st₁.errors = 0 := Nat.eq_zero_of_le_zero (h₂ ▸ hg.errors)
  rcases hlisted h₁ c hc with hv | hl
  · exact hg.verified.subset (hw ▸ hv)
  · exact hall (h₂.trans h₁.symm) c hl

/-- A manifest file that passes its checks, with `chunkOk` what is known of each chunk an index
references: a blob passes `verify_blob`; an index file matches the manifest's size and
checksum. -/
def FileOk (chunkOk : Vector UInt8 32 → Prop) (snapshot : Snapshot) (info : FileInfo) : Prop :=
  match archiveType info.filename with
  | .ok .blob => (verifyBlob zstd crc32 sha256 snapshot info).run = some (.ok ())
  | .ok _ => ∃ index, snapshot.indexes info.filename = some index ∧ index.size = info.size ∧
      index.csum = info.csum ∧ ∀ c ∈ index.chunks, chunkOk c.1
  | .error _ => False

theorem FileOk.mono {P Q : Vector UInt8 32 → Prop} (hPQ : ∀ d, P d → Q d) {snapshot : Snapshot}
    {info : FileInfo} (h : FileOk zstd crc32 sha256 P snapshot info) :
    FileOk zstd crc32 sha256 Q snapshot info := by
  unfold FileOk at h ⊢
  split at h
  · exact h
  · obtain ⟨index, hi, hsize, hcsum, hc⟩ := h
    exact ⟨index, hi, hsize, hcsum, fun c hmem => hPQ _ (hc c hmem)⟩
  · exact h.elim

/-- The index checks keep the cache sound; if they succeed, the index matches the manifest and
its chunks are remembered as verified. -/
theorem verifyIndex_spec {worker worker' : VerifyWorker} {store store' : Store}
    {snapshot : Snapshot} {info : FileInfo} {r : Except String Unit}
    (hs : CacheSound zstd crc32 sha256 worker store)
    (h : verifyIndex zstd crc32 sha256 worker store snapshot info = some (worker', store', r)) :
    Keeps zstd crc32 sha256 worker worker' store' ∧
      (r = .ok () → ∃ index, snapshot.indexes info.filename = some index ∧
        index.size = info.size ∧ index.csum = info.csum ∧
        ∀ c ∈ index.chunks, c.1 ∈ worker'.verifiedChunks) := by
  unfold verifyIndex at h
  -- the three early failures return the worker and the store as they were
  split at h
  · cases h
    exact ⟨Keeps.refl zstd crc32 sha256 hs, fun h => nomatch h⟩
  · next index hi =>
    split_ifs at h with hsize hcsum
    · cases h
      exact ⟨Keeps.refl zstd crc32 sha256 hs, fun h => nomatch h⟩
    · cases h
      exact ⟨Keeps.refl zstd crc32 sha256 hs, fun h => nomatch h⟩
    · obtain ⟨hk, hall⟩ := verifyIndexChunks_spec zstd crc32 sha256 hs h
      exact ⟨hk, fun hok => ⟨index, hi, not_not.mp hsize, not_not.mp hcsum, hall hok⟩⟩

/-- The check of one manifest file keeps the cache sound; if it succeeds, the file passes its
checks with its chunks remembered as verified. -/
theorem verifyFile_spec {worker worker' : VerifyWorker} {store store' : Store}
    {snapshot : Snapshot} {info : FileInfo} {r : Except String Unit}
    (hs : CacheSound zstd crc32 sha256 worker store)
    (h : verifyFile zstd crc32 sha256 worker store snapshot info = some (worker', store', r)) :
    Keeps zstd crc32 sha256 worker worker' store' ∧
      (r = .ok () → FileOk zstd crc32 sha256 (· ∈ worker'.verifiedChunks) snapshot info) := by
  unfold verifyFile at h
  unfold FileOk
  split at h
  · next e he =>
    cases h
    exact ⟨Keeps.refl zstd crc32 sha256 hs, fun h => nomatch h⟩
  · next hty =>
    rw [hty]
    exact verifyIndex_spec zstd crc32 sha256 hs h
  · next hty =>
    rw [hty]
    exact verifyIndex_spec zstd crc32 sha256 hs h
  · next hty =>
    rw [hty]
    obtain ⟨r', hr, hpure⟩ := Option.bind_eq_some_iff.mp h
    cases hpure
    exact ⟨Keeps.refl zstd crc32 sha256 hs, fun hok => hok ▸ hr⟩

/-- The loop over the manifest's files keeps the cache sound and only counts up; if it counts
no failure, every file passes its checks with its chunks remembered as verified. -/
theorem verifyFiles_spec (snapshot : Snapshot) (files : List FileInfo) :
    ∀ {worker worker' : VerifyWorker} {store store' : Store} {n n' : Nat},
      verifyFiles zstd crc32 sha256 snapshot (worker, store, n) files =
        some (worker', store', n') →
      CacheSound zstd crc32 sha256 worker store →
      Keeps zstd crc32 sha256 worker worker' store' ∧ n ≤ n' ∧
        (n' = n → ∀ info ∈ files,
          FileOk zstd crc32 sha256 (· ∈ worker'.verifiedChunks) snapshot info) := by
  induction files with
  | nil =>
    intro worker worker' store store' n n' h hs
    cases h
    exact ⟨Keeps.refl zstd crc32 sha256 hs, le_rfl, fun _ _ hmem => nomatch hmem⟩
  | cons info rest ih =>
    intro worker worker' store store' n n' h hs
    unfold verifyFiles at h
    obtain ⟨⟨w₁, s₁, r⟩, h₁, hrest⟩ := Option.bind_eq_some_iff.mp h
    obtain ⟨hk₁, hok₁⟩ := verifyFile_spec zstd crc32 sha256 hs h₁
    -- a failed file counts one, so a count that did not move means this file passed
    cases r with
    | ok u =>
      obtain ⟨hk, hle, hall⟩ := ih hrest hk₁.sound
      refine ⟨hk₁.trans zstd crc32 sha256 hk, hle, fun heq c hc => ?_⟩
      rcases List.mem_cons.mp hc with rfl | hc
      · exact (hok₁ rfl).mono zstd crc32 sha256 (fun d hd => hk.verified.subset hd)
      · exact hall heq c hc
    | error e =>
      obtain ⟨hk, hle, -⟩ := ih hrest hk₁.sound
      have hlt : n < n' := Nat.lt_of_succ_le hle
      exact ⟨hk₁.trans zstd crc32 sha256 hk, hlt.le, fun heq => absurd heq hlt.ne'⟩

/-- `verify_backup_dir_with_lock` keeps the cache sound; if it returns true for a manifest that
loads and that the filter keeps, every file passes its checks with its chunks remembered as
verified, and the manifest records the verification as ok. -/
theorem verifyBackupDirWithLock_spec {worker worker' : VerifyWorker} {store store' : Store}
    {snap : Nat} {snapshot : Snapshot} {filter : Option (List FileInfo → Bool)} {ok : Bool}
    (hs : CacheSound zstd crc32 sha256 worker store)
    (h : verifyBackupDirWithLock zstd crc32 sha256 worker store snap snapshot filter =
      some (worker', store', ok)) :
    Keeps zstd crc32 sha256 worker worker' store' ∧
      ∀ files, snapshot.manifest = .ok files → (∀ f ∈ filter, f files = true) → ok = true →
        (∀ info ∈ files, FileOk zstd crc32 sha256 (· ∈ worker'.verifiedChunks) snapshot info) ∧
        store'.snapshots.lookup snap = some { snapshot with verifyState := some true } := by
  unfold verifyBackupDirWithLock at h
  split at h
  · next e hman =>
    cases h
    refine ⟨Keeps.refl zstd crc32 sha256 hs, fun files hfiles => ?_⟩
    simp [hman] at hfiles
  · next files hman =>
    split_ifs at h with hskip
    · -- skipped by the filter
      cases h
      refine ⟨Keeps.refl zstd crc32 sha256 hs, fun files' hfiles hkeep _ => ?_⟩
      rw [hman, Except.ok.injEq] at hfiles
      subst hfiles
      cases filter with
      | none => simp at hskip
      | some f =>
        have hf : f files = true := hkeep f rfl
        simp [hf] at hskip
    · obtain ⟨⟨w₁, s₁, n⟩, h₁, hpure⟩ := Option.bind_eq_some_iff.mp h
      cases hpure
      obtain ⟨hk, -, hall⟩ := verifyFiles_spec zstd crc32 sha256 snapshot files h₁ hs
      refine ⟨⟨hk.sound, hk.verified⟩, fun files' hfiles _ hok => ?_⟩
      rw [hman, Except.ok.injEq] at hfiles
      subst hfiles
      have hn : n = 0 := of_decide_eq_true hok
      exact ⟨hall hn, by simp [hn]⟩

/-- Every verify call keeps the worker's cache sound, whatever it returns. -/
theorem verifyBackupDir_keeps {worker worker' : VerifyWorker} {store store' : Store} {snap : Nat}
    {filter : Option (List FileInfo → Bool)} {ok : Bool}
    (hs : CacheSound zstd crc32 sha256 worker store)
    (h : verifyBackupDir zstd crc32 sha256 worker store snap filter = some (worker', store', ok)) :
    Keeps zstd crc32 sha256 worker worker' store' := by
  unfold verifyBackupDir at h
  split at h
  · cases h
    exact Keeps.refl zstd crc32 sha256 hs
  · split_ifs at h
    · cases h
      exact Keeps.refl zstd crc32 sha256 hs
    · exact (verifyBackupDirWithLock_spec zstd crc32 sha256 hs h).1

/-- The snapshots of a group verified one after the other on one worker: each call keeps the
cache sound, so every call of the run starts from a sound cache. -/
theorem verifyBackupGroup_keeps (filter : Option (List FileInfo → Bool)) (snaps : List Nat) :
    ∀ {worker worker' : VerifyWorker} {store store' : Store} {failed : List Nat},
      verifyBackupGroup zstd crc32 sha256 filter (worker, store) snaps =
        some (worker', store', failed) →
      CacheSound zstd crc32 sha256 worker store → Keeps zstd crc32 sha256 worker worker' store' := by
  induction snaps with
  | nil =>
    intro worker worker' store store' failed h hs
    cases h
    exact Keeps.refl zstd crc32 sha256 hs
  | cons snap rest ih =>
    intro worker worker' store store' failed h hs
    unfold verifyBackupGroup at h
    obtain ⟨⟨w₁, s₁, ok⟩, h₁, hrest⟩ := Option.bind_eq_some_iff.mp h
    obtain ⟨⟨w₂, s₂, errors⟩, h₂, hpure⟩ := Option.bind_eq_some_iff.mp hrest
    cases hpure
    have hk₁ := verifyBackupDir_keeps zstd crc32 sha256 hs h₁
    exact hk₁.trans zstd crc32 sha256 (ih h₂ hk₁.sound)

/-- A verify call from a sound cache (one that `VerifyWorker::new` starts and verify calls
keep, `verifyBackupGroup_keeps`) that checks a snapshot and returns true guarantees every file
of its manifest: a blob passes `verify_blob`, an index file matches the manifest, and every
chunk it references loads and passes `verify_unencrypted` at some size. The manifest records the
verification as ok. -/
theorem verify_ok_chunks_valid {worker worker' : VerifyWorker} {store store' : Store} {snap : Nat}
    {snapshot : Snapshot} {files : List FileInfo} {filter : Option (List FileInfo → Bool)}
    (hs : CacheSound zstd crc32 sha256 worker store)
    (hsnap : store.snapshots.lookup snap = some snapshot) (hunlocked : snapshot.locked = false)
    (hman : snapshot.manifest = .ok files) (hkeep : ∀ f ∈ filter, f files = true)
    (h : verifyBackupDir zstd crc32 sha256 worker store snap filter =
      some (worker', store', true)) :
    (∀ info ∈ files, FileOk zstd crc32 sha256
      (fun d => ∃ size, ChunkValid zstd crc32 sha256 store' d size) snapshot info) ∧
    store'.snapshots.lookup snap = some { snapshot with verifyState := some true } := by
  unfold verifyBackupDir at h
  simp only [hsnap, hunlocked, Bool.false_eq_true, if_false] at h
  obtain ⟨hk, hok⟩ := verifyBackupDirWithLock_spec zstd crc32 sha256 hs h
  obtain ⟨hall, hrecord⟩ := hok files hman hkeep rfl
  -- a remembered chunk is valid in the final datastore, since the final cache is sound
  exact ⟨fun info hi => (hall info hi).mono zstd crc32 sha256 (fun d hd => hk.sound d hd), hrecord⟩

/-! ## A skipped chunk is not checked against its index -/

/-- Two snapshots whose manifests list one index file, referencing one chunk of three bytes
stored unencrypted: snapshot 1 records the index as unencrypted, snapshot 2 as encrypted. -/
def sharedChunkStore : Store :=
  let data : List UInt8 := [1, 2, 3]
  let index : IndexFile := ⟨Vector.replicate 32 7, 3, [(sha256 data, 3)]⟩
  let snapshot (mode : CryptMode) : Snapshot :=
    ⟨.ok [⟨"root.img.fidx", mode, 3, Vector.replicate 32 7⟩], false, fun _ => none,
      fun name => if name = "root.img.fidx" then some index else none, none⟩
  ⟨(∅ : AList _).insert (sha256 data)
      (DataBlob.layout uncompressedBlobMagic (crc32 data) [] data).rawData,
    ((∅ : AList (fun _ : Nat => Snapshot)).insert 1 (snapshot .none)).insert 2 (snapshot .encrypt)⟩

/-- Snapshot 2 verified alone fails: its chunk is unencrypted where its manifest expects an
encrypted one. Verified after snapshot 1 on the same worker, it passes: the chunk is
remembered as verified and skipped, and its crypt mode is never compared with snapshot 2's. -/
theorem verify_skips_crypt_mode_check :
    (verifyBackupGroup Zstd.identity (fun _ => 0) (fun bytes => Vector.replicate 32 bytes.sum)
      none (VerifyWorker.new,
        sharedChunkStore (fun _ => 0) (fun bytes => Vector.replicate 32 bytes.sum)) [2]).map
      (·.2.2) = some [2] ∧
    (verifyBackupGroup Zstd.identity (fun _ => 0) (fun bytes => Vector.replicate 32 bytes.sum)
      none (VerifyWorker.new,
        sharedChunkStore (fun _ => 0) (fun bytes => Vector.replicate 32 bytes.sum)) [1, 2]).map
      (·.2.2) = some [] := by
  constructor <;> decide +kernel

end ProxmoxBackup.Verify
