import ProxmoxBackup.Tape.MediaPool
import ProxmoxBackup.Tape.ChunkArchive
import ProxmoxBackup.Datastore.Manifest
import ProxmoxBackup.Foundations.Assoc

/-!
# The media catalog (`src/tape/media_catalog.rs`)

A media catalog records what a tape holds: for each datastore, its snapshots and its chunks, each
with the number of the tape file that holds it. It lives in memory and is logged to a file: a
magic number, then one entry per registration, the two labels first (`L`, files 0 and 1), then
chunk archives (`A`, the archive's chunks `C`, then `E`) and snapshots (`S`) in increasing file
order. The registering methods check that order (the `check_*` functions), change the maps and
append the entry to `pending`, which `commit` appends to the file. `load_catalog` reads a file
back, entry by entry, with the same checks.

This module is the model of the source:

* the catalog is a structure, and each `&mut self` method that returns a `Result` an `EStateM`
  computation (`CatalogM`), so an error keeps the state the method had reached;
* the entries' structs have the bytes `write_le_value` writes for their `#[repr(C)]` layout;
* `load_catalog` runs over the bytes of the file. Each arm of its loop is cut in two: the reads
  (`readEntry`) give an entry (`CatalogEntry`), and `CatalogEntry.load` makes the arm's checks and
  change. All reads of an arm come before its checks in the source, but for the archive check of
  `C`, which `readEntry` keeps in front.

The spec lemma of each method says what it does from any state; `Tape.MediaCatalogLog` puts
them together.
-/

namespace ProxmoxBackup.Tape

open ApiTypes

/-! ## The entries and their bytes -/

/-- `PROXMOX_BACKUP_MEDIA_CATALOG_MAGIC_1_0`. -/
def mediaCatalogMagic10 : List UInt8 := [221, 29, 164, 1, 59, 69, 19, 40]

/-- `PROXMOX_BACKUP_MEDIA_CATALOG_MAGIC_1_1`. -/
def mediaCatalogMagic11 : List UInt8 := [76, 142, 232, 193, 32, 168, 137, 113]

/-- The `n` bytes at `offset` of a struct's bytes, as a `[u8; n]`. -/
def readArray (n : Nat) (bytes : List UInt8) (offset : Nat) : Vector UInt8 n :=
  Vector.ofFn fun i => bytes.getD (offset + i) 0

/-- The `u64` at `offset` of a struct's bytes, little endian. -/
def readU64 (bytes : List UInt8) (offset : Nat) : UInt64 :=
  UInt64.ofNat (LittleEndian.ofBytes ((bytes.drop offset).take 8))

/-- A `u64` as `to_le` lays it out. -/
def u64Bytes (n : UInt64) : List UInt8 := LittleEndian.toBytes 8 n.toNat

/-- `LabelEntry`. -/
structure LabelEntry where
  fileNumber : UInt64
  uuid : Uuid
  seqNr : UInt64

/-- `ChunkArchiveStart`; the datastore's name follows it. -/
structure ChunkArchiveStart where
  fileNumber : UInt64
  uuid : Uuid
  storeNameLen : UInt8

/-- `ChunkArchiveEnd`. -/
structure ChunkArchiveEnd where
  fileNumber : UInt64
  uuid : Uuid

/-- `SnapshotEntry`; the datastore's name, `:` and the snapshot's name follow it. -/
structure SnapshotEntry where
  fileNumber : UInt64
  uuid : Uuid
  storeNameLen : UInt8
  nameLen : UInt16

/-- The 32 bytes `write_le_value` writes for a `LabelEntry`: `file_number` at 0, `uuid` at 8 and
`seq_nr` at 24. -/
def LabelEntry.toBytes (entry : LabelEntry) : List UInt8 :=
  u64Bytes entry.fileNumber ++ entry.uuid.bytes.toList ++ u64Bytes entry.seqNr

/-- `read_le_value` of a `LabelEntry` from its bytes. -/
def LabelEntry.ofBytes (bytes : List UInt8) : LabelEntry :=
  ⟨readU64 bytes 0, ⟨readArray 16 bytes 8⟩, readU64 bytes 24⟩

/-- The 32 bytes of a `ChunkArchiveStart`: `store_name_len` at 24, then seven bytes of padding to
the alignment of `u64`. Rust leaves padding uninitialised; it is written as zeros here, and
`load_catalog` never reads it. -/
def ChunkArchiveStart.toBytes (entry : ChunkArchiveStart) : List UInt8 :=
  u64Bytes entry.fileNumber ++ entry.uuid.bytes.toList ++ entry.storeNameLen :: List.replicate 7 0

/-- `read_le_value` of a `ChunkArchiveStart`. -/
def ChunkArchiveStart.ofBytes (bytes : List UInt8) : ChunkArchiveStart :=
  ⟨readU64 bytes 0, ⟨readArray 16 bytes 8⟩, bytes.getD 24 0⟩

/-- The 24 bytes of a `ChunkArchiveEnd`. -/
def ChunkArchiveEnd.toBytes (entry : ChunkArchiveEnd) : List UInt8 :=
  u64Bytes entry.fileNumber ++ entry.uuid.bytes.toList

/-- `read_le_value` of a `ChunkArchiveEnd`. -/
def ChunkArchiveEnd.ofBytes (bytes : List UInt8) : ChunkArchiveEnd :=
  ⟨readU64 bytes 0, ⟨readArray 16 bytes 8⟩⟩

/-- The 32 bytes of a `SnapshotEntry`: `store_name_len` at 24, a byte of padding, `name_len` at
26, and four bytes of padding (zeros, as for `ChunkArchiveStart`). -/
def SnapshotEntry.toBytes (entry : SnapshotEntry) : List UInt8 :=
  u64Bytes entry.fileNumber ++ entry.uuid.bytes.toList ++
    entry.storeNameLen :: 0 :: LittleEndian.toBytes 2 entry.nameLen.toNat ++ List.replicate 4 0

/-- `read_le_value` of a `SnapshotEntry`. -/
def SnapshotEntry.ofBytes (bytes : List UInt8) : SnapshotEntry :=
  ⟨readU64 bytes 0, ⟨readArray 16 bytes 8⟩, bytes.getD 24 0,
    UInt16.ofNat (LittleEndian.ofBytes ((bytes.drop 26).take 2))⟩

/-- An entry of the log, with what its struct and the names after it carry. -/
inductive CatalogEntry
  | label (fileNumber : UInt64) (uuid : Uuid) (seqNr : UInt64)
  | chunk (digest : Vector UInt8 32)
  | chunkArchiveStart (fileNumber : UInt64) (uuid : Uuid) (store : String)
  | chunkArchiveEnd (fileNumber : UInt64) (uuid : Uuid)
  | snapshot (fileNumber : UInt64) (uuid : Uuid) (store : String) (name : String)

/-! ## The catalog -/

/-- `DatastoreContent`: the snapshots (by name) and the chunks (by digest) of one datastore, each
with the number of the tape file that holds it. The `HashMap`s are association lists. -/
structure DatastoreContent where
  snapshotIndex : AList fun _ : String => UInt64
  chunkIndex : AList fun _ : Vector UInt8 32 => UInt64

/-- `DatastoreContent::default`. -/
def DatastoreContent.empty : DatastoreContent := ⟨∅, ∅⟩

/-- `MediaCatalog`. `file` is what the catalog file holds (`None`: the file is opened read-only);
`log_to_stdout` only prints, and is left out. -/
structure MediaCatalog where
  uuid : Uuid
  file : Option (List UInt8)
  currentArchive : Option (Uuid × UInt64 × String)
  lastEntry : Option (Uuid × UInt64)
  content : AList fun _ : String => DatastoreContent
  pending : List UInt8

/-- How a method of the catalog fails: an `Err` with its text, or a panic. -/
inductive CatalogFailure
  | error (msg : String)
  | panic
  deriving DecidableEq

/-- `map_err` on a failure; a panic stays a panic. -/
def CatalogFailure.mapError (f : String → String) : CatalogFailure → CatalogFailure
  | .error msg => .error (f msg)
  | .panic => .panic

/-- A `&mut self` method of the catalog: an error keeps the state the method had reached. -/
abbrev CatalogM := EStateM CatalogFailure MediaCatalog

/-- `?` on a `Result<_, Error>` inside a method. -/
def tryResult {α : Type} : Except String α → CatalogM α
  | .error msg => throw (.error msg)
  | .ok a => pure a

/-- `u8::try_from` of a length. -/
def u8TryFrom (n : Nat) : Except String UInt8 :=
  if n < 2 ^ 8 then .ok (UInt8.ofNat n) else .error "out of range integral type conversion attempted"

/-- `u16::try_from` of a length. -/
def u16TryFrom (n : Nat) : Except String UInt16 :=
  if n < 2 ^ 16 then .ok (UInt16.ofNat n) else .error "out of range integral type conversion attempted"

namespace MediaCatalog

/-- `self.content.entry(store).or_default()`, with the change `f` made to the datastore's
content. -/
def modifyContent (content : AList fun _ : String => DatastoreContent) (store : String)
    (f : DatastoreContent → DatastoreContent) : AList fun _ : String => DatastoreContent :=
  content.insert store (f ((content.lookup store).getD DatastoreContent.empty))

/-- `expected_file_number` and `expect_min_file_number`: one past the last entry's file number
(an addition of `u64`s, which wraps in a release build), or `0` before any entry. -/
def nextFileNumber (self : MediaCatalog) : UInt64 :=
  match self.lastEntry with
  | some (_, lastNumber) => lastNumber + 1
  | none => 0

/-- `check_register_label`. -/
def checkRegisterLabel (self : MediaCatalog) (fileNumber : UInt64) (uuid : Uuid) :
    Except String Unit :=
  if 2 ≤ fileNumber then
    .error ("register label failed: got wrong file number (" ++ toString fileNumber ++ " >= 2)")
  else if fileNumber = 0 ∧ uuid ≠ self.uuid then .error "register label failed: uuid does not match"
  else if self.currentArchive.isSome then .error "register label failed: inside chunk archive"
  else if fileNumber ≠ self.nextFileNumber then
    .error ("register label failed: got unexpected file number (" ++ toString fileNumber ++ " < " ++
      toString self.nextFileNumber ++ ")")
  else .ok ()

/-- The checks of `check_start_chunk_archive` and `check_register_snapshot`, which differ only in
their texts: no archive is open, and the file number is at least `2` and not below the next one. -/
def checkAfterLabels (inside wrong unexpected : String) (self : MediaCatalog) (fileNumber : UInt64) :
    Except String Unit :=
  if self.currentArchive.isSome then .error inside
  else if fileNumber < 2 then .error (wrong ++ " (" ++ toString fileNumber ++ " < 2)")
  else if fileNumber < self.nextFileNumber then
    .error (unexpected ++ " (" ++ toString fileNumber ++ " < " ++ toString self.nextFileNumber ++ ")")
  else .ok ()

/-- `check_start_chunk_archive`. -/
def checkStartChunkArchive : MediaCatalog → UInt64 → Except String Unit :=
  checkAfterLabels "start_chunk_archive failed: already started"
    "start_chunk_archive failed: got wrong file number"
    "start_chunk_archive: got unexpected file number"

/-- `check_register_snapshot`. -/
def checkRegisterSnapshot : MediaCatalog → UInt64 → Except String Unit :=
  checkAfterLabels "register_snapshot failed: inside chunk_archive"
    "register_snapshot failed: got wrong file number"
    "register_snapshot failed: got unexpected file number"

/-- `check_end_chunk_archive`. -/
def checkEndChunkArchive (self : MediaCatalog) (uuid : Uuid) (fileNumber : UInt64) :
    Except String Unit :=
  match self.currentArchive with
  | none => .error "end_chunk archive failed: not started"
  | some (expectedUuid, expectedFileNumber, _) =>
    if uuid ≠ expectedUuid then .error "end_chunk_archive failed: got unexpected uuid"
    else if fileNumber ≠ expectedFileNumber then
      .error ("end_chunk_archive failed: got unexpected file number (" ++ toString fileNumber ++
        " != " ++ toString expectedFileNumber ++ ")")
    else .ok ()

/-! ## The registering methods -/

/-- `register_label`. -/
def registerLabel (uuid : Uuid) (seqNr fileNumber : UInt64) : CatalogM Unit := do
  tryResult ((← get).checkRegisterLabel fileNumber uuid)
  if fileNumber = 0 ∧ seqNr ≠ 0 then
    throw (.error "register_label failed - seq_nr should be 0 - iternal error")
  modify fun self => { self with
    pending := self.pending ++ 'L'.toUInt8 :: (LabelEntry.mk fileNumber uuid seqNr).toBytes
    lastEntry := some (uuid, fileNumber) }

/-- `register_chunk`, valid only inside a chunk archive. The entry is appended before the
datastore's content is looked up. -/
def registerChunk (digest : Vector UInt8 32) : CatalogM Unit := do
  let self ← get
  let some (_, fileNumber, store) := self.currentArchive
    | throw (.error "register_chunk failed: no archive started")
  set { self with pending := self.pending ++ 'C'.toUInt8 :: digest.toList }
  match self.content.lookup store with
  | none => throw (.error ("storage " ++ store ++ " not registered - internal error"))
  | some content =>
    modify fun self => { self with
      content := self.content.insert store
        { content with chunkIndex := content.chunkIndex.insert digest fileNumber } }

/-- `start_chunk_archive`. -/
def startChunkArchive (uuid : Uuid) (fileNumber : UInt64) (store : String) : CatalogM Unit := do
  tryResult ((← get).checkStartChunkArchive fileNumber)
  let storeNameLen ← tryResult (u8TryFrom store.utf8ByteSize)
  modify fun self => { self with
    pending := self.pending ++ 'A'.toUInt8 :: (ChunkArchiveStart.mk fileNumber uuid storeNameLen).toBytes ++
      Manifest.utf8Bytes store
    content := modifyContent self.content store id
    currentArchive := some (uuid, fileNumber, store) }

/-- `end_chunk_archive`. -/
def endChunkArchive : CatalogM Unit := do
  let self ← get
  match self.currentArchive with
  | none => throw (.error "end_chunk_archive failed: not started")
  | some (uuid, fileNumber, _) =>
    set { self with
      currentArchive := none
      pending := self.pending ++ 'E'.toUInt8 :: (ChunkArchiveEnd.mk fileNumber uuid).toBytes
      lastEntry := some (uuid, fileNumber) }

/-- `register_chunk_archive`. -/
def registerChunkArchive (uuid : Uuid) (fileNumber : UInt64) (store : String)
    (chunkList : List (Vector UInt8 32)) : CatalogM Unit := do
  startChunkArchive uuid fileNumber store
  chunkList.forM registerChunk
  endChunkArchive

/-- `register_snapshot`. `print_ns_and_snapshot` panics where the snapshot's time cannot be
written. -/
def registerSnapshot (codec : Rfc3339) (uuid : Uuid) (fileNumber : UInt64) (store : String)
    (ns : BackupNamespace) (snapshot : BackupDir) : CatalogM Unit := do
  tryResult ((← get).checkRegisterSnapshot fileNumber)
  let some path := printNsAndSnapshot codec ns snapshot | throw .panic
  let path := String.ofList path
  let storeNameLen ← tryResult (u8TryFrom store.utf8ByteSize)
  let nameLen ← tryResult (u16TryFrom path.utf8ByteSize)
  modify fun self => { self with
    pending := self.pending ++ 'S'.toUInt8 ::
      (SnapshotEntry.mk fileNumber uuid storeNameLen nameLen).toBytes ++ Manifest.utf8Bytes store ++
        ':'.toUInt8 :: Manifest.utf8Bytes path
    content := modifyContent self.content store fun content =>
      { content with snapshotIndex := content.snapshotIndex.insert path fileNumber }
    lastEntry := some (uuid, fileNumber) }

/-- `commit`: the pending entries are appended to the file. The file's locking and its I/O errors
are left out. -/
def commit : CatalogM Unit := do
  let self ← get
  if self.pending.isEmpty then return
  match self.file with
  | some bytes => set { self with file := some (bytes ++ self.pending), pending := [] }
  | none => throw (.error "media catalog not writable (opened read only)")

/-- `commit_if_large`. -/
def commitIfLarge : CatalogM Unit := do
  if (← get).currentArchive.isSome then
    throw (.error "can't commit catalog in the middle of an chunk archive")
  if (← get).pending.length > 1024 * 1024 then commit

/-! ## The lookups -/

/-- The lookup of `lookup_snapshot` and `lookup_chunk`, in one index of a datastore's content: no
entry where the datastore is not there. -/
def lookupContent {κ : Type} [DecidableEq κ] (index : DatastoreContent → AList fun _ : κ => UInt64)
    (self : MediaCatalog) (store : String) (key : κ) : Option UInt64 :=
  match self.content.lookup store with
  | none => none
  | some content => (index content).lookup key

/-- `lookup_snapshot`: the file number of a snapshot, by its name. -/
def lookupSnapshot (self : MediaCatalog) (store snapshot : String) : Option UInt64 :=
  lookupContent DatastoreContent.snapshotIndex self store snapshot

/-- `lookup_chunk`: the file number of the chunk archive that holds a chunk. -/
def lookupChunk (self : MediaCatalog) (store : String) (digest : Vector UInt8 32) : Option UInt64 :=
  lookupContent DatastoreContent.chunkIndex self store digest

/-- `contains_chunk`: `contains_key` where `lookup_chunk` has `get`. -/
def containsChunk (self : MediaCatalog) (store : String) (digest : Vector UInt8 32) : Bool :=
  (lookupChunk self store digest).isSome

/-- `contains_snapshot`, of the name `print_ns_and_snapshot` gives the snapshot; that panics
(`none`) where the snapshot's time cannot be written. -/
def containsSnapshot (codec : Rfc3339) (self : MediaCatalog) (store : String) (ns : BackupNamespace)
    (snapshot : BackupDir) : Option Bool :=
  (printNsAndSnapshot codec ns snapshot).map fun path =>
    (lookupSnapshot self store (String.ofList path)).isSome

/-- The catalog of a media as `open` and `create_temporary_database` build it before anything is
loaded or registered. -/
def unloaded (uuid : Uuid) : MediaCatalog := ⟨uuid, none, none, none, ∅, []⟩

/-- `create_temporary_database`, on the empty temporary file it creates; `tmpPath` is the `{:?}`
text of that file's path. -/
def createTemporaryDatabase (tmpPath : String) (mediaId : MediaId) :
    Except CatalogFailure MediaCatalog :=
  let me : MediaCatalog :=
    { unloaded mediaId.label.uuid with file := some [], pending := mediaCatalogMagic11 }
  let register : CatalogM Unit := do
    registerLabel mediaId.label.uuid 0 0
    if let some set := mediaId.mediaSetLabel then
      registerLabel set.uuid (UInt64.ofNat set.seqNr) 1
    commit
  match register.run me with
  | .ok () me => .ok me
  | .error failure _ =>
    .error (failure.mapError ("unable to create temporary media catalog " ++ tmpPath ++ " - " ++ ·))

end MediaCatalog

open MediaCatalog in
/-- What an arm of `load_catalog` does with the entry it has read: its checks and its change, in
the arm's order. A label of file 1 is the media set's: it is checked against `mediaSetLabel`, and
its UUID is returned with the catalog. -/
def CatalogEntry.load (limits : NamespaceLimits) (codec : Rfc3339)
    (mediaSetLabel : Option MediaSetLabel) :
    CatalogEntry → MediaCatalog → Option Uuid → Except String (MediaCatalog × Option Uuid)
  | .label fileNumber uuid seqNr, self, mediaSetUuid => do
    self.checkRegisterLabel fileNumber uuid
    let mediaSetUuid ← if fileNumber = 1 then do
        if let some set := mediaSetLabel then
          if set.uuid ≠ uuid then throw "got unexpected media set uuid"
          if set.seqNr ≠ seqNr.toNat then throw "got unexpected media set sequence number"
        pure (some uuid)
      else pure mediaSetUuid
    pure ({ self with lastEntry := some (uuid, fileNumber) }, mediaSetUuid)
  | .chunk digest, self, mediaSetUuid => do
    let some (_, fileNumber, store) := self.currentArchive
      | throw "register_chunk failed: no archive started"
    let some content := self.content.lookup store
      | throw ("storage " ++ store ++ " not registered - internal error")
    pure ({ self with
      content := self.content.insert store
        { content with chunkIndex := content.chunkIndex.insert digest fileNumber } }, mediaSetUuid)
  | .chunkArchiveStart fileNumber uuid store, self, mediaSetUuid => do
    self.checkStartChunkArchive fileNumber
    pure ({ self with
      content := modifyContent self.content store id
      currentArchive := some (uuid, fileNumber, store) }, mediaSetUuid)
  | .chunkArchiveEnd fileNumber uuid, self, mediaSetUuid => do
    self.checkEndChunkArchive uuid fileNumber
    pure ({ self with currentArchive := none, lastEntry := some (uuid, fileNumber) }, mediaSetUuid)
  | .snapshot fileNumber uuid store name, self, mediaSetUuid => do
    let _ ← parseNsAndSnapshot limits codec name.toList
    self.checkRegisterSnapshot fileNumber
    pure ({ self with
      content := modifyContent self.content store fun content =>
        { content with snapshotIndex := content.snapshotIndex.insert name fileNumber }
      lastEntry := some (uuid, fileNumber) }, mediaSetUuid)

namespace MediaCatalog

/-! ## Loading -/

section Load

variable (limits : NamespaceLimits) (codec : Rfc3339) (utf8Error : List UInt8 → String)
  (mediaSetLabel : Option MediaSetLabel)

/-- `read_exact`, `read_le_value` and `read_exact_allocated` on the catalog file: the next `len`
bytes and what follows them. -/
def readBytes (rest : List UInt8) (len : Nat) : Except String (List UInt8 × List UInt8) :=
  match ByteRead.readExact ByteRead.sliceRead rest len with
  | .error e => .error (ioErrorText e)
  | .ok (rest, bytes) => .ok (bytes, rest)

/-- `std::str::from_utf8`; the text of its error (`Utf8Error`) is `utf8Error`. -/
def fromUtf8 (bytes : List UInt8) : Except String String :=
  match String.fromUTF8? ⟨bytes.toArray⟩ with
  | some s => .ok s
  | none => .error (utf8Error bytes)

/-- The reads of an arm of `load_catalog`: the entry of type `entryType` at the start of `rest`,
and what follows it. -/
def readEntry (self : MediaCatalog) (entryType : UInt8) (rest : List UInt8) :
    Except String (CatalogEntry × List UInt8) :=
  if entryType = 'C'.toUInt8 then do
    if self.currentArchive.isNone then throw "register_chunk failed: no archive started"
    let (digest, rest) ← readBytes rest 32
    pure (.chunk (readArray 32 digest 0), rest)
  else if entryType = 'A'.toUInt8 then do
    let (entry, rest) ← readBytes rest 32
    let entry := ChunkArchiveStart.ofBytes entry
    let (store, rest) ← readBytes rest entry.storeNameLen.toNat
    let store ← fromUtf8 utf8Error store
    pure (.chunkArchiveStart entry.fileNumber entry.uuid store, rest)
  else if entryType = 'E'.toUInt8 then do
    let (entry, rest) ← readBytes rest 24
    let entry := ChunkArchiveEnd.ofBytes entry
    pure (.chunkArchiveEnd entry.fileNumber entry.uuid, rest)
  else if entryType = 'S'.toUInt8 then do
    let (entry, rest) ← readBytes rest 32
    let entry := SnapshotEntry.ofBytes entry
    let (store, rest) ← readBytes rest (entry.storeNameLen.toNat + 1)
    if store.getD entry.storeNameLen.toNat 0 ≠ ':'.toUInt8 then
      throw "parse-error: missing separator in SnapshotEntry"
    let store ← fromUtf8 utf8Error (store.take entry.storeNameLen.toNat)
    let (snapshot, rest) ← readBytes rest entry.nameLen.toNat
    let snapshot ← fromUtf8 utf8Error snapshot
    pure (.snapshot entry.fileNumber entry.uuid store snapshot, rest)
  else if entryType = 'L'.toUInt8 then do
    let (entry, rest) ← readBytes rest 32
    let entry := LabelEntry.ofBytes entry
    pure (.label entry.fileNumber entry.uuid entry.seqNr, rest)
  else throw ("unknown entry type '" ++ toString entryType ++ "'")

theorem readBytes_eq (rest : List UInt8) (len : Nat) :
    readBytes rest len =
      if len ≤ rest.length then .ok (rest.take len, rest.drop len)
      else .error "failed to fill whole buffer" := by
  rw [readBytes, ByteRead.readExact_sliceRead]
  split_ifs <;> rfl

theorem readBytes_length_le {rest bytes rest' : List UInt8} {len : Nat}
    (h : readBytes rest len = .ok (bytes, rest')) : rest'.length ≤ rest.length := by
  rw [readBytes_eq] at h
  split_ifs at h
  cases h
  simp

/-- Bytes written one after another are read back one after another. -/
theorem readBytes_append (bytes rest : List UInt8) :
    readBytes (bytes ++ rest) bytes.length = .ok (bytes, rest) := by
  rw [readBytes_eq, if_pos (by simp), List.take_left, List.drop_left]

/-- The reads of an arm leave what follows the entry: the loop of `load_catalog` ends. -/
theorem readEntry_length_le {self : MediaCatalog} {entryType : UInt8} {rest rest' : List UInt8}
    {entry : CatalogEntry} (h : readEntry utf8Error self entryType rest = .ok (entry, rest')) :
    rest'.length ≤ rest.length := by
  unfold readEntry at h
  split_ifs at h <;>
    simp only [Except.bind_eq_ok, Except.pure_eq_ok, Except.throw_eq_error, Except.ok.injEq,
      Prod.mk.injEq, reduceCtorEq, false_and, exists_false, ite_eq_iff] at h
  all_goals grind [→ readBytes_length_le]

set_option linter.unusedVariables false in
/-- The loop of `load_catalog` after the magic number: an entry's type, its reads and its load,
until the end of the file. -/
def loadEntries (self : MediaCatalog) (mediaSetUuid : Option Uuid) (rest : List UInt8) :
    Except String (MediaCatalog × Option Uuid) :=
  match hread : ByteRead.readExactOrEof ByteRead.sliceRead rest 1 with
  | .error err => .error ("read failed - " ++ ioErrorText err)
  | .ok (_, none) => .ok (self, mediaSetUuid)
  | .ok (rest', some entryType) =>
    match hentry : readEntry utf8Error self (entryType.headD 0) rest' with
    | .error e => .error e
    | .ok (entry, rest'') =>
      match entry.load limits codec mediaSetLabel self mediaSetUuid with
      | .error e => .error e
      | .ok (self, mediaSetUuid) => loadEntries self mediaSetUuid rest''
termination_by rest.length
decreasing_by
  exact Nat.lt_of_le_of_lt (readEntry_length_le utf8Error hentry)
    (ByteRead.length_lt_of_readExactOrEof_sliceRead Nat.one_pos hread)

theorem loadEntries_nil (self : MediaCatalog) (mediaSetUuid : Option Uuid) :
    loadEntries limits codec utf8Error mediaSetLabel self mediaSetUuid [] = .ok (self, mediaSetUuid) := by
  rw [loadEntries]
  split
  · rename_i heq
    rw [ByteRead.readExactOrEof_sliceRead _ Nat.one_pos] at heq
    simp at heq
  · rfl
  · rename_i heq
    rw [ByteRead.readExactOrEof_sliceRead _ Nat.one_pos] at heq
    simp at heq

/-- One turn of the loop: the type byte, the entry's reads and its load. -/
theorem loadEntries_cons (self : MediaCatalog) (mediaSetUuid : Option Uuid) (entryType : UInt8)
    (rest : List UInt8) :
    loadEntries limits codec utf8Error mediaSetLabel self mediaSetUuid (entryType :: rest) =
      (readEntry utf8Error self entryType rest).bind fun read =>
        (read.1.load limits codec mediaSetLabel self mediaSetUuid).bind fun loaded =>
          loadEntries limits codec utf8Error mediaSetLabel loaded.1 loaded.2 read.2 := by
  have hread : ByteRead.readExactOrEof ByteRead.sliceRead (entryType :: rest) 1 =
      .ok (rest, some [entryType]) := by
    rw [ByteRead.readExactOrEof_sliceRead _ Nat.one_pos]
    simp
  rw [loadEntries]
  split
  · rename_i heq
    rw [hread] at heq
    cases heq
  · rename_i heq
    rw [hread] at heq
    cases heq
  · rename_i heq
    rw [hread] at heq
    cases heq
    simp only [List.headD_cons]
    -- the source matches on the reads' result and on the load's, the statement binds them
    split
    · rename_i heq
      rw [heq]
      rfl
    · rename_i entry rest' heq
      rw [heq]
      show _ = (entry.load limits codec mediaSetLabel self mediaSetUuid).bind _
      cases entry.load limits codec mediaSetLabel self mediaSetUuid with
      | error e => rfl
      | ok loaded =>
        obtain ⟨self', mediaSetUuid'⟩ := loaded
        rfl

/-- `load_catalog` on the bytes of the catalog file: the catalog, whether the file starts with
the magic number, and the media set's UUID from its label. The source's loop reads the magic
number at position 0 only, so it is read here before the loop. -/
def loadCatalog (self : MediaCatalog) (file : List UInt8) :
    Except String (MediaCatalog × Bool × Option Uuid) :=
  match ByteRead.readExactOrEof ByteRead.sliceRead file 8 with
  | .error err => .error ("read failed - " ++ ioErrorText err)
  | .ok (_, none) => .ok (self, false, none)
  | .ok (rest, some magic) =>
    if magic = mediaCatalogMagic10 then .error "old catalog format (v1.0) is no longer supported"
    else if magic = mediaCatalogMagic11 then
      (loadEntries limits codec utf8Error mediaSetLabel self none rest).map
        fun (self, mediaSetUuid) => (self, true, mediaSetUuid)
    else .error "wrong magic number"

/-- A file that starts with the magic number is read by the entry loop from what follows it. -/
theorem loadCatalog_magic (self : MediaCatalog) (rest : List UInt8) :
    loadCatalog limits codec utf8Error mediaSetLabel self (mediaCatalogMagic11 ++ rest) =
      (loadEntries limits codec utf8Error mediaSetLabel self none rest).map
        fun (self, mediaSetUuid) => (self, true, mediaSetUuid) := by
  have hread : ByteRead.readExactOrEof ByteRead.sliceRead (mediaCatalogMagic11 ++ rest) 8 =
      .ok (rest, some mediaCatalogMagic11) := by
    rw [ByteRead.readExactOrEof_sliceRead _ (by decide)]
    simp [mediaCatalogMagic11]
  rw [loadCatalog, hread]
  simp [mediaCatalogMagic10, mediaCatalogMagic11]

end Load

/-- The two label reads of `parse_catalog_header`: an entry's type (none at the end of the
file), which must be a label, and the label's UUID. -/
def readLabelUuid (rest : List UInt8) : Except String (Option (Uuid × List UInt8)) :=
  match ByteRead.readExactOrEof ByteRead.sliceRead rest 1 with
  | .error err => .error (ioErrorText err)
  | .ok (_, none) => .ok none
  | .ok (rest, some entryType) =>
    if entryType.headD 0 ≠ 'L'.toUInt8 then .error "got unexpected entry type"
    else do
      let (entry, rest) ← readBytes rest 32
      pure (some ((LabelEntry.ofBytes entry).uuid, rest))

/-- `parse_catalog_header` on the bytes of a catalog file: whether it starts with the magic number,
and the UUIDs of its first two labels, the media's and the media set's. -/
def parseCatalogHeader (file : List UInt8) : Except String (Bool × Option Uuid × Option Uuid) :=
  match ByteRead.readExactOrEof ByteRead.sliceRead file 8 with
  | .error err => .error (ioErrorText err)
  | .ok (_, none) => .ok (false, none, none)
  | .ok (rest, some magic) =>
    if magic = mediaCatalogMagic10 then .error "old catalog format (v1.0) is no longer supported"
    else if magic ≠ mediaCatalogMagic11 then .error "wrong magic number"
    else do
      let some (uuid0, rest) ← readLabelUuid rest | pure (true, none, none)
      let some (uuid1, _) ← readLabelUuid rest | pure (true, some uuid0, none)
      pure (true, some uuid0, some uuid1)

end MediaCatalog

/-- `MediaCatalog::open` of a catalog file that holds `file`, once its directory and the file are
opened (creating, opening and locking them are left out); `path` is the `{:?}` text of the file's
path. A file without the magic number gets it in `pending`. -/
def MediaCatalog.open (limits : NamespaceLimits) (codec : Rfc3339)
    (utf8Error : List UInt8 → String) (path : String) (mediaId : MediaId) (write : Bool)
    (file : List UInt8) : Except String MediaCatalog :=
  match MediaCatalog.loadCatalog limits codec utf8Error mediaId.mediaSetLabel
      (MediaCatalog.unloaded mediaId.label.uuid) file with
  | .error err => .error ("unable to open media catalog " ++ path ++ " - " ++ err)
  | .ok (me, foundMagicNumber, _) =>
    let me := if foundMagicNumber then me else { me with pending := me.pending ++ mediaCatalogMagic11 }
    .ok (if write then { me with file := some file } else me)

/-! ## The entries' bytes read back -/

@[simp] theorem length_u64Bytes (n : UInt64) : (u64Bytes n).length = 8 :=
  LittleEndian.length_toBytes 8 _

theorem length_uuid_bytes (uuid : Uuid) : uuid.bytes.toList.length = 16 := by simp

theorem readU64_append (pre post : List UInt8) (n : UInt64) :
    readU64 (pre ++ u64Bytes n ++ post) pre.length = n := by
  have hlt : n.toNat < 256 ^ 8 := by simpa using n.toNat_lt
  rw [readU64, u64Bytes, LittleEndian.ofBytes_take_drop_append, Nat.mod_eq_of_lt hlt,
    UInt64.ofNat_toNat]

theorem readArray_append {n : Nat} (pre post : List UInt8) (v : Vector UInt8 n) :
    readArray n (pre ++ v.toList ++ post) pre.length = v := by
  apply Vector.ext
  intro i hi
  have hi' : i < v.toList.length := by simpa using hi
  simp [readArray, List.getD_eq_getElem?_getD, List.getElem?_append_right,
    List.getElem?_append_left hi', Vector.getElem?_eq_getElem hi]

theorem getD_append_cons (pre post : List UInt8) (x : UInt8) :
    (pre ++ x :: post).getD pre.length 0 = x := by
  simp [List.getD_eq_getElem?_getD]

theorem LabelEntry.ofBytes_toBytes (entry : LabelEntry) :
    LabelEntry.ofBytes entry.toBytes = entry := by
  obtain ⟨fileNumber, uuid, seqNr⟩ := entry
  have h0 := readU64_append [] (uuid.bytes.toList ++ u64Bytes seqNr) fileNumber
  have h8 := readArray_append (u64Bytes fileNumber) (u64Bytes seqNr) uuid.bytes
  have h24 := readU64_append (u64Bytes fileNumber ++ uuid.bytes.toList) [] seqNr
  simp only [List.nil_append, List.length_nil, List.append_assoc, List.append_nil, length_u64Bytes,
    List.length_append, length_uuid_bytes] at h0 h8 h24
  simp only [LabelEntry.ofBytes, LabelEntry.toBytes, List.append_assoc, h0, h8, h24]

theorem ChunkArchiveStart.ofBytes_toBytes (entry : ChunkArchiveStart) :
    ChunkArchiveStart.ofBytes entry.toBytes = entry := by
  obtain ⟨fileNumber, uuid, storeNameLen⟩ := entry
  have h0 := readU64_append [] (uuid.bytes.toList ++ storeNameLen :: List.replicate 7 0) fileNumber
  have h8 := readArray_append (u64Bytes fileNumber) (storeNameLen :: List.replicate 7 0) uuid.bytes
  have h24 := getD_append_cons (u64Bytes fileNumber ++ uuid.bytes.toList) (List.replicate 7 0)
    storeNameLen
  simp only [List.nil_append, List.length_nil, List.append_assoc, List.length_append,
    length_u64Bytes, length_uuid_bytes, Nat.reduceAdd] at h0 h8 h24
  simp only [ChunkArchiveStart.ofBytes, ChunkArchiveStart.toBytes, List.append_assoc, h0, h8, h24]

theorem ChunkArchiveEnd.ofBytes_toBytes (entry : ChunkArchiveEnd) :
    ChunkArchiveEnd.ofBytes entry.toBytes = entry := by
  obtain ⟨fileNumber, uuid⟩ := entry
  have h0 := readU64_append [] uuid.bytes.toList fileNumber
  have h8 := readArray_append (u64Bytes fileNumber) [] uuid.bytes
  simp only [List.nil_append, List.length_nil, List.append_nil, length_u64Bytes] at h0 h8
  simp only [ChunkArchiveEnd.ofBytes, ChunkArchiveEnd.toBytes, h0, h8]

theorem SnapshotEntry.ofBytes_toBytes (entry : SnapshotEntry) :
    SnapshotEntry.ofBytes entry.toBytes = entry := by
  obtain ⟨fileNumber, uuid, storeNameLen, nameLen⟩ := entry
  have hlt : nameLen.toNat < 256 ^ 2 := by simpa using nameLen.toNat_lt
  have h0 := readU64_append []
    (uuid.bytes.toList ++ storeNameLen :: 0 :: LittleEndian.toBytes 2 nameLen.toNat ++
      List.replicate 4 0) fileNumber
  have h8 := readArray_append (u64Bytes fileNumber)
    (storeNameLen :: 0 :: LittleEndian.toBytes 2 nameLen.toNat ++ List.replicate 4 0) uuid.bytes
  have h24 := getD_append_cons (u64Bytes fileNumber ++ uuid.bytes.toList)
    (0 :: LittleEndian.toBytes 2 nameLen.toNat ++ List.replicate 4 0) storeNameLen
  have h26 := LittleEndian.ofBytes_take_drop_append
    (u64Bytes fileNumber ++ uuid.bytes.toList ++ [storeNameLen, 0]) (List.replicate 4 0) 2
    nameLen.toNat
  simp only [List.nil_append, List.length_nil, List.append_assoc, List.length_append,
    length_u64Bytes, length_uuid_bytes, List.length_cons, List.cons_append, Nat.reduceAdd,
    Nat.mod_eq_of_lt hlt] at h0 h8 h24 h26
  simp only [SnapshotEntry.ofBytes, SnapshotEntry.toBytes, List.append_assoc, List.cons_append,
    h0, h8, h24, h26, UInt16.ofNat_toNat]

@[simp] theorem length_labelEntry_toBytes (entry : LabelEntry) : entry.toBytes.length = 32 := by
  simp [LabelEntry.toBytes]

@[simp] theorem length_chunkArchiveStart_toBytes (entry : ChunkArchiveStart) :
    entry.toBytes.length = 32 := by
  simp [ChunkArchiveStart.toBytes]

@[simp] theorem length_chunkArchiveEnd_toBytes (entry : ChunkArchiveEnd) :
    entry.toBytes.length = 24 := by
  simp [ChunkArchiveEnd.toBytes]

@[simp] theorem length_snapshotEntry_toBytes (entry : SnapshotEntry) :
    entry.toBytes.length = 32 := by
  simp [SnapshotEntry.toBytes]

theorem length_utf8Bytes (s : String) : (Manifest.utf8Bytes s).length = s.utf8ByteSize := by
  simp [Manifest.utf8Bytes, String.size_toByteArray]

namespace MediaCatalog

theorem fromUtf8_utf8Bytes (utf8Error : List UInt8 → String) (s : String) :
    fromUtf8 utf8Error (Manifest.utf8Bytes s) = .ok s := by
  have hbytes : (⟨(Manifest.utf8Bytes s).toArray⟩ : ByteArray) = s.toByteArray := by
    simp [Manifest.utf8Bytes]
  simp only [fromUtf8, hbytes, String.fromUTF8?, dif_pos s.isValidUTF8]
  rfl

/-! ## The checks -/

/-- The family's one lemma: its checks pass outside an archive, on a file after the labels and
not before the next one. -/
theorem checkAfterLabels_eq_ok_iff {inside wrong unexpected : String} {self : MediaCatalog}
    {fileNumber : UInt64} :
    checkAfterLabels inside wrong unexpected self fileNumber = .ok () ↔
      self.currentArchive = none ∧ 2 ≤ fileNumber ∧ self.nextFileNumber ≤ fileNumber := by
  unfold checkAfterLabels
  split_ifs with h1 h2 h3 <;> simp_all [Option.isSome_iff_ne_none, UInt64.not_lt]

theorem checkRegisterLabel_eq_ok_iff {self : MediaCatalog} {fileNumber : UInt64} {uuid : Uuid} :
    self.checkRegisterLabel fileNumber uuid = .ok () ↔
      fileNumber < 2 ∧ (fileNumber = 0 → uuid = self.uuid) ∧ self.currentArchive = none ∧
        fileNumber = self.nextFileNumber := by
  unfold checkRegisterLabel
  split_ifs with h1 h2 h3 h4 <;> simp_all [Option.isSome_iff_ne_none, UInt64.not_le]

theorem checkEndChunkArchive_eq_ok_iff {self : MediaCatalog} {uuid : Uuid} {fileNumber : UInt64} :
    self.checkEndChunkArchive uuid fileNumber = .ok () ↔
      ∃ store, self.currentArchive = some (uuid, fileNumber, store) := by
  unfold checkEndChunkArchive
  rcases h : self.currentArchive with _ | ⟨expectedUuid, expectedFileNumber, store⟩
  · simp
  · dsimp only
    split_ifs with h1 h2 <;> grind

/-! ## What each method does

Each method fails without a change, or passes its checks and makes its change. -/

theorem registerLabel_run_of_check {self : MediaCatalog} {uuid : Uuid} {seqNr fileNumber : UInt64}
    (hcheck : self.checkRegisterLabel fileNumber uuid = .ok ()) (hseq : ¬(fileNumber = 0 ∧ seqNr ≠ 0)) :
    (registerLabel uuid seqNr fileNumber).run self = .ok () { self with
      pending := self.pending ++ 'L'.toUInt8 :: (LabelEntry.mk fileNumber uuid seqNr).toBytes
      lastEntry := some (uuid, fileNumber) } := by
  simp [registerLabel, hcheck, tryResult, hseq]

theorem registerLabel_run_cases (self : MediaCatalog) (uuid : Uuid) (seqNr fileNumber : UInt64) :
    (∃ msg, (registerLabel uuid seqNr fileNumber).run self = .error (.error msg) self) ∨
    (self.checkRegisterLabel fileNumber uuid = .ok () ∧ ¬(fileNumber = 0 ∧ seqNr ≠ 0) ∧
      (registerLabel uuid seqNr fileNumber).run self = .ok () { self with
        pending := self.pending ++ 'L'.toUInt8 :: (LabelEntry.mk fileNumber uuid seqNr).toBytes
        lastEntry := some (uuid, fileNumber) }) := by
  rcases hcheck : self.checkRegisterLabel fileNumber uuid with msg | ⟨⟩
  · left
    exact ⟨msg, by simp [registerLabel, hcheck, tryResult]⟩
  · by_cases hseq : fileNumber = 0 ∧ seqNr ≠ 0
    · left
      obtain ⟨rfl, hseq⟩ := hseq
      exact ⟨"register_label failed - seq_nr should be 0 - iternal error",
        by simp [registerLabel, hcheck, tryResult, hseq]⟩
    · exact .inr ⟨rfl, hseq, registerLabel_run_of_check hcheck hseq⟩

theorem startChunkArchive_run_cases (self : MediaCatalog) (uuid : Uuid) (fileNumber : UInt64)
    (store : String) :
    (∃ msg, (startChunkArchive uuid fileNumber store).run self = .error (.error msg) self) ∨
    (self.checkStartChunkArchive fileNumber = .ok () ∧ store.utf8ByteSize < 2 ^ 8 ∧
      (startChunkArchive uuid fileNumber store).run self = .ok () { self with
        pending := self.pending ++ 'A'.toUInt8 ::
          (ChunkArchiveStart.mk fileNumber uuid (UInt8.ofNat store.utf8ByteSize)).toBytes ++
            Manifest.utf8Bytes store
        content := modifyContent self.content store id
        currentArchive := some (uuid, fileNumber, store) }) := by
  rcases hcheck : self.checkStartChunkArchive fileNumber with msg | ⟨⟩
  · left
    exact ⟨msg, by simp [startChunkArchive, hcheck, tryResult]⟩
  · by_cases hlen : store.utf8ByteSize < 256
    · right
      refine ⟨rfl, hlen, ?_⟩
      simp [startChunkArchive, hcheck, tryResult, u8TryFrom, hlen]
    · left
      exact ⟨"out of range integral type conversion attempted",
        by simp [startChunkArchive, hcheck, tryResult, u8TryFrom, hlen]⟩

/-- Inside an archive whose datastore has its content, `register_chunk` logs the chunk and
records it under the archive's file number. -/
theorem registerChunk_run_of_archive {self : MediaCatalog} {uuid : Uuid} {fileNumber : UInt64}
    {store : String} (harchive : self.currentArchive = some (uuid, fileNumber, store))
    {content : DatastoreContent} (hcontent : self.content.lookup store = some content)
    (digest : Vector UInt8 32) :
    (registerChunk digest).run self = .ok () { self with
      pending := self.pending ++ 'C'.toUInt8 :: digest.toList
      content := self.content.insert store
        { content with chunkIndex := content.chunkIndex.insert digest fileNumber } } := by
  simp [registerChunk, harchive, hcontent]

theorem endChunkArchive_run_of_archive {self : MediaCatalog} {uuid : Uuid} {fileNumber : UInt64}
    {store : String} (harchive : self.currentArchive = some (uuid, fileNumber, store)) :
    endChunkArchive.run self = .ok () { self with
      currentArchive := none
      pending := self.pending ++ 'E'.toUInt8 :: (ChunkArchiveEnd.mk fileNumber uuid).toBytes
      lastEntry := some (uuid, fileNumber) } := by
  simp [endChunkArchive, harchive]

/-- `register_snapshot` fails with an error, or panics where the snapshot's name cannot be
written, without a change in both cases; or it passes its checks and makes its change. -/
theorem registerSnapshot_run_cases (codec : Rfc3339) (self : MediaCatalog) (uuid : Uuid)
    (fileNumber : UInt64) (store : String) (ns : BackupNamespace) (snapshot : BackupDir) :
    (∃ msg, (registerSnapshot codec uuid fileNumber store ns snapshot).run self =
      .error (.error msg) self) ∨
    (printNsAndSnapshot codec ns snapshot = none ∧
      (registerSnapshot codec uuid fileNumber store ns snapshot).run self = .error .panic self) ∨
    (∃ path, self.checkRegisterSnapshot fileNumber = .ok () ∧
      printNsAndSnapshot codec ns snapshot = some path ∧ store.utf8ByteSize < 2 ^ 8 ∧
      (String.ofList path).utf8ByteSize < 2 ^ 16 ∧
      (registerSnapshot codec uuid fileNumber store ns snapshot).run self = .ok () { self with
        pending := self.pending ++ 'S'.toUInt8 ::
          (SnapshotEntry.mk fileNumber uuid (UInt8.ofNat store.utf8ByteSize)
            (UInt16.ofNat (String.ofList path).utf8ByteSize)).toBytes ++ Manifest.utf8Bytes store ++
          ':'.toUInt8 :: Manifest.utf8Bytes (String.ofList path)
        content := modifyContent self.content store fun content =>
          { content with snapshotIndex := content.snapshotIndex.insert (String.ofList path) fileNumber }
        lastEntry := some (uuid, fileNumber) }) := by
  rcases hcheck : self.checkRegisterSnapshot fileNumber with msg | ⟨⟩
  · left
    exact ⟨msg, by simp [registerSnapshot, hcheck, tryResult]⟩
  rcases hprint : printNsAndSnapshot codec ns snapshot with _ | path
  · exact .inr (.inl ⟨rfl, by simp [registerSnapshot, hcheck, tryResult, hprint]⟩)
  by_cases hstore : store.utf8ByteSize < 256
  · by_cases hname : (String.ofList path).utf8ByteSize < 65536
    · right; right
      refine ⟨path, rfl, rfl, hstore, hname, ?_⟩
      simp [registerSnapshot, hcheck, tryResult, hprint, u8TryFrom, hstore, u16TryFrom, hname]
    · left
      exact ⟨"out of range integral type conversion attempted", by
        simp [registerSnapshot, hcheck, tryResult, hprint, u8TryFrom, hstore, u16TryFrom, hname]⟩
  · left
    exact ⟨"out of range integral type conversion attempted", by
      simp [registerSnapshot, hcheck, tryResult, hprint, u8TryFrom, hstore]⟩

/-- `commit` of a catalog whose file is open for writing appends the pending entries to it. -/
theorem commit_run_of_file {self : MediaCatalog} {bytes : List UInt8} (hfile : self.file = some bytes) :
    commit.run self = .ok () { self with file := some (bytes ++ self.pending), pending := [] } := by
  by_cases hpending : self.pending = []
  · -- nothing is pending: the catalog stays as it is, which is the same state
    obtain ⟨uuid, file, currentArchive, lastEntry, content, pending⟩ := self
    simp only at hfile hpending
    subst hfile hpending
    simp [commit]
  · simp [commit, hpending, hfile]

theorem commit_run_cases (self : MediaCatalog) :
    (∃ msg, commit.run self = .error (.error msg) self) ∨
    (∃ bytes, self.file = some bytes ∧
      commit.run self = .ok () { self with file := some (bytes ++ self.pending), pending := [] }) ∨
    (self.pending = [] ∧ commit.run self = .ok () self) := by
  rcases hfile : self.file with _ | bytes
  · by_cases hpending : self.pending = []
    · exact .inr (.inr ⟨hpending, by simp [commit, hpending]⟩)
    · exact .inl ⟨"media catalog not writable (opened read only)",
        by simp [commit, hpending, hfile]⟩
  · exact .inr (.inl ⟨bytes, rfl, commit_run_of_file hfile⟩)

theorem commitIfLarge_run (self : MediaCatalog) :
    commitIfLarge.run self =
      if self.currentArchive.isSome then
        .error (.error "can't commit catalog in the middle of an chunk archive") self
      else if self.pending.length > 1024 * 1024 then commit.run self
      else .ok () self := by
  by_cases harchive : self.currentArchive.isSome
  · simp [commitIfLarge, harchive]
  · by_cases hlarge : self.pending.length > 1024 * 1024 <;> simp [commitIfLarge, harchive, hlarge]

/-! ## What the loader reads -/

section Read

variable (utf8Error : List UInt8 → String)

/-- Without an open archive, the reads of a chunk stop before the digest. -/
theorem readEntry_chunk_of_none {self : MediaCatalog} (harchive : self.currentArchive = none)
    (rest : List UInt8) :
    readEntry utf8Error self 'C'.toUInt8 rest = .error "register_chunk failed: no archive started" := by
  simp [readEntry, harchive]

theorem readEntry_label (self : MediaCatalog) (entry : LabelEntry) (rest : List UInt8) :
    readEntry utf8Error self 'L'.toUInt8 (entry.toBytes ++ rest) =
      .ok (.label entry.fileNumber entry.uuid entry.seqNr, rest) := by
  have hread := readBytes_append entry.toBytes rest
  rw [length_labelEntry_toBytes] at hread
  simp [readEntry, Char.toUInt8, hread, LabelEntry.ofBytes_toBytes]

theorem readEntry_chunk {self : MediaCatalog} (harchive : self.currentArchive.isSome)
    (digest : Vector UInt8 32) (rest : List UInt8) :
    readEntry utf8Error self 'C'.toUInt8 (digest.toList ++ rest) = .ok (.chunk digest, rest) := by
  have hread := readBytes_append digest.toList rest
  have harray := readArray_append [] [] digest
  simp only [Vector.length_toList] at hread
  simp only [List.nil_append, List.append_nil, List.length_nil] at harray
  simp [readEntry, Char.toUInt8, hread, harray, Option.isNone_iff_eq_none, Option.isSome_iff_ne_none.1 harchive]

theorem readEntry_chunkArchiveStart (self : MediaCatalog) (fileNumber : UInt64) (uuid : Uuid)
    {store : String} (hstore : store.utf8ByteSize < 2 ^ 8) (rest : List UInt8) :
    readEntry utf8Error self 'A'.toUInt8
        ((ChunkArchiveStart.mk fileNumber uuid (UInt8.ofNat store.utf8ByteSize)).toBytes ++
          Manifest.utf8Bytes store ++ rest) =
      .ok (.chunkArchiveStart fileNumber uuid store, rest) := by
  have hentry := readBytes_append (ChunkArchiveStart.mk fileNumber uuid (UInt8.ofNat store.utf8ByteSize)).toBytes
    (Manifest.utf8Bytes store ++ rest)
  have hname := readBytes_append (Manifest.utf8Bytes store) rest
  have hlen : (UInt8.ofNat store.utf8ByteSize).toNat = store.utf8ByteSize :=
    UInt8.toNat_ofNat_of_lt' hstore
  rw [length_chunkArchiveStart_toBytes] at hentry
  rw [length_utf8Bytes] at hname
  simp [readEntry, Char.toUInt8, List.append_assoc, hentry, ChunkArchiveStart.ofBytes_toBytes, hlen, hname,
    fromUtf8_utf8Bytes]

theorem readEntry_chunkArchiveEnd (self : MediaCatalog) (entry : ChunkArchiveEnd) (rest : List UInt8) :
    readEntry utf8Error self 'E'.toUInt8 (entry.toBytes ++ rest) =
      .ok (.chunkArchiveEnd entry.fileNumber entry.uuid, rest) := by
  have hread := readBytes_append entry.toBytes rest
  rw [length_chunkArchiveEnd_toBytes] at hread
  simp [readEntry, Char.toUInt8, hread, ChunkArchiveEnd.ofBytes_toBytes]

theorem readEntry_snapshot (self : MediaCatalog) (fileNumber : UInt64) (uuid : Uuid)
    {store name : String} (hstore : store.utf8ByteSize < 2 ^ 8) (hname : name.utf8ByteSize < 2 ^ 16)
    (rest : List UInt8) :
    readEntry utf8Error self 'S'.toUInt8
        ((SnapshotEntry.mk fileNumber uuid (UInt8.ofNat store.utf8ByteSize)
            (UInt16.ofNat name.utf8ByteSize)).toBytes ++ Manifest.utf8Bytes store ++
          ':'.toUInt8 :: Manifest.utf8Bytes name ++ rest) =
      .ok (.snapshot fileNumber uuid store name, rest) := by
  set entry := SnapshotEntry.mk fileNumber uuid (UInt8.ofNat store.utf8ByteSize)
    (UInt16.ofNat name.utf8ByteSize)
  have hstoreLen : entry.storeNameLen.toNat = store.utf8ByteSize := UInt8.toNat_ofNat_of_lt' hstore
  have hnameLen : entry.nameLen.toNat = name.utf8ByteSize := UInt16.toNat_ofNat_of_lt' hname
  -- the struct, then the store's name with its separator, then the snapshot's name
  have hentry := readBytes_append entry.toBytes
    (Manifest.utf8Bytes store ++ ':'.toUInt8 :: Manifest.utf8Bytes name ++ rest)
  have hstoreRead := readBytes_append (Manifest.utf8Bytes store ++ [':'.toUInt8])
    (Manifest.utf8Bytes name ++ rest)
  have hnameRead := readBytes_append (Manifest.utf8Bytes name) rest
  have hsep := getD_append_cons (Manifest.utf8Bytes store) [] ':'.toUInt8
  rw [length_snapshotEntry_toBytes] at hentry
  simp only [List.length_append, length_utf8Bytes, List.length_singleton, List.append_assoc,
    List.singleton_append] at hstoreRead
  rw [length_utf8Bytes, List.getD_eq_getElem?_getD] at hsep
  rw [length_utf8Bytes] at hnameRead
  have htake : (Manifest.utf8Bytes store ++ [':'.toUInt8]).take store.utf8ByteSize =
      Manifest.utf8Bytes store :=
    List.take_left' (length_utf8Bytes store)
  rw [readEntry, if_neg (by decide), if_neg (by decide), if_neg (by decide), if_pos rfl]
  simp only [List.append_assoc, List.cons_append] at hentry ⊢
  simp [hentry, SnapshotEntry.ofBytes_toBytes, hstoreLen, hnameLen, hstoreRead, hsep, htake,
    hnameRead, fromUtf8_utf8Bytes, entry]

end Read

end MediaCatalog

end ProxmoxBackup.Tape
