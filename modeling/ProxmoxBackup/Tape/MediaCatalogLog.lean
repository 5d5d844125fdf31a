import ProxmoxBackup.Tape.MediaCatalog

/-!
# The media catalog's log read back (`src/tape/media_catalog.rs`)

The file of a media catalog is the magic number and a log of entries (`CatalogEntry.toBytes`).
A catalog is what `load_catalog` builds by loading its entries one after another (`replay`).
The writer and the loader agree on that:

* `loadEntries_logBytes`: `load_catalog`'s loop reads a log of whole entries as their replay;
* every call that succeeds logs entries whose replay makes its change (`Logs`, `CatalogCall.logs`),
  and a call that fails leaves the catalog as it was (`CatalogCall.run_error`);
* `LogOf`: the file and the pending entries of a catalog hold the magic number and a log whose
  replay is the catalog. `create_temporary_database` builds such a catalog
  (`createTemporaryDatabase_logOf`), and every run of calls keeps the property (`LogOf.runCalls`);
* `open_after_commit`: after `create_temporary_database`, any sequence of calls whose entries the
  loader accepts, and a `commit`, `MediaCatalog::open` of the file returns the writer's catalog.

The loader makes two checks the writer does not. A label of file 1 must be the media set's, and a
snapshot's name must parse. `CatalogCall.Valid` asks for both.
-/

namespace ProxmoxBackup.Tape

open ApiTypes MediaCatalog

/-! ## The log -/

/-- The bytes of an entry in the log: its type, its struct, and the names after it. -/
def CatalogEntry.toBytes : CatalogEntry → List UInt8
  | .label fileNumber uuid seqNr => 'L'.toUInt8 :: (LabelEntry.mk fileNumber uuid seqNr).toBytes
  | .chunk digest => 'C'.toUInt8 :: digest.toList
  | .chunkArchiveStart fileNumber uuid store =>
    'A'.toUInt8 :: (ChunkArchiveStart.mk fileNumber uuid (UInt8.ofNat store.utf8ByteSize)).toBytes ++
      Manifest.utf8Bytes store
  | .chunkArchiveEnd fileNumber uuid => 'E'.toUInt8 :: (ChunkArchiveEnd.mk fileNumber uuid).toBytes
  | .snapshot fileNumber uuid store name =>
    'S'.toUInt8 :: (SnapshotEntry.mk fileNumber uuid (UInt8.ofNat store.utf8ByteSize)
      (UInt16.ofNat name.utf8ByteSize)).toBytes ++ Manifest.utf8Bytes store ++
        ':'.toUInt8 :: Manifest.utf8Bytes name

/-- The names of an entry fit the lengths its struct records, a `u8` and a `u16`. -/
def CatalogEntry.Fits : CatalogEntry → Prop
  | .chunkArchiveStart _ _ store => store.utf8ByteSize < 2 ^ 8
  | .snapshot _ _ store name => store.utf8ByteSize < 2 ^ 8 ∧ name.utf8ByteSize < 2 ^ 16
  | .label .. | .chunk _ | .chunkArchiveEnd .. => True

/-- The bytes of a log. -/
def logBytes (entries : List CatalogEntry) : List UInt8 := entries.flatMap CatalogEntry.toBytes

@[simp] theorem logBytes_nil : logBytes [] = [] := rfl

theorem logBytes_append (entries more : List CatalogEntry) :
    logBytes (entries ++ more) = logBytes entries ++ logBytes more := List.flatMap_append

/-- The catalog as the loader builds it: without a file or pending entries. -/
def MediaCatalog.readOnly (self : MediaCatalog) : MediaCatalog :=
  { self with file := none, pending := [] }

section Replay

variable (limits : NamespaceLimits) (codec : Rfc3339) (mediaSetLabel : Option MediaSetLabel)

/-- The entries of a log loaded one after another. -/
def replay : List CatalogEntry → MediaCatalog → Option Uuid →
    Except String (MediaCatalog × Option Uuid)
  | [], self, mediaSetUuid => .ok (self, mediaSetUuid)
  | entry :: entries, self, mediaSetUuid =>
    match entry.load limits codec mediaSetLabel self mediaSetUuid with
    | .error e => .error e
    | .ok (self, mediaSetUuid) => replay entries self mediaSetUuid

theorem replay_append (entries more : List CatalogEntry) (self : MediaCatalog)
    (mediaSetUuid : Option Uuid) :
    replay limits codec mediaSetLabel (entries ++ more) self mediaSetUuid =
      match replay limits codec mediaSetLabel entries self mediaSetUuid with
      | .error e => .error e
      | .ok (self, mediaSetUuid) => replay limits codec mediaSetLabel more self mediaSetUuid := by
  induction entries generalizing self mediaSetUuid with
  | nil => rfl
  | cons entry entries ih =>
    simp only [List.cons_append, replay]
    cases entry.load limits codec mediaSetLabel self mediaSetUuid with
    | error e => rfl
    | ok result => exact ih ..

variable (utf8Error : List UInt8 → String)

/-- `load_catalog`'s loop reads an entry written whole, and loads it. -/
theorem loadEntries_toBytes_append {entry : CatalogEntry} (hfits : entry.Fits) (self : MediaCatalog)
    (mediaSetUuid : Option Uuid) (rest : List UInt8) :
    loadEntries limits codec utf8Error mediaSetLabel self mediaSetUuid (entry.toBytes ++ rest) =
      (entry.load limits codec mediaSetLabel self mediaSetUuid).bind fun loaded =>
        loadEntries limits codec utf8Error mediaSetLabel loaded.1 loaded.2 rest := by
  cases entry with
  | label fileNumber uuid seqNr =>
    rw [CatalogEntry.toBytes, List.cons_append, loadEntries_cons, readEntry_label]
    rfl
  | chunk digest =>
    rw [CatalogEntry.toBytes, List.cons_append, loadEntries_cons]
    -- without an archive the reads stop where the load would
    rcases harchive : self.currentArchive with _ | archive
    · have hload : (CatalogEntry.chunk digest).load limits codec mediaSetLabel self mediaSetUuid =
          .error "register_chunk failed: no archive started" := by
        simp [CatalogEntry.load, harchive]
      rw [readEntry_chunk_of_none utf8Error harchive, hload]
      rfl
    · rw [readEntry_chunk utf8Error (by simp [harchive])]
      rfl
  | chunkArchiveStart fileNumber uuid store =>
    have hread := readEntry_chunkArchiveStart utf8Error self fileNumber uuid hfits rest
    simp only [List.append_assoc] at hread
    simp only [CatalogEntry.toBytes, List.cons_append, List.append_assoc, loadEntries_cons, hread]
    rfl
  | chunkArchiveEnd fileNumber uuid =>
    rw [CatalogEntry.toBytes, List.cons_append, loadEntries_cons, readEntry_chunkArchiveEnd]
    rfl
  | snapshot fileNumber uuid store name =>
    have hread := readEntry_snapshot utf8Error self fileNumber uuid hfits.1 hfits.2 rest
    simp only [List.append_assoc, List.cons_append] at hread
    simp only [CatalogEntry.toBytes, List.cons_append, List.append_assoc, loadEntries_cons, hread]
    rfl

/-- `load_catalog`'s loop reads a log of whole entries as their replay. -/
theorem loadEntries_logBytes {entries : List CatalogEntry} (hfits : ∀ entry ∈ entries, entry.Fits)
    (self : MediaCatalog) (mediaSetUuid : Option Uuid) :
    loadEntries limits codec utf8Error mediaSetLabel self mediaSetUuid (logBytes entries) =
      replay limits codec mediaSetLabel entries self mediaSetUuid := by
  induction entries generalizing self mediaSetUuid with
  | nil => exact loadEntries_nil ..
  | cons entry entries ih =>
    rw [logBytes, List.flatMap_cons, ← logBytes,
      loadEntries_toBytes_append limits codec mediaSetLabel utf8Error (hfits entry (by simp)), replay]
    cases entry.load limits codec mediaSetLabel self mediaSetUuid with
    | error e => rfl
    | ok loaded =>
      obtain ⟨self', mediaSetUuid'⟩ := loaded
      exact ih (fun entry hentry => hfits entry (List.mem_cons_of_mem _ hentry)) ..

end Replay

/-! ## What the loader makes of each entry -/

/-- A label the loader accepts beside the media's set label: a label of file 1 is that set's. -/
def MatchesSetLabel (mediaSetLabel : Option MediaSetLabel) (fileNumber : UInt64) (uuid : Uuid)
    (seqNr : UInt64) : Prop :=
  ∀ set ∈ mediaSetLabel, fileNumber = 1 → set.uuid = uuid ∧ set.seqNr = seqNr.toNat

section Load

variable {limits : NamespaceLimits} {codec : Rfc3339} {mediaSetLabel : Option MediaSetLabel}
  (self : MediaCatalog) {mediaSetUuid : Option Uuid}

theorem load_label {fileNumber : UInt64} {uuid : Uuid} {seqNr : UInt64}
    (hcheck : self.checkRegisterLabel fileNumber uuid = .ok ())
    (hset : MatchesSetLabel mediaSetLabel fileNumber uuid seqNr) :
    (CatalogEntry.label fileNumber uuid seqNr).load limits codec mediaSetLabel self mediaSetUuid =
      .ok ({ self with lastEntry := some (uuid, fileNumber) },
        if fileNumber = 1 then some uuid else mediaSetUuid) := by
  by_cases h1 : fileNumber = 1
  · subst h1
    rcases hlabel : mediaSetLabel with _ | set
    · simp [CatalogEntry.load, hcheck]
    · obtain ⟨huuid, hseqNr⟩ := hset set hlabel rfl
      simp [CatalogEntry.load, hcheck, huuid, hseqNr]
  · simp [CatalogEntry.load, hcheck, h1]

theorem load_chunk {archiveUuid : Uuid} {fileNumber : UInt64} {store : String}
    (harchive : self.currentArchive = some (archiveUuid, fileNumber, store)) {content : DatastoreContent}
    (hcontent : self.content.lookup store = some content) (digest : Vector UInt8 32) :
    (CatalogEntry.chunk digest).load limits codec mediaSetLabel self mediaSetUuid =
      .ok ({ self with
        content := self.content.insert store
          { content with chunkIndex := content.chunkIndex.insert digest fileNumber } }, mediaSetUuid) := by
  simp [CatalogEntry.load, harchive, hcontent]

theorem load_chunkArchiveStart {fileNumber : UInt64}
    (hcheck : self.checkStartChunkArchive fileNumber = .ok ()) (uuid : Uuid) (store : String) :
    (CatalogEntry.chunkArchiveStart fileNumber uuid store).load limits codec mediaSetLabel self
        mediaSetUuid =
      .ok ({ self with
        content := modifyContent self.content store id
        currentArchive := some (uuid, fileNumber, store) }, mediaSetUuid) := by
  simp [CatalogEntry.load, hcheck]

theorem load_chunkArchiveEnd {uuid : Uuid} {fileNumber : UInt64} {store : String}
    (harchive : self.currentArchive = some (uuid, fileNumber, store)) :
    (CatalogEntry.chunkArchiveEnd fileNumber uuid).load limits codec mediaSetLabel self mediaSetUuid =
      .ok ({ self with currentArchive := none, lastEntry := some (uuid, fileNumber) }, mediaSetUuid) := by
  have hcheck : self.checkEndChunkArchive uuid fileNumber = .ok () :=
    checkEndChunkArchive_eq_ok_iff.2 ⟨store, harchive⟩
  simp [CatalogEntry.load, hcheck]

theorem load_snapshot {fileNumber : UInt64} {name : String} {parsed : BackupNamespace × BackupDir}
    (hparse : parseNsAndSnapshot limits codec name.toList = .ok parsed)
    (hcheck : self.checkRegisterSnapshot fileNumber = .ok ()) (uuid : Uuid) (store : String) :
    (CatalogEntry.snapshot fileNumber uuid store name).load limits codec mediaSetLabel self
        mediaSetUuid =
      .ok ({ self with
        content := modifyContent self.content store fun content =>
          { content with snapshotIndex := content.snapshotIndex.insert name fileNumber }
        lastEntry := some (uuid, fileNumber) }, mediaSetUuid) := by
  simp [CatalogEntry.load, hparse, hcheck]

end Load

/-! ## What a call logs -/

section Logs

variable (limits : NamespaceLimits) (codec : Rfc3339) (mediaSetLabel : Option MediaSetLabel)

/-- A change from `before` to `after` that logged `more`: their bytes follow what the file and the
pending entries held, and loading them on what `before` holds gives what `after` holds. -/
structure Logs (before after : MediaCatalog) (more : List CatalogEntry) : Prop where
  file_isSome : after.file.isSome = before.file.isSome
  fits : ∀ entry ∈ more, entry.Fits
  bytes : after.file.getD [] ++ after.pending = before.file.getD [] ++ before.pending ++ logBytes more
  replay_eq : ∀ mediaSetUuid, ∃ mediaSetUuid',
    replay limits codec mediaSetLabel more before.readOnly mediaSetUuid =
      .ok (after.readOnly, mediaSetUuid')

variable {limits codec mediaSetLabel}

theorem Logs.refl (self : MediaCatalog) : Logs limits codec mediaSetLabel self self [] :=
  ⟨rfl, by simp, by simp, fun mediaSetUuid => ⟨mediaSetUuid, rfl⟩⟩

theorem Logs.trans {self self' self'' : MediaCatalog} {more more' : List CatalogEntry}
    (h : Logs limits codec mediaSetLabel self self' more)
    (h' : Logs limits codec mediaSetLabel self' self'' more') :
    Logs limits codec mediaSetLabel self self'' (more ++ more') where
  file_isSome := h'.file_isSome.trans h.file_isSome
  fits entry hentry := (List.mem_append.1 hentry).elim (h.fits entry) (h'.fits entry)
  bytes := by rw [h'.bytes, h.bytes, logBytes_append, List.append_assoc]
  replay_eq mediaSetUuid := by
    obtain ⟨mediaSetUuid', hreplay⟩ := h.replay_eq mediaSetUuid
    obtain ⟨mediaSetUuid'', hreplay'⟩ := h'.replay_eq mediaSetUuid'
    exact ⟨mediaSetUuid'', by rw [replay_append, hreplay]; exact hreplay'⟩

/-- A method that appends one entry to the pending ones and makes the change the loader makes of
it logs that entry. -/
theorem Logs.of_load {self self' : MediaCatalog} {entry : CatalogEntry} (hfile : self'.file = self.file)
    (hfits : entry.Fits) (hpending : self'.pending = self.pending ++ entry.toBytes)
    (hload : ∀ mediaSetUuid, ∃ mediaSetUuid',
      entry.load limits codec mediaSetLabel self.readOnly mediaSetUuid = .ok (self'.readOnly, mediaSetUuid')) :
    Logs limits codec mediaSetLabel self self' [entry] where
  file_isSome := by rw [hfile]
  fits := by simpa using hfits
  bytes := by simp [hfile, hpending, logBytes]
  replay_eq mediaSetUuid := by
    obtain ⟨mediaSetUuid', hentry⟩ := hload mediaSetUuid
    exact ⟨mediaSetUuid', by rw [replay, hentry]; rfl⟩

/-- `commit` moves the pending entries to the file and logs nothing new. -/
theorem Logs.of_commit {self : MediaCatalog} {bytes : List UInt8} (hfile : self.file = some bytes) :
    Logs limits codec mediaSetLabel self
      { self with file := some (bytes ++ self.pending), pending := [] } [] where
  file_isSome := by simp [hfile]
  fits := by simp
  bytes := by simp [hfile]
  replay_eq mediaSetUuid := ⟨mediaSetUuid, rfl⟩

/-! ### The methods

A chunk archive is logged by three methods: its start, each of its chunks, and its end. -/

variable (limits codec mediaSetLabel) in
theorem registerLabel_logs {self : MediaCatalog} {uuid : Uuid} {seqNr fileNumber : UInt64}
    (hcheck : self.checkRegisterLabel fileNumber uuid = .ok ()) (hseq : ¬(fileNumber = 0 ∧ seqNr ≠ 0))
    (hset : MatchesSetLabel mediaSetLabel fileNumber uuid seqNr) :
    ∃ self', (registerLabel uuid seqNr fileNumber).run self = .ok () self' ∧ self'.file = self.file ∧
      self'.currentArchive = self.currentArchive ∧ self'.lastEntry = some (uuid, fileNumber) ∧
      Logs limits codec mediaSetLabel self self' [.label fileNumber uuid seqNr] :=
  ⟨_, registerLabel_run_of_check hcheck hseq, rfl, rfl, rfl,
    .of_load rfl trivial rfl fun _ => ⟨_, load_label self.readOnly hcheck hset⟩⟩

theorem startChunkArchive_logs {self self' : MediaCatalog} {uuid : Uuid} {fileNumber : UInt64}
    {store : String} (hrun : (startChunkArchive uuid fileNumber store).run self = .ok () self') :
    self'.currentArchive = some (uuid, fileNumber, store) ∧ (self'.content.lookup store).isSome ∧
      Logs limits codec mediaSetLabel self self' [.chunkArchiveStart fileNumber uuid store] := by
  rcases startChunkArchive_run_cases self uuid fileNumber store with ⟨msg, hfail⟩ | ⟨hcheck, hfits, hok⟩
  · rw [hfail] at hrun
    cases hrun
  · rw [hok] at hrun
    cases hrun
    exact ⟨rfl, by simp [modifyContent],
      .of_load rfl hfits (by simp [CatalogEntry.toBytes]) fun _ =>
        ⟨_, load_chunkArchiveStart self.readOnly hcheck uuid store⟩⟩

theorem registerChunk_logs {self : MediaCatalog} {uuid : Uuid} {fileNumber : UInt64} {store : String}
    (harchive : self.currentArchive = some (uuid, fileNumber, store))
    (hcontent : (self.content.lookup store).isSome) (digest : Vector UInt8 32) :
    ∃ self', (registerChunk digest).run self = .ok () self' ∧
      self'.currentArchive = self.currentArchive ∧ (self'.content.lookup store).isSome ∧
      Logs limits codec mediaSetLabel self self' [.chunk digest] := by
  obtain ⟨content, hcontent⟩ := Option.isSome_iff_exists.1 hcontent
  exact ⟨_, registerChunk_run_of_archive harchive hcontent digest, rfl, by simp,
    .of_load rfl trivial rfl fun _ => ⟨_, load_chunk self.readOnly harchive hcontent digest⟩⟩

/-- Inside an archive, `register_chunk` over a chunk list logs each chunk, and the archive stays
open. -/
theorem forM_registerChunk_logs {self : MediaCatalog} {uuid : Uuid} {fileNumber : UInt64}
    {store : String} (harchive : self.currentArchive = some (uuid, fileNumber, store))
    (hcontent : (self.content.lookup store).isSome) (chunkList : List (Vector UInt8 32)) :
    ∃ self', (chunkList.forM registerChunk).run self = .ok () self' ∧
      self'.currentArchive = self.currentArchive ∧
      Logs limits codec mediaSetLabel self self' (chunkList.map .chunk) := by
  induction chunkList generalizing self with
  | nil => exact ⟨self, rfl, rfl, .refl self⟩
  | cons digest chunkList ih =>
    obtain ⟨self₁, hrun₁, harchive₁, hcontent₁, hlogs₁⟩ := registerChunk_logs harchive hcontent digest
    obtain ⟨self₂, hrun₂, harchive₂, hlogs₂⟩ := ih (harchive₁.trans harchive) hcontent₁
    exact ⟨self₂, by simpa [hrun₁] using hrun₂, harchive₂.trans harchive₁, hlogs₁.trans hlogs₂⟩

theorem endChunkArchive_logs {self : MediaCatalog} {uuid : Uuid} {fileNumber : UInt64} {store : String}
    (harchive : self.currentArchive = some (uuid, fileNumber, store)) :
    ∃ self', endChunkArchive.run self = .ok () self' ∧
      Logs limits codec mediaSetLabel self self' [.chunkArchiveEnd fileNumber uuid] :=
  ⟨_, endChunkArchive_run_of_archive harchive,
    .of_load rfl trivial rfl fun _ => ⟨_, load_chunkArchiveEnd self.readOnly harchive⟩⟩

variable (limits codec mediaSetLabel) in
/-- `register_chunk_archive` fails only where `start_chunk_archive` does, without a change; the
chunks and the end of the archive then always pass. -/
theorem registerChunkArchive_run_cases (self : MediaCatalog) (uuid : Uuid) (fileNumber : UInt64)
    (store : String) (chunkList : List (Vector UInt8 32)) :
    (∃ msg, (registerChunkArchive uuid fileNumber store chunkList).run self = .error (.error msg) self) ∨
    ∃ self', (registerChunkArchive uuid fileNumber store chunkList).run self = .ok () self' ∧
      Logs limits codec mediaSetLabel self self'
        (.chunkArchiveStart fileNumber uuid store :: chunkList.map .chunk ++
          [.chunkArchiveEnd fileNumber uuid]) := by
  rcases startChunkArchive_run_cases self uuid fileNumber store with ⟨msg, hfail⟩ | ⟨-, -, hstart⟩
  · exact .inl ⟨msg, by simp [registerChunkArchive, hfail]⟩
  · obtain ⟨harchive, hcontent, hlogs₁⟩ : _ ∧ _ ∧ Logs limits codec mediaSetLabel _ _ _ :=
      startChunkArchive_logs hstart
    obtain ⟨chunked, hchunks, harchive', hlogs₂⟩ := forM_registerChunk_logs harchive hcontent chunkList
    obtain ⟨ended, hend, hlogs₃⟩ := endChunkArchive_logs (harchive'.trans harchive)
    exact .inr ⟨ended, by simp only [registerChunkArchive, EStateM.run_bind, hstart, hchunks, hend],
      (hlogs₁.trans hlogs₂).trans hlogs₃⟩

/-- A snapshot whose name is written and read back is registered, or fails without a change. -/
theorem registerSnapshot_run_logs (self : MediaCatalog) (uuid : Uuid) (fileNumber : UInt64)
    (store : String) {ns : BackupNamespace} {snapshot : BackupDir} {path : List Char}
    {parsed : BackupNamespace × BackupDir} (hprint : printNsAndSnapshot codec ns snapshot = some path)
    (hparse : parseNsAndSnapshot limits codec path = .ok parsed) :
    (∃ msg, (registerSnapshot codec uuid fileNumber store ns snapshot).run self =
      .error (.error msg) self) ∨
    ∃ self', (registerSnapshot codec uuid fileNumber store ns snapshot).run self = .ok () self' ∧
      Logs limits codec mediaSetLabel self self'
        [.snapshot fileNumber uuid store (String.ofList path)] := by
  rcases registerSnapshot_run_cases codec self uuid fileNumber store ns snapshot with
    hfail | ⟨hnone, -⟩ | ⟨path', hcheck, hprint', hstore, hname, hok⟩
  · exact .inl hfail
  · rw [hprint] at hnone
    cases hnone
  · obtain rfl : path' = path := Option.some.inj (hprint'.symm.trans hprint)
    -- the loader parses the name the writer stored
    have hparse' : parseNsAndSnapshot limits codec (String.ofList path').toList = .ok parsed := by
      rwa [String.toList_ofList]
    exact .inr ⟨_, hok, .of_load rfl ⟨hstore, hname⟩ (by simp [CatalogEntry.toBytes]) fun _ =>
      ⟨_, load_snapshot self.readOnly hparse' hcheck uuid store⟩⟩

theorem commit_run_logs (self : MediaCatalog) :
    (∃ msg, commit.run self = .error (.error msg) self) ∨
    ∃ self', commit.run self = .ok () self' ∧ Logs limits codec mediaSetLabel self self' [] := by
  rcases commit_run_cases self with hfail | ⟨bytes, hfile, hok⟩ | ⟨-, hok⟩
  · exact .inl hfail
  · exact .inr ⟨_, hok, .of_commit hfile⟩
  · exact .inr ⟨self, hok, .refl self⟩

variable (limits codec mediaSetLabel) in
/-- `commit_if_large` refuses inside an archive, and commits only a large log. -/
theorem commitIfLarge_run_logs (self : MediaCatalog) :
    (∃ msg, commitIfLarge.run self = .error (.error msg) self) ∨
    ∃ self', commitIfLarge.run self = .ok () self' ∧ Logs limits codec mediaSetLabel self self' [] := by
  rw [commitIfLarge_run]
  split_ifs
  · exact .inl ⟨_, rfl⟩
  · exact commit_run_logs self
  · exact .inr ⟨self, rfl, .refl self⟩

end Logs

/-! ## Runs of calls -/

/-- The public methods that register on a catalog, and its commits. -/
inductive CatalogCall
  | registerLabel (uuid : Uuid) (seqNr fileNumber : UInt64)
  | registerChunkArchive (uuid : Uuid) (fileNumber : UInt64) (store : String)
      (chunkList : List (Vector UInt8 32))
  | registerSnapshot (uuid : Uuid) (fileNumber : UInt64) (store : String) (ns : BackupNamespace)
      (snapshot : BackupDir)
  | commit
  | commitIfLarge

/-- The method a call makes. -/
def CatalogCall.run (codec : Rfc3339) : CatalogCall → CatalogM Unit
  | .registerLabel uuid seqNr fileNumber => MediaCatalog.registerLabel uuid seqNr fileNumber
  | .registerChunkArchive uuid fileNumber store chunkList =>
    MediaCatalog.registerChunkArchive uuid fileNumber store chunkList
  | .registerSnapshot uuid fileNumber store ns snapshot =>
    MediaCatalog.registerSnapshot codec uuid fileNumber store ns snapshot
  | .commit => MediaCatalog.commit
  | .commitIfLarge => MediaCatalog.commitIfLarge

/-- A caller that makes the calls one after another, each on the catalog the last one left, also
after an error; a panic ends the run. -/
def runCalls (codec : Rfc3339) : List CatalogCall → MediaCatalog → Option MediaCatalog
  | [], self => some self
  | call :: calls, self =>
    match (call.run codec).run self with
    | .ok () self | .error (.error _) self => runCalls codec calls self
    | .error .panic _ => none

/-- A call whose entries the loader accepts: a label of file 1 is the media set's, and a
snapshot's name reads back (a valid namespace, a safe id, and a time that the time functions write
in the form of `BACKUP_TIME_RE` and read back). -/
def CatalogCall.Valid (limits : NamespaceLimits) (codec : Rfc3339)
    (mediaSetLabel : Option MediaSetLabel) : CatalogCall → Prop
  | .registerLabel uuid seqNr fileNumber => MatchesSetLabel mediaSetLabel fileNumber uuid seqNr
  | .registerSnapshot _ _ _ ns snapshot =>
    ns.Valid limits ∧ matchesSafeId snapshot.group.id = true ∧
      ∃ text, codec.epochToRfc3339Utc snapshot.time = .ok text ∧ matchesBackupTime text = true ∧
        codec.parseRfc3339 text = .ok snapshot.time
  | .registerChunkArchive .. | .commit | .commitIfLarge => True

section Calls

variable {limits : NamespaceLimits} {codec : Rfc3339} {mediaSetLabel : Option MediaSetLabel}

/-- A call the loader accepts fails with an error and no change, or logs entries whose replay
makes its change. -/
theorem CatalogCall.run_cases {call : CatalogCall} (hvalid : call.Valid limits codec mediaSetLabel)
    (self : MediaCatalog) :
    (∃ msg, (call.run codec).run self = .error (.error msg) self) ∨
    ∃ self' more, (call.run codec).run self = .ok () self' ∧
      Logs limits codec mediaSetLabel self self' more := by
  cases call with
  | registerLabel uuid seqNr fileNumber =>
    rcases registerLabel_run_cases self uuid seqNr fileNumber with hfail | ⟨hcheck, hseq, -⟩
    · exact .inl hfail
    · obtain ⟨self', hok, -, -, -, hlogs⟩ := registerLabel_logs limits codec mediaSetLabel hcheck hseq hvalid
      exact .inr ⟨self', _, hok, hlogs⟩
  | registerChunkArchive uuid fileNumber store chunkList =>
    rcases registerChunkArchive_run_cases limits codec mediaSetLabel self uuid fileNumber store
      chunkList with hfail | ⟨self', hok, hlogs⟩
    · exact .inl hfail
    · exact .inr ⟨self', _, hok, hlogs⟩
  | registerSnapshot uuid fileNumber store ns snapshot =>
    obtain ⟨hns, hid, text, hfmt, htime, hparse⟩ := hvalid
    obtain ⟨path, hprint, hparse⟩ := parseNsAndSnapshot_print hns hid hfmt htime hparse
    rcases registerSnapshot_run_logs self uuid fileNumber store hprint hparse with hfail | ⟨self', hok, hlogs⟩
    · exact .inl hfail
    · exact .inr ⟨self', _, hok, hlogs⟩
  | commit =>
    rcases commit_run_logs self with hfail | ⟨self', hok, hlogs⟩
    · exact .inl hfail
    · exact .inr ⟨self', _, hok, hlogs⟩
  | commitIfLarge =>
    rcases commitIfLarge_run_logs limits codec mediaSetLabel self with hfail | ⟨self', hok, hlogs⟩
    · exact .inl hfail
    · exact .inr ⟨self', _, hok, hlogs⟩

/-- Every run of calls the loader accepts logs entries whose replay makes its change. -/
theorem runCalls_logs {calls : List CatalogCall}
    (hvalid : ∀ call ∈ calls, call.Valid limits codec mediaSetLabel) (self : MediaCatalog) :
    ∃ self' more, runCalls codec calls self = some self' ∧
      Logs limits codec mediaSetLabel self self' more := by
  induction calls generalizing self with
  | nil => exact ⟨self, [], rfl, .refl self⟩
  | cons call calls ih =>
    have hrest : ∀ call ∈ calls, call.Valid limits codec mediaSetLabel :=
      fun call hcall => hvalid call (List.mem_cons_of_mem _ hcall)
    rcases CatalogCall.run_cases (hvalid call List.mem_cons_self) self with
      ⟨msg, hfail⟩ | ⟨self₁, more₁, hok, hlogs₁⟩
    · -- the call failed without a change, and the run goes on from the same catalog
      obtain ⟨self', more, hrun, hlogs⟩ := ih hrest self
      exact ⟨self', more, by rw [runCalls, hfail]; exact hrun, hlogs⟩
    · obtain ⟨self', more, hrun, hlogs⟩ := ih hrest self₁
      exact ⟨self', more₁ ++ more, by rw [runCalls, hok]; exact hrun, hlogs₁.trans hlogs⟩

/-- A method that fails only without a change leaves the catalog as it was when it fails. -/
theorem eq_of_run_error {x : CatalogM Unit} {self self' : MediaCatalog} {failure : CatalogFailure}
    (hcases : (∃ failure, x.run self = .error failure self) ∨ ∃ self'', x.run self = .ok () self'')
    (hrun : x.run self = .error failure self') : self' = self := by
  rcases hcases with ⟨failure', hfail⟩ | ⟨self'', hok⟩
  · rw [hfail] at hrun
    cases hrun
    rfl
  · rw [hok] at hrun
    cases hrun

/-- A call that fails, with an error or a panic, leaves the catalog as it was. -/
theorem CatalogCall.run_error (codec : Rfc3339) (call : CatalogCall) {self self' : MediaCatalog}
    {failure : CatalogFailure} (hrun : (call.run codec).run self = .error failure self') :
    self' = self := by
  cases call with
  | registerLabel uuid seqNr fileNumber =>
    refine eq_of_run_error ?_ hrun
    rcases registerLabel_run_cases self uuid seqNr fileNumber with ⟨msg, hfail⟩ | ⟨-, -, hok⟩
    · exact .inl ⟨_, hfail⟩
    · exact .inr ⟨_, hok⟩
  | registerChunkArchive uuid fileNumber store chunkList =>
    refine eq_of_run_error ?_ hrun
    -- whether the method fails does not depend on what the loader is given
    rcases registerChunkArchive_run_cases ⟨0, 0⟩ codec none self uuid fileNumber store chunkList with
      ⟨msg, hfail⟩ | ⟨self', hok, -⟩
    · exact .inl ⟨_, hfail⟩
    · exact .inr ⟨_, hok⟩
  | registerSnapshot uuid fileNumber store ns snapshot =>
    refine eq_of_run_error ?_ hrun
    rcases registerSnapshot_run_cases codec self uuid fileNumber store ns snapshot with
      ⟨msg, hfail⟩ | ⟨-, hpanic⟩ | ⟨path, -, -, -, -, hok⟩
    · exact .inl ⟨_, hfail⟩
    · exact .inl ⟨_, hpanic⟩
    · exact .inr ⟨_, hok⟩
  | commit =>
    refine eq_of_run_error ?_ hrun
    rcases commit_run_cases self with ⟨msg, hfail⟩ | ⟨bytes, -, hok⟩ | ⟨-, hok⟩
    · exact .inl ⟨_, hfail⟩
    · exact .inr ⟨_, hok⟩
    · exact .inr ⟨_, hok⟩
  | commitIfLarge =>
    refine eq_of_run_error ?_ hrun
    simp only [CatalogCall.run]
    rw [commitIfLarge_run]
    split_ifs
    · exact .inl ⟨_, rfl⟩
    · rcases commit_run_cases self with ⟨msg, hfail⟩ | ⟨bytes, -, hok⟩ | ⟨-, hok⟩
      · exact .inl ⟨_, hfail⟩
      · exact .inr ⟨_, hok⟩
      · exact .inr ⟨_, hok⟩
    · exact .inr ⟨_, rfl⟩

end Calls

/-! ## The catalog file read back -/

/-- The labels `create_temporary_database` registers: the media's, and the media set's where the
media has one. -/
def labelEntries (mediaId : MediaId) : List CatalogEntry :=
  .label 0 mediaId.label.uuid 0 ::
    (mediaId.mediaSetLabel.map fun set => .label 1 set.uuid (UInt64.ofNat set.seqNr)).toList

section Open

variable (limits : NamespaceLimits) (codec : Rfc3339)

/-- `create_temporary_database` registers the media's label, and the media set's label where the
media has one, and commits them. -/
theorem createTemporaryDatabase_logs (tmpPath : String) {mediaId : MediaId}
    (hseqNr : ∀ set ∈ mediaId.mediaSetLabel, set.seqNr < 2 ^ 64) :
    ∃ me, createTemporaryDatabase tmpPath mediaId = .ok me ∧
      Logs limits codec mediaId.mediaSetLabel
        { unloaded mediaId.label.uuid with file := some [], pending := mediaCatalogMagic11 } me
        (labelEntries mediaId) := by
  obtain ⟨label, mediaSetLabel⟩ := mediaId
  -- the media's label, file 0
  have hcheck₀ : MediaCatalog.checkRegisterLabel
      { unloaded label.uuid with file := some [], pending := mediaCatalogMagic11 } 0 label.uuid =
        .ok () := by
    simp [checkRegisterLabel, nextFileNumber, unloaded]
  obtain ⟨labelled, hrun₀, hfile₀, harchive₀, hlast₀, hlogs₀⟩ :=
    registerLabel_logs limits codec mediaSetLabel hcheck₀
      (by decide : ¬((0 : UInt64) = 0 ∧ (0 : UInt64) ≠ 0)) fun _ _ h => absurd h (by decide)
  cases mediaSetLabel with
  | none =>
    have hfile : labelled.file = some [] := hfile₀
    refine ⟨_, ?_, by simpa [labelEntries] using hlogs₀.trans (.of_commit hfile)⟩
    simp [createTemporaryDatabase, hrun₀, commit_run_of_file hfile]
  | some set =>
    -- the media set's label, file 1
    have hcheck₁ : labelled.checkRegisterLabel 1 set.uuid = .ok () :=
      checkRegisterLabel_eq_ok_iff.2 ⟨by decide, by simp, harchive₀, by simp [nextFileNumber, hlast₀]⟩
    have hlt : set.seqNr < 2 ^ 64 := hseqNr set (Option.mem_some_iff.2 rfl)
    have hset : MatchesSetLabel (some set) 1 set.uuid (UInt64.ofNat set.seqNr) := by
      rintro set' hset' -
      obtain rfl := Option.mem_some_iff.1 hset'
      simpa using (Nat.mod_eq_of_lt hlt).symm
    obtain ⟨setLabelled, hrun₁, hfile₁, -, -, hlogs₁⟩ :=
      registerLabel_logs limits codec (some set) hcheck₁ (by simp) hset
    have hfile : setLabelled.file = some [] := hfile₁.trans hfile₀
    refine ⟨_, ?_, by simpa [labelEntries] using (hlogs₀.trans hlogs₁).trans (.of_commit hfile)⟩
    simp [createTemporaryDatabase, hrun₀, hrun₁, commit_run_of_file hfile]

/-- A catalog with nothing pending is its read-only view with its file. -/
theorem readOnly_with_file {self : MediaCatalog} {bytes : List UInt8} (hfile : self.file = some bytes)
    (hpending : self.pending = []) : { self.readOnly with file := some bytes } = self := by
  obtain ⟨uuid, file, currentArchive, lastEntry, content, pending⟩ := self
  simp only at hfile hpending
  subst hfile hpending
  rfl

/-- A catalog logged from the start of a catalog file, with nothing pending, has the magic number
and the log in its file. -/
theorem file_eq_of_logs {mediaSetLabel : Option MediaSetLabel} {uuid : Uuid} {self : MediaCatalog}
    {entries : List CatalogEntry}
    (hlogs : Logs limits codec mediaSetLabel
      { unloaded uuid with file := some [], pending := mediaCatalogMagic11 } self entries)
    (hpending : self.pending = []) :
    self.file = some (mediaCatalogMagic11 ++ logBytes entries) := by
  obtain ⟨bytes, hfile⟩ := Option.isSome_iff_exists.1 hlogs.file_isSome
  have hbytes : bytes = mediaCatalogMagic11 ++ logBytes entries := by
    simpa [hfile, hpending] using hlogs.bytes
  rw [hfile, hbytes]

/-- `MediaCatalog::open` of a file that holds the magic number and a log whose replay is a catalog
with nothing pending returns that catalog, and its read-only view where the file is opened
read-only. -/
theorem open_of_logs (utf8Error : List UInt8 → String) (path : String) {mediaId : MediaId}
    {self : MediaCatalog} {entries : List CatalogEntry}
    (hlogs : Logs limits codec mediaId.mediaSetLabel
      { unloaded mediaId.label.uuid with file := some [], pending := mediaCatalogMagic11 } self entries)
    (hpending : self.pending = []) (write : Bool) :
    MediaCatalog.open limits codec utf8Error path mediaId write (self.file.getD []) =
      .ok (if write then self else self.readOnly) := by
  have hfile := file_eq_of_logs limits codec hlogs hpending
  -- `open` loads from the catalog the log was written from, read-only
  obtain ⟨mediaSetUuid, hreplay⟩ := hlogs.replay_eq none
  have hreplay' : replay limits codec mediaId.mediaSetLabel entries (unloaded mediaId.label.uuid) none =
      .ok (self.readOnly, mediaSetUuid) := hreplay
  rw [hfile, Option.getD_some, MediaCatalog.open, loadCatalog_magic,
    loadEntries_logBytes limits codec _ utf8Error hlogs.fits, hreplay']
  cases write
  · rfl
  · simp [readOnly_with_file hfile hpending]

/-- After `create_temporary_database`, a run of calls whose entries the loader accepts, and a
`commit`, nothing is pending, and the file holds the magic number and a log of the labels and the
calls' entries whose replay is the writer's catalog. -/
theorem commit_after_runCalls_logs (tmpPath : String) {mediaId : MediaId}
    (hseqNr : ∀ set ∈ mediaId.mediaSetLabel, set.seqNr < 2 ^ 64) {calls : List CatalogCall}
    (hvalid : ∀ call ∈ calls, call.Valid limits codec mediaId.mediaSetLabel) :
    ∃ me written committed more, createTemporaryDatabase tmpPath mediaId = .ok me ∧
      runCalls codec calls me = some written ∧ commit.run written = .ok () committed ∧
      committed.pending = [] ∧
      Logs limits codec mediaId.mediaSetLabel
        { unloaded mediaId.label.uuid with file := some [], pending := mediaCatalogMagic11 } committed
        (labelEntries mediaId ++ more) := by
  obtain ⟨me, hcreate, hlogs₁⟩ := createTemporaryDatabase_logs limits codec tmpPath hseqNr
  obtain ⟨written, more, hrun, hlogs₂⟩ := runCalls_logs hvalid me
  have hlogs := hlogs₁.trans hlogs₂
  obtain ⟨bytes, hfile⟩ := Option.isSome_iff_exists.1 hlogs.file_isSome
  exact ⟨me, written, _, more, hcreate, hrun, commit_run_of_file hfile, rfl,
    by simpa using hlogs.trans (.of_commit hfile)⟩

/-- After `create_temporary_database`, any run of calls whose entries the loader accepts, and a
`commit`, `MediaCatalog::open` of the file returns the catalog the writer holds. -/
theorem open_after_commit (utf8Error : List UInt8 → String) (tmpPath path : String)
    {mediaId : MediaId} (hseqNr : ∀ set ∈ mediaId.mediaSetLabel, set.seqNr < 2 ^ 64)
    {calls : List CatalogCall} (hvalid : ∀ call ∈ calls, call.Valid limits codec mediaId.mediaSetLabel) :
    ∃ me written committed, createTemporaryDatabase tmpPath mediaId = .ok me ∧
      runCalls codec calls me = some written ∧ commit.run written = .ok () committed ∧
      ∀ write, MediaCatalog.open limits codec utf8Error path mediaId write (committed.file.getD []) =
        .ok (if write then committed else committed.readOnly) := by
  obtain ⟨me, written, committed, more, hcreate, hrun, hcommit, hpending, hlogs⟩ :=
    commit_after_runCalls_logs limits codec tmpPath hseqNr hvalid
  exact ⟨me, written, committed, hcreate, hrun, hcommit,
    open_of_logs limits codec utf8Error path hlogs hpending⟩

/-- A media of a media set, and the functions of `proxmox_time` on one backup time. -/
def sampleSetLabel : MediaSetLabel := ⟨"pool1", ⟨Vector.replicate 16 2⟩, 0, 0, none⟩

def sampleMediaId : MediaId := ⟨⟨⟨Vector.replicate 16 1⟩, "tape1", 0, some "pool1"⟩, some sampleSetLabel⟩

def sampleCodec : Rfc3339 := ⟨fun _ => .ok "2020-06-15T05:18:33Z".toList, fun _ => .ok 1592198313⟩

/-- A chunk archive and a snapshot of a virtual machine registered after the labels. -/
def sampleCalls : List CatalogCall :=
  [.registerChunkArchive ⟨Vector.replicate 16 3⟩ 2 "store1" [Vector.replicate 32 0],
    .registerSnapshot ⟨Vector.replicate 16 4⟩ 3 "store1" BackupNamespace.root
      ⟨⟨.vm, "100".toList⟩, 1592198313⟩,
    .commitIfLarge]

theorem sampleMediaId_seqNr : ∀ set ∈ sampleMediaId.mediaSetLabel, set.seqNr < 2 ^ 64 := by
  simp [sampleMediaId, sampleSetLabel]

theorem sampleCalls_valid :
    ∀ call ∈ sampleCalls, call.Valid ⟨7, 256⟩ sampleCodec sampleMediaId.mediaSetLabel := by
  simp only [sampleCalls, List.mem_cons, List.not_mem_nil, or_false, forall_eq_or_imp, forall_eq]
  exact ⟨trivial, ⟨BackupNamespace.valid_root _, by decide, _, rfl, by decide, rfl⟩, trivial⟩

theorem open_after_commit_sampleCalls :
    (∀ set ∈ sampleMediaId.mediaSetLabel, set.seqNr < 2 ^ 64) ∧
      (∀ call ∈ sampleCalls, call.Valid ⟨7, 256⟩ sampleCodec sampleMediaId.mediaSetLabel) ∧
      ∃ me written committed, createTemporaryDatabase "tmp" sampleMediaId = .ok me ∧
        runCalls sampleCodec sampleCalls me = some written ∧ commit.run written = .ok () committed ∧
        ∀ write, MediaCatalog.open ⟨7, 256⟩ sampleCodec (fun _ => "invalid utf-8") "path"
            sampleMediaId write (committed.file.getD []) =
          .ok (if write then committed else committed.readOnly) :=
  ⟨sampleMediaId_seqNr, sampleCalls_valid,
    open_after_commit ⟨7, 256⟩ sampleCodec _ "tmp" "path" sampleMediaId_seqNr sampleCalls_valid⟩

theorem readLabelUuid_label (entry : LabelEntry) (rest : List UInt8) :
    readLabelUuid ('L'.toUInt8 :: (entry.toBytes ++ rest)) = .ok (some (entry.uuid, rest)) := by
  have hread : ByteRead.readExactOrEof ByteRead.sliceRead ('L'.toUInt8 :: (entry.toBytes ++ rest)) 1 =
      .ok (entry.toBytes ++ rest, some ['L'.toUInt8]) := by
    rw [ByteRead.readExactOrEof_sliceRead _ Nat.one_pos]
    simp
  have hbytes := readBytes_append entry.toBytes rest
  rw [length_labelEntry_toBytes] at hbytes
  simp [readLabelUuid, hread, hbytes, LabelEntry.ofBytes_toBytes]

/-- `parse_catalog_header` of the file of a media of a media set, after
`create_temporary_database`, any run of calls whose entries the loader accepts, and a `commit`,
returns the UUIDs of the media and of the media set. -/
theorem parseCatalogHeader_after_commit (tmpPath : String) {mediaId : MediaId} {set : MediaSetLabel}
    (hset : mediaId.mediaSetLabel = some set) (hseqNr : set.seqNr < 2 ^ 64)
    {calls : List CatalogCall} (hvalid : ∀ call ∈ calls, call.Valid limits codec mediaId.mediaSetLabel) :
    ∃ me written committed, createTemporaryDatabase tmpPath mediaId = .ok me ∧
      runCalls codec calls me = some written ∧ commit.run written = .ok () committed ∧
      parseCatalogHeader (committed.file.getD []) = .ok (true, some mediaId.label.uuid, some set.uuid) := by
  have hseqNr' : ∀ set ∈ mediaId.mediaSetLabel, set.seqNr < 2 ^ 64 := by
    rintro set' hset'
    obtain rfl := Option.mem_some_iff.1 (hset ▸ hset')
    exact hseqNr
  obtain ⟨me, written, committed, more, hcreate, hrun, hcommit, hpending, hlogs⟩ :=
    commit_after_runCalls_logs limits codec tmpPath hseqNr' hvalid
  refine ⟨me, written, committed, hcreate, hrun, hcommit, ?_⟩
  -- the file starts with the magic number and the two labels
  have hmagic : ByteRead.readExactOrEof ByteRead.sliceRead
      (mediaCatalogMagic11 ++ logBytes (labelEntries mediaId ++ more)) 8 =
        .ok (logBytes (labelEntries mediaId ++ more), some mediaCatalogMagic11) := by
    rw [ByteRead.readExactOrEof_sliceRead _ (by decide)]
    simp [mediaCatalogMagic11]
  rw [file_eq_of_logs limits codec hlogs hpending, Option.getD_some, parseCatalogHeader, hmagic]
  simp only [labelEntries, hset, Option.map_some, Option.toList_some, List.cons_append,
    List.nil_append, logBytes, List.flatMap_cons, CatalogEntry.toBytes]
  simp [mediaCatalogMagic10, mediaCatalogMagic11, readLabelUuid_label]

theorem parseCatalogHeader_after_commit_sampleCalls :
    sampleMediaId.mediaSetLabel = some sampleSetLabel ∧ sampleSetLabel.seqNr < 2 ^ 64 ∧
      (∀ call ∈ sampleCalls, call.Valid ⟨7, 256⟩ sampleCodec sampleMediaId.mediaSetLabel) ∧
      ∃ me written committed, createTemporaryDatabase "tmp" sampleMediaId = .ok me ∧
        runCalls sampleCodec sampleCalls me = some written ∧ commit.run written = .ok () committed ∧
        parseCatalogHeader (committed.file.getD []) =
          .ok (true, some sampleMediaId.label.uuid, some sampleSetLabel.uuid) :=
  ⟨rfl, by decide, sampleCalls_valid,
    parseCatalogHeader_after_commit ⟨7, 256⟩ sampleCodec "tmp" rfl (by decide) sampleCalls_valid⟩

end Open

end ProxmoxBackup.Tape
