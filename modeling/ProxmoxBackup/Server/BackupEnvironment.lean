import ProxmoxBackup.Datastore.IndexWriter
import ProxmoxBackup.Foundations.Runs
import Mathlib.Data.List.AList

/-!
# The state of a backup session (`src/api2/backup/environment.rs`, `mod.rs`)

A client makes a backup over one HTTP/2 connection: it creates index writers, uploads chunks and
registers them, appends registered chunks to the writers, closes the writers and finishes the
backup. The server keeps the session in a `SharedBackupState` behind a mutex: the open writers by
their ids, the chunks the client may use (`known_chunks`, the digests with their sizes) and the
counters of the stored files. Every request takes the mutex, so the requests of a session are
handled one after the other, and a session is a run of `step` over its requests.

Each method returns the state with its result: a method that fails part-way keeps what it did to
the state before it bailed (a removed writer, a raised counter), as the source does through its
`&mut` guard.

The request handlers parse their parameters from JSON; here a request carries them parsed. The
index writers are created by the handlers (`create_dynamic_index`, `create_fixed_index`); the
previous backup a fixed index is cloned from is the request's `base`, once the handler's checks
of the previous backup (its existence and checksum) passed. The statistics log of a closed writer
and the debug log are not modelled. The finishing request's writes to the datastore (the manifest,
the check that the base snapshot still exists, the sync) are the request's `storage` outcome.
-/

namespace ProxmoxBackup.Backup

structure UploadStatistic where
  count : Nat
  size : Nat
  compressedSize : Nat
  duplicates : Nat
  deriving DecidableEq, Repr

namespace UploadStatistic

def new : UploadStatistic :=
  ⟨0, 0, 0, 0⟩

instance : Add UploadStatistic :=
  ⟨fun a b => ⟨a.count + b.count, a.size + b.size, a.compressedSize + b.compressedSize,
    a.duplicates + b.duplicates⟩⟩

/-- Record an uploaded chunk in the statistics of its writer. -/
def record (self : UploadStatistic) (size compressedSize : Nat) (isDuplicate : Bool) :
    UploadStatistic :=
  ⟨self.count + 1, self.size + size, self.compressedSize + compressedSize,
    if isDuplicate then self.duplicates + 1 else self.duplicates⟩

end UploadStatistic

structure DynamicWriterState where
  name : String
  index : DynamicIndexWriter
  offset : Nat
  chunkCount : Nat
  uploadStat : UploadStatistic

structure FixedWriterState where
  name : String
  index : FixedIndexWriter
  size : Nat
  chunkSize : Nat
  chunkCount : Nat
  /-- At most one chunk may be shorter than `chunk_size`, the last. -/
  smallChunkCount : Nat
  uploadStat : UploadStatistic
  incremental : Bool

structure SharedBackupState where
  finished : Bool
  uidCounter : Nat
  /-- Successfully uploaded files. -/
  fileCounter : Nat
  dynamicWriters : AList (fun _ : Nat => DynamicWriterState)
  fixedWriters : AList (fun _ : Nat => FixedWriterState)
  /-- The chunks the client may append, with their sizes. -/
  knownChunks : AList (fun _ : Vector UInt8 32 => Nat)
  backupSize : Nat
  backupStat : UploadStatistic

/-- Lower-case hexadecimal, as `hex::encode` writes a digest. -/
def hexEncode (bytes : List UInt8) : String :=
  let digit (n : Nat) : Char := if n < 10 then Char.ofNat (48 + n) else Char.ofNat (87 + n)
  String.ofList (bytes.flatMap fun b => [digit (b.toNat / 16), digit (b.toNat % 16)])

/-- The chunk size of the fixed indexes the protocol creates. -/
def fixedChunkSize : Nat := 4096 * 1024

namespace SharedBackupState

def new : SharedBackupState :=
  ⟨false, 0, 0, ∅, ∅, ∅, 0, UploadStatistic.new⟩

def finishedMessage : String := "backup already marked as finished."

def registerChunk (s : SharedBackupState) (digest : Vector UInt8 32) (length : Nat) :
    SharedBackupState × Except String Unit :=
  if s.finished then (s, .error finishedMessage)
  else ({ s with knownChunks := s.knownChunks.insert digest length }, .ok ())

/-- Register an uploaded chunk of a fixed index: it is at most `chunk_size` long, and only one
chunk may be shorter (the count of short chunks is raised before it is checked). -/
def registerFixedChunk (s : SharedBackupState) (wid : Nat) (digest : Vector UInt8 32)
    (size compressedSize : Nat) (isDuplicate : Bool) : SharedBackupState × Except String Unit :=
  if s.finished then (s, .error finishedMessage)
  else
    match s.fixedWriters.lookup wid with
    | none => (s, .error s!"fixed writer '{wid}' not registered")
    | some data =>
      if size > data.chunkSize then
        (s, .error s!"fixed writer '{data.name}' - got large chunk ({size} > {data.chunkSize}")
      else
        let data := if size < data.chunkSize then
          { data with smallChunkCount := data.smallChunkCount + 1 } else data
        if size < data.chunkSize ∧ data.smallChunkCount > 1 then
          ({ s with fixedWriters := s.fixedWriters.insert wid data },
            .error s!"fixed writer '{wid}' - detected multiple end chunks (chunk size too small)")
        else
          let data := { data with uploadStat := data.uploadStat.record size compressedSize isDuplicate }
          ({ s with fixedWriters := s.fixedWriters.insert wid data,
                    knownChunks := s.knownChunks.insert digest size }, .ok ())

def registerDynamicChunk (s : SharedBackupState) (wid : Nat) (digest : Vector UInt8 32)
    (size compressedSize : Nat) (isDuplicate : Bool) : SharedBackupState × Except String Unit :=
  if s.finished then (s, .error finishedMessage)
  else
    match s.dynamicWriters.lookup wid with
    | none => (s, .error s!"dynamic writer '{wid}' not registered")
    | some data =>
      let data := { data with uploadStat := data.uploadStat.record size compressedSize isDuplicate }
      ({ s with dynamicWriters := s.dynamicWriters.insert wid data,
                knownChunks := s.knownChunks.insert digest size }, .ok ())

def lookupChunk (s : SharedBackupState) (digest : Vector UInt8 32) : Option Nat :=
  s.knownChunks.lookup digest

/-- Store the writer under the next id. -/
def registerDynamicWriter (s : SharedBackupState) (index : DynamicIndexWriter) (name : String) :
    SharedBackupState × Except String Nat :=
  if s.finished then (s, .error finishedMessage)
  else
    let uid := s.uidCounter + 1
    ({ s with uidCounter := uid,
              dynamicWriters := s.dynamicWriters.insert uid ⟨name, index, 0, 0, .new⟩ }, .ok uid)

def registerFixedWriter (s : SharedBackupState) (index : FixedIndexWriter) (name : String)
    (size chunkSize : Nat) (incremental : Bool) : SharedBackupState × Except String Nat :=
  if s.finished then (s, .error finishedMessage)
  else
    let uid := s.uidCounter + 1
    ({ s with uidCounter := uid,
              fixedWriters := s.fixedWriters.insert uid
                ⟨name, index, size, chunkSize, 0, 0, .new, incremental⟩ }, .ok uid)

/-- Append a chunk of `size` bytes at `offset` to a dynamic writer: the offset must be where the
last chunk ended. -/
def dynamicWriterAppendChunk (s : SharedBackupState) (wid offset size : Nat)
    (digest : Vector UInt8 32) : SharedBackupState × Except String Unit :=
  if s.finished then (s, .error finishedMessage)
  else
    match s.dynamicWriters.lookup wid with
    | none => (s, .error s!"dynamic writer '{wid}' not registered")
    | some data =>
      if data.offset ≠ offset then
        (s, .error s!"dynamic writer '{data.name}' append chunk failed - got strange chunk offset ({data.offset} != {offset})")
      else
        let data := { data with offset := data.offset + size, chunkCount := data.chunkCount + 1 }
        match data.index.addChunk data.offset digest with
        | .error e => ({ s with dynamicWriters := s.dynamicWriters.insert wid data }, .error e)
        | .ok index =>
          ({ s with dynamicWriters := s.dynamicWriters.insert wid { data with index } }, .ok ())

/-- Append a chunk of `size` bytes at `offset` to a fixed writer, in the slot its alignment
names. -/
def fixedWriterAppendChunk (s : SharedBackupState) (wid offset size : Nat)
    (digest : Vector UInt8 32) : SharedBackupState × Except String Unit :=
  if s.finished then (s, .error finishedMessage)
  else
    match s.fixedWriters.lookup wid with
    | none => (s, .error s!"fixed writer '{wid}' not registered")
    | some data =>
      match data.index.checkChunkAlignment (offset + size) size with
      | .error e => (s, .error e)
      | .ok idx =>
        let data := { data with chunkCount := data.chunkCount + 1 }
        match data.index.addDigest idx digest with
        | .error e => ({ s with fixedWriters := s.fixedWriters.insert wid data }, .error e)
        | .ok index =>
          ({ s with fixedWriters := s.fixedWriters.insert wid { data with index } }, .ok ())

variable (sha256 : List UInt8 → Vector UInt8 32)

/-- Close a dynamic writer: it is removed first, then the client's chunk count, size and
checksum are compared with the writer's. -/
def dynamicWriterClose (s : SharedBackupState) (wid chunkCount size : Nat)
    (csum : Vector UInt8 32) : SharedBackupState × Except String Unit :=
  if s.finished then (s, .error finishedMessage)
  else
    match s.dynamicWriters.lookup wid with
    | none => (s, .error s!"dynamic writer '{wid}' not registered")
    | some data =>
      let s := { s with dynamicWriters := s.dynamicWriters.erase wid }
      if data.chunkCount ≠ chunkCount then
        (s, .error s!"dynamic writer '{data.name}' close failed - unexpected chunk count ({data.chunkCount} != {chunkCount})")
      else if data.offset ≠ size then
        (s, .error s!"dynamic writer '{data.name}' close failed - unexpected file size ({data.offset} != {size})")
      else
        match data.index.close sha256 with
        | .error e => (s, .error e)
        | .ok (_, expectedCsum) =>
          if csum ≠ expectedCsum then
            (s, .error s!"dynamic writer '{data.name}' close failed - got unexpected checksum")
          else
            ({ s with fileCounter := s.fileCounter + 1, backupSize := s.backupSize + size,
                      backupStat := s.backupStat + data.uploadStat }, .ok ())

/-- Close a fixed writer: it is removed first; a writer that is not incremental must have got
as many chunks as its index has slots, and the image its size. -/
def fixedWriterClose (s : SharedBackupState) (wid chunkCount size : Nat)
    (csum : Vector UInt8 32) : SharedBackupState × Except String Unit :=
  if s.finished then (s, .error finishedMessage)
  else
    match s.fixedWriters.lookup wid with
    | none => (s, .error s!"fixed writer '{wid}' not registered")
    | some data =>
      let s := { s with fixedWriters := s.fixedWriters.erase wid }
      if data.chunkCount ≠ chunkCount then
        (s, .error s!"fixed writer '{data.name}' close failed - received wrong number of chunk ({data.chunkCount} != {chunkCount})")
      else if !data.incremental ∧ chunkCount ≠ data.index.indexLength then
        (s, .error s!"fixed writer '{data.name}' close failed - unexpected chunk count ({data.index.indexLength} != {chunkCount})")
      else if !data.incremental ∧ size ≠ data.size then
        (s, .error s!"fixed writer '{data.name}' close failed - unexpected file size ({data.size} != {size})")
      else
        match data.index.close sha256 with
        | .error e => (s, .error e)
        | .ok (_, expectedCsum) =>
          if csum ≠ expectedCsum then
            (s, .error s!"fixed writer '{data.name}' close failed - got unexpected checksum")
          else
            ({ s with fileCounter := s.fileCounter + 1, backupSize := s.backupSize + size,
                      backupStat := s.backupStat + data.uploadStat }, .ok ())

/-- Mark the backup as finished: no writer may be open, and some file must have been stored. -/
def finishBackup (s : SharedBackupState) (storage : Except String Unit) :
    SharedBackupState × Except String Unit :=
  if s.finished then (s, .error finishedMessage)
  else if s.dynamicWriters.entries ≠ [] ∨ s.fixedWriters.entries ≠ [] then
    (s, .error "found open index writer - unable to finish backup")
  else if s.fileCounter = 0 then
    (s, .error "backup does not contain valid files (file count == 0)")
  else
    match storage with
    | .error e => (s, .error e)
    | .ok () => ({ s with finished := true }, .ok ())

/-- `create_dynamic_index`: check the archive name, then create and register the writer. -/
def createDynamicIndex (s : SharedBackupState) (name : String) :
    SharedBackupState × Except String Nat :=
  if ¬ name.endsWith ".didx" then (s, .error s!"wrong archive extension: '{name}'")
  else s.registerDynamicWriter (DynamicIndexWriter.create name) name

/-- `create_fixed_index`: check the archive name, create the writer of `size` bytes in chunks of
4 MiB, copy the previous backup's slots into it when it is incremental, and register it. -/
def createFixedIndex (s : SharedBackupState) (name : String) (size : Nat)
    (base : Option (List (Vector UInt8 32))) : SharedBackupState × Except String Nat :=
  if ¬ name.endsWith ".fidx" then (s, .error s!"wrong archive extension: '{name}'")
  else
    match FixedIndexWriter.create name size fixedChunkSize with
    | .error e => (s, .error e)
    | .ok writer =>
      let cloned : Except String FixedIndexWriter := match base with
        | none => .ok writer
        | some reader => writer.cloneDataFrom reader
      match cloned with
      | .error e => (s, .error e)
      | .ok writer => s.registerFixedWriter writer name size fixedChunkSize base.isSome

/-- The loop of `dynamic_append` and `fixed_append`: look each digest up among the known chunks
and append it, with its known size, at its offset, stopping at the first failure. -/
def appendChunks (appendChunk : SharedBackupState → Nat → Nat → Nat → Vector UInt8 32 →
      SharedBackupState × Except String Unit) (s : SharedBackupState) (wid : Nat) :
    List (Vector UInt8 32 × Nat) → SharedBackupState × Except String Unit
  | [] => (s, .ok ())
  | (digest, offset) :: rest =>
    match s.lookupChunk digest with
    | none => (s, .error s!"no such chunk {hexEncode digest.toList}")
    | some size =>
      match appendChunk s wid offset size digest with
      | (s, .error e) => (s, .error e)
      | (s, .ok ()) => appendChunks appendChunk s wid rest

/-- The request appending registered chunks to a writer: a list of digests with their offsets. -/
def appendRequest (appendChunk : SharedBackupState → Nat → Nat → Nat → Vector UInt8 32 →
      SharedBackupState × Except String Unit) (s : SharedBackupState) (wid : Nat)
    (digestList : List (Vector UInt8 32)) (offsetList : List Nat) :
    SharedBackupState × Except String Unit :=
  if offsetList.length ≠ digestList.length then
    (s, .error s!"offset list has wrong length ({offsetList.length} != {digestList.length})")
  else appendChunks appendChunk s wid (digestList.zip offsetList)

def dynamicAppend (s : SharedBackupState) (wid : Nat) (digestList : List (Vector UInt8 32))
    (offsetList : List Nat) : SharedBackupState × Except String Unit :=
  appendRequest dynamicWriterAppendChunk s wid digestList offsetList

def fixedAppend (s : SharedBackupState) (wid : Nat) (digestList : List (Vector UInt8 32))
    (offsetList : List Nat) : SharedBackupState × Except String Unit :=
  appendRequest fixedWriterAppendChunk s wid digestList offsetList

end SharedBackupState

/-- The requests of a backup session that act on its state. -/
inductive Call where
  | createDynamicIndex (name : String)
  | createFixedIndex (name : String) (size : Nat) (base : Option (List (Vector UInt8 32)))
  | registerChunk (digest : Vector UInt8 32) (length : Nat)
  | registerDynamicChunk (wid : Nat) (digest : Vector UInt8 32) (size compressedSize : Nat)
      (isDuplicate : Bool)
  | registerFixedChunk (wid : Nat) (digest : Vector UInt8 32) (size compressedSize : Nat)
      (isDuplicate : Bool)
  | dynamicAppend (wid : Nat) (digestList : List (Vector UInt8 32)) (offsetList : List Nat)
  | fixedAppend (wid : Nat) (digestList : List (Vector UInt8 32)) (offsetList : List Nat)
  | dynamicWriterClose (wid chunkCount size : Nat) (csum : Vector UInt8 32)
  | fixedWriterClose (wid chunkCount size : Nat) (csum : Vector UInt8 32)
  | finishBackup (storage : Except String Unit)

variable (sha256 : List UInt8 → Vector UInt8 32)

/-- Handle one request; the id a created writer gets is the state's `uid_counter` after it. -/
def step (s : SharedBackupState) : Call → SharedBackupState × Except String Unit
  | .createDynamicIndex name =>
    let r := s.createDynamicIndex name
    (r.1, r.2.map fun _ => ())
  | .createFixedIndex name size base =>
    let r := s.createFixedIndex name size base
    (r.1, r.2.map fun _ => ())
  | .registerChunk digest length => s.registerChunk digest length
  | .registerDynamicChunk wid digest size compressedSize isDuplicate =>
    s.registerDynamicChunk wid digest size compressedSize isDuplicate
  | .registerFixedChunk wid digest size compressedSize isDuplicate =>
    s.registerFixedChunk wid digest size compressedSize isDuplicate
  | .dynamicAppend wid digestList offsetList => s.dynamicAppend wid digestList offsetList
  | .fixedAppend wid digestList offsetList => s.fixedAppend wid digestList offsetList
  | .dynamicWriterClose wid chunkCount size csum =>
    s.dynamicWriterClose sha256 wid chunkCount size csum
  | .fixedWriterClose wid chunkCount size csum => s.fixedWriterClose sha256 wid chunkCount size csum
  | .finishBackup storage => s.finishBackup storage

/-- The state of a session after its requests. -/
def run (calls : List Call) : SharedBackupState :=
  Runs.run (step sha256) SharedBackupState.new calls

end ProxmoxBackup.Backup
