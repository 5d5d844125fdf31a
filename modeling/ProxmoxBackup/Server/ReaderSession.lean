import ProxmoxBackup.Backup.Hierarchy
import ProxmoxBackup.Backup.Verify
import ProxmoxBackup.Foundations.Runs
import ProxmoxBackup.Foundations.Except

/-!
# The backup reader protocol (`src/api2/reader`)

`upgrade_to_backup_reader_protocol` opens a reader session on one snapshot for an auth id that
has `Datastore.Read` on the snapshot's namespace, or `Datastore.Backup` and owns the snapshot's
group. Within the session, `download_file` sends a file of the snapshot directory and, for an
index file, registers the chunks it references; `download_chunk` sends only registered chunks.

`reader_session_is_confined`: a session is only opened under that privilege test; every chunk
a session sends was registered by an earlier `download_file` of an index of its snapshot that
lists it (`Registered`, an invariant of every run of the session); and a file name the
parameter schema accepts names a file directly in the snapshot directory.
-/

namespace ProxmoxBackup.Reader

open Acl Hierarchy Runs

/-- `PROXMOX_BACKUP_READER_PROTOCOL_ID_V1`. -/
def readerProtocolIdV1 : String := "proxmox-backup-reader-protocol-v1"

/-! ## Names and paths -/

/-- A first character of `PROXMOX_SAFE_ID_REGEX_STR`: `[A-Za-z0-9_]`. -/
def isSafeIdFirst (c : Char) : Bool := c.isAlphanum || c = '_'

/-- A later character of `PROXMOX_SAFE_ID_REGEX_STR`: `[A-Za-z0-9._\-]`. -/
def isSafeIdChar (c : Char) : Bool := c.isAlphanum || c = '.' || c = '_' || c = '-'

/-- The format of `BACKUP_ARCHIVE_NAME_SCHEMA`, the safe id `^[A-Za-z0-9_][A-Za-z0-9._\-]*$`. -/
def isSafeId (name : String) : Bool :=
  match name.toList with
  | [] => false
  | c :: cs => isSafeIdFirst c && cs.all isSafeIdChar

/-- `PathBuf::push`, on a path given by its components: an absolute name replaces the path, a
relative one adds its components. -/
def pushPath (path : List String) (name : String) : List String :=
  match name.toList with
  | '/' :: _ => splitAclPath name
  | _ => path ++ splitAclPath name

/-- `BackupDir`: a snapshot, by its namespace, group and time. -/
structure BackupDir where
  ns : BackupNamespace
  backupType : String
  backupId : String
  backupTime : String
  deriving DecidableEq

/-- `BackupNamespace::path`: `ns/<name>` for each component. -/
def nsPath (ns : BackupNamespace) : List String := ns.inner.flatMap fun comp => ["ns", comp]

/-- `BackupDir::relative_path`. -/
def BackupDir.relativePath (dir : BackupDir) : List String :=
  nsPath dir.ns ++ [dir.backupType, dir.backupId, dir.backupTime]

/-- A hexadecimal digit's value. -/
def hexValue (c : Char) : Option Nat :=
  if '0' ≤ c ∧ c ≤ '9' then some (c.toNat - '0'.toNat)
  else if 'a' ≤ c ∧ c ≤ 'f' then some (c.toNat - 'a'.toNat + 10)
  else if 'A' ≤ c ∧ c ≤ 'F' then some (c.toNat - 'A'.toNat + 10)
  else none

/-- Hexadecimal digits, two per byte. -/
def decodeHexBytes : List Char → Option (List UInt8)
  | [] => some []
  | hi :: lo :: rest => do
    let hi ← hexValue hi
    let lo ← hexValue lo
    let bytes ← decodeHexBytes rest
    pure ((hi * 16 + lo).toUInt8 :: bytes)
  | [_] => none

/-- `<[u8; 32]>::from_hex`. -/
def fromHex (s : String) : Option (Vector UInt8 32) := do
  let bytes ← decodeHexBytes s.toList
  if h : bytes.length = 32 then some ⟨bytes.toArray, by simpa using h⟩ else none

/-! ## The datastore and the session -/

/-- What the reader reads of a datastore: its base path and the files below it, the readers of
the two index formats (the digests of the chunks an index references), the chunk files by
digest, the owners of the groups, and the snapshots another operation holds locked. -/
structure ReaderStore where
  basePath : List String
  files : List String → Option (List UInt8)
  parseFixedIndex : List UInt8 → Except String (List (Vector UInt8 32))
  parseDynamicIndex : List UInt8 → Except String (List (Vector UInt8 32))
  chunks : Vector UInt8 32 → Option (List UInt8)
  getOwner : BackupDir → Except String Authid
  lockedExclusively : BackupDir → Bool

namespace ReaderStore

variable (store : ReaderStore)

/-- `BackupDir::full_path`. -/
def fullPath (dir : BackupDir) : List String := store.basePath ++ dir.relativePath

/-- Open an index file and list the digests of its chunks (`open_fixed_reader`,
`open_dynamic_reader` with `chunk_info`). -/
def openReader (parse : List UInt8 → Except String (List (Vector UInt8 32))) (path : List String) :
    Except String (List (Vector UInt8 32)) :=
  match store.files path with
  | some bytes => parse bytes
  | none => .error "unable to open index - not found"

/-- `helpers::create_download_response`: the file's contents. -/
def createDownloadResponse (path : List String) : Except String (List UInt8) :=
  match store.files path with
  | some bytes => .ok bytes
  | none => .error "open file failed - not found"

end ReaderStore

/-- The parameters of the protocol upgrade: the datastore, namespace and snapshot, the
`Upgrade` header, and the HTTP version (its minor number for 1.x, 2 for HTTP/2). -/
structure UpgradeRequest where
  store : String
  backupDir : BackupDir
  upgradeHeader : Option String
  httpVersion : Nat

/-- `ReaderEnvironment`: the session's auth id and snapshot, and the chunks it may send. -/
structure ReaderEnvironment where
  authId : Authid
  backupDir : BackupDir
  allowedChunks : List (Vector UInt8 32)
  deriving DecidableEq

namespace ReaderEnvironment

/-- `ReaderEnvironment::new`. -/
def new (authId : Authid) (backupDir : BackupDir) : ReaderEnvironment := ⟨authId, backupDir, []⟩

/-- `register_chunk`. -/
def registerChunk (env : ReaderEnvironment) (digest : Vector UInt8 32) : ReaderEnvironment :=
  { env with allowedChunks := digest :: env.allowedChunks }

/-- `check_chunk_access`. -/
def checkChunkAccess (env : ReaderEnvironment) (digest : Vector UInt8 32) : Bool :=
  digest ∈ env.allowedChunks

end ReaderEnvironment

variable (dp : DatastorePrivs) (info : CachedUserInfo) (store : ReaderStore)

/-- The owner test of `upgrade_to_backup_reader_protocol`, made when `Datastore.Read` is
missing. -/
def readerOwnerCheck (privRead : Bool) (authId : Authid) (dir : BackupDir) : Except String Unit :=
  if privRead then .ok ()
  else do
    let owner ← store.getOwner dir
    let correctOwner := decide (owner = authId) ||
      (owner.isToken && decide (Authid.ofUser owner.user = authId))
    Except.bailIf (!correctOwner) "backup owner check failed!"

/-- `upgrade_to_backup_reader_protocol`, up to the start of the session: the privilege test, the
protocol checks, the owner test when `Datastore.Read` is missing, and the snapshot's existence
and shared lock. -/
def upgradeToBackupReaderProtocol (authId : Authid) (req : UpgradeRequest) :
    Except String ReaderEnvironment := do
  let aclPath := req.backupDir.ns.aclPath req.store
  let privs := info.lookupPrivs authId aclPath
  let privRead := privs &&& dp.read ≠ 0
  let privBackup := privs &&& dp.backup ≠ 0
  let shown := String.intercalate "/" aclPath
  -- priv_backup needs owner check further down below!
  Except.bailIf (!privRead && !privBackup) s!"no permissions on /{shown}"
  let protocols ← match req.upgradeHeader with
    | some protocols => pure protocols
    | none => throw "missing Upgrade header"
  Except.bailIf (protocols ≠ readerProtocolIdV1) "invalid protocol name"
  Except.bailIf (req.httpVersion ≥ 2) "unexpected http version (expected version < 2)"
  readerOwnerCheck store privRead authId req.backupDir
  Except.bailIf (store.files (store.fullPath req.backupDir)).isNone "snapshot does not exist."
  Except.bailIf (store.lockedExclusively req.backupDir) "locked by another operation"
  pure (ReaderEnvironment.new authId req.backupDir)

/-- A request of the reader protocol, with its parameters as the client sends them. -/
inductive Request where
  | downloadFile (fileName : String)
  | downloadChunk (digest : String)
  | speedtest

/-- The index part of `download_file`: the chunks an index file of the snapshot references, as
its reader lists them; `none` for a blob. -/
def indexOf (dir : BackupDir) (fileName : String) :
    Except String (Option (List (Vector UInt8 32))) :=
  let path := pushPath (store.fullPath dir) fileName
  match Verify.archiveType fileName with
  | .ok .fixedIndex => (store.openReader store.parseFixedIndex path).map some
  | .ok .dynamicIndex => (store.openReader store.parseDynamicIndex path).map some
  | .ok .blob => .ok none
  | .error err => .error err

/-- `download_file`: an index file's chunks are registered as downloadable, then the file is
sent. -/
def downloadFile (env : ReaderEnvironment) (fileName : String) :
    ReaderEnvironment × Except String (List UInt8) :=
  let path := pushPath (store.fullPath env.backupDir) fileName
  match indexOf store env.backupDir fileName with
  | .error err => (env, .error err)
  | .ok index =>
    let env := match index with
      | some digests => digests.foldl ReaderEnvironment.registerChunk env
      | none => env
    (env, store.createDownloadResponse path)

/-- `download_chunk`: a registered chunk's file is sent. -/
def downloadChunk (env : ReaderEnvironment) (digestStr : String) :
    ReaderEnvironment × Except String (List UInt8) :=
  match fromHex digestStr with
  | none => (env, .error "invalid digest")
  | some digest =>
    if !env.checkChunkAccess digest then (env, .error s!"download chunk {digestStr} not allowed")
    else match store.chunks digest with
      | some data => (env, .ok data)
      | none => (env, .error "reading chunk file failed")

/-- One request of the session; the router checks a file name against its schema first. -/
def step (env : ReaderEnvironment) : Request → ReaderEnvironment × Except String (List UInt8)
  | .downloadFile fileName =>
    if isSafeId fileName then downloadFile store env fileName
    else (env, .error "parameter verification failed - file-name")
  | .downloadChunk digest => downloadChunk store env digest
  | .speedtest => (env, .ok (List.replicate (1024 * 1024) 65))

/-! ## File names the schema accepts -/

/-- A safe id is one plain path component: no slash, and neither `.` nor `..`. -/
theorem isSafeId_plain {name : String} (h : isSafeId name = true) :
    '/' ∉ name.toList ∧ name ≠ "" ∧ name ≠ "." ∧ name ≠ ".." := by
  unfold isSafeId at h
  split at h
  · exact absurd h Bool.false_ne_true
  · next c cs hname =>
    rw [Bool.and_eq_true, List.all_eq_true] at h
    obtain ⟨hfirst, hrest⟩ := h
    refine ⟨?_, ?_, ?_, ?_⟩
    · rw [hname, List.mem_cons, not_or]
      refine ⟨fun hc => ?_, fun hmem => ?_⟩
      · subst hc
        exact absurd hfirst (by decide)
      · exact absurd (hrest _ hmem) (by decide)
    · rintro rfl
      simp at hname
    · rintro rfl
      obtain ⟨rfl, -⟩ : c = '.' ∧ cs = [] := by simpa using hname.symm
      exact absurd hfirst (by decide)
    · rintro rfl
      obtain ⟨rfl, -⟩ : c = '.' ∧ cs = ['.'] := by simpa using hname.symm
      exact absurd hfirst (by decide)

theorem pushPath_of_safeId {name : String} (h : isSafeId name = true) (path : List String) :
    pushPath path name = path ++ [name] := by
  obtain ⟨hslash, hne, -⟩ := isSafeId_plain h
  unfold pushPath
  split
  · next rest hname => exact absurd (hname ▸ List.mem_cons_self) hslash
  · rw [splitAclPath_eq_singleton hslash hne]

/-! ## What one request does -/

theorem openReader_files {parse : List UInt8 → Except String (List (Vector UInt8 32))}
    {path : List String} {digests : List (Vector UInt8 32)}
    (h : store.openReader parse path = .ok digests) : ∃ bytes, store.files path = some bytes := by
  unfold ReaderStore.openReader at h
  split at h
  · next bytes hfile => exact ⟨bytes, hfile⟩
  · cases h

/-- An index that `download_file` opened is a file it can send. -/
theorem indexOf_files {dir : BackupDir} {fileName : String} {digests : List (Vector UInt8 32)}
    (h : indexOf store dir fileName = .ok (some digests)) :
    ∃ bytes, store.files (pushPath (store.fullPath dir) fileName) = some bytes := by
  unfold indexOf at h
  split at h
  · obtain ⟨digests', hopen, -⟩ := Except.map_eq_ok.mp h
    exact openReader_files store hopen
  · obtain ⟨digests', hopen, -⟩ := Except.map_eq_ok.mp h
    exact openReader_files store hopen
  · cases h
  · cases h

theorem mem_foldl_registerChunk (digests : List (Vector UInt8 32)) :
    ∀ (env : ReaderEnvironment) (d : Vector UInt8 32),
      d ∈ (digests.foldl ReaderEnvironment.registerChunk env).allowedChunks ↔
        d ∈ digests ∨ d ∈ env.allowedChunks := by
  induction digests with
  | nil =>
    intro env d
    simp
  | cons digest digests ih =>
    intro env d
    rw [List.foldl_cons, ih]
    simp only [ReaderEnvironment.registerChunk, List.mem_cons]
    tauto

theorem foldl_registerChunk_backupDir (digests : List (Vector UInt8 32)) :
    ∀ env : ReaderEnvironment,
      (digests.foldl ReaderEnvironment.registerChunk env).backupDir = env.backupDir := by
  induction digests with
  | nil =>
    intro env
    rfl
  | cons digest digests ih =>
    intro env
    rw [List.foldl_cons, ih]
    rfl

/-- A request that downloaded, successfully, an index file of the snapshot `dir` whose index
lists `digest`. -/
def ServedIndexListing (dir : BackupDir) (digest : Vector UInt8 32) (env : ReaderEnvironment)
    (req : Request) : Prop :=
  ∃ fileName, req = .downloadFile fileName ∧ (∃ bytes, (step store env req).2 = .ok bytes) ∧
    ∃ digests, indexOf store dir fileName = .ok (some digests) ∧ digest ∈ digests

/-- `download_file` keeps the session's snapshot. -/
theorem downloadFile_backupDir (env : ReaderEnvironment) (fileName : String) :
    (downloadFile store env fileName).1.backupDir = env.backupDir := by
  dsimp only [downloadFile]
  split
  · rfl
  · next index _ =>
    cases index with
    | none => rfl
    | some digests => exact foldl_registerChunk_backupDir digests env

/-- `download_chunk` leaves the session as it is. -/
theorem downloadChunk_env (env : ReaderEnvironment) (digestStr : String) :
    (downloadChunk store env digestStr).1 = env := by
  unfold downloadChunk
  split
  · rfl
  · split
    · rfl
    · split <;> rfl

/-- No request changes the session's snapshot. -/
theorem step_backupDir (env : ReaderEnvironment) (req : Request) :
    (step store env req).1.backupDir = env.backupDir := by
  cases req with
  | downloadFile fileName =>
    by_cases hsafe : isSafeId fileName = true
    · rw [step, if_pos hsafe]
      exact downloadFile_backupDir store env fileName
    · rw [step, if_neg hsafe]
  | downloadChunk digest =>
    rw [step, downloadChunk_env]
  | speedtest => rfl

theorem createDownloadResponse_eq_ok {path : List String} {bytes : List UInt8} :
    store.createDownloadResponse path = .ok bytes ↔ store.files path = some bytes := by
  unfold ReaderStore.createDownloadResponse
  split <;> simp_all

/-- `download_file` after its index part: the index's chunks are registered and the file is
sent. -/
theorem downloadFile_of_indexOf {env : ReaderEnvironment} {fileName : String}
    {index : Option (List (Vector UInt8 32))} (h : indexOf store env.backupDir fileName = .ok index) :
    downloadFile store env fileName =
      (index.elim env (List.foldl ReaderEnvironment.registerChunk env),
        store.createDownloadResponse (pushPath (store.fullPath env.backupDir) fileName)) := by
  cases index <;> simp [downloadFile, h]

/-- A chunk becomes downloadable only through a download of an index of the snapshot that
lists it. -/
theorem step_allowed {env : ReaderEnvironment} {req : Request} {d : Vector UInt8 32}
    (hd : d ∈ (step store env req).1.allowedChunks) :
    d ∈ env.allowedChunks ∨ ServedIndexListing store env.backupDir d env req := by
  cases req with
  | downloadFile fileName =>
    by_cases hsafe : isSafeId fileName = true
    · have hstep : step store env (.downloadFile fileName) = downloadFile store env fileName := by
        rw [step, if_pos hsafe]
      rw [hstep] at hd
      cases hindex : indexOf store env.backupDir fileName with
      | error err =>
        simp only [downloadFile, hindex] at hd
        exact .inl hd
      | ok index =>
        rw [downloadFile_of_indexOf store hindex] at hd
        cases index with
        | none => exact .inl hd
        | some digests =>
          rcases (mem_foldl_registerChunk digests env d).mp hd with hmem | hmem
          · obtain ⟨bytes, hfile⟩ := indexOf_files store hindex
            refine .inr ⟨fileName, rfl, ⟨bytes, ?_⟩, digests, hindex, hmem⟩
            rw [hstep, downloadFile_of_indexOf store hindex, createDownloadResponse_eq_ok]
            exact hfile
          · exact .inl hmem
    · rw [step, if_neg hsafe] at hd
      exact .inl hd
  | downloadChunk digest =>
    rw [step, downloadChunk_env] at hd
    exact .inl hd
  | speedtest => exact .inl hd

/-- What `download_chunk` sends: a chunk of the allow-list, named by its digest in hex. -/
theorem downloadChunk_ok {env : ReaderEnvironment} {digestStr : String} {data : List UInt8}
    (h : (downloadChunk store env digestStr).2 = .ok data) :
    ∃ d, fromHex digestStr = some d ∧ d ∈ env.allowedChunks ∧ store.chunks d = some data := by
  unfold downloadChunk at h
  split at h
  · cases h
  · next d hd =>
    split at h
    · cases h
    · next hallowed =>
      split at h
      · next data' hchunk =>
        cases h
        refine ⟨d, hd, ?_, hchunk⟩
        simpa [ReaderEnvironment.checkChunkAccess] using hallowed
      · cases h

/-- What `download_file` sends: a file directly in the snapshot directory, named by a safe id. -/
theorem step_downloadFile_ok {env : ReaderEnvironment} {fileName : String} {bytes : List UInt8}
    (h : (step store env (.downloadFile fileName)).2 = .ok bytes) :
    isSafeId fileName = true ∧
      store.files (store.fullPath env.backupDir ++ [fileName]) = some bytes := by
  by_cases hsafe : isSafeId fileName = true
  · rw [step, if_pos hsafe] at h
    cases hindex : indexOf store env.backupDir fileName with
    | error err => simp [downloadFile, hindex] at h
    | ok index =>
      rw [downloadFile_of_indexOf store hindex, createDownloadResponse_eq_ok,
        pushPath_of_safeId hsafe] at h
      exact ⟨hsafe, h⟩
  · rw [step, if_neg hsafe] at h
    cases h

/-! ## Runs of a session -/

/-- The allow-list invariant of a session opened as `env₀`: the snapshot stays, and every chunk
the session may send was listed by an index of the snapshot that an earlier request of the
session downloaded. -/
def Registered (env₀ : ReaderEnvironment) (hist : List Request) (env : ReaderEnvironment) :
    Prop :=
  env.backupDir = env₀.backupDir ∧
    ∀ d ∈ env.allowedChunks, Occurred (step store) env₀ hist (ServedIndexListing store env₀.backupDir d)

/-- Every run of a session that starts with an empty allow-list keeps `Registered`. -/
theorem registered_run {env₀ : ReaderEnvironment} (h₀ : env₀.allowedChunks = [])
    (hist : List Request) : Registered store env₀ hist (run (step store) env₀ hist) := by
  apply run_history_induction (step store) (Registered store env₀)
  · refine ⟨rfl, fun d hd => ?_⟩
    rw [h₀] at hd
    cases hd
  · rintro hist req ⟨hdir, hallowed⟩
    refine ⟨(step_backupDir store _ req).trans hdir, fun d hd => ?_⟩
    rcases step_allowed store hd with hmem | hserved
    · exact (hallowed d hmem).append req
    · rw [hdir] at hserved
      exact occurred_concat hserved

/-! ## Opening a session -/

/-- The owner test passes with `Datastore.Read`, and without it only for the owner of the group
or a token of the owner's user, as `check_backup_owner` decides. -/
theorem readerOwnerCheck_ok {privRead : Bool} {authId : Authid} {dir : BackupDir} {u : Unit}
    (h : readerOwnerCheck store privRead authId dir = .ok u) :
    privRead = true ∨
      ∃ owner, store.getOwner dir = .ok owner ∧ checkBackupOwner owner authId = .ok () := by
  cases privRead with
  | true => exact .inl rfl
  | false =>
    obtain ⟨owner, howner, hcheck⟩ := Except.bind_eq_ok.mp h
    rw [Except.bailIf_eq_ok] at hcheck
    refine .inr ⟨owner, howner, ?_⟩
    simp only [checkBackupOwner, hcheck]
    rfl

/-- A session is opened only for an auth id with `Datastore.Read` on the snapshot's namespace,
or with `Datastore.Backup` there and owning the snapshot's group; it starts with an empty
allow-list. -/
theorem upgradeToBackupReaderProtocol_ok {authId : Authid} {req : UpgradeRequest}
    {env : ReaderEnvironment} (h : upgradeToBackupReaderProtocol dp info store authId req = .ok env) :
    env = ReaderEnvironment.new authId req.backupDir ∧
      (info.lookupPrivs authId (req.backupDir.ns.aclPath req.store) &&& dp.read ≠ 0 ∨
        info.lookupPrivs authId (req.backupDir.ns.aclPath req.store) &&& dp.backup ≠ 0 ∧
          ∃ owner, store.getOwner req.backupDir = .ok owner ∧ checkBackupOwner owner authId = .ok ()) := by
  dsimp only [upgradeToBackupReaderProtocol] at h
  obtain ⟨_, hpriv, h⟩ := Except.bind_eq_ok.mp h
  -- the `Upgrade` header's match carries the rest of the block in its `some` branch
  cases hheader : req.upgradeHeader with
  | none =>
    rw [hheader] at h
    cases h
  | some protocols =>
    rw [hheader] at h
    simp only [Except.pure_eq_ok, Except.ok_bind] at h
    obtain ⟨-, -, h⟩ := Except.bind_eq_ok.mp h
    obtain ⟨-, -, h⟩ := Except.bind_eq_ok.mp h
    obtain ⟨_, howner, h⟩ := Except.bind_eq_ok.mp h
    obtain ⟨-, -, h⟩ := Except.bind_eq_ok.mp h
    obtain ⟨-, -, h⟩ := Except.bind_eq_ok.mp h
    cases h
    refine ⟨rfl, ?_⟩
    by_cases hread : info.lookupPrivs authId (req.backupDir.ns.aclPath req.store) &&& dp.read ≠ 0
    · exact .inl hread
    · rw [Except.bailIf_eq_ok] at hpriv
      rcases readerOwnerCheck_ok store howner with hr | hcheck
      · simp [hread] at hr
      · exact .inr ⟨by simpa [hread] using hpriv, hcheck⟩

/-- A reader session is confined to its snapshot. It is opened only under the privilege test of
`upgrade_to_backup_reader_protocol`; in every run of it, a chunk that `download_chunk` sends was
listed by an index of the snapshot that an earlier request of the session downloaded; and a file
that `download_file` sends, for a name the schema accepts, is one plain component below the
snapshot directory. -/
theorem reader_session_is_confined {authId : Authid} {req : UpgradeRequest}
    {env : ReaderEnvironment} (hopen : upgradeToBackupReaderProtocol dp info store authId req = .ok env) :
    (info.lookupPrivs authId (req.backupDir.ns.aclPath req.store) &&& dp.read ≠ 0 ∨
      info.lookupPrivs authId (req.backupDir.ns.aclPath req.store) &&& dp.backup ≠ 0 ∧
        ∃ owner, store.getOwner req.backupDir = .ok owner ∧ checkBackupOwner owner authId = .ok ()) ∧
    (∀ (hist : List Request) (digestStr : String) (data : List UInt8),
      (step store (run (step store) env hist) (.downloadChunk digestStr)).2 = .ok data →
        ∃ digest, fromHex digestStr = some digest ∧ store.chunks digest = some data ∧
          Occurred (step store) env hist (ServedIndexListing store req.backupDir digest)) ∧
    (∀ (hist : List Request) (fileName : String) (bytes : List UInt8),
      (step store (run (step store) env hist) (.downloadFile fileName)).2 = .ok bytes →
        isSafeId fileName = true ∧ '/' ∉ fileName.toList ∧ fileName ≠ "." ∧ fileName ≠ ".." ∧
          store.files (store.fullPath req.backupDir ++ [fileName]) = some bytes) := by
  obtain ⟨rfl, hprivs⟩ := upgradeToBackupReaderProtocol_ok dp info store hopen
  have hempty : (ReaderEnvironment.new authId req.backupDir).allowedChunks = [] := rfl
  refine ⟨hprivs, ?_, ?_⟩
  · intro hist digestStr data h
    rw [step] at h
    obtain ⟨digest, hhex, hallowed, hchunk⟩ := downloadChunk_ok store h
    obtain ⟨-, hregistered⟩ := registered_run store hempty hist
    exact ⟨digest, hhex, hchunk, hregistered digest hallowed⟩
  · intro hist fileName bytes h
    obtain ⟨hsafe, hfile⟩ := step_downloadFile_ok store h
    obtain ⟨hdir, -⟩ := registered_run store hempty hist
    obtain ⟨hslash, -, hdot, hdotdot⟩ := isSafeId_plain hsafe
    rw [hdir] at hfile
    exact ⟨hsafe, hslash, hdot, hdotdot, hfile⟩

/-- `root@pam` opens a session on a snapshot of the root namespace, with `Datastore.Read` as the
first bit. -/
def rootPrivs : DatastorePrivs := ⟨2, 1, 4, 8⟩

def emptyAcl : CachedUserInfo := ⟨⟨AclTreeNode.new⟩⟩

def singleSnapshotStore : ReaderStore where
  basePath := ["store1"]
  files := fun _ => some []
  parseFixedIndex := fun _ => .ok []
  parseDynamicIndex := fun _ => .ok []
  chunks := fun _ => none
  getOwner := fun _ => .error "no owner"
  lockedExclusively := fun _ => false

def rootAuthId : Authid := ⟨"root@pam", none⟩

def rootSnapshotRequest : UpgradeRequest :=
  ⟨"store1", ⟨⟨[]⟩, "vm", "100", "2020-01-01T00:00:00Z"⟩, some readerProtocolIdV1, 1⟩

theorem reader_session_is_confined_root :
    upgradeToBackupReaderProtocol rootPrivs emptyAcl singleSnapshotStore rootAuthId
        rootSnapshotRequest = .ok (ReaderEnvironment.new rootAuthId rootSnapshotRequest.backupDir) ∧
    (emptyAcl.lookupPrivs rootAuthId (rootSnapshotRequest.backupDir.ns.aclPath "store1") &&&
        rootPrivs.read ≠ 0 ∨
      emptyAcl.lookupPrivs rootAuthId (rootSnapshotRequest.backupDir.ns.aclPath "store1") &&&
          rootPrivs.backup ≠ 0 ∧
        ∃ owner, singleSnapshotStore.getOwner rootSnapshotRequest.backupDir = .ok owner ∧
          checkBackupOwner owner rootAuthId = .ok ()) ∧
    (∀ (hist : List Request) (digestStr : String) (data : List UInt8),
      (step singleSnapshotStore (run (step singleSnapshotStore)
          (ReaderEnvironment.new rootAuthId rootSnapshotRequest.backupDir) hist)
          (.downloadChunk digestStr)).2 = .ok data →
        ∃ digest, fromHex digestStr = some digest ∧ singleSnapshotStore.chunks digest = some data ∧
          Occurred (step singleSnapshotStore)
            (ReaderEnvironment.new rootAuthId rootSnapshotRequest.backupDir) hist
            (ServedIndexListing singleSnapshotStore rootSnapshotRequest.backupDir digest)) ∧
    (∀ (hist : List Request) (fileName : String) (bytes : List UInt8),
      (step singleSnapshotStore (run (step singleSnapshotStore)
          (ReaderEnvironment.new rootAuthId rootSnapshotRequest.backupDir) hist)
          (.downloadFile fileName)).2 = .ok bytes →
        isSafeId fileName = true ∧ '/' ∉ fileName.toList ∧ fileName ≠ "." ∧ fileName ≠ ".." ∧
          singleSnapshotStore.files
            (singleSnapshotStore.fullPath rootSnapshotRequest.backupDir ++ [fileName]) = some bytes) :=
  have hopen : upgradeToBackupReaderProtocol rootPrivs emptyAcl singleSnapshotStore rootAuthId
      rootSnapshotRequest = .ok (ReaderEnvironment.new rootAuthId rootSnapshotRequest.backupDir) := by
    decide +kernel
  ⟨hopen, reader_session_is_confined rootPrivs emptyAcl singleSnapshotStore hopen⟩

end ProxmoxBackup.Reader
