import ProxmoxBackup.Datastore.CatalogFormat
import ProxmoxBackup.Foundations.LittleEndian

/-!
# Writing and reading a catalog (`pbs-datastore/src/catalog.rs`)

`CatalogWriter` receives a directory tree as a well-nested sequence of calls: `start_directory`
opens a directory, the `add_*` calls add entries to the innermost open one, and `end_directory`
writes the innermost directory's block and adds it, with the position of its block, to the
directory around it. Blocks are written children first, so a parent's block refers back to its
subdirectories' blocks by their distance. `finish` writes the root directory's block and then
its position as eight little-endian bytes, which `CatalogReader::root` reads back from the end
of the file.

The tree a run describes is a `CatalogTree`, and the calls for it are `CatalogTree.listToOps`.
The main result, `finish_reads_back`, is the round trip: after the calls for any trees whose
names fit the reader's name buffer, and `finish`, the reader's `root` designates the root
directory, `read_dir` of it lists the trees' top entries in order with their names, types,
sizes and modification times, and every directory entry's start leads to the block that lists
exactly its subtree (`EntryReadsAs`). The catalog must be shorter than `2 ^ 64` bytes for its
`u64` positions to address it.

The proof follows the tree: `run_toOps` and `run_listToOps` say, by induction on the tree, what
the calls for a tree leave in the writer, and that what they wrote reads back in any file that
begins with it (`readDir_block`).
-/

namespace ProxmoxBackup

/-- `PROXMOX_CATALOG_FILE_MAGIC_1_0`. -/
def catalogFileMagic : List UInt8 := [145, 253, 96, 249, 196, 103, 88, 213]

/-- `CatalogWriter`, over a writer that keeps what it is given (`output`). The directory stack
is innermost first: the source's `Vec` has the innermost directory last. -/
structure CatalogWriter where
  output : List UInt8
  dirstack : List DirInfo
  pos : UInt64

namespace CatalogWriter

/-- `CatalogWriter::write_all`. -/
def writeAll (w : CatalogWriter) (data : List UInt8) : CatalogWriter :=
  { w with output := w.output ++ data, pos := w.pos + UInt64.ofNat data.length }

/-- `CatalogWriter::new`: the root directory open, and the magic written. -/
def new : CatalogWriter := writeAll ⟨[], [DirInfo.newRootdir], 0⟩ catalogFileMagic

/-- `CatalogWriter::finish`: the root directory's block, then its start as eight bytes. -/
def finish (w : CatalogWriter) : Except String CatalogWriter :=
  match w.dirstack with
  | [dir] =>
    let start := w.pos
    let data := (dir.encode start).2
    pure ((({ w with dirstack := [] } : CatalogWriter).writeAll data).writeAll
      (LittleEndian.toBytes 8 start.toNat))
  | dirstack => throw s!"unable to finish catalog at level {dirstack.length}"

/-- `start_directory`. -/
def startDirectory (w : CatalogWriter) (name : List UInt8) : CatalogWriter :=
  { w with dirstack := DirInfo.new name :: w.dirstack }

/-- `end_directory`: the innermost directory's block is written, and the directory becomes an
entry of the one around it. -/
def endDirectory (w : CatalogWriter) : Except String CatalogWriter :=
  match w.dirstack with
  | [] => throw "got unexpected end_directory level 0"
  | dir :: dirstack =>
    let start := w.pos
    let (name, data) := dir.encode start
    let w := ({ w with dirstack := dirstack } : CatalogWriter).writeAll data
    match w.dirstack with
    | [] => throw "outside root"
    | current :: dirstack =>
      pure { w with dirstack := current.push ⟨name, .directory start⟩ :: dirstack }

/-- The `add_*` calls: the entry goes last into the innermost open directory. -/
def addEntry (w : CatalogWriter) (name : List UInt8) (attr : DirEntryAttribute) :
    Except String CatalogWriter :=
  match w.dirstack with
  | [] => throw "outside root"
  | dir :: dirstack => pure { w with dirstack := dir.push ⟨name, attr⟩ :: dirstack }

/-- `add_file`. -/
def addFile (w : CatalogWriter) (name : List UInt8) (size : UInt64) (mtime : Int64) :
    Except String CatalogWriter :=
  w.addEntry name (.file size mtime)

/-- `add_symlink`. -/
def addSymlink (w : CatalogWriter) (name : List UInt8) : Except String CatalogWriter :=
  w.addEntry name .symlink

/-- `add_hardlink`. -/
def addHardlink (w : CatalogWriter) (name : List UInt8) : Except String CatalogWriter :=
  w.addEntry name .hardlink

/-- `add_block_device`. -/
def addBlockDevice (w : CatalogWriter) (name : List UInt8) : Except String CatalogWriter :=
  w.addEntry name .blockDevice

/-- `add_char_device`. -/
def addCharDevice (w : CatalogWriter) (name : List UInt8) : Except String CatalogWriter :=
  w.addEntry name .charDevice

/-- `add_fifo`. -/
def addFifo (w : CatalogWriter) (name : List UInt8) : Except String CatalogWriter :=
  w.addEntry name .fifo

/-- `add_socket`. -/
def addSocket (w : CatalogWriter) (name : List UInt8) : Except String CatalogWriter :=
  w.addEntry name .socket

end CatalogWriter

/-- A call of `BackupCatalogWriter`. -/
inductive CatalogOp where
  | startDirectory (name : List UInt8)
  | endDirectory
  | addFile (name : List UInt8) (size : UInt64) (mtime : Int64)
  | addSymlink (name : List UInt8)
  | addHardlink (name : List UInt8)
  | addBlockDevice (name : List UInt8)
  | addCharDevice (name : List UInt8)
  | addFifo (name : List UInt8)
  | addSocket (name : List UInt8)

namespace CatalogWriter

/-- One call. -/
def step (w : CatalogWriter) : CatalogOp → Except String CatalogWriter
  | .startDirectory name => pure (w.startDirectory name)
  | .endDirectory => w.endDirectory
  | .addFile name size mtime => w.addFile name size mtime
  | .addSymlink name => w.addSymlink name
  | .addHardlink name => w.addHardlink name
  | .addBlockDevice name => w.addBlockDevice name
  | .addCharDevice name => w.addCharDevice name
  | .addFifo name => w.addFifo name
  | .addSocket name => w.addSocket name

/-- A run of calls, stopping at the first error. -/
def run (w : CatalogWriter) : List CatalogOp → Except String CatalogWriter
  | [] => pure w
  | op :: ops => do run (← w.step op) ops

end CatalogWriter

namespace CatalogReader

/-- `CatalogReader::root`: the root directory, whose block starts where the last eight bytes
say. The magic was read, so there are eight bytes to seek back over (`SeekFrom::End(-8)`). -/
def root (bytes : List UInt8) : Except String DirEntry := do
  let (magic, _) ← readExact 8 bytes
  if magic ≠ catalogFileMagic then throw "got unexpected magic number for catalog"
  let (startBytes, _) ← readExact 8 (bytes.drop (bytes.length - 8))
  pure ⟨[], .directory (UInt64.ofNat (LittleEndian.ofBytes startBytes))⟩

/-- `CatalogReader::read_raw_dirinfo_block`: the block after its length, at `start`
(`SeekFrom::Start(start)`). -/
def readRawDirinfoBlock (bytes : List UInt8) (start : UInt64) : Except String (List UInt8) := do
  let (size, cursor) ← catalogDecodeU64 (bytes.drop start.toNat)
  if size < 1 then throw s!"got small directory size {size}"
  let (data, _) ← readExact size.toNat cursor
  pure data

/-- The start of the block of a directory entry, as `read_dir` and `lookup` take it. -/
def dirStart (parent : DirEntry) : Except String UInt64 :=
  match parent.attr with
  | .directory start => pure start
  | _ => throw "parent is not a directory - internal error"

/-- `CatalogReader::read_dir`: the entries of the directory `parent`, with the start of each
subdirectory's block. -/
def readDir (bytes : List UInt8) (parent : DirEntry) : Except String (List DirEntry) := do
  let start ← dirStart parent
  let data ← readRawDirinfoBlock bytes start
  DirInfo.parse data (fun entryList p =>
      .ok (entryList ++ [DirEntry.new p.etype p.name (start - p.offset) p.size p.mtime], true))
    []

/-- `CatalogReader::lookup`: the first entry of `parent` named `filename`; the parse stops
there. -/
def lookup (bytes : List UInt8) (parent : DirEntry) (filename : List UInt8) :
    Except String (Option DirEntry) := do
  let start ← dirStart parent
  let data ← readRawDirinfoBlock bytes start
  DirInfo.parse data (fun item p =>
      if p.name ≠ filename then .ok (item, true)
      else .ok (some (DirEntry.new p.etype p.name (start - p.offset) p.size p.mtime), false))
    none

end CatalogReader

/-! ## The tree a run of calls describes -/

/-- What one `add_*` call adds. -/
inductive LeafKind where
  | file (size : UInt64) (mtime : Int64)
  | symlink | hardlink | blockDevice | charDevice | fifo | socket

namespace LeafKind

/-- The attribute of the entry the call adds. -/
def attr : LeafKind → DirEntryAttribute
  | .file size mtime => .file size mtime
  | .symlink => .symlink
  | .hardlink => .hardlink
  | .blockDevice => .blockDevice
  | .charDevice => .charDevice
  | .fifo => .fifo
  | .socket => .socket

/-- The call that adds an entry of this kind named `name`. -/
def op (name : List UInt8) : LeafKind → CatalogOp
  | .file size mtime => .addFile name size mtime
  | .symlink => .addSymlink name
  | .hardlink => .addHardlink name
  | .blockDevice => .addBlockDevice name
  | .charDevice => .addCharDevice name
  | .fifo => .addFifo name
  | .socket => .addSocket name

end LeafKind

/-- A directory tree, as a writer receives it. -/
inductive CatalogTree where
  | directory (name : List UInt8) (children : List CatalogTree)
  | leaf (name : List UInt8) (kind : LeafKind)

namespace CatalogTree

/-- The name of the tree's top entry. -/
def name : CatalogTree → List UInt8
  | .directory name _ => name
  | .leaf name _ => name

mutual

/-- The well-nested calls that give the writer a tree. -/
def toOps : CatalogTree → List CatalogOp
  | .directory name children => .startDirectory name :: listToOps children ++ [.endDirectory]
  | .leaf name kind => [kind.op name]

/-- The calls for trees, one after another. -/
def listToOps : List CatalogTree → List CatalogOp
  | [] => []
  | t :: ts => t.toOps ++ listToOps ts

end

mutual

/-- Every name in the tree is shorter than the reader's name buffer of 4096 bytes. -/
def NamesShort : CatalogTree → Prop
  | .directory name children => name.length < 4096 ∧ ListNamesShort children
  | .leaf name _ => name.length < 4096

/-- Every name in the trees is shorter than 4096 bytes. -/
def ListNamesShort : List CatalogTree → Prop
  | [] => True
  | t :: ts => NamesShort t ∧ ListNamesShort ts

end

end CatalogTree

mutual

/-- The entry `entry` that the reader returned, in the catalog `bytes`, is the tree: the same
name, and for a directory a block that lists its subtrees, for an `add_*` entry the same
attribute. -/
def EntryReadsAs (bytes : List UInt8) (entry : DirEntry) : CatalogTree → Prop
  | .directory name children => entry.name = name ∧ entry.attr.entryType = .directory ∧
      ∃ entries, CatalogReader.readDir bytes entry = .ok entries ∧
        EntriesReadAs bytes entries children
  | .leaf name kind => entry = ⟨name, kind.attr⟩

/-- The entries `read_dir` returned are the trees, one for one and in order. -/
def EntriesReadAs (bytes : List UInt8) : List DirEntry → List CatalogTree → Prop
  | [], [] => True
  | entry :: entries, t :: ts => EntryReadsAs bytes entry t ∧ EntriesReadAs bytes entries ts
  | _, _ => False

end

/-! ## Blocks read back -/

theorem encodeU64Loop_ne_nil (d : Nat) : encodeU64Loop d ≠ [] := by
  rw [encodeU64Loop_eq]
  split <;> simp

theorem length_le_encodeTable (dir : DirInfo) (start : UInt64) :
    dir.entries.length ≤ (dir.encodeTable start).length := by
  have hentries : dir.entries.length ≤
      ((dir.entries.map fun entry => DirInfo.encodeEntry entry start).flatten).length := by
    induction dir.entries with
    | nil => simp
    | cons e es ih =>
      simp only [List.map_cons, List.flatten_cons, List.length_append, List.length_cons]
      have : 1 ≤ (DirInfo.encodeEntry e start).length := by
        unfold DirInfo.encodeEntry
        split <;> simp
      omega
  simp only [DirInfo.encodeTable, List.length_append]
  omega

theorem foldl_push {α β : Type} (g : α → β) (s : List β) (xs : List α) :
    xs.foldl (fun l x => l ++ [g x]) s = s ++ xs.map g := by
  induction xs generalizing s with
  | nil => simp
  | cons x xs ih => simp [ih]

/-- A directory block that `encode` wrote at `start`, in a file shorter than `2 ^ 64` bytes,
reads back as the directory's entries, in order, names shorter than 4096 bytes given. -/
theorem readDir_block (bytes : List UInt8) (dir : DirInfo) (start : UInt64) (name : List UInt8)
    (hblock : (dir.encode start).2 <+: bytes.drop start.toNat) (hbytes : bytes.length < 2 ^ 64)
    (hnames : ∀ e ∈ dir.entries, e.name.length < 4096) :
    CatalogReader.readDir bytes ⟨name, .directory start⟩ = .ok dir.entries := by
  obtain ⟨more, hmore⟩ := hblock
  have hlen := congrArg List.length hmore
  simp only [DirInfo.encode, List.length_append, List.length_drop] at hlen
  have hcount := length_le_encodeTable dir start
  have htable : (UInt64.ofNat (dir.encodeTable start).length).toNat =
      (dir.encodeTable start).length := by
    rw [UInt64.toNat_ofNat', Nat.mod_eq_of_lt (by omega)]
  -- the table starts with the number of entries, so it is not empty
  have hsize : UInt64.ofNat (dir.encodeTable start).length ≠ 0 := by
    have hne := List.length_pos_iff.mpr
      (encodeU64Loop_ne_nil (UInt64.ofNat dir.entries.length).toNat)
    have : 1 ≤ (dir.encodeTable start).length := by
      rw [DirInfo.encodeTable, List.length_append]
      unfold catalogEncodeU64
      omega
    intro h0
    have := congrArg UInt64.toNat h0
    rw [htable, UInt64.toNat_zero] at this
    omega
  have hraw : CatalogReader.readRawDirinfoBlock bytes start = .ok (dir.encodeTable start) := by
    simp [CatalogReader.readRawDirinfoBlock, ← hmore, DirInfo.encode, catalogDecodeU64_encode,
      hsize, htable, readExact_append]
  have hparse := DirInfo.parse_encode
    (f := fun entryList p => entryList ++ [DirEntry.new p.etype p.name (start - p.offset) p.size p.mtime])
    dir start hnames (by omega) []
  rw [foldl_push, List.nil_append, List.map_map] at hparse
  have hid : (dir.entries.map ((fun p : ParsedEntry =>
      DirEntry.new p.etype p.name (start - p.offset) p.size p.mtime) ∘
        fun e => e.parsedAt start)) = dir.entries := by
    conv_rhs => rw [← List.map_id dir.entries]
    exact List.map_congr_left fun e _ => DirEntry.new_parsedAt e start
  rw [hid] at hparse
  simp [CatalogReader.readDir, CatalogReader.dirStart, hraw, hparse]

/-! ## What a run of calls leaves in the writer -/

namespace CatalogWriter

theorem run_append (w : CatalogWriter) (ops₁ ops₂ : List CatalogOp) :
    w.run (ops₁ ++ ops₂) = (w.run ops₁ >>= fun w => w.run ops₂) := by
  induction ops₁ generalizing w with
  | nil => rfl
  | cons op ops ih =>
    simp only [List.cons_append, run]
    cases w.step op with
    | error e => rfl
    | ok w' => exact ih w'

theorem step_leafOp (w : CatalogWriter) (name : List UInt8) (kind : LeafKind) :
    w.step (kind.op name) = w.addEntry name kind.attr := by
  cases kind <;> rfl

/-- `end_directory` with a directory around the innermost one. -/
theorem endDirectory_eq (output : List UInt8) (dir parent : DirInfo) (stack : List DirInfo)
    (pos : UInt64) :
    (⟨output, dir :: parent :: stack, pos⟩ : CatalogWriter).endDirectory =
      .ok ⟨output ++ (dir.encode pos).2, parent.push ⟨dir.name, .directory pos⟩ :: stack,
        pos + UInt64.ofNat (dir.encode pos).2.length⟩ := by
  simp [endDirectory, writeAll, DirInfo.encode]

end CatalogWriter

namespace CatalogTree

/-- The names in the trees are short: so are those of their top entries. -/
theorem ListNamesShort.name_length {ts : List CatalogTree} (h : ListNamesShort ts) :
    ∀ t ∈ ts, t.name.length < 4096 := by
  induction ts with
  | nil => simp
  | cons t ts ih =>
    obtain ⟨ht, hts⟩ := h
    intro u hu
    rcases List.mem_cons.mp hu with rfl | hu
    · cases u with
      | directory name children => exact ht.1
      | leaf name kind => exact ht
    · exact ih hts u hu

end CatalogTree

/-- Entries named as trees with short names have short names. -/
theorem names_short_of_map_name {entries : List DirEntry} {ts : List CatalogTree}
    (hmap : entries.map DirEntry.name = ts.map CatalogTree.name)
    (hnames : CatalogTree.ListNamesShort ts) : ∀ e ∈ entries, e.name.length < 4096 := by
  intro e he
  have : e.name ∈ ts.map CatalogTree.name := hmap ▸ List.mem_map_of_mem he
  obtain ⟨t, ht, hname⟩ := List.mem_map.mp this
  exact hname ▸ hnames.name_length t ht

open CatalogWriter in
mutual

/-- The calls for a tree, from a writer whose position is the length of its output, add one
entry to the innermost open directory and write the tree's blocks; in any catalog that begins
with what was written, the entry reads as the tree. -/
theorem run_toOps (t : CatalogTree) (hnames : t.NamesShort) (output : List UInt8)
    (dir : DirInfo) (stack : List DirInfo) :
    ∃ entry out, (⟨output, dir :: stack, UInt64.ofNat output.length⟩ : CatalogWriter).run
        t.toOps = .ok ⟨output ++ out, dir.push entry :: stack,
          UInt64.ofNat (output ++ out).length⟩ ∧
      entry.name = t.name ∧
      ∀ bytes, output ++ out <+: bytes → bytes.length < 2 ^ 64 → EntryReadsAs bytes entry t := by
  match t with
  | .leaf name kind =>
    refine ⟨⟨name, kind.attr⟩, [], ?_, rfl, fun _ _ _ => rfl⟩
    simp [CatalogTree.toOps, run, step_leafOp, addEntry]
  | .directory name children =>
    -- the children's calls, inside the new directory, then its block
    obtain ⟨entries, out, hrun, hmap, hread⟩ :=
      run_listToOps children hnames.2 output (DirInfo.new name) (dir :: stack)
    refine ⟨⟨name, .directory (UInt64.ofNat (output ++ out).length)⟩,
      out ++ (DirInfo.encode ⟨name, entries⟩ (UInt64.ofNat (output ++ out).length)).2, ?_, rfl,
      ?_⟩
    · simp only [CatalogTree.toOps, run, step, Except.pure_eq_ok, Except.ok_bind, run_append]
      rw [show (⟨output, dir :: stack, UInt64.ofNat output.length⟩ : CatalogWriter).startDirectory
          name = ⟨output, DirInfo.new name :: dir :: stack, UInt64.ofNat output.length⟩ from rfl,
        hrun]
      simp [DirInfo.new, endDirectory_eq, UInt64.ofNat_add, add_assoc]
    · intro bytes hpre hbytes
      have hpre' : output ++ out <+: bytes := by
        rw [← List.append_assoc] at hpre
        exact (List.prefix_append _ _).trans hpre
      refine ⟨rfl, rfl, entries, ?_, hread bytes hpre' hbytes⟩
      -- the directory's block sits where the writer's position said
      apply readDir_block bytes ⟨name, entries⟩ _ name _ hbytes
        (names_short_of_map_name hmap hnames.2)
      have hlen : (output ++ out).length < 2 ^ 64 :=
        lt_of_le_of_lt hpre'.length_le hbytes
      rw [UInt64.toNat_ofNat', Nat.mod_eq_of_lt hlen]
      obtain ⟨more, hmore⟩ := hpre
      rw [← hmore, show ∀ a b c d : List UInt8, a ++ (b ++ c) ++ d = (a ++ b) ++ (c ++ d) by simp,
        List.drop_left]
      exact List.prefix_append _ _

/-- The calls for trees, one after another, add one entry for each to the innermost open
directory; in any catalog that begins with what was written, the entries read as the trees. -/
theorem run_listToOps (ts : List CatalogTree) (hnames : CatalogTree.ListNamesShort ts)
    (output : List UInt8) (dir : DirInfo) (stack : List DirInfo) :
    ∃ entries out, (⟨output, dir :: stack, UInt64.ofNat output.length⟩ : CatalogWriter).run
        (CatalogTree.listToOps ts) = .ok ⟨output ++ out, ⟨dir.name, dir.entries ++ entries⟩ :: stack,
          UInt64.ofNat (output ++ out).length⟩ ∧
      entries.map DirEntry.name = ts.map CatalogTree.name ∧
      ∀ bytes, output ++ out <+: bytes → bytes.length < 2 ^ 64 →
        EntriesReadAs bytes entries ts := by
  match ts with
  | [] => exact ⟨[], [], by simp [CatalogTree.listToOps, run], rfl, fun _ _ _ => trivial⟩
  | t :: ts =>
    obtain ⟨entry, out₁, hrun₁, hname, hread₁⟩ := run_toOps t hnames.1 output dir stack
    obtain ⟨entries, out₂, hrun₂, hmap, hread₂⟩ :=
      run_listToOps ts hnames.2 (output ++ out₁) (dir.push entry) stack
    refine ⟨entry :: entries, out₁ ++ out₂, ?_, by simp [hname, hmap], ?_⟩
    · rw [CatalogTree.listToOps, run_append, hrun₁, Except.ok_bind, hrun₂]
      simp [DirInfo.push]
    · intro bytes hpre hbytes
      rw [← List.append_assoc] at hpre
      exact ⟨hread₁ bytes ((List.prefix_append _ _).trans hpre) hbytes, hread₂ bytes hpre hbytes⟩

end

theorem CatalogWriter.new_eq :
    CatalogWriter.new = ⟨catalogFileMagic, [DirInfo.newRootdir],
      UInt64.ofNat catalogFileMagic.length⟩ := rfl

theorem CatalogWriter.finish_eq (output : List UInt8) (dir : DirInfo) (pos : UInt64) :
    (⟨output, [dir], pos⟩ : CatalogWriter).finish =
      .ok ⟨output ++ (dir.encode pos).2 ++ LittleEndian.toBytes 8 pos.toNat, [],
        pos + UInt64.ofNat (dir.encode pos).2.length + UInt64.ofNat 8⟩ := by
  simp [CatalogWriter.finish, CatalogWriter.writeAll]

/-- `root` of a catalog that begins with the magic and ends with the eight bytes of `start`. -/
theorem CatalogReader.root_eq (body : List UInt8) (start : UInt64) :
    CatalogReader.root (catalogFileMagic ++ body ++ LittleEndian.toBytes 8 start.toNat) =
      .ok ⟨[], .directory start⟩ := by
  have hmagic : readExact 8 (catalogFileMagic ++ body ++ LittleEndian.toBytes 8 start.toNat) =
      .ok (catalogFileMagic, body ++ LittleEndian.toBytes 8 start.toNat) := by
    rw [List.append_assoc]
    exact readExact_append catalogFileMagic _
  have hlast : readExact 8 ((catalogFileMagic ++ body ++ LittleEndian.toBytes 8 start.toNat).drop
      ((catalogFileMagic ++ body ++ LittleEndian.toBytes 8 start.toNat).length - 8)) =
      .ok (LittleEndian.toBytes 8 start.toNat, []) := by
    rw [List.length_append, LittleEndian.length_toBytes, Nat.add_sub_cancel, List.drop_left]
    simpa using readExact_append (LittleEndian.toBytes 8 start.toNat) []
  have hstart : UInt64.ofNat (LittleEndian.ofBytes (LittleEndian.toBytes 8 start.toNat)) =
      start := by
    rw [LittleEndian.ofBytes_toBytes_of_lt (by simpa using start.toNat_lt), UInt64.ofNat_toNat]
  simp only [CatalogReader.root, hmagic, hlast]
  simp [hstart]

/-- The round trip of a catalog. After the calls for any trees whose names are shorter than
4096 bytes, `finish` succeeds; and when the catalog is shorter than `2 ^ 64` bytes, `root`
designates a directory whose `read_dir` lists the trees' top entries in order, each entry the
same as its tree: the same name, the same type, size and modification time, and for a
directory a start at a block that lists exactly its subtrees. -/
theorem finish_reads_back (trees : List CatalogTree) (hnames : CatalogTree.ListNamesShort trees) :
    ∃ w, (CatalogWriter.new.run (CatalogTree.listToOps trees) >>= CatalogWriter.finish) = .ok w ∧
      (w.output.length < 2 ^ 64 → ∃ root, CatalogReader.root w.output = .ok root ∧
        root.attr.entryType = .directory ∧ ∃ entries,
          CatalogReader.readDir w.output root = .ok entries ∧ EntriesReadAs w.output entries trees) := by
  obtain ⟨entries, out, hrun, hmap, hread⟩ :=
    run_listToOps trees hnames catalogFileMagic DirInfo.newRootdir []
  -- the root directory's block starts after everything the calls wrote
  obtain ⟨start, hstart⟩ : ∃ start, start = UInt64.ofNat (catalogFileMagic ++ out).length :=
    ⟨_, rfl⟩
  refine ⟨_, by rw [CatalogWriter.new_eq, hrun, Except.ok_bind, CatalogWriter.finish_eq], ?_⟩
  intro hbytes
  rw [← hstart] at hbytes ⊢
  have hroot := CatalogReader.root_eq (out ++ (DirInfo.encode ⟨DirInfo.newRootdir.name,
    DirInfo.newRootdir.entries ++ entries⟩ start).2) start
  simp only [List.append_assoc] at hroot hbytes ⊢
  refine ⟨_, hroot, rfl, entries, ?_, hread _ (List.prefix_append _ _) hbytes⟩
  -- the root's block, as any directory's
  have hentries : DirInfo.newRootdir.entries ++ entries = entries := rfl
  rw [hentries] at hbytes ⊢
  apply readDir_block _ ⟨DirInfo.newRootdir.name, entries⟩ start [] _ hbytes
    (names_short_of_map_name hmap hnames)
  have hlen : (catalogFileMagic ++ out).length < 2 ^ 64 := by
    simp only [List.length_append] at hbytes ⊢
    omega
  rw [hstart, UInt64.toNat_ofNat', Nat.mod_eq_of_lt hlen, ← List.append_assoc, List.drop_left]
  exact List.prefix_append _ _

/-- The round trip of a catalog with one directory `a` that holds one file `b`. -/
theorem finish_reads_back_dir_with_file :
    CatalogTree.ListNamesShort [.directory [97] [.leaf [98] (.file 5 0)]] ∧
      ∃ w, (CatalogWriter.new.run (CatalogTree.listToOps [.directory [97] [.leaf [98] (.file 5 0)]]) >>=
          CatalogWriter.finish) = .ok w ∧
        (w.output.length < 2 ^ 64 → ∃ root, CatalogReader.root w.output = .ok root ∧
          root.attr.entryType = .directory ∧ ∃ entries,
            CatalogReader.readDir w.output root = .ok entries ∧
              EntriesReadAs w.output entries [.directory [97] [.leaf [98] (.file 5 0)]]) := by
  have hnames : CatalogTree.ListNamesShort [.directory [97] [.leaf [98] (.file 5 0)]] := by
    simp [CatalogTree.ListNamesShort, CatalogTree.NamesShort]
  exact ⟨hnames, finish_reads_back _ hnames⟩

end ProxmoxBackup
