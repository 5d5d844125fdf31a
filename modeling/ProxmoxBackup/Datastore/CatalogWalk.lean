import ProxmoxBackup.Datastore.Catalog

/-!
# Walking a catalog (`pbs-datastore/src/catalog.rs`)

`CatalogReader::dump_dir` and `CatalogReader::find` walk the directory tree of a catalog by
recursion: each directory entry of a block gives the start of its own block as the parent's start
less the entry's offset. A catalog is any file the reader is given; the writer's catalogs have
positive offsets, so every walk goes to lower starts and ends, but the reader checks neither that
the offset is positive nor, in `read_dir` and `lookup`, that it is at most the start.

The walks are modelled with fuel, the number of nested calls they may make; `none` is a walk that
did not end within it.

* `dumpDir_diverges` and `find_diverges`: a block whose first entry is a directory at offset `0`
  names itself, and the walk from it never ends, whatever the fuel.
* `catalogReader_walks_diverge`: such a catalog, and one whose directory offset is beyond its
  block's start, which `read_dir` and `lookup` turn into a start below zero (wrapped) with no
  error.
-/

namespace ProxmoxBackup

/-! ## Parsing with a callback that may not return -/

namespace DirInfo

variable {σ : Type}

/-- `parseLoop` for a callback that may abort (`none`), as `dump_dir`'s does when it recurses. -/
def parseLoopT (callback : σ → ParsedEntry → ExceptT String Option (σ × Bool)) :
    Nat → σ → List UInt8 → ExceptT String Option (σ × Bool × List UInt8)
  | 0, s, cursor => pure (s, true, cursor)
  | n + 1, s, cursor => do
    let (entry, cursor) ← parseEntry cursor
    let (s, cont) ← callback s entry
    if cont then parseLoopT callback n s cursor else pure (s, false, cursor)

/-- `parse` for a callback that may abort. -/
def parseT (data : List UInt8) (callback : σ → ParsedEntry → ExceptT String Option (σ × Bool))
    (init : σ) : ExceptT String Option σ := do
  let (entries, cursor) ← catalogDecodeU64 data
  let (s, finished, cursor) ← parseLoopT callback entries.toNat init cursor
  if finished ∧ cursor ≠ [] then throw "unable to parse whole catalog data block"
  pure s

/-- For a callback that returns, `parseT` is `parse`. -/
theorem parseLoopT_liftM (callback : σ → ParsedEntry → Except String (σ × Bool)) :
    ∀ (n : Nat) (s : σ) (cursor : List UInt8),
      (parseLoopT (fun s p => liftM (callback s p)) n s cursor).run =
        some (parseLoop callback n s cursor)
  | 0, _, _ => rfl
  | n + 1, s, cursor => by
    simp only [parseLoopT, parseLoop]
    cases hentry : parseEntry cursor with
    | error e => rfl
    | ok ec =>
      obtain ⟨entry, cursor'⟩ := ec
      simp only [ExceptT.liftM_ok_bind, Except.ok_bind]
      rw [ExceptT.run_bind, ExceptT.run_liftM_except]
      cases hcb : callback s entry with
      | error e => rfl
      | ok sc =>
        obtain ⟨s', cont⟩ := sc
        cases cont
        · rfl
        · exact parseLoopT_liftM callback n s' cursor'

theorem parseT_liftM (data : List UInt8) (callback : σ → ParsedEntry → Except String (σ × Bool))
    (init : σ) :
    (parseT data (fun s p => liftM (callback s p)) init).run = some (parse data callback init) := by
  unfold parseT parse
  cases hcount : catalogDecodeU64 data with
  | error e => rfl
  | ok kc =>
    obtain ⟨k, cursor⟩ := kc
    simp only [ExceptT.liftM_ok_bind, Except.ok_bind]
    rw [ExceptT.run_bind, parseLoopT_liftM]
    cases parseLoop callback k.toNat init cursor with
    | error e => rfl
    | ok r =>
      obtain ⟨s, finished, rest⟩ := r
      simp only [Option.bind_eq_bind, Option.bind_some, Except.ok_bind]
      by_cases hc : finished = true ∧ rest ≠ []
      · rw [if_pos hc, if_pos hc]
        rfl
      · rw [if_neg hc, if_neg hc]
        rfl

/-- A callback that aborts on the block's first entry makes the parse abort. -/
theorem parseT_of_first {data cursor rest : List UInt8} {k : UInt64} {entry : ParsedEntry}
    {callback : σ → ParsedEntry → ExceptT String Option (σ × Bool)} {init : σ}
    (hcount : catalogDecodeU64 data = .ok (k, cursor)) (hk : 0 < k.toNat)
    (hentry : parseEntry cursor = .ok (entry, rest)) (habort : (callback init entry).run = none) :
    (parseT data callback init).run = none := by
  obtain ⟨n, hn⟩ : ∃ n, k.toNat = n + 1 := ⟨k.toNat - 1, by omega⟩
  unfold parseT
  rw [hcount, ExceptT.liftM_ok_bind]
  refine ExceptT.run_bind_of_none ?_ _
  rw [hn, parseLoopT, hentry, ExceptT.liftM_ok_bind]
  exact ExceptT.run_bind_of_none habort _

end DirInfo

/-! ## The walks -/

/-- `pathpatterns::MatchType`. -/
inductive MatchType where
  | include
  | exclude
  deriving DecidableEq, Repr

/-- `DirEntry::get_file_mode`: the `pxar::mode` type bits of the entry, none for a hardlink. -/
def DirEntry.getFileMode (entry : DirEntry) : Option UInt32 :=
  match entry.attr with
  | .directory _ => some 0o040000
  | .file _ _ => some 0o100000
  | .symlink => some 0o120000
  | .hardlink => none
  | .blockDevice => some 0o060000
  | .charDevice => some 0o020000
  | .fifo => some 0o010000
  | .socket => some 0o140000

/-- `DirEntry::is_directory`. -/
def DirEntry.isDirectory (entry : DirEntry) : Bool :=
  match entry.attr with
  | .directory _ => true
  | _ => false

namespace CatalogReader

/-- One line `dump_dir` logs: the entry's path and what the parse read of it. -/
abbrev DumpLine := List (List UInt8) × ParsedEntry

/-- The callback `dump_dir` gives `DirInfo::parse` for the block at `start`: log the entry, and
for a directory check its offset and recurse (`recurse`) into its block. -/
def dumpEntry (recurse : List (List UInt8) → UInt64 → ExceptT String Option (List DumpLine))
    (pathPrefix : List (List UInt8)) (start : UInt64) (lines : List DumpLine) (p : ParsedEntry) :
    ExceptT String Option (List DumpLine × Bool) := do
  let path := pathPrefix ++ [p.name]
  let lines := lines ++ [(path, p)]
  match p.etype with
  | .directory =>
    if p.offset > start then
      let offset := p.offset
      throw s!"got wrong directory offset ({offset} > {start})"
    let sub ← recurse path (start - p.offset)
    pure (lines ++ sub, true)
  | _ => pure (lines, true)

/-- `CatalogReader::dump_dir` of the block at `start`, below the path `pathPrefix`, with at most
`fuel` nested calls: the lines it logs. -/
def dumpDir (bytes : List UInt8) :
    Nat → List (List UInt8) → UInt64 → ExceptT String Option (List DumpLine)
  | 0, _, _ => ExceptT.lift none
  | fuel + 1, pathPrefix, start => do
    let data ← readRawDirinfoBlock bytes start
    DirInfo.parseT data (dumpEntry (dumpDir bytes fuel) pathPrefix start) []

/-- `CatalogReader::dump`: `dump_dir` of the root, below the path `./`. -/
def dump (bytes : List UInt8) (fuel : Nat) : ExceptT String Option (List DumpLine) := do
  let rootEntry ← root bytes
  match rootEntry.attr with
  | .directory start => dumpDir bytes fuel [['.'.toUInt8]] start
  | _ => throw "unexpected root entry type, not a directory!"

variable {σ : Type}

/-- The body of the loop of `find` for the entry `e` of a directory whose path is `filePath`:
extend the path, skip an excluded entry, call `callback` on an included one, and recurse
(`recurse`) into a directory. -/
def findEntry (matchList : List UInt8 → Option UInt32 → Except String (Option MatchType))
    (callback : σ → List UInt8 → Except String σ)
    (recurse : DirEntry → List UInt8 → σ → ExceptT String Option σ) (filePath : List UInt8)
    (s : σ) (e : DirEntry) : ExceptT String Option σ := do
  let path := if e.name.head? = some '/'.toUInt8 then filePath ++ e.name
    else filePath ++ ['/'.toUInt8] ++ e.name
  match matchList path e.getFileMode with
  | .ok (some .exclude) => pure s
  | .ok (some .include) =>
    let s ← callback s path
    if e.isDirectory then recurse e path s else pure s
  | _ => if e.isDirectory then recurse e path s else pure s

/-- `CatalogReader::find` below `parent`, whose path is `filePath`, with at most `fuel` nested
calls. The match list and the callback are parameters; the callback's effects are a state. -/
def find (bytes : List UInt8)
    (matchList : List UInt8 → Option UInt32 → Except String (Option MatchType))
    (callback : σ → List UInt8 → Except String σ) :
    Nat → DirEntry → List UInt8 → σ → ExceptT String Option σ
  | 0, _, _, _ => ExceptT.lift none
  | fuel + 1, parent, filePath, s => do
    let entries ← readDir bytes parent
    entries.foldlM (findEntry matchList callback (find bytes matchList callback fuel) filePath) s

/-! ## Walks that do not end -/

/-- `read_dir` reads the block of the entry's start, whatever its name. -/
theorem readDir_directory (bytes name name' : List UInt8) (start : UInt64) :
    readDir bytes ⟨name, .directory start⟩ = readDir bytes ⟨name', .directory start⟩ := rfl

/-- A block whose first entry is a directory at offset `0` names itself: `dump_dir` of it never
ends. -/
theorem dumpDir_diverges {bytes data cursor rest name : List UInt8} {start k : UInt64}
    (hblock : readRawDirinfoBlock bytes start = .ok data)
    (hcount : catalogDecodeU64 data = .ok (k, cursor)) (hk : 0 < k.toNat)
    (hentry : DirInfo.parseEntry cursor = .ok (⟨.directory, name, 0, 0, 0⟩, rest)) :
    ∀ fuel pathPrefix, (dumpDir bytes fuel pathPrefix start).run = none := by
  intro fuel
  induction fuel with
  | zero => intro _; rfl
  | succ n ih =>
    intro pathPrefix
    rw [dumpDir, hblock, ExceptT.liftM_ok_bind]
    refine DirInfo.parseT_of_first hcount hk hentry ?_
    -- the entry's block is the block itself
    have hnot : ¬((0 : UInt64) > start) := by simp
    simp only [dumpEntry, if_neg hnot]
    rw [UInt64.sub_zero]
    exact ExceptT.run_bind_of_none (ih _) _

/-- The same catalog makes `find` never end, when the match list does not exclude the entry. -/
theorem find_diverges {bytes name : List UInt8} {start : UInt64} {e : DirEntry}
    {entries : List DirEntry}
    (hdir : readDir bytes ⟨name, .directory start⟩ = .ok (e :: entries))
    (he : e.attr = .directory start)
    {matchList : List UInt8 → Option UInt32 → Except String (Option MatchType)}
    (hmatch : ∀ path, matchList path (some 0o040000) = .ok none)
    (callback : σ → List UInt8 → Except String σ) :
    ∀ fuel parentName filePath (s : σ),
      (find bytes matchList callback fuel ⟨parentName, .directory start⟩ filePath s).run = none := by
  intro fuel
  induction fuel with
  | zero => intro _ _ _; rfl
  | succ n ih =>
    intro parentName filePath s
    rw [find, readDir_directory bytes parentName name, hdir, ExceptT.liftM_ok_bind,
      List.foldlM_cons]
    refine ExceptT.run_bind_of_none ?_ _
    obtain ⟨ename, eattr⟩ := e
    dsimp only at he
    subst he
    simp only [findEntry, DirEntry.getFileMode, hmatch, DirEntry.isDirectory, if_true]
    exact ih _ _ _

/-- A catalog whose root block, at byte `8`, holds one directory `a` at offset `0`. -/
def selfLoopCatalog : List UInt8 :=
  catalogFileMagic ++ [5, 1, 'd'.toUInt8, 1, 'a'.toUInt8, 0] ++ [8, 0, 0, 0, 0, 0, 0, 0]

/-- A catalog whose root block, at byte `8`, holds one directory `a` at offset `9`. -/
def underflowCatalog : List UInt8 :=
  catalogFileMagic ++ [5, 1, 'd'.toUInt8, 1, 'a'.toUInt8, 9] ++ [8, 0, 0, 0, 0, 0, 0, 0]

/-- `dump` and `find` never end on `selfLoopCatalog`, and on `underflowCatalog` `read_dir` and
`lookup` take `8 - 9` as the start of `a`'s block, wrapped to `2 ^ 64 - 1`, with no error. -/
theorem catalogReader_walks_diverge :
    root selfLoopCatalog = .ok ⟨[], .directory 8⟩ ∧
      (∀ fuel, (dump selfLoopCatalog fuel).run = none) ∧
      (∀ fuel, (find selfLoopCatalog (fun _ _ => .ok none) (fun (u : Unit) _ => .ok u) fuel
        ⟨[], .directory 8⟩ [] ()).run = none) ∧
      root underflowCatalog = .ok ⟨[], .directory 8⟩ ∧
      readDir underflowCatalog ⟨[], .directory 8⟩ =
        .ok [⟨['a'.toUInt8], .directory 18446744073709551615⟩] ∧
      lookup underflowCatalog ⟨[], .directory 8⟩ ['a'.toUInt8] =
        .ok (some ⟨['a'.toUInt8], .directory 18446744073709551615⟩) := by
  have hroot : root selfLoopCatalog = .ok ⟨[], .directory 8⟩ := by decide +kernel
  have hblock : readRawDirinfoBlock selfLoopCatalog 8 = .ok [1, 'd'.toUInt8, 1, 'a'.toUInt8, 0] := by
    decide +kernel
  have hcount : catalogDecodeU64 [1, 'd'.toUInt8, 1, 'a'.toUInt8, 0] =
      .ok (1, ['d'.toUInt8, 1, 'a'.toUInt8, 0]) := by decide +kernel
  have hentry : DirInfo.parseEntry ['d'.toUInt8, 1, 'a'.toUInt8, 0] =
      .ok (⟨.directory, ['a'.toUInt8], 0, 0, 0⟩, []) := rfl
  have hdir : readDir selfLoopCatalog ⟨[], .directory 8⟩ = .ok [⟨['a'.toUInt8], .directory 8⟩] := by
    decide +kernel
  refine ⟨hroot, fun fuel => ?_, fun fuel => ?_, by decide +kernel, by decide +kernel,
    by decide +kernel⟩
  · rw [dump, hroot, ExceptT.liftM_ok_bind]
    exact dumpDir_diverges hblock hcount (by decide) hentry fuel _
  · exact find_diverges hdir rfl (fun _ => rfl) _ fuel [] [] ()

end CatalogReader

end ProxmoxBackup
