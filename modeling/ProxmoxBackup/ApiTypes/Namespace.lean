import Mathlib.Data.List.Infix
import Mathlib.Data.String.Basic
import ProxmoxBackup.Foundations.Except

/-!
# Namespaces and snapshot names (`pbs-api-types/src/datastore.rs`)

A `BackupNamespace` is the list of its components, each a safe id, with the length of its name
(`a/b/c`) cached in `len`. `push` checks a component and the limits and updates the cached length;
`new` parses a name and `from_path` a path (`ns/a/ns/b/ns/c`) by pushing their components, and
`pop`, `parent`, `from_parent_ns` and `map_prefix` are built on `push` and `pop`.
`print_ns_and_snapshot` and `parse_ns_and_snapshot` write and read a snapshot below a namespace
(`ns/a/ns/b/vm/100/2020-06-15T05:18:33Z`).

Text is modelled as `List Char`; `len` counts bytes (`String::len`), which is `String.utf8Len`. Positions
in a text are counted in characters, consistently where they are found and where the text is
cut.

The invariant of a namespace is `Valid`: pushing its components onto the root namespace gives it
back, so each passed the checks of `push` and the cached length is the one `push` computes.

* `Reachable.valid`: every namespace built by `new`, `from_path`, `push`, `pop`, `parent`,
  `from_parent_ns` and `map_prefix` is valid.
* `Valid.nameLen_eq`, `Valid.new_name`, `Valid.fromPath_path`: a valid namespace's cached length
  is the length of its name, and `new` of its name and `from_path` of its path give it back.
* `Valid.parse_print`: `parse_ns_and_snapshot` reads back what `print_ns_and_snapshot` writes for
  a valid namespace and a snapshot whose time the time functions write and read back.
-/

namespace ProxmoxBackup.ApiTypes

/-- `MAX_NAMESPACE_DEPTH` and `MAX_BACKUP_NAMESPACE_LENGTH`; their definitions are not part of
this source tree, so they are parameters. -/
structure NamespaceLimits where
  maxNamespaceDepth : Nat
  maxBackupNamespaceLength : Nat

/-- `PROXMOX_SAFE_ID_REGEX`, and `BACKUP_ID_RE`, the same pattern:
`^[A-Za-z0-9_][A-Za-z0-9._\-]*$`. -/
def matchesSafeId : List Char → Bool
  | [] => false
  | c :: cs => (c.isAlphanum || c = '_') && cs.all fun c => c.isAlphanum || c = '.' || c = '_' || c = '-'

/-- The `{:?}` rendering of a text in an error message. -/
def debugStr (s : List Char) : String := "\"" ++ String.ofList s ++ "\""

/-- `BackupNamespace`. -/
structure BackupNamespace where
  inner : List (List Char)
  len : Nat
  deriving DecidableEq, Repr

namespace BackupNamespace

variable (limits : NamespaceLimits)

/-- `BackupNamespace::root`. -/
def root : BackupNamespace := ⟨[], 0⟩

/-- `BackupNamespace::is_root`. -/
def isRoot (ns : BackupNamespace) : Bool := ns.inner.isEmpty

/-- `BackupNamespace::depth`. -/
def depth (ns : BackupNamespace) : Nat := ns.inner.length

/-- `BackupNamespace::name_len`. -/
def nameLen (ns : BackupNamespace) : Nat := ns.len

/-- `BackupNamespace::recalculate_len`: a slash between each two components, and the components. -/
def recalculateLen (inner : List (List Char)) : Nat :=
  inner.foldl (fun len part => len + String.utf8Len part) (max inner.length 1 - 1)

/-- `BackupNamespace::push_do`: the depth, the length and the component are checked, and the
separating slash counts from the second component on. -/
def pushDo (ns : BackupNamespace) (subdir : List Char) : Except String BackupNamespace := do
  let depth := ns.depth
  if depth ≥ limits.maxNamespaceDepth then
    let max := limits.maxNamespaceDepth
    throw s!"namespace too deep, {depth} >= max {max}"
  if ns.len + String.utf8Len subdir + 1 > limits.maxBackupNamespaceLength then
    throw "namespace length exceeded"
  if !matchesSafeId subdir then
    throw ("not a valid namespace component: " ++ String.ofList subdir)
  let len := (if ns.inner.isEmpty then ns.len else ns.len + 1) + String.utf8Len subdir
  pure ⟨ns.inner ++ [subdir], len⟩

/-- `BackupNamespace::push`. -/
def push (ns : BackupNamespace) (subdir : List Char) : Except String BackupNamespace :=
  if '/' ∈ subdir then throw "namespace component contained a slash" else ns.pushDo limits subdir

/-- The loop `for name in names { this.push(name)? }` of `new` and `map_prefix`. -/
def pushAll (ns : BackupNamespace) (names : List (List Char)) : Except String BackupNamespace :=
  names.foldlM (fun this name => this.push limits name) ns

/-- `BackupNamespace::new`: the components of a name between its slashes. -/
def new (name : List Char) : Except String BackupNamespace :=
  if name.isEmpty then pure root else pushAll limits root (name.splitOn '/')

/-- The loop of `BackupNamespace::from_path`: strip `ns/`, then push up to the next slash. -/
def fromPathLoop (this : BackupNamespace) (path : List Char) : Except String BackupNamespace :=
  match path with
  | 'n' :: 's' :: '/' :: next =>
    match next.idxOf? '/' with
    | some pos => do
      let this ← this.push limits (next.take pos)
      fromPathLoop this (next.drop (pos + 1))
    | none => this.push limits next
  | _ =>
    if path.isEmpty then pure this
    else throw ("invalid component in namespace path at " ++ debugStr path)
termination_by path.length
decreasing_by simp only [List.length_drop, List.length_cons]; omega

/-- `BackupNamespace::from_path`. -/
def fromPath (path : List Char) : Except String BackupNamespace := fromPathLoop limits root path

/-- `BackupNamespace::from_parent_ns`. -/
def fromParentNs (parent : BackupNamespace) (name : List Char) : Except String BackupNamespace :=
  parent.push limits name

/-- `BackupNamespace::pop`: the component dropped, and the namespace without it; the length
goes down by the component and its slash, but not below `0` (`saturating_sub`). -/
def pop (ns : BackupNamespace) : Option (List Char) × BackupNamespace :=
  match ns.inner.getLast? with
  | some dropped => (some dropped, ⟨ns.inner.dropLast, ns.len - (String.utf8Len dropped + 1)⟩)
  | none => (none, ns)

/-- `BackupNamespace::parent`. -/
def parent (ns : BackupNamespace) : BackupNamespace :=
  if ns.isRoot then root else ns.pop.2

/-- `Display for BackupNamespace`, which `name` returns: the components between slashes. -/
def name (ns : BackupNamespace) : List Char := ['/'].intercalate ns.inner

/-- `Display for BackupNamespacePath`: `ns/` before the first component, `/ns/` before each
later one. -/
def pathParts : List Char → List (List Char) → List Char
  | _, [] => []
  | sep, part :: parts => sep ++ part ++ pathParts "/ns/".toList parts

/-- `BackupNamespace::display_as_path`, and `path`, its text. -/
def displayAsPath (ns : BackupNamespace) : List Char := pathParts "ns/".toList ns.inner

/-- `BackupNamespace::map_prefix`: the components after `source` pushed onto `target`. -/
def mapPrefix (ns source target : BackupNamespace) : Except String BackupNamespace :=
  if source.inner <+: ns.inner then pushAll limits target (ns.inner.drop source.inner.length)
  else
    throw ("Failed to map namespace - " ++ String.ofList source.name ++
      " is not a valid prefix of " ++ String.ofList ns.name)

end BackupNamespace

/-! ## Snapshots -/

/-- `BackupType`. -/
inductive BackupType where
  | vm
  | ct
  | host
  deriving DecidableEq, Repr

namespace BackupType

/-- `BackupType::as_str`, which `Display` writes. -/
def asStr : BackupType → List Char
  | .vm => "vm".toList
  | .ct => "ct".toList
  | .host => "host".toList

/-- `FromStr for BackupType`. -/
def fromStr (ty : List Char) : Except String BackupType :=
  if ty = "ct".toList then .ok .ct
  else if ty = "host".toList then .ok .host
  else if ty = "vm".toList then .ok .vm
  else .error ("invalid backup type " ++ debugStr ty)

end BackupType

/-- `BackupGroup`. -/
structure BackupGroup where
  ty : BackupType
  id : List Char
  deriving DecidableEq, Repr

/-- `BackupDir`: a group and the backup time. -/
structure BackupDir where
  group : BackupGroup
  time : Int
  deriving DecidableEq, Repr

/-- The functions of `proxmox_time` that snapshot names use: they are not part of this source
tree. -/
structure Rfc3339 where
  epochToRfc3339Utc : Int → Except String (List Char)
  parseRfc3339 : List Char → Except String Int

/-- `BACKUP_TYPE_RE`: `cloud`, `host`, `vm` or `ct`. -/
def matchesBackupType (s : List Char) : Bool :=
  s ∈ ["cloud".toList, "host".toList, "vm".toList, "ct".toList]

/-- `BACKUP_TIME_RE`: `[0-9]{4}-[0-9]{2}-[0-9]{2}T[0-9]{2}:[0-9]{2}:[0-9]{2}Z`. -/
def matchesBackupTime : List Char → Bool
  | [y₁, y₂, y₃, y₄, '-', m₁, m₂, '-', d₁, d₂, 'T', h₁, h₂, ':', i₁, i₂, ':', s₁, s₂, 'Z'] =>
    [y₁, y₂, y₃, y₄, m₁, m₂, d₁, d₂, h₁, h₂, i₁, i₂, s₁, s₂].all Char.isDigit
  | _ => false

/-- The captures of `SNAPSHOT_PATH_REGEX`, `^(type)/(id)/(time)$`. None of the three patterns
matches a slash, so the captures are the three parts between the slashes. -/
def snapshotPathCaptures (path : List Char) : Option (List Char × List Char × List Char) :=
  match path.splitOn '/' with
  | [ty, id, time] =>
    if matchesBackupType ty && matchesSafeId id && matchesBackupTime time then some (ty, id, time)
    else none
  | _ => none

namespace BackupDir

/-- `Display for BackupDir`: `type/id/time`; it fails where the time cannot be written. -/
def fmt (codec : Rfc3339) (dir : BackupDir) : Except String (List Char) := do
  let time ← codec.epochToRfc3339Utc dir.time
  pure (dir.group.ty.asStr ++ '/' :: dir.group.id ++ '/' :: time)

/-- `BackupDir::to_string`, which panics (`none`) where `Display` fails. -/
def toString? (codec : Rfc3339) (dir : BackupDir) : Option (List Char) := (dir.fmt codec).toOption

/-- `FromStr for BackupDir`, through `BackupDir::with_rfc3339`. -/
def fromStr (codec : Rfc3339) (path : List Char) : Except String BackupDir := do
  let some (ty, id, time) := snapshotPathCaptures path
    | throw ("unable to parse backup snapshot path '" ++ String.ofList path ++ "'")
  let ty ← BackupType.fromStr ty
  let time ← codec.parseRfc3339 time
  pure ⟨⟨ty, id⟩, time⟩

end BackupDir

/-- `rmatch_indices('/')`: the positions of the slashes, last first. -/
def rmatchSlash (input : List Char) : List Nat :=
  ((input.zipIdx.filter fun p => p.1 = '/').map Prod.snd).reverse

/-- `parse_ns_and_snapshot`: the namespace path before the third slash from the end, and the
snapshot after it. -/
def parseNsAndSnapshot (limits : NamespaceLimits) (codec : Rfc3339) (input : List Char) :
    Except String (BackupNamespace × BackupDir) :=
  match (rmatchSlash input)[2]? with
  | some idx => do
    let ns ← BackupNamespace.fromPath limits (input.take idx)
    let dir ← BackupDir.fromStr codec (input.drop (idx + 1))
    pure (ns, dir)
  | none => do
    let dir ← BackupDir.fromStr codec input
    pure (BackupNamespace.root, dir)

/-- `print_ns_and_snapshot`, which panics (`none`) where the snapshot cannot be written. -/
def printNsAndSnapshot (codec : Rfc3339) (ns : BackupNamespace) (dir : BackupDir) :
    Option (List Char) :=
  if ns.isRoot then dir.toString? codec
  else (dir.toString? codec).map fun text => ns.displayAsPath ++ '/' :: text

end ProxmoxBackup.ApiTypes

namespace ProxmoxBackup.ApiTypes

/-! ## `push` and the loops built on it -/

namespace BackupNamespace

variable {limits : NamespaceLimits}

/-- A successful `push` appends a component without slash that is a safe id, within the limits,
and adds its length and, after the first component, the separating slash. -/
theorem push_eq_ok {ns ns' : BackupNamespace} {subdir : List Char} :
    ns.push limits subdir = .ok ns' ↔
      '/' ∉ subdir ∧ ns.depth < limits.maxNamespaceDepth ∧
        ns.len + String.utf8Len subdir + 1 ≤ limits.maxBackupNamespaceLength ∧
        matchesSafeId subdir = true ∧
        ns' = ⟨ns.inner ++ [subdir],
          (if ns.inner.isEmpty then ns.len else ns.len + 1) + String.utf8Len subdir⟩ := by
  unfold push pushDo
  by_cases hslash : '/' ∈ subdir
  · simp [hslash]
  · simp only [hslash, if_false, not_false_eq_true, true_and]
    by_cases hdepth : ns.depth ≥ limits.maxNamespaceDepth
    · simp only [if_pos hdepth, Except.throw_eq_error, Except.error_bind, reduceCtorEq, false_iff]
      exact fun h => absurd h.1 (by omega)
    · rw [if_neg hdepth]
      by_cases hlen : ns.len + String.utf8Len subdir + 1 > limits.maxBackupNamespaceLength
      · simp only [if_pos hlen, Except.throw_eq_error, Except.error_bind, reduceCtorEq, false_iff]
        exact fun h => absurd h.2.1 (by omega)
      · rw [if_neg hlen]
        cases hsafe : matchesSafeId subdir
        · simp
        · simp only [Bool.not_true, Bool.false_eq_true, if_false, Except.pure_eq_ok, Except.ok.injEq]
          constructor
          · rintro rfl
            exact ⟨by omega, by omega, trivial, rfl⟩
          · rintro ⟨-, -, -, rfl⟩
            rfl

@[simp] theorem pushAll_nil (ns : BackupNamespace) : pushAll limits ns [] = .ok ns := rfl

theorem pushAll_cons (ns : BackupNamespace) (c : List Char) (cs : List (List Char)) :
    pushAll limits ns (c :: cs) = (ns.push limits c >>= fun ns => pushAll limits ns cs) := rfl

@[simp] theorem pushAll_singleton (ns : BackupNamespace) (c : List Char) :
    pushAll limits ns [c] = ns.push limits c := by
  rw [pushAll_cons]
  cases ns.push limits c <;> rfl

theorem pushAll_append (ns : BackupNamespace) (cs ds : List (List Char)) :
    pushAll limits ns (cs ++ ds) = (pushAll limits ns cs >>= fun ns => pushAll limits ns ds) :=
  List.foldlM_append

/-- A successful `pushAll` appends its components, each a safe id without slash. -/
theorem pushAll_eq_ok {ns ns' : BackupNamespace} {cs : List (List Char)}
    (h : pushAll limits ns cs = .ok ns') :
    ns'.inner = ns.inner ++ cs ∧ ∀ c ∈ cs, '/' ∉ c ∧ matchesSafeId c = true := by
  induction cs generalizing ns with
  | nil =>
    cases h
    simp
  | cons c cs ih =>
    obtain ⟨ns₁, h₁, h⟩ := Except.bind_eq_ok.1 h
    obtain ⟨hslash, -, -, hsafe, rfl⟩ := push_eq_ok.1 h₁
    obtain ⟨hinner, hcs⟩ := ih h
    refine ⟨by simp [hinner], ?_⟩
    rintro d (_ | ⟨_, hd⟩)
    · exact ⟨hslash, hsafe⟩
    · exact hcs d hd

/-! ## The cached length -/

theorem recalculateLen_eq (inner : List (List Char)) :
    recalculateLen inner = (max inner.length 1 - 1) + (inner.map String.utf8Len).sum := by
  suffices ∀ k, inner.foldl (fun len part => len + String.utf8Len part) k =
      k + (inner.map String.utf8Len).sum from this _
  induction inner with
  | nil => simp
  | cons c cs ih =>
    intro k
    simp only [List.foldl_cons, ih, List.map_cons, List.sum_cons]
    omega

/-- The length `push` caches is the one `recalculate_len` computes from the new components. -/
theorem recalculateLen_concat (inner : List (List Char)) (c : List Char) :
    recalculateLen (inner ++ [c]) =
      (if inner.isEmpty then recalculateLen inner else recalculateLen inner + 1) + String.utf8Len c := by
  cases inner with
  | nil => simp [recalculateLen_eq]
  | cons d ds =>
    simp only [recalculateLen_eq, List.cons_append, List.length_cons, List.length_append,
      List.map_cons, List.map_append, List.sum_cons, List.sum_append, List.isEmpty_cons]
    simp
    omega

/-- The name is as long as `recalculate_len` says: its components and a slash between each two. -/
theorem utf8Len_name (ns : BackupNamespace) : String.utf8Len ns.name = recalculateLen ns.inner := by
  rw [name, recalculateLen_eq]
  induction ns.inner with
  | nil => rfl
  | cons c cs ih =>
    cases cs with
    | nil => simp
    | cons d ds =>
      have hslash : String.utf8Len ['/'] = 1 := rfl
      simp only [List.intercalate_cons_cons, String.utf8Len_append, hslash, ih, List.length_cons,
        List.map_cons, List.sum_cons]
      omega

/-! ## The invariant -/

/-- A valid namespace is the one its components give when pushed onto the root namespace: each
passed the checks of `push`, and the cached length is the one `push` computes. -/
def Valid (limits : NamespaceLimits) (ns : BackupNamespace) : Prop :=
  pushAll limits root ns.inner = .ok ns

theorem valid_root (limits : NamespaceLimits) : Valid limits root := rfl

theorem Valid.pushAll {ns ns' : BackupNamespace} {cs : List (List Char)} (hv : Valid limits ns)
    (h : pushAll limits ns cs = .ok ns') : Valid limits ns' := by
  unfold Valid
  rw [(pushAll_eq_ok h).1, pushAll_append, hv, Except.ok_bind, h]

theorem Valid.push {ns ns' : BackupNamespace} {subdir : List Char} (hv : Valid limits ns)
    (h : ns.push limits subdir = .ok ns') : Valid limits ns' :=
  hv.pushAll (show BackupNamespace.pushAll limits ns [subdir] = .ok ns' by simp [pushAll_cons, h])

/-- The components of a valid namespace are safe ids without slash. -/
theorem Valid.mem_inner {ns : BackupNamespace} (hv : Valid limits ns) :
    ∀ c ∈ ns.inner, '/' ∉ c ∧ matchesSafeId c = true :=
  (pushAll_eq_ok hv).2

/-- The cached length of a valid namespace is the one `recalculate_len` computes. -/
theorem Valid.len_eq {ns : BackupNamespace} (hv : Valid limits ns) :
    ns.len = recalculateLen ns.inner := by
  suffices ∀ {ns₀ : BackupNamespace} {cs}, ns₀.len = recalculateLen ns₀.inner →
      BackupNamespace.pushAll limits ns₀ cs = .ok ns → ns.len = recalculateLen ns.inner from
    this rfl hv
  intro ns₀ cs h₀ h
  induction cs generalizing ns₀ with
  | nil =>
    cases h
    exact h₀
  | cons c cs ih =>
    obtain ⟨ns₁, h₁, h⟩ := Except.bind_eq_ok.1 h
    obtain ⟨-, -, -, -, rfl⟩ := push_eq_ok.1 h₁
    refine ih ?_ h
    rw [recalculateLen_concat, h₀]

/-- `pop` undoes a `push` onto a namespace whose cached length is right: the saturating
subtraction takes the length of a single component down to `0`. -/
theorem pop_of_push {ns ns' : BackupNamespace} {c : List Char} (h : ns.push limits c = .ok ns')
    (hlen : ns.len = recalculateLen ns.inner) : ns'.pop = (some c, ns) := by
  obtain ⟨-, -, -, -, rfl⟩ := push_eq_ok.1 h
  rw [BackupNamespace.pop, List.getLast?_concat, List.dropLast_concat]
  obtain ⟨inner, len⟩ := ns
  cases inner with
  | nil =>
    simp only [recalculateLen_eq] at hlen
    simp [hlen]
  | cons d ds =>
    simp only [List.isEmpty_cons, Bool.false_eq_true, if_false, Prod.mk.injEq, true_and]
    congr 1
    omega

theorem Valid.pop {ns : BackupNamespace} (hv : Valid limits ns) : Valid limits ns.pop.2 := by
  rcases List.eq_nil_or_concat ns.inner with hnil | ⟨init, c, hinit⟩
  · simp [BackupNamespace.pop, hnil, hv]
  · rw [List.concat_eq_append] at hinit
    have h := hv
    rw [Valid, hinit, pushAll_append] at h
    obtain ⟨ns₀, h₀, h₁⟩ := Except.bind_eq_ok.1 h
    rw [pushAll_singleton] at h₁
    have hv₀ : Valid limits ns₀ := by
      have hinner₀ : ns₀.inner = init := by simpa [root] using (pushAll_eq_ok h₀).1
      rw [Valid, hinner₀]
      exact h₀
    rw [pop_of_push h₁ hv₀.len_eq]
    exact hv₀

theorem Valid.parent {ns : BackupNamespace} (hv : Valid limits ns) : Valid limits ns.parent := by
  unfold BackupNamespace.parent
  split
  · exact valid_root limits
  · exact hv.pop

theorem valid_of_new {name : List Char} {ns : BackupNamespace} (h : new limits name = .ok ns) :
    Valid limits ns := by
  unfold new at h
  split at h
  · cases h
    exact valid_root limits
  · exact (valid_root limits).pushAll h

/-! ## `from_path` -/

theorem fromPathLoop_nil (this : BackupNamespace) : fromPathLoop limits this [] = .ok this := by
  rw [fromPathLoop.eq_def]
  rfl

theorem fromPathLoop_of_idxOf?_some {this : BackupNamespace} {next : List Char} {pos : Nat}
    (h : next.idxOf? '/' = some pos) :
    fromPathLoop limits this ('n' :: 's' :: '/' :: next) =
      (this.push limits (next.take pos) >>= fun this => fromPathLoop limits this (next.drop (pos + 1))) := by
  rw [fromPathLoop, h]

theorem fromPathLoop_of_idxOf?_none {this : BackupNamespace} {next : List Char}
    (h : next.idxOf? '/' = none) :
    fromPathLoop limits this ('n' :: 's' :: '/' :: next) = this.push limits next := by
  rw [fromPathLoop, h]

/-- What `from_path` reads, it pushes component by component. -/
theorem fromPathLoop_eq_ok {this ns : BackupNamespace} {path : List Char}
    (h : fromPathLoop limits this path = .ok ns) : ∃ cs, pushAll limits this cs = .ok ns := by
  induction this, path using fromPathLoop.induct with
  | case1 this next pos hpos ih =>
    rw [fromPathLoop_of_idxOf?_some hpos] at h
    obtain ⟨this₁, h₁, h⟩ := Except.bind_eq_ok.1 h
    obtain ⟨cs, hcs⟩ := ih this₁ h
    exact ⟨next.take pos :: cs, by rw [pushAll_cons, h₁, Except.ok_bind, hcs]⟩
  | case2 this next hpos =>
    rw [fromPathLoop_of_idxOf?_none hpos] at h
    exact ⟨[next], by rw [pushAll_singleton, h]⟩
  | case3 this path hempty _ =>
    rw [List.isEmpty_iff.1 hempty, fromPathLoop_nil] at h
    exact ⟨[], h⟩
  | case4 this path hne hns =>
    rw [fromPathLoop.eq_def] at h
    split at h
    next next => exact absurd rfl (hns next)
    next => simp [hne] at h

theorem valid_of_fromPath {path : List Char} {ns : BackupNamespace} (h : fromPath limits path = .ok ns) :
    Valid limits ns := by
  obtain ⟨cs, hcs⟩ := fromPathLoop_eq_ok h
  exact (valid_root limits).pushAll hcs

/-- The first slash of a component without slash followed by a slash is the one after it. -/
theorem idxOf?_slash {c : List Char} (rest : List Char) (hc : '/' ∉ c) :
    (c ++ '/' :: rest).idxOf? '/' = some c.length := by
  induction c with
  | nil => simp [List.idxOf?_cons]
  | cons x c ih =>
    have hx : x ≠ '/' := fun h => hc (h ▸ List.mem_cons_self)
    simp [List.idxOf?_cons, hx, ih (fun h => hc (List.mem_cons_of_mem _ h))]

/-- `from_path` reads a path that `BackupNamespacePath` writes by pushing its components. -/
theorem fromPathLoop_pathParts (this : BackupNamespace) {cs : List (List Char)}
    (hcs : ∀ c ∈ cs, '/' ∉ c) :
    fromPathLoop limits this (pathParts "ns/".toList cs) = pushAll limits this cs := by
  induction cs generalizing this with
  | nil => exact fromPathLoop_nil this
  | cons c cs ih =>
    have hc : '/' ∉ c := hcs c List.mem_cons_self
    cases cs with
    | nil =>
      have hpath : pathParts "ns/".toList [c] = 'n' :: 's' :: '/' :: c := by simp [pathParts]
      rw [hpath, fromPathLoop_of_idxOf?_none (List.idxOf?_eq_none_iff.2 hc), pushAll_singleton]
    | cons d ds =>
      have hpath : pathParts "ns/".toList (c :: d :: ds) =
          'n' :: 's' :: '/' :: (c ++ '/' :: pathParts "ns/".toList (d :: ds)) := by
        simp [pathParts]
      have ih' : ∀ this, fromPathLoop limits this (pathParts "ns/".toList (d :: ds)) =
          pushAll limits this (d :: ds) :=
        fun this => ih this fun c' hc' => hcs c' (List.mem_cons_of_mem _ hc')
      have hdrop : (c ++ '/' :: pathParts "ns/".toList (d :: ds)).drop (c.length + 1) =
          pathParts "ns/".toList (d :: ds) := by simp
      rw [hpath, fromPathLoop_of_idxOf?_some (idxOf?_slash _ hc), pushAll_cons, List.take_left, hdrop]
      simp only [ih']

/-! ## Names and paths of valid namespaces -/

theorem Valid.eq_root {ns : BackupNamespace} (hv : Valid limits ns) (h : ns.inner = []) : ns = root := by
  rw [Valid, h, pushAll_nil, Except.ok.injEq] at hv
  exact hv.symm

theorem ne_nil_of_matchesSafeId {s : List Char} (h : matchesSafeId s = true) : s ≠ [] := by
  rintro rfl
  simp [matchesSafeId] at h

/-- The cached length of a valid namespace is the length of its name. -/
theorem Valid.nameLen_eq {ns : BackupNamespace} (hv : Valid limits ns) :
    ns.nameLen = String.utf8Len ns.name := by
  rw [nameLen, utf8Len_name, hv.len_eq]

/-- `new` reads back the name of a valid namespace. -/
theorem Valid.new_name {ns : BackupNamespace} (hv : Valid limits ns) : new limits ns.name = .ok ns := by
  unfold new
  cases hinner : ns.inner with
  | nil =>
    rw [hv.eq_root hinner]
    rfl
  | cons c cs =>
    have hc := hv.mem_inner c (by simp [hinner])
    have hlen : 0 < String.utf8Len ns.name := by
      rw [utf8Len_name, recalculateLen_eq, hinner]
      have : String.utf8Len c ≠ 0 := by simpa using ne_nil_of_matchesSafeId hc.2
      simp only [List.map_cons, List.sum_cons]
      omega
    have hne : ns.name.isEmpty = false := by
      cases hname : ns.name with
      | nil => simp [hname] at hlen
      | cons _ _ => rfl
    rw [hne, if_neg Bool.false_ne_true, name, List.splitOn_intercalate]
    · exact hv
    · exact fun l hl => (hv.mem_inner l hl).1
    · simp [hinner]

/-- `from_path` reads back the path of a valid namespace. -/
theorem Valid.fromPath_path {ns : BackupNamespace} (hv : Valid limits ns) :
    fromPath limits ns.displayAsPath = .ok ns := by
  rw [fromPath, displayAsPath, fromPathLoop_pathParts root fun c hc => (hv.mem_inner c hc).1]
  exact hv

/-! ## The namespaces the operations build -/

/-- The namespaces that `root`, `new`, `from_path`, `push`, `pop`, `parent`, `from_parent_ns` and
`map_prefix` build, in any order and from any inputs. A failed `push` leaves its namespace as it
was, which `push` returning an error models. -/
inductive Reachable (limits : NamespaceLimits) : BackupNamespace → Prop
  | root : Reachable limits root
  | new {name : List Char} {ns : BackupNamespace} : new limits name = .ok ns → Reachable limits ns
  | fromPath {path : List Char} {ns : BackupNamespace} :
      fromPath limits path = .ok ns → Reachable limits ns
  | push {ns ns' : BackupNamespace} {subdir : List Char} :
      Reachable limits ns → ns.push limits subdir = .ok ns' → Reachable limits ns'
  | pop {ns : BackupNamespace} : Reachable limits ns → Reachable limits ns.pop.2
  | parent {ns : BackupNamespace} : Reachable limits ns → Reachable limits ns.parent
  | fromParentNs {parent ns : BackupNamespace} {name : List Char} :
      Reachable limits parent → fromParentNs limits parent name = .ok ns → Reachable limits ns
  | mapPrefix {ns source target ns' : BackupNamespace} :
      Reachable limits ns → Reachable limits source → Reachable limits target →
        ns.mapPrefix limits source target = .ok ns' → Reachable limits ns'

theorem Valid.mapPrefix {ns source target ns' : BackupNamespace} (hv : Valid limits target)
    (h : ns.mapPrefix limits source target = .ok ns') : Valid limits ns' := by
  unfold BackupNamespace.mapPrefix at h
  split at h
  · exact hv.pushAll h
  · simp at h

/-- Every namespace the operations build is valid. -/
theorem Reachable.valid {ns : BackupNamespace} (h : Reachable limits ns) : Valid limits ns := by
  induction h with
  | root => exact valid_root limits
  | new h => exact valid_of_new h
  | fromPath h => exact valid_of_fromPath h
  | push _ h ih => exact ih.push h
  | pop _ ih => exact ih.pop
  | parent _ ih => exact ih.parent
  | fromParentNs _ h ih => exact ih.push h
  | mapPrefix _ _ _ h _ _ ih => exact ih.mapPrefix h

theorem Reachable.pushAll {ns ns' : BackupNamespace} {cs : List (List Char)} (hr : Reachable limits ns)
    (h : BackupNamespace.pushAll limits ns cs = .ok ns') : Reachable limits ns' := by
  induction cs generalizing ns with
  | nil =>
    cases h
    exact hr
  | cons c cs ih =>
    obtain ⟨ns₁, h₁, h⟩ := Except.bind_eq_ok.1 h
    exact ih (hr.push h₁) h

/-- The valid namespaces are exactly the ones the operations build. -/
theorem reachable_iff_valid {ns : BackupNamespace} : Reachable limits ns ↔ Valid limits ns :=
  ⟨Reachable.valid, fun hv => Reachable.root.pushAll hv⟩

end BackupNamespace

/-! ## Snapshot names -/

theorem slash_not_mem_of_matchesSafeId {s : List Char} (h : matchesSafeId s = true) : '/' ∉ s := by
  cases s with
  | nil => simp [matchesSafeId] at h
  | cons c cs =>
    simp only [matchesSafeId, Bool.and_eq_true, List.all_eq_true] at h
    rintro (_ | ⟨_, hmem⟩)
    · exact absurd h.1 (by decide)
    · exact absurd (h.2 '/' hmem) (by decide)

theorem slash_not_mem_of_matchesBackupTime {s : List Char} (h : matchesBackupTime s = true) :
    '/' ∉ s := by
  unfold matchesBackupTime at h
  split at h
  · simp only [List.all_cons, List.all_nil, Bool.and_true, Bool.and_eq_true] at h
    simp only [List.mem_cons, List.not_mem_nil, or_false, not_or]
    have hdigit : ∀ c : Char, c.isDigit = true → '/' ≠ c := by
      rintro c hc rfl
      exact absurd hc (by decide)
    refine ⟨?_, ?_, ?_, ?_, by decide, ?_, ?_, by decide, ?_, ?_, by decide, ?_, ?_, by decide, ?_, ?_,
      by decide, ?_, ?_, by decide⟩ <;> apply hdigit <;> simp only [h]
  · simp at h

theorem slash_not_mem_asStr (ty : BackupType) : '/' ∉ ty.asStr := by
  cases ty <;> decide

theorem matchesBackupType_asStr (ty : BackupType) : matchesBackupType ty.asStr = true := by
  cases ty <;> decide

theorem BackupType.fromStr_asStr (ty : BackupType) : BackupType.fromStr ty.asStr = .ok ty := by
  cases ty <;> rfl

/-- A snapshot path splits into its type, id and time at its two slashes. -/
theorem snapshotPathCaptures_eq {ty : BackupType} {id time : List Char} (hid : matchesSafeId id = true)
    (htime : matchesBackupTime time = true) :
    snapshotPathCaptures (ty.asStr ++ '/' :: id ++ '/' :: time) = some (ty.asStr, id, time) := by
  have hslash : ∀ l ∈ [ty.asStr, id, time], '/' ∉ l := by
    simp only [List.mem_cons, List.not_mem_nil, or_false]
    rintro l (rfl | rfl | rfl)
    · exact slash_not_mem_asStr ty
    · exact slash_not_mem_of_matchesSafeId hid
    · exact slash_not_mem_of_matchesBackupTime htime
  have hsplit : (ty.asStr ++ '/' :: id ++ '/' :: time).splitOn '/' = [ty.asStr, id, time] := by
    simpa using List.splitOn_intercalate '/' hslash (List.cons_ne_nil _ _)
  rw [snapshotPathCaptures, hsplit]
  simp [matchesBackupType_asStr, hid, htime]

/-- `FromStr for BackupDir` reads back what `Display` writes, where the time functions read back
the time they write. -/
theorem BackupDir.fromStr_fmt {codec : Rfc3339} {dir : BackupDir} {text : List Char}
    (hid : matchesSafeId dir.group.id = true) (htime : matchesBackupTime text = true)
    (hparse : codec.parseRfc3339 text = .ok dir.time) :
    BackupDir.fromStr codec (dir.group.ty.asStr ++ '/' :: dir.group.id ++ '/' :: text) = .ok dir := by
  rw [BackupDir.fromStr, snapshotPathCaptures_eq hid htime]
  simp [BackupType.fromStr_asStr, hparse]

/-- The positions of the slashes of a text whose first character is at position `k`, in order. -/
def slashPositions (l : List Char) (k : Nat) : List Nat :=
  ((l.zipIdx k).filter fun p => p.1 = '/').map Prod.snd

theorem rmatchSlash_eq (l : List Char) : rmatchSlash l = (slashPositions l 0).reverse := rfl

theorem slashPositions_append (l m : List Char) (k : Nat) :
    slashPositions (l ++ m) k = slashPositions l k ++ slashPositions m (k + l.length) := by
  simp [slashPositions, List.zipIdx_append]

theorem slashPositions_cons_slash (l : List Char) (k : Nat) :
    slashPositions ('/' :: l) k = k :: slashPositions l (k + 1) := by
  simp [slashPositions, List.zipIdx_cons]

theorem slashPositions_of_not_mem {l : List Char} (h : '/' ∉ l) (k : Nat) : slashPositions l k = [] := by
  rw [slashPositions, List.map_eq_nil_iff, List.filter_eq_nil_iff]
  intro p hp hslash
  exact h (of_decide_eq_true hslash ▸ List.fst_mem_of_mem_zipIdx hp)

/-- The two slashes of a snapshot path, after its type and after its id. -/
theorem slashPositions_snapshot {ty id time : List Char} (hty : '/' ∉ ty) (hid : '/' ∉ id)
    (htime : '/' ∉ time) (k : Nat) :
    slashPositions (ty ++ '/' :: id ++ '/' :: time) k =
      [k + ty.length, k + ty.length + 1 + id.length] := by
  simp only [List.append_assoc, List.cons_append, slashPositions_append, slashPositions_cons_slash,
    slashPositions_of_not_mem hty, slashPositions_of_not_mem hid, slashPositions_of_not_mem htime,
    List.nil_append]

/-- `parse_ns_and_snapshot` reads back what `print_ns_and_snapshot` writes for a valid namespace
and a snapshot with a safe id whose time the time functions write in the form of
`BACKUP_TIME_RE` and read back. -/
theorem parseNsAndSnapshot_print {limits : NamespaceLimits} {codec : Rfc3339} {ns : BackupNamespace}
    {dir : BackupDir} {text : List Char} (hv : ns.Valid limits) (hid : matchesSafeId dir.group.id = true)
    (hfmt : codec.epochToRfc3339Utc dir.time = .ok text) (htime : matchesBackupTime text = true)
    (hparse : codec.parseRfc3339 text = .ok dir.time) :
    ∃ out, printNsAndSnapshot codec ns dir = some out ∧
      parseNsAndSnapshot limits codec out = .ok (ns, dir) := by
  have hstr : dir.toString? codec = some (dir.group.ty.asStr ++ '/' :: dir.group.id ++ '/' :: text) := by
    simp only [BackupDir.toString?, BackupDir.fmt, hfmt, Except.ok_bind, Except.pure_eq_ok]
    rfl
  have hpos := slashPositions_snapshot (slash_not_mem_asStr dir.group.ty)
    (slash_not_mem_of_matchesSafeId hid) (slash_not_mem_of_matchesBackupTime htime)
  have hdir := BackupDir.fromStr_fmt hid htime hparse
  unfold printNsAndSnapshot
  by_cases hroot : ns.isRoot
  · -- the snapshot alone has two slashes, so it is read as a snapshot of the root namespace
    rw [if_pos hroot, hstr]
    refine ⟨_, rfl, ?_⟩
    have hnone : (rmatchSlash (dir.group.ty.asStr ++ '/' :: dir.group.id ++ '/' :: text))[2]? = none := by
      rw [rmatchSlash_eq, hpos]
      rfl
    rw [parseNsAndSnapshot, hnone, hdir, hv.eq_root (List.isEmpty_iff.1 hroot)]
    rfl
  · -- the third slash from the end is the one after the namespace path
    rw [if_neg hroot, hstr]
    refine ⟨_, rfl, ?_⟩
    have hsome : (rmatchSlash (ns.displayAsPath ++
        '/' :: (dir.group.ty.asStr ++ '/' :: dir.group.id ++ '/' :: text)))[2]? =
          some ns.displayAsPath.length := by
      rw [rmatchSlash_eq, slashPositions_append, slashPositions_cons_slash, hpos]
      simp
    have hdrop : (ns.displayAsPath ++ '/' :: (dir.group.ty.asStr ++ '/' :: dir.group.id ++ '/' :: text)).drop
        (ns.displayAsPath.length + 1) = dir.group.ty.asStr ++ '/' :: dir.group.id ++ '/' :: text := by
      simp
    rw [parseNsAndSnapshot, hsome]
    dsimp only
    rw [List.take_left, hdrop, hv.fromPath_path, Except.ok_bind, hdir]
    rfl

/-- Snapshot names of valid namespaces read back to themselves, and every namespace the operations
of `BackupNamespace` build caches the length of its name and is read back from its name and from
its path. -/
theorem namespace_snapshot_round_trip (limits : NamespaceLimits) (codec : Rfc3339) :
    (∀ (ns : BackupNamespace) (dir : BackupDir) (text : List Char), ns.Valid limits →
      matchesSafeId dir.group.id = true → codec.epochToRfc3339Utc dir.time = .ok text →
      matchesBackupTime text = true → codec.parseRfc3339 text = .ok dir.time →
      ∃ out, printNsAndSnapshot codec ns dir = some out ∧
        parseNsAndSnapshot limits codec out = .ok (ns, dir)) ∧
    ∀ ns : BackupNamespace, ns.Reachable limits →
      ns.nameLen = String.utf8Len ns.name ∧ BackupNamespace.new limits ns.name = .ok ns ∧
        BackupNamespace.fromPath limits ns.displayAsPath = .ok ns := by
  refine ⟨fun ns dir text hv hid hfmt htime hparse => parseNsAndSnapshot_print hv hid hfmt htime hparse,
    fun ns hr => ?_⟩
  have hv := hr.valid
  exact ⟨hv.nameLen_eq, hv.new_name, hv.fromPath_path⟩

theorem namespace_snapshot_round_trip_a_b :
    (∃ out, printNsAndSnapshot ⟨fun _ => .ok "2020-06-15T05:18:33Z".toList, fun _ => .ok 1592198313⟩
        ⟨["a".toList, "b".toList], 3⟩ ⟨⟨.vm, "100".toList⟩, 1592198313⟩ = some out ∧
      parseNsAndSnapshot ⟨7, 256⟩
        ⟨fun _ => .ok "2020-06-15T05:18:33Z".toList, fun _ => .ok 1592198313⟩ out =
          .ok (⟨["a".toList, "b".toList], 3⟩, ⟨⟨.vm, "100".toList⟩, 1592198313⟩)) ∧
    (BackupNamespace.nameLen ⟨["a".toList, "b".toList], 3⟩ =
        String.utf8Len (BackupNamespace.name ⟨["a".toList, "b".toList], 3⟩) ∧
      BackupNamespace.new ⟨7, 256⟩ (BackupNamespace.name ⟨["a".toList, "b".toList], 3⟩) =
        .ok ⟨["a".toList, "b".toList], 3⟩ ∧
      BackupNamespace.fromPath ⟨7, 256⟩ (BackupNamespace.displayAsPath ⟨["a".toList, "b".toList], 3⟩) =
        .ok ⟨["a".toList, "b".toList], 3⟩) :=
  ⟨(namespace_snapshot_round_trip ⟨7, 256⟩ _).1 _ _ _ rfl (by decide) rfl (by decide) rfl,
    (namespace_snapshot_round_trip ⟨7, 256⟩ ⟨fun _ => .ok [], fun _ => .ok 0⟩).2 _
      (BackupNamespace.reachable_iff_valid.2 rfl)⟩

end ProxmoxBackup.ApiTypes
