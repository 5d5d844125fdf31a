import Mathlib.Data.List.Infix
import Mathlib.Data.List.Nodup
import ProxmoxBackup.ApiTypes.Namespace

/-!
# Listing the namespaces of a datastore (`pbs-datastore/src/hierarchy.rs`)

`ListNamespaces` lists the namespaces directly below one: the subdirectories of its `ns`
directory, which it opens at the first call of `next`. `ListNamespacesRecursive` walks the tree
below an anchor namespace depth first with a stack of these iterators, one per level: it yields
the anchor first, then each namespace the top iterator yields, pushing an iterator for that
namespace while the stack is shallower than the depth limit, and popping exhausted iterators.

The datastore is what `read_subdir` and `readdir` return for the `ns` directory of each namespace
(`NsStore`). What the iterator yields from a state on is a list (`ListNamespacesRecursive.items`)
built from the recursive listing `subtreeItems`: `next_yields` says that `next` returns the first
item of that list and a state that yields the rest, whatever the directories hold, as long as
they can be opened.

* `collect_newMaxDepth`: calling `next` until it returns `None` yields `subtreeItems` of the
  anchor, to the clamped depth.
* `listNamespacesRecursive_preorder`: on a tree of namespaces, that is the anchor, then each
  namespace at most that many levels below it, exactly once, every namespace's subtree as one
  block that starts with it.
-/

namespace ProxmoxBackup.Datastore

open ApiTypes

/-- `nix::dir::Type`, as far as `ListNamespaces` tells the types apart. -/
inductive FileType
  | directory
  | other
  deriving DecidableEq

/-- An entry of a directory as `readdir` returns it: its name (`none` if it is not valid UTF-8),
its type (`none` where `readdir` does not report one) and what `get_file_type` returns for it. -/
structure DirEntry where
  fileName : Option (List Char)
  fileType : Option FileType
  statType : Except String FileType

/-- The namespace directories of a datastore: for the components of a namespace, what
`read_subdir` of its `ns` directory returns (`none` for `ENOENT`), as the entries `readdir` then
returns. -/
structure NsStore where
  readSubdir : List (List Char) → Except String (Option (List (Except String DirEntry)))

/-- The name of an entry that `ListNamespaces` turns into a namespace: a directory, by its type or
else by `get_file_type` (whose error is logged and the entry skipped), whose name is valid UTF-8
and not `.` or `..`. -/
def DirEntry.namespaceName (entry : DirEntry) : Option (List Char) :=
  let isDirectory := match entry.fileType with
    | some .directory => true
    | some .other => false
    | none =>
      match entry.statType with
      | .ok .directory => true
      | _ => false
  if isDirectory then
    match entry.fileName with
    | some name => if name ≠ ['.'] ∧ name ≠ ['.', '.'] then some name else none
    | none => none
  else none

/-- `ListNamespaces`: the namespace whose children it lists, and, once its `ns` directory is
open, the entries it has not read yet. -/
structure ListNamespaces where
  ns : BackupNamespace
  nsState : Option (List (Except String DirEntry))

/-- `ListNamespaces::new`. -/
def ListNamespaces.new (ns : BackupNamespace) : ListNamespaces := ⟨ns, none⟩

/-- `ListNamespacesRecursive`: the anchor, the depth limit, and the stack of per-level iterators
once the first `next` has run, its top (the `Vec`'s last element) first. -/
structure ListNamespacesRecursive where
  ns : BackupNamespace
  maxDepth : UInt8
  state : Option (List ListNamespaces)

section Iterators

variable (limits : NamespaceLimits) (store : NsStore)

/-- The loop of `ListNamespaces::next` over the entries of the open directory: an error is
returned, an entry that is not a namespace skipped, and a namespace's name made a child of `ns`
by `from_parent_ns`. -/
def ListNamespaces.nextEntry (ns : BackupNamespace) :
    List (Except String DirEntry) →
      Option (Except String BackupNamespace) × List (Except String DirEntry)
  | [] => (none, [])
  | .error err :: entries => (some (.error err), entries)
  | .ok entry :: entries =>
    match entry.namespaceName with
    | some name => (some (ns.fromParentNs limits name), entries)
    | none => nextEntry ns entries

/-- The loop of `ListNamespaces::next` on the open directory, as the iterator it leaves. -/
def ListNamespaces.readEntries (it : ListNamespaces) (entries : List (Except String DirEntry)) :
    Option (Except String BackupNamespace) × ListNamespaces :=
  let r := nextEntry limits it.ns entries
  (r.1, ⟨it.ns, some r.2⟩)

/-- `ListNamespaces::next`: the directory is opened at the first call; a missing `ns` directory
ends the listing, and an error opening it is returned with the iterator left unopened. -/
def ListNamespaces.next (it : ListNamespaces) :
    Option (Except String BackupNamespace) × ListNamespaces :=
  match it.nsState with
  | some entries => it.readEntries limits entries
  | none =>
    match store.readSubdir it.ns.inner with
    | .ok none => (none, it)
    | .error err => (some (.error err), it)
    | .ok (some entries) => it.readEntries limits entries

/-- `ListNamespacesRecursive::new_max_depth`. A valid namespace is never deeper
than `MAX_NAMESPACE_DEPTH`, so the subtraction does not underflow. -/
def ListNamespacesRecursive.newMaxDepth (ns : BackupNamespace) (maxDepth : Nat) :
    Except String ListNamespacesRecursive :=
  if maxDepth > limits.maxNamespaceDepth then
    let limit := limits.maxNamespaceDepth + 1
    throw s!"depth must be smaller than {limit}"
  else
    -- always clamp, but don't error if we violated relative depth
    let maxDepth := min maxDepth (limits.maxNamespaceDepth - ns.depth)
    pure ⟨ns, UInt8.ofNat maxDepth, none⟩

/-- The loop of `ListNamespacesRecursive::next` once the stack exists: the namespace the top
iterator yields is returned, after an iterator for it is pushed if the stack is shallower than
the limit; an exhausted iterator is popped and the loop goes on below it. -/
def nextInStack (maxDepth : UInt8) :
    List ListNamespaces → Option (Except String BackupNamespace) × List ListNamespaces
  | [] => (none, [])
  | top :: below =>
    match top.next limits store with
    | (some (.ok ns), top) =>
      if (top :: below).length < maxDepth.toNat then
        (some (.ok ns), ListNamespaces.new ns :: top :: below)
      else (some (.ok ns), top :: below)
    | (some (.error err), top) => (some (.error err), top :: below)
    | (none, _) => nextInStack maxDepth below

/-- `ListNamespacesRecursive::next`: the first call yields the anchor and sets up the stack, with
the anchor's iterator if the limit is positive. -/
def ListNamespacesRecursive.next (it : ListNamespacesRecursive) :
    Option (Except String BackupNamespace) × ListNamespacesRecursive :=
  match it.state with
  | some stack =>
    let r := nextInStack limits store it.maxDepth stack
    (r.1, { it with state := some r.2 })
  | none =>
    let stack := if it.maxDepth.toNat > 0 then [ListNamespaces.new it.ns] else []
    (some (.ok it.ns), { it with state := some stack })

/-- Calling `next` until it returns `None`, at most `fuel` times: the items, if it did. -/
def ListNamespacesRecursive.collect :
    Nat → ListNamespacesRecursive → Option (List (Except String BackupNamespace))
  | 0, _ => none
  | fuel + 1, it =>
    match it.next limits store with
    | (none, _) => some []
    | (some item, it) => (collect fuel it).map (item :: ·)

/-! ## The listing an iterator yields -/

/-- The entries of a namespace's `ns` directory; none if it is missing. -/
def NsStore.entries (ns : BackupNamespace) : List (Except String DirEntry) :=
  match store.readSubdir ns.inner with
  | .ok (some entries) => entries
  | _ => []

/-- Every `ns` directory of the datastore can be opened, or is missing. -/
def NsStore.Readable : Prop := ∀ path, ∃ entries, store.readSubdir path = .ok entries

/-- What an item of a per-level iterator stands for in the listing: an error, or a namespace
and what `below` lists for it. -/
def itemItems (below : BackupNamespace → List (Except String BackupNamespace)) :
    Except String BackupNamespace → List (Except String BackupNamespace)
  | .error err => [.error err]
  | .ok ns => below ns

/-- What a result of a per-level iterator stands for in the listing. -/
def resultItems (below : BackupNamespace → List (Except String BackupNamespace)) :
    Option (Except String BackupNamespace) → List (Except String BackupNamespace)
  | none => []
  | some item => itemItems below item

/-- What an entry of `ns`'s directory adds to the listing: an error, nothing, or what its item
stands for. -/
def entryItems (ns : BackupNamespace) (below : BackupNamespace → List (Except String BackupNamespace)) :
    Except String DirEntry → List (Except String BackupNamespace)
  | .error err => [.error err]
  | .ok entry =>
    match entry.namespaceName with
    | none => []
    | some name => itemItems below (ns.fromParentNs limits name)

/-- The listing of the tree from `ns` down `depth` levels, depth first: `ns`, then what each
entry of its directory adds, in turn. -/
def subtreeItems : Nat → BackupNamespace → List (Except String BackupNamespace)
  | 0, ns => [.ok ns]
  | depth + 1, ns =>
    .ok ns :: (store.entries ns).flatMap (entryItems limits ns fun child => subtreeItems depth child)

/-- What a per-level iterator yields, with the namespaces `depth` levels below each child. -/
def ListNamespaces.items (depth : Nat) (it : ListNamespaces) : List (Except String BackupNamespace) :=
  (it.nsState.getD (store.entries it.ns)).flatMap
    (entryItems limits it.ns (subtreeItems limits store depth))

/-- What a stack of iterators yields: the top one's items, each child with the namespaces below
it as deep as the limit allows at the top's level, then what the rest of the stack yields. -/
def stackItems (maxDepth : Nat) : List ListNamespaces → List (Except String BackupNamespace)
  | [] => []
  | top :: below =>
    top.items limits store (maxDepth - (below.length + 1)) ++ stackItems maxDepth below

/-- What `ListNamespacesRecursive` yields from its state on. -/
def ListNamespacesRecursive.items (it : ListNamespacesRecursive) :
    List (Except String BackupNamespace) :=
  match it.state with
  | none => subtreeItems limits store it.maxDepth.toNat it.ns
  | some stack => stackItems limits store it.maxDepth.toNat stack

/-- A result of `next` against the stream it should start: `None` for an empty stream, else the
stream's first item and a state that yields the rest. -/
def Yields {σ : Type} (items : σ → List (Except String BackupNamespace))
    (r : Option (Except String BackupNamespace) × σ) (stream : List (Except String BackupNamespace)) :
    Prop :=
  match r.1 with
  | none => stream = []
  | some item => stream = item :: items r.2

/-! ## `next` yields the listing -/

variable {limits store}

/-- The entry loop yields what the first entry that adds anything stands for, and leaves the
entries after it. -/
theorem nextEntry_items (ns : BackupNamespace)
    (below : BackupNamespace → List (Except String BackupNamespace))
    (entries : List (Except String DirEntry)) :
    entries.flatMap (entryItems limits ns below) =
      resultItems below (ListNamespaces.nextEntry limits ns entries).1 ++
        (ListNamespaces.nextEntry limits ns entries).2.flatMap (entryItems limits ns below) := by
  induction entries with
  | nil => rfl
  | cons entry entries ih =>
    rcases entry with err | entry
    · rfl
    · rw [List.flatMap_cons, ListNamespaces.nextEntry]
      cases hname : entry.namespaceName with
      | none => simpa [entryItems, hname] using ih
      | some name => simp [entryItems, hname, resultItems]

/-- When the entry loop runs out of entries, it leaves none. -/
theorem nextEntry_snd_eq_nil {ns : BackupNamespace} {entries : List (Except String DirEntry)}
    (h : (ListNamespaces.nextEntry limits ns entries).1 = none) :
    (ListNamespaces.nextEntry limits ns entries).2 = [] := by
  induction entries with
  | nil => rfl
  | cons entry entries ih =>
    rcases entry with err | entry
    · cases h
    · rw [ListNamespaces.nextEntry] at h ⊢
      cases hname : entry.namespaceName with
      | none => simpa [hname] using ih (by simpa [hname] using h)
      | some name => simp [hname] at h

theorem flatMap_entryItems_eq_nil {ns : BackupNamespace}
    {below : BackupNamespace → List (Except String BackupNamespace)}
    {entries : List (Except String DirEntry)}
    (h : (ListNamespaces.nextEntry limits ns entries).1 = none) :
    entries.flatMap (entryItems limits ns below) = [] := by
  rw [nextEntry_items ns below entries, h, nextEntry_snd_eq_nil h]
  rfl

/-- On a readable datastore, `next` of a per-level iterator either finds no `ns` directory, and
the iterator yields nothing, or runs the entry loop on the entries it yields from. -/
theorem ListNamespaces.next_cases (hread : store.Readable) (it : ListNamespaces) :
    (it.next limits store = (none, it) ∧ ∀ depth, it.items limits store depth = []) ∨
      ∃ entries, it.next limits store = it.readEntries limits entries ∧
        ∀ depth, it.items limits store depth =
          entries.flatMap (entryItems limits it.ns (subtreeItems limits store depth)) := by
  rcases hstate : it.nsState with _ | entries
  · obtain ⟨r, hr⟩ := hread it.ns.inner
    rcases r with _ | entries
    · left
      simp [ListNamespaces.next, ListNamespaces.items, NsStore.entries, hstate, hr]
    · right
      exact ⟨entries, by simp [ListNamespaces.next, hstate, hr],
        fun depth => by simp [ListNamespaces.items, NsStore.entries, hstate, hr]⟩
  · right
    exact ⟨entries, by simp [ListNamespaces.next, hstate],
      fun depth => by simp [ListNamespaces.items, hstate]⟩

/-- The entry loop, read against the listing of the iterator it leaves. -/
theorem ListNamespaces.items_readEntries (it : ListNamespaces)
    (entries : List (Except String DirEntry)) (depth : Nat) :
    entries.flatMap (entryItems limits it.ns (subtreeItems limits store depth)) =
      resultItems (subtreeItems limits store depth) (it.readEntries limits entries).1 ++
        (it.readEntries limits entries).2.items limits store depth :=
  nextEntry_items _ _ entries

/-- A per-level iterator whose `next` returns `None` yields nothing more. -/
theorem ListNamespaces.items_eq_nil_of_next (hread : store.Readable) {it : ListNamespaces}
    {depth : Nat} (h : (it.next limits store).1 = none) : it.items limits store depth = [] := by
  rcases it.next_cases hread with ⟨-, hitems⟩ | ⟨entries, hnext, hitems⟩
  · exact hitems depth
  · rw [hnext] at h
    rw [hitems]
    exact flatMap_entryItems_eq_nil h

/-- A per-level iterator that yields an item yields what the item stands for, then what the
iterator it leaves yields. -/
theorem ListNamespaces.items_eq_of_next (hread : store.Readable) {it : ListNamespaces}
    {depth : Nat} {item : Except String BackupNamespace}
    (h : (it.next limits store).1 = some item) :
    it.items limits store depth =
      itemItems (subtreeItems limits store depth) item ++
        (it.next limits store).2.items limits store depth := by
  rcases it.next_cases hread with ⟨hnext, -⟩ | ⟨entries, hnext, hitems⟩
  · rw [hnext] at h
    cases h
  · rw [hnext] at h ⊢
    rw [hitems, items_readEntries, h]
    rfl

/-- A namespace's listing `depth + 1` levels down is the namespace, then what a new iterator for
it yields with `depth` levels below each child. -/
theorem subtreeItems_succ (depth : Nat) (ns : BackupNamespace) :
    subtreeItems limits store (depth + 1) ns =
      .ok ns :: (ListNamespaces.new ns).items limits store depth := rfl

/-- The stack loop of `next` yields the first item of the stack's listing. -/
theorem nextInStack_yields (hread : store.Readable) (maxDepth : UInt8)
    (stack : List ListNamespaces) :
    Yields (stackItems limits store maxDepth.toNat) (nextInStack limits store maxDepth stack)
      (stackItems limits store maxDepth.toNat stack) := by
  induction stack with
  | nil => rfl
  | cons top below ih =>
    rw [nextInStack]
    rcases hnext : top.next limits store with ⟨_ | item, top'⟩
    · -- the top iterator is exhausted and popped
      have hnil : top.items limits store (maxDepth.toNat - (below.length + 1)) = [] :=
        ListNamespaces.items_eq_nil_of_next hread (congrArg Prod.fst hnext)
      simp only [stackItems, hnil, List.nil_append]
      exact ih
    · have hitems : top.items limits store (maxDepth.toNat - (below.length + 1)) =
          itemItems (subtreeItems limits store (maxDepth.toNat - (below.length + 1))) item ++
            top'.items limits store (maxDepth.toNat - (below.length + 1)) := by
        rw [ListNamespaces.items_eq_of_next hread (congrArg Prod.fst hnext), hnext]
      rcases item with err | ns
      · -- an error is returned and the iterator stays
        simp [Yields, stackItems, hitems, itemItems]
      · dsimp only
        split
        · -- an iterator for the namespace is pushed: it yields the namespace's children
          rename_i hlt
          have hsub : subtreeItems limits store (maxDepth.toNat - (below.length + 1)) ns =
              .ok ns :: (ListNamespaces.new ns).items limits store
                (maxDepth.toNat - ((top' :: below).length + 1)) := by
            rw [← subtreeItems_succ]
            congr 1
            simp only [List.length_cons] at hlt ⊢
            omega
          simp only [Yields, stackItems, hitems, itemItems, hsub, List.cons_append,
            List.append_assoc]
        · -- at the limit the namespace is yielded alone
          rename_i hge
          have hsub : subtreeItems limits store (maxDepth.toNat - (below.length + 1)) ns = [.ok ns] := by
            rw [show maxDepth.toNat - (below.length + 1) = 0 by simp only [List.length_cons] at hge; omega]
            rfl
          simp only [Yields, stackItems, hitems, itemItems, hsub, List.cons_append, List.nil_append]

/-- `next` yields the first item of what the iterator yields, and a state that yields the rest. -/
theorem ListNamespacesRecursive.next_yields (hread : store.Readable)
    (it : ListNamespacesRecursive) :
    Yields (ListNamespacesRecursive.items limits store) (it.next limits store)
      (it.items limits store) := by
  rcases it with ⟨ns, maxDepth, _ | stack⟩
  · -- the first call: the anchor, then what its iterator yields below the limit
    show subtreeItems limits store maxDepth.toNat ns = .ok ns :: stackItems limits store
      maxDepth.toNat (if maxDepth.toNat > 0 then [ListNamespaces.new ns] else [])
    split
    · rename_i hpos
      obtain ⟨depth, hdepth⟩ : ∃ depth, maxDepth.toNat = depth + 1 := ⟨_, (Nat.succ_pred_eq_of_pos hpos).symm⟩
      simp [hdepth, subtreeItems_succ, stackItems]
    · rename_i hzero
      simp only [gt_iff_lt, Nat.not_lt, Nat.le_zero] at hzero
      simp [hzero, subtreeItems, stackItems]
  · exact nextInStack_yields hread maxDepth stack

/-- Calling `next` until it returns `None` yields everything the iterator yields, in order. -/
theorem ListNamespacesRecursive.collect_items (hread : store.Readable)
    (it : ListNamespacesRecursive) :
    it.collect limits store ((it.items limits store).length + 1) = some (it.items limits store) := by
  -- induction on the length of the stream, one item per call of `next`
  induction h : (it.items limits store).length generalizing it with
  | zero =>
    have hyields : Yields (items limits store) (it.next limits store) (it.items limits store) :=
      it.next_yields hread
    rcases hnext : it.next limits store with ⟨_ | item, it'⟩
    · simp [Yields, hnext] at hyields
      simp [collect, hnext, hyields]
    · simp [Yields, hnext] at hyields
      simp [hyields] at h
  | succ n ih =>
    have hyields : Yields (items limits store) (it.next limits store) (it.items limits store) :=
      it.next_yields hread
    rcases hnext : it.next limits store with ⟨_ | item, it'⟩
    · simp [Yields, hnext] at hyields
      simp [hyields] at h
    · simp only [Yields, hnext] at hyields
      rw [hyields] at h ⊢
      simp only [List.length_cons, Nat.add_right_cancel_iff] at h
      rw [collect, hnext]
      simp only [ih it' h, Option.map_some]

/-- `new_max_depth` accepts a limit up to `MAX_NAMESPACE_DEPTH` and clamps it; calling `next` on
the iterator until it returns `None` yields the anchor's listing to the clamped depth. -/
theorem collect_newMaxDepth (hread : store.Readable) {ns : BackupNamespace} {maxDepth : Nat}
    (hmax : maxDepth ≤ limits.maxNamespaceDepth) (hlimit : limits.maxNamespaceDepth < 256) :
    ∃ it, ListNamespacesRecursive.newMaxDepth limits ns maxDepth = .ok it ∧
      let items := subtreeItems limits store (min maxDepth (limits.maxNamespaceDepth - ns.depth)) ns
      it.collect limits store (items.length + 1) = some items := by
  set depth := min maxDepth (limits.maxNamespaceDepth - ns.depth)
  -- the clamped limit fits the `u8` it is kept in
  have hdepth : (UInt8.ofNat depth).toNat = depth :=
    UInt8.toNat_ofNat_of_lt' (show depth < 256 by omega)
  refine ⟨⟨ns, UInt8.ofNat depth, none⟩, ?_, ?_⟩
  · simp [ListNamespacesRecursive.newMaxDepth, Nat.not_lt.mpr hmax, depth]
  · have hcollect :=
      @ListNamespacesRecursive.collect_items limits store hread ⟨ns, UInt8.ofNat depth, none⟩
    simpa [ListNamespacesRecursive.items, hdepth] using hcollect

end Iterators

/-! ## The tree of namespaces -/

section Tree

variable (limits : NamespaceLimits) (store : NsStore)

/-- The name of a namespace entry. -/
def entryName : Except String DirEntry → Option (List Char)
  | .ok entry => entry.namespaceName
  | .error _ => none

/-- The names of the namespace entries of `ns`'s directory. -/
def NsStore.namespaceNames (ns : BackupNamespace) : List (List Char) :=
  (store.entries ns).filterMap entryName

/-- The namespaces directly below `ns`: the namespace entries of its directory whose names
`from_parent_ns` accepts. -/
def childNamespaces (ns : BackupNamespace) : List BackupNamespace :=
  (store.namespaceNames ns).filterMap fun name => (ns.fromParentNs limits name).toOption

/-- The namespaces of the tree from `ns` down `depth` levels, in pre-order. -/
def preorder : Nat → BackupNamespace → List BackupNamespace
  | 0, ns => [ns]
  | depth + 1, ns => ns :: (childNamespaces limits store ns).flatMap (preorder depth)

/-- `x` lies `k` levels below `ns` in the tree. -/
inductive Below (ns : BackupNamespace) : Nat → BackupNamespace → Prop
  | refl : Below ns 0 ns
  | child {k : Nat} {parent child : BackupNamespace} : Below ns k parent →
      child ∈ childNamespaces limits store parent → Below ns (k + 1) child

/-- The tree from `ns` down `depth` levels is a tree of namespaces: its directories list their
entries without error, each namespace entry's name is a valid component below the directory's
namespace, and no name appears twice in a directory. -/
def TreeOk : Nat → BackupNamespace → Prop
  | 0, _ => True
  | depth + 1, ns =>
    (∀ e ∈ store.entries ns, ∃ entry, e = .ok entry ∧
        ∀ name, entry.namespaceName = some name → ∃ child, ns.fromParentNs limits name = .ok child) ∧
      (store.namespaceNames ns).Nodup ∧
      ∀ child ∈ childNamespaces limits store ns, TreeOk depth child

variable {limits store}

theorem mem_childNamespaces {ns child : BackupNamespace} :
    child ∈ childNamespaces limits store ns ↔
      ∃ name ∈ store.namespaceNames ns, ns.fromParentNs limits name = .ok child := by
  simp only [childNamespaces, List.mem_filterMap]
  refine exists_congr fun name => and_congr_right fun _ => ?_
  cases ns.fromParentNs limits name <;> simp [Except.toOption]

/-- A child's components are its parent's and its name. -/
theorem inner_of_fromParentNs {ns child : BackupNamespace} {name : List Char}
    (h : ns.fromParentNs limits name = .ok child) : child.inner = ns.inner ++ [name] := by
  obtain ⟨-, -, -, -, rfl⟩ := BackupNamespace.push_eq_ok.mp h
  rfl

/-- The entries of a directory that lists only namespaces with valid names add, in turn, what
`below` lists for each of their namespaces. -/
theorem flatMap_entryItems_of_ok {ns : BackupNamespace}
    {below : BackupNamespace → List (Except String BackupNamespace)}
    {sub : BackupNamespace → List BackupNamespace} {entries : List (Except String DirEntry)}
    (hentries : ∀ e ∈ entries, ∃ entry, e = .ok entry ∧
      ∀ name, entry.namespaceName = some name → ∃ child, ns.fromParentNs limits name = .ok child)
    (hbelow : ∀ child ∈ (entries.filterMap entryName).filterMap
      (fun name => (ns.fromParentNs limits name).toOption), below child = (sub child).map .ok) :
    entries.flatMap (entryItems limits ns below) =
      (((entries.filterMap entryName).filterMap
        fun name => (ns.fromParentNs limits name).toOption).flatMap sub).map .ok := by
  induction entries with
  | nil => rfl
  | cons e entries ih =>
    obtain ⟨entry, rfl, hname⟩ := hentries e List.mem_cons_self
    have ih' := ih (fun e he => hentries e (List.mem_cons_of_mem _ he))
    cases hn : entry.namespaceName with
    | none =>
      simp only [List.flatMap_cons, entryItems, hn, List.nil_append, List.filterMap_cons,
        entryName] at hbelow ⊢
      exact ih' hbelow
    | some name =>
      obtain ⟨child, hchild⟩ := hname name hn
      have hoption : (Except.ok child : Except String BackupNamespace).toOption = some child := rfl
      simp only [List.flatMap_cons, entryItems, hn, itemItems, hchild, List.filterMap_cons,
        entryName, hoption, List.map_append] at hbelow ⊢
      rw [hbelow child List.mem_cons_self,
        ih' fun c hc => hbelow c (List.mem_cons_of_mem _ hc)]

/-- Below a tree of namespaces the iterator's listing is the pre-order of the namespaces. -/
theorem subtreeItems_eq_map_preorder {depth : Nat} {ns : BackupNamespace}
    (htree : TreeOk limits store depth ns) :
    subtreeItems limits store depth ns = (preorder limits store depth ns).map .ok := by
  induction depth generalizing ns with
  | zero => rfl
  | succ depth ih =>
    obtain ⟨hentries, -, hchildren⟩ := htree
    simp only [subtreeItems, preorder, List.map_cons]
    rw [flatMap_entryItems_of_ok hentries fun child hchild => ih (hchildren child hchild)]
    rfl

/-! ### The pre-order listing -/

/-- The pre-order listing starts with the namespace itself. -/
theorem head?_preorder (depth : Nat) (ns : BackupNamespace) :
    (preorder limits store depth ns).head? = some ns := by
  cases depth <;> rfl

/-- A namespace below a child of `ns` is one level further below `ns`. -/
theorem Below.head {ns child x : BackupNamespace} {k : Nat}
    (hchild : child ∈ childNamespaces limits store ns) (h : Below limits store child k x) :
    Below limits store ns (k + 1) x := by
  induction h with
  | refl => exact .child .refl hchild
  | child _ hc ih => exact .child ih hc

/-- A namespace below `ns` is `ns` itself or lies below one of its children. -/
theorem Below.cases_head {ns x : BackupNamespace} {k : Nat} (h : Below limits store ns k x) :
    (k = 0 ∧ x = ns) ∨
      ∃ k' child, k = k' + 1 ∧ child ∈ childNamespaces limits store ns ∧
        Below limits store child k' x := by
  induction h with
  | refl => exact .inl ⟨rfl, rfl⟩
  | @child k parent c _ hc ih =>
    right
    rcases ih with ⟨rfl, rfl⟩ | ⟨k', child, rfl, hchild, hbelow⟩
    · exact ⟨0, c, rfl, hc, .refl⟩
    · exact ⟨k' + 1, child, rfl, hchild, .child hbelow hc⟩

/-- The pre-order listing holds exactly the namespaces at most `depth` levels below. -/
theorem mem_preorder {depth : Nat} {ns x : BackupNamespace} :
    x ∈ preorder limits store depth ns ↔ ∃ k ≤ depth, Below limits store ns k x := by
  induction depth generalizing ns with
  | zero =>
    rw [preorder, List.mem_singleton]
    constructor
    · rintro rfl
      exact ⟨0, le_rfl, .refl⟩
    · rintro ⟨k, hk, hbelow⟩
      rcases hbelow.cases_head with ⟨-, rfl⟩ | ⟨k', -, rfl, -⟩
      · rfl
      · omega
  | succ depth ih =>
    simp only [preorder, List.mem_cons, List.mem_flatMap, ih]
    constructor
    · rintro (rfl | ⟨child, hchild, k, hk, hbelow⟩)
      · exact ⟨0, by omega, .refl⟩
      · exact ⟨k + 1, by omega, hbelow.head hchild⟩
    · rintro ⟨k, hk, hbelow⟩
      rcases hbelow.cases_head with ⟨-, rfl⟩ | ⟨k', child, rfl, hchild, hbelow'⟩
      · exact .inl rfl
      · exact .inr ⟨child, hchild, k', by omega, hbelow'⟩

/-- Every namespace of a listing has the listed namespace's components as a prefix. -/
theorem prefix_of_mem_preorder {depth : Nat} {ns x : BackupNamespace}
    (hx : x ∈ preorder limits store depth ns) : ns.inner <+: x.inner := by
  induction depth generalizing ns with
  | zero =>
    rw [preorder, List.mem_singleton] at hx
    rw [hx]
  | succ depth ih =>
    rcases List.mem_cons.mp hx with rfl | hx
    · exact List.prefix_refl _
    · obtain ⟨child, hchild, hx⟩ := List.mem_flatMap.mp hx
      obtain ⟨name, -, hpush⟩ := mem_childNamespaces.mp hchild
      have hprefix : ns.inner <+: child.inner := by
        rw [inner_of_fromParentNs hpush]
        exact List.prefix_append _ _
      exact hprefix.trans (ih hx)

/-- The listings below two different children of a namespace have no namespace in common. -/
theorem disjoint_preorder {ns c₁ c₂ : BackupNamespace} (hc₁ : c₁ ∈ childNamespaces limits store ns)
    (hc₂ : c₂ ∈ childNamespaces limits store ns) (hne : c₁ ≠ c₂) (depth : Nat) :
    (preorder limits store depth c₁).Disjoint (preorder limits store depth c₂) := by
  intro x hx₁ hx₂
  obtain ⟨n₁, -, hpush₁⟩ := mem_childNamespaces.mp hc₁
  obtain ⟨n₂, -, hpush₂⟩ := mem_childNamespaces.mp hc₂
  have hinner₁ := inner_of_fromParentNs hpush₁
  have hinner₂ := inner_of_fromParentNs hpush₂
  -- both children are prefixes of `x` of the same length, so they have the same name
  have hprefix : c₁.inner <+: c₂.inner :=
    List.prefix_of_prefix_length_le (prefix_of_mem_preorder hx₁) (prefix_of_mem_preorder hx₂)
      (by simp [hinner₁, hinner₂])
  have hsame : c₁.inner = c₂.inner := hprefix.eq_of_length (by simp [hinner₁, hinner₂])
  rw [hinner₁, hinner₂, List.append_cancel_left_eq, List.singleton_inj] at hsame
  rw [hsame, hpush₂] at hpush₁
  exact hne (Except.ok.inj hpush₁).symm

/-- Distinct names give distinct children. -/
theorem nodup_childNamespaces {ns : BackupNamespace} (hnames : (store.namespaceNames ns).Nodup) :
    (childNamespaces limits store ns).Nodup := by
  refine List.Nodup.filterMap (fun n₁ n₂ child h₁ h₂ => ?_) hnames
  have hpush₁ : ns.fromParentNs limits n₁ = .ok child := by
    revert h₁
    cases ns.fromParentNs limits n₁ <;> simp [Except.toOption]
  have hpush₂ : ns.fromParentNs limits n₂ = .ok child := by
    revert h₂
    cases ns.fromParentNs limits n₂ <;> simp [Except.toOption]
  have hinner := (inner_of_fromParentNs hpush₁).symm.trans (inner_of_fromParentNs hpush₂)
  simpa using hinner

/-- In a tree of namespaces the listing holds each namespace once. -/
theorem nodup_preorder {depth : Nat} {ns : BackupNamespace}
    (htree : TreeOk limits store depth ns) : (preorder limits store depth ns).Nodup := by
  induction depth generalizing ns with
  | zero => exact List.nodup_singleton ns
  | succ depth ih =>
    obtain ⟨-, hnames, hchildren⟩ := htree
    rw [preorder, List.nodup_cons, List.nodup_flatMap]
    refine ⟨?_, fun child hchild => ih (hchildren child hchild), ?_⟩
    · -- the namespaces below a child are longer than `ns`
      intro hmem
      obtain ⟨child, hchild, hns⟩ := List.mem_flatMap.mp hmem
      obtain ⟨name, -, hpush⟩ := mem_childNamespaces.mp hchild
      have hlen := (prefix_of_mem_preorder hns).length_le
      simp [inner_of_fromParentNs hpush] at hlen
    · exact (nodup_childNamespaces hnames).imp_of_mem fun hc₁ hc₂ hne =>
        disjoint_preorder hc₁ hc₂ hne depth

/-- The listing below any namespace of the tree is one block of the listing: the namespace comes
first, and everything below it follows before anything else. -/
theorem Below.preorder_infix {ns x : BackupNamespace} {k depth : Nat}
    (h : Below limits store ns k x) (hk : k ≤ depth) :
    preorder limits store (depth - k) x <:+: preorder limits store depth ns := by
  induction h with
  | refl => exact List.infix_refl _
  | @child k parent child _ hchild ih =>
    have hparent := ih (by omega)
    rw [show depth - k = depth - (k + 1) + 1 by omega, preorder] at hparent
    exact (List.infix_cons (List.infix_flatMap_of_mem hchild _)).trans hparent

end Tree

/-! ## The namespaces `ListNamespacesRecursive` yields -/

theorem listNamespacesRecursive_preorder {limits : NamespaceLimits} {store : NsStore}
    (hread : store.Readable) {ns : BackupNamespace} {maxDepth : Nat}
    (hmax : maxDepth ≤ limits.maxNamespaceDepth) (hlimit : limits.maxNamespaceDepth < 256)
    (htree : TreeOk limits store (min maxDepth (limits.maxNamespaceDepth - ns.depth)) ns) :
    ∃ it, ListNamespacesRecursive.newMaxDepth limits ns maxDepth = .ok it ∧
      let depth := min maxDepth (limits.maxNamespaceDepth - ns.depth)
      let out := preorder limits store depth ns
      it.collect limits store (out.length + 1) = some (out.map .ok) ∧
        out.head? = some ns ∧
        (∀ x, x ∈ out ↔ ∃ k ≤ depth, Below limits store ns k x) ∧
        out.Nodup ∧
        ∀ x k, Below limits store ns k x → k ≤ depth →
          preorder limits store (depth - k) x <:+: out := by
  obtain ⟨it, hnew, hcollect⟩ := @collect_newMaxDepth limits store hread ns maxDepth hmax hlimit
  dsimp only at hcollect
  rw [subtreeItems_eq_map_preorder htree, List.length_map] at hcollect
  exact ⟨it, hnew, hcollect, head?_preorder _ _, fun _ => mem_preorder, nodup_preorder htree,
    fun _ _ hbelow hk => hbelow.preorder_infix hk⟩

/-- A datastore whose root has one namespace, `a`, beside `.`, `..` and a file; `readdir` does
not report the type of `a`. -/
def storeWithNamespaceA : NsStore :=
  ⟨fun path => if path = [] then
    .ok (some [.ok ⟨some ['.'], some .directory, .ok .directory⟩,
      .ok ⟨some ['.', '.'], some .directory, .ok .directory⟩,
      .ok ⟨some ['a'], none, .ok .directory⟩,
      .ok ⟨some ['x'], some .other, .ok .other⟩])
    else .ok none⟩

theorem listNamespacesRecursive_preorder_namespace_a :
    storeWithNamespaceA.Readable ∧
      TreeOk ⟨7, 256⟩ storeWithNamespaceA (min 7 (7 - BackupNamespace.root.depth)) .root ∧
      ∃ it, ListNamespacesRecursive.newMaxDepth ⟨7, 256⟩ .root 7 = .ok it ∧
        let depth := min 7 (7 - BackupNamespace.root.depth)
        let out := preorder ⟨7, 256⟩ storeWithNamespaceA depth .root
        it.collect ⟨7, 256⟩ storeWithNamespaceA (out.length + 1) = some (out.map .ok) ∧
          out.head? = some .root ∧
          (∀ x, x ∈ out ↔ ∃ k ≤ depth, Below ⟨7, 256⟩ storeWithNamespaceA .root k x) ∧
          out.Nodup ∧
          ∀ x k, Below ⟨7, 256⟩ storeWithNamespaceA .root k x → k ≤ depth →
            preorder ⟨7, 256⟩ storeWithNamespaceA (depth - k) x <:+: out := by
  have hread : storeWithNamespaceA.Readable := by
    intro path
    by_cases hpath : path = [] <;> simp [storeWithNamespaceA, hpath]
  -- the root lists `a`, a valid name; `a` has no `ns` directory
  have hchildren : childNamespaces ⟨7, 256⟩ storeWithNamespaceA .root = [⟨[['a']], 1⟩] := by
    decide
  have hleaf : TreeOk ⟨7, 256⟩ storeWithNamespaceA 6 ⟨[['a']], 1⟩ := by
    have hnone : storeWithNamespaceA.entries ⟨[['a']], 1⟩ = [] := by
      simp [NsStore.entries, storeWithNamespaceA]
    refine ⟨by simp [hnone], by simp [NsStore.namespaceNames, hnone], fun child hchild => ?_⟩
    simp [childNamespaces, NsStore.namespaceNames, hnone] at hchild
  have htree : TreeOk ⟨7, 256⟩ storeWithNamespaceA (min 7 (7 - BackupNamespace.root.depth))
      .root := by
    show TreeOk _ _ (6 + 1) _
    refine ⟨?_, by decide, ?_⟩
    · intro e he
      simp only [NsStore.entries, storeWithNamespaceA, BackupNamespace.root, if_pos,
        List.mem_cons, List.not_mem_nil, or_false] at he
      rcases he with rfl | rfl | rfl | rfl
      · exact ⟨_, rfl, fun name h => by simp [DirEntry.namespaceName] at h⟩
      · exact ⟨_, rfl, fun name h => by simp [DirEntry.namespaceName] at h⟩
      · refine ⟨_, rfl, fun name h => ⟨⟨[['a']], 1⟩, ?_⟩⟩
        simp only [DirEntry.namespaceName] at h
        cases h
        decide
      · exact ⟨_, rfl, fun name h => by simp [DirEntry.namespaceName] at h⟩
    · rw [hchildren]
      intro child hchild
      rw [List.mem_singleton.mp hchild]
      exact hleaf
  exact ⟨hread, htree, listNamespacesRecursive_preorder hread (by decide) (by decide) htree⟩

end ProxmoxBackup.Datastore
