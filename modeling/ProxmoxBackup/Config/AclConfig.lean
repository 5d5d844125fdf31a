import ProxmoxBackup.Config.AclMaps
import ProxmoxBackup.Config.CachedUserInfo
import ProxmoxBackup.Rrd.Journal

/-!
# `acl.cfg` (`pbs-config/src/acl.rs`)

`AclTree::write_config` writes a tree as lines `acl:{0|1}:{path}:{users and groups}:{roles}`.
For each node it collects, per propagate flag, the users, tokens and groups (`@name`) that have
each role (`role_ug_map0`, `role_ug_map1`; the user `root@pam` is never written), groups the roles
by their joined list of users and groups (`group_by_property_list`), and writes one line per
list with its roles joined (`role_list`, only `NoAccess` when the roles hold it); then the
children, `path/name`. `AclTree::from_raw` reads such a text back: each non-blank line's pairs
of a user or group and a role are inserted into the node of its path (`parse_acl_line`).
`str::parse::<Authid>` is not part of this repository and is the parameter `parseAuthid`.
-/

namespace ProxmoxBackup.Acl

/-! ## `write_config` -/

/-- A map from names to sets of names (`HashMap<&str, BTreeSet<String>>` from roles to users and
groups, `BTreeMap<String, BTreeSet<String>>` from joined lists to roles). -/
abbrev SetMap := AList fun _ : String => Finset String

/-- `map.entry(key).or_insert_with(BTreeSet::new).insert(item)`. -/
def SetMap.add (map : SetMap) (key item : String) : SetMap :=
  map.insert key (insert item ((map.lookup key).getD ∅))

/-- The fold of `group_by_property_list` and `role_list`: the set's items in increasing order
(a `BTreeSet`), joined by commas. -/
def joinComma (items : Finset String) : String := ",".intercalate (items.sort (· ≤ ·))

/-- One role map of a user, token or group, written `name`, into the map of each role's
propagate flag. -/
def addRoles (name : String) (maps : SetMap × SetMap) (roles : RoleMap) : SetMap × SetMap :=
  roles.entries.foldl (fun maps entry =>
    if entry.2 then (maps.1, maps.2.add entry.1 name) else (maps.1.add entry.1 name, maps.2)) maps

/-- The loops of `write_node_config` that fill `role_ug_map0` and `role_ug_map1`. -/
def roleUgMaps (node : AclTreeNode) : SetMap × SetMap :=
  let maps := node.users.entries.foldl (fun maps entry =>
    -- no need to save, because root is always 'Administrator'
    if !entry.1.isToken && entry.1.user = "root@pam" then maps
    else addRoles entry.1.toString maps entry.2) (∅, ∅)
  node.groups.entries.foldl (fun maps entry => addRoles ("@" ++ entry.1) maps entry.2) maps

/-- `group_by_property_list`: each role under the joined list of its users and groups. -/
def groupByPropertyList (map : SetMap) : SetMap :=
  map.entries.foldl (fun result entry => result.add (joinComma entry.2) entry.1) ∅

/-- `role_list`. -/
def roleList (roles : Finset String) : String :=
  if roleNameNoAccess ∈ roles then roleNameNoAccess else joinComma roles

/-- One line `writeln!` puts out, without its newline. -/
def aclLine (propagate : Bool) (path uglist roleList : String) : String :=
  "acl:" ++ (if propagate then "1" else "0") ++ ":" ++ path ++ ":" ++ uglist ++ ":" ++ roleList

/-- The lines of one of the maps `group_by_property_list` returns, in the order of its keys. -/
def propertyLines (propagate : Bool) (path : String) (map : SetMap) : List String :=
  (map.entries.mergeSort fun x y => x.1 ≤ y.1).map fun entry =>
    aclLine propagate (if path.isEmpty then "/" else path) entry.1 (roleList entry.2)

mutual

/-- `write_node_config`: the node's lines without and with propagation, then its children's. -/
def writeNodeConfig : AclTreeNode → String → List String
  | node@(.mk _ _ children), path =>
    propertyLines false path (groupByPropertyList (roleUgMaps node).1) ++
      propertyLines true path (groupByPropertyList (roleUgMaps node).2) ++
        writeChildrenConfig children path

/-- The loop of `write_node_config` over the children, each under `path/name`. -/
def writeChildrenConfig : List (String × AclTreeNode) → String → List String
  | [], _ => []
  | (name, child) :: children, path =>
    writeNodeConfig child (path ++ "/" ++ name) ++ writeChildrenConfig children path

end

/-- `write_config`: every line followed by a newline. -/
def writeConfig (tree : AclTree) : String :=
  String.join ((writeNodeConfig tree.root "").map (· ++ "\n"))

/-! ## `from_raw` -/

/-- The loops of `parse_acl_line` over the users and groups of a line and its roles: an unknown
role is an error, `@name` a group, anything else an auth id. -/
def insertLinePairs (parseAuthid : String → Except String Authid) (propagate : Bool)
    (rolelist : List String) (node : AclTreeNode) (uglist : List String) :
    Except String AclTreeNode :=
  uglist.foldlM (fun node userOrGroup => rolelist.foldlM (fun node role => do
    if (roleNames role).isNone then throw s!"unknown role '{role}'"
    match userOrGroup.toList with
    | '@' :: group => pure (node.insertGroupRole (String.ofList group) role propagate)
    | _ => do
      let authId ← parseAuthid userOrGroup
      pure (node.insertUserRole authId role propagate)) node) node

/-- `AclTree::parse_acl_line`: the node of the line's path is created if necessary
(`get_or_insert_node`) and takes the line's pairs. The source changes the tree in place and
`from_raw` drops it on an error, so the model returns the new tree only on success. -/
def parseAclLine (parseAuthid : String → Except String Authid) (tree : AclTree)
    (line : List Char) : Except String AclTree :=
  match line.splitOn ':' with
  | [tag, flag, pathStr, uglist, rolelist] => do
    if tag ≠ "acl".toList then throw "line does not start with 'acl'."
    let propagate ← if flag = ['0'] then pure false else if flag = ['1'] then pure true
      else throw "expected '0' or '1' for propagate flag."
    let path := splitAclPath (String.ofList pathStr)
    let node := (tree.getNode path).getD AclTreeNode.new
    let uglist := (uglist.splitOn ',').map fun v => String.ofList (Rrd.trim v)
    let rolelist := (rolelist.splitOn ',').map fun v => String.ofList (Rrd.trim v)
    let node ← insertLinePairs parseAuthid propagate rolelist node uglist
    pure (tree.modifyNode path fun _ => node)
  | _ => throw "wrong number of items."

/-- `AclTree::from_raw`: each line that is not blank after `trim` is parsed into the tree, which
starts empty; the first error ends the parse with its line number. -/
def fromRaw (parseAuthid : String → Except String Authid) (raw : String) :
    Except String AclTree :=
  (Text.lines raw.toList).zipIdx.foldlM (fun tree entry =>
    let line := Rrd.trim entry.1
    if line.isEmpty then pure tree
    else match parseAclLine parseAuthid tree line with
      | .ok tree => pure tree
      | .error err =>
        throw s!"unable to parse acl config data, line {entry.2 + 1} - {err}") AclTree.new

/-! ## Reading written text back -/

/-- A name that keeps its place in a list of `acl.cfg`: no field separator `:`, no list
separator `,`, and no whitespace, which `trim` cuts off and of which the line break is one. -/
def ListName (name : String) : Prop :=
  ∀ c ∈ name.toList, c ≠ ':' ∧ c ≠ ',' ∧ Rrd.isWhitespace c = false

instance : DecidablePred ListName := fun name =>
  List.decidableBAll (fun c => c ≠ ':' ∧ c ≠ ',' ∧ Rrd.isWhitespace c = false) name.toList

theorem dropWhile_whitespace_eq_self {l : List Char}
    (h : ∀ c ∈ l.head?, Rrd.isWhitespace c = false) : l.dropWhile Rrd.isWhitespace = l := by
  cases l with
  | nil => rfl
  | cons c l => exact List.dropWhile_cons_of_neg (by simpa using h c rfl)

/-- `trim` keeps a text whose first and last characters are not whitespace. -/
theorem trim_eq_self {s : List Char} (hhead : ∀ c ∈ s.head?, Rrd.isWhitespace c = false)
    (hlast : ∀ c ∈ s.getLast?, Rrd.isWhitespace c = false) : Rrd.trim s = s := by
  rw [Rrd.trim, dropWhile_whitespace_eq_self hhead, dropWhile_whitespace_eq_self,
    List.reverse_reverse]
  rwa [List.head?_reverse]

theorem trim_listName {name : String} (h : ListName name) : Rrd.trim name.toList = name.toList :=
  trim_eq_self (fun c hc => (h c (List.mem_of_mem_head? hc)).2.2)
    (fun c hc => (h c (List.mem_of_mem_getLast? hc)).2.2)

theorem toList_joinComma (items : Finset String) :
    (joinComma items).toList = [','].intercalate ((items.sort (· ≤ ·)).map String.toList) := by
  simp [joinComma, String.toList_intercalate]

/-- `split(',')` and `trim` read a joined list back as its items in order. -/
theorem splitOn_joinComma {items : Finset String} (hne : items.Nonempty)
    (hitems : ∀ name ∈ items, ListName name) :
    ((joinComma items).toList.splitOn ',').map (fun v => String.ofList (Rrd.trim v)) =
      items.sort (· ≤ ·) := by
  rw [toList_joinComma, List.splitOn_intercalate]
  · rw [List.map_map]
    refine (List.map_congr_left fun name hname => ?_).trans (List.map_id _)
    simp [trim_listName (hitems name ((Finset.mem_sort _).mp hname))]
  · intro l hl hcomma
    obtain ⟨name, hname, rfl⟩ := List.mem_map.mp hl
    exact (hitems name ((Finset.mem_sort _).mp hname) ',' hcomma).2.1 rfl
  · rw [ne_eq, List.map_eq_nil_iff, ← ne_eq, ← List.length_pos_iff, Finset.length_sort]
    exact hne.card_pos

theorem toList_aclLine (propagate : Bool) (path uglist roles : String) :
    (aclLine propagate path uglist roles).toList =
      [':'].intercalate ["acl".toList, (if propagate then "1" else "0").toList, path.toList,
        uglist.toList, roles.toList] := by
  cases propagate <;> simp [aclLine, List.intercalate_cons_cons]

/-- `split(':')` cuts a written line into its five fields. -/
theorem splitOn_aclLine (propagate : Bool) {path uglist roles : String}
    (hpath : ':' ∉ path.toList) (huglist : ':' ∉ uglist.toList) (hroles : ':' ∉ roles.toList) :
    (aclLine propagate path uglist roles).toList.splitOn ':' =
      ["acl".toList, (if propagate then "1" else "0").toList, path.toList, uglist.toList,
        roles.toList] := by
  rw [toList_aclLine, List.splitOn_intercalate]
  · intro l hl
    simp only [List.mem_cons, List.not_mem_nil, or_false] at hl
    rcases hl with rfl | rfl | rfl | rfl | rfl
    · simp
    · cases propagate <;> simp
    · exact hpath
    · exact huglist
    · exact hroles
  · simp

/-- The path `write_node_config` passes down to the node below `comps`: `/` and a component for
each. -/
def pathOf (comps : List String) : String := String.join (comps.map ("/" ++ ·))

/-- The path field of a line, `/` for the root. -/
def pathField (comps : List String) : String :=
  if (pathOf comps).isEmpty then "/" else pathOf comps

theorem pathOf_concat (comps : List String) (name : String) :
    pathOf (comps ++ [name]) = pathOf comps ++ "/" ++ name := by
  rw [← String.toList_inj]
  simp [pathOf, String.toList_join]

theorem toList_pathOf (comps : List String) :
    (pathOf comps).toList = comps.flatMap fun comp => '/' :: comp.toList := by
  simp [pathOf, String.toList_join, List.flatMap_map]

/-- A component of an ACL path as the writer needs it: not empty, and neither a slash, a colon
nor a line break in it. -/
def PathComponent (comp : String) : Prop :=
  comp ≠ "" ∧ ∀ c ∈ comp.toList, c ≠ '/' ∧ c ≠ ':' ∧ c ≠ '\n'

instance : DecidablePred PathComponent := fun comp =>
  @instDecidableAnd _ _ _ (List.decidableBAll (fun c => c ≠ '/' ∧ c ≠ ':' ∧ c ≠ '\n') comp.toList)

theorem toList_pathOf_eq_intercalate (comps : List String) :
    (pathOf comps).toList = ['/'].intercalate ([] :: comps.map String.toList) := by
  rw [toList_pathOf, ← List.flatMap_cons_eq_intercalate, List.flatMap_map]

theorem splitAclPath_pathField {comps : List String} (h : ∀ comp ∈ comps, PathComponent comp) :
    splitAclPath (pathField comps) = comps := by
  cases comps with
  | nil => rfl
  | cons comp rest =>
    have hne : (pathOf (comp :: rest)).isEmpty = false := by
      rw [Bool.eq_false_iff, ne_eq, String.isEmpty_iff, ← String.toList_inj, toList_pathOf]
      simp
    have hsplit : (pathOf (comp :: rest)).toList.splitOn '/' =
        [] :: (comp :: rest).map String.toList := by
      rw [toList_pathOf_eq_intercalate, List.splitOn_intercalate]
      · intro l hl hslash
        rcases List.mem_cons.mp hl with rfl | hl
        · simp at hslash
        · obtain ⟨c, hc, rfl⟩ := List.mem_map.mp hl
          exact (h c hc).2 '/' hslash |>.1 rfl
      · simp
    rw [pathField, hne, if_neg Bool.false_ne_true, splitAclPath, splitSlash, hsplit]
    simp only [List.map_cons, List.map_map, Function.comp_def, String.ofList_toList,
      String.ofList_nil, List.map_id']
    rw [List.filter_cons_of_neg (by simp), List.filter_eq_self.mpr]
    intro c hc
    simpa using (h c hc).1

theorem not_mem_pathField {comps : List String} (h : ∀ comp ∈ comps, PathComponent comp)
    {c : Char} (hc : c = ':' ∨ c = '\n') : c ∉ (pathField comps).toList := by
  unfold pathField
  split
  · rcases hc with rfl | rfl <;> simp
  · rw [toList_pathOf, List.mem_flatMap]
    rintro ⟨comp, hcomp, hmem⟩
    rcases List.mem_cons.mp hmem with rfl | hmem
    · rcases hc with h | h <;> cases h
    · have := ((h comp hcomp).2 c hmem).2
      rcases hc with rfl | rfl
      · exact this.1 rfl
      · exact this.2 rfl

/-- Every known role name keeps its place in a list. -/
theorem listName_of_roleNames {role : String} (h : (roleNames role).isSome) : ListName role := by
  unfold roleNames at h
  split at h <;> simp_all [ListName, Rrd.isWhitespace]

/-- The characters of a written list: the separator and those of the names. -/
theorem mem_joinComma {names : Finset String} (hnames : ∀ name ∈ names, ListName name)
    {c : Char} (hc : c ∈ (joinComma names).toList) :
    c ≠ ':' ∧ Rrd.isWhitespace c = false := by
  rw [toList_joinComma] at hc
  rcases List.mem_of_mem_intercalate hc with hc | ⟨l, hl, hc⟩
  · rw [List.mem_singleton] at hc
    subst hc
    exact ⟨by decide, rfl⟩
  · obtain ⟨name, hname, rfl⟩ := List.mem_map.mp hl
    have := hnames name ((Finset.mem_sort _).mp hname) c hc
    exact ⟨this.1, this.2.2⟩

theorem mem_roleList {roles : Finset String} (hroles : ∀ role ∈ roles, ListName role)
    {c : Char} (hc : c ∈ (roleList roles).toList) :
    c ≠ ':' ∧ Rrd.isWhitespace c = false := by
  unfold roleList at hc
  split at hc
  · have := @listName_of_roleNames roleNameNoAccess rfl c hc
    exact ⟨this.1, this.2.2⟩
  · exact mem_joinComma hroles hc

theorem roleList_ne_empty {roles : Finset String} (hne : roles.Nonempty)
    (hroles : ∀ role ∈ roles, (roleNames role).isSome) : (roleList roles).toList ≠ [] := by
  unfold roleList
  split
  · simp [roleNameNoAccess]
  · obtain ⟨first, rest, hsort⟩ : ∃ first rest, roles.sort (· ≤ ·) = first :: rest := by
      rcases hsort : roles.sort (· ≤ ·) with _ | ⟨first, rest⟩
      · rw [← List.length_eq_zero_iff, Finset.length_sort] at hsort
        exact absurd hsort hne.card_pos.ne'
      · exact ⟨first, rest, rfl⟩
    have hmem : first ∈ roles.sort (· ≤ ·) := by
      rw [hsort]
      exact List.mem_cons_self ..
    have hfirst : (roleNames first).isSome := hroles first ((Finset.mem_sort _).mp hmem)
    have hfirst' : first.toList ≠ [] := by
      unfold roleNames at hfirst
      split at hfirst <;> simp_all
    rw [toList_joinComma, hsort, List.map_cons, List.intercalate_cons_eq_append_intercalate_nil]
    simp [hfirst']

/-- The roles `parse_acl_line` reads from a written role list. -/
def parsedRoles (roles : Finset String) : List String :=
  if roleNameNoAccess ∈ roles then [roleNameNoAccess] else roles.sort (· ≤ ·)

theorem splitOn_roleList {roles : Finset String} (hne : roles.Nonempty)
    (hroles : ∀ role ∈ roles, ListName role) :
    ((roleList roles).toList.splitOn ',').map (fun v => String.ofList (Rrd.trim v)) =
      parsedRoles roles := by
  unfold roleList parsedRoles
  split
  · have hname : ListName roleNameNoAccess := listName_of_roleNames rfl
    rw [List.splitOn_eq_singleton fun hc => (hname ',' hc).2.1 rfl]
    simp [trim_listName hname]
  · exact splitOn_joinComma hne hroles

/-- A written line, read by `parse_acl_line`: its pairs go into the node of its path. -/
theorem parseAclLine_aclLine (parseAuthid : String → Except String Authid) (tree : AclTree)
    (propagate : Bool) {comps : List String} {names roles : Finset String}
    (hcomps : ∀ comp ∈ comps, PathComponent comp) (hnames : names.Nonempty)
    (hnames' : ∀ name ∈ names, ListName name) (hroles : roles.Nonempty)
    (hroles' : ∀ role ∈ roles, ListName role) :
    parseAclLine parseAuthid tree
        (aclLine propagate (pathField comps) (joinComma names) (roleList roles)).toList =
      insertLinePairs parseAuthid propagate (parsedRoles roles)
          ((tree.getNode comps).getD AclTreeNode.new) (names.sort (· ≤ ·)) >>= fun node =>
        pure (tree.modifyNode comps fun _ => node) := by
  have hugColon : ':' ∉ (joinComma names).toList := fun hc => (mem_joinComma hnames' hc).1 rfl
  have hroleColon : ':' ∉ (roleList roles).toList := fun hc => (mem_roleList hroles' hc).1 rfl
  rw [parseAclLine, splitOn_aclLine propagate (not_mem_pathField hcomps (.inl rfl)) hugColon
    hroleColon]
  simp only [splitOn_joinComma hnames hnames', splitOn_roleList hroles hroles',
    String.ofList_toList, splitAclPath_pathField hcomps]
  cases propagate <;> rfl

/-! ## Reading names back -/

/-- The name `write_node_config` writes for a user, token or group. -/
def UserOrGroup.name : UserOrGroup → String
  | .user authId => authId.toString
  | .group groupName => "@" ++ groupName

/-- How `parse_acl_line` reads a name of a line: `@name` is a group, anything else an auth
id. -/
def readUserOrGroup (parseAuthid : String → Except String Authid) (name : String) :
    Except String UserOrGroup :=
  match name.toList with
  | '@' :: group => .ok (.group (String.ofList group))
  | _ => (parseAuthid name).map .user

/-- A user, token or group whose written name keeps its place in a line and reads back as
itself: an auth id that `str::parse` reads back and that does not look like a group, or any
group. -/
def UserOrGroup.Readable (parseAuthid : String → Except String Authid) : UserOrGroup → Prop
  | .user authId => ListName authId.toString ∧ authId.toString.toList.head? ≠ some '@' ∧
      parseAuthid authId.toString = .ok authId
  | .group groupName => ListName groupName

namespace UserOrGroup

variable {parseAuthid : String → Except String Authid}

theorem listName_name {holder : UserOrGroup} (h : holder.Readable parseAuthid) :
    ListName holder.name := by
  cases holder with
  | user authId => exact h.1
  | group groupName =>
    intro c hc
    simp only [name, String.toList_append, List.mem_append] at hc
    rcases hc with hc | hc
    · simp at hc
      subst hc
      exact ⟨by decide, by decide, rfl⟩
    · exact h c hc

theorem readUserOrGroup_name {holder : UserOrGroup} (h : holder.Readable parseAuthid) :
    readUserOrGroup parseAuthid holder.name = .ok holder := by
  cases holder with
  | user authId =>
    obtain ⟨-, hat, hparse⟩ := h
    unfold readUserOrGroup
    split
    · rename_i group hgroup
      rw [name] at hgroup
      rw [hgroup] at hat
      simp at hat
    · simp [name, hparse]
  | group groupName => simp [readUserOrGroup, name]

/-- Readable users, tokens and groups have different names. -/
theorem name_injective {holder holder' : UserOrGroup} (h : holder.Readable parseAuthid)
    (h' : holder'.Readable parseAuthid) (hname : holder.name = holder'.name) : holder = holder' := by
  have := readUserOrGroup_name h
  rwa [hname, readUserOrGroup_name h', Except.ok.injEq, eq_comm] at this

end UserOrGroup

/-! ## What a line does -/

namespace AclTreeNode

/-- The insertion `parse_acl_line` makes for a user, token or group. -/
def insertFor (node : AclTreeNode) : UserOrGroup → String → Bool → AclTreeNode
  | .user authId, role, propagate => node.insertUserRole authId role propagate
  | .group group, role, propagate => node.insertGroupRole group role propagate

theorem children_insertFor (node : AclTreeNode) (holder : UserOrGroup) (role : String)
    (propagate : Bool) : (node.insertFor holder role propagate).children = node.children := by
  cases holder <;> rfl

theorem roleMapOf_insertFor (node : AclTreeNode) (holder : UserOrGroup) (role : String)
    (propagate : Bool) (other : UserOrGroup) :
    (node.insertFor holder role propagate).roleMapOf other =
      if other = holder then some (insertRole ((node.roleMapOf other).getD ∅) role propagate)
      else node.roleMapOf other := by
  cases holder with
  | user authId => exact roleMapOf_insertUserRole ..
  | group group => exact roleMapOf_insertGroupRole ..

/-- The roles of a line, inserted one after the other for one user, token or group. -/
def insertRoles (node : AclTreeNode) (holder : UserOrGroup) (roles : List String)
    (propagate : Bool) : AclTreeNode :=
  roles.foldl (fun node role => node.insertFor holder role propagate) node

theorem children_insertRoles (node : AclTreeNode) (holder : UserOrGroup) (roles : List String)
    (propagate : Bool) : (node.insertRoles holder roles propagate).children = node.children := by
  induction roles generalizing node with
  | nil => rfl
  | cons role roles ih => rw [insertRoles, List.foldl_cons, ← insertRoles, ih, children_insertFor]

theorem roleMapOf_insertRoles (node : AclTreeNode) (holder : UserOrGroup) (roles : List String)
    (propagate : Bool) (other : UserOrGroup) :
    ((node.insertRoles holder roles propagate).roleMapOf other).getD ∅ =
      if other = holder then
        roles.foldl (fun map role => insertRole map role propagate) ((node.roleMapOf other).getD ∅)
      else (node.roleMapOf other).getD ∅ := by
  induction roles generalizing node with
  | nil => split <;> rfl
  | cons role roles ih =>
    rw [insertRoles, List.foldl_cons, ← insertRoles, ih, roleMapOf_insertFor]
    by_cases hother : other = holder <;> simp [hother]

end AclTreeNode

variable {parseAuthid : String → Except String Authid}

/-- The pairs of a line whose roles are known and whose names read back: each user, token or
group of the line takes the line's roles, in the order of the names. -/
theorem insertLinePairs_eq (propagate : Bool) {roles : List String}
    (hroles : ∀ role ∈ roles, (roleNames role).isSome) {holders : List UserOrGroup}
    (hread : ∀ holder ∈ holders, holder.Readable parseAuthid) (node : AclTreeNode) :
    insertLinePairs parseAuthid propagate roles node (holders.map UserOrGroup.name) =
      .ok (holders.foldl (fun node holder => node.insertRoles holder roles propagate) node) := by
  rw [insertLinePairs, List.foldlM_map]
  apply Except.foldlM_eq_ok
  intro node holder hholder
  apply Except.foldlM_eq_ok
  intro node role hrole
  have hknown : (roleNames role).isNone = false := by
    simpa [Option.isNone_iff_eq_none, ← Option.isSome_iff_ne_none] using hroles role hrole
  have hread' := UserOrGroup.readUserOrGroup_name (hread holder hholder)
  unfold readUserOrGroup at hread'
  simp only [hknown, Bool.false_eq_true, if_false]
  split at hread'
  · cases hread'
    simp [AclTreeNode.insertFor]
  · cases hauth : parseAuthid holder.name with
    | error err => simp [hauth] at hread'
    | ok authId =>
      simp only [hauth, Except.map_ok_eq, Except.ok.injEq] at hread'
      subst hread'
      rfl

/-- The tree after one more line, or the same tree where the line does not parse. -/
def applyLine (parseAuthid : String → Except String Authid) (tree : AclTree) (line : String) :
    AclTree :=
  match parseAclLine parseAuthid tree line.toList with
  | .ok tree => tree
  | .error _ => tree

/-- A line `from_raw` reads as it is: no line break in it, and no whitespace at either end. -/
def CleanLine (line : String) : Prop :=
  '\n' ∉ line.toList ∧ (∃ c, line.toList.head? = some c ∧ Rrd.isWhitespace c = false) ∧
    ∃ c, line.toList.getLast? = some c ∧ Rrd.isWhitespace c = false

/-- `from_raw` of lines written one after another, each of which parses in any tree: the
lines, applied in order to the empty tree. -/
theorem fromRaw_join {lines : List String} (hclean : ∀ line ∈ lines, CleanLine line)
    (hparse : ∀ tree, ∀ line ∈ lines, ∃ tree', parseAclLine parseAuthid tree line.toList = .ok tree') :
    fromRaw parseAuthid (String.join (lines.map (· ++ "\n"))) =
      .ok (lines.foldl (applyLine parseAuthid) AclTree.new) := by
  have htext : (String.join (lines.map (· ++ "\n"))).toList =
      ((lines.map String.toList).map (· ++ ['\n'])).flatten := by
    simp [String.toList_join, List.flatMap_def, Function.comp_def]
  have hlines : Text.lines (String.join (lines.map (· ++ "\n"))).toList = lines.map String.toList := by
    rw [htext]
    apply Text.lines_flatten
    · intro l hl
      obtain ⟨line, hline, rfl⟩ := List.mem_map.mp hl
      exact (hclean line hline).1
    · intro l hl hcr
      obtain ⟨line, hline, rfl⟩ := List.mem_map.mp hl
      obtain ⟨c, hc, hws⟩ := (hclean line hline).2.2
      rw [hc, Option.some.injEq] at hcr
      subst hcr
      exact absurd hws (by decide)
  rw [fromRaw, hlines,
    @Except.foldlM_eq_ok _ _ _ _ _ (fun tree entry => applyLine parseAuthid tree (String.ofList entry.1)),
    List.foldl_zipIdx_fst (fun tree line => applyLine parseAuthid tree (String.ofList line)),
    List.foldl_map]
  · simp only [String.ofList_toList]
  · intro tree entry hentry
    obtain ⟨line, hline, hentry'⟩ := List.mem_map.mp (List.fst_mem_of_mem_zipIdx hentry)
    obtain ⟨-, ⟨c, hhead, hc⟩, ⟨c', hlast, hc'⟩⟩ := hclean line hline
    have htrim : Rrd.trim entry.1 = line.toList := by
      rw [← hentry']
      exact trim_eq_self (by simp [hhead, hc]) (by simp [hlast, hc'])
    have hne : line.toList.isEmpty = false := by
      cases h : line.toList with
      | nil => simp [h] at hhead
      | cons _ _ => rfl
    obtain ⟨tree', hparse'⟩ := hparse tree line hline
    dsimp only
    rw [htrim, hne, ← hentry', String.ofList_toList, applyLine, hparse']
    rfl

end ProxmoxBackup.Acl
