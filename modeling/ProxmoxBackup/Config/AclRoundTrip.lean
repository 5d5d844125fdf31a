import ProxmoxBackup.Config.AclWritable

/-!
# `acl.cfg` read back (`pbs-config/src/acl.rs`)

`AclTree::write_config` followed by `AclTree::from_raw` gives back every role map of the tree,
except those of `root@pam`, which the writer leaves out.

* `mem_roleUgMaps` and `mem_groupByPropertyList`: what `role_ug_map0/1` and
  `group_by_property_list` hold, read through the fold rules of `Foundations/Assoc`.
-/

namespace ProxmoxBackup.Acl

/-! ## What `write_node_config` collects -/

/-- The map of one propagate flag: `role_ug_map0` for `false`, `role_ug_map1` for `true`. -/
def byFlag (maps : SetMap × SetMap) : Bool → SetMap
  | false => maps.1
  | true => maps.2

namespace SetMap

theorem mem_add {map : SetMap} {key item k x : String} :
    x ∈ ((map.add key item).lookup k).getD ∅ ↔ (key = k ∧ item = x) ∨ x ∈ (map.lookup k).getD ∅ := by
  by_cases hk : key = k
  · subst hk
    simp [add, eq_comm]
  · simp [add, AList.lookup_insert_ne (Ne.symm hk), hk]

/-- Every set the map holds has a member. -/
def NonemptyValues (map : SetMap) : Prop := ∀ k s, map.lookup k = some s → s.Nonempty

theorem nonemptyValues_empty : NonemptyValues ∅ := by
  simp [NonemptyValues]

theorem NonemptyValues.add {map : SetMap} (h : map.NonemptyValues) (key item : String) :
    (map.add key item).NonemptyValues := by
  intro k s hs
  by_cases hk : k = key
  · subst hk
    simp only [SetMap.add, AList.lookup_insert, Option.some.injEq] at hs
    exact hs ▸ Finset.insert_nonempty _ _
  · rw [SetMap.add, AList.lookup_insert_ne hk] at hs
    exact h k s hs

end SetMap

theorem mem_addRoles {name : String} {maps : SetMap × SetMap} {roles : RoleMap} {p : Bool}
    {r x : String} :
    x ∈ ((byFlag (addRoles name maps roles) p).lookup r).getD ∅ ↔
      (name = x ∧ roles.lookup r = some p) ∨ x ∈ ((byFlag maps p).lookup r).getD ∅ := by
  rw [addRoles, List.foldl_iff_exists (fun maps => x ∈ ((byFlag maps p).lookup r).getD ∅)
    (fun entry => entry.1 = r ∧ name = x ∧ entry.2 = p)]
  · rw [AList.exists_mem_entries_iff]
    refine or_congr_left ⟨?_, ?_⟩
    · rintro ⟨_, _, hq, rfl, hname, rfl⟩
      exact ⟨hname, hq⟩
    · rintro ⟨hname, hq⟩
      exact ⟨r, p, hq, rfl, hname, rfl⟩
  · intro maps entry _
    cases hflag : entry.2 <;> cases p <;> simp [byFlag, SetMap.mem_add]

theorem nonemptyValues_addRoles {maps : SetMap × SetMap} (h₁ : maps.1.NonemptyValues)
    (h₂ : maps.2.NonemptyValues) (name : String) (roles : RoleMap) (p : Bool) :
    (byFlag (addRoles name maps roles) p).NonemptyValues := by
  suffices h : (addRoles name maps roles).1.NonemptyValues ∧
      (addRoles name maps roles).2.NonemptyValues by
    cases p
    · exact h.1
    · exact h.2
  apply List.foldl_invariant (fun maps : SetMap × SetMap => maps.1.NonemptyValues ∧
    maps.2.NonemptyValues) _ ⟨h₁, h₂⟩
  rintro maps entry - ⟨h₁, h₂⟩
  split
  · exact ⟨h₁, h₂.add _ _⟩
  · exact ⟨h₁.add _ _, h₂⟩

/-- A name is in the map of a role and flag exactly when a user, token or group other than
`root@pam` is named so and has the role with that flag. -/
theorem mem_roleUgMaps {node : AclTreeNode} {p : Bool} {r x : String} :
    x ∈ ((byFlag (roleUgMaps node) p).lookup r).getD ∅ ↔
      ∃ holder : UserOrGroup, holder.isSuperuser = false ∧ holder.name = x ∧
        ∃ roles, node.roleMapOf holder = some roles ∧ roles.lookup r = some p := by
  let P := fun maps : SetMap × SetMap => x ∈ ((byFlag maps p).lookup r).getD ∅
  change P _ ↔ _
  rw [roleUgMaps, List.foldl_iff_exists P
      (fun entry => "@" ++ entry.1 = x ∧ entry.2.lookup r = some p) (fun _ _ _ => mem_addRoles),
    List.foldl_iff_exists P (fun entry => (!entry.1.isToken && decide (entry.1.user = "root@pam"))
      = false ∧ entry.1.toString = x ∧ entry.2.lookup r = some p),
    AList.exists_mem_entries_iff, AList.exists_mem_entries_iff]
  rotate_left
  · intro maps entry _
    split
    · rename_i hskip
      simp [hskip]
    · rename_i hskip
      simpa [hskip, P] using mem_addRoles
  constructor
  · rintro (⟨group, roles, hroles, hname, hr⟩ | ⟨authId, roles, hroles, hsu, hname, hr⟩ | hempty)
    · exact ⟨.group group, rfl, hname, roles, hroles, hr⟩
    · exact ⟨.user authId, hsu, hname, roles, hroles, hr⟩
    · cases p <;> simp [P, byFlag] at hempty
  · rintro ⟨holder, hsu, hname, roles, hroles, hr⟩
    cases holder with
    | user authId => exact .inr (.inl ⟨authId, roles, hroles, hsu, hname, hr⟩)
    | group group => exact .inl ⟨group, roles, hroles, hname, hr⟩

theorem nonemptyValues_roleUgMaps (node : AclTreeNode) (p : Bool) :
    (byFlag (roleUgMaps node) p).NonemptyValues := by
  suffices h : ∀ p, (byFlag (roleUgMaps node) p).NonemptyValues from h p
  let P := fun maps : SetMap × SetMap => ∀ p, (byFlag maps p).NonemptyValues
  have hstep {maps : SetMap × SetMap} (h : P maps) (name : String) (roles : RoleMap) :
      P (addRoles name maps roles) :=
    fun _ => nonemptyValues_addRoles (h false) (h true) name roles _
  rw [roleUgMaps]
  apply List.foldl_invariant P (fun maps entry _ h => hstep h _ _)
  apply List.foldl_invariant P
  · intro maps entry _ h
    split
    · exact h
    · exact hstep h _ _
  · intro p
    cases p <;> exact SetMap.nonemptyValues_empty

/-- A role is under a key of `group_by_property_list` exactly when the key is its joined set of
users and groups. -/
theorem mem_groupByPropertyList {map : SetMap} {k r : String} :
    r ∈ ((groupByPropertyList map).lookup k).getD ∅ ↔
      ∃ s, map.lookup r = some s ∧ joinComma s = k := by
  rw [groupByPropertyList, List.foldl_iff_exists (fun result : SetMap => r ∈ (result.lookup k).getD ∅)
    (fun entry => joinComma entry.2 = k ∧ entry.1 = r), AList.exists_mem_entries_iff]
  · simp
  · exact fun _ _ _ => SetMap.mem_add

theorem nonemptyValues_groupByPropertyList (map : SetMap) :
    (groupByPropertyList map).NonemptyValues :=
  List.foldl_invariant _ (fun _ _ _ h => h.add _ _) SetMap.nonemptyValues_empty

/-! ## A role map rebuilt from its pairs -/

namespace AclTreeNode

theorem erase_noAccess_of_lookup {roles : RoleMap} (h : roles.lookup roleNameNoAccess = none) :
    roles.erase roleNameNoAccess = roles :=
  AList.ext (List.kerase_of_notMem_keys (AList.lookup_eq_none.mp h))

/-- Into a map without `NoAccess`, roles other than `NoAccess` are only inserted. -/
theorem foldl_insertRole_eq_foldl_insert {pairs : List (String × Bool)}
    (hpairs : ∀ e ∈ pairs, e.1 ≠ roleNameNoAccess) {roles : RoleMap}
    (hroles : roles.lookup roleNameNoAccess = none) :
    pairs.foldl (fun m e => insertRole m e.1 e.2) roles =
      pairs.foldl (fun m e => m.insert e.1 e.2) roles := by
  induction pairs generalizing roles with
  | nil => rfl
  | cons e pairs ih =>
    have he := hpairs e (List.mem_cons_self ..)
    have hinsert : (roles.insert e.1 e.2).lookup roleNameNoAccess = none := by
      rw [AList.lookup_insert_ne (Ne.symm he)]
      exact hroles
    rw [List.foldl_cons, List.foldl_cons, insertRole, if_neg he, erase_noAccess_of_lookup hroles]
    exact ih (fun e' he' => hpairs e' (List.mem_cons_of_mem _ he')) hinsert

/-- Inserting, in any order, pairs that are exactly the entries of a map where `NoAccess` stands
alone rebuilds the map from an empty one. -/
theorem lookup_foldl_insertRole {roles : RoleMap} (hroles : NoAccessAlone roles)
    {pairs : List (String × Bool)} (hpairs : ∀ r q, (r, q) ∈ pairs ↔ roles.lookup r = some q)
    (r : String) :
    (pairs.foldl (fun m e => insertRole m e.1 e.2) ∅).lookup r = roles.lookup r := by
  cases hno : roles.lookup roleNameNoAccess with
  | some q =>
    -- every pair is `(NoAccess, q)`, and the last one leaves `NoAccess` alone in the map
    have halone := hroles (by simp [hno])
    have hall : ∀ e ∈ pairs, e = (roleNameNoAccess, q) := by
      rintro ⟨r', q'⟩ he
      have hr' := (hpairs r' q').mp he
      by_cases hr'no : r' = roleNameNoAccess
      · subst hr'no
        rw [hno, Option.some.injEq] at hr'
        rw [hr']
      · rw [halone r' hr'no] at hr'
        cases hr'
    have hne : pairs ≠ [] := List.ne_nil_of_mem ((hpairs _ _).mpr hno)
    rw [← List.dropLast_append_getLast hne, List.foldl_append, List.foldl_cons, List.foldl_nil,
      hall _ (List.getLast_mem hne), insertRole, if_pos rfl]
    by_cases hr : r = roleNameNoAccess
    · subst hr
      rw [AList.lookup_insert, hno]
    · rw [AList.lookup_insert_ne hr, halone r hr]
      rfl
  | none =>
    have hpairs' : ∀ e ∈ pairs, e.1 ≠ roleNameNoAccess := by
      rintro ⟨r', q'⟩ he rfl
      rw [(hpairs _ _).mp he] at hno
      cases hno
    rw [foldl_insertRole_eq_foldl_insert hpairs' (AList.lookup_empty _), AList.lookup_foldl_insert,
      AList.lookup_empty, Option.or_none]
    cases hr : roles.lookup r with
    | none =>
      refine List.lookup_eq_none_of_forall fun q hq => ?_
      rw [(hpairs r q).mp (List.mem_reverse.mp hq)] at hr
      cases hr
    | some q =>
      refine List.lookup_eq_some_of_functional (List.mem_reverse.mpr ((hpairs r q).mpr hr)) ?_
      intro q' hq'
      rw [(hpairs r q').mp (List.mem_reverse.mp hq'), Option.some.injEq] at hr
      exact hr

end AclTreeNode

/-! ## What one written line does -/

variable {parseAuthid : String → Except String Authid}

/-- The names and roles of a line as `write_node_config` writes them: some names, each that of
a user, token or group that reads back, and some known roles. -/
structure WrittenFields (parseAuthid : String → Except String Authid)
    (names roles : Finset String) : Prop where
  names_nonempty : names.Nonempty
  names_readable : ∀ x ∈ names, ∃ holder : UserOrGroup, holder.Readable parseAuthid ∧ holder.name = x
  roles_nonempty : roles.Nonempty
  roles_known : ∀ r ∈ roles, (roleNames r).isSome

/-- The line `write_node_config` writes for a path and a propagate flag, names and roles. -/
def writtenLine (comps : List String) (fields : Bool × Finset String × Finset String) : String :=
  aclLine fields.1 (pathField comps) (joinComma fields.2.1) (roleList fields.2.2)

theorem mem_of_mem_parsedRoles {roles : Finset String} {r : String} (h : r ∈ parsedRoles roles) :
    r ∈ roles := by
  unfold parsedRoles at h
  split at h
  · rw [List.mem_singleton] at h
    subst h
    assumption
  · exact (Finset.mem_sort _).mp h

theorem exists_holders {names : List String}
    (h : ∀ x ∈ names, ∃ holder : UserOrGroup, holder.Readable parseAuthid ∧ holder.name = x) :
    ∃ holders : List UserOrGroup, (∀ holder ∈ holders, holder.Readable parseAuthid) ∧
      holders.map UserOrGroup.name = names := by
  induction names with
  | nil => exact ⟨[], by simp, rfl⟩
  | cons x names ih =>
    obtain ⟨holder, hread, rfl⟩ := h x (List.mem_cons_self ..)
    obtain ⟨holders, hreads, hnames⟩ := ih fun y hy => h y (List.mem_cons_of_mem _ hy)
    refine ⟨holder :: holders, ?_, by rw [List.map_cons, hnames]⟩
    simpa [hread] using hreads

/-- The users, tokens and groups of a written line are those that read back and whose names it
holds. -/
theorem mem_holders_iff {holders : List UserOrGroup}
    (hreads : ∀ holder ∈ holders, holder.Readable parseAuthid) {names : List String}
    (hnames : holders.map UserOrGroup.name = names) {other : UserOrGroup} :
    other ∈ holders ↔ other.Readable parseAuthid ∧ other.name ∈ names := by
  subst hnames
  constructor
  · intro hmem
    exact ⟨hreads other hmem, List.mem_map_of_mem hmem⟩
  · rintro ⟨hread, hname⟩
    obtain ⟨holder, hmem, hsame⟩ := List.mem_map.mp hname
    rwa [← UserOrGroup.name_injective (hreads holder hmem) hread hsame]

namespace AclTreeNode

theorem children_foldl_insertRoles (holders : List UserOrGroup) (roles : List String)
    (p : Bool) (node : AclTreeNode) :
    (holders.foldl (fun node holder => node.insertRoles holder roles p) node).children =
      node.children :=
  List.foldl_invariant (fun node' : AclTreeNode => node'.children = node.children)
    (fun node' holder _ h => (children_insertRoles node' holder roles p).trans h) rfl

/-- The roles of a line, inserted for each of its users, tokens and groups. -/
theorem roleMapOf_foldl_insertRoles {holders : List UserOrGroup} (hnodup : holders.Nodup)
    (roles : List String) (p : Bool) (node : AclTreeNode) (other : UserOrGroup) :
    ((holders.foldl (fun node holder => node.insertRoles holder roles p) node).roleMapOf
        other).getD ∅ =
      if other ∈ holders then
        roles.foldl (fun map role => insertRole map role p) ((node.roleMapOf other).getD ∅)
      else (node.roleMapOf other).getD ∅ := by
  induction holders generalizing node with
  | nil => simp
  | cons holder holders ih =>
    rw [List.foldl_cons, ih (List.nodup_cons.mp hnodup).2, roleMapOf_insertRoles]
    by_cases hother : other = holder
    · subst hother
      simp [(List.nodup_cons.mp hnodup).1]
    · simp [hother]

end AclTreeNode

/-- A written line parses: each of its users, tokens and groups, which read back, takes its
roles in the node of its path. -/
theorem parseAclLine_written (tree : AclTree) {comps : List String}
    (hcomps : ∀ comp ∈ comps, PathComponent comp) (p : Bool) {names roles : Finset String}
    (hf : WrittenFields parseAuthid names roles) :
    ∃ holders : List UserOrGroup, (∀ holder ∈ holders, holder.Readable parseAuthid) ∧
      holders.map UserOrGroup.name = names.sort (· ≤ ·) ∧
      parseAclLine parseAuthid tree (writtenLine comps (p, names, roles)).toList =
        .ok (tree.modifyNode comps fun _ => holders.foldl
          (fun node holder => node.insertRoles holder (parsedRoles roles) p)
          ((tree.getNode comps).getD AclTreeNode.new)) := by
  obtain ⟨holders, hreads, hnames⟩ := @exists_holders parseAuthid
    (names.sort (· ≤ ·)) fun x hx => hf.names_readable x ((Finset.mem_sort _).mp hx)
  have hnames' : ∀ x ∈ names, ListName x := by
    intro x hx
    obtain ⟨holder, hread, rfl⟩ := hf.names_readable x hx
    exact UserOrGroup.listName_name hread
  have hknown : ∀ r ∈ parsedRoles roles, (roleNames r).isSome :=
    fun r hr => hf.roles_known r (mem_of_mem_parsedRoles hr)
  refine ⟨holders, hreads, hnames, ?_⟩
  rw [writtenLine, parseAclLine_aclLine parseAuthid tree p hcomps hf.names_nonempty hnames'
      hf.roles_nonempty fun r hr => listName_of_roleNames (hf.roles_known r hr),
    ← hnames, insertLinePairs_eq p hknown hreads]
  rfl

namespace AclTree

/-- What a written line does to the maps: each of its users, tokens and groups, which read back,
takes the roles the line reads on its path. -/
theorem maps_applyLine_written_eq (tree : AclTree) {comps : List String}
    (hcomps : ∀ comp ∈ comps, PathComponent comp) (p : Bool) {names roles : Finset String}
    (hf : WrittenFields parseAuthid names roles) :
    ∃ holders : List UserOrGroup, (∀ holder ∈ holders, holder.Readable parseAuthid) ∧
      holders.map UserOrGroup.name = names.sort (· ≤ ·) ∧ ∀ path other,
        (applyLine parseAuthid tree (writtenLine comps (p, names, roles))).maps path other =
          if path = comps ∧ other ∈ holders then
            (parsedRoles roles).foldl (fun map role => AclTreeNode.insertRole map role p)
              (tree.maps comps other)
          else tree.maps path other := by
  obtain ⟨holders, hreads, hnames, hparse⟩ := parseAclLine_written tree hcomps p hf
  have hnodup : holders.Nodup := List.Nodup.of_map _ (hnames ▸ Finset.sort_nodup _ _)
  have hsub : subComponents comps = comps :=
    subComponents_of_forall fun comp hcomp hslash => ((hcomps comp hcomp).2 '/' hslash).1 rfl
  refine ⟨holders, hreads, hnames, fun path other => ?_⟩
  rw [applyLine, hparse]
  simp only [maps, modifyNode, getNode, hsub]
  rw [AclTreeNode.mapAt_modifyAt _ _ _ _ (AclTreeNode.children_foldl_insertRoles _ _ _ _),
    AclTreeNode.roleMapOf_foldl_insertRoles hnodup, ← AclTreeNode.mapAt_eq_roleMapOf]
  by_cases hpath : path = comps
  · subst hpath
    by_cases hmem : other ∈ holders <;> simp [hmem]
  · simp [hpath]

/-- A written line leaves the maps of other paths, and of users, tokens and groups that do not
read back, as they were. -/
theorem maps_applyLine_written_of_ne (tree : AclTree) {comps : List String}
    (hcomps : ∀ comp ∈ comps, PathComponent comp) (p : Bool) {names roles : Finset String}
    (hf : WrittenFields parseAuthid names roles) {path : List String} {other : UserOrGroup}
    (h : path ≠ comps ∨ ¬ other.Readable parseAuthid) :
    (applyLine parseAuthid tree (writtenLine comps (p, names, roles))).maps path other =
      tree.maps path other := by
  obtain ⟨holders, hreads, -, heq⟩ := maps_applyLine_written_eq tree hcomps p hf
  rw [heq, if_neg]
  rintro ⟨rfl, hmem⟩
  rcases h with h | h
  · exact h rfl
  · exact h (hreads other hmem)

theorem maps_applyLine_written (tree : AclTree) {comps : List String}
    (hcomps : ∀ comp ∈ comps, PathComponent comp) (p : Bool) {names roles : Finset String}
    (hf : WrittenFields parseAuthid names roles) {other : UserOrGroup}
    (hother : other.Readable parseAuthid) :
    (applyLine parseAuthid tree (writtenLine comps (p, names, roles))).maps comps other =
      if other.name ∈ names then
        (parsedRoles roles).foldl (fun map role => AclTreeNode.insertRole map role p)
          (tree.maps comps other)
      else tree.maps comps other := by
  obtain ⟨holders, hreads, hnames, heq⟩ := maps_applyLine_written_eq tree hcomps p hf
  have hmem : other ∈ holders ↔ other.name ∈ names := by
    rw [mem_holders_iff hreads hnames, Finset.mem_sort]
    exact and_iff_right hother
  rw [heq]
  simp only [true_and, hmem]

variable {comps : List String} (hcomps : ∀ comp ∈ comps, PathComponent comp)
  {lines : List (Bool × Finset String × Finset String)}
  (hlines : ∀ l ∈ lines, WrittenFields parseAuthid l.2.1 l.2.2)
include hcomps hlines

/-- Written lines of one path leave the maps of other paths, and of users, tokens and groups that
do not read back, as they were. -/
theorem maps_foldl_applyLine_of_ne (tree : AclTree) {path : List String} {other : UserOrGroup}
    (h : path ≠ comps ∨ ¬ other.Readable parseAuthid) :
    ((lines.map (writtenLine comps)).foldl (applyLine parseAuthid) tree).maps path other =
      tree.maps path other := by
  rw [List.foldl_map]
  refine List.foldl_invariant (fun tree' : AclTree => tree'.maps path other = tree.maps path other)
    ?_ rfl
  rintro tree' ⟨p, names, roles⟩ hl htree'
  rw [maps_applyLine_written_of_ne tree' hcomps p (hlines _ hl) h, htree']

/-- Written lines of one path, read one after the other: the map of a user, token or group that
reads back takes the roles of the lines that name it, in order. -/
theorem maps_foldl_applyLine (tree : AclTree) {other : UserOrGroup}
    (hother : other.Readable parseAuthid) :
    ∃ pairs : List (String × Bool),
      (∀ r q, (r, q) ∈ pairs ↔
        ∃ l ∈ lines, l.1 = q ∧ other.name ∈ l.2.1 ∧ r ∈ parsedRoles l.2.2) ∧
      ((lines.map (writtenLine comps)).foldl (applyLine parseAuthid) tree).maps comps other =
        pairs.foldl (fun map e => AclTreeNode.insertRole map e.1 e.2) (tree.maps comps other) := by
  induction lines generalizing tree with
  | nil => exact ⟨[], by simp, rfl⟩
  | cons l lines ih =>
    obtain ⟨p, names, roles⟩ := l
    obtain ⟨pairs, hpairs, heq⟩ := ih (fun l hl => hlines l (List.mem_cons_of_mem _ hl))
      (applyLine parseAuthid tree (writtenLine comps (p, names, roles)))
    have hfirst := hlines _ List.mem_cons_self
    refine ⟨(if other.name ∈ names then (parsedRoles roles).map (·, p) else []) ++ pairs, ?_, ?_⟩
    · intro r q
      rw [List.mem_append, hpairs, List.exists_mem_cons_iff]
      by_cases hname : other.name ∈ names
      · simp [hname, and_comm, eq_comm]
      · simp [hname]
    · rw [List.map_cons, List.foldl_cons, heq, maps_applyLine_written tree hcomps p hfirst hother,
        List.foldl_append]
      by_cases hname : other.name ∈ names
      · simp [hname, List.foldl_map]
      · simp [hname]

end AclTree

/-! ## The lines of one node -/

/-- The names `parse_acl_line` reads from a list field. -/
def readList (field : String) : List String :=
  (field.toList.splitOn ',').map fun v => String.ofList (Rrd.trim v)

/-- The fields of the lines `write_node_config` writes for one propagate flag, in the order of
their keys: the names each key reads back as, and the key's roles. -/
def nodeFields (node : AclTreeNode) (p : Bool) : List (Bool × Finset String × Finset String) :=
  ((groupByPropertyList (byFlag (roleUgMaps node) p)).entries.mergeSort fun x y => x.1 ≤ y.1).map
    fun entry => (p, (readList entry.1).toFinset, entry.2)

theorem roles_nonempty_of_mem_entries {map : SetMap} {entry : (_ : String) × Finset String}
    (hentry : entry ∈ (groupByPropertyList map).entries) : entry.2.Nonempty :=
  nonemptyValues_groupByPropertyList _ entry.1 entry.2 (AList.mem_lookup_iff.mpr hentry)

section NodeLines

variable {node : AclTreeNode} (hnode : node.Writable parseAuthid)
include hnode

/-- In a writable node, a user, token or group that reads back is named in the writer's map of a
role and flag exactly when it has the role with that flag and is not `root@pam`. -/
theorem name_mem_roleUgMaps_iff {holder : UserOrGroup} (hread : holder.Readable parseAuthid)
    {p : Bool} {r : String} :
    holder.name ∈ ((byFlag (roleUgMaps node) p).lookup r).getD ∅ ↔
      holder.isSuperuser = false ∧
        ∃ roles, node.roleMapOf holder = some roles ∧ roles.lookup r = some p := by
  rw [mem_roleUgMaps]
  constructor
  · rintro ⟨other, hsu, hname, roles, hroles, hr⟩
    obtain rfl := UserOrGroup.name_injective (hnode.readable other roles hsu hroles) hread hname
    exact ⟨hsu, roles, hroles, hr⟩
  · rintro ⟨hsu, roles, hroles, hr⟩
    exact ⟨holder, hsu, rfl, roles, hroles, hr⟩

/-- The set of names the writer collects for a role and flag: not empty, and each name that of
a user, token or group that reads back and has the role with that flag. -/
theorem names_of_lookup_roleUgMaps {p : Bool} {r : String} {s : Finset String}
    (hs : (byFlag (roleUgMaps node) p).lookup r = some s) :
    s.Nonempty ∧ ∀ x ∈ s, ∃ holder : UserOrGroup, holder.Readable parseAuthid ∧
      holder.name = x ∧ holder.isSuperuser = false ∧
        ∃ roles, node.roleMapOf holder = some roles ∧ roles.lookup r = some p := by
  refine ⟨nonemptyValues_roleUgMaps node p r s hs, fun x hx => ?_⟩
  have hmem : x ∈ ((byFlag (roleUgMaps node) p).lookup r).getD ∅ := by
    rw [hs]
    exact hx
  obtain ⟨holder, hsu, rfl, roles, hroles, hr⟩ := mem_roleUgMaps.mp hmem
  exact ⟨holder, hnode.readable holder roles hsu hroles, rfl, hsu, roles, hroles, hr⟩

/-- A key of the grouped map is the joined set of names of each of its roles, and reads back as
that set. -/
theorem key_groupByPropertyList {p : Bool} {entry : (_ : String) × Finset String}
    (hentry : entry ∈ (groupByPropertyList (byFlag (roleUgMaps node) p)).entries)
    {r : String} (hr : r ∈ entry.2) :
    ∃ s, (byFlag (roleUgMaps node) p).lookup r = some s ∧ joinComma s = entry.1 ∧
      (readList entry.1).toFinset = s := by
  have hlookup : (groupByPropertyList (byFlag (roleUgMaps node) p)).lookup entry.1 =
      some entry.2 := AList.mem_lookup_iff.mpr hentry
  obtain ⟨s, hs, hkey⟩ := mem_groupByPropertyList.mp (by rw [hlookup]; exact hr)
  obtain ⟨hne, hnames⟩ := names_of_lookup_roleUgMaps hnode hs
  have hlist : ∀ x ∈ s, ListName x := by
    intro x hx
    obtain ⟨holder, hread, rfl, -⟩ := hnames x hx
    exact UserOrGroup.listName_name hread
  refine ⟨s, hs, hkey, ?_⟩
  rw [← hkey, readList, splitOn_joinComma hne hlist, Finset.sort_toFinset]

/-- Every line the writer puts out for a node has the fields of a written line. -/
theorem writtenFields_nodeFields {p : Bool} {l : Bool × Finset String × Finset String}
    (hl : l ∈ nodeFields node p) : WrittenFields parseAuthid l.2.1 l.2.2 := by
  obtain ⟨entry, hentry, rfl⟩ := List.mem_map.mp hl
  rw [List.mem_mergeSort] at hentry
  obtain ⟨r, hr⟩ := roles_nonempty_of_mem_entries hentry
  obtain ⟨s, hs, -, hread⟩ := key_groupByPropertyList hnode hentry hr
  obtain ⟨hsne, hnames⟩ := names_of_lookup_roleUgMaps hnode hs
  refine ⟨hread ▸ hsne, ?_, ⟨r, hr⟩, ?_⟩
  · intro x hx
    obtain ⟨holder, hholder, hname, -⟩ := hnames x (hread ▸ hx)
    exact ⟨holder, hholder, hname⟩
  · intro r' hr'
    obtain ⟨s', hs', -⟩ := key_groupByPropertyList hnode hentry hr'
    obtain ⟨⟨x, hx⟩, hnames'⟩ := names_of_lookup_roleUgMaps hnode hs'
    obtain ⟨holder, -, -, hsu, roles, hroles, hrole⟩ := hnames' x hx
    exact hnode.known holder roles hsu hroles r' p hrole

/-- The lines the writer puts out for a node's map of one propagate flag. -/
theorem propertyLines_eq (comps : List String) (p : Bool) :
    propertyLines p (pathOf comps) (groupByPropertyList (byFlag (roleUgMaps node) p)) =
      (nodeFields node p).map (writtenLine comps) := by
  rw [propertyLines, nodeFields, List.map_map]
  refine List.map_congr_left fun entry hentry => ?_
  rw [List.mem_mergeSort] at hentry
  obtain ⟨r, hr⟩ := roles_nonempty_of_mem_entries hentry
  obtain ⟨s, -, hkey, hread⟩ := key_groupByPropertyList hnode hentry hr
  simp only [Function.comp_apply, writtenLine, pathField, hread, hkey]

theorem writtenFields_nodeLines {l : Bool × Finset String × Finset String}
    (hl : l ∈ nodeFields node false ++ nodeFields node true) :
    WrittenFields parseAuthid l.2.1 l.2.2 := by
  rcases List.mem_append.mp hl with hl | hl <;> exact writtenFields_nodeFields hnode hl

/-- The lines of a writable node name a user, token or group that reads back with a role and a
flag exactly when it has the role with that flag there and is not `root@pam`. -/
theorem exists_nodeFields_iff {holder : UserOrGroup} (hread : holder.Readable parseAuthid)
    (r : String) (q : Bool) :
    (∃ l ∈ nodeFields node false ++ nodeFields node true,
        l.1 = q ∧ holder.name ∈ l.2.1 ∧ r ∈ parsedRoles l.2.2) ↔
      holder.isSuperuser = false ∧
        ∃ roles, node.roleMapOf holder = some roles ∧ roles.lookup r = some q := by
  have hfields : ∀ l ∈ nodeFields node q, l.1 = q := by
    intro l hl
    obtain ⟨entry, -, rfl⟩ := List.mem_map.mp hl
    rfl
  constructor
  · rintro ⟨l, hl, rfl, hname, hr⟩
    obtain ⟨p, hp⟩ : ∃ p, l ∈ nodeFields node p := by
      rcases List.mem_append.mp hl with hl | hl
      · exact ⟨false, hl⟩
      · exact ⟨true, hl⟩
    obtain ⟨entry, hentry, rfl⟩ := List.mem_map.mp hp
    rw [List.mem_mergeSort] at hentry
    obtain ⟨s, hs, -, hreadList⟩ :=
      key_groupByPropertyList hnode hentry (mem_of_mem_parsedRoles hr)
    rw [← name_mem_roleUgMaps_iff hnode hread, hs]
    exact hreadList ▸ hname
  · intro hholds
    -- the holder's name is in the set the writer collects for the role, under whose joined key
    -- the grouped map holds the role
    have hmem := (name_mem_roleUgMaps_iff hnode hread).mpr hholds
    obtain ⟨hsu, roles, hroles, hr⟩ := hholds
    obtain ⟨s, hs⟩ : ∃ s, (byFlag (roleUgMaps node) q).lookup r = some s := by
      cases h : (byFlag (roleUgMaps node) q).lookup r with
      | none => simp [h] at hmem
      | some s => exact ⟨s, rfl⟩
    rw [hs, Option.getD_some] at hmem
    have hgroup := mem_groupByPropertyList.mpr ⟨s, hs, rfl⟩
    obtain ⟨R, hR⟩ : ∃ R, (groupByPropertyList (byFlag (roleUgMaps node) q)).lookup
        (joinComma s) = some R := by
      cases h : (groupByPropertyList (byFlag (roleUgMaps node) q)).lookup (joinComma s) with
      | none => simp [h] at hgroup
      | some R => exact ⟨R, rfl⟩
    rw [hR, Option.getD_some] at hgroup
    have hentry : (⟨joinComma s, R⟩ : (_ : String) × Finset String) ∈
        (groupByPropertyList (byFlag (roleUgMaps node) q)).entries := AList.mem_lookup_iff.mp hR
    obtain ⟨s', hs', -, hreadList⟩ := key_groupByPropertyList hnode hentry hgroup
    rw [hs, Option.some.injEq] at hs'
    subst hs'
    have hl : (q, s, R) ∈ nodeFields node q :=
      List.mem_map.mpr ⟨⟨joinComma s, R⟩, List.mem_mergeSort.mpr hentry, by rw [hreadList]⟩
    refine ⟨(q, s, R), ?_, rfl, hmem, ?_⟩
    · cases q
      · exact List.mem_append_left _ hl
      · exact List.mem_append_right _ hl
    · unfold parsedRoles
      split
      · -- a line with `NoAccess` names only users, tokens and groups with `NoAccess` alone
        rename_i hno
        obtain ⟨s'', hs'', -, hreadList''⟩ := key_groupByPropertyList hnode hentry hno
        rw [hreadList] at hreadList''
        subst hreadList''
        obtain ⟨-, roles', hroles', hno'⟩ :=
          (name_mem_roleUgMaps_iff hnode hread).mp (by rw [hs'']; exact hmem)
        rw [hroles, Option.some.injEq] at hroles'
        subst hroles'
        rw [List.mem_singleton]
        by_contra hne
        rw [hnode.noAccessAlone holder roles hsu hroles (by simp [hno']) r hne] at hr
        cases hr
      · exact (Finset.mem_sort _).mpr hgroup

/-- The lines of a writable node, read into a tree whose maps on the node's path are empty: the
map of every user, token and group on that path is the node's, except `root@pam`'s, which stays
empty. -/
theorem lookup_maps_nodeLines {comps : List String} (hcomps : ∀ comp ∈ comps, PathComponent comp)
    (tree : AclTree) (hempty : ∀ holder, tree.maps comps holder = ∅) (holder : UserOrGroup)
    (r : String) :
    ((((nodeFields node false ++ nodeFields node true).map (writtenLine comps)).foldl
        (applyLine parseAuthid) tree).maps comps holder).lookup r =
      if holder.isSuperuser then none else (node.mapAt [] holder).lookup r := by
  have hlines := fun l => writtenFields_nodeLines hnode (l := l)
  by_cases hread : holder.Readable parseAuthid
  · obtain ⟨pairs, hpairs, heq⟩ := AclTree.maps_foldl_applyLine hcomps hlines tree hread
    rw [heq, hempty, AclTreeNode.mapAt_nil]
    cases hsu : holder.isSuperuser
    · rw [if_neg Bool.false_ne_true]
      -- the pairs the lines give the holder are the entries of its map
      cases hroles : node.roleMapOf holder with
      | none =>
        apply AclTreeNode.lookup_foldl_insertRole AclTreeNode.noAccessAlone_empty
        intro r q
        rw [hpairs, exists_nodeFields_iff hnode hread, hroles]
        simp
      | some roles =>
        apply AclTreeNode.lookup_foldl_insertRole (hnode.noAccessAlone holder roles hsu hroles)
        intro r q
        rw [hpairs, exists_nodeFields_iff hnode hread, hroles]
        simp [hsu]
    · rw [if_pos rfl]
      -- `root@pam` is named by no line
      have hnil : pairs = [] := by
        refine List.eq_nil_iff_forall_not_mem.mpr fun e he => ?_
        obtain ⟨hsu', -⟩ := (exists_nodeFields_iff hnode hread e.1 e.2).mp ((hpairs e.1 e.2).mp he)
        rw [hsu] at hsu'
        cases hsu'
      rw [hnil]
      rfl
  · rw [AclTree.maps_foldl_applyLine_of_ne hcomps hlines tree (.inr hread), hempty]
    cases hsu : holder.isSuperuser
    · have hnone : node.roleMapOf holder = none := by
        cases h : node.roleMapOf holder with
        | none => rfl
        | some roles => exact absurd (hnode.readable holder roles hsu h) hread
      simp [AclTreeNode.mapAt_nil, hnone]
    · rfl

/-- `write_node_config` of a writable node: its own lines, then its children's. -/
theorem writeNodeConfig_eq (comps : List String) :
    writeNodeConfig node (pathOf comps) =
      (nodeFields node false ++ nodeFields node true).map (writtenLine comps) ++
        writeChildrenConfig node.children (pathOf comps) := by
  rw [List.map_append, ← propertyLines_eq hnode, ← propertyLines_eq hnode]
  cases node
  rw [writeNodeConfig]
  rfl

end NodeLines

/-! ## The whole tree -/

theorem prefix_append_singleton_iff {comps rest : List String} {name : String} :
    comps ++ [name] <+: comps ++ rest ↔ ∃ rest', rest = name :: rest' := by
  rw [List.prefix_append_right_inj]
  cases rest with
  | nil => simp
  | cons comp rest => simp [List.cons_prefix_cons, eq_comm]

theorem pathComponents_concat {comps : List String} (hcomps : ∀ comp ∈ comps, PathComponent comp)
    {name : String} (hname : PathComponent name) : ∀ comp ∈ comps ++ [name], PathComponent comp := by
  intro comp hcomp
  rcases List.mem_append.mp hcomp with hcomp | hcomp
  · exact hcomps comp hcomp
  · rw [List.mem_singleton.mp hcomp]
    exact hname

mutual

/-- The lines of a writable node, read into a tree whose maps at and below the node's path are
empty: every map below the path is the node's, except `root@pam`'s, and no other changes. -/
theorem maps_writeNodeConfig (node : AclTreeNode) {comps : List String}
    (hcomps : ∀ comp ∈ comps, PathComponent comp) (hnode : node.WritableBelow parseAuthid)
    (tree : AclTree) (hempty : ∀ rest holder, tree.maps (comps ++ rest) holder = ∅) :
    (∀ path holder, ¬ comps <+: path →
      ((writeNodeConfig node (pathOf comps)).foldl (applyLine parseAuthid) tree).maps path holder =
        tree.maps path holder) ∧
    ∀ rest holder r,
      (((writeNodeConfig node (pathOf comps)).foldl (applyLine parseAuthid) tree).maps
          (comps ++ rest) holder).lookup r =
        if holder.isSuperuser then none else (node.mapAt rest holder).lookup r := by
  cases node with
  | mk users groups children =>
  have hwritable := hnode [] _ rfl
  -- the node's own lines set the maps of its path, then the children's lines those below
  have hframe₁ : ∀ path holder, path ≠ comps →
      (((nodeFields (.mk users groups children) false ++
        nodeFields (.mk users groups children) true).map (writtenLine comps)).foldl
          (applyLine parseAuthid) tree).maps path holder = tree.maps path holder :=
    fun path holder h => AclTree.maps_foldl_applyLine_of_ne hcomps
      (fun _ => writtenFields_nodeLines hwritable) tree (.inl h)
  obtain ⟨hframe₂, hvals₂⟩ := maps_writeChildrenConfig children hcomps hwritable.keys_nodup
    hwritable.keys_component (fun _ hchild => hnode.child hchild) _
    (fun child _ rest holder => by rw [hframe₁ _ _ (by simp), hempty])
  rw [writeNodeConfig_eq hwritable, AclTreeNode.children_mk, List.foldl_append]
  refine ⟨fun path holder hpre => ?_, fun rest holder r => ?_⟩
  · rw [hframe₂ path holder fun child _ h => hpre ((List.prefix_append _ _).trans h),
      hframe₁ path holder fun h => hpre (h ▸ List.prefix_refl _)]
  · cases rest with
    | nil =>
      have hnot : ∀ child ∈ children, ¬ comps ++ [child.1] <+: comps ++ [] := by
        intro child _ h
        obtain ⟨rest', hrest'⟩ := prefix_append_singleton_iff.mp h
        cases hrest'
      rw [hframe₂ _ _ hnot, List.append_nil]
      exact lookup_maps_nodeLines hwritable hcomps tree
        (fun holder => by simpa using hempty [] holder) holder r
    | cons name rest =>
      by_cases hname : ∃ child ∈ children, child.1 = name
      · obtain ⟨child, hchild, rfl⟩ := hname
        rw [hvals₂ child hchild rest holder r, AclTreeNode.mapAt_cons,
          List.lookup_eq_some_of_nodup hwritable.keys_nodup hchild]
        rfl
      · have hlookup : children.lookup name = none :=
          List.lookup_eq_none_of_forall fun child hchild => hname ⟨_, hchild, rfl⟩
        have hnot : ∀ child ∈ children, ¬ comps ++ [child.1] <+: comps ++ name :: rest := by
          intro child hchild h
          obtain ⟨rest', hrest'⟩ := prefix_append_singleton_iff.mp h
          cases hrest'
          exact hname ⟨child, hchild, rfl⟩
        rw [hframe₂ _ _ hnot, hframe₁ _ _ (by simp), hempty, AclTreeNode.mapAt_cons,
          AclTreeNode.children_mk, hlookup]
        cases holder.isSuperuser <;> rfl

/-- The lines of a node's children, each under its own path. -/
theorem maps_writeChildrenConfig (children : List (String × AclTreeNode)) {comps : List String}
    (hcomps : ∀ comp ∈ comps, PathComponent comp) (hkeys : (children.map Prod.fst).Nodup)
    (hkeys' : ∀ child ∈ children, PathComponent child.1)
    (hchildren : ∀ child ∈ children, child.2.WritableBelow parseAuthid) (tree : AclTree)
    (hempty : ∀ child ∈ children, ∀ rest holder, tree.maps (comps ++ child.1 :: rest) holder = ∅) :
    (∀ path holder, (∀ child ∈ children, ¬ comps ++ [child.1] <+: path) →
      ((writeChildrenConfig children (pathOf comps)).foldl (applyLine parseAuthid) tree).maps path
        holder = tree.maps path holder) ∧
    ∀ child ∈ children, ∀ rest holder r,
      (((writeChildrenConfig children (pathOf comps)).foldl (applyLine parseAuthid) tree).maps
          (comps ++ child.1 :: rest) holder).lookup r =
        if holder.isSuperuser then none else (child.2.mapAt rest holder).lookup r := by
  cases children with
  | nil => exact ⟨fun _ _ _ => rfl, by simp⟩
  | cons first children =>
    obtain ⟨name, node⟩ := first
    have hname : name ∉ children.map Prod.fst := (List.nodup_cons.mp hkeys).1
    obtain ⟨hframe₁, hvals₁⟩ := maps_writeNodeConfig node
      (pathComponents_concat hcomps (hkeys' _ List.mem_cons_self))
      (hchildren _ List.mem_cons_self) tree fun rest holder => by
        rw [List.append_assoc]
        exact hempty _ List.mem_cons_self rest holder
    -- the first child's lines change nothing below the other children
    have hother : ∀ child ∈ children, ∀ rest, ¬ comps ++ [name] <+: comps ++ child.1 :: rest := by
      intro child hchild rest h
      obtain ⟨rest', hrest'⟩ := prefix_append_singleton_iff.mp h
      cases hrest'
      exact hname (List.mem_map_of_mem hchild)
    obtain ⟨hframe₂, hvals₂⟩ := maps_writeChildrenConfig children hcomps
      (List.nodup_cons.mp hkeys).2 (fun child hchild => hkeys' child (List.mem_cons_of_mem _ hchild))
      (fun child hchild => hchildren child (List.mem_cons_of_mem _ hchild))
      ((writeNodeConfig node (pathOf (comps ++ [name]))).foldl (applyLine parseAuthid) tree)
      fun child hchild rest holder => by
        rw [hframe₁ _ _ (hother child hchild rest)]
        exact hempty child (List.mem_cons_of_mem _ hchild) rest holder
    rw [writeChildrenConfig, ← pathOf_concat, List.foldl_append]
    refine ⟨fun path holder hpre => ?_, fun child hchild rest holder r => ?_⟩
    · rw [hframe₂ path holder fun child hchild => hpre child (List.mem_cons_of_mem _ hchild),
        hframe₁ path holder (hpre _ List.mem_cons_self)]
    · rcases List.mem_cons.mp hchild with rfl | hchild
      · rw [hframe₂ _ _ fun child' hchild' h => ?_]
        · simpa using hvals₁ rest holder r
        · obtain ⟨rest', hrest'⟩ := prefix_append_singleton_iff.mp h
          cases hrest'
          exact hname (List.mem_map_of_mem hchild')
      · exact hvals₂ child hchild rest holder r

end

mutual

/-- Every line the writer puts out for a writable node is a written line of a path below it. -/
theorem writtenLine_of_mem_writeNodeConfig (node : AclTreeNode) {comps : List String}
    (hcomps : ∀ comp ∈ comps, PathComponent comp) (hnode : node.WritableBelow parseAuthid)
    {line : String} (hline : line ∈ writeNodeConfig node (pathOf comps)) :
    ∃ comps' fields, (∀ comp ∈ comps', PathComponent comp) ∧
      WrittenFields parseAuthid fields.2.1 fields.2.2 ∧ line = writtenLine comps' fields := by
  cases node with
  | mk users groups children =>
  have hwritable := hnode [] _ rfl
  rw [writeNodeConfig_eq hwritable, AclTreeNode.children_mk, List.mem_append] at hline
  rcases hline with hline | hline
  · obtain ⟨fields, hfields, rfl⟩ := List.mem_map.mp hline
    exact ⟨comps, fields, hcomps, writtenFields_nodeLines hwritable hfields, rfl⟩
  · exact writtenLine_of_mem_writeChildrenConfig children hcomps hwritable.keys_component
      (fun _ hchild => hnode.child hchild) hline

theorem writtenLine_of_mem_writeChildrenConfig (children : List (String × AclTreeNode))
    {comps : List String} (hcomps : ∀ comp ∈ comps, PathComponent comp)
    (hkeys' : ∀ child ∈ children, PathComponent child.1)
    (hchildren : ∀ child ∈ children, child.2.WritableBelow parseAuthid) {line : String}
    (hline : line ∈ writeChildrenConfig children (pathOf comps)) :
    ∃ comps' fields, (∀ comp ∈ comps', PathComponent comp) ∧
      WrittenFields parseAuthid fields.2.1 fields.2.2 ∧ line = writtenLine comps' fields := by
  cases children with
  | nil => simp [writeChildrenConfig] at hline
  | cons first children =>
    obtain ⟨name, node⟩ := first
    rw [writeChildrenConfig, ← pathOf_concat, List.mem_append] at hline
    rcases hline with hline | hline
    · exact writtenLine_of_mem_writeNodeConfig node
        (pathComponents_concat hcomps (hkeys' _ List.mem_cons_self))
        (hchildren _ List.mem_cons_self) hline
    · exact writtenLine_of_mem_writeChildrenConfig children hcomps
        (fun child hchild => hkeys' child (List.mem_cons_of_mem _ hchild))
        (fun child hchild => hchildren child (List.mem_cons_of_mem _ hchild)) hline

end

/-- A written line is read as it is: no line break in it, and it starts with `acl` and ends with
a role name. -/
theorem cleanLine_writtenLine {comps : List String} (hcomps : ∀ comp ∈ comps, PathComponent comp)
    {fields : Bool × Finset String × Finset String}
    (hf : WrittenFields parseAuthid fields.2.1 fields.2.2) : CleanLine (writtenLine comps fields) := by
  obtain ⟨p, names, roles⟩ := fields
  have hnames : ∀ x ∈ names, ListName x := by
    intro x hx
    obtain ⟨holder, hread, rfl⟩ := hf.names_readable x hx
    exact UserOrGroup.listName_name hread
  have hroles : ∀ r ∈ roles, ListName r := fun r hr => listName_of_roleNames (hf.roles_known r hr)
  have hnl : Rrd.isWhitespace '\n' = true := rfl
  refine ⟨fun h => ?_, ⟨'a', by simp [writtenLine, toList_aclLine, List.intercalate_cons_cons], rfl⟩,
    ?_⟩
  · rw [writtenLine, toList_aclLine] at h
    rcases List.mem_of_mem_intercalate h with h | ⟨l, hl, h⟩
    · simp at h
    · simp only [List.mem_cons, List.not_mem_nil, or_false] at hl
      rcases hl with rfl | rfl | rfl | rfl | rfl
      · simp at h
      · cases p <;> simp at h
      · exact not_mem_pathField hcomps (.inr rfl) h
      · rw [(mem_joinComma hnames h).2] at hnl
        cases hnl
      · rw [(mem_roleList hroles h).2] at hnl
        cases hnl
  · have hne := roleList_ne_empty hf.roles_nonempty hf.roles_known
    obtain ⟨c, hc⟩ := Option.ne_none_iff_exists'.mp (mt List.getLast?_eq_none_iff.mp hne)
    refine ⟨c, ?_, (mem_roleList hroles (List.mem_of_getLast? hc)).2⟩
    rw [writtenLine, aclLine, String.toList_append, List.getLast?_append_of_ne_nil _ hne, hc]

/-! ## Writing and reading a tree -/

/-- The text `write_config` puts out for a writable tree parses: it is its lines, read one after
the other into the empty tree. -/
theorem fromRaw_writeConfig_eq {tree : AclTree} (htree : tree.Writable parseAuthid) :
    fromRaw parseAuthid (writeConfig tree) =
      .ok ((writeNodeConfig tree.root (pathOf [])).foldl (applyLine parseAuthid) AclTree.new) := by
  have hlines := fun line (hline : line ∈ writeNodeConfig tree.root (pathOf [])) =>
    writtenLine_of_mem_writeNodeConfig tree.root (fun _ h => by simp at h) htree hline
  apply fromRaw_join
  · intro line hline
    obtain ⟨comps, fields, hcomps, hf, rfl⟩ := hlines line hline
    exact cleanLine_writtenLine hcomps hf
  · intro tree' line hline
    obtain ⟨comps, fields, hcomps, hf, rfl⟩ := hlines line hline
    obtain ⟨holders, -, -, hparse⟩ := parseAclLine_written tree' hcomps fields.1 hf
    exact ⟨_, hparse⟩

/-- The lines of a writable tree, read into the empty tree, give every map the tree has, except
those of `root@pam`. -/
theorem lookup_maps_writeConfig_lines {tree : AclTree} (htree : tree.Writable parseAuthid)
    (path : List String) (holder : UserOrGroup) (role : String) :
    (((writeNodeConfig tree.root (pathOf [])).foldl (applyLine parseAuthid) AclTree.new).maps path
        holder).lookup role =
      if holder.isSuperuser then none else (tree.maps path holder).lookup role :=
  (maps_writeNodeConfig tree.root (fun _ h => by simp at h) htree AclTree.new
    fun rest holder => by rw [AclTree.maps_new]).2 path holder role

/-- `write_config` followed by `from_raw`: the text written for a tree whose nodes meet the
writer's needs reads back, and on every path every user, token and group has the role map it
had, except `root@pam`, whose roles are not written. -/
theorem fromRaw_writeConfig {tree : AclTree} (htree : tree.Writable parseAuthid) :
    ∃ tree', fromRaw parseAuthid (writeConfig tree) = .ok tree' ∧
      ∀ path holder role, (tree'.maps path holder).lookup role =
        if holder.isSuperuser then none else (tree.maps path holder).lookup role :=
  ⟨_, fromRaw_writeConfig_eq htree, lookup_maps_writeConfig_lines htree⟩

theorem uint64_or_right_comm (a b c : UInt64) : a ||| b ||| c = a ||| c ||| b := by
  rw [UInt64.or_assoc, UInt64.or_comm b, ← UInt64.or_assoc]

theorem sampleAclTree_writable : (AclTree.build sampleAclOps).Writable splitParseAuthid := by
  have hvalid := sampleAclOps_valid
  rw [sampleAclOps] at hvalid ⊢
  rw [AclTree.build, List.foldl_cons, List.foldl_cons, List.foldl_cons, List.foldl_nil]
  exact AclTree.writable_apply (AclTree.writable_apply (AclTree.writable_apply AclTree.writable_new
    (hvalid _ (by simp))) (hvalid _ (by simp))) (hvalid _ (by simp))

theorem fromRaw_writeConfig_sampleAclOps :
    (AclTree.build sampleAclOps).Writable splitParseAuthid ∧
      ∃ tree', fromRaw splitParseAuthid (writeConfig (AclTree.build sampleAclOps)) = .ok tree' ∧
        ∀ path holder role, (tree'.maps path holder).lookup role =
          if holder.isSuperuser then none
          else ((AclTree.build sampleAclOps).maps path holder).lookup role :=
  ⟨sampleAclTree_writable, fromRaw_writeConfig sampleAclTree_writable⟩

/-- The text written for the calls of `sampleAclOps`: `root@pam`'s `NoAccess` is left out. -/
example : writeConfig (AclTree.build sampleAclOps) =
    "acl:0:/:@admins:Admin\nacl:1:/datastore/store1:user@pbs:CloudUser\n" := by
  decide +kernel

/-- `lookup_privs_details` reads a role map through its lookups only: the order of its entries
does not matter. -/
theorem rolePrivs_congr {roles roles' : RoleMap} (h : ∀ r, roles.lookup r = roles'.lookup r) :
    CachedUserInfo.rolePrivs roles = CachedUserInfo.rolePrivs roles' := by
  have hperm : roles.entries.Perm roles'.entries :=
    List.lookup_ext roles.nodupKeys roles'.nodupKeys fun r q => by
      rw [show roles.entries.dlookup r = roles'.entries.dlookup r from h r]
  unfold CachedUserInfo.rolePrivs
  refine hperm.foldl_eq' (fun x _ y _ acc => ?_) _
  -- each step ors the privileges of a role into the accumulator, in either order
  cases roleNames x.1 <;> cases roleNames y.1 <;> cases x.2 <;> cases y.2 <;>
    simp [uint64_or_right_comm]

/-- Two trees whose maps agree for everyone but `root@pam` give everyone the same privileges:
`root@pam` is the superuser, whose privileges do not depend on the tree. -/
theorem lookupPrivsDetails_congr {tree tree' : AclTree}
    (h : ∀ path holder role, holder.isSuperuser = false →
      (tree'.maps path holder).lookup role = (tree.maps path holder).lookup role)
    (authId : Authid) (path : List String) :
    (CachedUserInfo.mk tree').lookupPrivsDetails authId path =
      (CachedUserInfo.mk tree).lookupPrivsDetails authId path := by
  have hdetails : ∀ authId : Authid, (CachedUserInfo.mk tree').privsDetails authId path =
      (CachedUserInfo.mk tree).privsDetails authId path := by
    intro authId
    have hsu : ∀ info : CachedUserInfo,
        info.isSuperuser authId = (UserOrGroup.user authId).isSuperuser := fun _ => rfl
    unfold CachedUserInfo.privsDetails
    rw [hsu, hsu]
    cases hroot : (UserOrGroup.user authId).isSuperuser
    · rw [if_neg Bool.false_ne_true, if_neg Bool.false_ne_true]
      exact rolePrivs_congr (AclTree.lookup_roles_congr (fun path role => h path _ role hroot) path)
    · rfl
  unfold CachedUserInfo.lookupPrivsDetails
  simp only [hdetails]

/-- `write_config` followed by `from_raw` changes no one's privileges: on every path, every user
and token has the privileges, and the propagated privileges, it had before. -/
theorem lookupPrivsDetails_fromRaw_writeConfig {tree : AclTree}
    (htree : tree.Writable parseAuthid) :
    ∃ tree', fromRaw parseAuthid (writeConfig tree) = .ok tree' ∧ ∀ authId path,
      (CachedUserInfo.mk tree').lookupPrivsDetails authId path =
        (CachedUserInfo.mk tree).lookupPrivsDetails authId path := by
  refine ⟨_, fromRaw_writeConfig_eq htree, lookupPrivsDetails_congr fun path holder role hsu => ?_⟩
  rw [lookup_maps_writeConfig_lines htree, hsu, if_neg Bool.false_ne_true]

theorem lookupPrivsDetails_fromRaw_writeConfig_sampleAclOps :
    (AclTree.build sampleAclOps).Writable splitParseAuthid ∧
      ∃ tree', fromRaw splitParseAuthid (writeConfig (AclTree.build sampleAclOps)) = .ok tree' ∧
        ∀ authId path, (CachedUserInfo.mk tree').lookupPrivsDetails authId path =
          (CachedUserInfo.mk (AclTree.build sampleAclOps)).lookupPrivsDetails authId path :=
  ⟨sampleAclTree_writable, lookupPrivsDetails_fromRaw_writeConfig sampleAclTree_writable⟩

end ProxmoxBackup.Acl
