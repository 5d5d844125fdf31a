import ProxmoxBackup.Config.Acl
import ProxmoxBackup.Foundations.Assoc
import ProxmoxBackup.Foundations.Text

/-!
# The role maps of an ACL tree (`pbs-config/src/acl.rs`)

The node of each path of an `AclTree` holds a role map for each user, API token and group
(`UserOrGroup`). `mapAt` reads one of these maps on one path, the empty map where the node or the
map is missing, and `AclTree.maps` is all of them: what a tree means.

* `lookup_roles_congr`: `AclTree::roles` reads nothing but the auth id's own maps. Two trees
  whose maps for an auth id have the same lookups give it the same roles on every path; group
  maps never count, since `is_member` is fixed to `false`.
* `maps_apply`: each call that changes a tree is one change of its maps. The insertions change
  the map of one user or group on one path, `delete_node` empties every map at and below the
  node, `delete_authid` every map of the auth id. Behind them stand the frame lemmas
  `mapAt_modifyAt` and `mapAt_modifyExisting`: `get_or_insert_node` and `get_node_mut` change
  the node of their path and no map anywhere else.
* `maps_build`: the tree that any sequence of calls builds holds the maps the calls describe.
-/

namespace ProxmoxBackup.Acl

/-- Whom a role map of a node is for: a user or API token, or a group (`@group` in
`acl.cfg`). -/
inductive UserOrGroup where
  | user (authId : Authid)
  | group (name : String)
  deriving DecidableEq

/-- What a tree means for the roles it grants: the role map of every user, token and group on
every path, given by its sub-components. -/
abbrev AclMaps := List String → UserOrGroup → RoleMap

namespace AclTreeNode

@[simp] theorem users_mk (users groups children) : (mk users groups children).users = users := rfl
@[simp] theorem groups_mk (users groups children) : (mk users groups children).groups = groups :=
  rfl
@[simp] theorem children_mk (users groups children) :
    (mk users groups children).children = children := rfl
@[simp] theorem children_new : new.children = [] := rfl

/-- The node's role map for a user, token or group. -/
def roleMapOf (node : AclTreeNode) : UserOrGroup → Option RoleMap
  | .user authId => node.users.lookup authId
  | .group name => node.groups.lookup name

@[simp] theorem roleMapOf_new (holder : UserOrGroup) : new.roleMapOf holder = none := by
  cases holder <;> rfl

@[simp] theorem roleMapOf_mk_children (node : AclTreeNode) (children : List (String × AclTreeNode))
    (holder : UserOrGroup) : (mk node.users node.groups children).roleMapOf holder =
      node.roleMapOf holder := by
  cases holder <;> rfl

/-! ## Walking down -/

@[simp] theorem descend_nil (node : AclTreeNode) : node.descend [] = some node := rfl

theorem descend_cons (node : AclTreeNode) (comp : String) (comps : List String) :
    node.descend (comp :: comps) = (node.children.lookup comp).bind (·.descend comps) := by
  simp only [descend]
  cases node.children.lookup comp <;> rfl

theorem descend_append (node : AclTreeNode) (path rest : List String) :
    node.descend (path ++ rest) = (node.descend path).bind (·.descend rest) := by
  induction path generalizing node with
  | nil => rfl
  | cons comp path ih =>
    rw [List.cons_append, descend_cons, descend_cons]
    cases node.children.lookup comp <;> simp [ih]

theorem descend_new (path : List String) :
    new.descend path = if path = [] then some new else none := by
  cases path <;> simp [descend]

theorem getD_descend_getD (child : Option AclTreeNode) (comps : List String) :
    ((child.getD new).descend comps).getD new = (child.bind (·.descend comps)).getD new := by
  cases child with
  | some child => rfl
  | none => rw [Option.getD_none, descend_new]; split <;> rfl

/-- The role map of a user, token or group on the node below a path; the empty map where the
node or the map is missing. -/
def mapAt (node : AclTreeNode) (path : List String) (holder : UserOrGroup) : RoleMap :=
  ((node.descend path).bind (·.roleMapOf holder)).getD ∅

theorem mapAt_nil (node : AclTreeNode) (holder : UserOrGroup) :
    node.mapAt [] holder = (node.roleMapOf holder).getD ∅ := rfl

theorem mapAt_cons (node : AclTreeNode) (comp : String) (comps : List String)
    (holder : UserOrGroup) :
    node.mapAt (comp :: comps) holder =
      ((node.children.lookup comp).map (·.mapAt comps holder)).getD ∅ := by
  simp only [mapAt, descend_cons]
  cases node.children.lookup comp <;> rfl

@[simp] theorem mapAt_new (path : List String) (holder : UserOrGroup) :
    new.mapAt path holder = ∅ := by
  cases path <;> simp [mapAt, descend_new]

theorem mapAt_getD (child : Option AclTreeNode) (comps : List String) (holder : UserOrGroup) :
    (child.getD new).mapAt comps holder = (child.map (·.mapAt comps holder)).getD ∅ := by
  cases child <;> simp

theorem mapAt_append (node : AclTreeNode) (path rest : List String) (holder : UserOrGroup) :
    node.mapAt (path ++ rest) holder = ((node.descend path).getD new).mapAt rest holder := by
  rw [mapAt_getD]
  simp only [mapAt, descend_append]
  cases node.descend path <;> rfl

theorem mapAt_eq_roleMapOf (node : AclTreeNode) (path : List String) (holder : UserOrGroup) :
    node.mapAt path holder = (((node.descend path).getD new).roleMapOf holder).getD ∅ := by
  rw [← mapAt_nil, ← mapAt_append, List.append_nil]

/-! ## `get_or_insert_node` -/

theorem lookup_modifyChild (comp : String) (f : AclTreeNode → AclTreeNode)
    (children : List (String × AclTreeNode)) (name : String) :
    (modifyChild comp f children).lookup name =
      if name = comp then (children.lookup comp).map f else children.lookup name := by
  induction children with
  | nil => simp [modifyChild]
  | cons entry children ih =>
    obtain ⟨key, child⟩ := entry
    by_cases hkey : key = comp
    · subst hkey
      by_cases hname : name = key <;> simp [modifyChild, List.lookup_cons_eq_ite, hname]
    · by_cases hname : name = comp
      · subst hname
        simp [modifyChild, List.lookup_cons_eq_ite, hkey, ih, Ne.symm hkey]
      · simp [modifyChild, List.lookup_cons_eq_ite, hkey, hname, ih]

theorem lookup_orDefault (comp : String) (children : List (String × AclTreeNode))
    (name : String) :
    (orDefault comp children).lookup name =
      if name = comp then some ((children.lookup comp).getD new) else children.lookup name := by
  unfold orDefault
  cases h : children.lookup comp with
  | some child =>
    by_cases hname : name = comp
    · subst hname; simp [h]
    · simp [hname]
  | none => simp [List.lookup_orderedInsert _ h]

/-- The children of a node on the way of `get_or_insert_node`: the one on the path, created if
missing, changed below. -/
theorem lookup_modifyAt_children (f : AclTreeNode → AclTreeNode) (node : AclTreeNode)
    (comp : String) (comps : List String) (name : String) :
    (node.modifyAt f (comp :: comps)).children.lookup name =
      if name = comp then some (((node.children.lookup comp).getD new).modifyAt f comps)
      else node.children.lookup name := by
  simp only [modifyAt, children_mk, lookup_modifyChild, lookup_orDefault]
  by_cases hname : name = comp <;> simp [hname]

/-- `get_or_insert_node` reaches the node of the path, or a new one, and changes it. -/
theorem descend_modifyAt_append (f : AclTreeNode → AclTreeNode) (node : AclTreeNode)
    (path rest : List String) :
    (node.modifyAt f path).descend (path ++ rest) =
      (f ((node.descend path).getD new)).descend rest := by
  induction path generalizing node with
  | nil => rfl
  | cons comp path ih =>
    rw [List.cons_append, descend_cons, lookup_modifyAt_children, if_pos rfl, Option.bind_some, ih,
      getD_descend_getD, descend_cons]

/-- Off the path of `get_or_insert_node`, and on the nodes it passes, no role map changes. -/
theorem mapAt_modifyAt_off_path (f : AclTreeNode → AclTreeNode) (node : AclTreeNode)
    {path target : List String} (h : ¬ target <+: path) (holder : UserOrGroup) :
    (node.modifyAt f target).mapAt path holder = node.mapAt path holder := by
  induction target generalizing node path with
  | nil => exact absurd List.nil_prefix h
  | cons comp target ih =>
    cases path with
    | nil => simp [mapAt_nil, modifyAt]
    | cons name path =>
      rw [mapAt_cons, mapAt_cons, lookup_modifyAt_children]
      by_cases hname : name = comp
      · subst hname
        rw [List.cons_prefix_cons, not_and] at h
        simp [ih _ (h rfl), mapAt_getD]
      · simp [hname]

/-- `get_or_insert_node` and a change of the node that keeps its children: only the changed
node's maps differ. -/
theorem mapAt_modifyAt (f : AclTreeNode → AclTreeNode) (node : AclTreeNode)
    (target path : List String)
    (hf : (f ((node.descend target).getD new)).children = ((node.descend target).getD new).children)
    (holder : UserOrGroup) :
    (node.modifyAt f target).mapAt path holder =
      if path = target then ((f ((node.descend target).getD new)).roleMapOf holder).getD ∅
      else node.mapAt path holder := by
  by_cases hpre : target <+: path
  · obtain ⟨rest, rfl⟩ := hpre
    have hdesc := descend_modifyAt_append f node target rest
    cases rest with
    | nil =>
      rw [List.append_nil] at hdesc
      simp [mapAt, hdesc]
    | cons comp rest =>
      rw [if_neg (by simp)]
      simp only [mapAt]
      rw [hdesc, descend_cons, hf, descend_append]
      cases node.descend target <;> simp [descend_cons]
  · rw [mapAt_modifyAt_off_path f node hpre, if_neg]
    rintro rfl
    exact hpre (List.prefix_refl _)

/-! ## `get_node_mut` -/

theorem lookup_modifyExisting_children (f : AclTreeNode → AclTreeNode) (node : AclTreeNode)
    (comp : String) (comps : List String) (name : String) :
    (node.modifyExisting f (comp :: comps)).children.lookup name =
      if name = comp then (node.children.lookup comp).map (·.modifyExisting f comps)
      else node.children.lookup name := by
  simp only [modifyExisting, children_mk, lookup_modifyChild]

/-- `get_node_mut` reaches the node of the path, if there is one, and changes it. -/
theorem descend_modifyExisting_append (f : AclTreeNode → AclTreeNode) (node : AclTreeNode)
    (path rest : List String) :
    (node.modifyExisting f path).descend (path ++ rest) =
      (node.descend path).bind fun target => (f target).descend rest := by
  induction path generalizing node with
  | nil => rfl
  | cons comp path ih =>
    rw [List.cons_append, descend_cons, lookup_modifyExisting_children, if_pos rfl, descend_cons]
    cases node.children.lookup comp <;> simp [ih]

theorem mapAt_modifyExisting_off_path (f : AclTreeNode → AclTreeNode)
    (node : AclTreeNode) {path target : List String} (h : ¬ target <+: path)
    (holder : UserOrGroup) :
    (node.modifyExisting f target).mapAt path holder = node.mapAt path holder := by
  induction target generalizing node path with
  | nil => exact absurd List.nil_prefix h
  | cons comp target ih =>
    cases path with
    | nil => simp [mapAt_nil, modifyExisting]
    | cons name path =>
      rw [mapAt_cons, mapAt_cons, lookup_modifyExisting_children]
      by_cases hname : name = comp
      · subst hname
        rw [List.cons_prefix_cons, not_and] at h
        cases node.children.lookup name <;> simp [ih _ (h rfl)]
      · simp [hname]

/-- `get_node_mut` and a change of the node that keeps its children: only the changed node's
maps differ, and nothing changes where the path has no node. -/
theorem mapAt_modifyExisting (f : AclTreeNode → AclTreeNode) (node : AclTreeNode)
    (target path : List String)
    (hf : ∀ m, node.descend target = some m → (f m).children = m.children)
    (holder : UserOrGroup) :
    (node.modifyExisting f target).mapAt path holder =
      if path = target then ((node.descend target).bind fun m => (f m).roleMapOf holder).getD ∅
      else node.mapAt path holder := by
  by_cases hpre : target <+: path
  · obtain ⟨rest, rfl⟩ := hpre
    have hdesc := descend_modifyExisting_append f node target rest
    cases rest with
    | nil =>
      rw [List.append_nil] at hdesc ⊢
      rw [if_pos rfl]
      simp only [mapAt, hdesc]
      cases node.descend target <;> rfl
    | cons comp rest =>
      rw [if_neg (by simp)]
      simp only [mapAt]
      rw [hdesc, descend_append]
      cases htarget : node.descend target with
      | none => rfl
      | some m => simp [descend_cons, hf m htarget]
  · rw [mapAt_modifyExisting_off_path f node hpre, if_neg]
    rintro rfl
    exact hpre (List.prefix_refl _)

theorem lookup_removeChild_children (node : AclTreeNode) (name comp : String) :
    (node.removeChild name).children.lookup comp =
      if comp = name then none else node.children.lookup comp :=
  List.lookup_filter_key_ne _ _ _

/-- `delete_node` on the parent of a node: every map at or below the node is gone. -/
theorem mapAt_modifyExisting_removeChild (node : AclTreeNode) (target path : List String)
    (name : String) (holder : UserOrGroup) :
    (node.modifyExisting (·.removeChild name) target).mapAt path holder =
      if target ++ [name] <+: path then ∅ else node.mapAt path holder := by
  by_cases hpre : target <+: path
  · obtain ⟨rest, rfl⟩ := hpre
    have hdesc := descend_modifyExisting_append (·.removeChild name) node target rest
    simp only [mapAt]
    rw [hdesc, descend_append]
    simp only [List.prefix_append_right_inj]
    cases htarget : node.descend target with
    | none => simp
    | some m =>
      cases rest with
      | nil => simp [removeChild]
      | cons comp rest =>
        by_cases hcomp : comp = name
        · subst hcomp
          simp [descend_cons, lookup_removeChild_children]
        · simp [descend_cons, lookup_removeChild_children, hcomp, Ne.symm hcomp]
  · have hname : ¬ target ++ [name] <+: path := fun h => hpre ((List.prefix_append _ _).trans h)
    rw [mapAt_modifyExisting_off_path _ node hpre, if_neg hname]

/-! ## `delete_authid` -/

theorem deleteAuthid_mk (authId : Authid) (users groups children) :
    (mk users groups children).deleteAuthid authId =
      mk (users.erase authId) groups (deleteAuthidOf authId children) := by
  simp [deleteAuthid]

theorem lookup_deleteAuthidOf (authId : Authid) (children : List (String × AclTreeNode))
    (name : String) :
    (deleteAuthidOf authId children).lookup name =
      (children.lookup name).map (·.deleteAuthid authId) := by
  induction children with
  | nil => simp [deleteAuthidOf]
  | cons entry children ih =>
    obtain ⟨key, child⟩ := entry
    by_cases hname : name = key <;> simp [deleteAuthidOf, List.lookup_cons_eq_ite, hname, ih]

theorem descend_deleteAuthid (authId : Authid) (node : AclTreeNode) (path : List String) :
    (node.deleteAuthid authId).descend path = (node.descend path).map (·.deleteAuthid authId) := by
  induction path generalizing node with
  | nil => rfl
  | cons comp path ih =>
    cases node with
    | mk users groups children =>
      rw [deleteAuthid_mk, descend_cons, descend_cons, children_mk, children_mk,
        lookup_deleteAuthidOf]
      cases children.lookup comp <;> simp [ih]

theorem roleMapOf_deleteAuthid (authId : Authid) (node : AclTreeNode) (holder : UserOrGroup) :
    (node.deleteAuthid authId).roleMapOf holder =
      if holder = .user authId then none else node.roleMapOf holder := by
  cases node with
  | mk users groups children =>
    cases holder with
    | user other =>
      by_cases h : other = authId
      · subst h
        simp [deleteAuthid_mk, roleMapOf]
      · simp [deleteAuthid_mk, roleMapOf, AList.lookup_erase_ne h, h]
    | group name => simp [deleteAuthid_mk, roleMapOf]

/-- `delete_authid`: the auth id has no map left anywhere; every other map stays. -/
theorem mapAt_deleteAuthid (authId : Authid) (node : AclTreeNode) (path : List String)
    (holder : UserOrGroup) :
    (node.deleteAuthid authId).mapAt path holder =
      if holder = .user authId then ∅ else node.mapAt path holder := by
  simp only [mapAt, descend_deleteAuthid]
  cases node.descend path with
  | none => split <;> rfl
  | some m =>
    simp only [Option.map_some, Option.bind_some, roleMapOf_deleteAuthid]
    split <;> rfl

/-! ## The changes of one node -/

theorem roleMapOf_insertUserRole (node : AclTreeNode) (authId : Authid) (role : String)
    (propagate : Bool) (holder : UserOrGroup) :
    (node.insertUserRole authId role propagate).roleMapOf holder =
      if holder = .user authId then
        some (insertRole ((node.roleMapOf holder).getD ∅) role propagate)
      else node.roleMapOf holder := by
  cases holder with
  | user other =>
    by_cases h : other = authId
    · subst h
      simp [insertUserRole, roleMapOf]
    · simp [insertUserRole, roleMapOf, AList.lookup_insert_ne h, h]
  | group name => simp [insertUserRole, roleMapOf]

theorem roleMapOf_insertGroupRole (node : AclTreeNode) (group role : String) (propagate : Bool)
    (holder : UserOrGroup) :
    (node.insertGroupRole group role propagate).roleMapOf holder =
      if holder = .group group then
        some (insertRole ((node.roleMapOf holder).getD ∅) role propagate)
      else node.roleMapOf holder := by
  cases holder with
  | user authId => simp [insertGroupRole, roleMapOf]
  | group other =>
    by_cases h : other = group
    · subst h
      simp [insertGroupRole, roleMapOf]
    · simp [insertGroupRole, roleMapOf, AList.lookup_insert_ne h, h]

theorem roleMapOf_deleteUserRole (node : AclTreeNode) (authId : Authid) (role : String)
    (holder : UserOrGroup) :
    (node.deleteUserRole authId role).roleMapOf holder =
      if holder = .user authId then (node.roleMapOf holder).map (·.erase role)
      else node.roleMapOf holder := by
  cases holder with
  | user other =>
    by_cases h : other = authId
    · subst h
      cases hroles : node.users.lookup other <;> simp [deleteUserRole, roleMapOf, hroles]
    · cases hroles : node.users.lookup authId <;>
        simp [deleteUserRole, roleMapOf, hroles, AList.lookup_insert_ne h, h]
  | group name =>
    cases hroles : node.users.lookup authId <;> simp [deleteUserRole, roleMapOf, hroles]

theorem roleMapOf_deleteGroupRole (node : AclTreeNode) (group role : String)
    (holder : UserOrGroup) :
    (node.deleteGroupRole group role).roleMapOf holder =
      if holder = .group group then (node.roleMapOf holder).map (·.erase role)
      else node.roleMapOf holder := by
  cases holder with
  | user authId =>
    cases hroles : node.groups.lookup group <;> simp [deleteGroupRole, roleMapOf, hroles]
  | group other =>
    by_cases h : other = group
    · subst h
      cases hroles : node.groups.lookup other <;> simp [deleteGroupRole, roleMapOf, hroles]
    · cases hroles : node.groups.lookup group <;>
        simp [deleteGroupRole, roleMapOf, hroles, AList.lookup_insert_ne h, h]

theorem children_deleteUserRole (node : AclTreeNode) (authId : Authid) (role : String) :
    (node.deleteUserRole authId role).children = node.children := by
  unfold deleteUserRole
  split <;> rfl

theorem children_deleteGroupRole (node : AclTreeNode) (group role : String) :
    (node.deleteGroupRole group role).children = node.children := by
  unfold deleteGroupRole
  split <;> rfl

/-! ## What an extraction reads -/

/-- The roles of a map that apply: those it propagates, and all of them on the last node. -/
def applying (leaf : Bool) (roles : RoleMap) (role : String) : Option Bool :=
  (roles.lookup role).filter fun propagate => propagate || leaf

/-- The map an extraction returns, read by role: `NoAccess` alone when it applies, else every
role that applies. -/
def extractLookup (leaf : Bool) (roles : RoleMap) (role : String) : Option Bool :=
  if (applying leaf roles roleNameNoAccess).isSome then noAccessMap.lookup role
  else applying leaf roles role

theorem lookup_extracted_extractInto (leaf : Bool) {roles : List (Σ _ : String, Bool)}
    (hroles : roles.NodupKeys) (map : RoleMap) (role : String) :
    (extracted (extractInto leaf roles map)).lookup role =
      if ((roles.dlookup roleNameNoAccess).filter fun p => p || leaf).isSome then
        noAccessMap.lookup role
      else ((roles.dlookup role).filter fun p => p || leaf).or (map.lookup role) := by
  induction roles generalizing map with
  | nil => rfl
  | cons entry roles ih =>
    obtain ⟨key, propagate⟩ := entry
    rw [List.nodupKeys_cons] at hroles
    obtain ⟨hkey, hroles⟩ := hroles
    have hnone : roles.dlookup key = none := List.dlookup_eq_none.mpr hkey
    by_cases happ : (propagate || leaf) = true
    · by_cases hno : key = roleNameNoAccess
      · subst hno
        simp [extractInto, happ, extracted]
      · rw [extractInto, if_pos happ, if_neg hno, ih hroles, List.dlookup_cons_ne _ _ (Ne.symm hno)]
        by_cases hrole : role = key
        · subst hrole
          simp [hnone, Option.filter_some, happ]
        · rw [List.dlookup_cons_ne _ _ hrole, AList.lookup_insert_ne hrole]
    · have happ' : (propagate || leaf) = false := by simpa using happ
      rw [extractInto, if_neg happ, ih hroles]
      by_cases hno : key = roleNameNoAccess
      · subst hno
        by_cases hrole : role = roleNameNoAccess
        · subst hrole
          simp [hnone, Option.filter_some, happ']
        · simp [hnone, Option.filter_some, happ',
            List.dlookup_cons_ne roles ⟨roleNameNoAccess, propagate⟩ hrole]
      · rw [List.dlookup_cons_ne _ _ (Ne.symm hno)]
        by_cases hrole : role = key
        · subst hrole
          simp [hnone, Option.filter_some, happ']
        · rw [List.dlookup_cons_ne _ _ hrole]

theorem lookup_extractUserRoles (node : AclTreeNode) (authId : Authid) (leaf : Bool)
    (role : String) :
    (node.extractUserRoles authId leaf).lookup role =
      extractLookup leaf (node.mapAt [] (.user authId)) role := by
  rw [mapAt_nil, roleMapOf, extractUserRoles]
  cases node.users.lookup authId with
  | none => simp [extractLookup, applying]
  | some roles =>
    rw [lookup_extracted_extractInto leaf roles.nodupKeys, Option.getD_some]
    simp only [extractLookup, applying, AList.lookup, AList.empty_entries, List.dlookup_nil,
      Option.or_none]
    rfl

theorem extractGroupRolesFrom_eq (leaf : Bool) (groups : List (Σ _ : String, RoleMap))
    (map : RoleMap) : extractGroupRolesFrom leaf groups map = map := by
  induction groups with
  | nil => rfl
  | cons group groups ih => simp [extractGroupRolesFrom, ih]

/-- Group roles never count (`is_member` is `false`): a node gives an auth id exactly its own
roles. -/
theorem extractRoles_eq_extractUserRoles (node : AclTreeNode) (authId : Authid) (leaf : Bool) :
    node.extractRoles authId leaf = node.extractUserRoles authId leaf := by
  dsimp only [extractRoles]
  split
  · rfl
  · rename_i h
    simp only [Bool.or_eq_true, Bool.not_eq_true', not_or, Bool.not_eq_false] at h
    rw [extractGroupRoles, extractGroupRolesFrom_eq]
    exact (AList.ext (List.isEmpty_iff.mp h.1)).symm

theorem lookup_extractRoles (node : AclTreeNode) (authId : Authid) (leaf : Bool) (role : String) :
    (node.extractRoles authId leaf).lookup role =
      extractLookup leaf (node.mapAt [] (.user authId)) role := by
  rw [extractRoles_eq_extractUserRoles, lookup_extractUserRoles]

theorem extractLookup_congr (leaf : Bool) {roles roles' : RoleMap}
    (h : ∀ role, roles.lookup role = roles'.lookup role) :
    extractLookup leaf roles = extractLookup leaf roles' := by
  funext role
  simp [extractLookup, applying, h]

/-! ## `roles` reads only the auth id's own maps -/

/-- Two nodes give an auth id maps with the same lookups on every path below them. -/
def SameMaps (authId : Authid) (node node' : AclTreeNode) : Prop :=
  ∀ path role, (node.mapAt path (.user authId)).lookup role =
    (node'.mapAt path (.user authId)).lookup role

theorem SameMaps.child {authId : Authid} {node node' child child' : AclTreeNode} {comp : String}
    (h : SameMaps authId node node') (hchild : node.children.lookup comp = some child)
    (hchild' : node'.children.lookup comp = some child') : SameMaps authId child child' := by
  intro path role
  have := h (comp :: path) role
  rwa [mapAt_cons, mapAt_cons, hchild, hchild'] at this

theorem extractRoles_isEmpty_of_silent {authId : Authid} {node : AclTreeNode}
    (h : ∀ role, (node.mapAt [] (.user authId)).lookup role = none) (leaf : Bool) :
    (node.extractRoles authId leaf).entries.isEmpty := by
  rw [AList.entries_isEmpty_iff]
  intro role
  simp [lookup_extractRoles, extractLookup, applying, h]

/-- Where the auth id has no roles at or below a child, the walk of `roles` into it keeps its
map. -/
theorem rolesBelow_cons_of_silent {authId : Authid} {node : AclTreeNode} {comp : String}
    (h : ∀ path role, (node.mapAt (comp :: path) (.user authId)).lookup role = none)
    (roleMap : RoleMap) (comps : List String) :
    node.rolesBelow authId roleMap (comp :: comps) = roleMap := by
  induction comps generalizing node comp with
  | nil =>
    simp only [rolesBelow]
    cases hchild : node.children.lookup comp with
    | none => rfl
    | some child =>
      have hsilent : ∀ role, (child.mapAt [] (.user authId)).lookup role = none := by
        simpa [mapAt_cons, hchild] using h []
      simp [extractRoles_isEmpty_of_silent hsilent]
  | cons next comps ih =>
    simp only [rolesBelow]
    cases hchild : node.children.lookup comp with
    | none => rfl
    | some child =>
      have hsilent : ∀ path role, (child.mapAt path (.user authId)).lookup role = none := by
        intro path role
        simpa [mapAt_cons, hchild] using h path role
      simp only [extractRoles_isEmpty_of_silent (hsilent []), if_true]
      exact ih fun path role => hsilent (next :: path) role

theorem lookup_rolesBelow_congr {authId : Authid} {node node' : AclTreeNode}
    (h : SameMaps authId node node') {roleMap roleMap' : RoleMap}
    (hmap : ∀ role, roleMap.lookup role = roleMap'.lookup role) (comps : List String)
    (role : String) :
    (node.rolesBelow authId roleMap comps).lookup role =
      (node'.rolesBelow authId roleMap' comps).lookup role := by
  induction comps generalizing node node' roleMap roleMap' with
  | nil => exact hmap role
  | cons comp comps ih =>
    cases hchild : node.children.lookup comp with
    | none =>
      -- the auth id has no roles below the missing node, so none below its counterpart either
      have hsilent : ∀ path role,
          (node'.mapAt (comp :: path) (.user authId)).lookup role = none := by
        intro path role
        rw [← h]
        simp [mapAt_cons, hchild]
      rw [rolesBelow_cons_of_silent hsilent]
      simp only [rolesBelow, hchild]
      exact hmap role
    | some child =>
      cases hchild' : node'.children.lookup comp with
      | none =>
        have hsilent : ∀ path role,
            (node.mapAt (comp :: path) (.user authId)).lookup role = none := by
          intro path role
          rw [h]
          simp [mapAt_cons, hchild']
        rw [rolesBelow_cons_of_silent hsilent]
        simp only [rolesBelow, hchild']
        exact hmap role
      | some child' =>
        have hsame := h.child hchild hchild'
        have hextract : ∀ role, (child.extractRoles authId comps.isEmpty).lookup role =
            (child'.extractRoles authId comps.isEmpty).lookup role := by
          intro role
          rw [lookup_extractRoles, lookup_extractRoles, extractLookup_congr _ (hsame [])]
        have hempty : (child.extractRoles authId comps.isEmpty).entries.isEmpty =
            (child'.extractRoles authId comps.isEmpty).entries.isEmpty := by
          rw [Bool.eq_iff_iff, AList.entries_isEmpty_iff, AList.entries_isEmpty_iff]
          simp [hextract]
        simp only [rolesBelow, hchild, hchild']
        rw [hempty]
        split
        · exact ih hsame hmap
        · exact ih hsame hextract

/-- The walk of `roles` ends with the last node's roles when that node gives the auth id any. -/
theorem rolesBelow_of_last {authId : Authid} {node last : AclTreeNode} {comps : List String}
    (hcomps : comps ≠ []) (hlast : node.descend comps = some last)
    (hroles : (last.extractRoles authId true).entries.isEmpty = false) (roleMap : RoleMap) :
    node.rolesBelow authId roleMap comps = last.extractRoles authId true := by
  induction comps generalizing node roleMap with
  | nil => exact absurd rfl hcomps
  | cons comp comps ih =>
    rw [descend_cons] at hlast
    cases hchild : node.children.lookup comp with
    | none => simp [hchild] at hlast
    | some child =>
      rw [hchild, Option.bind_some] at hlast
      simp only [rolesBelow, hchild]
      cases comps with
      | nil =>
        cases hlast
        simp [hroles, rolesBelow]
      | cons next comps => exact ih (List.cons_ne_nil _ _) hlast _

end AclTreeNode

theorem mem_splitAclPath {path comp : String} (h : comp ∈ splitAclPath path) :
    comp ≠ "" ∧ '/' ∉ comp.toList := by
  simp only [splitAclPath, splitSlash, List.mem_filter, List.mem_map] at h
  obtain ⟨⟨piece, hpiece, rfl⟩, hne⟩ := h
  exact ⟨by simpa using hne, by simpa using List.not_mem_of_mem_splitOn hpiece⟩

namespace AclTree

theorem subComponents_of_forall {path : List String} (h : ∀ comp ∈ path, '/' ∉ comp.toList) :
    subComponents path = path := by
  induction path with
  | nil => rfl
  | cons comp path ih =>
    rw [subComponents, List.flatMap_cons, ← subComponents,
      splitSlash_eq_singleton (h comp (List.mem_cons_self ..)),
      ih fun c hc => h c (List.mem_cons_of_mem _ hc)]
    rfl

/-- The pieces of a path string are split already: `get_node` walks them as they are. -/
theorem subComponents_splitAclPath (path : String) :
    subComponents (splitAclPath path) = splitAclPath path :=
  subComponents_of_forall fun _ hc => (mem_splitAclPath hc).2

/-- The maps of a tree. -/
def maps (tree : AclTree) : AclMaps := tree.root.mapAt

/-- `AclTree::roles` resolves an auth id's roles from its own maps alone: two trees whose maps
for the auth id have the same lookups give it the same roles on every path. -/
theorem lookup_roles_congr {tree tree' : AclTree} {authId : Authid}
    (h : ∀ path role, (tree.maps path (.user authId)).lookup role =
      (tree'.maps path (.user authId)).lookup role)
    (path : List String) (role : String) :
    (tree.roles authId path).lookup role = (tree'.roles authId path).lookup role := by
  apply AclTreeNode.lookup_rolesBelow_congr h
  intro role
  rw [AclTreeNode.lookup_extractRoles, AclTreeNode.lookup_extractRoles]
  exact congrFun (AclTreeNode.extractLookup_congr _ (h [])) role

end AclTree

/-! ## The changes, one map at a time -/

namespace AclMaps

/-- `insert_user_role` and `insert_group_role` on the maps: one map takes the role. -/
def insert (maps : AclMaps) (path : List String) (holder : UserOrGroup) (role : String)
    (propagate : Bool) : AclMaps := fun path' holder' =>
  if path' = path ∧ holder' = holder then AclTreeNode.insertRole (maps path' holder') role propagate
  else maps path' holder'

/-- `delete_user_role` and `delete_group_role` on the maps: one map loses the role. -/
def delete (maps : AclMaps) (path : List String) (holder : UserOrGroup) (role : String) :
    AclMaps := fun path' holder' =>
  if path' = path ∧ holder' = holder then (maps path' holder').erase role else maps path' holder'

/-- `delete_node` on the maps: every map at or below the path is gone, unless the path is the
root's. -/
def deleteBelow (maps : AclMaps) (path : List String) : AclMaps := fun path' holder' =>
  if path ≠ [] ∧ path <+: path' then ∅ else maps path' holder'

/-- `delete_authid` on the maps: the auth id's maps are gone. -/
def deleteAuthid (maps : AclMaps) (authId : Authid) : AclMaps := fun path' holder' =>
  if holder' = .user authId then ∅ else maps path' holder'

end AclMaps

/-- What a call does to the maps. -/
def AclOp.onMaps : AclOp → AclMaps → AclMaps
  | .insertUserRole path authId role propagate, maps =>
    maps.insert (splitAclPath path) (.user authId) role propagate
  | .insertGroupRole path group role propagate, maps =>
    maps.insert (splitAclPath path) (.group group) role propagate
  | .deleteUserRole path authId role, maps => maps.delete (splitAclPath path) (.user authId) role
  | .deleteGroupRole path group role, maps => maps.delete (splitAclPath path) (.group group) role
  | .deleteNode path, maps => maps.deleteBelow (splitAclPath path)
  | .deleteAuthid authId, maps => maps.deleteAuthid authId

namespace AclTree

section Effects

variable (tree : AclTree) (target : String) (path : List String) (holder : UserOrGroup)

theorem maps_new : AclTree.new.maps = fun _ _ => ∅ := by
  funext path holder
  exact AclTreeNode.mapAt_new path holder

theorem maps_insertUserRole (authId : Authid) (role : String) (propagate : Bool) :
    (tree.insertUserRole target authId role propagate).maps =
      tree.maps.insert (splitAclPath target) (.user authId) role propagate := by
  funext path holder
  simp only [maps, insertUserRole, modifyNode, subComponents_splitAclPath, AclMaps.insert]
  rw [AclTreeNode.mapAt_modifyAt _ _ _ _ rfl, AclTreeNode.roleMapOf_insertUserRole,
    AclTreeNode.mapAt_eq_roleMapOf]
  by_cases hpath : path = splitAclPath target
  · by_cases hholder : holder = .user authId <;> simp [hpath, hholder]
  · simp [hpath]

theorem maps_insertGroupRole (group role : String) (propagate : Bool) :
    (tree.insertGroupRole target group role propagate).maps =
      tree.maps.insert (splitAclPath target) (.group group) role propagate := by
  funext path holder
  simp only [maps, insertGroupRole, modifyNode, subComponents_splitAclPath, AclMaps.insert]
  rw [AclTreeNode.mapAt_modifyAt _ _ _ _ rfl, AclTreeNode.roleMapOf_insertGroupRole,
    AclTreeNode.mapAt_eq_roleMapOf]
  by_cases hpath : path = splitAclPath target
  · by_cases hholder : holder = .group group <;> simp [hpath, hholder]
  · simp [hpath]

/-- The change `get_node_mut` makes to a map, read through `mapAt`: nothing where the node is
missing, which the empty map's erasure agrees with. -/
theorem bind_roleMapOf_erase {node : Option AclTreeNode} (role : String) :
    (node.bind fun m => (m.roleMapOf holder).map (·.erase role)).getD ∅ =
      ((node.bind (·.roleMapOf holder)).getD ∅).erase role := by
  cases node with
  | none => rfl
  | some m =>
    simp only [Option.bind_some]
    cases m.roleMapOf holder <;> rfl

theorem maps_deleteUserRole (authId : Authid) (role : String) :
    (tree.deleteUserRole target authId role).maps =
      tree.maps.delete (splitAclPath target) (.user authId) role := by
  funext path holder
  simp only [maps, deleteUserRole, modifyExistingNode, subComponents_splitAclPath, AclMaps.delete]
  rw [AclTreeNode.mapAt_modifyExisting _ _ _ _
    (fun m _ => AclTreeNode.children_deleteUserRole m authId role)]
  simp only [AclTreeNode.roleMapOf_deleteUserRole]
  by_cases hpath : path = splitAclPath target
  · subst hpath
    by_cases hholder : holder = .user authId
    · simp only [hholder, if_true, and_self]
      exact bind_roleMapOf_erase _ role
    · simp [hholder, AclTreeNode.mapAt]
  · simp [hpath]

theorem maps_deleteGroupRole (group role : String) :
    (tree.deleteGroupRole target group role).maps =
      tree.maps.delete (splitAclPath target) (.group group) role := by
  funext path holder
  simp only [maps, deleteGroupRole, modifyExistingNode, subComponents_splitAclPath,
    AclMaps.delete]
  rw [AclTreeNode.mapAt_modifyExisting _ _ _ _
    (fun m _ => AclTreeNode.children_deleteGroupRole m group role)]
  simp only [AclTreeNode.roleMapOf_deleteGroupRole]
  by_cases hpath : path = splitAclPath target
  · subst hpath
    by_cases hholder : holder = .group group
    · simp only [hholder, if_true, and_self]
      exact bind_roleMapOf_erase _ role
    · simp [hholder, AclTreeNode.mapAt]
  · simp [hpath]

theorem maps_deleteNode : (tree.deleteNode target).maps = tree.maps.deleteBelow (splitAclPath target) := by
  funext path holder
  simp only [deleteNode, AclMaps.deleteBelow]
  cases hlast : (splitAclPath target).getLast? with
  | none =>
    rw [List.getLast?_eq_none_iff] at hlast
    simp [hlast]
  | some name =>
    have hsplit : splitAclPath target = (splitAclPath target).dropLast ++ [name] :=
      (List.dropLast_append_getLast? _ hlast).symm
    have hparent : subComponents (splitAclPath target).dropLast = (splitAclPath target).dropLast :=
      subComponents_of_forall fun _ hc => (mem_splitAclPath (List.mem_of_mem_dropLast hc)).2
    have hne : splitAclPath target ≠ [] := by
      rintro h
      simp [h] at hlast
    simp only [maps, modifyExistingNode, hparent]
    rw [AclTreeNode.mapAt_modifyExisting_removeChild, ← hsplit]
    simp only [ne_eq, hne, not_false_eq_true, true_and]

theorem maps_deleteAuthid (authId : Authid) :
    (tree.deleteAuthid authId).maps = tree.maps.deleteAuthid authId := by
  funext path holder
  exact AclTreeNode.mapAt_deleteAuthid authId tree.root path holder

end Effects

/-- Each call changes a tree's maps as its change of maps says. -/
theorem maps_apply (tree : AclTree) (op : AclOp) : (op.apply tree).maps = op.onMaps tree.maps := by
  cases op with
  | insertUserRole => exact maps_insertUserRole ..
  | insertGroupRole => exact maps_insertGroupRole ..
  | deleteUserRole => exact maps_deleteUserRole ..
  | deleteGroupRole => exact maps_deleteGroupRole ..
  | deleteNode => exact maps_deleteNode ..
  | deleteAuthid => exact maps_deleteAuthid ..

/-- The tree that a sequence of calls builds holds the maps the calls describe, one after the
other from no maps at all. -/
theorem maps_build (ops : List AclOp) :
    (build ops).maps = ops.foldl (fun maps op => op.onMaps maps) fun _ _ => ∅ := by
  suffices h : ∀ tree : AclTree, (ops.foldl AclOp.apply tree).maps =
      ops.foldl (fun maps op => op.onMaps maps) tree.maps by
    rw [build, h, maps_new]
  induction ops with
  | nil => intro tree; rfl
  | cons op ops ih =>
    intro tree
    rw [List.foldl_cons, ih, maps_apply, List.foldl_cons]

end AclTree

/-! ## What the calls guarantee -/

namespace AclTreeNode

/-- `NoAccess` stands alone in a role map: a map that has it has no other role. -/
def NoAccessAlone (roles : RoleMap) : Prop :=
  (roles.lookup roleNameNoAccess).isSome → ∀ role, role ≠ roleNameNoAccess → roles.lookup role = none

theorem noAccessAlone_empty : NoAccessAlone ∅ := by
  simp [NoAccessAlone]

/-- Whatever the map held, `insert_user_role` and `insert_group_role` leave `NoAccess` alone. -/
theorem noAccessAlone_insertRole (roles : RoleMap) (role : String) (propagate : Bool) :
    NoAccessAlone (insertRole roles role propagate) := by
  intro hno other hother
  by_cases hrole : role = roleNameNoAccess
  · subst hrole
    rw [insertRole, if_pos rfl, AList.lookup_insert_ne hother]
    rfl
  · rw [insertRole, if_neg hrole, AList.lookup_insert_ne (Ne.symm hrole), AList.lookup_erase] at hno
    simp at hno

theorem noAccessAlone_erase {roles : RoleMap} (h : NoAccessAlone roles) (role : String) :
    NoAccessAlone (roles.erase role) := by
  intro hno other hother
  by_cases hrole : role = roleNameNoAccess
  · subst hrole
    simp at hno
  · rw [AList.lookup_erase_ne (Ne.symm hrole)] at hno
    by_cases hsame : other = role
    · subst hsame
      exact AList.lookup_erase _ _
    · rw [AList.lookup_erase_ne hsame]
      exact h hno other hother

/-- The map an extraction returns from a map that just took a role, at the last node of a path:
the role with its flag, or `NoAccess` without propagation. -/
theorem extractLookup_insertRole (roles : RoleMap) (role : String) (propagate : Bool) :
    extractLookup true (insertRole roles role propagate) role =
      some (if role = roleNameNoAccess then false else propagate) := by
  unfold insertRole
  by_cases hrole : role = roleNameNoAccess
  · subst hrole
    simp only [extractLookup, applying, if_true, AList.lookup_insert, Option.filter_some,
      Bool.or_true, Option.isSome_some, noAccessMap]
  · simp [extractLookup, applying, hrole, AList.lookup_insert_ne (Ne.symm hrole)]

end AclTreeNode

namespace AclTree

open AclTreeNode

/-- Every call keeps `NoAccess` alone in every map. -/
theorem onMaps_noAccessAlone (op : AclOp) {maps : AclMaps}
    (h : ∀ path holder, NoAccessAlone (maps path holder)) (path : List String)
    (holder : UserOrGroup) : NoAccessAlone (op.onMaps maps path holder) := by
  cases op <;>
    simp only [AclOp.onMaps, AclMaps.insert, AclMaps.delete, AclMaps.deleteBelow,
      AclMaps.deleteAuthid] <;>
    split
  all_goals first
    | exact noAccessAlone_insertRole _ _ _
    | exact noAccessAlone_erase (h _ _) _
    | exact noAccessAlone_empty
    | exact h _ _

/-- In a tree built by any sequence of calls, every user's, token's and group's role map on
every path holds `NoAccess` alone or not at all. -/
theorem noAccessAlone_build (ops : List AclOp) (path : List String) (holder : UserOrGroup) :
    NoAccessAlone ((build ops).maps path holder) := by
  -- every call keeps `NoAccess` alone in every map, from the tree without maps on
  refine List.foldl_invariant (fun tree : AclTree => ∀ path holder,
    NoAccessAlone (tree.maps path holder)) (fun tree op _ h => ?_) ?_ path holder
  · rw [maps_apply]
    exact onMaps_noAccessAlone op h
  · intro path holder
    rw [maps_new]
    exact noAccessAlone_empty

/-- Where the node of a path exists and gives the auth id roles, `roles` on that path returns
them. -/
theorem lookup_roles_of_last {tree : AclTree} {authId : Authid} {path : List String}
    (hpath : subComponents path = path) {last : AclTreeNode}
    (hlast : tree.root.descend path = some last) {some_role : String}
    (hsome : (extractLookup true (tree.maps path (.user authId)) some_role).isSome)
    (role : String) :
    (tree.roles authId path).lookup role =
      extractLookup true (tree.maps path (.user authId)) role := by
  have hmaps : tree.maps path (.user authId) = last.mapAt [] (.user authId) := by
    rw [maps, mapAt_eq_roleMapOf, hlast, Option.getD_some, mapAt_nil]
  rw [hmaps] at hsome ⊢
  have hne : (last.extractRoles authId true).entries.isEmpty = false := by
    rw [Bool.eq_false_iff, ne_eq, AList.entries_isEmpty_iff, not_forall]
    exact ⟨some_role, by rw [lookup_extractRoles]; exact Option.ne_none_iff_isSome.mpr hsome⟩
  unfold roles
  rw [hpath]
  cases path with
  | nil =>
    cases hlast
    rw [List.isEmpty_nil, rolesBelow, lookup_extractRoles]
  | cons comp comps =>
    rw [rolesBelow_of_last (List.cons_ne_nil _ _) hlast hne, lookup_extractRoles]

/-- Right after `insert_user_role`, `roles` on the path gives the auth id the role with its
flag, whatever the tree held; `NoAccess` comes back without propagation. -/
theorem lookup_roles_insertUserRole (tree : AclTree) (path : String) (authId : Authid)
    (role : String) (propagate : Bool) :
    ((tree.insertUserRole path authId role propagate).roles authId (splitAclPath path)).lookup
      role = some (if role = roleNameNoAccess then false else propagate) := by
  have hmap : (tree.insertUserRole path authId role propagate).maps (splitAclPath path)
      (.user authId) = insertRole (tree.maps (splitAclPath path) (.user authId)) role propagate := by
    rw [maps_insertUserRole]
    simp [AclMaps.insert]
  have hlast : (tree.insertUserRole path authId role propagate).root.descend (splitAclPath path) =
      some (((tree.root.descend (splitAclPath path)).getD AclTreeNode.new).insertUserRole authId role
        propagate) := by
    simp only [insertUserRole, modifyNode, subComponents_splitAclPath]
    have := descend_modifyAt_append (·.insertUserRole authId role propagate) tree.root
      (splitAclPath path) []
    rwa [List.append_nil, descend_nil] at this
  have hsome : (extractLookup true ((tree.insertUserRole path authId role propagate).maps
      (splitAclPath path) (.user authId)) role).isSome := by
    rw [hmap, extractLookup_insertRole]
    rfl
  rw [lookup_roles_of_last (subComponents_splitAclPath path) hlast hsome, hmap,
    extractLookup_insertRole]

/-- A tree in which an auth id has no roles anywhere gives it none on any path. -/
theorem roles_of_silent {tree : AclTree} {authId : Authid}
    (h : ∀ path role, (tree.maps path (.user authId)).lookup role = none) (path : List String) :
    tree.roles authId path = ∅ := by
  have hroot : tree.root.extractRoles authId path.isEmpty = ∅ := by
    apply AList.ext
    apply List.isEmpty_iff.mp
    exact extractRoles_isEmpty_of_silent (h []) _
  unfold roles
  rw [hroot]
  cases subComponents path with
  | nil => rfl
  | cons comp comps => exact rolesBelow_cons_of_silent (fun path role => h (comp :: path) role) _ _

/-- After `delete_authid`, the auth id has no roles on any path. -/
theorem roles_deleteAuthid (tree : AclTree) (authId : Authid) (path : List String) :
    (tree.deleteAuthid authId).roles authId path = ∅ := by
  apply roles_of_silent
  intro path role
  rw [maps_deleteAuthid]
  simp [AclMaps.deleteAuthid]

/-- `insert_group_role` changes no auth id's roles on any path: group roles never count. -/
theorem lookup_roles_insertGroupRole (tree : AclTree) (target group role : String)
    (propagate : Bool) (authId : Authid) (path : List String) (role' : String) :
    ((tree.insertGroupRole target group role propagate).roles authId path).lookup role' =
      (tree.roles authId path).lookup role' := by
  apply lookup_roles_congr
  intro path role
  rw [maps_insertGroupRole]
  simp [AclMaps.insert]

end AclTree

end ProxmoxBackup.Acl
