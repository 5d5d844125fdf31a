import Mathlib

/-!
# ACL trees (`pbs-config/src/acl.rs`)

An `AclTree` holds, for every ACL path that has a node, the roles of users, API tokens and
groups there, each role with its propagate flag. `AclTree::roles` resolves the roles of an auth
id on a path by walking it from the root: every node on the way contributes the roles it
propagates, the last one all of its roles, and a node's non-empty contribution replaces what
the nodes above gave. A user's own roles on a node hide the roles of its groups, and `NoAccess`
hides every other role of its map. `get_child_paths` lists the paths below a node where an auth
id has roles.
-/

namespace ProxmoxBackup.Acl

/-- `Authid`: a user `name@realm`, or an API token `name@realm!token` of that user. -/
structure Authid where
  user : String
  token : Option String
  deriving DecidableEq, Repr

/-- `Authid::is_token`. -/
def Authid.isToken (authId : Authid) : Bool := authId.token.isSome

/-- `Authid::from(Userid)`. -/
def Authid.ofUser (user : String) : Authid := ⟨user, none⟩

/-- `Display for Authid`: the user, and `!` and the token name for a token. -/
def Authid.toString (authId : Authid) : String :=
  match authId.token with
  | some token => authId.user ++ "!" ++ token
  | none => authId.user

instance : ToString Authid := ⟨Authid.toString⟩

/-- `ROLE_NAME_NO_ACCESS`. -/
def roleNameNoAccess : String := "NoAccess"

/-- A role map (`HashMap<String, bool>`): role names with their propagate flags. -/
abbrev RoleMap := AList (fun _ : String => Bool)

/-- The map that `NoAccess` leaves: `NoAccess` alone, not propagated. -/
def noAccessMap : RoleMap := (∅ : RoleMap).insert roleNameNoAccess false

/-- `AclTreeNode`: the role maps of users and tokens and of groups on one path, and the nodes
one component below (a `BTreeMap`, here a list of named nodes). -/
inductive AclTreeNode where
  | mk (users : AList (fun _ : Authid => RoleMap)) (groups : AList (fun _ : String => RoleMap))
      (children : List (String × AclTreeNode))

namespace AclTreeNode

def users : AclTreeNode → AList (fun _ : Authid => RoleMap)
  | mk users _ _ => users

def groups : AclTreeNode → AList (fun _ : String => RoleMap)
  | mk _ groups _ => groups

def children : AclTreeNode → List (String × AclTreeNode)
  | mk _ _ children => children

/-- `AclTreeNode::new`. -/
def new : AclTreeNode := mk ∅ ∅ []

/-- The loop of `extract_user_roles` and `extract_group_roles` over one role map: the roles that
apply (the propagating ones, and all of them on the last node of a path) are inserted into
`map`; an applicable `NoAccess` ends the extraction with `NoAccess` alone (`.error`). -/
def extractInto (leaf : Bool) : List (Σ _ : String, Bool) → RoleMap → Except RoleMap RoleMap
  | [], map => .ok map
  | ⟨role, propagate⟩ :: roles, map =>
    if propagate || leaf then
      if role = roleNameNoAccess then .error noAccessMap
      else extractInto leaf roles (map.insert role propagate)
    else extractInto leaf roles map

/-- The map an extraction returns, whether it ran to the end or stopped at `NoAccess`. -/
def extracted : Except RoleMap RoleMap → RoleMap
  | .ok map => map
  | .error map => map

/-- `extract_user_roles`. -/
def extractUserRoles (node : AclTreeNode) (authId : Authid) (leaf : Bool) : RoleMap :=
  match node.users.lookup authId with
  | some roles => extracted (extractInto leaf roles.entries ∅)
  | none => ∅

/-- The loop of `extract_group_roles`: group membership is never established (`is_member` is
fixed to `false` in the source), so every group is skipped. -/
def extractGroupRolesFrom (leaf : Bool) : List (Σ _ : String, RoleMap) → RoleMap → RoleMap
  | [], map => map
  | ⟨_, roles⟩ :: groups, map =>
    let isMember := false
    if !isMember then extractGroupRolesFrom leaf groups map
    else match extractInto leaf roles.entries map with
      | .ok map => extractGroupRolesFrom leaf groups map
      | .error map => map

/-- `extract_group_roles`. -/
def extractGroupRoles (node : AclTreeNode) (_user : String) (leaf : Bool) : RoleMap :=
  extractGroupRolesFrom leaf node.groups.entries ∅

/-- `extract_roles`: a user's own roles override its groups' roles; a token has no groups. -/
def extractRoles (node : AclTreeNode) (authId : Authid) (leaf : Bool) : RoleMap :=
  let userRoles := node.extractUserRoles authId leaf
  if !userRoles.entries.isEmpty || authId.isToken then userRoles
  else node.extractGroupRoles authId.user leaf

end AclTreeNode

/-- `str::split('/')`: the pieces between slashes, empty ones included. -/
def splitSlash (s : String) : List String := (s.toList.splitOn '/').map String.ofList

/-- `split_acl_path`: the non-empty pieces of a path. -/
def splitAclPath (path : String) : List String := (splitSlash path).filter (· ≠ "")

theorem splitSlash_eq_singleton {s : String} (h : '/' ∉ s.toList) : splitSlash s = [s] := by
  simp [splitSlash, List.splitOn_eq_singleton h]

theorem splitAclPath_eq_singleton {s : String} (h : '/' ∉ s.toList) (hne : s ≠ "") :
    splitAclPath s = [s] := by
  simp [splitAclPath, splitSlash_eq_singleton h, hne]

/-- `AclTree`. -/
structure AclTree where
  root : AclTreeNode

namespace AclTreeNode

/-- The walk of `get_node` below a node, one sub-component at a time. -/
def descend : AclTreeNode → List String → Option AclTreeNode
  | node, [] => some node
  | node, comp :: comps =>
    match node.children.lookup comp with
    | some child => child.descend comps
    | none => none

/-- The walk of `AclTree::roles` below a node: each node on the way replaces the role map by
its own roles if it has any, the roles it propagates unless it is the last node. -/
def rolesBelow (authId : Authid) : AclTreeNode → RoleMap → List String → RoleMap
  | _, roleMap, [] => roleMap
  | node, roleMap, subComp :: rest =>
    match node.children.lookup subComp with
    | none => roleMap -- path not found
    | some child =>
      let newMap := child.extractRoles authId rest.isEmpty
      child.rolesBelow authId (if newMap.entries.isEmpty then roleMap else newMap) rest

mutual

/-- `AclTreeNode::get_child_paths`: every path below the node (written `path/name`) whose node
gives the auth id roles, in tree order. -/
def getChildPaths (authId : Authid) : AclTreeNode → String → List String
  | mk _ _ children, path => getChildPathsOf authId children path

/-- The loop of `get_child_paths` over a node's children. -/
def getChildPathsOf (authId : Authid) : List (String × AclTreeNode) → String → List String
  | [], _ => []
  | (subComp, child) :: children, path =>
    let childPath := path ++ "/" ++ subComp
    (if (child.extractRoles authId true).entries.isEmpty then [] else [childPath]) ++
      child.getChildPaths authId childPath ++ getChildPathsOf authId children path

end

end AclTreeNode

namespace AclTree

/-- The sub-components of a path: each element split at its slashes, as the nested loops of
`get_node` and `roles` take them. -/
def subComponents (path : List String) : List String := path.flatMap splitSlash

/-- `AclTree::get_node`. -/
def getNode (tree : AclTree) (path : List String) : Option AclTreeNode :=
  tree.root.descend (subComponents path)

/-- `AclTree::roles`. The last sub-component of the last element is the last node of the path,
since splitting never yields no piece. -/
def roles (tree : AclTree) (authId : Authid) (path : List String) : RoleMap :=
  tree.root.rolesBelow authId (tree.root.extractRoles authId path.isEmpty) (subComponents path)

/-- `AclTree::get_child_paths`: the paths below `path` where the auth id has roles, each the
joined anchor followed by `/` and the components below it. -/
def getChildPaths (tree : AclTree) (authId : Authid) (path : List String) : List String :=
  match tree.getNode path with
  | some node => node.getChildPaths authId (String.intercalate "/" path)
  | none => []

end AclTree

/-! ## Changing the tree -/

namespace AclTreeNode

/-- The role-map half of `insert_user_role` and `insert_group_role`: `NoAccess` clears the map
before it goes in, any other role takes `NoAccess` out. -/
def insertRole (map : RoleMap) (role : String) (propagate : Bool) : RoleMap :=
  if role = roleNameNoAccess then (∅ : RoleMap).insert role propagate
  else (map.erase roleNameNoAccess).insert role propagate

/-- `AclTreeNode::insert_user_role`: the auth id's map, created empty if missing, takes the
role. -/
def insertUserRole (node : AclTreeNode) (authId : Authid) (role : String) (propagate : Bool) :
    AclTreeNode :=
  mk (node.users.insert authId (insertRole ((node.users.lookup authId).getD ∅) role propagate))
    node.groups node.children

/-- `AclTreeNode::insert_group_role`. -/
def insertGroupRole (node : AclTreeNode) (group role : String) (propagate : Bool) :
    AclTreeNode :=
  mk node.users
    (node.groups.insert group (insertRole ((node.groups.lookup group).getD ∅) role propagate))
    node.children

/-- `AclTreeNode::delete_user_role`: the role leaves the auth id's map, which stays even when it
is left empty; nothing changes for an auth id without a map. -/
def deleteUserRole (node : AclTreeNode) (authId : Authid) (role : String) : AclTreeNode :=
  match node.users.lookup authId with
  | some roles => mk (node.users.insert authId (roles.erase role)) node.groups node.children
  | none => node

/-- `AclTreeNode::delete_group_role`. -/
def deleteGroupRole (node : AclTreeNode) (group role : String) : AclTreeNode :=
  match node.groups.lookup group with
  | some roles => mk node.users (node.groups.insert group (roles.erase role)) node.children
  | none => node

mutual

/-- `AclTreeNode::delete_authid`: the auth id's map leaves the node and every node below. -/
def deleteAuthid (authId : Authid) : AclTreeNode → AclTreeNode
  | mk users groups children => mk (users.erase authId) groups (deleteAuthidOf authId children)

/-- The loop of `delete_authid` over a node's children. -/
def deleteAuthidOf (authId : Authid) : List (String × AclTreeNode) → List (String × AclTreeNode)
  | [] => []
  | (name, child) :: children => (name, deleteAuthid authId child) :: deleteAuthidOf authId children

end

/-- `children.get_mut(comp)` and a change `f` of the child it returns, if there is one. -/
def modifyChild (comp : String) (f : AclTreeNode → AclTreeNode) :
    List (String × AclTreeNode) → List (String × AclTreeNode)
  | [] => []
  | (name, child) :: children =>
    if name = comp then (name, f child) :: children else (name, child) :: modifyChild comp f children

/-- `children.entry(comp).or_default()`: a new node under the name unless there is one, at its
place in the order of names (a `BTreeMap`). -/
def orDefault (comp : String) (children : List (String × AclTreeNode)) :
    List (String × AclTreeNode) :=
  if (children.lookup comp).isSome then children
  else children.orderedInsert (fun x y => x.1 ≤ y.1) (comp, new)

/-- `get_or_insert_node` below a node, missing nodes created on the way, and a change `f` of the
node it reaches. -/
def modifyAt (f : AclTreeNode → AclTreeNode) : AclTreeNode → List String → AclTreeNode
  | node, [] => f node
  | node, comp :: comps =>
    mk node.users node.groups
      (modifyChild comp (fun child => modifyAt f child comps) (orDefault comp node.children))

/-- `get_node_mut` below a node and a change `f` of the node it reaches; nothing changes when a
node on the way is missing. -/
def modifyExisting (f : AclTreeNode → AclTreeNode) : AclTreeNode → List String → AclTreeNode
  | node, [] => f node
  | node, comp :: comps =>
    mk node.users node.groups
      (modifyChild comp (fun child => modifyExisting f child comps) node.children)

/-- `children.remove(name)`. -/
def removeChild (node : AclTreeNode) (name : String) : AclTreeNode :=
  mk node.users node.groups (node.children.filter fun child => child.1 ≠ name)

end AclTreeNode

namespace AclTree

/-- `AclTree::new`. -/
def new : AclTree := ⟨AclTreeNode.new⟩

/-- `get_or_insert_node` and a change of the node it returns. -/
def modifyNode (tree : AclTree) (path : List String) (f : AclTreeNode → AclTreeNode) : AclTree :=
  ⟨tree.root.modifyAt f (subComponents path)⟩

/-- `get_node_mut` and a change of the node it returns. -/
def modifyExistingNode (tree : AclTree) (path : List String) (f : AclTreeNode → AclTreeNode) :
    AclTree :=
  ⟨tree.root.modifyExisting f (subComponents path)⟩

/-- `AclTree::insert_user_role`: the node of the path is created if necessary. -/
def insertUserRole (tree : AclTree) (path : String) (authId : Authid) (role : String)
    (propagate : Bool) : AclTree :=
  tree.modifyNode (splitAclPath path) (·.insertUserRole authId role propagate)

/-- `AclTree::insert_group_role`. -/
def insertGroupRole (tree : AclTree) (path group role : String) (propagate : Bool) : AclTree :=
  tree.modifyNode (splitAclPath path) (·.insertGroupRole group role propagate)

/-- `AclTree::delete_user_role`: nothing changes if the path has no node. -/
def deleteUserRole (tree : AclTree) (path : String) (authId : Authid) (role : String) :
    AclTree :=
  tree.modifyExistingNode (splitAclPath path) (·.deleteUserRole authId role)

/-- `AclTree::delete_group_role`. -/
def deleteGroupRole (tree : AclTree) (path group role : String) : AclTree :=
  tree.modifyExistingNode (splitAclPath path) (·.deleteGroupRole group role)

/-- `AclTree::delete_node`: the node of the path leaves its parent; the root stays. -/
def deleteNode (tree : AclTree) (path : String) : AclTree :=
  let path := splitAclPath path
  match path.getLast? with
  | some name => tree.modifyExistingNode path.dropLast (·.removeChild name)
  | none => tree

/-- `AclTree::delete_authid`. -/
def deleteAuthid (tree : AclTree) (authId : Authid) : AclTree := ⟨tree.root.deleteAuthid authId⟩

end AclTree

/-- A call that changes an `AclTree`, with its arguments. -/
inductive AclOp where
  | insertUserRole (path : String) (authId : Authid) (role : String) (propagate : Bool)
  | insertGroupRole (path group role : String) (propagate : Bool)
  | deleteUserRole (path : String) (authId : Authid) (role : String)
  | deleteGroupRole (path group role : String)
  | deleteNode (path : String)
  | deleteAuthid (authId : Authid)

namespace AclOp

/-- The call made on a tree. -/
def apply (tree : AclTree) : AclOp → AclTree
  | insertUserRole path authId role propagate => tree.insertUserRole path authId role propagate
  | insertGroupRole path group role propagate => tree.insertGroupRole path group role propagate
  | deleteUserRole path authId role => tree.deleteUserRole path authId role
  | deleteGroupRole path group role => tree.deleteGroupRole path group role
  | deleteNode path => tree.deleteNode path
  | deleteAuthid authId => tree.deleteAuthid authId

end AclOp

/-- The tree that a sequence of calls builds from `AclTree::new`. -/
def AclTree.build (ops : List AclOp) : AclTree := ops.foldl AclOp.apply AclTree.new

end ProxmoxBackup.Acl
