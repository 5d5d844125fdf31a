import ProxmoxBackup.Config.AclConfig

/-!
# The trees `write_config` can save (`pbs-config/src/acl.rs`)

`from_raw` reads back what `write_config` wrote only of a tree that meets a few conditions,
which `AclTreeNode.Writable` names for one node: its children have different names that are path
components (neither `/`, `:` nor a line break), and every map it writes belongs to a user, token
or group whose name reads back, holds known roles only, and `NoAccess` alone. `root@pam`, whose
roles the writer leaves out, needs none of this. `AclTree.Writable` asks it of every node.

Every call keeps a tree writable when what it inserts meets the same conditions
(`AclOp.Valid`). `writableBelow_modifyAt` and `writableBelow_modifyExisting` carry a change of
one node along the path to it (`get_or_insert_node`, `get_node_mut`); `AclTree.writable_apply`
assembles each call from them, and `AclTree.writable_build` follows a whole sequence of calls.
-/

namespace ProxmoxBackup.Acl

variable {parseAuthid : String → Except String Authid}

/-- The user whose roles `write_node_config` leaves out, `root@pam` (the test of
`is_superuser`); its tokens and every group are written. -/
def UserOrGroup.isSuperuser : UserOrGroup → Bool
  | .user authId => !authId.isToken && decide (authId.user = "root@pam")
  | .group _ => false

/-- What the writer needs of a node: its children have different names that are path
components, and every map it writes (all but `root@pam`'s) belongs to a user, token or group
that reads back, holds known roles only, and `NoAccess` alone. -/
structure AclTreeNode.Writable (parseAuthid : String → Except String Authid)
    (node : AclTreeNode) : Prop where
  keys_nodup : (node.children.map Prod.fst).Nodup
  keys_component : ∀ child ∈ node.children, PathComponent child.1
  readable : ∀ holder roles, holder.isSuperuser = false → node.roleMapOf holder = some roles →
    holder.Readable parseAuthid
  known : ∀ holder roles, holder.isSuperuser = false → node.roleMapOf holder = some roles →
    ∀ r q, roles.lookup r = some q → (roleNames r).isSome
  noAccessAlone : ∀ holder roles, holder.isSuperuser = false →
    node.roleMapOf holder = some roles → AclTreeNode.NoAccessAlone roles

/-- Every node below passes what the writer needs. -/
def AclTreeNode.WritableBelow (parseAuthid : String → Except String Authid)
    (node : AclTreeNode) : Prop :=
  ∀ path below, node.descend path = some below → below.Writable parseAuthid

theorem AclTreeNode.WritableBelow.child {node : AclTreeNode}
    (hnode : node.WritableBelow parseAuthid) {child : String × AclTreeNode}
    (hchild : child ∈ node.children) : child.2.WritableBelow parseAuthid := by
  intro path below hbelow
  apply hnode (child.1 :: path)
  rw [AclTreeNode.descend_cons,
    List.lookup_eq_some_of_nodup (hnode [] node rfl).keys_nodup hchild, Option.bind_some, hbelow]

/-- What the writer needs of a tree: every node passes it. -/
def AclTree.Writable (parseAuthid : String → Except String Authid) (tree : AclTree) : Prop :=
  tree.root.WritableBelow parseAuthid


namespace AclTreeNode

/-! ## Children -/

theorem keys_modifyChild (comp : String) (f : AclTreeNode → AclTreeNode)
    (children : List (String × AclTreeNode)) :
    (modifyChild comp f children).map Prod.fst = children.map Prod.fst := by
  induction children with
  | nil => rfl
  | cons child children ih =>
    obtain ⟨name, child⟩ := child
    rw [modifyChild]
    split <;> simp [ih]

theorem mem_keys_orDefault {comp k : String} {children : List (String × AclTreeNode)} :
    k ∈ (orDefault comp children).map Prod.fst ↔ k = comp ∨ k ∈ children.map Prod.fst := by
  unfold orDefault
  split
  · rename_i hsome
    refine ⟨.inr, ?_⟩
    rintro (rfl | h)
    · exact List.isSome_lookup_iff.mp hsome
    · exact h
  · rw [((List.perm_orderedInsert _ _ _).map Prod.fst).mem_iff]
    simp

theorem nodup_keys_orDefault {comp : String} {children : List (String × AclTreeNode)}
    (h : (children.map Prod.fst).Nodup) : ((orDefault comp children).map Prod.fst).Nodup := by
  unfold orDefault
  split
  · exact h
  · rename_i hnone
    rw [((List.perm_orderedInsert _ _ _).map Prod.fst).nodup_iff, List.map_cons, List.nodup_cons]
    exact ⟨fun hmem => hnone (List.isSome_lookup_iff.mpr hmem), h⟩

theorem keys_deleteAuthidOf (authId : Authid) (children : List (String × AclTreeNode)) :
    (deleteAuthidOf authId children).map Prod.fst = children.map Prod.fst := by
  induction children with
  | nil => simp [deleteAuthidOf]
  | cons child children ih =>
    obtain ⟨name, child⟩ := child
    simp [deleteAuthidOf, ih]

theorem children_deleteAuthid (authId : Authid) (node : AclTreeNode) :
    (node.deleteAuthid authId).children = deleteAuthidOf authId node.children := by
  cases node
  rw [deleteAuthid_mk]
  rfl

/-- A role that a map holds after an insertion is the inserted one or was there before. -/
theorem lookup_insertRole_eq_some {roles : RoleMap} {role r : String} {p q : Bool}
    (h : (insertRole roles role p).lookup r = some q) : r = role ∨ roles.lookup r = some q := by
  by_cases hr : r = role
  · exact .inl hr
  refine .inr ?_
  unfold insertRole at h
  split at h
  · rw [AList.lookup_insert_ne hr] at h
    cases h
  · rw [AList.lookup_insert_ne hr] at h
    by_cases hno : r = roleNameNoAccess
    · subst hno
      rw [AList.lookup_erase] at h
      cases h
    · rwa [AList.lookup_erase_ne hno] at h

/-! ## One node -/

namespace Writable

variable {node : AclTreeNode} (h : node.Writable parseAuthid)
include h

theorem pathComponent_of_mem_keys {k : String} (hk : k ∈ node.children.map Prod.fst) :
    PathComponent k := by
  obtain ⟨child, hchild, rfl⟩ := List.mem_map.mp hk
  exact h.keys_component child hchild

theorem known_getD {holder : UserOrGroup} (hsu : holder.isSuperuser = false) {r : String}
    {q : Bool} (hr : ((node.roleMapOf holder).getD ∅).lookup r = some q) :
    (roleNames r).isSome := by
  cases hroles : node.roleMapOf holder with
  | none =>
    rw [hroles, Option.getD_none] at hr
    cases hr
  | some roles =>
    rw [hroles, Option.getD_some] at hr
    exact h.known holder roles hsu hroles r q hr

/-- The maps of a writable node, with other children whose names are different path
components. -/
theorem withChildren {children : List (String × AclTreeNode)}
    (hnodup : (children.map Prod.fst).Nodup) (hkeys : ∀ k ∈ children.map Prod.fst, PathComponent k) :
    (AclTreeNode.mk node.users node.groups children).Writable parseAuthid where
  keys_nodup := hnodup
  keys_component := fun _ hchild => hkeys _ (List.mem_map_of_mem hchild)
  readable holder roles hsu hroles := h.readable holder roles hsu (by simpa using hroles)
  known holder roles hsu hroles := h.known holder roles hsu (by simpa using hroles)
  noAccessAlone holder roles hsu hroles := h.noAccessAlone holder roles hsu (by simpa using hroles)

/-- `insert_user_role` and `insert_group_role` keep a node writable when the user, token or
group reads back and the role is known, or the user is `root@pam`. -/
theorem insertFor {holder : UserOrGroup} {role : String}
    (hholder : holder.isSuperuser = false → holder.Readable parseAuthid ∧ (roleNames role).isSome)
    (p : Bool) : (node.insertFor holder role p).Writable parseAuthid where
  keys_nodup := by
    rw [children_insertFor]
    exact h.keys_nodup
  keys_component := by
    rw [children_insertFor]
    exact h.keys_component
  readable other roles hsu hroles := by
    rw [roleMapOf_insertFor] at hroles
    split at hroles
    · subst other
      exact (hholder hsu).1
    · exact h.readable other roles hsu hroles
  known other roles hsu hroles r q hr := by
    rw [roleMapOf_insertFor] at hroles
    split at hroles
    · subst other
      rw [Option.some.injEq] at hroles
      subst hroles
      rcases lookup_insertRole_eq_some hr with rfl | hr
      · exact (hholder hsu).2
      · exact h.known_getD hsu hr
    · exact h.known other roles hsu hroles r q hr
  noAccessAlone other roles hsu hroles := by
    rw [roleMapOf_insertFor] at hroles
    split at hroles
    · rw [Option.some.injEq] at hroles
      subst hroles
      exact noAccessAlone_insertRole _ _ _
    · exact h.noAccessAlone other roles hsu hroles

/-- `delete_user_role` and `delete_group_role` keep a node writable: each map stays or loses the
role. -/
theorem of_erase {node' : AclTreeNode} (hchildren : node'.children = node.children) (role : String)
    (hmaps : ∀ holder, node'.roleMapOf holder = node.roleMapOf holder ∨
      node'.roleMapOf holder = (node.roleMapOf holder).map (·.erase role)) :
    node'.Writable parseAuthid := by
  -- every map of the new node is a map of the old one, or one with the role erased
  have hmap : ∀ holder roles, node'.roleMapOf holder = some roles →
      ∃ roles₀, node.roleMapOf holder = some roles₀ ∧ (roles = roles₀ ∨ roles = roles₀.erase role) := by
    intro holder roles hroles
    rcases hmaps holder with hsame | herase
    · exact ⟨roles, hsame ▸ hroles, .inl rfl⟩
    · rw [herase, Option.map_eq_some_iff] at hroles
      obtain ⟨roles₀, hroles₀, rfl⟩ := hroles
      exact ⟨roles₀, hroles₀, .inr rfl⟩
  refine ⟨hchildren ▸ h.keys_nodup, hchildren ▸ h.keys_component, ?_, ?_, ?_⟩
  · intro holder roles hsu hroles
    obtain ⟨roles₀, hroles₀, -⟩ := hmap holder roles hroles
    exact h.readable holder roles₀ hsu hroles₀
  · intro holder roles hsu hroles r q hr
    obtain ⟨roles₀, hroles₀, rfl | rfl⟩ := hmap holder roles hroles
    · exact h.known holder _ hsu hroles₀ r q hr
    · by_cases hrole : r = role
      · subst hrole
        rw [AList.lookup_erase] at hr
        cases hr
      · rw [AList.lookup_erase_ne hrole] at hr
        exact h.known holder roles₀ hsu hroles₀ r q hr
  · intro holder roles hsu hroles
    obtain ⟨roles₀, hroles₀, rfl | rfl⟩ := hmap holder roles hroles
    · exact h.noAccessAlone holder _ hsu hroles₀
    · exact noAccessAlone_erase (h.noAccessAlone holder roles₀ hsu hroles₀) role

theorem removeChild (name : String) : (node.removeChild name).Writable parseAuthid := by
  have hsub := (List.filter_sublist (p := fun child : String × AclTreeNode => decide (child.1 ≠ name))
    (l := node.children)).map Prod.fst
  exact h.withChildren (hsub.nodup h.keys_nodup)
    fun k hk => h.pathComponent_of_mem_keys (hsub.subset hk)

theorem deleteAuthid (authId : Authid) : (node.deleteAuthid authId).Writable parseAuthid := by
  have hkeys : ((node.deleteAuthid authId).children.map Prod.fst) = node.children.map Prod.fst := by
    rw [children_deleteAuthid, keys_deleteAuthidOf]
  refine ⟨hkeys ▸ h.keys_nodup, fun child hchild => ?_, ?_, ?_, ?_⟩
  · exact h.pathComponent_of_mem_keys (hkeys ▸ List.mem_map_of_mem hchild)
  all_goals
    intro holder roles hsu hroles
    rw [roleMapOf_deleteAuthid] at hroles
    split at hroles
    · cases hroles
  · exact h.readable holder roles hsu hroles
  · exact h.known holder roles hsu hroles
  · exact h.noAccessAlone holder roles hsu hroles

end Writable

/-! ## Every node below -/

theorem writableBelow_new : new.WritableBelow parseAuthid := by
  intro path below hbelow
  rw [descend_new] at hbelow
  split at hbelow
  · cases hbelow
    exact ⟨List.nodup_nil, by simp, by simp, by simp, by simp⟩
  · cases hbelow

/-- A change of a node's own maps that keeps it writable and its children keeps every node below
writable. -/
theorem WritableBelow.of_children_eq {node node' : AclTreeNode}
    (h : node.WritableBelow parseAuthid) (hchildren : node'.children = node.children)
    (hnode' : node'.Writable parseAuthid) : node'.WritableBelow parseAuthid := by
  rintro (_ | ⟨comp, path⟩) below hbelow
  · rw [descend_nil, Option.some.injEq] at hbelow
    exact hbelow ▸ hnode'
  · apply h (comp :: path)
    rwa [descend_cons, ← hchildren, ← descend_cons]

/-- `get_or_insert_node` and a change that keeps every node below writable keep every node
below writable: the nodes on the way keep their maps and take at most one new child, a path
component. -/
theorem writableBelow_modifyAt {f : AclTreeNode → AclTreeNode}
    (hf : ∀ m, m.WritableBelow parseAuthid → (f m).WritableBelow parseAuthid)
    {comps : List String} (hcomps : ∀ comp ∈ comps, PathComponent comp) {node : AclTreeNode}
    (h : node.WritableBelow parseAuthid) : (node.modifyAt f comps).WritableBelow parseAuthid := by
  induction comps generalizing node with
  | nil => exact hf node h
  | cons comp comps ih =>
    have hchild : ((node.children.lookup comp).getD new).WritableBelow parseAuthid := by
      cases hc : node.children.lookup comp with
      | none => exact writableBelow_new
      | some child =>
        intro path below hbelow
        exact h (comp :: path) below (by rw [descend_cons, hc]; exact hbelow)
    rintro (_ | ⟨name, path⟩) below hbelow
    · -- the node itself: its maps, and the names of its children with `comp` among them
      rw [descend_nil, Option.some.injEq] at hbelow
      subst hbelow
      have hwritable := h [] node rfl
      refine hwritable.withChildren ?_ fun k hk => ?_
      · rw [keys_modifyChild]
        exact nodup_keys_orDefault hwritable.keys_nodup
      · rw [keys_modifyChild, mem_keys_orDefault] at hk
        rcases hk with rfl | hk
        · exact hcomps _ List.mem_cons_self
        · exact hwritable.pathComponent_of_mem_keys hk
    · rw [descend_cons, lookup_modifyAt_children] at hbelow
      split at hbelow
      · subst name
        exact ih (fun comp hcomp => hcomps comp (List.mem_cons_of_mem _ hcomp)) hchild path below
          hbelow
      · exact h (name :: path) below (by rw [descend_cons]; exact hbelow)

/-- `get_node_mut` and a change that keeps every node below writable keep every node below
writable. -/
theorem writableBelow_modifyExisting {f : AclTreeNode → AclTreeNode}
    (hf : ∀ m, m.WritableBelow parseAuthid → (f m).WritableBelow parseAuthid)
    {comps : List String} {node : AclTreeNode} (h : node.WritableBelow parseAuthid) :
    (node.modifyExisting f comps).WritableBelow parseAuthid := by
  induction comps generalizing node with
  | nil => exact hf node h
  | cons comp comps ih =>
    rintro (_ | ⟨name, path⟩) below hbelow
    · rw [descend_nil, Option.some.injEq] at hbelow
      subst hbelow
      have hwritable := h [] node rfl
      refine hwritable.withChildren ?_ fun k hk => ?_
      · rw [keys_modifyChild]
        exact hwritable.keys_nodup
      · rw [keys_modifyChild] at hk
        exact hwritable.pathComponent_of_mem_keys hk
    · rw [descend_cons, lookup_modifyExisting_children] at hbelow
      split at hbelow
      · subst name
        cases hc : node.children.lookup comp with
        | none => simp [hc] at hbelow
        | some child =>
          rw [hc, Option.map_some, Option.bind_some] at hbelow
          refine ih (fun path below hbelow => h (comp :: path) below ?_) path below hbelow
          rw [descend_cons, hc]
          exact hbelow
      · exact h (name :: path) below (by rw [descend_cons]; exact hbelow)

theorem WritableBelow.removeChild {node : AclTreeNode} (h : node.WritableBelow parseAuthid)
    (name : String) : (node.removeChild name).WritableBelow parseAuthid := by
  rintro (_ | ⟨comp, path⟩) below hbelow
  · rw [descend_nil, Option.some.injEq] at hbelow
    exact hbelow ▸ (h [] node rfl).removeChild name
  · rw [descend_cons, lookup_removeChild_children] at hbelow
    split at hbelow
    · cases hbelow
    · exact h (comp :: path) below (by rw [descend_cons]; exact hbelow)

theorem WritableBelow.deleteAuthid {node : AclTreeNode} (h : node.WritableBelow parseAuthid)
    (authId : Authid) : (node.deleteAuthid authId).WritableBelow parseAuthid := by
  intro path below hbelow
  rw [descend_deleteAuthid, Option.map_eq_some_iff] at hbelow
  obtain ⟨below₀, hbelow₀, rfl⟩ := hbelow
  exact (h path below₀ hbelow₀).deleteAuthid authId

end AclTreeNode

/-! ## The calls -/

/-- A path an inserting call may take: no `:` and no line break, which a line cannot hold. -/
def PathText (path : String) : Prop := ∀ c ∈ path.toList, c ≠ ':' ∧ c ≠ '\n'

instance : DecidablePred PathText := fun path =>
  List.decidableBAll (fun c => c ≠ ':' ∧ c ≠ '\n') path.toList

theorem pathComponent_of_mem_splitAclPath {path comp : String} (hpath : PathText path)
    (h : comp ∈ splitAclPath path) : PathComponent comp := by
  obtain ⟨hne, hslash⟩ := mem_splitAclPath h
  simp only [splitAclPath, splitSlash, List.mem_filter, List.mem_map] at h
  obtain ⟨⟨piece, hpiece, rfl⟩, -⟩ := h
  refine ⟨hne, fun c hc => ⟨fun hc' => hslash (hc' ▸ hc), ?_⟩⟩
  rw [String.toList_ofList] at hc
  exact hpath c (List.mem_of_mem_splitOn hpiece hc)

/-- What an inserting call needs: a path without `:` or line break and, unless the user is
`root@pam`, whose roles are not written, a user, token or group that reads back and a known
role. -/
def InsertValid (parseAuthid : String → Except String Authid) (path : String)
    (holder : UserOrGroup) (role : String) : Prop :=
  PathText path ∧ (holder.isSuperuser = false → holder.Readable parseAuthid ∧ (roleNames role).isSome)

/-- What the writer needs of a call: the deleting calls need nothing. -/
def AclOp.Valid (parseAuthid : String → Except String Authid) : AclOp → Prop
  | .insertUserRole path authId role _ => InsertValid parseAuthid path (.user authId) role
  | .insertGroupRole path group role _ => InsertValid parseAuthid path (.group group) role
  | .deleteUserRole .. | .deleteGroupRole .. | .deleteNode _ | .deleteAuthid _ => True

namespace AclTree

open AclTreeNode

theorem writable_new : AclTree.new.Writable parseAuthid := writableBelow_new

theorem writable_insertFor {tree : AclTree} (htree : tree.Writable parseAuthid) {path : String}
    {holder : UserOrGroup} {role : String} (hvalid : InsertValid parseAuthid path holder role)
    (p : Bool) :
    (tree.modifyNode (splitAclPath path) (·.insertFor holder role p)).Writable parseAuthid := by
  refine writableBelow_modifyAt (fun m hm => hm.of_children_eq (children_insertFor ..)
    ((hm [] m rfl).insertFor hvalid.2 p)) ?_ htree
  rw [subComponents_splitAclPath]
  exact fun comp hcomp => pathComponent_of_mem_splitAclPath hvalid.1 hcomp

/-- Each call keeps a tree writable when what it inserts meets the writer's needs. -/
theorem writable_apply {tree : AclTree} (htree : tree.Writable parseAuthid) {op : AclOp}
    (hop : op.Valid parseAuthid) : (op.apply tree).Writable parseAuthid := by
  cases op with
  | insertUserRole path authId role p => exact writable_insertFor htree hop p
  | insertGroupRole path group role p => exact writable_insertFor htree hop p
  | deleteUserRole path authId role =>
    refine writableBelow_modifyExisting (fun m hm => hm.of_children_eq
      (children_deleteUserRole ..) ((hm [] m rfl).of_erase (children_deleteUserRole ..) role
        fun holder => ?_)) htree
    rw [roleMapOf_deleteUserRole]
    split
    · exact .inr rfl
    · exact .inl rfl
  | deleteGroupRole path group role =>
    refine writableBelow_modifyExisting (fun m hm => hm.of_children_eq
      (children_deleteGroupRole ..) ((hm [] m rfl).of_erase (children_deleteGroupRole ..) role
        fun holder => ?_)) htree
    rw [roleMapOf_deleteGroupRole]
    split
    · exact .inr rfl
    · exact .inl rfl
  | deleteNode path =>
    change (tree.deleteNode path).Writable parseAuthid
    unfold deleteNode
    dsimp only
    split
    · exact writableBelow_modifyExisting (fun m hm => hm.removeChild _) htree
    · exact htree
  | deleteAuthid authId => exact htree.deleteAuthid authId

/-- Every tree that valid calls build from `AclTree::new` is writable. -/
theorem writable_build {ops : List AclOp} (hops : ∀ op ∈ ops, op.Valid parseAuthid) :
    (build ops).Writable parseAuthid :=
  List.foldl_invariant (fun tree : AclTree => tree.Writable parseAuthid)
    (fun _ op hop htree => writable_apply htree (hops op hop)) writable_new

end AclTree

/-- An auth id parser for the examples: `name@realm!token` is a token, anything else a user. -/
def splitParseAuthid (text : String) : Except String Authid :=
  match text.toList.splitOn '!' with
  | [user, token] => .ok ⟨String.ofList user, some (String.ofList token)⟩
  | _ => .ok ⟨text, none⟩

/-- Calls for the examples: a user's propagated role on `/datastore/store1`, a group's role on
the root, and `NoAccess` for `root@pam` on the root. -/
def sampleAclOps : List AclOp :=
  [.insertUserRole "/datastore/store1" ⟨"user@pbs", none⟩ "CloudUser" true,
    .insertGroupRole "/" "admins" "Admin" false,
    .insertUserRole "/" ⟨"root@pam", none⟩ "NoAccess" false]

theorem sampleAclOps_valid : ∀ op ∈ sampleAclOps, op.Valid splitParseAuthid := by
  simp only [sampleAclOps, List.mem_cons, List.not_mem_nil, or_false, forall_eq_or_imp, forall_eq]
  refine ⟨⟨by simp [PathText], fun _ =>
      ⟨⟨by simp [ListName, Authid.toString]; decide, by simp [Authid.toString], rfl⟩, by decide⟩⟩,
    ⟨by simp [PathText], fun _ => ⟨show ListName "admins" by simp [ListName]; decide, by decide⟩⟩,
    ⟨by simp [PathText], fun h => absurd h (by decide)⟩⟩

theorem writable_build_sampleAclOps :
    (∀ op ∈ sampleAclOps, op.Valid splitParseAuthid) ∧
      (AclTree.build sampleAclOps).Writable splitParseAuthid :=
  ⟨sampleAclOps_valid, AclTree.writable_build sampleAclOps_valid⟩

end ProxmoxBackup.Acl
