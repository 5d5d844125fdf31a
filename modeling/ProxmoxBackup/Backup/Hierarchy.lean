import ProxmoxBackup.Config.CachedUserInfo

/-!
# Listing the accessible backup groups (`src/backup/hierarchy.rs`)

`ListAccessibleBackupGroups` filters the groups of every namespace `ListNamespacesRecursive`
visits: a namespace where the auth id has none of the datastore privileges is skipped, one where
it has an owner-override privilege shows every group, and in any other namespace that grants the
extra privileges it shows the groups the auth id owns (`check_backup_owner`: it is the owner, or
the owner is a token of it). Its `next` interleaves the namespace iterator and the group
iterator of the current namespace through `state`, which carries the override flag.

`next_items` says that one call of `next` returns the first item of `items`, the stream of the
iterator, and a state whose stream is the rest; so calling `next` until it returns `None`
(`drain`) returns the whole stream (`drain_of_length_lt`).
`listAccessibleBackupGroups_yields_accessible` says that the groups of that stream are exactly,
and in order, those of the visited namespaces that pass the check stated in the terms of the
documentation (`accessible`).
-/

namespace ProxmoxBackup.Hierarchy

open Acl

/-- The datastore privileges of `pbs_api_types`; their bits are not part of this source tree,
so they are parameters of the model. -/
structure DatastorePrivs where
  modify : UInt64
  read : UInt64
  backup : UInt64
  audit : UInt64

/-- `NS_PRIVS_OK`. -/
def DatastorePrivs.nsPrivsOk (p : DatastorePrivs) : UInt64 :=
  p.modify ||| p.read ||| p.backup ||| p.audit

/-- `BackupNamespace`: its components below the datastore root. -/
structure BackupNamespace where
  inner : List String
  deriving DecidableEq

/-- `BackupNamespace::acl_path`. -/
def BackupNamespace.aclPath (ns : BackupNamespace) (store : String) : List String :=
  ["datastore", store] ++ ns.inner

/-- `check_backup_owner` (`pbs-datastore/src/datastore.rs`). -/
def checkBackupOwner (owner authId : Authid) : Except String Unit :=
  let correctOwner := decide (owner = authId) || (owner.isToken && decide (Authid.ofUser owner.user = authId))
  if !correctOwner then .error s!"backup owner check failed ({authId} != {owner})" else .ok ()

/-- What the iterator reads of a datastore: its name, the items `ListGroups` yields for a
namespace (or why it cannot be opened), and `get_owner`, which reads and parses a group's owner
file. -/
structure GroupStore (Group : Type) where
  name : String
  listGroups : BackupNamespace → Except String (List (Except String Group))
  getOwner : BackupNamespace → Group → Except String Authid

/-- `DataStore::owns_backup`. -/
def GroupStore.ownsBackup {Group : Type} (store : GroupStore Group) (ns : BackupNamespace)
    (group : Group) (authId : Authid) : Except String Bool := do
  let owner ← store.getOwner ns group
  pure (checkBackupOwner owner authId).toBool

/-- The fields of `ListAccessibleBackupGroups` that `next` only reads. -/
structure Config (Group : Type) where
  store : GroupStore Group
  authId : Option Authid
  userInfo : CachedUserInfo
  overrideOwnerPriv : UInt64
  ownerAndPriv : UInt64

/-- `ListAccessibleBackupGroups`: the configuration, the group iterator of the current namespace
(its namespace, the items it has left, and the override flag), and the items
`ListNamespacesRecursive` has left. -/
structure ListAccessibleBackupGroups (Group : Type) where
  config : Config Group
  state : Option (BackupNamespace × List (Except String Group) × Bool)
  nsIter : List (Except String BackupNamespace)

variable {Group : Type} (dp : DatastorePrivs)

namespace ListAccessibleBackupGroups

/-- `new_with_privs`, over the items of `ListNamespacesRecursive`: a missing privilege is 0. -/
def newWithPrivs (store : GroupStore Group) (nsIter : List (Except String BackupNamespace))
    (overrideOwnerPriv ownerAndPriv : Option UInt64) (authId : Option Authid)
    (userInfo : CachedUserInfo) : ListAccessibleBackupGroups Group :=
  ⟨⟨store, authId, userInfo, overrideOwnerPriv.getD 0, ownerAndPriv.getD 0⟩, none, nsIter⟩

/-- The privilege check of `next` on a namespace: `none` if it is skipped, else whether the
owner check is overridden there. -/
def nsAccess (cfg : Config Group) (ns : BackupNamespace) : Option Bool :=
  match cfg.authId with
  | none => some false
  | some authId =>
    let privs := cfg.userInfo.lookupPrivs authId (ns.aclPath cfg.store.name)
    if privs &&& dp.nsPrivsOk = 0 then none
    -- check first if *any* override owner priv is available up front
    else if privs &&& cfg.overrideOwnerPriv ≠ 0 then some true
    else if privs &&& cfg.ownerAndPriv ≠ cfg.ownerAndPriv then none
    else some false

/-- The part of `next`'s loop that drains the current namespace's groups: a group is returned if
the owner check is overridden, there is no auth id, or the auth id owns it; an error of the
listing or the owner check is returned as it is. When the groups run out, the loop goes on with
the namespaces (`exhausted`). -/
def nextGroup (cfg : Config Group) (ns : BackupNamespace) (override : Bool)
    (nsIter : List (Except String BackupNamespace))
    (exhausted : Option (Except String Group × ListAccessibleBackupGroups Group)) :
    List (Except String Group) → Option (Except String Group × ListAccessibleBackupGroups Group)
  | [] => exhausted
  | .error err :: groups => some (.error err, ⟨cfg, some (ns, groups, override), nsIter⟩)
  | .ok group :: groups =>
    let it : ListAccessibleBackupGroups Group := ⟨cfg, some (ns, groups, override), nsIter⟩
    if override then some (.ok group, it)
    else match cfg.authId with
      | some authId =>
        match cfg.store.ownsBackup ns group authId with
        | .ok true => some (.ok group, it)
        | .ok false => nextGroup cfg ns override nsIter exhausted groups
        | .error err => some (.error err, it)
      | none => some (.ok group, it)

/-- The part of `next`'s loop that takes the next namespace (`self.state` is `None`). -/
def nextNs (cfg : Config Group) :
    List (Except String BackupNamespace) →
      Option (Except String Group × ListAccessibleBackupGroups Group)
  | [] => none -- exhausted with all NS -> done
  | .error err :: nsIter => some (.error err, ⟨cfg, none, nsIter⟩)
  | .ok ns :: nsIter =>
    match nsAccess dp cfg ns with
    | none => nextNs cfg nsIter
    | some override =>
      match cfg.store.listGroups ns with
      | .ok groups => nextGroup cfg ns override nsIter (nextNs cfg nsIter) groups
      | .error err => some (.error err, ⟨cfg, none, nsIter⟩)

/-- `Iterator::next`. -/
def next (it : ListAccessibleBackupGroups Group) :
    Option (Except String Group × ListAccessibleBackupGroups Group) :=
  match it.state with
  | some (ns, groups, override) =>
    nextGroup it.config ns override it.nsIter (nextNs dp it.config it.nsIter) groups
  | none => nextNs dp it.config it.nsIter

/-! ## The stream of the iterator -/

/-- What the iterator yields from the current namespace's groups. -/
def groupItems (cfg : Config Group) (ns : BackupNamespace) (override : Bool) :
    List (Except String Group) → List (Except String Group)
  | [] => []
  | .error err :: groups => .error err :: groupItems cfg ns override groups
  | .ok group :: groups =>
    if override then .ok group :: groupItems cfg ns override groups
    else match cfg.authId with
      | some authId =>
        match cfg.store.ownsBackup ns group authId with
        | .ok true => .ok group :: groupItems cfg ns override groups
        | .ok false => groupItems cfg ns override groups
        | .error err => .error err :: groupItems cfg ns override groups
      | none => .ok group :: groupItems cfg ns override groups

/-- What the iterator yields from the namespaces left. -/
def nsItems (cfg : Config Group) : List (Except String BackupNamespace) → List (Except String Group)
  | [] => []
  | .error err :: nsIter => .error err :: nsItems cfg nsIter
  | .ok ns :: nsIter =>
    match nsAccess dp cfg ns with
    | none => nsItems cfg nsIter
    | some override =>
      match cfg.store.listGroups ns with
      | .ok groups => groupItems cfg ns override groups ++ nsItems cfg nsIter
      | .error err => .error err :: nsItems cfg nsIter

/-- Everything the iterator yields from its state on. -/
def items (it : ListAccessibleBackupGroups Group) : List (Except String Group) :=
  match it.state with
  | some (ns, groups, override) =>
    groupItems it.config ns override groups ++ nsItems dp it.config it.nsIter
  | none => nsItems dp it.config it.nsIter

/-- A result of `next` against the stream it should start: `None` for an empty stream, else
the stream's first item and a state that yields the rest. -/
def Yields (r : Option (Except String Group × ListAccessibleBackupGroups Group))
    (stream : List (Except String Group)) : Prop :=
  match r with
  | none => stream = []
  | some (item, it) => stream = item :: items dp it

theorem nextGroup_yields (cfg : Config Group) (ns : BackupNamespace) (override : Bool)
    (nsIter : List (Except String BackupNamespace))
    {exhausted : Option (Except String Group × ListAccessibleBackupGroups Group)}
    (hex : Yields dp exhausted (nsItems dp cfg nsIter)) (groups : List (Except String Group)) :
    Yields dp (nextGroup cfg ns override nsIter exhausted groups)
      (groupItems cfg ns override groups ++ nsItems dp cfg nsIter) := by
  induction groups with
  | nil => exact hex
  | cons item groups ih =>
    cases item with
    | error err => rfl
    | ok group =>
      unfold nextGroup groupItems
      cases override with
      | true => rfl
      | false =>
        simp only [Bool.false_eq_true, if_false]
        cases cfg.authId with
        | none => rfl
        | some authId =>
          dsimp only
          -- the owner check decides: yield, skip to the next group, or yield its error
          cases cfg.store.ownsBackup ns group authId with
          | error err => rfl
          | ok owned =>
            cases owned
            · exact ih
            · rfl

theorem nextNs_yields (cfg : Config Group) (nsIter : List (Except String BackupNamespace)) :
    Yields dp (nextNs dp cfg nsIter) (nsItems dp cfg nsIter) := by
  induction nsIter with
  | nil => rfl
  | cons item nsIter ih =>
    cases item with
    | error err => rfl
    | ok ns =>
      unfold nextNs nsItems
      rcases nsAccess dp cfg ns with _ | override
      · exact ih
      · rcases cfg.store.listGroups ns with err | groups
        · rfl
        · exact nextGroup_yields dp cfg ns override nsIter ih groups

/-- `next` yields the stream of the iterator item by item: it returns `None` exactly when the
stream is empty, and otherwise the stream's first item and a state whose stream is the rest. -/
theorem next_items (it : ListAccessibleBackupGroups Group) : Yields dp (next dp it) (items dp it) := by
  unfold next items
  rcases it with ⟨cfg, _ | ⟨ns, groups, override⟩, nsIter⟩
  · exact nextNs_yields dp cfg nsIter
  · exact nextGroup_yields dp cfg ns override nsIter (nextNs_yields dp cfg nsIter) groups

/-- `Iterator::collect`: `next` called until it returns `None`, with at most `fuel` calls; `none`
when the fuel runs out first. -/
def drain : Nat → ListAccessibleBackupGroups Group → Option (List (Except String Group))
  | 0, _ => none
  | fuel + 1, it =>
    match next dp it with
    | none => some []
    | some (item, it) => (drain fuel it).map (item :: ·)

/-- Called more often than the stream has items, `next` returns the whole stream and then
`None`: the stream's length bounds the calls. -/
theorem drain_of_length_lt {fuel : Nat} {it : ListAccessibleBackupGroups Group}
    (hfuel : (items dp it).length < fuel) : drain dp fuel it = some (items dp it) := by
  induction fuel generalizing it with
  | zero => omega
  | succ fuel ih =>
    have hnext := next_items dp it
    unfold drain
    rcases hr : next dp it with _ | ⟨item, it'⟩
    · -- `None` only at the end of the stream
      rw [hr] at hnext
      exact congrArg some hnext.symm
    · -- the first item, and the rest from the state `next` returns
      rw [hr] at hnext
      have hrest : (items dp it').length < fuel := by
        have : (item :: items dp it').length < fuel + 1 := hnext ▸ hfuel
        simpa using this
      change (drain dp fuel it').map (item :: ·) = some (items dp it)
      rw [ih hrest, hnext]
      rfl


end ListAccessibleBackupGroups

/-! ## Which groups the iterator yields -/

/-- The groups of a namespace: those `ListGroups` lists without error, none if the namespace
cannot be opened. -/
def groupsOf (store : GroupStore Group) (ns : BackupNamespace) : List Group :=
  match store.listGroups ns with
  | .ok groups => groups.filterMap Except.toOption
  | .error _ => []

/-- The check as the documentation states it: with no auth id every group is visible; with one,
the namespace must grant one of the datastore privileges, and then an owner-override privilege
shows the group, or all the extra privileges together with ownership: the auth id is the owner,
or the owner is a token of the auth id. -/
def accessible (cfg : Config Group) (ns : BackupNamespace) (group : Group) : Bool :=
  match cfg.authId with
  | none => true
  | some authId =>
    let privs := cfg.userInfo.lookupPrivs authId (ns.aclPath cfg.store.name)
    privs &&& dp.nsPrivsOk ≠ 0 &&
      (privs &&& cfg.overrideOwnerPriv ≠ 0 ||
        privs &&& cfg.ownerAndPriv = cfg.ownerAndPriv &&
          match cfg.store.getOwner ns group with
          | .ok owner => owner = authId || (owner.isToken && authId = Authid.ofUser owner.user)
          | .error _ => false)

/-- Whether the owner check of `next` lets a group through. -/
def owned (cfg : Config Group) (ns : BackupNamespace) (group : Group) : Bool :=
  match cfg.authId with
  | none => true
  | some authId =>
    match cfg.store.ownsBackup ns group authId with
    | .ok isOwner => isOwner
    | .error _ => false

theorem checkBackupOwner_toBool (owner authId : Authid) :
    (checkBackupOwner owner authId).toBool =
      (decide (owner = authId) || (owner.isToken && decide (authId = Authid.ofUser owner.user))) := by
  have hsymm : decide (Authid.ofUser owner.user = authId) = decide (authId = Authid.ofUser owner.user) :=
    decide_eq_decide.mpr eq_comm
  unfold checkBackupOwner
  rw [hsymm]
  cases decide (owner = authId) || (owner.isToken && decide (authId = Authid.ofUser owner.user)) <;> rfl

/-- The documented check is the iterator's: the namespace check of `next`, then the owner check
unless it is overridden. -/
theorem accessible_eq (cfg : Config Group) (ns : BackupNamespace) (group : Group) :
    accessible dp cfg ns group =
      match ListAccessibleBackupGroups.nsAccess dp cfg ns with
      | none => false
      | some override => override || owned cfg ns group := by
  unfold accessible ListAccessibleBackupGroups.nsAccess owned
  cases cfg.authId with
  | none => rfl
  | some authId =>
    dsimp only
    by_cases hok : cfg.userInfo.lookupPrivs authId (ns.aclPath cfg.store.name) &&& dp.nsPrivsOk = 0
    · simp [hok]
    · by_cases hover : cfg.userInfo.lookupPrivs authId (ns.aclPath cfg.store.name) &&&
          cfg.overrideOwnerPriv ≠ 0
      · simp [hok, hover]
      · by_cases hand : cfg.userInfo.lookupPrivs authId (ns.aclPath cfg.store.name) &&&
            cfg.ownerAndPriv = cfg.ownerAndPriv
        · -- the owner decides
          simp only [hok, hover, hand, ne_eq, not_false_eq_true, not_true_eq_false, decide_true,
            decide_false, Bool.true_and, Bool.false_or, if_false, GroupStore.ownsBackup]
          cases cfg.store.getOwner ns group with
          | error err => rfl
          | ok owner => exact (checkBackupOwner_toBool owner authId).symm
        · simp [hok, hover, hand]

namespace ListAccessibleBackupGroups

@[simp] theorem filterMap_toOption_error (err : String) (items : List (Except String Group)) :
    (.error err :: items).filterMap Except.toOption = items.filterMap Except.toOption := rfl

@[simp] theorem filterMap_toOption_ok (group : Group) (items : List (Except String Group)) :
    (.ok group :: items).filterMap Except.toOption = group :: items.filterMap Except.toOption := rfl

/-- A group listed without error is yielded iff the owner check is overridden or passes; an
error of the owner check is yielded in its place. -/
theorem groupItems_cons_filterMap (cfg : Config Group) (ns : BackupNamespace) (override : Bool)
    (group : Group) (groups : List (Except String Group)) :
    (groupItems cfg ns override (.ok group :: groups)).filterMap Except.toOption =
      (if override || owned cfg ns group then [group] else []) ++
        (groupItems cfg ns override groups).filterMap Except.toOption := by
  obtain ⟨store, authId, userInfo, overrideOwnerPriv, ownerAndPriv⟩ := cfg
  simp only [groupItems, owned]
  cases override with
  | true => rfl
  | false =>
    cases authId with
    | none => rfl
    | some authId =>
      simp only [Bool.false_eq_true, if_false, Bool.false_or]
      -- the two matches on the owner check agree branch by branch
      split <;> rename_i howns <;> simp [howns]

theorem groupItems_filterMap (cfg : Config Group) (ns : BackupNamespace) (override : Bool)
    (groups : List (Except String Group)) :
    (groupItems cfg ns override groups).filterMap Except.toOption =
      (groups.filterMap Except.toOption).filter fun group => override || owned cfg ns group := by
  induction groups with
  | nil => rfl
  | cons item groups ih =>
    cases item with
    | error err => simpa only [groupItems, filterMap_toOption_error] using ih
    | ok group =>
      rw [groupItems_cons_filterMap, ih, filterMap_toOption_ok, List.filter_cons]
      split <;> rfl

theorem nsItems_filterMap (cfg : Config Group) (nsIter : List (Except String BackupNamespace)) :
    (nsItems dp cfg nsIter).filterMap Except.toOption =
      nsIter.flatMap fun
        | .ok ns => (groupsOf cfg.store ns).filter (accessible dp cfg ns)
        | .error _ => [] := by
  induction nsIter with
  | nil => rfl
  | cons item nsIter ih =>
    cases item with
    | error err => simpa only [nsItems, filterMap_toOption_error, List.flatMap_cons,
        List.nil_append] using ih
    | ok ns =>
      have hacc := funext (accessible_eq dp cfg ns)
      simp only [nsItems, List.flatMap_cons, hacc]
      -- a skipped namespace shows nothing; otherwise its groups pass the owner check
      cases nsAccess dp cfg ns with
      | none => simpa using ih
      | some override =>
        cases hl : cfg.store.listGroups ns with
        | error err =>
          have hg : groupsOf cfg.store ns = [] := by simp [groupsOf, hl]
          simpa [hg] using ih
        | ok groups =>
          have hg : groupsOf cfg.store ns = groups.filterMap Except.toOption := by
            simp [groupsOf, hl]
          rw [hg, List.filterMap_append, groupItems_filterMap, ih]

end ListAccessibleBackupGroups

open ListAccessibleBackupGroups in
/-- Called until it returns `None`, the iterator built by `new_with_privs` returns a stream
whose groups are exactly, in order, the groups of the namespaces `ListNamespacesRecursive`
visits that pass the documented check; with no auth id that is every group of every visited
namespace. -/
theorem listAccessibleBackupGroups_yields_accessible (store : GroupStore Group)
    (nsIter : List (Except String BackupNamespace)) (overrideOwnerPriv ownerAndPriv : Option UInt64)
    (authId : Option Authid) (userInfo : CachedUserInfo) :
    let it := newWithPrivs store nsIter overrideOwnerPriv ownerAndPriv authId userInfo
    ∃ stream, (∀ fuel, stream.length < fuel → drain dp fuel it = some stream) ∧
      stream.filterMap Except.toOption =
        nsIter.flatMap fun
          | .ok ns => (groupsOf store ns).filter (accessible dp it.config ns)
          | .error _ => [] :=
  ⟨_, fun _ hfuel => drain_of_length_lt dp hfuel, nsItems_filterMap dp _ nsIter⟩

end ProxmoxBackup.Hierarchy
