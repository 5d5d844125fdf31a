import ProxmoxBackup.Config.Acl

/-!
# Privilege lookup (`pbs-config/src/cached_user_info.rs`)

`lookup_privs` turns the roles `AclTree::roles` resolves into privilege bits through
`ROLE_NAMES`, limiting a token to its user's privileges. `any_privs_below` is documented to
check whether an auth id has one of some privileges on any object below a path
(`HasPrivsBelow`). It first tests the privileges the anchor propagates, then looks up each path
below where the auth id has roles of its own. Both shortcuts miss privileges:
`anyPrivsBelow_misses_inherited_privs` is an anchor whose own non-propagating role hides a
role inherited from above, which still reaches every path below the anchor.
-/

namespace ProxmoxBackup.Acl

/-! ## Privileges and roles (`pbs-api-types/src/acl.rs`) -/

/-- The privileges of `PRIVILEGES`, one bit each in the order `constnamedbitmap!` lists them. -/
def privCloudAudit : UInt64 := (1 : UInt64) <<< 0
def privCloudModify : UInt64 := (1 : UInt64) <<< 1
def privCloudBackup : UInt64 := (1 : UInt64) <<< 2
def privCloudRestore : UInt64 := (1 : UInt64) <<< 3
def privCloudDelete : UInt64 := (1 : UInt64) <<< 4

/-- `ROLE_ADMIN`: every privilege (`u64::MAX`). -/
def roleAdmin : UInt64 := 0xFFFFFFFFFFFFFFFF
def roleNoAccess : UInt64 := 0
def roleCloudAudit : UInt64 := privCloudAudit
def roleCloudAdmin : UInt64 :=
  privCloudAudit ||| privCloudModify ||| privCloudBackup ||| privCloudRestore ||| privCloudDelete
def roleCloudUser : UInt64 := privCloudBackup ||| privCloudRestore

/-- `ROLE_NAMES`: the privileges of each variant of `Role`, by its name. -/
def roleNames : String → Option UInt64
  | "Admin" => some roleAdmin
  | "NoAccess" => some roleNoAccess
  | "CloudAudit" => some roleCloudAudit
  | "CloudAdmin" => some roleCloudAdmin
  | "CloudUser" => some roleCloudUser
  | _ => none

/-! ## `CachedUserInfo` -/

/-- `CachedUserInfo`, of which privilege lookups read only the ACL tree. -/
structure CachedUserInfo where
  aclTree : AclTree

namespace CachedUserInfo

/-- `CachedUserInfo::is_superuser`. -/
def isSuperuser (_info : CachedUserInfo) (authId : Authid) : Bool :=
  !authId.isToken && decide (authId.user = "root@pam")

/-- The loop of `lookup_privs_details` over a role map: every role `ROLE_NAMES` knows adds its
privileges, a propagating one to the propagated privileges too. -/
def rolePrivs (roles : RoleMap) : UInt64 × UInt64 :=
  roles.entries.foldl (fun acc entry =>
    match roleNames entry.1 with
    | some privs => (acc.1 ||| privs, if entry.2 then acc.2 ||| privs else acc.2)
    | none => acc) (0, 0)

/-- `lookup_privs_details` up to its token case: the superuser has `ROLE_ADMIN`, anyone else
what its roles on the path grant. -/
def privsDetails (info : CachedUserInfo) (authId : Authid) (path : List String) :
    UInt64 × UInt64 :=
  if info.isSuperuser authId then (roleAdmin, roleAdmin)
  else rolePrivs (info.aclTree.roles authId path)

/-- `lookup_privs_details`: the privileges on a path and those it propagates, a token's limited
to its user's. The source's recursive call is on the user, which is no token, so it ends in
`privsDetails`. -/
def lookupPrivsDetails (info : CachedUserInfo) (authId : Authid) (path : List String) :
    UInt64 × UInt64 :=
  let details := info.privsDetails authId path
  if authId.isToken then
    let owner := info.privsDetails (Authid.ofUser authId.user) path
    (details.1 &&& owner.1, details.2 &&& owner.2)
  else details

/-- `lookup_privs`. -/
def lookupPrivs (info : CachedUserInfo) (authId : Authid) (path : List String) : UInt64 :=
  (info.lookupPrivsDetails authId path).1

/-- `any_privs_below`: the anchor's propagated privileges, else the paths below where the auth
id has roles, each looked up as one path element. -/
def anyPrivsBelow (info : CachedUserInfo) (authId : Authid) (path : List String)
    (privs : UInt64) : Bool :=
  if (info.lookupPrivsDetails authId path).2 &&& privs ≠ 0 then true
  else (info.aclTree.getChildPaths authId path).any fun p => privs &&& info.lookupPrivs authId [p] ≠ 0

/-- What `any_privs_below` is documented to check: the auth id has one of `privs` on the path or
on some path below it, whether or not the tree has a node there. -/
def HasPrivsBelow (info : CachedUserInfo) (authId : Authid) (path : List String)
    (privs : UInt64) : Prop :=
  ∃ rest : List String, info.lookupPrivs authId (path ++ rest) &&& privs ≠ 0

end CachedUserInfo

/-! ## An inherited privilege the shortcut misses -/

/-- User `user@pbs` has `CloudAudit` on `/datastore`, propagated, and `CloudUser` on
`/datastore/store1`, not propagated. -/
def inheritedAuditInfo : CachedUserInfo :=
  let user : Authid := ⟨"user@pbs", none⟩
  let roleMap (role : String) (propagate : Bool) : AList (fun _ : Authid => RoleMap) :=
    (∅ : AList _).insert user ((∅ : RoleMap).insert role propagate)
  ⟨⟨.mk ∅ ∅ [("datastore", .mk (roleMap "CloudAudit" true) ∅
    [("store1", .mk (roleMap "CloudUser" false) ∅ [])])]⟩⟩

/-- On `/datastore/store1/ns1` the user has `Cloud.Audit`, inherited from `/datastore` through
`/datastore/store1`, whose role does not propagate. `any_privs_below` on `/datastore/store1`
still answers false: the anchor's own role map propagates nothing, and no node below gives the
user roles. -/
theorem anyPrivsBelow_misses_inherited_privs :
    inheritedAuditInfo.lookupPrivs ⟨"user@pbs", none⟩ (["datastore", "store1"] ++ ["ns1"]) &&&
      privCloudAudit ≠ 0 ∧
    inheritedAuditInfo.anyPrivsBelow ⟨"user@pbs", none⟩ ["datastore", "store1"] privCloudAudit =
      false := by
  constructor <;> decide +kernel

end ProxmoxBackup.Acl
