import ProxmoxBackup.Foundations.Checked
import ProxmoxBackup.Client.KeyConfig

/-!
# Media pools (`src/tape/media_pool.rs`, `src/tape/inventory.rs`)

A media pool writes to one media set at a time. When the last media of the current set cannot
take more data, `alloc_writable_media` picks the next one, in this order: an empty media of the
pool, then a media of another set of the pool whose data has expired, then a media not assigned
to any pool. `guess_next_writable_media` makes the same choice without allocating. A media's data
expires at `media_expire_time`: the set's max use time (the start of the next set, or the set's
own start, by the allocation policy) plus the retention span.

The inventory is the list of its entries in the order of the map's keys. `proxmox_time` is not
part of the repository: `CalendarEvent::compute_next_event` and the conversion
`f64::from(time_span) as i64` are the fields of `ProxmoxTime`. Whether `lock_media_set` with a
zero timeout succeeds depends on other processes and is an argument.

* `guessNextWritableMedia_ok`: a media that `guess_next_writable_media` returns is the writable
  last media of the current set, or a writable media without a media set, or a full media of
  another set of the pool whose `media_expire_time` is at most the current time.
* `allocWritableMedia_eq_ok_iff`: `alloc_writable_media` returns the UUID of that media.
* `le_mediaExpireTime_of_inRange`, `mediaExpireTime_lt_of_overflow`: the expire time of a
  `ProtectFor` span is at least the max use time as long as their sum is a value of `i64`; past
  `i64::MAX` the addition wraps and the expire time lies before the max use time.
* `guessNextWritableMedia_reuses_protected_media`: with a retention span of `i64::MAX` seconds
  (which `as i64` makes of every longer span), the media of an older set counts as expired and is
  chosen for overwriting.
-/

namespace ProxmoxBackup.Tape

/-! ## Media and their labels -/

/-- `Uuid`: sixteen bytes. -/
structure Uuid where
  bytes : Vector UInt8 16
  deriving DecidableEq

/-- `Display for Uuid`: the bytes in hex, in groups of 4, 2, 2, 2 and 6 bytes. -/
instance : ToString Uuid where
  toString u :=
    let hex (i j : Nat) := Backup.hexEncode ((u.bytes.toList.drop i).take (j - i))
    "-".intercalate [hex 0 4, hex 4 6, hex 6 8, hex 8 10, hex 10 16]

/-- `MediaStatus`. -/
inductive MediaStatus
  | writable
  | full
  | unknown
  | damaged
  | retired
  deriving DecidableEq

/-- `{:?}` of a status. -/
def MediaStatus.debug : MediaStatus → String
  | .writable => "Writable"
  | .full => "Full"
  | .unknown => "Unknown"
  | .damaged => "Damaged"
  | .retired => "Retired"

/-- `MediaLocation`, with the three cases `location_is_available` tells apart. -/
inductive MediaLocation
  | online (changer : String)
  | offline
  | vault (vault : String)
  deriving DecidableEq

/-- `MediaLabel`. -/
structure MediaLabel where
  uuid : Uuid
  labelText : String
  ctime : Int64
  pool : Option String
  deriving DecidableEq

/-- `MediaSetLabel`. -/
structure MediaSetLabel where
  pool : String
  uuid : Uuid
  seqNr : Nat
  ctime : Int64
  encryptionKeyFingerprint : Option Fingerprint
  deriving DecidableEq

/-- `MediaSetLabel::unassigned`: the all-zero UUID reserves an empty media for a pool. -/
def MediaSetLabel.unassigned (set : MediaSetLabel) : Bool :=
  decide (set.uuid.bytes = Vector.replicate 16 0)

/-- `MediaId`. -/
structure MediaId where
  label : MediaLabel
  mediaSetLabel : Option MediaSetLabel
  deriving DecidableEq

/-- `MediaId::pool`: the pool of the media set, else the one the media is reserved for. -/
def MediaId.pool (id : MediaId) : Option String :=
  match id.mediaSetLabel with
  | some set => some set.pool
  | none => id.label.pool

/-- `MediaStateEntry`: an inventory entry. -/
structure MediaStateEntry where
  id : MediaId
  location : Option MediaLocation
  status : Option MediaStatus

/-- `BackupMedia`: a media with the status and location the pool computes for it. -/
structure BackupMedia where
  id : MediaId
  location : MediaLocation
  status : MediaStatus
  deriving DecidableEq

/-! ## The inventory -/

/-- `Inventory`: the entries of its map, in the order of their keys (the media UUIDs). The
helper `media_set_start_times` is recomputed from the map on every change, so it is a function
of it (`mediaSetStartTime`). -/
structure Inventory where
  map : List MediaStateEntry

/-- `proxmox_time`, as the inventory uses it. -/
structure ProxmoxTime (E S : Type) where
  /-- `CalendarEvent::compute_next_event`. -/
  computeNextEvent : E → Int64 → Except String (Option Int64)
  /-- `f64::from(time_span) as i64`: the span in seconds, saturated to the range of `i64`. -/
  spanSeconds : S → Int64

/-- `MediaSetPolicy`. -/
inductive MediaSetPolicy (E : Type)
  | continueCurrent
  | alwaysCreate
  | createAt (event : E)

/-- `RetentionPolicy`. -/
inductive RetentionPolicy (S : Type)
  | overwriteAlways
  | protectFor (timeSpan : S)
  | keepForever

namespace Inventory

variable {E S : Type} (time : ProxmoxTime E S)

/-- `Inventory::lookup_media`. -/
def lookupMedia (inv : Inventory) (uuid : Uuid) : Option MediaId :=
  (inv.map.find? fun entry => entry.id.label.uuid = uuid).map (·.id)

/-- `Inventory::status_and_location`: unknown and offline when nothing is stored. -/
def statusAndLocation (inv : Inventory) (uuid : Uuid) : MediaStatus × MediaLocation :=
  match inv.map.find? fun entry => entry.id.label.uuid = uuid with
  | none => (.unknown, .offline)
  | some entry => (entry.status.getD .unknown, entry.location.getD .offline)

/-- `Inventory::list_pool_media`: the media of a pool; a media reserved by an unassigned set
label is listed without it. -/
def listPoolMedia (inv : Inventory) (pool : String) : List MediaId :=
  inv.map.filterMap fun entry =>
    if entry.id.pool = some pool then
      match entry.id.mediaSetLabel with
      | some set => if set.unassigned then some ⟨entry.id.label, none⟩ else some entry.id
      | none => some entry.id
    else none

/-- `Inventory::list_unassigned_media`: the media of no pool. -/
def listUnassignedMedia (inv : Inventory) : List MediaId :=
  inv.map.filterMap fun entry => if entry.id.pool = none then some entry.id else none

/-- The media set labels of the entries, in the map's order. -/
def setLabels (inv : Inventory) : List MediaSetLabel :=
  inv.map.filterMap (·.id.mediaSetLabel)

/-- `Inventory::media_set_start_time`: `update_helpers` records the `ctime` of every label with
sequence number 0, the last one of a set overwriting the others. -/
def mediaSetStartTime (inv : Inventory) (uuid : Uuid) : Option Int64 :=
  ((inv.setLabels.filter fun set => set.seqNr = 0 ∧ set.uuid = uuid).getLast?).map (·.ctime)

/-- `Inventory::media_set_next_start_time`: the least `ctime` above this set's of the other sets
of its pool, the set's pool and `ctime` read from its first label. -/
def mediaSetNextStartTime (inv : Inventory) (uuid : Uuid) : Option Int64 := do
  let set ← inv.setLabels.find? (·.uuid = uuid)
  let (pool, ctime) := (set.pool, set.ctime)
  let setList := inv.setLabels.filter fun other => other.uuid ≠ uuid ∧ other.pool = pool
  let step (nextCtime : Option Int64) (other : MediaSetLabel) : Option Int64 :=
    if other.ctime > ctime then
      match nextCtime with
      | none => some other.ctime
      | some lastNextCtime => if other.ctime < lastNextCtime then some other.ctime else nextCtime
    else nextCtime
  setList.foldl step none

/-- The `max_use_time` of `media_expire_time`, or `none` where it returns `i64::MAX` before
computing one. -/
def maxUseTime (inv : Inventory) (set : MediaSetLabel) (mediaSetPolicy : MediaSetPolicy E) :
    Option Int64 :=
  -- missing information: the set's own `ctime`
  let setStartTime := (inv.mediaSetStartTime set.uuid).getD set.ctime
  match inv.mediaSetNextStartTime set.uuid with
  | some nextStartTime =>
    match mediaSetPolicy with
    | .alwaysCreate => some setStartTime
    | _ => some nextStartTime
  | none =>
    match mediaSetPolicy with
    | .continueCurrent => none
    | .alwaysCreate => some setStartTime
    | .createAt event =>
      match time.computeNextEvent event setStartTime with
      | .ok (some next) => some next
      | _ => none

/-- `Inventory::media_expire_time`. The sum of `ProtectFor` is the `+` of `i64`, which wraps in a
build without overflow checks. -/
def mediaExpireTime (inv : Inventory) (media : MediaId) (mediaSetPolicy : MediaSetPolicy E)
    (retentionPolicy : RetentionPolicy S) : Int64 :=
  match retentionPolicy, media.mediaSetLabel with
  | .keepForever, _ => Int64.maxValue
  | _, none => Int64.maxValue
  | retentionPolicy, some set =>
    match inv.maxUseTime time set mediaSetPolicy with
    | none => Int64.maxValue
    | some maxUseTime =>
      match retentionPolicy with
      | .keepForever => Int64.maxValue
      | .overwriteAlways => maxUseTime
      | .protectFor timeSpan => maxUseTime + time.spanSeconds timeSpan

theorem lookupMedia_eq_some {inv : Inventory} {u : Uuid} {id : MediaId}
    (h : inv.lookupMedia u = some id) : id.label.uuid = u := by
  obtain ⟨entry, hfind, rfl⟩ := Option.map_eq_some_iff.mp h
  simpa using List.find?_some hfind

/-- A media that `list_pool_media` lists with a set label has the label of its entry: a label of
that pool, not the unassigned one. -/
theorem mediaSetLabel_of_mem_listPoolMedia {inv : Inventory} {pool : String} {id : MediaId}
    {set : MediaSetLabel} (h : id ∈ inv.listPoolMedia pool) (hset : id.mediaSetLabel = some set) :
    set.pool = pool ∧ set.unassigned = false := by
  obtain ⟨entry, -, hf⟩ := List.mem_filterMap.mp h
  split at hf
  · rename_i hpool
    split at hf
    · rename_i set' hset'
      split at hf
      · cases hf
        cases hset
      · rename_i hun
        cases hf
        rw [hset'] at hset
        cases hset
        simp only [MediaId.pool, hset', Option.some.injEq] at hpool
        exact ⟨hpool, Bool.eq_false_iff.mpr hun⟩
    · cases hf
      rename_i hnone
      rw [hnone] at hset
      cases hset
  · cases hf

/-! ### The expire time of a `ProtectFor` span -/

theorem mediaExpireTime_protectFor {inv : Inventory} {media : MediaId} {set : MediaSetLabel}
    {mediaSetPolicy : MediaSetPolicy E} {timeSpan : S} {maxUseTime : Int64}
    (hset : media.mediaSetLabel = some set)
    (hmax : inv.maxUseTime time set mediaSetPolicy = some maxUseTime) :
    inv.mediaExpireTime time media mediaSetPolicy (.protectFor timeSpan) =
      maxUseTime + time.spanSeconds timeSpan := by
  simp [mediaExpireTime, hset, hmax]

/-- While the max use time plus the span is a value of `i64`, the data is protected at least
until the max use time. -/
theorem le_mediaExpireTime_of_inRange {inv : Inventory} {media : MediaId} {set : MediaSetLabel}
    {mediaSetPolicy : MediaSetPolicy E} {timeSpan : S} {maxUseTime : Int64}
    (hset : media.mediaSetLabel = some set)
    (hmax : inv.maxUseTime time set mediaSetPolicy = some maxUseTime)
    (hspan : 0 ≤ (time.spanSeconds timeSpan).toInt)
    (hsum : Int64.InRange (maxUseTime.toInt + (time.spanSeconds timeSpan).toInt)) :
    maxUseTime ≤ inv.mediaExpireTime time media mediaSetPolicy (.protectFor timeSpan) := by
  rw [mediaExpireTime_protectFor time hset hmax, Int64.le_iff_toInt_le,
    Int64.toInt_add_of_inRange hsum]
  omega

/-- Past `i64::MAX` the addition wraps, and the expire time lies before the max use time. -/
theorem mediaExpireTime_lt_of_overflow {inv : Inventory} {media : MediaId} {set : MediaSetLabel}
    {mediaSetPolicy : MediaSetPolicy E} {timeSpan : S} {maxUseTime : Int64}
    (hset : media.mediaSetLabel = some set)
    (hmax : inv.maxUseTime time set mediaSetPolicy = some maxUseTime)
    (hsum : 2 ^ 63 ≤ maxUseTime.toInt + (time.spanSeconds timeSpan).toInt) :
    inv.mediaExpireTime time media mediaSetPolicy (.protectFor timeSpan) < maxUseTime := by
  rw [mediaExpireTime_protectFor time hset hmax, Int64.lt_iff_toInt_lt, Int64.toInt_add_of_le hsum]
  have hspan := (time.spanSeconds timeSpan).toInt_lt
  omega

end Inventory

/-! ## The pool -/

/-- `MediaSet`: its UUID and its media by sequence number, `None` where one is missing. -/
structure MediaSet where
  uuid : Uuid
  mediaList : List (Option Uuid)

/-- `MediaSet::last_media_uuid`. -/
def MediaSet.lastMediaUuid (set : MediaSet) : Option Uuid := set.mediaList.getLast?.bind id

/-- `MediaSet::is_last_media`. -/
def MediaSet.isLastMedia (set : MediaSet) (uuid : Uuid) : Bool := set.lastMediaUuid = some uuid

/-- `MediaPool`, without its state path. `currentMediaSetLocked` says whether the pool holds the
lock of its current set. -/
structure MediaPool (E S : Type) where
  name : String
  mediaSetPolicy : MediaSetPolicy E
  retention : RetentionPolicy S
  changerName : Option String
  forceMediaAvailability : Bool
  noMediaSetLocking : Bool
  encryptFingerprint : Option Fingerprint
  inventory : Inventory
  currentMediaSet : MediaSet
  currentMediaSetLocked : Bool

/-- `slice::sort_unstable_by(cmp)`. A stable merge sort stands in for the unstable sort; the two
differ only in the order of elements `cmp` calls equal. -/
def sortUnstableBy {α : Type} (cmp : α → α → Ordering) (l : List α) : List α :=
  l.mergeSort fun a b => cmp a b != .gt

/-- The comparator of the three sorts of media: `b`'s keys against `a`'s, so that the newest
comes first and `pop()` takes the oldest. -/
def newestFirst {α : Type} (ctime : α → Int64) (labelText : α → String) (a b : α) : Ordering :=
  (compare (ctime b) (ctime a)).then (compare (labelText b) (labelText a))

/-- What `pop()` takes from a sorted list is an element of the list. -/
theorem mem_of_getLast?_sortUnstableBy {α : Type} {cmp : α → α → Ordering} {l : List α} {a : α}
    (h : (sortUnstableBy cmp l).getLast? = some a) : a ∈ l :=
  List.mem_mergeSort.mp (List.mem_of_getLast? h)

namespace MediaPool

variable {E S : Type} (time : ProxmoxTime E S) (canLockMediaSet : Uuid → Bool)

/-- `MediaPool::compute_media_state`. -/
def computeMediaState (pool : MediaPool E S) (mediaId : MediaId) : MediaStatus × MediaLocation :=
  let (status, location) := pool.inventory.statusAndLocation mediaId.label.uuid
  match status with
  | .full | .damaged | .retired => (status, location)
  | .unknown | .writable =>
    match mediaId.mediaSetLabel with
    | none => (.writable, location)
    | some set =>
      -- a set of another pool should never occur
      if set.pool ≠ pool.name then (.unknown, location)
      else if set.unassigned then (.writable, location)
      else if set.uuid ≠ pool.currentMediaSet.uuid then (.full, location)
      else if pool.currentMediaSet.isLastMedia mediaId.label.uuid then (.writable, location)
      else (.full, location)

/-- The `BackupMedia` of a media, with the state the pool computes. -/
def withState (pool : MediaPool E S) (mediaId : MediaId) : BackupMedia :=
  ⟨mediaId, (pool.computeMediaState mediaId).2, (pool.computeMediaState mediaId).1⟩

/-- `MediaPool::lookup_media`. -/
def lookupMedia (pool : MediaPool E S) (uuid : Uuid) : Except String BackupMedia := do
  let some mediaId := pool.inventory.lookupMedia uuid
    | throw s!"unable to lookup media {uuid}"
  if let some mediaPool := mediaId.pool then
    if mediaPool ≠ pool.name then
      throw s!"media does not belong to pool ({mediaPool} != {pool.name})"
  pure (pool.withState mediaId)

/-- `MediaPool::list_media`. -/
def listMedia (pool : MediaPool E S) : List BackupMedia :=
  (pool.inventory.listPoolMedia pool.name).map pool.withState

/-- `MediaPool::location_is_available`: a standalone drive uses offline media, a changer its own
online media. -/
def locationIsAvailable (pool : MediaPool E S) : MediaLocation → Bool
  | .online name => pool.forceMediaAvailability || pool.changerName = some name
  | .offline => pool.forceMediaAvailability || pool.changerName.isNone
  | .vault _ => false

/-- `MediaPool::media_is_expired`. -/
def mediaIsExpired (pool : MediaPool E S) (media : BackupMedia) (currentTime : Int64) : Bool :=
  if media.status ≠ .full then false
  else
    let expireTime :=
      pool.inventory.mediaExpireTime time media.id pool.mediaSetPolicy pool.retention
    decide (expireTime ≤ currentTime)

/-- `MediaPool::next_unassigned_media`. -/
def nextUnassignedMedia (pool : MediaPool E S) (mediaList : List MediaId) : Option MediaId :=
  let freeMedia := mediaList.filter fun mediaId =>
    let (status, location) := pool.computeMediaState mediaId
    mediaId.mediaSetLabel.isNone && pool.locationIsAvailable location && status = .writable
  (sortUnstableBy (newestFirst (·.label.ctime) (·.label.labelText)) freeMedia).getLast?

/-- `MediaPool::next_empty_media`. -/
def nextEmptyMedia (pool : MediaPool E S) (mediaList : List BackupMedia) : Option MediaId :=
  let emptyMedia := mediaList.filter fun media =>
    pool.locationIsAvailable media.location && media.id.mediaSetLabel.isNone &&
      media.status = .writable
  ((sortUnstableBy (newestFirst (·.id.label.ctime) (·.id.label.labelText)) emptyMedia).getLast?).map
    (·.id)

/-- The loop of `MediaPool::next_expired_media` that collects the available media of the other
sets whose data expired, each kept with its set label, which the sort reads (`unwrap()` on it
cannot fail). -/
def expiredMediaList (pool : MediaPool E S) (currentTime : Int64) (mediaList : List BackupMedia) :
    List (BackupMedia × MediaSetLabel) :=
  mediaList.filterMap fun media =>
    if !pool.locationIsAvailable media.location then none
    else
      match media.id.mediaSetLabel with
      | none => none
      | some set =>
        if set.uuid = pool.currentMediaSet.uuid then none
        else if !pool.mediaIsExpired time media currentTime then none
        else some (media, set)

/-- `MediaPool::next_expired_media`: without set locking the oldest expired media is taken;
otherwise the media are popped until the lock of one's set can be taken at once. -/
def nextExpiredMedia (pool : MediaPool E S) (currentTime : Int64) (mediaList : List BackupMedia) :
    Option MediaId :=
  let sorted := sortUnstableBy (newestFirst (·.2.ctime) (·.1.id.label.labelText))
    (pool.expiredMediaList time currentTime mediaList)
  if pool.noMediaSetLocking then (sorted.getLast?).map (·.1.id)
  else ((sorted.reverse.find? fun entry => canLockMediaSet entry.2.uuid)).map (·.1.id)

/-- The checks `current_set_usable` makes of the set label of the media at position `seq`: it
belongs to the current set at that position, with the pool's encryption key, the key of the media
before it (`last_enc`). Returns the new `last_enc`. -/
def checkSetLabel (pool : MediaPool E S) (seq : Nat) (lastEnc : Option (Option Fingerprint))
    (media : BackupMedia) : Except String (Option (Option Fingerprint)) := do
  let setUuid := pool.currentMediaSet.uuid
  let some setLabel := media.id.mediaSetLabel | throw "media owner error (no owner)"
  if !(setLabel.seqNr = seq ∧ setLabel.uuid = setUuid) then
    if setLabel.uuid = setUuid then throw s!"media sequence error ({setLabel.seqNr} != {seq})"
    else throw s!"media owner error ({setLabel.uuid} != {setUuid}"
  if setLabel.encryptionKeyFingerprint ≠ pool.encryptFingerprint then
    throw "pool encryption key changed"
  match lastEnc with
  | none => pure (some setLabel.encryptionKeyFingerprint)
  | some enc =>
    if enc ≠ setLabel.encryptionKeyFingerprint then throw "inconsistent media encryption key"
    else pure (some enc)

/-- The status check of `current_set_usable` for the media at position `seq` of `mediaCount`:
full, or writable at the last position. Returns the new `last_is_writable`. -/
def checkStatus (pool : MediaPool E S) (mediaCount seq : Nat) (lastIsWritable : Bool)
    (media : BackupMedia) : Except String Bool :=
  match media.status with
  | .full => pure lastIsWritable
  | .writable =>
    if seq + 1 = mediaCount then
      if pool.locationIsAvailable media.location then pure true
      else
        match media.location with
        | .vault vault => throw s!"writable media offsite in vault '{vault}'"
        | _ => pure lastIsWritable
    else throw s!"unable to use media set - wrong media status {media.status.debug}"
  | status => throw s!"unable to use media set - wrong media status {status.debug}"

/-- The loop of `MediaPool::current_set_usable` from position `seq` of the current set, with
`last_enc` and `last_is_writable` so far. -/
def currentSetUsableLoop (pool : MediaPool E S) (mediaCount : Nat) :
    Nat → Option (Option Fingerprint) → Bool → List (Option Uuid) → Except String Bool
  | _, _, lastIsWritable, [] => pure lastIsWritable
  | seq, lastEnc, lastIsWritable, optUuid :: rest => do
    let some uuid := optUuid | throw "media set is incomplete (missing media information)"
    let media ← pool.lookupMedia uuid
    let lastEnc ← pool.checkSetLabel seq lastEnc media
    let lastIsWritable ← pool.checkStatus mediaCount seq lastIsWritable media
    currentSetUsableLoop pool mediaCount (seq + 1) lastEnc lastIsWritable rest

/-- `MediaPool::current_set_usable`: whether the last media of the current set is writable, or an
error where the set is inconsistent. -/
def currentSetUsable (pool : MediaPool E S) : Except String Bool :=
  let mediaList := pool.currentMediaSet.mediaList
  if mediaList.length = 0 then pure false
  else pool.currentSetUsableLoop mediaList.length 0 none false mediaList

/-- `MediaPool::guess_next_writable_media`; `none` is the panic of `unwrap()`. -/
def guessNextWritableMedia (pool : MediaPool E S) (currentTime : Int64) :
    ExceptT String Option MediaId := do
  let lastIsWritable ← liftM pool.currentSetUsable
  if lastIsWritable then
    let lastUuid ← liftM pool.currentMediaSet.lastMediaUuid
    let media ← liftM (pool.lookupMedia lastUuid)
    return media.id
  let mediaList := pool.listMedia
  if let some mediaId := pool.nextEmptyMedia mediaList then
    return mediaId
  if let some mediaId := pool.nextExpiredMedia time canLockMediaSet currentTime mediaList then
    return mediaId
  if let some mediaId := pool.nextUnassignedMedia pool.inventory.listUnassignedMedia then
    return mediaId
  throw s!"guess_next_writable_media in pool '{pool.name}' failed: no usable media found"

/-- `MediaPool::alloc_writable_media`, its result. The pool locks are taken and the inventory
reloads find it unchanged; `add_media_to_current_set`, which writes the chosen media's new set
label to its catalog and to the inventory, follows the choice and is not part of the model. -/
def allocWritableMedia (pool : MediaPool E S) (currentTime : Int64) : ExceptT String Option Uuid := do
  if !pool.currentMediaSetLocked then
    throw "alloc_writable_media: media set is not locked - internal error"
  let lastIsWritable ← liftM pool.currentSetUsable
  if lastIsWritable then
    let lastUuid ← liftM pool.currentMediaSet.lastMediaUuid
    let media ← liftM (pool.lookupMedia lastUuid)
    return media.id.label.uuid
  let mediaList := pool.listMedia
  if let some mediaId := pool.nextEmptyMedia mediaList then
    return mediaId.label.uuid
  if let some mediaId := pool.nextExpiredMedia time canLockMediaSet currentTime mediaList then
    return mediaId.label.uuid
  if let some mediaId := pool.nextUnassignedMedia pool.inventory.listUnassignedMedia then
    return mediaId.label.uuid
  throw s!"alloc writable media in pool '{pool.name}' failed: no usable media found"

/-! ## The current set -/

/-- A status check that passes keeps `last_is_writable`, or sets it for a writable and available
media at the last position. -/
theorem checkStatus_eq_ok {pool : MediaPool E S} {n seq : Nat} {w w' : Bool} {media : BackupMedia}
    (h : pool.checkStatus n seq w media = .ok w') :
    w' = w ∨ seq + 1 = n ∧ media.status = .writable ∧ pool.locationIsAvailable media.location ∧
      w' = true := by
  unfold checkStatus at h
  rcases hs : media.status with _ | _ | _ | _ | _ <;> rw [hs] at h
  case full => exact .inl (Except.ok.inj h).symm
  case writable =>
    by_cases hseq : seq + 1 = n
    · by_cases hav : pool.locationIsAvailable media.location
      · simp only [hseq, hav, ↓reduceIte] at h
        exact .inr ⟨hseq, rfl, hav, (Except.ok.inj h).symm⟩
      · simp only [hseq, hav, ↓reduceIte, Bool.false_eq_true] at h
        split at h
        · cases h
        · exact .inl (Except.ok.inj h).symm
    · simp [hseq] at h
  all_goals cases h

/-- One round of the loop of `current_set_usable` that is followed by a successful rest: the media
at position `seq` is in the inventory, and the round changes `last_is_writable` only as
`checkStatus_eq_ok` says. -/
theorem currentSetUsableLoop_cons_eq_ok {pool : MediaPool E S} {n seq : Nat}
    {lastEnc : Option (Option Fingerprint)} {w r : Bool} {x : Option Uuid}
    {rest : List (Option Uuid)} (h : pool.currentSetUsableLoop n seq lastEnc w (x :: rest) = .ok r) :
    ∃ u media lastEnc' w', x = some u ∧ pool.lookupMedia u = .ok media ∧
      (w' = w ∨ seq + 1 = n ∧ media.status = .writable ∧ pool.locationIsAvailable media.location ∧
        w' = true) ∧
      pool.currentSetUsableLoop n (seq + 1) lastEnc' w' rest = .ok r := by
  rcases x with _ | u
  · cases h
  obtain ⟨media, hm, h⟩ := Except.bind_eq_ok.mp h
  obtain ⟨lastEnc', -, h⟩ := Except.bind_eq_ok.mp h
  obtain ⟨w', hw, h⟩ := Except.bind_eq_ok.mp h
  exact ⟨u, media, lastEnc', w', rfl, hm, checkStatus_eq_ok hw, h⟩

/-- The loop ends with `last_is_writable` only if it was set before, or the media at the last
position is writable and available. -/
theorem currentSetUsableLoop_eq_ok_true {pool : MediaPool E S} {n : Nat} {seq : Nat}
    {lastEnc : Option (Option Fingerprint)} {w : Bool} {l : List (Option Uuid)}
    (h : pool.currentSetUsableLoop n seq lastEnc w l = .ok true) (hlen : seq + l.length = n) :
    w = true ∨ ∃ u media, l.getLast? = some (some u) ∧ pool.lookupMedia u = .ok media ∧
      media.status = .writable ∧ pool.locationIsAvailable media.location := by
  induction l generalizing seq lastEnc w with
  | nil => exact .inl (Except.ok.inj h)
  | cons x rest ih =>
    obtain ⟨u, media, lastEnc', w', rfl, hm, hstep, hrest⟩ := currentSetUsableLoop_cons_eq_ok h
    have hlen' : seq + 1 + rest.length = n := by simp at hlen; omega
    rcases ih hrest hlen' with rfl | ⟨u', media', hlast, hlast'⟩
    · rcases hstep with hw | ⟨hseq, hstatus, havail, -⟩
      · exact .inl hw.symm
      -- set at this position, which is the last one
      have hnil : rest = [] := List.eq_nil_of_length_eq_zero (by omega)
      subst hnil
      exact .inr ⟨u, media, rfl, hm, hstatus, havail⟩
    · refine .inr ⟨u', media', ?_, hlast'⟩
      cases rest with
      | nil => simp at hlast
      | cons y ys => rwa [List.getLast?_cons_cons]

/-- `current_set_usable` returns true only for a last media of the current set that is in the
inventory, writable and available. -/
theorem currentSetUsable_eq_ok_true {pool : MediaPool E S} (h : pool.currentSetUsable = .ok true) :
    ∃ u media, pool.currentMediaSet.lastMediaUuid = some u ∧ pool.lookupMedia u = .ok media ∧
      media.status = .writable ∧ pool.locationIsAvailable media.location := by
  simp only [currentSetUsable] at h
  split at h
  · cases h
  rcases currentSetUsableLoop_eq_ok_true h (by simp) with h | ⟨u, media, hlast, hrest⟩
  · cases h
  exact ⟨u, media, by simp [MediaSet.lastMediaUuid, hlast], hrest⟩

/-! ## The media each step may choose -/

/-- A media `lookup_media` finds has the UUID looked up, and the state the pool computes. -/
theorem lookupMedia_eq_ok {pool : MediaPool E S} {u : Uuid} {media : BackupMedia}
    (h : pool.lookupMedia u = .ok media) :
    media.id.label.uuid = u ∧ media = pool.withState media.id := by
  unfold lookupMedia at h
  rcases hid : pool.inventory.lookupMedia u with _ | id
  · simp [hid] at h
  simp only [hid] at h
  have hmedia : media = pool.withState id := by
    split at h
    · split at h
      · cases h
      · exact (Except.ok.inj h).symm
    · exact (Except.ok.inj h).symm
  subst hmedia
  exact ⟨Inventory.lookupMedia_eq_some hid, rfl⟩

theorem nextEmptyMedia_eq_some {pool : MediaPool E S} {mediaList : List BackupMedia}
    {m : MediaId} (h : pool.nextEmptyMedia mediaList = some m) :
    ∃ media ∈ mediaList, media.id = m ∧ pool.locationIsAvailable media.location ∧
      m.mediaSetLabel = none ∧ media.status = .writable := by
  obtain ⟨media, hlast, rfl⟩ := Option.map_eq_some_iff.mp h
  have hmem := List.mem_filter.mp (mem_of_getLast?_sortUnstableBy hlast)
  simp only [Bool.and_eq_true, Option.isNone_iff_eq_none, decide_eq_true_eq] at hmem
  exact ⟨media, hmem.1, rfl, hmem.2.1.1, hmem.2.1.2, hmem.2.2⟩

theorem nextUnassignedMedia_eq_some {pool : MediaPool E S} {mediaList : List MediaId}
    {m : MediaId} (h : pool.nextUnassignedMedia mediaList = some m) :
    m ∈ mediaList ∧ m.mediaSetLabel = none ∧
      pool.locationIsAvailable (pool.computeMediaState m).2 ∧
      (pool.computeMediaState m).1 = .writable := by
  have hmem := List.mem_filter.mp (mem_of_getLast?_sortUnstableBy h)
  simp only [Bool.and_eq_true, Option.isNone_iff_eq_none, decide_eq_true_eq] at hmem
  exact ⟨hmem.1, hmem.2.1.1, hmem.2.1.2, hmem.2.2⟩

theorem mem_expiredMediaList {pool : MediaPool E S} {currentTime : Int64}
    {mediaList : List BackupMedia} {entry : BackupMedia × MediaSetLabel}
    (h : entry ∈ pool.expiredMediaList time currentTime mediaList) :
    entry.1 ∈ mediaList ∧ pool.locationIsAvailable entry.1.location ∧
      entry.1.id.mediaSetLabel = some entry.2 ∧ entry.2.uuid ≠ pool.currentMediaSet.uuid ∧
      pool.mediaIsExpired time entry.1 currentTime := by
  obtain ⟨media, hmedia, hf⟩ := List.mem_filterMap.mp h
  simp only [Bool.not_eq_true'] at hf
  -- each check of the loop either skips the media or lets it through
  split at hf
  · cases hf
  rename_i havail
  split at hf
  · cases hf
  rename_i set hset
  split at hf
  · cases hf
  rename_i hne
  split at hf
  · cases hf
  rename_i hexp
  cases hf
  exact ⟨hmedia, by simpa using havail, hset, hne, by simpa using hexp⟩

theorem nextExpiredMedia_eq_some {pool : MediaPool E S} {currentTime : Int64}
    {mediaList : List BackupMedia} {m : MediaId}
    (h : pool.nextExpiredMedia time canLockMediaSet currentTime mediaList = some m) :
    ∃ entry ∈ pool.expiredMediaList time currentTime mediaList, entry.1.id = m := by
  simp only [nextExpiredMedia] at h
  split at h
  · obtain ⟨entry, hlast, rfl⟩ := Option.map_eq_some_iff.mp h
    exact ⟨entry, mem_of_getLast?_sortUnstableBy hlast, rfl⟩
  · obtain ⟨entry, hfind, rfl⟩ := Option.map_eq_some_iff.mp h
    exact ⟨entry, List.mem_mergeSort.mp (List.mem_reverse.mp (List.mem_of_find?_eq_some hfind)), rfl⟩

theorem mem_listMedia {pool : MediaPool E S} {media : BackupMedia} (h : media ∈ pool.listMedia) :
    media.id ∈ pool.inventory.listPoolMedia pool.name ∧ media = pool.withState media.id := by
  obtain ⟨id, hid, rfl⟩ := List.mem_map.mp h
  exact ⟨hid, rfl⟩

theorem mediaIsExpired_eq_true {pool : MediaPool E S} {media : BackupMedia} {currentTime : Int64} :
    pool.mediaIsExpired time media currentTime = true ↔ media.status = .full ∧
      pool.inventory.mediaExpireTime time media.id pool.mediaSetPolicy pool.retention ≤
        currentTime := by
  unfold mediaIsExpired
  by_cases hs : media.status = .full <;> simp [hs]

/-! ## What the choice can be -/

/-- The choice `guess_next_writable_media` and `alloc_writable_media` make when the current set
has no writable media: an empty media, else an expired one, else an unassigned one. -/
def fallbackMedia (pool : MediaPool E S) (currentTime : Int64) : Option MediaId :=
  pool.nextEmptyMedia pool.listMedia <|>
    pool.nextExpiredMedia time canLockMediaSet currentTime pool.listMedia <|>
    pool.nextUnassignedMedia pool.inventory.listUnassignedMedia

theorem guessNextWritableMedia_run (pool : MediaPool E S) (currentTime : Int64) :
    (pool.guessNextWritableMedia time canLockMediaSet currentTime).run =
      match pool.currentSetUsable with
      | .error e => some (.error e)
      | .ok true => pool.currentMediaSet.lastMediaUuid.map fun u => (pool.lookupMedia u).map (·.id)
      | .ok false =>
        some ((pool.fallbackMedia time canLockMediaSet currentTime).elim
          (.error s!"guess_next_writable_media in pool '{pool.name}' failed: no usable media found")
          .ok) := by
  rcases hu : pool.currentSetUsable with e | (_ | _)
  · simp [guessNextWritableMedia, hu]
  · simp only [guessNextWritableMedia, hu, fallbackMedia, ExceptT.liftM_ok_bind]
    rcases pool.nextEmptyMedia pool.listMedia with _ | m
    · rcases pool.nextExpiredMedia time canLockMediaSet currentTime pool.listMedia with _ | m
      · rcases pool.nextUnassignedMedia pool.inventory.listUnassignedMedia with _ | m <;> rfl
      · rfl
    · rfl
  · simp only [guessNextWritableMedia, hu, ExceptT.liftM_ok_bind, ↓reduceIte]
    rcases pool.currentMediaSet.lastMediaUuid with _ | u
    · rfl
    · simp only [ExceptT.liftM_some_bind, Option.map_some]
      rcases pool.lookupMedia u with e | media <;> rfl

theorem allocWritableMedia_run (pool : MediaPool E S) (currentTime : Int64)
    (hlock : pool.currentMediaSetLocked = true) :
    (pool.allocWritableMedia time canLockMediaSet currentTime).run =
      match pool.currentSetUsable with
      | .error e => some (.error e)
      | .ok true =>
        pool.currentMediaSet.lastMediaUuid.map fun u => (pool.lookupMedia u).map (·.id.label.uuid)
      | .ok false =>
        some ((pool.fallbackMedia time canLockMediaSet currentTime).elim
          (.error s!"alloc writable media in pool '{pool.name}' failed: no usable media found")
          (.ok ·.label.uuid)) := by
  rcases hu : pool.currentSetUsable with e | (_ | _)
  · simp [allocWritableMedia, hlock, hu]
  · simp only [allocWritableMedia, hlock, hu, fallbackMedia, Bool.not_true, Bool.false_eq_true,
      ↓reduceIte, ExceptT.liftM_ok_bind]
    rcases pool.nextEmptyMedia pool.listMedia with _ | m
    · rcases pool.nextExpiredMedia time canLockMediaSet currentTime pool.listMedia with _ | m
      · rcases pool.nextUnassignedMedia pool.inventory.listUnassignedMedia with _ | m <;> rfl
      · rfl
    · rfl
  · simp only [allocWritableMedia, hlock, hu, Bool.not_true, Bool.false_eq_true, ↓reduceIte,
      ExceptT.liftM_ok_bind]
    rcases pool.currentMediaSet.lastMediaUuid with _ | u
    · rfl
    · simp only [ExceptT.liftM_some_bind, Option.map_some]
      rcases pool.lookupMedia u with e | media <;> rfl

/-- The media `guess_next_writable_media` may choose at `currentTime`. -/
inductive Allocatable (pool : MediaPool E S) (currentTime : Int64) : MediaId → Prop
  /-- The last media of the current set, writable and available. -/
  | currentLast {m : MediaId} : pool.currentMediaSet.lastMediaUuid = some m.label.uuid →
      (pool.computeMediaState m).1 = .writable →
      pool.locationIsAvailable (pool.computeMediaState m).2 → Allocatable pool currentTime m
  /-- A writable and available media without a media set. -/
  | withoutSet {m : MediaId} : m.mediaSetLabel = none →
      (pool.computeMediaState m).1 = .writable →
      pool.locationIsAvailable (pool.computeMediaState m).2 → Allocatable pool currentTime m
  /-- A full media of another set of the pool whose data expired by `currentTime`. -/
  | expired {m : MediaId} {set : MediaSetLabel} : m.mediaSetLabel = some set →
      set.pool = pool.name → set.uuid ≠ pool.currentMediaSet.uuid →
      (pool.computeMediaState m).1 = .full →
      pool.inventory.mediaExpireTime time m pool.mediaSetPolicy pool.retention ≤ currentTime →
      Allocatable pool currentTime m

theorem fallbackMedia_allocatable {pool : MediaPool E S} {currentTime : Int64} {m : MediaId}
    (h : pool.fallbackMedia time canLockMediaSet currentTime = some m) :
    pool.Allocatable time currentTime m := by
  simp only [fallbackMedia, Option.orElse_eq_some] at h
  rcases h with hempty | ⟨-, hexpired | ⟨-, hunassigned⟩⟩
  · obtain ⟨media, hmem, rfl, havail, hnone, hstatus⟩ := nextEmptyMedia_eq_some hempty
    obtain ⟨-, hstate⟩ := mem_listMedia hmem
    rw [hstate] at havail hstatus
    exact .withoutSet hnone hstatus havail
  · obtain ⟨⟨media, set⟩, hentry, rfl⟩ := nextExpiredMedia_eq_some time canLockMediaSet hexpired
    obtain ⟨hmem, -, hset, hne, hexp⟩ := mem_expiredMediaList time hentry
    obtain ⟨hpool, hstate⟩ := mem_listMedia hmem
    obtain ⟨hstatus, hle⟩ := (mediaIsExpired_eq_true time).mp hexp
    rw [hstate] at hstatus
    exact .expired hset (Inventory.mediaSetLabel_of_mem_listPoolMedia hpool hset).1 hne hstatus hle
  · obtain ⟨-, hnone, havail, hstatus⟩ := nextUnassignedMedia_eq_some hunassigned
    exact .withoutSet hnone hstatus havail

/-- A media `guess_next_writable_media` returns is one the pool may write to: the writable last
media of the current set, a writable media without a set, or an expired full media of another
set of the pool. -/
theorem guessNextWritableMedia_ok {pool : MediaPool E S} {currentTime : Int64} {m : MediaId}
    (h : (pool.guessNextWritableMedia time canLockMediaSet currentTime).run = some (.ok m)) :
    pool.Allocatable time currentTime m := by
  rw [guessNextWritableMedia_run] at h
  rcases hu : pool.currentSetUsable with e | (_ | _) <;> rw [hu] at h
  · cases h
  · rcases hf : pool.fallbackMedia time canLockMediaSet currentTime with _ | m' <;> rw [hf] at h
    · cases h
    · cases h
      exact fallbackMedia_allocatable time canLockMediaSet hf
  · obtain ⟨u, media, hlast, hlook, hstatus, havail⟩ := currentSetUsable_eq_ok_true hu
    rw [hlast] at h
    simp only [hlook, Option.map_some, Option.some.injEq, Except.map_ok_eq, Except.ok.injEq] at h
    subst h
    obtain ⟨rfl, hstate⟩ := lookupMedia_eq_ok hlook
    rw [hstate] at hstatus havail
    exact .currentLast hlast hstatus havail

/-- `alloc_writable_media` allocates the media `guess_next_writable_media` chooses. -/
theorem allocWritableMedia_eq_ok_iff (pool : MediaPool E S) (currentTime : Int64)
    (hlock : pool.currentMediaSetLocked = true) {u : Uuid} :
    (pool.allocWritableMedia time canLockMediaSet currentTime).run = some (.ok u) ↔
      ∃ m, (pool.guessNextWritableMedia time canLockMediaSet currentTime).run = some (.ok m) ∧
        m.label.uuid = u := by
  rw [allocWritableMedia_run time canLockMediaSet pool currentTime hlock, guessNextWritableMedia_run]
  rcases pool.currentSetUsable with e | (_ | _)
  · simp
  · rcases pool.fallbackMedia time canLockMediaSet currentTime with _ | m <;> simp
  · rcases pool.currentMediaSet.lastMediaUuid with _ | v
    · simp
    · rcases hv : pool.lookupMedia v with e | media <;> simp [hv]

/-! ## A retention span past `i64::MAX` -/

/-- The set label of `tape1` in the repository's test `test_alloc_writable_media_4`: the first
media of a set of pool `p1` started at time 10. -/
def set1Label : MediaSetLabel := ⟨"p1", ⟨Vector.replicate 16 2⟩, 0, 10, none⟩

/-- `tape1` of that test. -/
def tape1 : MediaId := ⟨⟨⟨Vector.replicate 16 1⟩, "tape1", 0, some "p1"⟩, some set1Label⟩

/-- The pool `p1` of that test (policy `AlwaysCreate`) once `tape1` is full and a new set has been
started, with a `ProtectFor` span. -/
def protectedPool : MediaPool Unit Unit where
  name := "p1"
  mediaSetPolicy := .alwaysCreate
  retention := .protectFor ()
  changerName := none
  forceMediaAvailability := false
  noMediaSetLocking := false
  encryptFingerprint := none
  inventory := ⟨[⟨tape1, none, some .full⟩]⟩
  currentMediaSet := ⟨⟨Vector.replicate 16 3⟩, []⟩
  currentMediaSetLocked := true

/-- A span of `2^63` seconds or more, which `as i64` saturates to `i64::MAX`. -/
def saturatedTime : ProxmoxTime Unit Unit := ⟨fun _ _ => .ok none, fun _ => Int64.maxValue⟩

/-- With such a span, the data of `tape1`, whose set's max use time is 10, expires before 10: the
`i64` addition wraps (a build with overflow checks panics in it). At time 20
`guess_next_writable_media` and `alloc_writable_media` choose `tape1` for overwriting. -/
theorem guessNextWritableMedia_reuses_protected_media :
    protectedPool.inventory.maxUseTime saturatedTime set1Label .alwaysCreate = some 10 ∧
    protectedPool.inventory.mediaExpireTime saturatedTime tape1 .alwaysCreate (.protectFor ()) <
      10 ∧
    Int64.addChecked 10 (saturatedTime.spanSeconds ()) = none ∧
    (protectedPool.guessNextWritableMedia saturatedTime (fun _ => true) 20).run =
      some (.ok tape1) ∧
    (protectedPool.allocWritableMedia saturatedTime (fun _ => true) 20).run =
      some (.ok tape1.label.uuid) := by
  have hcur : protectedPool.currentSetUsable = .ok false := by decide
  have hexpired : protectedPool.expiredMediaList saturatedTime 20 protectedPool.listMedia =
      [(protectedPool.withState tape1, set1Label)] := by decide
  have hempty : protectedPool.listMedia.filter (fun media =>
      protectedPool.locationIsAvailable media.location && media.id.mediaSetLabel.isNone &&
        media.status = .writable) = [] := by decide
  have hfallback : protectedPool.fallbackMedia saturatedTime (fun _ => true) 20 = some tape1 := by
    simp only [fallbackMedia, nextEmptyMedia, nextExpiredMedia, hempty, hexpired, sortUnstableBy,
      List.mergeSort_nil, List.mergeSort_singleton]
    rfl
  refine ⟨by decide, by decide, by decide, ?_, ?_⟩
  · rw [guessNextWritableMedia_run, hcur, hfallback]
    rfl
  · rw [allocWritableMedia_run _ _ _ _ rfl, hcur, hfallback]
    rfl

end MediaPool

end ProxmoxBackup.Tape
