import ProxmoxBackup.Datastore.Prune

/-!
# The keep rule of `compute_prune_info`

`Prune` models `compute_prune_info` as the source computes it: one map of marks, filled by
`remove_incomplete_snapshots` and then by one pass of `mark_selections` per keep option. This
module states what the passes select, without the map, and proves that the map refines it.

The rule (`keepRule`) walks the snapshots newest first. The option processed has a bucket
function (the time string for `keep-last`, a `strftime_local` format for the others) and a count
`n`. Its candidates are the finished, unprotected snapshots not yet kept or removed by an earlier
option whose bucket holds no snapshot kept by an earlier option. Among them it keeps the newest
snapshot of each of the first `n` buckets (`keptFrom`), and removes the other candidates of
those buckets up to the first candidate of a further bucket (`removedFrom`).

* `selectLoop_loopMarks`: the loop of `mark_selections` marks `Keep` and `Remove` exactly as
  `keptFrom` and `removedFrom` say, on the snapshots it may mark.
* `Agrees.markOption`: a pass of `mark_selections` keeps the map in step with the rule.
* `computePruneInfo_keep_eq_rule`: `compute_prune_info` marks `Keep` exactly the snapshots the
  rule keeps; with `keep-last = n` alone, exactly the `n` newest finished unprotected ones.
-/

namespace ProxmoxBackup.Prune

/-! ## The rule -/

section Rule

variable (bucket : BackupInfo → Option String)

/-- The newest snapshots of the first `n` buckets outside `seen`, in the walk `E` (newest
first). The newest snapshot of a bucket is the first of the walk in that bucket. -/
def keptFrom (seen : List (Option String)) (n : Nat) (E : List BackupInfo) : List BackupInfo :=
  (E.filter fun x => bucket x ∉ seen && E.find? (fun y => bucket y == bucket x) == some x).take n

/-- The other snapshots of the buckets in `seen` and of the buckets kept, from the start of the
walk up to the first snapshot of another bucket. -/
def removedFrom (seen : List (Option String)) (n : Nat) (E : List BackupInfo) :
    List BackupInfo :=
  (E.takeWhile fun x => bucket x ∈ seen ++ (keptFrom bucket seen n E).map bucket).filter
    fun x => x ∉ keptFrom bucket seen n E

/-- The snapshots kept and removed by the keep options processed so far. -/
structure Selection where
  kept : List BackupInfo
  removed : List BackupInfo
  deriving DecidableEq, Repr

/-- A snapshot an option may still select: finished, unprotected, not kept or removed by an
earlier option, and not in the bucket of a snapshot kept by an earlier option. -/
def Selection.eligible (s : Selection) (info : BackupInfo) : Bool :=
  info.isFinished && !info.protected && info ∉ s.kept && info ∉ s.removed &&
    bucket info ∉ s.kept.map bucket

/-- One keep option with count `n` on the snapshots `list`, newest first. -/
def Selection.select (s : Selection) (n : Nat) (list : List BackupInfo) : Selection :=
  let E := list.filter (s.eligible bucket)
  ⟨s.kept ++ keptFrom bucket [] n E, s.removed ++ removedFrom bucket [] n E⟩

/-- A keep option that may be unset. -/
def Selection.selectOption (keep? : Option Nat) (s : Selection) (list : List BackupInfo) :
    Selection :=
  match keep? with
  | some n => s.select bucket n list
  | none => s

end Rule

/-- The bucket of a snapshot under a selection id that may fail. -/
def bucketOf (selectId : BackupInfo → Except String String) (info : BackupInfo) : Option String :=
  (selectId info).toOption

/-- The rule for all keep options, in the order `compute_prune_info` processes them. -/
def keepRule (tf : TimeFormat) (list : List BackupInfo) (options : KeepOptions) : Selection :=
  let list := sortList list false
  let s : Selection := ⟨[], []⟩
  let s := s.selectOption (bucketOf fun info => pure (tf.epochToRfc3339Utc info.backupTime))
    options.keepLast list
  let s := s.selectOption (bucketOf fun info => tf.strftimeLocal "%Y/%m/%d/%H" info.backupTime)
    options.keepHourly list
  let s := s.selectOption (bucketOf fun info => tf.strftimeLocal "%Y/%m/%d" info.backupTime)
    options.keepDaily list
  let s := s.selectOption (bucketOf fun info => tf.strftimeLocal "%G/%V" info.backupTime)
    options.keepWeekly list
  let s := s.selectOption (bucketOf fun info => tf.strftimeLocal "%Y/%m" info.backupTime)
    options.keepMonthly list
  s.selectOption (bucketOf fun info => tf.strftimeLocal "%Y" info.backupTime)
    options.keepYearly list

/-! ## The rule one snapshot at a time

Walking `x :: E`, the rule keeps `x` when its bucket is new and the count allows it, removes `x`
when its bucket is one already seen, and stops at a new bucket once the count is used up. -/

section Unfold

variable {bucket : BackupInfo → Option String}

theorem keptFrom_subset (seen : List (Option String)) (n : Nat) (E : List BackupInfo) :
    keptFrom bucket seen n E ⊆ E :=
  fun _ hx => List.mem_of_mem_filter (List.mem_of_mem_take hx)

theorem removedFrom_subset (seen : List (Option String)) (n : Nat) (E : List BackupInfo) :
    removedFrom bucket seen n E ⊆ E :=
  fun _ hx => (List.takeWhile_prefix _).subset (List.mem_of_mem_filter hx)

@[simp] theorem keptFrom_zero (seen : List (Option String)) (E : List BackupInfo) :
    keptFrom bucket seen 0 E = [] := by
  simp [keptFrom]

@[simp] theorem keptFrom_nil (seen : List (Option String)) (n : Nat) :
    keptFrom bucket seen n [] = [] := by
  simp [keptFrom]

@[simp] theorem removedFrom_nil (seen : List (Option String)) (n : Nat) :
    removedFrom bucket seen n [] = [] := by
  simp [removedFrom]

/-- A new bucket with the count used up: the walk stops. -/
theorem removedFrom_zero_of_new {seen : List (Option String)} {x : BackupInfo}
    (hx : bucket x ∉ seen) (E : List BackupInfo) : removedFrom bucket seen 0 (x :: E) = [] := by
  simp [removedFrom, hx]

/-- A new bucket within the count: its newest snapshot is kept. -/
theorem keptFrom_succ_of_new {seen : List (Option String)} {x : BackupInfo} {E : List BackupInfo}
    (hx : bucket x ∉ seen) (hxE : x ∉ E) (n : Nat) :
    keptFrom bucket seen (n + 1) (x :: E) = x :: keptFrom bucket (bucket x :: seen) n E := by
  unfold keptFrom
  rw [List.filter_cons_of_pos (by simp [hx]), List.take_succ_cons]
  congr 2
  -- a later snapshot of the bucket of `x` is not the newest of its bucket
  refine List.filter_congr fun y hy => ?_
  by_cases hb : bucket y = bucket x
  · have hne : x ≠ y := fun h => hxE (h ▸ hy)
    simp [hb, hne]
  · simp [hb, List.find?_cons_of_neg, Ne.symm hb]

theorem removedFrom_succ_of_new {seen : List (Option String)} {x : BackupInfo}
    {E : List BackupInfo} (hx : bucket x ∉ seen) (hxE : x ∉ E) (n : Nat) :
    removedFrom bucket seen (n + 1) (x :: E) = removedFrom bucket (bucket x :: seen) n E := by
  unfold removedFrom
  rw [keptFrom_succ_of_new hx hxE, List.takeWhile_cons_of_pos (by simp),
    List.filter_cons_of_neg (by simp)]
  -- the same prefix of `E`, and `x` is not in it
  have hpre : (E.takeWhile fun y => bucket y ∈ seen ++
        (x :: keptFrom bucket (bucket x :: seen) n E).map bucket) =
      E.takeWhile fun y => bucket y ∈ (bucket x :: seen) ++
        (keptFrom bucket (bucket x :: seen) n E).map bucket := by
    congr 1
    funext y
    simp only [List.map_cons, List.mem_append, List.mem_cons, decide_eq_decide]
    tauto
  rw [hpre]
  refine List.filter_congr fun y hy => ?_
  have hne : y ≠ x := fun h => hxE (h ▸ (List.takeWhile_prefix _).subset hy)
  simp [hne]

/-- A bucket already seen: the snapshot is not kept. -/
theorem keptFrom_of_seen {seen : List (Option String)} {x : BackupInfo} (hx : bucket x ∈ seen)
    (n : Nat) (E : List BackupInfo) :
    keptFrom bucket seen n (x :: E) = keptFrom bucket seen n E := by
  unfold keptFrom
  rw [List.filter_cons_of_neg (by simp [hx])]
  congr 1
  refine List.filter_congr fun y _ => ?_
  by_cases hb : bucket y ∈ seen
  · simp [hb]
  · have hne : bucket x ≠ bucket y := fun h => hb (h ▸ hx)
    simp [hb, List.find?_cons_of_neg, hne]

/-- A bucket already seen: the snapshot is removed. -/
theorem removedFrom_of_seen {seen : List (Option String)} {x : BackupInfo} {E : List BackupInfo}
    (hx : bucket x ∈ seen) (hxE : x ∉ E) (n : Nat) :
    removedFrom bucket seen n (x :: E) = x :: removedFrom bucket seen n E := by
  unfold removedFrom
  have hxK : x ∉ keptFrom bucket seen n E := fun h => hxE (keptFrom_subset seen n E h)
  rw [keptFrom_of_seen hx, List.takeWhile_cons_of_pos (by simp [hx]),
    List.filter_cons_of_pos (by simpa using hxK)]

end Unfold

/-! ## The loop of `mark_selections` against the rule -/

section Loop

variable (selectId : BackupInfo → Except String String)

/-- A snapshot the loop of `mark_selections` marks when it reaches it before the `break`: not yet
marked, not protected, and not in a bucket of `already_included`. -/
def isOpen (mark : Marks) (alreadyIncluded : List String) (info : BackupInfo) : Bool :=
  (mark info.backupTime).isNone && !info.protected &&
    bucketOf selectId info ∉ alreadyIncluded.map some

/-- How a run of the loop over `L` leaves the map `mark'` from `mark`, for the snapshots `E` it
may mark, of which it keeps `K` and removes `R`: the others keep their mark or are marked
`Protected`, and no other time changes. -/
structure LoopMarks (mark mark' : Marks) (L E K R : List BackupInfo) : Prop where
  open_keep : ∀ y ∈ E, mark' y.backupTime = some .keep ↔ y ∈ K
  open_marked : ∀ y ∈ E, (mark' y.backupTime).isSome ↔ y ∈ K ∨ y ∈ R
  closed : ∀ y ∈ L, y ∉ E →
    mark' y.backupTime = mark y.backupTime ∨ (y.protected ∧ mark' y.backupTime = some .protected)
  frame : ∀ t ∉ L.map BackupInfo.backupTime, mark' t = mark t

namespace LoopMarks

variable {mark mark₁ mark' : Marks} {x : BackupInfo} {rest E K R : List BackupInfo}

/-- The loop stops: nothing more is marked. -/
theorem stop (L : List BackupInfo) (hE : ∀ y ∈ E, mark y.backupTime = none) :
    LoopMarks mark mark L E [] [] :=
  ⟨fun y hy => by simp [hE y hy], fun y hy => by simp [hE y hy], fun _ _ _ => .inl rfl,
    fun _ _ => rfl⟩

/-- A snapshot the loop passes over, leaving its mark or marking it `Protected`. -/
theorem cons_closed (hx : x.backupTime ∉ rest.map BackupInfo.backupTime)
    (hm₁ : ∀ t ≠ x.backupTime, mark₁ t = mark t)
    (hx₁ : mark₁ x.backupTime = mark x.backupTime ∨
      (x.protected ∧ mark₁ x.backupTime = some .protected))
    (h : LoopMarks mark₁ mark' rest E K R) : LoopMarks mark mark' (x :: rest) E K R := by
  refine ⟨h.open_keep, h.open_marked, fun y hy hyE => ?_, fun t ht => ?_⟩
  · rcases List.mem_cons.mp hy with rfl | hy
    · rw [h.frame _ hx]
      exact hx₁
    · have hne : y.backupTime ≠ x.backupTime := fun heq => hx (heq ▸ List.mem_map_of_mem hy)
      rw [← hm₁ _ hne]
      exact h.closed y hy hyE
  · simp only [List.map_cons, List.mem_cons, not_or] at ht
    rw [h.frame t ht.2, hm₁ t ht.1]

/-- A snapshot the loop marks `Keep`. -/
theorem cons_keep (hx : x.backupTime ∉ rest.map BackupInfo.backupTime) (hxE : x ∉ E)
    (h : LoopMarks (Function.update mark x.backupTime (some .keep)) mark' rest E K R) :
    LoopMarks mark mark' (x :: rest) (x :: E) (x :: K) R := by
  have hx' : mark' x.backupTime = some .keep := by rw [h.frame _ hx, Function.update_self]
  refine ⟨fun y hy => ?_, fun y hy => ?_, fun y hy hyE => ?_, fun t ht => ?_⟩
  · rcases List.mem_cons.mp hy with rfl | hy
    · simp [hx']
    · have hne : y ≠ x := fun heq => hxE (heq ▸ hy)
      simp [h.open_keep y hy, hne]
  · rcases List.mem_cons.mp hy with rfl | hy
    · simp [hx']
    · have hne : y ≠ x := fun heq => hxE (heq ▸ hy)
      simp [h.open_marked y hy, hne]
  · have hne : y ≠ x := fun heq => hyE (heq ▸ List.mem_cons_self)
    have hy' : y ∈ rest := (List.mem_cons.mp hy).resolve_left hne
    have htne : y.backupTime ≠ x.backupTime := fun heq => hx (heq ▸ List.mem_map_of_mem hy')
    rw [← Function.update_of_ne htne (some PruneMark.keep) mark]
    exact h.closed y hy' (fun h' => hyE (List.mem_cons_of_mem _ h'))
  · simp only [List.map_cons, List.mem_cons, not_or] at ht
    rw [h.frame t ht.2, Function.update_of_ne ht.1]

/-- A snapshot the loop marks `Remove`. -/
theorem cons_remove (hx : x.backupTime ∉ rest.map BackupInfo.backupTime) (hxE : x ∉ E)
    (hKE : K ⊆ E)
    (h : LoopMarks (Function.update mark x.backupTime (some .remove)) mark' rest E K R) :
    LoopMarks mark mark' (x :: rest) (x :: E) K (x :: R) := by
  have hx' : mark' x.backupTime = some .remove := by rw [h.frame _ hx, Function.update_self]
  have hxK : x ∉ K := fun h' => hxE (hKE h')
  refine ⟨fun y hy => ?_, fun y hy => ?_, fun y hy hyE => ?_, fun t ht => ?_⟩
  · rcases List.mem_cons.mp hy with rfl | hy
    · simp [hx', hxK]
    · exact h.open_keep y hy
  · rcases List.mem_cons.mp hy with rfl | hy
    · simp [hx']
    · have hne : y ≠ x := fun heq => hxE (heq ▸ hy)
      simp [h.open_marked y hy, hne]
  · have hne : y ≠ x := fun heq => hyE (heq ▸ List.mem_cons_self)
    have hy' : y ∈ rest := (List.mem_cons.mp hy).resolve_left hne
    have htne : y.backupTime ≠ x.backupTime := fun heq => hx (heq ▸ List.mem_map_of_mem hy')
    rw [← Function.update_of_ne htne (some PruneMark.remove) mark]
    exact h.closed y hy' (fun h' => hyE (List.mem_cons_of_mem _ h'))
  · simp only [List.map_cons, List.mem_cons, not_or] at ht
    rw [h.frame t ht.2, Function.update_of_ne ht.1]

end LoopMarks

variable {selectId}

/-- A mark at another time does not change which later snapshots the loop may mark. -/
theorem filter_isOpen_update {mark : Marks} {alreadyIncluded : List String} {x : BackupInfo}
    {rest : List BackupInfo} (hx : x.backupTime ∉ rest.map BackupInfo.backupTime)
    (v : Option PruneMark) :
    rest.filter (isOpen selectId (Function.update mark x.backupTime v) alreadyIncluded) =
      rest.filter (isOpen selectId mark alreadyIncluded) := by
  refine List.filter_congr fun y hy => ?_
  have hne : y.backupTime ≠ x.backupTime := fun h => hx (h ▸ List.mem_map_of_mem hy)
  simp [isOpen, Function.update_of_ne hne]

/-- **The loop of `mark_selections`** marks, among the snapshots it may mark, the newest of the
first buckets `Keep` and the others of those buckets `Remove`, as the rule says; the count left
is `keep` less the buckets already in `include_hash`. -/
theorem selectLoop_loopMarks {keep : Nat} {alreadyIncluded : List String} :
    ∀ (L : List BackupInfo) (mark mark' : Marks) (includeHash : List String),
      (L.map BackupInfo.backupTime).Nodup →
      selectLoop selectId keep alreadyIncluded mark includeHash L = .ok mark' →
      LoopMarks mark mark' L (L.filter (isOpen selectId mark alreadyIncluded))
        (keptFrom (bucketOf selectId) (includeHash.map some) (keep - includeHash.length)
          (L.filter (isOpen selectId mark alreadyIncluded)))
        (removedFrom (bucketOf selectId) (includeHash.map some) (keep - includeHash.length)
          (L.filter (isOpen selectId mark alreadyIncluded)))
  | [], mark, mark', _, _, h => by
    simp only [selectLoop, Except.pure_eq_ok, Except.ok.injEq] at h
    subst h
    simpa using @LoopMarks.stop mark [] [] (fun _ h => by cases h)
  | x :: rest, mark, mark', includeHash, hnd, h => by
    rw [List.map_cons, List.nodup_cons] at hnd
    obtain ⟨hx, hndrest⟩ := hnd
    have hxE : x ∉ rest.filter (isOpen selectId mark alreadyIncluded) :=
      fun h' => hx (List.mem_map_of_mem (List.mem_of_mem_filter h'))
    simp only [selectLoop] at h
    split at h
    · -- already marked: `continue`
      rename_i hmarked
      have hsome : mark x.backupTime ≠ none := Option.isSome_iff_ne_none.mp hmarked
      rw [List.filter_cons_of_neg (by simp [isOpen, hsome])]
      exact (selectLoop_loopMarks rest mark mark' includeHash hndrest h).cons_closed hx
        (fun _ _ => rfl) (.inl rfl)
    · rename_i hmarked
      have hnone : mark x.backupTime = none := by simpa using hmarked
      split at h
      · -- protected: marked `Protected`
        rename_i hprot
        rw [List.filter_cons_of_neg (by simp [isOpen, hprot]),
          ← filter_isOpen_update hx (some .protected)]
        exact (selectLoop_loopMarks rest _ mark' includeHash hndrest h).cons_closed hx
          (fun t ht => Function.update_of_ne ht _ _) (.inr ⟨hprot, Function.update_self _ _ _⟩)
      · rename_i hprot
        obtain ⟨selId, hsel, h⟩ := Except.bind_eq_ok.mp h
        have hbucket : bucketOf selectId x = some selId := by rw [bucketOf, hsel]; rfl
        split at h
        · -- a bucket kept by an earlier option: `continue`
          rename_i hin
          rw [List.filter_cons_of_neg (by simp [isOpen, hbucket, hin])]
          exact (selectLoop_loopMarks rest mark mark' includeHash hndrest h).cons_closed hx
            (fun _ _ => rfl) (.inl rfl)
        · rename_i hnotin
          rw [List.filter_cons_of_pos (by simp [isOpen, hnone, hprot, hbucket, hnotin])]
          split at h
          · rename_i hnew
            have hnew' : bucketOf selectId x ∉ includeHash.map some := by simpa [hbucket] using hnew
            split at h
            · -- `include_hash` is full: `break`
              rename_i hfull
              simp only [Except.pure_eq_ok, Except.ok.injEq] at h
              subst h
              rw [show keep - includeHash.length = 0 by omega, keptFrom_zero,
                removedFrom_zero_of_new hnew']
              refine LoopMarks.stop _ fun y hy => ?_
              rcases List.mem_cons.mp hy with rfl | hy
              · exact hnone
              · have hopen := (List.mem_filter.mp hy).2
                simp only [isOpen, Bool.and_eq_true, Option.isNone_iff_eq_none] at hopen
                exact hopen.1.1
            · -- a new bucket: marked `Keep`
              rename_i hroom
              have ih := selectLoop_loopMarks rest _ mark' (selId :: includeHash) hndrest h
              rw [filter_isOpen_update hx] at ih
              have hn : keep - includeHash.length = keep - (includeHash.length + 1) + 1 := by omega
              simp only [List.map_cons, List.length_cons] at ih
              rw [hn, keptFrom_succ_of_new hnew' hxE, removedFrom_succ_of_new hnew' hxE, hbucket]
              exact ih.cons_keep hx hxE
          · -- a bucket already kept by this pass: marked `Remove`
            rename_i hseen
            have hseen' : bucketOf selectId x ∈ includeHash.map some := by simpa [hbucket] using hseen
            have ih := selectLoop_loopMarks rest _ mark' includeHash hndrest h
            rw [filter_isOpen_update hx] at ih
            rw [keptFrom_of_seen hseen', removedFrom_of_seen hseen' hxE]
            exact ih.cons_remove hx hxE (keptFrom_subset _ _ _)

/-- `already_included` holds the selection ids of the snapshots marked `Keep`, and the
selection id of each of them succeeded. -/
theorem collectIncluded_eq_ok {mark : Marks} :
    ∀ {L : List BackupInfo} {ids : List String}, collectIncluded selectId mark L = .ok ids →
      (∀ y ∈ L, mark y.backupTime = some .keep → ∃ b, selectId y = .ok b ∧ b ∈ ids) ∧
      (∀ b ∈ ids, ∃ y ∈ L, mark y.backupTime = some .keep ∧ selectId y = .ok b)
  | [], ids, h => by
    simp only [collectIncluded, Except.pure_eq_ok, Except.ok.injEq] at h
    subst h
    simp
  | x :: rest, ids, h => by
    simp only [collectIncluded] at h
    split at h
    · rename_i hkeep
      obtain ⟨b, hb, h⟩ := Except.bind_eq_ok.mp h
      obtain ⟨ids', hids', h⟩ := Except.bind_eq_ok.mp h
      simp only [Except.pure_eq_ok, Except.ok.injEq] at h
      subst h
      obtain ⟨ih₁, ih₂⟩ := collectIncluded_eq_ok hids'
      refine ⟨fun y hy hk => ?_, fun c hc => ?_⟩
      · rcases List.mem_cons.mp hy with rfl | hy
        · exact ⟨b, hb, List.mem_cons_self⟩
        · obtain ⟨c, hc, hcm⟩ := ih₁ y hy hk
          exact ⟨c, hc, List.mem_cons_of_mem _ hcm⟩
      · rcases List.mem_cons.mp hc with rfl | hc
        · exact ⟨x, List.mem_cons_self, hkeep, hb⟩
        · obtain ⟨y, hy, hk, hs⟩ := ih₂ c hc
          exact ⟨y, List.mem_cons_of_mem _ hy, hk, hs⟩
    · rename_i hkeep
      obtain ⟨ih₁, ih₂⟩ := collectIncluded_eq_ok h
      refine ⟨fun y hy hk => ?_, fun c hc => ?_⟩
      · rcases List.mem_cons.mp hy with rfl | hy
        · exact absurd hk hkeep
        · exact ih₁ y hy hk
      · obtain ⟨y, hy, hk, hs⟩ := ih₂ c hc
        exact ⟨y, List.mem_cons_of_mem _ hy, hk, hs⟩

end Loop

/-! ## The passes against the rule -/

theorem Selection.eligible_iff {bucket : BackupInfo → Option String} {s : Selection}
    {info : BackupInfo} :
    s.eligible bucket info = true ↔ info.isFinished = true ∧ info.protected = false ∧
      info ∉ s.kept ∧ info ∉ s.removed ∧ bucket info ∉ s.kept.map bucket := by
  simp [Selection.eligible, and_assoc]

/-- The map after some passes against the rule after the same options, on the sorted snapshots
`L`: `Keep` marks the snapshots kept, a finished unprotected snapshot is marked when it is kept or
removed, and every unfinished one is marked. -/
structure Agrees (L : List BackupInfo) (mark : Marks) (s : Selection) : Prop where
  kept_sub : ∀ y ∈ s.kept, y ∈ L ∧ y.protected = false
  keep_iff : ∀ y ∈ L, mark y.backupTime = some .keep ↔ y ∈ s.kept
  marked_iff : ∀ y ∈ L, y.isFinished = true → y.protected = false →
    ((mark y.backupTime).isSome ↔ y ∈ s.kept ∨ y ∈ s.removed)
  unfinished : ∀ y ∈ L, y.isFinished = false → (mark y.backupTime).isSome

namespace Agrees

variable {selectId : BackupInfo → Except String String} {L : List BackupInfo} {mark mark' : Marks}
  {s : Selection}

/-- A bucket of `already_included` is the bucket of a snapshot the rule kept. -/
theorem mem_alreadyIncluded_iff (hag : Agrees L mark s) {alreadyIncluded : List String}
    (hids : collectIncluded selectId mark L = .ok alreadyIncluded) (y : BackupInfo) :
    bucketOf selectId y ∈ alreadyIncluded.map some ↔
      bucketOf selectId y ∈ s.kept.map (bucketOf selectId) := by
  obtain ⟨hids₁, hids₂⟩ := collectIncluded_eq_ok hids
  constructor
  · intro h
    obtain ⟨b, hb, hby⟩ := List.mem_map.mp h
    obtain ⟨z, hz, hk, hs⟩ := hids₂ b hb
    refine List.mem_map.mpr ⟨z, (hag.keep_iff z hz).mp hk, ?_⟩
    rw [← hby, bucketOf, hs]
    rfl
  · intro h
    obtain ⟨z, hz, hzy⟩ := List.mem_map.mp h
    have hzL := (hag.kept_sub z hz).1
    obtain ⟨b, hb, hbm⟩ := hids₁ z hzL ((hag.keep_iff z hzL).mpr hz)
    refine List.mem_map.mpr ⟨b, hbm, ?_⟩
    rw [← hzy, bucketOf, hb]
    rfl

/-- The snapshots the loop may mark are the rule's candidates. -/
theorem isOpen_eq_eligible (hag : Agrees L mark s) {alreadyIncluded : List String}
    (hids : collectIncluded selectId mark L = .ok alreadyIncluded) :
    ∀ y ∈ L, isOpen selectId mark alreadyIncluded y = s.eligible (bucketOf selectId) y := by
  intro y hy
  rw [Bool.eq_iff_iff, Selection.eligible_iff]
  simp only [isOpen, Bool.and_eq_true, Bool.not_eq_true', decide_eq_true_eq,
    Option.isNone_iff_eq_none, hag.mem_alreadyIncluded_iff hids y]
  cases hf : y.isFinished
  · -- unfinished: marked by `remove_incomplete_snapshots`
    have hsome := Option.isSome_iff_ne_none.mp (hag.unfinished y hy hf)
    simp [hsome]
  · cases hp : y.protected
    · have hmarked := hag.marked_iff y hy hf hp
      rw [← Option.not_isSome_iff_eq_none, hmarked]
      tauto
    · simp

/-- **A pass of `mark_selections`** keeps the map in step with the rule. -/
theorem markSelections (hnd : (L.map BackupInfo.backupTime).Nodup) (hag : Agrees L mark s)
    {keep : Nat} (h : ProxmoxBackup.Prune.markSelections selectId mark L keep = .ok mark') :
    Agrees L mark' (s.select (bucketOf selectId) keep L) := by
  obtain ⟨alreadyIncluded, hids, h⟩ := Except.bind_eq_ok.mp h
  have hloop := selectLoop_loopMarks L mark mark' [] hnd h
  simp only [List.map_nil, List.length_nil, Nat.sub_zero] at hloop
  rw [List.filter_congr (hag.isOpen_eq_eligible hids)] at hloop
  set E := L.filter (s.eligible (bucketOf selectId))
  show Agrees L mark' ⟨s.kept ++ keptFrom (bucketOf selectId) [] keep E,
    s.removed ++ removedFrom (bucketOf selectId) [] keep E⟩
  have hKE := @keptFrom_subset (bucketOf selectId) [] keep E
  have hRE := @removedFrom_subset (bucketOf selectId) [] keep E
  have helig : ∀ y ∈ E, y.isFinished = true ∧ y.protected = false ∧ y ∉ s.kept ∧ y ∉ s.removed :=
    fun y hy => (Selection.eligible_iff.mp (List.mem_filter.mp hy).2).imp_right
      fun h => ⟨h.1, h.2.1, h.2.2.1⟩
  refine ⟨fun y hy => ?_, fun y hy => ?_, fun y hy hf hp => ?_, fun y hy hf => ?_⟩
  · rcases List.mem_append.mp hy with hy | hy
    · exact hag.kept_sub y hy
    · exact ⟨(List.mem_filter.mp (hKE hy)).1, (helig y (hKE hy)).2.1⟩
  · rw [List.mem_append]
    by_cases hyE : y ∈ E
    · rw [hloop.open_keep y hyE]
      simp [(helig y hyE).2.2.1]
    · have hyK : y ∉ keptFrom (bucketOf selectId) [] keep E := fun h => hyE (hKE h)
      rcases hloop.closed y hy hyE with heq | ⟨hp, heq⟩
      · rw [heq, hag.keep_iff y hy]
        simp [hyK]
      · -- a protected snapshot is never kept
        have hyk : y ∉ s.kept := fun h => by simp [(hag.kept_sub y h).2] at hp
        simp [heq, hyk, hyK]
  · rw [List.mem_append, List.mem_append]
    by_cases hyE : y ∈ E
    · rw [hloop.open_marked y hyE]
      simp [(helig y hyE).2.2.1, (helig y hyE).2.2.2]
    · have hyK : y ∉ keptFrom (bucketOf selectId) [] keep E := fun h => hyE (hKE h)
      have hyR : y ∉ removedFrom (bucketOf selectId) [] keep E := fun h => hyE (hRE h)
      rcases hloop.closed y hy hyE with heq | ⟨hp', -⟩
      · rw [heq, hag.marked_iff y hy hf hp]
        simp [hyK, hyR]
      · exact absurd hp' (by simp [hp])
  · have hyE : y ∉ E := fun h => by simp [(helig y h).1] at hf
    rcases hloop.closed y hy hyE with heq | ⟨-, heq⟩
    · rw [heq]
      exact hag.unfinished y hy hf
    · rw [heq]
      rfl

theorem markOption (hnd : (L.map BackupInfo.backupTime).Nodup) (hag : Agrees L mark s)
    {keep? : Option Nat} (h : ProxmoxBackup.Prune.markOption selectId keep? mark L = .ok mark') :
    Agrees L mark' (s.selectOption (bucketOf selectId) keep? L) := by
  cases keep? with
  | none =>
    simp only [ProxmoxBackup.Prune.markOption, Except.pure_eq_ok, Except.ok.injEq] at h
    subst h
    exact hag
  | some keep => exact hag.markSelections hnd h

/-- The result of `compute_prune_info` marks `Keep` exactly what the rule keeps. -/
theorem finalMark_keep_iff (hag : Agrees L mark s) (info : BackupInfo) :
    (info, PruneMark.keep) ∈ L.map (fun info => (info, finalMark mark info)) ↔ info ∈ s.kept := by
  simp only [List.mem_map, Prod.mk.injEq]
  constructor
  · rintro ⟨y, hy, rfl, hfinal⟩
    unfold finalMark at hfinal
    split at hfinal
    · cases hfinal
    · have hk : mark y.backupTime = some .keep := by
        cases hm : mark y.backupTime <;> simp_all
      exact (hag.keep_iff y hy).mp hk
  · intro hk
    obtain ⟨hy, hp⟩ := hag.kept_sub info hk
    refine ⟨info, hy, rfl, ?_⟩
    simp [finalMark, hp, (hag.keep_iff info hy).mpr hk]

end Agrees

/-- `remove_incomplete_snapshots` marks no finished snapshot. -/
theorem removeIncompleteSnapshots_of_finished {L : List BackupInfo}
    (hnd : (L.map BackupInfo.backupTime).Nodup) {y : BackupInfo} (hy : y ∈ L)
    (hf : y.isFinished = true) : removeIncompleteSnapshots (fun _ => none) L y.backupTime = none := by
  -- no unfinished snapshot has the time of `y`
  have hother : ∀ z ∈ L, z.backupTime = y.backupTime → z.isFinished = true := by
    intro z hz ht
    rw [List.inj_on_of_nodup_map hnd hz hy ht]
    exact hf
  cases L with
  | nil => cases hy
  | cons first rest =>
    rw [removeIncompleteSnapshots_cons, removeIncompleteLoop_false, if_neg]
    · split
      · rfl
      · rename_i hfirst
        have hne : y.backupTime ≠ first.backupTime :=
          fun ht => hfirst (hother first List.mem_cons_self ht.symm)
        rw [Function.update_of_ne hne]
    · simp only [List.any_eq_true, Bool.and_eq_true, beq_iff_eq, Bool.not_eq_true', not_exists,
        not_and]
      intro z hz ht
      simp [hother z (List.mem_cons_of_mem _ hz) ht]

/-- Before the passes, the map agrees with the rule before any option. -/
theorem agrees_removeIncompleteSnapshots {L : List BackupInfo}
    (hnd : (L.map BackupInfo.backupTime).Nodup) :
    Agrees L (removeIncompleteSnapshots (fun _ => none) L) ⟨[], []⟩ := by
  have hinc := removeIncompleteSnapshots_marks L
  refine ⟨by simp, fun y _ => ?_, fun y hy hf _ => ?_, fun y hy hf => ?_⟩
  · simp only [List.not_mem_nil, iff_false]
    intro hk
    rcases hinc.values _ _ hk with h | h <;> cases h
  · simp [removeIncompleteSnapshots_of_finished hnd hy hf]
  · rcases hinc.unfinished y hy hf with h | h <;> simp [h]

/-- With distinct buckets, the newest snapshot of each bucket is every snapshot. -/
theorem keptFrom_of_injOn {bucket : BackupInfo → Option String} {E : List BackupInfo}
    (hinj : ∀ a ∈ E, ∀ b ∈ E, bucket a = bucket b → a = b) (n : Nat) :
    keptFrom bucket [] n E = E.take n := by
  unfold keptFrom
  congr
  refine List.filter_eq_self.mpr fun x hx => ?_
  -- the first snapshot of the walk in the bucket of `x` is `x`
  have hfind : ∀ E' : List BackupInfo, E' ⊆ E → x ∈ E' →
      E'.find? (fun y => bucket y == bucket x) = some x := by
    intro E' hsub hx'
    induction E' with
    | nil => cases hx'
    | cons z E' ih =>
      by_cases hz : bucket z = bucket x
      · rw [List.find?_cons_of_pos (by simpa using hz),
          hinj z (hsub List.mem_cons_self) x hx hz]
      · rw [List.find?_cons_of_neg (by simpa using hz)]
        have hne : x ≠ z := fun h => hz (h ▸ rfl)
        exact ih (fun w hw => hsub (List.mem_cons_of_mem _ hw))
          ((List.mem_cons.mp hx').resolve_left hne)
  simp [hfind E (fun _ h => h) hx]

/-- With `keep-last = n` alone and distinct time strings, the rule keeps the `n` newest finished
unprotected snapshots. -/
theorem keepRule_keepLast (tf : TimeFormat) {list : List BackupInfo} (n : Nat)
    (hnd : (list.map BackupInfo.backupTime).Nodup)
    (hinj : ∀ a ∈ list, ∀ b ∈ list,
      tf.epochToRfc3339Utc a.backupTime = tf.epochToRfc3339Utc b.backupTime →
        a.backupTime = b.backupTime) :
    (keepRule tf list { keepLast := some n }).kept =
      ((sortList list false).filter fun info => info.isFinished && !info.protected).take n := by
  have heligible : ((⟨[], []⟩ : Selection).eligible
      (bucketOf fun info => pure (tf.epochToRfc3339Utc info.backupTime))) =
      fun info => info.isFinished && !info.protected := by
    funext info
    simp [Selection.eligible]
  show [] ++ keptFrom _ [] n ((sortList list false).filter _) = _
  rw [heligible, List.nil_append]
  refine keptFrom_of_injOn (fun a ha b hb hab => ?_) n
  have ha' := mem_sortList.mp (List.mem_of_mem_filter ha)
  have hb' := mem_sortList.mp (List.mem_of_mem_filter hb)
  have hstr : tf.epochToRfc3339Utc a.backupTime = tf.epochToRfc3339Utc b.backupTime :=
    Option.some.inj hab
  exact List.inj_on_of_nodup_map hnd ha' hb' (hinj a ha' b hb' hstr)

/-- **The snapshots `compute_prune_info` keeps** are those the rule keeps; with `keep-last = n`
alone they are the `n` newest finished unprotected snapshots, given that distinct times have
distinct time strings. -/
theorem computePruneInfo_keep_eq_rule {tf : TimeFormat} {list : List BackupInfo}
    {options : KeepOptions} {out : List (BackupInfo × PruneMark)}
    (hnd : (list.map BackupInfo.backupTime).Nodup) (h : computePruneInfo tf list options = .ok out) :
    (∀ info, (info, PruneMark.keep) ∈ out ↔ info ∈ (keepRule tf list options).kept) ∧
      ∀ n, options = { keepLast := some n } →
        (∀ a ∈ list, ∀ b ∈ list,
          tf.epochToRfc3339Utc a.backupTime = tf.epochToRfc3339Utc b.backupTime →
            a.backupTime = b.backupTime) →
        ∀ info, (info, PruneMark.keep) ∈ out ↔
          info ∈ ((sortList list false).filter fun info => info.isFinished && !info.protected).take n := by
  have hndL : ((sortList list false).map BackupInfo.backupTime).Nodup :=
    ((sortList_perm list false).map _).nodup_iff.mpr hnd
  simp only [computePruneInfo] at h
  obtain ⟨m₁, h₁, h⟩ := Except.bind_eq_ok.mp h
  obtain ⟨m₂, h₂, h⟩ := Except.bind_eq_ok.mp h
  obtain ⟨m₃, h₃, h⟩ := Except.bind_eq_ok.mp h
  obtain ⟨m₄, h₄, h⟩ := Except.bind_eq_ok.mp h
  obtain ⟨m₅, h₅, h⟩ := Except.bind_eq_ok.mp h
  obtain ⟨m₆, h₆, h⟩ := Except.bind_eq_ok.mp h
  simp only [Except.pure_eq_ok, Except.ok.injEq] at h
  subst h
  -- the six passes in order, each in step with one option of the rule
  have hag := ((((((agrees_removeIncompleteSnapshots hndL).markOption hndL h₁).markOption hndL
    h₂).markOption hndL h₃).markOption hndL h₄).markOption hndL h₅).markOption hndL h₆
  have hkeep : ∀ info, (info, PruneMark.keep) ∈
      (sortList list false).map (fun info => (info, finalMark m₆ info)) ↔
        info ∈ (keepRule tf list options).kept :=
    hag.finalMark_keep_iff
  refine ⟨hkeep, fun n hopt hinj info => ?_⟩
  rw [hkeep, hopt, keepRule_keepLast tf n hnd hinj]

/-- Two finished snapshots with `keep-last 1` and the time rendered in decimal: the run succeeds
and keeps what the rule keeps. -/
theorem computePruneInfo_keep_eq_rule_last_one :
    ∃ out, computePruneInfo ⟨toString, fun _ t => .ok (toString t)⟩
        [BackupInfo.mk 20 [manifestBlobName] false, BackupInfo.mk 10 [manifestBlobName] false]
        { keepLast := some 1 } = .ok out ∧
      ∀ info, (info, PruneMark.keep) ∈ out ↔
        info ∈ (keepRule ⟨toString, fun _ t => .ok (toString t)⟩
          [BackupInfo.mk 20 [manifestBlobName] false, BackupInfo.mk 10 [manifestBlobName] false]
          { keepLast := some 1 }).kept := by
  obtain ⟨out, hrun⟩ := computePruneInfo_isOk ⟨toString, fun _ t => .ok (toString t)⟩
    [BackupInfo.mk 20 [manifestBlobName] false, BackupInfo.mk 10 [manifestBlobName] false]
    { keepLast := some 1 } fun _ _ _ => ⟨_, rfl⟩
  exact ⟨out, hrun, (computePruneInfo_keep_eq_rule (by decide) hrun).1⟩

end ProxmoxBackup.Prune
