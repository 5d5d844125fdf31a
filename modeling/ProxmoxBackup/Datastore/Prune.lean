import ProxmoxBackup.Foundations.Except
import Mathlib.Data.Finset.Card

/-!
# Pruning a backup group (`pbs-datastore/src/prune.rs`)

`compute_prune_info` sorts the snapshots of one backup group newest first and gives each of them
a `PruneMark`. The marks are collected in one map, keyed by the snapshot's relative path, by
`remove_incomplete_snapshots` and then by one pass of `mark_selections` for each keep option
that is set; a pass never changes a mark that is already in the map. The result reads the map,
with `Protected` for every protected snapshot and `Remove` where the map has nothing.

The relative path of a snapshot is `<ns>/<type>/<id>/<time>`; the snapshots given to
`compute_prune_info` belong to one group, so the map is keyed here by the backup time. The time
formatting of the `proxmox_time` crate, which the selection ids are made of, is not part of the
repository and is a parameter (`TimeFormat`).

* `computePruneInfo_ok`: whatever the selection ids, a successful run satisfies
  `PruneInfoSpec`: the input sorted newest first, `Protected` exactly on the protected
  snapshots, `KeepPartial` at most once and only on the newest snapshot when it is unfinished,
  `Keep` only on finished snapshots and at most as often as the keep counts allow.
* `computePruneInfo_isOk`: the run succeeds whenever the time formatting does.
-/

namespace ProxmoxBackup.Prune

/-- `PruneMark`. -/
inductive PruneMark where
  | «protected»
  | keep
  | keepPartial
  | remove
  deriving DecidableEq, Repr

/-- `MANIFEST_BLOB_NAME` (`manifest.rs`). -/
def manifestBlobName : String := "index.json.blob"

/-- The fields of `BackupInfo` that pruning reads: the backup time of `backup_dir`, the list of
files and the protection flag. -/
structure BackupInfo where
  backupTime : Int
  files : List String
  «protected» : Bool
  deriving DecidableEq, Repr

/-- `BackupInfo::is_finished`: a snapshot without manifest is unfinished. -/
def BackupInfo.isFinished (info : BackupInfo) : Bool :=
  info.files.any (· == manifestBlobName)

/-- `BackupInfo::sort_list`: oldest first when `ascending`, newest first otherwise. -/
def sortList (list : List BackupInfo) (ascending : Bool) : List BackupInfo :=
  if ascending then list.mergeSort fun a b => a.backupTime ≤ b.backupTime
  else list.mergeSort fun a b => b.backupTime ≤ a.backupTime

/-- `KeepOptions` (`pbs-api-types/src/jobs.rs`). -/
structure KeepOptions where
  keepLast : Option Nat := none
  keepHourly : Option Nat := none
  keepDaily : Option Nat := none
  keepWeekly : Option Nat := none
  keepMonthly : Option Nat := none
  keepYearly : Option Nat := none
  deriving DecidableEq, Repr

/-- The sum of the keep counts that are set. -/
def KeepOptions.budget (options : KeepOptions) : Nat :=
  options.keepLast.getD 0 + options.keepHourly.getD 0 + options.keepDaily.getD 0 +
    options.keepWeekly.getD 0 + options.keepMonthly.getD 0 + options.keepYearly.getD 0

/-- The functions of the `proxmox_time` crate that `compute_prune_info` calls. -/
structure TimeFormat where
  /-- `epoch_to_rfc3339_utc`, cached by `BackupDir` as its `backup_time_string` -/
  epochToRfc3339Utc : Int → String
  /-- `strftime_local` -/
  strftimeLocal : String → Int → Except String String

/-- The mark map `HashMap<PathBuf, PruneMark>`, keyed by backup time. -/
abbrev Marks := Int → Option PruneMark

/-! ## `remove_incomplete_snapshots` -/

/-- The loop of `remove_incomplete_snapshots`, with its flag `keep_unfinished`. -/
def removeIncompleteLoop (mark : Marks) : Bool → List BackupInfo → Marks
  | _, [] => mark
  | keepUnfinished, info :: rest =>
    if info.isFinished then removeIncompleteLoop mark false rest
    else
      removeIncompleteLoop
        (Function.update mark info.backupTime
          (some (if keepUnfinished then .keepPartial else .remove)))
        false rest

/-- `remove_incomplete_snapshots`: the newest snapshot is kept partially when it is unfinished,
every other unfinished snapshot is removed. -/
def removeIncompleteSnapshots (mark : Marks) (list : List BackupInfo) : Marks :=
  removeIncompleteLoop mark true list

/-! ## `mark_selections` -/

section MarkSelections

variable (selectId : BackupInfo → Except String String)

/-- The first loop of `mark_selections`: the selection ids of the snapshots that an earlier pass
marked `Keep` (the set `already_included`). -/
def collectIncluded (mark : Marks) : List BackupInfo → Except String (List String)
  | [] => pure []
  | info :: rest =>
    if mark info.backupTime = some .keep then do
      let selId ← selectId info
      let ids ← collectIncluded mark rest
      pure (selId :: ids)
    else collectIncluded mark rest

/-- The second loop of `mark_selections`, with the set `include_hash` of the selection ids kept
by this pass. The `break` once `keep` ids are kept ends the loop with the marks so far. -/
def selectLoop (keep : Nat) (alreadyIncluded : List String) :
    Marks → List String → List BackupInfo → Except String Marks
  | mark, _, [] => pure mark
  | mark, includeHash, info :: rest =>
    if (mark info.backupTime).isSome then selectLoop keep alreadyIncluded mark includeHash rest
    else if info.protected then
      selectLoop keep alreadyIncluded (Function.update mark info.backupTime (some .protected))
        includeHash rest
    else do
      let selId ← selectId info
      if selId ∈ alreadyIncluded then selectLoop keep alreadyIncluded mark includeHash rest
      else if selId ∉ includeHash then
        if keep ≤ includeHash.length then pure mark
        else
          selectLoop keep alreadyIncluded (Function.update mark info.backupTime (some .keep))
            (selId :: includeHash) rest
      else
        selectLoop keep alreadyIncluded (Function.update mark info.backupTime (some .remove))
          includeHash rest

/-- `mark_selections`. -/
def markSelections (mark : Marks) (list : List BackupInfo) (keep : Nat) : Except String Marks := do
  let alreadyIncluded ← collectIncluded selectId mark list
  selectLoop selectId keep alreadyIncluded mark [] list

/-- The pass of `compute_prune_info` for one keep option: `mark_selections` when it is set. -/
def markOption (keep? : Option Nat) (mark : Marks) (list : List BackupInfo) :
    Except String Marks :=
  match keep? with
  | some keep => markSelections selectId mark list keep
  | none => pure mark

end MarkSelections

/-! ## `compute_prune_info` -/

/-- The mark of a snapshot in the result: `Protected` for a protected snapshot, otherwise the
mark in the map, `Remove` by default. -/
def finalMark (mark : Marks) (info : BackupInfo) : PruneMark :=
  if info.protected then .protected else (mark info.backupTime).getD .remove

/-- `compute_prune_info`. -/
def computePruneInfo (tf : TimeFormat) (list : List BackupInfo) (options : KeepOptions) :
    Except String (List (BackupInfo × PruneMark)) := do
  let list := sortList list false
  let mark := removeIncompleteSnapshots (fun _ => none) list
  let mark ← markOption (fun info => pure (tf.epochToRfc3339Utc info.backupTime))
    options.keepLast mark list
  let mark ← markOption (fun info => tf.strftimeLocal "%Y/%m/%d/%H" info.backupTime)
    options.keepHourly mark list
  let mark ← markOption (fun info => tf.strftimeLocal "%Y/%m/%d" info.backupTime)
    options.keepDaily mark list
  let mark ← markOption (fun info => tf.strftimeLocal "%G/%V" info.backupTime)
    options.keepWeekly mark list
  let mark ← markOption (fun info => tf.strftimeLocal "%Y/%m" info.backupTime)
    options.keepMonthly mark list
  let mark ← markOption (fun info => tf.strftimeLocal "%Y" info.backupTime)
    options.keepYearly mark list
  pure (list.map fun info => (info, finalMark mark info))


/-! ## What `remove_incomplete_snapshots` marks -/

/-- After the newest snapshot the flag is off, and every further unfinished snapshot is marked
`Remove`. -/
theorem removeIncompleteLoop_false (mark : Marks) (list : List BackupInfo) (k : Int) :
    removeIncompleteLoop mark false list k =
      if list.any (fun info => info.backupTime == k && !info.isFinished) then some .remove
      else mark k := by
  induction list generalizing mark with
  | nil => simp [removeIncompleteLoop]
  | cons info rest ih =>
    by_cases hf : info.isFinished
    · simp [removeIncompleteLoop, hf, ih]
    · by_cases hk : info.backupTime = k
      · simp [removeIncompleteLoop, hf, ih, hk]
      · simp [removeIncompleteLoop, hf, ih, hk, Function.update_of_ne (Ne.symm hk)]

theorem removeIncompleteSnapshots_cons (mark : Marks) (info : BackupInfo)
    (rest : List BackupInfo) :
    removeIncompleteSnapshots mark (info :: rest) =
      removeIncompleteLoop
        (if info.isFinished then mark
          else Function.update mark info.backupTime (some .keepPartial)) false rest := by
  by_cases hf : info.isFinished <;> simp [removeIncompleteSnapshots, removeIncompleteLoop, hf]

/-- The marks `remove_incomplete_snapshots` leaves in an empty map: every unfinished snapshot
is marked, `KeepPartial` only at the newest snapshot when it is unfinished, and nothing else
than `KeepPartial` and `Remove` is marked. -/
structure IncompleteMarks (list : List BackupInfo) (mark : Marks) : Prop where
  unfinished : ∀ info ∈ list, info.isFinished = false →
    mark info.backupTime = some .keepPartial ∨ mark info.backupTime = some .remove
  keepPartial : ∀ k, mark k = some .keepPartial →
    ∃ info rest, list = info :: rest ∧ info.backupTime = k ∧ info.isFinished = false
  values : ∀ k m, mark k = some m → m = .keepPartial ∨ m = .remove

theorem removeIncompleteSnapshots_marks (list : List BackupInfo) :
    IncompleteMarks list (removeIncompleteSnapshots (fun _ => none) list) := by
  cases list with
  | nil => exact ⟨by simp, by simp [removeIncompleteSnapshots, removeIncompleteLoop],
      by simp [removeIncompleteSnapshots, removeIncompleteLoop]⟩
  | cons first rest =>
    rw [removeIncompleteSnapshots_cons]
    refine ⟨fun info hinfo hf => ?_, fun k hk => ?_, fun k m hk => ?_⟩
    · -- the newest snapshot is marked by the first step, every other one by the loop
      rw [removeIncompleteLoop_false]
      rcases List.mem_cons.mp hinfo with rfl | hmem
      · split
        · exact .inr rfl
        · simp [hf]
      · have : rest.any (fun i => i.backupTime == info.backupTime && !i.isFinished) = true :=
          List.any_eq_true.mpr ⟨info, hmem, by simp [hf]⟩
        simp [this]
    · rw [removeIncompleteLoop_false] at hk
      split at hk
      · cases hk
      · split at hk
        · simp at hk
        · rename_i hf
          by_cases h : first.backupTime = k
          · exact ⟨first, rest, rfl, h, by simpa using hf⟩
          · simp [Function.update_of_ne (Ne.symm h)] at hk
    · rw [removeIncompleteLoop_false] at hk
      split at hk
      · cases hk; exact .inr rfl
      · split at hk
        · simp at hk
        · by_cases h : first.backupTime = k
          · subst h; simp only [Function.update_self, Option.some.injEq] at hk
            exact .inl hk.symm
          · simp [Function.update_of_ne (Ne.symm h)] at hk


/-! ## What a pass of `mark_selections` adds -/

/-- The backup times of `list` that `mark` marks `Keep`. -/
def keepKeys (list : List BackupInfo) (mark : Marks) : Finset Int :=
  (list.map BackupInfo.backupTime).toFinset.filter fun k => mark k = some .keep

theorem card_keepKeys_update_keep (list : List BackupInfo) (mark : Marks) (k : Int) :
    (keepKeys list (Function.update mark k (some .keep))).card ≤ (keepKeys list mark).card + 1 := by
  have hsub : keepKeys list (Function.update mark k (some .keep)) ⊆ insert k (keepKeys list mark) := by
    intro x hx
    by_cases h : x = k
    · simp [h]
    · simp only [keepKeys, Finset.mem_filter, Function.update_of_ne h] at hx
      exact Finset.mem_insert_of_mem (by simpa [keepKeys] using hx)
  calc _ ≤ (insert k (keepKeys list mark)).card := Finset.card_le_card hsub
    _ ≤ _ := Finset.card_insert_le _ _

theorem keepKeys_update_subset (list : List BackupInfo) (mark : Marks) (k : Int)
    (v : Option PruneMark) (hv : v ≠ some .keep) :
    keepKeys list (Function.update mark k v) ⊆ keepKeys list mark := by
  intro x hx
  by_cases h : x = k
  · subst h
    simp [keepKeys, hv] at hx
  · simpa [keepKeys, Function.update_of_ne h] using hx

/-- `mark'` extends `mark` by marks for the snapshots of `list` that keep at most `budget` more
of them: no mark of `mark` changes, and the new marks are `Protected` (of protected snapshots),
`Keep` or `Remove`. -/
structure Extends (list : List BackupInfo) (budget : Nat) (mark mark' : Marks) : Prop where
  mono : ∀ k m, mark k = some m → mark' k = some m
  fresh : ∀ k m, mark k = none → mark' k = some m →
    m ≠ .keepPartial ∧ (m = .protected → ∃ info ∈ list, info.backupTime = k ∧ info.protected)
  keep_card : (keepKeys list mark').card ≤ (keepKeys list mark).card + budget

namespace Extends

variable {list : List BackupInfo}

theorem refl (budget : Nat) (mark : Marks) : Extends list budget mark mark :=
  ⟨fun _ _ h => h, fun _ _ h h' => by simp [h] at h', by omega⟩

theorem trans {b₁ b₂ : Nat} {m₁ m₂ m₃ : Marks} (h₁ : Extends list b₁ m₁ m₂)
    (h₂ : Extends list b₂ m₂ m₃) : Extends list (b₁ + b₂) m₁ m₃ := by
  refine ⟨fun k m h => h₂.mono k m (h₁.mono k m h), fun k m hk h => ?_, ?_⟩
  · -- a mark new in `m₃` was either new in `m₂` already or is new in the second step
    cases hk₂ : m₂ k with
    | none => exact h₂.fresh k m hk₂ h
    | some m' =>
      have hm : m' = m := by simpa [h₂.mono k m' hk₂] using h
      exact hm ▸ h₁.fresh k m' hk hk₂
  · have := h₁.keep_card
    have := h₂.keep_card
    omega

/-- One new mark `v` of a snapshot of `list` that has none yet. -/
theorem update {mark : Marks} {info : BackupInfo} (hinfo : info ∈ list)
    (hk : mark info.backupTime = none) (v : PruneMark) (hv : v ≠ .keepPartial)
    (hp : v = .protected → info.protected = true) (budget : Nat)
    (hb : v = .keep → 1 ≤ budget) :
    Extends list budget mark (Function.update mark info.backupTime (some v)) := by
  refine ⟨fun k m h => ?_, fun k m h h' => ?_, ?_⟩
  · have : k ≠ info.backupTime := by rintro rfl; simp [hk] at h
    rwa [Function.update_of_ne this]
  · have : k = info.backupTime := by
      by_contra hne
      simp [Function.update_of_ne hne, h] at h'
    subst this
    simp only [Function.update_self, Option.some.injEq] at h'
    subst h'
    exact ⟨hv, fun hp' => ⟨info, hinfo, rfl, hp hp'⟩⟩
  · by_cases hkeep : v = .keep
    · subst hkeep
      have := card_keepKeys_update_keep list mark info.backupTime
      have := hb rfl
      omega
    · have := Finset.card_le_card
        (keepKeys_update_subset list mark info.backupTime (some v) (by simpa using hkeep))
      omega

theorem mono_budget {b b' : Nat} {mark mark' : Marks} (h : Extends list b mark mark')
    (hb : b ≤ b') : Extends list b' mark mark' :=
  ⟨h.mono, h.fresh, le_trans h.keep_card (by omega)⟩

end Extends

section MarkSelections

variable (selectId : BackupInfo → Except String String)

/-- **The loop of `mark_selections`** extends the marks, keeping at most as many snapshots as
`include_hash` still has room for. -/
theorem selectLoop_extends {list : List BackupInfo} {keep : Nat} {alreadyIncluded : List String} :
    ∀ (rest : List BackupInfo) (mark mark' : Marks) (includeHash : List String),
      (∀ info ∈ rest, info ∈ list) → includeHash.length ≤ keep →
      selectLoop selectId keep alreadyIncluded mark includeHash rest = .ok mark' →
      Extends list (keep - includeHash.length) mark mark'
  | [], mark, mark', _, _, _, h => by
    simp only [selectLoop, Except.pure_eq_ok, Except.ok.injEq] at h
    exact h ▸ Extends.refl _ mark
  | info :: rest, mark, mark', includeHash, hsub, hlen, h => by
    have hinfo : info ∈ list := hsub info List.mem_cons_self
    have hrest : ∀ i ∈ rest, i ∈ list := fun i hi => hsub i (List.mem_cons_of_mem _ hi)
    simp only [selectLoop] at h
    split at h
    · -- already marked: `continue`
      exact selectLoop_extends rest mark mark' includeHash hrest hlen h
    · rename_i hmarked
      have hnone : mark info.backupTime = none := by simpa using hmarked
      split at h
      · -- protected: marked `Protected`
        rename_i hprot
        have h₁ := Extends.update hinfo hnone .protected (by decide) (fun _ => hprot) 0
          (by simp)
        simpa using h₁.trans (selectLoop_extends rest _ mark' includeHash hrest hlen h)
      · obtain ⟨selId, -, h⟩ := Except.bind_eq_ok.mp h
        split at h
        · exact selectLoop_extends rest mark mark' includeHash hrest hlen h
        · split at h
          · split at h
            · -- `include_hash` is full: `break`
              simp only [Except.pure_eq_ok, Except.ok.injEq] at h
              exact h ▸ Extends.refl _ mark
            · -- a new selection id: marked `Keep`
              rename_i hroom
              have h₁ := Extends.update hinfo hnone .keep (by decide) (by simp) 1
                (fun _ => le_refl 1)
              have h₂ := selectLoop_extends rest _ mark' (selId :: includeHash) hrest
                (by simp only [List.length_cons]; omega) h
              exact (h₁.trans h₂).mono_budget (by simp only [List.length_cons]; omega)
          · -- a selection id kept before in this pass: marked `Remove`
            have h₁ := Extends.update hinfo hnone .remove (by decide) (by simp) 0
              (by simp)
            simpa using h₁.trans (selectLoop_extends rest _ mark' includeHash hrest hlen h)

theorem markSelections_extends {mark mark' : Marks} {list : List BackupInfo} {keep : Nat}
    (h : markSelections selectId mark list keep = .ok mark') : Extends list keep mark mark' := by
  obtain ⟨alreadyIncluded, -, h⟩ := Except.bind_eq_ok.mp h
  simpa using selectLoop_extends selectId list mark mark' [] (fun _ h => h) (Nat.zero_le _) h

theorem markOption_extends {keep? : Option Nat} {mark mark' : Marks} {list : List BackupInfo}
    (h : markOption selectId keep? mark list = .ok mark') :
    Extends list (keep?.getD 0) mark mark' := by
  cases keep? with
  | none =>
    simp only [markOption, Except.pure_eq_ok, Except.ok.injEq] at h
    exact h ▸ Extends.refl _ mark
  | some keep => exact markSelections_extends selectId h

end MarkSelections


/-! ## Success -/

section MarkSelections

variable (selectId : BackupInfo → Except String String)

theorem collectIncluded_isOk (mark : Marks) :
    ∀ list : List BackupInfo, (∀ info ∈ list, ∃ s, selectId info = .ok s) →
      ∃ ids, collectIncluded selectId mark list = .ok ids
  | [], _ => ⟨[], rfl⟩
  | info :: rest, h => by
    obtain ⟨ids, hids⟩ := collectIncluded_isOk mark rest
      (fun i hi => h i (List.mem_cons_of_mem _ hi))
    simp only [collectIncluded]
    split
    · obtain ⟨s, hs⟩ := h info List.mem_cons_self
      exact ⟨s :: ids, by simp [hs, hids]⟩
    · exact ⟨ids, hids⟩

theorem selectLoop_isOk (keep : Nat) (alreadyIncluded : List String) :
    ∀ (rest : List BackupInfo) (mark : Marks) (includeHash : List String),
      (∀ info ∈ rest, ∃ s, selectId info = .ok s) →
      ∃ mark', selectLoop selectId keep alreadyIncluded mark includeHash rest = .ok mark'
  | [], mark, _, _ => ⟨mark, rfl⟩
  | info :: rest, mark, includeHash, h => by
    have hrest : ∀ i ∈ rest, ∃ s, selectId i = .ok s :=
      fun i hi => h i (List.mem_cons_of_mem _ hi)
    obtain ⟨s, hs⟩ := h info List.mem_cons_self
    simp only [selectLoop, hs, Except.ok_bind]
    split
    · exact selectLoop_isOk keep alreadyIncluded rest _ _ hrest
    · split
      · exact selectLoop_isOk keep alreadyIncluded rest _ _ hrest
      · split
        · exact selectLoop_isOk keep alreadyIncluded rest _ _ hrest
        · split
          · split
            · exact ⟨mark, rfl⟩
            · exact selectLoop_isOk keep alreadyIncluded rest _ _ hrest
          · exact selectLoop_isOk keep alreadyIncluded rest _ _ hrest

theorem markOption_isOk (keep? : Option Nat) (mark : Marks) (list : List BackupInfo)
    (h : ∀ info ∈ list, ∃ s, selectId info = .ok s) :
    ∃ mark', markOption selectId keep? mark list = .ok mark' := by
  cases keep? with
  | none => exact ⟨mark, rfl⟩
  | some keep =>
    obtain ⟨ids, hids⟩ := collectIncluded_isOk selectId mark list h
    simp only [markOption, markSelections, hids, Except.ok_bind]
    exact selectLoop_isOk selectId keep ids list mark [] h

end MarkSelections

/-! ## Sorting newest first -/

theorem sortList_perm (list : List BackupInfo) (ascending : Bool) :
    (sortList list ascending).Perm list := by
  unfold sortList
  split <;> exact List.mergeSort_perm _ _

theorem mem_sortList {list : List BackupInfo} {ascending : Bool} {info : BackupInfo} :
    info ∈ sortList list ascending ↔ info ∈ list :=
  (sortList_perm list ascending).mem_iff

theorem sortList_newest_first (list : List BackupInfo) :
    (sortList list false).Pairwise fun a b => b.backupTime ≤ a.backupTime := by
  have h : (list.mergeSort fun a b => decide (b.backupTime ≤ a.backupTime)).Pairwise
      fun a b => decide (b.backupTime ≤ a.backupTime) = true :=
    List.pairwise_mergeSort (fun a b c hab hbc => by simp only [decide_eq_true_eq] at *; omega)
      (fun a b => by simp only [Bool.or_eq_true, decide_eq_true_eq]; omega) list
  simpa [sortList] using h

/-! ## The result -/

/-- What `compute_prune_info` promises of its result on the snapshots `list` of one group, for
keep counts adding up to `budget`. -/
structure PruneInfoSpec (list : List BackupInfo) (budget : Nat)
    (out : List (BackupInfo × PruneMark)) : Prop where
  snapshots : (out.map Prod.fst).Perm list
  newest_first : (out.map Prod.fst).Pairwise fun a b => b.backupTime < a.backupTime
  protected_iff : ∀ p ∈ out, p.2 = .protected ↔ p.1.protected = true
  keepPartial_le_one : (out.filter fun p => p.2 = .keepPartial).length ≤ 1
  keepPartial_newest : ∀ p ∈ out, p.2 = .keepPartial → p.1.isFinished = false ∧
    (∀ q ∈ list, q.isFinished = false → q.backupTime ≤ p.1.backupTime) ∧
    (∀ q ∈ list, q.isFinished = true → q.backupTime < p.1.backupTime)
  keep_finished : ∀ p ∈ out, p.2 = .keep → p.1.isFinished = true
  keep_count : (out.filter fun p => p.2 = .keep).length ≤ budget

section Result

variable {list : List BackupInfo} {budget : Nat} {mark₀ mark : Marks}
  (hext : Extends list budget mark₀ mark)
include hext

/-- A mark of the final map is one of `remove_incomplete_snapshots` or a new one of a pass. -/
theorem mark_cases {k : Int} {m : PruneMark} (h : mark k = some m) :
    mark₀ k = some m ∨ (m ≠ .keepPartial ∧
      (m = .protected → ∃ info ∈ list, info.backupTime = k ∧ info.protected)) := by
  cases h₀ : mark₀ k with
  | none => exact .inr (hext.fresh k m h₀ h)
  | some m₀ =>
    have := hext.mono k m₀ h₀
    rw [h] at this
    cases this
    exact .inl rfl

variable (hinc : IncompleteMarks list mark₀)
include hinc

theorem finalMark_eq_protected_iff (hnd : (list.map BackupInfo.backupTime).Nodup)
    {info : BackupInfo} (hinfo : info ∈ list) :
    finalMark mark info = .protected ↔ info.protected = true := by
  unfold finalMark
  split
  · simpa
  · rename_i hprot
    simp only [hprot, Bool.false_eq_true, iff_false]
    intro h
    have hm : mark info.backupTime = some .protected := by
      cases hk : mark info.backupTime <;> simp_all
    rcases mark_cases hext hm with h₀ | ⟨-, hp⟩
    · rcases hinc.values _ _ h₀ with h | h <;> cases h
    · obtain ⟨info', hinfo', ht, hp'⟩ := hp rfl
      have : info' = info := List.inj_on_of_nodup_map hnd hinfo' hinfo ht
      exact hprot (this ▸ hp')

theorem finalMark_ne_keep_of_unfinished {info : BackupInfo} (hinfo : info ∈ list)
    (hf : info.isFinished = false) : finalMark mark info ≠ .keep := by
  unfold finalMark
  split
  · simp
  · rcases hinc.unfinished info hinfo hf with h₀ | h₀ <;>
      simp [hext.mono _ _ h₀]

/-- Only the newest snapshot, when it is unfinished, ends up marked `KeepPartial`. -/
theorem finalMark_keepPartial (hnd : (list.map BackupInfo.backupTime).Nodup)
    {info : BackupInfo} (hinfo : info ∈ list)
    (h : finalMark mark info = .keepPartial) :
    ∃ rest, list = info :: rest ∧ info.isFinished = false := by
  unfold finalMark at h
  split at h
  · cases h
  · have hm : mark info.backupTime = some .keepPartial := by
      cases hk : mark info.backupTime <;> simp_all
    rcases mark_cases hext hm with h₀ | ⟨hne, -⟩
    · obtain ⟨first, rest, rfl, ht, hf⟩ := hinc.keepPartial _ h₀
      have : first = info := List.inj_on_of_nodup_map hnd List.mem_cons_self hinfo ht
      exact ⟨rest, this ▸ rfl, this ▸ hf⟩
    · exact absurd rfl hne

end Result


/-- The number of snapshots whose mark in the map is `Keep` is the number of their times. -/
theorem length_filter_keep (list : List BackupInfo) (mark : Marks)
    (hnd : (list.map BackupInfo.backupTime).Nodup) :
    (list.filter fun info => mark info.backupTime = some .keep).length =
      (keepKeys list mark).card := by
  have hmap : (list.map BackupInfo.backupTime).filter (fun k => mark k = some .keep) =
      (list.filter fun info => mark info.backupTime = some .keep).map BackupInfo.backupTime := by
    rw [List.filter_map]
    rfl
  rw [keepKeys, List.filter_toFinset, List.toFinset_card_of_nodup (hnd.filter _), hmap,
    List.length_map]

theorem keepKeys_eq_empty {list L : List BackupInfo} {mark₀ : Marks}
    (hinc : IncompleteMarks list mark₀) : keepKeys L mark₀ = ∅ := by
  ext k
  simp only [keepKeys, Finset.mem_filter, Finset.notMem_empty, iff_false, not_and]
  intro _ hk
  rcases hinc.values k _ hk with h | h <;> cases h

/-- **The result of `compute_prune_info`**, from the sorted list and the final marks. -/
theorem pruneInfoSpec_of_marks {list L : List BackupInfo} {budget : Nat} {mark₀ mark : Marks}
    (hperm : L.Perm list) (hsorted : L.Pairwise fun a b => b.backupTime ≤ a.backupTime)
    (hnd : (list.map BackupInfo.backupTime).Nodup)
    (hinc : IncompleteMarks L mark₀) (hext : Extends L budget mark₀ mark) :
    PruneInfoSpec list budget (L.map fun info => (info, finalMark mark info)) := by
  have hndL : (L.map BackupInfo.backupTime).Nodup := ((hperm.map _).nodup_iff).mpr hnd
  have hfst : (L.map fun info => (info, finalMark mark info)).map Prod.fst = L := by
    simp [List.map_map, Function.comp_def]
  refine ⟨by rw [hfst]; exact hperm, ?_, ?_, ?_, ?_, ?_, ?_⟩
  · -- newest first, strictly since the times are distinct
    rw [hfst]
    exact (hsorted.and (List.pairwise_map.mp hndL)).imp fun h => lt_of_le_of_ne h.1 (Ne.symm h.2)
  · intro p hp
    obtain ⟨info, hinfo, rfl⟩ := List.mem_map.mp hp
    exact finalMark_eq_protected_iff hext hinc hndL hinfo
  · -- every entry marked `KeepPartial` is the newest snapshot
    have hnodup : (L.map fun info => (info, finalMark mark info)).Nodup :=
      List.Nodup.of_map Prod.fst (by rw [hfst]; exact hndL.of_map _)
    cases L with
    | nil => simp
    | cons first rest =>
      refine ((hnodup.filter _).subperm
        (show _ ⊆ [(first, PruneMark.keepPartial)] from fun p hp => ?_)).length_le
      obtain ⟨hp, hk⟩ := List.mem_filter.mp hp
      obtain ⟨info, hinfo, rfl⟩ := List.mem_map.mp hp
      obtain ⟨rest', heq, -⟩ := finalMark_keepPartial hext hinc hndL hinfo (by simpa using hk)
      simp only [List.cons.injEq] at heq
      simp only [heq.1, List.mem_singleton, Prod.mk.injEq, true_and]
      simpa using hk
  · intro p hp hk
    obtain ⟨info, hinfo, rfl⟩ := List.mem_map.mp hp
    obtain ⟨rest, rfl, hf⟩ := finalMark_keepPartial hext hinc hndL hinfo hk
    have hafter : ∀ q ∈ rest, q.backupTime < info.backupTime := by
      intro q hq
      have hle := (List.pairwise_cons.mp hsorted).1 q hq
      have hne : q.backupTime ≠ info.backupTime := by
        intro h
        exact (List.nodup_cons.mp hndL).1 (h ▸ List.mem_map_of_mem hq)
      omega
    refine ⟨hf, fun q hq _ => ?_, fun q hq hqf => ?_⟩
    · rcases List.mem_cons.mp (hperm.mem_iff.mpr hq) with rfl | hq'
      · exact le_refl _
      · exact (hafter q hq').le
    · rcases List.mem_cons.mp (hperm.mem_iff.mpr hq) with rfl | hq'
      · simp [hf] at hqf
      · exact hafter q hq'
  · intro p hp hk
    obtain ⟨info, hinfo, rfl⟩ := List.mem_map.mp hp
    by_contra hf
    exact finalMark_ne_keep_of_unfinished hext hinc hinfo (by simpa using hf) hk
  · -- every snapshot kept is marked `Keep` in the map, and the passes keep at most `budget`
    calc (List.filter (fun p => p.2 = PruneMark.keep)
            (L.map fun info => (info, finalMark mark info))).length
        = (L.filter fun info => finalMark mark info = .keep).length := by
          rw [List.filter_map, List.length_map]
          rfl
      _ ≤ (L.filter fun info => mark info.backupTime = some .keep).length := by
          refine (List.monotone_filter_right L fun info h => ?_).length_le
          simp only [decide_eq_true_eq, finalMark] at h ⊢
          split at h
          · cases h
          · cases hk : mark info.backupTime <;> simp_all
      _ = (keepKeys L mark).card := length_filter_keep L mark hndL
      _ ≤ (keepKeys L mark₀).card + budget := hext.keep_card
      _ = budget := by simp [keepKeys_eq_empty hinc]


/-- Every successful run of `compute_prune_info` on snapshots with distinct backup times
satisfies `PruneInfoSpec`, whatever the selection ids are. -/
theorem computePruneInfo_ok {tf : TimeFormat} {list : List BackupInfo} {options : KeepOptions}
    {out : List (BackupInfo × PruneMark)} (hnd : (list.map BackupInfo.backupTime).Nodup)
    (h : computePruneInfo tf list options = .ok out) : PruneInfoSpec list options.budget out := by
  simp only [computePruneInfo] at h
  obtain ⟨m₁, h₁, h⟩ := Except.bind_eq_ok.mp h
  obtain ⟨m₂, h₂, h⟩ := Except.bind_eq_ok.mp h
  obtain ⟨m₃, h₃, h⟩ := Except.bind_eq_ok.mp h
  obtain ⟨m₄, h₄, h⟩ := Except.bind_eq_ok.mp h
  obtain ⟨m₅, h₅, h⟩ := Except.bind_eq_ok.mp h
  obtain ⟨m₆, h₆, h⟩ := Except.bind_eq_ok.mp h
  simp only [Except.pure_eq_ok, Except.ok.injEq] at h
  subst h
  -- the six passes in order, their budgets adding up as in `KeepOptions.budget`
  have hext := (((((markOption_extends _ h₁).trans (markOption_extends _ h₂)).trans
    (markOption_extends _ h₃)).trans (markOption_extends _ h₄)).trans
    (markOption_extends _ h₅)).trans (markOption_extends _ h₆)
  exact pruneInfoSpec_of_marks (sortList_perm list false) (sortList_newest_first list) hnd
    (removeIncompleteSnapshots_marks _) hext

/-- `compute_prune_info` fails only when the time formatting does. -/
theorem computePruneInfo_isOk (tf : TimeFormat) (list : List BackupInfo) (options : KeepOptions)
    (hfmt : ∀ fmt, ∀ info ∈ list, ∃ s, tf.strftimeLocal fmt info.backupTime = .ok s) :
    ∃ out, computePruneInfo tf list options = .ok out := by
  have hfmt' : ∀ fmt, ∀ info ∈ sortList list false,
      ∃ s, tf.strftimeLocal fmt info.backupTime = .ok s :=
    fun fmt info hinfo => hfmt fmt info (mem_sortList.mp hinfo)
  obtain ⟨m₁, h₁⟩ := markOption_isOk (fun info => pure (tf.epochToRfc3339Utc info.backupTime))
    options.keepLast (removeIncompleteSnapshots (fun _ => none) (sortList list false))
    (sortList list false) fun _ _ => ⟨_, rfl⟩
  obtain ⟨m₂, h₂⟩ := markOption_isOk (fun info => tf.strftimeLocal "%Y/%m/%d/%H" info.backupTime)
    options.keepHourly m₁ _ (hfmt' _)
  obtain ⟨m₃, h₃⟩ := markOption_isOk (fun info => tf.strftimeLocal "%Y/%m/%d" info.backupTime)
    options.keepDaily m₂ _ (hfmt' _)
  obtain ⟨m₄, h₄⟩ := markOption_isOk (fun info => tf.strftimeLocal "%G/%V" info.backupTime)
    options.keepWeekly m₃ _ (hfmt' _)
  obtain ⟨m₅, h₅⟩ := markOption_isOk (fun info => tf.strftimeLocal "%Y/%m" info.backupTime)
    options.keepMonthly m₄ _ (hfmt' _)
  obtain ⟨m₆, h₆⟩ := markOption_isOk (fun info => tf.strftimeLocal "%Y" info.backupTime)
    options.keepYearly m₅ _ (hfmt' _)
  exact ⟨_, by simp only [computePruneInfo, h₁, h₂, h₃, h₄, h₅, h₆, Except.ok_bind]; rfl⟩

/-- **`compute_prune_info`** returns, for snapshots of one group with distinct backup times,
the snapshots newest first, each with a mark as `PruneInfoSpec` describes. -/
theorem computePruneInfo_spec (tf : TimeFormat) (list : List BackupInfo) (options : KeepOptions)
    (hnd : (list.map BackupInfo.backupTime).Nodup)
    (hfmt : ∀ fmt, ∀ info ∈ list, ∃ s, tf.strftimeLocal fmt info.backupTime = .ok s) :
    ∃ out, computePruneInfo tf list options = .ok out ∧ PruneInfoSpec list options.budget out := by
  obtain ⟨out, h⟩ := computePruneInfo_isOk tf list options hfmt
  exact ⟨out, h, computePruneInfo_ok hnd h⟩

/-- `compute_prune_info` on a protected finished snapshot and an older unprotected unfinished
one, with `keep-last 1` and the time rendered in decimal. -/
theorem computePruneInfo_spec_protected_partial :
    ([BackupInfo.mk 20 [manifestBlobName] true, BackupInfo.mk 10 [] false].map
        BackupInfo.backupTime).Nodup ∧
      (∀ fmt, ∀ info ∈ [BackupInfo.mk 20 [manifestBlobName] true, BackupInfo.mk 10 [] false],
        ∃ s, (TimeFormat.mk toString fun _ t => .ok (toString t)).strftimeLocal fmt
          info.backupTime = .ok s) ∧
      ∃ out, computePruneInfo ⟨toString, fun _ t => .ok (toString t)⟩
          [BackupInfo.mk 20 [manifestBlobName] true, BackupInfo.mk 10 [] false]
          { keepLast := some 1 } = .ok out ∧
        PruneInfoSpec [BackupInfo.mk 20 [manifestBlobName] true, BackupInfo.mk 10 [] false]
          ({ keepLast := some 1 } : KeepOptions).budget out :=
  ⟨by decide, fun _ _ _ => ⟨_, rfl⟩,
    computePruneInfo_spec _ _ _ (by decide) fun _ _ _ => ⟨_, rfl⟩⟩

end ProxmoxBackup.Prune
