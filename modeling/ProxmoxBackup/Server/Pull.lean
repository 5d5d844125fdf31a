import ProxmoxBackup.Foundations.Except
import Mathlib.Data.List.Sort

/-!
# Pulling a backup group (`src/server/pull.rs`)

`pull_group` lists the snapshots of a group on the remote, sorts them oldest first and selects
the ones to transfer with a filter closure that carries two `SkipInfo` counters: snapshots
older than the last local snapshot are skipped as already synced, and with `transfer_last` the
snapshots before the cutoff position are skipped too. With `remove_vanished` it then deletes the
local snapshots that are not on the remote and not protected.

The remote snapshots of one group are identified by their backup times. Reading the remote,
pulling one snapshot and deleting one local snapshot are done by code outside this function and
are parameters.

* `filterLoop_fst`, `pullGroup_transferred`: the snapshots transferred are those `transferRule`
  admits: every snapshot not older than the last local one that lies at or after the cutoff or
  has its time, *and* the first snapshot after an already synced one, wherever the cutoff
  lies.
* `pullGroup_transfer_last_first_newer`: the divergence from "only the last N" at a concrete
  input.
* `pullGroup_removed`: with `remove_vanished`, the local snapshots removed are exactly the
  unprotected ones whose time is not among the remote times.
-/

namespace ProxmoxBackup.Pull

/-- `i64::MIN`, the last sync time of a group that has no local snapshot. -/
def i64Min : Int := -2 ^ 63

/-- `SkipReason`. -/
inductive SkipReason where
  | alreadySynced
  | transferLast
  deriving DecidableEq, Repr

/-- `SkipInfo`: how many snapshots were skipped, and the oldest and newest of them. -/
structure SkipInfo where
  oldest : Int
  newest : Int
  count : Nat
  skipReason : SkipReason
  deriving DecidableEq, Repr

/-- `SkipInfo::new`. -/
def SkipInfo.new (skipReason : SkipReason) : SkipInfo :=
  ⟨2 ^ 63 - 1, i64Min, 0, skipReason⟩

/-- `SkipInfo::reset`. -/
def SkipInfo.reset (info : SkipInfo) : SkipInfo :=
  { info with count := 0, oldest := 2 ^ 63 - 1, newest := i64Min }

/-- `SkipInfo::update`. -/
def SkipInfo.update (info : SkipInfo) (backupTime : Int) : SkipInfo :=
  { info with
    count := info.count + 1
    oldest := if backupTime < info.oldest then backupTime else info.oldest
    newest := if backupTime > info.newest then backupTime else info.newest }

@[simp] theorem SkipInfo.count_new (r : SkipReason) : (SkipInfo.new r).count = 0 := rfl

@[simp] theorem SkipInfo.count_reset (info : SkipInfo) : info.reset.count = 0 := rfl

@[simp] theorem SkipInfo.count_update (info : SkipInfo) (t : Int) :
    (info.update t).count = info.count + 1 := rfl

/-- The state the filter closure of `pull_group` mutates: the two skip counters and the set
`source_snapshots` of all remote backup times seen. -/
structure FilterState where
  alreadySynced : SkipInfo
  transferLast : SkipInfo
  sourceSnapshots : List Int

/-- The state before the filter runs. -/
def FilterState.init : FilterState :=
  ⟨SkipInfo.new .alreadySynced, SkipInfo.new .transferLast, []⟩

/-- The filter closure of `pull_group` on the snapshot at position `pos`: whether it is
transferred, and the new state. The logging of the two counters is left out. -/
def filterStep (cutoff : Nat) (lastSyncTime : Int) (st : FilterState) (pos : Nat)
    (time : Int) : Bool × FilterState :=
  let st := { st with sourceSnapshots := st.sourceSnapshots.insert time }
  if lastSyncTime > time then (false, { st with alreadySynced := st.alreadySynced.update time })
  else if st.alreadySynced.count > 0 then (true, { st with alreadySynced := st.alreadySynced.reset })
  else if pos < cutoff ∧ lastSyncTime ≠ time then
    (false, { st with transferLast := st.transferLast.update time })
  else if st.transferLast.count > 0 then (true, { st with transferLast := st.transferLast.reset })
  else (true, st)

/-- The `filter` over `raw_list.into_iter().enumerate()`, from position `pos` on. -/
def filterLoop (cutoff : Nat) (lastSyncTime : Int) :
    FilterState → Nat → List Int → List Int × FilterState
  | st, _, [] => ([], st)
  | st, pos, time :: rest =>
    let (keep, st') := filterStep cutoff lastSyncTime st pos time
    let (list, st'') := filterLoop cutoff lastSyncTime st' (pos + 1) rest
    (if keep then time :: list else list, st'')

/-- The transfer loop: every selected snapshot is pulled, oldest first, stopping at the first
error. -/
def transferLoop (pullSnapshotFrom : Int → Except String Unit) : List Int → Except String Unit
  | [] => pure ()
  | time :: rest => do
    pullSnapshotFrom time
    transferLoop pullSnapshotFrom rest

/-- The `remove_vanished` loop over the local snapshots (time, protected): the ones removed. -/
def removeVanishedLoop (removeBackupDir : Int → Except String Unit) (sourceSnapshots : List Int) :
    List (Int × Bool) → Except String (List Int)
  | [] => pure []
  | (time, isProtected) :: rest =>
    if time ∈ sourceSnapshots then removeVanishedLoop removeBackupDir sourceSnapshots rest
    else if isProtected then removeVanishedLoop removeBackupDir sourceSnapshots rest
    else do
      removeBackupDir time
      let removed ← removeVanishedLoop removeBackupDir sourceSnapshots rest
      pure (time :: removed)

/-- `pull_group`, on the remote snapshot times `rawList`, the result of
`last_successful_backup` of the target group and its local snapshots `localList`: the
snapshots transferred, oldest first, and the local snapshots removed. -/
def pullGroup (pullSnapshotFrom removeBackupDir : Int → Except String Unit)
    (rawList : List Int) (transferLast : Option Nat) (lastSuccessfulBackup : Option Int)
    (removeVanished : Bool) (localList : List (Int × Bool)) :
    Except String (List Int × List Int) := do
  let rawList := rawList.mergeSort fun a b => a ≤ b
  let totalAmount := rawList.length
  let cutoff := (transferLast.map fun count => totalAmount - count).getD 0
  let lastSyncTime := lastSuccessfulBackup.getD i64Min
  let selection := filterLoop cutoff lastSyncTime FilterState.init 0 rawList
  transferLoop pullSnapshotFrom selection.1
  if removeVanished then
    let removed ← removeVanishedLoop removeBackupDir selection.2.sourceSnapshots localList
    pure (selection.1, removed)
  else pure (selection.1, [])

/-! ## One step of the filter -/

section Step

variable (cutoff : Nat) (lastSyncTime : Int) (st : FilterState) (pos : Nat) (time : Int)

theorem filterStep_sourceSnapshots :
    (filterStep cutoff lastSyncTime st pos time).2.sourceSnapshots =
      st.sourceSnapshots.insert time := by
  simp only [filterStep]
  split_ifs <;> rfl

/-- A snapshot older than the last local one is skipped as already synced. -/
theorem filterStep_old (h : time < lastSyncTime) :
    (filterStep cutoff lastSyncTime st pos time).1 = false ∧
      (filterStep cutoff lastSyncTime st pos time).2.alreadySynced.count =
        st.alreadySynced.count + 1 := by
  simp [filterStep, h]

/-- The first snapshot after already synced ones is transferred before the cutoff is looked
at. -/
theorem filterStep_first_newer (h : lastSyncTime ≤ time) (hc : 0 < st.alreadySynced.count) :
    (filterStep cutoff lastSyncTime st pos time).1 = true ∧
      (filterStep cutoff lastSyncTime st pos time).2.alreadySynced.count = 0 := by
  simp [filterStep, not_lt.mpr h, hc]

/-- Any other snapshot not older than the last local one is transferred when it lies at or
after the cutoff or has the last sync time. -/
theorem filterStep_newer (h : lastSyncTime ≤ time) (hc : st.alreadySynced.count = 0) :
    (filterStep cutoff lastSyncTime st pos time).1 = decide (cutoff ≤ pos ∨ time = lastSyncTime) ∧
      (filterStep cutoff lastSyncTime st pos time).2.alreadySynced.count = 0 := by
  simp only [filterStep]
  by_cases hcut : pos < cutoff ∧ lastSyncTime ≠ time
  · have : ¬(cutoff ≤ pos ∨ time = lastSyncTime) := by omega
    simp [not_lt.mpr h, hc, hcut, this]
  · have : cutoff ≤ pos ∨ time = lastSyncTime := by omega
    simp only [gt_iff_lt, not_lt.mpr h, if_false, hc, lt_self_iff_false, hcut, this,
      decide_true]
    split <;> simp [hc]

end Step

theorem filterLoop_cons (cutoff : Nat) (lastSyncTime : Int) (st : FilterState) (pos : Nat)
    (time : Int) (rest : List Int) :
    filterLoop cutoff lastSyncTime st pos (time :: rest) =
      ((if (filterStep cutoff lastSyncTime st pos time).1 then
          time :: (filterLoop cutoff lastSyncTime (filterStep cutoff lastSyncTime st pos time).2
            (pos + 1) rest).1
        else (filterLoop cutoff lastSyncTime (filterStep cutoff lastSyncTime st pos time).2
            (pos + 1) rest).1),
        (filterLoop cutoff lastSyncTime (filterStep cutoff lastSyncTime st pos time).2
          (pos + 1) rest).2) := rfl

/-! ## The whole filter -/

/-- The rule the filter implements on remote times sorted oldest first, for the snapshot with
time `x.1` at position `x.2`, when the loop started at position `pos` after `c` already synced
snapshots and the `j` snapshots it meets first are older than the last sync time `L`: it is not
older than `L`, and it lies at or after the cutoff, has time `L`, or is the first snapshot after
an already synced one. -/
def transferRule (cutoff : Nat) (L : Int) (pos j c : Nat) (x : Int × Nat) : Bool :=
  decide (L ≤ x.1 ∧ (cutoff ≤ x.2 ∨ x.1 = L ∨ (x.2 = pos + j ∧ 0 < c + j)))

/-- After an already synced snapshot the rule is the same one position further. -/
theorem transferRule_old (cutoff : Nat) (L : Int) (pos j c : Nat) (x : Int × Nat) :
    transferRule cutoff L (pos + 1) j (c + 1) x = transferRule cutoff L pos (j + 1) c x := by
  simp only [transferRule, decide_eq_decide]
  omega

/-- Past the first position, with no older snapshot left, the skip count does not matter. -/
theorem transferRule_newer (cutoff : Nat) (L : Int) (pos c : Nat) {x : Int × Nat}
    (hx : pos + 1 ≤ x.2) : transferRule cutoff L (pos + 1) 0 0 x = transferRule cutoff L pos 0 c x := by
  simp only [transferRule, decide_eq_decide]
  omega

/-- **The selection of `pull_group`**, from any position and skip count, on remote times
sorted oldest first: the snapshots that `transferRule` admits. -/
theorem filterLoop_fst (cutoff : Nat) (L : Int) :
    ∀ (rest : List Int) (st : FilterState) (pos : Nat), rest.Pairwise (· ≤ ·) →
      (filterLoop cutoff L st pos rest).1 =
        ((rest.zipIdx pos).filter (transferRule cutoff L pos (rest.filter (· < L)).length
          st.alreadySynced.count)).map Prod.fst
  | [], _, _, _ => by simp [filterLoop]
  | time :: rest, st, pos, hs => by
    obtain ⟨hhead, hrest⟩ := List.pairwise_cons.mp hs
    rw [filterLoop_cons, List.zipIdx_cons, List.filter_cons]
    by_cases hold : time < L
    · -- skipped as already synced: one older snapshot fewer ahead, one more behind
      obtain ⟨h₁, h₂⟩ := filterStep_old cutoff L st pos time hold
      have hj : ((time :: rest).filter (· < L)).length = (rest.filter (· < L)).length + 1 := by
        simp [hold]
      have hhd : transferRule cutoff L pos ((time :: rest).filter (· < L)).length
          st.alreadySynced.count (time, pos) = false := by
        simp only [transferRule, decide_eq_false_iff_not]
        omega
      rw [h₁, hhd, filterLoop_fst cutoff L rest _ (pos + 1) hrest, h₂, hj]
      simp only [Bool.false_eq_true, if_false]
      congr 1
      exact List.filter_congr fun x _ => transferRule_old cutoff L pos _ _ x
    · -- not older, and neither is the rest, the times being sorted
      have hL : L ≤ time := by omega
      have hnil : rest.filter (· < L) = [] :=
        List.filter_eq_nil_iff.mpr fun x hx => by have := hhead x hx; simp; omega
      have hnil' : (time :: rest).filter (· < L) = [] := by simp [hold, hnil]
      have htail : ∀ c, (rest.zipIdx (pos + 1)).filter (transferRule cutoff L (pos + 1) 0 0) =
          (rest.zipIdx (pos + 1)).filter (transferRule cutoff L pos 0 c) := fun c =>
        List.filter_congr fun x hx =>
          transferRule_newer cutoff L pos c (List.le_snd_of_mem_zipIdx hx)
      rcases Nat.eq_zero_or_pos st.alreadySynced.count with hc | hc
      · obtain ⟨h₁, h₂⟩ := filterStep_newer cutoff L st pos time hL hc
        rw [h₁, filterLoop_fst cutoff L rest _ (pos + 1) hrest, h₂, hnil', hnil, List.length_nil,
          htail st.alreadySynced.count]
        have hhd : transferRule cutoff L pos 0 st.alreadySynced.count (time, pos) =
            decide (cutoff ≤ pos ∨ time = L) := by
          simp only [transferRule, hc, decide_eq_decide]
          omega
        rw [hhd]
        split <;> rfl
      · obtain ⟨h₁, h₂⟩ := filterStep_first_newer cutoff L st pos time hL hc
        have hhd : transferRule cutoff L pos 0 st.alreadySynced.count (time, pos) = true := by
          simp only [transferRule, decide_eq_true_eq]
          omega
        rw [h₁, filterLoop_fst cutoff L rest _ (pos + 1) hrest, h₂, hnil', hnil, List.length_nil,
          htail st.alreadySynced.count, hhd]
        rfl

theorem filterLoop_sourceSnapshots (cutoff : Nat) (L : Int) :
    ∀ (rest : List Int) (st : FilterState) (pos : Nat) (t : Int),
      t ∈ (filterLoop cutoff L st pos rest).2.sourceSnapshots ↔ t ∈ st.sourceSnapshots ∨ t ∈ rest
  | [], _, _, _ => by simp [filterLoop]
  | time :: rest, st, pos, t => by
    rw [filterLoop_cons, filterLoop_sourceSnapshots cutoff L rest _ (pos + 1) t,
      filterStep_sourceSnapshots]
    rw [List.mem_insert_iff, List.mem_cons]
    tauto

/-! ## `remove_vanished` -/

theorem removeVanishedLoop_ok (removeBackupDir : Int → Except String Unit)
    (sourceSnapshots : List Int) :
    ∀ (localList : List (Int × Bool)) (removed : List Int),
      removeVanishedLoop removeBackupDir sourceSnapshots localList = .ok removed →
        removed = (localList.filter fun x => x.1 ∉ sourceSnapshots ∧ x.2 = false).map Prod.fst
  | [], removed, h => by
    simp only [removeVanishedLoop, Except.pure_eq_ok, Except.ok.injEq] at h
    simp [← h]
  | (time, isProtected) :: rest, removed, h => by
    simp only [removeVanishedLoop] at h
    split at h
    · rename_i hmem
      simp [hmem, removeVanishedLoop_ok removeBackupDir sourceSnapshots rest removed h]
    · rename_i hmem
      split at h
      · rename_i hprot
        simp [hmem, hprot, removeVanishedLoop_ok removeBackupDir sourceSnapshots rest removed h]
      · rename_i hprot
        obtain ⟨_, -, h⟩ := Except.bind_eq_ok.mp h
        obtain ⟨removed', h', h⟩ := Except.bind_eq_ok.mp h
        simp only [Except.pure_eq_ok, Except.ok.injEq] at h
        simp [← h, hmem, hprot, removeVanishedLoop_ok removeBackupDir sourceSnapshots rest _ h']

/-! ## `pull_group` -/

section PullGroup

variable (pullSnapshotFrom removeBackupDir : Int → Except String Unit) (rawList : List Int)
  (transferLast : Option Nat) (lastSuccessfulBackup : Option Int) (removeVanished : Bool)
  (localList : List (Int × Bool))

/-- **The snapshots `pull_group` transfers**: those of the remote list, sorted oldest first,
that `transferRule` admits from position `0`, where the already synced snapshots are the
remote ones older than the last local snapshot. -/
theorem pullGroup_transferred {list removed : List Int}
    (h : pullGroup pullSnapshotFrom removeBackupDir rawList transferLast lastSuccessfulBackup
      removeVanished localList = .ok (list, removed)) :
    list = (((rawList.mergeSort fun a b => a ≤ b).zipIdx).filter
      (transferRule ((transferLast.map fun count => rawList.length - count).getD 0)
        (lastSuccessfulBackup.getD i64Min) 0
        ((rawList.mergeSort fun a b => a ≤ b).filter (· < lastSuccessfulBackup.getD i64Min)).length
        0)).map Prod.fst := by
  have hsorted : (rawList.mergeSort fun a b => a ≤ b).Pairwise (· ≤ ·) := by
    have h : (rawList.mergeSort fun a b => decide (a ≤ b)).Pairwise
        fun a b => decide (a ≤ b) = true :=
      List.pairwise_mergeSort (fun a b c hab hbc => by simp only [decide_eq_true_eq] at *; omega)
        (fun a b => by simp only [Bool.or_eq_true, decide_eq_true_eq]; omega) rawList
    simpa using h
  simp only [pullGroup] at h
  obtain ⟨_, -, h⟩ := Except.bind_eq_ok.mp h
  have hlist : list = (filterLoop ((transferLast.map fun count =>
      (rawList.mergeSort fun a b => a ≤ b).length - count).getD 0)
      (lastSuccessfulBackup.getD i64Min) FilterState.init 0
      (rawList.mergeSort fun a b => a ≤ b)).1 := by
    split at h
    · obtain ⟨_, -, h⟩ := Except.bind_eq_ok.mp h
      simp only [Except.pure_eq_ok, Except.ok.injEq, Prod.mk.injEq] at h
      exact h.1.symm
    · simp only [Except.pure_eq_ok, Except.ok.injEq, Prod.mk.injEq] at h
      exact h.1.symm
  rw [hlist, filterLoop_fst _ _ _ _ _ hsorted, List.length_mergeSort]
  rfl

/-- **The local snapshots `pull_group` removes** with `remove_vanished`: exactly the unprotected
ones whose backup time is not among the remote times. -/
theorem pullGroup_removed {list removed : List Int}
    (h : pullGroup pullSnapshotFrom removeBackupDir rawList transferLast lastSuccessfulBackup
      true localList = .ok (list, removed)) :
    removed = (localList.filter fun x => x.1 ∉ rawList ∧ x.2 = false).map Prod.fst := by
  simp only [pullGroup] at h
  obtain ⟨_, -, h⟩ := Except.bind_eq_ok.mp h
  simp only [if_true] at h
  obtain ⟨removed', h', h⟩ := Except.bind_eq_ok.mp h
  simp only [Except.pure_eq_ok, Except.ok.injEq, Prod.mk.injEq] at h
  rw [← h.2, removeVanishedLoop_ok _ _ _ _ h']
  congr 1
  apply List.filter_congr
  intro x _
  simp only [filterLoop_sourceSnapshots, FilterState.init, List.not_mem_nil, false_or,
    List.mem_mergeSort]

/-- `pull_group` with `transfer-last 1`, remote snapshots at times 1, 3, 4 and 5 and the last
local snapshot at time 2, which is not on the remote: the snapshot at time 3 follows an already
synced one and is transferred along with the newest one. -/
theorem pullGroup_transfer_last_first_newer :
    pullGroup (fun _ => pure ()) (fun _ => pure ()) [1, 3, 4, 5] (some 1) (some 2) false [] =
      .ok ([3, 5], []) := by
  simp only [pullGroup, List.mergeSort_of_pairwise
    (show [(1 : Int), 3, 4, 5].Pairwise (fun a b => decide (a ≤ b)) by decide)]
  decide

end PullGroup

end ProxmoxBackup.Pull
