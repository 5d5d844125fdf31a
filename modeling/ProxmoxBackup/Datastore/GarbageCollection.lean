import ProxmoxBackup.Foundations.Runs
import ProxmoxBackup.Foundations.LittleEndian
import Mathlib.Data.List.AList
import Mathlib.Order.MinMax

/-!
# Garbage collection against concurrent backups (`pbs-datastore/src/datastore.rs`, `chunk_store.rs`)

A garbage collection run marks the chunks the index files of the datastore reference, by setting
their access time to now, and then unlinks every chunk file whose access time is older than a
cutoff: 24 hours (and 5 minutes) before the run started, or earlier still if an index writer
holds its shared lock on the chunk store since before then. Backup sessions, snapshot removals
and the run itself interleave: the state is the chunk store (each chunk file with its access
time), the index files of the snapshots, the running backup sessions and the phase of the run;
each party's action is an `Event`, and a history is any list of them (`Runs.run step`).

What the design guarantees (`gc_keeps_chunks_touched_since_oldest_writer`): once the run has
started, a chunk whose access time is at least the oldest writer's lock time is never unlinked by
it, whatever happens in between. The chunks the run marks, and those the backups write or touch
while they hold a lock, are such chunks.

What it does not: a backup reuses the chunks of its base snapshot without touching them, and the
run lists the index files when it starts. `gc_unlinks_reused_chunk` is a history in which a
backup that finishes successfully writes its index after the listing, the base snapshot is then
pruned before the run reads its index, and the run unlinks a chunk the new index references.
-/

namespace ProxmoxBackup.Gc

/-- A running backup session, as garbage collection sees it: the snapshot it writes, the base
snapshot it reuses chunks from (locked while the session runs), the time its open index writer
took its shared lock on the chunk store, and the chunks it may reference. -/
structure Session where
  snapshot : Nat
  base : Option Nat
  writerLock : Option Int
  known : List Nat

/-- The phase of the garbage collection run: not started, marking the listed index files (with
the run's start time and the oldest writer's lock time), sweeping the chunk files with the
cutoff, or finished. -/
inductive Phase where
  | idle
  | marking (phase1Start oldestWriter : Int) (images : List Nat)
  | sweeping (minAtime : Int) (chunks : List Nat)
  | done
  deriving DecidableEq

structure Store where
  now : Int
  /-- The chunk files by digest, with their access times. -/
  chunks : AList (fun _ : Nat => Int)
  /-- The index files by snapshot, with the digests they reference. -/
  indexes : AList (fun _ : Nat => List Nat)
  sessions : AList (fun _ : Nat => Session)
  gc : Phase
  /-- The chunks the run unlinked, in order. -/
  unlinked : List Nat

/-- The actions of the parties: time passing, the steps of the garbage collection run, the
requests of backup session `sid`, and the removal (forget or prune) of a snapshot. -/
inductive Event where
  | tick (dt : Nat)
  | gcStart
  | gcMark
  | gcSweep
  | backupStart (sid snapshot : Nat) (base : Option Nat)
  | createWriter (sid : Nat)
  | upload (sid digest : Nat)
  | reuse (sid digest : Nat)
  | closeWriter (sid : Nat)
  | finish (sid : Nat)
  | forget (snapshot : Nat)

/-- `cond_touch_chunk(digest, false)`: set the access time of the chunk file to now, if there is
one. -/
def touchChunk (now : Int) (chunks : AList (fun _ : Nat => Int)) (digest : Nat) :
    AList (fun _ : Nat => Int) :=
  match chunks.lookup digest with
  | some _ => chunks.insert digest now
  | none => chunks

/-- `insert_chunk`: a chunk file that exists is touched, a new one is written; either way its
access time is now. -/
def insertChunk (now : Int) (chunks : AList (fun _ : Nat => Int)) (digest : Nat) :
    AList (fun _ : Nat => Int) :=
  chunks.insert digest now

/-- `sweep_unused_chunks`' cutoff: 24 hours before the start of the run, or the oldest writer's
lock time if that is earlier, and 5 minutes more. -/
def minAtime (phase1Start oldestWriter : Int) : Int :=
  (if oldestWriter < phase1Start - 3600 * 24 then oldestWriter else phase1Start - 3600 * 24) - 300

namespace Store

/-- `oldest_shared_lock`: the earliest lock time of the open index writers. -/
def oldestWriter (s : Store) : Option Int :=
  (s.sessions.entries.filterMap fun e => e.2.writerLock).min?

/-- Start the run: note its start time and the oldest writer (the start time if there is none),
and list the index files. -/
def gcStart (s : Store) : Store × Bool :=
  match s.gc with
  | .idle => ({ s with gc := .marking s.now (s.oldestWriter.getD s.now) s.indexes.keys }, true)
  | _ => (s, false)

/-- Mark the next listed index file: touch its chunks, or skip it if it vanished since it was
listed. After the last one the sweep starts, over the chunk files there are then. -/
def gcMark (s : Store) : Store × Bool :=
  match s.gc with
  | .marking t ow (image :: images) =>
    match s.indexes.lookup image with
    | some digests =>
      ({ s with chunks := digests.foldl (touchChunk s.now) s.chunks, gc := .marking t ow images },
        true)
    | none => ({ s with gc := .marking t ow images }, true)
  | .marking t ow [] => ({ s with gc := .sweeping (minAtime t ow) s.chunks.keys }, true)
  | _ => (s, false)

/-- Sweep the next chunk file: unlink it if its access time is older than the cutoff. -/
def gcSweep (s : Store) : Store × Bool :=
  match s.gc with
  | .sweeping m (digest :: rest) =>
    match s.chunks.lookup digest with
    | some atime =>
      if atime < m then
        ({ s with chunks := s.chunks.erase digest, unlinked := s.unlinked ++ [digest],
                  gc := .sweeping m rest }, true)
      else ({ s with gc := .sweeping m rest }, true)
    | none => ({ s with gc := .sweeping m rest }, true)
  | .sweeping _ [] => ({ s with gc := .done }, true)
  | _ => (s, false)

/-- Start a backup of a new snapshot, locking its base snapshot, which must exist. -/
def backupStart (s : Store) (sid snapshot : Nat) (base : Option Nat) : Store × Bool :=
  if (s.sessions.lookup sid).isNone && (s.indexes.lookup snapshot).isNone &&
      base.all (fun b => (s.indexes.lookup b).isSome) then
    ({ s with sessions := s.sessions.insert sid ⟨snapshot, base, none, []⟩ }, true)
  else (s, false)

/-- Create the session's index writer, which takes a shared lock on the chunk store now. -/
def createWriter (s : Store) (sid : Nat) : Store × Bool :=
  match s.sessions.lookup sid with
  | some session =>
    if session.writerLock.isNone then
      ({ s with sessions := s.sessions.insert sid { session with writerLock := some s.now } },
        true)
    else (s, false)
  | none => (s, false)

/-- Upload a chunk through the open writer: `insert_chunk`, and the chunk is known. -/
def upload (s : Store) (sid digest : Nat) : Store × Bool :=
  match s.sessions.lookup sid with
  | some session =>
    if session.writerLock.isSome then
      ({ s with chunks := insertChunk s.now s.chunks digest,
                sessions := s.sessions.insert sid { session with known := session.known ++ [digest] } },
        true)
    else (s, false)
  | none => (s, false)

/-- Register a chunk of the base snapshot's index (`download_previous`): it is known, and it is
not touched. -/
def reuse (s : Store) (sid digest : Nat) : Store × Bool :=
  match s.sessions.lookup sid with
  | some session =>
    match session.base.bind s.indexes.lookup with
    | some digests =>
      if digest ∈ digests then
        ({ s with sessions := s.sessions.insert sid { session with known := session.known ++ [digest] } },
          true)
      else (s, false)
    | none => (s, false)
  | none => (s, false)

/-- Close the writer: the index file of the snapshot is written, and the lock released. -/
def closeWriter (s : Store) (sid : Nat) : Store × Bool :=
  match s.sessions.lookup sid with
  | some session =>
    if session.writerLock.isSome then
      ({ s with indexes := s.indexes.insert session.snapshot session.known,
                sessions := s.sessions.insert sid { session with writerLock := none } }, true)
    else (s, false)
  | none => (s, false)

/-- Finish the backup: it succeeds when the snapshot has its index file and the base snapshot
still exists; otherwise the snapshot is removed. Either way the session ends and releases the
base snapshot's lock. -/
def finish (s : Store) (sid : Nat) : Store × Bool :=
  match s.sessions.lookup sid with
  | some session =>
    if session.writerLock.isNone then
      if (s.indexes.lookup session.snapshot).isSome &&
          session.base.all (fun b => (s.indexes.lookup b).isSome) then
        ({ s with sessions := s.sessions.erase sid }, true)
      else
        ({ s with sessions := s.sessions.erase sid,
                  indexes := s.indexes.erase session.snapshot }, false)
    else (s, false)
  | none => (s, false)

/-- Remove a snapshot that no running session writes or uses as its base. -/
def forget (s : Store) (snapshot : Nat) : Store × Bool :=
  if s.sessions.entries.all (fun e => e.2.snapshot ≠ snapshot && e.2.base ≠ some snapshot) then
    ({ s with indexes := s.indexes.erase snapshot }, true)
  else (s, false)

end Store

/-- One action; the flag says whether it succeeded. -/
def step (s : Store) : Event → Store × Bool
  | .tick dt => ({ s with now := s.now + dt }, true)
  | .gcStart => s.gcStart
  | .gcMark => s.gcMark
  | .gcSweep => s.gcSweep
  | .backupStart sid snapshot base => s.backupStart sid snapshot base
  | .createWriter sid => s.createWriter sid
  | .upload sid digest => s.upload sid digest
  | .reuse sid digest => s.reuse sid digest
  | .closeWriter sid => s.closeWriter sid
  | .finish sid => s.finish sid
  | .forget snapshot => s.forget snapshot

/-! ## What the run keeps -/

/-- Chunk `c` is there, with an access time at least `B`. -/
def KeptFrom (B : Int) (c : Nat) (chunks : AList (fun _ : Nat => Int)) : Prop :=
  ∃ a, chunks.lookup c = some a ∧ B ≤ a

/-- No access time lies in the future. -/
def AtimesPast (s : Store) : Prop :=
  ∀ e ∈ s.chunks.entries, e.2 ≤ s.now

/-- The run has started, and `B` is at least its oldest writer's lock time: while it marks, and
once it sweeps with a cutoff below `B`. -/
def SweepsBelow (B : Int) : Phase → Prop
  | .idle => False
  | .marking _ ow _ => ow ≤ B
  | .sweeping m _ => m < B
  | .done => True

/-- `chunks'` is `chunks` with some chunk files written or touched at `now`: every access time is
kept or set to now, and no chunk file goes away. -/
def TouchedAt (now : Int) (chunks chunks' : AList (fun _ : Nat => Int)) : Prop :=
  (∀ c a', chunks'.lookup c = some a' → a' = now ∨ chunks.lookup c = some a') ∧
  ∀ c a, chunks.lookup c = some a → ∃ a', chunks'.lookup c = some a' ∧ (a' = now ∨ a' = a)

namespace TouchedAt

variable {now : Int} {chunks chunks' chunks₁ chunks₂ : AList (fun _ : Nat => Int)}

theorem refl (now : Int) (chunks : AList (fun _ : Nat => Int)) : TouchedAt now chunks chunks :=
  ⟨fun _ _ h => .inr h, fun _ a h => ⟨a, h, .inr rfl⟩⟩

theorem trans (h₁ : TouchedAt now chunks chunks₁) (h₂ : TouchedAt now chunks₁ chunks₂) :
    TouchedAt now chunks chunks₂ := by
  refine ⟨fun c a₂ hc₂ => ?_, fun c a hc => ?_⟩
  · rcases h₂.1 c a₂ hc₂ with hnow | hc₁
    · exact .inl hnow
    · exact h₁.1 c a₂ hc₁
  · obtain ⟨a₁, hc₁, ha₁⟩ := h₁.2 c a hc
    obtain ⟨a₂, hc₂, ha₂⟩ := h₂.2 c a₁ hc₁
    refine ⟨a₂, hc₂, ?_⟩
    rcases ha₂ with rfl | rfl
    · exact .inl rfl
    · exact ha₁

theorem insert (now : Int) (chunks : AList (fun _ : Nat => Int)) (digest : Nat) :
    TouchedAt now chunks (chunks.insert digest now) := by
  refine ⟨fun c a' hc => ?_, fun c a hc => ?_⟩
  · by_cases hcd : c = digest
    · subst hcd
      rw [AList.lookup_insert, Option.some.injEq] at hc
      exact .inl hc.symm
    · rw [AList.lookup_insert_ne hcd] at hc
      exact .inr hc
  · by_cases hcd : c = digest
    · subst hcd
      exact ⟨now, AList.lookup_insert _, .inl rfl⟩
    · exact ⟨a, by rw [AList.lookup_insert_ne hcd]; exact hc, .inr rfl⟩

theorem touchChunk (now : Int) (chunks : AList (fun _ : Nat => Int)) (digest : Nat) :
    TouchedAt now chunks (touchChunk now chunks digest) := by
  unfold ProxmoxBackup.Gc.touchChunk
  split
  · exact insert now chunks digest
  · exact refl now chunks

theorem foldl_touchChunk (now : Int) (digests : List Nat) (chunks : AList (fun _ : Nat => Int)) :
    TouchedAt now chunks (digests.foldl (ProxmoxBackup.Gc.touchChunk now) chunks) := by
  induction digests generalizing chunks with
  | nil => exact refl now chunks
  | cons d ds ih => exact (touchChunk now chunks d).trans (ih _)

/-- A chunk written or touched now keeps an access time at least `B`, if `B` is not in the
future. -/
theorem keptFrom {B : Int} {c : Nat} (h : TouchedAt now chunks chunks') (hB : B ≤ now)
    (hc : KeptFrom B c chunks) : KeptFrom B c chunks' := by
  obtain ⟨a, ha, hBa⟩ := hc
  obtain ⟨a', ha', hnow | rfl⟩ := h.2 c a ha
  · exact ⟨a', ha', by rw [hnow]; exact hB⟩
  · exact ⟨a', ha', hBa⟩

theorem past (h : TouchedAt now chunks chunks') (hpast : ∀ e ∈ chunks.entries, e.2 ≤ now) :
    ∀ e ∈ chunks'.entries, e.2 ≤ now := by
  rintro ⟨c, a'⟩ he
  rcases h.1 c a' (AList.mem_lookup_iff.mpr he) with rfl | hc
  · exact le_rfl
  · exact hpast ⟨c, a'⟩ (AList.mem_lookup_iff.mp hc)

end TouchedAt

theorem minAtime_lt (phase1Start oldestWriter : Int) :
    minAtime phase1Start oldestWriter < oldestWriter := by
  unfold minAtime
  split_ifs <;> omega

/-- What a step keeps: no access time in the future, the run's bound, and the chunks kept from
`B`. -/
def Keeps (B : Int) (c : Nat) (s : Store) : Prop :=
  AtimesPast s ∧ SweepsBelow B s.gc ∧ KeptFrom B c s.chunks

section Keeps

variable {B : Int} {c : Nat} {s s' : Store}

/-- A step that changes no chunk file and moves the clock forward. -/
theorem Keeps.of_frame (h : Keeps B c s) (hchunks : s'.chunks = s.chunks)
    (hgc : SweepsBelow B s'.gc) (hnow : s.now ≤ s'.now) : Keeps B c s' := by
  obtain ⟨hpast, -, hkept⟩ := h
  refine ⟨fun e he => ?_, hgc, by rw [hchunks]; exact hkept⟩
  rw [hchunks] at he
  exact (hpast e he).trans hnow

/-- A step that writes or touches chunk files now. -/
theorem Keeps.of_touched (h : Keeps B c s) (htouch : TouchedAt s.now s.chunks s'.chunks)
    (hgc : SweepsBelow B s'.gc) (hnow : s'.now = s.now) : Keeps B c s' := by
  obtain ⟨hpast, -, a, ha, hBa⟩ := h
  have hB : B ≤ s.now := hBa.trans (hpast ⟨c, a⟩ (AList.mem_lookup_iff.mp ha))
  refine ⟨?_, hgc, htouch.keptFrom hB ⟨a, ha, hBa⟩⟩
  rw [AtimesPast, hnow]
  exact htouch.past hpast

/-- A step that unlinks a chunk file older than a cutoff below `B`. -/
theorem Keeps.of_erase (h : Keeps B c s) {digest : Nat} {atime m : Int}
    (hatime : s.chunks.lookup digest = some atime) (hlt : atime < m) (hm : m < B)
    (hchunks : s'.chunks = s.chunks.erase digest) (hgc : SweepsBelow B s'.gc)
    (hnow : s'.now = s.now) : Keeps B c s' := by
  obtain ⟨hpast, -, a, ha, hBa⟩ := h
  -- the chunk kept from `B` is not the one unlinked, which is older than the cutoff
  have hc : c ≠ digest := by
    rintro rfl
    rw [ha, Option.some.injEq] at hatime
    omega
  refine ⟨?_, hgc, ⟨a, by rw [hchunks, AList.lookup_erase_ne hc]; exact ha, hBa⟩⟩
  rintro ⟨c', a'⟩ he
  have he' := AList.mem_lookup_iff.mpr (show (⟨c', a'⟩ : Sigma _) ∈ s'.chunks.entries from he)
  rw [hchunks] at he'
  by_cases hcd : c' = digest
  · subst hcd
    rw [AList.lookup_erase] at he'
    cases he'
  · rw [AList.lookup_erase_ne hcd] at he'
    rw [hnow]
    exact hpast ⟨c', a'⟩ (AList.mem_lookup_iff.mp he')

end Keeps

section Steps

variable {B : Int} {c : Nat}

/-- The requests of a backup session other than uploads change no chunk file, nor the run, nor
the clock. -/
def Frames (s s' : Store) : Prop :=
  s'.chunks = s.chunks ∧ s'.gc = s.gc ∧ s'.now = s.now

theorem Keeps.of_frames {s s' : Store} (h : Keeps B c s) (hf : Frames s s') : Keeps B c s' :=
  h.of_frame hf.1 (by rw [hf.2.1]; exact h.2.1) (le_of_eq hf.2.2.symm)

theorem backupStart_frames (s : Store) (sid snapshot : Nat) (base : Option Nat) :
    Frames s (s.backupStart sid snapshot base).1 := by
  unfold Store.backupStart
  split <;> exact ⟨rfl, rfl, rfl⟩

theorem createWriter_frames (s : Store) (sid : Nat) : Frames s (s.createWriter sid).1 := by
  unfold Store.createWriter
  split
  · split <;> exact ⟨rfl, rfl, rfl⟩
  · exact ⟨rfl, rfl, rfl⟩

theorem reuse_frames (s : Store) (sid digest : Nat) : Frames s (s.reuse sid digest).1 := by
  unfold Store.reuse
  split
  · split
    · split <;> exact ⟨rfl, rfl, rfl⟩
    · exact ⟨rfl, rfl, rfl⟩
  · exact ⟨rfl, rfl, rfl⟩

theorem closeWriter_frames (s : Store) (sid : Nat) : Frames s (s.closeWriter sid).1 := by
  unfold Store.closeWriter
  split
  · split <;> exact ⟨rfl, rfl, rfl⟩
  · exact ⟨rfl, rfl, rfl⟩

theorem finish_frames (s : Store) (sid : Nat) : Frames s (s.finish sid).1 := by
  unfold Store.finish
  split
  · split
    · split <;> exact ⟨rfl, rfl, rfl⟩
    · exact ⟨rfl, rfl, rfl⟩
  · exact ⟨rfl, rfl, rfl⟩

theorem forget_frames (s : Store) (snapshot : Nat) : Frames s (s.forget snapshot).1 := by
  unfold Store.forget
  split <;> exact ⟨rfl, rfl, rfl⟩

theorem Keeps.upload {s : Store} (h : Keeps B c s) (sid digest : Nat) :
    Keeps B c (s.upload sid digest).1 := by
  unfold Store.upload
  split
  · split
    · exact h.of_touched (TouchedAt.insert _ _ _) h.2.1 rfl
    · exact h
  · exact h

theorem Keeps.gcStart {s : Store} (h : Keeps B c s) : Keeps B c s.gcStart.1 := by
  unfold Store.gcStart
  split
  · -- a run that has not started has no bound
    rename_i hidle
    have hsweeps := h.2.1
    rw [hidle] at hsweeps
    exact absurd hsweeps id
  · exact h

theorem Keeps.gcMark {s : Store} (h : Keeps B c s) : Keeps B c s.gcMark.1 := by
  unfold Store.gcMark
  split
  · rename_i t ow image images hgc
    have how : ow ≤ B := by
      have hsweeps := h.2.1
      rw [hgc] at hsweeps
      exact hsweeps
    split
    · exact h.of_touched (TouchedAt.foldl_touchChunk _ _ _) how rfl
    · exact h.of_frame rfl how le_rfl
  · -- the sweep starts, with a cutoff below the oldest writer
    rename_i t ow hgc
    have how : ow ≤ B := by
      have hsweeps := h.2.1
      rw [hgc] at hsweeps
      exact hsweeps
    exact h.of_frame rfl (lt_of_lt_of_le (minAtime_lt t ow) how) le_rfl
  · exact h

theorem Keeps.gcSweep {s : Store} (h : Keeps B c s) : Keeps B c s.gcSweep.1 := by
  unfold Store.gcSweep
  split
  · rename_i m digest rest hgc
    have hm : m < B := by
      have hsweeps := h.2.1
      rw [hgc] at hsweeps
      exact hsweeps
    split
    · rename_i atime hatime
      split_ifs with hlt
      · exact h.of_erase hatime hlt hm rfl hm rfl
      · exact h.of_frame rfl hm le_rfl
    · exact h.of_frame rfl hm le_rfl
  · exact h.of_frame rfl trivial le_rfl
  · exact h

/-- Every action keeps a chunk kept from `B`, once the run has started with an oldest writer at
most `B`. -/
theorem Keeps.step {s : Store} (h : Keeps B c s) (e : Event) : Keeps B c (step s e).1 := by
  cases e with
  | tick dt => exact h.of_frame rfl h.2.1 (show s.now ≤ s.now + dt by omega)
  | gcStart => exact h.gcStart
  | gcMark => exact h.gcMark
  | gcSweep => exact h.gcSweep
  | backupStart sid snapshot base => exact h.of_frames (backupStart_frames s sid snapshot base)
  | createWriter sid => exact h.of_frames (createWriter_frames s sid)
  | upload sid digest => exact h.upload sid digest
  | reuse sid digest => exact h.of_frames (reuse_frames s sid digest)
  | closeWriter sid => exact h.of_frames (closeWriter_frames s sid)
  | finish sid => exact h.of_frames (finish_frames s sid)
  | forget snapshot => exact h.of_frames (forget_frames s snapshot)

theorem Keeps.run {s : Store} (h : Keeps B c s) (events : List Event) :
    Keeps B c (Runs.run Gc.step s events) := by
  induction events generalizing s with
  | nil => exact h
  | cons e events ih => exact ih (h.step e)

end Steps

/-- Once a run has started, a chunk whose access time is at least the run's oldest writer lock
time (or any later bound `B`) is never unlinked by it, however the backups, removals and the run
interleave. -/
theorem gc_keeps_chunks_touched_since_oldest_writer (s : Store) (B : Int) (c : Nat)
    (hpast : AtimesPast s) (hgc : SweepsBelow B s.gc) (hc : KeptFrom B c s.chunks)
    (events : List Event) : KeptFrom B c (Runs.run step s events).chunks :=
  (Keeps.run ⟨hpast, hgc, hc⟩ events).2.2

-- A store in the middle of a run: chunk 8 was uploaded when the run started, under the lock of
-- the one writer, and chunk 7 is two days older.
example :
    KeptFrom 172800 8 (Runs.run step
      ⟨172800, ((∅ : AList (fun _ : Nat => Int)).insert 7 0).insert 8 172800, ∅, ∅,
        .marking 172800 172800 [], []⟩ [.gcMark, .gcSweep, .gcSweep, .gcSweep]).chunks := by
  apply gc_keeps_chunks_touched_since_oldest_writer
  · unfold AtimesPast
    decide +kernel
  · exact le_rfl
  · exact ⟨172800, by decide +kernel, le_rfl⟩

/-! ## A backup whose reused chunk is unlinked -/

/-- Snapshot 1 references chunk 7, written (and last touched) at time 0. -/
def raceStart : Store :=
  ⟨0, (∅ : AList (fun _ : Nat => Int)).insert 7 0, (∅ : AList (fun _ : Nat => List Nat)).insert 1 [7],
    ∅, .idle, []⟩

/-- Two days later, a backup of snapshot 2 with base snapshot 1 reuses chunk 7 and opens its
writer; the run starts and lists the index of snapshot 1 only; the backup closes its index and
finishes, the base snapshot still being there; snapshot 1 is pruned; the run finds its index
gone, and sweeps. -/
def raceHistory : List Event :=
  [.tick 172800, .backupStart 1 2 (some 1), .createWriter 1, .reuse 1 7, .gcStart,
    .closeWriter 1, .finish 1, .forget 1, .gcMark, .gcMark, .gcSweep, .gcSweep]

theorem gc_unlinks_reused_chunk :
    Runs.allOk step id raceStart raceHistory = true ∧
    (Runs.run step raceStart raceHistory).gc = .done ∧
    (Runs.run step raceStart raceHistory).indexes.lookup 2 = some [7] ∧
    (Runs.run step raceStart raceHistory).unlinked = [7] ∧
    (Runs.run step raceStart raceHistory).chunks.lookup 7 = none := by
  decide +kernel

end ProxmoxBackup.Gc
