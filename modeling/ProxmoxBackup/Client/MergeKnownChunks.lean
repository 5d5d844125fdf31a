import Mathlib.Data.List.Chain
import ProxmoxBackup.Foundations.Except

/-!
# Merging known chunks on the client

`MergeKnownChunksQueue` (pbs-client, `merge_known_chunks.rs`) sits between the chunk stream of
an upload and the requests that append chunks to the server's index: runs of `Known` chunk
lists are concatenated into one list, so that chunks the server already has are appended by
few requests, and a batch is let out once it holds 64 entries.

The input stream is modelled by the list of items it yields (every poll is ready); `pollNext`
is one call of `poll_next` and `mergeKnownChunksQueue` the stream polled until it returns
`None`. For a stream of `Ok` items:

* `pollNext_ok`: what one poll guarantees (`PollStep`), by one case per branch of the loop;
* `mergeKnownChunksQueue_ok`: the run lemma (`MergeRun`): the items let out flatten to the
  input, their Known lists stay non-empty, and a Known list followed by another one is full.

`exists_error_mergeKnownChunksQueue` says that an `Err` of the input is let out.
-/

namespace ProxmoxBackup

/-- `pbs_datastore::data_blob::ChunkInfo`, over the type `B` of the encoded chunk. -/
structure ChunkInfo (B : Type) where
  chunk : B
  digest : Vector UInt8 32
  chunkLen : Nat
  offset : Nat

/-- `MergedChunkInfo`: a list of known chunks with their offsets, or a new chunk. -/
inductive MergedChunkInfo (B : Type) where
  | known (list : List (Nat × Vector UInt8 32))
  | new (info : ChunkInfo B)

namespace MergedChunkInfo

variable {B : Type}

/-- The flattening of a stream item: a Known list contributes its entries, a New chunk
itself. -/
def flatten : MergedChunkInfo B → List ((Nat × Vector UInt8 32) ⊕ ChunkInfo B)
  | .known list => list.map .inl
  | .new info => [.inr info]

@[simp] theorem flatten_known (list : List (Nat × Vector UInt8 32)) :
    (known list : MergedChunkInfo B).flatten = list.map .inl := rfl

@[simp] theorem flatten_new (info : ChunkInfo B) : (new info).flatten = [.inr info] := rfl

/-- The (offset, digest) pairs an item stands for in the index: a Known list's entries, a New
chunk's own. -/
def entries : MergedChunkInfo B → List (Nat × Vector UInt8 32)
  | .known list => list
  | .new info => [(info.offset, info.digest)]

@[simp] theorem entries_known (list : List (Nat × Vector UInt8 32)) :
    (known list : MergedChunkInfo B).entries = list := rfl

@[simp] theorem entries_new (info : ChunkInfo B) :
    (new info).entries = [(info.offset, info.digest)] := rfl

/-- The pairs of an item are its flattening with each New chunk read as its pair. -/
theorem entries_eq_map_flatten (x : MergedChunkInfo B) :
    x.entries = x.flatten.map (Sum.elim id fun info => (info.offset, info.digest)) := by
  cases x <;> simp

/-- A Known list is non-empty; a New chunk has nothing to check. -/
def NonemptyKnown : MergedChunkInfo B → Prop
  | .known list => list ≠ []
  | .new _ => True

@[simp] theorem nonemptyKnown_known (list : List (Nat × Vector UInt8 32)) :
    (known list : MergedChunkInfo B).NonemptyKnown ↔ list ≠ [] := Iff.rfl

@[simp] theorem nonemptyKnown_new (info : ChunkInfo B) : (new info).NonemptyKnown := trivial

instance : DecidablePred (@NonemptyKnown B) := fun
  | .known list => inferInstanceAs (Decidable (list ≠ []))
  | .new _ => inferInstanceAs (Decidable True)

/-- The batching rule: a Known list followed by another Known list holds at least 64
entries. -/
def FullBeforeKnown : MergedChunkInfo B → MergedChunkInfo B → Prop
  | .known list, .known _ => 64 ≤ list.length
  | _, _ => True

@[simp] theorem fullBeforeKnown_known_known (list list' : List (Nat × Vector UInt8 32)) :
    FullBeforeKnown (known list : MergedChunkInfo B) (known list') ↔ 64 ≤ list.length :=
  Iff.rfl

@[simp] theorem fullBeforeKnown_new (info : ChunkInfo B) (y : MergedChunkInfo B) :
    FullBeforeKnown (new info) y := by
  cases y <;> trivial

@[simp] theorem fullBeforeKnown_known_new (list : List (Nat × Vector UInt8 32))
    (info : ChunkInfo B) : FullBeforeKnown (known list) (new info) := trivial

end MergedChunkInfo

namespace MergeKnownChunks

open MergedChunkInfo

variable {B : Type}

/-- One call of `MergeKnownChunksQueue::poll_next` when every poll of the input is ready: the
item it returns (`none` for `Poll::Ready(None)`), the buffer it leaves and the input it has not
read. -/
def pollNext : Option (MergedChunkInfo B) → List (Except String (MergedChunkInfo B)) →
    Option (Except String (MergedChunkInfo B)) × Option (MergedChunkInfo B) ×
      List (Except String (MergedChunkInfo B))
  | buffer, [] => (buffer.map .ok, none, [])
  | buffer, .error err :: input => (some (.error err), buffer, input)
  | none, .ok (.known list) :: input => pollNext (some (.known list)) input
  | some (.known lastList), .ok (.known list) :: input =>
    if (lastList ++ list).length ≥ 64 then (some (.ok (.known (lastList ++ list))), none, input)
    else pollNext (some (.known (lastList ++ list))) input
  | some (.new info), .ok (.known list) :: input =>
    (some (.ok (.new info)), some (.known list), input)
  | some last, .ok (.new info) :: input => (some (.ok last), some (.new info), input)
  | none, .ok (.new info) :: input => (some (.ok (.new info)), none, input)

/-- The polls that can still let an item out: one per unread item and one for a full
buffer. -/
def pollsLeft (buffer : Option (MergedChunkInfo B)) (input : List (Except String (MergedChunkInfo B))) :
    Nat :=
  input.length + buffer.toList.length

theorem pollsLeft_pollNext_lt {buffer buffer' : Option (MergedChunkInfo B)}
    {input input' : List (Except String (MergedChunkInfo B))} {item : Except String (MergedChunkInfo B)}
    (h : pollNext buffer input = (some item, buffer', input')) :
    pollsLeft buffer' input' < pollsLeft buffer input := by
  fun_induction pollNext buffer input <;> simp_all [pollsLeft] <;> grind

/-- The stream `input.merge_known_chunks()` from a given buffer: `poll_next` called until it
returns `None`. -/
def mergeKnownChunksQueue (buffer : Option (MergedChunkInfo B))
    (input : List (Except String (MergedChunkInfo B))) : List (Except String (MergedChunkInfo B)) :=
  match h : pollNext buffer input with
  | (none, _, _) => []
  | (some item, buffer', input') =>
    have := pollsLeft_pollNext_lt h
    item :: mergeKnownChunksQueue buffer' input'
termination_by pollsLeft buffer input

/-- `merge_known_chunks`: the queue starts with an empty buffer. -/
def mergeKnownChunks (input : List (Except String (MergedChunkInfo B))) :
    List (Except String (MergedChunkInfo B)) :=
  mergeKnownChunksQueue none input

theorem mergeKnownChunksQueue_of_pollNext_some {buffer buffer' : Option (MergedChunkInfo B)}
    {input input' : List (Except String (MergedChunkInfo B))} {item : Except String (MergedChunkInfo B)}
    (h : pollNext buffer input = (some item, buffer', input')) :
    mergeKnownChunksQueue buffer input = item :: mergeKnownChunksQueue buffer' input' := by
  rw [mergeKnownChunksQueue]
  split <;> simp_all

theorem mergeKnownChunksQueue_none_nil :
    mergeKnownChunksQueue (B := B) none [] = [] := by
  rw [mergeKnownChunksQueue]
  rfl

/-! ## One poll of `Ok` items -/

/-- What a poll of `Ok` items guarantees when it lets out `item`, leaving `buffer'` and the
unread `rest`. -/
structure PollStep (buffer : Option (MergedChunkInfo B)) (input : List (MergedChunkInfo B))
    (item : MergedChunkInfo B) (buffer' : Option (MergedChunkInfo B))
    (rest : List (MergedChunkInfo B)) : Prop where
  /-- Nothing is lost, duplicated or reordered. -/
  flatten_eq : item.flatten ++ (buffer'.toList ++ rest).flatMap flatten =
    (buffer.toList ++ input).flatMap flatten
  rest_suffix : rest <:+ input
  /-- A poll that lets an item out had something to let out. -/
  pending : buffer ≠ none ∨ input ≠ []
  nonempty : (∀ x ∈ buffer, x.NonemptyKnown) → (∀ x ∈ input, x.NonemptyKnown) →
    item.NonemptyKnown ∧ ∀ x ∈ buffer', x.NonemptyKnown
  /-- A Known list is let out short of 64 entries only before a New chunk or at the end. -/
  short_known : ∀ list, item = .known list → list.length < 64 →
    (∃ info, buffer' = some (.new info)) ∨ (buffer' = none ∧ rest = [])
  /-- A buffered New chunk is the next item let out. -/
  new_first : ∀ info, buffer = some (.new info) → item = .new info

/-- The recursive branches of `poll_next`: a Known list read into a buffer that is empty or
holds a Known list leaves the buffer `acc`, and the rest of the poll is a poll from there. -/
theorem PollStep.absorb {buffer buffer' : Option (MergedChunkInfo B)}
    {input rest : List (MergedChunkInfo B)} {item : MergedChunkInfo B}
    {list acc : List (Nat × Vector UInt8 32)}
    (h : PollStep (some (.known acc)) input item buffer' rest)
    (hacc : (known acc : MergedChunkInfo B).flatten =
      (buffer.toList ++ [known list]).flatMap flatten)
    (hne : (∀ x ∈ buffer, x.NonemptyKnown) → list ≠ [] → acc ≠ [])
    (hnew : ∀ info, buffer ≠ some (.new info)) :
    PollStep buffer (.known list :: input) item buffer' rest where
  flatten_eq := by
    have := h.flatten_eq
    simp only [Option.toList_some, List.singleton_append, List.flatMap_cons, flatten_known]
      at this hacc
    rw [this, hacc]
    simp
  rest_suffix := h.rest_suffix.trans (List.suffix_cons _ _)
  pending := .inr (List.cons_ne_nil _ _)
  nonempty hb hi := by
    have hl : list ≠ [] := by simpa using hi _ List.mem_cons_self
    refine h.nonempty ?_ (fun x hx => hi x (List.mem_cons_of_mem _ hx))
    simpa using hne hb hl
  short_known := h.short_known
  new_first info hb := absurd hb (hnew info)

/-- The step lemma: a poll of `Ok` items either finds the stream ended with an empty buffer or
lets out an `Ok` item, with the guarantees of `PollStep`. -/
theorem pollNext_ok (buffer : Option (MergedChunkInfo B)) (input : List (MergedChunkInfo B)) :
    (buffer = none ∧ input = []) ∨ ∃ item buffer' rest,
      pollNext buffer (input.map .ok) = (some (.ok item), buffer', rest.map .ok) ∧
      PollStep buffer input item buffer' rest := by
  induction input generalizing buffer with
  | nil =>
    cases buffer with
    | none => exact .inl ⟨rfl, rfl⟩
    | some last =>
      exact .inr ⟨last, none, [], rfl, ⟨by simp, List.suffix_refl _, .inl (by simp),
        fun hb _ => ⟨hb last rfl, by simp⟩, fun _ _ _ => .inr ⟨rfl, rfl⟩,
        fun _ h => Option.some.inj h⟩⟩
  | cons x input ih =>
    cases x with
    | new info =>
      -- a New chunk is let out directly, or swapped with the buffered item
      cases buffer with
      | none =>
        exact .inr ⟨.new info, none, input, rfl, ⟨by simp, List.suffix_cons _ _,
          .inr (List.cons_ne_nil _ _), fun _ _ => ⟨trivial, by simp⟩, by simp, by simp⟩⟩
      | some last =>
        exact .inr ⟨last, some (.new info), input, by cases last <;> rfl, ⟨by simp,
          List.suffix_cons _ _, .inl (by simp), fun hb _ => ⟨hb last rfl, by simp⟩,
          fun _ _ _ => .inl ⟨info, rfl⟩, fun _ h => Option.some.inj h⟩⟩
    | known list =>
      cases buffer with
      | none =>
        -- the Known list goes into the empty buffer and the poll goes on
        rcases ih (some (.known list)) with ⟨h, -⟩ | ⟨item, buffer', rest, hpoll, hstep⟩
        · cases h
        · exact .inr ⟨item, buffer', rest, hpoll, hstep.absorb (by simp) (fun _ h => h)
            (by simp)⟩
      | some last =>
        cases last with
        | new info =>
          exact .inr ⟨.new info, some (.known list), input, rfl, ⟨by simp,
            List.suffix_cons _ _, .inl (by simp),
            fun _ hi => ⟨trivial, by simpa using hi _ List.mem_cons_self⟩, by simp,
            fun _ h => Option.some.inj h⟩⟩
        | known lastList =>
          have hlast : (∀ x ∈ (some (known lastList) : Option (MergedChunkInfo B)),
              x.NonemptyKnown) →
              lastList ++ list ≠ [] := fun hb => by
            have : lastList ≠ [] := by simpa using hb _ rfl
            simp [this]
          by_cases hfull : 64 ≤ lastList.length + list.length
          · -- the merged list is full: it is let out and the buffer emptied
            refine .inr ⟨.known (lastList ++ list), none, input,
              by simp [pollNext, hfull], ⟨by simp, List.suffix_cons _ _, .inl (by simp),
                fun hb _ => ⟨hlast hb, by simp⟩, fun _ h hlt => ?_, by simp⟩⟩
            cases h
            simp at hlt
            omega
          · -- the merged list stays in the buffer and the poll goes on
            rcases ih (some (.known (lastList ++ list))) with ⟨h, -⟩ |
              ⟨item, buffer', rest, hpoll, hstep⟩
            · cases h
            · exact .inr ⟨item, buffer', rest, by simpa [pollNext, hfull] using hpoll,
                hstep.absorb (by simp) (fun hb _ => hlast hb) (by simp)⟩

/-! ## The whole stream of `Ok` items -/

/-- What the stream polled from `buffer` over the `Ok` items `input` guarantees of the items
`out` it lets out. -/
structure MergeRun (buffer : Option (MergedChunkInfo B)) (input : List (MergedChunkInfo B))
    (out : List (MergedChunkInfo B)) : Prop where
  flatten_eq : out.flatMap flatten = (buffer.toList ++ input).flatMap flatten
  nonempty : (∀ x ∈ buffer, x.NonemptyKnown) → (∀ x ∈ input, x.NonemptyKnown) →
    ∀ x ∈ out, x.NonemptyKnown
  isChain : out.IsChain FullBeforeKnown
  eq_nil : buffer = none → input = [] → out = []
  head_new : ∀ info, buffer = some (.new info) → out.head? = some (.new info)

theorem MergeRun.nil : MergeRun (B := B) none [] [] where
  flatten_eq := rfl
  nonempty _ _ := by simp
  isChain := .nil
  eq_nil _ _ := rfl
  head_new _ h := by cases h

/-- A run is one poll followed by the run from what it leaves. -/
theorem MergeRun.cons {buffer buffer' : Option (MergedChunkInfo B)}
    {input rest out : List (MergedChunkInfo B)} {item : MergedChunkInfo B}
    (hstep : PollStep buffer input item buffer' rest) (hrun : MergeRun buffer' rest out) :
    MergeRun buffer input (item :: out) where
  flatten_eq := by
    rw [List.flatMap_cons, hrun.flatten_eq, hstep.flatten_eq]
  nonempty hb hi := by
    obtain ⟨hitem, hbuffer⟩ := hstep.nonempty hb hi
    have hrest : ∀ x ∈ rest, x.NonemptyKnown := fun x hx => hi x (hstep.rest_suffix.subset hx)
    intro x hx
    rcases List.mem_cons.mp hx with rfl | hx
    · exact hitem
    · exact hrun.nonempty hbuffer hrest x hx
  isChain := by
    refine hrun.isChain.cons fun y hy => ?_
    cases item with
    | new info => simp
    | known list =>
      cases y with
      | new info => simp
      | known list' =>
        -- a short list is let out only before a New chunk or at the end
        simp only [fullBeforeKnown_known_known]
        by_contra hlt
        rcases hstep.short_known list rfl (by omega) with ⟨info, hb⟩ | ⟨hb, hr⟩
        · simp [hrun.head_new info hb] at hy
        · simp [hrun.eq_nil hb hr] at hy
  eq_nil hb hi := by
    rcases hstep.pending with h | h <;> contradiction
  head_new info hb := by
    simp [hstep.new_first info hb]

/-- The run lemma: polled until it ends, the stream over `Ok` items lets out `Ok` items only,
with the guarantees of `MergeRun`. -/
theorem mergeKnownChunksQueue_ok (buffer : Option (MergedChunkInfo B))
    (input : List (MergedChunkInfo B)) :
    ∃ out, mergeKnownChunksQueue buffer (input.map .ok) = out.map .ok ∧
      MergeRun buffer input out := by
  rcases pollNext_ok buffer input with ⟨rfl, rfl⟩ | ⟨item, buffer', rest, hpoll, hstep⟩
  · exact ⟨[], mergeKnownChunksQueue_none_nil, MergeRun.nil⟩
  · have := pollsLeft_pollNext_lt hpoll
    obtain ⟨out, hout, hrun⟩ := mergeKnownChunksQueue_ok buffer' rest
    refine ⟨item :: out, ?_, MergeRun.cons hstep hrun⟩
    rw [mergeKnownChunksQueue_of_pollNext_some hpoll, hout, List.map_cons]
termination_by pollsLeft buffer (input.map .ok)

theorem flatMap_entries_eq_map_flatten (xs : List (MergedChunkInfo B)) :
    xs.flatMap entries =
      (xs.flatMap flatten).map (Sum.elim id fun info => (info.offset, info.digest)) := by
  induction xs with
  | nil => rfl
  | cons x xs ih => simp [ih, entries_eq_map_flatten x]

/-- Flattenings that agree give the same (offset, digest) pairs. -/
theorem flatMap_entries_eq {xs ys : List (MergedChunkInfo B)}
    (h : xs.flatMap flatten = ys.flatMap flatten) : xs.flatMap entries = ys.flatMap entries := by
  rw [flatMap_entries_eq_map_flatten, flatMap_entries_eq_map_flatten, h]

/-- A run over Known lists lets out Known lists only: a New chunk let out would be in the
flattening of the input. -/
theorem MergeRun.known {buffer : Option (MergedChunkInfo B)} {input out : List (MergedChunkInfo B)}
    (h : MergeRun buffer input out) (hknown : ∀ x ∈ buffer.toList ++ input, ∃ list, x = known list) :
    ∀ x ∈ out, ∃ list, x = known list := by
  intro x hx
  cases x with
  | known list => exact ⟨list, rfl⟩
  | new info =>
    have : Sum.inr info ∈ out.flatMap flatten := List.mem_flatMap.mpr ⟨_, hx, by simp⟩
    rw [h.flatten_eq] at this
    obtain ⟨y, hy, hinfo⟩ := List.mem_flatMap.mp this
    obtain ⟨list, rfl⟩ := hknown y hy
    simp at hinfo

/-- `FullBeforeKnown` along the stream, read at consecutive positions. -/
theorem fullBeforeKnown_getElem? {out : List (MergedChunkInfo B)}
    (h : out.IsChain FullBeforeKnown) {i : Nat} {list list' : List (Nat × Vector UInt8 32)}
    (hi : out[i]? = some (.known list)) (hi' : out[i + 1]? = some (.known list')) :
    64 ≤ list.length := by
  obtain ⟨hlt, hget'⟩ := List.getElem?_eq_some_iff.mp hi'
  obtain ⟨_, hget⟩ := List.getElem?_eq_some_iff.mp hi
  have := List.isChain_iff_getElem.mp h i hlt
  rw [hget, hget'] at this
  simpa using this

/-! ## Errors -/

theorem pollNext_eq_none {buffer buffer' : Option (MergedChunkInfo B)}
    {input input' : List (Except String (MergedChunkInfo B))}
    (h : pollNext buffer input = (none, buffer', input')) : input = [] := by
  fun_induction pollNext buffer input <;> simp_all [pollNext]

/-- A poll over input holding an `Err` lets out an `Err`, or leaves one unread. -/
theorem pollNext_error {buffer buffer' : Option (MergedChunkInfo B)}
    {input input' : List (Except String (MergedChunkInfo B))} {item : Except String (MergedChunkInfo B)}
    (h : pollNext buffer input = (some item, buffer', input')) (he : ∃ e, .error e ∈ input) :
    (∃ e, item = .error e) ∨ ∃ e, .error e ∈ input' := by
  fun_induction pollNext buffer input <;> simp_all <;> grind

/-- An `Err` of the input is let out by the stream. -/
theorem exists_error_mergeKnownChunksQueue (buffer : Option (MergedChunkInfo B))
    (input : List (Except String (MergedChunkInfo B))) (he : ∃ e, .error e ∈ input) :
    ∃ e, .error e ∈ mergeKnownChunksQueue buffer input := by
  match hpoll : pollNext buffer input with
  | (none, _, _) =>
    obtain ⟨e, he⟩ := he
    simp [pollNext_eq_none hpoll] at he
  | (some item, buffer', input') =>
    have := pollsLeft_pollNext_lt hpoll
    rw [mergeKnownChunksQueue_of_pollNext_some hpoll]
    rcases pollNext_error hpoll he with ⟨e, rfl⟩ | he'
    · exact ⟨e, List.mem_cons_self⟩
    · obtain ⟨e, he⟩ := exists_error_mergeKnownChunksQueue buffer' input' he'
      exact ⟨e, List.mem_cons_of_mem _ he⟩
termination_by pollsLeft buffer input

/-- An `Ok` stream let out comes from an `Ok` input, over which it is a run. -/
theorem mergeRun_of_mergeKnownChunksQueue {buffer : Option (MergedChunkInfo B)}
    {input : List (Except String (MergedChunkInfo B))} {out : List (MergedChunkInfo B)}
    (h : mergeKnownChunksQueue buffer input = out.map .ok) :
    ∃ xs, input = xs.map .ok ∧ MergeRun buffer xs out := by
  obtain ⟨xs, rfl⟩ : ∃ xs : List (MergedChunkInfo B), input = xs.map .ok := by
    refine Except.exists_eq_map_ok_iff.mpr fun e he => ?_
    obtain ⟨e', he'⟩ := exists_error_mergeKnownChunksQueue buffer input ⟨e, he⟩
    rw [h] at he'
    simp at he'
  obtain ⟨out', hout', hrun⟩ := mergeKnownChunksQueue_ok buffer xs
  have : out = out' := List.map_injective_iff.mpr (fun _ _ => Except.ok.inj) (h.symm.trans hout')
  exact ⟨xs, rfl, this ▸ hrun⟩

end MergeKnownChunks

end ProxmoxBackup
