import ProxmoxBackup.Client.MergeKnownChunks
import ProxmoxBackup.Foundations.LittleEndian

/-!
# Uploading a chunk stream

`BackupWriter::upload_chunk_info_stream` (pbs-client, `backup_writer.rs`) turns a stream of
chunks into entries of an index on the server. Its stages, in order:

1. `chunkInfos`: the `and_then` closure: each chunk gets the offset the lengths before it add
   up to, and is a one-entry Known list if its digest is a known chunk, or a New chunk (whose
   digest becomes known) otherwise;
2. `mergeKnownChunks`;
3. `uploadQueue`: the `try_for_each`: a New chunk is posted and queued as a one-entry Known
   list with the response to its post, a Known list is queued as it is;
4. `appendChunkQueue`: the task spawned by `append_chunk_queue`: it waits for the responses,
   merges the Known lists again and sends one append request per merged list.

The two tasks run concurrently over a channel. The channel is first in, first out and each
task handles its items one after the other, so the model runs them in sequence: the append
task sees the queue the upload stage filled.

`uploadChunkInfoStream_appends` is the result: a successful upload appends the pairs
`chunkPairs`, each chunk of the stream at the running sum of the lengths before it.
`uploadChunkInfoStream_eq_some_ok` says that the upload succeeds on every stream when every
encoding, post and append succeeds.
-/

namespace ProxmoxBackup

namespace BackupWriter

open MergedChunkInfo MergeKnownChunks

variable {B : Type}

/-- The parameters of an append request of `append_chunk_queue`: `digest-list` (hex-encoded on
the wire; the server reads it decoded) and `offset-list`. -/
structure AppendRequest where
  digestList : List (Vector UInt8 32)
  offsetList : List Nat

/-- The request for a merged Known list: its digests and its offsets, as the loop of
`append_chunk_queue` collects them. -/
def AppendRequest.ofChunkList (chunkList : List (Nat × Vector UInt8 32)) : AppendRequest :=
  ⟨chunkList.map Prod.snd, chunkList.map Prod.fst⟩

/-- The (offset, digest) pairs a request appends, as the server's `appendRequest` zips
them. -/
def AppendRequest.pairs (request : AppendRequest) : List (Nat × Vector UInt8 32) :=
  request.offsetList.zip request.digestList

@[simp] theorem AppendRequest.pairs_ofChunkList (chunkList : List (Nat × Vector UInt8 32)) :
    (AppendRequest.ofChunkList chunkList).pairs = chunkList := by
  simpa [AppendRequest.pairs, AppendRequest.ofChunkList, List.unzip_eq_map] using
    List.zip_unzip chunkList

/-! ## The upload stage -/

section Upload

variable (computeDigest : List UInt8 → Vector UInt8 32) (encode : List UInt8 → Except String B)

/-- The `and_then` closure of `upload_chunk_info_stream` over the chunk stream, from the
known chunks and the stream length so far. `computeDigest` is `DataChunkBuilder`'s digest
(SHA-256, or the keyed digest of the crypt configuration) and `encode` is `DataBlob::encode`
with the builder's configuration and compression; `build` returns that blob with the same
digest. -/
def chunkInfos : List (Vector UInt8 32) → Nat → List (Except String (List UInt8)) →
    List (Except String (MergedChunkInfo B))
  | _, _, [] => []
  | knownChunks, offset, .error err :: stream =>
    .error err :: chunkInfos knownChunks offset stream
  | knownChunks, offset, .ok data :: stream =>
    let digest := computeDigest data
    if digest ∈ knownChunks then
      .ok (.known [(offset, digest)]) :: chunkInfos knownChunks (offset + data.length) stream
    else
      (encode data).map (fun chunk => .new ⟨chunk, digest, data.length, offset⟩) ::
        chunkInfos (digest :: knownChunks) (offset + data.length) stream

/-- The pairs the index must hold for a stream of chunks: each chunk's digest at the sum of the
lengths of the chunks before it. -/
def chunkPairs (stream : List (List UInt8)) : List (Nat × Vector UInt8 32) :=
  stream.mapIdx fun i data => (((stream.take i).map List.length).sum, computeDigest data)

theorem chunkPairs_nil : chunkPairs computeDigest [] = [] := rfl

theorem chunkPairs_cons (data : List UInt8) (stream : List (List UInt8)) :
    chunkPairs computeDigest (data :: stream) =
      (0, computeDigest data) ::
        (chunkPairs computeDigest stream).map fun p => (data.length + p.1, p.2) := by
  rw [chunkPairs, List.mapIdx_cons]
  congr 1
  apply List.ext_getElem (by simp [chunkPairs])
  intro i _ _
  simp [chunkPairs]

/-- Over `Ok` chunks, the items of the first stage that are all `Ok` stand for the chunks at
their offsets, each as a one-entry Known list or a New chunk. -/
theorem chunkInfos_eq_map_ok {knownChunks : List (Vector UInt8 32)} {offset : Nat}
    {stream : List (List UInt8)} {items : List (MergedChunkInfo B)}
    (h : chunkInfos computeDigest encode knownChunks offset (stream.map .ok) = items.map .ok) :
    items.flatMap entries = (chunkPairs computeDigest stream).map (fun p => (offset + p.1, p.2)) ∧
      ∀ x ∈ items, x.NonemptyKnown := by
  induction stream generalizing knownChunks offset items with
  | nil =>
    obtain rfl : items = [] := by simpa [chunkInfos] using h.symm
    simp [chunkPairs_nil]
  | cons data stream ih =>
    obtain ⟨item, items, rfl⟩ : ∃ item rest, items = item :: rest := by
      cases items with
      | nil => simp [chunkInfos] at h; split at h <;> simp at h
      | cons item rest => exact ⟨item, rest, rfl⟩
    simp only [List.map_cons, chunkInfos] at h
    have hitem : item.entries = [(offset, computeDigest data)] ∧ item.NonemptyKnown ∧
        chunkInfos computeDigest encode
          (if computeDigest data ∈ knownChunks then knownChunks
            else computeDigest data :: knownChunks)
          (offset + data.length) (stream.map .ok) = items.map .ok := by
      split at h
      · -- a known chunk: a one-entry Known list
        obtain ⟨h1, h2⟩ := List.cons_eq_cons.mp h
        cases h1
        simp_all
      · -- a new chunk: encoded, with the digest of its data
        obtain ⟨h1, h2⟩ := List.cons_eq_cons.mp h
        obtain ⟨chunk, -, rfl⟩ := Except.map_eq_ok.mp h1
        simp_all
    obtain ⟨hentries, hne, hrest⟩ := hitem
    obtain ⟨ih1, ih2⟩ := ih hrest
    refine ⟨?_, ?_⟩
    · rw [List.flatMap_cons, hentries, ih1, chunkPairs_cons]
      simp [Nat.add_assoc]
    · intro x hx
      rcases List.mem_cons.mp hx with rfl | hx
      · exact hne
      · exact ih2 x hx

/-- When every encoding succeeds, the first stage lets out `Ok` items only. -/
theorem chunkInfos_of_encode_ok (hencode : ∀ data, ∃ chunk, encode data = .ok chunk)
    (knownChunks : List (Vector UInt8 32)) (offset : Nat) (stream : List (List UInt8)) :
    ∃ items : List (MergedChunkInfo B),
      chunkInfos computeDigest encode knownChunks offset (stream.map .ok) = items.map .ok := by
  induction stream generalizing knownChunks offset with
  | nil => exact ⟨[], rfl⟩
  | cons data stream ih =>
    simp only [List.map_cons, chunkInfos]
    split
    · obtain ⟨items, h⟩ := ih knownChunks (offset + data.length)
      exact ⟨_ :: items, by rw [h, List.map_cons]⟩
    · obtain ⟨chunk, hchunk⟩ := hencode data
      obtain ⟨items, h⟩ := ih (computeDigest data :: knownChunks) (offset + data.length)
      exact ⟨_ :: items, by rw [h, hchunk, List.map_cons]; rfl⟩

variable (postChunk : ChunkInfo B → Except String Unit)

/-- What the `try_for_each` of the upload stage sends to the append queue for an item: a New
chunk is posted (`postChunk` is the server's response) and queued as a one-entry Known list
with that response; a Known list is queued as it is. -/
def queueEntry : MergedChunkInfo B → MergedChunkInfo B × Option (Except String Unit)
  | .new info => (.known [(info.offset, info.digest)], some (postChunk info))
  | .known list => (.known list, none)

@[simp] theorem entries_queueEntry (item : MergedChunkInfo B) :
    (queueEntry postChunk item).1.entries = item.entries := by
  cases item <;> rfl

/-- The `try_for_each` of the upload stage: the queue it fills and its result, the first `Err`
of the merged stream. -/
def uploadQueue : List (Except String (MergedChunkInfo B)) →
    List (MergedChunkInfo B × Option (Except String Unit)) × Except String Unit
  | [] => ([], .ok ())
  | .error err :: _ => ([], .error err)
  | .ok item :: items =>
    let (queue, result) := uploadQueue items
    (queueEntry postChunk item :: queue, result)

/-- The upload stage succeeds on `Ok` items only, and queues their entries. -/
theorem uploadQueue_eq_ok {items : List (Except String (MergedChunkInfo B))}
    (h : (uploadQueue postChunk items).2 = .ok ()) :
    ∃ xs : List (MergedChunkInfo B), items = xs.map .ok ∧
      (uploadQueue postChunk items).1 = xs.map (queueEntry postChunk) := by
  induction items with
  | nil => exact ⟨[], rfl, rfl⟩
  | cons item items ih =>
    cases item with
    | error err => cases h
    | ok item =>
      obtain ⟨xs, rfl, hqueue⟩ := ih h
      exact ⟨item :: xs, rfl, by simp [uploadQueue, hqueue]⟩

theorem uploadQueue_map_ok (xs : List (MergedChunkInfo B)) :
    uploadQueue postChunk (xs.map .ok) = (xs.map (queueEntry postChunk), .ok ()) := by
  induction xs with
  | nil => rfl
  | cons x xs ih => simp [uploadQueue, ih]

end Upload

/-! ## The append task -/

section Append

variable (putIndex : AppendRequest → Except String Unit)

/-- The first `and_then` of `append_chunk_queue`: a queued Known list waits for the response to
its chunk's post, if it has one. Anything else is `unreachable!()`, a panic. -/
def awaitResponse : MergedChunkInfo B × Option (Except String Unit) →
    Option (Except String (MergedChunkInfo B))
  | (.known list, some response) => some (response.map fun _ => .known list)
  | (.known list, none) => some (.ok (.known list))
  | (.new _, _) => none

/-- A response that came back `Ok` lets the queued item through. -/
theorem awaitResponse_eq_some_ok {entry : MergedChunkInfo B × Option (Except String Unit)}
    {item : MergedChunkInfo B} (h : awaitResponse entry = some (.ok item)) : item = entry.1 := by
  obtain ⟨first, response⟩ := entry
  cases first with
  | new info => cases h
  | known list =>
    cases response with
    | none => simpa [awaitResponse] using h.symm
    | some response =>
      obtain ⟨_, -, rfl⟩ := Except.map_eq_ok.mp (Option.some.inj h)
      rfl

/-- The last `and_then` and the `try_for_each` of `append_chunk_queue`: one append request per
merged Known list, sent one after the other until an item or a request fails. Returns the
requests sent and the task's result; a New chunk is `unreachable!()`. -/
def appendRequests : List (Except String (MergedChunkInfo B)) →
    Option (List AppendRequest × Except String Unit)
  | [] => some ([], .ok ())
  | .error err :: _ => some ([], .error err)
  | .ok (.new _) :: _ => none
  | .ok (.known chunkList) :: items =>
    let request := AppendRequest.ofChunkList chunkList
    match putIndex request with
    | .error err => some ([request], .error err)
    | .ok () => (appendRequests items).map fun (requests, result) => (request :: requests, result)

/-- The append task succeeds on Known lists only, one request each. -/
theorem appendRequests_eq_ok {items : List (Except String (MergedChunkInfo B))}
    {requests : List AppendRequest} (h : appendRequests putIndex items = some (requests, .ok ())) :
    ∃ lists : List (List (Nat × Vector UInt8 32)), items = lists.map (.ok ∘ .known) ∧
      requests = lists.map AppendRequest.ofChunkList := by
  induction items generalizing requests with
  | nil =>
    obtain rfl : requests = [] := by simpa [appendRequests] using h.symm
    exact ⟨[], rfl, rfl⟩
  | cons item items ih =>
    rcases item with err | (chunkList | info)
    · simp [appendRequests] at h
    · simp only [appendRequests] at h
      split at h
      · simp at h
      · obtain ⟨⟨requests', result⟩, hrest, hreq⟩ := Option.map_eq_some_iff.mp h
        obtain ⟨rfl, rfl⟩ := Prod.mk.inj hreq
        obtain ⟨lists, rfl, rfl⟩ := ih hrest
        exact ⟨chunkList :: lists, rfl, rfl⟩
    · cases h

/-- When every request succeeds, the append task sends one request per Known list. -/
theorem appendRequests_map_known (hput : ∀ request, putIndex request = .ok ())
    (lists : List (List (Nat × Vector UInt8 32))) :
    appendRequests putIndex (lists.map (.ok ∘ .known) : List (Except String (MergedChunkInfo B))) =
      some (lists.map AppendRequest.ofChunkList, .ok ()) := by
  induction lists with
  | nil => rfl
  | cons chunkList lists ih => simp [appendRequests, hput, ih]

/-- The task spawned by `append_chunk_queue`, over the entries of the queue. The `unreachable!()`
of its first `and_then` is taken as a panic of the task wherever it stands in the queue: the
upload stage queues Known lists only (`queueEntry`), so it is never reached. -/
def appendChunkQueue (queue : List (MergedChunkInfo B × Option (Except String Unit))) :
    Option (List AppendRequest × Except String Unit) := do
  let items ← queue.mapM awaitResponse
  appendRequests putIndex (mergeKnownChunks items)

theorem mapM_awaitResponse_eq_map_ok {queue : List (MergedChunkInfo B × Option (Except String Unit))}
    {items : List (MergedChunkInfo B)} (h : queue.mapM awaitResponse = some (items.map .ok)) :
    items = queue.map Prod.fst := by
  induction queue generalizing items with
  | nil =>
    simpa using h.symm
  | cons entry queue ih =>
    obtain ⟨item, hitem, hrest⟩ := Option.bind_eq_some_iff.mp (by simpa using h)
    obtain ⟨rest, hrest', hmap⟩ := Option.bind_eq_some_iff.mp hrest
    obtain ⟨y, ys, rfl, rfl, rfl⟩ := List.map_eq_cons_iff.mp (Option.some.inj hmap).symm
    rw [awaitResponse_eq_some_ok hitem, ih hrest', List.map_cons]

/-- A successful append task appends the pairs of the queued items, in the order of the
queue. -/
theorem appendChunkQueue_eq_ok {queue : List (MergedChunkInfo B × Option (Except String Unit))}
    {requests : List AppendRequest} (h : appendChunkQueue putIndex queue = some (requests, .ok ())) :
    requests.flatMap AppendRequest.pairs = queue.flatMap fun entry => entry.1.entries := by
  obtain ⟨items, hitems, happend⟩ := Option.bind_eq_some_iff.mp h
  obtain ⟨lists, hlists, rfl⟩ := appendRequests_eq_ok putIndex happend
  have hmerge : mergeKnownChunks items = (lists.map known).map .ok := by
    rw [hlists, List.map_map]
  obtain ⟨ys, rfl, hrun⟩ := mergeRun_of_mergeKnownChunksQueue hmerge
  have hys := mapM_awaitResponse_eq_map_ok hitems
  have := flatMap_entries_eq hrun.flatten_eq
  simp only [Option.toList_none, List.nil_append, hys, List.flatMap_map] at this
  simpa [List.flatMap_map, Function.comp_def] using this

end Append

/-- A stream of Known lists only is the stream of their lists. -/
theorem exists_eq_map_known {out : List (MergedChunkInfo B)}
    (h : ∀ x ∈ out, ∃ list, x = known list) :
    ∃ lists : List (List (Nat × Vector UInt8 32)), out = lists.map known := by
  induction out with
  | nil => exact ⟨[], rfl⟩
  | cons x out ih =>
    obtain ⟨list, rfl⟩ := h x List.mem_cons_self
    obtain ⟨lists, rfl⟩ := ih fun y hy => h y (List.mem_cons_of_mem _ hy)
    exact ⟨list :: lists, rfl⟩

/-! ## The whole upload -/

section Stream

variable (computeDigest : List UInt8 → Vector UInt8 32) (encode : List UInt8 → Except String B)
  (postChunk : ChunkInfo B → Except String Unit) (putIndex : AppendRequest → Except String Unit)

/-- `BackupWriter::upload_chunk_info_stream`, from the known chunks, on a chunk stream: the
append requests sent and the result, `none` for a panic. As `upload_result.await?.and(result)`,
an error of the append task comes before one of the upload stage. The upload statistics and
the index checksum it also returns are not modelled. -/
def uploadChunkInfoStream (knownChunks : List (Vector UInt8 32))
    (stream : List (Except String (List UInt8))) : Option (List AppendRequest × Except String Unit) := do
  let (queue, result) :=
    uploadQueue postChunk (mergeKnownChunks (chunkInfos computeDigest encode knownChunks 0 stream))
  let (requests, uploadResult) ← appendChunkQueue putIndex queue
  pure (requests, do uploadResult; result)

/-- The upload returns what the append task returns over the queue the upload stage filled,
with the error of the append task first. -/
theorem uploadChunkInfoStream_eq_some_iff {knownChunks : List (Vector UInt8 32)}
    {stream : List (Except String (List UInt8))} {requests : List AppendRequest}
    {result : Except String Unit} :
    uploadChunkInfoStream computeDigest encode postChunk putIndex knownChunks stream =
        some (requests, result) ↔
      ∃ uploadResult, appendChunkQueue putIndex (uploadQueue postChunk
          (mergeKnownChunks (chunkInfos computeDigest encode knownChunks 0 stream))).1 =
            some (requests, uploadResult) ∧
        result = (do uploadResult; (uploadQueue postChunk
          (mergeKnownChunks (chunkInfos computeDigest encode knownChunks 0 stream))).2) := by
  rcases hup : uploadQueue postChunk
    (mergeKnownChunks (chunkInfos computeDigest encode knownChunks 0 stream)) with ⟨queue, res⟩
  rcases happ : appendChunkQueue putIndex queue with _ | ⟨requests', uploadResult⟩ <;>
    simp [uploadChunkInfoStream, hup, happ, eq_comm]

/-- A successful upload of a chunk stream appends each chunk of the stream, in stream order, at
the running sum of the chunk lengths before it. -/
theorem uploadChunkInfoStream_appends {knownChunks : List (Vector UInt8 32)}
    {stream : List (List UInt8)} {requests : List AppendRequest}
    (h : uploadChunkInfoStream computeDigest encode postChunk putIndex knownChunks (stream.map .ok) =
      some (requests, .ok ())) :
    requests.flatMap AppendRequest.pairs = chunkPairs computeDigest stream := by
  obtain ⟨uploadResult, happend, hres⟩ := (uploadChunkInfoStream_eq_some_iff computeDigest encode
    postChunk putIndex).mp h
  obtain ⟨⟨⟩, rfl, hresult⟩ := Except.bind_eq_ok.mp hres.symm
  obtain ⟨xs, hxs, hqueue⟩ := uploadQueue_eq_ok postChunk hresult
  obtain ⟨items, hitems, hrun⟩ := mergeRun_of_mergeKnownChunksQueue hxs
  obtain ⟨hpairs, -⟩ := chunkInfos_eq_map_ok computeDigest encode hitems
  rw [hqueue] at happend
  rw [appendChunkQueue_eq_ok putIndex happend, List.flatMap_map]
  simp only [entries_queueEntry]
  rw [flatMap_entries_eq hrun.flatten_eq]
  simpa using hpairs

/-- When every encoding, post and append succeeds, the upload of every chunk stream
succeeds. -/
theorem uploadChunkInfoStream_eq_some_ok (hencode : ∀ data, ∃ chunk, encode data = .ok chunk)
    (hpost : ∀ info, postChunk info = .ok ()) (hput : ∀ request, putIndex request = .ok ())
    (knownChunks : List (Vector UInt8 32)) (stream : List (List UInt8)) :
    ∃ requests, uploadChunkInfoStream computeDigest encode postChunk putIndex knownChunks
      (stream.map .ok) = some (requests, .ok ()) := by
  obtain ⟨items, hitems⟩ := chunkInfos_of_encode_ok computeDigest encode hencode knownChunks 0 stream
  obtain ⟨xs, hxs, -⟩ := mergeKnownChunksQueue_ok none items
  -- every response to a post is `Ok`, so the append task sees the queued Known lists
  have hawait : (xs.map (queueEntry postChunk)).mapM awaitResponse =
      some ((xs.map fun x => (queueEntry postChunk x).1).map .ok) := by
    clear hxs
    induction xs with
    | nil => rfl
    | cons x xs ih =>
      rw [List.map_cons, List.mapM_cons, ih]
      cases x <;> simp [queueEntry, awaitResponse, hpost]
  obtain ⟨out, hout, hrun⟩ :=
    mergeKnownChunksQueue_ok none (xs.map fun x => (queueEntry postChunk x).1)
  obtain ⟨lists, rfl⟩ := exists_eq_map_known <| hrun.known fun x hx => by
    obtain ⟨y, -, rfl⟩ := List.mem_map.mp (by simpa using hx)
    cases y <;> simp [queueEntry]
  have hqueue : appendChunkQueue putIndex (xs.map (queueEntry postChunk)) =
      some (lists.map AppendRequest.ofChunkList, .ok ()) := by
    simp only [appendChunkQueue, hawait, Option.bind_eq_bind, Option.bind_some]
    rw [mergeKnownChunks, hout, List.map_map]
    exact appendRequests_map_known putIndex hput lists
  refine ⟨lists.map AppendRequest.ofChunkList, ?_⟩
  simp [uploadChunkInfoStream, hitems, mergeKnownChunks, hxs, uploadQueue_map_ok, hqueue]

end Stream

end BackupWriter

end ProxmoxBackup
