import ProxmoxBackup.Foundations.Except
import ProxmoxBackup.Tools.LruCache

/-!
# Reading a dynamic index archive (`pbs-datastore/src/dynamic_index.rs`)

A dynamic index lists the chunks of an archive by their end offsets and digests.
`BufferedDynamicReader` reads the archive back: it keeps the chunk last read in a buffer, with
its index and start offset, and older chunks in an `LruCache` of 32 entries. A read at an offset
takes the next chunk when the offset has just run past the buffer (the sequential shortcut),
keeps the buffer when the offset is in it, and otherwise finds the chunk by
`DynamicIndexReader::binary_search`.

What the reader is for is the abstract reader `RunSpec`: a cursor into the archive, the chunks'
data concatenated, where a read returns bytes from the cursor on and a seek moves the cursor to
the offset it is asked for (`seekTarget`), or fails where that offset is outside the archive.
With the index's end offsets strictly increasing, its size below `2 ^ 63`, and a chunk store
returning each chunk's data of the chunk's length, every run of reads and seeks is a run of the
abstract reader (`run_reads_archive`). The proof carries an invariant (`ReaderInv`): the buffer is empty or holds
the chunk it names, every chunk the cache holds is the chunk of its index
(`LruModel.step_access_forall` keeps that across the cache), and the cursor stays within the
archive.

`chunk_from_offset` finds the chunk of an offset by the same search: on an index with entries
it never panics and finds a chunk holding every offset below `index_bytes`, whatever the order
of the end offsets (`chunkFromOffset_spec`); on an empty index it panics
(`chunkFromOffset_empty_panics`).

Offsets are `u64` in the source and `Nat` here. Every sum `read` and `buffered_read` form stays
at most the archive size, itself an end offset of the index, so none of them wraps; `seek`
converts to `i64` and wraps, and is modelled so (`wrapI64`); on an archive whose size fits an
`i64`, the wrapped offset is the one asked for, or negative where that one is past the end
(`newOffset_cases`).
-/

namespace ProxmoxBackup

/-- `DynamicEntry`: the end offset of a chunk in the archive (`end()` of the little-endian field
`end_le`), and the chunk's digest. -/
structure DynamicEntry (D : Type) where
  endLe : Nat
  digest : D

/-- `ChunkReadInfo`: the range of a chunk in the archive, and its digest. -/
structure ChunkReadInfo (D : Type) where
  range : Nat × Nat
  digest : D

/-- `DynamicIndexReader`, with the entries of its index (the other fields are not read here). -/
structure DynamicIndexReader (D : Type) where
  index : List (DynamicEntry D)

namespace DynamicIndexReader

variable {D : Type}

/-- `DynamicIndexReader::chunk_end`; `none` where it panics (`chunk index out of range`). -/
def chunkEnd (r : DynamicIndexReader D) (pos : Nat) : Option Nat :=
  r.index[pos]?.map DynamicEntry.endLe

/-- `DynamicIndexReader::index_bytes`: the end of the last chunk. -/
def indexBytes (r : DynamicIndexReader D) : Nat :=
  match r.index.getLast? with
  | none => 0
  | some entry => entry.endLe

/-- `DynamicIndexReader::chunk_info`: a chunk starts where the one before it ends. -/
def chunkInfo (r : DynamicIndexReader D) (pos : Nat) : Option (ChunkReadInfo D) := do
  let entry ← r.index[pos]?
  let start := if pos = 0 then 0 else (r.index[pos - 1]?.map DynamicEntry.endLe).getD 0
  some ⟨(start, entry.endLe), entry.digest⟩

/-- `DynamicIndexReader::binary_search`. Each call halves the range of indices it searches, so
the recursion takes fewer steps than there are indices: `fuel` bounds it, and running out of it
is a search that does not end. `none` is also where `chunk_end` panics. -/
def binarySearch (r : DynamicIndexReader D) :
    Nat → Nat → Nat → Nat → Nat → Nat → Option (Except String Nat)
  | 0, _, _, _, _, _ => none
  | fuel + 1, startIdx, start, endIdx, «end», offset =>
    if offset ≥ «end» ∨ offset < start then some (.error "offset out of range")
    else if endIdx = startIdx then some (.ok startIdx)
    else
      let middleIdx := (startIdx + endIdx) / 2
      match r.chunkEnd middleIdx with
      | none => none
      | some middleEnd =>
        if offset < middleEnd then r.binarySearch fuel startIdx start middleIdx middleEnd offset
        else r.binarySearch fuel (middleIdx + 1) middleEnd endIdx «end» offset

/-- `DynamicIndexReader::chunk_from_offset`: the chunk holding an offset and the offset within
it, `none` inside where the offset is out of range; `none` outside where it panics. On an empty
index `index.len() - 1` underflows: a build with overflow checks panics there, and one without
wraps to `usize::MAX`, where `chunk_end` panics; here `length - 1` is `0`, where `chunk_end`
panics as well. The search gets as many rounds as there are entries. -/
def chunkFromOffset (r : DynamicIndexReader D) (offset : Nat) : Option (Option (Nat × Nat)) := do
  let endIdx := r.index.length - 1
  let «end» ← r.chunkEnd endIdx
  match ← r.binarySearch r.index.length 0 0 endIdx «end» offset with
  | .error _ => pure none
  | .ok foundIdx =>
    let foundStart ← if foundIdx = 0 then pure 0 else r.chunkEnd (foundIdx - 1)
    pure (some (foundIdx, offset - foundStart))

/-- The archive the index describes: the chunks' data, in order. -/
def archive (r : DynamicIndexReader D) (data : D → List UInt8) : List UInt8 :=
  (r.index.map fun entry => data entry.digest).flatten

end DynamicIndexReader

/-- `CachedChunk`: a chunk's range in the archive and its data. -/
structure CachedChunk where
  range : Nat × Nat
  data : List UInt8

/-- `CachedChunk::new`: the data must be as long as the range. -/
def CachedChunk.new (range : Nat × Nat) (data : List UInt8) : Except String CachedChunk :=
  if data.length ≠ range.2 - range.1 then
    .error s!"read chunk with wrong size ({data.length} != {range.2 - range.1})"
  else .ok ⟨range, data⟩

/-- `ChunkCacher::fetch`, over the chunk store's `read_chunk`. -/
def ChunkCacher.fetch {D : Type} (index : DynamicIndexReader D)
    (readChunk : D → Except String (List UInt8)) (idx : Nat) :
    Except String (Option CachedChunk) := do
  let info ← match index.chunkInfo idx with
    | some info => pure info
    | none => throw "chunk index out of range"
  let data ← readChunk info.digest
  let chunk ← CachedChunk.new info.range data
  pure (some chunk)

/-- `BufferedDynamicReader`, over a chunk store given by its `read_chunk`. -/
structure BufferedDynamicReader (D : Type) where
  index : DynamicIndexReader D
  archiveSize : Nat
  readBuffer : List UInt8
  bufferedChunkIdx : Nat
  bufferedChunkStart : Nat
  readOffset : Nat
  lruCache : LruCache Nat CachedChunk

/-- `std::io::SeekFrom`. -/
inductive SeekFrom where
  | start (offset : UInt64)
  | «end» (offset : Int64)
  | current (offset : Int64)

/-- A call on the reader: a read into a buffer of the given length, or a seek. -/
inductive ReaderOp where
  | read (bufLen : Nat)
  | seek (pos : SeekFrom)

/-- What a call returns: the bytes read, or the new offset. -/
inductive ReaderOut where
  | read (result : Except String (List UInt8))
  | seek (result : Except String Nat)

/-- An `i64` computed with wrapping arithmetic (the release build does not check overflow). -/
def wrapI64 (x : Int) : Int := (x + 2 ^ 63) % 2 ^ 64 - 2 ^ 63

namespace BufferedDynamicReader

variable {D : Type}

/-- `BufferedDynamicReader::new`. -/
def new (index : DynamicIndexReader D) : BufferedDynamicReader D :=
  { index
    archiveSize := index.indexBytes
    readBuffer := []
    bufferedChunkIdx := 0
    bufferedChunkStart := 0
    readOffset := 0
    lruCache := LruCache.new 32 }

variable (readChunk : D → Except String (List UInt8))

/-- `BufferedDynamicReader::buffer_chunk`: the chunk through the cache into the buffer. The
cache keeps what `access` left in it, also when the access fails. -/
def bufferChunk (rd : BufferedDynamicReader D) (idx : Nat) :
    Option (BufferedDynamicReader D × Except String Unit) := do
  let (cache, result) ← rd.lruCache.access idx (ChunkCacher.fetch rd.index readChunk)
  let rd := { rd with lruCache := cache }
  match result with
  | .error err => some (rd, .error err)
  | .ok none => some (rd, .error "chunk not found by cacher")
  | .ok (some cachedChunk) =>
    some ({ rd with
      readBuffer := cachedChunk.data
      bufferedChunkIdx := idx
      bufferedChunkStart := cachedChunk.range.1 }, .ok ())

/-- `&self.read_buffer[(offset - self.buffered_chunk_start) as usize..]`; `none` where the
subtraction or the slice panics. -/
def bufferFrom (rd : BufferedDynamicReader D) (offset : Nat) : Option (List UInt8) :=
  if offset < rd.bufferedChunkStart ∨ rd.readBuffer.length < offset - rd.bufferedChunkStart then
    none
  else some (rd.readBuffer.drop (offset - rd.bufferedChunkStart))

/-- The read from the buffer at the end of `buffered_read`, after `buffer_chunk` succeeded. -/
def readBuffered (offset : Nat) :
    BufferedDynamicReader D × Except String Unit →
      Option (BufferedDynamicReader D × Except String (List UInt8))
  | (rd, .error err) => some (rd, .error err)
  | (rd, .ok ()) => (rd.bufferFrom offset).map fun data => (rd, .ok data)

/-- The second half of `buffered_read`: the buffer, or else the chunk that `binary_search`
finds. -/
def searchedRead (rd : BufferedDynamicReader D) (offset : Nat) :
    Option (BufferedDynamicReader D × Except String (List UInt8)) :=
  if rd.readBuffer.length = 0 ∨ offset < rd.bufferedChunkStart ∨
      offset ≥ rd.bufferedChunkStart + rd.readBuffer.length then do
    let endIdx := rd.index.index.length - 1
    let «end» ← rd.index.chunkEnd endIdx
    match ← rd.index.binarySearch rd.index.index.length 0 0 endIdx «end» offset with
    | .error err => some (rd, .error err)
    | .ok idx => readBuffered offset (← rd.bufferChunk readChunk idx)
  else readBuffered offset (rd, .ok ())

/-- `BufferedDynamicReader::buffered_read`. -/
def bufferedRead (rd : BufferedDynamicReader D) (offset : Nat) :
    Option (BufferedDynamicReader D × Except String (List UInt8)) :=
  if offset = rd.archiveSize then some (rd, .ok [])
  else if rd.readBuffer.length > 0 ∧ rd.bufferedChunkIdx + 1 < rd.index.index.length ∧
      offset ≥ rd.bufferedChunkStart + rd.readBuffer.length then do
    -- the sequential shortcut: the next chunk, if the offset is in it
    let nextIdx := rd.bufferedChunkIdx + 1
    let nextEnd ← rd.index.chunkEnd nextIdx
    if offset < nextEnd then readBuffered offset (← rd.bufferChunk readChunk nextIdx)
    else rd.searchedRead readChunk offset
  else rd.searchedRead readChunk offset

/-- `Read::read` into a buffer of length `bufLen`: the bytes copied into it. -/
def read (rd : BufferedDynamicReader D) (bufLen : Nat) :
    Option (BufferedDynamicReader D × Except String (List UInt8)) := do
  let (rd, result) ← rd.bufferedRead readChunk rd.readOffset
  match result with
  | .error err => some (rd, .error err)
  | .ok data =>
    let n := if data.length > bufLen then bufLen else data.length
    some ({ rd with readOffset := rd.readOffset + n }, .ok (data.take n))

/-- The offset `Seek::seek` computes, with `as i64` and the additions wrapping. -/
def newOffset (rd : BufferedDynamicReader D) : SeekFrom → Int
  | .start startOffset => wrapI64 startOffset.toNat
  | .end endOffset => wrapI64 (wrapI64 rd.archiveSize + endOffset.toInt)
  | .current offset => wrapI64 (wrapI64 rd.readOffset + offset.toInt)

/-- `Seek::seek`. -/
def seek (rd : BufferedDynamicReader D) (pos : SeekFrom) :
    BufferedDynamicReader D × Except String Nat :=
  let newOffset := rd.newOffset pos
  if newOffset < 0 ∨ newOffset > wrapI64 rd.archiveSize then
    (rd, .error s!"seek is out of range {newOffset} ([0..{rd.archiveSize}])")
  else ({ rd with readOffset := newOffset.toNat }, .ok newOffset.toNat)

/-- One call. -/
def step (rd : BufferedDynamicReader D) :
    ReaderOp → Option (BufferedDynamicReader D × ReaderOut)
  | .read bufLen => (rd.read readChunk bufLen).map fun r => (r.1, .read r.2)
  | .seek pos => some ((rd.seek pos).1, .seek (rd.seek pos).2)

/-- A run of calls, with what each returns. -/
def run (rd : BufferedDynamicReader D) :
    List ReaderOp → Option (BufferedDynamicReader D × List ReaderOut)
  | [] => some (rd, [])
  | op :: ops => do
    let (rd, out) ← rd.step readChunk op
    let (rd, outs) ← rd.run ops
    some (rd, out :: outs)

end BufferedDynamicReader

/-! ## The abstract reader -/

/-- A read of at most `bufLen` bytes at `offset` of `archive` is right when it returns bytes
from the offset on, at least one while there are bytes left and room for them, and none at the
end. -/
def ReadOk (archive : List UInt8) (offset bufLen : Nat) (bytes : List UInt8) : Prop :=
  bytes <+: archive.drop offset ∧ bytes.length ≤ bufLen ∧
    (offset < archive.length → 0 < bufLen → 0 < bytes.length) ∧
    (offset = archive.length → bytes = [])

/-- Where a seek is asked to move the cursor of an archive of `size` bytes at `offset`: from
the start, the end or the cursor, without wrapping. -/
def seekTarget (size offset : Nat) : SeekFrom → Int
  | .start startOffset => startOffset.toNat
  | .end endOffset => size + endOffset.toInt
  | .current offset' => offset + offset'.toInt

/-- The runs of the abstract reader of `archive` from `offset`: each read is right at the
cursor and moves it past the bytes read; a seek moves the cursor to the offset it is asked for
and returns it, or fails and leaves the cursor where that offset is before the start or past the
end. -/
def RunSpec (archive : List UInt8) : Nat → List ReaderOp → List ReaderOut → Prop
  | _, [], outs => outs = []
  | offset, .read bufLen :: ops, outs => ∃ bytes rest, outs = .read (.ok bytes) :: rest ∧
      ReadOk archive offset bufLen bytes ∧ RunSpec archive (offset + bytes.length) ops rest
  | offset, .seek pos :: ops, outs =>
    if 0 ≤ seekTarget archive.length offset pos ∧ seekTarget archive.length offset pos ≤ archive.length
    then ∃ rest, outs = .seek (.ok (seekTarget archive.length offset pos).toNat) :: rest ∧
      RunSpec archive (seekTarget archive.length offset pos).toNat ops rest
    else ∃ err rest, outs = .seek (.error err) :: rest ∧ RunSpec archive offset ops rest

/-- A right read cut to the length of the buffer is a right read into the buffer. -/
theorem readOk_take {archive : List UInt8} {offset bufLen : Nat} {bytes : List UInt8}
    (hpre : bytes <+: archive.drop offset) (hpos : offset < archive.length → 0 < bytes.length)
    (hend : offset = archive.length → bytes = []) :
    ReadOk archive offset bufLen
      (bytes.take (if bytes.length > bufLen then bufLen else bytes.length)) := by
  refine ⟨(List.take_prefix _ _).trans hpre, ?_, ?_, ?_⟩
  · rw [List.length_take]
    split <;> omega
  · intro ho hbuf
    have := hpos ho
    rw [List.length_take]
    split <;> omega
  · intro ho
    rw [hend ho, List.take_nil]

/-! ## The index -/

namespace DynamicIndexReader

variable {D : Type} (r : DynamicIndexReader D)

/-- Where chunk `pos` starts: where the chunk before it ends. -/
def chunkStart (pos : Nat) : Nat := if pos = 0 then 0 else (r.chunkEnd (pos - 1)).getD 0

@[simp] theorem chunkStart_zero : r.chunkStart 0 = 0 := rfl

theorem chunkEnd_of_lt {pos : Nat} (h : pos < r.index.length) :
    r.chunkEnd pos = some r.index[pos].endLe := by
  simp [chunkEnd, h]

theorem chunkStart_succ {pos : Nat} (h : pos < r.index.length) :
    r.chunkStart (pos + 1) = r.index[pos].endLe := by
  simp [chunkStart, chunkEnd_of_lt r h]

theorem chunkInfo_of_lt {pos : Nat} (h : pos < r.index.length) :
    r.chunkInfo pos = some ⟨(r.chunkStart pos, r.index[pos].endLe), r.index[pos].digest⟩ := by
  cases pos with
  | zero => simp [chunkInfo, h]
  | succ pos =>
    have hpos : pos < r.index.length := by omega
    simp [chunkInfo, h, hpos, chunkStart_succ r hpos]

theorem chunkInfo_of_le {pos : Nat} (h : r.index.length ≤ pos) : r.chunkInfo pos = none := by
  simp [chunkInfo, h]

/-- The search from chunk `startIdx` to chunk `endIdx`, for an offset between the start of
the first and the end of the last, finds a chunk that holds the offset. No order of the end
offsets is needed: each call keeps the offset between the start of its first chunk and the
end of its last, and halves the chunks it searches. -/
theorem binarySearch_found {fuel startIdx endIdx offset : Nat} (hend : endIdx < r.index.length)
    (hidx : startIdx ≤ endIdx) (hfuel : endIdx - startIdx < fuel)
    (hstart : r.chunkStart startIdx ≤ offset) (hoffset : offset < r.index[endIdx].endLe) :
    ∃ idx, r.binarySearch fuel startIdx (r.chunkStart startIdx) endIdx r.index[endIdx].endLe
        offset = some (.ok idx) ∧
      ∃ h : idx < r.index.length, r.chunkStart idx ≤ offset ∧ offset < r.index[idx].endLe := by
  induction fuel generalizing startIdx endIdx with
  | zero => omega
  | succ fuel ih =>
    rw [binarySearch, if_neg (by omega)]
    by_cases hfound : endIdx = startIdx
    · subst hfound
      exact ⟨endIdx, by simp, hend, hstart, hoffset⟩
    · -- the middle chunk splits the search
      have hmid : (startIdx + endIdx) / 2 < endIdx := by omega
      have hmid' : (startIdx + endIdx) / 2 < r.index.length := by omega
      rw [if_neg hfound]
      simp only [chunkEnd_of_lt r hmid']
      by_cases hlow : offset < r.index[(startIdx + endIdx) / 2].endLe
      · rw [if_pos hlow]
        exact ih hmid' (by omega) (by omega) hstart hlow
      · rw [if_neg hlow, ← chunkStart_succ r hmid']
        exact ih hend (by omega) (by omega) (by rw [chunkStart_succ r hmid']; omega) hoffset

theorem indexBytes_of_pos (h : 0 < r.index.length) :
    r.indexBytes = r.index[r.index.length - 1].endLe := by
  rw [indexBytes, List.getLast?_eq_getElem?, List.getElem?_eq_getElem (by omega)]

/-- The search rejects an offset from the end of its last chunk on. -/
theorem binarySearch_of_le {fuel startIdx start endIdx «end» offset : Nat} (hfuel : 0 < fuel)
    (h : «end» ≤ offset) :
    r.binarySearch fuel startIdx start endIdx «end» offset = some (.error "offset out of range") := by
  obtain ⟨n, rfl⟩ : ∃ n, fuel = n + 1 := ⟨fuel - 1, by omega⟩
  rw [binarySearch, if_pos (.inl h)]

/-- On an index with entries, `chunk_from_offset` does not panic and its search ends: an
offset from `index_bytes` on is out of range, and an offset below it is found in a chunk that
holds it. The end offsets need no order. -/
theorem chunkFromOffset_spec (hne : r.index ≠ []) (offset : Nat) :
    (r.indexBytes ≤ offset → r.chunkFromOffset offset = some none) ∧
      (offset < r.indexBytes → ∃ idx rem info, r.chunkFromOffset offset = some (some (idx, rem)) ∧
        r.chunkInfo idx = some info ∧ info.range.1 + rem = offset ∧ offset < info.range.2) := by
  have hlen : 0 < r.index.length := List.length_pos_iff.mpr hne
  have hlast : r.index.length - 1 < r.index.length := by omega
  have hbytes := indexBytes_of_pos r hlen
  constructor
  · intro hout
    -- the search's first test rejects the offset
    simp only [chunkFromOffset, chunkEnd_of_lt r hlast, Option.bind_eq_bind, Option.bind_some,
      binarySearch_of_le r hlen (show r.index[r.index.length - 1].endLe ≤ offset by omega)]
    rfl
  · intro hin
    obtain ⟨idx, hsearch, hidx, hstart, hend⟩ :=
      @binarySearch_found D r r.index.length 0 (r.index.length - 1) offset hlast (Nat.zero_le _)
        (by omega) (by simp) (by omega)
    refine ⟨idx, offset - r.chunkStart idx, _, ?_, chunkInfo_of_lt r hidx, by dsimp only; omega,
      hend⟩
    rw [chunkStart_zero] at hsearch
    simp only [chunkFromOffset, chunkEnd_of_lt r hlast, Option.bind_eq_bind, Option.bind_some,
      hsearch]
    -- the found chunk starts where the one before it ends
    split
    · next h0 =>
      subst h0
      rfl
    · next h0 =>
      have hprev : idx - 1 < r.index.length := by omega
      simp [chunkStart, h0, chunkEnd_of_lt r hprev]

end DynamicIndexReader

/-- `chunk_from_offset` panics on an empty index, whose `index_bytes` is 0: on every offset, where
returning `None` is what an offset from `index_bytes` on calls for. -/
theorem chunkFromOffset_empty_panics :
    (⟨[]⟩ : DynamicIndexReader (Vector UInt8 32)).indexBytes = 0 ∧
      (⟨[]⟩ : DynamicIndexReader (Vector UInt8 32)).chunkFromOffset 0 = none :=
  ⟨rfl, rfl⟩

/-! ## The cacher -/

/-- `CachedChunk::new` succeeds exactly when the data is as long as the range. -/
theorem CachedChunk.new_eq_ok {range : Nat × Nat} {data : List UInt8} {c : CachedChunk} :
    CachedChunk.new range data = .ok c ↔ data.length = range.2 - range.1 ∧ c = ⟨range, data⟩ := by
  unfold CachedChunk.new
  split
  · next hlen => simp [hlen]
  · next hlen =>
    simp only [Decidable.not_not] at hlen
    simp only [Except.ok.injEq, hlen, true_and]
    exact eq_comm

namespace ChunkCacher

variable {D : Type} (r : DynamicIndexReader D) (readChunk : D → Except String (List UInt8))

/-- A chunk the cacher fetches is a chunk of the index: its range is the one `chunk_info`
gives, its data is what the store returns for its digest, and the data fills the range. -/
theorem fetch_eq_ok {i : Nat} {c : CachedChunk} (h : fetch r readChunk i = .ok (some c)) :
    ∃ hi : i < r.index.length, c.range = (r.chunkStart i, r.index[i].endLe) ∧
      readChunk r.index[i].digest = .ok c.data ∧ c.data.length = c.range.2 - c.range.1 := by
  rcases Nat.lt_or_ge i r.index.length with hi | hi
  · simp only [fetch, r.chunkInfo_of_lt hi, Except.pure_eq_ok, Except.ok_bind] at h
    obtain ⟨data, hread, h⟩ := Except.bind_eq_ok.mp h
    obtain ⟨chunk, hnew, h⟩ := Except.bind_eq_ok.mp h
    obtain ⟨hlen, rfl⟩ := CachedChunk.new_eq_ok.mp hnew
    cases h
    exact ⟨hi, rfl, hread, hlen⟩
  · rw [fetch, r.chunkInfo_of_le hi] at h
    cases h

/-- The cacher fetches chunk `i` of the index when the store returns data that fills its
range. -/
theorem fetch_of_read {i : Nat} (hi : i < r.index.length) {data : List UInt8}
    (hread : readChunk r.index[i].digest = .ok data)
    (hlen : data.length = r.index[i].endLe - r.chunkStart i) :
    fetch r readChunk i = .ok (some ⟨(r.chunkStart i, r.index[i].endLe), data⟩) := by
  simp [fetch, r.chunkInfo_of_lt hi, hread, CachedChunk.new, hlen]

end ChunkCacher

/-! ## The archive -/

namespace DynamicIndexReader

variable {D : Type} (r : DynamicIndexReader D) (readChunk : D → Except String (List UInt8))
  (data : D → List UInt8)

/-- The chunk store serves the index: the end offsets increase strictly, and the store returns
for every chunk of the index its data, which fills the range `chunk_info` gives. -/
structure StoreFits : Prop where
  ends_lt : (r.index.map DynamicEntry.endLe).Pairwise (· < ·)
  read_eq : ∀ e ∈ r.index, readChunk e.digest = .ok (data e.digest)
  length_eq : ∀ i info, r.chunkInfo i = some info →
    (data info.digest).length = info.range.2 - info.range.1

/-- The chunks' data, in order. -/
def chunks : List (List UInt8) := r.index.map fun entry => data entry.digest

/-- Where chunk `i` begins in the archive: the lengths of the chunks before it, added up. -/
def chunkPos (i : Nat) : Nat := (((r.chunks data).map List.length).take i).sum

theorem archive_eq_flatten : r.archive data = (r.chunks data).flatten := rfl

@[simp] theorem chunkPos_zero : r.chunkPos data 0 = 0 := by
  simp [chunkPos]

theorem chunkPos_succ {i : Nat} (hi : i < r.index.length) :
    r.chunkPos data (i + 1) = r.chunkPos data i + (data r.index[i].digest).length := by
  unfold chunkPos
  rw [List.sum_take_succ _ _ (by simpa [chunks] using hi)]
  simp [chunks]

theorem chunkPos_length : r.chunkPos data r.index.length = (r.archive data).length := by
  rw [archive_eq_flatten, List.length_flatten, chunkPos, List.take_of_length_le (by simp [chunks])]

variable {r readChunk data}

/-- Under a fitting store the index's end offsets are where the chunks end in the archive. -/
theorem StoreFits.endLe_eq (h : StoreFits r readChunk data) {i : Nat} (hi : i < r.index.length) :
    r.index[i].endLe = r.chunkPos data (i + 1) := by
  induction i with
  | zero =>
    have hlen := h.length_eq 0 _ (r.chunkInfo_of_lt hi)
    simp only [chunkStart_zero, Nat.sub_zero] at hlen
    rw [chunkPos_succ r data hi, chunkPos_zero, hlen, Nat.zero_add]
  | succ i ih =>
    have hi' : i < r.index.length := by omega
    have hlen := h.length_eq (i + 1) _ (r.chunkInfo_of_lt hi)
    have hlt : r.index[i].endLe < r.index[i + 1].endLe := by
      have := List.pairwise_iff_getElem.mp h.ends_lt i (i + 1) (by simpa using hi')
        (by simpa using hi) (by omega)
      simpa using this
    simp only [chunkStart_succ r hi'] at hlen
    rw [chunkPos_succ r data hi, ← ih hi']
    omega

theorem StoreFits.chunkStart_eq (h : StoreFits r readChunk data) {i : Nat}
    (hi : i < r.index.length) : r.chunkStart i = r.chunkPos data i := by
  cases i with
  | zero => rfl
  | succ i => rw [chunkStart_succ r (by omega), h.endLe_eq (by omega)]

/-- The archive is as long as the index says. -/
theorem StoreFits.indexBytes_eq (h : StoreFits r readChunk data) :
    r.indexBytes = (r.archive data).length := by
  rw [← chunkPos_length]
  unfold indexBytes
  split
  · next hnil =>
    rw [List.getLast?_eq_none_iff.mp hnil]
    rfl
  · next entry hlast =>
    have hne : r.index ≠ [] := by
      rintro hnil
      simp [hnil] at hlast
    have hpos : r.index.length - 1 < r.index.length := by
      have := List.length_pos_iff.mpr hne
      omega
    rw [List.getLast?_eq_getElem?, List.getElem?_eq_getElem hpos, Option.some.injEq] at hlast
    rw [← hlast, h.endLe_eq hpos]
    congr 1
    omega

/-- A fitting store's fetch: chunk `i` with its place in the archive and its data. -/
theorem StoreFits.fetch_eq (h : StoreFits r readChunk data) {i : Nat} (hi : i < r.index.length) :
    ChunkCacher.fetch r readChunk i =
      .ok (some ⟨(r.chunkPos data i, r.chunkPos data (i + 1)), data r.index[i].digest⟩) := by
  have hlen := h.length_eq i _ (r.chunkInfo_of_lt hi)
  rw [ChunkCacher.fetch_of_read r readChunk hi (h.read_eq _ (List.getElem_mem hi)) hlen,
    h.chunkStart_eq hi, h.endLe_eq hi]

/-- The archive from the start of chunk `i` on is the chunk, then the chunks after it. -/
theorem drop_archive {i : Nat} (hi : i < r.index.length) {k : Nat}
    (hk : k ≤ (data r.index[i].digest).length) :
    (r.archive data).drop (r.chunkPos data i + k) =
      (data r.index[i].digest).drop k ++ ((r.chunks data).drop (i + 1)).flatten := by
  have hi' : i < (r.chunks data).length := by simpa [chunks] using hi
  rw [← List.drop_drop, archive_eq_flatten, chunkPos, List.drop_sum_flatten,
    List.drop_eq_getElem_cons hi', List.flatten_cons,
    List.drop_append_of_le_length (by simpa [chunks] using hk)]
  simp [chunks]

/-- What a fitting store's fetch of the chunk around `offset` holds from there on is the archive
from `offset` to the end of the chunk. -/
theorem StoreFits.drop_fetched (h : StoreFits r readChunk data) {i offset : Nat} {c : CachedChunk}
    (hc : ChunkCacher.fetch r readChunk i = .ok (some c)) (hstart : c.range.1 ≤ offset)
    (hend : offset ≤ c.range.2) :
    c.data.drop (offset - c.range.1) = ((r.archive data).drop offset).take (c.range.2 - offset) := by
  obtain ⟨hi, -, -, -⟩ := ChunkCacher.fetch_eq_ok r readChunk hc
  rw [h.fetch_eq hi, Except.ok.injEq, Option.some.injEq] at hc
  subst hc
  have hsucc := chunkPos_succ r data hi
  dsimp only at hstart hend ⊢
  have hk : offset - r.chunkPos data i ≤ (data r.index[i].digest).length := by omega
  have hoff : offset = r.chunkPos data i + (offset - r.chunkPos data i) := by omega
  rw [hoff, drop_archive hi hk, List.take_left' (by simp; omega)]
  congr 1
  omega

end DynamicIndexReader

/-! ## The reader's invariant -/

namespace BufferedDynamicReader

variable {D : Type} (r : DynamicIndexReader D) (readChunk : D → Except String (List UInt8))

/-- The cache holds chunks as the cacher fetches them. -/
def CacheFetched (cache : LruCache Nat CachedChunk) : Prop :=
  ∃ ps l, LruCache.Represents cache ps l ∧
    ∀ e ∈ l, ChunkCacher.fetch r readChunk e.1 = .ok (some e.2)

/-- What a reader over the index `r` keeps: its index and the archive size of it, a read offset
within the archive, a buffer that is empty or holds the chunk it names as the cacher fetches
it, and a cache of fetched chunks. -/
structure ReaderInv (rd : BufferedDynamicReader D) : Prop where
  index_eq : rd.index = r
  archiveSize_eq : rd.archiveSize = r.indexBytes
  readOffset_le : rd.readOffset ≤ rd.archiveSize
  buffered : rd.readBuffer = [] ∨ ∃ c, ChunkCacher.fetch r readChunk rd.bufferedChunkIdx =
    .ok (some c) ∧ rd.readBuffer = c.data ∧ rd.bufferedChunkStart = c.range.1
  cached : CacheFetched r readChunk rd.lruCache

theorem new_inv : ReaderInv r readChunk (new r) :=
  ⟨rfl, rfl, Nat.zero_le _, .inl rfl, ⟨[], [], LruCache.new_represents 32, by simp⟩⟩

/-- `bytes` are what a chunk the cacher fetches holds from `offset` on, `offset` within it. -/
def ChunkWindow (offset : Nat) (bytes : List UInt8) : Prop :=
  ∃ i c, ChunkCacher.fetch r readChunk i = .ok (some c) ∧ c.range.1 ≤ offset ∧
    offset < c.range.2 ∧ bytes = c.data.drop (offset - c.range.1)

/-- A call at `offset` that keeps the invariant and the read offset and returns the chunk
window at `offset`. -/
def WindowRead (rd : BufferedDynamicReader D) (offset : Nat)
    (result : Option (BufferedDynamicReader D × Except String (List UInt8))) : Prop :=
  ∃ rd' bytes, result = some (rd', .ok bytes) ∧ ReaderInv r readChunk rd' ∧
    rd'.readOffset = rd.readOffset ∧ ChunkWindow r readChunk offset bytes

variable {r readChunk} {rd : BufferedDynamicReader D}

theorem ChunkWindow.length_pos {offset : Nat} {bytes : List UInt8}
    (h : ChunkWindow r readChunk offset bytes) : 0 < bytes.length := by
  obtain ⟨i, c, hc, hstart, hend, rfl⟩ := h
  obtain ⟨-, -, -, hlen⟩ := ChunkCacher.fetch_eq_ok r readChunk hc
  rw [List.length_drop]
  omega

/-- Loading a fetched chunk into the buffer keeps the invariant. -/
theorem ReaderInv.load (h : ReaderInv r readChunk rd) {idx : Nat} {c : CachedChunk}
    (hc : ChunkCacher.fetch r readChunk idx = .ok (some c)) {cache : LruCache Nat CachedChunk}
    (hcache : CacheFetched r readChunk cache) :
    ReaderInv r readChunk { rd with
      lruCache := cache
      readBuffer := c.data
      bufferedChunkIdx := idx
      bufferedChunkStart := c.range.1 } :=
  ⟨h.index_eq, h.archiveSize_eq, h.readOffset_le, .inr ⟨c, hc, rfl, rfl⟩, hcache⟩

/-- Buffering a chunk the cacher fetches loads it, from the cache or from the store, and the
cache keeps only fetched chunks. -/
theorem ReaderInv.bufferChunk (h : ReaderInv r readChunk rd) {idx : Nat} {c : CachedChunk}
    (hc : ChunkCacher.fetch r readChunk idx = .ok (some c)) :
    ∃ cache, rd.bufferChunk readChunk idx = some ({ rd with
        lruCache := cache
        readBuffer := c.data
        bufferedChunkIdx := idx
        bufferedChunkStart := c.range.1 }, .ok ()) ∧
      CacheFetched r readChunk cache := by
  obtain ⟨ps, l, hrep, hall⟩ := h.cached
  obtain ⟨cache, ps', result, hacc, hout, hrep'⟩ :=
    hrep.access idx (ChunkCacher.fetch r readChunk)
  -- the cache returns and keeps fetched chunks only
  obtain ⟨hkeep, hret⟩ := LruModel.step_access_forall
    (P := fun i c => ChunkCacher.fetch r readChunk i = .ok (some c)) hall (fun _ hv => hv)
    rd.lruCache.capacity
  obtain ⟨v, hv⟩ := LruModel.step_access_of_fetch (l := l) hc rd.lruCache.capacity
  have hvc : v = c := by
    have hfetched := hret v hv
    rw [hc, Except.ok.injEq, Option.some.injEq] at hfetched
    exact hfetched.symm
  rw [hout, hvc] at hv
  cases hv
  refine ⟨cache, ?_, ps', _, hrep', hkeep⟩
  simp [BufferedDynamicReader.bufferChunk, h.index_eq, hacc]

theorem bufferFrom_eq {offset : Nat} (hstart : rd.bufferedChunkStart ≤ offset)
    (hend : offset ≤ rd.bufferedChunkStart + rd.readBuffer.length) :
    rd.bufferFrom offset = some (rd.readBuffer.drop (offset - rd.bufferedChunkStart)) := by
  rw [bufferFrom, if_neg (by omega)]

/-- Reading from a buffered chunk around the offset returns the chunk from the offset on. -/
theorem readBuffered_fetched {idx offset : Nat} {c : CachedChunk}
    (hc : ChunkCacher.fetch r readChunk idx = .ok (some c)) (hbuf : rd.readBuffer = c.data)
    (hstart : rd.bufferedChunkStart = c.range.1) (h1 : c.range.1 ≤ offset)
    (h2 : offset < c.range.2) :
    readBuffered offset (rd, .ok ()) = some (rd, .ok (c.data.drop (offset - c.range.1))) := by
  obtain ⟨-, -, -, hlen⟩ := ChunkCacher.fetch_eq_ok r readChunk hc
  rw [readBuffered, bufferFrom_eq (by omega) (by rw [hbuf]; omega), hbuf, hstart]
  rfl

/-- Buffering a fetched chunk around the offset, then reading from it. -/
theorem ReaderInv.load_read (h : ReaderInv r readChunk rd) {idx offset : Nat} {c : CachedChunk}
    (hc : ChunkCacher.fetch r readChunk idx = .ok (some c)) (h1 : c.range.1 ≤ offset)
    (h2 : offset < c.range.2) :
    ∃ rd', rd.bufferChunk readChunk idx = some (rd', .ok ()) ∧
      readBuffered offset (rd', .ok ()) = some (rd', .ok (c.data.drop (offset - c.range.1))) ∧
      ReaderInv r readChunk rd' ∧ rd'.readOffset = rd.readOffset := by
  obtain ⟨cache, hbuf, hcache⟩ := h.bufferChunk hc
  exact ⟨_, hbuf, readBuffered_fetched hc rfl rfl h1 h2, h.load hc hcache, rfl⟩

/-- An offset below the archive size is in a nonempty index. -/
theorem ReaderInv.length_pos (h : ReaderInv r readChunk rd) {offset : Nat}
    (ho : offset < rd.archiveSize) : 0 < r.index.length := by
  rw [h.archiveSize_eq] at ho
  unfold DynamicIndexReader.indexBytes at ho
  split at ho
  · next hlast =>
    exact absurd ho (Nat.not_lt_zero _)
  · next entry hlast =>
    exact List.length_pos_iff.mpr fun hnil => by simp [hnil] at hlast

theorem ReaderInv.archiveSize_eq_last (h : ReaderInv r readChunk rd)
    (hpos : r.index.length - 1 < r.index.length) :
    rd.archiveSize = r.index[r.index.length - 1].endLe := by
  rw [h.archiveSize_eq, DynamicIndexReader.indexBytes, List.getLast?_eq_getElem?,
    List.getElem?_eq_getElem hpos]

/-- The second half of `buffered_read` returns the window of the chunk around the offset:
the buffered one if it holds the offset, else the one the binary search finds. -/
theorem ReaderInv.searchedRead (h : ReaderInv r readChunk rd)
    (hfetch : ∀ i < r.index.length, ∃ c, ChunkCacher.fetch r readChunk i = .ok (some c))
    {offset : Nat} (ho : offset < rd.archiveSize) :
    WindowRead r readChunk rd offset (rd.searchedRead readChunk offset) := by
  unfold BufferedDynamicReader.searchedRead
  split
  · -- the buffer misses the offset: search the whole index
    have hpos : r.index.length - 1 < r.index.length := by
      have := h.length_pos ho
      omega
    obtain ⟨idx, hsearch, hidx, hlo, hhi⟩ := r.binarySearch_found hpos (Nat.zero_le _)
      (by omega : r.index.length - 1 - 0 < r.index.length) (Nat.zero_le _)
      (h.archiveSize_eq_last hpos ▸ ho)
    obtain ⟨c, hc⟩ := hfetch idx hidx
    obtain ⟨_, hrange, -, -⟩ := ChunkCacher.fetch_eq_ok r readChunk hc
    have h1 : c.range.1 ≤ offset := by rw [hrange]; exact hlo
    have h2 : offset < c.range.2 := by rw [hrange]; exact hhi
    obtain ⟨rd', hbuf, hread, hinv, hoff⟩ := h.load_read hc h1 h2
    simp only [DynamicIndexReader.chunkStart_zero] at hsearch
    refine ⟨rd', _, ?_, hinv, hoff, idx, c, hc, h1, h2, rfl⟩
    simp [h.index_eq, r.chunkEnd_of_lt hpos, hsearch, hbuf, hread]
  · -- the buffer holds the offset
    next hhit =>
    simp only [not_or, not_lt, not_le] at hhit
    obtain ⟨hlen, hstart, hend⟩ := hhit
    rcases h.buffered with hnil | ⟨c, hc, hbuf, hstart'⟩
    · simp [hnil] at hlen
    obtain ⟨-, -, -, hclen⟩ := ChunkCacher.fetch_eq_ok r readChunk hc
    rw [hbuf] at hend hlen
    rw [hstart'] at hstart hend
    refine ⟨rd, _, readBuffered_fetched hc hbuf hstart' hstart (by omega), h, rfl,
      rd.bufferedChunkIdx, c, hc, hstart, by omega, rfl⟩

/-- `buffered_read` below the archive size returns the window of the chunk around the offset:
by the sequential shortcut when the offset is in the chunk after the buffered one, else as the
second half of `buffered_read` finds it. -/
theorem ReaderInv.bufferedRead_window (h : ReaderInv r readChunk rd)
    (hfetch : ∀ i < r.index.length, ∃ c, ChunkCacher.fetch r readChunk i = .ok (some c))
    {offset : Nat} (ho : offset < rd.archiveSize) :
    WindowRead r readChunk rd offset (rd.bufferedRead readChunk offset) := by
  rw [BufferedDynamicReader.bufferedRead, if_neg (by omega)]
  split
  · next hseq =>
    obtain ⟨hlen, hnext, hpast⟩ := hseq
    rw [h.index_eq] at hnext
    simp only [h.index_eq, r.chunkEnd_of_lt hnext, Option.bind_eq_bind, Option.bind_some]
    split
    · next hin =>
      -- the buffered chunk ends where the next one starts
      rcases h.buffered with hnil | ⟨c, hc, hbuf, hstart⟩
      · simp [hnil] at hlen
      obtain ⟨hidx, hrange, -, hclen⟩ := ChunkCacher.fetch_eq_ok r readChunk hc
      obtain ⟨c', hc'⟩ := hfetch _ hnext
      obtain ⟨_, hrange', -, -⟩ := ChunkCacher.fetch_eq_ok r readChunk hc'
      have h1 : c'.range.1 ≤ offset := by
        rw [hbuf, hstart] at hpast
        rw [hbuf] at hlen
        rw [hrange] at hclen hpast
        rw [hrange', r.chunkStart_succ hidx]
        dsimp only at hclen hpast ⊢
        omega
      have h2 : offset < c'.range.2 := by rw [hrange']; exact hin
      obtain ⟨rd', hbuf', hread, hinv, hoff⟩ := h.load_read hc' h1 h2
      refine ⟨rd', _, ?_, hinv, hoff, _, c', hc', h1, h2, rfl⟩
      simp [hbuf', hread]
    · exact h.searchedRead hfetch ho
  · exact h.searchedRead hfetch ho

/-- Moving the read offset within the archive keeps the invariant. -/
theorem ReaderInv.setReadOffset (h : ReaderInv r readChunk rd) {offset : Nat}
    (ho : offset ≤ rd.archiveSize) : ReaderInv r readChunk { rd with readOffset := offset } :=
  ⟨h.index_eq, h.archiveSize_eq, ho, h.buffered, h.cached⟩

/-- Under a fitting store a chunk window is the archive from its offset on. -/
theorem ChunkWindow.prefix_of_fits {data : D → List UInt8}
    (hfit : DynamicIndexReader.StoreFits r readChunk data) {offset : Nat} {bytes : List UInt8}
    (hw : ChunkWindow r readChunk offset bytes) : bytes <+: (r.archive data).drop offset := by
  obtain ⟨i, c, hc, h1, h2, rfl⟩ := hw
  rw [hfit.drop_fetched hc h1 h2.le]
  exact List.take_prefix _ _

theorem ReaderInv.archiveSize_eq_length {data : D → List UInt8}
    (hfit : DynamicIndexReader.StoreFits r readChunk data) (h : ReaderInv r readChunk rd) :
    rd.archiveSize = (r.archive data).length :=
  h.archiveSize_eq.trans hfit.indexBytes_eq

/-- Under a fitting store `buffered_read` at the read offset returns the archive from there on,
at least one byte of it below the archive size and none at the end. -/
theorem ReaderInv.bufferedRead_archive {data : D → List UInt8}
    (hfit : DynamicIndexReader.StoreFits r readChunk data) (h : ReaderInv r readChunk rd) :
    ∃ rd' bytes, rd.bufferedRead readChunk rd.readOffset = some (rd', .ok bytes) ∧
      ReaderInv r readChunk rd' ∧ rd'.readOffset = rd.readOffset ∧
      bytes <+: (r.archive data).drop rd.readOffset ∧
      (rd.readOffset < (r.archive data).length → 0 < bytes.length) ∧
      (rd.readOffset = (r.archive data).length → bytes = []) := by
  have hsize := h.archiveSize_eq_length hfit
  rcases Nat.lt_or_ge rd.readOffset rd.archiveSize with hlt | hge
  · obtain ⟨rd', bytes, hread, hinv, hoff, hw⟩ :=
      h.bufferedRead_window (fun i hi => ⟨_, hfit.fetch_eq hi⟩) hlt
    exact ⟨rd', bytes, hread, hinv, hoff, hw.prefix_of_fits hfit, fun _ => hw.length_pos,
      by omega⟩
  · have hend : rd.readOffset = rd.archiveSize := Nat.le_antisymm h.readOffset_le hge
    exact ⟨rd, [], by rw [BufferedDynamicReader.bufferedRead, if_pos hend], h, rfl,
      List.nil_prefix, by omega, fun _ => rfl⟩

/-- Under a fitting store `read` returns a right read of the archive at the read offset and
moves the offset past it. -/
theorem ReaderInv.read {data : D → List UInt8}
    (hfit : DynamicIndexReader.StoreFits r readChunk data) (h : ReaderInv r readChunk rd)
    (bufLen : Nat) :
    ∃ rd' bytes, rd.read readChunk bufLen = some (rd', .ok bytes) ∧ ReaderInv r readChunk rd' ∧
      rd'.readOffset = rd.readOffset + bytes.length ∧
      ReadOk (r.archive data) rd.readOffset bufLen bytes := by
  obtain ⟨rd₁, bytes, hread, hinv, hoff, hpre, hpos, hend⟩ := h.bufferedRead_archive hfit
  have hsize := hinv.archiveSize_eq_length hfit
  have hle : rd.readOffset ≤ (r.archive data).length :=
    h.archiveSize_eq_length hfit ▸ h.readOffset_le
  have hlen : bytes.length ≤ (r.archive data).length - rd.readOffset := by
    simpa using hpre.length_le
  -- `read` copies `n` bytes, as many as fit
  obtain ⟨n, hn⟩ : ∃ n, n = if bytes.length > bufLen then bufLen else bytes.length := ⟨_, rfl⟩
  have hok : ReadOk (r.archive data) rd.readOffset bufLen (bytes.take n) :=
    hn ▸ readOk_take hpre hpos hend
  have hnlen : n ≤ bytes.length := by
    rw [hn]
    split <;> omega
  refine ⟨{ rd₁ with readOffset := rd₁.readOffset + n }, bytes.take n, ?_,
    hinv.setReadOffset (by rw [hoff, hsize]; omega), ?_, hok⟩
  · simp [BufferedDynamicReader.read, hread, hn]
  · show rd₁.readOffset + n = _
    rw [hoff, List.length_take]
    omega

theorem wrapI64_le {x : Int} (hx : 0 ≤ x) : wrapI64 x ≤ x := by
  unfold wrapI64
  omega

/-- A seek that succeeds moves the read offset to the offset it returns, within the archive. -/
theorem seek_eq_ok {pos : SeekFrom} {rd' : BufferedDynamicReader D} {offset : Nat}
    (h : rd.seek pos = (rd', .ok offset)) :
    rd' = { rd with readOffset := offset } ∧ offset ≤ rd.archiveSize := by
  simp only [seek] at h
  split at h
  · cases h
  · next hrange =>
    simp only [Prod.mk.injEq, Except.ok.injEq] at h
    obtain ⟨rfl, rfl⟩ := h
    have := wrapI64_le (Int.natCast_nonneg rd.archiveSize)
    exact ⟨rfl, by omega⟩

/-- A seek that fails leaves the reader as it was. -/
theorem seek_eq_error {pos : SeekFrom} {rd' : BufferedDynamicReader D} {err : String}
    (h : rd.seek pos = (rd', .error err)) : rd' = rd := by
  simp only [seek] at h
  split at h
  · simp only [Prod.mk.injEq] at h
    exact h.1.symm
  · cases h

theorem wrapI64_of_lt {x : Int} (h0 : -2 ^ 63 ≤ x) (h1 : x < 2 ^ 63) : wrapI64 x = x := by
  unfold wrapI64
  omega

/-- On an archive whose size fits an `i64`, the offset `seek` computes with wrapping is the one
it is asked for, or it wrapped below zero from past the end. -/
theorem newOffset_cases (hsize : rd.archiveSize < 2 ^ 63) (hoff : rd.readOffset ≤ rd.archiveSize)
    (pos : SeekFrom) :
    rd.newOffset pos = seekTarget rd.archiveSize rd.readOffset pos ∨
      (rd.newOffset pos < 0 ∧ (rd.archiveSize : Int) < seekTarget rd.archiveSize rd.readOffset pos) := by
  have hs : wrapI64 rd.archiveSize = rd.archiveSize := wrapI64_of_lt (by omega) (by omega)
  have hr : wrapI64 rd.readOffset = rd.readOffset := wrapI64_of_lt (by omega) (by omega)
  cases pos with
  | start o =>
    have ho := UInt64.toNat_lt o
    simp only [newOffset, seekTarget]
    unfold wrapI64
    omega
  | «end» o =>
    have ho₁ := Int64.le_toInt o
    have ho₂ := Int64.toInt_lt o
    simp only [newOffset, seekTarget, hs]
    unfold wrapI64
    omega
  | current o =>
    have ho₁ := Int64.le_toInt o
    have ho₂ := Int64.toInt_lt o
    simp only [newOffset, seekTarget, hr]
    unfold wrapI64
    omega

/-- A seek to an offset within the archive moves the read offset there and returns it. -/
theorem seek_of_le (hsize : rd.archiveSize < 2 ^ 63) (hoff : rd.readOffset ≤ rd.archiveSize)
    {pos : SeekFrom}
    (hin : 0 ≤ seekTarget rd.archiveSize rd.readOffset pos ∧
      seekTarget rd.archiveSize rd.readOffset pos ≤ rd.archiveSize) :
    rd.seek pos = ({ rd with readOffset := (seekTarget rd.archiveSize rd.readOffset pos).toNat },
      .ok (seekTarget rd.archiveSize rd.readOffset pos).toNat) := by
  have hs : wrapI64 rd.archiveSize = rd.archiveSize := wrapI64_of_lt (by omega) (by omega)
  rcases newOffset_cases hsize hoff pos with heq | ⟨-, hpast⟩
  · simp only [seek, heq, hs]
    rw [if_neg (by omega)]
  · omega

/-- A seek to an offset before the start or past the end fails and leaves the reader. -/
theorem seek_of_not_le (hsize : rd.archiveSize < 2 ^ 63) (hoff : rd.readOffset ≤ rd.archiveSize)
    {pos : SeekFrom}
    (hout : ¬(0 ≤ seekTarget rd.archiveSize rd.readOffset pos ∧
      seekTarget rd.archiveSize rd.readOffset pos ≤ rd.archiveSize)) :
    ∃ err, rd.seek pos = (rd, .error err) := by
  have hs : wrapI64 rd.archiveSize = rd.archiveSize := wrapI64_of_lt (by omega) (by omega)
  simp only [seek, hs]
  rw [if_pos]
  · exact ⟨_, rfl⟩
  · rcases newOffset_cases hsize hoff pos with heq | ⟨hneg, -⟩
    · rw [heq]
      omega
    · exact .inl hneg

theorem ReaderInv.seek (h : ReaderInv r readChunk rd) (pos : SeekFrom) :
    ReaderInv r readChunk (rd.seek pos).1 := by
  rcases hs : rd.seek pos with ⟨rd', _ | offset⟩
  · rw [seek_eq_error hs]
    exact h
  · obtain ⟨rfl, hle⟩ := seek_eq_ok hs
    exact h.setReadOffset hle

/-- Under a fitting store every run of reads and seeks from a reader that keeps the invariant
is a run of the abstract reader of the archive from the read offset. -/
theorem ReaderInv.run {data : D → List UInt8}
    (hfit : DynamicIndexReader.StoreFits r readChunk data) (hsize : r.indexBytes < 2 ^ 63)
    (h : ReaderInv r readChunk rd) (ops : List ReaderOp) :
    ∃ rd' outs, rd.run readChunk ops = some (rd', outs) ∧
      RunSpec (r.archive data) rd.readOffset ops outs := by
  induction ops generalizing rd with
  | nil => exact ⟨rd, [], rfl, rfl⟩
  | cons op ops ih =>
    cases op with
    | read bufLen =>
      obtain ⟨rd₁, bytes, hread, hinv, hoff, hok⟩ := h.read hfit bufLen
      obtain ⟨rd₂, outs, hrun, hspec⟩ := ih hinv
      rw [hoff] at hspec
      exact ⟨rd₂, _, by simp [BufferedDynamicReader.run, step, hread, hrun], bytes, outs, rfl,
        hok, hspec⟩
    | seek pos =>
      obtain ⟨rd₂, outs, hrun, hspec⟩ := ih (h.seek pos)
      refine ⟨rd₂, .seek (rd.seek pos).2 :: outs, by simp [BufferedDynamicReader.run, step, hrun], ?_⟩
      have hsize' : rd.archiveSize < 2 ^ 63 := h.archiveSize_eq ▸ hsize
      simp only [RunSpec, ← h.archiveSize_eq_length hfit]
      -- the seek goes where it is asked to within the archive, and fails elsewhere
      split_ifs with hin
      · rw [seek_of_le hsize' h.readOffset_le hin] at hspec ⊢
        exact ⟨outs, rfl, hspec⟩
      · obtain ⟨err, hseek⟩ := seek_of_not_le hsize' h.readOffset_le hin
        rw [hseek] at hspec ⊢
        exact ⟨err, outs, rfl, hspec⟩

/-- Over an index whose end offsets increase strictly and whose size fits the `i64` that `seek`
computes in, and a chunk store that returns for each
chunk of the index data that fills the chunk's range, every run of reads and seeks from
`BufferedDynamicReader::new` is a run of the abstract reader of the concatenated chunks: each
read returns bytes of the archive from the current offset on, at least one while bytes are left
and the buffer has room, and none at the end; each seek moves the offset where it is asked to, or
fails and leaves it where that is outside the archive. -/
theorem run_reads_archive (r : DynamicIndexReader D) (readChunk : D → Except String (List UInt8))
    (data : D → List UInt8) (hends : (r.index.map DynamicEntry.endLe).Pairwise (· < ·))
    (hbytes : r.indexBytes < 2 ^ 63) (hread : ∀ e ∈ r.index, readChunk e.digest = .ok (data e.digest))
    (hsize : ∀ i info, r.chunkInfo i = some info →
      (data info.digest).length = info.range.2 - info.range.1)
    (ops : List ReaderOp) :
    ∃ rd outs, (new r).run readChunk ops = some (rd, outs) ∧ RunSpec (r.archive data) 0 ops outs :=
  (new_inv r readChunk).run ⟨hends, hread, hsize⟩ hbytes ops

/-- Two chunks of 2 and 3 bytes, whose digests are their lengths, read with a read of 4 bytes, a
seek back to offset 1 and a read of 10 bytes. -/
theorem run_reads_archive_two_chunks :
    (([⟨2, 2⟩, ⟨5, 3⟩] : List (DynamicEntry Nat)).map DynamicEntry.endLe).Pairwise (· < ·) ∧
    (⟨[⟨2, 2⟩, ⟨5, 3⟩]⟩ : DynamicIndexReader Nat).indexBytes < 2 ^ 63 ∧
    (∀ e ∈ ([⟨2, 2⟩, ⟨5, 3⟩] : List (DynamicEntry Nat)),
      (.ok (List.replicate e.digest 7) : Except String (List UInt8)) =
        .ok (List.replicate e.digest 7)) ∧
    (∀ i info, (⟨[⟨2, 2⟩, ⟨5, 3⟩]⟩ : DynamicIndexReader Nat).chunkInfo i = some info →
      (List.replicate info.digest (7 : UInt8)).length = info.range.2 - info.range.1) ∧
    ∃ rd outs, (new (⟨[⟨2, 2⟩, ⟨5, 3⟩]⟩ : DynamicIndexReader Nat)).run
        (fun d => .ok (List.replicate d 7)) [.read 4, .seek (.start 1), .read 10] =
          some (rd, outs) ∧
      RunSpec ((⟨[⟨2, 2⟩, ⟨5, 3⟩]⟩ : DynamicIndexReader Nat).archive fun d => List.replicate d 7)
        0 [.read 4, .seek (.start 1), .read 10] outs := by
  have hsize : ∀ i info, (⟨[⟨2, 2⟩, ⟨5, 3⟩]⟩ : DynamicIndexReader Nat).chunkInfo i = some info →
      (List.replicate info.digest (7 : UInt8)).length = info.range.2 - info.range.1 := by
    intro i info h
    rcases i with _ | _ | i <;> simp [DynamicIndexReader.chunkInfo] at h <;> subst h <;> rfl
  exact ⟨by decide, by decide, fun _ _ => rfl, hsize,
    run_reads_archive _ (fun d => .ok (List.replicate d 7)) _ (by decide) (by decide) (fun _ _ => rfl)
      hsize _⟩

end BufferedDynamicReader

end ProxmoxBackup
