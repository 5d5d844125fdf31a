import ProxmoxBackup.Tape.Blocked
import ProxmoxBackup.Datastore.DataBlob

/-!
# Chunk archives on tape (`src/tape/file_formats/chunk_archive.rs`)

A chunk archive is a tape file of the form
`| MediaContentHeader | header data | ( ChunkArchiveEntryHeader | DataBlob )* |`, written
through a `BlockedWriter`. `ChunkArchiveWriter::try_write_chunk` writes an entry header and then
the blob in pieces of `PROXMOX_TAPE_BLOCK_SIZE` bytes; with `close_on_leom` it finishes the tape
file as soon as a write reports the logical end of media, and returns whether the chunk was
complete. `ChunkArchiveDecoder::next_chunk` reads entries back and treats a truncated last entry
as the end of the data.

* `nextChunk_entry`, `nextChunk_end`: over a reader that streams the archive's bytes, the decoder
  returns each complete entry, and `None` at the end of the data.
* `Holds.tryWriteChunk_of_not_leom`, `Holds.tryWriteChunk_single_leom`: a chunk whose blocks
  raise no end-of-media warning is written whole and reported written; a chunk of one piece whose
  block raises the warning is written whole, the file is finished, and the chunk is reported
  complete exactly when the piece is shorter than a tape block.
* `try_write_chunk_reports_complete_chunk_unwritten`: a blob of exactly one tape block whose write
  raises the warning is reported not written, although the tape holds it whole and the decoder
  returns it.
-/

namespace ProxmoxBackup.Tape

open ByteRead

/-! ## The archive's headers -/

/-- `PROXMOX_BACKUP_CONTENT_HEADER_MAGIC_1_0`. -/
def contentHeaderMagic : List UInt8 := [99, 238, 20, 159, 205, 242, 155, 12]

/-- `PROXMOX_BACKUP_CHUNK_ARCHIVE_MAGIC_1_1`. -/
def chunkArchiveMagic : List UInt8 := [109, 49, 99, 109, 215, 2, 131, 191]

/-- `PROXMOX_BACKUP_CHUNK_ARCHIVE_ENTRY_MAGIC_1_0`. -/
def chunkArchiveEntryMagic : List UInt8 := [72, 87, 109, 242, 222, 66, 143, 220]

/-- `MediaContentHeader`, without its fixed magic number. -/
structure MediaContentHeader where
  contentMagic : List UInt8
  uuid : List UInt8
  ctime : Int
  size : UInt32
  partNumber : UInt8

namespace MediaContentHeader

/-- `MediaContentHeader::new`: the UUID and the creation time come from the system. -/
def new (contentMagic : List UInt8) (size : UInt32) (uuid : List UInt8) (ctime : Int) :
    MediaContentHeader :=
  ⟨contentMagic, uuid, ctime, size, 0⟩

/-- The bytes of `header.to_le()` as `#[repr(C, packed)]` lays them out; the three reserved bytes
are zero. -/
def toBytes (h : MediaContentHeader) : List UInt8 :=
  contentHeaderMagic ++ h.contentMagic ++ h.uuid ++ LittleEndian.toBytes 8 (h.ctime % 2 ^ 64).toNat ++
    LittleEndian.toBytes 4 h.size.toNat ++ [h.partNumber, 0, 0, 0]

theorem length_toBytes {h : MediaContentHeader} (hm : h.contentMagic.length = 8) (hu : h.uuid.length = 16) :
    h.toBytes.length = 48 := by
  simp [toBytes, contentHeaderMagic, hm, hu]

end MediaContentHeader

/-- `serde_json::to_string_pretty(&ChunkArchiveHeader { store })`. A datastore name matches
`SAFE_ID_REGEX`, so nothing in it is escaped. -/
def archiveHeaderJson (store : String) : List UInt8 :=
  ("\x7b\n  \"store\": \"" ++ store ++ "\"\n\x7d").toUTF8.data.toList

/-- `ChunkArchiveEntryHeader { magic, digest, size }.to_le()` as bytes: the magic, the 32 bytes of
the digest and the blob's size as a little-endian `u64`. -/
def entryHeader (digest : List UInt8) (size : Nat) : List UInt8 :=
  chunkArchiveEntryMagic ++ digest ++ LittleEndian.toBytes 8 size

namespace BlockedWriter

variable {W : Type} (bw : BlockWrite W)

/-- `TapeWrite::write_header`: the header, then its data unless that is empty. -/
def writeHeader (self : BlockedWriter W) (header : MediaContentHeader) (data : List UInt8) :
    Except String (BlockedWriter W × Bool) :=
  if header.size.toNat ≠ data.length then .error "write_header with wrong size - internal error"
  else
    match writeAll bw self header.toBytes with
    | .error e => .error e
    | .ok (self, res) => if data.isEmpty then .ok (self, res) else writeAll bw self data

end BlockedWriter

/-! ## Writing -/

/-- `ChunkArchiveWriter`. The writer borrows a drive for the lifetime `'a`; once the writer is
finished and dropped, `device` is the state it left the drive in. After an error the writer is
not used again, so a failed call returns only the error. -/
structure ChunkArchiveWriter (W : Type) where
  writer : Option (BlockedWriter W)
  bytesWritten : Nat
  closeOnLeom : Bool
  device : W

namespace ChunkArchiveWriter

variable {W : Type} (bw : BlockWrite W)

/-- `ChunkArchiveWriter::new`: writes the content header and the archive header naming the
datastore, and returns the header's UUID. -/
def new (writer : BlockedWriter W) (store : String) (closeOnLeom : Bool) (uuid : List UInt8)
    (ctime : Int) : Except String (ChunkArchiveWriter W × List UInt8) :=
  let headerData := archiveHeaderJson store
  let header := MediaContentHeader.new chunkArchiveMagic (UInt32.ofNat headerData.length) uuid ctime
  match BlockedWriter.writeHeader bw writer header headerData with
  | .error e => .error e
  | .ok (writer, _) => .ok (⟨some writer, 0, closeOnLeom, writer.writer⟩, header.uuid)

/-- The loop of `try_write_chunk` over the blob's bytes from `start` on, with the writer that
`self.writer` holds: one piece of at most `PROXMOX_TAPE_BLOCK_SIZE` bytes at a time. When a write
reports the logical end of media and `close_on_leom` is set, the writer is finished and dropped,
and the result says whether that piece was the last. -/
def tryWriteChunkLoop (self : ChunkArchiveWriter W) (writer : BlockedWriter W)
    (blobData : List UInt8) (start : Nat) : Except String (ChunkArchiveWriter W × Bool) :=
  if _h : start ≥ blobData.length then .ok ({ self with writer := some writer }, true)
  else
    let stop := start + blockSize
    let chunkIsComplete := decide (stop > blobData.length)
    let piece := if chunkIsComplete then blobData.drop start else (blobData.take stop).drop start
    match BlockedWriter.writeAll bw writer piece with
    | .error e => .error e
    | .ok (writer, leom) =>
      if leom && self.closeOnLeom then
        match BlockedWriter.finish bw writer false with
        | .error e => .error e
        | .ok (writer, _) =>
          .ok ({ self with writer := none, bytesWritten := writer.bytesWritten, device := writer.writer },
            chunkIsComplete)
      else tryWriteChunkLoop self writer blobData stop
termination_by blobData.length - start
decreasing_by
  unfold blockSize
  omega

/-- `ChunkArchiveWriter::try_write_chunk`. -/
def tryWriteChunk (self : ChunkArchiveWriter W) (digest : List UInt8) (blob : DataBlob) :
    Except String (ChunkArchiveWriter W × Bool) :=
  match self.writer with
  | none => .ok (self, false)
  | some writer =>
    match BlockedWriter.writeAll bw writer (entryHeader digest blob.rawSize) with
    | .error e => .error e
    | .ok (writer, _) => tryWriteChunkLoop bw self writer blob.rawData 0

/-- `ChunkArchiveWriter::finish`. -/
def finish (self : ChunkArchiveWriter W) : Except String (ChunkArchiveWriter W × Bool) :=
  match self.writer with
  | some writer =>
    match BlockedWriter.finish bw writer false with
    | .error e => .error e
    | .ok (finished, leom) =>
      .ok ({ self with writer := none, bytesWritten := writer.bytesWritten, device := finished.writer },
        leom)
  | none => .ok (self, true)

/-! ### One step of the piece loop -/

/-- The piece the loop writes from `start`: the next `PROXMOX_TAPE_BLOCK_SIZE` bytes, or the rest. -/
theorem piece_eq (blobData : List UInt8) (start : Nat) :
    (if decide (start + blockSize > blobData.length) = true then blobData.drop start
      else (blobData.take (start + blockSize)).drop start) = (blobData.drop start).take blockSize := by
  split
  · rename_i h
    rw [List.take_of_length_le (by simp only [List.length_drop]; simp at h; omega)]
  · rw [List.drop_take]
    congr 1
    omega

variable {bw} {self : ChunkArchiveWriter W} {writer writer' : BlockedWriter W} {blobData : List UInt8}
  {start : Nat}

theorem tryWriteChunkLoop_done (h : blobData.length ≤ start) :
    tryWriteChunkLoop bw self writer blobData start = .ok ({ self with writer := some writer }, true) := by
  rw [tryWriteChunkLoop, dif_pos h]

/-- A piece without the end-of-media warning (or without `close_on_leom`): the loop goes on. -/
theorem tryWriteChunkLoop_next {leom : Bool} (h : start < blobData.length)
    (hw : BlockedWriter.writeAll bw writer ((blobData.drop start).take blockSize) = .ok (writer', leom))
    (hl : (leom && self.closeOnLeom) = false) :
    tryWriteChunkLoop bw self writer blobData start =
      tryWriteChunkLoop bw self writer' blobData (start + blockSize) := by
  rw [tryWriteChunkLoop, dif_neg (by omega)]
  simp only [piece_eq, hw, hl, Bool.false_eq_true, ↓reduceIte]

/-- A piece with the end-of-media warning under `close_on_leom`: the writer is finished and
dropped, and the chunk is reported complete when that piece was its last. -/
theorem tryWriteChunkLoop_leom {leom leom' : Bool} {finished : BlockedWriter W} (h : start < blobData.length)
    (hw : BlockedWriter.writeAll bw writer ((blobData.drop start).take blockSize) = .ok (writer', leom))
    (hl : (leom && self.closeOnLeom) = true)
    (hf : BlockedWriter.finish bw writer' false = .ok (finished, leom')) :
    tryWriteChunkLoop bw self writer blobData start =
      .ok ({ self with writer := none, bytesWritten := finished.bytesWritten, device := finished.writer },
        decide (start + blockSize > blobData.length)) := by
  rw [tryWriteChunkLoop, dif_neg (by omega)]
  simp only [piece_eq, hw, hl, ↓reduceIte, hf]

end ChunkArchiveWriter

/-! ## What the writer leaves on tape -/

namespace BlockedWriter

variable {W : Type} {bw : BlockWrite W} {w₀ : W}

/-- A tape that raised no end-of-media warning for the full blocks of some bytes raised none for
those of a prefix of them. -/
theorem writeBlocks_not_leom_of_prefix {e D : List UInt8} {w w' : W} {l : Bool} (h : e <+: D)
    (hD : writeBlocks bw w₀ (fullBlocks D) = .ok (w, false))
    (he : writeBlocks bw w₀ (fullBlocks e) = .ok (w', l)) : l = false := by
  obtain ⟨rest, hrest⟩ := exists_fullBlocks_eq_append h
  rw [hrest] at hD
  obtain ⟨w₁, l₁, l₂, h₁, -, hl⟩ := (writeBlocks_append_eq_ok bw).1 hD
  rw [he] at h₁
  cases h₁
  cases l
  · rfl
  · simp at hl

variable {self : BlockedWriter W} {d : List UInt8}

/-- `write_all` of bytes the tape has room for: it succeeds, keeps `Holds`, and returns the
writer's end-of-media flag. -/
theorem Holds.writeAll_exists {data : List UInt8} (hold : Holds bw self w₀ d)
    (hcap : ∃ r, writeBlocks bw w₀ (fullBlocks (d ++ data)) = .ok r) :
    ∃ self' leom, BlockedWriter.writeAll bw self data = .ok (self', leom) ∧ Holds bw self' w₀ (d ++ data) ∧
      leom = self'.logicalEndOfMedia := by
  obtain ⟨⟨self', leom⟩, h⟩ := hold.writeAll_ok hcap
  exact ⟨self', leom, h, hold.writeAll h⟩

/-- `write_header` of a header of the right size that the tape has room for, with its data. -/
theorem Holds.writeHeader {header : MediaContentHeader} {data : List UInt8}
    (hold : Holds bw self w₀ d) (hsize : header.size.toNat = data.length)
    (hcap : ∃ r, writeBlocks bw w₀ (fullBlocks (d ++ header.toBytes ++ data)) = .ok r) :
    ∃ self' leom, BlockedWriter.writeHeader bw self header data = .ok (self', leom) ∧
      Holds bw self' w₀ (d ++ header.toBytes ++ data) := by
  obtain ⟨self₁, l₁, h₁, hold₁, -⟩ :=
    hold.writeAll_exists (writeBlocks_fullBlocks_mono bw (List.prefix_append (d ++ header.toBytes) data) hcap)
  simp only [BlockedWriter.writeHeader, hsize, ne_eq, not_true_eq_false, if_false, h₁]
  -- an empty data part is not written at all
  cases data with
  | nil => exact ⟨self₁, l₁, rfl, by rwa [List.append_nil]⟩
  | cons b data =>
    obtain ⟨self₂, l₂, h₂, hold₂, -⟩ := hold₁.writeAll_exists hcap
    exact ⟨self₂, l₂, by rw [List.isEmpty_cons, if_neg Bool.false_ne_true, h₂], hold₂⟩

end BlockedWriter

namespace ChunkArchiveWriter

variable {W : Type} {bw : BlockWrite W} {w₀ : W} {self : ChunkArchiveWriter W}
  {writer : BlockedWriter W} {d blobData : List UInt8}

/-- Pieces whose blocks raise no end-of-media warning: the loop writes the rest of the blob and
reports the chunk written. -/
theorem Holds.tryWriteChunkLoop_of_not_leom {w : W} {start : Nat}
    (hold : BlockedWriter.Holds bw writer w₀ (d ++ blobData.take start))
    (hD : BlockedWriter.writeBlocks bw w₀ (fullBlocks (d ++ blobData)) = .ok (w, false)) :
    ∃ writer', tryWriteChunkLoop bw self writer blobData start =
        .ok ({ self with writer := some writer' }, true) ∧ BlockedWriter.Holds bw writer' w₀ (d ++ blobData) := by
  induction h : blobData.length - start using Nat.strongRecOn generalizing writer start with
  | ind n ih =>
    by_cases hdone : blobData.length ≤ start
    · rw [List.take_of_length_le hdone] at hold
      exact ⟨writer, tryWriteChunkLoop_done hdone, hold⟩
    -- the next piece goes into the same full blocks as the rest of the blob
    have htake : d ++ blobData.take start ++ (blobData.drop start).take blockSize =
        d ++ blobData.take (start + blockSize) := by
      rw [List.append_assoc, List.take_add]
    have hpre : d ++ blobData.take (start + blockSize) <+: d ++ blobData :=
      (List.prefix_append_right_inj d).2 (List.take_prefix _ _)
    have hcap : ∃ r, BlockedWriter.writeBlocks bw w₀
        (fullBlocks (d ++ blobData.take start ++ (blobData.drop start).take blockSize)) = .ok r := by
      rw [htake]
      exact BlockedWriter.writeBlocks_fullBlocks_mono bw hpre ⟨_, hD⟩
    obtain ⟨writer', leom, hw, hold', hleom⟩ := hold.writeAll_exists hcap
    rw [htake] at hold'
    have hl : leom = false := by
      rw [hleom]
      exact BlockedWriter.writeBlocks_not_leom_of_prefix hpre hD hold'.tape
    rw [tryWriteChunkLoop_next (by omega) hw (by rw [hl, Bool.false_and])]
    exact ih (blobData.length - (start + blockSize)) (by unfold blockSize at *; omega) hold' rfl

/-- A blob of one piece whose block raises the end-of-media warning under `close_on_leom`: the
blob is written whole, the tape file is finished, and the chunk is reported complete exactly when
the piece is shorter than a tape block. -/
theorem Holds.tryWriteChunkLoop_single_leom {w w₁ w₂ : W} {l : Bool}
    (hold : BlockedWriter.Holds bw writer w₀ d) (hne : blobData ≠ []) (hlen : blobData.length ≤ blockSize)
    (hc : self.closeOnLeom = true)
    (hD : BlockedWriter.writeBlocks bw w₀ (fullBlocks (d ++ blobData)) = .ok (w, true))
    (hb : bw.writeBlock w (endBlock (d ++ blobData) false).toBytes = .ok (w₁, l))
    (hf : bw.writeFilemark w₁ = .ok w₂) :
    ∃ self', tryWriteChunkLoop bw self writer blobData 0 =
        .ok (self', decide (blockSize > blobData.length)) ∧ self'.writer = none ∧ self'.device = w₂ := by
  have hpiece : (blobData.drop 0).take blockSize = blobData := by
    rw [List.drop_zero, List.take_of_length_le hlen]
  obtain ⟨writer', leom, hw, hold', hleom⟩ := hold.writeAll_exists ⟨_, hD⟩
  have htape := hold'.tape
  rw [hD, Except.ok.injEq, Prod.mk.injEq] at htape
  rw [← hpiece] at hw
  rw [htape.1] at hb
  obtain ⟨finished, hfin, hdev⟩ := hold'.finish hb hf
  have hl : (leom && self.closeOnLeom) = true := by rw [hleom, ← htape.2, hc]; rfl
  refine ⟨{ self with writer := none, bytesWritten := finished.bytesWritten, device := finished.writer },
    ?_, rfl, hdev⟩
  rw [tryWriteChunkLoop_leom (List.length_pos_iff.2 hne) hw hl hfin, Nat.zero_add]

/-- A chunk whose blocks raise no end-of-media warning is written whole and reported written. -/
theorem Holds.tryWriteChunk_of_not_leom {w : W} {digest : List UInt8} {blob : DataBlob}
    (hwriter : self.writer = some writer) (hold : BlockedWriter.Holds bw writer w₀ d)
    (hD : BlockedWriter.writeBlocks bw w₀
      (fullBlocks (d ++ entryHeader digest blob.rawSize ++ blob.rawData)) = .ok (w, false)) :
    ∃ writer', tryWriteChunk bw self digest blob = .ok ({ self with writer := some writer' }, true) ∧
      BlockedWriter.Holds bw writer' w₀ (d ++ entryHeader digest blob.rawSize ++ blob.rawData) := by
  obtain ⟨writer₁, l₁, h₁, hold₁, -⟩ := hold.writeAll_exists (BlockedWriter.writeBlocks_fullBlocks_mono bw
    (List.prefix_append (d ++ entryHeader digest blob.rawSize) blob.rawData) ⟨_, hD⟩)
  have hold₁' : BlockedWriter.Holds bw writer₁ w₀ (d ++ entryHeader digest blob.rawSize ++ blob.rawData.take 0) := by
    rwa [List.take_zero, List.append_nil]
  simp only [tryWriteChunk, hwriter, h₁]
  exact Holds.tryWriteChunkLoop_of_not_leom hold₁' hD

/-- A chunk of at most one tape block whose blocks raise the end-of-media warning under
`close_on_leom`: it is written whole, the tape file is finished, and the chunk is reported
complete exactly when it is shorter than a tape block. -/
theorem Holds.tryWriteChunk_single_leom {w w₁ w₂ : W} {l : Bool} {digest : List UInt8} {blob : DataBlob}
    (hwriter : self.writer = some writer) (hold : BlockedWriter.Holds bw writer w₀ d)
    (hne : blob.rawData ≠ []) (hlen : blob.rawSize ≤ blockSize) (hc : self.closeOnLeom = true)
    (hD : BlockedWriter.writeBlocks bw w₀
      (fullBlocks (d ++ entryHeader digest blob.rawSize ++ blob.rawData)) = .ok (w, true))
    (hb : bw.writeBlock w (endBlock (d ++ entryHeader digest blob.rawSize ++ blob.rawData) false).toBytes =
      .ok (w₁, l))
    (hf : bw.writeFilemark w₁ = .ok w₂) :
    ∃ self', tryWriteChunk bw self digest blob = .ok (self', decide (blockSize > blob.rawSize)) ∧
      self'.writer = none ∧ self'.device = w₂ := by
  obtain ⟨writer₁, l₁, h₁, hold₁, -⟩ := hold.writeAll_exists (BlockedWriter.writeBlocks_fullBlocks_mono bw
    (List.prefix_append (d ++ entryHeader digest blob.rawSize) blob.rawData) ⟨_, hD⟩)
  obtain ⟨self', hloop, hnone, hdev⟩ := Holds.tryWriteChunkLoop_single_leom hold₁ hne hlen hc hD hb hf
  refine ⟨self', ?_, hnone, hdev⟩
  simp only [tryWriteChunk, hwriter, h₁]
  exact hloop

/-- `ChunkArchiveWriter::new` on a writer with room for the headers: the writer keeps `Holds` over
the content header and the archive header after the bytes before them. -/
theorem Holds.new (hold : BlockedWriter.Holds bw writer w₀ d) (store : String) (closeOnLeom : Bool)
    (uuid : List UInt8) (ctime : Int) (hlen : (archiveHeaderJson store).length < 2 ^ 32)
    (hcap : ∃ r, BlockedWriter.writeBlocks bw w₀ (fullBlocks (d ++
      (MediaContentHeader.new chunkArchiveMagic (UInt32.ofNat (archiveHeaderJson store).length) uuid
        ctime).toBytes ++ archiveHeaderJson store)) = .ok r) :
    ∃ writer', ChunkArchiveWriter.new bw writer store closeOnLeom uuid ctime =
        .ok (⟨some writer', 0, closeOnLeom, writer'.writer⟩, uuid) ∧
      BlockedWriter.Holds bw writer' w₀ (d ++ (MediaContentHeader.new chunkArchiveMagic
        (UInt32.ofNat (archiveHeaderJson store).length) uuid ctime).toBytes ++ archiveHeaderJson store) := by
  have hsize : (MediaContentHeader.new chunkArchiveMagic (UInt32.ofNat (archiveHeaderJson store).length) uuid
      ctime).size.toNat = (archiveHeaderJson store).length := by
    rw [MediaContentHeader.new, UInt32.toNat_ofNat', Nat.mod_eq_of_lt hlen]
  obtain ⟨writer', l, hw, hold'⟩ := hold.writeHeader hsize hcap
  refine ⟨writer', ?_, hold'⟩
  simp only [ChunkArchiveWriter.new, hw]
  rfl

end ChunkArchiveWriter

namespace EmulateTapeWriter

theorem not_isEmpty_and_lt_length {α : Type} (l : List α) (m : Nat) :
    (!l.isEmpty && decide (m < l.length)) = decide (m < l.length) := by
  cases l <;> simp

/-- A new emulated tape with room for the full blocks of some bytes takes them in order, and
signals the logical end of media exactly when they pass its room. -/
theorem writeBlocks_fullBlocks_new {d : List UInt8} {maxSize : Nat}
    (h : d.length / payloadSize ≤ (new maxSize).maxBlocks + 2) :
    BlockedWriter.writeBlocks blockWrite (new maxSize) (fullBlocks d) =
      .ok (⟨d.length / payloadSize, (new maxSize).maxBlocks, (fullBlocks d).flatMap BlockHeader.toBytes, false⟩,
        decide ((new maxSize).maxBlocks < d.length / payloadSize)) := by
  have hlen : (fullBlocks d).length = d.length / payloadSize := by
    rw [fullBlocks, List.length_map, List.length_range]
  have hmem : ∀ b ∈ fullBlocks d, b.toBytes.length = blockSize := fun b hb =>
    length_toBytes_of_mem_streamBlocks (show b ∈ streamBlocks d false from List.mem_append_left _ hb)
  have hnew : (new maxSize).blockNr = 0 ∧ (new maxSize).writer = [] ∧ (new maxSize).wroteEof = false :=
    ⟨rfl, rfl, rfl⟩
  rw [writeBlocks_eq (new maxSize) hmem (by rw [hnew.1, Nat.zero_add, hlen]; exact h), hnew.1, hnew.2.1,
    hnew.2.2, Nat.zero_add, List.nil_append, not_isEmpty_and_lt_length, hlen]

/-- A block the emulated tape has room for. -/
theorem writeBlock_of_lt (tw : EmulateTapeWriter) {buffer : List UInt8} (hlen : buffer.length = blockSize)
    (h : tw.blockNr < tw.maxBlocks + 2) :
    blockWrite.writeBlock tw buffer =
      .ok (⟨tw.blockNr + 1, tw.maxBlocks, tw.writer ++ buffer, tw.wroteEof⟩, decide (tw.blockNr + 1 > tw.maxBlocks)) := by
  simp only [blockWrite, writeBlock, hlen, ne_eq, not_true_eq_false, if_false, if_neg (Nat.not_le.2 h)]

end EmulateTapeWriter

/-! ## Reading -/

/-- The text of an I/O error as `anyhow` passes it on. -/
def ioErrorText : IoError → String
  | .unexpectedEof => "failed to fill whole buffer"
  | .other msg => msg

variable {σ : Type} (crc32 : List UInt8 → UInt32) (read : σ → Nat → Except IoError (σ × List UInt8))

/-- `ChunkArchiveDecoder::next_chunk` over a reader: the next entry's digest and blob, or `None`
at the end of the data or when the last entry is cut short. `None` of the outer `Option` is a
panic, as in `DataBlob`; after a short blob the reader is not used again, so the state before it
is returned. -/
def nextChunk (s : σ) : ExceptT String Option (σ × Option (List UInt8 × DataBlob)) :=
  match readExactOrEof read s 48 with
  | .error e => throw (ioErrorText e)
  | .ok (s, none) => pure (s, none)
  | .ok (s, some header) =>
    if header.take 8 ≠ chunkArchiveEntryMagic then throw "wrong magic number"
    else
      match ByteRead.readExact read s (LittleEndian.ofBytes (header.drop 40)) with
      | .error .unexpectedEof => pure (s, none)
      | .error e => throw (ioErrorText e)
      | .ok (s', rawData) =>
        match DataBlob.fromRaw rawData with
        | .error e => throw e
        | .ok blob => do
          blob.verifyCrc crc32
          pure (s', some ((header.drop 8).take 32, blob))

/-! ### The decoder over a reader that streams the archive -/

section Decoder

variable {digest : List UInt8} {size : Nat}

theorem length_entryHeader (hd : digest.length = 32) : (entryHeader digest size).length = 48 := by
  simp [entryHeader, chunkArchiveEntryMagic, hd]

theorem take_entryHeader :
    (entryHeader digest size).take 8 = chunkArchiveEntryMagic := by
  rw [entryHeader, List.append_assoc, List.take_left' (show chunkArchiveEntryMagic.length = 8 from rfl)]

theorem digest_entryHeader (hd : digest.length = 32) :
    ((entryHeader digest size).drop 8).take 32 = digest := by
  rw [entryHeader, List.append_assoc, List.drop_left' (show chunkArchiveEntryMagic.length = 8 from rfl),
    List.take_left' hd]

theorem size_entryHeader (hd : digest.length = 32) (hsize : size < 2 ^ 64) :
    LittleEndian.ofBytes ((entryHeader digest size).drop 40) = size := by
  rw [entryHeader, show 40 = (chunkArchiveEntryMagic ++ digest).length by simp [chunkArchiveEntryMagic, hd],
    List.drop_left]
  exact LittleEndian.ofBytes_toBytes_of_lt (by simpa using hsize)

variable {crc32 read} {left : σ → List UInt8 → Prop} {s : σ}

/-- A whole entry: the decoder returns its digest and its blob, and the reader is left at what
follows. -/
theorem nextChunk_entry (hs : Streams read left) {more : List UInt8} {blob : DataBlob}
    (hleft : left s (entryHeader digest blob.rawSize ++ blob.rawData ++ more)) (hd : digest.length = 32)
    (hsize : blob.rawSize < 2 ^ 64) (hraw : DataBlob.fromRaw blob.rawData = .ok blob)
    (hcrc : (blob.verifyCrc crc32).run = some (.ok ())) :
    ∃ s', (nextChunk crc32 read s).run = some (.ok (s', some (digest, blob))) ∧ left s' more := by
  have hlen : (entryHeader digest blob.rawSize).length = 48 := length_entryHeader hd
  rw [List.append_assoc] at hleft
  rcases readExactOrEof_eq hs hleft (show 0 < 48 by decide) with
    ⟨hnil, -⟩ | ⟨-, s₁, hread, hleft₁⟩ | ⟨-, hlt, -⟩
  · have := congrArg List.length hnil
    simp only [List.length_append, hlen, List.length_nil] at this
    omega
  · rw [List.take_left' hlen] at hread
    rw [List.drop_left' hlen] at hleft₁
    rcases readExact_eq hs hleft₁ blob.rawSize with ⟨-, s₂, hread₂, hleft₂⟩ | ⟨hlt, -⟩
    · rw [List.take_left' (show blob.rawData.length = blob.rawSize from rfl)] at hread₂
      rw [List.drop_left' (show blob.rawData.length = blob.rawSize from rfl)] at hleft₂
      refine ⟨s₂, ?_, hleft₂⟩
      simp only [nextChunk, hread, take_entryHeader, ne_eq, not_true_eq_false, ↓reduceIte,
        size_entryHeader hd hsize, hread₂, hraw, digest_entryHeader hd]
      simp [hcrc]
    · simp only [List.length_append, DataBlob.rawSize] at hlt
      omega
  · simp only [List.length_append, hlen] at hlt
    omega

/-- The end of the data: the decoder returns `None`. -/
theorem nextChunk_end (hs : Streams read left) (hleft : left s []) :
    ∃ s', (nextChunk crc32 read s).run = some (.ok (s', none)) ∧ left s' [] := by
  rcases readExactOrEof_eq hs hleft (show 0 < 48 by decide) with
    ⟨-, s₁, hread, hleft₁⟩ | ⟨hle, -⟩ | ⟨hne, -⟩
  · exact ⟨s₁, by simp [nextChunk, hread], hleft₁⟩
  · simp at hle
  · exact absurd rfl hne

end Decoder

/-! ## A written chunk reported as not written

`try_write_chunk` computes `chunk_is_complete` as `end > blob_data.len()`, the test for a piece
that is the blob's last only when the blob's size is not a multiple of the tape block size. A blob
of exactly one tape block whose write raises the end-of-media warning is written whole, yet
reported incomplete; the caller then writes it again into the next archive, while the decoder
already returns it from this one. -/

/-- An uncompressed blob of `n` zero bytes. -/
def zeroBlob (crc32 : List UInt8 → UInt32) (n : Nat) : DataBlob :=
  DataBlob.layout uncompressedBlobMagic (crc32 (List.replicate n 0)) [] (List.replicate n 0)

section ZeroBlob

variable (crc32 : List UInt8 → UInt32) (n : Nat)

theorem rawSize_zeroBlob : (zeroBlob crc32 n).rawSize = dataBlobHeaderSize + n := by
  rw [DataBlob.rawSize, zeroBlob, DataBlob.length_layout, List.length_nil, List.length_replicate,
    Nat.add_zero]

theorem fromRaw_zeroBlob : DataBlob.fromRaw (zeroBlob crc32 n).rawData = .ok (zeroBlob crc32 n) :=
  DataBlob.fromRaw_layout (DataBlob.headerSize_plain (Or.inl rfl)) _ _

theorem verifyCrc_zeroBlob : ((zeroBlob crc32 n).verifyCrc crc32).run = some (.ok ()) :=
  DataBlob.verifyCrc_layout crc32 (DataBlob.headerSize_plain (Or.inl rfl)) _

end ZeroBlob

theorem length_archiveHeaderJson_store1 : (archiveHeaderJson "store1").length = 23 := by
  rw [archiveHeaderJson, Array.length_toList]
  decide

/-- On an emulated tape with room for two blocks, a chunk archive of the datastore `store1` takes
a blob of two tape blocks and reports it written; a blob of exactly one tape block then raises the
end-of-media warning and is reported not written. Yet the finished tape holds it whole: reading
the archive back returns both chunks, then the end of the data. -/
theorem try_write_chunk_reports_complete_chunk_unwritten (crc32 : List UInt8 → UInt32) :
    ∃ archive₁ uuid archive₂ archive₃ archive₄ leom r₀ r₁ header r₂ r₃ r₄,
      ChunkArchiveWriter.new EmulateTapeWriter.blockWrite (BlockedWriter.new (EmulateTapeWriter.new 0))
          "store1" true (List.replicate 16 0) 0 = .ok (archive₁, uuid) ∧
      ChunkArchiveWriter.tryWriteChunk EmulateTapeWriter.blockWrite archive₁ (List.replicate 32 1)
          (zeroBlob crc32 (2 * blockSize - dataBlobHeaderSize)) = .ok (archive₂, true) ∧
      ChunkArchiveWriter.tryWriteChunk EmulateTapeWriter.blockWrite archive₂ (List.replicate 32 2)
          (zeroBlob crc32 (blockSize - dataBlobHeaderSize)) = .ok (archive₃, false) ∧
      ChunkArchiveWriter.finish EmulateTapeWriter.blockWrite archive₃ = .ok (archive₄, leom) ∧
      BlockedReader.«open» EmulateTapeReader.blockRead (EmulateTapeReader.new archive₄.device.writer) =
        .ok r₀ ∧
      ByteRead.readExact (BlockedReader.read EmulateTapeReader.blockRead) r₀ 71 = .ok (r₁, header) ∧
      (nextChunk crc32 (BlockedReader.read EmulateTapeReader.blockRead) r₁).run =
        some (.ok (r₂, some (List.replicate 32 1, zeroBlob crc32 (2 * blockSize - dataBlobHeaderSize)))) ∧
      (nextChunk crc32 (BlockedReader.read EmulateTapeReader.blockRead) r₂).run =
        some (.ok (r₃, some (List.replicate 32 2, zeroBlob crc32 (blockSize - dataBlobHeaderSize)))) ∧
      (nextChunk crc32 (BlockedReader.read EmulateTapeReader.blockRead) r₃).run = some (.ok (r₄, none)) := by
  set A := zeroBlob crc32 (2 * blockSize - dataBlobHeaderSize)
  set B := zeroBlob crc32 (blockSize - dataBlobHeaderSize)
  set hdr := MediaContentHeader.new chunkArchiveMagic (UInt32.ofNat (archiveHeaderJson "store1").length)
    (List.replicate 16 0) 0
  set D₀ := [] ++ hdr.toBytes ++ archiveHeaderJson "store1"
  set D₁ := D₀ ++ entryHeader (List.replicate 32 1) A.rawSize ++ A.rawData
  set D₂ := D₁ ++ entryHeader (List.replicate 32 2) B.rawSize ++ B.rawData
  have hA : A.rawSize = 2 * blockSize := by
    rw [rawSize_zeroBlob]
    unfold blockSize dataBlobHeaderSize
    omega
  have hB : B.rawSize = blockSize := by
    rw [rawSize_zeroBlob]
    unfold blockSize dataBlobHeaderSize
    omega
  have hlen₀ : D₀.length = 71 := by
    rw [List.length_append, List.length_append, MediaContentHeader.length_toBytes rfl (List.length_replicate ..),
      length_archiveHeaderJson_store1]
    rfl
  have hlen₁ : D₁.length = 524407 := by
    rw [List.length_append, List.length_append, hlen₀, length_entryHeader (List.length_replicate ..),
      show A.rawData.length = A.rawSize from rfl, hA]
    rfl
  have hlen₂ : D₂.length = 786599 := by
    rw [List.length_append, List.length_append, hlen₁, length_entryHeader (List.length_replicate ..),
      show B.rawData.length = B.rawSize from rfl, hB]
    rfl
  -- the tape has room for two blocks: the headers and the first chunk fill them, the second chunk
  -- passes the room
  have hw₀ := EmulateTapeWriter.writeBlocks_fullBlocks_new
    (show D₀.length / payloadSize ≤ (EmulateTapeWriter.new 0).maxBlocks + 2 by rw [hlen₀]; decide)
  have hw₁ := EmulateTapeWriter.writeBlocks_fullBlocks_new
    (show D₁.length / payloadSize ≤ (EmulateTapeWriter.new 0).maxBlocks + 2 by rw [hlen₁]; decide)
  rw [show decide ((EmulateTapeWriter.new 0).maxBlocks < D₁.length / payloadSize) = false by
    rw [hlen₁]; decide] at hw₁
  have hw₂ := EmulateTapeWriter.writeBlocks_fullBlocks_new
    (show D₂.length / payloadSize ≤ (EmulateTapeWriter.new 0).maxBlocks + 2 by rw [hlen₂]; decide)
  rw [show decide ((EmulateTapeWriter.new 0).maxBlocks < D₂.length / payloadSize) = true by
    rw [hlen₂]; decide] at hw₂
  have hend : (endBlock D₂ false).toBytes.length = blockSize :=
    length_toBytes_of_mem_streamBlocks (List.mem_append_right _ (List.mem_singleton_self _))
  have hb := EmulateTapeWriter.writeBlock_of_lt ⟨D₂.length / payloadSize, (EmulateTapeWriter.new 0).maxBlocks,
    (fullBlocks D₂).flatMap BlockHeader.toBytes, false⟩ hend
    (show D₂.length / payloadSize < (EmulateTapeWriter.new 0).maxBlocks + 2 by rw [hlen₂]; decide)
  -- writing
  obtain ⟨writer₁, hnew, hold₁⟩ := ChunkArchiveWriter.Holds.new
    (BlockedWriter.holds_new EmulateTapeWriter.blockWrite (EmulateTapeWriter.new 0)) "store1" true
    (List.replicate 16 0) 0 (by rw [length_archiveHeaderJson_store1]; decide) ⟨_, hw₀⟩
  obtain ⟨writer₂, hwA, hold₂⟩ := ChunkArchiveWriter.Holds.tryWriteChunk_of_not_leom
    (show (⟨some writer₁, 0, true, writer₁.writer⟩ : ChunkArchiveWriter EmulateTapeWriter).writer = some writer₁
      from rfl) hold₁ hw₁
  obtain ⟨archive₃, hwB, hnone, hdev⟩ := ChunkArchiveWriter.Holds.tryWriteChunk_single_leom
    (show ({ (⟨some writer₁, 0, true, writer₁.writer⟩ : ChunkArchiveWriter EmulateTapeWriter) with
      writer := some writer₂ }).writer = some writer₂ from rfl)
    hold₂ (List.ne_nil_of_length_pos (by rw [show B.rawData.length = B.rawSize from rfl, hB]; decide))
    hB.le rfl hw₂ hb rfl
  rw [hB, show decide (blockSize > blockSize) = false by simp] at hwB
  have hfin : ChunkArchiveWriter.finish EmulateTapeWriter.blockWrite archive₃ = .ok (archive₃, true) := by
    simp only [ChunkArchiveWriter.finish, hnone]
  have hdevice : archive₃.device.writer = (streamBlocks D₂ false).flatMap BlockHeader.toBytes := by
    rw [hdev, streamBlocks, List.flatMap_append, List.flatMap_singleton]
  -- reading: the headers, the two chunks, then the end of the data
  obtain ⟨r₀, hopen, hr₀, hpos₀⟩ := open_streamBlocks D₂ false
  have hrest₀ : ReadsRest D₂ false r₀ D₂ := ⟨0, hr₀, by rw [hpos₀, Nat.zero_mul, List.drop_zero]⟩
  have hdrop : D₂.drop 71 = entryHeader (List.replicate 32 1) A.rawSize ++ A.rawData ++
      (entryHeader (List.replicate 32 2) B.rawSize ++ B.rawData) := by
    rw [show D₂ = D₀ ++ (entryHeader (List.replicate 32 1) A.rawSize ++ A.rawData ++
      (entryHeader (List.replicate 32 2) B.rawSize ++ B.rawData)) by simp only [D₂, D₁, List.append_assoc],
      List.drop_left' hlen₀]
  rcases readExact_eq streams_read hrest₀ 71 with ⟨-, r₁, hread, hrest₁⟩ | ⟨hlt, -⟩
  · rw [hdrop] at hrest₁
    obtain ⟨r₂, hnext₁, hrest₂⟩ := nextChunk_entry streams_read hrest₁ (List.length_replicate ..)
      (by rw [hA]; decide) (fromRaw_zeroBlob crc32 _) (verifyCrc_zeroBlob crc32 _)
    rw [← List.append_nil (entryHeader (List.replicate 32 2) B.rawSize ++ B.rawData)] at hrest₂
    obtain ⟨r₃, hnext₂, hrest₃⟩ := nextChunk_entry streams_read hrest₂ (List.length_replicate ..)
      (by rw [hB]; decide) (fromRaw_zeroBlob crc32 _) (verifyCrc_zeroBlob crc32 _)
    obtain ⟨r₄, hnext₃, -⟩ := nextChunk_end streams_read hrest₃
    exact ⟨_, _, _, archive₃, archive₃, true, r₀, r₁, _, r₂, r₃, r₄, hnew, hwA, hwB, hfin,
      by rw [hdevice]; exact hopen, hread, hnext₁, hnext₂, hnext₃⟩
  · rw [hlen₂] at hlt
    exact absurd hlt (by decide)

end ProxmoxBackup.Tape
