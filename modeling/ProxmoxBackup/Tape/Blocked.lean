import Mathlib.Data.List.Basic
import ProxmoxBackup.Foundations.ByteRead
import ProxmoxBackup.Foundations.LittleEndian

/-!
# Block streams on tape (`pbs-tape`: `BlockedWriter`, `BlockedReader`)

A stream on tape is a sequence of blocks of `PROXMOX_TAPE_BLOCK_SIZE` bytes. Each block is a
`BlockHeader`: magic number, flags, a three-byte payload size and a sequence number, followed by
the payload. `BlockedWriter` cuts the bytes written to it into full payloads and ends the stream
with a block flagged `END_OF_STREAM` (and `INCOMPLETE` for a stream continued on another tape)
that holds the rest, possibly nothing. `BlockedReader` reads the blocks back, checks magic,
sequence numbers and sizes, and consumes the file mark after the last block.
`EmulateTapeWriter` and `EmulateTapeReader` put the blocks into and read them from a byte vector.

* `Holds`: what the writer holds after taking some bytes, kept by `write`, `write_all` and every
  `write_all` of a stream (`Holds.write`, `Holds.writeAll`, `Holds.writeAlls`).
* `ReaderAt`, `streams_read`: the reader over the tape of a stream reads the stream's bytes as a
  slice would (in the sense of `ByteRead.Streams`), whatever lengths its reads ask for.
* `blocked_stream_round_trip`: writing any bytes in any pieces and finishing gives the tape of
  `streamBlocks`; reading it back returns exactly the bytes, then nothing, and the incomplete
  flag.
-/

namespace ProxmoxBackup.Tape

open ByteRead

/-! ## Blocks -/

/-- `PROXMOX_TAPE_BLOCK_SIZE`. -/
def blockSize : Nat := 256 * 1024

/-- The length of the payload of a `BlockHeader`: the block less the 16 bytes of magic number,
flags, size and sequence number (`#[repr(C, packed)]`). -/
def payloadSize : Nat := blockSize - 16

/-- `PROXMOX_TAPE_BLOCK_HEADER_MAGIC_1_0`. -/
def blockHeaderMagic : List UInt8 := [220, 189, 175, 202, 235, 160, 165, 40]

/-- `BlockHeaderFlags::END_OF_STREAM`. -/
def endOfStream : UInt8 := 1

/-- `BlockHeaderFlags::INCOMPLETE`. -/
def incompleteFlag : UInt8 := 2

/-- `BlockHeaderFlags::contains`. -/
def flagsContains (flags flag : UInt8) : Bool := flags &&& flag == flag

/-- `BlockHeader`. The method `size()` is `getSize`. -/
structure BlockHeader where
  magic : List UInt8
  flags : UInt8
  size : List UInt8
  seqNr : UInt32
  payload : List UInt8
  deriving DecidableEq, Repr

namespace BlockHeader

/-- `BlockHeader::new`: zeroed, with the magic number. -/
def new : BlockHeader := ⟨blockHeaderMagic, 0, [0, 0, 0], 0, List.replicate payloadSize 0⟩

/-- `BlockHeader::set_size`: the three low bytes of `size.to_le_bytes()`. -/
def setSize (h : BlockHeader) (size : Nat) : BlockHeader :=
  { h with size := (LittleEndian.toBytes 8 size).take 3 }

/-- `BlockHeader::size`. -/
def getSize (h : BlockHeader) : Nat :=
  (h.size.getD 0 0).toNat + ((h.size.getD 1 0).toNat <<< 8) + ((h.size.getD 2 0).toNat <<< 16)

/-- `BlockHeader::set_seq_nr`. -/
def setSeqNr (h : BlockHeader) (seqNr : UInt32) : BlockHeader := { h with seqNr }

/-- The bytes of a header on tape: the fields in order, the sequence number little endian
(`set_seq_nr` stores `seq_nr.to_le()`). -/
def toBytes (h : BlockHeader) : List UInt8 :=
  h.magic ++ h.flags :: h.size ++ LittleEndian.toBytes 4 h.seqNr.toNat ++ h.payload

/-- A block read from tape, seen as a `BlockHeader`. -/
def ofBytes (bytes : List UInt8) : BlockHeader :=
  ⟨bytes.take 8, bytes.getD 8 0, (bytes.drop 9).take 3,
    UInt32.ofNat (LittleEndian.ofBytes ((bytes.drop 12).take 4)), bytes.drop 16⟩

theorem length_payload_new : new.payload.length = payloadSize := List.length_replicate

end BlockHeader

/-- `dest[pos..pos + src.len()].copy_from_slice(src)`. -/
def splice (dest : List UInt8) (pos : Nat) (src : List UInt8) : List UInt8 :=
  dest.take pos ++ src ++ dest.drop (pos + src.length)

theorem length_splice {dest src : List UInt8} {pos : Nat} (h : pos + src.length ≤ dest.length) :
    (splice dest pos src).length = dest.length := by
  simp only [splice, List.length_append, List.length_take, List.length_drop]
  omega

/-! ## Writing -/

/-- `BlockWrite`: a tape that takes whole blocks and tells whether the logical end of media is
reached, and that writes file marks. -/
structure BlockWrite (W : Type) where
  writeBlock : W → List UInt8 → Except String (W × Bool)
  writeFilemark : W → Except String W

/-- `BlockedWriter`. The position in the buffer stays below the payload's length, so that every
write takes at least one byte. After an error the writer is not used again, so a failed call
returns only the error. -/
structure BlockedWriter (W : Type) where
  writer : W
  buffer : BlockHeader
  bufferPos : Nat
  seqNr : UInt32
  logicalEndOfMedia : Bool
  bytesWritten : Nat
  wroteEof : Bool
  bufferPos_lt : bufferPos < buffer.payload.length

namespace BlockedWriter

variable {W : Type} (bw : BlockWrite W)

/-- `BlockedWriter::new`. -/
def new (writer : W) : BlockedWriter W :=
  ⟨writer, BlockHeader.new, 0, 0, false, 0, false, by rw [BlockHeader.length_payload_new]; decide⟩

/-- `BlockedWriter::write_block`: the whole buffer, header and payload, as one block. -/
def writeBlock (buffer : BlockHeader) (writer : W) : Except String (W × Bool) :=
  bw.writeBlock writer buffer.toBytes

/-- `BlockedWriter::write_eof`. -/
def writeEof (self : BlockedWriter W) : Except String (BlockedWriter W) :=
  if self.wroteEof then .error "BlockedWriter: detected multiple EOF writes"
  else
    match bw.writeFilemark self.writer with
    | .error e => .error e
    | .ok writer => .ok { self with writer, wroteEof := true }

theorem ite_lt_eq_min (a b : Nat) : (if a < b then a else b) = min a b := by
  split <;> omega

/-- `BlockedWriter::write`: copies what fits into the buffer and writes the buffer as a block when
it is full; returns how many bytes it took. -/
def write (self : BlockedWriter W) (data : List UInt8) : Except String (BlockedWriter W × Nat) :=
  if data.isEmpty then .ok (self, 0)
  else
    let rest := self.buffer.payload.length - self.bufferPos
    let bytes := if data.length < rest then data.length else rest
    let buffer : BlockHeader :=
      { self.buffer with payload := splice self.buffer.payload self.bufferPos (data.take bytes) }
    have hlen : buffer.payload.length = self.buffer.payload.length := by
      have := self.bufferPos_lt
      simp only [buffer, splice, List.length_append, List.length_take, List.length_drop, bytes, rest,
        ite_lt_eq_min]
      omega
    if hfull : rest - bytes = 0 then
      let buffer : BlockHeader :=
        ({ buffer with flags := 0 }.setSize buffer.payload.length).setSeqNr self.seqNr
      match writeBlock bw buffer self.writer with
      | .error e => .error e
      | .ok (writer, leom) =>
        .ok (⟨writer, buffer, 0, self.seqNr + 1, self.logicalEndOfMedia || leom,
          self.bytesWritten + blockSize, self.wroteEof, by
            have := self.bufferPos_lt
            simp only [buffer, BlockHeader.setSeqNr, BlockHeader.setSize]
            omega⟩, bytes)
    else
      .ok (⟨self.writer, buffer, self.bufferPos + bytes, self.seqNr, self.logicalEndOfMedia,
        self.bytesWritten, self.wroteEof, by
          simp only [rest, bytes, ite_lt_eq_min] at hfull
          rw [hlen]
          simp only [bytes, rest, ite_lt_eq_min]
          omega⟩, bytes)

/-- A write of nonempty data takes at least one byte. -/
theorem write_pos {self self' : BlockedWriter W} {data : List UInt8} {n : Nat} (hne : data ≠ [])
    (h : write bw self data = .ok (self', n)) : 0 < n := by
  have hpos := self.bufferPos_lt
  have hdata : 0 < data.length := List.length_pos_iff.2 hne
  unfold write at h
  rw [if_neg (by simpa using hne)] at h
  dsimp only at h
  simp only [ite_lt_eq_min] at h
  split at h
  · split at h
    · cases h
    · cases h
      omega
  · cases h
    omega

/-- `TapeWrite::write_all` of `BlockedWriter`: writes until all bytes are taken, and returns
whether the logical end of media was reached. -/
def writeAll (self : BlockedWriter W) (data : List UInt8) : Except String (BlockedWriter W × Bool) :=
  if _hne : data = [] then .ok (self, self.logicalEndOfMedia)
  else
    match _hw : write bw self data with
    | .error e => .error e
    | .ok (self', n) => writeAll self' (data.drop n)
termination_by data.length
decreasing_by
  have := write_pos bw _hne _hw
  have : 0 < data.length := List.length_pos_iff.2 _hne
  simp only [List.length_drop]
  omega

/-- `TapeWrite::finish` of `BlockedWriter`: the rest of the buffer is zeroed, and the buffer is
written as the last block, flagged `END_OF_STREAM` (and `INCOMPLETE`), then the file mark. -/
def finish (self : BlockedWriter W) (incomplete : Bool) : Except String (BlockedWriter W × Bool) :=
  let payload := self.buffer.payload.take self.bufferPos ++
    List.replicate (self.buffer.payload.length - self.bufferPos) 0
  let flags := if incomplete then endOfStream ||| incompleteFlag else endOfStream
  let buffer := ({ self.buffer with payload, flags }.setSize self.bufferPos).setSeqNr self.seqNr
  match writeBlock bw buffer self.writer with
  | .error e => .error e
  | .ok (writer, leom) =>
    match writeEof bw ⟨writer, buffer, self.bufferPos, self.seqNr + 1, self.logicalEndOfMedia,
        self.bytesWritten + blockSize, self.wroteEof, by
          have := self.bufferPos_lt
          simp only [BlockHeader.setSeqNr, BlockHeader.setSize, buffer, payload, List.length_append,
            List.length_take, List.length_replicate]
          omega⟩ with
    | .error e => .error e
    | .ok self => .ok (self, leom)

end BlockedWriter

/-- `EmulateTapeWriter` over a byte vector that starts empty. -/
structure EmulateTapeWriter where
  blockNr : Nat
  maxBlocks : Nat
  writer : List UInt8
  wroteEof : Bool

namespace EmulateTapeWriter

/-- `EmulateTapeWriter::new`: room for `max_size` bytes, but at least two blocks. -/
def new (maxSize : Nat) : EmulateTapeWriter :=
  ⟨0, if maxSize / blockSize < 2 then 2 else maxSize / blockSize, [], false⟩

/-- `BlockWrite::write_block` of `EmulateTapeWriter`: it fails with `ENOSPC` two blocks after its
room, and signals the logical end of media for every block past its room. -/
def writeBlock (self : EmulateTapeWriter) (buffer : List UInt8) :
    Except String (EmulateTapeWriter × Bool) :=
  if buffer.length ≠ blockSize then
    let len := buffer.length
    .error s!"EmulateTapeWriter: got write with wrong block size ({len} != {blockSize}"
  else if self.blockNr ≥ self.maxBlocks + 2 then .error "No space left on device (os error 28)"
  else .ok ({ self with writer := self.writer ++ buffer, blockNr := self.blockNr + 1 },
    self.blockNr + 1 > self.maxBlocks)

/-- `BlockWrite::write_filemark` of `EmulateTapeWriter`: only recorded. -/
def writeFilemark (self : EmulateTapeWriter) : Except String EmulateTapeWriter :=
  if self.wroteEof then .error "EmulateTapeWriter: detected multiple EOF writes"
  else .ok { self with wroteEof := true }

/-- `EmulateTapeWriter` as a `BlockWrite`. -/
def blockWrite : BlockWrite EmulateTapeWriter := ⟨writeBlock, writeFilemark⟩

end EmulateTapeWriter

/-! ## Reading -/

/-- `BlockReadError`. -/
inductive BlockReadError where
  | endOfFile
  | endOfStream
  | error (e : IoError)

/-- `BlockRead`: a tape that reads whole blocks into a buffer of the given length. -/
structure BlockRead (R : Type) where
  readBlock : R → Nat → R × Except BlockReadError (List UInt8)

/-- `EmulateTapeReader` over the bytes left of a byte vector. -/
structure EmulateTapeReader where
  reader : List UInt8
  gotEof : Bool

namespace EmulateTapeReader

/-- `EmulateTapeReader::new`. -/
def new (reader : List UInt8) : EmulateTapeReader := ⟨reader, false⟩

/-- `BlockRead::read_block` of `EmulateTapeReader`: fills the buffer from the vector, with
`EndOfFile` when nothing is left. An error ends the reading, so its state is kept as it was. -/
def readBlock (self : EmulateTapeReader) (len : Nat) :
    EmulateTapeReader × Except BlockReadError (List UInt8) :=
  if self.gotEof then (self, .error (.error (.other "detected read after EOF!")))
  else
    match readExactOrEof sliceRead self.reader len with
    | .error e => (self, .error (.error e))
    | .ok (rest, none) => ({ reader := rest, gotEof := true }, .error .endOfFile)
    | .ok (rest, some data) =>
      if len ≠ blockSize then
        ({ self with reader := rest }, .error (.error
          (.other s!"EmulateTapeReader: read_block with wrong block size ({len} != {blockSize})")))
      else ({ self with reader := rest }, .ok data)

/-- `EmulateTapeReader` as a `BlockRead`. -/
def blockRead : BlockRead EmulateTapeReader := ⟨readBlock⟩

end EmulateTapeReader

/-- `BlockedReader`. After an error the reader is not used again (`read_error`), so a failed call
returns only the error. -/
structure BlockedReader (R : Type) where
  reader : R
  buffer : BlockHeader
  seqNr : UInt32
  foundEndMarker : Bool
  incomplete : Bool
  gotEod : Bool
  readError : Bool
  readPos : Nat

namespace BlockedReader

variable {R : Type} (br : BlockRead R)

/-- `BlockedReader::read_block_frame`: one whole block, seen as a header. -/
def readBlockFrame (reader : R) : R × Except BlockReadError BlockHeader :=
  match br.readBlock reader blockSize with
  | (reader, .error e) => (reader, .error e)
  | (reader, .ok data) =>
    if data.length ≠ blockSize then (reader, .error (.error (.other "got wrong block size")))
    else (reader, .ok (BlockHeader.ofBytes data))

/-- `BlockedReader::check_buffer`: the payload size and whether the block ends the stream. -/
def checkBuffer (buffer : BlockHeader) (seqNr : UInt32) : Except IoError (Nat × Bool) :=
  if buffer.magic ≠ blockHeaderMagic then
    .error (.other
      "got tape block with unknown magic number - not written by PBS or incompatible LTO version")
  else if seqNr ≠ buffer.seqNr then
    let found := buffer.seqNr
    .error (.other s!"detected tape block with wrong sequence number ({seqNr} != {found})")
  else
    let size := buffer.getSize
    let foundEndMarker := flagsContains buffer.flags endOfStream
    if size > buffer.payload.length then
      let len := buffer.payload.length
      .error (.other s!"detected tape block with wrong payload size ({size} > {len}")
    else if size = 0 ∧ !foundEndMarker then
      .error (.other "detected tape block with zero payload size")
    else .ok (size, foundEndMarker)

/-- `BlockedReader::consume_eof_marker`: the file mark must follow the last block. -/
def consumeEofMarker (reader : R) : R × Except IoError Unit :=
  match br.readBlock reader 512 with
  | (reader, .ok _) => (reader, .error (.other "detected tape block after block-stream end marker"))
  | (reader, .error .endOfFile) => (reader, .ok ())
  | (reader, .error .endOfStream) => (reader, .error (.other "got unexpected end of tape"))
  | (reader, .error (.error e)) => (reader, .error e)

/-- `BlockedReader::open`: reads and checks the first block, and the file mark when it is the
last one. -/
def «open» (reader : R) : Except BlockReadError (BlockedReader R) :=
  match readBlockFrame br reader with
  | (_, .error e) => .error e
  | (reader, .ok buffer) =>
    match checkBuffer buffer 0 with
    | .error e => .error (.error e)
    | .ok (_, foundEndMarker) =>
      if foundEndMarker then
        let incomplete := flagsContains buffer.flags incompleteFlag
        match consumeEofMarker br reader with
        | (_, .error e) => .error (.error e)
        | (reader, .ok ()) => .ok ⟨reader, buffer, 1, true, incomplete, true, false, 0⟩
      else .ok ⟨reader, buffer, 1, false, false, false, false, 0⟩

/-- `BlockedReader::read_block`: the next block, or the end of the data. -/
def readBlock (self : BlockedReader R) (checkEndMarker : Bool) :
    Except IoError (BlockedReader R × Nat) :=
  match readBlockFrame br self.reader with
  | (reader, .error .endOfFile) =>
    if !self.foundEndMarker && checkEndMarker then .error (.other "detected tape stream without end marker")
    else .ok ({ self with reader, gotEod := true, readPos := self.buffer.payload.length }, 0)
  | (_, .error .endOfStream) => .error (.other "got unexpected end of tape")
  | (_, .error (.error e)) => .error e
  | (reader, .ok buffer) =>
    match checkBuffer buffer self.seqNr with
    | .error e => .error e
    | .ok (size, foundEndMarker) =>
      if foundEndMarker then
        match consumeEofMarker br reader with
        | (_, .error e) => .error e
        | (reader, .ok ()) =>
          .ok ({ self with
            reader := reader
            buffer := buffer
            seqNr := self.seqNr + 1
            foundEndMarker := true
            incomplete := flagsContains buffer.flags incompleteFlag
            gotEod := true
            readPos := 0 }, size)
      else .ok ({ self with reader, buffer, seqNr := self.seqNr + 1, readPos := 0 }, size)

/-- `Read::read` of `BlockedReader`: the rest of the current block, or of the next one, up to the
length asked for. -/
def read (self : BlockedReader R) (len : Nat) : Except IoError (BlockedReader R × List UInt8) :=
  if self.readError then .error (.other "detected read after error - internal error")
  else
    let refill : Except IoError (BlockedReader R × Int) :=
      if (self.buffer.getSize : Int) - self.readPos ≤ 0 ∧ !self.gotEod then
        match readBlock br self true with
        | .error e => .error e
        | .ok (self, bufferSize) => .ok (self, bufferSize)
      else .ok (self, (self.buffer.getSize : Int) - self.readPos)
    match refill with
    | .error e => .error e
    | .ok (self, rest) =>
      if rest ≤ 0 then .ok (self, [])
      else
        let copyLen := if (len : Int) < rest then len else rest.toNat
        .ok ({ self with readPos := self.readPos + copyLen },
          (self.buffer.payload.drop self.readPos).take copyLen)

/-- `TapeRead::is_incomplete` of `BlockedReader`. -/
def isIncomplete (self : BlockedReader R) : Except IoError Bool :=
  if !self.gotEod then .error (.other "is_incomplete failed: EOD not reached")
  else if !self.foundEndMarker then .error (.other "is_incomplete failed: no end marker found")
  else .ok self.incomplete

end BlockedReader

/-! ## The blocks of a stream -/

/-- The size field of a block holding `n` bytes. -/
def sizeBytes (n : Nat) : List UInt8 := (LittleEndian.toBytes 8 n).take 3

/-- The `i`-th payload of the bytes `d`. -/
def chunk (d : List UInt8) (i : Nat) : List UInt8 := (d.drop (i * payloadSize)).take payloadSize

/-- The `i`-th full block of a stream, holding `payload`. -/
def dataBlock (i : Nat) (payload : List UInt8) : BlockHeader :=
  ⟨blockHeaderMagic, 0, sizeBytes payloadSize, UInt32.ofNat i, payload⟩

/-- The full blocks of the bytes `d`, one for each full payload. -/
def fullBlocks (d : List UInt8) : List BlockHeader :=
  (List.range (d.length / payloadSize)).map fun i => dataBlock i (chunk d i)

/-- The last block of a stream of the bytes `d`: the bytes after the full payloads, padded with
zeros, flagged `END_OF_STREAM`, and `INCOMPLETE` for an incomplete stream. -/
def endBlock (d : List UInt8) (incomplete : Bool) : BlockHeader :=
  let rest := d.drop (d.length / payloadSize * payloadSize)
  ⟨blockHeaderMagic, if incomplete then endOfStream ||| incompleteFlag else endOfStream,
    sizeBytes rest.length, UInt32.ofNat (d.length / payloadSize),
    rest ++ List.replicate (payloadSize - rest.length) 0⟩

/-- The blocks of the stream of the bytes `d`. -/
def streamBlocks (d : List UInt8) (incomplete : Bool) : List BlockHeader :=
  fullBlocks d ++ [endBlock d incomplete]

/-- The `i`-th block of the stream of the bytes `d`. -/
def blockAt (d : List UInt8) (incomplete : Bool) (i : Nat) : BlockHeader :=
  if i < d.length / payloadSize then dataBlock i (chunk d i) else endBlock d incomplete

/-- How many bytes of `d` the `i`-th block of its stream holds. -/
def blockLen (d : List UInt8) (i : Nat) : Nat := min payloadSize (d.length - i * payloadSize)

/-! ## What the writer holds -/

namespace BlockedWriter

variable {W : Type} (bw : BlockWrite W)

/-- A tape taking blocks one after the other: the state it is left in, and whether one of them
signalled the logical end of media. -/
def writeBlocks (w : W) : List BlockHeader → Except String (W × Bool)
  | [] => .ok (w, false)
  | b :: bs =>
    match bw.writeBlock w b.toBytes with
    | .error e => .error e
    | .ok (w, leom) =>
      match writeBlocks w bs with
      | .error e => .error e
      | .ok (w, leom') => .ok (w, leom || leom')

theorem writeBlocks_append_eq_ok {w w'' : W} {bs cs : List BlockHeader} {leom : Bool} :
    writeBlocks bw w (bs ++ cs) = .ok (w'', leom) ↔
      ∃ w' leom₁ leom₂, writeBlocks bw w bs = .ok (w', leom₁) ∧ writeBlocks bw w' cs = .ok (w'', leom₂) ∧
        leom = (leom₁ || leom₂) := by
  induction bs generalizing w leom with
  | nil =>
    simp only [List.nil_append, writeBlocks, Except.ok.injEq, Prod.mk.injEq]
    constructor
    · intro h
      exact ⟨w, false, leom, ⟨rfl, rfl⟩, h, rfl⟩
    · rintro ⟨w', l₁, l₂, ⟨rfl, rfl⟩, h, rfl⟩
      exact h
  | cons b bs ih =>
    simp only [List.cons_append, writeBlocks]
    cases hb : bw.writeBlock w b.toBytes with
    | error e => simp
    | ok r =>
      obtain ⟨w₁, l⟩ := r
      dsimp only
      constructor
      · intro h
        cases hrest : writeBlocks bw w₁ (bs ++ cs) with
        | error e => simp [hrest] at h
        | ok r' =>
          obtain ⟨w₂, l'⟩ := r'
          simp only [hrest, Except.ok.injEq, Prod.mk.injEq] at h
          obtain ⟨rfl, rfl⟩ := h
          obtain ⟨w', l₁, l₂, h₁, h₂, rfl⟩ := (ih (w := w₁)).1 hrest
          exact ⟨w', l || l₁, l₂, by simp [h₁], h₂, by simp [Bool.or_assoc]⟩
      · rintro ⟨w', l₁, l₂, h₁, h₂, rfl⟩
        cases hbs : writeBlocks bw w₁ bs with
        | error e => simp [hbs] at h₁
        | ok r' =>
          obtain ⟨w₂, l'⟩ := r'
          simp only [hbs, Except.ok.injEq, Prod.mk.injEq] at h₁
          obtain ⟨rfl, rfl⟩ := h₁
          rw [(ih (w := w₁)).2 ⟨w₂, l', l₂, hbs, h₂, rfl⟩]
          simp [Bool.or_assoc]

end BlockedWriter

/-! ## Full payloads of growing data -/

theorem payloadSize_eq : payloadSize = 262128 := rfl

/-- Bytes that do not fill the buffer leave the number of full payloads as it is. -/
theorem div_payloadSize_of_lt {a b : Nat} (h : a % payloadSize + b < payloadSize) :
    (a + b) / payloadSize = a / payloadSize ∧ (a + b) % payloadSize = a % payloadSize + b := by
  rw [payloadSize_eq] at h ⊢
  omega

/-- Bytes that fill the buffer add one full payload and leave nothing pending. -/
theorem div_payloadSize_of_eq {a b : Nat} (h : a % payloadSize + b = payloadSize) :
    (a + b) / payloadSize = a / payloadSize + 1 ∧ (a + b) % payloadSize = 0 := by
  rw [payloadSize_eq] at h ⊢
  omega

theorem succ_mul_le_of_lt_div {i n : Nat} (h : i < n / payloadSize) : (i + 1) * payloadSize ≤ n :=
  calc (i + 1) * payloadSize ≤ n / payloadSize * payloadSize := Nat.mul_le_mul_right _ h
    _ ≤ n := Nat.div_mul_le_self _ _

/-- A payload that lies within `d` is the same in every extension of `d`. -/
theorem chunk_append_of_le {d x : List UInt8} {i : Nat} (h : (i + 1) * payloadSize ≤ d.length) :
    chunk (d ++ x) i = chunk d i := by
  have hlen : payloadSize ≤ (d.drop (i * payloadSize)).length := by
    simp only [List.length_drop, Nat.succ_mul] at h ⊢
    omega
  unfold chunk
  rw [List.drop_append_of_le_length (by rw [Nat.succ_mul] at h; omega),
    List.take_append_of_le_length hlen]

/-- Bytes that do not fill the buffer add no full block. -/
theorem fullBlocks_append_of_lt {d x : List UInt8} (h : d.length % payloadSize + x.length < payloadSize) :
    fullBlocks (d ++ x) = fullBlocks d := by
  have hdiv : (d ++ x).length / payloadSize = d.length / payloadSize := by
    rw [List.length_append]
    rw [payloadSize_eq] at h ⊢
    omega
  unfold fullBlocks
  rw [hdiv]
  refine List.map_congr_left fun i hi => ?_
  rw [chunk_append_of_le]
  have := Nat.div_mul_le_self d.length payloadSize
  have : i + 1 ≤ d.length / payloadSize := List.mem_range.1 hi
  calc (i + 1) * payloadSize ≤ d.length / payloadSize * payloadSize := Nat.mul_le_mul_right _ this
    _ ≤ d.length := Nat.div_mul_le_self _ _

/-- Bytes that fill the buffer add one full block: the pending bytes and them. -/
theorem fullBlocks_append_of_eq {d x : List UInt8}
    (h : d.length % payloadSize + x.length = payloadSize) :
    fullBlocks (d ++ x) = fullBlocks d ++
      [dataBlock (d.length / payloadSize) (d.drop (d.length / payloadSize * payloadSize) ++ x)] := by
  have hdiv : (d ++ x).length / payloadSize = d.length / payloadSize + 1 := by
    rw [List.length_append]
    rw [payloadSize_eq] at h ⊢
    omega
  have hmod := Nat.mod_add_div d.length payloadSize
  unfold fullBlocks
  rw [hdiv, List.range_succ, List.map_append, List.map_singleton]
  congr 1
  · refine List.map_congr_left fun i hi => ?_
    rw [chunk_append_of_le]
    have : i + 1 ≤ d.length / payloadSize := List.mem_range.1 hi
    calc (i + 1) * payloadSize ≤ d.length / payloadSize * payloadSize := Nat.mul_le_mul_right _ this
      _ ≤ d.length := Nat.div_mul_le_self _ _
  · -- the new payload is the pending bytes of `d` and all of `x`
    unfold chunk
    rw [List.drop_append_of_le_length (Nat.div_mul_le_self _ _), List.take_of_length_le]
    simp only [List.length_append, List.length_drop]
    rw [Nat.mul_comm] at hmod
    omega

/-- The full blocks of a prefix are a prefix of the full blocks. -/
theorem exists_fullBlocks_eq_append {e D : List UInt8} (h : e <+: D) :
    ∃ rest, fullBlocks D = fullBlocks e ++ rest := by
  obtain ⟨t, rfl⟩ := h
  have hle : e.length / payloadSize ≤ (e ++ t).length / payloadSize :=
    Nat.div_le_div_right (by simp)
  obtain ⟨k, hk⟩ := Nat.exists_eq_add_of_le hle
  refine ⟨((List.range k).map (e.length / payloadSize + ·)).map
    fun i => dataBlock i (chunk (e ++ t) i), ?_⟩
  unfold fullBlocks
  rw [hk, List.range_add, List.map_append]
  congr 1
  refine List.map_congr_left fun i hi => ?_
  rw [chunk_append_of_le]
  have : i + 1 ≤ e.length / payloadSize := List.mem_range.1 hi
  calc (i + 1) * payloadSize ≤ e.length / payloadSize * payloadSize := Nat.mul_le_mul_right _ this
    _ ≤ e.length := Nat.div_mul_le_self _ _

namespace BlockedWriter

variable {W : Type} (bw : BlockWrite W)

/-- A tape that takes a list of blocks takes each prefix of it. -/
theorem writeBlocks_ok_of_append {w : W} {bs cs : List BlockHeader}
    (h : ∃ r, writeBlocks bw w (bs ++ cs) = .ok r) : ∃ r, writeBlocks bw w bs = .ok r := by
  obtain ⟨⟨w'', leom⟩, h⟩ := h
  obtain ⟨w', l₁, -, h₁, -⟩ := (writeBlocks_append_eq_ok bw).1 h
  exact ⟨(w', l₁), h₁⟩

/-- The writer has taken the bytes `d`: it handed the full blocks of `d` to the tape, which it left
in its present state, and holds the rest in its buffer, with the sequence number of the next
block. -/
structure Holds (wr : BlockedWriter W) (w₀ : W) (d : List UInt8) : Prop where
  tape : writeBlocks bw w₀ (fullBlocks d) = .ok (wr.writer, wr.logicalEndOfMedia)
  seqNr : wr.seqNr = UInt32.ofNat (d.length / payloadSize)
  bufferPos : wr.bufferPos = d.length % payloadSize
  pending : wr.buffer.payload.take wr.bufferPos = d.drop (d.length / payloadSize * payloadSize)
  payload_length : wr.buffer.payload.length = payloadSize
  magic : wr.buffer.magic = blockHeaderMagic
  wroteEof : wr.wroteEof = false

theorem holds_new (w₀ : W) : Holds bw (new w₀) w₀ [] where
  tape := rfl
  seqNr := rfl
  bufferPos := rfl
  pending := rfl
  payload_length := BlockHeader.length_payload_new
  magic := rfl
  wroteEof := rfl

theorem writeBlocks_singleton {w w' : W} {b : BlockHeader} {leom : Bool} :
    writeBlocks bw w [b] = .ok (w', leom) ↔ bw.writeBlock w b.toBytes = .ok (w', leom) := by
  cases h : bw.writeBlock w b.toBytes with
  | error e => simp [writeBlocks, h]
  | ok r =>
    obtain ⟨w₁, l⟩ := r
    simp [writeBlocks, h]

/-- Copying bytes into the buffer behind the pending ones. -/
theorem take_splice {dest src : List UInt8} {pos : Nat} (h : pos ≤ dest.length) :
    (splice dest pos src).take (pos + src.length) = dest.take pos ++ src := by
  have : (dest.take pos ++ src).length = pos + src.length := by
    simp only [List.length_append, List.length_take]
    omega
  rw [splice, List.take_append_of_le_length (by omega), List.take_of_length_le (by omega)]

/-- A write fails only when the bytes fill the buffer and the tape refuses the buffer as a block. -/
theorem write_eq_error {self : BlockedWriter W} {data : List UInt8} {e : String}
    (h : write bw self data = .error e) :
    ∃ x, x <+: data ∧ self.bufferPos + x.length = self.buffer.payload.length ∧
      bw.writeBlock self.writer ((({ self.buffer with
          payload := splice self.buffer.payload self.bufferPos x, flags := 0 } : BlockHeader).setSize
            (splice self.buffer.payload self.bufferPos x).length).setSeqNr self.seqNr).toBytes =
        .error e := by
  have hlt := self.bufferPos_lt
  unfold write at h
  by_cases hnil : data.isEmpty
  · rw [if_pos hnil] at h
    cases h
  rw [if_neg hnil] at h
  dsimp only at h
  simp only [ite_lt_eq_min] at h
  split at h
  · split at h
    · rename_i hfull _ _ hwb
      cases h
      refine ⟨_, List.take_prefix _ _, ?_, hwb⟩
      simp only [List.length_take]
      omega
    · cases h
  · cases h

/-- `write_all` is a write and `write_all` of what the write did not take. -/
theorem writeAll_eq {self : BlockedWriter W} {data : List UInt8} (hne : data ≠ []) :
    writeAll bw self data = (write bw self data).bind fun r => writeAll bw r.1 (data.drop r.2) := by
  rw [writeAll, dif_neg hne]
  split <;> rename_i hw <;> rw [hw] <;> rfl

/-- `write_all` called with each piece of the data in turn, as a stream is written in pieces. -/
def writeAlls (self : BlockedWriter W) : List (List UInt8) → Except String (BlockedWriter W)
  | [] => .ok self
  | piece :: pieces =>
    match writeAll bw self piece with
    | .error e => .error e
    | .ok (self, _) => writeAlls self pieces

/-- A tape that takes the full blocks of some bytes takes those of every prefix of them. -/
theorem writeBlocks_fullBlocks_mono {w₀ : W} {e D : List UInt8} (h : e <+: D)
    (hcap : ∃ r, writeBlocks bw w₀ (fullBlocks D) = .ok r) :
    ∃ r, writeBlocks bw w₀ (fullBlocks e) = .ok r := by
  obtain ⟨rest, hrest⟩ := exists_fullBlocks_eq_append h
  rw [hrest] at hcap
  exact writeBlocks_ok_of_append bw hcap

/-- The buffer written when it is full is the next full block. -/
theorem fullBuffer_eq {b : BlockHeader} {p : List UInt8} {i : Nat} (hmagic : b.magic = blockHeaderMagic)
    (hp : p.length = payloadSize) :
    (({ b with payload := p, flags := 0 } : BlockHeader).setSize p.length).setSeqNr (UInt32.ofNat i) =
      dataBlock i p := by
  simp only [BlockHeader.setSeqNr, BlockHeader.setSize, dataBlock, sizeBytes, hmagic, hp]

variable {bw} {self : BlockedWriter W} {w₀ : W} {d : List UInt8}

/-- Bytes copied into the buffer come after the pending ones. -/
theorem Holds.take_splice (hold : Holds bw self w₀ d) {x : List UInt8}
    (hx : self.bufferPos + x.length ≤ payloadSize) :
    (splice self.buffer.payload self.bufferPos x).take (self.bufferPos + x.length) =
      d.drop (d.length / payloadSize * payloadSize) ++ x := by
  rw [BlockedWriter.take_splice (by rw [hold.payload_length]; omega), hold.pending]

theorem Holds.length_splice (hold : Holds bw self w₀ d) {x : List UInt8}
    (hx : self.bufferPos + x.length ≤ payloadSize) :
    (splice self.buffer.payload self.bufferPos x).length = payloadSize := by
  rw [ProxmoxBackup.Tape.length_splice (by rw [hold.payload_length]; omega), hold.payload_length]

/-- Bytes that fill the buffer: its payload is the pending bytes and them. -/
theorem Holds.splice_of_fill (hold : Holds bw self w₀ d) {x : List UInt8}
    (hx : self.bufferPos + x.length = payloadSize) :
    splice self.buffer.payload self.bufferPos x = d.drop (d.length / payloadSize * payloadSize) ++ x := by
  rw [← hold.take_splice (Nat.le_of_eq hx), List.take_of_length_le (Nat.le_of_eq (by
    rw [hold.length_splice (Nat.le_of_eq hx), hx]))]

/-- A write keeps `Holds`, with the bytes it took added. -/
theorem Holds.write {self' : BlockedWriter W} {data : List UInt8} {n : Nat}
    (hold : Holds bw self w₀ d) (h : BlockedWriter.write bw self data = .ok (self', n)) :
    Holds bw self' w₀ (d ++ data.take n) := by
  have hpos := hold.bufferPos
  have hlen := hold.payload_length
  unfold BlockedWriter.write at h
  by_cases hnil : data.isEmpty
  · rw [if_pos hnil] at h
    cases h
    rwa [List.take_zero, List.append_nil]
  rw [if_neg hnil] at h
  dsimp only at h
  simp only [ite_lt_eq_min] at h
  have hlt : d.length % payloadSize < payloadSize := Nat.mod_lt _ (by rw [payloadSize_eq]; omega)
  -- the bytes taken: all of `data`, or what fills the buffer
  set x := data.take (min data.length (self.buffer.payload.length - self.bufferPos)) with hx
  have hxlen : x.length = min data.length (self.buffer.payload.length - self.bufferPos) := by
    simp only [hx, List.length_take]
    omega
  have hroom : self.bufferPos + x.length ≤ payloadSize := by omega
  split at h
  · -- the buffer is full and is written as the next block
    rename_i hfull
    have hfill : d.length % payloadSize + x.length = payloadSize := by omega
    obtain ⟨hdiv, hmod⟩ := div_payloadSize_of_eq hfill
    split at h
    · cases h
    rename_i writer leom hwb
    cases h
    simp only [← hx]
    rw [hold.seqNr, fullBuffer_eq hold.magic (hold.length_splice hroom),
      hold.splice_of_fill (by omega)] at hwb
    refine ⟨?_, ?_, ?_, ?_, ?_, ?_, ?_⟩
    · rw [fullBlocks_append_of_eq hfill]
      exact (writeBlocks_append_eq_ok bw).2 ⟨self.writer, self.logicalEndOfMedia, leom, hold.tape,
        (writeBlocks_singleton bw).2 hwb, rfl⟩
    · rw [List.length_append, hdiv, hold.seqNr]
      exact (UInt32.ofNat_add _ 1).symm
    · rw [List.length_append, hmod]
    · have hall : (d ++ x).length = (d.length / payloadSize + 1) * payloadSize := by
        have := Nat.div_add_mod (d.length + x.length) payloadSize
        rw [hmod, hdiv, Nat.add_zero, Nat.mul_comm] at this
        rw [List.length_append, this]
      rw [List.take_zero, hall, Nat.mul_div_cancel _ (by rw [payloadSize_eq]; omega), ← hall,
        List.drop_length]
    · exact hold.length_splice hroom
    · exact hold.magic
    · exact hold.wroteEof
  · -- the buffer is not full: the bytes are only copied
    rename_i hfull
    have hrest : d.length % payloadSize + x.length < payloadSize := by omega
    obtain ⟨hdiv, hmod⟩ := div_payloadSize_of_lt hrest
    cases h
    simp only [← hx]
    refine ⟨?_, ?_, ?_, ?_, ?_, ?_, ?_⟩
    · rw [fullBlocks_append_of_lt hrest]
      exact hold.tape
    · rw [List.length_append, hdiv]
      exact hold.seqNr
    · dsimp only
      rw [List.length_append, hmod, hxlen, hpos]
    · dsimp only
      simp only [← hxlen]
      rw [hold.take_splice hroom, List.length_append, hdiv,
        List.drop_append_of_le_length (Nat.div_mul_le_self _ _)]
    · exact hold.length_splice hroom
    · exact hold.magic
    · exact hold.wroteEof

/-- A tape that takes the full blocks of `d ++ data` takes every block a write of `data` hands it. -/
theorem Holds.write_ne_error {data : List UInt8} {e : String} (hold : Holds bw self w₀ d)
    (hcap : ∃ r, writeBlocks bw w₀ (fullBlocks (d ++ data)) = .ok r)
    (h : BlockedWriter.write bw self data = .error e) : False := by
  obtain ⟨x, ⟨t, rfl⟩, hfill, hwb⟩ := write_eq_error bw h
  have hpos := hold.bufferPos
  rw [hold.payload_length] at hfill
  rw [hold.seqNr, fullBuffer_eq hold.magic (hold.length_splice (Nat.le_of_eq hfill)),
    hold.splice_of_fill hfill] at hwb
  -- the refused block is the next full block of `d ++ x`, which the tape takes
  obtain ⟨rest, hrest⟩ := exists_fullBlocks_eq_append (List.prefix_append (d ++ x) t)
  rw [@fullBlocks_append_of_eq d x (by omega)] at hrest
  obtain ⟨⟨w, l⟩, hr⟩ := hcap
  rw [← List.append_assoc, hrest, List.append_assoc] at hr
  obtain ⟨w', l₁, l₂, h₁, h₂, -⟩ := (writeBlocks_append_eq_ok bw).1 hr
  rw [hold.tape] at h₁
  cases h₁
  simp [writeBlocks, hwb] at h₂

/-- `write_all` keeps `Holds`, with all its bytes added, and returns the writer's end-of-media
flag. -/
theorem Holds.writeAll {self' : BlockedWriter W} {data : List UInt8} {leom : Bool}
    (hold : Holds bw self w₀ d) (h : BlockedWriter.writeAll bw self data = .ok (self', leom)) :
    Holds bw self' w₀ (d ++ data) ∧ leom = self'.logicalEndOfMedia := by
  induction self, data using BlockedWriter.writeAll.induct bw generalizing d with
  | case1 self =>
    rw [BlockedWriter.writeAll, dif_pos rfl] at h
    cases h
    exact ⟨by rwa [List.append_nil], rfl⟩
  | case2 self data hne e hw =>
    rw [writeAll_eq bw hne, hw] at h
    cases h
  | case3 self data hne self₁ n hw ih =>
    rw [writeAll_eq bw hne, hw] at h
    have := ih (hold.write hw) h
    rwa [List.append_assoc, List.take_append_drop] at this

/-- `write_all` succeeds when the tape takes the full blocks of all the bytes. -/
theorem Holds.writeAll_ok {data : List UInt8} (hold : Holds bw self w₀ d)
    (hcap : ∃ r, writeBlocks bw w₀ (fullBlocks (d ++ data)) = .ok r) :
    ∃ r, BlockedWriter.writeAll bw self data = .ok r := by
  induction self, data using BlockedWriter.writeAll.induct bw generalizing d with
  | case1 self => exact ⟨_, by rw [BlockedWriter.writeAll, dif_pos rfl]⟩
  | case2 self data hne e hw => exact (hold.write_ne_error hcap hw).elim
  | case3 self data hne self₁ n hw ih =>
    rw [writeAll_eq bw hne, hw]
    refine ih (hold.write hw) ?_
    rwa [List.append_assoc, List.take_append_drop]

/-- Every `write_all` of a stream written in pieces keeps `Holds`. -/
theorem Holds.writeAlls {self' : BlockedWriter W} {pieces : List (List UInt8)}
    (hold : Holds bw self w₀ d) (h : BlockedWriter.writeAlls bw self pieces = .ok self') :
    Holds bw self' w₀ (d ++ pieces.flatten) := by
  induction pieces generalizing self d with
  | nil =>
    cases h
    rwa [List.flatten_nil, List.append_nil]
  | cons piece pieces ih =>
    rw [BlockedWriter.writeAlls] at h
    split at h
    · cases h
    · rename_i self₁ leom hw
      rw [List.flatten_cons, ← List.append_assoc]
      exact ih (hold.writeAll hw).1 h

/-- The pieces are all written when the tape takes the full blocks of all of them. -/
theorem Holds.writeAlls_ok {pieces : List (List UInt8)} (hold : Holds bw self w₀ d)
    (hcap : ∃ r, writeBlocks bw w₀ (fullBlocks (d ++ pieces.flatten)) = .ok r) :
    ∃ self', BlockedWriter.writeAlls bw self pieces = .ok self' := by
  induction pieces generalizing self d with
  | nil => exact ⟨self, rfl⟩
  | cons piece pieces ih =>
    rw [List.flatten_cons, ← List.append_assoc] at hcap
    obtain ⟨⟨self₁, leom⟩, hw⟩ :=
      hold.writeAll_ok (writeBlocks_fullBlocks_mono bw (List.prefix_append _ _) hcap)
    rw [BlockedWriter.writeAlls, hw]
    exact ih (hold.writeAll hw).1 hcap

/-- The last buffer `finish` writes is the end block of the stream. -/
theorem Holds.endBuffer_eq (hold : Holds bw self w₀ d) (incomplete : Bool) :
    (({ self.buffer with
        payload := self.buffer.payload.take self.bufferPos ++
          List.replicate (self.buffer.payload.length - self.bufferPos) 0,
        flags := if incomplete then endOfStream ||| incompleteFlag else endOfStream } :
          BlockHeader).setSize self.bufferPos).setSeqNr self.seqNr = endBlock d incomplete := by
  have hrest : (d.drop (d.length / payloadSize * payloadSize)).length = d.length % payloadSize := by
    rw [List.length_drop, Nat.mod_eq_sub_div_mul]
  have hpending := hold.pending
  rw [hold.bufferPos] at hpending
  simp only [BlockHeader.setSeqNr, BlockHeader.setSize, endBlock, sizeBytes, hold.magic,
    hold.payload_length, hold.seqNr, hrest, hold.bufferPos, hpending]

/-- `finish` writes the end block of the stream, then the file mark. -/
theorem Holds.finish {incomplete : Bool} {w w' : W} {leom : Bool} (hold : Holds bw self w₀ d)
    (hb : bw.writeBlock self.writer (endBlock d incomplete).toBytes = .ok (w, leom))
    (hf : bw.writeFilemark w = .ok w') :
    ∃ self', BlockedWriter.finish bw self incomplete = .ok (self', leom) ∧ self'.writer = w' := by
  unfold BlockedWriter.finish
  simp only [hold.endBuffer_eq, writeBlock, hb, writeEof, hold.wroteEof, hf]
  exact ⟨_, rfl, rfl⟩

end BlockedWriter

namespace EmulateTapeWriter

/-- The end-of-media flag of a run of blocks: whether the last of them lies past the room. -/
theorem leom_cons (n m k : Nat) (bs : List BlockHeader) (hk : k = bs.length) :
    (decide (n + 1 > m) || (!bs.isEmpty && decide (m < n + 1 + k))) = decide (m < n + (k + 1)) := by
  subst hk
  cases bs with
  | nil => simp
  | cons _ bs =>
    simp only [List.isEmpty_cons, Bool.not_false, Bool.true_and, List.length_cons]
    by_cases h : m < n + 1 <;> simp [h] <;> omega

/-- The emulated tape appends the blocks it has room for, and signals the logical end of media
when the last of them lies past its room. -/
theorem writeBlocks_eq (tw : EmulateTapeWriter) {bs : List BlockHeader}
    (hlen : ∀ b ∈ bs, b.toBytes.length = blockSize) (hcap : tw.blockNr + bs.length ≤ tw.maxBlocks + 2) :
    BlockedWriter.writeBlocks blockWrite tw bs =
      .ok (⟨tw.blockNr + bs.length, tw.maxBlocks, tw.writer ++ bs.flatMap BlockHeader.toBytes,
        tw.wroteEof⟩, !bs.isEmpty && decide (tw.maxBlocks < tw.blockNr + bs.length)) := by
  induction bs generalizing tw with
  | nil => simp [BlockedWriter.writeBlocks]
  | cons b bs ih =>
    have hb : blockWrite.writeBlock tw b.toBytes =
        .ok (⟨tw.blockNr + 1, tw.maxBlocks, tw.writer ++ b.toBytes, tw.wroteEof⟩,
          decide (tw.blockNr + 1 > tw.maxBlocks)) := by
      have : ¬tw.blockNr ≥ tw.maxBlocks + 2 := by
        simp only [List.length_cons] at hcap
        omega
      simp only [blockWrite, writeBlock, hlen b List.mem_cons_self, ne_eq, not_true_eq_false,
        if_false, if_neg this]
    have h := ih ⟨tw.blockNr + 1, tw.maxBlocks, tw.writer ++ b.toBytes, tw.wroteEof⟩
      (fun b' hb' => hlen b' (List.mem_cons_of_mem _ hb')) (by simp only [List.length_cons] at hcap ⊢; omega)
    dsimp only at h
    simp only [BlockedWriter.writeBlocks, hb, h, List.flatMap_cons, List.append_assoc, List.length_cons,
      leom_cons tw.blockNr tw.maxBlocks bs.length bs rfl, List.isEmpty_cons, Bool.not_false, Bool.true_and]
    rw [show tw.blockNr + 1 + bs.length = tw.blockNr + (bs.length + 1) by omega]

end EmulateTapeWriter

/-! ## The blocks of a stream on tape -/

theorem flagsContains_zero_endOfStream : flagsContains 0 endOfStream = false := by decide

theorem flagsContains_endOfStream (incomplete : Bool) :
    flagsContains (if incomplete then endOfStream ||| incompleteFlag else endOfStream) endOfStream = true := by
  cases incomplete <;> decide

theorem flagsContains_incompleteFlag (incomplete : Bool) :
    flagsContains (if incomplete then endOfStream ||| incompleteFlag else endOfStream) incompleteFlag =
      incomplete := by
  cases incomplete <;> decide

theorem length_sizeBytes (n : Nat) : (sizeBytes n).length = 3 := by
  simp [sizeBytes]

/-- The size field holds every payload size: the three bytes are the size below `2 ^ 24`. -/
theorem getSize_of_size {b : BlockHeader} {n : Nat} (h : b.size = sizeBytes n) (hn : n < 2 ^ 24) :
    b.getSize = n := by
  have hbytes : b.size = [UInt8.ofNat n, UInt8.ofNat (n / 256), UInt8.ofNat (n / 256 / 256)] := by
    rw [h, sizeBytes]
    rfl
  -- the body by unfolding alone: the equation lemma of getSize is slow to generate
  show (b.size.getD 0 0).toNat + ((b.size.getD 1 0).toNat <<< 8) + ((b.size.getD 2 0).toNat <<< 16) = n
  rw [hbytes]
  simp only [List.getD_cons_zero, List.getD_cons_succ, UInt8.toNat_ofNat', Nat.shiftLeft_eq]
  omega

namespace BlockHeader

/-- A header with fields of their lengths takes one block on tape. -/
theorem length_toBytes {b : BlockHeader} (hm : b.magic.length = 8) (hs : b.size.length = 3)
    (hp : b.payload.length = payloadSize) : b.toBytes.length = blockSize := by
  simp only [toBytes, List.length_append, List.length_cons, hm, hs, hp, LittleEndian.length_toBytes]
  rfl

/-- A header read back from its bytes on tape is the header. -/
theorem ofBytes_toBytes {b : BlockHeader} (hm : b.magic.length = 8) (hs : b.size.length = 3) :
    ofBytes b.toBytes = b := by
  obtain ⟨magic, flags, size, seqNr, payload⟩ := b
  dsimp only at hm hs
  have hseq : LittleEndian.ofBytes (LittleEndian.toBytes 4 seqNr.toNat) = seqNr.toNat :=
    LittleEndian.ofBytes_toBytes_of_lt seqNr.toNat_lt
  have h9 : (magic ++ flags :: (size ++ (LittleEndian.toBytes 4 seqNr.toNat ++ payload))).drop 9 =
      size ++ (LittleEndian.toBytes 4 seqNr.toNat ++ payload) := by
    rw [show 9 = 8 + 1 from rfl, ← List.drop_drop, List.drop_left' hm, List.drop_one, List.tail_cons]
  have h12 : (magic ++ flags :: (size ++ (LittleEndian.toBytes 4 seqNr.toNat ++ payload))).drop 12 =
      LittleEndian.toBytes 4 seqNr.toNat ++ payload := by
    rw [show 12 = 9 + 3 from rfl, ← List.drop_drop, h9, List.drop_left' hs]
  have h16 : (magic ++ flags :: (size ++ (LittleEndian.toBytes 4 seqNr.toNat ++ payload))).drop 16 =
      payload := by
    rw [show 16 = 12 + 4 from rfl, ← List.drop_drop, h12, List.drop_left' (LittleEndian.length_toBytes _ _)]
  have h8 : (magic ++ flags :: (size ++ (LittleEndian.toBytes 4 seqNr.toNat ++ payload))).getD 8 0 = flags := by
    rw [List.getD_eq_getElem?_getD, List.getElem?_append_right (by omega), hm]
    rfl
  simp only [ofBytes, toBytes, List.append_assoc, List.take_left' hm, List.cons_append, h8, h9, h12, h16,
    List.take_left' hs, List.take_left' (LittleEndian.length_toBytes _ _), hseq, UInt32.ofNat_toNat]

end BlockHeader

section Stream

variable (d : List UInt8) (incomplete : Bool)

theorem blockAt_of_lt {i : Nat} (h : i < d.length / payloadSize) :
    blockAt d incomplete i = dataBlock i (chunk d i) := if_pos h

theorem blockAt_last : blockAt d incomplete (d.length / payloadSize) = endBlock d incomplete :=
  if_neg (Nat.lt_irrefl _)

/-- The stream is its blocks in order. -/
theorem streamBlocks_eq_map :
    streamBlocks d incomplete = (List.range (d.length / payloadSize + 1)).map (blockAt d incomplete) := by
  rw [streamBlocks, fullBlocks, List.range_succ, List.map_append, List.map_singleton, blockAt_last]
  congr 1
  exact List.map_congr_left fun i hi => (blockAt_of_lt d incomplete (List.mem_range.1 hi)).symm

variable {d} {i : Nat}

theorem blockLen_of_lt (h : i < d.length / payloadSize) : blockLen d i = payloadSize := by
  have := succ_mul_le_of_lt_div h
  rw [blockLen, Nat.succ_mul] at *
  omega

theorem blockLen_last : blockLen d (d.length / payloadSize) = d.length % payloadSize := by
  have := Nat.mod_lt d.length (show 0 < payloadSize by rw [payloadSize_eq]; omega)
  rw [blockLen, ← Nat.mod_eq_sub_div_mul]
  omega

/-- Only the last block can hold nothing. -/
theorem eq_of_blockLen_eq_zero (hi : i ≤ d.length / payloadSize) (h : blockLen d i = 0) :
    i = d.length / payloadSize := by
  rcases Nat.lt_or_eq_of_le hi with hlt | heq
  · rw [blockLen_of_lt hlt, payloadSize_eq] at h
    cases h
  · exact heq

theorem blockLen_le : blockLen d i ≤ payloadSize := Nat.min_le_left _ _

theorem blockAt_magic : (blockAt d incomplete i).magic = blockHeaderMagic := by
  unfold blockAt
  split <;> rfl

theorem blockAt_seqNr (hi : i ≤ d.length / payloadSize) : (blockAt d incomplete i).seqNr = UInt32.ofNat i := by
  rcases Nat.lt_or_eq_of_le hi with hlt | rfl
  · rw [blockAt_of_lt d incomplete hlt]
    rfl
  · rw [blockAt_last]
    rfl

theorem blockAt_size (hi : i ≤ d.length / payloadSize) :
    (blockAt d incomplete i).size = sizeBytes (blockLen d i) := by
  rcases Nat.lt_or_eq_of_le hi with hlt | rfl
  · rw [blockAt_of_lt d incomplete hlt, blockLen_of_lt hlt]
    rfl
  · rw [blockAt_last, blockLen_last, endBlock, List.length_drop, ← Nat.mod_eq_sub_div_mul]

theorem blockAt_getSize (hi : i ≤ d.length / payloadSize) :
    (blockAt d incomplete i).getSize = blockLen d i :=
  getSize_of_size (blockAt_size incomplete hi) (Nat.lt_of_le_of_lt blockLen_le (by rw [payloadSize_eq]; decide))

/-- What a block holds: the next bytes of the stream, then padding, a full payload in all. -/
theorem blockAt_payload (hi : i ≤ d.length / payloadSize) :
    ∃ pad, (blockAt d incomplete i).payload = (d.drop (i * payloadSize)).take (blockLen d i) ++ pad ∧
      blockLen d i ≤ (d.drop (i * payloadSize)).length ∧ (blockAt d incomplete i).payload.length = payloadSize := by
  have hlen : (d.drop (i * payloadSize)).length = d.length - i * payloadSize := List.length_drop
  rcases Nat.lt_or_eq_of_le hi with hlt | rfl
  · have := succ_mul_le_of_lt_div hlt
    rw [blockAt_of_lt d incomplete hlt, blockLen_of_lt hlt]
    refine ⟨[], List.append_nil _ |>.symm, ?_, ?_⟩
    · rw [hlen, Nat.succ_mul] at *
      omega
    · simp only [dataBlock, chunk, List.length_take, hlen]
      rw [Nat.succ_mul] at this
      omega
  · rw [blockAt_last, blockLen_last]
    have hrest : (d.drop (d.length / payloadSize * payloadSize)).length = d.length % payloadSize := by
      rw [hlen, ← Nat.mod_eq_sub_div_mul]
    have := Nat.mod_lt d.length (show 0 < payloadSize by rw [payloadSize_eq]; omega)
    refine ⟨List.replicate (payloadSize - d.length % payloadSize) 0, ?_, Nat.le_of_eq hrest.symm, ?_⟩
    · rw [endBlock, ← hrest, List.take_length]
    · simp only [endBlock, List.length_append, List.length_replicate, hrest]
      omega

theorem blockAt_flags_endOfStream (hi : i ≤ d.length / payloadSize) :
    flagsContains (blockAt d incomplete i).flags endOfStream = decide (i = d.length / payloadSize) := by
  rcases Nat.lt_or_eq_of_le hi with hlt | rfl
  · rw [blockAt_of_lt d incomplete hlt, decide_eq_false (Nat.ne_of_lt hlt)]
    exact flagsContains_zero_endOfStream
  · rw [blockAt_last, decide_eq_true rfl]
    exact flagsContains_endOfStream incomplete

theorem blockAt_flags_incomplete :
    flagsContains (blockAt d incomplete (d.length / payloadSize)).flags incompleteFlag = incomplete := by
  rw [blockAt_last]
  exact flagsContains_incompleteFlag incomplete

theorem length_toBytes_blockAt (hi : i ≤ d.length / payloadSize) :
    (blockAt d incomplete i).toBytes.length = blockSize := by
  obtain ⟨-, -, -, hp⟩ := blockAt_payload incomplete hi
  refine BlockHeader.length_toBytes ?_ ?_ hp
  · rw [blockAt_magic]
    rfl
  · rw [blockAt_size incomplete hi, length_sizeBytes]

theorem ofBytes_toBytes_blockAt (hi : i ≤ d.length / payloadSize) :
    BlockHeader.ofBytes (blockAt d incomplete i).toBytes = blockAt d incomplete i := by
  refine BlockHeader.ofBytes_toBytes ?_ ?_
  · rw [blockAt_magic]
    rfl
  · rw [blockAt_size incomplete hi, length_sizeBytes]

/-- A copy from a block's payload, within what it holds, is a copy from the stream. -/
theorem blockAt_copy (hi : i ≤ d.length / payloadSize) (pos m : Nat) (h : pos + m ≤ blockLen d i) :
    ((blockAt d incomplete i).payload.drop pos).take m = (d.drop (i * payloadSize + pos)).take m := by
  obtain ⟨pad, hp, hle, -⟩ := blockAt_payload incomplete hi
  have htake : ((d.drop (i * payloadSize)).take (blockLen d i)).length = blockLen d i :=
    List.length_take_of_le hle
  rw [hp, List.drop_append_of_le_length (by omega), List.take_append_of_le_length (by
      rw [List.length_drop, htake]; omega), List.drop_take, List.take_take, Nat.min_eq_left (by omega),
    List.drop_drop]

/-- The blocks of the stream from the `k`-th on. -/
theorem drop_streamBlocks {k : Nat} (hk : k ≤ d.length / payloadSize) :
    (streamBlocks d incomplete).drop k = blockAt d incomplete k :: (streamBlocks d incomplete).drop (k + 1) := by
  have hlen : k < (streamBlocks d incomplete).length := by
    rw [streamBlocks_eq_map, List.length_map, List.length_range]
    omega
  rw [List.drop_eq_getElem_cons hlen]
  congr 1
  simp only [streamBlocks_eq_map, List.getElem_map, List.getElem_range]

theorem drop_streamBlocks_last :
    (streamBlocks d incomplete).drop (d.length / payloadSize + 1) = [] := by
  refine List.drop_eq_nil_of_le (Nat.le_of_eq ?_)
  rw [streamBlocks_eq_map, List.length_map, List.length_range]

end Stream

namespace EmulateTapeReader

/-- The emulated tape reads the next block from its bytes. -/
theorem readBlock_append {bytes rest : List UInt8} (h : bytes.length = blockSize) :
    readBlock ⟨bytes ++ rest, false⟩ blockSize = (⟨rest, false⟩, .ok bytes) := by
  have hleft : (fun s r : List UInt8 => s = r) (bytes ++ rest) (bytes ++ rest) := rfl
  rcases readExactOrEof_eq streams_sliceRead hleft (show 0 < blockSize by decide) with
    ⟨hnil, -⟩ | ⟨-, s', hread, rfl⟩ | ⟨-, hlt, -⟩
  · have := congrArg List.length hnil
    rw [List.length_append, h, List.length_nil, blockSize] at this
    omega
  · simp [readBlock, hread, List.take_left' h, List.drop_left' h]
  · rw [List.length_append, h] at hlt
    omega

/-- At the end of its bytes the emulated tape reads the file mark. -/
theorem readBlock_nil {len : Nat} (hlen : 0 < len) :
    readBlock ⟨[], false⟩ len = (⟨[], true⟩, .error .endOfFile) := by
  have hleft : (fun s r : List UInt8 => s = r) [] [] := rfl
  rcases readExactOrEof_eq streams_sliceRead hleft hlen with
    ⟨-, s', hread, rfl⟩ | ⟨hle, -⟩ | ⟨hne, -⟩
  · simp [readBlock, hread]
  · simp only [List.length_nil] at hle
    omega
  · exact absurd rfl hne

end EmulateTapeReader

/-! ## Reading a stream back -/

namespace BlockedReader

variable {R : Type} (br : BlockRead R) {self : BlockedReader R} {len : Nat}

theorem copyLen_eq (len : Nat) {a b : Nat} (h : b < a) :
    (if (len : Int) < (a : Int) - b then len else ((a : Int) - b).toNat) = min len (a - b) := by
  split <;> omega

/-- A read within the current block copies what is asked for, up to the end of the block. -/
theorem read_of_lt (herr : self.readError = false) (hlt : self.readPos < self.buffer.getSize) :
    read br self len =
      .ok ({ self with readPos := self.readPos + min len (self.buffer.getSize - self.readPos) },
        (self.buffer.payload.drop self.readPos).take (min len (self.buffer.getSize - self.readPos))) := by
  have hrefill : ¬((self.buffer.getSize : Int) - self.readPos ≤ 0 ∧ (!self.gotEod) = true) := by omega
  have hrest : ¬((self.buffer.getSize : Int) - self.readPos ≤ 0) := by omega
  simp only [read, herr, Bool.false_eq_true, ↓reduceIte, if_neg hrefill, if_neg hrest, copyLen_eq len hlt]

/-- After the end of the data, a read returns nothing. -/
theorem read_of_end (herr : self.readError = false) (heod : self.gotEod = true)
    (hle : self.buffer.getSize ≤ self.readPos) : read br self len = .ok (self, []) := by
  have hrest : (self.buffer.getSize : Int) - self.readPos ≤ 0 := by omega
  simp only [read, herr, heod, Bool.false_eq_true, ↓reduceIte, Bool.not_true, and_false, hrest]

/-- At the end of a block, a read reads the next block and copies from it. -/
theorem read_of_refill {self₁ : BlockedReader R} {size : Nat} (herr : self.readError = false)
    (heod : self.gotEod = false) (hle : self.buffer.getSize ≤ self.readPos)
    (hblock : readBlock br self true = .ok (self₁, size)) :
    read br self len = if size = 0 then .ok (self₁, []) else
      .ok ({ self₁ with readPos := self₁.readPos + min len size },
        (self₁.buffer.payload.drop self₁.readPos).take (min len size)) := by
  have hrest : (self.buffer.getSize : Int) - self.readPos ≤ 0 := by omega
  simp only [read, herr, heod, Bool.false_eq_true, ↓reduceIte, Bool.not_false, and_true, hrest, hblock]
  by_cases hsize : size = 0
  · simp [hsize]
  · have : ¬((size : Int) ≤ 0) := by omega
    rw [if_neg this, if_neg hsize, show ((size : Int)) = (size : Int) - (0 : Nat) by simp,
      copyLen_eq len (Nat.pos_of_ne_zero hsize), Nat.sub_zero]

end BlockedReader

section Stream

variable {d : List UInt8} {incomplete : Bool} {k : Nat}

variable (incomplete) in
open EmulateTapeReader in
/-- The `k`-th block read from the tape of the stream, with the blocks after it left. -/
theorem readBlockFrame_at (hk : k ≤ d.length / payloadSize) :
    BlockedReader.readBlockFrame blockRead
        ⟨((streamBlocks d incomplete).drop k).flatMap BlockHeader.toBytes, false⟩ =
      (⟨((streamBlocks d incomplete).drop (k + 1)).flatMap BlockHeader.toBytes, false⟩,
        .ok (blockAt d incomplete k)) := by
  have hlen := length_toBytes_blockAt incomplete hk
  rw [drop_streamBlocks incomplete hk, List.flatMap_cons]
  simp only [BlockedReader.readBlockFrame, blockRead, readBlock_append hlen, hlen, ne_eq,
    not_true_eq_false, ↓reduceIte, ofBytes_toBytes_blockAt incomplete hk]

/-- The file mark after the last block. -/
theorem consumeEofMarker_nil :
    BlockedReader.consumeEofMarker EmulateTapeReader.blockRead ⟨[], false⟩ = (⟨[], true⟩, .ok ()) := by
  simp [BlockedReader.consumeEofMarker, EmulateTapeReader.blockRead,
    EmulateTapeReader.readBlock_nil (show 0 < 512 by decide)]

variable (incomplete) in
/-- Every block of the stream passes the reader's checks, with its size and whether it is the
last. -/
theorem checkBuffer_blockAt (hk : k ≤ d.length / payloadSize) :
    BlockedReader.checkBuffer (blockAt d incomplete k) (UInt32.ofNat k) =
      .ok (blockLen d k, decide (k = d.length / payloadSize)) := by
  obtain ⟨-, -, -, hp⟩ := blockAt_payload incomplete hk
  have hsize : ¬blockLen d k > (blockAt d incomplete k).payload.length := by
    rw [hp]
    exact Nat.not_lt.2 blockLen_le
  have hzero : ¬(blockLen d k = 0 ∧ (!decide (k = d.length / payloadSize)) = true) := by
    rintro ⟨h0, hlast⟩
    simp [eq_of_blockLen_eq_zero hk h0] at hlast
  simp only [BlockedReader.checkBuffer, blockAt_magic, blockAt_seqNr incomplete hk, ne_eq,
    not_true_eq_false, ↓reduceIte, blockAt_getSize incomplete hk, blockAt_flags_endOfStream incomplete hk,
    if_neg hsize, if_neg hzero]

/-- The reader over the tape of the stream of `d` holds its `k`-th block: the tape holds the
blocks after it, the file mark being consumed with the last block, which also ends the data, and
the position lies within the bytes the block holds. -/
structure ReadAt (d : List UInt8) (inc : Bool) (k : Nat) (r : BlockedReader EmulateTapeReader) : Prop where
  le : k ≤ d.length / payloadSize
  tape : r.reader = ⟨((streamBlocks d inc).drop (k + 1)).flatMap BlockHeader.toBytes,
    decide (k = d.length / payloadSize)⟩
  buffer : r.buffer = blockAt d inc k
  seqNr : r.seqNr = UInt32.ofNat (k + 1)
  foundEndMarker : r.foundEndMarker = decide (k = d.length / payloadSize)
  incomplete : r.incomplete = (decide (k = d.length / payloadSize) && inc)
  gotEod : r.gotEod = decide (k = d.length / payloadSize)
  readError : r.readError = false
  readPos_le : r.readPos ≤ blockLen d k

/-- What the reader has left to read: the bytes of the stream after its position. -/
def ReadsRest (d : List UInt8) (inc : Bool) (r : BlockedReader EmulateTapeReader) (rest : List UInt8) :
    Prop :=
  ∃ k, ReadAt d inc k r ∧ rest = d.drop (k * payloadSize + r.readPos)

variable {r : BlockedReader EmulateTapeReader}

theorem ReadAt.setReadPos (hr : ReadAt d incomplete k r) (pos : Nat) (h : pos ≤ blockLen d k) :
    ReadAt d incomplete k { r with readPos := pos } :=
  ⟨hr.le, hr.tape, hr.buffer, hr.seqNr, hr.foundEndMarker, hr.incomplete, hr.gotEod, hr.readError, h⟩

/-- A block that is not the last holds a full payload, so the next one starts where it ends. -/
theorem mul_add_blockLen_of_lt (hk : k < d.length / payloadSize) :
    k * payloadSize + blockLen d k = (k + 1) * payloadSize := by
  rw [blockLen_of_lt hk, Nat.succ_mul]

variable (d incomplete) in
open EmulateTapeReader in
/-- `open` over the tape of a stream reads its first block. -/
theorem open_streamBlocks :
    ∃ r, BlockedReader.«open» blockRead (new ((streamBlocks d incomplete).flatMap BlockHeader.toBytes)) =
      .ok r ∧ ReadAt d incomplete 0 r ∧ r.readPos = 0 := by
  have h0 : 0 ≤ d.length / payloadSize := Nat.zero_le _
  have hframe := readBlockFrame_at incomplete h0
  rw [List.drop_zero, Nat.zero_add] at hframe
  have hcheck := checkBuffer_blockAt incomplete h0
  rw [show UInt32.ofNat 0 = 0 from rfl] at hcheck
  by_cases hlast : 0 = d.length / payloadSize
  · -- the first block is the last: its file mark is read with it
    have hnil : ((streamBlocks d incomplete).drop 1).flatMap BlockHeader.toBytes = [] := by
      rw [show 1 = d.length / payloadSize + 1 by omega, drop_streamBlocks_last, List.flatMap_nil]
    have hinc := blockAt_flags_incomplete (d := d) incomplete
    rw [← hlast] at hinc
    refine ⟨⟨⟨[], true⟩, blockAt d incomplete 0, 1, true, incomplete, true, false, 0⟩, ?_, ?_, rfl⟩
    · simp only [BlockedReader.«open», new, hframe, hcheck,
        decide_eq_true hlast, ↓reduceIte, hnil, consumeEofMarker_nil, hinc]
    · exact ⟨h0, by rw [hnil, decide_eq_true hlast], rfl, rfl, by rw [decide_eq_true hlast],
        by rw [decide_eq_true hlast, Bool.true_and], by rw [decide_eq_true hlast], rfl, Nat.zero_le _⟩
  · refine ⟨⟨⟨((streamBlocks d incomplete).drop 1).flatMap BlockHeader.toBytes, false⟩,
      blockAt d incomplete 0, 1, false, false, false, false, 0⟩, ?_, ?_, rfl⟩
    · simp only [BlockedReader.«open», new, hframe, hcheck,
        decide_eq_false hlast, Bool.false_eq_true, ↓reduceIte]
    · exact ⟨h0, by rw [decide_eq_false hlast], rfl, rfl, by rw [decide_eq_false hlast],
        by rw [decide_eq_false hlast, Bool.false_and], by rw [decide_eq_false hlast], rfl, Nat.zero_le _⟩

open EmulateTapeReader in
/-- At the end of a block that is not the last, the reader reads the next one. -/
theorem ReadAt.readBlock (hr : ReadAt d incomplete k r) (hk : k < d.length / payloadSize) :
    ∃ r₁, BlockedReader.readBlock blockRead r true = .ok (r₁, blockLen d (k + 1)) ∧
      ReadAt d incomplete (k + 1) r₁ ∧ r₁.readPos = 0 := by
  have hk' : k + 1 ≤ d.length / payloadSize := hk
  have hne : decide (k = d.length / payloadSize) = false := decide_eq_false (Nat.ne_of_lt hk)
  have htape := hr.tape
  rw [hne] at htape
  have hframe := readBlockFrame_at incomplete hk'
  have hcheck := checkBuffer_blockAt incomplete hk'
  rw [← hr.seqNr] at hcheck
  have hseq : r.seqNr + 1 = UInt32.ofNat (k + 1 + 1) := by
    rw [hr.seqNr]
    exact (UInt32.ofNat_add _ 1).symm
  by_cases hlast : k + 1 = d.length / payloadSize
  · -- the next block is the last: its file mark is read with it
    have hnil : ((streamBlocks d incomplete).drop (k + 1 + 1)).flatMap BlockHeader.toBytes = [] := by
      rw [hlast, drop_streamBlocks_last, List.flatMap_nil]
    have hinc := blockAt_flags_incomplete (d := d) incomplete
    rw [← hlast] at hinc
    refine ⟨{ r with
        reader := ⟨[], true⟩
        buffer := blockAt d incomplete (k + 1)
        seqNr := r.seqNr + 1
        foundEndMarker := true
        incomplete := incomplete
        gotEod := true
        readPos := 0 }, ?_, ?_, rfl⟩
    · simp only [BlockedReader.readBlock, htape, hframe, hcheck, decide_eq_true hlast, ↓reduceIte, hnil,
        consumeEofMarker_nil, hinc]
    · exact ⟨hk', by rw [hnil, decide_eq_true hlast], rfl, hseq, by rw [decide_eq_true hlast],
        by rw [decide_eq_true hlast, Bool.true_and], by rw [decide_eq_true hlast], hr.readError,
        Nat.zero_le _⟩
  · refine ⟨{ r with
        reader := ⟨((streamBlocks d incomplete).drop (k + 1 + 1)).flatMap BlockHeader.toBytes, false⟩
        buffer := blockAt d incomplete (k + 1)
        seqNr := r.seqNr + 1
        readPos := 0 }, ?_, ?_, rfl⟩
    · simp only [BlockedReader.readBlock, htape, hframe, hcheck, decide_eq_false hlast,
        Bool.false_eq_true, ↓reduceIte]
    · exact ⟨hk', by rw [decide_eq_false hlast], rfl, hseq,
        by rw [hr.foundEndMarker, hne, decide_eq_false hlast],
        by rw [hr.incomplete, hne, decide_eq_false hlast], by rw [hr.gotEod, hne, decide_eq_false hlast],
        hr.readError, Nat.zero_le _⟩

/-- Bytes are left to read while the position lies within what the block holds. -/
theorem ReadAt.drop_ne_nil (hr : ReadAt d incomplete k r) (hlt : r.readPos < blockLen d k) :
    d.drop (k * payloadSize + r.readPos) ≠ [] := by
  obtain ⟨-, -, hle, -⟩ := blockAt_payload incomplete hr.le
  rw [List.length_drop] at hle
  rw [ne_eq, List.drop_eq_nil_iff]
  omega

/-- One read from any state of the reader: it returns the next bytes of the stream, at most as many
as asked for and at least one while some are left, and the reader is again in such a state; when
nothing is left, the reader is then at the last block. -/
theorem ReadAt.read (hr : ReadAt d incomplete k r) (len : Nat) :
    ∃ r' n k', BlockedReader.read EmulateTapeReader.blockRead r len =
        .ok (r', (d.drop (k * payloadSize + r.readPos)).take n) ∧ n ≤ len ∧
      (0 < len → d.drop (k * payloadSize + r.readPos) ≠ [] → 0 < n) ∧ ReadAt d incomplete k' r' ∧
      d.drop (k' * payloadSize + r'.readPos) = (d.drop (k * payloadSize + r.readPos)).drop n ∧
      (d.drop (k * payloadSize + r.readPos) = [] → k' = d.length / payloadSize) := by
  have hsize : r.buffer.getSize = blockLen d k := by rw [hr.buffer, blockAt_getSize incomplete hr.le]
  by_cases hlt : r.readPos < blockLen d k
  · -- within the block: a copy from its payload
    have hcopy := blockAt_copy incomplete hr.le r.readPos (min len (blockLen d k - r.readPos)) (by omega)
    refine ⟨_, min len (blockLen d k - r.readPos), k, ?_, Nat.min_le_left _ _, fun hlen _ => by omega,
      hr.setReadPos (r.readPos + min len (blockLen d k - r.readPos)) (by omega), ?_,
      fun hnil => absurd hnil (hr.drop_ne_nil hlt)⟩
    · rw [BlockedReader.read_of_lt _ hr.readError (hsize ▸ hlt), hsize, hr.buffer, hcopy]
    · rw [List.drop_drop, Nat.add_assoc]
  have hpos : r.readPos = blockLen d k := Nat.le_antisymm hr.readPos_le (Nat.not_lt.1 hlt)
  by_cases hk : k = d.length / payloadSize
  · -- the end of the last block: nothing more is read
    have heod : r.gotEod = true := by rw [hr.gotEod, decide_eq_true hk]
    refine ⟨r, 0, k, ?_, Nat.zero_le _, fun _ hne => absurd ?_ hne, hr, by rw [List.drop_zero],
      fun _ => hk⟩
    · rw [BlockedReader.read_of_end _ hr.readError heod (by omega), List.take_zero]
    · rw [hpos, hk, blockLen_last, List.drop_eq_nil_iff]
      have := Nat.div_add_mod d.length payloadSize
      rw [Nat.mul_comm] at this
      omega
  -- the end of a block that is not the last: the next block is read
  have hk' : k < d.length / payloadSize := Nat.lt_of_le_of_ne hr.le hk
  have heod : r.gotEod = false := by rw [hr.gotEod, decide_eq_false hk]
  have hnext : k * payloadSize + r.readPos = (k + 1) * payloadSize := by
    rw [hpos, mul_add_blockLen_of_lt hk']
  have hP : 0 < payloadSize := by rw [payloadSize_eq]; decide
  obtain ⟨r₁, hblock, hr₁, hpos₁⟩ := hr.readBlock hk'
  have hread : BlockedReader.read EmulateTapeReader.blockRead r len = _ :=
    BlockedReader.read_of_refill _ hr.readError heod (by omega) hblock
  by_cases h0 : blockLen d (k + 1) = 0
  · -- the next block is the empty last block
    rw [if_pos h0] at hread
    refine ⟨r₁, 0, k + 1, by rw [hread, List.take_zero], Nat.zero_le _, fun _ hne => absurd ?_ hne, hr₁,
      by rw [hpos₁, Nat.add_zero, ← hnext, List.drop_zero], fun _ => eq_of_blockLen_eq_zero hk' h0⟩
    rw [hnext, List.drop_eq_nil_iff]
    simp only [blockLen] at h0
    omega
  · rw [if_neg h0] at hread
    have hk1 : k + 1 ≤ d.length / payloadSize := hk'
    have hcopy := blockAt_copy incomplete hk1 0 (min len (blockLen d (k + 1))) (by omega)
    refine ⟨_, min len (blockLen d (k + 1)), k + 1, ?_, Nat.min_le_left _ _, fun hlen _ => by omega,
      hr₁.setReadPos (r₁.readPos + min len (blockLen d (k + 1))) (by omega), ?_, fun hnil => ?_⟩
    · rw [hread, hr₁.buffer, hpos₁, hcopy, Nat.add_zero ((k + 1) * payloadSize), hnext]
    · rw [hpos₁, hnext, List.drop_drop, Nat.zero_add, Nat.add_comm]
    · rw [hnext, List.drop_eq_nil_iff] at hnil
      -- nothing is left after the block, so it is empty, against h0
      have hempty : blockLen d (k + 1) = 0 := by rw [blockLen, Nat.sub_eq_zero_of_le hnil, Nat.min_zero]
      exact absurd hempty h0

/-- The reader streams the bytes of the stream whatever lengths its reads ask for. -/
theorem streams_read : Streams (BlockedReader.read EmulateTapeReader.blockRead) (ReadsRest d incomplete) := by
  rintro r rest len ⟨k, hr, rfl⟩
  obtain ⟨r', n, k', hread, hn, hpos, hr', hrest, -⟩ := hr.read len
  exact ⟨r', n, hread, hn, hpos, k', hr', hrest.symm⟩

/-- When nothing is left, a read returns nothing, and the reader knows whether the stream is
incomplete. -/
theorem ReadsRest.read_end (h : ReadsRest d incomplete r []) (len : Nat) :
    ∃ r', BlockedReader.read EmulateTapeReader.blockRead r len = .ok (r', []) ∧ ReadsRest d incomplete r' [] ∧
      r'.isIncomplete = .ok incomplete := by
  obtain ⟨k, hr, hnil⟩ := h
  obtain ⟨r', n, k', hread, -, -, hr', hrest, hlast⟩ := hr.read len
  rw [← hnil, List.take_nil] at hread
  refine ⟨r', hread, ⟨k', hr', by rw [hrest, ← hnil, List.drop_nil]⟩, ?_⟩
  have hk' := hlast hnil.symm
  simp [BlockedReader.isIncomplete, hr'.gotEod, hr'.foundEndMarker, hr'.incomplete, hk']

end Stream

/-! ## Round trip -/

theorem length_toBytes_of_mem_streamBlocks {d : List UInt8} {incomplete : Bool} {b : BlockHeader}
    (h : b ∈ streamBlocks d incomplete) : b.toBytes.length = blockSize := by
  rw [streamBlocks_eq_map] at h
  obtain ⟨i, hi, rfl⟩ := List.mem_map.1 h
  exact length_toBytes_blockAt incomplete (Nat.lt_succ_iff.1 (List.mem_range.1 hi))

/-- Writing bytes in any pieces and finishing puts the blocks of their stream on an emulated tape
with room for them. -/
theorem writeAlls_finish_emulate (pieces : List (List UInt8)) (incomplete : Bool) (maxSize : Nat)
    (hcap : pieces.flatten.length / payloadSize + 1 ≤ (EmulateTapeWriter.new maxSize).maxBlocks + 2) :
    ∃ w leom, (BlockedWriter.writeAlls EmulateTapeWriter.blockWrite
        (BlockedWriter.new (EmulateTapeWriter.new maxSize)) pieces >>= fun w =>
          BlockedWriter.finish EmulateTapeWriter.blockWrite w incomplete) = .ok (w, leom) ∧
      w.writer.writer = (streamBlocks pieces.flatten incomplete).flatMap BlockHeader.toBytes := by
  set tw₀ := EmulateTapeWriter.new maxSize
  have hlen : (streamBlocks pieces.flatten incomplete).length = pieces.flatten.length / payloadSize + 1 := by
    rw [streamBlocks_eq_map, List.length_map, List.length_range]
  -- the tape takes all the blocks of the stream
  have htape := EmulateTapeWriter.writeBlocks_eq tw₀
    (fun b hb => length_toBytes_of_mem_streamBlocks hb) (by rw [hlen]; exact Nat.le_trans (Nat.le_of_eq (Nat.zero_add _)) hcap)
  have hold₀ := BlockedWriter.holds_new EmulateTapeWriter.blockWrite tw₀
  have hfull : ∃ r, BlockedWriter.writeBlocks EmulateTapeWriter.blockWrite tw₀ (fullBlocks ([] ++ pieces.flatten)) =
      .ok r := by
    rw [List.nil_append]
    exact BlockedWriter.writeBlocks_ok_of_append _ ⟨_, htape⟩
  obtain ⟨self, hw⟩ := hold₀.writeAlls_ok hfull
  have hold := hold₀.writeAlls hw
  rw [List.nil_append] at hold
  -- the end block goes where the full blocks left the tape
  obtain ⟨w', l₁, l₂, h₁, h₂, -⟩ := (BlockedWriter.writeBlocks_append_eq_ok _).1 htape
  rw [hold.tape] at h₁
  cases h₁
  have hend := (BlockedWriter.writeBlocks_singleton _).1 h₂
  obtain ⟨self', hfin, hwriter⟩ := hold.finish hend rfl
  refine ⟨self', l₂, by rw [hw]; exact hfin, ?_⟩
  rw [hwriter]
  rfl

/-- Any bytes written in any pieces through `BlockedWriter` onto an emulated tape with room for
them, and finished, are the blocks of their stream, numbered from zero; `BlockedReader` opens that
tape and its reads, of any lengths, return exactly the bytes, then nothing, and the incomplete
flag. -/
theorem blocked_stream_round_trip (D : List UInt8) (pieces : List (List UInt8)) (incomplete : Bool)
    (maxSize : Nat) (hsplit : pieces.flatten = D)
    (hcap : D.length / payloadSize + 1 ≤ (EmulateTapeWriter.new maxSize).maxBlocks + 2) :
    ∃ w leom, (BlockedWriter.writeAlls EmulateTapeWriter.blockWrite
        (BlockedWriter.new (EmulateTapeWriter.new maxSize)) pieces >>= fun w =>
          BlockedWriter.finish EmulateTapeWriter.blockWrite w incomplete) = .ok (w, leom) ∧
      w.writer.writer =
        ((List.range (D.length / payloadSize + 1)).map (blockAt D incomplete)).flatMap BlockHeader.toBytes ∧
      (∀ i ≤ D.length / payloadSize, (blockAt D incomplete i).seqNr = UInt32.ofNat i ∧
        (blockAt D incomplete i).toBytes.length = blockSize) ∧
      ∃ r, BlockedReader.«open» EmulateTapeReader.blockRead (EmulateTapeReader.new w.writer.writer) = .ok r ∧
        Streams (BlockedReader.read EmulateTapeReader.blockRead) (ReadsRest D incomplete) ∧
        ReadsRest D incomplete r D ∧
        ∀ r' len, ReadsRest D incomplete r' [] →
          ∃ r'', BlockedReader.read EmulateTapeReader.blockRead r' len = .ok (r'', []) ∧
            ReadsRest D incomplete r'' [] ∧ r''.isIncomplete = .ok incomplete := by
  subst hsplit
  obtain ⟨w, leom, hwrite, htape⟩ := writeAlls_finish_emulate pieces incomplete maxSize hcap
  obtain ⟨r, hopen, hr, hpos⟩ := open_streamBlocks pieces.flatten incomplete
  refine ⟨w, leom, hwrite, by rw [htape, streamBlocks_eq_map], fun i hi =>
    ⟨blockAt_seqNr incomplete hi, length_toBytes_blockAt incomplete hi⟩, r, by rw [htape]; exact hopen,
    streams_read, ⟨0, hr, by rw [hpos, Nat.zero_mul, List.drop_zero]⟩, fun r' len h => h.read_end len⟩

theorem blocked_stream_round_trip_abc :
    [[1], [2, 3]].flatten = ([1, 2, 3] : List UInt8) ∧
      ([1, 2, 3] : List UInt8).length / payloadSize + 1 ≤ (EmulateTapeWriter.new 0).maxBlocks + 2 ∧
      ∃ w leom, (BlockedWriter.writeAlls EmulateTapeWriter.blockWrite
          (BlockedWriter.new (EmulateTapeWriter.new 0)) [[1], [2, 3]] >>= fun w =>
            BlockedWriter.finish EmulateTapeWriter.blockWrite w true) = .ok (w, leom) ∧
        w.writer.writer = ((List.range (([1, 2, 3] : List UInt8).length / payloadSize + 1)).map
          (blockAt [1, 2, 3] true)).flatMap BlockHeader.toBytes ∧
        (∀ i ≤ ([1, 2, 3] : List UInt8).length / payloadSize, (blockAt [1, 2, 3] true i).seqNr = UInt32.ofNat i ∧
          (blockAt [1, 2, 3] true i).toBytes.length = blockSize) ∧
        ∃ r, BlockedReader.«open» EmulateTapeReader.blockRead (EmulateTapeReader.new w.writer.writer) = .ok r ∧
          Streams (BlockedReader.read EmulateTapeReader.blockRead) (ReadsRest [1, 2, 3] true) ∧
          ReadsRest [1, 2, 3] true r [1, 2, 3] ∧
          ∀ r' len, ReadsRest [1, 2, 3] true r' [] →
            ∃ r'', BlockedReader.read EmulateTapeReader.blockRead r' len = .ok (r'', []) ∧
              ReadsRest [1, 2, 3] true r'' [] ∧ r''.isIncomplete = .ok true :=
  ⟨rfl, by decide, blocked_stream_round_trip [1, 2, 3] [[1], [2, 3]] true 0 rfl (by decide)⟩

end ProxmoxBackup.Tape
