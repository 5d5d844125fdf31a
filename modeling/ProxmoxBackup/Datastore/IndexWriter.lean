import ProxmoxBackup.Foundations.LittleEndian
import Mathlib.Data.List.Basic

/-!
# Writing index files (`pbs-datastore/src/dynamic_index.rs`, `fixed_index.rs`)

A backup stores each archive as an index: the digests of its chunks, in a file of the datastore.
`DynamicIndexWriter` appends one entry per chunk, the chunk's end offset in the archive and its
digest; `FixedIndexWriter` holds one digest per slot of `chunk_size` bytes of an image of known
size, in a file mapped to memory and written in any order. Closing either writes the SHA-256
checksum of the index and moves the file into place.

The files are their contents here: the list of entries, and the list of slot digests (`none`
once unmapped). The checksum is a parameter `sha256` over the bytes the source feeds it; the
source's I/O (writes, `ftruncate`, `rename`) is taken to succeed.
-/

namespace ProxmoxBackup

/-- A dynamic index file under construction: the entries written so far, each the end offset of
a chunk in the archive and its digest, and whether it was closed. -/
structure DynamicIndexWriter where
  filename : String
  entries : List (Nat × Vector UInt8 32)
  closed : Bool

/-- The digest a fixed index slot holds before a chunk is written to it (`ftruncate` fills the
file with zeros). -/
def zeroDigest : Vector UInt8 32 := Vector.replicate 32 0

/-- A fixed index file under construction: `index_length` slots of `chunk_size` bytes of an image
of `size` bytes, and the slots' digests while the file is mapped. -/
structure FixedIndexWriter where
  filename : String
  chunkSize : Nat
  size : Nat
  indexLength : Nat
  index : Option (List (Vector UInt8 32))
  length_index : ∀ digests ∈ index, digests.length = indexLength

namespace DynamicIndexWriter

def create (filename : String) : DynamicIndexWriter :=
  ⟨filename, [], false⟩

/-- What `add_chunk` feeds to the checksum for an entry: the offset as a little-endian `u64`,
then the digest. -/
def entryBytes (entry : Nat × Vector UInt8 32) : List UInt8 :=
  LittleEndian.toBytes 8 entry.1 ++ entry.2.toList

def addChunk (self : DynamicIndexWriter) (offset : Nat) (digest : Vector UInt8 32) :
    Except String DynamicIndexWriter :=
  if self.closed then .error s!"cannot write to closed dynamic index file \"{self.filename}\""
  else .ok { self with entries := self.entries ++ [(offset, digest)] }

def close (sha256 : List UInt8 → Vector UInt8 32) (self : DynamicIndexWriter) :
    Except String (DynamicIndexWriter × Vector UInt8 32) :=
  if self.closed then
    .error s!"cannot close already closed archive index file \"{self.filename}\""
  else .ok ({ self with closed := true }, sha256 (self.entries.flatMap entryBytes))

theorem addChunk_of_open {self : DynamicIndexWriter} (h : self.closed = false) (offset : Nat)
    (digest : Vector UInt8 32) :
    self.addChunk offset digest = .ok { self with entries := self.entries ++ [(offset, digest)] } := by
  simp [addChunk, h]

end DynamicIndexWriter

namespace FixedIndexWriter

/-- Create the file of `(size + chunk_size - 1) / chunk_size` zero slots; a file of no slots
cannot be mapped. -/
def create (filename : String) (size chunkSize : Nat) : Except String FixedIndexWriter :=
  let indexLength := (size + chunkSize - 1) / chunkSize
  let indexSize := indexLength * 32
  if indexSize = 0 then .error "invalid index size"
  else .ok ⟨filename, chunkSize, size, indexLength, some (List.replicate indexLength zeroDigest),
    by simp⟩

/-- The slot of a chunk that ends at `offset` and is `chunk_len` long: every chunk but the one
ending the image is `chunk_size` long, and it starts at a multiple of `chunk_size`. -/
def checkChunkAlignment (self : FixedIndexWriter) (offset chunkLen : Nat) : Except String Nat :=
  if offset < chunkLen then .error s!"got chunk with small offset ({offset} < {chunkLen}"
  else
    let pos := offset - chunkLen
    if offset > self.size then .error s!"chunk data exceeds size ({offset} >= {self.size})"
    else if (offset ≠ self.size ∧ chunkLen ≠ self.chunkSize) ∨ chunkLen > self.chunkSize ∨
        chunkLen = 0 then
      .error s!"chunk with unexpected length ({chunkLen} != {self.chunkSize}"
    else if pos &&& (self.chunkSize - 1) ≠ 0 then .error s!"got unaligned chunk (pos = {pos})"
    else .ok (pos / self.chunkSize)

def addDigest (self : FixedIndexWriter) (index : Nat) (digest : Vector UInt8 32) :
    Except String FixedIndexWriter :=
  if index ≥ self.indexLength then
    .error s!"add digest failed - index out of range ({index} >= {self.indexLength})"
  else
    match h : self.index with
    | none => .error "cannot write to closed index file."
    | some digests => .ok { self with
        index := some (digests.set index digest)
        length_index := fun d hd => by
          rw [Option.mem_some_iff] at hd
          rw [← hd, List.length_set]
          exact self.length_index digests (by rw [h]; rfl) }

/-- `FixedIndexWriter::add_chunk`: the chunk's slot, then its digest written there. The chunk
store's insert and the statistics are not modelled. -/
def addChunk (self : FixedIndexWriter) (offset chunkLen : Nat) (digest : Vector UInt8 32) :
    Except String FixedIndexWriter := do
  let idx ← self.checkChunkAlignment offset chunkLen
  self.addDigest idx digest

def close (sha256 : List UInt8 → Vector UInt8 32) (self : FixedIndexWriter) :
    Except String (FixedIndexWriter × Vector UInt8 32) :=
  match self.index with
  | none => .error "cannot close already closed index file."
  | some digests =>
    .ok ({ self with index := none, length_index := by simp },
      sha256 (digests.flatMap Vector.toList))

/-- Copy the slots of the previous backup's index of the same image. -/
def cloneDataFrom (self : FixedIndexWriter) (reader : List (Vector UInt8 32)) :
    Except String FixedIndexWriter :=
  if self.indexLength ≠ reader.length then .error "clone_data_from failed - index sizes not equal"
  else reader.zipIdx.foldlM (fun w entry => w.addDigest entry.2 entry.1) self

/-- What `check_chunk_alignment` accepts: a chunk within the image, not empty, of the chunk size
unless it ends the image, starting where the mask `chunk_size - 1` has no bit set; and the slot
it returns. -/
theorem checkChunkAlignment_eq_ok {self : FixedIndexWriter} {offset chunkLen idx : Nat} :
    self.checkChunkAlignment offset chunkLen = .ok idx ↔
      chunkLen ≤ offset ∧ offset ≤ self.size ∧ 0 < chunkLen ∧ chunkLen ≤ self.chunkSize ∧
        (offset = self.size ∨ chunkLen = self.chunkSize) ∧
        (offset - chunkLen) &&& (self.chunkSize - 1) = 0 ∧
        (offset - chunkLen) / self.chunkSize = idx := by
  unfold checkChunkAlignment
  dsimp only
  split_ifs <;> simp only [false_iff, Except.ok.injEq] <;> omega

theorem checkChunkAlignment_lt {self : FixedIndexWriter} (hcs : 0 < self.chunkSize)
    (hlen : self.indexLength = (self.size + self.chunkSize - 1) / self.chunkSize)
    {offset chunkLen idx : Nat} (h : self.checkChunkAlignment offset chunkLen = .ok idx) :
    idx < self.indexLength := by
  obtain ⟨hle, hsize, hpos, -, -, -, rfl⟩ := checkChunkAlignment_eq_ok.mp h
  -- the chunk starts before the end of the image, so in one of its `⌈size / chunk_size⌉` slots
  rw [hlen, Nat.lt_iff_add_one_le, Nat.le_div_iff_mul_le hcs, Nat.add_mul, Nat.one_mul]
  have := Nat.div_mul_le_self (offset - chunkLen) self.chunkSize
  omega

/-- A chunk that starts at offset zero goes to the first slot. -/
theorem checkChunkAlignment_self {self : FixedIndexWriter} {size idx : Nat}
    (h : self.checkChunkAlignment size size = .ok idx) : idx = 0 := by
  obtain ⟨-, -, -, -, -, -, rfl⟩ := checkChunkAlignment_eq_ok.mp h
  simp

theorem addDigest_of_lt {self : FixedIndexWriter} {digests : List (Vector UInt8 32)}
    (h : self.index = some digests) {index : Nat} (hlt : index < self.indexLength)
    (digest : Vector UInt8 32) :
    ∃ w, self.addDigest index digest = .ok w ∧ w.index = some (digests.set index digest) ∧
      w.filename = self.filename ∧ w.chunkSize = self.chunkSize ∧ w.size = self.size ∧
      w.indexLength = self.indexLength := by
  unfold addDigest
  rw [if_neg (by omega)]
  split
  · simp_all
  · rename_i digests' h'
    rw [h] at h'
    cases h'
    exact ⟨_, rfl, rfl, rfl, rfl, rfl, rfl⟩

theorem addDigest_eq_ok {self w : FixedIndexWriter} {index : Nat} {digest : Vector UInt8 32}
    (h : self.addDigest index digest = .ok w) :
    ∃ digests, self.index = some digests ∧ w.index = some (digests.set index digest) ∧
      w.chunkSize = self.chunkSize ∧ w.size = self.size := by
  unfold addDigest at h
  split_ifs at h
  split at h
  · cases h
  · rename_i digests hdigests
    cases h
    exact ⟨digests, hdigests, rfl, rfl, rfl⟩

/-- The slot of a chunk depends only on the chunk size and the size of the image. -/
theorem checkChunkAlignment_congr {self w : FixedIndexWriter} (hcs : w.chunkSize = self.chunkSize)
    (hsize : w.size = self.size) : w.checkChunkAlignment = self.checkChunkAlignment := by
  unfold checkChunkAlignment
  rw [hcs, hsize]

end FixedIndexWriter

end ProxmoxBackup
