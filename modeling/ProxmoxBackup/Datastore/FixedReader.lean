import ProxmoxBackup.Datastore.IndexWriter
import ProxmoxBackup.Datastore.DynamicReader
import ProxmoxBackup.Foundations.Checked
import ProxmoxBackup.Foundations.Runs

/-!
# Fixed index files read back (`pbs-datastore/src/fixed_index.rs`)

A fixed index file is a header of one page, then one 32-byte digest per slot of `chunk_size`
bytes of an image of `size` bytes. `FixedIndexReader::new` reads the header and maps the slots;
`chunk_info` gives a slot's range in the image, and `chunk_from_offset` the slot of an offset
and the offset within it, taking the remainder as `offset & (chunk_size - 1)`.

* `FixedIndexReader.chunkFromOffset_spec`: for a reader `new` returns whose chunk size is a
  power of two, `chunk_from_offset` and `chunk_info` agree on every offset of the image.
* `fixed_index_header_faults`: `new` trusts the header. A chunk size of 0 makes it divide by
  zero; a chunk size that is not a power of two gives a reader whose `chunk_from_offset` does not
  agree with `chunk_info`.
* `checkChunkAlignment_iff_chunkInfo`: on the writer's side, with a power-of-two chunk size,
  `check_chunk_alignment` accepts exactly the ranges of the slots `chunk_info` gives, and returns
  the slot; so a run of `add_chunk` calls, in any order, puts in each slot only the digest of a
  chunk that covers that slot's range (`addChunks_slots`).

The header's integers are little-endian `u64` read as `Nat`; the arithmetic of `new` is that of
a build with overflow checks (`Checked`), where a panic is `none`.
-/

namespace ProxmoxBackup

/-- `FIXED_SIZED_CHUNK_INDEX_1_0`. -/
def fixedSizedChunkIndex10 : List UInt8 := [47, 127, 65, 237, 145, 253, 15, 205]

/-- `size_of::<FixedIndexHeader>()`: the header is one page. -/
def fixedIndexHeaderSize : Nat := 4096

/-- `FixedIndexReader`: the chunk size and image size of the header, the number of slots, and
the mapped bytes of the slots' digests. -/
structure FixedIndexReader where
  chunkSize : Nat
  size : Nat
  indexLength : Nat
  index : List UInt8
  deriving DecidableEq

namespace FixedIndexReader

/-- `FixedIndexReader::new` on the bytes of the file. `size` and `chunk_size` are read at their
offsets in `FixedIndexHeader` (64 and 72). `none` is a panic: an overflow in
`(size + chunk_size - 1) / chunk_size` or `index_length * 32`, or a zero `chunk_size`. -/
def new (file : List UInt8) : Option (Except String FixedIndexReader) :=
  let stSize := file.length
  if stSize < fixedIndexHeaderSize then some (.error s!"index too small ({stSize})")
  else if file.take 8 ≠ fixedSizedChunkIndex10 then some (.error "got unknown magic number")
  else do
    let size := LittleEndian.ofBytes ((file.drop 64).take 8)
    let chunkSize := LittleEndian.ofBytes ((file.drop 72).take 8)
    let sum ← Checked.add 64 size chunkSize
    let sumPred ← Checked.sub sum 1
    let indexLength ← Checked.div sumPred chunkSize
    let indexSize ← Checked.mul 64 indexLength 32
    let expectedIndexSize := stSize - fixedIndexHeaderSize
    if indexSize ≠ expectedIndexSize then
      some (.error s!"got unexpected file size ({indexSize} != {expectedIndexSize})")
    else if indexSize = 0 then some (.error "invalid index size")
    else some (.ok ⟨chunkSize, size, indexLength, file.drop fixedIndexHeaderSize⟩)

/-- `FixedIndexReader::index_digest`. -/
def indexDigest (r : FixedIndexReader) (pos : Nat) : Option (List UInt8) :=
  if pos ≥ r.indexLength then none else some ((r.index.drop (pos * 32)).take 32)

/-- `FixedIndexReader::chunk_info`: slot `pos` starts at `pos * chunk_size` and is `chunk_size`
long, cut at the end of the image. The sums stay below `size + chunk_size`, which `new` checked
fits a `u64`. -/
def chunkInfo (r : FixedIndexReader) (pos : Nat) : Option (ChunkReadInfo (List UInt8)) :=
  if pos ≥ r.indexLength then none
  else
    let start := pos * r.chunkSize
    let «end» := if start + r.chunkSize > r.size then r.size else start + r.chunkSize
    (r.indexDigest pos).map fun digest => ⟨(start, «end»), digest⟩

/-- `FixedIndexReader::chunk_from_offset`: the slot, and the offset within it by the mask
`chunk_size - 1`. -/
def chunkFromOffset (r : FixedIndexReader) (offset : Nat) : Option (Nat × Nat) :=
  if offset ≥ r.size then none
  else some (offset / r.chunkSize, offset &&& (r.chunkSize - 1))

/-! ## What `new` checks, and the lookups -/

variable {r : FixedIndexReader}

/-- A reader `new` returns has a chunk size other than zero, `size + chunk_size` fitting a
`u64`, and `⌈size / chunk_size⌉` slots, at least one. -/
theorem new_eq_ok {file : List UInt8} (h : new file = some (.ok r)) :
    r.chunkSize ≠ 0 ∧ r.size + r.chunkSize < 2 ^ 64 ∧
      r.indexLength = (r.size + r.chunkSize - 1) / r.chunkSize ∧ 0 < r.indexLength := by
  unfold new at h
  dsimp only at h
  split at h
  · cases h
  split at h
  · cases h
  simp only [Option.bind_eq_bind] at h
  obtain ⟨sum, hsum, h⟩ := Option.bind_eq_some_iff.mp h
  obtain ⟨sumPred, hpred, h⟩ := Option.bind_eq_some_iff.mp h
  obtain ⟨indexLength, hdiv, h⟩ := Option.bind_eq_some_iff.mp h
  obtain ⟨indexSize, hmul, h⟩ := Option.bind_eq_some_iff.mp h
  obtain ⟨hfits, rfl⟩ := Checked.add_eq_some.mp hsum
  obtain ⟨-, rfl⟩ := Checked.sub_eq_some.mp hpred
  obtain ⟨hcs, rfl⟩ := Checked.div_eq_some.mp hdiv
  obtain ⟨-, rfl⟩ := Checked.mul_eq_some.mp hmul
  split at h
  · cases h
  · split at h
    · cases h
    · next hzero =>
      cases h
      exact ⟨hcs, hfits, rfl, by dsimp only; omega⟩

theorem indexDigest_of_lt {pos : Nat} (h : pos < r.indexLength) :
    r.indexDigest pos = some ((r.index.drop (pos * 32)).take 32) := by
  simp [indexDigest, Nat.not_le.mpr h]

/-- Slot `pos` covers `[pos * chunk_size, min ((pos + 1) * chunk_size) size)`. -/
theorem chunkInfo_range {pos : Nat} (h : pos < r.indexLength) :
    ∃ info, r.chunkInfo pos = some info ∧
      info.range = (pos * r.chunkSize, min (pos * r.chunkSize + r.chunkSize) r.size) := by
  refine ⟨_, by simp [chunkInfo, Nat.not_le.mpr h, indexDigest_of_lt h]; rfl, ?_⟩
  simp only
  congr 1
  split <;> omega

theorem lt_of_chunkInfo {pos : Nat} {info : ChunkReadInfo (List UInt8)}
    (h : r.chunkInfo pos = some info) : pos < r.indexLength := by
  unfold chunkInfo at h
  split at h
  · cases h
  · omega

/-- A slot below `⌈size / chunk_size⌉` starts inside the image. -/
theorem mul_lt_size_of_lt_ceil {pos size chunkSize : Nat} (hcs : 0 < chunkSize)
    (h : pos < (size + chunkSize - 1) / chunkSize) : pos * chunkSize < size := by
  rw [Nat.lt_iff_add_one_le, Nat.le_div_iff_mul_le hcs, Nat.add_mul, Nat.one_mul] at h
  omega

/-- With a power-of-two chunk size, `chunk_from_offset` and `chunk_info` agree on every offset
of the image: the slot exists, and holds the offset at the remainder returned. -/
theorem chunkFromOffset_spec {file : List UInt8} (hr : new file = some (.ok r))
    (hpow : ∃ k, r.chunkSize = 2 ^ k) {offset : Nat} (ho : offset < r.size) :
    ∃ idx rem info, r.chunkFromOffset offset = some (idx, rem) ∧ idx < r.indexLength ∧
      r.chunkInfo idx = some info ∧ info.range.1 + rem = offset ∧ offset < info.range.2 := by
  obtain ⟨hcs, -, hlen, -⟩ := new_eq_ok hr
  obtain ⟨k, hk⟩ := hpow
  have hpos : 0 < r.chunkSize := Nat.pos_of_ne_zero hcs
  -- the mask is the remainder, and the quotient is below `⌈size / chunk_size⌉`
  have hmask : offset &&& (r.chunkSize - 1) = offset % r.chunkSize := by
    rw [hk, Nat.and_two_pow_sub_one_eq_mod]
  have hidx : offset / r.chunkSize < r.indexLength := by
    have hle : offset / r.chunkSize ≤ (r.size - 1) / r.chunkSize := Nat.div_le_div_right (by omega)
    have hceil : (r.size + r.chunkSize - 1) / r.chunkSize = (r.size - 1) / r.chunkSize + 1 := by
      rw [show r.size + r.chunkSize - 1 = r.size - 1 + r.chunkSize by omega,
        Nat.add_div_right _ hpos]
    omega
  obtain ⟨info, hinfo, hrange⟩ := chunkInfo_range hidx
  have hsplit := Nat.div_add_mod offset r.chunkSize
  have hrem := Nat.mod_lt offset hpos
  refine ⟨offset / r.chunkSize, offset % r.chunkSize, info,
    by simp [chunkFromOffset, Nat.not_le.mpr ho, hmask], hidx, hinfo, ?_, ?_⟩
  · rw [hrange]
    dsimp only
    rw [Nat.mul_comm]
    omega
  · rw [hrange]
    dsimp only
    rw [Nat.mul_comm] at hsplit
    omega

end FixedIndexReader

/-! ## The writer's slots -/

namespace FixedIndexWriter

/-- With a power-of-two chunk size, `check_chunk_alignment` accepts a chunk exactly when it
covers the range `chunk_info` gives a slot, and returns that slot. -/
theorem checkChunkAlignment_iff_chunkInfo {w : FixedIndexWriter}
    (hpow : ∃ k, w.chunkSize = 2 ^ k)
    (hlen : w.indexLength = (w.size + w.chunkSize - 1) / w.chunkSize) (index : List UInt8)
    {offset chunkLen idx : Nat} :
    w.checkChunkAlignment offset chunkLen = .ok idx ↔
      chunkLen ≤ offset ∧ ∃ info,
        (FixedIndexReader.mk w.chunkSize w.size w.indexLength index).chunkInfo idx = some info ∧
          info.range = (offset - chunkLen, offset) := by
  obtain ⟨k, hk⟩ := hpow
  have hpos : 0 < w.chunkSize := by
    rw [hk]
    exact Nat.two_pow_pos k
  have hmask (n : Nat) : n &&& (w.chunkSize - 1) = n % w.chunkSize := by
    rw [hk, Nat.and_two_pow_sub_one_eq_mod]
  constructor
  · intro h
    have hidx := checkChunkAlignment_lt hpos hlen h
    obtain ⟨hle, hsize, hlen0, hcs, hlast, halign, rfl⟩ := checkChunkAlignment_eq_ok.mp h
    obtain ⟨info, hinfo, hrange⟩ := FixedIndexReader.chunkInfo_range (r := ⟨_, _, _, index⟩) hidx
    -- an aligned start is the slot's start
    have hstart : (offset - chunkLen) / w.chunkSize * w.chunkSize = offset - chunkLen :=
      Nat.div_mul_cancel (Nat.dvd_of_mod_eq_zero (by rw [← hmask]; exact halign))
    refine ⟨hle, info, hinfo, ?_⟩
    rw [hrange]
    dsimp only
    rw [hstart]
    congr 1
    omega
  · rintro ⟨hle, info, hinfo, hrange⟩
    have hidx := FixedIndexReader.lt_of_chunkInfo hinfo
    obtain ⟨info', hinfo', hrange'⟩ := FixedIndexReader.chunkInfo_range hidx
    rw [hinfo] at hinfo'
    cases hinfo'
    rw [hrange] at hrange'
    simp only [Prod.mk.injEq] at hrange'
    obtain ⟨hstart, hend⟩ := hrange'
    -- the slot starts inside the image, so the chunk is not empty
    have hinside := FixedIndexReader.mul_lt_size_of_lt_ceil hpos (hlen ▸ hidx)
    apply checkChunkAlignment_eq_ok.mpr
    refine ⟨hle, by omega, by omega, by omega, by omega, ?_, ?_⟩
    · rw [hstart, hmask, Nat.mul_mod_left]
    · rw [hstart, Nat.mul_div_cancel _ hpos]

/-- One `add_chunk` call of a run, `(offset, chunk_len, digest)`: a call that fails leaves the
writer as it was. -/
def addChunkStep (w : FixedIndexWriter) (call : Nat × Nat × Vector UInt8 32) :
    FixedIndexWriter × Except String Unit :=
  match w.addChunk call.1 call.2.1 call.2.2 with
  | .ok w' => (w', .ok ())
  | .error e => (w, .error e)

/-- The slots after the calls `hist` on a writer whose slots were `ds₀`: each still holds its
digest of `ds₀` or a digest of a call whose chunk `w₀` places in it. -/
def SlotsFrom (w₀ : FixedIndexWriter) (ds₀ : List (Vector UInt8 32))
    (hist : List (Nat × Nat × Vector UInt8 32)) (w : FixedIndexWriter) : Prop :=
  w.chunkSize = w₀.chunkSize ∧ w.size = w₀.size ∧ ∃ ds, w.index = some ds ∧
    ∀ i d, ds[i]? = some d → ds₀[i]? = some d ∨
      ∃ call ∈ hist, call.2.2 = d ∧ w₀.checkChunkAlignment call.1 call.2.1 = .ok i

theorem SlotsFrom.step {w₀ w : FixedIndexWriter} {ds₀ : List (Vector UInt8 32)}
    {hist : List (Nat × Nat × Vector UInt8 32)} (h : SlotsFrom w₀ ds₀ hist w)
    (call : Nat × Nat × Vector UInt8 32) : SlotsFrom w₀ ds₀ (hist ++ [call]) (addChunkStep w call).1 := by
  obtain ⟨hcs, hsize, ds, hds, hslots⟩ := h
  unfold addChunkStep
  split
  · next w' hadd =>
    obtain ⟨idx, halign, hdigest⟩ := Except.bind_eq_ok.mp hadd
    obtain ⟨ds', hds', hset, hcs', hsize'⟩ := addDigest_eq_ok hdigest
    rw [hds] at hds'
    cases hds'
    rw [checkChunkAlignment_congr hcs hsize] at halign
    refine ⟨hcs'.trans hcs, hsize'.trans hsize, _, hset, fun i d hd => ?_⟩
    -- the slot the call wrote holds its digest; every other slot is as before
    by_cases hi : idx = i
    · subst hi
      rw [List.getElem?_set_self (by simpa using (List.getElem?_eq_some_iff.mp hd).1)] at hd
      cases hd
      exact .inr ⟨call, by simp, rfl, halign⟩
    · rw [List.getElem?_set_ne hi] at hd
      rcases hslots i d hd with hinit | ⟨c, hc, hcd, hcalign⟩
      · exact .inl hinit
      · exact .inr ⟨c, by simp [hc], hcd, hcalign⟩
  · refine ⟨hcs, hsize, ds, hds, fun i d hd => ?_⟩
    rcases hslots i d hd with hinit | ⟨c, hc, hcd, hcalign⟩
    · exact .inl hinit
    · exact .inr ⟨c, by simp [hc], hcd, hcalign⟩

/-- A run of `add_chunk` calls, in any order and with any failing: every slot holds its initial
digest or the digest of a call whose chunk the writer places in it. -/
theorem addChunks_slots {w : FixedIndexWriter} {ds₀ : List (Vector UInt8 32)}
    (hds₀ : w.index = some ds₀) (calls : List (Nat × Nat × Vector UInt8 32)) :
    SlotsFrom w ds₀ calls (Runs.run addChunkStep w calls) := by
  apply Runs.run_history_induction addChunkStep (SlotsFrom w ds₀)
  · exact ⟨rfl, rfl, ds₀, hds₀, fun i d hd => .inl hd⟩
  · intro hist call h
    exact h.step call

/-- With a power-of-two chunk size, `check_chunk_alignment` accepts exactly the chunks covering
the range of a slot of the index, and returns that slot; so after any run of `add_chunk` calls
every slot holds its initial digest or the digest of a chunk that covers exactly the slot. -/
theorem fixed_chunk_alignment_matches_slots {w : FixedIndexWriter}
    (hpow : ∃ k, w.chunkSize = 2 ^ k)
    (hlen : w.indexLength = (w.size + w.chunkSize - 1) / w.chunkSize) :
    (∀ (index : List UInt8) (offset chunkLen idx : Nat),
      w.checkChunkAlignment offset chunkLen = .ok idx ↔
        chunkLen ≤ offset ∧ ∃ info,
          (FixedIndexReader.mk w.chunkSize w.size w.indexLength index).chunkInfo idx = some info ∧
            info.range = (offset - chunkLen, offset)) ∧
    (∀ (ds₀ : List (Vector UInt8 32)), w.index = some ds₀ →
      ∀ (calls : List (Nat × Nat × Vector UInt8 32)), ∃ ds,
        (Runs.run addChunkStep w calls).index = some ds ∧
        ∀ i d, ds[i]? = some d → ds₀[i]? = some d ∨
          ∃ call ∈ calls, call.2.2 = d ∧ call.2.1 ≤ call.1 ∧ ∃ info,
            (FixedIndexReader.mk w.chunkSize w.size w.indexLength
              (ds.flatMap Vector.toList)).chunkInfo i = some info ∧
            info.range = (call.1 - call.2.1, call.1)) := by
  refine ⟨fun index offset chunkLen idx => checkChunkAlignment_iff_chunkInfo hpow hlen index,
    fun ds₀ hds₀ calls => ?_⟩
  obtain ⟨-, -, ds, hds, hslots⟩ := addChunks_slots hds₀ calls
  refine ⟨ds, hds, fun i d hd => ?_⟩
  rcases hslots i d hd with hinit | ⟨call, hcall, hd', halign⟩
  · exact .inl hinit
  · obtain ⟨hle, hrange⟩ :=
      (checkChunkAlignment_iff_chunkInfo hpow hlen (ds.flatMap Vector.toList)).mp halign
    exact .inr ⟨call, hcall, hd', hle, hrange⟩

/-- A writer of two slots of 4 bytes for an image of 8 bytes, as `create` makes it. -/
def twoSlotWriter : FixedIndexWriter :=
  ⟨"image.fidx", 4, 8, 2, some (List.replicate 2 zeroDigest), by simp⟩

theorem fixed_chunk_alignment_matches_slots_two_slots :
    (∃ k, twoSlotWriter.chunkSize = 2 ^ k) ∧
      twoSlotWriter.indexLength =
        (twoSlotWriter.size + twoSlotWriter.chunkSize - 1) / twoSlotWriter.chunkSize ∧
    (∀ (index : List UInt8) (offset chunkLen idx : Nat),
      twoSlotWriter.checkChunkAlignment offset chunkLen = .ok idx ↔
        chunkLen ≤ offset ∧ ∃ info,
          (FixedIndexReader.mk twoSlotWriter.chunkSize twoSlotWriter.size twoSlotWriter.indexLength
            index).chunkInfo idx = some info ∧ info.range = (offset - chunkLen, offset)) ∧
    (∀ (ds₀ : List (Vector UInt8 32)), twoSlotWriter.index = some ds₀ →
      ∀ (calls : List (Nat × Nat × Vector UInt8 32)), ∃ ds,
        (Runs.run addChunkStep twoSlotWriter calls).index = some ds ∧
        ∀ i d, ds[i]? = some d → ds₀[i]? = some d ∨
          ∃ call ∈ calls, call.2.2 = d ∧ call.2.1 ≤ call.1 ∧ ∃ info,
            (FixedIndexReader.mk twoSlotWriter.chunkSize twoSlotWriter.size
              twoSlotWriter.indexLength (ds.flatMap Vector.toList)).chunkInfo i = some info ∧
            info.range = (call.1 - call.2.1, call.1)) :=
  ⟨⟨2, rfl⟩, rfl, fixed_chunk_alignment_matches_slots ⟨2, rfl⟩ rfl⟩

end FixedIndexWriter

/-! ## A header the reader trusts -/

/-- A header of `size` and `chunk_size`, as `FixedIndexWriter::create` lays it out, with zero
uuid, ctime and checksum. -/
def headerBytes (size chunkSize : Nat) : List UInt8 :=
  fixedSizedChunkIndex10 ++ List.replicate 56 0 ++ LittleEndian.toBytes 8 size ++
    LittleEndian.toBytes 8 chunkSize ++ List.replicate 4016 0

/-- `new` on a header with chunk size 0 divides by zero; on a header with chunk size 3, an image
of 6 bytes and its two slots it returns a reader whose `chunk_from_offset` puts offset 4 at the
start of slot 1, which `chunk_info` has begin at offset 3. -/
theorem fixed_index_header_faults :
    FixedIndexReader.new (headerBytes 1 0) = none ∧
      ∃ r, FixedIndexReader.new (headerBytes 6 3 ++ List.replicate 64 0) = some (.ok r) ∧
        r.chunkFromOffset 4 = some (1, 0) ∧ (r.chunkInfo 1).map (·.range) = some (3, 6) := by
  refine ⟨by decide +kernel, ⟨3, 6, 2, List.replicate 64 0⟩, by decide +kernel, by decide +kernel,
    by decide +kernel⟩

end ProxmoxBackup
