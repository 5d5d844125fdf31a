import Mathlib.Data.Nat.Bits
import ProxmoxBackup.Foundations.RollingHash

/-!
# The content-defined chunker (`pbs-datastore/src/chunker.rs`)

`Chunker::scan` cuts a byte stream into chunks with a Buzhash rolling hash over a window of 64
bytes. It is called with the input as it arrives: it returns the position just after a chunk
boundary in the data given, or `0` when the data ends without one, and keeps between calls the
fill level of the window, the window itself, the hash and the size of the current chunk.

The proofs go through a byte-by-byte reading of `scan`: `Chunker.push` feeds one byte, and
`scan_eq_scanBytes` shows that `scan`, with its separate phase filling the window, is
`scanBytes`, the pushes of the bytes up to the first boundary. A stream read byte by byte
(`pushAll`) splits over an append (`pushAll_append`), and one `scan` call reads its bytes up to
its boundary (`pushAll_eq_scan`), so where a stream is cut into calls does not matter:

* `feedPieces_eq_chunkLengths`, `chunkWhole_eq_chunkLengths`: feeding the stream in any pieces,
  and feeding the whole remaining stream after each boundary, both find the chunk lengths
  `chunkLengths` of the stream read byte by byte;
* `feedPieces_eq_chunkWhole`: hence they find the same chunks, from any state of the chunker.

The limits of `new` hold whatever the data (`scan_chunk_sizes_within_limits`): for a
power-of-two average `avg` up to 4 MiB, a chunk ends only between `avg / 4` and `4 * avg` bytes,
by the invariant `Within` that every pushed byte keeps.
-/

namespace ProxmoxBackup

/-- `Chunker`, without the fields `_chunk_size_avg` and `_discriminator` that nothing reads. -/
structure Chunker where
  h : UInt32
  windowSize : Nat
  chunkSize : Nat
  chunkSizeMin : Nat
  chunkSizeMax : Nat
  breakTestMask : UInt32
  breakTestMinimum : UInt32
  window : Vector UInt8 64

namespace Chunker

/-- `BUZHASH_TABLE`. -/
def buzhashTable : List UInt32 := [
  0x458be752, 0xc10748cc, 0xfbbcdbb8, 0x6ded5b68, 0xb10a82b5, 0x20d75648, 0xdfc5665f, 0xa8428801,
  0x7ebf5191, 0x841135c7, 0x65cc53b3, 0x280a597c, 0x16f60255, 0xc78cbc3e, 0x294415f5, 0xb938d494,
  0xec85c4e6, 0xb7d33edc, 0xe549b544, 0xfdeda5aa, 0x882bf287, 0x3116737c, 0x05569956, 0xe8cc1f68,
  0x0806ac5e, 0x22a14443, 0x15297e10, 0x50d090e7, 0x4ba60f6f, 0xefd9f1a7, 0x5c5c885c, 0x82482f93,
  0x9bfd7c64, 0x0b3e7276, 0xf2688e77, 0x8fad8abc, 0xb0509568, 0xf1ada29f, 0xa53efdfe, 0xcb2b1d00,
  0xf2a9e986, 0x6463432b, 0x95094051, 0x5a223ad2, 0x9be8401b, 0x61e579cb, 0x1a556a14, 0x5840fdc2,
  0x9261ddf6, 0xcde002bb, 0x52432bb0, 0xbf17373e, 0x7b7c222f, 0x2955ed16, 0x9f10ca59, 0xe840c4c9,
  0xccabd806, 0x14543f34, 0x1462417a, 0x0d4a1f9c, 0x087ed925, 0xd7f8f24c, 0x7338c425, 0xcf86c8f5,
  0xb19165cd, 0x9891c393, 0x325384ac, 0x0308459d, 0x86141d7e, 0xc922116a, 0xe2ffa6b6, 0x53f52aed,
  0x2cd86197, 0xf5b9f498, 0xbf319c8f, 0xe0411fae, 0x977eb18c, 0xd8770976, 0x9833466a, 0xc674df7f,
  0x8c297d45, 0x8ca48d26, 0xc49ed8e2, 0x7344f874, 0x556f79c7, 0x6b25eaed, 0xa03e2b42, 0xf68f66a4,
  0x8e8b09a2, 0xf2e0e62a, 0x0d3a9806, 0x9729e493, 0x8c72b0fc, 0x160b94f6, 0x450e4d3d, 0x7a320e85,
  0xbef8f0e1, 0x21d73653, 0x4e3d977a, 0x1e7b3929, 0x1cc6c719, 0xbe478d53, 0x8d752809, 0xe6d8c2c6,
  0x275f0892, 0xc8acc273, 0x4cc21580, 0xecc4a617, 0xf5f7be70, 0xe795248a, 0x375a2fe9, 0x425570b6,
  0x8898dcf8, 0xdc2d97c4, 0x0106114b, 0x364dc22f, 0x1e0cad1f, 0xbe63803c, 0x5f69fac2, 0x4d5afa6f,
  0x1bc0dfb5, 0xfb273589, 0x0ea47f7b, 0x3c1c2b50, 0x21b2a932, 0x6b1223fd, 0x2fe706a8, 0xf9bd6ce2,
  0xa268e64e, 0xe987f486, 0x3eacf563, 0x1ca2018c, 0x65e18228, 0x2207360a, 0x57cf1715, 0x34c37d2b,
  0x1f8f3cde, 0x93b657cf, 0x31a019fd, 0xe69eb729, 0x8bca7b9b, 0x4c9d5bed, 0x277ebeaf, 0xe0d8f8ae,
  0xd150821c, 0x31381871, 0xafc3f1b0, 0x927db328, 0xe95effac, 0x305a47bd, 0x426ba35b, 0x1233af3f,
  0x686a5b83, 0x50e072e5, 0xd9d3bb2a, 0x8befc475, 0x487f0de6, 0xc88dff89, 0xbd664d5e, 0x971b5d18,
  0x63b14847, 0xd7d3c1ce, 0x7f583cf3, 0x72cbcb09, 0xc0d0a81c, 0x7fa3429b, 0xe9158a1b, 0x225ea19a,
  0xd8ca9ea3, 0xc763b282, 0xbb0c6341, 0x020b8293, 0xd4cd299d, 0x58cfa7f8, 0x91b4ee53, 0x37e4d140,
  0x95ec764c, 0x30f76b06, 0x5ee68d24, 0x679c8661, 0xa41979c2, 0xf2b61284, 0x4fac1475, 0x0adb49f9,
  0x19727a23, 0x15a7e374, 0xc43a18d5, 0x3fb1aa73, 0x342fc615, 0x924c0793, 0xbee2d7f0, 0x8a279de9,
  0x4aa2d70c, 0xe24dd37f, 0xbe862c0b, 0x177c22c2, 0x5388e5ee, 0xcd8a7510, 0xf901b4fd, 0xdbc13dbc,
  0x6c0bae5b, 0x64efe8c7, 0x48b02079, 0x80331a49, 0xca3d8ae6, 0xf3546190, 0xfed7108b, 0xc49b941b,
  0x32baf4a9, 0xeb833a4a, 0x88a3f1a5, 0x3a91ce0a, 0x3cc27da1, 0x7112e684, 0x4a3096b1, 0x3794574c,
  0xa3c8b6f3, 0x1d213941, 0x6e0a2e00, 0x233479f1, 0x0f4cd82f, 0x6093edd2, 0x5d7d209e, 0x464fe319,
  0xd4dcac9e, 0x0db845cb, 0xfb5e4bc3, 0xe0256ce1, 0x09fb4ed1, 0x0914be1e, 0xa5bdb2c3, 0xc6eb57bb,
  0x30320350, 0x3f397e91, 0xa67791bc, 0x86bc0e2c, 0xefa0a7e2, 0xe9ff7543, 0xe733612c, 0xd185897b,
  0x329e5388, 0x91dd236b, 0x2ecb0d93, 0xf4d82a3d, 0x35b5c03f, 0xe4e606f0, 0x05b21843, 0x37b45964,
  0x5eff22f4, 0x6027f4cc, 0x77178b3c, 0xae507131, 0x7bf7cabc, 0xf9c18d66, 0x593ade65, 0xd95ddf11]

/-- The table entry of a byte. -/
def buzhash (byte : UInt8) : UInt32 := buzhashTable.getD byte.toNat 0

/-- `u32::rotate_left(1)`. -/
def rotateLeft1 (h : UInt32) : UInt32 := (h <<< 1) ||| (h >>> 31)

/-- `usize::count_ones`. -/
def countOnes (n : Nat) : Nat := (Nat.bits n).count true

/-- `Chunker::new`; `none` where it panics, on a chunk size that is not a power of two. The
widths of `usize` (shifts) and `u32` (the mask) are explicit. -/
def new (chunkSizeAvg : Nat) : Option Chunker :=
  if countOnes chunkSizeAvg ≠ 1 then none
  else
    let breakTestMask := UInt32.ofNat (chunkSizeAvg * 2 - 1)
    some
      { h := 0
        windowSize := 0
        chunkSize := 0
        chunkSizeMin := chunkSizeAvg >>> 2
        chunkSizeMax := (chunkSizeAvg <<< 2) % 2 ^ 64
        breakTestMask := breakTestMask
        breakTestMinimum := breakTestMask - 2
        window := Vector.replicate 64 0 }

/-- `Chunker::shall_break`. -/
def shallBreak (c : Chunker) : Bool :=
  if c.chunkSize ≥ c.chunkSizeMax then true
  else if c.chunkSize < c.chunkSizeMin then false
  else (c.h &&& c.breakTestMask) ≥ c.breakTestMinimum

/-- `chunk_size & 0x3f`, the ring position of the byte leaving the window. -/
def windowIndex (chunkSize : Nat) : Fin 64 :=
  ⟨chunkSize &&& 0x3f, by
    have : chunkSize &&& 0x3f = chunkSize % 2 ^ 6 := Nat.and_two_pow_sub_one_eq_mod chunkSize 6
    omega⟩

/-- One byte of the fill phase of `scan`: stored at the fill level, hashed in. -/
def fillByte (c : Chunker) (byte : UInt8) (hw : c.windowSize < 64) : Chunker :=
  { c with
    window := c.window.set c.windowSize byte hw
    h := rotateLeft1 c.h ^^^ buzhash byte
    windowSize := c.windowSize + 1 }

/-- The fill loop `for _i in 0..copy_len` of `scan`, on the bytes it copies. -/
def fillLoop (c : Chunker) : List UInt8 → Chunker
  | [] => c
  | byte :: rest =>
    if hw : c.windowSize < 64 then fillLoop (c.fillByte byte hw) rest else c

/-- One byte of the rolling loop of `scan`: the byte leaving the window is hashed out, the new
one in, and the chunk grows by one byte. -/
def rollByte (c : Chunker) (enter : UInt8) : Chunker :=
  let idx := windowIndex c.chunkSize
  let leave := c.window.get idx
  { c with
    h := rotateLeft1 c.h ^^^ buzhash leave ^^^ buzhash enter
    chunkSize := c.chunkSize + 1
    window := c.window.set idx enter }

/-- The state after a boundary: hash, chunk size and fill level reset, the window kept. -/
def reset (c : Chunker) : Chunker :=
  { c with h := 0, chunkSize := 0, windowSize := 0 }

/-- The rolling loop `while pos < data_len` of `scan` over the bytes from `pos` on. -/
def rollLoop (c : Chunker) : List UInt8 → Nat → Chunker × Nat
  | [], _ => (c, 0)
  | enter :: rest, pos =>
    let c := c.rollByte enter
    if c.shallBreak then (c.reset, pos + 1) else rollLoop c rest (pos + 1)

/-- `Chunker::scan`: the new state and the position after the boundary, `0` when there is
none. -/
def scan (c : Chunker) (data : List UInt8) : Chunker × Nat :=
  if c.windowSize < 64 then
    let need := 64 - c.windowSize
    let copyLen := if need < data.length then need else data.length
    let c := fillLoop c (data.take copyLen)
    let c := { c with chunkSize := c.chunkSize + copyLen }
    if c.windowSize < 64 then (c, 0) else rollLoop c (data.drop copyLen) copyLen
  else rollLoop c data 0


/-! ## Byte by byte -/

/-- One byte through the chunker: stored in the window while it is not full, rolled through
it otherwise; with whether a chunk ends after it. -/
def push (c : Chunker) (byte : UInt8) : Chunker × Bool :=
  if hw : c.windowSize < 64 then ({ c.fillByte byte hw with chunkSize := c.chunkSize + 1 }, false)
  else if (c.rollByte byte).shallBreak then ((c.rollByte byte).reset, true)
  else (c.rollByte byte, false)

/-- The bytes pushed one by one up to the first boundary, the first one at position `pos`: the
state, and the position after the boundary or `0`. -/
def scanBytes (c : Chunker) : List UInt8 → Nat → Chunker × Nat
  | [], _ => (c, 0)
  | byte :: rest, pos =>
    if (c.push byte).2 then ((c.push byte).1, pos + 1) else scanBytes (c.push byte).1 rest (pos + 1)

/-- A stream read byte by byte, starting `acc` bytes into a chunk: the state after it, the bytes
of the chunk it ends in, and the lengths of the chunks it completes. -/
def pushAll (c : Chunker) (acc : Nat) : List UInt8 → Chunker × Nat × List Nat
  | [] => (c, acc, [])
  | byte :: rest =>
    if (c.push byte).2 then
      let r := pushAll (c.push byte).1 0 rest
      (r.1, r.2.1, (acc + 1) :: r.2.2)
    else pushAll (c.push byte).1 (acc + 1) rest

/-- The chunk lengths of a stream read byte by byte: those of the chunks it completes, then the
bytes left in the last one. -/
def chunkLengths (c : Chunker) (acc : Nat) (data : List UInt8) : List Nat :=
  (c.pushAll acc data).2.2 ++ [(c.pushAll acc data).2.1]

/-! ## Simp lemmas -/

@[simp] theorem fillByte_windowSize (c : Chunker) (byte : UInt8) (hw : c.windowSize < 64) :
    (c.fillByte byte hw).windowSize = c.windowSize + 1 := rfl

@[simp] theorem rollByte_windowSize (c : Chunker) (byte : UInt8) :
    (c.rollByte byte).windowSize = c.windowSize := rfl

theorem push_of_lt (c : Chunker) (byte : UInt8) (hw : c.windowSize < 64) :
    c.push byte = ({ c.fillByte byte hw with chunkSize := c.chunkSize + 1 }, false) := by
  simp [push, hw]

theorem push_of_le (c : Chunker) (byte : UInt8) (hw : 64 ≤ c.windowSize) :
    c.push byte = if (c.rollByte byte).shallBreak then ((c.rollByte byte).reset, true)
      else (c.rollByte byte, false) := by
  simp [push, Nat.not_lt.mpr hw]

theorem scanBytes_cons (c : Chunker) (byte : UInt8) (rest : List UInt8) (pos : Nat) :
    c.scanBytes (byte :: rest) pos = if (c.push byte).2 then ((c.push byte).1, pos + 1)
      else (c.push byte).1.scanBytes rest (pos + 1) := rfl

/-! ## `scan` pushes its bytes one by one -/

/-- Once the window is full, the rolling loop of `scan` pushes byte after byte. -/
theorem rollLoop_eq_scanBytes (c : Chunker) (data : List UInt8) (pos : Nat)
    (hw : 64 ≤ c.windowSize) : c.rollLoop data pos = c.scanBytes data pos := by
  induction data generalizing c pos with
  | nil => rfl
  | cons byte rest ih =>
    rw [rollLoop, scanBytes_cons, push_of_le c byte hw]
    by_cases hb : (c.rollByte byte).shallBreak
    · simp [hb]
    · simpa [hb] using ih (c.rollByte byte) (pos + 1) hw

/-- `fillLoop` leaves the size of the chunk alone. -/
theorem fillLoop_setChunkSize (c : Chunker) (n : Nat) (bs : List UInt8) :
    fillLoop { c with chunkSize := n } bs = { fillLoop c bs with chunkSize := n } := by
  induction bs generalizing c with
  | nil => rfl
  | cons byte rest ih =>
    by_cases hw : c.windowSize < 64
    · simp only [fillLoop, hw, dif_pos]
      exact ih (c.fillByte byte hw)
    · simp [fillLoop, hw]

@[simp] theorem fillLoop_chunkSize (c : Chunker) (bs : List UInt8) :
    (fillLoop c bs).chunkSize = c.chunkSize := by
  induction bs generalizing c with
  | nil => rfl
  | cons byte rest ih =>
    by_cases hw : c.windowSize < 64
    · rw [fillLoop, dif_pos hw, ih]; rfl
    · rw [fillLoop, dif_neg hw]

theorem fillLoop_windowSize (c : Chunker) (bs : List UInt8) (h : c.windowSize + bs.length ≤ 64) :
    (fillLoop c bs).windowSize = c.windowSize + bs.length := by
  induction bs generalizing c with
  | nil => rfl
  | cons byte rest ih =>
    have hw : c.windowSize < 64 := by simp at h; omega
    rw [fillLoop, dif_pos hw, ih _ (by simp at h ⊢; omega)]
    simp; omega

/-- While the window is not full, pushed bytes are only stored: pushing `bs` is `fillLoop`, with
the chunk grown by `bs.length`. -/
theorem scanBytes_fill (c : Chunker) (bs rest : List UInt8) (pos : Nat)
    (h : c.windowSize + bs.length ≤ 64) :
    c.scanBytes (bs ++ rest) pos =
      scanBytes { fillLoop c bs with chunkSize := c.chunkSize + bs.length } rest
        (pos + bs.length) := by
  induction bs generalizing c pos with
  | nil => rfl
  | cons byte bs ih =>
    have hw : c.windowSize < 64 := by simp at h; omega
    rw [List.cons_append, scanBytes_cons, push_of_lt c byte hw, if_neg Bool.false_ne_true,
      ih _ _ (by simp at h ⊢; omega), fillLoop, dif_pos hw, fillLoop_setChunkSize]
    simp only [List.length_cons, Nat.add_assoc, Nat.add_comm 1]

/-- `scan` is the pushes of its bytes up to the first boundary: its fill phase stores the first
`copyLen` bytes, and its rolling loop pushes the rest. -/
theorem scan_eq_scanBytes (c : Chunker) (data : List UInt8) : c.scan data = c.scanBytes data 0 := by
  by_cases hw : c.windowSize < 64
  · obtain ⟨k, hk⟩ : ∃ k, k = if 64 - c.windowSize < data.length then 64 - c.windowSize else data.length :=
      ⟨_, rfl⟩
    -- `copyLen` bytes fit in the window, and fill it unless they are all of the data
    have hk_bounds : k ≤ data.length ∧ c.windowSize + k ≤ 64 ∧
        (c.windowSize + k < 64 → k = data.length) := by
      rw [hk]; split <;> omega
    have hlen : (data.take k).length = k := by simp only [List.length_take]; omega
    have hfill : c.windowSize + (data.take k).length ≤ 64 := by omega
    have hwin := fillLoop_windowSize c (data.take k) hfill
    have hrhs : c.scanBytes data 0 =
        scanBytes { fillLoop c (data.take k) with chunkSize := c.chunkSize + k } (data.drop k) k := by
      have := scanBytes_fill c (data.take k) (data.drop k) 0 hfill
      rwa [List.take_append_drop, hlen, Nat.zero_add] at this
    rw [hrhs]
    rw [scan, if_pos hw]
    simp only [← hk, fillLoop_chunkSize]
    split
    · next hfull =>
      have hdrop : data.drop k = [] := by
        rw [hwin, hlen] at hfull; rw [List.drop_eq_nil_iff]; omega
      simp [hdrop, scanBytes]
    · next hfull =>
      exact rollLoop_eq_scanBytes _ _ _ (by rw [hwin, hlen] at hfull; simp; omega)
  · rw [scan, if_neg hw]
    exact rollLoop_eq_scanBytes c data 0 (by omega)

/-! ## Pushes up to a boundary, and a stream read byte by byte -/

/-- A boundary found by `scanBytes` lies after its first byte and within the data. -/
theorem scanBytes_snd_bounds (c : Chunker) (data : List UInt8) (pos : Nat)
    (h : (c.scanBytes data pos).2 ≠ 0) :
    pos < (c.scanBytes data pos).2 ∧ (c.scanBytes data pos).2 ≤ pos + data.length := by
  induction data generalizing c pos with
  | nil => exact absurd rfl h
  | cons byte rest ih =>
    rw [scanBytes_cons] at h ⊢
    by_cases hb : (c.push byte).2
    · simp [hb]
    · simp only [hb, Bool.false_eq_true, if_false, List.length_cons] at h ⊢
      have := ih (c.push byte).1 (pos + 1) h
      omega

/-- Where `scanBytes` finds no boundary, reading the data byte by byte ends in the same state
and completes no chunk. -/
theorem pushAll_of_scanBytes_eq_zero (c : Chunker) (data : List UInt8) (pos acc : Nat)
    (h : (c.scanBytes data pos).2 = 0) :
    c.pushAll acc data = ((c.scanBytes data pos).1, acc + data.length, []) := by
  induction data generalizing c pos acc with
  | nil => rfl
  | cons byte rest ih =>
    rw [scanBytes_cons] at h ⊢
    by_cases hb : (c.push byte).2
    · simp [hb] at h
    · simp only [hb, Bool.false_eq_true, if_false] at h ⊢
      rw [pushAll, if_neg (by simp [hb]), ih _ _ _ h]
      simp only [List.length_cons, Nat.add_assoc, Nat.add_comm 1]

/-- Where `scanBytes` finds a boundary `k` bytes in, reading those `k` bytes byte by byte ends in
the same state, at the start of a chunk, having completed one of `acc + k` bytes. -/
theorem pushAll_take_of_scanBytes (c : Chunker) (data : List UInt8) (pos acc : Nat)
    (h : (c.scanBytes data pos).2 ≠ 0) :
    c.pushAll acc (data.take ((c.scanBytes data pos).2 - pos)) =
      ((c.scanBytes data pos).1, 0, [acc + ((c.scanBytes data pos).2 - pos)]) := by
  induction data generalizing c pos acc with
  | nil => exact absurd rfl h
  | cons byte rest ih =>
    have hbounds := scanBytes_snd_bounds c (byte :: rest) pos h
    rw [scanBytes_cons] at h hbounds ⊢
    by_cases hb : (c.push byte).2
    · simp [hb, pushAll]
    · simp only [hb, Bool.false_eq_true, if_false] at h hbounds ⊢
      -- the boundary lies further in: the first byte is pushed, and the rest read from `pos + 1`
      have hstep := scanBytes_snd_bounds (c.push byte).1 rest (pos + 1) h
      obtain ⟨m, hm⟩ : ∃ m, (scanBytes (c.push byte).1 rest (pos + 1)).2 - pos = m + 1 :=
        ⟨_, (Nat.succ_pred_eq_of_pos (by omega)).symm⟩
      have hm' : (scanBytes (c.push byte).1 rest (pos + 1)).2 - (pos + 1) = m := by omega
      rw [hm, List.take_succ_cons, pushAll, if_neg (by simp [hb])]
      have := ih (c.push byte).1 (pos + 1) (acc + 1) h
      rw [hm'] at this
      rw [this]
      simp only [Prod.mk.injEq, List.cons.injEq, and_true, true_and]
      omega

/-- Reading `a ++ b` byte by byte reads `a`, then `b` from where `a` left off. -/
theorem pushAll_append (c : Chunker) (acc : Nat) (a b : List UInt8) :
    c.pushAll acc (a ++ b) =
      ((((c.pushAll acc a).1.pushAll (c.pushAll acc a).2.1 b)).1,
        (((c.pushAll acc a).1.pushAll (c.pushAll acc a).2.1 b)).2.1,
        (c.pushAll acc a).2.2 ++ ((c.pushAll acc a).1.pushAll (c.pushAll acc a).2.1 b).2.2) := by
  induction a generalizing c acc with
  | nil => rfl
  | cons byte rest ih =>
    rw [List.cons_append]
    by_cases hb : (c.push byte).2
    · simp only [pushAll, hb, if_true, ih, List.cons_append]
    · simp only [pushAll, hb, Bool.false_eq_true, if_false, ih]

/-- A boundary returned by `scan` lies after the first byte and within the data. -/
theorem scan_snd_bounds (c : Chunker) (data : List UInt8) (h : (c.scan data).2 ≠ 0) :
    0 < (c.scan data).2 ∧ (c.scan data).2 ≤ data.length := by
  rw [scan_eq_scanBytes] at h ⊢
  simpa using scanBytes_snd_bounds c data 0 h

/-! ## Two ways of feeding a stream -/

/-- The whole rest of the stream fed to `scan` after each boundary (the second loop of
`test_chunker1`): the lengths of the chunks found, then the bytes left after the last one. -/
def chunkWhole (c : Chunker) (data : List UInt8) : List Nat :=
  if _h : (c.scan data).2 = 0 then [data.length]
  else (c.scan data).2 :: chunkWhole (c.scan data).1 (data.drop (c.scan data).2)
termination_by data.length
decreasing_by
  have := scan_snd_bounds c data _h
  simp only [List.length_drop]
  omega

/-- One piece fed to `scan`, `acc` bytes into a chunk, its rest fed again after each boundary
(`DynamicChunkWriter::write` under `write_all`, `ChunkStream::poll_next`, and the first loop of
`test_chunker1` with pieces of one byte): the state after it, the bytes of the chunk it ends in,
and the lengths of the chunks it completes. -/
def feedPiece (c : Chunker) (acc : Nat) (piece : List UInt8) : Chunker × Nat × List Nat :=
  if _h : (c.scan piece).2 = 0 then ((c.scan piece).1, acc + piece.length, [])
  else
    let r := feedPiece (c.scan piece).1 0 (piece.drop (c.scan piece).2)
    (r.1, r.2.1, (acc + (c.scan piece).2) :: r.2.2)
termination_by piece.length
decreasing_by
  have := scan_snd_bounds c piece _h
  simp only [List.length_drop]
  omega

/-- A stream fed in pieces: the lengths of the chunks found, then the bytes left after the
last one. -/
def feedPieces (c : Chunker) (acc : Nat) : List (List UInt8) → List Nat
  | [] => [acc]
  | piece :: rest =>
    (c.feedPiece acc piece).2.2 ++
      feedPieces (c.feedPiece acc piece).1 (c.feedPiece acc piece).2.1 rest

/-- One `scan` call reads the data byte by byte up to its boundary: with none, all of the data;
with one `k` bytes in, the first `k` bytes, completing a chunk. -/
theorem pushAll_eq_scan (c : Chunker) (data : List UInt8) (acc : Nat) :
    c.pushAll acc data =
      if (c.scan data).2 = 0 then ((c.scan data).1, acc + data.length, [])
      else
        let r := (c.scan data).1.pushAll 0 (data.drop (c.scan data).2)
        (r.1, r.2.1, (acc + (c.scan data).2) :: r.2.2) := by
  rw [scan_eq_scanBytes]
  split
  · next h => exact pushAll_of_scanBytes_eq_zero c data 0 acc h
  · next h =>
    have htake := pushAll_take_of_scanBytes c data 0 acc h
    rw [Nat.sub_zero] at htake
    conv => lhs; rw [← List.take_append_drop (c.scanBytes data 0).2 data]
    rw [pushAll_append, htake]
    rfl

theorem feedPiece_eq_pushAll (c : Chunker) (acc : Nat) (piece : List UInt8) :
    c.feedPiece acc piece = c.pushAll acc piece := by
  induction c, acc, piece using feedPiece.induct with
  | case1 c acc piece h =>
    rw [feedPiece, dif_pos h, pushAll_eq_scan, if_pos h]
  | case2 c acc piece h ih =>
    rw [feedPiece, dif_neg h, pushAll_eq_scan, if_neg h, ih]

/-- Feeding a stream in pieces finds the chunks of the stream read byte by byte. -/
theorem feedPieces_eq_chunkLengths (c : Chunker) (acc : Nat) (pieces : List (List UInt8)) :
    c.feedPieces acc pieces = c.chunkLengths acc pieces.flatten := by
  induction pieces generalizing c acc with
  | nil => rfl
  | cons piece rest ih =>
    rw [feedPieces, ih, feedPiece_eq_pushAll, List.flatten_cons, chunkLengths, chunkLengths,
      pushAll_append, List.append_assoc]

/-- Feeding the whole rest of a stream after each boundary finds the chunks of the stream read
byte by byte. -/
theorem chunkWhole_eq_chunkLengths (c : Chunker) (data : List UInt8) :
    c.chunkWhole data = c.chunkLengths 0 data := by
  induction c, data using chunkWhole.induct with
  | case1 c data h =>
    rw [chunkWhole, dif_pos h, chunkLengths, pushAll_eq_scan c data 0, if_pos h]
    simp
  | case2 c data h ih =>
    rw [chunkWhole, dif_neg h, ih, chunkLengths, chunkLengths, pushAll_eq_scan c data 0, if_neg h]
    simp

/-- Where a stream is cut into `scan` calls does not change the chunks found. -/
theorem feedPieces_eq_chunkWhole (c : Chunker) (pieces : List (List UInt8)) :
    c.feedPieces 0 pieces = c.chunkWhole pieces.flatten := by
  rw [feedPieces_eq_chunkLengths, chunkWhole_eq_chunkLengths]

/-! ## Chunk sizes

A chunker made by `new` for the average `avg` never cuts a chunk shorter than `avg / 4` or longer
than `4 * avg`. `Within` is what holds between two bytes: the limits are those of `avg`, the
chunk is below the maximum, and while the window fills (where no boundary is tested) the chunk
is the bytes in the window. -/

/-- A power of two has one bit set, so `new` does not panic on it. -/
theorem countOnes_two_pow (k : Nat) : countOnes (2 ^ k) = 1 := by
  induction k with
  | zero => simp [countOnes]
  | succ k ih =>
    have hne : 2 ^ k ≠ 0 := Nat.pos_iff_ne_zero.mp (Nat.two_pow_pos k)
    rw [countOnes, Nat.pow_succ, Nat.mul_comm, Nat.bit0_bits _ hne, List.count_cons_of_ne
      Bool.false_ne_true]
    exact ih

/-- A boundary is tested only at a chunk size between the limits. -/
theorem shallBreak_cases {c : Chunker} (h : c.shallBreak = true) :
    c.chunkSizeMax ≤ c.chunkSize ∨ c.chunkSizeMin ≤ c.chunkSize := by
  unfold shallBreak at h
  split at h
  · exact .inl (by omega)
  · split at h
    · cases h
    · exact .inr (by omega)

theorem lt_max_of_not_shallBreak {c : Chunker} (h : c.shallBreak = false) :
    c.chunkSize < c.chunkSizeMax := by
  unfold shallBreak at h
  split at h
  · cases h
  · omega

@[simp] theorem rollByte_chunkSize (c : Chunker) (byte : UInt8) :
    (c.rollByte byte).chunkSize = c.chunkSize + 1 := rfl

@[simp] theorem rollByte_chunkSizeMin (c : Chunker) (byte : UInt8) :
    (c.rollByte byte).chunkSizeMin = c.chunkSizeMin := rfl

@[simp] theorem rollByte_chunkSizeMax (c : Chunker) (byte : UInt8) :
    (c.rollByte byte).chunkSizeMax = c.chunkSizeMax := rfl

/-- Between two bytes of a chunker for the average `avg`. -/
structure Within (avg : Nat) (c : Chunker) : Prop where
  min_eq : c.chunkSizeMin = avg / 4
  max_eq : c.chunkSizeMax = 4 * avg
  window_le : c.windowSize ≤ 64
  filling : c.windowSize < 64 → c.chunkSize = c.windowSize
  lt_max : c.chunkSize < c.chunkSizeMax

section Within

variable {avg : Nat} {c : Chunker}

/-- A byte in the fill phase ends no chunk; a byte rolled through the window ends one only
between the limits. -/
theorem Within.push_boundary (hc : Within avg c) {byte : UInt8} (hb : (c.push byte).2 = true) :
    avg / 4 ≤ c.chunkSize + 1 ∧ c.chunkSize + 1 ≤ 4 * avg := by
  by_cases hw : c.windowSize < 64
  · rw [push_of_lt c byte hw] at hb
    cases hb
  · rw [push_of_le c byte (by omega)] at hb
    split at hb
    · next hbreak =>
      have hlt := hc.lt_max
      rw [hc.max_eq] at hlt
      rcases shallBreak_cases hbreak with hmax | hmin
      · rw [rollByte_chunkSize, rollByte_chunkSizeMax, hc.max_eq] at hmax
        omega
      · rw [rollByte_chunkSize, rollByte_chunkSizeMin, hc.min_eq] at hmin
        omega
    · cases hb

/-- A pushed byte grows the chunk by one, or ends it. -/
theorem push_chunkSize (c : Chunker) (byte : UInt8) :
    (c.push byte).1.chunkSize = if (c.push byte).2 then 0 else c.chunkSize + 1 := by
  by_cases hw : c.windowSize < 64
  · rw [push_of_lt c byte hw]
    rfl
  · rw [push_of_le c byte (by omega)]
    split <;> rfl

theorem Within.push (hc : Within avg c) (hwin : 64 < 4 * avg) (byte : UInt8) :
    Within avg (c.push byte).1 := by
  by_cases hw : c.windowSize < 64
  · rw [push_of_lt c byte hw]
    have hfill := hc.filling hw
    refine ⟨hc.min_eq, hc.max_eq, by simp; omega, fun _ => by simp [hfill], ?_⟩
    show c.chunkSize + 1 < c.chunkSizeMax
    rw [hc.max_eq]
    omega
  · rw [push_of_le c byte (by omega)]
    split
    · exact ⟨hc.min_eq, hc.max_eq, Nat.zero_le _, fun _ => rfl, by simp [reset, hc.max_eq]; omega⟩
    · next hbreak =>
      have hlt := lt_max_of_not_shallBreak (Bool.of_not_eq_true hbreak)
      exact ⟨hc.min_eq, hc.max_eq, hc.window_le, fun h => absurd h hw, hlt⟩

/-- Read byte by byte from the start of a chunk, every chunk completed lies between the limits,
and the bytes after the last boundary stay below the maximum. -/
theorem Within.pushAll (hc : Within avg c) (hwin : 64 < 4 * avg) (data : List UInt8) :
    (∀ len ∈ (c.pushAll c.chunkSize data).2.2, avg / 4 ≤ len ∧ len ≤ 4 * avg) ∧
      (c.pushAll c.chunkSize data).2.1 < 4 * avg := by
  induction data generalizing c with
  | nil =>
    refine ⟨fun len hlen => absurd hlen List.not_mem_nil, ?_⟩
    have := hc.lt_max
    rwa [hc.max_eq] at this
  | cons byte rest ih =>
    have hnext := ih (hc.push hwin byte)
    rw [push_chunkSize] at hnext
    by_cases hb : (c.push byte).2 = true
    · rw [if_pos hb] at hnext
      simp only [Chunker.pushAll, hb, if_true, List.mem_cons]
      refine ⟨fun len hlen => ?_, hnext.2⟩
      rcases hlen with rfl | hlen
      · exact hc.push_boundary hb
      · exact hnext.1 len hlen
    · rw [if_neg hb] at hnext
      simp only [Chunker.pushAll, hb, Bool.false_eq_true, if_false]
      exact hnext

end Within

/-! ## The hash of the window

Between two bytes, `TracksChunk c cur` relates the state to the bytes `cur` of the current
chunk: the chunk size is their number, the fill level is that number up to 64, the hash is the
Buzhash of the last 64 of them (`RollingHash.windowHash` of the table entries), and each of the
last 64 bytes sits in the ring `window` at its position modulo 64. Every pushed byte keeps it
(`TracksChunk.push`): in the fill phase the hash takes one more byte; in the rolling phase the
byte leaving the window is the one at `chunk_size & 63`, and `RollingHash.windowHash_roll`
removes it, the rotation by 64 being the identity on 32 bits. -/

/-- `BUZHASH_TABLE` entries as words of 32 bits. -/
def buzhashBits (byte : UInt8) : BitVec 32 := (buzhash byte).toBitVec

/-- The Buzhash of a window computed from scratch: the exclusive or, over the positions `i` of
the window, of the table entry of its `i`-th byte rotated left by `(63 - i) mod 32`. -/
def buzhashWindow (window : List UInt8) : UInt32 :=
  UInt32.ofBitVec
    ((window.mapIdx fun i b => (buzhash b).toBitVec.rotateLeft ((63 - i) % 32)).foldr
      (· ^^^ ·) 0)

theorem toBitVec_buzhashWindow {window : List UInt8} (hlen : window.length = 64) :
    (buzhashWindow window).toBitVec = RollingHash.windowHash buzhashBits window := by
  rw [buzhashWindow, UInt32.toBitVec_ofBitVec, RollingHash.windowHash_eq_foldr_mapIdx, hlen]
  congr 2
  funext i b
  rw [← BitVec.rotateLeft_mod_eq_rotateLeft (r := 64 - 1 - i)]
  rfl

theorem toBitVec_rotateLeft1 (h : UInt32) : (rotateLeft1 h).toBitVec = h.toBitVec.rotateLeft 1 := by
  simp [rotateLeft1, BitVec.rotateLeft_def]

@[simp] theorem windowIndex_val (p : Nat) : (windowIndex p).val = p % 64 :=
  Nat.and_two_pow_sub_one_eq_mod p 6

/-- The ring position of a byte, read as an index of the window. -/
theorem get_windowIndex (v : Vector UInt8 64) (p : Nat) :
    v.get (windowIndex p) = getElem v (p % 64) (Nat.mod_lt _ (by decide)) := by
  show v[(windowIndex p).val] = _
  simp only [windowIndex_val]

/-- The state between two bytes of a chunk whose bytes so far are `cur`. -/
structure TracksChunk (c : Chunker) (cur : List UInt8) : Prop where
  chunkSize_eq : c.chunkSize = cur.length
  windowSize_eq : c.windowSize = min cur.length 64
  hash_eq : c.h.toBitVec = RollingHash.windowHash buzhashBits (cur.drop (cur.length - 64))
  window_eq : ∀ p (hp : p < cur.length), cur.length ≤ p + 64 → c.window.get (windowIndex p) = cur[p]

section TracksChunk

variable {c : Chunker} {cur : List UInt8}

/-- The start of a chunk, after `new` or a boundary. -/
theorem tracksChunk_nil (hh : c.h = 0) (hs : c.chunkSize = 0) (hw : c.windowSize = 0) :
    TracksChunk c [] :=
  ⟨hs, hw, by simp [hh], fun _ hp => absurd hp (Nat.not_lt_zero _)⟩

/-- A byte of the fill phase joins the window at the fill level and the hash. -/
theorem TracksChunk.fill (h : TracksChunk c cur) (hw : c.windowSize < 64) (byte : UInt8) :
    TracksChunk { c.fillByte byte hw with chunkSize := c.chunkSize + 1 } (cur ++ [byte]) := by
  have hlen : cur.length < 64 := by have := h.windowSize_eq; omega
  refine ⟨by simp [h.chunkSize_eq], by simp [h.windowSize_eq]; omega, ?_, ?_⟩
  · show (rotateLeft1 c.h ^^^ buzhash byte).toBitVec = _
    have hdrop : (cur ++ [byte]).length - 64 = 0 := by simp; omega
    rw [UInt32.toBitVec_xor, toBitVec_rotateLeft1, h.hash_eq, hdrop, List.drop_zero,
      Nat.sub_eq_zero_of_le (Nat.le_of_lt hlen), List.drop_zero, RollingHash.windowHash_concat]
    rfl
  · intro p hp _
    show (c.window.set c.windowSize byte hw).get (windowIndex p) = _
    have hp1 : p ≤ cur.length := by simp at hp; omega
    rw [get_windowIndex, Vector.getElem_set]
    split
    · next heq =>
      -- the byte just stored
      obtain rfl : p = cur.length := by rw [h.windowSize_eq] at heq; omega
      simp
    · next hne =>
      have hp' : p < cur.length := by rw [h.windowSize_eq] at hne; omega
      rw [List.getElem_append_left hp', ← h.window_eq p hp' (by omega), get_windowIndex]

/-- A byte of the rolling phase replaces the oldest byte of the window, at `chunk_size & 63`, and
the hash moves with the window. -/
theorem TracksChunk.rollByte (h : TracksChunk c cur) (hw : 64 ≤ c.windowSize) (byte : UInt8) :
    TracksChunk (c.rollByte byte) (cur ++ [byte]) := by
  have hlen : 64 ≤ cur.length := by have := h.windowSize_eq; omega
  -- the byte leaving the window is the oldest of the last 64
  have hleave : c.window.get (windowIndex c.chunkSize) = cur[cur.length - 64] := by
    rw [← h.window_eq (cur.length - 64) (by omega) (by omega), h.chunkSize_eq]
    congr 1
    ext
    simp only [windowIndex_val]
    omega
  refine ⟨by simp [h.chunkSize_eq], by simp [h.windowSize_eq]; omega, ?_, ?_⟩
  · show (rotateLeft1 c.h ^^^ buzhash (c.window.get (windowIndex c.chunkSize)) ^^^
      buzhash byte).toBitVec = _
    have hdrop : cur.drop (cur.length - 64) =
        cur[cur.length - 64] :: cur.drop (cur.length - 64 + 1) :=
      List.drop_eq_getElem_cons (by omega)
    have hdrop' : (cur ++ [byte]).drop ((cur ++ [byte]).length - 64) =
        cur.drop (cur.length - 64 + 1) ++ [byte] := by
      rw [List.length_append, List.length_singleton, List.drop_append_of_le_length (by omega)]
      congr 2
      omega
    have hrest : (cur.drop (cur.length - 64 + 1)).length + 1 = 64 := by simp; omega
    rw [UInt32.toBitVec_xor, UInt32.toBitVec_xor, toBitVec_rotateLeft1, h.hash_eq, hleave, hdrop,
      hdrop', ← RollingHash.windowHash_roll buzhashBits _ _ _ (by rw [hrest]; decide)]
    rfl
  · intro p hp hp64
    show (c.window.set (windowIndex c.chunkSize) byte (windowIndex c.chunkSize).isLt).get
      (windowIndex p) = _
    simp only [List.length_append, List.length_singleton] at hp hp64
    rw [get_windowIndex, Vector.getElem_set]
    split
    · next heq =>
      -- the byte just rolled in
      obtain rfl : p = cur.length := by
        rw [windowIndex_val, h.chunkSize_eq] at heq
        omega
      simp
    · next hne =>
      have hp' : p < cur.length := by
        rw [windowIndex_val, h.chunkSize_eq] at hne
        omega
      rw [List.getElem_append_left hp', ← h.window_eq p hp' (by omega), get_windowIndex]

/-- The step lemma: a pushed byte either ends the chunk, after which the state is at the start of
the next one, or joins the current chunk. -/
theorem TracksChunk.push (h : TracksChunk c cur) (byte : UInt8) :
    TracksChunk (c.push byte).1 (if (c.push byte).2 then [] else cur ++ [byte]) := by
  by_cases hw : c.windowSize < 64
  · rw [push_of_lt c byte hw]
    exact h.fill hw byte
  · rw [push_of_le c byte (by omega)]
    split
    · exact tracksChunk_nil rfl rfl rfl
    · exact h.rollByte (by omega) byte

/-- The run lemma: read byte by byte, a stream leaves the state between two bytes of the chunk
made of the last `acc` bytes read, `acc` being the bytes of the chunk it ends in. -/
theorem TracksChunk.pushAll (h : TracksChunk c cur) (data : List UInt8) :
    (c.pushAll cur.length data).2.1 ≤ (cur ++ data).length ∧
      TracksChunk (c.pushAll cur.length data).1
        ((cur ++ data).drop ((cur ++ data).length - (c.pushAll cur.length data).2.1)) := by
  induction data generalizing c cur with
  | nil => simpa [Chunker.pushAll] using h
  | cons byte rest ih =>
    have hnext := h.push byte
    by_cases hb : (c.push byte).2 = true
    · rw [if_pos hb] at hnext
      obtain ⟨hle, htracks⟩ := ih hnext
      simp only [List.nil_append, List.length_nil] at hle htracks
      simp only [Chunker.pushAll, hb, if_true]
      refine ⟨by simp; omega, ?_⟩
      -- the current chunk started after the boundary, inside the rest of the data
      have hsplit : (cur ++ byte :: rest).drop
          ((cur ++ byte :: rest).length - ((c.push byte).1.pushAll 0 rest).2.1) =
            rest.drop (rest.length - ((c.push byte).1.pushAll 0 rest).2.1) := by
        rw [show cur ++ byte :: rest = (cur ++ [byte]) ++ rest by simp,
          List.drop_append, List.drop_eq_nil_of_le (by simp; omega), List.nil_append]
        congr 1
        simp
        omega
      rwa [hsplit]
    · rw [if_neg hb] at hnext
      obtain ⟨hle, htracks⟩ := ih hnext
      simp only [Chunker.pushAll, hb, Bool.false_eq_true, if_false]
      simp only [List.length_append, List.length_singleton, List.append_assoc,
        List.singleton_append] at hle htracks ⊢
      exact ⟨by simpa [Nat.add_assoc, Nat.add_comm 1] using hle, htracks⟩

end TracksChunk

/-- While the window is not full, pushed bytes are stored and end no chunk. -/
theorem pushAll_windowSize_of_fill (c : Chunker) (acc : Nat) (data : List UInt8)
    (h : c.windowSize + data.length ≤ 64) :
    (c.pushAll acc data).1.windowSize = c.windowSize + data.length := by
  have hscan := scanBytes_fill c data [] 0 (by simpa using h)
  rw [List.append_nil] at hscan
  rw [pushAll_of_scanBytes_eq_zero c data 0 acc (by rw [hscan]; rfl), hscan]
  exact fillLoop_windowSize c data h

/-- The fields `shall_break` reads besides the chunk size and the hash: no byte changes them. -/
structure SameLimits (c c' : Chunker) : Prop where
  min_eq : c'.chunkSizeMin = c.chunkSizeMin
  max_eq : c'.chunkSizeMax = c.chunkSizeMax
  mask_eq : c'.breakTestMask = c.breakTestMask
  minimum_eq : c'.breakTestMinimum = c.breakTestMinimum

section SameLimits

variable {c c' : Chunker}

theorem SameLimits.rollByte (h : SameLimits c c') (byte : UInt8) :
    SameLimits c (c'.rollByte byte) := ⟨h.1, h.2, h.3, h.4⟩

theorem SameLimits.push (h : SameLimits c c') (byte : UInt8) : SameLimits c (c'.push byte).1 := by
  by_cases hw : c'.windowSize < 64
  · rw [push_of_lt c' byte hw]
    exact ⟨h.1, h.2, h.3, h.4⟩
  · rw [push_of_le c' byte (by omega)]
    split
    · exact ⟨h.1, h.2, h.3, h.4⟩
    · exact h.rollByte byte

theorem SameLimits.pushAll (h : SameLimits c c') (acc : Nat) (data : List UInt8) :
    SameLimits c (c'.pushAll acc data).1 := by
  induction data generalizing c' acc with
  | nil => exact h
  | cons byte rest ih =>
    by_cases hb : (c'.push byte).2 = true
    · simp only [Chunker.pushAll, hb, if_true]
      exact ih (h.push byte) 0
    · simp only [Chunker.pushAll, hb, Bool.false_eq_true, if_false]
      exact ih (h.push byte) (acc + 1)

/-- The break decision reads the limits, the chunk size and the hash. -/
theorem SameLimits.shallBreak_eq (h : SameLimits c c') :
    c'.shallBreak = { c with chunkSize := c'.chunkSize, h := c'.h }.shallBreak := by
  simp only [shallBreak, h.min_eq, h.max_eq, h.mask_eq, h.minimum_eq]

end SameLimits

/-- `new` for an average of at most 4 MiB: the shifts do not overflow, and the limits are a
quarter and four times the average. -/
theorem Within.new {avg : Nat} {c : Chunker} (hc : Chunker.new avg = some c)
    (hhi : avg ≤ 4 * 1024 * 1024) : Within avg c := by
  unfold Chunker.new at hc
  split at hc
  · cases hc
  · next hone =>
    cases hc
    have hpos : avg ≠ 0 := by
      rintro rfl
      exact hone (by decide)
    have hmax : (avg <<< 2) % 2 ^ 64 = 4 * avg := by
      rw [Nat.shiftLeft_eq, Nat.mod_eq_of_lt (by omega)]
      omega
    refine ⟨Nat.shiftRight_eq_div_pow avg 2, hmax, Nat.zero_le _, fun _ => rfl, ?_⟩
    show 0 < (avg <<< 2) % 2 ^ 64
    omega


theorem new_chunkSize {avg : Nat} {c : Chunker} (hc : Chunker.new avg = some c) :
    c.chunkSize = 0 := by
  unfold Chunker.new at hc
  split at hc
  · cases hc
  · cases hc
    rfl

/-- `new` starts a chunk. -/
theorem new_tracksChunk {avg : Nat} {c : Chunker} (hc : Chunker.new avg = some c) :
    TracksChunk c [] := by
  unfold Chunker.new at hc
  split at hc
  · cases hc
  · cases hc
    exact tracksChunk_nil rfl rfl rfl

theorem new_two_pow (k : Nat) : ∃ c, Chunker.new (2 ^ k) = some c := by
  rw [Chunker.new, if_neg (by rw [countOnes_two_pow]; decide)]
  exact ⟨_, rfl⟩

/-- For every power-of-two average from 64 KiB to 4 MiB, `new` builds a chunker; and however a
stream is cut into `scan` calls, every chunk that ends at a boundary has from a quarter to four
times the average bytes, and fewer than four times the average are left after the last
boundary. -/
theorem scan_chunk_sizes_within_limits (avg : Nat) (hpow : ∃ k, avg = 2 ^ k)
    (hlo : 64 * 1024 ≤ avg) (hhi : avg ≤ 4 * 1024 * 1024) :
    ∃ c, Chunker.new avg = some c ∧ ∀ pieces : List (List UInt8),
      ∃ lens trailing, c.feedPieces 0 pieces = lens ++ [trailing] ∧
        (∀ len ∈ lens, avg / 4 ≤ len ∧ len ≤ 4 * avg) ∧ trailing < 4 * avg := by
  obtain ⟨k, rfl⟩ := hpow
  obtain ⟨c, hc⟩ := new_two_pow k
  refine ⟨c, hc, fun pieces => ?_⟩
  obtain ⟨hlens, htrailing⟩ := (Within.new hc hhi).pushAll (by omega) pieces.flatten
  rw [new_chunkSize hc] at hlens htrailing
  exact ⟨_, _, feedPieces_eq_chunkLengths c 0 pieces, hlens, htrailing⟩

theorem scan_chunk_sizes_within_limits_64k :
    (∃ k, 65536 = 2 ^ k) ∧ 64 * 1024 ≤ 65536 ∧ 65536 ≤ 4 * 1024 * 1024 ∧
      ∃ c, Chunker.new 65536 = some c ∧ ∀ pieces : List (List UInt8),
        ∃ lens trailing, c.feedPieces 0 pieces = lens ++ [trailing] ∧
          (∀ len ∈ lens, 65536 / 4 ≤ len ∧ len ≤ 4 * 65536) ∧ trailing < 4 * 65536 :=
  ⟨⟨16, rfl⟩, by decide, by decide,
    scan_chunk_sizes_within_limits 65536 ⟨16, rfl⟩ (by decide) (by decide)⟩

theorem scan_hash_is_buzhash_of_last_window (avg : Nat) (c : Chunker)
    (hc : Chunker.new avg = some c) (data : List UInt8) (byte : UInt8)
    (hroll : 64 ≤ (c.feedPiece 0 data).1.windowSize) :
    let state := c.feedPiece 0 data
    let chunk := data.drop (data.length - state.2.1) ++ [byte]
    let last64 := chunk.drop (chunk.length - 64)
    let rolled := state.1.rollByte byte
    last64.length = 64 ∧ rolled.h = buzhashWindow last64 ∧
      last64.head? = some (rolled.window.get (windowIndex rolled.chunkSize)) ∧
      rolled.shallBreak =
        { c with chunkSize := chunk.length, h := buzhashWindow last64 }.shallBreak := by
  intro state chunk last64 rolled
  have hroll : 64 ≤ state.1.windowSize := hroll
  -- the state after the `scan` calls is that of the stream read byte by byte
  have hstate : state = c.pushAll 0 data := feedPiece_eq_pushAll c 0 data
  obtain ⟨-, htracks⟩ := (new_tracksChunk hc).pushAll data
  simp only [List.nil_append, List.length_nil, ← hstate] at htracks
  have hrolled : TracksChunk rolled chunk := htracks.rollByte hroll byte
  have hlen : 64 < chunk.length := by
    have := htracks.windowSize_eq
    simp only [chunk, List.length_append, List.length_singleton]
    omega
  have hlast : last64.length = 64 := by simp only [last64, List.length_drop]; omega
  have hhash : rolled.h = buzhashWindow last64 := by
    rw [← UInt32.toBitVec_inj, toBitVec_buzhashWindow hlast, hrolled.hash_eq]
  refine ⟨hlast, hhash, ?_, ?_⟩
  · -- the oldest of the last 64 bytes is at `chunk_size & 63`
    have hidx : windowIndex rolled.chunkSize = windowIndex (chunk.length - 64) := by
      ext
      simp only [windowIndex_val, hrolled.chunkSize_eq]
      omega
    rw [hidx, hrolled.window_eq _ (by omega) (by omega), List.head?_drop,
      List.getElem?_eq_getElem]
  · have hlim : SameLimits c rolled := by
      rw [show rolled = (c.pushAll 0 data).1.rollByte byte by rw [← hstate]]
      exact (SameLimits.pushAll ⟨rfl, rfl, rfl, rfl⟩ 0 data).rollByte byte
    rw [hlim.shallBreak_eq, hrolled.chunkSize_eq, hhash]

/-- Sixty-four zero bytes fill the window of a chunker for 64 KiB; the next byte is rolled. -/
theorem scan_hash_is_buzhash_of_last_window_65th_byte :
    ∃ c, Chunker.new 65536 = some c ∧
      64 ≤ (c.feedPiece 0 (List.replicate 64 0)).1.windowSize ∧
      let state := c.feedPiece 0 (List.replicate 64 0)
      let chunk := (List.replicate 64 (0 : UInt8)).drop
        ((List.replicate 64 (0 : UInt8)).length - state.2.1) ++ [(1 : UInt8)]
      let last64 := chunk.drop (chunk.length - 64)
      let rolled := state.1.rollByte 1
      last64.length = 64 ∧ rolled.h = buzhashWindow last64 ∧
        last64.head? = some (rolled.window.get (windowIndex rolled.chunkSize)) ∧
        rolled.shallBreak =
          { c with chunkSize := chunk.length, h := buzhashWindow last64 }.shallBreak := by
  have hnew : Chunker.new 65536 =
      some ⟨0, 0, 0, 16384, 262144, 131071, 131069, Vector.replicate 64 0⟩ := by
    rw [Chunker.new, if_neg (by rw [show (65536 : Nat) = 2 ^ 16 from rfl, countOnes_two_pow]; decide)]
    rfl
  have hfill : 64 ≤ ((Chunker.mk 0 0 0 16384 262144 131071 131069 (Vector.replicate 64 0)).feedPiece
      0 (List.replicate 64 0)).1.windowSize := by
    rw [feedPiece_eq_pushAll, pushAll_windowSize_of_fill _ _ _ (by simp)]
    simp
  exact ⟨_, hnew, hfill, scan_hash_is_buzhash_of_last_window 65536 _ hnew _ 1 hfill⟩

end Chunker

end ProxmoxBackup
