import Mathlib
import ProxmoxBackup.Foundations.Checked
import ProxmoxBackup.Foundations.Except

/-!
# The catalog's byte format (`pbs-datastore/src/catalog.rs`)

A catalog lists a directory tree, one block a directory. A block is its length as a varint,
then the number of entries as a varint, then the entries: a type byte, the name's length and the
name, and for a directory the distance back to the block of the subdirectory, for a file its size
and modification time. Numbers are varints (`catalog_encode_u64`): seven bits a byte, least
significant first, the high bit set on every byte but the last; a negative `i64` is the varint
of its magnitude with the high bit set on its last byte too, and a zero byte after it.

This module models the encoders, the decoders and `DirInfo::parse`, and proves the round trips
the catalog rests on: every `u64` and `i64` decodes back from its encoding
(`catalogDecodeU64_encode`, `catalogDecodeI64_encode`), and `parse` of a directory block gives
the callback back the entries `DirInfo::encode` wrote, in order (`parse_encode`).

`u64` values are `UInt64` and `i64` values `Int64`, so that the decoders' shifts, `|=` and
casts wrap as they do in the source (a release build, without overflow checks). The encoders'
loops never overflow and run on `Nat`. The decoders are also modelled as a build with overflow
checks runs them (`decodeU64LoopChecked`, `decodeI64LoopChecked`): where those do not panic they
agree with the unchecked ones. The `u64` decoder never panics; the `i64` decoder does on two
malformed inputs (`catalogDecodeI64_overflows`).
-/

namespace ProxmoxBackup

/-! ## Reading from a byte slice -/

/-- `read_exact` of `n` bytes from a reader whose bytes ahead are `cursor`: the bytes read and
the ones left. -/
def readExact (n : Nat) (cursor : List UInt8) : Except String (List UInt8 × List UInt8) :=
  if n ≤ cursor.length then .ok (cursor.take n, cursor.drop n)
  else .error "failed to fill whole buffer"

/-- `read_exact` into a buffer of one byte. -/
def readByte : List UInt8 → Except String (UInt8 × List UInt8)
  | [] => .error "failed to fill whole buffer"
  | b :: rest => .ok (b, rest)

@[simp] theorem readByte_cons (b : UInt8) (rest : List UInt8) :
    readByte (b :: rest) = .ok (b, rest) := rfl

/-! ## Entries -/

/-- `CatalogEntryType`. -/
inductive CatalogEntryType where
  | directory | file | symlink | hardlink | blockDevice | charDevice | fifo | socket
  deriving DecidableEq, Repr

namespace CatalogEntryType

/-- `CatalogEntryType as u8`. -/
def toByte : CatalogEntryType → UInt8
  | .directory => 'd'.toUInt8
  | .file => 'f'.toUInt8
  | .symlink => 'l'.toUInt8
  | .hardlink => 'h'.toUInt8
  | .blockDevice => 'b'.toUInt8
  | .charDevice => 'c'.toUInt8
  | .fifo => 'p'.toUInt8
  | .socket => 's'.toUInt8

/-- `TryFrom<u8> for CatalogEntryType`. -/
def tryFrom (value : UInt8) : Except String CatalogEntryType :=
  if value = 'd'.toUInt8 then .ok .directory
  else if value = 'f'.toUInt8 then .ok .file
  else if value = 'l'.toUInt8 then .ok .symlink
  else if value = 'h'.toUInt8 then .ok .hardlink
  else if value = 'b'.toUInt8 then .ok .blockDevice
  else if value = 'c'.toUInt8 then .ok .charDevice
  else if value = 'p'.toUInt8 then .ok .fifo
  else if value = 's'.toUInt8 then .ok .socket
  else
    let c := Char.ofNat value.toNat
    .error s!"invalid CatalogEntryType value '{c}'"

end CatalogEntryType

/-- `DirEntryAttribute`. -/
inductive DirEntryAttribute where
  | directory (start : UInt64)
  | file (size : UInt64) (mtime : Int64)
  | symlink | hardlink | blockDevice | charDevice | fifo | socket
  deriving DecidableEq

/-- `From<&DirEntryAttribute> for CatalogEntryType`. -/
def DirEntryAttribute.entryType : DirEntryAttribute → CatalogEntryType
  | .directory _ => .directory
  | .file _ _ => .file
  | .symlink => .symlink
  | .hardlink => .hardlink
  | .blockDevice => .blockDevice
  | .charDevice => .charDevice
  | .fifo => .fifo
  | .socket => .socket

/-- `DirEntry`: a named entry of a directory. -/
structure DirEntry where
  name : List UInt8
  attr : DirEntryAttribute
  deriving DecidableEq

/-- `DirEntry::new`: the entry of a type, with the fields of that type. -/
def DirEntry.new (etype : CatalogEntryType) (name : List UInt8) (start size : UInt64)
    (mtime : Int64) : DirEntry :=
  match etype with
  | .directory => ⟨name, .directory start⟩
  | .file => ⟨name, .file size mtime⟩
  | .symlink => ⟨name, .symlink⟩
  | .hardlink => ⟨name, .hardlink⟩
  | .blockDevice => ⟨name, .blockDevice⟩
  | .charDevice => ⟨name, .charDevice⟩
  | .fifo => ⟨name, .fifo⟩
  | .socket => ⟨name, .socket⟩

/-! ## Varints -/

/-- The loop of `catalog_encode_u64`. -/
def encodeU64Loop (d : Nat) : List UInt8 :=
  if _h : d < 128 then [d.toUInt8]
  else (128 ||| (d &&& 127)).toUInt8 :: encodeU64Loop (d >>> 7)
termination_by d
decreasing_by
  rw [Nat.shiftRight_eq_div_pow]
  omega

/-- `catalog_encode_u64`. -/
def catalogEncodeU64 (v : UInt64) : List UInt8 := encodeU64Loop v.toNat

/-- The loop of `catalog_encode_i64` on the magnitude `d`: as for a `u64`, and for a negative
value the last byte has the high bit set and a zero byte follows it. -/
def encodeI64Loop (negative : Bool) (d : Nat) : List UInt8 :=
  if _h : d < 128 then
    if negative then [(128 ||| d).toUInt8, 0] else [d.toUInt8]
  else (128 ||| (d &&& 127)).toUInt8 :: encodeI64Loop negative (d >>> 7)
termination_by d
decreasing_by
  rw [Nat.shiftRight_eq_div_pow]
  omega

/-- `catalog_encode_i64`. The magnitude `(-1 * (v + 1)) as u64 + 1` of a negative `v` is
computed without overflow, `i64::MIN` included. -/
def catalogEncodeI64 (v : Int64) : List UInt8 :=
  let d := if v.toInt < 0 then (-1 * (v.toInt + 1)).toNat + 1 else v.toInt.toNat
  encodeI64Loop (decide (v.toInt < 0)) d

/-- The loop of `catalog_decode_u64` from byte `i` on, with the bits `v` read so far, and `n` of
its ten rounds left. -/
def decodeU64Loop : Nat → Nat → UInt64 → List UInt8 → Except String (UInt64 × List UInt8)
  | 0, _, _, _ => .error "decode_u64 failed - missing end marker"
  | n + 1, i, v, bytes => do
    let (t, rest) ← readByte bytes
    if t < 128 then .ok (v ||| (t.toUInt64 <<< (i * 7).toUInt64), rest)
    else decodeU64Loop n (i + 1) (v ||| ((t &&& 127).toUInt64 <<< (i * 7).toUInt64)) rest

/-- `catalog_decode_u64`: the value and the bytes after it. -/
def catalogDecodeU64 (bytes : List UInt8) : Except String (UInt64 × List UInt8) :=
  decodeU64Loop 10 0 0 bytes

/-- The loop of `catalog_decode_i64` from byte `i` on, with the bits `v` read so far, and `n` of
its eleven rounds left. -/
def decodeI64Loop : Nat → Nat → UInt64 → List UInt8 → Except String (Int64 × List UInt8)
  | 0, _, _, _ => .error "decode_i64 failed - missing end marker"
  | n + 1, i, v, bytes => do
    let (t, rest) ← readByte bytes
    if t = 0 then
      if v = 0 then .ok (0, rest)
      else .ok (((v - 1).toInt64 * -1) - 1, rest)
    else if t < 128 then .ok ((v ||| (t.toUInt64 <<< (i * 7).toUInt64)).toInt64, rest)
    else decodeI64Loop n (i + 1) (v ||| ((t &&& 127).toUInt64 <<< (i * 7).toUInt64)) rest

/-- `catalog_decode_i64`: the value and the bytes after it. -/
def catalogDecodeI64 (bytes : List UInt8) : Except String (Int64 × List UInt8) :=
  decodeI64Loop 11 0 0 bytes

/-- The loop of `catalog_decode_u64` in a build with overflow checks: a shift by 64 bits or more
panics (`none`). -/
def decodeU64LoopChecked : Nat → Nat → UInt64 → List UInt8 →
    ExceptT String Option (UInt64 × List UInt8)
  | 0, _, _, _ => throw "decode_u64 failed - missing end marker"
  | n + 1, i, v, bytes => do
    let (t, rest) ← readByte bytes
    if t < 128 then
      let x ← (t.toUInt64.shlChecked (i * 7) : Option UInt64)
      pure (v ||| x, rest)
    else
      let x ← ((t &&& 127).toUInt64.shlChecked (i * 7) : Option UInt64)
      decodeU64LoopChecked n (i + 1) (v ||| x) rest

/-- `catalog_decode_u64` in a build with overflow checks. -/
def catalogDecodeU64Checked (bytes : List UInt8) : ExceptT String Option (UInt64 × List UInt8) :=
  decodeU64LoopChecked 10 0 0 bytes

/-- The loop of `catalog_decode_i64` in a build with overflow checks: a shift by 64 bits or more
and an `i64` overflow in `(v - 1) as i64 * -1 - 1` panic (`none`). -/
def decodeI64LoopChecked : Nat → Nat → UInt64 → List UInt8 →
    ExceptT String Option (Int64 × List UInt8)
  | 0, _, _, _ => throw "decode_i64 failed - missing end marker"
  | n + 1, i, v, bytes => do
    let (t, rest) ← readByte bytes
    if t = 0 then
      if v = 0 then pure (0, rest)
      else
        let negated ← ((v - 1).toInt64.mulChecked (-1) : Option Int64)
        let r ← (negated.subChecked 1 : Option Int64)
        pure (r, rest)
    else if t < 128 then
      let x ← (t.toUInt64.shlChecked (i * 7) : Option UInt64)
      pure ((v ||| x).toInt64, rest)
    else
      let x ← ((t &&& 127).toUInt64.shlChecked (i * 7) : Option UInt64)
      decodeI64LoopChecked n (i + 1) (v ||| x) rest

/-- `catalog_decode_i64` in a build with overflow checks. -/
def catalogDecodeI64Checked (bytes : List UInt8) : ExceptT String Option (Int64 × List UInt8) :=
  decodeI64LoopChecked 11 0 0 bytes

/-! ## Directory blocks -/

/-- `DirInfo`: a directory whose entries are being collected. -/
structure DirInfo where
  name : List UInt8
  entries : List DirEntry

/-- What `DirInfo::parse` passes its callback for one entry. -/
structure ParsedEntry where
  etype : CatalogEntryType
  name : List UInt8
  offset : UInt64
  size : UInt64
  mtime : Int64

namespace DirInfo

/-- `DirInfo::new`. -/
def new (name : List UInt8) : DirInfo := ⟨name, []⟩

/-- `DirInfo::new_rootdir`. -/
def newRootdir : DirInfo := new ['/'.toUInt8]

/-- An entry goes last (`entries.push`). -/
def push (dir : DirInfo) (entry : DirEntry) : DirInfo := { dir with entries := dir.entries ++ [entry] }

/-- `DirInfo::encode_entry`, for the block of a directory that starts at `pos`: the type byte,
the name with its length, and the fields of the type (for a directory the distance back to its
block). -/
def encodeEntry (entry : DirEntry) (pos : UInt64) : List UInt8 :=
  let head := [entry.attr.entryType.toByte] ++ catalogEncodeU64 (UInt64.ofNat entry.name.length) ++
    entry.name
  match entry.attr with
  | .directory start => head ++ catalogEncodeU64 (pos - start)
  | .file size mtime => head ++ catalogEncodeU64 size ++ catalogEncodeI64 mtime
  | _ => head

/-- The `table` of `DirInfo::encode`: the number of entries, then the entries. -/
def encodeTable (dir : DirInfo) (start : UInt64) : List UInt8 :=
  catalogEncodeU64 (UInt64.ofNat dir.entries.length) ++
    (dir.entries.map fun entry => encodeEntry entry start).flatten

/-- `DirInfo::encode`, for a directory whose block starts at `start`: its name and its block, the
table after its length (writes to a `Vec` do not fail). -/
def encode (dir : DirInfo) (start : UInt64) : List UInt8 × List UInt8 :=
  (dir.name, catalogEncodeU64 (UInt64.ofNat (dir.encodeTable start).length) ++
    dir.encodeTable start)

/-- One entry of the table, as the loop of `DirInfo::parse` reads it. -/
def parseEntry (cursor : List UInt8) : Except String (ParsedEntry × List UInt8) := do
  let (b, cursor) ← readByte cursor
  let etype ← CatalogEntryType.tryFrom b
  let (nameLen, cursor) ← catalogDecodeU64 cursor
  if nameLen.toNat ≥ 4096 then
    throw s!"directory entry name too long ({nameLen.toNat} >= 4096)"
  let (name, cursor) ← readExact nameLen.toNat cursor
  match etype with
  | .directory =>
    let (offset, cursor) ← catalogDecodeU64 cursor
    pure (⟨etype, name, offset, 0, 0⟩, cursor)
  | .file =>
    let (size, cursor) ← catalogDecodeU64 cursor
    let (mtime, cursor) ← catalogDecodeI64 cursor
    pure (⟨etype, name, 0, size, mtime⟩, cursor)
  | _ => pure (⟨etype, name, 0, 0, 0⟩, cursor)

variable {σ : Type}

/-- The loop of `DirInfo::parse` over `n` entries, with the state `s` of the callback's closure:
the state after it, whether the loop ran to its end, and the bytes left. -/
def parseLoop (callback : σ → ParsedEntry → Except String (σ × Bool)) :
    Nat → σ → List UInt8 → Except String (σ × Bool × List UInt8)
  | 0, s, cursor => .ok (s, true, cursor)
  | n + 1, s, cursor => do
    let (entry, cursor) ← parseEntry cursor
    let (s, cont) ← callback s entry
    if cont then parseLoop callback n s cursor else .ok (s, false, cursor)

/-- `DirInfo::parse` of a block with the callback from the state `init`; a callback that stops
the loop skips the check that the whole block was read. -/
def parse (data : List UInt8) (callback : σ → ParsedEntry → Except String (σ × Bool))
    (init : σ) : Except String σ := do
  let (entries, cursor) ← catalogDecodeU64 data
  let (s, finished, cursor) ← parseLoop callback entries.toNat init cursor
  if finished ∧ cursor ≠ [] then throw "unable to parse whole catalog data block"
  pure s

end DirInfo

/-! ## Scalar facts: the byte operations of the varint loops as `Nat` arithmetic -/

theorem and_127 (d : Nat) : d &&& 127 = d % 128 := Nat.and_two_pow_sub_one_eq_mod d 7

theorem or_128 {r : Nat} (h : r < 128) : 128 ||| r = 128 + r := by
  have := Nat.two_pow_add_eq_or_of_lt (i := 7) h 1
  simp only [Nat.mul_one] at this
  exact this.symm

theorem shiftRight_7 (d : Nat) : d >>> 7 = d / 128 := Nat.shiftRight_eq_div_pow d 7

/-- A byte with the high bit set, carrying the seven bits `r`. -/
theorem continuation_byte {r : Nat} (h : r < 128) :
    ¬ UInt8.ofNat (128 + r) < 128 ∧ UInt8.ofNat (128 + r) ≠ 0 ∧
      (UInt8.ofNat (128 + r) &&& 127).toNat = r := by
  have hval : (UInt8.ofNat (128 + r)).toNat = 128 + r := by
    rw [UInt8.toNat_ofNat']
    omega
  refine ⟨?_, ?_, ?_⟩
  · rw [UInt8.lt_iff_toNat_lt, hval]
    simp
  · intro h0
    have := congrArg UInt8.toNat h0
    rw [hval] at this
    simp at this
  · rw [UInt8.toNat_and, hval]
    simp only [UInt8.reduceToNat, and_127]
    omega

/-- The last byte of a varint, carrying the seven bits `d`. -/
theorem last_byte {d : Nat} (h : d < 128) :
    UInt8.ofNat d < 128 ∧ (UInt8.ofNat d).toNat = d := by
  have hval : (UInt8.ofNat d).toNat = d := by
    rw [UInt8.toNat_ofNat']
    omega
  refine ⟨?_, hval⟩
  rw [UInt8.lt_iff_toNat_lt, hval]
  simpa using h

/-- The step of the decoders: seven bits `x` put above the `i * 7` bits read so far. -/
theorem accumulate_toNat {v : UInt64} {x : UInt8} {i : Nat} (hi : i * 7 < 64)
    (hv : v.toNat < 2 ^ (i * 7)) (hlt : v.toNat + x.toNat * 2 ^ (i * 7) < 2 ^ 64) :
    (v ||| (x.toUInt64 <<< (i * 7).toUInt64)).toNat = v.toNat + x.toNat * 2 ^ (i * 7) := by
  have hshift : (i * 7).toUInt64.toNat % 64 = i * 7 := by
    rw [Nat.toUInt64_eq, UInt64.toNat_ofNat']
    omega
  rw [UInt64.toNat_or, UInt64.toNat_shiftLeft, UInt8.toNat_toUInt64, hshift, Nat.shiftLeft_eq,
    Nat.mod_eq_of_lt (by omega), Nat.or_comm, ← Nat.shiftLeft_eq,
    ← Nat.shiftLeft_add_eq_or_of_lt hv, Nat.shiftLeft_eq]
  omega

/-- The encoder's loop, in arithmetic. -/
theorem encodeU64Loop_eq (d : Nat) :
    encodeU64Loop d = if d < 128 then [UInt8.ofNat d]
      else UInt8.ofNat (128 + d % 128) :: encodeU64Loop (d / 128) := by
  rw [encodeU64Loop]
  split
  · simp [Nat.toUInt8_eq]
  · simp [Nat.toUInt8_eq, and_127, or_128 (Nat.mod_lt d (by omega)), shiftRight_7]

theorem encodeI64Loop_eq (negative : Bool) (d : Nat) :
    encodeI64Loop negative d = if d < 128 then
        (if negative then [UInt8.ofNat (128 + d), 0] else [UInt8.ofNat d])
      else UInt8.ofNat (128 + d % 128) :: encodeI64Loop negative (d / 128) := by
  rw [encodeI64Loop]
  split
  · next h => simp [Nat.toUInt8_eq, or_128 h]
  · simp [Nat.toUInt8_eq, and_127, or_128 (Nat.mod_lt d (by omega)), shiftRight_7]

/-- The low seven bits of `d` at weight `P`, and the rest seven bits higher up. -/
theorem mul_eq_low_add_high (d P : Nat) : d * P = d % 128 * P + d / 128 * (128 * P) := by
  conv_lhs => rw [← Nat.mod_add_div d 128]
  ring

theorem two_pow_succ_mul_7 (i : Nat) : 2 ^ ((i + 1) * 7) = 128 * 2 ^ (i * 7) := by
  rw [Nat.add_mul, Nat.one_mul, Nat.pow_add]
  ring

/-- With seven more bits of a value that still fits, the decoder is still below its last
round. -/
theorem succ_mul_7_lt {v d P : Nat} {i : Nat} (hP : P = 2 ^ (i * 7)) (hd : 128 ≤ d)
    (hlt : v + d * P < 2 ^ 64) : (i + 1) * 7 < 64 := by
  have hle : 2 ^ ((i + 1) * 7) ≤ d * P := by
    rw [two_pow_succ_mul_7, ← hP]
    exact Nat.mul_le_mul_right P hd
  have : 2 ^ ((i + 1) * 7) < 2 ^ 64 := by omega
  exact (Nat.pow_lt_pow_iff_right (by norm_num)).mp this

/-- The `u64` decoder reads back what the encoder wrote from `d`, put above the `i * 7` bits `v`
read so far, as long as the whole fits a `u64`. The induction follows the encoder's loop. -/
theorem decodeU64Loop_encode (d : Nat) {n i : Nat} {v : UInt64} (rest : List UInt8)
    (hi : i * 7 < 64) (hn : i + n = 10) (hv : v.toNat < 2 ^ (i * 7))
    (hd : v.toNat + d * 2 ^ (i * 7) < 2 ^ 64) :
    decodeU64Loop n i v (encodeU64Loop d ++ rest) =
      .ok (UInt64.ofNat (v.toNat + d * 2 ^ (i * 7)), rest) := by
  induction d using Nat.strong_induction_on generalizing n i v with
  | _ d ih =>
    obtain ⟨n, rfl⟩ : ∃ m, n = m + 1 := ⟨n - 1, by omega⟩
    rw [encodeU64Loop_eq]
    split
    · -- the last byte
      next hlt =>
      obtain ⟨hbyte, hval⟩ := last_byte hlt
      have hacc := accumulate_toNat (x := UInt8.ofNat d) hi hv (by rw [hval]; exact hd)
      simp only [List.cons_append, List.nil_append, decodeU64Loop, readByte, Except.ok_bind,
        if_pos hbyte]
      congr 2
      apply UInt64.toNat_inj.mp
      rw [hacc, hval, UInt64.toNat_ofNat', Nat.mod_eq_of_lt hd]
    · -- a byte with the high bit set: seven bits, then the rest of the value
      next hge =>
      have hlow := Nat.mod_lt d (show 128 > 0 by norm_num)
      obtain ⟨hbyte, -, hval⟩ := continuation_byte hlow
      have hsplit := mul_eq_low_add_high d (2 ^ (i * 7))
      have hle : d % 128 * 2 ^ (i * 7) ≤ 127 * 2 ^ (i * 7) :=
        Nat.mul_le_mul_right _ (by omega)
      have hacc := accumulate_toNat (x := UInt8.ofNat (128 + d % 128) &&& 127) hi hv
        (by rw [hval]; omega)
      have hi' := succ_mul_7_lt rfl (by omega) hd
      have hstep := ih (d / 128) (by omega) (n := n) (v := v ||| ((UInt8.ofNat (128 + d % 128) &&& 127).toUInt64 <<< (i * 7).toUInt64)) hi' (by omega)
        (by rw [hacc, hval, two_pow_succ_mul_7]; omega)
        (by rw [hacc, hval, two_pow_succ_mul_7]; omega)
      simp only [List.cons_append, decodeU64Loop, readByte, Except.ok_bind, if_neg hbyte]
      rw [hstep, hacc, hval, two_pow_succ_mul_7, hsplit, Nat.add_assoc]

theorem catalogDecodeU64_encode (v : UInt64) (rest : List UInt8) :
    catalogDecodeU64 (catalogEncodeU64 v ++ rest) = .ok (v, rest) := by
  have h := decodeU64Loop_encode v.toNat rest (n := 10) (i := 0) (v := 0) (by norm_num)
    (by norm_num) (by simp) (by simpa using v.toNat_lt)
  simpa [catalogDecodeU64, catalogEncodeU64] using h

/-- The value the `i64` decoder returns for the bits `x`: negated after the zero byte that marks a
negative value. -/
def decodedI64 (negative : Bool) (x : UInt64) : Int64 :=
  if negative then ((x - 1).toInt64 * -1) - 1 else x.toInt64

/-- The `i64` decoder reads back what the encoder wrote from the magnitude `d`, put above the
`i * 7` bits `v` read so far, as long as the whole fits a `u64`. A zero magnitude is only
written first, for the value zero. -/
theorem decodeI64Loop_encode (negative : Bool) (d : Nat) {n i : Nat} {v : UInt64}
    (rest : List UInt8) (hi : i * 7 < 64) (hn : i + n = 11) (hv : v.toNat < 2 ^ (i * 7))
    (hd : v.toNat + d * 2 ^ (i * 7) < 2 ^ 64) (hzero : 0 < d ∨ v = 0 ∧ negative = false) :
    decodeI64Loop n i v (encodeI64Loop negative d ++ rest) =
      .ok (decodedI64 negative (UInt64.ofNat (v.toNat + d * 2 ^ (i * 7))), rest) := by
  induction d using Nat.strong_induction_on generalizing n i v with
  | _ d ih =>
    obtain ⟨n, rfl⟩ : ∃ m, n = m + 1 := ⟨n - 1, by omega⟩
    have hsum : UInt64.ofNat (v.toNat + d * 2 ^ (i * 7)) = 0 ↔ v = 0 ∧ d = 0 := by
      rw [← UInt64.toNat_inj, UInt64.toNat_ofNat', Nat.mod_eq_of_lt hd, ← UInt64.toNat_inj]
      simp
    rw [encodeI64Loop_eq]
    split
    · next hlt =>
      cases negative with
      | false =>
        -- the last byte of a value that is not negative
        obtain ⟨hbyte, hval⟩ := last_byte hlt
        simp only [Bool.false_eq_true, if_false, List.cons_append, List.nil_append,
          decodeI64Loop, readByte, Except.ok_bind]
        split
        · next ht0 =>
          -- only the value zero ends with a zero byte
          have hd0 : d = 0 := by
            have := congrArg UInt8.toNat ht0
            rw [hval] at this
            simpa using this
          have hv0 : v = 0 := by
            rcases hzero with h | h
            · omega
            · exact h.1
          subst hd0 hv0
          simp [decodedI64]
        · have hacc := accumulate_toNat (x := UInt8.ofNat d) hi hv (by rw [hval]; exact hd)
          have hx : v ||| ((UInt8.ofNat d).toUInt64 <<< (i * 7).toUInt64) =
              UInt64.ofNat (v.toNat + d * 2 ^ (i * 7)) := by
            apply UInt64.toNat_inj.mp
            rw [hacc, hval, UInt64.toNat_ofNat', Nat.mod_eq_of_lt hd]
          rw [hx]
          rfl
      | true =>
        -- the last seven bits, then the zero byte that marks a negative value
        obtain ⟨hbyte, hne, hval⟩ := continuation_byte hlt
        have hacc := accumulate_toNat (x := UInt8.ofNat (128 + d) &&& 127) hi hv
          (by rw [hval]; exact hd)
        have hx : v ||| ((UInt8.ofNat (128 + d) &&& 127).toUInt64 <<< (i * 7).toUInt64) =
            UInt64.ofNat (v.toNat + d * 2 ^ (i * 7)) := by
          apply UInt64.toNat_inj.mp
          rw [hacc, hval, UInt64.toNat_ofNat', Nat.mod_eq_of_lt hd]
        have hd0 : 0 < d := by
          rcases hzero with h | h
          · exact h
          · cases h.2
        have hx0 : ¬ UInt64.ofNat (v.toNat + d * 2 ^ (i * 7)) = 0 := fun h => by
          have := hsum.mp h
          omega
        obtain ⟨n, rfl⟩ : ∃ m, n = m + 1 := ⟨n - 1, by omega⟩
        simp only [List.cons_append, List.nil_append, decodeI64Loop, readByte, Except.ok_bind,
          if_neg hne, if_neg hbyte, hx, if_pos, if_neg hx0]
        rfl
    · -- a byte with the high bit set: seven bits, then the rest of the value
      next hge =>
      have hlow := Nat.mod_lt d (show 128 > 0 by norm_num)
      obtain ⟨hbyte, hne, hval⟩ := continuation_byte hlow
      have hsplit := mul_eq_low_add_high d (2 ^ (i * 7))
      have hle : d % 128 * 2 ^ (i * 7) ≤ 127 * 2 ^ (i * 7) :=
        Nat.mul_le_mul_right _ (by omega)
      have hacc := accumulate_toNat (x := UInt8.ofNat (128 + d % 128) &&& 127) hi hv
        (by rw [hval]; omega)
      have hi' := succ_mul_7_lt rfl (by omega) hd
      have hstep := ih (d / 128) (by omega) (n := n)
        (v := v ||| ((UInt8.ofNat (128 + d % 128) &&& 127).toUInt64 <<< (i * 7).toUInt64)) hi'
        (by omega) (by rw [hacc, hval, two_pow_succ_mul_7]; omega)
        (by rw [hacc, hval, two_pow_succ_mul_7]; omega) (.inl (by omega))
      simp only [List.cons_append, decodeI64Loop, readByte, Except.ok_bind, if_neg hne,
        if_neg hbyte]
      rw [hstep, hacc, hval, two_pow_succ_mul_7, hsplit, Nat.add_assoc]

theorem toInt_decodedI64_false {d : Nat} (h : d < 2 ^ 63) :
    (decodedI64 false (UInt64.ofNat d)).toInt = d := by
  simp only [decodedI64, Bool.false_eq_true, if_false, UInt64.toInt64_ofNat',
    Int64.toInt_ofNat']
  apply Int.bmod_eq_of_le
  · simp [Int64.size]
  · simp [Int64.size]
    omega

/-- The negation at the zero byte: `((v - 1) as i64 * -1) - 1` is `-v` without overflow, for
`v` up to `2 ^ 63` (`i64::MIN`). -/
theorem toInt_decodedI64_true {d : Nat} (h1 : 1 ≤ d) (h2 : d ≤ 2 ^ 63) :
    (decodedI64 true (UInt64.ofNat d)).toInt = -d := by
  have hle : (1 : UInt64) ≤ UInt64.ofNat d := by
    rw [UInt64.le_iff_toNat_le, UInt64.toNat_ofNat']
    simp
    omega
  have hsub : UInt64.ofNat d - 1 = UInt64.ofNat (d - 1) := by
    apply UInt64.toNat_inj.mp
    rw [UInt64.toNat_sub_of_le _ _ hle, UInt64.toNat_ofNat', UInt64.toNat_ofNat']
    simp
    omega
  have hneg : (-1 : Int64).toInt = -1 := by decide
  have hd1 : (((d - 1 : Nat) : Int)).bmod Int64.size = (d - 1 : Nat) := by
    apply Int.bmod_eq_of_le
    · simp [Int64.size]
    · simp [Int64.size]
      omega
  simp only [decodedI64, if_true, hsub, UInt64.toInt64_ofNat', Int64.toInt_sub, Int64.toInt_mul,
    Int64.toInt_ofNat', hd1, hneg, Int64.toInt_one]
  have hmul : (((d - 1 : Nat) : Int) * -1).bmod (2 ^ 64) = ((d - 1 : Nat) : Int) * -1 :=
    Int.bmod_eq_of_le (by norm_num; omega) (by norm_num; omega)
  rw [hmul, Int.bmod_eq_of_le (by norm_num; omega) (by norm_num)]
  omega

theorem catalogDecodeI64_encode (v : Int64) (rest : List UInt8) :
    catalogDecodeI64 (catalogEncodeI64 v ++ rest) = .ok (v, rest) := by
  have hlo := v.le_toInt
  have hhi := v.toInt_lt
  unfold catalogDecodeI64 catalogEncodeI64
  by_cases hneg : v.toInt < 0
  · -- a negative value: its magnitude, then the zero byte
    have h := decodeI64Loop_encode true ((-1 * (v.toInt + 1)).toNat + 1) rest (n := 11) (i := 0)
      (v := 0) (by norm_num) (by norm_num) (by simp) (by simp; omega) (.inl (by omega))
    simp only [hneg, if_true, decide_true, h, UInt64.toNat_zero, Nat.zero_add, Nat.zero_mul,
      pow_zero, Nat.mul_one]
    congr 2
    apply Int64.toInt_inj.mp
    rw [toInt_decodedI64_true (by omega) (by omega)]
    omega
  · have h := decodeI64Loop_encode false v.toInt.toNat rest (n := 11) (i := 0) (v := 0)
      (by norm_num) (by norm_num) (by simp)
      (by simp only [UInt64.toNat_zero, Nat.zero_add, Nat.zero_mul, pow_zero, Nat.mul_one]; omega)
      (by rcases Nat.eq_zero_or_pos v.toInt.toNat with h0 | h0 <;> simp_all)
    simp only [hneg, if_false, decide_false, h, UInt64.toNat_zero, Nat.zero_add, Nat.zero_mul,
      pow_zero, Nat.mul_one]
    congr 2
    apply Int64.toInt_inj.mp
    rw [toInt_decodedI64_false (by omega)]
    omega

/-- A `u64` varint is an `i64` varint of a value that is not negative. -/
theorem encodeI64Loop_false (d : Nat) : encodeI64Loop false d = encodeU64Loop d := by
  induction d using Nat.strong_induction_on with
  | _ d ih =>
    rw [encodeI64Loop_eq, encodeU64Loop_eq]
    split
    · rfl
    · next hge => rw [ih (d / 128) (by omega)]

/-- The `i64` decoder reads a `u64` varint as the value cast to `i64`. -/
theorem catalogDecodeI64_encodeU64 (v : UInt64) (rest : List UInt8) :
    catalogDecodeI64 (catalogEncodeU64 v ++ rest) = .ok (v.toInt64, rest) := by
  have h := decodeI64Loop_encode false v.toNat rest (n := 11) (i := 0) (v := 0) (by norm_num)
    (by norm_num) (by simp) (by simpa using v.toNat_lt) (.inr ⟨rfl, rfl⟩)
  simpa [catalogDecodeI64, catalogEncodeU64, ← encodeI64Loop_false, decodedI64] using h

/-- The two varint codecs read back what they write, with the bytes after the varint left
unread; and the `i64` decoder reads a `u64` varint below `2 ^ 63` as that value. -/
theorem catalog_varints_decode_encoded :
    (∀ (v : UInt64) (rest : List UInt8),
      catalogDecodeU64 (catalogEncodeU64 v ++ rest) = .ok (v, rest)) ∧
    (∀ (v : Int64) (rest : List UInt8),
      catalogDecodeI64 (catalogEncodeI64 v ++ rest) = .ok (v, rest)) ∧
    (∀ (v : UInt64) (rest : List UInt8), v.toNat < 2 ^ 63 →
      ∃ x : Int64, catalogDecodeI64 (catalogEncodeU64 v ++ rest) = .ok (x, rest) ∧
        x.toInt = v.toNat) := by
  refine ⟨catalogDecodeU64_encode, catalogDecodeI64_encode, ?_⟩
  intro v rest hv
  refine ⟨v.toInt64, catalogDecodeI64_encodeU64 v rest, ?_⟩
  have h := toInt_decodedI64_false hv
  rwa [UInt64.ofNat_toNat] at h

theorem catalog_varints_decode_encoded_at_300 :
    (300 : UInt64).toNat < 2 ^ 63 ∧
      ∃ x : Int64, catalogDecodeI64 (catalogEncodeU64 300 ++ []) = .ok (x, []) ∧
        x.toInt = (300 : UInt64).toNat :=
  ⟨by decide, catalog_varints_decode_encoded.2.2 300 [] (by decide)⟩

/-! ## The decoders on any input, with overflow checks

Where the checked decoders do not panic, they return what the decoders of a build without the
checks return. The `u64` decoder never panics: its ten rounds shift by at most 63 bits. The
`i64` decoder panics on inputs the encoder never writes. -/

theorem decodeU64LoopChecked_run (n : Nat) :
    ∀ (i : Nat) (v : UInt64) (bytes : List UInt8), i + n ≤ 10 →
      (decodeU64LoopChecked n i v bytes).run = some (decodeU64Loop n i v bytes) := by
  induction n with
  | zero =>
    intro i v bytes _
    rfl
  | succ n ih =>
    intro i v bytes hn
    have hshift := UInt64.shlChecked_of_lt (show i * 7 < 64 by omega)
    cases bytes with
    | nil => rfl
    | cons t rest =>
      rw [decodeU64LoopChecked, readByte_cons, ExceptT.liftM_ok_bind]
      rw [decodeU64Loop, readByte_cons, Except.ok_bind]
      dsimp only
      by_cases ht : t < 128
      · rw [if_pos ht, if_pos ht, hshift, ExceptT.liftM_some_bind]
        rfl
      · rw [if_neg ht, if_neg ht, hshift, ExceptT.liftM_some_bind]
        exact ih (i + 1) _ rest (by omega)

/-- `catalog_decode_u64` never overflows. -/
theorem catalogDecodeU64Checked_run (bytes : List UInt8) :
    (catalogDecodeU64Checked bytes).run = some (catalogDecodeU64 bytes) :=
  decodeU64LoopChecked_run 10 0 0 bytes (by norm_num)

theorem decodeI64LoopChecked_run (n : Nat) :
    ∀ (i : Nat) (v : UInt64) (bytes : List UInt8) (r : Except String (Int64 × List UInt8)),
      (decodeI64LoopChecked n i v bytes).run = some r → decodeI64Loop n i v bytes = r := by
  induction n with
  | zero =>
    intro i v bytes r h
    cases h
    rfl
  | succ n ih =>
    intro i v bytes r h
    cases bytes with
    | nil =>
      cases h
      rfl
    | cons t rest =>
      rw [decodeI64LoopChecked, readByte_cons, ExceptT.liftM_ok_bind] at h
      rw [decodeI64Loop, readByte_cons, Except.ok_bind]
      dsimp only at h ⊢
      by_cases h0 : t = 0
      · rw [if_pos h0] at h ⊢
        by_cases hv : v = 0
        · rw [if_pos hv] at h ⊢
          simpa using h
        · -- the negation, checked twice
          rw [if_neg hv] at h ⊢
          obtain ⟨negated, hmul, h⟩ := ExceptT.run_liftM_bind_eq_some.mp h
          obtain ⟨r', hsub, h⟩ := ExceptT.run_liftM_bind_eq_some.mp h
          obtain ⟨-, rfl⟩ := Int64.mulChecked_eq_some.mp hmul
          obtain ⟨-, rfl⟩ := Int64.subChecked_eq_some.mp hsub
          simpa using h
      · rw [if_neg h0] at h ⊢
        by_cases ht : t < 128
        · rw [if_pos ht] at h ⊢
          obtain ⟨x, hx, h⟩ := ExceptT.run_liftM_bind_eq_some.mp h
          obtain ⟨-, rfl⟩ := UInt64.shlChecked_eq_some.mp hx
          simpa using h
        · rw [if_neg ht] at h ⊢
          obtain ⟨x, hx, h⟩ := ExceptT.run_liftM_bind_eq_some.mp h
          obtain ⟨-, rfl⟩ := UInt64.shlChecked_eq_some.mp hx
          exact ih _ _ _ _ h

/-- Where the checked `catalog_decode_i64` does not panic, it returns what the unchecked one
returns. -/
theorem catalogDecodeI64Checked_run {bytes : List UInt8} {r : Except String (Int64 × List UInt8)}
    (h : (catalogDecodeI64Checked bytes).run = some r) : catalogDecodeI64 bytes = r :=
  decodeI64LoopChecked_run 11 0 0 bytes r h

/-- Ten bytes with the high bit set and no bits, then the byte `1`: the `i64` decoder reaches
its eleventh round. -/
def eleventhRoundInput : List UInt8 := List.replicate 10 0x80 ++ [1]

/-- The bits of `2 ^ 63 + 1`, then the zero byte of a negative value: `(v - 1) as i64` is
`i64::MIN`. -/
def minNegationInput : List UInt8 := [0x81] ++ List.replicate 8 0x80 ++ [0x81, 0]

/-- `catalog_decode_i64` overflows on two inputs. On `eleventhRoundInput` it shifts the last byte
by 70 bits: a build with overflow checks panics, one without shifts by 6 and returns 64. On
`minNegationInput` it negates `i64::MIN`: a build with overflow checks panics, one without
returns `i64::MAX` for a value the bytes mark as negative. -/
theorem catalogDecodeI64_overflows :
    (catalogDecodeI64Checked eleventhRoundInput).run = none ∧
      catalogDecodeI64 eleventhRoundInput = .ok (64, []) ∧
    (catalogDecodeI64Checked minNegationInput).run = none ∧
      catalogDecodeI64 minNegationInput = .ok (9223372036854775807, []) := by
  refine ⟨?_, ?_, ?_, ?_⟩ <;> decide +kernel

/-! ## Directory blocks read back -/

theorem readExact_append (l rest : List UInt8) :
    readExact l.length (l ++ rest) = .ok (l, rest) := by
  simp [readExact]

theorem CatalogEntryType.tryFrom_toByte (t : CatalogEntryType) : tryFrom t.toByte = .ok t := by
  cases t <;> rfl

/-- What `parse` hands its callback for an entry `encode_entry` wrote into the block at
`pos`. -/
def DirEntry.parsedAt (entry : DirEntry) (pos : UInt64) : ParsedEntry :=
  match entry.attr with
  | .directory start => ⟨.directory, entry.name, pos - start, 0, 0⟩
  | .file size mtime => ⟨.file, entry.name, 0, size, mtime⟩
  | attr => ⟨attr.entryType, entry.name, 0, 0, 0⟩

/-- `DirEntry::new` of what `parse` hands on, with the directory's start `pos - offset` as
`read_dir` computes it, is the entry written: the distance back undoes itself in `u64`
arithmetic. -/
theorem DirEntry.new_parsedAt (entry : DirEntry) (pos : UInt64) :
    DirEntry.new (entry.parsedAt pos).etype (entry.parsedAt pos).name
      (pos - (entry.parsedAt pos).offset) (entry.parsedAt pos).size (entry.parsedAt pos).mtime =
      entry := by
  obtain ⟨name, attr⟩ := entry
  cases attr with
  | directory start => simp [parsedAt, DirEntry.new, sub_sub_cancel]
  | _ => rfl

namespace DirInfo

/-- An entry `encode_entry` wrote, with a name shorter than the reader's buffer, reads back as
itself. -/
theorem parseEntry_encodeEntry (entry : DirEntry) (pos : UInt64)
    (hname : entry.name.length < 4096) (rest : List UInt8) :
    parseEntry (encodeEntry entry pos ++ rest) = .ok (entry.parsedAt pos, rest) := by
  have hlen : (UInt64.ofNat entry.name.length).toNat = entry.name.length := by
    rw [UInt64.toNat_ofNat']
    omega
  have hshort : ¬ 4096 ≤ entry.name.length := by omega
  obtain ⟨name, attr⟩ := entry
  cases attr <;>
    simp only at hlen hshort <;>
    simp [encodeEntry, parseEntry, CatalogEntryType.tryFrom_toByte, catalogDecodeU64_encode,
      catalogDecodeI64_encode, hshort, hlen, readExact_append, DirEntry.parsedAt,
      DirEntryAttribute.entryType]

variable {σ : Type}

/-- The loop of `parse` over entries that `encode_entry` wrote, with a callback that always
goes on, hands the callback those entries in order. -/
theorem parseLoop_encode (f : σ → ParsedEntry → σ) (entries : List DirEntry) (pos : UInt64)
    (hnames : ∀ e ∈ entries, e.name.length < 4096) (s : σ) (rest : List UInt8) :
    parseLoop (fun s p => .ok (f s p, true)) entries.length s
        ((entries.map fun e => encodeEntry e pos).flatten ++ rest) =
      .ok ((entries.map fun e => e.parsedAt pos).foldl f s, true, rest) := by
  induction entries generalizing s with
  | nil => rfl
  | cons e entries ih =>
    have hrest := ih (fun e he => hnames e (List.mem_cons_of_mem _ he)) (f s (e.parsedAt pos))
    simp only [List.map_cons, List.flatten_cons, List.append_assoc, List.length_cons, parseLoop,
      parseEntry_encodeEntry e pos (hnames e List.mem_cons_self), Except.ok_bind, if_true]
    rw [hrest]
    rfl

/-- `parse` of a table `encode` wrote, with a callback that always goes on, hands the callback
the directory's entries in order. -/
theorem parse_encode (f : σ → ParsedEntry → σ) (dir : DirInfo) (start : UInt64)
    (hnames : ∀ e ∈ dir.entries, e.name.length < 4096) (hcount : dir.entries.length < 2 ^ 64)
    (s : σ) :
    parse (dir.encodeTable start) (fun s p => .ok (f s p, true)) s =
      .ok ((dir.entries.map fun e => e.parsedAt start).foldl f s) := by
  have hcount' : (UInt64.ofNat dir.entries.length).toNat = dir.entries.length := by
    rw [UInt64.toNat_ofNat', Nat.mod_eq_of_lt hcount]
  have hloop := parseLoop_encode f dir.entries start hnames s []
  rw [List.append_nil] at hloop
  simp [parse, encodeTable, catalogDecodeU64_encode, hcount', hloop]

end DirInfo

end ProxmoxBackup
