import ProxmoxBackup.Foundations.Slice
import ProxmoxBackup.Foundations.Except

/-!
# Element status pages of a tape changer (`pbs-tape/src/sg_pt_changer.rs`)

A changer reports its elements (transports, storage slots, import/export slots, drives) in
answer to READ ELEMENT STATUS. The page has three levels of lengths: an 8-byte header whose
3-byte count bounds the report, subheaders whose own 3-byte count is clamped to what is left,
and inside each subheader descriptors of `descriptor_length` bytes, a trailing partial descriptor
being dropped. A descriptor starts with the element address, a full flag and, when the
subheader's PVolTag flag is set, a 36-byte volume tag. `decode_element_status_page` decodes one
page; `get_element` sends READ ELEMENT STATUS commands for 1000 elements at a time, starting the
next one after the last address the device reported.

A computation that can fail and can also panic is an `ExceptT String Option`: `none` is the panic
of `chunks_exact(0)` or of slicing past the end. `String::from_utf8_lossy` is an argument.

* `decodeElementStatusPage_ne_none`: the decoder never panics, on any bytes.
* `decodeElementStatusPage_encode`: on a page built from element blocks with consistent byte
  counts (`StatusPage.encode`), the decoder returns each type's descriptors in order, with their
  addresses and statuses, and the address of the last descriptor.
* `getElementRun_eq_done`: while the device never reports `0xFFFF` as the last address of a
  full batch, `get_element` ends within 65536 commands, without panicking.
* `getElement_wraps_and_never_ends`: a device that answers every command with a full batch of
  elements at address `0xFFFF` makes the next start address `0xFFFF + 1` overflow; it wraps to
  0 and `get_element` sends commands forever.
-/

namespace ProxmoxBackup.Tape

open Slice

/-! ## The page's records -/

/-- `SCSI_VOLUME_TAG_LEN`. -/
def scsiVolumeTagLen : Nat := 36

/-- `ElementStatus`. -/
inductive ElementStatus
  | empty
  | full
  | volumeTag (tag : String)
  deriving DecidableEq

/-- `TransportElementStatus`. -/
structure TransportElementStatus where
  status : ElementStatus
  elementAddress : UInt16
  deriving DecidableEq

/-- `StorageElementStatus`. -/
structure StorageElementStatus where
  importExport : Bool
  status : ElementStatus
  elementAddress : UInt16
  deriving DecidableEq

/-- `DriveStatus`. -/
structure DriveStatus where
  loadedSlot : Option Nat
  status : ElementStatus
  driveSerialNumber : Option String
  vendor : Option String
  model : Option String
  elementAddress : UInt16
  deriving DecidableEq

/-- `DecodedStatusPage`. -/
structure DecodedStatusPage where
  lastElementAddress : Option UInt16
  transports : List TransportElementStatus
  drives : List DriveStatus
  storageSlots : List StorageElementStatus
  importExportSlots : List StorageElementStatus
  deriving DecidableEq

/-- The page both functions start from: nothing decoded yet. -/
def DecodedStatusPage.empty : DecodedStatusPage := ⟨none, [], [], [], []⟩

/-- `create_element_status`. -/
def createElementStatus (full : Bool) (volumeTag : Option String) : ElementStatus :=
  if full then
    match volumeTag with
    | some volumeTag => .volumeTag volumeTag
    | none => .full
  else .empty

/-- `char::is_whitespace`: the characters of Unicode's `White_Space` property. -/
def isWhitespace (c : Char) : Bool :=
  let n := c.toNat
  (9 ≤ n && n ≤ 13) || n = 32 || n = 0x85 || n = 0xA0 || n = 0x1680 ||
    (0x2000 ≤ n && n ≤ 0x200A) || n = 0x2028 || n = 0x2029 || n = 0x202F || n = 0x205F ||
    n = 0x3000

/-- `scsi_ascii_to_string`: the bytes as text, without NUL characters at either end, then
without white space at either end. -/
def scsiAsciiToString (fromUtf8Lossy : List UInt8 → String) (data : List UInt8) : String :=
  String.ofList (trimMatches isWhitespace (trimMatches (· = Char.ofNat 0) (fromUtf8Lossy data).toList))

/-! ## The headers, as `read_be_value` reads them -/

/-- The big-endian number in `len` bytes of `bytes` from `start` on. -/
def beField (bytes : List UInt8) (start len : Nat) : Nat :=
  BigEndian.ofBytes ((bytes.drop start).take len)

/-- `ElementStatusHeader`: 8 bytes, of which the decoder reads these. -/
structure ElementStatusHeader where
  firstElementAddressReported : UInt16
  numberOfElementsAvailable : UInt16
  byteCountOfReportAvailable : Nat

def ElementStatusHeader.ofBytes (bytes : List UInt8) : ElementStatusHeader :=
  ⟨UInt16.ofNat (beField bytes 0 2), UInt16.ofNat (beField bytes 2 2), beField bytes 5 3⟩

/-- `SubHeader`: 8 bytes, of which the decoder reads these. -/
structure SubHeader where
  elementTypeCode : UInt8
  flags : UInt8
  descriptorLength : UInt16
  byteCountOfDescriptorDataAvailable : Nat

def SubHeader.ofBytes (bytes : List UInt8) : SubHeader :=
  ⟨bytes.getD 0 0, bytes.getD 1 0, UInt16.ofNat (beField bytes 2 2), beField bytes 5 3⟩

/-- The size of `TransportDescriptor`, `StorageDescriptor` and `TransferDescriptor`. -/
def descriptorSize : Nat := 12

/-- The fields of the three descriptor structures the decoder reads. They lie at the same
offsets in all three: the element address, `flags1`, `flags2` and the source storage element
address. -/
structure ElementDescriptor where
  elementAddress : UInt16
  flags1 : UInt8
  flags2 : UInt8
  sourceStorageElementAddress : UInt16

def ElementDescriptor.ofBytes (bytes : List UInt8) : ElementDescriptor :=
  ⟨UInt16.ofNat (beField bytes 0 2), bytes.getD 2 0, bytes.getD 9 0,
    UInt16.ofNat (beField bytes 10 2)⟩

/-- `DvcidInfo`. -/
structure DvcidInfo where
  vendor : Option String
  model : Option String
  serial : Option String

/-! ### The bytes of the headers

Not in the source: the bytes a device sends for given header fields, and the round trips through
`read_be_value` that the statements about well-formed pages rest on. -/

def ElementStatusHeader.toBytes (head : ElementStatusHeader) : List UInt8 :=
  BigEndian.toBytes 2 head.firstElementAddressReported.toNat ++
    BigEndian.toBytes 2 head.numberOfElementsAvailable.toNat ++ [0] ++
    BigEndian.toBytes 3 head.byteCountOfReportAvailable

def SubHeader.toBytes (subhead : SubHeader) : List UInt8 :=
  [subhead.elementTypeCode, subhead.flags] ++ BigEndian.toBytes 2 subhead.descriptorLength.toNat ++
    [0] ++ BigEndian.toBytes 3 subhead.byteCountOfDescriptorDataAvailable

def ElementDescriptor.toBytes (desc : ElementDescriptor) : List UInt8 :=
  BigEndian.toBytes 2 desc.elementAddress.toNat ++ [desc.flags1, 0, 0, 0, 0, 0, 0, desc.flags2] ++
    BigEndian.toBytes 2 desc.sourceStorageElementAddress.toNat

@[simp] theorem ElementStatusHeader.length_toBytes (head : ElementStatusHeader) :
    head.toBytes.length = 8 := by
  simp [toBytes]

@[simp] theorem SubHeader.length_toBytes (subhead : SubHeader) : subhead.toBytes.length = 8 := by
  simp [toBytes]

@[simp] theorem ElementDescriptor.length_toBytes (desc : ElementDescriptor) :
    desc.toBytes.length = descriptorSize := by
  simp [toBytes, descriptorSize]

/-- A `u16` written big-endian reads back. -/
theorem ofNat_ofBytes_toBytes (x : UInt16) :
    UInt16.ofNat (BigEndian.ofBytes (BigEndian.toBytes 2 x.toNat)) = x := by
  rw [BigEndian.ofBytes_toBytes_of_lt (by simpa using x.toNat_lt), UInt16.ofNat_toNat]

theorem ElementStatusHeader.ofBytes_toBytes {head : ElementStatusHeader}
    (hcount : head.byteCountOfReportAvailable < 2 ^ 24) : ofBytes head.toBytes = head := by
  obtain ⟨a₀, a₁, ha⟩ := List.length_eq_two.mp
    (BigEndian.length_toBytes 2 head.firstElementAddressReported.toNat)
  obtain ⟨b₀, b₁, hb⟩ := List.length_eq_two.mp
    (BigEndian.length_toBytes 2 head.numberOfElementsAvailable.toNat)
  obtain ⟨c₀, c₁, c₂, hc⟩ := List.length_eq_three.mp
    (BigEndian.length_toBytes 3 head.byteCountOfReportAvailable)
  have hfirst := ofNat_ofBytes_toBytes head.firstElementAddressReported
  have hnumber := ofNat_ofBytes_toBytes head.numberOfElementsAvailable
  have hbytes := @BigEndian.ofBytes_toBytes_of_lt 3 _ hcount
  rw [ha] at hfirst
  rw [hb] at hnumber
  rw [hc] at hbytes
  simp [ofBytes, toBytes, ha, hb, hc, beField, hfirst, hnumber, hbytes]

theorem SubHeader.ofBytes_toBytes {subhead : SubHeader}
    (hcount : subhead.byteCountOfDescriptorDataAvailable < 2 ^ 24) :
    ofBytes subhead.toBytes = subhead := by
  obtain ⟨a₀, a₁, ha⟩ := List.length_eq_two.mp
    (BigEndian.length_toBytes 2 subhead.descriptorLength.toNat)
  obtain ⟨c₀, c₁, c₂, hc⟩ := List.length_eq_three.mp
    (BigEndian.length_toBytes 3 subhead.byteCountOfDescriptorDataAvailable)
  have hlength := ofNat_ofBytes_toBytes subhead.descriptorLength
  have hbytes := @BigEndian.ofBytes_toBytes_of_lt 3 _ hcount
  rw [ha] at hlength
  rw [hc] at hbytes
  simp [ofBytes, toBytes, ha, hc, beField, hlength, hbytes]

theorem ElementDescriptor.ofBytes_toBytes (desc : ElementDescriptor) :
    ofBytes desc.toBytes = desc := by
  obtain ⟨a₀, a₁, ha⟩ := List.length_eq_two.mp
    (BigEndian.length_toBytes 2 desc.elementAddress.toNat)
  obtain ⟨b₀, b₁, hb⟩ := List.length_eq_two.mp
    (BigEndian.length_toBytes 2 desc.sourceStorageElementAddress.toNat)
  have haddress := ofNat_ofBytes_toBytes desc.elementAddress
  have hsource := ofNat_ofBytes_toBytes desc.sourceStorageElementAddress
  rw [ha] at haddress
  rw [hb] at hsource
  simp [ofBytes, toBytes, ha, hb, beField, haddress, hsource]

/-! ### Well-formed pages -/

/-- A descriptor of a well-formed page: the fields the decoder reads, the primary volume tag
(written when the block's PVolTag flag is set), and the bytes after it. -/
structure PageDescriptor where
  desc : ElementDescriptor
  volumeTag : List UInt8
  trailer : List UInt8

def PageDescriptor.encode (pvolTag : Bool) (d : PageDescriptor) : List UInt8 :=
  d.desc.toBytes ++ (if pvolTag then d.volumeTag else []) ++ d.trailer

/-- The descriptors of one element type, after a subheader. -/
structure PageBlock where
  elementTypeCode : UInt8
  pvolTag : Bool
  descriptorLength : Nat
  descriptors : List PageDescriptor

/-- The PVolTag flag, and no AVolTag. -/
def PageBlock.flags (b : PageBlock) : UInt8 := if b.pvolTag then 128 else 0

def PageBlock.data (b : PageBlock) : List UInt8 :=
  (b.descriptors.map (PageDescriptor.encode b.pvolTag)).flatten

def PageBlock.subHeader (b : PageBlock) : SubHeader :=
  ⟨b.elementTypeCode, b.flags, UInt16.ofNat b.descriptorLength, b.data.length⟩

def PageBlock.encode (b : PageBlock) : List UInt8 := b.subHeader.toBytes ++ b.data

@[simp] theorem PageBlock.elementTypeCode_subHeader (b : PageBlock) :
    b.subHeader.elementTypeCode = b.elementTypeCode := rfl

/-- A block whose byte counts are consistent: an element type the decoder knows, a positive
descriptor length that fits a `u16` and that every descriptor has, a 36-byte tag where the
flag asks for one, and descriptor data whose length fits the 3-byte count. -/
structure PageBlock.WellFormed (b : PageBlock) : Prop where
  elementTypeCode_pos : 0 < b.elementTypeCode.toNat
  elementTypeCode_le : b.elementTypeCode.toNat ≤ 4
  descriptorLength_pos : 0 < b.descriptorLength
  descriptorLength_lt : b.descriptorLength < 2 ^ 16
  volumeTag_length : ∀ d ∈ b.descriptors, b.pvolTag → d.volumeTag.length = scsiVolumeTagLen
  encode_length : ∀ d ∈ b.descriptors, (d.encode b.pvolTag).length = b.descriptorLength
  data_length_lt : b.data.length < 2 ^ 24

/-- A page: the header's fields and its blocks. -/
structure StatusPage where
  firstElementAddressReported : UInt16
  numberOfElementsAvailable : UInt16
  blocks : List PageBlock

def StatusPage.body (p : StatusPage) : List UInt8 := (p.blocks.map PageBlock.encode).flatten

def StatusPage.encode (p : StatusPage) : List UInt8 :=
  ElementStatusHeader.toBytes ⟨p.firstElementAddressReported, p.numberOfElementsAvailable,
    p.body.length⟩ ++ p.body

/-- A page that answers a command from `startElementAddress` with consistent byte counts. -/
structure StatusPage.WellFormed (p : StatusPage) (startElementAddress : UInt16) : Prop where
  blocks : ∀ b ∈ p.blocks, b.WellFormed
  numberOfElementsAvailable_ne : p.numberOfElementsAvailable ≠ 0
  start_le : startElementAddress ≤ p.firstElementAddressReported
  body_length_lt : p.body.length < 2 ^ 24

/-- A descriptor with the element type and the PVolTag flag of its block. -/
structure PageEntry where
  elementTypeCode : UInt8
  pvolTag : Bool
  descriptor : PageDescriptor

def PageBlock.entries (b : PageBlock) : List PageEntry :=
  b.descriptors.map (⟨b.elementTypeCode, b.pvolTag, ·⟩)

def StatusPage.entries (p : StatusPage) : List PageEntry := p.blocks.flatMap PageBlock.entries

def PageEntry.elementAddress (e : PageEntry) : UInt16 := e.descriptor.desc.elementAddress

/-- A transfer element's source slot, valid when `flags2` has SValid. -/
def PageEntry.loadedSlot (e : PageEntry) : Option Nat :=
  if e.descriptor.desc.flags2 &&& 128 ≠ 0 then some e.descriptor.desc.sourceStorageElementAddress.toNat
  else none

section Decode

variable (fromUtf8Lossy : List UInt8 → String)

/-- The status of an element: empty, full, or full with the trimmed volume tag when the block
carries tags. -/
def PageEntry.status (e : PageEntry) : ElementStatus :=
  if e.descriptor.desc.flags1 &&& 1 ≠ 0 then
    if e.pvolTag then .volumeTag (scsiAsciiToString fromUtf8Lossy e.descriptor.volumeTag) else .full
  else .empty

/-- What a decoded page reports of a list of entries: the entries of each element type, in order,
with their addresses and statuses (and a drive's source slot), and the last entry's address. -/
structure Reports (entries : List PageEntry) (page : DecodedStatusPage) : Prop where
  transports : page.transports = (entries.filter (·.elementTypeCode.toNat = 1)).map
    fun e => ⟨e.status fromUtf8Lossy, e.elementAddress⟩
  storageSlots : page.storageSlots = (entries.filter (·.elementTypeCode.toNat = 2)).map
    fun e => ⟨false, e.status fromUtf8Lossy, e.elementAddress⟩
  importExportSlots : page.importExportSlots = (entries.filter (·.elementTypeCode.toNat = 3)).map
    fun e => ⟨true, e.status fromUtf8Lossy, e.elementAddress⟩
  drives : page.drives.map (fun drive => (drive.loadedSlot, drive.status, drive.elementAddress)) =
    (entries.filter (·.elementTypeCode.toNat = 4)).map
      fun e => (e.loadedSlot, e.status fromUtf8Lossy, e.elementAddress)
  lastElementAddress : page.lastElementAddress = entries.getLast?.map (·.elementAddress)

/-- `decode_dvcid_info`: the drive identifier after a transfer descriptor's tags. -/
def decodeDvcidInfo (reader : List UInt8) : Except String DvcidInfo := do
  let (dvcid, reader) ← readSlice 4 reader
  let identifierLen := (dvcid.getD 3 0).toNat
  match (dvcid.getD 0 0).toNat, (dvcid.getD 1 0).toNat with
  | 2, 0 =>
    -- serial number only
    let (serial, _) ← readSlice identifierLen reader
    pure ⟨none, none, some (scsiAsciiToString fromUtf8Lossy serial)⟩
  | 2, 1 =>
    if identifierLen ≠ 34 then throw "got wrong DVCID length"
    let (vendor, reader) ← readSlice 8 reader
    let (model, reader) ← readSlice 16 reader
    let (serial, _) ← readSlice 10 reader
    pure ⟨some (scsiAsciiToString fromUtf8Lossy vendor), some (scsiAsciiToString fromUtf8Lossy model),
      some (scsiAsciiToString fromUtf8Lossy serial)⟩
  | _, _ => pure ⟨none, none, none⟩

/-- `SubHeader::parse_optional_volume_tag`: the primary volume tag when the PVolTag flag is set,
returned only for a full element. -/
def SubHeader.parseOptionalVolumeTag (subhead : SubHeader) (reader : List UInt8) (full : Bool) :
    Except String (Option String × List UInt8) :=
  if subhead.flags &&& 128 ≠ 0 then do
    let (tmp, reader) ← readSlice scsiVolumeTagLen reader
    if full then pure (some (scsiAsciiToString fromUtf8Lossy tmp), reader)
    else pure (none, reader)
  else pure (none, reader)

/-- `SubHeader::skip_alternate_volume_tag`. -/
def SubHeader.skipAlternateVolumeTag (subhead : SubHeader) (reader : List UInt8) :
    Except String (List UInt8) :=
  if subhead.flags &&& 64 ≠ 0 then do
    let (_, reader) ← readSlice scsiVolumeTagLen reader
    pure reader
  else pure reader

/-- What the three kinds of descriptor begin with: the descriptor, its full flag, its volume tag,
and the bytes after the tags. -/
def SubHeader.readDescriptor (subhead : SubHeader) (descriptor : List UInt8) :
    Except String (ElementDescriptor × Bool × Option String × List UInt8) := do
  let (bytes, reader) ← readSlice descriptorSize descriptor
  let desc := ElementDescriptor.ofBytes bytes
  let full := desc.flags1 &&& 1 ≠ 0
  let (volumeTag, reader) ← subhead.parseOptionalVolumeTag fromUtf8Lossy reader full
  let reader ← subhead.skipAlternateVolumeTag reader
  pure (desc, full, volumeTag, reader)

/-- One descriptor of the loop of `decode_element_status_page`, by the subheader's element type. -/
def decodeDescriptor (subhead : SubHeader) (result : DecodedStatusPage) (descriptor : List UInt8) :
    Except String DecodedStatusPage :=
  match subhead.elementTypeCode.toNat with
  | 1 => do
    let (desc, full, volumeTag, _) ← subhead.readDescriptor fromUtf8Lossy descriptor
    pure { result with
      lastElementAddress := some desc.elementAddress
      transports := result.transports ++ [⟨createElementStatus full volumeTag, desc.elementAddress⟩] }
  | 2 => do
    let (desc, full, volumeTag, _) ← subhead.readDescriptor fromUtf8Lossy descriptor
    pure { result with
      lastElementAddress := some desc.elementAddress
      storageSlots :=
        result.storageSlots ++ [⟨false, createElementStatus full volumeTag, desc.elementAddress⟩] }
  | 3 => do
    let (desc, full, volumeTag, _) ← subhead.readDescriptor fromUtf8Lossy descriptor
    pure { result with
      lastElementAddress := some desc.elementAddress
      importExportSlots :=
        result.importExportSlots ++ [⟨true, createElementStatus full volumeTag, desc.elementAddress⟩] }
  | 4 => do
    let (desc, full, volumeTag, reader) ← subhead.readDescriptor fromUtf8Lossy descriptor
    -- SValid
    let loadedSlot := if desc.flags2 &&& 128 ≠ 0 then some desc.sourceStorageElementAddress.toNat
      else none
    let dvcid := match decodeDvcidInfo fromUtf8Lossy reader with
      | .ok dvcid => dvcid
      | .error _ => ⟨none, none, none⟩
    pure { result with
      lastElementAddress := some desc.elementAddress
      drives := result.drives ++ [⟨loadedSlot, createElementStatus full volumeTag, dvcid.serial,
        dvcid.vendor, dvcid.model, desc.elementAddress⟩] }
  | code => throw s!"got unknown element type code {code}"

/-- The loop of `decode_element_status_page` over the subheaders of the report. Reading a
subheader's descriptor data cannot fail: its length is clamped to what is left. -/
def decodeSubheaders (result : DecodedStatusPage) (reader : List UInt8) :
    ExceptT String Option DecodedStatusPage :=
  if reader = [] then pure result
  else
    match _h₁ : readSlice 8 reader with
    | .error e => throw e
    | .ok (head, reader₁) =>
      let subhead := SubHeader.ofBytes head
      let len := min subhead.byteCountOfDescriptorDataAvailable reader₁.length
      match _h₂ : readSlice len reader₁ with
      | .error e => throw e
      | .ok (descrData, reader₂) =>
        if subhead.descriptorLength.toNat = 0 then throw "got elements, but descriptor length 0"
        else do
          let descriptors ← liftM (chunksExact subhead.descriptorLength.toNat descrData)
          let result ← liftM (descriptors.foldlM (decodeDescriptor fromUtf8Lossy subhead) result)
          decodeSubheaders result reader₂
termination_by reader.length
decreasing_by
  have := (length_of_readSlice_eq_ok _h₁).2
  have := (length_of_readSlice_eq_ok _h₂).2
  omega

/-- `decode_element_status_page`. -/
def decodeElementStatusPage (data : List UInt8) (startElementAddress : UInt16) :
    ExceptT String Option DecodedStatusPage := do
  let (headBytes, reader) ← liftM (readSlice 8 data)
  let head := ElementStatusHeader.ofBytes headBytes
  if head.numberOfElementsAvailable = 0 then return .empty
  if head.firstElementAddressReported < startElementAddress then
    throw "got wrong first_element_address_reported"
  let len := head.byteCountOfReportAvailable
  let reader ←
    if len < reader.length then liftM (Slice.sliceTo len reader)
    else if len > reader.length then
      throw s!"wrong amount of data: expected {len}, got {reader.length}"
    else pure reader
  decodeSubheaders fromUtf8Lossy .empty reader

/-! ### The decoder never panics -/

/-- The subheader loop panics nowhere: `chunks_exact` is called only after the check that the
descriptor length is not 0. -/
theorem decodeSubheaders_ne_none (result : DecodedStatusPage) (reader : List UInt8) :
    (decodeSubheaders fromUtf8Lossy result reader).run ≠ none := by
  rw [decodeSubheaders]
  split
  · simp
  split
  · simp
  rename_i head reader₁ h₁
  dsimp only
  split
  · simp
  rename_i descrData reader₂ h₂
  split
  · simp
  rename_i hlen
  rw [chunksExact, dif_pos (by omega), ExceptT.liftM_some_bind]
  rcases List.foldlM (decodeDescriptor fromUtf8Lossy (SubHeader.ofBytes head)) result
      (chunksOf _ _ descrData) with e | result'
  · simp
  · have hdec : reader₂.length < reader.length := by
      have := (length_of_readSlice_eq_ok h₁).2
      have := (length_of_readSlice_eq_ok h₂).2
      omega
    rw [ExceptT.liftM_ok_bind]
    exact decodeSubheaders_ne_none result' reader₂
termination_by reader.length

/-- `decode_element_status_page` returns `Ok` or `Err` on every page: the report is cut to its
byte count only when that is shorter than the data. -/
theorem decodeElementStatusPage_ne_none (data : List UInt8) (startElementAddress : UInt16) :
    (decodeElementStatusPage fromUtf8Lossy data startElementAddress).run ≠ none := by
  unfold decodeElementStatusPage
  rcases readSlice 8 data with e | ⟨headBytes, reader⟩
  · simp
  simp only [ExceptT.liftM_ok_bind]
  set head := ElementStatusHeader.ofBytes headBytes
  by_cases hzero : head.numberOfElementsAvailable = 0
  · simp [hzero]
  by_cases hfirst : head.firstElementAddressReported < startElementAddress
  · simp [hzero, hfirst]
  simp only [hzero, hfirst, ↓reduceIte]
  by_cases hlt : head.byteCountOfReportAvailable < reader.length
  · rw [if_pos hlt, Slice.sliceTo, if_pos (Nat.le_of_lt hlt), ExceptT.liftM_some_bind]
    exact decodeSubheaders_ne_none fromUtf8Lossy _ _
  by_cases hgt : head.byteCountOfReportAvailable > reader.length
  · simp [hlt, hgt]
  simp only [hlt, hgt, ↓reduceIte]
  exact decodeSubheaders_ne_none fromUtf8Lossy _ _

/-! ### Decoding a well-formed page -/

theorem reports_empty : Reports fromUtf8Lossy [] .empty := by
  constructor <;> rfl

/-- The tags of a descriptor whose block sets no AVolTag and whose tag, if any, is 36 bytes long
are read as the encoder wrote them. -/
theorem readDescriptor_encode {subhead : SubHeader} {pvolTag : Bool}
    (hflags : subhead.flags = if pvolTag then 128 else 0) {d : PageDescriptor}
    (htag : pvolTag → d.volumeTag.length = scsiVolumeTagLen) :
    subhead.readDescriptor fromUtf8Lossy (d.encode pvolTag) =
      .ok (d.desc, d.desc.flags1 &&& 1 ≠ 0,
        (if pvolTag then
          (if d.desc.flags1 &&& 1 ≠ 0 then some (scsiAsciiToString fromUtf8Lossy d.volumeTag)
          else none)
        else none), d.trailer) := by
  have hread : readSlice descriptorSize (d.encode pvolTag) =
      .ok (d.desc.toBytes, (if pvolTag then d.volumeTag else []) ++ d.trailer) := by
    rw [PageDescriptor.encode, List.append_assoc, ← ElementDescriptor.length_toBytes,
      readSlice_append]
  cases pvolTag with
  | false =>
    simp only [SubHeader.readDescriptor, hread, Except.ok_bind, ElementDescriptor.ofBytes_toBytes,
      SubHeader.parseOptionalVolumeTag, SubHeader.skipAlternateVolumeTag, hflags]
    simp
  | true =>
    have htag' :
        readSlice scsiVolumeTagLen (d.volumeTag ++ d.trailer) = .ok (d.volumeTag, d.trailer) := by
      rw [← htag rfl, readSlice_append]
    simp only [SubHeader.readDescriptor, hread, Except.ok_bind, ElementDescriptor.ofBytes_toBytes,
      SubHeader.parseOptionalVolumeTag, SubHeader.skipAlternateVolumeTag, hflags, ↓reduceIte, htag']
    have h64 : (128 : UInt8) &&& 64 = 0 := by decide
    by_cases hfull : d.desc.flags1 &&& 1 ≠ 0 <;> simp [hfull, h64]

theorem createElementStatus_eq_status (e : PageEntry) :
    createElementStatus (e.descriptor.desc.flags1 &&& 1 ≠ 0)
      (if e.pvolTag then
        (if e.descriptor.desc.flags1 &&& 1 ≠ 0 then
          some (scsiAsciiToString fromUtf8Lossy e.descriptor.volumeTag)
        else none)
      else none) = e.status fromUtf8Lossy := by
  unfold createElementStatus PageEntry.status
  by_cases hfull : e.descriptor.desc.flags1 &&& 1 ≠ 0 <;> cases e.pvolTag <;> simp [hfull]

/-- One descriptor of a well-formed block is decoded into the list of its element type. -/
theorem Reports.decodeDescriptor_encode {entries : List PageEntry} {page : DecodedStatusPage}
    (h : Reports fromUtf8Lossy entries page) {b : PageBlock} (hb : b.WellFormed)
    {d : PageDescriptor} (hd : d ∈ b.descriptors) :
    ∃ page', decodeDescriptor fromUtf8Lossy b.subHeader page (d.encode b.pvolTag) = .ok page' ∧
      Reports fromUtf8Lossy (entries ++ [⟨b.elementTypeCode, b.pvolTag, d⟩]) page' := by
  have hread := @readDescriptor_encode fromUtf8Lossy b.subHeader b.pvolTag rfl d
    (hb.volumeTag_length d hd)
  have hstatus := createElementStatus_eq_status fromUtf8Lossy ⟨b.elementTypeCode, b.pvolTag, d⟩
  have hpos := hb.elementTypeCode_pos
  have hle := hb.elementTypeCode_le
  obtain hcode | hcode | hcode | hcode : b.elementTypeCode.toNat = 1 ∨
      b.elementTypeCode.toNat = 2 ∨ b.elementTypeCode.toNat = 3 ∨ b.elementTypeCode.toNat = 4 := by
    omega
  all_goals
    simp only [decodeDescriptor, PageBlock.elementTypeCode_subHeader, hcode, hread, Except.ok_bind]
    refine ⟨_, rfl, ?_⟩
  -- the new entry joins the list of its type, and is the last one
  all_goals
    rw [hstatus]
    constructor <;> simp [h.transports, h.storageSlots, h.importExportSlots, h.drives,
      List.filter_append, hcode, PageEntry.elementAddress, PageEntry.loadedSlot]

/-- The descriptors of a well-formed block are decoded one after the other. -/
theorem Reports.foldlM_decodeDescriptor {b : PageBlock} (hb : b.WellFormed)
    {ds : List PageDescriptor} (hds : ∀ d ∈ ds, d ∈ b.descriptors) {entries : List PageEntry}
    {page : DecodedStatusPage} (h : Reports fromUtf8Lossy entries page) :
    ∃ page', (ds.map (PageDescriptor.encode b.pvolTag)).foldlM
        (decodeDescriptor fromUtf8Lossy b.subHeader) page = .ok page' ∧
      Reports fromUtf8Lossy (entries ++ ds.map (⟨b.elementTypeCode, b.pvolTag, ·⟩)) page' := by
  induction ds generalizing entries page with
  | nil => exact ⟨page, rfl, by simpa using h⟩
  | cons d ds ih =>
    obtain ⟨page₁, h₁, hr₁⟩ := h.decodeDescriptor_encode fromUtf8Lossy hb (hds d List.mem_cons_self)
    obtain ⟨page₂, h₂, hr₂⟩ := ih (fun d' hd' => hds d' (List.mem_cons_of_mem _ hd')) hr₁
    refine ⟨page₂, ?_, by simpa using hr₂⟩
    rw [List.map_cons, List.foldlM_cons, h₁, Except.ok_bind, h₂]

/-- The subheader loop decodes the blocks of a well-formed page one after the other. -/
theorem Reports.decodeSubheaders_encode {blocks : List PageBlock}
    (hbs : ∀ b ∈ blocks, b.WellFormed) {entries : List PageEntry} {page : DecodedStatusPage}
    (h : Reports fromUtf8Lossy entries page) :
    ∃ page', (decodeSubheaders fromUtf8Lossy page (blocks.map PageBlock.encode).flatten).run =
        some (.ok page') ∧
      Reports fromUtf8Lossy (entries ++ blocks.flatMap PageBlock.entries) page' := by
  induction blocks generalizing entries page with
  | nil => exact ⟨page, by rw [decodeSubheaders]; rfl, by simpa using h⟩
  | cons b bs ih =>
    have hb := hbs b List.mem_cons_self
    obtain ⟨page₁, hfold, hr₁⟩ := h.foldlM_decodeDescriptor fromUtf8Lossy hb
      (fun _ hd => hd : ∀ d ∈ b.descriptors, d ∈ b.descriptors)
    obtain ⟨page₂, hrun, hr₂⟩ := ih (fun b' hb' => hbs b' (List.mem_cons_of_mem _ hb')) hr₁
    refine ⟨page₂, ?_, by simpa [PageBlock.entries] using hr₂⟩
    set rest := (bs.map PageBlock.encode).flatten
    -- one round of the loop reads `b`'s subheader, its data, and its descriptors
    have hne : b.encode ++ rest ≠ [] := List.ne_nil_of_length_pos (by
      simp only [PageBlock.encode, List.length_append, SubHeader.length_toBytes]; omega)
    have h₁ : readSlice 8 (b.encode ++ rest) = .ok (b.subHeader.toBytes, b.data ++ rest) := by
      rw [PageBlock.encode, List.append_assoc, ← SubHeader.length_toBytes, readSlice_append]
    have hsub : SubHeader.ofBytes b.subHeader.toBytes = b.subHeader :=
      SubHeader.ofBytes_toBytes hb.data_length_lt
    have h₂ : readSlice (min b.subHeader.byteCountOfDescriptorDataAvailable (b.data ++ rest).length)
        (b.data ++ rest) = .ok (b.data, rest) := by
      rw [show min b.subHeader.byteCountOfDescriptorDataAvailable (b.data ++ rest).length =
        b.data.length by simp [PageBlock.subHeader], readSlice_append]
    have hdl : b.subHeader.descriptorLength.toNat = b.descriptorLength :=
      UInt16.toNat_ofNat_of_lt' hb.descriptorLength_lt
    rw [List.map_cons, List.flatten_cons, decodeSubheaders, if_neg hne]
    split
    · rename_i e he
      rw [h₁] at he
      cases he
    rename_i head reader₁ he
    rw [h₁] at he
    obtain ⟨rfl, rfl⟩ := Prod.mk.inj (Except.ok.inj he)
    dsimp only
    rw [hsub]
    split
    · rename_i e he
      rw [h₂] at he
      cases he
    rename_i descrData reader₂ he
    rw [h₂] at he
    obtain ⟨rfl, rfl⟩ := Prod.mk.inj (Except.ok.inj he)
    -- the data is cut back into the encoded descriptors
    have hchunks : chunksOf b.descriptorLength hb.descriptorLength_pos (b.data ++ []) =
        b.descriptors.map (PageDescriptor.encode b.pvolTag) :=
      chunksOf_flatten_append hb.descriptorLength_pos (by simpa using hb.encode_length)
        (by simpa using hb.descriptorLength_pos)
    rw [List.append_nil] at hchunks
    rw [hdl, if_neg (Nat.pos_iff_ne_zero.mp hb.descriptorLength_pos), chunksExact,
      dif_pos hb.descriptorLength_pos, ExceptT.liftM_some_bind, hchunks, hfold,
      ExceptT.liftM_ok_bind, hrun]

/-- `decode_element_status_page` decodes a well-formed page, whatever bytes follow it, into what
its entries report. -/
theorem decodeElementStatusPage_encode {p : StatusPage} {startElementAddress : UInt16}
    (hp : p.WellFormed startElementAddress) (trailing : List UInt8) :
    ∃ page, (decodeElementStatusPage fromUtf8Lossy (p.encode ++ trailing)
        startElementAddress).run = some (.ok page) ∧ Reports fromUtf8Lossy p.entries page := by
  obtain ⟨page, hrun, hr⟩ := (reports_empty fromUtf8Lossy).decodeSubheaders_encode fromUtf8Lossy
    hp.blocks
  refine ⟨page, ?_, by simpa [StatusPage.entries] using hr⟩
  set head : ElementStatusHeader :=
    ⟨p.firstElementAddressReported, p.numberOfElementsAvailable, p.body.length⟩
  have h₁ : readSlice 8 (p.encode ++ trailing) = .ok (head.toBytes, p.body ++ trailing) := by
    rw [StatusPage.encode, List.append_assoc, ← ElementStatusHeader.length_toBytes head,
      readSlice_append]
  have hhead : ElementStatusHeader.ofBytes head.toBytes = head :=
    ElementStatusHeader.ofBytes_toBytes hp.body_length_lt
  unfold decodeElementStatusPage
  simp only [h₁, ExceptT.liftM_ok_bind, hhead, head, hp.numberOfElementsAvailable_ne,
    UInt16.not_lt.mpr hp.start_le, ↓reduceIte]
  -- the report is cut to its byte count when more bytes follow it
  by_cases hlt : p.body.length < (p.body ++ trailing).length
  · rw [if_pos hlt, Slice.sliceTo, if_pos (Nat.le_of_lt hlt), ExceptT.liftM_some_bind, List.take_left]
    exact hrun
  · have htrailing : trailing = [] := List.eq_nil_of_length_eq_zero (by
      simp only [List.length_append] at hlt; omega)
    subst htrailing
    simp only [List.append_nil, Nat.lt_irrefl, gt_iff_lt, ↓reduceIte]
    exact hrun

end Decode

/-! ## `get_element` -/

/-- `ElementType`, for the error messages of `get_element`. -/
inductive ElementType
  | mediumTransport
  | storage
  | importExport
  | dataTransfer
  | dataTransferWithDVCID

/-- `{:?}` of an element type. -/
def ElementType.debug : ElementType → String
  | .mediumTransport => "MediumTransport"
  | .storage => "Storage"
  | .importExport => "ImportExport"
  | .dataTransfer => "DataTransfer"
  | .dataTransferWithDVCID => "DataTransferWithDVCID"

/-- `number_of_elements`: the elements each command asks for. -/
def numberOfElements : Nat := 1000

/-- `returned_number_of_elements`. -/
def DecodedStatusPage.returnedNumberOfElements (page : DecodedStatusPage) : Nat :=
  page.transports.length + page.drives.length + page.storageSlots.length +
    page.importExportSlots.length

/-- The state of `get_element` before a command: the commands sent, the start address, and the
elements so far. -/
structure GetElementState where
  commands : Nat
  startElementAddress : UInt16
  result : DecodedStatusPage

/-- What one round of the loop of `get_element` leads to. -/
inductive GetElementOutcome
  | done (result : Except String DecodedStatusPage)
  | panic
  | running (state : GetElementState)

/-- The state `get_element` starts in. -/
def GetElementState.initial : GetElementState := ⟨0, 0, .empty⟩

section GetElement

variable (fromUtf8Lossy : List UInt8 → String) (elementType : ElementType)
  (responses : Nat → Except String (List UInt8))

/-- One round of the loop of `get_element`. The device's answer to the `n`-th command is
`responses n`. The next start address is `last_element_address + 1` in `u16`, which wraps at
`0xFFFF` in a build without overflow checks. -/
def getElementStep (s : GetElementState) : GetElementOutcome :=
  match responses s.commands with
  | .error e => .done (.error e)
  | .ok data =>
    match (decodeElementStatusPage fromUtf8Lossy data s.startElementAddress).run with
    | none => .panic
    | some (.error err) =>
      .done (.error s!"decode element status for {elementType.debug} on {s.startElementAddress} failed - {err}")
    | some (.ok page) =>
      let result : DecodedStatusPage :=
        { lastElementAddress := page.lastElementAddress
          transports := s.result.transports ++ page.transports
          drives := s.result.drives ++ page.drives
          storageSlots := s.result.storageSlots ++ page.storageSlots
          importExportSlots := s.result.importExportSlots ++ page.importExportSlots }
      match page.lastElementAddress with
      | some lastElementAddress =>
        if lastElementAddress < s.startElementAddress then
          .done (.error "got strange element address")
        else if page.returnedNumberOfElements ≥ numberOfElements then
          .running ⟨s.commands + 1, lastElementAddress + 1, result⟩
        else .done (.ok result)
      | none => .done (.ok result)

/-- `k` rounds of the loop of `get_element`, or fewer when it stops. -/
def getElementRun : Nat → GetElementState → GetElementOutcome
  | 0, s => .running s
  | k + 1, s =>
    match getElementStep fromUtf8Lossy elementType responses s with
    | .running s' => getElementRun k s'
    | outcome => outcome

/-- The decoder never panics, so a round of `get_element` does not either. -/
theorem getElementStep_ne_panic (s : GetElementState) :
    getElementStep fromUtf8Lossy elementType responses s ≠ .panic := by
  unfold getElementStep
  split
  · simp
  rename_i data _
  have hdecode := decodeElementStatusPage_ne_none fromUtf8Lossy data s.startElementAddress
  split
  · contradiction
  · simp
  dsimp only
  split
  · split
    · simp
    split <;> simp
  · simp

/-- A round after which `get_element` goes on decoded a page of at least 1000 elements whose
last address is not below the start; the next command starts after that address. -/
theorem getElementStep_eq_running {s s' : GetElementState}
    (h : getElementStep fromUtf8Lossy elementType responses s = .running s') :
    ∃ data page last, responses s.commands = .ok data ∧
      (decodeElementStatusPage fromUtf8Lossy data s.startElementAddress).run = some (.ok page) ∧
      numberOfElements ≤ page.returnedNumberOfElements ∧ page.lastElementAddress = some last ∧
      s.startElementAddress ≤ last ∧ s'.commands = s.commands + 1 ∧
      s'.startElementAddress = last + 1 := by
  unfold getElementStep at h
  split at h
  · cases h
  rename_i data hdata
  split at h
  · cases h
  · cases h
  rename_i page hpage
  dsimp only at h
  split at h
  · rename_i last hlast
    split at h
    · cases h
    rename_i hstart
    split at h
    · rename_i hfull
      cases h
      exact ⟨data, page, last, hdata, hpage, hfull, hlast, UInt16.not_lt.mp hstart, rfl, rfl⟩
    · cases h
  · cases h

theorem getElementRun_ne_panic (k : Nat) (s : GetElementState) :
    getElementRun fromUtf8Lossy elementType responses k s ≠ .panic := by
  induction k generalizing s with
  | zero => simp [getElementRun]
  | succ k ih =>
    rw [getElementRun]
    split
    · exact ih _
    · exact getElementStep_ne_panic fromUtf8Lossy elementType responses s

/-- The device never answers with a page of at least 1000 elements that ends at address
`0xFFFF`, the one answer after which `last_element_address + 1` leaves the range of `u16`. -/
def NoAnswerEndsAtMaxAddress : Prop :=
  ∀ n data start page, responses n = .ok data →
    (decodeElementStatusPage fromUtf8Lossy data start).run = some (.ok page) →
    numberOfElements ≤ page.returnedNumberOfElements → page.lastElementAddress ≠ some 0xFFFF

/-- Below `0xFFFF`, `x + 1` in `u16` does not wrap. -/
theorem toNat_add_one_of_ne_max {x : UInt16} (h : x ≠ 0xFFFF) : (x + 1).toNat = x.toNat + 1 := by
  have hlt := x.toNat_lt
  have hne : x.toNat ≠ 0xFFFF := fun h' => h (UInt16.toNat_inj.mp h')
  rw [UInt16.toNat_add, UInt16.toNat_one, Nat.mod_eq_of_lt (by simp at hlt ⊢; omega)]

section NoOverflow

variable {fromUtf8Lossy elementType responses}
variable (hno : NoAnswerEndsAtMaxAddress fromUtf8Lossy responses)
include hno

/-- Each round after which `get_element` goes on moves the start address up. -/
theorem getElementStep_start_lt {s s' : GetElementState}
    (h : getElementStep fromUtf8Lossy elementType responses s = .running s') :
    s.startElementAddress.toNat < s'.startElementAddress.toNat := by
  obtain ⟨data, page, last, hdata, hpage, hfull, hlast, hstart, -, hnext⟩ :=
    getElementStep_eq_running fromUtf8Lossy elementType responses h
  have hmax : last ≠ 0xFFFF := fun h => hno _ _ _ _ hdata hpage hfull (h ▸ hlast)
  rw [hnext, toNat_add_one_of_ne_max hmax]
  exact Nat.lt_succ_of_le (UInt16.le_iff_toNat_le.mp hstart)

/-- After `k` rounds that all go on, the start address has grown by at least `k`. -/
theorem getElementRun_eq_running {k : Nat} {s s' : GetElementState}
    (h : getElementRun fromUtf8Lossy elementType responses k s = .running s') :
    s.startElementAddress.toNat + k ≤ s'.startElementAddress.toNat := by
  induction k generalizing s with
  | zero =>
    cases h
    simp
  | succ k ih =>
    rw [getElementRun] at h
    split at h
    · rename_i s₁ h₁
      have hlt := getElementStep_start_lt hno h₁
      have hle := ih h
      omega
    · rename_i hnot
      exact absurd h (hnot s')

/-- `get_element` sends at most 65536 commands and ends with its result or an error: the start
address, a `u16`, grows with every command after which it goes on. -/
theorem getElementRun_eq_done :
    ∃ result, getElementRun fromUtf8Lossy elementType responses (2 ^ 16) .initial = .done result := by
  rcases hrun : getElementRun fromUtf8Lossy elementType responses (2 ^ 16) .initial with
    result | _ | s'
  · exact ⟨result, rfl⟩
  · exact absurd hrun (getElementRun_ne_panic fromUtf8Lossy elementType responses _ _)
  · have hle := getElementRun_eq_running hno hrun
    have hlt := s'.startElementAddress.toNat_lt
    simp [GetElementState.initial] at hle hlt
    omega

end NoOverflow

/-- Every address is at most `0xFFFF`. -/
theorem le_maxAddress (x : UInt16) : x ≤ 0xFFFF := by
  have hlt := x.toNat_lt
  exact UInt16.le_iff_toNat_le.mpr (by simp at hlt ⊢; omega)

/-! ### A device that makes `last_element_address + 1` wrap -/

/-- A page of 1000 storage slots, all at address `0xFFFF`, without volume tags. -/
def fullBatchAtMaxAddress : StatusPage :=
  ⟨0xFFFF, 1000, [⟨2, false, descriptorSize,
    List.replicate numberOfElements ⟨⟨0xFFFF, 0, 0, 0⟩, [], []⟩⟩]⟩

theorem fullBatchAtMaxAddress_wellFormed (start : UInt16) :
    fullBatchAtMaxAddress.WellFormed start := by
  have hdata : (PageBlock.data ⟨2, false, descriptorSize,
      List.replicate numberOfElements ⟨⟨0xFFFF, 0, 0, 0⟩, [], []⟩⟩).length =
        numberOfElements * descriptorSize := by
    simp [PageBlock.data, PageDescriptor.encode]
  refine ⟨?_, by decide, le_maxAddress start, ?_⟩
  · simp only [fullBatchAtMaxAddress, List.mem_singleton]
    rintro b rfl
    refine ⟨by decide, by decide, by decide, by decide, by simp, ?_, by rw [hdata]; decide⟩
    simp [PageDescriptor.encode, descriptorSize]
  · simp only [StatusPage.body, fullBatchAtMaxAddress, List.map_cons, List.map_nil,
      List.flatten_cons, List.flatten_nil, List.append_nil, PageBlock.encode, List.length_append,
      SubHeader.length_toBytes, hdata]
    decide

/-- The page decodes, at any start, to 1000 elements of which the last is at `0xFFFF`. -/
theorem decode_fullBatchAtMaxAddress (start : UInt16) :
    ∃ page, (decodeElementStatusPage fromUtf8Lossy fullBatchAtMaxAddress.encode start).run =
        some (.ok page) ∧
      page.lastElementAddress = some 0xFFFF ∧ page.returnedNumberOfElements = numberOfElements := by
  obtain ⟨page, hrun, hr⟩ :=
    decodeElementStatusPage_encode fromUtf8Lossy (fullBatchAtMaxAddress_wellFormed start) []
  rw [List.append_nil] at hrun
  have hdrives := congrArg List.length hr.drives
  have hne : numberOfElements ≠ 0 := by decide
  refine ⟨page, hrun, ?_, ?_⟩
  · rw [hr.lastElementAddress]
    simp [StatusPage.entries, fullBatchAtMaxAddress, PageBlock.entries, PageEntry.elementAddress,
      List.getLast?_replicate, hne]
  · simp only [List.length_map] at hdrives
    simp [DecodedStatusPage.returnedNumberOfElements, hr.transports, hr.storageSlots,
      hr.importExportSlots, hdrives, StatusPage.entries, fullBatchAtMaxAddress, PageBlock.entries]

/-- Answered with that page, every round goes on, at the start address `0xFFFF + 1`. -/
theorem getElementStep_fullBatchAtMaxAddress (s : GetElementState) :
    ∃ result, getElementStep fromUtf8Lossy elementType (fun _ => .ok fullBatchAtMaxAddress.encode)
      s = .running ⟨s.commands + 1, 0xFFFF + 1, result⟩ := by
  obtain ⟨page, hrun, hlast, hnumber⟩ :=
    decode_fullBatchAtMaxAddress fromUtf8Lossy s.startElementAddress
  simp only [getElementStep, hrun, hlast, hnumber, UInt16.not_lt.mpr (le_maxAddress _),
    Nat.le_refl, ↓reduceIte, ge_iff_le]
  exact ⟨_, rfl⟩

theorem getElementRun_fullBatchAtMaxAddress (k : Nat) (s : GetElementState) :
    ∃ s', getElementRun fromUtf8Lossy elementType (fun _ => .ok fullBatchAtMaxAddress.encode)
        (k + 1) s = .running s' ∧
      s'.commands = s.commands + (k + 1) ∧ s'.startElementAddress = 0xFFFF + 1 := by
  obtain ⟨result, hstep⟩ := getElementStep_fullBatchAtMaxAddress fromUtf8Lossy elementType s
  induction k generalizing s result with
  | zero => exact ⟨_, by rw [getElementRun, hstep]; rfl, rfl, rfl⟩
  | succ k ih =>
    obtain ⟨result₁, hstep₁⟩ := getElementStep_fullBatchAtMaxAddress fromUtf8Lossy elementType
      ⟨s.commands + 1, 0xFFFF + 1, result⟩
    obtain ⟨s', hrun, hcommands, hstart⟩ := ih _ result₁ hstep₁
    refine ⟨s', ?_, by rw [hcommands]; dsimp only; omega, hstart⟩
    rw [getElementRun, hstep]
    exact hrun

/-- A device that answers every command with 1000 storage slots at address `0xFFFF` makes
`last_element_address + 1` overflow: `0xFFFF + 1` does not fit a `u16`, wraps to 0, and
`get_element` starts over from address 0 after every command, forever. -/
theorem getElement_wraps_and_never_ends (k : Nat) :
    (0xFFFF : UInt16).toNat + 1 = 2 ^ 16 ∧ (0xFFFF : UInt16) + 1 = 0 ∧
      ∃ s, getElementRun fromUtf8Lossy elementType (fun _ => .ok fullBatchAtMaxAddress.encode)
          (k + 1) .initial = .running s ∧ s.commands = k + 1 ∧ s.startElementAddress = 0 := by
  obtain ⟨s, hrun, hcommands, hstart⟩ :=
    getElementRun_fullBatchAtMaxAddress fromUtf8Lossy elementType k .initial
  refine ⟨by decide, by decide, s, hrun, by simpa [GetElementState.initial] using hcommands, ?_⟩
  rw [hstart]
  decide

-- By contrast, a device whose every answer reports no elements lets the run end
-- (getElementRun_eq_done).
example :
    NoAnswerEndsAtMaxAddress (fun _ => "") (fun _ => .ok (List.replicate 8 0)) ∧
      ∃ result, getElementRun (fun _ => "") .storage (fun _ => .ok (List.replicate 8 0)) (2 ^ 16)
        .initial = .done result := by
  -- a header that reports no elements decodes to the empty page
  have hno : NoAnswerEndsAtMaxAddress (fun _ => "") (fun _ => .ok (List.replicate 8 0)) := by
    intro n data start page hdata hpage hfull
    cases hdata
    have hempty : (decodeElementStatusPage (fun _ => "") (List.replicate 8 0) start).run =
        some (.ok .empty) := rfl
    rw [hempty] at hpage
    cases hpage
    exact absurd hfull (by decide)
  exact ⟨hno, getElementRun_eq_done hno⟩

end GetElement

end ProxmoxBackup.Tape
