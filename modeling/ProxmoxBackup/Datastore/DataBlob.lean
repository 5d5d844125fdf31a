import Mathlib
import ProxmoxBackup.Foundations.Except
import ProxmoxBackup.Foundations.Chunked
import ProxmoxBackup.Foundations.LittleEndian

/-!
# Data blobs (`pbs-datastore/src/data_blob.rs`, `file_formats.rs`)

A data blob is a byte string that starts with one of four magic numbers: uncompressed,
zstd compressed, encrypted, or compressed and encrypted. The magic and a CRC32 form the header;
an encrypted blob's header goes on with the IV and the authentication tag of AES-256-GCM. The
CRC covers what follows the header, and `encode` patches it in after the body is written.

The codecs are not part of the repository: zstd, the cipher (through openssl's `Crypter`), CRC32
and SHA-256 are parameters, as is the IV the system's random source returns. What the code
relies on them for is stated as `Zstd.Lawful` and `CryptConfig.Lawful`: compression and
encryption succeed, and decoding inverts them.

A computation that can fail and can also panic is an `ExceptT String Option`: `none` is a
panic (a slice out of range, an unknown magic in `header_size`, an output buffer openssl finds
too small), `some (.error e)` an error.
-/

namespace ProxmoxBackup

/-! ## Slices and fixed-size arrays -/

/-- `&bytes[start..]`; `none` where the slice panics. -/
def sliceFrom (bytes : List UInt8) (start : Nat) : Option (List UInt8) :=
  if bytes.length < start then none else some (bytes.drop start)

/-- `&bytes[..stop]`; `none` where the slice panics. -/
def sliceTo (bytes : List UInt8) (stop : Nat) : Option (List UInt8) :=
  if bytes.length < stop then none else some (bytes.take stop)

/-- The `n` bytes of `bytes` from `start` on, as an array: how a slice of `n` bytes is read into
a `[u8; n]` (`try_into`, `read_le_value`). -/
def arrayAt (n : Nat) (bytes : List UInt8) (start : Nat) : Vector UInt8 n :=
  Vector.ofFn fun i => bytes.getD (start + i) 0

/-! ## The formats (`file_formats.rs`) -/

/-- `MAX_BLOB_SIZE`. -/
def maxBlobSize : Nat := 128 * 1024 * 1024

/-- `UNCOMPRESSED_BLOB_MAGIC_1_0`. -/
def uncompressedBlobMagic : Vector UInt8 8 := #v[66, 171, 56, 7, 190, 131, 112, 161]

/-- `COMPRESSED_BLOB_MAGIC_1_0`. -/
def compressedBlobMagic : Vector UInt8 8 := #v[49, 185, 88, 66, 111, 182, 163, 127]

/-- `ENCRYPTED_BLOB_MAGIC_1_0`. -/
def encryptedBlobMagic : Vector UInt8 8 := #v[123, 103, 133, 190, 34, 45, 76, 240]

/-- `ENCR_COMPR_BLOB_MAGIC_1_0`. -/
def encrComprBlobMagic : Vector UInt8 8 := #v[230, 89, 27, 191, 11, 191, 216, 11]

/-- `DataBlobHeader` (`repr(C, packed)`). -/
structure DataBlobHeader where
  magic : Vector UInt8 8
  crc : Vector UInt8 4

/-- `EncryptedDataBlobHeader` (`repr(C, packed)`). -/
structure EncryptedDataBlobHeader where
  head : DataBlobHeader
  iv : Vector UInt8 16
  tag : Vector UInt8 16

/-- `std::mem::size_of::<DataBlobHeader>()`. -/
def dataBlobHeaderSize : Nat := 12

/-- `std::mem::size_of::<EncryptedDataBlobHeader>()`. -/
def encryptedDataBlobHeaderSize : Nat := 44

/-- The bytes `write_le_value` writes for a header: its fields in order (byte arrays have no
byte order to swap). -/
def DataBlobHeader.toBytes (h : DataBlobHeader) : List UInt8 := h.magic.toList ++ h.crc.toList

/-- The bytes `write_le_value` writes for an encrypted header. -/
def EncryptedDataBlobHeader.toBytes (h : EncryptedDataBlobHeader) : List UInt8 :=
  h.head.toBytes ++ h.iv.toList ++ h.tag.toList

/-- `read_le_value::<EncryptedDataBlobHeader>`: `read_exact` of its 44 bytes, then the fields. -/
def EncryptedDataBlobHeader.readLeValue (bytes : List UInt8) :
    Except String EncryptedDataBlobHeader :=
  if bytes.length < encryptedDataBlobHeaderSize then .error "failed to fill whole buffer"
  else .ok ⟨⟨arrayAt 8 bytes 0, arrayAt 4 bytes 8⟩, arrayAt 16 bytes 12, arrayAt 16 bytes 28⟩

/-- `header_size`; `none` where it panics (`unknown blob magic`). -/
def headerSize (magic : Vector UInt8 8) : Option Nat :=
  if magic = uncompressedBlobMagic then some dataBlobHeaderSize
  else if magic = compressedBlobMagic then some dataBlobHeaderSize
  else if magic = encryptedBlobMagic then some encryptedDataBlobHeaderSize
  else if magic = encrComprBlobMagic then some encryptedDataBlobHeaderSize
  else none

/-! ## The codecs -/

/-- The zstd functions the blob code calls, at compression level 1. `copyEncode` gives the bytes
`zstd::stream::copy_encode` writes. A `zstd::stream::write::Decoder` keeps what is written to it
and returns `decodeAll` of it when flushed. -/
structure Zstd where
  bulkCompress : List UInt8 → Except String (List UInt8)
  copyEncode : List UInt8 → Except String (List UInt8)
  decodeAll : List UInt8 → Except String (List UInt8)

/-- `openssl::symm::Mode`. -/
inductive Mode where
  | encrypt
  | decrypt
  deriving DecidableEq, Repr

/-- The methods of openssl's `Crypter` the blob code calls, over the crypter's state `σ`. -/
structure Crypter (σ : Type) where
  update : σ → List UInt8 → Except String (σ × List UInt8)
  finalize : σ → Except String (σ × List UInt8)
  getTag : σ → Except String (Vector UInt8 16)
  setTag : σ → Vector UInt8 16 → Except String σ

/-- `CryptConfig`, with what the blob code uses of it: the keyed chunk digest (`compute_digest`),
the AES-256-GCM crypter under the configuration's key (`data_crypter`, with its empty AAD) and
`decrypt_aead` under that key with an empty AAD. -/
structure CryptConfig (σ : Type) where
  computeDigest : List UInt8 → Vector UInt8 32
  dataCrypter : Vector UInt8 16 → Mode → Except String σ
  crypter : Crypter σ
  decryptAead : Vector UInt8 16 → List UInt8 → Vector UInt8 16 → Except String (List UInt8)

/-- `config.cipher().block_size()`: openssl's block size of AES-256-GCM, a stream mode. -/
def aes256GcmBlockSize : Nat := 1

/-- The output buffer openssl's `Crypter::update` asserts for an input of `inputLen` bytes: one
block more than the input, for a cipher whose blocks are longer than a byte. -/
def minOutputSize (inputLen : Nat) : Nat :=
  inputLen + if aes256GcmBlockSize = 1 then 0 else aes256GcmBlockSize

variable {σ : Type}

/-- `Crypter::update` into a buffer of `outputLen` bytes; `none` where openssl's assertion on
the buffer panics. -/
def crypterUpdate (crypter : Crypter σ) (outputLen : Nat) (c : σ) (input : List UInt8) :
    ExceptT String Option (σ × List UInt8) :=
  if outputLen < minOutputSize input.length then ExceptT.lift none
  else crypter.update c input

/-- `Crypter::finalize` into a buffer of `outputLen` bytes; `none` where openssl's assertion on
the buffer panics. -/
def crypterFinalize (crypter : Crypter σ) (outputLen : Nat) (c : σ) :
    ExceptT String Option (σ × List UInt8) :=
  if aes256GcmBlockSize > 1 ∧ outputLen < aes256GcmBlockSize then ExceptT.lift none
  else crypter.finalize c

/-- `BUFFER_SIZE` of `encrypt_to` and `decode_compressed_chunk`. -/
def bufferSize : Nat := 32 * 1024

/-! ## `DataBlob` -/

/-- `DataBlob`: the tagged, compressed, encrypted bytes. -/
structure DataBlob where
  rawData : List UInt8

namespace DataBlob

variable (zstd : Zstd) (crc32 : List UInt8 → UInt32) (sha256 : List UInt8 → Vector UInt8 32)

/-- `DataBlob::raw_size` (a length of at most `MAX_BLOB_SIZE` and a header: no `u64` wraps). -/
def rawSize (blob : DataBlob) : Nat := blob.rawData.length

/-- `DataBlob::magic`. -/
def magic (blob : DataBlob) : Option (Vector UInt8 8) := do
  let bytes ← sliceTo blob.rawData 8
  pure (arrayAt 8 bytes 0)

/-- `offsetof!(DataBlobHeader, crc)`. -/
def crcOffset : Nat := 8

/-- `DataBlob::crc`: the little-endian `u32` in the header's CRC field. -/
def crc (blob : DataBlob) : Option UInt32 := do
  let bytes ← sliceFrom blob.rawData crcOffset
  let bytes ← sliceTo bytes 4
  pure (UInt32.ofNat (LittleEndian.ofBytes bytes))

/-- `DataBlob::set_crc`. -/
def setCrc (blob : DataBlob) (crc : UInt32) : Option DataBlob :=
  if blob.rawData.length < crcOffset + 4 then none
  else some ⟨blob.rawData.take crcOffset ++ LittleEndian.toBytes 4 crc.toNat ++
    blob.rawData.drop (crcOffset + 4)⟩

/-- `DataBlob::compute_crc`: the CRC32 of what follows the header. -/
def computeCrc (blob : DataBlob) : Option UInt32 := do
  let start ← headerSize (← blob.magic)
  let bytes ← sliceFrom blob.rawData start
  pure (crc32 bytes)

/-- `DataBlob::verify_crc`. -/
def verifyCrc (blob : DataBlob) : ExceptT String Option Unit := do
  let expectedCrc ← blob.computeCrc crc32
  if expectedCrc ≠ (← blob.crc) then throw "Data blob has wrong CRC checksum."

/-- `blob.set_crc(blob.compute_crc())`, as `encode` ends. -/
def withCrc (blob : DataBlob) : Option DataBlob := do
  blob.setCrc (← blob.computeCrc crc32)

/-- `DataBlob::encrypt_to`: the random IV, then the data through the crypter in pieces that fit
its buffer, its final bytes and its tag. Returns the IV and the tag, with what is written to
`output`. -/
def encryptTo (random : Except String (Vector UInt8 16)) (config : CryptConfig σ)
    (data output : List UInt8) :
    ExceptT String Option ((Vector UInt8 16 × Vector UInt8 16) × List UInt8) := do
  let iv ← random
  let c ← config.dataCrypter iv .encrypt
  let maxEncoderInput := bufferSize - aes256GcmBlockSize
  let (c, written) ← Chunked.feedLoop (crypterUpdate config.crypter bufferSize) maxEncoderInput
    data 0 c []
  let (c, rest) ← crypterFinalize config.crypter bufferSize c
  let tag ← config.crypter.getTag c
  pure ((iv, tag), output ++ written ++ rest)

/-- The encrypted arm of `DataBlob::encode`, before the CRC is set: the data, compressed if
asked and if that makes it shorter, encrypted behind a header that is written as zeros first
and overwritten once the IV and the tag are known. -/
def encodeEncrypted (random : Except String (Vector UInt8 16)) (config : CryptConfig σ)
    (data : List UInt8) (compress : Bool) : ExceptT String Option DataBlob := do
  let (data, magic) ← if compress then do
      let comprData ← zstd.bulkCompress data
      -- Note: We only use compression if result is shorter
      pure (if comprData.length < data.length then (comprData, encrComprBlobMagic)
        else (data, encryptedBlobMagic))
    else pure (data, encryptedBlobMagic)
  let dummyHead : EncryptedDataBlobHeader :=
    ⟨⟨Vector.replicate 8 0, Vector.replicate 4 0⟩, Vector.replicate 16 0, Vector.replicate 16 0⟩
  let ((iv, tag), rawData) ← encryptTo random config data dummyHead.toBytes
  let head : EncryptedDataBlobHeader := ⟨⟨magic, Vector.replicate 4 0⟩, iv, tag⟩
  -- `(&mut raw_data[0..header_len]).write_le_value(head)`
  let _ ← sliceTo rawData encryptedDataBlobHeaderSize
  pure ⟨head.toBytes ++ rawData.drop encryptedDataBlobHeaderSize⟩

/-- `DataBlob::encode`. Without a configuration, a compressed blob is kept only if it is
shorter than the uncompressed one would be; it returns early with its CRC set, and the
uncompressed blob gets its CRC at the end, as the encrypted one does. -/
def encode (random : Except String (Vector UInt8 16)) (data : List UInt8)
    (config : Option (CryptConfig σ)) (compress : Bool) : ExceptT String Option DataBlob := do
  if data.length > maxBlobSize then throw s!"data blob too large ({data.length} bytes)."
  match config with
  | some config =>
    let blob ← encodeEncrypted zstd random config data compress
    blob.withCrc crc32
  | none =>
    let maxDataLen := data.length + dataBlobHeaderSize
    let uncompressed : DataBlob := ⟨(DataBlobHeader.mk uncompressedBlobMagic
      (Vector.replicate 4 0)).toBytes ++ data⟩
    if compress then
      let compData := (DataBlobHeader.mk compressedBlobMagic (Vector.replicate 4 0)).toBytes ++
        (← zstd.copyEncode data)
      if compData.length < maxDataLen then DataBlob.withCrc crc32 ⟨compData⟩
      else uncompressed.withCrc crc32
    else uncompressed.withCrc crc32

/-- `pbs_api_types::CryptMode`. -/
inductive CryptMode where
  | none
  | encrypt
  | signOnly
  deriving DecidableEq, Repr

/-- `DataBlob::crypt_mode`. -/
def cryptMode (blob : DataBlob) : ExceptT String Option CryptMode := do
  let magic ← blob.magic
  if magic = uncompressedBlobMagic ∨ magic = compressedBlobMagic then pure .none
  else if magic = encrComprBlobMagic ∨ magic = encryptedBlobMagic then pure .encrypt
  else throw "Invalid blob magic number."

/-- `DataBlob::verify_digest`: the digest of the data, keyed by the configuration if there is
one, against the expected one. -/
def verifyDigest (data : List UInt8) (config : Option (CryptConfig σ))
    (expectedDigest : Vector UInt8 32) : Except String Unit := do
  let digest := match config with
    | some config => config.computeDigest data
    | none => sha256 data
  if digest ≠ expectedDigest then throw "detected chunk with wrong digest."

/-- `DataBlob::decode_compressed_chunk`: the data through the crypter in pieces that fit its
buffer, then the tag and the final bytes, all written to a zstd decoder. -/
def decodeCompressedChunk (config : CryptConfig σ) (data : List UInt8)
    (iv tag : Vector UInt8 16) : ExceptT String Option (List UInt8) := do
  let c ← config.dataCrypter iv .decrypt
  let maxDecoderInput := bufferSize - aes256GcmBlockSize
  let (c, dec) ← Chunked.feedLoop (crypterUpdate config.crypter bufferSize) maxDecoderInput
    data 0 c []
  let c ← config.crypter.setTag c tag
  let (_, rest) ← crypterFinalize config.crypter bufferSize c
  -- `if rest > 0` the final bytes are written too; an empty write adds nothing
  zstd.decodeAll (dec ++ rest)

/-- `DataBlob::decode_uncompressed_chunk`. -/
def decodeUncompressedChunk (config : CryptConfig σ) (data : List UInt8)
    (iv tag : Vector UInt8 16) : Except String (List UInt8) :=
  config.decryptAead iv data tag

/-- `DataBlob::decode`. -/
def decode (blob : DataBlob) (config : Option (CryptConfig σ))
    (digest : Option (Vector UInt8 32)) : ExceptT String Option (List UInt8) := do
  let magic ← blob.magic
  if magic = uncompressedBlobMagic then
    let data ← sliceFrom blob.rawData dataBlobHeaderSize
    if let some digest := digest then verifyDigest sha256 data (none : Option (CryptConfig σ)) digest
    pure data
  else if magic = compressedBlobMagic then
    let reader ← sliceFrom blob.rawData dataBlobHeaderSize
    let data ← zstd.decodeAll reader
    if let some digest := digest then verifyDigest sha256 data (none : Option (CryptConfig σ)) digest
    pure data
  else if magic = encrComprBlobMagic ∨ magic = encryptedBlobMagic then
    let head ← EncryptedDataBlobHeader.readLeValue
      (← sliceTo blob.rawData encryptedDataBlobHeaderSize)
    match config with
    | some config =>
      let body ← sliceFrom blob.rawData encryptedDataBlobHeaderSize
      let data ← if magic = encrComprBlobMagic then
          decodeCompressedChunk zstd config body head.iv head.tag
        else decodeUncompressedChunk config body head.iv head.tag
      if let some digest := digest then verifyDigest sha256 data (some config) digest
      pure data
    | none => throw "unable to decrypt blob - missing CryptConfig"
  else throw "Invalid blob magic number."

/-- `DataBlob::from_raw`: a blob long enough for the header its magic names. -/
def fromRaw (data : List UInt8) : Except String DataBlob :=
  if data.length < dataBlobHeaderSize then .error s!"blob too small ({data.length} bytes)."
  else
    let magic := data.take 8
    if magic = encrComprBlobMagic.toList ∨ magic = encryptedBlobMagic.toList then
      if data.length < encryptedDataBlobHeaderSize then
        .error s!"encrypted blob too small ({data.length} bytes)."
      else .ok ⟨data⟩
    else if magic = compressedBlobMagic.toList ∨ magic = uncompressedBlobMagic.toList then
      .ok ⟨data⟩
    else .error "unable to parse raw blob - wrong magic"

/-- `DataBlob::load_from_reader`, over the bytes `read_to_end` returns. -/
def loadFromReader (data : List UInt8) : ExceptT String Option DataBlob := do
  let blob ← fromRaw data
  blob.verifyCrc crc32
  pure blob

/-- `DataBlob::is_encrypted`. -/
def isEncrypted (blob : DataBlob) : Option Bool := do
  let magic ← blob.magic
  pure (magic = encrComprBlobMagic ∨ magic = encryptedBlobMagic)

/-- `DataBlob::is_compressed`. -/
def isCompressed (blob : DataBlob) : Option Bool := do
  let magic ← blob.magic
  pure (magic = encrComprBlobMagic ∨ magic = compressedBlobMagic)

/-- `DataBlob::verify_unencrypted`. -/
def verifyUnencrypted (blob : DataBlob) (expectedChunkSize : Nat)
    (expectedDigest : Vector UInt8 32) : ExceptT String Option Unit := do
  let magic ← blob.magic
  if magic = encrComprBlobMagic ∨ magic = encryptedBlobMagic then return
  let data ← blob.decode zstd sha256 (none : Option (CryptConfig σ)) (some expectedDigest)
  if expectedChunkSize ≠ data.length then
    throw s!"detected chunk with wrong length ({expectedChunkSize} != {data.length})"

end DataBlob

/-! ## `DataChunkBuilder` -/

/-- `DataChunkBuilder`. Its fields `digest` and `compress` are named `digestValue` and
`compressValue` here, since its methods of those names are modelled too. -/
structure DataChunkBuilder (σ : Type) where
  config : Option (CryptConfig σ)
  origData : List UInt8
  digestComputed : Bool
  digestValue : Vector UInt8 32
  compressValue : Bool

namespace DataChunkBuilder

variable (zstd : Zstd) (crc32 : List UInt8 → UInt32) (sha256 : List UInt8 → Vector UInt8 32)

/-- `DataChunkBuilder::new`. -/
def new (origData : List UInt8) : DataChunkBuilder σ :=
  ⟨none, origData, false, Vector.replicate 32 0, true⟩

/-- `DataChunkBuilder::compress`. -/
def compress (b : DataChunkBuilder σ) (value : Bool) : DataChunkBuilder σ :=
  { b with compressValue := value }

/-- `DataChunkBuilder::crypt_config`; `none` where it panics (`unable to set crypt_config after
compute_digest().`). -/
def cryptConfig (b : DataChunkBuilder σ) (value : CryptConfig σ) : Option (DataChunkBuilder σ) :=
  if b.digestComputed then none else some { b with config := some value }

/-- `DataChunkBuilder::compute_digest`. -/
def computeDigest (b : DataChunkBuilder σ) : DataChunkBuilder σ :=
  if !b.digestComputed then
    { b with
      digestValue := match b.config with
        | some config => config.computeDigest b.origData
        | none => sha256 b.origData
      digestComputed := true }
  else b

/-- `DataChunkBuilder::digest`: the builder after the call, and the digest. -/
def digest (b : DataChunkBuilder σ) : DataChunkBuilder σ × Vector UInt8 32 :=
  let b := if !b.digestComputed then b.computeDigest sha256 else b
  (b, b.digestValue)

/-- `DataChunkBuilder::build`. -/
def build (random : Except String (Vector UInt8 16)) (b : DataChunkBuilder σ) :
    ExceptT String Option (DataBlob × Vector UInt8 32) := do
  let b := if !b.digestComputed then b.computeDigest sha256 else b
  let chunk ← DataBlob.encode zstd crc32 random b.origData b.config b.compressValue
  pure (chunk, b.digestValue)

/-- `DataChunkBuilder::build_zero_chunk`. -/
def buildZeroChunk (random : Except String (Vector UInt8 16)) (cryptConfig : Option (CryptConfig σ))
    (chunkSize : Nat) (compress : Bool) : ExceptT String Option (DataBlob × Vector UInt8 32) := do
  let zeroBytes := List.replicate chunkSize 0
  let chunkBuilder := (new zeroBytes : DataChunkBuilder σ).compress compress
  let chunkBuilder ← match cryptConfig with
    | some cryptConfig => chunkBuilder.cryptConfig cryptConfig
    | none => pure chunkBuilder
  chunkBuilder.build zstd crc32 sha256 random

end DataChunkBuilder

/-! ## What the code relies on of the codecs -/

/-- zstd is a correct codec: both compressors succeed, and `decode_all` gives back what they
were given. -/
structure Zstd.Lawful (zstd : Zstd) : Prop where
  bulkCompress : ∀ data, ∃ compressed, zstd.bulkCompress data = .ok compressed ∧
    zstd.decodeAll compressed = .ok data
  copyEncode : ∀ data, ∃ compressed, zstd.copyEncode data = .ok compressed ∧
    zstd.decodeAll compressed = .ok data

namespace CryptConfig

/-- All of `data` through a fresh encrypting crypter at once: the ciphertext with the final
bytes, and the tag. -/
def encryptAll (config : CryptConfig σ) (iv : Vector UInt8 16) (data : List UInt8) :
    Except String (List UInt8 × Vector UInt8 16) := do
  let c ← config.dataCrypter iv .encrypt
  let (c, out) ← config.crypter.update c data
  let (c, rest) ← config.crypter.finalize c
  let tag ← config.crypter.getTag c
  pure (out ++ rest, tag)

/-- All of `data` through a fresh decrypting crypter at once, the tag set before the final
bytes: the plaintext. -/
def decryptAll (config : CryptConfig σ) (iv : Vector UInt8 16) (data : List UInt8)
    (tag : Vector UInt8 16) : Except String (List UInt8) := do
  let c ← config.dataCrypter iv .decrypt
  let (c, out) ← config.crypter.update c data
  let c ← config.crypter.setTag c tag
  let (_, rest) ← config.crypter.finalize c
  pure (out ++ rest)

/-- AES-256-GCM is a correct authenticated stream cipher: a crypter takes its input in any
pieces alike; encryption succeeds and keeps the length; and both the crypter and
`decrypt_aead` decrypt the ciphertext with its tag. -/
structure Lawful (config : CryptConfig σ) : Prop where
  additive : Chunked.Additive config.crypter.update
  encrypt : ∀ iv data, ∃ ct tag, config.encryptAll iv data = .ok (ct, tag) ∧
    ct.length = data.length ∧ config.decryptAll iv ct tag = .ok data ∧
    config.decryptAead iv ct tag = .ok data

end CryptConfig

/-! ## Slices and arrays -/

theorem arrayAt_append {n : Nat} (pre : List UInt8) (v : Vector UInt8 n) (post : List UInt8) :
    arrayAt n (pre ++ v.toList ++ post) pre.length = v := by
  apply Vector.ext
  intro i hi
  have hi' : i < v.toList.length := by simpa using hi
  simp only [arrayAt, Vector.getElem_ofFn, List.getD_eq_getElem?_getD, List.append_assoc]
  rw [List.getElem?_append_right (by omega), Nat.add_sub_cancel_left,
    List.getElem?_append_left hi']
  simp [hi]

theorem arrayAt_toList {n : Nat} (v : Vector UInt8 n) : arrayAt n v.toList 0 = v := by
  simpa using arrayAt_append [] v []

theorem sliceFrom_of_le {bytes : List UInt8} {start : Nat} (h : start ≤ bytes.length) :
    sliceFrom bytes start = some (bytes.drop start) := by
  simp [sliceFrom, Nat.not_lt.mpr h]

theorem sliceTo_of_le {bytes : List UInt8} {stop : Nat} (h : stop ≤ bytes.length) :
    sliceTo bytes stop = some (bytes.take stop) := by
  simp [sliceTo, Nat.not_lt.mpr h]

theorem sliceFrom_append {pre : List UInt8} {n : Nat} (h : pre.length = n) (rest : List UInt8) :
    sliceFrom (pre ++ rest) n = some rest := by
  rw [sliceFrom_of_le (by simp; omega), ← h, List.drop_left]

theorem sliceTo_append {pre : List UInt8} {n : Nat} (h : pre.length = n) (rest : List UInt8) :
    sliceTo (pre ++ rest) n = some pre := by
  rw [sliceTo_of_le (by simp; omega), ← h, List.take_left]

namespace DataBlob

variable (zstd : Zstd) (crc32 : List UInt8 → UInt32) (sha256 : List UInt8 → Vector UInt8 32)

/-! ## The layout `encode` writes -/

/-- The blob with the magic `magic`, the CRC field `crc`, the rest of the header `headerRest`
(the IV and the tag of an encrypted blob) and the body `body`: every blob `encode` returns has
this form, with the CRC of its body. -/
def layout (magic : Vector UInt8 8) (crc : UInt32) (headerRest body : List UInt8) : DataBlob :=
  ⟨magic.toList ++ LittleEndian.toBytes 4 crc.toNat ++ headerRest ++ body⟩

theorem magic_layout (m : Vector UInt8 8) (c : UInt32) (r b : List UInt8) :
    (layout m c r b).magic = some m := by
  simp [DataBlob.magic, layout, sliceTo_of_le, List.append_assoc, arrayAt_toList]

theorem length_layout (m : Vector UInt8 8) (c : UInt32) (r b : List UInt8) :
    (layout m c r b).rawData.length = dataBlobHeaderSize + r.length + b.length := by
  simp [layout, dataBlobHeaderSize]
  omega

theorem layout_eq (m : Vector UInt8 8) (c : UInt32) (r b : List UInt8) :
    (layout m c r b).rawData = m.toList ++ (LittleEndian.toBytes 4 c.toNat ++ (r ++ b)) := by
  simp [layout]

theorem crc_layout (m : Vector UInt8 8) (c : UInt32) (r b : List UInt8) :
    (layout m c r b).crc = some c := by
  have hval : LittleEndian.ofBytes (LittleEndian.toBytes 4 c.toNat) = c.toNat :=
    LittleEndian.ofBytes_toBytes_of_lt (by simpa using c.toNat_lt)
  rw [DataBlob.crc, layout_eq, sliceFrom_append (by simp [crcOffset])]
  simp [sliceTo_append (LittleEndian.length_toBytes 4 c.toNat), hval]

theorem setCrc_layout (m : Vector UInt8 8) (c c' : UInt32) (r b : List UInt8) :
    (layout m c r b).setCrc c' = some (layout m c' r b) := by
  have hdrop : (layout m c r b).rawData.drop (crcOffset + 4) = r ++ b := by
    rw [layout_eq, ← List.append_assoc, List.drop_left' (by simp [crcOffset])]
  have htake : (layout m c r b).rawData.take crcOffset = m.toList := by
    rw [layout_eq, List.take_left' (by simp [crcOffset])]
  rw [DataBlob.setCrc, if_neg (by simp [length_layout, crcOffset, dataBlobHeaderSize]; omega),
    hdrop, htake]
  simp [layout]

theorem computeCrc_layout {m : Vector UInt8 8} {r : List UInt8}
    (hsize : headerSize m = some (dataBlobHeaderSize + r.length)) (c : UInt32) (b : List UInt8) :
    (layout m c r b).computeCrc crc32 = some (crc32 b) := by
  have hbody : (layout m c r b).rawData = (m.toList ++ LittleEndian.toBytes 4 c.toNat ++ r) ++ b := rfl
  have hlen : (m.toList ++ LittleEndian.toBytes 4 c.toNat ++ r).length =
      dataBlobHeaderSize + r.length := by
    simp [dataBlobHeaderSize]
    omega
  simp only [DataBlob.computeCrc, magic_layout, hsize, hbody, sliceFrom_append hlen,
    Option.bind_eq_bind, Option.bind_some]
  rfl

theorem withCrc_layout {m : Vector UInt8 8} {r : List UInt8}
    (hsize : headerSize m = some (dataBlobHeaderSize + r.length)) (c : UInt32) (b : List UInt8) :
    (layout m c r b).withCrc crc32 = some (layout m (crc32 b) r b) := by
  simp [DataBlob.withCrc, computeCrc_layout crc32 hsize, setCrc_layout]

theorem verifyCrc_layout {m : Vector UInt8 8} {r : List UInt8}
    (hsize : headerSize m = some (dataBlobHeaderSize + r.length)) (b : List UInt8) :
    ((layout m (crc32 b) r b).verifyCrc crc32).run = some (.ok ()) := by
  simp [DataBlob.verifyCrc, computeCrc_layout crc32 hsize, crc_layout]


theorem crypterUpdate_of_le (crypter : Crypter σ) (c : σ) {input : List UInt8}
    (h : input.length ≤ bufferSize - aes256GcmBlockSize) :
    crypterUpdate crypter bufferSize c input = ExceptT.mk (some (crypter.update c input)) := by
  rw [crypterUpdate, if_neg (by simp [minOutputSize, aes256GcmBlockSize, bufferSize] at h ⊢; omega)]
  rfl

theorem crypterFinalize_eq (crypter : Crypter σ) (c : σ) :
    crypterFinalize crypter bufferSize c = ExceptT.mk (some (crypter.finalize c)) := by
  rw [crypterFinalize, if_neg (by decide)]
  rfl

theorem feedLoop_crypterUpdate (crypter : Crypter σ) (data : List UInt8) (c : σ) :
    Chunked.feedLoop (crypterUpdate crypter bufferSize) (bufferSize - aes256GcmBlockSize) data 0
      c [] = ExceptT.mk (some (Chunked.feedLoop crypter.update
        (bufferSize - aes256GcmBlockSize) data 0 c [])) := by
  rw [Chunked.feedLoop_congr (fun c _ h => crypterUpdate_of_le crypter c h),
    Chunked.feedLoop_liftExcept]

theorem feedLoop_update {crypter : Crypter σ} (hadd : Chunked.Additive crypter.update)
    (data : List UInt8) (c : σ) :
    Chunked.feedLoop crypter.update (bufferSize - aes256GcmBlockSize) data 0 c [] =
      crypter.update c data := by
  rw [Chunked.feedLoop_eq_update hadd (by decide), List.drop_zero]
  simp

theorem encryptTo_run {config : CryptConfig σ} (hadd : Chunked.Additive config.crypter.update)
    (iv : Vector UInt8 16) (data output : List UInt8) :
    (encryptTo (.ok iv) config data output).run =
      some ((config.encryptAll iv data).map fun r => ((iv, r.2), output ++ r.1)) := by
  simp [encryptTo, CryptConfig.encryptAll, feedLoop_crypterUpdate, feedLoop_update hadd,
    crypterFinalize_eq, ExceptT.run_bind]
  -- one case for each call to the cipher
  rcases config.dataCrypter iv .encrypt with e | c
  · rfl
  dsimp only [Except.ok_bind]
  rcases config.crypter.update c data with e | ⟨c₁, out⟩
  · rfl
  dsimp only [Except.ok_bind]
  rcases config.crypter.finalize c₁ with e | ⟨c₂, rest⟩
  · rfl
  dsimp only [Except.ok_bind]
  rcases config.crypter.getTag c₂ with e | tag <;> rfl

theorem layout_eq_append (m : Vector UInt8 8) (c : UInt32) (r b : List UInt8) :
    (layout m c r b).rawData = (m.toList ++ LittleEndian.toBytes 4 c.toNat ++ r) ++ b := rfl

theorem length_header (m : Vector UInt8 8) (c : UInt32) (r : List UInt8) :
    (m.toList ++ LittleEndian.toBytes 4 c.toNat ++ r).length = dataBlobHeaderSize + r.length := by
  simp [dataBlobHeaderSize]
  omega

theorem sliceFrom_layout {m : Vector UInt8 8} {c : UInt32} {r : List UInt8} {n : Nat}
    (h : n = dataBlobHeaderSize + r.length) (b : List UInt8) :
    sliceFrom (layout m c r b).rawData n = some b := by
  rw [layout_eq_append, sliceFrom_append ((length_header m c r).trans h.symm)]

theorem sliceTo_layout {m : Vector UInt8 8} {c : UInt32} {r : List UInt8} {n : Nat}
    (h : n = dataBlobHeaderSize + r.length) (b : List UInt8) :
    sliceTo (layout m c r b).rawData n = some (m.toList ++ LittleEndian.toBytes 4 c.toNat ++ r) := by
  rw [layout_eq_append, sliceTo_append ((length_header m c r).trans h.symm)]

theorem arrayAt_of_eq {n start : Nat} {bytes : List UInt8} (pre post : List UInt8)
    {v : Vector UInt8 n} (hbytes : bytes = pre ++ v.toList ++ post) (hstart : pre.length = start) :
    arrayAt n bytes start = v := by
  subst hbytes hstart
  exact arrayAt_append pre v post

theorem readLeValue_header (m : Vector UInt8 8) (c : UInt32) (iv tag : Vector UInt8 16) :
    ∃ head, EncryptedDataBlobHeader.readLeValue
      (m.toList ++ (LittleEndian.toBytes 4 c.toNat ++ (iv.toList ++ tag.toList))) = .ok head ∧
      head.iv = iv ∧ head.tag = tag := by
  refine ⟨_, by rw [EncryptedDataBlobHeader.readLeValue, if_neg (by simp [encryptedDataBlobHeaderSize])],
    ?_, ?_⟩
  · exact arrayAt_of_eq (m.toList ++ LittleEndian.toBytes 4 c.toNat) tag.toList
      (by simp) (by simp)
  · exact arrayAt_of_eq (m.toList ++ LittleEndian.toBytes 4 c.toNat ++ iv.toList) []
      (by simp) (by simp)


theorem decodeCompressedChunk_run {config : CryptConfig σ}
    (hadd : Chunked.Additive config.crypter.update) (data : List UInt8) (iv tag : Vector UInt8 16) :
    (decodeCompressedChunk zstd config data iv tag).run =
      some (config.decryptAll iv data tag >>= zstd.decodeAll) := by
  simp [decodeCompressedChunk, CryptConfig.decryptAll, feedLoop_crypterUpdate, feedLoop_update hadd,
    crypterFinalize_eq, ExceptT.run_bind]
  rcases config.dataCrypter iv .decrypt with e | c
  · rfl
  dsimp only [Except.ok_bind]
  rcases config.crypter.update c data with e | ⟨c₁, out⟩
  · rfl
  dsimp only [Except.ok_bind]
  rcases config.crypter.setTag c₁ tag with e | c₂
  · rfl
  dsimp only [Except.ok_bind]
  rcases config.crypter.finalize c₂ with e | ⟨c₃, rest⟩ <;> rfl

theorem decode_uncompressed (c : UInt32) (d : List UInt8) (config : Option (CryptConfig σ))
    {digest : Option (Vector UInt8 32)} (hdigest : ∀ dg ∈ digest, sha256 d = dg) :
    (decode zstd sha256 (layout uncompressedBlobMagic c [] d) config digest).run =
      some (.ok d) := by
  rcases digest with _ | dg <;>
    simp [decode, magic_layout, sliceFrom_layout (n := dataBlobHeaderSize) (r := []) (by simp),
      verifyDigest, hdigest]

theorem decode_compressed (c : UInt32) {body d : List UInt8} (hz : zstd.decodeAll body = .ok d)
    (config : Option (CryptConfig σ)) {digest : Option (Vector UInt8 32)}
    (hdigest : ∀ dg ∈ digest, sha256 d = dg) :
    (decode zstd sha256 (layout compressedBlobMagic c [] body) config digest).run =
      some (.ok d) := by
  rcases digest with _ | dg <;>
    simp +decide [decode, magic_layout, sliceFrom_layout (n := dataBlobHeaderSize) (r := []) (by simp),
      hz, verifyDigest, hdigest]

theorem decode_encrypted (c : UInt32) {iv tag : Vector UInt8 16} {ct d : List UInt8}
    {config : CryptConfig σ} (hdec : config.decryptAead iv ct tag = .ok d)
    {digest : Option (Vector UInt8 32)} (hdigest : ∀ dg ∈ digest, config.computeDigest d = dg) :
    (decode zstd sha256 (layout encryptedBlobMagic c (iv.toList ++ tag.toList) ct) (some config)
      digest).run = some (.ok d) := by
  obtain ⟨head, hhead, hiv, htag⟩ := readLeValue_header encryptedBlobMagic c iv tag
  have hlen : encryptedDataBlobHeaderSize = dataBlobHeaderSize + (iv.toList ++ tag.toList).length := by
    simp [encryptedDataBlobHeaderSize, dataBlobHeaderSize]
  rcases digest with _ | dg <;>
    simp +decide [decode, magic_layout, sliceTo_layout hlen, sliceFrom_layout hlen, hhead, hiv, htag,
      decodeUncompressedChunk, hdec, verifyDigest, hdigest]

theorem decode_encrCompr (c : UInt32) {iv tag : Vector UInt8 16} {ct body d : List UInt8}
    {config : CryptConfig σ} (hadd : Chunked.Additive config.crypter.update)
    (hdec : config.decryptAll iv ct tag = .ok body) (hz : zstd.decodeAll body = .ok d)
    {digest : Option (Vector UInt8 32)} (hdigest : ∀ dg ∈ digest, config.computeDigest d = dg) :
    (decode zstd sha256 (layout encrComprBlobMagic c (iv.toList ++ tag.toList) ct) (some config)
      digest).run = some (.ok d) := by
  obtain ⟨head, hhead, hiv, htag⟩ := readLeValue_header encrComprBlobMagic c iv tag
  have hlen : encryptedDataBlobHeaderSize = dataBlobHeaderSize + (iv.toList ++ tag.toList).length := by
    simp [encryptedDataBlobHeaderSize, dataBlobHeaderSize]
  rcases digest with _ | dg <;>
    simp +decide [decode, magic_layout, sliceTo_layout hlen, sliceFrom_layout hlen, hhead, hiv, htag,
      decodeCompressedChunk_run zstd hadd, hdec, hz, verifyDigest, hdigest]

theorem toBytes_zero_crc : LittleEndian.toBytes 4 0 = [0, 0, 0, 0] := rfl

theorem mk_header (m : Vector UInt8 8) (body : List UInt8) :
    (⟨(DataBlobHeader.mk m (Vector.replicate 4 0)).toBytes ++ body⟩ : DataBlob) =
      layout m 0 [] body := by
  simp [DataBlobHeader.toBytes, layout, toBytes_zero_crc]

theorem mk_encryptedHeader (m : Vector UInt8 8) (iv tag : Vector UInt8 16) (ct : List UInt8) :
    (⟨(EncryptedDataBlobHeader.mk ⟨m, Vector.replicate 4 0⟩ iv tag).toBytes ++ ct⟩ : DataBlob) =
      layout m 0 (iv.toList ++ tag.toList) ct := by
  simp [EncryptedDataBlobHeader.toBytes, DataBlobHeader.toBytes, layout, toBytes_zero_crc]

@[simp] theorem length_toBytes_header (h : DataBlobHeader) :
    h.toBytes.length = dataBlobHeaderSize := by
  simp [DataBlobHeader.toBytes, dataBlobHeaderSize]

@[simp] theorem length_toBytes_encryptedHeader (h : EncryptedDataBlobHeader) :
    h.toBytes.length = encryptedDataBlobHeaderSize := by
  simp [EncryptedDataBlobHeader.toBytes, encryptedDataBlobHeaderSize, dataBlobHeaderSize]

theorem headerSize_plain {m : Vector UInt8 8} (hm : m = uncompressedBlobMagic ∨ m = compressedBlobMagic) :
    headerSize m = some (dataBlobHeaderSize + ([] : List UInt8).length) := by
  rcases hm with rfl | rfl <;> decide

theorem headerSize_encrypted {m : Vector UInt8 8} (hm : m = encryptedBlobMagic ∨ m = encrComprBlobMagic)
    (iv tag : Vector UInt8 16) :
    headerSize m = some (dataBlobHeaderSize + (iv.toList ++ tag.toList).length) := by
  rcases hm with rfl | rfl <;> simp +decide [headerSize, dataBlobHeaderSize, encryptedDataBlobHeaderSize]

theorem encode_plain (hz : zstd.Lawful) (random : Except String (Vector UInt8 16)) {data : List UInt8}
    (hsize : data.length ≤ maxBlobSize) (compress : Bool) :
    ∃ magic body, (encode zstd crc32 random data (none : Option (CryptConfig σ)) compress).run =
        some (.ok (layout magic (crc32 body) [] body)) ∧
      (magic = uncompressedBlobMagic ∧ body = data ∨
        compress = true ∧ magic = compressedBlobMagic ∧ body.length < data.length ∧
          zstd.decodeAll body = .ok data) := by
  have huncompressed := withCrc_layout crc32 (headerSize_plain (.inl rfl)) 0 data
  cases compress with
  | false =>
    refine ⟨_, _, ?_, .inl ⟨rfl, rfl⟩⟩
    simp [encode, Nat.not_lt.mpr hsize, mk_header, huncompressed]
  | true =>
    obtain ⟨body, hbody, hdecode⟩ := hz.copyEncode data
    -- `comp_data.len() < max_data_len` compares the whole blobs, header included
    have hcond : dataBlobHeaderSize + body.length < data.length + dataBlobHeaderSize ↔
        body.length < data.length := by omega
    by_cases hshort : body.length < data.length
    · refine ⟨_, _, ?_, .inr ⟨rfl, rfl, hshort, hdecode⟩⟩
      simp [encode, Nat.not_lt.mpr hsize, hbody, mk_header, hcond, hshort,
        withCrc_layout crc32 (headerSize_plain (.inr rfl)) 0 body]
    · refine ⟨_, _, ?_, .inl ⟨rfl, rfl⟩⟩
      simp [encode, Nat.not_lt.mpr hsize, hbody, mk_header, huncompressed, hcond, hshort]

theorem encodeEncrypted_run (hz : zstd.Lawful) {config : CryptConfig σ} (hc : config.Lawful)
    (iv : Vector UInt8 16) (data : List UInt8) (compress : Bool) :
    ∃ magic ct tag body, (encodeEncrypted zstd (.ok iv) config data compress).run =
        some (.ok (layout magic 0 (iv.toList ++ tag.toList) ct)) ∧
      config.decryptAll iv ct tag = .ok body ∧ config.decryptAead iv ct tag = .ok body ∧
      ct.length ≤ data.length ∧
      (magic = encryptedBlobMagic ∧ body = data ∨
        compress = true ∧ magic = encrComprBlobMagic ∧ zstd.decodeAll body = .ok data) := by
  cases compress with
  | false =>
    obtain ⟨ct, tag, henc, hlen, hdec, haead⟩ := hc.encrypt iv data
    refine ⟨_, ct, tag, data, ?_, hdec, haead, hlen.le, .inl ⟨rfl, rfl⟩⟩
    simp [encodeEncrypted, encryptTo_run hc.additive, henc, sliceTo_append, List.drop_left',
      mk_encryptedHeader]
  | true =>
    obtain ⟨compressed, hcompress, hdecode⟩ := hz.bulkCompress data
    by_cases hshort : compressed.length < data.length
    · -- the compressed data is encrypted
      obtain ⟨ct, tag, henc, hlen, hdec, haead⟩ := hc.encrypt iv compressed
      refine ⟨_, ct, tag, compressed, ?_, hdec, haead, by omega, .inr ⟨rfl, rfl, hdecode⟩⟩
      simp [encodeEncrypted, hcompress, hshort, encryptTo_run hc.additive, henc, sliceTo_append,
        List.drop_left', mk_encryptedHeader]
    · obtain ⟨ct, tag, henc, hlen, hdec, haead⟩ := hc.encrypt iv data
      refine ⟨_, ct, tag, data, ?_, hdec, haead, hlen.le, .inl ⟨rfl, rfl⟩⟩
      simp [encodeEncrypted, hcompress, hshort, encryptTo_run hc.additive, henc, sliceTo_append,
        List.drop_left', mk_encryptedHeader]

theorem encode_encrypted (hz : zstd.Lawful) {config : CryptConfig σ} (hc : config.Lawful)
    (iv : Vector UInt8 16) {data : List UInt8} (hsize : data.length ≤ maxBlobSize) (compress : Bool) :
    ∃ magic ct tag body, (encode zstd crc32 (.ok iv) data (some config) compress).run =
        some (.ok (layout magic (crc32 ct) (iv.toList ++ tag.toList) ct)) ∧
      config.decryptAll iv ct tag = .ok body ∧ config.decryptAead iv ct tag = .ok body ∧
      ct.length ≤ data.length ∧
      (magic = encryptedBlobMagic ∧ body = data ∨
        compress = true ∧ magic = encrComprBlobMagic ∧ zstd.decodeAll body = .ok data) := by
  obtain ⟨magic, ct, tag, body, henc, hdec, haead, hlen, hcases⟩ :=
    encodeEncrypted_run zstd hz hc iv data compress
  have hm : magic = encryptedBlobMagic ∨ magic = encrComprBlobMagic := by
    rcases hcases with ⟨rfl, -⟩ | ⟨-, rfl, -⟩ <;> simp
  refine ⟨magic, ct, tag, body, ?_, hdec, haead, hlen, hcases⟩
  simp [encode, Nat.not_lt.mpr hsize, ExceptT.run_bind, henc,
    withCrc_layout crc32 (headerSize_encrypted hm iv tag)]

theorem fromRaw_layout {m : Vector UInt8 8} {r : List UInt8}
    (hsize : headerSize m = some (dataBlobHeaderSize + r.length)) (c : UInt32) (b : List UInt8) :
    fromRaw (layout m c r b).rawData = .ok (layout m c r b) := by
  have htake : (layout m c r b).rawData.take 8 = m.toList := by
    rw [layout_eq, List.take_left' (by simp)]
  have hlen := length_layout m c r b
  -- an encrypted header's IV and tag are the rest of its header
  have hroom : encryptedDataBlobHeaderSize = dataBlobHeaderSize + r.length →
      ¬ (layout m c r b).rawData.length < encryptedDataBlobHeaderSize := by
    omega
  rw [fromRaw, if_neg (by omega), htake]
  simp only [Vector.toList_inj]
  -- one case for each magic `header_size` knows
  unfold headerSize at hsize
  split_ifs at hsize with hu hc he hec
  · subst hu
    simp +decide
  · subst hc
    simp +decide
  · subst he
    simp [hroom (Option.some.inj hsize)]
  · subst hec
    simp [hroom (Option.some.inj hsize)]

/-- What `from_raw` checks of a blob: a magic `header_size` knows, and room for that header. -/
def Accepted (blob : DataBlob) : Prop :=
  ∃ magic n, blob.magic = some magic ∧ headerSize magic = some n ∧ n ≤ blob.rawData.length

theorem magic_of_take {raw : List UInt8} {m : Vector UInt8 8} (hlen : 8 ≤ raw.length)
    (htake : raw.take 8 = m.toList) : (⟨raw⟩ : DataBlob).magic = some m := by
  simp [DataBlob.magic, sliceTo_of_le hlen, htake, arrayAt_toList]

theorem headerSize_cases {m : Vector UInt8 8} {n : Nat} (h : headerSize m = some n) :
    (m = uncompressedBlobMagic ∨ m = compressedBlobMagic) ∧ n = dataBlobHeaderSize ∨
      (m = encryptedBlobMagic ∨ m = encrComprBlobMagic) ∧ n = encryptedDataBlobHeaderSize := by
  unfold headerSize at h
  split_ifs at h with hu hc he hec <;> cases h <;> simp_all

theorem accepted_of_take {raw : List UInt8} {m : Vector UInt8 8} {n : Nat}
    (htake : raw.take 8 = m.toList) (hsize : headerSize m = some n) (hlen : n ≤ raw.length) :
    (⟨raw⟩ : DataBlob).Accepted := by
  have h8 : 8 ≤ n := by
    rcases headerSize_cases hsize with ⟨-, rfl⟩ | ⟨-, rfl⟩ <;> decide
  exact ⟨m, n, magic_of_take (by omega) htake, hsize, hlen⟩

theorem fromRaw_accepted {raw : List UInt8} {blob : DataBlob} (h : fromRaw raw = .ok blob) :
    blob = ⟨raw⟩ ∧ blob.Accepted := by
  unfold fromRaw at h
  dsimp only at h
  split_ifs at h with hsmall henc hsmall' hplain <;> cases h
  · refine ⟨rfl, ?_⟩
    rcases henc with hm | hm
    · exact accepted_of_take hm (n := encryptedDataBlobHeaderSize) (by decide) (by omega)
    · exact accepted_of_take hm (n := encryptedDataBlobHeaderSize) (by decide) (by omega)
  · refine ⟨rfl, ?_⟩
    rcases hplain with hm | hm
    · exact accepted_of_take hm (n := dataBlobHeaderSize) (by decide) (by omega)
    · exact accepted_of_take hm (n := dataBlobHeaderSize) (by decide) (by omega)

theorem computeCrc_isSome {blob : DataBlob} (hacc : blob.Accepted) :
    (blob.computeCrc crc32).isSome := by
  obtain ⟨m, n, hm, hn, hlen⟩ := hacc
  simp [DataBlob.computeCrc, hm, hn, sliceFrom_of_le hlen]

theorem crc_isSome {blob : DataBlob} (hacc : blob.Accepted) : blob.crc.isSome := by
  obtain ⟨m, n, hm, hn, hlen⟩ := hacc
  have h12 : dataBlobHeaderSize ≤ n := by
    rcases headerSize_cases hn with ⟨-, rfl⟩ | ⟨-, rfl⟩ <;> decide
  have hfrom : crcOffset ≤ blob.rawData.length := by
    simp only [crcOffset, dataBlobHeaderSize] at h12 ⊢
    omega
  have hto : 4 ≤ (blob.rawData.drop crcOffset).length := by
    simp only [List.length_drop, crcOffset, dataBlobHeaderSize] at h12 ⊢
    omega
  simp [DataBlob.crc, sliceFrom_of_le hfrom, sliceTo_of_le hto]

theorem verifyCrc_isSome {blob : DataBlob} (hacc : blob.Accepted) :
    (blob.verifyCrc crc32).run.isSome := by
  obtain ⟨expected, hexpected⟩ := Option.isSome_iff_exists.mp (computeCrc_isSome crc32 hacc)
  obtain ⟨crc, hcrc⟩ := Option.isSome_iff_exists.mp (crc_isSome hacc)
  simp only [DataBlob.verifyCrc, hexpected, hcrc, ExceptT.run_bind, ExceptT.run_liftM_option,
    Option.map_some, Option.bind_eq_bind, Option.bind_some]
  split <;> rfl

theorem cryptMode_isSome {blob : DataBlob} (hacc : blob.Accepted) : blob.cryptMode.run.isSome := by
  obtain ⟨m, n, hm, -, -⟩ := hacc
  simp only [DataBlob.cryptMode, hm, ExceptT.run_bind, ExceptT.run_liftM_option, Option.map_some,
    Option.bind_eq_bind, Option.bind_some]
  split_ifs <;> rfl

theorem decodeCompressedChunk_isSome (config : CryptConfig σ) (data : List UInt8)
    (iv tag : Vector UInt8 16) : (decodeCompressedChunk zstd config data iv tag).run.isSome := by
  simp only [decodeCompressedChunk, feedLoop_crypterUpdate, crypterFinalize_eq, ExceptT.run_bind,
    ExceptT.run_liftM_except, ExceptT.run_mk, Option.bind_eq_bind, Option.bind_some]
  split
  · split
    · split
      · split <;> rfl
      · rfl
    · rfl
  · rfl

theorem decode_isSome {blob : DataBlob} (hacc : blob.Accepted) (config : Option (CryptConfig σ))
    (digest : Option (Vector UInt8 32)) : (blob.decode zstd sha256 config digest).run.isSome := by
  obtain ⟨m, n, hm, hn, hlen⟩ := hacc
  rcases headerSize_cases hn with ⟨hplain, rfl⟩ | ⟨henc, rfl⟩
  · have hbody := sliceFrom_of_le hlen
    rcases hplain with rfl | rfl
    · cases digest with
      | none => simp [decode, hm, hbody]
      | some digest => simp [decode, hm, hbody]
    · -- zstd may fail, but not panic
      have hmagic : compressedBlobMagic ≠ uncompressedBlobMagic := by decide
      cases hz : zstd.decodeAll (blob.rawData.drop dataBlobHeaderSize) with
      | error e => simp [decode, hm, hbody, hmagic, hz]
      | ok data =>
        cases digest with
        | none => simp [decode, hm, hbody, hmagic, hz]
        | some digest => simp [decode, hm, hbody, hmagic, hz]
  · have hhead : ∃ head, EncryptedDataBlobHeader.readLeValue
        (blob.rawData.take encryptedDataBlobHeaderSize) = .ok head := by
      simp [EncryptedDataBlobHeader.readLeValue, hlen]
    obtain ⟨head, hhead⟩ := hhead
    have hprefix := sliceTo_of_le hlen
    cases config with
    | none =>
      -- without a key both kinds stop with an error
      rcases henc with rfl | rfl
      · simp +decide [decode, hm, hprefix, hhead]
      · simp +decide [decode, hm, hprefix, hhead]
    | some config =>
      have hbody := sliceFrom_of_le hlen
      rcases henc with rfl | rfl
      · -- decrypt_aead may fail, but not panic
        cases hd : decodeUncompressedChunk config (blob.rawData.drop encryptedDataBlobHeaderSize)
            head.iv head.tag with
        | error e => simp +decide [decode, hm, hprefix, hhead, hbody, hd]
        | ok data =>
          cases digest with
          | none => simp +decide [decode, hm, hprefix, hhead, hbody, hd]
          | some digest => simp +decide [decode, hm, hprefix, hhead, hbody, hd]
      · -- the crypter loop does not panic
        obtain ⟨r, hr⟩ := Option.isSome_iff_exists.mp (decodeCompressedChunk_isSome zstd config
          (blob.rawData.drop encryptedDataBlobHeaderSize) head.iv head.tag)
        cases r with
        | error e => simp +decide [decode, hm, hprefix, hhead, hbody, hr]
        | ok data =>
          cases digest with
          | none => simp +decide [decode, hm, hprefix, hhead, hbody, hr]
          | some digest => simp +decide [decode, hm, hprefix, hhead, hbody, hr]

theorem build_new (random : Except String (Vector UInt8 16)) (data : List UInt8)
    (config : Option (CryptConfig σ)) (compress : Bool) :
    ∃ b, (match config with
        | some c => ((DataChunkBuilder.new data).compress compress).cryptConfig c
        | none => some ((DataChunkBuilder.new data).compress compress)) = some b ∧
      (b.build zstd crc32 sha256 random).run = (do
        let blob ← encode zstd crc32 random data config compress
        pure (blob, match config with
          | some c => c.computeDigest data
          | none => sha256 data)).run := by
  cases config <;> exact ⟨_, rfl, rfl⟩

/-- What `encode` promises of the blob it returns for `data`: `from_raw` accepts its bytes, its
CRC verifies, it is encrypted exactly when a configuration was given and compressed only if that
was asked for, it is at most a header longer than the data, and it decodes back to `data` under
the digest that `DataChunkBuilder` computes for the data and the configuration. -/
structure EncodeSpec (iv : Vector UInt8 16) (data : List UInt8)
    (config : Option (CryptConfig σ)) (compress : Bool) (blob : DataBlob) : Prop where
  fromRaw_eq : fromRaw blob.rawData = .ok blob
  verifyCrc_eq : (blob.verifyCrc crc32).run = some (.ok ())
  isEncrypted_eq : blob.isEncrypted = some config.isSome
  compress_of_isCompressed : blob.isCompressed = some true → compress = true
  rawSize_le : ∃ magic n, blob.magic = some magic ∧ headerSize magic = some n ∧
    blob.rawSize ≤ data.length + n
  decode_digest : ∃ b digest, (match config with
      | some c => ((DataChunkBuilder.new data).compress compress).cryptConfig c
      | none => some ((DataChunkBuilder.new data).compress compress)) = some b ∧
    (b.build zstd crc32 sha256 (.ok iv)).run = some (.ok (blob, digest)) ∧
    (blob.decode zstd sha256 config (some digest)).run = some (.ok data)

theorem encode_plain_spec (hz : zstd.Lawful) (iv : Vector UInt8 16) {data : List UInt8}
    (hsize : data.length ≤ maxBlobSize) (compress : Bool) :
    ∃ blob, (encode zstd crc32 (.ok iv) data (none : Option (CryptConfig σ)) compress).run =
      some (.ok blob) ∧ EncodeSpec zstd crc32 sha256 iv data (none : Option (CryptConfig σ)) compress blob := by
  obtain ⟨magic, body, henc, hcases⟩ :
      ∃ magic body, (encode zstd crc32 (.ok iv) data (none : Option (CryptConfig σ)) compress).run =
        some (.ok (layout magic (crc32 body) [] body)) ∧ _ :=
    encode_plain zstd crc32 hz (.ok iv) hsize compress
  have hm : magic = uncompressedBlobMagic ∨ magic = compressedBlobMagic := by
    rcases hcases with ⟨rfl, -⟩ | ⟨-, rfl, -⟩ <;> simp
  have hheader := headerSize_plain hm
  have hlen : body.length ≤ data.length := by
    rcases hcases with ⟨-, rfl⟩ | ⟨-, -, hshort, -⟩ <;> omega
  obtain ⟨b, hb, hbuild⟩ := build_new zstd crc32 sha256 (.ok iv) data (none : Option (CryptConfig σ)) compress
  refine ⟨_, henc, ⟨fromRaw_layout hheader _ _, verifyCrc_layout crc32 hheader body, ?_, ?_,
    ⟨magic, _, magic_layout .., hheader, by simp [rawSize, length_layout]; omega⟩,
    b, sha256 data, hb, by simp [hbuild, henc], ?_⟩⟩
  · rcases hcases with ⟨rfl, -⟩ | ⟨-, rfl, -⟩ <;> simp +decide [isEncrypted, magic_layout]
  · rcases hcases with ⟨rfl, -⟩ | ⟨hc, rfl, -⟩
    · simp +decide [isCompressed, magic_layout]
    · exact fun _ => hc
  · rcases hcases with ⟨rfl, rfl⟩ | ⟨-, rfl, -, hdecode⟩
    · exact decode_uncompressed zstd sha256 _ _ _ (by simp)
    · exact decode_compressed zstd sha256 _ hdecode _ (by simp)

theorem encode_encrypted_spec (hz : zstd.Lawful) {config : CryptConfig σ} (hc : config.Lawful)
    (iv : Vector UInt8 16) {data : List UInt8} (hsize : data.length ≤ maxBlobSize)
    (compress : Bool) :
    ∃ blob, (encode zstd crc32 (.ok iv) data (some config) compress).run = some (.ok blob) ∧
      EncodeSpec zstd crc32 sha256 iv data (some config) compress blob := by
  obtain ⟨magic, ct, tag, body, henc, hdec, haead, hlen, hcases⟩ :=
    encode_encrypted zstd crc32 hz hc iv hsize compress
  have hm : magic = encryptedBlobMagic ∨ magic = encrComprBlobMagic := by
    rcases hcases with ⟨rfl, -⟩ | ⟨-, rfl, -⟩ <;> simp
  have hheader := headerSize_encrypted hm iv tag
  obtain ⟨b, hb, hbuild⟩ := build_new zstd crc32 sha256 (.ok iv) data (some config) compress
  refine ⟨_, henc, ⟨fromRaw_layout hheader _ _, verifyCrc_layout crc32 hheader ct, ?_, ?_,
    ⟨magic, _, magic_layout .., hheader, by simp [rawSize, length_layout]; omega⟩,
    b, config.computeDigest data, hb, by simp [hbuild, henc], ?_⟩⟩
  · rcases hcases with ⟨rfl, -⟩ | ⟨-, rfl, -⟩ <;> simp +decide [isEncrypted, magic_layout]
  · rcases hcases with ⟨rfl, -⟩ | ⟨hcomp, rfl, -⟩
    · simp +decide [isCompressed, magic_layout]
    · exact fun _ => hcomp
  · rcases hcases with ⟨rfl, rfl⟩ | ⟨-, rfl, hdecode⟩
    · exact decode_encrypted zstd sha256 _ haead (by simp)
    · exact decode_encrCompr zstd sha256 _ hc.additive hdec hdecode (by simp)

/-- The blob format's contract. With zstd a correct codec, `encode` succeeds on every data of at
most `MAX_BLOB_SIZE` bytes, with or without a configuration whose cipher is a correct AES-256-GCM,
compressed or not, and returns a blob that meets `EncodeSpec`; and on every blob `from_raw`
accepts, `compute_crc`, `verify_crc`, `crypt_mode` and `decode` (with any codecs, configuration
and digest) return without a panic. -/
theorem encode_spec_fromRaw_safe (hz : zstd.Lawful) :
    (∀ (config : Option (CryptConfig σ)), (∀ c ∈ config, c.Lawful) →
      ∀ (iv : Vector UInt8 16) (data : List UInt8), data.length ≤ maxBlobSize → ∀ compress,
        ∃ blob, (encode zstd crc32 (.ok iv) data config compress).run = some (.ok blob) ∧
          EncodeSpec zstd crc32 sha256 iv data config compress blob) ∧
    (∀ raw blob, fromRaw raw = .ok blob →
      (blob.computeCrc crc32).isSome ∧ (blob.verifyCrc crc32).run.isSome ∧
        blob.cryptMode.run.isSome ∧
        ∀ (config : Option (CryptConfig σ)) digest, (blob.decode zstd sha256 config digest).run.isSome) := by
  refine ⟨?_, ?_⟩
  · intro config hconfig iv data hsize compress
    cases config with
    | none => exact encode_plain_spec zstd crc32 sha256 hz iv hsize compress
    | some config =>
      exact encode_encrypted_spec zstd crc32 sha256 hz (hconfig config rfl) iv hsize compress
  · intro raw blob hraw
    obtain ⟨-, hacc⟩ := fromRaw_accepted hraw
    exact ⟨computeCrc_isSome crc32 hacc, verifyCrc_isSome crc32 hacc, cryptMode_isSome hacc,
      fun config digest => decode_isSome zstd sha256 hacc config digest⟩

end DataBlob

/-- zstd as the identity: a codec that meets `Zstd.Lawful`. -/
def Zstd.identity : Zstd := ⟨.ok, .ok, .ok⟩

theorem Zstd.identity_lawful : Zstd.identity.Lawful :=
  ⟨fun data => ⟨data, rfl, rfl⟩, fun data => ⟨data, rfl, rfl⟩⟩

/-- A cipher that leaves the data as it is, with a zero tag: it meets `CryptConfig.Lawful`, so
the laws ask nothing that cannot be met. -/
def CryptConfig.identity : CryptConfig Unit where
  computeDigest _ := Vector.replicate 32 0
  dataCrypter _ _ := .ok ()
  crypter := ⟨fun c data => .ok (c, data), fun c => .ok (c, []), fun _ => .ok (Vector.replicate 16 0),
    fun c _ => .ok c⟩
  decryptAead _ data _ := .ok data

theorem CryptConfig.identity_lawful : CryptConfig.identity.Lawful where
  additive := ⟨fun _ => rfl, fun _ _ _ => rfl⟩
  encrypt iv data := ⟨data, Vector.replicate 16 0, by simp [encryptAll, identity], rfl,
    by simp [decryptAll, identity], rfl⟩

/-- The contract with zstd as the identity, CRC32 and SHA-256 as constants, and the identity
cipher as the configuration's. -/
theorem encode_spec_fromRaw_safe_identity :
    Zstd.identity.Lawful ∧ CryptConfig.identity.Lawful ∧
    ((∀ (config : Option (CryptConfig Unit)), (∀ c ∈ config, c.Lawful) →
      ∀ (iv : Vector UInt8 16) (data : List UInt8), data.length ≤ maxBlobSize → ∀ compress,
        ∃ blob, (DataBlob.encode Zstd.identity (fun _ => 0) (.ok iv) data config compress).run =
            some (.ok blob) ∧
          DataBlob.EncodeSpec Zstd.identity (fun _ => 0) (fun _ => Vector.replicate 32 0) iv data
            config compress blob) ∧
    (∀ raw blob, DataBlob.fromRaw raw = .ok blob →
      (blob.computeCrc (fun _ => 0)).isSome ∧ (blob.verifyCrc (fun _ => 0)).run.isSome ∧
        blob.cryptMode.run.isSome ∧
        ∀ (config : Option (CryptConfig Unit)) digest,
          (blob.decode Zstd.identity (fun _ => Vector.replicate 32 0) config digest).run.isSome)) :=
  ⟨Zstd.identity_lawful, CryptConfig.identity_lawful,
    DataBlob.encode_spec_fromRaw_safe Zstd.identity (fun _ => 0) (fun _ => Vector.replicate 32 0)
      Zstd.identity_lawful⟩

end ProxmoxBackup
