import ProxmoxBackup.Foundations.Json
import ProxmoxBackup.Foundations.Except
import ProxmoxBackup.Foundations.Checked
import ProxmoxBackup.ApiTypes.Namespace
import ProxmoxBackup.Backup.Verify
import ProxmoxBackup.Client.KeyConfig

/-!
# The backup manifest and its signature (`pbs-datastore/src/manifest.rs`)

A snapshot's manifest lists its files and is stored as JSON. With a key, `to_string` adds a
signature, the HMAC under the key of the canonical JSON of the manifest without its `unprotected`
and `signature` members, and writes the key's fingerprint into `unprotected`; `from_data` reads a
manifest and, when given a key and the text carries a signature, checks the fingerprint and the
signature against the parsed text.

serde_json's text functions and key access and `proxmox_serde`'s canonical JSON are not part of
the repository: they are the parameter `JsonCodec`, on texts of any type, whose key access keeps
what serde_json documents of it (`Json.KeyAccess`), and the key is what the manifest uses of
a `CryptConfig`: its authentication tag and fingerprint. The serde derive of the two structs,
whose fields and defaults the source gives, is modelled (`BackupManifest.toValue`, `fromValue`),
and so is `hex`'s decoder, on the bytes of the text.

* `fromData_toString`: `from_data` reads back what `to_string` writes with the same key, with the
  computed signature and the fingerprint in `unprotected`, whenever `to_string` can write the
  fingerprint into `unprotected`.
* `fromData_signed`: a manifest `from_data` accepts with a key from a text that carries a
  signature is, but for `unprotected` and `signature`, what is read from the signed part of the
  text, and the signature is the key's tag of that part.
* `toString_panics_on_unprotected_true`: a manifest whose `unprotected` is `true`, which serde
  reads and writes like any other, makes `to_string` with a key fail: `IndexMut` panics on it.
-/

namespace ProxmoxBackup.Manifest

open Json
open DataBlob (CryptMode)
open Verify (FileInfo)
open ApiTypes (BackupType)
open Backup (hexEncode)

/-- What the manifest uses of a `CryptConfig`: `compute_auth_tag`, the HMAC-SHA256 of data under
the key, and the key's fingerprint. -/
structure CryptConfig where
  computeAuthTag : List UInt8 → Vector UInt8 32
  fingerprint : Fingerprint

/-- The JSON functions the manifest uses, on texts of type `Text`: `serde_json`'s key access
(`Index` and `IndexMut`), `to_string_pretty` and `from_slice`, and
`proxmox_serde::json::to_canonical_json`. -/
structure JsonCodec (Text : Type) extends KeyAccess where
  toStringPretty : Value → Text
  fromSlice : Text → Except String Value
  toCanonicalJson : Value → Except String (List UInt8)

/-- Reading a text back gives the value it was written from. -/
def JsonCodec.Lawful {Text : Type} (codec : JsonCodec Text) : Prop :=
  ∀ v, codec.fromSlice (codec.toStringPretty v) = .ok v

/-! ## Hex digits (`hex::decode_to_slice`) -/

/-- The bytes of a text, `as_bytes`. -/
def utf8Bytes (s : String) : List UInt8 := s.toUTF8.data.toList

/-- `val`: the value of a hex digit, in either case. -/
def hexVal (c : UInt8) : Option Nat :=
  if 65 ≤ c ∧ c ≤ 70 then some (c.toNat - 65 + 10)
  else if 97 ≤ c ∧ c ≤ 102 then some (c.toNat - 97 + 10)
  else if 48 ≤ c ∧ c ≤ 57 then some (c.toNat - 48)
  else none

/-- The bytes of pairs of hex digits, the first digit at position `pos`; the high digit of a pair
is read first. -/
def hexDecodePairs (pos : Nat) : List UInt8 → Except String (List UInt8)
  | [] => .ok []
  | [_] => .error "Odd number of digits"
  | hi :: lo :: rest =>
    match hexVal hi, hexVal lo with
    | some h, some l => do
      let bytes ← hexDecodePairs (pos + 2) rest
      pure (UInt8.ofNat (16 * h + l) :: bytes)
    | none, _ =>
      let shown := repr (Char.ofNat hi.toNat)
      .error s!"Invalid character {shown} at position {pos}"
    | some _, none =>
      let shown := repr (Char.ofNat lo.toNat)
      let position := pos + 1
      .error s!"Invalid character {shown} at position {position}"

/-- `hex::decode_to_slice` into `n` bytes: the data must hold exactly `2 n` digits. -/
def hexDecodeToSlice (n : Nat) (data : List UInt8) : Except String (Vector UInt8 n) := do
  if data.length % 2 ≠ 0 then throw "Odd number of digits"
  if data.length / 2 ≠ n then throw "Invalid string length"
  let bytes ← hexDecodePairs 0 data
  -- one byte per pair of digits, so this is the length checked above
  if bytes.length = n then pure (Vector.ofFn fun i => bytes.getD i 0)
  else throw "Invalid string length"

/-! ## The manifest as serde writes and reads it -/

/-- `BackupManifest`. -/
structure BackupManifest where
  backupType : BackupType
  backupId : String
  backupTime : Int64
  files : List FileInfo
  unprotected : Value
  signature : Option String

/-- `Serialize for Fingerprint`: all its bytes, with colons. -/
def fingerprintToValue (fp : Fingerprint) : Value := .string (asFingerprint fp.bytes.toList)

/-- `Deserialize for Fingerprint`: the colons are dropped and the hex digits decoded. -/
def fingerprintFromValue : Value → Except String Fingerprint
  | .string s => do
    let bytes ← hexDecodeToSlice 32 (utf8Bytes (String.ofList (s.toList.filter (· != ':'))))
    pure ⟨bytes⟩
  | _ => .error "invalid type: expected a string"

/-- `CryptMode` in kebab case. -/
def cryptModeToValue : CryptMode → Value
  | .none => .string "none"
  | .encrypt => .string "encrypt"
  | .signOnly => .string "sign-only"

def cryptModeFromValue : Value → Except String CryptMode
  | .string "none" => .ok .none
  | .string "encrypt" => .ok .encrypt
  | .string "sign-only" => .ok .signOnly
  | _ => .error "unknown variant, expected one of none, encrypt, sign-only"

/-- `BackupType` in lower case. -/
def backupTypeToValue : BackupType → Value
  | .vm => .string "vm"
  | .ct => .string "ct"
  | .host => .string "host"

def backupTypeFromValue : Value → Except String BackupType
  | .string "vm" => .ok .vm
  | .string "ct" => .ok .ct
  | .string "host" => .ok .host
  | _ => .error "unknown variant, expected one of vm, ct, host"

def stringFromValue : Value → Except String String
  | .string s => .ok s
  | _ => .error "invalid type: expected a string"

/-- A JSON number as an `i64`. -/
def i64FromValue : Value → Except String Int64
  | .number n => if Int64.InRange n then .ok (Int64.ofInt n) else .error "invalid value: expected i64"
  | _ => .error "invalid type: expected i64"

/-- A JSON number as a `u64`. -/
def u64FromValue : Value → Except String Nat
  | .number n => if 0 ≤ n ∧ n < 2 ^ 64 then .ok n.toNat else .error "invalid value: expected u64"
  | _ => .error "invalid type: expected u64"

/-- `hex::serde` for a digest: its hex digits. -/
def csumFromValue : Value → Except String (Vector UInt8 32)
  | .string s => hexDecodeToSlice 32 (utf8Bytes s)
  | _ => .error "invalid type: expected a string"

/-- `Option<String>`: `None` is `null`. -/
def optionStringToValue : Option String → Value
  | some s => .string s
  | none => .null

def optionStringFromValue : Value → Except String (Option String)
  | .null => .ok none
  | .string s => .ok (some s)
  | _ => .error "invalid type: expected a string"

/-- `Serialize for FileInfo`. -/
def fileInfoToValue (info : FileInfo) : Value :=
  .object [("filename", .string info.filename), ("crypt-mode", cryptModeToValue info.cryptMode),
    ("size", .number info.size), ("csum", .string (hexEncode info.csum.toList))]

/-- `Deserialize for FileInfo`: `crypt-mode` defaults to `none` (backups before 0.8.0). Which
error is reported first when several fields are wrong is not modelled. -/
def fileInfoFromValue : Value → Except String FileInfo
  | .object m => do
    let filename ← field m "filename" stringFromValue
    let cryptMode ← fieldD m "crypt-mode" .none cryptModeFromValue
    let size ← field m "size" u64FromValue
    let csum ← field m "csum" csumFromValue
    pure ⟨filename, cryptMode, size, csum⟩
  | _ => .error "invalid type: expected struct FileInfo"

/-- `Vec<FileInfo>`. -/
def filesFromValue : Value → Except String (List FileInfo)
  | .array elems => elems.mapM fileInfoFromValue
  | _ => .error "invalid type: expected a sequence"

/-- The members `Serialize for BackupManifest` writes, one per field. -/
def BackupManifest.members (m : BackupManifest) : List (String × Value) :=
  [("backup-type", backupTypeToValue m.backupType), ("backup-id", .string m.backupId),
    ("backup-time", .number m.backupTime.toInt), ("files", .array (m.files.map fileInfoToValue)),
    ("unprotected", m.unprotected), ("signature", optionStringToValue m.signature)]

/-- `serde_json::to_value` of a manifest. -/
def BackupManifest.toValue (m : BackupManifest) : Value := .object m.members

/-- `Deserialize for BackupManifest`: `unprotected` defaults to `{}` (backups before 0.8.0) and
a missing `signature` is `None`. -/
def BackupManifest.fromValue : Value → Except String BackupManifest
  | .object m => do
    let backupType ← field m "backup-type" backupTypeFromValue
    let backupId ← field m "backup-id" stringFromValue
    let backupTime ← field m "backup-time" i64FromValue
    let files ← field m "files" filesFromValue
    let unprotected ← fieldD m "unprotected" (.object []) pure
    let signature ← fieldD m "signature" none optionStringFromValue
    pure ⟨backupType, backupId, backupTime, files, unprotected, signature⟩
  | _ => .error "invalid type: expected struct BackupManifest"

/-! ## Signing -/

/-- The members `json_signature` signs: all but `unprotected` and `signature`. -/
def signedMembers (ms : List (String × Value)) : List (String × Value) :=
  (ms.filter fun p => p.1 != "unprotected").filter fun p => p.1 != "signature"

section Signing

variable {Text : Type} (codec : JsonCodec Text)

/-- `BackupManifest::json_signature`: the tag of the canonical JSON of `data` without its
`unprotected` and `signature` members; `data` must be an object (`unwrap`). -/
def jsonSignature (data : Value) (cryptConfig : CryptConfig) :
    ExceptT String Option (Vector UInt8 32) := do
  let signedData ← liftM (data.removeKey "unprotected")
  let signedData ← liftM (signedData.removeKey "signature")
  let canonical ← liftM (codec.toCanonicalJson signedData)
  pure (cryptConfig.computeAuthTag canonical)

/-- `BackupManifest::signature` (the field of that name holds the stored one). -/
def BackupManifest.manifestSignature (m : BackupManifest) (cryptConfig : CryptConfig) :
    ExceptT String Option (Vector UInt8 32) :=
  jsonSignature codec m.toValue cryptConfig

/-- `BackupManifest::to_string`: with a key, the signature is set and the key's fingerprint is
written into `unprotected` through `IndexMut`. -/
def BackupManifest.toString (m : BackupManifest) (cryptConfig : Option CryptConfig) :
    ExceptT String Option Text := do
  let manifest ← match cryptConfig with
    | some cryptConfig => do
      let sig ← m.manifestSignature codec cryptConfig
      let manifest ← liftM (codec.modifyKey m.toValue "signature"
        fun _ => some (.string (hexEncode sig.toList)))
      liftM (codec.modifyKey manifest "unprotected"
        fun unprotected => codec.modifyKey unprotected "key-fingerprint"
          fun _ => some (fingerprintToValue cryptConfig.fingerprint))
    | none => pure m.toValue
  pure (codec.toStringPretty manifest)

/-- The checks of `BackupManifest::from_data` on a signed text, with a key: the fingerprint in
`unprotected`, if there is one, must be the key's, and the signature the one computed from the
text. -/
def checkSignature (json : Value) (signature : String) (cryptConfig : CryptConfig) :
    ExceptT String Option Unit := do
  let expectedSignature := hexEncode (← jsonSignature codec json cryptConfig).toList
  let fingerprint := codec.index (codec.index json "unprotected") "key-fingerprint"
  if !fingerprint.isNull then
    let fingerprint ← liftM (fingerprintFromValue fingerprint)
    let configFp := cryptConfig.fingerprint
    if configFp ≠ fingerprint then
      throw s!"wrong key - unable to verify signature since manifest's key {fingerprint} does not match provided key {configFp}"
  if signature ≠ expectedSignature then throw "wrong signature in manifest"

/-- `BackupManifest::from_data`: an unsigned text, or one read without a key, is not checked. -/
def BackupManifest.fromData (data : Text) (cryptConfig : Option CryptConfig) :
    ExceptT String Option BackupManifest := do
  let json ← liftM (codec.fromSlice data)
  match cryptConfig, (codec.index json "signature").asStr with
  | some cryptConfig, some signature => checkSignature codec json signature cryptConfig
  | _, _ => pure ()
  liftM (BackupManifest.fromValue json)

end Signing

/-! ## Reading back what serde writes -/

/-- The byte `hex::encode` writes for a digit below 16. -/
def hexDigitByte (d : Nat) : UInt8 := if d < 10 then UInt8.ofNat (48 + d) else UInt8.ofNat (87 + d)

theorem hexVal_hexDigitByte {d : Nat} (hd : d < 16) : hexVal (hexDigitByte d) = some d := by
  have hall : ∀ d : Fin 16, hexVal (hexDigitByte d) = some d := by decide
  exact hall ⟨d, hd⟩

/-- The character `hex::encode` writes for a digit below 16. -/
def hexDigitChar (d : Nat) : Char := if d < 10 then Char.ofNat (48 + d) else Char.ofNat (87 + d)

theorem utf8EncodeChar_hexDigitChar {d : Nat} (hd : d < 16) :
    String.utf8EncodeChar (hexDigitChar d) = [hexDigitByte d] := by
  have hall : ∀ d : Fin 16, String.utf8EncodeChar (hexDigitChar d) = [hexDigitByte d] := by decide
  exact hall ⟨d, hd⟩

theorem hexDigitChar_ne_colon {d : Nat} (hd : d < 16) : hexDigitChar d ≠ ':' := by
  have hall : ∀ d : Fin 16, hexDigitChar d ≠ ':' := by decide
  exact hall ⟨d, hd⟩

theorem toNat_div_sixteen_lt (b : UInt8) : b.toNat / 16 < 16 := by
  have := b.toNat_lt
  omega

theorem toList_hexEncode (bytes : List UInt8) :
    (hexEncode bytes).toList =
      bytes.flatMap fun b => [hexDigitChar (b.toNat / 16), hexDigitChar (b.toNat % 16)] := by
  simp only [hexEncode, String.toList_ofList]
  rfl

/-- The digits `hex::encode` writes for bytes, as bytes: two per byte, high digit first. -/
theorem utf8Bytes_hexEncode (bytes : List UInt8) :
    utf8Bytes (hexEncode bytes) =
      bytes.flatMap fun b => [hexDigitByte (b.toNat / 16), hexDigitByte (b.toNat % 16)] := by
  rw [utf8Bytes, String.toUTF8_eq_toByteArray, ← String.utf8Encode_toList, toList_hexEncode,
    List.utf8Encode, List.toList_data_toByteArray, List.flatMap_assoc]
  congr 1
  funext b
  simp only [List.flatMap_cons, List.flatMap_nil, List.append_nil,
    utf8EncodeChar_hexDigitChar (toNat_div_sixteen_lt b),
    utf8EncodeChar_hexDigitChar (b.toNat.mod_lt (by decide)), List.singleton_append]

theorem length_hexDigits (bytes : List UInt8) :
    (bytes.flatMap fun b => [hexDigitByte (b.toNat / 16), hexDigitByte (b.toNat % 16)]).length =
      2 * bytes.length := by
  induction bytes with
  | nil => rfl
  | cons b bytes ih =>
    simp only [List.flatMap_cons, List.length_append, ih, List.length_cons, List.length_nil]
    omega

theorem hexDecodePairs_hexDigits (pos : Nat) (bytes : List UInt8) :
    hexDecodePairs pos
      (bytes.flatMap fun b => [hexDigitByte (b.toNat / 16), hexDigitByte (b.toNat % 16)]) =
      .ok bytes := by
  induction bytes generalizing pos with
  | nil => rfl
  | cons b bytes ih =>
    have hhi := hexVal_hexDigitByte (toNat_div_sixteen_lt b)
    have hlo := hexVal_hexDigitByte (b.toNat.mod_lt (by decide))
    have hbyte : UInt8.ofNat (16 * (b.toNat / 16) + b.toNat % 16) = b := by
      rw [Nat.div_add_mod, UInt8.ofNat_toNat]
    simp only [List.flatMap_cons, List.cons_append, List.nil_append, hexDecodePairs, hhi, hlo,
      ih, Except.ok_bind, Except.pure_eq_ok, hbyte]

/-- `hex::decode_to_slice` reads back the bytes `hex::encode` writes. -/
theorem hexDecodeToSlice_hexEncode {n : Nat} (v : Vector UInt8 n) :
    hexDecodeToSlice n (utf8Bytes (hexEncode v.toList)) = .ok v := by
  have hlen := length_hexDigits v.toList
  rw [Vector.length_toList] at hlen
  have hodd : ¬(2 * n % 2 ≠ 0) := by omega
  have hhalf : ¬(2 * n / 2 ≠ n) := by omega
  simp only [hexDecodeToSlice, utf8Bytes_hexEncode, hlen, hodd, hhalf, hexDecodePairs_hexDigits,
    if_false, Except.ok_bind, Except.pure_eq_ok, Vector.length_toList, if_true, Except.ok.injEq]
  ext i hi
  simp [Vector.getElem_toList]

/-- Dropping, from lists joined by a separator, what the separator is made of. -/
theorem filter_intercalate {α : Type} (p : α → Bool) {sep : List α} (hsep : ∀ a ∈ sep, p a = false)
    (ls : List (List α)) : (sep.intercalate ls).filter p = (ls.map (List.filter p)).flatten := by
  induction ls with
  | nil => simp
  | cons l ls ih =>
    cases ls with
    | nil => simp
    | cons l' ls =>
      have hdrop : sep.filter p = [] := List.filter_eq_nil_iff.2 fun a ha => by simp [hsep a ha]
      rw [List.intercalate_cons_cons, List.filter_append, List.filter_append, ih, hdrop]
      simp

/-- The digits of a fingerprint are what is left of its colon-separated form without the colons. -/
theorem filter_asFingerprint (bytes : List UInt8) :
    String.ofList ((asFingerprint bytes).toList.filter (· != ':')) = hexEncode bytes := by
  have hcolon : ∀ a ∈ ":".toList, (a != ':') = false := by simp
  rw [← String.toList_inj, String.toList_ofList, asFingerprint, String.toList_intercalate,
    filter_intercalate _ hcolon, List.map_map, toList_hexEncode, List.flatMap_def, List.map_map]
  congr 1
  refine List.map_congr_left fun b _ => ?_
  -- no digit is a colon
  simp [toList_hexEncode, hexDigitChar_ne_colon (toNat_div_sixteen_lt b),
    hexDigitChar_ne_colon (b.toNat.mod_lt (by decide))]

theorem fingerprintFromValue_toValue (fp : Fingerprint) :
    fingerprintFromValue (fingerprintToValue fp) = .ok fp := by
  simp only [fingerprintToValue, fingerprintFromValue, filter_asFingerprint,
    hexDecodeToSlice_hexEncode, Except.ok_bind, Except.pure_eq_ok]

theorem cryptModeFromValue_toValue (mode : CryptMode) :
    cryptModeFromValue (cryptModeToValue mode) = .ok mode := by
  cases mode <;> rfl

theorem backupTypeFromValue_toValue (ty : BackupType) :
    backupTypeFromValue (backupTypeToValue ty) = .ok ty := by
  cases ty <;> rfl

theorem optionStringFromValue_toValue (s : Option String) :
    optionStringFromValue (optionStringToValue s) = .ok s := by
  cases s <;> rfl

theorem i64FromValue_toInt (t : Int64) : i64FromValue (.number t.toInt) = .ok t := by
  have hrange : Int64.InRange t.toInt := ⟨t.le_toInt, t.toInt_lt⟩
  simp [i64FromValue, hrange, Int64.ofInt_toInt]

/-- A file entry reads back as written; its size is a `u64`. -/
theorem fileInfoFromValue_toValue {info : FileInfo} (hsize : info.size < 2 ^ 64) :
    fileInfoFromValue (fileInfoToValue info) = .ok info := by
  have hrange : (0 : Int) ≤ info.size ∧ (info.size : Int) < 2 ^ 64 := ⟨by omega, by exact_mod_cast hsize⟩
  have hsize' : info.size < 18446744073709551616 := hsize
  simp [hsize', fileInfoToValue, fileInfoFromValue, field, fieldD, Json.get, List.lookup_cons, cryptModeFromValue_toValue,
    stringFromValue, u64FromValue, hrange, csumFromValue, hexDecodeToSlice_hexEncode]

theorem filesFromValue_toValue {files : List FileInfo} (hsizes : ∀ info ∈ files, info.size < 2 ^ 64) :
    filesFromValue (.array (files.map fileInfoToValue)) = .ok files := by
  induction files with
  | nil => rfl
  | cons info files ih =>
    have hinfo := fileInfoFromValue_toValue (hsizes info List.mem_cons_self)
    have hrest := ih fun i hi => hsizes i (List.mem_cons_of_mem _ hi)
    simp only [filesFromValue, List.map_cons, List.mapM_cons, hinfo, Except.ok_bind] at hrest ⊢
    simp [hrest]

/-- What `Deserialize for BackupManifest` needs of an object: each field read from its member. -/
theorem fromValue_object_eq_ok {ms : List (String × Value)} {m : BackupManifest} :
    BackupManifest.fromValue (.object ms) = .ok m ↔
      field ms "backup-type" backupTypeFromValue = .ok m.backupType ∧
      field ms "backup-id" stringFromValue = .ok m.backupId ∧
      field ms "backup-time" i64FromValue = .ok m.backupTime ∧
      field ms "files" filesFromValue = .ok m.files ∧
      fieldD ms "unprotected" (.object []) pure = .ok m.unprotected ∧
      fieldD ms "signature" none optionStringFromValue = .ok m.signature := by
  obtain ⟨ty, id, time, files, unprotected, signature⟩ := m
  simp only [BackupManifest.fromValue, Except.bind_eq_ok, Except.pure_eq_ok, Except.ok.injEq,
    BackupManifest.mk.injEq]
  constructor
  · rintro ⟨_, hty, _, hid, _, htime, _, hfiles, _, hu, _, hs, rfl, rfl, rfl, rfl, rfl, rfl⟩
    exact ⟨hty, hid, htime, hfiles, hu, hs⟩
  · rintro ⟨hty, hid, htime, hfiles, hu, hs⟩
    exact ⟨_, hty, _, hid, _, htime, _, hfiles, _, hu, _, hs, rfl, rfl, rfl, rfl, rfl, rfl⟩

/-- An object reads as a manifest when its members at the manifest's keys are those
`Serialize` writes for it. -/
theorem fromValue_of_get {ms : List (String × Value)} {m : BackupManifest}
    (hsizes : ∀ info ∈ m.files, info.size < 2 ^ 64)
    (hsigned : ∀ k, k ≠ "unprotected" → k ≠ "signature" → get ms k = get m.members k)
    (hunprotected : get ms "unprotected" = some m.unprotected)
    (hsignature : get ms "signature" = some (optionStringToValue m.signature)) :
    BackupManifest.fromValue (.object ms) = .ok m := by
  have hty : get ms "backup-type" = some (backupTypeToValue m.backupType) :=
    (hsigned _ (by decide) (by decide)).trans rfl
  have hid : get ms "backup-id" = some (.string m.backupId) :=
    (hsigned _ (by decide) (by decide)).trans rfl
  have htime : get ms "backup-time" = some (.number m.backupTime.toInt) :=
    (hsigned _ (by decide) (by decide)).trans rfl
  have hfiles : get ms "files" = some (.array (m.files.map fileInfoToValue)) :=
    (hsigned _ (by decide) (by decide)).trans rfl
  refine fromValue_object_eq_ok.2 ⟨?_, ?_, ?_, ?_, ?_, ?_⟩
  · rw [field_of_get hty, backupTypeFromValue_toValue]
  · rw [field_of_get hid]
    rfl
  · rw [field_of_get htime, i64FromValue_toInt]
  · rw [field_of_get hfiles, filesFromValue_toValue hsizes]
  · rw [fieldD_of_get hunprotected]
    rfl
  · rw [fieldD_of_get hsignature, optionStringFromValue_toValue]

/-- serde reads a manifest back from the value it writes. -/
theorem fromValue_toValue {m : BackupManifest} (hsizes : ∀ info ∈ m.files, info.size < 2 ^ 64) :
    BackupManifest.fromValue m.toValue = .ok m :=
  fromValue_of_get hsizes (fun _ _ _ => rfl) rfl rfl

/-! ## What is signed -/

theorem get_signedMembers_of_ne {ms : List (String × Value)} {k : String}
    (hu : k ≠ "unprotected") (hs : k ≠ "signature") : get (signedMembers ms) k = get ms k := by
  rw [signedMembers, get_filter_of_ne hs, get_filter_of_ne hu]

theorem get_signedMembers_unprotected (ms : List (String × Value)) :
    get (signedMembers ms) "unprotected" = none := by
  rw [signedMembers, get_filter_of_ne (by decide), get_filter_self]

theorem get_signedMembers_signature (ms : List (String × Value)) :
    get (signedMembers ms) "signature" = none := by
  rw [signedMembers, get_filter_self]

/-- What serde reads from the signed members of an object is what it reads from the object, with
`unprotected` and `signature` at their defaults. -/
theorem fromValue_signedMembers {ms : List (String × Value)} {m : BackupManifest}
    (h : BackupManifest.fromValue (.object ms) = .ok m) :
    BackupManifest.fromValue (.object (signedMembers ms)) =
      .ok { m with unprotected := .object [], signature := none } := by
  have hfield : ∀ {α : Type} (k : String) (read : Value → Except String α),
      k ≠ "unprotected" → k ≠ "signature" → field (signedMembers ms) k read = field ms k read := by
    intro α k read hu hs
    simp only [field, get_signedMembers_of_ne hu hs]
  obtain ⟨hty, hid, htime, hfiles, -, -⟩ := fromValue_object_eq_ok.1 h
  refine fromValue_object_eq_ok.2 ⟨?_, ?_, ?_, ?_, ?_, ?_⟩
  · rw [hfield _ _ (by decide) (by decide), hty]
  · rw [hfield _ _ (by decide) (by decide), hid]
  · rw [hfield _ _ (by decide) (by decide), htime]
  · rw [hfield _ _ (by decide) (by decide), hfiles]
  · simp only [fieldD, get_signedMembers_unprotected]
  · simp only [fieldD, get_signedMembers_signature]

section SigningSpec

variable {Text : Type} (codec : JsonCodec Text)

theorem jsonSignature_object (ms : List (String × Value)) (c : CryptConfig) :
    (jsonSignature codec (.object ms) c).run =
      some ((codec.toCanonicalJson (.object (signedMembers ms))).map c.computeAuthTag) := by
  simp only [jsonSignature, Value.removeKey_object, ExceptT.liftM_some_bind, signedMembers]
  cases codec.toCanonicalJson _ <;> rfl

/-- `to_string` with a key: it signs the canonical JSON of the signed members and writes the
signature and, into `unprotected`, the key's fingerprint, unless `IndexMut` panics on
`unprotected`. -/
theorem toString_some_run (m : BackupManifest) (c : CryptConfig) :
    (m.toString codec (some c)).run =
      match codec.toCanonicalJson (.object (signedMembers m.members)) with
      | .error e => some (.error e)
      | .ok canonical =>
        (codec.modifyKey m.unprotected "key-fingerprint"
            fun _ => some (fingerprintToValue c.fingerprint)).map fun unprotected =>
          .ok (codec.toStringPretty (.object (insert (insert m.members "signature"
            (.string (hexEncode (c.computeAuthTag canonical).toList))) "unprotected" unprotected))) := by
  have hsig := jsonSignature_object codec m.members c
  simp only [BackupManifest.toString, BackupManifest.manifestSignature, BackupManifest.toValue] at hsig ⊢
  cases hc : codec.toCanonicalJson (.object (signedMembers m.members)) with
  | error e =>
    rw [hc] at hsig
    simp [ExceptT.run_bind, hsig]
  | ok canonical =>
    rw [hc] at hsig
    have hunprotected : ∀ v, get (insert m.members "signature" v) "unprotected" = some m.unprotected :=
      fun v => (get_insert_of_ne v (by decide)).trans rfl
    simp [ExceptT.run_bind, hsig, hunprotected, Function.comp_def, codec.modifyKey_object]

/-- `from_data`'s checks pass when the fingerprint in `unprotected` is the key's and the signature
is the tag computed from the text. -/
theorem checkSignature_of_fingerprint {json : Value} {c : CryptConfig} {tag : Vector UInt8 32}
    (htag : (jsonSignature codec json c).run = some (.ok tag))
    (hfp : codec.index (codec.index json "unprotected") "key-fingerprint" =
      fingerprintToValue c.fingerprint) :
    (checkSignature codec json (hexEncode tag.toList) c).run = some (.ok ()) := by
  have hnull : (fingerprintToValue c.fingerprint).isNull = false := rfl
  simp [checkSignature, ExceptT.run_bind, htag, hfp, hnull, fingerprintFromValue_toValue]

/-- The checks pass only for the signature computed from the text. -/
theorem checkSignature_eq_ok {json : Value} {signature : String} {c : CryptConfig}
    (h : (checkSignature codec json signature c).run = some (.ok ())) :
    ∃ tag, (jsonSignature codec json c).run = some (.ok tag) ∧ signature = hexEncode tag.toList := by
  unfold checkSignature at h
  cases htag : (jsonSignature codec json c).run with
  | none => simp [ExceptT.run_bind, htag] at h
  | some r =>
    cases r with
    | error e => simp [ExceptT.run_bind, htag] at h
    | ok tag =>
      refine ⟨tag, rfl, ?_⟩
      by_contra hne
      simp only [ExceptT.run_bind, htag] at h
      -- whatever the fingerprint check does, the signature check then fails
      split at h
      · cases hfp : fingerprintFromValue (codec.index (codec.index json "unprotected") "key-fingerprint") with
        | error e => simp [hfp] at h
        | ok fp => by_cases heq : c.fingerprint = fp <;> simp [hfp, heq, hne] at h
      · simp [hne] at h

/-- `from_data` with a key on a text that carries a signature: it succeeds when the checks pass and
serde reads the manifest from the text. -/
theorem fromData_signed_eq_ok {data : Text} {json : Value} {signature : String} {c : CryptConfig}
    {m : BackupManifest} (hjson : codec.fromSlice data = .ok json)
    (hsignature : (codec.index json "signature").asStr = some signature) :
    (BackupManifest.fromData codec data (some c)).run = some (.ok m) ↔
      (checkSignature codec json signature c).run = some (.ok ()) ∧
        BackupManifest.fromValue json = .ok m := by
  simp only [BackupManifest.fromData, ExceptT.run_bind, ExceptT.run_liftM_except, hjson,
    Option.bind_eq_bind, Option.bind_some]
  split
  · rename_i c' signature' hc hs
    cases hc
    rw [hsignature, Option.some.injEq] at hs
    subst hs
    cases hcheck : (checkSignature codec json signature c).run with
    | none => simp [ExceptT.run_bind, hcheck]
    | some r =>
      cases r with
      | error e => simp [ExceptT.run_bind, hcheck]
      | ok u => simp [ExceptT.run_bind, hcheck]
  · rename_i hnot
    exact absurd hsignature (hnot c signature rfl)

/-- **`from_data` reads back what `to_string` signs.** With a codec that reads its texts back, for
a manifest whose file sizes are `u64`s, whose signed part has a canonical JSON and whose
`unprotected` takes the key's fingerprint (it is an object or `null`), `to_string` with a key
writes a text that `from_data` with the same key accepts: the manifest, with the computed
signature and the fingerprint in `unprotected`. -/
theorem fromData_toString (hcodec : codec.Lawful) {m : BackupManifest}
    (hsizes : ∀ info ∈ m.files, info.size < 2 ^ 64) (c : CryptConfig) {canonical : List UInt8}
    (hcanonical : codec.toCanonicalJson (.object (signedMembers m.members)) = .ok canonical)
    {unprotected : Value}
    (hunprotected : codec.modifyKey m.unprotected "key-fingerprint"
      (fun _ => some (fingerprintToValue c.fingerprint)) = some unprotected) :
    ∃ text, (m.toString codec (some c)).run = some (.ok text) ∧
      (BackupManifest.fromData codec text (some c)).run = some (.ok
        { m with signature := some (hexEncode (c.computeAuthTag canonical).toList), unprotected }) := by
  set signature := hexEncode (c.computeAuthTag canonical).toList
  set members := insert (insert m.members "signature" (.string signature)) "unprotected" unprotected
  refine ⟨codec.toStringPretty (.object members), ?_, ?_⟩
  · rw [toString_some_run, hcanonical]
    simp [hunprotected, members, signature]
  have hsignature : get members "signature" = some (.string signature) := by
    rw [get_insert_of_ne _ (by decide), get_insert_self]
  have hsigned : signedMembers members = signedMembers m.members :=
    filter_insert_insert m.members _ _ (by decide)
  have htag : (jsonSignature codec (.object members) c).run =
      some (.ok (c.computeAuthTag canonical)) := by
    rw [jsonSignature_object, hsigned, hcanonical]
    rfl
  have hfp : codec.index (codec.index (.object members) "unprotected") "key-fingerprint" =
      fingerprintToValue c.fingerprint := by
    rw [codec.index_object, get_insert_self]
    exact codec.index_modifyKey_const hunprotected
  have hvalue : BackupManifest.fromValue (.object members) =
      .ok { m with signature := some signature, unprotected } := by
    refine fromValue_of_get hsizes (fun k hu hs => ?_) (get_insert_self _ _ _) hsignature
    -- the two manifests' members differ only at `unprotected` and `signature`
    rw [get_insert_of_ne _ hu, get_insert_of_ne _ hs]
    simp [BackupManifest.members, Json.get, List.lookup_cons, beq_false_of_ne hu,
      beq_false_of_ne hs]
  have hindex : (codec.index (.object members) "signature").asStr = some signature := by
    rw [codec.index_object, hsignature]
    rfl
  exact (fromData_signed_eq_ok codec (hcodec _) hindex).2
    ⟨checkSignature_of_fingerprint codec htag hfp, hvalue⟩

/-- Key access as serde_json implements it, for the codec of the examples. -/
def serdeKeyAccess : KeyAccess where
  index v k := match v with
    | .object m => (get m k).getD .null
    | _ => .null
  modifyKey v k f := match v with
    | .null => (f .null).map fun new => .object (insert [] k new)
    | .object m => (f ((get m k).getD .null)).map fun new => .object (insert m k new)
    | _ => none
  index_object _ _ := rfl
  index_of_not_object v _ hv := by
    cases v with
    | object m => exact absurd rfl (hv m)
    | _ => rfl
  modifyKey_null _ _ := rfl
  modifyKey_object _ _ _ := rfl
  modifyKey_panics v _ _ hnull hv := by
    cases v with
    | null => exact absurd rfl hnull
    | object m => exact absurd rfl (hv m)
    | _ => rfl

/-- A codec on the values themselves, with serde_json's key access, whose canonical JSON is
empty. -/
def valueCodec : JsonCodec Value :=
  { serdeKeyAccess with toStringPretty := id, fromSlice := .ok, toCanonicalJson := fun _ => .ok [] }

/-- A key whose tags and fingerprint are all zeros. -/
def zeroKey : CryptConfig := ⟨fun _ => Vector.replicate 32 0, ⟨Vector.replicate 32 0⟩⟩

/-- A manifest without files, as `BackupManifest::new` makes it. -/
def emptyManifest : BackupManifest := ⟨.host, "a", 0, [], .object [], none⟩

theorem fromData_toString_emptyManifest :
    valueCodec.Lawful ∧ (∀ info ∈ emptyManifest.files, info.size < 2 ^ 64) ∧
      valueCodec.toCanonicalJson (.object (signedMembers emptyManifest.members)) = .ok [] ∧
      valueCodec.modifyKey emptyManifest.unprotected "key-fingerprint"
          (fun _ => some (fingerprintToValue zeroKey.fingerprint)) =
        some (.object [("key-fingerprint", fingerprintToValue zeroKey.fingerprint)]) ∧
      ∃ text, (emptyManifest.toString valueCodec (some zeroKey)).run = some (.ok text) ∧
        (BackupManifest.fromData valueCodec text (some zeroKey)).run = some (.ok
          { emptyManifest with
            signature := some (hexEncode (zeroKey.computeAuthTag []).toList)
            unprotected := .object [("key-fingerprint", fingerprintToValue zeroKey.fingerprint)] }) :=
  ⟨fun _ => rfl, by simp [emptyManifest], rfl, rfl,
    fromData_toString valueCodec (fun _ => rfl) (by simp [emptyManifest]) zeroKey rfl rfl⟩

/-- **A signed text is accepted only with its signature.** If `from_data` with a key accepts a
text that carries a signature, the text is an object whose signed members have a canonical JSON,
the signature is the hex of the key's tag of it, and the manifest read is, but for `unprotected`
and `signature`, the one serde reads from those signed members alone. -/
theorem fromData_signed (c : CryptConfig) {data : Text} {json : Value} {signature : String}
    {m : BackupManifest} (hjson : codec.fromSlice data = .ok json)
    (hsignature : (codec.index json "signature").asStr = some signature)
    (hok : (BackupManifest.fromData codec data (some c)).run = some (.ok m)) :
    ∃ ms canonical, json = .object ms ∧
      codec.toCanonicalJson (.object (signedMembers ms)) = .ok canonical ∧
      signature = hexEncode (c.computeAuthTag canonical).toList ∧
      BackupManifest.fromValue (.object (signedMembers ms)) =
        .ok { m with unprotected := .object [], signature := none } := by
  obtain ⟨hcheck, hvalue⟩ := (fromData_signed_eq_ok codec hjson hsignature).1 hok
  obtain ⟨tag, htag, rfl⟩ := checkSignature_eq_ok codec hcheck
  -- only an object has a member to index
  cases json with
  | object ms =>
    rw [jsonSignature_object] at htag
    obtain ⟨canonical, hcanonical, rfl⟩ := Except.map_eq_ok.1 (Option.some.inj htag)
    exact ⟨ms, canonical, rfl, hcanonical, rfl, fromValue_signedMembers hvalue⟩
  | _ => simp [codec.index_of_not_object, Value.asStr] at hsignature

/-- `emptyManifest` as `to_string` signs it with `zeroKey`. -/
def signedEmptyManifest : BackupManifest :=
  { emptyManifest with
    signature := some (hexEncode (zeroKey.computeAuthTag []).toList)
    unprotected := .object [("key-fingerprint", fingerprintToValue zeroKey.fingerprint)] }

theorem fromData_signed_signedEmptyManifest :
    valueCodec.fromSlice signedEmptyManifest.toValue = .ok signedEmptyManifest.toValue ∧
      (valueCodec.index signedEmptyManifest.toValue "signature").asStr =
        some (hexEncode (zeroKey.computeAuthTag []).toList) ∧
      (BackupManifest.fromData valueCodec signedEmptyManifest.toValue (some zeroKey)).run =
        some (.ok signedEmptyManifest) ∧
      ∃ ms canonical, signedEmptyManifest.toValue = .object ms ∧
        valueCodec.toCanonicalJson (.object (signedMembers ms)) = .ok canonical ∧
        hexEncode (zeroKey.computeAuthTag []).toList =
          hexEncode (zeroKey.computeAuthTag canonical).toList ∧
        BackupManifest.fromValue (.object (signedMembers ms)) =
          .ok { signedEmptyManifest with unprotected := .object [], signature := none } := by
  have hjson : valueCodec.fromSlice signedEmptyManifest.toValue = .ok signedEmptyManifest.toValue :=
    rfl
  have hsignature : (valueCodec.index signedEmptyManifest.toValue "signature").asStr =
      some (hexEncode (zeroKey.computeAuthTag []).toList) := rfl
  have htag : (jsonSignature valueCodec signedEmptyManifest.toValue zeroKey).run =
      some (.ok (zeroKey.computeAuthTag [])) := by
    rw [BackupManifest.toValue, jsonSignature_object]
    rfl
  have hfp : valueCodec.index (valueCodec.index signedEmptyManifest.toValue "unprotected")
      "key-fingerprint" = fingerprintToValue zeroKey.fingerprint := rfl
  have hcheck := checkSignature_of_fingerprint valueCodec htag hfp
  have hok : (BackupManifest.fromData valueCodec signedEmptyManifest.toValue (some zeroKey)).run =
      some (.ok signedEmptyManifest) :=
    (fromData_signed_eq_ok valueCodec hjson hsignature).2
      ⟨hcheck, fromValue_toValue (by simp [signedEmptyManifest, emptyManifest])⟩
  exact ⟨hjson, hsignature, hok, fromData_signed valueCodec zeroKey hjson hsignature hok⟩

end SigningSpec

/-- A manifest whose `unprotected` is `true`. -/
def unprotectedTrue : BackupManifest := ⟨.host, "a", 0, [], .bool true, none⟩

/-- serde reads a manifest whose `unprotected` is `true` like any other, but `to_string` with a key
writes no text for it: `manifest["unprotected"]["key-fingerprint"] = ...` panics on `true` (or the
canonical JSON fails before). -/
theorem toString_panics_on_unprotected_true {Text : Type} (codec : JsonCodec Text)
    (c : CryptConfig) :
    BackupManifest.fromValue unprotectedTrue.toValue = .ok unprotectedTrue ∧
      ∀ text, (unprotectedTrue.toString codec (some c)).run ≠ some (.ok text) := by
  refine ⟨fromValue_toValue (by simp [unprotectedTrue]), fun text => ?_⟩
  rw [toString_some_run]
  cases codec.toCanonicalJson (.object (signedMembers unprotectedTrue.members)) with
  | error e => simp
  | ok canonical => simp [unprotectedTrue, codec.modifyKey_panics]

end ProxmoxBackup.Manifest
