import ProxmoxBackup.Foundations.Except
import ProxmoxBackup.Server.BackupEnvironment

/-!
# Key files (`pbs-key-config/src/lib.rs`)

A key file holds a client's 32-byte encryption key, in the clear or encrypted with AES-256-GCM
under a key derived from a passphrase (scrypt or PBKDF2). An encrypted file stores the IV, the
tag and the ciphertext one after the other. `with_key` writes such a file; `decrypt` reads the
key back and checks it against the stored fingerprint.

openssl is not part of the repository: the key derivations, the AEAD cipher and SHA-256 are the
fields of `Openssl`, and the property of them that `decrypt` relies on is stated as
`Openssl.Lawful` (decryption inverts encryption). The system's random source, the clock and the
JSON deserialiser are arguments.

A computation that can fail and can also panic is an `ExceptT String Option`, as for data blobs:
`none` is the panic of `copy_from_slice`, whose source and destination must have the same length.

* `withKey_decrypt`: a key written with a passphrase reads back with that passphrase, with its
  creation time and its fingerprint.
* `decrypt_ok`: a key that `decrypt` returns comes with its own fingerprint, and that
  fingerprint is the stored one when the file has one.
* `decrypt_eq_none_iff`: `decrypt` panics exactly when the key material it reaches (the plain
  data, or the decrypted data) is not 32 bytes long. Nothing checks that length for a plain key
  (`decrypt_plain_eq_none_iff`).
-/

namespace ProxmoxBackup

/-! ## Fingerprints (`pbs-api-types/src/crypto.rs`) -/

/-- `Fingerprint`: the SHA-256 based id of a key. -/
structure Fingerprint where
  bytes : Vector UInt8 32
  deriving DecidableEq

/-- `as_fingerprint`: the bytes in hex, with a colon between two bytes (the source cuts the hex
string into pairs of digits, one pair per byte). -/
def asFingerprint (bytes : List UInt8) : String :=
  ":".intercalate (bytes.map fun b => Backup.hexEncode [b])

/-- `impl Display for Fingerprint`: the short id, from the first eight bytes. -/
instance : ToString Fingerprint := ⟨fun fp => asFingerprint (fp.bytes.toList.take 8)⟩

/-! ## openssl -/

/-- The openssl functions the key files use. -/
structure Openssl where
  /-- `openssl::pkcs5::scrypt(pass, salt, n, r, p, maxmem, key)` into a 32-byte key. -/
  scrypt : List UInt8 → List UInt8 → UInt64 → UInt64 → UInt64 → Nat →
    Except String (Vector UInt8 32)
  /-- `openssl::pkcs5::pbkdf2_hmac(pass, salt, iter, sha256, key)` into a 32-byte key. -/
  pbkdf2HmacSha256 : List UInt8 → List UInt8 → Nat → Except String (Vector UInt8 32)
  /-- `encrypt_aead(aes_256_gcm, key, iv, b"", data, tag)`: the ciphertext and the tag. -/
  encryptAead : Vector UInt8 32 → List UInt8 → List UInt8 →
    Except String (List UInt8 × Vector UInt8 16)
  /-- `decrypt_aead(aes_256_gcm, key, iv, b"", data, tag)`. -/
  decryptAead : Vector UInt8 32 → List UInt8 → List UInt8 → List UInt8 → Except String (List UInt8)
  /-- `openssl::sha::Sha256`. -/
  sha256 : List UInt8 → Vector UInt8 32

/-- What the key files rely on: decryption with the key, IV and tag of an encryption gives the
plaintext back. -/
structure Openssl.Lawful (ssl : Openssl) : Prop where
  decryptAead_encryptAead : ∀ {key iv data enc tag},
    ssl.encryptAead key iv data = .ok (enc, tag) → ssl.decryptAead key iv enc tag.toList = .ok data

/-- `FINGERPRINT_INPUT` (`pbs-tools/src/crypt_config.rs`). -/
def fingerprintInput : List UInt8 :=
  [110, 208, 239, 119, 71, 31, 255, 77, 85, 199, 168, 254, 74, 157, 182, 33, 97, 64, 127, 19, 76,
    114, 93, 223, 48, 153, 45, 37, 236, 69, 237, 38]

/-- `b"_id_key"`. -/
def idKeySalt : List UInt8 := [95, 105, 100, 95, 107, 101, 121]

/-- `CryptConfig::new(key)?.fingerprint()`: the id key is PBKDF2 of the key (ten rounds, salt
`_id_key`), and the fingerprint is the SHA-256 of the fixed input followed by the id key. The
`unwrap` of `PKey::hmac` on the 32-byte id key is left out: openssl accepts every HMAC key. -/
def cryptConfigFingerprint (ssl : Openssl) (encKey : Vector UInt8 32) : Except String Fingerprint :=
  do
  let idKey ← ssl.pbkdf2HmacSha256 encKey.toList idKeySalt 10
  pure ⟨ssl.sha256 (fingerprintInput ++ idKey.toList)⟩

/-! ## Key files -/

/-- `KeyDerivationConfig`. -/
inductive KeyDerivationConfig where
  | scrypt (n r p : UInt64) (salt : List UInt8)
  | pbkdf2 (iter : Nat) (salt : List UInt8)

/-- `KeyDerivationConfig::derive_key`. -/
def KeyDerivationConfig.deriveKey (ssl : Openssl) :
    KeyDerivationConfig → List UInt8 → Except String (Vector UInt8 32)
  | .scrypt n r p salt, passphrase => ssl.scrypt passphrase salt n r p (1025 * 1024 * 1024)
  | .pbkdf2 iter salt, passphrase => ssl.pbkdf2HmacSha256 passphrase salt iter

/-- `Kdf`: the key derivation function asked for. -/
inductive Kdf where
  | none
  | scrypt
  | pbkdf2
  deriving DecidableEq

/-- `KeyConfig`, as `serde` reads it from a key file. -/
structure KeyConfig where
  kdf : Option KeyDerivationConfig
  created : Int
  modified : Int
  data : List UInt8
  fingerprint : Option Fingerprint
  hint : Option String

/-- `copy_from_slice` into an array of `n` bytes; `none` where the lengths differ and it
panics. -/
def copyFromSlice (n : Nat) (src : List UInt8) : Option (Vector UInt8 n) :=
  if h : src.length = n then some ⟨src.toArray, by simpa using h⟩ else none

namespace KeyConfig

variable (ssl : Openssl)

/-- `KeyConfig::with_key`: the salt and the IV come from `randomData`, the time from `now`. The
source's check of the key's length cannot fail on a `[u8; 32]`. -/
def withKey (randomData : (n : Nat) → Except String (Vector UInt8 n)) (now : Int)
    (rawKey : Vector UInt8 32) (passphrase : List UInt8) (kdf : Kdf) : Except String KeyConfig := do
  let salt ← randomData 32
  let kdf ← match kdf with
    | .scrypt => pure (KeyDerivationConfig.scrypt 65536 8 1 salt.toList)
    | .pbkdf2 => pure (.pbkdf2 65535 salt.toList)
    | .none => throw "No key derivation function specified"
  let derivedKey ← kdf.deriveKey ssl passphrase
  let iv ← randomData 16
  let (encryptedKey, tag) ← ssl.encryptAead derivedKey iv.toList rawKey.toList
  let fingerprint ← cryptConfigFingerprint ssl rawKey
  pure
    { kdf := some kdf, created := now, modified := now,
      data := iv.toList ++ tag.toList ++ encryptedKey, fingerprint := some fingerprint,
      hint := none }

/-- The key material of `decrypt`, before it is copied into the 32-byte result: the data
decrypted with the passphrase's key when the file names a key derivation, the data as it is
otherwise. The slices of the IV, the tag and the ciphertext lie in the data once it has 32
bytes. -/
def keyData (self : KeyConfig) (passphrase : Except String (List UInt8)) :
    Except String (List UInt8) :=
  match self.kdf with
  | some kdf => do
    let passphrase ← passphrase
    if passphrase.length < 5 then throw "Passphrase is too short!"
    let derivedKey ← kdf.deriveKey ssl passphrase
    if self.data.length < 32 then throw "Unable to decrypt key - short data"
    let iv := self.data.take 16
    let tag := (self.data.take 32).drop 16
    let encData := self.data.drop 32
    match ssl.decryptAead derivedKey iv encData tag with
    | .ok key => pure key
    | .error err =>
      match self.hint with
      | some hint => throw s!"Unable to decrypt key (password hint: {hint})"
      | none => throw s!"Unable to decrypt key (wrong password?) - {err}"
  | none => pure self.data

/-- `KeyConfig::decrypt`, with the passphrase the callback returns. -/
def decrypt (self : KeyConfig) (passphrase : Except String (List UInt8)) :
    ExceptT String Option (Vector UInt8 32 × Int × Fingerprint) := do
  let key ← liftM (keyData ssl self passphrase)
  let result ← liftM (copyFromSlice 32 key)
  let fingerprint ← liftM (cryptConfigFingerprint ssl result)
  if let some storedFingerprint := self.fingerprint then
    if fingerprint ≠ storedFingerprint then
      throw s!"KeyConfig contains wrong fingerprint {storedFingerprint}, contained key has fingerprint {fingerprint}"
  pure (result, self.created, fingerprint)

/-! ### Writing a key and reading it back -/

theorem copyFromSlice_toList {n : Nat} (v : Vector UInt8 n) : copyFromSlice n v.toList = some v := by
  simp [copyFromSlice, Vector.toList]

theorem copyFromSlice_eq_none {n : Nat} {src : List UInt8} :
    copyFromSlice n src = none ↔ src.length ≠ n := by
  unfold copyFromSlice
  split <;> simp_all

/-- What a key file written by `with_key` holds. -/
theorem withKey_eq_ok {randomData : (n : Nat) → Except String (Vector UInt8 n)} {now : Int}
    {rawKey : Vector UInt8 32} {passphrase : List UInt8} {kdf : Kdf} {cfg : KeyConfig}
    (h : withKey ssl randomData now rawKey passphrase kdf = .ok cfg) :
    ∃ kdfConfig derivedKey iv encryptedKey tag fingerprint,
      kdfConfig.deriveKey ssl passphrase = .ok derivedKey ∧ randomData 16 = .ok iv ∧
      ssl.encryptAead derivedKey iv.toList rawKey.toList = .ok (encryptedKey, tag) ∧
      cryptConfigFingerprint ssl rawKey = .ok fingerprint ∧
      cfg = { kdf := some kdfConfig, created := now, modified := now,
              data := iv.toList ++ tag.toList ++ encryptedKey,
              fingerprint := some fingerprint, hint := none } := by
  unfold withKey at h
  obtain ⟨salt, -, h⟩ := Except.bind_eq_ok.mp h
  cases kdf with
  | none => simp at h
  | scrypt | pbkdf2 =>
    simp only [Except.pure_eq_ok, Except.ok_bind] at h
    obtain ⟨derivedKey, hderive, h⟩ := Except.bind_eq_ok.mp h
    obtain ⟨iv, hiv, h⟩ := Except.bind_eq_ok.mp h
    obtain ⟨⟨encryptedKey, tag⟩, henc, h⟩ := Except.bind_eq_ok.mp h
    obtain ⟨fingerprint, hfp, h⟩ := Except.bind_eq_ok.mp h
    cases h
    exact ⟨_, derivedKey, iv, encryptedKey, tag, fingerprint, hderive, hiv, henc, hfp, rfl⟩

/-- The stored data of a written key decrypts to the key with the passphrase it was written
with. -/
theorem keyData_of_withKey (hssl : ssl.Lawful) {randomData : (n : Nat) → Except String (Vector UInt8 n)}
    {now : Int} {rawKey : Vector UInt8 32} {passphrase : List UInt8} {kdf : Kdf} {cfg : KeyConfig}
    (h : withKey ssl randomData now rawKey passphrase kdf = .ok cfg) (hlen : 5 ≤ passphrase.length) :
    keyData ssl cfg (.ok passphrase) = .ok rawKey.toList := by
  obtain ⟨kdfConfig, derivedKey, iv, encryptedKey, tag, fingerprint, hderive, -, henc, -, rfl⟩ :=
    withKey_eq_ok ssl h
  have hiv : (iv.toList ++ tag.toList ++ encryptedKey).take 16 = iv.toList := by simp
  have htag : ((iv.toList ++ tag.toList ++ encryptedKey).take 32).drop 16 = tag.toList := by
    simp [List.take_append]
  have henc' : (iv.toList ++ tag.toList ++ encryptedKey).drop 32 = encryptedKey := by
    simp [List.drop_append]
  have hdata : ¬(iv.toList ++ tag.toList ++ encryptedKey).length < 32 := by
    simp only [List.length_append, Vector.length_toList]
    omega
  simp only [keyData, Except.ok_bind, Nat.not_lt.mpr hlen, hderive, hdata, hiv, htag, henc',
    hssl.decryptAead_encryptAead henc, if_false, Except.pure_eq_ok]

/-! ### What `decrypt` returns -/

section decrypt

variable {self : KeyConfig} {passphrase : Except String (List UInt8)}

theorem decrypt_of_keyData_error {e : String} (h : keyData ssl self passphrase = .error e) :
    (self.decrypt ssl passphrase).run = some (.error e) := by
  simp [decrypt, ExceptT.run_bind, h]

/-- Key material of another length than 32 bytes makes `copy_from_slice` panic. -/
theorem decrypt_of_length_ne {key : List UInt8} (h : keyData ssl self passphrase = .ok key)
    (hlen : key.length ≠ 32) : (self.decrypt ssl passphrase).run = none := by
  simp [decrypt, ExceptT.run_bind, h, copyFromSlice_eq_none.mpr hlen]

/-- Key material of 32 bytes is checked against the stored fingerprint. -/
theorem decrypt_of_keyData_ok {key : Vector UInt8 32} (h : keyData ssl self passphrase = .ok key.toList) :
    (self.decrypt ssl passphrase).run = some (do
      let fingerprint ← cryptConfigFingerprint ssl key
      match self.fingerprint with
      | some storedFingerprint =>
        if fingerprint ≠ storedFingerprint then
          throw s!"KeyConfig contains wrong fingerprint {storedFingerprint}, contained key has fingerprint {fingerprint}"
        else pure (key, self.created, fingerprint)
      | none => pure (key, self.created, fingerprint)) := by
  simp only [decrypt, ExceptT.run_bind, ExceptT.run_liftM_except, ExceptT.run_liftM_option, h,
    Option.bind_eq_bind, Option.bind_some, copyFromSlice_toList, Option.map_some]
  cases cryptConfigFingerprint ssl key with
  | error e => rfl
  | ok fingerprint =>
    cases self.fingerprint with
    | none => rfl
    | some storedFingerprint => by_cases hne : fingerprint = storedFingerprint <;> simp [hne]

/-- Key material of 32 bytes is a 32-byte array. -/
theorem exists_toList_of_length {key : List UInt8} (hlen : key.length = 32) :
    ∃ v : Vector UInt8 32, v.toList = key :=
  ⟨⟨key.toArray, by simpa using hlen⟩, by simp [Vector.toList]⟩

theorem decrypt_eq_none_iff :
    (self.decrypt ssl passphrase).run = none ↔
      ∃ key, keyData ssl self passphrase = .ok key ∧ key.length ≠ 32 := by
  constructor
  · intro h
    cases hk : keyData ssl self passphrase with
    | error e =>
      rw [decrypt_of_keyData_error ssl hk] at h
      cases h
    | ok key =>
      refine ⟨key, rfl, fun hlen => ?_⟩
      obtain ⟨v, rfl⟩ := exists_toList_of_length hlen
      rw [decrypt_of_keyData_ok ssl hk] at h
      cases h
  · rintro ⟨key, hk, hlen⟩
    exact decrypt_of_length_ne ssl hk hlen

/-- A plain key file panics exactly when its data is not 32 bytes long. -/
theorem decrypt_plain_eq_none_iff (hkdf : self.kdf = none) :
    (self.decrypt ssl passphrase).run = none ↔ self.data.length ≠ 32 := by
  have hk : keyData ssl self passphrase = .ok self.data := by simp [keyData, hkdf]
  rw [decrypt_eq_none_iff ssl]
  constructor
  · rintro ⟨key, hkey, hlen⟩
    rw [hk] at hkey
    cases hkey
    exact hlen
  · exact fun hlen => ⟨_, hk, hlen⟩

/-- A key file that names no key derivation and holds 31 bytes of data panics in `decrypt`
whatever the passphrase. serde reads it from
`{"kdf": null, "created": "1970-01-01T00:00:00Z", "modified": "1970-01-01T00:00:00Z",
"data": "AAAAAAAAAAAAAAAAAAAAAAAAAAAAAAAAAAAAAAAAAA=="}`, and `decrypt_key` on that file runs
this `decrypt`. -/
theorem decrypt_panics_on_short_plain_key (passphrase : Except String (List UInt8)) :
    (decrypt ssl { kdf := none, created := 0, modified := 0, data := List.replicate 31 0,
                   fingerprint := none, hint := none } passphrase).run = none :=
  (decrypt_plain_eq_none_iff ssl rfl).mpr (by simp)

/-- What a successful `decrypt` returns: the key material, the creation time, and the key's own
fingerprint, which is the stored one when there is one. -/
theorem decrypt_ok {key : Vector UInt8 32} {created : Int} {fingerprint : Fingerprint}
    (h : (self.decrypt ssl passphrase).run = some (.ok (key, created, fingerprint))) :
    keyData ssl self passphrase = .ok key.toList ∧ created = self.created ∧
      cryptConfigFingerprint ssl key = .ok fingerprint ∧
      ∀ stored, self.fingerprint = some stored → stored = fingerprint := by
  cases hk : keyData ssl self passphrase with
  | error e =>
    rw [decrypt_of_keyData_error ssl hk] at h
    cases h
  | ok data =>
    by_cases hlen : data.length = 32
    · obtain ⟨v, rfl⟩ := exists_toList_of_length hlen
      rw [decrypt_of_keyData_ok ssl hk] at h
      cases hfp : cryptConfigFingerprint ssl v with
      | error e => simp [hfp] at h
      | ok fp =>
        cases hs : self.fingerprint with
        | none =>
          simp only [hfp, hs, Except.ok_bind, Except.pure_eq_ok, Option.some.injEq,
            Except.ok.injEq, Prod.mk.injEq] at h
          obtain ⟨rfl, rfl, rfl⟩ := h
          simp [hfp]
        | some stored =>
          by_cases hne : fp = stored
          · simp only [hfp, hs, hne, ne_eq, not_true_eq_false, if_false, Except.ok_bind,
              Except.pure_eq_ok, Option.some.injEq, Except.ok.injEq, Prod.mk.injEq] at h
            obtain ⟨rfl, rfl, rfl⟩ := h
            simp [hfp, hne]
          · simp [hfp, hs, hne] at h
    · rw [decrypt_of_length_ne ssl hk hlen] at h
      cases h

/-- A key written by `with_key` reads back with the passphrase it was written with, and only a
key derivation function can have written it. -/
theorem withKey_decrypt (hssl : ssl.Lawful) {randomData : (n : Nat) → Except String (Vector UInt8 n)}
    {now : Int} {rawKey : Vector UInt8 32} {passphrase : List UInt8} {kdf : Kdf} {cfg : KeyConfig}
    (h : withKey ssl randomData now rawKey passphrase kdf = .ok cfg) (hlen : 5 ≤ passphrase.length) :
    kdf ≠ .none ∧ ∃ fingerprint, cryptConfigFingerprint ssl rawKey = .ok fingerprint ∧
      cfg.fingerprint = some fingerprint ∧
      (cfg.decrypt ssl (.ok passphrase)).run = some (.ok (rawKey, now, fingerprint)) := by
  have hkdf : kdf ≠ .none := by
    rintro rfl
    obtain ⟨salt, -, h⟩ := Except.bind_eq_ok.mp h
    simp at h
  refine ⟨hkdf, ?_⟩
  obtain ⟨_, _, _, _, _, fingerprint, -, -, -, hfp, hcfg⟩ := withKey_eq_ok ssl h
  refine ⟨fingerprint, hfp, by rw [hcfg], ?_⟩
  rw [decrypt_of_keyData_ok ssl (keyData_of_withKey ssl hssl h hlen), hcfg]
  simp [hfp]

end decrypt

end KeyConfig

/-- `decrypt_key`: the key file is read by `fromReader`, serde's JSON deserialiser. -/
def decryptKey (ssl : Openssl) (fromReader : List UInt8 → Except String KeyConfig)
    (keydata : List UInt8) (passphrase : Except String (List UInt8)) :
    ExceptT String Option (Vector UInt8 32 × Int × Fingerprint) := do
  let keyConfig ← liftM (fromReader keydata)
  keyConfig.decrypt ssl passphrase

/-- `rsa_decrypt_key_config`: `privateDecrypt` is openssl's RSA decryption into the buffer,
which returns the decrypted bytes. -/
def rsaDecryptKeyConfig (ssl : Openssl) (fromReader : List UInt8 → Except String KeyConfig)
    (privateDecrypt : List UInt8 → Except String (List UInt8)) (key : List UInt8)
    (passphrase : Except String (List UInt8)) :
    ExceptT String Option (Vector UInt8 32 × Int × Fingerprint) := do
  let decrypted ← liftM ((privateDecrypt key).mapError
    fun err => s!"failed to decrypt KeyConfig using RSA - {err}")
  decryptKey ssl fromReader decrypted passphrase

end ProxmoxBackup
