import EzOpenPN.Basic

/-!
# The secret cipher

The profile keys are wrapped under the master key and the profile values are encrypted
under the profile key, each bound to a context that names the profile and the field. The
construction is an AEAD and a keyed digest, neither of which is part of the repository:
both are parameters here, the AEAD as a function that may refuse a ciphertext. What the
repository adds – the format byte, the length checks, the derivation labels and the
contexts – is written out.
-/

namespace EzOpenPN

/-- The AEAD the cipher is built on: `encrypt` prefixes the nonce it was given, and
`decrypt` refuses what it cannot authenticate. -/
structure Aead where
  /-- `Aead(key).encrypt(value, context)` with the given nonce. -/
  encrypt : (key nonce value context : Bytes) → Bytes
  /-- `Aead(key).decrypt(blob, context)`; refusal is `CryptoError`. -/
  decrypt : (key blob context : Bytes) → Option Bytes

/-- **What is relied on of the AEAD**: under a key and a nonce of the right sizes, a ciphertext is
the nonce, the value and a tag long, and decrypts to the value in the context it was made for. -/
structure Aead.Correct (aead : Aead) : Prop where
  length_encrypt : ∀ key nonce value context : Bytes, key.length = 32 → nonce.length = 24 →
    (aead.encrypt key nonce value context).length = 24 + value.length + 16
  decrypt_encrypt : ∀ key nonce value context : Bytes, key.length = 32 → nonce.length = 24 →
    aead.decrypt key (aead.encrypt key nonce value context) context = some value

/-- **The cipher of an installation**: a master key of 32 bytes, over an AEAD and an
HMAC. -/
structure SecretCipher where
  /-- The AEAD. -/
  aead : Aead
  /-- `hmac.digest(key, message, "sha256")`. -/
  hmac : (key message : Bytes) → Bytes
  /-- The key of the installation. -/
  masterKey : Bytes
  /-- A cipher is only built over a key of the right size. -/
  masterKey_length : masterKey.length = 32

namespace SecretCipher

/-- The format byte of every stored ciphertext. -/
def formatVersion : Bytes := [1]

/-- `Aead.KEY_SIZE`. -/
def keySize : ℕ := 32

/-- The shortest well-formed ciphertext: the format byte, a nonce of 24 bytes and a tag
of 16. -/
def minimumSize : ℕ := 1 + 24 + 16

/-- `_require_key`. -/
def requireKey (key : Bytes) (label : String) : Except PyError Unit :=
  if key.length ≠ keySize then
    .error ⟨.valueError, label ++ " must contain exactly 32 bytes"⟩
  else .ok ()

/-- `_encrypt`, with the nonce it draws. -/
def encrypt (aead : Aead) (key nonce value context : Bytes) : Except PyError Bytes := do
  requireKey key "encryption key"
  if context = [] then
    throw ⟨.valueError, "encryption context must not be empty"⟩
  return formatVersion ++ aead.encrypt key nonce value context

/-- `_decrypt`. -/
def decrypt (aead : Aead) (key blob context : Bytes) : Except PyError Bytes := do
  requireKey key "encryption key"
  if context = [] then
    throw ⟨.valueError, "encryption context must not be empty"⟩
  if blob.length < minimumSize then
    throw ⟨.valueError, "ciphertext is too short"⟩
  if blob.take 1 ≠ formatVersion then
    throw ⟨.valueError, "ciphertext format is unsupported"⟩
  match aead.decrypt key (blob.drop 1) context with
  | some value => return value
  | none => throw ⟨.cryptoError, "Decryption failed. Ciphertext failed verification"⟩

/-- The key that wraps profile keys. -/
def wrapKey (cipher : SecretCipher) : Bytes :=
  cipher.hmac cipher.masterKey (asciiBytes "ezopenpn/wrap/v1")

/-- The key of the lookup digests. -/
def lookupKey (cipher : SecretCipher) : Bytes :=
  cipher.hmac cipher.masterKey (asciiBytes "ezopenpn/lookup/v1")

/-- The context of a wrapped profile key: it names the profile. -/
def profileKeyContext (profileId : Uuid) : Bytes :=
  asciiBytes "ezopenpn/profile-key/v1:" ++ profileId.bytes

/-- `encrypt_profile_value`. -/
def encryptProfileValue (cipher : SecretCipher) (key nonce value context : Bytes) :
    Except PyError Bytes :=
  encrypt cipher.aead key nonce value context

/-- `decrypt_profile_value`. -/
def decryptProfileValue (cipher : SecretCipher) (key blob context : Bytes) :
    Except PyError Bytes :=
  decrypt cipher.aead key blob context

/-- `wrap_profile_key`. -/
def wrapProfileKey (cipher : SecretCipher) (profileId : Uuid) (nonce key : Bytes) :
    Except PyError Bytes := do
  requireKey key "profile key"
  encrypt cipher.aead cipher.wrapKey nonce key (profileKeyContext profileId)

/-- `unwrap_profile_key`. -/
def unwrapProfileKey (cipher : SecretCipher) (profileId : Uuid) (wrapped : Bytes) :
    Except PyError Bytes := do
  let key ← decrypt cipher.aead cipher.wrapKey wrapped (profileKeyContext profileId)
  requireKey key "profile key"
  return key

/-- `lookup_digest`. -/
def lookupDigest (cipher : SecretCipher) (value : Bytes) : Bytes :=
  cipher.hmac cipher.lookupKey value

/-! ### What the encryptions raise -/

theorem requireKey_error {key : Bytes} {label : String} {e : PyError}
    (h : requireKey key label = .error e) : e.kind = .valueError := by
  rw [requireKey] at h
  split at h
  · obtain rfl := Except.error.inj h
    rfl
  · exact absurd h (by simp)

/-- An encryption refuses a key or a context, and nothing else. -/
theorem encrypt_error {aead : Aead} {key nonce value context : Bytes} {e : PyError}
    (h : encrypt aead key nonce value context = .error e) : e.kind = .valueError := by
  rw [encrypt, Except.bind_eq_error] at h
  rcases h with h | ⟨_, -, h⟩
  · exact requireKey_error h
  · simp only [throw, throwThe, MonadExceptOf.throw, bind, Except.bind, pure, Except.pure] at h
    split at h
    · obtain rfl := Except.error.inj h
      rfl
    · exact absurd h (by simp)

theorem wrapProfileKey_error {cipher : SecretCipher} {profileId : Uuid} {nonce key : Bytes}
    {e : PyError} (h : cipher.wrapProfileKey profileId nonce key = .error e) :
    e.kind = .valueError := by
  rw [wrapProfileKey, Except.bind_eq_error] at h
  rcases h with h | ⟨_, -, h⟩
  · exact requireKey_error h
  · exact encrypt_error h

/-! ### What was encrypted decrypts -/

section Correct

variable {aead : Aead} {key nonce value context blob : Bytes}

theorem requireKey_ok {label : String} : requireKey key label = .ok () ↔ key.length = 32 := by
  rw [requireKey, keySize]
  split
  · rename_i h
    simp [h]
  · rename_i h
    simpa using h

/-- An encryption that returns had a key of the right size and a context. -/
theorem encrypt_ok (h : encrypt aead key nonce value context = .ok blob) :
    key.length = 32 ∧ context ≠ [] ∧ blob = formatVersion ++ aead.encrypt key nonce value context := by
  rw [encrypt, Except.bind_eq_ok] at h
  obtain ⟨_, hkey, h⟩ := h
  simp only [throw, throwThe, MonadExceptOf.throw, bind, Except.bind, pure, Except.pure] at h
  split at h
  · exact absurd h (by simp)
  · rename_i hcontext
    exact ⟨requireKey_ok.mp hkey, hcontext, (Except.ok.inj h).symm⟩

/-- **What was encrypted decrypts.** -/
theorem decrypt_of_encrypt (haead : aead.Correct) (hnonce : nonce.length = 24)
    (h : encrypt aead key nonce value context = .ok blob) :
    decrypt aead key blob context = .ok value := by
  obtain ⟨hkey, hcontext, rfl⟩ := encrypt_ok h
  have hlen := haead.length_encrypt key nonce value context hkey hnonce
  have hsize : ¬(formatVersion ++ aead.encrypt key nonce value context).length < minimumSize := by
    rw [List.length_append, hlen, minimumSize, formatVersion, List.length_singleton]
    omega
  have hversion : (formatVersion ++ aead.encrypt key nonce value context).take 1 = formatVersion :=
    rfl
  have hdrop : (formatVersion ++ aead.encrypt key nonce value context).drop 1 =
      aead.encrypt key nonce value context := rfl
  rw [decrypt, requireKey_ok.mpr hkey]
  simp only [throw, throwThe, MonadExceptOf.throw, bind, Except.bind, pure, Except.pure, hcontext,
    if_false, hsize, hversion, ne_eq, not_true_eq_false, hdrop,
    haead.decrypt_encrypt key nonce value context hkey hnonce]

/-- **A wrapped profile key is unwrapped.** -/
theorem unwrapProfileKey_of_wrap {cipher : SecretCipher} {profileId : Uuid} {wrapped : Bytes}
    (haead : cipher.aead.Correct) (hnonce : nonce.length = 24)
    (h : cipher.wrapProfileKey profileId nonce key = .ok wrapped) :
    cipher.unwrapProfileKey profileId wrapped = .ok key := by
  rw [wrapProfileKey, Except.bind_eq_ok] at h
  obtain ⟨_, hkey, h⟩ := h
  rw [unwrapProfileKey, decrypt_of_encrypt haead hnonce h]
  simp only [bind, Except.bind, hkey]
  rfl

end Correct

end SecretCipher

/-- The key of the samples is one. -/
theorem length_sampleKey : (List.replicate 32 (7 : UInt8)).length = 32 := List.length_replicate

end EzOpenPN
