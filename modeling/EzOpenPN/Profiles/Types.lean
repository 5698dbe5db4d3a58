import EzOpenPN.Security.Secrets

/-!
# Profiles: rows, records and the material behind them

A profile is one row of the `profiles` table and two rows of `profile_lookups`, a
digest of its subscription token and a digest of its Hysteria2 credential. Its secrets
are stored encrypted, and every reader of them goes through the same two steps: unwrap
the profile key, then decrypt the field under a context that names profile and field.

The runtime identifier of a profile is the e-mail under which Xray knows its user. It is
drawn by the service in one fixed form, `p_` and twenty-six base32 characters, and nothing
else ever writes the column; `RuntimeId` carries that form with the text.
-/

namespace EzOpenPN

/-- Instants, as the database clock counts them. -/
abbrev Time := ℤ

/-- The states of a profile. -/
inductive ProfileState where
  | pending
  | active
  | disabled
  | error
  deriving DecidableEq, Repr

/-! ### Runtime identifiers -/

/-- The characters that may follow the prefix of a runtime identifier: `[a-z2-7]`. -/
def isRuntimeChar (c : Char) : Bool := ('a' ≤ c && c ≤ 'z') || ('2' ≤ c && c ≤ '7')

/-- `_RUNTIME_ID_PATTERN.fullmatch`: the pattern `p_[a-z2-7]{26}`, the same in the Xray and
in the Hysteria2 client. -/
def matchesRuntimeId (value : String) : Bool :=
  match value.toList with
  | 'p' :: '_' :: rest => rest.length == 26 && rest.all isRuntimeChar
  | _ => false

/-- **A runtime identifier of the generated form.** -/
def RuntimeId : Type := { value : String // matchesRuntimeId value = true }

namespace RuntimeId

instance : DecidableEq RuntimeId :=
  inferInstanceAs (DecidableEq { value : String // matchesRuntimeId value = true })

/-- The text of a runtime identifier. -/
def text (r : RuntimeId) : String := r.val

@[simp] theorem matches_text (r : RuntimeId) : matchesRuntimeId r.text = true := r.property

theorem text_injective : Function.Injective text := Subtype.val_injective

end RuntimeId

/-! ### Rows and records -/

/-- A row of the `profiles` table. -/
structure Profile where
  id : Uuid
  name : String
  state : ProfileState
  runtimeId : RuntimeId
  wrappedProfileKey : Option Bytes
  userIdCiphertext : Bytes
  hysteriaSecretCiphertext : Bytes
  subscriptionTokenCiphertext : Bytes
  lastErrorCode : Option String
  createdAt : Time
  updatedAt : Time
  disabledAt : Option Time
  deriving DecidableEq

/-- The two kinds of lookup, `"subscription"` and `"hysteria-auth"`. -/
inductive LookupKind where
  | subscription
  | hysteriaAuth
  deriving DecidableEq, Repr

/-- A row of the `profile_lookups` table. -/
structure ProfileLookup where
  profileId : Uuid
  kind : LookupKind
  lookupDigest : Bytes
  deriving DecidableEq

/-- What a repository read returns: the row, with the digest of its subscription lookup. -/
structure ProfileRecord extends Profile where
  subscriptionLookupDigest : Bytes
  deriving DecidableEq

/-- What the service hands to the repository for a new profile. -/
structure NewProfileMaterial where
  profileId : Uuid
  name : String
  runtimeId : RuntimeId
  wrappedProfileKey : Bytes
  userIdCiphertext : Bytes
  hysteriaSecretCiphertext : Bytes
  subscriptionTokenCiphertext : Bytes
  subscriptionLookupDigest : Bytes
  hysteriaLookupDigest : Bytes

/-- The three links of a profile. -/
structure LinkBundle where
  combinedUrl : String
  vlessLink : String
  hysteriaLink : String
  deriving DecidableEq

/-- What a coordinator operation returns to its caller. -/
structure ProfileResult where
  profileId : Uuid
  name : String
  state : ProfileState
  runtimeId : RuntimeId
  subscriptionToken : Option String
  linkBundle : Option LinkBundle
  deriving DecidableEq

/-! ### The stored material -/

/-- `profile_value_context`: the context of an encrypted field names profile and field. -/
def profileValueContext (profileId : Uuid) (fieldName : String) : Bytes :=
  asciiBytes ("ezopenpn/profile/" ++ profileId.text ++ "/" ++ fieldName ++ "/v1")

/-- `hysteria_lookup_value`. -/
def hysteriaLookupValue (value : String) : Except PyError Bytes :=
  if isAscii value then .ok (asciiBytes "ezopenpn/hysteria-auth/v1:" ++ asciiBytes value)
  else .error ⟨.valueError, "Hysteria2 lookup value must be ASCII"⟩

/-- Unwrap the profile key and decrypt the user id, with the exceptions the cipher raises. -/
def decryptUserId (cipher : SecretCipher) (record : ProfileRecord) (wrapped : Bytes) :
    Except PyError Uuid := do
  let profileKey ← cipher.unwrapProfileKey record.id wrapped
  let value ← cipher.decryptProfileValue profileKey record.userIdCiphertext
    (profileValueContext record.id "user-id")
  Uuid.ofBytes value

/-- The `_user_id` readers of the coordinator and of the reconciler: the decrypted user
id, with the cipher's refusals turned into `unavailable`. -/
def readUserId (unavailable : PyError) (cipher : SecretCipher) (record : ProfileRecord) :
    Except PyError Uuid :=
  match record.wrappedProfileKey with
  | none => .error unavailable
  | some wrapped =>
    match decryptUserId cipher record wrapped with
    | .ok userId => .ok userId
    | .error e =>
      if e.kind = .cryptoError ∨ e.kind = .valueError then .error unavailable else .error e

/-- **The user id a record holds**, when its material is there and decrypts. -/
def storedUserId (cipher : SecretCipher) (record : ProfileRecord) : Option Uuid :=
  record.wrappedProfileKey.bind fun wrapped => (decryptUserId cipher record wrapped).toOption

/-- **Both readers return the stored user id, and only that.** -/
theorem readUserId_eq_ok {unavailable : PyError} {cipher : SecretCipher} {record : ProfileRecord}
    {u : Uuid} : readUserId unavailable cipher record = .ok u ↔ storedUserId cipher record = some u := by
  rw [readUserId, storedUserId]
  rcases record.wrappedProfileKey with _ | wrapped
  · simp
  · rcases h : decryptUserId cipher record wrapped with e | v
    · simp only [h, Option.bind_some, Except.toOption]
      split <;> simp
    · simp [h, Except.toOption]

/-- The stored user id depends on the material only. -/
theorem storedUserId_congr {cipher : SecretCipher} {r r' : ProfileRecord} (hid : r.id = r'.id)
    (hk : r.wrappedProfileKey = r'.wrappedProfileKey)
    (hc : r.userIdCiphertext = r'.userIdCiphertext) :
    storedUserId cipher r = storedUserId cipher r' := by
  rw [storedUserId, storedUserId, hk]
  simp only [decryptUserId, hid, hc]

end EzOpenPN
