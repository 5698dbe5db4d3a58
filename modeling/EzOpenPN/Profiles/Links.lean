import EzOpenPN.Profiles.Types

/-!
# Share links

The texts a user copies into a client: the `vless` link, the `hysteria2` link and the
subscription address. They are built from the decrypted material of a profile and the
transport configuration of the installation, with every value percent-encoded where it
stands.

`EzOpenPN.quoteChar` follows `urllib.parse.quote` with an empty safe set: the unreserved
characters stand for themselves, and every other character becomes the percent-encoding of
its UTF-8 bytes. `urlencode` uses `quote_plus`, which differs in the space only.
-/

namespace EzOpenPN

/-! ### Percent-encoding -/

/-- The characters that never need quoting. -/
def isUnreserved (c : Char) : Bool :=
  c.isAlpha || c.isDigit || c == '_' || c == '.' || c == '-' || c == '~'

/-- One upper-case hexadecimal digit. -/
def hexUpper (n : ℕ) : Char := (Nat.digitChar n).toUpper

/-- `%XX`. -/
def percentByte (b : UInt8) : List Char :=
  ['%', hexUpper (b.toNat / 16), hexUpper (b.toNat % 16)]

/-- The quoted form of one character. -/
def quoteChar (c : Char) : List Char :=
  if isUnreserved c then [c] else (String.utf8EncodeChar c).flatMap percentByte

/-- The quoted form of one character in a form-encoded query. -/
def quotePlusChar (c : Char) : List Char := if c = ' ' then ['+'] else quoteChar c

/-- `quote(text, safe='')`. -/
def quote (text : String) : String := String.ofList (text.toList.flatMap quoteChar)

/-- `quote_plus(text)`. -/
def quotePlus (text : String) : String := String.ofList (text.toList.flatMap quotePlusChar)

/-- `urlencode(pairs)`. -/
def urlencode (pairs : List (String × String)) : String :=
  "&".intercalate (pairs.map fun kv => quotePlus kv.1 ++ "=" ++ quotePlus kv.2)

/-! ### The configuration -/

/-- An IPv4 address, as four numbers. -/
structure IPv4Address where
  a : UInt8
  b : UInt8
  c : UInt8
  d : UInt8
  deriving DecidableEq

/-- `str(address)`. -/
def IPv4Address.text (h : IPv4Address) : String :=
  toString h.a.toNat ++ "." ++ toString h.b.toNat ++ "." ++ toString h.c.toNat ++ "." ++
    toString h.d.toNat

/-- The check on the two free texts of the configuration: not empty, ASCII, and no character of
it `isspace()`. -/
def validLinkText (value : String) : Bool :=
  value.length ≠ 0 && isAscii value && value.toList.all fun c => !isPySpace c

/-- `_SHORT_ID_PATTERN.fullmatch`: the pattern `[0-9a-f]{2,16}`. -/
def matchesShortId (value : String) : Bool :=
  2 ≤ value.length && value.length ≤ 16 &&
    value.toList.all fun c => c.isDigit || ('a' ≤ c && c ≤ 'f')

/-- **`TransportLinkConfig`**, with the checks of its constructor. -/
structure TransportLinkConfig where
  host : IPv4Address
  realityPublicKey : String
  realityShortId : String
  hysteriaObfsPassword : String
  publicPort : ℕ
  panelPort : ℕ
  realityPublicKey_valid : validLinkText realityPublicKey = true
  hysteriaObfsPassword_valid : validLinkText hysteriaObfsPassword = true
  realityShortId_valid : matchesShortId realityShortId = true
  publicPort_valid : 1 ≤ publicPort ∧ publicPort ≤ 65535
  panelPort_valid : 1 ≤ panelPort ∧ panelPort ≤ 65535

/-- `VISION_FLOW`. -/
def visionFlow : String := "xtls-rprx-vision"

/-! ### The links -/

/-- `build_vless_link`. -/
def buildVlessLink (config : TransportLinkConfig) (userId : Uuid) (label : String) : String :=
  let query := urlencode [("type", "tcp"), ("security", "reality"), ("encryption", "none"),
    ("flow", visionFlow), ("pbk", config.realityPublicKey), ("fp", "chrome"),
    ("sni", config.host.text), ("sid", config.realityShortId)]
  "vless://" ++ quote userId.text ++ "@" ++ config.host.text ++ ":" ++
    toString config.publicPort ++ "?" ++ query ++ "#" ++ quote label

/-- `build_hysteria_link`. -/
def buildHysteriaLink (config : TransportLinkConfig) (secret label : String) : String :=
  let query := urlencode [("obfs", "salamander"), ("obfs-password", config.hysteriaObfsPassword)]
  "hysteria2://" ++ quote secret ++ "@" ++ config.host.text ++ ":" ++
    toString config.publicPort ++ "/?" ++ query ++ "#" ++ quote label

/-- The address of a subscription. -/
def combinedUrl (config : TransportLinkConfig) (subscriptionToken : String) : String :=
  "https://" ++ config.host.text ++ ":" ++ toString config.panelPort ++ "/s/" ++
    quote subscriptionToken

/-- `build_subscription`: the two links, one a line, in base64. -/
def buildSubscription (vlessLink hysteriaLink : String) : String :=
  String.ofList (BaseN.standardEncode (utf8Bytes (vlessLink ++ "\n" ++ hysteriaLink)))

/-- `encode_url_secret`, and the service's `_url_token`: URL-safe base64 without padding. -/
def encodeUrlSecret (value : Bytes) : String :=
  String.ofList (BaseN.stripPad (BaseN.b64encode value))

/-- Secrets with one text are one secret. -/
theorem encodeUrlSecret_injective : Function.Injective encodeUrlSecret := fun _ _ h =>
  BaseN.stripPad_b64encode_injective (String.ofList_injective h)

/-- The characters of an encoded secret. -/
theorem mem_encodeUrlSecret {value : Bytes} {c : Char} (h : c ∈ (encodeUrlSecret value).toList) :
    c ∈ BaseN.b64Alphabet := by
  rw [encodeUrlSecret, String.toList_ofList] at h
  exact BaseN.mem_stripPad_b64encode h

theorem isAscii_encodeUrlSecret (value : Bytes) : isAscii (encodeUrlSecret value) = true := by
  rw [isAscii, List.all_eq_true]
  intro c hc
  have hall : ∀ c ∈ BaseN.b64Alphabet, decide (c.toNat < 128) = true :=
    List.forall_iff_forall_mem.mp (by decide)
  exact hall c (mem_encodeUrlSecret hc)

theorem length_encodeUrlSecret (value : Bytes) :
    (encodeUrlSecret value).length = (4 * value.length + 2) / 3 := by
  rw [encodeUrlSecret, String.length_ofList, BaseN.length_stripPad_b64encode]

/-! ### Reading the material -/

/-- `.decode("ascii")`. -/
def decodeAscii (value : Bytes) : Except PyError String :=
  if value.all fun b => b.toNat < 128 then
    .ok (String.ofList (value.map fun b => Char.ofNat b.toNat))
  else .error ⟨.unicodeError, "ordinal not in range(128)"⟩

/-- The exception of every failure to build links. -/
def linksUnavailable : PyError := ⟨.profileLinksUnavailable, "profile links are unavailable"⟩

/-- The three values behind the links of a record, with the exceptions the cipher and the
codecs raise. -/
def decryptLinkValues (cipher : SecretCipher) (record : ProfileRecord) (wrapped : Bytes) :
    Except PyError (Uuid × String × String) := do
  let profileKey ← cipher.unwrapProfileKey record.id wrapped
  let userIdBytes ← cipher.decryptProfileValue profileKey record.userIdCiphertext
    (profileValueContext record.id "user-id")
  let userId ← Uuid.ofBytes userIdBytes
  let secretBytes ← cipher.decryptProfileValue profileKey record.hysteriaSecretCiphertext
    (profileValueContext record.id "hysteria-auth")
  let tokenBytes ← cipher.decryptProfileValue profileKey record.subscriptionTokenCiphertext
    (profileValueContext record.id "subscription-token")
  let token ← decodeAscii tokenBytes
  return (userId, encodeUrlSecret secretBytes, token)

/-- `ProfileLinkService._plaintext`. -/
def linkPlaintext (cipher : SecretCipher) (record : ProfileRecord) :
    Except PyError (Uuid × String × String) :=
  match record.wrappedProfileKey with
  | none => .error linksUnavailable
  | some wrapped =>
    match decryptLinkValues cipher record wrapped with
    | .error e =>
      if e.kind = .cryptoError ∨ e.kind = .unicodeError ∨ e.kind = .valueError then
        .error linksUnavailable
      else .error e
    | .ok (userId, secret, token) =>
      if token.length < 1 ∨ 128 < token.length ∨ ¬isAscii token then .error linksUnavailable
      else .ok (userId, secret, token)

/-- `ProfileLinkService.bundle_for_record`. -/
def bundleForRecord (cipher : SecretCipher) (config : TransportLinkConfig)
    (record : ProfileRecord) : Except PyError LinkBundle :=
  if record.state ≠ .active then .error linksUnavailable
  else
    match linkPlaintext cipher record with
    | .error e => .error e
    | .ok (userId, secret, token) =>
      .ok { combinedUrl := combinedUrl config token
            vlessLink := buildVlessLink config userId record.name
            hysteriaLink := buildHysteriaLink config secret record.name }

/-! ### The user id in a link -/

/-- Where the values behind the links come from. -/
theorem linkPlaintext_ok {cipher : SecretCipher} {record : ProfileRecord}
    {v : Uuid × String × String} (h : linkPlaintext cipher record = .ok v) :
    ∃ wrapped, record.wrappedProfileKey = some wrapped ∧
      decryptLinkValues cipher record wrapped = .ok v := by
  rw [linkPlaintext] at h
  rcases hk : record.wrappedProfileKey with _ | wrapped
  · simp [hk] at h
  · rcases hd : decryptLinkValues cipher record wrapped with e | v'
    · simp only [hk, hd] at h
      split at h <;> exact absurd h (by simp)
    · simp only [hk, hd] at h
      split at h
      · exact absurd h (by simp)
      · obtain rfl : v' = v := Except.ok.inj h
        exact ⟨wrapped, rfl, hd⟩

/-- **The links of a record are built around its stored user id.** -/
theorem storedUserId_of_linkPlaintext {cipher : SecretCipher} {record : ProfileRecord}
    {v : Uuid × String × String} (h : linkPlaintext cipher record = .ok v) :
    storedUserId cipher record = some v.1 := by
  obtain ⟨wrapped, hk, hd⟩ := linkPlaintext_ok h
  -- the user id is decrypted first, and the rest only decides whether links are built
  simp only [decryptLinkValues, Except.bind_eq_ok] at hd
  obtain ⟨key, hkey, bytes, hbytes, u, hu, _, _, _, _, _, _, hv⟩ := hd
  have hread : decryptUserId cipher record wrapped = .ok u := by
    simp only [decryptUserId, Except.bind_eq_ok]
    exact ⟨key, hkey, bytes, hbytes, hu⟩
  rw [storedUserId, hk, Option.bind_some, hread, ← Except.ok.inj hv]
  rfl

/-- **A bundle is built around the stored user id of its record.** -/
theorem bundleForRecord_userId {cipher : SecretCipher} {config : TransportLinkConfig}
    {record : ProfileRecord} {bundle : LinkBundle}
    (h : bundleForRecord cipher config record = .ok bundle) :
    ∃ u, storedUserId cipher record = some u ∧
      bundle.vlessLink = buildVlessLink config u record.name := by
  rw [bundleForRecord] at h
  split at h
  · exact absurd h (by simp)
  · rcases hp : linkPlaintext cipher record with e | ⟨u, secret, token⟩
    · rw [hp] at h
      exact absurd h (by simp)
    · rw [hp] at h
      exact ⟨u, storedUserId_of_linkPlaintext hp,
        by simpa using congrArg LinkBundle.vlessLink (Except.ok.inj h).symm⟩

end EzOpenPN
