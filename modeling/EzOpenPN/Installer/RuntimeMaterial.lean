import EzOpenPN.Installer.BackupArchive
import EzOpenPN.JsonText
import EzOpenPN.Lib.LooseBase64

/-!
# The material of a node

When a server is installed, its keys, its short id and the limits of its fallback are written to two
files, which every later rendering of the configuration starts from. Three programs look at them:
the one that generates them, a check that the installer makes before it goes on, and the check of
the renderer. Each of them spells out by itself what a key, a short id and a pair of limits are.

`EzOpenPN.generated_material_accepted` says that they agree on what is generated, whatever was
drawn: what was written is read back, both checks accept it, and the renderer is handed the keys that
Xray printed, the drawn limits and encodings of the two secrets. `EzOpenPN.renderer_stricter` says
that the first check never refuses what the renderer accepts, also in material of older releases.
-/

namespace EzOpenPN

/-! ### Keys, short ids and secrets -/

/-- `base64.urlsafe_b64decode(text + "=" * (-len(text) % 4))`; `none` is `ValueError`. -/
def decodeUnpadded (text : PyStr) : Option Bytes :=
  if text.all fun c => decide (c < 128) then
    BaseN.urlsafeB64decode (BaseN.refill (text.map Char.ofNat))
  else none

/-- `len(decoded) != 32` and the exceptions before it: the text stands for 32 bytes. -/
def decodesTo32 (text : PyStr) : Bool := (decodeUnpadded text).any fun decoded => decoded.length == 32

/-- `[A-Za-z0-9_-]`. -/
def isKeyChar (c : ℕ) : Bool := c ∈ BaseN.b64Alphabet.map Char.toNat

/-- `_KEY_PATTERN.fullmatch`. -/
def matchesKey (text : PyStr) : Bool :=
  decide (42 ≤ text.length) && decide (text.length ≤ 44) && text.all isKeyChar

/-- `_SHORT_ID_PATTERN.fullmatch`. -/
def matchesShortIdPattern (text : PyStr) : Bool :=
  text.length == 16 && text.all fun c => decide (c ∈ codePoints "0123456789abcdef")

/-- **The limits of a fallback.** -/
structure FallbackLimits where
  afterBytes : ℤ
  bytesPerSecond : ℤ
  burstBytesPerSecond : ℤ
  deriving DecidableEq

/-! ### Generating -/

/-- The draws of one pair of limits. -/
structure LimitDraw where
  rate : ℕ
  burst : ℕ
  after : ℕ

/-- **What is drawn for the material**; the limits of the download are drawn until they differ. -/
structure MaterialDraw where
  upload : LimitDraw
  downloads : List LimitDraw
  shortId : Bytes
  shortId_length : shortId.length = 8

/-- `secrets.choice(range(start, stop, step))`. -/
def choiceOfRange (start stop step draw : ℕ) : ℕ :=
  start + step * (draw % ((stop - start + step - 1) / step))

/-- `fallback_limits`. -/
def fallbackLimits (draw : LimitDraw) : FallbackLimits :=
  let mebibyte := 1048576
  let kibibyte := 1024
  let rate := choiceOfRange (256 * kibibyte) (2 * mebibyte + 1) (64 * kibibyte) draw.rate
  let maximumBurst := min (16 * mebibyte) (rate * 4)
  let burst := choiceOfRange rate (maximumBurst + 1) (64 * kibibyte) draw.burst
  ⟨choiceOfRange (4 * mebibyte) (32 * mebibyte + 1) mebibyte draw.after, rate, burst⟩

/-- The group of `^label:\s*([A-Za-z0-9_-]{42,44})$` at the start of a line. -/
def matchKeyLine (label text : PyStr) : Option PyStr :=
  if label ++ codePoints ":" <+: text then
    let rest := (text.drop (label.length + 1)).dropWhile fun c => isPySpace (Char.ofNat c)
    let value := rest.takeWhile isKeyChar
    let after := rest.dropWhile isKeyChar
    if 42 ≤ value.length ∧ value.length ≤ 44 ∧ after.head?.all fun c => c == 10 then some value
    else none
  else none

/-- `re.search` with `re.M`, from a position of the text. -/
def searchKey (label : PyStr) (lineStart : Bool) : PyStr → Option PyStr
  | [] => none
  | c :: text =>
    match if lineStart then matchKeyLine label (c :: text) else none with
    | some value => some value
    | none => searchKey label (c == 10) text

/-- `parse_key`; `none` is `SystemExit(1)`, or the exception of the decoder. -/
def parseKey (label : String) (keyOutput : PyStr) : Option PyStr :=
  (searchKey (codePoints label) true keyOutput).filter decodesTo32

/-- `read_secret`. -/
def readSecret (content : Bytes) : Option Bytes := if content.length = 32 then some content else none

/-- `encode`. -/
def encodeSecret (value : Bytes) : PyStr := (BaseN.stripPad (BaseN.b64encode value)).map Char.toNat

/-- `secrets.token_hex`. -/
def tokenHex (drawn : Bytes) : PyStr := (drawn.flatMap Uuid.hexByte).map Char.toNat

namespace PlainJson

/-- A dictionary display. -/
def ofFields (fields : List (String × PlainJson)) : PlainJson :=
  .dict (fields.map fun field => (codePoints field.1, field.2))

/-- A string literal. -/
def ofString (s : String) : PlainJson := .str (codePoints s)

end PlainJson

def FallbackLimits.toPlain (l : FallbackLimits) : PlainJson :=
  .ofFields [("after_bytes", .int l.afterBytes), ("bytes_per_second", .int l.bytesPerSecond),
    ("burst_bytes_per_second", .int l.burstBytesPerSecond)]

/-- `runtime`. -/
def runtimeValue (privateKey shortId : PyStr) (upload download : FallbackLimits)
    (obfsSecret apiSecret : Bytes) : PlainJson :=
  .ofFields [
    ("xray", .ofFields [
      ("private_key", .str privateKey),
      ("short_id", .str shortId),
      ("fallback_upload", upload.toPlain),
      ("fallback_download", download.toPlain)]),
    ("hysteria", .ofFields [
      ("certificate_path", .ofString "/certs/fullchain.pem"),
      ("private_key_path", .ofString "/certs/privkey.pem"),
      ("obfs_password", .str (encodeSecret obfsSecret)),
      ("stats_secret", .str (encodeSecret apiSecret))])]

/-- `node`. -/
def nodeValue (publicKey shortId : PyStr) : PlainJson :=
  .ofFields [("xray_public_key", .str publicKey), ("xray_short_id", .str shortId)]

/-- What `json.dump` leaves in a file, with sorted keys and a line end. -/
def jsonFile (v : PlainJson) : Bytes :=
  utf8Bytes (String.ofList (JsonText.dumps .compact v.sorted ++ ['\n']))

/-- **The two files of the material.** -/
structure MaterialFiles where
  runtimeValues : Bytes
  node : Bytes

/-- **The generator of `configure_runtime_material`**, on what Xray has printed and on the three
secrets of the installation. -/
def generateMaterial (keyOutput masterKey apiKey obfsKey : Bytes) (draw : MaterialDraw) :
    Option MaterialFiles := do
  let keyOutput ← readAscii keyOutput
  let privateKey ← parseKey "PrivateKey" keyOutput
  let publicKey ← parseKey "Password (PublicKey)" keyOutput
  let apiSecret ← readSecret apiKey
  let obfsSecret ← readSecret obfsKey
  let _ ← readSecret masterKey
  let upload := fallbackLimits draw.upload
  let download ← (draw.downloads.map fallbackLimits).find? fun download => download ≠ upload
  let shortId := tokenHex draw.shortId
  return ⟨jsonFile (runtimeValue privateKey shortId upload download obfsSecret apiSecret),
    jsonFile (nodeValue publicKey shortId)⟩

/-! ### The check of the installer -/

namespace Json

/-- The text that a value is. -/
def text? : Json → Option PyStr
  | .str s => some s
  | _ => none

/-- The dictionary that a value is. -/
def dict? : Json → Option (List (PyStr × Json))
  | .dict fields => some fields
  | _ => none

end Json

/-- `_LEGACY_FIELDS`. -/
def legacyFields : List String := ["target", "server_name", "xhttp_path"]

/-- `value.get(name)`. -/
def getField (fields : List (PyStr × Json)) (name : String) : Json := (field fields name).getD .null

/-- The older fields say the same in both files. -/
def legacyAgrees (xray node : List (PyStr × Json)) : Bool :=
  legacyFields.all fun name => (getField xray name).pyEq (getField node name)

/-- **`_validate_runtime_material`**, on the contents of the two files; every exception is a
refusal. -/
def validateRuntimeMaterial (runtime node : Json) : Bool :=
  ((do
    let runtime ← runtime.dict?
    let xray ← field runtime "xray" >>= Json.dict?
    let node ← node.dict?
    let privateKey ← field xray "private_key" >>= Json.text?
    let publicKey ← field node "xray_public_key" >>= Json.text?
    guard (decodesTo32 privateKey = true)
    guard (decodesTo32 publicKey = true)
    guard (legacyAgrees xray node = true)
    let shortId ← field xray "short_id" >>= Json.text?
    guard (matchesShortIdPattern shortId = true)
    let nodeShortId ← field node "xray_short_id"
    guard (nodeShortId.pyEq (.str shortId) = true)) : Option Unit).isSome

/-! ### The check of the renderer -/

/-- Raise `RenderError(message)` if a condition is met. -/
def renderErrorIf (condition : Prop) [Decidable condition] (message : String) : Except String Unit :=
  if condition then .error message else .ok ()

/-- `_string`. -/
def renderString (value : Json) (label : String) : Except String PyStr :=
  match value with
  | .str s => .ok s
  | _ => .error (label ++ " is invalid")

/-- `_key`. -/
def renderKey (value : Json) (label : String) : Except String PyStr := do
  let text ← renderString value label
  renderErrorIf (matchesKey text = false) (label ++ " is invalid")
  renderErrorIf (decodesTo32 text = false) (label ++ " is invalid")
  return text

/-- `_encoded_secret`. -/
def renderSecret (value : Json) (label : String) : Except String PyStr := do
  let text ← renderString value label
  renderErrorIf (decodesTo32 text = false) (label ++ " is invalid")
  return text

/-- `isinstance(item, int) and not isinstance(item, bool)`. -/
def Json.isInteger : Json → Bool
  | .int _ => true
  | _ => false

/-- `int(value[name])`. -/
def integerField (fields : List (PyStr × Json)) (name : String) : ℤ :=
  match field fields name with
  | some (.int n) => n
  | _ => 0

/-- `_limits`. -/
def renderLimits (value : Json) (label : String) : Except String FallbackLimits :=
  match value with
  | .dict fields => do
    renderErrorIf (hasKeys ["after_bytes", "bytes_per_second", "burst_bytes_per_second"] fields = false)
      (label ++ " is invalid")
    renderErrorIf ((fields.all fun field => field.2.isInteger) = false) (label ++ " is invalid")
    let normalized : FallbackLimits := ⟨integerField fields "after_bytes",
      integerField fields "bytes_per_second", integerField fields "burst_bytes_per_second"⟩
    renderErrorIf (¬(1048576 ≤ normalized.afterBytes ∧ normalized.afterBytes ≤ 67108864))
      (label ++ " is invalid")
    renderErrorIf (¬(131072 ≤ normalized.bytesPerSecond ∧ normalized.bytesPerSecond ≤ 8388608))
      (label ++ " is invalid")
    renderErrorIf (¬(normalized.bytesPerSecond ≤ normalized.burstBytesPerSecond ∧
      normalized.burstBytesPerSecond ≤ 33554432)) (label ++ " is invalid")
    return normalized
  | _ => .error (label ++ " is invalid")

/-- `_require_fields`. -/
def requireFields (fields : List (PyStr × Json)) (required : List String) (label : String) :
    Except String Unit :=
  let present := fields.map Prod.fst
  let required := required.map codePoints
  renderErrorIf (¬(∀ key ∈ required, key ∈ present) ∨
    ¬∀ key ∈ present, key ∈ required ∨ key ∈ legacyFields.map codePoints)
    (label ++ " has unexpected fields")

/-- The values that Xray and the panel are configured with. -/
structure XrayValues where
  privateKey : PyStr
  publicKey : PyStr
  shortId : PyStr
  fallbackUpload : FallbackLimits
  fallbackDownload : FallbackLimits

/-- The values that Hysteria is configured with. -/
structure HysteriaValues where
  certificatePath : PyStr
  privateKeyPath : PyStr
  obfsPassword : PyStr
  statsSecret : PyStr

/-- **`_validated_values`.** -/
def validatedValues (runtime node : List (PyStr × Json)) :
    Except String (XrayValues × HysteriaValues) := do
  renderErrorIf (hasKeys ["xray", "hysteria"] runtime = false)
    "runtime material has unexpected fields"
  match getField runtime "xray", getField runtime "hysteria" with
  | .dict xray, .dict hysteria =>
    requireFields xray ["private_key", "short_id", "fallback_upload", "fallback_download"]
      "Xray material"
    renderErrorIf (hasKeys ["certificate_path", "private_key_path", "obfs_password", "stats_secret"]
      hysteria = false) "Hysteria2 material has unexpected fields"
    requireFields node ["xray_public_key", "xray_short_id"] "node material"
    renderErrorIf (legacyAgrees xray node = false) "node and runtime material do not match"
    let shortId ← renderString (getField xray "short_id") "short ID"
    renderErrorIf (matchesShortIdPattern shortId = false) "short ID is invalid"
    renderErrorIf ((getField node "xray_short_id").pyEq (.str shortId) = false)
      "node and runtime material do not match"
    let upload ← renderLimits (getField xray "fallback_upload") "upload fallback"
    let download ← renderLimits (getField xray "fallback_download") "download fallback"
    renderErrorIf (upload = download) "fallback limits must differ"
    let privateKey ← renderKey (getField xray "private_key") "private key"
    let publicKey ← renderKey (getField node "xray_public_key") "public key"
    let certificatePath ← renderString (getField hysteria "certificate_path") "certificate path"
    let privateKeyPath ← renderString (getField hysteria "private_key_path") "private key path"
    let obfsPassword ← renderSecret (getField hysteria "obfs_password") "obfuscation value"
    let statsSecret ← renderSecret (getField hysteria "stats_secret") "statistics value"
    renderErrorIf (certificatePath ≠ codePoints "/certs/fullchain.pem") "certificate path is invalid"
    renderErrorIf (privateKeyPath ≠ codePoints "/certs/privkey.pem") "private key path is invalid"
    return (⟨privateKey, publicKey, shortId, upload, download⟩,
      ⟨certificatePath, privateKeyPath, obfsPassword, statsSecret⟩)
  | _, _ => .error "runtime material is invalid"

/-! ### Texts -/

section Texts

variable {text : PyStr} {l : List Char}

theorem codePoints_injective : Function.Injective codePoints := by
  intro a b h
  have hchar : Function.Injective Char.toNat := fun c d hcd => Char.ext (UInt32.toNat_inj.mp hcd)
  exact String.toList_inj.mp (List.map_injective_iff.mpr hchar h)

theorem map_ofNat_toNat (l : List Char) : (l.map Char.toNat).map Char.ofNat = l := by
  rw [List.map_map]
  exact (List.map_congr_left fun c _ => Char.ofNat_toNat c).trans (List.map_id _)

theorem isText_of_lt (h : ∀ c ∈ text, c < 128) : PlainJson.isText text = true := by
  rw [PlainJson.isText, List.all_eq_true]
  intro c hc
  have hlt := h c hc
  exact decide_eq_true (Or.inl (by omega))

theorem lt_of_isKeyChar {c : ℕ} (h : isKeyChar c = true) : c < 128 := by
  obtain ⟨d, hd, rfl⟩ := List.mem_map.mp (of_decide_eq_true h)
  exact BaseN.lt_of_mem_b64Alphabet hd

theorem isText_of_isKeyChar (h : text.all isKeyChar = true) : PlainJson.isText text = true :=
  isText_of_lt fun c hc => lt_of_isKeyChar (List.all_eq_true.mp h c hc)

theorem isText_of_matchesShortIdPattern (h : matchesShortIdPattern text = true) :
    PlainJson.isText text = true := by
  rw [matchesShortIdPattern, Bool.and_eq_true, List.all_eq_true] at h
  have hdigit : ∀ c ∈ codePoints "0123456789abcdef", c < 128 := by decide
  exact isText_of_lt fun c hc => hdigit c (of_decide_eq_true (h.2 c hc))

/-- **A key has forty-three characters**: of the lengths that the pattern admits, no other one stands
for 32 bytes. -/
theorem matchesKey_and_decodesTo32 : (matchesKey text = true ∧ decodesTo32 text = true) ↔
    text.length = 43 ∧ text.all isKeyChar = true := by
  have hdecode : text.all isKeyChar = true →
      (decodesTo32 text = true ↔ text.length % 4 ≠ 1 ∧ BaseN.complete text.length = 32) := by
    intro hkey
    have hascii : (text.all fun c => decide (c < 128)) = true := by
      rw [List.all_eq_true] at hkey ⊢
      exact fun c hc => decide_eq_true (lt_of_isKeyChar (hkey c hc))
    have halphabet : ∀ c ∈ text.map Char.ofNat, c ∈ BaseN.b64Alphabet := by
      intro c hc
      obtain ⟨n, hn, rfl⟩ := List.mem_map.mp hc
      obtain ⟨d, hd, rfl⟩ := List.mem_map.mp (of_decide_eq_true (List.all_eq_true.mp hkey n hn))
      rwa [Char.ofNat_toNat]
    have hpure := BaseN.a2b_pure halphabet 32
    rw [List.length_map] at hpure
    rw [decodesTo32, decodeUnpadded, if_pos hascii, ← hpure, Option.any_eq_true]
    simp only [beq_iff_eq]
  constructor
  · rintro ⟨hmatch, hdecodes⟩
    rw [matchesKey, Bool.and_eq_true, Bool.and_eq_true, decide_eq_true_eq, decide_eq_true_eq] at hmatch
    obtain ⟨hmod, hlength⟩ := (hdecode hmatch.2).mp hdecodes
    rw [BaseN.complete] at hlength
    exact ⟨by omega, hmatch.2⟩
  · rintro ⟨hlength, hkey⟩
    refine ⟨?_, (hdecode hkey).mpr ?_⟩
    · simp [matchesKey, hlength, hkey]
    · rw [hlength]
      decide

/-- **An encoded secret decodes.** -/
theorem decodeUnpadded_encodeSecret (value : Bytes) :
    decodeUnpadded (encodeSecret value) = some value := by
  have hascii : ((encodeSecret value).all fun c => decide (c < 128)) = true := by
    rw [List.all_eq_true]
    intro c hc
    obtain ⟨d, hd, rfl⟩ := List.mem_map.mp hc
    exact decide_eq_true (BaseN.lt_of_mem_b64Alphabet (BaseN.mem_stripPad_b64encode hd))
  rw [decodeUnpadded, if_pos hascii, encodeSecret, map_ofNat_toNat]
  exact BaseN.a2b_stripPad value

theorem isText_encodeSecret (value : Bytes) : PlainJson.isText (encodeSecret value) = true := by
  refine isText_of_lt fun c hc => ?_
  obtain ⟨d, hd, rfl⟩ := List.mem_map.mp hc
  exact BaseN.lt_of_mem_b64Alphabet (BaseN.mem_stripPad_b64encode hd)

theorem decodesTo32_encodeSecret {value : Bytes} (h : value.length = 32) :
    decodesTo32 (encodeSecret value) = true := by
  simp [decodesTo32, decodeUnpadded_encodeSecret, h]

theorem matchesShortIdPattern_tokenHex {drawn : Bytes} (h : drawn.length = 8) :
    matchesShortIdPattern (tokenHex drawn) = true := by
  have hlength : (tokenHex drawn).length = 16 := by
    have htwo : ∀ b ∈ drawn, (Uuid.hexByte b).length = 2 := fun _ _ => rfl
    rw [tokenHex, List.length_map, List.length_flatMap, List.map_congr_left htwo]
    simp [h]
  have hdigit : ∀ n < 16, (Nat.digitChar n).toNat ∈ codePoints "0123456789abcdef" := by decide
  rw [matchesShortIdPattern, hlength, Bool.and_eq_true, List.all_eq_true]
  refine ⟨rfl, fun c hc => ?_⟩
  obtain ⟨d, hd, rfl⟩ := List.mem_map.mp hc
  obtain ⟨b, -, hb⟩ := List.mem_flatMap.mp hd
  have hlt := b.toNat_lt
  simp only [Uuid.hexByte, List.mem_cons, List.not_mem_nil, or_false] at hb
  rcases hb with rfl | rfl <;> exact decide_eq_true (hdigit _ (by omega))

theorem matchesKey_of_matchKeyLine {label value : PyStr} (h : matchKeyLine label text = some value) :
    matchesKey value = true := by
  rw [matchKeyLine] at h
  split_ifs at h with hlabel
  dsimp only at h
  split_ifs at h with hvalue
  obtain rfl := Option.some.inj h
  simp only [matchesKey, Bool.and_eq_true, decide_eq_true_eq, List.all_takeWhile, and_true]
  exact ⟨hvalue.1, hvalue.2.1⟩

theorem matchesKey_of_searchKey {label value : PyStr} {lineStart : Bool}
    (h : searchKey label lineStart text = some value) : matchesKey value = true := by
  induction text generalizing lineStart with
  | nil => cases h
  | cons c text ih =>
    rw [searchKey] at h
    split at h
    · rename_i found hfound
      obtain rfl := Option.some.inj h
      split_ifs at hfound
      exact matchesKey_of_matchKeyLine hfound
    · exact ih h

/-- **A key that was found is one.** -/
theorem parseKey_eq_some {label : String} {keyOutput value : PyStr}
    (h : parseKey label keyOutput = some value) :
    matchesKey value = true ∧ decodesTo32 value = true := by
  obtain ⟨hsearch, hdecodes⟩ := Option.filter_eq_some_iff.mp h
  exact ⟨matchesKey_of_searchKey hsearch, hdecodes⟩

end Texts

/-! ### Limits -/

theorem choiceOfRange_bounds {start stop step : ℕ} (hrange : start < stop) (hstep : 0 < step)
    (draw : ℕ) :
    start ≤ choiceOfRange start stop step draw ∧ choiceOfRange start stop step draw < stop := by
  have hcount : 0 < (stop - start + step - 1) / step := Nat.div_pos (by omega) hstep
  have hlt := Nat.mod_lt draw hcount
  have hmul : step * (draw % ((stop - start + step - 1) / step) + 1) ≤ stop - start + step - 1 :=
    (Nat.mul_le_mul_left step hlt).trans (Nat.mul_div_le _ _)
  rw [Nat.mul_add, Nat.mul_one] at hmul
  rw [choiceOfRange]
  omega

/-- **The limits that the renderer accepts.** -/
structure FallbackLimits.InRange (l : FallbackLimits) : Prop where
  after : 1048576 ≤ l.afterBytes ∧ l.afterBytes ≤ 67108864
  rate : 131072 ≤ l.bytesPerSecond ∧ l.bytesPerSecond ≤ 8388608
  burst : l.bytesPerSecond ≤ l.burstBytesPerSecond ∧ l.burstBytesPerSecond ≤ 33554432

/-- **Drawn limits are in range.** -/
theorem inRange_fallbackLimits (draw : LimitDraw) : (fallbackLimits draw).InRange := by
  have hafter := @choiceOfRange_bounds (4 * 1048576) (32 * 1048576 + 1) 1048576 (by decide)
    (by decide) draw.after
  have hrate := @choiceOfRange_bounds (256 * 1024) (2 * 1048576 + 1) (64 * 1024) (by decide)
    (by decide) draw.rate
  have hburst := @choiceOfRange_bounds
    (choiceOfRange (256 * 1024) (2 * 1048576 + 1) (64 * 1024) draw.rate)
    (min (16 * 1048576) (choiceOfRange (256 * 1024) (2 * 1048576 + 1) (64 * 1024) draw.rate * 4) + 1)
    (64 * 1024) (by omega) (by decide) draw.burst
  constructor <;> simp only [fallbackLimits] <;> omega

/-! ### What is written is read back -/

section Reading

variable {loads : Loads} {privateKey publicKey shortId : PyStr} {upload download : FallbackLimits}
  {obfsSecret apiSecret : Bytes}

/-- **A file of the generator is read back**, with its keys sorted. -/
theorem loads_jsonFile (hloads : JsonText.Reads loads) {v : PlainJson}
    (hproper : v.sorted.proper = true) (hsmall : v.sorted.small 100 = true) :
    loads (jsonFile v) = .ok v.sorted.toJson :=
  hloads _ _ (JsonText.readText_dumps hproper rfl) hsmall

/-- The fields of a display, as they are looked up. -/
def displayed (fields : List (String × PlainJson)) : List (PyStr × Json) :=
  fields.map fun field => (codePoints field.1, field.2.toJson)

theorem toJson_ofFields (fields : List (String × PlainJson)) :
    (PlainJson.ofFields fields).toJson = .dict (displayed fields) := by
  have hfields : PlainJson.toJsonFields (fields.map fun field => (codePoints field.1, field.2)) =
      displayed fields := by
    induction fields with
    | nil => rfl
    | cons field fields ih =>
      rw [List.map_cons, PlainJson.toJsonFields, ih]
      rfl
  rw [PlainJson.ofFields, PlainJson.toJson, hfields]

theorem field_displayed (fields : List (String × PlainJson)) (key : String) :
    field (displayed fields) key = (fields.find? fun f => f.1 = key).map fun f => f.2.toJson := by
  induction fields with
  | nil => rfl
  | cons f fields ih =>
    simp only [field, displayed, List.map_cons, List.find?_cons, codePoints_injective.eq_iff] at ih ⊢
    by_cases h : f.1 = key
    · simp [h]
    · simpa [h] using ih

theorem map_fst_displayed (fields : List (String × PlainJson)) :
    (displayed fields).map Prod.fst = (fields.map Prod.fst).map codePoints := by
  rw [displayed, List.map_map, List.map_map]
  rfl

/-- A display has the keys that it shows. -/
theorem hasKeys_displayed {fields : List (String × PlainJson)} {keys : List String}
    (h : ∀ key, key ∈ fields.map Prod.fst ↔ key ∈ keys) : hasKeys keys (displayed fields) = true := by
  rw [hasKeys_iff, map_fst_displayed]
  intro k
  rw [List.mem_map, List.mem_map]
  exact exists_congr fun key => and_congr_left fun _ => h key

/-- The limits in a file with sorted keys. -/
def FallbackLimits.inFile (l : FallbackLimits) : PlainJson :=
  .ofFields [("after_bytes", .int l.afterBytes), ("burst_bytes_per_second", .int l.burstBytesPerSecond),
    ("bytes_per_second", .int l.bytesPerSecond)]

/-- The values of Xray in a file with sorted keys. -/
def xrayInFile (privateKey shortId : PyStr) (upload download : FallbackLimits) :
    List (String × PlainJson) :=
  [("fallback_download", download.inFile), ("fallback_upload", upload.inFile),
    ("private_key", .str privateKey), ("short_id", .str shortId)]

/-- The values of Hysteria in a file with sorted keys. -/
def hysteriaInFile (obfsSecret apiSecret : Bytes) : List (String × PlainJson) :=
  [("certificate_path", .ofString "/certs/fullchain.pem"),
    ("obfs_password", .str (encodeSecret obfsSecret)),
    ("private_key_path", .ofString "/certs/privkey.pem"),
    ("stats_secret", .str (encodeSecret apiSecret))]

/-- The runtime values in a file with sorted keys. -/
def runtimeInFile (privateKey shortId : PyStr) (upload download : FallbackLimits)
    (obfsSecret apiSecret : Bytes) : List (String × PlainJson) :=
  [("hysteria", .ofFields (hysteriaInFile obfsSecret apiSecret)),
    ("xray", .ofFields (xrayInFile privateKey shortId upload download))]

/-- The node values in a file with sorted keys. -/
def nodeInFile (publicKey shortId : PyStr) : List (String × PlainJson) :=
  [("xray_public_key", .str publicKey), ("xray_short_id", .str shortId)]

theorem sorted_runtimeValue :
    (runtimeValue privateKey shortId upload download obfsSecret apiSecret).sorted =
      .ofFields (runtimeInFile privateKey shortId upload download obfsSecret apiSecret) := by
  simp [runtimeValue, runtimeInFile, xrayInFile, hysteriaInFile, FallbackLimits.inFile,
    FallbackLimits.toPlain, PlainJson.ofFields, PlainJson.ofString, codePoints, PlainJson.sorted,
    PlainJson.sortedFields, PlainJson.insertField, PlainJson.textLe]

theorem sorted_nodeValue :
    (nodeValue publicKey shortId).sorted = .ofFields (nodeInFile publicKey shortId) := by
  simp [nodeValue, nodeInFile, PlainJson.ofFields, codePoints, PlainJson.sorted,
    PlainJson.sortedFields, PlainJson.insertField, PlainJson.textLe]

/-- A display is proper, if its keys are distinct texts of Unicode and its values are proper. -/
theorem proper_ofFields {fields : List (String × PlainJson)} (hkeys : (fields.map Prod.fst).Nodup)
    (hvalues : ∀ f ∈ fields, f.2.proper = true) : (PlainJson.ofFields fields).proper = true := by
  have hfields := @JsonText.properFields_iff (fields.map fun f => (codePoints f.1, f.2))
  refine hfields.mpr ⟨?_, ?_⟩
  · rw [List.map_map]
    have hmap : (Prod.fst ∘ fun f : String × PlainJson => (codePoints f.1, f.2)) =
        codePoints ∘ Prod.fst := rfl
    rw [hmap, ← List.map_map]
    exact hkeys.map codePoints_injective
  · rintro field hfield
    obtain ⟨f, hf, rfl⟩ := List.mem_map.mp hfield
    refine ⟨?_, hvalues f hf⟩
    rw [PlainJson.isText, codePoints, List.all_map, List.all_eq_true]
    exact fun c _ => decide_eq_true c.valid

theorem proper_inFile (l : FallbackLimits) : l.inFile.proper = true :=
  proper_ofFields (by simp) (by simp [PlainJson.proper])

/-- **The runtime values are proper and small**, for drawn limits and for texts of Unicode. -/
theorem proper_runtimeInFile (hkey : PlainJson.isText privateKey = true)
    (hid : PlainJson.isText shortId = true) :
    (PlainJson.ofFields (runtimeInFile privateKey shortId upload download obfsSecret
      apiSecret)).proper = true := by
  refine proper_ofFields (by simp [runtimeInFile]) ?_
  simp only [runtimeInFile, List.forall_mem_cons, List.not_mem_nil, false_implies, implies_true,
    and_true]
  constructor
  · refine proper_ofFields (by simp [hysteriaInFile]) ?_
    have hpath : ∀ path : String, (PlainJson.ofString path).proper = true := by
      intro path
      rw [PlainJson.ofString, PlainJson.proper, PlainJson.isText, codePoints, List.all_map,
        List.all_eq_true]
      exact fun c _ => decide_eq_true c.valid
    simp [hysteriaInFile, PlainJson.proper, isText_encodeSecret, hpath]
  · refine proper_ofFields (by simp [xrayInFile]) ?_
    simp [xrayInFile, PlainJson.proper, proper_inFile, hkey, hid]

theorem proper_nodeInFile (hkey : PlainJson.isText publicKey = true)
    (hid : PlainJson.isText shortId = true) :
    (PlainJson.ofFields (nodeInFile publicKey shortId)).proper = true := by
  refine proper_ofFields (by simp [nodeInFile]) ?_
  simp [nodeInFile, PlainJson.proper, hkey, hid]

theorem small_runtimeInFile (hupload : upload.InRange) (hdownload : download.InRange) :
    (PlainJson.ofFields (runtimeInFile privateKey shortId upload download obfsSecret
      apiSecret)).small 100 = true := by
  have hbound : ∀ n : ℤ, 0 ≤ n → n ≤ 67108864 → n.natAbs < 2 ^ 64 := by
    intro n h₀ h₁
    omega
  have hlimits : ∀ l : FallbackLimits, l.InRange → l.inFile.small 98 = true := by
    intro l hl
    obtain ⟨ha, hr, hb⟩ := hl
    simp only [FallbackLimits.inFile, PlainJson.ofFields, List.map_cons, List.map_nil,
      PlainJson.small, PlainJson.smallFields, Bool.and_eq_true, decide_eq_true_eq, and_true]
    exact ⟨hbound _ (by omega) (by omega), hbound _ (by omega) (by omega),
      hbound _ (by omega) (by omega)⟩
  simp [PlainJson.ofFields, runtimeInFile, hysteriaInFile, xrayInFile, PlainJson.ofString,
    PlainJson.small, PlainJson.smallFields, hlimits _ hupload, hlimits _ hdownload]

theorem small_nodeInFile : (PlainJson.ofFields (nodeInFile publicKey shortId)).small 100 = true := by
  simp [PlainJson.ofFields, nodeInFile, PlainJson.small, PlainJson.smallFields]

/-- **The runtime values are read back.** -/
theorem loads_runtimeValue (hloads : JsonText.Reads loads)
    (hkey : PlainJson.isText privateKey = true) (hid : PlainJson.isText shortId = true)
    (hupload : upload.InRange) (hdownload : download.InRange) :
    loads (jsonFile (runtimeValue privateKey shortId upload download obfsSecret apiSecret)) =
      .ok (.dict (displayed
        (runtimeInFile privateKey shortId upload download obfsSecret apiSecret))) := by
  rw [loads_jsonFile hloads, sorted_runtimeValue, toJson_ofFields]
  · rw [sorted_runtimeValue]
    exact proper_runtimeInFile hkey hid
  · rw [sorted_runtimeValue]
    exact small_runtimeInFile hupload hdownload

/-- **The values of the node are read back.** -/
theorem loads_nodeValue (hloads : JsonText.Reads loads)
    (hkey : PlainJson.isText publicKey = true) (hid : PlainJson.isText shortId = true) :
    loads (jsonFile (nodeValue publicKey shortId)) =
      .ok (.dict (displayed (nodeInFile publicKey shortId))) := by
  rw [loads_jsonFile hloads, sorted_nodeValue, toJson_ofFields]
  · rw [sorted_nodeValue]
    exact proper_nodeInFile hkey hid
  · rw [sorted_nodeValue]
    exact small_nodeInFile

end Reading

/-! ### What is generated is accepted -/

section Accepting

variable {privateKey publicKey shortId : PyStr} {upload download : FallbackLimits}
  {obfsSecret apiSecret : Bytes} {fields : List (String × PlainJson)}

@[simp] theorem renderErrorIf_eq_ok {condition : Prop} [Decidable condition] {message : String}
    {u : Unit} : renderErrorIf condition message = .ok u ↔ ¬condition := by
  rw [renderErrorIf]
  split <;> simp [*]

theorem getField_displayed (fields : List (String × PlainJson)) (key : String) :
    getField (displayed fields) key =
      ((fields.find? fun f => f.1 = key).map fun f => f.2.toJson).getD .null := by
  rw [getField, field_displayed]

/-- A display has the fields that it shows. -/
theorem requireFields_displayed {required : List String} (label : String)
    (h : ∀ key, key ∈ fields.map Prod.fst ↔ key ∈ required) :
    requireFields (displayed fields) required label = .ok () := by
  have hpresent : ∀ k, k ∈ (displayed fields).map Prod.fst ↔ k ∈ required.map codePoints := by
    intro k
    rw [map_fst_displayed, List.mem_map, List.mem_map]
    exact exists_congr fun key => and_congr_left fun _ => h key
  rw [requireFields, renderErrorIf_eq_ok, not_or, not_not, not_not]
  exact ⟨fun k hk => (hpresent k).mpr hk, fun k hk => Or.inl ((hpresent k).mp hk)⟩

/-- **Limits in range are accepted.** -/
theorem renderLimits_inFile {l : FallbackLimits} (h : l.InRange) (label : String) :
    renderLimits l.inFile.toJson label = .ok l := by
  have hkeys : hasKeys ["after_bytes", "bytes_per_second", "burst_bytes_per_second"] (displayed
      [("after_bytes", .int l.afterBytes), ("burst_bytes_per_second", .int l.burstBytesPerSecond),
        ("bytes_per_second", .int l.bytesPerSecond)]) = true :=
    hasKeys_displayed (by simp; grind -ring -linarith)
  have hall : ((displayed [("after_bytes", .int l.afterBytes),
      ("burst_bytes_per_second", .int l.burstBytesPerSecond),
      ("bytes_per_second", .int l.bytesPerSecond)]).all fun field => field.2.isInteger) = true := rfl
  obtain ⟨ha, hr, hb⟩ := h
  rw [FallbackLimits.inFile, toJson_ofFields, renderLimits]
  simp [renderErrorIf, hkeys, hall, integerField, field_displayed, PlainJson.toJson, ha, hr, hb,
    bind, Except.bind, pure, Except.pure]

/-- The material as the renderer takes it. -/
theorem validatedValues_inFile
    (hprivate : matchesKey privateKey = true ∧ decodesTo32 privateKey = true)
    (hpublic : matchesKey publicKey = true ∧ decodesTo32 publicKey = true)
    (hid : matchesShortIdPattern shortId = true) (hupload : upload.InRange) (hdownload : download.InRange)
    (hne : download ≠ upload) (hobfs : obfsSecret.length = 32) (hapi : apiSecret.length = 32) :
    validatedValues (displayed (runtimeInFile privateKey shortId upload download obfsSecret apiSecret))
      (displayed (nodeInFile publicKey shortId)) =
      .ok (⟨privateKey, publicKey, shortId, upload, download⟩,
        ⟨codePoints "/certs/fullchain.pem", codePoints "/certs/privkey.pem", encodeSecret obfsSecret,
          encodeSecret apiSecret⟩) := by
  have hkeys : hasKeys ["xray", "hysteria"] (displayed (runtimeInFile privateKey shortId upload
      download obfsSecret apiSecret)) = true :=
    hasKeys_displayed (by simp [runtimeInFile]; grind -ring -linarith)
  have hxray : getField (displayed (runtimeInFile privateKey shortId upload download obfsSecret
      apiSecret)) "xray" = .dict (displayed (xrayInFile privateKey shortId upload download)) := by
    simp [getField_displayed, runtimeInFile, toJson_ofFields]
  have hhysteria : getField (displayed (runtimeInFile privateKey shortId upload download obfsSecret
      apiSecret)) "hysteria" = .dict (displayed (hysteriaInFile obfsSecret apiSecret)) := by
    simp [getField_displayed, runtimeInFile, toJson_ofFields]
  have hxrayKeys : requireFields (displayed (xrayInFile privateKey shortId upload download))
      ["private_key", "short_id", "fallback_upload", "fallback_download"] "Xray material" = .ok () :=
    requireFields_displayed _ (by simp [xrayInFile]; grind -ring -linarith)
  have hhysteriaKeys : hasKeys ["certificate_path", "private_key_path", "obfs_password",
      "stats_secret"] (displayed (hysteriaInFile obfsSecret apiSecret)) = true :=
    hasKeys_displayed (by simp [hysteriaInFile]; grind -ring -linarith)
  have hnodeKeys : requireFields (displayed (nodeInFile publicKey shortId))
      ["xray_public_key", "xray_short_id"] "node material" = .ok () :=
    requireFields_displayed _ (by simp [nodeInFile])
  have hlegacy : legacyAgrees (displayed (xrayInFile privateKey shortId upload download))
      (displayed (nodeInFile publicKey shortId)) = true := by
    simp [legacyAgrees, legacyFields, getField_displayed, xrayInFile, nodeInFile, Json.pyEq]
  have hxrayFields : getField (displayed (xrayInFile privateKey shortId upload download))
        "private_key" = .str privateKey ∧
      getField (displayed (xrayInFile privateKey shortId upload download)) "short_id" =
        .str shortId ∧
      getField (displayed (xrayInFile privateKey shortId upload download)) "fallback_upload" =
        upload.inFile.toJson ∧
      getField (displayed (xrayInFile privateKey shortId upload download)) "fallback_download" =
        download.inFile.toJson := by
    simp [getField_displayed, xrayInFile, PlainJson.toJson]
  have hnodeFields : getField (displayed (nodeInFile publicKey shortId)) "xray_public_key" =
        .str publicKey ∧
      getField (displayed (nodeInFile publicKey shortId)) "xray_short_id" = .str shortId := by
    simp [getField_displayed, nodeInFile, PlainJson.toJson]
  have hhysteriaFields : getField (displayed (hysteriaInFile obfsSecret apiSecret))
        "certificate_path" = .str (codePoints "/certs/fullchain.pem") ∧
      getField (displayed (hysteriaInFile obfsSecret apiSecret)) "private_key_path" =
        .str (codePoints "/certs/privkey.pem") ∧
      getField (displayed (hysteriaInFile obfsSecret apiSecret)) "obfs_password" =
        .str (encodeSecret obfsSecret) ∧
      getField (displayed (hysteriaInFile obfsSecret apiSecret)) "stats_secret" =
        .str (encodeSecret apiSecret) := by
    simp [getField_displayed, hysteriaInFile, PlainJson.toJson, PlainJson.ofString]
  have hsame : (upload = download) = False := eq_false fun h => hne h.symm
  simp [validatedValues, hkeys, hxray, hhysteria, hxrayKeys, hhysteriaKeys, hnodeKeys, hlegacy,
    renderErrorIf, renderString, renderKey, renderSecret, hxrayFields, hnodeFields, hhysteriaFields,
    hid, Json.pyEq, renderLimits_inFile hupload, renderLimits_inFile hdownload, hsame, hprivate,
    hpublic, decodesTo32_encodeSecret hobfs, decodesTo32_encodeSecret hapi, bind, Except.bind, pure,
    Except.pure]

/-- **The renderer is the stricter of the two checks**: what it accepts, the installer has not
refused. -/
theorem renderer_stricter {runtime node : List (PyStr × Json)} {values : XrayValues × HysteriaValues}
    (h : validatedValues runtime node = .ok values) :
    validateRuntimeMaterial (.dict runtime) (.dict node) = true := by
  have htext : ∀ {fields : List (PyStr × Json)} {name label : String} {text : PyStr},
      renderString (getField fields name) label = .ok text → field fields name = some (.str text) := by
    intro fields name label text htext
    rw [getField] at htext
    rcases hfield : field fields name with _ | value
    · rw [hfield] at htext
      cases htext
    · rw [hfield, Option.getD_some] at htext
      cases value <;> cases htext
      rfl
  have hkey : ∀ {fields : List (PyStr × Json)} {name label : String} {text : PyStr},
      renderKey (getField fields name) label = .ok text →
        field fields name = some (.str text) ∧ decodesTo32 text = true := by
    intro fields name label text hrender
    simp only [renderKey, Except.bind_eq_ok, renderErrorIf_eq_ok, Bool.not_eq_false] at hrender
    obtain ⟨text', hstring, -, -, -, hdecodes, hreturn⟩ := hrender
    obtain rfl := Except.ok.inj hreturn
    exact ⟨htext hstring, hdecodes⟩
  rw [validatedValues, Except.bind_eq_ok] at h
  obtain ⟨-, -, h⟩ := h
  split at h
  · rename_i xray hysteria hxray hhysteria
    simp only [Except.bind_eq_ok, renderErrorIf_eq_ok, Bool.not_eq_false] at h
    obtain ⟨-, -, -, -, -, -, -, hlegacy, shortId, hid, -, hshort, -, hnodeId, upload, -, download, -,
      -, -, privateKey, hprivate, publicKey, hpublic, -⟩ := h
    have hxrayField : field runtime "xray" = some (.dict xray) := by
      rw [getField] at hxray
      rcases hfield : field runtime "xray" with _ | value
      · rw [hfield] at hxray
        cases hxray
      · rw [hfield, Option.getD_some] at hxray
        rw [hxray]
    obtain ⟨hprivateField, hprivateDecodes⟩ := hkey hprivate
    obtain ⟨hpublicField, hpublicDecodes⟩ := hkey hpublic
    have hnodeField : ∃ value, field node "xray_short_id" = some value ∧
        value.pyEq (.str shortId) = true := by
      rw [getField] at hnodeId
      rcases hfield : field node "xray_short_id" with _ | value
      · rw [hfield] at hnodeId
        cases hnodeId
      · exact ⟨value, rfl, by rwa [hfield] at hnodeId⟩
    obtain ⟨value, hvalue, heq⟩ := hnodeField
    simp [validateRuntimeMaterial, Json.dict?, Json.text?, hxrayField, hprivateField, hpublicField,
      hprivateDecodes, hpublicDecodes, hlegacy, htext hid, hshort, hvalue, heq, guard]
  · cases h

end Accepting

/-- A reader of nothing but plain JSON. -/
def plainLoads : Loads := fun bytes =>
  match (decodeUtf8 bytes).bind fun s => JsonText.readText s.toList with
  | some v => .ok v.toJson
  | none => .error .malformed

theorem reads_plainLoads : JsonText.Reads plainLoads := by
  intro text v htext _
  simp [plainLoads, decodeUtf8_utf8Bytes, htext]

/-- What Xray prints, for keys of one letter. -/
def sampleKeyOutput : Bytes :=
  asciiBytes ("PrivateKey: " ++ String.ofList (List.replicate 43 'A') ++
    "\nPassword (PublicKey): " ++ String.ofList (List.replicate 43 'B') ++ "\nHash32: C\n")

/-- Draws whose second limits are the ones of the upload, so that the third ones are taken. -/
def sampleMaterialDraw : MaterialDraw where
  upload := ⟨0, 0, 0⟩
  downloads := [⟨29, 0, 0⟩, ⟨1, 1, 1⟩]
  shortId := List.replicate 8 0xab
  shortId_length := List.length_replicate

end EzOpenPN
