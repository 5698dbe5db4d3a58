import EzOpenPN.Installer.SanitizeLogs
import EzOpenPN.Lib.Calendar
import EzOpenPN.Lib.IpAddress

/-!
# The evidence of a release

Before a release is published, trials on two kinds of networks and with three clients are
written down in three JSON documents, and the documents are published with it.
`EzOpenPN.validateReleaseEvidence` is what accepts them: every document is first searched for
private texts (`EzOpenPN.sanitized`) and then checked field by field against a fixed schema.

A check returns nothing or a rejection with a code. A number too large for a floating-point
number ends a check with an exception instead (`EzOpenPN.Rejection.overflow`).

## Characters

Three tables of the interpreter matter to the patterns: the decimal digits (`\d`), the word
characters (`\b`) and the case foldings. They are data of `EzOpenPN.CharDatabase`, which is the
table of ASCII below 128 and any table above.
-/

namespace EzOpenPN

/-! ### The tables of the interpreter -/

/-- The word characters of ASCII. -/
def isAsciiWord (c : ℕ) : Bool :=
  (48 ≤ c && c ≤ 57) || (65 ≤ c && c ≤ 90) || c == 95 || (97 ≤ c && c ≤ 122)

/-- **The character database of the interpreter.** -/
structure CharDatabase where
  /-- The value of a decimal digit. -/
  decimal : ℕ → Option ℕ
  /-- `\w`. -/
  word : ℕ → Bool
  /-- `str.casefold`, character by character. -/
  casefold : ℕ → PyStr
  decimal_ascii : ∀ c < 128, decimal c = if 48 ≤ c ∧ c ≤ 57 then some (c - 48) else none
  word_ascii : ∀ c < 128, word c = isAsciiWord c

/-! ### Texts in a document -/

/-- **Inside**: a value is the other one or lies at some depth in it. -/
inductive Json.Within (x : Json) : Json → Prop
  | refl : Within x x
  | elem {values : List Json} {v : Json} : v ∈ values → Within x v → Within x (.list values)
  | value {fields : List (PyStr × Json)} {k : PyStr} {v : Json} :
    (k, v) ∈ fields → Within x v → Within x (.dict fields)

/-- A dictionary holds a key once. -/
def Json.Unique (v : Json) : Prop :=
  ∀ fields, Json.Within (.dict fields) v → (fields.map Prod.fst).Nodup

/-- **A value the interpreter can hold.** -/
def PyValue : Type := { v : Json // v.Unique }

/-! ### Patterns -/

/-- A pattern of one class of characters after the other, on a whole text. -/
def matchesClasses : List (ℕ → Bool) → PyStr → Bool
  | [], [] => true
  | f :: fs, c :: s => f c && matchesClasses fs s
  | _, _ => false

/-- One given character. -/
def exactly (c : ℕ) : ℕ → Bool := fun d => d == c

section Patterns

variable (u : CharDatabase)

/-- `\d`. -/
def CharDatabase.isDecimal (c : ℕ) : Bool := (u.decimal c).isSome

/-- The value of decimal digits, `int(…)`. -/
def CharDatabase.number (s : PyStr) : ℕ := s.foldl (fun n c => n * 10 + (u.decimal c).getD 0) 0

/-- `_UTC_PATTERN`. -/
def utcClasses : List (ℕ → Bool) :=
  let d := u.isDecimal
  [d, d, d, d, exactly 45, d, d, exactly 45, d, d, exactly 84, d, d, exactly 58, d, d, exactly 58,
    d, d, exactly 90]

/-- Two digits of a date in `strptime`: the first one of ASCII and below `limit`, or equal to it
and followed by a digit of ASCII up to `last`. -/
def twoDigits (limit last : ℕ) (s : PyStr) : Bool :=
  match s with
  | [a, b] => (48 ≤ a && a < limit && u.isDecimal b) || (a == limit && 48 ≤ b && b ≤ last)
  | _ => false

/-- `strptime` with the format `%Y-%m-%dT%H:%M:%SZ`, of a text of the form of `_UTC_PATTERN`:
the fields in their ranges, and the date one of the calendar. -/
def strptime (s : PyStr) : Bool :=
  let year := s.take 4
  let month := (s.drop 5).take 2
  let day := (s.drop 8).take 2
  let hour := (s.drop 11).take 2
  let minute := (s.drop 14).take 2
  let second := (s.drop 17).take 2
  -- `1[0-2]|0[1-9]`
  month.all IpAddress.isDigit && 1 ≤ u.number month && u.number month ≤ 12 &&
    -- `3[0-1]|[1-2]\d|0[1-9]`
    twoDigits u 51 49 day && (day.head? != some 48 || day.all IpAddress.isDigit) &&
    -- `2[0-3]|[0-1]\d`, `[0-5]\d`, and a second that `datetime` has
    twoDigits u 50 51 hour && twoDigits u 54 47 minute && twoDigits u 54 47 second &&
    1 ≤ u.number year && 1 ≤ u.number day &&
    u.number day ≤ Calendar.daysIn (u.number year) (u.number month)

/-- `_timestamp`. -/
def timestamp (v : Json) : Bool :=
  match v with
  | .str s => matchesClasses (utcClasses u) s && strptime u s
  | _ => false

/-- `_VERSION_PATTERN`: `v` and three numbers between dots. -/
def matchesVersion (s : PyStr) : Bool :=
  match s with
  | c :: rest => c = 118 && (rest.splitOn 46).length = 3 &&
      (rest.splitOn 46).all fun part => part ≠ [] && part.all u.isDecimal
  | [] => false

end Patterns

/-- `_SHA256_PATTERN`. -/
def matchesSha256 (s : PyStr) : Bool :=
  matchesClasses (List.replicate 64 fun c => (48 ≤ c && c ≤ 57) || (97 ≤ c && c ≤ 102)) s

/-- `_REGION_PATTERN`. -/
def matchesRegion (s : PyStr) : Bool :=
  matchesClasses (List.replicate 2 fun c => 65 ≤ c && c ≤ 90) s

/-- A letter or a digit of ASCII. -/
def isAlphanumeric (c : ℕ) : Bool :=
  (48 ≤ c && c ≤ 57) || (65 ≤ c && c ≤ 90) || (97 ≤ c && c ≤ 122)

/-- `_CLIENT_VERSION_PATTERN`. -/
def matchesClientVersion (s : PyStr) : Bool :=
  match s with
  | c :: rest => isAlphanumeric c && rest.length ≤ 63 &&
      rest.all fun d => isAlphanumeric d || d ∈ codePoints "._+() -"
  | [] => false

/-- `str.strip`, of the characters of a kind. -/
def stripChars (kind : ℕ → Bool) (s : PyStr) : PyStr :=
  ((s.dropWhile kind).reverse.dropWhile kind).reverse

/-- `_short_text`. -/
def shortText (v : Json) : Bool :=
  match v with
  | .str s => s = stripChars isSpace s && 1 ≤ s.length && s.length ≤ 64 && s.all fun c => 32 ≤ c
  | _ => false

/-! ### The search for private texts -/

/-- `_contains_raw_address`. -/
def containsRawAddress (s : PyStr) : Bool :=
  IpAddress.isAddress (stripChars (fun c => c == 91 || c == 93) (stripChars isSpace s))

/-- The characters of a UUID, with a choice of the version and of the variant digit. -/
def uuidClasses (version variant : ℕ → Bool) : List (ℕ → Bool) :=
  let hex := IpAddress.isHexDigit
  List.replicate 8 hex ++ exactly 45 :: List.replicate 4 hex ++ exactly 45 :: version ::
    List.replicate 3 hex ++ exactly 45 :: variant :: List.replicate 3 hex ++ exactly 45 ::
    List.replicate 12 hex

/-- `[1-5]`. -/
def isPatternVersion (c : ℕ) : Bool := 49 ≤ c && c ≤ 53

/-- `[89ab]`, in either case. -/
def isPatternVariant (c : ℕ) : Bool := c == 56 || c == 57 || c == 65 || c == 66 || c == 97 || c == 98

/-- The ways to cut a text in two. -/
def cuts (s : PyStr) : List (PyStr × PyStr) :=
  (List.range (s.length + 1)).map fun i => (s.take i, s.drop i)

/-- `https?://`, `vless://` and `hysteria2://`. -/
def evidenceLinkHeads : List PyStr :=
  [codePoints "http://", codePoints "https://", codePoints "vless://", codePoints "hysteria2://"]

/-- `_FORBIDDEN_KEYS`. -/
def forbiddenKeys : List PyStr :=
  ["source_ip", "client_ip", "server_ip", "server_address", "profile_id", "uuid", "token",
    "connection_link", "full_link", "url", "ssid", "provider_account", "browsing_destination",
    "destination_host", "destination_url"].map codePoints

section Search

variable (u : CharDatabase)

/-- `\b` between two texts. -/
def wordBoundary (before after : PyStr) : Bool :=
  (before.getLast?.any u.word) != (after.head?.any u.word)

/-- `_UUID_PATTERN.search`. -/
def searchUuid (s : PyStr) : Bool :=
  (cuts s).any fun cut => wordBoundary u cut.1 cut.2 &&
    matchesClasses (uuidClasses isPatternVersion isPatternVariant) (cut.2.take 36) &&
    wordBoundary u (cut.1 ++ cut.2.take 36) (cut.2.drop 36)

/-- `_LINK_PATTERN.search`. -/
def searchLink (s : PyStr) : Bool :=
  (cuts s).any fun cut => wordBoundary u cut.1 cut.2 &&
    evidenceLinkHeads.any fun head => (cut.2.take head.length).map foldCase = head

/-- `key.strip().casefold().replace("-", "_")`. -/
def normalizedKey (key : PyStr) : PyStr :=
  ((stripChars isSpace key).flatMap u.casefold).map fun c => if c = 45 then 95 else c

/-- `_sanitized`, of a text. -/
def sanitizedText (s : PyStr) : Bool :=
  !(containsRawAddress s || searchUuid u s || searchLink u s ||
    decide (codePoints "BEGIN PRIVATE KEY" <:+: s))

mutual

/-- `_sanitized`. -/
def sanitized : Json → Bool
  | .dict fields => sanitizedFields fields
  | .list values => sanitizedValues values
  | .str s => sanitizedText u s
  | .null => true
  | .bool _ => true
  | .int _ => true
  | .float _ => true

/-- The values of a list. -/
def sanitizedValues : List Json → Bool
  | [] => true
  | v :: values => sanitized v && sanitizedValues values

/-- The fields of a dictionary. -/
def sanitizedFields : List (PyStr × Json) → Bool
  | [] => true
  | kv :: fields => sanitizedField kv && sanitizedFields fields

/-- A key and its value. -/
def sanitizedField : PyStr × Json → Bool
  | (key, v) => decide (normalizedKey u key ∉ forbiddenKeys) && sanitized v

end

end Search

/-! ### The schema -/

/-- **What a check is left with** when it does not accept. -/
inductive Rejection where
  /-- `ValidationResult(ok=False, code=…)`. -/
  | failure (code : String)
  /-- `OverflowError`: an integer beyond the floating-point numbers. -/
  | overflow
  deriving DecidableEq

/-- A check of the evidence. -/
abbrev Check := Except Rejection Unit

/-- `if not …: return _failure(code)`. -/
def require (condition : Bool) (code : String) : Check :=
  if condition then .ok () else .error (.failure code)

/-- A loop of checks; the first one that does not accept ends it. -/
def checkEach {α : Type} : List α → (α → Check) → Check
  | [], _ => .ok ()
  | x :: xs, f => f x >>= fun _ => checkEach xs f

/-- `_exact_object`: the fields of a dictionary with these keys. -/
def exactObject (v : Json) (keys : List String) (code : String) :
    Except Rejection (List (PyStr × Json)) :=
  match v with
  | .dict fields => if hasKeys keys fields then .ok fields else .error (.failure code)
  | _ => .error (.failure code)

/-- `value[key]`, of a key that is there. -/
def fieldOf (fields : List (PyStr × Json)) (key : String) : Json := (field fields key).getD .null

/-- `value is True`. -/
def isTrue : Json → Bool
  | .bool b => b
  | _ => false

/-- `value is False`. -/
def isFalse : Json → Bool
  | .bool b => !b
  | _ => false

/-- `value == text`. -/
def equalsText (text : String) : Json → Bool
  | .str s => s = codePoints text
  | _ => false

/-- `value == n` for a value that is no boolean. -/
def isNumber (n : ℕ) : Json → Bool
  | .int m => m = n
  | .float (some q) => q = n
  | _ => false

/-- The text of a value that satisfies a pattern. -/
def isMatch (pattern : PyStr → Bool) : Json → Bool
  | .str s => pattern s
  | _ => false

/-- `_number` with the value of `float`, which bounds are compared with; a rounded integer is on
the same side of a small one. -/
def number : Json → Except Rejection (Option ℚ)
  | .int n => if n.natAbs < 2 ^ 1024 - 2 ^ 970 then .ok (some n) else .error .overflow
  | .float q => .ok q
  | _ => .ok none

/-- `not _number(value) or …: return _failure(code)`. -/
def requireNumber (v : Json) (bound : ℚ → Bool) (code : String) : Check := do
  require ((← number v).any bound) code

/-- `VLESS_TRANSPORT` and `HYSTERIA_TRANSPORT`. -/
def transports : List String := ["vless-reality-xhttp", "hysteria2-salamander"]

/-- `_MINIMUM_BYTES`. -/
def minimumBytes : ℤ := 100 * 1024 * 1024

/-- The keys of a trial. -/
def trialKeys : List String :=
  ["trial", "handshake", "external_server_verified", "bytes_transferred", "duration_seconds",
    "median_mbps", "max_stall_seconds", "passed"]

/-- `_validate_trial`. -/
def validateTrial (expectedNumber : ℕ) (trial : Json) : Check := do
  let fields ← exactObject trial trialKeys "schema_invalid"
  require (isNumber expectedNumber (fieldOf fields "trial")) "trial_matrix_incomplete"
  require (isTrue (fieldOf fields "handshake")) "handshake_missing"
  require (isTrue (fieldOf fields "external_server_verified")) "external_server_unverified"
  require
    (match fieldOf fields "bytes_transferred" with
      | .int n => minimumBytes ≤ n
      | _ => false)
    "throughput_missing"
  requireNumber (fieldOf fields "duration_seconds") (0 < ·) "throughput_missing"
  requireNumber (fieldOf fields "median_mbps") (2 ≤ ·) "throughput_missing"
  requireNumber (fieldOf fields "max_stall_seconds") (fun q => 0 ≤ q && q ≤ 10)
    "stall_limit_exceeded"
  require (isTrue (fieldOf fields "passed")) "trial_failed"

/-- The keys of the revocation of a transport. -/
def transportRevocationKeys : List String :=
  ["fourth_transfer_started", "transfer_terminated", "termination_seconds", "reconnect_attempted",
    "reconnect_succeeded", "reconnect_observation_seconds", "passed"]

/-- `_validate_transport_revocation`. -/
def validateTransportRevocation (value : Json) : Check := do
  let fields ← exactObject value transportRevocationKeys "schema_invalid"
  require (isTrue (fieldOf fields "fourth_transfer_started") &&
    isTrue (fieldOf fields "transfer_terminated")) "active_revocation_missing"
  requireNumber (fieldOf fields "termination_seconds") (fun q => 0 < q && q ≤ 10)
    "revocation_too_slow"
  require (isTrue (fieldOf fields "reconnect_attempted")) "revocation_reconnect_untested"
  require (isFalse (fieldOf fields "reconnect_succeeded")) "revocation_reconnect_succeeded"
  requireNumber (fieldOf fields "reconnect_observation_seconds") (fun q => 10 ≤ q && q ≤ 60)
    "revocation_observation_incomplete"
  require (isTrue (fieldOf fields "passed")) "active_revocation_failed"

/-- The keys of the continuity of the other profile. -/
def continuityKeys : List String := ["reconnected", "reconnect_seconds", "passed"]

/-- `_validate_revocation`. -/
def validateRevocation (value : Json) : Check := do
  let fields ← exactObject value ["transports", "other_active_vless_profile"] "schema_invalid"
  let byTransport ← exactObject (fieldOf fields "transports") transports
    "revocation_matrix_incomplete"
  checkEach transports fun transport =>
    validateTransportRevocation (fieldOf byTransport transport)
  let continuity ← exactObject (fieldOf fields "other_active_vless_profile") continuityKeys
    "schema_invalid"
  require (isTrue (fieldOf continuity "reconnected")) "continuity_failed"
  requireNumber (fieldOf continuity "reconnect_seconds") (fun q => 0 < q && q ≤ 10)
    "continuity_failed"
  require (isTrue (fieldOf continuity "passed")) "continuity_failed"

section Validators

variable (u : CharDatabase)

/-- The fields that both kinds of documents begin with. -/
def validateHeader (kind : String) (fields : List (PyStr × Json)) : Check :=
  require (equalsText kind (fieldOf fields "evidence_kind") &&
    isNumber 2 (fieldOf fields "schema_version") &&
    timestamp u (fieldOf fields "recorded_at") &&
    isMatch (matchesVersion u) (fieldOf fields "application_version") &&
    isMatch matchesSha256 (fieldOf fields "bundle_sha256") &&
    isMatch matchesRegion (fieldOf fields "usage_region")) "schema_invalid"

/-- The trials of one transport: three of them, in their order. -/
def validateTrials (v : Json) : Check :=
  match v with
  | .list trials => do
    require (trials.length = 3) "trial_matrix_incomplete"
    checkEach trials.zipIdx fun trial => validateTrial (trial.2 + 1) trial.1
  | _ => .error (.failure "trial_matrix_incomplete")

/-- The keys of a network result. -/
def networkKeys : List String :=
  ["evidence_kind", "schema_version", "recorded_at", "application_version", "bundle_sha256",
    "usage_region", "network_type", "client", "external_server_verified", "trials", "revocation",
    "passed"]

/-- `validate_network_result`. -/
def validateNetworkResult (value : Json) : Check := do
  require (sanitized u value) "evidence_not_sanitized"
  let fields ← exactObject value networkKeys "schema_invalid"
  validateHeader u "network" fields
  require (equalsText "fixed" (fieldOf fields "network_type") ||
    equalsText "mobile" (fieldOf fields "network_type")) "schema_invalid"
  let client ← exactObject (fieldOf fields "client") ["name", "version"] "schema_invalid"
  require (shortText (fieldOf client "name") &&
    isMatch matchesClientVersion (fieldOf client "version")) "schema_invalid"
  require (isTrue (fieldOf fields "external_server_verified")) "external_server_unverified"
  let trials ← exactObject (fieldOf fields "trials") transports "trial_matrix_incomplete"
  checkEach transports fun transport => validateTrials (fieldOf trials transport)
  validateRevocation (fieldOf fields "revocation")
  require (isTrue (fieldOf fields "passed")) "network_result_failed"

/-- The keys of a transport of a client. -/
def clientTransportKeys : List String :=
  ["connected", "external_server_verified", "data_transferred"]

/-- `_validate_client_transport`. -/
def validateClientTransport (value : Json) : Check := do
  let fields ← exactObject value clientTransportKeys "schema_invalid"
  require (clientTransportKeys.all fun key => isTrue (fieldOf fields key))
    "client_transport_failed"

/-- `REQUIRED_CLIENTS`. -/
def requiredClients : List (PyStr × PyStr) :=
  [("Hiddify Next", "Android"), ("Happ", "iOS"), ("v2rayN", "Windows")].map fun pair =>
    (codePoints pair.1, codePoints pair.2)

/-- The application and the platform of an item, if both are texts. -/
def clientIdentity (item : Json) : Except Rejection (PyStr × PyStr) :=
  match item with
  | .dict fields =>
    match fieldOf fields "application", fieldOf fields "platform" with
    | .str application, .str platform => .ok (application, platform)
    | _, _ => .error (.failure "schema_invalid")
  | _ => .error (.failure "schema_invalid")

/-- The identities of the items, in their order. -/
def clientIdentities : List Json → Except Rejection (List (PyStr × PyStr))
  | [] => .ok []
  | item :: items => do
    let identity ← clientIdentity item
    let rest ← clientIdentities items
    return identity :: rest

/-- The keys of an item of the client evidence. -/
def clientKeys : List String :=
  ["application", "platform", "version", "release_channel", "stable_release_verified_at",
    "combined_link_imported", "transports", "revocation_observed", "passed"]

/-- The second loop of `validate_client_result`. -/
def validateClientItem (item : Json) : Check := do
  let fields ← exactObject item clientKeys "schema_invalid"
  require (isMatch matchesClientVersion (fieldOf fields "version")) "schema_invalid"
  require (equalsText "stable" (fieldOf fields "release_channel") &&
    timestamp u (fieldOf fields "stable_release_verified_at")) "stable_client_unverified"
  require (isTrue (fieldOf fields "combined_link_imported")) "combined_import_failed"
  let byTransport ← exactObject (fieldOf fields "transports") transports "client_transport_failed"
  checkEach transports fun transport => validateClientTransport (fieldOf byTransport transport)
  require (isTrue (fieldOf fields "revocation_observed") && isTrue (fieldOf fields "passed"))
    "client_revocation_failed"

/-- The keys of the client evidence. -/
def clientResultKeys : List String :=
  ["evidence_kind", "schema_version", "recorded_at", "application_version", "bundle_sha256",
    "usage_region", "clients", "passed"]

/-- `value["clients"]`, which has to be a list. -/
def clientItems (v : Json) : Except Rejection (List Json) :=
  match v with
  | .list items => .ok items
  | _ => .error (.failure "schema_invalid")

/-- `validate_client_result`. -/
def validateClientResult (value : Json) : Check := do
  require (sanitized u value) "evidence_not_sanitized"
  let fields ← exactObject value clientResultKeys "schema_invalid"
  validateHeader u "clients" fields
  let items ← clientItems (fieldOf fields "clients")
  let identities ← clientIdentities items
  require (items.length = requiredClients.length &&
    identities.all (fun identity => identity ∈ requiredClients) &&
    requiredClients.all fun identity => identity ∈ identities) "client_matrix_incomplete"
  checkEach items (validateClientItem u)
  require (isTrue (fieldOf fields "passed")) "client_result_failed"

/-- `value.get(key)`, of a field that was found to be a text. -/
def textOf (key : String) (v : Json) : Option PyStr :=
  match jsonField key v with
  | some (.str s) => some s
  | _ => none

/-- The number of values of a set. -/
def distinct (values : List (Option PyStr)) : ℕ := values.dedup.length

/-- `validate_release_evidence`. -/
def validateReleaseEvidence (networks : List Json) (clients : Json)
    (expectedVersion expectedBundleSha256 : Option PyStr) : Check := do
  checkEach networks (validateNetworkResult u)
  let networkTypes := networks.map (textOf "network_type")
  require (networkTypes.length = 2 && some (codePoints "fixed") ∈ networkTypes &&
    some (codePoints "mobile") ∈ networkTypes) "network_matrix_incomplete"
  validateClientResult u clients
  let versions := (networks ++ [clients]).map (textOf "application_version")
  let regions := (networks ++ [clients]).map (textOf "usage_region")
  let bundles := (networks ++ [clients]).map (textOf "bundle_sha256")
  require (distinct versions = 1 && distinct regions = 1 && distinct bundles = 1)
    "evidence_scope_mismatch"
  require ((expectedVersion = none || versions.all (· = expectedVersion)) &&
    (expectedBundleSha256 = none || bundles.all (· = expectedBundleSha256)))
    "evidence_candidate_mismatch"

end Validators

end EzOpenPN
