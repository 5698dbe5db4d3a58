import EzOpenPN.Json

/-!
# Backup archives

`backup_archive.py` writes an installation into one archive and reads it back. The writer,
`EzOpenPN.createArchive`, copies a fixed list of files and two directory trees into a staging
directory, checks its limits, describes every file in a manifest and packs the whole; a checksum of
the archive stands beside it. The reader, `EzOpenPN.validateAndExtract`, trusts nothing: it checks
the checksum, every member, the manifest and every file against its own limits before it answers.
What it answers with are the files it has written itself, without those that the database engine may
leave beside the database.

Outside of the repository are the tools both are built on (`EzOpenPN.BackupTools`): the hash, the
packing and unpacking of an archive, the JSON reader and the database engine. The file system is
what the two functions see of it, and it is quiescent: a file read twice is the same file.
-/

namespace EzOpenPN

/-! ### Limits and sources -/

/-- `MAX_FILE_SIZE`. -/
def maxFileSize : ℕ := 2 * 1024 * 1024 * 1024

/-- `MAX_TOTAL_SIZE`. -/
def maxTotalSize : ℕ := 4 * 1024 * 1024 * 1024

/-- `MAX_MEMBERS`. -/
def maxMembers : ℕ := 10000

/-- `MAX_MANIFEST_SIZE`. -/
def maxManifestSize : ℕ := 1024 * 1024

/-- `SUPPORTED_SCHEMA_VERSIONS`. -/
def supportedSchemaVersions : List String := ["0001_initial"]

/-- `FIXED_SOURCES`: the name in the archive and the file below the root; the database is the
snapshot and not the file of the installation. -/
def fixedSources : List (String × Option String) :=
  [("database/ezopenpn.sqlite3", none),
    ("configuration/control.toml", some "etc/ezopenpn/control.toml"),
    ("configuration/Caddyfile", some "etc/ezopenpn/Caddyfile"),
    ("configuration/compose.yaml", some "etc/ezopenpn/compose.yaml"),
    ("configuration/stack.env", some "etc/ezopenpn/stack.env"),
    ("state/install.json", some "var/lib/ezopenpn/install.json"),
    ("secrets/master.key", some "var/lib/ezopenpn/secrets/master.key"),
    ("secrets/hysteria-api.key", some "var/lib/ezopenpn/secrets/hysteria-api.key"),
    ("secrets/hysteria-obfs.key", some "var/lib/ezopenpn/secrets/hysteria-obfs.key"),
    ("runtime/xray/config.json", some "var/lib/ezopenpn/runtime/xray/config.json"),
    ("runtime/hysteria/config.yaml", some "var/lib/ezopenpn/runtime/hysteria/config.yaml")]

/-- `TREE_SOURCES`. -/
def treeSources : List (String × String) :=
  [("runtime/material", "var/lib/ezopenpn/runtime/material"), ("caddy", "var/lib/ezopenpn/caddy")]

/-! ### Exceptions -/

/-- What a function of the module raises. -/
inductive BackupError where
  /-- `ArchiveError`, with the name its message ends in, if it does. -/
  | archiveError (message : String) (name : PyStr)
  /-- An `OSError`. -/
  | osError
  /-- Any other exception. -/
  | other
  deriving DecidableEq

/-- An `ArchiveError` whose message names nothing. -/
def refuse {α : Type} (message : String) : Except BackupError α := .error (.archiveError message [])

/-- Raise if a condition is met. -/
def raiseIf (condition : Prop) [Decidable condition] (e : BackupError) : Except BackupError Unit :=
  if condition then .error e else .ok ()

/-- `if condition: raise ArchiveError(message)`. -/
def refuseIf (condition : Prop) [Decidable condition] (message : String) :
    Except BackupError Unit :=
  raiseIf condition (.archiveError message [])

@[simp] theorem raiseIf_eq_ok {condition : Prop} [Decidable condition] {e : BackupError} {u : Unit} :
    raiseIf condition e = .ok u ↔ ¬condition := by
  rw [raiseIf]
  split <;> simp [*]

@[simp] theorem refuseIf_eq_ok {condition : Prop} [Decidable condition] {message : String}
    {u : Unit} : refuseIf condition message = .ok u ↔ ¬condition := raiseIf_eq_ok

@[simp] theorem refuse_ne_ok {α : Type} {message : String} {a : α} :
    (refuse message : Except BackupError α) = .ok a ↔ False := by
  simp [refuse]

/-! ### Paths -/

/-- The code point of `/`. -/
def slash : ℕ := 47

/-- `PurePosixPath(name).parts` of a relative path. -/
def posixParts (name : PyStr) : List PyStr :=
  (name.splitOn slash).filter fun part => part ≠ [] ∧ part ≠ codePoints "."

/-- `PurePosixPath(name).as_posix()` of a relative path. -/
def asPosix (name : PyStr) : PyStr := [slash].intercalate (posixParts name)

/-- **A path below a directory**, as `os.walk` and `relative_to` make it: its parts are names. -/
def IsRelative (path : PyStr) : Prop :=
  ∀ part ∈ path.splitOn slash, part ≠ [] ∧ part ≠ codePoints "." ∧ part ≠ codePoints ".."

/-- The bytes of a code point in the name of a file: UTF-8, and for a lone surrogate the byte it
stands for. -/
def fsEncodeChar (c : ℕ) : Bytes :=
  if c.isValidChar then String.utf8EncodeChar (Char.ofNat c)
  else if 0xdc80 ≤ c ∧ c ≤ 0xdcff then [UInt8.ofNat (c - 0xdc00)]
  else []

/-- `os.fsencode`, of a text that has bytes. -/
def fsEncode (s : PyStr) : Bytes := s.flatMap fsEncodeChar

/-- **A path that the system can be asked for**: it has no null character and no surrogate that
stands for no byte. -/
def Encodable (path : PyStr) : Prop :=
  ∀ c ∈ path, c ≠ 0 ∧ (c.isValidChar ∨ 0xdc80 ≤ c ∧ c ≤ 0xdcff)

instance (path : PyStr) : Decidable (Encodable path) :=
  inferInstanceAs (Decidable (∀ c ∈ path, c ≠ 0 ∧ (c.isValidChar ∨ 0xdc80 ≤ c ∧ c ≤ 0xdcff)))

/-- **The path that the system is asked for**, by the bytes of its names. Several texts are the same
path: `a//b`, `./a/b` and `a/b`, and a name with its bytes spelled as surrogates. -/
def realPath (path : PyStr) : List Bytes := (posixParts path).map fsEncode

/-- One path can be a file only if the other is not a directory above it, and they are not the
same. -/
def Clear (p q : PyStr) : Prop := ¬realPath p <+: realPath q ∧ ¬realPath q <+: realPath p

instance (p q : PyStr) : Decidable (Clear p q) :=
  inferInstanceAs (Decidable (¬realPath p <+: realPath q ∧ ¬realPath q <+: realPath p))

/-! ### The file system -/

/-- What stands at a path. -/
inductive SourceNode where
  | missing
  | file (content : Bytes)
  /-- A link, a directory or a device. -/
  | other

/-- What `os.walk` finds below a directory. -/
inductive TreeNode where
  | directory
  | file (content : Bytes)
  /-- A link or a device. -/
  | other

/-- One entry below a directory, with its path. -/
structure TreeEntry where
  relative : PyStr
  node : TreeNode
  relative_valid : IsRelative relative

/-- **What the writer sees of an installation**: the file at each path, and for each directory
what is below it, in the order of `os.walk`; nothing, where there is no directory. -/
structure Root where
  file : String → SourceNode
  tree : String → Option (List TreeEntry)

/-- The status of a directory that is written to. -/
structure DirectoryStatus where
  /-- It is a directory, and not a link to one. -/
  directory : Bool
  uid : ℕ
  mode : ℕ
  /-- The names in it. -/
  entries : List PyStr

/-- A regular file with its owner and its mode. -/
structure StoredFile where
  name : PyStr
  content : Bytes
  uid : ℕ
  mode : ℕ

/-- Files that were written below a directory, by their paths. -/
abbrev Payload := List (PyStr × Bytes)

/-! ### The tools -/

/-- A value of a database row. -/
inductive SqlValue where
  | text (s : PyStr)
  | other
  deriving DecidableEq

/-- What the database engine answers. -/
structure DatabaseReport where
  /-- `PRAGMA quick_check`. -/
  quick : List (List SqlValue)
  /-- `PRAGMA foreign_key_check`, the first row. -/
  foreign : Option (List SqlValue)
  /-- `SELECT version_num FROM alembic_version`. -/
  schemaRows : List (List SqlValue)

/-- A member of an archive, as the reader sees it. -/
structure ArchiveMember where
  name : PyStr
  isFile : Bool
  size : ℤ
  content : Bytes

/-- **What both sides are built on.** -/
structure BackupTools where
  /-- `hashlib.sha256(value).hexdigest()`. -/
  sha256 : Bytes → PyStr
  /-- The compressed archive of some files. -/
  pack : Payload → Bytes
  /-- The members of a compressed archive, or nothing if it is none. -/
  unpack : Bytes → Option (List ArchiveMember)
  /-- `json.loads` of bytes. -/
  loads : Loads
  /-- `json.loads(path.read_text(encoding="utf-8"))`. -/
  loadsText : Loads
  /-- The report on a database file, or nothing on `sqlite3.DatabaseError`. -/
  sqlite : Bytes → Option DatabaseReport

variable (tools : BackupTools)

/-! ### Files -/

/-- `_regular_status`, with the content the status is about. -/
def regularStatus (name : PyStr) : SourceNode → Except BackupError Bytes
  | .missing => .error .osError
  | .other => .error (.archiveError "regular file required" name)
  | .file content =>
    if maxFileSize < content.length then .error (.archiveError "file exceeds size limit" name)
    else .ok content

/-- Create a file exclusively below a directory, with the directories above it. -/
def createExclusive (payload : Payload) (path : PyStr) (content : Bytes) :
    Except BackupError Payload :=
  if ¬Encodable path then .error .other
  else if ∀ entry ∈ payload, Clear entry.1 path then .ok (payload ++ [(path, content)])
  else .error .osError

/-- `_safe_copy`. -/
def safeCopy (payload : Payload) (name : PyStr) (source : SourceNode) (destination : PyStr) :
    Except BackupError Payload := do
  let content ← regularStatus name source
  createExclusive payload destination content

/-- The last part of a path. -/
def baseName (path : PyStr) : PyStr := (path.reverse.takeWhile (· ≠ slash)).reverse

/-- The loop of `_tree_files`. -/
def treeFilesFrom : List TreeEntry → Except BackupError Payload
  | [] => .ok []
  | entry :: rest =>
    match entry.node with
    | .directory => treeFilesFrom rest
    | .other => .error (.archiveError "unsafe directory member" (baseName entry.relative))
    | .file content => do
      let content ← regularStatus (baseName entry.relative) (.file content)
      let files ← treeFilesFrom rest
      return (entry.relative, content) :: files

/-- `_tree_files`: the regular files of a directory. -/
def treeFiles (name : PyStr) : Option (List TreeEntry) → Except BackupError Payload
  | none => .error (.archiveError "directory required" name)
  | some entries => treeFilesFrom entries

/-! ### Reading what was staged -/

/-- `_database_metadata` of a file. -/
def databaseMetadata (content : Bytes) : Except BackupError (PyStr × PyStr) :=
  match tools.sqlite content with
  | none => refuse "database is unreadable"
  | some report =>
    if report.quick ≠ [[.text (codePoints "ok")]] ∨ report.foreign.isSome then
      refuse "database integrity check failed"
    else
      match report.schemaRows with
      | [[.text schema]] =>
        if schema ∈ supportedSchemaVersions.map codePoints then .ok (codePoints "ok", schema)
        else refuse "database schema is unsupported"
      | _ => refuse "database schema marker is invalid"

/-- `_load_install_state` of a file. -/
def loadInstallState (content : Bytes) : Except BackupError (PyStr × PyStr) :=
  match tools.loadsText content with
  | .error .malformed => refuse "installation state is invalid"
  | .error .other => .error .other
  | .ok (.dict fields) =>
    match field fields "version", field fields "public_ipv4" with
    | some (.str version), address =>
      if ¬codePoints "v" <+: version then refuse "installation version is invalid"
      else
        match address with
        | some (.str publicIpv4) =>
          if publicIpv4 = [] then refuse "installation address is invalid"
          else .ok (version, publicIpv4)
        | _ => refuse "installation address is invalid"
    | _, _ => refuse "installation version is invalid"
  | .ok _ => refuse "installation state is invalid"

/-! ### The manifest -/

/-- A record of the manifest. -/
structure FileRecord where
  path : PyStr
  sha256 : PyStr
  size : ℕ

/-- **What the writer puts into the manifest.** -/
structure Manifest where
  createdAt : PyStr
  files : List FileRecord
  publicIpv4 : PyStr
  quickCheck : PyStr
  schemaVersion : PyStr
  version : PyStr

/-- The JSON value of a record. -/
def FileRecord.toJson (r : FileRecord) : Json :=
  .dict [(codePoints "path", .str r.path), (codePoints "sha256", .str r.sha256),
    (codePoints "size", .int r.size)]

/-- The fields of the manifest. -/
def Manifest.fields (m : Manifest) : List (PyStr × Json) :=
  [(codePoints "application", .str (codePoints "EzOpenPN")),
    (codePoints "created_at", .str m.createdAt),
    (codePoints "files", .list (m.files.map FileRecord.toJson)),
    (codePoints "format", .int 1),
    (codePoints "public_ipv4", .str m.publicIpv4),
    (codePoints "quick_check", .str m.quickCheck),
    (codePoints "schema_version", .str m.schemaVersion),
    (codePoints "version", .str m.version)]

/-- The JSON value of the manifest. -/
def Manifest.toJson (m : Manifest) : Json := .dict m.fields

/-- The text of a record, with its keys in order and without spaces. -/
def FileRecord.text (r : FileRecord) : List Char :=
  "\x7b\"path\":".toList ++ dumpsStr r.path ++ ",\"sha256\":".toList ++ dumpsStr r.sha256 ++
    ",\"size\":".toList ++ Nat.toDigits 10 r.size ++ ['}']

/-- The text of the manifest, with its keys in order and without spaces. -/
def Manifest.text (m : Manifest) : List Char :=
  "\x7b\"application\":\"EzOpenPN\",\"created_at\":".toList ++ dumpsStr m.createdAt ++
    ",\"files\":[".toList ++ [','].intercalate (m.files.map FileRecord.text) ++
    "],\"format\":1,\"public_ipv4\":".toList ++ dumpsStr m.publicIpv4 ++
    ",\"quick_check\":".toList ++ dumpsStr m.quickCheck ++
    ",\"schema_version\":".toList ++ dumpsStr m.schemaVersion ++
    ",\"version\":".toList ++ dumpsStr m.version ++ ['}']

/-- `_manifest_bytes`. -/
def manifestBytes (m : Manifest) : Bytes :=
  (m.text ++ ['\n']).map fun c => UInt8.ofNat c.toNat

/-! ### Writing -/

/-- **What a backup is asked for.** -/
structure BackupRequest where
  root : Root
  snapshot : SourceNode
  staging : DirectoryStatus
  /-- The directory of the archive. -/
  parent : DirectoryStatus
  /-- The name of the archive. -/
  archive : PyStr
  /-- `os.geteuid()`. -/
  euid : ℕ
  /-- The time, as the manifest writes it. -/
  createdAt : PyStr

namespace BackupRequest

variable (request : BackupRequest)

/-- The node of a fixed source. -/
def source : Option String → SourceNode
  | none => request.snapshot
  | some name => request.root.file name

/-- The loop over `FIXED_SOURCES`. -/
def copyFixed : List (String × Option String) → Payload → Except BackupError Payload
  | [], payload => .ok payload
  | (archiveName, sourceName) :: rest, payload => do
    let payload ← safeCopy payload (baseName (codePoints (sourceName.getD archiveName)))
      (request.source sourceName) (codePoints archiveName)
    copyFixed rest payload

/-- The name of a file of a tree in the archive. -/
def treeName (archivePrefix : String) (relative : PyStr) : PyStr :=
  codePoints archivePrefix ++ slash :: relative

/-- The loop over the files of one tree. -/
def copyTree (archivePrefix : String) : Payload → Payload → Except BackupError Payload
  | [], payload => .ok payload
  | (relative, content) :: rest, payload => do
    let payload ← safeCopy payload (baseName relative) (.file content)
      (treeName archivePrefix relative)
    copyTree archivePrefix rest payload

/-- The loop over `TREE_SOURCES`. -/
def copyTrees : List (String × String) → Payload → Except BackupError Payload
  | [], payload => .ok payload
  | (archivePrefix, sourceName) :: rest, payload => do
    let files ← treeFiles (baseName (codePoints sourceName)) (request.root.tree sourceName)
    let payload ← copyTree archivePrefix files payload
    copyTrees rest payload

/-- **The staged payload**: the files the archive is made of, in the order they are copied. -/
def staged : Except BackupError Payload := do
  let payload ← request.copyFixed fixedSources []
  request.copyTrees treeSources payload

end BackupRequest

/-- The record of a staged file. -/
def fileRecord (entry : PyStr × Bytes) : FileRecord :=
  ⟨entry.1, tools.sha256 entry.2, entry.2.length⟩

/-- `records.sort(key=…)`, on the staged files. -/
def sortedFiles (payload : Payload) : Payload := payload.insertionSort fun a b => a.1 ≤ b.1

/-- The total size of some files. -/
def totalSize (payload : Payload) : ℕ := (payload.map fun entry => entry.2.length).sum

/-- The content of a file of the payload; a missing file is an `OSError`. -/
def payloadFile (payload : Payload) (name : String) : Except BackupError Bytes :=
  match payload.find? fun entry => entry.1 = codePoints name with
  | some entry => .ok entry.2
  | none => .error .osError

/-- The manifest of a staged payload. -/
def manifestFor (request : BackupRequest) (payload : Payload) : Except BackupError Manifest := do
  let database ← payloadFile payload "database/ezopenpn.sqlite3"
  let (quickCheck, schemaVersion) ← databaseMetadata tools database
  let state ← payloadFile payload "state/install.json"
  let (version, publicIpv4) ← loadInstallState tools state
  return { createdAt := request.createdAt, files := (sortedFiles payload).map (fileRecord tools)
           publicIpv4 := publicIpv4, quickCheck := quickCheck, schemaVersion := schemaVersion
           version := version }

/-- The members that are packed: the manifest, and the files in the order of their paths. -/
def packedFiles (manifest : Manifest) (payload : Payload) : Payload :=
  (codePoints "manifest.json", manifestBytes manifest) ::
    (sortedFiles payload).map fun entry => (codePoints "payload/" ++ entry.1, entry.2)

/-- `.encode()`: the UTF-8 bytes of a text, unless it holds a surrogate. -/
def encodeUtf8 (s : PyStr) : Option Bytes :=
  if ∀ c ∈ s, c.isValidChar then
    some (s.flatMap fun c => String.utf8EncodeChar (Char.ofNat c))
  else none

/-- The line of the checksum file. -/
def checksumLine (name : PyStr) (content : Bytes) : PyStr :=
  tools.sha256 content ++ codePoints "  " ++ name ++ codePoints "\n"

/-- **The two files a backup leaves.** -/
structure CreatedArchive where
  archive : StoredFile
  checksum : StoredFile

/-- The name of the checksum file. -/
def checksumName (name : PyStr) : PyStr := name ++ codePoints ".sha256"

/-- `_write_checksum`, after the archive of some content. -/
def writeChecksum (request : BackupRequest) (content : Bytes) : Except BackupError CreatedArchive :=
  if checksumName request.archive ∈ request.parent.entries then .error .osError
  else if maxFileSize < content.length then refuse "file exceeds size limit"
  else
    match encodeUtf8 (checksumLine tools request.archive content) with
    | none => .error .other
    | some line =>
      .ok { archive := ⟨request.archive, content, request.euid, 0o600⟩
            checksum := ⟨checksumName request.archive, line, request.euid, 0o600⟩ }

/-- **`create_archive`.** -/
def createArchive (request : BackupRequest) : Except BackupError CreatedArchive := do
  refuseIf (¬request.staging.directory ∨ request.staging.uid ≠ request.euid ∨
    request.staging.mode ≠ 0o700) "staging directory is unsafe"
  refuseIf (¬request.parent.directory ∨ request.parent.uid ≠ request.euid ∨
    request.parent.mode &&& 0o022 ≠ 0) "archive destination is unsafe"
  raiseIf (codePoints "payload" ∈ request.staging.entries) .osError
  let payload ← request.staged
  refuseIf (maxTotalSize < totalSize payload ∨ maxMembers - 1 < payload.length)
    "backup payload exceeds limits"
  let manifest ← manifestFor tools request payload
  raiseIf (request.archive ∈ request.parent.entries) .osError
  let _ ← regularStatus (codePoints "manifest.json") (.file (manifestBytes manifest))
  writeChecksum tools request (tools.pack (packedFiles manifest payload))

/-! ### Reading -/

/-- `_validated_member_name`. -/
def validatedMemberName (name : PyStr) : Except BackupError Unit :=
  if name = [] ∨ 512 < name.length ∨ codePoints "\\" <:+: name ∨ codePoints "/" <+: name then
    refuse "archive member name is invalid"
  else if (posixParts name).any fun part => part ∈ ["", ".", ".."].map codePoints then
    refuse "archive member escapes its root"
  else .ok ()

/-- The universal newlines of a text that is read. -/
def universalNewlines : PyStr → PyStr
  | 13 :: 10 :: rest => 10 :: universalNewlines rest
  | 13 :: rest => 10 :: universalNewlines rest
  | c :: rest => c :: universalNewlines rest
  | [] => []

/-- `read_text(encoding="ascii")`. -/
def readAscii (content : Bytes) : Option PyStr :=
  if content.all fun b => b.toNat < 128 then some (universalNewlines (content.map UInt8.toNat))
  else none

/-- `_validate_archive_file`. -/
def validateArchiveFile (created : CreatedArchive) (expectedOwner : ℕ) : Except BackupError Unit := do
  let content ← regularStatus created.archive.name (.file created.archive.content)
  refuseIf (created.archive.uid ≠ expectedOwner ∨ created.archive.mode ≠ 0o600)
    "archive owner or mode is invalid"
  let checksum ← regularStatus created.checksum.name (.file created.checksum.content)
  refuseIf (created.checksum.uid ≠ expectedOwner ∨ created.checksum.mode ≠ 0o600 ∨
    1024 < checksum.length) "archive checksum owner or mode is invalid"
  match readAscii checksum with
  | none => refuse "archive checksum is unreadable"
  | some value =>
    refuseIf (value ≠ checksumLine tools created.archive.name content)
      "archive checksum does not match"

/-- The loop over the members: their names, latest first. -/
def scanMembers : List ArchiveMember → ℕ → List PyStr → ℤ → Except BackupError (List PyStr)
  | [], _, names, _ => .ok names
  | member :: rest, count, names, total => do
    refuseIf (maxMembers ≤ count) "archive member count is invalid"
    validatedMemberName member.name
    refuseIf (member.name ∈ names ∨ ¬member.isFile) "archive contains an unsafe member"
    refuseIf (member.size < 0 ∨ (maxFileSize : ℤ) < member.size) "archive member exceeds size limit"
    refuseIf ((maxTotalSize : ℤ) < total + member.size) "archive exceeds total size limit"
    scanMembers rest (count + 1) (member.name :: names) (total + member.size)

/-- `name.rstrip("/")`. -/
def rstripSlash (name : PyStr) : PyStr := name.rdropWhile (· = slash)

/-- `tar.getmember(name)` and what `extractfile` reads of it: the last member of the name, without
the slashes it ends in. -/
def memberContent (members : List ArchiveMember) (name : PyStr) : Option Bytes :=
  (members.reverse.find? fun member => member.name = rstripSlash name).map ArchiveMember.content

/-- The fields of a manifest. -/
def manifestKeys : List String :=
  ["application", "created_at", "files", "format", "public_ipv4", "quick_check", "schema_version",
    "version"]

/-- A field that has to be one text. -/
def isText (value : Option Json) (text : PyStr) : Bool :=
  match value with
  | some (.str s) => s = text
  | _ => false

/-- A number that equals one, as Python compares. -/
def isOne : Option Json → Bool
  | some (.int n) => n = 1
  | some (.bool b) => b
  | some (.float value) => value = some 1
  | _ => false

/-- **`_parse_manifest`**: the fields of the manifest with its texts and its list of files. -/
def parseManifest (raw : Bytes) : Except BackupError (List (PyStr × Json)) :=
  if maxManifestSize < raw.length then refuse "manifest exceeds size limit"
  else
    match tools.loads raw with
    | .error .malformed => refuse "manifest is invalid"
    | .error .other => .error .other
    | .ok (.dict fields) =>
      if ¬hasKeys manifestKeys fields then refuse "manifest fields are invalid"
      else if ¬isText (field fields "application") (codePoints "EzOpenPN") ∨
          ¬isOne (field fields "format") ∨ ¬isText (field fields "quick_check") (codePoints "ok") then
        refuse "manifest values are invalid"
      -- the version is looked up in a set before its type is known
      else if (field fields "schema_version").any (!·.hashable) then .error .other
      else
        match field fields "schema_version", field fields "version", field fields "public_ipv4",
          field fields "created_at", field fields "files" with
        | some (.str schema), some (.str _), some (.str _), some (.str _), some (.list _) =>
          if schema ∈ supportedSchemaVersions.map codePoints then .ok fields
          else refuse "manifest values are invalid"
        | _, _, _, _, _ => refuse "manifest values are invalid"
    | .ok _ => refuse "manifest fields are invalid"

/-- `_allowed_payload_path`. -/
def allowedPayloadPath (path : PyStr) : Bool :=
  asPosix path ∈ fixedSources.map (fun s => codePoints s.1) ||
    treeSources.any fun s => (codePoints s.1 ++ [slash]).isPrefixOf (asPosix path)

/-- A digest as it is written: 64 hexadecimal digits. -/
def isDigest (digest : PyStr) : Bool :=
  digest.length = 64 && digest.all fun c => c ∈ codePoints "0123456789abcdef"

/-- The loop of `_manifest_records`, with the records so far in order. -/
def manifestRecordsFrom : List Json → List FileRecord → Except BackupError (List FileRecord)
  | [], records => .ok records
  | .dict fields :: rest, records =>
    if ¬hasKeys ["path", "sha256", "size"] fields then refuse "manifest file record is invalid"
    else
      match field fields "path", field fields "sha256", field fields "size" with
      | some (.str path), some (.str digest), some (.int size) => do
        refuseIf (¬isDigest digest ∨ size < 0 ∨ (maxFileSize : ℤ) < size)
          "manifest file metadata is invalid"
        validatedMemberName path
        refuseIf (¬allowedPayloadPath path ∨ path ∈ records.map FileRecord.path)
          "manifest contains an unexpected file"
        manifestRecordsFrom rest (records ++ [⟨path, digest, size.toNat⟩])
      | _, _, _ => refuse "manifest file metadata is invalid"
  | _ :: _, _ => refuse "manifest file record is invalid"

/-- `_manifest_records`. -/
def manifestRecords (fields : List (PyStr × Json)) : Except BackupError (List FileRecord) :=
  match field fields "files" with
  | some (.list raw) =>
    if maxMembers - 1 < raw.length then refuse "manifest file list is invalid"
    else do
      let records ← manifestRecordsFrom raw []
      refuseIf (records.map FileRecord.path ≠ (records.map FileRecord.path).insertionSort (· ≤ ·))
        "manifest file list is not sorted"
      refuseIf (¬∀ source ∈ fixedSources, codePoints source.1 ∈ records.map FileRecord.path)
        "manifest is missing a required file"
      return records
  | _ => refuse "manifest file list is invalid"

/-- `_safe_extract_member`. -/
def safeExtractMember (payload : Payload) (content : Bytes) (record : FileRecord) :
    Except BackupError Payload := do
  let payload ← createExclusive payload record.path content
  refuseIf (record.size < content.length ∨ maxFileSize < content.length)
    "archive member size does not match"
  refuseIf (content.length ≠ record.size ∨ tools.sha256 content ≠ record.sha256)
    "archive member checksum does not match"
  return payload

/-- The loop over the records. -/
def extractRecords (members : List ArchiveMember) : List FileRecord → Payload →
    Except BackupError Payload
  | [], payload => .ok payload
  | record :: rest, payload =>
    match memberContent members (codePoints "payload/" ++ record.path) with
    -- the `KeyError` of `getmember`, for a name that ends in a slash
    | none => .error .other
    | some content => do
      let payload ← safeExtractMember tools payload content record
      extractRecords members rest payload

/-- The last checks of `validate_and_extract`: the database and the installation are those of the
manifest, and the installation is the current one. -/
def checkIdentity (fields : List (PyStr × Json)) (payload : Payload) (currentState : SourceNode) :
    Except BackupError Unit := do
  let database ← payloadFile payload "database/ezopenpn.sqlite3"
  let (quick, schema) ← databaseMetadata tools database
  refuseIf (¬isText (field fields "quick_check") quick ∨
    ¬isText (field fields "schema_version") schema) "database metadata does not match the manifest"
  let state ← payloadFile payload "state/install.json"
  let (archiveVersion, archiveIp) ← loadInstallState tools state
  let current ← regularStatus (codePoints "install.json") currentState
  let (currentVersion, currentIp) ← loadInstallState tools current
  refuseIf (¬isText (field fields "version") archiveVersion ∨
    ¬isText (field fields "public_ipv4") archiveIp ∨ archiveVersion ≠ currentVersion ∨
    archiveIp ≠ currentIp) "archive belongs to a different installation"

/-- **`validate_and_extract`**: the fields of the manifest and the files it has written below
`payload`. The engine that `_database_metadata` opens the staged database with may leave a `-wal` and
a `-shm` file beside it; they are not among these files, and `EzOpenPN.extractArchive` has them. -/
def validateAndExtract (created : CreatedArchive) (staging : DirectoryStatus)
    (currentState : SourceNode) (expectedOwner : ℕ) : Except BackupError (List (PyStr × Json) × Payload) := do
  validateArchiveFile tools created expectedOwner
  refuseIf (¬staging.directory) "staging directory is unsafe"
  refuseIf (staging.entries ≠ []) "staging directory must be empty"
  match tools.unpack created.archive.content with
  | none => throw .other
  | some members => do
    let names ← scanMembers members 0 [] 0
    refuseIf (members.isEmpty) "archive member count is invalid"
    match memberContent members (codePoints "manifest.json") with
    | none => refuse "archive manifest is missing"
    | some raw => do
      let fields ← parseManifest tools (raw.take (maxManifestSize + 1))
      let records ← manifestRecords fields
      let expected := codePoints "manifest.json" ::
        records.map fun record => codePoints "payload/" ++ record.path
      refuseIf (¬((∀ name ∈ names, name ∈ expected) ∧ ∀ name ∈ expected, name ∈ names))
        "archive members do not match the manifest"
      let payload ← extractRecords tools members records []
      checkIdentity tools fields payload currentState
      return (fields, payload)

end EzOpenPN
