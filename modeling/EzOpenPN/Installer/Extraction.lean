import EzOpenPN.Installer.BackupRoundTrip
import EzOpenPN.Installer.ManifestChecks
import EzOpenPN.Lib.FileSystem

/-!
# Extraction, call by call

What `validate_and_extract` of `backup_archive.py` does to the disk. Its checks are those of
`EzOpenPN.validateAndExtract`; here it is a script of system calls below the staging directory, each
of which may fail, so that what it leaves is known also when it raises.

Its names are checked as texts and used as paths. The two are not the same: `PurePosixPath` drops the
parts `.` and doubled slashes, and a name is written in bytes, so that several texts are one path
(`EzOpenPN.realPath`). What keeps the files apart is that each is **created exclusively**.

At one point the function does not write itself. `_database_metadata` opens the staged database with
`mode=ro`, and the engine may leave two files beside it: a database in the WAL mode, which the panel
uses (`control/src/ezopenpn/db.py`), cannot be read without a `-wal` and a `-shm` file, and they stay
when it is closed. They are the one thing in the staging directory that the archive does not account
for.
-/

namespace EzOpenPN

open FileSystem Script

/-! ### Names and places -/

/-- The name of a file in bytes. -/
abbrev FileName := Bytes

/-- A name as it is written. -/
def fileName (s : String) : FileName := fsEncode (codePoints s)

/-- `..`, the directory above. -/
def up : FileName := fileName ".."

/-- `payload`. -/
def payloadName : FileName := fileName "payload"

/-- `manifest.json`. -/
def manifestPath : List FileName := [fileName "manifest.json"]

/-- The staged file of a record. -/
def payloadPath (name : PyStr) : List FileName := payloadName :: realPath name

/-- The staged database. -/
def databasePath : List FileName := payloadPath (codePoints "database/ezopenpn.sqlite3")

/-- The files that the database engine keeps beside a database. -/
inductive SideFile where
  | wal
  | shm
  deriving DecidableEq

/-- The path of a file beside the staged database. -/
def SideFile.path : SideFile → List FileName
  | .wal => payloadPath (codePoints "database/ezopenpn.sqlite3-wal")
  | .shm => payloadPath (codePoints "database/ezopenpn.sqlite3-shm")

/-- **The places for a payload**: the fixed sources, and strictly below the two trees. -/
def AllowedPath (q : List FileName) : Prop :=
  (∃ s ∈ fixedSources, q = realPath (codePoints s.1)) ∨
    ∃ s ∈ treeSources, ∃ rest, rest ≠ [] ∧ q = realPath (codePoints s.1) ++ rest

/-! ### The script -/

/-- What the reader is built on: the tools of an archive, `json.dumps` of the manifest with a
newline, and what the engine leaves beside a database that it has read. -/
structure ReaderTools extends BackupTools where
  dumps : List (PyStr × Json) → Bytes
  sides : Bytes → SideFile → Option Bytes

/-- A script of system calls. -/
abbrev DiskScript := Script (Disk FileName UInt8) (Call FileName UInt8)

/-- `mkdir(parents=True, exist_ok=True)`, at one directory: a link may lead to a directory. -/
def mkdirStep (p : List FileName) : DiskScript Bool :=
  look fun d =>
    match d.tree.node p with
    | none => run (.mkdir p)
    | some .directory | some .link => done true
    | some (.file _) => done false

/-- `mkdir(parents=True, exist_ok=True)`. -/
def mkdirs (p : List FileName) : DiskScript Bool := all (p.inits.map mkdirStep)

/-- What `read` gives of a stream, `n` bytes at a time. -/
def chunksFrom (n : ℕ) : ℕ → Bytes → List Bytes
  | 0, _ => []
  | _ + 1, [] => []
  | fuel + 1, b :: bs => (b :: bs).take n :: chunksFrom n fuel ((b :: bs).drop n)

/-- The chunks of `_safe_extract_member`. -/
def memberChunks (content : Bytes) : List Bytes := chunksFrom (1024 * 1024) content.length content

/-- The loop of a copy, with the sizes it refuses and its message: the size that was written. -/
def writeChunks (destination : List FileName) (refuses : ℕ → Bool) (message : String) :
    List Bytes → ℕ → DiskScript (Except BackupError ℕ)
  | [], size => done (.ok size)
  | chunk :: rest, size =>
    if refuses (size + chunk.length) then done (refuse message)
    else
      (orRaise (run (.append destination chunk)) .osError).attempt fun _ =>
        writeChunks destination refuses message rest (size + chunk.length)

section Reader

variable (tools : ReaderTools)

/-- `_safe_extract_member`. -/
def extractMember (content : Bytes) (record : FileRecord) : DiskScript (Except BackupError Unit) :=
  if ¬Encodable record.path then done (.error .other)
  else
    (orRaise (mkdirs (payloadPath record.path).dropLast) .osError).attempt fun _ =>
    (orRaise (run (.create (payloadPath record.path))) .osError).attempt fun _ =>
    (writeChunks (payloadPath record.path) (fun size => record.size < size ∨ maxFileSize < size)
      "archive member size does not match" (memberChunks content) 0).attempt fun size =>
    (orRaise (run (.touch (payloadPath record.path))) .osError).attempt fun _ =>
    done (refuseIf (size ≠ record.size ∨ tools.sha256 content ≠ record.sha256)
      "archive member checksum does not match")

/-- The loop over the records. -/
def extractMembers (members : List ArchiveMember) :
    List FileRecord → DiskScript (Except BackupError Unit)
  | [] => done (.ok ())
  | record :: rest =>
    match memberContent members (codePoints "payload/" ++ record.path) with
    | none => done (.error .other)
    | some content => (extractMember tools content record).attempt fun _ => extractMembers members rest

/-- The directories of the two trees. -/
def makeTrees : DiskScript (Except BackupError Unit) :=
  orRaise (all (treeSources.map fun s => mkdirs (payloadPath (codePoints s.1)))) .osError

/-- `manifest.json` is written. -/
def writeManifest (fields : List (PyStr × Json)) : DiskScript (Except BackupError Unit) :=
  (orRaise (run (.put manifestPath (tools.dumps fields))) .osError).attempt fun _ =>
    orRaise (run (.touch manifestPath)) .osError

/-- The engine opens a database and leaves a file beside it. -/
def leaveSide (content : Bytes) (side : SideFile) : DiskScript (Except BackupError Unit) :=
  match tools.sides content side with
  | none => done (.ok ())
  | some bytes => orRaise (run (.put side.path bytes)) (.archiveError "database is unreadable" [])

/-- What stands at a path, for a function that reads it. -/
def sourceNode (d : Disk FileName UInt8) (p : List FileName) : SourceNode :=
  match d.tree.node p with
  | none => .missing
  | some (.file content) => .file content
  | some _ => .other

/-- `_database_metadata` of the staged database. -/
def readDatabase : DiskScript (Except BackupError (PyStr × PyStr)) :=
  look fun d =>
    match regularStatus (codePoints "ezopenpn.sqlite3") (sourceNode d databasePath) with
    | .error e => done (.error e)
    | .ok content =>
      (leaveSide tools content .wal).attempt fun _ => (leaveSide tools content .shm).attempt fun _ =>
        done (databaseMetadata tools.toBackupTools content)

/-- The last checks: the database and the installation are those of the manifest, and the
installation is the current one. -/
def checkStaged (fields : List (PyStr × Json)) (currentState : SourceNode) :
    DiskScript (Except BackupError Unit) :=
  (readDatabase tools).attempt fun found =>
    look fun d => done do
      refuseIf (¬isText (field fields "quick_check") found.1 ∨
        ¬isText (field fields "schema_version") found.2) "database metadata does not match the manifest"
      let state ← regularStatus (codePoints "install.json")
        (sourceNode d (payloadPath (codePoints "state/install.json")))
      let (archiveVersion, archiveIp) ← loadInstallState tools.toBackupTools state
      let current ← regularStatus (codePoints "install.json") currentState
      let (currentVersion, currentIp) ← loadInstallState tools.toBackupTools current
      refuseIf (¬isText (field fields "version") archiveVersion ∨
        ¬isText (field fields "public_ipv4") archiveIp ∨ archiveVersion ≠ currentVersion ∨
        archiveIp ≠ currentIp) "archive belongs to a different installation"

/-- What is read of an archive before anything is written. -/
structure ReadArchive where
  members : List ArchiveMember
  fields : List (PyStr × Json)
  records : List FileRecord

/-- The checks of `validate_and_extract` before its first write. -/
def readArchive (created : CreatedArchive) (staging : DirectoryStatus) (expectedOwner : ℕ) :
    Except BackupError ReadArchive := do
  validateArchiveFile tools.toBackupTools created expectedOwner
  refuseIf (¬staging.directory) "staging directory is unsafe"
  refuseIf (staging.entries ≠ []) "staging directory must be empty"
  match tools.unpack created.archive.content with
  | none => throw .other
  | some members => do
    let names ← scanMembers members 0 [] 0
    refuseIf (members.isEmpty) "archive member count is invalid"
    match memberContent members (codePoints "manifest.json") with
    | none => refuse "archive manifest is missing"
    | some raw => do
      let fields ← parseManifest tools.toBackupTools (raw.take (maxManifestSize + 1))
      let records ← manifestRecords fields
      let expected := codePoints "manifest.json" ::
        records.map fun record => codePoints "payload/" ++ record.path
      refuseIf (¬((∀ name ∈ names, name ∈ expected) ∧ ∀ name ∈ expected, name ∈ names))
        "archive members do not match the manifest"
      return ⟨members, fields, records⟩

/-- **`validate_and_extract`**, as a script. -/
def extractArchive (created : CreatedArchive) (staging : DirectoryStatus) (currentState : SourceNode)
    (expectedOwner : ℕ) : DiskScript (Except BackupError (List (PyStr × Json))) :=
  match readArchive tools created staging expectedOwner with
  | .error e => done (.error e)
  | .ok archive =>
    (extractMembers tools archive.members archive.records).attempt fun _ =>
    makeTrees.attempt fun _ =>
    (writeManifest tools archive.fields).attempt fun _ =>
    (checkStaged tools archive.fields currentState).attempt fun _ =>
    done (.ok archive.fields)

end Reader

/-! ### Paths that are allowed -/

section Paths

variable {path : PyStr} {q : List FileName}

/-- The parts of a text hold no separator. -/
theorem not_mem_of_mem_splitOn {a : ℕ} {part : PyStr} (h : part ∈ path.splitOn a) : a ∉ part := by
  induction path generalizing part with
  | nil =>
    rw [List.splitOn_nil, List.mem_singleton] at h
    simp [h]
  | cons x xs ih =>
    rw [List.splitOn_cons_eq_if_modifyHead] at h
    split at h
    · rcases List.mem_cons.mp h with rfl | h
      · simp
      · exact ih h
    · rename_i hx
      rcases hsplit : xs.splitOn a with _ | ⟨first, rest⟩
      · exact absurd hsplit (List.splitOn_ne_nil a xs)
      · rw [hsplit, List.modifyHead_cons] at h
        rw [hsplit] at ih
        rcases List.mem_cons.mp h with rfl | h
        · have hne : x ≠ a := by simpa using hx
          have hfirst : a ∉ first := ih (by simp)
          simpa [hne.symm] using hfirst
        · exact ih (List.mem_cons_of_mem _ h)

theorem slash_not_mem_of_mem_posixParts {part : PyStr} (h : part ∈ posixParts path) :
    slash ∉ part := by
  rw [posixParts, List.mem_filter] at h
  exact not_mem_of_mem_splitOn h.1

/-- A normal text has the same parts. -/
theorem posixParts_asPosix (path : PyStr) : posixParts (asPosix path) = posixParts path := by
  have hparts : ∀ part ∈ posixParts path, part ≠ [] ∧ part ≠ codePoints "." := by
    intro part hpart
    rw [posixParts, List.mem_filter] at hpart
    exact of_decide_eq_true hpart.2
  rcases hempty : posixParts path with _ | ⟨first, rest⟩
  · rw [asPosix, hempty]
    decide
  · have hsplit : (asPosix path).splitOn slash = posixParts path := by
      rw [asPosix]
      exact List.splitOn_intercalate slash (fun _ hp => slash_not_mem_of_mem_posixParts hp)
        (by simp [hempty])
    rw [← hempty, posixParts, hsplit, List.filter_eq_self]
    exact fun part hpart => decide_eq_true (hparts part hpart)

/-- **A path that is allowed is in its place.** -/
theorem allowedPath_of_allowed (h : allowedPayloadPath path = true) : AllowedPath (realPath path) := by
  rw [allowedPayloadPath, Bool.or_eq_true, decide_eq_true_eq, List.any_eq_true] at h
  have hreal : ∀ p : PyStr, asPosix path = p → realPath path = realPath p := by
    intro p hp
    rw [realPath, realPath, ← hp, posixParts_asPosix]
  rcases h with h | ⟨s, hs, h⟩
  · obtain ⟨s, hs, hname⟩ := List.mem_map.mp h
    exact .inl ⟨s, hs, hreal _ hname.symm⟩
  · obtain ⟨tail, htail⟩ := List.isPrefixOf_iff_prefix.mp h
    rw [List.append_assoc, List.singleton_append] at htail
    -- what stands after the prefix has a part, because the text is normal
    have hsplit : posixParts path = posixParts (codePoints s.1) ++ posixParts tail := by
      rw [← posixParts_asPosix, ← htail, posixParts, List.splitOn_append_cons_self,
        List.filter_append]
      rfl
    have htail_parts : posixParts tail ≠ [] := by
      intro hnil
      have hjoin : asPosix path = asPosix (codePoints s.1) := by
        rw [asPosix, asPosix, hsplit, hnil, List.append_nil]
      have hnormal : ∀ s ∈ treeSources, asPosix (codePoints s.1) = codePoints s.1 := by decide
      rw [← htail, hnormal s hs] at hjoin
      simpa using congrArg List.length hjoin
    refine .inr ⟨s, hs, (posixParts tail).map fsEncode, by simpa using htail_parts, ?_⟩
    rw [realPath, hsplit, List.map_append]
    rfl

theorem mem_of_mem_splitOn {a c : ℕ} {part : PyStr} (h : part ∈ path.splitOn a) (hc : c ∈ part) :
    c ∈ path := by
  induction path generalizing part with
  | nil =>
    rw [List.splitOn_nil, List.mem_singleton] at h
    simp [h] at hc
  | cons x xs ih =>
    rw [List.splitOn_cons_eq_if_modifyHead] at h
    split at h
    · rcases List.mem_cons.mp h with rfl | h
      · simp at hc
      · exact List.mem_cons_of_mem _ (ih h hc)
    · rcases hsplit : xs.splitOn a with _ | ⟨first, rest⟩
      · exact absurd hsplit (List.splitOn_ne_nil a xs)
      · rw [hsplit, List.modifyHead_cons] at h
        rw [hsplit] at ih
        rcases List.mem_cons.mp h with rfl | h
        · rcases List.mem_cons.mp hc with rfl | hc
          · exact List.mem_cons_self
          · exact List.mem_cons_of_mem _ (ih (by simp) hc)
        · exact List.mem_cons_of_mem _ (ih (List.mem_cons_of_mem _ h) hc)

/-- A code point that has bytes in ASCII is in ASCII. -/
theorem lt_of_fsEncodeChar {c : ℕ} (hc : c.isValidChar ∨ 0xdc80 ≤ c ∧ c ≤ 0xdcff)
    (h : ∀ b ∈ fsEncodeChar c, b.toNat < 128) : c < 128 ∧ fsEncodeChar c = [UInt8.ofNat c] := by
  rw [fsEncodeChar] at h ⊢
  by_cases hvalid : c.isValidChar
  · rw [if_pos hvalid] at h ⊢
    have hnat := toNat_ofNat_of_isValidChar hvalid
    by_cases hlt : c < 128
    · refine ⟨hlt, ?_⟩
      rw [utf8EncodeChar_of_lt (by omega), hnat]
    · obtain ⟨b, hb, hge⟩ := exists_high_byte (c := Char.ofNat c) (by omega)
      have := h b hb
      omega
  · have hrange := hc.resolve_left hvalid
    rw [if_neg hvalid, if_pos hrange] at h
    have := h _ List.mem_cons_self
    rw [UInt8.toNat_ofNat'] at this
    omega

/-- **No other name has the bytes of `..`**. -/
theorem eq_of_fsEncode_eq_up {part : PyStr}
    (hencodable : ∀ c ∈ part, c.isValidChar ∨ 0xdc80 ≤ c ∧ c ≤ 0xdcff) (h : fsEncode part = up) :
    part = codePoints ".." := by
  have hdots : up = [46, 46] := by decide
  have hascii : ∀ c ∈ part, c < 128 ∧ fsEncodeChar c = [UInt8.ofNat c] := by
    intro c hc
    refine lt_of_fsEncodeChar (hencodable c hc) fun b hb => ?_
    have hmem : b ∈ up := h ▸ List.mem_flatMap.mpr ⟨c, hc, hb⟩
    have : b = 46 := by simpa [hdots] using hmem
    simp [this]
  have hbytes : part.map UInt8.ofNat = [46, 46] := by
    rw [← hdots, ← h, fsEncode]
    clear h hencodable
    induction part with
    | nil => rfl
    | cons c rest ih =>
      rw [List.map_cons, List.flatMap_cons, (hascii c (by simp)).2,
        ih fun d hd => hascii d (by simp [hd])]
      rfl
  have hnats : (part.map UInt8.ofNat).map UInt8.toNat = part := by
    rw [List.map_map]
    refine (List.map_congr_left fun c hc => ?_).trans (List.map_id part)
    rw [Function.comp_apply, UInt8.toNat_ofNat', id]
    exact Nat.mod_eq_of_lt (by have := (hascii c hc).1; omega)
  rw [← hnats, hbytes]
  decide

theorem posixParts_of_valid (h : validatedMemberName path = .ok ()) :
    ∀ part ∈ posixParts path, part ≠ codePoints ".." := by
  rw [validatedMemberName] at h
  split at h
  · simp at h
  · split at h
    · simp at h
    · rename_i hparts
      rintro part hpart rfl
      exact hparts (List.any_eq_true.mpr ⟨_, hpart, by decide⟩)

/-- **A checked name does not lead up.** -/
theorem up_not_mem_payloadPath (h : validatedMemberName path = .ok ()) (hencodable : Encodable path) :
    up ∉ payloadPath path := by
  intro hmem
  rcases List.mem_cons.mp hmem with hhead | htail
  · exact absurd hhead (by decide)
  · obtain ⟨part, hpart, hup⟩ := List.mem_map.mp htail
    refine posixParts_of_valid h part hpart (eq_of_fsEncode_eq_up (fun c hc => ?_) hup)
    rw [posixParts, List.mem_filter] at hpart
    exact (hencodable c (mem_of_mem_splitOn hpart.1 hc)).2

end Paths

/-! ### Places -/

/-- **What may stand below the staging directory**: the files of a payload with the directories above
them, and `extra` files. -/
def Place (extra : List (List FileName)) (p : List FileName) : Node UInt8 → Prop
  | .directory => p = [] ∨ ∃ q, AllowedPath q ∧ p <+: payloadName :: q
  | .file _ => p ∈ extra ∨ ∃ q, AllowedPath q ∧ p = payloadName :: q
  | .link => False

/-- A path where a payload puts nothing. -/
def Strange (p : List FileName) : Prop :=
  p ≠ [] ∧ ∀ q, AllowedPath q → ¬p <+: payloadName :: q

section Places

variable {extra extra' : List (List FileName)} {p : List FileName} {d : Disk FileName UInt8}

theorem Place.mono (h : ∀ x ∈ extra, x ∈ extra') {n : Node UInt8} (hn : Place extra p n) :
    Place extra' p n := by
  cases n with
  | directory => exact hn
  | file c => exact hn.imp_left (h p)
  | link => exact hn

/-- Nothing stands yet at a path that is not in use. -/
theorem Strange.node_eq_none (hp : Strange p) (hextra : p ∉ extra) (hd : d.Confined (Place extra)) :
    d.tree.node p = none := by
  cases hnode : d.tree.node p with
  | none => rfl
  | some n =>
    have hplace := hd.within p n hnode
    cases n with
    | directory =>
      rcases hplace with rfl | ⟨q, hq, hpre⟩
      · exact absurd rfl hp.1
      · exact absurd hpre (hp.2 q hq)
    | file c =>
      rcases hplace with hmem | ⟨q, hq, rfl⟩
      · exact absurd hmem hextra
      · exact absurd (List.prefix_refl _) (hp.2 q hq)
    | link => exact hplace.elim

theorem strange_manifestPath : Strange manifestPath := by
  refine ⟨by decide, fun q _ hpre => ?_⟩
  have hhead := (List.cons_prefix_cons.mp hpre).1
  exact absurd hhead (by decide)

/-- **The files of the engine are no files of a payload.** -/
theorem strange_side (side : SideFile) : Strange side.path := by
  refine ⟨by cases side <;> decide, ?_⟩
  rintro q (⟨s, hs, rfl⟩ | ⟨s, hs, rest, -, rfl⟩) hpre
  · have hfixed : ∀ s ∈ fixedSources, ¬side.path <+: payloadName :: realPath (codePoints s.1) := by
      cases side <;> decide +kernel
    exact hfixed s hs hpre
  · -- the trees begin with other names than the database
    have htrees : ∀ s ∈ treeSources,
        (realPath (codePoints s.1)).head? ≠ (side.path.tail).head? ∧
          realPath (codePoints s.1) ≠ [] ∧ side.path.tail ≠ [] := by
      cases side <;> decide +kernel
    obtain ⟨hne, hnil, hside⟩ := htrees s hs
    obtain ⟨a, as, ha⟩ := List.exists_cons_of_ne_nil hnil
    obtain ⟨b, bs, hb⟩ := List.exists_cons_of_ne_nil hside
    obtain ⟨tail, htail⟩ := hpre
    have hcons : side.path = payloadName :: side.path.tail := by cases side <;> rfl
    rw [hcons, hb, ha] at htail
    simp only [List.cons_append, List.cons.injEq] at htail
    rw [ha, hb, List.head?_cons, List.head?_cons] at hne
    exact hne (congrArg some htail.2.1.symm)

theorem up_not_mem_side (side : SideFile) : up ∉ side.path := by
  cases side <;> decide +kernel

theorem up_not_mem_manifestPath : up ∉ manifestPath := by decide

end Places

/-! ### Confinement -/

/-- **The disk, watched**: no call takes away what was there. -/
def stagingMachine :
    Machine (Disk FileName UInt8) (Call FileName UInt8) CallOutcome (Disk FileName UInt8 × Prop) :=
  (diskMachine up).watch fun c o d => d.tree.Grows (c.effect up o d).2.tree

/-- Everything is in its place, and nothing was taken away on the way. -/
def Held (extra : List (List FileName)) (w : Disk FileName UInt8 × Prop) : Prop :=
  w.2 ∧ w.1.Confined (Place extra)

/-- The files that are not of the payload, in the order they are written. -/
def extraPaths : List (List FileName) := [SideFile.shm.path, SideFile.wal.path, manifestPath]

section Confinement

variable {tools : ReaderTools} {extra : List (List FileName)} {w : Disk FileName UInt8 × Prop}
variable {α : Type} {script : DiskScript α}

theorem Held.mono {extra' : List (List FileName)} (hw : Held extra w) (h : ∀ x ∈ extra, x ∈ extra') :
    Held extra' w :=
  ⟨hw.1, hw.2.mono fun _ _ hn => hn.mono h⟩

/-- A script that only adds in place. -/
theorem keeps_of_adds (h : script.Only (Call.Adds up (Place extra))) :
    Keeps stagingMachine (Held extra) (Held extra) script := by
  refine h.keeps fun c hc w o hw => ?_
  have hkept := hc.kept (fun _ => id) hw.2 o
  exact ⟨⟨hw.1, hkept.2⟩, hkept.1⟩

theorem only_mkdirs {p : List FileName} (hup : up ∉ p)
    (hplace : ∀ q, q <+: p → Place extra q .directory) :
    (mkdirs p).Only (Call.Adds up (Place extra)) := by
  refine Only.all fun step hstep => ?_
  obtain ⟨q, hq, rfl⟩ := List.mem_map.mp hstep
  rw [List.mem_inits] at hq
  intro d
  dsimp only
  split
  · exact Only.run ⟨fun hmem => hup (hq.subset hmem), hplace q hq⟩
  · exact trivial
  · exact trivial
  · exact trivial

theorem only_writeChunks {p : List FileName} (hp : ∀ c, Place extra p (.file c)) {refuses : ℕ → Bool}
    {message : String} (chunks : List Bytes) (written : ℕ) :
    (writeChunks p refuses message chunks written).Only (Call.Adds up (Place extra)) := by
  induction chunks generalizing written with
  | nil => exact trivial
  | cons chunk rest ih =>
    rw [writeChunks]
    exact Only.ite trivial (Only.attempt (Only.orRaise (Only.run hp)) fun _ => ih _)

/-- A directory above the files of a payload. -/
theorem place_above {p q : List FileName} (hq : AllowedPath q) (hp : p <+: payloadName :: q) :
    Place extra p .directory :=
  .inr ⟨q, hq, hp⟩

/-- **A member goes to its place.** -/
theorem only_extractMember {content : Bytes} {record : FileRecord}
    (hvalid : validatedMemberName record.path = .ok ())
    (hallowed : allowedPayloadPath record.path = true) :
    (extractMember tools content record).Only (Call.Adds up (Place extra)) := by
  rw [extractMember]
  split
  · exact trivial
  · rename_i hencodable
    have hup := up_not_mem_payloadPath hvalid (not_not.mp hencodable)
    have hpath := allowedPath_of_allowed hallowed
    have hfile : ∀ c, Place extra (payloadPath record.path) (.file c) := fun _ => .inr ⟨_, hpath, rfl⟩
    have habove := List.dropLast_prefix (payloadPath record.path)
    refine Only.attempt (Only.orRaise (only_mkdirs (fun hmem => hup (habove.subset hmem))
      fun q hq => place_above hpath (hq.trans habove))) fun _ => ?_
    refine Only.attempt (Only.orRaise (Only.run ⟨hup, hfile⟩)) fun _ => ?_
    refine Only.attempt (only_writeChunks hfile _ _) fun _ => ?_
    exact Only.attempt (Only.orRaise (Only.run trivial)) fun _ => trivial

theorem only_extractMembers {members : List ArchiveMember} {records : List FileRecord}
    (h : ∀ record ∈ records, validatedMemberName record.path = .ok () ∧
      allowedPayloadPath record.path = true) :
    (extractMembers tools members records).Only (Call.Adds up (Place extra)) := by
  induction records with
  | nil => exact trivial
  | cons record rest ih =>
    rw [extractMembers]
    split
    · exact trivial
    · obtain ⟨hvalid, hallowed⟩ := h record (by simp)
      exact Only.attempt (only_extractMember hvalid hallowed) fun _ =>
        ih fun other hother => h other (by simp [hother])

theorem only_makeTrees : makeTrees.Only (Call.Adds up (Place extra)) := by
  refine Only.orRaise (Only.all fun step hstep => ?_)
  obtain ⟨s, hs, rfl⟩ := List.mem_map.mp hstep
  have hup : ∀ s ∈ treeSources, up ∉ payloadPath (codePoints s.1) := by decide
  have hallowed : AllowedPath (realPath (codePoints s.1) ++ [payloadName]) :=
    .inr ⟨s, hs, [payloadName], by simp, rfl⟩
  refine only_mkdirs (hup s hs) fun q hq => place_above hallowed (hq.trans ?_)
  exact List.prefix_append (payloadPath (codePoints s.1)) [payloadName]

/-- A file is written at a path that is not in use. -/
theorem wp_put_strange {p : List FileName} {content : Bytes} (hp : Strange p) (hup : up ∉ p)
    (hextra : p ∉ extra) (hsub : ∀ x ∈ p :: extra, x ∈ extraPaths) (hw : Held extra w) :
    (run (.put p content) : DiskScript Bool).wp stagingMachine (Held extraPaths)
      (fun _ v => Held (p :: extra) v) w := by
  intro o
  have hmono : w.1.Confined (Place (p :: extra)) :=
    hw.2.mono fun _ _ hn => hn.mono fun x hx => List.mem_cons_of_mem _ hx
  have hkept : (Call.put p content).Kept up (Place (p :: extra)) o w.1 :=
    Call.kept_put (fun _ => id) hmono hup (hp.node_eq_none hextra hw.2)
      (fun c => .inl List.mem_cons_self) o
  have hheld : Held (p :: extra) (stagingMachine.perform (.put p content) o w).2 :=
    ⟨⟨hw.1, hkept.2⟩, hkept.1⟩
  exact ⟨hheld.mono hsub, hheld⟩

/-- A script that only adds in place, before all extra files are there. -/
theorem wp_of_adds (h : script.Only (Call.Adds up (Place extra)))
    (hsub : ∀ x ∈ extra, x ∈ extraPaths) (hw : Held extra w) :
    script.wp stagingMachine (Held extraPaths) (fun _ v => Held extra v) w :=
  wp_mono (keeps_of_adds h w hw) (fun _ hv => hv.mono hsub) fun _ _ hv => hv

theorem wp_writeManifest {fields : List (PyStr × Json)} (hw : Held [] w) :
    (writeManifest tools fields).wp stagingMachine (Held extraPaths)
      (fun _ v => Held [manifestPath] v) w := by
  refine wp_attempt_anyway (wp_orRaise_anyway (wp_put_strange strange_manifestPath
    up_not_mem_manifestPath (by simp) (by simp [extraPaths]) hw)) (fun _ h => h) fun _ v hv => ?_
  exact wp_orRaise_anyway (wp_of_adds (Only.run trivial) (by simp [extraPaths]) hv)

theorem wp_leaveSide {content : Bytes} {side : SideFile} (hextra : side.path ∉ extra)
    (hsub : ∀ x ∈ side.path :: extra, x ∈ extraPaths) (hw : Held extra w) :
    (leaveSide tools content side).wp stagingMachine (Held extraPaths)
      (fun _ v => Held (side.path :: extra) v) w := by
  rw [leaveSide]
  split
  · exact hw.mono fun x hx => List.mem_cons_of_mem _ hx
  · exact wp_orRaise_anyway
      (wp_put_strange (strange_side side) (up_not_mem_side side) hextra hsub hw)

theorem wp_readDatabase (hw : Held [manifestPath] w) :
    (readDatabase tools).wp stagingMachine (Held extraPaths) (fun _ v => Held extraPaths v) w := by
  rw [readDatabase, wp_look]
  split
  · exact hw.mono (by simp [extraPaths])
  · refine wp_attempt_anyway (wp_leaveSide (by decide) (by simp [extraPaths]) hw)
      (fun _ hv => hv.mono (by simp [extraPaths])) fun _ v hv => ?_
    refine wp_attempt_anyway (wp_leaveSide (by decide) (by simp [extraPaths]) hv)
      (fun _ h => h) fun _ u hu => ?_
    exact hu

/-- **Whatever is extracted is in its place**, whether or not it is the whole archive. -/
theorem wp_extractArchive {created : CreatedArchive} {staging : DirectoryStatus}
    {currentState : SourceNode} {expectedOwner : ℕ} {archive : ReadArchive}
    (hread : readArchive tools created staging expectedOwner = .ok archive)
    (hrecords : CheckedRecords archive.records) (hw : Held [] w) :
    (extractArchive tools created staging currentState expectedOwner).wp stagingMachine
      (Held extraPaths) (fun _ v => Held extraPaths v) w := by
  have hfinal : ∀ extra, (∀ x ∈ extra, x ∈ extraPaths) → ∀ v, Held extra v → Held extraPaths v :=
    fun _ hsub _ hv => hv.mono hsub
  rw [extractArchive, hread]
  refine wp_attempt_anyway (wp_of_adds (only_extractMembers fun record hrecord =>
    ⟨hrecords.valid record hrecord, hrecords.allowed record hrecord⟩) (by simp) hw)
    (hfinal _ (by simp)) fun _ v hv => ?_
  refine wp_attempt_anyway (wp_of_adds only_makeTrees (by simp) hv) (hfinal _ (by simp))
    fun _ v hv => ?_
  refine wp_attempt_anyway (wp_writeManifest hv) (hfinal _ (by simp [extraPaths])) fun _ v hv => ?_
  have hstaged : (checkStaged tools archive.fields currentState).wp stagingMachine (Held extraPaths)
      (fun _ u => Held extraPaths u) v :=
    wp_attempt_anyway (wp_readDatabase hv) (fun _ h => h) fun _ _ hu => hu
  exact wp_attempt_anyway hstaged (fun _ h => h) fun _ _ hu => hu

end Confinement

/-! ### Contents -/

/-- **The same files**, but for some paths; nothing is said if something was done elsewhere. -/
def SameFiles (but : List (List FileName)) (d d' : Disk FileName UInt8) : Prop :=
  d'.outside = false → d.outside = false ∧ ∀ p ∉ but, ∀ c,
    d'.tree.node p = some (.file c) ↔ d.tree.node p = some (.file c)

section Contents

variable {but but' : List (List FileName)} {d d' d'' : Disk FileName UInt8}

theorem SameFiles.refl (d : Disk FileName UInt8) : SameFiles but d d :=
  fun hin => ⟨hin, fun _ _ _ => Iff.rfl⟩

theorem SameFiles.trans (h : SameFiles but d d') (h' : SameFiles but d' d'') :
    SameFiles but d d'' := by
  intro hin
  obtain ⟨hin', hsame'⟩ := h' hin
  obtain ⟨hin, hsame⟩ := h hin'
  exact ⟨hin, fun p hp c => (hsame' p hp c).trans (hsame p hp c)⟩

theorem SameFiles.mono (h : SameFiles but d d') (hsub : ∀ p ∈ but, p ∈ but') :
    SameFiles but' d d' := by
  intro hin
  obtain ⟨hin, hsame⟩ := h hin
  exact ⟨hin, fun p hp => hsame p fun hmem => hp (hsub p hmem)⟩

/-- The script of system calls, and nothing about the states between them. -/
def Establishes {α : Type} (script : DiskScript α) (d : Disk FileName UInt8)
    (Q : α → Disk FileName UInt8 → Prop) : Prop :=
  script.wp (diskMachine up) (fun _ => True) Q d

/-- What is established unless something was done elsewhere: nothing was at the start. -/
theorem establishes_inside {α : Type} {script : DiskScript (Except BackupError α)}
    {Q : α → Disk FileName UInt8 → Prop}
    (h : d.outside = false → Establishes script d fun result d' => ∀ a, result = .ok a →
      d'.outside = false → Q a d') :
    Establishes script d fun result d' => ∀ a, result = .ok a → d'.outside = false → Q a d' := by
  cases hd : d.outside with
  | false => exact h hd
  | true =>
    have hkeeps : Keeps (diskMachine up) (fun d => d.outside = true) (fun d => d.outside = true)
        script := (Only.univ script).keeps fun c _ d o hd => Call.outside_effect c hd
    refine wp_mono (hkeeps d hd) (fun _ _ => trivial) fun result d' hd' _ _ hin => ?_
    rw [hd'] at hin
    cases hin

theorem establishes_mkdirStep (p : List FileName) :
    Establishes (mkdirStep p) d fun ok d' => ok = true → SameFiles [] d d' := by
  rw [Establishes, mkdirStep, wp_look]
  split
  · intro o
    refine ⟨trivial, fun hok hin => ?_⟩
    obtain ⟨hinside, hnone, hnode⟩ := Call.of_mkdir hok hin
    refine ⟨hinside, fun q _ c => ?_⟩
    rw [diskMachine_perform, hnode]
    by_cases hqp : q = p
    · subst hqp
      simp [hnone]
    · rw [Function.update_of_ne hqp]
  · exact fun _ => .refl d
  · exact fun _ => .refl d
  · exact nofun

/-- **Making directories changes no file.** -/
theorem establishes_mkdirs (p : List FileName) :
    Establishes (mkdirs p) d fun ok d' => ok = true → SameFiles [] d d' := by
  rw [Establishes, mkdirs]
  generalize p.inits = steps
  induction steps generalizing d with
  | nil => exact fun _ => .refl d
  | cons q rest ih =>
    refine wp_all_of (establishes_mkdirStep q) fun d' hd' => ?_
    exact wp_mono ih (fun _ h => h) fun _ d'' hd'' hok => hd'.trans (hd'' hok)

theorem establishes_makeTrees :
    Establishes makeTrees d fun result d' => ∀ u, result = .ok u → SameFiles [] d d' := by
  refine wp_orRaise_of ?_
  generalize treeSources = sources
  induction sources generalizing d with
  | nil => exact fun _ => .refl d
  | cons s rest ih =>
    refine wp_all_of (establishes_mkdirs _) fun d' hd' => ?_
    exact wp_mono ih (fun _ h => h) fun _ d'' hd'' hok => hd'.trans (hd'' hok)

/-- **A stream is the chunks that are read of it.** -/
theorem flatten_memberChunks (content : Bytes) : (memberChunks content).flatten = content := by
  have hfrom : ∀ (n fuel : ℕ) (bs : Bytes), 0 < n → bs.length ≤ fuel →
      (chunksFrom n fuel bs).flatten = bs := by
    intro n fuel
    induction fuel with
    | zero =>
      intro bs _ hlen
      simpa [chunksFrom, eq_comm] using hlen
    | succ fuel ih =>
      intro bs hn hlen
      cases bs with
      | nil => rfl
      | cons b bs =>
        rw [chunksFrom, List.flatten_cons, ih _ hn, List.take_append_drop]
        rw [List.length_drop]
        omega
  exact hfrom _ _ content (by decide) le_rfl

/-- The chunks are appended, one after the other. -/
theorem establishes_writeChunks {p : List FileName} {refuses : ℕ → Bool} {message : String}
    {chunks : List Bytes} {written : ℕ} {content : Bytes}
    (hp : d.tree.node p = some (.file content)) :
    Establishes (writeChunks p refuses message chunks written) d fun result d' => ∀ size,
      result = .ok size → size = written + chunks.flatten.length ∧ d'.outside = d.outside ∧
        d'.tree.node = Function.update d.tree.node p (some (.file (content ++ chunks.flatten))) := by
  induction chunks generalizing d written content with
  | nil =>
    rintro _ ⟨rfl⟩
    simp [hp]
  | cons chunk rest ih =>
    rw [Establishes, writeChunks, wp_ite]
    refine ⟨fun _ => by simp, fun _ => ?_⟩
    have happend : Establishes (run (.append p chunk)) d fun ok d' => ok = true →
        d' = { d with tree := d.tree.set p (some (.file (content ++ chunk))) } := by
      refine fun o => ⟨trivial, fun hok => ?_⟩
      rw [diskMachine_perform] at hok ⊢
      exact Call.of_append hp hok
    refine wp_attempt_of (wp_orRaise_of happend) fun _ d' hd' => ?_
    subst hd'
    have hset := Tree.set_node (Tree.settable_of_node hp nofun (some (.file (content ++ chunk))))
    have happended : (d.tree.set p (some (.file (content ++ chunk)))).node p =
        some (.file (content ++ chunk)) := by rw [hset, Function.update_self]
    refine wp_mono (ih happended) (fun _ h => h) ?_
    rintro result d'' hresult size hsize
    obtain ⟨rfl, hin, hnode⟩ := hresult size hsize
    refine ⟨by simp [Nat.add_assoc], hin, ?_⟩
    rw [hnode, hset, Function.update_idem, List.append_assoc, List.flatten_cons]

/-- **A file was added**, and all others are the same. -/
structure FileAdded (p : List FileName) (content : Bytes) (d d' : Disk FileName UInt8) : Prop where
  inside : d.outside = false
  fresh : ∀ c, d.tree.node p ≠ some (.file c)
  files : ∀ q c, d'.tree.node q = some (.file c) ↔
    q = p ∧ c = content ∨ d.tree.node q = some (.file c)

/-- **A member is extracted as it is recorded.** -/
theorem establishes_extractMember {tools : ReaderTools} {content : Bytes} {record : FileRecord} :
    Establishes (extractMember tools content record) d fun result d' => ∀ u, result = .ok u →
      d'.outside = false → (content.length = record.size ∧ tools.sha256 content = record.sha256) ∧
        FileAdded (payloadPath record.path) content d d' := by
  rw [Establishes, extractMember, wp_ite]
  refine ⟨fun _ => by simp, fun _ => ?_⟩
  refine wp_attempt_of (wp_orRaise_of (establishes_mkdirs _)) fun _ d₁ hd₁ => ?_
  have hcreate : Establishes (run (.create (payloadPath record.path))) d₁ fun ok d₂ => ok = true →
      d₂.outside = false → d₁.outside = false ∧ d₁.tree.node (payloadPath record.path) = none ∧
        d₂.tree.node = Function.update d₁.tree.node (payloadPath record.path) (some (.file [])) :=
    fun o => ⟨trivial, fun hok hin => Call.of_create hok hin⟩
  refine wp_attempt_of (wp_orRaise_of hcreate) fun _ d₂ hd₂ => establishes_inside fun hin₂ => ?_
  obtain ⟨hin₁, hnone, hnode₂⟩ := hd₂ hin₂
  obtain ⟨hin, hsame⟩ := hd₁ hin₁
  have hempty : d₂.tree.node (payloadPath record.path) = some (.file []) := by simp [hnode₂]
  refine wp_attempt_of (establishes_writeChunks hempty) fun size d₃ hd₃ => ?_
  obtain ⟨hsize, hin₃, hnode₃⟩ := hd₃
  rw [flatten_memberChunks] at hsize hnode₃
  have htouch : Establishes (run (.touch (payloadPath record.path))) d₃ fun ok d₄ => ok = true →
      d₄ = d₃ := fun o => ⟨trivial, fun _ => rfl⟩
  refine wp_attempt_of (wp_orRaise_of htouch) ?_
  rintro _ d₄ rfl
  intro u hu _
  rw [refuseIf_eq_ok, not_or, not_not, not_not] at hu
  refine ⟨⟨by omega, hu.2⟩, hin, fun c hc => ?_, fun q c => ?_⟩
  · have := (hsame _ (by simp) c).mpr hc
    rw [hnone] at this
    cases this
  · rw [hnode₃, hnode₂, Function.update_idem, List.nil_append]
    by_cases hq : q = payloadPath record.path
    · subst hq
      have hfresh : ¬d.tree.node (payloadPath record.path) = some (.file c) := by
        rw [← hsame _ (by simp), hnone]
        exact nofun
      simp [hfresh, eq_comm]
    · rw [Function.update_of_ne hq, hsame q (by simp)]
      simp [hq]

/-- What an archive holds for a record. -/
def stored (members : List ArchiveMember) (record : FileRecord) : Bytes :=
  (memberContent members (codePoints "payload/" ++ record.path)).getD []

/-- **The files on a disk are those of some records**, each as it is recorded. -/
structure Extracted (tools : ReaderTools) (members : List ArchiveMember) (records : List FileRecord)
    (d : Disk FileName UInt8) : Prop where
  files : ∀ q c, d.tree.node q = some (.file c) ↔
    ∃ record ∈ records, q = payloadPath record.path ∧ c = stored members record
  distinct : (records.map fun record => payloadPath record.path).Nodup
  recorded : ∀ record ∈ records, (stored members record).length = record.size ∧
    tools.sha256 (stored members record) = record.sha256

section Members

variable {tools : ReaderTools} {members : List ArchiveMember} {before records : List FileRecord}

theorem Extracted.snoc {record : FileRecord} {content : Bytes}
    (hd : Extracted tools members before d) (hcontent : stored members record = content)
    (hrecorded : content.length = record.size ∧ tools.sha256 content = record.sha256)
    (hadded : FileAdded (payloadPath record.path) content d d') :
    Extracted tools members (before ++ [record]) d' where
  files q c := by
    rw [hadded.files, hd.files]
    simp only [List.mem_append, List.mem_singleton, or_and_right, exists_or, exists_eq_left, hcontent]
    exact or_comm
  distinct := by
    rw [List.map_append, List.map_singleton, List.nodup_append]
    refine ⟨hd.distinct, List.nodup_singleton _, fun p hp q hq => ?_⟩
    obtain ⟨other, hother, rfl⟩ := List.mem_map.mp hp
    obtain rfl := List.mem_singleton.mp hq
    intro heq
    exact hadded.fresh _ ((hd.files _ _).mpr ⟨other, hother, heq.symm, rfl⟩)
  recorded other hother := by
    rcases List.mem_append.mp hother with hother | hother
    · exact hd.recorded other hother
    · obtain rfl := List.mem_singleton.mp hother
      exact hcontent ▸ hrecorded

/-- **All members are extracted as they are recorded.** -/
theorem establishes_extractMembers (hd : d.outside = false → Extracted tools members before d) :
    Establishes (extractMembers tools members records) d fun result d' => ∀ u, result = .ok u →
      d'.outside = false → Extracted tools members (before ++ records) d' := by
  induction records generalizing before d with
  | nil =>
    intro u _ hin
    rw [List.append_nil]
    exact hd hin
  | cons record rest ih =>
    rw [Establishes, extractMembers]
    split
    · exact nofun
    · rename_i content hcontent
      refine wp_attempt_of establishes_extractMember fun _ d₁ hd₁ => ?_
      have hsnoc : d₁.outside = false → Extracted tools members (before ++ [record]) d₁ := by
        intro hin₁
        obtain ⟨hrecorded, hadded⟩ := hd₁ hin₁
        refine (hd hadded.inside).snoc ?_ hrecorded hadded
        rw [stored, hcontent, Option.getD_some]
      have hrest := ih hsnoc
      rw [List.append_assoc, List.singleton_append] at hrest
      exact hrest

end Members

/-! ### The other files -/

section Others

variable {tools : ReaderTools}

theorem establishes_put (p : List FileName) (content : Bytes) :
    Establishes (run (.put p content)) d fun ok d' => ok = true → SameFiles [p] d d' := by
  refine fun o => ⟨trivial, fun hok hin => ?_⟩
  obtain ⟨hinside, hnode⟩ := Call.of_put hok hin
  refine ⟨hinside, fun q hq c => ?_⟩
  rw [diskMachine_perform, hnode, Function.update_of_ne (by simpa using hq)]

theorem establishes_writeManifest (fields : List (PyStr × Json)) :
    Establishes (writeManifest tools fields) d fun result d' => ∀ u, result = .ok u →
      SameFiles extraPaths d d' := by
  refine wp_attempt_of (wp_orRaise_of (establishes_put _ _)) fun _ d₁ hd₁ => ?_
  have htouch : Establishes (run (.touch manifestPath)) d₁ fun ok d₂ => ok = true → d₂ = d₁ :=
    fun o => ⟨trivial, fun _ => rfl⟩
  refine wp_mono (wp_orRaise_of htouch) (fun _ h => h) fun result d₂ hd₂ u hu => ?_
  obtain rfl := hd₂ u hu
  exact hd₁.mono (by simp [extraPaths])

theorem establishes_leaveSide (content : Bytes) (side : SideFile) :
    Establishes (leaveSide tools content side) d fun result d' => ∀ u, result = .ok u →
      SameFiles extraPaths d d' := by
  rw [Establishes, leaveSide]
  split
  · exact fun _ _ => .refl d
  · refine wp_mono (wp_orRaise_of (establishes_put _ _)) (fun _ h => h) fun result d' hd' u hu => ?_
    exact (hd' u hu).mono (by cases side <;> simp [extraPaths])

theorem establishes_readDatabase :
    Establishes (readDatabase tools) d fun result d' => ∀ found, result = .ok found →
      SameFiles extraPaths d d' := by
  rw [Establishes, readDatabase, wp_look]
  split
  · exact nofun
  · refine wp_attempt_of (establishes_leaveSide _ _) fun _ d₁ hd₁ => ?_
    refine wp_attempt_of (establishes_leaveSide _ _) fun _ d₂ hd₂ => ?_
    exact fun _ _ => hd₁.trans hd₂

/-- **An archive that is returned was extracted**, and then only extra files were written. -/
theorem establishes_extractArchive {created : CreatedArchive} {staging : DirectoryStatus}
    {currentState : SourceNode} {expectedOwner : ℕ} {archive : ReadArchive}
    (hread : readArchive tools created staging expectedOwner = .ok archive)
    (hd : Extracted tools archive.members [] d) :
    Establishes (extractArchive tools created staging currentState expectedOwner) d fun result d' =>
      ∀ fields, result = .ok fields → d'.outside = false → fields = archive.fields ∧
        ∃ d₁, Extracted tools archive.members archive.records d₁ ∧ SameFiles extraPaths d₁ d' := by
  rw [Establishes, extractArchive, hread]
  refine wp_attempt_of (establishes_extractMembers fun _ => hd) fun _ d₁ hd₁ => ?_
  refine wp_attempt_of establishes_makeTrees fun _ d₂ hd₂ => ?_
  refine wp_attempt_of (establishes_writeManifest _) fun _ d₃ hd₃ => ?_
  have hstaged : Establishes (checkStaged tools archive.fields currentState) d₃ fun result d₄ =>
      ∀ u, result = .ok u → SameFiles extraPaths d₃ d₄ :=
    wp_attempt_of establishes_readDatabase fun _ _ hd₄ _ _ => hd₄
  refine wp_attempt_of hstaged fun _ d₄ hd₄ => ?_
  rintro fields ⟨rfl⟩ hin
  have hsame := ((hd₂.mono (by simp)).trans hd₃).trans hd₄
  exact ⟨rfl, d₁, hd₁ (hsame hin).1, hsame⟩

end Others

end Contents

/-! ### The staging directory -/

/-- **The staging directory**: what it is, and what is in it. -/
structure StagingDirectory where
  status : DirectoryStatus
  tree : Tree FileName UInt8
  isDirectory : status.directory = true → tree.node [] = some .directory
  isEmpty : status.directory = true → status.entries = [] → ∀ p, p ≠ [] → tree.node p = none

/-- A disk on which nothing was done yet. -/
def StagingDirectory.disk (staging : StagingDirectory) : Disk FileName UInt8 := ⟨staging.tree, false⟩

/-- **What a manifest says of a staging directory**: its files below `payload` are regular, at
different paths, and they are the recorded ones, but for those that the engine leaves. -/
structure AsRecorded (tools : ReaderTools) (records : List FileRecord) (t : Tree FileName UInt8) :
    Prop where
  distinct : (records.map fun record => realPath record.path).Nodup
  fixed : ∀ s ∈ fixedSources, codePoints s.1 ∈ records.map FileRecord.path
  extracted : ∀ record ∈ records, ∃ content, t.node (payloadPath record.path) = some (.file content) ∧
    content.length = record.size ∧ tools.sha256 content = record.sha256
  recorded : ∀ q content, t.node (payloadName :: q) = some (.file content) →
    (∃ record ∈ records, q = realPath record.path) ∨ ∃ side : SideFile, payloadName :: q = side.path
  regular : ∀ q, t.node (payloadName :: q) ≠ some .link

section Staging

variable {tools : ReaderTools} {created : CreatedArchive} {staging : StagingDirectory}
variable {expectedOwner : ℕ} {archive : ReadArchive}

theorem readArchive_ok {status : DirectoryStatus}
    (h : readArchive tools created status expectedOwner = .ok archive) :
    status.directory = true ∧ status.entries = [] ∧
      manifestRecords archive.fields = .ok archive.records := by
  rw [readArchive] at h
  simp only [Except.bind_eq_ok, refuseIf_eq_ok, not_not] at h
  obtain ⟨-, -, -, hdirectory, -, hentries, h⟩ := h
  refine ⟨hdirectory, hentries, ?_⟩
  split at h
  · cases h
  · simp only [Except.bind_eq_ok] at h
    obtain ⟨names, -, _, -, h⟩ := h
    split at h
    · simp at h
    · simp only [Except.bind_eq_ok] at h
      obtain ⟨fields, -, records, hrecords, _, -, h⟩ := h
      obtain rfl := Except.ok.inj h
      exact hrecords

theorem mem_extraPaths {p : List FileName} :
    p ∈ extraPaths ↔ p = manifestPath ∨ ∃ side : SideFile, p = side.path := by
  simp only [extraPaths, List.mem_cons, List.not_mem_nil, or_false]
  constructor
  · rintro (rfl | rfl | rfl)
    · exact .inr ⟨_, rfl⟩
    · exact .inr ⟨_, rfl⟩
    · exact .inl rfl
  · rintro (rfl | ⟨side, rfl⟩)
    · exact .inr (.inr rfl)
    · cases side with
      | wal => exact .inr (.inl rfl)
      | shm => exact .inl rfl

/-- A file that may stand in the staging directory. -/
theorem node_of_file {d : Disk FileName UInt8} (hd : d.Confined (Place extraPaths))
    {p : List FileName} {content : Bytes} (hp : d.tree.node p = some (.file content)) :
    p = manifestPath ∨ (∃ q, AllowedPath q ∧ p = payloadName :: q) ∨ ∃ side : SideFile, p = side.path := by
  rcases hd.within p _ hp with hextra | hplace
  · exact (mem_extraPaths.mp hextra).imp_right .inr
  · exact .inr (.inl hplace)

theorem payloadName_cons_ne_manifestPath (q : List FileName) : payloadName :: q ≠ manifestPath := by
  intro h
  exact absurd (List.cons.inj h).1 (by decide)

/-- What is extracted is a payload path, and no extra file. -/
theorem not_mem_extraPaths {records : List FileRecord} (hrecords : CheckedRecords records)
    {record : FileRecord} (hrecord : record ∈ records) : payloadPath record.path ∉ extraPaths := by
  intro hmem
  have hallowed := allowedPath_of_allowed (hrecords.allowed record hrecord)
  rcases mem_extraPaths.mp hmem with hmanifest | ⟨side, hside⟩
  · exact payloadName_cons_ne_manifestPath _ hmanifest
  · refine (strange_side side).2 _ hallowed ?_
    rw [← hside]
    exact List.prefix_refl _

/-- **What was extracted is as it is recorded**, also when the extra files are there. -/
theorem Extracted.asRecorded {members : List ArchiveMember} {records : List FileRecord}
    {d d' : Disk FileName UInt8} (hd : Extracted tools members records d)
    (hrecords : CheckedRecords records) (hconfined : d'.Confined (Place extraPaths))
    (hsame : SameFiles extraPaths d d') : AsRecorded tools records d'.tree where
  distinct := by
    have hdistinct := hd.distinct
    rw [show (fun record : FileRecord => payloadPath record.path) =
      (payloadName :: ·) ∘ fun record => realPath record.path from rfl, ← List.map_map] at hdistinct
    exact hdistinct.of_map _
  fixed := hrecords.fixed
  extracted record hrecord := by
    refine ⟨stored members record, ?_, hd.recorded record hrecord⟩
    rw [(hsame hconfined.outside).2 _ (not_mem_extraPaths hrecords hrecord)]
    exact (hd.files _ _).mpr ⟨record, hrecord, rfl, rfl⟩
  recorded q content hq := by
    by_cases hmem : payloadName :: q ∈ extraPaths
    · exact .inr ((mem_extraPaths.mp hmem).resolve_left (payloadName_cons_ne_manifestPath q))
    · rw [(hsame hconfined.outside).2 _ hmem] at hq
      obtain ⟨record, hrecord, hpath, -⟩ := (hd.files _ _).mp hq
      exact .inl ⟨record, hrecord, (List.cons.inj hpath).2⟩
  regular q hq := hconfined.within _ _ hq

/-- The staging directory of an archive that was read is empty. -/
theorem held_disk (hread : readArchive tools created staging.status expectedOwner = .ok archive) :
    Held [] (staging.disk, True) ∧ Extracted tools archive.members [] staging.disk := by
  obtain ⟨hdirectory, hentries, -⟩ := readArchive_ok hread
  have hroot := staging.isDirectory hdirectory
  have hnone := staging.isEmpty hdirectory hentries
  have hnode : ∀ p n, staging.disk.tree.node p = some n → p = [] ∧ n = .directory := by
    intro p n hp
    by_cases hnil : p = []
    · subst hnil
      rw [show staging.disk.tree.node [] = _ from hroot] at hp
      exact ⟨rfl, (Option.some.inj hp).symm⟩
    · rw [show staging.disk.tree.node p = _ from hnone p hnil] at hp
      cases hp
  refine ⟨⟨trivial, rfl, fun p n hp => ?_⟩, fun q c => ?_, by simp, by simp⟩
  · obtain ⟨rfl, rfl⟩ := hnode p n hp
    exact .inl rfl
  · constructor
    · intro hq
      cases (hnode q _ hq).2
    · simp

/-- **Extraction is confined.** Whatever the archive holds and whichever calls fail, every call
leaves what was there, none goes through a link or up, and every file that is written is in its
place; and if the function returns, the staging directory is as the manifest records it. -/
theorem extractArchive_confined (tools : ReaderTools) (created : CreatedArchive)
    (staging : StagingDirectory) (currentState : SourceNode) (expectedOwner : ℕ)
    (choices : List CallOutcome) :
    let script := extractArchive tools created staging.status currentState expectedOwner
    let ended := script.exec (diskMachine up) choices staging.disk
    (∀ step ∈ script.trace (diskMachine up) choices staging.disk,
      step.2.2.tree.Grows (step.1.effect up step.2.1 step.2.2).2.tree) ∧
    ended.2.outside = false ∧
    (∀ p content, ended.2.tree.node p = some (.file content) →
      staging.tree.node p = some (.file content) ∨ p = manifestPath ∨
        (∃ q, AllowedPath q ∧ p = payloadName :: q) ∨ ∃ side : SideFile, p = side.path) ∧
    ∀ fields, ended.1 = some (.ok fields) →
      ∃ records, manifestRecords fields = .ok records ∧ AsRecorded tools records ended.2.tree := by
  intro script ended
  cases hread : readArchive tools created staging.status expectedOwner with
  | error e =>
    -- nothing is written
    have hscript : script = done (.error e) := by
      simp only [script, extractArchive, hread]
    have hended : ended = (some (.error e), staging.disk) := by
      simp only [ended, hscript]
      rfl
    rw [hended, hscript]
    exact ⟨nofun, rfl, fun _ _ hp => .inl hp, nofun⟩
  | ok archive =>
    obtain ⟨hheld, hempty⟩ := held_disk hread
    have hrecords := (readArchive_ok hread).2.2
    have hchecked := checkedRecords_of_ok hrecords
    have hended : Held extraPaths (script.exec stagingMachine choices (staging.disk, True)).2 :=
      exec_of_wp_anyway (wp_extractArchive hread hchecked hheld) (hheld.mono (by simp)) choices
    have hmet := ((exec_watch_met _ _ script choices (staging.disk, True)).mp hended.1).2
    obtain ⟨-, hsame⟩ := exec_watch (diskMachine up) _ script choices (staging.disk, True)
    have hconfined : ended.2.Confined (Place extraPaths) := hsame ▸ hended.2
    refine ⟨hmet, hconfined.outside, fun p content hp => .inr (node_of_file hconfined hp), ?_⟩
    intro fields hfields
    obtain ⟨rfl, d₁, hextracted, hfiles⟩ := (exec_of_wp (establishes_extractArchive hread hempty)
      trivial choices).2 _ _ (Prod.ext hfields rfl) fields rfl hconfined.outside
    exact ⟨archive.records, hrecords, hextracted.asRecorded hchecked hconfined hfiles⟩

end Staging

/-! ### The archive of an installation with one certificate -/

namespace SampleBackup

/-- The tools of the installation, with an engine whose database is in the WAL mode: an empty log and
an index of 32 KiB stay beside it. -/
def readerTools : ReaderTools where
  toBackupTools := tools certificate
  dumps _ := manifestBytes (manifest certificate)
  sides _ side :=
    match side with
    | .wal => some []
    | .shm => some (List.replicate 32768 0)

/-- The archive of the installation. -/
def created : CreatedArchive where
  archive := ⟨(request certificate).archive, [1, 2, 3], 0, 0o600⟩
  checksum := ⟨checksumName (request certificate).archive,
    (checksumLine (tools certificate) (request certificate).archive [1, 2, 3]).map UInt8.ofNat, 0, 0o600⟩

/-- An empty staging directory. -/
def emptyStaging : StagingDirectory where
  status := staging
  tree := {
    node := fun p => if p = [] then some .directory else none
    paths := [[]]
    mem_paths := by
      intro p hp
      by_cases hnil : p = []
      · simp [hnil]
      · simp [hnil] at hp
    closed := by
      intro p hp
      by_cases hnil : p = []
      · simp [hnil]
      · simp [hnil] at hp }
  isDirectory _ := rfl
  isEmpty _ _ p hp := if_neg hp

/-- The extraction of the archive, without failures. -/
def ended : Option (Except BackupError (List (PyStr × Json))) × Disk FileName UInt8 :=
  (extractArchive readerTools created emptyStaging.status (.file []) 0).exec (diskMachine up)
    (List.replicate 100 .ok) emptyStaging.disk

/-- A run returns, and an empty log is left that no record names. -/
def logLeft (run : Option (Except BackupError (List (PyStr × Json))) × Disk FileName UInt8) : Bool :=
  match run with
  | (some (.ok fields), d) =>
    match manifestRecords fields with
    | .ok records =>
      decide (d.tree.node SideFile.wal.path = some (.file [])) &&
        records.all fun record => payloadPath record.path ≠ SideFile.wal.path
    | .error _ => false
  | _ => false

theorem of_logLeft {run : Option (Except BackupError (List (PyStr × Json))) × Disk FileName UInt8}
    (h : logLeft run = true) :
    ∃ fields records, run.1 = some (.ok fields) ∧ manifestRecords fields = .ok records ∧
      run.2.tree.node SideFile.wal.path = some (.file []) ∧
      ∀ record ∈ records, payloadPath record.path ≠ SideFile.wal.path := by
  obtain ⟨_ | _ | fields, d⟩ := run
  · cases h
  · cases h
  · rw [logLeft] at h
    cases hrecords : manifestRecords fields with
    | error e =>
      rw [hrecords] at h
      cases h
    | ok records =>
      rw [hrecords, Bool.and_eq_true, decide_eq_true_eq, List.all_eq_true] at h
      exact ⟨fields, records, rfl, hrecords, h.1, fun record hrecord =>
        of_decide_eq_true (h.2 record hrecord)⟩

end SampleBackup

open SampleBackup in
/-- **A staging directory with more than its records.** The archive is extracted, and beside the
staged database there is a file that no record names, in no place for a payload. -/
theorem engine_file_left :
    (∃ fields records, ended.1 = some (.ok fields) ∧ manifestRecords fields = .ok records ∧
      ended.2.tree.node SideFile.wal.path = some (.file []) ∧
      ∀ record ∈ records, payloadPath record.path ≠ SideFile.wal.path) ∧
      SideFile.wal.path ≠ manifestPath ∧ ∀ q, AllowedPath q → SideFile.wal.path ≠ payloadName :: q := by
  refine ⟨of_logLeft (by decide +kernel), payloadName_cons_ne_manifestPath _, fun q hq heq => ?_⟩
  have hpre : SideFile.wal.path <+: payloadName :: q := by rw [heq]
  exact (strange_side .wal).2 q hq hpre

end EzOpenPN
