import EzOpenPN.Installer.BackupArchive

/-!
# What is checked of a manifest

The manifest of an archive is JSON that anyone may have written. `_parse_manifest` and
`_manifest_records` of `backup_archive.py` are to refuse whatever is not a manifest, with an
`ArchiveError`, which is the exception that the command reports as a rejected archive; and what they
return satisfies `EzOpenPN.CheckedRecords`.

Two kinds of text get through to another exception. An integer of too many digits makes `json.loads`
raise a `ValueError` that is no `JSONDecodeError`; and the schema version is looked up in a frozen set
before its type is known, so that an array or an object in its place is a `TypeError`.
-/

namespace EzOpenPN

variable (tools : BackupTools)

/-- `_manifest_records(_parse_manifest(raw))`. -/
def readManifest (raw : Bytes) : Except BackupError (List FileRecord) := do
  let fields ← parseManifest tools raw
  manifestRecords fields

/-- **What is checked of the records.** -/
structure CheckedRecords (records : List FileRecord) : Prop where
  valid : ∀ record ∈ records, validatedMemberName record.path = .ok ()
  allowed : ∀ record ∈ records, allowedPayloadPath record.path = true
  digest : ∀ record ∈ records, isDigest record.sha256 = true
  size : ∀ record ∈ records, record.size ≤ maxFileSize
  distinct : (records.map FileRecord.path).Nodup
  sorted : records.map FileRecord.path = (records.map FileRecord.path).insertionSort (· ≤ ·)
  fixed : ∀ s ∈ fixedSources, codePoints s.1 ∈ records.map FileRecord.path

/-- An answer, or an `ArchiveError`. -/
def Refuses {α : Type} (P : α → Prop) : Except BackupError α → Prop
  | .ok a => P a
  | .error (.archiveError _ _) => True
  | .error _ => False

/-- **The text is refused or its records are checked**, and no other exception is raised. -/
def CleanlyRead (raw : Bytes) : Prop := Refuses CheckedRecords (readManifest tools raw)

/-- The texts that get through to another exception: those that the reader of JSON does not take for
malformed, and a manifest with an array or an object for its schema version. -/
structure Escapes (raw : Bytes) : Prop where
  size : raw.length ≤ maxManifestSize
  raises : tools.loads raw = .error .other ∨
    ∃ fields, tools.loads raw = .ok (.dict fields) ∧ hasKeys manifestKeys fields = true ∧
      isText (field fields "application") (codePoints "EzOpenPN") = true ∧
      isOne (field fields "format") = true ∧
      isText (field fields "quick_check") (codePoints "ok") = true ∧
      ∃ version, field fields "schema_version" = some version ∧ version.hashable = false

/-! ### Records -/

section Records

variable {raw : List Json} {fields : List (PyStr × Json)} {records before : List FileRecord}

/-- What is checked of one record. -/
def Checked (record : FileRecord) : Prop :=
  validatedMemberName record.path = .ok () ∧ allowedPayloadPath record.path = true ∧
    isDigest record.sha256 = true ∧ record.size ≤ maxFileSize

@[simp] theorem refuses_refuse {α : Type} {P : α → Prop} {message : String} :
    Refuses P (refuse message) := trivial

theorem refuses_raiseIf {condition : Prop} [Decidable condition] {message : String}
    {α : Type} {P : α → Prop} {rest : Except BackupError α}
    (h : ¬condition → Refuses P rest) : Refuses P (do refuseIf condition message; rest) := by
  by_cases hc : condition
  · rw [refuseIf, raiseIf, if_pos hc]
    exact trivial
  · rw [refuseIf, raiseIf, if_neg hc]
    exact h hc

theorem refuses_validatedMemberName {name : PyStr} {α : Type} {P : α → Prop}
    {rest : Except BackupError α} (h : validatedMemberName name = .ok () → Refuses P rest) :
    Refuses P (do validatedMemberName name; rest) := by
  cases hname : validatedMemberName name with
  | ok u => exact h hname
  | error e =>
    rw [validatedMemberName] at hname
    split at hname
    · obtain rfl := Except.error.inj hname
      exact trivial
    · split at hname
      · obtain rfl := Except.error.inj hname
        exact trivial
      · cases hname

/-- **The loop over the records refuses, or checks them all.** -/
theorem refuses_manifestRecordsFrom (hbefore : ∀ record ∈ before, Checked record)
    (hdistinct : (before.map FileRecord.path).Nodup) :
    Refuses (fun records => (∀ record ∈ records, Checked record) ∧
      (records.map FileRecord.path).Nodup) (manifestRecordsFrom raw before) := by
  induction raw generalizing before with
  | nil => exact ⟨hbefore, hdistinct⟩
  | cons value rest ih =>
    cases value with
    | dict fields =>
      rw [manifestRecordsFrom]
      split
      · exact trivial
      · split
        · rename_i path digest size _ _ _
          refine refuses_raiseIf fun hmetadata => refuses_validatedMemberName fun hvalid =>
            refuses_raiseIf fun hexpected => ?_
          simp only [not_or, not_not] at hmetadata hexpected
          refine ih (fun record hrecord => ?_) ?_
          · rcases List.mem_append.mp hrecord with hrecord | hrecord
            · exact hbefore record hrecord
            · obtain rfl := List.mem_singleton.mp hrecord
              refine ⟨hvalid, hexpected.1, hmetadata.1, ?_⟩
              have := hmetadata.2
              dsimp only
              omega
          · rw [List.map_append, List.map_singleton, List.nodup_append]
            refine ⟨hdistinct, List.nodup_singleton _, fun a ha b hb => ?_⟩
            obtain rfl := List.mem_singleton.mp hb
            rintro rfl
            exact hexpected.2 ha
        · exact trivial
    | _ => exact trivial

/-- **`_manifest_records` refuses, or checks the records.** -/
theorem refuses_manifestRecords : Refuses CheckedRecords (manifestRecords fields) := by
  rw [manifestRecords]
  split
  · rename_i raw _
    split
    · exact trivial
    · have hfrom : Refuses _ (manifestRecordsFrom raw []) :=
        refuses_manifestRecordsFrom (by simp) (by simp)
      cases hrecords : manifestRecordsFrom raw [] with
      | error e =>
        rw [hrecords] at hfrom
        cases e with
        | archiveError message name => exact trivial
        | osError => exact hfrom
        | other => exact hfrom
      | ok records =>
        rw [hrecords] at hfrom
        refine refuses_raiseIf fun hsorted => refuses_raiseIf fun hfixed => ?_
        rw [not_not] at hsorted hfixed
        exact ⟨fun r hr => (hfrom.1 r hr).1, fun r hr => (hfrom.1 r hr).2.1,
          fun r hr => (hfrom.1 r hr).2.2.1, fun r hr => (hfrom.1 r hr).2.2.2, hfrom.2, hsorted, hfixed⟩
  · exact trivial

theorem checkedRecords_of_ok (h : manifestRecords fields = .ok records) :
    CheckedRecords records := by
  have := @refuses_manifestRecords fields
  rw [h] at this
  exact this

end Records

/-! ### The whole manifest -/

section Manifest

variable {tools} {raw : Bytes}

/-- What a text that gets through raises. -/
theorem parseManifest_of_escapes (h : Escapes tools raw) : parseManifest tools raw = .error .other := by
  rw [parseManifest, if_neg (Nat.not_lt.mpr h.size)]
  rcases h.raises with hother | ⟨fields, hloads, hkeys, happlication, hformat, hquick, version,
    hversion, hhashable⟩
  · rw [hother]
  · rw [hloads]
    simp [hkeys, happlication, hformat, hquick, hversion, hhashable]

/-- **`_parse_manifest` refuses every other text**, or gives its fields. -/
theorem refuses_parseManifest (h : ¬Escapes tools raw) :
    Refuses (fun _ => True) (parseManifest tools raw) := by
  rw [parseManifest]
  split
  · exact trivial
  · rename_i hsize
    have hraises := fun hraises => h ⟨Nat.not_lt.mp hsize, hraises⟩
    split
    · exact trivial
    · rename_i hother
      exact hraises (.inl hother)
    · rename_i fields hloads
      split
      · exact trivial
      · rename_i hkeys
        split
        · exact trivial
        · rename_i hvalues
          simp only [not_or, not_not] at hkeys hvalues
          split
          · rename_i hhashable
            obtain ⟨version, hversion, hfalse⟩ := (Option.any_eq_true _ _).mp hhashable
            exact hraises (.inr ⟨fields, hloads, hkeys, hvalues.1, hvalues.2.1, hvalues.2.2, version,
              hversion, by simpa using hfalse⟩)
          · split
            · split
              · exact trivial
              · exact trivial
            · exact trivial
    · exact trivial

end Manifest

/-- **When a manifest is read cleanly**: exactly if its text does not get through. -/
theorem cleanlyRead_iff (raw : Bytes) : CleanlyRead tools raw ↔ ¬Escapes tools raw := by
  rw [CleanlyRead, readManifest]
  constructor
  · intro hread hescapes
    rw [parseManifest_of_escapes hescapes] at hread
    exact hread
  · intro hescapes
    have hparse := refuses_parseManifest hescapes
    cases hfields : parseManifest tools raw with
    | ok fields => exact refuses_manifestRecords
    | error e =>
      rw [hfields] at hparse
      cases e with
      | archiveError message name => exact trivial
      | osError => exact hparse
      | other => exact hparse

/-- A manifest with an array for its schema version. -/
def arrayManifest : String :=
  "\x7b\"application\":\"EzOpenPN\",\"created_at\":\"\",\"files\":[],\"format\":1," ++
    "\"public_ipv4\":\"\",\"quick_check\":\"ok\",\"schema_version\":[],\"version\":\"\"\x7d"

/-- Its fields. -/
def arrayFields : List (PyStr × Json) :=
  [(codePoints "application", .str (codePoints "EzOpenPN")), (codePoints "created_at", .str []),
    (codePoints "files", .list []), (codePoints "format", .int 1), (codePoints "public_ipv4", .str []),
    (codePoints "quick_check", .str (codePoints "ok")), (codePoints "schema_version", .list []),
    (codePoints "version", .str [])]

/-- What `json.loads` reads of it; other texts play no role. -/
def arrayTools : BackupTools where
  sha256 _ := []
  pack _ := []
  unpack _ := none
  loads raw :=
    if raw = asciiBytes arrayManifest then .ok (.dict arrayFields) else .error .malformed
  loadsText _ := .error .malformed
  sqlite _ := none

/-- **A manifest that is not refused**: its reader raises another exception. -/
theorem array_manifest_escapes :
    readManifest arrayTools (asciiBytes arrayManifest) = .error .other ∧
      ¬CleanlyRead arrayTools (asciiBytes arrayManifest) := by
  have hescapes : Escapes arrayTools (asciiBytes arrayManifest) := by
    have hloads : arrayTools.loads (asciiBytes arrayManifest) = .ok (.dict arrayFields) := by
      simp only [arrayTools, if_true]
    refine ⟨by decide +kernel, .inr ⟨arrayFields, hloads, ?_⟩⟩
    exact ⟨by decide, by decide, by decide, by decide, .list [], rfl, rfl⟩
  have hread : readManifest arrayTools (asciiBytes arrayManifest) = .error .other := by
    rw [readManifest, parseManifest_of_escapes hescapes]
    rfl
  refine ⟨hread, ?_⟩
  rw [CleanlyRead, hread]
  exact id

end EzOpenPN
