import EzOpenPN.Installer.BackupArchive

/-!
# What can be restored

The writer and the reader of an archive check limits of their own. `EzOpenPN.Restorable` is what
has to be true of an installation for the reader to accept what the writer made of it, beyond what
the writer checks: paths that are short enough and hold no backslash, a manifest of at most a
mebibyte, a total that leaves room for the manifest, and an archive name that its checksum file can
hold. It is exact (`EzOpenPN.restore_iff`): an archive that was created is accepted, and gives back
every file as it was, if and only if that is the case.

The proof follows the reader. What it finds in the archive is known from what the writer staged
(`EzOpenPN.Staged`), so that each of its checks is either settled by a check of the writer or is one
of the conditions.
-/

namespace EzOpenPN

/-! ### Paths of names -/

instance (path : PyStr) : Decidable (IsRelative path) :=
  inferInstanceAs (Decidable (∀ part ∈ path.splitOn slash, part ≠ [] ∧ part ≠ codePoints "." ∧
    part ≠ codePoints ".."))

section Paths

variable {path p q : PyStr}

/-- One path below another. -/
theorem IsRelative.append (hp : IsRelative p) (hq : IsRelative q) : IsRelative (p ++ slash :: q) := by
  intro part hpart
  rw [List.splitOn_append_cons_self] at hpart
  rcases List.mem_append.mp hpart with h | h
  · exact hp part h
  · exact hq part h

theorem IsRelative.posixParts_eq (h : IsRelative path) : posixParts path = path.splitOn slash := by
  rw [posixParts, List.filter_eq_self]
  intro part hpart
  exact decide_eq_true ⟨(h part hpart).1, (h part hpart).2.1⟩

/-- A path of names is normal. -/
theorem IsRelative.asPosix_eq (h : IsRelative path) : asPosix path = path := by
  rw [asPosix, h.posixParts_eq, List.intercalate_splitOn]

theorem IsRelative.ne_nil (h : IsRelative path) : path ≠ [] := by
  rintro rfl
  exact (h [] (by simp)).1 rfl

theorem IsRelative.not_absolute (h : IsRelative path) : ¬codePoints "/" <+: path := by
  rintro ⟨rest, rfl⟩
  have hsplit : (codePoints "/" ++ rest).splitOn slash = [] :: rest.splitOn slash :=
    List.splitOn_append_cons_self_of_not_mem List.not_mem_nil rest
  exact (h [] (by rw [hsplit]; simp)).1 rfl

/-- **A path of names is refused for its length or a backslash only.** -/
theorem IsRelative.validatedMemberName_eq_ok (h : IsRelative path) :
    validatedMemberName path = .ok () ↔ path.length ≤ 512 ∧ 92 ∉ path := by
  have hparts : (posixParts path).any (fun part => part ∈ ["", ".", ".."].map codePoints) = false := by
    rw [h.posixParts_eq, List.any_eq_false]
    intro part hpart
    obtain ⟨h1, h2, h3⟩ := h part hpart
    have hempty : codePoints "" = [] := by decide
    simp [h1, h2, h3, hempty]
  have hback : codePoints "\\" <:+: path ↔ 92 ∈ path := by
    change [92] <:+: path ↔ _
    constructor
    · rintro ⟨s, t, rfl⟩
      simp
    · intro hmem
      obtain ⟨s, t, rfl⟩ := List.append_of_mem hmem
      exact ⟨s, t, by simp⟩
  rw [validatedMemberName]
  by_cases hbad : path = [] ∨ 512 < path.length ∨ codePoints "\\" <:+: path ∨ codePoints "/" <+: path
  · rw [if_pos hbad, refuse_ne_ok, false_iff]
    rintro ⟨hlen, hno⟩
    rcases hbad with hb | hb | hb | hb
    · exact h.ne_nil hb
    · omega
    · exact hno (hback.mp hb)
    · exact h.not_absolute hb
  · rw [if_neg hbad, hparts]
    simp only [Bool.false_eq_true, if_false, true_iff]
    refine ⟨Nat.le_of_not_lt fun hlen => hbad (Or.inr (Or.inl hlen)), fun hmem => ?_⟩
    exact hbad (Or.inr (Or.inr (Or.inl (hback.mpr hmem))))

theorem Clear.symm (h : Clear p q) : Clear q p := ⟨h.2, h.1⟩

theorem Clear.ne (h : Clear p q) : p ≠ q := by
  rintro rfl
  exact h.1 (List.prefix_refl _)

/-- A path of names does not end in a slash. -/
theorem IsRelative.rstripSlash_eq (h : IsRelative path) (pre : PyStr) :
    rstripSlash (pre ++ path) = pre ++ path := by
  rw [rstripSlash, List.rdropWhile_eq_self_iff]
  intro hne hlast
  obtain ⟨c, rest, rfl⟩ : ∃ c rest, path = rest ++ [c] :=
    ⟨path.getLast h.ne_nil, path.dropLast, (List.dropLast_append_getLast h.ne_nil).symm⟩
  obtain rfl : c = slash := by simpa [← List.append_assoc] using hlast
  have hempty : [] ∈ (rest ++ [slash]).splitOn slash := by
    rw [List.splitOn_append_cons_self]
    simp
  exact (h [] hempty).1 rfl

end Paths

/-- The fixed names are paths of names. -/
theorem isRelative_fixed : ∀ s ∈ fixedSources, IsRelative (codePoints s.1) := by decide

theorem isRelative_trees : ∀ s ∈ treeSources, IsRelative (codePoints s.1) := by decide

/-! ### The files of an installation -/

/-- The content of a regular file. -/
def SourceNode.bytes : SourceNode → Bytes
  | .file content => content
  | _ => []

/-- The regular files among some entries. -/
def regularFiles (entries : List TreeEntry) : Payload :=
  entries.filterMap fun entry =>
    match entry.node with
    | .file content => some (entry.relative, content)
    | _ => none

namespace BackupRequest

variable (request : BackupRequest)

/-- The files at some fixed sources, by their names in the archive. -/
def fixedFiles (sources : List (String × Option String)) : Payload :=
  sources.map fun s => (codePoints s.1, (request.source s.2).bytes)

/-- The files of some trees, by their names in the archive. -/
def treesFiles (sources : List (String × String)) : Payload :=
  sources.flatMap fun s =>
    (regularFiles ((request.root.tree s.2).getD [])).map fun e => (treeName s.1 e.1, e.2)

/-- **The files a backup is to hold**, by their names in the archive. -/
def files : Payload := request.fixedFiles fixedSources ++ request.treesFiles treeSources

end BackupRequest

/-- **What copying keeps true of the staged files**: no one is in the way of another, and each is
within its limit. -/
structure Staging (payload : Payload) : Prop where
  clear : payload.Pairwise fun a b => Clear a.1 b.1
  encodable : ∀ entry ∈ payload, Encodable entry.1
  size_le : ∀ entry ∈ payload, entry.2.length ≤ maxFileSize

theorem regularStatus_eq_ok {name : PyStr} {node : SourceNode} {content : Bytes} :
    regularStatus name node = .ok content ↔ node = .file content ∧ content.length ≤ maxFileSize := by
  cases node with
  | missing => simp [regularStatus]
  | other => simp [regularStatus]
  | file c =>
    rw [regularStatus]
    split
    · rename_i h
      simp only [reduceCtorEq, false_iff, SourceNode.file.injEq, not_and]
      rintro rfl
      omega
    · rename_i h
      simp only [Except.ok.injEq, SourceNode.file.injEq]
      refine ⟨?_, And.left⟩
      rintro rfl
      exact ⟨rfl, by omega⟩

theorem createExclusive_eq_ok {payload payload' : Payload} {path : PyStr} {content : Bytes} :
    createExclusive payload path content = .ok payload' ↔
      Encodable path ∧ (∀ entry ∈ payload, Clear entry.1 path) ∧
        payload ++ [(path, content)] = payload' := by
  rw [createExclusive]
  by_cases he : Encodable path
  · rw [if_neg (not_not_intro he), and_iff_right he]
    by_cases h : ∀ entry ∈ payload, Clear entry.1 path
    · rw [if_pos h, Except.ok.injEq, and_iff_right h]
    · rw [if_neg h]
      exact ⟨nofun, fun hc => absurd hc.1 h⟩
  · rw [if_pos he]
    exact ⟨nofun, fun hc => absurd hc.1 he⟩

section Copying

variable {request : BackupRequest} {payload payload' : Payload}

theorem safeCopy_ok {name destination : PyStr} {node : SourceNode}
    (h : safeCopy payload name node destination = .ok payload') (hs : Staging payload) :
    payload' = payload ++ [(destination, node.bytes)] ∧ Staging payload' ∧
      node = .file node.bytes := by
  rw [safeCopy, Except.bind_eq_ok] at h
  obtain ⟨content, hstatus, h⟩ := h
  obtain ⟨rfl, hsize⟩ := regularStatus_eq_ok.mp hstatus
  obtain ⟨hencodable, hclear, rfl⟩ := createExclusive_eq_ok.mp h
  refine ⟨rfl, ⟨List.pairwise_append.mpr ⟨hs.clear, by simp, ?_⟩, ?_, ?_⟩, rfl⟩
  · intro a ha b hb
    rw [List.mem_singleton.mp hb]
    exact hclear a ha
  · intro entry hentry
    rcases List.mem_append.mp hentry with he | he
    · exact hs.encodable entry he
    · rw [List.mem_singleton.mp he]
      exact hencodable
  · intro entry hentry
    rcases List.mem_append.mp hentry with he | he
    · exact hs.size_le entry he
    · rw [List.mem_singleton.mp he]
      exact hsize

theorem copyFixed_ok {sources : List (String × Option String)}
    (h : request.copyFixed sources payload = .ok payload') (hs : Staging payload) :
    payload' = payload ++ request.fixedFiles sources ∧ Staging payload' ∧
      ∀ s ∈ sources, request.source s.2 = .file (request.source s.2).bytes := by
  induction sources generalizing payload with
  | nil =>
    obtain rfl := Except.ok.inj h
    exact ⟨(List.append_nil _).symm, hs, by simp⟩
  | cons s rest ih =>
    obtain ⟨archiveName, sourceName⟩ := s
    rw [BackupRequest.copyFixed, Except.bind_eq_ok] at h
    obtain ⟨middle, hcopy, h⟩ := h
    obtain ⟨rfl, hs, hfile⟩ := safeCopy_ok hcopy hs
    obtain ⟨rfl, hs, hfiles⟩ := ih h hs
    exact ⟨List.append_assoc _ _ _, hs, List.forall_mem_cons.mpr ⟨hfile, hfiles⟩⟩

theorem treeFilesFrom_ok {entries : List TreeEntry} {files : Payload}
    (h : treeFilesFrom entries = .ok files) : files = regularFiles entries := by
  induction entries generalizing files with
  | nil => exact (Except.ok.inj h).symm
  | cons entry rest ih =>
    rw [treeFilesFrom] at h
    rw [regularFiles, List.filterMap_cons]
    cases hnode : entry.node with
    | directory =>
      rw [hnode] at h
      exact ih h
    | other =>
      rw [hnode] at h
      cases h
    | file content =>
      rw [hnode, Except.bind_eq_ok] at h
      obtain ⟨content', hstatus, h⟩ := h
      obtain ⟨hcontent, -⟩ := regularStatus_eq_ok.mp hstatus
      obtain rfl := SourceNode.file.inj hcontent
      obtain ⟨others, hothers, h⟩ := Except.bind_eq_ok.mp h
      obtain rfl := Except.ok.inj h
      rw [ih hothers, regularFiles]

theorem copyTree_ok {archivePrefix : String} {files : Payload}
    (h : BackupRequest.copyTree archivePrefix files payload = .ok payload') (hs : Staging payload) :
    payload' = payload ++ files.map (fun e => (BackupRequest.treeName archivePrefix e.1, e.2)) ∧
      Staging payload' := by
  induction files generalizing payload with
  | nil =>
    obtain rfl := Except.ok.inj h
    exact ⟨(List.append_nil _).symm, hs⟩
  | cons e rest ih =>
    obtain ⟨relative, content⟩ := e
    rw [BackupRequest.copyTree, Except.bind_eq_ok] at h
    obtain ⟨middle, hcopy, h⟩ := h
    obtain ⟨rfl, hs, -⟩ := safeCopy_ok hcopy hs
    obtain ⟨rfl, hs⟩ := ih h hs
    exact ⟨List.append_assoc _ _ _, hs⟩

theorem treesFiles_cons (archivePrefix sourceName : String) (rest : List (String × String)) :
    request.treesFiles ((archivePrefix, sourceName) :: rest) =
      (regularFiles ((request.root.tree sourceName).getD [])).map
        (fun e => (BackupRequest.treeName archivePrefix e.1, e.2)) ++ request.treesFiles rest :=
  List.flatMap_cons

theorem copyTrees_ok {sources : List (String × String)}
    (h : request.copyTrees sources payload = .ok payload') (hs : Staging payload) :
    payload' = payload ++ request.treesFiles sources ∧ Staging payload' := by
  induction sources generalizing payload with
  | nil =>
    obtain rfl := Except.ok.inj h
    exact ⟨(List.append_nil _).symm, hs⟩
  | cons s rest ih =>
    obtain ⟨archivePrefix, sourceName⟩ := s
    rw [BackupRequest.copyTrees, Except.bind_eq_ok] at h
    obtain ⟨files, hfiles, h⟩ := h
    obtain ⟨middle, hcopy, h⟩ := Except.bind_eq_ok.mp h
    obtain ⟨rfl, hs⟩ := copyTree_ok hcopy hs
    obtain ⟨rfl, hs⟩ := ih h hs
    refine ⟨?_, hs⟩
    cases htree : request.root.tree sourceName with
    | none =>
      rw [htree] at hfiles
      cases hfiles
    | some entries =>
      rw [htree] at hfiles
      rw [treesFiles_cons, htree, treeFilesFrom_ok hfiles, List.append_assoc, Option.getD_some]

/-- **The staged files are the files of the installation.** -/
theorem staged_ok (h : request.staged = .ok payload) :
    payload = request.files ∧ Staging payload ∧
      ∀ s ∈ fixedSources, request.source s.2 = .file (request.source s.2).bytes := by
  rw [BackupRequest.staged, Except.bind_eq_ok] at h
  obtain ⟨fixed, hfixed, h⟩ := h
  obtain ⟨rfl, hs, hfiles⟩ := copyFixed_ok hfixed ⟨List.Pairwise.nil, by simp, by simp⟩
  obtain ⟨rfl, hs⟩ := copyTrees_ok h hs
  exact ⟨rfl, hs, hfiles⟩

end Copying

/-- The paths of an installation are paths of names. -/
theorem isRelative_of_mem_files {request : BackupRequest} {file : PyStr × Bytes}
    (h : file ∈ request.files) : IsRelative file.1 := by
  rcases List.mem_append.mp h with h | h
  · obtain ⟨s, hs, rfl⟩ := List.mem_map.mp h
    exact isRelative_fixed s hs
  · obtain ⟨s, hs, h⟩ := List.mem_flatMap.mp h
    obtain ⟨e, he, rfl⟩ := List.mem_map.mp h
    obtain ⟨entry, -, hentry⟩ := List.mem_filterMap.mp he
    cases hnode : entry.node with
    | directory => simp [hnode] at hentry
    | other => simp [hnode] at hentry
    | file content =>
      rw [hnode, Option.some.injEq] at hentry
      obtain rfl := hentry
      exact (isRelative_trees s hs).append entry.relative_valid

/-- The reader expects the paths of an installation. -/
theorem allowed_of_mem_files {request : BackupRequest} {file : PyStr × Bytes}
    (h : file ∈ request.files) : allowedPayloadPath file.1 = true := by
  rw [allowedPayloadPath, (isRelative_of_mem_files h).asPosix_eq, Bool.or_eq_true]
  rcases List.mem_append.mp h with h | h
  · obtain ⟨s, hs, rfl⟩ := List.mem_map.mp h
    exact Or.inl (decide_eq_true (List.mem_map_of_mem hs))
  · obtain ⟨s, hs, h⟩ := List.mem_flatMap.mp h
    obtain ⟨e, -, rfl⟩ := List.mem_map.mp h
    refine Or.inr (List.any_eq_true.mpr ⟨s, hs, ?_⟩)
    rw [List.isPrefixOf_iff_prefix]
    exact ⟨e.1, by simp [BackupRequest.treeName]⟩

/-! ### The checksum file -/

/-- **A name that the checksum file can hold**: it is ASCII, a text that is read does not change
it, and its line has at most 1024 bytes. -/
structure NameFits (name : PyStr) : Prop where
  length_le : name.length ≤ 957
  plain : ∀ c ∈ name, c < 128 ∧ c ≠ 13

instance (name : PyStr) : Decidable (NameFits name) :=
  decidable_of_iff (name.length ≤ 957 ∧ ∀ c ∈ name, c < 128 ∧ c ≠ 13)
    ⟨fun h => ⟨h.1, h.2⟩, fun h => ⟨h.1, h.2⟩⟩

theorem not_mem_universalNewlines (s : PyStr) : 13 ∉ universalNewlines s := by
  induction s using universalNewlines.induct with
  | case1 rest ih => simp [universalNewlines, ih]
  | case2 rest _ ih => simp_all [universalNewlines]
  | case3 c rest hcr hc ih =>
    have hne : (13 : ℕ) ≠ c := fun h => hc h.symm
    simp_all [universalNewlines]
  | case4 => simp [universalNewlines]

/-- A text is read as it was written if it holds no carriage return. -/
theorem universalNewlines_eq_self {s : PyStr} : universalNewlines s = s ↔ 13 ∉ s := by
  refine ⟨fun h => h ▸ not_mem_universalNewlines s, ?_⟩
  intro hs
  induction s using universalNewlines.induct with
  | case1 rest => simp at hs
  | case2 rest => simp at hs
  | case3 c rest hcr hc ih =>
    rw [universalNewlines, ih fun h => hs (by simp [h])]
    · exact fun _ h _ => hc h
    · exact hc
  | case4 => rfl

/-- The bytes of an ASCII text. -/
theorem encodeUtf8_of_ascii {s : PyStr} {line : Bytes} (h : encodeUtf8 s = some line)
    (hs : ∀ c ∈ s, c < 128) : line.map UInt8.toNat = s := by
  rw [encodeUtf8] at h
  split at h
  · rename_i hvalid
    obtain rfl := Option.some.inj h
    clear h
    induction s with
    | nil => rfl
    | cons c s ih =>
      have hc : c < 128 := hs c (by simp)
      have hnat : (Char.ofNat c).toNat = c := toNat_ofNat_of_isValidChar (hvalid c (by simp))
      rw [List.flatMap_cons, utf8EncodeChar_of_lt (by omega), hnat, List.singleton_append,
        List.map_cons, ih (fun d hd => hs d (by simp [hd])) (fun d hd => hvalid d (by simp [hd])),
        UInt8.toNat_ofNat', Nat.mod_eq_of_lt (by omega)]
  · cases h

/-- **What is read as ASCII is what was written** exactly if the text is ASCII and holds no
carriage return. -/
theorem readAscii_eq_some {s : PyStr} {line : Bytes} (h : encodeUtf8 s = some line) :
    readAscii line = some s ↔ ∀ c ∈ s, c < 128 ∧ c ≠ 13 := by
  constructor
  · intro hread
    rw [readAscii] at hread
    split at hread
    · rename_i hall
      have hlow : ∀ c ∈ s, c < 128 := by
        intro c hc
        by_contra hge
        rw [encodeUtf8] at h
        split at h
        · rename_i hvalid
          obtain rfl := Option.some.inj h
          have hnat := toNat_ofNat_of_isValidChar (hvalid c hc)
          obtain ⟨b, hb, hhigh⟩ := exists_high_byte (c := Char.ofNat c) (by omega)
          have hlt := List.all_eq_true.mp hall b (List.mem_flatMap.mpr ⟨c, hc, hb⟩)
          have : b.toNat < 128 := of_decide_eq_true hlt
          omega
        · cases h
      rw [encodeUtf8_of_ascii h hlow, Option.some.injEq, universalNewlines_eq_self] at hread
      exact fun c hc => ⟨hlow c hc, fun h13 => hread (h13 ▸ hc)⟩
    · cases hread
  · intro hs
    have hmap := encodeUtf8_of_ascii h fun c hc => (hs c hc).1
    have hall : line.all (fun b => b.toNat < 128) = true := by
      rw [List.all_eq_true]
      intro b hb
      exact decide_eq_true (hs b.toNat (hmap ▸ List.mem_map_of_mem hb)).1
    rw [readAscii, if_pos hall, hmap, universalNewlines_eq_self.mpr fun h13 => (hs 13 h13).2 rfl]

section Checksum

variable {tools : BackupTools} {name : PyStr} {content line : Bytes}

theorem digest_plain {digest : PyStr} (h : isDigest digest = true) :
    digest.length = 64 ∧ ∀ c ∈ digest, c ∈ codePoints "0123456789abcdef" := by
  rw [isDigest, Bool.and_eq_true, List.all_eq_true] at h
  exact ⟨of_decide_eq_true h.1, fun c hc => of_decide_eq_true (h.2 c hc)⟩

theorem length_checksumLine (hdigest : isDigest (tools.sha256 content) = true) :
    (checksumLine tools name content).length = name.length + 67 := by
  have hspaces : (codePoints "  ").length = 2 := by decide
  have hnewline : (codePoints "\n").length = 1 := by decide
  rw [checksumLine, List.length_append, List.length_append, List.length_append, hspaces, hnewline,
    (digest_plain hdigest).1]
  omega

/-- Apart from the name a line of the checksum file is plain. -/
theorem checksumLine_plain (hdigest : isDigest (tools.sha256 content) = true) :
    (∀ c ∈ checksumLine tools name content, c < 128 ∧ c ≠ 13) ↔ ∀ c ∈ name, c < 128 ∧ c ≠ 13 := by
  have hhex : ∀ c ∈ codePoints "0123456789abcdef", c < 128 ∧ c ≠ 13 := by decide
  have hspaces : ∀ c ∈ codePoints "  ", c < 128 ∧ c ≠ 13 := by decide
  have hnewline : ∀ c ∈ codePoints "\n", c < 128 ∧ c ≠ 13 := by decide
  rw [checksumLine]
  constructor
  · intro h c hc
    exact h c (by simp [hc])
  · intro h c hc
    rw [List.mem_append, List.mem_append, List.mem_append] at hc
    rcases hc with ((hc | hc) | hc) | hc
    · exact hhex c ((digest_plain hdigest).2 c hc)
    · exact hspaces c hc
    · exact h c hc
    · exact hnewline c hc

/-- **The reader accepts the checksum file** exactly if the name of the archive fits it. -/
theorem validateArchiveFile_eq_ok {euid : ℕ} (hdigest : isDigest (tools.sha256 content) = true)
    (hline : encodeUtf8 (checksumLine tools name content) = some line)
    (hsize : content.length ≤ maxFileSize) :
    validateArchiveFile tools ⟨⟨name, content, euid, 0o600⟩,
      ⟨checksumName name, line, euid, 0o600⟩⟩ euid = .ok () ↔ NameFits name := by
  have hlen : (∀ c ∈ name, c < 128 ∧ c ≠ 13) → line.length = name.length + 67 := by
    intro hname
    have hplain : ∀ c ∈ checksumLine tools name content, c < 128 ∧ c ≠ 13 :=
      (checksumLine_plain hdigest).mpr hname
    rw [← length_checksumLine hdigest, ← encodeUtf8_of_ascii hline fun c hc => (hplain c hc).1,
      List.length_map]
  have hread : validateArchiveFile tools ⟨⟨name, content, euid, 0o600⟩,
      ⟨checksumName name, line, euid, 0o600⟩⟩ euid = .ok () ↔
      line.length ≤ 1024 ∧ readAscii line = some (checksumLine tools name content) := by
    simp only [validateArchiveFile, Except.bind_eq_ok, refuseIf_eq_ok, regularStatus_eq_ok,
      SourceNode.file.injEq, ne_eq, not_true_eq_false, false_or, not_lt]
    constructor
    · rintro ⟨c, ⟨rfl, -⟩, -, -, l, ⟨rfl, -⟩, -, hle, h⟩
      refine ⟨hle, ?_⟩
      cases hr : readAscii line with
      | none => simp [hr] at h
      | some value =>
        rw [hr] at h
        simpa using h
    · rintro ⟨hle, hr⟩
      refine ⟨content, ⟨rfl, hsize⟩, (), not_false, line, ⟨rfl, ?_⟩, (), hle, ?_⟩
      · exact hle.trans (by decide)
      · simp [hr]
  rw [hread, readAscii_eq_some hline, checksumLine_plain hdigest]
  constructor
  · rintro ⟨hle, hname⟩
    rw [hlen hname] at hle
    exact ⟨by omega, hname⟩
  · rintro ⟨hle, hname⟩
    rw [hlen hname]
    exact ⟨by omega, hname⟩

end Checksum

/-! ### The members -/

/-- The member a file is packed as. -/
def memberOf (file : PyStr × Bytes) : ArchiveMember := ⟨file.1, true, file.2.length, file.2⟩

/-- **The reader accepts the members** exactly if it accepts their names and their total. -/
theorem scanMembers_eq_ok {files : Payload} {count total : ℕ} {names names' : List PyStr}
    (hcount : count + files.length ≤ maxMembers)
    (hsize : ∀ file ∈ files, file.2.length ≤ maxFileSize) (hnodup : (files.map Prod.fst).Nodup)
    (hfresh : ∀ file ∈ files, file.1 ∉ names) (htotal : total ≤ maxTotalSize) :
    scanMembers (files.map memberOf) count names total = .ok names' ↔
      (∀ file ∈ files, validatedMemberName file.1 = .ok ()) ∧
        total + totalSize files ≤ maxTotalSize ∧
        (files.map Prod.fst).reverse ++ names = names' := by
  induction files generalizing count total names with
  | nil => simp [scanMembers, totalSize, htotal]
  | cons file rest ih =>
    rw [List.length_cons] at hcount
    rw [List.map_cons, List.nodup_cons] at hnodup
    have hsum : totalSize (file :: rest) = file.2.length + totalSize rest := rfl
    have hfile := hsize file (by simp)
    have hnew := hfresh file (by simp)
    rw [List.map_cons, scanMembers]
    simp only [Except.bind_eq_ok, refuseIf_eq_ok]
    simp only [memberOf]
    have hnext : total + file.2.length ≤ maxTotalSize →
        (scanMembers (rest.map memberOf) (count + 1) (file.1 :: names)
            ((total : ℤ) + (file.2.length : ℤ)) = .ok names' ↔
          (∀ file ∈ rest, validatedMemberName file.1 = .ok ()) ∧
            total + file.2.length + totalSize rest ≤ maxTotalSize ∧
            (rest.map Prod.fst).reverse ++ file.1 :: names = names') := by
      intro hle
      rw [← Int.natCast_add]
      refine ih (by omega) (fun f hf => hsize f (by simp [hf])) hnodup.2 ?_ hle
      intro f hf hmem
      rcases List.mem_cons.mp hmem with heq | hmem
      · exact hnodup.1 (heq ▸ List.mem_map_of_mem hf)
      · exact hfresh f (by simp [hf]) hmem
    constructor
    · rintro ⟨_, -, _, hname, _, -, _, -, _, hle, hrest⟩
      obtain ⟨hnames, hsumle, heq⟩ := (hnext (by omega)).mp hrest
      refine ⟨?_, by omega, by simpa using heq⟩
      intro f hf
      rcases List.mem_cons.mp hf with rfl | hf
      · exact hname
      · exact hnames f hf
    · rintro ⟨hnames, hle, heq⟩
      refine ⟨(), by omega, (), hnames file (by simp), (), by simp [hnew], (), by omega, (), by omega,
        (hnext (by omega)).mpr ⟨fun f hf => hnames f (by simp [hf]), by omega, by simpa using heq⟩⟩

theorem memberContent_eq_some {files : Payload} (hnodup : (files.map Prod.fst).Nodup)
    {file : PyStr × Bytes} (hfile : file ∈ files) (hstrip : rstripSlash file.1 = file.1) :
    memberContent (files.map memberOf) file.1 = some file.2 := by
  have hmem : memberOf file ∈ (files.map memberOf).reverse := by
    rw [List.mem_reverse]
    exact List.mem_map_of_mem hfile
  cases hfind : (files.map memberOf).reverse.find? (fun m => m.name = file.1) with
  | none =>
    have := List.find?_eq_none.mp hfind _ hmem
    simp [memberOf] at this
  | some m =>
    have hname : m.name = file.1 := by simpa using List.find?_some hfind
    have hm := List.mem_of_find?_eq_some hfind
    rw [List.mem_reverse] at hm
    obtain ⟨other, hother, rfl⟩ := List.mem_map.mp hm
    -- the names are those of one file each
    obtain rfl : other = file := List.inj_on_of_nodup_map hnodup hother hfile hname
    rw [memberContent, hstrip, hfind]
    rfl

/-! ### The manifest -/

section Reading

variable {tools : BackupTools} {manifest : Manifest} {fields : List (PyStr × Json)}

/-- **The reader accepts the manifest** exactly if it is within its limit. -/
theorem parseManifest_eq_ok
    (hloads : tools.loads (manifestBytes manifest) = .ok manifest.toJson)
    (hquick : manifest.quickCheck = codePoints "ok")
    (hschema : manifest.schemaVersion ∈ supportedSchemaVersions.map codePoints) :
    parseManifest tools ((manifestBytes manifest).take (maxManifestSize + 1)) = .ok fields ↔
      (manifestBytes manifest).length ≤ maxManifestSize ∧ manifest.fields = fields := by
  rw [parseManifest, List.length_take]
  by_cases hlen : (manifestBytes manifest).length ≤ maxManifestSize
  · have hkeys : hasKeys manifestKeys manifest.fields = true := rfl
    have happlication : isText (field manifest.fields "application") (codePoints "EzOpenPN") = true :=
      rfl
    have hformat : isOne (field manifest.fields "format") = true := rfl
    have hok : isText (field manifest.fields "quick_check") (codePoints "ok") = true :=
      decide_eq_true hquick
    have hhashable : ((field manifest.fields "schema_version").any (!·.hashable)) = false := rfl
    rw [if_neg (by omega), List.take_of_length_le (by omega), hloads]
    simp only [Manifest.toJson, hkeys, happlication, hformat, hok, hhashable, and_iff_right hlen,
      not_true_eq_false, or_self, if_false, Bool.false_eq_true]
    change (if _ then Except.ok manifest.fields else _) = _ ↔ _
    rw [if_pos hschema, Except.ok.injEq]
  · rw [if_pos (by omega), refuse_ne_ok, false_iff]
    exact fun h => hlen h.1

/-- **The reader accepts the records** exactly if it accepts their paths. -/
theorem manifestRecordsFrom_eq_ok {files : Payload} {before records : List FileRecord}
    (hdigest : ∀ content, isDigest (tools.sha256 content) = true)
    (hsize : ∀ file ∈ files, file.2.length ≤ maxFileSize) (hnodup : (files.map Prod.fst).Nodup)
    (hfresh : ∀ file ∈ files, file.1 ∉ before.map FileRecord.path)
    (hallowed : ∀ file ∈ files, allowedPayloadPath file.1 = true) :
    manifestRecordsFrom ((files.map (fileRecord tools)).map FileRecord.toJson) before = .ok records ↔
      (∀ file ∈ files, validatedMemberName file.1 = .ok ()) ∧
        before ++ files.map (fileRecord tools) = records := by
  induction files generalizing before with
  | nil => simp [manifestRecordsFrom]
  | cons file rest ih =>
    rw [List.map_cons, List.nodup_cons] at hnodup
    have hfile := hsize file (by simp)
    have hok := hallowed file (by simp)
    have hnew := hfresh file (by simp)
    have hstep : manifestRecordsFrom
        (((file :: rest).map (fileRecord tools)).map FileRecord.toJson) before = (do
          refuseIf (¬isDigest (tools.sha256 file.2) ∨ (file.2.length : ℤ) < 0 ∨
            (maxFileSize : ℤ) < file.2.length) "manifest file metadata is invalid"
          validatedMemberName file.1
          refuseIf (¬allowedPayloadPath file.1 ∨ file.1 ∈ before.map FileRecord.path)
            "manifest contains an unexpected file"
          manifestRecordsFrom ((rest.map (fileRecord tools)).map FileRecord.toJson)
            (before ++ [fileRecord tools file])) := rfl
    have hrest := @ih (before ++ [fileRecord tools file]) (fun f hf => hsize f (by simp [hf]))
      hnodup.2 (by
        intro f hf hmem
        rw [List.map_append, List.mem_append] at hmem
        rcases hmem with hmem | hmem
        · exact hfresh f (by simp [hf]) hmem
        · have heq : f.1 = file.1 := by simpa [fileRecord] using hmem
          exact hnodup.1 (heq ▸ List.mem_map_of_mem hf))
      (fun f hf => hallowed f (by simp [hf]))
    rw [hstep]
    simp only [Except.bind_eq_ok, refuseIf_eq_ok, hrest]
    constructor
    · rintro ⟨_, -, _, hname, _, -, hnames, heq⟩
      exact ⟨List.forall_mem_cons.mpr ⟨hname, hnames⟩, by simpa using heq⟩
    · rintro ⟨hnames, heq⟩
      obtain ⟨hname, hnames⟩ := List.forall_mem_cons.mp hnames
      refine ⟨(), ?_, (), hname, (), by simp [hok, hnew], hnames, by simpa using heq⟩
      rw [hdigest file.2]
      simp only [not_true_eq_false, false_or]
      omega

/-- The records of a sorted payload that holds the fixed files. -/
theorem manifestRecords_eq_ok {files : Payload} {records : List FileRecord}
    (hfiles : manifest.files = files.map (fileRecord tools))
    (hdigest : ∀ content, isDigest (tools.sha256 content) = true)
    (hcount : files.length ≤ maxMembers - 1)
    (hsize : ∀ file ∈ files, file.2.length ≤ maxFileSize) (hnodup : (files.map Prod.fst).Nodup)
    (hallowed : ∀ file ∈ files, allowedPayloadPath file.1 = true)
    (hsorted : files.Pairwise fun a b => a.1 ≤ b.1)
    (hfixed : ∀ source ∈ fixedSources, codePoints source.1 ∈ files.map Prod.fst) :
    manifestRecords manifest.fields = .ok records ↔
      (∀ file ∈ files, validatedMemberName file.1 = .ok ()) ∧
        files.map (fileRecord tools) = records := by
  have hpaths : (files.map (fileRecord tools)).map FileRecord.path = files.map Prod.fst := by
    rw [List.map_map]
    rfl
  have hfield : field manifest.fields "files" =
      some (.list (manifest.files.map FileRecord.toJson)) := rfl
  have hlen : ¬maxMembers - 1 < (manifest.files.map FileRecord.toJson).length := by
    rw [hfiles, List.length_map, List.length_map]
    omega
  have hfrom : ∀ r, manifestRecordsFrom ((files.map (fileRecord tools)).map FileRecord.toJson) [] =
      .ok r ↔ (∀ file ∈ files, validatedMemberName file.1 = .ok ()) ∧
        files.map (fileRecord tools) = r :=
    fun r => manifestRecordsFrom_eq_ok hdigest hsize hnodup (fun _ _ => List.not_mem_nil) hallowed
  rw [manifestRecords, hfield]
  simp only [if_neg hlen, Except.bind_eq_ok, refuseIf_eq_ok]
  rw [hfiles]
  simp only [hfrom]
  constructor
  · rintro ⟨r, ⟨hnames, rfl⟩, -, -, -, -, h⟩
    exact ⟨hnames, Except.ok.inj h⟩
  · rintro ⟨hnames, rfl⟩
    refine ⟨_, ⟨hnames, rfl⟩, (), ?_, (), ?_, rfl⟩
    · rw [hpaths, List.Pairwise.insertionSort_eq (List.pairwise_map.mpr hsorted)]
      exact fun h => h rfl
    · rw [hpaths]
      exact fun h => h hfixed

/-! ### Extraction -/

/-- **What is extracted is what was packed.** -/
theorem extractRecords_eq {packed files before : Payload}
    (hnodup : (packed.map Prod.fst).Nodup)
    (hpacked : ∀ file ∈ files, (codePoints "payload/" ++ file.1, file.2) ∈ packed)
    (hsize : ∀ file ∈ files, file.2.length ≤ maxFileSize)
    (hclear : (before ++ files).Pairwise fun a b => Clear a.1 b.1)
    (hrelative : ∀ file ∈ files, IsRelative file.1) (hencodable : ∀ file ∈ files, Encodable file.1) :
    extractRecords tools (packed.map memberOf) (files.map (fileRecord tools)) before =
      .ok (before ++ files) := by
  induction files generalizing before with
  | nil => rw [List.map_nil, extractRecords, List.append_nil]
  | cons file rest ih =>
    have hcontent := memberContent_eq_some hnodup (hpacked file (by simp))
      ((hrelative file (by simp)).rstripSlash_eq _)
    have hfree : ∀ entry ∈ before, Clear entry.1 file.1 := by
      intro entry hentry
      exact (List.pairwise_append.mp hclear).2.2 entry hentry file (by simp)
    have hextract : safeExtractMember tools before file.2 (fileRecord tools file) =
        .ok (before ++ [file]) := by
      rw [safeExtractMember, Except.bind_eq_ok]
      refine ⟨before ++ [file], createExclusive_eq_ok.mpr ⟨hencodable file (by simp), hfree, rfl⟩, ?_⟩
      have hle := hsize file (by simp)
      rw [Except.bind_eq_ok]
      refine ⟨(), refuseIf_eq_ok.mpr ?_, Except.bind_eq_ok.mpr ⟨(), refuseIf_eq_ok.mpr ?_, rfl⟩⟩
      · rintro (h | h)
        · exact lt_irrefl _ h
        · omega
      · rintro (h | h)
        · exact h rfl
        · exact h rfl
    have hassoc : before ++ file :: rest = before ++ [file] ++ rest := by simp
    rw [hassoc] at hclear ⊢
    rw [List.map_cons, extractRecords]
    simp only [fileRecord] at hcontent ⊢
    rw [hcontent]
    refine Except.bind_eq_ok.mpr ⟨before ++ [file], hextract, ?_⟩
    exact ih (fun f hf => hpacked f (by simp [hf])) (fun f hf => hsize f (by simp [hf])) hclear
      (fun f hf => hrelative f (by simp [hf])) fun f hf => hencodable f (by simp [hf])

theorem nodup_of_clear {payload : Payload} (h : payload.Pairwise fun a b => Clear a.1 b.1) :
    (payload.map Prod.fst).Nodup :=
  List.pairwise_map.mpr (h.imp Clear.ne)

theorem payloadFile_eq_ok {payload : Payload} (h : (payload.map Prod.fst).Nodup) {name : String}
    {content : Bytes} :
    payloadFile payload name = .ok content ↔ (codePoints name, content) ∈ payload := by
  rw [payloadFile]
  cases hfind : payload.find? fun entry => entry.1 = codePoints name with
  | none =>
    simp only [reduceCtorEq, false_iff]
    intro hmem
    have := List.find?_eq_none.mp hfind _ hmem
    simp at this
  | some entry =>
    have hname : entry.1 = codePoints name := by simpa using List.find?_some hfind
    have hentry := List.mem_of_find?_eq_some hfind
    simp only [Except.ok.injEq]
    constructor
    · rintro rfl
      rw [← hname]
      exact hentry
    · intro hmem
      have heq := List.inj_on_of_nodup_map h hentry hmem hname
      rw [heq]

theorem databaseMetadata_ok {content : Bytes} {quick schema : PyStr}
    (h : databaseMetadata tools content = .ok (quick, schema)) :
    quick = codePoints "ok" ∧ schema ∈ supportedSchemaVersions.map codePoints := by
  rw [databaseMetadata] at h
  split at h
  · simp at h
  · split at h
    · simp at h
    · split at h
      · split at h
        · simp only [Except.ok.injEq, Prod.mk.injEq] at h
          obtain ⟨rfl, rfl⟩ := h
          exact ⟨rfl, by assumption⟩
        · simp at h
      · simp at h

end Reading

/-! ### The size of a manifest -/

/-- The length of the record of a file: its path, its size, and a digest of 64 characters. -/
def recordSize (file : PyStr × Bytes) : ℕ :=
  strSize file.1 + (Nat.toDigits 10 file.2.length).length + 93

/-- **The length of a manifest**, from what is described in it. -/
def manifestSize (files : Payload) (createdAt version publicIpv4 : PyStr) : ℕ :=
  (files.map recordSize).sum + (files.length - 1) + strSize createdAt + strSize version +
    strSize publicIpv4 + 140

theorem strSize_digest {digest : PyStr} (h : isDigest digest = true) : strSize digest = 66 := by
  have hhex : ∀ c ∈ codePoints "0123456789abcdef", (escapeChar c).length = 1 := by decide
  obtain ⟨hlen, hmem⟩ := digest_plain h
  have hones : digest.map (fun c => (escapeChar c).length) = digest.map fun _ => 1 :=
    List.map_congr_left fun c hc => hhex c (hmem c hc)
  rw [strSize, hones, List.map_const', List.sum_replicate_nat, hlen]

theorem length_intercalate_singleton (sep : Char) (parts : List (List Char)) :
    ([sep].intercalate parts).length = (parts.map List.length).sum + (parts.length - 1) := by
  induction parts with
  | nil => rfl
  | cons part rest ih =>
    cases rest with
    | nil => simp [List.intercalate]
    | cons next rest =>
      have hcons : [sep].intercalate (part :: next :: rest) =
          part ++ [sep] ++ [sep].intercalate (next :: rest) := by
        simp [List.intercalate]
      rw [hcons, List.length_append, List.length_append, ih]
      simp only [List.map_cons, List.sum_cons, List.length_cons, List.length_nil]
      omega

section Size

variable {tools : BackupTools}

theorem length_recordText (hdigest : ∀ content, isDigest (tools.sha256 content) = true)
    (file : PyStr × Bytes) : (fileRecord tools file).text.length = recordSize file := by
  have h1 : "\x7b\"path\":".toList.length = 8 := by decide
  have h2 : ",\"sha256\":".toList.length = 10 := by decide
  have h3 : ",\"size\":".toList.length = 8 := by decide
  delta FileRecord.text
  simp only [fileRecord, List.length_append, length_dumpsStr, h1, h2, h3,
    strSize_digest (hdigest file.2), List.length_singleton, recordSize]
  omega

theorem length_manifestBytes {manifest : Manifest} {files : Payload}
    (hdigest : ∀ content, isDigest (tools.sha256 content) = true)
    (hfiles : manifest.files = files.map (fileRecord tools))
    (hquick : manifest.quickCheck = codePoints "ok")
    (hschema : manifest.schemaVersion ∈ supportedSchemaVersions.map codePoints) :
    (manifestBytes manifest).length =
      manifestSize files manifest.createdAt manifest.version manifest.publicIpv4 := by
  have h1 : "\x7b\"application\":\"EzOpenPN\",\"created_at\":".toList.length = 39 := by decide
  have h2 : ",\"files\":[".toList.length = 10 := by decide
  have h3 : "],\"format\":1,\"public_ipv4\":".toList.length = 27 := by decide
  have h4 : ",\"quick_check\":".toList.length = 15 := by decide
  have h5 : ",\"schema_version\":".toList.length = 18 := by decide
  have h6 : ",\"version\":".toList.length = 11 := by decide
  have hok : strSize manifest.quickCheck = 4 := by
    rw [hquick]
    decide
  have hversion : strSize manifest.schemaVersion = 14 := by
    have hone : ∀ s ∈ supportedSchemaVersions.map codePoints, strSize s = 14 := by decide
    exact hone _ hschema
  have hrecords : (manifest.files.map FileRecord.text).map List.length = files.map recordSize := by
    rw [hfiles, List.map_map, List.map_map]
    exact List.map_congr_left fun file _ => length_recordText hdigest file
  have hcount : (manifest.files.map FileRecord.text).length = files.length := by
    rw [hfiles, List.length_map, List.length_map]
  rw [manifestBytes, List.length_map]
  delta Manifest.text
  simp only [List.length_append, length_dumpsStr, h1, h2, h3, h4, h5, h6, hok, hversion,
    length_intercalate_singleton, hrecords, hcount, List.length_singleton, manifestSize]
  omega

theorem manifestSize_perm {files files' : Payload} (h : files.Perm files')
    (createdAt version publicIpv4 : PyStr) :
    manifestSize files createdAt version publicIpv4 =
      manifestSize files' createdAt version publicIpv4 := by
  rw [manifestSize, manifestSize, (h.map recordSize).sum_nat, h.length_eq]

end Size

/-! ### The archive that was created -/

section Created

variable {tools : BackupTools} {request : BackupRequest} {created : CreatedArchive}
  {payload : Payload} {manifest : Manifest}

/-- The file of the state of an installation. -/
def stateFile : String := "var/lib/ezopenpn/install.json"

theorem sortedFiles_perm (payload : Payload) : (sortedFiles payload).Perm payload :=
  List.perm_insertionSort _ _

/-- **What is known of an archive that was created.** -/
structure Created (tools : BackupTools) (request : BackupRequest) (created : CreatedArchive)
    (payload : Payload) (manifest : Manifest) : Prop where
  staged : request.staged = .ok payload
  total_le : totalSize payload ≤ maxTotalSize
  count_le : payload.length ≤ maxMembers - 1
  manifest_for : manifestFor tools request payload = .ok manifest
  manifest_le : (manifestBytes manifest).length ≤ maxFileSize
  content_le : (tools.pack (packedFiles manifest payload)).length ≤ maxFileSize
  files : ∃ line, encodeUtf8 (checksumLine tools request.archive
      (tools.pack (packedFiles manifest payload))) = some line ∧
    created = ⟨⟨request.archive, tools.pack (packedFiles manifest payload), request.euid, 0o600⟩,
      ⟨checksumName request.archive, line, request.euid, 0o600⟩⟩

theorem createArchive_ok (h : createArchive tools request = .ok created) :
    ∃ payload manifest, Created tools request created payload manifest := by
  simp only [createArchive, Except.bind_eq_ok, refuseIf_eq_ok, raiseIf_eq_ok, not_or, not_lt] at h
  obtain ⟨_, -, _, -, _, -, payload, hstaged, _, ⟨htotal, hcount⟩, manifest, hmanifest, _, -,
    raw, hraw, h⟩ := h
  obtain ⟨rfl, hle⟩ : manifestBytes manifest = raw ∧ _ := by
    simpa using regularStatus_eq_ok.mp hraw
  rw [writeChecksum] at h
  split at h
  · cases h
  · split at h
    · simp at h
    · rename_i hsize
      split at h
      · cases h
      · rename_i line hline
        exact ⟨payload, manifest, hstaged, htotal, hcount, hmanifest, hle, by omega, line, hline,
          (Except.ok.inj h).symm⟩

/-- What the manifest is made from. -/
theorem manifestFor_ok (h : manifestFor tools request payload = .ok manifest) :
    ∃ database state,
      payloadFile payload "database/ezopenpn.sqlite3" = .ok database ∧
      databaseMetadata tools database = .ok (manifest.quickCheck, manifest.schemaVersion) ∧
      payloadFile payload "state/install.json" = .ok state ∧
      loadInstallState tools state = .ok (manifest.version, manifest.publicIpv4) ∧
      manifest.createdAt = request.createdAt ∧
      manifest.files = (sortedFiles payload).map (fileRecord tools) := by
  simp only [manifestFor, Except.bind_eq_ok] at h
  obtain ⟨database, hdatabase, ⟨quick, schema⟩, hmeta, state, hstate, ⟨version, ip⟩, hload, h⟩ := h
  obtain rfl := Except.ok.inj h
  exact ⟨database, state, hdatabase, hmeta, hstate, hload, rfl, rfl⟩

variable (h : Created tools request created payload manifest)

include h

theorem Created.nodup : ((sortedFiles payload).map Prod.fst).Nodup :=
  ((sortedFiles_perm payload).map _).nodup_iff.mpr
    (nodup_of_clear (staged_ok h.staged).2.1.clear)

theorem Created.clear : (sortedFiles payload).Pairwise fun a b => Clear a.1 b.1 :=
  (sortedFiles_perm payload).symm.pairwise (staged_ok h.staged).2.1.clear fun hc => Clear.symm hc

theorem Created.mem_iff {file : PyStr × Bytes} :
    file ∈ sortedFiles payload ↔ file ∈ request.files := by
  rw [(sortedFiles_perm payload).mem_iff, (staged_ok h.staged).1]

theorem Created.size_le : ∀ file ∈ sortedFiles payload, file.2.length ≤ maxFileSize := by
  intro file hfile
  exact (staged_ok h.staged).2.1.size_le file ((sortedFiles_perm payload).mem_iff.mp hfile)

theorem Created.encodable : ∀ file ∈ sortedFiles payload, Encodable file.1 := by
  intro file hfile
  exact (staged_ok h.staged).2.1.encodable file ((sortedFiles_perm payload).mem_iff.mp hfile)

theorem Created.fixed : ∀ s ∈ fixedSources,
    (codePoints s.1, (request.source s.2).bytes) ∈ sortedFiles payload := by
  intro s hs
  rw [h.mem_iff]
  exact List.mem_append_left _ (List.mem_map.mpr ⟨s, hs, rfl⟩)

/-- The state of the installation is one of the files. -/
theorem Created.payloadFile_state {state : Bytes}
    (hstate : payloadFile payload "state/install.json" = .ok state) :
    request.root.file stateFile = .file state ∧ state.length ≤ maxFileSize := by
  have hnodup := nodup_of_clear (staged_ok h.staged).2.1.clear
  have hsource : ("state/install.json", some stateFile) ∈ fixedSources := by decide
  have hmem := (sortedFiles_perm payload).mem_iff.mp (h.fixed _ hsource)
  have hbytes : state = (request.root.file stateFile).bytes := by
    have hother := (payloadFile_eq_ok hnodup).mpr hmem
    exact Except.ok.inj (hstate.symm.trans hother)
  have hfile := (staged_ok h.staged).2.2 _ hsource
  refine ⟨?_, ?_⟩
  · rw [hbytes]
    exact hfile
  · rw [hbytes]
    exact (staged_ok h.staged).2.1.size_le _ hmem

/-- **The last checks pass**, with the state of the same installation. -/
theorem Created.checkIdentity_ok :
    checkIdentity tools manifest.fields (sortedFiles payload) (request.root.file stateFile) =
      .ok () := by
  obtain ⟨database, state, hdatabase, hmeta, hstate, hload, -, -⟩ := manifestFor_ok h.manifest_for
  obtain ⟨hroot, hsize⟩ := h.payloadFile_state hstate
  have hnodup := nodup_of_clear (staged_ok h.staged).2.1.clear
  have hsame : ∀ {name content}, payloadFile payload name = .ok content →
      payloadFile (sortedFiles payload) name = .ok content := by
    intro name content hfile
    rw [payloadFile_eq_ok h.nodup, (sortedFiles_perm payload).mem_iff]
    exact (payloadFile_eq_ok hnodup).mp hfile
  have htext : ∀ s : PyStr, isText (some (.str s)) s = true := fun s => decide_eq_true rfl
  simp only [checkIdentity, Except.bind_eq_ok, refuseIf_eq_ok, regularStatus_eq_ok]
  refine ⟨database, hsame hdatabase, _, hmeta, (), ?_, state, hsame hstate, _, hload, state,
    ⟨hroot, hsize⟩, _, hload, ?_⟩
  · rintro (hne | hne)
    · exact hne (htext _)
    · exact hne (htext _)
  · rintro (hne | hne | hne | hne)
    · exact hne (htext _)
    · exact hne (htext _)
    · exact hne rfl
    · exact hne rfl

theorem Created.packed_nodup : ((packedFiles manifest payload).map Prod.fst).Nodup := by
  rw [packedFiles, List.map_cons, List.nodup_cons, List.map_map]
  constructor
  · intro hmem
    obtain ⟨file, -, heq⟩ := List.mem_map.mp hmem
    -- the names differ in their first letter
    have hhead : (some 112 : Option ℕ) = some 109 := congrArg List.head? heq
    cases hhead
  · have hmap : (sortedFiles payload).map (Prod.fst ∘ fun file : PyStr × Bytes =>
        (codePoints "payload/" ++ file.1, file.2)) =
        ((sortedFiles payload).map Prod.fst).map (codePoints "payload/" ++ ·) := by
      rw [List.map_map]
      rfl
    rw [hmap]
    exact h.nodup.map (List.append_right_injective _)

theorem Created.packed_size_le : ∀ file ∈ packedFiles manifest payload,
    file.2.length ≤ maxFileSize := by
  intro file hfile
  rcases List.mem_cons.mp hfile with rfl | hfile
  · exact h.manifest_le
  · obtain ⟨entry, hentry, rfl⟩ := List.mem_map.mp hfile
    exact h.size_le entry hentry

omit h in
theorem totalSize_packedFiles : totalSize (packedFiles manifest payload) =
    (manifestBytes manifest).length + totalSize payload := by
  have hmap : ((sortedFiles payload).map fun file : PyStr × Bytes =>
      (codePoints "payload/" ++ file.1, file.2)).map (fun file => file.2.length) =
      (sortedFiles payload).map fun file => file.2.length := by
    rw [List.map_map]
    rfl
  rw [totalSize, packedFiles, List.map_cons, List.sum_cons, hmap,
    ((sortedFiles_perm payload).map _).sum_nat, totalSize]

/-- **What the reader checks** of an archive that was created, and what it then answers. -/
theorem Created.validateAndExtract_eq_ok {staging : DirectoryStatus}
    {result : List (PyStr × Json) × Payload}
    (hdigest : ∀ content, isDigest (tools.sha256 content) = true)
    (hunpack : tools.unpack (tools.pack (packedFiles manifest payload)) =
      some ((packedFiles manifest payload).map memberOf))
    (hloads : tools.loads (manifestBytes manifest) = .ok manifest.toJson)
    (hdirectory : staging.directory = true) (hempty : staging.entries = []) :
    validateAndExtract tools created staging (request.root.file stateFile) request.euid =
        .ok result ↔
      NameFits request.archive ∧
        (∀ file ∈ packedFiles manifest payload, validatedMemberName file.1 = .ok ()) ∧
        (manifestBytes manifest).length + totalSize payload ≤ maxTotalSize ∧
        (manifestBytes manifest).length ≤ maxManifestSize ∧
        (∀ file ∈ sortedFiles payload, validatedMemberName file.1 = .ok ()) ∧
        (manifest.fields, sortedFiles payload) = result := by
  obtain ⟨line, hline, rfl⟩ := h.files
  obtain ⟨database, -, -, hmeta, -, -, -, hfiles⟩ := manifestFor_ok h.manifest_for
  obtain ⟨hquick, hschema⟩ := databaseMetadata_ok hmeta
  have hlen : (sortedFiles payload).length = payload.length := (sortedFiles_perm payload).length_eq
  have hscan : ∀ names, scanMembers ((packedFiles manifest payload).map memberOf) 0 [] 0 =
      .ok names ↔ _ := fun names =>
    @scanMembers_eq_ok (packedFiles manifest payload) 0 0 [] names
      (by
        have := h.count_le
        have : maxMembers = 10000 := rfl
        rw [packedFiles, List.length_cons, List.length_map, hlen]
        omega)
      h.packed_size_le h.packed_nodup (fun _ _ => List.not_mem_nil) (Nat.zero_le _)
  have hrecords : ∀ records, manifestRecords manifest.fields = .ok records ↔ _ := fun records =>
    @manifestRecords_eq_ok tools manifest (sortedFiles payload) records hfiles hdigest
      (hlen ▸ h.count_le) h.size_le h.nodup
      (fun file hfile => allowed_of_mem_files (h.mem_iff.mp hfile))
      (List.pairwise_insertionSort _ _)
      (fun s hs => List.mem_map_of_mem (h.fixed s hs))
  have hstrip : rstripSlash (codePoints "manifest.json") = codePoints "manifest.json" := by decide
  have hmanifest : memberContent ((packedFiles manifest payload).map memberOf)
      (codePoints "manifest.json") = some (manifestBytes manifest) :=
    memberContent_eq_some h.packed_nodup List.mem_cons_self hstrip
  have hextract : extractRecords tools ((packedFiles manifest payload).map memberOf)
      ((sortedFiles payload).map (fileRecord tools)) [] = .ok (sortedFiles payload) :=
    extractRecords_eq h.packed_nodup
      (fun file hfile => List.mem_cons_of_mem _ (List.mem_map.mpr ⟨file, hfile, rfl⟩))
      h.size_le h.clear (fun file hfile => isRelative_of_mem_files (h.mem_iff.mp hfile)) h.encodable
  have hnames : codePoints "manifest.json" :: ((sortedFiles payload).map (fileRecord tools)).map
      (fun record => codePoints "payload/" ++ record.path) =
      (packedFiles manifest payload).map Prod.fst := by
    rw [packedFiles, List.map_cons, List.map_map, List.map_map]
    rfl
  rw [validateAndExtract, hunpack, Except.bind_eq_ok]
  simp only [hmanifest, Except.bind_eq_ok, refuseIf_eq_ok,
    validateArchiveFile_eq_ok (hdigest _) hline h.content_le, hscan,
    parseManifest_eq_ok hloads hquick hschema]
  constructor
  · rintro ⟨_, hname, _, -, _, -, names, ⟨hmembers, htotal, -⟩, _, -, _, ⟨hsize, rfl⟩, records, hrec,
      _, -, extracted, hext, _, -, hresult⟩
    obtain ⟨hpaths, rfl⟩ := (hrecords records).mp hrec
    rw [hextract] at hext
    obtain rfl := Except.ok.inj hext
    rw [Nat.zero_add, totalSize_packedFiles] at htotal
    exact ⟨hname, hmembers, htotal, hsize, hpaths, Except.ok.inj hresult⟩
  · rintro ⟨hname, hmembers, htotal, hsize, hpaths, rfl⟩
    refine ⟨(), hname, (), not_not.mpr hdirectory, (), not_not.mpr hempty, _, ⟨hmembers, ?_, rfl⟩, (),
      ?_, _, ⟨hsize, rfl⟩, _, (hrecords _).mpr ⟨hpaths, rfl⟩, (), ?_, _, hextract, (),
      h.checkIdentity_ok, rfl⟩
    · rw [Nat.zero_add, totalSize_packedFiles]
      exact htotal
    · simp [packedFiles]
    · rw [hnames, List.append_nil, not_not]
      exact ⟨fun name hmem => List.mem_reverse.mp hmem, fun name hmem => List.mem_reverse.mpr hmem⟩

end Created

/-! ### What can be restored -/

/-- **What the tools are relied on for**: a digest is 64 hexadecimal digits, and the archive and
the manifest of this backup are read as they were written. -/
structure RoundTrips (tools : BackupTools) (request : BackupRequest) : Prop where
  digest : ∀ content, isDigest (tools.sha256 content) = true
  unpack_pack : ∀ payload manifest, request.staged = .ok payload →
    manifestFor tools request payload = .ok manifest →
    tools.unpack (tools.pack (packedFiles manifest payload)) =
      some ((packedFiles manifest payload).map memberOf)
  loads_dumps : ∀ payload manifest, request.staged = .ok payload →
    manifestFor tools request payload = .ok manifest →
    tools.loads (manifestBytes manifest) = .ok manifest.toJson

/-- **The archive gives the files back**: the reader accepts it, for the installation it was made
of and for the user that made it, and has extracted the very files that were staged, apart from what
the database engine may leave beside the database. -/
def Restores (tools : BackupTools) (request : BackupRequest) (created : CreatedArchive)
    (staging : DirectoryStatus) : Prop :=
  ∃ payload fields extracted, request.staged = .ok payload ∧
    validateAndExtract tools created staging (request.root.file stateFile) request.euid =
      .ok (fields, extracted) ∧ extracted.Perm payload

/-- **What can be restored**, beyond what the writer checks: the name of the archive fits its
checksum file; a path has at most 504 characters and no backslash; the manifest has at most a
mebibyte; and the files leave room for it in the total. -/
structure Restorable (tools : BackupTools) (request : BackupRequest) : Prop where
  name : NameFits request.archive
  path : ∀ file ∈ request.files, file.1.length ≤ 504 ∧ 92 ∉ file.1
  manifest : ∀ version publicIpv4,
    loadInstallState tools (request.root.file stateFile).bytes = .ok (version, publicIpv4) →
    manifestSize request.files request.createdAt version publicIpv4 ≤ maxManifestSize
  total : ∀ version publicIpv4,
    loadInstallState tools (request.root.file stateFile).bytes = .ok (version, publicIpv4) →
    manifestSize request.files request.createdAt version publicIpv4 + totalSize request.files ≤
      maxTotalSize

section Restoring

variable {tools : BackupTools} {request : BackupRequest} {created : CreatedArchive}
  {payload : Payload} {manifest : Manifest}

/-- The members have names the reader accepts if the paths are short and hold no backslash. -/
theorem Created.validated_iff (h : Created tools request created payload manifest) :
    ((∀ file ∈ packedFiles manifest payload, validatedMemberName file.1 = .ok ()) ∧
      ∀ file ∈ sortedFiles payload, validatedMemberName file.1 = .ok ()) ↔
    ∀ file ∈ request.files, file.1.length ≤ 504 ∧ 92 ∉ file.1 := by
  have hpayload : IsRelative (codePoints "payload") := by decide
  have hmanifest : validatedMemberName (codePoints "manifest.json") = .ok () := by
    have hrelative : IsRelative (codePoints "manifest.json") := by decide
    exact hrelative.validatedMemberName_eq_ok.mpr ⟨by decide, by decide⟩
  have hmember : ∀ file ∈ request.files,
      (validatedMemberName (codePoints "payload/" ++ file.1) = .ok () ↔
        file.1.length ≤ 504 ∧ 92 ∉ file.1) := by
    intro file hfile
    have hpath : codePoints "payload/" ++ file.1 = codePoints "payload" ++ slash :: file.1 := rfl
    have hseven : (codePoints "payload").length = 7 := by decide
    have hno : 92 ∉ codePoints "payload" := by decide
    rw [hpath, (hpayload.append (isRelative_of_mem_files hfile)).validatedMemberName_eq_ok,
      List.length_append, List.length_cons, hseven, List.mem_append, List.mem_cons]
    have hslash : (92 : ℕ) ≠ slash := by decide
    constructor
    · rintro ⟨hle, hmem⟩
      exact ⟨by omega, fun hin => hmem (Or.inr (Or.inr hin))⟩
    · rintro ⟨hle, hmem⟩
      refine ⟨by omega, ?_⟩
      rintro (hin | hin | hin)
      · exact hno hin
      · exact hslash hin
      · exact hmem hin
  constructor
  · rintro ⟨hpacked, -⟩ file hfile
    rw [← hmember file hfile]
    exact hpacked _ (List.mem_cons_of_mem _ (List.mem_map.mpr ⟨file, h.mem_iff.mpr hfile, rfl⟩))
  · intro hpaths
    constructor
    · intro file hfile
      rcases List.mem_cons.mp hfile with rfl | hfile
      · exact hmanifest
      · obtain ⟨entry, hentry, rfl⟩ := List.mem_map.mp hfile
        have hentry := h.mem_iff.mp hentry
        exact (hmember entry hentry).mpr (hpaths entry hentry)
    · intro file hfile
      have hfile := h.mem_iff.mp hfile
      obtain ⟨hle, hmem⟩ := hpaths file hfile
      exact (isRelative_of_mem_files hfile).validatedMemberName_eq_ok.mpr ⟨by omega, hmem⟩

/-- The length of the manifest, from the installation. -/
theorem Created.length_manifestBytes (h : Created tools request created payload manifest)
    (hdigest : ∀ content, isDigest (tools.sha256 content) = true) :
    loadInstallState tools (request.root.file stateFile).bytes =
        .ok (manifest.version, manifest.publicIpv4) ∧
      (manifestBytes manifest).length =
        manifestSize request.files request.createdAt manifest.version manifest.publicIpv4 := by
  obtain ⟨database, state, -, hmeta, hstate, hload, hcreated, hfiles⟩ := manifestFor_ok h.manifest_for
  obtain ⟨hquick, hschema⟩ := databaseMetadata_ok hmeta
  obtain ⟨hroot, -⟩ := h.payloadFile_state hstate
  constructor
  · rw [hroot]
    exact hload
  · rw [EzOpenPN.length_manifestBytes hdigest hfiles hquick hschema, hcreated,
      manifestSize_perm (sortedFiles_perm payload), (staged_ok h.staged).1]

variable {staging : DirectoryStatus}

/-- What the reader checks, with what the tools are relied on for. -/
theorem Created.read_iff (h : Created tools request created payload manifest)
    (htools : RoundTrips tools request) (hdirectory : staging.directory = true)
    (hempty : staging.entries = []) (result : List (PyStr × Json) × Payload) :
    validateAndExtract tools created staging (request.root.file stateFile) request.euid =
        .ok result ↔
      NameFits request.archive ∧
        (∀ file ∈ packedFiles manifest payload, validatedMemberName file.1 = .ok ()) ∧
        (manifestBytes manifest).length + totalSize payload ≤ maxTotalSize ∧
        (manifestBytes manifest).length ≤ maxManifestSize ∧
        (∀ file ∈ sortedFiles payload, validatedMemberName file.1 = .ok ()) ∧
        (manifest.fields, sortedFiles payload) = result :=
  h.validateAndExtract_eq_ok htools.digest
    (htools.unpack_pack payload manifest h.staged h.manifest_for)
    (htools.loads_dumps payload manifest h.staged h.manifest_for) hdirectory hempty

/-- Each condition is a check of the reader. -/
theorem Restores.restorable (htools : RoundTrips tools request)
    (hcreated : createArchive tools request = .ok created) (hdirectory : staging.directory = true)
    (hempty : staging.entries = []) (hrestores : Restores tools request created staging) :
    Restorable tools request := by
  obtain ⟨payload, manifest, h⟩ := createArchive_ok hcreated
  obtain ⟨hload, hsize⟩ := h.length_manifestBytes htools.digest
  obtain ⟨_, fields, extracted, -, hread, -⟩ := hrestores
  obtain ⟨hname, hpacked, htotal, hmanifest, hpaths, -⟩ :=
    (h.read_iff htools hdirectory hempty _).mp hread
  refine ⟨hname, h.validated_iff.mp ⟨hpacked, hpaths⟩, ?_, ?_⟩
  · intro version publicIpv4 hversion
    obtain ⟨rfl, rfl⟩ := Prod.mk.inj (Except.ok.inj (hload.symm.trans hversion))
    rw [← hsize]
    exact hmanifest
  · intro version publicIpv4 hversion
    obtain ⟨rfl, rfl⟩ := Prod.mk.inj (Except.ok.inj (hload.symm.trans hversion))
    rw [← hsize, ← (staged_ok h.staged).1]
    exact htotal

/-- The conditions settle every check that the writer has not made. -/
theorem Restorable.restores (htools : RoundTrips tools request)
    (hcreated : createArchive tools request = .ok created) (hdirectory : staging.directory = true)
    (hempty : staging.entries = []) (hrestorable : Restorable tools request) :
    Restores tools request created staging := by
  obtain ⟨payload, manifest, h⟩ := createArchive_ok hcreated
  obtain ⟨hload, hsize⟩ := h.length_manifestBytes htools.digest
  obtain ⟨hpacked, hpaths⟩ := h.validated_iff.mpr hrestorable.path
  have hmanifest := hrestorable.manifest _ _ hload
  have htotal := hrestorable.total _ _ hload
  rw [← hsize] at hmanifest htotal
  rw [← (staged_ok h.staged).1] at htotal
  have hread := (h.read_iff htools hdirectory hempty _).mpr
    ⟨hrestorable.name, hpacked, htotal, hmanifest, hpaths, rfl⟩
  exact ⟨payload, manifest.fields, sortedFiles payload, h.staged, hread, sortedFiles_perm payload⟩

/-- **A backup that was created can be restored if and only if its installation is restorable.** -/
theorem restore_iff (htools : RoundTrips tools request)
    (hcreated : createArchive tools request = .ok created) (hdirectory : staging.directory = true)
    (hempty : staging.entries = []) :
    Restores tools request created staging ↔ Restorable tools request :=
  ⟨fun h => h.restorable htools hcreated hdirectory hempty,
    fun h => h.restores htools hcreated hdirectory hempty⟩

end Restoring

/-! ### An installation with one certificate -/

namespace SampleBackup

/-- An installation with one file in the tree of certificates. -/
def root (entry : TreeEntry) : Root where
  file name := .file (asciiBytes name)
  tree name := some (if name = "var/lib/ezopenpn/caddy" then [entry] else [])

def request (entry : TreeEntry) : BackupRequest where
  root := root entry
  snapshot := .file [1, 2, 3]
  staging := ⟨true, 0, 0o700, []⟩
  parent := ⟨true, 0, 0o700, []⟩
  archive := codePoints "ezopenpn-backup.tar.gz"
  euid := 0
  createdAt := codePoints "2026-01-02T03:04:05Z"

/-- Sixty-four zeros. -/
def digest : PyStr := List.replicate 64 48

/-- The manifest of the installation. -/
def manifest (entry : TreeEntry) : Manifest where
  createdAt := (request entry).createdAt
  files := (sortedFiles (request entry).files).map fun file => ⟨file.1, digest, file.2.length⟩
  publicIpv4 := codePoints "203.0.113.7"
  quickCheck := codePoints "ok"
  schemaVersion := codePoints "0001_initial"
  version := codePoints "v1.0.0"

/-- Tools that read the archive and the manifest of the installation as they were written. -/
def tools (entry : TreeEntry) : BackupTools where
  sha256 _ := digest
  pack files := files.flatMap Prod.snd
  unpack _ := some ((packedFiles (manifest entry) (request entry).files).map memberOf)
  loads _ := .ok (manifest entry).toJson
  loadsText _ := .ok (.dict [(codePoints "version", .str (codePoints "v1.0.0")),
    (codePoints "public_ipv4", .str (codePoints "203.0.113.7"))])
  sqlite _ := some ⟨[[.text (codePoints "ok")]], none, [[.text (codePoints "0001_initial")]]⟩

/-- An empty directory. -/
def staging : DirectoryStatus := ⟨true, 0, 0o700, []⟩

theorem loadInstallState_eq (entry : TreeEntry) (content : Bytes) :
    loadInstallState (tools entry) content = .ok (codePoints "v1.0.0", codePoints "203.0.113.7") :=
  rfl

theorem roundTrips (entry : TreeEntry) : RoundTrips (tools entry) (request entry) := by
  have hmanifest : ∀ payload m, (request entry).staged = .ok payload →
      manifestFor (tools entry) (request entry) payload = .ok m →
      payload = (request entry).files ∧ m = manifest entry := by
    intro payload m hstaged hm
    obtain ⟨rfl, -⟩ := staged_ok hstaged
    obtain ⟨database, state, -, hmeta, -, hload, hcreated, hfiles⟩ := manifestFor_ok hm
    obtain ⟨hquick, hschema⟩ := Prod.mk.inj (Except.ok.inj hmeta)
    obtain ⟨hversion, hip⟩ := Prod.mk.inj
      (Except.ok.inj ((loadInstallState_eq entry state).symm.trans hload))
    obtain ⟨createdAt, files, publicIpv4, quickCheck, schemaVersion, version⟩ := m
    exact ⟨rfl, by simp_all [manifest, fileRecord, tools]⟩
  have hdigest : isDigest digest = true := by decide
  refine ⟨fun _ => hdigest, ?_, ?_⟩
  · intro payload m hstaged hm
    obtain ⟨rfl, rfl⟩ := hmanifest payload m hstaged hm
    rfl
  · intro payload m hstaged hm
    obtain ⟨rfl, rfl⟩ := hmanifest payload m hstaged hm
    rfl

/-- A certificate. -/
def certificate : TreeEntry := ⟨codePoints "certificates/ip.crt", .file [4, 5], by decide⟩

/-- A file whose name has a backslash. -/
def backslash : TreeEntry := ⟨codePoints "certificates\\ip.crt", .file [4, 5], by decide⟩

end SampleBackup

open SampleBackup in
/-- The backup of an installation with a certificate is created and can be restored. -/
theorem restore_iff_certificate :
    ∃ created, createArchive (tools certificate) (request certificate) = .ok created ∧
      Restores (tools certificate) (request certificate) created staging := by
  cases hcreated : createArchive (tools certificate) (request certificate) with
  | error e =>
    have hok : (createArchive (tools certificate) (request certificate)).isOk = true := by
      decide +kernel
    rw [hcreated] at hok
    cases hok
  | ok created =>
    refine ⟨created, rfl, (restore_iff (roundTrips certificate) hcreated rfl rfl).mpr ?_⟩
    refine ⟨by decide, by decide +kernel, ?_, ?_⟩
    · intro version publicIpv4 h
      obtain ⟨rfl, rfl⟩ := Prod.mk.inj (Except.ok.inj h)
      decide +kernel
    · intro version publicIpv4 h
      obtain ⟨rfl, rfl⟩ := Prod.mk.inj (Except.ok.inj h)
      decide +kernel

open SampleBackup in
/-- **A backup that cannot be restored.** A file of the tree of certificates has a backslash in
its name; the archive is created, and the reader refuses it. -/
theorem backslash_not_restored :
    RoundTrips (tools backslash) (request backslash) ∧
      ∃ created, createArchive (tools backslash) (request backslash) = .ok created ∧
        ¬Restores (tools backslash) (request backslash) created staging := by
  refine ⟨roundTrips backslash, ?_⟩
  cases hcreated : createArchive (tools backslash) (request backslash) with
  | error e =>
    have hok : (createArchive (tools backslash) (request backslash)).isOk = true := by
      decide +kernel
    rw [hcreated] at hok
    cases hok
  | ok created =>
    refine ⟨created, rfl, fun hrestores => ?_⟩
    have hrestorable := hrestores.restorable (roundTrips backslash) hcreated rfl rfl
    have hbad : ¬∀ file ∈ (request backslash).files, file.1.length ≤ 504 ∧ 92 ∉ file.1 := by
      decide +kernel
    exact hbad hrestorable.path

end EzOpenPN
