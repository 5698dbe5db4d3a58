import EzOpenPN.Installer.Extraction

/-!
# Restoring a payload

What `apply_payload` of `backup_archive.py` does to an installation: once the staging directory is
checked against its manifest again, the logs of the database are removed, ten files are replaced
and two trees are exchanged. It is a script of system calls below the root of the installation; the
staging directory is elsewhere, is only read, and can be read.

Nothing is written in place. A file is copied to a temporary name beside its destination and renamed
over it; a tree is built under a temporary name, the old one is moved aside, and it is deleted when
the new one stands. All of these names begin with a dot and end in a random text
(`EzOpenPN.RestoreNames`), and every one of them is to be gone in the end.
-/

namespace EzOpenPN

open FileSystem Script

/-! ### Destinations -/

/-- A path below the root. -/
def rootPath (name : String) : List FileName := realPath (codePoints name)

/-- `fixed_destinations`: the name in the archive and the file below the root. -/
def fixedDestinations : List (String × String) :=
  [("database/ezopenpn.sqlite3", "var/lib/ezopenpn/control/ezopenpn.sqlite3"),
    ("configuration/control.toml", "etc/ezopenpn/control.toml"),
    ("configuration/Caddyfile", "etc/ezopenpn/Caddyfile"),
    ("configuration/compose.yaml", "etc/ezopenpn/compose.yaml"),
    ("configuration/stack.env", "etc/ezopenpn/stack.env"),
    ("secrets/master.key", "var/lib/ezopenpn/secrets/master.key"),
    ("secrets/hysteria-api.key", "var/lib/ezopenpn/secrets/hysteria-api.key"),
    ("secrets/hysteria-obfs.key", "var/lib/ezopenpn/secrets/hysteria-obfs.key"),
    ("runtime/xray/config.json", "var/lib/ezopenpn/runtime/xray/config.json"),
    ("runtime/hysteria/config.yaml", "var/lib/ezopenpn/runtime/hysteria/config.yaml")]

/-- The trees: the name in the archive and the directory below the root. -/
def treeDestinations : List (String × String) :=
  [("runtime/material", "var/lib/ezopenpn/runtime/material"), ("caddy", "var/lib/ezopenpn/caddy")]

/-- The logs of the database. -/
def databaseLogs : List String :=
  ["var/lib/ezopenpn/control/ezopenpn.sqlite3-wal", "var/lib/ezopenpn/control/ezopenpn.sqlite3-shm"]

/-- **The random ends of the names** that are used beside a destination. -/
structure RestoreNames where
  restore : List FileName → Bytes
  previous : List FileName → Bytes

namespace RestoreNames

variable (names : RestoreNames) (destination : List FileName)

/-- A hidden name beside a destination. -/
def beside (tag : String) (random : Bytes) : List FileName :=
  destination.dropLast ++
    [fileName "." ++ destination.getLast?.getD [] ++ fileName tag ++ random]

/-- The temporary name of a file or a tree. -/
def temporary : List FileName := beside destination ".restore-" (names.restore destination)

/-- The name of the tree that was moved aside. -/
def old : List FileName := beside destination ".previous-" (names.previous destination)

end RestoreNames

/-! ### The script -/

/-- `path.unlink(missing_ok=True)`: it is an error if what is above is no directory. -/
def unlinkMissing (p : List FileName) : DiskScript (Except BackupError Unit) :=
  look fun d =>
    if d.tree.node p = none ∧
        ∀ q ∈ p.dropLast.inits, d.tree.node q = none ∨ d.tree.node q = some .directory then
      done (.ok ())
    else orRaise (run (.unlink p)) .osError

/-- `_safe_copy` of a file of the staging directory. -/
def safeCopyFile (source : SourceNode) (destination : List FileName) :
    DiskScript (Except BackupError Unit) :=
  match regularStatus [] source with
  | .error e => done (.error e)
  | .ok content =>
    (orRaise (mkdirs destination.dropLast) .osError).attempt fun _ =>
    (orRaise (run (.create destination)) .osError).attempt fun _ =>
    (writeChunks destination (fun size => maxFileSize < size) "file exceeds size limit"
      (memberChunks content) 0).attempt fun _ =>
    orRaise (run (.touch destination)) .osError

/-- **`_install_file`.** -/
def installFile (source : SourceNode) (destination temporary : List FileName) :
    DiskScript (Except BackupError Unit) :=
  match regularStatus [] source with
  | .error e => done (.error e)
  | .ok _ =>
    (orRaise (mkdirs destination.dropLast) .osError).attempt fun _ =>
    ensure
      ((safeCopyFile source temporary).attempt fun _ =>
        (orRaise (run (.touch temporary)) .osError).attempt fun _ =>
        orRaise (run (.rename temporary destination)) .osError)
      (unlinkMissing temporary)

/-- `_tree_files`: the regular files of a staged tree. -/
def stagedFiles (staging : Tree FileName UInt8) (source : List FileName) :
    Except BackupError (List (List FileName × Bytes)) := do
  refuseIf (∃ p ∈ staging.paths, source <+: p ∧ staging.node p = some .link)
    "unsafe directory member"
  refuseIf (∃ entry ∈ staging.filesBelow source, maxFileSize < entry.2.length)
    "file exceeds size limit"
  return staging.filesBelow source

/-- The files of a tree are copied. -/
def copyFiles (temporary : List FileName) :
    List (List FileName × Bytes) → DiskScript (Except BackupError Unit)
  | [] => done (.ok ())
  | entry :: rest =>
    (safeCopyFile (.file entry.2) (temporary ++ entry.1)).attempt fun _ => copyFiles temporary rest

/-- The modes and owners of a tree. -/
def touchTree (temporary : List FileName) : DiskScript (Except BackupError Unit) :=
  look fun d => orRaise (all ((d.tree.paths.filter fun p => temporary <+: p).map fun p =>
    run (.touch p))) .osError

/-- `path.exists()`, which may raise itself. -/
def pathExists (p : List FileName) : DiskScript (Except BackupError Bool) :=
  (orRaise (run (.touch p)) .osError).attempt fun _ => look fun d => done (.ok (d.tree.node p ≠ none))

/-- The old tree is put back, if it was moved and nothing stands in its place. -/
def putBack (destination old : List FileName) : DiskScript (Except BackupError Unit) :=
  (pathExists destination).attempt fun there =>
    if there then done (.ok ())
    else (pathExists old).attempt fun kept =>
      if kept then orRaise (run (.rename old destination)) .osError else done (.ok ())

/-- The new tree is put in the place of the old one. -/
def exchangeTree (destination temporary old : List FileName) :
    DiskScript (Except BackupError Unit) :=
  (pathExists destination).attempt fun _ => look fun d =>
    match d.tree.node destination with
    | none => orRaise (run (.rename temporary destination)) .osError
    | some .directory =>
      (orRaise (run (.rename destination old)) .osError).attempt fun _ =>
      rescue
        ((orRaise (run (.rename temporary destination)) .osError).attempt fun _ =>
          orRaise (run (.removeTree old)) .osError)
        (putBack destination old)
    | some _ => done (refuse "restore destination is unsafe")

/-- What is left of a name is removed. -/
def clearTree (p : List FileName) : DiskScript (Except BackupError Unit) :=
  (pathExists p).attempt fun there =>
    if there then orRaise (run (.removeTree p)) .osError else done (.ok ())

/-- **`_copy_tree`.** -/
def copyTree (staging : Tree FileName UInt8) (source destination temporary old : List FileName) :
    DiskScript (Except BackupError Unit) :=
  match staging.node source with
  | none => done (.error .osError)
  | some .directory =>
    (orRaise (mkdirs destination.dropLast) .osError).attempt fun _ =>
    (orRaise (run (.mkdir temporary)) .osError).attempt fun _ =>
    ensure
      ((done (stagedFiles staging source)).attempt fun files =>
        (copyFiles temporary files).attempt fun _ =>
        (touchTree temporary).attempt fun _ =>
        exchangeTree destination temporary old)
      ((clearTree temporary).attempt fun _ => clearTree old)
  | some _ => done (refuse "restore tree is invalid")

section Restore

variable (tools : ReaderTools) (names : RestoreNames) (staging : Tree FileName UInt8)

/-- A staged file is as it was recorded. -/
def checkRecord (record : FileRecord) : Except BackupError Unit :=
  if ¬Encodable record.path then .error .other
  else do
    let content ← regularStatus (baseName record.path)
      (sourceNode ⟨staging, false⟩ (payloadPath record.path))
    refuseIf (content.length ≠ record.size ∨ tools.sha256 content ≠ record.sha256)
      "staged payload changed before restore"

/-- The checks of `apply_payload` before its first write. -/
def checkPayload : Except BackupError Unit :=
  match sourceNode ⟨staging, false⟩ manifestPath with
  | .file raw => do
    let fields ← parseManifest tools.toBackupTools raw
    let records ← manifestRecords fields
    records.forM (checkRecord tools staging)
  | _ => .error .osError

/-- Parts that may raise, one after the other. -/
def inTurn : List (DiskScript (Except BackupError Unit)) → DiskScript (Except BackupError Unit)
  | [] => done (.ok ())
  | part :: rest => part.attempt fun _ => inTurn rest

/-- What `apply_payload` writes, in turn. -/
def restoreSteps : List (DiskScript (Except BackupError Unit)) :=
  databaseLogs.map (fun name => unlinkMissing (rootPath name)) ++
  fixedDestinations.map (fun entry =>
    installFile (sourceNode ⟨staging, false⟩ (payloadPath (codePoints entry.1))) (rootPath entry.2)
      (names.temporary (rootPath entry.2))) ++
  treeDestinations.map fun entry =>
    copyTree staging (payloadPath (codePoints entry.1)) (rootPath entry.2)
      (names.temporary (rootPath entry.2)) (names.old (rootPath entry.2))

/-- **`apply_payload`.** -/
def applyPayload : DiskScript (Except BackupError Unit) :=
  match checkPayload tools staging with
  | .error e => done (.error e)
  | .ok _ => inTurn (restoreSteps names staging)

end Restore

/-! ### Files that are copied -/

section Copies

variable {d : Disk FileName UInt8} {p : List FileName} {source : SourceNode}

/-- **Directories are made, and nothing else changes.** -/
theorem establishes_mkdirs_plain (hplain : d.tree.Plain up p) :
    Establishes (mkdirs p) d fun ok d' => ok = true →
      d'.outside = d.outside ∧ d.tree.Frame (· <+: p) (fun _ => False) d'.tree := by
  have hsteps : ∀ q ∈ p.inits, q <+: p := fun q hq => (List.mem_inits q p).mp hq
  rw [Establishes, mkdirs]
  generalize p.inits = steps at hsteps
  induction steps generalizing d with
  | nil => exact fun _ => ⟨rfl, .refl _⟩
  | cons q rest ih =>
    have hq := hsteps q (by simp)
    have hstep : Establishes (mkdirStep q) d fun ok d' => ok = true →
        d'.outside = d.outside ∧ d.tree.Frame (· <+: p) (fun _ => False) d'.tree := by
      rw [Establishes, mkdirStep, wp_look]
      split
      · intro o
        refine ⟨trivial, fun hok => ?_⟩
        have hbehind : ¬d.tree.Behind up q :=
          hplain.not_behind ((List.dropLast_prefix q).trans hq) (hplain.above hq).not_up
        obtain ⟨hout, hnone, hnode⟩ := Call.mkdir_ok hbehind hok
        refine ⟨hout, fun r _ => ?_⟩
        rw [diskMachine_perform, hnode]
        by_cases hr : r = q
        · subst hr
          exact .inr ⟨hq, hnone, Function.update_self _ _ _⟩
        · exact .inl (Function.update_of_ne hr _ _)
      · exact fun _ => ⟨rfl, .refl _⟩
      · exact fun _ => ⟨rfl, .refl _⟩
      · simp
    refine wp_all_of hstep fun d₁ hd₁ => ?_
    have hplain₁ := hplain.frame hd₁.2 fun _ _ => id
    refine wp_mono (ih hplain₁ fun r hr => hsteps r (by simp [hr])) (fun _ h => h) ?_
    intro ok d₂ hd₂ hok
    exact ⟨(hd₂ hok).1.trans hd₁.1, hd₁.2.trans (hd₂ hok).2⟩

/-- **A copy of a file**: it is there, where nothing was. -/
structure Copied (p : List FileName) (content : Bytes) (d d' : Disk FileName UInt8) : Prop where
  outside : d'.outside = d.outside
  fresh : d.tree.node p = none
  file : d'.tree.node p = some (.file content)
  frame : d.tree.Frame (· <+: p.dropLast) (· = p) d'.tree

theorem establishes_safeCopyFile (hplain : d.tree.Plain up p.dropLast) (hup : up ∉ p) :
    Establishes (safeCopyFile source p) d fun result d' => ∀ u, result = .ok u →
      ∃ content, source = .file content ∧ Copied p content d d' := by
  rw [Establishes, safeCopyFile]
  split
  · simp
  · rename_i content hcontent
    obtain ⟨rfl, -⟩ := regularStatus_eq_ok.mp hcontent
    refine wp_attempt_of (wp_orRaise_of (establishes_mkdirs_plain hplain)) fun _ d₁ hd₁ => ?_
    obtain ⟨hout₁, hframe₁⟩ := hd₁
    have hplain₁ := hplain.frame hframe₁ fun _ _ => id
    have hcreate : Establishes (run (.create p)) d₁ fun ok d₂ => ok = true →
        d₂.outside = d₁.outside ∧ d₁.tree.node p = none ∧
          d₂.tree.node = Function.update d₁.tree.node p (some (.file [])) := fun o =>
      ⟨trivial, fun hok => Call.create_ok (hplain₁.not_behind (List.prefix_refl _) hup) hok⟩
    refine wp_attempt_of (wp_orRaise_of hcreate) fun _ d₂ hd₂ => ?_
    obtain ⟨hout₂, hnone₁, hnode₂⟩ := hd₂
    have hempty : d₂.tree.node p = some (.file []) := by simp [hnode₂]
    refine wp_attempt_of (establishes_writeChunks hempty) fun size d₃ hd₃ => ?_
    obtain ⟨-, hout₃, hnode₃⟩ := hd₃
    rw [flatten_memberChunks, List.nil_append, hnode₂, Function.update_idem] at hnode₃
    have htouch : Establishes (run (.touch p)) d₃ fun ok d₄ => ok = true → d₄ = d₃ :=
      fun o => ⟨trivial, fun _ => rfl⟩
    refine wp_mono (wp_orRaise_of htouch) (fun _ h => h) fun result d₄ hd₄ u hu => ?_
    obtain rfl := hd₄ u hu
    refine ⟨content, rfl, by rw [hout₃, hout₂, hout₁], hframe₁.node_none id hnone₁,
      by rw [hnode₃, Function.update_self], fun q hq => ?_⟩
    rw [hnode₃, Function.update_of_ne hq]
    exact hframe₁ q id

/-- A copy after directories were made. -/
theorem Copied.after {content : Bytes} {d₁ d₂ : Disk FileName UInt8} (hout : d₁.outside = d.outside)
    (hmade : d.tree.Frame (· <+: p.dropLast) (fun _ => False) d₁.tree)
    (hcopied : Copied p content d₁ d₂) : Copied p content d d₂ where
  outside := hcopied.outside.trans hout
  fresh := hmade.node_none id hcopied.fresh
  file := hcopied.file
  frame := (hmade.mono (fun _ h _ => h) fun _ => False.elim).trans hcopied.frame

/-- A name in a directory whose path does not lead up. -/
theorem up_not_mem_concat {dir : List FileName} {name : FileName} (hdir : up ∉ dir)
    (hname : name ≠ up) : up ∉ dir ++ [name] := by
  intro hmem
  rcases List.mem_append.mp hmem with hmem | hmem
  · exact hdir hmem
  · exact hname (List.mem_singleton.mp hmem).symm

theorem ne_concat_of_above {dir q : List FileName} {name : FileName} (hq : q <+: dir) :
    q ≠ dir ++ [name] := by
  rintro rfl
  have := hq.length_le
  rw [List.length_append, List.length_singleton] at this
  omega

end Copies

/-! ### Files that are installed -/

section Installs

variable {d : Disk FileName UInt8} {dir : List FileName} {name hidden aside : FileName}
variable {source : SourceNode}

/-- Nothing is left of a name that is gone already. -/
theorem establishes_unlinkMissing_none {p : List FileName} (hbehind : ¬d.tree.Behind up p)
    (hp : d.tree.node p = none) :
    Establishes (unlinkMissing p) d fun result d' => ∀ u, result = .ok u → d' = d := by
  rw [Establishes, unlinkMissing, wp_look, wp_ite]
  refine ⟨fun _ _ _ => rfl, fun _ => ?_⟩
  refine wp_orRaise_of fun o => ⟨trivial, fun hok => ?_⟩
  rw [diskMachine_perform, Call.effect, if_neg hbehind, hp] at hok
  cases hok

/-- `path.unlink(missing_ok=True)`: the name is gone, and nothing else. -/
theorem establishes_unlinkMissing {p : List FileName} (hbehind : ¬d.tree.Behind up p) :
    Establishes (unlinkMissing p) d fun result d' => ∀ u, result = .ok u →
      d'.outside = d.outside ∧ d'.tree.node p = none ∧
        d.tree.Frame (fun _ => False) (· = p) d'.tree := by
  rw [Establishes, unlinkMissing, wp_look, wp_ite]
  refine ⟨fun hnone _ _ => ⟨rfl, hnone.1, .refl _⟩, fun _ => ?_⟩
  refine wp_orRaise_of fun o => ⟨trivial, fun hok => ?_⟩
  obtain ⟨hout, -, hnode⟩ := Call.unlink_ok hbehind hok
  rw [diskMachine_perform, hnode]
  refine ⟨hout, Function.update_self _ _ _, fun q hq => .inl ?_⟩
  rw [hnode, Function.update_of_ne hq]

/-- **A file that was installed**: its temporary name is gone. -/
structure Installed (destination temporary : List FileName) (content : Bytes)
    (d d' : Disk FileName UInt8) : Prop where
  outside : d'.outside = d.outside
  file : d'.tree.node destination = some (.file content)
  gone : d'.tree.node temporary = none
  frame : d.tree.Frame (· <+: destination.dropLast) (fun p => p = destination ∨ p = temporary) d'.tree

/-- A file is renamed over its destination. -/
theorem Copied.renamed {content : Bytes} {d₁ d₂ : Disk FileName UInt8} (hne : hidden ≠ name)
    (hcopied : Copied (dir ++ [hidden]) content d d₁)
    (hrenames : d₁.tree.renames (dir ++ [hidden]) (dir ++ [name]) = true)
    (hout : d₂.outside = d₁.outside)
    (hnode : d₂.tree.node = d₁.tree.moved (dir ++ [hidden]) (dir ++ [name])) :
    Installed (dir ++ [name]) (dir ++ [hidden]) content d d₂ := by
  have hfile : d₁.tree.node (dir ++ [hidden]) ≠ some .directory := by rw [hcopied.file]; exact nofun
  obtain ⟨-, -, -, hbelow⟩ := Tree.renames_spec hrenames (by simpa using hne)
  refine ⟨hout.trans hcopied.outside, ?_, ?_, fun p hp => ?_⟩
  · rw [hnode, Tree.moved_target, hcopied.file]
  · rw [hnode]
    exact Tree.moved_source (not_prefix_of_sibling hne (List.prefix_refl _)) (List.prefix_refl _)
  · rw [not_or] at hp
    have hframe := hcopied.frame p hp.2
    rw [List.dropLast_concat] at hframe ⊢
    -- nothing is below either name, before and after
    have hnone : d₁.tree.node p = none → d₂.tree.node p = none →
        d₂.tree.node p = d.tree.node p := by
      intro h₁ h₂
      rw [h₂, hcopied.frame.node_none hp.2 h₁]
    by_cases hname : dir ++ [name] <+: p
    · obtain ⟨rest, rfl⟩ := hname
      have hrest : rest ≠ [] := fun hnil => hp.1 (by rw [hnil, List.append_nil])
      refine .inl (hnone (hbelow _ (List.prefix_append _ _) hp.1) ?_)
      rw [hnode, Tree.moved_append]
      exact Tree.node_append_eq_none hfile hrest
    · by_cases hhidden : dir ++ [hidden] <+: p
      · have hmoved : d₂.tree.node p = none := by
          rw [hnode]
          exact Tree.moved_source hname hhidden
        obtain ⟨rest, rfl⟩ := hhidden
        have hrest : rest ≠ [] := fun hnil => hp.2 (by rw [hnil, List.append_nil])
        exact .inl (hnone (Tree.node_append_eq_none hfile hrest) hmoved)
      · rw [hnode, Tree.moved_other hname hhidden]
        exact hframe

/-- **`_install_file` that returns has installed the file.** -/
theorem establishes_installFile (hplain : d.tree.Plain up dir) (hname : name ≠ up)
    (hhidden : hidden ≠ up) (hne : hidden ≠ name) :
    Establishes (installFile source (dir ++ [name]) (dir ++ [hidden])) d fun result d' =>
      ∀ u, result = .ok u → ∃ content, source = .file content ∧
        Installed (dir ++ [name]) (dir ++ [hidden]) content d d' := by
  have hup := up_not_mem_concat hplain.not_up hname
  have hup' := up_not_mem_concat hplain.not_up hhidden
  rw [Establishes, installFile]
  split
  · simp
  · rw [List.dropLast_concat]
    refine wp_attempt_of (wp_orRaise_of (establishes_mkdirs_plain hplain)) fun _ d₁ hd₁ => ?_
    obtain ⟨hout₁, hframe₁⟩ := hd₁
    have hplain₁ := hplain.frame hframe₁ fun _ _ => id
    have hmade : d.tree.Frame (· <+: (dir ++ [hidden]).dropLast) (fun _ => False) d₁.tree := by
      rw [List.dropLast_concat]
      exact hframe₁
    have hdir₁ : d₁.tree.Plain up (dir ++ [hidden]).dropLast := by
      rw [List.dropLast_concat]
      exact hplain₁
    refine wp_ensure_of (R := fun _ d₂ => d₂.tree.Plain up dir ∧ ∃ content, source = .file content ∧
      Installed (dir ++ [name]) (dir ++ [hidden]) content d d₂) ?_ ?_
    · refine wp_attempt_of (establishes_safeCopyFile hdir₁ hup') fun _ d₂ hd₂ => ?_
      obtain ⟨content, hsource, hcopied⟩ := hd₂
      have hcopied := hcopied.after hout₁ hmade
      have htouch : Establishes (run (.touch (dir ++ [hidden]))) d₂ fun ok d₃ => ok = true →
          d₃ = d₂ := fun o => ⟨trivial, fun _ => rfl⟩
      refine wp_attempt_of (wp_orRaise_of htouch) fun _ d₃ hd₃ => ?_
      subst hd₃
      have hplain₃ := hplain.frame hcopied.frame fun q hq => ne_concat_of_above hq
      have hbehind := hplain₃.not_behind (List.dropLast_concat ▸ List.prefix_refl dir) hup
      have hbehind' := hplain₃.not_behind (List.dropLast_concat ▸ List.prefix_refl dir) hup'
      refine wp_orRaise_of fun o => ⟨trivial, fun hok => ?_⟩
      obtain ⟨hout₄, hrenames, hnode₄⟩ := Call.rename_ok hbehind' hbehind hok
      have hinstalled := hcopied.renamed hne hrenames hout₄ hnode₄
      refine ⟨hplain.frame hinstalled.frame fun q hq => ?_, content, hsource, hinstalled⟩
      exact not_or.mpr ⟨ne_concat_of_above hq, ne_concat_of_above hq⟩
    · rintro _ d₂ ⟨hplain₂, content, hsource, hinstalled⟩
      have hbehind := hplain₂.not_behind (List.dropLast_concat ▸ List.prefix_refl dir) hup'
      refine wp_mono (establishes_unlinkMissing_none hbehind hinstalled.gone) (fun _ h => h) ?_
      intro result d₃ hd₃ u hu
      rw [hd₃ u hu]
      exact ⟨content, hsource, hinstalled⟩

end Installs

/-! ### Trees that are built -/

/-- **A tree of some files**, each with its path from the directory, and without links. -/
structure Filled (p : List FileName) (files : List (List FileName × Bytes))
    (t : Tree FileName UInt8) : Prop where
  directory : t.node p = some .directory
  files : ∀ rest content, t.node (p ++ rest) = some (.file content) ↔ (rest, content) ∈ files
  linkless : ∀ rest, t.node (p ++ rest) ≠ some .link

section Trees

variable {d : Disk FileName UInt8} {dir : List FileName} {name hidden aside : FileName}
variable {before files : List (List FileName × Bytes)}

/-- A directory in a tree without links is reached without links. -/
theorem Filled.plain {t : Tree FileName UInt8} (ht : Filled (dir ++ [hidden]) before t)
    (hplain : t.Plain up dir) (hhidden : hidden ≠ up) {rest : List FileName} (hrest : up ∉ rest) :
    t.Plain up (dir ++ [hidden] ++ rest) where
  not_up hmem := by
    rcases List.mem_append.mp hmem with hmem | hmem
    · exact up_not_mem_concat hplain.not_up hhidden hmem
    · exact hrest hmem
  not_link q hq := by
    rcases List.prefix_or_prefix_of_prefix hq (List.prefix_append (dir ++ [hidden]) rest) with
      habove | ⟨below, rfl⟩
    · rcases List.prefix_concat_iff.mp habove with rfl | hdir
      · rw [ht.directory]
        exact nofun
      · exact hplain.not_link q hdir
    · exact ht.linkless below

/-- A file is copied into the tree. -/
theorem Filled.copied {d' : Disk FileName UInt8} {relative : List FileName} {content : Bytes}
    (hd : Filled (dir ++ [hidden]) before d.tree) (hrelative : relative ≠ [])
    (hcopied : Copied (dir ++ [hidden] ++ relative) content d d') :
    Filled (dir ++ [hidden]) (before ++ [(relative, content)]) d'.tree where
  directory := by
    have hne : dir ++ [hidden] ≠ dir ++ [hidden] ++ relative := by simpa using hrelative
    rcases hcopied.frame _ hne with heq | ⟨-, hnone, -⟩
    · rw [heq, hd.directory]
    · rw [hd.directory] at hnone
      cases hnone
  files rest c := by
    rw [List.mem_append, List.mem_singleton, Prod.mk.injEq]
    by_cases hrest : rest = relative
    · subst hrest
      have hfresh : (rest, c) ∉ before := by
        intro hmem
        have hnode := (hd.files rest c).mpr hmem
        rw [hcopied.fresh] at hnode
        cases hnode
      rw [hcopied.file]
      simp [hfresh, eq_comm]
    · have hne : dir ++ [hidden] ++ rest ≠ dir ++ [hidden] ++ relative := by simpa using hrest
      rw [hcopied.frame.node_file hne, hd.files]
      simp [hrest]
  linkless rest := by
    by_cases hrest : rest = relative
    · subst hrest
      rw [hcopied.file]
      exact nofun
    · have hne : dir ++ [hidden] ++ rest ≠ dir ++ [hidden] ++ relative := by simpa using hrest
      rw [Ne, hcopied.frame.node_link hne]
      exact hd.linkless rest

theorem Copied.frame_below {d' : Disk FileName UInt8} {relative : List FileName} {content : Bytes}
    (hrelative : relative ≠ []) (hcopied : Copied (dir ++ [hidden] ++ relative) content d d') :
    d.tree.Frame (· <+: dir) (dir ++ [hidden] <+: ·) d'.tree := by
  refine hcopied.frame.mono (fun q hq hbelow => ?_) fun q hq => ?_
  · rw [List.dropLast_append_of_ne_nil hrelative] at hq
    have habove := (List.prefix_or_prefix_of_prefix hq (List.prefix_append _ _)).resolve_right hbelow
    exact (List.prefix_concat_iff.mp habove).resolve_left fun heq =>
      hbelow (heq ▸ List.prefix_refl _)
  · exact hq ▸ List.prefix_append _ _

/-- No directory above a hidden name is below it. -/
theorem not_prefix_of_above {q : List FileName} (hq : q <+: dir) : ¬dir ++ [hidden] <+: q := by
  intro hpre
  have := (hpre.trans hq).length_le
  rw [List.length_append, List.length_singleton] at this
  omega

/-- **The files of a tree are copied**, and nothing changes outside of it. -/
theorem establishes_copyFiles (hplain : d.tree.Plain up dir) (hhidden : hidden ≠ up)
    (hfiles : ∀ entry ∈ files, entry.1 ≠ [] ∧ up ∉ entry.1)
    (hd : Filled (dir ++ [hidden]) before d.tree) :
    Establishes (copyFiles (dir ++ [hidden]) files) d fun result d' => ∀ u, result = .ok u →
      d'.outside = d.outside ∧ Filled (dir ++ [hidden]) (before ++ files) d'.tree ∧
        d.tree.Frame (· <+: dir) (dir ++ [hidden] <+: ·) d'.tree := by
  induction files generalizing before d with
  | nil =>
    intro u _
    rw [List.append_nil]
    exact ⟨rfl, hd, .refl _⟩
  | cons entry rest ih =>
    obtain ⟨hrelative, hup⟩ := hfiles entry (by simp)
    have hup' : up ∉ dir ++ [hidden] ++ entry.1 := by
      intro hmem
      rcases List.mem_append.mp hmem with hmem | hmem
      · exact up_not_mem_concat hplain.not_up hhidden hmem
      · exact hup hmem
    have hdir : d.tree.Plain up (dir ++ [hidden] ++ entry.1).dropLast := by
      rw [List.dropLast_append_of_ne_nil hrelative]
      exact hd.plain hplain hhidden fun hmem => hup (List.mem_of_mem_dropLast hmem)
    refine wp_attempt_of (establishes_safeCopyFile hdir hup') fun _ d₁ hd₁ => ?_
    obtain ⟨content, hcontent, hcopied⟩ := hd₁
    obtain rfl : entry.2 = content := by simpa using hcontent
    have hframe := hcopied.frame_below hrelative
    have hplain₁ := hplain.frame hframe fun q hq => not_prefix_of_above hq
    refine wp_mono (ih hplain₁ (fun other hother => hfiles other (by simp [hother]))
      (hd.copied hrelative hcopied)) (fun _ h => h) fun result d₂ hd₂ u hu => ?_
    obtain ⟨hout, hfilled, hframe'⟩ := hd₂ u hu
    rw [List.append_assoc] at hfilled
    exact ⟨hout.trans hcopied.outside, hfilled, hframe.trans hframe'⟩

/-- A tree that was moved is the same tree. -/
theorem Filled.moved {t t' : Tree FileName UInt8} {p q : List FileName} (ht : Filled p files t)
    (hnode : t'.node = t.moved p q) : Filled q files t' where
  directory := by rw [hnode, Tree.moved_target, ht.directory]
  files rest content := by rw [hnode, Tree.moved_append, ht.files]
  linkless rest := by
    rw [hnode, Tree.moved_append]
    exact ht.linkless rest

/-- A tree is the same where nothing has changed below it. -/
theorem Filled.congr {t t' : Tree FileName UInt8} {p : List FileName} (ht : Filled p files t)
    (hnode : ∀ rest, t'.node (p ++ rest) = t.node (p ++ rest)) : Filled p files t' where
  directory := by
    have := hnode []
    rw [List.append_nil] at this
    rw [this, ht.directory]
  files rest content := by rw [hnode, ht.files]
  linkless rest := by
    rw [hnode]
    exact ht.linkless rest

theorem establishes_pathExists (p : List FileName) :
    Establishes (pathExists p) d fun result d' => ∀ there, result = .ok there →
      d' = d ∧ (there = true ↔ d.tree.node p ≠ none) := by
  have htouch : Establishes (run (.touch p)) d fun ok d' => ok = true → d' = d :=
    fun o => ⟨trivial, fun _ => rfl⟩
  refine wp_attempt_of (wp_orRaise_of htouch) fun _ d' hd' => ?_
  subst hd'
  rintro there ⟨rfl⟩
  exact ⟨rfl, decide_eq_true_iff⟩

/-- **What is left of a name is removed**, and nothing else. -/
theorem establishes_clearTree {p : List FileName} (hbehind : ¬d.tree.Behind up p) :
    Establishes (clearTree p) d fun result d' => ∀ u, result = .ok u →
      d'.outside = d.outside ∧ (∀ r, p <+: r → d'.tree.node r = none) ∧
        ∀ r, ¬p <+: r → d'.tree.node r = d.tree.node r := by
  refine wp_attempt_of (establishes_pathExists p) fun there d₁ hd₁ => ?_
  obtain ⟨rfl, hthere⟩ := hd₁
  rw [wp_ite]
  refine ⟨fun _ => ?_, fun hmissing u _ => ?_⟩
  · refine wp_orRaise_of fun o => ⟨trivial, fun hok => ?_⟩
    have hremove := Call.removeTree_ok hbehind hok
    rw [diskMachine_perform, hremove]
    exact ⟨rfl, fun r hr => if_pos hr, fun r hr => if_neg hr⟩
  · have hnone : d₁.tree.node p = none := not_not.mp fun h => hmissing (hthere.mpr h)
    refine ⟨rfl, ?_, fun _ _ => rfl⟩
    rintro _ ⟨rest, rfl⟩
    by_cases hrest : rest = []
    · rw [hrest, List.append_nil, hnone]
    · exact Tree.node_append_eq_none (by rw [hnone]; exact nofun) hrest

section Siblings

variable {d' : Disk FileName UInt8}

/-- **The new tree is put in its place.** -/
theorem Filled.placed (hd : Filled (dir ++ [hidden]) files d.tree) (hne : name ≠ hidden)
    (hnode : d'.tree.node = d.tree.moved (dir ++ [hidden]) (dir ++ [name])) :
    Filled (dir ++ [name]) files d'.tree ∧
      (∀ r, dir ++ [hidden] <+: r → d'.tree.node r = none) ∧
      ∀ r, ¬dir ++ [name] <+: r → ¬dir ++ [hidden] <+: r → d'.tree.node r = d.tree.node r := by
  refine ⟨hd.moved hnode, fun r hr => ?_, fun r hname hhidden => ?_⟩
  · rw [hnode]
    exact Tree.moved_source (not_prefix_of_sibling hne.symm hr) hr
  · rw [hnode]
    exact Tree.moved_other hname hhidden

/-- **The old tree is moved aside**, and the new one is left alone. -/
theorem Filled.moved_aside (hd : Filled (dir ++ [hidden]) files d.tree) (hname : name ≠ hidden)
    (haside : aside ≠ hidden) (hnode : d'.tree.node = d.tree.moved (dir ++ [name]) (dir ++ [aside])) :
    Filled (dir ++ [hidden]) files d'.tree ∧
      ∀ r, ¬dir ++ [name] <+: r → ¬dir ++ [aside] <+: r → d'.tree.node r = d.tree.node r := by
  have hother : ∀ r, ¬dir ++ [name] <+: r → ¬dir ++ [aside] <+: r →
      d'.tree.node r = d.tree.node r := by
    intro r hn ha
    rw [hnode]
    exact Tree.moved_other ha hn
  refine ⟨hd.congr fun rest => hother _ ?_ ?_, hother⟩
  · exact not_prefix_of_sibling hname.symm (List.prefix_append _ rest)
  · exact not_prefix_of_sibling haside.symm (List.prefix_append _ rest)

end Siblings

/-- The three names of a tree: they are different, and none of them leads up. -/
structure TreeNames (name hidden aside : FileName) : Prop where
  name_ne_up : name ≠ up
  hidden_ne_up : hidden ≠ up
  aside_ne_up : aside ≠ up
  name_ne_hidden : name ≠ hidden
  name_ne_aside : name ≠ aside
  aside_ne_hidden : aside ≠ hidden

/-- A name in a plain directory is reached without links. -/
theorem not_behind_concat {t : Tree FileName UInt8} (hplain : t.Plain up dir) (hname : name ≠ up) :
    ¬t.Behind up (dir ++ [name]) :=
  hplain.not_behind (List.dropLast_concat ▸ List.prefix_refl dir)
    (up_not_mem_concat hplain.not_up hname)

/-- **A new tree in its place**, with its temporary name gone, and nothing changed elsewhere. -/
structure Placed (dir : List FileName) (name hidden aside : FileName)
    (files : List (List FileName × Bytes)) (d d' : Disk FileName UInt8) : Prop where
  outside : d'.outside = d.outside
  filled : Filled (dir ++ [name]) files d'.tree
  gone : ∀ r, dir ++ [hidden] <+: r → d'.tree.node r = none
  frame : d.tree.Frame (· <+: dir)
    (fun p => dir ++ [name] <+: p ∨ dir ++ [hidden] <+: p ∨ dir ++ [aside] <+: p) d'.tree

/-- A directory above is the same where nothing has changed but below a name. -/
theorem plain_of_other {t t' : Tree FileName UInt8} (hplain : t.Plain up dir)
    (hother : ∀ r, ¬dir ++ [name] <+: r → ¬dir ++ [hidden] <+: r → t'.node r = t.node r) :
    t'.Plain up dir := by
  refine ⟨hplain.not_up, fun q hq => ?_⟩
  rw [hother q (not_prefix_of_above hq) (not_prefix_of_above hq)]
  exact hplain.not_link q hq

theorem establishes_exchangeTree (hnames : TreeNames name hidden aside)
    (hplain : d.tree.Plain up dir) (hd : Filled (dir ++ [hidden]) files d.tree) :
    Establishes (exchangeTree (dir ++ [name]) (dir ++ [hidden]) (dir ++ [aside])) d fun result d' =>
      ∀ u, result = .ok u → Placed dir name hidden aside files d d' := by
  refine wp_attempt_of (establishes_pathExists _) fun _ d₁ hd₁ => ?_
  obtain ⟨rfl, -⟩ := hd₁
  rw [wp_look]
  have hname := not_behind_concat hplain hnames.name_ne_up
  have hhidden := not_behind_concat hplain hnames.hidden_ne_up
  have haside := not_behind_concat hplain hnames.aside_ne_up
  split
  · refine wp_orRaise_of fun o => ⟨trivial, fun hok => ?_⟩
    obtain ⟨hout, -, hnode⟩ := Call.rename_ok hhidden hname hok
    obtain ⟨hfilled, hgone, hother⟩ := hd.placed hnames.name_ne_hidden hnode
    refine ⟨hout, hfilled, hgone, fun r hr => .inl ?_⟩
    rw [not_or, not_or] at hr
    exact hother r hr.1 hr.2.1
  · have hmove : Establishes (run (.rename (dir ++ [name]) (dir ++ [aside]))) d₁ fun ok d₂ =>
        ok = true → d₂.outside = d₁.outside ∧
          d₂.tree.node = d₁.tree.moved (dir ++ [name]) (dir ++ [aside]) := fun o =>
      ⟨trivial, fun hok =>
        ⟨(Call.rename_ok hname haside hok).1, (Call.rename_ok hname haside hok).2.2⟩⟩
    refine wp_attempt_of (wp_orRaise_of hmove) fun _ d₂ hd₂ => wp_rescue_of ?_
    obtain ⟨hout₂, hnode₂⟩ := hd₂
    obtain ⟨hfilled₂, hother₂⟩ := hd.moved_aside hnames.name_ne_hidden hnames.aside_ne_hidden hnode₂
    have hplain₂ := plain_of_other hplain hother₂
    have hplace : Establishes (run (.rename (dir ++ [hidden]) (dir ++ [name]))) d₂ fun ok d₃ =>
        ok = true → d₃.outside = d₂.outside ∧
          d₃.tree.node = d₂.tree.moved (dir ++ [hidden]) (dir ++ [name]) := by
      refine fun o => ⟨trivial, fun hok => ?_⟩
      obtain ⟨hout, -, hnode⟩ := Call.rename_ok (not_behind_concat hplain₂ hnames.hidden_ne_up)
        (not_behind_concat hplain₂ hnames.name_ne_up) hok
      exact ⟨hout, hnode⟩
    refine wp_attempt_of (wp_orRaise_of hplace) fun _ d₃ hd₃ => ?_
    obtain ⟨hout₃, hnode₃⟩ := hd₃
    obtain ⟨hfilled₃, hgone₃, hother₃⟩ := hfilled₂.placed hnames.name_ne_hidden hnode₃
    have hplain₃ := plain_of_other hplain₂ hother₃
    refine wp_orRaise_of fun o => ⟨trivial, fun hok => ?_⟩
    have hremove := Call.removeTree_ok (not_behind_concat hplain₃ hnames.aside_ne_up) hok
    rw [diskMachine_perform, hremove]
    refine ⟨hout₃.trans hout₂, hfilled₃.congr fun rest => ?_, fun r hr => ?_, fun r hr => .inl ?_⟩
    · exact if_neg (not_prefix_of_sibling hnames.name_ne_aside (List.prefix_append _ rest))
    · exact (if_neg (not_prefix_of_sibling hnames.aside_ne_hidden.symm hr)).trans (hgone₃ r hr)
    · rw [not_or, not_or] at hr
      exact (if_neg hr.2.2).trans ((hother₃ r hr.1 hr.2.1).trans (hother₂ r hr.1 hr.2.2))
  · exact nofun

/-- The temporary directory is made, and it is empty. -/
theorem establishes_mkdir_hidden (hplain : d.tree.Plain up dir) (hhidden : hidden ≠ up) :
    Establishes (run (.mkdir (dir ++ [hidden]))) d fun ok d' => ok = true →
      d'.outside = d.outside ∧ Filled (dir ++ [hidden]) [] d'.tree ∧
        d.tree.Frame (· <+: dir) (dir ++ [hidden] <+: ·) d'.tree := by
  refine fun o => ⟨trivial, fun hok => ?_⟩
  obtain ⟨hout, hnone, hnode⟩ := Call.mkdir_ok (not_behind_concat hplain hhidden) hok
  rw [diskMachine_perform]
  have hbelow : ∀ rest, rest ≠ [] → d.tree.node (dir ++ [hidden] ++ rest) = none :=
    fun rest hrest => Tree.node_append_eq_none (by rw [hnone]; exact nofun) hrest
  have hcases : ∀ rest, (Call.effect up (.mkdir (dir ++ [hidden])) o d).2.tree.node
      (dir ++ [hidden] ++ rest) = if rest = [] then some .directory else none := by
    intro rest
    rw [hnode]
    split
    · rename_i hrest
      rw [hrest, List.append_nil, Function.update_self]
    · rename_i hrest
      rw [Function.update_of_ne (by simpa using hrest), hbelow rest hrest]
  refine ⟨hout, ⟨?_, fun rest content => ?_, fun rest => ?_⟩, fun r hr => .inl ?_⟩
  · rw [hnode, Function.update_self]
  · rw [hcases]
    split <;> simp
  · rw [hcases]
    split <;> simp
  · have hne : r ≠ dir ++ [hidden] := fun heq => hr (heq ▸ List.prefix_refl _)
    rw [hnode, Function.update_of_ne hne]

theorem establishes_touchTree (p : List FileName) :
    Establishes (touchTree p) d fun result d' => ∀ u, result = .ok u → d' = d := by
  rw [Establishes, touchTree, wp_look]
  refine wp_orRaise_of ?_
  generalize (((diskMachine up).obs d).tree.paths.filter fun q => p <+: q) = paths
  induction paths with
  | nil => exact fun _ => rfl
  | cons q rest ih =>
    have htouch : Establishes (run (.touch q)) d fun ok d' => ok = true → d' = d :=
      fun o => ⟨trivial, fun _ => rfl⟩
    refine wp_all_of htouch fun d' hd' => ?_
    subst hd'
    exact ih

theorem eq_of_stagedFiles {staging : Tree FileName UInt8} {source : List FileName}
    (h : stagedFiles staging source = .ok files) : files = staging.filesBelow source := by
  rw [stagedFiles] at h
  simp only [Except.bind_eq_ok] at h
  obtain ⟨-, -, -, -, h⟩ := h
  exact (Except.ok.inj h).symm

/-- A new tree after something else was done beside it. -/
theorem Placed.after {d₁ d₂ : Disk FileName UInt8} (hout : d₁.outside = d.outside)
    (hframe : d.tree.Frame (· <+: dir) (dir ++ [hidden] <+: ·) d₁.tree)
    (hplaced : Placed dir name hidden aside files d₁ d₂) :
    Placed dir name hidden aside files d d₂ where
  outside := hplaced.outside.trans hout
  filled := hplaced.filled
  gone := hplaced.gone
  frame := (hframe.mono (fun _ h _ => h) fun _ h => .inr (.inl h)).trans hplaced.frame

/-- A new tree is left alone when another name beside it is cleared. -/
theorem Placed.cleared {d₁ d₂ : Disk FileName UInt8} {cleared : FileName}
    (hplaced : Placed dir name hidden aside files d d₁) (hname : name ≠ cleared)
    (hcleared : cleared = hidden ∨ cleared = aside) (hout : d₂.outside = d₁.outside)
    (hgone : ∀ r, dir ++ [cleared] <+: r → d₂.tree.node r = none)
    (hother : ∀ r, ¬dir ++ [cleared] <+: r → d₂.tree.node r = d₁.tree.node r) :
    Placed dir name hidden aside files d d₂ where
  outside := hout.trans hplaced.outside
  filled := hplaced.filled.congr fun rest =>
    hother _ (not_prefix_of_sibling hname (List.prefix_append _ rest))
  gone r hr := by
    by_cases hbelow : dir ++ [cleared] <+: r
    · exact hgone r hbelow
    · rw [hother r hbelow, hplaced.gone r hr]
  frame := by
    refine hplaced.frame.trans fun r hr => .inl (hother r ?_)
    rw [not_or, not_or] at hr
    rcases hcleared with rfl | rfl
    · exact hr.2.1
    · exact hr.2.2

/-- **`_copy_tree` that returns has put the new tree in its place**, and no other name is left. -/
theorem establishes_copyTree {staging : Tree FileName UInt8} {source : List FileName}
    (hnames : TreeNames name hidden aside) (hplain : d.tree.Plain up dir)
    (hfiles : ∀ entry ∈ staging.filesBelow source, entry.1 ≠ [] ∧ up ∉ entry.1) :
    Establishes (copyTree staging source (dir ++ [name]) (dir ++ [hidden]) (dir ++ [aside])) d
      fun result d' => ∀ u, result = .ok u →
        Placed dir name hidden aside (staging.filesBelow source) d d' ∧
          ∀ r, dir ++ [aside] <+: r → d'.tree.node r = none := by
  rw [Establishes, copyTree]
  split
  · simp
  · rw [List.dropLast_concat]
    refine wp_attempt_of (wp_orRaise_of (establishes_mkdirs_plain hplain)) fun _ d₁ hd₁ => ?_
    obtain ⟨hout₁, hframe₁⟩ := hd₁
    have hplain₁ := hplain.frame hframe₁ fun _ _ => id
    refine wp_attempt_of (wp_orRaise_of (establishes_mkdir_hidden hplain₁ hnames.hidden_ne_up))
      fun _ d₂ hd₂ => ?_
    obtain ⟨hout₂, hfilled₂, hframe₂⟩ := hd₂
    have hplain₂ := hplain₁.frame hframe₂ fun q hq => not_prefix_of_above hq
    have hbefore := (hframe₁.mono (fun _ h _ => h) fun _ => False.elim).trans hframe₂
    refine wp_ensure_of (R := fun _ d₃ =>
      Placed dir name hidden aside (staging.filesBelow source) d d₃) ?_ ?_
    · have hlist : Establishes (done (stagedFiles staging source)) d₂ fun result d₃ => ∀ files,
          result = .ok files → files = staging.filesBelow source ∧ d₃ = d₂ :=
        fun files hok => ⟨eq_of_stagedFiles hok, rfl⟩
      refine wp_attempt_of hlist ?_
      rintro _ _ ⟨rfl, rfl⟩
      refine wp_attempt_of (establishes_copyFiles hplain₂ hnames.hidden_ne_up hfiles hfilled₂)
        fun _ d₃ hd₃ => ?_
      obtain ⟨hout₃, hfilled₃, hframe₃⟩ := hd₃
      rw [List.nil_append] at hfilled₃
      have hplain₃ := hplain₂.frame hframe₃ fun q hq => not_prefix_of_above hq
      refine wp_attempt_of (establishes_touchTree _) fun _ d₄ hd₄ => ?_
      subst hd₄
      refine wp_mono (establishes_exchangeTree hnames hplain₃ hfilled₃) (fun _ h => h) ?_
      intro result d₅ hd₅ u hu
      exact (hd₅ u hu).after (hout₃.trans (hout₂.trans hout₁)) (hbefore.trans hframe₃)
    · intro _ d₃ hplaced
      have hplain₃ := hplain.frame hplaced.frame fun q hq => not_or.mpr
        ⟨not_prefix_of_above hq, not_or.mpr ⟨not_prefix_of_above hq, not_prefix_of_above hq⟩⟩
      refine wp_attempt_of (establishes_clearTree (not_behind_concat hplain₃ hnames.hidden_ne_up))
        fun _ d₄ hd₄ => ?_
      obtain ⟨hout₄, hgone₄, hother₄⟩ := hd₄
      have hplaced₄ := hplaced.cleared hnames.name_ne_hidden (.inl rfl) hout₄ hgone₄ hother₄
      have hplain₄ := plain_of_other hplain₃ fun r hr (_ : ¬dir ++ [hidden] <+: r) => hother₄ r hr
      refine wp_mono (establishes_clearTree (not_behind_concat hplain₄ hnames.aside_ne_up))
        (fun _ h => h) fun result d₅ hd₅ u hu => ?_
      obtain ⟨hout₅, hgone₅, hother₅⟩ := hd₅ u hu
      exact ⟨hplaced₄.cleared hnames.name_ne_aside (.inr rfl) hout₅ hgone₅ hother₅, hgone₅⟩
  · simp

end Trees

/-! ### The names that are used -/

section Names

variable (names : RestoreNames) (dir : List FileName) (name : FileName)

/-- The temporary name beside a name. -/
def hiddenName : FileName := fileName "." ++ name ++ fileName ".restore-" ++ names.restore (dir ++ [name])

/-- The name of what is moved aside. -/
def asideName : FileName :=
  fileName "." ++ name ++ fileName ".previous-" ++ names.previous (dir ++ [name])

theorem temporary_concat : names.temporary (dir ++ [name]) = dir ++ [hiddenName names dir name] := by
  rw [RestoreNames.temporary, RestoreNames.beside, List.dropLast_concat, List.getLast?_concat]
  rfl

theorem old_concat : names.old (dir ++ [name]) = dir ++ [asideName names dir name] := by
  rw [RestoreNames.old, RestoreNames.beside, List.dropLast_concat, List.getLast?_concat]
  rfl

/-- **The names are different**, whatever their random ends are. -/
theorem treeNames {name : FileName} (hname : name ≠ up) :
    TreeNames name (hiddenName names dir name) (asideName names dir name) := by
  have hdot : (fileName ".").length = 1 := by decide
  have hrestore : (fileName ".restore-").length = 9 := by decide
  have hprevious : (fileName ".previous-").length = 10 := by decide
  have hup : up.length = 2 := by decide
  have hhidden : (hiddenName names dir name).length =
      10 + name.length + (names.restore (dir ++ [name])).length := by
    simp only [hiddenName, List.length_append, hdot, hrestore]
    omega
  have haside : (asideName names dir name).length =
      11 + name.length + (names.previous (dir ++ [name])).length := by
    simp only [asideName, List.length_append, hdot, hprevious]
    omega
  refine ⟨hname, fun heq => ?_, fun heq => ?_, fun heq => ?_, fun heq => ?_, fun heq => ?_⟩
  · have := congrArg List.length heq
    omega
  · have := congrArg List.length heq
    omega
  · have := congrArg List.length heq
    omega
  · have := congrArg List.length heq
    omega
  · -- the tags begin with different letters
    have htags : fileName ".restore-" = 46 :: 114 :: (fileName ".restore-").drop 2 ∧
        fileName ".previous-" = 46 :: 112 :: (fileName ".previous-").drop 2 := by decide
    rw [asideName, hiddenName, List.append_assoc, List.append_assoc, List.append_assoc,
      List.append_assoc, List.append_cancel_left_eq, List.append_cancel_left_eq, htags.1, htags.2] at heq
    simp at heq

end Names

end EzOpenPN
