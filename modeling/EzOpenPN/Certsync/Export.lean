import EzOpenPN.Certsync.Discover
import EzOpenPN.Lib.Script

/-!
# Exporting a certificate

`Export` puts a chain, its key and the health record into the output directory: it stages the three
files under temporary names, renames the chain, renames the key, and renames the health record after
the directory was synced. `CheckHealth` reads the three files and applies the conditions of the
discovery to them.

`EzOpenPN.Certsync.discover_export_checkHealth` says how far the three agree: what is discovered can
be exported, what is exported is healthy and is not written again, and a health check that passes is
right about the files, at whatever step of an export it looks. There is one exception, and the code
has it on purpose: an expiry whose year JSON cannot write is no valid certificate to the export,
though the discovery takes it (`EzOpenPN.Certsync.export_refuses_west`).

The export is a `Script` over the file-system calls it makes (`EzOpenPN.Certsync.exportPair`); each call
may fail, and a write that fails may leave part of its content. The calls change an `Output`, the
directory with the three files and the temporary ones.
-/

namespace EzOpenPN

namespace Certsync

/-! ### The output directory -/

/-- The exported files. -/
inductive ExportName where
  | fullchain
  | privkey
  | health
  deriving DecidableEq, Repr

/-- What stands at the output path. -/
inductive OutputNode where
  /-- The path is empty. -/
  | unnamed
  | missing
  | directory
  | symlink
  | other
  deriving DecidableEq

/-- A temporary file: its content and its permission bits. -/
structure TempFile where
  content : Bytes
  perm : ℕ

/-- **The output directory.** Temporary files have names of their own; they are numbered. -/
structure Output where
  node : OutputNode
  files : ExportName → Option Entry
  temps : ℕ → Option TempFile
  nextTemp : ℕ

/-- The bytes of an exported file. -/
def Output.content (o : Output) (name : ExportName) : Option Bytes :=
  match o.files name with
  | some (.regular content _) => some content
  | _ => none

/-- **The file-system calls of the export.** -/
inductive Call where
  | mkdirAll
  /-- `os.Lstat` and `readRegularFile` of an exported file. -/
  | read (name : ExportName)
  | createTemp
  | chmod (temp : ℕ)
  | write (temp : ℕ) (content : Bytes)
  | sync (temp : ℕ)
  | close (temp : ℕ)
  | remove (temp : ℕ)
  | rename (temp : ℕ) (name : ExportName)
  | syncDirectory
  deriving DecidableEq

/-- How a call goes: a failing write leaves some first bytes of its content. -/
inductive Fault where
  | none
  | fails (left : ℕ)
  deriving DecidableEq

/-- Set a temporary file. -/
def Output.setTemp (o : Output) (temp : ℕ) (file : Option TempFile) : Output :=
  { o with temps := Function.update o.temps temp file }

/-- Set an exported file. -/
def Output.setFile (o : Output) (name : ExportName) (entry : Option Entry) : Output :=
  { o with files := Function.update o.files name entry }

/-- **A call that meets no fault**: whether it succeeds, and what it does. -/
def Call.effect : Call → Output → Bool × Output
  | .mkdirAll, o =>
    match o.node with
    | .missing => (true, { o with node := .directory })
    | .directory => (true, o)
    | .symlink => (true, o)
    | _ => (false, o)
  | .read _, o => (true, o)
  | .createTemp, o => (true, { o.setTemp o.nextTemp (some ⟨[], 0o600⟩) with
      nextTemp := o.nextTemp + 1 })
  | .chmod temp, o => (true, o.setTemp temp ((o.temps temp).map fun f => { f with perm := 0o640 }))
  | .write temp content, o =>
    (true, o.setTemp temp ((o.temps temp).map fun f => { f with content := f.content ++ content }))
  | .sync _, o => (true, o)
  | .close _, o => (true, o)
  | .remove temp, o => (true, o.setTemp temp none)
  | .rename temp name, o =>
    match o.temps temp, o.files name with
    | none, _ => (false, o)
    -- a file does not replace a directory
    | some _, some (.directory _) => (false, o)
    | some f, _ => (true, (o.setFile name (some (.regular f.content f.perm))).setTemp temp none)
  | .syncDirectory, o => (true, o)

/-- A call that fails: only a write leaves a trace. -/
def Call.failing : Call → ℕ → Output → Output
  | .write temp content, left, o =>
    o.setTemp temp ((o.temps temp).map fun f => { f with content := f.content ++ content.take left })
  | _, _, o => o

/-- **The machine of the output directory.** -/
def outputMachine : Machine Output Call Fault Output where
  obs := id
  perform c x o :=
    match x with
    | .none => c.effect o
    | .fails left => (false, c.failing left o)

@[simp] theorem outputMachine_obs (o : Output) : outputMachine.obs o = o := rfl

@[simp] theorem outputMachine_perform_none (c : Call) (o : Output) :
    outputMachine.perform c .none o = c.effect o := rfl

@[simp] theorem outputMachine_perform_fails (c : Call) (left : ℕ) (o : Output) :
    outputMachine.perform c (.fails left) o = (false, c.failing left o) := rfl

/-! ### The export -/

variable (lib : Library)

/-- **`validatePair`**: the leaf of a valid pair. -/
def validatePair (pair : Pair) : Option Certificate :=
  match to4 pair.ip with
  | none => none
  | some ip =>
    if pair.certificatePEM.isEmpty || pair.privateKeyPEM.isEmpty then none
    else if !lib.keyPair pair.certificatePEM pair.privateKeyPEM then none
    else
      match pemCertificate lib pair.certificatePEM with
      | none => none
      | some leaf =>
        if leaf.ipAddresses.any fun candidate => to4 candidate == some ip then some leaf else none

/-- The health record of a pair and its leaf. -/
def healthOf (pair : Pair) (leaf : Certificate) : Health :=
  ⟨((to4 pair.ip).map IPv4.text).getD [], leaf.until, fingerprintOf lib leaf⟩

/-- The files of an export. -/
abbrev Files := List (ExportName × Bytes)

/-- A file that need not be written again. -/
def sameFile (entry : Option Entry) (content : Bytes) : Bool :=
  match entry with
  | some (.regular _ perm) =>
    perm == 0o640 && readRegularFile entry maximumPEMSize == some content
  | _ => false

/-- `exportMatches`. -/
def exportMatches : Files → Script Output Call Bool
  | [] => .done true
  | (name, content) :: rest => .call (.read name) fun ok => .look fun o =>
    if ok && sameFile (o.files name) content then exportMatches rest else .done false

/-- `stageFile` after the file was created: a file that fails is removed. -/
def fillTemp (temp : ℕ) (content : Bytes) : Script Output Call (Option ℕ) :=
  (Script.all [.run (.chmod temp), .run (.write temp content), .run (.sync temp),
    .run (.close temp)]).bind fun ok =>
      if ok then .done (some temp)
      else .call (.close temp) fun _ => .call (.remove temp) fun _ => .done none

/-- `stageFile`: the temporary file, if staging succeeds. -/
def stageFile (content : Bytes) : Script Output Call (Option ℕ) :=
  .look fun o => .call .createTemp fun ok =>
    if ok then fillTemp o.nextTemp content else .done none

/-- The files staged so far, and whether all are. -/
def stageAll : Files → List (ℕ × ExportName) → Script Output Call (Bool × List (ℕ × ExportName))
  | [], staged => .done (true, staged)
  | (name, content) :: rest, staged => (stageFile content).bind fun temp =>
    match temp with
    | some temp => stageAll rest (staged ++ [(temp, name)])
    | none => .done (false, staged)

/-- The deferred removal of the staged files. -/
def removeStaged : List (ℕ × ExportName) → Script Output Call Unit
  | [] => .done ()
  | (temp, _) :: rest => .call (.remove temp) fun _ => removeStaged rest

/-- `ensureOutputDirectory`. -/
def ensureOutputDirectory : Script Output Call Bool :=
  .look fun o =>
    if o.node = .unnamed then .done false
    else .call .mkdirAll fun ok => .look fun o => .done (ok && decide (o.node = .directory))

/-- How far the export got before the first rename. -/
inductive Prepared where
  | refused
  | unchanged
  | staged (complete : Bool) (staged : List (ℕ × ExportName))

/-- **The export up to the first rename.** -/
def prepare (files : Files) : Script Output Call Prepared :=
  ensureOutputDirectory.bind fun ok =>
    if ok then
      (exportMatches files).bind fun same =>
        if same then .done .unchanged
        else (stageAll files []).bind fun s => .done (.staged s.1 s.2)
    else .done .refused

/-- **The renames**, and whether all succeeded. -/
def commitStaged : List (ℕ × ExportName) → Script Output Call Bool
  | [chain, key, health] =>
    Script.all [.run (.rename chain.1 chain.2), .run (.rename key.1 key.2), .run .syncDirectory,
      .run (.rename health.1 health.2), .run .syncDirectory]
  | _ => .done false

/-- The files that a pair exports; a time that JSON cannot write is an error. -/
def exportFiles (pair : Pair) (leaf : Certificate) : Option Files :=
  (marshalHealth (healthOf lib pair leaf)).map fun health =>
    [(.fullchain, pair.certificatePEM), (.privkey, pair.privateKeyPEM), (.health, health)]

/-- **`Export`** of prepared files: whether it succeeded. -/
def exportAll (files : Files) : Script Output Call Bool :=
  (prepare files).bind fun prepared =>
    match prepared with
    | .refused => .done false
    | .unchanged => .done true
    | .staged complete staged =>
      (if complete then commitStaged staged else .done false).bind fun ok =>
        (removeStaged staged).bind fun _ => .done ok

/-- **`Export`**: the error, or success. -/
def exportPair (pair : Pair) : Script Output Call (Except Error Unit) :=
  match (validatePair lib pair).bind (exportFiles lib pair) with
  | none => .done (.error .invalidCertificate)
  | some files => (exportAll files).bind fun ok =>
    .done (if ok then .ok () else .error .invalidCertificate)

/-! ### The health check -/

/-- The largest health file. -/
def maximumHealthSize : ℕ := 4096

/-- **`CheckHealth`** of the health file of an output directory. -/
def checkHealth (o : Output) (now minimumValidity : Time) : Bool :=
  if minimumValidity ≤ 0 then false
  else
    match (readRegularFile (o.files .health) maximumHealthSize).bind
        (decodeHealth lib.parseTime) with
    | none => false
    | some health =>
      match (parseIP health.ip).bind to4 with
      | none => false
      | some ip =>
        if health.fingerprint.isEmpty then false
        else
          match readRegularFile (o.files .fullchain) maximumPEMSize,
              readRegularFile (o.files .privkey) maximumPEMSize with
          | some certificatePEM, some privateKeyPEM =>
            if !lib.keyPair certificatePEM privateKeyPEM then false
            else
              match pemCertificate lib certificatePEM with
              | none => false
              | some leaf =>
                certificateMatches leaf ip now minimumValidity &&
                  health.fingerprint == fingerprintOf lib leaf && health.notAfter == leaf.until
          | _, _ => false

/-! ### The export without faults -/

section Faultless

/-- Staging a file puts its content under a new name. -/
theorem eval_stageFile (content : Bytes) (o : Output) :
    (stageFile content).eval outputMachine .none o =
      (some o.nextTemp, { o.setTemp o.nextTemp (some ⟨content, 0o640⟩) with
        nextTemp := o.nextTemp + 1 }) := by
  simp [stageFile, fillTemp, Script.eval, Script.all, Script.run, Script.bind, Call.effect,
    Output.setTemp]

/-- A file that is the same is read as it is. -/
theorem readRegularFile_of_sameFile {entry : Option Entry} {content : Bytes}
    (h : sameFile entry content = true) :
    readRegularFile entry maximumPEMSize = some content := by
  rcases entry with _ | (⟨content', perm⟩ | _ | _ | _ | _)
  all_goals simp only [sameFile, Bool.and_eq_true, beq_iff_eq, Bool.false_eq_true] at h
  exact h.2

/-- A file with the content and the bits of an export need not be written again. -/
theorem sameFile_regular {content : Bytes} (h : 0 < content.length)
    (h' : content.length ≤ maximumPEMSize) :
    sameFile (some (.regular content 0o640)) content = true := by
  simp [sameFile, readRegularFile, h, h']

/-- `exportMatches` looks and changes nothing. -/
theorem eval_exportMatches (files : Files) (o : Output) :
    (exportMatches files).eval outputMachine .none o =
      (files.all fun f => sameFile (o.files f.1) f.2, o) := by
  induction files with
  | nil => rfl
  | cons f files ih =>
    simp only [exportMatches, Script.eval, outputMachine_perform_none, outputMachine_obs,
      Call.effect, Bool.true_and, List.all_cons]
    cases hsame : sameFile (o.files f.1) f.2 with
    | true => simpa using ih
    | false => rfl

variable {chain key health : Bytes}

/-- The three files of an export. -/
def threeFiles (chain key health : Bytes) : Files :=
  [(.fullchain, chain), (.privkey, key), (.health, health)]

/-- The output holds an export. -/
def Output.Holds (o : Output) (files : Files) : Prop :=
  o.node = .directory ∧ ∀ f ∈ files, sameFile (o.files f.1) f.2 = true

/-- **A second export changes nothing.** -/
theorem eval_exportAll_of_holds {files : Files} {o : Output} (h : o.Holds files) :
    (exportAll files).eval outputMachine .none o = (true, o) := by
  have hensure : ensureOutputDirectory.eval outputMachine .none o = (true, o) := by
    simp [ensureOutputDirectory, Script.eval, Call.effect, h.1]
  have hsame : (files.all fun f => sameFile (o.files f.1) f.2) = true :=
    List.all_eq_true.mpr h.2
  rw [exportAll, Script.eval_bind, prepare, Script.eval_bind, hensure]
  simp only [↓reduceIte]
  rw [Script.eval_bind, eval_exportMatches, hsame]
  rfl

/-- A name at which a file may be put. -/
def Free (entry : Option Entry) : Prop :=
  entry = none ∨ ∃ content perm, entry = some (.regular content perm)

/-- A rename onto a free name succeeds. -/
theorem effect_rename {o : Output} {temp : ℕ} {name : ExportName} {f : TempFile}
    (htemp : o.temps temp = some f) (hfree : Free (o.files name)) :
    Call.effect (.rename temp name) o =
      (true, (o.setFile name (some (.regular f.content f.perm))).setTemp temp none) := by
  rcases hfree with hfree | ⟨content, perm, hfree⟩ <;> simp [Call.effect, htemp, hfree]

/-- **The renames succeed** when three files are staged and the names are free. -/
theorem eval_commitStaged {o : Output} {i j l : ℕ} {fi fj fl : TempFile}
    (hi : o.temps i = some fi) (hj : o.temps j = some fj) (hl : o.temps l = some fl)
    (hij : i ≠ j) (hil : i ≠ l) (hjl : j ≠ l) (hfree : ∀ name, Free (o.files name)) :
    ∃ o', (commitStaged [(i, .fullchain), (j, .privkey), (l, .health)]).eval outputMachine .none o =
        (true, o') ∧ o'.node = o.node ∧
      o'.files .fullchain = some (.regular fi.content fi.perm) ∧
      o'.files .privkey = some (.regular fj.content fj.perm) ∧
      o'.files .health = some (.regular fl.content fl.perm) := by
  have hchain := effect_rename hi (hfree .fullchain)
  obtain ⟨o₁, ho₁⟩ : ∃ o₁, o₁ = (o.setFile .fullchain
      (some (.regular fi.content fi.perm))).setTemp i none := ⟨_, rfl⟩
  have hkey : Call.effect (.rename j .privkey) o₁ =
      (true, (o₁.setFile .privkey (some (.regular fj.content fj.perm))).setTemp j none) := by
    refine effect_rename ?_ ?_
    · simp [ho₁, Output.setTemp, Output.setFile, hij.symm, hj]
    · simpa [ho₁, Output.setTemp, Output.setFile] using hfree .privkey
  obtain ⟨o₂, ho₂⟩ : ∃ o₂, o₂ = (o₁.setFile .privkey
      (some (.regular fj.content fj.perm))).setTemp j none := ⟨_, rfl⟩
  have hhealth : Call.effect (.rename l .health) o₂ =
      (true, (o₂.setFile .health (some (.regular fl.content fl.perm))).setTemp l none) := by
    refine effect_rename ?_ ?_
    · simp [ho₂, ho₁, Output.setTemp, Output.setFile, hil.symm, hjl.symm, hl]
    · simpa [ho₂, ho₁, Output.setTemp, Output.setFile] using hfree .health
  refine ⟨(o₂.setFile .health (some (.regular fl.content fl.perm))).setTemp l none, ?_, ?_⟩
  · rw [← ho₁] at hchain
    rw [← ho₂] at hkey
    have hsync : ∀ u, Call.effect .syncDirectory u = (true, u) := fun _ => rfl
    simp only [commitStaged, Script.all, Script.run, Script.bind, Script.eval,
      outputMachine_perform_none, hchain, hkey, hhealth, hsync, ↓reduceIte]
  · simp [ho₂, ho₁, Output.setTemp, Output.setFile]

/-- The removal of what is no longer there leaves the files alone. -/
theorem eval_removeStaged (staged : List (ℕ × ExportName)) (o : Output) :
    ((removeStaged staged).eval outputMachine .none o).2.node = o.node ∧
      ((removeStaged staged).eval outputMachine .none o).2.files = o.files := by
  induction staged generalizing o with
  | nil => exact ⟨rfl, rfl⟩
  | cons p staged ih => exact ih _

/-- **Staging without faults**: three new temporary files, and the exported files as before. -/
theorem eval_prepare {o : Output} (hnode : o.node = .directory ∨ o.node = .missing)
    (hdiffers : ∃ f ∈ threeFiles chain key health, sameFile (o.files f.1) f.2 = false) :
    ∃ n o', (prepare (threeFiles chain key health)).eval outputMachine .none o =
        (.staged true [(n, .fullchain), (n + 1, .privkey), (n + 2, .health)], o') ∧
      o'.node = .directory ∧ o'.files = o.files ∧ o'.temps n = some ⟨chain, 0o640⟩ ∧
      o'.temps (n + 1) = some ⟨key, 0o640⟩ ∧ o'.temps (n + 2) = some ⟨health, 0o640⟩ := by
  obtain ⟨o₁, hensure, hnode₁, hfiles₁⟩ : ∃ o₁,
      ensureOutputDirectory.eval outputMachine .none o = (true, o₁) ∧ o₁.node = .directory ∧
        o₁.files = o.files := by
    rcases hnode with hnode | hnode <;>
      simp [ensureOutputDirectory, Script.eval, Call.effect, hnode]
  have hsame : (threeFiles chain key health).all (fun f => sameFile (o₁.files f.1) f.2) =
      false := by
    obtain ⟨f, hf, hdiffers⟩ := hdiffers
    rw [List.all_eq_false]
    refine ⟨f, hf, ?_⟩
    rw [hfiles₁, hdiffers]
    decide
  obtain ⟨o₂, hstage, hrest⟩ : ∃ o₂,
      (stageAll (threeFiles chain key health) []).eval outputMachine .none o₁ =
        ((true, [(o₁.nextTemp, .fullchain), (o₁.nextTemp + 1, .privkey),
          (o₁.nextTemp + 2, .health)]), o₂) ∧ o₂.node = .directory ∧ o₂.files = o₁.files ∧
        o₂.temps o₁.nextTemp = some ⟨chain, 0o640⟩ ∧
        o₂.temps (o₁.nextTemp + 1) = some ⟨key, 0o640⟩ ∧
        o₂.temps (o₁.nextTemp + 2) = some ⟨health, 0o640⟩ := by
    simp [threeFiles, stageAll, Script.eval_bind, eval_stageFile, Script.eval, Output.setTemp,
      hnode₁]
    rw [Function.update_of_ne (by omega), Function.update_of_ne (by omega), Function.update_self]
  rw [hfiles₁] at hrest
  refine ⟨o₁.nextTemp, o₂, ?_, hrest⟩
  rw [prepare, Script.eval_bind, hensure]
  simp only [↓reduceIte]
  rw [Script.eval_bind, eval_exportMatches, hsame]
  simp only [Bool.false_eq_true, ↓reduceIte]
  rw [Script.eval_bind, hstage]
  rfl

/-- **An export without faults succeeds**, and the output then holds it. -/
theorem eval_exportAll {o : Output} (hnode : o.node = .directory ∨ o.node = .missing)
    (hfree : ∀ name, Free (o.files name))
    (hsize : ∀ f ∈ threeFiles chain key health, 0 < f.2.length ∧ f.2.length ≤ maximumPEMSize) :
    ∃ o', (exportAll (threeFiles chain key health)).eval outputMachine .none o = (true, o') ∧
      o'.Holds (threeFiles chain key health) := by
  by_cases hdiffers : ∃ f ∈ threeFiles chain key health, sameFile (o.files f.1) f.2 = false
  · obtain ⟨n, o₂, hprepare, hnode₂, hfiles₂, hi, hj, hl⟩ := eval_prepare hnode hdiffers
    obtain ⟨o₃, hcommit, hnode₃, hchain, hkey, hhealth⟩ := eval_commitStaged hi hj hl
      (by omega) (by omega) (by omega) (fun name => by rw [hfiles₂]; exact hfree name)
    obtain ⟨hnode₄, hfiles₄⟩ := eval_removeStaged [(n, .fullchain), (n + 1, .privkey),
      (n + 2, .health)] o₃
    refine ⟨_, ?_, hnode₄.trans (hnode₃.trans hnode₂), ?_⟩
    · rw [exportAll, Script.eval_bind, hprepare]
      simp only [↓reduceIte]
      rw [Script.eval_bind, hcommit, Script.eval_bind]
      rfl
    · intro f hf
      rw [hfiles₄]
      have hf' := hsize f hf
      simp only [threeFiles, List.mem_cons, List.not_mem_nil, or_false] at hf
      rcases hf with rfl | rfl | rfl
      · rw [hchain]
        exact sameFile_regular hf'.1 hf'.2
      · rw [hkey]
        exact sameFile_regular hf'.1 hf'.2
      · rw [hhealth]
        exact sameFile_regular hf'.1 hf'.2
  · -- nothing differs: only the directory may have to be made
    push Not at hdiffers
    have hsame : ∀ f ∈ threeFiles chain key health, sameFile (o.files f.1) f.2 = true :=
      fun f hf => by simpa using hdiffers f hf
    have hholds : ({ o with node := .directory } : Output).Holds (threeFiles chain key health) :=
      ⟨rfl, hsame⟩
    refine ⟨{ o with node := .directory }, ?_, hholds⟩
    have hall : ((threeFiles chain key health).all fun f => sameFile (o.files f.1) f.2) = true :=
      List.all_eq_true.mpr hsame
    have hensure : ensureOutputDirectory.eval outputMachine .none o =
        (true, { o with node := .directory }) := by
      rcases hnode with hnode | hnode
      · simp only [ensureOutputDirectory, Script.eval, outputMachine_obs, hnode, reduceCtorEq,
          ↓reduceIte, outputMachine_perform_none, Call.effect, decide_true, Bool.and_self]
        rw [← hnode]
      · simp [ensureOutputDirectory, Script.eval, Call.effect, hnode]
    rw [exportAll, Script.eval_bind, prepare, Script.eval_bind, hensure]
    simp only [↓reduceIte]
    rw [Script.eval_bind, eval_exportMatches, hall]
    rfl

end Faultless

/-! ### Discovery, export and health check agree -/

variable {lib}

/-- The address of a leaf that matches. -/
theorem any_to4_of_certificateMatches {leaf : Certificate} {wanted : IPv4} {now v : Time}
    (h : certificateMatches leaf wanted now v = true) :
    (leaf.ipAddresses.any fun candidate => to4 candidate == some wanted) = true := by
  simp only [certificateMatches, Bool.and_eq_true] at h
  exact h.2

/-- The end of validity is a whole second of its year. -/
theorem exists_until_eq {leaf : Certificate} (h : FourDigitYear leaf.until) :
    ∃ seconds : ℕ, leaf.until = ((seconds * second : ℕ) : ℤ) ∧
      seconds / 86400 < (Calendar.yearLengths 10000).sum := by
  obtain ⟨hnonneg, hyear⟩ := h
  -- an expiry is a whole number of seconds
  have hafter : 0 ≤ leaf.notAfter := nonneg_of_mul_nonneg_left hnonneg (by decide)
  have huntil : leaf.until = ((leaf.notAfter.toNat * second : ℕ) : ℤ) := by
    rw [Certificate.until, Nat.cast_mul, Int.toNat_of_nonneg hafter]
  rw [huntil, Int.toNat_natCast, Nat.mul_div_cancel _ (by decide)] at hyear
  exact ⟨_, huntil, hyear⟩

/-- **The files of a pair whose leaf is parsed**, and what the health record says. -/
theorem exists_exportFiles {pair : Pair} {ip : IPv4} {leaf : Certificate}
    (hyear : FourDigitYear leaf.until) (hip : to4 pair.ip = some ip) :
    ∃ content, exportFiles lib pair leaf =
        some (threeFiles pair.certificatePEM pair.privateKeyPEM content) ∧
      0 < content.length ∧ content.length ≤ maximumHealthSize ∧
      decodeHealth lib.parseTime content = some ⟨ip.text, leaf.until, fingerprintOf lib leaf⟩ := by
  obtain ⟨seconds, huntil, hseconds⟩ := exists_until_eq hyear
  obtain ⟨content, hmarshal, hne, hlength, hdecode⟩ := decodeHealth_marshalHealth lib.parseTime
    ip hseconds (lib.sha256 leaf.raw)
  rw [← huntil] at hmarshal hdecode
  refine ⟨content, ?_, List.length_pos_iff.mpr hne, hlength, hdecode⟩
  rw [exportFiles, healthOf, hip]
  simp only [Option.map_some, Option.getD_some]
  rw [show fingerprintOf lib leaf = (lib.sha256 leaf.raw).hex from rfl, hmarshal]
  rfl

/-- **No files for an expiry that JSON cannot write**: the export ends before its first call. -/
theorem exportPair_of_not_fourDigitYear {pair : Pair} {leaf : Certificate}
    (hvalid : validatePair lib pair = some leaf) (hyear : ¬FourDigitYear leaf.until) :
    exportPair lib pair = .done (.error .invalidCertificate) := by
  have hfiles : exportFiles lib pair leaf = none := by
    rw [exportFiles, Option.map_eq_none_iff, marshalHealth_eq_none_iff]
    exact hyear
  rw [exportPair, hvalid, Option.bind_some, hfiles]

/-- **An eligible pair is valid** for the export. -/
theorem Eligible.validatePair {wanted : IPv4} {now v : Time} {pair : Pair} {leaf : Certificate}
    (h : Eligible lib wanted now v pair)
    (hleaf : pemCertificate lib pair.certificatePEM = some leaf)
    (hmatches : certificateMatches leaf wanted now v = true) :
    EzOpenPN.Certsync.validatePair lib pair = some leaf := by
  have hip : to4 pair.ip = some wanted := by
    rw [h.ip]
    rfl
  have hc : pair.certificatePEM.isEmpty = false := by
    simpa using List.length_pos_iff.mp h.certificate_size.1
  have hk : pair.privateKeyPEM.isEmpty = false := by
    simpa using List.length_pos_iff.mp h.key_size.1
  simp only [EzOpenPN.Certsync.validatePair, hip, hc, hk, Bool.or_self, Bool.false_eq_true,
    ↓reduceIte, h.keyPair, Bool.not_true, hleaf, any_to4_of_certificateMatches hmatches]

/-- The leaf and the address of a valid pair. -/
theorem validatePair_spec {pair : Pair} {leaf : Certificate}
    (h : validatePair lib pair = some leaf) :
    lib.keyPair pair.certificatePEM pair.privateKeyPEM = true ∧
      pemCertificate lib pair.certificatePEM = some leaf ∧ ∃ ip, to4 pair.ip = some ip := by
  revert h
  fun_cases validatePair lib pair
  all_goals intro h
  all_goals cases h
  rename_i ip hip _ hpair hleaf _
  exact ⟨by simpa using hpair, hleaf, ip, hip⟩

/-- **The health check accepts what it is shown of an eligible pair.** -/
theorem checkHealth_of_holds {wanted : IPv4} {now v : Time} {chain key content : Bytes}
    {leaf : Certificate} {o : Output} (hv : 0 < v) (ho : o.Holds (threeFiles chain key content))
    (hlength : content.length ≤ maximumHealthSize) (hpair : lib.keyPair chain key = true)
    (hleaf : pemCertificate lib chain = some leaf)
    (hmatches : certificateMatches leaf wanted now v = true)
    (hdecode : decodeHealth lib.parseTime content =
      some ⟨wanted.text, leaf.until, fingerprintOf lib leaf⟩) :
    checkHealth lib o now v = true := by
  have hchain := readRegularFile_of_sameFile (ho.2 (.fullchain, chain) (by simp [threeFiles]))
  have hkey := readRegularFile_of_sameFile (ho.2 (.privkey, key) (by simp [threeFiles]))
  have hhealth : readRegularFile (o.files .health) maximumHealthSize = some content := by
    have hread := readRegularFile_of_sameFile (ho.2 (.health, content) (by simp [threeFiles]))
    obtain ⟨⟨perm, hentry⟩, hpos, -⟩ := readRegularFile_eq_some hread
    simp only at hentry
    rw [hentry]
    simp only [readRegularFile, hpos, hlength, and_self, ↓reduceIte]
  have hfingerprint : (fingerprintOf lib leaf).isEmpty = false := by
    have hlen : (fingerprintOf lib leaf).length = 64 := Digest.length_hex _
    cases hf : fingerprintOf lib leaf with
    | nil => simp [hf] at hlen
    | cons c rest => rfl
  simp only [checkHealth, if_neg (not_le.mpr hv), hhealth, Option.bind_some, hdecode, parseIP_text,
    hfingerprint, Bool.false_eq_true, ↓reduceIte, hchain, hkey, hpair, Bool.not_true, hleaf,
    hmatches, BEq.rfl, Bool.and_self]

/-- **What a passing health check means**: the key fits the chain, and the health record carries
the fingerprint and the expiry of its leaf. -/
def Output.Agrees (lib : Library) (o : Output) : Prop :=
  ∃ chain key health record leaf,
    o.content .fullchain = some chain ∧ o.content .privkey = some key ∧
    o.content .health = some health ∧ lib.keyPair chain key = true ∧
    pemCertificate lib chain = some leaf ∧ decodeHealth lib.parseTime health = some record ∧
    record.fingerprint = fingerprintOf lib leaf ∧ record.notAfter = leaf.until

/-- The content of a file that was read. -/
theorem content_of_readRegularFile {o : Output} {name : ExportName} {n : ℕ} {content : Bytes}
    (h : readRegularFile (o.files name) n = some content) : o.content name = some content := by
  obtain ⟨⟨perm, hentry⟩, -⟩ := readRegularFile_eq_some h
  rw [Output.content, hentry]

/-- **A health check that passes is right**, whatever is in the directory. -/
theorem agrees_of_checkHealth {o : Output} {now v : Time} (h : checkHealth lib o now v = true) :
    o.Agrees lib := by
  revert h
  fun_cases checkHealth lib o now v
  all_goals first | exact fun h => absurd h (by decide) | skip
  -- the last branch: every condition of the check was met
  rename_i record hrecord _ _ _ chain key hkey hchain hpair leaf hleaf
  intro h
  obtain ⟨health, hhealth, hdecode⟩ := Option.bind_eq_some_iff.mp hrecord
  simp only [Bool.and_eq_true, beq_iff_eq] at h
  exact ⟨chain, key, health, record, leaf, content_of_readRegularFile hchain,
    content_of_readRegularFile hkey, content_of_readRegularFile hhealth, by simpa using hpair,
    hleaf, hdecode, h.1.2, h.2⟩

/-- **Discovery, export and health check agree.** A discovered pair whose expiry is in the years 0
to 9999 is exported without faults, the health check then passes at the same time and with the same
validity, and a second export changes nothing; a pair with any other expiry is refused before the
export makes its first call. And at every step of any export over anything, a passing check is
right. -/
theorem discover_export_checkHealth {source : Source} {wantedIP : Bytes} {now v : Time}
    {pair : Pair} (hpair : discover lib source wantedIP now v = .ok pair) {o : Output}
    (hnode : o.node = .directory ∨ o.node = .missing) (hfree : ∀ name, Free (o.files name)) :
    (FourDigitYear pair.notAfter →
      ∃ o', (exportPair lib pair).eval outputMachine .none o = (.ok (), o') ∧
        checkHealth lib o' now v = true ∧
        (exportPair lib pair).eval outputMachine .none o' = (.ok (), o')) ∧
    (¬FourDigitYear pair.notAfter → ∀ (earlier : Output) (faults : List Fault),
      (exportPair lib pair).exec outputMachine faults earlier =
        (some (.error .invalidCertificate), earlier)) ∧
    ∀ (p : Pair) (earlier : Output) (faults : List Fault) (now' v' : Time),
      checkHealth lib ((exportPair lib p).exec outputMachine faults earlier).2 now' v' = true →
        ((exportPair lib p).exec outputMachine faults earlier).2.Agrees lib := by
  obtain ⟨hv, wanted, -, heligible⟩ := discover_eligible hpair
  obtain ⟨leaf, hleaf, hmatches, huntil, -⟩ := heligible.leaf
  have hvalid := heligible.validatePair hleaf hmatches
  rw [huntil]
  refine ⟨fun hyear => ?_, fun hyear earlier faults => ?_, fun _ _ _ _ _ h =>
    agrees_of_checkHealth h⟩
  -- without a text for the expiry nothing is called, whatever fails
  swap
  · rw [exportPair_of_not_fourDigitYear hvalid hyear]
    rfl
  have hip : to4 pair.ip = some wanted := by
    rw [heligible.ip]
    rfl
  obtain ⟨content, hfiles, hpos, hlength, hdecode⟩ := exists_exportFiles hyear hip
  have hexport : exportPair lib pair =
      (exportAll (threeFiles pair.certificatePEM pair.privateKeyPEM content)).bind fun ok =>
        .done (if ok then .ok () else .error .invalidCertificate) := by
    rw [exportPair, hvalid, Option.bind_some, hfiles]
  have hsize : ∀ f ∈ threeFiles pair.certificatePEM pair.privateKeyPEM content,
      0 < f.2.length ∧ f.2.length ≤ maximumPEMSize := by
    intro f hf
    simp only [threeFiles, List.mem_cons, List.not_mem_nil, or_false] at hf
    rcases hf with rfl | rfl | rfl
    · exact heligible.certificate_size
    · exact heligible.key_size
    · exact ⟨hpos, hlength.trans (by decide)⟩
  -- the second export finds the three files as the first one left them
  obtain ⟨o', heval, hholds⟩ := eval_exportAll hnode hfree hsize
  refine ⟨o', ?_, checkHealth_of_holds hv hholds hlength heligible.keyPair hleaf hmatches hdecode,
    ?_⟩
  · rw [hexport, Script.eval_bind, heval]
    rfl
  · rw [hexport, Script.eval_bind, eval_exportAll_of_holds hholds]
    rfl

/-! ### A certificate -/

section Sample

/-- The bytes of a number, most significant first. -/
def bigEndian (n k : ℕ) : Bytes :=
  (List.range k).map fun i => UInt8.ofNat (n / 256 ^ (k - 1 - i) % 256)

/-- A file in blocks of thirty-two bytes, with a shorter one at its end. -/
def bytesOf (blocks : List ℕ) (last k : ℕ) : Bytes :=
  (blocks.flatMap fun n => bigEndian n 32) ++ bigEndian last k

/-- A self-signed Ed25519 certificate for 203.0.113.10: its PEM file, the PEM file of its key, the
certificate in DER, its validity and its SHA-256 digest. -/
structure Issued where
  pem : Bytes
  key : Bytes
  der : Bytes
  notBefore : ℤ
  notAfter : ℤ
  digest : Digest

/-- What the parser reads. -/
def Issued.leaf (i : Issued) : Certificate :=
  ⟨i.der, i.notBefore, i.notAfter, [[203, 0, 113, 10]]⟩

/-- A private key. -/
def oldKeyFile : Bytes := bytesOf [
  0x2d2d2d2d2d424547494e2050524956415445204b45592d2d2d2d2d0a4d433443,
  0x41514177425159444b32567742434945494135554544647a37694c337a677430,
  0x614f776d476c7175427263706b67326f546e2f7339326c73663077420a2d2d2d]
  0x2d2d454e442050524956415445204b45592d2d2d2d2d0a 23

/-- Another private key. -/
def newKeyFile : Bytes := bytesOf [
  0x2d2d2d2d2d424547494e2050524956415445204b45592d2d2d2d2d0a4d433443,
  0x41514177425159444b3256774243494549456e466a4f426f53366a37334b3930,
  0x6b335a504b34634a486d575547787a2f79416b326a2f4b5454324a360a2d2d2d]
  0x2d2d454e442050524956415445204b45592d2d2d2d2d0a 23

/-- A certificate of six days. -/
def firstIssued : Issued where
  pem := bytesOf [
    0x2d2d2d2d2d424547494e2043455254494649434154452d2d2d2d2d0a4d494834,
    0x4d4947726f414d434151494341514577425159444b3256774d417778436a4149,
    0x42674e5642414d4d415867774868634e4d6a59784d5445344d5455310a4d5451,
    0x315768634e4d6a59784d5449304d5455314d545131576a414d4d516f77434159,
    0x4456515144444146344d436f77425159444b325677417945416d452b680a6d68,
    0x5a7445756e437a4b4d6e4c5279547334772b77476e6c3564474a376144556a6c,
    0x78486944536a4d6a41774d41384741315564455151494d416148424d73410a63,
    0x516f77485159445652304f424259454643776249594b637a416f33766d412f47,
    0x506447664f66426a7443564d4155474179746c63414e42414d55632b714d350a,
    0x595671534a755374634352697859445a437957515541757a6d356f6d6a4c3265,
    0x4865576f566d2b4358514b71754245624f38445246444a33313038702f37526f,
    0x0a6a536c7344774b585a4831745251733d0a2d2d2d2d2d454e44204345525449]
    0x4649434154452d2d2d2d2d0a 12
  key := oldKeyFile
  der := bytesOf [
    0x3081f83081aba003020102020101300506032b6570300c310a30080603550403,
    0x0c0178301e170d3236313131383135353134355a170d32363131323431353531,
    0x34355a300c310a300806035504030c0178302a300506032b6570032100984fa1,
    0x9a166d12e9c2cca3272d1c93b38c3ec069e5e5d189eda0d48e5c478834a33230,
    0x30300f0603551d11040830068704cb00710a301d0603551d0e041604142c1b21,
    0x829ccc0a37be603f18f7467ce7c18ed095300506032b6570034100c51cfaa339,
    0x615a9226e4ad702462c580d90b2590500bb39b9a268cbd9e1de5a8566f825d02]
    0xaab8111b3bc0d1143277d74f29ffb4688d296c0f0297647d6d450b 27
  notBefore := 63962236305
  notAfter := 63962754705
  digest := ⟨bytesOf [
    0x3ed193b5a4889ced58a7000d89a505d9439d4e7e9422444796deb3fe8a10dce2]
    0 0, by decide +kernel⟩

/-- Its renewal, with the same key. -/
def renewedIssued : Issued where
  pem := bytesOf [
    0x2d2d2d2d2d424547494e2043455254494649434154452d2d2d2d2d0a4d494834,
    0x4d4947726f414d434151494341514977425159444b3256774d417778436a4149,
    0x42674e5642414d4d415867774868634e4d6a59784d5445344d5455310a4d5451,
    0x335768634e4d6a59784d5449314d5455314d545133576a414d4d516f77434159,
    0x4456515144444146344d436f77425159444b325677417945416d452b680a6d68,
    0x5a7445756e437a4b4d6e4c5279547334772b77476e6c3564474a376144556a6c,
    0x78486944536a4d6a41774d41384741315564455151494d416148424d73410a63,
    0x516f77485159445652304f424259454643776249594b637a416f33766d412f47,
    0x506447664f66426a7443564d4155474179746c63414e42414f2f4f336a772b0a,
    0x47553361385571587142767a4f6873555a4f31676666304b506d396438506765,
    0x436e726b50627077706454744f4a6d707463416466376f41646249745a365238,
    0x0a4b423464564b45354b496f4a4f77413d0a2d2d2d2d2d454e44204345525449]
    0x4649434154452d2d2d2d2d0a 12
  key := oldKeyFile
  der := bytesOf [
    0x3081f83081aba003020102020102300506032b6570300c310a30080603550403,
    0x0c0178301e170d3236313131383135353134375a170d32363131323531353531,
    0x34375a300c310a300806035504030c0178302a300506032b6570032100984fa1,
    0x9a166d12e9c2cca3272d1c93b38c3ec069e5e5d189eda0d48e5c478834a33230,
    0x30300f0603551d11040830068704cb00710a301d0603551d0e041604142c1b21,
    0x829ccc0a37be603f18f7467ce7c18ed095300506032b6570034100efcede3c3e,
    0x194ddaf14a97a81bf33a1b1464ed607dfd0a3e6f5df0f81e0a7ae43dba70a5d4]
    0xed3899a9b5c01d7fba0075b22d67a47c281e1d54a139288a093b00 27
  notBefore := 63962236307
  notAfter := 63962841107
  digest := ⟨bytesOf [
    0xadebd4f32e19bfc1d5f49af51ac135199981378c177bb0bc097700fb32222be8]
    0 0, by decide +kernel⟩

/-- Its renewal, with a new key. -/
def rekeyedIssued : Issued where
  pem := bytesOf [
    0x2d2d2d2d2d424547494e2043455254494649434154452d2d2d2d2d0a4d494834,
    0x4d4947726f414d434151494341514d77425159444b3256774d417778436a4149,
    0x42674e5642414d4d415867774868634e4d6a59784d5445344d5455310a4d5451,
    0x335768634e4d6a59784d5449314d5455314d545133576a414d4d516f77434159,
    0x4456515144444146344d436f77425159444b325677417945415755782f0a5241,
    0x4b62316a7a427a3632387758722f36686d4b6970393265547837564256594934,
    0x36304a78696a4d6a41774d41384741315564455151494d416148424d73410a63,
    0x516f77485159445652304f4242594546493667382f6651643156557274735879,
    0x536a737455737a496f63344d4155474179746c63414e4241414f312b52464c0a,
    0x456c536742724932675a44656b414b4a594c35496a43644763456e7167316a36,
    0x672b63774e6c35613956774c5058494a594a394733365778747a4478674f3544,
    0x0a5653314355796f6d6f7441376441513d0a2d2d2d2d2d454e44204345525449]
    0x4649434154452d2d2d2d2d0a 12
  key := newKeyFile
  der := bytesOf [
    0x3081f83081aba003020102020103300506032b6570300c310a30080603550403,
    0x0c0178301e170d3236313131383135353134375a170d32363131323531353531,
    0x34375a300c310a300806035504030c0178302a300506032b6570032100594c7f,
    0x44029bd63cc1cfadbcc17affea198a8a9f76793c7b541558238eb42718a33230,
    0x30300f0603551d11040830068704cb00710a301d0603551d0e041604148ea0f3,
    0xf7d0775554aedb17c928ecb54b33228738300506032b657003410003b5f9114b,
    0x1254a006b2368190de90028960be488c27467049ea8358fa83e730365e5af55c]
    0x0b3d7209609f46dfa5b1b730f180ee43552d42532a26a2d03b7404 27
  notBefore := 63962236307
  notAfter := 63962841107
  digest := ⟨bytesOf [
    0x4705ba5b57618079d89b5fb0ffe1aeeb18cc0bb35f1e37d918426e6f43896fce]
    0 0, by decide +kernel⟩

/-- A certificate whose expiry has an hour to the west of Greenwich, at the end of the year 9999. -/
def westIssued : Issued where
  pem := bytesOf [
    0x2d2d2d2d2d424547494e2043455254494649434154452d2d2d2d2d0a4d49482b,
    0x4d4947786f414d434151494341515177425159444b3256774d417778436a4149,
    0x42674e5642414d4d415867774a42634e4d6a59784d5445344d5455310a4d5451,
    0x31576867544f546b354f5445794d7a45794d7a55354e546b744d4445774d4441,
    0x4d4d516f774341594456515144444146344d436f77425159444b3256770a4179,
    0x45416d452b686d685a7445756e437a4b4d6e4c5279547334772b77476e6c3564,
    0x474a376144556a6c78486944536a4d6a41774d41384741315564455151490a4d,
    0x416148424d734163516f77485159445652304f424259454643776249594b637a,
    0x416f33766d412f47506447664f66426a7443564d4155474179746c63414e420a,
    0x4148533945536e33486a426362787a37526376525174365a58676b6555466459,
    0x744f552b2f4255386674734b577967785a5a4c6c6e4155685062705062336e74,
    0x0a774d507059516c63416a525772333174517551777a41303d0a2d2d2d2d2d45]
    0x4e442043455254494649434154452d2d2d2d2d0a 20
  key := oldKeyFile
  der := bytesOf [
    0x3081fe3081b1a003020102020104300506032b6570300c310a30080603550403,
    0x0c01783024170d3236313131383135353134355a181339393939313233313233,
    0x353935392d30313030300c310a300806035504030c0178302a300506032b6570,
    0x032100984fa19a166d12e9c2cca3272d1c93b38c3ec069e5e5d189eda0d48e5c,
    0x478834a3323030300f0603551d11040830068704cb00710a301d0603551d0e04,
    0x1604142c1b21829ccc0a37be603f18f7467ce7c18ed095300506032b65700341,
    0x0074bd1129f71e305c6f1cfb45cbd142de995e091e505758b4e53efc153c7edb,
    0x0a5b28316592e59c05213dba4f6f79edc0c3e961095c023456af7d6d42e430cc]
    0x0d 1
  notBefore := 63962236305
  notAfter := 315569523599
  digest := ⟨bytesOf [
    0x6dd26bafbb8afa788ffdb4d68542e21f608d30bc5fb2754aaf94c7b90a3a5294]
    0 0, by decide +kernel⟩

/-- The certificates there are. -/
def allIssued : List Issued := [firstIssued, renewedIssued, rekeyedIssued, westIssued]

/-- The standard library, on these certificates. -/
def sampleLibrary : Library where
  keyPair certificate key := allIssued.any fun i => certificate == i.pem && key == i.key
  pemDecode content := (allIssued.find? fun i => content == i.pem).map fun i =>
    (⟨"CERTIFICATE", i.der⟩, [])
  parseCertificate der := (allIssued.find? fun i => der == i.der).map Issued.leaf
  sha256 raw := ((allIssued.find? fun i => raw == i.der).getD firstIssued).digest
  parseTime := fun _ => none

/-- A store with one certificate. -/
def storeOf (i : Issued) : Source where
  root := some (.directory true)
  entries := [(["acme".toList], .directory true),
    (["acme".toList, "203.0.113.10.crt".toList], .regular i.pem 0o600),
    (["acme".toList, "203.0.113.10.key".toList], .regular i.key 0o600)]

/-- A store with the first certificate. -/
def sampleSource : Source := storeOf firstIssued

/-- An output directory that does not exist. -/
def emptyOutput : Output := ⟨.missing, fun _ => none, fun _ => none, 0⟩

/-- An hour after the certificate was issued. -/
def sampleNow : Time := (63962236305 + 3600) * second

/-- The pair that is discovered in the store of a certificate. -/
def discoveredPair (i : Issued) : Pair where
  certificatePath := ["acme".toList, "203.0.113.10.crt".toList]
  privateKeyPath := ["acme".toList, "203.0.113.10.key".toList]
  certificatePEM := i.pem
  privateKeyPEM := i.key
  ip := [203, 0, 113, 10]
  notAfter := i.notAfter * second
  fingerprint := i.digest.hex

/-- The pair of the first certificate. -/
def samplePair : Pair := discoveredPair firstIssued

/-- The first certificate is discovered, exported and healthy. -/
theorem discover_export_checkHealth_first :
    discover sampleLibrary sampleSource [203, 0, 113, 10] sampleNow (1800 * second) =
        .ok samplePair ∧
      ∃ o, (exportPair sampleLibrary samplePair).eval outputMachine .none emptyOutput =
          (.ok (), o) ∧
        checkHealth sampleLibrary o sampleNow (1800 * second) = true := by
  have hdiscover : discover sampleLibrary sampleSource [203, 0, 113, 10] sampleNow
      (1800 * second) = .ok samplePair := by
    decide +kernel
  have hyear : FourDigitYear samplePair.notAfter := by decide +kernel
  obtain ⟨o, heval, hhealth, -⟩ := (discover_export_checkHealth hdiscover (o := emptyOutput)
    (.inr rfl) fun _ => .inl rfl).1 hyear
  exact ⟨hdiscover, o, heval, hhealth⟩

/-- **A discovered pair that is not exported.** The last second of the year 9999, an hour to the
west of Greenwich, is in the year 10000 for everyone else: the discovery takes the certificate, and
the export, without a fault and over an empty directory, refuses it. -/
theorem export_refuses_west :
    discover sampleLibrary (storeOf westIssued) [203, 0, 113, 10] sampleNow (1800 * second) =
        .ok (discoveredPair westIssued) ∧
      (exportPair sampleLibrary (discoveredPair westIssued)).eval outputMachine .none emptyOutput =
        (.error .invalidCertificate, emptyOutput) ∧
      checkHealth sampleLibrary emptyOutput sampleNow (1800 * second) = false := by
  have hvalid : validatePair sampleLibrary (discoveredPair westIssued) = some westIssued.leaf := by
    decide +kernel
  have hyear : ¬FourDigitYear westIssued.leaf.until := by decide +kernel
  refine ⟨by decide +kernel, ?_, rfl⟩
  rw [exportPair_of_not_fourDigitYear hvalid hyear]
  rfl

end Sample

end Certsync

end EzOpenPN
