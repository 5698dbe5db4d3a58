import EzOpenPN.Lib.BaseN
import EzOpenPN.Lib.Script

/-!
# A host with an installation

What the upgrade scripts of `installer/lib/upgrade.sh` read and write on a host, and the commands
they do it with. A command of the model is one step that a crash cannot divide in a way that
matters: a command of the shell, or, in the small Python programs, one system call. Temporary files
with a name of their own (a process number, a random number) are left out, because nothing ever
finds them again; **the three temporary files with a fixed name are in** (`EzOpenPN.Upgrade.Host.tmp`): they
are created exclusively, and one that is left behind is in the way of the next.

A command goes as its `EzOpenPN.Upgrade.Outcome` says. It may fail without an effect, fail after all of its
effect, or fail in between, and what a file then holds is any content whatever. A command also
fails, whatever its outcome, when a file it needs is not there.

The releases are a parameter `rel`: what a version consists of, with its configuration rendered for
the values of this installation, which no upgrade changes.
-/

namespace EzOpenPN.Upgrade

/-! ### What is on the host -/

/-- `vX.Y.Z`. -/
structure Version where
  major : ℕ
  minor : ℕ
  patch : ℕ
  deriving DecidableEq

/-- `_upgrade_compare_versions`. -/
def compareVersions (a b : Version) : Ordering :=
  (compare a.major b.major).then ((compare a.minor b.minor).then (compare a.patch b.patch))

/-- The tools an installation has outside of its directories. -/
inductive HostTool where
  | unit
  | cli
  deriving DecidableEq

/-- The managed configuration files. -/
inductive ConfigFile where
  | controlToml
  | caddyfile
  | composeYaml
  | stackEnv
  | xrayConfig
  | hysteriaConfig
  deriving DecidableEq

/-- **A release**: the content of its directory, its tools, its configuration for this
installation, and the schema it migrates a database to. -/
structure Release where
  tree : Bytes
  tool : HostTool → Bytes
  config : ConfigFile → Bytes
  schema : ℕ

/-- A change that the panel commits: a revocation, a deletion, a new password. -/
abbrev Change := ℕ

/-- The database: its schema, and the changes that were committed to it, in order. -/
structure Database where
  schema : ℕ
  changes : List Change

/-- The phases of a transaction. -/
inductive Phase where
  | prepared
  | switching
  | switched
  | migrated
  | committing
  deriving DecidableEq

/-- `upgrade-transaction.json`. -/
structure Journal where
  currentVersion : Version
  oldCurrent : Version
  phase : Phase
  /-- The archive, or nothing for the empty text. -/
  preimage : Option ℕ
  stage : ℕ
  targetVersion : Version

/-- `current.json`, the checkpoint of an operation. -/
inductive Checkpoint where
  | upgrade (phase : Phase)
  /-- The checkpoint of another operation. -/
  | other

/-- The files that are replaced by way of a temporary file with a fixed name. -/
inductive Managed where
  | state
  | journal
  | checkpoint
  deriving DecidableEq

/-- A directory `.stage.…` of the operations. -/
structure Stage where
  /-- The rendered configuration. -/
  rendered : ConfigFile → Option Bytes
  /-- `host-tools` is there. -/
  directory : Bool
  /-- The copy of a tool. -/
  copy : HostTool → Option Bytes
  /-- `unit.present` or `cli.present` is there. -/
  marker : HostTool → Bool
  /-- `release-before`. -/
  releaseBefore : Option Bytes

/-- A new directory. -/
def Stage.empty : Stage where
  rendered _ := none
  directory := false
  copy _ := none
  marker _ := false
  releaseBefore := none

/-- What a stage has in it besides `release-before`. -/
inductive StageEntry where
  | rendered (file : ConfigFile)
  /-- `host-tools`, in which the copies and the markers are. -/
  | directory
  | copy (tool : HostTool)
  | marker (tool : HostTool)
  deriving DecidableEq

/-- **A stage whose removal was cut short.** `shutil.rmtree` goes through a tree in the order in which
the file system lists it: any of the entries may be left, and `left` of the saved release. -/
def Stage.remains (stage : Stage) (kept : List StageEntry) (left : Option Bytes) : Stage where
  rendered f := if .rendered f ∈ kept then stage.rendered f else none
  directory := stage.directory && decide (.directory ∈ kept)
  copy t := if .directory ∈ kept ∧ .copy t ∈ kept then stage.copy t else none
  marker t := stage.marker t && decide (.directory ∈ kept ∧ .marker t ∈ kept)
  releaseBefore := stage.releaseBefore.bind fun _ => left

/-- An archive of the installation. -/
structure Archive where
  version : Version
  database : Database
  config : ConfigFile → Bytes
  secrets : Bytes

/-- **The host.** -/
structure Host where
  /-- The version of `install.json`. -/
  version : Version
  /-- Where the link `current` points, if it is a link to a release. -/
  current : Option Version
  /-- The directory of each release. -/
  releases : Version → Option Bytes
  config : ConfigFile → Bytes
  tools : HostTool → Option Bytes
  database : Database
  secrets : Bytes
  journal : Option Journal
  checkpoint : Option Checkpoint
  /-- `install.json.upgrade`, `upgrade-transaction.json.tmp` and `current.json.tmp`. -/
  tmp : Managed → Bool
  stages : ℕ → Option Stage
  /-- The number of directories that `mktemp` has made. -/
  stageCount : ℕ
  /-- The archives, by their numbers. -/
  archives : List Archive
  /-- The stack runs. -/
  running : Bool

namespace Host

variable (h : Host)

/-- The archive of what is there now. -/
def archive : Archive := ⟨h.version, h.database, h.config, h.secrets⟩

/-- Write into a stage. -/
def setStage (s : ℕ) (stage : Option Stage) : Host :=
  { h with stages := Function.update h.stages s stage }

/-- Write the directory of a release. -/
def setRelease (v : Version) (tree : Option Bytes) : Host :=
  { h with releases := Function.update h.releases v tree }

/-- Write a tool. -/
def setTool (t : HostTool) (content : Option Bytes) : Host :=
  { h with tools := Function.update h.tools t content }

/-- Write a configuration file. -/
def setConfig (f : ConfigFile) (content : Bytes) : Host :=
  { h with config := Function.update h.config f content }

/-- Create or remove a temporary file. -/
def setTmp (m : Managed) (there : Bool) : Host :=
  { h with tmp := Function.update h.tmp m there }

/-- **The panel commits changes**, if the stack runs. -/
def commit (changes : List Change) : Host :=
  if h.running then
    { h with database := { h.database with changes := h.database.changes ++ changes } }
  else h

end Host

/-! ### Commands -/

/-- What `systemctl` is asked for. -/
inductive ServiceAction where
  | stop
  | start
  | health
  deriving DecidableEq

/-- What a managed file is replaced with. -/
inductive ManagedContent where
  | state (version : Version)
  | journal (journal : Journal)
  | checkpoint (phase : Phase)

/-- The file of a content. -/
def ManagedContent.file : ManagedContent → Managed
  | .state _ => .state
  | .journal _ => .journal
  | .checkpoint _ => .checkpoint

/-- A file is replaced. -/
def Host.put (h : Host) : ManagedContent → Host
  | .state version => { h with version := version }
  | .journal journal => { h with journal := some journal }
  | .checkpoint phase => { h with checkpoint := some (.upgrade phase) }

/-- **The commands.** -/
inductive Cmd where
  | service (action : ServiceAction)
  | preflight
  | fetch
  | pull
  | firewall
  | enable
  | daemonReload
  | recordFailure
  | migrate (version : Version)
  | makeStage (stage : ℕ)
  | prepare (stage : ℕ) (version : Version)
  | makeToolDirectory (stage : ℕ)
  | copyTool (stage : ℕ) (tool : HostTool)
  | markTool (stage : ℕ) (tool : HostTool)
  | saveRelease (stage : ℕ) (version : Version)
  | removeStage (stage : ℕ)
  | createPreimage
  /-- Create a temporary file exclusively. -/
  | create (file : Managed)
  | write (file : Managed)
  | replace (content : ManagedContent)
  /-- Remove a temporary file that may be missing. -/
  | discard (file : Managed)
  | unlinkJournal
  | removeCheckpoint
  | removeRelease (version : Version)
  | installRelease (version : Version)
  | switchCurrent (version : Version)
  | installConfig (stage : ℕ) (file : ConfigFile)
  | installTool (version : Version) (tool : HostTool)
  | copyBack (stage : ℕ)
  | placeRelease (stage : ℕ) (version : Version)
  | restoreTool (stage : ℕ) (tool : HostTool)
  | unlinkTool (tool : HostTool)
  | extract (archive : ℕ)
  | restoreDatabase (archive : ℕ)
  | restoreConfig (archive : ℕ) (file : ConfigFile)
  | restoreSecrets (archive : ℕ)

/-- **How a command goes.** -/
inductive Outcome where
  | ok
  /-- It fails and has done nothing. -/
  | failed
  /-- It fails and has done everything. -/
  | late
  /-- It fails in between; a file it was writing holds `left`, and of a stage that it was removing
  the entries `kept` are still there. -/
  | torn (left : Option Bytes) (kept : List StageEntry := [])
  deriving DecidableEq

namespace Outcome

/-- The exit status. -/
def status : Outcome → Bool
  | ok => true
  | _ => false

/-- The command did what it does. -/
def took : Outcome → Bool
  | ok | late => true
  | _ => false

/-- What is at a path that was being written. -/
def leaves (o : Outcome) (new old : Option Bytes) : Option Bytes :=
  match o with
  | ok | late => new
  | failed => old
  | torn left _ => left

/-- A command that does all or nothing. -/
def apply (o : Outcome) (h' h : Host) : Bool × Host := (o.status, if o.took then h' else h)

end Outcome

/-- A command that succeeded has done what it does. -/
theorem Outcome.apply_of_status {o : Outcome} {h h' : Host} (hs : (o.apply h' h).1 = true) :
    (o.apply h' h).2 = h' := by
  cases o with
  | ok => rfl
  | _ => cases hs

section Effect

variable (rel : Version → Release)

/-- **What a command does.** A command whose file is missing, or in the way, fails. -/
def Cmd.effect (c : Cmd) (o : Outcome) (h : Host) : Bool × Host :=
  match c with
  | .service .stop => o.apply { h with running := false } h
  -- a stack that did not start in full may have started in part
  | .service .start | .enable => (o.status, if o = .failed then h else { h with running := true })
  | .service .health | .preflight | .fetch | .pull | .firewall | .daemonReload | .recordFailure =>
    (o.status, h)
  | .migrate v => o.apply { h with database := { h.database with schema := (rel v).schema } } h
  | .makeStage s => o.apply { h.setStage s (some .empty) with stageCount := s + 1 } h
  | .prepare s v =>
    match h.stages s with
    | some stage => (o.status, h.setStage s (some { stage with
        rendered := fun f => o.leaves (some ((rel v).config f)) (stage.rendered f) }))
    | none => (false, h)
  | .makeToolDirectory s =>
    match h.stages s with
    | some stage => o.apply (h.setStage s (some { stage with directory := true })) h
    | none => (false, h)
  | .copyTool s t =>
    match h.stages s, h.tools t with
    | some stage, some content =>
      if stage.directory then
        (o.status, h.setStage s (some { stage with
          copy := Function.update stage.copy t (o.leaves (some content) (stage.copy t)) }))
      else (false, h)
    | _, _ => (false, h)
  | .markTool s t =>
    match h.stages s with
    | some stage =>
      if stage.directory then
        o.apply (h.setStage s (some { stage with
          marker := Function.update stage.marker t true })) h
      else (false, h)
    | none => (false, h)
  | .saveRelease s v =>
    match h.stages s, h.releases v with
    | some stage, some tree => (o.status, h.setStage s (some { stage with
        releaseBefore := o.leaves (some tree) stage.releaseBefore }))
    | _, _ => (false, h)
  | .removeStage s =>
    match o with
    | .torn left kept => (false, h.setStage s ((h.stages s).map fun stage => stage.remains kept left))
    | _ => o.apply (h.setStage s none) h
  | .createPreimage => o.apply { h with archives := h.archives ++ [h.archive] } h
  | .create m => if h.tmp m then (false, h) else o.apply (h.setTmp m true) h
  | .write _ => (o.status, h)
  | .replace p => if h.tmp p.file then o.apply ((h.put p).setTmp p.file false) h else (false, h)
  | .discard m => o.apply (h.setTmp m false) h
  | .unlinkJournal => o.apply { h with journal := none } h
  | .removeCheckpoint => o.apply { h with checkpoint := none } h
  | .removeRelease v => (o.status, h.setRelease v (o.leaves none (h.releases v)))
  | .installRelease v =>
    if h.releases v = none ∨ h.releases v = some (rel v).tree then
      o.apply (h.setRelease v (some (rel v).tree)) h
    else (false, h)
  | .switchCurrent v => o.apply { h with current := some v } h
  | .installConfig s f =>
    match (h.stages s).bind fun stage => stage.rendered f with
    | some content => o.apply (h.setConfig f content) h
    | none => (false, h)
  | .installTool v t =>
    if h.releases v = some (rel v).tree then
      (o.status, h.setTool t (o.leaves (some ((rel v).tool t)) (h.tools t)))
    else (false, h)
  | .copyBack s =>
    match (h.stages s).bind Stage.releaseBefore with
    | some _ => (o.status, h)
    | none => (false, h)
  | .placeRelease s v =>
    match (h.stages s).bind Stage.releaseBefore with
    | some tree => o.apply (h.setRelease v (some tree)) h
    | none => (false, h)
  | .restoreTool s t =>
    match (h.stages s).bind fun stage => stage.copy t with
    | some content => (o.status, h.setTool t (o.leaves (some content) (h.tools t)))
    | none => (false, h)
  | .unlinkTool t => o.apply (h.setTool t none) h
  | .extract a =>
    match h.archives[a]? with
    | some archive => if archive.version = h.version then (o.status, h) else (false, h)
    | none => (false, h)
  | .restoreDatabase a =>
    match h.archives[a]? with
    | some archive => o.apply { h with database := archive.database } h
    | none => (false, h)
  | .restoreConfig a f =>
    match h.archives[a]? with
    | some archive => o.apply (h.setConfig f (archive.config f)) h
    | none => (false, h)
  | .restoreSecrets a =>
    match h.archives[a]? with
    | some archive => o.apply { h with secrets := archive.secrets } h
    | none => (false, h)

/-- What is chosen for a command: how it goes, and what the panel commits after it. -/
structure Choice where
  outcome : Outcome
  panel : List Change

/-- **The host as a machine.** -/
def hostMachine : Machine Host Cmd Choice Host where
  obs := id
  perform c x h := ((c.effect rel x.outcome h).1, (c.effect rel x.outcome h).2.commit x.panel)

end Effect

/-! ### What a command leaves alone -/

/-- The parts of a host. -/
inductive Part where
  | version
  | current
  | releases
  | config
  | tools
  | database
  | secrets
  | journal
  | checkpoint
  | tmp
  | stages
  | archives
  | running
  deriving DecidableEq

/-- A part is the same on two hosts. -/
def Part.Same (h h' : Host) : Part → Prop
  | .version => h'.version = h.version
  | .current => h'.current = h.current
  | .releases => h'.releases = h.releases
  | .config => h'.config = h.config
  | .tools => h'.tools = h.tools
  | .database => h'.database = h.database
  | .secrets => h'.secrets = h.secrets
  | .journal => h'.journal = h.journal
  | .checkpoint => h'.checkpoint = h.checkpoint
  | .tmp => h'.tmp = h.tmp
  | .stages => h'.stages = h.stages
  | .archives => h'.archives = h.archives
  | .running => h'.running = h.running

/-- The parts that a command may change. -/
def Cmd.parts : Cmd → List Part
  | .service .stop | .service .start | .enable => [.running]
  | .service .health | .preflight | .fetch | .pull | .firewall | .daemonReload | .recordFailure
  | .write _ | .copyBack _ | .extract _ => []
  | .migrate _ | .restoreDatabase _ => [.database]
  | .makeStage _ | .prepare _ _ | .makeToolDirectory _ | .copyTool _ _ | .markTool _ _
  | .saveRelease _ _ | .removeStage _ => [.stages]
  | .createPreimage => [.archives]
  | .create _ | .discard _ => [.tmp]
  | .replace (.state _) => [.version, .tmp]
  | .replace (.journal _) => [.journal, .tmp]
  | .replace (.checkpoint _) => [.checkpoint, .tmp]
  | .unlinkJournal => [.journal]
  | .removeCheckpoint => [.checkpoint]
  | .removeRelease _ | .installRelease _ | .placeRelease _ _ => [.releases]
  | .switchCurrent _ => [.current]
  | .installConfig _ _ | .restoreConfig _ _ => [.config]
  | .installTool _ _ | .restoreTool _ _ | .unlinkTool _ => [.tools]
  | .restoreSecrets _ => [.secrets]

/-- A command may change a part. -/
def Cmd.touches (c : Cmd) (p : Part) : Bool := decide (p ∈ c.parts)

theorem Part.Same.refl (h : Host) (p : Part) : p.Same h h := by
  cases p <;> rfl

theorem Part.Same.apply {h h' : Host} {p : Part} (o : Outcome) (hs : p.Same h h') :
    p.Same h (o.apply h' h).2 := by
  rw [Outcome.apply]
  split
  · exact hs
  · exact Part.Same.refl h p

/-- **A command changes its parts only.** -/
theorem effect_same {rel : Version → Release} {c : Cmd} {p : Part} (hp : c.touches p = false)
    (o : Outcome) (h : Host) : p.Same h (c.effect rel o h).2 := by
  have hnot : p ∉ c.parts := of_decide_eq_false hp
  cases c with
  | service action =>
    cases action with
    | stop => exact .apply o (by cases p <;> first | rfl | exact absurd (by simp [Cmd.parts]) hnot)
    | start =>
      simp only [Cmd.effect]
      split <;> cases p <;> first | rfl | exact absurd (by simp [Cmd.parts]) hnot
    | health => exact .refl h p
  | replace content =>
    simp only [Cmd.effect]
    split
    · refine .apply o ?_
      cases content <;> cases p <;> first | rfl | exact absurd (by simp [Cmd.parts]) hnot
    · exact .refl h p
  | _ =>
    -- one update of a field, behind the conditions of the command
    simp only [Cmd.effect]
    repeat' split
    all_goals first
      | exact .refl h p
      | exact .apply o (by cases p <;> first | rfl | exact absurd (by simp [Cmd.parts]) hnot)
      | (cases p <;> first | rfl | exact absurd (by simp [Cmd.parts]) hnot)

/-- The panel changes the database only. -/
theorem commit_same {p : Part} (hp : p ≠ .database) (h : Host) (changes : List Change) :
    p.Same h (h.commit changes) := by
  rw [Host.commit]
  split
  · cases p with
    | database => exact absurd rfl hp
    | _ => rfl
  · exact Part.Same.refl h p

/-- A command spares some parts. -/
def Cmd.spares (c : Cmd) (parts : List Part) : Bool := parts.all fun p => !c.touches p

/-- Some parts are the same on two hosts. -/
def Host.Same (parts : List Part) (h h' : Host) : Prop := ∀ p ∈ parts, p.Same h h'

theorem Host.Same.refl (parts : List Part) (h : Host) : Host.Same parts h h :=
  fun p _ => Part.Same.refl h p

theorem Host.Same.trans {parts : List Part} {h h' h'' : Host} (h₁ : Host.Same parts h h')
    (h₂ : Host.Same parts h' h'') : Host.Same parts h h'' := by
  intro p hp
  have e₁ := h₁ p hp
  have e₂ := h₂ p hp
  cases p <;> exact e₂.trans e₁

/-- What a command spares the panel spares too, unless it is the database. -/
theorem Host.Same.perform {rel : Version → Release} {parts : List Part} {c : Cmd}
    (hc : c.spares parts = true) (hdatabase : .database ∉ parts) (o : Outcome)
    (changes : List Change) (h : Host) :
    Host.Same parts h ((c.effect rel o h).2.commit changes) := by
  refine Host.Same.trans ?_ fun p hp => commit_same (fun he => hdatabase (he ▸ hp)) _ changes
  intro p hp
  have htouches := List.all_eq_true.mp hc p hp
  exact effect_same (by simpa using htouches) o h

end EzOpenPN.Upgrade
