import EzOpenPN.Installer.Host

/-!
# Upgrades

`installer/lib/upgrade.sh`, function by function. An upgrade prepares everything it can while the
old release runs, stops the stack, archives the installation and then switches release,
configuration, tools and database. A journal records how far it is; a run that finds a journal
first takes the installation back, and only then starts on its own.

Every function here is called where the shell does not stop at a failing command (inside `if`, `!`
and `||`), so what a function returns is the status of its last command, and **a command whose
status nobody asks for fails in silence**: the copies and the markers of `_upgrade_save_host_tools`,
the writes of `_upgrade_restore_host_tools`, the journal itself in `_upgrade_write_journal`, whose
status is the one of the checkpoint.
-/

namespace EzOpenPN.Upgrade

open Script

/-- A script on the host. -/
abbrev Shell := Script Host Cmd

/-! ### Files that are replaced -/

/-- Replace a file by way of its temporary file, which must not exist yet. -/
def atomicWrite (content : ManagedContent) : Shell Bool :=
  (run (.create content.file)).bind fun created =>
    if created then
      (all [run (.write content.file), run (.replace content)]).bind fun ok =>
        -- the `finally` of the program
        (run (.discard content.file)).bind fun discarded => done (ok && discarded)
    else done false

/-- `_upgrade_write_state_version`. -/
def writeStateVersion (version : Version) : Shell Bool := atomicWrite (.state version)

/-- `write_operation_checkpoint upgrade`. -/
def writeOperationCheckpoint (phase : Phase) : Shell Bool := atomicWrite (.checkpoint phase)

/-- `clear_operation_checkpoint`; it ends in a command that never fails. -/
def clearOperationCheckpoint : Shell Unit :=
  look fun h =>
    if h.checkpoint.isSome then (run .removeCheckpoint).bind fun _ => done () else done ()

/-- The variables `UPGRADE_…` of a transaction. -/
structure UpgradeVars where
  currentVersion : Version
  targetVersion : Version
  oldCurrent : Version
  preimage : Option ℕ
  stage : ℕ

/-- The journal of a transaction in a phase. -/
def UpgradeVars.journal (vars : UpgradeVars) (phase : Phase) : Journal where
  currentVersion := vars.currentVersion
  oldCurrent := vars.oldCurrent
  phase := phase
  preimage := vars.preimage
  stage := vars.stage
  targetVersion := vars.targetVersion

/-- `_upgrade_write_journal`: the status is the one of the checkpoint. -/
def writeJournal (vars : UpgradeVars) (phase : Phase) : Shell Bool :=
  (atomicWrite (.journal (vars.journal phase))).bind fun _ => writeOperationCheckpoint phase

/-- `_upgrade_clear_journal`. -/
def clearJournal : Shell Unit :=
  look fun h =>
    (if h.journal.isSome then run .unlinkJournal else done true).bind fun _ =>
      clearOperationCheckpoint

/-- `_upgrade_cleanup_stage`. -/
def cleanupStage (stage : ℕ) : Shell Unit :=
  look fun h =>
    if (h.stages stage).isSome then (run (.removeStage stage)).bind fun _ => done () else done ()

/-- `_upgrade_service_command`. -/
def serviceCommand (action : ServiceAction) : Shell Bool := run (.service action)

/-! ### Saving and switching -/

/-- One tool of `_upgrade_save_host_tools`. -/
def saveHostTool (stage : ℕ) (tool : HostTool) : Shell Bool :=
  look fun h =>
    if (h.tools tool).isSome then (run (.copyTool stage tool)).bind fun _ => run (.markTool stage tool)
    else done true

/-- `_upgrade_save_host_tools`. -/
def saveHostTools (stage : ℕ) : Shell Bool :=
  (run (.makeToolDirectory stage)).bind fun _ =>
    (saveHostTool stage .unit).bind fun _ => saveHostTool stage .cli

/-- Remove the directory of a release, if it is there. -/
def removeRelease (version : Version) : Shell Bool :=
  look fun h => if (h.releases version).isSome then run (.removeRelease version) else done true

/-- `_install_release_files`. -/
def installReleaseFiles (version : Version) : Shell Bool :=
  all [run (.installRelease version), run (.switchCurrent version)]

/-- `_upgrade_install_rendered`. -/
def installRendered (stage : ℕ) : Shell Bool :=
  all [run (.installConfig stage .controlToml), run (.installConfig stage .caddyfile),
    run (.installConfig stage .composeYaml), run (.installConfig stage .stackEnv),
    run (.installConfig stage .xrayConfig), run (.installConfig stage .hysteriaConfig)]

/-- `_upgrade_install_host_tools`. -/
def installHostTools (version : Version) : Shell Bool :=
  all [run (.installTool version .unit), run (.installTool version .cli), run .daemonReload]

/-! ### Going back -/

/-- `_upgrade_restore_current_release`. -/
def restoreCurrentRelease (vars : UpgradeVars) : Shell Bool :=
  all [run (.copyBack vars.stage), removeRelease vars.currentVersion,
    run (.placeRelease vars.stage vars.currentVersion)]

/-- One tool of `_upgrade_restore_host_tools`. -/
def restoreHostTool (stage : ℕ) (tool : HostTool) : Shell Bool :=
  look fun h =>
    if (h.stages stage).any fun s => s.marker tool then run (.restoreTool stage tool)
    else run (.unlinkTool tool)

/-- `_upgrade_restore_host_tools`. -/
def restoreHostTools (stage : ℕ) : Shell Bool :=
  (restoreHostTool stage .unit).bind fun _ =>
    (restoreHostTool stage .cli).bind fun _ => run .daemonReload

/-- `_upgrade_restore_preimage`: the archive is validated and then applied file by file. -/
def restorePreimage : Option ℕ → Shell Bool
  | none => done false
  | some a =>
    all [run (.extract a), run (.restoreDatabase a), run (.restoreConfig a .controlToml),
      run (.restoreConfig a .caddyfile), run (.restoreConfig a .composeYaml),
      run (.restoreConfig a .stackEnv), run (.restoreSecrets a), run (.restoreConfig a .xrayConfig),
      run (.restoreConfig a .hysteriaConfig)]

/-- The part of `_upgrade_rollback` that is checked. -/
def rollbackSteps (vars : UpgradeVars) : Shell Bool :=
  all [serviceCommand .stop, restoreCurrentRelease vars, run (.switchCurrent vars.oldCurrent),
    restoreHostTools vars.stage, writeStateVersion vars.currentVersion,
    restorePreimage vars.preimage, serviceCommand .start, serviceCommand .health]

/-- `_upgrade_rollback`. -/
def rollback (vars : UpgradeVars) : Shell Bool :=
  (rollbackSteps vars).bind fun ok =>
    if ok then (run .recordFailure).bind fun _ => clearJournal.bind fun _ => done true else done false

/-! ### Recovery -/

/-- The errors of a run. -/
inductive UpgradeError where
  | checkpoint
  | journal
  | recovery
  | preflight
  | installResume
  | current
  | release
  | reinstallVersion
  | downgrade
  | stage
  | prepare
  | rollback
  /-- `E_UPGRADE_HEALTH`: the new release was cancelled, the original one returned. -/
  | health
  deriving DecidableEq

/-- An archive exists. -/
def Host.hasArchive (h : Host) : Option ℕ → Bool
  | none => false
  | some a => h.archives[a]?.isSome

/-- `_upgrade_read_journal`, of a journal that is there. -/
def readJournal (h : Host) (j : Journal) : Option UpgradeVars :=
  if j.phase ≠ .prepared ∧ h.hasArchive j.preimage = false then none
  else if (h.stages j.stage).isSome then
    some ⟨j.currentVersion, j.targetVersion, j.oldCurrent, j.preimage, j.stage⟩
  else none

/-- Start the stack and wait for it. -/
def resumeStack : Shell Bool := all [serviceCommand .start, serviceCommand .health]

/-- `_upgrade_recover_interrupted`, once the journal was read. -/
def recoverFrom (vars : UpgradeVars) (phase : Phase) : Shell (Option UpgradeError) :=
  if phase = .prepared then
    resumeStack.bind fun ok =>
      if ok then clearJournal.bind fun _ => (cleanupStage vars.stage).bind fun _ => done none
      else done (some .recovery)
  else
    (rollback vars).bind fun ok =>
      if ok then (cleanupStage vars.stage).bind fun _ => done none else done (some .recovery)

/-- `_upgrade_recover_interrupted`. -/
def recoverInterrupted : Shell (Option UpgradeError) :=
  look fun h =>
    match h.journal with
    | none => done (if h.checkpoint.isSome then some .checkpoint else none)
    | some j =>
      match readJournal h j with
      | none => done (some .journal)
      | some vars => recoverFrom vars j.phase

/-! ### The transaction -/

/-- What `failure` may hold. -/
inductive Failure where
  | pull
  | prepare
  | hostTools
  | currentRelease
  | journal
  | stop
  | backup
  | releaseCleanup
  | switch
  | configuration
  | migrate
  | start
  | health
  | state

/-- What is done while the old release runs. -/
def prepareRelease (vars : UpgradeVars) : Shell (Option Failure) :=
  firstFailure
    [(.pull, run .pull), (.prepare, run (.prepare vars.stage vars.targetVersion)),
      (.hostTools, saveHostTools vars.stage),
      (.currentRelease, run (.saveRelease vars.stage vars.oldCurrent)),
      (.journal, writeJournal vars .prepared)]

/-- The stack is stopped and the installation archived. -/
def takePreimage (vars : UpgradeVars) : Shell (Option Failure × UpgradeVars) :=
  (serviceCommand .stop).bind fun ok =>
    if ok then
      (run .createPreimage).bind fun ok =>
        if ok then
          look fun h =>
            let vars := { vars with preimage := some (h.archives.length - 1) }
            (writeJournal vars .switching).bind fun ok =>
              done (if ok then none else some .journal, vars)
        else done (some .backup, vars)
    else done (some .stop, vars)

/-- What is done once the installation may be touched. -/
def switchRelease (vars : UpgradeVars) : Shell (Option Failure) :=
  firstFailure
    [(.releaseCleanup, removeRelease vars.targetVersion),
      (.switch, installReleaseFiles vars.targetVersion),
      (.configuration, installRendered vars.stage),
      (.hostTools, installHostTools vars.targetVersion),
      (.journal, writeJournal vars .switched), (.migrate, run (.migrate vars.targetVersion)),
      (.journal, writeJournal vars .migrated), (.start, serviceCommand .start),
      (.health, serviceCommand .health), (.journal, writeJournal vars .committing),
      (.state, writeStateVersion vars.targetVersion)]

/-- A failure before anything was touched: the old stack is started again. -/
def resumeOld (vars : UpgradeVars) : Shell (Option UpgradeError) :=
  resumeStack.bind fun ok =>
    if ok then
      (run .recordFailure).bind fun _ => clearJournal.bind fun _ =>
        (cleanupStage vars.stage).bind fun _ => done (some .health)
    else done (some .recovery)

/-- A failure after something was touched. -/
def returnOld (vars : UpgradeVars) : Shell (Option UpgradeError) :=
  (rollback vars).bind fun ok =>
    if ok then (cleanupStage vars.stage).bind fun _ => done (some .health)
    else done (some .rollback)

/-- The transaction from the stop of the stack on. -/
def stoppedTransaction (vars : UpgradeVars) : Shell (Option UpgradeError) :=
  (takePreimage vars).bind fun result =>
    match result.1 with
    | some _ => resumeOld result.2
    | none =>
      (switchRelease result.2).bind fun failure =>
        match failure with
        | some _ => returnOld result.2
        | none => clearJournal.bind fun _ => (cleanupStage vars.stage).bind fun _ => done none

/-- The transaction from its stage on. -/
def stagedTransaction (vars : UpgradeVars) : Shell (Option UpgradeError) :=
  (prepareRelease vars).bind fun failure =>
    match failure with
    | some _ =>
      (run .recordFailure).bind fun _ => clearJournal.bind fun _ =>
        (cleanupStage vars.stage).bind fun _ => done (some .prepare)
    | none => stoppedTransaction vars

/-- What is asked for. -/
inductive Mode where
  | update
  | reinstall
  deriving DecidableEq

/-- The transaction to a target that was fetched. -/
def transactionTo (mode : Mode) (current target : Version) : Shell (Option UpgradeError) :=
  if mode = .reinstall ∧ compareVersions target current ≠ .eq then done (some .reinstallVersion)
  else if compareVersions target current = .lt then done (some .downgrade)
  else if mode = .update ∧ compareVersions target current = .eq then done none
  else
    look fun h =>
      (run (.makeStage h.stageCount)).bind fun ok =>
        if ok then stagedTransaction ⟨current, target, current, none, h.stageCount⟩
        else done (some .stage)

/-- **`_upgrade_transaction`**, with the latest release of the channel. -/
def transaction (mode : Mode) (latest : Version) : Shell (Option UpgradeError) :=
  (run .preflight).bind fun ok =>
    if ok then
      look fun h =>
        if h.current = some h.version then
          (run .fetch).bind fun ok =>
            if ok then
              transactionTo mode h.version (if mode = .reinstall then h.version else latest)
            else done (some .release)
        else done (some .current)
    else done (some .preflight)

/-- The command of the operator. -/
inductive Operation where
  | update
  | reinstall
  | install
  deriving DecidableEq

/-- The part of `upgrade_run` for a preserved installation: its stack is resumed first. -/
def resumeInstallation : Shell (Option UpgradeError) :=
  (run .preflight).bind fun ok =>
    if ok then
      (all [run .firewall, run .enable, serviceCommand .health]).bind fun ok =>
        done (if ok then none else some .installResume)
    else done (some .preflight)

/-- **`upgrade_run`**: nothing if it succeeds, and its error otherwise. -/
def upgradeRun (operation : Operation) (latest : Version) : Shell (Option UpgradeError) :=
  recoverInterrupted.bind fun error =>
    match error with
    | some e => done (some e)
    | none =>
      match operation with
      | .update => transaction .update latest
      | .reinstall => transaction .reinstall latest
      | .install =>
        resumeInstallation.bind fun error =>
          match error with
          | some e => done (some e)
          | none => transaction .update latest

/-! ### The commands of the scripts -/

section Only

variable {P : Cmd → Prop}

theorem only_atomicWrite {content : ManagedContent} (hcreate : P (.create content.file))
    (hwrite : P (.write content.file)) (hreplace : P (.replace content))
    (hdiscard : P (.discard content.file)) : (atomicWrite content).Only P :=
  .bind (.run hcreate) fun _ => .ite
    (.bind (.all (by simpa using ⟨.run hwrite, .run hreplace⟩)) fun _ =>
      .bind (.run hdiscard) fun _ => trivial)
    trivial

theorem only_clearJournal (hjournal : P .unlinkJournal) (hcheckpoint : P .removeCheckpoint) :
    clearJournal.Only P :=
  fun _ => .bind (.ite (.run hjournal) trivial) fun _ _ =>
    .ite (.bind (.run hcheckpoint) fun _ => trivial) trivial

theorem only_cleanupStage {stage : ℕ} (h : P (.removeStage stage)) : (cleanupStage stage).Only P :=
  fun _ => .ite (.bind (.run h) fun _ => trivial) trivial

theorem only_saveHostTools {stage : ℕ} (hdirectory : P (.makeToolDirectory stage))
    (hcopy : ∀ t, P (.copyTool stage t)) (hmark : ∀ t, P (.markTool stage t)) :
    (saveHostTools stage).Only P :=
  .bind (.run hdirectory) fun _ =>
    .bind (fun _ => .ite (.bind (.run (hcopy _)) fun _ => .run (hmark _)) trivial) fun _ _ =>
      .ite (.bind (.run (hcopy _)) fun _ => .run (hmark _)) trivial

theorem only_removeRelease {version : Version} (h : P (.removeRelease version)) :
    (removeRelease version).Only P :=
  fun _ => .ite (.run h) trivial

theorem only_restoreHostTools {stage : ℕ} (hrestore : ∀ t, P (.restoreTool stage t))
    (hunlink : ∀ t, P (.unlinkTool t)) (hreload : P .daemonReload) :
    (restoreHostTools stage).Only P :=
  .bind (fun _ => .ite (.run (hrestore _)) (.run (hunlink _))) fun _ =>
    .bind (fun _ => .ite (.run (hrestore _)) (.run (hunlink _))) fun _ => .run hreload

end Only

/-! ### An installation -/

/-- Releases that differ in their minor version. -/
def sampleRelease (v : Version) : Release where
  tree := [UInt8.ofNat v.minor]
  tool
    | .unit => [UInt8.ofNat v.minor, 1]
    | .cli => [UInt8.ofNat v.minor, 2]
  config _ := [UInt8.ofNat v.minor, 3]
  schema := v.minor

/-- An installation of `v0.1.0` that runs. -/
def sampleHost : Host where
  version := ⟨0, 1, 0⟩
  current := some ⟨0, 1, 0⟩
  releases v := if v = ⟨0, 1, 0⟩ then some [1] else none
  config _ := [1, 3]
  tools
    | .unit => some [1, 1]
    | .cli => some [1, 2]
  database := ⟨1, []⟩
  secrets := [9]
  journal := none
  checkpoint := none
  tmp _ := false
  stages _ := none
  stageCount := 0
  archives := []
  running := true

/-- Everything goes well and the panel does nothing. -/
def smooth : Choice := ⟨.ok, []⟩

end EzOpenPN.Upgrade
