import EzOpenPN.Lib.Script

/-!
# Snapshots of a running stack

Two operations of the command line first take an archive of the current data and change the data
afterwards. `backup_restore` keeps the archive as the way back from a restore that fails;
`remove_purge` leaves it behind as the final archive. In both the archive is made **while the panel
still runs**, and the stack is stopped only later: after the archive was packed, and in a purge after
the operator has confirmed twice.

This file embeds the two operations as scripts. Their commands may fail at every step, and the panel
may commit changes before each of them while the stack runs. What falls between the snapshot and the
stop is in neither archive: `EzOpenPN.Backup.restore_returns_iff` and
`EzOpenPN.Backup.finalArchive_iff` say that **the archives hold everything exactly when no change was
committed in between**.

Changes and file contents are of arbitrary types; the database is the list of the changes that were
committed to it.
-/

namespace EzOpenPN.Backup

/-! ### The data and the server -/

/-- The parts of the payload besides the database. -/
inductive Part where
  | configuration
  | secrets
  | material
  | caddy
  deriving DecidableEq, Repr

/-- **What an archive holds.** -/
structure Data (γ φ : Type) where
  database : List γ
  files : Part → φ

/-- The stages that a restore extracts archives to. -/
inductive Slot where
  /-- The archive of the operator. -/
  | given
  /-- The archive of the data before the restore. -/
  | preimage
  deriving DecidableEq, Repr

/-- What a purge removes. -/
inductive Target where
  | etcRoot
  | stateRoot
  | backupRoot
  | cli
  | unit
  deriving DecidableEq, Repr

/-- **The server**, as far as the two operations see it. -/
structure Server (γ φ : Type) where
  data : Data γ φ
  running : Bool
  /-- The archive named on the command line. -/
  given : Data γ φ
  snapshot : Option (List γ)
  stages : Slot → Option (Data γ φ)
  /-- `BACKUP_CREATED_ARCHIVE`, or `REMOVE_FINAL_ARCHIVE`. -/
  archive : Option (Data γ φ)
  removed : List Target

/-- **The commands** of the two operations. Those of the first group have no effect on the data. -/
inductive Cmd where
  | requireInstallation
  | requireTool
  | requireSafePath
  | acquireLock
  | releaseLock
  | requireLayout
  | requireCleanState
  | chmodRoot
  | requireFreeSnapshot
  | verifySnapshot
  | makeStage
  | chmodStage
  | nameArchive
  | cleanupStage
  | verifyCopy
  | validateArchive
  | health
  | confirm
  | rollbackFirewall
  | reload
  /-- The snapshot of the database, by the panel or directly. -/
  | backupDatabase
  | unlinkSnapshot
  | createArchive
  | unlinkArchive
  | extract (slot : Slot)
  | apply (slot : Slot)
  | stop
  | start
  /-- `systemctl disable --now … || true`. -/
  | disable
  | down
  | remove (target : Target)
  deriving DecidableEq

/-- **How a command goes**: the changes the panel commits before it, if the stack runs; whether it
succeeds; and how far one that fails has got. -/
structure Choice (γ : Type) where
  panel : List γ
  ok : Bool
  /-- A failing stop, start or removal had its effect all the same. -/
  took : Bool
  /-- A failing restore has replaced the database. -/
  database : Bool
  /-- The parts that a failing restore has replaced. -/
  parts : Part → Bool

variable {γ φ : Type}

/-- The panel commits changes, if the stack runs. -/
def Server.commit (s : Server γ φ) (changes : List γ) : Server γ φ :=
  if s.running then
    { s with data := { s.data with database := s.data.database ++ changes } }
  else s

/-- Set a stage. -/
def Server.setStage (s : Server γ φ) (slot : Slot) (d : Data γ φ) : Server γ φ :=
  { s with stages := Function.update s.stages slot (some d) }

/-- The archive that is extracted to a stage. -/
def Server.source (s : Server γ φ) : Slot → Option (Data γ φ)
  | .given => some s.given
  | .preimage => s.archive

/-- A restore that fails has replaced some of the parts. -/
def Data.mix (old new : Data γ φ) (database : Bool) (parts : Part → Bool) : Data γ φ where
  database := if database then new.database else old.database
  files := fun p => if parts p then new.files p else old.files p

/-- **What a command does.** -/
def Cmd.effect (c : Cmd) (x : Choice γ) (s : Server γ φ) : Bool × Server γ φ :=
  match c with
  | .backupDatabase => if x.ok then (true, { s with snapshot := some s.data.database }) else (false, s)
  | .unlinkSnapshot => if x.ok then (true, { s with snapshot := none }) else (false, s)
  | .createArchive =>
    match x.ok, s.snapshot with
    | true, some database => (true, { s with archive := some ⟨database, s.data.files⟩ })
    | _, _ => (false, s)
  | .unlinkArchive => if x.ok then (true, { s with archive := none }) else (false, s)
  | .extract slot =>
    match x.ok, s.source slot with
    | true, some d => (true, s.setStage slot d)
    | _, _ => (false, s)
  | .apply slot =>
    match s.stages slot with
    | none => (false, s)
    | some d =>
      if x.ok then (true, { s with data := d })
      else (false, { s with data := s.data.mix d x.database x.parts })
  | .stop | .down => (x.ok, { s with running := s.running && !(x.ok || x.took) })
  | .start => (x.ok, { s with running := s.running || x.ok || x.took })
  | .disable => (true, { s with running := s.running && !x.ok })
  | .remove target =>
    (x.ok, if x.ok || x.took then { s with removed := s.removed ++ [target] } else s)
  | _ => (x.ok, s)

/-! ### Watching -/

/-- **What happened so far**: the changes since the snapshot, the data at the moment the stack was
stopped with the changes that had come since the snapshot, whether that stop succeeded, and the
changes since the last stop. -/
structure History (γ φ : Type) where
  sinceSnapshot : List γ
  atStop : Option (Data γ φ)
  lost : List γ
  stopped : Bool
  sinceStop : List γ

/-- A server, and what happened to it. -/
structure Watched (γ φ : Type) where
  server : Server γ φ
  history : History γ φ

/-- The panel commits changes. -/
def Watched.commit (w : Watched γ φ) (changes : List γ) : Watched γ φ where
  server := w.server.commit changes
  history :=
    if w.server.running then
      { w.history with
        sinceSnapshot := w.history.sinceSnapshot ++ changes
        sinceStop := w.history.sinceStop ++ changes }
    else w.history

/-- The moment at which the stack is stopped. -/
def Watched.record (w : Watched γ φ) (ok : Bool) : History γ φ :=
  { w.history with atStop := some w.server.data, lost := w.history.sinceSnapshot, stopped := ok }

/-- What a command adds to the history. The stack is stopped by the first `stop` of a restore, and
in a purge by the command before which it last ran. -/
def Cmd.note (c : Cmd) (ok : Bool) (w : Watched γ φ) : History γ φ :=
  match c with
  | .backupDatabase => if ok then { w.history with sinceSnapshot := [] } else w.history
  | .stop =>
    { (if w.history.atStop.isNone then w.record ok else w.history) with sinceStop := [] }
  | .disable | .down =>
    if w.history.atStop.isNone || w.server.running then w.record ok else w.history
  | _ => w.history

/-- **The server as a machine**, with its history. -/
def watchedMachine : Machine (Server γ φ) Cmd (Choice γ) (Watched γ φ) where
  obs := Watched.server
  perform c x w :=
    let w := w.commit x.panel
    let r := c.effect x w.server
    (r.1, ⟨r.2, c.note r.1 w⟩)

/-- A server before an operation. -/
def Watched.fresh (data given : Data γ φ) (running : Bool) : Watched γ φ where
  server := ⟨data, running, given, none, fun _ => none, none, []⟩
  history := ⟨[], none, [], false, []⟩

/-! ### Restoring an archive -/

section Scripts

open Script

variable {ω : Type}

/-- Run commands whatever their status. -/
def always {α : Type} : List Cmd → Script ω Cmd α → Script ω Cmd α
  | [], p => p
  | c :: cs, p => .call c fun _ => always cs p

/-- A command, and what is done if it fails. -/
def orElse {α : Type} (c : Cmd) (failed : Script ω Cmd α) (p : Script ω Cmd α) : Script ω Cmd α :=
  .call c fun ok => if ok then p else failed

/-- **`_backup_create_internal`**. -/
def backupCreateInternal : Script ω Cmd Bool :=
  orElse .requireLayout (.done false) <|
  always [.chmodRoot] <|
  orElse .requireFreeSnapshot (.done false) <|
  orElse .backupDatabase (always [.unlinkSnapshot] (.done false)) <|
  orElse .verifySnapshot (always [.unlinkSnapshot] (.done false)) <|
  orElse .makeStage (always [.unlinkSnapshot] (.done false)) <|
  always [.chmodStage] <|
  orElse .nameArchive (always [.cleanupStage, .unlinkSnapshot] (.done false)) <|
  orElse .createArchive
    (always [.cleanupStage, .unlinkSnapshot, .unlinkArchive] (.done false)) <|
  always [.cleanupStage, .unlinkSnapshot] (.done true)

/-- **`_backup_restore_preimage`**. -/
def backupRestorePreimage : Script ω Cmd Bool :=
  orElse .makeStage (.done false) <|
  always [.chmodStage] <|
  orElse (.extract .preimage) (always [.cleanupStage] (.done false)) <|
  orElse (.apply .preimage) (always [.cleanupStage] (.done false)) <|
  always [.cleanupStage] (.done true)

/-- How `backup_restore` ends. -/
inductive RestoreEnd where
  | notStarted
  /-- `E_BACKUP_LAYOUT` -/
  | layout
  /-- `E_RESTORE_STAGE` -/
  | stage
  /-- `E_RESTORE_VERIFY` -/
  | verify
  /-- `E_RESTORE_PREIMAGE` -/
  | preimage
  /-- `E_RESTORE_ROLLBACK` -/
  | rollback
  /-- `E_RESTORE_HEALTH`: the restore was cancelled and the original state returned. -/
  | health
  | restored
  deriving DecidableEq, Repr

/-- The way back after the payload was touched. -/
def restoreRollback : Script ω Cmd RestoreEnd :=
  (all [.run .stop, backupRestorePreimage, .run .start, .run .health]).bind fun ok =>
    always [.releaseLock] (.done (if ok then .health else .rollback))

/-- The way back after a stop that failed. -/
def restoreRestart : Script ω Cmd RestoreEnd :=
  (all [.run .start, .run .health]).bind fun ok =>
    always [.releaseLock] (.done (if ok then .health else .rollback))

/-- `backup_restore` from the stop on. -/
def restoreStopped : Script ω Cmd RestoreEnd :=
  .call .stop fun ok =>
    if ok then
      (all [.run (.apply .given), .run .start, .run .health]).bind fun ok =>
        always [.cleanupStage] <|
          if ok then always [.releaseLock] (.done .restored) else restoreRollback
    else always [.cleanupStage] restoreRestart

/-- **`backup_restore`**. -/
def backupRestore : Script ω Cmd RestoreEnd :=
  orElse .requireInstallation (.done .notStarted) <|
  orElse .requireTool (.done .notStarted) <|
  orElse .requireSafePath (.done .notStarted) <|
  orElse .acquireLock (.done .notStarted) <|
  orElse .requireLayout (always [.releaseLock] (.done .layout)) <|
  orElse .makeStage (always [.releaseLock] (.done .stage)) <|
  always [.chmodStage] <|
  orElse (.extract .given) (always [.cleanupStage, .releaseLock] (.done .verify)) <|
  orElse .verifyCopy (always [.cleanupStage, .releaseLock] (.done .verify)) <|
  backupCreateInternal.bind fun ok =>
    if ok then restoreStopped else always [.cleanupStage, .releaseLock] (.done .preimage)

/-! ### Purging -/

/-- **`_remove_create_final_archive`**. -/
def removeCreateFinalArchive : Script ω Cmd Bool :=
  orElse .nameArchive (.done false) <|
  orElse .requireLayout (.done false) <|
  orElse .backupDatabase (.done false) <|
  orElse .makeStage (always [.unlinkSnapshot] (.done false)) <|
  always [.chmodStage] <|
  orElse .createArchive
    (always [.cleanupStage, .unlinkSnapshot, .unlinkArchive] (.done false)) <|
  always [.cleanupStage, .unlinkSnapshot] <|
  orElse .makeStage (.done false) <|
  always [.chmodStage] <|
  orElse .validateArchive (always [.cleanupStage] (.done false)) <|
  always [.cleanupStage] (.done true)

/-- **`_remove_managed_services`**: all three, whatever their status. -/
def removeManagedServices : Script ω Cmd Bool :=
  .call .disable fun disabled => .call .down fun down => .call .rollbackFirewall fun firewall =>
    .done (disabled && down && firewall)

/-- How `remove_purge` ends. -/
inductive PurgeEnd where
  | notStarted
  /-- `E_REMOVE_INTERRUPTED` -/
  | interrupted
  /-- `E_PURGE_BACKUP` -/
  | backup
  /-- The purge was not confirmed. -/
  | confirmation
  /-- `E_PURGE_SERVICES` -/
  | services
  /-- `E_PURGE_REMOVE` -/
  | incomplete
  | removed
  deriving DecidableEq, Repr

/-- The removals, all of them, and whether each succeeded. -/
def removeAll : List Target → Bool → Script ω Cmd Bool
  | [], ok => .done ok
  | t :: ts, ok => .call (.remove t) fun r => removeAll ts (ok && r)

/-- **`remove_purge`**. -/
def removePurge : Script ω Cmd PurgeEnd :=
  orElse .requireInstallation (.done .notStarted) <|
  orElse .requireTool (.done .notStarted) <|
  orElse .acquireLock (.done .notStarted) <|
  orElse .requireCleanState (always [.releaseLock] (.done .interrupted)) <|
  removeCreateFinalArchive.bind fun ok =>
    if ok then
      orElse .confirm (always [.releaseLock] (.done .confirmation)) <|
      removeManagedServices.bind fun ok =>
        if ok then
          (removeAll [.etcRoot, .stateRoot, .backupRoot, .cli, .unit] true).bind fun ok =>
            .call .reload fun reloaded =>
              always [.releaseLock] (.done (if ok && reloaded then .removed else .incomplete))
        else always [.releaseLock] (.done .services)
    else always [.releaseLock] (.done .backup)

end Scripts

/-! ### Going through a script -/

section Rules

open Script

variable {α : Type} {I P P' : Watched γ φ → Prop} {Q : α → Watched γ φ → Prop}
  {w : Watched γ φ} {c : Cmd} {cs : List Cmd} {failed p : Script (Server γ φ) Cmd α}

/-- Commands that have no effect on the data. -/
def Cmd.neutral : Cmd → Bool
  | .backupDatabase | .unlinkSnapshot | .createArchive | .unlinkArchive | .extract _ | .apply _
  | .stop | .start | .disable | .down | .remove _ => false
  | _ => true

/-- Such a command leaves what the panel has made of the server. -/
theorem perform_neutral (hc : c.neutral = true) (x : Choice γ) :
    (watchedMachine.perform c x w).2 = w.commit x.panel := by
  cases c <;> first | rfl | simp [Cmd.neutral] at hc

/-- **Whatever the panel keeps, a command without effect keeps.** -/
theorem neutral_keeps (hP : ∀ (w : Watched γ φ) changes, P w → P (w.commit changes))
    (hc : c.neutral = true) : ∀ x w, P w → P (watchedMachine.perform c x w).2 := by
  intro x w hw
  rw [perform_neutral hc]
  exact hP w _ hw

/-- The commands of a row, when each keeps an invariant. -/
theorem wp_always (hI : ∀ t, P t → I t)
    (hcs : ∀ c ∈ cs, ∀ x w, P w → P (watchedMachine.perform c x w).2)
    (hp : ∀ t, P t → wp watchedMachine I p Q t) (hw : P w) :
    wp watchedMachine I (always cs p) Q w := by
  induction cs generalizing w with
  | nil => exact hp w hw
  | cons c cs ih =>
    intro x
    have h := hcs c (by simp) x w hw
    exact ⟨hI _ h, ih (fun c hc => hcs c (by simp [hc])) h⟩

/-- A command and what follows it, when it leads from one invariant to another. -/
theorem wp_orElse (hw : P w)
    (hc : ∀ x, P w → I (watchedMachine.perform c x w).2 ∧
      ((watchedMachine.perform c x w).1 = true → P' (watchedMachine.perform c x w).2) ∧
      ((watchedMachine.perform c x w).1 = false →
        wp watchedMachine I failed Q (watchedMachine.perform c x w).2))
    (hp : ∀ t, P' t → wp watchedMachine I p Q t) :
    wp watchedMachine I (orElse c failed p) Q w := by
  intro x
  obtain ⟨hI, hok, hfail⟩ := hc x hw
  refine ⟨hI, ?_⟩
  rw [wp_ite]
  exact ⟨fun h => hp _ (hok h), fun h => hfail (by simpa using h)⟩

/-- A check that keeps an invariant. -/
theorem wp_check (hI : ∀ t, P t → I t)
    (hP : ∀ (w : Watched γ φ) changes, P w → P (w.commit changes)) (hc : c.neutral = true)
    (hw : P w) (hfail : ∀ t, P t → wp watchedMachine I failed Q t)
    (hp : ∀ t, P t → wp watchedMachine I p Q t) :
    wp watchedMachine I (orElse c failed p) Q w := by
  refine wp_orElse hw (fun x hw => ?_) hp
  have h := neutral_keeps hP hc x w hw
  exact ⟨hI _ h, fun _ => h, fun _ => hfail _ h⟩

/-- The end after some last commands. -/
theorem wp_end {a : α} (hI : ∀ t, P t → I t)
    (hcs : ∀ c ∈ cs, ∀ x w, P w → P (watchedMachine.perform c x w).2) (hQ : ∀ t, P t → Q a t)
    (hw : P w) : wp watchedMachine I (always cs (.done a)) Q w :=
  wp_always hI hcs hQ hw

end Rules

/-! ### The archive and the changes since -/

section Archive

open Script

variable {w : Watched γ φ} {files : Part → φ}

/-- **Before the archive**: the files are the first ones and nothing has been stopped or removed. -/
structure Quiet (files : Part → φ) (w : Watched γ φ) : Prop where
  files : w.server.data.files = files
  atStop : w.history.atStop = none
  removed : w.server.removed = []

/-- The database is an earlier one with the changes since the snapshot. -/
def Since (database : List γ) (w : Watched γ φ) : Prop :=
  w.server.data.database = database ++ w.history.sinceSnapshot

/-- **The snapshot is the database without the changes since.** -/
structure Snapped (files : Part → φ) (w : Watched γ φ) : Prop where
  quiet : Quiet files w
  snapshot : ∃ database, w.server.snapshot = some database ∧ Since database w

/-- **The archive is the data without the changes since the snapshot.** -/
structure Archived (files : Part → φ) (w : Watched γ φ) : Prop where
  quiet : Quiet files w
  archive : ∃ database, w.server.archive = some ⟨database, files⟩ ∧ Since database w

/-- The panel changes the database and the two lists of changes, and nothing else. -/
theorem commit_eq (w : Watched γ φ) (changes : List γ) :
    ∃ changes', (w.commit changes).server.data.database = w.server.data.database ++ changes' ∧
      (w.commit changes).history.sinceSnapshot = w.history.sinceSnapshot ++ changes' ∧
      (w.commit changes).history.sinceStop = w.history.sinceStop ++ changes' ∧
      (w.server.running = false → changes' = []) := by
  cases hrunning : w.server.running with
  | true => exact ⟨changes, by simp [Watched.commit, Server.commit, hrunning]⟩
  | false => exact ⟨[], by simp [Watched.commit, Server.commit, hrunning]⟩

section Commit

variable (w) (changes : List γ)

@[simp] theorem commit_files : (w.commit changes).server.data.files = w.server.data.files := by
  simp only [Watched.commit, Server.commit]
  split <;> rfl

@[simp] theorem commit_running : (w.commit changes).server.running = w.server.running := by
  simp only [Watched.commit, Server.commit]
  split <;> rfl

@[simp] theorem commit_snapshot : (w.commit changes).server.snapshot = w.server.snapshot := by
  simp only [Watched.commit, Server.commit]
  split <;> rfl

@[simp] theorem commit_stages : (w.commit changes).server.stages = w.server.stages := by
  simp only [Watched.commit, Server.commit]
  split <;> rfl

@[simp] theorem commit_archive : (w.commit changes).server.archive = w.server.archive := by
  simp only [Watched.commit, Server.commit]
  split <;> rfl

@[simp] theorem commit_removed : (w.commit changes).server.removed = w.server.removed := by
  simp only [Watched.commit, Server.commit]
  split <;> rfl

@[simp] theorem commit_atStop : (w.commit changes).history.atStop = w.history.atStop := by
  simp only [Watched.commit]
  split <;> rfl

@[simp] theorem commit_lost : (w.commit changes).history.lost = w.history.lost := by
  simp only [Watched.commit]
  split <;> rfl

@[simp] theorem commit_stopped : (w.commit changes).history.stopped = w.history.stopped := by
  simp only [Watched.commit]
  split <;> rfl

end Commit

theorem Quiet.commit (w : Watched γ φ) (changes : List γ) (h : Quiet files w) :
    Quiet files (w.commit changes) where
  files := by rw [commit_files, h.files]
  atStop := by rw [commit_atStop, h.atStop]
  removed := by rw [commit_removed, h.removed]

theorem Since.commit {database : List γ} (w : Watched γ φ) (changes : List γ) (h : Since database w) :
    Since database (w.commit changes) := by
  obtain ⟨changes', hdatabase, hsince, -⟩ := commit_eq w changes
  rw [Since, hdatabase, hsince, h, List.append_assoc]

theorem Snapped.commit (w : Watched γ φ) (changes : List γ) (h : Snapped files w) :
    Snapped files (w.commit changes) := by
  obtain ⟨database, hsnapshot, hsince⟩ := h.snapshot
  exact ⟨h.quiet.commit w changes, database, by rw [commit_snapshot, hsnapshot],
    hsince.commit w changes⟩

theorem Archived.commit (w : Watched γ φ) (changes : List γ) (h : Archived files w) :
    Archived files (w.commit changes) := by
  obtain ⟨database, harchive, hsince⟩ := h.archive
  exact ⟨h.quiet.commit w changes, database, by rw [commit_archive, harchive],
    hsince.commit w changes⟩

/-- **Taking the snapshot.** -/
theorem perform_backupDatabase (x : Choice γ) (h : Quiet files w) :
    Quiet files (watchedMachine.perform .backupDatabase x w).2 ∧
      ((watchedMachine.perform .backupDatabase x w).1 = true →
        Snapped files (watchedMachine.perform .backupDatabase x w).2) := by
  have hq := h.commit w x.panel
  rcases x with ⟨panel, _ | _, took, database, parts⟩
  · exact ⟨hq, nofun⟩
  · have hq' : Quiet files (watchedMachine.perform .backupDatabase
        ⟨panel, true, took, database, parts⟩ w).2 := ⟨hq.files, hq.atStop, hq.removed⟩
    exact ⟨hq', fun _ => ⟨hq', _, rfl, (List.append_nil _).symm⟩⟩

/-- **Packing the archive.** -/
theorem perform_createArchive (x : Choice γ) (h : Snapped files w) :
    Quiet files (watchedMachine.perform .createArchive x w).2 ∧
      ((watchedMachine.perform .createArchive x w).1 = true →
        Archived files (watchedMachine.perform .createArchive x w).2) := by
  have hs := h.commit w x.panel
  obtain ⟨database, hsnapshot, hsince⟩ := hs.snapshot
  rcases x with ⟨panel, _ | _, took, replaced, parts⟩
  · exact ⟨hs.quiet, nofun⟩
  · simp only [watchedMachine, Cmd.effect, Cmd.note, hsnapshot]
    refine ⟨⟨hs.quiet.files, hs.quiet.atStop, hs.quiet.removed⟩, fun _ =>
      ⟨⟨hs.quiet.files, hs.quiet.atStop, hs.quiet.removed⟩, database, ?_, hsince⟩⟩
    rw [show (w.commit panel).server.data.files = files from hs.quiet.files]

/-- Removing the snapshot keeps the archive. -/
theorem archived_unlinkSnapshot (x : Choice γ) (w : Watched γ φ) (h : Archived files w) :
    Archived files (watchedMachine.perform .unlinkSnapshot x w).2 := by
  have ha := h.commit w x.panel
  obtain ⟨database, harchive, hsince⟩ := ha.archive
  rcases x with ⟨panel, _ | _, took, replaced, parts⟩
  · exact ha
  · exact ⟨⟨ha.quiet.files, ha.quiet.atStop, ha.quiet.removed⟩, database, harchive, hsince⟩

/-- Removing a file that was left keeps things quiet. -/
theorem quiet_unlink {c : Cmd} (hc : c = .unlinkSnapshot ∨ c = .unlinkArchive) (x : Choice γ)
    (w : Watched γ φ) (h : Quiet files w) : Quiet files (watchedMachine.perform c x w).2 := by
  have hq := h.commit w x.panel
  rcases x with ⟨panel, _ | _, took, replaced, parts⟩ <;> rcases hc with rfl | rfl <;>
    exact ⟨hq.files, hq.atStop, hq.removed⟩

/-- The commands after a failure keep things quiet. -/
theorem quiet_cleanup {cs : List Cmd}
    (hcs : ∀ c ∈ cs, c.neutral = true ∨ c = .unlinkSnapshot ∨ c = .unlinkArchive) :
    ∀ c ∈ cs, ∀ x (w : Watched γ φ), Quiet files w → Quiet files (watchedMachine.perform c x w).2 := by
  intro c hc x w hw
  rcases hcs c hc with hneutral | hunlink
  · exact neutral_keeps Quiet.commit hneutral x w hw
  · exact quiet_unlink hunlink x w hw

/-- The commands after the archive was packed keep it. -/
theorem archived_cleanup {cs : List Cmd} (hcs : ∀ c ∈ cs, c.neutral = true ∨ c = .unlinkSnapshot) :
    ∀ c ∈ cs, ∀ x (w : Watched γ φ), Archived files w →
      Archived files (watchedMachine.perform c x w).2 := by
  intro c hc x w hw
  rcases hcs c hc with hneutral | rfl
  · exact neutral_keeps Archived.commit hneutral x w hw
  · exact archived_unlinkSnapshot x w hw

section Create

variable {I : Watched γ φ → Prop} (hI : ∀ t, Quiet files t → I t)

include hI

/-- A failed archive leaves things quiet. -/
theorem wp_quiet_end {cs : List Cmd}
    (hcs : ∀ c ∈ cs, c.neutral = true ∨ c = .unlinkSnapshot ∨ c = .unlinkArchive)
    (hw : Quiet files w) :
    wp watchedMachine I (always cs (.done false))
      (fun ok t => Quiet files t ∧ (ok = true → Archived files t)) w :=
  wp_end hI (quiet_cleanup hcs) (fun _ h => ⟨h, nofun⟩) hw

/-- **`_backup_create_internal`** makes an archive of the data, less what is committed meanwhile. -/
theorem wp_backupCreateInternal (hw : Quiet files w) :
    wp watchedMachine I backupCreateInternal
      (fun ok t => Quiet files t ∧ (ok = true → Archived files t)) w := by
  have hS : ∀ t, Snapped files t → I t := fun t h => hI t h.quiet
  have hA : ∀ t, Archived files t → I t := fun t h => hI t h.quiet
  have hend : ∀ {cs : List Cmd},
      (∀ c ∈ cs, c.neutral = true ∨ c = .unlinkSnapshot ∨ c = .unlinkArchive) →
      ∀ t, Snapped files t → wp watchedMachine I (always cs (.done false))
        (fun ok t => Quiet files t ∧ (ok = true → Archived files t)) t :=
    fun hcs t h => wp_quiet_end hI hcs h.quiet
  refine wp_check hI Quiet.commit rfl hw (fun t h => ⟨h, nofun⟩) fun t h => ?_
  refine wp_always hI (quiet_cleanup (by decide)) (fun t h => ?_) h
  refine wp_check hI Quiet.commit rfl h (fun t h => ⟨h, nofun⟩) fun t h => ?_
  -- the snapshot
  refine wp_orElse h (fun x h => ?_) fun t (h : Snapped files t) => ?_
  · have hsnap := perform_backupDatabase x h
    exact ⟨hI _ hsnap.1, hsnap.2, fun _ => wp_quiet_end hI (by decide) hsnap.1⟩
  refine wp_check hS Snapped.commit rfl h (hend (by decide)) fun t h => ?_
  refine wp_check hS Snapped.commit rfl h (hend (by decide)) fun t h => ?_
  refine wp_always hS (fun c hc x w hw => ?_) (fun t h => ?_) h
  · exact neutral_keeps Snapped.commit (by simp at hc; subst hc; rfl) x w hw
  refine wp_check hS Snapped.commit rfl h (hend (by decide)) fun t h => ?_
  -- the archive
  refine wp_orElse h (fun x h => ?_) fun t (h : Archived files t) => ?_
  · have hpack := perform_createArchive x h
    exact ⟨hI _ hpack.1, hpack.2, fun _ => wp_quiet_end hI (by decide) hpack.1⟩
  exact wp_end hA (archived_cleanup (by decide)) (fun t h => ⟨h.quiet, fun _ => h⟩) h

end Create

end Archive

/-! ### A restore that fails -/

section Restore

open Script

variable {w : Watched γ φ} {files : Part → φ}

/-- **The original state is back**: the files are those at the moment of the stop, and the database
is the one of that moment with what was committed since. -/
def Watched.Returned (w : Watched γ φ) : Prop :=
  ∃ d, w.history.atStop = some d ∧ w.server.data.files = d.files ∧
    w.server.data.database = d.database ++ w.history.sinceStop

/-- **After the stop**: the archive is the data of that moment, without the lost changes. -/
structure Stopped (stopped : Bool) (database : List γ) (d : Data γ φ) (w : Watched γ φ) :
    Prop where
  archive : w.server.archive = some ⟨database, d.files⟩
  atStop : w.history.atStop = some d
  lost : d.database = database ++ w.history.lost
  stopped : w.history.stopped = stopped

variable {ok : Bool} {database : List γ} {d : Data γ φ}

theorem Stopped.commit (w : Watched γ φ) (changes : List γ) (h : Stopped ok database d w) :
    Stopped ok database d (w.commit changes) where
  archive := by rw [commit_archive, h.archive]
  atStop := by rw [commit_atStop, h.atStop]
  lost := by rw [commit_lost, h.lost]
  stopped := by rw [commit_stopped, h.stopped]

/-- Restoring, starting and stopping again keep what is known of the stop. -/
theorem stopped_perform {c : Cmd}
    (hc : c.neutral = true ∨ c = .stop ∨ c = .start ∨ ∃ slot, c = .extract slot ∨ c = .apply slot)
    (x : Choice γ) (w : Watched γ φ) (h : Stopped ok database d w) :
    Stopped ok database d (watchedMachine.perform c x w).2 := by
  have hs := h.commit w x.panel
  rcases hc with hneutral | rfl | rfl | ⟨slot, rfl | rfl⟩
  · exact neutral_keeps Stopped.commit hneutral x w h
  · -- a later stop records nothing
    have hsome : (w.commit x.panel).history.atStop.isNone = false := by rw [hs.atStop]; rfl
    simp only [watchedMachine, Cmd.effect, Cmd.note, hsome, Bool.false_eq_true, ↓reduceIte]
    exact ⟨hs.archive, hs.atStop, hs.lost, hs.stopped⟩
  · exact ⟨hs.archive, hs.atStop, hs.lost, hs.stopped⟩
  · simp only [watchedMachine, Cmd.effect, Cmd.note]
    split <;> exact ⟨hs.archive, hs.atStop, hs.lost, hs.stopped⟩
  · simp only [watchedMachine, Cmd.effect, Cmd.note]
    split
    · exact ⟨hs.archive, hs.atStop, hs.lost, hs.stopped⟩
    · split <;> exact ⟨hs.archive, hs.atStop, hs.lost, hs.stopped⟩

/-- **The stop itself**: it is recorded, and the data has not changed since. -/
theorem perform_stop (x : Choice γ) (h : Archived files w) :
    ∃ database d, Stopped (watchedMachine.perform .stop x w).1 database d
        (watchedMachine.perform .stop x w).2 ∧
      (watchedMachine.perform .stop x w).2.Returned := by
  have ha := h.commit w x.panel
  obtain ⟨database, harchive, hsince⟩ := ha.archive
  refine ⟨database, (w.commit x.panel).server.data, ?_, ?_⟩
  · simp only [watchedMachine, Cmd.effect, Cmd.note, ha.quiet.atStop, Option.isNone_none,
      ↓reduceIte, Watched.record]
    exact ⟨by rw [ha.quiet.files]; exact harchive, rfl, hsince, rfl⟩
  · refine ⟨(w.commit x.panel).server.data, ?_, rfl, ?_⟩
    · simp only [watchedMachine, Cmd.note, ha.quiet.atStop, Option.isNone_none, ↓reduceIte,
        Watched.record]
    · simp only [watchedMachine, Cmd.effect, Cmd.note, List.append_nil]

/-- What the panel commits comes after the original state. -/
theorem Watched.Returned.commit (w : Watched γ φ) (changes : List γ) (h : w.Returned) :
    (w.commit changes).Returned := by
  obtain ⟨d, hd, hfiles, hdatabase⟩ := h
  obtain ⟨changes', hdatabase', -, hsince, -⟩ := commit_eq w changes
  exact ⟨d, by rw [commit_atStop, hd], by rw [commit_files, hfiles],
    by rw [hdatabase', hsince, hdatabase, List.append_assoc]⟩

/-- **The archive is back**: the data is that of the archive, with what was committed since the
stack was stopped again. -/
structure Back (database : List γ) (d : Data γ φ) (w : Watched γ φ) : Prop where
  stopped : Stopped true database d w
  files : w.server.data.files = d.files
  database : w.server.data.database = database ++ w.history.sinceStop

theorem Back.commit (w : Watched γ φ) (changes : List γ) (h : Back database d w) :
    Back database d (w.commit changes) := by
  obtain ⟨changes', hdatabase', -, hsince, -⟩ := commit_eq w changes
  exact ⟨h.stopped.commit w changes, by rw [commit_files, h.files],
    by rw [hdatabase', hsince, h.database, List.append_assoc]⟩

/-- **The original state is back exactly when nothing was lost.** -/
theorem Back.returned_iff (h : Back database d w) : w.Returned ↔ w.history.lost = [] := by
  constructor
  · rintro ⟨d', hd', -, hdatabase⟩
    obtain rfl : d = d' := Option.some.inj (h.stopped.atStop.symm.trans hd')
    rw [h.database, h.stopped.lost, List.append_assoc, List.append_cancel_left_eq] at hdatabase
    simpa using hdatabase
  · intro hlost
    refine ⟨d, h.stopped.atStop, h.files, ?_⟩
    rw [h.database, h.stopped.lost, hlost, List.append_nil]

/-- The stack does not run, and nothing was committed since the last stop. -/
structure Halted (database : List γ) (d : Data γ φ) (w : Watched γ φ) : Prop where
  stopped : Stopped true database d w
  running : w.server.running = false
  sinceStop : w.history.sinceStop = []

theorem Halted.commit (w : Watched γ φ) (changes : List γ) (h : Halted database d w) :
    Halted database d (w.commit changes) := by
  obtain ⟨changes', -, -, hsince, hnone⟩ := commit_eq w changes
  exact ⟨h.stopped.commit w changes, by rw [commit_running, h.running],
    by rw [hsince, h.sinceStop, hnone h.running, List.append_nil]⟩

/-- A branch whose value is not claimed about. -/
theorem wp_vacuous {α : Type} {a b : α} (hne : a ≠ b) (cs : List Cmd)
    (R : Watched γ φ → Prop) (w : Watched γ φ) :
    wp watchedMachine (fun _ => True) (always cs (.done a)) (fun e t => e = b → R t) w := by
  induction cs generalizing w with
  | nil => exact fun h => absurd h hne
  | cons c cs ih => exact fun x => ⟨trivial, ih _⟩

/-- **`_backup_restore_preimage`** of a halted stack brings the archive back. -/
theorem wp_backupRestorePreimage (hw : Halted database d w) :
    wp watchedMachine (fun _ => True) backupRestorePreimage
      (fun ok t => ok = true → Back database d t) w := by
  have hfail : ∀ (cs : List Cmd) (t : Watched γ φ), wp watchedMachine (fun _ => True)
      (always cs (.done false)) (fun ok t => ok = true → Back database d t) t :=
    fun cs t => wp_vacuous (by decide) cs _ t
  refine wp_check (fun _ _ => trivial) Halted.commit rfl hw (fun t _ => hfail [] t) fun t h => ?_
  refine wp_always (fun _ _ => trivial) (fun c hc x w hw => ?_) (fun t h => ?_) h
  · exact neutral_keeps Halted.commit (by simp at hc; subst hc; rfl) x w hw
  -- the archive is extracted
  refine wp_orElse h (fun x h => ⟨trivial, fun hok => ?_, fun _ => hfail _ _⟩)
    fun t (h : Halted database d t ∧ t.server.stages .preimage = some ⟨database, d.files⟩) => ?_
  · have hh := h.commit t x.panel
    rcases x with ⟨panel, _ | _, took, replaced, parts⟩
    · cases hok
    · simp only [watchedMachine, Cmd.effect, Cmd.note, Server.source, hh.stopped.archive]
      refine ⟨⟨⟨hh.stopped.archive, hh.stopped.atStop, hh.stopped.lost, hh.stopped.stopped⟩,
        hh.running, hh.sinceStop⟩, ?_⟩
      simp only [Server.setStage, Function.update_self]
  -- and applied
  refine wp_orElse (P := fun t => Halted database d t ∧
    t.server.stages .preimage = some ⟨database, d.files⟩) h (fun x h => ⟨trivial, fun hok => ?_, fun _ => hfail _ _⟩)
    fun t (h : Back database d t) => ?_
  · have hh := h.1.commit t x.panel
    have hstage : (t.commit x.panel).server.stages .preimage = some ⟨database, d.files⟩ := by
      rw [commit_stages, h.2]
    rcases x with ⟨panel, _ | _, took, replaced, parts⟩
    · simp only [watchedMachine, Cmd.effect, hstage, Bool.false_eq_true, ↓reduceIte] at hok
    · simp only [watchedMachine, Cmd.effect, Cmd.note, hstage, ↓reduceIte]
      refine ⟨⟨hh.stopped.archive, hh.stopped.atStop, hh.stopped.lost, hh.stopped.stopped⟩, rfl, ?_⟩
      rw [show (t.commit panel).history.sinceStop = [] from hh.sinceStop, List.append_nil]
  refine wp_end (fun _ _ => trivial) (fun c hc x w hw => ?_) (fun t h _ => h) h
  exact neutral_keeps Back.commit (by simp at hc; subst hc; rfl) x w hw

/-- What is claimed of a restore that reports that the original state was returned. -/
def RestoreClaim (e : RestoreEnd) (t : Watched γ φ) : Prop :=
  e = .health → (t.Returned ↔ (t.history.stopped = true → t.history.lost = []))

/-- **The way back after the payload was touched.** -/
theorem wp_restoreRollback (hw : Stopped true database d w) :
    wp watchedMachine (fun _ => True) restoreRollback RestoreClaim w := by
  have hchain : wp watchedMachine (fun _ => True)
      (all [.run .stop, backupRestorePreimage, .run .start, .run .health])
      (fun ok t => ok = true → Back database d t) w := by
    refine wp_all_of (R := Halted database d) (fun x => ⟨trivial, fun hok => ?_⟩) fun t h => ?_
    · have hs := stopped_perform (.inr (.inl rfl)) x w hw
      rcases x with ⟨panel, _ | _, took, replaced, parts⟩
      · cases hok
      · exact ⟨hs, Bool.and_false _, rfl⟩
    refine wp_all_of (wp_backupRestorePreimage h) fun t h => ?_
    refine wp_all_of (R := Back database d) (fun x => ⟨trivial, fun _ => ?_⟩) fun t h => ?_
    · have hb := h.commit t x.panel
      exact ⟨⟨hb.stopped.archive, hb.stopped.atStop, hb.stopped.lost, hb.stopped.stopped⟩, hb.files,
        hb.database⟩
    refine wp_all_of (R := Back database d) (fun x => ⟨trivial, fun _ => ?_⟩) fun t h _ => h
    exact neutral_keeps Back.commit rfl x t h
  rw [restoreRollback, wp_bind]
  refine wp_mono hchain (fun _ h => h) fun ok t ht => ?_
  cases ok with
  | false => exact wp_vacuous (by decide) _ _ t
  | true =>
    refine wp_end (P := Back database d) (fun _ _ => trivial) (fun c hc x w hw => ?_) ?_ (ht rfl)
    · exact neutral_keeps Back.commit (by simp at hc; subst hc; rfl) x w hw
    · intro t h _
      rw [h.returned_iff, h.stopped.stopped]
      exact ⟨fun hlost _ => hlost, fun hlost => hlost rfl⟩

/-- **The way back after a stop that failed**: nothing was changed. -/
theorem wp_restoreRestart (hw : Stopped false database d w ∧ w.Returned) :
    wp watchedMachine (fun _ => True) restoreRestart RestoreClaim w := by
  have hkeeps : ∀ c : Cmd, c.neutral = true ∨ c = .start → ∀ x (w : Watched γ φ),
      (Stopped false database d w ∧ w.Returned) →
      Stopped false database d (watchedMachine.perform c x w).2 ∧
        (watchedMachine.perform c x w).2.Returned := by
    rintro c (hneutral | rfl) x w ⟨hs, hr⟩
    · exact ⟨stopped_perform (.inl hneutral) x w hs,
        neutral_keeps Watched.Returned.commit hneutral x w hr⟩
    · exact ⟨stopped_perform (.inr (.inr (.inl rfl))) x w hs, hr.commit w x.panel⟩
  have hchain : wp watchedMachine (fun _ => True) (all [.run .start, .run .health])
      (fun ok t => ok = true → Stopped false database d t ∧ t.Returned) w := by
    refine wp_all_of (R := fun t => Stopped false database d t ∧ t.Returned)
      (fun x => ⟨trivial, fun _ => hkeeps .start (.inr rfl) x w hw⟩) fun t h => ?_
    exact wp_all_of (R := fun t => Stopped false database d t ∧ t.Returned)
      (fun x => ⟨trivial, fun _ => hkeeps .health (.inl rfl) x t h⟩) fun t h _ => h
  rw [restoreRestart, wp_bind]
  refine wp_mono hchain (fun _ h => h) fun ok t ht => ?_
  cases ok with
  | false => exact wp_vacuous (by decide) _ _ t
  | true =>
    refine wp_end (P := fun t => Stopped false database d t ∧ t.Returned) (fun _ _ => trivial)
      (fun c hc x w hw => ?_) ?_ (ht rfl)
    · exact hkeeps c (.inl (by simp at hc; subst hc; rfl)) x w hw
    · rintro t ⟨hs, hr⟩ -
      rw [hs.stopped]
      exact ⟨fun _ => nofun, fun _ => hr⟩

/-- **From the stop on.** -/
theorem wp_restoreStopped (hw : Archived files w) :
    wp watchedMachine (fun _ => True) restoreStopped RestoreClaim w := by
  intro x
  obtain ⟨database, d, hstopped, hreturned⟩ := perform_stop x hw
  refine ⟨trivial, ?_⟩
  cases hok : (watchedMachine.perform .stop x w).1 with
  | true =>
    rw [hok] at hstopped
    simp only [↓reduceIte]
    rw [wp_bind]
    have hkeeps : Keeps watchedMachine (Stopped true database d) (Stopped true database d)
        (all [.run (.apply .given), .run .start, .run .health]) := by
      refine Keeps.all fun p hp => ?_
      simp only [List.mem_cons, List.not_mem_nil, or_false] at hp
      rcases hp with rfl | rfl | rfl <;> intro s hs x
      · have h := stopped_perform (.inr (.inr (.inr ⟨.given, .inr rfl⟩))) x s hs
        exact ⟨h, h⟩
      · have h := stopped_perform (.inr (.inr (.inl rfl))) x s hs
        exact ⟨h, h⟩
      · have h := stopped_perform (c := .health) (.inl rfl) x s hs
        exact ⟨h, h⟩
    refine wp_mono (hkeeps _ hstopped) (fun _ _ => trivial) fun ok t ht => ?_
    refine wp_always (P := Stopped true database d) (fun _ _ => trivial) (fun c hc x w hw => ?_)
      (fun t ht => ?_) ht
    · exact stopped_perform (.inl (by simp at hc; subst hc; rfl)) x w hw
    cases ok with
    | true => exact wp_vacuous (by decide) _ _ t
    | false => exact wp_restoreRollback ht
  | false =>
    rw [hok] at hstopped
    simp only [Bool.false_eq_true, ↓reduceIte]
    refine wp_always (P := fun t => Stopped false database d t ∧ t.Returned)
      (fun _ _ => trivial) (fun c hc x w hw => ?_) (fun t ht => wp_restoreRestart ht)
      ⟨hstopped, hreturned⟩
    have hneutral : c.neutral = true := by
      simp at hc
      subst hc
      rfl
    exact ⟨stopped_perform (.inl hneutral) x w hw.1,
      neutral_keeps Watched.Returned.commit hneutral x w hw.2⟩

/-- **`backup_restore`.** -/
theorem wp_backupRestore (hw : Quiet files w) :
    wp watchedMachine (fun _ => True) backupRestore RestoreClaim w := by
  have hI : ∀ t, Quiet files t → (fun _ : Watched γ φ => True) t := fun _ _ => trivial
  refine wp_check hI Quiet.commit rfl hw (fun t _ => wp_vacuous (by decide) [] _ t) fun t h => ?_
  refine wp_check hI Quiet.commit rfl h (fun t _ => wp_vacuous (by decide) [] _ t) fun t h => ?_
  refine wp_check hI Quiet.commit rfl h (fun t _ => wp_vacuous (by decide) [] _ t) fun t h => ?_
  refine wp_check hI Quiet.commit rfl h (fun t _ => wp_vacuous (by decide) [] _ t) fun t h => ?_
  refine wp_check hI Quiet.commit rfl h (fun t _ => wp_vacuous (by decide) _ _ t) fun t h => ?_
  refine wp_check hI Quiet.commit rfl h (fun t _ => wp_vacuous (by decide) _ _ t) fun t h => ?_
  refine wp_always hI (quiet_cleanup (by decide)) (fun t h => ?_) h
  refine wp_orElse h (fun x h => ⟨trivial, fun _ => ?_, fun _ => wp_vacuous (by decide) _ _ _⟩)
    fun t (h : Quiet files t) => ?_
  · have hq := h.commit t x.panel
    simp only [watchedMachine, Cmd.effect, Cmd.note]
    split <;> exact ⟨hq.files, hq.atStop, hq.removed⟩
  refine wp_check hI Quiet.commit rfl h (fun t _ => wp_vacuous (by decide) _ _ t) fun t h => ?_
  rw [wp_bind]
  refine wp_mono (wp_backupCreateInternal hI h) (fun _ h => h) fun ok t ht => ?_
  cases ok with
  | true => exact wp_restoreStopped (ht.2 rfl)
  | false => exact wp_vacuous (by decide) _ _ t

/-- **A failed restore returns the original state exactly when nothing came between the snapshot
and the stop.** If `backup_restore` reports that the original state was returned, then it was,
unless the stop succeeded and the panel had committed changes since the snapshot. -/
theorem restore_returns_iff {data given : Data γ φ} {running : Bool} {choices : List (Choice γ)}
    {t : Watched γ φ}
    (h : backupRestore.exec watchedMachine choices (.fresh data given running) =
      (some .health, t)) :
    t.Returned ↔ (t.history.stopped = true → t.history.lost = []) := by
  have hquiet : Quiet data.files (.fresh data given running : Watched γ φ) := ⟨rfl, rfl, rfl⟩
  exact (exec_of_wp (wp_backupRestore hquiet) trivial choices).2 _ t h rfl

/-- A command that succeeds, while the panel is idle. -/
def fine : Choice ℕ := ⟨[], true, false, false, fun _ => false⟩

/-- A command that fails without effect. -/
def failing : Choice ℕ := { fine with ok := false }

/-- A command that succeeds, after the panel has committed a change. -/
def afterChange (change : ℕ) : Choice ℕ := { fine with panel := [change] }

/-- The data of a server with one change, and of an archive without. -/
def sampleData : Data ℕ Bool := ⟨[1], fun _ => true⟩

/-- An older archive. -/
def sampleGiven : Data ℕ Bool := ⟨[], fun _ => false⟩

/-- The choices of a restore whose health check fails: twenty commands up to the stop, the stop, the
restore, the start and the health check, the removal of the stage, and the way back. -/
def failedRestore (stop : Choice ℕ) : List (Choice ℕ) :=
  List.replicate 20 fine ++ [stop, fine, fine, failing] ++ List.replicate 10 fine

/-- **A change between the snapshot and the stop is lost**, and the restore reports that the original
state was returned. -/
theorem restore_loses_change :
    ∃ t, backupRestore.exec watchedMachine (failedRestore (afterChange 2))
        (.fresh sampleData sampleGiven true) = (some .health, t) ∧
      t.history.atStop.map Data.database = some [1, 2] ∧ t.server.data.database = [1] ∧
      ¬ t.Returned := by
  refine ⟨_, rfl, rfl, rfl, ?_⟩
  rintro ⟨d, hd, -, hdatabase⟩
  obtain rfl := Option.some.inj hd
  exact absurd hdatabase (by decide)

/-- Without a change in between the original state is returned. -/
theorem restore_returns_unchanged :
    ∃ t, backupRestore.exec watchedMachine (failedRestore fine)
        (.fresh sampleData sampleGiven true) = (some .health, t) ∧ t.Returned := by
  have hrun : backupRestore.exec watchedMachine (failedRestore fine)
      (.fresh sampleData sampleGiven true) = (some .health, (backupRestore.exec watchedMachine
        (failedRestore fine) (.fresh sampleData sampleGiven true)).2) := rfl
  exact ⟨_, hrun, (restore_returns_iff hrun).mpr fun _ => rfl⟩

end Restore

/-! ### A purge -/

section Purge

open Script

variable {w : Watched γ φ} {files : Part → φ} {database : List γ}

/-- **The final archive is final**: it holds the database of the moment at which the stack was
stopped. -/
def Watched.Final (w : Watched γ φ) : Prop :=
  ∃ a d, w.server.archive = some a ∧ w.history.atStop = some d ∧ a.database = d.database

/-- What is claimed at every moment of a purge that has removed something. -/
def PurgeClaim (w : Watched γ φ) : Prop :=
  w.server.removed ≠ [] → (w.Final ↔ w.history.lost = [])

/-- **Between the archive and the removal**: the stack was stopped, or is about to be. -/
structure Stopping (database : List γ) (w : Watched γ φ) : Prop where
  archive : ∃ files, w.server.archive = some ⟨database, files⟩
  since : Since database w
  atStop : ∃ d, w.history.atStop = some d ∧ d.database = database ++ w.history.lost

/-- **The stack is stopped**: the moment is recorded for good. -/
structure Purging (database : List γ) (w : Watched γ φ) : Prop where
  archive : ∃ files, w.server.archive = some ⟨database, files⟩
  atStop : ∃ d, w.history.atStop = some d ∧ d.database = database ++ w.history.lost

theorem Stopping.purging (h : Stopping database w) : Purging database w := ⟨h.archive, h.atStop⟩

/-- The claim, once the moment is recorded. -/
theorem Purging.claim (h : Purging database w) : PurgeClaim w := by
  intro _
  obtain ⟨files, harchive⟩ := h.archive
  obtain ⟨d, hd, hdatabase⟩ := h.atStop
  constructor
  · rintro ⟨a, d', ha, hd', heq⟩
    obtain rfl := Option.some.inj (harchive.symm.trans ha)
    obtain rfl := Option.some.inj (hd.symm.trans hd')
    rw [hdatabase] at heq
    simpa using heq
  · intro hlost
    refine ⟨_, d, harchive, hd, ?_⟩
    rw [hdatabase, hlost, List.append_nil]

theorem Quiet.claim {t : Watched γ φ} (h : Quiet files t) : PurgeClaim t :=
  fun hremoved => absurd h.removed hremoved

theorem Purging.commit (w : Watched γ φ) (changes : List γ) (h : Purging database w) :
    Purging database (w.commit changes) where
  archive := by rw [commit_archive]; exact h.archive
  atStop := by rw [commit_atStop, commit_lost]; exact h.atStop

theorem Stopping.commit (w : Watched γ φ) (changes : List γ) (h : Stopping database w) :
    Stopping database (w.commit changes) :=
  ⟨(h.purging.commit w changes).archive, h.since.commit w changes,
    (h.purging.commit w changes).atStop⟩

/-- `disable` records the moment, if the stack ran. -/
theorem perform_disable (x : Choice γ) (h : Archived files w) :
    ∃ database, Stopping database (watchedMachine.perform .disable x w).2 := by
  have ha := h.commit w x.panel
  obtain ⟨database, harchive, hsince⟩ := ha.archive
  refine ⟨database, ⟨files, harchive⟩, ?_, ?_⟩
  · simp only [watchedMachine, Cmd.effect, Cmd.note, ha.quiet.atStop, Option.isNone_none,
      Bool.true_or, ↓reduceIte, Watched.record]
    exact hsince
  · refine ⟨(w.commit x.panel).server.data, ?_, ?_⟩ <;>
      simp only [watchedMachine, Cmd.note, ha.quiet.atStop, Option.isNone_none, Bool.true_or,
        ↓reduceIte, Watched.record]
    exact hsince

/-- So does `down`, if the stack still ran. -/
theorem perform_down (x : Choice γ) (h : Stopping database w) :
    Purging database (watchedMachine.perform .down x w).2 := by
  have hs := h.commit w x.panel
  obtain ⟨d, hd, hdatabase⟩ := hs.atStop
  simp only [watchedMachine, Cmd.effect, Cmd.note, hd, Option.isNone_some, Bool.false_or]
  split
  · exact ⟨hs.archive, _, rfl, hs.since⟩
  · exact ⟨hs.archive, d, hd, hdatabase⟩

/-- Removing keeps what is recorded. -/
theorem purging_remove (target : Target) (x : Choice γ) (h : Purging database w) :
    Purging database (watchedMachine.perform (.remove target) x w).2 := by
  have hp := h.commit w x.panel
  simp only [watchedMachine, Cmd.effect, Cmd.note]
  split <;> exact ⟨hp.archive, hp.atStop⟩

/-- The removals. -/
theorem keeps_removeAll (targets : List Target) (ok : Bool) :
    Keeps (watchedMachine (γ := γ) (φ := φ)) PurgeClaim (Purging database)
      (removeAll targets ok) := by
  induction targets generalizing ok with
  | nil => exact .done ok
  | cons t ts ih =>
    intro s hs x
    have h := purging_remove t x hs
    exact ⟨h.claim, ih _ _ h⟩

/-- **`_remove_create_final_archive`** makes an archive of the data, less what is committed
meanwhile. -/
theorem wp_removeCreateFinalArchive (hw : Quiet files w) :
    wp watchedMachine PurgeClaim removeCreateFinalArchive
      (fun ok t => Quiet files t ∧ (ok = true → Archived files t)) w := by
  have hI : ∀ t : Watched γ φ, Quiet files t → PurgeClaim t := fun t h => h.claim
  have hS : ∀ t : Watched γ φ, Snapped files t → PurgeClaim t := fun t h => h.quiet.claim
  have hA : ∀ t : Watched γ φ, Archived files t → PurgeClaim t := fun t h => h.quiet.claim
  refine wp_check hI Quiet.commit rfl hw (fun t h => ⟨h, nofun⟩) fun t h => ?_
  refine wp_check hI Quiet.commit rfl h (fun t h => ⟨h, nofun⟩) fun t h => ?_
  -- the snapshot
  refine wp_orElse h (fun x h => ?_) fun t (h : Snapped files t) => ?_
  · have hsnap := perform_backupDatabase x h
    exact ⟨hI _ hsnap.1, hsnap.2, fun _ => ⟨hsnap.1, nofun⟩⟩
  refine wp_check hS Snapped.commit rfl h (fun t h => wp_quiet_end hI (by decide) h.quiet)
    fun t h => ?_
  refine wp_always hS (fun c hc x w hw => ?_) (fun t h => ?_) h
  · exact neutral_keeps Snapped.commit (by simp at hc; subst hc; rfl) x w hw
  -- the archive
  refine wp_orElse h (fun x h => ?_) fun t (h : Archived files t) => ?_
  · have hpack := perform_createArchive x h
    exact ⟨hI _ hpack.1, hpack.2, fun _ => wp_quiet_end hI (by decide) hpack.1⟩
  refine wp_always hA (archived_cleanup (by decide)) (fun t h => ?_) h
  refine wp_check hA Archived.commit rfl h (fun t h => ⟨h.quiet, nofun⟩) fun t h => ?_
  refine wp_always hA (archived_cleanup (by decide)) (fun t h => ?_) h
  refine wp_check hA Archived.commit rfl h
    (fun t h => wp_end hA (archived_cleanup (by decide)) (fun t h => ⟨h.quiet, nofun⟩) h)
    fun t h => ?_
  exact wp_end hA (archived_cleanup (by decide)) (fun t h => ⟨h.quiet, fun _ => h⟩) h

/-- **`_remove_managed_services`**: the stack is stopped, and the moment recorded. -/
theorem wp_removeManagedServices (hw : Archived files w) :
    wp watchedMachine PurgeClaim removeManagedServices
      (fun _ t => ∃ database, Purging database t) w := by
  intro x
  obtain ⟨database, hstopping⟩ := perform_disable x hw
  refine ⟨hstopping.purging.claim, fun y => ?_⟩
  have hpurging := perform_down y hstopping
  refine ⟨hpurging.claim, fun z => ?_⟩
  have hfirewall := neutral_keeps (c := .rollbackFirewall) Purging.commit rfl z _ hpurging
  exact ⟨hfirewall.claim, database, hfirewall⟩

/-- **`remove_purge`.** -/
theorem wp_removePurge (hw : Quiet files w) :
    wp watchedMachine PurgeClaim removePurge (fun _ t => PurgeClaim t) w := by
  have hI : ∀ t : Watched γ φ, Quiet files t → PurgeClaim t := fun t h => h.claim
  have hP : ∀ {database : List γ} (t : Watched γ φ), Purging database t → PurgeClaim t :=
    fun t h => h.claim
  have hquit : ∀ (e : PurgeEnd) (t : Watched γ φ), Quiet files t →
      wp watchedMachine PurgeClaim (always [.releaseLock] (.done e)) (fun _ t => PurgeClaim t) t :=
    fun e t h => wp_end hI (quiet_cleanup (by decide)) (fun t h => h.claim) h
  refine wp_check hI Quiet.commit rfl hw (fun t h => h.claim) fun t h => ?_
  refine wp_check hI Quiet.commit rfl h (fun t h => h.claim) fun t h => ?_
  refine wp_check hI Quiet.commit rfl h (fun t h => h.claim) fun t h => ?_
  refine wp_check hI Quiet.commit rfl h (hquit _) fun t h => ?_
  rw [wp_bind]
  refine wp_mono (wp_removeCreateFinalArchive h) (fun _ h => h) fun ok t ht => ?_
  cases ok with
  | false => exact hquit _ t ht.1
  | true =>
    refine wp_check (fun t (h : Archived files t) => h.quiet.claim) Archived.commit rfl (ht.2 rfl)
      (fun t h => hquit _ t h.quiet) fun t h => ?_
    rw [wp_bind]
    refine wp_mono (wp_removeManagedServices h) (fun _ h => h) fun ok t ht => ?_
    obtain ⟨database, hpurging⟩ := ht
    have hkeeps : ∀ c ∈ [Cmd.releaseLock], ∀ x (w : Watched γ φ), Purging database w →
        Purging database (watchedMachine.perform c x w).2 := by
      intro c hc x w hw
      exact neutral_keeps Purging.commit (by simp at hc; subst hc; rfl) x w hw
    cases ok with
    | false => exact wp_end hP hkeeps (fun t h => h.claim) hpurging
    | true =>
      simp only [↓reduceIte]
      rw [wp_bind]
      refine wp_mono (keeps_removeAll _ _ t hpurging) (fun _ h => h) fun ok t ht => fun x => ?_
      have hreload := neutral_keeps (c := .reload) Purging.commit rfl x t ht
      exact ⟨hreload.claim, wp_end hP hkeeps (fun t h => h.claim) hreload⟩

/-- **The final archive is final exactly when nothing came between the snapshot and the stop**: at
every moment of every purge, with every failure and every crash, at which something was removed. -/
theorem finalArchive_iff (data given : Data γ φ) (running : Bool) (choices : List (Choice γ)) :
    ((removePurge.exec watchedMachine choices (.fresh data given running)).2.server.removed ≠ [] →
      ((removePurge.exec watchedMachine choices (.fresh data given running)).2.Final ↔
        (removePurge.exec watchedMachine choices (.fresh data given running)).2.history.lost =
          [])) := by
  have hquiet : Quiet data.files (.fresh data given running : Watched γ φ) := ⟨rfl, rfl, rfl⟩
  obtain ⟨hcrash, hend⟩ := exec_of_wp (wp_removePurge hquiet) hquiet.claim choices
  cases hrun : removePurge.exec watchedMachine choices (.fresh data given running) with
  | mk e t =>
    cases e with
    | none => exact hcrash t hrun
    | some e => exact hend e t hrun

/-- The choices of a purge: the archive in sixteen commands, the confirmation, and the removal. -/
def purging (confirm : Choice ℕ) : List (Choice ℕ) :=
  List.replicate 16 fine ++ [confirm] ++ List.replicate 10 fine

/-- **A change made while the operator confirms is gone for good.** -/
theorem finalArchive_lacks_change :
    (removePurge.exec watchedMachine (purging (afterChange 2))
        (.fresh sampleData sampleGiven true)).1 = some .removed ∧
      ¬ (removePurge.exec watchedMachine (purging (afterChange 2))
        (.fresh sampleData sampleGiven true)).2.Final := by
  refine ⟨rfl, ?_⟩
  rintro ⟨a, d, ha, hd, heq⟩
  obtain rfl := Option.some.inj ha
  obtain rfl := Option.some.inj hd
  exact absurd heq (by decide)

/-- Without a change in between the final archive is final. -/
theorem finalArchive_unchanged :
    (removePurge.exec watchedMachine (purging fine) (.fresh sampleData sampleGiven true)).1 =
        some .removed ∧
      (removePurge.exec watchedMachine (purging fine) (.fresh sampleData sampleGiven true)).2.Final :=
  ⟨rfl, (finalArchive_iff sampleData sampleGiven true (purging fine) (by decide)).mpr rfl⟩

end Purge

end EzOpenPN.Backup
