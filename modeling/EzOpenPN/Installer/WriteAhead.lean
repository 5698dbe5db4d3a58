import EzOpenPN.Installer.UpgradeSteps

/-!
# The journal is written ahead

From the moment a transaction may touch the installation, `upgrade-transaction.json` has to say so:
a recovery takes back what the journal names, and a journal of phase `prepared` (or none) makes it
resume what is there, on the ground that *no persistent state has switched*.

The order of the commands is the right one. What breaks it is a status. `_upgrade_write_journal`
writes the journal and then the checkpoint, and what it returns is the status of the checkpoint;
when the journal could not be written, the transaction goes on. The other end has the same shape:
the journal is removed once the release was returned, and `_upgrade_restore_host_tools`, whose
writes nobody asks about, may not have returned the tools; and a transaction that succeeds removes
the journal before it reports.

`EzOpenPN.Upgrade.written_ahead` is the statement for the runs in which neither happens. It follows
the transaction and any number of recoveries, with any failures and interrupted anywhere. The host
at the time the stack was stopped is recorded beside the host.
-/

namespace EzOpenPN.Upgrade

open Script

/-! ### What was there when the stack was stopped -/

/-- The host, and what it was when the stack was stopped. -/
structure Recorded where
  host : Host
  stopped : Option Host

/-- The record after a command: the first stop of the stack, if it is being recorded. -/
def Recorded.stoppedAfter (recording : Bool) (c : Cmd) (after : Host) (s : Recorded) : Option Host :=
  match c, recording, s.stopped with
  | .service .stop, true, none => some after
  | _, _, stopped => stopped

/-- **What a transaction changes is what it was**: the directories of the releases, the link, the
configuration, the tools, the version and the schema of the database. -/
structure Unchanged (b h : Host) : Prop where
  releases : h.releases = b.releases
  current : h.current = b.current
  config : h.config = b.config
  tools : h.tools = b.tools
  version : h.version = b.version
  schema : h.database.schema = b.database.schema

/-- The variables of a transaction whose stack was stopped at `b`: the archive it takes is the next
one, and its stage the next one of the host it started from. -/
def runVars (mode : Mode) (latest : Version) (start b : Host) : UpgradeVars where
  currentVersion := b.version
  targetVersion := if mode = .reinstall then b.version else latest
  oldCurrent := b.version
  preimage := some b.archives.length
  stage := start.stageCount

/-- The journal is the one of a transaction, in a phase after `prepared`. -/
def Named (vars : UpgradeVars) (h : Host) : Prop :=
  ∃ phase, phase ≠ .prepared ∧ h.journal = some (vars.journal phase)

/-- **The journal is on disk**: `_upgrade_read_journal` accepts it, in a phase after `prepared`, and
reads from it the versions, the archive and the stage of the transaction. -/
def WrittenAhead (vars : UpgradeVars) (h : Host) : Prop :=
  ∃ phase, phase ≠ .prepared ∧ h.journal = some (vars.journal phase) ∧
    readJournal h (vars.journal phase) = some vars

/-- The commands that write the journal. -/
def Cmd.writesJournal : Cmd → Bool
  | .create .journal | .write .journal | .replace (.journal _) => true
  | _ => false

section Machine

variable (rel : Version → Release)

/-- The host with its record. -/
def recordedMachine (recording : Bool) : Machine Host Cmd Choice Recorded where
  obs s := s.host
  perform c x s :=
    (((hostMachine rel).perform c x s.host).1, ⟨((hostMachine rel).perform c x s.host).2,
      s.stoppedAfter recording c ((hostMachine rel).perform c x s.host).2⟩)

/-- **The condition.** Once the stack was stopped, a write of the journal does not fail before the
journal names the transaction, and the journal is removed only when everything is what it was. -/
def Orderly (vars : Host → UpgradeVars) (c : Cmd) (x : Choice) (s : Recorded) : Prop :=
  ∀ b, s.stopped = some b →
    (c.writesJournal = true → ¬Named (vars b) s.host → (c.effect rel x.outcome s.host).1 = true) ∧
      (c = .unlinkJournal → Unchanged b s.host)

/-- The host with its record, and with whether the condition was met so far. -/
def aheadMachine (vars : Host → UpgradeVars) (recording : Bool) :
    Machine Host Cmd Choice (Recorded × Prop) :=
  (recordedMachine rel recording).watch (Orderly rel vars)

end Machine

variable {rel : Version → Release} {recording : Bool} {vars : Host → UpgradeVars} {b h t : Host}
  {s : Recorded} {c : Cmd}

/-! ### The two states of a transaction -/

/-- Nothing was touched, and the journal is of this transaction. -/
structure Untouched (vars : Host → UpgradeVars) (b h : Host) : Prop where
  unchanged : Unchanged b h
  journal : ∀ j, h.journal = some j → j.phase = .prepared ∨ ∃ phase, j = (vars b).journal phase

/-- **The installation may be touched**: the journal names the transaction, and what it names is
there. -/
structure Ready (vars : Host → UpgradeVars) (b h : Host) : Prop where
  named : Named (vars b) h
  archive : h.hasArchive (vars b).preimage = true
  stage : (h.stages (vars b).stage).isSome = true

/-- One of the two, once the stack was stopped. -/
def Ahead (vars : Host → UpgradeVars) (s : Recorded) : Prop :=
  ∀ b, s.stopped = some b → Untouched vars b s.host ∨ Ready vars b s.host

/-- The first of the two. -/
def AllUntouched (vars : Host → UpgradeVars) (s : Recorded) : Prop :=
  ∀ b, s.stopped = some b → Untouched vars b s.host

/-- The second of the two. -/
def AllReady (vars : Host → UpgradeVars) (b : Host) (s : Recorded) : Prop :=
  s.stopped = some b ∧ Ready vars b s.host

theorem readJournal_of_ready (hr : Ready vars b h) (phase : Phase) :
    readJournal h ((vars b).journal phase) = some (vars b) := by
  have harchive : h.hasArchive ((vars b).journal phase).preimage = true := hr.archive
  have hstage : (h.stages ((vars b).journal phase).stage).isSome = true := hr.stage
  rw [readJournal, if_neg (by simp [harchive]), if_pos hstage]
  rfl

theorem Ready.writtenAhead (hr : Ready vars b h) : WrittenAhead (vars b) h := by
  obtain ⟨phase, hphase, hjournal⟩ := hr.named
  exact ⟨phase, hphase, hjournal, readJournal_of_ready hr phase⟩

theorem Unchanged.refl (h : Host) : Unchanged h h := ⟨rfl, rfl, rfl, rfl, rfl, rfl⟩

theorem schema_commit (h : Host) (changes : List Change) :
    (h.commit changes).database.schema = h.database.schema := by
  rw [Host.commit]
  split <;> rfl

theorem Unchanged.commit (hu : Unchanged b h) (changes : List Change) :
    Unchanged b (h.commit changes) where
  releases := (commit_same (p := .releases) nofun h changes).trans hu.releases
  current := (commit_same (p := .current) nofun h changes).trans hu.current
  config := (commit_same (p := .config) nofun h changes).trans hu.config
  tools := (commit_same (p := .tools) nofun h changes).trans hu.tools
  version := (commit_same (p := .version) nofun h changes).trans hu.version
  schema := (schema_commit h changes).trans hu.schema

theorem Unchanged.effect (hu : Unchanged b h)
    (hc : c.spares [.releases, .current, .config, .tools, .version, .database] = true)
    (o : Outcome) : Unchanged b (c.effect rel o h).2 := by
  have hspares : ∀ p ∈ [Part.releases, .current, .config, .tools, .version, .database],
      c.touches p = false := fun p hp => by simpa using List.all_eq_true.mp hc p hp
  exact
    { releases := (effect_same (p := .releases) (hspares _ (by decide)) o h).trans hu.releases
      current := (effect_same (p := .current) (hspares _ (by decide)) o h).trans hu.current
      config := (effect_same (p := .config) (hspares _ (by decide)) o h).trans hu.config
      tools := (effect_same (p := .tools) (hspares _ (by decide)) o h).trans hu.tools
      version := (effect_same (p := .version) (hspares _ (by decide)) o h).trans hu.version
      schema := (congrArg Database.schema
        (effect_same (p := .database) (hspares _ (by decide)) o h)).trans hu.schema }

/-- What a command does to the journal. -/
theorem journal_effect (c : Cmd) (o : Outcome) (h : Host) :
    (c.effect rel o h).2.journal = h.journal ∨
      (c = .unlinkJournal ∧ (c.effect rel o h).2.journal = none) ∨
        ∃ j, c = .replace (.journal j) ∧ (c.effect rel o h).2.journal = some j := by
  cases c with
  | unlinkJournal =>
    simp only [Cmd.effect, Outcome.apply]
    split
    · exact .inr (.inl ⟨trivial, rfl⟩)
    · exact .inl rfl
  | replace content =>
    cases content with
    | journal j =>
      simp only [Cmd.effect, Outcome.apply]
      split
      · split
        · exact .inr (.inr ⟨j, rfl, rfl⟩)
        · exact .inl rfl
      · exact .inl rfl
    | _ => exact .inl (effect_same (p := .journal) rfl o h)
  | service action => cases action <;> exact .inl (effect_same (p := .journal) rfl o h)
  | _ => exact .inl (effect_same (p := .journal) rfl o h)

/-- The commands that keep an installation untouched. -/
def Cmd.Calm (v : UpgradeVars) (c : Cmd) : Prop :=
  c.spares [.releases, .current, .config, .tools, .version, .database] = true ∧
    ∀ j, c = .replace (.journal j) → ∃ phase, j = v.journal phase

theorem Untouched.perform (hu : Untouched vars b h) (hc : c.Calm (vars b)) (x : Choice) :
    Untouched vars b ((hostMachine rel).perform c x h).2 := by
  refine ⟨(hu.unchanged.effect hc.1 x.outcome).commit x.panel, fun j hj => ?_⟩
  have hj : (c.effect rel x.outcome h).2.journal = some j :=
    (commit_same (p := .journal) nofun _ x.panel).symm.trans hj
  rcases @journal_effect rel c x.outcome h with hsame | ⟨-, hnone⟩ | ⟨j', hreplace, hj'⟩
  · exact hu.journal j (hsame.symm.trans hj)
  · rw [hnone] at hj
    cases hj
  · obtain ⟨phase, rfl⟩ := hc.2 j' hreplace
    exact .inr ⟨phase, Option.some.inj (hj.symm.trans hj')⟩

/-- The commands that keep the journal ready. -/
def Cmd.Steady (v : UpgradeVars) (c : Cmd) : Prop :=
  c.spares [.stages, .archives] = true ∧ c ≠ .unlinkJournal ∧
    ∀ j, c = .replace (.journal j) → ∃ phase, phase ≠ .prepared ∧ j = v.journal phase

theorem Ready.perform (hr : Ready vars b h) (hc : c.Steady (vars b)) (x : Choice) :
    Ready vars b ((hostMachine rel).perform c x h).2 := by
  have hsame : Host.Same [.stages, .archives] h ((hostMachine rel).perform c x h).2 :=
    Host.Same.perform hc.1 (by decide) x.outcome x.panel h
  have hstages := hsame .stages (by decide)
  have harchives := hsame .archives (by decide)
  refine ⟨?_, ?_, ?_⟩
  · have hcommit : ((hostMachine rel).perform c x h).2.journal =
        (c.effect rel x.outcome h).2.journal := commit_same (p := .journal) nofun _ x.panel
    rw [Named, hcommit]
    rcases @journal_effect rel c x.outcome h with hsame | ⟨hunlink, -⟩ | ⟨j, hreplace, hj⟩
    · rw [hsame]
      exact hr.named
    · exact absurd hunlink hc.2.1
    · obtain ⟨phase, hphase, rfl⟩ := hc.2.2 j hreplace
      exact ⟨phase, hphase, hj⟩
  · have harchive := hr.archive
    unfold Host.hasArchive at harchive ⊢
    rw [harchives]
    exact harchive
  · rw [hstages]
    exact hr.stage

/-! ### The record -/

theorem stoppedAfter_of_some (hs : s.stopped = some b) (after : Host) :
    s.stoppedAfter recording c after = some b := by
  unfold Recorded.stoppedAfter
  split
  · rename_i hnone
    rw [hs] at hnone
    cases hnone
  · exact hs

theorem stoppedAfter_of_ne (hc : c ≠ .service .stop) (after : Host) :
    s.stoppedAfter recording c after = s.stopped := by
  unfold Recorded.stoppedAfter
  split
  · exact absurd rfl hc
  · rfl

theorem stoppedAfter_false (after : Host) : s.stoppedAfter false c after = s.stopped := by
  unfold Recorded.stoppedAfter
  split
  · contradiction
  · rfl

theorem stopped_perform_of_ne (hc : c ≠ .service .stop) (x : Choice) (w : Recorded × Prop) :
    ((aheadMachine rel vars recording).perform c x w).2.1.stopped = w.1.stopped :=
  stoppedAfter_of_ne hc _

/-! ### Scripts -/

/-- Commands that keep an installation untouched, also before the stack was stopped. -/
theorem keeps_untouched {α : Type} {p : Shell α}
    (hp : p.Only fun c => (∀ v, c.Calm v) ∧ c ≠ .service .stop) :
    Keeps (aheadMachine rel vars recording) (Given (Ahead vars)) (Given (AllUntouched vars)) p := by
  have hkeeps : Keeps (aheadMachine rel vars recording) (Given (AllUntouched vars))
      (Given (AllUntouched vars)) p := by
    refine hp.keeps_watch fun c hc s x _ hs b hb => ?_
    have hb : s.stopped = some b := (stoppedAfter_of_ne hc.2 _).symm.trans hb
    exact (hs b hb).perform (hc.1 _) x
  exact fun w hw => wp_mono (hkeeps w hw) (fun _ ht hmet b hb => .inl (ht hmet b hb)) fun _ _ ht => ht

theorem AllReady.ahead (hs : AllReady vars b s) : Ahead vars s := by
  intro b' hb'
  obtain rfl : b = b' := Option.some.inj (hs.1.symm.trans hb')
  exact .inr hs.2

/-- Commands that keep the journal ready. -/
theorem keeps_ready {α : Type} {p : Shell α} (hp : p.Only (Cmd.Steady (vars b))) :
    Keeps (aheadMachine rel vars recording) (Given (Ahead vars)) (Given (AllReady vars b)) p := by
  have hkeeps : Keeps (aheadMachine rel vars recording) (Given (AllReady vars b))
      (Given (AllReady vars b)) p :=
    hp.keeps_watch fun c hc s x _ hs => ⟨stoppedAfter_of_some hs.1 _, hs.2.perform hc x⟩
  exact fun w hw => wp_mono (hkeeps w hw) (fun _ ht hmet => (ht hmet).ahead) fun _ _ ht => ht

theorem calm_of_spares (hc : c.spares [.releases, .current, .config, .tools, .version, .database,
    .journal] = true) (v : UpgradeVars) : c.Calm v := by
  rw [Cmd.spares, List.all_eq_true] at hc
  refine ⟨List.all_eq_true.mpr fun p hp => hc p (List.mem_append_left [Part.journal] hp), ?_⟩
  rintro j rfl
  have := hc .journal (by decide)
  cases this

/-- **The journal is removed only when everything is what it was.** -/
theorem wp_clearJournal {w : Recorded × Prop} (hw : Given (Ahead vars) w) :
    wp (aheadMachine rel vars recording) (Given (Ahead vars)) clearJournal
      (fun _ => Given (AllUntouched vars)) w := by
  have hcheckpoint : (clearOperationCheckpoint).Only
      fun c => (∀ v, c.Calm v) ∧ c ≠ .service .stop :=
    fun _ => .ite (.bind (.run ⟨calm_of_spares rfl, nofun⟩) fun _ => trivial) trivial
  rw [clearJournal, wp_look, wp_bind]
  split
  · intro x
    have hafter : Given (AllUntouched vars)
        ((aheadMachine rel vars recording).perform .unlinkJournal x w).2 := by
      intro hmet b hb
      rw [stopped_perform_of_ne (c := .unlinkJournal) nofun] at hb
      have hunchanged : Unchanged b w.1.host := (hmet.2 b hb).2 rfl
      have hjournal : ∀ j, w.1.host.journal = some j →
          j.phase = .prepared ∨ ∃ phase, j = (vars b).journal phase := by
        intro j hj
        rcases hw hmet.1 b hb with huntouched | hready
        · exact huntouched.journal j hj
        · obtain ⟨phase, -, hphase⟩ := hready.named
          exact .inr ⟨phase, Option.some.inj (hj.symm.trans hphase)⟩
      have hcalm : Cmd.unlinkJournal.Calm (vars b) := ⟨rfl, nofun⟩
      exact Untouched.perform ⟨hunchanged, hjournal⟩ hcalm x
    exact ⟨fun hmet b hb => .inl (hafter hmet b hb), keeps_untouched hcheckpoint _ hafter⟩
  · rename_i hnone
    refine keeps_untouched hcheckpoint w fun hmet b hb => ?_
    rcases hw hmet b hb with huntouched | hready
    · exact huntouched
    · -- a journal that names the transaction is there
      obtain ⟨phase, -, hphase⟩ := hready.named
      refine absurd ?_ hnone
      change w.1.host.journal.isSome = true
      rw [hphase]
      rfl

theorem keeps_cleanupStage_ahead (stage : ℕ) :
    Keeps (aheadMachine rel vars recording) (Given (Ahead vars)) (Given (AllUntouched vars))
      (cleanupStage stage) :=
  keeps_untouched (only_cleanupStage ⟨calm_of_spares rfl, nofun⟩)

theorem keeps_resumeStack_ahead :
    Keeps (aheadMachine rel vars recording) (Given (Ahead vars)) (Given (AllUntouched vars))
      resumeStack :=
  keeps_untouched (.all (by
    simpa using ⟨.run ⟨calm_of_spares rfl, nofun⟩, .run ⟨calm_of_spares rfl, nofun⟩⟩))

/-- The journal and the stage are cleared. -/
theorem wp_clear {α : Type} {w : Recorded × Prop} (hw : Given (Ahead vars) w) (stage : ℕ) (a : α) :
    wp (aheadMachine rel vars recording) (Given (Ahead vars))
      (clearJournal.bind fun _ => (cleanupStage stage).bind fun _ => done a)
      (fun _ => Given (AllUntouched vars)) w := by
  rw [wp_bind]
  refine wp_mono (wp_clearJournal hw) (fun _ h => h) fun _ t ht => ?_
  exact Keeps.bind (keeps_cleanupStage_ahead stage) (fun _ => .done a) t ht

theorem AllUntouched.ahead (hs : AllUntouched vars s) : Ahead vars s := fun b hb => .inl (hs b hb)

/-! ### Going back -/

theorem steady_of_spares (v : UpgradeVars) (hc : c.spares [.stages, .archives, .journal] = true) :
    c.Steady v := by
  rw [Cmd.spares, List.all_eq_true] at hc
  refine ⟨List.all_eq_true.mpr fun p hp => hc p (List.mem_append_left [Part.journal] hp), ?_, ?_⟩
  · rintro rfl
    have := hc .journal (by decide)
    cases this
  · rintro j rfl
    have := hc .journal (by decide)
    cases this

theorem only_rollbackSteps_steady (v v' : UpgradeVars) :
    (rollbackSteps v').Only (Cmd.Steady v) :=
  only_rollbackSteps_of fun hc => steady_of_spares v (spares_mono hc (by decide))

/-- **A rollback keeps the journal** until it removes it. -/
theorem wp_rollback_ahead {v : UpgradeVars} {w : Recorded × Prop} (hw : Given (AllReady vars b) w) :
    wp (aheadMachine rel vars recording) (Given (Ahead vars)) (rollback v)
      (fun ok t => (ok = true → Given (AllUntouched vars) t) ∧ Given (Ahead vars) t) w := by
  rw [rollback, wp_bind]
  refine wp_mono (keeps_ready (only_rollbackSteps_steady _ v) w hw) (fun _ h => h) fun ok t ht => ?_
  refine wp_ite.mpr ⟨fun _ => ?_, fun _ => ⟨nofun, fun hmet => (ht hmet).ahead⟩⟩
  have hrecord : (run .recordFailure : Shell Bool).Only (Cmd.Steady (vars b)) :=
    .run (steady_of_spares _ rfl)
  rw [wp_bind]
  refine wp_mono (keeps_ready hrecord t ht) (fun _ h => h) fun _ u hu => ?_
  rw [wp_bind]
  refine wp_mono (wp_clearJournal fun hmet => (hu hmet).ahead) (fun _ h => h) ?_
  exact fun _ v hv => ⟨fun _ => hv, fun hmet => (hv hmet).ahead⟩

/-- A transaction whose stack was never stopped has nothing to write ahead. -/
theorem wp_of_not_stopped {α : Type} {p : Shell α} {w : Recorded × Prop}
    (hw : w.1.stopped = none) :
    wp (aheadMachine rel vars false) (Given (Ahead vars)) p (fun _ => Given (Ahead vars)) w := by
  have hahead : ∀ {t : Recorded × Prop}, t.1.stopped = none → Given (Ahead vars) t := by
    intro t ht _ b hb
    rw [ht] at hb
    cases hb
  induction p generalizing w with
  | done a => exact hahead hw
  | look k ih => exact ih _ hw
  | call c k ih =>
    have hnone : ∀ x, ((aheadMachine rel vars false).perform c x w).2.1.stopped = none :=
      fun x => (stoppedAfter_false _).trans hw
    exact fun x => ⟨hahead (hnone x), ih _ (hnone x)⟩

/-- **A recovery keeps the journal** until everything is what it was. -/
theorem keeps_recoverInterrupted_ahead :
    Keeps (aheadMachine rel vars false) (Given (Ahead vars)) (Given (Ahead vars))
      recoverInterrupted := by
  intro w hw
  have hobs : (aheadMachine rel vars false).obs w = w.1.host := rfl
  rw [recoverInterrupted, wp_look, hobs]
  cases hjournal : w.1.host.journal with
  | none => exact hw
  | some j =>
    dsimp only
    cases hread : readJournal w.1.host j with
    | none => exact hw
    | some v =>
      obtain ⟨hv, harchive, hstage⟩ := eq_of_readJournal hread
      change wp _ _ (recoverFrom v j.phase) _ _
      rw [recoverFrom]
      split
      · rename_i hprepared
        -- a journal of phase `prepared`: nothing was touched
        have huntouched : Given (AllUntouched vars) w := by
          intro hmet b hb
          rcases hw hmet b hb with huntouched | hready
          · exact huntouched
          · obtain ⟨phase, hphase, hj⟩ := hready.named
            obtain rfl := Option.some.inj (hjournal.symm.trans hj)
            exact absurd hprepared hphase
        rw [wp_bind]
        refine wp_mono (keeps_resumeStack_ahead w huntouched) (fun _ h => h) fun ok t ht => ?_
        refine wp_ite.mpr ⟨fun _ => ?_, fun _ hmet => (ht hmet).ahead⟩
        exact wp_mono (wp_clear (fun hmet => (ht hmet).ahead) v.stage none) (fun _ h => h)
          fun _ u hu hmet => (hu hmet).ahead
      · rename_i hphase
        rcases hb : w.1.stopped with _ | b
        · exact wp_of_not_stopped hb
        · have hready : Given (AllReady vars b) w := by
            intro hmet
            refine ⟨hb, ?_⟩
            rcases hw hmet b hb with huntouched | hready
            · rcases huntouched.journal j hjournal with hprepared | ⟨phase, rfl⟩
              · exact absurd hprepared hphase
              · exact ⟨⟨phase, hphase, hjournal⟩, harchive hphase, hstage⟩
            · exact hready
          rw [wp_bind]
          refine wp_mono (wp_rollback_ahead hready) (fun _ h => h) fun ok t ht => ?_
          refine wp_ite.mpr ⟨fun hok => ?_, fun _ => ht.2⟩
          exact wp_mono (Keeps.bind (keeps_cleanupStage_ahead v.stage) (fun _ => .done none) t
            (ht.1 hok)) (fun _ h => h) fun _ u hu hmet => (hu hmet).ahead

/-! ### The transaction -/

/-- **Before the stack is stopped**, with the variables of the transaction. -/
structure Before (v : UpgradeVars) (s : Recorded) : Prop where
  stopped : s.stopped = none
  version : s.host.version = v.currentVersion
  stage : (s.host.stages v.stage).isSome = true
  journal : ∀ j, s.host.journal = some j → j.phase = .prepared

theorem Before.ahead {v : UpgradeVars} (hs : Before v s) : Ahead vars s := by
  intro b hb
  rw [hs.stopped] at hb
  cases hb

theorem isSome_commit (s : ℕ) (h : Host) (changes : List Change) :
    ((h.commit changes).stages s).isSome = (h.stages s).isSome := by
  rw [commit_same (p := .stages) nofun h changes]

/-- The commands that prepare a release: those that write into a stage keep it. -/
def Cmd.prepares : Cmd → Bool
  | .service .stop | .removeStage _ | .makeStage _ | .unlinkJournal => false
  | .replace (.journal j) => j.phase = .prepared
  | c => c.spares [.version]

theorem isSome_effect {n : ℕ} (hc : c.prepares = true) (hn : (h.stages n).isSome = true)
    (o : Outcome) : ((c.effect rel o h).2.stages n).isSome = true := by
  have hset : ∀ (s : ℕ) (stage : Stage), ((h.setStage s (some stage)).stages n).isSome = true := by
    intro s stage
    by_cases hns : n = s
    · subst hns
      simp [Host.setStage]
    · simpa [Host.setStage, Function.update_of_ne hns] using hn
  have happly : ∀ h' : Host, (h'.stages n).isSome = true →
      ((o.apply h' h).2.stages n).isSome = true := by
    intro h' hh'
    rw [Outcome.apply]
    split
    · exact hh'
    · exact hn
  cases c with
  | removeStage | makeStage => cases hc
  | prepare | makeToolDirectory | copyTool | markTool | saveRelease =>
    simp only [Cmd.effect]
    repeat' split
    all_goals first
      | exact hn
      | exact hset _ _
      | exact happly _ (hset _ _)
  | service action =>
    cases action <;> exact (congrArg Option.isSome
      (congrFun (effect_same (p := .stages) rfl o h) n)).trans hn
  | replace content =>
    cases content <;> exact (congrArg Option.isSome
      (congrFun (effect_same (p := .stages) rfl o h) n)).trans hn
  | _ =>
    exact (congrArg Option.isSome (congrFun (effect_same (p := .stages) rfl o h) n)).trans hn

theorem version_effect (hc : c.prepares = true) (o : Outcome) :
    (c.effect rel o h).2.version = h.version := by
  refine effect_same (p := .version) ?_ o h
  cases c with
  | service action => cases action <;> rfl
  | replace content =>
    cases content with
    | state => cases hc
    | _ => rfl
  | _ => rfl

theorem Before.perform {v : UpgradeVars} (hs : Before v s) (hc : c.prepares = true) (x : Choice) :
    Before v ((recordedMachine rel recording).perform c x s).2 := by
  have hstop : c ≠ .service .stop := by
    rintro rfl
    cases hc
  refine ⟨(stoppedAfter_of_ne hstop _).trans hs.stopped, ?_, ?_, fun j hj => ?_⟩
  · exact (commit_same (p := .version) nofun _ x.panel).trans
      ((version_effect hc x.outcome).trans hs.version)
  · exact (isSome_commit _ _ x.panel).trans (isSome_effect hc hs.stage x.outcome)
  · have hj : (c.effect rel x.outcome s.host).2.journal = some j :=
      (commit_same (p := .journal) nofun _ x.panel).symm.trans hj
    rcases @journal_effect rel c x.outcome s.host with hsame | ⟨rfl, -⟩ | ⟨j', rfl, hj'⟩
    · exact hs.journal j (hsame.symm.trans hj)
    · cases hc
    · obtain rfl := Option.some.inj (hj.symm.trans hj')
      simpa [Cmd.prepares] using hc

theorem keeps_before {α : Type} {p : Shell α} {v : UpgradeVars}
    (hp : p.Only fun c => c.prepares = true) :
    Keeps (aheadMachine rel vars recording) (Given (Ahead vars)) (Given (Before v)) p := by
  have hkeeps : Keeps (aheadMachine rel vars recording) (Given (Before v)) (Given (Before v)) p :=
    hp.keeps_watch fun c hc s x _ hs => hs.perform hc x
  exact fun w hw => wp_mono (hkeeps w hw) (fun _ ht hmet => (ht hmet).ahead) fun _ _ ht => ht

/-- **The archive is taken** and nothing was touched yet: what is missing is the journal. -/
structure Armed (vars : Host → UpgradeVars) (b : Host) (s : Recorded) : Prop where
  stopped : s.stopped = some b
  untouched : Untouched vars b s.host
  archive : s.host.hasArchive (vars b).preimage = true
  stage : (s.host.stages (vars b).stage).isSome = true

theorem Armed.ahead (hs : Armed vars b s) : Ahead vars s := by
  intro b' hb'
  obtain rfl : b = b' := Option.some.inj (hs.stopped.symm.trans hb')
  exact .inl hs.untouched

theorem Armed.perform (hs : Armed vars b s) (hc : c.Calm (vars b))
    (hspares : c.spares [.stages, .archives] = true) (x : Choice) :
    Armed vars b ((recordedMachine rel recording).perform c x s).2 := by
  have hsame : Host.Same [.stages, .archives] s.host ((hostMachine rel).perform c x s.host).2 :=
    Host.Same.perform hspares (by decide) x.outcome x.panel s.host
  have hstages := hsame .stages (by decide)
  have harchives := hsame .archives (by decide)
  refine ⟨stoppedAfter_of_some hs.stopped _, hs.untouched.perform hc x, ?_, ?_⟩
  · have harchive := hs.archive
    have hkept : ((recordedMachine rel recording).perform c x s).2.host.archives =
        s.host.archives := harchives
    unfold Host.hasArchive at harchive ⊢
    rw [hkept]
    exact harchive
  · change (((hostMachine rel).perform c x s.host).2.stages (vars b).stage).isSome = true
    rw [hstages]
    exact hs.stage

/-- A journal that names the transaction makes it ready. -/
theorem Armed.ready (hs : Armed vars b s) (hn : Named (vars b) s.host) : AllReady vars b s :=
  ⟨hs.stopped, hn, hs.archive, hs.stage⟩

theorem only_atomicWrite_journal (v : UpgradeVars) {phase : Phase} (hphase : phase ≠ .prepared) :
    (atomicWrite (.journal (v.journal phase))).Only
      fun c => (c.Calm v ∧ c.Steady v) := by
  refine only_atomicWrite ?_ ?_ ?_ ?_
  · exact ⟨calm_of_spares rfl v, steady_of_spares v rfl⟩
  · exact ⟨calm_of_spares rfl v, steady_of_spares v rfl⟩
  · refine ⟨⟨rfl, ?_⟩, rfl, nofun, ?_⟩
    · rintro _ ⟨rfl⟩
      exact ⟨phase, rfl⟩
    · rintro _ ⟨rfl⟩
      exact ⟨phase, hphase, rfl⟩
  · exact ⟨calm_of_spares rfl v, steady_of_spares v rfl⟩

theorem keeps_armed_ready {α : Type} {p : Shell α}
    (hp : p.Only fun c => c.Calm (vars b) ∧ c.Steady (vars b)) :
    Keeps (aheadMachine rel vars recording) (Given (Ahead vars))
      (Given fun s => Armed vars b s ∧ Named (vars b) s.host) p := by
  have hkeeps : Keeps (aheadMachine rel vars recording)
      (Given fun s => Armed vars b s ∧ Named (vars b) s.host)
      (Given fun s => Armed vars b s ∧ Named (vars b) s.host) p := by
    refine hp.keeps_watch fun c hc s x _ hs => ⟨hs.1.perform hc.1 hc.2.1 x, ?_⟩
    exact ((hs.1.ready hs.2).2.perform hc.2 x).named
  exact fun w hw => wp_mono (hkeeps w hw) (fun _ ht hmet => (ht hmet).1.ahead) fun _ _ ht => ht

theorem not_named_of_same (hn : ¬Named (vars b) h) (hsame : t.journal = h.journal) :
    ¬Named (vars b) t := by
  rw [Named, hsame]
  exact hn

/-- Under the condition a write of the journal succeeds. -/
theorem status_of_met {x : Choice} {w : Recorded × Prop} (hw : Given (Armed vars b) w)
    (hc : c.writesJournal = true) (hn : ¬Named (vars b) w.1.host)
    (hmet : ((aheadMachine rel vars recording).perform c x w).2.2) :
    ((aheadMachine rel vars recording).perform c x w).1 = true :=
  (hmet.2 b (hw hmet.1).stopped).1 hc hn

/-- **Under the condition the journal is on disk** when its write is over. -/
theorem wp_atomicWrite_journal {phase : Phase} (hphase : phase ≠ .prepared) {w : Recorded × Prop}
    (hw : Given (Armed vars b) w) :
    wp (aheadMachine rel vars recording) (Given (Ahead vars))
      (atomicWrite (.journal ((vars b).journal phase)))
      (fun _ => Given fun s => Armed vars b s ∧ Named (vars b) s.host) w := by
  have honly := only_atomicWrite_journal (vars b) hphase
  by_cases hnamed : Named (vars b) w.1.host
  · exact keeps_armed_ready honly w fun hmet => ⟨hw hmet, hnamed⟩
  · -- each of the three commands succeeds, and the last one puts the journal in place
    have hcalm : ∀ {c : Cmd} {t : Recorded × Prop} (x : Choice), Given (Armed vars b) t →
        c.spares [.releases, .current, .config, .tools, .version, .database, .journal] = true →
        c.spares [.stages, .archives] = true →
        Given (Armed vars b) ((aheadMachine rel vars recording).perform c x t).2 :=
      fun x ht hc hspares hmet => (ht hmet.1).perform (calm_of_spares hc _) hspares x
    have hjournal : ∀ {c : Cmd} {t : Recorded × Prop} (x : Choice), c.spares [.journal] = true →
        ((aheadMachine rel vars recording).perform c x t).2.1.host.journal = t.1.host.journal :=
      fun x hc => Host.Same.perform hc (by decide) x.outcome x.panel _ .journal (by decide)
    rw [atomicWrite, wp_bind]
    intro x
    have hcreated := hcalm (c := .create .journal) x hw rfl rfl
    refine ⟨fun hmet => (hcreated hmet).ahead, wp_ite.mpr ⟨fun _ => ?_, fun hno hmet => ?_⟩⟩
    swap
    · exact absurd (status_of_met (c := .create .journal) hw rfl hnamed hmet) hno
    have hnamed₁ := not_named_of_same hnamed (hjournal (c := .create .journal) (t := w) x rfl)
    rw [wp_bind, wp_all_cons]
    intro y
    have hwritten := hcalm (c := .write .journal) y hcreated rfl rfl
    refine ⟨fun hmet => (hwritten hmet).ahead, fun _ => ?_, fun hno z => ?_⟩
    swap
    · have hdiscarded := hcalm (c := .discard .journal) z hwritten rfl rfl
      refine ⟨fun hmet => (hdiscarded hmet).ahead, fun hmet => ?_⟩
      have hok := status_of_met (c := .write .journal) hcreated rfl hnamed₁ hmet.1
      exact absurd (hok.symm.trans hno) (by simp)
    have hnamed₂ := not_named_of_same hnamed₁ (hjournal (c := .write .journal) y rfl)
    rw [wp_all_cons]
    intro z
    have hreplaced : Given (Armed vars b) ((aheadMachine rel vars recording).perform
        (.replace (.journal ((vars b).journal phase))) z
        ((aheadMachine rel vars recording).perform (.write .journal) y
          ((aheadMachine rel vars recording).perform (.create .journal) x w).2).2).2 := by
      refine fun hmet => (hwritten hmet.1).perform ⟨rfl, ?_⟩ rfl z
      rintro _ ⟨rfl⟩
      exact ⟨phase, rfl⟩
    refine ⟨fun hmet => (hreplaced hmet).ahead, fun hok u => ?_, fun hno u => ?_⟩
    · have hdiscarded := hcalm (c := .discard .journal) u hreplaced rfl rfl
      refine ⟨fun hmet => (hdiscarded hmet).ahead, fun hmet => ⟨hdiscarded hmet, phase, hphase, ?_⟩⟩
      refine (hjournal (c := .discard .journal) u rfl).trans ?_
      exact Host.Holds.commit (holds_of_replace hok) z.panel
    · have hdiscarded := hcalm (c := .discard .journal) u hreplaced rfl rfl
      refine ⟨fun hmet => (hdiscarded hmet).ahead, fun hmet => ?_⟩
      have hok := status_of_met (c := .replace (.journal ((vars b).journal phase))) hwritten rfl
        hnamed₂ hmet.1
      exact absurd (hok.symm.trans hno) (by simp)

/-- What is known of a transaction whose stack was stopped at `b`. -/
theorem AllUntouched.of_stopped (hb : s.stopped = some b) (hu : Untouched vars b s.host) :
    AllUntouched vars s := by
  intro b' hb'
  obtain rfl : b = b' := Option.some.inj (hb.symm.trans hb')
  exact hu

theorem only_writeCheckpoint (v : UpgradeVars) (phase : Phase) :
    (writeOperationCheckpoint phase).Only fun c => c.Calm v ∧ c.Steady v := by
  have h : ∀ {c : Cmd}, c.spares [.releases, .current, .config, .tools, .version, .database,
      .journal] = true → c.spares [.stages, .archives, .journal] = true → c.Calm v ∧ c.Steady v :=
    fun hcalm hsteady => ⟨calm_of_spares hcalm v, steady_of_spares v hsteady⟩
  exact only_atomicWrite (h rfl rfl) (h rfl rfl) (h rfl rfl) (h rfl rfl)

/-- The journal of phase `switching`, and the checkpoint after it. -/
theorem wp_writeJournal_ahead {w : Recorded × Prop} (hw : Given (Armed vars b) w) :
    wp (aheadMachine rel vars recording) (Given (Ahead vars)) (writeJournal (vars b) .switching)
      (fun _ => Given fun s => Armed vars b s ∧ Named (vars b) s.host) w := by
  rw [writeJournal, wp_bind]
  have hphase : Phase.switching ≠ .prepared := nofun
  refine wp_mono (wp_atomicWrite_journal hphase hw) (fun _ h => h) fun _ t ht => ?_
  exact keeps_armed_ready (only_writeCheckpoint _ _) t ht

/-- **When the archive is taken the journal is on disk**, and until then nothing is touched. -/
theorem wp_takePreimage_ahead {v : UpgradeVars} {w : Recorded × Prop}
    (hvars : ∀ b, b.version = v.currentVersion → vars b = { v with preimage := some b.archives.length })
    (hw : Given (Before v) w) :
    wp (aheadMachine rel vars true) (Given (Ahead vars)) (takePreimage v)
      (fun result t => Given (AllUntouched vars) t ∧
        (result.1 = none → t.2 → ∃ b, vars b = result.2 ∧ AllReady vars b t.1)) w := by
  by_cases hmet₀ : w.2
  swap
  · exact wp_watch_unmet hmet₀ (fun _ h hm => (h hm).elim)
      fun _ _ h => ⟨fun hm => (h hm).elim, fun _ hm => (h hm).elim⟩
  have hbefore := hw hmet₀
  rw [takePreimage, wp_bind]
  intro x
  -- the host is recorded as the stop leaves it
  generalize ht : ((aheadMachine rel vars true).perform (.service .stop) x w).2 = t
  have hsame : Host.Same [.version, .stages, .journal] w.1.host t.1.host := by
    rw [← ht]
    exact Host.Same.perform rfl (by decide) x.outcome x.panel w.1.host
  have hstopped : t.1.stopped = some t.1.host := by
    rw [← ht]
    change Recorded.stoppedAfter true _ _ w.1 = _
    unfold Recorded.stoppedAfter
    rw [hbefore.stopped]
    rfl
  obtain ⟨b, hb⟩ : ∃ b, b = t.1.host := ⟨_, rfl⟩
  rw [← hb] at hstopped
  have huntouched : Untouched vars b t.1.host := by
    refine ⟨hb ▸ Unchanged.refl _, fun j hj => .inl (hbefore.journal j ?_)⟩
    exact (hsame .journal (by decide)).symm.trans hj
  have hall : Given (AllUntouched vars) t := fun _ => .of_stopped hstopped huntouched
  refine ⟨fun hmet => (hall hmet).ahead, wp_ite.mpr ⟨fun _ => ?_, fun _ => ⟨hall, nofun⟩⟩⟩
  rw [wp_bind]
  intro y
  have hcalm : Cmd.createPreimage.Calm (vars b) := calm_of_spares rfl _
  generalize hu : ((aheadMachine rel vars true).perform .createPreimage y t).2 = u
  have hstopped' : u.1.stopped = some b := by
    rw [← hu, stopped_perform_of_ne (c := .createPreimage) nofun]
    exact hstopped
  have huntouched' : Untouched vars b u.1.host := by
    rw [← hu]
    exact huntouched.perform hcalm y
  have hall' : Given (AllUntouched vars) u := fun _ => .of_stopped hstopped' huntouched'
  refine ⟨fun hmet => (hall' hmet).ahead, wp_ite.mpr ⟨fun hok => ?_, fun _ => ⟨hall', nofun⟩⟩⟩
  have harchives : u.1.host.archives = b.archives ++ [b.archive] := by
    rw [← hu, hb]
    refine (commit_same (p := .archives) nofun _ y.panel).trans ?_
    exact congrArg Host.archives (Outcome.apply_of_status hok)
  have hlength : u.1.host.archives.length - 1 = b.archives.length := by simp [harchives]
  have hversion : b.version = v.currentVersion := by
    rw [hb, hsame .version (by decide)]
    exact hbefore.version
  have hv := hvars b hversion
  have harmed : Armed vars b u.1 := by
    refine ⟨hstopped', huntouched', ?_, ?_⟩
    · rw [hv, Host.hasArchive, harchives]
      simp
    · have hstages : u.1.host.stages = w.1.host.stages := by
        refine Eq.trans ?_ (hsame .stages (by decide))
        have hspared : Host.Same [.stages] t.1.host
            ((hostMachine rel).perform .createPreimage y t.1.host).2 :=
          Host.Same.perform rfl (by decide) y.outcome y.panel t.1.host
        rw [← hu]
        exact hspared .stages (by decide)
      rw [hv, hstages]
      exact hbefore.stage
  rw [wp_look]
  change wp _ _ (Script.bind (writeJournal { v with
    preimage := some (u.1.host.archives.length - 1) } .switching) _) _ _
  rw [hlength, ← hv, wp_bind]
  refine wp_mono (wp_writeJournal_ahead fun _ => harmed) (fun _ h => h) fun ok z hz => ?_
  refine ⟨fun hmet => .of_stopped (hz hmet).1.stopped (hz hmet).1.untouched, fun _ hmet => ?_⟩
  refine ⟨b, ?_, (hz hmet).1.ready (hz hmet).2⟩
  rw [hv, ← hlength]
  rfl

theorem only_switchRelease_steady (v : UpgradeVars) : (switchRelease v).Only (Cmd.Steady v) := by
  have h : ∀ {c : Cmd}, c.spares [.stages, .archives, .journal] = true → c.Steady v :=
    steady_of_spares v
  refine only_switchRelease_of (fun hc => h (spares_mono hc (by decide))) ?_ fun _ => h rfl
  intro phase hphase
  refine ⟨rfl, nofun, ?_⟩
  rintro _ ⟨rfl⟩
  exact ⟨phase, hphase, rfl⟩

theorem keeps_recordFailure_ahead :
    Keeps (aheadMachine rel vars recording) (Given (Ahead vars)) (Given (AllUntouched vars))
      (run .recordFailure) :=
  keeps_untouched (.run ⟨calm_of_spares rfl, nofun⟩)

theorem wp_stoppedTransaction_ahead {v : UpgradeVars} {w : Recorded × Prop}
    (hvars : ∀ b, b.version = v.currentVersion → vars b = { v with preimage := some b.archives.length })
    (hw : Given (Before v) w) :
    wp (aheadMachine rel vars true) (Given (Ahead vars)) (stoppedTransaction v)
      (fun _ => Given (Ahead vars)) w := by
  rw [stoppedTransaction, wp_bind]
  refine wp_mono (wp_takePreimage_ahead hvars hw) (fun _ h => h) ?_
  rintro ⟨failure, v'⟩ t ⟨huntouched, hready⟩
  cases failure with
  | some _ =>
    change wp _ _ (resumeOld v') _ _
    rw [resumeOld, wp_bind]
    refine wp_mono (keeps_resumeStack_ahead t huntouched) (fun _ h => h) fun ok u hu => ?_
    refine wp_ite.mpr ⟨fun _ => ?_, fun _ hmet => (hu hmet).ahead⟩
    rw [wp_bind]
    refine wp_mono (keeps_recordFailure_ahead u hu) (fun _ h => h) fun _ z hz => ?_
    exact wp_mono (wp_clear (fun hmet => (hz hmet).ahead) _ _) (fun _ h => h)
      fun _ _ hu hmet => (hu hmet).ahead
  | none =>
    by_cases hmet : t.2
    swap
    · exact wp_watch_unmet hmet (fun _ h hm => (h hm).elim) fun _ _ h hm => (h hm).elim
    obtain ⟨b, rfl, ht⟩ := hready rfl hmet
    change wp _ _ (Script.bind (switchRelease (vars b)) _) _ _
    rw [wp_bind]
    refine wp_mono (keeps_ready (only_switchRelease_steady (vars b)) t fun _ => ht) (fun _ h => h) ?_
    intro failure u hu
    cases failure with
    | some _ =>
      change wp _ _ (returnOld (vars b)) _ _
      rw [returnOld, wp_bind]
      refine wp_mono (wp_rollback_ahead hu) (fun _ h => h) fun ok z hz => ?_
      refine wp_ite.mpr ⟨fun hok => ?_, fun _ => hz.2⟩
      exact wp_mono (Keeps.bind (keeps_cleanupStage_ahead _) (fun _ => .done _) z (hz.1 hok))
        (fun _ h => h) fun _ _ hu hmet => (hu hmet).ahead
    | none =>
      exact wp_mono (wp_clear (fun hmet => (hu hmet).ahead) _ _) (fun _ h => h)
        fun _ _ hu hmet => (hu hmet).ahead

theorem wp_stagedTransaction_ahead {v : UpgradeVars} {w : Recorded × Prop}
    (hvars : ∀ b, b.version = v.currentVersion → vars b = { v with preimage := some b.archives.length })
    (hw : Given (Before v) w) :
    wp (aheadMachine rel vars true) (Given (Ahead vars)) (stagedTransaction v)
      (fun _ => Given (Ahead vars)) w := by
  have hprepare : (prepareRelease v).Only fun c => c.prepares = true := by
    refine .firstFailure ?_
    simp only [List.forall_mem_cons, List.not_mem_nil, false_implies, implies_true, and_true]
    exact ⟨.run rfl, .run rfl, only_saveHostTools rfl (fun _ => rfl) fun _ => rfl, .run rfl,
      only_writeJournal (fun _ => rfl) (fun _ => rfl) (fun _ => rfl) rfl rfl⟩
  rw [stagedTransaction, wp_bind]
  refine wp_mono (keeps_before hprepare w hw) (fun _ h => h) fun failure t ht => ?_
  cases failure with
  | some _ =>
    have hnone : Given (AllUntouched vars) t := by
      intro hmet b hb
      rw [(ht hmet).stopped] at hb
      cases hb
    change wp _ _ (Script.bind _ _) _ _
    rw [wp_bind]
    refine wp_mono (keeps_recordFailure_ahead t hnone) (fun _ h => h) fun _ z hz => ?_
    exact wp_mono (wp_clear (fun hmet => (hz hmet).ahead) _ _) (fun _ h => h)
      fun _ _ hu hmet => (hu hmet).ahead
  | none => exact wp_stoppedTransaction_ahead hvars ht

/-- A transaction that has looked at the host only. -/
structure Started (start : Host) (s : Recorded) : Prop where
  stopped : s.stopped = none
  version : s.host.version = start.version
  count : s.host.stageCount = start.stageCount
  journal : s.host.journal = none

theorem Started.ahead {start : Host} (hs : Started start s) : Ahead vars s := by
  intro b hb
  rw [hs.stopped] at hb
  cases hb

theorem Started.commit {start : Host} (hs : Started start s) (changes : List Change) :
    Started start ⟨s.host.commit changes, s.stopped⟩ := by
  refine ⟨hs.stopped, ?_, ?_, ?_⟩
  · exact (commit_same (p := .version) (by simp) _ changes).trans hs.version
  · refine Eq.trans ?_ hs.count
    simp only [Host.commit]
    split <;> rfl
  · exact (commit_same (p := .journal) (by simp) _ changes).trans hs.journal

/-- The stage of a transaction is there. -/
theorem Started.before {start : Host} {v : UpgradeVars} (hs : Started start s)
    (hversion : v.currentVersion = start.version) (changes : List Change) :
    Before v ⟨Host.commit { s.host.setStage v.stage (some .empty) with
      stageCount := v.stage + 1 } changes, s.stopped⟩ := by
  refine ⟨hs.stopped, ?_, ?_, fun j hj => ?_⟩
  · rw [hversion]
    exact (commit_same (p := .version) nofun _ changes).trans hs.version
  · refine (isSome_commit _ _ changes).trans ?_
    simp [Host.setStage]
  · have hnone : (Host.commit { s.host.setStage v.stage (some .empty) with
        stageCount := v.stage + 1 } changes).journal = none :=
      (commit_same (p := .journal) nofun _ changes).trans hs.journal
    exact absurd (hnone.symm.trans hj) nofun

theorem wp_transactionTo_ahead (mode : Mode) (latest : Version) {start : Host} {w : Recorded × Prop}
    (hw : Started start w.1) :
    wp (aheadMachine rel (runVars mode latest start) true) (Given (Ahead (runVars mode latest start)))
      (transactionTo mode start.version (if mode = .reinstall then start.version else latest))
      (fun _ => Given (Ahead (runVars mode latest start))) w := by
  rw [transactionTo]
  refine wp_ite.mpr ⟨fun _ _ => hw.ahead, fun _ => wp_ite.mpr ⟨fun _ _ => hw.ahead, fun _ => ?_⟩⟩
  refine wp_ite.mpr ⟨fun _ _ => hw.ahead, fun _ => ?_⟩
  rw [wp_look, wp_bind]
  intro x
  let v : UpgradeVars := ⟨start.version, if mode = .reinstall then start.version else latest,
    start.version, none, w.1.host.stageCount⟩
  have hnone : ((aheadMachine rel (runVars mode latest start) true).perform
      (.makeStage v.stage) x w).2.1.stopped = none :=
    (stopped_perform_of_ne (c := .makeStage _) nofun x w).trans hw.stopped
  have hahead : Given (Ahead (runVars mode latest start)) ((aheadMachine rel
      (runVars mode latest start) true).perform (.makeStage v.stage) x w).2 := by
    intro _ b hb
    exact absurd (hnone.symm.trans hb) nofun
  refine ⟨hahead, wp_ite.mpr ⟨fun hok => ?_, fun _ => hahead⟩⟩
  have hvars : ∀ b : Host, b.version = v.currentVersion →
      runVars mode latest start b = { v with preimage := some b.archives.length } := by
    intro b hb
    have hb : b.version = start.version := hb
    simp [runVars, hb, v, hw.count]
  have hmade : ((aheadMachine rel (runVars mode latest start) true).perform
      (.makeStage v.stage) x w).2.1 =
      ⟨Host.commit { w.1.host.setStage v.stage (some .empty) with
        stageCount := v.stage + 1 } x.panel, w.1.stopped⟩ :=
    congrArg (fun h : Host => (⟨h.commit x.panel, w.1.stopped⟩ : Recorded))
      (Outcome.apply_of_status hok)
  have hbefore : Before v ((aheadMachine rel (runVars mode latest start) true).perform
      (.makeStage v.stage) x w).2.1 := by
    rw [hmade]
    exact hw.before rfl x.panel
  exact wp_stagedTransaction_ahead hvars fun _ => hbefore

/-- **The transaction writes ahead.** -/
theorem wp_transaction_ahead (mode : Mode) (latest : Version) {start : Host}
    (hjournal : start.journal = none) :
    wp (aheadMachine rel (runVars mode latest start) true) (Given (Ahead (runVars mode latest start)))
      (transaction mode latest) (fun _ => Given (Ahead (runVars mode latest start)))
      (⟨start, none⟩, True) := by
  have hstart : Started start ⟨start, none⟩ := ⟨rfl, rfl, rfl, hjournal⟩
  rw [transaction, wp_bind]
  intro x
  have hpreflight := hstart.commit x.panel
  refine ⟨fun _ => hpreflight.ahead, wp_ite.mpr ⟨fun _ => ?_, fun _ _ => hpreflight.ahead⟩⟩
  rw [wp_look, wp_ite]
  refine ⟨fun _ => ?_, fun _ _ => hpreflight.ahead⟩
  rw [wp_bind]
  intro y
  have hfetch := hpreflight.commit y.panel
  refine ⟨fun _ => hfetch.ahead, wp_ite.mpr ⟨fun _ => ?_, fun _ _ => hfetch.ahead⟩⟩
  have hversion : (start.commit x.panel).version = start.version := hpreflight.version
  change wp _ _ (transactionTo mode (start.commit x.panel).version
    (if mode = .reinstall then (start.commit x.panel).version else latest)) _ _
  rw [hversion]
  exact wp_transactionTo_ahead mode latest hfetch

/-- What a recovery leaves. -/
def recovered (rel : Version → Release) (vars : Host → UpgradeVars) (w : Recorded × Prop)
    (choices : List Choice) : Recorded × Prop :=
  (recoverInterrupted.exec (aheadMachine rel vars false) choices w).2

/-- **The journal is written ahead.** A transaction from a host without a journal, and any number of
recoveries after it, may fail at any command and be interrupted after any command. As long as the
write of the journal that lets it touch the installation does not fail, and the journal is not
removed before everything is what it was, then at every moment at which the installation is not
what it was when the stack was stopped, a journal is on disk that is accepted, is past `prepared`,
and names the versions, the archive and the stage of the transaction. -/
theorem written_ahead (rel : Version → Release) (mode : Mode) (latest : Version) (start : Host)
    (hjournal : start.journal = none) (choices : List Choice) (recoveries : List (List Choice)) :
    let vars := runVars mode latest start
    let interrupted := ((transaction mode latest).exec (aheadMachine rel vars true) choices
      (⟨start, none⟩, True)).2
    let w := recoveries.foldl (recovered rel vars) interrupted
    w.2 → ∀ b, w.1.stopped = some b → ¬Unchanged b w.1.host → WrittenAhead (vars b) w.1.host := by
  intro vars interrupted w hmet b hb hchanged
  have hexec : ∀ {p : Shell (Option UpgradeError)} {recording : Bool} {w : Recorded × Prop}
      (xs : List Choice), wp (aheadMachine rel vars recording) (Given (Ahead vars)) p
        (fun _ => Given (Ahead vars)) w → Given (Ahead vars) w →
      Given (Ahead vars) (p.exec (aheadMachine rel vars recording) xs w).2 := by
    intro p recording w xs hp hw
    have hrun := exec_of_wp hp hw xs
    rcases h : p.exec (aheadMachine rel vars recording) xs w with ⟨_ | e, t⟩
    · exact hrun.1 t h
    · exact hrun.2 e t h
  have hinterrupted : Given (Ahead vars) interrupted :=
    hexec choices (wp_transaction_ahead mode latest hjournal) fun _ _ => nofun
  -- a recovery keeps what the transaction kept
  have hall : ∀ (recoveries : List (List Choice)) w, Given (Ahead vars) w →
      Given (Ahead vars) (recoveries.foldl (recovered rel vars) w) := by
    intro recoveries
    induction recoveries with
    | nil => exact fun _ h => h
    | cons xs rest ih =>
      exact fun w hw => ih _ (hexec xs (keeps_recoverInterrupted_ahead w hw) hw)
  rcases hall recoveries interrupted hinterrupted hmet b hb with huntouched | hready
  · exact absurd huntouched.unchanged hchanged
  · exact hready.writtenAhead

/-- A command that succeeds and does not remove the journal meets the condition. -/
theorem orderly_of_status {x : Choice} (hstatus : (c.effect rel x.outcome s.host).1 = true)
    (hc : c.parts ≠ [.journal]) : Orderly rel vars c x s := by
  refine fun b _ => ⟨fun _ _ => hstatus, ?_⟩
  rintro rfl
  exact absurd rfl hc

/-- What an update leaves that is interrupted right after it switched the link. -/
def switchedUpdate : Recorded × Prop :=
  ((transaction .update ⟨0, 2, 0⟩).exec
    (aheadMachine sampleRelease (runVars .update ⟨0, 2, 0⟩ sampleHost) true)
    (List.replicate 31 smooth) (⟨sampleHost, none⟩, True)).2

/-- An update that was interrupted after the switch of the link: the link has changed, and the
journal is there. -/
theorem written_ahead_switched :
    ∃ b, switchedUpdate.1.stopped = some b ∧ ¬Unchanged b switchedUpdate.1.host ∧
      WrittenAhead (runVars .update ⟨0, 2, 0⟩ sampleHost b) switchedUpdate.1.host := by
  have hmet : switchedUpdate.2 := by
    rw [switchedUpdate, aheadMachine, exec_watch_met]
    refine ⟨trivial, fun step hstep => ?_⟩
    have hsteps : ∀ step ∈ (transaction .update ⟨0, 2, 0⟩).trace (recordedMachine sampleRelease true)
        (List.replicate 31 smooth) ⟨sampleHost, none⟩,
        (step.1.effect sampleRelease step.2.1.outcome step.2.2.host).1 = true ∧
          step.1.parts ≠ [.journal] := by
      decide +kernel
    exact orderly_of_status (hsteps step hstep).1 (hsteps step hstep).2
  obtain ⟨b, hb⟩ : ∃ b, switchedUpdate.1.stopped = some b :=
    Option.isSome_iff_exists.mp (by decide +kernel)
  have hchanged : ¬Unchanged b switchedUpdate.1.host := by
    intro hu
    have hcurrent : switchedUpdate.1.stopped.map Host.current ≠
        some switchedUpdate.1.host.current := by decide +kernel
    rw [hb, hu.current] at hcurrent
    exact hcurrent rfl
  exact ⟨b, hb, hchanged, written_ahead sampleRelease .update ⟨0, 2, 0⟩ sampleHost rfl
    (List.replicate 31 smooth) [] hmet b hb hchanged⟩

/-- **A journal that was not written.** The temporary file of the journal of phase `switching` cannot
be created, the checkpoint is written, and the update goes on: when the link is switched, the journal
on disk still says `prepared`. -/
theorem not_written_ahead :
    let w := ((transaction .update ⟨0, 2, 0⟩).exec (recordedMachine sampleRelease true)
      (List.replicate 21 smooth ++ [⟨.failed, []⟩] ++ List.replicate 6 smooth)
      ⟨sampleHost, none⟩).2
    (w.stopped.map Host.current = some (some ⟨0, 1, 0⟩) ∧ w.host.current = some ⟨0, 2, 0⟩ ∧
        w.host.journal.map Journal.phase = some .prepared) ∧
      ∀ b, w.stopped = some b →
        ¬Unchanged b w.host ∧ ¬WrittenAhead (runVars .update ⟨0, 2, 0⟩ sampleHost b) w.host := by
  intro w
  have hlinks : w.stopped.map Host.current = some (some ⟨0, 1, 0⟩) ∧
      w.host.current = some ⟨0, 2, 0⟩ := by decide +kernel
  have hphase : w.host.journal.map Journal.phase = some .prepared := by decide +kernel
  refine ⟨⟨hlinks.1, hlinks.2, hphase⟩, fun b hb => ⟨fun hu => ?_, ?_⟩⟩
  · have hb' := hlinks.1
    rw [hb] at hb'
    have hcurrent := hu.current.symm.trans hlinks.2
    rw [Option.some.inj hb'] at hcurrent
    exact absurd hcurrent (by decide)
  · rintro ⟨phase, hne, hjournal, -⟩
    rw [hjournal] at hphase
    exact hne (Option.some.inj hphase)

end EzOpenPN.Upgrade
