import EzOpenPN.Installer.Upgrade

/-!
# Changes of the panel and the way back

A rollback restores the database from the archive that was taken when the stack was stopped. The
stack may have run since: between its start and the failing health check, and after a crash and a
boot. **What the panel commits then is lost**, although the caller was told that it was done.

The markers on the host tell when a change is safe. A change is *settled* if neither the journal nor
the checkpoint recorded a phase after `prepared` when it was committed. `EzOpenPN.Upgrade.settled_kept`
says that a settled change is in the database in every state that any sequence of runs, crashes,
boots and panel changes leads to, however the commands of the runs go. The invariant is about the
archives: whatever a journal past `prepared` points to holds every settled change, and while such a
journal, or such a checkpoint, is there no new change is settled.
-/

namespace EzOpenPN.Upgrade

open Script

/-! ### Watching the panel -/

/-- The checkpoint records a phase after `prepared`. -/
def Checkpoint.past : Checkpoint → Bool
  | .upgrade phase => phase ≠ .prepared
  | .other => false

/-- **The markers record a phase after `prepared`.** -/
def Host.exposed (h : Host) : Bool :=
  (h.journal.any fun j => j.phase ≠ .prepared) || h.checkpoint.any Checkpoint.past

/-- A host, and the changes that the panel has settled so far. -/
structure Watched where
  host : Host
  settled : List Change

/-- The panel commits changes, if the stack runs; they are settled unless the markers record a phase
after `prepared`. -/
def Watched.commit (w : Watched) (changes : List Change) : Watched where
  host := w.host.commit changes
  settled := if w.host.running = true ∧ w.host.exposed = false then w.settled ++ changes else w.settled

section Machine

variable (rel : Version → Release)

/-- The host as a machine, with its settled changes. -/
def watchedMachine : Machine Host Cmd Choice Watched where
  obs := Watched.host
  perform c x w :=
    ((c.effect rel x.outcome w.host).1,
      Watched.commit ⟨(c.effect rel x.outcome w.host).2, w.settled⟩ x.panel)

/-- **What happens to a host**: a run, with its choices and a crash if they do not suffice; changes
of the panel; a boot, which starts the stack or does not. -/
inductive HostEvent where
  | run (operation : Operation) (latest : Version) (choices : List Choice)
  | panel (changes : List Change)
  | boot (started : Bool)

/-- An event. -/
def Watched.apply (w : Watched) : HostEvent → Watched
  | .run operation latest choices =>
    ((upgradeRun operation latest).exec (watchedMachine rel) choices w).2
  | .panel changes => w.commit changes
  | .boot started => { w with host := { w.host with running := started } }

end Machine

/-! ### The invariant -/

/-- An archive holds every settled change. -/
def Covers (w : Watched) (preimage : Option ℕ) : Prop :=
  ∃ a archive, preimage = some a ∧ w.host.archives[a]? = some archive ∧
    ∀ c ∈ w.settled, c ∈ archive.database.changes

/-- **The invariant**: the settled changes are in the database, and in the archive of a journal that
would have it restored. -/
structure Kept (w : Watched) : Prop where
  database : ∀ c ∈ w.settled, c ∈ w.host.database.changes
  journal : ∀ j, w.host.journal = some j → j.phase ≠ .prepared → Covers w j.preimage

/-- In a transaction that has its archive, while no change can be settled: the markers record a
later phase, or the stack does not run. -/
structure Stopped (preimage : Option ℕ) (w : Watched) : Prop where
  kept : Kept w
  covers : Covers w preimage
  quiet : w.host.exposed = true ∨ w.host.running = false

/-- In a transaction whose markers record a later phase. -/
structure Touched (preimage : Option ℕ) (w : Watched) : Prop where
  kept : Kept w
  covers : Covers w preimage
  exposed : w.host.exposed = true

section Commit

variable {w : Watched} {preimage : Option ℕ}

theorem Host.exposed_commit (h : Host) (changes : List Change) :
    (h.commit changes).exposed = h.exposed := by
  rw [Host.commit]
  split <;> rfl

theorem Host.running_commit (h : Host) (changes : List Change) :
    (h.commit changes).running = h.running := by
  rw [Host.commit]
  split <;> rfl

/-- Where the markers record a later phase or the stack does not run, nothing is settled. -/
theorem Watched.commit_settled (h : w.host.exposed = true ∨ w.host.running = false)
    (changes : List Change) : (w.commit changes).settled = w.settled := by
  refine if_neg ?_
  rintro ⟨hrunning, hexposed⟩
  rcases h with h | h
  · rw [hexposed] at h
    cases h
  · rw [hrunning] at h
    cases h

theorem Watched.commit_archives (changes : List Change) :
    (w.commit changes).host.archives = w.host.archives :=
  commit_same (p := .archives) nofun w.host changes

theorem Watched.commit_journal (changes : List Change) :
    (w.commit changes).host.journal = w.host.journal :=
  commit_same (p := .journal) nofun w.host changes

theorem Covers.commit (h : Covers w preimage)
    (hquiet : w.host.exposed = true ∨ w.host.running = false) (changes : List Change) :
    Covers (w.commit changes) preimage := by
  rw [Covers, Watched.commit_archives, Watched.commit_settled hquiet]
  exact h

/-- **The panel keeps the invariant.** -/
theorem Kept.commit (h : Kept w) (changes : List Change) : Kept (w.commit changes) := by
  constructor
  · intro c hc
    have hdatabase : (w.commit changes).host.database.changes =
        if w.host.running then w.host.database.changes ++ changes else w.host.database.changes := by
      change (w.host.commit changes).database.changes = _
      rw [Host.commit]
      split <;> rfl
    rw [hdatabase]
    change c ∈ if _ then _ else _ at hc
    split at hc
    · rename_i hsettled
      rw [if_pos hsettled.1]
      rcases List.mem_append.mp hc with hc | hc
      · exact List.mem_append_left _ (h.database c hc)
      · exact List.mem_append_right _ hc
    · split
      · exact List.mem_append_left _ (h.database c hc)
      · exact h.database c hc
  · intro j hj hphase
    rw [Watched.commit_journal] at hj
    -- the journal alone exposes the change
    have hexposed : w.host.exposed = true := by
      rw [Host.exposed, hj]
      simp [hphase]
    exact (h.journal j hj hphase).commit (Or.inl hexposed) changes

theorem Stopped.commit (h : Stopped preimage w) (changes : List Change) :
    Stopped preimage (w.commit changes) := by
  refine ⟨h.kept.commit changes, h.covers.commit h.quiet changes, ?_⟩
  change (w.host.commit changes).exposed = true ∨ (w.host.commit changes).running = false
  rw [Host.exposed_commit, Host.running_commit]
  exact h.quiet

theorem Touched.commit (h : Touched preimage w) (changes : List Change) :
    Touched preimage (w.commit changes) := by
  refine ⟨h.kept.commit changes, h.covers.commit (Or.inl h.exposed) changes, ?_⟩
  change (w.host.commit changes).exposed = true
  rw [Host.exposed_commit]
  exact h.exposed

end Commit

/-! ### Commands -/

section Commands

variable {rel : Version → Release} {c : Cmd} {w : Watched} {preimage : Option ℕ}

/-- A host after a command, before the panel commits anything. -/
def Watched.after (rel : Version → Release) (c : Cmd) (o : Outcome) (w : Watched) : Watched :=
  ⟨(c.effect rel o w.host).2, w.settled⟩

/-- The archives are only ever added to. -/
theorem effect_archives (c : Cmd) (o : Outcome) (h : Host) :
    ∃ added, (c.effect rel o h).2.archives = h.archives ++ added := by
  have hsame : c.touches .archives = false → ∃ added, (c.effect rel o h).2.archives =
      h.archives ++ added := fun hc => ⟨[], by
    rw [List.append_nil]
    exact effect_same (p := .archives) hc o h⟩
  cases c with
  | createPreimage =>
    simp only [Cmd.effect, Outcome.apply]
    split
    · exact ⟨[h.archive], rfl⟩
    · exact ⟨[], (List.append_nil _).symm⟩
  | service action => cases action <;> exact hsame rfl
  | replace content => cases content <;> exact hsame rfl
  | _ => exact hsame rfl

theorem Covers.after (h : Covers w preimage) (o : Outcome) :
    Covers (w.after rel c o) preimage := by
  obtain ⟨a, archive, hpre, harchive, hchanges⟩ := h
  obtain ⟨added, hadded⟩ := @effect_archives rel c o w.host
  refine ⟨a, archive, hpre, ?_, hchanges⟩
  rw [Watched.after, hadded, List.getElem?_append_left (List.getElem?_eq_some_iff.mp harchive).1]
  exact harchive

/-- The commands that neither restore a database nor write a journal of a later phase. -/
def Cmd.isMild : Cmd → Bool
  | .restoreDatabase _ => false
  | .replace (.journal j) => j.phase = .prepared
  | _ => true

theorem effect_changes (hc : c.isMild = true) (o : Outcome) (h : Host) :
    (c.effect rel o h).2.database.changes = h.database.changes := by
  have hsame : c.touches .database = false →
      (c.effect rel o h).2.database.changes = h.database.changes := fun hd =>
    congrArg Database.changes (effect_same (p := .database) hd o h)
  cases c with
  | migrate v =>
    simp only [Cmd.effect, Outcome.apply]
    split <;> rfl
  | restoreDatabase a => cases hc
  | service action => cases action <;> exact hsame rfl
  | replace content => cases content <;> exact hsame rfl
  | _ => exact hsame rfl

/-- A journal of a later phase was there before. -/
theorem journal_of_effect (hc : c.isMild = true) {o : Outcome} {h : Host} {j : Journal}
    (hj : (c.effect rel o h).2.journal = some j) (hphase : j.phase ≠ .prepared) :
    h.journal = some j := by
  have hsame : c.touches .journal = false → h.journal = some j :=
    fun hn => (effect_same (p := .journal) hn o h).symm.trans hj
  cases c with
  | unlinkJournal =>
    simp only [Cmd.effect, Outcome.apply] at hj
    split at hj
    · cases hj
    · exact hj
  | service action => cases action <;> exact hsame rfl
  | replace content =>
    cases content with
    | journal j' =>
      simp only [Cmd.effect, Outcome.apply] at hj
      split at hj
      · split at hj
        · obtain rfl : j' = j := Option.some.inj hj
          exact absurd (of_decide_eq_true hc) hphase
        · exact hj
      · exact hj
    | _ => exact hsame rfl
  | _ => exact hsame rfl

/-- **A mild command keeps the invariant.** -/
theorem Kept.after (h : Kept w) (hc : c.isMild = true) (o : Outcome) : Kept (w.after rel c o) := by
  constructor
  · intro change hchange
    rw [Watched.after, effect_changes hc]
    exact h.database change hchange
  · intro j hj hphase
    exact (h.journal j (journal_of_effect hc hj hphase) hphase).after o

/-- What a command may be while the markers record a later phase: it leaves them, or writes a later
phase of the same transaction, and restores no other archive. -/
def Cmd.Allowed (preimage : Option ℕ) : Cmd → Prop
  | .restoreDatabase a => preimage = some a
  | .replace (.journal j) => j.phase ≠ .prepared ∧ j.preimage = preimage
  | .replace (.checkpoint phase) => phase ≠ .prepared
  | .unlinkJournal | .removeCheckpoint => False
  | _ => True

/-- An allowed command keeps the invariant. -/
theorem Kept.after_allowed (h : Kept w) (hcovers : Covers w preimage) (hc : c.Allowed preimage)
    (o : Outcome) : Kept (w.after rel c o) := by
  cases c with
  | restoreDatabase a =>
    obtain ⟨b, archive, hpre, harchive, hchanges⟩ := hcovers
    obtain rfl : a = b := Option.some.inj (hc.symm.trans hpre)
    refine ⟨?_, fun j hj hphase => (h.journal j ?_ hphase).after o⟩
    · intro change hchange
      simp only [Watched.after, Cmd.effect, harchive, Outcome.apply]
      split
      · exact hchanges change hchange
      · exact h.database change hchange
    · exact (effect_same (p := .journal) rfl o w.host).symm.trans hj
  | replace content =>
    cases content with
    | journal j =>
      have hdatabase : (w.after rel (.replace (.journal j)) o).host.database = w.host.database :=
        effect_same (p := .database) rfl o w.host
      refine ⟨fun change hchange => ?_, ?_⟩
      · rw [hdatabase]
        exact h.database change hchange
      · intro j' hj' hphase
        simp only [Watched.after, Cmd.effect, Outcome.apply] at hj'
        -- either the journal was replaced or it was not
        split at hj'
        · split at hj'
          · obtain rfl : j = j' := Option.some.inj hj'
            rw [hc.2]
            exact hcovers.after o
          · exact (h.journal j' hj' hphase).after o
        · exact (h.journal j' hj' hphase).after o
    | _ => exact h.after rfl o
  | service action => exact h.after rfl o
  | _ => exact h.after rfl o

/-- An allowed command leaves markers of a later phase. -/
theorem exposed_after_allowed (hc : c.Allowed preimage) (o : Outcome)
    (h : w.host.exposed = true) : (w.after rel c o).host.exposed = true := by
  have hsame : c.touches .journal = false → c.touches .checkpoint = false →
      (w.after rel c o).host.exposed = true := by
    intro hj hk
    have hjournal : (w.after rel c o).host.journal = w.host.journal :=
      effect_same (p := .journal) hj o w.host
    have hcheckpoint : (w.after rel c o).host.checkpoint = w.host.checkpoint :=
      effect_same (p := .checkpoint) hk o w.host
    rw [Host.exposed, hjournal, hcheckpoint]
    exact h
  cases c with
  | replace content =>
    cases content with
    | state v => exact hsame rfl rfl
    | journal j =>
      simp only [Watched.after, Cmd.effect, Outcome.apply]
      split
      · split
        · have hphase : decide (j.phase ≠ .prepared) = true := decide_eq_true hc.1
          simp [Host.exposed, Host.put, Host.setTmp, hc.1]
        · exact h
      · exact h
    | checkpoint phase =>
      simp only [Watched.after, Cmd.effect, Outcome.apply]
      split
      · split
        · have hphase : phase ≠ .prepared := hc
          simp [Host.exposed, Host.put, Host.setTmp, Checkpoint.past, hphase]
        · exact h
      · exact h
  | unlinkJournal => exact absurd hc id
  | removeCheckpoint => exact absurd hc id
  | service action => cases action <;> exact hsame rfl rfl
  | _ => exact hsame rfl rfl

/-- A script of mild commands keeps the invariant. -/
theorem keeps_kept {α : Type} {p : Shell α} (hp : p.Only fun c => c.isMild = true) :
    Keeps (watchedMachine rel) Kept Kept p :=
  hp.keeps fun _ hc _ x h => (h.after hc x.outcome).commit x.panel

/-- A script of allowed commands keeps the markers of a later phase. -/
theorem keeps_touched {α : Type} {p : Shell α} (hp : p.Only (Cmd.Allowed preimage)) :
    Keeps (watchedMachine rel) (Touched preimage) (Touched preimage) p := by
  refine hp.keeps fun c hc w x h => Touched.commit ⟨?_, ?_, ?_⟩ x.panel
  · exact h.kept.after_allowed h.covers hc x.outcome
  · exact h.covers.after x.outcome
  · exact exposed_after_allowed hc x.outcome h.exposed

/-- A script of allowed commands that leave the stack alone. -/
theorem keeps_stopped {α : Type} {p : Shell α}
    (hp : p.Only fun c => c.Allowed preimage ∧ c.touches .running = false) :
    Keeps (watchedMachine rel) (Stopped preimage) (Stopped preimage) p := by
  refine hp.keeps fun c hc w x h => Stopped.commit ⟨?_, ?_, ?_⟩ x.panel
  · exact h.kept.after_allowed h.covers hc.1 x.outcome
  · exact h.covers.after x.outcome
  · rcases h.quiet with hexposed | hstopped
    · exact Or.inl (exposed_after_allowed hc.1 x.outcome hexposed)
    · exact Or.inr ((effect_same (p := .running) hc.2 x.outcome w.host).trans hstopped)

end Commands

/-! ### Runs -/

section Runs

variable {rel : Version → Release} {w : Watched} {vars : UpgradeVars}

theorem keeps_clearJournal : Keeps (watchedMachine rel) Kept Kept clearJournal :=
  keeps_kept (only_clearJournal rfl rfl)

theorem keeps_cleanupStage (stage : ℕ) : Keeps (watchedMachine rel) Kept Kept (cleanupStage stage) :=
  keeps_kept (only_cleanupStage rfl)

theorem keeps_resumeStack : Keeps (watchedMachine rel) Kept Kept resumeStack :=
  keeps_kept (.all (by simpa using ⟨.run rfl, .run rfl⟩))

/-- Going back restores the archive of the transaction and no other. -/
theorem only_rollbackSteps (vars : UpgradeVars) :
    (rollbackSteps vars).Only (Cmd.Allowed vars.preimage) := by
  have hrelease : (restoreCurrentRelease vars).Only (Cmd.Allowed vars.preimage) :=
    .all (by simpa using ⟨.run trivial, only_removeRelease trivial, .run trivial⟩)
  have htools : (restoreHostTools vars.stage).Only (Cmd.Allowed vars.preimage) :=
    only_restoreHostTools (fun _ => trivial) (fun _ => trivial) trivial
  have hstate : (writeStateVersion vars.currentVersion).Only (Cmd.Allowed vars.preimage) :=
    only_atomicWrite trivial trivial trivial trivial
  have hpreimage : (restorePreimage vars.preimage).Only (Cmd.Allowed vars.preimage) := by
    cases vars.preimage with
    | none => exact trivial
    | some a =>
      refine .all ?_
      simp only [List.forall_mem_cons, List.not_mem_nil, false_implies, implies_true, and_true]
      exact ⟨.run trivial, .run rfl, .run trivial, .run trivial, .run trivial, .run trivial,
        .run trivial, .run trivial, .run trivial⟩
  refine .all ?_
  simp only [List.forall_mem_cons, List.not_mem_nil, false_implies, implies_true, and_true]
  exact ⟨.run trivial, hrelease, .run trivial, htools, hstate, hpreimage, .run trivial, .run trivial⟩

theorem wp_rollback (h : Touched vars.preimage w) :
    wp (watchedMachine rel) Kept (rollback vars) (fun _ => Kept) w := by
  rw [rollback, wp_bind]
  refine wp_mono (keeps_touched (only_rollbackSteps vars) w h) (fun _ ht => ht.kept) ?_
  intro ok t ht
  refine Keeps.ite ?_ (Keeps.done false) t ht.kept
  exact .bind (keeps_kept (.run rfl)) fun _ => .bind keeps_clearJournal fun _ => .done true

/-- **Recovery keeps the invariant**: the journal it goes by points to an archive that holds every
settled change. -/
theorem keeps_recoverInterrupted : Keeps (watchedMachine rel) Kept Kept recoverInterrupted := by
  intro w hw
  rw [recoverInterrupted, wp_look]
  split
  · exact hw
  · rename_i j hj
    change w.host.journal = some j at hj
    split
    · exact hw
    · rename_i vars hvars
      have hpreimage : vars.preimage = j.preimage := by
        rw [readJournal] at hvars
        split at hvars
        · cases hvars
        · split at hvars
          · rw [← Option.some.inj hvars]
          · cases hvars
      rw [recoverFrom]
      by_cases hphase : j.phase = .prepared
      · rw [if_pos hphase]
        refine Keeps.bind keeps_resumeStack (fun ok => .ite ?_ (.done _)) w hw
        exact .bind keeps_clearJournal fun _ => .bind (keeps_cleanupStage _) fun _ => .done _
      · rw [if_neg hphase, wp_bind]
        have hexposed : w.host.exposed = true := by
          rw [Host.exposed, hj]
          simp [hphase]
        have htouched : Touched vars.preimage w :=
          ⟨hw, hpreimage ▸ hw.journal j hj hphase, hexposed⟩
        refine wp_mono (wp_rollback htouched) (fun _ h => h) fun ok t ht => ?_
        exact Keeps.ite (.bind (keeps_cleanupStage _) fun _ => .done _) (.done _) t ht

theorem checkpoint_of_replace {phase : Phase} {o : Outcome} {h : Host}
    (hs : ((Cmd.replace (.checkpoint phase)).effect rel o h).1 = true) :
    ((Cmd.replace (.checkpoint phase)).effect rel o h).2.checkpoint = some (.upgrade phase) := by
  simp only [Cmd.effect] at hs ⊢
  split at hs
  · rename_i htmp
    rw [if_pos htmp, Outcome.apply_of_status hs]
    rfl
  · cases hs

/-- A checkpoint that was written is there. -/
theorem wp_writeOperationCheckpoint (phase : Phase) (w : Watched) :
    wp (watchedMachine rel) (fun _ => True) (writeOperationCheckpoint phase)
      (fun ok t => ok = true → t.host.checkpoint = some (.upgrade phase)) w := by
  have hcommit : ∀ (u : Watched) changes,
      (u.commit changes).host.checkpoint = u.host.checkpoint := fun u changes =>
    commit_same (p := .checkpoint) nofun u.host changes
  rw [writeOperationCheckpoint, atomicWrite, wp_bind]
  refine fun x => ⟨trivial, wp_ite.mpr ⟨fun _ => ?_, fun _ => nofun⟩⟩
  rw [wp_bind, wp_all_cons]
  refine fun y => ⟨trivial, fun _ => ?_, fun _ z => ⟨trivial, nofun⟩⟩
  rw [wp_all_cons]
  refine fun z => ⟨trivial, fun hreplaced => ?_, fun _ v => ⟨trivial, nofun⟩⟩
  refine fun v => ⟨trivial, fun _ => ?_⟩
  have hdiscard : ∀ (u : Watched), ((watchedMachine rel).perform (.discard .checkpoint) v u).2.host.checkpoint =
      u.host.checkpoint := fun u =>
    (hcommit _ _).trans (effect_same (p := .checkpoint) rfl v.outcome u.host)
  refine (hdiscard _).trans ((hcommit _ _).trans ?_)
  exact checkpoint_of_replace hreplaced

/-- The journal of a later phase, while nothing can be settled: if it succeeds, the markers record
the phase. -/
theorem wp_writeJournal {phase : Phase} (hphase : phase ≠ .prepared) (h : Stopped vars.preimage w) :
    wp (watchedMachine rel) Kept (writeJournal vars phase)
      (fun ok t => Kept t ∧ (ok = true → Touched vars.preimage t)) w := by
  have hjournal : (atomicWrite (.journal (vars.journal phase))).Only
      fun c => c.Allowed vars.preimage ∧ c.touches .running = false :=
    only_atomicWrite ⟨trivial, rfl⟩ ⟨trivial, rfl⟩ ⟨⟨hphase, rfl⟩, rfl⟩ ⟨trivial, rfl⟩
  have hcheckpoint : (writeOperationCheckpoint phase).Only
      fun c => c.Allowed vars.preimage ∧ c.touches .running = false :=
    only_atomicWrite ⟨trivial, rfl⟩ ⟨trivial, rfl⟩ ⟨hphase, rfl⟩ ⟨trivial, rfl⟩
  rw [writeJournal, wp_bind]
  refine wp_mono (keeps_stopped hjournal w h) (fun _ ht => ht.kept) fun _ t ht => ?_
  refine wp_mono (wp_and (keeps_stopped hcheckpoint t ht) (wp_writeOperationCheckpoint phase t))
    (fun _ hu => hu.1.kept) ?_
  rintro ok u ⟨hu, hwritten⟩
  refine ⟨hu.kept, fun hok => ⟨hu.kept, hu.covers, ?_⟩⟩
  rw [Host.exposed, hwritten hok]
  simp [Checkpoint.past, hphase]

/-- **The archive of a stopped stack holds every settled change.** -/
theorem wp_takePreimage (vars : UpgradeVars) (h : Kept w) :
    wp (watchedMachine rel) Kept (takePreimage vars)
      (fun result t => Kept t ∧ (result.1 = none → Touched result.2.preimage t)) w := by
  rw [takePreimage, wp_bind]
  intro x
  have hstop : Kept ((watchedMachine rel).perform (.service .stop) x w).2 :=
    (h.after rfl x.outcome).commit x.panel
  refine ⟨hstop, wp_ite.mpr ⟨fun hok => ?_, fun _ => ⟨hstop, by simp⟩⟩⟩
  have hstopped : ((watchedMachine rel).perform (.service .stop) x w).2.host.running = false := by
    refine (Host.running_commit _ _).trans ?_
    rw [Cmd.effect, Outcome.apply_of_status hok]
  generalize ((watchedMachine rel).perform (.service .stop) x w).2 = u at hstop hstopped
  rw [wp_bind]
  intro y
  have hcreate : Kept ((watchedMachine rel).perform .createPreimage y u).2 :=
    (hstop.after rfl y.outcome).commit y.panel
  refine ⟨hcreate, wp_ite.mpr ⟨fun hok => ?_, fun _ => ⟨hcreate, by simp⟩⟩⟩
  -- the stack does not run, so the archive has every change there is
  have hrunning : (u.after rel .createPreimage y.outcome).host.running = false :=
    (effect_same (p := .running) rfl y.outcome u.host).trans hstopped
  have harchives : (u.after rel .createPreimage y.outcome).host.archives =
      u.host.archives ++ [u.host.archive] := by
    rw [Watched.after, Cmd.effect, Outcome.apply_of_status hok]
  have hcovers : Covers (u.after rel .createPreimage y.outcome)
      (some ((u.after rel .createPreimage y.outcome).host.archives.length - 1)) := by
    refine ⟨_, u.host.archive, rfl, ?_, hstop.database⟩
    rw [harchives]
    simp
  have hlength : ((watchedMachine rel).perform .createPreimage y u).2.host.archives =
      (u.after rel .createPreimage y.outcome).host.archives := Watched.commit_archives y.panel
  have hstopped' : Stopped
      (some (((watchedMachine rel).perform .createPreimage y u).2.host.archives.length - 1))
      ((watchedMachine rel).perform .createPreimage y u).2 := by
    rw [hlength]
    exact Stopped.commit ⟨hstop.after rfl y.outcome, hcovers, Or.inr hrunning⟩ y.panel
  rw [wp_look]
  change wp _ _ (Script.bind (writeJournal ⟨_, _, _, _, _⟩ _) _) _ _
  rw [wp_bind]
  refine wp_mono (wp_writeJournal (by simp) hstopped') (fun _ ht => ht) ?_
  rintro ok t ⟨ht, htouched⟩
  cases ok with
  | true => exact ⟨ht, fun _ => htouched rfl⟩
  | false => exact ⟨ht, by simp⟩

/-- Nothing of the switch is settled. -/
theorem only_switchRelease (vars : UpgradeVars) :
    (switchRelease vars).Only (Cmd.Allowed vars.preimage) := by
  have hjournal : ∀ phase, phase ≠ .prepared →
      (writeJournal vars phase).Only (Cmd.Allowed vars.preimage) := fun phase hphase =>
    .bind (only_atomicWrite trivial trivial ⟨hphase, rfl⟩ trivial) fun _ =>
      only_atomicWrite trivial trivial hphase trivial
  have hfiles : (installReleaseFiles vars.targetVersion).Only (Cmd.Allowed vars.preimage) :=
    .all (by simpa using ⟨.run trivial, .run trivial⟩)
  have hrendered : (installRendered vars.stage).Only (Cmd.Allowed vars.preimage) := by
    refine .all ?_
    simp only [List.forall_mem_cons, List.not_mem_nil, false_implies, implies_true, and_true]
    exact ⟨.run trivial, .run trivial, .run trivial, .run trivial, .run trivial, .run trivial⟩
  have htools : (installHostTools vars.targetVersion).Only (Cmd.Allowed vars.preimage) :=
    .all (by simpa using ⟨.run trivial, .run trivial, .run trivial⟩)
  refine .firstFailure ?_
  simp only [List.forall_mem_cons, List.not_mem_nil, false_implies, implies_true, and_true]
  exact ⟨only_removeRelease trivial, hfiles, hrendered, htools, hjournal _ nofun, .run trivial,
    hjournal _ nofun, .run trivial, .run trivial, hjournal _ nofun,
    only_atomicWrite trivial trivial trivial trivial⟩

theorem keeps_stoppedTransaction (vars : UpgradeVars) :
    Keeps (watchedMachine rel) Kept Kept (stoppedTransaction vars) := by
  intro w hw
  rw [stoppedTransaction, wp_bind]
  refine wp_mono (wp_takePreimage vars hw) (fun _ h => h) ?_
  rintro ⟨failure, vars'⟩ t ⟨ht, htouched⟩
  cases failure with
  | some _ =>
    refine Keeps.bind keeps_resumeStack (fun ok => .ite ?_ (.done _)) t ht
    exact .bind (keeps_kept (.run rfl)) fun _ => .bind keeps_clearJournal fun _ =>
      .bind (keeps_cleanupStage _) fun _ => .done _
  | none =>
    have htouched : Touched vars'.preimage t := htouched rfl
    change wp _ _ (Script.bind _ _) _ _
    rw [wp_bind]
    refine wp_mono (keeps_touched (only_switchRelease vars') t htouched) (fun _ hu => hu.kept) ?_
    intro failure u hu
    cases failure with
    | some _ =>
      change wp _ _ (returnOld vars') _ _
      rw [returnOld, wp_bind]
      refine wp_mono (wp_rollback hu) (fun _ h => h) fun ok v hv => ?_
      exact Keeps.ite (.bind (keeps_cleanupStage _) fun _ => .done _) (.done _) v hv
    | none =>
      refine Keeps.bind keeps_clearJournal (fun _ => ?_) u hu.kept
      exact .bind (keeps_cleanupStage _) fun _ => .done _

theorem keeps_stagedTransaction {vars : UpgradeVars} :
    Keeps (watchedMachine rel) Kept Kept (stagedTransaction vars) := by
  have hprepare : (prepareRelease vars).Only fun c => c.isMild = true := by
    refine .firstFailure ?_
    simp only [List.forall_mem_cons, List.not_mem_nil, false_implies, implies_true, and_true]
    refine ⟨.run rfl, .run rfl, only_saveHostTools rfl (fun _ => rfl) (fun _ => rfl), .run rfl, ?_⟩
    exact .bind (only_atomicWrite rfl rfl rfl rfl) fun _ => only_atomicWrite rfl rfl rfl rfl
  refine .bind (keeps_kept hprepare) fun failure => ?_
  cases failure with
  | some _ =>
    exact .bind (keeps_kept (.run rfl)) fun _ => .bind keeps_clearJournal fun _ =>
      .bind (keeps_cleanupStage _) fun _ => .done _
  | none => exact keeps_stoppedTransaction vars

theorem keeps_transaction (mode : Mode) (latest : Version) :
    Keeps (watchedMachine rel) Kept Kept (transaction mode latest) := by
  refine .bind (keeps_kept (.run rfl)) fun _ => .ite (.look fun h => .ite ?_ (.done _)) (.done _)
  refine .bind (keeps_kept (.run rfl)) fun _ => .ite ?_ (.done _)
  refine .ite (.done _) (.ite (.done _) (.ite (.done _) (.look fun h => ?_)))
  exact .bind (keeps_kept (.run rfl)) fun _ => .ite keeps_stagedTransaction (.done _)

/-- **A run keeps the invariant**, however its commands go and wherever it crashes. -/
theorem keeps_upgradeRun (operation : Operation) (latest : Version) :
    Keeps (watchedMachine rel) Kept Kept (upgradeRun operation latest) := by
  refine .bind keeps_recoverInterrupted fun error => ?_
  cases error with
  | some e => exact .done _
  | none =>
    cases operation with
    | update => exact keeps_transaction .update latest
    | reinstall => exact keeps_transaction .reinstall latest
    | install =>
      have hresume : resumeInstallation.Only fun c => c.isMild = true :=
        .bind (.run rfl) fun _ => .ite
          (.bind (.all (by simpa using ⟨.run rfl, .run rfl, .run rfl⟩)) fun _ => trivial) trivial
      refine .bind (keeps_kept hresume) fun error => ?_
      cases error with
      | some e => exact .done _
      | none => exact keeps_transaction .update latest

/-- An event keeps the invariant. -/
theorem Kept.apply (h : Kept w) (event : HostEvent) : Kept (w.apply rel event) := by
  cases event with
  | run operation latest choices =>
    have hrun := exec_of_wp (@keeps_upgradeRun rel operation latest w h) h choices
    rcases hexec : (upgradeRun operation latest).exec (watchedMachine rel) choices w with ⟨_ | e, t⟩
    · rw [Watched.apply, hexec]
      exact hrun.1 t hexec
    · rw [Watched.apply, hexec]
      exact hrun.2 e t hexec
  | panel changes => exact h.commit changes
  | boot started => exact ⟨h.database, h.journal⟩

end Runs

/-- **A settled change is never undone.** From an installation without a journal, after any runs,
crashes, boots and panel changes, every change that was committed while neither the journal nor the
checkpoint recorded a phase after `prepared` is in the database. -/
theorem settled_kept (rel : Version → Release) (host : Host) (hjournal : host.journal = none)
    (events : List HostEvent) :
    let w := events.foldl (Watched.apply rel) ⟨host, []⟩
    ∀ c ∈ w.settled, c ∈ w.host.database.changes := by
  have hstart : Kept ⟨host, []⟩ := by
    refine ⟨by simp, fun j hj => ?_⟩
    rw [hjournal] at hj
    cases hj
  have hall : ∀ events w, Kept w → Kept (List.foldl (Watched.apply rel) w events) := by
    intro events
    induction events with
    | nil => exact fun _ h => h
    | cons event rest ih => exact fun w h => ih _ (h.apply event)
  exact (hall events _ hstart).database

/-- The choices of an update whose panel commits the change `8` right after the new release was
started, and whose health check then fails. -/
def unhealthyChoices : List Choice :=
  List.replicate 57 smooth ++ [⟨.ok, [8]⟩, ⟨.failed, []⟩] ++ List.replicate 40 smooth

/-- A change from before the update survives it. -/
theorem settled_kept_before_update :
    let w := [HostEvent.panel [7], .run .update ⟨0, 2, 0⟩ unhealthyChoices].foldl
      (Watched.apply sampleRelease) ⟨sampleHost, []⟩
    w.settled = [7] ∧ ∀ c ∈ w.settled, c ∈ w.host.database.changes :=
  ⟨by decide +kernel, settled_kept sampleRelease sampleHost rfl _⟩

/-- **A committed change that is undone.** The panel of the new release, which runs, commits a
change; the health check fails, and the rollback restores the archive from before. The operator is
told that the original release was returned. -/
theorem committed_change_undone :
    let started := ((upgradeRun .update ⟨0, 2, 0⟩).exec (hostMachine sampleRelease)
      (unhealthyChoices.take 58) sampleHost).2
    let ended := (upgradeRun .update ⟨0, 2, 0⟩).exec (hostMachine sampleRelease) unhealthyChoices
      sampleHost
    started.running = true ∧ 8 ∈ started.database.changes ∧ ended.1 = some (some .health) ∧
      8 ∉ ended.2.database.changes := by
  decide +kernel

end EzOpenPN.Upgrade
