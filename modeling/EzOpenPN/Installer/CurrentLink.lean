import EzOpenPN.Installer.UpgradeSteps

/-!
# The link to the current release

The command `ezopenpn` loads its libraries through the link `current` (`installer/bin/ezopenpn`):
a host on which the link leads nowhere has no command left to recover with. The directories of the
releases are removed and put in place at three points of `installer/lib/upgrade.sh`, and each of
them is a window: a directory that the link names is first removed and only then replaced by the
one that was built beside it.

* A **reinstall** removes the directory of the release it is about to install, which is the one the
  link names.
* A **rollback** removes the directory of the old release before it puts the saved one there, and
  when the failure came before the switch the link still names it.
* A **recovery** does the same once more, also when the run before it had already switched the link
  back.

A fourth window is in the stage. A failure to remove the journal at the end of a successful update is
not noticed, and the stage is removed all the same; when this removal is interrupted, the journal
names **a stage with a part of the saved release in it**, and the next run puts that part in place.

Everything else is sound: `EzOpenPN.Upgrade.linked_of_runs` says that in runs that never remove the
directory named by the link, and that do not cut short the removal of a stage which the journal still
names, the link leads to a complete release at every moment, whatever fails and wherever they are
interrupted. The argument is that of a *saved release*: what a rollback puts in place was copied
from the directory that the link named.
-/

namespace EzOpenPN.Upgrade

open Script

section Link

variable (rel : Version → Release)

/-- **The link leads to a complete release**: it names a directory that holds all files of some
release. -/
def Linked (h : Host) : Prop :=
  ∃ v w, h.current = some v ∧ h.releases v = some (rel w).tree

/-- The release that was saved in a stage. -/
def Host.savedRelease (h : Host) (s : ℕ) : Option Bytes := (h.stages s).bind Stage.releaseBefore

/-- A release that is saved in a stage is complete. -/
def Saved (h : Host) (s : ℕ) : Prop :=
  ∀ tree, h.savedRelease s = some tree → ∃ w, tree = (rel w).tree

/-- **An installation**: the link leads to a complete release, and a journal, if an interrupted run
left one, names a stage of its own with nothing but a complete release saved in it. -/
structure Installed (h : Host) : Prop where
  linked : Linked rel h
  back : ∀ j, h.journal = some j → j.oldCurrent = j.currentVersion
  saved : ∀ j, h.journal = some j → Saved rel h j.stage
  used : ∀ j, h.journal = some j → j.stage < h.stageCount

/-- **The condition**: a command does not remove the directory that the link names, and the removal of
a stage is not cut short while the journal names the stage. -/
def Cmd.SparesLink (c : Cmd) (o : Outcome) (h : Host) : Prop :=
  match c, o with
  | .removeRelease v, _ => h.current ≠ some v
  | .removeStage s, .torn _ _ => h.journal.map Journal.stage ≠ some s
  | _, _ => True

instance (c : Cmd) (o : Outcome) (h : Host) : Decidable (c.SparesLink o h) := by
  unfold Cmd.SparesLink
  split <;> infer_instance

/-- The host, with a record of whether every command so far met the condition. -/
def linkMachine : Machine Host Cmd Choice (Host × Prop) :=
  (hostMachine rel).watch fun c x h => c.SparesLink x.outcome h

/-- A run of `upgrade_run` that may be interrupted. -/
structure Attempt where
  operation : Operation
  latest : Version
  choices : List Choice

/-- What an attempt leaves. -/
def Attempt.leaves (w : Host × Prop) (a : Attempt) : Host × Prop :=
  ((upgradeRun a.operation a.latest).exec (linkMachine rel) a.choices w).2

end Link

variable {rel : Version → Release} {h t : Host} {vars : UpgradeVars}

/-! ### Commands that do not matter -/

/-- **Nothing of it changes**, except that a journal or a saved release may go. -/
structure Quiet (h t : Host) : Prop where
  current : t.current = h.current
  releases : t.releases = h.releases
  journal : t.journal = none ∨ t.journal = h.journal
  count : t.stageCount = h.stageCount
  saved : ∀ s, t.savedRelease s = none ∨ t.savedRelease s = h.savedRelease s

theorem Quiet.refl (h : Host) : Quiet h h := ⟨rfl, rfl, .inr rfl, rfl, fun _ => .inr rfl⟩

theorem Quiet.commit (hq : Quiet h t) (changes : List Change) : Quiet h (t.commit changes) := by
  rw [Host.commit]
  split
  · exact ⟨hq.current, hq.releases, hq.journal, hq.count, hq.saved⟩
  · exact hq

theorem Quiet.apply (o : Outcome) (hq : Quiet h t) : Quiet h (o.apply t h).2 := by
  rw [Outcome.apply]
  split
  · exact hq
  · exact Quiet.refl h

/-- Writing into a stage without touching the release that is saved there. -/
theorem Quiet.setStage {s : ℕ} {stage stage' : Stage} (hs : h.stages s = some stage)
    (hsaved : stage'.releaseBefore = stage.releaseBefore) : Quiet h (h.setStage s (some stage')) := by
  refine ⟨rfl, rfl, .inr rfl, rfl, fun s' => .inr ?_⟩
  by_cases hss : s' = s
  · subst hss
    simp [Host.savedRelease, Host.setStage, hs, hsaved]
  · simp [Host.savedRelease, Host.setStage, Function.update_of_ne hss]

theorem savedRelease_setStage_of_ne {s s' : ℕ} (hs : s' ≠ s) (stage : Option Stage) :
    (h.setStage s stage).savedRelease s' = h.savedRelease s' := by
  simp [Host.savedRelease, Host.setStage, Function.update_of_ne hs]

/-- Removing a stage. -/
theorem Quiet.dropStage (s : ℕ) : Quiet h (h.setStage s none) := by
  refine ⟨rfl, rfl, .inr rfl, rfl, fun s' => ?_⟩
  by_cases hss : s' = s
  · subst hss
    exact .inl (by simp [Host.savedRelease, Host.setStage])
  · exact .inr (savedRelease_setStage_of_ne hss none)

/-- The commands that change none of it. -/
def Cmd.quiet : Cmd → Bool
  | .makeStage _ | .saveRelease _ _ | .removeStage _ | .replace (.journal _) | .removeRelease _
  | .installRelease _ | .switchCurrent _ | .placeRelease _ _ => false
  | _ => true

theorem quiet_effect {c : Cmd} (hc : c.quiet = true) (o : Outcome) (h : Host) :
    Quiet h (c.effect rel o h).2 := by
  cases c with
  | makeStage | saveRelease | removeStage | removeRelease | installRelease | switchCurrent
  | placeRelease => cases hc
  | service action =>
    cases action with
    | stop => exact .apply o ⟨rfl, rfl, .inr rfl, rfl, fun _ => .inr rfl⟩
    | start =>
      simp only [Cmd.effect]
      split <;> exact ⟨rfl, rfl, .inr rfl, rfl, fun _ => .inr rfl⟩
    | health => exact Quiet.refl h
  | enable =>
    simp only [Cmd.effect]
    split <;> exact ⟨rfl, rfl, .inr rfl, rfl, fun _ => .inr rfl⟩
  | prepare s v =>
    simp only [Cmd.effect]
    split
    · rename_i stage hs
      exact .setStage hs rfl
    · exact Quiet.refl h
  | makeToolDirectory s =>
    simp only [Cmd.effect]
    split
    · rename_i stage hs
      exact .apply o (.setStage hs rfl)
    · exact Quiet.refl h
  | copyTool s tool =>
    simp only [Cmd.effect]
    split
    · rename_i stage content hs _
      split
      · exact .setStage hs rfl
      · exact Quiet.refl h
    · exact Quiet.refl h
  | markTool s tool =>
    simp only [Cmd.effect]
    split
    · rename_i stage hs
      split
      · exact .apply o (.setStage hs rfl)
      · exact Quiet.refl h
    · exact Quiet.refl h
  | replace content =>
    simp only [Cmd.effect]
    split
    · refine .apply o ?_
      cases content with
      | journal j => cases hc
      | _ => exact ⟨rfl, rfl, .inr rfl, rfl, fun _ => .inr rfl⟩
    · exact Quiet.refl h
  | unlinkJournal => exact .apply o ⟨rfl, rfl, .inl rfl, rfl, fun _ => .inr rfl⟩
  | _ =>
    -- a field that is none of these, behind the conditions of the command
    simp only [Cmd.effect]
    repeat' split
    all_goals first
      | exact Quiet.refl h
      | exact .apply o ⟨rfl, rfl, .inr rfl, rfl, fun _ => .inr rfl⟩
      | exact ⟨rfl, rfl, .inr rfl, rfl, fun _ => .inr rfl⟩

theorem quiet_perform {c : Cmd} (hc : c.quiet = true) (x : Choice) (h : Host) :
    Quiet h ((hostMachine rel).perform c x h).2 :=
  (quiet_effect hc x.outcome h).commit x.panel

theorem Quiet.savedRelease_eq (hq : Quiet h t) {s : ℕ} {tree : Bytes}
    (ht : t.savedRelease s = some tree) : h.savedRelease s = some tree := by
  rcases hq.saved s with hnone | hsame
  · rw [hnone] at ht
    cases ht
  · rw [← hsame, ht]

theorem Quiet.journal_eq (hq : Quiet h t) {j : Journal} (ht : t.journal = some j) :
    h.journal = some j := by
  rcases hq.journal with hnone | hsame
  · rw [hnone] at ht
    cases ht
  · rw [← hsame, ht]

theorem Saved.quiet {s : ℕ} (hs : Saved rel h s) (hq : Quiet h t) : Saved rel t s :=
  fun _ htree => hs _ (hq.savedRelease_eq htree)

theorem Linked.of_eq (hl : Linked rel h) (hcurrent : t.current = h.current)
    (hreleases : t.releases = h.releases) : Linked rel t := by
  obtain ⟨v, w, hv, hw⟩ := hl
  exact ⟨v, w, hcurrent.trans hv, (congrFun hreleases v).trans hw⟩

theorem Installed.quiet (hi : Installed rel h) (hq : Quiet h t) : Installed rel t where
  linked := hi.linked.of_eq hq.current hq.releases
  back _ hj := hi.back _ (hq.journal_eq hj)
  saved _ hj := (hi.saved _ (hq.journal_eq hj)).quiet hq
  used _ hj := by
    rw [hq.count]
    exact hi.used _ (hq.journal_eq hj)

/-- A stage may go, and it may go in part if no journal names it. -/
theorem Installed.removeStage {s : ℕ} {o : Outcome} (hi : Installed rel h)
    (hlink : (Cmd.removeStage s).SparesLink o h) :
    Installed rel ((Cmd.removeStage s).effect rel o h).2 := by
  cases o with
  | torn left kept =>
    refine ⟨hi.linked, hi.back, fun j hj tree htree => ?_, hi.used⟩
    -- the stage of the journal is another one, by the condition
    have hj' : h.journal = some j := hj
    have hne : j.stage ≠ s := by
      simpa [Cmd.SparesLink, hj'] using hlink
    have hsame := savedRelease_setStage_of_ne (h := h) hne
      ((h.stages s).map fun stage => stage.remains kept left)
    exact hi.saved j hj' tree (hsame.symm.trans htree)
  | _ => exact hi.quiet (.apply _ (.dropStage s))

/-! ### The directories of the releases -/

/-- **A transaction that can be taken back**: its stage holds nothing but a complete release. -/
structure Held (rel : Version → Release) (vars : UpgradeVars) (h : Host) : Prop where
  installed : Installed rel h
  saved : Saved rel h vars.stage
  used : vars.stage < h.stageCount

theorem Held.quiet (hh : Held rel vars h) (hq : Quiet h t) : Held rel vars t :=
  ⟨hh.installed.quiet hq, hh.saved.quiet hq, by rw [hq.count]; exact hh.used⟩

theorem Held.commit (hh : Held rel vars h) (changes : List Change) :
    Held rel vars (h.commit changes) :=
  hh.quiet ((Quiet.refl h).commit changes)

/-- Whether a transaction can be taken back depends on stages, journal and link only. -/
theorem Held.setRelease {v : Version} {tree : Option Bytes} (hh : Held rel vars h)
    (hl : Linked rel (h.setRelease v tree)) : Held rel vars (h.setRelease v tree) :=
  ⟨⟨hl, hh.installed.back, hh.installed.saved, hh.installed.used⟩, hh.saved, hh.used⟩

/-- A complete directory takes the place of another. -/
theorem Linked.setRelease {v : Version} (hl : Linked rel h) (w : Version) :
    Linked rel (h.setRelease v (some (rel w).tree)) := by
  obtain ⟨v', w', hcurrent, htree⟩ := hl
  by_cases hv : v' = v
  · subst hv
    exact ⟨v', w, hcurrent, by simp [Host.setRelease]⟩
  · exact ⟨v', w', hcurrent, by simpa [Host.setRelease, Function.update_of_ne hv] using htree⟩

/-- A directory that the link does not name may change in any way. -/
theorem Linked.setRelease_of_ne {v : Version} (hl : Linked rel h) (hv : h.current ≠ some v)
    (tree : Option Bytes) : Linked rel (h.setRelease v tree) := by
  obtain ⟨v', w', hcurrent, htree⟩ := hl
  have hne : v' ≠ v := by
    rintro rfl
    exact hv hcurrent
  exact ⟨v', w', hcurrent, by simpa [Host.setRelease, Function.update_of_ne hne] using htree⟩

/-- The commands of a transaction, all but the switch of the link. -/
def Cmd.Own (vars : UpgradeVars) : Cmd → Prop
  | .replace (.journal j) => ∃ phase, j = vars.journal phase
  | .removeRelease _ | .installRelease _ => True
  | .placeRelease s _ => s = vars.stage
  | c => c.quiet = true

theorem Held.effect {c : Cmd} (hvars : vars.oldCurrent = vars.currentVersion)
    (hh : Held rel vars h) (hc : c.Own vars) (o : Outcome) (hlink : c.SparesLink o h) :
    Held rel vars (c.effect rel o h).2 := by
  have happly : ∀ {h'}, Held rel vars h' → Held rel vars (o.apply h' h).2 := by
    intro h' hh'
    rw [Outcome.apply]
    split
    · exact hh'
    · exact hh
  cases c with
  | removeRelease v =>
    exact hh.setRelease (hh.installed.linked.setRelease_of_ne hlink _)
  | installRelease v =>
    simp only [Cmd.effect]
    split
    · exact happly (hh.setRelease (hh.installed.linked.setRelease v))
    · exact hh
  | placeRelease s v =>
    obtain rfl : s = vars.stage := hc
    simp only [Cmd.effect]
    split
    · rename_i tree htree
      obtain ⟨w, rfl⟩ := hh.saved tree htree
      exact happly (hh.setRelease (hh.installed.linked.setRelease w))
    · exact hh
  | replace content =>
    cases content with
    | journal j =>
      obtain ⟨phase, rfl⟩ := hc
      simp only [Cmd.effect]
      split
      · refine happly ⟨⟨hh.installed.linked, ?_, ?_, ?_⟩, hh.saved, hh.used⟩
        -- the journal is the one of this transaction
        · rintro _ ⟨rfl⟩
          exact hvars
        · rintro _ ⟨rfl⟩
          exact hh.saved
        · rintro _ ⟨rfl⟩
          exact hh.used
      · exact hh
    | _ => exact hh.quiet (quiet_effect hc o h)
  | _ => exact hh.quiet (quiet_effect hc o h)

theorem Held.perform {c : Cmd} (hvars : vars.oldCurrent = vars.currentVersion)
    (hh : Held rel vars h) (hc : c.Own vars) (x : Choice) (hlink : c.SparesLink x.outcome h) :
    Held rel vars ((hostMachine rel).perform c x h).2 :=
  (hh.effect hvars hc x.outcome hlink).commit x.panel

/-- The link is switched to a complete release. -/
theorem Held.switchCurrent {v : Version} (hh : Held rel vars h)
    (hv : ∃ w, h.releases v = some (rel w).tree) (x : Choice) :
    Held rel vars ((hostMachine rel).perform (.switchCurrent v) x h).2 := by
  refine Held.commit ?_ x.panel
  simp only [Cmd.effect, Outcome.apply]
  split
  · obtain ⟨w, hw⟩ := hv
    exact ⟨⟨⟨v, w, rfl, hw⟩, hh.installed.back, hh.installed.saved, hh.installed.used⟩, hh.saved,
      hh.used⟩
  · exact hh

/-! ### Scripts -/

/-- Commands that do not matter keep whatever the rest depends on. -/
theorem keeps_of_quiet {α : Type} {p : Shell α} {J : Host → Prop}
    (hJ : ∀ h t, Quiet h t → J h → J t) (hinstalled : ∀ h, J h → Installed rel h)
    (hp : p.Only fun c => c.quiet = true) :
    Keeps (linkMachine rel) (Given (Installed rel)) (Given J) p := by
  have hkeeps : Keeps (linkMachine rel) (Given J) (Given J) p :=
    hp.keeps_watch fun _ hc h x _ hh => hJ _ _ (quiet_perform hc x h) hh
  exact fun w hw => wp_mono (hkeeps w hw) (fun t ht hmet => hinstalled _ (ht hmet)) fun _ _ ht => ht

theorem keeps_quiet {α : Type} {p : Shell α} (hp : p.Only fun c => c.quiet = true) :
    Keeps (linkMachine rel) (Given (Installed rel)) (Given (Installed rel)) p :=
  keeps_of_quiet (fun _ _ hq hi => hi.quiet hq) (fun _ h => h) hp

theorem keeps_own {α : Type} {p : Shell α} (hvars : vars.oldCurrent = vars.currentVersion)
    (hp : p.Only (Cmd.Own vars)) :
    Keeps (linkMachine rel) (Given (Installed rel)) (Given (Held rel vars)) p := by
  have hkeeps : Keeps (linkMachine rel) (Given (Held rel vars)) (Given (Held rel vars)) p :=
    hp.keeps_watch fun _ hc _ x hlink hh => hh.perform hvars hc x hlink
  exact fun w hw => wp_mono (hkeeps w hw) (fun _ ht hmet => (ht hmet).installed) fun _ _ ht => ht

/-- The switch of the link, before a part of a script that does not touch it. -/
theorem wp_switchCurrent_of {v : Version} {w : Host × Prop} {Q : Bool → Host × Prop → Prop}
    (hw : Given (Held rel vars) w) (hv : w.2 → ∃ u, w.1.releases v = some (rel u).tree)
    (hQ : ∀ ok t, Given (Held rel vars) t → Q ok t) :
    wp (linkMachine rel) (Given (Installed rel)) (run (.switchCurrent v)) Q w := by
  intro x
  have hheld : Given (Held rel vars) ((linkMachine rel).perform (.switchCurrent v) x w).2 :=
    fun hmet => (hw hmet.1).switchCurrent (hv hmet.1) x
  exact ⟨fun hmet => (hheld hmet).installed, hQ _ _ hheld⟩

theorem keeps_clearJournal_link :
    Keeps (linkMachine rel) (Given (Installed rel)) (Given (Installed rel)) clearJournal :=
  keeps_quiet (only_clearJournal rfl rfl)

theorem keeps_cleanupStage_link (s : ℕ) :
    Keeps (linkMachine rel) (Given (Installed rel)) (Given (Installed rel)) (cleanupStage s) := by
  have honly : (cleanupStage s).Only fun c => c = .removeStage s := only_cleanupStage rfl
  refine honly.keeps_watch fun c hc h x hlink hi => ?_
  subst hc
  exact (hi.removeStage hlink).quiet ((Quiet.refl _).commit x.panel)

theorem keeps_resumeStack_link :
    Keeps (linkMachine rel) (Given (Installed rel)) (Given (Installed rel)) resumeStack :=
  keeps_quiet (.all (by simpa using ⟨.run rfl, .run rfl⟩))

/-- **A rollback keeps the link**: what it puts in place is the release that was saved. -/
theorem keeps_rollbackSteps (hvars : vars.oldCurrent = vars.currentVersion) :
    Keeps (linkMachine rel) (Given (Installed rel)) (Given (Held rel vars)) (rollbackSteps vars) := by
  intro w hw
  rw [rollbackSteps, wp_all_cons]
  have hstop : (serviceCommand .stop).Only (Cmd.Own vars) := .run rfl
  refine wp_mono (keeps_own hvars hstop w hw) (fun _ h => h) ?_
  refine fun ok t ht => ⟨fun _ => ?_, fun _ => ht⟩
  have hrestored := wp_with_same [.stages] (@wp_restoreCurrentRelease rel vars t.1)
    (by decide) (only_restoreCurrentRelease rfl rfl rfl)
  rw [wp_all_cons]
  refine wp_mono (wp_and (keeps_own hvars (only_restoreCurrentRelease rfl trivial rfl) t ht)
    (wp_watch hrestored)) (fun _ h => h.1) ?_
  rintro ok u ⟨hu, hplaced⟩
  refine ⟨fun hok => ?_, fun _ => hu⟩
  -- the directory that was placed is the one that is still in the stage
  have hcomplete : u.2 → ∃ v, u.1.releases vars.oldCurrent = some (rel v).tree := by
    intro hmet
    obtain ⟨⟨stage, tree, hstage, htree, hrelease⟩, hsame⟩ := hplaced hok
    have hstages : u.1.stages = t.1.stages := hsame .stages (by decide)
    obtain ⟨v, rfl⟩ := (hu hmet).saved tree (by rw [Host.savedRelease, hstages, hstage]; exact htree)
    exact ⟨v, by rw [hvars]; exact hrelease⟩
  rw [wp_all_cons]
  refine wp_switchCurrent_of hu hcomplete fun ok v hv => ⟨fun _ => ?_, fun _ => hv⟩
  have hrest : (all [restoreHostTools vars.stage, writeStateVersion vars.currentVersion,
      restorePreimage vars.preimage, serviceCommand .start, serviceCommand .health]).Only
      (Cmd.Own vars) := by
    refine .all ?_
    simp only [List.forall_mem_cons, List.not_mem_nil, false_implies, implies_true, and_true]
    exact ⟨only_restoreHostTools (fun _ => rfl) (fun _ => rfl) rfl,
      only_atomicWrite rfl rfl rfl rfl,
      only_restorePreimage (fun _ => rfl) (fun _ _ => rfl) (fun _ _ => rfl) fun _ => rfl,
      .run rfl, .run rfl⟩
  exact keeps_own hvars hrest v hv

theorem wp_rollback_link {w : Host × Prop} (hvars : vars.oldCurrent = vars.currentVersion)
    (hw : Given (Held rel vars) w) :
    wp (linkMachine rel) (Given (Installed rel)) (rollback vars)
      (fun _ => Given (Installed rel)) w := by
  rw [rollback, wp_bind]
  refine wp_mono (keeps_rollbackSteps hvars w hw) (fun _ h => h) fun ok t ht => ?_
  refine Keeps.ite ?_ (.done _) t fun hmet => (ht hmet).installed
  exact .bind (keeps_quiet (.run rfl)) fun _ => .bind keeps_clearJournal_link fun _ => .done _

theorem keeps_recoverInterrupted_link :
    Keeps (linkMachine rel) (Given (Installed rel)) (Given (Installed rel)) recoverInterrupted := by
  intro w hw
  have hobs : (linkMachine rel).obs w = w.1 := rfl
  rw [recoverInterrupted, wp_look, hobs]
  cases hjournal : w.1.journal with
  | none => exact hw
  | some j =>
    dsimp only
    cases hread : readJournal w.1 j with
    | none => exact hw
    | some vars =>
      have hvars := (eq_of_readJournal hread).1
      change wp _ _ (recoverFrom vars j.phase) _ _
      rw [recoverFrom]
      split
      · refine Keeps.bind keeps_resumeStack_link (fun ok => .ite ?_ (.done _)) w hw
        exact .bind keeps_clearJournal_link fun _ =>
          .bind (keeps_cleanupStage_link _) fun _ => .done _
      · -- the journal says where the saved release is
        by_cases hmet : w.2
        · have hback : vars.oldCurrent = vars.currentVersion := by
            rw [hvars]
            exact (hw hmet).back j hjournal
          have hheld : Held rel vars w.1 := by
            refine ⟨hw hmet, ?_, ?_⟩
            · rw [hvars]
              exact (hw hmet).saved j hjournal
            · rw [hvars]
              exact (hw hmet).used j hjournal
          rw [wp_bind]
          refine wp_mono (wp_rollback_link hback fun _ => hheld) (fun _ h => h) fun ok t ht => ?_
          exact Keeps.ite (.bind (keeps_cleanupStage_link _) fun _ => .done _) (.done _) t ht
        · exact wp_watch_unmet hmet (fun _ h hm => (h hm).elim) fun _ _ h hm => (h hm).elim

/-! ### The transaction -/

/-- **While a release is prepared**, the link names the release that is going to be saved, and no
journal names the stage. -/
structure Preparing (rel : Version → Release) (vars : UpgradeVars) (h : Host) : Prop where
  installed : Installed rel h
  current : h.current = some vars.oldCurrent
  used : vars.stage < h.stageCount
  mine : ∀ j, h.journal = some j → j.stage ≠ vars.stage

theorem Preparing.quiet (hp : Preparing rel vars h) (hq : Quiet h t) : Preparing rel vars t where
  installed := hp.installed.quiet hq
  current := hq.current.trans hp.current
  used := by
    rw [hq.count]
    exact hp.used
  mine _ hj := hp.mine _ (hq.journal_eq hj)

/-- **The saved release is the one that the link names.** -/
theorem wp_saveRelease {w : Host × Prop} (hw : Given (Preparing rel vars) w) :
    wp (linkMachine rel) (Given (Installed rel)) (run (.saveRelease vars.stage vars.oldCurrent))
      (fun ok t => (ok = true → Given (Held rel vars) t) ∧ Given (Installed rel) t) w := by
  intro x
  have hsaved : w.2 → Installed rel ((Cmd.saveRelease vars.stage vars.oldCurrent).effect rel x.outcome w.1).2 ∧
      (((Cmd.saveRelease vars.stage vars.oldCurrent).effect rel x.outcome w.1).1 = true →
        Held rel vars ((Cmd.saveRelease vars.stage vars.oldCurrent).effect rel x.outcome w.1).2) := by
    intro hmet
    have hp := hw hmet
    have hi := hp.installed
    simp only [Cmd.effect]
    split
    · rename_i stage tree hstage htree
      -- a journal names another stage
      have hinstalled : ∀ stage', Installed rel (w.1.setStage vars.stage stage') := by
        refine fun stage' => ⟨hi.linked, hi.back, fun j hj tree' htree' => ?_, hi.used⟩
        rw [savedRelease_setStage_of_ne (hp.mine j hj)] at htree'
        exact hi.saved j hj tree' htree'
      refine ⟨hinstalled _, fun hok => ⟨hinstalled _, fun tree' htree' => ?_, hp.used⟩⟩
      have hcopied : tree' = tree := by
        cases ho : x.outcome with
        | ok =>
          rw [ho] at htree'
          simpa [Host.savedRelease, Host.setStage, Outcome.leaves] using htree'.symm
        | _ => simp [ho, Outcome.status] at hok
      obtain ⟨v, u, hv, hu⟩ := hi.linked
      rw [Option.some.inj (hv.symm.trans hp.current), htree] at hu
      exact ⟨u, hcopied.trans (Option.some.inj hu)⟩
    · exact ⟨hi, by simp⟩
  have hcommit : ∀ {t : Host}, Installed rel t → Installed rel (t.commit x.panel) :=
    fun ht => ht.quiet ((Quiet.refl _).commit _)
  exact ⟨fun hmet => hcommit (hsaved hmet.1).1,
    fun hok hmet => ((hsaved hmet.1).2 hok).commit x.panel, fun hmet => hcommit (hsaved hmet.1).1⟩

theorem only_writeJournal_own (phase : Phase) : (writeJournal vars phase).Only (Cmd.Own vars) :=
  only_writeJournal (fun _ => rfl) (fun _ => rfl) (fun _ => rfl) ⟨phase, rfl⟩ rfl

theorem wp_prepareRelease {w : Host × Prop} (hvars : vars.oldCurrent = vars.currentVersion)
    (hw : Given (Preparing rel vars) w) :
    wp (linkMachine rel) (Given (Installed rel)) (prepareRelease vars)
      (fun e t => (e = none → Given (Held rel vars) t) ∧ Given (Installed rel) t) w := by
  have hquiet : ∀ {p : Shell Bool}, p.Only (fun c => c.quiet = true) →
      Keeps (linkMachine rel) (Given (Installed rel)) (Given (Preparing rel vars)) p := fun hp =>
    keeps_of_quiet (fun _ _ hq hh => hh.quiet hq) (fun _ hh => hh.installed) hp
  have hfailed : ∀ {t : Host × Prop}, Given (Preparing rel vars) t → Given (Installed rel) t :=
    fun ht hmet => (ht hmet).installed
  rw [prepareRelease, wp_firstFailure_cons]
  refine wp_mono (hquiet (.run rfl) w hw) (fun _ h => h) ?_
  refine fun ok t ht => ⟨fun _ => ?_, fun _ => ⟨nofun, hfailed ht⟩⟩
  rw [wp_firstFailure_cons]
  refine wp_mono (hquiet (.run rfl) t ht) (fun _ h => h) ?_
  refine fun ok t ht => ⟨fun _ => ?_, fun _ => ⟨nofun, hfailed ht⟩⟩
  rw [wp_firstFailure_cons]
  refine wp_mono (hquiet (only_saveHostTools rfl (fun _ => rfl) fun _ => rfl) t ht) (fun _ h => h) ?_
  refine fun ok t ht => ⟨fun _ => ?_, fun _ => ⟨nofun, hfailed ht⟩⟩
  rw [wp_firstFailure_cons]
  refine wp_mono (wp_saveRelease ht) (fun _ h => h) ?_
  refine fun ok t ht => ⟨fun hok => ?_, fun _ => ⟨nofun, ht.2⟩⟩
  rw [wp_firstFailure_cons]
  refine wp_mono (keeps_own hvars (only_writeJournal_own .prepared) t (ht.1 hok)) (fun _ h => h) ?_
  exact fun ok t ht => ⟨fun _ => ⟨fun _ => ht, fun hmet => (ht hmet).installed⟩,
    fun _ => ⟨nofun, fun hmet => (ht hmet).installed⟩⟩

theorem wp_takePreimage_link {w : Host × Prop} (hvars : vars.oldCurrent = vars.currentVersion)
    (hw : Given (Held rel vars) w) :
    wp (linkMachine rel) (Given (Installed rel)) (takePreimage vars)
      (fun result t => (∃ preimage, result.2 = { vars with preimage := preimage }) ∧
        Given (Held rel vars) t) w := by
  have hstop : (serviceCommand .stop).Only (Cmd.Own vars) := .run rfl
  have hcreate : (run .createPreimage : Shell Bool).Only (Cmd.Own vars) := .run rfl
  rw [takePreimage, wp_bind]
  refine wp_mono (keeps_own hvars hstop w hw) (fun _ h => h) fun ok t ht => ?_
  refine wp_ite.mpr ⟨fun _ => ?_, fun _ => ⟨⟨_, rfl⟩, ht⟩⟩
  rw [wp_bind]
  refine wp_mono (keeps_own hvars hcreate t ht) (fun _ h => h) fun ok t ht => ?_
  refine wp_ite.mpr ⟨fun _ => ?_, fun _ => ⟨⟨_, rfl⟩, ht⟩⟩
  rw [wp_look, wp_bind]
  -- the journal names the archive and is otherwise the same
  let vars' : UpgradeVars := { vars with preimage := some (t.1.archives.length - 1) }
  have hheld : Given (Held rel vars') t :=
    fun hmet => ⟨(ht hmet).installed, (ht hmet).saved, (ht hmet).used⟩
  have hvars' : vars'.oldCurrent = vars'.currentVersion := hvars
  refine wp_mono (keeps_own hvars' (only_writeJournal_own .switching) t hheld) (fun _ h => h) ?_
  exact fun ok u hu => ⟨⟨_, rfl⟩, fun hmet => ⟨(hu hmet).installed, (hu hmet).saved, (hu hmet).used⟩⟩

/-- **The switch keeps the link**: it is switched once the directory is complete. -/
theorem keeps_switchRelease (hvars : vars.oldCurrent = vars.currentVersion) :
    Keeps (linkMachine rel) (Given (Installed rel)) (Given (Held rel vars)) (switchRelease vars) := by
  intro w hw
  have hrest : ∀ {ps : List (Failure × Shell Bool)}, (∀ p ∈ ps, p.2.Only (Cmd.Own vars)) →
      Keeps (linkMachine rel) (Given (Installed rel)) (Given (Held rel vars)) (firstFailure ps) :=
    fun hp => keeps_own hvars (.firstFailure hp)
  have hremove : (removeRelease vars.targetVersion).Only (Cmd.Own vars) := only_removeRelease trivial
  rw [switchRelease, wp_firstFailure_cons]
  refine wp_mono (keeps_own hvars hremove w hw) (fun _ h => h) fun ok t ht => ⟨fun _ => ?_, fun _ => ht⟩
  rw [wp_firstFailure_cons, installReleaseFiles, wp_all_cons]
  intro x
  have hinstalled : Given (Held rel vars)
      ((linkMachine rel).perform (.installRelease vars.targetVersion) x t).2 :=
    fun hmet => (ht hmet.1).perform (c := .installRelease _) hvars trivial x hmet.2
  refine ⟨fun hmet => (hinstalled hmet).installed, fun hok => ?_, fun _ => ⟨nofun, fun _ => hinstalled⟩⟩
  have hcomplete : ∃ u, ((linkMachine rel).perform (.installRelease vars.targetVersion) x t).2.1.releases
      vars.targetVersion = some (rel u).tree :=
    ⟨vars.targetVersion, releases_of_installRelease hok⟩
  rw [wp_all_cons]
  refine wp_switchCurrent_of hinstalled (fun _ => hcomplete) fun ok u hu => ⟨fun _ => ⟨fun _ => ?_, nofun⟩,
    fun _ => ⟨nofun, fun _ => hu⟩⟩
  refine hrest ?_ u hu
  simp only [List.forall_mem_cons, List.not_mem_nil, false_implies, implies_true, and_true]
  refine ⟨?_, ?_, only_writeJournal_own _, .run rfl, only_writeJournal_own _, .run rfl, .run rfl,
    only_writeJournal_own _, only_atomicWrite rfl rfl rfl rfl⟩
  · refine .all ?_
    simp only [List.forall_mem_cons, List.not_mem_nil, false_implies, implies_true, and_true]
    exact ⟨.run rfl, .run rfl, .run rfl, .run rfl, .run rfl, .run rfl⟩
  · exact .all (by simpa using ⟨.run rfl, .run rfl, .run rfl⟩)

theorem keeps_stoppedTransaction_link (hvars : vars.oldCurrent = vars.currentVersion)
    {w : Host × Prop} (hw : Given (Held rel vars) w) :
    wp (linkMachine rel) (Given (Installed rel)) (stoppedTransaction vars)
      (fun _ => Given (Installed rel)) w := by
  rw [stoppedTransaction, wp_bind]
  refine wp_mono (wp_takePreimage_link hvars hw) (fun _ h => h) ?_
  rintro ⟨failure, _⟩ t ⟨⟨preimage, rfl⟩, ht⟩
  have hinstalled : Given (Installed rel) t := fun hmet => (ht hmet).installed
  cases failure with
  | some _ =>
    refine Keeps.bind keeps_resumeStack_link (fun ok => .ite ?_ (.done _)) t hinstalled
    exact .bind (keeps_quiet (.run rfl)) fun _ => .bind keeps_clearJournal_link fun _ =>
      .bind (keeps_cleanupStage_link _) fun _ => .done _
  | none =>
    let vars' : UpgradeVars := { vars with preimage := preimage }
    have hheld : Given (Held rel vars') t :=
      fun hmet => ⟨(ht hmet).installed, (ht hmet).saved, (ht hmet).used⟩
    have hvars' : vars'.oldCurrent = vars'.currentVersion := hvars
    change wp _ _ (Script.bind (switchRelease vars') _) _ _
    rw [wp_bind]
    refine wp_mono (keeps_switchRelease hvars' t hheld) (fun _ h => h) fun failure u hu => ?_
    cases failure with
    | some _ =>
      change wp _ _ (returnOld vars') _ _
      rw [returnOld, wp_bind]
      refine wp_mono (wp_rollback_link hvars' hu) (fun _ h => h) fun ok v hv => ?_
      exact Keeps.ite (.bind (keeps_cleanupStage_link _) fun _ => .done _) (.done _) v hv
    | none =>
      refine Keeps.bind keeps_clearJournal_link (fun _ => ?_) u fun hmet => (hu hmet).installed
      exact .bind (keeps_cleanupStage_link _) fun _ => .done _

theorem wp_stagedTransaction_link (hvars : vars.oldCurrent = vars.currentVersion)
    {w : Host × Prop} (hw : Given (Preparing rel vars) w) :
    wp (linkMachine rel) (Given (Installed rel)) (stagedTransaction vars)
      (fun _ => Given (Installed rel)) w := by
  rw [stagedTransaction, wp_bind]
  refine wp_mono (wp_prepareRelease hvars hw) (fun _ h => h) ?_
  rintro failure t ⟨hheld, ht⟩
  cases failure with
  | some _ =>
    refine Keeps.bind (keeps_quiet (.run rfl)) (fun _ => .bind keeps_clearJournal_link fun _ => ?_) t ht
    exact .bind (keeps_cleanupStage_link _) fun _ => .done _
  | none => exact keeps_stoppedTransaction_link hvars (hheld rfl)

/-- A new stage is not the one of a journal. -/
theorem wp_makeStage {current : Version} {w : Host × Prop}
    (hw : Given (fun h => Installed rel h ∧ h.current = some current) w)
    (hstage : vars.stage = w.1.stageCount) (hold : vars.oldCurrent = current) :
    wp (linkMachine rel) (Given (Installed rel)) (run (.makeStage vars.stage))
      (fun ok t => (ok = true → Given (Preparing rel vars) t) ∧ Given (Installed rel) t) w := by
  intro x
  have hmade : w.2 → Preparing rel vars
      { w.1.setStage vars.stage (some .empty) with stageCount := vars.stage + 1 } := by
    intro hmet
    obtain ⟨hi, hcurrent⟩ := hw hmet
    have hmine : ∀ j, w.1.journal = some j → j.stage ≠ vars.stage := by
      intro j hj
      have := hi.used j hj
      omega
    refine ⟨⟨hi.linked, hi.back, fun j hj tree htree => ?_, fun j hj => ?_⟩, ?_, ?_, hmine⟩
    · have hsame := savedRelease_setStage_of_ne (h := w.1) (hmine j hj) (some .empty)
      exact hi.saved j hj tree (hsame.symm.trans htree)
    · have := hi.used j hj
      change j.stage < vars.stage + 1
      omega
    · rw [hold]
      exact hcurrent
    · exact Nat.lt_succ_self _
  have heffect : w.2 → Installed rel ((Cmd.makeStage vars.stage).effect rel x.outcome w.1).2 := by
    intro hmet
    simp only [Cmd.effect, Outcome.apply]
    split
    · exact (hmade hmet).installed
    · exact (hw hmet).1
  refine ⟨fun hmet => (heffect hmet.1).quiet ((Quiet.refl _).commit _), fun hok hmet => ?_,
    fun hmet => (heffect hmet.1).quiet ((Quiet.refl _).commit _)⟩
  have hdone : ((linkMachine rel).perform (.makeStage vars.stage) x w).2.1 =
      Host.commit { w.1.setStage vars.stage (some .empty) with stageCount := vars.stage + 1 }
        x.panel :=
    congrArg (Host.commit · x.panel) (Outcome.apply_of_status hok)
  rw [hdone]
  exact (hmade hmet.1).quiet ((Quiet.refl _).commit _)

theorem keeps_transaction_link (mode : Mode) (latest : Version) :
    Keeps (linkMachine rel) (Given (Installed rel)) (Given (Installed rel))
      (transaction mode latest) := by
  refine .bind (keeps_quiet (.run rfl)) fun _ => .ite (fun w hw => ?_) (.done _)
  rw [wp_look, wp_ite]
  refine ⟨fun hcurrent => ?_, fun _ => hw⟩
  have hstart : Given (fun h => Installed rel h ∧ h.current = some w.1.version) w :=
    fun hmet => ⟨hw hmet, hcurrent⟩
  have hfetch : Keeps (linkMachine rel) (Given (Installed rel))
      (Given fun h => Installed rel h ∧ h.current = some w.1.version) (run .fetch) :=
    keeps_of_quiet (fun _ _ hq hh => ⟨hh.1.quiet hq, hq.current.trans hh.2⟩) (fun _ hh => hh.1)
      (.run rfl)
  rw [wp_bind]
  refine wp_mono (hfetch w hstart) (fun _ h => h) fun ok t ht => ?_
  have hinstalled : Given (Installed rel) t := fun hmet => (ht hmet).1
  refine wp_ite.mpr ⟨fun _ => ?_, fun _ => hinstalled⟩
  refine wp_ite.mpr ⟨fun _ => hinstalled, fun _ => wp_ite.mpr ⟨fun _ => hinstalled, fun _ => ?_⟩⟩
  refine wp_ite.mpr ⟨fun _ => hinstalled, fun _ => ?_⟩
  rw [wp_look, wp_bind]
  let vars : UpgradeVars := ⟨w.1.version, if mode = .reinstall then w.1.version else latest,
    w.1.version, none, t.1.stageCount⟩
  have hmade := @wp_makeStage rel vars w.1.version t ht rfl rfl
  refine wp_mono hmade (fun _ h => h) fun ok u hu => ?_
  exact wp_ite.mpr ⟨fun hok => wp_stagedTransaction_link rfl (hu.1 hok), fun _ => hu.2⟩

/-- **A run keeps the link**, whatever fails in it and wherever it is interrupted. -/
theorem keeps_upgradeRun_link (operation : Operation) (latest : Version) :
    Keeps (linkMachine rel) (Given (Installed rel)) (Given (Installed rel))
      (upgradeRun operation latest) := by
  refine .bind keeps_recoverInterrupted_link fun error => ?_
  cases error with
  | some e => exact .done _
  | none =>
    cases operation with
    | update => exact keeps_transaction_link .update latest
    | reinstall => exact keeps_transaction_link .reinstall latest
    | install =>
      have hresume : resumeInstallation.Only fun c => c.quiet = true :=
        .bind (.run rfl) fun _ => .ite
          (.bind (.all (by simpa using ⟨.run rfl, .run rfl, .run rfl⟩)) fun _ => trivial) trivial
      refine .bind (keeps_quiet hresume) fun error => ?_
      cases error with
      | some e => exact .done _
      | none => exact keeps_transaction_link .update latest

theorem given_leaves {w : Host × Prop} (hw : Given (Installed rel) w) (a : Attempt) :
    Given (Installed rel) (a.leaves rel w) := by
  have hrun := exec_of_wp (@keeps_upgradeRun_link rel a.operation a.latest w hw) hw a.choices
  rcases hexec : (upgradeRun a.operation a.latest).exec (linkMachine rel) a.choices w with ⟨_ | e, t⟩
  · rw [Attempt.leaves, hexec]
    exact hrun.1 t hexec
  · rw [Attempt.leaves, hexec]
    exact hrun.2 e t hexec

/-- **The link leads to a complete release at every moment** of any runs in which no command removes
the directory that it names, and no stage is removed in part while the journal names it. The runs may
go wrong at any command and stop after any command, and each starts from what the one before it
left. -/
theorem linked_of_runs (rel : Version → Release) (start : Host) (hstart : Installed rel start)
    (attempts : List Attempt)
    (hspared : (attempts.foldl (Attempt.leaves rel) (start, True)).2) :
    Linked rel (attempts.foldl (Attempt.leaves rel) (start, True)).1 := by
  have hall : ∀ attempts w, Given (Installed rel) w →
      Given (Installed rel) (List.foldl (Attempt.leaves rel) w attempts) := by
    intro attempts
    induction attempts with
    | nil => exact fun _ h => h
    | cons a rest ih => exact fun w hw => ih _ (given_leaves hw a)
  exact (hall attempts (start, True) (fun _ => hstart) hspared).linked

/-- An update of the sample host in which everything goes well. -/
def smoothUpdate : Attempt := ⟨.update, ⟨0, 2, 0⟩, List.replicate 74 smooth⟩

/-- An update that goes well never removes the directory of the link. -/
theorem linked_of_smooth_update :
    (smoothUpdate.leaves sampleRelease (sampleHost, True)).2 ∧
      Linked sampleRelease (smoothUpdate.leaves sampleRelease (sampleHost, True)).1 := by
  have hstart : Installed sampleRelease sampleHost :=
    ⟨⟨⟨0, 1, 0⟩, ⟨0, 1, 0⟩, rfl, rfl⟩, nofun, nofun, nofun⟩
  have hspared : (smoothUpdate.leaves sampleRelease (sampleHost, True)).2 := by
    rw [Attempt.leaves, linkMachine, exec_watch_met]
    exact ⟨trivial, by decide +kernel⟩
  exact ⟨hspared, linked_of_runs sampleRelease sampleHost hstart [smoothUpdate] hspared⟩

/-- **The link is broken** by a reinstall that is interrupted right after it removed the directory that
the link names, and by an update whose new release cannot be installed, while it is rolled back. And
it is led to a part of a release by an update that cannot remove the journal and is interrupted while it
removes the stage, once the next run takes it back. -/
theorem link_broken :
    let reinstall := ((upgradeRun .reinstall ⟨0, 1, 0⟩).exec (hostMachine sampleRelease)
      (List.replicate 30 smooth) sampleHost).2
    let rollback := ((upgradeRun .update ⟨0, 2, 0⟩).exec (hostMachine sampleRelease)
      (List.replicate 29 smooth ++ [⟨.failed, []⟩] ++ List.replicate 3 smooth) sampleHost).2
    let updated := ((upgradeRun .update ⟨0, 2, 0⟩).exec (hostMachine sampleRelease)
      (List.replicate 71 smooth ++ [⟨.failed, []⟩, smooth, ⟨.torn (some []), []⟩]) sampleHost).2
    let misplaced := ((upgradeRun .update ⟨0, 2, 0⟩).exec (hostMachine sampleRelease)
      (List.replicate 5 smooth) updated).2
    Linked sampleRelease sampleHost ∧
      (reinstall.current = some ⟨0, 1, 0⟩ ∧ reinstall.releases ⟨0, 1, 0⟩ = none ∧
        ¬Linked sampleRelease reinstall) ∧
      (rollback.current = some ⟨0, 1, 0⟩ ∧ rollback.releases ⟨0, 1, 0⟩ = none ∧
        ¬Linked sampleRelease rollback) ∧
      (updated.current = some ⟨0, 2, 0⟩ ∧ misplaced.current = some ⟨0, 1, 0⟩ ∧
        misplaced.releases ⟨0, 1, 0⟩ = some [] ∧ ¬Linked sampleRelease misplaced) := by
  have hbroken : ∀ h : Host, h.current = some ⟨0, 1, 0⟩ →
      (h.releases ⟨0, 1, 0⟩ = none ∨ h.releases ⟨0, 1, 0⟩ = some []) → ¬Linked sampleRelease h := by
    rintro h hcurrent hreleases ⟨v, w, hv, hw⟩
    rw [Option.some.inj (hv.symm.trans hcurrent)] at hw
    rcases hreleases with hnone | hpart
    · rw [hnone] at hw
      cases hw
    · -- a release of the sample has something in it
      rw [hpart] at hw
      cases hw
  refine ⟨⟨⟨0, 1, 0⟩, ⟨0, 1, 0⟩, rfl, rfl⟩, ⟨?_, ?_, hbroken _ ?_ (.inl ?_)⟩,
    ⟨?_, ?_, hbroken _ ?_ (.inl ?_)⟩, ?_, ?_, ?_, hbroken _ ?_ (.inr ?_)⟩
  all_goals decide +kernel

end EzOpenPN.Upgrade
