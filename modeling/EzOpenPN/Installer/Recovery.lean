import EzOpenPN.Installer.CurrentLink
import EzOpenPN.Installer.WriteAhead
import EzOpenPN.Lib.Interruption

/-!
# What a later run makes of a crash

`docs/recovery.md` tells the operator of an interrupted upgrade to repeat the command: *the journal
restores the previous transaction or finishes the current one*. This file follows any number of
runs of `upgrade_run` of which each may be cut short anywhere, also inside of a command, and the
run after them in which everything goes well.

Two crashes are beyond repair. `_upgrade_clear_journal` removes the journal **before** the
checkpoint, and a crash between the two leaves a checkpoint without a journal, which
`_upgrade_recover_interrupted` takes for the checkpoint of another operation: every later run ends
in `E_UPGRADE_CHECKPOINT`. The same state is reached by a crash in a transaction that could not
write its journal, because an earlier crash had left `upgrade-transaction.json.tmp` in its way. And
a crash inside of `_upgrade_write_state_version` leaves `install.json.upgrade`, which is created
exclusively and never removed: every rollback fails on it, so every later run ends in
`E_UPGRADE_RECOVERY`.

Here is what a crash may leave otherwise (`EzOpenPN.Upgrade.Safe`), and that a rollback and a
recovery go on from it; `EzOpenPN.Installer.Crashes` follows whole runs.
-/

namespace EzOpenPN.Upgrade

open Script

/-! ### Crashes -/

/-- The commands that are other programs: they can fail while the script goes on. -/
def Cmd.external : Cmd → Bool
  | .service _ | .preflight | .fetch | .pull | .firewall | .enable | .daemonReload | .recordFailure
  | .migrate _ | .prepare _ _ | .createPreimage | .extract _ => true
  | _ => false

/-- **A crash inside of a command**: a command on files that does not go well. In a `smooth` run the
other programs succeed too. -/
def Cmd.Fatal (smooth : Bool) (c : Cmd) (x : Choice) : Prop :=
  x.outcome ≠ .ok ∧ (smooth = true ∨ c.external = false)

instance (smooth : Bool) (c : Cmd) (x : Choice) : Decidable (c.Fatal smooth x) := by
  unfold Cmd.Fatal
  infer_instance

/-- **The host that an attempt leaves**, when a command on files that does not go well is where it
was cut short. -/
def Attempt.host (rel : Version → Release) (h : Host) (a : Attempt) : Host :=
  ((upgradeRun a.operation a.latest).exec ((hostMachine rel).mortal (Cmd.Fatal false)) a.choices
    (h, true)).2.1

/-- **No later run gets on from here**: a checkpoint without a journal, or a journal that asks for a
rollback beside a temporary file that is in its way. -/
def Stuck (h : Host) : Prop :=
  (h.journal.isNone = true ∧ h.checkpoint.isSome = true) ∨
    (h.tmp .state = true ∧ h.journal.any (fun j => decide (j.phase ≠ .prepared)) = true)

instance (h : Host) : Decidable (Stuck h) := by
  unfold Stuck
  infer_instance

/-- **No attempt leaves such a host.** -/
def Spared (rel : Version → Release) : List Attempt → Host → Prop
  | [], _ => True
  | a :: attempts, h => ¬Stuck (a.host rel h) ∧ Spared rel attempts (a.host rel h)

/-- **A consistent installation**: everything belongs to one release, and nothing is left of an
operation. -/
structure Consistent (rel : Version → Release) (v : Version) (h : Host) : Prop where
  release : OneRelease rel v h
  journal : h.journal = none
  checkpoint : h.checkpoint = none
  tmp : ∀ m, h.tmp m = false

/-- **Recovered**: neither a journal nor a checkpoint, and everything belongs to one release of
`V`. -/
structure Recovered (rel : Version → Release) (V : Version → Prop) (h : Host) : Prop where
  journal : h.journal = none
  checkpoint : h.checkpoint = none
  release : ∃ v, V v ∧ OneRelease rel v h

variable {rel : Version → Release} {V : Version → Prop} {smooth : Bool} {v : Version}
  {h t u : Host} {vars : UpgradeVars}

/-! ### Hosts that differ in what does not matter here -/

/-- The same host, but for the database, the secrets and whether the stack runs. -/
def Host.Alike (h t : Host) : Prop :=
  ∃ database secrets running,
    t = { h with database := database, secrets := secrets, running := running }

theorem Host.Alike.refl (h : Host) : h.Alike h := ⟨h.database, h.secrets, h.running, rfl⟩

theorem Host.Alike.trans (ht : h.Alike t) (hu : t.Alike u) : h.Alike u := by
  obtain ⟨_, _, _, rfl⟩ := ht
  obtain ⟨d, s, r, rfl⟩ := hu
  exact ⟨d, s, r, rfl⟩

theorem Host.Alike.commit (ht : h.Alike t) (changes : List Change) :
    h.Alike (t.commit changes) := by
  obtain ⟨d, s, r, rfl⟩ := ht
  rw [Host.commit]
  split
  · exact ⟨_, s, r, rfl⟩
  · exact ⟨d, s, r, rfl⟩

theorem Host.Alike.apply (o : Outcome) (ht : h.Alike t) : h.Alike (o.apply t h).2 := by
  rw [Outcome.apply]
  split
  · exact ht
  · exact Host.Alike.refl h

/-- A property that does not depend on it. -/
def Closed (I : Host → Prop) : Prop := ∀ ⦃h t⦄, h.Alike t → I h → I t

/-- The commands that change nothing else. -/
def Cmd.inert : Cmd → Bool
  | .service _ | .preflight | .fetch | .pull | .firewall | .enable | .daemonReload | .recordFailure
  | .migrate _ | .write _ | .copyBack _ | .extract _ | .restoreDatabase _ | .restoreSecrets _ =>
    true
  | _ => false

theorem alike_perform {c : Cmd} (hc : c.inert = true) (x : Choice) :
    h.Alike ((hostMachine rel).perform c x h).2 := by
  refine Host.Alike.commit ?_ x.panel
  cases c with
  | service action =>
    cases action with
    | stop => exact .apply _ ⟨_, _, _, rfl⟩
    | start =>
      simp only [Cmd.effect]
      split
      · exact .refl h
      · exact ⟨_, _, _, rfl⟩
    | health => exact .refl h
  | enable =>
    simp only [Cmd.effect]
    split
    · exact .refl h
    · exact ⟨_, _, _, rfl⟩
  | preflight | fetch | pull | firewall | daemonReload | recordFailure | write => exact .refl h
  | migrate => exact .apply _ ⟨_, _, _, rfl⟩
  | copyBack | extract | restoreDatabase | restoreSecrets =>
    simp only [Cmd.effect]
    repeat' split
    all_goals first | exact .refl h | exact .apply _ ⟨_, _, _, rfl⟩
  | _ => cases hc

/-- A command on files that is no crash goes well. -/
theorem ok_of_not_fatal {c : Cmd} {x : Choice} (hc : c.external = false ∨ smooth = true)
    (hx : ¬c.Fatal smooth x) : x.outcome = .ok := by
  by_contra hne
  exact hx ⟨hne, hc.symm⟩

/-- What it leaves then. -/
theorem alike_of_not_fatal (rel : Version → Release) (h : Host) {c : Cmd} {x : Choice}
    (hc : c.external = false) (hx : ¬c.Fatal smooth x) :
    ((hostMachine rel).perform c x h).1 = (c.effect rel .ok h).1 ∧
      (c.effect rel .ok h).2.Alike ((hostMachine rel).perform c x h).2 := by
  have hok : x.outcome = .ok := ok_of_not_fatal (.inl hc) hx
  simp only [hostMachine, hok]
  exact ⟨trivial, Host.Alike.commit (Host.Alike.refl _) _⟩

/-! ### What a crash may leave -/

/-- What a rollback takes from a stage: the directory of the release and its tools. -/
structure HoldsRelease (rel : Version → Release) (v : Version) (stage : Stage) : Prop where
  releaseBefore : stage.releaseBefore = some (rel v).tree
  copy : ∀ tool, stage.copy tool = some ((rel v).tool tool)
  marker : ∀ tool, stage.marker tool = true

/-- **A rollback can return a release**: the stage holds it, and the archive was made of it. -/
structure CanReturn (rel : Version → Release) (v : Version) (vars : UpgradeVars) (h : Host) :
    Prop where
  currentVersion : vars.currentVersion = v
  oldCurrent : vars.oldCurrent = v
  archive : ∃ a archive, vars.preimage = some a ∧ h.archives[a]? = some archive ∧
    archive.version = v ∧ ∀ f, archive.config f = (rel v).config f
  stage : ∃ stage, h.stages vars.stage = some stage ∧ HoldsRelease rel v stage

/-- The variables that are read from a journal. -/
def Journal.read (j : Journal) : UpgradeVars :=
  ⟨j.currentVersion, j.targetVersion, j.oldCurrent, j.preimage, j.stage⟩

/-- **A later run can go on from here**: a journal names a stage, and is either of a transaction
that has touched nothing, or of one that can be rolled back. -/
structure Resumable (rel : Version → Release) (v : Version) (h : Host) : Prop where
  state : h.tmp .state = false
  checkpoint : h.journal = none → h.checkpoint = none
  stage : ∀ j, h.journal = some j → (h.stages j.stage).isSome = true
  back : ∀ j, h.journal = some j → j.phase ≠ .prepared → CanReturn rel v j.read h
  release : (∀ j, h.journal = some j → j.phase = .prepared) → OneRelease rel v h

/-- **What there is between any two commands.** -/
def Safe (rel : Version → Release) (V : Version → Prop) (h : Host) : Prop :=
  Stuck h ∨ ∃ v, V v ∧ Resumable rel v h

/-- No operation is under way. -/
structure AtRest (rel : Version → Release) (v : Version) (h : Host) : Prop where
  release : OneRelease rel v h
  journal : h.journal = none
  checkpoint : h.checkpoint = none
  state : h.tmp .state = false

/-- **Nothing was touched yet.** -/
structure Whole (rel : Version → Release) (V : Version → Prop) (v : Version) (h : Host) : Prop where
  release : OneRelease rel v h
  state : h.tmp .state = false
  safe : Safe rel V h

/-- **The installation may be touched**: the transaction can be rolled back, and the journal says
so, or there is no journal beside the checkpoint. -/
structure Covered (rel : Version → Release) (v : Version) (vars : UpgradeVars) (h : Host) :
    Prop where
  back : CanReturn rel v vars h
  journal : (∃ phase, phase ≠ .prepared ∧ h.journal = some (vars.journal phase)) ∨
    h.journal = none ∧ h.checkpoint.isSome = true

theorem closed_oneRelease : Closed (OneRelease rel v) := by
  rintro h _ ⟨d, s, r, rfl⟩ hh
  exact ⟨hh.version, hh.current, hh.release, hh.config, hh.tools⟩

theorem closed_canReturn : Closed (CanReturn rel v vars) := by
  rintro h _ ⟨d, s, r, rfl⟩ hh
  exact ⟨hh.currentVersion, hh.oldCurrent, hh.archive, hh.stage⟩

theorem closed_resumable : Closed (Resumable rel v) := by
  rintro h t ht hh
  have hback : ∀ j, h.journal = some j → j.phase ≠ .prepared → CanReturn rel v j.read t :=
    fun j hj hphase => closed_canReturn ht (hh.back j hj hphase)
  have hrelease : (∀ j, h.journal = some j → j.phase = .prepared) → OneRelease rel v t :=
    fun hj => closed_oneRelease ht (hh.release hj)
  obtain ⟨d, s, r, rfl⟩ := ht
  exact ⟨hh.state, hh.checkpoint, hh.stage, hback, hrelease⟩

theorem closed_stuck : Closed Stuck := by
  rintro h _ ⟨d, s, r, rfl⟩ hh
  exact hh

theorem closed_safe : Closed (Safe rel V) := by
  rintro h t ht (hstuck | ⟨v, hv, hh⟩)
  · exact .inl (closed_stuck ht hstuck)
  · exact .inr ⟨v, hv, closed_resumable ht hh⟩

theorem closed_atRest : Closed (AtRest rel v) := by
  rintro h t ht hh
  have hrelease := closed_oneRelease ht hh.release
  obtain ⟨d, s, r, rfl⟩ := ht
  exact ⟨hrelease, hh.journal, hh.checkpoint, hh.state⟩

theorem closed_whole : Closed (Whole rel V v) := by
  rintro h t ht hh
  have hrelease := closed_oneRelease ht hh.release
  have hsafe := closed_safe ht hh.safe
  obtain ⟨d, s, r, rfl⟩ := ht
  exact ⟨hrelease, hh.state, hsafe⟩

theorem closed_covered : Closed (Covered rel v vars) := by
  rintro h t ht hh
  have hback := closed_canReturn ht hh.back
  obtain ⟨d, s, r, rfl⟩ := ht
  exact ⟨hback, hh.journal⟩

theorem AtRest.resumable (hh : AtRest rel v h) : Resumable rel v h where
  state := hh.state
  checkpoint _ := hh.checkpoint
  stage := by simp [hh.journal]
  back := by simp [hh.journal]
  release _ := hh.release

theorem AtRest.safe (hv : V v) (hh : AtRest rel v h) : Safe rel V h := .inr ⟨v, hv, hh.resumable⟩

theorem AtRest.whole (hv : V v) (hh : AtRest rel v h) : Whole rel V v h :=
  ⟨hh.release, hh.state, hh.safe hv⟩

/-- A temporary file of the state is in the way of a rollback only if one is asked for. -/
theorem Covered.safe (hv : V v) (hh : Covered rel v vars h) : Safe rel V h := by
  rcases hh.journal with ⟨phase, hphase, hjournal⟩ | ⟨hjournal, hcheckpoint⟩
  · cases hstate : h.tmp .state with
    | true =>
      refine .inl (.inr ⟨hstate, ?_⟩)
      rw [hjournal]
      exact decide_eq_true hphase
    | false =>
      obtain ⟨stage, hstage, -⟩ := hh.back.stage
      refine .inr ⟨v, hv, hstate, ?_, ?_, ?_, ?_⟩
      · simp [hjournal]
      · rintro j hj
        obtain rfl := Option.some.inj (hjournal.symm.trans hj)
        exact Option.isSome_iff_exists.mpr ⟨stage, hstage⟩
      · rintro j hj -
        obtain rfl := Option.some.inj (hjournal.symm.trans hj)
        exact hh.back
      · exact fun hall => absurd (hall _ hjournal) hphase
  · exact .inl (.inl ⟨by rw [hjournal]; rfl, hcheckpoint⟩)

/-! ### Single commands -/

section Steps

variable {I : Host → Prop}

/-- **A command that changes nothing here**: it succeeds in a smooth run. -/
theorem until_inert (hI : Closed I) (hh : I h) {c : Cmd} (hc : c.inert = true)
    (hok : (c.effect rel .ok h).1 = true) :
    wpUntil (hostMachine rel) (Cmd.Fatal smooth) I (run c)
      (fun ok t => h.Alike t ∧ (smooth = true → ok = true)) h := by
  rw [wpUntil_run]
  refine fun x => ⟨hI (alike_perform hc x) hh, fun hx => ⟨alike_perform hc x, fun hs => ?_⟩⟩
  have hout : x.outcome = .ok := ok_of_not_fatal (.inr hs) hx
  simpa only [hostMachine, hout] using hok

/-- **A command on files**, whose crash leaves `I`. -/
theorem until_internal {c : Cmd} (hc : c.external = false)
    (hcrash : ∀ x, I ((hostMachine rel).perform c x h).2) :
    wpUntil (hostMachine rel) (Cmd.Fatal smooth) I (run c)
      (fun ok t => ok = (c.effect rel .ok h).1 ∧ (c.effect rel .ok h).2.Alike t) h := by
  rw [wpUntil_run]
  exact fun x => ⟨hcrash x, fun hx => alike_of_not_fatal rel h hc hx⟩

/-- A command that does all or nothing leaves one of the two. -/
theorem closed_apply (hI : Closed I) {o : Outcome} {x : Choice} (hh : I h) (ht : I t) :
    I ((o.apply t h).2.commit x.panel) := by
  refine hI (Host.Alike.commit (Host.Alike.refl _) _) ?_
  rw [Outcome.apply]
  split
  · exact ht
  · exact hh

/-- A temporary file that was not there is not there again. -/
theorem update_tmp_of_free {m : Managed} (hfree : h.tmp m = false) :
    Function.update (Function.update h.tmp m true) m false = h.tmp := by
  rw [Function.update_idem]
  exact Function.update_eq_self_iff.mpr hfree.symm

theorem alike_put {content : ManagedContent} (hfree : h.tmp content.file = false)
    (ht : (h.setTmp content.file true).Alike t) :
    (h.put content).Alike ((t.put content).setTmp content.file false) := by
  obtain ⟨d, s, r, rfl⟩ := ht
  refine ⟨d, s, r, ?_⟩
  have hback := update_tmp_of_free hfree
  cases content <;> simp only [Host.put, Host.setTmp] <;> rw [hback]

theorem alike_discard {content : ManagedContent} (hfree : h.tmp content.file = false)
    (ht : (h.put content).Alike t) : (h.put content).Alike (t.setTmp content.file false) := by
  obtain ⟨d, s, r, rfl⟩ := ht
  refine ⟨d, s, r, ?_⟩
  have hback : Function.update h.tmp content.file false = h.tmp :=
    Function.update_eq_self_iff.mpr hfree.symm
  cases content <;> simp only [Host.put, Host.setTmp] <;> rw [hback]

/-- **A file is replaced**, unless its temporary file is in the way. Between the commands there is
the temporary file or not, and the old content or the new. -/
theorem until_atomicWrite (hI : Closed I) (content : ManagedContent) (hh : I h)
    (htmp : I (h.setTmp content.file true))
    (hput : h.tmp content.file = false → I (h.put content)) :
    wpUntil (hostMachine rel) (Cmd.Fatal smooth) I (atomicWrite content)
      (fun ok t => (h.tmp content.file = true → ok = false ∧ h.Alike t) ∧
        (h.tmp content.file = false → ok = true ∧ (h.put content).Alike t)) h := by
  rw [atomicWrite]
  refine wpUntil_bind_of (until_internal rfl fun x => ?_) ?_
  · simp only [hostMachine, Cmd.effect]
    split
    · exact hI (Host.Alike.commit (.refl h) _) hh
    · exact closed_apply hI hh htmp
  rintro created t ⟨rfl, ht⟩
  cases hfree : h.tmp content.file with
  | true =>
    simp only [Cmd.effect, hfree, if_true] at ht ⊢
    simpa using ht
  | false =>
    have ht : (h.setTmp content.file true).Alike t := by
      simpa [Cmd.effect, hfree, Outcome.apply, Outcome.took] using ht
    have hcreated : ((Cmd.create content.file).effect rel .ok h).1 = true := by
      simp [Cmd.effect, hfree, Outcome.apply, Outcome.status]
    rw [hcreated, if_pos rfl]
    have hwritten : wpUntil (hostMachine rel) (Cmd.Fatal smooth) I
        (all [run (.write content.file), run (.replace content)])
        (fun ok u => ok = true ∧ (h.put content).Alike u) t := by
      refine wpUntil_all_of (R := fun ok u => ok = true ∧ (h.setTmp content.file true).Alike u) ?_
        ?_ (fun _ hf => absurd hf.1 (by simp))
      · refine wpUntil_post (until_internal rfl fun x => hI (alike_perform rfl x) (hI ht htmp)) ?_
        rintro ok u ⟨rfl, hu⟩
        exact ⟨rfl, ht.trans hu⟩
      rintro u ⟨-, hu⟩
      have hthere : u.tmp content.file = true := by
        obtain ⟨d, s, r, rfl⟩ := hu
        exact Function.update_self _ _ _
      refine wpUntil_all_of (R := fun ok u => ok = true ∧ (h.put content).Alike u) ?_
        (fun w hw => hw) (fun _ hf => absurd hf.1 (by simp))
      refine wpUntil_post (until_internal rfl fun x => ?_) ?_
      · simp only [hostMachine, Cmd.effect, hthere, if_true]
        exact closed_apply hI (hI hu htmp) (hI (alike_put hfree hu) (hput hfree))
      · rintro ok w ⟨rfl, hw⟩
        simp only [Cmd.effect, hthere, if_true, Outcome.apply, Outcome.status, Outcome.took]
          at hw ⊢
        exact ⟨trivial, (alike_put hfree hu).trans hw⟩
    refine wpUntil_bind_of hwritten ?_
    rintro ok u ⟨rfl, hu⟩
    have hdiscard := alike_discard hfree hu
    refine wpUntil_bind_of (until_internal rfl fun x => ?_) ?_
    · exact closed_apply hI (hI hu (hput hfree)) (hI hdiscard (hput hfree))
    · rintro ok w ⟨rfl, hw⟩
      exact ⟨by simp, fun _ => ⟨rfl, hdiscard.trans hw⟩⟩

end Steps

/-! ### Clearing up -/

/-- Temporary files of the journal and of the checkpoint do not matter. -/
theorem safe_setTmp {m : Managed} (hm : m ≠ .state) {there : Bool} (hh : Safe rel V h) :
    Safe rel V (h.setTmp m there) := by
  have hstate : (h.setTmp m there).tmp .state = h.tmp .state :=
    Function.update_of_ne hm.symm _ _
  rcases hh with hstuck | ⟨v, hv, hh⟩
  · refine .inl ?_
    rw [Stuck, hstate]
    exact hstuck
  · refine .inr ⟨v, hv, hstate.trans hh.state, hh.checkpoint, hh.stage, fun j hj hphase => ?_,
      fun hall => ?_⟩
    · have hback := hh.back j hj hphase
      exact ⟨hback.currentVersion, hback.oldCurrent, hback.archive, hback.stage⟩
    · have hrelease := hh.release hall
      exact ⟨hrelease.version, hrelease.current, hrelease.release, hrelease.config, hrelease.tools⟩

/-- The parts an installation at rest consists of. -/
def restParts : List Part :=
  [.version, .current, .releases, .config, .tools, .journal, .checkpoint, .tmp]

/-- The parts a release consists of. -/
def releaseParts : List Part := [.version, .current, .releases, .config, .tools]

theorem OneRelease.of_same (hh : OneRelease rel v h) (hsame : Host.Same releaseParts h t) :
    OneRelease rel v t := by
  have hreleases := hsame .releases (by decide)
  have hconfig := hsame .config (by decide)
  have htools := hsame .tools (by decide)
  simp only [Part.Same] at hreleases hconfig htools
  refine ⟨(hsame .version (by decide)).trans hh.version,
    (hsame .current (by decide)).trans hh.current, ?_, ?_, ?_⟩
  · rw [hreleases]
    exact hh.release
  · rw [hconfig]
    exact hh.config
  · rw [htools]
    exact hh.tools

theorem AtRest.perform {c : Cmd} (hh : AtRest rel v h) (hc : c.spares restParts = true)
    (x : Choice) : AtRest rel v ((hostMachine rel).perform c x h).2 := by
  have hsame : Host.Same restParts h ((hostMachine rel).perform c x h).2 :=
    Host.Same.perform hc (by decide) x.outcome x.panel h
  have htmp := hsame .tmp (by decide)
  simp only [Part.Same] at htmp
  refine ⟨hh.release.of_same fun p hp => hsame p (List.mem_append_left [_, _, _] hp), ?_, ?_, ?_⟩
  · exact (hsame .journal (by decide)).trans hh.journal
  · exact (hsame .checkpoint (by decide)).trans hh.checkpoint
  · rw [htmp]
    exact hh.state

/-- **Commands that leave an installation at rest.** -/
theorem until_atRest {α : Type} {p : Shell α} (hv : V v)
    (hp : p.Only fun c => c.spares restParts = true) (hh : AtRest rel v h) :
    wpUntil (hostMachine rel) (Cmd.Fatal smooth) (Safe rel V) p (fun _ => AtRest rel v) h := by
  have hwp : wp (hostMachine rel) (AtRest rel v) p (fun _ => AtRest rel v) h :=
    hp.keeps (fun c hc t x ht => ht.perform hc x) h hh
  exact wpUntil_mono (wpUntil_of_wp hwp) (fun t ht => ht.safe hv) fun _ _ ht => ht

/-- Removing the checkpoint of an installation whose journal is gone. -/
theorem until_clearOperationCheckpoint (hv : V v) (hrelease : OneRelease rel v h)
    (hstate : h.tmp .state = false) (hjournal : h.journal = none) :
    wpUntil (hostMachine rel) (Cmd.Fatal smooth) (Safe rel V) clearOperationCheckpoint
      (fun _ => AtRest rel v) h := by
  rw [clearOperationCheckpoint, wpUntil_look, wpUntil_ite]
  have hrest : AtRest rel v { h with checkpoint := none } :=
    ⟨⟨hrelease.version, hrelease.current, hrelease.release, hrelease.config, hrelease.tools⟩,
      hjournal, rfl, hstate⟩
  refine ⟨fun hthere => ?_, fun hgone => ?_⟩
  · have hstuck : Safe rel V h := .inl (.inl ⟨by rw [hjournal]; rfl, hthere⟩)
    refine wpUntil_bind_of (until_internal rfl fun x => ?_) ?_
    · exact closed_apply closed_safe hstuck (hrest.safe hv)
    · rintro ok t ⟨-, ht⟩
      exact closed_atRest ht hrest
  · exact ⟨hrelease, hjournal, by simpa [hostMachine] using hgone, hstate⟩

/-- **Clearing up** once everything belongs to one release. Between the two commands there is the
checkpoint without the journal. -/
theorem until_clearJournal (hv : V v) (hh : Whole rel V v h) :
    wpUntil (hostMachine rel) (Cmd.Fatal smooth) (Safe rel V) clearJournal
      (fun _ => AtRest rel v) h := by
  rw [clearJournal, wpUntil_look, wpUntil_bind]
  have hgone : OneRelease rel v { h with journal := none } :=
    ⟨hh.release.version, hh.release.current, hh.release.release, hh.release.config,
      hh.release.tools⟩
  have hsafe : Safe rel V { h with journal := none } := by
    by_cases hcheckpoint : h.checkpoint.isSome = true
    · exact .inl (.inl ⟨rfl, hcheckpoint⟩)
    · have hrest : AtRest rel v { h with journal := none } :=
        ⟨hgone, rfl, by simpa using hcheckpoint, hh.state⟩
      exact hrest.safe hv
  rw [wpUntil_ite]
  refine ⟨fun _ => ?_, fun hnone => ?_⟩
  · refine wpUntil_post (until_internal rfl fun x => ?_) ?_
    · exact closed_apply closed_safe hh.safe hsafe
    · rintro ok t ⟨-, ht⟩
      have hrelease := closed_oneRelease ht hgone
      obtain ⟨d, s, r, rfl⟩ := ht
      exact until_clearOperationCheckpoint hv hrelease hh.state rfl
  · refine until_clearOperationCheckpoint hv hh.release hh.state ?_
    simpa [hostMachine] using hnone

/-- The stage is cleared up. -/
theorem until_cleanup {α : Type} (hv : V v) (hh : AtRest rel v h) (stage : ℕ) (a : α) :
    wpUntil (hostMachine rel) (Cmd.Fatal smooth) (Safe rel V)
      ((cleanupStage stage).bind fun _ => done a) (fun b t => b = a ∧ AtRest rel v t) h :=
  wpUntil_bind_of (until_atRest hv (only_cleanupStage rfl) hh) fun _ _ ht => ⟨rfl, ht⟩

/-- The journal, the checkpoint and the stage are cleared up. -/
theorem until_clear {α : Type} (hv : V v) (hh : Whole rel V v h) (stage : ℕ) (a : α) :
    wpUntil (hostMachine rel) (Cmd.Fatal smooth) (Safe rel V)
      (clearJournal.bind fun _ => (cleanupStage stage).bind fun _ => done a)
      (fun b t => b = a ∧ AtRest rel v t) h :=
  wpUntil_bind_of (until_clearJournal hv hh) fun _ _ ht => until_cleanup hv ht stage a

/-- The same after a record of the failure. -/
theorem until_record_clear {α : Type} (hv : V v) (hh : Whole rel V v h) (stage : ℕ) (a : α) :
    wpUntil (hostMachine rel) (Cmd.Fatal smooth) (Safe rel V)
      ((run .recordFailure).bind fun _ => clearJournal.bind fun _ =>
        (cleanupStage stage).bind fun _ => done a)
      (fun b t => b = a ∧ AtRest rel v t) h := by
  refine wpUntil_bind_of (until_inert closed_safe hh.safe rfl rfl) fun _ t ht => ?_
  exact until_clear hv (closed_whole ht.1 hh) stage a

/-! ### Going back -/

/-- **What a run may end in**: an installation at rest, or, unless it is smooth, anything that is
left between two commands. -/
def Ends (rel : Version → Release) (V : Version → Prop) (smooth : Bool) (h : Host) : Prop :=
  (∃ v, V v ∧ AtRest rel v h) ∨ (smooth = false ∧ Safe rel V h)

theorem Ends.safe (hh : Ends rel V smooth h) : Safe rel V h := by
  rcases hh with ⟨v, hv, hh⟩ | ⟨-, hh⟩
  · exact hh.safe hv
  · exact hh

theorem AtRest.ends (hv : V v) (hh : AtRest rel v h) : Ends rel V smooth h := .inl ⟨v, hv, hh⟩

/-- The stack is resumed. -/
theorem until_resumeStack {I : Host → Prop} (hI : Closed I) (hh : I h) :
    wpUntil (hostMachine rel) (Cmd.Fatal smooth) I resumeStack
      (fun ok t => h.Alike t ∧ (smooth = true → ok = true)) h := by
  refine wpUntil_all_of (until_inert hI hh rfl rfl) ?_ fun t ht => ht
  rintro t ⟨ht, -⟩
  refine wpUntil_all_of (until_inert hI (hI ht hh) rfl rfl) ?_ ?_
  · exact fun u hu => ⟨ht.trans hu.1, fun _ => rfl⟩
  · exact fun u hu => ⟨ht.trans hu.1, hu.2⟩

/-- An installation that was not touched is resumed. -/
theorem until_resumeStack_whole (hh : Whole rel V v h) :
    wpUntil (hostMachine rel) (Cmd.Fatal smooth) (Safe rel V) resumeStack
      (fun ok t => Whole rel V v t ∧ (ok = false → smooth = false)) h := by
  refine wpUntil_mono (until_resumeStack closed_whole hh) (fun _ ht => ht.safe) ?_
  rintro ok t ⟨ht, hsmooth⟩
  refine ⟨closed_whole ht hh, fun hok => ?_⟩
  by_contra hs
  exact absurd (hsmooth (by simpa using hs)) (by simp [hok])

/-- **A part that does what it should**: in a smooth run it succeeds, and where it succeeds there is
`S`. -/
def Establishes (rel : Version → Release) (smooth : Bool) (p : Shell Bool) (S : Host → Prop)
    (h : Host) : Prop :=
  wpUntil (hostMachine rel) (Cmd.Fatal smooth) (fun _ => True) p
    (fun ok t => (smooth = true → ok = true) ∧ (ok = true → S t)) h

namespace Establishes

variable {S S' : Host → Prop} {p : Shell Bool} {ps : List (Shell Bool)}

theorem run {c : Cmd} (hok : (c.effect rel .ok h).1 = true) :
    Establishes rel smooth (Script.run c) (fun _ => True) h := by
  refine fun x => ⟨trivial, fun hx => ⟨fun hs => ?_, fun _ => trivial⟩⟩
  have hout : x.outcome = .ok := ok_of_not_fatal (.inr hs) hx
  simpa only [hostMachine, hout] using hok

theorem mono (hp : Establishes rel smooth p S h) (hS : ∀ t, S t → S' t) :
    Establishes rel smooth p S' h :=
  wpUntil_post hp fun _ _ ht => ⟨ht.1, fun hok => hS _ (ht.2 hok)⟩

theorem cons (hp : Establishes rel smooth p S h)
    (hrest : ∀ t, S t → Establishes rel smooth (all ps) S' t) :
    Establishes rel smooth (all (p :: ps)) S' h := by
  refine wpUntil_all_of hp (fun t ht => hrest t (ht.2 rfl)) fun t ht => ⟨ht.1, nofun⟩

theorem nil : Establishes rel smooth (all []) (fun t => t = h) h := ⟨fun _ => rfl, fun _ => rfl⟩

/-- What it spares is the same. -/
theorem same (hp : Establishes rel smooth p S h) (parts : List Part)
    (hdatabase : .database ∉ parts) (honly : p.Only fun c => c.spares parts = true) :
    Establishes rel smooth p (fun t => S t ∧ Host.Same parts h t) h := by
  have hsame : wpUntil (hostMachine rel) (Cmd.Fatal smooth) (Host.Same parts h) p
      (fun _ => Host.Same parts h) h := wpUntil_of_wp (wp_same parts hdatabase honly h)
  exact wpUntil_post (wpUntil_and hp hsame) fun _ _ ht => ⟨ht.1.1, fun hok => ⟨ht.1.2 hok, ht.2⟩⟩

/-- Parts that each keep `S` and succeed in it. -/
theorem all (hps : ∀ p ∈ ps, ∀ t, S t → Establishes rel smooth p S t) (hh : S h) :
    Establishes rel smooth (Script.all ps) S h := by
  induction ps generalizing h with
  | nil => exact nil.mono fun t ht => ht ▸ hh
  | cons p ps ih =>
    exact cons (hps p (by simp) h hh) fun t ht => ih (fun q hq => hps q (by simp [hq])) ht

end Establishes

/-- What a rollback relies on while it runs. -/
structure Returning (rel : Version → Release) (v : Version) (vars : UpgradeVars) (h : Host) :
    Prop where
  back : CanReturn rel v vars h
  state : h.tmp .state = false

theorem closed_returning : Closed (Returning rel v vars) := by
  rintro h t ht hh
  have hback := closed_canReturn ht hh.back
  obtain ⟨d, s, r, rfl⟩ := ht
  exact ⟨hback, hh.state⟩

theorem CanReturn.of_same (hh : CanReturn rel v vars h)
    (hsame : Host.Same [.stages, .archives] h t) : CanReturn rel v vars t := by
  have hstages := hsame .stages (by decide)
  have harchives := hsame .archives (by decide)
  simp only [Part.Same] at hstages harchives
  refine ⟨hh.currentVersion, hh.oldCurrent, ?_, ?_⟩
  · rw [harchives]
    exact hh.archive
  · rw [hstages]
    exact hh.stage

theorem Host.Same.mono {parts parts' : List Part} (hsame : Host.Same parts h t)
    (hsub : ∀ p ∈ parts', p ∈ parts) : Host.Same parts' h t := fun p hp => hsame p (hsub p hp)

theorem Returning.of_same (hh : Returning rel v vars h)
    (hsame : Host.Same [.stages, .archives, .tmp] h t) : Returning rel v vars t := by
  refine ⟨hh.back.of_same (hsame.mono (by decide)), ?_⟩
  have htmp := hsame .tmp (by decide)
  simp only [Part.Same] at htmp
  rw [htmp]
  exact hh.state

/-- The directory of the release is put back. -/
theorem establishes_restoreCurrentRelease (hh : Returning rel v vars h) :
    Establishes rel smooth (restoreCurrentRelease vars) (Returning rel v vars) h := by
  have hkeeps : ∀ {p : Shell Bool} {t : Host}, Returning rel v vars t →
      Establishes rel smooth p (fun _ => True) t →
      (p.Only fun c => c.spares [.stages, .archives, .tmp] = true) →
      Establishes rel smooth p (Returning rel v vars) t := fun ht hp honly =>
    (hp.same [.stages, .archives, .tmp] (by decide) honly).mono fun _ hu => ht.of_same hu.2
  have hsaved : ∀ {t : Host}, Returning rel v vars t →
      ((t.stages vars.stage).bind Stage.releaseBefore).isSome = true := by
    rintro t ⟨⟨-, -, -, stage, hstage, hholds⟩, -⟩
    simp [hstage, hholds.releaseBefore]
  refine .cons (hkeeps hh (.run ?_) (.run rfl)) fun t ht => ?_
  · obtain ⟨tree, htree⟩ := Option.isSome_iff_exists.mp (hsaved hh)
    simp [Cmd.effect, htree, Outcome.status]
  refine .cons (S := Returning rel v vars) ?_ fun u hu => ?_
  · refine hkeeps ht ?_ (only_removeRelease rfl)
    rw [removeRelease, Establishes, wpUntil_look, wpUntil_ite]
    exact ⟨fun _ => Establishes.run rfl, fun _ => ⟨fun _ => rfl, fun _ => trivial⟩⟩
  refine .cons (hkeeps hu (.run ?_) (.run rfl)) fun w hw => Establishes.nil.mono fun _ he => he ▸ hw
  obtain ⟨tree, htree⟩ := Option.isSome_iff_exists.mp (hsaved hu)
  simp [Cmd.effect, htree, Outcome.apply, Outcome.status]

/-- One tool is returned: its marker and its copy are in the stage. -/
theorem until_restoreHostTool (hh : Returning rel v vars h) (tool : HostTool) :
    wpUntil (hostMachine rel) (Cmd.Fatal smooth) (fun _ => True)
      (restoreHostTool vars.stage tool)
      (fun _ t => t.tools = Function.update h.tools tool (some ((rel v).tool tool)) ∧
        Returning rel v vars t) h := by
  obtain ⟨stage, hstage, hholds⟩ := hh.back.stage
  have hmarked : ((h.stages vars.stage).any fun s => s.marker tool) = true := by
    simp [hstage, hholds.marker]
  have hcopy : ((h.stages vars.stage).bind fun s => s.copy tool) = some ((rel v).tool tool) := by
    simp [hstage, hholds.copy]
  rw [restoreHostTool, wpUntil_look, wpUntil_ite]
  refine ⟨fun _ x => ⟨trivial, fun hx => ⟨?_, hh.of_same ?_⟩⟩, fun hnot => absurd hmarked hnot⟩
  · obtain ⟨-, d, s, r, ht⟩ := alike_of_not_fatal rel h (c := .restoreTool vars.stage tool)
      rfl hx
    rw [ht]
    simp only [Cmd.effect, hcopy]
    rfl
  · exact Host.Same.perform rfl (by decide) x.outcome x.panel h

theorem establishes_restoreHostTools (hh : Returning rel v vars h) :
    Establishes rel smooth (restoreHostTools vars.stage)
      (fun t => (∀ tool, t.tools tool = some ((rel v).tool tool)) ∧ Returning rel v vars t) h := by
  rw [restoreHostTools, Establishes, wpUntil_bind]
  refine wpUntil_post (until_restoreHostTool hh .unit) ?_
  rintro - t ⟨htools, ht⟩
  rw [wpUntil_bind]
  refine wpUntil_post (until_restoreHostTool ht .cli) ?_
  rintro - u ⟨htools', hu⟩
  have hboth : ∀ tool, u.tools tool = some ((rel v).tool tool) := by
    intro tool
    rw [htools', htools]
    cases tool with
    | unit => rfl
    | cli => rfl
  have hreload : Establishes rel smooth (run .daemonReload) (fun _ => True) u := .run rfl
  refine (hreload.same [.stages, .archives, .tmp, .tools] (by decide) (.run rfl)).mono ?_
  rintro w ⟨-, hsame⟩
  have htools := hsame .tools (by decide)
  simp only [Part.Same] at htools
  exact ⟨fun tool => htools ▸ hboth tool, hu.of_same (hsame.mono (by decide))⟩

/-- The version of the state is written. -/
theorem establishes_writeStateVersion (hh : Returning rel v vars h) :
    Establishes rel smooth (writeStateVersion vars.currentVersion)
      (fun t => t.version = v ∧ t.tools = h.tools ∧ Returning rel v vars t) h := by
  refine wpUntil_post (until_atomicWrite (fun _ _ _ _ => trivial) (.state vars.currentVersion)
    trivial trivial fun _ => trivial) ?_
  rintro ok t ⟨-, hfree⟩
  obtain ⟨rfl, ht⟩ := hfree hh.state
  refine ⟨fun _ => rfl, fun _ => ?_⟩
  have hback : CanReturn rel v vars (h.put (.state vars.currentVersion)) :=
    ⟨hh.back.currentVersion, hh.back.oldCurrent, hh.back.archive, hh.back.stage⟩
  have hreturning : Returning rel v vars t := closed_returning ht ⟨hback, hh.state⟩
  obtain ⟨d, s, r, rfl⟩ := ht
  exact ⟨hh.back.currentVersion, rfl, hreturning⟩

/-- The archive is applied. -/
theorem establishes_restorePreimage (hh : Returning rel v vars h) (hversion : h.version = v) :
    Establishes rel smooth (restorePreimage vars.preimage) (fun _ => True) h := by
  obtain ⟨a, archive, hpreimage, harchive, hsame, -⟩ := hh.back.archive
  rw [hpreimage]
  have hstep : ∀ {c : Cmd} {t : Host}, c.spares [.archives, .version] = true →
      Host.Same [.archives, .version] h t → (c.effect rel .ok t).1 = true →
      Establishes rel smooth (run c) (Host.Same [.archives, .version] h) t :=
    fun hc ht hok => ((Establishes.run hok).same [.archives, .version] (by decide)
      (.run hc)).mono fun _ hu => ht.trans hu.2
  have hthere : ∀ {t : Host}, Host.Same [.archives, .version] h t →
      t.archives[a]? = some archive ∧ archive.version = t.version := by
    intro t ht
    have harchives := ht .archives (by decide)
    have hversion' := ht .version (by decide)
    simp only [Part.Same] at harchives hversion'
    rw [harchives, hversion', hversion]
    exact ⟨harchive, hsame⟩
  refine (Establishes.all (S := Host.Same [.archives, .version] h) ?_
    (Host.Same.refl _ h)).mono fun _ _ => trivial
  simp only [List.forall_mem_cons, List.not_mem_nil, false_implies, implies_true, and_true]
  refine ⟨fun t ht => hstep rfl ht ?_, fun t ht => hstep rfl ht ?_, fun t ht => hstep rfl ht ?_,
    fun t ht => hstep rfl ht ?_, fun t ht => hstep rfl ht ?_, fun t ht => hstep rfl ht ?_,
    fun t ht => hstep rfl ht ?_, fun t ht => hstep rfl ht ?_, fun t ht => hstep rfl ht ?_⟩
  all_goals simp [Cmd.effect, hthere ht, Outcome.apply, Outcome.status]

/-- **What the steps of a rollback establish** beyond what they return: the tools, and that no
temporary file is left. -/
theorem establishes_rollbackSteps (hh : Returning rel v vars h) :
    Establishes rel smooth (rollbackSteps vars)
      (fun t => (∀ tool, t.tools tool = some ((rel v).tool tool)) ∧ t.tmp .state = false) h := by
  have hplain : ∀ (parts : List Part) {c : Cmd} {t : Host}, .database ∉ parts →
      c.spares parts = true → (c.effect rel .ok t).1 = true →
      Establishes rel smooth (run c) (Host.Same parts t) t := fun _ _ _ hdatabase hc hok =>
    ((Establishes.run hok).same _ hdatabase (.run hc)).mono fun _ hu => hu.2
  refine .cons (hplain [.stages, .archives, .tmp] (by decide) rfl rfl) fun t₁ h₁ => ?_
  refine .cons (establishes_restoreCurrentRelease (hh.of_same h₁)) fun t₂ h₂ => ?_
  refine .cons (hplain [.stages, .archives, .tmp] (by decide) rfl rfl) fun t₃ h₃ => ?_
  refine .cons (establishes_restoreHostTools (h₂.of_same h₃)) ?_
  rintro t₄ ⟨htools, h₄⟩
  refine .cons (establishes_writeStateVersion h₄) ?_
  rintro t₅ ⟨hversion, htools', h₅⟩
  refine .cons ((establishes_restorePreimage h₅ hversion).same [.tools, .tmp] (by decide)
    (only_restorePreimage (fun _ => rfl) (fun _ _ => rfl) (fun _ _ => rfl) fun _ => rfl)) ?_
  rintro t₆ ⟨-, h₆⟩
  refine .cons (hplain [.tools, .tmp] (by decide) rfl rfl) fun t₇ h₇ => ?_
  refine .cons (hplain [.tools, .tmp] (by decide) rfl rfl) fun t₈ h₈ => ?_
  refine Establishes.nil.mono ?_
  rintro _ rfl
  have hsame := h₆.trans (h₇.trans h₈)
  have htools'' := hsame .tools (by decide)
  have htmp := hsame .tmp (by decide)
  simp only [Part.Same] at htools'' htmp
  rw [htools'', htmp, htools']
  exact ⟨htools, h₅.state⟩

/-! ### While the installation may be touched -/

/-- The commands that keep it covered. -/
def Cmd.Covers (vars : UpgradeVars) (c : Cmd) : Prop := c.Steady vars ∧ c ≠ .removeCheckpoint

theorem covers_of_spares {c : Cmd}
    (hc : c.spares [.stages, .archives, .journal, .checkpoint] = true) : c.Covers vars := by
  refine ⟨steady_of_spares vars (spares_mono hc (by decide)), ?_⟩
  rintro rfl
  exact absurd hc (by decide)

/-- A checkpoint stays unless it is removed. -/
theorem checkpoint_perform {c : Cmd} (hc : c ≠ .removeCheckpoint) (x : Choice)
    (hh : h.checkpoint.isSome = true) :
    ((hostMachine rel).perform c x h).2.checkpoint.isSome = true := by
  have hcommit : ((hostMachine rel).perform c x h).2.checkpoint =
      (c.effect rel x.outcome h).2.checkpoint := commit_same (p := .checkpoint) nofun _ x.panel
  rw [hcommit]
  by_cases hspares : c.touches .checkpoint = false
  · have hsame : (c.effect rel x.outcome h).2.checkpoint = h.checkpoint :=
      effect_same (p := .checkpoint) hspares x.outcome h
    rw [hsame]
    exact hh
  · -- the only other command that touches it replaces it
    cases c with
    | removeCheckpoint => exact absurd rfl hc
    | replace content =>
      cases content with
      | checkpoint phase =>
        simp only [Cmd.effect, Outcome.apply]
        repeat' split
        all_goals first | exact hh | rfl
      | _ => exact absurd rfl hspares
    | service action => cases action <;> exact absurd rfl hspares
    | _ => exact absurd rfl hspares

theorem Covered.perform {c : Cmd} (hh : Covered rel v vars h) (hc : c.Covers vars) (x : Choice) :
    Covered rel v vars ((hostMachine rel).perform c x h).2 := by
  have hsame : Host.Same [.stages, .archives] h ((hostMachine rel).perform c x h).2 :=
    Host.Same.perform hc.1.1 (by decide) x.outcome x.panel h
  refine ⟨hh.back.of_same hsame, ?_⟩
  have hcommit : ((hostMachine rel).perform c x h).2.journal =
      (c.effect rel x.outcome h).2.journal := commit_same (p := .journal) nofun _ x.panel
  rw [hcommit]
  rcases @journal_effect rel c x.outcome h with hsame | ⟨hunlink, -⟩ | ⟨j, hreplace, hj⟩
  · rw [hsame]
    rcases hh.journal with hjournal | ⟨hjournal, hcheckpoint⟩
    · exact .inl hjournal
    · exact .inr ⟨hjournal, checkpoint_perform hc.2 x hcheckpoint⟩
  · exact absurd hunlink hc.1.2.1
  · obtain ⟨phase, hphase, rfl⟩ := hc.1.2.2 j hreplace
    exact .inl ⟨phase, hphase, hj⟩

/-- **Commands that keep it covered.** -/
theorem until_covered {α : Type} {p : Shell α} (hv : V v) (hp : p.Only (Cmd.Covers vars))
    (hh : Covered rel v vars h) :
    wpUntil (hostMachine rel) (Cmd.Fatal smooth) (Safe rel V) p
      (fun _ => Covered rel v vars) h := by
  have hwp : wp (hostMachine rel) (Covered rel v vars) p (fun _ => Covered rel v vars) h :=
    hp.keeps (fun c hc t x ht => ht.perform hc x) h hh
  exact wpUntil_mono (wpUntil_of_wp hwp) (fun t ht => ht.safe hv) fun _ _ ht => ht

/-- **A rollback returns the release**, or it failed and can be repeated. -/
theorem until_rollback (hv : V v) (hh : Covered rel v vars h) (hstate : h.tmp .state = false) :
    wpUntil (hostMachine rel) (Cmd.Fatal smooth) (Safe rel V) (rollback vars)
      (fun ok t => (ok = true → AtRest rel v t) ∧
        (ok = false → smooth = false ∧ Safe rel V t)) h := by
  have hreturned : wpUntil (hostMachine rel) (Cmd.Fatal smooth) (fun _ => True) (rollbackSteps vars)
      (fun ok t => ok = true → Returned vars h t) h := wpUntil_of_wp (wp_rollbackSteps vars h)
  have hcovered : wpUntil (hostMachine rel) (Cmd.Fatal smooth) (Safe rel V) (rollbackSteps vars)
      (fun _ => Covered rel v vars) h :=
    until_covered hv (only_rollbackSteps_of covers_of_spares) hh
  rw [rollback]
  refine wpUntil_bind_of (wpUntil_and hcovered
    (wpUntil_and hreturned (establishes_rollbackSteps ⟨hh.back, hstate⟩))) ?_
  rintro ok t ⟨hcovered, hreturned, hsmooth, htools⟩
  cases ok with
  | false =>
    refine ⟨by simp, fun _ => ⟨?_, hcovered.safe hv⟩⟩
    by_contra hs
    exact absurd (hsmooth (by simpa using hs)) (by simp)
  | true =>
    obtain ⟨⟨stage, tree, hstage, htree, hrelease⟩, hcurrent, hversion, a, archive, hpreimage,
      harchive, -, hconfig, -⟩ := hreturned rfl
    obtain ⟨stage', hstage', hholds⟩ := hh.back.stage
    obtain ⟨a', archive', hpreimage', harchive', -, hconfig'⟩ := hh.back.archive
    obtain rfl := Option.some.inj (hstage.symm.trans hstage')
    obtain rfl := Option.some.inj (hpreimage.symm.trans hpreimage')
    obtain rfl := Option.some.inj (harchive.symm.trans harchive')
    have hone : OneRelease rel v t := by
      refine ⟨hversion.trans hh.back.currentVersion, ?_, ?_, fun f => ?_, (htools rfl).1⟩
      · rw [hcurrent, hh.back.oldCurrent]
      · rw [← hholds.releaseBefore, htree, ← hrelease, hh.back.currentVersion]
      · rw [hconfig]
        exact hconfig' f
    have hwhole : Whole rel V v t := ⟨hone, (htools rfl).2, hcovered.safe hv⟩
    rw [if_pos rfl]
    refine wpUntil_bind_of (until_inert closed_safe hwhole.safe rfl rfl) fun _ u hu => ?_
    refine wpUntil_bind_of (until_clearJournal hv (closed_whole hu.1 hwhole)) fun _ w hw => ?_
    exact ⟨fun _ => hw, by simp⟩

/-- **Recovery brings an installation to rest**, or it failed and can be repeated. -/
theorem until_recoverInterrupted (hv : V v) (hh : Resumable rel v h) :
    wpUntil (hostMachine rel) (Cmd.Fatal smooth) (Safe rel V) recoverInterrupted
      (fun error t => (error = none → AtRest rel v t) ∧
        (error ≠ none → smooth = false ∧ Safe rel V t)) h := by
  have hsafe : Safe rel V h := .inr ⟨v, hv, hh⟩
  have hobs : (hostMachine rel).obs h = h := rfl
  rw [recoverInterrupted, wpUntil_look, hobs]
  cases hjournal : h.journal with
  | none =>
    have hcheckpoint : h.checkpoint = none := hh.checkpoint hjournal
    have hrest : AtRest rel v h :=
      ⟨hh.release (by simp [hjournal]), hjournal, hcheckpoint, hh.state⟩
    simpa [hcheckpoint] using hrest
  | some j =>
    have hread : readJournal h j = some j.read := by
      rw [readJournal, if_neg, if_pos (hh.stage j hjournal)]
      · rfl
      · rintro ⟨hphase, hmissing⟩
        obtain ⟨a, archive, hpreimage, harchive, -⟩ := (hh.back j hjournal hphase).archive
        have hpreimage : j.preimage = some a := hpreimage
        rw [hpreimage, Host.hasArchive, harchive] at hmissing
        cases hmissing
    dsimp only
    rw [hread]
    change wpUntil _ _ _ (recoverFrom j.read j.phase) _ h
    rw [recoverFrom, wpUntil_ite]
    refine ⟨fun hphase => ?_, fun hphase => ?_⟩
    · have hwhole : Whole rel V v h := by
        refine ⟨hh.release ?_, hh.state, hsafe⟩
        rintro _ hj
        obtain rfl := Option.some.inj (hjournal.symm.trans hj)
        exact hphase
      refine wpUntil_bind_of (until_resumeStack_whole hwhole) ?_
      rintro ok t ⟨ht, hfailed⟩
      cases ok with
      | true =>
        refine wpUntil_post (until_clear hv ht _ _) ?_
        rintro _ u ⟨rfl, hu⟩
        exact ⟨fun _ => hu, fun hne => absurd rfl hne⟩
      | false => exact ⟨by simp, fun _ => ⟨hfailed rfl, ht.safe⟩⟩
    · have hcovered : Covered rel v j.read h :=
        ⟨hh.back j hjournal hphase, .inl ⟨j.phase, hphase, hjournal⟩⟩
      refine wpUntil_bind_of (until_rollback hv hcovered hh.state) ?_
      rintro ok t ⟨hrest, hfailed⟩
      cases ok with
      | true =>
        refine wpUntil_post (until_cleanup hv (hrest rfl) _ _) ?_
        rintro _ u ⟨rfl, hu⟩
        exact ⟨fun _ => hu, fun hne => absurd rfl hne⟩
      | false => exact ⟨by simp, fun _ => hfailed rfl⟩

end EzOpenPN.Upgrade
