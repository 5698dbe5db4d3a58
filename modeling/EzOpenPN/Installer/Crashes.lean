import EzOpenPN.Installer.Recovery

/-!
# Crashes of an upgrade

A run of `upgrade_run` from a host that a later run can go on from keeps
`EzOpenPN.Upgrade.Safe` between any two of its commands, and also where a crash cuts a command
short: either the host can be resumed, or it is stuck. This file goes through the transaction for
that, from the first stage to the last checkpoint, and then puts runs one after the other.

`EzOpenPN.Upgrade.recovered_iff` is the result: the run that goes well, after any number of
crashes, ends without a journal and a checkpoint and with everything belonging to one release,
**if and only if no crash left a stuck host**. What makes it hold at all is that a stuck host stays
stuck (`EzOpenPN.Upgrade.wp_upgradeRun_stuck`).
-/

namespace EzOpenPN.Upgrade

open Script

variable {rel : Version → Release} {V : Version → Prop} {smooth : Bool} {v : Version}
  {h t u : Host} {vars : UpgradeVars}

/-! ### The journal -/

/-- The journal is written, unless its temporary file is in the way. -/
def Host.written (h : Host) (vars : UpgradeVars) (phase : Phase) : Host :=
  { h with journal := if h.tmp .journal then h.journal else some (vars.journal phase) }

/-- So is the checkpoint. -/
def Host.announced (h : Host) (vars : UpgradeVars) (phase : Phase) : Host :=
  { h.written vars phase with
    checkpoint := if h.tmp .checkpoint then h.checkpoint else some (.upgrade phase) }

theorem alike_put_of_alike (content : ManagedContent) (ht : h.Alike t) :
    (h.put content).Alike (t.put content) := by
  obtain ⟨d, s, r, rfl⟩ := ht
  cases content <;> exact ⟨d, s, r, rfl⟩

/-- **The journal and the checkpoint are written**: a file that a leftover of an earlier crash is in
the way of is skipped, and only the checkpoint decides on the status. -/
theorem until_writeJournal (phase : Phase) (hh : Safe rel V h)
    (hjournal : Safe rel V (h.written vars phase))
    (hcheckpoint : Safe rel V (h.announced vars phase)) :
    wpUntil (hostMachine rel) (Cmd.Fatal smooth) (Safe rel V) (writeJournal vars phase)
      (fun ok t => ok = !h.tmp .checkpoint ∧ (h.announced vars phase).Alike t) h := by
  rw [writeJournal]
  refine wpUntil_bind_of (until_atomicWrite closed_safe (.journal (vars.journal phase)) hh
    (safe_setTmp (m := .journal) (by simp) hh) fun hfree => ?_) ?_
  · have hfree : h.tmp .journal = false := hfree
    have hput : h.written vars phase = h.put (.journal (vars.journal phase)) := by
      rw [Host.written, hfree]
      rfl
    exact hput ▸ hjournal
  rintro ok t ⟨hkept, hput⟩
  have hwritten : (h.written vars phase).Alike t := by
    rw [Host.written]
    cases hfree : h.tmp .journal with
    | true => exact (hkept hfree).2
    | false => exact (hput hfree).2
  have htmp : t.tmp = h.tmp := by
    obtain ⟨d, s, r, rfl⟩ := hwritten
    rfl
  have hannounced : h.tmp .checkpoint = false →
      h.announced vars phase = (h.written vars phase).put (.checkpoint phase) := by
    intro hfree
    rw [Host.announced, hfree]
    rfl
  have hafter : t.tmp .checkpoint = false → Safe rel V (t.put (.checkpoint phase)) := by
    intro hfree
    rw [hannounced ((congrFun htmp _).symm.trans hfree)] at hcheckpoint
    exact closed_safe (alike_put_of_alike _ hwritten) hcheckpoint
  have hsafe : Safe rel V t := closed_safe hwritten hjournal
  refine wpUntil_post (until_atomicWrite closed_safe (.checkpoint phase) hsafe
    (safe_setTmp (m := .checkpoint) (by simp) hsafe) hafter) ?_
  rintro ok u ⟨hkept, hput⟩
  cases hfree : h.tmp .checkpoint with
  | true =>
    obtain ⟨rfl, hu⟩ := hkept ((congrFun htmp _).trans hfree)
    refine ⟨rfl, ?_⟩
    rw [Host.announced, hfree]
    exact hwritten.trans hu
  | false =>
    obtain ⟨rfl, hu⟩ := hput ((congrFun htmp _).trans hfree)
    refine ⟨rfl, ?_⟩
    rw [hannounced hfree]
    exact (alike_put_of_alike _ hwritten).trans hu

/-! ### While the old release runs -/

/-- A stage holds the rendered configuration of a release. -/
def RendersRelease (rel : Version → Release) (target : Version) (stage : Stage) : Prop :=
  ∀ f, stage.rendered f = some ((rel target).config f)

/-- **A stage with everything in it.** -/
def FullStage (rel : Version → Release) (v : Version) (vars : UpgradeVars) (h : Host) : Prop :=
  ∃ stage, h.stages vars.stage = some stage ∧ HoldsRelease rel v stage ∧
    RendersRelease rel vars.targetVersion stage

/-- **A transaction is prepared**: nothing was touched, and the journal was written unless its
temporary file was in the way. -/
structure Announced (rel : Version → Release) (v : Version) (vars : UpgradeVars) (h : Host) :
    Prop where
  release : OneRelease rel v h
  state : h.tmp .state = false
  stage : FullStage rel v vars h
  journal : h.journal = some (vars.journal .prepared) ∧ h.tmp .journal = false ∨
    h.journal = none ∧ h.tmp .journal = true

theorem FullStage.isSome (hh : FullStage rel v vars h) : (h.stages vars.stage).isSome = true := by
  obtain ⟨stage, hstage, -⟩ := hh
  exact Option.isSome_iff_exists.mpr ⟨stage, hstage⟩

theorem Announced.whole (hv : V v) (hh : Announced rel v vars h) : Whole rel V v h := by
  refine ⟨hh.release, hh.state, ?_⟩
  rcases hh.journal with ⟨hjournal, -⟩ | ⟨hjournal, -⟩
  · refine .inr ⟨v, hv, hh.state, by simp [hjournal], ?_, ?_, fun _ => hh.release⟩
    · rintro j hj
      obtain rfl := Option.some.inj (hjournal.symm.trans hj)
      exact hh.stage.isSome
    · rintro j hj hphase
      obtain rfl := Option.some.inj (hjournal.symm.trans hj)
      exact absurd rfl hphase
  · by_cases hcheckpoint : h.checkpoint.isSome = true
    · exact .inl (.inl ⟨congrArg Option.isNone hjournal, hcheckpoint⟩)
    · have hrest : AtRest rel v h :=
        ⟨hh.release, hjournal, by simpa using hcheckpoint, hh.state⟩
      exact hrest.safe hv

theorem Announced.perform {c : Cmd} (hh : Announced rel v vars h)
    (hc : c.spares (releaseParts ++ [.journal, .tmp, .stages]) = true) (x : Choice) :
    Announced rel v vars ((hostMachine rel).perform c x h).2 := by
  have hsame : Host.Same (releaseParts ++ [.journal, .tmp, .stages]) h
      ((hostMachine rel).perform c x h).2 :=
    Host.Same.perform hc (by decide) x.outcome x.panel h
  have hjournal := hsame .journal (by decide)
  have htmp := hsame .tmp (by decide)
  have hstages := hsame .stages (by decide)
  simp only [Part.Same] at hjournal htmp hstages
  refine ⟨hh.release.of_same fun p hp => hsame p (List.mem_append_left _ hp), ?_, ?_, ?_⟩
  · rw [htmp]
    exact hh.state
  · rw [FullStage, hstages]
    exact hh.stage
  · rw [hjournal, htmp]
    exact hh.journal

/-- A command that writes into a stage. -/
theorem until_stage {c : Cmd} {s : ℕ} {stage : Stage} (hv : V v) (hh : AtRest rel v h)
    (hc : c.external = false) (hspares : c.spares restParts = true)
    (heffect : (c.effect rel .ok h).2 = h.setStage s (some stage)) :
    wpUntil (hostMachine rel) (Cmd.Fatal smooth) (Safe rel V) (run c)
      (fun _ t => AtRest rel v t ∧ t.stages s = some stage) h := by
  rw [wpUntil_run]
  refine fun x => ⟨(hh.perform hspares x).safe hv, fun hx => ⟨hh.perform hspares x, ?_⟩⟩
  obtain ⟨-, hstate⟩ := alike_of_not_fatal rel h hc hx
  rw [heffect] at hstate
  obtain ⟨d, secrets, r, ht⟩ := hstate
  rw [ht]
  exact Function.update_self _ _ _

/-- A stage with a copy of one more tool. -/
def Stage.withTool (stage : Stage) (tool : HostTool) (content : Bytes) : Stage :=
  { stage with
    copy := Function.update stage.copy tool (some content)
    marker := Function.update stage.marker tool true }

theorem until_saveHostTool {s : ℕ} {stage : Stage} (hv : V v) (hh : AtRest rel v h)
    (hs : h.stages s = some stage) (hdirectory : stage.directory = true) (tool : HostTool) :
    wpUntil (hostMachine rel) (Cmd.Fatal smooth) (Safe rel V) (saveHostTool s tool)
      (fun _ t => AtRest rel v t ∧
        t.stages s = some (stage.withTool tool ((rel v).tool tool))) h := by
  have htool : h.tools tool = some ((rel v).tool tool) := hh.release.tools tool
  rw [saveHostTool, wpUntil_look, wpUntil_ite]
  refine ⟨fun _ => ?_, fun hnone => absurd (Option.isSome_iff_exists.mpr ⟨_, htool⟩) hnone⟩
  have hcopied : ((Cmd.copyTool s tool).effect rel .ok h).2 = h.setStage s (some { stage with
      copy := Function.update stage.copy tool (some ((rel v).tool tool)) }) := by
    simp [Cmd.effect, hs, htool, hdirectory, Outcome.leaves]
  refine wpUntil_bind_of (until_stage hv hh rfl rfl hcopied) ?_
  rintro - t ⟨ht, hstage⟩
  refine until_stage hv ht rfl rfl ?_
  simp [Cmd.effect, hstage, hdirectory, Outcome.apply, Outcome.took, Stage.withTool]

/-- **Both tools are saved.** -/
theorem until_saveHostTools {s : ℕ} {stage : Stage} (hv : V v) (hh : AtRest rel v h)
    (hs : h.stages s = some stage) :
    wpUntil (hostMachine rel) (Cmd.Fatal smooth) (Safe rel V) (saveHostTools s)
      (fun _ t => AtRest rel v t ∧ ∃ stage', t.stages s = some stage' ∧
        stage'.rendered = stage.rendered ∧
        ∀ tool, stage'.copy tool = some ((rel v).tool tool) ∧ stage'.marker tool = true) h := by
  have hmade : ((Cmd.makeToolDirectory s).effect rel .ok h).2 =
      h.setStage s (some { stage with directory := true }) := by
    simp [Cmd.effect, hs, Outcome.apply, Outcome.took]
  refine wpUntil_bind_of (until_stage hv hh rfl rfl hmade) ?_
  rintro - t ⟨ht, hdirectory⟩
  refine wpUntil_bind_of (until_saveHostTool hv ht hdirectory rfl .unit) ?_
  rintro - u ⟨hu, hunit⟩
  refine wpUntil_post (until_saveHostTool hv hu hunit rfl .cli) ?_
  rintro - w ⟨hw, hcli⟩
  refine ⟨hw, _, hcli, rfl, fun tool => ?_⟩
  cases tool with
  | unit => exact ⟨rfl, rfl⟩
  | cli => exact ⟨rfl, rfl⟩

/-- The configuration of the target is rendered, if that succeeds. -/
theorem until_prepare {s : ℕ} {stage : Stage} (target : Version) (hv : V v) (hh : AtRest rel v h)
    (hs : h.stages s = some stage) :
    wpUntil (hostMachine rel) (Cmd.Fatal smooth) (Safe rel V) (run (.prepare s target))
      (fun ok t => AtRest rel v t ∧ (ok = true → ∃ stage', t.stages s = some stage' ∧
        RendersRelease rel target stage')) h := by
  rw [wpUntil_run]
  refine fun x => ⟨(hh.perform rfl x).safe hv, fun _ => ⟨hh.perform rfl x, fun hok => ?_⟩⟩
  have hcommit : ((hostMachine rel).perform (.prepare s target) x h).2.stages =
      ((Cmd.prepare s target).effect rel x.outcome h).2.stages :=
    commit_same (p := .stages) nofun _ x.panel
  rw [hcommit]
  simp only [hostMachine, Cmd.effect, hs] at hok ⊢
  have hout : x.outcome = .ok := by
    cases hx : x.outcome with
    | ok => rfl
    | _ => simp [hx, Outcome.status] at hok
  rw [hout]
  exact ⟨_, Function.update_self _ _ _, fun f => rfl⟩

/-- **The journal of a transaction that has touched nothing may be written**, with the checkpoint;
and where the journal cannot be written, the checkpoint may be there without it. -/
theorem Whole.announce (hv : V v) (hh : Whole rel V v h) (phase : Phase)
    (hstage : (h.stages vars.stage).isSome = true)
    (hback : phase ≠ .prepared → CanReturn rel v vars h)
    (hjournal : h.tmp .journal = true → h.journal = none) :
    Safe rel V (h.written vars phase) ∧ Whole rel V v (h.announced vars phase) := by
  have hone : ∀ {journal : Option Journal} {checkpoint : Option Checkpoint},
      OneRelease rel v { h with journal := journal, checkpoint := checkpoint } :=
    ⟨hh.release.version, hh.release.current, hh.release.release, hh.release.config,
      hh.release.tools⟩
  have hafter : ∀ checkpoint : Option Checkpoint, (checkpoint = h.checkpoint ∨ checkpoint.isSome) →
      Safe rel V { h.written vars phase with checkpoint := checkpoint } := by
    intro checkpoint hcheckpoint
    rw [Host.written]
    cases hfree : h.tmp .journal with
    | true =>
      rcases hcheckpoint with rfl | hcheckpoint
      · exact hh.safe
      · exact .inl (.inl ⟨congrArg Option.isNone (hjournal hfree), hcheckpoint⟩)
    | false =>
      refine .inr ⟨v, hv, hh.state, nofun, ?_, ?_, fun _ => hone⟩
      · rintro _ ⟨rfl⟩
        exact hstage
      · rintro _ ⟨rfl⟩ hphase
        have hback := hback hphase
        exact ⟨hback.currentVersion, hback.oldCurrent, hback.archive, hback.stage⟩
  refine ⟨hafter h.checkpoint (.inl rfl), hone, hh.state, hafter _ ?_⟩
  cases h.tmp .checkpoint with
  | true => exact .inl rfl
  | false => exact .inr rfl

/-- The transaction is of an installation at rest. -/
structure OfVersion (v : Version) (vars : UpgradeVars) : Prop where
  currentVersion : vars.currentVersion = v
  oldCurrent : vars.oldCurrent = v

/-- **The preparation**: if it succeeds, everything a rollback needs is saved and announced. -/
theorem until_prepareRelease {stage : Stage} (hv : V v) (hvars : OfVersion v vars)
    (hh : AtRest rel v h) (hs : h.stages vars.stage = some stage) :
    wpUntil (hostMachine rel) (Cmd.Fatal smooth) (Safe rel V) (prepareRelease vars)
      (fun failure t => Whole rel V v t ∧ (failure = none → Announced rel v vars t)) h := by
  have hstop : ∀ {t : Host} {failure : Failure}, AtRest rel v t →
      Whole rel V v t ∧ (some failure = none → Announced rel v vars t) :=
    fun ht => ⟨ht.whole hv, by simp⟩
  -- the images are pulled
  refine wpUntil_firstFailure_of (R := fun _ t => AtRest rel v t ∧
    t.stages vars.stage = some stage) ?_ ?_ fun t ht => hstop ht.1
  · refine wpUntil_post (until_inert closed_safe (hh.safe hv) rfl rfl) ?_
    rintro ok t ⟨ht, -⟩
    refine ⟨closed_atRest ht hh, ?_⟩
    obtain ⟨d, s, r, rfl⟩ := ht
    exact hs
  rintro t ⟨ht, hs⟩
  refine wpUntil_firstFailure_of (until_prepare _ hv ht hs) ?_ fun t ht => hstop ht.1
  rintro t ⟨ht, hprepared⟩
  obtain ⟨stage, hs, hrendered⟩ := hprepared rfl
  refine wpUntil_firstFailure_of (until_saveHostTools hv ht hs) ?_ fun t ht => hstop ht.1
  rintro t ⟨ht, stage', hs, hsame, htools⟩
  -- the directory of the release is saved
  have hrelease : t.releases vars.oldCurrent = some (rel v).tree := by
    rw [hvars.oldCurrent]
    exact ht.release.release
  have hsaved : ((Cmd.saveRelease vars.stage vars.oldCurrent).effect rel .ok t).2 =
      t.setStage vars.stage (some { stage' with releaseBefore := some (rel v).tree }) := by
    simp [Cmd.effect, hs, hrelease, Outcome.leaves]
  refine wpUntil_firstFailure_of (until_stage hv ht rfl rfl hsaved) ?_ fun t ht => hstop ht.1
  rintro u ⟨hu, hs⟩
  have hfull : FullStage rel v vars u :=
    ⟨_, hs, ⟨rfl, fun tool => (htools tool).1, fun tool => (htools tool).2⟩, fun f => by
      change stage'.rendered f = _
      rw [hsame]
      exact hrendered f⟩
  obtain ⟨hwritten, hwhole⟩ := (hu.whole hv).announce hv .prepared hfull.isSome
    (fun hne => absurd rfl hne) fun _ => hu.journal
  refine wpUntil_firstFailure_of (until_writeJournal .prepared (hu.safe hv) hwritten hwhole.safe)
    ?_ ?_
  · rintro w ⟨-, hw⟩
    have hwhole := closed_whole hw hwhole
    obtain ⟨d, s, r, rfl⟩ := hw
    refine ⟨hwhole, fun _ => ⟨hwhole.release, hwhole.state, hfull, ?_⟩⟩
    cases hfree : u.tmp .journal with
    | true => exact .inr ⟨by simp [Host.announced, Host.written, hfree, hu.journal], hfree⟩
    | false => exact .inl ⟨by simp [Host.announced, Host.written, hfree], hfree⟩
  · rintro w ⟨-, hw⟩
    exact ⟨closed_whole hw hwhole, by simp⟩

/-! ### Once the stack is stopped -/

/-- Nothing was touched: the old stack is started again. -/
theorem until_resumeOld (hv : V v) (hh : Whole rel V v h) (vars : UpgradeVars) :
    wpUntil (hostMachine rel) (Cmd.Fatal smooth) (Safe rel V) (resumeOld vars)
      (fun _ => Ends rel V smooth) h := by
  refine wpUntil_bind_of (until_resumeStack_whole hh) ?_
  rintro ok t ⟨ht, hfailed⟩
  cases ok with
  | true => exact wpUntil_post (until_record_clear hv ht _ _) fun _ _ hu => hu.2.ends hv
  | false => exact .inr ⟨hfailed rfl, ht.safe⟩

/-- **The stack is stopped and archived**: if that succeeds the installation may be touched. -/
theorem until_takePreimage (hv : V v) (hvars : OfVersion v vars) (hh : Announced rel v vars h) :
    wpUntil (hostMachine rel) (Cmd.Fatal smooth) (Safe rel V) (takePreimage vars)
      (fun result t => (result.1 ≠ none → Whole rel V v t) ∧
        (result.1 = none → result.2.targetVersion = vars.targetVersion ∧
          Covered rel v result.2 t ∧ t.tmp .state = false ∧ FullStage rel v result.2 t)) h := by
  have hfail : ∀ {t : Host} {failure : Failure}, Announced rel v vars t →
      ((some failure, vars).1 ≠ none → Whole rel V v t) ∧
        ((some failure, vars).1 = none → (some failure, vars).2.targetVersion = vars.targetVersion ∧
          Covered rel v (some failure, vars).2 t ∧ t.tmp .state = false ∧
          FullStage rel v (some failure, vars).2 t) := fun ht => ⟨fun _ => ht.whole hv, by simp⟩
  rw [takePreimage, wpUntil_bind]
  intro x
  have h₁ : Announced rel v vars ((hostMachine rel).perform (.service .stop) x h).2 :=
    hh.perform rfl x
  refine ⟨(h₁.whole hv).safe, fun _ => wpUntil_ite.mpr ⟨fun _ => ?_, fun _ => hfail h₁⟩⟩
  generalize ((hostMachine rel).perform (.service .stop) x h).2 = t at h₁
  rw [wpUntil_bind]
  intro y
  have h₂ : Announced rel v vars ((hostMachine rel).perform .createPreimage y t).2 :=
    h₁.perform rfl y
  refine ⟨(h₂.whole hv).safe, fun _ => wpUntil_ite.mpr ⟨fun hok => ?_, fun _ => hfail h₂⟩⟩
  have harchives : ((hostMachine rel).perform .createPreimage y t).2.archives =
      t.archives ++ [t.archive] := by
    refine (commit_same (p := .archives) (by simp) _ y.panel).trans ?_
    exact congrArg Host.archives (Outcome.apply_of_status hok)
  generalize ((hostMachine rel).perform .createPreimage y t).2 = u at h₂ harchives
  rw [wpUntil_look]
  change wpUntil _ _ _ ((writeJournal { vars with preimage := some (u.archives.length - 1) }
    .switching).bind fun ok => done (if ok then none else some Failure.journal,
      { vars with preimage := some (u.archives.length - 1) })) _ u
  have hback : CanReturn rel v { vars with preimage := some (u.archives.length - 1) } u := by
    obtain ⟨stage, hstage, hholds, -⟩ := h₂.stage
    refine ⟨hvars.currentVersion, hvars.oldCurrent, ⟨_, t.archive, rfl, ?_, h₁.release.version,
      h₁.release.config⟩, stage, hstage, hholds⟩
    rw [harchives]
    simp
  have hfull : FullStage rel v { vars with preimage := some (u.archives.length - 1) } u := h₂.stage
  have htarget : { vars with preimage := some (u.archives.length - 1) }.targetVersion =
    vars.targetVersion := rfl
  generalize { vars with preimage := some (u.archives.length - 1) } = vars' at hback hfull htarget
  have hjournal : u.tmp .journal = true → u.journal = none := by
    intro hfull
    rcases h₂.journal with ⟨-, hfree⟩ | ⟨hnone, -⟩
    · rw [hfull] at hfree
      cases hfree
    · exact hnone
  obtain ⟨hwritten, hwhole⟩ :=
    (h₂.whole hv).announce hv .switching hfull.isSome (fun _ => hback) hjournal
  refine wpUntil_bind_of (until_writeJournal .switching (h₂.whole hv).safe hwritten hwhole.safe) ?_
  rintro ok w ⟨hok, hw⟩
  refine ⟨fun _ => closed_whole hw hwhole, fun hnone => ⟨htarget, ?_, ?_, ?_⟩⟩
  · have hfree : u.tmp .checkpoint = false := by
      cases hfull : u.tmp .checkpoint with
      | false => rfl
      | true => simp [hok, hfull] at hnone
    refine closed_covered hw ⟨⟨hback.currentVersion, hback.oldCurrent, hback.archive,
      hback.stage⟩, ?_⟩
    rw [Host.announced, Host.written, hfree]
    cases hfull : u.tmp .journal with
    | true => exact .inr ⟨hjournal hfull, rfl⟩
    | false => exact .inl ⟨.switching, by simp, rfl⟩
  · exact (closed_whole hw hwhole).state
  · obtain ⟨d, s, r, rfl⟩ := hw
    exact hfull

/-- The commands that leave the temporary file of the state alone. -/
def Cmd.sparesState : Cmd → Bool
  | .create .state | .discard .state | .replace (.state _) => false
  | _ => true

theorem state_perform {c : Cmd} (hc : c.sparesState = true) (x : Choice) (h : Host) :
    ((hostMachine rel).perform c x h).2.tmp .state = h.tmp .state := by
  have hcommit : ((hostMachine rel).perform c x h).2.tmp = (c.effect rel x.outcome h).2.tmp :=
    commit_same (p := .tmp) nofun _ x.panel
  rw [hcommit]
  cases c with
  | create m =>
    cases m with
    | state => cases hc
    | _ =>
      simp only [Cmd.effect, Outcome.apply]
      repeat' split
      all_goals rfl
  | discard m =>
    cases m with
    | state => cases hc
    | _ =>
      simp only [Cmd.effect, Outcome.apply]
      split <;> rfl
  | replace content =>
    cases content with
    | state => cases hc
    | _ =>
      simp only [Cmd.effect, Outcome.apply]
      repeat' split
      all_goals rfl
  | service action =>
    have hsame : ((Cmd.service action).effect rel x.outcome h).2.tmp = h.tmp := by
      cases action <;> exact effect_same (p := .tmp) rfl x.outcome h
    rw [hsame]
  | _ => exact congrFun (effect_same (p := .tmp) rfl x.outcome h) _

/-- **A switch leaves no temporary file of the state.** -/
theorem until_switchRelease_state (hstate : h.tmp .state = false) :
    wpUntil (hostMachine rel) (Cmd.Fatal smooth) (fun _ => True) (switchRelease vars)
      (fun _ t => t.tmp .state = false) h := by
  have hkeep : ∀ {p : Shell Bool} {t : Host}, (p.Only fun c => c.sparesState = true) →
      t.tmp .state = false → wpUntil (hostMachine rel) (Cmd.Fatal smooth) (fun _ => True) p
        (fun _ u => u.tmp .state = false) t := by
    intro p t hp ht
    have hwp : wp (hostMachine rel) (fun u => u.tmp .state = false) p
        (fun _ u => u.tmp .state = false) t :=
      hp.keeps (fun c hc u x hu => (state_perform hc x u).trans hu) t ht
    exact wpUntil_mono (wpUntil_of_wp hwp) (fun _ _ => trivial) fun _ _ hu => hu
  have hjournal : ∀ phase, (writeJournal vars phase).Only fun c => c.sparesState = true :=
    fun _ => .bind (only_atomicWrite rfl rfl rfl rfl) fun _ => only_atomicWrite rfl rfl rfl rfl
  -- the state is written last
  have hlast : ∀ {t : Host}, t.tmp .state = false → wpUntil (hostMachine rel) (Cmd.Fatal smooth)
      (fun _ => True) (writeStateVersion vars.targetVersion)
      (fun _ u => u.tmp .state = false) t := by
    intro t ht
    refine wpUntil_post (until_atomicWrite (fun _ _ _ _ => trivial) (.state vars.targetVersion)
      trivial trivial fun _ => trivial) ?_
    rintro ok u ⟨-, hput⟩
    obtain ⟨-, d, s, r, rfl⟩ := hput ht
    exact ht
  have hall : ∀ {ps : List (Shell Bool)},
      (∀ p ∈ ps, p.Only fun c => c.sparesState = true) →
      (all ps).Only fun c => c.sparesState = true := fun hp => .all hp
  refine wpUntil_firstFailure_of (hkeep (only_removeRelease rfl) hstate) (fun t ht => ?_)
    fun _ ht => ht
  refine wpUntil_firstFailure_of (hkeep (hall (by simpa using ⟨.run rfl, .run rfl⟩)) ht)
    (fun t ht => ?_) fun _ ht => ht
  refine wpUntil_firstFailure_of (hkeep (hall ?_) ht) (fun t ht => ?_) fun _ ht => ht
  · simp only [List.forall_mem_cons, List.not_mem_nil, false_implies, implies_true, and_true]
    exact ⟨.run rfl, .run rfl, .run rfl, .run rfl, .run rfl, .run rfl⟩
  refine wpUntil_firstFailure_of (hkeep (hall (by simpa using ⟨.run rfl, .run rfl, .run rfl⟩)) ht)
    (fun t ht => ?_) fun _ ht => ht
  refine wpUntil_firstFailure_of (hkeep (hjournal _) ht) (fun t ht => ?_) fun _ ht => ht
  refine wpUntil_firstFailure_of (hkeep (.run rfl) ht) (fun t ht => ?_) fun _ ht => ht
  refine wpUntil_firstFailure_of (hkeep (hjournal _) ht) (fun t ht => ?_) fun _ ht => ht
  refine wpUntil_firstFailure_of (hkeep (.run rfl) ht) (fun t ht => ?_) fun _ ht => ht
  refine wpUntil_firstFailure_of (hkeep (.run rfl) ht) (fun t ht => ?_) fun _ ht => ht
  refine wpUntil_firstFailure_of (hkeep (hjournal _) ht) (fun t ht => ?_) fun _ ht => ht
  exact wpUntil_firstFailure_of (hlast ht) (fun _ hu => hu) fun _ hu => hu

/-- **The switch**: it stays covered, and if it succeeds everything belongs to the target. -/
theorem until_switchRelease (hv : V v) (hh : Covered rel v vars h) (hstate : h.tmp .state = false)
    (hfull : FullStage rel v vars h) :
    wpUntil (hostMachine rel) (Cmd.Fatal smooth) (Safe rel V) (switchRelease vars)
      (fun failure t => Covered rel v vars t ∧ t.tmp .state = false ∧
        (failure = none → OneRelease rel vars.targetVersion t)) h := by
  obtain ⟨stage, hstage, -, hrendered⟩ := hfull
  have hcovers : ∀ {phase : Phase}, phase ≠ .prepared →
      (Cmd.replace (.journal (vars.journal phase))).Covers vars := by
    intro phase hphase
    refine ⟨⟨rfl, nofun, ?_⟩, nofun⟩
    rintro _ ⟨rfl⟩
    exact ⟨phase, hphase, rfl⟩
  have hcheckpoint : ∀ phase, (Cmd.replace (.checkpoint phase)).Covers vars :=
    fun _ => ⟨steady_of_spares vars rfl, nofun⟩
  have hcovered : wpUntil (hostMachine rel) (Cmd.Fatal smooth) (Safe rel V) (switchRelease vars)
      (fun _ => Covered rel v vars) h :=
    until_covered hv (only_switchRelease_of covers_of_spares hcovers hcheckpoint) hh
  have hswitched : wpUntil (hostMachine rel) (Cmd.Fatal smooth) (fun _ => True) (switchRelease vars)
      (fun failure t => failure = none → OneRelease rel vars.targetVersion t) h :=
    wpUntil_of_wp (wp_switchRelease hstage hrendered)
  exact wpUntil_and hcovered (wpUntil_and (until_switchRelease_state hstate) hswitched)

/-- Something was touched: the release is returned. -/
theorem until_returnOld (hv : V v) (hh : Covered rel v vars h) (hstate : h.tmp .state = false) :
    wpUntil (hostMachine rel) (Cmd.Fatal smooth) (Safe rel V) (returnOld vars)
      (fun _ => Ends rel V smooth) h := by
  refine wpUntil_bind_of (until_rollback hv hh hstate) ?_
  rintro ok t ⟨hrest, hfailed⟩
  cases ok with
  | true => exact wpUntil_post (until_cleanup hv (hrest rfl) _ _) fun _ _ hu => hu.2.ends hv
  | false => exact .inr (hfailed rfl)

/-! ### Whole runs -/

theorem until_stoppedTransaction (hv : V v) (htarget : V vars.targetVersion)
    (hvars : OfVersion v vars) (hh : Announced rel v vars h) :
    wpUntil (hostMachine rel) (Cmd.Fatal smooth) (Safe rel V) (stoppedTransaction vars)
      (fun _ => Ends rel V smooth) h := by
  refine wpUntil_bind_of (until_takePreimage hv hvars hh) ?_
  rintro ⟨failure, vars'⟩ t ⟨hfailed, htaken⟩
  cases failure with
  | some _ => exact until_resumeOld hv (hfailed nofun) vars'
  | none =>
    obtain ⟨hsame, hcovered, hstate, hfull⟩ := htaken rfl
    change wpUntil _ _ _ ((switchRelease vars').bind _) _ t
    refine wpUntil_bind_of (until_switchRelease hv hcovered hstate hfull) ?_
    rintro failure u ⟨hcovered, hstate, hswitched⟩
    cases failure with
    | some _ => exact until_returnOld hv hcovered hstate
    | none =>
      have htarget' : V vars'.targetVersion := by
        rw [hsame]
        exact htarget
      have hwhole : Whole rel V vars'.targetVersion u := ⟨hswitched rfl, hstate, hcovered.safe hv⟩
      exact wpUntil_post (until_clear htarget' hwhole _ _) fun _ _ hw => hw.2.ends htarget'

theorem until_stagedTransaction {stage : Stage} (hv : V v) (htarget : V vars.targetVersion)
    (hvars : OfVersion v vars) (hh : AtRest rel v h) (hs : h.stages vars.stage = some stage) :
    wpUntil (hostMachine rel) (Cmd.Fatal smooth) (Safe rel V) (stagedTransaction vars)
      (fun _ => Ends rel V smooth) h := by
  refine wpUntil_bind_of (until_prepareRelease hv hvars hh hs) ?_
  rintro failure t ⟨hwhole, hannounced⟩
  cases failure with
  | some _ => exact wpUntil_post (until_record_clear hv hwhole _ _) fun _ _ hu => hu.2.ends hv
  | none => exact until_stoppedTransaction hv htarget hvars (hannounced rfl)

theorem until_transactionTo (mode : Mode) {target : Version} (hv : V v) (htarget : V target)
    (hh : AtRest rel v h) :
    wpUntil (hostMachine rel) (Cmd.Fatal smooth) (Safe rel V) (transactionTo mode v target)
      (fun _ => Ends rel V smooth) h := by
  have hrest : Ends rel V smooth h := hh.ends hv
  rw [transactionTo]
  refine wpUntil_ite.mpr ⟨fun _ => hrest, fun _ => wpUntil_ite.mpr ⟨fun _ => hrest, fun _ => ?_⟩⟩
  refine wpUntil_ite.mpr ⟨fun _ => hrest, fun _ => ?_⟩
  rw [wpUntil_look, wpUntil_bind]
  intro x
  have hmade := hh.perform (c := .makeStage h.stageCount) rfl x
  refine ⟨hmade.safe hv, fun hx => wpUntil_ite.mpr ⟨fun _ => ?_, fun _ => hmade.ends hv⟩⟩
  obtain ⟨-, hstate⟩ := alike_of_not_fatal rel h (c := .makeStage h.stageCount) rfl hx
  have hstage : ((hostMachine rel).perform (.makeStage h.stageCount) x h).2.stages h.stageCount =
      some .empty := by
    obtain ⟨d, s, r, ht⟩ := hstate
    rw [ht]
    exact Function.update_self _ _ _
  exact until_stagedTransaction hv htarget ⟨rfl, rfl⟩ hmade hstage

theorem until_transaction (mode : Mode) {latest : Version} (hv : V v) (hlatest : V latest)
    (hh : AtRest rel v h) :
    wpUntil (hostMachine rel) (Cmd.Fatal smooth) (Safe rel V) (transaction mode latest)
      (fun _ => Ends rel V smooth) h := by
  refine wpUntil_bind_of (until_inert closed_safe (hh.safe hv) rfl rfl) fun ok t ht => ?_
  have ht := closed_atRest ht.1 hh
  refine wpUntil_ite.mpr ⟨fun _ => ?_, fun _ => ht.ends hv⟩
  rw [wpUntil_look, wpUntil_ite]
  refine ⟨fun _ => ?_, fun _ => ht.ends hv⟩
  refine wpUntil_bind_of (until_inert closed_safe (ht.safe hv) rfl rfl) fun ok u hu => ?_
  have hu := closed_atRest hu.1 ht
  refine wpUntil_ite.mpr ⟨fun _ => ?_, fun _ => hu.ends hv⟩
  have hversion : ((hostMachine rel).obs t).version = v := ht.release.version
  rw [hversion]
  refine until_transactionTo mode hv ?_ hu
  split
  · exact hv
  · exact hlatest

theorem until_resumeInstallation (hv : V v) (hh : AtRest rel v h) :
    wpUntil (hostMachine rel) (Cmd.Fatal smooth) (Safe rel V) resumeInstallation
      (fun _ => AtRest rel v) h := by
  refine until_atRest hv ?_ hh
  refine .bind (.run rfl) fun _ => .ite (.bind (.all ?_) fun _ => trivial) trivial
  simpa using ⟨.run rfl, .run rfl, .run rfl⟩

/-- **A run of `upgrade_run`** from a host that a later run can go on from. -/
theorem until_upgradeRun (operation : Operation) {latest : Version} (hlatest : V latest) (hv : V v)
    (hh : Resumable rel v h) :
    wpUntil (hostMachine rel) (Cmd.Fatal smooth) (Safe rel V) (upgradeRun operation latest)
      (fun _ => Ends rel V smooth) h := by
  refine wpUntil_bind_of (until_recoverInterrupted hv hh) ?_
  rintro error t ⟨hrest, hfailed⟩
  cases error with
  | some _ => exact .inr (hfailed nofun)
  | none =>
    have ht := hrest rfl
    cases operation with
    | update => exact until_transaction .update hv hlatest ht
    | reinstall => exact until_transaction .reinstall hv hlatest ht
    | install =>
      refine wpUntil_bind_of (until_resumeInstallation hv ht) fun error u hu => ?_
      cases error with
      | some _ => exact hu.ends hv
      | none => exact until_transaction .update hv hlatest hu

/-! ### Hosts that no run gets on from -/

/-- A rollback that a temporary file of the state is in the way of. -/
structure Blocked (j : Journal) (h : Host) : Prop where
  journal : h.journal = some j
  state : h.tmp .state = true

theorem Blocked.perform {j : Journal} {c : Cmd} (hh : Blocked j h)
    (hc : c.spares [.journal, .tmp] = true) (x : Choice) :
    Blocked j ((hostMachine rel).perform c x h).2 := by
  have hsame : Host.Same [.journal, .tmp] h ((hostMachine rel).perform c x h).2 :=
    Host.Same.perform hc (by decide) x.outcome x.panel h
  exact ⟨(hsame .journal (by decide)).trans hh.journal,
    (congrFun (hsame .tmp (by decide)) _).trans hh.state⟩

/-- **The rollback does not get beyond the state.** -/
theorem wp_rollbackSteps_blocked {j : Journal} (hh : Blocked j h) :
    wp (hostMachine rel) (Blocked j) (rollbackSteps vars) (fun ok t => ok = false ∧ Blocked j t)
      h := by
  have hkeep : ∀ {p : Shell Bool} {t : Host}, (p.Only fun c => c.spares [.journal, .tmp] = true) →
      Blocked j t → wp (hostMachine rel) (Blocked j) p (fun _ => Blocked j) t :=
    fun hp ht => hp.keeps (fun c hc u x hu => hu.perform hc x) _ ht
  have hstep : ∀ {p : Shell Bool} {ps : List (Shell Bool)} {t : Host},
      (p.Only fun c => c.spares [.journal, .tmp] = true) → Blocked j t →
      (∀ u, Blocked j u → wp (hostMachine rel) (Blocked j) (all ps)
        (fun ok w => ok = false ∧ Blocked j w) u) →
      wp (hostMachine rel) (Blocked j) (all (p :: ps))
        (fun ok w => ok = false ∧ Blocked j w) t := by
    intro p ps t hp ht hrest
    rw [wp_all_cons]
    refine wp_mono (hkeep hp ht) (fun _ h => h) fun _ u hu => ?_
    exact ⟨fun _ => hrest u hu, fun _ => ⟨rfl, hu⟩⟩
  refine hstep (.run rfl) hh fun t ht => ?_
  refine hstep (only_restoreCurrentRelease rfl rfl rfl) ht fun t ht => ?_
  refine hstep (.run rfl) ht fun t ht => ?_
  refine hstep (only_restoreHostTools (fun _ => rfl) (fun _ => rfl) rfl) ht fun t ht => ?_
  rw [wp_all_cons, writeStateVersion, atomicWrite, wp_bind]
  intro x
  have hperform : (hostMachine rel).perform (.create .state) x t = (false, t.commit x.panel) := by
    simp [hostMachine, Cmd.effect, ht.state]
  have hcreate : Cmd.create (ManagedContent.state vars.currentVersion).file = .create .state :=
    rfl
  rw [hcreate, hperform]
  have hafter : Blocked j (t.commit x.panel) :=
    ⟨(commit_same (p := .journal) (by simp) t x.panel).trans ht.journal,
      (congrFun (commit_same (p := .tmp) (by simp) t x.panel) _).trans ht.state⟩
  exact ⟨hafter, by simp, fun _ => ⟨rfl, hafter⟩⟩

/-- **A stuck host stays stuck**, whatever happens. -/
theorem wp_upgradeRun_stuck (operation : Operation) (latest : Version) (hh : Stuck h) :
    wp (hostMachine rel) Stuck (upgradeRun operation latest) (fun _ => Stuck) h := by
  have hrecover : wp (hostMachine rel) Stuck recoverInterrupted
      (fun error t => error ≠ none ∧ Stuck t) h := by
    have hobs : (hostMachine rel).obs h = h := rfl
    rw [recoverInterrupted, wp_look, hobs]
    cases hjournal : h.journal with
    | none =>
      have hcheckpoint : h.checkpoint.isSome = true := by
        rcases hh with hmissing | ⟨-, hthere⟩
        · exact hmissing.2
        · rw [hjournal] at hthere
          cases hthere
      simpa [hcheckpoint] using hh
    | some j =>
      obtain ⟨hstate, hphase⟩ : h.tmp .state = true ∧ j.phase ≠ .prepared := by
        rcases hh with ⟨hmissing, -⟩ | ⟨hstate, hthere⟩
        · rw [hjournal] at hmissing
          cases hmissing
        · rw [hjournal] at hthere
          exact ⟨hstate, of_decide_eq_true hthere⟩
      have hstuck : ∀ {t : Host}, Blocked j t → Stuck t := by
        intro t ht
        refine .inr ⟨ht.state, ?_⟩
        rw [ht.journal]
        exact decide_eq_true hphase
      dsimp only
      cases readJournal h j with
      | none => exact ⟨by simp, hh⟩
      | some vars =>
        change wp _ _ (recoverFrom vars j.phase) _ h
        rw [recoverFrom, if_neg hphase, wp_bind, rollback, wp_bind]
        refine wp_mono (wp_rollbackSteps_blocked ⟨hjournal, hstate⟩) (fun _ ht => hstuck ht) ?_
        rintro ok t ⟨rfl, ht⟩
        exact ⟨by simp, hstuck ht⟩
  refine wp_bind.mpr (wp_mono hrecover (fun _ ht => ht) ?_)
  rintro error t ⟨hne, ht⟩
  cases error with
  | none => exact absurd rfl hne
  | some _ => exact ht

/-! ### Any number of crashes -/

/-- The host after a list of attempts. -/
def afterAttempts (rel : Version → Release) (attempts : List Attempt) (h : Host) : Host :=
  attempts.foldl (Attempt.host rel) h

theorem safe_host {a : Attempt} (hlatest : V a.latest) (hv : V v) (hh : Resumable rel v h) :
    Safe rel V (a.host rel h) :=
  exec_mortal_of_wpUntil (until_upgradeRun a.operation hlatest hv hh) (.inr ⟨v, hv, hh⟩)
    (fun _ _ ht => ht.safe) a.choices

theorem stuck_host (a : Attempt) (hh : Stuck h) : Stuck (a.host rel h) :=
  exec_mortal_of_wpUntil (wpUntil_of_wp (wp_upgradeRun_stuck a.operation a.latest hh)) hh
    (fun _ _ ht => ht) a.choices

theorem stuck_afterAttempts (attempts : List Attempt) (hh : Stuck h) :
    Stuck (afterAttempts rel attempts h) := by
  induction attempts generalizing h with
  | nil => exact hh
  | cons a attempts ih => exact ih (stuck_host a hh)

/-- **A host that was spared can be resumed.** -/
theorem resumable_afterAttempts {attempts : List Attempt} (hlatest : ∀ a ∈ attempts, V a.latest)
    (hv : V v) (hh : Resumable rel v h) (hspared : Spared rel attempts h) :
    ∃ w, V w ∧ Resumable rel w (afterAttempts rel attempts h) := by
  induction attempts generalizing v h with
  | nil => exact ⟨v, hv, hh⟩
  | cons a attempts ih =>
    obtain ⟨hfree, hspared⟩ := hspared
    rcases safe_host (hlatest a (by simp)) hv hh with hstuck | ⟨w, hw, hafter⟩
    · exact absurd hstuck hfree
    · exact ih (fun b hb => hlatest b (by simp [hb])) hw hafter hspared

/-- A host that was not spared is stuck. -/
theorem stuck_of_not_spared {attempts : List Attempt} (hspared : ¬Spared rel attempts h) :
    Stuck (afterAttempts rel attempts h) := by
  induction attempts generalizing h with
  | nil => exact absurd trivial hspared
  | cons a attempts ih =>
    by_cases hstuck : Stuck (a.host rel h)
    · exact stuck_afterAttempts attempts hstuck
    · exact ih fun hrest => hspared ⟨hstuck, hrest⟩

theorem Recovered.not_stuck (hh : Recovered rel V h) : ¬Stuck h := by
  rintro (⟨-, hcheckpoint⟩ | ⟨-, hjournal⟩)
  · rw [hh.checkpoint] at hcheckpoint
    cases hcheckpoint
  · rw [hh.journal] at hjournal
    cases hjournal

/-- The releases an installation may end in: the old one, and those that were asked for. -/
def Asked (v latest : Version) (attempts : List Attempt) (w : Version) : Prop :=
  w = v ∨ w = latest ∨ ∃ a ∈ attempts, w = a.latest

/-- **The run after the crashes recovers if and only if no crash left a stuck host.** Of a
consistent installation, after any number of runs that were cut short anywhere, the run in which
every command succeeds ends; and it ends without a journal and a checkpoint, with everything
belonging to the old release or to one that was asked for, exactly if no attempt left a checkpoint
without a journal, or the temporary file of the state beside a journal that asks for a rollback. -/
theorem recovered_iff (rel : Version → Release) (v : Version) (start : Host)
    (hstart : Consistent rel v start) (attempts : List Attempt) (operation : Operation)
    (latest : Version) (panel : ℕ → List Change) :
    ∃ n result h, (upgradeRun operation latest).exec (hostMachine rel)
        ((List.range n).map fun i => ⟨.ok, panel i⟩) (afterAttempts rel attempts start) =
          (some result, h) ∧
      (Recovered rel (Asked v latest attempts) h ↔ Spared rel attempts start) := by
  obtain ⟨n, result, h, hrun⟩ := exists_exec_eq_some (hostMachine rel) (upgradeRun operation latest)
    (fun i => ⟨.ok, panel i⟩) (afterAttempts rel attempts start)
  refine ⟨n, result, h, hrun, fun hrecovered => ?_, fun hspared => ?_⟩
  · -- a stuck host would have stayed stuck
    by_contra hspared
    have hstuck : Stuck (afterAttempts rel attempts start) := stuck_of_not_spared hspared
    have hkeeps := exec_of_wp (M := hostMachine rel) (wp_upgradeRun_stuck operation latest hstuck)
      hstuck
    exact hrecovered.not_stuck ((hkeeps _).2 _ _ hrun)
  · have hrest : AtRest rel v start :=
      ⟨hstart.release, hstart.journal, hstart.checkpoint, hstart.tmp .state⟩
    obtain ⟨w, hw, hresumable⟩ := resumable_afterAttempts (V := Asked v latest attempts)
      (fun a ha => .inr (.inr ⟨a, ha, rfl⟩)) (.inl rfl) hrest.resumable hspared
    have hends : wpUntil (hostMachine rel) (Cmd.Fatal true) (Safe rel (Asked v latest attempts))
        (upgradeRun operation latest) (fun _ => Ends rel (Asked v latest attempts) true)
        (afterAttempts rel attempts start) :=
      until_upgradeRun operation (.inr (.inl rfl)) hw hresumable
    have hsmooth : ∀ x ∈ (List.range n).map fun i => (⟨.ok, panel i⟩ : Choice), ∀ c : Cmd,
        ¬c.Fatal true x := by
      rintro x hx c ⟨hne, -⟩
      obtain ⟨i, -, rfl⟩ := List.mem_map.mp hx
      exact hne rfl
    rcases exec_of_wpUntil hends hsmooth hrun with ⟨u, hu, hrest⟩ | ⟨hfalse, -⟩
    · exact ⟨hrest.journal, hrest.checkpoint, u, hu, hrest.release⟩
    · cases hfalse

/-! ### Two crashes of an update -/

/-- An update to `v0.2.0` that crashes after a number of commands, all of which go well. -/
def crashedUpdate (commands : ℕ) : Attempt :=
  ⟨.update, ⟨0, 2, 0⟩, List.replicate commands Upgrade.smooth⟩

theorem consistent_sampleHost : Consistent sampleRelease ⟨0, 1, 0⟩ sampleHost where
  release := by
    refine ⟨rfl, rfl, rfl, fun _ => rfl, fun tool => ?_⟩
    cases tool <;> rfl
  journal := rfl
  checkpoint := rfl
  tmp _ := rfl

/-- A crash in the middle of the switch, and a second one in the rollback of the first, are
recovered from. -/
theorem recovered_iff_switching : ∃ n result h,
    (upgradeRun .update ⟨0, 2, 0⟩).exec (hostMachine sampleRelease)
        ((List.range n).map fun _ => Upgrade.smooth)
        (afterAttempts sampleRelease [crashedUpdate 40, crashedUpdate 12] sampleHost) =
      (some result, h) ∧
    Recovered sampleRelease
      (Asked ⟨0, 1, 0⟩ ⟨0, 2, 0⟩ [crashedUpdate 40, crashedUpdate 12]) h := by
  obtain ⟨n, result, h, hrun, hiff⟩ := recovered_iff sampleRelease ⟨0, 1, 0⟩ sampleHost
    consistent_sampleHost [crashedUpdate 40, crashedUpdate 12] .update ⟨0, 2, 0⟩ fun _ => []
  exact ⟨n, result, h, hrun, hiff.mpr ⟨by decide +kernel, by decide +kernel, trivial⟩⟩

/-- A checkpoint without a journal is all that a run looks at. -/
theorem exec_upgradeRun_of_checkpoint (hjournal : h.journal = none)
    (hcheckpoint : h.checkpoint.isSome = true) (operation : Operation) (latest : Version)
    (choices : List Choice) :
    (upgradeRun operation latest).exec (hostMachine rel) choices h =
      (some (some .checkpoint), h) := by
  have hrecover : ∀ f : Option UpgradeError → Shell (Option UpgradeError),
      (recoverInterrupted.bind f).exec (hostMachine rel) choices h =
        (f (some .checkpoint)).exec (hostMachine rel) choices h := by
    intro f
    have hobs : (hostMachine rel).obs h = h := rfl
    rw [recoverInterrupted, Script.bind, Script.exec, hobs, hjournal, hcheckpoint]
    rfl
  exact hrecover _

/-- **A crash between the journal and the checkpoint is never recovered from.** The update has
succeeded and removed its journal when it crashes; every later run, whatever is asked for and
however it goes, ends in `E_UPGRADE_CHECKPOINT` and changes nothing. -/
theorem not_recovered_clearing : ∃ h,
    h = afterAttempts sampleRelease [crashedUpdate 72] sampleHost ∧
      (∀ operation latest choices, (upgradeRun operation latest).exec (hostMachine sampleRelease)
        choices h = (some (some .checkpoint), h)) ∧
      ∀ V, ¬Recovered sampleRelease V h := by
  have hjournal : ((afterAttempts sampleRelease [crashedUpdate 72] sampleHost).journal.isNone &&
      (afterAttempts sampleRelease [crashedUpdate 72] sampleHost).checkpoint.isSome) = true := by
    decide +kernel
  generalize afterAttempts sampleRelease [crashedUpdate 72] sampleHost = h at hjournal
  rw [Bool.and_eq_true, Option.isNone_iff_eq_none] at hjournal
  refine ⟨h, rfl, exec_upgradeRun_of_checkpoint hjournal.1 hjournal.2, fun V hrecovered => ?_⟩
  exact hrecovered.not_stuck (.inl ⟨by rw [hjournal.1]; rfl, hjournal.2⟩)

/-- So is a crash that leaves the temporary file of the state. -/
example : Stuck (afterAttempts sampleRelease [crashedUpdate 68] sampleHost) := by decide +kernel

end EzOpenPN.Upgrade
