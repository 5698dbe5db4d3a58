import EzOpenPN.Installer.InstallParts

/-!
# Crashes of an installation

`_run_production_install` puts the parts one after the other, `installer_main` chooses between them
and an update, and an installation is any number of runs of it, each of which may be cut short
anywhere. This file follows them from a fresh host to the end.

After any number of crashes the run in which everything goes well ends with `install.json` and without
a checkpoint and a journal, **unless a crash left something in the way**
(`EzOpenPN.Install.finished_of_spared`). That nothing gets on from there is the subject of
`EzOpenPN.Installer.StuckInstall`.
-/

namespace EzOpenPN.Install

open FileSystem Script Upgrade

variable {rel : Version → Release} {B : Setting rel} {V : Version → Prop} {smooth : Bool}
  {s t u : Site}

/-! ### One run -/

/-- **How a fresh installation ends**: with `install.json` over an installation at rest, or, unless
everything goes well, with nothing in the way of the next run. -/
def Outcomes (B : Setting rel) (smooth : Bool) (error : Option InstallError) (t : Site) : Prop :=
  (error = none → t.state.isSome = true ∧ AtRest rel B.version t.host) ∧
    (error ≠ none → smooth = false ∧ Clear B t)

theorem outcomes_of_failed {error : InstallError} (ht : Clear B t)
    (hfailed : smooth = true → False) : Outcomes B smooth (some error) t :=
  ⟨nofun, fun _ => ⟨by simpa using hfailed, ht⟩⟩

/-- **The installation**: every part starts from what the one before it leaves. -/
theorem until_runProductionInstall (hV : V B.version) (hs : Clear B s) (login : Login) :
    wpUntil (siteMachine B) (SiteCmd.Fatal smooth) (Crash B V)
      (runProductionInstall B s.resumePhase login)
      (fun result t => Outcomes B smooth result.1 t) s := by
  refine wpUntil_bind_of (until_beforeLayout hs) ?_
  rintro failure s₁ ⟨h₁, k₁, hok⟩
  cases failure with
  | some error => exact outcomes_of_failed h₁ fun hs => absurd (hok hs) (by simp)
  | none =>
    refine wpUntil_bind_of (until_prepareInstalledLayout h₁) ?_
    rintro ⟨prepared, previous⟩ s₂ ⟨h₂, hadmin₂, hplaced, hok⟩
    cases prepared with
    | false => exact outcomes_of_failed h₂ fun hs => absurd (hok hs) (by simp)
    | true =>
      have hplaced := hplaced rfl
      rw [if_pos rfl]
      refine wpUntil_bind_of (until_beforeAdmin h₂) ?_
      rintro failure s₃ ⟨h₃, k₃, hok⟩
      cases failure with
      | some error => exact outcomes_of_failed h₃ fun hs => absurd (hok hs) (by simp)
      | none =>
        -- the phase that is resumed was recorded over an administrator, who is still there
        have hresume : resumedAtOrAfter s.resumePhase .adminCreated = true →
            s₃.admin.isSome = true := by
          intro hresumed
          refine k₃.admin (hadmin₂ (k₁.admin ?_))
          rw [Site.resumePhase] at hresumed
          cases hcheckpoint : s.host.checkpoint with
          | none =>
            rw [hcheckpoint] at hresumed
            cases hresumed
          | some checkpoint =>
            rw [hcheckpoint] at hresumed
            cases checkpoint with
            | upgrade phase => cases hresumed
            | other =>
              refine hs.underway.admin (congrArg Option.isSome hcheckpoint) ?_
              simpa [resumedAtOrAfter] using hresumed
        refine wpUntil_bind_of (until_createOrRecoverAdmin h₃ _ hresume login) ?_
        rintro created s₄ ⟨h₄, k₄, hcreated, hok⟩
        cases created with
        | none => exact outcomes_of_failed h₄ fun hs => absurd (hok hs) (by simp)
        | some adminLogin =>
          have hequipped : Equipped B s₄ :=
            ⟨(hplaced.of_keeps k₃).of_keeps k₄, hcreated rfl⟩
          exact wpUntil_bind_of (until_afterAdmin hV h₄ hequipped adminLogin) fun _ _ ht => ht

/-- The rollback of an installation leaves nothing in the way. -/
theorem until_rollbackProductionInstall (hs : Clear B s) (previous : Option Version) :
    wpUntil (siteMachine B) (SiteCmd.Fatal smooth) (Crash B V)
      (rollbackProductionInstall previous) (fun _ => Clear B) s := by
  refine until_calm (.bind (.run trivial) fun _ w => .bind (.ite (.run trivial) trivial) fun _ =>
    .bind ((Only.univ _).adapt fun _ _ => trivial) fun _ => ?_) hs
  cases previous with
  | none => exact trivial
  | some version => exact .bind (.run rfl) fun _ => trivial

/-- **A fresh installation, or one that is resumed.** -/
theorem until_freshInstall (hV : V B.version) (hs : Clear B s) (login : Login) :
    wpUntil (siteMachine B) (SiteCmd.Fatal smooth) (Crash B V) (freshInstall B login)
      (fun error t => Outcomes B smooth error t) s := by
  have hlock : Proceeds B V smooth (fun _ => True) (run (.program .acquireLock)) := .program _
  refine wpUntil_bind_of (hlock s hs trivial) ?_
  rintro locked t ⟨ht, -, hok⟩
  cases locked with
  | false => exact outcomes_of_failed ht fun hs => absurd (hok hs) nofun
  | true =>
    rw [if_pos rfl, wpUntil_look, wpUntil_ite]
    have hview : (siteMachine B).obs t = t := rfl
    rw [hview]
    refine ⟨fun hstop => ?_, fun _ => ?_⟩
    · have hsome := ht.underway.resumePhase_isSome
      rw [Bool.and_eq_true] at hstop
      rw [hstop.1, Option.isSome_iff_ne_none] at hsome
      exact absurd hstop.2 (by simpa using hsome)
    · refine wpUntil_bind_of (until_runProductionInstall hV ht login) ?_
      rintro ⟨failure, previous⟩ u hu
      cases failure with
      | none => exact hu
      | some error =>
        obtain ⟨hsmooth, hclear⟩ := hu.2 nofun
        refine wpUntil_bind_of (until_rollbackProductionInstall hclear previous) ?_
        exact fun _ w hw => ⟨nofun, fun _ => ⟨hsmooth, hw⟩⟩

/-- **An installation that a later run can go on from**: nothing is in the way of it, or it is
finished and its host can be resumed. -/
def Resumes (B : Setting rel) (V : Version → Prop) (s : Site) : Prop :=
  Clear B s ∨ s.state.isSome = true ∧ ∃ v, V v ∧ Resumable rel v s.host

theorem Resumes.crash (h : Resumes B V s) : Crash B V s := by
  rcases h with h | ⟨hstate, v, hv, h⟩
  · exact h.crash
  · exact .inr ⟨hstate, .inr ⟨v, hv, h⟩⟩

/-- What a crash leaves can be resumed, unless it is stuck. -/
theorem Crash.resumes (h : Crash B V s) (hstuck : ¬s.Stuck) : Resumes B V s := by
  rcases h with h | ⟨hstate, h⟩
  · exact .inl ⟨h, fun hjammed => hstuck (.inl ⟨by rw [h.state]; rfl, hjammed⟩)⟩
  · rcases h with h | h
    · exact absurd (.inr ⟨hstate, h⟩) hstuck
    · exact .inr ⟨hstate, h⟩

/-- **How a run ends**: with an installation at rest, or, unless everything goes well, with something
that a crash may leave. -/
def RunEnds (B : Setting rel) (V : Version → Prop) (smooth : Bool) (t : Site) : Prop :=
  (t.state.isSome = true ∧ ∃ v, V v ∧ AtRest rel v t.host) ∨ (smooth = false ∧ Crash B V t)

theorem RunEnds.crash (h : RunEnds B V smooth t) : Crash B V t := by
  rcases h with ⟨hstate, v, hv, hrest⟩ | ⟨-, h⟩
  · exact .inr ⟨hstate, hrest.safe hv⟩
  · exact h

/-- A question before anything is done. -/
theorem until_question (h : Resumes B V s) (p : Program) :
    wpUntil (siteMachine B) (SiteCmd.Fatal smooth) (Crash B V) (run (.program p))
      (fun ok t => Resumes B V t ∧ (smooth = true → ok = true)) s := by
  have hafter : ∀ x, Resumes B V ((siteMachine B).perform (.program p) x s).2 := by
    intro x
    rcases h with h | ⟨hstate, v, hv, h⟩
    · exact .inl (h.perform (c := .program p) trivial x)
    · obtain ⟨running, heffect⟩ := p.effect_eq x.outcome s.host
      refine .inr ⟨hstate, v, hv, ?_⟩
      have halike : s.host.Alike ((siteMachine B).perform (.program p) x s).2.host := by
        simp only [siteMachine, SiteCmd.effect, heffect]
        exact ⟨_, _, running, rfl⟩
      exact closed_resumable halike h
  refine fun x => ⟨(hafter x).crash, fun hx => ⟨hafter x, fun hs => ?_⟩⟩
  by_contra hne
  refine hx ⟨fun hok => hne ?_, .inl hs⟩
  simp [siteMachine, SiteCmd.effect, hok, Outcome.status]

/-- **A run of the installer** from an installation that it can go on from. -/
theorem until_installerMain {login : Login} {latest : Version} (hV : V B.version)
    (hlatest : V latest) (h : Resumes B V s) :
    wpUntil (siteMachine B) (SiteCmd.Fatal smooth) (Crash B V) (installerMain B login latest)
      (fun _ => RunEnds B V smooth) s := by
  have hstop : ∀ {t : Site}, Resumes B V t → (smooth = true → false = true) →
      RunEnds B V smooth t := by
    intro t ht hok
    refine .inr ⟨?_, ht.crash⟩
    by_contra hne
    exact absurd (hok (by simpa using hne)) nofun
  refine wpUntil_bind_of (Q := fun failure t => (failure = none → Resumes B V t) ∧
    (failure ≠ none → RunEnds B V smooth t)) ?_ ?_
  · refine wpUntil_firstFailure_of (until_question h .requireRoot) (fun t ht => ?_)
      fun t ht => ⟨nofun, fun _ => hstop ht.1 ht.2⟩
    refine wpUntil_firstFailure_of (until_question ht.1 .requireTty) (fun u hu => ?_)
      fun u hu => ⟨nofun, fun _ => hstop hu.1 hu.2⟩
    exact ⟨fun _ => hu.1, fun hne => absurd rfl hne⟩
  rintro failure t ⟨hgo, hend⟩
  cases failure with
  | some error => exact hend nofun
  | none =>
    rw [wpUntil_look, wpUntil_ite]
    refine ⟨fun hthere => ?_, fun hmissing => ?_⟩
    · have hthere : t.state.isSome = true := hthere
      rcases hgo rfl with hclear | ⟨-, v, hv, hresumable⟩
      · rw [hclear.underway.state] at hthere
        cases hthere
      · refine wpUntil_bind_of (wpUntil_mono (wpUntil_adapt embeds_host (fun _ _ hx => hx)
          (until_upgradeRun .install hlatest hv hresumable)) ?_ fun _ _ hu => hu) ?_
        · rintro _ ⟨host, hsafe, rfl⟩
          exact .inr ⟨hthere, hsafe⟩
        · rintro error _ ⟨host, hends, rfl⟩
          rcases hends with ⟨w, hw, hrest⟩ | ⟨hsmooth, hsafe⟩
          · exact .inl ⟨hthere, w, hw, hrest⟩
          · exact .inr ⟨hsmooth, .inr ⟨hthere, hsafe⟩⟩
    · rcases hgo rfl with hclear | ⟨hthere, -⟩
      · refine wpUntil_post (until_freshInstall hV hclear login) ?_
        rintro error u ⟨hfinished, hfailed⟩
        cases error with
        | none =>
          obtain ⟨hstate, hrest⟩ := hfinished rfl
          exact .inl ⟨hstate, _, hV, hrest⟩
        | some error =>
          obtain ⟨hsmooth, hclear⟩ := hfailed nofun
          exact .inr ⟨hsmooth, hclear.crash⟩
      · exact absurd hthere hmissing

/-! ### Any number of crashes -/

/-- **A run of the installer**: what the operator types, the latest release of the channel, and how
the commands go, of which there may be too few. -/
structure InstallAttempt where
  login : Login
  latest : Version
  choices : List Choice

/-- **The site that an attempt leaves**, when a command on files that does not go well is where it was
cut short. -/
def InstallAttempt.site (B : Setting rel) (s : Site) (a : InstallAttempt) : Site :=
  ((installerMain B a.login a.latest).exec ((siteMachine B).mortal (SiteCmd.Fatal false)) a.choices
    (s, true)).2.1

/-- The site after a list of attempts. -/
def afterInstalls (B : Setting rel) (attempts : List InstallAttempt) (s : Site) : Site :=
  attempts.foldl (InstallAttempt.site B) s

/-- **No attempt leaves a stuck site.** -/
def SparedInstall (B : Setting rel) : List InstallAttempt → Site → Prop
  | [], _ => True
  | a :: attempts, s => ¬(a.site B s).Stuck ∧ SparedInstall B attempts (a.site B s)

/-- **A fresh host**: nothing of an installation is there, and nothing that is in the way of its
directories. -/
structure FreshHost (s : Site) : Prop where
  state : s.state = none
  stateTmp : s.stateTmp = false
  stackTmp : s.stackTmp = false
  configured : ∀ f, s.configured f = false
  journal : s.host.journal = none
  checkpoint : s.host.checkpoint = none
  tmp : ∀ m, s.host.tmp m = false
  releases : ∀ v, s.host.releases v = none
  material : s.material = false
  directories : ∀ d ∈ layoutDirectories, ∀ q ∈ d.path.inits, Free (s.layout.entry q)
  secrets : ∀ p ∈ secretPaths, s.layout.entry p = none

/-- **A finished installation**: `install.json`, and neither a checkpoint nor a journal, which every
other operation asks for. -/
structure Finished (s : Site) : Prop where
  state : s.state.isSome = true
  checkpoint : s.host.checkpoint = none
  journal : s.host.journal = none

theorem FreshHost.clear (h : FreshHost s) : Clear B s where
  underway := by
    refine ⟨h.state, h.journal, h.tmp .state, ?_, ?_, .inl (h.releases _), ?_,
      ⟨h.directories, fun p hp => .inl (h.secrets p hp)⟩⟩
    · rw [h.checkpoint]
      exact fun _ => nofun
    · rw [h.checkpoint]
      exact nofun
    · rw [h.configured]
      exact nofun
  jammed := by
    rintro (htmp | htmp | ⟨htmp, -⟩ | ⟨p, hp, hunfilled⟩)
    · rw [h.tmp] at htmp
      cases htmp
    · rw [h.stateTmp] at htmp
      cases htmp
    · rw [h.stackTmp] at htmp
      cases htmp
    · rw [h.secrets p hp] at hunfilled
      exact hunfilled

/-- **An installation that was spared can be resumed.** -/
theorem resumes_afterInstalls {attempts : List InstallAttempt} (hV : V B.version)
    (hlatest : ∀ a ∈ attempts, V a.latest) (h : Resumes B V s)
    (hspared : SparedInstall B attempts s) : Resumes B V (afterInstalls B attempts s) := by
  induction attempts generalizing s with
  | nil => exact h
  | cons a attempts ih =>
    obtain ⟨hfree, hspared⟩ := hspared
    have hcrash : Crash B V (a.site B s) :=
      exec_mortal_of_wpUntil (until_installerMain hV (hlatest a (by simp)) h) h.crash
        (fun _ _ ht => ht.crash) a.choices
    exact ih (fun b hb => hlatest b (by simp [hb])) (hcrash.resumes hfree) hspared

/-- **Where nothing was left in the way the next run finishes the installation**: from a fresh host,
after any number of runs that were cut short anywhere, or that failed, the run in which every command
succeeds ends with `install.json` and with neither a checkpoint nor a journal. -/
theorem finished_of_spared {start : Site} (hstart : FreshHost start)
    {attempts : List InstallAttempt} (hspared : SparedInstall B attempts start) {login : Login}
    {latest : Version} {choices : List Choice} (hchoices : ∀ x ∈ choices, x.outcome = .ok)
    {result : Option InstallError}
    (hrun : (installerMain B login latest).exec (siteMachine B) choices
      (afterInstalls B attempts start) = (some result, t)) : Finished t := by
  -- every release that may come up is the one of the bundle or one that the channel has offered
  have hresumes : Resumes B (fun _ => True) (afterInstalls B attempts start) :=
    resumes_afterInstalls trivial (fun _ _ => trivial) (.inl hstart.clear) hspared
  have hmain : wpUntil (siteMachine B) (SiteCmd.Fatal true) (Crash B fun _ => True)
      (installerMain B login latest) (fun _ => RunEnds B (fun _ => True) true)
      (afterInstalls B attempts start) := until_installerMain trivial trivial hresumes
  have hsmooth : ∀ x ∈ choices, ∀ c : SiteCmd, ¬c.Fatal true x :=
    fun x hx c hfatal => hfatal.1 (hchoices x hx)
  rcases exec_of_wpUntil hmain hsmooth hrun with ⟨hstate, v, -, hrest⟩ | ⟨hfalse, -⟩
  · exact ⟨hstate, hrest.checkpoint, hrest.journal⟩
  · cases hfalse

end EzOpenPN.Install
