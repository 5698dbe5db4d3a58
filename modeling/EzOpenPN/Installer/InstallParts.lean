import EzOpenPN.Installer.Interrupted

/-!
# The parts of an installation

From a site where nothing is in the way (`EzOpenPN.Install.Clear`), the parts of
`_run_production_install` leave nothing in the way, whatever their programs do, and where all
programs succeed they succeed. What they leave of the release is told part by part: the layout puts
its directory, its link and its configuration in place (`EzOpenPN.Install.Placed`), the units come
next, and `install.json` is written last, over a site where everything belongs to one release.
-/

namespace EzOpenPN.Install

open FileSystem Script Upgrade

variable {rel : Version → Release} {B : Setting rel} {V : Version → Prop} {smooth : Bool}
  {s t u : Site}

/-! ### The layout -/

/-- The layout is a part of the site. -/
def layoutPart : Component Site Layout where
  get := Site.layout
  put l s := { s with layout := l }
  get_put _ _ := rfl
  put_put _ _ _ := rfl
  put_get := Site.eta

/-- **The layout as a machine**, with all that may become of a command. -/
def layoutSystem : Machine Layout LayoutCommand CallOutcome Layout where
  obs := id
  perform c o l := c.effect l o

theorem embeds_layout : layoutSystem.Embeds (siteMachine B) layoutPart Site.layout .layout
    fun x => layoutOutcome x.outcome where
  obs _ := rfl
  perform _ _ _ := rfl

/-- A command that goes well is not fatal. -/
theorem layoutOutcome_ne_ok {o : Outcome} (h : layoutOutcome o ≠ .ok) : o ≠ .ok := by
  rintro rfl
  exact h rfl

theorem Underway.layout_perform {c : LayoutCommand} (h : Underway B s) (hc : Layouts c)
    (x : Choice) : Underway B ((siteMachine B).perform (.layout c) x s).2 :=
  ⟨h.state, h.journal, h.tmp, h.checkpoint, h.admin, h.release, h.stackEnv,
    unoccupied_effect h.layout hc⟩

/-- **The layout is made**, with all of its secrets. -/
theorem until_configureLayout (hs : Clear B s) :
    wpUntil (siteMachine B) (SiteCmd.Fatal smooth) (Crash B V) (onLayout configureLayout)
      (fun status t => status = .success ∧ Clear B t ∧ Keeps s t ∧
        ∀ p ∈ secretPaths, Readable (t.layout.entry p)) s := by
  have hunderway : wp (siteMachine B) (Underway B) (onLayout configureLayout)
      (fun _ => Underway B) s := by
    have honly : (onLayout configureLayout).Only fun c => ∃ l, Layouts l ∧ c = .layout l :=
      only_configureLayout.adapt fun l hl => ⟨l, hl, rfl⟩
    refine honly.keeps ?_ s hs.underway
    rintro _ ⟨l, hl, rfl⟩ t x ht
    exact ht.layout_perform hl x
  have hrun := wpUntil_eval (M := layoutSystem) (F := fun _ o => o ≠ .ok) (z := .ok)
    (s := s.layout) only_configureLayout fun c o l _ ho => by rw [not_not.mp ho]
  refine wpUntil_post (wpUntil_and (wpUntil_mono (wpUntil_of_wp hunderway) (fun _ ht => .inl ht)
    fun _ _ ht => ht) (wpUntil_adapt embeds_layout
      (fun _ _ ho => ⟨layoutOutcome_ne_ok ho, .inr rfl⟩) hrun)) ?_
  rintro status t ⟨ht, l, ⟨hstatus, hl⟩, rfl⟩
  obtain ⟨hsuccess, hright⟩ := configureLayout_of_unoccupied hs.underway.layout hs.filled
  have heval := eval_congr (M := layoutSystem) (N := layoutMachine fun _ => .ok) (x := .ok)
    (y := ()) (fun _ => rfl) (fun _ _ => rfl) configureLayout s.layout
  rw [heval] at hstatus hl
  have hsecrets : ∀ p ∈ secretPaths, l.entry p = some (.file 32 0o600 secretOwner) := by
    rw [hl]
    exact hright
  refine ⟨hstatus.trans hsuccess, ⟨ht, fun hjammed => hs.jammed ?_⟩, ⟨rfl, rfl, rfl, rfl, id⟩,
    fun p hp => ?_⟩
  · refine hjammed.imp_right (.imp_right (.imp_right ?_))
    rintro ⟨p, hp, hunfilled⟩
    have hunfilled : Unfilled (l.entry p) := hunfilled
    rw [hsecrets p hp] at hunfilled
    exact absurd rfl hunfilled
  · change Readable (l.entry p)
    rw [hsecrets p hp]
    exact ⟨rfl, rfl⟩

/-! ### The release -/

/-- The host is a part of the site. -/
def hostPart : Component Site Host where
  get := Site.host
  put h s := { s with host := h }
  get_put _ _ := rfl
  put_put _ _ _ := rfl
  put_get := Site.eta

theorem embeds_host :
    (hostMachine rel).Embeds (siteMachine B) hostPart Site.host .host id where
  obs _ := rfl
  perform _ _ _ := rfl

/-- The parts of a host that the files of a release have nothing to do with. -/
def releaseFrame : List Part := [.journal, .tmp, .checkpoint, .config, .tools]

/-- **The files of a release**, on the host: where there is no other directory of its name, it is put
there and the link switched to it. -/
theorem until_releaseFiles {h : Host} {v : Version}
    (hrelease : h.releases v = none ∨ h.releases v = some (rel v).tree) :
    wpUntil (hostMachine rel) (Cmd.Fatal smooth)
      (fun t => Host.Same releaseFrame h t ∧
        (t.releases v = none ∨ t.releases v = some (rel v).tree))
      (Upgrade.installReleaseFiles v)
      (fun ok t => ok = true ∧ Host.Same releaseFrame h t ∧
        t.releases v = some (rel v).tree ∧ t.current = some v) h := by
  have hinstall : ∀ x : Choice, Host.Same releaseFrame h
      ((hostMachine rel).perform (.installRelease v) x h).2 :=
    fun x => Host.Same.perform rfl (by decide) x.outcome x.panel h
  have hreleases : ∀ (c : Cmd) (x : Choice) (t : Host),
      ((hostMachine rel).perform c x t).2.releases = (c.effect rel x.outcome t).2.releases :=
    fun c x t => commit_same (p := .releases) (by simp) _ x.panel
  refine wpUntil_all_of (R := fun ok t => ok = true ∧ Host.Same releaseFrame h t ∧
    t.releases v = some (rel v).tree) ?_ ?_ ?_
  · intro x
    have heffect : (Cmd.installRelease v).effect rel x.outcome h =
        x.outcome.apply (h.setRelease v (some (rel v).tree)) h := by
      simp [Cmd.effect, hrelease]
    refine ⟨⟨hinstall x, ?_⟩, fun hx => ?_⟩
    · rw [hreleases, heffect, Outcome.apply]
      dsimp only
      split
      · exact .inr (Function.update_self _ _ _)
      · exact hrelease
    · have hok : x.outcome = .ok := ok_of_not_fatal (.inl rfl) hx
      rw [hok] at heffect
      refine ⟨?_, hinstall x, ?_⟩
      · simp only [hostMachine, hok, heffect]
        rfl
      · rw [hreleases, hok, heffect]
        exact Function.update_self _ _ _
  · rintro t ⟨-, hsame, htree⟩
    have hswitch : ∀ x : Choice, Host.Same (.releases :: releaseFrame) t
        ((hostMachine rel).perform (.switchCurrent v) x t).2 :=
      fun x => Host.Same.perform rfl (by decide) x.outcome x.panel t
    have hframe : ∀ x : Choice, Host.Same releaseFrame h
        ((hostMachine rel).perform (.switchCurrent v) x t).2 ∧
        ((hostMachine rel).perform (.switchCurrent v) x t).2.releases v = some (rel v).tree :=
      fun x => ⟨hsame.trans ((hswitch x).mono (by decide)),
        (congrFun (hswitch x .releases (by decide)) v).trans htree⟩
    refine wpUntil_all_of (R := fun ok u => ok = true ∧ Host.Same releaseFrame h u ∧
      u.releases v = some (rel v).tree ∧ u.current = some v) ?_ (fun u hu => hu) (by simp)
    intro x
    refine ⟨⟨(hframe x).1, .inr (hframe x).2⟩, fun hx => ?_⟩
    have hok : x.outcome = .ok := ok_of_not_fatal (.inl rfl) hx
    refine ⟨?_, (hframe x).1, (hframe x).2, ?_⟩
    · simp only [hostMachine, hok]
      rfl
    · refine (commit_same (p := .current) (by simp) _ x.panel).trans ?_
      rw [hok]
      rfl
  · rintro t ⟨hfalse, -⟩
    cases hfalse

/-- Other files of the host. -/
theorem Underway.of_host {h : Host} (hs : Underway B s) (hsame : Host.Same releaseFrame s.host h)
    (hrelease : h.releases B.version = none ∨ h.releases B.version = some (rel B.version).tree) :
    Underway B { s with host := h } := by
  have hjournal := hsame .journal (by decide)
  have htmp := hsame .tmp (by decide)
  have hcheckpoint := hsame .checkpoint (by decide)
  have hconfig := hsame .config (by decide)
  simp only [Part.Same] at hjournal htmp hcheckpoint hconfig
  refine ⟨hs.state, hjournal.trans hs.journal, ?_, ?_, ?_, hrelease, ?_, hs.layout⟩
  · rw [htmp]
    exact hs.tmp
  · rw [hcheckpoint]
    exact hs.checkpoint
  · rw [hcheckpoint]
    exact hs.admin
  · rw [hconfig]
    exact hs.stackEnv

/-- **The release is in place.** -/
structure Released (B : Setting rel) (s : Site) : Prop where
  current : s.host.current = some B.version
  tree : s.host.releases B.version = some (rel B.version).tree

theorem until_installReleaseFiles (hs : Clear B s)
    (hsecrets : ∀ p ∈ secretPaths, Readable (s.layout.entry p)) :
    wpUntil (siteMachine B) (SiteCmd.Fatal smooth) (Crash B V) (installReleaseFiles B)
      (fun result t => result.1 = true ∧ Clear B t ∧ Released B t ∧ t.admin = s.admin ∧
        ∀ p ∈ secretPaths, Readable (t.layout.entry p)) s := by
  rw [installReleaseFiles, wpUntil_look]
  refine wpUntil_bind_of (wpUntil_mono (wpUntil_adapt embeds_host (fun _ _ hx => hx)
    (until_releaseFiles hs.underway.release)) ?_ fun _ _ ht => ht) ?_
  · rintro _ ⟨h, ⟨hsame, hrelease⟩, rfl⟩
    exact .inl (hs.underway.of_host hsame hrelease)
  · rintro ok _ ⟨h, ⟨hok, hsame, htree, hcurrent⟩, rfl⟩
    have htmp : h.tmp = s.host.tmp := hsame .tmp (by decide)
    refine ⟨hok, ⟨hs.underway.of_host hsame (.inr htree), fun hjammed => hs.jammed ?_⟩,
      ⟨hcurrent, htree⟩, rfl, hsecrets⟩
    refine hjammed.imp_left fun hthere => ?_
    rw [← htmp]
    exact hthere

/-! ### The configuration -/

theorem Released.of_keeps (h : Released B s) (hkeeps : Keeps s t) : Released B t :=
  ⟨hkeeps.current.trans h.current, hkeeps.releases ▸ h.tree⟩

/-- **The runtime material** is put together of secrets that can be read, unless it is there. -/
theorem until_configureRuntimeMaterial (hs : Clear B s) (hreleased : Released B s)
    (hsecrets : ∀ p ∈ secretPaths, Readable (s.layout.entry p)) :
    wpUntil (siteMachine B) (SiteCmd.Fatal smooth) (Crash B V) configureRuntimeMaterial
      (fun ok t => Clear B t ∧ Released B t ∧ (s.admin.isSome = true → t.admin.isSome = true) ∧
        (ok = true → t.material = true) ∧ (smooth = true → ok = true)) s := by
  have hquiet : configureRuntimeMaterial.Only SiteCmd.Quiet := by
    intro s
    refine .ite (fun _ => trivial) (.all ?_)
    simp only [List.forall_mem_cons, List.not_mem_nil, false_implies, implies_true, and_true]
    exact ⟨.run ⟨trivial, rfl⟩, .run ⟨trivial, rfl⟩, .run ⟨trivial, rfl⟩, fun _ => trivial⟩
  have hmaterial : wpUntil (siteMachine B) (SiteCmd.Fatal smooth) (fun _ => True)
      configureRuntimeMaterial
      (fun ok t => (ok = true → t.material = true) ∧ (smooth = true → ok = true)) s := by
    rw [configureRuntimeMaterial, wpUntil_look, wpUntil_ite]
    refine ⟨fun hthere => ⟨id, fun _ => hthere⟩, fun _ => ?_⟩
    have hkey : wpUntil (siteMachine B) (SiteCmd.Fatal smooth) (fun _ => True)
        (run (.program .xrayKey)) (fun ok t => t.layout = s.layout ∧ (smooth = true → ok = true))
        s := by
      refine fun x => ⟨trivial, fun hx => ⟨rfl, fun hs => ?_⟩⟩
      by_contra hne
      refine hx ⟨fun hok => hne ?_, .inl hs⟩
      simp [siteMachine, SiteCmd.effect, hok, Outcome.status]
    refine wpUntil_all_of hkey ?_ fun t ht => ⟨by simp, ht.2⟩
    rintro t ⟨hlayout, -⟩
    refine wpUntil_all_of (until_internal rfl fun _ => trivial) ?_ ?_
    · rintro _ ⟨x, -, -, rfl⟩
      refine wpUntil_all_of (until_internal rfl fun _ => trivial) ?_ ?_
      · rintro _ ⟨x, hx, -, rfl⟩
        refine wpUntil_all_of (R := fun ok u => ok = u.material ∧ u.material = true) ?_ ?_ ?_
        · simp [validateRuntimeMaterial, siteMachine, SiteCmd.effect, act, hx, Outcome.took]
        · rintro u ⟨-, hu⟩
          exact ⟨fun _ => hu, fun _ => rfl⟩
        · rintro u ⟨hfalse, htrue⟩
          rw [htrue] at hfalse
          cases hfalse
      · rintro _ ⟨x, hx, hok, rfl⟩
        simp [SiteCmd.effect, act, hx, Outcome.status] at hok
    · rintro _ ⟨x, hx, hok, -⟩
      have hread : ∀ p ∈ secretPaths, Readable (t.layout.entry p) := hlayout ▸ hsecrets
      rw [SiteCmd.effect, hx, decide_eq_true hread] at hok
      cases hok
  refine wpUntil_post (wpUntil_and (until_quiet hquiet hs) hmaterial) ?_
  rintro ok t ⟨⟨ht, hkeeps⟩, hmaterial, hok⟩
  exact ⟨ht, hreleased.of_keeps hkeeps, hkeeps.admin, hmaterial, hok⟩

/-- Commands that change nothing. -/
theorem until_runAll_same {cs : List SiteCmd} {I : Site → Prop} (hs : I s)
    (h : ∀ c ∈ cs, ∀ x, (c.effect B x s).2 = s) :
    wpUntil (siteMachine B) (SiteCmd.Fatal smooth) I (runAll cs) (fun _ t => t = s) s := by
  induction cs with
  | nil => exact rfl
  | cons c rest ih =>
    refine wpUntil_bind_of (Q := fun _ t => t = s) (fun x => ?_) ?_
    · have hsame : ((siteMachine B).perform c x s).2 = s := h c (by simp) x
      rw [hsame]
      exact ⟨hs, fun _ => rfl⟩
    · rintro _ t ht
      rw [ht]
      exact ih fun c hc => h c (by simp [hc])

/-- **A configuration file is rendered.** -/
theorem until_render {f : ConfigFile} (hf : f ≠ .stackEnv) (content : Bytes) (hs : Clear B s) :
    wpUntil (siteMachine B) (SiteCmd.Fatal smooth) (Crash B V) (run (.render f content))
      (fun ok t => ok = true ∧ Clear B t ∧ t = s.setConfig f content) s := by
  refine wpUntil_post (until_internal (I := Crash B V) rfl fun x =>
    (hs.perform (c := .render f content) hf x).crash) ?_
  rintro ok _ ⟨x, hx, rfl, rfl⟩
  have heffect : (SiteCmd.render f content).effect B x s = (true, s.setConfig f content) := by
    simp [SiteCmd.effect, act, hx, Outcome.status, Outcome.took]
  have hclear : Clear B ((SiteCmd.render f content).effect B x s).2 :=
    hs.perform (c := .render f content) hf x
  rw [heffect] at hclear ⊢
  exact ⟨rfl, hclear, rfl⟩

/-- **The configuration is rendered.** -/
structure Configured (B : Setting rel) (s : Site) : Prop where
  released : Released B s
  there : ∀ f, f ≠ .stackEnv → s.configured f = true
  config : ∀ f, f ≠ .stackEnv → s.host.config f = rendered B f

theorem until_own {f : ConfigFile} (hs : Clear B s) (hf : s.configured f = true) :
    wpUntil (siteMachine B) (SiteCmd.Fatal smooth) (Crash B V) (run (.own f))
      (fun ok t => ok = true ∧ t = s) s := by
  refine wpUntil_post (until_internal rfl fun x => hs.crash) ?_
  rintro ok _ ⟨x, hx, rfl, rfl⟩
  simp [SiteCmd.effect, hx, hf, Outcome.status]

theorem until_renderServerConfiguration (hs : Clear B s) (hreleased : Released B s)
    (hmaterial : s.material = true) :
    wpUntil (siteMachine B) (SiteCmd.Fatal smooth) (Crash B V) (renderServerConfiguration B)
      (fun ok t => ok = true ∧ Clear B t ∧ Configured B t ∧ t.admin = s.admin) s := by
  have hgo : ((siteMachine B).obs s).host.releases B.version |>.isSome := by
    change (s.host.releases B.version).isSome = true
    rw [hreleased.tree]
    rfl
  rw [renderServerConfiguration, wpUntil_look, wpUntil_ite]
  refine ⟨fun _ => ?_, fun hnot => absurd ?_ hnot⟩
  swap
  · rw [Bool.and_eq_true]
    exact ⟨hgo, hmaterial⟩
  have hstop : ∀ {P : Prop} {t u : Site}, false = true ∧ Clear B t ∧ t = u → P :=
    fun h => absurd h.1 nofun
  refine wpUntil_bind_of (Q := fun ok t => ok = true ∧ Clear B t ∧ Configured B t ∧
    t.admin = s.admin) ?_ ?_
  · refine wpUntil_all_of (until_render (by decide) _ hs) ?_ fun _ h => hstop h
    rintro _ ⟨-, h₁, rfl⟩
    refine wpUntil_all_of (until_render (by decide) _ h₁) ?_ fun _ h => hstop h
    rintro _ ⟨-, h₂, rfl⟩
    refine wpUntil_all_of (until_render (by decide) _ h₂) ?_ fun _ h => hstop h
    rintro _ ⟨-, h₃, rfl⟩
    refine wpUntil_all_of (until_render (by decide) _ h₃) ?_ fun _ h => hstop h
    rintro _ ⟨-, h₄, rfl⟩
    refine wpUntil_all_of (until_render (by decide) _ h₄) ?_ fun _ h => hstop h
    rintro _ ⟨-, h₅, rfl⟩
    refine ⟨rfl, h₅, ⟨⟨hreleased.current, hreleased.tree⟩, fun f hf => ?_, fun f hf => ?_⟩, rfl⟩
    · cases f <;> first | rfl | exact absurd rfl hf
    · cases f <;> first | rfl | exact absurd rfl hf
  · rintro ok t ⟨rfl, ht, hconfigured, hadmin⟩
    refine wpUntil_bind_of (until_runAll_same ht.crash ?_) ?_
    · simp only [List.forall_mem_cons, List.not_mem_nil, false_implies, implies_true, and_true]
      exact ⟨fun _ => rfl, fun _ => rfl, fun _ => rfl, fun _ => rfl⟩
    · rintro - _ rfl
      refine wpUntil_post (until_own ht (hconfigured.there _ (by decide))) ?_
      rintro ok _ ⟨rfl, rfl⟩
      exact ⟨rfl, ht, hconfigured, hadmin⟩

/-- `stack.env` is written over whatever there was. -/
theorem Clear.put_stackEnv (hs : Clear B s) :
    Clear B (s.put (.stackEnv (rendered B .stackEnv))) := by
  have hconfig : (Function.update s.host.config .stackEnv (rendered B .stackEnv)) .stackEnv =
      (rel B.version).config .stackEnv := Function.update_self _ _ _
  refine ⟨⟨hs.underway.state, hs.underway.journal, hs.underway.tmp, hs.underway.checkpoint,
    hs.underway.admin, hs.underway.release, fun _ => hconfig, hs.underway.layout⟩, fun hjammed => ?_⟩
  refine hs.jammed (hjammed.imp_right (.imp_right (.imp_left ?_)))
  rintro ⟨-, hmissing⟩
  have hthere : Function.update s.configured .stackEnv true .stackEnv = true :=
    Function.update_self _ _ _
  exact absurd (hthere.symm.trans hmissing) nofun

/-- **The whole configuration is there**, but for what a laboratory replaces. -/
structure Complete (B : Setting rel) (s : Site) : Prop where
  configured : Configured B s
  there : s.configured .stackEnv = true
  stackEnv : s.host.config .stackEnv = (rel B.version).config .stackEnv

/-- **The environment of the stack**: a leftover temporary file is in the way of a new one, and then
the old one stays. -/
theorem until_installStackEnvironment (hs : Clear B s) (hconfigured : Configured B s) :
    wpUntil (siteMachine B) (SiteCmd.Fatal smooth) (Crash B V) (installStackEnvironment B)
      (fun ok t => ok = true ∧ Clear B t ∧ Complete B t ∧ t.admin = s.admin) s := by
  have hwritten : wpUntil (siteMachine B) (SiteCmd.Fatal smooth) (Crash B V)
      (replaceFile (.stackEnv (rendered B .stackEnv)))
      (fun _ t => Clear B t ∧ Complete B t ∧ t.admin = s.admin) s := by
    cases htmp : s.stackTmp with
    | true =>
      have hthere : s.configured .stackEnv = true := by
        by_contra hmissing
        rw [hs.stackTmp (by simpa using hmissing)] at htmp
        cases htmp
      have hcreate : ∀ x, (SiteCmd.create .stackEnv).effect B x s = (false, s) := by
        intro x
        simp [SiteCmd.effect, Site.tmp, htmp]
      refine wpUntil_bind_of (until_internal rfl fun x => ?_) ?_
      · change Crash B V ((SiteCmd.create .stackEnv).effect B x s).2
        rw [hcreate]
        exact hs.crash
      · rintro ok _ ⟨x, -, hok, rfl⟩
        change ok = ((SiteCmd.create .stackEnv).effect B x s).1 at hok
        change wpUntil _ _ _ _ _ ((SiteCmd.create .stackEnv).effect B x s).2
        rw [hcreate] at hok ⊢
        subst hok
        exact ⟨hs, ⟨hconfigured, hthere, hs.underway.stackEnv hthere⟩, rfl⟩
    | false =>
      have hput := hs.put_stackEnv
      refine wpUntil_post (until_replaceFile _ htmp hs.crash
        (.inl (hs.underway.setTmp _ _)) hput.crash) ?_
      rintro ok _ ⟨-, rfl⟩
      have hthere : (s.put (.stackEnv (rendered B .stackEnv))).configured .stackEnv = true := by
        simp [Site.put, Site.setConfig]
      refine ⟨hput, ⟨⟨⟨hconfigured.released.current, hconfigured.released.tree⟩, fun f hf => ?_,
        fun f hf => ?_⟩, hthere, hput.underway.stackEnv hthere⟩, rfl⟩
      · exact (Function.update_of_ne hf _ _).trans (hconfigured.there f hf)
      · exact (Function.update_of_ne hf _ _).trans (hconfigured.config f hf)
  refine wpUntil_bind_of hwritten ?_
  rintro - t ⟨ht, hcomplete, hadmin⟩
  refine wpUntil_bind_of (Q := fun _ u => u = t) (fun x => ⟨ht.crash, fun _ => rfl⟩) ?_
  rintro - _ rfl
  refine wpUntil_post (until_own ht hcomplete.there) ?_
  rintro ok _ ⟨rfl, rfl⟩
  exact ⟨rfl, ht, hcomplete, hadmin⟩

/-- **The release is placed**: its directory, its link and its configuration. -/
structure Placed (B : Setting rel) (s : Site) : Prop where
  released : Released B s
  config : ∀ f, s.host.config f = (rel B.version).config f

theorem Placed.of_keeps (h : Placed B s) (hkeeps : Keeps s t) : Placed B t :=
  ⟨h.released.of_keeps hkeeps, hkeeps.config ▸ h.config⟩

/-- Every file but the one of the gateway is rendered as it stays. -/
theorem Complete.config_of_ne (h : Complete B s) {f : ConfigFile} (hf : f ≠ .caddyfile) :
    s.host.config f = (rel B.version).config f := by
  by_cases hstack : f = .stackEnv
  · rw [hstack]
    exact h.stackEnv
  · exact (h.configured.config f hstack).trans (if_neg hf)

/-- **The laboratory** has a gateway of its own. -/
theorem until_installLaboratoryCertificate (hs : Clear B s) (hcomplete : Complete B s) :
    wpUntil (siteMachine B) (SiteCmd.Fatal smooth) (Crash B V) (installLaboratoryCertificate B)
      (fun ok t => ok = true ∧ Clear B t ∧ Placed B t ∧ t.admin = s.admin) s := by
  rw [installLaboratoryCertificate, wpUntil_ite]
  refine ⟨fun _ => ?_, fun hplain => ?_⟩
  · refine wpUntil_bind_of (Q := fun _ u => s = u) (fun x => ⟨hs.crash, fun _ => rfl⟩) ?_
    rintro - _ rfl
    refine wpUntil_bind_of (Q := fun _ u => Clear B u ∧ Placed B u ∧ u.admin = s.admin ∧
      u.configured .caddyfile = true) ?_ ?_
    · refine wpUntil_post (until_internal (I := Crash B V) rfl fun x =>
        (hs.perform (c := .copyGateway _) trivial x).crash) ?_
      rintro ok _ ⟨x, hx, -, rfl⟩
      refine ⟨hs.perform (c := .copyGateway _) trivial x, ⟨⟨hcomplete.configured.released.current,
        hcomplete.configured.released.tree⟩, fun f => ?_⟩, rfl,
        hcomplete.configured.there _ (by decide)⟩
      by_cases hf : f = .caddyfile
      · simp [SiteCmd.effect, hx, hf, Host.setConfig, Outcome.leaves]
      · simpa [SiteCmd.effect, Host.setConfig, hf] using hcomplete.config_of_ne hf
    · rintro - u ⟨hu, hplaced, hadmin, hthere⟩
      refine wpUntil_post (until_own hu hthere) ?_
      rintro ok _ ⟨rfl, rfl⟩
      exact ⟨rfl, hu, hplaced, hadmin⟩
  · refine ⟨rfl, hs, ⟨hcomplete.configured.released, fun f => ?_⟩, rfl⟩
    by_cases hf : f = .caddyfile
    · have hgateway := B.gateway_eq (by simpa using hplain)
      rw [hf, hcomplete.configured.config _ (by decide), rendered, if_pos rfl, hgateway]
    · exact hcomplete.config_of_ne hf

/-- **The layout of an installation.** -/
theorem until_prepareInstalledLayout (hs : Clear B s) :
    wpUntil (siteMachine B) (SiteCmd.Fatal smooth) (Crash B V) (prepareInstalledLayout B)
      (fun result t => Clear B t ∧ (s.admin.isSome = true → t.admin.isSome = true) ∧
        (result.1 = true → Placed B t) ∧ (smooth = true → result.1 = true)) s := by
  refine wpUntil_bind_of (until_configureLayout hs) ?_
  rintro _ s₁ ⟨rfl, h₁, hkeeps₁, hsecrets⟩
  rw [if_pos rfl]
  refine wpUntil_bind_of (until_installReleaseFiles h₁ hsecrets) ?_
  rintro ⟨_, previous⟩ s₂ ⟨rfl, h₂, hreleased, hadmin₂, hsecrets₂⟩
  rw [if_pos rfl]
  have hadmin₂ : s.admin.isSome = true → s₂.admin.isSome = true :=
    fun hadmin => hadmin₂ ▸ hkeeps₁.admin hadmin
  refine wpUntil_bind_of (Q := fun ok t => Clear B t ∧
    (s.admin.isSome = true → t.admin.isSome = true) ∧ (ok = true → Placed B t) ∧
    (smooth = true → ok = true)) ?_ fun ok t ht => ht
  refine wpUntil_all_of (until_configureRuntimeMaterial h₂ hreleased hsecrets₂) ?_ ?_
  swap
  · rintro t ⟨ht, -, hadmin, -, hok⟩
    exact ⟨ht, fun h => hadmin (hadmin₂ h), nofun, hok⟩
  rintro s₃ ⟨h₃, hreleased, hadmin₃, hmaterial, -⟩
  have hadmin₃ : s.admin.isSome = true → s₃.admin.isSome = true := fun h => hadmin₃ (hadmin₂ h)
  refine wpUntil_all_of (until_renderServerConfiguration h₃ hreleased (hmaterial rfl)) ?_
    fun t ht => absurd ht.1 nofun
  rintro s₄ ⟨-, h₄, hconfigured, hadmin₄⟩
  refine wpUntil_all_of (until_installStackEnvironment h₄ hconfigured) ?_
    fun t ht => absurd ht.1 nofun
  rintro s₅ ⟨-, h₅, hcomplete, hadmin₅⟩
  refine wpUntil_all_of (until_installLaboratoryCertificate h₅ hcomplete) ?_
    fun t ht => absurd ht.1 nofun
  rintro s₆ ⟨-, h₆, hplaced, hadmin₆⟩
  have hadmin₆ : s.admin.isSome = true → s₆.admin.isSome = true := by
    rw [hadmin₆, hadmin₅, hadmin₄]
    exact hadmin₃
  have hpull : Proceeds B V smooth (fun _ => True) (run (.host .pull)) := .host rfl fun _ => rfl
  refine wpUntil_all_of (hpull s₆ h₆ trivial) ?_ ?_
  · rintro t ⟨ht, hkeeps, -⟩
    exact ⟨ht, fun h => hkeeps.admin (hadmin₆ h), fun _ => hplaced.of_keeps hkeeps, fun _ => rfl⟩
  · rintro t ⟨ht, hkeeps, hok⟩
    exact ⟨ht, fun h => hkeeps.admin (hadmin₆ h), nofun, hok⟩

/-! ### The stack and the administrator -/

theorem Proceeds.waitServiceHealthy {A : Site → Prop} (service : Service) :
    Proceeds B V smooth A (Install.waitServiceHealthy service) := .program _

/-- **The steps up to the first administrator.** -/
theorem until_beforeAdmin (hs : Clear B s) :
    wpUntil (siteMachine B) (SiteCmd.Fatal smooth) (Crash B V) (beforeAdmin B)
      (fun failure t => Clear B t ∧ Keeps s t ∧ (smooth = true → failure = none)) s := by
  have hrecord : ∀ {phase : InstallPhase}, phase.rank < InstallPhase.adminCreated.rank →
      Proceeds B V smooth (fun _ => True) (recordPhase phase) :=
    fun hphase => .recordPhase _ fun _ _ hrank => absurd hrank (Nat.not_le.mpr hphase)
  have hgateway : Proceeds B V smooth (fun _ => True) startGatewayAndExporter := by
    refine .all stable_true ?_
    simpa using ⟨.program _, .waitServiceHealthy _⟩
  have hcertificate : Proceeds B V smooth (fun _ => True) waitCertificateReady := by
    refine .all stable_true ?_
    simpa using ⟨.waitServiceHealthy _, .program _⟩
  have hmigrate : Proceeds B V smooth (fun _ => True) (migrateControl B) := by
    refine .all stable_true ?_
    simpa using ⟨.program _, .waitServiceHealthy _, .host rfl fun _ => rfl⟩
  refine until_parts stable_true ?_ hs trivial
  simp only [List.forall_mem_cons, List.not_mem_nil, false_implies, implies_true, and_true]
  exact ⟨hrecord (by decide), hgateway, hrecord (by decide), hcertificate, hrecord (by decide),
    hmigrate, hrecord (by decide)⟩

/-- **The login is written down.** -/
theorem until_recordOperationAdminLogin (hs : Clear B s) (login : Login) :
    wpUntil (siteMachine B) (SiteCmd.Fatal smooth) (Crash B V)
      (recordOperationAdminLogin login.text)
      (fun ok t => Clear B t ∧ Keeps s t ∧ ok = true) s := by
  have hline : ¬(login.text = [] ∨ '\n' ∈ login.text ∨ '\r' ∈ login.text) :=
    not_or.mpr ⟨login.filled, not_or.mpr login.line⟩
  have hquiet : (recordOperationAdminLogin login.text).Only SiteCmd.Quiet :=
    .ite trivial (.bind (.bind (.run ⟨trivial, rfl⟩) fun _ => .bind (.run ⟨trivial, rfl⟩)
      fun _ => trivial) fun _ => .run ⟨trivial, rfl⟩)
  have hok : wpUntil (siteMachine B) (SiteCmd.Fatal smooth) (fun _ => True)
      (recordOperationAdminLogin login.text) (fun ok _ => ok = true) s := by
    rw [recordOperationAdminLogin, if_neg hline]
    refine wpUntil_bind_of (Q := fun _ t => t.adminLoginTmp.isSome = true) ?_ ?_
    · refine wpUntil_bind_of (until_internal rfl fun _ => trivial) ?_
      rintro - t ⟨x, hx, -, rfl⟩
      refine wpUntil_bind_of (until_internal rfl fun _ => trivial) ?_
      rintro - _ ⟨-, -, -, rfl⟩
      simp [SiteCmd.effect, hx, runAll]
    · rintro - t ht
      refine wpUntil_post (until_internal rfl fun _ => trivial) ?_
      rintro ok _ ⟨x, hx, rfl, -⟩
      simp [SiteCmd.effect, act, ht, hx, Outcome.status]
  refine wpUntil_post (wpUntil_and (until_quiet hquiet hs) hok) ?_
  rintro ok t ⟨⟨ht, hkeeps⟩, hok⟩
  exact ⟨ht, hkeeps, hok⟩

/-- The administrator is created, where there is none. -/
theorem until_initializeAdminFromTty (hs : Clear B s) (hnone : s.admin = none) (login : Login) :
    wpUntil (siteMachine B) (SiteCmd.Fatal smooth) (Crash B V) (initializeAdminFromTty login)
      (fun ok t => Clear B t ∧ Keeps s t ∧ (ok = true → t.admin.isSome = true) ∧
        (smooth = true → ok = true)) s := by
  have hsmooth : ∀ {c : SiteCmd} {x : Choice}, ¬c.Fatal smooth x → smooth = true →
      x.outcome = .ok := by
    intro c x hx hs
    by_contra hne
    exact hx ⟨hne, .inl hs⟩
  refine wpUntil_all_of (R := fun ok t => Clear B t ∧ Keeps s t ∧ t.admin = none ∧
    (smooth = true → ok = true)) (fun x => ?_) ?_ ?_
  · have ht : Clear B ((SiteCmd.program .collectCredentials).effect B x s).2 :=
      hs.perform (c := .program _) trivial x
    refine ⟨ht.crash, fun hx => ⟨ht, keeps_effect rfl x, hnone, fun hs => ?_⟩⟩
    simp [siteMachine, SiteCmd.effect, hsmooth hx hs, Outcome.status]
  · rintro t ⟨ht, hkeeps, hnone, -⟩
    refine wpUntil_all_of (R := fun ok u => Clear B u ∧ Keeps s u ∧
      (ok = true → u.admin.isSome = true) ∧ (smooth = true → ok = true)) (fun x => ?_) ?_ ?_
    · have hu : Clear B ((SiteCmd.initAdmin login).effect B x t).2 :=
        ht.perform (c := .initAdmin login) trivial x
      have hkeeps' : Keeps t ((SiteCmd.initAdmin login).effect B x t).2 := keeps_effect rfl x
      refine ⟨hu.crash, fun hx => ⟨hu, hkeeps.trans hkeeps', fun hok => ?_, fun hs => ?_⟩⟩
      · simp only [siteMachine, SiteCmd.effect, hnone, Option.isSome_none, act] at hok ⊢
        cases ho : x.outcome <;> simp [ho, Outcome.status, Outcome.took] at hok ⊢
      · simp [siteMachine, SiteCmd.effect, act, hnone, hsmooth hx hs, Outcome.status]
    · rintro u ⟨hu, hkeeps, hadmin, -⟩
      exact ⟨hu, hkeeps, fun _ => hadmin rfl, fun _ => rfl⟩
    · rintro u ⟨hu, hkeeps, -, hok⟩
      exact ⟨hu, hkeeps, by simp, hok⟩
  · rintro t ⟨ht, hkeeps, -, hok⟩
    exact ⟨ht, hkeeps, by simp, hok⟩

/-- **The first administrator** is created or found. A checkpoint that says that there is one is
right. -/
theorem until_createOrRecoverAdmin (hs : Clear B s) (resume : Option InstallPhase)
    (hresume : resumedAtOrAfter resume .adminCreated = true → s.admin.isSome = true)
    (login : Login) :
    wpUntil (siteMachine B) (SiteCmd.Fatal smooth) (Crash B V) (createOrRecoverAdmin resume login)
      (fun created t => Clear B t ∧ Keeps s t ∧
        (created.isSome = true → t.admin.isSome = true) ∧
        (smooth = true → created.isSome = true)) s := by
  have hobs : (siteMachine B).obs s = s := rfl
  rw [createOrRecoverAdmin, wpUntil_look, hobs]
  cases hadmin : s.admin with
  | some current =>
    have hthere : s.admin.isSome = true := congrArg Option.isSome hadmin
    refine wpUntil_bind_of (until_recordOperationAdminLogin hs current) ?_
    rintro - t ⟨ht, hkeeps, -⟩
    exact ⟨ht, hkeeps, fun _ => hkeeps.admin hthere, fun _ => rfl⟩
  | none =>
    rw [wpUntil_ite]
    refine ⟨fun hresumed => absurd (hresume hresumed) (by simp [hadmin]), fun _ => ?_⟩
    refine wpUntil_bind_of (until_initializeAdminFromTty hs hadmin login) ?_
    rintro ok t ⟨ht, hkeeps, hcreated, hok⟩
    cases ok with
    | false => exact ⟨ht, hkeeps, by simp, hok⟩
    | true =>
      rw [if_pos rfl]
      refine wpUntil_bind_of (until_recordOperationAdminLogin ht login) ?_
      rintro _ u ⟨hu, hkeeps', rfl⟩
      exact ⟨hu, hkeeps.trans hkeeps', fun _ => hkeeps'.admin (hcreated rfl), fun _ => rfl⟩

/-! ### The units, and the end -/

/-- **The tools of the release are in place.** -/
def Tooled (B : Setting rel) (s : Site) : Prop :=
  ∀ tool, s.host.tools tool = some ((rel B.version).tool tool)

/-- What the last steps start from. -/
structure Equipped (B : Setting rel) (s : Site) : Prop where
  placed : Placed B s
  admin : s.admin.isSome = true

theorem stable_equipped : Stable (Equipped B) :=
  fun _ _ hkeeps h => ⟨h.placed.of_keeps hkeeps, hkeeps.admin h.admin⟩

theorem stable_tooled : Stable fun s => Equipped B s ∧ Tooled B s := by
  rintro s t hkeeps ⟨hequipped, htooled⟩
  refine ⟨stable_equipped hkeeps hequipped, fun tool => ?_⟩
  rw [hkeeps.tools]
  exact htooled tool

/-- A tool is installed. -/
theorem until_installTool (hs : Clear B s) (hequipped : Equipped B s) (tool : HostTool) :
    wpUntil (siteMachine B) (SiteCmd.Fatal smooth) (Crash B V)
      (run (.host (.installTool B.version tool)))
      (fun _ t => Clear B t ∧ Equipped B t ∧ t.host.tools =
        Function.update s.host.tools tool (some ((rel B.version).tool tool))) s := by
  have hcalm : (SiteCmd.host (.installTool B.version tool)).Calm := rfl
  refine wpUntil_post (until_internal (I := Crash B V) rfl fun x => (hs.perform hcalm x).crash) ?_
  rintro - _ ⟨x, hx, -, rfl⟩
  have hsame : Host.Same [.current, .releases, .config] s.host
      ((hostMachine rel).perform (.installTool B.version tool) x s.host).2 :=
    Host.Same.perform rfl (by decide) x.outcome x.panel s.host
  have hcurrent := hsame .current (by decide)
  have hreleases := hsame .releases (by decide)
  have hconfig := hsame .config (by decide)
  simp only [Part.Same] at hcurrent hreleases hconfig
  refine ⟨hs.perform hcalm x, ⟨⟨⟨?_, ?_⟩, fun f => ?_⟩, hequipped.admin⟩, ?_⟩
  · exact hcurrent.trans hequipped.placed.released.current
  · exact (congrFun hreleases _).trans hequipped.placed.released.tree
  · exact (congrFun hconfig f).trans (hequipped.placed.config f)
  · refine (commit_same (p := .tools) (by simp) _ x.panel).trans ?_
    simp [Cmd.effect, hequipped.placed.released.tree, hx, Host.setTool, Outcome.leaves]

/-- **The unit and the program are installed.** -/
theorem until_installSystemdAndCli (hs : Clear B s) (hequipped : Equipped B s) :
    wpUntil (siteMachine B) (SiteCmd.Fatal smooth) (Crash B V) (installSystemdAndCli B)
      (fun ok t => Clear B t ∧ (Equipped B t ∧ Tooled B t) ∧ (smooth = true → ok = true)) s := by
  have hquiet : ∀ {c : SiteCmd} {t : Site} {A : Site → Prop}, Stable A → c.Quiet → Clear B t →
      A t → wpUntil (siteMachine B) (SiteCmd.Fatal smooth) (Crash B V) (run c)
        (fun _ u => Clear B u ∧ A u) t := by
    intro c t A hA hc ht hAt
    refine wpUntil_post (until_quiet (.run hc) ht) ?_
    rintro - u ⟨hu, hkeeps⟩
    exact ⟨hu, hA hkeeps hAt⟩
  refine wpUntil_bind_of (Q := fun _ t => Clear B t ∧ Equipped B t ∧ Tooled B t) ?_ ?_
  · refine wpUntil_bind_of (hquiet stable_equipped ⟨trivial, rfl⟩ hs hequipped) ?_
    rintro - s₁ ⟨h₁, e₁⟩
    refine wpUntil_bind_of (until_installTool h₁ e₁ .unit) ?_
    rintro - s₂ ⟨h₂, e₂, hunit⟩
    refine wpUntil_bind_of (until_installTool h₂ e₂ .cli) ?_
    rintro - s₃ ⟨h₃, e₃, hcli⟩
    have htooled : Tooled B s₃ := by
      intro tool
      rw [hcli, hunit]
      cases tool with
      | unit => rfl
      | cli => rfl
    refine wpUntil_bind_of (hquiet stable_tooled ⟨rfl, rfl⟩ h₃ ⟨e₃, htooled⟩) ?_
    rintro - s₄ ⟨h₄, e₄⟩
    refine wpUntil_bind_of (hquiet stable_tooled ⟨trivial, rfl⟩ h₄ e₄) ?_
    rintro - s₅ ⟨h₅, e₅⟩
    exact ⟨h₅, e₅⟩
  · rintro - t ⟨ht, e⟩
    have hstart : Proceeds B V smooth (fun _ => True) (run (.host (.service .start))) :=
      .host rfl fun h => rfl
    refine wpUntil_post (hstart t ht trivial) ?_
    rintro ok u ⟨hu, hkeeps, hok⟩
    exact ⟨hu, stable_tooled hkeeps e, hok⟩

/-- **The installation is written down**: `install.json` is there, and everything belongs to one
release. -/
structure Written (B : Setting rel) (s : Site) : Prop where
  state : s.state.isSome = true
  release : OneRelease rel B.version s.host
  journal : s.host.journal = none
  tmp : s.host.tmp .state = false
  checkpoint : s.host.checkpoint.isSome = true

/-- A checkpoint beside `install.json` is in the way of an update. -/
theorem Written.crash (h : Written B s) : Crash B V s :=
  .inr ⟨h.state, .inl (.inl ⟨by rw [h.journal]; rfl, h.checkpoint⟩)⟩

theorem until_installWriteCompleteState (hs : Clear B s) (hequipped : Equipped B s)
    (htooled : Tooled B s) (hcheckpoint : s.host.checkpoint.isSome = true) (adminLogin : List Char) :
    wpUntil (siteMachine B) (SiteCmd.Fatal smooth) (Crash B V)
      (installWriteCompleteState B adminLogin) (fun ok t => ok = true ∧ Written B t) s := by
  have hmade : wpUntil (siteMachine B) (SiteCmd.Fatal smooth) (Crash B V)
      (run (.makeDirectory statePath)) (fun _ t => Clear B t ∧ t.host = s.host) s := by
    intro x
    have hclear : Clear B ((SiteCmd.makeDirectory statePath).effect B x s).2 :=
      hs.perform (c := .makeDirectory statePath) statePath_mem x
    refine ⟨hclear.crash, fun _ => ⟨hclear, ?_⟩⟩
    simp only [siteMachine, SiteCmd.effect, act]
    split
    · split <;> rfl
    · rfl
  refine wpUntil_bind_of hmade ?_
  rintro - t ⟨ht, hhost⟩
  have hwritten : Written B (t.put (.state B.version ⟨adminLogin, B.laboratory, B.publicIpv4⟩)) := by
    obtain ⟨⟨hcurrent, htree⟩, hconfig⟩ := hequipped.placed
    rw [← hhost] at hcurrent htree hconfig hcheckpoint
    refine ⟨rfl, ⟨rfl, hcurrent, htree, hconfig, fun tool => ?_⟩, ht.underway.journal,
      ht.underway.tmp, hcheckpoint⟩
    have htool := htooled tool
    rw [← hhost] at htool
    exact htool
  refine wpUntil_all_of (until_replaceFile _ ht.stateTmp ht.crash
    (.inl (ht.underway.setTmp _ _)) hwritten.crash) ?_ ?_
  · rintro _ ⟨-, rfl⟩
    refine wpUntil_all_of (until_internal rfl fun _ => hwritten.crash) ?_ ?_
    · rintro _ ⟨x, -, -, rfl⟩
      exact ⟨rfl, hwritten⟩
    · rintro _ ⟨x, hx, hfailed, -⟩
      -- `install.json` is there, so that only a crash keeps its mode from being set
      simp [SiteCmd.effect, hx, Outcome.status, hwritten.state] at hfailed
  · rintro t ⟨hfailed, -⟩
    cases hfailed

/-- **The steps from the first administrator on**: the last of them removes the checkpoint. -/
theorem until_afterAdmin (hV : V B.version) (hs : Clear B s) (hequipped : Equipped B s)
    (adminLogin : List Char) :
    wpUntil (siteMachine B) (SiteCmd.Fatal smooth) (Crash B V) (afterAdmin B adminLogin)
      (fun failure t => (failure = none → t.state.isSome = true ∧ AtRest rel B.version t.host) ∧
        (failure ≠ none → smooth = false ∧ Clear B t)) s := by
  have hrecord : ∀ (A : Site → Prop), (∀ s, A s → Equipped B s) → ∀ phase,
      Proceeds B V smooth A (recordPhase phase) :=
    fun A hA phase => .recordPhase phase fun s hs _ => (hA s hs).admin
  have hruntimes : Proceeds B V smooth (Equipped B) startRuntimes := by
    refine .all stable_equipped ?_
    simpa using ⟨.program _, .waitServiceHealthy _, .program _, .waitServiceHealthy _, .program _,
      .waitServiceHealthy _⟩
  let R : Option InstallError → Site → Prop := fun failure t =>
    (failure = none → Written B t) ∧ (failure ≠ none → smooth = false ∧ Clear B t)
  have hstop : ∀ {name : InstallError} (t u : Site), Clear B u → Keeps t u → smooth = false →
      R (some name) u := fun _ u hu _ hne => ⟨nofun, fun _ => ⟨hne, hu⟩⟩
  refine wpUntil_bind_of (Q := R) ?_ ?_
  · refine until_part (hrecord _ (fun _ h => h) _) hs hequipped ?_ (hstop s)
    intro s₁ h₁ k₁
    have e₁ := stable_equipped k₁ hequipped
    refine until_part hruntimes h₁ e₁ ?_ (hstop s₁)
    intro s₂ h₂ k₂
    have e₂ := stable_equipped k₂ e₁
    refine until_part (hrecord _ (fun _ h => h) _) h₂ e₂ ?_ (hstop s₂)
    intro s₃ h₃ k₃
    have e₃ := stable_equipped k₃ e₂
    refine wpUntil_firstFailure_of (until_installSystemdAndCli h₃ e₃) ?_ ?_
    swap
    · rintro t ⟨ht, -, hok⟩
      refine ⟨nofun, fun _ => ⟨?_, ht⟩⟩
      by_contra hne
      exact absurd (hok (by simpa using hne)) nofun
    rintro s₄ ⟨h₄, e₄, -⟩
    refine until_part (A := fun t => Equipped B t ∧ Tooled B t) (.program _) h₄ e₄ ?_ (hstop s₄)
    intro s₅ h₅ k₅
    have e₅ := stable_tooled k₅ e₄
    refine until_part (hrecord (fun t => Equipped B t ∧ Tooled B t) (fun _ h => h.1) _) h₅ e₅ ?_
      (hstop s₅)
    intro s₆ h₆ k₆
    have e₆ := stable_tooled k₆ e₅
    refine wpUntil_firstFailure_of (until_recordPhase _ h₆ fun _ => e₆.1.admin) ?_
      fun t ht => absurd ht.1 nofun
    rintro s₇ ⟨-, h₇, k₇, hcheckpoint⟩
    have e₇ := stable_tooled k₇ e₆
    refine wpUntil_firstFailure_of (until_installWriteCompleteState h₇ e₇.1 e₇.2
      (congrArg Option.isSome hcheckpoint) adminLogin) ?_ fun t ht => absurd ht.1 nofun
    rintro s₈ ⟨-, hwritten⟩
    exact ⟨fun _ => hwritten, fun hne => absurd rfl hne⟩
  · rintro failure t ⟨hwritten, hfailed⟩
    cases failure with
    | some error => exact ⟨nofun, hfailed⟩
    | none =>
      have hwritten := hwritten rfl
      refine wpUntil_bind_of (wpUntil_mono (wpUntil_adapt embeds_host (fun _ _ hx => hx)
        (until_clearOperationCheckpoint hV hwritten.release hwritten.tmp hwritten.journal)) ?_
          fun _ _ ht => ht) ?_
      · rintro _ ⟨h, hsafe, rfl⟩
        exact .inr ⟨hwritten.state, hsafe⟩
      · rintro - _ ⟨h, hrest, rfl⟩
        have hrun : wpUntil (siteMachine B) (SiteCmd.Fatal smooth) (Crash B V) (run .removeLogin)
            (fun ok u => ok = true ∧ u.state.isSome = true ∧ AtRest rel B.version u.host)
            (hostPart.put h t) := by
          have hleft : ∀ x : Choice,
              (SiteCmd.removeLogin.effect B x (hostPart.put h t)).2.state.isSome = true ∧
                AtRest rel B.version (SiteCmd.removeLogin.effect B x (hostPart.put h t)).2.host :=
            fun x => act_either (I := fun u => u.state.isSome = true ∧ AtRest rel B.version u.host)
              x.outcome ⟨hwritten.state, hrest⟩ ⟨hwritten.state, hrest⟩
          refine wpUntil_post (until_internal rfl fun x => .inr ⟨(hleft x).1, (hleft x).2.safe hV⟩) ?_
          rintro ok _ ⟨x, hx, rfl, rfl⟩
          exact ⟨by simp [SiteCmd.effect, act, hx, Outcome.status], hleft x⟩
        refine wpUntil_bind_of hrun ?_
        rintro ok u ⟨rfl, hu⟩
        exact ⟨fun _ => hu, fun hne => absurd rfl hne⟩

end EzOpenPN.Install
