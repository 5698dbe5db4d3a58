import EzOpenPN.Installer.InstallCrashes

/-!
# What no later run gets past

`EzOpenPN.Install.finished_of_spared` asks that no crash leaves a stuck site. That is all there is to
ask: **a stuck site stays stuck**, whatever is done with it. Three of the temporary files are in the
way of the program that creates them, and no other command removes one; a secret that was not filled
is in the way of the runtime material; and beside `install.json` every run is an update, which stops at
the checkpoint of another operation.

Each of these is an `EzOpenPN.Install.Obstacle`, except for the last, which is
`EzOpenPN.Upgrade.Stuck`. Almost all commands leave an obstacle alone
(`EzOpenPN.Install.SiteCmd.Harmless`), and the part of the installation that it is in the way of
fails (`Script.Keeps.all_fails`). So an interrupted installation can be finished **if and only if**
no crash left a stuck site (`EzOpenPN.Install.finished_iff`), and a crash in its first file is enough
for it to be never finished (`EzOpenPN.Install.never_finished`).
-/

namespace EzOpenPN.Install

open FileSystem Script Upgrade

variable {rel : Version → Release} {B : Setting rel} {smooth : Bool} {s t u : Site}

/-! ### What stays where it is -/

/-- A file of a size. -/
def Sized (size : ℕ) (e : Option LayoutEntry) : Prop :=
  ∃ mode owner, e = some (.file size mode owner)

theorem unfilled_iff {e : Option LayoutEntry} : Unfilled e ↔ ∃ size, size ≠ 32 ∧ Sized size e := by
  constructor
  · intro h
    match e, h with
    | some (.file size mode owner), h => exact ⟨size, h, mode, owner, rfl⟩
  · rintro ⟨size, hsize, mode, owner, rfl⟩
    exact hsize

theorem Readable.sized {e : Option LayoutEntry} (h : Readable e) : Sized 32 e := by
  match e, h with
  | some (.file size mode owner), h => exact ⟨mode, owner, by rw [h.1]⟩

/-- **No command of the layout writes a file that is there.** -/
theorem sized_effect {l : Layout} {c : LayoutCommand} {o : CallOutcome} {p : LayoutPath} {size : ℕ}
    (h : Sized size (l.entry p)) : Sized size ((c.effect l o).2.entry p) := by
  obtain ⟨mode, owner, hp⟩ := h
  -- what is made on the way was missing
  have hother : ∀ {q : LayoutPath} {l' : Layout}, Layout.SameBut q l l' → p ≠ q →
      Sized size (l'.entry p) := by
    intro q l' hsame hne
    refine ⟨mode, owner, ?_⟩
    rcases hsame p hne with heq | ⟨-, hnone, -⟩
    · exact heq.trans hp
    · rw [hp] at hnone
      cases hnone
  cases c with
  | installDirectory q m =>
    by_cases hne : p = q
    · subst hne
      simp only [LayoutCommand.effect, hp]
      split <;> exact ⟨mode, owner, hp⟩
    · exact hother LayoutCommand.installDirectory_sameBut hne
  | chmod q m =>
    by_cases hne : p = q
    · subst hne
      simp only [LayoutCommand.effect, hp]
      split
      · exact ⟨m, owner, Layout.put_entry_self _⟩
      · exact ⟨mode, owner, hp⟩
    · exact hother LayoutCommand.chmod_sameBut hne
  | chown q w =>
    by_cases hne : p = q
    · subst hne
      simp only [LayoutCommand.effect, hp]
      split
      · exact ⟨mode, w, Layout.put_entry_self _⟩
      · exact ⟨mode, owner, hp⟩
    · exact hother LayoutCommand.chown_sameBut hne
  | python q =>
    by_cases hne : p = q
    · subst hne
      simp only [LayoutCommand.effect, hp]
      exact ⟨mode, owner, rfl⟩
    · exact ⟨mode, owner, (LayoutCommand.python_other hne).trans hp⟩

/-- **The material and the files of the layout stay**: files are neither written nor removed. -/
structure Stays (s t : Site) : Prop where
  material : t.material = s.material
  files : ∀ p size, Sized size (s.layout.entry p) → Sized size (t.layout.entry p)

theorem Stays.of_eq (hmaterial : t.material = s.material := by rfl)
    (hlayout : t.layout = s.layout := by rfl) : Stays s t :=
  ⟨hmaterial, fun _ _ h => hlayout ▸ h⟩

theorem Stays.refl (s : Site) : Stays s s := .of_eq

theorem Stays.act (o : Outcome) (h : Stays s t) : Stays s (act o t s).2 := act_either o (.refl s) h

/-- Only one command puts the runtime material in its place. -/
theorem stays_effect {c : SiteCmd} (hc : c ≠ .moveMaterial) (x : Choice) :
    Stays s (c.effect B x s).2 := by
  cases c with
  | moveMaterial => exact absurd rfl hc
  | layout c => exact ⟨rfl, fun p size h => sized_effect h⟩
  | makeDirectory path =>
    simp only [SiteCmd.effect]
    split
    · refine .act _ ⟨rfl, fun p size h => ?_⟩
      obtain ⟨mode, owner, hp⟩ := h
      have hthere : ¬(p ∈ path.inits ∧ s.layout.entry p = none) := by
        rintro ⟨-, hnone⟩
        rw [hp] at hnone
        cases hnone
      exact ⟨mode, owner, (if_neg hthere).trans hp⟩
    · exact .refl s
  | create file =>
    simp only [SiteCmd.effect]
    split
    · exact .refl s
    · cases file <;> exact .act _ .of_eq
  | replace content =>
    simp only [SiteCmd.effect]
    split
    · cases content <;> exact .act _ .of_eq
    · exact .refl s
  | discard file => cases file <;> exact .act _ .of_eq
  | render file content => exact .act _ .of_eq
  | initAdmin login =>
    simp only [SiteCmd.effect]
    split
    · exact .refl s
    · exact .act _ .of_eq
  | moveLogin =>
    simp only [SiteCmd.effect]
    split
    · exact .act _ .of_eq
    · exact .refl s
  | removeLogin => exact .act _ .of_eq
  | _ => exact .of_eq

/-- **The runtime material was put together of secrets that were filled.** -/
def Composed (s : Site) : Prop :=
  s.material = true → ∀ p ∈ secretPaths, Sized 32 (s.layout.entry p)

theorem Composed.of_stays (h : Composed s) (hstays : Stays s t) : Composed t :=
  fun hmaterial p hp => hstays.files p 32 (h (hstays.material ▸ hmaterial) p hp)

/-! ### Obstacles -/

/-- **What can be in the way** of an installation. -/
inductive Obstacle where
  /-- A temporary file that is created exclusively. -/
  | leftover (file : InstallFile)
  /-- A secret that was created and not filled. -/
  | unfilled (path : LayoutPath)

/-- **An obstacle bars an installation** that is not finished: a leftover `stack.env.tmp` does so
without a `stack.env`, and a secret without the runtime material. -/
def Obstacle.Bars (o : Obstacle) (s : Site) : Prop :=
  s.state = none ∧ match o with
    | leftover file => s.tmp file = true ∧ (file = .stackEnv → s.configured .stackEnv = false)
    | unfilled path => path ∈ secretPaths ∧ s.material = false ∧ Unfilled (s.layout.entry path)

/-- What is in the way of an installation is an obstacle. -/
theorem exists_bars (hcomposed : Composed s) (hstate : s.state = none) (hjammed : Jammed s) :
    ∃ o : Obstacle, o.Bars s := by
  rcases hjammed with htmp | htmp | ⟨htmp, hmissing⟩ | ⟨p, hp, hunfilled⟩
  · exact ⟨.leftover .checkpoint, hstate, htmp, nofun⟩
  · exact ⟨.leftover .state, hstate, htmp, nofun⟩
  · exact ⟨.leftover .stackEnv, hstate, htmp, fun _ => hmissing⟩
  · refine ⟨.unfilled p, hstate, hp, ?_, hunfilled⟩
    by_contra hmaterial
    obtain ⟨mode, owner, hfilled⟩ := hcomposed (by simpa using hmaterial) p hp
    rw [hfilled] at hunfilled
    exact hunfilled rfl

theorem Obstacle.Bars.jammed {o : Obstacle} (h : o.Bars s) : Jammed s := by
  obtain ⟨-, h⟩ := h
  cases o with
  | leftover file =>
    cases file with
    | checkpoint => exact .inl h.1
    | stackEnv => exact .inr (.inr (.inl ⟨h.1, h.2 rfl⟩))
    | state => exact .inr (.inl h.1)
  | unfilled path => exact .inr (.inr (.inr ⟨path, h.1, h.2.2⟩))

/-- **The commands that no obstacle minds.** -/
def SiteCmd.Harmless : SiteCmd → Prop
  | .host c => c.spares [.tmp] = true
  | .create _ | .replace _ | .discard _ | .moveMaterial => False
  | .render file _ => file ≠ .stackEnv
  | _ => True

theorem SiteCmd.Harmless.ne_moveMaterial {c : SiteCmd} (hc : c.Harmless) : c ≠ .moveMaterial := by
  rintro rfl
  exact hc

/-- **Nothing that an obstacle depends on is different.** -/
structure Undisturbed (s t : Site) : Prop where
  state : t.state = s.state
  tmp : ∀ file, t.tmp file = s.tmp file
  configured : t.configured .stackEnv = s.configured .stackEnv

theorem Undisturbed.of_eq (htmp : t.host.tmp .checkpoint = s.host.tmp .checkpoint)
    (hconfigured : t.configured .stackEnv = s.configured .stackEnv := by rfl)
    (hstate : t.state = s.state := by rfl) (hstackTmp : t.stackTmp = s.stackTmp := by rfl)
    (hstateTmp : t.stateTmp = s.stateTmp := by rfl) : Undisturbed s t := by
  refine ⟨hstate, fun file => ?_, hconfigured⟩
  cases file with
  | checkpoint => exact htmp
  | stackEnv => exact hstackTmp
  | state => exact hstateTmp

theorem Undisturbed.refl (s : Site) : Undisturbed s s := .of_eq rfl

theorem Undisturbed.act (o : Outcome) (h : Undisturbed s t) : Undisturbed s (act o t s).2 :=
  act_either o (.refl s) h

theorem undisturbed_effect {c : SiteCmd} (hc : c.Harmless) (x : Choice) :
    Undisturbed s (c.effect B x s).2 := by
  cases c with
  | create | replace | discard | moveMaterial => exact hc.elim
  | host c =>
    have hperform : Host.Same [.tmp] s.host ((hostMachine rel).perform c x s.host).2 :=
      Host.Same.perform hc (by decide) x.outcome x.panel s.host
    exact .of_eq (congrFun (hperform .tmp (by decide)) _)
  | program p =>
    obtain ⟨running, heffect⟩ := p.effect_eq x.outcome s.host
    simp only [SiteCmd.effect, heffect]
    exact .of_eq rfl
  | makeDirectory path =>
    simp only [SiteCmd.effect]
    split
    · exact .act _ (.of_eq rfl)
    · exact .refl s
  | render file content => exact .act _ (.of_eq rfl (Function.update_of_ne (Ne.symm hc) _ _))
  | initAdmin login =>
    simp only [SiteCmd.effect]
    split
    · exact .refl s
    · exact .act _ (.of_eq rfl)
  | moveLogin =>
    simp only [SiteCmd.effect]
    split
    · exact .act _ (.of_eq rfl)
    · exact .refl s
  | removeLogin => exact .act _ (.of_eq rfl)
  | _ => exact .of_eq rfl

section Bars

variable {o : Obstacle}

theorem Obstacle.Bars.of_undisturbed (h : o.Bars s) (hstays : Stays s t)
    (hsame : Undisturbed s t) : o.Bars t := by
  obtain ⟨hstate, h⟩ := h
  refine ⟨hsame.state.trans hstate, ?_⟩
  cases o with
  | leftover file =>
    exact ⟨(hsame.tmp file).trans h.1, fun hfile => hsame.configured.trans (h.2 hfile)⟩
  | unfilled path =>
    obtain ⟨size, hsize, hsized⟩ := unfilled_iff.mp h.2.2
    exact ⟨h.1, hstays.material.trans h.2.1,
      unfilled_iff.mpr ⟨size, hsize, hstays.files path size hsized⟩⟩

/-- **A harmless command leaves an obstacle in the way.** -/
theorem Obstacle.Bars.harmless {c : SiteCmd} (h : o.Bars s) (hc : c.Harmless) (x : Choice) :
    o.Bars ((siteMachine B).perform c x s).2 :=
  h.of_undisturbed (stays_effect hc.ne_moveMaterial x) (undisturbed_effect hc x)

theorem keeps_of_harmless {α : Type} {p : InstallScript α} (hp : p.Only SiteCmd.Harmless) :
    Script.Keeps (siteMachine B) o.Bars o.Bars p :=
  hp.keeps fun _ hc _ x hs => hs.harmless hc x

/-- Another temporary file. -/
theorem bars_setTmp {file : InstallFile} (ho : o ≠ .leftover file) (h : o.Bars s) (there : Bool) :
    o.Bars (s.setTmp file there) := by
  obtain ⟨hstate, h⟩ := h
  cases o with
  | unfilled path => cases file <;> exact ⟨hstate, h⟩
  | leftover other =>
    cases file <;> cases other <;> first | exact absurd rfl ho | exact ⟨hstate, h⟩

/-- Another file. -/
theorem bars_put {content : InstallContent} (hcontent : content.file ≠ .state)
    (ho : o ≠ .leftover content.file) (h : o.Bars s) : o.Bars (s.put content) := by
  obtain ⟨hstate, h⟩ := h
  cases content with
  | state version state => exact absurd rfl hcontent
  | checkpoint phase =>
    cases o with
    | unfilled path => exact ⟨hstate, h⟩
    | leftover file => cases file <;> exact ⟨hstate, h⟩
  | stackEnv content =>
    cases o with
    | unfilled path => exact ⟨hstate, h⟩
    | leftover file =>
      cases file with
      | stackEnv => exact absurd rfl ho
      | checkpoint => exact ⟨hstate, h.1, nofun⟩
      | state => exact ⟨hstate, h.1, nofun⟩

/-- **A leftover temporary file stops the program that creates it.** -/
theorem wp_replaceFile_blocked {content : InstallContent} (htmp : s.tmp content.file = true)
    {I : Site → Prop} (hs : I s) :
    wp (siteMachine B) I (replaceFile content) (fun ok t => ok = false ∧ I t) s := by
  rw [replaceFile, wp_bind]
  intro x
  have hcreate : (SiteCmd.create content.file).effect B x s = (false, s) := by
    simp [SiteCmd.effect, htmp]
  simp only [siteMachine, hcreate]
  exact ⟨hs, rfl, hs⟩

/-- **Every other file can be replaced**, and this one too, in vain. -/
theorem keeps_replaceFile {content : InstallContent} (hcontent : content.file ≠ .state) :
    Script.Keeps (siteMachine B) o.Bars o.Bars (replaceFile content) := by
  by_cases ho : o = .leftover content.file
  · intro s hs
    have htmp : s.tmp content.file = true := by
      subst ho
      exact hs.2.1
    exact wp_mono (wp_replaceFile_blocked htmp hs) (fun _ ht => ht) fun _ _ ht => ht.2
  · have hset : ∀ there : Bool, ∀ t, o.Bars t → o.Bars (t.setTmp content.file there) :=
      fun there t ht => bars_setTmp ho ht there
    have hcreate : Script.Keeps (siteMachine B) o.Bars o.Bars (run (.create content.file)) := by
      intro s hs x
      simp only [siteMachine, SiteCmd.effect]
      split
      · exact ⟨hs, hs⟩
      · exact ⟨act_either _ hs (hset _ _ hs), act_either _ hs (hset _ _ hs)⟩
    have hreplace : Script.Keeps (siteMachine B) o.Bars o.Bars (run (.replace content)) := by
      intro s hs x
      have hput := hset false _ (bars_put hcontent ho hs)
      simp only [siteMachine, SiteCmd.effect]
      split
      · exact ⟨act_either _ hs hput, act_either _ hs hput⟩
      · exact ⟨hs, hs⟩
    have hdiscard : Script.Keeps (siteMachine B) o.Bars o.Bars (run (.discard content.file)) :=
      fun s hs x => ⟨act_either _ hs (hset _ _ hs), act_either _ hs (hset _ _ hs)⟩
    have hwrite : Script.Keeps (siteMachine B) o.Bars o.Bars (run (.write content.file)) :=
      keeps_of_harmless (.run trivial)
    refine .bind hcreate fun created => .ite (.bind (.all ?_) fun ok => .bind hdiscard fun _ =>
      .done _) (.done _)
    simp only [List.forall_mem_cons, List.not_mem_nil, false_implies, implies_true, and_true]
    exact ⟨hwrite, hreplace⟩

end Bars

/-! ### The parts that are not stopped -/

/-- **What lasts** through an installation, as long as `install.json` is not written and the runtime
material not put in its place. -/
structure Lasts (B : Setting rel) (K : Site → Prop) : Prop where
  harmless : ∀ c : SiteCmd, c.Harmless → ∀ s x, K s → K ((siteMachine B).perform c x s).2
  replaceFile : ∀ content : InstallContent, content.file ≠ .state →
    Script.Keeps (siteMachine B) K K (replaceFile content)

theorem lasts_bars (o : Obstacle) : Lasts B o.Bars :=
  ⟨fun _ hc _ x hs => hs.harmless hc x, fun _ hcontent => keeps_replaceFile hcontent⟩

section Lasts

variable {K : Site → Prop} {α : Type}

theorem Lasts.only (hK : Lasts B K) {p : InstallScript α} (hp : p.Only SiteCmd.Harmless) :
    Script.Keeps (siteMachine B) K K p :=
  hp.keeps hK.harmless

theorem Lasts.recordPhase (hK : Lasts B K) (phase : InstallPhase) :
    Script.Keeps (siteMachine B) K K (recordPhase phase) :=
  .bind (hK.only (.run trivial)) fun _ =>
    .bind (hK.only (.run trivial)) fun _ => hK.replaceFile _ nofun

theorem only_runAll {cs : List SiteCmd} {P : SiteCmd → Prop} (h : ∀ c ∈ cs, P c) :
    (runAll cs : InstallScript Unit).Only P := by
  induction cs with
  | nil => exact trivial
  | cons c rest ih => exact .bind (.run (h c (by simp))) fun _ => ih fun c hc => h c (by simp [hc])

/-- **The steps before the layout**, as parts. -/
theorem Lasts.beforeLayout (hK : Lasts B K) (resume : Option InstallPhase) :
    ∃ ps, beforeLayout B resume = firstFailure ps ∧
      (.record, Install.recordPhase .preflight) ∈ ps ∧
      ∀ p ∈ ps, Script.Keeps (siteMachine B) K K p.2 := by
  refine ⟨_, rfl, by simp, ?_⟩
  have hpreflight : Script.Keeps (siteMachine B) K K (runPreflight resume.isSome) :=
    hK.only fun _ => .ite trivial (.run rfl)
  have hlaboratory : Script.Keeps (siteMachine B) K K (validateLaboratoryPair B) :=
    hK.only (.ite (.run trivial) trivial)
  have hdocker : Script.Keeps (siteMachine B) K K (onDocker ensureDockerEngine) :=
    hK.only ((Only.univ _).adapt fun _ _ => trivial)
  have hfirewall : Script.Keeps (siteMachine B) K K (onFirewall (applyFirewallRules B.listing)) :=
    hK.only ((Only.univ _).adapt fun _ _ => trivial)
  simp only [List.forall_mem_cons, List.not_mem_nil, false_implies, implies_true, and_true]
  exact ⟨hpreflight, hlaboratory, hK.recordPhase _, hK.only (.run trivial), hK.recordPhase _,
    hdocker, hK.recordPhase _, hfirewall, hK.recordPhase _⟩

theorem only_harmless_installReleaseFiles : (installReleaseFiles B).Only SiteCmd.Harmless := by
  have hfiles : (Upgrade.installReleaseFiles B.version).Only fun c => c.spares [.tmp] = true := by
    refine .all ?_
    simp only [List.forall_mem_cons, List.not_mem_nil, false_implies, implies_true, and_true]
    exact ⟨.run rfl, .run rfl⟩
  exact fun _ => .bind (hfiles.adapt fun _ hc => hc) fun _ => trivial

theorem only_harmless_renderServerConfiguration :
    (renderServerConfiguration B).Only SiteCmd.Harmless := by
  refine fun _ => .ite (.bind (.all ?_) fun _ => .ite (.bind (only_runAll ?_) fun _ =>
    .run trivial) trivial) trivial
  · simp only [List.forall_mem_cons, List.not_mem_nil, false_implies, implies_true, and_true]
    exact ⟨.run nofun, .run nofun, .run nofun, .run nofun, .run nofun⟩
  · simp [SiteCmd.Harmless]

/-- **The environment of the stack** is one of the files. -/
theorem Lasts.installStackEnvironment (hK : Lasts B K) :
    Script.Keeps (siteMachine B) K K (installStackEnvironment B) :=
  .bind (hK.replaceFile _ nofun) fun _ => .bind (hK.only (.run trivial)) fun _ =>
    hK.only (.run trivial)

theorem only_harmless_installLaboratoryCertificate :
    (installLaboratoryCertificate B).Only SiteCmd.Harmless :=
  .ite (.bind (.run trivial) fun _ => .bind (.run trivial) fun _ => .run trivial) trivial

/-- The steps up to the first administrator. -/
theorem Lasts.beforeAdmin (hK : Lasts B K) :
    Script.Keeps (siteMachine B) K K (beforeAdmin B) := by
  refine .firstFailure ?_
  have hprograms : ∀ ps : List (InstallScript Bool), (∀ p ∈ ps, p.Only SiteCmd.Harmless) →
      Script.Keeps (siteMachine B) K K (all ps) := fun ps hps => hK.only (.all hps)
  simp only [List.forall_mem_cons, List.not_mem_nil, false_implies, implies_true, and_true]
  refine ⟨hK.recordPhase _, hprograms _ ?_, hK.recordPhase _, hprograms _ ?_, hK.recordPhase _,
    hprograms _ ?_, hK.recordPhase _⟩
  all_goals
    simp only [List.forall_mem_cons, List.not_mem_nil, false_implies, implies_true, and_true]
  · exact ⟨.run trivial, .run trivial⟩
  · exact ⟨.run trivial, .run trivial⟩
  · exact ⟨.run trivial, .run trivial, .run rfl⟩

theorem only_harmless_recordOperationAdminLogin (login : List Char) :
    (recordOperationAdminLogin login).Only SiteCmd.Harmless :=
  .ite trivial (.bind (only_runAll (by simp [SiteCmd.Harmless])) fun _ => .run trivial)

theorem only_harmless_createOrRecoverAdmin (resume : Option InstallPhase) (login : Login) :
    (createOrRecoverAdmin resume login).Only SiteCmd.Harmless := by
  rw [createOrRecoverAdmin]
  intro s
  dsimp only
  cases s.admin with
  | some current => exact .bind (only_harmless_recordOperationAdminLogin _) fun _ => trivial
  | none =>
    refine .ite trivial (.bind (.all ?_) fun _ => .ite
      (.bind (only_harmless_recordOperationAdminLogin _) fun _ => trivial) trivial)
    simp only [List.forall_mem_cons, List.not_mem_nil, false_implies, implies_true, and_true]
    exact ⟨.run trivial, .run trivial⟩

theorem only_harmless_installSystemdAndCli : (installSystemdAndCli B).Only SiteCmd.Harmless := by
  refine .bind (only_runAll ?_) fun _ => .run rfl
  simp only [List.forall_mem_cons, List.not_mem_nil, false_implies, implies_true, and_true]
  exact ⟨trivial, rfl, rfl, rfl, trivial⟩

theorem only_harmless_rollbackProductionInstall (previous : Option Version) :
    (rollbackProductionInstall previous).Only SiteCmd.Harmless := by
  refine .bind (.run trivial) fun _ _ => .bind (.ite (.run trivial) trivial) fun _ =>
    .bind ((Only.univ _).adapt fun _ _ => trivial) fun _ => ?_
  cases previous with
  | none => exact trivial
  | some version => exact .bind (.run rfl) fun _ => trivial

end Lasts

/-! ### The runtime material -/

/-- The commands that last as long as the material is not moved. -/
theorem keeps_composed {α : Type} {p : InstallScript α} (hp : p.Only (· ≠ .moveMaterial)) :
    Script.Keeps (siteMachine B) Composed Composed p :=
  hp.keeps fun _ hc _ x hs => hs.of_stays (stays_effect hc x)

theorem only_replaceFile {content : InstallContent} {P : SiteCmd → Prop}
    (hcreate : P (.create content.file)) (hwrite : P (.write content.file))
    (hreplace : P (.replace content)) (hdiscard : P (.discard content.file)) :
    (replaceFile content).Only P := by
  refine .bind (.run hcreate) fun _ => .ite (.bind (.all ?_) fun _ => .bind (.run hdiscard)
    fun _ => trivial) trivial
  simp only [List.forall_mem_cons, List.not_mem_nil, false_implies, implies_true, and_true]
  exact ⟨.run hwrite, .run hreplace⟩

theorem lasts_composed : Lasts B Composed :=
  ⟨fun _ hc _ x hs => hs.of_stays (stays_effect hc.ne_moveMaterial x),
    fun _ _ => keeps_composed (only_replaceFile nofun nofun nofun nofun)⟩

/-- **The material is put in its place by the program that has read the secrets.** -/
theorem composed_configureRuntimeMaterial :
    Script.Keeps (siteMachine B) Composed Composed configureRuntimeMaterial := by
  intro s hs
  rw [configureRuntimeMaterial, wp_look, wp_ite]
  refine ⟨fun _ => hs, fun _ => ?_⟩
  rw [wp_all_cons]
  have hkey : Script.Keeps (siteMachine B) Composed Composed (run (.program .xrayKey)) :=
    keeps_composed (.run (by simp))
  refine wp_mono (hkey s hs) (fun _ ht => ht) fun ok t ht => ⟨fun _ => ?_, fun _ => ht⟩
  rw [wp_all_cons]
  refine fun x => ⟨ht, fun hok => ?_, fun _ => ht⟩
  -- the program that puts the material together reads all of the secrets
  have hread : ∀ p ∈ secretPaths, Readable (t.layout.entry p) := by
    simp only [siteMachine, SiteCmd.effect, Bool.and_eq_true] at hok
    exact of_decide_eq_true hok.2
  have hcomposed : Composed t := fun _ p hp => (hread p hp).sized
  have hmoved : Composed { t with material := true } := fun _ p hp => (hread p hp).sized
  have hmove : ∀ x : Choice, Composed ((SiteCmd.moveMaterial.effect B x t).2) :=
    fun x => act_either _ hcomposed hmoved
  change wp _ _ (all [run .moveMaterial, validateRuntimeMaterial]) _ t
  rw [wp_all_cons]
  refine fun x => ⟨hmove x, fun _ => ?_, fun _ => hmove x⟩
  have hvalidate : Script.Keeps (siteMachine B) Composed Composed
      (all [validateRuntimeMaterial]) := by
    refine .all ?_
    simp only [List.forall_mem_cons, List.not_mem_nil, false_implies, implies_true, and_true]
    exact fun _ hs => hs
  exact hvalidate _ (hmove x)

/-- **The layout of an installation**, as parts. -/
theorem keeps_prepareInstalledLayout {K : Site → Prop} (hK : Lasts B K)
    (hmaterial : Script.Keeps (siteMachine B) K K configureRuntimeMaterial) :
    Script.Keeps (siteMachine B) K K (prepareInstalledLayout B) := by
  have hlayout : Script.Keeps (siteMachine B) K K (onLayout configureLayout) :=
    hK.only ((Only.univ _).adapt fun _ _ => trivial)
  refine .bind hlayout fun _ => .ite (.bind (hK.only only_harmless_installReleaseFiles) fun _ =>
    .ite (.bind (.all ?_) fun _ => .done _) (.done _)) (.done _)
  simp only [List.forall_mem_cons, List.not_mem_nil, false_implies, implies_true, and_true]
  exact ⟨hmaterial, hK.only only_harmless_renderServerConfiguration, hK.installStackEnvironment,
    hK.only only_harmless_installLaboratoryCertificate, hK.only (.run rfl)⟩

/-- The steps from the first administrator on. -/
theorem keeps_afterAdmin {K : Site → Prop} (hK : Lasts B K) (adminLogin : List Char)
    (hstate : Script.Keeps (siteMachine B) K K (installWriteCompleteState B adminLogin)) :
    ∃ ps, afterAdmin B adminLogin = (firstFailure ps).bind (fun failure =>
        match failure with
        | some error => done (some error)
        | none =>
          (onHost clearOperationCheckpoint).bind fun _ => (run .removeLogin).bind fun ok =>
            done (if ok then none else some .login)) ∧
      (.state, installWriteCompleteState B adminLogin) ∈ ps ∧
      ∀ p ∈ ps, Script.Keeps (siteMachine B) K K p.2 := by
  refine ⟨_, rfl, by simp, ?_⟩
  have hruntimes : Script.Keeps (siteMachine B) K K startRuntimes := by
    refine hK.only (.all ?_)
    simp only [List.forall_mem_cons, List.not_mem_nil, false_implies, implies_true, and_true]
    exact ⟨.run trivial, .run trivial, .run trivial, .run trivial, .run trivial, .run trivial⟩
  simp only [List.forall_mem_cons, List.not_mem_nil, false_implies, implies_true, and_true]
  exact ⟨hK.recordPhase _, hruntimes, hK.recordPhase _, hK.only only_harmless_installSystemdAndCli,
    hK.only (.run trivial), hK.recordPhase _, hK.recordPhase _, hstate⟩

/-- **The material stays one of filled secrets** through every run, whatever is done. -/
theorem composed_installerMain (login : Login) (latest : Version) :
    Script.Keeps (siteMachine B) Composed Composed (installerMain B login latest) := by
  have hK : Lasts B Composed := lasts_composed
  have hmaterial : Script.Keeps (siteMachine B) Composed Composed configureRuntimeMaterial :=
    composed_configureRuntimeMaterial
  have hhost : ∀ {α : Type} (p : Shell α),
      Script.Keeps (siteMachine B) Composed Composed (onHost p) :=
    fun p => keeps_composed ((Only.univ p).adapt fun _ _ => nofun)
  have hafter : ∀ adminLogin,
      Script.Keeps (siteMachine B) Composed Composed (afterAdmin B adminLogin) := by
    intro adminLogin
    have hstate : Script.Keeps (siteMachine B) Composed Composed
        (installWriteCompleteState B adminLogin) :=
      keeps_composed (.bind (.run nofun) fun _ =>
        .all (by simpa using ⟨only_replaceFile nofun nofun nofun nofun, .run nofun⟩))
    obtain ⟨ps, heq, -, hps⟩ := keeps_afterAdmin hK adminLogin hstate
    rw [heq]
    refine .bind (.firstFailure hps) fun failure => ?_
    cases failure with
    | some error => exact .done _
    | none => exact .bind (hhost _) fun _ => .bind (keeps_composed (.run nofun)) fun _ => .done _
  have hinstall : ∀ resume,
      Script.Keeps (siteMachine B) Composed Composed (runProductionInstall B resume login) := by
    intro resume
    obtain ⟨ps, heq, -, hps⟩ := hK.beforeLayout resume
    rw [runProductionInstall, heq]
    refine .bind (.firstFailure hps) fun failure => ?_
    cases failure with
    | some error => exact .done _
    | none =>
      refine .bind (keeps_prepareInstalledLayout hK hmaterial) fun prepared => .ite ?_ (.done _)
      refine .bind hK.beforeAdmin fun failure => ?_
      cases failure with
      | some error => exact .done _
      | none =>
        refine .bind (hK.only (only_harmless_createOrRecoverAdmin _ _)) fun created => ?_
        cases created with
        | none => exact .done _
        | some adminLogin => exact .bind (hafter adminLogin) fun _ => .done _
  have hfresh : Script.Keeps (siteMachine B) Composed Composed (freshInstall B login) := by
    refine .bind (keeps_composed (.run nofun)) fun _ => .ite (.look fun s => .ite (.done _)
      (.bind (hinstall _) fun result => ?_)) (.done _)
    cases result.1 with
    | none => exact .done _
    | some error =>
      exact .bind (hK.only (only_harmless_rollbackProductionInstall _)) fun _ => .done _
  refine .bind (.firstFailure ?_) fun failure => ?_
  · simp only [List.forall_mem_cons, List.not_mem_nil, false_implies, implies_true, and_true]
    exact ⟨keeps_composed (.run nofun), keeps_composed (.run nofun)⟩
  · cases failure with
    | some error => exact .done _
    | none => exact .look fun s => .ite (.bind (hhost _) fun _ => .done _) hfresh

/-! ### The parts that are stopped -/

section Barred

variable {o : Obstacle}

/-- **A secret that was not filled** stops the program that puts the material together. -/
theorem wp_configureRuntimeMaterial_unfilled {path : LayoutPath}
    (hs : (Obstacle.unfilled path).Bars s) :
    wp (siteMachine B) (Obstacle.unfilled path).Bars configureRuntimeMaterial
      (fun ok t => ok = false ∧ (Obstacle.unfilled path).Bars t) s := by
  rw [configureRuntimeMaterial, wp_look, wp_ite]
  refine ⟨fun hthere => absurd (hthere.symm.trans hs.2.2.1) (by simp), fun _ => ?_⟩
  rw [wp_all_cons]
  have hkey : Script.Keeps (siteMachine B) (Obstacle.unfilled path).Bars
      (Obstacle.unfilled path).Bars (run (.program .xrayKey)) :=
    (lasts_bars _).only (.run trivial)
  refine wp_mono (hkey s hs) (fun _ ht => ht) fun ok t ht => ⟨fun _ => ?_, fun _ => ⟨rfl, ht⟩⟩
  rw [wp_all_cons]
  refine fun x => ⟨ht, fun hok => ?_, fun _ => ⟨rfl, ht⟩⟩
  simp only [siteMachine, SiteCmd.effect, Bool.and_eq_true] at hok
  obtain ⟨hpath, -, hunfilled⟩ := ht.2
  obtain ⟨mode, owner, hfilled⟩ := (of_decide_eq_true hok.2 path hpath).sized
  rw [hfilled] at hunfilled
  exact absurd rfl hunfilled

/-- An obstacle of another kind does not depend on the material. -/
theorem keeps_configureRuntimeMaterial :
    Script.Keeps (siteMachine B) o.Bars o.Bars configureRuntimeMaterial := by
  cases o with
  | unfilled path =>
    exact fun s hs => wp_mono (wp_configureRuntimeMaterial_unfilled hs) (fun _ ht => ht)
      fun _ _ ht => ht.2
  | leftover file =>
    have hmove : Script.Keeps (siteMachine B) (Obstacle.leftover file).Bars
        (Obstacle.leftover file).Bars (run .moveMaterial) := by
      intro s hs x
      have hmoved : (Obstacle.leftover file).Bars { s with material := true } := by
        cases file <;> exact hs
      exact ⟨act_either _ hs hmoved, act_either _ hs hmoved⟩
    have hother : ∀ {c : SiteCmd}, c.Harmless → Script.Keeps (siteMachine B)
        (Obstacle.leftover file).Bars (Obstacle.leftover file).Bars (run c) :=
      fun hc => (lasts_bars _).only (.run hc)
    refine .look fun s => .ite (fun _ hs => hs) (.all ?_)
    simp only [List.forall_mem_cons, List.not_mem_nil, false_implies, implies_true, and_true]
    exact ⟨hother trivial, hother trivial, hmove, fun _ hs => hs⟩

/-- **A leftover `stack.env.tmp`** stops the program that writes `stack.env`, and then there is no file
that could be given to anybody. -/
theorem wp_installStackEnvironment_leftover (hs : (Obstacle.leftover .stackEnv).Bars s) :
    wp (siteMachine B) (Obstacle.leftover .stackEnv).Bars (installStackEnvironment B)
      (fun ok t => ok = false ∧ (Obstacle.leftover .stackEnv).Bars t) s := by
  rw [installStackEnvironment, wp_bind]
  refine wp_mono (wp_replaceFile_blocked hs.2.1 hs) (fun _ ht => ht) ?_
  rintro - t ⟨-, ht⟩
  refine fun x => ⟨ht, fun y => ⟨ht, ?_, ht⟩⟩
  have hmissing : t.configured .stackEnv = false := ht.2.2 rfl
  simp [siteMachine, SiteCmd.effect, hmissing]

/-- The layout is never finished past a leftover `stack.env.tmp` and past a secret. -/
theorem wp_prepareInstalledLayout_barred (hs : o.Bars s) :
    wp (siteMachine B) o.Bars (prepareInstalledLayout B)
      (fun result t => (result.1 = true → o = .leftover .checkpoint ∨ o = .leftover .state) ∧
        o.Bars t) s := by
  have hK : Lasts B o.Bars := lasts_bars o
  have hlayout : Script.Keeps (siteMachine B) o.Bars o.Bars (onLayout configureLayout) :=
    hK.only ((Only.univ _).adapt fun _ _ => trivial)
  obtain ⟨ps, hprepared, hmaterial, henvironment, hps⟩ : ∃ ps,
      all [configureRuntimeMaterial, renderServerConfiguration B, installStackEnvironment B,
        installLaboratoryCertificate B, run (.host .pull)] = all ps ∧
      configureRuntimeMaterial ∈ ps ∧ installStackEnvironment B ∈ ps ∧
      ∀ p ∈ ps, Script.Keeps (siteMachine B) o.Bars o.Bars p := by
    refine ⟨_, rfl, by simp, by simp, ?_⟩
    simp only [List.forall_mem_cons, List.not_mem_nil, false_implies, implies_true, and_true]
    exact ⟨keeps_configureRuntimeMaterial, hK.only only_harmless_renderServerConfiguration,
      hK.installStackEnvironment, hK.only only_harmless_installLaboratoryCertificate,
      hK.only (.run rfl)⟩
  have hparts : ∀ t, o.Bars t → wp (siteMachine B) o.Bars (all ps) (fun ok u =>
      (ok = true → o = .leftover .checkpoint ∨ o = .leftover .state) ∧ o.Bars u) t := by
    intro t ht
    cases o with
    | unfilled path =>
      refine wp_mono (Script.Keeps.all_fails hps hmaterial
        (fun _ hs => wp_configureRuntimeMaterial_unfilled hs) ht) (fun _ ht => ht) ?_
      rintro _ u ⟨rfl, hu⟩
      exact ⟨nofun, hu⟩
    | leftover file =>
      cases file with
      | stackEnv =>
        refine wp_mono (Script.Keeps.all_fails hps henvironment
          (fun _ hs => wp_installStackEnvironment_leftover hs) ht) (fun _ ht => ht) ?_
        rintro _ u ⟨rfl, hu⟩
        exact ⟨nofun, hu⟩
      | checkpoint =>
        exact wp_mono (Script.Keeps.all hps t ht) (fun _ ht => ht) fun _ _ hu =>
          ⟨fun _ => .inl rfl, hu⟩
      | state =>
        exact wp_mono (Script.Keeps.all hps t ht) (fun _ ht => ht) fun _ _ hu =>
          ⟨fun _ => .inr rfl, hu⟩
  rw [prepareInstalledLayout, wp_bind]
  refine wp_mono (hlayout s hs) (fun _ ht => ht) fun status t ht => ?_
  rw [wp_ite]
  refine ⟨fun _ => ?_, fun _ => ⟨nofun, ht⟩⟩
  have hreleased : Script.Keeps (siteMachine B) o.Bars o.Bars (installReleaseFiles B) :=
    hK.only only_harmless_installReleaseFiles
  rw [wp_bind]
  refine wp_mono (hreleased t ht) (fun _ hu => hu) fun installed u hu => ?_
  rw [wp_ite]
  refine ⟨fun _ => ?_, fun hfailed => ⟨fun hok => absurd hok hfailed, hu⟩⟩
  rw [wp_bind, hprepared]
  exact hparts u hu

/-- A leftover `current.json.tmp` stops the first step that writes anything. -/
theorem wp_beforeLayout_barred (resume : Option InstallPhase) (hs : o.Bars s) :
    wp (siteMachine B) o.Bars (beforeLayout B resume)
      (fun failure t => (failure = none → o ≠ .leftover .checkpoint) ∧ o.Bars t) s := by
  have hK : Lasts B o.Bars := lasts_bars o
  obtain ⟨ps, heq, hrecord, hps⟩ := hK.beforeLayout resume
  rw [heq]
  by_cases ho : o = .leftover .checkpoint
  · have hfails : ∀ t, o.Bars t → wp (siteMachine B) o.Bars (recordPhase .preflight)
        (fun ok u => ok = false ∧ o.Bars u) t := by
      intro t ht
      have hmade : Script.Keeps (siteMachine B) o.Bars o.Bars
          (run (.makeDirectory operationsPath)) := hK.only (.run trivial)
      have hmode : Script.Keeps (siteMachine B) o.Bars o.Bars
          (run (.layout (.chmod operationsPath 0o700))) := hK.only (.run trivial)
      rw [recordPhase, wp_bind]
      refine wp_mono (hmade t ht) (fun _ hu => hu) fun _ u hu => ?_
      rw [wp_bind]
      refine wp_mono (hmode u hu) (fun _ hw => hw) fun _ w hw => ?_
      have htmp : w.tmp .checkpoint = true := by
        subst ho
        exact hw.2.1
      exact wp_replaceFile_blocked htmp hw
    refine wp_mono (Script.Keeps.firstFailure_fails hps hrecord hfails hs) (fun _ ht => ht) ?_
    rintro failure t ⟨hne, ht⟩
    exact ⟨fun hnone => absurd hnone hne, ht⟩
  · exact wp_mono (Script.Keeps.firstFailure hps s hs) (fun _ ht => ht)
      fun _ _ ht => ⟨fun _ => ho, ht⟩

/-- **A leftover `install.json.tmp`** stops the last step that writes anything. -/
theorem wp_afterAdmin_leftover (adminLogin : List Char) (hs : (Obstacle.leftover .state).Bars s) :
    wp (siteMachine B) (Obstacle.leftover .state).Bars (afterAdmin B adminLogin)
      (fun failure t => failure ≠ none ∧ (Obstacle.leftover .state).Bars t) s := by
  have hK : Lasts B (Obstacle.leftover .state).Bars := lasts_bars _
  have hfails : ∀ t, (Obstacle.leftover .state).Bars t → wp (siteMachine B)
      (Obstacle.leftover .state).Bars (installWriteCompleteState B adminLogin)
      (fun ok u => ok = false ∧ (Obstacle.leftover .state).Bars u) t := by
    intro t ht
    have hmade : Script.Keeps (siteMachine B) (Obstacle.leftover .state).Bars
        (Obstacle.leftover .state).Bars (run (.makeDirectory statePath)) := hK.only (.run trivial)
    rw [installWriteCompleteState, wp_bind]
    refine wp_mono (hmade t ht) (fun _ hu => hu) fun _ u hu => ?_
    rw [wp_all_cons]
    refine wp_mono (wp_replaceFile_blocked hu.2.1 hu) (fun _ hw => hw) ?_
    rintro _ w ⟨rfl, hw⟩
    exact ⟨nofun, fun _ => ⟨rfl, hw⟩⟩
  obtain ⟨ps, heq, hmem, hps⟩ := keeps_afterAdmin hK adminLogin fun t ht =>
    wp_mono (hfails t ht) (fun _ hu => hu) fun _ _ hu => hu.2
  rw [heq, wp_bind]
  refine wp_mono (Script.Keeps.firstFailure_fails hps hmem hfails hs) (fun _ hu => hu) ?_
  rintro failure u ⟨hne, hu⟩
  cases failure with
  | none => exact absurd rfl hne
  | some error => exact ⟨nofun, hu⟩

/-- **No installation gets past an obstacle**, whatever its programs do. -/
theorem wp_runProductionInstall_barred (resume : Option InstallPhase) (login : Login)
    (hs : o.Bars s) :
    wp (siteMachine B) o.Bars (runProductionInstall B resume login)
      (fun result t => result.1 ≠ none ∧ o.Bars t) s := by
  have hK : Lasts B o.Bars := lasts_bars o
  rw [runProductionInstall, wp_bind]
  refine wp_mono (wp_beforeLayout_barred resume hs) (fun _ ht => ht) ?_
  rintro failure t ⟨hcheckpoint, ht⟩
  cases failure with
  | some error => exact ⟨nofun, ht⟩
  | none =>
    change wp _ _ ((prepareInstalledLayout B).bind _) _ t
    rw [wp_bind]
    refine wp_mono (wp_prepareInstalledLayout_barred ht) (fun _ ht => ht) ?_
    rintro prepared t ⟨hprepared, ht⟩
    rw [wp_ite]
    refine ⟨fun hok => ?_, fun _ => ⟨nofun, ht⟩⟩
    -- what is left is `install.json.tmp`
    obtain rfl : o = .leftover .state := (hprepared hok).resolve_left (hcheckpoint rfl)
    rw [wp_bind]
    refine wp_mono (hK.beforeAdmin t ht) (fun _ ht => ht) fun failure t ht => ?_
    cases failure with
    | some error => exact ⟨nofun, ht⟩
    | none =>
      have hadmin : Script.Keeps (siteMachine B) (Obstacle.leftover .state).Bars
          (Obstacle.leftover .state).Bars (createOrRecoverAdmin resume login) :=
        hK.only (only_harmless_createOrRecoverAdmin resume login)
      change wp _ _ ((createOrRecoverAdmin resume login).bind _) _ t
      rw [wp_bind]
      refine wp_mono (hadmin t ht) (fun _ ht => ht) fun created t ht => ?_
      cases created with
      | none => exact ⟨nofun, ht⟩
      | some adminLogin =>
        change wp _ _ ((afterAdmin B adminLogin).bind _) _ t
        rw [wp_bind]
        exact wp_mono (wp_afterAdmin_leftover adminLogin ht) (fun _ hu => hu) fun _ _ hu => hu

/-- A run that fails is rolled back, and that removes no obstacle either. -/
theorem wp_freshInstall_barred (login : Login) (hs : o.Bars s) :
    wp (siteMachine B) o.Bars (freshInstall B login) (fun _ => o.Bars) s := by
  have hK : Lasts B o.Bars := lasts_bars o
  have hlock : Script.Keeps (siteMachine B) o.Bars o.Bars (run (.program .acquireLock)) :=
    hK.only (.run trivial)
  rw [freshInstall, wp_bind]
  refine wp_mono (hlock s hs) (fun _ ht => ht) fun locked t ht => ?_
  rw [wp_ite]
  refine ⟨fun _ => ?_, fun _ => ht⟩
  rw [wp_look, wp_ite]
  refine ⟨fun _ => ht, fun _ => ?_⟩
  rw [wp_bind]
  refine wp_mono (wp_runProductionInstall_barred _ login ht) (fun _ hu => hu) ?_
  rintro ⟨failure, previous⟩ u ⟨hne, hu⟩
  cases failure with
  | none => exact absurd rfl hne
  | some error =>
    have hrollback : Script.Keeps (siteMachine B) o.Bars o.Bars
        (rollbackProductionInstall previous) :=
      hK.only (only_harmless_rollbackProductionInstall previous)
    change wp _ _ ((rollbackProductionInstall previous).bind _) _ u
    rw [wp_bind]
    exact wp_mono (hrollback u hu) (fun _ hw => hw) fun _ _ hw => hw

end Barred

/-! ### Stuck for good -/

/-- **Nothing gets on from here**: an obstacle bars the installation, or its host is stuck. -/
def Trapped (s : Site) : Prop :=
  (∃ o : Obstacle, o.Bars s) ∨ s.state.isSome = true ∧ Upgrade.Stuck s.host

/-- A stuck site is trapped. -/
theorem trapped_of_stuck (hcomposed : Composed s) (hs : s.Stuck) : Trapped s := by
  rcases hs with ⟨hnone, hjammed⟩ | hstuck
  · exact .inl (exists_bars hcomposed (Option.isNone_iff_eq_none.mp hnone) hjammed)
  · exact .inr hstuck

theorem Trapped.not_finished (hs : Trapped s) : ¬Finished s := by
  rintro ⟨hstate, hcheckpoint, hjournal⟩
  rcases hs with ⟨o, hnone, -⟩ | ⟨-, ⟨-, hthere⟩ | ⟨-, hthere⟩⟩
  · rw [hnone] at hstate
    cases hstate
  · rw [hcheckpoint] at hthere
    cases hthere
  · rw [hjournal] at hthere
    cases hthere

/-- Questions and starts do not help. -/
theorem Trapped.program (hs : Trapped s) (p : Program) (x : Choice) :
    Trapped ((siteMachine B).perform (.program p) x s).2 := by
  rcases hs with ⟨o, ho⟩ | ⟨hstate, hstuck⟩
  · exact .inl ⟨o, ho.harmless (c := .program p) trivial x⟩
  · obtain ⟨running, heffect⟩ := p.effect_eq x.outcome s.host
    refine .inr ⟨hstate, ?_⟩
    simp only [siteMachine, SiteCmd.effect, heffect]
    exact hstuck

/-- **A stuck site stays stuck**, whatever is asked for and however it goes. -/
theorem until_installerMain_trapped (login : Login) (latest : Version) (hs : Trapped s) :
    wpUntil (siteMachine B) (SiteCmd.Fatal smooth) Trapped (installerMain B login latest)
      (fun _ => Trapped) s := by
  have hquestion : ∀ p : Program, Script.Keeps (siteMachine B) Trapped Trapped
      (run (.program p)) := fun p t ht x => ⟨ht.program p x, ht.program p x⟩
  have hquestions : Script.Keeps (siteMachine B) Trapped Trapped
      (firstFailure [(InstallError.root, run (.program .requireRoot)),
        (.tty, run (.program .requireTty))]) := by
    refine .firstFailure ?_
    simp only [List.forall_mem_cons, List.not_mem_nil, false_implies, implies_true, and_true]
    exact ⟨hquestion _, hquestion _⟩
  refine wpUntil_bind_of (wpUntil_of_wp (hquestions s hs)) fun failure t ht => ?_
  cases failure with
  | some error => exact ht
  | none =>
    rw [wpUntil_look, wpUntil_ite]
    refine ⟨fun hthere => ?_, fun hmissing => ?_⟩
    · have hthere : t.state.isSome = true := hthere
      rcases ht with ⟨o, hnone, -⟩ | ⟨-, hstuck⟩
      · rw [hnone] at hthere
        cases hthere
      · refine wpUntil_bind_of (wpUntil_mono (wpUntil_adapt (F := Cmd.Fatal smooth) embeds_host
          (fun _ _ hx => hx) (wpUntil_of_wp (wp_upgradeRun_stuck .install latest hstuck))) ?_
          fun _ _ hu => hu) ?_
        · rintro _ ⟨host, hhost, rfl⟩
          exact .inr ⟨hthere, hhost⟩
        · rintro error _ ⟨host, hhost, rfl⟩
          exact .inr ⟨hthere, hhost⟩
    · rcases ht with ⟨o, ho⟩ | ⟨hthere, -⟩
      · exact wpUntil_mono (wpUntil_of_wp (wp_freshInstall_barred login ho))
          (fun u hu => .inl ⟨o, hu⟩) fun _ u hu => .inl ⟨o, hu⟩
      · exact absurd hthere hmissing

/-! ### Any number of runs -/

theorem trapped_site (a : InstallAttempt) (hs : Trapped s) : Trapped (a.site B s) :=
  exec_mortal_of_wpUntil (until_installerMain_trapped a.login a.latest hs) hs
    (fun _ _ ht => ht) a.choices

theorem trapped_afterInstalls (attempts : List InstallAttempt) (hs : Trapped s) :
    Trapped (afterInstalls B attempts s) := by
  induction attempts generalizing s with
  | nil => exact hs
  | cons a attempts ih => exact ih (trapped_site a hs)

theorem composed_site (a : InstallAttempt) (hs : Composed s) : Composed (a.site B s) :=
  exec_mortal_of_wpUntil (F := SiteCmd.Fatal false)
    (wpUntil_of_wp (composed_installerMain a.login a.latest s hs)) hs (fun _ _ ht => ht) a.choices

/-- A site that was not spared is trapped. -/
theorem trapped_of_not_spared {attempts : List InstallAttempt} (hs : Composed s)
    (hspared : ¬SparedInstall B attempts s) : Trapped (afterInstalls B attempts s) := by
  induction attempts generalizing s with
  | nil => exact absurd trivial hspared
  | cons a attempts ih =>
    by_cases hstuck : (a.site B s).Stuck
    · exact trapped_afterInstalls attempts (trapped_of_stuck (composed_site a hs) hstuck)
    · exact ih (composed_site a hs) fun hrest => hspared ⟨hstuck, hrest⟩

theorem FreshHost.composed (h : FreshHost s) : Composed s :=
  fun hmaterial => absurd (hmaterial.symm.trans h.material) nofun

/-- **An interrupted installation can be finished if and only if no crash left a stuck site.** From a
fresh host, after any number of runs that were cut short anywhere, or that failed, the run in which
every command succeeds ends; and it ends with `install.json` and with neither a checkpoint nor a
journal, whatever the panel commits, exactly if no site that was left had a temporary file that is
created exclusively, a secret that was not filled, or, beside `install.json`, a checkpoint that an
update does not know. -/
theorem finished_iff (B : Setting rel) (start : Site) (hstart : FreshHost start)
    (attempts : List InstallAttempt) (login : Login) (latest : Version) (panel : ℕ → List Change) :
    ∃ n result t, (installerMain B login latest).exec (siteMachine B)
        ((List.range n).map fun i => ⟨.ok, panel i⟩) (afterInstalls B attempts start) =
          (some result, t) ∧
      (Finished t ↔ SparedInstall B attempts start) := by
  obtain ⟨n, result, t, hrun⟩ := exists_exec_eq_some (siteMachine B) (installerMain B login latest)
    (fun i => ⟨.ok, panel i⟩) (afterInstalls B attempts start)
  have hchoices : ∀ x ∈ (List.range n).map fun i => (⟨.ok, panel i⟩ : Choice), x.outcome = .ok := by
    intro x hx
    obtain ⟨i, -, rfl⟩ := List.mem_map.mp hx
    rfl
  refine ⟨n, result, t, hrun, fun hfinished => ?_, fun hspared => ?_⟩
  · -- a trapped site would have stayed trapped
    by_contra hspared
    have htrapped := trapped_of_not_spared hstart.composed hspared
    have hsmooth : ∀ x ∈ (List.range n).map fun i => (⟨.ok, panel i⟩ : Choice), ∀ c : SiteCmd,
        ¬c.Fatal true x := fun x hx c hfatal => hfatal.1 (hchoices x hx)
    exact (exec_of_wpUntil (until_installerMain_trapped login latest htrapped) hsmooth
      hrun).not_finished hfinished
  · exact finished_of_spared hstart hspared hchoices hrun

/-! ### Crashes of one installation -/

namespace SampleInstall

/-- An installation of `v0.1.0` on the internet. -/
def setting : Setting sampleRelease where
  version := ⟨0, 1, 0⟩
  laboratory := false
  publicIpv4 := "203.0.113.10".toList
  gateway := (sampleRelease ⟨0, 1, 0⟩).config .caddyfile
  gateway_eq _ := rfl
  listing := SampleFirewall.listing
  normalizeLogin := id

/-- The directories that every host has. -/
def bare : Layout where
  entry p :=
    if p ∈ [[], ["etc"], ["var"], ["var", "lib"], ["var", "backups"]] then
      some (.directory 0o755 rootOwner)
    else none

/-- A host with a firewall and without Docker. -/
def fresh : Site where
  host := { sampleHost with current := none, releases := fun _ => none, running := false }
  state := none
  stateTmp := false
  phase := .preflight
  configured _ := false
  stackTmp := false
  layout := bare
  material := false
  firewall := SampleFirewall.fresh
  docker := ⟨false, false, false, false, false, false⟩
  admin := none
  adminLogin := none
  adminLoginTmp := none

def owner : Login := ⟨"owner".toList, by decide, by decide⟩

/-- A run that crashes after a number of commands, all of which go well. -/
def crashed (commands : ℕ) : InstallAttempt :=
  ⟨owner, ⟨0, 1, 0⟩, List.replicate commands Upgrade.smooth⟩

end SampleInstall

open SampleInstall

theorem freshHost_fresh : FreshHost fresh where
  state := rfl
  stateTmp := rfl
  stackTmp := rfl
  configured _ := rfl
  journal := rfl
  checkpoint := rfl
  tmp _ := rfl
  releases _ := rfl
  material := rfl
  directories := by
    have hentry : ∀ d ∈ layoutDirectories, ∀ q ∈ d.path.inits, fresh.layout.entry q = none ∨
        fresh.layout.entry q = some (.directory 0o755 rootOwner) := by decide +kernel
    exact fun d hd q hq => (hentry d hd q hq).imp_right fun h => ⟨_, _, h⟩
  secrets := by decide +kernel

/-- A crash after the runtime material was put in its place, and one in the run after it, are
recovered from. -/
theorem finished_iff_material : ∃ n result t,
    (installerMain setting owner ⟨0, 1, 0⟩).exec (siteMachine setting)
        ((List.range n).map fun _ => ⟨.ok, []⟩)
        (afterInstalls setting [crashed 120, crashed 60] fresh) = (some result, t) ∧
      Finished t := by
  obtain ⟨n, result, t, hrun, hiff⟩ := finished_iff setting fresh freshHost_fresh
    [crashed 120, crashed 60] owner ⟨0, 1, 0⟩ fun _ => []
  exact ⟨n, result, t, hrun, hiff.mpr ⟨by decide +kernel, by decide +kernel, trivial⟩⟩

/-- **An installation that is never finished.** On a fresh host, a run that crashes right after it has
created `current.json.tmp` for its first checkpoint, with seven commands done, or right after it has
replaced `install.json`, with the last checkpoint still there: whatever further runs there are, the run
in which every command succeeds ends without a finished installation. -/
theorem never_finished : FreshHost fresh ∧
    ∀ commands ∈ [7, 213], ∀ attempts login latest, ∀ panel : ℕ → List Change, ∃ n result t,
      (installerMain setting login latest).exec (siteMachine setting)
          ((List.range n).map fun i => ⟨.ok, panel i⟩)
          (afterInstalls setting (crashed commands :: attempts) fresh) = (some result, t) ∧
        ¬Finished t := by
  refine ⟨freshHost_fresh, fun commands hcommands attempts login latest panel => ?_⟩
  have hstuck : ∀ commands ∈ [7, 213], ((crashed commands).site setting fresh).Stuck := by
    decide +kernel
  have hcomposed : Composed ((crashed commands).site setting fresh) :=
    composed_site _ freshHost_fresh.composed
  have htrapped : Trapped (afterInstalls setting (crashed commands :: attempts) fresh) :=
    trapped_afterInstalls attempts (trapped_of_stuck hcomposed (hstuck commands hcommands))
  obtain ⟨n, result, t, hrun⟩ := exists_exec_eq_some (siteMachine setting)
    (installerMain setting login latest) (fun i => ⟨.ok, panel i⟩)
    (afterInstalls setting (crashed commands :: attempts) fresh)
  have hsmooth : ∀ x ∈ (List.range n).map fun i => (⟨.ok, panel i⟩ : Choice), ∀ c : SiteCmd,
      ¬c.Fatal true x := by
    rintro x hx c ⟨hne, -⟩
    obtain ⟨i, -, rfl⟩ := List.mem_map.mp hx
    exact hne rfl
  exact ⟨n, result, t, hrun, (exec_of_wpUntil (until_installerMain_trapped login latest htrapped)
    hsmooth hrun).not_finished⟩

/-- So it is with a secret that was cut short while it was written. -/
example : (InstallAttempt.site setting fresh ⟨owner, ⟨0, 1, 0⟩,
    List.replicate 108 Upgrade.smooth ++ [⟨.torn none, []⟩]⟩).Stuck := by
  decide +kernel

end EzOpenPN.Install
