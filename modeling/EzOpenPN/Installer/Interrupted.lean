import EzOpenPN.Installer.Crashes
import EzOpenPN.Installer.Install

/-!
# What a crash of an installation leaves

A later run of the installer finds whatever an interrupted one has left. This file says what that may
be (`EzOpenPN.Install.Underway`), and which of it no later run gets on from
(`EzOpenPN.Install.Site.Stuck`):

* a temporary file `current.json.tmp` or `install.json.tmp`, or a `stack.env.tmp` without a `stack.env`:
  all three are created exclusively, and nothing removes them;
* a secret that was created and not filled: a file that exists is checked and never written again;
* a checkpoint beside `install.json`: the run is an update then, and to an update the checkpoint of an
  installation is the one of another operation.

Where nothing of this is left every part of an installation goes on as if it were the first time
(`EzOpenPN.Install.Proceeds`).
-/

namespace EzOpenPN.Install

open FileSystem Script Upgrade

/-! ### Crashes -/

/-- The commands that are other programs: they can fail while the script goes on. -/
def SiteCmd.external : SiteCmd → Bool
  | .host c => c.external
  | .docker c => c.external
  | .firewall (.ufwAllow _) | .firewall (.ufwDelete _) | .firewall .reload
  | .firewall (.addService _) | .firewall (.dropService _) => true
  | .program _ | .initAdmin _ => true
  | _ => false

/-- **A crash inside of a command**: a command on files that does not go well. In a `smooth` run the
other programs succeed too. -/
def SiteCmd.Fatal (smooth : Bool) (c : SiteCmd) (x : Choice) : Prop :=
  x.outcome ≠ .ok ∧ (smooth = true ∨ c.external = false)

instance (smooth : Bool) (c : SiteCmd) (x : Choice) : Decidable (c.Fatal smooth x) := by
  unfold SiteCmd.Fatal
  infer_instance

/-- A file that was created and not filled. -/
def Unfilled : Option LayoutEntry → Prop
  | some (.file size _ _) => size ≠ 32
  | _ => False

instance : DecidablePred Unfilled := fun e =>
  match e with
  | some (.file size _ _) => inferInstanceAs (Decidable (size ≠ 32))
  | none | some (.directory _ _) | some (.link _) | some .other => isFalse id

/-- **What is in the way of an installation**: a temporary file that is created exclusively, unless
the file itself is there and can stay, or a secret that was not filled. -/
def Jammed (s : Site) : Prop :=
  s.host.tmp .checkpoint = true ∨ s.stateTmp = true ∨
    (s.stackTmp = true ∧ s.configured .stackEnv = false) ∨
    ∃ p ∈ secretPaths, Unfilled (s.layout.entry p)

instance (s : Site) : Decidable (Jammed s) := by
  unfold Jammed
  infer_instance

/-- **No later run gets on from here.** -/
def Site.Stuck (s : Site) : Prop :=
  (s.state.isNone = true ∧ Jammed s) ∨ (s.state.isSome = true ∧ Upgrade.Stuck s.host)

instance (s : Site) : Decidable s.Stuck := by
  unfold Site.Stuck
  infer_instance

/-! ### The layout -/

/-- Nothing, or a directory. -/
def Free (e : Option LayoutEntry) : Prop := e = none ∨ ∃ mode owner, e = some (.directory mode owner)

/-- **The layout can be made**: the paths of its directories are free, and what stands at those of
the secrets was made by the installer. -/
structure Unoccupied (s : Layout) : Prop where
  directories : ∀ d ∈ layoutDirectories, ∀ q ∈ d.path.inits, Free (s.entry q)
  secrets : ∀ p ∈ secretPaths, s.entry p = none ∨ ∃ size owner, s.entry p = some (.file size 0o600 owner)

/-- The commands that make the layout. -/
def Layouts : LayoutCommand → Prop
  | .installDirectory p _ | .chmod p _ => p ∈ layoutDirectories.map LayoutDirectory.path
  | .chown p _ => p ∈ layoutDirectories.map LayoutDirectory.path ∨ p ∈ secretPaths
  | .python p => p ∈ secretPaths

section Layout

variable {s : Layout} {p q : LayoutPath} {mode : ℕ} {owner : Owner} {o : CallOutcome}

theorem Free.not_blocks {e : Option LayoutEntry} (h : Free e) : ¬Blocks e := by
  rintro hb
  rcases h with rfl | ⟨mode, owner, rfl⟩
  · exact hb
  · exact hb

theorem Unoccupied.free (h : Unoccupied s) (hp : p ∈ layoutDirectories.map LayoutDirectory.path) :
    Free (s.entry p) := by
  obtain ⟨d, hd, rfl⟩ := List.mem_map.mp hp
  exact h.directories d hd d.path (List.mem_inits _ _ |>.mpr List.prefix_rfl)

theorem Unoccupied.walkable (h : Unoccupied s)
    (hp : p ∈ layoutDirectories.map LayoutDirectory.path) : s.Walkable p := by
  obtain ⟨d, hd, rfl⟩ := List.mem_map.mp hp
  intro q hq
  have hprefix : q <+: d.path := ((List.mem_inits _ _).mp hq).trans (List.dropLast_prefix _)
  exact (h.directories d hd q ((List.mem_inits _ _).mpr hprefix)).not_blocks

/-- No secret stands where a directory is made. -/
theorem secret_not_mem_inits (hp : p ∈ secretPaths) {d : LayoutDirectory}
    (hd : d ∈ layoutDirectories) : p ∉ d.path.inits := by
  have hall : ∀ p ∈ secretPaths, ∀ d ∈ layoutDirectories, p ∉ d.path.inits := by decide +kernel
  exact hall p hp d hd

/-- **What a command at one path leaves**: everything else, but for directories on the way. -/
theorem Unoccupied.of_sameBut {s' : Layout} (h : Unoccupied s) (hsame : Layout.SameBut p s s')
    (hp : p ∈ layoutDirectories.map LayoutDirectory.path) (hfree : Free (s'.entry p)) :
    Unoccupied s' ∧ ∀ q ∈ secretPaths, s'.entry q = s.entry q := by
  obtain ⟨d, hd, rfl⟩ := List.mem_map.mp hp
  have hsecrets : ∀ q ∈ secretPaths, s'.entry q = s.entry q := by
    intro q hq
    have hnot := secret_not_mem_inits hq hd
    have hne : q ≠ d.path := by
      rintro rfl
      exact hnot ((List.mem_inits _ _).mpr List.prefix_rfl)
    refine (hsame q hne).resolve_right fun hmade => hnot ?_
    exact (List.mem_inits _ _).mpr (((List.mem_inits _ _).mp hmade.1).trans (List.dropLast_prefix _))
  refine ⟨⟨fun d' hd' q hq => ?_, fun q hq => hsecrets q hq ▸ h.secrets q hq⟩, hsecrets⟩
  by_cases hne : q = d.path
  · exact hne ▸ hfree
  · rcases hsame q hne with heq | ⟨-, -, bits, owner, hmade⟩
    · exact heq ▸ h.directories d' hd' q hq
    · exact .inr ⟨_, _, hmade⟩

theorem unoccupied_installDirectory (h : Unoccupied s)
    (hp : p ∈ layoutDirectories.map LayoutDirectory.path) :
    Unoccupied ((LayoutCommand.installDirectory p mode).effect s o).2 ∧
      ∀ q ∈ secretPaths, ((LayoutCommand.installDirectory p mode).effect s o).2.entry q =
        s.entry q := by
  refine h.of_sameBut LayoutCommand.installDirectory_sameBut hp ?_
  rcases h.free hp with hnone | ⟨mode', owner', hdir⟩
  · rw [LayoutCommand.installDirectory_none hnone]
    split
    · exact .inr ⟨_, _, Layout.put_entry_self _⟩
    · exact .inl hnone
  · rw [LayoutCommand.installDirectory_directory hdir]
    split
    · exact .inr ⟨_, _, Layout.put_entry_self _⟩
    · exact .inr ⟨_, _, hdir⟩

theorem unoccupied_chmod (h : Unoccupied s) (hp : p ∈ layoutDirectories.map LayoutDirectory.path) :
    Unoccupied ((LayoutCommand.chmod p mode).effect s o).2 ∧
      ∀ q ∈ secretPaths, ((LayoutCommand.chmod p mode).effect s o).2.entry q = s.entry q := by
  refine h.of_sameBut LayoutCommand.chmod_sameBut hp ?_
  rcases h.free hp with hnone | ⟨mode', owner', hdir⟩
  · rw [LayoutCommand.chmod_none hnone]
    exact .inl hnone
  · exact .inr ⟨_, _, LayoutCommand.chmod_entry hdir⟩

theorem unoccupied_makeAll (h : Unoccupied s)
    (hp : p ∈ layoutDirectories.map LayoutDirectory.path) :
    Unoccupied (makeAll s p) ∧ ∀ q ∈ secretPaths, (makeAll s p).entry q = s.entry q := by
  obtain ⟨d, hd, rfl⟩ := List.mem_map.mp hp
  have hsecrets : ∀ q ∈ secretPaths, (makeAll s d.path).entry q = s.entry q :=
    fun q hq => if_neg fun hmade => secret_not_mem_inits hq hd hmade.1
  refine ⟨⟨fun d' hd' q hq => ?_, fun q hq => hsecrets q hq ▸ h.secrets q hq⟩, hsecrets⟩
  rw [makeAll]
  dsimp only
  split
  · exact .inr ⟨_, _, rfl⟩
  · exact h.directories d' hd' q hq

/-- A command on a secret leaves all other paths alone. -/
theorem Unoccupied.of_secret {s' : Layout} (h : Unoccupied s) (hp : p ∈ secretPaths)
    (hother : ∀ q, q ≠ p → s'.entry q = s.entry q)
    (hthere : s'.entry p = none ∨ ∃ size owner, s'.entry p = some (.file size 0o600 owner)) :
    Unoccupied s' := by
  refine ⟨fun d hd q hq => ?_, fun q hq => ?_⟩
  · have hne : q ≠ p := fun heq => secret_not_mem_inits hp hd (heq ▸ hq)
    exact hother q hne ▸ h.directories d hd q hq
  · by_cases hne : q = p
    · exact hne ▸ hthere
    · exact hother q hne ▸ h.secrets q hq

/-- **Whatever happens to a command of the layout**, the layout can still be made. -/
theorem unoccupied_effect {c : LayoutCommand} (h : Unoccupied s) (hc : Layouts c) :
    Unoccupied (c.effect s o).2 := by
  cases c with
  | installDirectory p mode => exact (unoccupied_installDirectory h hc).1
  | chmod p mode => exact (unoccupied_chmod h hc).1
  | chown p owner =>
    rcases hc with hp | hp
    · refine (h.of_sameBut LayoutCommand.chown_sameBut hp ?_).1
      rcases h.free hp with hnone | ⟨mode, before, hdir⟩
      · rw [LayoutCommand.chown_none hnone]
        exact .inl hnone
      · exact .inr ⟨_, _, LayoutCommand.chown_entry hdir⟩
    · refine h.of_secret hp (fun q hq => LayoutCommand.chown_other hq) ?_
      rcases h.secrets p hp with hnone | ⟨size, before, hfile⟩
      · rw [LayoutCommand.chown_none hnone]
        exact .inl hnone
      · exact .inr ⟨_, _, LayoutCommand.chown_file hfile⟩
  | python p =>
    refine h.of_secret hc (fun q hq => LayoutCommand.python_other hq) ?_
    rcases h.secrets p hc with hnone | ⟨size, before, hfile⟩
    · simp only [LayoutCommand.effect, hnone]
      split
      · cases o with
        | ok => exact .inr ⟨_, _, Layout.put_entry_self _⟩
        | failed => exact .inl hnone
        | torn written => exact .inr ⟨_, _, Layout.put_entry_self _⟩
      · exact .inl hnone
    · simp only [LayoutCommand.effect, hfile]
      exact .inr ⟨_, _, rfl⟩

theorem only_inSequence {P : LayoutCommand → Prop} {helpers : List (LayoutScript LayoutStatus)}
    (h : ∀ helper ∈ helpers, helper.Only P) : (inSequence helpers).Only P := by
  induction helpers with
  | nil => exact trivial
  | cons helper rest ih =>
    exact .bind (h helper (by simp)) fun _ => ih fun q hq => h q (by simp [hq])

theorem only_configureSecret (hp : p ∈ secretPaths) : (configureSecret p).Only Layouts :=
  .bind (.run hp) fun _ => .ite (.bind (.run (.inr hp)) fun _ => trivial) trivial

theorem only_configureDirectory {d : LayoutDirectory} (hd : d ∈ layoutDirectories) :
    (configureDirectory d).Only Layouts := by
  have hpath : d.path ∈ layoutDirectories.map LayoutDirectory.path := List.mem_map_of_mem hd
  rw [configureDirectory]
  intro s
  dsimp only
  split
  · exact .bind (.run hpath) fun _ => .bind (.run hpath) fun _ =>
      .bind (.run (.inl hpath)) fun _ => trivial
  · exact .bind (.run hpath) fun _ => .bind (.run hpath) fun _ =>
      .bind (.run (.inl hpath)) fun _ => trivial
  · exact trivial

/-- The commands of `configure_layout`. -/
theorem only_configureLayout : configureLayout.Only Layouts := by
  refine .bind (only_inSequence fun helper hhelper => ?_) fun _ =>
    only_configureSecret (by simp [secretPaths])
  rcases List.mem_append.mp hhelper with hdir | hsecret
  · obtain ⟨d, hd, rfl⟩ := List.mem_map.mp hdir
    exact only_configureDirectory hd
  · obtain ⟨p, hp, rfl⟩ := List.mem_map.mp hsecret
    exact only_configureSecret (List.mem_append_left _ hp)

/-- **Where no secret is unfilled the layout is made**, and the function says so: the secrets come
right, whatever bits a directory above them hands on. -/
theorem configureLayout_of_unoccupied (h : Unoccupied s)
    (hfilled : ∀ p ∈ secretPaths, ¬Unfilled (s.entry p)) :
    (configureLayout.eval (layoutMachine fun _ => .ok) () s).1 = .success ∧
      ∀ p ∈ secretPaths, (configureLayout.eval (layoutMachine fun _ => .ok) () s).2.entry p =
        some (.file 32 0o600 secretOwner) := by
  have hsecret : ∀ p ∈ secretPaths,
      s.entry p = none ∨ ∃ owner, s.entry p = some (.file 32 0o600 owner) := by
    intro p hp
    rcases h.secrets p hp with hnone | ⟨size, owner, hfile⟩
    · exact .inl hnone
    · have hsize : size = 32 := by
        have hnot := hfilled p hp
        rw [hfile] at hnot
        exact not_not.mp hnot
      exact .inr ⟨owner, hsize ▸ hfile⟩
  have hholds : Holds (s.entry secretsPath) ∨
      s.entry secretsPath = none ∧ s.Walkable secretsPath ∧ CallOutcome.ok = .ok := by
    have hpath : secretsPath ∈ layoutDirectories.map LayoutDirectory.path := by decide +kernel
    rcases h.free hpath with hnone | ⟨mode, owner, hdir⟩
    · exact .inr ⟨hnone, h.walkable hpath, rfl⟩
    · exact .inl (by rw [hdir]; exact trivial)
  refine ⟨configureLayout_success_iff.mpr ⟨rfl, rfl, ?_⟩,
    (configureLayout_secrets_iff (holds_secretsPath_iff.mpr hholds)).mpr fun p hp => ?_⟩
  · rcases hsecret lastSecret (by simp [secretPaths]) with hnone | ⟨owner, hfile⟩
    · rw [hnone]
      exact hholds
    · simp [hfile]
  · rcases hsecret p hp with hnone | ⟨owner, hfile⟩
    · simp [SecretReady, hnone]
    · simp [SecretReady, hfile]

end Layout

/-! ### What there is before `install.json` -/

variable {rel : Version → Release} {B : Setting rel} {V : Version → Prop} {smooth : Bool}
  {s t u : Site}

/-- **An installation that is not finished**, however often it was interrupted. -/
structure Underway (B : Setting rel) (s : Site) : Prop where
  state : s.state = none
  journal : s.host.journal = none
  tmp : s.host.tmp .state = false
  checkpoint : ∀ phase, s.host.checkpoint ≠ some (.upgrade phase)
  admin : s.host.checkpoint.isSome = true →
    InstallPhase.adminCreated.rank ≤ s.phase.rank → s.admin.isSome = true
  release : s.host.releases B.version = none ∨
    s.host.releases B.version = some (rel B.version).tree
  stackEnv : s.configured .stackEnv = true →
    s.host.config .stackEnv = (rel B.version).config .stackEnv
  layout : Unoccupied s.layout

/-- **Between any two commands**: the installation is not finished, or what is there is the host of an
upgrade. -/
def Crash (B : Setting rel) (V : Version → Prop) (s : Site) : Prop :=
  Underway B s ∨ s.state.isSome = true ∧ Safe rel V s.host

/-- **Nothing is in the way.** -/
structure Clear (B : Setting rel) (s : Site) : Prop where
  underway : Underway B s
  jammed : ¬Jammed s

theorem Clear.crash (h : Clear B s) : Crash B V s := .inl h.underway

theorem Clear.tmp_checkpoint (h : Clear B s) : s.host.tmp .checkpoint = false := by
  simpa using fun htmp => h.jammed (.inl htmp)

theorem Clear.stateTmp (h : Clear B s) : s.stateTmp = false := by
  simpa using fun htmp => h.jammed (.inr (.inl htmp))

theorem Clear.stackTmp (h : Clear B s) (hmissing : s.configured .stackEnv = false) :
    s.stackTmp = false := by
  simpa using fun htmp => h.jammed (.inr (.inr (.inl ⟨htmp, hmissing⟩)))

theorem Clear.filled (h : Clear B s) : ∀ p ∈ secretPaths, ¬Unfilled (s.layout.entry p) :=
  fun p hp hunfilled => h.jammed (.inr (.inr (.inr ⟨p, hp, hunfilled⟩)))

/-- **The same as far as an installation goes on from it**; the administrator stays. -/
structure SameCore (s t : Site) : Prop where
  state : t.state = s.state
  stateTmp : t.stateTmp = s.stateTmp
  stackTmp : t.stackTmp = s.stackTmp
  phase : t.phase = s.phase
  configured : t.configured .stackEnv = s.configured .stackEnv
  journal : t.host.journal = s.host.journal
  tmp : t.host.tmp = s.host.tmp
  checkpoint : t.host.checkpoint = s.host.checkpoint
  releases : t.host.releases = s.host.releases
  config : t.host.config .stackEnv = s.host.config .stackEnv
  admin : s.admin.isSome = true → t.admin.isSome = true
  layout : Unoccupied s.layout → Unoccupied t.layout
  secrets : Unoccupied s.layout → ∀ p ∈ secretPaths, t.layout.entry p = s.layout.entry p

theorem Underway.of_sameCore (h : Underway B s) (hsame : SameCore s t) : Underway B t where
  state := hsame.state.trans h.state
  journal := hsame.journal.trans h.journal
  tmp := hsame.tmp ▸ h.tmp
  checkpoint := hsame.checkpoint ▸ h.checkpoint
  admin := by
    rw [hsame.checkpoint, hsame.phase]
    exact fun hthere hrank => hsame.admin (h.admin hthere hrank)
  release := hsame.releases ▸ h.release
  stackEnv := by
    rw [hsame.configured, hsame.config]
    exact h.stackEnv
  layout := hsame.layout h.layout

theorem Clear.of_sameCore (h : Clear B s) (hsame : SameCore s t) : Clear B t := by
  refine ⟨h.underway.of_sameCore hsame, fun hjammed => h.jammed ?_⟩
  rw [Jammed, hsame.tmp, hsame.stateTmp, hsame.stackTmp, hsame.configured] at hjammed
  refine hjammed.imp_right (.imp_right (.imp_right ?_))
  rintro ⟨p, hp, hunfilled⟩
  exact ⟨p, hp, hsame.secrets h.underway.layout p hp ▸ hunfilled⟩

/-- Sites that differ in what an installation does not go on from. -/
theorem SameCore.of_eq (hconfigured : t.configured .stackEnv = s.configured .stackEnv)
    (hconfig : t.host.config .stackEnv = s.host.config .stackEnv)
    (hadmin : s.admin.isSome = true → t.admin.isSome = true)
    (hstate : t.state = s.state := by rfl) (hstateTmp : t.stateTmp = s.stateTmp := by rfl)
    (hstackTmp : t.stackTmp = s.stackTmp := by rfl) (hphase : t.phase = s.phase := by rfl)
    (hlayout : t.layout = s.layout := by rfl)
    (hjournal : t.host.journal = s.host.journal := by rfl)
    (htmp : t.host.tmp = s.host.tmp := by rfl)
    (hcheckpoint : t.host.checkpoint = s.host.checkpoint := by rfl)
    (hreleases : t.host.releases = s.host.releases := by rfl) : SameCore s t where
  state := hstate
  stateTmp := hstateTmp
  stackTmp := hstackTmp
  phase := hphase
  configured := hconfigured
  journal := hjournal
  tmp := htmp
  checkpoint := hcheckpoint
  releases := hreleases
  config := hconfig
  admin := hadmin
  layout := fun h => hlayout ▸ h
  secrets := fun _ _ _ => by rw [hlayout]

/-- **The commands that nothing depends on**, whatever becomes of them. -/
def SiteCmd.Calm : SiteCmd → Prop
  | .host c => c.spares [.journal, .tmp, .checkpoint, .releases, .config] = true
  | .layout (.chmod p _) | .makeDirectory p => p ∈ layoutDirectories.map LayoutDirectory.path
  | .layout _ | .create _ | .replace _ | .discard _ => False
  | .render f _ => f ≠ .stackEnv
  | _ => True

theorem SameCore.refl (s : Site) : SameCore s s := .of_eq rfl rfl id

theorem SameCore.act (o : Outcome) (h : SameCore s t) : SameCore s (act o t s).2 := by
  rw [Install.act]
  dsimp only
  split
  · exact h
  · exact .refl s

/-- Another program only starts and stops the stack. -/
theorem Program.effect_eq (p : Program) (o : Outcome) (h : Host) :
    ∃ running, p.effect o h = { h with running := running } := by
  unfold Program.effect
  split <;> first | exact ⟨_, rfl⟩ | (split <;> exact ⟨_, rfl⟩)

theorem calm_sameCore {c : SiteCmd} (hc : c.Calm) (x : Choice) :
    SameCore s (c.effect B x s).2 := by
  cases c with
  | host c =>
    have hperform : Host.Same [.journal, .tmp, .checkpoint, .releases, .config] s.host
        ((hostMachine rel).perform c x s.host).2 :=
      Host.Same.perform hc (by decide) x.outcome x.panel s.host
    have hconfig := hperform .config (by decide)
    have hjournal := hperform .journal (by decide)
    have htmp := hperform .tmp (by decide)
    have hcheckpoint := hperform .checkpoint (by decide)
    have hreleases := hperform .releases (by decide)
    exact .of_eq rfl (congrFun hconfig _) id rfl rfl rfl rfl rfl hjournal htmp hcheckpoint hreleases
  | layout c =>
    cases c with
    | chmod p mode =>
      refine ⟨rfl, rfl, rfl, rfl, rfl, rfl, rfl, rfl, rfl, rfl, id, fun h => ?_, fun h => ?_⟩
      · exact (unoccupied_chmod h hc).1
      · exact (unoccupied_chmod h hc).2
    | _ => exact hc.elim
  | makeDirectory p =>
    simp only [SiteCmd.effect]
    split
    · refine .act _ ⟨rfl, rfl, rfl, rfl, rfl, rfl, rfl, rfl, rfl, rfl, id, fun h => ?_, fun h => ?_⟩
      · exact (unoccupied_makeAll h hc).1
      · exact (unoccupied_makeAll h hc).2
    · exact .refl s
  | program p =>
    obtain ⟨running, heffect⟩ := p.effect_eq x.outcome s.host
    simp only [SiteCmd.effect, heffect]
    exact .of_eq rfl rfl id
  | render f content =>
    refine .act _ (.of_eq ?_ ?_ id)
    · exact Function.update_of_ne (Ne.symm hc) _ _
    · exact Function.update_of_ne (Ne.symm hc) _ _
  | copyGateway content =>
    refine .of_eq rfl ?_ id
    have hne : ConfigFile.stackEnv ≠ .caddyfile := by decide
    simp only [SiteCmd.effect, Host.setConfig, Function.update_of_ne hne]
  | initAdmin login =>
    simp only [SiteCmd.effect]
    split
    · exact .refl s
    · exact .act _ (.of_eq rfl rfl fun _ => rfl)
  | moveLogin =>
    simp only [SiteCmd.effect]
    split
    · exact .act _ (.of_eq rfl rfl id)
    · exact .refl s
  | moveMaterial | removeLogin => exact .act _ (.of_eq rfl rfl id)
  | create | replace | discard => exact hc.elim
  | _ => exact .of_eq rfl rfl id

theorem Clear.perform {c : SiteCmd} (h : Clear B s) (hc : c.Calm) (x : Choice) :
    Clear B ((siteMachine B).perform c x s).2 :=
  h.of_sameCore (calm_sameCore hc x)

/-- **Calm commands leave nothing in the way.** -/
theorem until_calm {α : Type} {p : InstallScript α} (hp : p.Only SiteCmd.Calm) (h : Clear B s) :
    wpUntil (siteMachine B) (SiteCmd.Fatal smooth) (Crash B V) p (fun _ => Clear B) s := by
  have hwp : wp (siteMachine B) (Clear B) p (fun _ => Clear B) s :=
    hp.keeps (fun c hc t x ht => ht.perform hc x) s h
  exact wpUntil_mono (wpUntil_of_wp hwp) (fun t ht => ht.crash) fun _ _ ht => ht

/-! ### What stays in place -/

/-- **The release stays as it is**, and the administrator. -/
structure Keeps (s t : Site) : Prop where
  current : t.host.current = s.host.current
  releases : t.host.releases = s.host.releases
  config : t.host.config = s.host.config
  tools : t.host.tools = s.host.tools
  admin : s.admin.isSome = true → t.admin.isSome = true

theorem Keeps.refl (s : Site) : Keeps s s := ⟨rfl, rfl, rfl, rfl, id⟩

theorem Keeps.trans (h : Keeps s t) (h' : Keeps t u) : Keeps s u where
  current := h'.current.trans h.current
  releases := h'.releases.trans h.releases
  config := h'.config.trans h.config
  tools := h'.tools.trans h.tools
  admin := fun hs => h'.admin (h.admin hs)

theorem Keeps.act (o : Outcome) (h : Keeps s t) : Keeps s (act o t s).2 := by
  rw [Install.act]
  dsimp only
  split
  · exact h
  · exact .refl s

/-- The commands that do not touch the release. -/
def SiteCmd.sparesRelease : SiteCmd → Bool
  | .host c => c.spares [.current, .releases, .config, .tools]
  | .render _ _ | .copyGateway _ | .replace (.stackEnv _) => false
  | _ => true

theorem keeps_effect {c : SiteCmd} (hc : c.sparesRelease = true) (x : Choice) :
    Keeps s (c.effect B x s).2 := by
  cases c with
  | host c =>
    have hperform : Host.Same [.current, .releases, .config, .tools] s.host
        ((hostMachine rel).perform c x s.host).2 :=
      Host.Same.perform hc (by decide) x.outcome x.panel s.host
    exact ⟨hperform .current (by decide), hperform .releases (by decide),
      hperform .config (by decide), hperform .tools (by decide), id⟩
  | program p =>
    obtain ⟨running, heffect⟩ := p.effect_eq x.outcome s.host
    simp only [SiteCmd.effect, heffect]
    exact ⟨rfl, rfl, rfl, rfl, id⟩
  | makeDirectory p =>
    simp only [SiteCmd.effect]
    split
    · exact .act _ ⟨rfl, rfl, rfl, rfl, id⟩
    · exact .refl s
  | create file =>
    simp only [SiteCmd.effect]
    split
    · exact .refl s
    · cases file <;> exact .act _ ⟨rfl, rfl, rfl, rfl, id⟩
  | replace content =>
    simp only [SiteCmd.effect]
    split
    · cases content with
      | stackEnv content => cases hc
      | checkpoint phase => exact .act _ ⟨rfl, rfl, rfl, rfl, id⟩
      | state version state => exact .act _ ⟨rfl, rfl, rfl, rfl, id⟩
    · exact .refl s
  | discard file => cases file <;> exact .act _ ⟨rfl, rfl, rfl, rfl, id⟩
  | initAdmin login =>
    simp only [SiteCmd.effect]
    split
    · exact .refl s
    · exact .act _ ⟨rfl, rfl, rfl, rfl, fun _ => rfl⟩
  | moveLogin =>
    simp only [SiteCmd.effect]
    split
    · exact .act _ ⟨rfl, rfl, rfl, rfl, id⟩
    · exact .refl s
  | moveMaterial | removeLogin => exact .act _ ⟨rfl, rfl, rfl, rfl, id⟩
  | render file content => cases hc
  | copyGateway content => cases hc
  | _ => exact ⟨rfl, rfl, rfl, rfl, id⟩

/-- **Commands that do not touch the release** leave it in place. -/
theorem until_keeps {α : Type} {p : InstallScript α}
    (hp : p.Only fun c => c.sparesRelease = true) :
    wpUntil (siteMachine B) (SiteCmd.Fatal smooth) (fun _ => True) p (fun _ => Keeps s) s := by
  have hwp : wp (siteMachine B) (Keeps s) p (fun _ => Keeps s) s :=
    hp.keeps (fun c hc t x ht => ht.trans (keeps_effect hc x)) s (.refl s)
  exact wpUntil_mono (wpUntil_of_wp hwp) (fun _ _ => trivial) fun _ _ ht => ht

/-- A command that is neither in the way of anything nor touches the release. -/
def SiteCmd.Quiet (c : SiteCmd) : Prop := c.Calm ∧ c.sparesRelease = true

theorem until_quiet {α : Type} {p : InstallScript α} (hp : p.Only SiteCmd.Quiet) (h : Clear B s) :
    wpUntil (siteMachine B) (SiteCmd.Fatal smooth) (Crash B V) p
      (fun _ t => Clear B t ∧ Keeps s t) s := by
  exact wpUntil_and (until_calm (hp.mono fun c hc => hc.1) h) (until_keeps (hp.mono fun c hc => hc.2))

/-! ### A part of an installation -/

/-- **A part goes on** from a site where nothing is in the way and `A` holds: it leaves nothing in the
way and the release in place, and in a smooth run it succeeds. -/
def Proceeds (B : Setting rel) (V : Version → Prop) (smooth : Bool) (A : Site → Prop)
    (p : InstallScript Bool) : Prop :=
  ∀ s, Clear B s → A s → wpUntil (siteMachine B) (SiteCmd.Fatal smooth) (Crash B V) p
    (fun ok t => Clear B t ∧ Keeps s t ∧ (smooth = true → ok = true)) s

/-- What a part leaves in place. -/
def Stable (A : Site → Prop) : Prop := ∀ ⦃s t⦄, Keeps s t → A s → A t

theorem stable_true : Stable fun _ => True := fun _ _ _ _ => trivial

section Proceeds

variable {A : Site → Prop}

/-- A command that is another program and succeeds when it goes well. -/
theorem Proceeds.run {c : SiteCmd} (hc : c.Quiet)
    (hok : ∀ s, A s → ∀ x : Choice, x.outcome = .ok → (c.effect B x s).1 = true) :
    Proceeds B V smooth A (Script.run c) := by
  refine fun s h hA x => ⟨(h.perform hc.1 x).crash, fun hx => ⟨h.perform hc.1 x,
    keeps_effect hc.2 x, fun hs => hok s hA x ?_⟩⟩
  by_contra hne
  exact hx ⟨hne, .inl hs⟩

theorem Proceeds.program (p : Program) : Proceeds B V smooth A (Script.run (.program p)) :=
  .run ⟨trivial, rfl⟩ fun s _ x hx => by simp [SiteCmd.effect, hx, Outcome.status]

theorem Proceeds.all {ps : List (InstallScript Bool)} (hA : Stable A)
    (h : ∀ p ∈ ps, Proceeds B V smooth A p) : Proceeds B V smooth A (Script.all ps) := by
  induction ps with
  | nil => exact fun s hs _ => ⟨hs, .refl s, fun _ => rfl⟩
  | cons p ps ih =>
    intro s hs hAs
    refine wpUntil_all_of (h p (by simp) s hs hAs) ?_ fun t ht => ?_
    · rintro t ⟨ht, hkeeps, -⟩
      refine wpUntil_post (ih (fun q hq => h q (by simp [hq])) t ht (hA hkeeps hAs)) ?_
      rintro ok u ⟨hu, hkeeps', hok⟩
      exact ⟨hu, hkeeps.trans hkeeps', hok⟩
    · exact ht

/-- **A script of another part of the site**, which succeeds when all of its commands do. -/
theorem Proceeds.adapt {ω κ τ : Type} {M : Machine ω κ Outcome τ} {part : Component Site τ}
    {view : Site → ω} {embed : κ → SiteCmd}
    (hembeds : M.Embeds (siteMachine B) part view embed Choice.outcome)
    (hquiet : ∀ c, (embed c).Quiet) {p : Script ω κ Bool}
    (hok : ∀ a, (p.eval M .ok a).1 = true) : Proceeds B V smooth A (p.adapt view embed) := by
  intro s hs _
  have honly : (p.adapt view embed).Only SiteCmd.Quiet := (Only.univ p).adapt fun c _ => hquiet c
  have hrun := wpUntil_eval (M := M) (F := fun _ o => o ≠ .ok) (z := .ok) (s := part.get s)
    (Only.univ p) fun c o a _ ho => by rw [not_not.mp ho]
  cases smooth with
  | false => exact wpUntil_post (until_quiet honly hs) fun ok t ht => ⟨ht.1, ht.2, nofun⟩
  | true =>
    refine wpUntil_post (wpUntil_and (until_quiet honly hs)
      (wpUntil_adapt hembeds (fun _ _ ho => ⟨ho, .inl rfl⟩) hrun)) ?_
    rintro ok t ⟨ht, a, ⟨hstatus, -⟩, -⟩
    exact ⟨ht.1, ht.2, fun _ => hstatus.trans (hok _)⟩

/-- **One part of a chain that reports**: the rest starts from what it leaves. -/
theorem until_part {name : InstallError} {p : InstallScript Bool}
    {ps : List (InstallError × InstallScript Bool)} {Q : Option InstallError → Site → Prop}
    (hp : Proceeds B V smooth A p) (hs : Clear B s) (hA : A s)
    (hrest : ∀ t, Clear B t → Keeps s t → wpUntil (siteMachine B) (SiteCmd.Fatal smooth)
      (Crash B V) (firstFailure ps) Q t)
    (hstop : ∀ t, Clear B t → Keeps s t → smooth = false → Q (some name) t) :
    wpUntil (siteMachine B) (SiteCmd.Fatal smooth) (Crash B V) (firstFailure ((name, p) :: ps)) Q
      s := by
  refine wpUntil_firstFailure_of (hp s hs hA) (fun t ht => hrest t ht.1 ht.2.1) ?_
  rintro t ⟨ht, hkeeps, hok⟩
  refine hstop t ht hkeeps ?_
  by_contra hne
  exact absurd (hok (by simpa using hne)) nofun

/-- A chain of parts. -/
theorem until_parts {ps : List (InstallError × InstallScript Bool)} (hA : Stable A)
    (h : ∀ p ∈ ps, Proceeds B V smooth A p.2) (hs : Clear B s) (hAs : A s) :
    wpUntil (siteMachine B) (SiteCmd.Fatal smooth) (Crash B V) (firstFailure ps)
      (fun failure t => Clear B t ∧ Keeps s t ∧ (smooth = true → failure = none)) s := by
  induction ps generalizing s with
  | nil => exact ⟨hs, .refl s, fun _ => rfl⟩
  | cons p ps ih =>
    refine until_part (h p (by simp)) hs hAs (fun t ht hkeeps => ?_) fun t ht hkeeps hne => ?_
    · refine wpUntil_post (ih (fun q hq => h q (by simp [hq])) ht (hA hkeeps hAs)) ?_
      rintro failure u ⟨hu, hkeeps', hok⟩
      exact ⟨hu, hkeeps.trans hkeeps', hok⟩
    · exact ⟨ht, hkeeps, fun hs => absurd (hs.symm.trans hne) nofun⟩

end Proceeds

/-! ### Files that are replaced -/

/-- **A command on files**, whose crash leaves `I`. -/
theorem until_internal {I : Site → Prop} {c : SiteCmd} (hc : c.external = false)
    (hcrash : ∀ x, I (c.effect B x s).2) :
    wpUntil (siteMachine B) (SiteCmd.Fatal smooth) I (run c)
      (fun ok t => ∃ x : Choice, x.outcome = .ok ∧ ok = (c.effect B x s).1 ∧
        t = (c.effect B x s).2) s := by
  refine fun x => ⟨hcrash x, fun hx => ⟨x, ?_, rfl, rfl⟩⟩
  by_contra hne
  exact hx ⟨hne, .inr hc⟩

/-- A command that does all or nothing leaves one of the two. -/
theorem act_either {I : Site → Prop} (o : Outcome) (hs : I s) (ht : I t) : I (act o t s).2 := by
  rw [act]
  dsimp only
  split
  · exact ht
  · exact hs

namespace Site

@[simp] theorem tmp_setTmp (s : Site) (f : InstallFile) (there : Bool) :
    (s.setTmp f there).tmp f = there := by
  cases f with
  | checkpoint => simp [tmp, setTmp, Host.setTmp]
  | stackEnv => rfl
  | state => rfl

/-- A temporary file that was not there is not there again. -/
theorem put_setTmp {content : InstallContent} (hfree : s.tmp content.file = false) :
    ((s.setTmp content.file true).put content).setTmp content.file false = s.put content := by
  cases content with
  | checkpoint phase =>
    have hback := update_tmp_of_free (h := s.host) (m := .checkpoint) hfree
    simp only [setTmp, put, InstallContent.file, Host.setTmp]
    rw [hback]
  | stackEnv content =>
    have hfree : s.stackTmp = false := hfree
    simp only [setTmp, put, InstallContent.file, setConfig]
    rw [← hfree]
  | state version state =>
    have hfree : s.stateTmp = false := hfree
    simp only [setTmp, put, InstallContent.file]
    rw [← hfree]

theorem put_discard {content : InstallContent} (hfree : s.tmp content.file = false) :
    (s.put content).setTmp content.file false = s.put content := by
  cases content with
  | checkpoint phase =>
    have hback : Function.update s.host.tmp Managed.checkpoint false = s.host.tmp :=
      Function.update_eq_self_iff.mpr hfree.symm
    simp only [setTmp, put, InstallContent.file, Host.setTmp]
    rw [hback]
  | stackEnv content =>
    have hfree : s.stackTmp = false := hfree
    simp only [setTmp, put, InstallContent.file, setConfig]
    rw [← hfree]
  | state version state =>
    have hfree : s.stateTmp = false := hfree
    simp only [setTmp, put, InstallContent.file]
    rw [← hfree]

end Site

/-- **A file is replaced**: between the commands there is the temporary file or not, and the old
content or the new. -/
theorem until_replaceFile {I : Site → Prop} (content : InstallContent)
    (hfree : s.tmp content.file = false) (hs : I s) (htmp : I (s.setTmp content.file true))
    (hput : I (s.put content)) :
    wpUntil (siteMachine B) (SiteCmd.Fatal smooth) I (replaceFile content)
      (fun ok t => ok = true ∧ t = s.put content) s := by
  have hcreate : ∀ x, (SiteCmd.create content.file).effect B x s =
      act x.outcome (s.setTmp content.file true) s := by
    intro x
    simp [SiteCmd.effect, hfree]
  have hreplace : ∀ x, (SiteCmd.replace content).effect B x (s.setTmp content.file true) =
      act x.outcome (s.put content) (s.setTmp content.file true) := by
    intro x
    simp [SiteCmd.effect, Site.put_setTmp hfree]
  have hdiscard : ∀ x, (SiteCmd.discard content.file).effect B x (s.put content) =
      act x.outcome (s.put content) (s.put content) := by
    intro x
    simp [SiteCmd.effect, Site.put_discard hfree]
  refine wpUntil_bind_of (until_internal rfl fun x => ?_) ?_
  · rw [hcreate]
    exact act_either _ hs htmp
  rintro ok t ⟨x, hx, hok, rfl⟩
  rw [hcreate, hx] at hok
  subst hok
  rw [hcreate, hx]
  change wpUntil _ _ _ ((all [run (SiteCmd.write content.file),
    run (SiteCmd.replace content)]).bind _) _ (s.setTmp content.file true)
  refine wpUntil_bind_of (Q := fun ok t => ok = true ∧ t = s.put content) ?_ ?_
  · refine wpUntil_all_of (until_internal rfl fun x => htmp) ?_ ?_
    · rintro t ⟨x, hx, -, rfl⟩
      refine wpUntil_all_of (until_internal rfl fun x => ?_) ?_ ?_
      · rw [SiteCmd.effect, hreplace]
        exact act_either _ htmp hput
      · rintro t ⟨x, hx, -, rfl⟩
        rw [SiteCmd.effect, hreplace, hx]
        exact ⟨rfl, rfl⟩
      · rintro t ⟨x, hx, hok, -⟩
        rw [SiteCmd.effect, hreplace, hx] at hok
        cases hok
    · rintro t ⟨x, hx, hok, -⟩
      simp [SiteCmd.effect, hx, Outcome.status] at hok
  · rintro ok t ⟨rfl, rfl⟩
    refine wpUntil_bind_of (until_internal rfl fun x => ?_) ?_
    · rw [hdiscard]
      exact act_either _ hput hput
    · rintro ok t ⟨x, hx, hok, rfl⟩
      rw [hdiscard, hx] at hok ⊢
      subst hok
      exact ⟨rfl, rfl⟩

/-! ### Checkpoints -/

theorem Underway.setTmp (h : Underway B s) (f : InstallFile) (there : Bool) :
    Underway B (s.setTmp f there) := by
  cases f with
  | checkpoint =>
    have hne : Managed.state ≠ .checkpoint := by decide
    exact ⟨h.state, h.journal, (Function.update_of_ne hne there s.host.tmp).trans h.tmp,
      h.checkpoint, h.admin, h.release, h.stackEnv, h.layout⟩
  | stackEnv =>
    exact ⟨h.state, h.journal, h.tmp, h.checkpoint, h.admin, h.release, h.stackEnv, h.layout⟩
  | state =>
    exact ⟨h.state, h.journal, h.tmp, h.checkpoint, h.admin, h.release, h.stackEnv, h.layout⟩

/-- **A checkpoint of an installation**: from the first administrator on there is one. -/
theorem Clear.put_checkpoint (h : Clear B s) (phase : InstallPhase)
    (hadmin : InstallPhase.adminCreated.rank ≤ phase.rank → s.admin.isSome = true) :
    Clear B (s.put (.checkpoint phase)) :=
  ⟨⟨h.underway.state, h.underway.journal, h.underway.tmp, fun _ => nofun, fun _ => hadmin,
    h.underway.release, h.underway.stackEnv, h.underway.layout⟩, h.jammed⟩

theorem operationsPath_mem : operationsPath ∈ layoutDirectories.map LayoutDirectory.path := by
  decide +kernel

theorem statePath_mem : statePath ∈ layoutDirectories.map LayoutDirectory.path := by
  decide +kernel

/-- **A phase is recorded.** -/
theorem until_recordPhase (phase : InstallPhase) (hs : Clear B s)
    (hadmin : InstallPhase.adminCreated.rank ≤ phase.rank → s.admin.isSome = true) :
    wpUntil (siteMachine B) (SiteCmd.Fatal smooth) (Crash B V) (recordPhase phase)
      (fun ok t => ok = true ∧ Clear B t ∧ Keeps s t ∧ t.host.checkpoint = some .other) s := by
  have hquiet : ∀ {c : SiteCmd} {t : Site}, c.Quiet → Clear B t →
      wpUntil (siteMachine B) (SiteCmd.Fatal smooth) (Crash B V) (run c)
        (fun _ u => Clear B u ∧ Keeps t u) t := fun hc ht => until_quiet (.run hc) ht
  refine wpUntil_bind_of (hquiet ⟨operationsPath_mem, rfl⟩ hs) ?_
  rintro - t ⟨ht, hkeeps⟩
  refine wpUntil_bind_of (hquiet ⟨operationsPath_mem, rfl⟩ ht) ?_
  rintro - u ⟨hu, hkeeps'⟩
  have hkeeps : Keeps s u := hkeeps.trans hkeeps'
  have hput := hu.put_checkpoint phase fun hrank => hkeeps.admin (hadmin hrank)
  refine wpUntil_post (until_replaceFile (.checkpoint phase) hu.tmp_checkpoint hu.crash
    (.inl (hu.underway.setTmp _ _)) hput.crash) ?_
  rintro ok w ⟨rfl, rfl⟩
  exact ⟨rfl, hput, hkeeps.trans ⟨rfl, rfl, rfl, rfl, id⟩, rfl⟩

/-- A part of an installation records its phase. -/
theorem Proceeds.recordPhase {A : Site → Prop} (phase : InstallPhase)
    (hA : ∀ s, A s → InstallPhase.adminCreated.rank ≤ phase.rank → s.admin.isSome = true) :
    Proceeds B V smooth A (Install.recordPhase phase) := by
  refine fun s hs hAs => wpUntil_post (until_recordPhase phase hs (hA s hAs)) ?_
  rintro ok t ⟨rfl, ht, hkeeps, -⟩
  exact ⟨ht, hkeeps, fun _ => rfl⟩

/-! ### Before the layout -/

/-- Docker is a part of the site. -/
def dockerPart : Component Site DockerHost where
  get := Site.docker
  put d s := { s with docker := d }
  get_put _ _ := rfl
  put_put _ _ _ := rfl
  put_get := Site.eta

theorem embeds_docker :
    dockerMachine.Embeds (siteMachine B) dockerPart Site.docker .docker Choice.outcome where
  obs _ := rfl
  perform _ _ _ := rfl

/-- Where every command succeeds Docker is ready. -/
theorem ensureDockerEngine_ok (d : DockerHost) :
    (ensureDockerEngine.eval dockerMachine .ok d).1 = true := by
  obtain ⟨engine, running, key, sources, sourcesTmp, resources⟩ := d
  cases engine <;> cases running <;> rfl

theorem proceeds_ensureDockerEngine {A : Site → Prop} :
    Proceeds B V smooth A (onDocker ensureDockerEngine) :=
  .adapt embeds_docker (fun _ => ⟨trivial, rfl⟩) ensureDockerEngine_ok

/-- The firewall is a part of the site. -/
def firewallPart : Component Site FirewallHost where
  get := Site.firewall
  put h s := { s with firewall := h }
  get_put _ _ := rfl
  put_put _ _ _ := rfl
  put_get := Site.eta

/-- **The firewall as a machine**, with all that may become of a command. -/
def firewallSystem : Machine FirewallHost FirewallCommand Outcome FirewallHost where
  obs := id
  perform c o h := firewallEffect c o h

theorem embeds_firewall :
    firewallSystem.Embeds (siteMachine B) firewallPart Site.firewall .firewall Choice.outcome where
  obs _ := rfl
  perform _ _ _ := rfl

/-- Where every command succeeds the loop over the rules does. -/
theorem allowRules_ok (listing : UfwListing) (rules : List (List Char)) (h : FirewallHost) :
    ((allowRules listing rules true).eval firewallSystem .ok h).1 = true := by
  induction rules generalizing h with
  | nil => rfl
  | cons rule rest ih =>
    change ((if listing.seen h.ufw rule then allowRules listing rest true
      else (run (.ufwAllow rule)).bind fun _ => (recordFirewallRule ("ufw|".toList ++ rule)).bind
        fun status => allowRules listing rest status : FirewallScript Bool).eval _ _ h).1 = true
    split
    · exact ih h
    · rw [eval_bind, eval_bind]
      exact ih _

/-- So does the function: a record that is there already is enough for it, and so is no firewall. -/
theorem applyFirewallRules_ok (listing : UfwListing) (h : FirewallHost) :
    ((applyFirewallRules listing).eval firewallSystem .ok h).1 = true := by
  have hobs : firewallSystem.obs h = h := rfl
  rw [applyFirewallRules, Script.eval, hobs]
  split
  · rfl
  · cases h.backend with
    | none => rfl
    | ufw => exact allowRules_ok listing managedRules h
    | firewalld =>
      rw [eval_bind, eval_bind, eval_bind, eval_bind]
      rfl

theorem proceeds_applyFirewallRules {A : Site → Prop} :
    Proceeds B V smooth A (onFirewall (applyFirewallRules B.listing)) :=
  .adapt embeds_firewall (fun _ => ⟨trivial, rfl⟩) (applyFirewallRules_ok B.listing)

/-- A command of the host that is another program. -/
theorem Proceeds.host {A : Site → Prop} {c : Cmd}
    (hc : c.spares [.journal, .tmp, .checkpoint, .releases, .config, .current, .tools] = true)
    (hok : ∀ h, (c.effect rel .ok h).1 = true) :
    Proceeds B V smooth A (Script.run (.host c)) := by
  refine .run ⟨spares_mono hc (by decide), spares_mono hc (by decide)⟩ fun s _ x hx => ?_
  simpa only [SiteCmd.effect, hostMachine, hx] using hok s.host

/-- A checkpoint of an installation that is not finished names its phase. -/
theorem Underway.resumePhase_isSome (h : Underway B s) :
    s.resumePhase.isSome = s.host.checkpoint.isSome := by
  rw [Site.resumePhase]
  cases hcheckpoint : s.host.checkpoint with
  | none => rfl
  | some checkpoint =>
    cases checkpoint with
    | upgrade phase => exact absurd hcheckpoint (h.checkpoint phase)
    | other => rfl

/-- **The steps before the layout.** -/
theorem until_beforeLayout (hs : Clear B s) :
    wpUntil (siteMachine B) (SiteCmd.Fatal smooth) (Crash B V) (beforeLayout B s.resumePhase)
      (fun failure t => Clear B t ∧ Keeps s t ∧ (smooth = true → failure = none)) s := by
  have hrecord : ∀ {phase : InstallPhase}, phase.rank < InstallPhase.adminCreated.rank →
      Proceeds B V smooth (fun _ => True) (recordPhase phase) :=
    fun hphase => .recordPhase _ fun _ _ hrank => absurd hrank (Nat.not_le.mpr hphase)
  have hlaboratory : Proceeds B V smooth (fun _ => True) (validateLaboratoryPair B) := by
    rw [validateLaboratoryPair]
    split
    · exact .program _
    · exact fun t ht _ => ⟨ht, .refl t, fun _ => rfl⟩
  -- an installation with a checkpoint is resumed, so that the checkpoint is no reason to stop
  have hpreflight : Proceeds B V smooth (fun t => t = s) (runPreflight s.resumePhase.isSome) := by
    intro t _ ht
    rw [ht, runPreflight, wpUntil_look, wpUntil_ite]
    refine ⟨fun hstop => ?_, fun _ => Proceeds.host rfl (fun _ => rfl) _ hs rfl⟩
    have hview : (siteMachine B).obs s = s := rfl
    rw [hview, hs.underway.resumePhase_isSome] at hstop
    cases hthere : s.host.checkpoint.isSome <;> simp [hthere] at hstop
  refine until_part hpreflight hs rfl (fun t ht hkeeps => ?_) ?_
  · refine wpUntil_post (until_parts (V := V) stable_true ?_ ht trivial) ?_
    · simp only [List.forall_mem_cons, List.not_mem_nil, false_implies, implies_true, and_true]
      exact ⟨hlaboratory, hrecord (by decide), .program _, hrecord (by decide),
        proceeds_ensureDockerEngine, hrecord (by decide), proceeds_applyFirewallRules,
        hrecord (by decide)⟩
    · rintro failure u ⟨hu, hkeeps', hok⟩
      exact ⟨hu, hkeeps.trans hkeeps', hok⟩
  · intro t ht hkeeps hne
    exact ⟨ht, hkeeps, fun hs => absurd (hs.symm.trans hne) nofun⟩

end EzOpenPN.Install
