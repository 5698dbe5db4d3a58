import EzOpenPN.Installer.Upgrade

/-!
# What the scripts of an upgrade do

One specification for each script, on the machine that is the host itself, where a command may go
in any way and the panel may commit anything. They say what is there after a script that
**succeeded**, and what a script leaves alone whether it succeeds or not
(`EzOpenPN.Upgrade.wp_same`); what a script is proved to do here it also does on every machine that
refines the host.
-/

namespace EzOpenPN.Upgrade

open Script

variable {rel : Version → Release} {h : Host}

theorem spares_mono {c : Cmd} {parts parts' : List Part} (hc : c.spares parts = true)
    (hsub : ∀ p ∈ parts', p ∈ parts) : c.spares parts' = true :=
  List.all_eq_true.mpr fun p hp => List.all_eq_true.mp hc p (hsub p hp)

/-- A script of commands that spare some parts leaves them alone. -/
theorem wp_same {α : Type} {p : Shell α} (parts : List Part) (hdatabase : .database ∉ parts)
    (hp : p.Only fun c => c.spares parts = true) (h : Host) :
    wp (hostMachine rel) (Host.Same parts h) p (fun _ => Host.Same parts h) h := by
  refine hp.keeps (fun c hc t x ht => ?_) h (Host.Same.refl parts h)
  exact ht.trans (Host.Same.perform hc hdatabase x.outcome x.panel t)

/-- The same, beside what the script does. -/
theorem wp_with_same {p : Shell Bool} {R : Host → Prop} (parts : List Part)
    (hR : wp (hostMachine rel) (fun _ => True) p (fun ok t => ok = true → R t) h)
    (hdatabase : .database ∉ parts) (hp : p.Only fun c => c.spares parts = true) :
    wp (hostMachine rel) (fun _ => True) p
      (fun ok t => ok = true → R t ∧ Host.Same parts h t) h := by
  refine wp_mono (wp_and hR (wp_same parts hdatabase hp h)) (fun _ _ => trivial) ?_
  rintro ok t ⟨hR, hsame⟩ hok
  exact ⟨hR hok, hsame⟩

/-- The same, of a script that succeeds. -/
theorem wp_spares {p : Shell Bool} (parts : List Part) (hdatabase : .database ∉ parts)
    (hp : p.Only fun c => c.spares parts = true) :
    wp (hostMachine rel) (fun _ => True) p (fun ok t => ok = true → Host.Same parts h t) h :=
  wp_mono (wp_same parts hdatabase hp h) (fun _ _ => trivial) fun _ _ ht _ => ht

/-! ### Files that are replaced -/

/-- A file has a content. -/
def Host.Holds (h : Host) : ManagedContent → Prop
  | .state version => h.version = version
  | .journal journal => h.journal = some journal
  | .checkpoint phase => h.checkpoint = some (.upgrade phase)

theorem Host.Holds.commit {content : ManagedContent} (hc : h.Holds content)
    (changes : List Change) : (h.commit changes).Holds content := by
  cases content with
  | state v => exact (commit_same (p := .version) nofun h changes).trans hc
  | journal j => exact (commit_same (p := .journal) nofun h changes).trans hc
  | checkpoint p => exact (commit_same (p := .checkpoint) nofun h changes).trans hc

theorem holds_of_replace {content : ManagedContent} {o : Outcome}
    (hs : ((Cmd.replace content).effect rel o h).1 = true) :
    ((Cmd.replace content).effect rel o h).2.Holds content := by
  simp only [Cmd.effect] at hs ⊢
  split at hs
  · rename_i htmp
    rw [if_pos htmp, Outcome.apply_of_status hs]
    cases content <;> rfl
  · cases hs

theorem Host.Holds.discard {content : ManagedContent} (hc : h.Holds content) (o : Outcome) :
    ((Cmd.discard content.file).effect rel o h).2.Holds content := by
  cases content with
  | state v => exact (effect_same (p := .version) rfl o h).trans hc
  | journal j => exact (effect_same (p := .journal) rfl o h).trans hc
  | checkpoint p => exact (effect_same (p := .checkpoint) rfl o h).trans hc

/-- **A file that was replaced has its content.** -/
theorem wp_atomicWrite (content : ManagedContent) (h : Host) :
    wp (hostMachine rel) (fun _ => True) (atomicWrite content)
      (fun ok t => ok = true → t.Holds content) h := by
  rw [atomicWrite, wp_bind]
  refine fun x => ⟨trivial, wp_ite.mpr ⟨fun _ => ?_, fun _ => nofun⟩⟩
  rw [wp_bind, wp_all_cons]
  refine fun y => ⟨trivial, fun _ => ?_, fun _ z => ⟨trivial, nofun⟩⟩
  rw [wp_all_cons]
  refine fun z => ⟨trivial, fun hreplaced => ?_, fun _ v => ⟨trivial, nofun⟩⟩
  exact fun v => ⟨trivial, fun _ => (((holds_of_replace hreplaced).commit _).discard _).commit _⟩

/-! ### Going back -/

/-- A journal that is accepted is read as it is. -/
theorem eq_of_readJournal {j : Journal} {v : UpgradeVars} (hread : readJournal h j = some v) :
    v = ⟨j.currentVersion, j.targetVersion, j.oldCurrent, j.preimage, j.stage⟩ ∧
      (j.phase ≠ .prepared → h.hasArchive j.preimage = true) ∧
        (h.stages j.stage).isSome = true := by
  rw [readJournal] at hread
  split at hread
  · cases hread
  · rename_i harchive
    split at hread
    · rename_i hstage
      refine ⟨(Option.some.inj hread).symm, fun hphase => ?_, hstage⟩
      by_contra hmissing
      exact harchive ⟨hphase, by simpa using hmissing⟩
    · cases hread

/-- **The directory of the release is the saved one.** -/
theorem wp_restoreCurrentRelease (vars : UpgradeVars) (h : Host) :
    wp (hostMachine rel) (fun _ => True) (restoreCurrentRelease vars)
      (fun ok t => ok = true → ∃ stage tree, h.stages vars.stage = some stage ∧
        stage.releaseBefore = some tree ∧ t.releases vars.currentVersion = some tree) h := by
  have hplace : ∀ t, Host.Same [.stages] h t →
      wp (hostMachine rel) (fun _ => True)
        (all [run (.placeRelease vars.stage vars.currentVersion)])
        (fun ok u => ok = true → ∃ stage tree, h.stages vars.stage = some stage ∧
          stage.releaseBefore = some tree ∧ u.releases vars.currentVersion = some tree) t := by
    intro t hsame
    have hstages : t.stages = h.stages := hsame .stages (by simp)
    refine wp_all_of (R := fun u => ∃ stage tree, h.stages vars.stage = some stage ∧
      stage.releaseBefore = some tree ∧ u.releases vars.currentVersion = some tree) ?_
      fun u hu _ => hu
    refine fun x => ⟨trivial, fun hok => ?_⟩
    simp only [hostMachine, Cmd.effect, hstages] at hok ⊢
    cases hstage : h.stages vars.stage with
    | none => simp [hstage] at hok
    | some stage =>
      cases htree : stage.releaseBefore with
      | none => simp [hstage, htree] at hok
      | some tree =>
        simp only [hstage, htree, Option.bind_some] at hok ⊢
        refine ⟨stage, tree, rfl, htree, ?_⟩
        rw [Outcome.apply_of_status hok]
        refine (congrFun (commit_same (p := .releases) (by simp) _ _) _).trans ?_
        simp [Host.setRelease]
  refine wp_all_of (R := Host.Same [.stages] h) ?_ fun t ht =>
    wp_all_of (R := Host.Same [.stages] h) ?_ hplace
  · exact wp_mono (wp_same [.stages] (by decide) (.run rfl) h) (fun _ _ => trivial) fun _ t ht _ => ht
  · refine wp_mono (wp_same [.stages] (by decide) (only_removeRelease rfl) t) (fun _ _ => trivial) ?_
    exact fun _ u hu _ => ht.trans hu

/-- How far an archive is applied. -/
structure Applied (archives : List Archive) (archive : Archive) (files : List ConfigFile)
    (secrets : Bool) (t : Host) : Prop where
  archives_eq : t.archives = archives
  config : ∀ f ∈ files, t.config f = archive.config f
  secrets : secrets = true → t.secrets = archive.secrets

section Apply

variable {archive : Archive} {a : ℕ} {files : List ConfigFile} {secrets : Bool} {t : Host}

theorem wp_restoreConfig {archives : List Archive} (ha : archives[a]? = some archive)
    (f : ConfigFile) (ht : Applied archives archive files secrets t) :
    wp (hostMachine rel) (fun _ => True) (run (.restoreConfig a f))
      (fun ok u => ok = true → Applied archives archive (f :: files) secrets u) t := by
  refine fun x => ⟨trivial, fun hok => ?_⟩
  have hsame : Host.Same [.archives, .secrets] t
      ((hostMachine rel).perform (.restoreConfig a f) x t).2 :=
    Host.Same.perform rfl (by decide) x.outcome x.panel t
  have harchives := hsame .archives (by decide)
  have hsecrets := hsame .secrets (by decide)
  have hconfig : ((hostMachine rel).perform (.restoreConfig a f) x t).2.config =
      Function.update t.config f (archive.config f) := by
    refine (commit_same (p := .config) nofun _ _).trans ?_
    simp only [hostMachine, Cmd.effect, ht.archives_eq, ha] at hok ⊢
    rw [Outcome.apply_of_status hok]
    rfl
  refine ⟨harchives.trans ht.archives_eq, ?_, fun hb => hsecrets.trans (ht.secrets hb)⟩
  intro g hg
  rw [hconfig]
  by_cases hfg : g = f
  · subst hfg
    simp
  · rw [Function.update_of_ne hfg]
    exact ht.config g ((List.mem_cons.mp hg).resolve_left hfg)

theorem wp_restoreSecrets {archives : List Archive} (ha : archives[a]? = some archive)
    (ht : Applied archives archive files secrets t) :
    wp (hostMachine rel) (fun _ => True) (run (.restoreSecrets a))
      (fun ok u => ok = true → Applied archives archive files true u) t := by
  refine fun x => ⟨trivial, fun hok => ?_⟩
  have hsame : Host.Same [.archives, .config] t
      ((hostMachine rel).perform (.restoreSecrets a) x t).2 :=
    Host.Same.perform rfl (by decide) x.outcome x.panel t
  have hconfig : ((hostMachine rel).perform (.restoreSecrets a) x t).2.config = t.config :=
    hsame .config (by decide)
  have hsecrets : ((hostMachine rel).perform (.restoreSecrets a) x t).2.secrets = archive.secrets := by
    refine (commit_same (p := .secrets) nofun _ _).trans ?_
    simp only [hostMachine, Cmd.effect, ht.archives_eq, ha] at hok ⊢
    rw [Outcome.apply_of_status hok]
  refine ⟨(hsame .archives (by decide)).trans ht.archives_eq, ?_, fun _ => hsecrets⟩
  rw [hconfig]
  exact ht.config

/-- **Configuration and secrets are those of the archive**, which was of the same version. -/
theorem wp_restorePreimage (a : ℕ) (h : Host) :
    wp (hostMachine rel) (fun _ => True) (restorePreimage (some a))
      (fun ok t => ok = true → ∃ archive, h.archives[a]? = some archive ∧
        archive.version = h.version ∧ t.config = archive.config ∧ t.secrets = archive.secrets) h := by
  cases ha : h.archives[a]? with
  | none =>
    refine wp_all_of (R := fun _ => False) ?_ fun _ hf => hf.elim
    intro x
    refine ⟨trivial, fun hok => ?_⟩
    simp [hostMachine, Cmd.effect, ha] at hok
  | some archive =>
    refine wp_all_of (R := fun t => archive.version = h.version ∧
      Applied h.archives archive [] false t) ?_ ?_
    · refine fun x => ⟨trivial, fun hok => ⟨?_, ?_, by simp, by simp⟩⟩
      · simp only [hostMachine, Cmd.effect, ha] at hok
        split at hok
        · assumption
        · cases hok
      · have hsame : Host.Same [.archives] h ((hostMachine rel).perform (.extract a) x h).2 :=
          Host.Same.perform rfl (by decide) x.outcome x.panel h
        exact hsame .archives (by decide)
    rintro t ⟨hversion, ht⟩
    refine wp_all_of (R := Applied h.archives archive [] false) ?_ fun t ht => ?_
    · refine fun x => ⟨trivial, fun _ => ⟨?_, by simp, by simp⟩⟩
      have hsame : Host.Same [.archives] t ((hostMachine rel).perform (.restoreDatabase a) x t).2 :=
        Host.Same.perform rfl (by decide) x.outcome x.panel t
      exact (hsame .archives (by decide)).trans ht.archives_eq
    refine wp_all_of (wp_restoreConfig ha .controlToml ht) fun t ht => ?_
    refine wp_all_of (wp_restoreConfig ha .caddyfile ht) fun t ht => ?_
    refine wp_all_of (wp_restoreConfig ha .composeYaml ht) fun t ht => ?_
    refine wp_all_of (wp_restoreConfig ha .stackEnv ht) fun t ht => ?_
    refine wp_all_of (wp_restoreSecrets ha ht) fun t ht => ?_
    refine wp_all_of (wp_restoreConfig ha .xrayConfig ht) fun t ht => ?_
    refine wp_all_of (wp_restoreConfig ha .hysteriaConfig ht) fun t ht _ => ?_
    refine ⟨archive, rfl, hversion, ?_, ht.secrets rfl⟩
    funext f
    refine ht.config f ?_
    cases f <;> decide

end Apply

theorem only_restoreCurrentRelease {P : Cmd → Prop} {vars : UpgradeVars}
    (hcopy : P (.copyBack vars.stage)) (hremove : P (.removeRelease vars.currentVersion))
    (hplace : P (.placeRelease vars.stage vars.currentVersion)) :
    (restoreCurrentRelease vars).Only P :=
  .all (by simpa using ⟨.run hcopy, only_removeRelease hremove, .run hplace⟩)

theorem only_restorePreimage {P : Cmd → Prop} {preimage : Option ℕ} (hextract : ∀ a, P (.extract a))
    (hdatabase : ∀ a, preimage = some a → P (.restoreDatabase a))
    (hconfig : ∀ a f, P (.restoreConfig a f)) (hsecrets : ∀ a, P (.restoreSecrets a)) :
    (restorePreimage preimage).Only P := by
  cases preimage with
  | none => exact trivial
  | some a =>
    refine .all ?_
    simp only [List.forall_mem_cons, List.not_mem_nil, false_implies, implies_true, and_true]
    exact ⟨.run (hextract a), .run (hdatabase a rfl), .run (hconfig a _), .run (hconfig a _),
      .run (hconfig a _), .run (hconfig a _), .run (hsecrets a), .run (hconfig a _),
      .run (hconfig a _)⟩

/-- **The original release is returned**, but for the tools: its directory and its link, the version
of the state, configuration and secrets. -/
structure Returned (vars : UpgradeVars) (h t : Host) : Prop where
  release : ∃ stage tree, h.stages vars.stage = some stage ∧ stage.releaseBefore = some tree ∧
    t.releases vars.currentVersion = some tree
  current : t.current = some vars.oldCurrent
  version : t.version = vars.currentVersion
  archive : ∃ a archive, vars.preimage = some a ∧ h.archives[a]? = some archive ∧
    archive.version = vars.currentVersion ∧ t.config = archive.config ∧ t.secrets = archive.secrets

theorem wp_switchCurrent (v : Version) (h : Host) :
    wp (hostMachine rel) (fun _ => True) (run (.switchCurrent v))
      (fun ok t => ok = true → t.current = some v) h := by
  refine fun x => ⟨trivial, fun hok => (commit_same (p := .current) nofun _ _).trans ?_⟩
  simp only [hostMachine, Cmd.effect] at hok ⊢
  rw [Outcome.apply_of_status hok]

theorem wp_rollbackSteps (vars : UpgradeVars) (h : Host) :
    wp (hostMachine rel) (fun _ => True) (rollbackSteps vars)
      (fun ok t => ok = true → Returned vars h t) h := by
  -- a step has to leave alone what was restored before it and what is still to be read
  refine wp_all_of (wp_spares [.stages, .archives] (by decide) (.run rfl)) fun t₁ hsame₁ => ?_
  refine wp_all_of (wp_with_same [.archives] (wp_restoreCurrentRelease vars t₁) (by decide)
    (only_restoreCurrentRelease rfl rfl rfl)) ?_
  rintro t₂ ⟨hrelease, hsame₂⟩
  refine wp_all_of (wp_with_same [.archives, .releases] (wp_switchCurrent vars.oldCurrent t₂)
    (by decide) (.run rfl)) ?_
  rintro t₃ ⟨hcurrent, hsame₃⟩
  refine wp_all_of (wp_spares [.archives, .releases, .current] (by decide)
    (only_restoreHostTools (fun _ => rfl) (fun _ => rfl) rfl)) fun t₄ hsame₄ => ?_
  refine wp_all_of (wp_with_same [.archives, .releases, .current]
    (wp_atomicWrite (.state vars.currentVersion) t₄) (by decide)
    (only_atomicWrite rfl rfl rfl rfl)) ?_
  rintro t₅ ⟨hversion, hsame₅⟩
  have harchives : t₅.archives = h.archives :=
    (hsame₅ .archives (by decide)).trans ((hsame₄ .archives (by decide)).trans
      ((hsame₃ .archives (by decide)).trans ((hsame₂ .archives (by decide)).trans
        (hsame₁ .archives (by decide)))))
  have hreleases : t₅.releases = t₂.releases :=
    (hsame₅ .releases (by decide)).trans ((hsame₄ .releases (by decide)).trans
      (hsame₃ .releases (by decide)))
  have hlink : t₅.current = t₃.current :=
    (hsame₅ .current (by decide)).trans (hsame₄ .current (by decide))
  cases hpreimage : vars.preimage with
  | none => exact wp_all_of (R := fun _ => False) nofun fun _ hf => hf.elim
  | some a =>
    refine wp_all_of (wp_with_same [.releases, .current, .version] (wp_restorePreimage a t₅)
      (by decide) (only_restorePreimage (fun _ => rfl) (fun _ _ => rfl) (fun _ _ => rfl)
        fun _ => rfl)) ?_
    rintro t₆ ⟨⟨archive, harchive, hsameVersion, hconfig, hsecrets⟩, hsame₆⟩
    refine wp_all_of (wp_spares [.releases, .current, .version, .config, .secrets] (by decide)
      (.run rfl)) fun t₇ hsame₇ => ?_
    refine wp_all_of (wp_spares [.releases, .current, .version, .config, .secrets] (by decide)
      (.run rfl)) fun t₈ hsame₈ _ => ?_
    have hsame := hsame₇.trans hsame₈
    have hreleases' : t₈.releases = t₅.releases :=
      (hsame .releases (by decide)).trans (hsame₆ .releases (by decide))
    have hcurrent' : t₈.current = t₅.current :=
      (hsame .current (by decide)).trans (hsame₆ .current (by decide))
    have hversion' : t₈.version = t₅.version :=
      (hsame .version (by decide)).trans (hsame₆ .version (by decide))
    obtain ⟨stage, tree, hstage, htree, hplaced⟩ := hrelease
    refine ⟨⟨stage, tree, ?_, htree, ?_⟩, ?_, ?_, a, archive, hpreimage, ?_, ?_, ?_, ?_⟩
    · exact (congrFun (hsame₁ .stages (by decide)) _).symm.trans hstage
    · rw [hreleases', hreleases]
      exact hplaced
    · rw [hcurrent', hlink]
      exact hcurrent
    · rw [hversion']
      exact hversion
    · rw [← harchives]
      exact harchive
    · rw [hsameVersion]
      exact hversion
    · exact (hsame .config (by decide)).trans hconfig
    · exact (hsame .secrets (by decide)).trans hsecrets

/-! ### Going forward -/

theorem releases_of_installRelease {v : Version} {x : Choice}
    (hok : ((hostMachine rel).perform (.installRelease v) x h).1 = true) :
    ((hostMachine rel).perform (.installRelease v) x h).2.releases v = some (rel v).tree := by
  refine (congrFun (commit_same (p := .releases) nofun _ _) v).trans ?_
  simp only [hostMachine, Cmd.effect] at hok ⊢
  split at hok
  · rename_i hguard
    rw [if_pos hguard, Outcome.apply_of_status hok]
    simp [Host.setRelease]
  · cases hok

/-- The release is in its directory, and the link points there. -/
theorem wp_installReleaseFiles (v : Version) (h : Host) :
    wp (hostMachine rel) (fun _ => True) (installReleaseFiles v)
      (fun ok t => ok = true → t.releases v = some (rel v).tree ∧ t.current = some v) h := by
  refine wp_all_of (R := fun t => t.releases v = some (rel v).tree) ?_ fun t ht => ?_
  · exact fun x => ⟨trivial, fun hok => releases_of_installRelease hok⟩
  · refine wp_all_of (wp_with_same [.releases] (wp_switchCurrent v t) (by decide) (.run rfl)) ?_
    rintro u ⟨hcurrent, hsame⟩ -
    exact ⟨(congrFun (hsame .releases (by decide)) v).trans ht, hcurrent⟩

/-- How far the rendered configuration is installed. -/
structure Rendered (stages : ℕ → Option Stage) (stage : Stage) (files : List ConfigFile) (t : Host) :
    Prop where
  stages_eq : t.stages = stages
  config : ∀ f ∈ files, stage.rendered f = some (t.config f)

theorem wp_installConfig {stages : ℕ → Option Stage} {s : ℕ} {stage : Stage} {t : Host}
    {files : List ConfigFile} (hs : stages s = some stage) (f : ConfigFile)
    (ht : Rendered stages stage files t) :
    wp (hostMachine rel) (fun _ => True) (run (.installConfig s f))
      (fun ok u => ok = true → Rendered stages stage (f :: files) u) t := by
  refine fun x => ⟨trivial, fun hok => ?_⟩
  have hsame : Host.Same [.stages] t ((hostMachine rel).perform (.installConfig s f) x t).2 :=
    Host.Same.perform rfl (by decide) x.outcome x.panel t
  refine ⟨(hsame .stages (by decide)).trans ht.stages_eq, ?_⟩
  cases hrendered : stage.rendered f with
  | none => simp [hostMachine, Cmd.effect, ht.stages_eq, hs, hrendered] at hok
  | some content =>
    have hconfig : ((hostMachine rel).perform (.installConfig s f) x t).2.config =
        Function.update t.config f content := by
      refine (commit_same (p := .config) (by simp) _ _).trans ?_
      simp only [hostMachine, Cmd.effect, ht.stages_eq, hs, Option.bind_some, hrendered] at hok ⊢
      rw [Outcome.apply_of_status hok]
      rfl
    intro g hg
    rw [hconfig]
    by_cases hfg : g = f
    · subst hfg
      simp [hrendered]
    · rw [Function.update_of_ne hfg]
      exact ht.config g ((List.mem_cons.mp hg).resolve_left hfg)

theorem wp_installRendered {s : ℕ} {stage : Stage} (hs : h.stages s = some stage) :
    wp (hostMachine rel) (fun _ => True) (installRendered s)
      (fun ok t => ok = true → ∀ f, stage.rendered f = some (t.config f)) h := by
  have hstart : Rendered h.stages stage [] h := ⟨rfl, by simp⟩
  refine wp_all_of (wp_installConfig hs .controlToml hstart) fun t ht => ?_
  refine wp_all_of (wp_installConfig hs .caddyfile ht) fun t ht => ?_
  refine wp_all_of (wp_installConfig hs .composeYaml ht) fun t ht => ?_
  refine wp_all_of (wp_installConfig hs .stackEnv ht) fun t ht => ?_
  refine wp_all_of (wp_installConfig hs .xrayConfig ht) fun t ht => ?_
  refine wp_all_of (wp_installConfig hs .hysteriaConfig ht) fun t ht _ f => ?_
  refine ht.config f ?_
  cases f <;> decide

theorem tools_of_installTool {v : Version} {tool : HostTool} {x : Choice}
    (hok : ((hostMachine rel).perform (.installTool v tool) x h).1 = true) :
    ((hostMachine rel).perform (.installTool v tool) x h).2.tools =
      Function.update h.tools tool (some ((rel v).tool tool)) := by
  refine (commit_same (p := .tools) nofun _ _).trans ?_
  simp only [hostMachine, Cmd.effect] at hok ⊢
  split at hok
  · rename_i hguard
    rw [if_pos hguard]
    cases ho : x.outcome with
    | ok => rfl
    | _ => simp [ho, Outcome.status] at hok
  · cases hok

theorem wp_installHostTools (v : Version) (h : Host) :
    wp (hostMachine rel) (fun _ => True) (installHostTools v)
      (fun ok t => ok = true → ∀ tool, t.tools tool = some ((rel v).tool tool)) h := by
  refine wp_all_of (R := fun t => t.tools .unit = some ((rel v).tool .unit)) ?_ fun t ht => ?_
  · refine fun x => ⟨trivial, fun hok => ?_⟩
    rw [tools_of_installTool hok]
    simp
  refine wp_all_of (R := fun u => ∀ tool, u.tools tool = some ((rel v).tool tool)) ?_ fun u hu => ?_
  · refine fun x => ⟨trivial, fun hok tool => ?_⟩
    rw [tools_of_installTool hok]
    cases tool with
    | unit =>
      have hne : HostTool.unit ≠ .cli := nofun
      rw [Function.update_of_ne hne]
      exact ht
    | cli => simp
  · refine wp_all_of (wp_spares [.tools] (by decide) (.run rfl)) fun w hw _ tool => ?_
    exact (congrFun (hw .tools (by decide)) tool).trans (hu tool)

/-- **Everything belongs to one release.** -/
structure OneRelease (rel : Version → Release) (v : Version) (h : Host) : Prop where
  version : h.version = v
  current : h.current = some v
  release : h.releases v = some (rel v).tree
  config : ∀ f, h.config f = (rel v).config f
  tools : ∀ tool, h.tools tool = some ((rel v).tool tool)

theorem only_writeJournal {P : Cmd → Prop} {vars : UpgradeVars} {phase : Phase}
    (hcreate : ∀ m, P (.create m)) (hwrite : ∀ m, P (.write m)) (hdiscard : ∀ m, P (.discard m))
    (hjournal : P (.replace (.journal (vars.journal phase))))
    (hcheckpoint : P (.replace (.checkpoint phase))) : (writeJournal vars phase).Only P :=
  .bind (only_atomicWrite (hcreate _) (hwrite _) hjournal (hdiscard _)) fun _ =>
    only_atomicWrite (hcreate _) (hwrite _) hcheckpoint (hdiscard _)

/-- The steps of a rollback, of which none is about the journal. -/
theorem only_rollbackSteps_of {P : Cmd → Prop} {vars : UpgradeVars}
    (h : ∀ {c : Cmd}, c.spares [.stages, .archives, .journal, .checkpoint] = true → P c) :
    (rollbackSteps vars).Only P := by
  refine .all ?_
  simp only [List.forall_mem_cons, List.not_mem_nil, false_implies, implies_true, and_true]
  exact ⟨.run (h rfl), only_restoreCurrentRelease (h rfl) (h rfl) (h rfl), .run (h rfl),
    only_restoreHostTools (fun _ => h rfl) (fun _ => h rfl) (h rfl),
    only_atomicWrite (h rfl) (h rfl) (h rfl) (h rfl),
    only_restorePreimage (fun _ => h rfl) (fun _ _ => h rfl) (fun _ _ => h rfl) fun _ => h rfl,
    .run (h rfl), .run (h rfl)⟩

/-- The steps of a switch, which write the journal in phases after `prepared`. -/
theorem only_switchRelease_of {P : Cmd → Prop} {vars : UpgradeVars}
    (h : ∀ {c : Cmd}, c.spares [.stages, .archives, .journal, .checkpoint] = true → P c)
    (hjournal : ∀ {phase}, phase ≠ .prepared → P (.replace (.journal (vars.journal phase))))
    (hcheckpoint : ∀ phase, P (.replace (.checkpoint phase))) : (switchRelease vars).Only P := by
  have hwrite : ∀ {phase : Phase}, phase ≠ .prepared → (writeJournal vars phase).Only P :=
    fun hphase => only_writeJournal (fun _ => h rfl) (fun _ => h rfl) (fun _ => h rfl)
      (hjournal hphase) (hcheckpoint _)
  refine .firstFailure ?_
  simp only [List.forall_mem_cons, List.not_mem_nil, false_implies, implies_true, and_true]
  refine ⟨only_removeRelease (h rfl), ?_, ?_, ?_, hwrite nofun, .run (h rfl), hwrite nofun,
    .run (h rfl), .run (h rfl), hwrite nofun, only_atomicWrite (h rfl) (h rfl) (h rfl) (h rfl)⟩
  · exact .all (by simpa using ⟨.run (h rfl), .run (h rfl)⟩)
  · refine .all ?_
    simp only [List.forall_mem_cons, List.not_mem_nil, false_implies, implies_true, and_true]
    exact ⟨.run (h rfl), .run (h rfl), .run (h rfl), .run (h rfl), .run (h rfl), .run (h rfl)⟩
  · exact .all (by simpa using ⟨.run (h rfl), .run (h rfl), .run (h rfl)⟩)

/-- **A switch that succeeds ends in the target release.** -/
theorem wp_switchRelease {vars : UpgradeVars} {stage : Stage}
    (hs : h.stages vars.stage = some stage)
    (hrendered : ∀ f, stage.rendered f = some ((rel vars.targetVersion).config f)) :
    wp (hostMachine rel) (fun _ => True) (switchRelease vars)
      (fun e t => e = none → OneRelease rel vars.targetVersion t) h := by
  refine wp_firstFailure_of (wp_spares [.stages] (by decide) (only_removeRelease rfl))
    fun t₁ hsame₁ => ?_
  refine wp_firstFailure_of (wp_with_same [.stages] (wp_installReleaseFiles vars.targetVersion t₁)
    (by decide) (.all (by simpa using ⟨.run rfl, .run rfl⟩))) ?_
  rintro t₂ ⟨⟨hrelease, hcurrent⟩, hsame₂⟩
  have hstage : t₂.stages vars.stage = some stage :=
    (congrFun (hsame₁.trans hsame₂ .stages (by decide)) _).trans hs
  refine wp_firstFailure_of (wp_with_same [.releases, .current] (wp_installRendered hstage)
    (by decide) (.all ?_)) ?_
  · simp only [List.forall_mem_cons, List.not_mem_nil, false_implies, implies_true, and_true]
    exact ⟨.run rfl, .run rfl, .run rfl, .run rfl, .run rfl, .run rfl⟩
  rintro t₃ ⟨hconfig, hsame₃⟩
  refine wp_firstFailure_of (wp_with_same [.releases, .current, .config]
    (wp_installHostTools vars.targetVersion t₃) (by decide)
    (.all (by simpa using ⟨.run rfl, .run rfl, .run rfl⟩))) ?_
  rintro t₄ ⟨htools, hsame₄⟩
  -- nothing of it is touched from here on
  have hjournal : ∀ phase, (writeJournal vars phase).Only
      fun c => c.spares [.releases, .current, .config, .tools] = true := fun phase =>
    only_writeJournal (fun _ => rfl) (fun _ => rfl) (fun _ => rfl) rfl rfl
  have hspares : ∀ (t : Host) {p : Shell Bool},
      p.Only (fun c => c.spares [.releases, .current, .config, .tools] = true) →
      wp (hostMachine rel) (fun _ => True) p
        (fun ok u => ok = true → Host.Same [.releases, .current, .config, .tools] t u) t :=
    fun t _ hp => wp_spares [.releases, .current, .config, .tools] (by decide) hp
  refine wp_firstFailure_of (hspares t₄ (hjournal .switched)) fun t₅ hsame₅ => ?_
  refine wp_firstFailure_of (hspares t₅ (.run rfl)) fun t₆ hsame₆ => ?_
  refine wp_firstFailure_of (hspares t₆ (hjournal .migrated)) fun t₇ hsame₇ => ?_
  refine wp_firstFailure_of (hspares t₇ (.run rfl)) fun t₈ hsame₈ => ?_
  refine wp_firstFailure_of (hspares t₈ (.run rfl)) fun t₉ hsame₉ => ?_
  refine wp_firstFailure_of (hspares t₉ (hjournal .committing)) fun t₁₀ hsame₁₀ => ?_
  refine wp_firstFailure_of (wp_with_same [.releases, .current, .config, .tools]
    (wp_atomicWrite (.state vars.targetVersion) t₁₀) (by decide)
    (only_atomicWrite rfl rfl rfl rfl)) ?_
  rintro t ⟨hversion, hsame₁₁⟩ -
  have hsame : Host.Same [.releases, .current, .config, .tools] t₄ t :=
    hsame₅.trans (hsame₆.trans (hsame₇.trans (hsame₈.trans (hsame₉.trans
      (hsame₁₀.trans hsame₁₁)))))
  refine ⟨hversion, ?_, ?_, fun f => ?_, fun tool => ?_⟩
  · exact (hsame .current (by decide)).trans ((hsame₄ .current (by decide)).trans
      ((hsame₃ .current (by decide)).trans hcurrent))
  · have hreleases : t.releases = t₂.releases :=
      (hsame .releases (by decide)).trans ((hsame₄ .releases (by decide)).trans
        (hsame₃ .releases (by decide)))
    rw [hreleases]
    exact hrelease
  · have heq : t.config = t₃.config :=
      (hsame .config (by decide)).trans (hsame₄ .config (by decide))
    rw [heq]
    exact Option.some.inj ((hconfig f).symm.trans (hrendered f))
  · exact (congrFun (hsame .tools (by decide)) tool).trans (htools tool)

end EzOpenPN.Upgrade
