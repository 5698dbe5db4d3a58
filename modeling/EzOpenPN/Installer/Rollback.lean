import EzOpenPN.Installer.UpgradeSteps

/-!
# What a cancelled upgrade returns

A transaction of `installer/lib/upgrade.sh` that ends in `E_UPGRADE_HEALTH` tells the operator that
the new release was cancelled and the original one returned. This file follows the host through a
transaction with any failures and compares what it ends in with the host at the time the stack was
stopped: version, link, directory of the release, configuration, database, secrets and tools.

Almost everything is returned, because almost every status is asked for. The exception are the tools
outside of the directories, the unit of `systemd` and the command `ezopenpn`: what
`_upgrade_save_host_tools` copies and marks and what `_upgrade_restore_host_tools` installs and
unlinks may fail without anyone noticing. `EzOpenPN.Upgrade.rolledBack_exact_iff` says that this is
the only way: a cancelled upgrade is exact **if and only if every command that returns a tool leaves
it as it was**.

The panel goes on when the stack is started again, so the database is what it was with the changes
that were committed since the last stop.
-/

namespace EzOpenPN.Upgrade

open Script

/-! ### Following a transaction -/

/-- The host, what it was when the stack was first stopped, and what the panel has committed since
the stack was last stopped. -/
structure Followed where
  host : Host
  stopped : Option Host
  since : List Change

/-- The command that stops the stack. -/
def Cmd.stops : Cmd → Bool
  | .service .stop => true
  | _ => false

/-- What a command leaves, with what the panel commits after it. -/
def Followed.after (s : Followed) (c : Cmd) (x : Choice) (h : Host) : Followed where
  host := h.commit x.panel
  stopped := if c.stops && s.stopped.isNone then some (h.commit x.panel) else s.stopped
  since := if c.stops then [] else if h.running then s.since ++ x.panel else s.since

/-- **A command returns a tool as it was** when the stack was stopped: what it writes is the copy in
the stage, and what it does not write stays. -/
def Cmd.Returns (b : Host) (c : Cmd) (o : Outcome) (h : Host) : Prop :=
  match c with
  | .restoreTool s t =>
    match (h.stages s).bind fun stage => stage.copy t with
    | some copy => o.leaves (some copy) (h.tools t) = b.tools t
    | none => h.tools t = b.tools t
  | .unlinkTool t => (if o.took then none else h.tools t) = b.tools t
  | _ => True

instance (b : Host) (c : Cmd) (o : Outcome) (h : Host) : Decidable (c.Returns b o h) := by
  unfold Cmd.Returns
  split
  · split <;> infer_instance
  · infer_instance
  · infer_instance

/-- **Everything is what it was when the stack was stopped.** -/
structure AsStopped (b : Host) (s : Followed) : Prop where
  version : s.host.version = b.version
  current : s.host.current = b.current
  release : ∀ v, b.current = some v → s.host.releases v = b.releases v
  config : s.host.config = b.config
  database : s.host.database = ⟨b.database.schema, b.database.changes ++ s.since⟩
  secrets : s.host.secrets = b.secrets
  tools : s.host.tools = b.tools

section Machine

variable (rel : Version → Release)

/-- The host as a machine that is followed. -/
def followedMachine : Machine Host Cmd Choice Followed where
  obs := Followed.host
  perform c x s :=
    ((c.effect rel x.outcome s.host).1, s.after c x (c.effect rel x.outcome s.host).2)

/-- The machine with whether every tool was returned as it was. -/
def returnMachine : Machine Host Cmd Choice (Followed × Prop) :=
  (followedMachine rel).watch fun c x s => ∀ b, s.stopped = some b → c.Returns b x.outcome s.host

end Machine

variable {rel : Version → Release} {b h t : Host} {s : Followed} {c : Cmd} {v : UpgradeVars}

/-- What is proved of the host holds when it is followed. -/
theorem wp_followed {α : Type} {p : Shell α} {I : Host → Prop} {Q : α → Host → Prop}
    {w : Followed × Prop} (hp : wp (hostMachine rel) I p Q w.1.host) :
    wp (returnMachine rel) (fun _ => True) p (fun a t => Q a t.1.host) w := by
  have hrefines : Refines (returnMachine rel) (hostMachine rel) fun w => w.1.host :=
    ⟨fun _ => rfl, fun _ x _ => ⟨x, rfl, rfl⟩⟩
  exact wp_mono (wp_of_refines hrefines hp) (fun _ _ => trivial) fun _ _ ht => ht

/-- A script keeps what its commands keep. -/
theorem wp_keeping {α : Type} {p : Shell α} {P : Cmd → Prop} {J : Followed × Prop → Prop}
    {w : Followed × Prop} (hp : p.Only P)
    (hJ : ∀ c, P c → ∀ w x, J w → J ((returnMachine rel).perform c x w).2) (hw : J w) :
    wp (returnMachine rel) (fun _ => True) p (fun _ => J) w :=
  wp_mono (hp.keeps hJ w hw) (fun _ _ => trivial) fun _ _ ht => ht

/-! ### Commands -/

/-- The commands that return no tool. -/
def Cmd.plain : Cmd → Bool
  | .restoreTool _ _ | .unlinkTool _ => false
  | _ => true

theorem returns_of_plain (hc : c.plain = true) (b : Host) (o : Outcome) (h : Host) :
    c.Returns b o h := by
  cases c with
  | restoreTool | unlinkTool => cases hc
  | _ => trivial

section Perform

variable {w : Followed × Prop} {x : Choice}

theorem stopped_of_stops (hc : c.stops = false) :
    ((returnMachine rel).perform c x w).2.1.stopped = w.1.stopped := by
  change (if c.stops && _ then _ else _) = _
  rw [hc]
  rfl

theorem stopped_of_some (hb : w.1.stopped = some b) :
    ((returnMachine rel).perform c x w).2.1.stopped = some b := by
  change (if c.stops && w.1.stopped.isNone then _ else _) = _
  rw [hb, Option.isNone_some, Bool.and_false]
  rfl

theorem met_of_plain (hc : c.plain = true) :
    ((returnMachine rel).perform c x w).2.2 ↔ w.2 :=
  ⟨fun hmet => hmet.1, fun hmet => ⟨hmet, fun b _ => returns_of_plain hc b _ _⟩⟩

/-- Nothing is returned before the stack was stopped. -/
theorem met_of_none (hb : w.1.stopped = none) : ((returnMachine rel).perform c x w).2.2 ↔ w.2 := by
  refine ⟨fun hmet => hmet.1, fun hmet => ⟨hmet, fun b hb' => ?_⟩⟩
  rw [hb] at hb'
  cases hb'

/-- **What the panel commits is in the database**, and is counted. -/
theorem database_perform (hc : c.stops = false) (hspares : c.touches .database = false) :
    ((returnMachine rel).perform c x w).2.1.host.database =
        ⟨b.database.schema, b.database.changes ++ ((returnMachine rel).perform c x w).2.1.since⟩ ↔
      w.1.host.database = ⟨b.database.schema, b.database.changes ++ w.1.since⟩ := by
  have heffect : (c.effect rel x.outcome w.1.host).2.database = w.1.host.database :=
    effect_same (p := .database) hspares x.outcome w.1.host
  change (Host.commit _ _).database = ⟨_, _ ++ (if c.stops then [] else if _ then _ else _)⟩ ↔ _
  rw [hc, if_neg Bool.false_ne_true, Host.commit]
  split
  · dsimp only
    rw [heffect, ← List.append_assoc, Database.mk.injEq, List.append_left_inj]
    exact ⟨fun heq => heq.1 ▸ heq.2 ▸ rfl, fun heq => heq ▸ ⟨rfl, rfl⟩⟩
  · rw [heffect]

end Perform

/-! ### Nothing is left to do -/

/-- The parts that are compared. -/
def comparedParts : List Part :=
  [.version, .current, .releases, .config, .database, .secrets, .tools]

/-- A command that changes nothing of what is compared. -/
def Cmd.Bystander (c : Cmd) : Prop :=
  c.stops = false ∧ c.plain = true ∧ c.spares comparedParts = true

/-- **The comparison is settled**: everything is what it was, or a tool is not and was not returned
as it was. -/
structure Settled (b : Host) (w : Followed × Prop) : Prop where
  stopped : w.1.stopped = some b
  exact_iff : AsStopped b w.1 ↔ w.2

section Bystander

variable {w : Followed × Prop} {x : Choice}

theorem touches_of_bystander (hc : c.Bystander) {p : Part} (hp : p ∈ comparedParts) :
    c.touches p = false := by
  simpa using List.all_eq_true.mp hc.2.2 p hp

/-- **A bystander does not change the comparison.** -/
theorem asStopped_perform (hc : c.Bystander) :
    AsStopped b ((returnMachine rel).perform c x w).2.1 ↔ AsStopped b w.1 := by
  have hpart : ∀ p ∈ comparedParts, p ≠ .database →
      p.Same w.1.host ((returnMachine rel).perform c x w).2.1.host := by
    intro p hp hne
    have hspares : c.spares [p] = true := by simp [Cmd.spares, touches_of_bystander hc hp]
    have hsame : Host.Same [p] w.1.host ((hostMachine rel).perform c x w.1.host).2 :=
      Host.Same.perform hspares (by simpa using hne.symm) x.outcome x.panel w.1.host
    exact hsame p (by simp)
  have hversion := hpart .version (by decide) nofun
  have hcurrent := hpart .current (by decide) nofun
  have hreleases := hpart .releases (by decide) nofun
  have hconfig := hpart .config (by decide) nofun
  have hsecrets := hpart .secrets (by decide) nofun
  have htools := hpart .tools (by decide) nofun
  have hdatabase := @database_perform rel b c w x hc.1 (touches_of_bystander hc (by decide))
  simp only [Part.Same] at hversion hcurrent hreleases hconfig hsecrets htools
  constructor
  · intro h
    exact ⟨hversion ▸ h.version, hcurrent ▸ h.current, hreleases ▸ h.release, hconfig ▸ h.config,
      hdatabase.mp h.database, hsecrets ▸ h.secrets, htools ▸ h.tools⟩
  · intro h
    exact ⟨hversion.trans h.version, hcurrent.trans h.current, hreleases ▸ h.release,
      hconfig.trans h.config, hdatabase.mpr h.database, hsecrets.trans h.secrets,
      htools.trans h.tools⟩

theorem Settled.perform (hw : Settled b w) (hc : c.Bystander) :
    Settled b ((returnMachine rel).perform c x w).2 where
  stopped := stopped_of_some hw.stopped
  exact_iff := (asStopped_perform hc).trans (hw.exact_iff.trans (met_of_plain hc.2.1).symm)

theorem wp_settled {α : Type} {p : Shell α} (hp : p.Only Cmd.Bystander) (hw : Settled b w) :
    wp (returnMachine rel) (fun _ => True) p (fun _ => Settled b) w :=
  wp_keeping hp (fun _ hc _ _ ht => ht.perform hc) hw

theorem only_bystander_clearJournal : clearJournal.Only Cmd.Bystander :=
  only_clearJournal ⟨rfl, rfl, rfl⟩ ⟨rfl, rfl, rfl⟩

theorem only_bystander_writeJournal (v : UpgradeVars) (phase : Phase) :
    (writeJournal v phase).Only
      fun c => c.Bystander ∧ c.spares [.stages, .archives] = true :=
  only_writeJournal (fun _ => ⟨⟨rfl, rfl, rfl⟩, rfl⟩) (fun _ => ⟨⟨rfl, rfl, rfl⟩, rfl⟩)
    (fun _ => ⟨⟨rfl, rfl, rfl⟩, rfl⟩) ⟨⟨rfl, rfl, rfl⟩, rfl⟩ ⟨⟨rfl, rfl, rfl⟩, rfl⟩

end Bystander

/-! ### Tools that are returned -/

section Tools

variable {w : Followed × Prop}

/-- What a command that returns a tool leaves, and that it leaves the other one alone. -/
theorem returns_iff {c : Cmd} {tool : HostTool}
    (hc : (∃ stage, c = .restoreTool stage tool) ∨ c = .unlinkTool tool) (o : Outcome) (h : Host) :
    (c.Returns b o h ↔ (c.effect rel o h).2.tools tool = b.tools tool) ∧
      ∀ other ≠ tool, (c.effect rel o h).2.tools other = h.tools other := by
  rcases hc with ⟨stage, rfl⟩ | rfl
  · simp only [Cmd.Returns, Cmd.effect]
    cases (h.stages stage).bind fun stage => stage.copy tool with
    | some copy =>
      refine ⟨by simp [Host.setTool], fun other hother => ?_⟩
      simp [Host.setTool, Function.update_of_ne hother]
    | none => exact ⟨Iff.rfl, fun _ _ => rfl⟩
  · simp only [Cmd.Returns, Cmd.effect, Outcome.apply]
    split
    · refine ⟨by simp [Host.setTool], fun other hother => ?_⟩
      simp [Host.setTool, Function.update_of_ne hother]
    · exact ⟨Iff.rfl, fun _ _ => rfl⟩

/-- **One tool is returned**, and its command meets the condition exactly if the tool is as it was. -/
theorem wp_restoreHostTool (hw : w.1.stopped = some b) (stage : ℕ) (tool : HostTool) :
    wp (returnMachine rel) (fun _ => True) (restoreHostTool stage tool)
      (fun _ u => u.1.stopped = some b ∧
        (u.2 ↔ w.2 ∧ u.1.host.tools tool = b.tools tool) ∧
        ∀ other ≠ tool, u.1.host.tools other = w.1.host.tools other) w := by
  have hrun : ∀ {c : Cmd}, (∃ stage, c = .restoreTool stage tool) ∨ c = .unlinkTool tool →
      wp (returnMachine rel) (fun _ => True) (run c) (fun _ u => u.1.stopped = some b ∧
        (u.2 ↔ w.2 ∧ u.1.host.tools tool = b.tools tool) ∧
        ∀ other ≠ tool, u.1.host.tools other = w.1.host.tools other) w := by
    intro c hc x
    obtain ⟨hreturns, hothers⟩ := @returns_iff rel b c tool hc x.outcome w.1.host
    have htools : ((returnMachine rel).perform c x w).2.1.host.tools =
        (c.effect rel x.outcome w.1.host).2.tools := commit_same (p := .tools) nofun _ x.panel
    refine ⟨trivial, stopped_of_some hw, ?_, fun other hother => ?_⟩
    · rw [htools]
      refine and_congr_right fun _ => ⟨fun h => hreturns.mp (h b hw), fun h b' hb' => ?_⟩
      obtain rfl := Option.some.inj (hw.symm.trans hb')
      exact hreturns.mpr h
    · rw [htools]
      exact hothers other hother
  rw [restoreHostTool, wp_look, wp_ite]
  exact ⟨fun _ => hrun (.inl ⟨stage, rfl⟩), fun _ => hrun (.inr rfl)⟩

/-- **The tools are returned**: the condition was met exactly if they are as they were. -/
theorem wp_restoreHostTools (hw : w.1.stopped = some b) (hmet : w.2) (stage : ℕ) :
    wp (returnMachine rel) (fun _ => True) (restoreHostTools stage)
      (fun _ u => u.1.stopped = some b ∧ (u.2 ↔ u.1.host.tools = b.tools)) w := by
  rw [restoreHostTools, wp_bind]
  refine wp_mono (wp_restoreHostTool hw stage .unit) (fun _ h => h) fun _ t ht => ?_
  obtain ⟨hstopped, hunit, -⟩ := ht
  rw [wp_bind]
  refine wp_mono (wp_restoreHostTool hstopped stage .cli) (fun _ h => h) fun _ u hu => ?_
  obtain ⟨hstopped', hcli, hother⟩ := hu
  have htools : u.1.host.tools = b.tools ↔
      u.1.host.tools .unit = b.tools .unit ∧ u.1.host.tools .cli = b.tools .cli := by
    refine ⟨fun heq => heq ▸ ⟨rfl, rfl⟩, fun heq => funext fun tool => ?_⟩
    cases tool with
    | unit => exact heq.1
    | cli => exact heq.2
  have hiff : u.2 ↔ u.1.host.tools = b.tools := by
    rw [hcli, hunit, htools, hother .unit nofun]
    simp [hmet]
  have hreload : (run .daemonReload : Shell Bool).Only
      fun c => c.plain = true ∧ c.spares [.tools] = true := .run ⟨rfl, rfl⟩
  refine wp_keeping hreload (fun c hc w x hw => ⟨stopped_of_some hw.1, ?_⟩) ⟨hstopped', hiff⟩
  have hsame : Host.Same [.tools] w.1.host ((hostMachine rel).perform c x w.1.host).2 :=
    Host.Same.perform hc.2 (by decide) x.outcome x.panel w.1.host
  have htools : ((returnMachine rel).perform c x w).2.1.host.tools = w.1.host.tools :=
    hsame .tools (by simp)
  rw [htools]
  exact (met_of_plain hc.1).trans hw.2

end Tools

/-! ### The database that is returned -/

section Rollback

variable {w : Followed × Prop} {a : ℕ}

/-- The stack does not run, and the archive of the stopped host is there. -/
structure Waiting (b : Host) (a : ℕ) (w : Followed × Prop) : Prop where
  running : w.1.host.running = false
  since : w.1.since = []
  archive : w.1.host.archives[a]? = some b.archive

/-- The database is what it was, with what the panel has committed. -/
def DatabaseIs (b : Host) (w : Followed × Prop) : Prop :=
  w.1.host.database = ⟨b.database.schema, b.database.changes ++ w.1.since⟩

theorem DatabaseIs.perform (hw : DatabaseIs b w) (hc : c.stops = false)
    (hspares : c.touches .database = false) (x : Choice) :
    DatabaseIs b ((returnMachine rel).perform c x w).2 :=
  (database_perform hc hspares).mpr hw

theorem commit_of_not_running (hh : h.running = false) (changes : List Change) :
    h.commit changes = h := by
  rw [Host.commit, hh]
  exact if_neg Bool.false_ne_true

/-- A command that leaves the stack alone when it does not run. -/
theorem Waiting.perform (hw : Waiting b a w) (hc : c.stops = false)
    (hspares : c.spares [.running, .archives] = true) (x : Choice) :
    Waiting b a ((returnMachine rel).perform c x w).2 := by
  have hsame : Host.Same [.running, .archives] w.1.host
      ((hostMachine rel).perform c x w.1.host).2 :=
    Host.Same.perform hspares (by decide) x.outcome x.panel w.1.host
  have hrunning : (c.effect rel x.outcome w.1.host).2.running = false :=
    (effect_same (p := .running) (by simpa using List.all_eq_true.mp hspares .running (by simp))
      x.outcome w.1.host).trans hw.running
  refine ⟨(hsame .running (by simp)).trans hw.running, ?_, ?_⟩
  · change (if c.stops then [] else if _ then _ else _) = _
    rw [hc, hrunning]
    exact hw.since
  · exact (congrArg (·[a]?) (hsame .archives (by simp))).trans hw.archive

theorem wp_waiting {p : Shell Bool}
    (hp : p.Only fun c => c.stops = false ∧ c.spares [.running, .archives] = true)
    (hw : Waiting b a w) :
    wp (returnMachine rel) (fun _ => True) p (fun ok t => ok = true → Waiting b a t) w :=
  wp_mono (wp_keeping hp (fun _ hc _ x ht => ht.perform hc.1 hc.2 x) hw) (fun _ h => h)
    fun _ _ ht _ => ht

theorem wp_databaseIs {p : Shell Bool}
    (hp : p.Only fun c => c.stops = false ∧ c.touches .database = false) (hw : DatabaseIs b w) :
    wp (returnMachine rel) (fun _ => True) p (fun ok t => ok = true → DatabaseIs b t) w := by
  have hkeeps : wp (returnMachine rel) (fun _ => True) p (fun _ t => DatabaseIs b t) w :=
    wp_keeping hp (fun _ hc _ x ht => ht.perform hc.1 hc.2 x) hw
  exact wp_mono hkeeps (fun _ h => h) fun _ _ ht _ => ht

/-- **The stack is stopped** when the stop succeeds, and nothing was committed since. -/
theorem wp_stop (harchive : w.1.host.archives[a]? = some b.archive) :
    wp (returnMachine rel) (fun _ => True) (serviceCommand .stop)
      (fun ok t => ok = true → Waiting b a t) w := by
  refine fun x => ⟨trivial, fun hok => ⟨?_, rfl, ?_⟩⟩
  · have hstopped : ((Cmd.service .stop).effect rel x.outcome w.1.host).2 =
        { w.1.host with running := false } := Outcome.apply_of_status hok
    change (Host.commit _ _).running = false
    rw [hstopped]
    exact congrArg Host.running (commit_of_not_running rfl x.panel)
  · have hsame : Host.Same [.archives] w.1.host
        ((hostMachine rel).perform (.service .stop) x w.1.host).2 :=
      Host.Same.perform rfl (by decide) x.outcome x.panel w.1.host
    exact (congrArg (·[a]?) (hsame .archives (by simp))).trans harchive

theorem wp_restoreDatabase (hw : Waiting b a w) :
    wp (returnMachine rel) (fun _ => True) (run (.restoreDatabase a))
      (fun ok t => ok = true → DatabaseIs b t) w := by
  refine fun x => ⟨trivial, fun hok => ?_⟩
  have hrestored : ((Cmd.restoreDatabase a).effect rel x.outcome w.1.host).2 =
      { w.1.host with database := b.database } := by
    change ((Cmd.restoreDatabase a).effect rel x.outcome w.1.host).1 = true at hok
    simp only [Cmd.effect, hw.archive] at hok ⊢
    exact Outcome.apply_of_status hok
  have hsince : ((returnMachine rel).perform (.restoreDatabase a) x w).2.1.since = [] := by
    have hrunning : ((Cmd.restoreDatabase a).effect rel x.outcome w.1.host).2.running = false := by
      rw [hrestored]
      exact hw.running
    exact (if_neg (by rw [hrunning]; exact Bool.false_ne_true)).trans hw.since
  have hhost : ((returnMachine rel).perform (.restoreDatabase a) x w).2.1.host =
      { w.1.host with database := b.database } := by
    refine (congrArg (Host.commit · x.panel) hrestored).trans ?_
    exact commit_of_not_running (h := { w.1.host with database := b.database }) hw.running x.panel
  rw [DatabaseIs, hsince, hhost, List.append_nil]

/-- **A rollback that succeeds has returned the database.** -/
theorem wp_rollbackSteps_database (hpreimage : v.preimage = some a)
    (harchive : w.1.host.archives[a]? = some b.archive) :
    wp (returnMachine rel) (fun _ => True) (rollbackSteps v)
      (fun ok t => ok = true → DatabaseIs b t) w := by
  refine wp_all_of (wp_stop harchive) fun t₁ ht₁ => ?_
  refine wp_all_of (wp_waiting (only_restoreCurrentRelease ⟨rfl, rfl⟩ ⟨rfl, rfl⟩ ⟨rfl, rfl⟩) ht₁)
    fun t₂ ht₂ => ?_
  refine wp_all_of (wp_waiting (.run ⟨rfl, rfl⟩) ht₂) fun t₃ ht₃ => ?_
  refine wp_all_of (wp_waiting (only_restoreHostTools (fun _ => ⟨rfl, rfl⟩) (fun _ => ⟨rfl, rfl⟩)
    ⟨rfl, rfl⟩) ht₃) fun t₄ ht₄ => ?_
  refine wp_all_of (wp_waiting (only_atomicWrite ⟨rfl, rfl⟩ ⟨rfl, rfl⟩ ⟨rfl, rfl⟩ ⟨rfl, rfl⟩) ht₄)
    fun t₅ ht₅ => ?_
  have hrestore : wp (returnMachine rel) (fun _ => True) (restorePreimage v.preimage)
      (fun ok t => ok = true → DatabaseIs b t) t₅ := by
    rw [hpreimage, restorePreimage]
    refine wp_all_of (wp_waiting (.run ⟨rfl, rfl⟩) ht₅) fun t₆ ht₆ => ?_
    refine wp_all_of (wp_restoreDatabase ht₆) fun t₇ ht₇ => ?_
    refine wp_databaseIs (.all ?_) ht₇
    simp only [List.forall_mem_cons, List.not_mem_nil, false_implies, implies_true, and_true]
    exact ⟨.run ⟨rfl, rfl⟩, .run ⟨rfl, rfl⟩, .run ⟨rfl, rfl⟩, .run ⟨rfl, rfl⟩, .run ⟨rfl, rfl⟩,
      .run ⟨rfl, rfl⟩, .run ⟨rfl, rfl⟩⟩
  refine wp_all_of hrestore fun t₆ ht₆ => ?_
  exact wp_databaseIs (.all (by simpa using ⟨.run ⟨rfl, rfl⟩, .run ⟨rfl, rfl⟩⟩)) ht₆

/-! ### A rollback -/

/-- **What a rollback needs**: the directory of the release in the stage, and the archive of the
stopped host. -/
structure Returnable (b : Host) (v : UpgradeVars) (w : Followed × Prop) : Prop where
  stopped : w.1.stopped = some b
  met : w.2
  back : v.oldCurrent = v.currentVersion
  version : b.version = v.currentVersion
  current : b.current = some v.oldCurrent
  saved : ∃ stage tree, w.1.host.stages v.stage = some stage ∧ stage.releaseBefore = some tree ∧
    b.releases v.oldCurrent = some tree
  archive : ∃ a, v.preimage = some a ∧ w.1.host.archives[a]? = some b.archive

theorem Returnable.perform (hw : Returnable b v w) (hc : c.plain = true)
    (hspares : c.spares [.stages, .archives] = true) (x : Choice) :
    Returnable b v ((returnMachine rel).perform c x w).2 := by
  have hsame : Host.Same [.stages, .archives] w.1.host
      ((hostMachine rel).perform c x w.1.host).2 :=
    Host.Same.perform hspares (by decide) x.outcome x.panel w.1.host
  obtain ⟨stage, tree, hstage, htree⟩ := hw.saved
  obtain ⟨a, hpreimage, harchive⟩ := hw.archive
  exact
    { stopped := stopped_of_some hw.stopped
      met := (met_of_plain hc).mpr hw.met
      back := hw.back
      version := hw.version
      current := hw.current
      saved := ⟨stage, tree, (congrFun (hsame .stages (by simp)) _).trans hstage, htree⟩
      archive := ⟨a, hpreimage, (congrArg (·[a]?) (hsame .archives (by simp))).trans harchive⟩ }

/-- The tools after a rollback. -/
theorem wp_rollbackSteps_tools (hw : Returnable b v w) :
    wp (returnMachine rel) (fun _ => True) (rollbackSteps v)
      (fun ok t => ok = true → t.1.stopped = some b ∧ (t.2 ↔ t.1.host.tools = b.tools)) w := by
  have hmet : ∀ {p : Shell Bool} (t : Followed × Prop), t.1.stopped = some b ∧ t.2 →
      p.Only (fun c => c.plain = true) →
      wp (returnMachine rel) (fun _ => True) p
        (fun ok u => ok = true → u.1.stopped = some b ∧ u.2) t := fun t ht hp =>
    wp_mono (wp_keeping hp (fun _ hc _ _ hu => ⟨stopped_of_some hu.1, (met_of_plain hc).mpr hu.2⟩) ht)
      (fun _ h => h) fun _ _ hu _ => hu
  refine wp_all_of (hmet w ⟨hw.stopped, hw.met⟩ (.run rfl)) fun t₁ ht₁ => ?_
  refine wp_all_of (hmet t₁ ht₁ (only_restoreCurrentRelease rfl rfl rfl)) fun t₂ ht₂ => ?_
  refine wp_all_of (hmet t₂ ht₂ (.run rfl)) fun t₃ ht₃ => ?_
  refine wp_all_of (wp_mono (wp_restoreHostTools ht₃.1 ht₃.2 v.stage) (fun _ h => h)
    fun _ _ hu _ => hu) fun t₄ ht₄ => ?_
  -- nothing touches a tool from here on
  have hrest : (all [writeStateVersion v.currentVersion, restorePreimage v.preimage,
      serviceCommand .start, serviceCommand .health]).Only
      fun c => c.plain = true ∧ c.spares [.tools] = true := by
    refine .all ?_
    simp only [List.forall_mem_cons, List.not_mem_nil, false_implies, implies_true, and_true]
    exact ⟨only_atomicWrite ⟨rfl, rfl⟩ ⟨rfl, rfl⟩ ⟨rfl, rfl⟩ ⟨rfl, rfl⟩,
      only_restorePreimage (fun _ => ⟨rfl, rfl⟩) (fun _ _ => ⟨rfl, rfl⟩) (fun _ _ => ⟨rfl, rfl⟩)
        fun _ => ⟨rfl, rfl⟩, .run ⟨rfl, rfl⟩, .run ⟨rfl, rfl⟩⟩
  refine wp_mono (wp_keeping hrest (fun c hc u x hu => ⟨stopped_of_some hu.1, ?_⟩) ht₄)
    (fun _ h => h) fun _ _ hu _ => hu
  have hsame : Host.Same [.tools] u.1.host ((hostMachine rel).perform c x u.1.host).2 :=
    Host.Same.perform hc.2 (by decide) x.outcome x.panel u.1.host
  have htools : ((returnMachine rel).perform c x u).2.1.host.tools = u.1.host.tools :=
    hsame .tools (by simp)
  rw [htools]
  exact (met_of_plain hc.1).trans hu.2

/-- **A rollback that succeeds settles the comparison.** -/
theorem wp_rollback_returnable (hw : Returnable b v w) :
    wp (returnMachine rel) (fun _ => True) (rollback v) (fun ok t => ok = true → Settled b t) w := by
  obtain ⟨a, hpreimage, harchive⟩ := hw.archive
  rw [rollback, wp_bind]
  have hall := wp_and (wp_followed (wp_rollbackSteps v w.1.host)) (wp_and
    (wp_rollbackSteps_database hpreimage harchive) (@wp_rollbackSteps_tools rel b v w hw))
  refine wp_mono hall (fun _ _ => trivial) ?_
  rintro ok t ⟨hreturned, hdatabase, htools⟩
  refine wp_ite.mpr ⟨fun hok => ?_, fun _ => nofun⟩
  have hreturned := hreturned hok
  obtain ⟨hstopped, htools⟩ := htools hok
  have hsettled : Settled b t := by
    refine ⟨hstopped, fun hexact => htools.mpr hexact.tools, fun hmet => ?_⟩
    obtain ⟨a', archive, hpreimage', harchive', -, hconfig, hsecrets⟩ := hreturned.archive
    obtain rfl : a = a' := Option.some.inj (hpreimage.symm.trans hpreimage')
    obtain rfl : b.archive = archive := Option.some.inj (harchive.symm.trans harchive')
    obtain ⟨stage, tree, hstage, htree, hrelease⟩ := hw.saved
    obtain ⟨stage', tree', hstage', htree', hreleased⟩ := hreturned.release
    obtain rfl : stage = stage' := Option.some.inj (hstage.symm.trans hstage')
    obtain rfl : tree = tree' := Option.some.inj (htree.symm.trans htree')
    refine ⟨hreturned.version.trans hw.version.symm, hreturned.current.trans hw.current.symm, ?_,
      hconfig, hdatabase hok, hsecrets, htools.mp hmet⟩
    intro version hversion
    obtain rfl : v.oldCurrent = version := Option.some.inj (hw.current.symm.trans hversion)
    rw [hrelease, hw.back]
    exact hreleased
  rw [wp_bind]
  refine wp_mono (wp_settled (.run ⟨rfl, rfl, rfl⟩) hsettled) (fun _ h => h) fun _ u hu => ?_
  rw [wp_bind]
  exact wp_mono (wp_settled only_bystander_clearJournal hu) (fun _ h => h) fun _ _ hu _ => hu

end Rollback

/-! ### The transaction -/

section Transaction

variable {w : Followed × Prop}

/-- **Before the stack is stopped**, with the variables of the transaction. -/
structure Running (v : UpgradeVars) (w : Followed × Prop) : Prop where
  stopped : w.1.stopped = none
  met : w.2
  version : w.1.host.version = v.currentVersion
  current : w.1.host.current = some v.oldCurrent

/-- The directory of the release is saved. -/
structure Prepared (v : UpgradeVars) (w : Followed × Prop) : Prop where
  running : Running v w
  saved : ∃ stage tree, w.1.host.stages v.stage = some stage ∧ stage.releaseBefore = some tree ∧
    w.1.host.releases v.oldCurrent = some tree

theorem Running.perform (hw : Running v w) (hc : c.stops = false)
    (hspares : c.spares [.version, .current] = true) (x : Choice) :
    Running v ((returnMachine rel).perform c x w).2 := by
  have hsame : Host.Same [.version, .current] w.1.host
      ((hostMachine rel).perform c x w.1.host).2 :=
    Host.Same.perform hspares (by decide) x.outcome x.panel w.1.host
  exact ⟨(stopped_of_stops hc).trans hw.stopped, (met_of_none hw.stopped).mpr hw.met,
    (hsame .version (by simp)).trans hw.version, (hsame .current (by simp)).trans hw.current⟩

theorem wp_running {p : Shell Bool}
    (hp : p.Only fun c => c.stops = false ∧ c.spares [.version, .current] = true)
    (hw : Running v w) :
    wp (returnMachine rel) (fun _ => True) p (fun ok t => ok = true → Running v t) w := by
  have hkeeps : wp (returnMachine rel) (fun _ => True) p (fun _ t => Running v t) w :=
    wp_keeping hp (fun _ hc _ x ht => ht.perform hc.1 hc.2 x) hw
  exact wp_mono hkeeps (fun _ h => h) fun _ _ ht _ => ht

/-- The directory of the release is saved when its copy succeeds. -/
theorem wp_saveRelease_running (hw : Running v w) :
    wp (returnMachine rel) (fun _ => True) (run (.saveRelease v.stage v.oldCurrent))
      (fun ok t => ok = true → Prepared v t) w := by
  refine fun x => ⟨trivial, fun hok => ⟨hw.perform rfl rfl x, ?_⟩⟩
  have hsame : Host.Same [.releases] w.1.host
      ((hostMachine rel).perform (.saveRelease v.stage v.oldCurrent) x w.1.host).2 :=
    Host.Same.perform rfl (by decide) x.outcome x.panel w.1.host
  have hreleases : ((returnMachine rel).perform (.saveRelease v.stage v.oldCurrent) x
      w).2.1.host.releases = w.1.host.releases := hsame .releases (by simp)
  have hstages : ((returnMachine rel).perform (.saveRelease v.stage v.oldCurrent) x
      w).2.1.host.stages = ((Cmd.saveRelease v.stage v.oldCurrent).effect rel x.outcome
        w.1.host).2.stages := commit_same (p := .stages) nofun _ x.panel
  change ((Cmd.saveRelease v.stage v.oldCurrent).effect rel x.outcome w.1.host).1 = true at hok
  rw [hreleases, hstages]
  simp only [Cmd.effect] at hok ⊢
  split at hok
  · rename_i stage tree hstage htree
    cases ho : x.outcome with
    | ok => exact ⟨{ stage with releaseBefore := some tree }, tree,
        by simp [Host.setStage, Outcome.leaves], rfl, htree⟩
    | _ =>
      rw [ho] at hok
      cases hok
  · cases hok

theorem wp_prepareRelease_running (hw : Running v w) :
    wp (returnMachine rel) (fun _ => True) (prepareRelease v)
      (fun e t => e = none → Prepared v t) w := by
  refine wp_firstFailure_of (wp_running (.run ⟨rfl, rfl⟩) hw) fun t₁ ht₁ => ?_
  refine wp_firstFailure_of (wp_running (.run ⟨rfl, rfl⟩) ht₁) fun t₂ ht₂ => ?_
  refine wp_firstFailure_of (wp_running (only_saveHostTools ⟨rfl, rfl⟩ (fun _ => ⟨rfl, rfl⟩)
    fun _ => ⟨rfl, rfl⟩) ht₂) fun t₃ ht₃ => ?_
  refine wp_firstFailure_of (wp_saveRelease_running ht₃) fun t₄ ht₄ => ?_
  have hjournal : (writeJournal v .prepared).Only fun c => c.stops = false ∧
      c.spares [.version, .current, .releases, .stages] = true :=
    only_writeJournal (fun _ => ⟨rfl, rfl⟩) (fun _ => ⟨rfl, rfl⟩) (fun _ => ⟨rfl, rfl⟩) ⟨rfl, rfl⟩
      ⟨rfl, rfl⟩
  have hkeeps : wp (returnMachine rel) (fun _ => True) (writeJournal v .prepared)
      (fun _ t => Prepared v t) t₄ := by
    refine wp_keeping hjournal (fun c hc t x ht => ?_) ht₄
    have hsame : Host.Same [.version, .current, .releases, .stages] t.1.host
        ((hostMachine rel).perform c x t.1.host).2 :=
      Host.Same.perform hc.2 (by decide) x.outcome x.panel t.1.host
    obtain ⟨stage, tree, hstage, htree, hrelease⟩ := ht.saved
    refine ⟨⟨(stopped_of_stops hc.1).trans ht.running.stopped,
      (met_of_none ht.running.stopped).mpr ht.running.met,
      (hsame .version (by simp)).trans ht.running.version,
      (hsame .current (by simp)).trans ht.running.current⟩, stage, tree, ?_, htree, ?_⟩
    · exact (congrFun (hsame .stages (by simp)) _).trans hstage
    · exact (congrFun (hsame .releases (by simp)) _).trans hrelease
  exact wp_firstFailure_of (wp_mono hkeeps (fun _ h => h) fun _ _ ht _ => ht) fun _ ht _ => ht

/-- **The stack is stopped and archived**: nothing has changed, and if all went well there is what a
rollback needs. -/
theorem wp_takePreimage_prepared (hw : Prepared v w) (hback : v.oldCurrent = v.currentVersion) :
    wp (returnMachine rel) (fun _ => True) (takePreimage v)
      (fun result t => ∃ b, Settled b t ∧ (result.1 = none → Returnable b result.2 t)) w := by
  rw [takePreimage, wp_bind]
  intro x
  -- the host as the stop leaves it
  generalize ht : ((returnMachine rel).perform (.service .stop) x w).2 = t
  have hsame : Host.Same [.version, .current, .releases, .stages] w.1.host t.1.host := by
    rw [← ht]
    exact Host.Same.perform rfl (by decide) x.outcome x.panel w.1.host
  have hstopped : t.1.stopped = some t.1.host := by
    rw [← ht]
    change (if true && w.1.stopped.isNone then _ else _) = _
    rw [hw.running.stopped]
    rfl
  have hsince : t.1.since = [] := by
    rw [← ht]
    rfl
  have hmet : t.2 := by
    rw [← ht]
    exact (met_of_none hw.running.stopped).mpr hw.running.met
  have hexact : AsStopped t.1.host t.1 :=
    ⟨rfl, rfl, fun _ _ => rfl, rfl, by rw [hsince, List.append_nil], rfl, rfl⟩
  have hsettled : Settled t.1.host t := ⟨hstopped, iff_of_true hexact hmet⟩
  refine ⟨trivial, wp_ite.mpr ⟨fun hok => ?_, fun _ => ⟨_, hsettled, nofun⟩⟩⟩
  have hrunning : t.1.host.running = false := by
    have hstop : ((Cmd.service .stop).effect rel x.outcome w.1.host).2 =
        { w.1.host with running := false } := Outcome.apply_of_status hok
    rw [← ht]
    change (Host.commit _ _).running = false
    rw [hstop]
    exact congrArg Host.running (commit_of_not_running rfl x.panel)
  rw [wp_bind]
  intro y
  have hbystander : Cmd.createPreimage.Bystander := ⟨rfl, rfl, rfl⟩
  have hsettled' : Settled t.1.host ((returnMachine rel).perform .createPreimage y t).2 :=
    hsettled.perform hbystander
  refine ⟨trivial, wp_ite.mpr ⟨fun hok => ?_, fun _ => ⟨_, hsettled', nofun⟩⟩⟩
  generalize hu : ((returnMachine rel).perform .createPreimage y t).2 = u
  rw [hu] at hsettled'
  have harchives : u.1.host.archives = t.1.host.archives ++ [t.1.host.archive] := by
    rw [← hu]
    refine (commit_same (p := .archives) nofun _ y.panel).trans ?_
    exact congrArg Host.archives (Outcome.apply_of_status hok)
  have hspared : Host.Same [.stages] t.1.host u.1.host := by
    rw [← hu]
    exact Host.Same.perform rfl (by decide) y.outcome y.panel t.1.host
  have hreturnable : Returnable t.1.host
      { v with preimage := some (u.1.host.archives.length - 1) } u := by
    obtain ⟨stage, tree, hstage, htree, hrelease⟩ := hw.saved
    refine ⟨hsettled'.stopped, ?_, hback, ?_, ?_, ⟨stage, tree, ?_, htree, ?_⟩, _, rfl, ?_⟩
    · rw [← hu]
      exact (met_of_plain rfl).mpr hmet
    · exact (hsame .version (by simp)).trans hw.running.version
    · exact (hsame .current (by simp)).trans hw.running.current
    · exact (congrFun (hspared .stages (by simp)) _).trans
        ((congrFun (hsame .stages (by simp)) _).trans hstage)
    · exact (congrFun (hsame .releases (by simp)) _).trans hrelease
    · rw [harchives]
      simp
  rw [wp_look]
  change wp _ _ (Script.bind (writeJournal { v with
    preimage := some (u.1.host.archives.length - 1) } .switching) fun ok =>
      done (if ok then none else some Failure.journal, { v with
        preimage := some (u.1.host.archives.length - 1) })) _ _
  generalize { v with preimage := some (u.1.host.archives.length - 1) } = v' at hreturnable
  rw [wp_bind]
  have hkeeps : wp (returnMachine rel) (fun _ => True) (writeJournal v' .switching)
      (fun _ z => Settled t.1.host z ∧ Returnable t.1.host v' z) u :=
    wp_keeping (only_bystander_writeJournal v' .switching)
      (fun c hc z x hz => ⟨hz.1.perform hc.1, hz.2.perform hc.1.2.1 hc.2 x⟩)
      ⟨hsettled', hreturnable⟩
  exact wp_mono hkeeps (fun _ h => h) fun _ z hz => ⟨_, hz.1, fun _ => hz.2⟩

/-- What is claimed of a transaction. -/
def Cancelled (e : Option UpgradeError) (w : Followed × Prop) : Prop :=
  e = some .health → ∃ b, Settled b w

theorem wp_resumeOld (hw : Settled b w) :
    wp (returnMachine rel) (fun _ => True) (resumeOld v) Cancelled w := by
  have honly : (resumeOld v).Only Cmd.Bystander :=
    .bind (.all (by simpa using ⟨.run ⟨rfl, rfl, rfl⟩, .run ⟨rfl, rfl, rfl⟩⟩)) fun _ =>
      .ite (.bind (.run ⟨rfl, rfl, rfl⟩) fun _ => .bind only_bystander_clearJournal fun _ =>
        .bind (only_cleanupStage ⟨rfl, rfl, rfl⟩) fun _ => trivial) trivial
  exact wp_mono (wp_settled honly hw) (fun _ h => h) fun _ _ ht _ => ⟨b, ht⟩

theorem wp_returnOld (hw : Returnable b v w) :
    wp (returnMachine rel) (fun _ => True) (returnOld v) Cancelled w := by
  rw [returnOld, wp_bind]
  refine wp_mono (wp_rollback_returnable hw) (fun _ h => h) fun ok t ht => ?_
  refine wp_ite.mpr ⟨fun hok => ?_, fun _ => nofun⟩
  have hclean : ((cleanupStage v.stage).bind fun _ =>
      (done (some UpgradeError.health) : Shell (Option UpgradeError))).Only Cmd.Bystander :=
    .bind (only_cleanupStage ⟨rfl, rfl, rfl⟩) fun _ => trivial
  exact wp_mono (wp_settled hclean (ht hok)) (fun _ h => h) fun _ _ hu _ => ⟨b, hu⟩

/-- A script that ends in another way. -/
theorem wp_cancelled_of_ne {α : Type} {p : Shell α} {e : Option UpgradeError}
    (he : e ≠ some .health) :
    wp (returnMachine rel) (fun _ => True) (p.bind fun _ => done e) Cancelled w := by
  rw [wp_bind]
  exact wp_mono (wp_true p) (fun _ h => h) fun _ _ _ heq => absurd heq he

theorem only_switchRelease_plain (v : UpgradeVars) :
    (switchRelease v).Only fun c => c.plain = true ∧ c.spares [.stages, .archives] = true := by
  have hjournal : ∀ phase, (writeJournal v phase).Only
      fun c => c.plain = true ∧ c.spares [.stages, .archives] = true := fun _ =>
    only_writeJournal (fun _ => ⟨rfl, rfl⟩) (fun _ => ⟨rfl, rfl⟩) (fun _ => ⟨rfl, rfl⟩) ⟨rfl, rfl⟩
      ⟨rfl, rfl⟩
  refine .firstFailure ?_
  simp only [List.forall_mem_cons, List.not_mem_nil, false_implies, implies_true, and_true]
  refine ⟨only_removeRelease ⟨rfl, rfl⟩, ?_, ?_, ?_, hjournal _, .run ⟨rfl, rfl⟩, hjournal _,
    .run ⟨rfl, rfl⟩, .run ⟨rfl, rfl⟩, hjournal _,
    only_atomicWrite ⟨rfl, rfl⟩ ⟨rfl, rfl⟩ ⟨rfl, rfl⟩ ⟨rfl, rfl⟩⟩
  · exact .all (by simpa using ⟨.run ⟨rfl, rfl⟩, .run ⟨rfl, rfl⟩⟩)
  · refine .all ?_
    simp only [List.forall_mem_cons, List.not_mem_nil, false_implies, implies_true, and_true]
    exact ⟨.run ⟨rfl, rfl⟩, .run ⟨rfl, rfl⟩, .run ⟨rfl, rfl⟩, .run ⟨rfl, rfl⟩, .run ⟨rfl, rfl⟩,
      .run ⟨rfl, rfl⟩⟩
  · exact .all (by simpa using ⟨.run ⟨rfl, rfl⟩, .run ⟨rfl, rfl⟩, .run ⟨rfl, rfl⟩⟩)

theorem wp_stoppedTransaction (hw : Prepared v w) (hback : v.oldCurrent = v.currentVersion) :
    wp (returnMachine rel) (fun _ => True) (stoppedTransaction v) Cancelled w := by
  rw [stoppedTransaction, wp_bind]
  refine wp_mono (wp_takePreimage_prepared hw hback) (fun _ h => h) ?_
  rintro ⟨failure, v'⟩ t ⟨b, hsettled, hreturnable⟩
  cases failure with
  | some _ => exact wp_resumeOld hsettled
  | none =>
    change wp _ _ (Script.bind (switchRelease v') _) _ _
    rw [wp_bind]
    refine wp_mono (wp_keeping (only_switchRelease_plain v')
      (fun c hc u x hu => hu.perform hc.1 hc.2 x) (hreturnable rfl)) (fun _ h => h) ?_
    intro failure u hu
    cases failure with
    | some _ => exact wp_returnOld hu
    | none =>
      change wp _ _ (Script.bind clearJournal _) _ _
      rw [wp_bind]
      exact wp_mono (wp_true _) (fun _ h => h) fun _ _ _ => wp_cancelled_of_ne nofun

theorem wp_stagedTransaction (hw : Running v w) (hback : v.oldCurrent = v.currentVersion) :
    wp (returnMachine rel) (fun _ => True) (stagedTransaction v) Cancelled w := by
  rw [stagedTransaction, wp_bind]
  refine wp_mono (wp_prepareRelease_running hw) (fun _ h => h) fun failure t ht => ?_
  cases failure with
  | some _ =>
    change wp _ _ (Script.bind (run Cmd.recordFailure) _) _ _
    rw [wp_bind]
    refine wp_mono (wp_true _) (fun _ h => h) fun _ u _ => ?_
    rw [wp_bind]
    exact wp_mono (wp_true _) (fun _ h => h) fun _ _ _ => wp_cancelled_of_ne nofun
  | none => exact wp_stoppedTransaction (ht rfl) hback

theorem wp_transactionTo (mode : Mode) (current target : Version)
    (hstopped : w.1.stopped = none) (hmet : w.2) (hversion : w.1.host.version = current)
    (hcurrent : w.1.host.current = some current) :
    wp (returnMachine rel) (fun _ => True) (transactionTo mode current target) Cancelled w := by
  rw [transactionTo]
  refine wp_ite.mpr ⟨fun _ => nofun, fun _ => wp_ite.mpr ⟨fun _ => nofun, fun _ => ?_⟩⟩
  refine wp_ite.mpr ⟨fun _ => nofun, fun _ => ?_⟩
  rw [wp_look, wp_bind]
  refine fun x => ⟨trivial, wp_ite.mpr ⟨fun _ => ?_, fun _ => nofun⟩⟩
  have hstart : Running ⟨current, target, current, none, w.1.host.stageCount⟩ w :=
    ⟨hstopped, hmet, hversion, hcurrent⟩
  exact wp_stagedTransaction (hstart.perform rfl rfl x) rfl

theorem wp_transaction (mode : Mode) (latest : Version) (hstopped : w.1.stopped = none)
    (hmet : w.2) :
    wp (returnMachine rel) (fun _ => True) (transaction mode latest) Cancelled w := by
  have hcalm : ∀ {c : Cmd} {t : Followed × Prop} (x : Choice), c.stops = false →
      t.1.stopped = none ∧ t.2 → ((returnMachine rel).perform c x t).2.1.stopped = none ∧
        ((returnMachine rel).perform c x t).2.2 := fun x hc ht =>
    ⟨(stopped_of_stops hc).trans ht.1, (met_of_none ht.1).mpr ht.2⟩
  rw [transaction, wp_bind]
  intro x
  have hpreflight := hcalm (c := .preflight) x rfl ⟨hstopped, hmet⟩
  generalize ((returnMachine rel).perform .preflight x w).2 = t at hpreflight
  refine ⟨trivial, wp_ite.mpr ⟨fun _ => ?_, fun _ => nofun⟩⟩
  rw [wp_look, wp_ite]
  refine ⟨fun hlink => ?_, fun _ => nofun⟩
  rw [wp_bind]
  intro y
  have hfetch := hcalm (c := .fetch) y rfl hpreflight
  refine ⟨trivial, wp_ite.mpr ⟨fun _ => ?_, fun _ => nofun⟩⟩
  have hsame : Host.Same [.version, .current] t.1.host
      ((hostMachine rel).perform .fetch y t.1.host).2 :=
    Host.Same.perform rfl (by decide) y.outcome y.panel t.1.host
  exact wp_transactionTo mode _ _ hfetch.1 hfetch.2 (hsame .version (by simp))
    ((hsame .current (by simp)).trans hlink)

end Transaction

/-- **A cancelled upgrade is exact if and only if the tools were returned.** Whatever fails in a
transaction, if it ends in `E_UPGRADE_HEALTH`, then version, link, directory of the release,
configuration, database, secrets and tools are what they were when the stack was stopped, exactly if
every command that returned a tool left it as it was then. -/
theorem rolledBack_exact_iff (rel : Version → Release) (mode : Mode) (latest : Version)
    (start : Host) (choices : List Choice) (w : Followed × Prop)
    (hrun : (transaction mode latest).exec (returnMachine rel) choices (⟨start, none, []⟩, True) =
      (some (some .health), w)) :
    ∃ b, w.1.stopped = some b ∧ (AsStopped b w.1 ↔ w.2) := by
  have hwp : wp (returnMachine rel) (fun _ => True) (transaction mode latest) Cancelled
      (⟨start, none, []⟩, True) := wp_transaction mode latest rfl trivial
  obtain ⟨b, hsettled⟩ := (exec_of_wp hwp trivial choices).2 _ _ hrun rfl
  exact ⟨b, hsettled.stopped, hsettled.exact_iff⟩

/-! ### Two cancelled updates -/

/-- An update whose new release does not become healthy, with one other choice for the copy of the
unit. -/
def unhealthy (copy : Outcome) : List Choice :=
  List.replicate 6 smooth ++ [⟨copy, []⟩] ++ List.replicate 51 smooth ++ [⟨.failed, []⟩] ++
    List.replicate 100 smooth

/-- An update that is cancelled. -/
def cancelledUpdate (copy : Outcome) : Option (Option UpgradeError) × Followed :=
  (transaction .update ⟨0, 2, 0⟩).exec (followedMachine sampleRelease) (unhealthy copy)
    ⟨sampleHost, none, []⟩

/-- Everything is returned when only the new release fails. -/
theorem rolledBack_exact_unhealthy : ∃ b, (cancelledUpdate .ok).2.stopped = some b ∧
    AsStopped b (cancelledUpdate .ok).2 := by
  have hvalue : (cancelledUpdate .ok).1 = some (some .health) := by decide +kernel
  obtain ⟨hresult, hstate⟩ := exec_watch (followedMachine sampleRelease)
    (fun c x s => ∀ b, s.stopped = some b → c.Returns b x.outcome s.host)
    (transaction .update ⟨0, 2, 0⟩) (unhealthy .ok) (⟨sampleHost, none, []⟩, True)
  have hmet : ((transaction .update ⟨0, 2, 0⟩).exec (returnMachine sampleRelease) (unhealthy .ok)
      (⟨sampleHost, none, []⟩, True)).2.2 := by
    rw [returnMachine, exec_watch_met]
    have hsteps : ∀ step ∈ (transaction .update ⟨0, 2, 0⟩).trace (followedMachine sampleRelease)
        (unhealthy .ok) ⟨sampleHost, none, []⟩,
        (step.2.2.stopped.all fun b => decide (step.1.Returns b step.2.1.outcome step.2.2.host)) =
          true := by decide +kernel
    refine ⟨trivial, fun step hstep b hb => ?_⟩
    have := hsteps step hstep
    rw [hb, Option.all_some, decide_eq_true_eq] at this
    exact this
  obtain ⟨b, hb, hexact⟩ := rolledBack_exact_iff sampleRelease .update ⟨0, 2, 0⟩ sampleHost
    (unhealthy .ok) _ (Prod.ext (hresult.trans hvalue) rfl)
  exact ⟨b, (congrArg Followed.stopped hstate).symm.trans hb, hstate ▸ hexact.mpr hmet⟩

/-- **A tool is not returned.** The copy of the unit is cut short, which nobody notices; the new
release does not become healthy, the rollback installs the empty copy, and the update ends in
`E_UPGRADE_HEALTH`. -/
theorem cancelled_without_unit :
    (cancelledUpdate (.torn (some []))).1 = some (some .health) ∧
      ∃ b, (cancelledUpdate (.torn (some []))).2.stopped = some b ∧
        ¬AsStopped b (cancelledUpdate (.torn (some []))).2 := by
  refine ⟨by decide +kernel, ?_⟩
  obtain ⟨b, hb⟩ : ∃ b, (cancelledUpdate (.torn (some []))).2.stopped = some b :=
    Option.isSome_iff_exists.mp (by decide +kernel)
  refine ⟨b, hb, fun hexact => ?_⟩
  have hunits : (cancelledUpdate (.torn (some []))).2.stopped.map (fun b => b.tools .unit) ≠
      some ((cancelledUpdate (.torn (some []))).2.host.tools .unit) := by decide +kernel
  rw [hb, hexact.tools] at hunits
  exact hunits rfl

end EzOpenPN.Upgrade
