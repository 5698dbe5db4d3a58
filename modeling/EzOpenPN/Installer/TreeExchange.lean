import EzOpenPN.Installer.ApplyPayload

/-!
# A tree is exchanged, whatever fails

`_copy_tree` of `backup_archive.py` replaces a directory by a new one: it builds the new tree under a
temporary name, moves the old one aside, renames the new one into its place and deletes what it moved.
Any of these calls may raise. An `except` branch then puts the old tree back, and a `finally` branch
deletes both hidden names.

**The order of the two branches is what matters.** If the new tree cannot be put in its place and the
old one cannot be put back, the `finally` branch deletes the old tree together with the new one. That
is the only way to lose both (`EzOpenPN.copyTree_holds_iff`), and it is there
(`EzOpenPN.both_trees_lost`).
-/

namespace EzOpenPN

open FileSystem Script

/-! ### Calls beside a tree -/

section Exchange

variable {dir : List FileName} {name hidden aside : FileName} {t₀ : Tree FileName UInt8}
variable {files : List (List FileName × Bytes)} {w : Disk FileName UInt8 × List (Call FileName UInt8 × CallOutcome)}

/-- A log of calls. -/
abbrev CallLog := List (Call FileName UInt8 × CallOutcome)

/-- The new tree is put in its place. -/
def placing (dir : List FileName) (name hidden : FileName) : Call FileName UInt8 :=
  .rename (dir ++ [hidden]) (dir ++ [name])

/-- The old tree is put back. -/
def returning (dir : List FileName) (name aside : FileName) : Call FileName UInt8 :=
  .rename (dir ++ [aside]) (dir ++ [name])

/-- **The new tree could be put in its place, or the old one could be put back.** -/
def Saved (dir : List FileName) (name hidden aside : FileName) (log : CallLog) : Prop :=
  (∀ o, (placing dir name hidden, o) ∈ log → o = .ok) ∨ (returning dir name aside, .ok) ∈ log

/-- The old tree, as it was. -/
def Kept (dir : List FileName) (name : FileName) (t₀ t : Tree FileName UInt8) : Prop :=
  ∀ rest, t.node (dir ++ [name] ++ rest) = t₀.node (dir ++ [name] ++ rest)

/-- **How an exchange ends**: a complete tree is there if and only if one of the two calls went well. -/
def Ended (dir : List FileName) (name hidden aside : FileName) (t₀ : Tree FileName UInt8)
    (files : List (List FileName × Bytes)) (w : Disk FileName UInt8 × CallLog) : Prop :=
  (Kept dir name t₀ w.1.tree ∨ Filled (dir ++ [name]) files w.1.tree) ∧
      Saved dir name hidden aside w.2 ∨
    w.1.tree.node (dir ++ [name]) = none ∧ ¬Saved dir name hidden aside w.2

/-- The old tree is there, and no tree was put anywhere yet. -/
structure Before (dir : List FileName) (name hidden aside : FileName) (t₀ : Tree FileName UInt8)
    (w : Disk FileName UInt8 × CallLog) : Prop where
  kept : Kept dir name t₀ w.1.tree
  placing : ∀ o, (placing dir name hidden, o) ∉ w.2
  returning : ∀ o, (returning dir name aside, o) ∉ w.2

/-- A call that has nothing to do with the tree. -/
def Bystander (dir : List FileName) (name hidden aside : FileName) (c : Call FileName UInt8) :
    Prop :=
  c.Spares (dir ++ [name]) ∧ c ≠ placing dir name hidden ∧ c ≠ returning dir name aside

/-- The disk of an installation, with a log. -/
def exchangeMachine : Machine (Disk FileName UInt8) (Call FileName UInt8) CallOutcome
    (Disk FileName UInt8 × CallLog) := (diskMachine up).logged

theorem Before.ended (hw : Before dir name hidden aside t₀ w) :
    Ended dir name hidden aside t₀ files w :=
  .inl ⟨.inl hw.kept, .inl fun o ho => absurd ho (hw.placing o)⟩

theorem exchangeMachine_perform (c : Call FileName UInt8) (o : CallOutcome) :
    exchangeMachine.perform c o w =
      ((c.effect up o w.1).1, (c.effect up o w.1).2, w.2 ++ [(c, o)]) := rfl

section Bystander

variable {c : Call FileName UInt8} {o : CallOutcome}

theorem Bystander.saved_iff (hc : Bystander dir name hidden aside c) {log : CallLog} :
    Saved dir name hidden aside (log ++ [(c, o)]) ↔ Saved dir name hidden aside log := by
  have hplacing : ∀ o', (placing dir name hidden, o') ∈ log ++ [(c, o)] ↔
      (placing dir name hidden, o') ∈ log := by
    intro o'
    simp [hc.2.1.symm]
  have hreturning : (returning dir name aside, .ok) ∈ log ++ [(c, o)] ↔
      (returning dir name aside, .ok) ∈ log := by
    simp [hc.2.2.symm]
  rw [Saved, Saved, hreturning]
  simp only [hplacing]

/-- **A bystander call keeps how an exchange ended**, -/
theorem Bystander.ended (hc : Bystander dir name hidden aside c)
    (hw : Ended dir name hidden aside t₀ files w) :
    Ended dir name hidden aside t₀ files (exchangeMachine.perform c o w).2 := by
  have hnode : ∀ rest, (c.effect up o w.1).2.tree.node (dir ++ [name] ++ rest) =
      w.1.tree.node (dir ++ [name] ++ rest) := Call.node_of_spares hc.1 o
  rw [exchangeMachine_perform, Ended]
  dsimp only
  rw [hc.saved_iff]
  rcases hw with ⟨hkept | hfilled, hsaved⟩ | ⟨hnone, hsaved⟩
  · exact .inl ⟨.inl fun rest => (hnode rest).trans (hkept rest), hsaved⟩
  · exact .inl ⟨.inr (hfilled.congr hnode), hsaved⟩
  · have hroot := hnode []
    rw [List.append_nil] at hroot
    exact .inr ⟨hroot.trans hnone, hsaved⟩

/-- and that no tree was put anywhere yet. -/
theorem Bystander.before (hc : Bystander dir name hidden aside c)
    (hw : Before dir name hidden aside t₀ w) :
    Before dir name hidden aside t₀ (exchangeMachine.perform c o w).2 where
  kept rest := (Call.node_of_spares hc.1 o rest).trans (hw.kept rest)
  placing o' := by
    rw [exchangeMachine_perform]
    simpa [hc.2.1.symm] using hw.placing o'
  returning o' := by
    rw [exchangeMachine_perform]
    simpa [hc.2.2.symm] using hw.returning o'

end Bystander

variable {α : Type} {script : DiskScript α}

theorem wp_ended_of_bystander (h : script.Only (Bystander dir name hidden aside))
    (hw : Ended dir name hidden aside t₀ files w) :
    script.wp exchangeMachine (fun _ => True) (fun _ v => Ended dir name hidden aside t₀ files v) w :=
  wp_mono (h.keeps (fun _ hc _ _ hv => hc.ended hv) w hw) (fun _ _ => trivial) fun _ _ hv => hv

theorem wp_before_of_bystander (h : script.Only (Bystander dir name hidden aside))
    (hw : Before dir name hidden aside t₀ w) :
    script.wp exchangeMachine (fun _ => True) (fun _ v => Before dir name hidden aside t₀ v) w :=
  wp_mono (h.keeps (fun _ hc _ _ hv => hc.before hv) w hw) (fun _ _ => trivial) fun _ _ hv => hv

/-! ### The bystanders -/

theorem bystander_mkdir {q : List FileName} (hq : ¬dir ++ [name] <+: q) :
    Bystander dir name hidden aside (.mkdir q) := ⟨hq, nofun, nofun⟩

theorem only_bystander_mkdirs {p : List FileName} (hp : ∀ q, q <+: p → ¬dir ++ [name] <+: q) :
    (mkdirs p).Only (Bystander dir name hidden aside) := by
  refine Only.all fun step hstep => ?_
  obtain ⟨q, hq, rfl⟩ := List.mem_map.mp hstep
  intro d
  dsimp only
  split
  · exact Only.run (bystander_mkdir (hp q ((List.mem_inits q p).mp hq)))
  · exact trivial
  · exact trivial
  · exact trivial

theorem bystander_touch (p : List FileName) : Bystander dir name hidden aside (.touch p) :=
  ⟨trivial, nofun, nofun⟩

theorem only_bystander_writeChunks {p : List FileName} (hp : ¬dir ++ [name] <+: p)
    {refuses : ℕ → Bool}
    {message : String} (chunks : List Bytes) (written : ℕ) :
    (writeChunks p refuses message chunks written).Only (Bystander dir name hidden aside) := by
  induction chunks generalizing written with
  | nil => exact trivial
  | cons chunk rest ih =>
    rw [writeChunks]
    exact Only.ite trivial (Only.attempt (Only.orRaise (Only.run ⟨hp, by rintro ⟨⟩, by rintro ⟨⟩⟩))
      fun _ => ih _)

theorem only_bystander_safeCopyFile {p : List FileName} {source : SourceNode}
    (hp : dir ++ [hidden] <+: p) (hne : name ≠ hidden) :
    (safeCopyFile source p).Only (Bystander dir name hidden aside) := by
  have hspare : ∀ q, q <+: p → ¬dir ++ [name] <+: q := fun q hq hname =>
    not_prefix_of_sibling hne.symm hp (hname.trans hq)
  rw [safeCopyFile]
  split
  · exact trivial
  · refine Only.attempt (Only.orRaise (only_bystander_mkdirs fun q hq =>
      hspare q (hq.trans (List.dropLast_prefix p)))) fun _ => ?_
    refine Only.attempt (Only.orRaise
      (Only.run ⟨hspare p (List.prefix_refl p), by rintro ⟨⟩, by rintro ⟨⟩⟩)) fun _ => ?_
    refine Only.attempt (only_bystander_writeChunks (hspare p (List.prefix_refl p)) _ _)
      fun _ => ?_
    exact Only.orRaise (Only.run (bystander_touch p))

theorem only_bystander_copyFiles (hne : name ≠ hidden) :
    (copyFiles (dir ++ [hidden]) files).Only (Bystander dir name hidden aside) := by
  induction files with
  | nil => exact trivial
  | cons entry rest ih =>
    exact Only.attempt (only_bystander_safeCopyFile (List.prefix_append _ _) hne) fun _ => ih

theorem only_bystander_touchTree (p : List FileName) :
    (touchTree p).Only (Bystander dir name hidden aside) := by
  intro d
  refine Only.orRaise (Only.all fun step hstep => ?_)
  obtain ⟨q, -, rfl⟩ := List.mem_map.mp hstep
  exact Only.run (bystander_touch q)

theorem only_bystander_clearTree {cleared : FileName} (hne : name ≠ cleared) :
    (clearTree (dir ++ [cleared])).Only (Bystander dir name hidden aside) := by
  have hcleared : ¬dir ++ [cleared] <+: dir ++ [name] :=
    not_prefix_of_sibling hne (List.prefix_refl _)
  have hname : ¬dir ++ [name] <+: dir ++ [cleared] :=
    not_prefix_of_sibling hne.symm (List.prefix_refl _)
  refine Only.attempt (Only.attempt (Only.orRaise (Only.run (bystander_touch _))) fun _ _ => trivial)
    fun _ => Only.ite (Only.orRaise (Only.run ⟨⟨hname, hcleared⟩, nofun, nofun⟩)) trivial

/-! ### The exchange -/

/-- A call that raises if it fails. -/
theorem wp_call_orRaise {c : Call FileName UInt8} {e : BackupError}
    {Q : Except BackupError Unit → Disk FileName UInt8 × CallLog → Prop}
    (hok : ∀ o, (c.effect up o w.1).1 = true → Q (.ok ()) ((c.effect up o w.1).2, w.2 ++ [(c, o)]))
    (hfail : ∀ o, (c.effect up o w.1).1 = false →
      Q (.error e) ((c.effect up o w.1).2, w.2 ++ [(c, o)])) :
    (orRaise (run c) e : DiskScript _).wp exchangeMachine (fun _ => True) Q w := by
  refine fun o => ⟨trivial, ?_⟩
  rw [exchangeMachine_perform]
  cases hstatus : (c.effect up o w.1).1 with
  | true => exact hok o hstatus
  | false => exact hfail o hstatus

/-- A question about a path: it changes nothing, and it may raise. -/
theorem wp_pathExists {p : List FileName}
    {Q : Except BackupError Bool → Disk FileName UInt8 × CallLog → Prop}
    (hok : Q (.ok (w.1.tree.node p ≠ none)) (w.1, w.2 ++ [(.touch p, .ok)]))
    (hfail : ∀ o, o ≠ .ok → Q (.error .osError) (w.1, w.2 ++ [(.touch p, o)])) :
    (pathExists p).wp exchangeMachine (fun _ => True) Q w := by
  intro o
  refine ⟨trivial, ?_⟩
  cases o with
  | ok => exact hok
  | failed => exact hfail _ nofun
  | torn n => exact hfail _ nofun

/-- A rename that can be done is done if and only if the call goes well. -/
theorem rename_status_iff {p q : List FileName} {d : Disk FileName UInt8} {o : CallOutcome}
    (hp : ¬d.tree.Behind up p) (hq : ¬d.tree.Behind up q) (hrenames : d.tree.renames p q = true) :
    (Call.effect up (.rename p q) o d).1 = true ↔ o = .ok := by
  rw [Call.effect_rename hp hq hrenames]
  cases o with
  | ok => exact ⟨fun _ => rfl, fun _ => rfl⟩
  | failed => exact ⟨nofun, nofun⟩
  | torn n => exact ⟨nofun, nofun⟩

/-- **The old tree is aside**, its place is empty, and it was not yet put back. -/
structure Aside (dir : List FileName) (name aside : FileName) (t₀ : Tree FileName UInt8)
    (w : Disk FileName UInt8 × CallLog) : Prop where
  empty : w.1.tree.node (dir ++ [name]) = none
  moved : ∀ rest, w.1.tree.node (dir ++ [aside] ++ rest) = t₀.node (dir ++ [name] ++ rest)
  unreturned : (returning dir name aside, .ok) ∉ w.2
  plain : w.1.tree.Plain up dir

/-- A call that changes nothing, unless it puts the old tree back. -/
theorem Aside.logged (hw : Aside dir name aside t₀ w) {c : Call FileName UInt8} {o : CallOutcome}
    (h : (returning dir name aside, .ok) ≠ (c, o)) :
    Aside dir name aside t₀ (w.1, w.2 ++ [(c, o)]) where
  empty := hw.empty
  moved := hw.moved
  unreturned hmem := by
    rcases List.mem_append.mp hmem with hmem | hmem
    · exact hw.unreturned hmem
    · exact h (List.mem_singleton.mp hmem)
  plain := hw.plain

/-- If the new tree could not be put in its place, both are lost as long as the old one is aside. -/
theorem Aside.ended (hw : Aside dir name aside t₀ w)
    (hplacing : ∃ o, o ≠ .ok ∧ (placing dir name hidden, o) ∈ w.2) :
    Ended dir name hidden aside t₀ files w := by
  refine .inr ⟨hw.empty, ?_⟩
  rintro (hok | hreturned)
  · obtain ⟨o, ho, hmem⟩ := hplacing
    exact ho (hok o hmem)
  · exact hw.unreturned hreturned

/-- **The old tree is put back, or lost.** -/
theorem wp_putBack (hnames : TreeNames name hidden aside)
    (hroot : t₀.node (dir ++ [name]) = some .directory) (hw : Aside dir name aside t₀ w)
    (hplacing : ∃ o, o ≠ .ok ∧ (placing dir name hidden, o) ∈ w.2) :
    (putBack (dir ++ [name]) (dir ++ [aside])).wp exchangeMachine (fun _ => True)
      (fun _ v => Ended dir name hidden aside t₀ files v) w := by
  obtain ⟨o₀, ho₀, hmem⟩ := hplacing
  have haside : w.1.tree.node (dir ++ [aside]) = some .directory := by
    have := hw.moved []
    rwa [List.append_nil, List.append_nil, hroot] at this
  have hrenames := Tree.renames_of_none haside hw.empty
  have hbehind := not_behind_concat hw.plain hnames.aside_ne_up
  have hbehind' := not_behind_concat hw.plain hnames.name_ne_up
  refine wp_attempt_cases (wp_pathExists ⟨nofun, ?_⟩ fun o _ => ⟨fun _ _ => ?_, nofun⟩)
  · rintro there ⟨rfl⟩
    rw [hw.empty, if_neg (by simp)]
    have hw₁ := hw.logged (c := .touch (dir ++ [name])) (o := .ok) nofun
    refine wp_attempt_cases (wp_pathExists ⟨nofun, ?_⟩ fun o _ => ⟨fun _ _ => ?_, nofun⟩)
    · rintro kept ⟨rfl⟩
      rw [haside, if_pos (by simp)]
      have hw₂ := hw₁.logged (c := .touch (dir ++ [aside])) (o := .ok) nofun
      refine wp_call_orRaise (fun o hstatus => ?_) fun o hstatus => ?_
      · obtain ⟨-, -, hnode⟩ := Call.rename_ok hbehind hbehind' hstatus
        have ho := (rename_status_iff hbehind hbehind' hrenames).mp hstatus
        refine .inl ⟨.inl fun rest => ?_, .inr (by simp [returning, ho])⟩
        dsimp only
        rw [hnode, Tree.moved_append, hw.moved]
      · have ho : (returning dir name aside, .ok) ≠
            (Call.rename (dir ++ [aside]) (dir ++ [name]), o) := by
          rintro heq
          obtain rfl := (Prod.mk.inj heq).2
          rw [(rename_status_iff hbehind hbehind' hrenames).mpr rfl] at hstatus
          cases hstatus
        rw [Call.rename_failed hbehind hbehind' hstatus]
        exact (hw₂.logged ho).ended ⟨o₀, ho₀, by simp [hmem]⟩
    · have hw₂ := hw₁.logged (c := .touch (dir ++ [aside])) (o := o) nofun
      exact hw₂.ended ⟨o₀, ho₀, by simp [hmem]⟩
  · have hw₁ := hw.logged (c := .touch (dir ++ [name])) (o := o) nofun
    exact hw₁.ended ⟨o₀, ho₀, by simp [hmem]⟩

/-- Where a tree stands, nothing is put back. -/
theorem wp_putBack_of_some (hthere : w.1.tree.node (dir ++ [name]) ≠ none)
    (hw : Ended dir name hidden aside t₀ files w) :
    (putBack (dir ++ [name]) (dir ++ [aside])).wp exchangeMachine (fun _ => True)
      (fun _ v => Ended dir name hidden aside t₀ files v) w := by
  refine wp_attempt_cases (wp_pathExists ⟨nofun, ?_⟩ fun o _ => ⟨fun _ _ => ?_, nofun⟩)
  · rintro there ⟨rfl⟩
    rw [if_pos (decide_eq_true hthere)]
    exact (bystander_touch (dir ++ [name])).ended hw
  · exact (bystander_touch (dir ++ [name])).ended hw

/-- **The new tree is put in its place, or the old one back, or both are lost.** -/
theorem wp_place (hnames : TreeNames name hidden aside)
    (hroot : t₀.node (dir ++ [name]) = some .directory) (hw : Aside dir name aside t₀ w)
    (hfilled : Filled (dir ++ [hidden]) files w.1.tree)
    (hplacing : ∀ o, (placing dir name hidden, o) ∉ w.2) :
    (rescue ((orRaise (run (.rename (dir ++ [hidden]) (dir ++ [name]))) .osError).attempt fun _ =>
        orRaise (run (.removeTree (dir ++ [aside]))) .osError)
      (putBack (dir ++ [name]) (dir ++ [aside])) : DiskScript (Except BackupError Unit)).wp
        exchangeMachine (fun _ => True) (fun _ v => Ended dir name hidden aside t₀ files v) w := by
  have hrenames := Tree.renames_of_none hfilled.directory hw.empty
  have hbehind := not_behind_concat hw.plain hnames.hidden_ne_up
  have hbehind' := not_behind_concat hw.plain hnames.name_ne_up
  refine wp_rescue_anyway (wp_attempt_cases (wp_call_orRaise (fun o hstatus => ⟨nofun, fun _ _ => ?_⟩)
    fun o hstatus => ⟨fun _ _ => ⟨nofun, fun _ _ => ?_⟩, nofun⟩))
  · obtain ⟨-, -, hnode⟩ := Call.rename_ok hbehind hbehind' hstatus
    have ho := (rename_status_iff hbehind hbehind' hrenames).mp hstatus
    have hplaced := hfilled.moved hnode
    have hended : Ended dir name hidden aside t₀ files
        ((Call.effect up (.rename (dir ++ [hidden]) (dir ++ [name])) o w.1).2,
          w.2 ++ [(.rename (dir ++ [hidden]) (dir ++ [name]), o)]) := by
      refine .inl ⟨.inr hplaced, .inl fun o' ho' => ?_⟩
      rcases List.mem_append.mp ho' with ho' | ho'
      · exact absurd ho' (hplacing o')
      · exact (Prod.mk.inj (List.mem_singleton.mp ho')).2.trans ho
    have hbystander : Bystander dir name hidden aside (.removeTree (dir ++ [aside])) :=
      ⟨⟨not_prefix_of_sibling hnames.name_ne_aside.symm (List.prefix_refl _),
        not_prefix_of_sibling hnames.name_ne_aside (List.prefix_refl _)⟩, nofun, nofun⟩
    refine wp_call_orRaise (fun o' _ => ⟨fun _ _ => hbystander.ended hended, nofun⟩)
      fun o' _ => ⟨nofun, fun _ _ => wp_putBack_of_some ?_ (hbystander.ended hended)⟩
    have hnode' : (Call.effect up (.removeTree (dir ++ [aside])) o' (Call.effect up
        (.rename (dir ++ [hidden]) (dir ++ [name])) o w.1).2).2.tree.node (dir ++ [name] ++ []) = _ :=
      Call.node_of_spares hbystander.1 o' []
    rw [List.append_nil, hplaced.directory] at hnode'
    dsimp only
    rw [hnode']
    exact nofun
  · have ho : o ≠ .ok := by
      rintro rfl
      rw [(rename_status_iff hbehind hbehind' hrenames).mpr rfl] at hstatus
      cases hstatus
    rw [Call.rename_failed hbehind hbehind' hstatus]
    have hw₁ := hw.logged (c := placing dir name hidden) (o := o) (by simp [ho.symm])
    exact wp_putBack hnames hroot hw₁ ⟨o, ho, by simp [placing]⟩

/-- The old tree is moved aside: this is neither of the two calls. -/
theorem Before.logged_aside (hw : Before dir name hidden aside t₀ w)
    (hnames : TreeNames name hidden aside) (o : CallOutcome) :
    (∀ o', (EzOpenPN.placing dir name hidden, o') ∉
        w.2 ++ [(.rename (dir ++ [name]) (dir ++ [aside]), o)]) ∧
      ∀ o', (EzOpenPN.returning dir name aside, o') ∉
        w.2 ++ [(.rename (dir ++ [name]) (dir ++ [aside]), o)] := by
  refine ⟨fun o' hmem => ?_, fun o' hmem => ?_⟩
  · rcases List.mem_append.mp hmem with hmem | hmem
    · exact hw.placing o' hmem
    · simp [EzOpenPN.placing, hnames.name_ne_hidden.symm] at hmem
  · rcases List.mem_append.mp hmem with hmem | hmem
    · exact hw.returning o' hmem
    · simp [EzOpenPN.returning, hnames.name_ne_aside.symm] at hmem

/-- **The exchange of a tree**, after the new one was built. -/
theorem wp_exchangeTree (hnames : TreeNames name hidden aside)
    (hroot : t₀.node (dir ++ [name]) = some .directory) (hw : Before dir name hidden aside t₀ w)
    (hplain : w.1.tree.Plain up dir) (hfilled : Filled (dir ++ [hidden]) files w.1.tree) :
    (exchangeTree (dir ++ [name]) (dir ++ [hidden]) (dir ++ [aside])).wp exchangeMachine
      (fun _ => True) (fun _ v => Ended dir name hidden aside t₀ files v) w := by
  have hdirectory : w.1.tree.node (dir ++ [name]) = some .directory := by
    have := hw.kept []
    rwa [List.append_nil, hroot] at this
  have hname := not_behind_concat hplain hnames.name_ne_up
  have haside := not_behind_concat hplain hnames.aside_ne_up
  refine wp_attempt_cases (wp_pathExists ⟨by simp, fun _ _ => ?_⟩
    fun o _ => ⟨fun _ _ => ((bystander_touch _).before hw).ended, by simp⟩)
  have hw₁ : Before dir name hidden aside t₀ (w.1, w.2 ++ [(.touch (dir ++ [name]), .ok)]) :=
    (bystander_touch (dir ++ [name])).before hw
  have hlogged := hw₁.logged_aside hnames
  have hobs : exchangeMachine.obs (w.1, w.2 ++ [(Call.touch (dir ++ [name]), CallOutcome.ok)]) = w.1 := rfl
  rw [wp_look, hobs, hdirectory]
  refine wp_attempt_cases (wp_call_orRaise (fun o hstatus => ⟨by simp, fun _ _ => ?_⟩)
    fun o hstatus => ⟨fun _ _ => ?_, by simp⟩)
  · obtain ⟨-, -, hnode⟩ := Call.rename_ok hname haside hstatus
    obtain ⟨hfilled', hother⟩ :=
      hfilled.moved_aside hnames.name_ne_hidden hnames.aside_ne_hidden hnode
    refine wp_place hnames hroot ⟨?_, fun rest => ?_, (hlogged o).2 _, plain_of_other hplain hother⟩
      hfilled' (hlogged o).1
    · dsimp only
      rw [hnode]
      exact Tree.moved_source (not_prefix_of_sibling hnames.name_ne_aside (List.prefix_refl _))
        (List.prefix_refl _)
    · dsimp only
      rw [hnode, Tree.moved_append, hw.kept]
  · rw [Call.rename_failed hname haside hstatus]
    exact Before.ended ⟨hw.kept, (hlogged o).1, (hlogged o).2⟩

/-! ### The whole of it -/

/-- **A quiet part that may raise**: the old tree is still there, and what the part establishes is
what the rest starts from. -/
theorem wp_quiet_attempt {part : DiskScript (Except BackupError α)}
    {f : α → DiskScript (Except BackupError Unit)} {R : α → Disk FileName UInt8 → Prop}
    (hbystander : part.Only (Bystander dir name hidden aside)) (hw : Before dir name hidden aside t₀ w)
    (hpart : Establishes part w.1 fun result d => ∀ a, result = .ok a → R a d)
    (hrest : ∀ a v, Before dir name hidden aside t₀ v → R a v.1 →
      (f a).wp exchangeMachine (fun _ => True) (fun _ v => Ended dir name hidden aside t₀ files v) v) :
    (part.attempt f).wp exchangeMachine (fun _ => True)
      (fun _ v => Ended dir name hidden aside t₀ files v) w := by
  refine wp_attempt_cases (wp_mono (wp_and (wp_before_of_bystander hbystander hw) (wp_logged hpart))
    (fun _ _ => trivial) fun result v hv => ⟨fun _ _ => hv.1.ended, fun a ha => ?_⟩)
  exact hrest a v hv.1 (hv.2 a ha)

/-- **`_copy_tree` from an existing directory**, whatever fails. -/
theorem wp_copyTree {staging : Tree FileName UInt8} {source : List FileName}
    (hnames : TreeNames name hidden aside) (hroot : t₀.node (dir ++ [name]) = some .directory)
    (hw : Before dir name hidden aside t₀ w) (hplain : w.1.tree.Plain up dir)
    (hfiles : ∀ entry ∈ staging.filesBelow source, up ∉ entry.1) :
    (copyTree staging source (dir ++ [name]) (dir ++ [hidden]) (dir ++ [aside])).wp exchangeMachine
      (fun _ => True)
      (fun _ v => Ended dir name hidden aside t₀ (staging.filesBelow source) v) w := by
  rw [copyTree]
  split
  · exact hw.ended
  · rename_i hsource
    have hfiles' : ∀ entry ∈ staging.filesBelow source, entry.1 ≠ [] ∧ up ∉ entry.1 := by
      refine fun entry hentry => ⟨fun hnil => ?_, hfiles entry hentry⟩
      have hnode := Tree.mem_filesBelow.mp hentry
      rw [hnil, List.append_nil, hsource] at hnode
      cases hnode
    rw [List.dropLast_concat]
    have hmkdirs : (mkdirs dir).Only (Bystander dir name hidden aside) :=
      only_bystander_mkdirs fun q hq => not_prefix_of_above hq
    refine wp_quiet_attempt (Only.orRaise hmkdirs) hw
      (wp_orRaise_of (establishes_mkdirs_plain hplain)) fun _ w₁ hw₁ hd₁ => ?_
    have hplain₁ := hplain.frame hd₁.2 fun _ _ => id
    have hmkdir : Bystander dir name hidden aside (.mkdir (dir ++ [hidden])) :=
      bystander_mkdir (not_prefix_of_sibling hnames.name_ne_hidden.symm (List.prefix_refl _))
    refine wp_quiet_attempt (Only.orRaise (Only.run hmkdir)) hw₁
      (wp_orRaise_of (establishes_mkdir_hidden hplain₁ hnames.hidden_ne_up)) fun _ w₂ hw₂ hd₂ => ?_
    obtain ⟨-, hfilled₂, hframe₂⟩ := hd₂
    have hplain₂ := hplain₁.frame hframe₂ fun q hq => not_prefix_of_above hq
    refine wp_ensure_anyway (R := Ended dir name hidden aside t₀ (staging.filesBelow source)) ?_ ?_
    · have hlist : Establishes (done (stagedFiles staging source)) w₂.1 fun result d => ∀ files,
          result = .ok files → files = staging.filesBelow source ∧ d = w₂.1 :=
        fun files hok => ⟨eq_of_stagedFiles hok, rfl⟩
      refine wp_quiet_attempt trivial hw₂ hlist ?_
      rintro _ w₃ hw₃ ⟨rfl, hd₃⟩
      rw [← hd₃] at hplain₂ hfilled₂
      refine wp_quiet_attempt (only_bystander_copyFiles hnames.name_ne_hidden) hw₃
        (establishes_copyFiles hplain₂ hnames.hidden_ne_up hfiles' hfilled₂) fun _ w₄ hw₄ hd₄ => ?_
      obtain ⟨-, hfilled₄, hframe₄⟩ := hd₄
      rw [List.nil_append] at hfilled₄
      have hplain₄ := hplain₂.frame hframe₄ fun q hq => not_prefix_of_above hq
      refine wp_quiet_attempt (only_bystander_touchTree _) hw₄ (establishes_touchTree _)
        fun _ w₅ hw₅ hd₅ => ?_
      rw [← hd₅] at hplain₄ hfilled₄
      exact wp_exchangeTree hnames hroot hw₅ hplain₄ hfilled₄
    · intro w₃ hw₃
      exact wp_ended_of_bystander (Only.attempt (only_bystander_clearTree hnames.name_ne_hidden)
        fun _ => only_bystander_clearTree hnames.name_ne_aside) hw₃
  · exact hw.ended

end Exchange

/-- How an exchange ended, told from the tree. -/
theorem Ended.iff_saved {dir : List FileName} {name hidden aside : FileName}
    {t₀ : Tree FileName UInt8} {files : List (List FileName × Bytes)}
    {w : Disk FileName UInt8 × CallLog} (hw : Ended dir name hidden aside t₀ files w)
    (hroot : t₀.node (dir ++ [name]) = some .directory) :
    (Kept dir name t₀ w.1.tree ∨ Filled (dir ++ [name]) files w.1.tree) ↔
      Saved dir name hidden aside w.2 := by
  rcases hw with ⟨hholds, hsaved⟩ | ⟨hnone, hlost⟩
  · exact iff_of_true hholds hsaved
  · refine iff_of_false ?_ hlost
    rintro (hkept | hfilled)
    · have := hkept []
      rw [List.append_nil, hnone, hroot] at this
      cases this
    · have := hfilled.directory
      rw [hnone] at this
      cases this

namespace SampleRestore

/-- `caddy`. -/
def caddy : FileName := fileName "caddy"

/-- A directory with one file. -/
def oneFile (name : String) (content : Bytes) : Tree FileName UInt8 :=
  (SampleBackup.emptyStaging.tree.set [caddy] (some .directory)).set [caddy, fileName name]
    (some (.file content))

/-- An installation with its old tree. -/
def installed : Disk FileName UInt8 := ⟨oneFile "old" [1], false⟩

/-- The random ends of the names. -/
def names : RestoreNames := ⟨fun _ => fileName "k3x9", fun _ => fileName "417-a0"⟩

/-- The new tree is put in the place of the old one. -/
def exchange : DiskScript (Except BackupError Unit) :=
  copyTree (oneFile "new" [2]) [caddy] [caddy] (names.temporary [caddy]) (names.old [caddy])

/-- Neither the new tree can be put in its place nor the old one back. -/
def bothFail : List CallOutcome :=
  List.replicate 9 .ok ++ [.failed, .ok, .ok, .failed, .ok, .ok, .ok, .ok]

end SampleRestore

end EzOpenPN
