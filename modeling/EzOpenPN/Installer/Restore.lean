import EzOpenPN.Installer.TreeExchange

/-!
# A restore is exact

What stands below the root of an installation after `apply_payload` of `backup_archive.py` has
returned: the files of the archive at the ten places for files and in the two trees, and everything
else as it was. The list of places is kept by hand, in the function and in the tables of the archive,
so this is a statement about the list: that no place is above another, and that the hidden names
beside the places are no places either, whatever their random ends are.

Each of the fourteen parts of a restore writes below some paths of its own, the *roots*
(`EzOpenPN.RestorePart`). Parts whose roots are apart from each other do not undo what the others
did, so that all of them hold in the end (`EzOpenPN.establishes_parts`).

One thing changes that is no place: **a directory above a place is made if it is missing**
(`EzOpenPN.directory_made`), with `mkdir(parents=True, exist_ok=True)`.
-/

namespace EzOpenPN

open FileSystem Script

/-! ### Paths that are apart -/

/-- Neither list begins with the other. -/
def Apart {α : Type} (p q : List α) : Prop := ¬p <+: q ∧ ¬q <+: p

instance {α : Type} [DecidableEq α] (p q : List α) : Decidable (Apart p q) :=
  inferInstanceAs (Decidable (¬p <+: q ∧ ¬q <+: p))

theorem Apart.symm {α : Type} {p q : List α} (h : Apart p q) : Apart q p := ⟨h.2, h.1⟩

/-- What is below a path is not above a path that is apart from it. -/
theorem Apart.not_prefix_of_above {α : Type} {p q r : List α} (h : Apart p q) (hr : r <+: q)
    (rest : List α) : ¬p ++ rest <+: r :=
  fun hpre => h.1 ((List.prefix_append p rest).trans (hpre.trans hr))

/-- What is below a path is not below a path that is apart from it. -/
theorem Apart.not_prefix_append {α : Type} {p q : List α} (h : Apart p q) (rest : List α) :
    ¬q <+: p ++ rest := by
  intro hpre
  rcases List.prefix_or_prefix_of_prefix hpre (List.prefix_append p rest) with hqp | hpq
  · exact h.2 hqp
  · exact h.1 hpq

/-- The last name of a path, with a dot. -/
def dotted (p : List FileName) : FileName := p.getLast?.getD [] ++ fileName "."

/-- **Names that are used for a destination**: itself, and hidden names beside it. -/
def Beside (destination r : List FileName) : Prop :=
  r = destination ∨ ∃ tail, r = destination.dropLast ++ [fileName "." ++ dotted destination ++ tail]

/-- No name in a path begins with a dot. -/
def Undotted (p : List FileName) : Prop := ∀ name ∈ p, ¬fileName "." <+: name

instance (p : List FileName) : Decidable (Undotted p) :=
  inferInstanceAs (Decidable (∀ name ∈ p, ¬fileName "." <+: name))

/-- **Two destinations that do not meet**: neither is above the other, and in one directory neither
name with its dot begins with the other. -/
def Separate (p q : List FileName) : Prop :=
  Apart p q ∧ (p.dropLast = q.dropLast → Apart (dotted p) (dotted q))

instance (p q : List FileName) : Decidable (Separate p q) :=
  inferInstanceAs (Decidable (Apart p q ∧ (p.dropLast = q.dropLast → Apart (dotted p) (dotted q))))

theorem Separate.symm {p q : List FileName} (h : Separate p q) : Separate q p :=
  ⟨h.1.symm, fun heq => (h.2 heq.symm).symm⟩

section Beside

variable {p q r s : List FileName}

/-- A hidden name is no name in a destination. -/
theorem Undotted.hidden_not_mem (hp : Undotted p) (name tail : FileName) :
    fileName "." ++ name ++ tail ∉ p := by
  intro hmem
  rw [List.append_assoc] at hmem
  exact hp _ hmem (List.prefix_append _ _)

theorem not_prefix_of_beside (hp : Undotted p) (hq : Undotted q) (h : Separate p q)
    (hr : Beside p r) (hs : Beside q s) : ¬r <+: s := by
  have hdir : q.dropLast <+: q := List.dropLast_prefix q
  intro hpre
  rcases hr with rfl | ⟨tail, rfl⟩
  · rcases hs with rfl | ⟨tail', rfl⟩
    · exact h.1.1 hpre
    · rcases List.prefix_concat_iff.mp hpre with heq | habove
      · exact hp.hidden_not_mem _ tail' (heq ▸ List.mem_concat_self)
      · exact h.1.1 (habove.trans hdir)
  · rcases hs with rfl | ⟨tail', rfl⟩
    · exact hq.hidden_not_mem _ tail (hpre.subset List.mem_concat_self)
    · rcases List.prefix_concat_iff.mp hpre with heq | habove
      · -- one directory: the names begin differently
        obtain ⟨hdirs, hnames⟩ := List.append_inj' heq rfl
        have hname := List.singleton_inj.mp hnames
        rw [List.append_assoc, List.append_assoc, List.append_cancel_left_eq] at hname
        have hpre₁ := List.prefix_append (dotted p) tail
        have hpre₂ := List.prefix_append (dotted q) tail'
        rw [hname] at hpre₁
        rcases List.prefix_or_prefix_of_prefix hpre₁ hpre₂ with hpq | hqp
        · exact (h.2 hdirs).1 hpq
        · exact (h.2 hdirs).2 hqp
      · exact hq.hidden_not_mem _ tail
          (hdir.subset (habove.subset List.mem_concat_self))

/-- **The names of two destinations are apart**, also the hidden ones. -/
theorem apart_of_beside (hp : Undotted p) (hq : Undotted q) (h : Separate p q) (hr : Beside p r)
    (hs : Beside q s) : Apart r s :=
  ⟨not_prefix_of_beside hp hq h hr hs, not_prefix_of_beside hq hp h.symm hs hr⟩

end Beside

/-! ### Parts that do not meet -/

/-- **A part of a restore**: its destination, the paths below which it works, the paths it may
write, and what holds when it has returned. -/
structure RestorePart where
  script : DiskScript (Except BackupError Unit)
  destination : List FileName
  roots : List (List FileName)
  writes : List FileName → Prop
  goal : Tree FileName UInt8 → Prop

namespace RestorePart

/-- **A part does what it is for**, and its goal is about what is below its roots. -/
structure Correct (part : RestorePart) : Prop where
  beside : ∀ r ∈ part.roots, Beside part.destination r
  self : part.destination ∈ part.roots
  below : ∀ p, part.writes p → ∃ r ∈ part.roots, r <+: p
  stable : ∀ t t' : Tree FileName UInt8, part.goal t →
    (∀ r ∈ part.roots, ∀ rest, t'.node (r ++ rest) = t.node (r ++ rest)) → part.goal t'
  establishes : ∀ d : Disk FileName UInt8, d.tree.Plain up part.destination.dropLast →
    Establishes part.script d fun result d' => ∀ u, result = .ok u →
      d'.outside = d.outside ∧ part.goal d'.tree ∧
        d.tree.Frame (· <+: part.destination.dropLast) part.writes d'.tree

/-- Two parts that do not meet. -/
def Disjoint (a b : RestorePart) : Prop := ∀ r ∈ a.roots, ∀ s ∈ b.roots, Apart r s

variable {a b : RestorePart} {t t' : Tree FileName UInt8}

/-- The directories above a destination are not below the roots of another. -/
theorem Disjoint.not_above (h : a.Disjoint b) (hb : b.Correct) {r : List FileName}
    (hr : r ∈ a.roots) (rest : List FileName) : ¬r ++ rest <+: b.destination.dropLast :=
  (h r hr _ hb.self).not_prefix_of_above (List.dropLast_prefix _) rest

/-- **Other parts leave the goal of a part alone.** -/
theorem Correct.goal_of_frame {parts : List RestorePart} (ha : a.Correct)
    (hparts : ∀ b ∈ parts, b.Correct) (hdisjoint : ∀ b ∈ parts, a.Disjoint b) (hgoal : a.goal t)
    (hframe : t.Frame (fun p => ∃ b ∈ parts, p <+: b.destination.dropLast)
      (fun p => ∃ b ∈ parts, b.writes p) t') : a.goal t' := by
  refine ha.stable t t' hgoal fun r hr rest => ?_
  have hwrites : ¬∃ b ∈ parts, b.writes (r ++ rest) := by
    rintro ⟨b, hb, hwrites⟩
    obtain ⟨s, hs, hpre⟩ := (hparts b hb).below _ hwrites
    exact (hdisjoint b hb r hr s hs).not_prefix_append rest hpre
  rcases hframe _ hwrites with heq | ⟨⟨b, hb, habove⟩, -, -⟩
  · exact heq
  · exact absurd habove ((hdisjoint b hb).not_above (hparts b hb) hr rest)

/-- A directory above the destination of a part stays plain when another part has worked. -/
theorem Correct.plain_of_frame (ha : a.Correct) (hb : b.Correct) (h : a.Disjoint b)
    (hplain : t.Plain up b.destination.dropLast)
    (hframe : t.Frame (· <+: a.destination.dropLast) a.writes t') :
    t'.Plain up b.destination.dropLast := by
  refine hplain.frame hframe fun q hq hwrites => ?_
  obtain ⟨r, hr, hpre⟩ := ha.below q hwrites
  refine h.not_above hb hr [] ?_
  rw [List.append_nil]
  exact hpre.trans hq

end RestorePart

/-- **Parts that do not meet all hold in the end**, and nothing else has changed. -/
theorem establishes_parts {parts : List RestorePart} {d : Disk FileName UInt8}
    (hparts : ∀ part ∈ parts, part.Correct) (hdisjoint : parts.Pairwise RestorePart.Disjoint)
    (hplain : ∀ part ∈ parts, d.tree.Plain up part.destination.dropLast) :
    Establishes (inTurn (parts.map RestorePart.script)) d fun result d' => ∀ u, result = .ok u →
      d'.outside = d.outside ∧ (∀ part ∈ parts, part.goal d'.tree) ∧
        d.tree.Frame (fun p => ∃ part ∈ parts, p <+: part.destination.dropLast)
          (fun p => ∃ part ∈ parts, part.writes p) d'.tree := by
  induction parts generalizing d with
  | nil => exact fun _ _ => ⟨rfl, nofun, .refl _⟩
  | cons part rest ih =>
    obtain ⟨hpart, hrest⟩ := List.forall_mem_cons.mp hparts
    obtain ⟨hfirst, hothers⟩ := List.pairwise_cons.mp hdisjoint
    obtain ⟨hplain₀, hplains⟩ := List.forall_mem_cons.mp hplain
    refine wp_attempt_of (hpart.establishes d hplain₀) fun _ d₁ hd₁ => ?_
    obtain ⟨hout₁, hgoal₁, hframe₁⟩ := hd₁
    have hplain₁ : ∀ other ∈ rest, d₁.tree.Plain up other.destination.dropLast :=
      fun other hother => hpart.plain_of_frame (hrest other hother) (hfirst other hother)
        (hplains other hother) hframe₁
    refine wp_mono (ih hrest hothers hplain₁) (fun _ h => h) fun result d₂ hd₂ u hu => ?_
    obtain ⟨hout₂, hgoal₂, hframe₂⟩ := hd₂ u hu
    refine ⟨hout₂.trans hout₁, List.forall_mem_cons.mpr
      ⟨hpart.goal_of_frame hrest hfirst hgoal₁ hframe₂, hgoal₂⟩, ?_⟩
    refine (hframe₁.mono (fun p hp _ => ⟨part, by simp, hp⟩) fun p hp => ⟨part, by simp, hp⟩).trans
      (hframe₂.mono (fun p hp _ => ?_) fun p hp => ?_)
    · obtain ⟨other, hother, habove⟩ := hp
      exact ⟨other, List.mem_cons_of_mem _ hother, habove⟩
    · obtain ⟨other, hother, hwrites⟩ := hp
      exact ⟨other, List.mem_cons_of_mem _ hother, hwrites⟩

/-! ### The parts of a restore -/

section Parts

variable (names : RestoreNames) (staging : Tree FileName UInt8) (source p : List FileName)

/-- A log of the database is removed. -/
def logPart : RestorePart where
  script := unlinkMissing p
  destination := p
  roots := [p]
  writes q := q = p
  goal t := t.node p = none

/-- A file is replaced, and its temporary name is gone. -/
def filePart : RestorePart where
  script := installFile (sourceNode ⟨staging, false⟩ source) p (names.temporary p)
  destination := p
  roots := [p, names.temporary p]
  writes q := q = p ∨ q = names.temporary p
  goal t := (∃ content, staging.node source = some (.file content) ∧
    t.node p = some (.file content)) ∧ t.node (names.temporary p) = none

/-- A tree is exchanged, and nothing is left of the other names. -/
def treePart : RestorePart where
  script := copyTree staging source p (names.temporary p) (names.old p)
  destination := p
  roots := [p, names.temporary p, names.old p]
  writes q := p <+: q ∨ names.temporary p <+: q ∨ names.old p <+: q
  goal t := Filled p (staging.filesBelow source) t ∧
    ∀ q, names.temporary p <+: q ∨ names.old p <+: q → t.node q = none

variable {names staging source p}

/-- A hidden name whose tag begins with a dot. -/
theorem beside_beside {tag rest : String} (htag : fileName tag = fileName "." ++ fileName rest)
    (random : FileName) : Beside p (RestoreNames.beside p tag random) := by
  refine .inr ⟨fileName rest ++ random, ?_⟩
  rw [RestoreNames.beside, htag, dotted]
  simp only [List.append_assoc]

theorem beside_temporary : Beside p (names.temporary p) := by
  have htag : fileName ".restore-" = fileName "." ++ fileName "restore-" := by decide
  exact beside_beside htag _

theorem beside_old : Beside p (names.old p) := by
  have htag : fileName ".previous-" = fileName "." ++ fileName "previous-" := by decide
  exact beside_beside htag _

theorem correct_logPart (hup : up ∉ p) : (logPart p).Correct where
  beside r hr := .inl (List.mem_singleton.mp hr)
  self := List.mem_singleton.mpr rfl
  below q hq := ⟨p, List.mem_singleton.mpr rfl, by rw [show q = p from hq]⟩
  stable t t' hgoal hsame := by
    have hp := hsame p (List.mem_singleton.mpr rfl) []
    rw [List.append_nil] at hp
    exact hp.trans hgoal
  establishes d hplain := by
    refine wp_mono (establishes_unlinkMissing (hplain.not_behind (List.prefix_refl _) hup))
      (fun _ h => h) fun result d' hd' u hu => ?_
    obtain ⟨hout, hnone, hframe⟩ := hd' u hu
    exact ⟨hout, hnone, hframe.mono (fun _ h _ => h.elim) fun _ h => h⟩

theorem sourceNode_eq_file {d : Disk FileName UInt8} {q : List FileName} {content : Bytes}
    (h : sourceNode d q = .file content) : d.tree.node q = some (.file content) := by
  rw [sourceNode] at h
  split at h
  · cases h
  · rename_i c hc
    rw [hc, SourceNode.file.inj h]
  · cases h

theorem correct_filePart (hp : p ≠ []) (hup : up ∉ p) :
    (filePart names staging source p).Correct where
  beside r hr := by
    rcases List.mem_cons.mp hr with rfl | hr
    · exact .inl rfl
    · exact List.mem_singleton.mp hr ▸ beside_temporary
  self := List.mem_cons_self
  below q hq := by
    rcases hq with rfl | rfl
    · exact ⟨q, List.mem_cons_self, List.prefix_refl q⟩
    · exact ⟨_, List.mem_cons_of_mem _ List.mem_cons_self, List.prefix_refl _⟩
  stable t t' hgoal hsame := by
    have hnode : ∀ r ∈ [p, names.temporary p], t'.node r = t.node r := by
      intro r hr
      have := hsame r hr []
      rwa [List.append_nil] at this
    obtain ⟨⟨content, hsource, hfile⟩, hgone⟩ := hgoal
    exact ⟨⟨content, hsource, (hnode p (by simp)).trans hfile⟩, (hnode _ (by simp)).trans hgone⟩
  establishes d hplain := by
    obtain ⟨dir, name, rfl⟩ := (List.eq_nil_or_concat' p).resolve_left hp
    have hname : name ≠ up := fun heq => hup (heq ▸ List.mem_concat_self)
    have hnames := treeNames names dir hname
    dsimp only [filePart] at hplain ⊢
    rw [temporary_concat]
    rw [List.dropLast_concat] at hplain
    refine wp_mono (establishes_installFile hplain hname hnames.hidden_ne_up
      hnames.name_ne_hidden.symm) (fun _ h => h) fun result d' hd' u hu => ?_
    obtain ⟨content, hsource, hinstalled⟩ := hd' u hu
    exact ⟨hinstalled.outside, ⟨⟨content, sourceNode_eq_file hsource, hinstalled.file⟩,
      hinstalled.gone⟩, hinstalled.frame⟩

/-- **The files of a staged tree** do not lead up. -/
def Inward (staging : Tree FileName UInt8) (source : List FileName) : Prop :=
  ∀ entry ∈ staging.filesBelow source, up ∉ entry.1

theorem correct_treePart (hp : p ≠ []) (hup : up ∉ p) (hinward : Inward staging source) :
    (treePart names staging source p).Correct where
  beside r hr := by
    simp only [treePart, List.mem_cons, List.not_mem_nil, or_false] at hr
    rcases hr with rfl | rfl | rfl
    · exact .inl rfl
    · exact beside_temporary
    · exact beside_old
  self := List.mem_cons_self
  below q hq := by
    rcases hq with hq | hq | hq
    · exact ⟨_, by simp [treePart], hq⟩
    · exact ⟨_, by simp [treePart], hq⟩
    · exact ⟨_, by simp [treePart], hq⟩
  stable t t' hgoal hsame := by
    refine ⟨hgoal.1.congr (hsame p (by simp [treePart])), ?_⟩
    rintro _ (⟨rest, rfl⟩ | ⟨rest, rfl⟩)
    · rw [hsame _ (by simp [treePart])]
      exact hgoal.2 _ (.inl (List.prefix_append _ _))
    · rw [hsame _ (by simp [treePart])]
      exact hgoal.2 _ (.inr (List.prefix_append _ _))
  establishes d hplain := by
    obtain ⟨dir, name, rfl⟩ := (List.eq_nil_or_concat' p).resolve_left hp
    have hname : name ≠ up := fun heq => hup (heq ▸ List.mem_concat_self)
    dsimp only [treePart] at hplain ⊢
    rw [temporary_concat, old_concat]
    rw [List.dropLast_concat] at hplain ⊢
    by_cases hdirectory : staging.node source = some .directory
    · have hfiles : ∀ entry ∈ staging.filesBelow source, entry.1 ≠ [] ∧ up ∉ entry.1 := by
        refine fun entry hentry => ⟨fun hnil => ?_, hinward entry hentry⟩
        have hnode := Tree.mem_filesBelow.mp hentry
        rw [hnil, List.append_nil, hdirectory] at hnode
        cases hnode
      refine wp_mono (establishes_copyTree (treeNames names dir hname) hplain hfiles)
        (fun _ h => h) fun result d' hd' u hu => ?_
      obtain ⟨hplaced, hgone⟩ := hd' u hu
      exact ⟨hplaced.outside, ⟨hplaced.filled, fun q hq => hq.elim (hplaced.gone q) (hgone q)⟩,
        hplaced.frame⟩
    · rw [Establishes, copyTree]
      split
      · simp
      · rename_i hnode
        exact absurd hnode hdirectory
      · simp

end Parts

/-! ### The list of places -/

/-- The places of a restore: the logs, the files and the trees. -/
def restorePlaces : List (List FileName) :=
  (databaseLogs ++ fixedDestinations.map Prod.snd ++ treeDestinations.map Prod.snd).map rootPath

/-- `install.json`, which is not restored. -/
def installState : List FileName := rootPath "var/lib/ezopenpn/install.json"

section Places

variable (names : RestoreNames) (staging : Tree FileName UInt8)

/-- The parts of `apply_payload`. -/
def restoreParts : List RestorePart :=
  databaseLogs.map (fun name => logPart (rootPath name)) ++
  fixedDestinations.map (fun entry =>
    filePart names staging (payloadPath (codePoints entry.1)) (rootPath entry.2)) ++
  treeDestinations.map fun entry =>
    treePart names staging (payloadPath (codePoints entry.1)) (rootPath entry.2)

theorem map_script_restoreParts :
    (restoreParts names staging).map RestorePart.script = restoreSteps names staging := by
  simp only [restoreParts, restoreSteps, List.map_append, List.map_map]
  rfl

theorem map_destination_restoreParts :
    (restoreParts names staging).map RestorePart.destination = restorePlaces := by
  simp only [restoreParts, restorePlaces, List.map_append, List.map_map]
  rfl

/-- **The places do not meet**, and `install.json` is apart from all of them. -/
theorem separate_places : (installState :: restorePlaces).Pairwise Separate := by decide +kernel

theorem undotted_places : ∀ p ∈ installState :: restorePlaces, Undotted p := by decide +kernel

theorem place_ne_nil : ∀ p ∈ restorePlaces, p ≠ [] ∧ up ∉ p := by decide +kernel

/-- `install.json` is above no place. -/
theorem installState_not_above : ∀ p ∈ restorePlaces, ¬installState <+: p.dropLast := by
  decide +kernel

variable {names staging}

theorem destination_mem_places {part : RestorePart} (h : part ∈ restoreParts names staging) :
    part.destination ∈ restorePlaces :=
  map_destination_restoreParts names staging ▸ List.mem_map_of_mem h

theorem correct_restoreParts
    (hinward : ∀ entry ∈ treeDestinations, Inward staging (payloadPath (codePoints entry.1))) :
    ∀ part ∈ restoreParts names staging, part.Correct := by
  intro part hpart
  obtain ⟨hne, hup⟩ := place_ne_nil _ (destination_mem_places hpart)
  simp only [restoreParts, List.mem_append, List.mem_map] at hpart
  rcases hpart with (⟨name, -, rfl⟩ | ⟨entry, -, rfl⟩) | ⟨entry, hentry, rfl⟩
  · exact correct_logPart hup
  · exact correct_filePart hne hup
  · exact correct_treePart hne hup (hinward entry hentry)

theorem disjoint_restoreParts (hparts : ∀ part ∈ restoreParts names staging, part.Correct) :
    (restoreParts names staging).Pairwise RestorePart.Disjoint := by
  have hseparate := (List.pairwise_cons.mp separate_places).2
  rw [← map_destination_restoreParts names staging, List.pairwise_map] at hseparate
  refine hseparate.imp_of_mem fun ha hb hab r hr s hs => ?_
  exact apart_of_beside (undotted_places _ (List.mem_cons_of_mem _ (destination_mem_places ha)))
    (undotted_places _ (List.mem_cons_of_mem _ (destination_mem_places hb))) hab
    ((hparts _ ha).beside r hr) ((hparts _ hb).beside s hs)

/-- **No part writes `install.json`.** -/
theorem installState_not_written (hparts : ∀ part ∈ restoreParts names staging, part.Correct) :
    ¬∃ part ∈ restoreParts names staging, part.writes installState := by
  rintro ⟨part, hpart, hwrites⟩
  have hplace := destination_mem_places hpart
  obtain ⟨r, hr, hpre⟩ := (hparts part hpart).below _ hwrites
  have hseparate := (List.pairwise_cons.mp separate_places).1 _ hplace
  exact not_prefix_of_beside (undotted_places _ (List.mem_cons_of_mem _ hplace))
    (undotted_places _ List.mem_cons_self) hseparate.symm ((hparts part hpart).beside r hr)
    (.inl rfl) hpre

end Places

/-! ### What is staged -/

section Staged

variable {tools : ReaderTools} {created : CreatedArchive} {staging : StagingDirectory}
variable {currentState : SourceNode} {expectedOwner : ℕ} {archive : ReadArchive}

/-- The archive's copy of a file. -/
def archived (members : List ArchiveMember) (path : PyStr) : Option Bytes :=
  memberContent members (codePoints "payload/" ++ path)

/-- **The files of a staged payload** are those of the archive, but for what the engine leaves, and
no path leads up. -/
structure Staged (members : List ArchiveMember) (records : List FileRecord)
    (t : Tree FileName UInt8) : Prop where
  files : ∀ q content, payloadName :: q ∉ extraPaths →
    (t.node (payloadName :: q) = some (.file content) ↔
      ∃ record ∈ records, q = realPath record.path ∧ archived members record.path = some content)
  inward : ∀ record ∈ records, up ∉ realPath record.path
  distinct : (records.map fun record => realPath record.path).Nodup
  fixed : ∀ s ∈ fixedSources, codePoints s.1 ∈ records.map FileRecord.path

/-- Every record has a member, and a path that can be written. -/
def Found (members : List ArchiveMember) (records : List FileRecord) : Prop :=
  ∀ record ∈ records, Encodable record.path ∧ ∃ content, archived members record.path = some content

theorem establishes_found {members : List ArchiveMember} {records : List FileRecord}
    {d : Disk FileName UInt8} :
    Establishes (extractMembers tools members records) d fun result _ => ∀ u, result = .ok u →
      Found members records := by
  induction records generalizing d with
  | nil => exact fun _ _ record hmem => absurd hmem (by simp)
  | cons record rest ih =>
    rw [Establishes, extractMembers]
    split
    · simp
    · rename_i content hcontent
      have hencodable : Establishes (extractMember tools content record) d fun result _ => ∀ u,
          result = .ok u → Encodable record.path := by
        rw [Establishes, extractMember, wp_ite]
        refine ⟨fun _ => by simp, fun hencodable => ?_⟩
        exact wp_mono (wp_true _) (fun _ h => h) fun _ _ _ _ _ => not_not.mp hencodable
      refine wp_attempt_of hencodable fun _ d₁ hpath => ?_
      refine wp_mono ih (fun _ h => h) fun result _ hfound u hu => ?_
      exact List.forall_mem_cons.mpr ⟨⟨hpath, content, hcontent⟩, hfound u hu⟩

theorem establishes_extractArchive_found {d : Disk FileName UInt8}
    (hread : readArchive tools created staging.status expectedOwner = .ok archive) :
    Establishes (extractArchive tools created staging.status currentState expectedOwner) d
      fun result _ => ∀ fields, result = .ok fields → Found archive.members archive.records := by
  rw [Establishes, extractArchive, hread]
  refine wp_attempt_of establishes_found fun _ d₁ hfound => ?_
  exact wp_mono (wp_true _) (fun _ h => h) fun _ _ _ _ _ => hfound

theorem readArchive_unpack {status : DirectoryStatus}
    (h : readArchive tools created status expectedOwner = .ok archive) :
    tools.unpack created.archive.content = some archive.members := by
  rw [readArchive] at h
  simp only [Except.bind_eq_ok] at h
  obtain ⟨-, -, -, -, -, -, h⟩ := h
  split at h
  · cases h
  · rename_i members hmembers
    simp only [Except.bind_eq_ok] at h
    obtain ⟨names, -, _, -, h⟩ := h
    split at h
    · cases h
    · simp only [Except.bind_eq_ok] at h
      obtain ⟨fields, -, records, -, _, -, h⟩ := h
      obtain rfl := Except.ok.inj h
      exact hmembers

/-- **An archive that is accepted is staged.** -/
theorem staged_of_extractArchive {choices : List CallOutcome} {fields : List (PyStr × Json)}
    {staged : Disk FileName UInt8}
    (hrun : (extractArchive tools created staging.status currentState expectedOwner).exec
      (diskMachine up) choices staging.disk = (some (.ok fields), staged)) :
    ∃ members records, tools.unpack created.archive.content = some members ∧
      manifestRecords fields = .ok records ∧ Staged members records staged.tree := by
  obtain ⟨-, hinside, -, -⟩ := extractArchive_confined tools created staging currentState
    expectedOwner choices
  rw [hrun] at hinside
  cases hread : readArchive tools created staging.status expectedOwner with
  | error e =>
    rw [extractArchive, hread] at hrun
    cases hrun
  | ok archive =>
    obtain ⟨-, hempty⟩ := held_disk hread
    have hrecords := (readArchive_ok hread).2.2
    have hchecked := checkedRecords_of_ok hrecords
    obtain ⟨rfl, d₁, hextracted, hsame⟩ := (exec_of_wp (establishes_extractArchive hread hempty)
      trivial choices).2 _ _ hrun fields rfl hinside
    have hfound := (exec_of_wp (establishes_extractArchive_found hread) trivial choices).2 _ _ hrun
      archive.fields rfl
    have hstored : ∀ record ∈ archive.records, ∀ content,
        archived archive.members record.path = some content ↔
          content = stored archive.members record := by
      intro record hrecord content
      obtain ⟨-, c, hc⟩ := hfound record hrecord
      rw [stored, show memberContent _ _ = some c from hc, hc, Option.getD_some, Option.some.injEq,
        eq_comm]
    refine ⟨archive.members, archive.records, readArchive_unpack hread, hrecords,
      fun q content hq => ?_, fun record hrecord hmem => ?_, ?_, hchecked.fixed⟩
    · rw [(hsame hinside).2 _ hq, hextracted.files]
      refine exists_congr fun record => and_congr_right fun hrecord => ?_
      rw [payloadPath, List.cons.injEq, hstored record hrecord]
      simp
    · exact up_not_mem_payloadPath (hchecked.valid record hrecord) (hfound record hrecord).1
        (List.mem_cons_of_mem _ hmem)
    · have hdistinct := hextracted.distinct
      rw [show (fun record : FileRecord => payloadPath record.path) =
        (payloadName :: ·) ∘ fun record => realPath record.path from rfl, ← List.map_map] at hdistinct
      exact hdistinct.of_map _

end Staged

/-! ### A restore is exact -/

/-- **The paths that a restore may write.** -/
def Rewritten (names : RestoreNames) (p : List FileName) : Prop :=
  (∃ name ∈ databaseLogs, p = rootPath name) ∨
  (∃ entry ∈ fixedDestinations, p = rootPath entry.2 ∨ p = names.temporary (rootPath entry.2)) ∨
  ∃ entry ∈ treeDestinations, rootPath entry.2 <+: p ∨
    names.temporary (rootPath entry.2) <+: p ∨ names.old (rootPath entry.2) <+: p

/-- A directory above a place. -/
def OnTheWay (p : List FileName) : Prop :=
  ∃ entry ∈ fixedDestinations ++ treeDestinations, p <+: (rootPath entry.2).dropLast

/-- **What a restore leaves at its places**: the files of the archive, and nothing else. -/
structure Restored (names : RestoreNames) (members : List ArchiveMember) (records : List FileRecord)
    (t : Tree FileName UInt8) : Prop where
  files : ∀ entry ∈ fixedDestinations, ∃ content, archived members (codePoints entry.1) = some content ∧
    t.node (rootPath entry.2) = some (.file content)
  trees : ∀ entry ∈ treeDestinations, t.node (rootPath entry.2) = some .directory ∧
    ∀ rest content, t.node (rootPath entry.2 ++ rest) = some (.file content) ↔
      ∃ record ∈ records, realPath record.path = realPath (codePoints entry.1) ++ rest ∧
        archived members record.path = some content
  linkless : ∀ entry ∈ treeDestinations, ∀ rest, t.node (rootPath entry.2 ++ rest) ≠ some .link
  logs : ∀ name ∈ databaseLogs, t.node (rootPath name) = none
  temporaries : ∀ entry ∈ fixedDestinations, t.node (names.temporary (rootPath entry.2)) = none
  previous : ∀ entry ∈ treeDestinations, ∀ p, names.temporary (rootPath entry.2) <+: p ∨
    names.old (rootPath entry.2) <+: p → t.node p = none

section Exact

variable {tools : ReaderTools} {names : RestoreNames} {members : List ArchiveMember}
variable {records : List FileRecord} {t t' : Tree FileName UInt8}

/-- The sources of a restore are no files of the engine. -/
theorem source_not_extra :
    (∀ entry ∈ fixedDestinations, payloadPath (codePoints entry.1) ∉ extraPaths) ∧
      ∀ entry ∈ treeDestinations, ∀ p ∈ extraPaths, ¬payloadPath (codePoints entry.1) <+: p := by
  decide +kernel

/-- **The two lists agree**: what is restored as a file is required of an archive. -/
theorem fixedDestinations_required :
    ∀ entry ∈ fixedDestinations, ∃ s ∈ fixedSources, s.1 = entry.1 := by
  decide +kernel

/-- The files of a staged tree are those of the archive. -/
theorem Staged.tree_files (h : Staged members records t) {entry : String × String}
    (hentry : entry ∈ treeDestinations) (rest : List FileName) (content : Bytes) :
    t.node (payloadPath (codePoints entry.1) ++ rest) = some (.file content) ↔
      ∃ record ∈ records, realPath record.path = realPath (codePoints entry.1) ++ rest ∧
        archived members record.path = some content := by
  have hextra : payloadName :: (realPath (codePoints entry.1) ++ rest) ∉ extraPaths :=
    fun hmem => source_not_extra.2 entry hentry _ hmem (List.prefix_append _ rest)
  rw [payloadPath, List.cons_append, h.files _ _ hextra]
  exact exists_congr fun record => and_congr_right fun _ => and_congr_left fun _ => eq_comm

theorem Staged.inward_tree (h : Staged members records t) :
    ∀ entry ∈ treeDestinations, Inward t (payloadPath (codePoints entry.1)) := by
  intro entry hentry file hfile hmem
  obtain ⟨record, hrecord, hpath, -⟩ :=
    (h.tree_files hentry file.1 file.2).mp (Tree.mem_filesBelow.mp hfile)
  exact h.inward record hrecord (hpath ▸ List.mem_append_right _ hmem)

/-- **A staged file is the archive's copy**: no other record is at its path. -/
theorem Staged.fixed_file (h : Staged members records t) {entry : String × String}
    (hentry : entry ∈ fixedDestinations) {content : Bytes}
    (hnode : t.node (payloadPath (codePoints entry.1)) = some (.file content)) :
    archived members (codePoints entry.1) = some content := by
  obtain ⟨record, hrecord, hpath, hcontent⟩ :=
    (h.files _ _ (source_not_extra.1 entry hentry)).mp hnode
  obtain ⟨s, hs, hname⟩ := fixedDestinations_required entry hentry
  obtain ⟨required, hrequired, heq⟩ := List.mem_map.mp (h.fixed s hs)
  rw [hname] at heq
  have hsame : required = record :=
    List.inj_on_of_nodup_map h.distinct hrequired hrecord (by rw [heq, hpath])
  rw [← heq, hsame, hcontent]

theorem rewritten_of_writes {staging : Tree FileName UInt8} {p : List FileName}
    (h : ∃ part ∈ restoreParts names staging, part.writes p) : Rewritten names p := by
  obtain ⟨part, hpart, hwrites⟩ := h
  simp only [restoreParts, List.mem_append, List.mem_map] at hpart
  rcases hpart with (⟨name, hname, rfl⟩ | ⟨entry, hentry, rfl⟩) | ⟨entry, hentry, rfl⟩
  · exact .inl ⟨name, hname, hwrites⟩
  · exact .inr (.inl ⟨entry, hentry, hwrites⟩)
  · exact .inr (.inr ⟨entry, hentry, hwrites⟩)

/-- The logs are beside the database. -/
theorem dropLast_place : ∀ p ∈ restorePlaces,
    ∃ entry ∈ fixedDestinations ++ treeDestinations, p.dropLast = (rootPath entry.2).dropLast := by
  decide +kernel

theorem onTheWay_of_place {p q : List FileName} (hq : q ∈ restorePlaces) (hp : p <+: q.dropLast) :
    OnTheWay p := by
  obtain ⟨entry, hentry, heq⟩ := dropLast_place q hq
  exact ⟨entry, hentry, heq ▸ hp⟩

/-- **All goals together are a restored installation.** -/
theorem Staged.restored (h : Staged members records t)
    (hgoals : ∀ part ∈ restoreParts names t, part.goal t') : Restored names members records t' := by
  have hlog : ∀ name ∈ databaseLogs, t'.node (rootPath name) = none := by
    intro name hname
    exact hgoals _ (List.mem_append_left _ (List.mem_append_left _ (List.mem_map_of_mem hname)))
  have hfile : ∀ entry ∈ fixedDestinations,
      (filePart names t (payloadPath (codePoints entry.1)) (rootPath entry.2)).goal t' := by
    intro entry hentry
    exact hgoals _ (List.mem_append_left _ (List.mem_append_right _ (List.mem_map_of_mem hentry)))
  have htree : ∀ entry ∈ treeDestinations,
      (treePart names t (payloadPath (codePoints entry.1)) (rootPath entry.2)).goal t' := by
    intro entry hentry
    exact hgoals _ (List.mem_append_right _ (List.mem_map_of_mem hentry))
  refine ⟨fun entry hentry => ?_, fun entry hentry => ?_, fun entry hentry => ?_, hlog,
    fun entry hentry => (hfile entry hentry).2, fun entry hentry => (htree entry hentry).2⟩
  · obtain ⟨content, hstaged, hrestored⟩ := (hfile entry hentry).1
    exact ⟨content, h.fixed_file hentry hstaged, hrestored⟩
  · obtain ⟨hdirectory, hfiles, -⟩ := (htree entry hentry).1
    refine ⟨hdirectory, fun rest content => ?_⟩
    rw [hfiles, Tree.mem_filesBelow]
    exact h.tree_files hentry rest content
  · exact (htree entry hentry).1.linkless

theorem establishes_applyPayload {d : Disk FileName UInt8} (h : Staged members records t)
    (hroot : ∀ p, OnTheWay p → d.tree.node p ≠ some .link) :
    Establishes (applyPayload tools names t) d fun result d' => ∀ u, result = .ok u →
      d'.outside = d.outside ∧ Restored names members records d'.tree ∧
        d'.tree.node installState = d.tree.node installState ∧
        d.tree.Frame OnTheWay (Rewritten names) d'.tree := by
  rw [Establishes, applyPayload]
  split
  · simp
  · rw [← map_script_restoreParts]
    have hparts : ∀ part ∈ restoreParts names t, part.Correct := correct_restoreParts h.inward_tree
    have hplain : ∀ part ∈ restoreParts names t, d.tree.Plain up part.destination.dropLast := by
      intro part hpart
      have hplace := destination_mem_places hpart
      refine ⟨fun hmem => (place_ne_nil _ hplace).2 (List.mem_of_mem_dropLast hmem), fun q hq => ?_⟩
      exact hroot q (onTheWay_of_place hplace hq)
    refine wp_mono (establishes_parts hparts (disjoint_restoreParts hparts) hplain) (fun _ h => h) ?_
    intro result d' hd' u hu
    obtain ⟨hout, hgoals, hframe⟩ := hd' u hu
    refine ⟨hout, h.restored hgoals, ?_, hframe.mono ?_ fun p hp => rewritten_of_writes hp⟩
    · refine (hframe installState (installState_not_written hparts)).resolve_right ?_
      rintro ⟨⟨part, hpart, habove⟩, -⟩
      exact installState_not_above _ (destination_mem_places hpart) habove
    · rintro p ⟨part, hpart, habove⟩ -
      exact onTheWay_of_place (destination_mem_places hpart) habove

end Exact

namespace SampleRestore

/-- A root with nothing in it. -/
def emptyRoot : Disk FileName UInt8 := SampleBackup.emptyStaging.disk

/-- The restore of the archive of an installation, without failures. -/
def restored : Option (Except BackupError Unit) × Disk FileName UInt8 :=
  (applyPayload SampleBackup.readerTools names SampleBackup.ended.2.tree).exec (diskMachine up)
    (List.replicate 300 .ok) emptyRoot

/-- A run returned. -/
def returned {α : Type} (result : Option (Except BackupError α)) : Bool :=
  match result with
  | some (.ok _) => true
  | _ => false

theorem of_returned {α : Type} {result : Option (Except BackupError α)}
    (h : returned result = true) : ∃ a, result = some (.ok a) := by
  rcases result with _ | _ | a
  · cases h
  · cases h
  · exact ⟨a, rfl⟩

/-- What an older installation put below the root: a configuration and a certificate of its own, and
a log beside its database. -/
def olderNodes : List (String × Node UInt8) :=
  [("etc", .directory), ("etc/ezopenpn", .directory), ("etc/ezopenpn/control.toml", .file [7]),
    ("var", .directory), ("var/lib", .directory), ("var/lib/ezopenpn", .directory),
    ("var/lib/ezopenpn/caddy", .directory), ("var/lib/ezopenpn/caddy/old.crt", .file [8]),
    ("var/lib/ezopenpn/control", .directory),
    ("var/lib/ezopenpn/control/ezopenpn.sqlite3-wal", .file [9])]

/-- **The root of an older installation.** -/
def olderRoot : Disk FileName UInt8 where
  tree := olderNodes.foldl (fun t entry => t.set (rootPath entry.1) (some entry.2))
    SampleBackup.emptyStaging.tree
  outside := false

/-- The restore of the archive over the older installation, without failures. -/
def replaced : Option (Except BackupError Unit) × Disk FileName UInt8 :=
  (applyPayload SampleBackup.readerTools names SampleBackup.ended.2.tree).exec (diskMachine up)
    (List.replicate 300 .ok) olderRoot

/-- The files of the older installation that have no place in the archive. -/
def olderFiles : List (List FileName) :=
  ["var/lib/ezopenpn/caddy/old.crt", "var/lib/ezopenpn/control/ezopenpn.sqlite3-wal"].map rootPath

/-- **The archive is accepted and restored** into either root: the empty one gets a directory `etc`; in
the other one the older configuration is replaced, and the other two files go. -/
theorem restores_ok : returned SampleBackup.ended.1 = true ∧
    (restored.1 = some (.ok ()) ∧ restored.2.tree.node (rootPath "etc") = some .directory) ∧
    replaced.1 = some (.ok ()) ∧
    olderRoot.tree.node (rootPath "etc/ezopenpn/control.toml") = some (.file [7]) ∧
    replaced.2.tree.node (rootPath "etc/ezopenpn/control.toml") ≠ some (.file [7]) ∧
    ∀ p ∈ olderFiles, olderRoot.tree.node p ≠ none ∧ replaced.2.tree.node p = none := by
  decide +kernel

/-- There is no link in the older installation. -/
theorem olderRoot_linkless : olderRoot.tree.Linkless := by
  have hpaths : ∀ p ∈ olderRoot.tree.paths, olderRoot.tree.node p ≠ some .link := by
    decide +kernel
  intro p hp
  have hne : olderRoot.tree.node p ≠ none := by
    rw [hp]
    exact Option.some_ne_none _
  exact hpaths p (olderRoot.tree.mem_paths p hne) hp

/-- A run that returned, with its value. -/
theorem eq_of_fst {α β : Type} {pair : α × β} {a : α} (h : pair.1 = a) : pair = (a, pair.2) := by
  rw [← h]

theorem emptyRoot_node (p : List FileName) :
    emptyRoot.tree.node p = if p = [] then some .directory else none := rfl

end SampleRestore

end EzOpenPN
