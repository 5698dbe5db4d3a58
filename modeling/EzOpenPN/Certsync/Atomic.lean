import EzOpenPN.Certsync.Export

/-!
# The chain and the key between two renames

An export renames the chain into its place and then the key. This file follows the two files through
every step of an export, with every pattern of failing calls: each of them is always the old one or
the new one (`EzOpenPN.Certsync.moment_mixed`), but together they are not. Between the two renames
the new chain stands with the old key, and a process that stops there, or a second rename that
fails, leaves it so. `EzOpenPN.Certsync.pairAtomic_iff` says when this does no harm: **exactly when
the chain or the key does not change**, as in a renewal that keeps its key, or nothing is exported at
all because the year of the expiry cannot be written.
-/

namespace EzOpenPN

namespace Certsync

variable {lib : Library}

/-! ### The chain and the key between the renames -/

section Staging

open Script

/-- Only a rename changes the exported files. -/
theorem files_perform {c : Call} (hc : ∀ temp name, c ≠ .rename temp name) (x : Fault)
    (o : Output) : (outputMachine.perform c x o).2.files = o.files := by
  cases x with
  | none =>
    cases c with
    | mkdirAll => simp only [outputMachine_perform_none, Call.effect]; split <;> rfl
    | rename temp name => exact absurd rfl (hc temp name)
    | _ => rfl
  | fails left => cases c <;> rfl

/-- **What staging leaves alone**: the exported files and the earlier temporary files. -/
structure Output.Staging (s t : Output) : Prop where
  files : t.files = s.files
  temps : ∀ i < s.nextTemp, t.temps i = s.temps i
  nextTemp : s.nextTemp ≤ t.nextTemp

theorem Output.Staging.refl (s : Output) : s.Staging s := ⟨rfl, fun _ _ => rfl, le_rfl⟩

theorem Output.Staging.trans {s t u : Output} (h : s.Staging t) (h' : t.Staging u) :
    s.Staging u where
  files := h'.files.trans h.files
  temps := fun i hi => (h'.temps i (hi.trans_le h.nextTemp)).trans (h.temps i hi)
  nextTemp := h.nextTemp.trans h'.nextTemp

/-- The calls that staging makes on the file it has created. -/
inductive Call.On (temp : ℕ) : Call → Prop where
  | chmod : On temp (.chmod temp)
  | write (content : Bytes) : On temp (.write temp content)
  | sync : On temp (.sync temp)
  | close : On temp (.close temp)
  | remove : On temp (.remove temp)

/-- Such a call leaves everything else alone. -/
theorem staging_perform {s t : Output} {temp : ℕ} {c : Call} (hc : c.On temp)
    (htemp : s.nextTemp ≤ temp) (h : s.Staging t) (x : Fault) :
    s.Staging (outputMachine.perform c x t).2 := by
  have hset : ∀ f, s.Staging (t.setTemp temp f) := by
    intro f
    refine ⟨h.files, fun i hi => ?_, h.nextTemp⟩
    have hne : i ≠ temp := by omega
    exact (Function.update_of_ne hne f t.temps).trans (h.temps i hi)
  cases hc <;> cases x <;> first | exact hset _ | exact h

section Fill

variable {s t : Output} {temp : ℕ}

/-- The postcondition of staging one file as `temp`. -/
def Filled (s : Output) (temp : ℕ) (content : Bytes) (r : Option ℕ) (t : Output) : Prop :=
  s.Staging t ∧ (r.isSome → r = some temp ∧ temp < t.nextTemp ∧
    t.temps temp = some ⟨content, 0o640⟩)

/-- **The four calls on a new file**: when they succeed it holds the content. -/
theorem wp_fill (content : Bytes) (htemp : s.nextTemp ≤ temp) (hst : s.Staging t)
    (hlt : temp < t.nextTemp) {perm : ℕ} (hnew : t.temps temp = some ⟨[], perm⟩) :
    wp outputMachine s.Staging (Script.all [.run (.chmod temp), .run (.write temp content),
      .run (.sync temp), .run (.close temp)])
      (fun ok u => s.Staging u ∧ (ok = true → temp < u.nextTemp ∧
        u.temps temp = some ⟨content, 0o640⟩)) t := by
  rw [wp_all_cons, wp_run]
  intro x
  have h₁ := staging_perform (Call.On.chmod) htemp hst x
  refine ⟨h₁, fun hok => ?_, fun _ => ⟨h₁, nofun⟩⟩
  cases x with
  | fails left => simp at hok
  | none =>
    obtain ⟨u, hu⟩ : ∃ u, u = (outputMachine.perform (.chmod temp) .none t).2 := ⟨_, rfl⟩
    rw [← hu] at h₁ ⊢
    have hchmod : u.temps temp = some ⟨[], 0o640⟩ ∧ temp < u.nextTemp := by
      simp [hu, Call.effect, Output.setTemp, hnew, hlt]
    rw [wp_all_cons, wp_run]
    intro y
    have h₂ := staging_perform (Call.On.write content) htemp h₁ y
    refine ⟨h₂, fun hok => ?_, fun _ => ⟨h₂, nofun⟩⟩
    cases y with
    | fails left => simp at hok
    | none =>
      obtain ⟨v, hv⟩ : ∃ v, v = (outputMachine.perform (.write temp content) .none u).2 := ⟨_, rfl⟩
      rw [← hv] at h₂ ⊢
      have hwrite : v.temps temp = some ⟨content, 0o640⟩ ∧ temp < v.nextTemp := by
        simp [hv, Call.effect, Output.setTemp, hchmod]
      -- the last two calls change nothing
      have hsync : ∀ x, (outputMachine.perform (.sync temp) x v).2 = v := by
        intro x
        cases x <;> rfl
      have hclose : ∀ x, (outputMachine.perform (.close temp) x v).2 = v := by
        intro x
        cases x <;> rfl
      rw [wp_all_cons, wp_run]
      intro x
      rw [hsync]
      refine ⟨h₂, fun _ => ?_, fun _ => ⟨h₂, nofun⟩⟩
      rw [wp_all_cons, wp_run]
      intro y
      rw [hclose]
      exact ⟨h₂, fun _ => ⟨h₂, fun _ => ⟨hwrite.2, hwrite.1⟩⟩, fun _ => ⟨h₂, nofun⟩⟩

/-- A new file is filled or removed. -/
theorem wp_fillTemp (content : Bytes) (htemp : s.nextTemp ≤ temp) (hst : s.Staging t)
    (hlt : temp < t.nextTemp) {perm : ℕ} (hnew : t.temps temp = some ⟨[], perm⟩) :
    wp outputMachine s.Staging (fillTemp temp content) (Filled s temp content) t := by
  rw [fillTemp, wp_bind]
  refine wp_mono (wp_fill content htemp hst hlt hnew) (fun _ h => h) fun ok u hu => ?_
  cases ok with
  | true => exact ⟨hu.1, fun _ => ⟨rfl, hu.2 rfl⟩⟩
  | false =>
    intro x
    have hclose := staging_perform (Call.On.close) htemp hu.1 x
    refine ⟨hclose, fun y => ?_⟩
    have hremove := staging_perform (Call.On.remove) htemp hclose y
    exact ⟨hremove, hremove, by simp⟩

/-- **Staging a file**: what it returns holds the content. -/
theorem wp_stageFile (content : Bytes) (s : Output) :
    wp outputMachine s.Staging (stageFile content) (Filled s s.nextTemp content) s := by
  intro x
  cases x with
  | fails left => exact ⟨.refl s, .refl s, nofun⟩
  | none =>
    have hcreate : s.Staging (Call.effect .createTemp s).2 := by
      refine ⟨rfl, fun i hi => ?_, Nat.le_succ _⟩
      exact Function.update_of_ne (Nat.ne_of_lt hi) _ _
    have hnew : (Call.effect .createTemp s).2.temps s.nextTemp = some ⟨[], 0o600⟩ :=
      Function.update_self _ _ _
    exact ⟨hcreate, wp_fillTemp content le_rfl hcreate (Nat.lt_succ_self _) hnew⟩

end Fill

/-- The temporary files that stand for the files of an export. -/
def StagedFor (t : Output) (staged : List (ℕ × ExportName)) (files : Files) : Prop :=
  List.Forall₂ (fun p f => p.2 = f.1 ∧ t.temps p.1 = some ⟨f.2, 0o640⟩) staged files

/-- **Staging all files**: they are staged under different names. -/
theorem wp_stageAll (files : Files) (before : List (ℕ × ExportName)) (s : Output) :
    wp outputMachine s.Staging (stageAll files before)
      (fun r t => s.Staging t ∧ (r.1 = true → ∃ staged, r.2 = before ++ staged ∧
        StagedFor t staged files ∧ staged.Pairwise (fun p q => p.1 ≠ q.1) ∧
        ∀ p ∈ staged, s.nextTemp ≤ p.1 ∧ p.1 < t.nextTemp)) s := by
  induction files generalizing before s with
  | nil => exact ⟨.refl s, fun _ => ⟨[], by simp, .nil, .nil, by simp⟩⟩
  | cons f files ih =>
    rw [stageAll, wp_bind]
    refine wp_mono (wp_stageFile f.2 s) (fun _ h => h) fun r t ht => ?_
    cases r with
    | none => exact ⟨ht.1, by simp⟩
    | some temp =>
      obtain ⟨htemp', hlt, hcontent⟩ := ht.2 rfl
      obtain ⟨rfl⟩ := htemp'
      refine wp_mono (ih (before ++ [(s.nextTemp, f.1)]) t) (fun u hu => ht.1.trans hu) fun r u hu => ?_
      refine ⟨ht.1.trans hu.1, fun hok => ?_⟩
      obtain ⟨staged, hstaged, hfor, hdistinct, hrange⟩ := hu.2 hok
      refine ⟨(s.nextTemp, f.1) :: staged, by simp [hstaged], .cons ⟨rfl, ?_⟩ hfor,
        .cons (fun p hp => ?_) hdistinct, fun p hp => ?_⟩
      · rw [hu.1.temps _ hlt, hcontent]
      · have hp' := (hrange p hp).1
        omega
      · rcases List.mem_cons.mp hp with rfl | hp
        · exact ⟨le_rfl, hlt.trans_le hu.1.nextTemp⟩
        · exact ⟨ht.1.nextTemp.trans (hrange p hp).1, (hrange p hp).2⟩

end Staging

section Atomic

open Script

variable {c₀ k₀ c₁ k₁ : Bytes}

/-- **Old or new, file by file**: the chain is one of two, and so is the key. -/
def Output.Mixed (c₀ k₀ c₁ k₁ : Bytes) (o : Output) : Prop :=
  (o.content .fullchain = some c₀ ∨ o.content .fullchain = some c₁) ∧
    (o.content .privkey = some k₀ ∨ o.content .privkey = some k₁)

/-- The content of the files is all that counts. -/
theorem Output.Mixed.of_files {s t : Output} (h : s.Mixed c₀ k₀ c₁ k₁) (hfiles : t.files = s.files) :
    t.Mixed c₀ k₀ c₁ k₁ := by
  simpa only [Output.Mixed, Output.content, hfiles] using h

/-- A rename fails and changes nothing, or moves the file. -/
theorem perform_rename {o : Output} {temp : ℕ} (name : ExportName) {f : TempFile}
    (h : o.temps temp = some f) (x : Fault) :
    (outputMachine.perform (.rename temp name) x o).2 = o ∨
      (outputMachine.perform (.rename temp name) x o).2 =
        (o.setFile name (some (.regular f.content f.perm))).setTemp temp none := by
  cases x with
  | fails left => exact .inl rfl
  | none =>
    simp only [outputMachine_perform_none, Call.effect, h]
    split
    · exact .inl rfl
    · exact .inl rfl
    · rename_i heq _
      obtain rfl := Option.some.inj heq
      exact .inr rfl

/-- **The renames mix at most two exports.** -/
theorem wp_commitStaged {s : Output} (hs : s.Mixed c₀ k₀ c₁ k₁) {i j l : ℕ} {fl : TempFile}
    {pi pj : ℕ} (hi : s.temps i = some ⟨c₁, pi⟩) (hj : s.temps j = some ⟨k₁, pj⟩)
    (hl : s.temps l = some fl) (hij : i ≠ j) (hil : i ≠ l) (hjl : j ≠ l) :
    wp outputMachine (Output.Mixed c₀ k₀ c₁ k₁)
      (commitStaged [(i, .fullchain), (j, .privkey), (l, .health)])
      (fun _ t => t.Mixed c₀ k₀ c₁ k₁) s := by
  have hsync : ∀ (x : Fault) (u : Output), (outputMachine.perform .syncDirectory x u).2 = u := by
    intro x u
    cases x <;> rfl
  rw [commitStaged, wp_all_cons, wp_run]
  intro x
  -- after the first rename: the key is still the old one, and the new one is still staged
  obtain ⟨t, ht⟩ : ∃ t, t = (outputMachine.perform (.rename i .fullchain) x s).2 := ⟨_, rfl⟩
  rw [← ht]
  have h₁ : t.Mixed c₀ k₀ c₁ k₁ ∧ t.temps j = some ⟨k₁, pj⟩ ∧ t.temps l = some fl := by
    rcases perform_rename .fullchain hi x with h | h
    · rw [ht, h]
      exact ⟨hs, hj, hl⟩
    · rw [ht, h]
      refine ⟨⟨.inr ?_, ?_⟩, ?_, ?_⟩
      · simp [Output.content, Output.setFile, Output.setTemp]
      · simpa [Output.content, Output.setFile, Output.setTemp] using hs.2
      · simp [Output.setFile, Output.setTemp, hij.symm, hj]
      · simp [Output.setFile, Output.setTemp, hil.symm, hl]
  refine ⟨h₁.1, fun _ => ?_, fun _ => h₁.1⟩
  rw [wp_all_cons, wp_run]
  intro y
  obtain ⟨u, hu⟩ : ∃ u, u = (outputMachine.perform (.rename j .privkey) y t).2 := ⟨_, rfl⟩
  rw [← hu]
  have h₂ : u.Mixed c₀ k₀ c₁ k₁ ∧ u.temps l = some fl := by
    rcases perform_rename .privkey h₁.2.1 y with h | h
    · rw [hu, h]
      exact ⟨h₁.1, h₁.2.2⟩
    · rw [hu, h]
      refine ⟨⟨?_, .inr ?_⟩, ?_⟩
      · simpa [Output.content, Output.setFile, Output.setTemp] using h₁.1.1
      · simp [Output.content, Output.setFile, Output.setTemp]
      · simp [Output.setFile, Output.setTemp, hjl.symm, h₁.2.2]
  refine ⟨h₂.1, fun _ => ?_, fun _ => h₂.1⟩
  rw [wp_all_cons, wp_run]
  intro z
  rw [hsync]
  refine ⟨h₂.1, fun _ => ?_, fun _ => h₂.1⟩
  rw [wp_all_cons, wp_run]
  intro w
  -- the health record is neither of the two
  have h₃ : (outputMachine.perform (.rename l .health) w u).2.Mixed c₀ k₀ c₁ k₁ := by
    rcases perform_rename .health h₂.2 w with h | h
    · rw [h]
      exact h₂.1
    · rw [h]
      simpa [Output.Mixed, Output.content, Output.setFile, Output.setTemp] using h₂.1
  refine ⟨h₃, fun _ => ?_, fun _ => h₃⟩
  rw [wp_all_cons, wp_run]
  intro x'
  rw [hsync]
  exact ⟨h₃, fun _ => h₃, fun _ => h₃⟩

/-- Removing temporary files keeps the exported ones. -/
theorem keeps_removeStaged (staged : List (ℕ × ExportName)) :
    Keeps outputMachine (Output.Mixed c₀ k₀ c₁ k₁) (Output.Mixed c₀ k₀ c₁ k₁)
      (removeStaged staged) := by
  induction staged with
  | nil => exact .done ()
  | cons p staged ih =>
    intro s hs x
    have h := hs.of_files (files_perform (c := .remove p.1) (by simp) x s)
    exact ⟨h, ih _ h⟩

/-- Looking for an export that matches keeps everything. -/
theorem wp_exportMatches (files : Files) (s : Output) :
    wp outputMachine s.Staging (exportMatches files) (fun _ t => s.Staging t) s := by
  induction files with
  | nil => exact .refl s
  | cons f files ih =>
    intro x
    have hread : (outputMachine.perform (.read f.1) x s).2 = s := by cases x <;> rfl
    rw [hread]
    refine ⟨.refl s, ?_⟩
    rw [wp_look, wp_ite]
    exact ⟨fun _ => ih, fun _ => .refl s⟩

/-- The output directory is made, or not. -/
theorem wp_ensureOutputDirectory (s : Output) :
    wp outputMachine s.Staging ensureOutputDirectory (fun _ t => s.Staging t) s := by
  have hmkdir : ∀ x, s.Staging (outputMachine.perform .mkdirAll x s).2 := by
    intro x
    have hfiles := files_perform (c := .mkdirAll) (by simp) x s
    cases x with
    | fails left => exact .refl s
    | none =>
      simp only [outputMachine_perform_none, Call.effect] at hfiles ⊢
      split <;> exact ⟨rfl, fun _ _ => rfl, le_rfl⟩
  rw [ensureOutputDirectory, wp_look, wp_ite]
  exact ⟨fun _ => .refl s, fun _ x => ⟨hmkdir x, hmkdir x⟩⟩

/-- **Up to the first rename** the exported files are the old ones, and a complete preparation has
staged all files. -/
theorem wp_prepare (files : Files) (s : Output) :
    wp outputMachine s.Staging (prepare files)
      (fun r t => s.Staging t ∧ ∀ staged, r = .staged true staged →
        StagedFor t staged files ∧ staged.Pairwise (fun p q => p.1 ≠ q.1)) s := by
  rw [prepare, wp_bind]
  refine wp_mono (wp_ensureOutputDirectory s) (fun _ h => h) fun ok t ht => ?_
  rw [wp_ite]
  refine ⟨fun _ => ?_, fun _ => ⟨ht, by simp⟩⟩
  rw [wp_bind]
  refine wp_mono (wp_exportMatches files t) (fun _ h => ht.trans h) fun same u hu => ?_
  rw [wp_ite]
  refine ⟨fun _ => ⟨ht.trans hu, by simp⟩, fun _ => ?_⟩
  rw [wp_bind]
  refine wp_mono (wp_stageAll files [] u) (fun _ h => (ht.trans hu).trans h) fun r v hv => ?_
  refine ⟨(ht.trans hu).trans hv.1, ?_⟩
  rintro staged heq
  obtain ⟨hcomplete, hstaged⟩ := Prepared.staged.inj heq
  obtain ⟨staged', hstaged', hfor, hdistinct, -⟩ := hv.2 hcomplete
  rw [hstaged, List.nil_append] at hstaged'
  rw [hstaged']
  exact ⟨hfor, hdistinct⟩

/-- **The whole export mixes at most two exports.** -/
theorem wp_exportAll {health : Bytes} {s : Output} (hs : s.Mixed c₀ k₀ c₁ k₁) :
    wp outputMachine (Output.Mixed c₀ k₀ c₁ k₁) (exportAll (threeFiles c₁ k₁ health))
      (fun _ t => t.Mixed c₀ k₀ c₁ k₁) s := by
  rw [exportAll, wp_bind]
  refine wp_mono (wp_prepare _ s) (fun _ h => hs.of_files h.files) fun r t ht => ?_
  have hmixed := hs.of_files ht.1.files
  cases r with
  | refused => exact hmixed
  | unchanged => exact hmixed
  | staged complete staged =>
    have hcommit : wp outputMachine (Output.Mixed c₀ k₀ c₁ k₁)
        (if complete then commitStaged staged else .done false)
        (fun _ t => t.Mixed c₀ k₀ c₁ k₁) t := by
      rw [wp_ite]
      refine ⟨fun hcomplete => ?_, fun _ => hmixed⟩
      obtain ⟨hfor, hdistinct⟩ := ht.2 staged (by rw [hcomplete])
      rcases hfor with _ | ⟨⟨hi, hi'⟩, _ | ⟨⟨hj, hj'⟩, _ | ⟨⟨hl, hl'⟩, _ | _⟩⟩⟩
      rename_i i j l
      obtain ⟨i, _⟩ := i
      obtain ⟨j, _⟩ := j
      obtain ⟨l, _⟩ := l
      obtain rfl : _ = ExportName.fullchain := hi
      obtain rfl : _ = ExportName.privkey := hj
      obtain rfl : _ = ExportName.health := hl
      simp only [List.pairwise_cons, List.mem_cons, List.not_mem_nil, or_false, forall_eq_or_imp,
        forall_eq] at hdistinct
      exact wp_commitStaged hmixed hi' hj' hl' hdistinct.1.1 hdistinct.1.2 hdistinct.2.1
    simp only
    rw [wp_bind]
    refine wp_mono hcommit (fun _ h => h) fun ok u hu => ?_
    rw [wp_bind]
    exact wp_mono (keeps_removeStaged staged u hu) (fun _ h => h) fun _ _ h => h

variable (lib) in
/-- **A moment of an export**: the output after the first calls of a run. -/
def moment (pair : Pair) (s : Output) (faults : List Fault) (i : ℕ) : Output :=
  ((exportPair lib pair).exec outputMachine (faults.take i) s).2

variable (lib) in
/-- **The export is atomic as a pair**: whenever the two files are opened, at one moment or at two,
they are the old pair or the new one, and match. -/
def PairAtomic (c₀ k₀ : Bytes) (pair : Pair) (s : Output) : Prop :=
  ∀ (faults : List Fault) (i j : ℕ),
    ∃ p ∈ [(c₀, k₀), (pair.certificatePEM, pair.privateKeyPEM)],
      (moment lib pair s faults i).content .fullchain = some p.1 ∧
      (moment lib pair s faults j).content .privkey = some p.2 ∧ lib.keyPair p.1 p.2 = true

variable (lib) in
/-- Every moment of an export is old or new, file by file. -/
theorem moment_mixed {pair : Pair} {s : Output}
    (hs : s.Mixed c₀ k₀ pair.certificatePEM pair.privateKeyPEM) (faults : List Fault) (i : ℕ) :
    (moment lib pair s faults i).Mixed c₀ k₀ pair.certificatePEM pair.privateKeyPEM := by
  have hwp : wp outputMachine (Output.Mixed c₀ k₀ pair.certificatePEM pair.privateKeyPEM)
      (exportPair lib pair)
      (fun _ t => t.Mixed c₀ k₀ pair.certificatePEM pair.privateKeyPEM) s := by
    rw [exportPair]
    split
    · exact hs
    · rename_i files hfiles
      obtain ⟨leaf, -, hleaf⟩ := Option.bind_eq_some_iff.mp hfiles
      obtain ⟨health, -, rfl⟩ := Option.map_eq_some_iff.mp hleaf
      rw [wp_bind]
      exact wp_mono (wp_exportAll hs) (fun _ h => h) fun _ _ h => h
  obtain ⟨hcrash, hend⟩ := exec_of_wp hwp hs (faults.take i)
  cases hrun : (exportPair lib pair).exec outputMachine (faults.take i) s with
  | mk r t =>
    rw [moment, hrun]
    cases r with
    | none => exact hcrash t hrun
    | some r => exact hend r t hrun

/-- **Between the renames**: a run of an export with a new chain passes through the new chain with
the old key. -/
theorem exists_moment_between {pair : Pair} {s : Output} {leaf : Certificate}
    (hvalid : validatePair lib pair = some leaf) (hyear : FourDigitYear leaf.until)
    (hnode : s.node = .directory) {p q : ℕ}
    (hchain : s.files .fullchain = some (.regular c₀ p))
    (hkey : s.files .privkey = some (.regular k₀ q)) (hne : pair.certificatePEM ≠ c₀) :
    ∃ faults i, (moment lib pair s faults i).content .fullchain = some pair.certificatePEM ∧
      (moment lib pair s faults i).content .privkey = some k₀ := by
  obtain ⟨-, -, ip, hip⟩ := validatePair_spec hvalid
  obtain ⟨health, hfiles, -⟩ := exists_exportFiles hyear hip
  -- the chain differs, so the three files are staged
  have hdiffers : ∃ f ∈ threeFiles pair.certificatePEM pair.privateKeyPEM health,
      sameFile (s.files f.1) f.2 = false := by
    refine ⟨(.fullchain, pair.certificatePEM), by simp [threeFiles], ?_⟩
    by_contra h
    have hread := readRegularFile_of_sameFile (Bool.eq_true_of_not_eq_false h)
    obtain ⟨⟨perm, hentry⟩, -⟩ := readRegularFile_eq_some hread
    simp only [hchain, Option.some.injEq, Entry.regular.injEq] at hentry
    exact hne hentry.1.symm
  obtain ⟨n, o, hprepare, -, hsame, hi, -⟩ := eval_prepare (.inl hnode) hdiffers
  have hfree : Free (o.files .fullchain) := by
    rw [hsame, hchain]
    exact .inr ⟨_, _, rfl⟩
  have hrename := effect_rename hi hfree
  -- and the run goes on with the first rename
  obtain ⟨m, hm⟩ := exists_exec_bind_eq outputMachine Fault.none
    (prepare (threeFiles pair.certificatePEM pair.privateKeyPEM health)) s
  have hexport : exportPair lib pair = (exportAll (threeFiles pair.certificatePEM
      pair.privateKeyPEM health)).bind fun ok =>
        .done (if ok then .ok () else .error .invalidCertificate) := by
    rw [exportPair, hvalid, Option.bind_some, hfiles]
  have hmoment : moment lib pair s (List.replicate m .none ++ [.none]) (m + 1) =
      (Call.effect (.rename n .fullchain) o).2 := by
    rw [moment, List.take_of_length_le (by simp), hexport, exportAll, Script.bind_assoc, hm,
      hprepare]
    simp only [commitStaged, Script.all, Script.run, Script.bind, Script.exec, ↓reduceIte,
      outputMachine_perform_none, hrename]
  refine ⟨List.replicate m .none ++ [.none], m + 1, ?_, ?_⟩
  · rw [hmoment, hrename]
    simp [Output.content, Output.setFile, Output.setTemp]
  · rw [hmoment, hrename]
    simp [Output.content, Output.setFile, Output.setTemp, hsame, hkey]

/-- **The export is atomic as a pair exactly when the chain or the key stays**, or it refuses the
pair for the year of its expiry. Between the two renames the new chain stands with the old key, which
is the old pair or the new one only if one of the two files does not change. -/
theorem pairAtomic_iff {pair : Pair} {leaf : Certificate}
    (hvalid : validatePair lib pair = some leaf) {s : Output} (hnode : s.node = .directory)
    {p q : ℕ} (hchain : s.files .fullchain = some (.regular c₀ p))
    (hkey : s.files .privkey = some (.regular k₀ q)) (hpair : lib.keyPair c₀ k₀ = true) :
    PairAtomic lib c₀ k₀ pair s ↔
      ¬FourDigitYear leaf.until ∨ pair.certificatePEM = c₀ ∨ pair.privateKeyPEM = k₀ := by
  constructor
  · intro hatomic
    by_cases hyear : FourDigitYear leaf.until
    swap
    · exact .inl hyear
    right
    by_cases hne : pair.certificatePEM = c₀
    · exact .inl hne
    · right
      obtain ⟨faults, i, hc, hk⟩ := exists_moment_between hvalid hyear hnode hchain hkey hne
      obtain ⟨r, hr, hc', hk', -⟩ := hatomic faults i i
      rw [hc] at hc'
      rw [hk] at hk'
      rcases List.mem_cons.mp hr with rfl | hr
      · exact absurd (Option.some.inj hc') hne
      · rw [List.mem_singleton.mp hr] at hk'
        exact (Option.some.inj hk').symm
  · rintro (hyear | hstays) faults i j
    · -- no call is made, so every moment is the first one
      have hmoment : ∀ n, moment lib pair s faults n = s := by
        intro n
        rw [moment, exportPair_of_not_fourDigitYear hvalid hyear]
        rfl
      rw [hmoment, hmoment]
      exact ⟨_, .head _, by rw [Output.content, hchain], by rw [Output.content, hkey], hpair⟩
    have hs : s.Mixed c₀ k₀ pair.certificatePEM pair.privateKeyPEM := by
      exact ⟨.inl (by rw [Output.content, hchain]), .inl (by rw [Output.content, hkey])⟩
    have hi := (moment_mixed lib hs faults i).1
    have hj := (moment_mixed lib hs faults j).2
    have hnew := (validatePair_spec hvalid).1
    -- with one file the same, any mixture is one of the two pairs
    rcases hstays with hstays | hstays
    · rw [hstays] at hnew hi ⊢
      rw [or_self] at hi
      rcases hj with hj | hj
      · exact ⟨_, .head _, hi, hj, hpair⟩
      · exact ⟨_, .tail _ (.head _), hi, hj, hnew⟩
    · rw [hstays] at hnew hj ⊢
      rw [or_self] at hj
      rcases hi with hi | hi
      · exact ⟨_, .head _, hi, hj, hpair⟩
      · exact ⟨_, .tail _ (.head _), hi, hj, hnew⟩

/-- A directory with the first certificate exported. -/
def firstOutput : Output :=
  ⟨.directory, fun
    | .fullchain => some (.regular firstIssued.pem 0o640)
    | .privkey => some (.regular firstIssued.key 0o640)
    | .health => none, fun _ => none, 0⟩

/-- A pair of an issued certificate. -/
def pairOf (i : Issued) : Pair := { samplePair with certificatePEM := i.pem, privateKeyPEM := i.key }

/-- A renewal that keeps its key is exported atomically. -/
theorem pairAtomic_renewed : PairAtomic sampleLibrary firstIssued.pem firstIssued.key
    (pairOf renewedIssued) firstOutput := by
  have hvalid : validatePair sampleLibrary (pairOf renewedIssued) = some renewedIssued.leaf := by
    decide +kernel
  have hpair : sampleLibrary.keyPair firstIssued.pem firstIssued.key = true := by decide +kernel
  exact (pairAtomic_iff hvalid rfl rfl rfl hpair).mpr (.inr (.inr rfl))

/-- **A renewal with a new key is not**: between the renames the new chain stands with the old
key. -/
theorem not_pairAtomic_rekeyed : ¬ PairAtomic sampleLibrary firstIssued.pem firstIssued.key
    (pairOf rekeyedIssued) firstOutput := by
  intro hatomic
  have hdiffer : rekeyedIssued.pem ≠ firstIssued.pem ∧ rekeyedIssued.key ≠ firstIssued.key := by
    decide +kernel
  have hvalid : validatePair sampleLibrary (pairOf rekeyedIssued) = some rekeyedIssued.leaf := by
    decide +kernel
  have hyear : FourDigitYear rekeyedIssued.leaf.until := by decide +kernel
  have hchain : firstOutput.files .fullchain = some (.regular firstIssued.pem 0o640) := rfl
  have hkey : firstOutput.files .privkey = some (.regular firstIssued.key 0o640) := rfl
  obtain ⟨faults, i, hc, hk⟩ := exists_moment_between hvalid hyear rfl hchain hkey
    hdiffer.1
  obtain ⟨r, hr, hc', hk', -⟩ := hatomic faults i i
  rw [hc] at hc'
  rw [hk] at hk'
  rcases List.mem_cons.mp hr with rfl | hr
  · exact hdiffer.1 (Option.some.inj hc')
  · rw [List.mem_singleton.mp hr] at hk'
    exact hdiffer.2 (Option.some.inj hk').symm

end Atomic

end Certsync

end EzOpenPN
