import EzOpenPN.Lib.Script
import EzOpenPN.Lib.FileSystem

/-!
# The layout of an installation

`configure_layout` of `configure.sh` makes thirteen directories and three files with secrets. Each of
its helpers refuses what it finds unsafe and returns a status, and each of them runs several commands.

**Nobody looks at most of these statuses.** The function is called to the left of `||`, where no command
that fails ends it, so it goes through all of its helpers and returns the status of the last one: the
`chown` of the third secret. A directory that is a link, a mode that could not be set and a secret of
the wrong size do not stop an installation (`EzOpenPN.unsafe_layout_accepted`). When it is right all the
same is `EzOpenPN.configureLayout_sound_iff`.

**The modes have four digits**, and with these neither `chmod` nor `install -d -m` takes the set-user-ID
and set-group-ID bits off a directory (`EzOpenPN.resetMode`). A directory that is made takes over the
set-group-ID bit of the one it is made in, together with its group, so that such a bit on a directory
that exists goes down to everything that is made below it (`EzOpenPN.Layout.handedOn`).

The commands of a run are all different, so that a pattern of failures is a function from commands to
outcomes. Two different paths are two different objects: a link above a path leads to a place of its
own.
-/

namespace EzOpenPN

open FileSystem Script

/-! ### What stands at a path -/

/-- A path from the root. -/
abbrev LayoutPath := List String

/-- A user and a group. -/
abbrev Owner := ℕ × ℕ

/-- `root:root`. -/
def rootOwner : Owner := (0, 0)

/-- **What `lstat` finds**; of a link that leads to a directory, also the mode and the owner of that. -/
inductive LayoutEntry where
  | directory (mode : ℕ) (owner : Owner)
  | file (size mode : ℕ) (owner : Owner)
  | link (directory : Option (ℕ × Owner))
  | other
  deriving DecidableEq

/-- The group of a directory, if it has the set-group-ID bit: what is made in it gets the group. -/
def LayoutEntry.setGroup : LayoutEntry → Option ℕ
  | directory mode owner | link (some (mode, owner)) => if mode.testBit 10 then some owner.2 else none
  | file _ _ _ | link none | other => none

/-- The file system, as far as it matters. -/
structure Layout where
  entry : LayoutPath → Option LayoutEntry

/-- Something that is no directory, and leads to none. -/
def Blocks : Option LayoutEntry → Prop
  | none | some (.directory _ _) | some (.link (some _)) => False
  | _ => True

instance : DecidablePred Blocks := fun e =>
  match e with
  | none | some (.directory _ _) | some (.link (some _)) => isFalse id
  | some (.file _ _ _) | some (.link none) | some .other => isTrue trivial

/-- Names can be made below a path. -/
def Holds : Option LayoutEntry → Prop
  | some (.directory _ _) | some (.link (some _)) => True
  | _ => False

instance : DecidablePred Holds := fun e =>
  match e with
  | some (.directory _ _) | some (.link (some _)) => isTrue trivial
  | none | some (.file _ _ _) | some (.link none) | some .other => isFalse id

/-- **The mode that a directory gets**: its set-user-ID and set-group-ID bits stay. -/
def resetMode (mode before : ℕ) : ℕ := mode ||| (before &&& 0o6000)

namespace Layout

variable (s : Layout) (p : LayoutPath)

/-- **Nothing above a path is in the way.** -/
def Walkable : Prop := ∀ q ∈ p.dropLast.inits, ¬Blocks (s.entry q)

instance : Decidable (s.Walkable p) :=
  inferInstanceAs (Decidable (∀ q ∈ p.dropLast.inits, ¬Blocks (s.entry q)))

/-- Something is put at a path. -/
def put (e : LayoutEntry) : Layout := ⟨Function.update s.entry p (some e)⟩

/-- Membership in a list of paths can be decided. -/
instance : LawfulBEq LayoutPath := inferInstanceAs (LawfulBEq (List String))

/-- **The group that goes down to what is made in a directory**, from the root on: a directory that is
missing hands on what it is going to get itself. -/
def handedOn : Option ℕ :=
  p.inits.foldl (fun group q => (s.entry q).elim group LayoutEntry.setGroup) none

/-- The group that a path gets from above when it is made. -/
def inherited : Option ℕ := s.handedOn p.dropLast

/-- The owner of what root makes. -/
def newOwner : Owner := (0, (s.inherited p).getD 0)

/-- **A new directory** has the set-group-ID bit when its group comes from above. -/
def newDirectory (mode : ℕ) : LayoutEntry :=
  .directory (resetMode mode (if (s.inherited p).isSome then 0o2000 else 0)) (s.newOwner p)

/-- `install -d` makes what is missing above a path, too. -/
def makeAbove : Layout where
  entry q := if q ∈ p.dropLast.inits ∧ s.entry q = none then some (s.newDirectory q 0o755)
    else s.entry q

end Layout

/-! ### The commands -/

/-- **The commands of `configure_layout`.** -/
inductive LayoutCommand where
  | installDirectory (path : LayoutPath) (mode : ℕ)
  | chmod (path : LayoutPath) (mode : ℕ)
  | chown (path : LayoutPath) (owner : Owner)
  /-- The program that checks a secret, or makes it. -/
  | python (path : LayoutPath)
  deriving DecidableEq

namespace LayoutCommand

/-- **What a command does.** One that fails has done nothing, but a secret may be written in part. -/
def effect (s : Layout) (o : CallOutcome) : LayoutCommand → Bool × Layout
  | installDirectory p mode =>
    if o = .ok ∧ s.Walkable p then
      match s.entry p with
      | none => (true, (s.makeAbove p).put p (s.newDirectory p mode))
      | some (.directory before owner) => (true, s.put p (.directory (resetMode mode before) owner))
      | some _ => (false, s)
    else (false, s)
  | chmod p mode =>
    if o = .ok then
      match s.entry p with
      | some (.directory before owner) => (true, s.put p (.directory (resetMode mode before) owner))
      | some (.file size _ owner) => (true, s.put p (.file size mode owner))
      | _ => (false, s)
    else (false, s)
  | chown p owner =>
    if o = .ok then
      match s.entry p with
      | some (.directory mode _) => (true, s.put p (.directory mode owner))
      | some (.file size mode _) => (true, s.put p (.file size mode owner))
      | _ => (false, s)
    else (false, s)
  | python p =>
    match s.entry p with
    | none =>
      if Holds (s.entry p.dropLast) then
        match o with
        | .ok => (true, s.put p (.file 32 0o600 (s.newOwner p)))
        | .torn written => (false, s.put p (.file written 0o600 (s.newOwner p)))
        | .failed => (false, s)
      else (false, s)
    | some (.file size mode _) => (o = .ok ∧ mode = 0o600 ∧ size = 32, s)
    | some _ => (false, s)

end LayoutCommand

/-- **The file system as a machine**, with a pattern of failures. -/
def layoutMachine (pattern : LayoutCommand → CallOutcome) :
    Machine Layout LayoutCommand Unit Layout where
  obs := id
  perform c _ s := c.effect s (pattern c)

/-! ### The script -/

/-- The exit status of a function, and the message it died with. -/
inductive LayoutStatus where
  | success
  | failed
  | died (status : ℕ) (message : String)
  deriving DecidableEq

/-- The status of a command. -/
def LayoutStatus.ofBool (ok : Bool) : LayoutStatus := if ok then .success else .failed

/-- A script of `configure.sh`. -/
abbrev LayoutScript := Script Layout LayoutCommand

/-- A directory of the layout. -/
structure LayoutDirectory where
  path : LayoutPath
  owner : Owner
  mode : ℕ
  deriving DecidableEq

/-- **`_configure_directory`**: only its check and its last command have a say in its status. -/
def configureDirectory (d : LayoutDirectory) : LayoutScript LayoutStatus :=
  look fun s =>
    match s.entry d.path with
    | none | some (.directory _ _) =>
      (run (.installDirectory d.path d.mode)).bind fun _ =>
      (run (.chmod d.path d.mode)).bind fun _ =>
      (run (.chown d.path d.owner)).bind fun ok => done (.ofBool ok)
    | some _ => done (.died 45 "E_LAYOUT_PATH: каталог установки занят другим объектом")

/-- The owner of a secret. -/
def secretOwner : Owner := (10001, 10001)

/-- **`_configure_secret`.** -/
def configureSecret (p : LayoutPath) : LayoutScript LayoutStatus :=
  (run (.python p)).bind fun ok =>
    if ok then (run (.chown p secretOwner)).bind fun ok => done (.ofBool ok)
    else done (.died 45 "E_SECRET_FILE: существующий файл секрета небезопасен")

/-- The directories, in the order in which they are made. -/
def layoutDirectories : List LayoutDirectory :=
  [⟨["etc", "ezopenpn"], rootOwner, 0o750⟩,
    ⟨["etc", "ezopenpn", "releases"], rootOwner, 0o750⟩,
    ⟨["var", "lib", "ezopenpn"], rootOwner, 0o700⟩,
    ⟨["var", "lib", "ezopenpn", "control"], (10001, 10001), 0o700⟩,
    ⟨["var", "lib", "ezopenpn", "secrets"], (10001, 10001), 0o700⟩,
    ⟨["var", "lib", "ezopenpn", "operations"], rootOwner, 0o700⟩,
    ⟨["var", "lib", "ezopenpn", "runtime"], rootOwner, 0o711⟩,
    ⟨["var", "lib", "ezopenpn", "runtime", "xray"], (10002, 11001), 0o700⟩,
    ⟨["var", "lib", "ezopenpn", "runtime", "xray-run"], (10002, 11001), 0o750⟩,
    ⟨["var", "lib", "ezopenpn", "runtime", "hysteria"], (10003, 11003), 0o700⟩,
    ⟨["var", "lib", "ezopenpn", "runtime", "hysteria-certs"], (10004, 11003), 0o750⟩,
    ⟨["var", "lib", "ezopenpn", "caddy"], (10004, 11003), 0o700⟩,
    ⟨["var", "backups", "ezopenpn"], rootOwner, 0o700⟩]

/-- The directory of the secrets. -/
def secretsPath : LayoutPath := ["var", "lib", "ezopenpn", "secrets"]

/-- The secret that comes last. -/
def lastSecret : LayoutPath := secretsPath ++ ["hysteria-obfs.key"]

/-- The secrets before it. -/
def firstSecrets : List LayoutPath := [secretsPath ++ ["master.key"], secretsPath ++ ["hysteria-api.key"]]

/-- Helpers one after the other, whose statuses are dropped. -/
def inSequence : List (LayoutScript LayoutStatus) → LayoutScript Unit
  | [] => done ()
  | helper :: rest => helper.bind fun _ => inSequence rest

/-- **`configure_layout`**, to the left of `||`: its status is that of the last helper. -/
def configureLayout : LayoutScript LayoutStatus :=
  (inSequence (layoutDirectories.map configureDirectory ++ firstSecrets.map configureSecret)).bind
    fun _ => configureSecret lastSecret

/-! ### What is asked of it -/

/-- **The layout is right.** -/
def LayoutRight (s : Layout) : Prop :=
  (∀ d ∈ layoutDirectories, s.entry d.path = some (.directory d.mode d.owner)) ∧
    ∀ p ∈ firstSecrets ++ [lastSecret], s.entry p = some (.file 32 0o600 secretOwner)

section Conditions

variable (pattern : LayoutCommand → CallOutcome) (s : Layout)

/-- **A directory comes right**: by what stands there before, and by which commands fail. -/
def DirectoryReady (d : LayoutDirectory) : Prop :=
  match s.entry d.path with
  | none => s.Walkable d.path ∧ pattern (.installDirectory d.path d.mode) = .ok ∧
      s.inherited d.path = none ∧ (d.owner = rootOwner ∨ pattern (.chown d.path d.owner) = .ok)
  | some (.directory mode owner) =>
    (mode = d.mode ∨ mode &&& 0o6000 = 0 ∧
        (s.Walkable d.path ∧ pattern (.installDirectory d.path d.mode) = .ok ∨
          pattern (.chmod d.path d.mode) = .ok)) ∧
      (owner = d.owner ∨ pattern (.chown d.path d.owner) = .ok)
  | some _ => False

/-- **A secret comes right.** -/
def SecretReady (p : LayoutPath) : Prop :=
  match s.entry p with
  | none => pattern (.python p) = .ok ∧ pattern (.chown p secretOwner) = .ok
  | some (.file size mode owner) => size = 32 ∧ mode = 0o600 ∧
      (owner = secretOwner ∨ pattern (.python p) = .ok ∧ pattern (.chown p secretOwner) = .ok)
  | some _ => False

/-- **The last helper succeeds**: its secret is there as it has to be, or it can be made. -/
def LastSucceeds : Prop :=
  pattern (.python lastSecret) = .ok ∧ pattern (.chown lastSecret secretOwner) = .ok ∧
    match s.entry lastSecret with
    | none => Holds (s.entry secretsPath) ∨ s.entry secretsPath = none ∧ s.Walkable secretsPath ∧
        pattern (.installDirectory secretsPath 0o700) = .ok
    | some (.file size mode _) => size = 32 ∧ mode = 0o600
    | some _ => False

end Conditions

/-! ### Modes -/

section Modes

variable {mode m : ℕ}

/-- Setting a mode twice is setting it once. -/
theorem resetMode_resetMode : resetMode mode (resetMode mode m) = resetMode mode m := by
  refine Nat.eq_of_testBit_eq fun i => ?_
  simp only [resetMode, Nat.testBit_or, Nat.testBit_and]
  cases mode.testBit i <;> cases m.testBit i <;> simp

theorem resetMode_and (hplain : mode &&& 0o6000 = 0) : resetMode mode m &&& 0o6000 = m &&& 0o6000 := by
  rw [resetMode, Nat.and_or_distrib_right, hplain, Nat.zero_or, Nat.and_assoc, Nat.and_self]

/-- A mode without these bits is set exactly where they were not set before. -/
theorem resetMode_eq_iff (hplain : mode &&& 0o6000 = 0) : resetMode mode m = mode ↔ m &&& 0o6000 = 0 := by
  refine ⟨fun h => ?_, fun h => by rw [resetMode, h, Nat.or_zero]⟩
  rw [← resetMode_and hplain, h, hplain]

/-- The set-group-ID bit stays when a mode without it is set. -/
theorem testBit_resetMode (hplain : mode &&& 0o6000 = 0) :
    (resetMode mode m).testBit 10 = m.testBit 10 := by
  have hbit : (0o6000 : ℕ).testBit 10 = true := by decide
  have hmode : mode.testBit 10 = false := by
    have hzero := congrArg (Nat.testBit · 10) hplain
    simpa [Nat.testBit_and, hbit] using hzero
  simp [resetMode, Nat.testBit_or, Nat.testBit_and, hbit, hmode]

end Modes

/-! ### One command -/

section Commands

variable {pattern : LayoutCommand → CallOutcome} {s : Layout} {o : CallOutcome} {p q : LayoutPath}
variable {mode : ℕ} {owner : Owner}

namespace Layout

@[simp] theorem put_entry_self (e : LayoutEntry) : (s.put p e).entry p = some e :=
  Function.update_self _ _ _

theorem put_entry_of_ne (e : LayoutEntry) (h : q ≠ p) : (s.put p e).entry q = s.entry q :=
  Function.update_of_ne h _ _

/-- **What changes at other paths**: a directory is made above `p` where nothing was. -/
def SameBut (p : LayoutPath) (s s' : Layout) : Prop :=
  ∀ q, q ≠ p → s'.entry q = s.entry q ∨
    q ∈ p.dropLast.inits ∧ s.entry q = none ∧
      ∃ bits owner, s'.entry q = some (.directory (resetMode 0o755 bits) owner)

theorem SameBut.refl (p : LayoutPath) (s : Layout) : SameBut p s s := fun _ _ => .inl rfl

theorem sameBut_put (e : LayoutEntry) : SameBut p s (s.put p e) :=
  fun _ hq => .inl (put_entry_of_ne e hq)

theorem SameBut.trans {s' s'' : Layout} (h : SameBut p s s') (h' : SameBut p s' s'') :
    SameBut p s s'' := by
  intro q hq
  rcases h q hq with heq | ⟨habove, hnone, hmade⟩
  · rw [← heq]
    exact h' q hq
  · rcases h' q hq with heq' | ⟨-, hnone', -⟩
    · exact .inr ⟨habove, hnone, heq' ▸ hmade⟩
    · obtain ⟨bits, owner, hmade⟩ := hmade
      rw [hmade] at hnone'
      cases hnone'

theorem handedOn_nil : s.handedOn [] = (s.entry []).elim none LayoutEntry.setGroup := rfl

theorem handedOn_concat (q : LayoutPath) (name : String) : s.handedOn (q ++ [name]) =
    (s.entry (q ++ [name])).elim (s.handedOn q) LayoutEntry.setGroup := by
  rw [handedOn, List.inits_append]
  simp [handedOn]

/-- **The bits of the directories stay**, and what is made has the bit if the directory above hands it
on. -/
def KeepsGroups (s s' : Layout) : Prop :=
  ∀ q, match s.entry q with
    | none => ∀ e ∈ s'.entry q, e.setGroup.isSome = (s.inherited q).isSome
    | some e => ∃ e', s'.entry q = some e' ∧ e'.setGroup.isSome = e.setGroup.isSome

theorem KeepsGroups.refl (s : Layout) : KeepsGroups s s := by
  intro q
  cases hentry : s.entry q with
  | none => simp
  | some e => exact ⟨e, rfl, rfl⟩

/-- Something takes the place of what has the same bit. -/
theorem keepsGroups_put {e e' : LayoutEntry} (hp : s.entry p = some e)
    (hbit : e'.setGroup.isSome = e.setGroup.isSome) : KeepsGroups s (s.put p e') := by
  intro q
  by_cases hq : q = p
  · subst hq
    rw [hp]
    exact ⟨e', put_entry_self e', hbit⟩
  · rw [put_entry_of_ne e' hq]
    exact KeepsGroups.refl s q

/-- **Whether a group goes down to a path does not change.** -/
theorem KeepsGroups.handedOn {s' : Layout} (h : KeepsGroups s s') (q : LayoutPath) :
    (s'.handedOn q).isSome = (s.handedOn q).isSome := by
  induction q using List.reverseRecOn with
  | nil =>
    have hroot := h []
    rw [handedOn_nil, handedOn_nil]
    cases hentry : s.entry [] with
    | none =>
      rw [hentry] at hroot
      cases hentry' : s'.entry [] with
      | none => rfl
      | some e => simpa [inherited, handedOn_nil, hentry, hentry'] using hroot
    | some e =>
      rw [hentry] at hroot
      obtain ⟨e', hentry', hbit⟩ := hroot
      rw [hentry']
      exact hbit
  | append_singleton q name ih =>
    have hstep := h (q ++ [name])
    rw [handedOn_concat, handedOn_concat]
    cases hentry : s.entry (q ++ [name]) with
    | none =>
      rw [hentry] at hstep
      cases hentry' : s'.entry (q ++ [name]) with
      | none => exact ih
      | some e => simpa [inherited, hentry'] using hstep
    | some e =>
      rw [hentry] at hstep
      obtain ⟨e', hentry', hbit⟩ := hstep
      rw [hentry']
      exact hbit

theorem KeepsGroups.inherited {s' : Layout} (h : KeepsGroups s s') (q : LayoutPath) :
    (s'.inherited q).isSome = (s.inherited q).isSome :=
  h.handedOn q.dropLast

/-- A new directory has the bit if it is handed on. -/
theorem setGroup_newDirectory (hplain : mode &&& 0o6000 = 0) :
    (s.newDirectory q mode).setGroup.isSome = (s.inherited q).isSome := by
  have hbit : (0o2000 : ℕ).testBit 10 = true := by decide
  rw [newDirectory, LayoutEntry.setGroup, testBit_resetMode hplain]
  cases s.inherited q <;> simp [hbit]

end Layout

namespace LayoutCommand

/-- A mode is set, or it stays. -/
theorem chmod_entry {m : ℕ} (h : s.entry p = some (.directory m owner)) :
    ((chmod p mode).effect s o).2.entry p =
      some (.directory (if o = .ok then resetMode mode m else m) owner) := by
  rw [effect]
  split
  · rw [h]
    exact Layout.put_entry_self _
  · exact h

theorem chmod_none (h : s.entry p = none) : (chmod p mode).effect s o = (false, s) := by
  rw [effect]
  split
  · rw [h]
  · rfl

/-- An owner is set, or it stays. -/
theorem chown_entry {before : Owner} (h : s.entry p = some (.directory mode before)) :
    ((chown p owner).effect s o).2.entry p =
      some (.directory mode (if o = .ok then owner else before)) := by
  rw [effect]
  split
  · rw [h]
    exact Layout.put_entry_self _
  · exact h

theorem chown_none (h : s.entry p = none) : (chown p owner).effect s o = (false, s) := by
  rw [effect]
  split
  · rw [h]
  · rfl

theorem chmod_sameBut : Layout.SameBut p s ((chmod p mode).effect s o).2 := by
  rw [effect]
  split
  · split
    · exact Layout.sameBut_put _
    · exact Layout.sameBut_put _
    · exact .refl _ _
  · exact .refl _ _

theorem chown_sameBut : Layout.SameBut p s ((chown p owner).effect s o).2 := by
  rw [effect]
  split
  · split
    · exact Layout.sameBut_put _
    · exact Layout.sameBut_put _
    · exact .refl _ _
  · exact .refl _ _

theorem installDirectory_none (h : s.entry p = none) : (installDirectory p mode).effect s o =
    if o = .ok ∧ s.Walkable p then (true, (s.makeAbove p).put p (s.newDirectory p mode))
    else (false, s) := by
  rw [effect, h]

theorem installDirectory_directory {m : ℕ} (h : s.entry p = some (.directory m owner)) :
    (installDirectory p mode).effect s o =
      if o = .ok ∧ s.Walkable p then (true, s.put p (.directory (resetMode mode m) owner))
      else (false, s) := by
  rw [effect, h]

theorem installDirectory_sameBut : Layout.SameBut p s ((installDirectory p mode).effect s o).2 := by
  rw [effect]
  split
  · split
    · intro q hq
      rw [Layout.put_entry_of_ne _ hq, Layout.makeAbove]
      dsimp only
      split
      · rename_i habove
        exact .inr ⟨habove.1, habove.2, _, _, rfl⟩
      · exact .inl rfl
    · exact Layout.sameBut_put _
    · exact .refl _ _
  · exact .refl _ _

theorem chmod_keepsGroups (hplain : mode &&& 0o6000 = 0) :
    Layout.KeepsGroups s ((chmod p mode).effect s o).2 := by
  rw [effect]
  split
  · split
    · rename_i m owner hentry
      refine Layout.keepsGroups_put hentry ?_
      rw [LayoutEntry.setGroup, LayoutEntry.setGroup, testBit_resetMode hplain]
    · rename_i hentry
      exact Layout.keepsGroups_put hentry rfl
    · exact .refl s
  · exact .refl s

theorem chown_keepsGroups : Layout.KeepsGroups s ((chown p owner).effect s o).2 := by
  rw [effect]
  split
  · split
    · rename_i m before hentry
      refine Layout.keepsGroups_put hentry ?_
      cases hbit : m.testBit 10 <;> simp [LayoutEntry.setGroup, hbit]
    · rename_i hentry
      exact Layout.keepsGroups_put hentry rfl
    · exact .refl s
  · exact .refl s

theorem installDirectory_keepsGroups (hplain : mode &&& 0o6000 = 0) :
    Layout.KeepsGroups s ((installDirectory p mode).effect s o).2 := by
  rw [effect]
  split
  · split
    · rename_i hnone
      intro q
      by_cases hq : q = p
      · subst hq
        rw [hnone, Layout.put_entry_self]
        rintro e ⟨rfl⟩
        exact Layout.setGroup_newDirectory hplain
      · rw [Layout.put_entry_of_ne _ hq, Layout.makeAbove]
        dsimp only
        cases hentry : s.entry q with
        | none =>
          intro e he
          split at he
          · obtain rfl := Option.some.inj he
            exact Layout.setGroup_newDirectory (by decide)
          · cases he
        | some e => exact ⟨e, by simp, rfl⟩
    · rename_i m owner hentry
      refine Layout.keepsGroups_put hentry ?_
      rw [LayoutEntry.setGroup, LayoutEntry.setGroup, testBit_resetMode hplain]
    · exact .refl s
  · exact .refl s

theorem python_other (h : q ≠ p) : ((python p).effect s o).2.entry q = s.entry q := by
  unfold effect
  dsimp only
  split
  · split
    · cases o with
      | ok => exact Layout.put_entry_of_ne _ h
      | failed => rfl
      | torn n => exact Layout.put_entry_of_ne _ h
    · rfl
  · rfl
  · rfl

theorem chown_other (h : q ≠ p) : ((chown p owner).effect s o).2.entry q = s.entry q := by
  rw [effect]
  split
  · split
    · exact Layout.put_entry_of_ne _ h
    · exact Layout.put_entry_of_ne _ h
    · rfl
  · rfl

/-- The owner of a file is set, or it stays. -/
theorem chown_file {size : ℕ} {before : Owner} (h : s.entry p = some (.file size mode before)) :
    ((chown p owner).effect s o).2.entry p =
      some (.file size mode (if o = .ok then owner else before)) := by
  rw [effect]
  split
  · rw [h]
    exact Layout.put_entry_self _
  · exact h

end LayoutCommand

/-! ### One directory -/

variable {d : LayoutDirectory}

/-- The state after `_configure_directory`. -/
def directoryMade (pattern : LayoutCommand → CallOutcome) (d : LayoutDirectory) (s : Layout) : Layout :=
  ((configureDirectory d).eval (layoutMachine pattern) () s).2

/-- The three commands of a directory. -/
theorem directoryMade_of_free (h : s.entry d.path = none ∨ ∃ m o, s.entry d.path = some (.directory m o)) :
    directoryMade pattern d s =
      let s₁ := ((LayoutCommand.installDirectory d.path d.mode).effect s
        (pattern (.installDirectory d.path d.mode))).2
      let s₂ := ((LayoutCommand.chmod d.path d.mode).effect s₁ (pattern (.chmod d.path d.mode))).2
      ((LayoutCommand.chown d.path d.owner).effect s₂ (pattern (.chown d.path d.owner))).2 := by
  rw [directoryMade, configureDirectory, eval]
  change ((match s.entry d.path with
    | none | some (.directory _ _) => _
    | some _ => _ : LayoutScript LayoutStatus).eval _ _ _).2 = _
  rcases h with h | ⟨m, o, h⟩ <;> rw [h] <;> rfl

/-- What is in the way of a directory stays there. -/
theorem directoryMade_of_occupied (h : s.entry d.path ≠ none)
    (h' : ∀ m o, s.entry d.path ≠ some (.directory m o)) : directoryMade pattern d s = s := by
  rw [directoryMade, configureDirectory, eval]
  change ((match s.entry d.path with
    | none | some (.directory _ _) => _
    | some _ => _ : LayoutScript LayoutStatus).eval _ _ _).2 = _
  cases hentry : s.entry d.path with
  | none => exact absurd hentry h
  | some e =>
    cases e with
    | directory m o => exact absurd hentry (h' m o)
    | file size m o => rfl
    | link toDirectory => rfl
    | other => rfl

/-- **What stands at the path of a directory** after its turn. -/
theorem directoryMade_entry : (directoryMade pattern d s).entry d.path =
    match s.entry d.path with
    | none =>
      if pattern (.installDirectory d.path d.mode) = .ok ∧ s.Walkable d.path then
        some (.directory (resetMode d.mode (if (s.inherited d.path).isSome then 0o2000 else 0))
          (if pattern (.chown d.path d.owner) = .ok then d.owner else s.newOwner d.path))
      else none
    | some (.directory m o) => some (.directory
        (if (pattern (.installDirectory d.path d.mode) = .ok ∧ s.Walkable d.path) ∨
          pattern (.chmod d.path d.mode) = .ok then resetMode d.mode m else m)
        (if pattern (.chown d.path d.owner) = .ok then d.owner else o))
    | some e => some e := by
  cases hentry : s.entry d.path with
  | none =>
    rw [directoryMade_of_free (.inl hentry)]
    dsimp only
    rw [LayoutCommand.installDirectory_none hentry]
    split
    -- made with its mode, which `chmod` sets once more
    · have hmade : ((s.makeAbove d.path).put d.path (s.newDirectory d.path d.mode)).entry d.path =
          some (.directory (resetMode d.mode (if (s.inherited d.path).isSome then 0o2000 else 0))
            (s.newOwner d.path)) := Layout.put_entry_self _
      rw [LayoutCommand.chown_entry (LayoutCommand.chmod_entry hmade), resetMode_resetMode, ite_self]
    -- not made, so that the other two commands have nothing to work on
    · rw [LayoutCommand.chmod_none hentry, LayoutCommand.chown_none hentry, hentry]
  | some e =>
    cases e with
    | directory m o =>
      rw [directoryMade_of_free (.inr ⟨m, o, hentry⟩)]
      dsimp only
      rw [LayoutCommand.installDirectory_directory hentry]
      split
      · rename_i hinstall
        have hset : (s.put d.path (.directory (resetMode d.mode m) o)).entry d.path =
            some (.directory (resetMode d.mode m) o) := Layout.put_entry_self _
        rw [LayoutCommand.chown_entry (LayoutCommand.chmod_entry hset), resetMode_resetMode, ite_self,
          if_pos (Or.inl hinstall)]
      · rename_i hinstall
        rw [LayoutCommand.chown_entry (LayoutCommand.chmod_entry hentry)]
        simp only [hinstall, false_or]
    | file size m o =>
      rw [directoryMade_of_occupied (by simp [hentry]) (by simp [hentry]), hentry]
    | link toDirectory =>
      rw [directoryMade_of_occupied (by simp [hentry]) (by simp [hentry]), hentry]
    | other => rw [directoryMade_of_occupied (by simp [hentry]) (by simp [hentry]), hentry]

/-- Everything else stays as it is, but for directories above. -/
theorem directoryMade_sameBut : Layout.SameBut d.path s (directoryMade pattern d s) := by
  by_cases hfree : s.entry d.path = none ∨ ∃ m o, s.entry d.path = some (.directory m o)
  · rw [directoryMade_of_free hfree]
    exact (LayoutCommand.installDirectory_sameBut.trans LayoutCommand.chmod_sameBut).trans
      LayoutCommand.chown_sameBut
  · rw [not_or, not_exists] at hfree
    rw [directoryMade_of_occupied hfree.1 fun m o h => hfree.2 m ⟨o, h⟩]
    exact .refl _ _

/-- **A directory is right after its turn if and only if it was ready.** -/
theorem directoryMade_right_iff (hplain : d.mode &&& 0o6000 = 0) :
    (directoryMade pattern d s).entry d.path = some (.directory d.mode d.owner) ↔
      DirectoryReady pattern s d := by
  rw [directoryMade_entry, DirectoryReady]
  cases s.entry d.path with
  | none =>
    dsimp only
    split
    · rename_i hinstall
      simp only [hinstall.1, hinstall.2, true_and, Option.some.injEq, LayoutEntry.directory.injEq,
        resetMode_eq_iff hplain, Layout.newOwner]
      -- the bit and the group come from above together
      cases hgroup : s.inherited d.path with
      | some group => simp
      | none =>
        by_cases hchown : pattern (.chown d.path d.owner) = .ok
        · simp [hchown]
        · simp [hchown, eq_comm, rootOwner]
    · rename_i hinstall
      simp only [false_iff, reduceCtorEq]
      exact fun h => hinstall ⟨h.2.1, h.1⟩
  | some e =>
    cases e with
    | directory m o =>
      simp only [Option.some.injEq, LayoutEntry.directory.injEq]
      -- the mode and the owner: each was right before, or a command has set it
      refine and_congr ?_ ?_
      · split
        · rename_i hset
          rw [resetMode_eq_iff hplain]
          refine ⟨fun h => .inr ⟨h, hset.imp_left And.symm⟩, ?_⟩
          rintro (rfl | h)
          · exact hplain
          · exact h.1
        · rename_i hset
          rw [not_or] at hset
          refine ⟨.inl, fun h => h.resolve_right ?_⟩
          rintro ⟨-, hinstall | hchmod⟩
          · exact hset.1 hinstall.symm
          · exact hset.2 hchmod
      · split
        · rename_i hchown
          exact iff_of_true rfl (.inr hchown)
        · rename_i hchown
          exact ⟨.inl, fun h => h.resolve_right hchown⟩
    | file size m o => simp
    | link toDirectory => simp
    | other => simp

/-- What is in the way of a path is in its way afterwards. -/
theorem blocks_directoryMade (q : LayoutPath) :
    Blocks ((directoryMade pattern d s).entry q) ↔ Blocks (s.entry q) := by
  by_cases hq : q = d.path
  · subst hq
    rw [directoryMade_entry]
    cases s.entry d.path with
    | none =>
      dsimp only
      split <;> rfl
    | some e => cases e <;> rfl
  · rcases directoryMade_sameBut q hq with heq | ⟨-, hnone, bits, owner, hmade⟩
    · rw [heq]
    · rw [hnone, hmade]
      rfl

theorem walkable_directoryMade (p : LayoutPath) :
    (directoryMade pattern d s).Walkable p ↔ s.Walkable p := by
  simp only [Layout.Walkable, blocks_directoryMade]

/-- Whether a group goes down to a path is the same after a directory is made. -/
theorem inherited_directoryMade (hplain : d.mode &&& 0o6000 = 0) (p : LayoutPath) :
    (directoryMade pattern d s).inherited p = none ↔ s.inherited p = none := by
  rw [← Option.not_isSome_iff_eq_none, ← Option.not_isSome_iff_eq_none]
  by_cases hfree : s.entry d.path = none ∨ ∃ m o, s.entry d.path = some (.directory m o)
  · rw [directoryMade_of_free hfree, LayoutCommand.chown_keepsGroups.inherited,
      (LayoutCommand.chmod_keepsGroups hplain).inherited,
      (LayoutCommand.installDirectory_keepsGroups hplain).inherited]
  · rw [not_or, not_exists] at hfree
    rw [directoryMade_of_occupied hfree.1 fun m o h => hfree.2 m ⟨o, h⟩]

/-- A path that is neither the directory nor above it is left alone. -/
theorem directoryMade_other (h : ¬q <+: d.path) : (directoryMade pattern d s).entry q = s.entry q := by
  have hq : q ≠ d.path := fun heq => h (heq ▸ List.prefix_refl _)
  refine (directoryMade_sameBut q hq).resolve_right fun hmade => h ?_
  exact ((List.mem_inits _ _).mp hmade.1).trans (List.dropLast_prefix _)

/-! ### All directories -/

/-- The state after several directories. -/
def directoriesMade (pattern : LayoutCommand → CallOutcome) (ds : List LayoutDirectory) (s : Layout) :
    Layout :=
  ds.foldl (fun s d => directoryMade pattern d s) s

variable {ds : List LayoutDirectory}

/-- **What stands at a path is there after other directories were made**; where nothing stands, a
directory may have been made on the way. -/
theorem directoriesMade_entry (h : ∀ d ∈ ds, d.path ≠ p) :
    (directoriesMade pattern ds s).entry p = s.entry p ∨
      s.entry p = none ∧ ∃ bits owner, (directoriesMade pattern ds s).entry p =
        some (.directory (resetMode 0o755 bits) owner) := by
  induction ds generalizing s with
  | nil => exact .inl rfl
  | cons d rest ih =>
    have hrest := ih (s := directoryMade pattern d s) fun d' hd' => h d' (by simp [hd'])
    change (directoriesMade pattern rest (directoryMade pattern d s)).entry p = _ ∨
      _ ∧ ∃ bits owner, (directoriesMade pattern rest (directoryMade pattern d s)).entry p = _
    rcases directoryMade_sameBut p (h d (by simp)).symm with heq | ⟨-, hnone, bits, owner, hmade⟩
    · rw [heq] at hrest
      exact hrest
    · rcases hrest with heq' | ⟨hnone', -⟩
      · exact .inr ⟨hnone, bits, owner, heq'.trans hmade⟩
      · rw [hmade] at hnone'
        cases hnone'

theorem directoriesMade_other (h : ∀ d ∈ ds, ¬p <+: d.path) :
    (directoriesMade pattern ds s).entry p = s.entry p := by
  induction ds generalizing s with
  | nil => rfl
  | cons d rest ih =>
    exact (ih fun d' hd' => h d' (by simp [hd'])).trans (directoryMade_other (h d (by simp)))

/-- **All directories are right in the end if and only if all of them were ready**: a directory comes
before what is below it. -/
theorem directoriesMade_right_iff (horder : ds.Pairwise fun d d' => ¬d'.path <+: d.path)
    (hmode : ∀ d ∈ ds, d.mode ≠ 0o755 ∧ d.mode &&& 0o6000 = 0) :
    (∀ d ∈ ds, (directoriesMade pattern ds s).entry d.path = some (.directory d.mode d.owner)) ↔
      ∀ d ∈ ds, DirectoryReady pattern s d := by
  induction ds generalizing s with
  | nil => simp
  | cons d rest ih =>
    obtain ⟨hfirst, horder⟩ := List.pairwise_cons.mp horder
    obtain ⟨hother, hplain⟩ := hmode d (by simp)
    rw [List.forall_mem_cons, List.forall_mem_cons]
    -- the first directory keeps what its turn gave it, the others find what they would have found
    refine and_congr ?_ ?_
    · rw [← directoryMade_right_iff hplain]
      change (directoriesMade pattern rest (directoryMade pattern d s)).entry d.path = _ ↔ _
      have hne : ∀ d' ∈ rest, d'.path ≠ d.path :=
        fun d' hd' heq => hfirst d' hd' (heq ▸ List.prefix_refl _)
      rcases directoriesMade_entry hne with heq | ⟨hnone, bits, owner, hmade⟩
      · rw [heq]
      · rw [hnone, hmade]
        simp only [Option.some.injEq, LayoutEntry.directory.injEq, reduceCtorEq, iff_false, not_and]
        -- without these bits the mode would be the one that a directory on the way gets
        intro hbits
        have hzero : bits &&& 0o6000 = 0 := by
          rw [← resetMode_and (by decide : 0o755 &&& 0o6000 = 0), hbits, hplain]
        rw [resetMode_eq_iff (by decide) |>.mpr hzero] at hbits
        exact absurd hbits.symm hother
    · refine (ih horder fun d' hd' => hmode d' (by simp [hd'])).trans ?_
      refine forall₂_congr fun d' hd' => ?_
      rw [DirectoryReady, DirectoryReady, directoryMade_other (hfirst d' hd'), walkable_directoryMade,
        inherited_directoryMade hplain]

/-! ### Secrets -/

/-- The state after `_configure_secret`. -/
def secretMade (pattern : LayoutCommand → CallOutcome) (p : LayoutPath) (s : Layout) : Layout :=
  ((configureSecret p).eval (layoutMachine pattern) () s).2

theorem eval_configureSecret : (configureSecret p).eval (layoutMachine pattern) () s =
    let made := (LayoutCommand.python p).effect s (pattern (.python p))
    if made.1 then
      let owned := (LayoutCommand.chown p secretOwner).effect made.2 (pattern (.chown p secretOwner))
      (.ofBool owned.1, owned.2)
    else (.died 45 "E_SECRET_FILE: существующий файл секрета небезопасен", made.2) := by
  rw [configureSecret, eval_bind]
  change (if ((LayoutCommand.python p).effect s (pattern (.python p))).1 = true then _ else _ :
    LayoutScript LayoutStatus).eval _ _ ((LayoutCommand.python p).effect s (pattern (.python p))).2 = _
  dsimp only
  split <;> rfl

theorem secretMade_other (h : q ≠ p) : (secretMade pattern p s).entry q = s.entry q := by
  rw [secretMade, eval_configureSecret]
  dsimp only
  split
  · dsimp only
    rw [LayoutCommand.chown_other h, LayoutCommand.python_other h]
  · exact LayoutCommand.python_other h

/-- What root makes does not belong to the owner of a secret. -/
theorem newOwner_ne_secretOwner : s.newOwner p ≠ secretOwner :=
  fun h => absurd (congrArg Prod.fst h) (by decide : (0 : ℕ) ≠ 10001)

/-- A secret that is there, or can be made. -/
def SecretStands (s : Layout) (p : LayoutPath) : Prop :=
  match s.entry p with
  | none => Holds (s.entry p.dropLast)
  | some (.file size mode _) => size = 32 ∧ mode = 0o600
  | some _ => False

/-- The program for a secret succeeds where the secret stands. -/
theorem python_status_iff : ((LayoutCommand.python p).effect s o).1 = true ↔ o = .ok ∧ SecretStands s p := by
  unfold LayoutCommand.effect SecretStands
  dsimp only
  cases s.entry p with
  | none =>
    dsimp only
    split
    · rename_i hholds
      cases o <;> simp [hholds]
    · rename_i hholds
      simp [hholds]
  | some e => cases e <;> simp [and_comm]

/-- It leaves a secret of the right size and mode, with its owner if it was there. -/
theorem python_entry (h : ((LayoutCommand.python p).effect s o).1 = true) :
    ∃ owner, ((LayoutCommand.python p).effect s o).2.entry p = some (.file 32 0o600 owner) ∧
      (s.entry p = none ∧ owner = s.newOwner p ∨ s.entry p = some (.file 32 0o600 owner)) := by
  obtain ⟨rfl, hstands⟩ := python_status_iff.mp h
  unfold SecretStands at hstands
  unfold LayoutCommand.effect
  dsimp only
  cases hentry : s.entry p with
  | none =>
    rw [hentry] at hstands
    dsimp only at hstands ⊢
    rw [if_pos hstands]
    exact ⟨s.newOwner p, Layout.put_entry_self _, .inl ⟨rfl, rfl⟩⟩
  | some e =>
    rw [hentry] at hstands
    cases e with
    | file size mode owner =>
      obtain ⟨rfl, rfl⟩ := hstands
      exact ⟨owner, hentry, .inr rfl⟩
    | directory mode owner => exact hstands.elim
    | link toDirectory => exact hstands.elim
    | other => exact hstands.elim

/-- **When the helper of a secret succeeds.** -/
theorem configureSecret_status_iff :
    ((configureSecret p).eval (layoutMachine pattern) () s).1 = .success ↔
      pattern (.python p) = .ok ∧ pattern (.chown p secretOwner) = .ok ∧ SecretStands s p := by
  rw [eval_configureSecret]
  dsimp only
  split
  · rename_i hmade
    obtain ⟨owner, hentry, -⟩ := python_entry hmade
    obtain ⟨hok, hstands⟩ := python_status_iff.mp hmade
    simp only [hok, hstands, true_and, and_true] at hentry ⊢
    rw [LayoutCommand.effect]
    split
    · rename_i hchown
      rw [hentry]
      exact iff_of_true rfl hchown
    · rename_i hchown
      exact iff_of_false nofun hchown
  · rename_i hmade
    refine iff_of_false nofun fun h => hmade (python_status_iff.mpr ⟨h.1, h.2.2⟩)

/-- **A secret is right after its turn if and only if it was ready**, once it has a directory. -/
theorem secretMade_right_iff (hparent : Holds (s.entry p.dropLast)) :
    (secretMade pattern p s).entry p = some (.file 32 0o600 secretOwner) ↔ SecretReady pattern s p := by
  rw [secretMade, eval_configureSecret]
  dsimp only
  split
  · rename_i hmade
    obtain ⟨hok, -⟩ := python_status_iff.mp hmade
    obtain ⟨owner, hentry, hbefore⟩ := python_entry hmade
    rw [LayoutCommand.chown_file hentry]
    simp only [Option.some.injEq, LayoutEntry.file.injEq, true_and, SecretReady]
    rcases hbefore with ⟨hnone, rfl⟩ | hfile
    · simp only [hnone, hok, true_and]
      split
      · rename_i hchown
        exact iff_of_true rfl hchown
      · rename_i hchown
        exact iff_of_false newOwner_ne_secretOwner hchown
    · simp only [hfile, hok, true_and]
      split
      · rename_i hchown
        exact iff_of_true rfl (.inr hchown)
      · rename_i hchown
        exact ⟨.inl, fun h => h.resolve_right hchown⟩
  · rename_i hmade
    rw [python_status_iff, not_and] at hmade
    unfold LayoutCommand.effect SecretReady
    unfold SecretStands at hmade
    dsimp only
    cases hentry : s.entry p with
    | none =>
      rw [hentry] at hmade
      rw [if_pos hparent]
      cases ho : pattern (.python p) with
      | ok => exact absurd hparent (hmade ho)
      | failed => simp [hentry]
      | torn written =>
        simp only [Layout.put_entry_self, Option.some.injEq, LayoutEntry.file.injEq, reduceCtorEq,
          false_and, iff_false, not_and]
        exact fun _ _ => newOwner_ne_secretOwner
    | some e =>
      rw [hentry] at hmade
      cases e with
      | file size mode owner =>
        simp only [hentry, Option.some.injEq, LayoutEntry.file.injEq]
        refine and_congr_right fun hsize => and_congr_right fun hmode => ?_
        exact ⟨.inl, fun h => h.resolve_right fun hok => hmade hok.1 ⟨hsize, hmode⟩⟩
      | directory mode owner => simp [hentry]
      | link toDirectory => simp [hentry]
      | other => simp [hentry]

/-- The state after several secrets. -/
def secretsMade (pattern : LayoutCommand → CallOutcome) (ps : List LayoutPath) (s : Layout) : Layout :=
  ps.foldl (fun s p => secretMade pattern p s) s

variable {ps : List LayoutPath}

theorem secretsMade_concat : secretsMade pattern (ps ++ [p]) s =
    secretMade pattern p (secretsMade pattern ps s) := by
  rw [secretsMade, secretsMade, List.foldl_append, List.foldl_cons, List.foldl_nil]

theorem secretsMade_other (h : q ∉ ps) : (secretsMade pattern ps s).entry q = s.entry q := by
  induction ps generalizing s with
  | nil => rfl
  | cons p rest ih =>
    rw [List.mem_cons, not_or] at h
    exact (ih h.2).trans (secretMade_other h.1)

/-- **All secrets are right in the end if and only if all of them were ready.** -/
theorem secretsMade_right_iff (hnodup : ps.Nodup) (hplace : ∀ p ∈ ps, p.dropLast = q ∧ p ≠ q)
    (hparent : Holds (s.entry q)) :
    (∀ p ∈ ps, (secretsMade pattern ps s).entry p = some (.file 32 0o600 secretOwner)) ↔
      ∀ p ∈ ps, SecretReady pattern s p := by
  induction ps generalizing s with
  | nil => simp
  | cons p rest ih =>
    obtain ⟨hnew, hnodup⟩ := List.nodup_cons.mp hnodup
    obtain ⟨hdir, hne⟩ := hplace p (by simp)
    have hparent' : Holds ((secretMade pattern p s).entry q) := by
      rw [secretMade_other hne.symm]
      exact hparent
    rw [List.forall_mem_cons, List.forall_mem_cons]
    change (secretsMade pattern rest (secretMade pattern p s)).entry p = _ ∧ _ ↔ _
    rw [secretsMade_other hnew, secretMade_right_iff (hdir ▸ hparent)]
    refine and_congr_right fun _ =>
      (ih hnodup (fun p' hp' => hplace p' (by simp [hp'])) hparent').trans ?_
    refine forall₂_congr fun p' hp' => ?_
    have hne' : p' ≠ p := by
      rintro rfl
      exact hnew hp'
    rw [SecretReady, SecretReady, secretMade_other hne']

/-! ### The whole layout -/

theorem eval_inSequence (helpers : List (LayoutScript LayoutStatus)) :
    (inSequence helpers).eval (layoutMachine pattern) () s =
      ((), helpers.foldl (fun s helper => (helper.eval (layoutMachine pattern) () s).2) s) := by
  induction helpers generalizing s with
  | nil => rfl
  | cons helper rest ih => rw [inSequence, eval_bind, ih, List.foldl_cons]

/-- The state before the last helper. -/
theorem eval_beforeLast : ((inSequence (ds.map configureDirectory ++
      ps.map configureSecret)).eval (layoutMachine pattern) () s).2 =
    secretsMade pattern ps (directoriesMade pattern ds s) := by
  rw [eval_inSequence, List.foldl_append, List.foldl_map, List.foldl_map]
  rfl

theorem walkable_directoriesMade (p : LayoutPath) :
    (directoriesMade pattern ds s).Walkable p ↔ s.Walkable p := by
  induction ds generalizing s with
  | nil => exact Iff.rfl
  | cons d rest ih => exact ih.trans (walkable_directoryMade p)

/-- A directory holds names after its turn. -/
theorem holds_directoryMade_iff : Holds ((directoryMade pattern d s).entry d.path) ↔
    Holds (s.entry d.path) ∨ s.entry d.path = none ∧ s.Walkable d.path ∧
      pattern (.installDirectory d.path d.mode) = .ok := by
  rw [directoryMade_entry]
  cases s.entry d.path with
  | none =>
    dsimp only
    split
    · rename_i hinstall
      exact iff_of_true trivial (.inr ⟨rfl, hinstall.2, hinstall.1⟩)
    · rename_i hinstall
      refine iff_of_false id ?_
      rintro (hholds | ⟨-, hwalkable, hok⟩)
      · exact hholds
      · exact hinstall ⟨hok, hwalkable⟩
  | some e =>
    cases e with
    | directory m o => exact iff_of_true trivial (.inl trivial)
    | file size m o => simp [Holds]
    | link toDirectory => simp
    | other => simp [Holds]

/-- The directory of the secrets, in the list. -/
def secretsDirectory : LayoutDirectory := ⟨secretsPath, (10001, 10001), 0o700⟩

theorem holds_secretsPath_iff :
    Holds ((directoriesMade pattern layoutDirectories s).entry secretsPath) ↔
      Holds (s.entry secretsPath) ∨ s.entry secretsPath = none ∧ s.Walkable secretsPath ∧
        pattern (.installDirectory secretsPath 0o700) = .ok := by
  have hsplit : layoutDirectories =
      layoutDirectories.take 4 ++ secretsDirectory :: layoutDirectories.drop 5 := rfl
  rw [hsplit, directoriesMade, List.foldl_append, List.foldl_cons]
  change Holds ((directoriesMade pattern _ (directoryMade pattern secretsDirectory
    (directoriesMade pattern _ s))).entry secretsPath) ↔ _
  rw [directoriesMade_other (by decide +kernel)]
  refine holds_directoryMade_iff.trans ?_
  change Holds ((directoriesMade pattern _ s).entry secretsPath) ∨ _ ∧ Layout.Walkable _ secretsPath ∧ _ ↔ _
  rw [walkable_directoriesMade, secretsDirectory, directoriesMade_other (by decide +kernel)]

/-- **When `configure_layout` succeeds.** -/
theorem configureLayout_success_iff :
    (configureLayout.eval (layoutMachine pattern) () s).1 = .success ↔ LastSucceeds pattern s := by
  rw [configureLayout, eval_bind, eval_beforeLast, configureSecret_status_iff, LastSucceeds,
    SecretStands]
  have hlast : (secretsMade pattern firstSecrets (directoriesMade pattern layoutDirectories s)).entry
      lastSecret = s.entry lastSecret := by
    rw [secretsMade_other (by decide +kernel), directoriesMade_other (by decide +kernel)]
  have hdrop : lastSecret.dropLast = secretsPath := rfl
  have hparent : (secretsMade pattern firstSecrets
      (directoriesMade pattern layoutDirectories s)).entry secretsPath =
      (directoriesMade pattern layoutDirectories s).entry secretsPath :=
    secretsMade_other (by decide +kernel)
  rw [hlast, hdrop, hparent]
  refine and_congr_right fun _ => and_congr_right fun _ => ?_
  cases s.entry lastSecret with
  | none => exact holds_secretsPath_iff
  | some e => cases e <;> exact Iff.rfl

/-- The state after all helpers. -/
theorem eval_configureLayout : (configureLayout.eval (layoutMachine pattern) () s).2 =
    secretsMade pattern (firstSecrets ++ [lastSecret]) (directoriesMade pattern layoutDirectories s) := by
  rw [configureLayout, eval_bind, eval_beforeLast, secretsMade_concat, secretMade]

/-- **When the secrets are right in the end**, once there is a directory for them. -/
theorem configureLayout_secrets_iff
    (hparent : Holds ((directoriesMade pattern layoutDirectories s).entry secretsPath)) :
    (∀ p ∈ firstSecrets ++ [lastSecret], (configureLayout.eval (layoutMachine pattern) () s).2.entry p =
        some (.file 32 0o600 secretOwner)) ↔
      ∀ p ∈ firstSecrets ++ [lastSecret], SecretReady pattern s p := by
  rw [eval_configureLayout, secretsMade_right_iff (by decide +kernel) (by decide +kernel) hparent]
  have hapart : ∀ p ∈ firstSecrets ++ [lastSecret], ∀ d ∈ layoutDirectories, ¬p <+: d.path := by
    decide +kernel
  refine forall₂_congr fun p hp => ?_
  rw [SecretReady, SecretReady, directoriesMade_other (hapart p hp)]

/-- **When the layout is right in the end.** -/
theorem configureLayout_right_iff :
    LayoutRight (configureLayout.eval (layoutMachine pattern) () s).2 ↔
      (∀ d ∈ layoutDirectories, DirectoryReady pattern s d) ∧
        ∀ p ∈ firstSecrets ++ [lastSecret], SecretReady pattern s p := by
  have hdirectories : (∀ d ∈ layoutDirectories,
      (configureLayout.eval (layoutMachine pattern) () s).2.entry d.path =
        some (.directory d.mode d.owner)) ↔
      ∀ d ∈ layoutDirectories, DirectoryReady pattern s d := by
    rw [eval_configureLayout, ← directoriesMade_right_iff (by decide +kernel) (by decide +kernel)]
    have hapart : ∀ d ∈ layoutDirectories, d.path ∉ firstSecrets ++ [lastSecret] := by decide +kernel
    exact forall₂_congr fun d hd => by rw [secretsMade_other (hapart d hd)]
  rw [LayoutRight, hdirectories]
  refine and_congr_right fun hready => configureLayout_secrets_iff ?_
  -- the directory of the secrets is one of the directories
  have hmade := (directoriesMade_right_iff (by decide +kernel) (by decide +kernel)).mpr hready
  have hpath : secretsDirectory.path = secretsPath := rfl
  rw [← hpath, hmade secretsDirectory (by decide +kernel)]
  exact trivial

end Commands

/-- **When success means a right layout.** Whatever was there before and whichever commands fail, a
success of `configure_layout` means that the layout is right if and only if its last helper fails, or
every directory and every secret comes right. -/
theorem configureLayout_sound_iff (pattern : LayoutCommand → CallOutcome) (s : Layout) :
    ((configureLayout.eval (layoutMachine pattern) () s).1 = .success →
        LayoutRight (configureLayout.eval (layoutMachine pattern) () s).2) ↔
      (LastSucceeds pattern s → (∀ d ∈ layoutDirectories, DirectoryReady pattern s d) ∧
        ∀ p ∈ firstSecrets ++ [lastSecret], SecretReady pattern s p) := by
  rw [configureLayout_success_iff, configureLayout_right_iff]

namespace SampleLayout

/-- The directories that every host has. -/
def base : List LayoutPath := [[], ["etc"], ["var"], ["var", "lib"], ["var", "backups"]]

/-- A host where the directory of the backups is a link to another disk. -/
def linked : Layout where
  entry p :=
    if p ∈ base then some (.directory 0o755 rootOwner)
    else if p = ["var", "backups", "ezopenpn"] then some (.link (some (0o755, rootOwner)))
    else none

/-- A host where the directory of the configuration is there, for a group of administrators. -/
def shared : Layout where
  entry p :=
    if p ∈ base then some (.directory 0o755 rootOwner)
    else if p = ["etc", "ezopenpn"] then some (.directory 0o2755 (0, 27))
    else none

end SampleLayout

open SampleLayout in
/-- **An unsafe layout is accepted.** No command fails and `configure_layout` succeeds: on the one host
the directory of the backups is still the link it must not be, on the other one the directory of
the configuration keeps its set-group-ID bit and hands it on to the directory of the releases. -/
theorem unsafe_layout_accepted :
    ((configureLayout.eval (layoutMachine fun _ => .ok) () linked).1 = .success ∧
      (configureLayout.eval (layoutMachine fun _ => .ok) () linked).2.entry
        ["var", "backups", "ezopenpn"] = some (.link (some (0o755, rootOwner))) ∧
      ¬LayoutRight (configureLayout.eval (layoutMachine fun _ => .ok) () linked).2) ∧
    (configureLayout.eval (layoutMachine fun _ => .ok) () shared).1 = .success ∧
      (configureLayout.eval (layoutMachine fun _ => .ok) () shared).2.entry ["etc", "ezopenpn"] =
        some (.directory 0o2750 rootOwner) ∧
      (configureLayout.eval (layoutMachine fun _ => .ok) () shared).2.entry
        ["etc", "ezopenpn", "releases"] = some (.directory 0o2750 rootOwner) ∧
      ¬LayoutRight (configureLayout.eval (layoutMachine fun _ => .ok) () shared).2 := by
  have hlink : (configureLayout.eval (layoutMachine fun _ => .ok) () linked).2.entry
      ["var", "backups", "ezopenpn"] = some (.link (some (0o755, rootOwner))) := by decide +kernel
  have hbit : (configureLayout.eval (layoutMachine fun _ => .ok) () shared).2.entry
      ["etc", "ezopenpn"] = some (.directory 0o2750 rootOwner) := by decide +kernel
  refine ⟨⟨by decide +kernel, hlink, fun hright => ?_⟩, by decide +kernel, hbit, by decide +kernel,
    fun hright => ?_⟩
  · have hdirectory := hright.1 ⟨["var", "backups", "ezopenpn"], rootOwner, 0o700⟩ (by decide +kernel)
    rw [hlink] at hdirectory
    cases hdirectory
  · have hdirectory := hright.1 ⟨["etc", "ezopenpn"], rootOwner, 0o750⟩ (by decide +kernel)
    rw [hbit] at hdirectory
    exact absurd hdirectory (by decide)

end EzOpenPN
