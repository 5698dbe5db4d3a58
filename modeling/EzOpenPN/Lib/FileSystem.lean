import EzOpenPN.Lib.Script

/-!
# A file system

A program that unpacks or replaces files is judged by what stands on the disk after each of its
system calls, whichever of them fails. Here a disk is a `FileSystem.Tree`: what stands at each path
below a directory, a path being a list of names; its system calls are the commands of scripts
(`EzOpenPN.Lib.Script`), and each of them may succeed, fail, or fail half way.

**Links are there to be avoided**, and so is the name `up` of the directory above. A path that leads
through one of them leads somewhere else, where the tree does not reach; a call on such a path leaves
the mark `FileSystem.Disk.outside`, and that is all that is said of it. A program that stays below its
directory is one that never leaves the mark.

What a tree is compared with is what it was before: `FileSystem.Tree.Grows` says that everything that
was there still is, with at most something appended to a file.
-/

namespace FileSystem

variable {ν γ : Type}

/-! ### Trees -/

/-- What stands at a path. -/
inductive Node (γ : Type) where
  | directory
  | file (content : List γ)
  | link
  deriving DecidableEq

/-- **What is below a directory**, by the paths. Only finitely many paths have something, and what
stands somewhere stands in a directory. -/
structure Tree (ν γ : Type) where
  node : List ν → Option (Node γ)
  paths : List (List ν)
  mem_paths : ∀ p, node p ≠ none → p ∈ paths
  closed : ∀ p, node p ≠ none → node p.dropLast = some .directory

namespace Tree

variable {t t' : Tree ν γ} {p q : List ν}

/-- **Nothing is below what is no directory.** -/
theorem node_append_eq_none (hp : t.node p ≠ some .directory) {rest : List ν} (hrest : rest ≠ []) :
    t.node (p ++ rest) = none := by
  induction rest using List.reverseRecOn with
  | nil => exact absurd rfl hrest
  | append_singleton rest a ih =>
    by_contra hnode
    have hparent := t.closed _ hnode
    rw [← List.append_assoc, List.dropLast_concat] at hparent
    by_cases hnil : rest = []
    · subst hnil
      rw [List.append_nil] at hparent
      exact hp hparent
    · rw [ih hnil] at hparent
      cases hparent

/-- A path can get a node: it is no directory, and it is in one. -/
def Settable (t : Tree ν γ) (p : List ν) (n : Option (Node γ)) : Prop :=
  t.node p ≠ some .directory ∧ (n ≠ none → t.node p.dropLast = some .directory)

instance [DecidableEq γ] (t : Tree ν γ) (p : List ν) (n : Option (Node γ)) :
    Decidable (t.Settable p n) :=
  inferInstanceAs (Decidable (t.node p ≠ some .directory ∧
    (n ≠ none → t.node p.dropLast = some .directory)))

/-- Nothing is at a path, and something can be put there. -/
def Free (t : Tree ν γ) (p : List ν) : Prop :=
  t.node p = none ∧ t.node p.dropLast = some .directory

instance [DecidableEq γ] (t : Tree ν γ) (p : List ν) : Decidable (t.Free p) :=
  inferInstanceAs (Decidable (t.node p = none ∧ t.node p.dropLast = some .directory))

theorem Free.settable (h : t.Free p) (n : Option (Node γ)) : t.Settable p n :=
  ⟨by rw [h.1]; exact nofun, fun _ => h.2⟩

/-- A file or a link can be replaced. -/
theorem settable_of_node {m : Node γ} (h : t.node p = some m) (hm : m ≠ .directory)
    (n : Option (Node γ)) : t.Settable p n :=
  ⟨by rw [h]; simpa using hm, fun _ => t.closed p (by rw [h]; exact nofun)⟩

section Operations

variable [DecidableEq ν]

/-- Take away what is at a path and below it. -/
def remove (t : Tree ν γ) (p : List ν) : Tree ν γ where
  node q := if p <+: q then none else t.node q
  paths := t.paths
  mem_paths q hq := by
    split at hq
    · exact absurd rfl hq
    · exact t.mem_paths q hq
  closed q hq := by
    split at hq
    · exact absurd rfl hq
    · rename_i hpq
      rw [if_neg fun h => hpq (h.trans (List.dropLast_prefix q))]
      exact t.closed q hq

/-- A directory has nothing below it. -/
def isEmpty (t : Tree ν γ) (p : List ν) : Bool :=
  t.paths.all fun q => !(p <+: q : Bool) || q = p || (t.node q).isNone

theorem isEmpty_iff : t.isEmpty p ↔ ∀ q, p <+: q → q ≠ p → t.node q = none := by
  simp only [isEmpty, List.all_eq_true, Bool.or_eq_true, Bool.not_eq_true', decide_eq_false_iff_not,
    decide_eq_true_eq, Option.isNone_iff_eq_none]
  constructor
  · intro h q hpq hne
    by_contra hnode
    rcases h q (t.mem_paths q hnode) with (hpq' | heq) | hnone
    · exact hpq' hpq
    · exact hne heq
    · exact hnode hnone
  · intro h q _
    by_cases hpq : p <+: q
    · by_cases heq : q = p
      · exact .inl (.inr heq)
      · exact .inr (h q hpq heq)
    · exact .inl (.inl hpq)

/-- **The regular files below a path**, each with its path from there. -/
def filesBelow (t : Tree ν γ) (p : List ν) : List (List ν × List γ) :=
  (t.paths.dedup.filter fun q => p <+: q).filterMap fun q =>
    match t.node q with
    | some (.file content) => some (q.drop p.length, content)
    | _ => none

theorem mem_filesBelow {entry : List ν × List γ} :
    entry ∈ t.filesBelow p ↔ t.node (p ++ entry.1) = some (.file entry.2) := by
  obtain ⟨r, content⟩ := entry
  simp only [filesBelow, List.mem_filterMap, List.mem_filter, List.mem_dedup, decide_eq_true_eq]
  constructor
  · rintro ⟨q, ⟨hq, s, rfl⟩, hentry⟩
    cases hnode : t.node (p ++ s) with
    | none => simp [hnode] at hentry
    | some n =>
      cases n with
      | file c =>
        obtain ⟨rfl, rfl⟩ : s = r ∧ c = content := by simpa [hnode] using hentry
        exact hnode
      | directory => simp [hnode] at hentry
      | link => simp [hnode] at hentry
  · intro hnode
    refine ⟨p ++ r, ⟨t.mem_paths _ (by simp [hnode]), List.prefix_append p r⟩, ?_⟩
    simp [hnode]

variable [DecidableEq γ]

/-- Put something at a path, or take it away. -/
def set (t : Tree ν γ) (p : List ν) (n : Option (Node γ)) : Tree ν γ :=
  if h : t.Settable p n then {
    node := Function.update t.node p n
    paths := p :: t.paths
    mem_paths := by
      intro q hq
      by_cases hqp : q = p
      · exact hqp ▸ List.mem_cons_self
      · rw [Function.update_of_ne hqp] at hq
        exact List.mem_cons_of_mem _ (t.mem_paths q hq)
    closed := by
      intro q hq
      by_cases hqp : q = p
      · subst hqp
        rw [Function.update_self] at hq
        have hparent := h.2 hq
        have hne : q.dropLast ≠ q := fun heq => h.1 (heq ▸ hparent)
        rw [Function.update_of_ne hne, hparent]
      · rw [Function.update_of_ne hqp] at hq
        have hparent := t.closed q hq
        have hne : q.dropLast ≠ p := fun heq => h.1 (heq ▸ hparent)
        rw [Function.update_of_ne hne, hparent] }
  else t

theorem set_node {n : Option (Node γ)} (h : t.Settable p n) :
    (t.set p n).node = Function.update t.node p n := by
  rw [set, dif_pos h]

/-- `rename` puts what is at `p` at `q`. -/
def renames (t : Tree ν γ) (p q : List ν) : Bool :=
  (p = q ∨ ¬p <+: q) &&
  match t.node p, t.node q with
  | none, _ => false
  | some .directory, none => t.node q.dropLast = some .directory
  | some .directory, some .directory => t.isEmpty q
  | some .directory, some _ => false
  | some _, some .directory => false
  | some _, some _ => true
  | some _, none => t.node q.dropLast = some .directory

/-- What was there is in a directory, and nothing is below it. -/
theorem renames_spec (h : t.renames p q = true) (hne : p ≠ q) :
    t.node p ≠ none ∧ ¬p <+: q ∧ t.node q.dropLast = some .directory ∧
      (∀ r, q <+: r → r ≠ q → t.node r = none) := by
  rw [renames, Bool.and_eq_true, decide_eq_true_eq] at h
  have hpq := h.1.resolve_left hne
  have hbelow : t.node q ≠ some .directory → ∀ r, q <+: r → r ≠ q → t.node r = none := by
    rintro hq _ ⟨rest, rfl⟩ hrest
    exact node_append_eq_none hq fun hnil => hrest (by rw [hnil, List.append_nil])
  have hparent : t.node q ≠ none → t.node q.dropLast = some .directory := t.closed q
  rcases hp : t.node p with _ | _ | _ | _ <;> rcases hq : t.node q with _ | _ | _ | _ <;>
    simp_all [isEmpty_iff]

/-- What stands at a path when something was moved. -/
def moved (t : Tree ν γ) (p q r : List ν) : Option (Node γ) :=
  if q <+: r then t.node (p ++ r.drop q.length) else if p <+: r then none else t.node r

omit [DecidableEq γ] in
theorem moved_self : t.moved p p = t.node := by
  funext r
  rw [moved]
  split
  · rename_i h
    obtain ⟨rest, rfl⟩ := h
    rw [List.drop_left]
  · rfl

omit [DecidableEq γ] in
/-- What is moved stands at its new path, -/
theorem moved_append (rest : List ν) : t.moved p q (q ++ rest) = t.node (p ++ rest) := by
  rw [moved, if_pos (List.prefix_append q rest), List.drop_left]

omit [DecidableEq γ] in
theorem moved_target : t.moved p q q = t.node p := by
  rw [moved, if_pos (List.prefix_refl q), List.drop_length, List.append_nil]

omit [DecidableEq γ] in
/-- not any more at its old one, -/
theorem moved_source {r : List ν} (hq : ¬q <+: r) (hp : p <+: r) : t.moved p q r = none := by
  rw [moved, if_neg hq, if_pos hp]

omit [DecidableEq γ] in
/-- and everything else is left alone. -/
theorem moved_other {r : List ν} (hq : ¬q <+: r) (hp : ¬p <+: r) : t.moved p q r = t.node r := by
  rw [moved, if_neg hq, if_neg hp]

theorem moved_closed (h : t.renames p q = true) {r : List ν} (hr : t.moved p q r ≠ none) :
    t.moved p q r.dropLast = some .directory := by
  by_cases hpq : p = q
  · subst hpq
    rw [moved_self] at hr ⊢
    exact t.closed r hr
  · obtain ⟨hp, hbelow, hparent, hempty⟩ := renames_spec h hpq
    have hq : q ≠ [] := by
      rintro rfl
      have hroot : p ≠ [] := fun hnil => hpq hnil
      exact hp (hempty p List.nil_prefix hroot)
    rw [moved] at hr ⊢
    split at hr
    · rename_i hqr
      obtain ⟨rest, rfl⟩ := hqr
      rw [List.drop_left] at hr
      by_cases hrest : rest = []
      · subst hrest
        have hshort : ¬q <+: q.dropLast := by
          intro hpre
          have := hpre.length_le
          rw [List.length_dropLast] at this
          have := List.length_pos_of_ne_nil hq
          omega
        rw [List.append_nil, if_neg hshort,
          if_neg fun hpre => hbelow (hpre.trans (List.dropLast_prefix q)), hparent]
      · rw [List.dropLast_append_of_ne_nil hrest, if_pos (List.prefix_append q _), List.drop_left]
        have := t.closed _ hr
        rwa [List.dropLast_append_of_ne_nil hrest] at this
    · rename_i hqr
      split at hr
      · exact absurd rfl hr
      · rename_i hpr
        rw [if_neg fun hpre => hqr (hpre.trans (List.dropLast_prefix r)),
          if_neg fun hpre => hpr (hpre.trans (List.dropLast_prefix r))]
        exact t.closed r hr

/-- Move what is at a path and below it to another. -/
def move (t : Tree ν γ) (p q : List ν) : Tree ν γ :=
  if h : t.renames p q = true then {
    node := t.moved p q
    paths := t.paths ++ (t.paths.filter fun r => p <+: r).map fun r => q ++ r.drop p.length
    mem_paths := by
      intro r hr
      rw [moved] at hr
      split at hr
      · rename_i hq
        obtain ⟨rest, rfl⟩ := hq
        rw [List.drop_left] at hr
        refine List.mem_append_right _ (List.mem_map.mpr ⟨p ++ rest, ?_, by simp⟩)
        exact List.mem_filter.mpr ⟨t.mem_paths _ hr, by simp⟩
      · split at hr
        · exact absurd rfl hr
        · exact List.mem_append_left _ (t.mem_paths r hr)
    closed := fun _ hr => moved_closed h hr }
  else t

theorem move_node (h : t.renames p q = true) : (t.move p q).node = t.moved p q := by
  rw [move, dif_pos h]

end Operations

/-- A path leads through a link, or up. -/
def Behind (up : ν) (t : Tree ν γ) (p : List ν) : Prop :=
  up ∈ p ∨ ∃ q ∈ p.dropLast.inits, t.node q = some .link

instance [DecidableEq ν] [DecidableEq γ] (up : ν) (t : Tree ν γ) (p : List ν) :
    Decidable (t.Behind up p) :=
  inferInstanceAs (Decidable (up ∈ p ∨ ∃ q ∈ p.dropLast.inits, t.node q = some .link))

/-- There is no link. -/
def Linkless (t : Tree ν γ) : Prop := ∀ p, t.node p ≠ some .link

theorem Linkless.not_behind (ht : t.Linkless) {up : ν} (hp : up ∉ p) : ¬t.Behind up p := by
  rintro (hup | ⟨q, -, hq⟩)
  · exact hp hup
  · exact ht q hq

/-! ### What was there still is -/

/-- A node is the other one, with at most something appended. -/
inductive Node.Grows : Node γ → Node γ → Prop
  | directory : Node.Grows .directory .directory
  | file {c c' : List γ} (h : c <+: c') : Node.Grows (.file c) (.file c')
  | link : Node.Grows .link .link

theorem Node.Grows.refl (n : Node γ) : Node.Grows n n := by
  cases n with
  | directory => exact .directory
  | file c => exact .file (List.prefix_refl c)
  | link => exact .link

/-- **Whatever stands in a tree stands in the other**, with at most something appended to a file. -/
def Grows (t t' : Tree ν γ) : Prop :=
  ∀ p n, t.node p = some n → ∃ n', t'.node p = some n' ∧ Node.Grows n n'

theorem Grows.refl (t : Tree ν γ) : t.Grows t := fun _ n h => ⟨n, h, .refl n⟩

variable [DecidableEq ν] [DecidableEq γ]

/-- Something is put where nothing was. -/
theorem Grows.set_of_none (hp : t.node p = none) (n : Option (Node γ)) : t.Grows (t.set p n) := by
  by_cases hset : t.Settable p n
  · intro q m hq
    have hne : q ≠ p := by
      rintro rfl
      rw [hp] at hq
      cases hq
    exact ⟨m, by rw [set_node hset, Function.update_of_ne hne, hq], .refl m⟩
  · rw [set, dif_neg hset]
    exact .refl t

/-- A node is replaced by one it grows to. -/
theorem Grows.set_of_some {n n' : Node γ} (hp : t.node p = some n) (hn : Node.Grows n n') :
    t.Grows (t.set p (some n')) := by
  by_cases hset : t.Settable p (some n')
  · intro q m hq
    by_cases hqp : q = p
    · subst hqp
      obtain rfl := Option.some.inj (hp.symm.trans hq)
      exact ⟨n', by rw [set_node hset, Function.update_self], hn⟩
    · exact ⟨m, by rw [set_node hset, Function.update_of_ne hqp, hq], .refl m⟩
  · rw [set, dif_neg hset]
    exact .refl t

end Tree

/-! ### System calls -/

/-- A disk, and whether a call went through a link. -/
structure Disk (ν γ : Type) where
  tree : Tree ν γ
  outside : Bool

/-- **The system calls.** -/
inductive Call (ν γ : Type) where
  | mkdir (p : List ν)
  /-- `open` with `O_CREAT`, `O_EXCL` and `O_NOFOLLOW`. -/
  | create (p : List ν)
  /-- `write` to a file that is open. -/
  | append (p : List ν) (chunk : List γ)
  /-- `open` with `O_CREAT` and `O_TRUNC`, and `write`. -/
  | put (p : List ν) (content : List γ)
  /-- A call that changes no content: `fsync`, `chmod`, `chown`, `stat`. -/
  | touch (p : List ν)
  | unlink (p : List ν)
  /-- `rename`, over what is there. -/
  | rename (p q : List ν)
  /-- `shutil.rmtree`. -/
  | removeTree (p : List ν)

/-- **How a call goes.** -/
inductive CallOutcome where
  | ok
  | failed
  /-- It fails after `n` units of its work. -/
  | torn (n : ℕ)
  deriving DecidableEq

namespace CallOutcome

/-- The call succeeds. -/
def status : CallOutcome → Bool
  | ok => true
  | _ => false

end CallOutcome

section Effect

variable [DecidableEq ν] [DecidableEq γ]

/-- A call that does all or nothing. -/
def Disk.change (d : Disk ν γ) (o : CallOutcome) (tree : Tree ν γ) : Bool × Disk ν γ :=
  match o with
  | .ok => (true, { d with tree := tree })
  | _ => (false, d)

/-- A call on a path that leads elsewhere. -/
def Disk.leave (d : Disk ν γ) (o : CallOutcome) : Bool × Disk ν γ :=
  (o.status, { d with outside := true })

/-- What is written of a content. -/
def CallOutcome.written (o : CallOutcome) (content : List γ) : Option (List γ) :=
  match o with
  | .ok => some content
  | .failed => none
  | .torn n => some (content.take n)

/-- A file is written over, or where nothing is. -/
def Disk.putFile (d : Disk ν γ) (p : List ν) (content : List γ) (o : CallOutcome) :
    Bool × Disk ν γ :=
  match o.written content with
  | some c => (o.status, { d with tree := d.tree.set p (some (.file c)) })
  | none => (false, d)

/-- **What a call does.** -/
def Call.effect (up : ν) (c : Call ν γ) (o : CallOutcome) (d : Disk ν γ) : Bool × Disk ν γ :=
  match c with
  | .mkdir p =>
    if d.tree.Behind up p then d.leave o
    else if d.tree.Free p then d.change o (d.tree.set p (some .directory))
    else (false, d)
  | .create p =>
    if d.tree.Behind up p then d.leave o
    else if d.tree.Free p then d.change o (d.tree.set p (some (.file [])))
    else (false, d)
  | .append p chunk =>
    match d.tree.node p with
    | some (.file content) =>
      match o.written chunk with
      | some c => (o.status, { d with tree := d.tree.set p (some (.file (content ++ c))) })
      | none => (false, d)
    | _ => (false, d)
  | .put p content =>
    if d.tree.Behind up p then d.leave o
    else
      match d.tree.node p with
      | some .link => d.leave o
      | some .directory => (false, d)
      | some (.file _) => d.putFile p content o
      | none => if d.tree.Free p then d.putFile p content o else (false, d)
  | .touch _ => (o.status, d)
  | .unlink p =>
    if d.tree.Behind up p then d.leave o
    else
      match d.tree.node p with
      | some (.file _) | some .link => d.change o (d.tree.set p none)
      | _ => (false, d)
  | .rename p q =>
    if d.tree.Behind up p ∨ d.tree.Behind up q then d.leave o
    else if d.tree.renames p q then d.change o (d.tree.move p q)
    else (false, d)
  | .removeTree p =>
    if d.tree.Behind up p then d.leave o
    else
      match d.tree.node p with
      | some .directory =>
        match o with
        | .torn n => (false, { d with
            tree := (d.tree.paths.take n).foldl (fun t q => if p <+: q ∧ q ≠ p then t.remove q else t)
              d.tree })
        | _ => d.change o (d.tree.remove p)
      | _ => (false, d)

/-- **The disk as a machine.** -/
def diskMachine (up : ν) : Machine (Disk ν γ) (Call ν γ) CallOutcome (Disk ν γ) where
  obs := id
  perform c o d := c.effect up o d

@[simp] theorem diskMachine_obs (up : ν) (d : Disk ν γ) : (diskMachine up).obs d = d := rfl

@[simp] theorem diskMachine_perform (up : ν) (c : Call ν γ) (o : CallOutcome) (d : Disk ν γ) :
    (diskMachine up).perform c o d = c.effect up o d := rfl

end Effect

/-! ### Calls that only add -/

section Adding

variable {P P' : List ν → Node γ → Prop} {up : ν} {d : Disk ν γ} {p : List ν}

/-- **Everything in a tree is in its place.** -/
def Tree.Within (P : List ν → Node γ → Prop) (t : Tree ν γ) : Prop :=
  ∀ p n, t.node p = some n → P p n

theorem Tree.Within.mono {t : Tree ν γ} (ht : t.Within P) (h : ∀ p n, P p n → P' p n) :
    t.Within P' := fun p n hn => h p n (ht p n hn)

/-- **A disk that is confined**: nothing was done outside, and everything is in its place. -/
structure Disk.Confined (P : List ν → Node γ → Prop) (d : Disk ν γ) : Prop where
  outside : d.outside = false
  within : d.tree.Within P

theorem Disk.Confined.mono (hd : d.Confined P) (h : ∀ p n, P p n → P' p n) : d.Confined P' :=
  ⟨hd.outside, hd.within.mono h⟩

theorem Disk.Confined.unchanged (hd : d.Confined P) : d.Confined P ∧ d.tree.Grows d.tree :=
  ⟨hd, .refl _⟩

variable [DecidableEq ν] [DecidableEq γ]

theorem Tree.Within.set {t : Tree ν γ} (ht : t.Within P) {n : Node γ} (hn : P p n) :
    (t.set p (some n)).Within P := by
  by_cases hset : t.Settable p (some n)
  · intro q m hq
    rw [Tree.set_node hset] at hq
    by_cases hqp : q = p
    · subst hqp
      obtain rfl : n = m := by simpa using hq
      exact hn
    · rw [Function.update_of_ne hqp] at hq
      exact ht q m hq
  · rw [Tree.set, dif_neg hset]
    exact ht

theorem Disk.Confined.change (hd : d.Confined P) {n : Node γ} (hp : d.tree.node p = none)
    (hn : P p n) (o : CallOutcome) :
    (d.change o (d.tree.set p (some n))).2.Confined P ∧
      d.tree.Grows (d.change o (d.tree.set p (some n))).2.tree := by
  cases o with
  | ok => exact ⟨⟨hd.outside, hd.within.set hn⟩, Tree.Grows.set_of_none hp _⟩
  | failed => exact hd.unchanged
  | torn k => exact hd.unchanged

/-- A call that puts something where nothing is, in its place, or adds to a file in its place. -/
def Call.Adds (up : ν) (P : List ν → Node γ → Prop) : Call ν γ → Prop
  | .mkdir p => up ∉ p ∧ P p .directory
  | .create p => up ∉ p ∧ ∀ c, P p (.file c)
  | .append p _ => ∀ c, P p (.file c)
  | .touch _ => True
  | _ => False

/-- A call leaves a confined disk to which something was added. -/
def Call.Kept (up : ν) (P : List ν → Node γ → Prop) (c : Call ν γ) (o : CallOutcome)
    (d : Disk ν γ) : Prop :=
  (c.effect up o d).2.Confined P ∧ d.tree.Grows (c.effect up o d).2.tree

/-- **A confined disk without links stays so** when something is added. -/
theorem Call.Adds.kept {c : Call ν γ} (hc : c.Adds up P) (hlink : ∀ p, ¬P p .link)
    (hd : d.Confined P) (o : CallOutcome) : c.Kept up P o d := by
  have hlinkless : d.tree.Linkless := fun p hp => hlink p (hd.within p _ hp)
  cases c with
  | mkdir p =>
    rw [Kept, effect, if_neg (hlinkless.not_behind hc.1)]
    split
    · rename_i hfree
      exact hd.change hfree.1 hc.2 o
    · exact hd.unchanged
  | create p =>
    rw [Kept, effect, if_neg (hlinkless.not_behind hc.1)]
    split
    · rename_i hfree
      exact hd.change hfree.1 (hc.2 _) o
    · exact hd.unchanged
  | append p chunk =>
    rw [Kept, effect]
    split
    · rename_i content hcontent
      split
      · exact ⟨⟨hd.outside, hd.within.set (hc _)⟩,
          Tree.Grows.set_of_some hcontent (.file (List.prefix_append _ _))⟩
      · exact hd.unchanged
    · exact hd.unchanged
  | touch p => exact hd.unchanged
  | put p content => exact hc.elim
  | unlink p => exact hc.elim
  | rename p q => exact hc.elim
  | removeTree p => exact hc.elim

/-- So it does when a file is written where nothing is. -/
theorem Call.kept_put {content : List γ} (hlink : ∀ p, ¬P p .link) (hd : d.Confined P)
    (hup : up ∉ p) (hnone : d.tree.node p = none) (hp : ∀ c, P p (.file c)) (o : CallOutcome) :
    (Call.put p content).Kept up P o d := by
  have hlinkless : d.tree.Linkless := fun p hp => hlink p (hd.within p _ hp)
  rw [Kept, effect, if_neg (hlinkless.not_behind hup), hnone]
  dsimp only
  split
  · rw [Disk.putFile]
    split
    · exact ⟨⟨hd.outside, hd.within.set (hp _)⟩, Tree.Grows.set_of_none hnone _⟩
    · exact hd.unchanged
  · exact hd.unchanged

end Adding

/-! ### Calls that succeed -/

section Success

variable {up : ν} {d : Disk ν γ} {p : List ν} {o : CallOutcome}

theorem Disk.change_eq_of_status {t : Tree ν γ} (h : (d.change o t).1 = true) :
    (d.change o t).2 = { d with tree := t } := by
  cases o with
  | ok => rfl
  | failed => cases h
  | torn n => cases h

theorem Disk.outside_leave : (d.leave o).2.outside = true := rfl

variable [DecidableEq ν] [DecidableEq γ]

/-- The mark of a call that went elsewhere stays. -/
theorem Call.outside_effect (c : Call ν γ) (hd : d.outside = true) :
    (c.effect up o d).2.outside = true := by
  have hchange : ∀ t : Tree ν γ, (d.change o t).2.outside = true := by
    intro t
    cases o <;> exact hd
  have hput : ∀ (p : List ν) (content : List γ), (d.putFile p content o).2.outside = true := by
    intro p content
    cases o <;> exact hd
  cases c with
  | touch p => exact hd
  | _ =>
    unfold effect
    repeat' split
    all_goals first | exact hd | rfl | exact hchange _ | exact hput _ _

/-- Something was put where nothing was. -/
theorem Disk.make_ok {n : Node γ} {result : Bool × Disk ν γ}
    (hresult : (if d.tree.Behind up p then d.leave o
      else if d.tree.Free p then d.change o (d.tree.set p (some n)) else (false, d)) = result)
    (hbehind : ¬d.tree.Behind up p) (h : result.1 = true) :
    result.2.outside = d.outside ∧ d.tree.node p = none ∧
      result.2.tree.node = Function.update d.tree.node p (some n) := by
  subst hresult
  rw [if_neg hbehind] at h ⊢
  split at h
  · rename_i hfree
    rw [if_pos hfree, Disk.change_eq_of_status h]
    exact ⟨rfl, hfree.1, Tree.set_node (hfree.settable _)⟩
  · cases h

theorem Call.mkdir_ok (hbehind : ¬d.tree.Behind up p)
    (h : ((Call.mkdir p : Call ν γ).effect up o d).1 = true) :
    ((Call.mkdir p : Call ν γ).effect up o d).2.outside = d.outside ∧ d.tree.node p = none ∧
      ((Call.mkdir p : Call ν γ).effect up o d).2.tree.node =
        Function.update d.tree.node p (some .directory) :=
  Disk.make_ok rfl hbehind h

theorem Call.create_ok (hbehind : ¬d.tree.Behind up p)
    (h : ((Call.create p : Call ν γ).effect up o d).1 = true) :
    ((Call.create p : Call ν γ).effect up o d).2.outside = d.outside ∧ d.tree.node p = none ∧
      ((Call.create p : Call ν γ).effect up o d).2.tree.node =
        Function.update d.tree.node p (some (.file [])) :=
  Disk.make_ok rfl hbehind h

theorem Call.unlink_ok (hbehind : ¬d.tree.Behind up p)
    (h : ((Call.unlink p : Call ν γ).effect up o d).1 = true) :
    ((Call.unlink p : Call ν γ).effect up o d).2.outside = d.outside ∧
      d.tree.node p ≠ some .directory ∧
      ((Call.unlink p : Call ν γ).effect up o d).2.tree.node =
        Function.update d.tree.node p none := by
  have hchange : d.tree.node p ≠ some .directory → ∀ {r : Bool × Disk ν γ},
      d.change o (d.tree.set p none) = r → r.1 = true → r.2.outside = d.outside ∧
        r.2.tree.node = Function.update d.tree.node p none := by
    rintro hleaf _ rfl hstatus
    rw [Disk.change_eq_of_status hstatus]
    exact ⟨rfl, Tree.set_node ⟨hleaf, nofun⟩⟩
  rw [effect, if_neg hbehind] at h ⊢
  cases hnode : d.tree.node p with
  | none =>
    rw [hnode] at h
    cases h
  | some n =>
    rw [hnode] at h hchange
    cases n with
    | directory => cases h
    | file content =>
      obtain ⟨hsame, hupdate⟩ := hchange nofun rfl h
      exact ⟨hsame, nofun, hupdate⟩
    | link =>
      obtain ⟨hsame, hupdate⟩ := hchange nofun rfl h
      exact ⟨hsame, nofun, hupdate⟩

theorem Call.rename_ok {q : List ν} (hp : ¬d.tree.Behind up p) (hq : ¬d.tree.Behind up q)
    (h : ((Call.rename p q : Call ν γ).effect up o d).1 = true) :
    ((Call.rename p q : Call ν γ).effect up o d).2.outside = d.outside ∧
      d.tree.renames p q = true ∧
      ((Call.rename p q : Call ν γ).effect up o d).2.tree.node = d.tree.moved p q := by
  rw [effect, if_neg (not_or.mpr ⟨hp, hq⟩)] at h ⊢
  split at h
  · rename_i hrenames
    rw [if_pos hrenames, Disk.change_eq_of_status h]
    exact ⟨rfl, hrenames, Tree.move_node hrenames⟩
  · cases h

/-- A rename that fails changes nothing. -/
theorem Call.rename_failed {q : List ν} (hp : ¬d.tree.Behind up p) (hq : ¬d.tree.Behind up q)
    (h : ((Call.rename p q : Call ν γ).effect up o d).1 = false) :
    ((Call.rename p q : Call ν γ).effect up o d).2 = d := by
  rw [effect, if_neg (not_or.mpr ⟨hp, hq⟩)] at h ⊢
  split at h
  · rename_i hrenames
    rw [if_pos hrenames]
    cases o with
    | ok => cases h
    | failed => rfl
    | torn n => rfl
  · rename_i hrenames
    rw [if_neg hrenames]

/-- A rename that is possible is done, or nothing is. -/
theorem Call.effect_rename {q : List ν} (hp : ¬d.tree.Behind up p) (hq : ¬d.tree.Behind up q)
    (hrenames : d.tree.renames p q = true) :
    (Call.rename p q : Call ν γ).effect up o d = d.change o (d.tree.move p q) := by
  rw [effect, if_neg (not_or.mpr ⟨hp, hq⟩), if_pos hrenames]

theorem Call.removeTree_ok (hbehind : ¬d.tree.Behind up p)
    (h : ((Call.removeTree p : Call ν γ).effect up o d).1 = true) :
    ((Call.removeTree p : Call ν γ).effect up o d).2 = { d with tree := d.tree.remove p } := by
  unfold effect at h ⊢
  dsimp only at h ⊢
  rw [if_neg hbehind] at h ⊢
  cases hnode : d.tree.node p with
  | none =>
    rw [hnode] at h
    cases h
  | some n =>
    rw [hnode] at h
    cases n with
    | file content => cases h
    | link => cases h
    | directory =>
      cases o with
      | ok => rfl
      | failed => cases h
      | torn k => cases h

/-- Something was put where nothing was, unless that was done elsewhere. -/
theorem Disk.of_make {n : Node γ} {result : Bool × Disk ν γ}
    (hresult : (if d.tree.Behind up p then d.leave o
      else if d.tree.Free p then d.change o (d.tree.set p (some n)) else (false, d)) = result)
    (h : result.1 = true) (hin : result.2.outside = false) :
    d.outside = false ∧ d.tree.node p = none ∧
      result.2.tree.node = Function.update d.tree.node p (some n) := by
  by_cases hbehind : d.tree.Behind up p
  · rw [if_pos hbehind] at hresult
    rw [← hresult, Disk.outside_leave] at hin
    cases hin
  · obtain ⟨hsame, hnone, hnode⟩ := Disk.make_ok hresult hbehind h
    exact ⟨hsame.symm.trans hin, hnone, hnode⟩

/-- A directory was made, unless that was done elsewhere. -/
theorem Call.of_mkdir (h : ((Call.mkdir p : Call ν γ).effect up o d).1 = true)
    (hin : ((Call.mkdir p : Call ν γ).effect up o d).2.outside = false) :
    d.outside = false ∧ d.tree.node p = none ∧
      ((Call.mkdir p : Call ν γ).effect up o d).2.tree.node =
        Function.update d.tree.node p (some .directory) :=
  Disk.of_make rfl h hin

/-- A file was created, unless that was done elsewhere. -/
theorem Call.of_create (h : ((Call.create p : Call ν γ).effect up o d).1 = true)
    (hin : ((Call.create p : Call ν γ).effect up o d).2.outside = false) :
    d.outside = false ∧ d.tree.node p = none ∧
      ((Call.create p : Call ν γ).effect up o d).2.tree.node =
        Function.update d.tree.node p (some (.file [])) :=
  Disk.of_make rfl h hin

/-- All of a chunk was appended. -/
theorem Call.of_append {chunk content : List γ} (hp : d.tree.node p = some (.file content))
    (h : ((Call.append p chunk).effect up o d).1 = true) :
    ((Call.append p chunk).effect up o d).2 =
      { d with tree := d.tree.set p (some (.file (content ++ chunk))) } := by
  rw [effect, hp] at h ⊢
  cases o with
  | ok => rfl
  | failed => cases h
  | torn n => cases h

/-- A file was written, unless that was done elsewhere. -/
theorem Call.of_put {content : List γ} (h : ((Call.put p content).effect up o d).1 = true)
    (hin : ((Call.put p content).effect up o d).2.outside = false) :
    d.outside = false ∧ ((Call.put p content).effect up o d).2.tree.node =
      Function.update d.tree.node p (some (.file content)) := by
  have hput : d.tree.Settable p (some (.file content)) → ∀ {r : Bool × Disk ν γ},
      d.putFile p content o = r → r.1 = true → r.2.outside = false →
      d.outside = false ∧ r.2.tree.node = Function.update d.tree.node p (some (.file content)) := by
    rintro hset _ rfl hstatus hinside
    cases o with
    | ok => exact ⟨hinside, Tree.set_node hset⟩
    | failed => cases hstatus
    | torn n => cases hstatus
  rw [effect] at h hin ⊢
  split at h
  · rename_i hbehind
    rw [if_pos hbehind, Disk.outside_leave] at hin
    cases hin
  · rename_i hbehind
    rw [if_neg hbehind] at hin ⊢
    cases hnode : d.tree.node p with
    | none =>
      rw [hnode] at h hin
      dsimp only at h hin ⊢
      split at h
      · rename_i hfree
        rw [if_pos hfree] at hin ⊢
        exact hput (hfree.settable _) rfl h hin
      · cases h
    | some n =>
      rw [hnode] at h hin
      cases n with
      | directory => cases h
      | link => cases hin
      | file c => exact hput (Tree.settable_of_node hnode nofun _) rfl h hin

end Success

/-! ### Calls that leave a tree alone -/

section Sparing

variable [DecidableEq ν] [DecidableEq γ] {q : List ν} {d : Disk ν γ} {up : ν}

theorem Tree.set_node_of_ne {t : Tree ν γ} {p r : List ν} (h : r ≠ p) (n : Option (Node γ)) :
    (t.set p n).node r = t.node r := by
  by_cases hset : t.Settable p n
  · rw [Tree.set_node hset, Function.update_of_ne h]
  · rw [Tree.set, dif_neg hset]

/-- **A call that does nothing at a path or below it.** -/
def Call.Spares (q : List ν) : Call ν γ → Prop
  | .mkdir p | .create p | .append p _ | .put p _ | .unlink p => ¬q <+: p
  | .touch _ => True
  | .rename p r => (¬q <+: p ∧ ¬p <+: q) ∧ ¬q <+: r ∧ ¬r <+: q
  | .removeTree p => ¬q <+: p ∧ ¬p <+: q

omit [DecidableEq ν] in
theorem not_prefix_append {p : List ν} (hqp : ¬q <+: p) (hpq : ¬p <+: q) (rest : List ν) :
    ¬p <+: q ++ rest := by
  intro hp
  rcases List.prefix_or_prefix_of_prefix hp (List.prefix_append q rest) with h | h
  · exact hpq h
  · exact hqp h

theorem Call.node_of_spares {c : Call ν γ} (hc : c.Spares q) (o : CallOutcome) (rest : List ν) :
    (c.effect up o d).2.tree.node (q ++ rest) = d.tree.node (q ++ rest) := by
  have hne : ∀ {p : List ν}, ¬q <+: p → q ++ rest ≠ p :=
    fun hp heq => hp (heq ▸ List.prefix_append q rest)
  have hchange : ∀ {t : Tree ν γ}, t.node (q ++ rest) = d.tree.node (q ++ rest) →
      (d.change o t).2.tree.node (q ++ rest) = d.tree.node (q ++ rest) := by
    intro t ht
    cases o with
    | ok => exact ht
    | failed => rfl
    | torn n => rfl
  have hput : ∀ {p : List ν} {content : List γ}, ¬q <+: p →
      (d.putFile p content o).2.tree.node (q ++ rest) = d.tree.node (q ++ rest) := by
    intro p content hp
    rw [Disk.putFile]
    split
    · exact Tree.set_node_of_ne (hne hp) _
    · rfl
  cases c with
  | mkdir p =>
    unfold effect
    dsimp only
    split_ifs
    · rfl
    · exact hchange (Tree.set_node_of_ne (hne hc) _)
    · rfl
  | create p =>
    unfold effect
    dsimp only
    split_ifs
    · rfl
    · exact hchange (Tree.set_node_of_ne (hne hc) _)
    · rfl
  | append p chunk =>
    unfold effect
    dsimp only
    split
    · split
      · exact Tree.set_node_of_ne (hne hc) _
      · rfl
    · rfl
  | put p content =>
    unfold effect
    dsimp only
    split
    · rfl
    · split
      · rfl
      · rfl
      · exact hput hc
      · split
        · exact hput hc
        · rfl
  | touch p => rfl
  | unlink p =>
    unfold effect
    dsimp only
    split_ifs
    · rfl
    · split
      · exact hchange (Tree.set_node_of_ne (hne hc) _)
      · exact hchange (Tree.set_node_of_ne (hne hc) _)
      · rfl
  | rename p r =>
    unfold effect
    dsimp only
    split_ifs with hbehind hrenames
    · rfl
    · refine hchange ?_
      rw [Tree.move_node hrenames]
      exact Tree.moved_other (not_prefix_append hc.2.1 hc.2.2 rest)
        (not_prefix_append hc.1.1 hc.1.2 rest)
    · rfl
  | removeTree p =>
    have hp := not_prefix_append hc.1 hc.2 rest
    have hfold : ∀ (paths : List (List ν)) (t : Tree ν γ),
        (paths.foldl (fun t r => if p <+: r ∧ r ≠ p then t.remove r else t) t).node (q ++ rest) =
          t.node (q ++ rest) := by
      intro paths
      induction paths with
      | nil => exact fun _ => rfl
      | cons r paths ih =>
        intro t
        rw [List.foldl_cons, ih]
        split_ifs with hr
        · exact if_neg fun hrq => hp (hr.1.trans hrq)
        · rfl
    unfold effect
    dsimp only
    split_ifs
    · rfl
    · split
      · split
        · exact hfold _ _
        · exact hchange (if_neg hp)
      · rfl

end Sparing

/-! ### Names beside each other -/

/-- A path is not below two names of one directory. -/
theorem not_prefix_of_sibling {dir r : List ν} {a b : ν} (hab : a ≠ b) (ha : dir ++ [a] <+: r) :
    ¬dir ++ [b] <+: r := by
  obtain ⟨rest, rfl⟩ := ha
  rw [List.append_assoc, List.prefix_append_right_inj, List.singleton_append]
  intro hb
  exact hab (List.cons_prefix_cons.mp hb).1.symm

/-- A directory can be renamed to a name beside it that is free. -/
theorem Tree.renames_of_none [DecidableEq ν] [DecidableEq γ] {t : Tree ν γ} {dir : List ν} {a b : ν}
    (ha : t.node (dir ++ [a]) = some .directory) (hb : t.node (dir ++ [b]) = none) :
    t.renames (dir ++ [a]) (dir ++ [b]) = true := by
  have hdir : t.node dir = some .directory := by
    have := t.closed (dir ++ [a]) (by rw [ha]; exact nofun)
    rwa [List.dropLast_concat] at this
  rw [renames, ha, hb, List.dropLast_concat, hdir]
  simp

/-! ### What is left alone -/

section Frame

variable {A A' S S' : List ν → Prop} {t t' t'' : Tree ν γ} {p : List ν}

/-- **Nothing has changed outside of `S`**, except that a directory of `A` was made. -/
def Tree.Frame (A S : List ν → Prop) (t t' : Tree ν γ) : Prop :=
  ∀ p, ¬S p → t'.node p = t.node p ∨ A p ∧ t.node p = none ∧ t'.node p = some .directory

namespace Tree.Frame

theorem refl (t : Tree ν γ) : t.Frame A S t := fun _ _ => .inl rfl

theorem mono (h : t.Frame A S t') (hA : ∀ p, A p → ¬S' p → A' p) (hS : ∀ p, S p → S' p) :
    t.Frame A' S' t' := by
  intro p hp
  exact (h p fun hmem => hp (hS p hmem)).imp_right fun hmade => ⟨hA p hmade.1 hp, hmade.2⟩

theorem trans (h : t.Frame A S t') (h' : t'.Frame A S t'') : t.Frame A S t'' := by
  intro p hp
  rcases h p hp with heq | ⟨hA, hnone, hmade⟩
  · rw [← heq]
    exact h' p hp
  · rcases h' p hp with heq' | ⟨-, hnone', -⟩
    · exact .inr ⟨hA, hnone, heq'.trans hmade⟩
    · rw [hmade] at hnone'
      cases hnone'

/-- Of a path outside of `S`, a file is the same, -/
theorem node_file (h : t.Frame A S t') (hp : ¬S p) {content : List γ} :
    t'.node p = some (.file content) ↔ t.node p = some (.file content) := by
  rcases h p hp with heq | ⟨-, hnone, hmade⟩
  · rw [heq]
  · simp [hnone, hmade]

/-- a link is the same, -/
theorem node_link (h : t.Frame A S t') (hp : ¬S p) :
    t'.node p = some .link ↔ t.node p = some .link := by
  rcases h p hp with heq | ⟨-, hnone, hmade⟩
  · rw [heq]
  · simp [hnone, hmade]

/-- and what is missing was missing. -/
theorem node_none (h : t.Frame A S t') (hp : ¬S p) (hnone : t'.node p = none) : t.node p = none := by
  rcases h p hp with heq | ⟨-, hnone, -⟩
  · exact heq.symm.trans hnone
  · exact hnone

end Tree.Frame

/-- **A path without links**, and without the name of the directory above. -/
structure Tree.Plain (up : ν) (t : Tree ν γ) (p : List ν) : Prop where
  not_up : up ∉ p
  not_link : ∀ q, q <+: p → t.node q ≠ some .link

variable {up : ν} {dir : List ν}

theorem Tree.Plain.above (h : t.Plain up dir) (hp : p <+: dir) : t.Plain up p :=
  ⟨fun hmem => h.not_up (hp.subset hmem), fun q hq => h.not_link q (hq.trans hp)⟩

/-- A name in a plain directory is reached without links. -/
theorem Tree.Plain.not_behind (h : t.Plain up dir) (hp : p.dropLast <+: dir) (hup : up ∉ p) :
    ¬t.Behind up p := by
  rintro (hmem | ⟨q, hq, hlink⟩)
  · exact hup hmem
  · exact h.not_link q ((List.mem_inits _ _ |>.mp hq).trans hp) hlink

theorem Tree.Plain.frame (h : t.Plain up dir) (hframe : t.Frame A S t')
    (hS : ∀ q, q <+: dir → ¬S q) : t'.Plain up dir :=
  ⟨h.not_up, fun q hq hlink => h.not_link q hq ((hframe.node_link (hS q hq)).mp hlink)⟩

end Frame

end FileSystem
