import Mathlib

/-!
# Scripts that can be interrupted

A script runs commands one after the other and goes on by the status each of them returns. Nothing
it does is undone when it is interrupted: whatever its commands have changed stays changed, and the
next script finds it so. What has to be true of such a script is therefore not only what it leaves
at its end but what it leaves **between any two of its commands**.

A `Script ω κ α` is the tree of its commands `κ`; it may look at what it sees of the world, of
type `ω`, and it ends in a value of type `α`. The world is a `Machine`: a state, what a script sees
of it, and what a command does to it. A command does not decide on its own how it goes; a *choice*
is made for it, and `Script.exec` takes the choices from a list. **A list that is too short is a
crash**: the script stops before the command that has no choice.

## What a script is proved to do

`Script.wp` is the weakest precondition with a condition for crashes: every state between two
commands satisfies the one, and the last state satisfies the other together with the value. It is
taken apart by the lemmas of its constructors and of `Script.bind`, and `Script.exec_of_wp` reads
off what it says about all runs. `Script.Keeps` is the special case of an invariant, which is closed
under everything scripts are built with.

A script is often one of two chains: `Script.all`, which goes through its parts while they succeed,
and `Script.firstFailure`, which also reports the name of the part that did not.
-/

/-- **A machine**: a state, what a script sees of it, and what a command does under a choice; the
answer of a command is whether it succeeded. -/
structure Machine (ω κ χ τ : Type) where
  obs : τ → ω
  perform : κ → χ → τ → Bool × τ

namespace Machine

variable {ω κ χ τ : Type}

/-- A machine on which choices are corrected before they are made. -/
def tame (M : Machine ω κ χ τ) (f : κ → χ → χ) : Machine ω κ χ τ where
  obs := M.obs
  perform c x := M.perform c (f c x)

/-- **A machine that is watched**: next to its state, whether every command so far met a condition
on the command, its choice and the state before it. -/
def watch (M : Machine ω κ χ τ) (G : κ → χ → τ → Prop) : Machine ω κ χ (τ × Prop) where
  obs s := M.obs s.1
  perform c x s := ((M.perform c x s.1).1, (M.perform c x s.1).2, s.2 ∧ G c x s.1)

/-- **A machine that keeps a log** of the commands and the choices that were made for them. -/
def logged (M : Machine ω κ χ τ) : Machine ω κ χ (τ × List (κ × χ)) where
  obs s := M.obs s.1
  perform c x s := ((M.perform c x s.1).1, (M.perform c x s.1).2, s.2 ++ [(c, x)])

end Machine

/-- **A script**: a value, a look at the world, or a command and what follows. -/
inductive Script (ω κ α : Type) where
  | done (a : α)
  | look (k : ω → Script ω κ α)
  | call (c : κ) (k : Bool → Script ω κ α)

namespace Script

variable {ω κ χ τ α β : Type}

/-! ### Building scripts -/

/-- Run one script and hand its value to the next. -/
def bind : Script ω κ α → (α → Script ω κ β) → Script ω κ β
  | done a, f => f a
  | look k, f => look fun w => (k w).bind f
  | call c k, f => call c fun ok => (k ok).bind f

theorem bind_assoc {γ : Type} (p : Script ω κ α) (f : α → Script ω κ β) (g : β → Script ω κ γ) :
    (p.bind f).bind g = p.bind fun a => (f a).bind g := by
  induction p with
  | done a => rfl
  | look k ih => exact congrArg look (funext fun w => ih w)
  | call c k ih => exact congrArg (call c) (funext fun ok => ih ok)

/-- One command. -/
def run (c : κ) : Script ω κ Bool := call c done

/-- Run the parts in order while they succeed. -/
def all : List (Script ω κ Bool) → Script ω κ Bool
  | [] => done true
  | p :: ps => p.bind fun ok => if ok then all ps else done false

/-- Run the parts in order while they succeed; the name of the one that fails. -/
def firstFailure : List (β × Script ω κ Bool) → Script ω κ (Option β)
  | [] => done none
  | (name, p) :: ps => p.bind fun ok => if ok then firstFailure ps else done (some name)

/-- Run one script and, unless it raises, hand its value to the next. -/
def attempt {ε : Type} (p : Script ω κ (Except ε α)) (f : α → Script ω κ (Except ε β)) :
    Script ω κ (Except ε β) :=
  p.bind fun result =>
    match result with
    | .error e => done (.error e)
    | .ok a => f a

/-- Raise if a script fails. -/
def orRaise {ε : Type} (p : Script ω κ Bool) (e : ε) : Script ω κ (Except ε Unit) :=
  p.bind fun ok => done (if ok then .ok () else .error e)

/-- `try … finally`: the second script runs in any case, and what it raises takes over. -/
def ensure {ε : Type} (p : Script ω κ (Except ε α)) (last : Script ω κ (Except ε Unit)) :
    Script ω κ (Except ε α) :=
  p.bind fun result => last.bind fun ended =>
    done (match ended with
      | .ok _ => result
      | .error e => .error e)

/-- `try … except … raise`: the second script runs only after an exception, which is raised again
unless the script raises one of its own. -/
def rescue {ε : Type} (p : Script ω κ (Except ε α)) (last : Script ω κ (Except ε Unit)) :
    Script ω κ (Except ε α) :=
  p.bind fun result =>
    match result with
    | .ok a => done (.ok a)
    | .error e => last.bind fun ended =>
      done (match ended with
        | .ok _ => .error e
        | .error e' => .error e')

/-! ### Running scripts -/

variable (M : Machine ω κ χ τ)

/-- **Run a script** with a list of choices; without a choice for its next command it crashes. -/
def exec : Script ω κ α → List χ → τ → Option α × τ
  | done a, _, s => (some a, s)
  | look k, xs, s => (k (M.obs s)).exec xs s
  | call _ _, [], s => (none, s)
  | call c k, x :: xs, s => (k (M.perform c x s).1).exec xs (M.perform c x s).2

/-- A script that no crash cuts short ends: its tree is finite along every run. -/
theorem exists_exec_eq_some (p : Script ω κ α) (choices : ℕ → χ) (s : τ) :
    ∃ n a t, p.exec M ((List.range n).map choices) s = (some a, t) := by
  induction p generalizing s choices with
  | done a => exact ⟨0, a, s, rfl⟩
  | look k ih => exact ih (M.obs s) choices s
  | call c k ih =>
    obtain ⟨n, a, t, h⟩ := ih (M.perform c (choices 0) s).1 (fun i => choices (i + 1))
      (M.perform c (choices 0) s).2
    refine ⟨n + 1, a, t, ?_⟩
    rw [List.range_succ_eq_map, List.map_cons, List.map_map]
    exact h

/-- **The run in which every command gets the same choice.** -/
def eval (x : χ) : Script ω κ α → τ → α × τ
  | done a, s => (a, s)
  | look k, s => (k (M.obs s)).eval x s
  | call c k, s => (k (M.perform c x s).1).eval x (M.perform c x s).2

/-- A correction that leaves the choice alone does not matter. -/
theorem eval_tame {f : κ → χ → χ} {x : χ} (hf : ∀ c, f c x = x) (p : Script ω κ α) (s : τ) :
    p.eval (M.tame f) x s = p.eval M x s := by
  induction p generalizing s with
  | done a => rfl
  | look k ih => exact ih (M.obs s) s
  | call c k ih =>
    have hperform : (M.tame f).perform c x s = M.perform c x s :=
      congrArg (fun y => M.perform c y s) (hf c)
    rw [eval, eval, hperform]
    exact ih _ _

theorem eval_bind (x : χ) (p : Script ω κ α) (f : α → Script ω κ β) (s : τ) :
    (p.bind f).eval M x s = (f (p.eval M x s).1).eval M x (p.eval M x s).2 := by
  induction p generalizing s with
  | done a => rfl
  | look k ih => exact ih (M.obs s) s
  | call c k ih => exact ih _ _

/-- That run takes some number of choices, and what follows the script starts from its end. -/
theorem exists_exec_bind_eq (x : χ) (p : Script ω κ α) (s : τ) :
    ∃ n, ∀ (f : α → Script ω κ β) (ys : List χ),
      (p.bind f).exec M (List.replicate n x ++ ys) s =
        (f (p.eval M x s).1).exec M ys (p.eval M x s).2 := by
  induction p generalizing s with
  | done a => exact ⟨0, fun f ys => rfl⟩
  | look k ih => exact ih (M.obs s) s
  | call c k ih =>
    obtain ⟨n, hn⟩ := ih (M.perform c x s).1 (M.perform c x s).2
    refine ⟨n + 1, fun f ys => ?_⟩
    rw [List.replicate_succ, List.cons_append]
    exact hn f ys

/-- **The commands of a run**, each with its choice and the state before it. -/
def trace : Script ω κ α → List χ → τ → List (κ × χ × τ)
  | done _, _, _ => []
  | look k, xs, s => (k (M.obs s)).trace xs s
  | call _ _, [], _ => []
  | call c k, x :: xs, s =>
    (c, x, s) :: (k (M.perform c x s).1).trace xs (M.perform c x s).2

/-- A machine runs the same when it is watched. -/
theorem exec_watch (G : κ → χ → τ → Prop) (p : Script ω κ α) (xs : List χ) (w : τ × Prop) :
    (p.exec (M.watch G) xs w).1 = (p.exec M xs w.1).1 ∧
      (p.exec (M.watch G) xs w).2.1 = (p.exec M xs w.1).2 := by
  induction p generalizing xs w with
  | done a => exact ⟨rfl, rfl⟩
  | look k ih => exact ih (M.obs w.1) xs w
  | call c k ih =>
    cases xs with
    | nil => exact ⟨rfl, rfl⟩
    | cons x xs => exact ih _ xs _

/-- A watched run met its condition when all commands of the run did. -/
theorem exec_watch_met (G : κ → χ → τ → Prop) (p : Script ω κ α) (xs : List χ) (w : τ × Prop) :
    (p.exec (M.watch G) xs w).2.2 ↔
      w.2 ∧ ∀ step ∈ p.trace M xs w.1, G step.1 step.2.1 step.2.2 := by
  induction p generalizing xs w with
  | done a => simp [exec, trace]
  | look k ih => exact ih (M.obs w.1) xs w
  | call c k ih =>
    cases xs with
    | nil => simp [exec, trace]
    | cons x xs =>
      rw [exec, trace, List.forall_mem_cons]
      refine (ih _ xs _).trans ?_
      simp only [Machine.watch, and_assoc]

/-- **The log of a run**: a machine runs the same with it, and it holds what the trace does. -/
theorem exec_logged (p : Script ω κ α) (xs : List χ) (w : τ × List (κ × χ)) :
    (p.exec M.logged xs w).1 = (p.exec M xs w.1).1 ∧
      (p.exec M.logged xs w).2.1 = (p.exec M xs w.1).2 ∧
      (p.exec M.logged xs w).2.2 =
        w.2 ++ (p.trace M xs w.1).map fun step => (step.1, step.2.1) := by
  induction p generalizing xs w with
  | done a => exact ⟨rfl, rfl, (List.append_nil _).symm⟩
  | look k ih => exact ih (M.obs w.1) xs w
  | call c k ih =>
    cases xs with
    | nil => exact ⟨rfl, rfl, (List.append_nil _).symm⟩
    | cons x xs =>
      obtain ⟨hvalue, hstate, hlog⟩ := ih (M.perform c x w.1).1 xs (M.logged.perform c x w).2
      refine ⟨hvalue, hstate, hlog.trans ?_⟩
      rw [trace, List.map_cons]
      exact (List.append_cons w.2 (c, x) _).symm

/-- **A machine refines another** along `f` if whatever a command does to it the other can do. -/
structure Refines {υ ψ : Type} (N : Machine ω κ ψ υ) (f : τ → υ) : Prop where
  obs : ∀ s, N.obs (f s) = M.obs s
  perform : ∀ c x s, ∃ y, (N.perform c y (f s)).1 = (M.perform c x s).1 ∧
    (N.perform c y (f s)).2 = f (M.perform c x s).2

/-- **The weakest precondition with a crash condition**: `I` holds after every command, and the
script ends with `Q`. -/
def wp (I : τ → Prop) : Script ω κ α → (α → τ → Prop) → τ → Prop
  | done a, Q, s => Q a s
  | look k, Q, s => (k (M.obs s)).wp I Q s
  | call c k, Q, s => ∀ x, I (M.perform c x s).2 ∧ (k (M.perform c x s).1).wp I Q (M.perform c x s).2

section Wp

variable {M} {I I' : τ → Prop} {Q Q' : α → τ → Prop} {s : τ}

@[simp] theorem wp_done (a : α) : wp M I (done a : Script ω κ α) Q s ↔ Q a s := Iff.rfl

@[simp] theorem wp_look (k : ω → Script ω κ α) :
    wp M I (look k) Q s ↔ wp M I (k (M.obs s)) Q s := Iff.rfl

theorem wp_call (c : κ) (k : Bool → Script ω κ α) :
    wp M I (call c k) Q s ↔
      ∀ x, I (M.perform c x s).2 ∧ wp M I (k (M.perform c x s).1) Q (M.perform c x s).2 := Iff.rfl

theorem wp_run {c : κ} {Q : Bool → τ → Prop} :
    wp M I (run c) Q s ↔
      ∀ x, I (M.perform c x s).2 ∧ Q (M.perform c x s).1 (M.perform c x s).2 := Iff.rfl

@[simp] theorem wp_ite {b : Prop} [Decidable b] {p q : Script ω κ α} :
    wp M I (if b then p else q) Q s ↔ (b → wp M I p Q s) ∧ (¬b → wp M I q Q s) := by
  by_cases h : b <;> simp [h]

theorem wp_bind {p : Script ω κ α} {f : α → Script ω κ β} {Q : β → τ → Prop} :
    wp M I (p.bind f) Q s ↔ wp M I p (fun a t => wp M I (f a) Q t) s := by
  induction p generalizing s with
  | done a => exact Iff.rfl
  | look k ih => exact ih (M.obs s)
  | call c k ih =>
    rw [bind, wp_call, wp_call]
    exact forall_congr' fun x => and_congr_right fun _ => ih _

/-- **Consequence**, also for the crash condition. -/
theorem wp_mono {p : Script ω κ α} (h : wp M I p Q s) (hI : ∀ t, I t → I' t)
    (hQ : ∀ a t, Q a t → Q' a t) : wp M I' p Q' s := by
  induction p generalizing s with
  | done a => exact hQ a s h
  | look k ih => exact ih (M.obs s) h
  | call c k ih => exact fun x => ⟨hI _ (h x).1, ih _ (h x).2⟩

/-- Two specifications of one script hold together. -/
theorem wp_and {p : Script ω κ α} (h : wp M I p Q s) (h' : wp M I' p Q' s) :
    wp M (fun t => I t ∧ I' t) p (fun a t => Q a t ∧ Q' a t) s := by
  induction p generalizing s with
  | done a => exact ⟨h, h'⟩
  | look k ih => exact ih (M.obs s) h h'
  | call c k ih => exact fun x => ⟨⟨(h x).1, (h' x).1⟩, ih _ (h x).2 (h' x).2⟩

theorem wp_all_cons {p : Script ω κ Bool} {ps : List (Script ω κ Bool)} {Q : Bool → τ → Prop} :
    wp M I (all (p :: ps)) Q s ↔
      wp M I p (fun ok t => (ok = true → wp M I (all ps) Q t) ∧ (ok = false → Q false t)) s := by
  rw [all, wp_bind]
  simp only [wp_ite, wp_done, Bool.not_eq_true]

/-- A chain that succeeds: what its first part establishes is what the rest starts from. -/
theorem wp_all_of {p : Script ω κ Bool} {ps : List (Script ω κ Bool)} {R S : τ → Prop}
    (hp : wp M I p (fun ok t => ok = true → R t) s)
    (hrest : ∀ t, R t → wp M I (all ps) (fun ok u => ok = true → S u) t) :
    wp M I (all (p :: ps)) (fun ok u => ok = true → S u) s := by
  rw [wp_all_cons]
  exact wp_mono hp (fun _ h => h) fun ok t ht => ⟨fun hok => hrest t (ht hok), fun _ => nofun⟩

theorem wp_firstFailure_cons {name : β} {p : Script ω κ Bool} {ps : List (β × Script ω κ Bool)}
    {Q : Option β → τ → Prop} :
    wp M I (firstFailure ((name, p) :: ps)) Q s ↔
      wp M I p (fun ok t => (ok = true → wp M I (firstFailure ps) Q t) ∧
        (ok = false → Q (some name) t)) s := by
  rw [firstFailure, wp_bind]
  simp only [wp_ite, wp_done, Bool.not_eq_true]

/-- The same for a chain that reports. -/
theorem wp_firstFailure_of {name : β} {p : Script ω κ Bool} {ps : List (β × Script ω κ Bool)}
    {R S : τ → Prop} (hp : wp M I p (fun ok t => ok = true → R t) s)
    (hrest : ∀ t, R t → wp M I (firstFailure ps) (fun e u => e = none → S u) t) :
    wp M I (firstFailure ((name, p) :: ps)) (fun e u => e = none → S u) s := by
  rw [wp_firstFailure_cons]
  exact wp_mono hp (fun _ h => h) fun ok t ht => ⟨fun hok => hrest t (ht hok), fun _ => nofun⟩

/-- A script that may raise: what its first part establishes is what the rest starts from. -/
theorem wp_attempt_of {ε : Type} {p : Script ω κ (Except ε α)} {f : α → Script ω κ (Except ε β)}
    {R : α → τ → Prop} {S : β → τ → Prop}
    (hp : wp M I p (fun result t => ∀ a, result = .ok a → R a t) s)
    (hrest : ∀ a t, R a t → wp M I (f a) (fun result u => ∀ b, result = .ok b → S b u) t) :
    wp M I (attempt p f) (fun result u => ∀ b, result = .ok b → S b u) s := by
  rw [attempt, wp_bind]
  refine wp_mono hp (fun _ h => h) fun result t ht => ?_
  cases result with
  | error e => exact nofun
  | ok a => exact hrest a t (ht a rfl)

theorem wp_orRaise_of {ε : Type} {p : Script ω κ Bool} {e : ε} {R : τ → Prop}
    (hp : wp M I p (fun ok t => ok = true → R t) s) :
    wp M I (orRaise p e) (fun result t => ∀ u, result = .ok u → R t) s := by
  rw [orRaise, wp_bind]
  refine wp_mono hp (fun _ h => h) fun ok t ht => ?_
  cases ok with
  | true => exact fun _ _ => ht rfl
  | false => exact nofun

/-- Nothing is asked of a script. -/
theorem wp_true (p : Script ω κ α) : wp M (fun _ => True) p (fun _ _ => True) s := by
  induction p generalizing s with
  | done a => exact trivial
  | look k ih => exact ih (M.obs s)
  | call c k ih => exact fun x => ⟨trivial, ih _⟩

/-- A script that returns did so in its body, and then in its last part. -/
theorem wp_ensure_of {ε : Type} {p : Script ω κ (Except ε α)} {last : Script ω κ (Except ε Unit)}
    {R S : α → τ → Prop}
    (hp : wp M (fun _ => True) p (fun result t => ∀ a, result = .ok a → R a t) s)
    (hlast : ∀ a t, R a t →
      wp M (fun _ => True) last (fun result u => ∀ b, result = .ok b → S a u) t) :
    wp M (fun _ => True) (ensure p last) (fun result u => ∀ a, result = .ok a → S a u) s := by
  rw [ensure, wp_bind]
  refine wp_mono hp (fun _ h => h) fun result t ht => ?_
  rw [wp_bind]
  cases result with
  | error e =>
    refine wp_mono (wp_true last) (fun _ h => h) fun ended u _ => ?_
    cases ended with
    | error e' => exact nofun
    | ok b => exact nofun
  | ok a =>
    refine wp_mono (hlast a t (ht a rfl)) (fun _ h => h) fun ended u hu => ?_
    cases ended with
    | error e => exact nofun
    | ok b =>
      rintro _ ⟨rfl⟩
      exact hu b rfl

/-- A script that returns was not rescued. -/
theorem wp_rescue_of {ε : Type} {p : Script ω κ (Except ε α)} {last : Script ω κ (Except ε Unit)}
    {R : α → τ → Prop}
    (hp : wp M (fun _ => True) p (fun result t => ∀ a, result = .ok a → R a t) s) :
    wp M (fun _ => True) (rescue p last) (fun result u => ∀ a, result = .ok a → R a u) s := by
  rw [rescue, wp_bind]
  refine wp_mono hp (fun _ h => h) fun result t ht => ?_
  cases result with
  | ok a => exact ht
  | error e =>
    rw [wp_bind]
    refine wp_mono (wp_true last) (fun _ h => h) fun ended u _ => ?_
    cases ended with
    | error e' => exact nofun
    | ok b => exact nofun

/-- A script that may raise, with its two ways on. -/
theorem wp_attempt_cases {ε : Type} {p : Script ω κ (Except ε α)}
    {f : α → Script ω κ (Except ε β)} {Q : Except ε β → τ → Prop}
    (hp : wp M I p (fun result t => (∀ e, result = .error e → Q (.error e) t) ∧
      ∀ a, result = .ok a → wp M I (f a) Q t) s) : wp M I (attempt p f) Q s := by
  rw [attempt, wp_bind]
  refine wp_mono hp (fun _ h => h) fun result t ht => ?_
  cases result with
  | error e => exact ht.1 e rfl
  | ok a => exact ht.2 a rfl

/-- What a script leaves that is rescued if it raises. -/
theorem wp_rescue_anyway {ε : Type} {p : Script ω κ (Except ε α)}
    {last : Script ω κ (Except ε Unit)} {S : τ → Prop}
    (hp : wp M I p (fun result t => (∀ a, result = .ok a → S t) ∧
      ∀ e, result = .error e → wp M I last (fun _ u => S u) t) s) :
    wp M I (rescue p last) (fun _ u => S u) s := by
  rw [rescue, wp_bind]
  refine wp_mono hp (fun _ h => h) fun result t ht => ?_
  cases result with
  | ok a => exact ht.1 a rfl
  | error e =>
    rw [wp_bind]
    exact ht.2 e rfl

/-- What a script leaves with its last part. -/
theorem wp_ensure_anyway {ε : Type} {p : Script ω κ (Except ε α)}
    {last : Script ω κ (Except ε Unit)} {R S : τ → Prop} (hp : wp M I p (fun _ t => R t) s)
    (hlast : ∀ t, R t → wp M I last (fun _ u => S u) t) :
    wp M I (ensure p last) (fun _ u => S u) s := by
  rw [ensure, wp_bind]
  refine wp_mono hp (fun _ h => h) fun result t ht => ?_
  rw [wp_bind]
  exact hlast t ht

/-- What a script that may raise leaves whether or not it does. -/
theorem wp_attempt_anyway {ε : Type} {p : Script ω κ (Except ε α)}
    {f : α → Script ω κ (Except ε β)} {R S : τ → Prop} (hp : wp M I p (fun _ t => R t) s)
    (hRS : ∀ t, R t → S t) (hrest : ∀ a t, R t → wp M I (f a) (fun _ u => S u) t) :
    wp M I (attempt p f) (fun _ u => S u) s := by
  rw [attempt, wp_bind]
  refine wp_mono hp (fun _ h => h) fun result t ht => ?_
  cases result with
  | error e => exact hRS t ht
  | ok a => exact hrest a t ht

theorem wp_orRaise_anyway {ε : Type} {p : Script ω κ Bool} {e : ε} {R : τ → Prop}
    (hp : wp M I p (fun _ t => R t) s) : wp M I (orRaise p e) (fun _ t => R t) s := by
  rw [orRaise, wp_bind]
  exact hp

/-- **What a weakest precondition says about all runs**: a run that crashed left a state of the
crash condition, and a run that ended satisfies the postcondition. -/
theorem exec_of_wp {p : Script ω κ α} (h : wp M I p Q s) (hs : I s) (xs : List χ) :
    (∀ t, p.exec M xs s = (none, t) → I t) ∧
      ∀ a t, p.exec M xs s = (some a, t) → Q a t := by
  induction p generalizing s xs with
  | done a =>
    refine ⟨nofun, ?_⟩
    rintro _ _ ⟨rfl, rfl⟩
    exact h
  | look k ih => exact ih (M.obs s) h hs xs
  | call c k ih =>
    cases xs with
    | nil =>
      refine ⟨?_, nofun⟩
      rintro _ ⟨-, rfl⟩
      exact hs
    | cons x xs => exact ih _ (h x).2 (h x).1 xs

/-- A run keeps what holds at every point of it. -/
theorem exec_of_wp_anyway {p : Script ω κ α} (h : wp M I p (fun _ t => I t) s) (hs : I s)
    (xs : List χ) : I (p.exec M xs s).2 := by
  obtain ⟨hcrash, hend⟩ := exec_of_wp h hs xs
  rcases hrun : p.exec M xs s with ⟨_ | a, t⟩
  · exact hcrash t hrun
  · exact hend a t hrun

/-- The same for the run in which every command gets the same choice. -/
theorem eval_of_wp {p : Script ω κ α} (h : wp M I p Q s) (x : χ) :
    Q (p.eval M x s).1 (p.eval M x s).2 := by
  induction p generalizing s with
  | done a => exact h
  | look k ih => exact ih (M.obs s) h
  | call c k ih => exact ih _ (h x).2

/-- What is proved on a machine holds on every machine that refines it. -/
theorem wp_of_refines {υ ψ : Type} {N : Machine ω κ ψ υ} {f : τ → υ} (hf : Refines M N f)
    {I : υ → Prop} {Q : α → υ → Prop} {p : Script ω κ α} (h : wp N I p Q (f s)) :
    wp M (fun t => I (f t)) p (fun a t => Q a (f t)) s := by
  induction p generalizing s with
  | done a => exact h
  | look k ih =>
    rw [wp_look] at h ⊢
    rw [hf.obs] at h
    exact ih _ h
  | call c k ih =>
    intro x
    obtain ⟨y, hstatus, hstate⟩ := hf.perform c x s
    have hy := h y
    rw [hstatus, hstate] at hy
    exact ⟨hy.1, ih _ hy.2⟩

/-- A property of the state of a watched machine, as long as the condition was met. -/
def Given (I : τ → Prop) (w : τ × Prop) : Prop := w.2 → I w.1

/-- What is proved on a machine holds on it when it is watched. -/
theorem wp_watch {G : κ → χ → τ → Prop} {p : Script ω κ α} {w : τ × Prop}
    (h : wp M I p Q w.1) :
    wp (M.watch G) (fun t => I t.1) p (fun a t => Q a t.1) w := by
  have hrefines : Refines (M.watch G) M Prod.fst :=
    ⟨fun _ => rfl, fun _ x _ => ⟨x, rfl, rfl⟩⟩
  exact wp_of_refines hrefines h

/-- What is proved on a machine holds on it when it keeps a log. -/
theorem wp_logged {p : Script ω κ α} {w : τ × List (κ × χ)} (h : wp M I p Q w.1) :
    wp M.logged (fun t => I t.1) p (fun a t => Q a t.1) w := by
  have hrefines : Refines M.logged M Prod.fst :=
    ⟨fun _ => rfl, fun _ x _ => ⟨x, rfl, rfl⟩⟩
  exact wp_of_refines hrefines h

/-- Once the condition was not met, it is not met in the end. -/
theorem wp_watch_unmet {G : κ → χ → τ → Prop} {p : Script ω κ α} {w : τ × Prop} (hw : ¬w.2)
    {I : τ × Prop → Prop} {Q : α → τ × Prop → Prop} (hI : ∀ t : τ × Prop, ¬t.2 → I t)
    (hQ : ∀ a (t : τ × Prop), ¬t.2 → Q a t) : wp (M.watch G) I p Q w := by
  induction p generalizing w with
  | done a => exact hQ a w hw
  | look k ih => exact ih (M.obs w.1) hw
  | call c k ih => exact fun x => ⟨hI _ fun hmet => hw hmet.1, ih _ fun hmet => hw hmet.1⟩

end Wp

/-! ### Keeping an invariant -/

/-- **A script keeps `I`** when it holds at the end of every run that started in it; between two
commands there is `C`. -/
def Keeps (C I : τ → Prop) (p : Script ω κ α) : Prop := ∀ s, I s → wp M C p (fun _ t => I t) s

namespace Keeps

variable {M} {C I : τ → Prop}

theorem done (a : α) : Keeps M C I (Script.done a : Script ω κ α) := fun _ h => h

theorem look {k : ω → Script ω κ α} (h : ∀ w, Keeps M C I (k w)) : Keeps M C I (Script.look k) :=
  fun s hs => h (M.obs s) s hs

theorem bind {p : Script ω κ α} {f : α → Script ω κ β} (hp : Keeps M C I p)
    (hf : ∀ a, Keeps M C I (f a)) : Keeps M C I (p.bind f) := by
  intro s hs
  rw [wp_bind]
  exact wp_mono (hp s hs) (fun _ h => h) fun a t ht => hf a t ht

theorem ite {b : Prop} [Decidable b] {p q : Script ω κ α} (hp : Keeps M C I p)
    (hq : Keeps M C I q) : Keeps M C I (if b then p else q) := by
  split
  · exact hp
  · exact hq

theorem all {ps : List (Script ω κ Bool)} (h : ∀ p ∈ ps, Keeps M C I p) :
    Keeps M C I (Script.all ps) := by
  induction ps with
  | nil => exact done true
  | cons p ps ih =>
    exact bind (h p (by simp)) fun ok => ite (ih fun q hq => h q (by simp [hq])) (done false)

theorem firstFailure {ps : List (β × Script ω κ Bool)} (h : ∀ p ∈ ps, Keeps M C I p.2) :
    Keeps M C I (Script.firstFailure ps) := by
  induction ps with
  | nil => exact done none
  | cons p ps ih =>
    exact bind (h p (by simp)) fun ok =>
      ite (ih fun q hq => h q (by simp [hq])) (done (some p.1))

/-- **A chain does not get past a part that fails.** -/
theorem all_fails {ps : List (Script ω κ Bool)} {p : Script ω κ Bool}
    (h : ∀ q ∈ ps, Keeps M C I q) (hp : p ∈ ps)
    (hfails : ∀ s, I s → wp M C p (fun ok t => ok = false ∧ I t) s) {s : τ} (hs : I s) :
    wp M C (Script.all ps) (fun ok t => ok = false ∧ I t) s := by
  induction ps generalizing s with
  | nil => cases hp
  | cons q ps ih =>
    rw [wp_all_cons]
    rcases List.mem_cons.mp hp with rfl | hp
    · refine wp_mono (hfails s hs) (fun _ ht => ht) ?_
      rintro _ t ⟨rfl, ht⟩
      exact ⟨nofun, fun _ => ⟨rfl, ht⟩⟩
    · refine wp_mono (h q (by simp) s hs) (fun _ ht => ht) fun ok t ht => ?_
      exact ⟨fun _ => ih (fun q hq => h q (by simp [hq])) hp ht, fun _ => ⟨rfl, ht⟩⟩

/-- The same for a chain that reports. -/
theorem firstFailure_fails {ps : List (β × Script ω κ Bool)} {p : β × Script ω κ Bool}
    (h : ∀ q ∈ ps, Keeps M C I q.2) (hp : p ∈ ps)
    (hfails : ∀ s, I s → wp M C p.2 (fun ok t => ok = false ∧ I t) s) {s : τ} (hs : I s) :
    wp M C (Script.firstFailure ps) (fun failure t => failure ≠ none ∧ I t) s := by
  induction ps generalizing s with
  | nil => cases hp
  | cons q ps ih =>
    rw [wp_firstFailure_cons]
    rcases List.mem_cons.mp hp with rfl | hp
    · refine wp_mono (hfails s hs) (fun _ ht => ht) ?_
      rintro _ t ⟨rfl, ht⟩
      exact ⟨nofun, fun _ => ⟨nofun, ht⟩⟩
    · refine wp_mono (h q (by simp) s hs) (fun _ ht => ht) fun ok t ht => ?_
      exact ⟨fun _ => ih (fun q hq => h q (by simp [hq])) hp ht, fun _ => ⟨nofun, ht⟩⟩

end Keeps

/-! ### The commands of a script -/

/-- **A script runs only commands of `P`.** -/
def Only (P : κ → Prop) : Script ω κ α → Prop
  | done _ => True
  | look k => ∀ w, (k w).Only P
  | call c k => P c ∧ ∀ ok, (k ok).Only P

namespace Only

variable {P : κ → Prop}

theorem run {c : κ} (h : P c) : Only P (Script.run c : Script ω κ Bool) := ⟨h, fun _ => trivial⟩

theorem bind {p : Script ω κ α} {f : α → Script ω κ β} (hp : p.Only P) (hf : ∀ a, (f a).Only P) :
    (p.bind f).Only P := by
  induction p with
  | done a => exact hf a
  | look k ih => exact fun w => ih w (hp w)
  | call c k ih => exact ⟨hp.1, fun ok => ih ok (hp.2 ok)⟩

theorem attempt {ε : Type} {p : Script ω κ (Except ε α)} {f : α → Script ω κ (Except ε β)}
    (hp : p.Only P) (hf : ∀ a, (f a).Only P) : (Script.attempt p f).Only P := by
  refine bind hp fun result => ?_
  cases result with
  | error e => exact trivial
  | ok a => exact hf a

theorem orRaise {ε : Type} {p : Script ω κ Bool} {e : ε} (hp : p.Only P) :
    (Script.orRaise p e).Only P :=
  bind hp fun _ => trivial

theorem ite {b : Prop} [Decidable b] {p q : Script ω κ α} (hp : p.Only P) (hq : q.Only P) :
    (if b then p else q).Only P := by
  split
  · exact hp
  · exact hq

theorem all {ps : List (Script ω κ Bool)} (h : ∀ p ∈ ps, p.Only P) : (Script.all ps).Only P := by
  induction ps with
  | nil => exact trivial
  | cons p ps ih =>
    exact bind (h p (by simp)) fun ok => ite (ih fun q hq => h q (by simp [hq])) trivial

theorem firstFailure {ps : List (β × Script ω κ Bool)} (h : ∀ p ∈ ps, p.2.Only P) :
    (Script.firstFailure ps).Only P := by
  induction ps with
  | nil => exact trivial
  | cons p ps ih =>
    exact bind (h p (by simp)) fun ok => ite (ih fun q hq => h q (by simp [hq])) trivial

theorem mono {P' : κ → Prop} {p : Script ω κ α} (hp : p.Only P) (h : ∀ c, P c → P' c) :
    p.Only P' := by
  induction p with
  | done a => exact trivial
  | look k ih => exact fun w => ih w (hp w)
  | call c k ih => exact ⟨h c hp.1, fun ok => ih ok (hp.2 ok)⟩

theorem univ (p : Script ω κ α) : p.Only fun _ => True := by
  induction p with
  | done a => exact trivial
  | look k ih => exact ih
  | call c k ih => exact ⟨trivial, ih⟩

/-- **A script keeps what its commands keep.** -/
theorem keeps {M : Machine ω κ χ τ} {I : τ → Prop} {p : Script ω κ α} (hp : p.Only P)
    (h : ∀ c, P c → ∀ s x, I s → I (M.perform c x s).2) : Keeps M I I p := by
  induction p with
  | done a => exact fun s hs => hs
  | look k ih => exact fun s hs => ih (M.obs s) (hp _) s hs
  | call c k ih =>
    exact fun s hs x => ⟨h c hp.1 s x hs, ih _ (hp.2 _) _ (h c hp.1 s x hs)⟩

/-- **On a watched machine**, what its commands keep when they meet the condition. -/
theorem keeps_watch {M : Machine ω κ χ τ} {G : κ → χ → τ → Prop} {I : τ → Prop}
    {p : Script ω κ α} (hp : p.Only P)
    (h : ∀ c, P c → ∀ s x, G c x s → I s → I (M.perform c x s).2) :
    Keeps (M.watch G) (Given I) (Given I) p :=
  hp.keeps fun c hc s x hs hmet => h c hc s.1 x hmet.2 (hs hmet.1)

end Only

end Script
