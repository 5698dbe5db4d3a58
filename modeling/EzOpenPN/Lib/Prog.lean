import Mathlib

/-!
# Programs that raise, over a state that survives

A handler that fails half way leaves behind whatever it has already done: the rows
it committed stay committed, the remote calls it made stay made. The computations
of this file are built for that. A `Prog σ ε α` reads and writes a state `σ` and
ends in a value of `α` or in an exception of `ε`, and **either way the state it
reached is the state it leaves**. There is no rollback; a program that wants one has
to write it.

## What a program is proved to do

The specification of a program is its weakest precondition `Prog.wp`, with one
postcondition for the value it returns and one for the exception it raises. Every
combinator has a `wp` lemma, so that a program is taken apart by rewriting and its
proof is about the states between its steps, never about the encoding of the monad.

Two derived forms carry most of the proofs:

* `Prog.Keeps I m` – the program keeps an invariant, *whichever way it ends*. It is
  closed under every combinator, and a loop keeps what its body keeps;
* `Prog.wp_forEach_prefix` – the loop rule with an invariant that may speak of the
  part of the list already processed.
-/

/-- **A sequence that returns**: the first computation returned, and so did the rest on its
value. -/
theorem Except.bind_eq_ok {ε α β : Type} {x : Except ε α} {f : α → Except ε β} {b : β} :
    (x >>= f) = .ok b ↔ ∃ a, x = .ok a ∧ f a = .ok b := by
  cases x <;> simp [bind, Except.bind]

/-- **A sequence that raises**: the first computation raised, or the rest did on its value. -/
theorem Except.bind_eq_error {ε α β : Type} {x : Except ε α} {f : α → Except ε β} {e : ε} :
    (x >>= f) = .error e ↔ x = .error e ∨ ∃ a, x = .ok a ∧ f a = .error e := by
  cases x <;> simp [bind, Except.bind]

/-- **A program**: from a state, a value or an exception, together with the state
reached. -/
def Prog (σ ε α : Type) : Type := σ → Except ε α × σ

namespace Prog

variable {σ ε α β : Type}

/-! ### The combinators -/

/-- Return a value, leaving the state alone. -/
def ret (a : α) : Prog σ ε α := fun s => (.ok a, s)

/-- Run one program and hand its value to the next; an exception skips the rest. -/
def andThen (m : Prog σ ε α) (f : α → Prog σ ε β) : Prog σ ε β := fun s =>
  match m s with
  | (.ok a, t) => f a t
  | (.error e, t) => (.error e, t)

instance : Monad (Prog σ ε) where
  pure := ret
  bind := andThen

/-- Raise an exception. -/
def raise (e : ε) : Prog σ ε α := fun s => (.error e, s)

/-- Read the state. -/
def read : Prog σ ε σ := fun s => (.ok s, s)

/-- Change the state. -/
def modify (f : σ → σ) : Prog σ ε Unit := fun s => (.ok (), f s)

/-- A pure computation that may raise. -/
def ofExcept (r : Except ε α) : Prog σ ε α := fun s => (r, s)

/-- Run a program and handle the exception it raises. -/
def tryExcept (m : Prog σ ε α) (h : ε → Prog σ ε α) : Prog σ ε α := fun s =>
  match m s with
  | (.ok a, t) => (.ok a, t)
  | (.error e, t) => h e t

/-- Run a program and report whether it returned. -/
def succeeds (m : Prog σ ε α) : Prog σ ε Bool := fun s =>
  match m s with
  | (.ok _, t) => (.ok true, t)
  | (.error _, t) => (.ok false, t)

/-- Run a program for its effects only: its value and its exception are dropped. -/
def suppress (m : Prog σ ε α) : Prog σ ε Unit := fun s => (.ok (), (m s).2)

/-- Run the body at every element of a list, in order, stopping at the first
exception. -/
def forEach : List β → (β → Prog σ ε Unit) → Prog σ ε Unit
  | [], _ => ret ()
  | x :: xs, f => andThen (f x) fun _ => forEach xs f

/-- Fold over a list, in order, threading an accumulator. -/
def foldEach : List β → (α → β → Prog σ ε α) → α → Prog σ ε α
  | [], _, a => ret a
  | x :: xs, f, a => andThen (f a x) fun a' => foldEach xs f a'

/-- A loop over a mapped list. -/
theorem forEach_map {γ : Type} (g : γ → β) (xs : List γ) (f : β → Prog σ ε Unit) :
    forEach (xs.map g) f = forEach xs fun x => f (g x) := by
  induction xs with
  | nil => rfl
  | cons x xs ih => rw [List.map_cons, forEach, forEach, ih]

/-! ### Weakest preconditions -/

/-- **The weakest precondition**: run from `s`, the program returns with `Q` or
raises with `R`. -/
def wp (m : Prog σ ε α) (Q : α → σ → Prop) (R : ε → σ → Prop) (s : σ) : Prop :=
  match m s with
  | (.ok a, t) => Q a t
  | (.error e, t) => R e t

section Wp

variable {m : Prog σ ε α} {Q : α → σ → Prop} {R : ε → σ → Prop} {s : σ}

/-- The weakest precondition, read off a returning run. -/
theorem wp_of_ok {a : α} {t : σ} (h : m s = (.ok a, t)) : wp m Q R s ↔ Q a t := by
  rw [wp, h]

/-- The weakest precondition, read off a raising run. -/
theorem wp_of_error {e : ε} {t : σ} (h : m s = (.error e, t)) : wp m Q R s ↔ R e t := by
  rw [wp, h]

/-- **The weakest precondition says what the two kinds of run satisfy.** -/
theorem wp_iff : wp m Q R s ↔
    (∀ a t, m s = (.ok a, t) → Q a t) ∧ ∀ e t, m s = (.error e, t) → R e t := by
  rcases h : m s with ⟨_ | _, t⟩
  · rw [wp_of_error h]
    simp
  · rw [wp_of_ok h]
    simp

/-- **Consequence.** -/
theorem wp_mono {Q' : α → σ → Prop} {R' : ε → σ → Prop} (h : wp m Q R s)
    (hQ : ∀ a t, Q a t → Q' a t) (hR : ∀ e t, R e t → R' e t) : wp m Q' R' s := by
  rw [wp_iff] at h ⊢
  exact ⟨fun a t hm => hQ a t (h.1 a t hm), fun e t hm => hR e t (h.2 e t hm)⟩

/-- A specification that holds everywhere holds of every program. -/
theorem wp_of_forall (hQ : ∀ a t, Q a t) (hR : ∀ e t, R e t) : wp m Q R s :=
  wp_iff.mpr ⟨fun a t _ => hQ a t, fun e t _ => hR e t⟩

/-- **A program that cannot raise returns.** -/
theorem exists_ok_of_wp (h : wp m Q (fun _ _ => False) s) : ∃ a t, m s = (.ok a, t) ∧ Q a t := by
  rw [wp_iff] at h
  rcases hm : m s with ⟨e | a, t⟩
  · exact absurd (h.2 e t hm) id
  · exact ⟨a, t, rfl, h.1 a t hm⟩

/-- Two specifications of one program hold together. -/
theorem wp_and {Q' : α → σ → Prop} {R' : ε → σ → Prop} (h : wp m Q R s) (h' : wp m Q' R' s) :
    wp m (fun a t => Q a t ∧ Q' a t) (fun e t => R e t ∧ R' e t) s := by
  rw [wp_iff] at h h' ⊢
  exact ⟨fun a t hm => ⟨h.1 a t hm, h'.1 a t hm⟩, fun e t hm => ⟨h.2 e t hm, h'.2 e t hm⟩⟩

@[simp] theorem wp_pure (a : α) : wp (pure a : Prog σ ε α) Q R s ↔ Q a s := Iff.rfl

@[simp] theorem wp_ret (a : α) : wp (ret a : Prog σ ε α) Q R s ↔ Q a s := Iff.rfl

@[simp] theorem wp_raise (e : ε) : wp (raise e : Prog σ ε α) Q R s ↔ R e s := Iff.rfl

@[simp] theorem wp_read {Q : σ → σ → Prop} : wp (read : Prog σ ε σ) Q R s ↔ Q s s := Iff.rfl

@[simp] theorem wp_modify {Q : Unit → σ → Prop} (f : σ → σ) :
    wp (modify f : Prog σ ε Unit) Q R s ↔ Q () (f s) := Iff.rfl

@[simp] theorem wp_ofExcept (r : Except ε α) :
    wp (ofExcept r : Prog σ ε α) Q R s ↔ (∀ a, r = .ok a → Q a s) ∧ ∀ e, r = .error e → R e s := by
  cases r <;> simp [wp, ofExcept]

@[simp] theorem wp_andThen (f : α → Prog σ ε β) {Q : β → σ → Prop} :
    wp (andThen m f) Q R s ↔ wp m (fun a t => wp (f a) Q R t) R s := by
  rcases h : m s with ⟨_ | _, t⟩ <;> simp [wp, andThen, h]

@[simp] theorem wp_bind (f : α → Prog σ ε β) {Q : β → σ → Prop} :
    wp (m >>= f) Q R s ↔ wp m (fun a t => wp (f a) Q R t) R s := wp_andThen f

@[simp] theorem wp_tryExcept (h : ε → Prog σ ε α) :
    wp (tryExcept m h) Q R s ↔ wp m Q (fun e t => wp (h e) Q R t) s := by
  rcases hm : m s with ⟨_ | _, t⟩ <;> simp [wp, tryExcept, hm]

@[simp] theorem wp_succeeds {Q : Bool → σ → Prop} :
    wp (succeeds m) Q R s ↔ wp m (fun _ t => Q true t) (fun _ t => Q false t) s := by
  rcases hm : m s with ⟨_ | _, t⟩ <;> simp [wp, succeeds, hm]

@[simp] theorem wp_suppress {Q : Unit → σ → Prop} :
    wp (suppress m) Q R s ↔ wp m (fun _ t => Q () t) (fun _ t => Q () t) s := by
  rcases hm : m s with ⟨_ | _, t⟩ <;> simp [wp, suppress, hm]

@[simp] theorem wp_ite (c : Prop) [Decidable c] (m₁ m₂ : Prog σ ε α) :
    wp (if c then m₁ else m₂) Q R s ↔ (c → wp m₁ Q R s) ∧ (¬c → wp m₂ Q R s) := by
  by_cases h : c <;> simp [h]

/-! ### Loops -/

/-- **The loop rule**: an invariant of the processed prefix, established at the empty
prefix and carried over each element, holds at the whole list when the loop returns. -/
theorem wp_forEach_prefix {xs : List β} {f : β → Prog σ ε Unit} {I : List β → σ → Prop}
    (hstep : ∀ pre x post, xs = pre ++ x :: post → ∀ s, I pre s →
      wp (f x) (fun _ => I (pre ++ [x])) R s) (hinit : I [] s) :
    wp (forEach xs f) (fun _ => I xs) R s := by
  suffices h : ∀ (post pre : List β) (s : σ), xs = pre ++ post → I pre s →
      wp (forEach post f) (fun _ => I xs) R s from h xs [] s rfl hinit
  intro post
  induction post with
  | nil =>
    intro pre s hxs hI
    rw [List.append_nil] at hxs
    exact hxs ▸ hI
  | cons x post ih =>
    intro pre s hxs hI
    rw [forEach, wp_andThen]
    refine wp_mono (hstep pre x post hxs s hI) (fun _ t ht => ?_) fun _ _ h => h
    exact ih (pre ++ [x]) t (by simpa using hxs) ht

/-- The loop rule for a fold: the invariant speaks of the processed prefix and of the
accumulator. -/
theorem wp_foldEach_prefix {xs : List β} {f : α → β → Prog σ ε α} {a : α}
    {I : List β → α → σ → Prop}
    (hstep : ∀ pre x post, xs = pre ++ x :: post → ∀ a s, I pre a s →
      wp (f a x) (fun a' => I (pre ++ [x]) a') R s) (hinit : I [] a s) :
    wp (foldEach xs f a) (fun a' => I xs a') R s := by
  suffices h : ∀ (post pre : List β) (a : α) (s : σ), xs = pre ++ post → I pre a s →
      wp (foldEach post f a) (fun a' => I xs a') R s from h xs [] a s rfl hinit
  intro post
  induction post with
  | nil =>
    intro pre a s hxs hI
    rw [List.append_nil] at hxs
    exact hxs ▸ hI
  | cons x post ih =>
    intro pre a s hxs hI
    rw [foldEach, wp_andThen]
    refine wp_mono (hstep pre x post hxs a s hI) (fun a' t ht => ?_) fun _ _ h => h
    exact ih (pre ++ [x]) a' t (by simpa using hxs) ht

end Wp

/-! ### Keeping an invariant -/

/-- **A program keeps `I`** when it holds after every run that started in it, whether
the run returned or raised. -/
def Keeps (I : σ → Prop) (m : Prog σ ε α) : Prop :=
  ∀ s, I s → wp m (fun _ t => I t) (fun _ t => I t) s

namespace Keeps

variable {I : σ → Prop} {m : Prog σ ε α}

/-- The state a kept invariant leaves. -/
theorem snd (h : Keeps I m) {s : σ} (hs : I s) : I (m s).2 := by
  have := h s hs
  rcases hm : m s with ⟨_ | _, t⟩
  · exact (wp_of_error hm).mp this
  · exact (wp_of_ok hm).mp this

theorem ret (a : α) : Keeps I (Prog.ret a : Prog σ ε α) := fun _ h => h

theorem raise (e : ε) : Keeps I (Prog.raise e : Prog σ ε α) := fun _ h => h

theorem read : Keeps I (Prog.read : Prog σ ε σ) := fun _ h => h

theorem ofExcept (r : Except ε α) : Keeps I (Prog.ofExcept r : Prog σ ε α) :=
  fun _ h => by simp [h]

theorem andThen (hm : Keeps I m) {f : α → Prog σ ε β} (hf : ∀ a, Keeps I (f a)) :
    Keeps I (Prog.andThen m f) := fun s hs => by
  rw [wp_andThen]
  exact wp_mono (hm s hs) (fun a t ht => hf a t ht) fun _ _ h => h

theorem bind (hm : Keeps I m) {f : α → Prog σ ε β} (hf : ∀ a, Keeps I (f a)) :
    Keeps I (m >>= f) := andThen hm hf

theorem tryExcept (hm : Keeps I m) {h : ε → Prog σ ε α} (hh : ∀ e, Keeps I (h e)) :
    Keeps I (Prog.tryExcept m h) := fun s hs => by
  rw [wp_tryExcept]
  exact wp_mono (hm s hs) (fun _ _ h => h) fun e t ht => hh e t ht

theorem succeeds (hm : Keeps I m) : Keeps I (Prog.succeeds m) := fun s hs => by
  rw [wp_succeeds]
  exact hm s hs

theorem suppress (hm : Keeps I m) : Keeps I (Prog.suppress m) := fun s hs => by
  rw [wp_suppress]
  exact hm s hs

theorem ite {c : Prop} [Decidable c] {m₁ m₂ : Prog σ ε α} (h₁ : Keeps I m₁) (h₂ : Keeps I m₂) :
    Keeps I (if c then m₁ else m₂) := by
  split
  · exact h₁
  · exact h₂

theorem forEach {xs : List β} {f : β → Prog σ ε Unit} (hf : ∀ x ∈ xs, Keeps I (f x)) :
    Keeps I (Prog.forEach xs f) := by
  induction xs with
  | nil => exact ret ()
  | cons x xs ih =>
    exact andThen (hf x (by simp)) fun _ => ih fun y hy => hf y (by simp [hy])

theorem foldEach {xs : List β} {f : α → β → Prog σ ε α} (hf : ∀ a, ∀ x ∈ xs, Keeps I (f a x)) :
    ∀ a, Keeps I (Prog.foldEach xs f a) := by
  induction xs with
  | nil => exact fun a => ret a
  | cons x xs ih =>
    exact fun a => andThen (hf a x (by simp)) fun a' => ih (fun b y hy => hf b y (by simp [hy])) a'

end Keeps

-- from here on a program is run by its `wp` lemmas only, never by unfolding
attribute [irreducible] wp

end Prog
