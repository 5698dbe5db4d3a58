import EzOpenPN.Lib.Script

/-!
# Scripts that a command may cut short

A crash need not fall between two commands. A command that copies a directory or removes one can be
cut short in the middle, and then it has done part of its work and the script is over. On a machine
where a command may also *fail* and the script goes on, the two have to be told apart: a choice for
a command is **fatal** if it stands for a crash inside of it.

`Machine.mortal` is the machine that stops there: after a fatal choice nothing changes any more,
whatever the script still asks for. `Script.wpUntil` is the weakest precondition for it. It asks
for the crash condition after every command, also after a fatal one, and follows the script only
where no choice was fatal; a choice that is never fatal gives back `Script.wp`.
-/

namespace Machine

variable {ω κ χ τ : Type}

/-- **A machine that stops at a fatal choice**: next to its state, whether it still runs. -/
def mortal (M : Machine ω κ χ τ) (F : κ → χ → Prop) [∀ c x, Decidable (F c x)] :
    Machine ω κ χ (τ × Bool) where
  obs s := M.obs s.1
  perform c x s :=
    if s.2 then ((M.perform c x s.1).1, (M.perform c x s.1).2, !decide (F c x)) else (false, s)

end Machine

namespace Script

variable {ω κ χ τ α β : Type} (M : Machine ω κ χ τ) (F : κ → χ → Prop)

/-- **The weakest precondition up to a fatal choice**: `I` holds after every command, and the script
ends with `Q` unless a choice was fatal. -/
def wpUntil (I : τ → Prop) : Script ω κ α → (α → τ → Prop) → τ → Prop
  | done a, Q, s => Q a s
  | look k, Q, s => (k (M.obs s)).wpUntil I Q s
  | call c k, Q, s => ∀ x, I (M.perform c x s).2 ∧
      (¬F c x → (k (M.perform c x s).1).wpUntil I Q (M.perform c x s).2)

section Rules

variable {M F} {I I' : τ → Prop} {Q Q' : α → τ → Prop} {s : τ}

@[simp] theorem wpUntil_done (a : α) :
    wpUntil M F I (done a : Script ω κ α) Q s ↔ Q a s := Iff.rfl

@[simp] theorem wpUntil_look (k : ω → Script ω κ α) :
    wpUntil M F I (look k) Q s ↔ wpUntil M F I (k (M.obs s)) Q s := Iff.rfl

theorem wpUntil_run {c : κ} {Q : Bool → τ → Prop} :
    wpUntil M F I (run c) Q s ↔
      ∀ x, I (M.perform c x s).2 ∧ (¬F c x → Q (M.perform c x s).1 (M.perform c x s).2) := Iff.rfl

@[simp] theorem wpUntil_ite {b : Prop} [Decidable b] {p q : Script ω κ α} :
    wpUntil M F I (if b then p else q) Q s ↔
      (b → wpUntil M F I p Q s) ∧ (¬b → wpUntil M F I q Q s) := by
  by_cases h : b <;> simp [h]

theorem wpUntil_bind {p : Script ω κ α} {f : α → Script ω κ β} {Q : β → τ → Prop} :
    wpUntil M F I (p.bind f) Q s ↔ wpUntil M F I p (fun a t => wpUntil M F I (f a) Q t) s := by
  induction p generalizing s with
  | done a => exact Iff.rfl
  | look k ih => exact ih (M.obs s)
  | call c k ih => exact forall_congr' fun x => and_congr_right fun _ => imp_congr_right fun _ => ih _

/-- **Consequence**, also for the crash condition. -/
theorem wpUntil_mono {p : Script ω κ α} (h : wpUntil M F I p Q s) (hI : ∀ t, I t → I' t)
    (hQ : ∀ a t, Q a t → Q' a t) : wpUntil M F I' p Q' s := by
  induction p generalizing s with
  | done a => exact hQ a s h
  | look k ih => exact ih (M.obs s) h
  | call c k ih => exact fun x => ⟨hI _ (h x).1, fun hx => ih _ ((h x).2 hx)⟩

/-- Consequence for what a script ends with. -/
theorem wpUntil_post {p : Script ω κ α} (h : wpUntil M F I p Q s)
    (hQ : ∀ a t, Q a t → Q' a t) : wpUntil M F I p Q' s :=
  wpUntil_mono h (fun _ ht => ht) hQ

/-- Two specifications of one script hold together. -/
theorem wpUntil_and {p : Script ω κ α} (h : wpUntil M F I p Q s) (h' : wpUntil M F I' p Q' s) :
    wpUntil M F I p (fun a t => Q a t ∧ Q' a t) s := by
  induction p generalizing s with
  | done a => exact ⟨h, h'⟩
  | look k ih => exact ih (M.obs s) h h'
  | call c k ih => exact fun x => ⟨(h x).1, fun hx => ih _ ((h x).2 hx) ((h' x).2 hx)⟩

/-- What is proved with no choice fatal. -/
theorem wpUntil_of_wp {p : Script ω κ α} (h : wp M I p Q s) : wpUntil M F I p Q s := by
  induction p generalizing s with
  | done a => exact h
  | look k ih => exact ih (M.obs s) h
  | call c k ih => exact fun x => ⟨(h x).1, fun _ => ih _ (h x).2⟩

/-- What one part establishes is what the rest starts from. -/
theorem wpUntil_bind_of {p : Script ω κ α} {f : α → Script ω κ β} {Q' : β → τ → Prop}
    (hp : wpUntil M F I p Q s) (hf : ∀ a t, Q a t → wpUntil M F I (f a) Q' t) :
    wpUntil M F I (p.bind f) Q' s :=
  wpUntil_bind.mpr (wpUntil_post hp hf)

/-- A chain, with its two ways on. -/
theorem wpUntil_all_of {p : Script ω κ Bool} {ps : List (Script ω κ Bool)}
    {R : Bool → τ → Prop} {Q : Bool → τ → Prop} (hp : wpUntil M F I p R s)
    (hrest : ∀ t, R true t → wpUntil M F I (all ps) Q t) (hstop : ∀ t, R false t → Q false t) :
    wpUntil M F I (all (p :: ps)) Q s := by
  refine wpUntil_bind_of hp fun ok t ht => ?_
  cases ok with
  | true => exact hrest t ht
  | false => exact hstop t ht

/-- The same for a chain that reports. -/
theorem wpUntil_firstFailure_of {name : β} {p : Script ω κ Bool}
    {ps : List (β × Script ω κ Bool)} {R : Bool → τ → Prop} {Q : Option β → τ → Prop}
    (hp : wpUntil M F I p R s) (hrest : ∀ t, R true t → wpUntil M F I (firstFailure ps) Q t)
    (hstop : ∀ t, R false t → Q (some name) t) :
    wpUntil M F I (firstFailure ((name, p) :: ps)) Q s := by
  refine wpUntil_bind_of hp fun ok t ht => ?_
  cases ok with
  | true => exact hrest t ht
  | false => exact hstop t ht

/-- **What holds after every command and at the end** is what a run leaves, wherever it was cut
short. -/
theorem exec_mortal_of_wpUntil [∀ c x, Decidable (F c x)] {p : Script ω κ α}
    (h : wpUntil M F I p Q s) (hs : I s) (hQ : ∀ a t, Q a t → I t) (xs : List χ) :
    I (p.exec (M.mortal F) xs (s, true)).2.1 := by
  -- a machine that has stopped does not change
  have hdead : ∀ (p : Script ω κ α) (xs : List χ) (t : τ), I t →
      I (p.exec (M.mortal F) xs (t, false)).2.1 := by
    intro p
    induction p with
    | done a => exact fun _ _ ht => ht
    | look k ih => exact fun xs t ht => ih (M.obs t) xs t ht
    | call c k ih =>
      intro xs t ht
      cases xs with
      | nil => exact ht
      | cons x xs => exact ih false xs t ht
  induction p generalizing s xs with
  | done a => exact hQ a s h
  | look k ih => exact ih (M.obs s) h hs xs
  | call c k ih =>
    cases xs with
    | nil => exact hs
    | cons x xs =>
      obtain ⟨hafter, hrest⟩ := h x
      by_cases hx : F c x
      · have hperform : (M.mortal F).perform c x (s, true) =
            ((M.perform c x s).1, (M.perform c x s).2, false) := by simp [Machine.mortal, hx]
        rw [exec, hperform]
        exact hdead _ xs _ hafter
      · have hperform : (M.mortal F).perform c x (s, true) =
            ((M.perform c x s).1, (M.perform c x s).2, true) := by simp [Machine.mortal, hx]
        rw [exec, hperform]
        exact ih _ (hrest hx) hafter xs

/-- A run without a fatal choice ends with the postcondition. -/
theorem exec_of_wpUntil {p : Script ω κ α} (h : wpUntil M F I p Q s) {xs : List χ}
    (hxs : ∀ x ∈ xs, ∀ c, ¬F c x) {a : α} {t : τ} (hrun : p.exec M xs s = (some a, t)) : Q a t := by
  induction p generalizing s xs with
  | done b =>
    obtain ⟨rfl, rfl⟩ : b = a ∧ s = t := by simpa [exec] using hrun
    exact h
  | look k ih => exact ih (M.obs s) h hxs hrun
  | call c k ih =>
    cases xs with
    | nil => cases hrun
    | cons x xs =>
      exact ih _ ((h x).2 (hxs x (by simp) c)) (fun y hy => hxs y (by simp [hy])) hrun

end Rules

end Script
