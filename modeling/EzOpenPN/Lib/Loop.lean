import Mathlib

/-!
# Loops that are left from the middle

The body of a `while True` either leaves the loop or comes round again. Written as a function
into a sum it says which, and `Loop.run` repeats it for as many passes as it is given; a run
that is cut off has no value, and more passes never change the value of one that is not
(`Loop.run_mono`).

One rule serves total correctness. A loop whose passes keep an invariant and lower a measure
returns within as many passes as the measure says, one more included, and whatever holds of
every way out of the invariant holds of what it returns (`Loop.run_total`).
-/

namespace Loop

variable {σ β : Type}

/-- At most `n` passes through a body: what the loop was left with, if it was left. -/
def run (body : σ → β ⊕ σ) : ℕ → σ → Option β
  | 0, _ => none
  | n + 1, s =>
    match body s with
    | .inl b => some b
    | .inr t => run body n t

variable {body : σ → β ⊕ σ}

theorem run_of_left {n : ℕ} {s : σ} {b : β} (h : body s = .inl b) :
    run body (n + 1) s = some b := by
  rw [run, h]

theorem run_of_right {n : ℕ} {s t : σ} (h : body s = .inr t) :
    run body (n + 1) s = run body n t := by
  rw [run, h]

/-- **More passes never change what a loop returned.** -/
theorem run_mono {n m : ℕ} (hnm : n ≤ m) {s : σ} {b : β} (h : run body n s = some b) :
    run body m s = some b := by
  induction n generalizing m s with
  | zero => exact absurd h (by simp [run])
  | succ n ih =>
    obtain ⟨m, rfl⟩ : ∃ k, m = k + 1 := ⟨m - 1, by omega⟩
    cases hs : body s with
    | inl c => rwa [run_of_left hs] at h ⊢
    | inr t =>
      rw [run_of_right hs] at h ⊢
      exact ih (by omega) h

/-- **Total correctness of a loop**: an invariant, a measure that every pass lowers, and what
every way out of the invariant guarantees. -/
theorem run_total {I : σ → Prop} {measure : σ → ℕ} {Q : β → Prop}
    (hleft : ∀ s b, I s → body s = .inl b → Q b)
    (hright : ∀ s t, I s → body s = .inr t → I t ∧ measure t < measure s) {s : σ} (hs : I s) :
    ∃ b, run body (measure s + 1) s = some b ∧ Q b := by
  -- by induction on a bound of the measure, one pass each
  suffices key : ∀ n s, I s → measure s ≤ n → ∃ b, run body (n + 1) s = some b ∧ Q b from
    key _ s hs (Nat.le_refl _)
  intro n
  induction n with
  | zero =>
    intro s hs hn
    cases hbody : body s with
    | inl b => exact ⟨b, run_of_left hbody, hleft s b hs hbody⟩
    | inr t => exact absurd (hright s t hs hbody).2 (by omega)
  | succ n ih =>
    intro s hs hn
    cases hbody : body s with
    | inl b => exact ⟨b, run_of_left hbody, hleft s b hs hbody⟩
    | inr t =>
      obtain ⟨ht, hlt⟩ := hright s t hs hbody
      obtain ⟨b, hb, hQ⟩ := ih t ht (by omega)
      exact ⟨b, by rw [run_of_right hbody, hb], hQ⟩

end Loop
