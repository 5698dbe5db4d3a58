import Mathlib

/-!
# Histories of a service

A service is a state and a function that takes a call, answers it and changes the state. Serving a
list of calls one after the other gives a log of the calls with their answers, and the last state.
Properties of a log are proved with two rules: `runLog_induction` carries an invariant that ties
the state to the log behind it, and `runLog_split` goes back to the state that an entry of the log
was answered from.
-/

section Log

universe u v w

variable {σ : Type u} {χ : Type v} {α : Type w} (step : σ → χ → α × σ)

/-- **Serve calls** from a state: the log, and the state afterwards. -/
def runLog (s₀ : σ) (calls : List χ) : List (χ × α) × σ :=
  calls.foldl (fun (log, s) call => (log ++ [(call, (step s call).1)], (step s call).2)) ([], s₀)

variable {step} {s₀ : σ}

@[simp] theorem runLog_nil : runLog step s₀ [] = ([], s₀) := rfl

/-- The last call is answered from the state that the others left. -/
theorem runLog_append (calls : List χ) (call : χ) :
    runLog step s₀ (calls ++ [call]) =
      ((runLog step s₀ calls).1 ++ [(call, (step (runLog step s₀ calls).2 call).1)],
        (step (runLog step s₀ calls).2 call).2) := by
  simp [runLog, List.foldl_append]

/-- A log is a log of its calls. -/
@[simp] theorem map_fst_runLog (calls : List χ) :
    (runLog step s₀ calls).1.map Prod.fst = calls := by
  induction calls using List.reverseRecOn with
  | nil => rfl
  | append_singleton calls call ih =>
    rw [runLog_append, List.map_append, ih]
    rfl

/-- **What every step keeps holds of every log** and the state it ends in. -/
theorem runLog_induction {I : List (χ × α) → σ → Prop} (h₀ : I [] s₀)
    (hstep : ∀ log s call, I log s → I (log ++ [(call, (step s call).1)]) (step s call).2)
    (calls : List χ) : I (runLog step s₀ calls).1 (runLog step s₀ calls).2 := by
  induction calls using List.reverseRecOn with
  | nil => exact h₀
  | append_singleton calls call ih =>
    rw [runLog_append]
    exact hstep _ _ call ih

/-- **Where an entry of a log comes from**: the calls before it left the state that it was answered
from. -/
theorem runLog_split {calls : List χ} {pre rest : List (χ × α)} {entry : χ × α}
    (h : (runLog step s₀ calls).1 = pre ++ entry :: rest) :
    (runLog step s₀ (pre.map Prod.fst)).1 = pre ∧
      entry.2 = (step (runLog step s₀ (pre.map Prod.fst)).2 entry.1).1 := by
  induction calls using List.reverseRecOn generalizing rest with
  | nil => simp at h
  | append_singleton calls call ih =>
    rw [runLog_append] at h
    rcases List.eq_nil_or_concat rest with rfl | ⟨rest', last, rfl⟩
    · -- the entry is the last one
      obtain ⟨rfl, hlast⟩ := List.append_inj' h rfl
      obtain rfl := (List.cons.inj hlast).1
      rw [map_fst_runLog]
      exact ⟨rfl, rfl⟩
    · rw [List.concat_eq_append, ← List.cons_append, ← List.append_assoc] at h
      exact ih (List.append_inj' h rfl).1

end Log
