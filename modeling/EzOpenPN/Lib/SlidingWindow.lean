import Mathlib

/-!
# A sliding window over a list of times

Whoever limits how often something may happen keeps the times at which it did, and forgets those that
are older than the width of a window. `SlidingWindow.recent` is the list that is kept, by its definition
and not by how it is kept: **forgetting old times along the way does not matter**
(`SlidingWindow.recent_recent`).

A limit that is checked at the times themselves holds for every window, wherever it begins
(`SlidingWindow.Bounded.countP_le`), since the latest time in a window sees all the others in it. What
answers the times, each before the next of them, exceeds it by one at most
(`SlidingWindow.countP_delayed`).
-/

namespace SlidingWindow

variable {τ : Type} [AddCommGroup τ] [LinearOrder τ]

/-- **The times that are not older than the window**, at a given time. -/
def recent (width : τ) (times : List τ) (now : τ) : List τ :=
  times.filter fun time => now - width < time

variable {width now before : τ} {times : List τ} {limit : ℕ}

/-- The times of a window `(now - width, now]`, if none of them lies in the future. -/
theorem recent_eq_filter (h : ∀ time ∈ times, time ≤ now) :
    recent width times now = times.filter fun time => now - width < time ∧ time ≤ now := by
  refine List.filter_congr fun time htime => ?_
  simp [h time htime]

variable [IsOrderedAddMonoid τ]

/-- **What was forgotten earlier would be forgotten now.** -/
theorem recent_recent (h : before ≤ now) :
    recent width (recent width times before) now = recent width times now := by
  rw [recent, recent, recent, List.filter_filter]
  refine List.filter_congr fun time _ => ?_
  have himp : now - width < time → before - width < time := (sub_le_sub_right h width).trans_lt
  simpa using himp

/-- A new time is in its own window. -/
theorem recent_concat (hwidth : 0 < width) :
    recent width (times ++ [now]) now = recent width times now ++ [now] := by
  rw [recent, List.filter_append, List.filter_cons_of_pos (by simpa using hwidth), List.filter_nil]
  rfl

/-- **A limit that held whenever a time was added.** -/
def Bounded (width : τ) (limit : ℕ) (times : List τ) : Prop :=
  ∀ earlier now, earlier ++ [now] <+: times →
    (recent width (earlier ++ [now]) now).length ≤ limit

omit [IsOrderedAddMonoid τ] in
theorem Bounded.nil : Bounded width limit [] := by
  intro earlier now h
  simp at h

omit [IsOrderedAddMonoid τ] in
theorem Bounded.earlier {times' : List τ} (h : Bounded width limit times) (hp : times' <+: times) :
    Bounded width limit times' := fun earlier now hnow => h earlier now (hnow.trans hp)

omit [IsOrderedAddMonoid τ] in
theorem Bounded.concat (h : Bounded width limit times)
    (hnow : (recent width (times ++ [now]) now).length ≤ limit) :
    Bounded width limit (times ++ [now]) := by
  intro earlier time hpre
  rcases List.prefix_concat_iff.mp hpre with heq | hpre
  · obtain ⟨rfl, hlast⟩ := List.append_inj' heq rfl
    obtain rfl := List.singleton_inj.mp hlast
    exact hnow
  · exact h earlier time hpre

omit [IsOrderedAddMonoid τ] in
/-- **The limit holds in every window**, of whatever kind: no two of its times are as far apart as its
width. -/
theorem Bounded.countP_le {P : τ → Prop} [DecidablePred P] (h : Bounded width limit times)
    (hsorted : times.Pairwise (· ≤ ·)) (hP : ∀ a b, P a → P b → b - width < a) :
    times.countP (fun time => P time) ≤ limit := by
  induction times using List.reverseRecOn with
  | nil => exact Nat.zero_le _
  | append_singleton earlier last ih =>
    have hearlier := (List.pairwise_append.mp hsorted).1
    by_cases hlast : P last
    · -- the last one sees all the others
      calc (earlier ++ [last]).countP (fun time => P time)
          ≤ (earlier ++ [last]).countP fun time => last - width < time := by
            refine List.countP_mono_left fun time _ htime => ?_
            exact decide_eq_true (hP time last (of_decide_eq_true htime) hlast)
        _ = (recent width (earlier ++ [last]) last).length := List.countP_eq_length_filter
        _ ≤ limit := h earlier last (List.prefix_refl _)
    · rw [List.countP_append, List.countP_singleton, if_neg (by simpa using hlast), Nat.add_zero]
      exact ih (h.earlier (List.prefix_append _ _)) hearlier

omit [AddCommGroup τ] [IsOrderedAddMonoid τ] in
/-- **A delay costs one at most**: where each time is answered before the next one comes, a window holds
at most one more of the answers than of the times. -/
theorem countP_delayed {P : τ → Prop} [DecidablePred P] {answered : List (τ × τ)}
    (hconvex : ∀ a b c, a ≤ b → b ≤ c → P a → P c → P b)
    (hdelay : ∀ x ∈ answered, x.1 ≤ x.2) (hturn : answered.Pairwise fun x y => x.2 ≤ y.1) :
    (answered.map Prod.snd).countP (fun time => P time) ≤
      (answered.map Prod.fst).countP (fun time => P time) + 1 := by
  induction answered with
  | nil => exact Nat.zero_le _
  | cons x rest ih =>
    obtain ⟨hnext, hturn⟩ := List.pairwise_cons.mp hturn
    have hrest := ih (fun y hy => hdelay y (by simp [hy])) hturn
    rw [List.map_cons, List.map_cons, List.countP_cons, List.countP_cons]
    by_cases hx : P x.2
    · -- the times of all later answers in the window are between this answer and theirs
      have hlater : (rest.map Prod.snd).countP (fun time => P time) ≤
          (rest.map Prod.fst).countP fun time => P time := by
        rw [List.countP_map, List.countP_map]
        refine List.countP_mono_left fun y hy hP => ?_
        simp only [Function.comp_apply, decide_eq_true_eq] at hP ⊢
        exact hconvex _ _ _ (hnext y hy) (hdelay y (by simp [hy])) hx hP
      simp only [hx, decide_true, if_true]
      omega
    · simp only [hx, decide_false, Bool.false_eq_true, if_false]
      omega

end SlidingWindow
