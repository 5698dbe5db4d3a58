import EzOpenPN.Supervisor.CrashHistory
import EzOpenPN.Lib.SlidingWindow

/-!
# The crash budget

`Run` starts a child again when it crashed, as long as that does not happen too often. It keeps a
list of the times of the crashes and prunes it whenever it adds one; two branches of its loop share
that list, the exit of a child that was held and the exit of a new child while a restart waits for it to
be stable.

What `Run` does is compared with what happened to the children, which is recorded on the side
(`EzOpenPN.Supervisor.History`). **The list is what is left of the crashes in the window**, `Run` gives up
at the first crash that is one too many, and no window holds more starts than allowed, by the
times of their crashes; by their own times there may be one more, since a start comes later than its
crash (`EzOpenPN.Supervisor.crash_budget`). A crash is the exit of a child to which no stop was sent. That a
child has ended is not enough: `Run` may see a restart request first, and then its exit is the one
that `stopChild` waits for.
-/

namespace EzOpenPN.Supervisor

open SlidingWindow

/-- The times of the crashes. -/
def History.times (h : History) : List ℤ := h.crashes.map Prod.snd

/-! ### The invariant -/

namespace Pc

/-- An exit was received and its time was not recorded yet. -/
def unrecorded : Pc → Bool
  | .crashStore | .recordFailure | .unstableStore _ | .answerUnstable _ => true
  | _ => false

/-- `Run` ends because of too many failures. -/
def exhausted : Pc → Bool
  | .leave (some .repeatedFailures) | .returned (some .repeatedFailures) => true
  | _ => false

/-- `Run` ends. -/
def ends : Pc → Bool
  | .leave _ | .returned _ => true
  | _ => false

/-- An error of a stop is not one of too many failures. -/
def stoppedWell : Pc → Bool
  | .stopped _ (some .repeatedFailures) => false
  | _ => true

/-- A child is started after a crash. -/
def replaces : Pc → Bool
  | .replace => true
  | _ => false

/-- **The next statement has nothing to do with crashes**, or has as much to do with them as this
one. -/
def passesTo (pc next : Pc) : Bool :=
  next.unrecorded == pc.unrecorded && !next.replaces && (!(pc.replaces || pc.ends) || next.ends) &&
    next.exhausted == pc.exhausted && next.stoppedWell

end Pc

/-- The failures that are kept after some crashes. -/
def keptFailures (policy : ProcessPolicy) (crashes : List ℤ) : List ℤ :=
  match crashes.getLast? with
  | none => []
  | some now => recent policy.failureWindow crashes now

/-- **The budget**, at every point of a run. -/
structure Budget (policy : ProcessPolicy) (s : State) (h : History) : Prop where
  exits : h.exits = h.crashes.length + if s.pc.unrecorded then 1 else 0
  failures : s.failures = keptFailures policy h.times
  starts : h.times = h.starts.map Prod.fst ∧ s.pc.replaces = false ∨
    (∃ now, h.times = h.starts.map Prod.fst ++ [now]) ∧ (s.pc.replaces = true ∨ s.pc.ends = true)
  within : s.pc.exhausted = false →
    Bounded policy.failureWindow policy.maxFailures.toNat h.times
  exceeded : s.pc.exhausted = true → ∃ now, h.times = h.starts.map Prod.fst ++ [now] ∧
    Bounded policy.failureWindow policy.maxFailures.toNat (h.starts.map Prod.fst) ∧
    policy.maxFailures.toNat < (recent policy.failureWindow h.times now).length
  stopped : s.pc.stoppedWell = true

variable {policy : ProcessPolicy} {s s' : State} {h h' : History} {pc next : Pc}

theorem budget_initial : Budget policy {} {} where
  exits := rfl
  failures := rfl
  starts := .inl ⟨rfl, rfl⟩
  within _ := .nil
  exceeded := nofun
  stopped := rfl

/-- **A statement that has nothing to do with crashes** keeps the budget. -/
theorem Budget.move (hb : Budget policy s h) (hpc : s.pc = pc) (hnext : s'.pc = next)
    (hfailures : s'.failures = s.failures) (hpass : pc.passesTo next = true) :
    Budget policy s' h := by
  subst hpc hnext
  simp only [Pc.passesTo, Bool.and_eq_true, beq_iff_eq, Bool.not_eq_true', Bool.or_eq_true,
    Bool.or_eq_false_iff] at hpass
  obtain ⟨⟨⟨⟨hunrecorded, hreplaces⟩, hends⟩, hexhausted⟩, hstopped⟩ := hpass
  refine ⟨hunrecorded ▸ hb.exits, hfailures.trans hb.failures, ?_, hexhausted ▸ hb.within,
    hexhausted ▸ hb.exceeded, hstopped⟩
  -- a crash without its start is either about to be replaced, or the last one
  rcases hb.starts with ⟨heq, -⟩ | ⟨hone, hpc⟩
  · exact .inl ⟨heq, hreplaces⟩
  · refine .inr ⟨hone, .inr (hends.resolve_left fun h => ?_)⟩
    rw [h.1, h.2] at hpc
    simp at hpc

theorem Budget.answer {r : ℕ} {reply : Answer} (hb : Budget policy s h)
    (hs : s.answer r reply next = some s') (hpc : s.pc = pc) (hpass : pc.passesTo next = true) :
    Budget policy s' h := by
  obtain ⟨_, hs⟩ := Option.ite_none_right_eq_some.mp hs
  obtain rfl := Option.some.inj hs
  exact hb.move hpc rfl rfl hpass

theorem Budget.answerShutdown {q : ℕ} {reply : Answer} (hb : Budget policy s h)
    (hs : s.answerShutdown q reply next = some s') (hpc : s.pc = pc)
    (hpass : pc.passesTo next = true) : Budget policy s' h := by
  obtain ⟨_, hs⟩ := Option.ite_none_right_eq_some.mp hs
  obtain rfl := Option.some.inj hs
  exact hb.move hpc rfl rfl hpass

/-- The error of a stop is the one `Run` leaves with. -/
theorem Budget.passes_leave {why : StopFor} {err : Answer} (hb : Budget policy s h)
    (hpc : s.pc = .stopped why err) : (Pc.stopped why err).passesTo (.leave err) = true := by
  have hstopped := hb.stopped
  rw [hpc] at hstopped
  rcases err with _ | (_ | _ | _ | _ | _)
  all_goals first | rfl | cases hstopped

/-- The error `Run` leaves with is the one it returns. -/
theorem passes_returned (err : Answer) : (Pc.leave err).passesTo (.returned err) = true := by
  rcases err with _ | (_ | _ | _ | _ | _) <;> rfl

/-- **The exit of a child that was not stopped** is received. -/
theorem Budget.exit (hb : Budget policy s h) (hpc : s.pc = pc)
    (hquiet : (pc.unrecorded || pc.replaces || pc.ends) = false) (hunrecorded : next.unrecorded = true)
    (hlate : (next.replaces || next.exhausted) = false) (hstopped : next.stoppedWell = true) :
    Budget policy (s.receiveExit next) { h with exits := h.exits + 1 } := by
  subst hpc
  simp only [Bool.or_eq_false_iff] at hquiet hlate
  obtain ⟨⟨hrecorded, hreplaces⟩, hends⟩ := hquiet
  -- `Run` is exhausted only once it ends
  have hgoes : s.pc.exhausted = false := by
    unfold Pc.exhausted
    split
    · rename_i heq
      rw [heq] at hends
      cases hends
    · rename_i heq
      rw [heq] at hends
      cases hends
    · rfl
  refine ⟨?_, hb.failures, ?_, fun _ => hb.within hgoes, ?_, hstopped⟩
  · have hexits := hb.exits
    rw [hrecorded] at hexits
    change h.exits + 1 = h.crashes.length + if next.unrecorded then 1 else 0
    rw [hexits, hunrecorded]
    rfl
  · rcases hb.starts with ⟨heq, -⟩ | ⟨-, hreplace | hend⟩
    · exact .inl ⟨heq, hlate.1⟩
    · rw [hreplaces] at hreplace
      cases hreplace
    · rw [hends] at hend
      cases hend
  · intro hexhausted
    change next.exhausted = true at hexhausted
    rw [hlate.2] at hexhausted
    cases hexhausted

/-! ### A crash is recorded -/

/-- The failures in the window, and the one that is new, are the crashes in it. -/
theorem recordFailure_eq {crashes : List ℤ} {now : ℤ} (hwindow : 0 < policy.failureWindow)
    (hsorted : (crashes ++ [now]).Pairwise (· ≤ ·)) :
    recordFailure policy (keptFailures policy crashes) now =
      (keptFailures policy (crashes ++ [now]),
        decide (policy.maxFailures < (keptFailures policy (crashes ++ [now])).length)) := by
  have hkept : (keptFailures policy crashes).filter (fun failure => now - policy.failureWindow < failure) =
      recent policy.failureWindow crashes now := by
    rw [keptFailures]
    cases hlast : crashes.getLast? with
    | none =>
      rw [List.getLast?_eq_none_iff.mp hlast]
      rfl
    | some before =>
      have hle : before ≤ now :=
        (List.pairwise_append.mp hsorted).2.2 before (List.mem_of_getLast? hlast) now (by simp)
      exact recent_recent hle
  have hnew : keptFailures policy (crashes ++ [now]) =
      recent policy.failureWindow crashes now ++ [now] := by
    rw [keptFailures, List.getLast?_concat]
    exact recent_concat hwindow
  rw [recordFailure, hnew, hkept]

/-- **The time of a crash is recorded**: `Run` goes on if and only if the budget allows it. -/
theorem Budget.record {now : ℤ} (hb : Budget policy s h) (hpc : s.pc = .recordFailure)
    (hwindow : 0 < policy.failureWindow) (hmax : 0 ≤ policy.maxFailures)
    (hsorted : (h.times ++ [now]).Pairwise (· ≤ ·)) :
    Budget policy
      { s with
        pc := if (recordFailure policy s.failures now).2 then .leave (some .repeatedFailures)
          else .replace
        failures := (recordFailure policy s.failures now).1 }
      { h with crashes := h.crashes ++ [(s.child, now)] } := by
  rw [hb.failures, recordFailure_eq hwindow hsorted]
  dsimp only
  have htimes : History.times { h with crashes := h.crashes ++ [(s.child, now)] } = h.times ++ [now] := by
    simp [History.times]
  have hlength : keptFailures policy (h.times ++ [now]) =
      recent policy.failureWindow (h.times ++ [now]) now := by
    rw [keptFailures, List.getLast?_concat]
  have hearlier := hb.within (by rw [hpc]; rfl)
  have hstarts : h.times = h.starts.map Prod.fst := by
    rcases hb.starts with ⟨heq, -⟩ | ⟨-, hreplace | hends⟩
    · exact heq
    · rw [hpc] at hreplace
      cases hreplace
    · rw [hpc] at hends
      cases hends
  have hexits : h.exits = h.crashes.length + 1 := by
    have := hb.exits
    rwa [hpc] at this
  -- `Run` leaves with the crash that is one too many, which has no start then
  by_cases hexceeded : policy.maxFailures < (keptFailures policy (h.times ++ [now])).length
  · simp only [hexceeded, decide_true, if_true]
    refine ⟨?_, by rw [htimes], .inr ⟨⟨now, by rw [htimes, hstarts]⟩, .inr rfl⟩, nofun,
      fun _ => ?_, rfl⟩
    · simpa [Pc.unrecorded] using hexits
    · refine ⟨now, by rw [htimes, hstarts], hstarts ▸ hearlier, ?_⟩
      rw [htimes, ← hlength]
      exact (Int.toNat_lt hmax).mpr hexceeded
  · simp only [hexceeded, decide_false, Bool.false_eq_true, if_false]
    refine ⟨?_, by rw [htimes], .inr ⟨⟨now, by rw [htimes, hstarts]⟩, .inl rfl⟩, fun _ => ?_, nofun,
      rfl⟩
    · simpa [Pc.unrecorded] using hexits
    · rw [htimes]
      refine hearlier.concat ?_
      rw [← hlength]
      omega

/-- A child is started after a crash. -/
theorem Budget.replace {time : ℤ} (hb : Budget policy s h) (hpc : s.pc = .replace) :
    Budget policy (s.begin .markHealthy)
      { h with
        starts := h.starts ++ (h.crashes.getLast?.map fun crash => (crash.2, time)).toList } where
  exits := by
    have := hb.exits
    rwa [hpc] at this
  failures := hb.failures
  starts := by
    rcases hb.starts with ⟨-, hne⟩ | ⟨⟨now, heq⟩, -⟩
    · rw [hpc] at hne
      cases hne
    · obtain ⟨crash, hlast, rfl⟩ : ∃ crash, h.crashes.getLast? = some crash ∧ crash.2 = now := by
        have hnow : h.times.getLast? = some now := by rw [heq, List.getLast?_concat]
        rw [History.times, List.getLast?_map] at hnow
        exact Option.map_eq_some_iff.mp hnow
      refine .inl ⟨?_, rfl⟩
      change h.times = _
      rw [heq, hlast]
      simp
  within _ := hb.within (by rw [hpc]; rfl)
  exceeded := nofun
  stopped := rfl

/-! ### Every step -/

/-- **Every statement of `Run` keeps the budget.** -/
theorem Budget.runStep {choice : Choice} {time : ℤ} (hb : Budget policy s h)
    (hwindow : 0 < policy.failureWindow) (hmax : 0 ≤ policy.maxFailures)
    (hs : runStep policy s choice = some s')
    (hsorted : (h.observe s time (.run choice)).times.Pairwise (· ≤ ·)) :
    Budget policy s' (h.observe s time (.run choice)) := by
  unfold Supervisor.runStep at hs
  split at hs
  all_goals rename_i hpc
  all_goals simp only [History.observe, hpc] at hsorted ⊢
  · obtain rfl := Option.some.inj hs
    exact hb.move hpc rfl rfl rfl
  · obtain rfl := Option.some.inj hs
    exact hb.move hpc rfl rfl rfl
  · obtain rfl := Option.some.inj hs
    exact hb.move hpc rfl rfl rfl
  -- The `select` of the loop.
  · obtain ⟨_, hs⟩ := Option.ite_none_right_eq_some.mp hs
    obtain rfl := Option.some.inj hs
    exact hb.move hpc rfl rfl rfl
  · obtain ⟨_, hs⟩ := Option.ite_none_right_eq_some.mp hs
    obtain rfl := Option.some.inj hs
    exact hb.move hpc rfl rfl rfl
  · obtain ⟨_, hs⟩ := Option.ite_none_right_eq_some.mp hs
    obtain rfl := Option.some.inj hs
    exact hb.move hpc rfl rfl rfl
  · obtain ⟨_, hs⟩ := Option.ite_none_right_eq_some.mp hs
    obtain rfl := Option.some.inj hs
    exact hb.exit hpc rfl rfl rfl rfl
  -- A child that ended by itself.
  · obtain rfl := Option.some.inj hs
    exact hb.move hpc rfl rfl rfl
  · obtain rfl := Option.some.inj hs
    exact hb.record hpc hwindow hmax (by simpa [History.times] using hsorted)
  · obtain rfl := Option.some.inj hs
    exact hb.replace hpc
  · obtain rfl := Option.some.inj hs
    exact hb.move hpc rfl rfl rfl
  -- The check of a restart request.
  · obtain rfl := Option.some.inj hs
    split
    · exact hb.move hpc rfl rfl rfl
    · exact hb.move hpc rfl rfl rfl
  · exact hb.answer hs hpc rfl
  -- `stopChild`.
  · obtain rfl := Option.some.inj hs
    exact hb.move hpc rfl rfl rfl
  · obtain rfl := Option.some.inj hs
    exact hb.move hpc rfl rfl rfl
  · obtain ⟨_, hs⟩ := Option.ite_none_right_eq_some.mp hs
    obtain rfl := Option.some.inj hs
    exact hb.move hpc rfl rfl rfl
  · obtain rfl := Option.some.inj hs
    exact hb.move hpc rfl rfl rfl
  · obtain rfl := Option.some.inj hs
    exact hb.move hpc rfl rfl rfl
  · obtain ⟨_, hs⟩ := Option.ite_none_right_eq_some.mp hs
    obtain rfl := Option.some.inj hs
    exact hb.move hpc rfl rfl rfl
  · obtain rfl := Option.some.inj hs
    exact hb.move hpc rfl rfl rfl
  -- After `stopChild`.
  · obtain rfl := Option.some.inj hs
    exact hb.move hpc rfl rfl (hb.passes_leave hpc)
  · exact hb.answerShutdown hs hpc (hb.passes_leave hpc)
  · obtain rfl := Option.some.inj hs
    exact hb.move hpc rfl rfl rfl
  · exact hb.answer hs hpc (hb.passes_leave hpc)
  -- The new child of a restart.
  · obtain rfl := Option.some.inj hs
    exact hb.move hpc rfl rfl rfl
  · obtain rfl := Option.some.inj hs
    exact hb.move hpc rfl rfl rfl
  · exact hb.answer hs hpc rfl
  · obtain rfl := Option.some.inj hs
    exact hb.move hpc rfl rfl rfl
  · obtain ⟨_, hs⟩ := Option.ite_none_right_eq_some.mp hs
    obtain rfl := Option.some.inj hs
    exact hb.exit hpc rfl rfl rfl rfl
  · obtain ⟨_, hs⟩ := Option.ite_none_right_eq_some.mp hs
    obtain rfl := Option.some.inj hs
    exact hb.move hpc rfl rfl rfl
  · obtain rfl := Option.some.inj hs
    exact hb.move hpc rfl rfl rfl
  · exact hb.answer hs hpc rfl
  · obtain rfl := Option.some.inj hs
    exact hb.move hpc rfl rfl rfl
  · exact hb.answer hs hpc rfl
  · exact hb.answer hs hpc rfl
  -- The way out.
  · obtain rfl := Option.some.inj hs
    exact hb.move hpc rfl rfl (passes_returned _)
  · cases hs

/-- What happens around `Run` has nothing to do with its budget. -/
theorem Budget.outsideStep {event : Outside} {time : ℤ} (hb : Budget policy s h)
    (hs : Supervisor.outsideStep s event = some s') :
    Budget policy s' (h.observe s time (.outside event)) := by
  have hframe : s'.pc = s.pc ∧ s'.failures = s.failures := by
    cases event with
    | childExit c | report c | offer r | offerShutdown q =>
      obtain ⟨_, hs⟩ := Option.ite_none_right_eq_some.mp hs
      obtain rfl := Option.some.inj hs
      exact ⟨rfl, rfl⟩
    | withdraw r | cancel r | take r | withdrawShutdown q | takeShutdown q | cancelContext =>
      obtain rfl := Option.some.inj hs
      exact ⟨rfl, rfl⟩
  obtain ⟨hpc, hfailures⟩ := hframe
  have hb' : Budget policy s' h := ⟨hpc ▸ hb.exits, hfailures.trans hb.failures, hpc ▸ hb.starts,
    hpc ▸ hb.within, hpc ▸ hb.exceeded, hpc ▸ hb.stopped⟩
  rcases outsideStep_children hs with ⟨c, -, rfl, -⟩ | ⟨-, -, hobserve⟩
  · -- a child has ended, which nobody has noticed yet
    simp only [History.observe]
    split
    · exact hb'
    · exact ⟨hb'.exits, hb'.failures, hb'.starts, hb'.within, hb'.exceeded, hb'.stopped⟩
  · rw [hobserve]
    exact hb'

/-- **Everything that is known of a run**, at a time. -/
structure Known (policy : ProcessPolicy) (now : ℤ) (s : State) (h : History) : Prop where
  inv : Inv s
  budget : Budget policy s h
  accounted : Accounted s h
  dated : Dated now s h

/-- **It is kept along every run** on a monotone clock. -/
theorem Known.run {events : List (ℤ × Act)} {w w' : State × History} {now : ℤ}
    (hk : Known policy now w.1 w.2) (hwindow : 0 < policy.failureWindow)
    (hmax : 0 ≤ policy.maxFailures) (hrun : runWith policy events w = some w')
    (hclock : OnClock events) (hstart : ∀ event ∈ events, now ≤ event.1) :
    ∃ last, Known policy last w'.1 w'.2 := by
  induction events generalizing w now with
  | nil =>
    obtain rfl := Option.some.inj hrun
    exact ⟨now, hk⟩
  | cons event events ih =>
    obtain ⟨time, act⟩ := event
    obtain ⟨s, hs, hrun⟩ := Option.bind_eq_some_iff.mp hrun
    obtain ⟨hsorted, htells⟩ := hclock
    obtain ⟨hlater, hsorted⟩ := List.pairwise_cons.mp hsorted
    have hle : now ≤ time := hstart (time, act) (by simp)
    have hdated := (hk.dated.later hle).step hk.accounted hk.inv hs (htells (time, act) (by simp))
    have hbudget : Budget policy s (w.2.observe w.1 time act) := by
      cases act with
      | run choice => exact hk.budget.runStep hwindow hmax hs hdated.sorted
      | outside event => exact hk.budget.outsideStep hs
    refine ih ⟨hk.inv.step hs, hbudget, hk.accounted.step hk.inv hs, hdated⟩ hrun
      ⟨hsorted, fun event hevent => htells event (by simp [hevent])⟩ fun event hevent => ?_
    exact hlater event.1 (List.mem_map_of_mem hevent)

/-! ### What the budget says -/

/-- The crashes in the window that ends at a time. -/
def crowd (policy : ProcessPolicy) (crashes : List ℤ) (now : ℤ) : ℕ :=
  crashes.countP fun time => now - policy.failureWindow < time ∧ time ≤ now

/-- On a monotone clock these are the recent ones. -/
theorem length_recent {crashes : List ℤ} {now : ℤ} (hsorted : crashes.Pairwise (· ≤ ·))
    (hlast : crashes.getLast? = some now) :
    recent policy.failureWindow crashes now =
        crashes.filter (fun time => now - policy.failureWindow < time ∧ time ≤ now) ∧
      (recent policy.failureWindow crashes now).length = crowd policy crashes now := by
  have hpast : ∀ time ∈ crashes, time ≤ now := by
    obtain ⟨earlier, rfl⟩ := List.getLast?_eq_some_iff.mp hlast
    intro time htime
    rcases List.mem_append.mp htime with htime | htime
    · exact (List.pairwise_append.mp hsorted).2.2 time htime now (by simp)
    · exact (List.mem_singleton.mp htime).le
  have hfilter : recent policy.failureWindow crashes now = crashes.filter
      (fun time => now - policy.failureWindow < time ∧ time ≤ now) := recent_eq_filter hpast
  exact ⟨hfilter, by rw [hfilter, crowd, List.countP_eq_length_filter]⟩

/-- **What the budget promises** of a run. -/
structure WithinBudget (policy : ProcessPolicy) (s : State) (h : History) : Prop where
  /-- The list of failures is the list of the crashes so far in the window that ends with the last one. -/
  failures : ∀ now, h.times.getLast? = some now →
    s.failures = h.times.filter fun time => now - policy.failureWindow < time ∧ time ≤ now
  /-- A window, closed on either side, holds no more starts than allowed, by the times of their crashes. -/
  starts : ∀ start,
    (h.starts.map Prod.fst).countP (fun time => start < time ∧ time ≤ start + policy.failureWindow) ≤
        policy.maxFailures ∧
      (h.starts.map Prod.fst).countP
        (fun time => start ≤ time ∧ time < start + policy.failureWindow) ≤ policy.maxFailures
  /-- By their own times there may be one more. -/
  delayed : ∀ start,
    (h.starts.map Prod.snd).countP (fun time => start < time ∧ time ≤ start + policy.failureWindow) ≤
        policy.maxFailures + 1 ∧
      (h.starts.map Prod.snd).countP
        (fun time => start ≤ time ∧ time < start + policy.failureWindow) ≤ policy.maxFailures + 1
  /-- No crash before the last one was one too many. -/
  earlier : ∀ earlier now, earlier ++ [now] <+: h.times → earlier ++ [now] ≠ h.times →
    crowd policy (earlier ++ [now]) now ≤ policy.maxFailures
  /-- `Run` ends with `ErrRepeatedFailures` if and only if the last one is. -/
  exceeded : s.pc = .leave (some .repeatedFailures) ∨ s.pc = .returned (some .repeatedFailures) ↔
    ∃ now, h.times.getLast? = some now ∧ policy.maxFailures < crowd policy h.times now
  /-- Every exit that `Run` receives without having sent a stop is recorded, before or after a restart was
  called stable. -/
  exits : h.exits = h.crashes.length + if s.pc.unrecorded then 1 else 0
  /-- A crash is the end of a child to which no stop was sent, and is recorded once it is over. -/
  crashes : ∀ crash ∈ h.crashes,
    ¬s.Stopped crash.1 ∧ ∃ time ≤ crash.2, (crash.1, time) ∈ h.deaths
  /-- A child crashes once. -/
  once : (h.crashes.map Prod.fst).Nodup
  /-- A child that ended by itself has crashed, or a stop was sent to it, or it is the latest. -/
  deaths : ∀ d ∈ h.deaths, d.1 ∈ h.crashes.map Prod.fst ∨ s.Stopped d.1 ∨ d.1 = s.child

/-- What a bounded list says of the windows that are closed on either side. -/
theorem window_le {times : List ℤ} (hmax : 0 ≤ policy.maxFailures)
    (hbounded : Bounded policy.failureWindow policy.maxFailures.toNat times)
    (hsorted : times.Pairwise (· ≤ ·)) (start : ℤ) :
    times.countP (fun time => start < time ∧ time ≤ start + policy.failureWindow) ≤
        policy.maxFailures ∧
      times.countP (fun time => start ≤ time ∧ time < start + policy.failureWindow) ≤
        policy.maxFailures := by
  constructor
  · have hcount := hbounded.countP_le hsorted
      (P := fun time => start < time ∧ time ≤ start + policy.failureWindow)
      fun a b ha hb => by omega
    omega
  · have hcount := hbounded.countP_le hsorted
      (P := fun time => start ≤ time ∧ time < start + policy.failureWindow)
      fun a b ha hb => by omega
    omega

/-- **The crash budget.** Every run of `Run` and its surroundings on a monotone clock, with any restart
requests in between, is within the budget. -/
theorem crash_budget (policy : ProcessPolicy) (events : List (ℤ × Act)) (s : State) (h : History)
    (hwindow : 0 < policy.failureWindow) (hmax : 0 ≤ policy.maxFailures) (hclock : OnClock events)
    (hrun : runWith policy events ({}, {}) = some (s, h)) : WithinBudget policy s h := by
  -- the run begins at a time that is not after any of its steps
  obtain ⟨now, hstart⟩ : ∃ now, ∀ event ∈ events, now ≤ event.1 := by
    cases events with
    | nil => exact ⟨0, by simp⟩
    | cons first rest =>
      refine ⟨first.1, fun event hevent => ?_⟩
      rcases List.mem_cons.mp hevent with rfl | hevent
      · exact le_rfl
      · exact (List.pairwise_cons.mp hclock.1).1 _ (List.mem_map_of_mem hevent)
  have hknown : Known policy now {} {} :=
    ⟨inv_initial, budget_initial, accounted_initial, dated_initial⟩
  obtain ⟨last, hend⟩ := hknown.run (w := ({}, {})) hwindow hmax hrun hclock hstart
  obtain ⟨-, hb, ha, hd⟩ : Known policy last s h := hend
  have hsorted : h.times.Pairwise (· ≤ ·) := hd.sorted
  have hexhausted : s.pc.exhausted = true ↔
      s.pc = .leave (some .repeatedFailures) ∨ s.pc = .returned (some .repeatedFailures) := by
    unfold Pc.exhausted
    split <;> simp_all
  have hstarts : h.starts.map Prod.fst <+: h.times := by
    rcases hb.starts with ⟨heq, -⟩ | ⟨⟨now, heq⟩, -⟩
    · exact heq ▸ List.prefix_refl _
    · exact heq ▸ List.prefix_append _ _
  -- what is bounded at each of its times: the starts, and all crashes before the last
  have hbounded : Bounded policy.failureWindow policy.maxFailures.toNat (h.starts.map Prod.fst) := by
    cases hpc : s.pc.exhausted with
    | false => exact (hb.within hpc).earlier hstarts
    | true =>
      obtain ⟨now, -, hbounded, -⟩ := hb.exceeded hpc
      exact hbounded
  have hearlier : ∀ earlier now, earlier ++ [now] <+: h.times → earlier ++ [now] ≠ h.times →
      (recent policy.failureWindow (earlier ++ [now]) now).length ≤ policy.maxFailures.toNat := by
    intro earlier now hpre hne
    cases hpc : s.pc.exhausted with
    | false => exact hb.within hpc earlier now hpre
    | true =>
      obtain ⟨last, heq, hbounded, -⟩ := hb.exceeded hpc
      rw [heq] at hpre hne
      exact hbounded earlier now ((List.prefix_concat_iff.mp hpre).resolve_left hne)
  have hwindows := window_le hmax hbounded (hsorted.sublist hstarts.sublist)
  refine ⟨fun now hlast => ?_, hwindows, fun start => ⟨?_, ?_⟩, fun earlier now hpre hne => ?_, ?_,
    hb.exits, fun crash hcrash => ?_, ha.once, fun d hdeath => ?_⟩
  · rw [hb.failures, keptFailures, hlast]
    exact (length_recent hsorted hlast).1
  -- a start comes before the next crash, so that at most one is late for its window
  · have hdelayed := countP_delayed
      (P := fun time => start < time ∧ time ≤ start + policy.failureWindow)
      (fun a b c hab hbc ha hc => by omega) (fun x hx => (hd.starts x hx).1) hd.inTurn
    have hwindow := (hwindows start).1
    omega
  · have hdelayed := countP_delayed
      (P := fun time => start ≤ time ∧ time < start + policy.failureWindow)
      (fun a b c hab hbc ha hc => by omega) (fun x hx => (hd.starts x hx).1) hd.inTurn
    have hwindow := (hwindows start).2
    omega
  · have hcount := hearlier earlier now hpre hne
    rw [(length_recent (hsorted.sublist hpre.sublist) List.getLast?_concat).2] at hcount
    omega
  · rw [← hexhausted]
    constructor
    · intro hpc
      obtain ⟨now, heq, -, hlate⟩ := hb.exceeded hpc
      have hlast : h.times.getLast? = some now := by rw [heq, List.getLast?_concat]
      rw [(length_recent hsorted hlast).2] at hlate
      exact ⟨now, hlast, by omega⟩
    · rintro ⟨now, hlast, hlate⟩
      by_contra hpc
      obtain ⟨earlier, heq⟩ := List.getLast?_eq_some_iff.mp hlast
      have hwithin := hb.within (Bool.not_eq_true _ ▸ hpc) earlier now (heq ▸ List.prefix_refl _)
      rw [← heq, (length_recent hsorted hlast).2] at hwithin
      omega
  · exact ⟨(ha.crashed crash.1 (List.mem_map_of_mem hcrash)).2, (hd.crashes crash hcrash).2⟩
  -- the account of every child but the latest is settled
  · have hbegun := ha.died d hdeath
    rcases Nat.lt_or_ge (d.1 + 1) s.started with hlt | hge
    · rcases ha.earlier d.1 hlt with hstopped | hcrashed
      · exact .inr (.inl hstopped)
      · exact .inl hcrashed
    · refine .inr (.inr ?_)
      rw [State.child]
      omega

/-! ### Sample runs -/

/-- `Run` starts its first child. -/
def startUp : List (ℤ × Act) := [(0, .run .startOk), (0, .run .next)]

/-- A child ends by itself, its crash is recorded at once, and another one is started at a later time. -/
def crashAt (child : ℕ) (time later : ℤ) : List (ℤ × Act) :=
  [(time, .outside (.childExit child)), (time, .outside (.report child)), (time, .run .exit),
    (time, .run .next), (time, .run (.clock time)), (later, .run .startOk), (later, .run .next)]

/-- Two crashes, the second one while a restart waits. -/
def crashingEvents : List (ℤ × Act) :=
  startUp ++ crashAt 0 10 10 ++
    ([.outside (.offer 0), .run (.restart 0), .run .next, .run .next, .run .next,
      .outside (.childExit 1), .outside (.report 1), .run .exit, .run .next, .run .startOk,
      .outside (.childExit 2), .outside (.report 2), .run .exit, .run .next, .run .next,
      .run (.clock 40)] : List Act).map fun act => (40, act)

/-- With one crash allowed in a minute, `Run` ends at the second one. The child that was stopped is not
among the crashes. -/
theorem crash_budget_exceeded : ∃ s h, runWith ⟨60, 1⟩ crashingEvents ({}, {}) = some (s, h) ∧
    h.crashes = [(0, 10), (2, 40)] ∧ h.starts = [(10, 10)] ∧ WithinBudget ⟨60, 1⟩ s h ∧
    (s.pc = .leave (some .repeatedFailures) ∨ s.pc = .returned (some .repeatedFailures)) := by
  obtain ⟨s, h, hrun, hcrashes, hstarts⟩ : ∃ s h,
      runWith ⟨60, 1⟩ crashingEvents ({}, {}) = some (s, h) ∧ h.crashes = [(0, 10), (2, 40)] ∧
        h.starts = [(10, 10)] := ⟨_, _, rfl, rfl, rfl⟩
  have hbudget := crash_budget ⟨60, 1⟩ crashingEvents s h (by decide) (by decide) (by decide) hrun
  refine ⟨s, h, hrun, hcrashes, hstarts, hbudget, hbudget.exceeded.mpr ⟨40, ?_⟩⟩
  rw [History.times, hcrashes]
  exact ⟨rfl, by decide⟩

/-- A child ends by itself when a restart was already asked for, and five more children crash in
the five seconds after it. -/
def uncountedEvents : List (ℤ × Act) :=
  startUp ++
    ([.outside (.offer 0), .outside (.childExit 0), .outside (.report 0), .run (.restart 0),
      .run .next, .run .next, .run .next, .run .exit, .run .next, .run .startOk, .run .timer,
      .run .next, .run .next] : List Act).map (fun act => (0, act)) ++
    crashAt 1 1 1 ++ crashAt 2 2 2 ++ crashAt 3 3 3 ++ crashAt 4 4 4 ++ crashAt 5 5 5

/-- The start after the first crash takes a minute, and five more crashes follow it. -/
def delayedEvents : List (ℤ × Act) :=
  startUp ++ crashAt 0 0 59 ++ crashAt 1 60 60 ++ crashAt 2 61 61 ++ crashAt 3 62 62 ++
    crashAt 4 63 63 ++ crashAt 5 64 64

/-- **An end that nobody counts, and a start too many.** With five crashes allowed in a minute, six
children end by themselves within five seconds, and `Run` has five of them in its list and goes on: the
exit of the first one was received by the `stopChild` of a restart. And six children are started after
crashes in one minute, since the first start came long after its crash. -/
theorem crash_uncounted :
    OnClock uncountedEvents ∧
      (∃ s h, runWith ⟨60, 5⟩ uncountedEvents ({}, {}) = some (s, h) ∧
        h.deaths = [(0, 0), (1, 1), (2, 2), (3, 3), (4, 4), (5, 5)] ∧
        5 < crowd ⟨60, 5⟩ (h.deaths.map Prod.snd) 5 ∧ s.failures = [1, 2, 3, 4, 5] ∧ s.pc = .select) ∧
    OnClock delayedEvents ∧
      ∃ s h, runWith ⟨60, 5⟩ delayedEvents ({}, {}) = some (s, h) ∧
        h.starts.map Prod.snd = [59, 60, 61, 62, 63, 64] ∧
        5 < (h.starts.map Prod.snd).countP fun time => (59 : ℤ) ≤ time ∧ time < 59 + 60 := by
  have hdeaths : 5 < crowd ⟨60, 5⟩
      (([(0, 0), (1, 1), (2, 2), (3, 3), (4, 4), (5, 5)] : List (ℕ × ℤ)).map Prod.snd) 5 := by decide
  have hstarts : 5 < ([59, 60, 61, 62, 63, 64] : List ℤ).countP
      fun time => (59 : ℤ) ≤ time ∧ time < 59 + 60 := by decide
  exact ⟨by decide, ⟨_, _, rfl, rfl, hdeaths, rfl, rfl⟩, by decide, _, _, rfl, rfl, hstarts⟩

end EzOpenPN.Supervisor
