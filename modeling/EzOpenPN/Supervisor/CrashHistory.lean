import EzOpenPN.Supervisor.Invariants

/-!
# What becomes of the children

`Run` does not see when a child ends. It receives the exit of the child some time later, reads the clock
after that and starts another child later still, so that the end of a child, its crash and the start
that follows have three times. They are recorded on the side of a run whose steps have a time each
(`EzOpenPN.Supervisor.History`).

**Not every child that ends by itself crashes.** When a restart is already on its way, its `stopChild`
receives the exit and nobody counts it: the crashes are the ends of those children that were never sent
a stop (`EzOpenPN.Supervisor.Accounted`).
-/

namespace EzOpenPN.Supervisor

/-! ### The history of a run -/

/-- What `time.Now` returns in a step is the time of the step. -/
def Act.Tells (act : Act) (time : ℤ) : Prop :=
  match act with
  | .run (.clock now) => now = time
  | _ => True

instance (act : Act) (time : ℤ) : Decidable (act.Tells time) := by
  unfold Act.Tells
  split <;> infer_instance

/-- **Time does not go back**, and `time.Now` tells it. -/
def OnClock (events : List (ℤ × Act)) : Prop :=
  (events.map Prod.fst).Pairwise (· ≤ ·) ∧ ∀ event ∈ events, event.2.Tells event.1

instance (events : List (ℤ × Act)) : Decidable (OnClock events) := by
  unfold OnClock
  infer_instance

/-- A stop was sent to a child. -/
def State.Stopped (s : State) (c : ℕ) : Prop := c ∈ s.stops.map Prod.fst

instance (s : State) : DecidablePred s.Stopped := fun c =>
  inferInstanceAs (Decidable (c ∈ s.stops.map Prod.fst))

/-- **What happened in a run**, recorded on the side. -/
structure History where
  /-- The exits of children that `Run` did not stop: in the `select` of the loop, and in the one of a
  restart. -/
  exits : ℕ := 0
  /-- The children that ended without a stop, and when. -/
  deaths : List (ℕ × ℤ) := []
  /-- The children whose crash was recorded, and with which time. -/
  crashes : List (ℕ × ℤ) := []
  /-- The starts after a crash: the time of the crash, and their own. -/
  starts : List (ℤ × ℤ) := []

/-- What a step adds to the history. -/
def History.observe (h : History) (s : State) (time : ℤ) (act : Act) : History :=
  match s.pc, act with
  | _, .outside (.childExit c) =>
    if s.Stopped c then h else { h with deaths := h.deaths ++ [(c, time)] }
  | .select, .run .exit => { h with exits := h.exits + 1 }
  | .stable _, .run .exit => { h with exits := h.exits + 1 }
  | .recordFailure, .run (.clock now) => { h with crashes := h.crashes ++ [(s.child, now)] }
  | .replace, .run .startOk =>
    { h with starts := h.starts ++ (h.crashes.getLast?.map fun crash => (crash.2, time)).toList }
  | _, _ => h

/-- **A run with its history.** -/
def runWith (policy : ProcessPolicy) : List (ℤ × Act) → State × History → Option (State × History)
  | [], w => some w
  | (time, act) :: events, w =>
    (step policy w.1 act).bind fun s => runWith policy events (s, w.2.observe w.1 time act)

/-- A run is the same with its history. -/
theorem runWith_fst (policy : ProcessPolicy) (events : List (ℤ × Act)) (w : State × History) :
    (runWith policy events w).map Prod.fst = run policy (events.map Prod.snd) w.1 := by
  induction events generalizing w with
  | nil => rfl
  | cons event events ih =>
    rw [runWith, List.map_cons, run]
    cases step policy w.1 event.2 with
    | none => rfl
    | some s => exact ih _

/-! ### What a step does to the children -/

/-- No stop was sent to the child of these statements, and its crash was not recorded. -/
def Pc.unstopped : Pc → Bool
  | .markHealthy | .select | .crashStore | .recordFailure | .checkCancel _ | .answerCancel _
  | .stopStore _ | .stopSignal _ | .stable _ | .stableStore _ | .answerNil _ | .unstableStore _
  | .answerUnstable _ | .answerAbandoned _ => true
  | _ => false

variable {policy : ProcessPolicy} {s s' : State} {h h' : History} {choice : Choice} {time now : ℤ}

/-- **What a statement of `Run` does to the children**: nothing; it starts one; it sends a stop to the
one that is held; or it records the crash of that one. -/
theorem runStep_children (hs : runStep policy s choice = some s') : s'.exited = s.exited ∧
    ((s'.started = s.started ∧ s'.stops = s.stops ∧ s'.pc.unstopped = s.pc.unstopped ∧
        (s'.pc.holds = true → s.pc.holds = true) ∧ s.pc ≠ .recordFailure) ∨
      (s'.started = s.started + 1 ∧ s'.stops = s.stops ∧ s.pc.unstopped = false ∧
        s'.pc.unstopped = true) ∨
      (s'.started = s.started ∧ (∃ why, s'.stops = (s.child, why) :: s.stops) ∧
        s'.pc.unstopped = false ∧ s.pc ≠ .recordFailure ∧ s.pc.holds = true) ∨
      (s'.started = s.started ∧ s'.stops = s.stops ∧ s.pc = .recordFailure ∧
        (∃ now, choice = .clock now) ∧ s'.pc.unstopped = false ∧ s'.pc.holds = false)) := by
  unfold runStep at hs
  split at hs
  all_goals grind -ring -linarith [State.goto, State.begin, State.store, State.receiveExit,
    State.sendStop, State.receiveRestart, State.receiveShutdown, State.answer, State.answerShutdown,
    Pc.unstopped, Pc.holds]

/-- A child is started after a crash when one was recorded. -/
theorem recordFailure_of_replace (hs : runStep policy s choice = some s') (hpc : s'.pc = .replace) :
    s.pc = .recordFailure := by
  unfold runStep at hs
  split at hs
  all_goals grind -ring -linarith [State.goto, State.begin, State.store, State.receiveExit,
    State.sendStop, State.receiveRestart, State.receiveShutdown, State.answer, State.answerShutdown]

namespace History

/-- Only `recordFailure` records a crash. -/
theorem observe_run (hpc : s.pc ≠ .recordFailure) :
    (h.observe s time (.run choice)).deaths = h.deaths ∧
      (h.observe s time (.run choice)).crashes = h.crashes := by
  unfold observe
  split <;> first | exact ⟨rfl, rfl⟩ | exact absurd ‹s.pc = .recordFailure› hpc | contradiction

/-- Only the start after a crash is recorded. -/
theorem observe_starts {act : Act} (hne : ¬(s.pc = .replace ∧ act = .run .startOk)) :
    (h.observe s time act).starts = h.starts := by
  unfold observe
  split
  · split <;> rfl
  all_goals first | rfl | exact absurd ⟨‹s.pc = .replace›, rfl⟩ hne

/-- Around `Run` only the end of a child is recorded. -/
theorem observe_outside {event : Outside} (hne : ∀ c, event ≠ .childExit c) :
    h.observe s time (.outside event) = h := by
  unfold observe
  split
  · rename_i c heq
    exact absurd (by simpa using heq) (hne c)
  all_goals first | rfl | contradiction

end History

/-! ### The children -/

/-- **The accounts of the children.** Each that ended did so by itself or was sent a stop; and of each
that is not held any more the crash was recorded, or it was sent a stop, and not both. -/
structure Accounted (s : State) (h : History) : Prop where
  stopped : ∀ c, s.Stopped c → c < s.started
  ended : ∀ c, s.exited c = true → s.Stopped c ∨ ∃ time, (c, time) ∈ h.deaths
  died : ∀ d ∈ h.deaths, d.1 < s.started
  crashed : ∀ c ∈ h.crashes.map Prod.fst, c < s.started ∧ ¬s.Stopped c
  once : (h.crashes.map Prod.fst).Nodup
  earlier : ∀ c, c + 1 < s.started → s.Stopped c ∨ c ∈ h.crashes.map Prod.fst
  held : s.pc.unstopped = true →
    0 < s.started ∧ ¬s.Stopped s.child ∧ s.child ∉ h.crashes.map Prod.fst
  settled : s.pc.unstopped = false → 0 < s.started →
    s.Stopped s.child ∨ s.child ∈ h.crashes.map Prod.fst
  stopping : s.pc.unstopped = false → s.pc.holds = true → s.Stopped s.child

theorem accounted_initial : Accounted {} {} := by
  constructor <;> simp [State.Stopped, Pc.unstopped, Pc.holds]

theorem stopped_congr (hstops : s'.stops = s.stops) (c : ℕ) : s'.Stopped c ↔ s.Stopped c := by
  rw [State.Stopped, hstops]
  rfl

theorem child_congr (hstarted : s'.started = s.started) : s'.child = s.child := by
  rw [State.child, hstarted, State.child]

/-- Nothing that matters for the accounts has changed. -/
theorem Accounted.congr (ha : Accounted s h) (hexited : s'.exited = s.exited)
    (hstarted : s'.started = s.started) (hstops : s'.stops = s.stops)
    (hpc : s'.pc.unstopped = s.pc.unstopped) (hholds : s'.pc.holds = true → s.pc.holds = true)
    (hdeaths : h'.deaths = h.deaths) (hcrashes : h'.crashes = h.crashes) : Accounted s' h' := by
  have hstopped := stopped_congr hstops
  have hchild := child_congr hstarted
  refine ⟨fun c hc => ?_, fun c hc => ?_, fun d hd => ?_, fun c hc => ?_, hcrashes ▸ ha.once,
    fun c hc => ?_, fun hheld => ?_, fun hfree hpos => ?_, fun hfree hstop => ?_⟩
  · exact hstarted ▸ ha.stopped c ((hstopped c).mp hc)
  · rw [hstopped, hdeaths]
    exact ha.ended c (hexited ▸ hc)
  · exact hstarted ▸ ha.died d (hdeaths ▸ hd)
  · rw [hstarted, hstopped]
    exact ha.crashed c (hcrashes ▸ hc)
  · rw [hstopped, hcrashes]
    exact ha.earlier c (hstarted ▸ hc)
  · rw [hstarted, hchild, hstopped, hcrashes]
    exact ha.held (hpc ▸ hheld)
  · rw [hchild, hstopped, hcrashes]
    exact ha.settled (hpc ▸ hfree) (hstarted ▸ hpos)
  · rw [hchild, hstopped]
    exact ha.stopping (hpc ▸ hfree) (hholds hstop)

/-- A child is started. -/
theorem Accounted.begin (ha : Accounted s h) (hexited : s'.exited = s.exited)
    (hstarted : s'.started = s.started + 1) (hstops : s'.stops = s.stops)
    (hpc : s.pc.unstopped = false) (hpc' : s'.pc.unstopped = true) (hdeaths : h'.deaths = h.deaths)
    (hcrashes : h'.crashes = h.crashes) : Accounted s' h' := by
  have hstopped := stopped_congr hstops
  have hchild : s'.child = s.started := by rw [State.child, hstarted, Nat.add_sub_cancel]
  refine ⟨fun c hc => ?_, fun c hc => ?_, fun d hd => ?_, fun c hc => ?_, hcrashes ▸ ha.once,
    fun c hc => ?_, fun _ => ⟨by omega, ?_, ?_⟩, fun hfalse => ?_, fun hfalse => ?_⟩
  · have := ha.stopped c ((hstopped c).mp hc)
    omega
  · rw [hstopped, hdeaths]
    exact ha.ended c (hexited ▸ hc)
  · have := ha.died d (hdeaths ▸ hd)
    omega
  · rw [hcrashes] at hc
    obtain ⟨hlt, hnot⟩ := ha.crashed c hc
    exact ⟨by omega, fun h => hnot ((hstopped c).mp h)⟩
  · -- the child before is the one whose account was settled
    rw [hstopped, hcrashes]
    rcases Nat.lt_or_ge (c + 1) s.started with hlt | hge
    · exact ha.earlier c hlt
    · have hlast : c = s.child := by
        rw [State.child]
        omega
      exact hlast ▸ ha.settled hpc (by omega)
  · rw [hchild, hstopped]
    exact fun h => absurd (ha.stopped _ h) (by omega)
  · rw [hchild, hcrashes]
    exact fun h => absurd (ha.crashed _ h).1 (by omega)
  · rw [hpc'] at hfalse
    cases hfalse
  · rw [hpc'] at hfalse
    cases hfalse

/-- A stop is sent to the child that is held. -/
theorem Accounted.sendStop {why : StopFor} (ha : Accounted s h) (hpos : 0 < s.started)
    (hholds : s.pc.holds = true) (hexited : s'.exited = s.exited)
    (hstarted : s'.started = s.started) (hstops : s'.stops = (s.child, why) :: s.stops)
    (hpc : s'.pc.unstopped = false) (hdeaths : h'.deaths = h.deaths)
    (hcrashes : h'.crashes = h.crashes) : Accounted s' h' := by
  have hstopped : ∀ c, s'.Stopped c ↔ c = s.child ∨ s.Stopped c := fun c => by
    rw [State.Stopped, hstops, List.map_cons, List.mem_cons]
    rfl
  have hchild := child_congr hstarted
  -- a child whose crash was recorded is not held any more
  have hnot : s.child ∉ h.crashes.map Prod.fst := by
    cases hpc : s.pc.unstopped with
    | true => exact (ha.held hpc).2.2
    | false => exact fun hmem => (ha.crashed _ hmem).2 (ha.stopping hpc hholds)
  refine ⟨fun c hc => ?_, fun c hc => ?_, fun d hd => ?_, fun c hc => ?_, hcrashes ▸ ha.once,
    fun c hc => ?_, fun htrue => ?_, fun _ _ => .inl ?_, fun _ _ => ?_⟩
  · rcases (hstopped c).mp hc with rfl | hc
    · rw [State.child]
      omega
    · exact hstarted ▸ ha.stopped c hc
  · rw [hstopped, hdeaths]
    exact (ha.ended c (hexited ▸ hc)).imp_left .inr
  · exact hstarted ▸ ha.died d (hdeaths ▸ hd)
  · rw [hcrashes] at hc
    obtain ⟨hlt, hc'⟩ := ha.crashed c hc
    refine ⟨hstarted ▸ hlt, fun h => ?_⟩
    rcases (hstopped c).mp h with rfl | h
    · exact hnot hc
    · exact hc' h
  · rw [hstopped, hcrashes]
    exact (ha.earlier c (hstarted ▸ hc)).imp_left .inr
  · rw [hpc] at htrue
    cases htrue
  · exact (hstopped _).mpr (.inl hchild)
  · exact (hstopped _).mpr (.inl hchild)

/-- The crash of the child that is held is recorded. -/
theorem Accounted.record (ha : Accounted s h) (hheld : s.pc.unstopped = true)
    (hexited : s'.exited = s.exited) (hstarted : s'.started = s.started)
    (hstops : s'.stops = s.stops) (hpc : s'.pc.unstopped = false) (hpc' : s'.pc.holds = false)
    (hdeaths : h'.deaths = h.deaths) (hcrashes : h'.crashes = h.crashes ++ [(s.child, now)]) :
    Accounted s' h' := by
  have hstopped := stopped_congr hstops
  have hchild := child_congr hstarted
  obtain ⟨hpos, hfree, hnew⟩ := ha.held hheld
  have hmem : ∀ c, c ∈ h'.crashes.map Prod.fst ↔ c ∈ h.crashes.map Prod.fst ∨ c = s.child :=
    fun c => by rw [hcrashes]; simp
  refine ⟨fun c hc => ?_, fun c hc => ?_, fun d hd => ?_, fun c hc => ?_, ?_, fun c hc => ?_,
    fun htrue => ?_, fun _ _ => .inr ?_, fun _ htrue => ?_⟩
  · exact hstarted ▸ ha.stopped c ((hstopped c).mp hc)
  · rw [hstopped, hdeaths]
    exact ha.ended c (hexited ▸ hc)
  · exact hstarted ▸ ha.died d (hdeaths ▸ hd)
  · rw [hstopped, hstarted]
    rcases (hmem c).mp hc with hc | rfl
    · exact ha.crashed c hc
    · exact ⟨by rw [State.child]; omega, hfree⟩
  · rw [hcrashes, List.map_append, List.map_singleton]
    exact List.concat_eq_append ▸ ha.once.concat hnew
  · rw [hstopped, hmem]
    exact (ha.earlier c (hstarted ▸ hc)).imp_right .inl
  · rw [hpc] at htrue
    cases htrue
  · exact (hmem _).mpr (.inr hchild)
  · rw [hpc'] at htrue
    cases htrue

/-- **What happens around `Run`**: a child ends, or nothing that matters here. -/
theorem outsideStep_children {event : Outside} (hs : outsideStep s event = some s') :
    (∃ c < s.started, event = .childExit c ∧
        s' = { s with exited := Function.update s.exited c true }) ∨
      s'.exited = s.exited ∧ s'.stops = s.stops ∧
        ∀ (h : History) (time : ℤ), h.observe s time (.outside event) = h := by
  cases event with
  | childExit c =>
    obtain ⟨hc, hs⟩ := Option.ite_none_right_eq_some.mp hs
    exact .inl ⟨c, hc.1, rfl, (Option.some.inj hs).symm⟩
  | report c | offer r | offerShutdown q =>
    obtain ⟨_, hs⟩ := Option.ite_none_right_eq_some.mp hs
    obtain rfl := Option.some.inj hs
    exact .inr ⟨rfl, rfl, fun h time => History.observe_outside (by simp)⟩
  | withdraw r | cancel r | take r | withdrawShutdown q | takeShutdown q | cancelContext =>
    obtain rfl := Option.some.inj hs
    exact .inr ⟨rfl, rfl, fun h time => History.observe_outside (by simp)⟩

/-- **A child ends**, by itself if no stop was sent to it. -/
theorem Accounted.childExit {c : ℕ} (ha : Accounted s h) (hc : c < s.started) :
    Accounted { s with exited := Function.update s.exited c true }
      (h.observe s time (.outside (.childExit c))) := by
  have hcrashes : (h.observe s time (.outside (.childExit c))).crashes = h.crashes := by
    simp only [History.observe]
    split <;> rfl
  have hdeaths : ∀ d, d ∈ (h.observe s time (.outside (.childExit c))).deaths ↔
      d ∈ h.deaths ∨ ¬s.Stopped c ∧ d = (c, time) := by
    intro d
    simp only [History.observe]
    split
    · rename_i hstopped
      simp [hstopped]
    · rename_i hfree
      simp [hfree]
  refine ⟨ha.stopped, fun c' hc' => ?_, fun d hd => ?_, hcrashes ▸ ha.crashed, hcrashes ▸ ha.once,
    hcrashes ▸ ha.earlier, hcrashes ▸ ha.held, hcrashes ▸ ha.settled, ha.stopping⟩
  · by_cases heq : c' = c
    · subst heq
      by_cases hstopped : s.Stopped c'
      · exact .inl hstopped
      · exact .inr ⟨time, (hdeaths _).mpr (.inr ⟨hstopped, rfl⟩)⟩
    · have hbefore : s.exited c' = true := by simpa [Function.update_of_ne heq] using hc'
      exact (ha.ended c' hbefore).imp_right fun ⟨t, ht⟩ => ⟨t, (hdeaths _).mpr (.inl ht)⟩
  · rcases (hdeaths d).mp hd with hd | ⟨-, rfl⟩
    · exact ha.died d hd
    · exact hc

/-- **Every step keeps the accounts.** -/
theorem Accounted.step {act : Act} (ha : Accounted s h) (hi : Inv s)
    (hs : Supervisor.step policy s act = some s') : Accounted s' (h.observe s time act) := by
  cases act with
  | run choice =>
    have hobserve : s.pc ≠ .recordFailure → (h.observe s time (.run choice)).deaths = h.deaths ∧
        (h.observe s time (.run choice)).crashes = h.crashes := History.observe_run
    obtain ⟨hexited, hcase⟩ := runStep_children hs
    rcases hcase with ⟨hstarted, hstops, hpc, hholds, hne⟩ | ⟨hstarted, hstops, hpc, hpc'⟩ |
      ⟨hstarted, ⟨why, hstops⟩, hpc', hne, hholds⟩ |
      ⟨hstarted, hstops, hrecord, ⟨now, rfl⟩, hpc', hholds⟩
    · obtain ⟨hdeaths, hcrashes⟩ := hobserve hne
      exact ha.congr hexited hstarted hstops hpc hholds hdeaths hcrashes
    · have hne : s.pc ≠ .recordFailure := by
        intro heq
        rw [heq] at hpc
        cases hpc
      obtain ⟨hdeaths, hcrashes⟩ := hobserve hne
      exact ha.begin hexited hstarted hstops hpc hpc' hdeaths hcrashes
    · obtain ⟨hdeaths, hcrashes⟩ := hobserve hne
      exact ha.sendStop (hi.held hholds).1 hholds hexited hstarted hstops hpc' hdeaths hcrashes
    · have hcrashes : (h.observe s time (.run (.clock now))).crashes =
          h.crashes ++ [(s.child, now)] := by
        simp only [History.observe, hrecord]
      refine ha.record (by rw [hrecord]; rfl) hexited hstarted hstops hpc' hholds ?_ hcrashes
      simp only [History.observe, hrecord]
  | outside event =>
    obtain ⟨hpc, -, hstarted⟩ := outsideStep_frame hs
    rcases outsideStep_children hs with ⟨c, hc, rfl, rfl⟩ | ⟨hexited, hstops, hobserve⟩
    · exact ha.childExit hc
    · rw [hobserve]
      exact ha.congr hexited hstarted hstops (by rw [hpc]) (fun hholds => hpc ▸ hholds) rfl rfl

/-! ### The times -/

/-- **The times are in order**: a child ends before its crash is recorded, a start follows its crash,
and the next crash follows the start. -/
structure Dated (now : ℤ) (s : State) (h : History) : Prop where
  deaths : ∀ d ∈ h.deaths, d.2 ≤ now
  crashes : ∀ crash ∈ h.crashes, crash.2 ≤ now ∧ ∃ time ≤ crash.2, (crash.1, time) ∈ h.deaths
  sorted : (h.crashes.map Prod.snd).Pairwise (· ≤ ·)
  starts : ∀ start ∈ h.starts, start.1 ≤ start.2 ∧ start.2 ≤ now
  inTurn : h.starts.Pairwise fun a b => a.2 ≤ b.1
  pending : s.pc = .replace →
    ∀ crash, h.crashes.getLast? = some crash → ∀ start ∈ h.starts, start.2 ≤ crash.2

theorem dated_initial : Dated now {} {} := by
  constructor <;> simp

/-- Time goes on. -/
theorem Dated.later (hd : Dated now s h) (hle : now ≤ time) : Dated time s h where
  deaths d hdeath := (hd.deaths d hdeath).trans hle
  crashes crash hcrash := (hd.crashes crash hcrash).imp_left fun h => h.trans hle
  sorted := hd.sorted
  starts start hstart := (hd.starts start hstart).imp_right fun h => h.trans hle
  inTurn := hd.inTurn
  pending := hd.pending

/-- **The child whose exit `Run` has received ended by itself**, unless a stop was sent to it. -/
theorem Accounted.exists_death (ha : Accounted s h) (hi : Inv s) (hpc : s.pc = .recordFailure) :
    ∃ time, (s.child, time) ∈ h.deaths := by
  obtain ⟨hpos, hfree, -⟩ := ha.held (by rw [hpc]; rfl)
  -- what `Run` has received was reported, and what was reported is over
  have hreceived : s.received s.child = true :=
    hi.cleared (by rw [hpc]; rfl) _ (by rw [State.child]; omega)
  exact (ha.ended _ (hi.exited _ (hi.reported _ hreceived))).resolve_left hfree

/-- The crash is recorded. -/
theorem Dated.record (hd : Dated now s h) (ha : Accounted s h) (hi : Inv s)
    (hpc : s.pc = .recordFailure) :
    Dated now s' { h with crashes := h.crashes ++ [(s.child, now)] } where
  deaths := hd.deaths
  crashes := by
    intro crash hcrash
    rcases List.mem_append.mp hcrash with hcrash | hcrash
    · exact hd.crashes crash hcrash
    · obtain rfl := List.mem_singleton.mp hcrash
      obtain ⟨time, htime⟩ := ha.exists_death hi hpc
      exact ⟨le_rfl, time, hd.deaths _ htime, htime⟩
  sorted := by
    rw [List.map_append, List.map_singleton]
    refine List.pairwise_append.mpr ⟨hd.sorted, List.pairwise_singleton _ _, fun a ha' b hb => ?_⟩
    obtain ⟨crash, hcrash, rfl⟩ := List.mem_map.mp ha'
    rw [List.mem_singleton.mp hb]
    exact (hd.crashes crash hcrash).1
  starts := hd.starts
  inTurn := hd.inTurn
  pending := by
    intro _ crash hlast start hstart
    rw [List.getLast?_concat] at hlast
    obtain rfl := Option.some.inj hlast
    exact (hd.starts start hstart).2

/-- A child is started after the crash. -/
theorem Dated.replace (hd : Dated now s h) (hpc : s.pc = .replace) (hnext : s'.pc ≠ .replace) :
    Dated now s'
      { h with
        starts := h.starts ++ (h.crashes.getLast?.map fun crash => (crash.2, now)).toList } where
  deaths := hd.deaths
  crashes := hd.crashes
  sorted := hd.sorted
  starts := by
    intro start hstart
    rcases List.mem_append.mp hstart with hstart | hstart
    · exact hd.starts start hstart
    · obtain ⟨crash, hlast, rfl⟩ := Option.map_eq_some_iff.mp (Option.mem_toList.mp hstart)
      exact ⟨(hd.crashes crash (List.mem_of_getLast? hlast)).1, le_rfl⟩
  inTurn := by
    refine List.pairwise_append.mpr ⟨hd.inTurn, ?_, fun a ha b hb => ?_⟩
    · cases h.crashes.getLast? <;> simp
    · obtain ⟨crash, hlast, rfl⟩ := Option.map_eq_some_iff.mp (Option.mem_toList.mp hb)
      exact hd.pending hpc crash hlast a ha
  pending hreplace := absurd hreplace hnext

/-- **Every step keeps the times in order.** -/
theorem Dated.step {act : Act} (hd : Dated now s h) (ha : Accounted s h) (hi : Inv s)
    (hs : Supervisor.step policy s act = some s') (htells : act.Tells now) :
    Dated now s' (h.observe s now act) := by
  have hframe : ∀ {h' : History}, h'.deaths = h.deaths → h'.crashes = h.crashes →
      h'.starts = h.starts → (s'.pc = .replace → s.pc = .replace) → Dated now s' h' := by
    rintro h' hdeaths hcrashes hstarts hpc
    exact ⟨hdeaths ▸ hd.deaths, by rw [hcrashes, hdeaths]; exact hd.crashes, hcrashes ▸ hd.sorted,
      hstarts ▸ hd.starts, hstarts ▸ hd.inTurn,
      fun hreplace => by rw [hcrashes, hstarts]; exact hd.pending (hpc hreplace)⟩
  cases act with
  | run choice =>
    by_cases hrecord : s.pc = .recordFailure
    · obtain ⟨-, hcase⟩ := runStep_children hs
      have hchoice : ∃ t, choice = .clock t := by grind -ring -linarith [Pc.unstopped]
      obtain ⟨t, rfl⟩ := hchoice
      obtain rfl : t = now := htells
      have hobserve : h.observe s t (.run (.clock t)) =
          { h with crashes := h.crashes ++ [(s.child, t)] } := by
        simp only [History.observe, hrecord]
      rw [hobserve]
      exact hd.record ha hi hrecord
    -- a start is due only right after its crash
    · have hnext : s'.pc ≠ .replace := fun h => hrecord (recordFailure_of_replace hs h)
      obtain ⟨hdeaths, hcrashes⟩ : (h.observe s now (.run choice)).deaths = h.deaths ∧
          (h.observe s now (.run choice)).crashes = h.crashes := History.observe_run hrecord
      by_cases hreplace : s.pc = .replace ∧ choice = .startOk
      · obtain ⟨hpc, rfl⟩ := hreplace
        have hobserve : h.observe s now (.run .startOk) = { h with
            starts := h.starts ++ (h.crashes.getLast?.map fun crash => (crash.2, now)).toList } := by
          simp only [History.observe, hpc]
        rw [hobserve]
        exact hd.replace hpc hnext
      · exact hframe hdeaths hcrashes (History.observe_starts (by simpa using hreplace))
          fun h => absurd h hnext
  | outside event =>
    obtain ⟨hpc, -, -⟩ := outsideStep_frame hs
    rcases outsideStep_children hs with ⟨c, hc, rfl, rfl⟩ | ⟨-, -, hobserve⟩
    · simp only [History.observe]
      split
      · exact hframe rfl rfl rfl id
      · refine ⟨fun d hdeath => ?_, fun crash hcrash => ?_, hd.sorted, hd.starts, hd.inTurn, hd.pending⟩
        · rcases List.mem_append.mp hdeath with hdeath | hdeath
          · exact hd.deaths d hdeath
          · rw [List.mem_singleton.mp hdeath]
        · obtain ⟨hle, time, htime, hdeath⟩ := hd.crashes crash hcrash
          exact ⟨hle, time, htime, List.mem_append_left _ hdeath⟩
    · rw [hobserve]
      exact hframe rfl rfl rfl fun h => hpc ▸ h

end EzOpenPN.Supervisor
