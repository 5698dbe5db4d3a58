import EzOpenPN.Supervisor.Process

/-!
# What holds throughout a `Run` call

Three readings of the program counter carry everything. `Pc.holds` says that `Run` holds a
child whose exit it has not received, `Pc.cleared` that it has received the exit of every child
it ever started; the other statements are those on the way out, where nothing is started any
more. `Pc.request` is the restart request in progress, and `Pc.replaced` says that the new child
of that request has been started.

`EzOpenPN.Supervisor.Inv` relates them to the state. It holds initially and is kept by every
step of `Run` and of its surroundings.
-/

namespace EzOpenPN.Supervisor

/-! ### Reading the program counter -/

/-- The restart request a stop is made for. -/
def StopFor.request : StopFor → Option ℕ
  | .restart r => some r
  | _ => none

namespace Pc

/-- `Run` holds a child whose exit it has not received. -/
def holds : Pc → Bool
  | .markHealthy | .select | .checkCancel _ | .answerCancel _ | .stopStore _ | .stopSignal _
  | .stopWait _ | .stopKill _ | .stopKillWait _ | .stable _ | .stableStore _ | .answerNil _
  | .answerAbandoned _ => true
  | _ => false

/-- `Run` has received the exit of every child it started. -/
def cleared : Pc → Bool
  | .start | .crashStore | .recordFailure | .replace | .stopped _ none | .restart _ | .answerStart _
  | .unstableStore _ | .answerUnstable _ => true
  | _ => false

/-- The statements at which the health flag may be up. -/
def mayBeHealthy : Pc → Bool
  | .select | .crashStore | .checkCancel _ | .answerCancel _ | .stopStore _ | .answerNil _ => true
  | _ => false

/-- The restart request in progress. -/
def request : Pc → Option ℕ
  | .checkCancel r | .answerCancel r | .restart r | .answerStart r | .stable r | .stableStore r
  | .answerNil r | .unstableStore r | .answerUnstable r | .answerAbandoned r => some r
  | .stopStore why | .stopSignal why | .stopWait why | .stopKill why | .stopKillWait why
  | .stopped why _ => why.request
  | _ => none

/-- The new child of the restart request in progress has been started. -/
def replaced : Pc → Bool
  | .stable _ | .stableStore _ | .answerNil _ | .unstableStore _ | .answerUnstable _
  | .answerAbandoned _ => true
  | _ => false

/-- The restart request in progress has not passed the check of its context. -/
def unchecked : Pc → Bool
  | .checkCancel _ | .answerCancel _ => true
  | _ => false

/-- The most statements `Run` executes before it has answered the request in progress. -/
def remaining : Pc → ℕ
  | .checkCancel _ => 11
  | .stopStore _ => 10
  | .stopSignal _ => 9
  | .stopWait _ => 8
  | .stopKill _ => 7
  | .stopKillWait _ => 6
  | .stopped _ _ => 5
  | .restart _ => 4
  | .stable _ => 3
  | .stableStore _ | .unstableStore _ => 2
  | _ => 1

/-- **The next statement reads the state as this one does**: it holds and has received no more
than this one, and the request in progress is as far as it was. -/
def leadsTo (pc next : Pc) : Bool :=
  (!next.holds || pc.holds) && (!next.cleared || pc.cleared) &&
    (next.replaced == pc.replaced) && (!pc.unchecked || next.unchecked)

/-- The next statement lets the health flag be as it is. -/
def keepsHealth (pc next : Pc) : Bool := !pc.mayBeHealthy || next.mayBeHealthy

end Pc

/-! ### The invariant -/

/-- **What holds at every point of a `Run` call.** -/
structure Inv (s : State) : Prop where
  /-- The exit of every child but the latest was received. -/
  earlier : ∀ c, c + 1 < s.started → s.received c = true
  /-- A held child has not been received. -/
  held : s.pc.holds = true → 0 < s.started ∧ s.received (s.started - 1) = false
  /-- Where nothing is held, everything was received. -/
  cleared : s.pc.cleared = true → ∀ c, c < s.started → s.received c = true
  /-- What was received was reported. -/
  reported : ∀ c, s.received c = true → s.reported c = true
  /-- What was reported has exited. -/
  exited : ∀ c, s.reported c = true → s.exited c = true
  /-- Only a started child exits. -/
  begun : ∀ c, s.exited c = true → c < s.started
  /-- The health flag is up at a few statements only. -/
  health : s.healthy = true → s.pc.mayBeHealthy = true
  /-- An offered request was not received before. -/
  offered : ∀ r, s.offered r = true → s.receipt r = none
  /-- A request that was not received has no answer. -/
  unseen : ∀ r, s.receipt r = none → s.answers r = [] ∧ s.response r = none
  /-- The request in progress was received and has no answer yet. -/
  pending : ∀ r, s.pc.request = some r →
    s.receipt r ≠ none ∧ s.answers r = [] ∧ s.response r = none
  /-- Every other request that was received has one answer. -/
  answered : ∀ r, s.receipt r ≠ none → s.pc.request ≠ some r → (s.answers r).length = 1
  /-- The child of the receipt of the request in progress: still the latest, or replaced. -/
  current : ∀ r rc, s.pc.request = some r → s.receipt r = some rc →
    if s.pc.replaced then rc.child + 1 < s.started else rc.child + 1 = s.started
  /-- A `nil` answer came after a new child was started. -/
  success : ∀ r, none ∈ s.answers r → ∃ rc, s.receipt r = some rc ∧ rc.child + 1 < s.started
  /-- An ended context stays ended. -/
  ended : ∀ r rc, s.receipt r = some rc → rc.cancelled = true → s.cancelled r = true
  /-- A request that was cancelled when it was received does not pass the check. -/
  refused : ∀ r rc, s.receipt r = some rc → rc.cancelled = true → s.pc.request = some r →
    s.pc.unchecked = true
  /-- A stop for a request was sent for one that was not cancelled when it was received. -/
  stops : ∀ c r, (c, .restart r) ∈ s.stops → ∃ rc, s.receipt r = some rc ∧ rc.cancelled = false

theorem inv_initial : Inv {} := by
  constructor <;> simp [Pc.holds, Pc.request]

/-! ### The surroundings keep it -/

theorem Inv.outsideStep {s s' : State} {event : Outside} (h : Inv s)
    (hs : outsideStep s event = some s') : Inv s' := by
  cases event with
  | childExit c =>
    obtain ⟨hg, hs⟩ := Option.ite_none_right_eq_some.mp hs
    obtain rfl := Option.some.inj hs
    have hexited := h.exited
    have hbegun := h.begun
    exact { h with
      exited := by grind -ring -linarith [Function.update]
      begun := by grind -ring -linarith [Function.update] }
  | report c =>
    obtain ⟨hg, hs⟩ := Option.ite_none_right_eq_some.mp hs
    obtain rfl := Option.some.inj hs
    have hreported := h.reported
    have hexited := h.exited
    exact { h with
      reported := by grind -ring -linarith [Function.update]
      exited := by grind -ring -linarith [Function.update] }
  | offer r =>
    obtain ⟨hg, hs⟩ := Option.ite_none_right_eq_some.mp hs
    obtain rfl := Option.some.inj hs
    have hoffered := h.offered
    exact { h with offered := by grind -ring -linarith [Function.update] }
  | withdraw r =>
    obtain rfl := Option.some.inj hs
    have hoffered := h.offered
    exact { h with offered := by grind -ring -linarith [Function.update] }
  | cancel r =>
    obtain rfl := Option.some.inj hs
    have hended := h.ended
    exact { h with ended := by grind -ring -linarith [Function.update] }
  | take r =>
    obtain rfl := Option.some.inj hs
    have hunseen := h.unseen
    have hpending := h.pending
    exact { h with
      unseen := by grind -ring -linarith [Function.update]
      pending := by grind -ring -linarith [Function.update] }
  | offerShutdown q =>
    obtain ⟨-, hs⟩ := Option.ite_none_right_eq_some.mp hs
    obtain rfl := Option.some.inj hs
    exact { h with }
  | withdrawShutdown q | takeShutdown q | cancelContext =>
    obtain rfl := Option.some.inj hs
    exact { h with }

/-! ### The statements of `Run` keep it -/

variable {s s' : State} {pc next : Pc}

theorem Inv.goto (h : Inv s) (hpc : s.pc = pc) (hf : pc.leadsTo next = true)
    (hm : pc.keepsHealth next = true) (hr : next.request = pc.request) : Inv (s.goto next) := by
  obtain ⟨_, _, _, _, _, _, _, _, _, _, _, _, _, _, _, _⟩ := h
  unfold State.goto
  constructor <;> grind -ring -linarith [Pc.leadsTo, Pc.keepsHealth]

theorem Inv.store {value : Bool} (h : Inv s) (hpc : s.pc = pc) (hf : pc.leadsTo next = true)
    (hm : (!value || next.mayBeHealthy) = true) (hr : next.request = pc.request) :
    Inv (s.store value next) := by
  obtain ⟨_, _, _, _, _, _, _, _, _, _, _, _, _, _, _, _⟩ := h
  unfold State.store
  constructor <;> grind -ring -linarith [Pc.leadsTo]

/-- A child is started once the exits of all others were received. -/
theorem Inv.begin (h : Inv s) (hpc : s.pc = pc) (hc : pc.cleared = true)
    (hm : pc.mayBeHealthy = false) (hp : pc.replaced = false) (hu : pc.unchecked = false)
    (hc' : next.cleared = false) (hr : next.request = pc.request)
    (hp' : next.request ≠ none → next.replaced = true) : Inv (s.begin next) := by
  obtain ⟨_, _, _, _, _, _, _, _, _, _, _, _, _, _, _, _⟩ := h
  unfold State.begin
  constructor <;> grind -ring -linarith

/-- The exit that is received is the one of the child that is held. -/
theorem Inv.receiveExit (h : Inv s) (hx : s.exitReady = true) (hpc : s.pc = pc)
    (hh : pc.holds = true) (hh' : next.holds = false) (hm : pc.keepsHealth next = true)
    (hr : next.request = pc.request) (hp : next.replaced = pc.replaced)
    (hu : pc.unchecked = false) : Inv (s.receiveExit next) := by
  obtain ⟨_, _, _, _, _, _, _, _, _, _, _, _, _, _, _, _⟩ := h
  simp only [State.exitReady, State.child, Bool.and_eq_true, Bool.not_eq_true'] at hx
  unfold State.receiveExit State.child
  constructor <;> grind -ring -linarith [Function.update, Pc.keepsHealth]

/-- A request that has passed the check was not cancelled when it was received. -/
theorem Inv.not_cancelled {r : ℕ} (h : Inv s) (hr : s.pc.request = some r)
    (hu : s.pc.unchecked = false) : ∃ rc, s.receipt r = some rc ∧ rc.cancelled = false := by
  obtain ⟨rc, hrc⟩ := Option.ne_none_iff_exists'.mp (h.pending r hr).1
  refine ⟨rc, hrc, ?_⟩
  cases hc : rc.cancelled with
  | false => rfl
  | true => simp [h.refused r rc hrc hc hr] at hu

theorem Inv.sendStop {why : StopFor} (h : Inv s) (hpc : s.pc = pc) (hf : pc.leadsTo next = true)
    (hm : pc.mayBeHealthy = false) (hu : pc.unchecked = false) (hw : pc.request = why.request)
    (hr : next.request = pc.request) : Inv (s.sendStop why next) := by
  have hfree : ∀ r, why = .restart r → ∃ rc, s.receipt r = some rc ∧ rc.cancelled = false := by
    rintro r rfl
    exact h.not_cancelled (by rw [hpc, hw]; rfl) (by rw [hpc, hu])
  obtain ⟨_, _, _, _, _, _, _, _, _, _, _, _, _, _, _, _⟩ := h
  unfold State.sendStop
  constructor <;> grind -ring -linarith [Pc.leadsTo]

theorem Inv.receiveRestart {r : ℕ} (h : Inv s) (ho : s.offered r = true) (hpc : s.pc = .select) :
    Inv (s.receiveRestart r (.checkCancel r)) := by
  obtain ⟨_, _, _, _, _, _, _, _, _, _, _, _, _, _, _, _⟩ := h
  unfold State.receiveRestart State.child
  constructor <;> grind -ring -linarith [Function.update, Pc.holds, Pc.request, Pc.cleared, Pc.mayBeHealthy,
    Pc.replaced, Pc.unchecked]

theorem Inv.receiveShutdown {q : ℕ} (h : Inv s) (hpc : s.pc = .select) :
    Inv (s.receiveShutdown q (.stopStore (.shutdown q))) := by
  obtain ⟨_, _, _, _, _, _, _, _, _, _, _, _, _, _, _, _⟩ := h
  unfold State.receiveShutdown
  constructor <;> grind -ring -linarith [Pc.holds, Pc.request, Pc.cleared, Pc.mayBeHealthy, Pc.replaced,
    Pc.unchecked, StopFor.request]

/-- A request passes the check if its context has not ended, and then it had not ended when the
request was received. -/
theorem Inv.check {r : ℕ} (h : Inv s) (hpc : s.pc = .checkCancel r) :
    Inv (s.goto (if s.cancelled r then .answerCancel r else .stopStore (.restart r))) := by
  split_ifs with hc
  · exact h.goto hpc rfl rfl rfl
  · obtain ⟨_, _, _, _, _, _, _, _, _, _, _, _, _, _, _, _⟩ := h
    unfold State.goto
    constructor <;> grind -ring -linarith [Pc.holds, Pc.request, Pc.cleared, Pc.mayBeHealthy, Pc.replaced,
      StopFor.request]

/-- An answer is the only one, and `nil` is said when the new child runs. -/
theorem Inv.answer {r : ℕ} {reply : Answer} (h : Inv s) (hs : s.answer r reply next = some s')
    (hpc : s.pc = pc) (hr : pc.request = some r) (hr' : next.request = none)
    (hh : (!next.holds || pc.holds) = true) (hc : (!next.cleared || pc.cleared) = true)
    (hm : pc.keepsHealth next = true) (hn : (reply.isSome || pc.replaced) = true) : Inv s' := by
  have hnew : reply = none → ∃ rc, s.receipt r = some rc ∧ rc.child + 1 < s.started := by
    rintro rfl
    obtain ⟨rc, hrc⟩ := Option.ne_none_iff_exists'.mp (h.pending r (hpc ▸ hr)).1
    have hlt := h.current r rc (hpc ▸ hr) hrc
    rw [hpc, if_pos (by simpa using hn)] at hlt
    exact ⟨rc, hrc, hlt⟩
  obtain ⟨_, hs⟩ := Option.ite_none_right_eq_some.mp hs
  obtain rfl := Option.some.inj hs
  obtain ⟨_, _, _, _, _, _, _, _, _, _, _, _, _, _, _, _⟩ := h
  constructor <;> grind -ring -linarith [Function.update, Pc.keepsHealth]

theorem Inv.answerShutdown {q : ℕ} {reply : Answer} (h : Inv s)
    (hs : s.answerShutdown q reply next = some s') (hpc : s.pc = pc)
    (hf : pc.leadsTo next = true) (hm : pc.keepsHealth next = true)
    (hr : next.request = pc.request) : Inv s' := by
  obtain ⟨_, hs⟩ := Option.ite_none_right_eq_some.mp hs
  obtain rfl := Option.some.inj hs
  obtain ⟨_, _, _, _, _, _, _, _, _, _, _, _, _, _, _, _⟩ := h
  constructor <;> grind -ring -linarith [Pc.leadsTo, Pc.keepsHealth]

theorem Inv.recordFailure {failures : List ℤ} (h : Inv s) (hpc : s.pc = .recordFailure)
    (hn : next = .replace ∨ ∃ err, next = .leave err) :
    Inv { s with pc := next, failures := failures } := by
  obtain ⟨_, _, _, _, _, _, _, _, _, _, _, _, _, _, _, _⟩ := h
  rcases hn with rfl | ⟨err, rfl⟩ <;>
    constructor <;> grind -ring -linarith [Pc.holds, Pc.request, Pc.cleared, Pc.mayBeHealthy]

/-- **Every statement of `Run` keeps the invariant.** -/
theorem Inv.runStep {policy : ProcessPolicy} {choice : Choice} (h : Inv s)
    (hs : runStep policy s choice = some s') : Inv s' := by
  unfold Supervisor.runStep at hs
  split at hs
  all_goals rename_i hpc
  · obtain rfl := Option.some.inj hs
    exact h.begin hpc rfl rfl rfl rfl rfl rfl (by simp [Pc.request])
  · obtain rfl := Option.some.inj hs
    exact h.goto hpc rfl rfl rfl
  · obtain rfl := Option.some.inj hs
    exact h.store hpc rfl rfl rfl
  -- The `select` of the loop.
  · obtain ⟨_, hs⟩ := Option.ite_none_right_eq_some.mp hs
    obtain rfl := Option.some.inj hs
    exact h.goto hpc rfl rfl rfl
  · obtain ⟨_, hs⟩ := Option.ite_none_right_eq_some.mp hs
    obtain rfl := Option.some.inj hs
    exact h.receiveShutdown hpc
  · obtain ⟨hg, hs⟩ := Option.ite_none_right_eq_some.mp hs
    obtain rfl := Option.some.inj hs
    exact h.receiveRestart hg hpc
  · obtain ⟨hg, hs⟩ := Option.ite_none_right_eq_some.mp hs
    obtain rfl := Option.some.inj hs
    exact h.receiveExit hg hpc rfl rfl rfl rfl rfl rfl
  -- A child that ended by itself.
  · obtain rfl := Option.some.inj hs
    exact h.store hpc rfl rfl rfl
  · obtain rfl := Option.some.inj hs
    refine h.recordFailure hpc ?_
    split_ifs
    · exact Or.inr ⟨_, rfl⟩
    · exact Or.inl rfl
  · obtain rfl := Option.some.inj hs
    exact h.begin hpc rfl rfl rfl rfl rfl rfl (by simp [Pc.request])
  · obtain rfl := Option.some.inj hs
    exact h.goto hpc rfl rfl rfl
  -- The check of a restart request.
  · obtain rfl := Option.some.inj hs
    exact h.check hpc
  · exact h.answer hs hpc rfl rfl rfl rfl rfl rfl
  -- `stopChild`.
  · obtain rfl := Option.some.inj hs
    exact h.store hpc rfl rfl rfl
  · obtain rfl := Option.some.inj hs
    exact h.sendStop hpc rfl rfl rfl rfl rfl
  · obtain ⟨hg, hs⟩ := Option.ite_none_right_eq_some.mp hs
    obtain rfl := Option.some.inj hs
    exact h.receiveExit hg hpc rfl rfl rfl rfl rfl rfl
  · obtain rfl := Option.some.inj hs
    exact h.goto hpc rfl rfl rfl
  · obtain rfl := Option.some.inj hs
    exact h.sendStop hpc rfl rfl rfl rfl rfl
  · obtain ⟨hg, hs⟩ := Option.ite_none_right_eq_some.mp hs
    obtain rfl := Option.some.inj hs
    exact h.receiveExit hg hpc rfl rfl rfl rfl rfl rfl
  · obtain rfl := Option.some.inj hs
    exact h.goto hpc rfl rfl rfl
  -- After `stopChild`.
  · obtain rfl := Option.some.inj hs
    exact h.goto hpc rfl rfl rfl
  · exact h.answerShutdown hs hpc rfl rfl rfl
  · obtain rfl := Option.some.inj hs
    exact h.goto hpc rfl rfl rfl
  · exact h.answer hs hpc rfl rfl rfl rfl rfl rfl
  -- The new child of a restart.
  · obtain rfl := Option.some.inj hs
    exact h.begin hpc rfl rfl rfl rfl rfl rfl (fun _ => rfl)
  · obtain rfl := Option.some.inj hs
    exact h.goto hpc rfl rfl rfl
  · exact h.answer hs hpc rfl rfl rfl rfl rfl rfl
  · obtain rfl := Option.some.inj hs
    exact h.goto hpc rfl rfl rfl
  · obtain ⟨hg, hs⟩ := Option.ite_none_right_eq_some.mp hs
    obtain rfl := Option.some.inj hs
    exact h.receiveExit hg hpc rfl rfl rfl rfl rfl rfl
  · obtain ⟨_, hs⟩ := Option.ite_none_right_eq_some.mp hs
    obtain rfl := Option.some.inj hs
    exact h.goto hpc rfl rfl rfl
  · obtain rfl := Option.some.inj hs
    exact h.store hpc rfl rfl rfl
  · exact h.answer hs hpc rfl rfl rfl rfl rfl rfl
  · obtain rfl := Option.some.inj hs
    exact h.store hpc rfl rfl rfl
  · exact h.answer hs hpc rfl rfl rfl rfl rfl rfl
  · exact h.answer hs hpc rfl rfl rfl rfl rfl rfl
  -- The way out.
  · obtain rfl := Option.some.inj hs
    exact h.store hpc rfl rfl rfl
  · cases hs

/-! ### Whole runs keep it -/

theorem Inv.step {policy : ProcessPolicy} {act : Act} (h : Inv s)
    (hs : step policy s act = some s') : Inv s' := by
  cases act with
  | run choice => exact h.runStep hs
  | outside event => exact h.outsideStep hs

/-- **The invariant holds along every run.** -/
theorem Inv.run {policy : ProcessPolicy} {acts : List Act} (h : Inv s)
    (hs : run policy acts s = some s') : Inv s' := by
  induction acts generalizing s with
  | nil =>
    obtain rfl := Option.some.inj hs
    exact h
  | cons act acts ih =>
    obtain ⟨m, hm, hs⟩ := Option.bind_eq_some_iff.mp hs
    exact ih (h.step hm) hs

/-! ### A request in progress comes to its end -/

/-- The statements of `Run` among the steps of a run. -/
def runSteps (acts : List Act) : ℕ :=
  acts.countP fun act => match act with
    | .run _ => true
    | .outside _ => false

/-- `Run` is never stuck while a restart request is in progress: its answer finds the channel
empty, and every `select` on the way has a timer. -/
theorem Inv.runStep_enabled {r : ℕ} (policy : ProcessPolicy) (h : Inv s)
    (hr : s.pc.request = some r) : ∃ choice s', Supervisor.runStep policy s choice = some s' := by
  have hempty : ∀ pc reply, ∃ s', s.answer r reply pc = some s' := by
    intro pc reply
    exact ⟨_, if_pos (h.pending r hr).2.2⟩
  cases hpc : s.pc with
  | checkCancel q | stopStore q | stopSignal q | stopKill q | stableStore q | unstableStore q =>
    exact ⟨.next, _, by rw [Supervisor.runStep.eq_def, hpc]⟩
  | stopWait why | stopKillWait why | stable q =>
    exact ⟨.timer, _, by rw [Supervisor.runStep.eq_def, hpc]⟩
  | restart q =>
    exact ⟨.startErr, _, by rw [Supervisor.runStep.eq_def, hpc]⟩
  | answerCancel q | answerStart q | answerNil q | answerUnstable q | answerAbandoned q =>
    obtain rfl : q = r := by simpa [hpc, Pc.request] using hr
    obtain ⟨s', hs'⟩ := hempty _ _
    exact ⟨.next, s', by rw [Supervisor.runStep.eq_def, hpc]; exact hs'⟩
  | stopped why err =>
    cases why with
    | context | shutdown q => simp [hpc, Pc.request, StopFor.request] at hr
    | restart q =>
      obtain rfl : q = r := by simpa [hpc, Pc.request, StopFor.request] using hr
      cases err with
      | none => exact ⟨.next, _, by rw [Supervisor.runStep.eq_def, hpc]⟩
      | some err =>
        obtain ⟨s', hs'⟩ := hempty (.leave (some err)) (some err)
        exact ⟨.next, s', by rw [Supervisor.runStep.eq_def, hpc]; exact hs'⟩
  | start | markHealthy | select | crashStore | recordFailure | replace | leave err
  | returned err => simp [hpc, Pc.request] at hr

/-- Only the `select` of the loop receives a request. -/
theorem runStep_receipt {policy : ProcessPolicy} {choice : Choice}
    (hs : runStep policy s choice = some s') :
    s'.receipt = s.receipt ∨
      ∃ r, s'.receipt = Function.update s.receipt r (some ⟨s.child, s.cancelled r⟩) := by
  unfold runStep at hs
  split at hs
  all_goals grind -ring -linarith [State.goto, State.begin, State.store, State.receiveExit, State.sendStop,
    State.receiveRestart, State.receiveShutdown, State.answer, State.answerShutdown]

/-- The surroundings move no statement, receive no request and start no child. -/
theorem outsideStep_frame {event : Outside} (hs : outsideStep s event = some s') :
    s'.pc = s.pc ∧ s'.receipt = s.receipt ∧ s'.started = s.started := by
  cases event with
  | childExit c | report c | offer r | offerShutdown q =>
    obtain ⟨_, hs⟩ := Option.ite_none_right_eq_some.mp hs
    obtain rfl := Option.some.inj hs
    exact ⟨rfl, rfl, rfl⟩
  | withdraw r | cancel r | take r | withdrawShutdown q | takeShutdown q | cancelContext =>
    obtain rfl := Option.some.inj hs
    exact ⟨rfl, rfl, rfl⟩

/-- What was received stays received. -/
theorem step_receipt {r : ℕ} {policy : ProcessPolicy} {act : Act}
    (hs : step policy s act = some s') (hr : s.receipt r ≠ none) : s'.receipt r ≠ none := by
  cases act with
  | run choice =>
    rcases runStep_receipt hs with heq | ⟨q, heq⟩
    · rwa [heq]
    · rw [heq]
      by_cases hq : r = q
      · simp [hq]
      · rwa [Function.update_of_ne hq]
  | outside event => rwa [(outsideStep_frame hs).2.1]

theorem run_receipt {r : ℕ} {policy : ProcessPolicy} {acts : List Act}
    (hs : run policy acts s = some s') (hr : s.receipt r ≠ none) : s'.receipt r ≠ none := by
  induction acts generalizing s with
  | nil =>
    obtain rfl := Option.some.inj hs
    exact hr
  | cons act acts ih =>
    obtain ⟨m, hm, hs⟩ := Option.bind_eq_some_iff.mp hs
    exact ih hs (step_receipt hm hr)

/-- What is in progress after a statement of `Run` and was received before was in progress
before, and the statement brought it nearer to its answer. -/
theorem Inv.runStep_remaining {r : ℕ} {policy : ProcessPolicy} {choice : Choice} (h : Inv s)
    (hs : Supervisor.runStep policy s choice = some s') (hr : s.receipt r ≠ none)
    (hr' : s'.pc.request = some r) :
    s.pc.request = some r ∧ s'.pc.remaining < s.pc.remaining := by
  have hnew := h.offered r
  unfold Supervisor.runStep at hs
  split at hs
  all_goals grind -ring -linarith [State.goto, State.begin, State.store, State.receiveExit, State.sendStop,
    State.receiveRestart, State.receiveShutdown, State.answer, State.answerShutdown,
    Pc.remaining, Pc.request, StopFor.request]

/-- **The time a request takes**, measured in statements of `Run`, is bounded by what remains. -/
theorem Inv.run_remaining {r : ℕ} {policy : ProcessPolicy} {acts : List Act} (h : Inv s)
    (hs : Supervisor.run policy acts s = some s') (hr : s.receipt r ≠ none)
    (hr' : s'.pc.request = some r) :
    s.pc.request = some r ∧ s'.pc.remaining + runSteps acts ≤ s.pc.remaining := by
  induction acts generalizing s with
  | nil =>
    obtain rfl := Option.some.inj hs
    exact ⟨hr', by simp [runSteps]⟩
  | cons act acts ih =>
    obtain ⟨m, hm, hs⟩ := Option.bind_eq_some_iff.mp hs
    obtain ⟨hreq, hle⟩ := ih (h.step hm) hs (step_receipt hm hr)
    cases act with
    | run choice =>
      obtain ⟨hreq, hlt⟩ := h.runStep_remaining hm hr hreq
      refine ⟨hreq, ?_⟩
      simp only [runSteps, List.countP_cons_of_pos] at hle ⊢
      omega
    | outside event =>
      rw [(outsideStep_frame hm).1] at hreq hle
      exact ⟨hreq, by simpa [runSteps] using hle⟩

theorem Pc.remaining_pos (pc : Pc) : 0 < pc.remaining := by
  cases pc <;> simp [Pc.remaining]

theorem Pc.remaining_le (pc : Pc) : pc.remaining ≤ 11 := by
  cases pc <;> simp [Pc.remaining]

/-- Eleven statements of `Run` are enough for an answer. -/
theorem Inv.answered_within {r : ℕ} {policy : ProcessPolicy} {acts : List Act} (h : Inv s)
    (hs : Supervisor.run policy acts s = some s') (hr : s.receipt r ≠ none)
    (hn : 11 ≤ runSteps acts) : s'.pc.request ≠ some r := by
  intro hr'
  have hle := (h.run_remaining hs hr hr').2
  have := s'.pc.remaining_pos
  have := s.pc.remaining_le
  omega

/-! ### What a `Run` call does -/

/-- A statement that starts a child is executed when every exit was received. -/
theorem step_started {policy : ProcessPolicy} {act : Act} (hs : step policy s act = some s') :
    s'.started = s.started ∨ s.pc.cleared = true ∧ s'.started = s.started + 1 := by
  cases act with
  | run choice =>
    simp only [step, runStep] at hs
    split at hs
    all_goals grind -ring -linarith [State.goto, State.begin, State.store, State.receiveExit, State.sendStop,
      State.receiveRestart, State.receiveShutdown, State.answer, State.answerShutdown, Pc.cleared]
  | outside event => exact Or.inl (outsideStep_frame hs).2.2

/-- **What holds at every point of a `Run` call**, whatever the order of exits, requests and
cancellations and whatever starts and stops come to: at most one child runs; a child is started
when the exits of all earlier ones were received; a received restart request has one answer or
is in progress, and while it is, `Run` can go on and answers within eleven of its statements;
`nil` is answered after the child of the receipt has exited and another one was started; no stop
is sent for a request that was cancelled when it was received; and the health flag is up while
the exit of the child was not received, or is about to be lowered by the statement after the
receipt. -/
theorem run_supervises {policy : ProcessPolicy} {acts : List Act}
    (h : Supervisor.run policy acts {} = some s) :
    (∀ c d, c < s.started → d < s.started → s.exited c = false → s.exited d = false → c = d) ∧
    (∀ act s', Supervisor.step policy s act = some s' → s'.started ≠ s.started →
      s'.started = s.started + 1 ∧ ∀ c, c < s.started → s.received c = true) ∧
    (∀ r, s.receipt r ≠ none →
      (s.answers r).length = (if s.pc.request = some r then 0 else 1) ∧
      (s.pc.request = some r → ∃ choice s', Supervisor.runStep policy s choice = some s') ∧
      ∀ later s', Supervisor.run policy later s = some s' → 11 ≤ runSteps later →
        (s'.answers r).length = 1) ∧
    (∀ r, none ∈ s.answers r → ∃ rc, s.receipt r = some rc ∧ s.exited rc.child = true ∧
      rc.child + 1 < s.started) ∧
    (∀ r rc c, s.receipt r = some rc → rc.cancelled = true → (c, .restart r) ∉ s.stops) ∧
    (s.healthy = true → s.pc = .crashStore ∨ 0 < s.started ∧ s.received s.child = false) := by
  have hi : Inv s := inv_initial.run h
  refine ⟨?_, ?_, ?_, ?_, ?_, ?_⟩
  · intro c d hc hd hec hed
    -- A child that was received has exited, and only the latest may not have been received.
    have hlast : ∀ c, c < s.started → s.exited c = false → c + 1 = s.started := by
      intro c hc hec
      by_contra hne
      have hx := hi.exited c (hi.reported c (hi.earlier c (by omega)))
      simp [hx] at hec
    have := hlast c hc hec
    have := hlast d hd hed
    omega
  · intro act s' hs hne
    rcases step_started hs with heq | ⟨hc, heq⟩
    · exact absurd heq hne
    · exact ⟨heq, hi.cleared hc⟩
  · intro r hr
    refine ⟨?_, hi.runStep_enabled policy, ?_⟩
    · split_ifs with hreq
      · simp [(hi.pending r hreq).2.1]
      · exact hi.answered r hr hreq
    · intro later s' hs hn
      exact (hi.run hs).answered r (run_receipt hs hr) (hi.answered_within hs hr hn)
  · intro r hn
    obtain ⟨rc, hrc, hlt⟩ := hi.success r hn
    exact ⟨rc, hrc, hi.exited _ (hi.reported _ (hi.earlier _ hlt)), hlt⟩
  · intro r rc c hrc hcan hmem
    obtain ⟨rc', hrc', hcan'⟩ := hi.stops c r hmem
    obtain rfl : rc = rc' := Option.some.inj (hrc.symm.trans hrc')
    simp [hcan] at hcan'
  · intro hup
    have hm := hi.health hup
    by_cases hpc : s.pc = .crashStore
    · exact Or.inl hpc
    · refine Or.inr (hi.held ?_)
      cases hpc' : s.pc <;> simp_all [Pc.mayBeHealthy, Pc.holds]

/-- A restart that succeeds. -/
def restartActs : List Act :=
  [.run .startOk, .run .next, .outside (.offer 0), .run (.restart 0), .run .next, .run .next,
    .run .next, .outside (.childExit 0), .outside (.report 0), .run .exit, .run .next,
    .run .startOk, .run .timer, .run .next, .run .next]

theorem run_supervises_restart : ∃ s, run ⟨60, 5⟩ restartActs {} = some s ∧
    s.answers 0 = [none] ∧ s.started = 2 ∧ s.healthy = true ∧ s.received s.child = false ∧
    ∃ rc, s.receipt 0 = some rc ∧ s.exited rc.child = true := by
  obtain ⟨s, hs, ha, hst, hup, hpc⟩ : ∃ s, run ⟨60, 5⟩ restartActs {} = some s ∧
      s.answers 0 = [none] ∧ s.started = 2 ∧ s.healthy = true ∧ s.pc = .select :=
    ⟨_, rfl, rfl, rfl, rfl, rfl⟩
  obtain ⟨-, -, -, hnil, -, hh⟩ := run_supervises hs
  obtain ⟨rc, hrc, hx, -⟩ := hnil 0 (by simp [ha])
  rcases hh hup with hc | ⟨-, hrec⟩
  · simp [hpc] at hc
  · exact ⟨s, hs, ha, hst, hup, hrec, rc, hrc, hx⟩

/-- A child that crashes while `Run` waits. -/
def crashActs : List Act :=
  [.run .startOk, .run .next, .outside (.childExit 0), .outside (.report 0), .run .exit]

/-- Between the receipt of an exit and the statement after it the health flag is still up. -/
theorem not_healthy_only_while_held : ¬ ∀ policy acts s, run policy acts {} = some s →
    s.healthy = true → s.received s.child = false := by
  intro h
  have := h ⟨60, 5⟩ crashActs _ rfl rfl
  cases this

end EzOpenPN.Supervisor
