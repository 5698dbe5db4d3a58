import Mathlib

/-!
# The process manager of Xray

`ProcessManager.Run` is one goroutine that owns one child process. It waits for five things at
once – its context, a shutdown request, a restart request, the exit of the child, and inside a
restart the timer that calls the new child stable – and every branch has to leave child, exit
channel and health flag fitting together.

The model is `Run` statement by statement. `EzOpenPN.Supervisor.Pc` names the statement that is
executed next, and one execution of a statement is one step; everybody else – the children, the
goroutines that wait for them, the callers of `Restart` and `Shutdown`, the contexts – takes its
steps in between, in any order. What a statement cannot decide itself is part of the step:
whether a start succeeds, which ready case a `select` takes, when a timer fires, what the clock
says.

Children are numbered in the order they are started, so the child `Run` holds is always the
latest. Requests are numbered as their callers make them. A few components record the past
only: what was true when a request was received, the answers it got, and which stop was sent to
which child.
-/

namespace EzOpenPN.Supervisor

/-- The errors of the process manager. -/
inductive ProcessError where
  | childStart
  | childStop
  | childUnstable
  | repeatedFailures
  | restartCanceled
  deriving DecidableEq, Repr

/-- What is sent to a caller: an error, or `nil`. -/
abbrev Answer := Option ProcessError

/-! ### The crash budget -/

/-- The part of `processPolicy` that is not a timer. -/
structure ProcessPolicy where
  failureWindow : ℤ
  maxFailures : ℤ
  deriving DecidableEq

/-- `recordFailure`, at a given time: the failures inside the window with the new one, and
whether there are too many. -/
def recordFailure (policy : ProcessPolicy) (failures : List ℤ) (now : ℤ) : List ℤ × Bool :=
  let cutoff := now - policy.failureWindow
  let kept := failures.filter (fun failure => cutoff < failure) ++ [now]
  (kept, decide (policy.maxFailures < kept.length))

/-! ### The state -/

/-- Who asked for a stop. -/
inductive StopFor where
  | context
  | shutdown (q : ℕ)
  | restart (r : ℕ)
  deriving DecidableEq

/-- **The statement `Run` executes next.** -/
inductive Pc where
  /-- `child, exited, err := manager.startChild()`. -/
  | start
  /-- `manager.healthy.Store(true)` after a start. -/
  | markHealthy
  /-- The `select` of the loop. -/
  | select
  /-- `manager.healthy.Store(false)` on the exit of the child. -/
  | crashStore
  /-- `failures, exceeded = manager.recordFailure(failures)`. -/
  | recordFailure
  /-- `startChild` after a failure. -/
  | replace
  /-- `if request.ctx.Err() != nil`. -/
  | checkCancel (r : ℕ)
  /-- `request.response <- ErrRestartCanceled; continue`. -/
  | answerCancel (r : ℕ)
  /-- `stopChild`: `manager.healthy.Store(false)`. -/
  | stopStore (why : StopFor)
  /-- `stopChild`: `child.Signal(signal)`. -/
  | stopSignal (why : StopFor)
  /-- `stopChild`: the first `select`. -/
  | stopWait (why : StopFor)
  /-- `stopChild`: `child.Kill()`. -/
  | stopKill (why : StopFor)
  /-- `stopChild`: the second `select`. -/
  | stopKillWait (why : StopFor)
  /-- The statement after `stopChild` has returned. -/
  | stopped (why : StopFor) (err : Answer)
  /-- `startChild` in a restart. -/
  | restart (r : ℕ)
  /-- `request.response <- err` after a failed start. -/
  | answerStart (r : ℕ)
  /-- The `select` of a restart. -/
  | stable (r : ℕ)
  /-- `manager.healthy.Store(true)` of a restart. -/
  | stableStore (r : ℕ)
  /-- `request.response <- nil`. -/
  | answerNil (r : ℕ)
  /-- `manager.healthy.Store(false)` of a restart. -/
  | unstableStore (r : ℕ)
  /-- `request.response <- ErrChildUnstable`. -/
  | answerUnstable (r : ℕ)
  /-- `request.response <- ErrRestartCanceled` when the context ends in a restart. -/
  | answerAbandoned (r : ℕ)
  /-- The deferred `manager.healthy.Store(false)`. -/
  | leave (err : Answer)
  /-- `Run` has returned. -/
  | returned (err : Answer)
  deriving DecidableEq

/-- What was true when `Run` received a restart request. -/
structure Receipt where
  /-- The child `Run` held. -/
  child : ℕ
  /-- Whether the context of the request had ended. -/
  cancelled : Bool
  deriving DecidableEq

/-- **The state of a `Run` call and of everybody it deals with.** -/
structure State where
  pc : Pc := .start
  failures : List ℤ := []
  healthy : Bool := false
  /-- The context of `Run` has ended. -/
  contextDone : Bool := false
  /-- The number of children started. -/
  started : ℕ := 0
  /-- The child process has ended. -/
  exited : ℕ → Bool := fun _ => false
  /-- `waitForChild` has put the result of `Wait` into the exit channel. -/
  reported : ℕ → Bool := fun _ => false
  /-- `Run` has received it. -/
  received : ℕ → Bool := fun _ => false
  /-- `Restart` is offering its request. -/
  offered : ℕ → Bool := fun _ => false
  /-- The context of the request has ended. -/
  cancelled : ℕ → Bool := fun _ => false
  /-- The response channel of the request, of capacity one. -/
  response : ℕ → Option Answer := fun _ => none
  /-- `Shutdown` is offering its request. -/
  shutdownOffered : ℕ → Bool := fun _ => false
  /-- `Run` has received the shutdown request. -/
  shutdownReceived : ℕ → Bool := fun _ => false
  /-- The response channel of the shutdown request, of capacity one. -/
  shutdownResponse : ℕ → Option Answer := fun _ => none
  /-- What was true when `Run` received the request. -/
  receipt : ℕ → Option Receipt := fun _ => none
  /-- The answers `Run` has sent to the request. -/
  answers : ℕ → List Answer := fun _ => []
  /-- The stops `Run` has sent, each with its child. -/
  stops : List (ℕ × StopFor) := []

namespace State

/-- The child `Run` holds: the latest that was started. -/
def child (s : State) : ℕ := s.started - 1

/-- The exit channel of that child has something to receive. -/
def exitReady (s : State) : Bool := s.reported s.child && !s.received s.child

/-- Move on to a statement. -/
def goto (s : State) (pc : Pc) : State := { s with pc := pc }

/-- A child was started. -/
def begin (s : State) (pc : Pc) : State := { s with pc := pc, started := s.started + 1 }

/-- `<-exited`. -/
def receiveExit (s : State) (pc : Pc) : State :=
  { s with pc := pc, received := Function.update s.received s.child true }

/-- `manager.healthy.Store(value)`. -/
def store (s : State) (value : Bool) (pc : Pc) : State := { s with pc := pc, healthy := value }

/-- `child.Signal` or `child.Kill`; what it returns is dropped. -/
def sendStop (s : State) (why : StopFor) (pc : Pc) : State :=
  { s with pc := pc, stops := (s.child, why) :: s.stops }

/-- `request := <-manager.restartRequests`. -/
def receiveRestart (s : State) (r : ℕ) (pc : Pc) : State :=
  { s with
    pc := pc
    offered := Function.update s.offered r false
    receipt := Function.update s.receipt r (some ⟨s.child, s.cancelled r⟩) }

/-- `request := <-manager.shutdownRequests`. -/
def receiveShutdown (s : State) (q : ℕ) (pc : Pc) : State :=
  { s with
    pc := pc
    shutdownOffered := Function.update s.shutdownOffered q false
    shutdownReceived := Function.update s.shutdownReceived q true }

/-- `request.response <- answer`: it blocks while the channel is full. -/
def answer (s : State) (r : ℕ) (answer : Answer) (pc : Pc) : Option State :=
  if s.response r = none then
    some { s with
      pc := pc
      response := Function.update s.response r (some answer)
      answers := Function.update s.answers r (s.answers r ++ [answer]) }
  else none

/-- The same for a shutdown request. -/
def answerShutdown (s : State) (q : ℕ) (answer : Answer) (pc : Pc) : Option State :=
  if s.shutdownResponse q = none then
    some { s with pc := pc, shutdownResponse := Function.update s.shutdownResponse q (some answer) }
  else none

end State

/-! ### The steps of `Run` -/

/-- What a statement of `Run` leaves to others. -/
inductive Choice where
  /-- Nothing: the statement has one outcome. -/
  | next
  /-- `Start` returned a child. -/
  | startOk
  /-- `Start` returned an error. -/
  | startErr
  /-- A `select` took its context case. -/
  | context
  /-- The `select` of the loop took a shutdown request. -/
  | shutdown (q : ℕ)
  /-- The `select` of the loop took a restart request. -/
  | restart (r : ℕ)
  /-- A `select` took its exit case. -/
  | exit
  /-- A `select` took its timer case. -/
  | timer
  /-- `time.Now()` returned this. -/
  | clock (now : ℤ)
  deriving DecidableEq

/-- **One statement of `Run`**; a choice the statement does not have, or that is not ready, is no
step. -/
def runStep (policy : ProcessPolicy) (s : State) (choice : Choice) : Option State :=
  match s.pc, choice with
  | .start, .startOk => some (s.begin .markHealthy)
  | .start, .startErr => some (s.goto (.returned (some .childStart)))
  | .markHealthy, .next => some (s.store true .select)
  | .select, .context => if s.contextDone then some (s.goto (.stopStore .context)) else none
  | .select, .shutdown q =>
    if s.shutdownOffered q then some (s.receiveShutdown q (.stopStore (.shutdown q))) else none
  | .select, .restart r =>
    if s.offered r then some (s.receiveRestart r (.checkCancel r)) else none
  | .select, .exit => if s.exitReady then some (s.receiveExit .crashStore) else none
  | .crashStore, .next => some (s.store false .recordFailure)
  | .recordFailure, .clock now =>
    let (failures, exceeded) := recordFailure policy s.failures now
    some { s with
      pc := if exceeded then .leave (some .repeatedFailures) else .replace
      failures := failures }
  | .replace, .startOk => some (s.begin .markHealthy)
  | .replace, .startErr => some (s.goto (.leave (some .childStart)))
  | .checkCancel r, .next =>
    some (s.goto (if s.cancelled r then .answerCancel r else .stopStore (.restart r)))
  | .answerCancel r, .next => s.answer r (some .restartCanceled) .select
  | .stopStore why, .next => some (s.store false (.stopSignal why))
  | .stopSignal why, .next => some (s.sendStop why (.stopWait why))
  | .stopWait why, .exit => if s.exitReady then some (s.receiveExit (.stopped why none)) else none
  | .stopWait why, .timer => some (s.goto (.stopKill why))
  | .stopKill why, .next => some (s.sendStop why (.stopKillWait why))
  | .stopKillWait why, .exit =>
    if s.exitReady then some (s.receiveExit (.stopped why none)) else none
  | .stopKillWait why, .timer => some (s.goto (.stopped why (some .childStop)))
  | .stopped .context err, .next => some (s.goto (.leave err))
  | .stopped (.shutdown q) err, .next => s.answerShutdown q err (.leave err)
  | .stopped (.restart r) none, .next => some (s.goto (.restart r))
  | .stopped (.restart r) (some err), .next => s.answer r (some err) (.leave (some err))
  | .restart r, .startOk => some (s.begin (.stable r))
  | .restart r, .startErr => some (s.goto (.answerStart r))
  | .answerStart r, .next => s.answer r (some .childStart) (.leave (some .childStart))
  | .stable r, .timer => some (s.goto (.stableStore r))
  | .stable r, .exit => if s.exitReady then some (s.receiveExit (.unstableStore r)) else none
  | .stable r, .context => if s.contextDone then some (s.goto (.answerAbandoned r)) else none
  | .stableStore r, .next => some (s.store true (.answerNil r))
  | .answerNil r, .next => s.answer r none .select
  | .unstableStore r, .next => some (s.store false (.answerUnstable r))
  | .answerUnstable r, .next => s.answer r (some .childUnstable) .recordFailure
  | .answerAbandoned r, .next => s.answer r (some .restartCanceled) (.stopStore .context)
  | .leave err, .next => some (s.store false (.returned err))
  | _, _ => none

/-! ### The steps of everybody else -/

/-- What happens around `Run`. -/
inductive Outside where
  /-- A child process ends. -/
  | childExit (c : ℕ)
  /-- The goroutine of `waitForChild` sends the result of `Wait`. -/
  | report (c : ℕ)
  /-- `Restart` offers a request. -/
  | offer (r : ℕ)
  /-- `Restart` gives up before its request was received. -/
  | withdraw (r : ℕ)
  /-- The context of a restart request ends. -/
  | cancel (r : ℕ)
  /-- `Restart` receives its answer. -/
  | take (r : ℕ)
  /-- `Shutdown` offers a request. -/
  | offerShutdown (q : ℕ)
  /-- `Shutdown` gives up before its request was received. -/
  | withdrawShutdown (q : ℕ)
  /-- `Shutdown` receives its answer. -/
  | takeShutdown (q : ℕ)
  /-- The context of `Run` ends. -/
  | cancelContext
  deriving DecidableEq

/-- One step of the surroundings. -/
def outsideStep (s : State) : Outside → Option State
  | .childExit c =>
    if c < s.started ∧ s.exited c = false then
      some { s with exited := Function.update s.exited c true }
    else none
  | .report c =>
    if s.exited c = true ∧ s.reported c = false then
      some { s with reported := Function.update s.reported c true }
    else none
  | .offer r =>
    if s.receipt r = none then some { s with offered := Function.update s.offered r true } else none
  | .withdraw r => some { s with offered := Function.update s.offered r false }
  | .cancel r => some { s with cancelled := Function.update s.cancelled r true }
  | .take r => some { s with response := Function.update s.response r none }
  | .offerShutdown q =>
    if s.shutdownReceived q = false then
      some { s with shutdownOffered := Function.update s.shutdownOffered q true }
    else none
  | .withdrawShutdown q =>
    some { s with shutdownOffered := Function.update s.shutdownOffered q false }
  | .takeShutdown q =>
    some { s with shutdownResponse := Function.update s.shutdownResponse q none }
  | .cancelContext => some { s with contextDone := true }

/-- A step: a statement of `Run`, or something around it. -/
inductive Act where
  | run (choice : Choice)
  | outside (event : Outside)
  deriving DecidableEq

/-- One step of the whole. -/
def step (policy : ProcessPolicy) (s : State) : Act → Option State
  | .run choice => runStep policy s choice
  | .outside event => outsideStep s event

/-- **A run of any length**, from a given state. -/
def run (policy : ProcessPolicy) : List Act → State → Option State
  | [], s => some s
  | act :: acts, s => (step policy s act).bind (run policy acts)

end EzOpenPN.Supervisor
