import EzOpenPN.Profiles.Repository
import EzOpenPN.Profiles.Links

/-!
# The world of the control plane, and the calls it makes

The control process changes two things that can disagree: its own database and the user
set of Xray. `EzOpenPN.World` holds both, together with the record of everything that
happened to them. It is what the operations of the coordinator are programs over.

## What can go wrong

A call to a runtime may be answered, may fail without having done anything, or may take
effect and lose its answer; and Xray may crash at any moment, which empties its user set.
All of that is decided by `EzOpenPN.Env.faults`, one entry per step, so that a statement
about every fault pattern is a statement about every environment. A database transaction
takes a step of its own – the database is reliable, but Xray may crash just before it.

An answered call still has to be accepted. `EzOpenPN.Env.strict` says whether the handler
service of Xray is the map it is documented to be – adding an e-mail it holds and removing
one it does not hold are both rejected – or accepts either, as the fakes of the test suite
do.

## The history

Every commit, every call that had an effect and every crash appends a moment to
`EzOpenPN.World.history`: what happened, and the tables and the user set right after it.
“At every later point” is a statement about the moments appended since.
-/

namespace EzOpenPN

/-! ### What Xray holds -/

/-- The user set of Xray: the user id held under each e-mail. -/
abbrev Users := AList fun _ : String => Uuid

/-- The status codes of a failed call. -/
inductive StatusCode where
  | cancelled
  | unknown
  | invalidArgument
  | deadlineExceeded
  | notFound
  | alreadyExists
  | permissionDenied
  | resourceExhausted
  | failedPrecondition
  | aborted
  | outOfRange
  | unimplemented
  | internal
  | unavailable
  | dataLoss
  | unauthenticated
  deriving DecidableEq, Repr

/-- `_UNAVAILABLE_CODES`. -/
def unavailableCodes : List StatusCode :=
  [.cancelled, .deadlineExceeded, .resourceExhausted, .unavailable]

/-- `_raise_rpc`: the exception a failed call to Xray becomes. -/
def rpcError (code : StatusCode) : PyError :=
  if code ∈ unavailableCodes then ⟨.runtimeUnavailable, "Xray runtime unavailable"⟩
  else ⟨.runtimeRejected, "Xray runtime rejected operation"⟩

/-! ### The environment -/

/-- What becomes of a call. -/
inductive Outcome where
  /-- The runtime executes the call and its answer arrives. -/
  | answered
  /-- The call fails and had no effect. -/
  | failed (code : StatusCode)
  /-- The call takes effect, but its caller sees a failure. -/
  | lost (code : StatusCode)
  deriving DecidableEq

/-- What the environment does at one step. -/
structure Fault where
  /-- Xray crashes just before the step. -/
  crash : Bool
  /-- What becomes of the call, if the step is one. -/
  outcome : Outcome
  deriving DecidableEq

/-- A step at which nothing goes wrong. -/
def Fault.none : Fault := ⟨false, .answered⟩

/-- **The environment of a control process**: its configuration, and everything it does not
decide itself. -/
structure Env where
  /-- The cipher of the installation. -/
  cipher : SecretCipher
  /-- The configuration of the links. -/
  links : TransportLinkConfig
  /-- Whether the interpreter puts a character into one of the `C` categories. -/
  control : Char → Bool
  /-- Whether the handler service rejects a held and an absent e-mail. -/
  strict : Bool
  /-- What happens at each step. -/
  faults : ℕ → Fault
  /-- The clock at each step. -/
  clock : ℕ → Time
  /-- Whether the coordinator was given a reconciler. -/
  reconciler : Bool
  /-- Whether the coordinator was given a health record. -/
  runtimeHealth : Bool

/-- The environment where nothing goes wrong from step `n` on. -/
def Env.QuietFrom (env : Env) (n : ℕ) : Prop := ∀ i, n ≤ i → env.faults i = Fault.none

/-- The environment where Xray does not crash from step `n` on. -/
def Env.NoCrashFrom (env : Env) (n : ℕ) : Prop := ∀ i, n ≤ i → (env.faults i).crash = false

/-! ### The world -/

/-- The calls the control process makes to the runtimes. -/
inductive RuntimeCall where
  | addUser (runtimeId : String) (userId : Uuid)
  | removeUser (runtimeId : String)
  | listUsers
  | waitReady
  | restart
  | kick (runtimeId : String)
  deriving DecidableEq

/-- The transactions of the repository. -/
inductive Transaction where
  | insertPending (profileId : Uuid)
  | setState (profileId : Uuid) (state : ProfileState)
  | setRuntimeError (profileId : Uuid)
  | deleteLocal (profileId : Uuid)
  deriving DecidableEq

/-- What can happen. -/
inductive Event where
  /-- A transaction committed. -/
  | committed (transaction : Transaction)
  /-- A call took effect and its caller was told so. -/
  | acknowledged (call : RuntimeCall)
  /-- A call took effect and its caller was told that it failed. -/
  | unacknowledged (call : RuntimeCall)
  /-- Xray crashed. -/
  | crashed
  deriving DecidableEq

/-- A moment: what happened, and what the two stores held right after it. -/
structure Moment where
  event : Event
  tables : Tables
  users : Users

/-- `RuntimeHealthSnapshot`. -/
structure RuntimeHealthSnapshot where
  ready : Bool
  errorCode : Option String
  deriving DecidableEq

/-- **The world of a control process**: the tables, the user set of Xray, the health record,
the number of steps taken and the moments passed, latest first. -/
structure World where
  tables : Tables
  users : Users
  health : RuntimeHealthSnapshot
  step : ℕ
  history : List Moment

/-- The computations of the control process. -/
abbrev Py := Prog World PyError

namespace World

/-- Append a moment to the history. -/
def record (e : Event) (w : World) : World :=
  { w with history := ⟨e, w.tables, w.users⟩ :: w.history }

/-- Lose the user set to a crash. -/
def crash (w : World) : World := record .crashed { w with users := ∅ }

/-- Enter the next step: Xray may crash before it. -/
def arrive (env : Env) (w : World) : World :=
  if (env.faults w.step).crash then { w.crash with step := w.step + 1 }
  else { w with step := w.step + 1 }

variable {env : Env} {w : World} {e : Event}

@[simp] theorem record_tables : (w.record e).tables = w.tables := rfl

@[simp] theorem record_users : (w.record e).users = w.users := rfl

@[simp] theorem record_health : (w.record e).health = w.health := rfl

@[simp] theorem record_step : (w.record e).step = w.step := rfl

@[simp] theorem record_history :
    (w.record e).history = ⟨e, w.tables, w.users⟩ :: w.history := rfl

@[simp] theorem arrive_tables : (w.arrive env).tables = w.tables := by
  rw [arrive]
  split <;> rfl

@[simp] theorem arrive_step : (w.arrive env).step = w.step + 1 := by
  rw [arrive]
  split <;> rfl

theorem arrive_of_noCrash (h : (env.faults w.step).crash = false) :
    w.arrive env = { w with step := w.step + 1 } := by
  rw [arrive, h]
  rfl

end World

/-! ### Steps -/

section Steps

variable (env : Env)

/-- A transaction of the repository: it commits as a whole or leaves no trace. -/
def transaction {α : Type} (label : Transaction)
    (body : Time → Tables → Except PyError (α × Tables)) : Py α := fun w =>
  match body (env.clock w.step) (w.arrive env).tables with
  | .ok (a, tables) => (.ok a, ({ w.arrive env with tables := tables }).record (.committed label))
  | .error e => (.error e, w.arrive env)

/-- A call to a runtime, with the effect it has on the user set; the runtime may reject it. -/
def runtimeCall (call : RuntimeCall) (error : StatusCode → PyError)
    (effect : Users → Option Users) : Py Unit := fun w =>
  match (env.faults w.step).outcome, effect (w.arrive env).users with
  | .answered, some users =>
    (.ok (), ({ w.arrive env with users := users }).record (.acknowledged call))
  | .answered, none => (.error (error .unknown), w.arrive env)
  | .failed code, _ => (.error (error code), w.arrive env)
  | .lost code, some users =>
    (.error (error code), ({ w.arrive env with users := users }).record (.unacknowledged call))
  | .lost code, none => (.error (error code), w.arrive env)

/-! ### The clients -/

/-- The effect of `AddUserOperation` on the user set. -/
def addUserEffect (email : String) (userId : Uuid) (users : Users) : Option Users :=
  if env.strict && decide (email ∈ users) then none else some (users.insert email userId)

/-- The effect of `RemoveUserOperation` on the user set. -/
def removeUserEffect (email : String) (users : Users) : Option Users :=
  if env.strict && !decide (email ∈ users) then none else some (users.erase email)

/-- `GrpcXrayClient.add_user`. -/
def addUser (runtimeId : String) (userId : Uuid) : Py Unit :=
  if matchesRuntimeId runtimeId then
    runtimeCall env (.addUser runtimeId userId) rpcError (addUserEffect env runtimeId userId)
  else Prog.raise ⟨.invalidRuntimeIdentifier, "runtime identifier is invalid"⟩

/-- `GrpcXrayClient.remove_user`. -/
def removeUser (runtimeId : String) : Py Unit :=
  if matchesRuntimeId runtimeId then
    runtimeCall env (.removeUser runtimeId) rpcError (removeUserEffect env runtimeId)
  else Prog.raise ⟨.invalidRuntimeIdentifier, "runtime identifier is invalid"⟩

/-- `GrpcXrayClient.list_users`. -/
def listUsers : Py (List String) := do
  runtimeCall env .listUsers rpcError some
  let w ← Prog.read
  return w.users.keys

/-- `GrpcXrayClient.wait_ready`, as one call: the probes it makes have no effect. -/
def waitReady : Py Unit := runtimeCall env .waitReady rpcError some

/-- `UnixXraySupervisorClient.restart`: Xray comes back with no users. -/
def restart : Py Unit :=
  runtimeCall env .restart
    (fun _ => ⟨.supervisorUnavailable, "Xray supervisor unavailable"⟩) fun _ => some ∅

/-- `HttpHysteriaClient.kick`. -/
def kick (runtimeId : String) : Py Unit :=
  if matchesRuntimeId runtimeId then
    runtimeCall env (.kick runtimeId)
      (fun _ => ⟨.hysteriaRuntimeUnavailable, "Hysteria2 runtime unavailable"⟩) some
  else Prog.raise ⟨.invalidHysteriaRuntimeIdentifier, "runtime identifier is invalid"⟩

/-! ### The repository as seen by the coordinator -/

/-- `ProfileRepository.get`. -/
def repositoryGet (profileId : Uuid) : Py ProfileRecord := do
  let w ← Prog.read
  Prog.ofExcept (w.tables.get profileId)

/-- `ProfileRepository.list`. -/
def repositoryList : Py (List ProfileRecord) := do
  let w ← Prog.read
  return w.tables.list

/-- `ProfileRepository.set_state`. -/
def repositorySetState (profileId : Uuid) (state : ProfileState) (errorCode : Option String) :
    Py ProfileRecord :=
  transaction env (.setState profileId state) fun timestamp t =>
    t.setState timestamp profileId state errorCode

/-- `ProfileRepository.set_runtime_error`. -/
def repositorySetRuntimeError (profileId : Uuid) (errorCode : String) : Py ProfileRecord :=
  transaction env (.setRuntimeError profileId) fun timestamp t =>
    t.setRuntimeError timestamp profileId errorCode

/-- `ProfileRepository.insert_pending`. -/
def repositoryInsertPending (material : NewProfileMaterial) : Py ProfileRecord :=
  transaction env (.insertPending material.profileId) fun timestamp t =>
    t.insertPending timestamp material

/-- `ProfileRepository.delete_local`. -/
def repositoryDeleteLocal (profileId : Uuid) : Py Unit :=
  transaction env (.deleteLocal profileId) fun _ t => t.deleteLocal profileId

end Steps

/-! ### What a step can do -/

section Specs

open Prog

variable {env : Env} {w : World} {R : PyError → World → Prop}

/-- **What a transaction can do**: commit the tables its body computed, or raise what its body
raised. -/
theorem wp_transaction {α : Type} {label : Transaction}
    {body : Time → Tables → Except PyError (α × Tables)} {Q : α → World → Prop} :
    wp (transaction env label body) Q R w ↔
      (∀ a t, body (env.clock w.step) w.tables = .ok (a, t) →
        Q a (({ w.arrive env with tables := t }).record (.committed label))) ∧
      ∀ e, body (env.clock w.step) w.tables = .error e → R e (w.arrive env) := by
  rcases h : body (env.clock w.step) w.tables with e | ⟨a, t⟩
  · simp [wp, transaction, h]
  · simp [wp, transaction, h]

/-- **What a call can do**: take effect and be acknowledged, take effect without being
acknowledged, or fail and change nothing. -/
theorem wp_runtimeCall {call : RuntimeCall} {error : StatusCode → PyError}
    {effect : Users → Option Users} {Q : Unit → World → Prop} :
    wp (runtimeCall env call error effect) Q R w ↔
      (∀ u, (env.faults w.step).outcome = .answered → effect (w.arrive env).users = some u →
        Q () (({ w.arrive env with users := u }).record (.acknowledged call))) ∧
      ((env.faults w.step).outcome = .answered → effect (w.arrive env).users = none →
        R (error .unknown) (w.arrive env)) ∧
      (∀ code, (env.faults w.step).outcome = .failed code → R (error code) (w.arrive env)) ∧
      (∀ code u, (env.faults w.step).outcome = .lost code →
        effect (w.arrive env).users = some u →
        R (error code) (({ w.arrive env with users := u }).record (.unacknowledged call))) ∧
      ∀ code, (env.faults w.step).outcome = .lost code → effect (w.arrive env).users = none →
        R (error code) (w.arrive env) := by
  rcases ho : (env.faults w.step).outcome with _ | code | code <;>
    rcases he : effect (w.arrive env).users with _ | u <;> simp [wp, runtimeCall, ho, he]

/-- A call at a step where nothing goes wrong is acknowledged or rejected by the runtime
itself. -/
theorem wp_runtimeCall_quiet {call : RuntimeCall} {error : StatusCode → PyError}
    {effect : Users → Option Users} {Q : Unit → World → Prop}
    (h : env.faults w.step = Fault.none) :
    wp (runtimeCall env call error effect) Q R w ↔
      (∀ u, effect w.users = some u → Q ()
        (({ w with users := u, step := w.step + 1 } : World).record (.acknowledged call))) ∧
      (effect w.users = none → R (error .unknown) { w with step := w.step + 1 }) := by
  have harr : w.arrive env = { w with step := w.step + 1 } :=
    World.arrive_of_noCrash (by rw [h]; rfl)
  rw [wp_runtimeCall, harr, h]
  simp [Fault.none]

@[simp] theorem wp_repositoryGet {profileId : Uuid} {Q : ProfileRecord → World → Prop} :
    wp (repositoryGet profileId) Q R w ↔
      (∀ r, w.tables.get profileId = .ok r → Q r w) ∧
      ∀ e, w.tables.get profileId = .error e → R e w := by
  simp [repositoryGet]

@[simp] theorem wp_repositoryList {Q : List ProfileRecord → World → Prop} :
    wp repositoryList Q R w ↔ Q w.tables.list w := by
  simp [repositoryList]

end Specs

end EzOpenPN
