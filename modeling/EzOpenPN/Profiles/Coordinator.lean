import EzOpenPN.Profiles.Reconcile

/-!
# The profile coordinator

The five operations of `ProfileCoordinator`, each a sequence of repository transactions and
runtime calls. They run one at a time: every one of them is `_serialized` under one
re-entrant lock, which recovery and the deletion enter again on the same thread. That is
why an operation is one program here, and a run of the coordinator a sequence of them.

Two habits of the source decide what follows a failure. A guarded call is run for its
effect and its failure is only remembered – `EzOpenPN.attempted` threads the flag that
`disable` keeps in `incomplete` – and a provisioning that fails compensates as well as it
can (`suppress`), marks the profile and reconciles, and only then raises.
-/

namespace EzOpenPN

open Prog

/-- `_XRAY_ADD_FAILED`. -/
def xrayAddFailed : String := "xray_add_failed"

/-- `_RUNTIME_REVOKE_INCOMPLETE`. -/
def runtimeRevokeIncomplete : String := "runtime_revoke_incomplete"

/-- `_PROFILE_MATERIAL_INVALID`. -/
def profileMaterialInvalid : String := "profile_material_invalid"

/-- `_result`. -/
def profileResult (record : ProfileRecord) (subscriptionToken : Option String)
    (links : Option LinkBundle) : ProfileResult where
  profileId := record.id
  name := record.name
  state := record.state
  runtimeId := record.runtimeId
  subscriptionToken := subscriptionToken
  linkBundle := links

/-- `ProfileCoordinator._user_id`. -/
def coordinatorUserId (cipher : SecretCipher) (record : ProfileRecord) : Except PyError Uuid :=
  readUserId ⟨.profileMaterialUnavailable, "profile material is unavailable"⟩ cipher record

/-- Run a guarded call and remember whether anything has failed so far. -/
def attempted (incomplete : Bool) (call : Py Unit) : Py Bool := do
  let done ← succeeds call
  return incomplete || !done

section Operations

variable (env : Env)

/-- `ProfileCoordinator.reconcile`. -/
def reconcile : Py ReconcileResult := do
  let result ← if env.reconciler then reconcilerRun env else pure {}
  if env.runtimeHealth then updateHealth result
  return result

/-- `ProfileCoordinator._reconcile_after_error`. -/
def reconcileAfterError : Py Unit := suppress (reconcile env)

/-- `ProfileCoordinator._mark_error`. -/
def markError (profileId : Uuid) (errorCode : String) : Py Unit :=
  suppress (do
    let current ← repositoryGet profileId
    if current.state = .disabled then
      repositorySetRuntimeError env profileId errorCode
    else
      repositorySetState env profileId .error (some errorCode))

/-- Add the user of a record to Xray: the user id is decrypted first. -/
def addRecord (record : ProfileRecord) : Py Unit := do
  let userId ← ofExcept (coordinatorUserId env.cipher record)
  addUser env record.runtimeId.text userId

/-- The body that `create` and `enable` share: add the user, commit the active state, build
the links. -/
def activate (record : ProfileRecord) : Py (ProfileRecord × LinkBundle) := do
  addRecord env record
  let active ← repositorySetState env record.id .active none
  let links ← ofExcept (bundleForRecord env.cipher env.links active)
  return (active, links)

/-- What `create` and `enable` do when that body raises: take the user out again, mark the
profile, reconcile, and raise. -/
def compensate {α : Type} (record : ProfileRecord) (failure : PyError) : Py α := do
  suppress (removeUser env record.runtimeId.text)
  markError env record.id xrayAddFailed
  reconcileAfterError env
  raise failure

/-- **`ProfileCoordinator.create`.** -/
def create (name : String) (draw : Draw) : Py ProfileResult := do
  let (pending, token) ← serviceCreate env name draw
  let record ← repositoryGet pending.id
  let (active, links) ← tryExcept (activate env record) fun _ =>
    compensate env record ⟨.profileProvisioningFailed, "profile provisioning failed"⟩
  return profileResult active (some token) (some links)

/-- `ProfileCoordinator._prepare_disabled`. -/
def prepareDisabled (profileId : Uuid) : Py ProfileRecord := do
  let current ← repositoryGet profileId
  let current ← if current.state = .pending then repositorySetState env profileId .error none
    else pure current
  repositorySetState env current.id .disabled none

/-- The runtime calls of `disable`: kick, remove, restart, wait, and add every active profile
again. The flag tells whether any of them failed. -/
def revokeRuntime (disabled : ProfileRecord) : Py Bool := do
  let incomplete ← attempted false (kick env disabled.runtimeId.text)
  let incomplete ← attempted incomplete (removeUser env disabled.runtimeId.text)
  let incomplete ← attempted incomplete (restart env)
  let incomplete ← attempted incomplete (waitReady env)
  let records ← repositoryList
  foldEach records (fun incomplete active =>
    if active.state ≠ .active then pure incomplete
    else attempted incomplete (addRecord env active)) incomplete

/-- **`ProfileCoordinator.disable`.** -/
def disable (profileId : Uuid) : Py ProfileResult := do
  let disabled ← prepareDisabled env profileId
  let incomplete ← revokeRuntime env disabled
  if incomplete then
    let _ ← repositorySetRuntimeError env disabled.id runtimeRevokeIncomplete
    reconcileAfterError env
    raise ⟨.profileRevocationFailed, "profile revocation incomplete"⟩
  else
    let record ← repositoryGet disabled.id
    return profileResult record none none

/-- **`ProfileCoordinator.enable`.** -/
def enable (profileId : Uuid) : Py ProfileResult := do
  let current ← repositoryGet profileId
  let current ← if current.state = .error then repositorySetState env profileId .pending none
    else pure current
  if current.state ≠ .pending ∧ current.state ≠ .disabled then
    raise ⟨.invalidProfileTransition, "profile cannot be enabled"⟩
  else
    let (active, links) ← tryExcept (activate env current) fun _ =>
      compensate env current ⟨.profileEnableFailed, "profile enable failed"⟩
    return profileResult active none (some links)

/-- **`ProfileCoordinator.delete`.** The checkpoint of the write-ahead log that follows the
deletion changes no table. -/
def delete (profileId : Uuid) : Py Unit :=
  tryExcept (do
    let _ ← disable env profileId
    repositoryDeleteLocal env profileId)
  fun e =>
    if e.kind = .profileRevocationFailed ∨ e.kind = .profileNotFound then raise e
    else do
      markError env profileId profileMaterialInvalid
      reconcileAfterError env
      raise ⟨.profileDeleteFailed, "profile deletion failed"⟩

end Operations

end EzOpenPN
