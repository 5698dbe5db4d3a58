import EzOpenPN.Profiles.Service

/-!
# Reconciliation

`RuntimeReconciler.run` makes the user set of Xray what the database says it should be:
the active profiles, each under its runtime identifier. It reads both sides, removes what
should not be there, and adds what is missing. Removing a user does not close the sessions
it has, so a run that removed anything restarts Xray, which empties it, and adds every
active profile again.

The whole run is one `try`: an exception anywhere in it – the first active profile whose
material does not decrypt, a rejected call – ends the run with an error code.
-/

namespace EzOpenPN

open Prog

/-- `ReconcileResult`. -/
structure ReconcileResult where
  added : List String := []
  removed : List String := []
  restarted : Bool := false
  errorCode : Option String := none
  deriving DecidableEq

/-- `_RECONCILE_FAILED`. -/
def reconcileFailed : String := "runtime_reconcile_failed"

/-- The health record before anything has been reconciled. -/
def initialHealth : RuntimeHealthSnapshot := ⟨false, some reconcileFailed⟩

/-- `RuntimeHealth.update`. -/
def updateHealth (result : ReconcileResult) : Py Unit :=
  modify fun w => { w with health := ⟨result.errorCode.isNone, result.errorCode⟩ }

/-- The reconciler's `_user_id`. -/
def reconcilerUserId (cipher : SecretCipher) (record : ProfileRecord) : Except PyError Uuid :=
  readUserId ⟨.valueError, "profile material is unavailable"⟩ cipher record

/-- `sorted` of a collection of texts. -/
def sortedTexts (l : List String) : List String := l.insertionSort (· ≤ ·)

/-- The active records, in the order of the repository. -/
def activeRecords (t : Tables) : List ProfileRecord := t.list.filter fun r => r.state = .active

/-- The dictionary of the users that should be there, built record by record: the first
record whose material does not decrypt ends the run. -/
def desiredUsers (cipher : SecretCipher) : List ProfileRecord → Users → Except PyError Users
  | [], desired => .ok desired
  | record :: rest, desired => do
    let userId ← reconcilerUserId cipher record
    desiredUsers cipher rest (desired.insert record.runtimeId.text userId)

/-- Add the user the dictionary holds under a runtime identifier. -/
def addDesired (env : Env) (desired : Users) (runtimeId : String) : Py Unit :=
  match desired.lookup runtimeId with
  | some userId => addUser env runtimeId userId
  | none => raise ⟨.keyError, runtimeId⟩

/-- What the run has to add: the desired identifiers Xray does not hold. -/
def missingIds (desired : Users) (current : List String) : List String :=
  sortedTexts (desired.keys.filter fun r => r ∉ current)

/-- What the run has to remove: the identifiers Xray holds that are not desired. -/
def extraIds (desired : Users) (current : List String) : List String :=
  sortedTexts (current.filter fun r => r ∉ desired.keys)

/-- The changes of a run, once both sides have been read. -/
def applyDifference (env : Env) (active : List ProfileRecord) (desired : Users)
    (current : List String) : Py ReconcileResult := do
  let missing := missingIds desired current
  let extra := extraIds desired current
  forEach extra fun runtimeId => removeUser env runtimeId
  let restarted := !extra.isEmpty
  if restarted then
    restart env
    waitReady env
    forEach active fun record => addDesired env desired record.runtimeId.text
  else
    forEach missing fun runtimeId => addDesired env desired runtimeId
  return { added := missing, removed := extra, restarted := restarted }

/-- **`RuntimeReconciler.run`.** -/
def reconcilerRun (env : Env) : Py ReconcileResult :=
  tryExcept (do
    let records ← repositoryList
    let active := records.filter fun r => r.state = .active
    let desired ← ofExcept (desiredUsers env.cipher active ∅)
    let current ← listUsers env
    applyDifference env active desired current)
  fun _ => pure { errorCode := some reconcileFailed }

/-! ### The desired users -/

section Desired

variable {cipher : SecretCipher}

/-- The dictionary is built exactly when the material of every record decrypts. -/
theorem desiredUsers_isOk {l : List ProfileRecord} : ∀ {d : Users},
    (∃ d', desiredUsers cipher l d = .ok d') ↔ ∀ r ∈ l, ∃ u, storedUserId cipher r = some u := by
  induction l with
  | nil => simp [desiredUsers]
  | cons r rest ih =>
    intro d
    simp only [desiredUsers, Except.bind_eq_ok, reconcilerUserId, readUserId_eq_ok,
      List.mem_cons, forall_eq_or_imp]
    constructor
    · rintro ⟨d', u, hu, hd⟩
      exact ⟨⟨u, hu⟩, ih.mp ⟨d', hd⟩⟩
    · rintro ⟨⟨u, hu⟩, hrest⟩
      obtain ⟨d', hd⟩ := ih.mpr hrest
      exact ⟨d', u, hu, hd⟩

/-- A key that no remaining record has keeps its entry. -/
theorem desiredUsers_lookup_of_not_mem {l : List ProfileRecord} {k : String} : ∀ {d d' : Users},
    desiredUsers cipher l d = .ok d' → (∀ r ∈ l, r.runtimeId.text ≠ k) →
      d'.lookup k = d.lookup k := by
  induction l with
  | nil =>
    intro d d' h _
    rw [desiredUsers, Except.ok.injEq] at h
    rw [h]
  | cons r rest ih =>
    intro d d' h hk
    simp only [desiredUsers, Except.bind_eq_ok] at h
    obtain ⟨u, -, hd⟩ := h
    rw [ih hd fun r' hr' => hk r' (by simp [hr']),
      AList.lookup_insert_ne (hk r (by simp)).symm]

/-- **The entry of a record is its stored user id**, the identifiers being distinct. -/
theorem desiredUsers_lookup {l : List ProfileRecord} : ∀ {d d' : Users},
    desiredUsers cipher l d = .ok d' → (l.map fun r => r.runtimeId).Nodup →
      ∀ r ∈ l, d'.lookup r.runtimeId.text = storedUserId cipher r := by
  induction l with
  | nil => simp
  | cons r₀ rest ih =>
    intro d d' h hnd r hr
    simp only [desiredUsers, Except.bind_eq_ok, reconcilerUserId, readUserId_eq_ok] at h
    obtain ⟨u, hu, hd⟩ := h
    rw [List.map_cons, List.nodup_cons] at hnd
    rcases List.mem_cons.mp hr with rfl | hr'
    · have hfresh : ∀ r' ∈ rest, r'.runtimeId.text ≠ r.runtimeId.text := fun r' hr' he =>
        hnd.1 (RuntimeId.text_injective he ▸ List.mem_map_of_mem hr')
      rw [desiredUsers_lookup_of_not_mem hd hfresh, AList.lookup_insert, hu]
    · exact ih hd hnd.2 r hr'

/-- **The keys of the dictionary are the identifiers of the records.** -/
theorem mem_desiredUsers {l : List ProfileRecord} {d : Users} {k : String}
    (h : desiredUsers cipher l ∅ = .ok d) (hnd : (l.map fun r => r.runtimeId).Nodup) :
    k ∈ d ↔ ∃ r ∈ l, r.runtimeId.text = k := by
  constructor
  · intro hk
    by_contra hno
    have hnone := desiredUsers_lookup_of_not_mem h fun r hr he => hno ⟨r, hr, he⟩
    rw [AList.lookup_empty] at hnone
    exact AList.lookup_eq_none.mp hnone hk
  · rintro ⟨r, hr, rfl⟩
    obtain ⟨u, hu⟩ := desiredUsers_isOk.mp ⟨d, h⟩ r hr
    rw [← AList.lookup_isSome, desiredUsers_lookup h hnd r hr, hu]
    rfl

end Desired

/-- The listed active records have distinct runtime identifiers. -/
theorem activeRecords_runtimeId_nodup (t : Tables) :
    ((activeRecords t).map fun r => r.runtimeId).Nodup :=
  t.list_runtimeId_nodup.sublist (List.filter_sublist.map _)

theorem mem_activeRecords {t : Tables} {r : ProfileRecord} :
    r ∈ activeRecords t ↔ r ∈ t.records ∧ r.state = .active := by
  simp [activeRecords, Tables.mem_list]

end EzOpenPN
