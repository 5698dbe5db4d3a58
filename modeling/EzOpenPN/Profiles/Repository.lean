import EzOpenPN.Profiles.Types

/-!
# The profile repository

The two tables a profile lives in, and the transactions of `ProfileRepository` on them.
The constraints the schema declares – primary key, unique runtime identifiers, unique
digests, one lookup of each kind per profile, the foreign key – are fields of
`EzOpenPN.Tables`, so that a transaction that would break one cannot be written down; the
insertion checks them first and reports a conflict instead.

Each transaction is a pure function from the tables to a value and the new tables, or an
exception. A transaction that raises is rolled back, which here is simply not having
produced new tables.

The constraints say that the join of a profile with its lookup of one kind has at most one
row, so `one_or_none` is a search. They do *not* say that the row exists: that every
profile has both of its lookups is `EzOpenPN.Tables.Complete`, an invariant of the
transactions (`EzOpenPN.Tables.Complete.insertPending` and its siblings) rather than of the
schema.
-/

namespace EzOpenPN

/-- A row of the audit log. -/
structure AuditEvent where
  eventType : String
  subjectId : Option String
  detailsJson : String
  deriving DecidableEq

/-- **The tables of the repository**, with the constraints of their schema. -/
structure Tables where
  profiles : List Profile
  lookups : List ProfileLookup
  auditEvents : List AuditEvent
  /-- The primary key of `profiles`. -/
  ids_nodup : (profiles.map Profile.id).Nodup
  /-- `uq_profiles_runtime_id`. -/
  runtimeIds_nodup : (profiles.map Profile.runtimeId).Nodup
  /-- `uq_profile_lookups_digest`. -/
  digests_nodup : (lookups.map ProfileLookup.lookupDigest).Nodup
  /-- `uq_profile_lookups_profile_kind`. -/
  kinds_nodup : (lookups.map fun l => (l.profileId, l.kind)).Nodup
  /-- The foreign key of `profile_lookups`. -/
  lookups_profile : ∀ l ∈ lookups, l.profileId ∈ profiles.map Profile.id

namespace Tables

/-- The tables of a fresh installation. -/
def empty : Tables where
  profiles := []
  lookups := []
  auditEvents := []
  ids_nodup := List.nodup_nil
  runtimeIds_nodup := List.nodup_nil
  digests_nodup := List.nodup_nil
  kinds_nodup := List.nodup_nil
  lookups_profile := by simp

variable (t : Tables)

/-! ### Reading -/

/-- The lookup of one kind of a profile. -/
def lookup (profileId : Uuid) (kind : LookupKind) : Option ProfileLookup :=
  t.lookups.find? fun l => l.profileId = profileId ∧ l.kind = kind

/-- The exception of every read that finds nothing. -/
def notFound : PyError := ⟨.profileNotFound, "profile is unavailable"⟩

/-- `ProfileRepository.get`: the row joined with its subscription lookup. -/
def get (profileId : Uuid) : Except PyError ProfileRecord :=
  match t.profiles.find? fun p => p.id = profileId, t.lookup profileId .subscription with
  | some profile, some l => .ok ⟨profile, l.lookupDigest⟩
  | _, _ => .error notFound

/-- The order of `list`: by creation time, then by the text of the identifier. -/
def listed (a b : ProfileRecord) : Prop :=
  a.createdAt < b.createdAt ∨ a.createdAt = b.createdAt ∧ a.id.text ≤ b.id.text

instance : DecidableRel listed := fun a b =>
  inferInstanceAs (Decidable (a.createdAt < b.createdAt ∨ a.createdAt = b.createdAt ∧
    a.id.text ≤ b.id.text))

/-- The rows joined with their subscription lookups, in table order. -/
def records : List ProfileRecord :=
  t.profiles.filterMap fun profile =>
    (t.lookup profile.id .subscription).map fun l => ⟨profile, l.lookupDigest⟩

/-- `ProfileRepository.list`. -/
def list : List ProfileRecord := t.records.insertionSort listed

/-- `ProfileRepository.find_by_subscription_token`: the profile whose subscription lookup carries
the digest of the presented text. -/
def findBySubscriptionToken (cipher : SecretCipher) (token : String) : Option ProfileRecord :=
  if token.length < 1 ∨ 128 < token.length ∨ ¬isAscii token then none
  else do
    let subscription ← t.lookups.find? fun l =>
      l.kind = .subscription ∧ l.lookupDigest = cipher.lookupDigest (asciiBytes token)
    let profile ← t.profiles.find? fun p => p.id = subscription.profileId
    return ⟨profile, subscription.lookupDigest⟩

/-- `ProfileRepository.find_by_hysteria_secret`: the profile whose Hysteria2 lookup carries
the digest of the presented text. The text is ASCII by the time it is digested, so
`hysteria_lookup_value` does not raise. -/
def findByHysteriaSecret (cipher : SecretCipher) (presented : String) : Option ProfileRecord :=
  if presented.length < 1 ∨ 512 < presented.length ∨ ¬isAscii presented then none
  else
    match hysteriaLookupValue presented with
    | .error _ => none
    | .ok value => do
      let auth ← t.lookups.find? fun l =>
        l.kind = .hysteriaAuth ∧ l.lookupDigest = cipher.lookupDigest value
      let profile ← t.profiles.find? fun p => p.id = auth.profileId
      let subscription ← t.lookup profile.id .subscription
      return ⟨profile, subscription.lookupDigest⟩

/-! ### Writing -/

/-- Change the row of one profile, leaving its two keys alone. -/
def modifyProfile (profileId : Uuid) (f : Profile → Profile) (hid : ∀ p, (f p).id = p.id)
    (hrid : ∀ p, (f p).runtimeId = p.runtimeId) : Tables where
  profiles := t.profiles.map fun p => if p.id = profileId then f p else p
  lookups := t.lookups
  auditEvents := t.auditEvents
  ids_nodup := by
    have h : (t.profiles.map fun p => if p.id = profileId then f p else p).map Profile.id =
        t.profiles.map Profile.id := by
      rw [List.map_map]
      refine List.map_congr_left fun p _ => ?_
      by_cases hp : p.id = profileId <;> simp [hp, hid]
    rw [h]
    exact t.ids_nodup
  runtimeIds_nodup := by
    have h : (t.profiles.map fun p => if p.id = profileId then f p else p).map Profile.runtimeId =
        t.profiles.map Profile.runtimeId := by
      rw [List.map_map]
      refine List.map_congr_left fun p _ => ?_
      by_cases hp : p.id = profileId <;> simp [hp, hrid]
    rw [h]
    exact t.runtimeIds_nodup
  digests_nodup := t.digests_nodup
  kinds_nodup := t.kinds_nodup
  lookups_profile := by
    intro l hl
    obtain ⟨p, hp, hpl⟩ := List.mem_map.mp (t.lookups_profile l hl)
    refine List.mem_map.mpr ⟨if p.id = profileId then f p else p, List.mem_map.mpr ⟨p, hp, rfl⟩, ?_⟩
    by_cases h : p.id = profileId <;> simp [h, hid, ← hpl]

/-- `_LEGAL_TRANSITIONS`. -/
def legalTransitions : ProfileState → List ProfileState
  | .pending => [.active, .error]
  | .error => [.pending, .disabled]
  | .active => [.disabled, .error]
  | .disabled => [.active, .error]

/-- The row `set_state` writes: the new state, its timestamp, and the two fields that
belong to one state each. -/
def stateRow (timestamp : Time) (state : ProfileState) (errorCode : Option String)
    (p : Profile) : Profile :=
  { p with
    state := state
    updatedAt := timestamp
    lastErrorCode := if state = .error then errorCode else none
    disabledAt := if state = .disabled then some timestamp else none }

/-- `ProfileRepository.set_state`. -/
def setState (timestamp : Time) (profileId : Uuid) (state : ProfileState)
    (errorCode : Option String) : Except PyError (ProfileRecord × Tables) := do
  let record ← t.get profileId
  if record.state ≠ state ∧ state ∉ legalTransitions record.state then
    throw ⟨.invalidProfileTransition, "profile state transition is invalid"⟩
  return (⟨stateRow timestamp state errorCode record.toProfile, record.subscriptionLookupDigest⟩,
    t.modifyProfile profileId (stateRow timestamp state errorCode) (fun _ => rfl) fun _ => rfl)

/-- Letters and digits, for the shape check of an error code. -/
def isAlnum (c : Char) : Bool := c.isAlpha || c.isDigit

/-- The row `set_runtime_error` writes. -/
def runtimeErrorRow (timestamp : Time) (errorCode : String) (p : Profile) : Profile :=
  { p with lastErrorCode := some errorCode, updatedAt := timestamp }

/-- `ProfileRepository.set_runtime_error`. -/
def setRuntimeError (timestamp : Time) (profileId : Uuid) (errorCode : String) :
    Except PyError (ProfileRecord × Tables) := do
  let letters := errorCode.toList.filter (· ≠ '_')
  if errorCode.length < 1 ∨ 64 < errorCode.length ∨ letters = [] ∨ ¬letters.all isAlnum then
    throw ⟨.valueError, "runtime error code is invalid"⟩
  let record ← t.get profileId
  return (⟨runtimeErrorRow timestamp errorCode record.toProfile, record.subscriptionLookupDigest⟩,
    t.modifyProfile profileId (runtimeErrorRow timestamp errorCode) (fun _ => rfl) fun _ => rfl)

/-- The row a new profile starts as. -/
def pendingRow (timestamp : Time) (m : NewProfileMaterial) : Profile where
  id := m.profileId
  name := m.name
  state := .pending
  runtimeId := m.runtimeId
  wrappedProfileKey := some m.wrappedProfileKey
  userIdCiphertext := m.userIdCiphertext
  hysteriaSecretCiphertext := m.hysteriaSecretCiphertext
  subscriptionTokenCiphertext := m.subscriptionTokenCiphertext
  lastErrorCode := none
  createdAt := timestamp
  updatedAt := timestamp
  disabledAt := none

/-- The two lookups of a new profile. -/
def newLookups (m : NewProfileMaterial) : List ProfileLookup :=
  [⟨m.profileId, .subscription, m.subscriptionLookupDigest⟩,
    ⟨m.profileId, .hysteriaAuth, m.hysteriaLookupDigest⟩]

/-- The constraints an insertion has to meet: the checks of the schema and the unique keys,
against the rows already there. -/
structure Admits (m : NewProfileMaterial) : Prop where
  name_length : 1 ≤ m.name.length ∧ m.name.length ≤ 64
  digest_length : m.subscriptionLookupDigest.length = 32 ∧ m.hysteriaLookupDigest.length = 32
  id_new : m.profileId ∉ t.profiles.map Profile.id
  runtimeId_new : m.runtimeId ∉ t.profiles.map Profile.runtimeId
  digests_new : m.subscriptionLookupDigest ∉ t.lookups.map ProfileLookup.lookupDigest ∧
    m.hysteriaLookupDigest ∉ t.lookups.map ProfileLookup.lookupDigest
  digests_ne : m.subscriptionLookupDigest ≠ m.hysteriaLookupDigest

theorem admits_iff (m : NewProfileMaterial) : t.Admits m ↔
    (1 ≤ m.name.length ∧ m.name.length ≤ 64) ∧
    (m.subscriptionLookupDigest.length = 32 ∧ m.hysteriaLookupDigest.length = 32) ∧
    m.profileId ∉ t.profiles.map Profile.id ∧
    m.runtimeId ∉ t.profiles.map Profile.runtimeId ∧
    (m.subscriptionLookupDigest ∉ t.lookups.map ProfileLookup.lookupDigest ∧
      m.hysteriaLookupDigest ∉ t.lookups.map ProfileLookup.lookupDigest) ∧
    m.subscriptionLookupDigest ≠ m.hysteriaLookupDigest :=
  ⟨fun h => ⟨h.1, h.2, h.3, h.4, h.5, h.6⟩, fun ⟨h1, h2, h3, h4, h5, h6⟩ => ⟨h1, h2, h3, h4, h5, h6⟩⟩

instance (m : NewProfileMaterial) : Decidable (t.Admits m) :=
  decidable_of_iff' _ (t.admits_iff m)

/-- The tables after an admitted insertion. -/
def inserted (timestamp : Time) (m : NewProfileMaterial) (h : t.Admits m) : Tables where
  profiles := t.profiles ++ [pendingRow timestamp m]
  lookups := t.lookups ++ newLookups m
  auditEvents := t.auditEvents
  ids_nodup := by
    rw [List.map_append, List.nodup_append]
    refine ⟨t.ids_nodup, by simp, ?_⟩
    intro a ha b hb hab
    obtain rfl : b = m.profileId := List.mem_singleton.mp hb
    exact h.id_new (hab ▸ ha)
  runtimeIds_nodup := by
    rw [List.map_append, List.nodup_append]
    refine ⟨t.runtimeIds_nodup, by simp, ?_⟩
    intro a ha b hb hab
    obtain rfl : b = m.runtimeId := List.mem_singleton.mp hb
    exact h.runtimeId_new (hab ▸ ha)
  digests_nodup := by
    rw [List.map_append, List.nodup_append]
    refine ⟨t.digests_nodup, by simpa [newLookups] using h.digests_ne, ?_⟩
    rintro a ha b hb rfl
    simp only [newLookups, List.map_cons, List.map_nil, List.mem_cons, List.not_mem_nil,
      or_false] at hb
    rcases hb with rfl | rfl
    · exact h.digests_new.1 ha
    · exact h.digests_new.2 ha
  kinds_nodup := by
    rw [List.map_append, List.nodup_append]
    refine ⟨t.kinds_nodup, by simp [newLookups], ?_⟩
    rintro a ha b hb rfl
    obtain ⟨l, hl, rfl⟩ := List.mem_map.mp ha
    have hid : l.profileId = m.profileId := by
      simp only [newLookups, List.map_cons, List.map_nil, List.mem_cons, List.not_mem_nil,
        or_false, Prod.mk.injEq] at hb
      rcases hb with ⟨h', -⟩ | ⟨h', -⟩ <;> exact h'
    exact h.id_new (hid ▸ t.lookups_profile l hl)
  lookups_profile := by
    intro l hl
    rw [List.map_append, List.mem_append]
    rcases List.mem_append.mp hl with hl | hl
    · exact Or.inl (t.lookups_profile l hl)
    · right
      simp only [newLookups, List.mem_cons, List.not_mem_nil, or_false] at hl
      rcases hl with rfl | rfl <;> simp [pendingRow]

/-- `ProfileRepository.insert_pending`. -/
def insertPending (timestamp : Time) (m : NewProfileMaterial) :
    Except PyError (ProfileRecord × Tables) :=
  if h : t.Admits m then
    .ok (⟨pendingRow timestamp m, m.subscriptionLookupDigest⟩, t.inserted timestamp m h)
  else .error ⟨.profileConflict, "profile identifiers conflict"⟩

/-- The tables without one profile and its lookups, with the deletion in the audit log. -/
def deleted (profileId : Uuid) : Tables where
  profiles := t.profiles.filter fun p => p.id ≠ profileId
  lookups := t.lookups.filter fun l => l.profileId ≠ profileId
  auditEvents := t.auditEvents ++ [⟨"profile_deleted", none, "{}"⟩]
  ids_nodup := t.ids_nodup.sublist (List.filter_sublist.map _)
  runtimeIds_nodup := t.runtimeIds_nodup.sublist (List.filter_sublist.map _)
  digests_nodup := t.digests_nodup.sublist (List.filter_sublist.map _)
  kinds_nodup := t.kinds_nodup.sublist (List.filter_sublist.map _)
  lookups_profile := by
    intro l hl
    simp only [List.mem_filter, decide_not, Bool.not_eq_eq_eq_not, Bool.not_true,
      decide_eq_false_iff_not] at hl
    obtain ⟨p, hp, hpl⟩ := List.mem_map.mp (t.lookups_profile l hl.1)
    refine List.mem_map.mpr ⟨p, List.mem_filter.mpr ⟨hp, ?_⟩, hpl⟩
    simpa [hpl] using hl.2

/-- `ProfileRepository.delete_local`. The wrapped key is overwritten before the row is
deleted; within the transaction that leaves no trace. -/
def deleteLocal (profileId : Uuid) : Except PyError (Unit × Tables) :=
  if profileId ∈ t.profiles.map Profile.id then .ok ((), t.deleted profileId)
  else .error notFound

/-! ### What the reads return -/

variable {t}

/-- A row is found under its identifier. -/
theorem find?_id {p : Profile} (hp : p ∈ t.profiles) :
    t.profiles.find? (fun q => q.id = p.id) = some p := by
  have h := t.ids_nodup
  revert hp h
  generalize t.profiles = l
  intro hp h
  induction l with
  | nil => exact absurd hp (by simp)
  | cons q l ih =>
    rw [List.map_cons, List.nodup_cons] at h
    rcases List.mem_cons.mp hp with rfl | hp'
    · simp
    · have hne : q.id ≠ p.id := fun he => h.1 (he ▸ List.mem_map_of_mem hp')
      rw [List.find?_cons_of_neg (by simpa using hne)]
      exact ih hp' h.2

/-- Two rows with one identifier are one row. -/
theorem eq_of_id_eq {p q : Profile} (hp : p ∈ t.profiles) (hq : q ∈ t.profiles)
    (h : p.id = q.id) : p = q := by
  have h1 := find?_id hp
  have h2 := find?_id hq
  rw [h] at h1
  exact Option.some.inj (h1.symm.trans h2)

/-- Two rows with one runtime identifier are one row. -/
theorem eq_of_runtimeId_eq {p q : Profile} (hp : p ∈ t.profiles) (hq : q ∈ t.profiles)
    (h : p.runtimeId = q.runtimeId) : p = q :=
  List.inj_on_of_nodup_map t.runtimeIds_nodup hp hq h

/-- A lookup that is found is a row of the table, of the profile and the kind asked for. -/
theorem lookup_eq_some {id : Uuid} {k : LookupKind} {l : ProfileLookup} (h : t.lookup id k = some l) :
    l ∈ t.lookups ∧ l.profileId = id ∧ l.kind = k := by
  have hp : l.profileId = id ∧ l.kind = k := by simpa using List.find?_some h
  exact ⟨List.mem_of_find?_eq_some h, hp.1, hp.2⟩

/-- **What `get` returns is a stored row under the identifier asked for.** -/
theorem mem_of_get {id : Uuid} {r : ProfileRecord} (h : t.get id = .ok r) :
    r.toProfile ∈ t.profiles ∧ r.id = id := by
  rw [get] at h
  rcases hp : t.profiles.find? (fun p => decide (p.id = id)) with _ | p
  · simp [hp] at h
  · rcases hl : t.lookup id .subscription with _ | l
    · simp [hp, hl] at h
    · simp only [hp, hl, Except.ok.injEq] at h
      subst h
      exact ⟨List.mem_of_find?_eq_some hp, by simpa using List.find?_some hp⟩

/-- `get` raises nothing but the missing profile. -/
theorem get_error {id : Uuid} {e : PyError} (h : t.get id = .error e) : e = notFound := by
  rw [get] at h
  split at h
  · exact absurd h (by simp)
  · exact (Except.error.inj h).symm

/-- The records are the rows that have a subscription lookup. -/
theorem mem_records {r : ProfileRecord} : r ∈ t.records ↔ r.toProfile ∈ t.profiles ∧
    (t.lookup r.id .subscription).map ProfileLookup.lookupDigest =
      some r.subscriptionLookupDigest := by
  simp only [records, List.mem_filterMap, Option.map_eq_some_iff]
  constructor
  · rintro ⟨p, hp, l, hl, rfl⟩
    exact ⟨hp, l, hl, rfl⟩
  · rintro ⟨hp, l, hl, hd⟩
    exact ⟨r.toProfile, hp, l, hl, by rw [hd]⟩

theorem mem_list {r : ProfileRecord} : r ∈ t.list ↔ r ∈ t.records := List.mem_insertionSort _

/-- **What `get` returns is one of the records.** -/
theorem get_mem_records {id : Uuid} {r : ProfileRecord} (h : t.get id = .ok r) :
    r ∈ t.records := by
  have hr := mem_of_get h
  refine mem_records.mpr ⟨hr.1, ?_⟩
  rw [hr.2]
  rw [get] at h
  rcases hl : t.lookup id .subscription with _ | l
  · simp [hl] at h
  · have hp := find?_id hr.1
    rw [hr.2] at hp
    simp only [hp, hl, Except.ok.injEq] at h
    rw [← h]
    rfl

/-- **Every record is what `get` returns for it.** -/
theorem get_of_mem_records {r : ProfileRecord} (h : r ∈ t.records) : t.get r.id = .ok r := by
  obtain ⟨hp, hl⟩ := mem_records.mp h
  obtain ⟨l, hl, hd⟩ := Option.map_eq_some_iff.mp hl
  simp only [get, find?_id hp, hl, hd]

/-- The listed records have distinct runtime identifiers. -/
theorem list_runtimeId_nodup (t : Tables) : (t.list.map fun r => r.runtimeId).Nodup := by
  have hperm : (t.list.map fun r => r.runtimeId).Perm (t.records.map fun r => r.runtimeId) :=
    (List.perm_insertionSort _ _).map _
  refine hperm.nodup_iff.mpr ?_
  have hsub : ∀ l : List Profile,
      ((l.filterMap fun profile => (t.lookup profile.id .subscription).map fun k =>
        (⟨profile, k.lookupDigest⟩ : ProfileRecord)).map fun r => r.runtimeId).Sublist
      (l.map Profile.runtimeId) := by
    intro l
    induction l with
    | nil => simp
    | cons p l ih =>
      rcases hl : t.lookup p.id .subscription with _ | k
      · simpa [List.filterMap_cons, hl] using ih.cons _
      · simpa [List.filterMap_cons, hl] using ih
  exact t.runtimeIds_nodup.sublist (hsub t.profiles)

/-! ### Complete tables -/

/-- **Every profile has both of its lookups.** -/
def Complete (t : Tables) : Prop := ∀ p ∈ t.profiles, ∀ k, ∃ l, t.lookup p.id k = some l

/-- In complete tables every row is a record. -/
theorem Complete.get {p : Profile} (h : t.Complete) (hp : p ∈ t.profiles) :
    ∃ d, t.get p.id = .ok ⟨p, d⟩ := by
  obtain ⟨l, hl⟩ := h p hp .subscription
  exact ⟨l.lookupDigest, by simp only [Tables.get, find?_id hp, hl]⟩

theorem complete_empty : empty.Complete := by
  intro p hp
  exact absurd hp (by simp [empty])

/-! ### What the writes do -/

section Writes

variable {id : Uuid} {f : Profile → Profile} {hid : ∀ p, (f p).id = p.id}
  {hrid : ∀ p, (f p).runtimeId = p.runtimeId}

@[simp] theorem lookup_modifyProfile (i : Uuid) (k : LookupKind) :
    (t.modifyProfile id f hid hrid).lookup i k = t.lookup i k := rfl

theorem mem_profiles_modifyProfile {q : Profile} :
    q ∈ (t.modifyProfile id f hid hrid).profiles ↔
      ∃ p ∈ t.profiles, q = if p.id = id then f p else p := by
  simp only [modifyProfile, List.mem_map, eq_comm]

/-- **The records after a change of one row**: that row is changed, the others are the
same records. -/
theorem mem_records_modifyProfile {q : ProfileRecord} :
    q ∈ (t.modifyProfile id f hid hrid).records ↔
      ∃ r ∈ t.records, q = if r.id = id then ⟨f r.toProfile, r.subscriptionLookupDigest⟩ else r := by
  rw [mem_records, mem_profiles_modifyProfile]
  constructor
  · rintro ⟨⟨p, hp, hq⟩, hl⟩
    have hqid : q.id = p.id := by
      rw [hq]
      split
      · exact hid p
      · rfl
    refine ⟨⟨p, q.subscriptionLookupDigest⟩, mem_records.mpr ⟨hp, ?_⟩, ?_⟩
    · rw [lookup_modifyProfile, hqid] at hl
      exact hl
    · obtain ⟨q, d⟩ := q
      subst hq
      by_cases h : p.id = id <;> simp [h]
  · rintro ⟨r, hr, rfl⟩
    obtain ⟨hp, hl⟩ := mem_records.mp hr
    by_cases h : r.id = id
    · rw [if_pos h]
      refine ⟨⟨r.toProfile, hp, by rw [if_pos h]⟩, ?_⟩
      change (t.lookup (f r.toProfile).id .subscription).map _ = _
      rw [hid]
      exact hl
    · rw [if_neg h]
      exact ⟨⟨r.toProfile, hp, by rw [if_neg h]⟩, hl⟩

/-- The changed row, read back. -/
theorem get_modifyProfile_self {r : ProfileRecord} (h : t.get id = .ok r) :
    (t.modifyProfile id f hid hrid).get id = .ok ⟨f r.toProfile, r.subscriptionLookupDigest⟩ := by
  have hr := mem_of_get h
  have hmem : (⟨f r.toProfile, r.subscriptionLookupDigest⟩ : ProfileRecord) ∈
      (t.modifyProfile id f hid hrid).records :=
    mem_records_modifyProfile.mpr ⟨r, get_mem_records h, by rw [if_pos hr.2]⟩
  have hget := get_of_mem_records hmem
  rwa [show (f r.toProfile).id = id from (hid _).trans hr.2] at hget

theorem Complete.modifyProfile (h : t.Complete) : (t.modifyProfile id f hid hrid).Complete := by
  intro q hq k
  obtain ⟨p, hp, rfl⟩ := mem_profiles_modifyProfile.mp hq
  have hqid : (if p.id = id then f p else p).id = p.id := by
    split
    · exact hid p
    · rfl
  rw [hqid, lookup_modifyProfile]
  exact h p hp k

/-- **What `set_state` does** when it returns. -/
theorem setState_ok {timestamp : Time} {state : ProfileState} {code : Option String}
    {r : ProfileRecord} {t' : Tables} (h : t.setState timestamp id state code = .ok (r, t')) :
    ∃ r₀, t.get id = .ok r₀ ∧ (r₀.state = state ∨ state ∈ legalTransitions r₀.state) ∧
      r = ⟨stateRow timestamp state code r₀.toProfile, r₀.subscriptionLookupDigest⟩ ∧
      t' = t.modifyProfile id (stateRow timestamp state code) (fun _ => rfl) fun _ => rfl := by
  rw [setState] at h
  rcases hg : t.get id with e | r₀
  · rw [hg] at h
    exact absurd h (by simp [bind, Except.bind])
  · rw [hg] at h
    by_cases hl : r₀.state ≠ state ∧ state ∉ legalTransitions r₀.state
    · simp [bind, Except.bind, hl, throw, throwThe, MonadExceptOf.throw] at h
    · simp only [bind, Except.bind, hl, if_false, pure, Except.pure, Except.ok.injEq,
        Prod.mk.injEq] at h
      exact ⟨r₀, rfl, by tauto, h.1.symm, h.2.symm⟩

/-- The exceptions of `set_state`. -/
theorem setState_error {timestamp : Time} {state : ProfileState} {code : Option String}
    {e : PyError} (h : t.setState timestamp id state code = .error e) :
    e.kind = .profileNotFound ∨ e.kind = .invalidProfileTransition := by
  rcases hg : t.get id with e' | r₀
  · rw [setState, hg] at h
    obtain rfl : e' = e := Except.error.inj h
    rw [get_error hg]
    exact Or.inl rfl
  · rw [setState, hg] at h
    simp only [bind, Except.bind, throw, throwThe, MonadExceptOf.throw, pure, Except.pure] at h
    split at h
    · obtain rfl := Except.error.inj h
      exact Or.inr rfl
    · exact absurd h (by simp)

/-- What `set_state` returns is what is read back. -/
theorem get_of_setState {timestamp : Time} {state : ProfileState} {code : Option String}
    {r : ProfileRecord} {t' : Tables} (h : t.setState timestamp id state code = .ok (r, t')) :
    t'.get id = .ok r := by
  obtain ⟨r₀, hg, -, rfl, rfl⟩ := setState_ok h
  exact get_modifyProfile_self hg

/-- `set_state` returns when the row is there and the transition is legal. -/
theorem setState_of_legal {timestamp : Time} {state : ProfileState} {code : Option String}
    {r₀ : ProfileRecord} (hg : t.get id = .ok r₀)
    (hl : r₀.state = state ∨ state ∈ legalTransitions r₀.state) :
    t.setState timestamp id state code =
      .ok (⟨stateRow timestamp state code r₀.toProfile, r₀.subscriptionLookupDigest⟩,
        t.modifyProfile id (stateRow timestamp state code) (fun _ => rfl) fun _ => rfl) := by
  have hn : ¬(r₀.state ≠ state ∧ state ∉ legalTransitions r₀.state) := by tauto
  simp [setState, hg, bind, Except.bind, hn, pure, Except.pure]

/-- **What `set_runtime_error` does** when it returns. -/
theorem setRuntimeError_ok {timestamp : Time} {code : String} {r : ProfileRecord} {t' : Tables}
    (h : t.setRuntimeError timestamp id code = .ok (r, t')) :
    ∃ r₀, t.get id = .ok r₀ ∧
      r = ⟨runtimeErrorRow timestamp code r₀.toProfile, r₀.subscriptionLookupDigest⟩ ∧
      t' = t.modifyProfile id (runtimeErrorRow timestamp code) (fun _ => rfl) fun _ => rfl := by
  rw [setRuntimeError] at h
  simp only [bind, Except.bind, throw, throwThe, MonadExceptOf.throw, pure, Except.pure] at h
  split at h
  · exact absurd h (by simp)
  · rcases hg : t.get id with e | r₀
    · rw [hg] at h
      exact absurd h (by simp)
    · rw [hg] at h
      simp only [Except.ok.injEq, Prod.mk.injEq] at h
      exact ⟨r₀, rfl, h.1.symm, h.2.symm⟩

end Writes

section Inserts

variable {timestamp : Time} {m : NewProfileMaterial}

theorem lookup_inserted_old {h : t.Admits m} {i : Uuid} {k : LookupKind}
    (hi : i ∈ t.profiles.map Profile.id) : (t.inserted timestamp m h).lookup i k = t.lookup i k := by
  have hne : m.profileId ≠ i := fun he => h.id_new (he ▸ hi)
  rw [lookup, inserted, List.find?_append]
  have hnew : (newLookups m).find? (fun l => decide (l.profileId = i ∧ l.kind = k)) = none := by
    simp [newLookups, hne]
  rw [hnew, Option.or_none]
  rfl

theorem lookup_inserted_new {h : t.Admits m} (k : LookupKind) :
    ∃ l, (t.inserted timestamp m h).lookup m.profileId k = some l := by
  rw [lookup, inserted, ← Option.isSome_iff_exists, List.find?_isSome]
  cases k with
  | subscription => exact ⟨⟨m.profileId, .subscription, m.subscriptionLookupDigest⟩,
      by simp [newLookups], by simp⟩
  | hysteriaAuth => exact ⟨⟨m.profileId, .hysteriaAuth, m.hysteriaLookupDigest⟩,
      by simp [newLookups], by simp⟩

theorem Complete.inserted (hc : t.Complete) (h : t.Admits m) :
    (t.inserted timestamp m h).Complete := by
  intro p hp k
  rcases List.mem_append.mp hp with hp | hp
  · rw [lookup_inserted_old (List.mem_map_of_mem hp)]
    exact hc p hp k
  · obtain rfl : p = pendingRow timestamp m := List.mem_singleton.mp hp
    exact lookup_inserted_new k

theorem lookup_deleted_of_ne {i : Uuid} {k : LookupKind} {id : Uuid} (hi : i ≠ id) :
    (t.deleted id).lookup i k = t.lookup i k := by
  change (t.lookups.filter fun l => decide (l.profileId ≠ id)).find? _ = t.lookups.find? _
  induction t.lookups with
  | nil => rfl
  | cons l ls ih =>
    by_cases hl : l.profileId = id
    · rw [List.filter_cons_of_neg (by simp [hl]), ih, List.find?_cons_of_neg (by simp [hl, hi.symm])]
    · rw [List.filter_cons_of_pos (by simp [hl])]
      by_cases hk : l.profileId = i ∧ l.kind = k
      · rw [List.find?_cons_of_pos (by simp [hk]), List.find?_cons_of_pos (by simp [hk])]
      · rw [List.find?_cons_of_neg (by simpa using hk), List.find?_cons_of_neg (by simpa using hk),
          ih]

theorem Complete.deleted (hc : t.Complete) (id : Uuid) : (t.deleted id).Complete := by
  intro p hp k
  simp only [Tables.deleted, List.mem_filter, decide_not, Bool.not_eq_eq_eq_not, Bool.not_true,
    decide_eq_false_iff_not] at hp
  rw [lookup_deleted_of_ne hp.2]
  exact hc p hp.1 k

/-- A deletion that returns removes the rows of the profile, and nothing else. -/
theorem deleteLocal_ok {id : Uuid} {t' : Tables} (h : t.deleteLocal id = .ok ((), t')) :
    t' = t.deleted id := by
  rw [deleteLocal] at h
  split at h
  · exact (Prod.mk.inj (Except.ok.inj h)).2.symm
  · exact absurd h (by simp)

/-- An insertion that returns was admitted. -/
theorem insertPending_ok {r : ProfileRecord} {t' : Tables}
    (h : t.insertPending timestamp m = .ok (r, t')) :
    ∃ hm : t.Admits m, r = ⟨pendingRow timestamp m, m.subscriptionLookupDigest⟩ ∧
      t' = t.inserted timestamp m hm := by
  rw [insertPending] at h
  split at h
  · rename_i hm
    obtain ⟨rfl, rfl⟩ := Prod.mk.inj (Except.ok.inj h)
    exact ⟨hm, rfl, rfl⟩
  · exact absurd h (by simp)

theorem insertPending_error {e : PyError} (h : t.insertPending timestamp m = .error e) :
    e.kind = .profileConflict := by
  rw [insertPending] at h
  split at h
  · exact absurd h (by simp)
  · obtain rfl := Except.error.inj h
    rfl

end Inserts

end Tables

end EzOpenPN
