import EzOpenPN.Profiles.Links

/-!
# The administrator and the sessions of the panel

One row of `admins` and the rows of `admin_sessions`, with the operations of `AdminService`
and `SessionService` on them. The hasher, the keyed digest and the character tables of the
interpreter are not part of the repository and are parameters; what the repository makes of
them – the checks on a login and on a password, the two expiries, the version counter, the mark
of a revoked session – is written out.

A transaction is a pure function from the tables to what it returns and the new tables.
`verify_credentials` is the exception: it is a read, a slow hash and a write, in two transactions
of the database, and `EzOpenPN.Accounts.verifyRead` and `EzOpenPN.Accounts.verifyWrite` are its
halves. The same holds of `reset_password`, whose halves are
`EzOpenPN.Accounts.resetRead` and `EzOpenPN.Accounts.resetWrite`.
-/

namespace EzOpenPN

/-! ### What the interpreter provides -/

/-- The character tables of the interpreter. -/
structure UnicodeTables where
  /-- `unicodedata.normalize("NFKC", text)`. -/
  nfkc : String → String
  /-- `text.casefold()`. -/
  casefold : String → String
  /-- `unicodedata.category(c).startswith("C")`. -/
  control : Char → Bool

/-- `PasswordCheck`. -/
structure PasswordCheck where
  valid : Bool
  needsRehash : Bool
  deriving DecidableEq

/-- `PasswordHasher`: a hash is salted, and a check says whether the password is the one that was
hashed and whether the hash should be renewed. -/
structure PasswordHasher where
  hash : (salt : Bytes) → (password : String) → String
  verify : (encoded password : String) → PasswordCheck

/-- **A hasher that accepts exactly the hashed password.** -/
def PasswordHasher.Exact (hasher : PasswordHasher) : Prop :=
  ∀ salt p q, (hasher.verify (hasher.hash salt p) q).valid = true ↔ q = p

/-! ### Rows -/

/-- The row of `admins`. -/
structure Admin where
  id : Uuid
  login : String
  passwordHash : String
  sessionVersion : ℕ
  updatedAt : Time
  lastLoginAt : Option Time
  deriving DecidableEq

/-- A row of `admin_sessions`. -/
structure AdminSession where
  id : Uuid
  adminId : Uuid
  tokenDigest : Bytes
  csrfDigest : Bytes
  sessionVersion : ℕ
  createdAt : Time
  lastSeenAt : Time
  idleExpiresAt : Time
  absoluteExpiresAt : Time
  revokedAt : Option Time
  deriving DecidableEq

/-- **The two tables**, with the keys of `admin_sessions`. There is at most one administrator
(`uq_admins_singleton_key`). -/
structure Accounts where
  admin : Option Admin
  sessions : List AdminSession
  /-- The primary key of `admin_sessions`. -/
  ids_nodup : (sessions.map AdminSession.id).Nodup
  /-- `uq_admin_sessions_token_digest`. -/
  digests_nodup : (sessions.map AdminSession.tokenDigest).Nodup

/-- The exceptions of the two services. -/
inductive AccountError where
  | sessionAdminNotFound
  | adminNotInitialized
  | invalidAdminInput (message : String)
  | integrityError
  deriving DecidableEq

/-! ### `SessionService` -/

/-- **The session service**, with the checks of its constructor. -/
structure SessionService where
  /-- `hmac.digest(key, message, "sha256")`. -/
  hmac : (key message : Bytes) → Bytes
  masterKey : Bytes
  idleDuration : ℤ
  absoluteDuration : ℤ
  masterKey_length : masterKey.length = 32
  idleDuration_pos : 0 < idleDuration
  idleDuration_le : idleDuration ≤ absoluteDuration

/-- What one creation draws: two tokens of 32 bytes and a UUID. -/
structure SessionDraw where
  rawToken : { b : Bytes // b.length = 32 }
  csrfToken : { b : Bytes // b.length = 32 }
  sessionId : Uuid

/-- `SessionGrant`. -/
structure SessionGrant where
  sessionId : Uuid
  rawToken : String
  csrfToken : String
  idleExpiresAt : Time
  absoluteExpiresAt : Time
  deriving DecidableEq

/-- `SessionIdentity`. -/
structure SessionIdentity where
  sessionId : Uuid
  adminId : Uuid
  login : String
  csrfDigest : Bytes
  deriving DecidableEq

namespace SessionService

variable (svc : SessionService)

/-- The key of the session digests. -/
def sessionKey : Bytes := svc.hmac svc.masterKey (asciiBytes "ezopenpn/session/v1")

/-- The key of the CSRF digests. -/
def csrfKey : Bytes := svc.hmac svc.masterKey (asciiBytes "ezopenpn/csrf/v1")

/-- `_session_digest`. -/
def sessionDigest (rawToken : String) : Bytes := svc.hmac svc.sessionKey (asciiBytes rawToken)

/-- `_csrf_digest`. -/
def csrfDigest (rawToken : String) : Bytes := svc.hmac svc.csrfKey (asciiBytes rawToken)

/-- The check on a presented token: one to 128 ASCII characters. -/
def validToken (rawToken : String) : Bool :=
  1 ≤ rawToken.length && rawToken.length ≤ 128 && isAscii rawToken

/-- The row of a new session. -/
def newSession (administrator : Admin) (draw : SessionDraw) (now : Time) : AdminSession where
  id := draw.sessionId
  adminId := administrator.id
  tokenDigest := svc.sessionDigest (encodeUrlSecret draw.rawToken.val)
  csrfDigest := svc.csrfDigest (encodeUrlSecret draw.csrfToken.val)
  sessionVersion := administrator.sessionVersion
  createdAt := now
  lastSeenAt := now
  idleExpiresAt := min (now + svc.idleDuration) (now + svc.absoluteDuration)
  absoluteExpiresAt := now + svc.absoluteDuration
  revokedAt := none

/-- The grant of a new session. -/
def grant (draw : SessionDraw) (now : Time) : SessionGrant where
  sessionId := draw.sessionId
  rawToken := encodeUrlSecret draw.rawToken.val
  csrfToken := encodeUrlSecret draw.csrfToken.val
  idleExpiresAt := min (now + svc.idleDuration) (now + svc.absoluteDuration)
  absoluteExpiresAt := now + svc.absoluteDuration

/-- The row after a successful `authenticate`. -/
def seen (now : Time) (s : AdminSession) : AdminSession :=
  { s with
    lastSeenAt := now
    idleExpiresAt := min (now + svc.idleDuration) s.absoluteExpiresAt }

@[simp] theorem seen_id (now : Time) (s : AdminSession) : (svc.seen now s).id = s.id := rfl

@[simp] theorem seen_tokenDigest (now : Time) (s : AdminSession) :
    (svc.seen now s).tokenDigest = s.tokenDigest := rfl

end SessionService

namespace AdminSession

/-- The mark of a revocation, which the first one leaves. -/
def revoked (now : Time) (s : AdminSession) : AdminSession :=
  { s with revokedAt := if s.revokedAt = none then some now else s.revokedAt }

@[simp] theorem revoked_id (now : Time) (s : AdminSession) : (s.revoked now).id = s.id := rfl

@[simp] theorem revoked_tokenDigest (now : Time) (s : AdminSession) :
    (s.revoked now).tokenDigest = s.tokenDigest := rfl

/-- The test of `authenticate`. -/
def expired (now : Time) (administrator : Admin) (s : AdminSession) : Bool :=
  s.revokedAt ≠ none || s.idleExpiresAt ≤ now || s.absoluteExpiresAt ≤ now ||
    s.sessionVersion ≠ administrator.sessionVersion

theorem expired_eq_false {now : Time} {administrator : Admin} {s : AdminSession} :
    s.expired now administrator = false ↔ s.revokedAt = none ∧ now < s.idleExpiresAt ∧
      now < s.absoluteExpiresAt ∧ s.sessionVersion = administrator.sessionVersion := by
  simp [expired, and_assoc]

end AdminSession

namespace Accounts

variable (t : Accounts)

/-! ### Table operations -/

/-- `session.get(Admin, id)`. -/
def adminById (id : Uuid) : Option Admin := t.admin.filter fun a => a.id = id

/-- The session under a token digest. -/
def byDigest (digest : Bytes) : Option AdminSession :=
  t.sessions.find? fun s => s.tokenDigest = digest

/-- Change the rows of the sessions, leaving their two keys alone. -/
def mapSessions (f : AdminSession → AdminSession) (hid : ∀ s, (f s).id = s.id)
    (hdigest : ∀ s, (f s).tokenDigest = s.tokenDigest) : Accounts where
  admin := t.admin
  sessions := t.sessions.map f
  ids_nodup := by
    have h : (t.sessions.map f).map AdminSession.id = t.sessions.map AdminSession.id := by
      rw [List.map_map]
      exact List.map_congr_left fun s _ => hid s
    rw [h]
    exact t.ids_nodup
  digests_nodup := by
    have h : (t.sessions.map f).map AdminSession.tokenDigest =
        t.sessions.map AdminSession.tokenDigest := by
      rw [List.map_map]
      exact List.map_congr_left fun s _ => hdigest s
    rw [h]
    exact t.digests_nodup

/-- Change the row of one session. -/
def modifySession (id : Uuid) (f : AdminSession → AdminSession) (hid : ∀ s, (f s).id = s.id)
    (hdigest : ∀ s, (f s).tokenDigest = s.tokenDigest) : Accounts :=
  t.mapSessions (fun s => if s.id = id then f s else s)
    (fun s => by by_cases h : s.id = id <;> simp [h, hid])
    fun s => by by_cases h : s.id = id <;> simp [h, hdigest]

/-- Leave the mark of a revocation on one session. -/
def revokeSession (id : Uuid) (now : Time) : Accounts :=
  t.modifySession id (AdminSession.revoked now) (AdminSession.revoked_id now)
    (AdminSession.revoked_tokenDigest now)

/-- Insert a session, under the two unique keys. -/
def insertSession (s : AdminSession) : Except AccountError Accounts :=
  if h : s.id ∉ t.sessions.map AdminSession.id ∧
      s.tokenDigest ∉ t.sessions.map AdminSession.tokenDigest then
    .ok { admin := t.admin
          sessions := t.sessions ++ [s]
          ids_nodup := by
            rw [List.map_append, List.nodup_append]
            refine ⟨t.ids_nodup, by simp, ?_⟩
            intro a ha b hb
            simp only [List.map_cons, List.map_nil, List.mem_singleton] at hb
            exact fun hab => h.1 (hb ▸ hab ▸ ha)
          digests_nodup := by
            rw [List.map_append, List.nodup_append]
            refine ⟨t.digests_nodup, by simp, ?_⟩
            intro a ha b hb
            simp only [List.map_cons, List.map_nil, List.mem_singleton] at hb
            exact fun hab => h.2 (hb ▸ hab ▸ ha) }
  else .error .integrityError

/-! ### The operations on sessions -/

/-- **`SessionService.create`.** -/
def create (svc : SessionService) (adminId : Uuid) (draw : SessionDraw) (now : Time) :
    Except AccountError (SessionGrant × Accounts) :=
  match t.adminById adminId with
  | none => .error .sessionAdminNotFound
  | some administrator =>
    match t.insertSession (svc.newSession administrator draw now) with
    | .error e => .error e
    | .ok t' => .ok (svc.grant draw now, t')

/-- **`SessionService.authenticate`.** -/
def authenticate (svc : SessionService) (rawToken : String) (now : Time) :
    Option SessionIdentity × Accounts :=
  if ¬SessionService.validToken rawToken then (none, t)
  else
    match t.byDigest (svc.sessionDigest rawToken) with
    | none => (none, t)
    | some stored =>
      match t.adminById stored.adminId with
      | none => (none, t.revokeSession stored.id now)
      | some administrator =>
        if stored.expired now administrator then (none, t.revokeSession stored.id now)
        else
          (some ⟨stored.id, administrator.id, administrator.login, stored.csrfDigest⟩,
            t.modifySession stored.id (svc.seen now) (svc.seen_id now) (svc.seen_tokenDigest now))

/-- **`SessionService.revoke`.** -/
def revoke (sessionId : Uuid) (now : Time) : Accounts := t.revokeSession sessionId now

end Accounts

/-! ### `AdminService` -/

section AdminService

variable (unicode : UnicodeTables)

/-- `normalize_login`. -/
def normalizeLogin (login : String) : Except AccountError String :=
  let normalized := unicode.casefold (pyStrip (unicode.nfkc login))
  if normalized.length < 1 ∨ 64 < normalized.length then
    .error (.invalidAdminInput "login must contain between 1 and 64 characters")
  else if normalized.toList.any unicode.control then
    .error (.invalidAdminInput "login must not contain control characters")
  else .ok normalized

/-- `validate_new_password`. -/
def validateNewPassword (value : String) (normalizedLogin : Option String) :
    Except AccountError Unit :=
  if value.length < 12 ∨ 1024 < value.length then
    .error (.invalidAdminInput "password must contain between 12 and 1024 characters")
  else if value.toList.any unicode.control then
    .error (.invalidAdminInput "password must not contain control characters")
  else if normalizedLogin = some value then
    .error (.invalidAdminInput "password must differ from login")
  else .ok ()

namespace Accounts

/-- **The first half of `verify_credentials`**: the row is read and the password checked against
its hash. It ends without a result when the login is no login, is unknown, or the password is
wrong; otherwise the loaded row is handed to the second half, with whether to renew the hash. -/
def verifyRead (hasher : PasswordHasher) (t : Accounts) (login password : String) :
    Option (Admin × Bool) :=
  match normalizeLogin unicode login with
  | .error _ => none
  | .ok normalized => do
    let administrator ← t.admin.filter fun a => a.login = normalized
    let check := hasher.verify administrator.passwordHash password
    if check.valid then some (administrator, check.needsRehash) else none

/-- **The second half of `verify_credentials`**: an update of the columns that differ from the
loaded row. -/
def verifyWrite (hasher : PasswordHasher) (t : Accounts) (loaded : Admin) (rehash : Bool)
    (salt : Bytes) (password : String) (now : Time) : Accounts :=
  let renewed := hasher.hash salt password
  { t with
    admin := t.admin.map fun row =>
      if row.id = loaded.id then
        { row with
          passwordHash :=
            if rehash = true ∧ renewed ≠ loaded.passwordHash then renewed else row.passwordHash
          lastLoginAt := if loaded.lastLoginAt ≠ some now then some now else row.lastLoginAt
          updatedAt := if loaded.updatedAt ≠ now then now else row.updatedAt }
      else row }

/-- **The first half of `reset_password`**: the row is read and the new password checked. -/
def resetRead (t : Accounts) (password : String) : Except AccountError Admin :=
  match t.admin with
  | none => .error .adminNotInitialized
  | some administrator =>
    match validateNewPassword unicode password (some administrator.login) with
    | .error e => .error e
    | .ok () => .ok administrator

/-- **The second half of `reset_password`**: in one transaction, an update of the columns that
differ from the loaded row, and the mark of a revocation on every session without one. -/
def resetWrite (hasher : PasswordHasher) (t : Accounts) (loaded : Admin) (salt : Bytes)
    (password : String) (now : Time) : Accounts :=
  let renewed := hasher.hash salt password
  let t' : Accounts := { t with
    admin := t.admin.map fun row =>
      if row.id = loaded.id then
        { row with
          passwordHash := if renewed ≠ loaded.passwordHash then renewed else row.passwordHash
          sessionVersion := loaded.sessionVersion + 1
          updatedAt := if loaded.updatedAt ≠ now then now else row.updatedAt }
      else row }
  t'.mapSessions (fun s => if s.adminId = loaded.id then s.revoked now else s)
    (fun s => by by_cases h : s.adminId = loaded.id <;> simp [h, AdminSession.revoked])
    fun s => by by_cases h : s.adminId = loaded.id <;> simp [h, AdminSession.revoked]

/-- `AdminService.reset_password`, when nothing happens between its halves. -/
def resetPassword (hasher : PasswordHasher) (t : Accounts) (salt : Bytes) (password : String)
    (now : Time) : Except AccountError Accounts :=
  match t.resetRead unicode password with
  | .error e => .error e
  | .ok loaded => .ok (t.resetWrite hasher loaded salt password now)

end Accounts

end AdminService

/-! ### What the operations do to a row -/

namespace Accounts

variable {t t' : Accounts}

/-- Two sessions with one identifier are one session. -/
theorem eq_of_id_eq {s s' : AdminSession} (hs : s ∈ t.sessions) (hs' : s' ∈ t.sessions)
    (h : s.id = s'.id) : s = s' := List.inj_on_of_nodup_map t.ids_nodup hs hs' h

/-- Two sessions with one token digest are one session. -/
theorem eq_of_digest_eq {s s' : AdminSession} (hs : s ∈ t.sessions) (hs' : s' ∈ t.sessions)
    (h : s.tokenDigest = s'.tokenDigest) : s = s' :=
  List.inj_on_of_nodup_map t.digests_nodup hs hs' h

/-- **A session is found under its token digest, and nothing else is.** -/
theorem byDigest_eq_some {d : Bytes} {s : AdminSession} :
    t.byDigest d = some s ↔ s ∈ t.sessions ∧ s.tokenDigest = d := by
  constructor
  · intro h
    exact ⟨List.mem_of_find?_eq_some h, by simpa using List.find?_some h⟩
  · rintro ⟨hs, rfl⟩
    rcases hf : t.byDigest s.tokenDigest with _ | s'
    · have := List.find?_eq_none.mp hf s hs
      simp at this
    · have hs' := List.mem_of_find?_eq_some hf
      have hd : s'.tokenDigest = s.tokenDigest := by simpa using List.find?_some hf
      rw [eq_of_digest_eq hs' hs hd]

variable {id : Uuid} {f : AdminSession → AdminSession} {hid : ∀ s, (f s).id = s.id}
  {hdigest : ∀ s, (f s).tokenDigest = s.tokenDigest}

theorem mem_mapSessions {s' : AdminSession} :
    s' ∈ (t.mapSessions f hid hdigest).sessions ↔ ∃ s ∈ t.sessions, f s = s' := List.mem_map

@[simp] theorem admin_mapSessions : (t.mapSessions f hid hdigest).admin = t.admin := rfl

@[simp] theorem admin_modifySession : (t.modifySession id f hid hdigest).admin = t.admin := rfl

theorem mem_modifySession {s' : AdminSession} :
    s' ∈ (t.modifySession id f hid hdigest).sessions ↔
      ∃ s ∈ t.sessions, s' = if s.id = id then f s else s := by
  rw [modifySession, mem_mapSessions]
  simp only [eq_comm]

theorem mem_revokeSession_self {s : AdminSession} {now : Time} (hs : s ∈ t.sessions) :
    s.revoked now ∈ (t.revokeSession s.id now).sessions := by
  rw [revokeSession, mem_modifySession]
  exact ⟨s, hs, by simp⟩

theorem mem_revokeSession_of_ne {s : AdminSession} {now : Time} (h : s.id ≠ id)
    (hs : s ∈ t.sessions) : s ∈ (t.revokeSession id now).sessions := by
  rw [revokeSession, mem_modifySession]
  exact ⟨s, hs, by simp [h]⟩

/-- **What an insertion does** when it returns. -/
theorem insertSession_ok {s : AdminSession} (h : t.insertSession s = .ok t') :
    t'.admin = t.admin ∧ t'.sessions = t.sessions ++ [s] := by
  rw [insertSession] at h
  split at h
  · obtain rfl := Except.ok.inj h
    exact ⟨rfl, rfl⟩
  · exact absurd h (by simp)

/-- **What `create` does** when it returns. -/
theorem create_ok {svc : SessionService} {adminId : Uuid} {draw : SessionDraw} {now : Time}
    {g : SessionGrant} (h : t.create svc adminId draw now = .ok (g, t')) :
    ∃ administrator, t.adminById adminId = some administrator ∧ g = svc.grant draw now ∧
      t'.admin = t.admin ∧
      t'.sessions = t.sessions ++ [svc.newSession administrator draw now] := by
  rw [create] at h
  split at h
  · exact absurd h (by simp)
  · rename_i administrator ha
    split at h
    · exact absurd h (by simp)
    · rename_i t'' hi
      obtain ⟨rfl, rfl⟩ := Prod.mk.inj (Except.ok.inj h)
      exact ⟨administrator, ha, rfl, insertSession_ok hi⟩

/-- What `reset_password` does when it returns. -/
theorem resetPassword_ok {unicode : UnicodeTables} {hasher : PasswordHasher} {salt : Bytes}
    {password : String} {now : Time}
    (h : t.resetPassword unicode hasher salt password now = .ok t') :
    ∃ administrator, t.admin = some administrator ∧
      t' = t.resetWrite hasher administrator salt password now := by
  rw [resetPassword] at h
  split at h
  · exact absurd h (by simp)
  · rename_i loaded hl
    refine ⟨loaded, ?_, (Except.ok.inj h).symm⟩
    rw [resetRead] at hl
    split at hl
    · exact absurd hl (by simp)
    · rename_i administrator ha
      split at hl
      · exact absurd hl (by simp)
      · rw [ha, Except.ok.inj hl]

end Accounts

end EzOpenPN
