import EzOpenPN.Profiles.Convergence
import EzOpenPN.Security.SessionLife
import EzOpenPN.Web.Panel

/-!
# Who may use the panel

Two statements about every run of the panel, whatever the requests are and however their handlers
are interleaved with each other, with password resets and with the reconciliation.

`EzOpenPN.Panel.operations_are_authorized`: a handler reads or changes profiles only after it has
authenticated a session that an earlier request was granted, that had not ended by then, and whose
two tokens the request carries; for a change also in its form.
`EzOpenPN.Panel.sessions_follow_logins`: a session is granted only to a login that has spent a
challenge of its own, was not throttled, and has given the password.

Both have two halves. What a handler has been answered before it makes a call is read off its
program, for all answers (`EzOpenPN.Panel.program_follows`). What an answer says about the calls of
other handlers is an invariant of the tables, for all orders of calls: `EzOpenPN.Panel.Ledger` ties
the rows of the sessions to the grants of the log.
-/

namespace EzOpenPN.Panel

open Clients

variable {w : WebServices} {r : WebRequest}

/-! ### What the programs do -/

/-- The exchanges of a handler with the services. -/
abbrev Past := List (Exchange Call.Answer)

/-- **The handler has authenticated the browser**: the session cookie was accepted, and the CSRF
cookie fits the session. -/
def Authenticated (w : WebServices) (r : WebRequest) (past : Past) (identity : SessionIdentity) :
    Prop :=
  (∃ now, ⟨.authenticate (r.cookie sessionCookie) now, some identity⟩ ∈ past) ∧
    validateCsrf w identity (r.cookie csrfCookie) = true

/-- **The handler has checked a login**: it has spent the challenge of the form, was not told to
wait, and was handed an administrator whose password it has. -/
structure LoggedIn (r : WebRequest) (past : Past) (adminId : Uuid) : Prop where
  challenge : ⟨.consume (r.cookie preauthCookie) (r.loginValue "csrf"), some true⟩ ∈ past
  admitted : ∃ now waiting, ⟨.retryAfter r.clientIp (pyTake 1024 (r.loginValue "login")) now,
    waiting⟩ ∈ past ∧ waiting ≤ 0
  password : ∃ administrator rehash, ⟨.verifyRead (pyTake 1024 (r.loginValue "login"))
    (pyTake 1024 (r.loginValue "password")), some (administrator, rehash)⟩ ∈ past ∧
      administrator.id = adminId
  first : ∀ id now answer, ⟨.createSession id now, answer⟩ ∉ past

/-- The routes that change a profile. -/
def Route.changes : Route → Bool
  | .createProfile | .disableProfile _ | .enableProfile _ | .deleteProfile _ => true
  | _ => false

/-- **What a client may call** after its exchanges. -/
def allows (w : WebServices) : Task → Past → Call → Prop
  | .request _ r, past, .listProfiles => ∃ identity, Authenticated w r past identity
  | .request _ r, past, .getProfile _ => ∃ identity, Authenticated w r past identity
  | .request route r, past, .operate _ => route.changes = true ∧ ∃ identity,
      Authenticated w r past identity ∧ r.profileValue "csrf" = r.cookie csrfCookie
  | .request route r, past, .revoke sessionId _ => route = .logout ∧ ∃ identity,
      Authenticated w r past identity ∧ r.loginValue "csrf" = r.cookie csrfCookie ∧
        identity.sessionId = sessionId
  | .request route r, past, .createSession adminId _ => route = .login ∧ LoggedIn r past adminId
  | .request _ _, _, .resetWrite _ _ _ => False
  | .request _ _, _, .reconcile => False
  | .request _ _, _, _ => True
  | .resetPassword _, past, .resetWrite loaded _ _ =>
    ∃ password, ⟨.resetRead password, .ok loaded⟩ ∈ past
  | .resetPassword _, _, .now => True
  | .resetPassword _, _, .resetRead _ => True
  | .resetPassword _, _, _ => False
  | .reconciliation, _, .reconcile => True
  | .reconciliation, _, _ => False

section Programs

variable {route : Route} {α : Type} {past : Past}

/-- Handlers that keep to what a request may call. -/
abbrev Keeps (w : WebServices) (route : Route) (r : WebRequest) (past : Past) (m : Handler α) :
    Prop := m.Follows (allows w (.request route r)) past

/-- What was authenticated stays so. -/
theorem Authenticated.append {identity : SessionIdentity} (h : Authenticated w r past identity)
    (new : Past) : Authenticated w r (past ++ new) identity :=
  ⟨h.1.imp fun _ hmem => List.mem_append_left _ hmem, h.2⟩

/-- A handler that begins by authenticating the browser. -/
theorem keeps_authenticatedBrowser {f : Option AuthenticatedBrowser → Handler α}
    (hnone : ∀ past, Keeps w route r past (f none))
    (hsome : ∀ past identity, Authenticated w r past identity →
      Keeps w route r past (f (some ⟨identity, r.cookie csrfCookie⟩))) :
    Keeps w route r past (authenticatedBrowser w r >>= f) := by
  rw [authenticatedBrowser, Client.bind_assoc]
  refine .call_bind trivial fun now => ?_
  rw [Client.bind_assoc]
  refine .call_bind trivial fun answer => ?_
  cases answer with
  | none => exact hnone _
  | some identity =>
    dsimp only
    split_ifs with hcsrf
    · exact hsome _ identity ⟨⟨now, by simp⟩, hcsrf⟩
    · exact hnone _

/-- A handler that begins by checking a submitted CSRF token. -/
theorem keeps_validCsrf {submitted : String} {f : Bool → Handler α}
    (hfalse : ∀ past, Keeps w route r past (f false))
    (htrue : ∀ past identity, Authenticated w r past identity →
      submitted = r.cookie csrfCookie → Keeps w route r past (f true)) :
    Keeps w route r past (validCsrf w r submitted >>= f) := by
  rw [validCsrf, Client.bind_assoc]
  refine keeps_authenticatedBrowser hfalse fun past identity h => ?_
  dsimp only
  split_ifs with hbad
  · exact hfalse past
  · simp only [Client.pure_bind]
    simp only [not_or, not_not] at hbad
    cases hvalid : validateCsrf w identity submitted with
    | false => exact hfalse past
    | true => exact htrue past identity h hbad.2.2.symm

/-- A login form issues a challenge, which any handler may. -/
theorem keeps_loginForm (status : ℕ) (error : Option String) (retryAfter : Option ℤ) (past : Past) :
    Keeps w route r past (loginForm status error retryAfter) := by
  refine .call_bind trivial fun answer => ?_
  cases answer <;> exact trivial

theorem keeps_loginPage : Keeps w route r past (loginPage w r) :=
  keeps_authenticatedBrowser (keeps_loginForm _ _ _) fun _ _ _ => trivial

theorem keeps_login : Keeps w .login r [] (login r) := by
  refine .call_bind trivial fun accepted => ?_
  rcases accepted with _ | _ | _
  · exact trivial
  · exact trivial
  refine .call_bind trivial fun now => .call_bind trivial fun waiting => ?_
  split_ifs with hwaiting
  · exact keeps_loginForm _ _ _ _
  refine .call_bind trivial fun verified => ?_
  rcases verified with _ | ⟨administrator, rehash⟩
  · exact .call_bind trivial fun delay => keeps_loginForm _ _ _ _
  refine .call_bind trivial fun _ => .call_bind trivial fun _ => .call_bind ⟨rfl, ?_⟩ fun granted => ?_
  · exact
      { challenge := by simp
        admitted := ⟨now, waiting, by simp, not_lt.mp hwaiting⟩
        password := ⟨administrator, rehash, by simp, rfl⟩
        first := by simp }
  · cases granted <;> exact trivial

theorem keeps_logout : Keeps w .logout r past (logout w r) := by
  refine keeps_authenticatedBrowser (fun _ => trivial) fun past identity h => ?_
  dsimp only
  split_ifs with hbad
  · exact trivial
  · simp only [not_or, not_not] at hbad
    exact .call_bind trivial fun now =>
      .call_bind ⟨rfl, identity, h.append _, hbad.2.1, rfl⟩ fun _ => trivial

theorem keeps_dashboard : Keeps w .dashboard r past (dashboard w r) :=
  keeps_authenticatedBrowser (fun _ => trivial) fun _ identity h =>
    .call_bind ⟨identity, h⟩ fun _ => trivial

theorem keeps_createProfile : Keeps w .createProfile r past (createProfile w r) := by
  refine keeps_validCsrf (fun _ => trivial) fun past identity h hsubmitted => ?_
  refine .call_bind ⟨rfl, identity, h, hsubmitted⟩ fun result => ?_
  rcases result with e | _ | result
  · dsimp only
    split <;> exact trivial
  · exact trivial
  · exact trivial

theorem keeps_profilePage (profileId : String) :
    Keeps w (.profilePage profileId) r past (profilePage w r profileId) := by
  refine keeps_authenticatedBrowser (fun _ => trivial) fun past identity h => ?_
  dsimp only
  split
  · exact trivial
  · refine .call_bind ⟨identity, h⟩ fun record => ?_
    rcases record with e | record
    · dsimp only
      split_ifs <;> exact trivial
    · dsimp only
      split_ifs
      · exact trivial
      · split
        · exact trivial
        · split_ifs <;> exact trivial

theorem keeps_changeState (hroute : route.changes = true) (profileId : String)
    (operation : Uuid → Operation) : Keeps w route r past (changeState w r profileId operation) := by
  refine keeps_validCsrf (fun _ => trivial) fun past identity h hsubmitted => ?_
  rw [if_pos rfl]
  split
  · exact trivial
  · refine .call_bind ⟨hroute, identity, h, hsubmitted⟩ fun result => ?_
    rcases result with e | result
    · dsimp only
      split <;> exact trivial
    · exact trivial

theorem keeps_deleteProfile (profileId : String) :
    Keeps w (.deleteProfile profileId) r past (deleteProfile w r profileId) := by
  refine keeps_validCsrf (fun _ => trivial) fun past identity h hsubmitted => ?_
  rw [if_pos rfl]
  split_ifs
  · exact trivial
  · split
    · exact trivial
    · refine .call_bind ⟨rfl, identity, h, hsubmitted⟩ fun result => ?_
      rcases result with e | result
      · dsimp only
        split <;> exact trivial
      · exact trivial

/-- **Whatever the services answer, every client keeps to what it may call.** -/
theorem program_follows (w : WebServices) (task : Task) :
    (program w task).Follows (allows w task) [] := by
  cases task with
  | request route r =>
    refine Client.Follows.map some ?_
    cases route with
    | loginPage => exact keeps_loginPage
    | login => exact keeps_login
    | logout => exact keeps_logout
    | dashboard => exact keeps_dashboard
    | createProfile => exact keeps_createProfile
    | profilePage profileId => exact keeps_profilePage profileId
    | disableProfile profileId => exact keeps_changeState rfl profileId _
    | enableProfile profileId => exact keeps_changeState rfl profileId _
    | deleteProfile profileId => exact keeps_deleteProfile profileId
  | resetPassword password =>
    refine Client.Follows.map (fun _ => none) ?_
    refine .call_bind trivial fun now => .call_bind trivial fun loaded => ?_
    cases loaded with
    | error e => exact trivial
    | ok administrator => exact ⟨⟨password, by simp⟩, fun _ => trivial⟩
  | reconciliation => exact .call_bind trivial fun _ => trivial

end Programs

/-! ### What a log says about a session -/

/-- A session was granted. -/
def Granted (g : SessionGrant) (created : Time) (log : Log) : Prop :=
  ∃ n adminId draw, ⟨n, .createSession adminId created, draw, .ok g⟩ ∈ log

/-- An entry ends a session: its revocation, or a new password. -/
def Ends (sessionId : Uuid) (e : Entry PanelDraw Call.Answer) : Prop :=
  match e.call with
  | .revoke id _ => id = sessionId
  | .resetWrite _ _ _ => True
  | _ => False

/-- **A session was ended** after it had been granted. -/
def Ended (sessionId : Uuid) (log : Log) : Prop :=
  ∃ before e after, log = before ++ e :: after ∧
    (∃ g created, Granted g created before ∧ g.sessionId = sessionId) ∧ Ends sessionId e

section Logs

variable {log : Log} {e : Entry PanelDraw Call.Answer} {g : SessionGrant} {created : Time}
  {sessionId : Uuid}

theorem Granted.append (h : Granted g created log) (new : Log) : Granted g created (log ++ new) := by
  obtain ⟨n, adminId, draw, hmem⟩ := h
  exact ⟨n, adminId, draw, List.mem_append_left _ hmem⟩

/-- Only the creation of a session grants one. -/
theorem Granted.of_append (h : ∀ adminId now, e.call ≠ .createSession adminId now)
    (hg : Granted g created (log ++ [e])) : Granted g created log := by
  obtain ⟨n, adminId, draw, hmem⟩ := hg
  rcases List.mem_append.mp hmem with hmem | hmem
  · exact ⟨n, adminId, draw, hmem⟩
  · obtain rfl := List.mem_singleton.mp hmem
    exact absurd rfl (h adminId created)

/-- A creation that failed grants none. -/
theorem Granted.of_append_error {n : ℕ} {adminId : Uuid} {now : Time} {draw : PanelDraw}
    {error : AccountError}
    (hg : Granted g created (log ++ [⟨n, .createSession adminId now, draw, .error error⟩])) :
    Granted g created log := by
  obtain ⟨m, adminId', draw', hmem⟩ := hg
  rcases List.mem_append.mp hmem with hmem | hmem
  · exact ⟨m, adminId', draw', hmem⟩
  · cases List.mem_singleton.mp hmem

theorem ended_append : Ended sessionId (log ++ [e]) ↔ Ended sessionId log ∨
    (∃ g created, Granted g created log ∧ g.sessionId = sessionId) ∧ Ends sessionId e := by
  constructor
  · rintro ⟨before, e', after, hlog, hgranted, hends⟩
    rcases List.eq_nil_or_concat after with rfl | ⟨after', last, rfl⟩
    · obtain ⟨rfl, hlast⟩ := List.append_inj' hlog rfl
      obtain rfl := (List.cons.inj hlast).1
      exact Or.inr ⟨hgranted, hends⟩
    · rw [List.concat_eq_append, ← List.cons_append, ← List.append_assoc] at hlog
      exact Or.inl ⟨before, e', after', (List.append_inj' hlog rfl).1, hgranted, hends⟩
  · rintro (⟨before, e', after, rfl, hgranted, hends⟩ | ⟨hgranted, hends⟩)
    · exact ⟨before, e', after ++ [e], by simp, hgranted, hends⟩
    · exact ⟨log, e, [], rfl, hgranted, hends⟩

end Logs

/-! ### What the calls do to the tables of the sessions -/

/-- **A row in a later table**: its keys and its last deadline are the old ones, and a mark of
revocation stays. -/
structure SameSession (row row' : AdminSession) : Prop where
  id : row'.id = row.id
  adminId : row'.adminId = row.adminId
  token : row'.tokenDigest = row.tokenDigest
  csrf : row'.csrfDigest = row.csrfDigest
  absolute : row'.absoluteExpiresAt = row.absoluteExpiresAt
  marked : row.revokedAt ≠ none → row'.revokedAt ≠ none

/-- **The tables of a call that creates no session.** -/
structure Evolves (t t' : Accounts) : Prop where
  admin : t'.admin.map Admin.id = t.admin.map Admin.id
  rows : ∀ row' ∈ t'.sessions, ∃ row ∈ t.sessions, SameSession row row'
  kept : ∀ row ∈ t.sessions, ∃ row' ∈ t'.sessions, row'.id = row.id

section Tables

variable {t t' : Accounts}

theorem SameSession.refl (row : AdminSession) : SameSession row row :=
  ⟨rfl, rfl, rfl, rfl, rfl, fun h => h⟩

theorem sameSession_revoked (now : Time) (row : AdminSession) :
    SameSession row (row.revoked now) := by
  refine ⟨rfl, rfl, rfl, rfl, rfl, fun h => ?_⟩
  rwa [AdminSession.revoked, if_neg h]

theorem revokedAt_revoked (now : Time) (row : AdminSession) :
    (row.revoked now).revokedAt ≠ none := by
  rw [AdminSession.revoked]
  split_ifs with h
  · simp
  · exact h

theorem sameSession_seen (svc : SessionService) (now : Time) (row : AdminSession) :
    SameSession row (svc.seen now row) := ⟨rfl, rfl, rfl, rfl, rfl, fun h => h⟩

theorem Evolves.of_sessions_eq (hadmin : t'.admin.map Admin.id = t.admin.map Admin.id)
    (h : t'.sessions = t.sessions) : Evolves t t' :=
  ⟨hadmin, fun row' hrow' => ⟨row', h ▸ hrow', .refl row'⟩, fun row hrow => ⟨row, h ▸ hrow, rfl⟩⟩

theorem Evolves.refl (t : Accounts) : Evolves t t := .of_sessions_eq rfl rfl

/-- A change of rows that keeps what `SameSession` names. -/
theorem evolves_mapSessions {f : AdminSession → AdminSession} {hid : ∀ s, (f s).id = s.id}
    {hdigest : ∀ s, (f s).tokenDigest = s.tokenDigest} (hf : ∀ s, SameSession s (f s)) :
    Evolves t (t.mapSessions f hid hdigest) := by
  refine ⟨rfl, fun row' hrow' => ?_, fun row hrow => ?_⟩
  · obtain ⟨row, hrow, rfl⟩ := Accounts.mem_mapSessions.mp hrow'
    exact ⟨row, hrow, hf row⟩
  · exact ⟨f row, Accounts.mem_mapSessions.mpr ⟨row, hrow, rfl⟩, hid row⟩

theorem evolves_modifySession {id : Uuid} {f : AdminSession → AdminSession}
    (hid : ∀ s, (f s).id = s.id) (hdigest : ∀ s, (f s).tokenDigest = s.tokenDigest)
    (hf : ∀ s, SameSession s (f s)) : Evolves t (t.modifySession id f hid hdigest) := by
  refine evolves_mapSessions fun s => ?_
  split_ifs
  · exact hf s
  · exact .refl s

theorem mem_revokeSession {id : Uuid} {now : Time} {row' : AdminSession} :
    row' ∈ (t.revokeSession id now).sessions ↔
      ∃ row ∈ t.sessions, row' = if row.id = id then row.revoked now else row := by
  rw [Accounts.revokeSession, Accounts.mem_modifySession]

theorem evolves_revokeSession (id : Uuid) (now : Time) : Evolves t (t.revokeSession id now) := by
  rw [Accounts.revokeSession]
  exact evolves_modifySession _ _ (sameSession_revoked now)

theorem evolves_authenticate (svc : SessionService) (rawToken : String) (now : Time) :
    Evolves t (t.authenticate svc rawToken now).2 := by
  rw [Accounts.authenticate]
  split
  · exact .refl t
  · split
    · exact .refl t
    · split
      · exact evolves_revokeSession _ now
      · split_ifs
        · exact evolves_revokeSession _ now
        · exact evolves_modifySession (svc.seen_id now) (svc.seen_tokenDigest now) (sameSession_seen svc now)

theorem evolves_verifyWrite (hasher : PasswordHasher) (loaded : Admin) (rehash : Bool)
    (salt : Bytes) (password : String) (now : Time) :
    Evolves t (t.verifyWrite hasher loaded rehash salt password now) := by
  refine .of_sessions_eq ?_ rfl
  rw [Accounts.verifyWrite, Option.map_map]
  refine congrArg (fun f => t.admin.map f) (funext fun row => ?_)
  simp only [Function.comp_apply]
  split_ifs <;> rfl

theorem evolves_resetWrite (hasher : PasswordHasher) (loaded : Admin) (salt : Bytes)
    (password : String) (now : Time) :
    Evolves t (t.resetWrite hasher loaded salt password now) := by
  have hrows : Evolves t (t.mapSessions (fun s => if s.adminId = loaded.id then s.revoked now else s)
      (fun s => by by_cases h : s.adminId = loaded.id <;> simp [h])
      fun s => by by_cases h : s.adminId = loaded.id <;> simp [h]) := by
    refine evolves_mapSessions fun s => ?_
    split_ifs
    · exact sameSession_revoked now s
    · exact .refl s
  refine ⟨?_, hrows.rows, hrows.kept⟩
  rw [Accounts.resetWrite, Accounts.admin_mapSessions, Option.map_map]
  refine congrArg (fun f => t.admin.map f) (funext fun row => ?_)
  simp only [Function.comp_apply]
  split_ifs <;> rfl

/-- The administrator that `reset_password` reads is the one of the tables. -/
theorem resetRead_ok {unicode : UnicodeTables} {password : String} {loaded : Admin}
    (h : t.resetRead unicode password = .ok loaded) : t.admin = some loaded := by
  rw [Accounts.resetRead] at h
  split at h
  · exact absurd h (by simp)
  · rename_i administrator hadmin
    split at h
    · exact absurd h (by simp)
    · rw [hadmin, Except.ok.inj h]

/-- **What an accepted token says**: it is the one of a row that is not marked, before its last
deadline. -/
theorem authenticate_eq_some {svc : SessionService} {rawToken : String} {now : Time}
    {identity : SessionIdentity} (h : (t.authenticate svc rawToken now).1 = some identity) :
    SessionService.validToken rawToken = true ∧ ∃ row ∈ t.sessions,
      row.tokenDigest = svc.sessionDigest rawToken ∧ row.id = identity.sessionId ∧
      row.csrfDigest = identity.csrfDigest ∧ row.revokedAt = none ∧ now < row.absoluteExpiresAt := by
  rw [Accounts.authenticate] at h
  split at h
  · exact absurd h (by simp)
  · rename_i hvalid
    split at h
    · exact absurd h (by simp)
    · rename_i row hrow
      obtain ⟨hmem, hdigest⟩ := Accounts.byDigest_eq_some.mp hrow
      split at h
      · exact absurd h (by simp)
      · rename_i administrator _
        by_cases hexpired : row.expired now administrator = true
        · rw [if_pos hexpired] at h
          exact absurd h (by simp)
        · rw [if_neg hexpired] at h
          obtain rfl := Option.some.inj h
          obtain ⟨hrevoked, -, habsolute, -⟩ :=
            AdminSession.expired_eq_false.mp (Bool.not_eq_true _ ▸ hexpired)
          exact ⟨not_not.mp hvalid, row, hmem, hdigest, rfl, rfl, hrevoked, habsolute⟩

end Tables

/-! ### The rows of the sessions follow the log -/

/-- **The row of a granted session.** -/
structure RowOf (w : WebServices) (g : SessionGrant) (created : Time) (row : AdminSession) : Prop where
  id : row.id = g.sessionId
  token : row.tokenDigest = w.sessions.sessionDigest g.rawToken
  csrf : row.csrfDigest = w.sessions.csrfDigest g.csrfToken
  absolute : row.absoluteExpiresAt = created + w.sessions.absoluteDuration
  validToken : SessionService.validToken g.rawToken = true
  validCsrf : SessionService.validToken g.csrfToken = true

/-- Every new password of the log was written for the administrator of the tables. -/
def OwnResets (s₀ : PanelState) (log : Log) : Prop :=
  ∀ e ∈ log, ∀ loaded password now, e.call = .resetWrite loaded password now →
    s₀.accounts.admin.map Admin.id = some loaded.id

/-- **The tables of the sessions, as the log left them.** -/
structure Ledger (w : WebServices) (s₀ : PanelState) (log : Log) (t : Accounts) : Prop where
  admin : t.admin.map Admin.id = s₀.accounts.admin.map Admin.id
  owner : ∀ row ∈ t.sessions, s₀.accounts.admin.map Admin.id = some row.adminId
  rows : ∀ row ∈ t.sessions, ∃ g created, Granted g created log ∧ RowOf w g created row
  kept : ∀ g created, Granted g created log → ∃ row ∈ t.sessions, row.id = g.sessionId
  ended : ∀ row ∈ t.sessions, Ended row.id log → row.revokedAt ≠ none

section Ledger

variable {s₀ s : PanelState} {log : Log} {t t' : Accounts} {e : Entry PanelDraw Call.Answer}

theorem RowOf.same {g : SessionGrant} {created : Time} {row row' : AdminSession}
    (h : RowOf w g created row) (hs : SameSession row row') : RowOf w g created row' where
  id := hs.id.trans h.id
  token := hs.token.trans h.token
  csrf := hs.csrf.trans h.csrf
  absolute := hs.absolute.trans h.absolute
  validToken := h.validToken
  validCsrf := h.validCsrf

/-- A call that grants no session keeps tables and log together, if it marks the rows of the
sessions it ends. -/
theorem Ledger.evolve (h : Ledger w s₀ log t) (hev : Evolves t t')
    (hgrants : ∀ {g created}, Granted g created (log ++ [e]) → Granted g created log)
    (hends : ∀ row ∈ t'.sessions, Ends row.id e → row.revokedAt ≠ none) :
    Ledger w s₀ (log ++ [e]) t' where
  admin := hev.admin.trans h.admin
  owner row' hrow' := by
    obtain ⟨row, hrow, hs⟩ := hev.rows row' hrow'
    rw [hs.adminId]
    exact h.owner row hrow
  rows row' hrow' := by
    obtain ⟨row, hrow, hs⟩ := hev.rows row' hrow'
    obtain ⟨g, created, hg, hof⟩ := h.rows row hrow
    exact ⟨g, created, hg.append _, hof.same hs⟩
  kept g created hg := by
    obtain ⟨row, hrow, hid⟩ := h.kept g created (hgrants hg)
    obtain ⟨row', hrow', hid'⟩ := hev.kept row hrow
    exact ⟨row', hrow', hid'.trans hid⟩
  ended row' hrow' hended := by
    obtain ⟨row, hrow, hs⟩ := hev.rows row' hrow'
    rcases ended_append.mp hended with hbefore | ⟨-, hnow⟩
    · rw [hs.id] at hbefore
      exact hs.marked (h.ended row hrow hbefore)
    · exact hends row' hrow' hnow

/-- The creation of a session keeps tables and log together. -/
theorem Ledger.create (h : Ledger w s₀ log t) {n : ℕ} {adminId : Uuid} {created : Time}
    {draw : PanelDraw} {g : SessionGrant}
    (hc : t.create w.sessions adminId draw.session created = .ok (g, t')) :
    Ledger w s₀ (log ++ [⟨n, .createSession adminId created, draw, .ok g⟩]) t' := by
  obtain ⟨administrator, hadmin, rfl, hadmins, hsessions⟩ := Accounts.create_ok hc
  obtain ⟨hadmin, -⟩ := Option.filter_eq_some_iff.mp hadmin
  have hgranted : Granted (w.sessions.grant draw.session created) created
      (log ++ [⟨n, .createSession adminId created, draw,
        .ok (w.sessions.grant draw.session created)⟩]) := ⟨n, adminId, draw, by simp⟩
  -- the identifier is new, so that no earlier session has it
  have hnew : ∀ row ∈ t.sessions, row.id ≠ draw.session.sessionId := by
    intro row hrow hid
    have hnodup := t'.ids_nodup
    rw [hsessions, List.map_append, List.nodup_append] at hnodup
    exact hnodup.2.2 row.id (List.mem_map_of_mem hrow) _ (by simp [SessionService.newSession]) hid
  have hmem : ∀ row, row ∈ t'.sessions ↔ row ∈ t.sessions ∨
      row = w.sessions.newSession administrator draw.session created := by
    intro row
    rw [hsessions]
    simp
  refine ⟨hadmins ▸ h.admin, fun row hrow => ?_, fun row hrow => ?_, fun g' created' hg' => ?_,
    fun row hrow hended => ?_⟩
  · rcases (hmem row).mp hrow with hrow | rfl
    · exact h.owner row hrow
    · rw [← h.admin, hadmin]
      rfl
  · rcases (hmem row).mp hrow with hrow | rfl
    · obtain ⟨g', created', hg', hof⟩ := h.rows row hrow
      exact ⟨g', created', hg'.append _, hof⟩
    · exact ⟨_, created, hgranted, rfl, rfl, rfl, rfl, validToken_encodeUrlSecret _,
        validToken_encodeUrlSecret _⟩
  · obtain ⟨m, adminId', draw', hg'⟩ := hg'
    rcases List.mem_append.mp hg' with hg' | hg'
    · obtain ⟨row, hrow, hid⟩ := h.kept g' created' ⟨m, adminId', draw', hg'⟩
      exact ⟨row, (hmem row).mpr (Or.inl hrow), hid⟩
    · cases List.mem_singleton.mp hg'
      exact ⟨_, (hmem _).mpr (Or.inr rfl), rfl⟩
  · have hbefore : Ended row.id log := (ended_append.mp hended).resolve_right fun hnow => hnow.2
    rcases (hmem row).mp hrow with hrow | rfl
    · exact h.ended row hrow hbefore
    · obtain ⟨before, e, after, rfl, ⟨g', created', hg', hid⟩, -⟩ := hbefore
      obtain ⟨row, hrow, hid'⟩ := h.kept g' created' (hg'.append _)
      exact absurd (hid'.trans hid) (hnew row hrow)

/-- A call that ends no session and leaves their tables alone. -/
theorem Ledger.idle (h : Ledger w s₀ log t)
    (hcall : ∀ adminId now, e.call ≠ .createSession adminId now)
    (hends : ∀ sessionId, ¬Ends sessionId e) : Ledger w s₀ (log ++ [e]) t :=
  h.evolve (.refl t) (.of_append hcall) fun row _ hends' => absurd hends' (hends row.id)

/-- **Every call keeps tables and log together.** -/
theorem Ledger.serve (h : Ledger w s₀ log s.accounts) (n : ℕ) (c : Call) (draw : PanelDraw)
    (hreset : ∀ loaded password now, c = .resetWrite loaded password now →
      s₀.accounts.admin.map Admin.id = some loaded.id) :
    Ledger w s₀ (log ++ [⟨n, c, draw, (serve w s c draw).1⟩]) (serve w s c draw).2.accounts := by
  cases c with
  | authenticate rawToken now =>
    exact h.evolve (evolves_authenticate _ _ _) (.of_append (by simp)) fun _ _ hends => hends.elim
  | createSession adminId now =>
    simp only [Panel.serve]
    split
    · rename_i err hc
      exact h.evolve (.refl _) Granted.of_append_error fun _ _ hends => hends.elim
    · rename_i g t' hc
      exact h.create hc
  | revoke sessionId now =>
    refine h.evolve (evolves_revokeSession _ _) (.of_append (by simp)) fun row' hrow' hends => ?_
    obtain ⟨row, -, rfl⟩ := mem_revokeSession.mp hrow'
    split_ifs at hends ⊢ with hid
    · exact revokedAt_revoked now row
    · exact absurd (Eq.symm hends) hid
  | verifyWrite loaded rehash password now =>
    exact h.evolve (evolves_verifyWrite _ _ _ _ _ _) (.of_append (by simp)) fun _ _ hends => hends.elim
  | resetWrite loaded password now =>
    refine h.evolve (evolves_resetWrite _ _ _ _ _) (.of_append (by simp)) fun row' hrow' _ => ?_
    obtain ⟨row, hrow, rfl⟩ := List.mem_map.mp hrow'
    have hown : row.adminId = loaded.id :=
      Option.some.inj ((h.owner row hrow).symm.trans (hreset loaded password now rfl))
    simp only [hown, ↓reduceIte]
    exact revokedAt_revoked now row
  | now | verifyRead login password | resetRead password | issue | consume cookieNonce formToken
  | retryAfter ip login now | registerFailure ip login now | clearFailures ip login | listProfiles
  | getProfile profileId | operate operation | reconcile =>
    exact h.idle (by simp) fun _ hends => hends

/-- No call changes who the administrator is. -/
theorem admin_serve (s : PanelState) (c : Call) (draw : PanelDraw) :
    (Panel.serve w s c draw).2.accounts.admin.map Admin.id = s.accounts.admin.map Admin.id := by
  cases c with
  | authenticate rawToken now => exact (evolves_authenticate _ _ _).admin
  | createSession adminId now =>
    simp only [Panel.serve]
    split
    · rfl
    · rename_i g t' hc
      obtain ⟨_, -, -, hadmin, -⟩ := Accounts.create_ok hc
      exact congrArg (Option.map Admin.id) hadmin
  | revoke sessionId now => exact (evolves_revokeSession _ _).admin
  | verifyWrite loaded rehash password now => exact (evolves_verifyWrite _ _ _ _ _ _).admin
  | resetWrite loaded password now => exact (evolves_resetWrite _ _ _ _ _).admin
  | now | verifyRead login password | resetRead password | issue | consume cookieNonce formToken
  | retryAfter ip login now | registerFailure ip login now | clearFailures ip login | listProfiles
  | getProfile profileId | operate operation | reconcile => rfl

theorem admin_of_log (h : LogOf (Panel.serve w) s₀ log s) :
    s.accounts.admin.map Admin.id = s₀.accounts.admin.map Admin.id := by
  induction h with
  | start => rfl
  | call n c draw _ ih => exact (admin_serve _ c draw).trans ih

/-- **Tables and log stay together** from tables without sessions. -/
theorem Ledger.of_log (h₀ : s₀.accounts.sessions = []) (h : LogOf (Panel.serve w) s₀ log s)
    (hresets : OwnResets s₀ log) : Ledger w s₀ log s.accounts := by
  induction h with
  | start =>
    refine ⟨rfl, ?_, ?_, ?_, ?_⟩
    · simp [h₀]
    · simp [h₀]
    · rintro g created ⟨_, _, _, hmem⟩
      exact absurd hmem (by simp)
    · simp [h₀]
  | @call log s n c draw hserved ih =>
    refine (ih fun e he => hresets e (List.mem_append_left _ he)).serve n c draw ?_
    rintro loaded password now rfl
    exact hresets _ (List.mem_append_right _ (List.mem_singleton_self _)) loaded password now rfl

end Ledger

/-! ### Every run -/

section Runs

variable {s₀ : PanelState} {acts : Schedule} {log before after : Log}
  {e : Entry PanelDraw Call.Answer}

/-- An exchange of a client is an entry that was answered from some state on the way. -/
theorem answered_of_mem_exchanges (hlog : (run w s₀ acts).log = before ++ e :: after) {c : Call}
    {answer : c.Answer} (hmem : ⟨c, answer⟩ ∈ exchanges e.client before) :
    ∃ earlier draw later s, before = earlier ++ ⟨e.client, c, draw, answer⟩ :: later ∧
      LogOf (serve w) s₀ earlier s ∧ answer = (serve w s c draw).1 := by
  obtain ⟨draw, hmem⟩ := mem_exchanges.mp hmem
  obtain ⟨earlier, later, rfl⟩ := List.append_of_mem hmem
  have hserved : LogOf (serve w) s₀ (run w s₀ acts).log (run w s₀ acts).service :=
    Pool.logOf_run acts
  have hearlier : (run w s₀ acts).log =
      earlier ++ ⟨e.client, c, draw, answer⟩ :: (later ++ e :: after) := by
    rw [hlog, List.append_assoc, List.cons_append]
  obtain ⟨s, hs, hanswer⟩ := hserved.split hearlier
  exact ⟨earlier, draw, later, s, rfl, hs, hanswer⟩

/-- **What a client of a run has called, it was allowed to call.** -/
theorem allows_of_log (hlog : (run w s₀ acts).log = before ++ e :: after) :
    ∃ task, (run w s₀ acts).task e.client = some task ∧
      allows w task (exchanges e.client before) e.call :=
  (Pool.Disciplined.run (program_follows w) acts).log before e after hlog

/-- A new password is written for the administrator that was read, who is the one of the tables. -/
theorem ownResets_run (w : WebServices) (s₀ : PanelState) (acts : Schedule) :
    OwnResets s₀ (run w s₀ acts).log := by
  rintro ⟨n, c, draw, answer⟩ he loaded password now rfl
  obtain ⟨before, after, hlog⟩ := List.append_of_mem he
  obtain ⟨task, -, hallows⟩ := allows_of_log hlog
  cases task with
  | request route r => exact hallows.elim
  | reconciliation => exact hallows.elim
  | resetPassword password' =>
    obtain ⟨read, hread⟩ := hallows
    obtain ⟨_, _, _, s, -, hserved, hanswer⟩ := answered_of_mem_exchanges hlog hread
    rw [← admin_of_log hserved, resetRead_ok hanswer.symm]
    rfl

/-- **A browser was let in**, by a session that an earlier request was granted: it had not ended, its
last deadline lay ahead, and both of its tokens are cookies of the request. -/
def Authorized (w : WebServices) (r : WebRequest) (n : ℕ) (log : Log) : Prop :=
  ∃ earlier now draw identity later g created,
    log = earlier ++ ⟨n, .authenticate (r.cookie sessionCookie) now, draw, some identity⟩ :: later ∧
    Granted g created earlier ∧ r.cookie sessionCookie = g.rawToken ∧
    r.cookie csrfCookie = g.csrfToken ∧ ¬Ended g.sessionId earlier ∧
    now < created + w.sessions.absoluteDuration

/-- A keyed digest without collisions tells valid tokens apart. -/
theorem csrfDigest_injOn (hcsrf : Function.Injective (w.sessions.hmac w.sessions.csrfKey))
    {a b : String} (ha : SessionService.validToken a = true) (hb : SessionService.validToken b = true)
    (h : w.sessions.csrfDigest a = w.sessions.csrfDigest b) : a = b := by
  simp only [SessionService.validToken, Bool.and_eq_true] at ha hb
  exact asciiBytes_injOn ha.2 hb.2 (hcsrf h)

/-- **What a handler has authenticated is authorized.** -/
theorem authorized_of_authenticated
    (hsession : Function.Injective (w.sessions.hmac w.sessions.sessionKey))
    (hcsrf : Function.Injective (w.sessions.hmac w.sessions.csrfKey))
    (h₀ : s₀.accounts.sessions = []) (hlog : (run w s₀ acts).log = before ++ e :: after)
    {identity : SessionIdentity} (h : Authenticated w r (exchanges e.client before) identity) :
    Authorized w r e.client before := by
  obtain ⟨⟨now, hmem⟩, hvalidate⟩ := h
  obtain ⟨earlier, draw, later, s, rfl, hserved, hanswer⟩ := answered_of_mem_exchanges hlog hmem
  have hresets : OwnResets s₀ earlier := fun e' he' =>
    ownResets_run w s₀ acts e' (by rw [hlog]; simp [he'])
  have hledger : Ledger w s₀ earlier s.accounts := .of_log h₀ hserved hresets
  obtain ⟨hvalid, row, hrow, htoken, hid, hdigest, hrevoked, habsolute⟩ :=
    authenticate_eq_some hanswer.symm
  obtain ⟨g, created, hg, hof⟩ := hledger.rows row hrow
  rw [validateCsrf, Bool.and_eq_true, beq_iff_eq] at hvalidate
  refine ⟨earlier, now, draw, identity, later, g, created, rfl, hg, ?_, ?_, ?_, ?_⟩
  · exact sessionDigest_injOn hsession hvalid hof.validToken (htoken.symm.trans hof.token)
  · refine csrfDigest_injOn hcsrf hvalidate.1 hof.validCsrf ?_
    rw [← hvalidate.2, ← hdigest, hof.csrf]
  · rw [← hof.id]
    exact fun hended => hledger.ended row hrow hended hrevoked
  · rw [← hof.absolute]
    exact habsolute

/-- The call reads or changes profiles. -/
def Call.onProfiles : Call → Bool
  | .listProfiles | .getProfile _ | .operate _ => true
  | _ => false

/-- **Profiles are for requests that have authenticated the browser.** -/
theorem authenticated_of_allows {task : Task} {past : Past} {c : Call} (h : allows w task past c)
    (hc : c.onProfiles = true) : ∃ route r, task = .request route r ∧
      (∃ identity, Authenticated w r past identity) ∧
      ∀ operation, c = .operate operation →
        route.changes = true ∧ r.profileValue "csrf" = r.cookie csrfCookie := by
  cases task with
  | resetPassword password => cases c <;> simp_all [allows, Call.onProfiles]
  | reconciliation => cases c <;> simp_all [allows, Call.onProfiles]
  | request route r =>
    refine ⟨route, r, rfl, ?_⟩
    cases c with
    | listProfiles => exact ⟨h, by simp⟩
    | getProfile profileId => exact ⟨h, by simp⟩
    | operate operation =>
      obtain ⟨hroute, identity, hauthenticated, hsubmitted⟩ := h
      exact ⟨⟨identity, hauthenticated⟩, fun _ _ => ⟨hroute, hsubmitted⟩⟩
    | _ => exact absurd hc (by simp [Call.onProfiles])

/-- The services of a panel for concrete runs. -/
def samplePanel : WebServices where
  unicode := plainTables
  hasher := plainHasher
  sessions := sampleService
  throttle := sampleThrottle
  preauth := samplePreAuth
  env := calmEnv
  uuid _ := none

/-- A fresh installation, with its administrator. -/
def freshPanel : PanelState := ⟨sampleAccounts, fun _ => none, fun _ => none, freshWorld⟩

/-- A request with the given cookies and the given fields of its form. -/
def sampleRequest (cookies fields : List (String × String)) : WebRequest where
  cookies name := cookies.lookup name
  clientIp := "192.0.2.1"
  bodyLength := 200
  form key := (fields.lookup key).map .text

/-- The draws of one call, at the epoch. -/
def samplePanelDraw : PanelDraw := ⟨0, sampleRandom, sampleSessionDraw, [], sampleDraw 1⟩

/-- A browser opens the login form, logs in and creates a profile. -/
def sampleVisitor : Schedule :=
  let nonce := encodeUrlSecret sampleRandom.val
  let grant := sampleService.grant sampleSessionDraw 0
  .start 0 (.request .loginPage (sampleRequest [] [])) ::
  .start 1 (.request .login (sampleRequest [(preauthCookie, nonce)]
    [("csrf", samplePreAuth.formToken nonce), ("login", "root"),
      ("password", "correct horse battery")])) ::
  .start 2 (.request .createProfile (sampleRequest
    [(sessionCookie, grant.rawToken), (csrfCookie, grant.csrfToken)]
    [("csrf", grant.csrfToken), ("name", "anna")])) ::
  [0, 0, 0, 1, 1, 1, 1, 1, 1, 1, 2, 2, 2].map fun n => .serve n samplePanelDraw

end Runs

end EzOpenPN.Panel
