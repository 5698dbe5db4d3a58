import EzOpenPN.Lib.Clients
import EzOpenPN.Profiles.Coordinator
import EzOpenPN.Security.Accounts
import EzOpenPN.Security.Throttle
import EzOpenPN.Web.PreAuth

/-!
# The panel

The request handlers of the panel, as programs that call the services: the sessions, the
challenges of the login form, the throttle, the administrator and the profiles. A call is one
transaction of the database, or one operation of the coordinator, which holds its lock. Between two
calls of a handler anything may happen: other requests, a password reset on the command line, the
periodic reconciliation. The handlers and those two are the clients of `EzOpenPN.Panel.serve`.

`verify_credentials` and `reset_password` are two calls each, the reading half and the writing half.
Pages are values and not texts, and the QR codes of a profile page, which are drawings of its links,
are left out.
-/

namespace EzOpenPN.Panel

open Clients

/-! ### Requests and responses -/

/-- A value of a submitted form: a text, or an uploaded file. -/
inductive FormValue where
  | text (value : String)
  | upload

/-- **A request**, with the address that the middleware has found for its client. -/
structure WebRequest where
  cookies : String → Option String
  clientIp : String
  bodyLength : ℕ
  form : String → Option FormValue

/-- The routes, with the part of the path they read. -/
inductive Route where
  | loginPage
  | login
  | logout
  | dashboard
  | createProfile
  | profilePage (profileId : String)
  | disableProfile (profileId : String)
  | enableProfile (profileId : String)
  | deleteProfile (profileId : String)

/-- `SESSION_COOKIE`. -/
def sessionCookie : String := "ezop_session"

/-- `CSRF_COOKIE`. -/
def csrfCookie : String := "ezop_csrf"

/-- `PREAUTH_COOKIE`. -/
def preauthCookie : String := "ezop_preauth"

/-- `_MAX_FORM_BYTES`. -/
def maxFormBytes : ℕ := 16 * 1024

namespace WebRequest

variable (r : WebRequest)

/-- `request.cookies.get(name, "")`. -/
def cookie (name : String) : String := (r.cookies name).getD ""

/-- `_form`, for the keys of a route: a body that is too long gives nothing, a key that is missing
gives the empty text, and an uploaded file is no value. -/
def values (keys : List String) (key : String) : Option String :=
  if maxFormBytes < r.bodyLength ∨ key ∉ keys then none
  else
    match r.form key with
    | none => some ""
    | some (.text value) => some value
    | some .upload => none

/-- The keys that the routes of the login read. -/
def loginKeys : List String := ["login", "password", "csrf"]

/-- The keys that the routes of the profiles read. -/
def profileKeys : List String := ["csrf", "name", "confirm"]

/-- `values.get(key, "")` on the routes of the login. -/
def loginValue (key : String) : String := (r.values loginKeys key).getD ""

/-- `values.get(key, "")` on the routes of the profiles. -/
def profileValue (key : String) : String := (r.values profileKeys key).getD ""

end WebRequest

/-- `AuthenticatedBrowser`. -/
structure AuthenticatedBrowser where
  identity : SessionIdentity
  csrfToken : String

/-- What a response shows. -/
inductive Page where
  | text (content : String)
  | redirect (location : String)
  | login (csrf : String) (error : Option String)
  | dashboard (browser : AuthenticatedBrowser) (csrf : String) (profiles : List ProfileRecord)
  | profile (browser : AuthenticatedBrowser) (csrf : String) (profile : ProfileRecord)
      (links : Option LinkBundle)

/-- A cookie of a response, `Secure` and `SameSite=Strict` like all of them; a cookie without a
value is one that is deleted. -/
structure SetCookie where
  name : String
  value : Option String
  maxAge : ℕ
  path : String
  httpOnly : Bool

/-- A response. -/
structure WebResponse where
  status : ℕ
  page : Page
  retryAfter : Option ℤ := none
  setCookies : List SetCookie := []

/-- `HTMLResponse(content, status_code)`. -/
def refuse (status : ℕ) (content : String) : WebResponse := ⟨status, .text content, none, []⟩

/-- `RedirectResponse(location, status_code=303)`. -/
def seeOther (location : String) : WebResponse := ⟨303, .redirect location, none, []⟩

/-- What an exception that no handler catches becomes. -/
def internalError : WebResponse := refuse 500 "Внутренняя ошибка."

/-! ### The calls -/

/-- An operation of the coordinator. -/
inductive Operation where
  | create (name : String)
  | disable (profileId : Uuid)
  | enable (profileId : Uuid)
  | delete (profileId : Uuid)

/-- **What a handler can call.** -/
inductive Call where
  /-- `datetime.now(UTC)`. -/
  | now
  /-- `SessionService.authenticate`. -/
  | authenticate (rawToken : String) (now : Time)
  /-- `SessionService.create`. -/
  | createSession (adminId : Uuid) (now : Time)
  /-- `SessionService.revoke`. -/
  | revoke (sessionId : Uuid) (now : Time)
  /-- The first half of `AdminService.verify_credentials`. -/
  | verifyRead (login password : String)
  /-- Its second half. -/
  | verifyWrite (loaded : Admin) (rehash : Bool) (password : String) (now : Time)
  /-- The first half of `AdminService.reset_password`. -/
  | resetRead (password : String)
  /-- Its second half. -/
  | resetWrite (loaded : Admin) (password : String) (now : Time)
  /-- `PreAuthService.issue`. -/
  | issue
  /-- `PreAuthService.consume`. -/
  | consume (cookieNonce formToken : String)
  /-- `LoginThrottleService.retry_after`. -/
  | retryAfter (ip login : String) (now : Time)
  /-- `LoginThrottleService.register_failure`. -/
  | registerFailure (ip login : String) (now : Time)
  /-- `LoginThrottleService.clear`. -/
  | clearFailures (ip login : String)
  /-- `ProfileRepository.list`. -/
  | listProfiles
  /-- `ProfileRepository.get`. -/
  | getProfile (profileId : Uuid)
  /-- An operation of `ProfileCoordinator`. -/
  | operate (operation : Operation)
  /-- `ProfileCoordinator.reconcile`. -/
  | reconcile

/-- What a call answers; `none` of a challenge and of its check is an exception. -/
abbrev Call.Answer : Call → Type
  | .now => Time
  | .authenticate _ _ => Option SessionIdentity
  | .createSession _ _ => Except AccountError SessionGrant
  | .revoke _ _ => Unit
  | .verifyRead _ _ => Option (Admin × Bool)
  | .verifyWrite _ _ _ _ => Unit
  | .resetRead _ => Except AccountError Admin
  | .resetWrite _ _ _ => Unit
  | .issue => Option PreAuthChallenge
  | .consume _ _ => Option Bool
  | .retryAfter _ _ _ => ℤ
  | .registerFailure _ _ _ => ℕ
  | .clearFailures _ _ => Unit
  | .listProfiles => List ProfileRecord
  | .getProfile _ => Except PyError ProfileRecord
  | .operate _ => Except PyError (Option ProfileResult)
  | .reconcile => Except PyError ReconcileResult

/-- A handler that ends with a value. -/
abbrev Handler := Client Call.Answer

/-- Make a call. -/
abbrev ask (c : Call) : Handler c.Answer := Client.call c

/-- **The services of the panel.** -/
structure WebServices where
  unicode : UnicodeTables
  hasher : PasswordHasher
  sessions : SessionService
  throttle : LoginThrottleService
  preauth : PreAuthService
  env : Env
  /-- `UUID(value)`, which raises `ValueError` for what is no UUID. -/
  uuid : String → Option Uuid

/-- What the services draw or read for one call: the clock, and random bytes for whatever is
created. -/
structure PanelDraw where
  clock : Time
  nonce : { b : Bytes // b.length = 32 }
  session : SessionDraw
  salt : Bytes
  profile : Draw

/-- **The state of the services.** -/
structure PanelState where
  accounts : Accounts
  challenges : SystemStates
  throttles : LoginThrottles
  world : World

section Service

variable (w : WebServices)

/-- An operation of the coordinator, as a computation of the control process. -/
def Operation.perform (draw : Draw) : Operation → Py (Option ProfileResult)
  | .create name => do return some (← EzOpenPN.create w.env name draw)
  | .disable profileId => do return some (← EzOpenPN.disable w.env profileId)
  | .enable profileId => do return some (← EzOpenPN.enable w.env profileId)
  | .delete profileId => do
    EzOpenPN.delete w.env profileId
    return none

/-- **One call.** -/
def serve (s : PanelState) : (c : Call) → PanelDraw → c.Answer × PanelState
  | .now, d => (d.clock, s)
  | .authenticate rawToken now, _ =>
    let (identity, t) := s.accounts.authenticate w.sessions rawToken now
    (identity, { s with accounts := t })
  | .createSession adminId now, d =>
    match s.accounts.create w.sessions adminId d.session now with
    | .error e => (.error e, s)
    | .ok (grant, t) => (.ok grant, { s with accounts := t })
  | .revoke sessionId now, _ => ((), { s with accounts := s.accounts.revoke sessionId now })
  | .verifyRead login password, _ =>
    (s.accounts.verifyRead w.unicode w.hasher login password, s)
  | .verifyWrite loaded rehash password now, d =>
    ((), { s with accounts := s.accounts.verifyWrite w.hasher loaded rehash d.salt password now })
  | .resetRead password, _ => (s.accounts.resetRead w.unicode password, s)
  | .resetWrite loaded password now, d =>
    ((), { s with accounts := s.accounts.resetWrite w.hasher loaded d.salt password now })
  | .issue, d =>
    let (challenge, t) := w.preauth.issue s.challenges d.nonce d.clock
    (challenge, { s with challenges := t })
  | .consume cookieNonce formToken, d =>
    let (accepted, t) := w.preauth.consume s.challenges cookieNonce formToken d.clock
    (accepted, { s with challenges := t })
  | .retryAfter ip login now, _ => (s.throttles.retryAfter w.throttle ip login now, s)
  | .registerFailure ip login now, _ =>
    let (delay, t) := s.throttles.registerFailure w.throttle ip login now
    (delay, { s with throttles := t })
  | .clearFailures ip login, _ =>
    ((), { s with throttles := s.throttles.clear w.throttle ip login })
  | .listProfiles, _ => (s.world.tables.list, s)
  | .getProfile profileId, _ => (s.world.tables.get profileId, s)
  | .operate operation, d =>
    let (result, world) := operation.perform w d.profile s.world
    (result, { s with world := world })
  | .reconcile, _ =>
    let (result, world) := EzOpenPN.reconcile w.env s.world
    (result, { s with world := world })

end Service

/-! ### The handlers -/

section Handlers

variable (w : WebServices) (r : WebRequest)

/-- `SessionService.validate_csrf`. -/
def validateCsrf (identity : SessionIdentity) (rawToken : String) : Bool :=
  SessionService.validToken rawToken && identity.csrfDigest == w.sessions.csrfDigest rawToken

/-- `authenticated_browser`. -/
def authenticatedBrowser : Handler (Option AuthenticatedBrowser) := do
  let now ← ask .now
  match ← ask (.authenticate (r.cookie sessionCookie) now) with
  | none => return none
  | some identity =>
    let csrfToken := r.cookie csrfCookie
    if validateCsrf w identity csrfToken then return some ⟨identity, csrfToken⟩
    else return none

/-- `_set_preauth_cookie`. -/
def setPreauthCookie (nonce : String) : SetCookie :=
  ⟨preauthCookie, some nonce, 5 * 60, "/login", true⟩

/-- `_login_page`. -/
def loginForm (status : ℕ) (error : Option String) (retryAfter : Option ℤ) :
    Handler WebResponse := do
  match ← ask .issue with
  | none => return internalError
  | some challenge =>
    return ⟨status, .login challenge.formToken error, retryAfter,
      [setPreauthCookie challenge.cookieNonce]⟩

/-- `login_page`. -/
def loginPage : Handler WebResponse := do
  match ← authenticatedBrowser w r with
  | some _ => return seeOther "/"
  | none => loginForm 200 none none

/-- **`login`.** -/
def login : Handler WebResponse := do
  match ← ask (.consume (r.cookie preauthCookie) (r.loginValue "csrf")) with
  | none => return internalError
  | some false => return refuse 403 "Запрос устарел. Откройте страницу входа снова."
  | some true =>
    let loginValue := pyTake 1024 (r.loginValue "login")
    let passwordValue := pyTake 1024 (r.loginValue "password")
    let now ← ask .now
    let waiting ← ask (.retryAfter r.clientIp loginValue now)
    if 0 < waiting then
      loginForm 429 (some "Слишком много попыток. Подождите и попробуйте снова.")
        (some (ceilSeconds waiting))
    else
      match ← ask (.verifyRead loginValue passwordValue) with
      | none =>
        let delay ← ask (.registerFailure r.clientIp loginValue now)
        loginForm 401 (some "Логин или пароль не подошли.") (some delay)
      | some (administrator, rehash) =>
        let _ ← ask (.verifyWrite administrator rehash passwordValue now)
        let _ ← ask (.clearFailures r.clientIp loginValue)
        match ← ask (.createSession administrator.id now) with
        | .error _ => return internalError
        | .ok grant =>
          return { seeOther "/" with
            setCookies := [
              ⟨sessionCookie, some grant.rawToken, 7 * 24 * 60 * 60, "/", true⟩,
              ⟨csrfCookie, some grant.csrfToken, 7 * 24 * 60 * 60, "/", false⟩,
              ⟨preauthCookie, none, 0, "/login", true⟩] }

/-- **`logout`.** -/
def logout : Handler WebResponse := do
  match ← authenticatedBrowser w r with
  | none => return refuse 403 "Действие отклонено."
  | some browser =>
    let submitted := r.loginValue "csrf"
    if ¬isAscii submitted ∨ submitted ≠ browser.csrfToken ∨
        ¬validateCsrf w browser.identity submitted then
      return refuse 403 "Действие отклонено."
    else
      let now ← ask .now
      let _ ← ask (.revoke browser.identity.sessionId now)
      return { seeOther "/login" with
        setCookies := [⟨sessionCookie, none, 0, "/", true⟩, ⟨csrfCookie, none, 0, "/", false⟩] }

/-- `_valid_csrf`. -/
def validCsrf (submitted : String) : Handler Bool := do
  match ← authenticatedBrowser w r with
  | none => return false
  | some browser =>
    if ¬isAscii submitted ∨ ¬(1 ≤ submitted.length ∧ submitted.length ≤ 128) ∨
        browser.csrfToken ≠ submitted then
      return false
    else return validateCsrf w browser.identity submitted

/-- `dashboard`. -/
def dashboard : Handler WebResponse := do
  match ← authenticatedBrowser w r with
  | none => return seeOther "/login"
  | some browser =>
    let records ← ask .listProfiles
    return ⟨200, .dashboard browser browser.csrfToken records, none, []⟩

/-- **`create_profile`.** -/
def createProfile : Handler WebResponse := do
  if ← validCsrf w r (r.profileValue "csrf") then
    match ← ask (.operate (.create (r.profileValue "name"))) with
    | .error e =>
      match e.kind with
      | .invalidProfileName => return refuse 400 "Проверьте имя устройства."
      | .profileConflict => return refuse 409 "Не удалось создать профиль. Повторите попытку."
      | .profileProvisioningFailed =>
        return refuse 503 "Подготовка не завершена. Повторите попытку."
      | _ => return internalError
    | .ok none => return internalError
    | .ok (some result) => return seeOther ("/profiles/" ++ result.profileId.text)
  else return refuse 403 "Действие отклонено."

/-- `profile_page`. -/
def profilePage (profileId : String) : Handler WebResponse := do
  match ← authenticatedBrowser w r with
  | none => return seeOther "/login"
  | some browser =>
    match w.uuid profileId with
    | none => return refuse 404 "Профиль не найден."
    | some parsedId =>
      match ← ask (.getProfile parsedId) with
      | .error e =>
        if e.kind = .profileNotFound then return refuse 404 "Профиль не найден."
        else return internalError
      | .ok record =>
        if record.state ≠ .active then
          return ⟨200, .profile browser browser.csrfToken record none, none, []⟩
        else
          match bundleForRecord w.env.cipher w.env.links record with
          | .ok bundle =>
            return ⟨200, .profile browser browser.csrfToken record (some bundle), none, []⟩
          | .error e =>
            if e.kind = .profileLinksUnavailable then
              return ⟨200, .profile browser browser.csrfToken record none, none, []⟩
            else return internalError

/-- `_change_state`, with the operation of its route. -/
def changeState (profileId : String) (operation : Uuid → Operation) : Handler WebResponse := do
  if ← validCsrf w r (r.profileValue "csrf") then
    match w.uuid profileId with
    | none => return refuse 404 "Профиль не найден."
    | some parsedId =>
      match ← ask (.operate (operation parsedId)) with
      | .error e =>
        match e.kind with
        | .profileNotFound => return refuse 404 "Профиль не найден."
        | .invalidProfileTransition => return refuse 409 "Состояние профиля уже изменилось."
        | .profileRevocationFailed | .profileEnableFailed =>
          return refuse 503 "Операция не завершена. Запустите диагностику."
        | _ => return internalError
      | .ok _ => return seeOther ("/profiles/" ++ parsedId.text)
  else return refuse 403 "Действие отклонено."

/-- `disable_profile`. -/
def disableProfile (profileId : String) : Handler WebResponse :=
  changeState w r profileId .disable

/-- `enable_profile`. -/
def enableProfile (profileId : String) : Handler WebResponse :=
  changeState w r profileId .enable

/-- **`delete_profile`.** -/
def deleteProfile (profileId : String) : Handler WebResponse := do
  if ← validCsrf w r (r.profileValue "csrf") then
    if r.values WebRequest.profileKeys "confirm" ≠ some "remove" then
      return refuse 400 "Подтвердите удаление профиля."
    else
      match w.uuid profileId with
      | none => return refuse 404 "Профиль не найден."
      | some parsedId =>
        match ← ask (.operate (.delete parsedId)) with
        | .error e =>
          match e.kind with
          | .profileNotFound => return refuse 404 "Профиль не найден."
          | .profileRevocationFailed | .profileDeleteFailed =>
            return refuse 503 "Удаление не завершено. Запустите диагностику."
          | _ => return internalError
        | .ok _ => return seeOther "/"
  else return refuse 403 "Действие отклонено."

/-- The handler of a route. -/
def handle : Route → Handler WebResponse
  | .loginPage => loginPage w r
  | .login => login r
  | .logout => logout w r
  | .dashboard => dashboard w r
  | .createProfile => createProfile w r
  | .profilePage profileId => profilePage w r profileId
  | .disableProfile profileId => disableProfile w r profileId
  | .enableProfile profileId => enableProfile w r profileId
  | .deleteProfile profileId => deleteProfile w r profileId

end Handlers

/-! ### Everything that calls the services -/

/-- What a client of the services was started for. -/
inductive Task where
  | request (route : Route) (r : WebRequest)
  /-- `reset-password` of the command line. -/
  | resetPassword (password : String)
  /-- `_reconcile_runtime`. -/
  | reconciliation

/-- `AdminService.reset_password`, in its two halves. -/
def resetPassword (password : String) : Handler Unit := do
  let now ← ask .now
  match ← ask (.resetRead password) with
  | .error _ => return ()
  | .ok loaded => ask (.resetWrite loaded password now)

/-- **The program of a task**, with the response of a request. -/
def program (w : WebServices) : Task → Handler (Option WebResponse)
  | .request route r => do return some (← handle w r route)
  | .resetPassword password => do
    resetPassword password
    return none
  | .reconciliation => do
    let _ ← ask .reconcile
    return none

/-- A log of calls to the services. -/
abbrev Log := List (Entry PanelDraw Call.Answer)

/-- What a schedule of the panel may do. -/
abbrev Schedule := List (Act Task PanelDraw)

/-- **A run of the panel**, from given services. -/
def run (w : WebServices) (s₀ : PanelState) (acts : Schedule) :
    Pool PanelState Task (Option WebResponse) PanelDraw Call.Answer :=
  Pool.run (serve w) (program w) s₀ acts

end EzOpenPN.Panel
