import EzOpenPN.Profiles.Records
import EzOpenPN.Web.PanelAccess

/-!
# Logins of the panel

What a granted session says about the login before it (`EzOpenPN.Panel.sessions_follow_logins`), and
what nobody can do who has not logged in (`EzOpenPN.Panel.tables_kept_until_login`), in every run of
the panel.

The challenges of the forms are issued and consumed by handlers in any order. Their transactions are
a part of the log of the run, and on that part the invariant of the challenges,
`EzOpenPN.Challenged`, holds as it does when nothing else is called.
-/

namespace EzOpenPN.Panel

open Clients

variable {w : WebServices} {s₀ s : PanelState} {acts : Schedule} {log before after : Log}

/-! ### The challenges of a log -/

/-- The transaction of the challenges that an entry is, if it is one. -/
def challengeEntry : Entry PanelDraw Call.Answer → Option (PreAuthCall × PreAuthAnswer)
  | ⟨_, .issue, draw, challenge⟩ => some (.issue draw.nonce draw.clock, .issued challenge)
  | ⟨_, .consume cookieNonce formToken, draw, accepted⟩ =>
    some (.consume cookieNonce formToken draw.clock, .consumed accepted)
  | _ => none

/-- **The transactions of the challenges** in a log. -/
def challengeLog (log : Log) : PreAuthLog := log.filterMap challengeEntry

/-- The nonces that were drawn in a log are distinct. -/
def FreshNonces (log : Log) : Prop := (drawn ((challengeLog log).map Prod.fst)).Nodup

theorem challengeLog_append (log : Log) (e : Entry PanelDraw Call.Answer) :
    challengeLog (log ++ [e]) = challengeLog log ++ (challengeEntry e).toList := by
  rw [challengeLog, List.filterMap_append, challengeLog]
  cases h : challengeEntry e <;> simp [h]

/-- A part of a log with fresh nonces has fresh nonces. -/
theorem FreshNonces.of_append (h : FreshNonces (before ++ after)) : FreshNonces before := by
  rw [FreshNonces, challengeLog, List.filterMap_append, List.map_append, drawn,
    List.filterMap_append] at h
  exact h.of_append_left

/-- **The rows of the challenges follow the log of the run.** -/
theorem challenged_of_log (hmac : Function.Injective (w.preauth.hmac w.preauth.storeKey))
    (h₀ : ∀ key, likeState key = true → s₀.challenges key = none) (h : LogOf (serve w) s₀ log s)
    (hfresh : FreshNonces log) : Challenged w.preauth (challengeLog log) s.challenges := by
  induction h with
  | start =>
    refine ⟨?_, ?_, ?_, ?_⟩
    · intro key row hlike hrow
      rw [h₀ key hlike] at hrow
      exact absurd hrow (by simp)
    · rintro nonce ⟨_, _, hmem⟩
      exact absurd hmem (by simp [challengeLog])
    · rintro c ⟨_, hmem⟩
      exact absurd hmem (by simp [challengeLog])
    · rintro c c' ⟨_, hmem⟩
      exact absurd hmem (by simp [challengeLog])
  | @call log s n c draw _ ih =>
    have hbefore := ih hfresh.of_append
    rw [challengeLog_append]
    cases c with
    | issue =>
      refine hbefore.issue hmac draw.clock fun hmem => ?_
      rw [FreshNonces, challengeLog_append] at hfresh
      change (drawn ((challengeLog log ++ [(PreAuthCall.issue draw.nonce draw.clock, _)]).map
        Prod.fst)).Nodup at hfresh
      rw [drawn_append_issue, List.nodup_append] at hfresh
      exact hfresh.2.2 _ hmem _ (List.mem_singleton_self _) rfl
    | consume cookieNonce formToken => exact hbefore.consume hmac formToken draw.clock
    | createSession adminId now =>
      have hsame : (serve w s (.createSession adminId now) draw).2.challenges = s.challenges := by
        simp only [serve]
        split <;> rfl
      rw [hsame]
      change Challenged w.preauth (challengeLog log ++ []) s.challenges
      rwa [List.append_nil]
    | authenticate rawToken now | revoke sessionId now | verifyWrite loaded rehash password now
    | resetWrite loaded password now
    | now | verifyRead login password | resetRead password
    | retryAfter ip login now | registerFailure ip login now | clearFailures ip login | listProfiles
    | getProfile profileId | operate operation | reconcile =>
      change Challenged w.preauth (challengeLog log ++ []) s.challenges
      rwa [List.append_nil]

/-! ### Logins -/

/-- A challenge of the log was handed out by a login form. -/
theorem issued_challengeLog {c : PreAuthChallenge} (h : Issued c (challengeLog log)) :
    ∃ n draw, ⟨n, .issue, draw, some c⟩ ∈ log := by
  obtain ⟨call, hmem⟩ := h
  obtain ⟨⟨n, c', draw, answer⟩, he, hentry⟩ := List.mem_filterMap.mp hmem
  cases c' with
  | issue =>
    obtain ⟨-, hanswer⟩ := Prod.mk.inj (Option.some.inj hentry)
    obtain rfl := PreAuthAnswer.issued.inj hanswer
    exact ⟨n, draw, he⟩
  | consume cookieNonce formToken =>
    obtain ⟨-, hanswer⟩ := Prod.mk.inj (Option.some.inj hentry)
    cases hanswer
  | _ => cases hentry

/-- A nonce that was spent is accepted in the challenges of the log. -/
theorem accepted_challengeLog {n : ℕ} {cookieNonce formToken : String} {draw : PanelDraw}
    (h : ⟨n, .consume cookieNonce formToken, draw, some true⟩ ∈ log) :
    Accepted cookieNonce (challengeLog log) :=
  ⟨formToken, draw.clock, List.mem_filterMap.mpr ⟨_, h, rfl⟩⟩

/-- The administrator of a login is the one of the tables, with the name and the password that were
given. -/
theorem verifyRead_eq_some {unicode : UnicodeTables} {hasher : PasswordHasher} {t : Accounts}
    {login password : String} {administrator : Admin} {rehash : Bool}
    (h : t.verifyRead unicode hasher login password = some (administrator, rehash)) :
    normalizeLogin unicode login = .ok administrator.login ∧
      (hasher.verify administrator.passwordHash password).valid = true := by
  rw [Accounts.verifyRead] at h
  split at h
  · exact absurd h (by simp)
  · rename_i normalized hlogin
    obtain ⟨found, hfound, h⟩ := Option.bind_eq_some_iff.mp h
    obtain ⟨-, hname⟩ := Option.filter_eq_some_iff.mp hfound
    dsimp only at h
    split_ifs at h with hvalid
    obtain ⟨rfl, -⟩ := Prod.mk.inj (Option.some.inj h)
    rw [hlogin, of_decide_eq_true hname]
    exact ⟨rfl, hvalid⟩

/-- Of two entries of a log one comes before the other. -/
theorem split_two {e e' : Entry PanelDraw Call.Answer} (h : e ∈ log) (h' : e' ∈ log)
    (hne : e ≠ e') : (∃ a b c, log = a ++ e :: (b ++ e' :: c)) ∨
      ∃ a b c, log = a ++ e' :: (b ++ e :: c) := by
  obtain ⟨a, b, rfl⟩ := List.append_of_mem h
  rcases List.mem_append.mp h' with hmem | hmem
  · obtain ⟨a, c, rfl⟩ := List.append_of_mem hmem
    exact Or.inr ⟨a, c, b, by simp⟩
  · obtain ⟨b, c, rfl⟩ := List.append_of_mem ((List.mem_cons.mp hmem).resolve_left hne.symm)
    exact Or.inl ⟨a, b, c, rfl⟩

/-- **A challenge is spent once**, whoever the handlers are. -/
theorem not_spent_twice (hmac : Function.Injective (w.preauth.hmac w.preauth.storeKey))
    (h₀ : ∀ key, likeState key = true → s₀.challenges key = none) (h : LogOf (serve w) s₀ log s)
    (hfresh : FreshNonces log) {n m : ℕ} {cookieNonce formToken formToken' : String}
    {draw draw' : PanelDraw} {mid : Log}
    (hlog : log = before ++ ⟨n, .consume cookieNonce formToken, draw, some true⟩ ::
      (mid ++ ⟨m, .consume cookieNonce formToken', draw', some true⟩ :: after)) : False := by
  rw [← List.cons_append, ← List.append_assoc] at hlog
  obtain ⟨s', hs', hanswer⟩ := h.split hlog
  have hchallenged := challenged_of_log hmac h₀ hs' (hlog ▸ hfresh).of_append
  have hspent : ⟨n, .consume cookieNonce formToken, draw, some true⟩ ∈
      before ++ ⟨n, .consume cookieNonce formToken, draw, some true⟩ :: mid := by simp
  obtain ⟨hgone, -⟩ := hchallenged.accepted cookieNonce (accepted_challengeLog hspent)
  have htrue : (w.preauth.consume s'.challenges cookieNonce formToken' draw'.clock).1 = some true :=
    hanswer.symm
  rcases w.preauth.consume_cases s'.challenges cookieNonce formToken' draw'.clock with
    ⟨hne, -⟩ | ⟨row, hrow, -⟩
  · exact hne htrue
  · rw [hgone] at hrow
    cases hrow

/-- **What came before a session that was granted to a request**: it has spent a challenge that a
login form had handed out and that had not expired, was not told to wait, and has given the name and
the password of the administrator. -/
structure FollowsLogin (w : WebServices) (r : WebRequest) (n : ℕ) (adminId : Uuid) (log : Log) :
    Prop where
  challenge : ∃ draw m draw' c,
    ⟨n, .consume (r.cookie preauthCookie) (r.loginValue "csrf"), draw, some true⟩ ∈ log ∧
    ⟨m, .issue, draw', some c⟩ ∈ log ∧ c.cookieNonce = r.cookie preauthCookie ∧
    c.formToken = r.loginValue "csrf" ∧ draw.clock < c.expiresAt
  admitted : ∃ now draw waiting,
    ⟨n, .retryAfter r.clientIp (pyTake 1024 (r.loginValue "login")) now, draw, waiting⟩ ∈ log ∧
    waiting ≤ 0
  password : ∃ administrator rehash draw,
    ⟨n, .verifyRead (pyTake 1024 (r.loginValue "login")) (pyTake 1024 (r.loginValue "password")),
      draw, some (administrator, rehash)⟩ ∈ log ∧ administrator.id = adminId ∧
    normalizeLogin w.unicode (pyTake 1024 (r.loginValue "login")) = .ok administrator.login ∧
    (w.hasher.verify administrator.passwordHash (pyTake 1024 (r.loginValue "password"))).valid = true

section Logins

variable {n m : ℕ} {adminId adminId' : Uuid} {now now' : Time} {draw draw' : PanelDraw}
  {g g' : SessionGrant}

/-- A session is granted to a handler of the login form, which has checked the login. -/
theorem loggedIn_of_log {answer : Except AccountError SessionGrant}
    (hlog : (run w s₀ acts).log =
      before ++ ⟨n, .createSession adminId now, draw, answer⟩ :: after) :
    ∃ r, (run w s₀ acts).task n = some (.request .login r) ∧
      LoggedIn r (exchanges n before) adminId := by
  obtain ⟨task, htask, hallows⟩ := allows_of_log hlog
  cases task with
  | request route r =>
    obtain ⟨rfl, h⟩ := hallows
    exact ⟨r, htask, h⟩
  | resetPassword password => exact hallows.elim
  | reconciliation => exact hallows.elim

/-- **What the exchanges of a checked login say of the log.** -/
theorem followsLogin_of_loggedIn (hmac : Function.Injective (w.preauth.hmac w.preauth.storeKey))
    (h₀ : ∀ key, likeState key = true → s₀.challenges key = none)
    (hfresh : FreshNonces (run w s₀ acts).log) {e : Entry PanelDraw Call.Answer}
    (hlog : (run w s₀ acts).log = before ++ e :: after) {r : WebRequest}
    (h : LoggedIn r (exchanges e.client before) adminId) :
    FollowsLogin w r e.client adminId before := by
  refine ⟨?_, ?_, ?_⟩
  · obtain ⟨earlier, draw, later, s, rfl, hserved, hanswer⟩ :=
      answered_of_mem_exchanges hlog h.challenge
    rw [hlog] at hfresh
    have hearlier : FreshNonces earlier := hfresh.of_append.of_append
    obtain ⟨c, hissued, hnonce, hform, hlt⟩ :=
      (challenged_of_log hmac h₀ hserved hearlier).consume_true hmac hanswer.symm
    obtain ⟨m, draw', hmem⟩ := issued_challengeLog hissued
    exact ⟨draw, m, draw', c, by simp, List.mem_append_left _ hmem, hnonce, hform, hlt⟩
  · obtain ⟨now, waiting, hmem, hwaiting⟩ := h.admitted
    obtain ⟨draw, hmem⟩ := mem_exchanges.mp hmem
    exact ⟨now, draw, waiting, hmem, hwaiting⟩
  · obtain ⟨administrator, rehash, hmem, hid⟩ := h.password
    obtain ⟨earlier, draw, later, s, rfl, -, hanswer⟩ := answered_of_mem_exchanges hlog hmem
    obtain ⟨hlogin, hvalid⟩ := verifyRead_eq_some hanswer.symm
    exact ⟨administrator, rehash, draw, by simp, hid, hlogin, hvalid⟩

/-- **Sessions follow logins, one for each challenge.** In every run from a table without challenges,
with a keyed digest without collisions and fresh nonces: a session is granted to a handler of the login
form that has spent a challenge, was not told to wait and has given the password; and two sessions are
never granted for one challenge. -/
theorem sessions_follow_logins (hmac : Function.Injective (w.preauth.hmac w.preauth.storeKey))
    (h₀ : ∀ key, likeState key = true → s₀.challenges key = none)
    (hfresh : FreshNonces (run w s₀ acts).log) :
    (∀ before n adminId now draw g after,
      (run w s₀ acts).log = before ++ ⟨n, .createSession adminId now, draw, .ok g⟩ :: after →
      ∃ r, (run w s₀ acts).task n = some (.request .login r) ∧
        FollowsLogin w r n adminId before) ∧
    ∀ before n adminId now draw g mid m adminId' now' draw' g' after,
      (run w s₀ acts).log = before ++ ⟨n, .createSession adminId now, draw, .ok g⟩ ::
        (mid ++ ⟨m, .createSession adminId' now', draw', .ok g'⟩ :: after) →
      ∃ r r', (run w s₀ acts).task n = some (.request .login r) ∧
        (run w s₀ acts).task m = some (.request .login r') ∧
        r.cookie preauthCookie ≠ r'.cookie preauthCookie := by
  refine ⟨fun before n adminId now draw g after hlog => ?_, ?_⟩
  · obtain ⟨r, htask, h⟩ := loggedIn_of_log hlog
    exact ⟨r, htask, followsLogin_of_loggedIn hmac h₀ hfresh hlog h⟩
  · intro before n adminId now draw g mid m adminId' now' draw' g' after hlog
    obtain ⟨r, htask, h⟩ := loggedIn_of_log hlog
    rw [← List.cons_append, ← List.append_assoc] at hlog
    obtain ⟨r', htask', h'⟩ := loggedIn_of_log hlog
    refine ⟨r, r', htask, htask', fun hsame => ?_⟩
    -- a handler creates one session only
    have hne : n ≠ m := by
      rintro rfl
      exact h'.first adminId now (.ok g) (mem_exchanges.mpr ⟨draw, by simp⟩)
    obtain ⟨spent, hspent⟩ := mem_exchanges.mp h.challenge
    obtain ⟨spent', hspent'⟩ := mem_exchanges.mp h'.challenge
    rw [← hsame] at hspent'
    have hserved : LogOf (serve w) s₀ (run w s₀ acts).log (run w s₀ acts).service :=
      Pool.logOf_run acts
    have hin : ⟨n, .consume (r.cookie preauthCookie) (r.loginValue "csrf"), spent, some true⟩ ∈
        (run w s₀ acts).log := by
      rw [hlog]
      simp [hspent]
    have hin' : ⟨m, .consume (r.cookie preauthCookie) (r'.loginValue "csrf"), spent', some true⟩ ∈
        (run w s₀ acts).log := by
      rw [hlog]
      exact List.mem_append_left _ hspent'
    rcases split_two hin hin' (by simp [hne]) with ⟨_, _, _, htwo⟩ | ⟨_, _, _, htwo⟩
    · exact not_spent_twice hmac h₀ hserved hfresh htwo
    · exact not_spent_twice hmac h₀ hserved hfresh htwo

/-- The session that an entry grants, with the handler that it is granted to. -/
def grantEntry : Entry PanelDraw Call.Answer → Option (ℕ × Uuid × Time × SessionGrant)
  | ⟨n, .createSession adminId now, _, .ok g⟩ => some (n, adminId, now, g)
  | _ => none

theorem grantEntry_eq_some {e : Entry PanelDraw Call.Answer}
    (h : grantEntry e = some (n, adminId, now, g)) :
    ∃ draw, e = ⟨n, .createSession adminId now, draw, .ok g⟩ := by
  obtain ⟨m, c, draw, answer⟩ := e
  cases c with
  | createSession adminId' now' =>
    cases answer with
    | error e => cases h
    | ok g' =>
      cases h
      exact ⟨draw, rfl⟩
  | _ => cases h

/-- The visitor is granted a session, and has logged in. -/
theorem sessions_follow_logins_visitor :
    ∃ n r adminId before, (run samplePanel freshPanel sampleVisitor).task n =
      some (.request .login r) ∧ FollowsLogin samplePanel r n adminId before := by
  have hmac : Function.Injective (samplePanel.preauth.hmac samplePanel.preauth.storeKey) :=
    fun _ _ h => (List.cons.inj h).2
  obtain ⟨hfresh, hany⟩ : FreshNonces (run samplePanel freshPanel sampleVisitor).log ∧
      ((run samplePanel freshPanel sampleVisitor).log.any fun e => (grantEntry e).isSome) = true := by
    rw [FreshNonces]
    decide +kernel
  obtain ⟨e, he, hsome⟩ := List.any_eq_true.mp hany
  obtain ⟨⟨n, adminId, now, g⟩, hgrant⟩ := Option.isSome_iff_exists.mp hsome
  obtain ⟨draw, rfl⟩ := grantEntry_eq_some hgrant
  obtain ⟨before, after, hlog⟩ := List.append_of_mem he
  obtain ⟨r, htask, h⟩ :=
    (sessions_follow_logins hmac (fun _ _ => rfl) hfresh).1 before n adminId now draw g after hlog
  exact ⟨n, r, adminId, before, htask, h⟩

end Logins

/-! ### Without a login -/

/-- The entry hands out an administrator whose password was given. -/
def verifiedEntry : Entry PanelDraw Call.Answer → Bool
  | ⟨_, .verifyRead _ _, _, some _⟩ => true
  | _ => false

/-- A reconciliation leaves the tables of the profiles alone. -/
theorem tables_reconcile (env : Env) (world : World) :
    (EzOpenPN.reconcile env world).2.tables = world.tables := by
  have hstill : Prog.wp (EzOpenPN.reconcile env)
      (fun _ v => Since world.history (fun t _ => t = world.tables) v)
      (fun _ v => Since world.history (fun t _ => t = world.tables) v) world :=
    still_reconcile world.tables world.history world (Since.start rfl)
  obtain ⟨hok, herror⟩ := Prog.wp_iff.mp hstill
  rcases h : EzOpenPN.reconcile env world with ⟨e | result, v⟩
  · exact (herror e v h).now
  · exact (hok result v h).now

/-- Only an operation of the coordinator changes the tables of the profiles. -/
theorem tables_serve (s : PanelState) {c : Call} (hc : ∀ operation, c ≠ .operate operation)
    (draw : PanelDraw) : (serve w s c draw).2.world.tables = s.world.tables := by
  cases c with
  | operate operation => exact absurd rfl (hc operation)
  | reconcile => exact tables_reconcile w.env s.world
  | createSession adminId now =>
    simp only [serve]
    split <;> rfl
  | authenticate rawToken now | revoke sessionId now | verifyWrite loaded rehash password now
  | resetWrite loaded password now | now | verifyRead login password | resetRead password | issue
  | consume cookieNonce formToken | retryAfter ip login now | registerFailure ip login now
  | clearFailures ip login | listProfiles | getProfile profileId => rfl

theorem tables_of_log (h : LogOf (serve w) s₀ log s)
    (hlog : ∀ e ∈ log, ∀ operation, e.call ≠ .operate operation) :
    s.world.tables = s₀.world.tables := by
  induction h with
  | start => rfl
  | @call log s n c draw _ ih =>
    rw [tables_serve s (hlog _ (List.mem_append_right _ (List.mem_singleton_self _))) draw]
    exact ih fun e he => hlog e (List.mem_append_left _ he)

/-- **Nobody changes a profile who has not logged in.** As long as no login has given the right name
and password, the tables of the profiles are what they were, whatever requests were made. -/
theorem tables_kept_until_login
    (hsession : Function.Injective (w.sessions.hmac w.sessions.sessionKey))
    (hcsrf : Function.Injective (w.sessions.hmac w.sessions.csrfKey))
    (h₀ : s₀.accounts.sessions = [])
    (hnone : ∀ n login password draw administrator,
      ⟨n, .verifyRead login password, draw, some administrator⟩ ∉ (run w s₀ acts).log) :
    (run w s₀ acts).service.world.tables = s₀.world.tables := by
  have hgranted : ∀ g created, ¬Granted g created (run w s₀ acts).log := by
    rintro g created ⟨n, adminId, draw, hmem⟩
    obtain ⟨before, after, hlog⟩ := List.append_of_mem hmem
    obtain ⟨r, -, h⟩ := loggedIn_of_log hlog
    obtain ⟨administrator, rehash, hverified, -⟩ := h.password
    obtain ⟨draw', hverified⟩ := mem_exchanges.mp hverified
    have hin : ⟨n, .verifyRead (pyTake 1024 (r.loginValue "login"))
        (pyTake 1024 (r.loginValue "password")), draw', some (administrator, rehash)⟩ ∈
          (run w s₀ acts).log := by
      rw [hlog]
      exact List.mem_append_left _ hverified
    exact hnone _ _ _ _ _ hin
  have hserved : LogOf (serve w) s₀ (run w s₀ acts).log (run w s₀ acts).service :=
    Pool.logOf_run acts
  refine tables_of_log hserved fun e he operation hoperation => ?_
  obtain ⟨before, after, hlog⟩ := List.append_of_mem he
  obtain ⟨task, -, hallows⟩ := allows_of_log hlog
  obtain ⟨route, r, -, ⟨identity, h⟩, -⟩ :=
    authenticated_of_allows hallows (by rw [hoperation]; rfl)
  obtain ⟨earlier, now, draw, identity', later, g, created, rfl, hg, -⟩ :=
    authorized_of_authenticated hsession hcsrf h₀ hlog h
  refine hgranted g created ?_
  rw [hlog, List.append_assoc]
  exact hg.append _

/-- Somebody sends a wrong password, and then tries to create a profile with made-up cookies. -/
def sampleIntruder : Schedule :=
  let nonce := encodeUrlSecret sampleRandom.val
  .start 0 (.request .loginPage (sampleRequest [] [])) ::
  .start 1 (.request .login (sampleRequest [(preauthCookie, nonce)]
    [("csrf", samplePreAuth.formToken nonce), ("login", "root"), ("password", "battery")])) ::
  .start 2 (.request .createProfile (sampleRequest [(sessionCookie, nonce), (csrfCookie, nonce)]
    [("csrf", nonce), ("name", "eve")])) ::
  [0, 0, 0, 1, 1, 1, 1, 1, 1, 2, 2, 2].map fun n => .serve n samplePanelDraw

/-- The intruder has changed nothing. -/
theorem tables_kept_until_login_intruder :
    (run samplePanel freshPanel sampleIntruder).service.world.tables = Tables.empty := by
  have hsession : Function.Injective (samplePanel.sessions.hmac samplePanel.sessions.sessionKey) :=
    fun _ _ h => List.append_cancel_left h
  have hcsrf : Function.Injective (samplePanel.sessions.hmac samplePanel.sessions.csrfKey) :=
    fun _ _ h => List.append_cancel_left h
  have hnone : ∀ e ∈ (run samplePanel freshPanel sampleIntruder).log, ¬verifiedEntry e = true := by
    decide +kernel
  exact tables_kept_until_login hsession hcsrf rfl fun n login password draw administrator hmem =>
    hnone _ hmem rfl

end EzOpenPN.Panel
