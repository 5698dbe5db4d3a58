import EzOpenPN.Web.PanelAccess

/-!
# The throttle of the panel

`EzOpenPN.throttle_spaces_guesses` is about requests that are answered one after the other. In the
panel a login reads the throttle, checks the password and counts a failure in three calls, and the
calls of other logins come in between, so that a login may be let through by a table that does not
yet know of a failure.

`EzOpenPN.Panel.guesses_are_counted` says what the throttle amounts to even then, in every run. A
password is checked only after its request has waited for every failure that was counted when it
read the throttle; and the failures that are counted are exactly the passwords that were checked
and found wrong, except for those of handlers that were stopped right after the check.
-/

namespace EzOpenPN.Panel

open Clients

variable {w : WebServices} {r : WebRequest}

/-! ### The failures of a log -/

/-- The two owners of a call of the throttle. -/
def owners (svc : LoginThrottleService) (ip login : String) : List ThrottleOwner :=
  [.ip (svc.normalizedIp ip), .login (svc.normalizedLogin login)]

/-- What an entry adds to the failures of an owner. -/
def countEntry (svc : LoginThrottleService) (o : ThrottleOwner) (times : List Time)
    (e : Entry PanelDraw Call.Answer) : List Time :=
  match e.call with
  | .registerFailure ip login now => if o ∈ owners svc ip login then now :: times else times
  | .clearFailures ip login => if o ∈ owners svc ip login then [] else times
  | _ => times

/-- **The failures of an owner** that were counted since it was last cleared, the last one first. -/
def countedFailures (svc : LoginThrottleService) (o : ThrottleOwner) (log : Log) : List Time :=
  log.foldl (countEntry svc o) []

section Counts

variable {svc : LoginThrottleService} {o : ThrottleOwner} {ip login : String} {s₀ s : PanelState}
  {log : Log}

theorem countedFailures_append (log : Log) (e : Entry PanelDraw Call.Answer) :
    countedFailures svc o (log ++ [e]) = countEntry svc o (countedFailures svc o log) e := by
  rw [countedFailures, List.foldl_append]
  rfl

/-- The rows of a call are the ones of its owners. -/
theorem ownerKey_mem (hsvc : svc.CollisionFree) :
    (svc.ownerKey o = (svc.identities ip login).1 ∨ svc.ownerKey o = (svc.identities ip login).2) ↔
      o ∈ owners svc ip login := by
  have h₁ : (svc.identities ip login).1 = svc.ownerKey (.ip (svc.normalizedIp ip)) := rfl
  have h₂ : (svc.identities ip login).2 = svc.ownerKey (.login (svc.normalizedLogin login)) := rfl
  rw [h₁, h₂, hsvc.ownerKey_injective.eq_iff, hsvc.ownerKey_injective.eq_iff, owners, List.mem_pair]

/-- **The row of an owner is the one of its counted failures**, after any log. -/
theorem countsFailures_of_log (hsvc : w.throttle.CollisionFree)
    (h₀ : s₀.throttles = fun _ => none) (h : LogOf (serve w) s₀ log s) :
    CountsFailures (s.throttles (w.throttle.ownerKey o)) (countedFailures w.throttle o log) := by
  induction h with
  | start => rw [h₀]; rfl
  | @call log s n c draw _ ih =>
    rw [countedFailures_append]
    cases c with
    | registerFailure ip login now =>
      simp only [serve, countEntry, registerFailure_row, ownerKey_mem hsvc]
      split_ifs
      · exact ih.fail
      · exact ih
    | clearFailures ip login =>
      simp only [serve, countEntry, LoginThrottles.clear, ownerKey_mem hsvc]
      split_ifs
      · rfl
      · exact ih
    | createSession adminId now =>
      have hsame : (serve w s (.createSession adminId now) draw).2.throttles = s.throttles := by
        simp only [serve]
        split <;> rfl
      rw [hsame]
      exact ih
    | authenticate rawToken now | revoke sessionId now | verifyWrite loaded rehash password now
    | resetWrite loaded password now | now | verifyRead login password | resetRead password | issue
    | consume cookieNonce formToken | retryAfter ip login now | listProfiles | getProfile profileId
    | operate operation | reconcile => exact ih

/-- **Who need not wait has waited**: for the last failure of each of its owners, as long as the
number of its failures demands. -/
theorem waited_of_retryAfter (hsvc : w.throttle.CollisionFree)
    (h₀ : s₀.throttles = fun _ => none) (h : LogOf (serve w) s₀ log s) {now last : Time}
    {rest : List Time} (hfree : s.throttles.retryAfter w.throttle ip login now ≤ 0)
    (ho : o ∈ owners w.throttle ip login)
    (htimes : countedFailures w.throttle o log = last :: rest) :
    last + seconds (delaySeconds (burst (last :: rest))) ≤ now := by
  have hcounts := countsFailures_of_log (o := o) hsvc h₀ h
  rw [htimes] at hcounts
  obtain ⟨started, hrow⟩ := hcounts
  by_contra hlt
  refine absurd hfree (Int.not_le.mpr (retryAfter_pos.mpr ?_))
  exact ⟨_, _, _, (ownerKey_mem hsvc).mpr ho, hrow, rfl, Int.not_le.mp hlt⟩

end Counts

/-! ### What the programs do -/

/-- A call that is no part of the check of a password. -/
def Call.quiet : Call → Bool
  | .retryAfter _ _ _ | .verifyRead _ _ | .registerFailure _ _ _ | .clearFailures _ _ => false
  | _ => true

/-- The last thing the client was told is that a password is wrong. -/
def WrongPassword (login : String) (past : Past) : Prop :=
  ∃ password, past.getLast? = some ⟨.verifyRead login password, none⟩

/-- The request has read the clock and was not told to wait. -/
def Unblocked (r : WebRequest) (login : String) (now : Time) (past : Past) : Prop :=
  ∃ waiting, ⟨.retryAfter r.clientIp login now, waiting⟩ ∈ past ∧ waiting ≤ 0

/-- **What a client may call, as far as it concerns the throttle**: after a wrong password it counts a
failure and nothing else, and each of the four calls about a password has its exchanges before it. -/
def counts (task : Task) (past : Past) (c : Call) : Prop :=
  (∀ login, WrongPassword login past → ∃ ip now, c = .registerFailure ip login now) ∧
  match c with
  | .retryAfter ip login now => ∃ r, task = .request .login r ∧ ip = r.clientIp ∧
      login = pyTake 1024 (r.loginValue "login") ∧ ⟨.now, now⟩ ∈ past
  | .verifyRead login _ => ∃ r now, task = .request .login r ∧ Unblocked r login now past
  | .registerFailure ip login now => ∃ r, task = .request .login r ∧ ip = r.clientIp ∧
      Unblocked r login now past ∧ WrongPassword login past
  | .clearFailures ip login => ∃ r password administrator, task = .request .login r ∧
      ip = r.clientIp ∧ ⟨.verifyRead login password, some administrator⟩ ∈ past
  | _ => True

section Programs

variable {task : Task} {α : Type} {past : Past}

/-- Handlers that have nothing to do with passwords. -/
abbrev Quiet (m : Handler α) : Prop := ∀ past, m.Follows (fun _ c => c.quiet = true) past

theorem quiet_authenticatedBrowser : Quiet (authenticatedBrowser w r) := by
  refine fun past => .call_bind rfl fun now => .call_bind rfl fun answer => ?_
  cases answer with
  | none => exact trivial
  | some identity =>
    dsimp only
    split_ifs <;> exact trivial

theorem quiet_validCsrf (submitted : String) : Quiet (validCsrf w r submitted) := by
  refine fun past => .bind (quiet_authenticatedBrowser past) fun past browser => ?_
  cases browser with
  | none => exact trivial
  | some browser =>
    dsimp only
    split_ifs <;> exact trivial

theorem quiet_loginForm (status : ℕ) (error : Option String) (retryAfter : Option ℤ) :
    Quiet (loginForm status error retryAfter) := by
  refine fun past => .call_bind rfl fun answer => ?_
  cases answer <;> exact trivial

theorem quiet_loginPage : Quiet (loginPage w r) := by
  refine fun past => .bind (quiet_authenticatedBrowser past) fun past browser => ?_
  cases browser with
  | none => exact quiet_loginForm _ _ _ past
  | some browser => exact trivial

theorem quiet_logout : Quiet (logout w r) := by
  refine fun past => .bind (quiet_authenticatedBrowser past) fun past browser => ?_
  cases browser with
  | none => exact trivial
  | some browser =>
    dsimp only
    split_ifs
    · exact trivial
    · exact .call_bind rfl fun now => .call_bind rfl fun _ => trivial

theorem quiet_dashboard : Quiet (dashboard w r) := by
  refine fun past => .bind (quiet_authenticatedBrowser past) fun past browser => ?_
  cases browser with
  | none => exact trivial
  | some browser => exact .call_bind rfl fun _ => trivial

theorem quiet_createProfile : Quiet (createProfile w r) := by
  refine fun past => .bind (quiet_validCsrf _ past) fun past valid => ?_
  split_ifs
  · refine .call_bind rfl fun result => ?_
    rcases result with e | _ | result
    · dsimp only
      split <;> exact trivial
    · exact trivial
    · exact trivial
  · exact trivial

theorem quiet_profilePage (profileId : String) : Quiet (profilePage w r profileId) := by
  refine fun past => .bind (quiet_authenticatedBrowser past) fun past browser => ?_
  cases browser with
  | none => exact trivial
  | some browser =>
    dsimp only
    split
    · exact trivial
    · refine .call_bind rfl fun record => ?_
      rcases record with e | record
      · dsimp only
        split_ifs <;> exact trivial
      · dsimp only
        split_ifs
        · exact trivial
        · split
          · exact trivial
          · split_ifs <;> exact trivial

theorem quiet_changeState (profileId : String) (operation : Uuid → Operation) :
    Quiet (changeState w r profileId operation) := by
  refine fun past => .bind (quiet_validCsrf _ past) fun past valid => ?_
  split_ifs
  · split
    · exact trivial
    · refine .call_bind rfl fun result => ?_
      rcases result with e | result
      · dsimp only
        split <;> exact trivial
      · exact trivial
  · exact trivial

theorem quiet_deleteProfile (profileId : String) : Quiet (deleteProfile w r profileId) := by
  refine fun past => .bind (quiet_validCsrf _ past) fun past valid => ?_
  split_ifs
  · exact trivial
  · split
    · exact trivial
    · refine .call_bind rfl fun result => ?_
      rcases result with e | result
      · dsimp only
        split <;> exact trivial
      · exact trivial
  · exact trivial

/-- A quiet call needs nothing before it, unless a password was wrong. -/
theorem counts_of_quiet {c : Call} (hc : c.quiet = true)
    (hpast : ∀ login, ¬WrongPassword login past) : counts task past c := by
  refine ⟨fun login h => absurd h (hpast login), ?_⟩
  cases c <;> first | exact trivial | exact absurd hc (by simp [Call.quiet])

/-- **A quiet handler keeps to the rules of the throttle**, unless a password was wrong before it. -/
theorem Quiet.counts {m : Handler α} (h : m.Follows (fun _ c => c.quiet = true) past)
    (hpast : ∀ login, ¬WrongPassword login past) : m.Follows (counts task) past := by
  induction m generalizing past with
  | done value => exact trivial
  | ask c next ih =>
    refine ⟨counts_of_quiet h.1 hpast, fun answer => ih answer (h.2 answer) ?_⟩
    rintro login ⟨password, hlast⟩
    rw [List.getLast?_append, List.getLast?_singleton, Option.some_or] at hlast
    have hcall : c = .verifyRead login password := congrArg Sigma.fst (Option.some.inj hlast)
    have hquiet : c.quiet = true := h.1
    rw [hcall] at hquiet
    exact absurd hquiet (by simp [Call.quiet])

/-- **The login form keeps to the rules of the throttle.** -/
theorem counts_login : (login r).Follows (counts (.request .login r)) [] := by
  refine .call_bind (counts_of_quiet rfl (by simp [WrongPassword])) fun accepted => ?_
  rcases accepted with _ | _ | _
  · exact trivial
  · exact trivial
  refine .call_bind (counts_of_quiet rfl (by simp [WrongPassword])) fun now => ?_
  refine .call_bind ⟨by simp [WrongPassword], r, rfl, rfl, rfl, by simp⟩ fun waiting => ?_
  split_ifs with hwaiting
  · exact Quiet.counts (quiet_loginForm _ _ _ _) (by simp [WrongPassword])
  refine .call_bind ⟨by simp [WrongPassword], r, now, rfl, waiting, by simp, not_lt.mp hwaiting⟩
    fun verified => ?_
  rcases verified with _ | ⟨administrator, rehash⟩
  · refine .call_bind ⟨?_, r, rfl, rfl, ⟨waiting, by simp, not_lt.mp hwaiting⟩, ?_⟩ fun delay => ?_
    · rintro login' ⟨password, hlast⟩
      simp only [List.nil_append, List.cons_append, List.getLast?_cons_cons,
        List.getLast?_singleton, Option.some.injEq, Sigma.mk.injEq, Call.verifyRead.injEq] at hlast
      exact ⟨_, _, by rw [hlast.1.1]⟩
    · exact ⟨_, by simp; rfl⟩
    · exact Quiet.counts (quiet_loginForm _ _ _ _) (by simp [WrongPassword])
  · refine .call_bind (counts_of_quiet rfl (by simp [WrongPassword])) fun _ => ?_
    refine .call_bind ⟨by simp [WrongPassword], r, pyTake 1024 (r.loginValue "password"),
      (administrator, rehash), rfl, rfl, by simp⟩ fun _ => ?_
    refine .call_bind (counts_of_quiet rfl (by simp [WrongPassword])) fun granted => ?_
    cases granted <;> exact trivial

/-- **Whatever the services answer, every client keeps to the rules of the throttle.** -/
theorem program_counts (w : WebServices) (task : Task) :
    (program w task).Follows (counts task) [] := by
  have hstart : ∀ login, ¬WrongPassword login [] := by simp [WrongPassword]
  cases task with
  | request route r =>
    refine Client.Follows.map some ?_
    cases route with
    | login => exact counts_login
    | loginPage => exact Quiet.counts (quiet_loginPage _) hstart
    | logout => exact Quiet.counts (quiet_logout _) hstart
    | dashboard => exact Quiet.counts (quiet_dashboard _) hstart
    | createProfile => exact Quiet.counts (quiet_createProfile _) hstart
    | profilePage profileId => exact Quiet.counts (quiet_profilePage profileId _) hstart
    | disableProfile profileId => exact Quiet.counts (quiet_changeState profileId _ _) hstart
    | enableProfile profileId => exact Quiet.counts (quiet_changeState profileId _ _) hstart
    | deleteProfile profileId => exact Quiet.counts (quiet_deleteProfile profileId _) hstart
  | resetPassword password =>
    refine Client.Follows.map (fun _ => none) (Quiet.counts ?_ hstart)
    refine .call_bind rfl fun now => .call_bind rfl fun loaded => ?_
    cases loaded with
    | error e => exact trivial
    | ok administrator => exact ⟨rfl, fun _ => trivial⟩
  | reconciliation => exact Quiet.counts (.call_bind rfl fun _ => trivial) hstart

end Programs

/-! ### Every run -/

section Runs

variable {s₀ : PanelState} {acts : Schedule} {before after : Log}

/-- **The request has waited.** When it read the throttle, at its own reading of the clock, the last
failure of its address and the last failure of its login were as long ago as their numbers of
failures demand. -/
def Waited (w : WebServices) (r : WebRequest) (n : ℕ) (login : String) (log : Log) : Prop :=
  ∃ earlier now draw waiting later,
    log = earlier ++ ⟨n, .retryAfter r.clientIp login now, draw, waiting⟩ :: later ∧
    (∃ draw', ⟨n, .now, draw', now⟩ ∈ earlier) ∧
    ∀ o ∈ owners w.throttle r.clientIp login, ∀ last rest,
      countedFailures w.throttle o earlier = last :: rest →
        last + seconds (min 30 (2 ^ (burst (last :: rest) - 1))) ≤ now

/-- What a client of a run has called keeps to the rules of the throttle. -/
theorem counts_of_log {e : Entry PanelDraw Call.Answer}
    (hlog : (run w s₀ acts).log = before ++ e :: after) :
    ∃ task, (run w s₀ acts).task e.client = some task ∧
      counts task (exchanges e.client before) e.call :=
  (Pool.Disciplined.run (program_counts w) acts).log before e after hlog

/-- A request that was not told to wait has waited. -/
theorem waited_of_unblocked (hsvc : w.throttle.CollisionFree)
    (h₀ : s₀.throttles = fun _ => none) {e : Entry PanelDraw Call.Answer}
    (hlog : (run w s₀ acts).log = before ++ e :: after) {login : String} {now : Time}
    (h : Unblocked r login now (exchanges e.client before)) : Waited w r e.client login before := by
  obtain ⟨waiting, hmem, hwaiting⟩ := h
  obtain ⟨earlier, draw, later, s, rfl, hserved, hanswer⟩ := answered_of_mem_exchanges hlog hmem
  rw [List.append_assoc, List.cons_append] at hlog
  obtain ⟨task, -, -, hread⟩ := counts_of_log hlog
  obtain ⟨r', -, -, -, hclock⟩ := hread
  refine ⟨earlier, now, draw, waiting, later, rfl, mem_exchanges.mp hclock, ?_⟩
  intro o ho last rest htimes
  rw [hanswer] at hwaiting
  exact waited_of_retryAfter hsvc h₀ hserved hwaiting ho htimes

/-- **Guesses wait and are counted.** In every run from an empty table, with keyed digests without
collisions: a password is checked for a request of the login form that has waited; after a wrong
password the handler counts a failure under the address and the login of the request, before it calls
anything else; a failure is counted only then; and only the right password clears the count. -/
theorem guesses_are_counted (hsvc : w.throttle.CollisionFree) (h₀ : s₀.throttles = fun _ => none) :
    (∀ before n login password draw answer after,
      (run w s₀ acts).log = before ++ ⟨n, .verifyRead login password, draw, answer⟩ :: after →
      ∃ r, (run w s₀ acts).task n = some (.request .login r) ∧ Waited w r n login before) ∧
    (∀ before n login password draw mid c draw' answer after,
      (run w s₀ acts).log = before ++ ⟨n, .verifyRead login password, draw, none⟩ ::
        (mid ++ ⟨n, c, draw', answer⟩ :: after) → (∀ e ∈ mid, e.client ≠ n) →
      ∃ r now, (run w s₀ acts).task n = some (.request .login r) ∧
        c = .registerFailure r.clientIp login now) ∧
    (∀ before n ip login now draw answer after,
      (run w s₀ acts).log = before ++ ⟨n, .registerFailure ip login now, draw, answer⟩ :: after →
      ∃ r password earlier draw' later, (run w s₀ acts).task n = some (.request .login r) ∧
        ip = r.clientIp ∧ before = earlier ++ ⟨n, .verifyRead login password, draw', none⟩ :: later ∧
        ∀ e ∈ later, e.client ≠ n) ∧
    ∀ before n ip login draw answer after,
      (run w s₀ acts).log = before ++ ⟨n, .clearFailures ip login, draw, answer⟩ :: after →
      ∃ r password administrator draw', (run w s₀ acts).task n = some (.request .login r) ∧
        ip = r.clientIp ∧ ⟨n, .verifyRead login password, draw', some administrator⟩ ∈ before := by
  refine ⟨?_, ?_, ?_, ?_⟩
  · intro before n login password draw answer after hlog
    obtain ⟨task, htask, -, r, now, rfl, h⟩ := counts_of_log hlog
    exact ⟨r, htask, waited_of_unblocked hsvc h₀ hlog h⟩
  · intro before n login password draw mid c draw' answer after hlog hmid
    rw [← List.cons_append, ← List.append_assoc] at hlog
    obtain ⟨task, htask, hwrong, hcounts⟩ := counts_of_log hlog
    obtain ⟨ip, now, rfl⟩ := hwrong login ⟨password, by
      rw [← List.singleton_append, ← List.append_assoc, exchanges_append_of_forall_ne hmid,
        exchanges_append_self before ⟨n, .verifyRead login password, draw, none⟩]
      exact List.getLast?_concat⟩
    obtain ⟨r, rfl, rfl, -⟩ := hcounts
    exact ⟨r, now, htask, rfl⟩
  · intro before n ip login now draw answer after hlog
    obtain ⟨task, htask, -, r, rfl, hip, -, password, hlast⟩ := counts_of_log hlog
    obtain ⟨earlier, draw', later, hbefore, hlater⟩ := getLast?_exchanges hlast
    exact ⟨r, password, earlier, draw', later, htask, hip, hbefore, hlater⟩
  · intro before n ip login draw answer after hlog
    obtain ⟨task, htask, -, r, password, administrator, rfl, hip, hmem⟩ := counts_of_log hlog
    obtain ⟨draw', hmem⟩ := mem_exchanges.mp hmem
    exact ⟨r, password, administrator, draw', htask, hip, hmem⟩

/-- Somebody sends a wrong password, and another one a second later. -/
def sampleGuesser : Schedule :=
  let nonce := encodeUrlSecret sampleRandom.val
  let guess := fun password => sampleRequest [(preauthCookie, nonce)]
    [("csrf", samplePreAuth.formToken nonce), ("login", "root"), ("password", password)]
  .start 0 (.request .loginPage (sampleRequest [] [])) ::
  .start 1 (.request .login (guess "battery")) ::
  .start 2 (.request .login (guess "staple")) ::
  ([0, 0, 0, 1, 1, 1, 1, 1, 1].map fun n => .serve n samplePanelDraw) ++
  [2, 2, 2, 2, 2].map fun n => .serve n { samplePanelDraw with clock := seconds 1 }

/-- The entry is a check of a password, for the client. -/
def checkEntry (n : ℕ) : Entry PanelDraw Call.Answer → Option (String × String)
  | ⟨m, .verifyRead login password, _, _⟩ => if m = n then some (login, password) else none
  | _ => none

theorem checkEntry_eq_some {n : ℕ} {e : Entry PanelDraw Call.Answer} {login password : String}
    (h : checkEntry n e = some (login, password)) :
    ∃ draw answer, e = ⟨n, .verifyRead login password, draw, answer⟩ := by
  obtain ⟨m, c, draw, answer⟩ := e
  cases c with
  | verifyRead login' password' =>
    rw [checkEntry] at h
    split_ifs at h with hm
    cases h
    exact ⟨draw, answer, by rw [hm]⟩
  | _ => cases h

/-- The second guess has waited for the first. -/
theorem guesses_are_counted_guesser :
    ∃ r login before, (run samplePanel freshPanel sampleGuesser).task 2 =
      some (.request .login r) ∧ Waited samplePanel r 2 login before := by
  have hsvc : samplePanel.throttle.CollisionFree :=
    ⟨fun _ _ h => List.append_cancel_left h, fun _ _ h => List.append_cancel_left h⟩
  have hany : ((run samplePanel freshPanel sampleGuesser).log.any
      fun e => (checkEntry 2 e).isSome) = true := by decide +kernel
  obtain ⟨e, he, hsome⟩ := List.any_eq_true.mp hany
  obtain ⟨check, hcheck⟩ := Option.isSome_iff_exists.mp hsome
  obtain ⟨draw, answer, rfl⟩ := checkEntry_eq_some hcheck
  obtain ⟨before, after, hlog⟩ := List.append_of_mem he
  obtain ⟨r, htask, h⟩ := (guesses_are_counted hsvc rfl).1 _ _ _ _ _ _ _ hlog
  exact ⟨r, _, before, htask, h⟩

end Runs

end EzOpenPN.Panel
