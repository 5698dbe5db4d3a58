import EzOpenPN.Lib.Log
import EzOpenPN.Security.Accounts

/-!
# The throttle of the login form

A failed login is counted twice, under the address it came from and under the login it named, and
each count blocks its owner for a while: one second, then two, then four, up to half a minute. A
pause of more than a quarter of an hour starts the count again, and a successful login forgets
both. A request is turned away while either of its two owners is blocked.

`EzOpenPN.throttle_spaces_guesses` says what that amounts to over a whole sequence of requests.
The two counts of a request are advanced by different other requests, so the statement is about
one owner at a time, and the invariant behind it as well (`EzOpenPN.CountsFailures`): the row of an
owner is determined by the times at which it failed since it was last cleared.
-/

namespace EzOpenPN

/-! ### The service -/

/-- A duration of one second, in the microseconds of a timestamp. -/
def seconds (n : ℕ) : ℤ := 1000000 * n

/-- `_DECAY_WINDOW`. -/
def decayWindow : ℤ := seconds (15 * 60)

/-- `min(_MAX_DELAY_SECONDS, 2 ** (failure_count - 1))`. -/
def delaySeconds (failureCount : ℕ) : ℕ := min 30 (2 ^ (failureCount - 1))

/-- The column `scope` of `login_throttles`. -/
inductive ThrottleScope where
  | ip
  | login
  deriving DecidableEq

/-- A row of `login_throttles`, under the unique key of its scope and digest. -/
structure LoginThrottle where
  failureCount : ℕ
  windowStartedAt : Time
  lastFailedAt : Time
  blockedUntil : Option Time
  deriving DecidableEq

/-- The table `login_throttles`, by its unique key. -/
abbrev LoginThrottles := ThrottleScope × Bytes → Option LoginThrottle

/-- **The throttle service.** -/
structure LoginThrottleService where
  /-- `hmac.digest(key, message, "sha256")`. -/
  hmac : (key message : Bytes) → Bytes
  masterKey : Bytes
  masterKey_length : masterKey.length = 32
  unicode : UnicodeTables
  /-- `ip_address(text).compressed.encode("ascii")`, or nothing where it raises `ValueError`. -/
  ipAddress : String → Option Bytes

/-- `text[:n]`. -/
def pyTake (n : ℕ) (s : String) : String := String.ofList (s.toList.take n)

namespace LoginThrottleService

variable (svc : LoginThrottleService)

def ipKey : Bytes := svc.hmac svc.masterKey (asciiBytes "ezopenpn/login-throttle-ip/v1")

def loginKey : Bytes := svc.hmac svc.masterKey (asciiBytes "ezopenpn/login-throttle-login/v1")

/-- `normalized_ip`. -/
def normalizedIp (ip : String) : Bytes :=
  let directPeer := pyStrip ip
  match svc.ipAddress directPeer with
  | some compressed => compressed
  | none => utf8Bytes ("peer:" ++ svc.unicode.casefold (pyTake 255 directPeer))

/-- `normalized_login_bytes`. -/
def normalizedLogin (login : String) : Bytes :=
  utf8Bytes (svc.unicode.casefold (pyStrip (svc.unicode.nfkc (pyTake 1024 login))))

/-- `_identities`. -/
def identities (ip login : String) : (ThrottleScope × Bytes) × (ThrottleScope × Bytes) :=
  ((.ip, svc.hmac svc.ipKey (svc.normalizedIp ip)),
    (.login, svc.hmac svc.loginKey (svc.normalizedLogin login)))

end LoginThrottleService

/-- One round of the loop of `register_failure`: the row afterwards. -/
def LoginThrottle.fail (timestamp : Time) (stored : Option LoginThrottle) : LoginThrottle :=
  let stored := stored.getD ⟨0, timestamp, timestamp, none⟩
  let stored := if timestamp - stored.lastFailedAt > decayWindow then
      { stored with failureCount := 0, windowStartedAt := timestamp }
    else stored
  { stored with
    failureCount := stored.failureCount + 1
    lastFailedAt := timestamp
    blockedUntil := some (timestamp + seconds (delaySeconds (stored.failureCount + 1))) }

namespace LoginThrottles

variable (svc : LoginThrottleService) (t : LoginThrottles)

/-- The remaining time of one row. -/
def remaining (timestamp : Time) (key : ThrottleScope × Bytes) : Option ℤ := do
  let row ← t key
  let blockedUntil ← row.blockedUntil
  if timestamp < blockedUntil then some (blockedUntil - timestamp) else none

/-- **`retry_after`**: the longest of the remaining times, zero if there is none. -/
def retryAfter (ip login : String) (timestamp : Time) : ℤ :=
  let keys := svc.identities ip login
  ((t.remaining timestamp keys.1).toList ++ (t.remaining timestamp keys.2).toList).foldl max 0

/-- **`register_failure`**: the table afterwards and the longest delay, in seconds. -/
def registerFailure (ip login : String) (timestamp : Time) : ℕ × LoginThrottles :=
  let keys := svc.identities ip login
  let t₁ := Function.update t keys.1 (some (LoginThrottle.fail timestamp (t keys.1)))
  let t₂ := Function.update t₁ keys.2 (some (LoginThrottle.fail timestamp (t₁ keys.2)))
  let delayOf := fun key => (t₂ key).elim 0 fun row => delaySeconds row.failureCount
  (max (delayOf keys.1) (delayOf keys.2), t₂)

/-- **`clear`.** -/
def clear (ip login : String) : LoginThrottles :=
  let keys := svc.identities ip login
  fun key => if key = keys.1 ∨ key = keys.2 then none else t key

end LoginThrottles

/-! ### The login form -/

/-- **A `POST /login`**: the address and the form, the reading of the clock, whether the challenge
of the form was consumed, and whether the credentials were found valid. -/
structure LoginPost where
  clientIp : String
  login : String
  now : Time
  challenge : Bool
  credentials : Bool

/-- What the form answers. The waiting times are the ones of the header `Retry-After`. -/
inductive LoginAnswer where
  /-- 403: the challenge is out of date. -/
  | stale
  /-- 429. -/
  | tooMany (retryAfter : ℤ)
  /-- 401. -/
  | rejected (retryAfter : ℤ)
  /-- 303. -/
  | accepted
  deriving DecidableEq

/-- `math.ceil(duration.total_seconds())`. -/
def ceilSeconds (duration : ℤ) : ℤ := -(-duration / 1000000)

/-- **`login`**, as far as it concerns the throttle. -/
def postLogin (svc : LoginThrottleService) (t : LoginThrottles) (p : LoginPost) :
    LoginAnswer × LoginThrottles :=
  if ¬p.challenge then (.stale, t)
  else
    let login := pyTake 1024 p.login
    let waiting := t.retryAfter svc p.clientIp login p.now
    if waiting > 0 then (.tooMany (ceilSeconds waiting), t)
    else if ¬p.credentials then
      let (delay, t') := t.registerFailure svc p.clientIp login p.now
      (.rejected (ceilSeconds (seconds delay)), t')
    else (.accepted, t.clear svc p.clientIp login)

/-- A sequence of requests, one after the other and from the empty table: what each was answered,
and the table at the end. -/
def postLogins (svc : LoginThrottleService) (posts : List LoginPost) :
    List (LoginPost × LoginAnswer) × LoginThrottles :=
  runLog (postLogin svc) (fun _ => none) posts

/-! ### Owners of a count -/

/-- **An owner of a count**: a normalized address or a normalized login. -/
inductive ThrottleOwner where
  | ip (normalized : Bytes)
  | login (normalized : Bytes)
  deriving DecidableEq

namespace LoginThrottleService

variable (svc : LoginThrottleService)

/-- The key of the row of an owner. -/
def ownerKey : ThrottleOwner → ThrottleScope × Bytes
  | .ip normalized => (.ip, svc.hmac svc.ipKey normalized)
  | .login normalized => (.login, svc.hmac svc.loginKey normalized)

/-- The two owners of a request. -/
def owners (p : LoginPost) : List ThrottleOwner :=
  [.ip (svc.normalizedIp p.clientIp), .login (svc.normalizedLogin (pyTake 1024 p.login))]

/-- The keyed digests have no collisions. -/
structure CollisionFree : Prop where
  ip : Function.Injective (svc.hmac svc.ipKey)
  login : Function.Injective (svc.hmac svc.loginKey)

variable {svc}

theorem CollisionFree.ownerKey_injective (h : svc.CollisionFree) :
    Function.Injective svc.ownerKey := by
  intro o o' heq
  cases o with
  | ip a =>
    cases o' with
    | ip b => rw [h.ip (Prod.mk.inj heq).2]
    | login b => exact absurd (Prod.mk.inj heq).1 (by simp)
  | login a =>
    cases o' with
    | ip b => exact absurd (Prod.mk.inj heq).1 (by simp)
    | login b => rw [h.login (Prod.mk.inj heq).2]

/-- The rows a request reads and writes are the ones of its owners. -/
theorem CollisionFree.ownerKey_mem (h : svc.CollisionFree) {o : ThrottleOwner} {p : LoginPost} :
    (svc.ownerKey o = (svc.identities p.clientIp (pyTake 1024 p.login)).1 ∨
      svc.ownerKey o = (svc.identities p.clientIp (pyTake 1024 p.login)).2) ↔
    o ∈ svc.owners p := by
  have h₁ : (svc.identities p.clientIp (pyTake 1024 p.login)).1 =
      svc.ownerKey (.ip (svc.normalizedIp p.clientIp)) := rfl
  have h₂ : (svc.identities p.clientIp (pyTake 1024 p.login)).2 =
      svc.ownerKey (.login (svc.normalizedLogin (pyTake 1024 p.login))) := rfl
  rw [h₁, h₂, h.ownerKey_injective.eq_iff, h.ownerKey_injective.eq_iff, owners, List.mem_pair]

end LoginThrottleService

/-- The request failed, and the owner is one of its two. -/
def Fails (svc : LoginThrottleService) (o : ThrottleOwner) (e : LoginPost × LoginAnswer) : Prop :=
  (∃ retryAfter, e.2 = .rejected retryAfter) ∧ o ∈ svc.owners e.1

/-- The request succeeded, and the owner is one of its two. -/
def Clears (svc : LoginThrottleService) (o : ThrottleOwner) (e : LoginPost × LoginAnswer) : Prop :=
  e.2 = .accepted ∧ o ∈ svc.owners e.1

/-- What a request adds to the failures of an owner. -/
def addFailure (svc : LoginThrottleService) (o : ThrottleOwner) (times : List Time)
    (e : LoginPost × LoginAnswer) : List Time :=
  match e.2 with
  | .rejected _ => if o ∈ svc.owners e.1 then e.1.now :: times else times
  | .accepted => if o ∈ svc.owners e.1 then [] else times
  | _ => times

/-- **When an owner failed since it was last cleared**, the last time first. -/
def failureTimes (svc : LoginThrottleService) (o : ThrottleOwner)
    (log : List (LoginPost × LoginAnswer)) : List Time :=
  log.foldl (addFailure svc o) []

/-- **How many of the times lie behind the last gap of more than fifteen minutes**, when the last
time comes first. -/
def burst : List Time → ℕ
  | [] => 0
  | [_] => 1
  | last :: previous :: rest =>
    if last - previous > decayWindow then 1 else burst (previous :: rest) + 1

/-! ### The row of an owner -/

section Rows

variable {svc : LoginThrottleService} {t : LoginThrottles} {o : ThrottleOwner} {times : List Time}
  {ip login : String} {now : Time} {p : LoginPost} {e : LoginPost × LoginAnswer}
  {log : List (LoginPost × LoginAnswer)}

/-- **The row of an owner, as its failures left it.** -/
def CountsFailures (row : Option LoginThrottle) (times : List Time) : Prop :=
  match times with
  | [] => row = none
  | last :: _ => ∃ started, row = some ⟨burst times, started, last,
      some (last + seconds (delaySeconds (burst times)))⟩

/-- A failure counts on. -/
theorem CountsFailures.fail {row : Option LoginThrottle} (h : CountsFailures row times) :
    CountsFailures (some (LoginThrottle.fail now row)) (now :: times) := by
  cases times with
  | nil =>
    have hrow : row = none := h
    rw [hrow]
    refine ⟨now, ?_⟩
    simp [LoginThrottle.fail, burst, decayWindow, seconds]
  | cons last rest =>
    obtain ⟨started, rfl⟩ := h
    by_cases hgap : now - last > decayWindow
    · exact ⟨now, by simp [LoginThrottle.fail, burst, hgap]⟩
    · exact ⟨started, by simp [LoginThrottle.fail, burst, hgap]⟩

/-- `register_failure` writes two rows. -/
theorem registerFailure_row (key : ThrottleScope × Bytes) :
    (t.registerFailure svc ip login now).2 key =
      if key = (svc.identities ip login).1 ∨ key = (svc.identities ip login).2 then
        some (LoginThrottle.fail now (t key)) else t key := by
  have hne : (svc.identities ip login).2 ≠ (svc.identities ip login).1 := by
    simp [LoginThrottleService.identities]
  simp only [LoginThrottles.registerFailure]
  by_cases h₂ : key = (svc.identities ip login).2
  · subst h₂
    simp [hne]
  · by_cases h₁ : key = (svc.identities ip login).1
    · subst h₁
      simp [hne.symm]
    · simp [h₁, h₂]

theorem remaining_eq_some {key : ThrottleScope × Bytes} {d : ℤ} :
    t.remaining now key = some d ↔
      ∃ row b, t key = some row ∧ row.blockedUntil = some b ∧ now < b ∧ b - now = d := by
  simp [LoginThrottles.remaining, Option.bind_eq_some_iff]

/-- **A request waits** while one of its two rows blocks it. -/
theorem retryAfter_pos : 0 < t.retryAfter svc ip login now ↔
    ∃ key row b, (key = (svc.identities ip login).1 ∨ key = (svc.identities ip login).2) ∧
      t key = some row ∧ row.blockedUntil = some b ∧ now < b := by
  have hwait : 0 < t.retryAfter svc ip login now ↔
      ∃ key d, (key = (svc.identities ip login).1 ∨ key = (svc.identities ip login).2) ∧
        t.remaining now key = some d := by
    have hpos : ∀ key d, t.remaining now key = some d → 0 < d := by
      intro key d hd
      obtain ⟨row, b, -, -, hlt, rfl⟩ := remaining_eq_some.mp hd
      exact Int.sub_pos_of_lt hlt
    simp only [LoginThrottles.retryAfter, or_and_right, exists_or, exists_and_left,
      exists_eq_left]
    rcases h₁ : t.remaining now (svc.identities ip login).1 with _ | d₁ <;>
      rcases h₂ : t.remaining now (svc.identities ip login).2 with _ | d₂
    · simp
    · simp [hpos _ _ h₂]
    · simp [hpos _ _ h₁]
    · simp [hpos _ _ h₁]
  rw [hwait]
  constructor
  · rintro ⟨key, d, hkey, hd⟩
    obtain ⟨row, b, hrow, hb, hlt, -⟩ := remaining_eq_some.mp hd
    exact ⟨key, row, b, hkey, hrow, hb, hlt⟩
  · rintro ⟨key, row, b, hkey, hrow, hb, hlt⟩
    exact ⟨key, b - now, hkey, remaining_eq_some.mpr ⟨row, b, hrow, hb, hlt, rfl⟩⟩

/-- **What the form does**, by its answer. -/
theorem postLogin_cases (svc : LoginThrottleService) (t : LoginThrottles) (p : LoginPost) :
    (postLogin svc t p = (.stale, t)) ∨
    (∃ r, postLogin svc t p = (.tooMany r, t) ∧
      0 < t.retryAfter svc p.clientIp (pyTake 1024 p.login) p.now) ∨
    (∃ r, postLogin svc t p =
        (.rejected r, (t.registerFailure svc p.clientIp (pyTake 1024 p.login) p.now).2) ∧
      ¬0 < t.retryAfter svc p.clientIp (pyTake 1024 p.login) p.now) ∨
    postLogin svc t p = (.accepted, t.clear svc p.clientIp (pyTake 1024 p.login)) := by
  rw [postLogin]
  by_cases hc : p.challenge = true
  · rw [if_neg (by simp [hc])]
    by_cases hw : t.retryAfter svc p.clientIp (pyTake 1024 p.login) p.now > 0
    · exact Or.inr (Or.inl ⟨_, if_pos hw, hw⟩)
    · simp only [if_neg hw]
      by_cases hv : p.credentials = true
      · exact Or.inr (Or.inr (Or.inr (by simp [hv])))
      · exact Or.inr (Or.inr (Or.inl ⟨_, if_pos hv, hw⟩))
  · exact Or.inl (if_pos hc)

/-- **A request keeps the row of every owner.** -/
theorem CountsFailures.postLogin (hsvc : svc.CollisionFree)
    (h : CountsFailures (t (svc.ownerKey o)) times) :
    CountsFailures ((postLogin svc t p).2 (svc.ownerKey o))
      (addFailure svc o times (p, (postLogin svc t p).1)) := by
  rcases postLogin_cases svc t p with heq | ⟨r, heq, -⟩ | ⟨r, heq, -⟩ | heq
  · rw [heq]
    exact h
  · rw [heq]
    exact h
  · rw [heq, registerFailure_row]
    simp only [addFailure, hsvc.ownerKey_mem]
    split_ifs
    · exact h.fail
    · exact h
  · rw [heq]
    simp only [addFailure, LoginThrottles.clear, hsvc.ownerKey_mem]
    split_ifs
    · rfl
    · exact h

/-! ### Runs -/

theorem postLogins_append (posts : List LoginPost) (p : LoginPost) :
    postLogins svc (posts ++ [p]) =
      ((postLogins svc posts).1 ++ [(p, (EzOpenPN.postLogin svc (postLogins svc posts).2 p).1)],
        (EzOpenPN.postLogin svc (postLogins svc posts).2 p).2) := runLog_append posts p

/-- **A run keeps the row of every owner.** -/
theorem countsFailures_postLogins (hsvc : svc.CollisionFree) (posts : List LoginPost) :
    CountsFailures ((postLogins svc posts).2 (svc.ownerKey o))
      (failureTimes svc o (postLogins svc posts).1) := by
  refine runLog_induction
    (I := fun log (t : LoginThrottles) =>
      CountsFailures (t (svc.ownerKey o)) (failureTimes svc o log)) ?_ ?_ posts
  · rfl
  intro log t p h
  rw [failureTimes, List.foldl_append]
  exact h.postLogin hsvc

/-! ### What the log says about an owner -/

theorem addFailure_of_fails (h : Fails svc o e) : addFailure svc o times e = e.1.now :: times := by
  obtain ⟨⟨r, hr⟩, ho⟩ := h
  simp [addFailure, hr, ho]

theorem addFailure_of_not (hf : ¬Fails svc o e) (hc : ¬Clears svc o e) :
    addFailure svc o times e = times := by
  rw [addFailure]
  split
  · rename_i r hr
    rw [if_neg fun ho => hf ⟨⟨r, hr⟩, ho⟩]
  · rename_i ha
    rw [if_neg fun ho => hc ⟨ha, ho⟩]
  · rfl

/-- Requests of others leave the failures of an owner. -/
theorem failureTimes_append_of_not {mid : List (LoginPost × LoginAnswer)}
    (h : ∀ e ∈ mid, ¬Fails svc o e ∧ ¬Clears svc o e) :
    failureTimes svc o (log ++ mid) = failureTimes svc o log := by
  induction mid using List.reverseRecOn with
  | nil => rw [List.append_nil]
  | append_singleton mid e ih =>
    obtain ⟨hf, hc⟩ := h e (by simp)
    have hmid := ih fun e' he' => h e' (by simp [he'])
    rw [← List.append_assoc, failureTimes, List.foldl_append, ← failureTimes, hmid]
    exact addFailure_of_not hf hc

/-- A time in the list is one at which the owner failed. -/
theorem exists_of_mem_failureTimes {x : Time} (h : x ∈ failureTimes svc o log) :
    ∃ e ∈ log, Fails svc o e ∧ e.1.now = x := by
  induction log using List.reverseRecOn with
  | nil => simp [failureTimes] at h
  | append_singleton log e ih =>
    rw [failureTimes, List.foldl_append, ← failureTimes] at h
    have hstep : x ∈ addFailure svc o (failureTimes svc o log) e := h
    have hold : x ∈ failureTimes svc o log → ∃ e' ∈ log ++ [e], Fails svc o e' ∧ e'.1.now = x := by
      intro hx
      obtain ⟨e', he', hfails, htime⟩ := ih hx
      exact ⟨e', List.mem_append_left _ he', hfails, htime⟩
    rw [addFailure] at hstep
    split at hstep
    · rename_i r hr
      split_ifs at hstep with ho
      · rcases List.mem_cons.mp hstep with rfl | hx
        · exact ⟨e, by simp, ⟨⟨r, hr⟩, ho⟩, rfl⟩
        · exact hold hx
      · exact hold hstep
    · split_ifs at hstep
      · simp at hstep
      · exact hold hstep
    · exact hold hstep

/-! ### The three laws -/

/-- Until when an owner is blocked after a sequence of requests. -/
def blockedUntil (svc : LoginThrottleService) (posts : List LoginPost) (o : ThrottleOwner) :
    Option Time :=
  ((postLogins svc posts).2 (svc.ownerKey o)).bind LoginThrottle.blockedUntil

/-- A request that is rejected finds none of its owners blocked. -/
theorem Fails.not_blocked (hsvc : svc.CollisionFree) {row : LoginThrottle} {b : Time}
    (h : Fails svc o (p, (EzOpenPN.postLogin svc t p).1)) (hrow : t (svc.ownerKey o) = some row)
    (hb : row.blockedUntil = some b) : b ≤ p.now := by
  obtain ⟨⟨r, hr⟩, ho⟩ := h
  rcases postLogin_cases svc t p with heq | ⟨_, heq, -⟩ | ⟨_, -, hfree⟩ | heq
  · simp [heq] at hr
  · simp [heq] at hr
  · by_contra hlt
    exact hfree (retryAfter_pos.mpr
      ⟨svc.ownerKey o, row, b, hsvc.ownerKey_mem.mpr ho, hrow, hb, Int.not_le.mp hlt⟩)
  · simp [heq] at hr

/-- **Failures are spaced.** -/
theorem failures_spaced (hsvc : svc.CollisionFree) {posts : List LoginPost}
    {pre mid rest : List (LoginPost × LoginAnswer)} {e₁ e₂ : LoginPost × LoginAnswer}
    (hlog : (postLogins svc posts).1 = pre ++ e₁ :: (mid ++ e₂ :: rest))
    (h₁ : Fails svc o e₁) (h₂ : Fails svc o e₂)
    (hmid : ∀ e ∈ mid, ¬Fails svc o e ∧ ¬Clears svc o e) :
    e₁.1.now + seconds (delaySeconds (burst (failureTimes svc o (pre ++ [e₁])))) ≤ e₂.1.now := by
  have hsplit : (postLogins svc posts).1 = (pre ++ [e₁] ++ mid) ++ e₂ :: rest := by
    simp [hlog]
  obtain ⟨hpre, he₂⟩ : (postLogins svc ((pre ++ [e₁] ++ mid).map Prod.fst)).1 = pre ++ [e₁] ++ mid ∧
      _ := runLog_split hsplit
  have hcounts := countsFailures_postLogins (o := o) hsvc ((pre ++ [e₁] ++ mid).map Prod.fst)
  rw [hpre, failureTimes_append_of_not hmid] at hcounts
  have htimes : failureTimes svc o (pre ++ [e₁]) = e₁.1.now :: failureTimes svc o pre := by
    rw [failureTimes, List.foldl_append, ← failureTimes]
    exact addFailure_of_fails h₁
  rw [htimes] at hcounts ⊢
  obtain ⟨started, hrow⟩ := hcounts
  obtain ⟨p₂, a₂⟩ := e₂
  have ha₂ : a₂ = (EzOpenPN.postLogin svc
      (postLogins svc ((pre ++ [e₁] ++ mid).map Prod.fst)).2 p₂).1 := he₂
  subst ha₂
  exact h₂.not_blocked hsvc hrow rfl

/-- **A block is never shortened**, except by clearing it. -/
theorem blockedUntil_mono (hsvc : svc.CollisionFree) {posts : List LoginPost} {b : Time}
    (h : blockedUntil svc posts o = some b) :
    Clears svc o (p, (EzOpenPN.postLogin svc (postLogins svc posts).2 p).1) ∨
      ∃ b', blockedUntil svc (posts ++ [p]) o = some b' ∧ b ≤ b' := by
  obtain ⟨row, hrow, hb⟩ := Option.bind_eq_some_iff.mp h
  have hsame : (postLogins svc (posts ++ [p])).2 (svc.ownerKey o) =
      (postLogins svc posts).2 (svc.ownerKey o) →
      ∃ b', blockedUntil svc (posts ++ [p]) o = some b' ∧ b ≤ b' := by
    intro heq
    exact ⟨b, by rw [blockedUntil, heq]; exact h, le_rfl⟩
  rw [postLogins_append] at hsame
  rcases postLogin_cases svc (postLogins svc posts).2 p with heq | ⟨_, heq, -⟩ | ⟨r, heq, -⟩ | heq
  · exact Or.inr (hsame (by rw [heq]))
  · exact Or.inr (hsame (by rw [heq]))
  · by_cases ho : o ∈ svc.owners p
    · have hle : b ≤ p.now := by
        have hfails : Fails svc o (p, (EzOpenPN.postLogin svc (postLogins svc posts).2 p).1) :=
          ⟨⟨r, by rw [heq]⟩, ho⟩
        exact hfails.not_blocked hsvc hrow hb
      have hnew : (postLogins svc (posts ++ [p])).2 (svc.ownerKey o) =
          some (LoginThrottle.fail p.now (some row)) := by
        rw [postLogins_append, heq, registerFailure_row, if_pos (hsvc.ownerKey_mem.mpr ho), hrow]
      refine Or.inr ⟨_, by rw [blockedUntil, hnew]; rfl, ?_⟩
      have hdelay : ∀ n, 0 ≤ seconds n := fun n => by unfold seconds; omega
      exact Int.le_trans hle (Int.le_add_of_nonneg_right (hdelay _))
    · refine Or.inr (hsame ?_)
      rw [heq, registerFailure_row, if_neg fun hk => ho (hsvc.ownerKey_mem.mp hk)]
  · by_cases ho : o ∈ svc.owners p
    · exact Or.inl ⟨by rw [heq], ho⟩
    · refine Or.inr (hsame ?_)
      rw [heq]
      exact if_neg fun hk => ho (hsvc.ownerKey_mem.mp hk)

/-- **A request is turned away for a recent failure.** -/
theorem tooMany_recent (hsvc : svc.CollisionFree) {posts : List LoginPost} {r : ℤ}
    (h : (EzOpenPN.postLogin svc (postLogins svc posts).2 p).1 = .tooMany r) :
    ∃ e ∈ (postLogins svc posts).1, ∃ o ∈ svc.owners p, Fails svc o e ∧
      p.now < e.1.now + seconds 30 := by
  rcases postLogin_cases svc (postLogins svc posts).2 p with heq | ⟨_, -, hwait⟩ | ⟨_, heq, -⟩ | heq
  · simp [heq] at h
  · obtain ⟨key, row, b, hkey, hrow, hb, hlt⟩ := retryAfter_pos.mp hwait
    obtain ⟨o, ho, rfl⟩ : ∃ o ∈ svc.owners p, svc.ownerKey o = key := by
      rcases hkey with rfl | rfl
      · exact ⟨.ip (svc.normalizedIp p.clientIp), List.mem_cons_self, rfl⟩
      · exact ⟨.login (svc.normalizedLogin (pyTake 1024 p.login)),
          List.mem_cons_of_mem _ List.mem_cons_self, rfl⟩
    have hcounts := countsFailures_postLogins (o := o) hsvc posts
    rcases htimes : failureTimes svc o (postLogins svc posts).1 with _ | ⟨last, rest⟩
    · rw [htimes] at hcounts
      exact absurd (hrow.symm.trans hcounts) (by simp)
    · rw [htimes] at hcounts
      obtain ⟨started, hrow'⟩ := hcounts
      obtain ⟨e, he, hfails, rfl⟩ : ∃ e ∈ (postLogins svc posts).1, Fails svc o e ∧
          e.1.now = last := exists_of_mem_failureTimes (by rw [htimes]; simp)
      obtain rfl := Option.some.inj (hrow.symm.trans hrow')
      obtain rfl := Option.some.inj hb
      refine ⟨e, he, o, ho, hfails, Int.lt_of_lt_of_le hlt ?_⟩
      have hle : ∀ k, seconds (delaySeconds k) ≤ seconds 30 := by
        intro k
        have : delaySeconds k ≤ 30 := Nat.min_le_left _ _
        unfold seconds
        omega
      exact Int.add_le_add_left (hle _) _
  · simp [heq] at h
  · simp [heq] at h

end Rows

/-- **The throttle spaces guesses.** For every sequence of requests and a further one, with a clock
that does not go back: two consecutive failures of an owner that was not cleared in between are as
far apart as the number of its failures demands; until when an owner is blocked never decreases,
except by clearing it; and a request is turned away only after a failure of one of its owners in
the last thirty seconds. -/
theorem throttle_spaces_guesses {svc : LoginThrottleService} (hsvc : svc.CollisionFree)
    (posts : List LoginPost) (p : LoginPost)
    (hclock : ((posts ++ [p]).map LoginPost.now).Pairwise (· ≤ ·)) :
    (∀ o pre e₁ mid e₂ rest, (postLogins svc posts).1 = pre ++ e₁ :: (mid ++ e₂ :: rest) →
      Fails svc o e₁ → Fails svc o e₂ → (∀ e ∈ mid, ¬Fails svc o e ∧ ¬Clears svc o e) →
      e₁.1.now + seconds (min 30 (2 ^ (burst (failureTimes svc o (pre ++ [e₁])) - 1))) ≤
        e₂.1.now) ∧
    (∀ o b, blockedUntil svc posts o = some b →
      Clears svc o (p, (postLogin svc (postLogins svc posts).2 p).1) ∨
        ∃ b', blockedUntil svc (posts ++ [p]) o = some b' ∧ b ≤ b') ∧
    ∀ r, (postLogin svc (postLogins svc posts).2 p).1 = .tooMany r →
      ∃ e ∈ (postLogins svc posts).1, ∃ o ∈ svc.owners p, Fails svc o e ∧
        e.1.now ≤ p.now ∧ p.now < e.1.now + seconds 30 := by
  refine ⟨fun o pre e₁ mid e₂ rest hlog h₁ h₂ hmid => failures_spaced hsvc hlog h₁ h₂ hmid,
    fun o b hb => blockedUntil_mono hsvc hb, ?_⟩
  intro r hr
  obtain ⟨e, he, o, ho, hfails, hlt⟩ := tooMany_recent hsvc hr
  refine ⟨e, he, o, ho, hfails, ?_, hlt⟩
  have hpost : e.1 ∈ posts := by
    have hmap : (postLogins svc posts).1.map Prod.fst = posts := map_fst_runLog posts
    rw [← hmap]
    exact List.mem_map_of_mem he
  rw [List.map_append, List.pairwise_append] at hclock
  exact hclock.2.2 _ (List.mem_map_of_mem hpost) _ (by simp)

/-- A throttle over a digest that keeps its key and its message, and addresses that are texts. -/
def sampleThrottle : LoginThrottleService where
  hmac key message := key ++ message
  masterKey := List.replicate 32 7
  masterKey_length := length_sampleKey
  unicode := ⟨id, id, fun _ => false⟩
  ipAddress text := some (asciiBytes text)

/-- A wrong password for `root`, from an address and at a second. -/
def sampleGuess (clientIp : String) (second : ℕ) : LoginPost :=
  ⟨clientIp, "root", seconds second, true, false⟩

/-- Two guesses from two addresses, one second apart; a third one, from a third address and one
second later, is turned away for them. -/
theorem throttle_spaces_guesses_turned_away :
    (∃ r, (postLogin sampleThrottle (postLogins sampleThrottle
        [sampleGuess "192.0.2.1" 0, sampleGuess "192.0.2.2" 1]).2
        (sampleGuess "192.0.2.3" 2)).1 = .tooMany r) ∧
      ∃ e ∈ (postLogins sampleThrottle
        [sampleGuess "192.0.2.1" 0, sampleGuess "192.0.2.2" 1]).1,
        ∃ o ∈ sampleThrottle.owners (sampleGuess "192.0.2.3" 2), Fails sampleThrottle o e ∧
          e.1.now ≤ seconds 2 ∧ seconds 2 < e.1.now + seconds 30 := by
  have hsvc : sampleThrottle.CollisionFree :=
    ⟨fun _ _ h => List.append_cancel_left h, fun _ _ h => List.append_cancel_left h⟩
  have hwait : (postLogin sampleThrottle (postLogins sampleThrottle
      [sampleGuess "192.0.2.1" 0, sampleGuess "192.0.2.2" 1]).2
      (sampleGuess "192.0.2.3" 2)).1 = .tooMany 1 := by decide +kernel
  exact ⟨⟨1, hwait⟩, (throttle_spaces_guesses hsvc
    [sampleGuess "192.0.2.1" 0, sampleGuess "192.0.2.2" 1] (sampleGuess "192.0.2.3" 2)
    (by decide)).2.2 1 hwait⟩

end EzOpenPN
