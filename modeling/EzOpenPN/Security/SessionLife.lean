import EzOpenPN.Lib.Log
import EzOpenPN.Security.Accounts

/-!
# The life of a session

A session lives from its creation to the first thing that ends it: a revocation, a reset of the
password, or an `authenticate` that is refused. While it lives, an `authenticate` is accepted
before two deadlines, one counted from the creation and one from the last acceptance. That is
`EzOpenPN.session_lifecycle`, for every history of calls and every reading of the clock: the
clock may stand still or go back.

What the row of a session says is tied to its history by `EzOpenPN.Tracks`: the row is unmarked
as long as nothing has ended the session, and its idle deadline is the one of the last
acceptance. Every call keeps that, whichever session it is about.
-/

namespace EzOpenPN

/-! ### Histories -/

/-- A call of the two services that concerns sessions. -/
inductive SessionCall where
  | create (adminId : Uuid) (draw : SessionDraw) (now : Time)
  | authenticate (rawToken : String) (now : Time)
  | revoke (sessionId : Uuid) (now : Time)
  | resetPassword (salt : Bytes) (password : String) (now : Time)

/-- What a call answered. -/
inductive SessionAnswer where
  /-- A grant, or an exception. -/
  | created (grant : Option SessionGrant)
  /-- What `authenticate` returned. -/
  | identified (identity : Option SessionIdentity)
  | revoked
  /-- Whether the reset returned. -/
  | reset (done : Bool)
  deriving DecidableEq

/-- **A history**: calls and their answers, in order. -/
abbrev SessionLog := List (SessionCall × SessionAnswer)

section Calls

variable (svc : SessionService) (hasher : PasswordHasher) (unicode : UnicodeTables)

/-- One call. -/
def SessionCall.perform (t : Accounts) : SessionCall → SessionAnswer × Accounts
  | .create adminId draw now =>
    match t.create svc adminId draw now with
    | .error _ => (.created none, t)
    | .ok (grant, t') => (.created (some grant), t')
  | .authenticate rawToken now =>
    let (identity, t') := t.authenticate svc rawToken now
    (.identified identity, t')
  | .revoke sessionId now => (.revoked, t.revoke sessionId now)
  | .resetPassword salt password now =>
    match t.resetPassword unicode hasher salt password now with
    | .error _ => (.reset false, t)
    | .ok t' => (.reset true, t')

/-- A sequence of calls: its history, and the tables it leaves. -/
def runCalls (calls : List SessionCall) (t : Accounts) : SessionLog × Accounts :=
  runLog (SessionCall.perform svc hasher unicode) t calls

end Calls

/-! ### What a history says about one session -/

/-- The session was revoked by name. -/
def Revoked (sessionId : Uuid) (log : SessionLog) : Prop :=
  ∃ now answer, (.revoke sessionId now, answer) ∈ log

/-- The password was reset. -/
def ResetDone (log : SessionLog) : Prop :=
  ∃ salt password now, (.resetPassword salt password now, .reset true) ∈ log

/-- An `authenticate` of the session was refused. -/
def Refused (rawToken : String) (log : SessionLog) : Prop :=
  ∃ now, (.authenticate rawToken now, .identified none) ∈ log

/-- The time of the last accepted `authenticate` of the session, or of its creation. -/
def lastSeen (rawToken : String) (created : Time) (log : SessionLog) : Time :=
  log.foldl (fun seen entry =>
    match entry with
    | (.authenticate token now, .identified (some _)) => if token = rawToken then now else seen
    | _ => seen) created

/-- Nothing has ended the session. -/
def Alive (sessionId : Uuid) (rawToken : String) (log : SessionLog) : Prop :=
  ¬Revoked sessionId log ∧ ¬ResetDone log ∧ ¬Refused rawToken log

section Logs

variable {sessionId : Uuid} {rawToken : String} {created : Time} {log : SessionLog}
  {entry : SessionCall × SessionAnswer}

theorem alive_nil : Alive sessionId rawToken [] := by
  simp [Alive, Revoked, ResetDone, Refused]

/-- An entry ends the session. -/
def Ends (sessionId : Uuid) (rawToken : String) : SessionCall × SessionAnswer → Prop
  | (.revoke id _, _) => id = sessionId
  | (.resetPassword _ _ _, .reset true) => True
  | (.authenticate token _, .identified none) => token = rawToken
  | _ => False

theorem alive_append : Alive sessionId rawToken (log ++ [entry]) ↔
    Alive sessionId rawToken log ∧ ¬Ends sessionId rawToken entry := by
  simp only [Alive, Revoked, ResetDone, Refused, List.mem_append, List.mem_singleton]
  constructor
  · rintro ⟨h1, h2, h3⟩
    refine ⟨⟨?_, ?_, ?_⟩, ?_⟩
    · rintro ⟨now, answer, h⟩
      exact h1 ⟨now, answer, Or.inl h⟩
    · rintro ⟨salt, password, now, h⟩
      exact h2 ⟨salt, password, now, Or.inl h⟩
    · rintro ⟨now, h⟩
      exact h3 ⟨now, Or.inl h⟩
    · obtain ⟨call, answer⟩ := entry
      unfold Ends
      split
      · rintro rfl
        rename_i heq
        exact h1 ⟨_, _, Or.inr heq.symm⟩
      · rename_i heq
        exact fun _ => h2 ⟨_, _, _, Or.inr heq.symm⟩
      · rintro rfl
        rename_i heq
        exact h3 ⟨_, Or.inr heq.symm⟩
      · exact id
  · rintro ⟨⟨h1, h2, h3⟩, he⟩
    refine ⟨?_, ?_, ?_⟩
    · rintro ⟨now, answer, h | rfl⟩
      · exact h1 ⟨now, answer, h⟩
      · exact he rfl
    · rintro ⟨salt, password, now, h | rfl⟩
      · exact h2 ⟨salt, password, now, h⟩
      · exact he trivial
    · rintro ⟨now, h | rfl⟩
      · exact h3 ⟨now, h⟩
      · exact he rfl

@[simp] theorem lastSeen_nil : lastSeen rawToken created [] = created := rfl

theorem lastSeen_append : lastSeen rawToken created (log ++ [entry]) =
    match entry with
    | (.authenticate token now, .identified (some _)) =>
      if token = rawToken then now else lastSeen rawToken created log
    | _ => lastSeen rawToken created log := by
  rw [lastSeen, List.foldl_append]
  rfl

end Logs

/-! ### The row of a session follows its history -/

/-- **The row of a session, as its history left it.** -/
structure Tracks (svc : SessionService) (sessionId : Uuid) (rawToken : String) (created : Time)
    (log : SessionLog) (t : Accounts) (row : AdminSession) (administrator : Admin) : Prop where
  mem : row ∈ t.sessions
  id : row.id = sessionId
  digest : row.tokenDigest = svc.sessionDigest rawToken
  absolute : row.absoluteExpiresAt = created + svc.absoluteDuration
  idle : row.idleExpiresAt =
    min (lastSeen rawToken created log + svc.idleDuration) (created + svc.absoluteDuration)
  unmarked : row.revokedAt = none ↔ Alive sessionId rawToken log
  admin : t.admin = some administrator
  owner : row.adminId = administrator.id
  version : Alive sessionId rawToken log → row.sessionVersion = administrator.sessionVersion

section Steps

variable {svc : SessionService} {hasher : PasswordHasher} {unicode : UnicodeTables}
  {sessionId : Uuid} {rawToken : String} {created : Time} {log : SessionLog} {t t' : Accounts}
  {row : AdminSession} {administrator : Admin}

/-- A keyed digest without collisions tells valid tokens apart. -/
theorem sessionDigest_injOn (hmac : Function.Injective (svc.hmac svc.sessionKey)) {a b : String}
    (ha : SessionService.validToken a = true) (hb : SessionService.validToken b = true)
    (h : svc.sessionDigest a = svc.sessionDigest b) : a = b := by
  simp only [SessionService.validToken, Bool.and_eq_true] at ha hb
  exact asciiBytes_injOn ha.2 hb.2 (hmac h)

/-- Whatever happens to other rows, an entry that neither ends nor renews the session leaves its
row as the history says. -/
theorem Tracks.other (h : Tracks svc sessionId rawToken created log t row administrator)
    {entry : SessionCall × SessionAnswer} (hmem : row ∈ t'.sessions) (hadmin : t'.admin = t.admin)
    (hends : ¬Ends sessionId rawToken entry)
    (hseen : lastSeen rawToken created (log ++ [entry]) = lastSeen rawToken created log) :
    Tracks svc sessionId rawToken created (log ++ [entry]) t' row administrator where
  mem := hmem
  id := h.id
  digest := h.digest
  absolute := h.absolute
  idle := by rw [hseen, h.idle]
  unmarked := by rw [alive_append, h.unmarked, and_iff_left hends]
  admin := hadmin.trans h.admin
  owner := h.owner
  version ha := h.version (alive_append.mp ha).1

/-- An entry that ends the session marks its row. -/
theorem Tracks.ended (h : Tracks svc sessionId rawToken created log t row administrator)
    {entry : SessionCall × SessionAnswer} {now : Time} {administrator' : Admin}
    (hmem : row.revoked now ∈ t'.sessions) (hadmin : t'.admin = some administrator')
    (hid : administrator'.id = administrator.id) (hends : Ends sessionId rawToken entry)
    (hseen : lastSeen rawToken created (log ++ [entry]) = lastSeen rawToken created log) :
    Tracks svc sessionId rawToken created (log ++ [entry]) t' (row.revoked now) administrator' where
  mem := hmem
  id := h.id
  digest := h.digest
  absolute := h.absolute
  idle := by
    rw [hseen]
    exact h.idle
  unmarked := by
    rw [alive_append]
    constructor
    · intro hr
      simp only [AdminSession.revoked] at hr
      split at hr
      · exact absurd hr (by simp)
      · exact absurd hr (by assumption)
    · exact fun ha => absurd hends ha.2
  admin := hadmin
  owner := h.owner.trans hid.symm
  version ha := absurd hends (alive_append.mp ha).2

/-- `revoke` keeps the row and the history together. -/
theorem Tracks.revoke (h : Tracks svc sessionId rawToken created log t row administrator)
    (id : Uuid) (now : Time) : ∃ row', Tracks svc sessionId rawToken created
      (log ++ [(.revoke id now, .revoked)]) (t.revoke id now) row' administrator := by
  by_cases hid : id = sessionId
  · refine ⟨row.revoked now, h.ended ?_ h.admin rfl hid lastSeen_append⟩
    have hmem : row.revoked now ∈ (t.revoke row.id now).sessions :=
      Accounts.mem_revokeSession_self h.mem
    rwa [h.id, ← hid] at hmem
  · refine ⟨row, h.other ?_ rfl hid lastSeen_append⟩
    exact Accounts.mem_revokeSession_of_ne (by rw [h.id]; exact Ne.symm hid) h.mem

/-- `reset_password` keeps the row and the history together. -/
theorem Tracks.resetPassword (h : Tracks svc sessionId rawToken created log t row administrator)
    {salt : Bytes} {password : String} {now : Time}
    (hr : t.resetPassword unicode hasher salt password now = .ok t') :
    ∃ row' administrator', Tracks svc sessionId rawToken created
      (log ++ [(.resetPassword salt password now, .reset true)]) t' row' administrator' := by
  obtain ⟨loaded, hl, rfl⟩ := Accounts.resetPassword_ok hr
  obtain rfl : administrator = loaded := Option.some.inj (h.admin.symm.trans hl)
  obtain ⟨renewed, hrenewed, hid⟩ : ∃ renewed,
      (t.resetWrite hasher administrator salt password now).admin = some renewed ∧
        renewed.id = administrator.id := by
    rw [Accounts.resetWrite, Accounts.admin_mapSessions, h.admin, Option.map_some]
    exact ⟨_, rfl, by simp⟩
  refine ⟨row.revoked now, renewed, h.ended ?_ hrenewed hid trivial lastSeen_append⟩
  rw [Accounts.resetWrite, Accounts.mem_mapSessions]
  exact ⟨row, h.mem, by simp [h.owner]⟩

/-- **An accepted `authenticate`**: what is found under the token is the row of the session, and
it is accepted before both deadlines while nothing has ended the session. -/
theorem Tracks.authenticate_token
    (h : Tracks svc sessionId rawToken created log t row administrator)
    (hv : SessionService.validToken rawToken = true) (now : Time) :
    t.authenticate svc rawToken now =
      if row.expired now administrator then (none, t.revokeSession row.id now)
      else (some ⟨row.id, administrator.id, administrator.login, row.csrfDigest⟩,
        t.modifySession row.id (svc.seen now) (svc.seen_id now) (svc.seen_tokenDigest now)) := by
  have hrow : t.byDigest (svc.sessionDigest rawToken) = some row :=
    Accounts.byDigest_eq_some.mpr ⟨h.mem, h.digest⟩
  have hadmin : t.adminById row.adminId = some administrator := by
    simp [Accounts.adminById, h.admin, h.owner]
  rw [Accounts.authenticate, if_neg (by simp [hv]), hrow]
  simp only [hadmin]

/-- The test of `authenticate`, in terms of the history. -/
theorem Tracks.not_expired (h : Tracks svc sessionId rawToken created log t row administrator)
    (now : Time) : row.expired now administrator = false ↔ Alive sessionId rawToken log ∧
      now < created + svc.absoluteDuration ∧
      now < lastSeen rawToken created log + svc.idleDuration := by
  rw [AdminSession.expired_eq_false, h.absolute, h.idle, h.unmarked, Int.lt_min]
  constructor
  · rintro ⟨halive, ⟨hidle, habsolute⟩, -⟩
    exact ⟨halive, habsolute, hidle⟩
  · rintro ⟨halive, habsolute, hidle⟩
    exact ⟨halive, ⟨hidle, habsolute⟩, habsolute, h.version halive⟩

/-- `authenticate` keeps the row and the history together. -/
theorem Tracks.authenticate (h : Tracks svc sessionId rawToken created log t row administrator)
    (hv : SessionService.validToken rawToken = true)
    (hmac : Function.Injective (svc.hmac svc.sessionKey)) (token : String) (now : Time) :
    ∃ row', Tracks svc sessionId rawToken created
      (log ++ [(.authenticate token now, .identified (t.authenticate svc token now).1)])
      (t.authenticate svc token now).2 row' administrator := by
  by_cases htoken : token = rawToken
  · subst htoken
    rw [h.authenticate_token hv]
    by_cases hx : row.expired now administrator = true
    · rw [if_pos hx]
      exact ⟨row.revoked now, h.ended (Accounts.mem_revokeSession_self h.mem) h.admin rfl rfl
        lastSeen_append⟩
    · rw [if_neg hx]
      have halive := ((h.not_expired now).mp (by simpa using hx)).1
      have hstill : Alive sessionId token (log ++ [(.authenticate token now,
          .identified (some ⟨row.id, administrator.id, administrator.login, row.csrfDigest⟩))]) :=
        alive_append.mpr ⟨halive, fun he => he⟩
      refine ⟨svc.seen now row, ?_, h.id, h.digest, h.absolute, ?_, ?_, h.admin, h.owner,
        fun _ => h.version halive⟩
      · rw [Accounts.mem_modifySession]
        exact ⟨row, h.mem, by simp⟩
      · rw [lastSeen_append]
        simp [SessionService.seen, h.absolute]
      · exact ⟨fun _ => hstill, fun _ => h.unmarked.mpr halive⟩
  · -- the row found, if any, is another one
    have hends : ∀ i, ¬Ends sessionId rawToken (.authenticate token now, .identified i) := by
      intro i
      cases i <;> simp [Ends, htoken]
    have hseen : ∀ i, lastSeen rawToken created (log ++ [(.authenticate token now, .identified i)]) =
        lastSeen rawToken created log := by
      intro i
      rw [lastSeen_append]
      cases i <;> simp [htoken]
    rw [Accounts.authenticate]
    by_cases hvt : SessionService.validToken token = true
    · have hne : ∀ s, t.byDigest (svc.sessionDigest token) = some s → row.id ≠ s.id := by
        intro s hs hid
        obtain ⟨hmem, hd⟩ := Accounts.byDigest_eq_some.mp hs
        rw [← Accounts.eq_of_id_eq h.mem hmem hid, h.digest] at hd
        exact htoken (sessionDigest_injOn hmac hvt hv hd.symm)
      rw [if_neg (by simp [hvt])]
      split
      · exact ⟨row, h.other h.mem rfl (hends _) (hseen _)⟩
      · rename_i s hs
        split
        · exact ⟨row, h.other (Accounts.mem_revokeSession_of_ne (hne s hs) h.mem) rfl (hends _)
            (hseen _)⟩
        · split_ifs
          · exact ⟨row, h.other (Accounts.mem_revokeSession_of_ne (hne s hs) h.mem) rfl (hends _)
              (hseen _)⟩
          · refine ⟨row, h.other ?_ rfl (hends _) (hseen _)⟩
            rw [Accounts.mem_modifySession]
            exact ⟨row, h.mem, by simp [hne s hs]⟩
    · rw [if_pos hvt]
      exact ⟨row, h.other h.mem rfl (hends _) (hseen _)⟩

/-- `create` keeps the row and the history together. -/
theorem Tracks.create (h : Tracks svc sessionId rawToken created log t row administrator)
    {adminId : Uuid} {draw : SessionDraw} {now : Time} {g : SessionGrant}
    {answer : SessionAnswer} (hc : t.create svc adminId draw now = .ok (g, t')) :
    Tracks svc sessionId rawToken created (log ++ [(.create adminId draw now, answer)]) t' row
      administrator := by
  obtain ⟨_, -, -, hadmin, hsessions⟩ := Accounts.create_ok hc
  refine h.other ?_ hadmin (fun he => he) lastSeen_append
  rw [hsessions]
  exact List.mem_append_left _ h.mem

/-- **Every call keeps the row and the history together.** -/
theorem Tracks.perform (h : Tracks svc sessionId rawToken created log t row administrator)
    (hv : SessionService.validToken rawToken = true)
    (hmac : Function.Injective (svc.hmac svc.sessionKey)) (call : SessionCall) :
    ∃ row' administrator', Tracks svc sessionId rawToken created
      (log ++ [(call, (call.perform svc hasher unicode t).1)])
      (call.perform svc hasher unicode t).2 row' administrator' := by
  cases call with
  | create adminId draw now =>
    rw [SessionCall.perform]
    rcases hc : t.create svc adminId draw now with e | ⟨g, t'⟩
    · exact ⟨row, administrator, h.other h.mem rfl (fun he => he) lastSeen_append⟩
    · exact ⟨row, administrator, h.create hc⟩
  | authenticate token now =>
    obtain ⟨row', h'⟩ := h.authenticate hv hmac token now
    exact ⟨row', administrator, h'⟩
  | revoke id now =>
    obtain ⟨row', h'⟩ := h.revoke id now
    exact ⟨row', administrator, h'⟩
  | resetPassword salt password now =>
    rw [SessionCall.perform]
    rcases hr : t.resetPassword unicode hasher salt password now with e | t'
    · exact ⟨row, administrator, h.other h.mem rfl (fun he => he) lastSeen_append⟩
    · exact h.resetPassword hr

/-- **Every history keeps them together.** -/
theorem Tracks.runCalls (hv : SessionService.validToken rawToken = true)
    (hmac : Function.Injective (svc.hmac svc.sessionKey)) (calls : List SessionCall)
    (h : Tracks svc sessionId rawToken created [] t row administrator) :
    ∃ row' administrator', Tracks svc sessionId rawToken created
      (runCalls svc hasher unicode calls t).1 (runCalls svc hasher unicode calls t).2
      row' administrator' := by
  refine runLog_induction
    (I := fun log t => ∃ row' administrator',
      Tracks svc sessionId rawToken created log t row' administrator')
    ⟨row, administrator, h⟩ ?_ calls
  rintro log t call ⟨row', administrator', h'⟩
  exact h'.perform hv hmac call

/-- The token of a grant is one that `authenticate` looks up. -/
theorem validToken_encodeUrlSecret (value : { b : Bytes // b.length = 32 }) :
    SessionService.validToken (encodeUrlSecret value.val) = true := by
  simp [SessionService.validToken, length_encodeUrlSecret, value.property,
    isAscii_encodeUrlSecret]

/-- A session that was just created. -/
theorem tracks_create {adminId : Uuid} {draw : SessionDraw} {now : Time} {g : SessionGrant}
    (hc : t.create svc adminId draw now = .ok (g, t')) :
    ∃ row administrator, Tracks svc g.sessionId g.rawToken now [] t' row administrator := by
  obtain ⟨administrator, ha, rfl, hadmin, hsessions⟩ := Accounts.create_ok hc
  obtain ⟨ha, -⟩ := Option.filter_eq_some_iff.mp ha
  refine ⟨svc.newSession administrator draw now, administrator, ?_, rfl, rfl, rfl, rfl, ?_,
    hadmin.trans ha, rfl, fun _ => rfl⟩
  · rw [hsessions]
    simp
  · exact iff_of_true rfl alive_nil

end Steps

/-! ### The whole life -/

section Lifecycle

variable {svc : SessionService} {hasher : PasswordHasher} {unicode : UnicodeTables}

/-- Changing one row leaves the others. -/
theorem mem_modifySession_of_ne {t : Accounts} {id : Uuid} {f : AdminSession → AdminSession}
    {hid : ∀ s, (f s).id = s.id} {hdigest : ∀ s, (f s).tokenDigest = s.tokenDigest}
    {s : AdminSession} (hs : s.id ≠ id) :
    s ∈ (t.modifySession id f hid hdigest).sessions ↔ s ∈ t.sessions := by
  rw [Accounts.mem_modifySession]
  constructor
  · rintro ⟨s', hs', rfl⟩
    by_cases h : s'.id = id
    · simp [h, hid] at hs
    · simpa [h] using hs'
  · exact fun h => ⟨s, h, by simp [hs]⟩

theorem mem_revokeSession_iff_of_ne {t : Accounts} {id : Uuid} {now : Time} {s : AdminSession}
    (hs : s.id ≠ id) : s ∈ (t.revokeSession id now).sessions ↔ s ∈ t.sessions := by
  rw [Accounts.revokeSession, mem_modifySession_of_ne hs]

/-- An `authenticate` with the token of a session leaves the other sessions. -/
theorem Tracks.mem_authenticate {sessionId : Uuid} {rawToken : String} {created : Time}
    {log : SessionLog} {t : Accounts} {row : AdminSession} {administrator : Admin}
    (h : Tracks svc sessionId rawToken created log t row administrator)
    (hv : SessionService.validToken rawToken = true) (now : Time) {s : AdminSession}
    (hs : s.id ≠ sessionId) :
    s ∈ (t.authenticate svc rawToken now).2.sessions ↔ s ∈ t.sessions := by
  rw [← h.id] at hs
  rw [h.authenticate_token hv]
  split_ifs
  · exact mem_revokeSession_iff_of_ne hs
  · rw [mem_modifySession_of_ne hs]

/-- **The life of a session.** After any history of calls since its creation: an `authenticate`
is accepted exactly if the session was not revoked, no password reset has happened, none of its
earlier attempts was refused, and both deadlines lie ahead; a refusal is final; the absolute
deadline is the granted one and bounds the idle one; and a call on the session – its creation, an
`authenticate`, a `revoke` – leaves every other session as it was. -/
theorem session_lifecycle (hmac : Function.Injective (svc.hmac svc.sessionKey))
    {t₀ t₁ : Accounts} {adminId : Uuid} {draw : SessionDraw} {created : Time} {g : SessionGrant}
    (hc : t₀.create svc adminId draw created = .ok (g, t₁)) (calls : List SessionCall)
    {log : SessionLog} {t : Accounts} (hrun : runCalls svc hasher unicode calls t₁ = (log, t)) :
    (∀ now, (t.authenticate svc g.rawToken now).1.isSome = true ↔
      ¬Revoked g.sessionId log ∧ ¬ResetDone log ∧ ¬Refused g.rawToken log ∧
        now < created + svc.absoluteDuration ∧
        now < lastSeen g.rawToken created log + svc.idleDuration) ∧
    (Refused g.rawToken log → ∀ now, (t.authenticate svc g.rawToken now).1 = none) ∧
    (∃ row ∈ t.sessions, row.id = g.sessionId) ∧
    (∀ row ∈ t.sessions, row.id = g.sessionId →
      row.absoluteExpiresAt = created + svc.absoluteDuration ∧
        row.idleExpiresAt ≤ row.absoluteExpiresAt) ∧
    (∀ s : AdminSession, s.id ≠ g.sessionId → (s ∈ t₁.sessions ↔ s ∈ t₀.sessions)) ∧
    ∀ now, ∀ s : AdminSession, s.id ≠ g.sessionId →
      (s ∈ (t.authenticate svc g.rawToken now).2.sessions ↔ s ∈ t.sessions) ∧
        (s ∈ (t.revoke g.sessionId now).sessions ↔ s ∈ t.sessions) := by
  obtain ⟨row₀, administrator₀, h₀⟩ := tracks_create hc
  obtain ⟨holder, -, hg, -, hsessions⟩ := Accounts.create_ok hc
  have hv : SessionService.validToken g.rawToken = true := by
    rw [hg]
    exact validToken_encodeUrlSecret draw.rawToken
  obtain ⟨row, administrator, h⟩ :
      ∃ row administrator, Tracks svc g.sessionId g.rawToken created log t row administrator := by
    obtain ⟨row, administrator, h⟩ : ∃ row administrator,
        Tracks svc g.sessionId g.rawToken created (runCalls svc hasher unicode calls t₁).1
          (runCalls svc hasher unicode calls t₁).2 row administrator :=
      Tracks.runCalls hv hmac calls h₀
    rw [hrun] at h
    exact ⟨row, administrator, h⟩
  have haccepted : ∀ now, (t.authenticate svc g.rawToken now).1.isSome = true ↔
      Alive g.sessionId g.rawToken log ∧ now < created + svc.absoluteDuration ∧
        now < lastSeen g.rawToken created log + svc.idleDuration := by
    intro now
    rw [← h.not_expired now, h.authenticate_token hv]
    cases hx : row.expired now administrator <;> simp
  refine ⟨?_, ?_, ⟨row, h.mem, h.id⟩, ?_, ?_, ?_⟩
  · intro now
    rw [haccepted now, Alive, and_assoc, and_assoc]
  · intro hr now
    by_contra hne
    have hsome : (t.authenticate svc g.rawToken now).1.isSome = true :=
      Option.isSome_iff_ne_none.mpr hne
    exact ((haccepted now).mp hsome).1.2.2 hr
  · intro row' hmem hid
    obtain rfl : row' = row := Accounts.eq_of_id_eq hmem h.mem (hid.trans h.id.symm)
    refine ⟨h.absolute, ?_⟩
    rw [h.idle, h.absolute]
    exact min_le_right _ _
  · intro s hs
    have hne : s ≠ svc.newSession holder draw created := by
      rintro rfl
      exact hs (by rw [hg]; rfl)
    simp [hsessions, hne]
  · intro now s hs
    exact ⟨h.mem_authenticate hv now hs, mem_revokeSession_iff_of_ne hs⟩

/-- A service with a half-hour of idleness and twelve hours in all, in minutes, over a digest
that keeps its key and its message. -/
def sampleService : SessionService where
  hmac key message := key ++ message
  masterKey := List.replicate 32 7
  idleDuration := 30
  absoluteDuration := 720
  masterKey_length := length_sampleKey
  idleDuration_pos := by decide
  idleDuration_le := by decide

/-- An administrator. -/
def sampleAdmin : Admin where
  id := ⟨List.replicate 16 1, by decide⟩
  login := "root"
  passwordHash := "correct horse battery"
  sessionVersion := 1
  updatedAt := 0
  lastLoginAt := none

/-- One administrator, no session. -/
def sampleAccounts : Accounts where
  admin := some sampleAdmin
  sessions := []
  ids_nodup := List.nodup_nil
  digests_nodup := List.nodup_nil

/-- What one creation draws. -/
def sampleSessionDraw : SessionDraw where
  rawToken := ⟨List.replicate 32 1, by decide⟩
  csrfToken := ⟨List.replicate 32 2, by decide⟩
  sessionId := ⟨List.replicate 16 2, by decide⟩

/-- The session of `EzOpenPN.sampleSessionDraw`, created at minute 0. -/
def sampleGranted : Accounts where
  admin := some sampleAdmin
  sessions := [sampleService.newSession sampleAdmin sampleSessionDraw 0]
  ids_nodup := List.nodup_singleton _
  digests_nodup := List.nodup_singleton _

/-- A hasher that keeps the password, and never asks for a new hash. -/
def plainHasher : PasswordHasher where
  hash _ password := password
  verify encoded password := ⟨encoded = password, false⟩

/-- Character tables that leave a text alone. -/
def plainTables : UnicodeTables where
  nfkc := id
  casefold := id
  control _ := false

/-- A session is created at minute 0 and used at minute 20; an attempt at minute 60 is too late,
and one with the clock back at minute 40, which the deadlines would allow, is refused as well. -/
theorem session_lifecycle_refused :
    let g := sampleService.grant sampleSessionDraw 0
    sampleAccounts.create sampleService sampleAdmin.id sampleSessionDraw 0 = .ok (g, sampleGranted) ∧
      ((runCalls sampleService plainHasher plainTables
        [.authenticate g.rawToken 20, .authenticate g.rawToken 60] sampleGranted).2.authenticate
          sampleService g.rawToken 40).1 = none := by
  have hinj : Function.Injective (sampleService.hmac sampleService.sessionKey) :=
    fun a b h => List.append_cancel_left h
  have hc : sampleAccounts.create sampleService sampleAdmin.id sampleSessionDraw 0 =
      .ok (sampleService.grant sampleSessionDraw 0, sampleGranted) := rfl
  refine ⟨hc, (session_lifecycle hinj hc _ rfl).2.1 ⟨60, ?_⟩ 40⟩
  refine List.mem_iff_getElem?.mpr ⟨1, ?_⟩
  rfl

end Lifecycle

end EzOpenPN
