import EzOpenPN.Security.SessionLife

/-!
# A password reset between the steps of a login

The panel handles a login in four transactions of the database: `verify_credentials` reads the
row of the administrator and, once the password is checked, writes it back; the throttle is
cleared; and `SessionService.create` reads the row again, inserting the session afterwards. The
reset of the password runs in another process, which the operation lock keeps alone of its kind,
and is a read and a committed write. Here these steps interleave in any order, together with
requests of the sessions that exist.

Two laws of the reset depend on where its commit falls. A session that was granted for the
password of before the reset is refused afterwards, as long as no reset commits while a login
stands between its check and the second read of the row: `create` copies the version counter it
finds, so a counter that was read before the commit is out of date, and one that was read after it
is not (`EzOpenPN.reset_ends_sessions`). And the new password is the one that is stored, as long
as no reset commits between the read and the write of a check that renews the hash
(`EzOpenPN.reset_is_kept`).
-/

namespace EzOpenPN

open Relation

/-! ### The interleaving -/

/-- How far a login has come. -/
inductive LoginPhase where
  /-- `verify_credentials` has read the row and accepted the password. -/
  | verifying (loaded : Admin) (rehash : Bool)
  /-- `verify_credentials` has returned. -/
  | verified (adminId : Uuid)
  /-- The throttle is cleared. -/
  | cleared (adminId : Uuid)
  /-- `SessionService.create` has read the row. -/
  | creating (administrator : Admin)
  | granted (grant : SessionGrant)
  | failed

/-- **A login**: the password it was given, how far it has come, and, outside of the program, the
number of resets that had committed when the password was checked. -/
structure Login where
  password : String
  era : ℕ
  phase : LoginPhase

/-- **The two processes.** The last two fields record the history: how many resets have
committed, and the password that was set last. -/
structure Race where
  accounts : Accounts
  logins : ℕ → Option Login
  /-- What the resetting process holds between its read and its commit. -/
  reset : Option (Admin × String)
  resets : ℕ
  current : String

/-- A login moves on. -/
def Race.setLogin (s : Race) (i : ℕ) (l : Login) : Race :=
  { s with logins := Function.update s.logins i (some l) }

/-- The login has had its password checked, and `create` has not read the row yet. -/
def LoginPhase.Pending : LoginPhase → Prop
  | .verifying _ _ | .verified _ | .cleared _ => True
  | _ => False

/-- No login stands between its check and the read of `create`. -/
def Race.NonePending (s : Race) : Prop :=
  ∀ i l, s.logins i = some l → ¬l.phase.Pending

/-- No `verify_credentials` that renews the hash stands between its read and its write. -/
def Race.NoneRehashing (s : Race) : Prop :=
  ∀ i l loaded, s.logins i = some l → l.phase ≠ .verifying loaded true

section Steps

variable (svc : SessionService) (hasher : PasswordHasher) (unicode : UnicodeTables)
  (may : Race → Prop)

/-- **One step of one of the processes.** A reset commits only in a state that satisfies `may`,
which is every state for the program as it is. A login or a reset can also end at any point, by
an exception or with its process. -/
inductive Race.Step (s : Race) : Race → Prop
  | verifyRead {i : ℕ} {login password : String} {loaded : Admin} {rehash : Bool}
      (hi : s.logins i = none)
      (h : s.accounts.verifyRead unicode hasher login password = some (loaded, rehash)) :
      Step s (s.setLogin i ⟨password, s.resets, .verifying loaded rehash⟩)
  | verifyFail {i : ℕ} {login password : String} (hi : s.logins i = none)
      (h : s.accounts.verifyRead unicode hasher login password = none) :
      Step s (s.setLogin i ⟨password, s.resets, .failed⟩)
  | verifyWrite {i : ℕ} {l : Login} {loaded : Admin} {rehash : Bool} (salt : Bytes) (now : Time)
      (hi : s.logins i = some l) (hl : l.phase = .verifying loaded rehash) :
      Step s { s.setLogin i { l with phase := .verified loaded.id } with
        accounts := s.accounts.verifyWrite hasher loaded rehash salt l.password now }
  | clear {i : ℕ} {l : Login} {adminId : Uuid} (hi : s.logins i = some l)
      (hl : l.phase = .verified adminId) :
      Step s (s.setLogin i { l with phase := .cleared adminId })
  | createRead {i : ℕ} {l : Login} {adminId : Uuid} {administrator : Admin}
      (hi : s.logins i = some l) (hl : l.phase = .cleared adminId)
      (h : s.accounts.adminById adminId = some administrator) :
      Step s (s.setLogin i { l with phase := .creating administrator })
  | createInsert {i : ℕ} {l : Login} {administrator : Admin} {accounts : Accounts}
      (draw : SessionDraw) (now : Time) (hi : s.logins i = some l)
      (hl : l.phase = .creating administrator)
      (h : s.accounts.insertSession (svc.newSession administrator draw now) = .ok accounts) :
      Step s { s.setLogin i { l with phase := .granted (svc.grant draw now) } with
        accounts := accounts }
  | abandon {i : ℕ} {l : Login} (hi : s.logins i = some l)
      (hl : ∀ grant, l.phase ≠ .granted grant) : Step s (s.setLogin i { l with phase := .failed })
  | authenticate (rawToken : String) (now : Time) :
      Step s { s with accounts := (s.accounts.authenticate svc rawToken now).2 }
  | revoke (sessionId : Uuid) (now : Time) :
      Step s { s with accounts := s.accounts.revoke sessionId now }
  | resetRead {password : String} {loaded : Admin} (hr : s.reset = none)
      (h : s.accounts.resetRead unicode password = .ok loaded) :
      Step s { s with reset := some (loaded, password) }
  | resetWrite {password : String} {loaded : Admin} (salt : Bytes) (now : Time) (hmay : may s)
      (hr : s.reset = some (loaded, password)) :
      Step s { s with
        accounts := s.accounts.resetWrite hasher loaded salt password now
        reset := none
        resets := s.resets + 1
        current := password }
  | resetFail (hr : s.reset.isSome) : Step s { s with reset := none }

/-- **A run** of the processes, from one state to another. -/
def Race.Runs : Race → Race → Prop := ReflTransGen (Race.Step svc hasher unicode may)

end Steps

/-- **Where the processes start**: an administrator whose stored hash is one of the password, and
nobody at work. -/
structure Race.Start (hasher : PasswordHasher) (s : Race) : Prop where
  admin : ∃ row salt, s.accounts.admin = some row ∧ row.passwordHash = hasher.hash salt s.current
  logins : ∀ i, s.logins i = none
  reset : s.reset = none
  resets : s.resets = 0

/-! ### What the steps do to a row -/

namespace Accounts

variable {t : Accounts}

/-- Every session is still there, with the key and the version it was created with. -/
def SessionsKept (t t' : Accounts) : Prop :=
  ∀ r ∈ t.sessions, ∃ r' ∈ t'.sessions, r'.tokenDigest = r.tokenDigest ∧
    r'.sessionVersion = r.sessionVersion

theorem SessionsKept.refl : t.SessionsKept t := fun r hr => ⟨r, hr, rfl, rfl⟩

theorem sessionsKept_modifySession (id : Uuid) (f : AdminSession → AdminSession)
    (hid : ∀ s, (f s).id = s.id) (hdigest : ∀ s, (f s).tokenDigest = s.tokenDigest)
    (hversion : ∀ s, (f s).sessionVersion = s.sessionVersion) :
    t.SessionsKept (t.modifySession id f hid hdigest) := by
  intro r hr
  refine ⟨if r.id = id then f r else r, mem_modifySession.mpr ⟨r, hr, rfl⟩, ?_⟩
  by_cases h : r.id = id
  · simp [h, hversion, hdigest]
  · simp [h]

theorem sessionsKept_revoke {id : Uuid} {now : Time} : t.SessionsKept (t.revoke id now) :=
  sessionsKept_modifySession id (AdminSession.revoked now) (AdminSession.revoked_id now)
    (AdminSession.revoked_tokenDigest now) fun _ => rfl

theorem sessionsKept_authenticate {svc : SessionService} {rawToken : String} {now : Time} :
    t.SessionsKept (t.authenticate svc rawToken now).2 := by
  rw [authenticate]
  split_ifs
  · split
    · exact SessionsKept.refl
    · split
      · exact sessionsKept_revoke
      · split_ifs
        · exact sessionsKept_revoke
        · exact sessionsKept_modifySession _ (svc.seen now) (svc.seen_id now)
            (svc.seen_tokenDigest now) fun _ => rfl
  · exact SessionsKept.refl

theorem admin_authenticate {svc : SessionService} {rawToken : String} {now : Time} :
    (t.authenticate svc rawToken now).2.admin = t.admin := by
  rw [authenticate]
  split_ifs
  · split
    · rfl
    · split
      · rfl
      · split_ifs <;> rfl
  · rfl

variable {row : Admin} (hasher : PasswordHasher) (loaded : Admin)

/-- **What the write of `verify_credentials` does to the administrator**: the version stays, and
the hash is replaced only when it is renewed. -/
theorem verifyWrite_admin (rehash : Bool) (salt : Bytes) (password : String) (now : Time)
    (hrow : t.admin = some row) :
    ∃ row', (t.verifyWrite hasher loaded rehash salt password now).admin = some row' ∧
      row'.id = row.id ∧ row'.sessionVersion = row.sessionVersion ∧
      (row'.passwordHash = row.passwordHash ∨
        rehash = true ∧ row'.passwordHash = hasher.hash salt password) := by
  simp only [verifyWrite, hrow, Option.map_some]
  refine ⟨_, rfl, ?_⟩
  by_cases hid : row.id = loaded.id
  · simp only [hid, if_true, true_and]
    split_ifs with h
    · exact Or.inr ⟨h.1, rfl⟩
    · exact Or.inl rfl
  · simp [hid]

/-- **What the commit of `reset_password` does to the administrator** it had read: the version
counts on, and the hash is replaced unless it is the one that was read. -/
theorem resetWrite_admin (salt : Bytes) (password : String) (now : Time)
    (hrow : t.admin = some row) (hid : loaded.id = row.id) :
    ∃ row', (t.resetWrite hasher loaded salt password now).admin = some row' ∧
      row'.id = row.id ∧ row'.sessionVersion = loaded.sessionVersion + 1 ∧
      row'.passwordHash = if hasher.hash salt password ≠ loaded.passwordHash then
        hasher.hash salt password else row.passwordHash := by
  simp only [resetWrite, admin_mapSessions, hrow, Option.map_some, hid, if_true]
  exact ⟨_, rfl, rfl, rfl, rfl⟩

theorem sessionsKept_resetWrite (salt : Bytes) (password : String) (now : Time) :
    t.SessionsKept (t.resetWrite hasher loaded salt password now) := by
  intro r hr
  refine ⟨if r.adminId = loaded.id then r.revoked now else r, ?_, ?_⟩
  · rw [resetWrite, mem_mapSessions]
    exact ⟨r, hr, rfl⟩
  · by_cases h : r.adminId = loaded.id
    · simp only [h, if_true]
      exact ⟨rfl, rfl⟩
    · simp [h]

variable {hasher loaded} {unicode : UnicodeTables} {password : String}

/-- What `verify_credentials` reads is the row of the administrator, and the password fits it. -/
theorem verifyRead_some {login : String} {rehash : Bool}
    (hrow : t.admin = some row)
    (h : t.verifyRead unicode hasher login password = some (loaded, rehash)) :
    loaded = row ∧ (hasher.verify row.passwordHash password).valid = true := by
  rw [verifyRead] at h
  split at h
  · exact absurd h (by simp)
  · simp only [hrow, Option.filter_some] at h
    split_ifs at h
    · simp only [Option.bind_eq_bind, Option.bind_some] at h
      split_ifs at h with hvalid
      · obtain ⟨rfl, -⟩ := Prod.mk.inj (Option.some.inj h)
        exact ⟨rfl, hvalid⟩
    · simp at h

/-- What `reset_password` reads is the row of the administrator. -/
theorem resetRead_ok (hrow : t.admin = some row)
    (h : t.resetRead unicode password = .ok loaded) : loaded = row := by
  simp only [resetRead, hrow] at h
  split at h
  · exact absurd h (by simp)
  · exact (Except.ok.inj h).symm

end Accounts

theorem Race.setLogin_logins {s : Race} {i j : ℕ} {l l' : Login}
    (h : (s.setLogin i l).logins j = some l') : l' = l ∨ s.logins j = some l' := by
  by_cases hij : j = i
  · subst hij
    exact Or.inl (by simpa [Race.setLogin] using h.symm)
  · exact Or.inr (by simpa [Race.setLogin, hij] using h)

/-! ### The stored hash -/

section Hash

variable {svc : SessionService} {hasher : PasswordHasher} {unicode : UnicodeTables} {s s' : Race}

/-- **The stored hash is one of the password that was set last.** So is the one a reset has read,
and the hash that a check is about to write. -/
structure HashKept (hasher : PasswordHasher) (s : Race) (row : Admin) : Prop where
  admin : s.accounts.admin = some row
  hash : ∃ salt, row.passwordHash = hasher.hash salt s.current
  rehashing : ∀ i l loaded, s.logins i = some l → l.phase = .verifying loaded true →
    l.password = s.current
  reset : ∀ loaded password, s.reset = some (loaded, password) →
    loaded.id = row.id ∧ ∃ salt, loaded.passwordHash = hasher.hash salt s.current

/-- A login that moves on without renewing a hash leaves the hash. -/
theorem HashKept.setLogin {row row' : Admin} (h : HashKept hasher s row) {i : ℕ} {l : Login}
    {accounts : Accounts} (hl : ∀ loaded, l.phase = .verifying loaded true → l.password = s.current)
    (hadmin : accounts.admin = some row') (hid : row'.id = row.id)
    (hhash : ∃ salt, row'.passwordHash = hasher.hash salt s.current) :
    HashKept hasher { s.setLogin i l with accounts := accounts } row' where
  admin := hadmin
  hash := hhash
  rehashing := by
    intro j l' loaded hj hphase
    rcases Race.setLogin_logins hj with rfl | hj
    · exact hl loaded hphase
    · exact h.rehashing j l' loaded hj hphase
  reset loaded password hr := by
    rw [hid]
    exact h.reset loaded password hr

/-- Two hashes that are equal are hashes of one password. -/
theorem PasswordHasher.Exact.eq_of_hash_eq (hexact : hasher.Exact) {salt salt' : Bytes}
    {p q : String} (h : hasher.hash salt p = hasher.hash salt' q) : p = q := by
  rw [← hexact salt' q p, ← h, hexact]

/-- **Every step keeps the hash**, when resets commit only while no check renews it. -/
theorem HashKept.step (hexact : hasher.Exact) {may : Race → Prop}
    (hmay : ∀ s, may s → s.NoneRehashing) {row : Admin} (h : HashKept hasher s row)
    (hstep : Race.Step svc hasher unicode may s s') : ∃ row', HashKept hasher s' row' := by
  cases hstep with
  | @verifyRead i login password loaded rehash hi hread =>
    refine ⟨row, h.setLogin ?_ h.admin rfl h.hash⟩
    intro loaded' _
    obtain ⟨salt, hsalt⟩ := h.hash
    have hvalid := (Accounts.verifyRead_some h.admin hread).2
    rw [hsalt] at hvalid
    exact (hexact salt s.current password).mp hvalid
  | verifyFail hi hread => exact ⟨row, h.setLogin (by simp) h.admin rfl h.hash⟩
  | @verifyWrite i l loaded rehash salt now hi hl =>
    obtain ⟨row', hadmin, hid, -, hhash⟩ :=
      Accounts.verifyWrite_admin hasher loaded rehash salt l.password now h.admin
    refine ⟨row', h.setLogin (by simp) hadmin hid ?_⟩
    rcases hhash with hhash | ⟨rfl, hhash⟩
    · rw [hhash]
      exact h.hash
    · exact ⟨salt, by rw [hhash, h.rehashing i l loaded hi hl]⟩
  | clear hi hl => exact ⟨row, h.setLogin (by simp) h.admin rfl h.hash⟩
  | createRead hi hl ha => exact ⟨row, h.setLogin (by simp) h.admin rfl h.hash⟩
  | createInsert draw now hi hl hins =>
    have hadmin := (Accounts.insertSession_ok hins).1
    exact ⟨row, h.setLogin (by simp) (hadmin.trans h.admin) rfl h.hash⟩
  | abandon hi hl => exact ⟨row, h.setLogin (by simp) h.admin rfl h.hash⟩
  | authenticate rawToken now =>
    exact ⟨row, Accounts.admin_authenticate.trans h.admin, h.hash, h.rehashing, h.reset⟩
  | revoke sessionId now => exact ⟨row, h.admin, h.hash, h.rehashing, h.reset⟩
  | @resetRead password loaded hr hread =>
    refine ⟨row, h.admin, h.hash, h.rehashing, ?_⟩
    rintro loaded' password' hpending
    obtain ⟨rfl, rfl⟩ := Prod.mk.inj (Option.some.inj hpending)
    rw [Accounts.resetRead_ok h.admin hread]
    exact ⟨rfl, h.hash⟩
  | @resetWrite password loaded salt now hm hr =>
    obtain ⟨hid, salt', hloaded⟩ := h.reset loaded password hr
    obtain ⟨row', hadmin, -, -, hhash⟩ :=
      Accounts.resetWrite_admin hasher loaded salt password now h.admin hid
    refine ⟨row', hadmin, ?_, ?_, by simp⟩
    · split_ifs at hhash with hne
      · exact ⟨salt, hhash⟩
      · -- the column is not written: the hash that was read is one of the new password already
        obtain rfl : password = s.current := hexact.eq_of_hash_eq ((not_ne_iff.mp hne).trans hloaded)
        rw [hhash]
        exact h.hash
    · intro i l loaded' hi hl
      exact absurd hl (hmay s hm i l loaded' hi)
  | resetFail hr => exact ⟨row, h.admin, h.hash, h.rehashing, by simp⟩

theorem HashKept.start (h : s.Start hasher) : ∃ row, HashKept hasher s row := by
  obtain ⟨row, salt, hadmin, hhash⟩ := h.admin
  refine ⟨row, hadmin, ⟨salt, hhash⟩, ?_, ?_⟩
  · intro i l loaded hi
    simp [h.logins i] at hi
  · intro loaded password hr
    simp [h.reset] at hr

/-- Every run keeps the hash. -/
theorem HashKept.runs (hexact : hasher.Exact) {may : Race → Prop}
    (hmay : ∀ s, may s → s.NoneRehashing) {s₀ : Race} (h₀ : s₀.Start hasher)
    (hrun : Race.Runs svc hasher unicode may s₀ s) : ∃ row, HashKept hasher s row := by
  induction hrun with
  | refl => exact HashKept.start h₀
  | tail _ hstep ih =>
    obtain ⟨row, h⟩ := ih
    exact h.step hexact hmay hstep

/-- **A password reset is kept.** In every run in which no reset commits between the read and the
write of a check that renews the hash, the stored hash accepts exactly the password that was set
last. -/
theorem reset_is_kept (hexact : hasher.Exact) {s₀ : Race} (h₀ : s₀.Start hasher)
    (hrun : Race.Runs svc hasher unicode Race.NoneRehashing s₀ s) :
    ∃ row, s.accounts.admin = some row ∧
      ∀ q, (hasher.verify row.passwordHash q).valid = true ↔ q = s.current := by
  obtain ⟨row, h⟩ := HashKept.runs hexact (fun _ hm => hm) h₀ hrun
  obtain ⟨salt, hsalt⟩ := h.hash
  refine ⟨row, h.admin, fun q => ?_⟩
  rw [hsalt]
  exact hexact salt s.current q

end Hash

/-! ### Samples -/

/-- The processes of `EzOpenPN.sampleAccounts`. -/
def sampleRace : Race where
  accounts := sampleAccounts
  logins _ := none
  reset := none
  resets := 0
  current := "correct horse battery"

theorem plainHasher_exact : plainHasher.Exact := by
  intro salt p q
  simp [plainHasher, eq_comm]

theorem sampleRace_start : sampleRace.Start plainHasher where
  admin := ⟨sampleAdmin, [], rfl, rfl⟩
  logins _ := rfl
  reset := rfl
  resets := rfl

/-- A hasher with a salt of one bit, which asks for a new hash at every check. -/
def renewingHasher : PasswordHasher where
  hash salt password := String.ofList (password.toList ++ [if salt = [] then '0' else '1'])
  verify encoded password := ⟨encoded.toList.dropLast = password.toList, true⟩

theorem renewingHasher_exact : renewingHasher.Exact := by
  intro salt p q
  simp [renewingHasher, String.toList_inj, eq_comm]

/-- The processes of `EzOpenPN.sampleAdmin` under `EzOpenPN.renewingHasher`. -/
def renewingRace : Race where
  accounts :=
    { admin := some { sampleAdmin with
        passwordHash := renewingHasher.hash [] "correct horse battery" }
      sessions := []
      ids_nodup := List.nodup_nil
      digests_nodup := List.nodup_nil }
  logins _ := none
  reset := none
  resets := 0
  current := "correct horse battery"

theorem renewingRace_start : renewingRace.Start renewingHasher where
  admin := ⟨_, [], rfl, rfl⟩
  logins _ := rfl
  reset := rfl
  resets := rfl

/-- **A reset between the two halves of a check.** The check renews the hash of the old password,
and writes it over the new one: when both have finished, the old password is the one accepted. -/
theorem rehash_overwrites_reset :
    renewingHasher.Exact ∧ ∃ s row,
      Race.Runs sampleService renewingHasher plainTables (fun _ => True) renewingRace s ∧
      s.resets = 1 ∧ s.current = "brand new password" ∧ s.reset = none ∧
      (∀ i l loaded rehash, s.logins i = some l → l.phase ≠ .verifying loaded rehash) ∧
      s.accounts.admin = some row ∧
      (renewingHasher.verify row.passwordHash "brand new password").valid = false ∧
      (renewingHasher.verify row.passwordHash "correct horse battery").valid = true := by
  refine ⟨renewingHasher_exact, _, _, (((ReflTransGen.refl.tail
    (@Race.Step.verifyRead _ _ _ _ _ 0 "root" "correct horse battery" _ true rfl rfl)).tail
    (@Race.Step.resetRead _ _ _ _ _ "brand new password" _ rfl rfl)).tail
    (.resetWrite [] 2 trivial rfl)).tail
    (.verifyWrite (i := 0) [1] 1 rfl rfl), rfl, rfl, rfl, ?_, rfl, ?_, ?_⟩
  · intro i l loaded rehash hi
    by_cases hzero : i = 0
    · subst hzero
      have hl : some ⟨"correct horse battery", 0, .verified sampleAdmin.id⟩ = some l := hi
      rw [← Option.some.inj hl]
      simp
    · simp [Race.setLogin, hzero, renewingRace] at hi
  · rfl
  · rfl

/-- A check that renews the hash, then a reset: the new password is the one accepted. -/
theorem reset_is_kept_after_check :
    ∃ s row, Race.Runs sampleService renewingHasher plainTables Race.NoneRehashing renewingRace s ∧
      s.resets = 1 ∧ s.accounts.admin = some row ∧
      ∀ q, (renewingHasher.verify row.passwordHash q).valid = true ↔ q = "brand new password" := by
  obtain ⟨s, hrun, hlogin, hreset, hresets⟩ : ∃ s,
      Race.Runs sampleService renewingHasher plainTables Race.NoneRehashing renewingRace s ∧
      (∀ i, s.logins i = if i = 0 then
        some ⟨"correct horse battery", 0, .verified sampleAdmin.id⟩ else none) ∧
      (∃ loaded, s.reset = some (loaded, "brand new password")) ∧ s.resets = 0 := by
    refine ⟨_, ((ReflTransGen.refl.tail
      (@Race.Step.verifyRead _ _ _ _ _ 0 "root" "correct horse battery" _ true rfl rfl)).tail
      (@Race.Step.resetRead _ _ _ _ _ "brand new password" _ rfl rfl)).tail
      (.verifyWrite (i := 0) [1] 1 rfl rfl), ?_, ⟨_, rfl⟩, rfl⟩
    intro i
    by_cases hi : i = 0
    · subst hi
      rfl
    · simp [Race.setLogin, hi, renewingRace]
  obtain ⟨loaded, hreset⟩ := hreset
  have hover : s.NoneRehashing := by
    intro i l loaded' hi
    rw [hlogin] at hi
    split_ifs at hi
    obtain rfl := Option.some.inj hi
    simp
  have hrun' := hrun.tail (.resetWrite [] 5 hover hreset)
  obtain ⟨row, hadmin, hrow⟩ := reset_is_kept renewingHasher_exact renewingRace_start hrun'
  exact ⟨_, row, hrun', by simp [hresets], hadmin, hrow⟩

/-! ### The sessions of before a reset -/

section Versions

variable {svc : SessionService} {hasher : PasswordHasher} {unicode : UnicodeTables} {s s' : Race}

/-- The login was granted for the password in force: no reset has committed since it was checked,
and it is the one that was set last. -/
def Login.InForce (s : Race) (l : Login) : Prop := l.era = s.resets ∧ l.password = s.current

/-- **The version counter dates a login.** While it is pending it is in force, and so it is when
the row it has read, or the session it has got, carries the counter of the administrator. -/
structure Login.Dated (svc : SessionService) (s : Race) (row : Admin) (l : Login) : Prop where
  pending : l.phase.Pending → l.InForce s
  creating : ∀ administrator, l.phase = .creating administrator →
    administrator.sessionVersion ≤ row.sessionVersion ∧
      (administrator.sessionVersion = row.sessionVersion → l.InForce s)
  granted : ∀ grant, l.phase = .granted grant →
    ∃ r ∈ s.accounts.sessions, r.tokenDigest = svc.sessionDigest grant.rawToken ∧
      r.sessionVersion ≤ row.sessionVersion ∧
      (r.sessionVersion = row.sessionVersion → l.InForce s)

/-- Every login is dated, and the reset that is under way counts on from the counter. -/
structure VersionKept (svc : SessionService) (s : Race) (row : Admin) : Prop where
  admin : s.accounts.admin = some row
  dated : ∀ i l, s.logins i = some l → l.Dated svc s row
  reset : ∀ loaded password, s.reset = some (loaded, password) →
    loaded.id = row.id ∧ loaded.sessionVersion = row.sessionVersion

variable {row row' : Admin} {l : Login}

theorem Login.Dated.of_inForce (h : l.InForce s) (hp : l.phase.Pending) : l.Dated svc s row where
  pending _ := h
  creating _ hl := by simp [hl, LoginPhase.Pending] at hp
  granted _ hl := by simp [hl, LoginPhase.Pending] at hp

theorem Login.Dated.of_failed (hp : l.phase = .failed) : l.Dated svc s row where
  pending h := by simp [hp, LoginPhase.Pending] at h
  creating _ hl := by simp [hp] at hl
  granted _ hl := by simp [hp] at hl

/-- A login stays dated while neither the counter nor the password changes. -/
theorem Login.Dated.mono (h : l.Dated svc s row) (hkept : s.accounts.SessionsKept s'.accounts)
    (hversion : row'.sessionVersion = row.sessionVersion) (hresets : s'.resets = s.resets)
    (hcurrent : s'.current = s.current) : l.Dated svc s' row' where
  pending hp := by
    rw [Login.InForce, hresets, hcurrent]
    exact h.pending hp
  creating administrator hl := by
    rw [Login.InForce, hresets, hcurrent, hversion]
    exact h.creating administrator hl
  granted grant hl := by
    obtain ⟨r, hr, hdigest, hle, hforce⟩ := h.granted grant hl
    obtain ⟨r', hr', hdigest', hversion'⟩ := hkept r hr
    rw [Login.InForce, hresets, hcurrent, hversion]
    exact ⟨r', hr', hdigest'.trans hdigest, hversion' ▸ hle, hversion' ▸ hforce⟩

/-- A step that leaves the counter and the password leaves the logins dated, but for the login it
moves. -/
theorem VersionKept.move (h : VersionKept svc s row) (hadmin : s'.accounts.admin = some row')
    (hid : row'.id = row.id) (hversion : row'.sessionVersion = row.sessionVersion)
    (hkept : s.accounts.SessionsKept s'.accounts) (hresets : s'.resets = s.resets)
    (hcurrent : s'.current = s.current)
    (hlogins : ∀ i l, s'.logins i = some l → s.logins i = some l ∨ l.Dated svc s' row')
    (hreset : ∀ loaded password, s'.reset = some (loaded, password) →
      s.reset = some (loaded, password) ∨ loaded = row) :
    VersionKept svc s' row' where
  admin := hadmin
  dated i l hi := by
    rcases hlogins i l hi with hold | hnew
    · exact (h.dated i l hold).mono hkept hversion hresets hcurrent
    · exact hnew
  reset loaded password hr := by
    rw [hid, hversion]
    rcases hreset loaded password hr with hold | rfl
    · exact h.reset loaded password hold
    · exact ⟨rfl, rfl⟩

/-- The case of `EzOpenPN.VersionKept.move` for a login that moves on. -/
theorem VersionKept.setLogin (h : VersionKept svc s row) {i : ℕ} {accounts : Accounts}
    (hadmin : accounts.admin = some row') (hid : row'.id = row.id)
    (hversion : row'.sessionVersion = row.sessionVersion)
    (hkept : s.accounts.SessionsKept accounts)
    (hl : l.Dated svc { s.setLogin i l with accounts := accounts } row') :
    VersionKept svc { s.setLogin i l with accounts := accounts } row' := by
  refine h.move hadmin hid hversion hkept rfl rfl ?_ fun _ _ hr => Or.inl hr
  intro j l' hj
  rcases Race.setLogin_logins hj with rfl | hold
  · exact Or.inr hl
  · exact Or.inl hold

/-- **Every step keeps the logins dated**, when resets commit only while no login is pending. -/
theorem VersionKept.step (hexact : hasher.Exact) (hhash : HashKept hasher s row)
    (h : VersionKept svc s row)
    (hstep : Race.Step svc hasher unicode Race.NonePending s s') :
    ∃ row', VersionKept svc s' row' := by
  cases hstep with
  | @verifyRead i login password loaded rehash hi hread =>
    refine ⟨row, h.setLogin h.admin rfl rfl Accounts.SessionsKept.refl ?_⟩
    obtain ⟨salt, hsalt⟩ := hhash.hash
    have hvalid := (Accounts.verifyRead_some h.admin hread).2
    rw [hsalt] at hvalid
    exact Login.Dated.of_inForce ⟨rfl, (hexact salt s.current password).mp hvalid⟩ trivial
  | verifyFail hi hread =>
    exact ⟨row, h.setLogin h.admin rfl rfl Accounts.SessionsKept.refl
      (Login.Dated.of_failed rfl)⟩
  | @verifyWrite i l loaded rehash salt now hi hl =>
    obtain ⟨row', hadmin, hid, hversion, -⟩ :=
      Accounts.verifyWrite_admin hasher loaded rehash salt l.password now h.admin
    have hforce := (h.dated i l hi).pending (by rw [hl]; trivial)
    exact ⟨row', h.setLogin hadmin hid hversion Accounts.SessionsKept.refl
      (Login.Dated.of_inForce hforce trivial)⟩
  | @clear i l adminId hi hl =>
    have hforce := (h.dated i l hi).pending (by rw [hl]; trivial)
    exact ⟨row, h.setLogin h.admin rfl rfl Accounts.SessionsKept.refl
      (Login.Dated.of_inForce hforce trivial)⟩
  | @createRead i l adminId administrator hi hl ha =>
    have hforce := (h.dated i l hi).pending (by rw [hl]; trivial)
    obtain rfl : row = administrator := by
      rw [Accounts.adminById, h.admin, Option.filter_eq_some_iff] at ha
      exact Option.some.inj ha.1
    refine ⟨row, h.setLogin h.admin rfl rfl Accounts.SessionsKept.refl ⟨?_, ?_, ?_⟩⟩
    · exact fun hp => hp.elim
    · intro administrator hadministrator
      obtain rfl := LoginPhase.creating.inj hadministrator
      exact ⟨le_rfl, fun _ => hforce⟩
    · exact fun _ hgranted => absurd hgranted (by simp)
  | @createInsert i l administrator accounts draw now hi hl hins =>
    obtain ⟨hadmin, hsessions⟩ := Accounts.insertSession_ok hins
    have hkept : s.accounts.SessionsKept accounts := by
      intro r hr
      exact ⟨r, by rw [hsessions]; exact List.mem_append_left _ hr, rfl, rfl⟩
    refine ⟨row, h.setLogin (hadmin.trans h.admin) rfl rfl hkept ⟨?_, ?_, ?_⟩⟩
    · exact fun hp => hp.elim
    · exact fun _ hcreating => absurd hcreating (by simp)
    · intro grant hgrant
      obtain rfl := LoginPhase.granted.inj hgrant
      -- the session carries the counter that `create` had read
      obtain ⟨hle, hforce⟩ := (h.dated i l hi).creating administrator hl
      exact ⟨svc.newSession administrator draw now, by simp [hsessions], rfl, hle, hforce⟩
  | abandon hi hl =>
    exact ⟨row, h.setLogin h.admin rfl rfl Accounts.SessionsKept.refl
      (Login.Dated.of_failed rfl)⟩
  | authenticate rawToken now =>
    exact ⟨row, h.move (Accounts.admin_authenticate.trans h.admin) rfl rfl
      Accounts.sessionsKept_authenticate rfl rfl (fun _ _ hi => Or.inl hi)
      fun _ _ hr => Or.inl hr⟩
  | revoke sessionId now =>
    exact ⟨row, h.move h.admin rfl rfl Accounts.sessionsKept_revoke rfl rfl
      (fun _ _ hi => Or.inl hi) fun _ _ hr => Or.inl hr⟩
  | @resetRead password loaded hr hread =>
    refine ⟨row, h.move h.admin rfl rfl Accounts.SessionsKept.refl rfl rfl
      (fun _ _ hi => Or.inl hi) fun loaded' password' hreset => Or.inr ?_⟩
    obtain ⟨rfl, -⟩ := Prod.mk.inj (Option.some.inj hreset)
    exact Accounts.resetRead_ok h.admin hread
  | @resetWrite password loaded salt now hm hr =>
    obtain ⟨hid, hloaded⟩ := h.reset loaded password hr
    obtain ⟨row', hadmin, -, hversion, -⟩ :=
      Accounts.resetWrite_admin hasher loaded salt password now h.admin hid
    refine ⟨row', hadmin, fun i l hi => ⟨?_, ?_, ?_⟩, by simp⟩
    · exact fun hp => absurd hp (hm i l hi)
    · intro administrator hl
      have hle := ((h.dated i l hi).creating administrator hl).1
      constructor <;> omega
    · intro grant hl
      obtain ⟨r, hrmem, hdigest, hle, -⟩ := (h.dated i l hi).granted grant hl
      obtain ⟨r', hr', hdigest', hversion'⟩ :=
        Accounts.sessionsKept_resetWrite hasher loaded salt password now r hrmem
      exact ⟨r', hr', hdigest'.trans hdigest, by omega, by omega⟩
  | resetFail hr =>
    exact ⟨row, h.move h.admin rfl rfl Accounts.SessionsKept.refl rfl rfl
      (fun _ _ hi => Or.inl hi) (by simp)⟩

/-- Every run keeps the logins dated. -/
theorem VersionKept.runs (hexact : hasher.Exact) {s₀ : Race} (h₀ : s₀.Start hasher)
    (hrun : Race.Runs svc hasher unicode Race.NonePending s₀ s) : ∃ row, VersionKept svc s row := by
  induction hrun with
  | refl =>
    obtain ⟨row, -, hadmin, -⟩ := h₀.admin
    refine ⟨row, hadmin, ?_, ?_⟩
    · intro i l hi
      simp [h₀.logins i] at hi
    · intro loaded password hr
      simp [h₀.reset] at hr
  | @tail s' s'' hrun' hstep ih =>
    obtain ⟨row, h⟩ := ih
    -- while no login is pending, none is renewing the hash
    have hmay : ∀ s : Race, s.NonePending → s.NoneRehashing := by
      intro s hs i l loaded hi hl
      exact hs i l hi (by rw [hl]; trivial)
    obtain ⟨row', hhash⟩ := HashKept.runs hexact hmay h₀ hrun'
    obtain rfl : row = row' := Option.some.inj (h.admin.symm.trans hhash.admin)
    exact h.step hexact hhash hstep

/-- **A password reset ends the sessions of the old password.** In every run in which no reset
commits while a login stands between the check of its password and the read of `create`, a session
is refused once a reset has committed since that check, or once the checked password is not the
one that was set last. -/
theorem reset_ends_sessions (hexact : hasher.Exact) {s₀ : Race} (h₀ : s₀.Start hasher)
    (hrun : Race.Runs svc hasher unicode Race.NonePending s₀ s) {i : ℕ} {grant : SessionGrant}
    (hi : s.logins i = some l) (hl : l.phase = .granted grant)
    (hold : l.era < s.resets ∨ l.password ≠ s.current) (now : Time) :
    (s.accounts.authenticate svc grant.rawToken now).1 = none := by
  obtain ⟨row, h⟩ := VersionKept.runs hexact h₀ hrun
  obtain ⟨r, hr, hdigest, -, hforce⟩ := (h.dated i l hi).granted grant hl
  have hne : r.sessionVersion ≠ row.sessionVersion := by
    intro heq
    obtain ⟨hera, hpassword⟩ := hforce heq
    rcases hold with hera' | hpassword'
    · omega
    · exact hpassword' hpassword
  have hfound : s.accounts.byDigest (svc.sessionDigest grant.rawToken) = some r :=
    Accounts.byDigest_eq_some.mpr ⟨hr, hdigest⟩
  rw [Accounts.authenticate]
  split_ifs
  · rw [hfound]
    cases ha : s.accounts.adminById r.adminId with
    | none => simp [ha]
    | some administrator =>
      obtain rfl : row = administrator := by
        rw [Accounts.adminById, h.admin, Option.filter_eq_some_iff] at ha
        exact Option.some.inj ha.1
      have hexpired : r.expired now row = true := by
        rw [← Bool.not_eq_false, AdminSession.expired_eq_false]
        exact fun hx => hne hx.2.2.2
      simp [ha, hexpired]
  · rfl

/-- The login of `EzOpenPN.sampleAdmin`, with the password of before the reset. -/
def sampleLogin (phase : LoginPhase) : Login := ⟨"correct horse battery", 0, phase⟩

/-- **A reset between the check and the session.** The password is checked, the reset commits, and
the session that is created afterwards carries the new version: it is accepted. -/
theorem reset_misses_pending_login :
    ∃ s i l grant now,
      Race.Runs sampleService plainHasher plainTables (fun _ => True) sampleRace s ∧
      s.logins i = some l ∧ l.phase = .granted grant ∧ l.era < s.resets ∧
      l.password ≠ s.current ∧
      (s.accounts.authenticate sampleService grant.rawToken now).1.isSome = true := by
  refine ⟨_, 0, sampleLogin (.granted (sampleService.grant sampleSessionDraw 5)),
    sampleService.grant sampleSessionDraw 5, 6, ((((((ReflTransGen.refl.tail
    (@Race.Step.verifyRead _ _ _ _ _ 0 "root" "correct horse battery" sampleAdmin false rfl
      rfl)).tail
    (.verifyWrite (i := 0) [] 1 rfl rfl)).tail
    (@Race.Step.resetRead _ _ _ _ _ "brand new password" _ rfl rfl)).tail
    (.resetWrite [] 2 trivial rfl)).tail
    (.clear (i := 0) rfl rfl)).tail
    (.createRead (i := 0) rfl rfl rfl)).tail
    (.createInsert (i := 0) sampleSessionDraw 5 rfl rfl rfl),
    rfl, rfl, ?_, ?_, ?_⟩
  · decide
  · decide
  · rfl

/-- A login, then a reset: the session is refused. -/
theorem reset_ends_sessions_after_login :
    ∃ s, Race.Runs sampleService plainHasher plainTables Race.NonePending sampleRace s ∧
      s.logins 0 = some (sampleLogin (.granted (sampleService.grant sampleSessionDraw 1))) ∧
      s.resets = 1 ∧ (s.accounts.authenticate sampleService
        (sampleService.grant sampleSessionDraw 1).rawToken 6).1 = none := by
  obtain ⟨s, hrun, hlogin, hreset, hresets⟩ : ∃ s,
      Race.Runs sampleService plainHasher plainTables Race.NonePending sampleRace s ∧
      (∀ i, s.logins i = if i = 0 then
        some (sampleLogin (.granted (sampleService.grant sampleSessionDraw 1))) else none) ∧
      s.reset = some (sampleAdmin, "brand new password") ∧ s.resets = 0 := by
    refine ⟨_, (((((ReflTransGen.refl.tail
      (@Race.Step.verifyRead _ _ _ _ _ 0 "root" "correct horse battery" sampleAdmin false rfl
        rfl)).tail
      (@Race.Step.resetRead _ _ _ _ _ "brand new password" sampleAdmin rfl rfl)).tail
      (.verifyWrite (i := 0) [] 1 rfl rfl)).tail
      (.clear (i := 0) rfl rfl)).tail
      (.createRead (i := 0) rfl rfl rfl)).tail
      (.createInsert (i := 0) sampleSessionDraw 1 rfl rfl rfl), ?_, rfl, rfl⟩
    intro i
    by_cases hi : i = 0
    · subst hi
      rfl
    · simp [Race.setLogin, hi, sampleRace]
  have hover : s.NonePending := by
    intro i l hi
    rw [hlogin] at hi
    split_ifs at hi
    obtain rfl := Option.some.inj hi
    exact id
  have hrun' := hrun.tail (.resetWrite [] 5 hover hreset)
  have hlogin' : s.logins 0 = some (sampleLogin (.granted (sampleService.grant sampleSessionDraw 1))) := by
    rw [hlogin, if_pos rfl]
  refine ⟨_, hrun', hlogin', by simp [hresets], ?_⟩
  exact reset_ends_sessions plainHasher_exact sampleRace_start hrun' hlogin' rfl
    (Or.inl (by simp [sampleLogin])) 6

end Versions

end EzOpenPN
