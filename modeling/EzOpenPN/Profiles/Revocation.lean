import EzOpenPN.Profiles.Convergence

/-!
# Revocation

`disable` commits the `DISABLED` state first and then works on the runtimes: kick, remove,
restart, wait, and add every active profile again. Each of these calls is guarded, and all
that remains of a failure is one flag.

`EzOpenPN.Rebuilt` is what a lowered flag stands for after any number of the additions: the
restart was acknowledged, so Xray started from nothing, and what it holds are users of the
records added since – all of them, if it did not crash. It is carried through the loop over
the records by the loop rule, under every pattern of faults.

The flag also decides more than it should. `disable` takes the user out of Xray before it
restarts it, and a rejected removal raises the flag although the restart that follows makes
the removal pointless: from a quiet world a revocation succeeds *exactly* when Xray holds
the user (`EzOpenPN.disable_and_delete_iff`).
-/

namespace EzOpenPN

open Prog

/-! ### Calls, under any faults -/

/-- **A world reached without touching the tables**, later in the same history. -/
structure Onward (w v : World) : Prop where
  tables : v.tables = w.tables
  step : w.step ≤ v.step
  history : ∃ new, v.history = new ++ w.history

theorem Onward.refl (w : World) : Onward w w := ⟨rfl, le_rfl, [], rfl⟩

theorem Onward.trans {w v x : World} (h : Onward w v) (h' : Onward v x) : Onward w x := by
  obtain ⟨new, hnew⟩ := h.history
  obtain ⟨new', hnew'⟩ := h'.history
  exact ⟨h'.tables.trans h.tables, h.step.trans h'.step, new' ++ new, by simp [hnew', hnew]⟩

/-- The call was acknowledged between two worlds. -/
def AckedSince (w v : World) (call : RuntimeCall) : Prop :=
  ∃ new, v.history = new ++ w.history ∧ ∃ m ∈ new, m.event = .acknowledged call

/-- An acknowledgement is not forgotten. -/
theorem AckedSince.extend {w v x : World} {call : RuntimeCall} (h : AckedSince w v call)
    (h' : ∃ new, x.history = new ++ v.history) : AckedSince w x call := by
  obtain ⟨new, hnew, m, hm, he⟩ := h
  obtain ⟨new', hnew'⟩ := h'
  exact ⟨new' ++ new, by simp [hnew', hnew], m, by simp [hm], he⟩

/-- An acknowledgement counts from every earlier world. -/
theorem AckedSince.of_later {w v x : World} {call : RuntimeCall}
    (h : ∃ new, v.history = new ++ w.history) (h' : AckedSince v x call) : AckedSince w x call := by
  obtain ⟨new, hnew⟩ := h
  obtain ⟨new', hnew', m, hm, he⟩ := h'
  exact ⟨new' ++ new, by simp [hnew', hnew], m, by simp [hm], he⟩

section Calls

variable {env : Env} {w : World}

theorem onward_arrive : Onward w (w.arrive env) := by
  rw [World.arrive]
  split
  · exact ⟨rfl, Nat.le_succ _, [⟨.crashed, w.tables, ∅⟩], rfl⟩
  · exact ⟨rfl, Nat.le_succ _, [], rfl⟩

/-- A crash is all that can happen on the way into a step. -/
theorem arrive_users_eq (env : Env) (w : World) :
    (w.arrive env).users = w.users ∨ (w.arrive env).users = ∅ := by
  rw [World.arrive]
  split
  · exact Or.inr rfl
  · exact Or.inl rfl

/-- **What a call leaves**, under any faults: an acknowledgement and its effect, or at least the
same tables. -/
theorem wp_runtimeCall_onward {call : RuntimeCall} {error : StatusCode → PyError}
    {effect : Users → Option Users} :
    wp (runtimeCall env call error effect)
      (fun _ v => Onward w v ∧ AckedSince w v call ∧
        effect (w.arrive env).users = some v.users)
      (fun _ v => Onward w v) w := by
  have harr : Onward w (w.arrive env) := onward_arrive
  obtain ⟨new, hnew⟩ := harr.history
  have hrec : ∀ u e, Onward w (({ w.arrive env with users := u } : World).record e) := fun u e =>
    ⟨by simp, by simp, ⟨e, w.tables, u⟩ :: new, by simp [hnew]⟩
  rw [wp_runtimeCall]
  refine ⟨fun u _ he => ⟨hrec u _, ?_, he⟩, fun _ _ => harr, fun _ _ => harr,
    fun _ u _ _ => hrec u _, fun _ _ _ => harr⟩
  exact ⟨⟨.acknowledged call, w.tables, u⟩ :: new, by simp [hnew],
    ⟨.acknowledged call, w.tables, u⟩, by simp, rfl⟩

/-- `kick` leaves the user set alone. -/
theorem wp_kick {k : String} :
    wp (kick env k) (fun _ v => Onward w v ∧ AckedSince w v (.kick k)) (fun _ v => Onward w v) w := by
  rw [kick]
  split
  · exact wp_mono wp_runtimeCall_onward (fun _ _ h => ⟨h.1, h.2.1⟩) fun _ _ h => h
  · exact (wp_raise _).mpr (Onward.refl w)

theorem wp_removeUser {k : String} :
    wp (removeUser env k) (fun _ v => Onward w v) (fun _ v => Onward w v) w := by
  rw [removeUser]
  split
  · exact wp_mono wp_runtimeCall_onward (fun _ _ h => h.1) fun _ _ h => h
  · exact (wp_raise _).mpr (Onward.refl w)

theorem wp_restart :
    wp (restart env) (fun _ v => Onward w v ∧ AckedSince w v .restart ∧ v.users = ∅)
      (fun _ v => Onward w v) w := by
  refine wp_mono wp_runtimeCall_onward (fun _ _ h => ⟨h.1, h.2.1, ?_⟩) fun _ _ h => h
  exact (Option.some.inj h.2.2).symm

theorem wp_waitReady :
    wp (waitReady env) (fun _ v => Onward w v ∧ v.users = (w.arrive env).users)
      (fun _ v => Onward w v) w := by
  refine wp_mono wp_runtimeCall_onward (fun _ _ h => ⟨h.1, ?_⟩) fun _ _ h => h
  exact (Option.some.inj h.2.2).symm

/-- **An addition that returns was acknowledged**, with the user id it was made for. -/
theorem wp_addUser {k : String} {x : Uuid} :
    wp (addUser env k x) (fun _ v => Onward w v ∧ AckedSince w v (.addUser k x) ∧
      v.users = (w.arrive env).users.insert k x) (fun _ v => Onward w v) w := by
  rw [addUser]
  split
  · refine wp_mono wp_runtimeCall_onward (fun _ _ h => ⟨h.1, h.2.1, ?_⟩) fun _ _ h => h
    have he := h.2.2
    rw [addUserEffect] at he
    split at he
    · exact absurd he (by simp)
    · exact (Option.some.inj he).symm
  · exact (wp_raise _).mpr (Onward.refl w)

/-- Adding a record adds its stored user id. -/
theorem wp_addRecord {r : ProfileRecord} :
    wp (addRecord env r) (fun _ v => ∃ u, storedUserId env.cipher r = some u ∧ Onward w v ∧
      AckedSince w v (.addUser r.runtimeId.text u) ∧
      v.users = (w.arrive env).users.insert r.runtimeId.text u) (fun _ v => Onward w v) w := by
  rw [addRecord, wp_bind, wp_ofExcept]
  refine ⟨fun u hu => ?_, fun _ _ => Onward.refl w⟩
  refine wp_mono wp_addUser (fun _ v h => ⟨u, readUserId_eq_ok.mp hu, h⟩) fun _ _ h => h

/-- **A guarded call lowers nothing**: the flag stays down only if it was down and the call
returned. -/
theorem wp_attempted {b : Bool} {call : Py Unit} {P F : World → Prop}
    (h : wp call (fun _ v => P v) (fun _ v => F v) w) :
    wp (attempted b call) (fun b' v => (P v ∨ F v) ∧ (b' = false → b = false ∧ P v))
      (fun _ _ => False) w := by
  rw [attempted, wp_bind, wp_succeeds]
  refine wp_mono h (fun _ v hv => (wp_pure _).mpr ⟨Or.inl hv, fun hb => ?_⟩)
    fun _ v hv => (wp_pure _).mpr ⟨Or.inr hv, fun hb => ?_⟩
  · exact ⟨by simpa using hb, hv⟩
  · exact absurd hb (by simp)

end Calls

/-! ### The runtime part -/

/-- **Xray rebuilt from nothing**, after the kick and the restart were acknowledged: it holds
users of the records in `added` only, and unless it crashed it holds all of them. -/
structure Rebuilt (env : Env) (w v : World) (k : String) (added : List ProfileRecord) : Prop where
  kicked : AckedSince w v (.kick k)
  restarted : AckedSince w v .restart
  sound : ∀ e u, v.users.lookup e = some u →
    ∃ r ∈ added, r.state = .active ∧ r.runtimeId.text = e ∧ storedUserId env.cipher r = some u
  complete : env.NoCrashFrom w.step → ∀ r ∈ added, r.state = .active →
    ∃ u, storedUserId env.cipher r = some u ∧ v.users.lookup r.runtimeId.text = some u

section Revoke

variable {env : Env} {w v : World} {k : String} {added : List ProfileRecord}

/-- What a crash on the way into a step can take from the user set. -/
theorem lookup_arrive {e : String} {u : Uuid} (h : (v.arrive env).users.lookup e = some u) :
    v.users.lookup e = some u := by
  rcases arrive_users_eq env v with hu | hu
  · rwa [hu] at h
  · rw [hu, AList.lookup_empty] at h
    exact absurd h (by simp)

theorem arrive_users_of_noCrash (h : env.NoCrashFrom w.step) (hstep : w.step ≤ v.step) :
    (v.arrive env).users = v.users := by
  rw [World.arrive_of_noCrash (h v.step hstep)]

/-- A record that is not active adds nothing. -/
theorem Rebuilt.skip (h : Rebuilt env w v k added) {r : ProfileRecord} (hr : r.state ≠ .active) :
    Rebuilt env w v k (added ++ [r]) := by
  refine ⟨h.kicked, h.restarted, fun e u hu => ?_, fun hc q hq hs => ?_⟩
  · obtain ⟨q, hq, hrest⟩ := h.sound e u hu
    exact ⟨q, by simp [hq], hrest⟩
  · rcases List.mem_append.mp hq with hq | hq
    · exact h.complete hc q hq hs
    · obtain rfl := List.mem_singleton.mp hq
      exact absurd hs hr

/-- **One more record**: its user joins those already there. -/
theorem Rebuilt.add (h : Rebuilt env w v k added) (hov : Onward w v) {x : World} (hvx : Onward v x)
    {r : ProfileRecord} (hr : r.state = .active) {u : Uuid}
    (hu : storedUserId env.cipher r = some u)
    (hx : x.users = (v.arrive env).users.insert r.runtimeId.text u)
    (hfresh : ∀ q ∈ added, q.runtimeId ≠ r.runtimeId) : Rebuilt env w x k (added ++ [r]) := by
  refine ⟨h.kicked.extend hvx.history, h.restarted.extend hvx.history, fun e y hy => ?_, fun hc q hq hs => ?_⟩
  · by_cases he : e = r.runtimeId.text
    · subst he
      rw [hx, AList.lookup_insert] at hy
      exact ⟨r, by simp, hr, rfl, by rw [hu, hy]⟩
    · rw [hx, AList.lookup_insert_ne he] at hy
      obtain ⟨q, hq, hrest⟩ := h.sound e y (lookup_arrive hy)
      exact ⟨q, by simp [hq], hrest⟩
  · rcases List.mem_append.mp hq with hq | hq
    · obtain ⟨y, hy, hl⟩ := h.complete hc q hq hs
      refine ⟨y, hy, ?_⟩
      have hne : q.runtimeId.text ≠ r.runtimeId.text := fun he =>
        hfresh q hq (RuntimeId.text_injective he)
      rw [hx, AList.lookup_insert_ne hne, arrive_users_of_noCrash hc hov.step, hl]
    · obtain rfl := List.mem_singleton.mp hq
      exact ⟨u, hu, by rw [hx, AList.lookup_insert]⟩

/-- **What the runtime part of a revocation leaves**: the tables, and if the flag is down an
Xray rebuilt from the active records. -/
theorem wp_revokeRuntime {r : ProfileRecord} :
    wp (revokeRuntime env r)
      (fun b v => Onward w v ∧ (b = false → Rebuilt env w v r.runtimeId.text w.tables.list))
      (fun _ _ => False) w := by
  rw [revokeRuntime, wp_bind]
  refine wp_mono (wp_attempted wp_kick) (fun b₁ v₁ h₁ => ?_) fun _ _ h => h
  have ho₁ : Onward w v₁ := h₁.1.elim And.left id
  rw [wp_bind]
  refine wp_mono (wp_attempted wp_removeUser) (fun b₂ v₂ h₂ => ?_) fun _ _ h => h
  have ho₂ : Onward v₁ v₂ := h₂.1.elim id id
  rw [wp_bind]
  refine wp_mono (wp_attempted wp_restart) (fun b₃ v₃ h₃ => ?_) fun _ _ h => h
  have ho₃ : Onward v₂ v₃ := h₃.1.elim And.left id
  rw [wp_bind]
  refine wp_mono (wp_attempted wp_waitReady) (fun b₄ v₄ h₄ => ?_) fun _ _ h => h
  have ho₄ : Onward v₃ v₄ := h₄.1.elim And.left id
  have ho : Onward w v₄ := ((ho₁.trans ho₂).trans ho₃).trans ho₄
  rw [wp_bind, wp_repositoryList, ho.tables]
  -- the invariant of the loop: a flag still down means that every record so far was served
  refine wp_foldEach_prefix (I := fun pre b v => Onward w v ∧
    (b = false → Rebuilt env w v r.runtimeId.text pre)) ?_ ⟨ho, fun hb => ?_⟩
  · rintro pre q post hsplit b v ⟨hov, hreb⟩
    by_cases hs : q.state = .active
    · rw [if_neg (by simp [hs])]
      refine wp_mono (wp_attempted wp_addRecord) (fun b' v' h => ?_) fun _ _ h => h.elim
      have hon : Onward v v' := h.1.elim (fun ⟨_, _, ho, _⟩ => ho) id
      refine ⟨hov.trans hon, fun hb' => ?_⟩
      obtain ⟨hb, u, hu, -, -, husers⟩ := h.2 hb'
      refine (hreb hb).add hov hon hs hu husers fun p hp he => ?_
      have hnd := w.tables.list_runtimeId_nodup
      rw [hsplit, List.map_append, List.nodup_append] at hnd
      exact hnd.2.2 _ (List.mem_map_of_mem hp) _ (by simp) he
    · rw [if_pos hs, wp_pure]
      exact ⟨hov, fun hb => (hreb hb).skip hs⟩
  · obtain ⟨hb₃, -, husers⟩ := h₄.2 hb
    obtain ⟨hb₂, -, hack, hempty⟩ := h₃.2 hb₃
    obtain ⟨hb₁, -⟩ := h₂.2 hb₂
    obtain ⟨-, -, hkick⟩ := h₁.2 hb₁
    refine ⟨hkick.extend ((ho₂.trans ho₃).trans ho₄).history,
      (hack.of_later (ho₁.trans ho₂).history).extend ho₄.history, fun e u hu => ?_, fun _ q hq => ?_⟩
    · rw [husers] at hu
      have := lookup_arrive hu
      rw [hempty, AList.lookup_empty] at this
      exact absurd this (by simp)
    · exact absurd hq (by simp)

end Revoke

/-! ### The transactions of a revocation -/

section Transactions

variable {env : Env} {w : World} {q : Uuid}

/-- **What `set_state` leaves** when it returns: its commit is the latest moment. -/
theorem wp_setState {state : ProfileState} {code : Option String} :
    wp (repositorySetState env q state code)
      (fun r v => w.tables.setState (env.clock w.step) q state code = .ok (r, v.tables) ∧
        w.step ≤ v.step ∧ v.users = (w.arrive env).users ∧
        ∃ new, v.history = ⟨.committed (.setState q state), v.tables, v.users⟩ :: new ++ w.history)
      (fun e v => w.tables.setState (env.clock w.step) q state code = .error e ∧ Onward w v) w := by
  have harr : Onward w (w.arrive env) := onward_arrive
  obtain ⟨new, hnew⟩ := harr.history
  refine wp_transaction.mpr ⟨fun r t h => ⟨h, by simp, rfl, new, by simp [hnew]⟩, fun e h => ⟨h, harr⟩⟩

/-- **What `set_runtime_error` leaves** when it returns. -/
theorem wp_setRuntimeError {code : String} :
    wp (repositorySetRuntimeError env q code)
      (fun r v => w.tables.setRuntimeError (env.clock w.step) q code = .ok (r, v.tables))
      (fun e v => w.tables.setRuntimeError (env.clock w.step) q code = .error e ∧ Onward w v) w :=
  wp_transaction.mpr ⟨fun _ _ h => h, fun _ h => ⟨h, onward_arrive⟩⟩

/-- **`_prepare_disabled` commits the `DISABLED` state**, as the latest thing that happened. -/
theorem wp_prepareDisabled :
    wp (prepareDisabled env q)
      (fun r v => v.tables.get q = .ok r ∧ r.state = .disabled ∧ w.step ≤ v.step ∧
        (∃ r₀, w.tables.get q = .ok r₀ ∧ r.runtimeId = r₀.runtimeId) ∧
        ∃ commit new, v.history = commit :: new ++ w.history ∧
          commit.event = .committed (.setState q .disabled))
      (fun e _ => e.kind ≠ .profileRevocationFailed) w := by
  have herror : ∀ {t : Tables} {n state e}, t.setState n q state none = .error e →
      e.kind ≠ .profileRevocationFailed := fun h => by
    rcases Tables.setState_error h with hk | hk <;> simp [hk]
  rw [prepareDisabled, wp_bind, wp_repositoryGet]
  refine ⟨fun r₀ hr₀ => ?_, fun e he => by simp [Tables.get_error he, Tables.notFound]⟩
  split
  · -- a pending profile passes through `ERROR`, from which `DISABLED` is legal
    rw [wp_bind]
    refine wp_mono wp_setState (fun r₁ v₁ h₁ => ?_) fun e _ h => herror h.1
    obtain ⟨hset, hstep, -, new, hnew⟩ := h₁
    have hg₁ := Tables.get_of_setState hset
    change wp (repositorySetState env r₁.id .disabled none) _ _ v₁
    rw [(Tables.mem_of_get hg₁).2]
    refine wp_mono wp_setState (fun r v h => ?_) fun e _ h => herror h.1
    obtain ⟨hset', hstep', -, new', hnew'⟩ := h
    refine ⟨Tables.get_of_setState hset', ?_, hstep.trans hstep', ⟨r₀, hr₀, ?_⟩, ?_⟩
    · obtain ⟨_, -, -, rfl, -⟩ := Tables.setState_ok hset'
      rfl
    · obtain ⟨s₁, hs₁, -, rfl, -⟩ := Tables.setState_ok hset'
      obtain ⟨s₀, hs₀, -, rfl, -⟩ := Tables.setState_ok hset
      obtain rfl := Except.ok.inj (hg₁.symm.trans hs₁)
      obtain rfl := Except.ok.inj (hr₀.symm.trans hs₀)
      rfl
    · refine ⟨⟨.committed (.setState q .disabled), v.tables, v.users⟩,
        new' ++ ⟨.committed (.setState q .error), v₁.tables, v₁.users⟩ :: new, ?_, rfl⟩
      rw [hnew', hnew]
      simp
  · rw [wp_bind, wp_pure]
    change wp (repositorySetState env r₀.id .disabled none) _ _ w
    rw [(Tables.mem_of_get hr₀).2]
    refine wp_mono wp_setState (fun r v h => ?_) fun e _ h => herror h.1
    obtain ⟨hset, hstep, -, new, hnew⟩ := h
    refine ⟨Tables.get_of_setState hset, ?_, hstep, ⟨r₀, hr₀, ?_⟩, ?_⟩
    · obtain ⟨_, -, -, rfl, -⟩ := Tables.setState_ok hset
      rfl
    · obtain ⟨s₀, hs₀, -, rfl, -⟩ := Tables.setState_ok hset
      obtain rfl := Except.ok.inj (hr₀.symm.trans hs₀)
      rfl
    · exact ⟨_, new, hnew, rfl⟩

end Transactions

/-! ### Revocation, under any faults -/

/-- The code of an incomplete revocation passes the check of `set_runtime_error`. -/
theorem setRuntimeError_revokeIncomplete {t : Tables} {n : Time} {q : Uuid} {r : ProfileRecord}
    (hg : t.get q = .ok r) : ∃ r' t', t.setRuntimeError n q runtimeRevokeIncomplete = .ok (r', t') := by
  have hcode : ¬(runtimeRevokeIncomplete.length < 1 ∨ 64 < runtimeRevokeIncomplete.length ∨
      runtimeRevokeIncomplete.toList.filter (· ≠ '_') = [] ∨
      ¬(runtimeRevokeIncomplete.toList.filter (· ≠ '_')).all Tables.isAlnum) := by
    decide
  rw [Tables.setRuntimeError]
  simp only [bind, Except.bind, hcode, if_false, hg, pure, Except.pure]
  exact ⟨_, _, rfl⟩

/-- **What `disable` leaves**, under any faults. If it returns, the profile is disabled, kick
and restart were acknowledged after that was committed, and Xray was rebuilt from the active
records; if it reports an incomplete revocation, the profile is disabled and says so. -/
theorem wp_disable (env : Env) (w : World) (q : Uuid) :
    wp (disable env q)
      (fun res v => ∃ r v₀, v.tables.get q = .ok r ∧ r.state = .disabled ∧
        (∃ r₀, w.tables.get q = .ok r₀ ∧ r.runtimeId = r₀.runtimeId) ∧
        res = profileResult r none none ∧ w.step ≤ v₀.step ∧
        (∃ commit new, v₀.history = commit :: new ++ w.history ∧
          commit.event = .committed (.setState q .disabled)) ∧
        Onward v₀ v ∧ Rebuilt env v₀ v r.runtimeId.text v.tables.list)
      (fun e v => e.kind = .profileRevocationFailed → ∃ r, v.tables.get q = .ok r ∧
        r.state = .disabled ∧ r.lastErrorCode = some runtimeRevokeIncomplete) w := by
  rw [disable, wp_bind]
  refine wp_mono wp_prepareDisabled (fun r v₀ h₀ => ?_) fun e _ h hk => absurd hk h
  obtain ⟨hget, hstate, hstep, hrid, hcommit⟩ := h₀
  have hid : r.id = q := (Tables.mem_of_get hget).2
  rw [wp_bind]
  refine wp_mono wp_revokeRuntime (fun b v h => ?_) fun _ _ h => h.elim
  obtain ⟨hon, hreb⟩ := h
  have hget' : v.tables.get q = .ok r := by rw [hon.tables, hget]
  rw [hid]
  cases b with
  | true =>
    rw [if_pos rfl, wp_bind]
    obtain ⟨r', t', hset⟩ := setRuntimeError_revokeIncomplete (n := env.clock v.step) hget'
    refine wp_mono wp_setRuntimeError (fun r'' x hx => ?_) fun e _ h => ?_
    · rw [wp_bind]
      refine wp_mono wp_reconcileAfterError (fun _ y hy => ?_) fun _ _ h => h
      rw [wp_raise, hy]
      obtain ⟨s, hs, rfl, ht⟩ := Tables.setRuntimeError_ok hx
      obtain rfl := Except.ok.inj (hget'.symm.trans hs)
      rw [ht]
      exact fun _ => ⟨_, Tables.get_modifyProfile_self hget', hstate, rfl⟩
    · exact absurd (hset.symm.trans h.1) (by simp)
  | false =>
    rw [if_neg (by simp), wp_bind, wp_repositoryGet]
    refine ⟨fun s hs => (wp_pure _).mpr ?_, fun e he => ?_⟩
    · obtain rfl := Except.ok.inj (hget'.symm.trans hs)
      refine ⟨r, v₀, hget', hstate, hrid, rfl, hstep, hcommit, hon, ?_⟩
      rw [hon.tables]
      exact hreb rfl
    · exact absurd (hget'.symm.trans he) (by simp)

/-- A rebuilt Xray is exact if it did not crash. -/
theorem Rebuilt.exact {env : Env} {w v : World} {k : String}
    (h : Rebuilt env w v k v.tables.list) (hcrash : env.NoCrashFrom w.step) :
    Exact env.cipher v.tables v.users := by
  intro e u
  constructor
  · intro hu
    obtain ⟨r, hr, hs, hrest⟩ := h.sound e u hu
    exact ⟨r, mem_activeRecords.mpr ⟨Tables.mem_list.mp hr, hs⟩, hrest⟩
  · rintro ⟨r, hr, rfl, hu⟩
    obtain ⟨hmem, hs⟩ := mem_activeRecords.mp hr
    obtain ⟨y, hy, hl⟩ := h.complete hcrash r (Tables.mem_list.mpr hmem) hs
    rw [hl, ← hy, hu]

/-- **Disable is exact.** Whatever happens to the calls it makes, as long as Xray does not
crash on its own: a normal return means that the profile is disabled, that kick and restart
were acknowledged after that was committed, and that Xray holds exactly the active records;
an incomplete revocation leaves the profile disabled with its error code set. -/
theorem disable_exact (env : Env) (w : World) (p : Uuid) (hcrash : env.NoCrashFrom w.step) :
    (∀ res w', disable env p w = (.ok res, w') →
      ∃ r, w'.tables.get p = .ok r ∧ r.state = .disabled ∧ res = profileResult r none none ∧
        (∃ later commit earlier, w'.history = later ++ commit :: earlier ++ w.history ∧
          commit.event = .committed (.setState p .disabled) ∧
          (∃ m ∈ later, m.event = .acknowledged (.kick r.runtimeId.text)) ∧
          ∃ m ∈ later, m.event = .acknowledged .restart) ∧
        Exact env.cipher w'.tables w'.users) ∧
    (∀ e w', disable env p w = (.error e, w') → e.kind = .profileRevocationFailed →
      ∃ r, w'.tables.get p = .ok r ∧ r.state = .disabled ∧
        r.lastErrorCode = some runtimeRevokeIncomplete) := by
  obtain ⟨hok, herr⟩ := wp_iff.mp (wp_disable env w p)
  refine ⟨fun res w' h => ?_, herr⟩
  obtain ⟨r, v₀, hget, hstate, -, hres, hstep, ⟨commit, new, hhist, hev⟩, hon, hreb⟩ := hok res w' h
  refine ⟨r, hget, hstate, hres, ?_, hreb.exact fun i hi => hcrash i (hstep.trans hi)⟩
  obtain ⟨later, hlater⟩ := hon.history
  refine ⟨later, commit, new, by simp [hlater, hhist], hev, ?_, ?_⟩
  · obtain ⟨new', hnew', hm⟩ := hreb.kicked
    obtain rfl : later = new' := List.append_cancel_right (hlater.symm.trans hnew')
    exact hm
  · obtain ⟨new', hnew', hm⟩ := hreb.restarted
    obtain rfl : later = new' := List.append_cancel_right (hlater.symm.trans hnew')
    exact hm

/-- A revocation in the sample installation returns, and leaves Xray with nobody. -/
theorem disable_exact_sample : ∃ res w', disable calmEnv (sampleDraw 1).profileId sampleWorld =
    (.ok res, w') ∧ Exact calmEnv.cipher w'.tables w'.users := by
  have hexact := disable_exact calmEnv sampleWorld (sampleDraw 1).profileId fun _ _ => rfl
  have hok : ((disable calmEnv (sampleDraw 1).profileId sampleWorld).1.toOption).isSome = true := by
    decide +kernel
  rcases h : disable calmEnv (sampleDraw 1).profileId sampleWorld with ⟨e | res, w'⟩
  · rw [h] at hok
    exact absurd hok (by simp [Except.toOption])
  · obtain ⟨_, -, -, -, -, hx⟩ := hexact.1 res w' h
    exact ⟨res, w', rfl, hx⟩

/-! ### Revocation in a quiet world -/

/-- The material of every active record decrypts. -/
def Decrypts (cipher : SecretCipher) (t : Tables) : Prop :=
  ∀ r ∈ activeRecords t, ∃ u, storedUserId cipher r = some u

/-- A profile that leaves `ACTIVE` takes one record off the active ones and adds none. -/
theorem activeRecords_demote {t t' : Tables} {n : Time} {q : Uuid} {state : ProfileState}
    {code : Option String} {r r' : ProfileRecord} (hs : state ≠ .active)
    (h : t.setState n q state code = .ok (r, t')) (hr : r' ∈ activeRecords t') :
    r' ∈ activeRecords t ∧ r'.id ≠ q := by
  obtain ⟨_, -, -, -, rfl⟩ := Tables.setState_ok h
  obtain ⟨hmem, hact⟩ := mem_activeRecords.mp hr
  obtain ⟨r₀, hr₀, hr'⟩ := Tables.mem_records_modifyProfile.mp hmem
  by_cases hid : r₀.id = q
  · rw [if_pos hid] at hr'
    subst hr'
    exact absurd hact hs
  · rw [if_neg hid] at hr'
    subst hr'
    exact ⟨mem_activeRecords.mpr ⟨hr₀, hact⟩, hid⟩

section Quiet

variable {env : Env} {w : World} {q : Uuid} {t : Tables} {f : String → Option Uuid}

/-- In a quiet world a demotion keeps the user set, and what decrypts. -/
theorem keeps_settled_setState {state : ProfileState} {code : Option String}
    (hs : state ≠ .active) :
    Keeps (fun v => Settled env v.tables f v ∧ Decrypts env.cipher v.tables)
      (repositorySetState env q state code) := by
  rintro v ⟨hv, hd⟩
  have harr : v.arrive env = { v with step := v.step + 1 } :=
    World.arrive_of_noCrash (by rw [hv.quiet.now]; rfl)
  refine wp_transaction.mpr ⟨fun r t h => ⟨⟨?_, rfl, ?_⟩, fun r' hr' => ?_⟩, fun e _ => ?_⟩
  · rw [harr]
    exact hv.quiet.mono (Nat.le_succ _)
  · rw [harr]
    exact hv.lookup
  · exact hd r' (activeRecords_demote hs h hr').1
  · rw [harr]
    exact ⟨⟨hv.quiet.mono (Nat.le_succ _), rfl, hv.lookup⟩, hd⟩

theorem keeps_settled_prepareDisabled :
    Keeps (fun v => Settled env v.tables f v ∧ Decrypts env.cipher v.tables)
      (prepareDisabled env q) := by
  refine Keeps.bind (Keeps.bind Keeps.read fun _ => Keeps.ofExcept _) fun r => Keeps.ite ?_ ?_
  · exact Keeps.bind (keeps_settled_setState (by simp)) fun _ => keeps_settled_setState (by simp)
  · exact Keeps.bind (Keeps.ret r) fun _ => keeps_settled_setState (by simp)

/-- **Every state leads to `DISABLED`**: `_prepare_disabled` returns for every stored profile. -/
theorem wp_prepareDisabled_total {r : ProfileRecord} (h : w.tables.get q = .ok r) :
    wp (prepareDisabled env q) (fun _ _ => True) (fun _ _ => False) w := by
  have hset : ∀ {v : World} {r : ProfileRecord} {state}, v.tables.get q = .ok r →
      (r.state = state ∨ state ∈ Tables.legalTransitions r.state) →
      wp (repositorySetState env q state none) (fun r' v' => v'.tables.get q = .ok r' ∧
        r'.state = state) (fun _ _ => False) v := by
    intro v r state hg hl
    refine wp_transaction.mpr ⟨fun r' t ht => ⟨Tables.get_of_setState ht, ?_⟩, fun e he => ?_⟩
    · obtain ⟨_, -, -, rfl, -⟩ := Tables.setState_ok ht
      rfl
    · rw [Tables.setState_of_legal hg hl] at he
      exact absurd he (by simp)
  rw [prepareDisabled, wp_bind, wp_repositoryGet]
  refine ⟨fun r₀ hr₀ => ?_, fun e he => absurd (h.symm.trans he) (by simp)⟩
  split
  · rename_i hp
    rw [wp_bind]
    refine wp_mono (hset hr₀ (by rw [hp]; decide)) (fun r₁ v₁ h₁ => ?_) fun _ _ h => h
    change wp (repositorySetState env r₁.id .disabled none) _ _ v₁
    rw [(Tables.mem_of_get h₁.1).2]
    exact wp_mono (hset h₁.1 (by rw [h₁.2]; decide)) (fun _ _ _ => trivial) fun _ _ h => h
  · rename_i hp
    rw [wp_bind, wp_pure]
    change wp (repositorySetState env r₀.id .disabled none) _ _ w
    rw [(Tables.mem_of_get hr₀).2]
    have hl : r₀.state = .disabled ∨ .disabled ∈ Tables.legalTransitions r₀.state := by
      cases hst : r₀.state with
      | pending => exact absurd hst hp
      | active => decide
      | disabled => decide
      | error => decide
    exact wp_mono (hset hr₀ hl) (fun _ _ _ => trivial) fun _ _ h => h

/-- A strict Xray rejects the removal of an absent user, and that is all that happens. -/
theorem Settled.wp_removeUser_absent (h : Settled env t f w) (hstrict : env.strict = true)
    {k : String} (hk : f k = none) :
    wp (removeUser env k) (fun _ _ => False) (fun _ => Settled env t f) w := by
  rw [removeUser]
  split
  · have habsent : k ∉ w.users := fun hmem => h.mem_iff.mp hmem hk
    rw [wp_runtimeCall_quiet h.quiet.now]
    refine ⟨fun u hu => ?_, fun _ => ⟨h.quiet.mono (Nat.le_succ _), h.tables, h.lookup⟩⟩
    simp [removeUserEffect, hstrict, habsent] at hu
  · exact (wp_raise _).mpr h

/-- A guarded call that returns keeps the flag. -/
theorem wp_attempted_ok {b : Bool} {call : Py Unit} {Q : Bool → World → Prop}
    (h : wp call (fun _ v => Q b v) (fun _ _ => False) w) :
    wp (attempted b call) Q (fun _ _ => False) w := by
  rw [attempted, wp_bind, wp_succeeds]
  refine wp_mono h (fun _ v hv => (wp_pure _).mpr ?_) fun _ _ h => h.elim
  simpa using hv

/-- A guarded call that raises raises the flag. -/
theorem wp_attempted_error {b : Bool} {call : Py Unit} {Q : Bool → World → Prop}
    (h : wp call (fun _ _ => False) (fun _ v => Q true v) w) :
    wp (attempted b call) Q (fun _ _ => False) w := by
  rw [attempted, wp_bind, wp_succeeds]
  refine wp_mono h (fun _ _ h => h.elim) fun _ v hv => (wp_pure _).mpr ?_
  simpa using hv

/-- **The active records all fit into an empty Xray**: their identifiers are distinct, so no
addition meets a held one. -/
theorem Settled.wp_addActive (h : Settled env t (fun _ => none) w) (hd : Decrypts env.cipher t)
    (b : Bool) :
    wp (foldEach t.list (fun incomplete active =>
        if active.state ≠ .active then pure incomplete
        else attempted incomplete (addRecord env active)) b)
      (fun b' v => b' = b ∧ ∃ g, Settled env t g v ∧
        ∀ k, g k ≠ none → ∃ q ∈ t.list, q.runtimeId.text = k) (fun _ _ => False) w := by
  refine wp_foldEach_prefix (I := fun (pre : List ProfileRecord) b' v => b' = b ∧
    ∃ g, Settled env t g v ∧ ∀ k, g k ≠ none → ∃ q ∈ pre, q.runtimeId.text = k)
    ?_ ⟨rfl, _, h, by simp⟩
  rintro pre q post hsplit b' v ⟨rfl, g, hg, hkeys⟩
  by_cases hs : q.state = .active
  · rw [if_neg (by simp [hs])]
    have hact : q ∈ activeRecords t := mem_activeRecords.mpr
      ⟨Tables.mem_list.mp (by rw [hsplit]; simp), hs⟩
    obtain ⟨u, hu⟩ := hd q hact
    have hfree : g q.runtimeId.text = none := by
      by_contra hne
      obtain ⟨q', hq', he⟩ := hkeys _ hne
      have hnd := t.list_runtimeId_nodup
      rw [hsplit, List.map_append, List.nodup_append] at hnd
      exact hnd.2.2 _ (List.mem_map_of_mem hq') _ (by simp) (RuntimeId.text_injective he)
    refine wp_attempted_ok ?_
    rw [addRecord, wp_bind, wp_ofExcept]
    refine ⟨fun u' _ => ?_, fun e he => ?_⟩
    · refine wp_mono (hg.wp_addUser q.runtimeId.matches_text u' fun _ => hfree)
        (fun _ v' hv' => ⟨rfl, _, hv', fun k hk => ?_⟩) fun _ _ h => h
      by_cases hkk : k = q.runtimeId.text
      · exact ⟨q, by simp, hkk.symm⟩
      · rw [Function.update_of_ne hkk] at hk
        obtain ⟨q', hq', he⟩ := hkeys k hk
        exact ⟨q', by simp [hq'], he⟩
    · exact absurd ((readUserId_eq_ok.mpr hu).symm.trans he) (by simp)
  · rw [if_pos hs, wp_pure]
    refine ⟨rfl, g, hg, fun k hk => ?_⟩
    obtain ⟨q', hq', he⟩ := hkeys k hk
    exact ⟨q', by simp [hq'], he⟩

/-- **In a quiet world the flag tells whether Xray held the user**: the removal is the only
call that can be rejected. -/
theorem Settled.wp_revokeRuntime (h : Settled env t f w) (hstrict : env.strict = true)
    (hd : Decrypts env.cipher t) {r : ProfileRecord} :
    wp (revokeRuntime env r)
      (fun b v => (b = true ↔ f r.runtimeId.text = none) ∧ ∃ g, Settled env t g v)
      (fun _ _ => False) w := by
  rw [revokeRuntime, wp_bind]
  refine wp_attempted_ok (wp_mono (h.wp_kick r.runtimeId.matches_text) (fun _ v₁ h₁ => ?_)
    fun _ _ h => h)
  rw [wp_bind]
  suffices hremoved : wp (attempted false (removeUser env r.runtimeId.text))
      (fun b v => (b = true ↔ f r.runtimeId.text = none) ∧ ∃ g, Settled env t g v)
      (fun _ _ => False) v₁ by
    -- from the restart on nothing fails, whatever the flag is by then
    refine wp_mono hremoved (fun b₂ v₂ ⟨hb₂, g, h₂⟩ => ?_) fun _ _ h => h
    rw [wp_bind]
    refine wp_attempted_ok (wp_mono h₂.wp_restart (fun _ v₃ h₃ => ?_) fun _ _ h => h)
    rw [wp_bind]
    refine wp_attempted_ok (wp_mono h₃.wp_waitReady (fun _ v₄ h₄ => ?_) fun _ _ h => h)
    rw [wp_bind, wp_repositoryList, h₄.tables]
    refine wp_mono (h₄.wp_addActive hd b₂) (fun b v hv => ?_) fun _ _ h => h
    obtain ⟨rfl, g, hg, -⟩ := hv
    exact ⟨hb₂, g, hg⟩
  by_cases hheld : f r.runtimeId.text = none
  · refine wp_attempted_error (wp_mono (h₁.wp_removeUser_absent hstrict hheld) (fun _ _ h => h)
      fun _ v₂ h₂ => ⟨by simp [hheld], f, h₂⟩)
  · refine wp_attempted_ok (wp_mono (h₁.wp_removeUser r.runtimeId.matches_text fun _ => hheld)
      (fun _ v₂ h₂ => ⟨by simp [hheld], _, h₂⟩) fun _ _ h => h)

/-- **What `disable` does to a stored profile in a quiet world.** -/
theorem wp_disable_quiet (hquiet : env.QuietFrom w.step) (hstrict : env.strict = true)
    (hd : Decrypts env.cipher w.tables) {r : ProfileRecord} (hr : w.tables.get q = .ok r) :
    wp (disable env q)
      (fun _ v => r.runtimeId.text ∈ w.users ∧ ∃ d, v.tables.get q = .ok d ∧ d.state = .disabled)
      (fun e _ => r.runtimeId.text ∉ w.users ∧ e.kind = .profileRevocationFailed) w := by
  have hw : Settled env w.tables w.users.lookup w := ⟨hquiet, rfl, fun _ => rfl⟩
  have htotal : wp (prepareDisabled env q) (fun _ _ => True) (fun _ _ => False) w :=
    wp_prepareDisabled_total hr
  have hkeep := keeps_settled_prepareDisabled (q := q) w ⟨hw, hd⟩
  rw [disable, wp_bind]
  refine wp_mono (wp_and (wp_and htotal wp_prepareDisabled) hkeep) (fun d v₀ h₀ => ?_) fun _ _ h => h.1.1.elim
  obtain ⟨⟨-, hget, hstate, -, ⟨r₀, hr₀, hrid⟩, -⟩, hset, hd₀⟩ := h₀
  obtain rfl := Except.ok.inj (hr.symm.trans hr₀)
  have hid : d.id = q := (Tables.mem_of_get hget).2
  rw [wp_bind]
  refine wp_mono (hset.wp_revokeRuntime hstrict hd₀) (fun b v h => ?_) fun _ _ h => h.elim
  obtain ⟨hb, g, hv⟩ := h
  have hget' : v.tables.get q = .ok d := by rw [hv.tables, hget]
  rw [hrid, AList.lookup_eq_none] at hb
  rw [hid]
  cases b with
  | true =>
    rw [if_pos rfl, wp_bind]
    obtain ⟨r', t', hcode⟩ := setRuntimeError_revokeIncomplete (n := env.clock v.step) hget'
    refine wp_mono wp_setRuntimeError (fun _ x _ => ?_) fun e _ h => ?_
    · rw [wp_bind]
      refine wp_mono wp_reconcileAfterError (fun _ y _ => ?_) fun _ _ h => h
      exact (wp_raise _).mpr ⟨hb.mp rfl, rfl⟩
    · exact absurd (hcode.symm.trans h.1) (by simp)
  | false =>
    rw [if_neg (by simp), wp_bind, wp_repositoryGet]
    refine ⟨fun s hs => (wp_pure _).mpr ⟨?_, d, hget', hstate⟩, fun e he => ?_⟩
    · by_contra hno
      exact absurd (hb.mpr hno) (by simp)
    · exact absurd (hget'.symm.trans he) (by simp)

/-- **What `delete` does to a stored profile in a quiet world.** -/
theorem wp_delete_quiet (hquiet : env.QuietFrom w.step) (hstrict : env.strict = true)
    (hd : Decrypts env.cipher w.tables) {r : ProfileRecord} (hr : w.tables.get q = .ok r) :
    wp (delete env q)
      (fun _ v => r.runtimeId.text ∈ w.users ∧ (∀ p ∈ v.tables.profiles, p.id ≠ q) ∧
        ∀ l ∈ v.tables.lookups, l.profileId ≠ q)
      (fun _ _ => r.runtimeId.text ∉ w.users) w := by
  rw [delete, wp_tryExcept, wp_bind]
  refine wp_mono (wp_disable_quiet hquiet hstrict hd hr) (fun _ v hv => ?_) fun e v hv => ?_
  · obtain ⟨hheld, d, hget, -⟩ := hv
    refine wp_transaction.mpr ⟨fun _ t ht => ⟨hheld, ?_⟩, fun e he => ?_⟩
    · rw [Tables.deleteLocal_ok ht]
      simp [Tables.deleted]
    · have hmem : q ∈ v.tables.profiles.map Profile.id := by
        have hrow := Tables.mem_of_get hget
        exact hrow.2 ▸ List.mem_map_of_mem hrow.1
      simp [Tables.deleteLocal, hmem] at he
  · rw [if_pos (Or.inl hv.2), wp_raise]
    exact hv.1

end Quiet

/-- **Revocation and deletion succeed exactly for the users Xray holds.** From any reachable
world in which nothing goes wrong any more, over an Xray that rejects the removal of a user it
does not hold: `disable` returns with the profile disabled, and `delete` with the profile and its
lookups gone, if and only if Xray holds the user of the profile when the call is made. -/
theorem disable_and_delete_iff (env : Env) (w : World) (p : Profile) (hreach : Reachable env w)
    (hstrict : env.strict = true) (hquiet : env.QuietFrom w.step)
    (hdecrypts : Decrypts env.cipher w.tables) (hp : p ∈ w.tables.profiles) :
    ((∃ res w', disable env p.id w = (.ok res, w') ∧
        ∃ r, w'.tables.get p.id = .ok r ∧ r.state = .disabled) ↔ p.runtimeId.text ∈ w.users) ∧
    ((∃ w', delete env p.id w = (.ok (), w') ∧ (∀ q ∈ w'.tables.profiles, q.id ≠ p.id) ∧
        ∀ l ∈ w'.tables.lookups, l.profileId ≠ p.id) ↔ p.runtimeId.text ∈ w.users) := by
  obtain ⟨d, hget⟩ := hreach.complete.get hp
  have hdis := wp_disable_quiet hquiet hstrict hdecrypts hget
  have hdel := wp_delete_quiet hquiet hstrict hdecrypts hget
  constructor
  · constructor
    · rintro ⟨res, w', h, -⟩
      exact ((wp_iff.mp hdis).1 res w' h).1
    · intro hheld
      obtain ⟨res, w', h, -, hr⟩ := exists_ok_of_wp
        (wp_mono hdis (fun _ _ h => h) fun _ _ h => absurd hheld h.1)
      exact ⟨res, w', h, hr⟩
  · constructor
    · rintro ⟨w', h, -⟩
      exact ((wp_iff.mp hdel).1 () w' h).1
    · intro hheld
      obtain ⟨_, w', h, -, hr⟩ := exists_ok_of_wp
        (wp_mono hdel (fun _ _ h => h) fun _ _ h => absurd hheld h)
      exact ⟨w', h, hr⟩

/-- The sample installation after its profile was disabled. -/
def revokedWorld : World :=
  runActions calmEnv [.call (.create "anna" (sampleDraw 1)), .call (.disable (sampleDraw 1).profileId)]
    freshWorld

theorem reachable_revokedWorld : Reachable calmEnv revokedWorld := ⟨freshWorld, _, rfl, rfl⟩

/-- The one profile of that installation is disabled, and Xray holds nobody. -/
theorem revokedWorld_profiles : (revokedWorld.tables.profiles.map Profile.id =
    [(sampleDraw 1).profileId] ∧ revokedWorld.tables.profiles.map Profile.state = [.disabled]) ∧
      activeRecords revokedWorld.tables = [] := by
  decide +kernel

theorem decrypts_revokedWorld : Decrypts calmEnv.cipher revokedWorld.tables := by
  intro r hr
  rw [revokedWorld_profiles.2] at hr
  exact absurd hr (by simp)

/-- **A disabled profile can neither be disabled again nor deleted**, although everything is
reachable and works: Xray rejects the removal of a user it no longer holds. -/
theorem not_disable_nor_delete_revoked : Reachable calmEnv revokedWorld ∧
    calmEnv.strict = true ∧ calmEnv.QuietFrom revokedWorld.step ∧
    Decrypts calmEnv.cipher revokedWorld.tables ∧
    (sampleDraw 1).profileId ∈ revokedWorld.tables.profiles.map Profile.id ∧
    (¬∃ res w', disable calmEnv (sampleDraw 1).profileId revokedWorld = (.ok res, w') ∧
      ∃ r, w'.tables.get (sampleDraw 1).profileId = .ok r ∧ r.state = .disabled) ∧
    ¬∃ w', delete calmEnv (sampleDraw 1).profileId revokedWorld = (.ok (), w') ∧
      (∀ q ∈ w'.tables.profiles, q.id ≠ (sampleDraw 1).profileId) ∧
      ∀ l ∈ w'.tables.lookups, l.profileId ≠ (sampleDraw 1).profileId := by
  have hfail : (disable calmEnv (sampleDraw 1).profileId revokedWorld).1.toOption = none ∧
      (delete calmEnv (sampleDraw 1).profileId revokedWorld).1.toOption = none := by
    decide +kernel
  refine ⟨reachable_revokedWorld, rfl, calmEnv_quiet _, decrypts_revokedWorld, ?_, ?_, ?_⟩
  · rw [revokedWorld_profiles.1.1]
    simp
  · rintro ⟨res, w', h, -⟩
    simp [h, Except.toOption] at hfail
  · rintro ⟨w', h, -⟩
    simp [h, Except.toOption] at hfail

/-- The characterisation at that installation. -/
theorem disable_and_delete_iff_revoked : ∃ p ∈ revokedWorld.tables.profiles,
    ((∃ res w', disable calmEnv p.id revokedWorld = (.ok res, w') ∧
        ∃ r, w'.tables.get p.id = .ok r ∧ r.state = .disabled) ↔
      p.runtimeId.text ∈ revokedWorld.users) ∧
    ((∃ w', delete calmEnv p.id revokedWorld = (.ok (), w') ∧
        (∀ q ∈ w'.tables.profiles, q.id ≠ p.id) ∧ ∀ l ∈ w'.tables.lookups, l.profileId ≠ p.id) ↔
      p.runtimeId.text ∈ revokedWorld.users) := by
  have hmem : (sampleDraw 1).profileId ∈ revokedWorld.tables.profiles.map Profile.id := by
    rw [revokedWorld_profiles.1.1]
    simp
  obtain ⟨p, hp, -⟩ := List.mem_map.mp hmem
  exact ⟨p, hp, disable_and_delete_iff calmEnv revokedWorld p reachable_revokedWorld rfl
    (calmEnv_quiet _) decrypts_revokedWorld hp⟩

end EzOpenPN
