import EzOpenPN.Profiles.Convergence

/-!
# The record of a profile

Three mutators write the row of a profile. `set_state` keeps the two fields that belong to one
state each in step with it; `set_runtime_error` writes a code without looking at the state, and is
right only on a profile that is disabled; `delete_local` takes the lookups along. The coordinator
composes them over several transactions, with calls to the runtimes in between and handlers behind
them, and the control process can end between any two transactions.

`EzOpenPN.Lawful` is what holds of the stored rows all along: now, at every moment passed, and from
each moment to the next. A part of an operation that only talks to the runtimes keeps it for the
simple reason that it leaves the tables alone (`EzOpenPN.Still`), so what there is to prove is
about transactions, and about the two places where `set_runtime_error` is called.
-/

namespace EzOpenPN

open Prog

/-! ### Lawful tables -/

/-- **From one table content to the next** every profile keeps its state or makes a legal
transition. -/
def Follows (t t' : Tables) : Prop :=
  ∀ p ∈ t.profiles, ∀ p' ∈ t'.profiles, p.id = p'.id →
    p'.state = p.state ∨ p'.state ∈ Tables.legalTransitions p.state

/-- **The rows of the profiles are in order.** -/
structure RecordsOk (t : Tables) : Prop where
  disabledAt : ∀ p ∈ t.profiles, p.disabledAt.isSome = true ↔ p.state = .disabled
  lastErrorCode : ∀ p ∈ t.profiles, p.lastErrorCode.isSome = true →
    p.state = .error ∨ p.state = .disabled
  complete : t.Complete

/-- **A lawful world**: the rows are in order now and at every moment passed, the present tables
are those of the last moment, and from each moment to the next the profiles have followed the
transitions. -/
structure Lawful (w : World) : Prop where
  now : RecordsOk w.tables
  passed : ∀ m ∈ w.history, RecordsOk m.tables
  latest : ∀ m ∈ w.history.head?, m.tables = w.tables
  follows : w.history.IsChain fun newer older => Follows older.tables newer.tables

theorem Follows.refl (t : Tables) : Follows t t := by
  intro p hp p' hp' h
  rw [Tables.eq_of_id_eq hp hp' h]
  exact Or.inl rfl

/-! ### What the writes do to the rows -/

section Writes

variable {t t' : Tables} {id : Uuid} {timestamp : Time} {r : ProfileRecord}

/-- A legal `set_state` is followed by rows in order. -/
theorem RecordsOk.setState {state : ProfileState} {code : Option String} (h : RecordsOk t)
    (hs : t.setState timestamp id state code = .ok (r, t')) : RecordsOk t' ∧ Follows t t' := by
  obtain ⟨r₀, hget, hlegal, -, rfl⟩ := Tables.setState_ok hs
  obtain ⟨hmem, hrid⟩ := Tables.mem_of_get hget
  refine ⟨⟨?_, ?_, h.complete.modifyProfile⟩, ?_⟩
  · intro p hp
    obtain ⟨p₀, hp₀, rfl⟩ := Tables.mem_profiles_modifyProfile.mp hp
    split
    · by_cases hd : state = .disabled <;> simp [Tables.stateRow, hd]
    · exact h.disabledAt p₀ hp₀
  · intro p hp
    obtain ⟨p₀, hp₀, rfl⟩ := Tables.mem_profiles_modifyProfile.mp hp
    split
    · by_cases he : state = .error <;> simp [Tables.stateRow, he]
    · exact h.lastErrorCode p₀ hp₀
  · intro p hp p' hp' hpid
    obtain ⟨p₀, hp₀, rfl⟩ := Tables.mem_profiles_modifyProfile.mp hp'
    split at hpid
    · rename_i hp₀id
      -- the row that changed is the one that was read
      have hp₀r : p₀ = r₀.toProfile := Tables.eq_of_id_eq hp₀ hmem (hp₀id.trans hrid.symm)
      have hpr : p = r₀.toProfile := Tables.eq_of_id_eq hp hmem (by rw [hpid, ← hp₀r]; rfl)
      rw [if_pos hp₀id, hpr]
      rcases hlegal with heq | hmem'
      · exact Or.inl heq.symm
      · exact Or.inr hmem'
    · rename_i hp₀id
      rw [if_neg hp₀id, Tables.eq_of_id_eq hp hp₀ hpid]
      exact Or.inl rfl

/-- `set_runtime_error` on a disabled profile is followed by rows in order. -/
theorem RecordsOk.setRuntimeError {code : String} {r₀ : ProfileRecord} (h : RecordsOk t)
    (hget : t.get id = .ok r₀) (hdisabled : r₀.state = .disabled)
    (hs : t.setRuntimeError timestamp id code = .ok (r, t')) : RecordsOk t' ∧ Follows t t' := by
  obtain ⟨r₁, hget₁, -, rfl⟩ := Tables.setRuntimeError_ok hs
  obtain ⟨hmem, hrid⟩ := Tables.mem_of_get hget
  have hchanged : ∀ p₀ ∈ t.profiles, p₀.id = id → p₀.state = .disabled := by
    intro p₀ hp₀ hp₀id
    rw [Tables.eq_of_id_eq hp₀ hmem (hp₀id.trans hrid.symm)]
    exact hdisabled
  refine ⟨⟨?_, ?_, h.complete.modifyProfile⟩, ?_⟩
  · intro p hp
    obtain ⟨p₀, hp₀, rfl⟩ := Tables.mem_profiles_modifyProfile.mp hp
    split
    · exact h.disabledAt p₀ hp₀
    · exact h.disabledAt p₀ hp₀
  · intro p hp
    obtain ⟨p₀, hp₀, rfl⟩ := Tables.mem_profiles_modifyProfile.mp hp
    split
    · rename_i hp₀id
      exact fun _ => Or.inr (hchanged p₀ hp₀ hp₀id)
    · exact h.lastErrorCode p₀ hp₀
  · intro p hp p' hp' hpid
    obtain ⟨p₀, hp₀, rfl⟩ := Tables.mem_profiles_modifyProfile.mp hp'
    have hid : p.id = p₀.id := by
      rw [hpid]
      split <;> rfl
    rw [Tables.eq_of_id_eq hp hp₀ hid]
    split <;> exact Or.inl rfl

/-- An insertion is followed by rows in order. -/
theorem RecordsOk.insertPending {m : NewProfileMaterial} (h : RecordsOk t)
    (hs : t.insertPending timestamp m = .ok (r, t')) : RecordsOk t' ∧ Follows t t' := by
  obtain ⟨hm, -, rfl⟩ := Tables.insertPending_ok hs
  refine ⟨⟨?_, ?_, h.complete.inserted hm⟩, ?_⟩
  · intro p hp
    rcases List.mem_append.mp hp with hp | hp
    · exact h.disabledAt p hp
    · rw [List.mem_singleton.mp hp]
      simp [Tables.pendingRow]
  · intro p hp
    rcases List.mem_append.mp hp with hp | hp
    · exact h.lastErrorCode p hp
    · rw [List.mem_singleton.mp hp]
      simp [Tables.pendingRow]
  · intro p hp p' hp' hpid
    rcases List.mem_append.mp hp' with hp' | hp'
    · rw [Tables.eq_of_id_eq hp hp' hpid]
      exact Or.inl rfl
    · rw [List.mem_singleton.mp hp'] at hpid
      have hid : p.id = m.profileId := hpid
      exact absurd (hid ▸ List.mem_map_of_mem hp) hm.id_new

/-- A deletion is followed by rows in order. -/
theorem RecordsOk.deleteLocal (h : RecordsOk t) (hs : t.deleteLocal id = .ok ((), t')) :
    RecordsOk t' ∧ Follows t t' := by
  rw [Tables.deleteLocal_ok hs]
  have hsub : ∀ p ∈ (t.deleted id).profiles, p ∈ t.profiles := fun p hp =>
    (List.mem_filter.mp hp).1
  refine ⟨⟨fun p hp => h.disabledAt p (hsub p hp), fun p hp => h.lastErrorCode p (hsub p hp),
    h.complete.deleted id⟩, ?_⟩
  intro p hp p' hp' hpid
  rw [Tables.eq_of_id_eq hp (hsub p' hp') hpid]
  exact Or.inl rfl

end Writes

/-! ### Programs that leave the tables alone -/

/-- **The program leaves the tables alone**, at every moment of its run. -/
def Still {α : Type} (m : Py α) : Prop :=
  ∀ (t : Tables) (h₀ : List Moment), Keeps (Since h₀ fun t' _ => t' = t) m

theorem userUpheld_tables (t : Tables) : UserUpheld fun t' _ => t' = t :=
  ⟨id, fun _ => id, fun _ h _ => h⟩

section Worlds

variable {env : Env} {w v : World} {t : Tables} {e : Event}

/-- Lawfulness is about the tables and the history only. -/
theorem Lawful.congr (h : Lawful w) (ht : v.tables = w.tables) (hh : v.history = w.history) :
    Lawful v :=
  ⟨ht ▸ h.now, hh ▸ h.passed, by rw [ht, hh]; exact h.latest, hh ▸ h.follows⟩

/-- **Recording a moment** whose tables are in order and follow the present ones. -/
theorem Lawful.record (h : Lawful w) (hv : v.history = w.history) (hok : RecordsOk v.tables)
    (hf : Follows w.tables v.tables) : Lawful (v.record e) := by
  refine ⟨hok, ?_, ?_, ?_⟩
  · rw [World.record_history, hv]
    intro m hm
    rcases List.mem_cons.mp hm with rfl | hm
    · exact hok
    · exact h.passed m hm
  · rw [World.record_history]
    intro m hm
    obtain rfl : (⟨e, v.tables, v.users⟩ : Moment) = m := by simpa using hm
    rfl
  · rw [World.record_history, hv]
    rcases hh : w.history with _ | ⟨m, rest⟩
    · exact List.IsChain.singleton _
    · have hm : m.tables = w.tables := h.latest m (by simp [hh])
      rw [List.isChain_cons_cons]
      exact ⟨by rw [hm]; exact hf, hh ▸ h.follows⟩

/-- A stretch of moments with the present tables. -/
theorem Lawful.since (h : Lawful w) (hv : Since w.history (fun t' _ => t' = w.tables) v) :
    Lawful v ∧ v.tables = w.tables := by
  obtain ⟨⟨new, hnew, hm⟩, hnow⟩ := hv
  refine ⟨?_, hnow⟩
  have hall : ∀ new : List Moment, (∀ m ∈ new, m.tables = w.tables) →
      Lawful { w with history := new ++ w.history } := by
    intro new
    induction new with
    | nil => exact fun _ => h.congr rfl rfl
    | cons m new ih =>
      intro hm
      have hrest := ih fun m' hm' => hm m' (by simp [hm'])
      have htables : m.tables = w.tables := hm m (by simp)
      have hrec : Lawful (World.record m.event
          ⟨m.tables, m.users, w.health, w.step, new ++ w.history⟩) :=
        hrest.record rfl (htables ▸ h.now) (by rw [htables]; exact Follows.refl _)
      exact hrec.congr htables.symm rfl
  exact (hall new hm).congr hnow hnew

/-- **A program that leaves the tables alone keeps a world lawful.** -/
theorem Still.lawful {α : Type} {m : Py α} (hm : Still m) (h : Lawful w) :
    wp m (fun _ v => Lawful v ∧ v.tables = w.tables) (fun _ v => Lawful v ∧ v.tables = w.tables)
      w := by
  have hw : Since w.history (fun t' _ => t' = w.tables) w := Since.start rfl
  exact wp_mono (hm w.tables w.history w hw) (fun _ _ hv => h.since hv) fun _ _ hv => h.since hv

theorem Still.keeps {α : Type} {m : Py α} (hm : Still m) : Keeps Lawful m := fun _ h =>
  wp_mono (hm.lawful h) (fun _ _ hv => hv.1) fun _ _ hv => hv.1

theorem Lawful.arrive (h : Lawful w) : Lawful (w.arrive env) := by
  rw [World.arrive]
  split
  · have hcrash : Lawful w.crash :=
      h.record (v := { w with users := ∅ }) rfl h.now (Follows.refl _)
    exact hcrash.congr rfl rfl
  · exact h.congr rfl rfl

/-- **A transaction keeps a world lawful** if what it commits is in order and follows. -/
theorem Lawful.transaction {α : Type} {label : Transaction}
    {body : Time → Tables → Except PyError (α × Tables)} (h : Lawful w)
    (hbody : ∀ time a t', body time w.tables = .ok (a, t') → RecordsOk t' ∧ Follows w.tables t') :
    wp (EzOpenPN.transaction env label body) (fun _ => Lawful) (fun _ => Lawful) w := by
  have harr : Lawful (w.arrive env) := h.arrive
  rw [wp_transaction]
  refine ⟨fun a t' hb => ?_, fun _ _ => harr⟩
  obtain ⟨hok, hf⟩ := hbody _ a t' hb
  exact harr.record rfl hok (by rw [World.arrive_tables]; exact hf)

end Worlds

/-! ### The operations keep a world lawful -/

section Operations

variable {env : Env} {w : World} {q : Uuid}

theorem still_of_tables {α : Type} {m : Py α}
    (h : ∀ t t' h₀, Keeps (fun w => Since h₀ (fun t'' _ => t'' = t) w ∧ w.tables = t') m) :
    Still m := fun t h₀ => keeps_of_tables fun t' => h t t' h₀

theorem still_removeUser (k : String) : Still (removeUser env k) :=
  still_of_tables fun t _ _ => (userUpheld_tables t).keeps_removeUser k

theorem still_addRecord (r : ProfileRecord) : Still (addRecord env r) :=
  still_of_tables fun t _ _ => (userUpheld_tables t).keeps_addRecord fun _ _ h => h

theorem still_revokeRuntime (r : ProfileRecord) : Still (revokeRuntime env r) :=
  fun t _ => (userUpheld_tables t).keeps_revokeRuntime

theorem still_reconcile : Still (reconcile env) := fun t _ => (userUpheld_tables t).keeps_reconcile

theorem still_reconcileAfterError : Still (reconcileAfterError env) :=
  fun t _ => (userUpheld_tables t).keeps_reconcileAfterError

theorem lawful_setState {state : ProfileState} {code : Option String} :
    Keeps Lawful (repositorySetState env q state code) :=
  fun _ h => h.transaction fun _ _ _ hb => h.now.setState hb

/-- `set_runtime_error`, on a profile that is disabled. -/
theorem lawful_setRuntimeError {code : String} {r : ProfileRecord} (h : Lawful w)
    (hget : w.tables.get q = .ok r) (hdisabled : r.state = .disabled) :
    wp (repositorySetRuntimeError env q code) (fun _ => Lawful) (fun _ => Lawful) w :=
  h.transaction fun _ _ _ hb => h.now.setRuntimeError hget hdisabled hb

theorem lawful_repositoryGet : Keeps Lawful (repositoryGet q) :=
  Keeps.bind Keeps.read fun _ => Keeps.ofExcept _

theorem lawful_markError {code : String} : Keeps Lawful (markError env q code) := by
  intro w h
  rw [markError, wp_suppress, wp_bind, wp_repositoryGet]
  refine ⟨fun r hr => ?_, fun _ _ => h⟩
  rw [wp_ite]
  exact ⟨fun hd => lawful_setRuntimeError h hr hd, fun _ => lawful_setState w h⟩

/-- What `_prepare_disabled` returns is stored, and disabled. -/
theorem lawful_prepareDisabled (h : Lawful w) :
    wp (prepareDisabled env q)
      (fun r v => Lawful v ∧ v.tables.get r.id = .ok r ∧ r.state = .disabled)
      (fun _ => Lawful) w := by
  have hset : ∀ (id : Uuid) (v : World), Lawful v →
      wp (repositorySetState env id .disabled none)
        (fun r v => Lawful v ∧ v.tables.get r.id = .ok r ∧ r.state = .disabled)
        (fun _ => Lawful) v := by
    intro id v hv
    have hpost : wp (repositorySetState env id .disabled none)
        (fun r v => v.tables.get r.id = .ok r ∧ r.state = .disabled) (fun _ _ => True) v := by
      refine wp_transaction.mpr ⟨fun r t hb => ?_, fun _ _ => trivial⟩
      have hget := Tables.get_of_setState hb
      obtain ⟨r₀, hr₀, -, rfl, -⟩ := Tables.setState_ok hb
      have hid : r₀.id = id := (Tables.mem_of_get hr₀).2
      refine ⟨?_, rfl⟩
      change t.get r₀.id = _
      rw [hid]
      exact hget
    exact wp_mono (wp_and (lawful_setState v hv) hpost) (fun _ _ hv => hv) fun _ _ hv => hv.1
  rw [prepareDisabled, wp_bind, wp_repositoryGet]
  refine ⟨fun r _ => ?_, fun _ _ => h⟩
  split
  · rw [wp_bind]
    exact wp_mono (lawful_setState w h) (fun r v hv => hset r.id v hv) fun _ _ hv => hv
  · rw [wp_bind]
    exact (wp_pure _).mpr (hset r.id w h)

theorem lawful_disable : Keeps Lawful (disable env q) := by
  intro w h
  rw [disable, wp_bind]
  refine wp_mono (lawful_prepareDisabled h) (fun r v hv => ?_) fun _ _ hv => hv
  obtain ⟨hv, hget, hdisabled⟩ := hv
  rw [wp_bind]
  refine wp_mono ((still_revokeRuntime r).lawful hv) (fun incomplete v' hv' => ?_)
    fun _ _ hv' => hv'.1
  obtain ⟨hv', htables⟩ := hv'
  split
  · rw [wp_bind]
    refine wp_mono (lawful_setRuntimeError hv' (htables ▸ hget) hdisabled) (fun _ v'' hv'' => ?_)
      fun _ _ hv'' => hv''
    exact Keeps.bind still_reconcileAfterError.keeps (fun _ => Keeps.raise _) v'' hv''
  · exact Keeps.bind lawful_repositoryGet (fun _ => Keeps.ret _) v' hv'

theorem lawful_delete : Keeps Lawful (delete env q) := by
  refine Keeps.tryExcept ?_ fun e => Keeps.ite (Keeps.raise e) ?_
  · exact Keeps.bind lawful_disable fun _ => fun _ h =>
      h.transaction fun _ _ _ hb => h.now.deleteLocal hb
  · exact Keeps.bind lawful_markError fun _ =>
      Keeps.bind still_reconcileAfterError.keeps fun _ => Keeps.raise _

theorem lawful_activate {r : ProfileRecord} : Keeps Lawful (activate env r) :=
  Keeps.bind (still_addRecord r).keeps fun _ => Keeps.bind lawful_setState fun _ =>
    Keeps.bind (Keeps.ofExcept _) fun _ => Keeps.ret _

theorem lawful_compensate {α : Type} {r : ProfileRecord} {e : PyError} :
    Keeps Lawful (compensate env r e : Py α) :=
  Keeps.bind (Keeps.suppress (still_removeUser _).keeps) fun _ =>
    Keeps.bind lawful_markError fun _ =>
      Keeps.bind still_reconcileAfterError.keeps fun _ => Keeps.raise e

theorem lawful_enable : Keeps Lawful (enable env q) := by
  have hmain : ∀ r : ProfileRecord, Keeps Lawful
      (if r.state ≠ .pending ∧ r.state ≠ .disabled then
          raise ⟨.invalidProfileTransition, "profile cannot be enabled"⟩
        else (tryExcept (activate env r) fun _ =>
            compensate env r ⟨.profileEnableFailed, "profile enable failed"⟩) >>= fun result =>
          pure (profileResult result.1 none (some result.2)) : Py ProfileResult) := fun r =>
    Keeps.ite (Keeps.raise _) (Keeps.bind
      (Keeps.tryExcept lawful_activate fun _ => lawful_compensate) fun _ => Keeps.ret _)
  refine Keeps.bind lawful_repositoryGet fun r => Keeps.ite ?_ ?_
  · exact Keeps.bind lawful_setState hmain
  · exact Keeps.bind (Keeps.ret r) hmain

theorem lawful_create {name : String} {draw : Draw} : Keeps Lawful (create env name draw) := by
  refine Keeps.bind ?_ fun _ => Keeps.bind lawful_repositoryGet fun r =>
    Keeps.bind (Keeps.tryExcept lawful_activate fun _ => lawful_compensate) fun _ => Keeps.ret _
  refine Keeps.bind (Keeps.ofExcept _) fun _ => Keeps.bind (Keeps.ofExcept _) fun _ =>
    Keeps.bind ?_ fun _ => Keeps.ret _
  exact fun _ h => h.transaction fun _ _ _ hb => h.now.insertPending hb

/-- **Every action keeps a world lawful.** -/
theorem Lawful.perform (h : Lawful w) (a : Action) : Lawful (a.perform env w) := by
  cases a with
  | xrayCrash => exact h.record (v := { w with users := ∅ }) rfl h.now (Follows.refl _)
  | call c =>
    have hkeeps : Keeps Lawful (executeCall env c) := by
      cases c <;> rw [executeCall] <;> refine Keeps.suppress ?_
      case create name draw => exact lawful_create
      case disable q => exact lawful_disable
      case enable q => exact lawful_enable
      case delete q => exact lawful_delete
      case reconcile => exact still_reconcile.keeps
    exact hkeeps.snd h

end Operations

/-! ### Runs with crashes of the control process -/

/-- **A world that the control process can come to.** It starts with empty tables, and it can end
at every moment of an action and come up again with the tables of that moment. -/
inductive ControlReachable (env : Env) : World → Prop
  | start {w : World} (ht : w.tables = .empty) (hh : w.history = []) : ControlReachable env w
  | act {w : World} (a : Action) (h : ControlReachable env w) :
      ControlReachable env (a.perform env w)
  | restart {w : World} (health : RuntimeHealthSnapshot) (step : ℕ) (h : ControlReachable env w) :
      ControlReachable env { w with health := health, step := step }
  | crash {w : World} {a : Action} {later rest : List Moment} {m : Moment}
      (health : RuntimeHealthSnapshot) (step : ℕ) (h : ControlReachable env w)
      (hm : (a.perform env w).history = later ++ m :: rest)
      (hrest : w.history.length ≤ rest.length) :
      ControlReachable env ⟨m.tables, m.users, health, step, m :: rest⟩

/-- **Whatever happens, the world stays lawful.** -/
theorem ControlReachable.lawful {env : Env} {w : World} (h : ControlReachable env w) :
    Lawful w := by
  induction h with
  | start ht hh =>
    refine ⟨?_, by simp [hh], by simp [hh], by rw [hh]; exact List.IsChain.nil⟩
    rw [ht]
    exact ⟨by simp [Tables.empty], by simp [Tables.empty], Tables.complete_empty⟩
  | act a _ ih => exact ih.perform a
  | restart health step _ ih => exact ih.congr rfl rfl
  | @crash w a later rest m health step _ hm hrest ih =>
    have hend : Lawful (a.perform env w) := ih.perform a
    have hpassed : ∀ m' ∈ m :: rest, RecordsOk m'.tables := fun m' hm' =>
      hend.passed m' (by rw [hm]; exact List.mem_append_right _ hm')
    refine ⟨hpassed m (by simp), hpassed, by simp, ?_⟩
    have hchain := hend.follows
    rw [hm] at hchain
    exact hchain.right_of_append

/-! ### The two handlers -/

/-- The body of `_mark_error`, before its exceptions are dropped. -/
def markErrorBody (env : Env) (profileId : Uuid) (errorCode : String) : Py ProfileRecord := do
  let current ← repositoryGet profileId
  if current.state = .disabled then
    repositorySetRuntimeError env profileId errorCode
  else
    repositorySetState env profileId .error (some errorCode)

theorem markError_eq (env : Env) (profileId : Uuid) (errorCode : String) :
    markError env profileId errorCode = suppress (markErrorBody env profileId errorCode) := rfl

section Handlers

variable {env : Env} {w : World} {q : Uuid}

/-- A `set_state` to a state that can be reached from the stored one is not refused. -/
theorem wp_setState_legal {state : ProfileState} {code : Option String} {r : ProfileRecord}
    (hget : w.tables.get q = .ok r) (hlegal : r.state = state ∨
      state ∈ Tables.legalTransitions r.state) {R : PyError → World → Prop} :
    wp (repositorySetState env q state code)
      (fun r' v => v.tables.get q = .ok r' ∧ r'.state = state ∧ r'.id = q) R w := by
  refine wp_transaction.mpr ⟨fun r' t hb => ?_, fun e hb => ?_⟩
  · have hget' := Tables.get_of_setState hb
    have hid := (Tables.mem_of_get hget').2
    obtain ⟨_, -, -, rfl, -⟩ := Tables.setState_ok hb
    exact ⟨hget', rfl, hid⟩
  · rw [Tables.setState_of_legal hget hlegal] at hb
    exact absurd hb (by simp)

/-- **`_mark_error` is never refused a transition.** -/
theorem markError_never_refused (code : String) :
    wp (markErrorBody env q code) (fun _ _ => True)
      (fun e _ => e.kind ≠ .invalidProfileTransition) w := by
  rw [markErrorBody, wp_bind, wp_repositoryGet]
  refine ⟨fun r hr => ?_, fun e he => by rw [Tables.get_error he]; simp [Tables.notFound]⟩
  rw [wp_ite]
  refine ⟨fun _ => ?_, fun hne => ?_⟩
  · refine wp_transaction.mpr ⟨fun _ _ _ => trivial, fun e he => ?_⟩
    -- what `set_runtime_error` raises is a bad code or a missing profile
    simp only [Tables.setRuntimeError, bind, Except.bind, throw, throwThe, MonadExceptOf.throw,
      pure, Except.pure, hr] at he
    split at he
    · obtain rfl := Except.error.inj he
      simp
    · exact absurd he (by simp)
  · refine wp_mono (wp_setState_legal (R := fun e _ => e.kind ≠ .invalidProfileTransition) hr ?_)
      (fun _ _ _ => trivial) fun _ _ h => h
    cases hs : r.state with
    | pending => exact Or.inr (by decide)
    | active => exact Or.inr (by decide)
    | disabled => exact absurd hs hne
    | error => exact Or.inl rfl

/-- **`_prepare_disabled` is never refused a transition.** -/
theorem prepareDisabled_never_refused :
    wp (prepareDisabled env q) (fun _ _ => True)
      (fun e _ => e.kind ≠ .invalidProfileTransition) w := by
  have hdisable : ∀ (r : ProfileRecord) (v : World), v.tables.get r.id = .ok r →
      r.state ≠ .pending → wp (repositorySetState env r.id .disabled none) (fun _ _ => True)
        (fun e _ => e.kind ≠ .invalidProfileTransition) v := by
    intro r v hr hne
    refine wp_mono (wp_setState_legal (R := fun e _ => e.kind ≠ .invalidProfileTransition) hr ?_)
      (fun _ _ _ => trivial) fun _ _ h => h
    cases hs : r.state with
    | pending => exact absurd hs hne
    | active => exact Or.inr (by decide)
    | disabled => exact Or.inl rfl
    | error => exact Or.inr (by decide)
  rw [prepareDisabled, wp_bind, wp_repositoryGet]
  refine ⟨fun r hr => ?_, fun e he => by rw [Tables.get_error he]; simp [Tables.notFound]⟩
  have hid : r.id = q := (Tables.mem_of_get hr).2
  split
  · rename_i hs
    rw [wp_bind]
    refine wp_mono (wp_setState_legal (R := fun e _ => e.kind ≠ .invalidProfileTransition) hr
      (Or.inr (by rw [hs]; decide))) (fun r' v hv => ?_) fun _ _ h => h
    obtain ⟨hget, hstate, hrid⟩ := hv
    exact hdisable r' v (by rw [hrid]; exact hget) (by rw [hstate]; decide)
  · rename_i hs
    rw [wp_bind]
    exact (wp_pure _).mpr (hdisable r w (by rw [hid]; exact hr) hs)

end Handlers

/-- In complete tables a profile has exactly one lookup of each kind. -/
theorem Tables.Complete.unique_lookup {t : Tables} (h : t.Complete) {p : Profile}
    (hp : p ∈ t.profiles) (k : LookupKind) :
    ∃! l, l ∈ t.lookups ∧ l.profileId = p.id ∧ l.kind = k := by
  obtain ⟨l, hl⟩ := h p hp k
  refine ⟨l, Tables.lookup_eq_some hl, ?_⟩
  rintro l' ⟨hmem', hid', hk'⟩
  obtain ⟨hmem, hid, hk⟩ := Tables.lookup_eq_some hl
  refine List.inj_on_of_nodup_map t.kinds_nodup hmem' hmem ?_
  simp only [hid', hk', hid, hk]

/-- **The record of a profile.** In every world the control process can come to, at present and at
every moment passed, each profile has a time of disabling exactly when it is disabled, an error
code only when it failed or is disabled, and exactly one lookup of each kind, and no lookup is
without its profile; from each moment to the next the states followed the legal transitions; and
the handlers that mark an error and prepare a revocation are never refused a transition. -/
theorem profile_records_lawful {env : Env} {w : World} (h : ControlReachable env w) :
    (∀ t : Tables, t = w.tables ∨ (∃ m ∈ w.history, t = m.tables) →
      (∀ p ∈ t.profiles, (p.disabledAt.isSome = true ↔ p.state = .disabled) ∧
        (p.lastErrorCode.isSome = true → p.state = .error ∨ p.state = .disabled) ∧
        ∀ k, ∃! l, l ∈ t.lookups ∧ l.profileId = p.id ∧ l.kind = k) ∧
      ∀ l ∈ t.lookups, ∃ p ∈ t.profiles, p.id = l.profileId) ∧
    (∀ m ∈ w.history.head?, m.tables = w.tables) ∧
    (w.history.IsChain fun newer older => ∀ p ∈ older.tables.profiles,
      ∀ p' ∈ newer.tables.profiles, p.id = p'.id →
        p'.state = p.state ∨ p'.state ∈ Tables.legalTransitions p.state) ∧
    ∀ (v : World) (q : Uuid),
      (∀ code, wp (markErrorBody env q code) (fun _ _ => True)
        (fun e _ => e.kind ≠ .invalidProfileTransition) v) ∧
      wp (prepareDisabled env q) (fun _ _ => True)
        (fun e _ => e.kind ≠ .invalidProfileTransition) v := by
  have hlawful := h.lawful
  refine ⟨?_, hlawful.latest, hlawful.follows,
    fun v q => ⟨fun code => markError_never_refused code, prepareDisabled_never_refused⟩⟩
  intro t ht
  have hok : RecordsOk t := by
    rcases ht with rfl | ⟨m, hm, rfl⟩
    · exact hlawful.now
    · exact hlawful.passed m hm
  refine ⟨fun p hp => ⟨hok.disabledAt p hp, hok.lastErrorCode p hp, hok.complete.unique_lookup hp⟩,
    fun l hl => ?_⟩
  obtain ⟨p, hp, hpl⟩ := List.mem_map.mp (t.lookups_profile l hl)
  exact ⟨p, hp, hpl⟩

/-- What a run comes to, the control process can come to. -/
theorem ControlReachable.runActions {env : Env} {w : World} (h : ControlReachable env w)
    (actions : List Action) : ControlReachable env (EzOpenPN.runActions env actions w) := by
  induction actions generalizing w with
  | nil => exact h
  | cons a actions ih => exact ih (h.act a)

/-- An installation where the first addition of a user fails. -/
def refusedEnv : Env :=
  sampleEnv fun n => if n = 1 then ⟨false, .failed .unavailable⟩ else Fault.none

/-- Two profiles: the provisioning of the first one failed, and the second one was disabled. -/
def refusedWorld : World :=
  runActions refusedEnv [.call (.create "anna" (sampleDraw 1)),
    .call (.create "boris" (sampleDraw 2)), .call (.disable (sampleDraw 2).profileId)] freshWorld

/-- **The records of a failed and of a disabled profile are in order.** -/
theorem profile_records_lawful_sample :
    refusedWorld.tables.profiles.map Profile.state = [.error, .disabled] ∧
      refusedWorld.tables.profiles.map (fun p => p.lastErrorCode.isSome) = [true, false] ∧
      ∀ p ∈ refusedWorld.tables.profiles,
        (p.disabledAt.isSome = true ↔ p.state = .disabled) ∧
        (p.lastErrorCode.isSome = true → p.state = .error ∨ p.state = .disabled) ∧
        ∀ k, ∃! l, l ∈ refusedWorld.tables.lookups ∧ l.profileId = p.id ∧ l.kind = k := by
  have hreach : ControlReachable refusedEnv refusedWorld :=
    ControlReachable.runActions (.start rfl rfl) _
  obtain ⟨hstates, hcodes⟩ : refusedWorld.tables.profiles.map Profile.state = [.error, .disabled] ∧
      refusedWorld.tables.profiles.map (fun p => p.lastErrorCode.isSome) = [true, false] := by
    decide +kernel
  exact ⟨hstates, hcodes, ((profile_records_lawful hreach).1 _ (Or.inl rfl)).1⟩

end EzOpenPN
