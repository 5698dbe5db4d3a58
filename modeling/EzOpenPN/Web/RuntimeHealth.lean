import EzOpenPN.Profiles.Records

/-!
# What the health record says

The outcome of a reconciliation is published twice. `ProfileCoordinator.reconcile` writes it to
the health record while it still holds the lock, whoever called it; and the periodic task
`_reconcile_runtime`, which called it on a worker thread, writes what the thread returned once
more when the event loop comes back to it. The lock is free by then, so that a mutation may have
failed and reconciled in between; its outcome is then overwritten by an older one.

The event loop and the worker threads interleave as `EzOpenPN.PanelAction` says. The mutations of
the coordinator enter as what they are for the health record: work that does not touch it, and
reconciliations (`EzOpenPN.executeCall_path`).

The record says the outcome of the last reconciliation in every state of every run in which no
mutation reconciles while the periodic task has an outcome in hand
(`EzOpenPN.health_tells_latest`); without that, it can say that everything is in order right after
a reconciliation failed (`EzOpenPN.health_overwritten`).
-/

namespace EzOpenPN

open Prog

/-! ### The panel process -/

/-- What `RuntimeHealth.update` writes for an outcome. -/
def healthOf (result : ReconcileResult) : RuntimeHealthSnapshot :=
  ⟨result.errorCode.isNone, result.errorCode⟩

/-- **The panel process**: the world of the coordinator, the outcome the periodic task has in
hand, and the outcome of the reconciliation that completed last. -/
structure Panel where
  world : World
  pending : Option ReconcileResult
  last : Option ReconcileResult

/-- What can happen next. -/
inductive PanelAction where
  /-- A mutation does anything but reconcile, or Xray crashes: the world changes, and the health
  record does not. -/
  | work (world : World)
  /-- A mutation reconciles after an error. -/
  | reconcile
  /-- The worker thread of `_reconcile_runtime` reconciles. -/
  | periodicReconcile
  /-- The event loop publishes what the thread returned. -/
  | publish
  /-- The periodic task is cancelled. -/
  | cancel

namespace Panel

variable (env : Env)

/-- **One step.** A reconciliation is one step, being atomic under the lock of the coordinator;
the exception that `_reconcile_runtime` handles becomes a failed outcome. -/
def step (p : Panel) : PanelAction → Option Panel
  | .work world => if world.health = p.world.health then some { p with world := world } else none
  | .reconcile =>
    match EzOpenPN.reconcile env p.world with
    | (.ok result, world) => some { p with world := world, last := some result }
    | (.error _, world) => some { p with world := world }
  | .periodicReconcile =>
    if p.pending.isSome then none
    else
      match EzOpenPN.reconcile env p.world with
      | (.ok result, world) => some ⟨world, some result, some result⟩
      | (.error _, world) =>
        some { p with world := world, pending := some { errorCode := some reconcileFailed } }
  | .publish =>
    p.pending.map fun result =>
      { p with world := { p.world with health := healthOf result }, pending := none }
  | .cancel => some { p with pending := none }

/-- A sequence of steps. -/
def path : List PanelAction → Panel → Option Panel
  | [], p => some p
  | a :: rest, p => (p.step env a).bind (path rest)

variable {env}

theorem path_append {as bs : List PanelAction} {p : Panel} :
    path env (as ++ bs) p = (path env as p).bind (path env bs) := by
  induction as generalizing p with
  | nil => rfl
  | cons a as ih =>
    rw [List.cons_append, path, path, Option.bind_assoc]
    exact congrArg _ (funext fun _ => ih)

end Panel

/-! ### What the coordinator does to the record -/

section Coordinator

variable {env : Env}

/-- **A reconciliation always returns**, and what it returns is what it published. -/
theorem reconcile_publishes (henv : env.runtimeHealth = true) (w : World) :
    ∃ result w', reconcile env w = (.ok result, w') ∧ w'.health = healthOf result := by
  suffices h : wp (reconcile env) (fun result (w' : World) => w'.health = healthOf result)
      (fun _ _ => False) w from exists_ok_of_wp h
  have hpublish : ∀ (result : ReconcileResult) (v : World),
      wp (updateHealth result >>= fun _ => pure result)
        (fun result (w' : World) => w'.health = healthOf result) (fun _ _ => False) v := by
    intro result v
    rw [wp_bind, updateHealth, wp_modify]
    exact (wp_pure _).mpr rfl
  simp only [reconcile, henv, if_true]
  split
  · -- the reconciler turns every exception into an outcome
    rw [wp_bind, reconcilerRun, wp_tryExcept]
    refine wp_of_forall (fun result v => hpublish result v) fun _ v => ?_
    exact (wp_pure _).mpr (hpublish _ v)
  · rw [wp_bind, wp_pure]
    exact hpublish _ w

/-- A program that leaves the health record alone. -/
def Quiet {α : Type} (m : Py α) : Prop := ∀ h, Keeps (fun v : World => v.health = h) m

theorem health_arrive (w : World) : (w.arrive env).health = w.health := by
  rw [World.arrive]
  split <;> rfl

theorem quiet_transaction {α : Type} {label : Transaction}
    {body : Time → Tables → Except PyError (α × Tables)} : Quiet (transaction env label body) := by
  rintro h w rfl
  exact wp_transaction.mpr ⟨fun _ _ _ => health_arrive w, fun _ _ => health_arrive w⟩

theorem quiet_runtimeCall {call : RuntimeCall} {error : StatusCode → PyError}
    {effect : Users → Option Users} : Quiet (runtimeCall env call error effect) := by
  rintro h w rfl
  have harr : (w.arrive env).health = w.health := health_arrive w
  exact wp_runtimeCall.mpr ⟨fun _ _ _ => harr, fun _ _ => harr, fun _ _ => harr,
    fun _ _ _ _ => harr, fun _ _ _ => harr⟩

theorem quiet_repositoryGet {q : Uuid} : Quiet (repositoryGet q) :=
  fun _ => Keeps.bind Keeps.read fun _ => Keeps.ofExcept _

theorem quiet_addRecord {r : ProfileRecord} : Quiet (addRecord env r) := fun h =>
  Keeps.bind (Keeps.ofExcept _) fun _ => Keeps.ite (quiet_runtimeCall h) (Keeps.raise _)

theorem quiet_removeUser {k : String} : Quiet (removeUser env k) := fun h =>
  Keeps.ite (quiet_runtimeCall h) (Keeps.raise _)

theorem quiet_markError {q : Uuid} {code : String} : Quiet (markError env q code) := fun h =>
  Keeps.suppress (Keeps.bind (quiet_repositoryGet h) fun _ =>
    Keeps.ite (quiet_transaction h) (quiet_transaction h))

theorem quiet_prepareDisabled {q : Uuid} : Quiet (prepareDisabled env q) := fun h => by
  refine Keeps.bind (quiet_repositoryGet h) fun r => Keeps.ite ?_ ?_
  · exact Keeps.bind (quiet_transaction h) fun _ => quiet_transaction h
  · exact Keeps.bind (Keeps.ret r) fun _ => quiet_transaction h

theorem quiet_attempted {b : Bool} {m : Py Unit} (hm : Quiet m) : Quiet (attempted b m) := fun h =>
  Keeps.bind (Keeps.succeeds (hm h)) fun _ => Keeps.ret _

theorem quiet_revokeRuntime {r : ProfileRecord} : Quiet (revokeRuntime env r) := fun h => by
  have hkick : Quiet (kick env r.runtimeId.text) := fun h =>
    Keeps.ite (quiet_runtimeCall h) (Keeps.raise _)
  refine Keeps.bind (quiet_attempted hkick h) fun _ => ?_
  refine Keeps.bind (quiet_attempted quiet_removeUser h) fun _ => ?_
  refine Keeps.bind (quiet_attempted quiet_runtimeCall h) fun _ => ?_
  refine Keeps.bind (quiet_attempted quiet_runtimeCall h) fun b => ?_
  refine Keeps.bind (Keeps.bind Keeps.read fun _ => Keeps.ret _) fun records => ?_
  exact Keeps.foldEach (fun b q _ => Keeps.ite (Keeps.ret b) (quiet_attempted quiet_addRecord h)) b

theorem quiet_activate {r : ProfileRecord} : Quiet (activate env r) := fun h =>
  Keeps.bind (quiet_addRecord h) fun _ => Keeps.bind (quiet_transaction h) fun _ =>
    Keeps.bind (Keeps.ofExcept _) fun _ => Keeps.ret _

theorem quiet_serviceCreate {name : String} {draw : Draw} : Quiet (serviceCreate env name draw) :=
  fun h => Keeps.bind (Keeps.ofExcept _) fun _ => Keeps.bind (Keeps.ofExcept _) fun _ =>
    Keeps.bind (quiet_transaction h) fun _ => Keeps.ret _

/-! ### A mutation is a path -/

/-- **The coordinator can take the panel to this world**, by work and reconciliations alone. -/
def Traversed (env : Env) (p : Panel) (v : World) : Prop :=
  ∃ as p', (∀ a ∈ as, a = .reconcile ∨ ∃ w, a = .work w) ∧ Panel.path env as p = some p' ∧
    p'.world = v ∧ p'.pending = p.pending

variable {p : Panel}

theorem Traversed.refl : Traversed env p p.world := ⟨[], p, by simp, rfl, rfl, rfl⟩

theorem Traversed.work {v v' : World} (h : Traversed env p v) (hv : v'.health = v.health) :
    Traversed env p v' := by
  obtain ⟨as, p', has, hpath, rfl, hpending⟩ := h
  refine ⟨as ++ [.work v'], { p' with world := v' }, fun a ha => ?_, ?_, rfl, hpending⟩
  · rcases List.mem_append.mp ha with ha | ha
    · exact has a ha
    · exact Or.inr ⟨v', List.mem_singleton.mp ha⟩
  · rw [Panel.path_append, hpath, Option.bind_some, Panel.path, Panel.step, if_pos hv]
    rfl

theorem Traversed.reconcile (henv : env.runtimeHealth = true) :
    Keeps (Traversed env p) (EzOpenPN.reconcile env) := by
  intro v h
  obtain ⟨result, v', hrun, -⟩ := reconcile_publishes henv v
  rw [wp_of_ok hrun]
  obtain ⟨as, p', has, hpath, rfl, hpending⟩ := h
  refine ⟨as ++ [.reconcile], { p' with world := v', last := some result }, fun a ha => ?_, ?_, rfl,
    hpending⟩
  · rcases List.mem_append.mp ha with ha | ha
    · exact has a ha
    · exact Or.inl (List.mem_singleton.mp ha)
  · rw [Panel.path_append, hpath, Option.bind_some, Panel.path, Panel.step, hrun]
    rfl

/-- A program that leaves the health record alone is work. -/
theorem Quiet.traversed {α : Type} {m : Py α} (hm : Quiet m) : Keeps (Traversed env p) m :=
  fun v h => wp_mono (hm v.health v rfl) (fun _ _ hv => h.work hv) fun _ _ hv => h.work hv

theorem traversed_reconcileAfterError (henv : env.runtimeHealth = true) :
    Keeps (Traversed env p) (reconcileAfterError env) :=
  Keeps.suppress (Traversed.reconcile henv)

theorem traversed_compensate {α : Type} {r : ProfileRecord} {e : PyError}
    (henv : env.runtimeHealth = true) : Keeps (Traversed env p) (compensate env r e : Py α) :=
  Keeps.bind (Keeps.suppress quiet_removeUser.traversed) fun _ =>
    Keeps.bind quiet_markError.traversed fun _ =>
      Keeps.bind (traversed_reconcileAfterError henv) fun _ => Keeps.raise e

theorem traversed_disable {q : Uuid} (henv : env.runtimeHealth = true) :
    Keeps (Traversed env p) (disable env q) := by
  refine Keeps.bind quiet_prepareDisabled.traversed fun r =>
    Keeps.bind quiet_revokeRuntime.traversed fun b => Keeps.ite ?_ ?_
  · exact Keeps.bind quiet_transaction.traversed fun _ =>
      Keeps.bind (traversed_reconcileAfterError henv) fun _ => Keeps.raise _
  · exact Keeps.bind quiet_repositoryGet.traversed fun _ => Keeps.ret _

theorem traversed_enable {q : Uuid} (henv : env.runtimeHealth = true) :
    Keeps (Traversed env p) (enable env q) := by
  have hmain : ∀ r : ProfileRecord, Keeps (Traversed env p)
      (if r.state ≠ .pending ∧ r.state ≠ .disabled then
          raise ⟨.invalidProfileTransition, "profile cannot be enabled"⟩
        else (tryExcept (activate env r) fun _ =>
            compensate env r ⟨.profileEnableFailed, "profile enable failed"⟩) >>= fun result =>
          pure (profileResult result.1 none (some result.2)) : Py ProfileResult) := fun r =>
    Keeps.ite (Keeps.raise _) (Keeps.bind
      (Keeps.tryExcept quiet_activate.traversed fun _ => traversed_compensate henv)
      fun _ => Keeps.ret _)
  refine Keeps.bind quiet_repositoryGet.traversed fun r => Keeps.ite ?_ ?_
  · exact Keeps.bind quiet_transaction.traversed hmain
  · exact Keeps.bind (Keeps.ret r) hmain

theorem traversed_create {name : String} {draw : Draw} (henv : env.runtimeHealth = true) :
    Keeps (Traversed env p) (create env name draw) :=
  Keeps.bind quiet_serviceCreate.traversed fun _ =>
    Keeps.bind quiet_repositoryGet.traversed fun _ =>
      Keeps.bind (Keeps.tryExcept quiet_activate.traversed fun _ => traversed_compensate henv)
        fun _ => Keeps.ret _

theorem traversed_delete {q : Uuid} (henv : env.runtimeHealth = true) :
    Keeps (Traversed env p) (delete env q) := by
  refine Keeps.tryExcept ?_ fun e => Keeps.ite (Keeps.raise e) ?_
  · exact Keeps.bind (traversed_disable henv) fun _ => quiet_transaction.traversed
  · exact Keeps.bind quiet_markError.traversed fun _ =>
      Keeps.bind (traversed_reconcileAfterError henv) fun _ => Keeps.raise _

end Coordinator

/-! ### The record and the last outcome -/

/-- **A step that does not disturb the periodic task**: no mutation reconciles while the task has
an outcome in hand. -/
def Panel.Undisturbed (p : Panel) (a : PanelAction) : Prop := a = .reconcile → p.pending = none

/-- The states of the runs whose steps are all undisturbed. -/
inductive UndisturbedReachable (env : Env) : Panel → Prop
  | start (w : World) : UndisturbedReachable env ⟨w, none, none⟩
  | step {p p' : Panel} {a : PanelAction} (h : UndisturbedReachable env p) (ha : p.Undisturbed a)
      (hstep : p.step env a = some p') : UndisturbedReachable env p'

/-- **The record is up to date**: it says the last outcome, and what the periodic task has in hand
is the last outcome too. -/
structure Panel.UpToDate (p : Panel) : Prop where
  health : ∀ result, p.last = some result → p.world.health = healthOf result
  pending : ∀ result, p.pending = some result → p.last = some result

section Invariant

variable {env : Env} {p p' : Panel} {a : PanelAction}

/-- **An undisturbed step keeps the record up to date.** -/
theorem Panel.UpToDate.step (h : p.UpToDate) (henv : env.runtimeHealth = true)
    (ha : p.Undisturbed a) (hstep : p.step env a = some p') : p'.UpToDate := by
  obtain ⟨result, w', hrun, hhealth⟩ := reconcile_publishes henv p.world
  cases a with
  | work w =>
    rw [Panel.step] at hstep
    split at hstep
    · rename_i hw
      obtain rfl := Option.some.inj hstep
      exact ⟨fun r hr => hw.trans (h.health r hr), h.pending⟩
    · exact absurd hstep (by simp)
  | reconcile =>
    simp only [Panel.step, hrun, Option.some.injEq] at hstep
    subst hstep
    have hidle : p.pending = none := ha rfl
    refine ⟨fun r hr => ?_, fun r hr => ?_⟩
    · obtain rfl := Option.some.inj hr
      exact hhealth
    · have hr' : p.pending = some r := hr
      exact absurd (hidle.symm.trans hr') (by simp)
  | periodicReconcile =>
    rw [Panel.step] at hstep
    split at hstep
    · exact absurd hstep (by simp)
    · simp only [hrun, Option.some.injEq] at hstep
      subst hstep
      refine ⟨fun r hr => ?_, fun r hr => hr⟩
      obtain rfl := Option.some.inj hr
      exact hhealth
  | publish =>
    rw [Panel.step, Option.map_eq_some_iff] at hstep
    obtain ⟨r, hr, rfl⟩ := hstep
    refine ⟨fun r' hr' => ?_, fun r' hr' => absurd hr' (by simp)⟩
    -- what is published is the last outcome
    have hlast : p.last = some r' := hr'
    obtain rfl := Option.some.inj ((h.pending r hr).symm.trans hlast)
    rfl
  | cancel =>
    obtain rfl := Option.some.inj hstep
    exact ⟨h.health, fun r hr => absurd hr (by simp)⟩

/-- **The health record tells the latest outcome** in every state of every run in which no mutation
reconciles between a reconciliation of the periodic task and its publication. -/
theorem health_tells_latest (henv : env.runtimeHealth = true) (h : UndisturbedReachable env p) :
    ∀ result, p.last = some result → p.world.health = healthOf result := by
  have hdate : p.UpToDate := by
    induction h with
    | start w => exact ⟨fun r hr => absurd hr (by simp), fun r hr => absurd hr (by simp)⟩
    | step _ ha hstep ih => exact ih.step henv ha hstep
  exact hdate.health

end Invariant

/-! ### An outcome that is overwritten -/

/-- What a creation whose activation fails does before it reconciles. -/
def creationUntilReconcile (env : Env) (name : String) (draw : Draw) : Py Unit := do
  let (pending, _) ← serviceCreate env name draw
  let record ← repositoryGet pending.id
  let _ ← succeeds (activate env record)
  suppress (removeUser env record.runtimeId.text)
  markError env record.id xrayAddFailed

/-- An installation whose Xray does not answer from the addition of the first user on, until the
creation has reconciled. -/
def silentEnv : Env :=
  sampleEnv fun n => if 2 ≤ n ∧ n ≤ 5 then ⟨false, .failed .unavailable⟩ else Fault.none

/-- The world in which that creation reconciles. -/
def silentWorld : World :=
  (creationUntilReconcile silentEnv "anna" (sampleDraw 1) (reconcile silentEnv freshWorld).2).2

/-- The panel once the outcome of the periodic task has been published. -/
def overwrittenPanel : Option Panel :=
  Panel.path silentEnv [.periodicReconcile, .work silentWorld, .reconcile, .publish]
    ⟨freshWorld, none, none⟩

/-- **An older outcome overwrites a later one.** The periodic task reconciles without an error; a
creation fails, and so does its reconciliation; then the event loop publishes what the periodic
task returned, and the health record says that all is well. -/
theorem health_overwritten :
    ((create silentEnv "anna" (sampleDraw 1) (reconcile silentEnv freshWorld).2).1.toOption = none ∧
      (create silentEnv "anna" (sampleDraw 1) (reconcile silentEnv freshWorld).2).2.health =
        ⟨false, some reconcileFailed⟩) ∧
    ∃ p result, overwrittenPanel = some p ∧ p.pending = none ∧ p.last = some result ∧
      result.errorCode = some reconcileFailed ∧ p.world.health = ⟨true, none⟩ ∧
      p.world.health ≠ healthOf result := by
  refine ⟨by decide +kernel, ?_⟩
  have hfacts : (overwrittenPanel.map fun p => (p.pending, p.last.map ReconcileResult.errorCode,
      p.world.health)) = some (none, some (some reconcileFailed), ⟨true, none⟩) := by
    decide +kernel
  obtain ⟨p, hp, hvalues⟩ := Option.map_eq_some_iff.mp hfacts
  obtain ⟨hpending, hrest⟩ := Prod.mk.inj hvalues
  obtain ⟨hlast, hhealth⟩ := Prod.mk.inj hrest
  obtain ⟨result, hresult, hcode⟩ := Option.map_eq_some_iff.mp hlast
  refine ⟨p, result, hp, hpending, hresult, hcode, hhealth, ?_⟩
  rw [hhealth, healthOf, hcode]
  decide

/-- The periodic task has published its outcome before the creation fails and reconciles: the
record says what that reconciliation came to. -/
theorem health_tells_latest_published : ∃ p result, UndisturbedReachable silentEnv p ∧
    (reconcile silentEnv silentWorld).1 = .ok result ∧ p.last = some result ∧
    p.world.health = healthOf result := by
  obtain ⟨first, w₁, hfirst, hhealth₁⟩ := @reconcile_publishes silentEnv rfl freshWorld
  obtain ⟨second, w₂, hsecond, -⟩ := @reconcile_publishes silentEnv rfl silentWorld
  have hwork : silentWorld.health = healthOf first := by
    have hsame : silentWorld.health = (reconcile silentEnv freshWorld).2.health := by
      decide +kernel
    rw [hsame, hfirst]
    exact hhealth₁
  have h₁ : UndisturbedReachable silentEnv ⟨w₁, some first, some first⟩ :=
    .step (a := .periodicReconcile) (.start freshWorld) (fun h => absurd h (by simp))
      (by simp [Panel.step, hfirst])
  have h₂ : UndisturbedReachable silentEnv ⟨{ w₁ with health := healthOf first }, none, some first⟩ :=
    .step (a := .publish) h₁ (fun h => absurd h (by simp)) rfl
  have h₃ : UndisturbedReachable silentEnv ⟨silentWorld, none, some first⟩ :=
    .step (a := .work silentWorld) h₂ (fun h => absurd h (by simp))
      (by rw [Panel.step, if_pos hwork])
  have h₄ : UndisturbedReachable silentEnv ⟨w₂, none, some second⟩ :=
    .step (a := .reconcile) h₃ (fun _ => rfl) (by simp [Panel.step, hsecond])
  refine ⟨_, second, h₄, by rw [hsecond], rfl, ?_⟩
  exact health_tells_latest rfl h₄ second rfl

end EzOpenPN
