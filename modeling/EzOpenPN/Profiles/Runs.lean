import EzOpenPN.Profiles.Coordinator

/-!
# Runs of the coordinator

Panel requests and the periodic task call the coordinator in any order, and Xray may crash
between two calls as it may within one. An `EzOpenPN.Action` is one such happening, and
`EzOpenPN.runActions` a whole run of them; the calls are serialized, so a run is a sequence
of whole calls, but a property “at every later point” is about the moments within them.

## Invariants of the two stores

`EzOpenPN.Since h₀ J` says that `J` holds of tables and user set now and at every moment
after the history `h₀`. What `J` has to survive for a call to keep it is stated once, in
terms of what a call can do to the stores:

* `EzOpenPN.UserUpheld J` – the changes of a reconciliation: losing users, and adding the user
  of an *active* record;
* `EzOpenPN.Upheld J` – the changes any call may make: those, moving a profile to a state
  other than `ACTIVE`, and deleting a profile;
* `EzOpenPN.Admitted J q` – the two changes that only provisioning `q` makes: adding its
  user whatever its state, and moving it to `ACTIVE`.

Every invariant of the development is an instance: none of their proofs looks into an
operation again.
-/

namespace EzOpenPN

open Prog

/-! ### Moments since -/

/-- **`J` holds now and at every moment since the history was `h₀`.** -/
def Since (h₀ : List Moment) (J : Tables → Users → Prop) (w : World) : Prop :=
  (∃ new, w.history = new ++ h₀ ∧ ∀ m ∈ new, J m.tables m.users) ∧ J w.tables w.users

/-- What a store invariant has to survive of a reconciliation, which changes no table. -/
structure UserUpheld (J : Tables → Users → Prop) : Prop where
  /-- Xray crashes or is restarted. -/
  crash : ∀ {t u}, J t u → J t ∅
  /-- A user is removed. -/
  erase : ∀ {t u} (k : String), J t u → J t (u.erase k)
  /-- The user of an active record is added. -/
  insert : ∀ {t u r} (x : Uuid), J t u → r ∈ activeRecords t → J t (u.insert r.runtimeId.text x)

/-- What a store invariant has to survive, whatever the coordinator is asked to do. -/
structure Upheld (J : Tables → Users → Prop) : Prop extends UserUpheld J where
  /-- A profile moves to a state other than `ACTIVE`. -/
  demote : ∀ {t u time id state code r t'}, J t u → state ≠ .active →
    t.setState time id state code = .ok (r, t') → J t' u
  /-- An error code is noted on a profile. -/
  note : ∀ {t u time id code r t'}, J t u → t.setRuntimeError time id code = .ok (r, t') → J t' u
  /-- A profile is deleted. -/
  discard : ∀ {t u id t'}, J t u → t.deleteLocal id = .ok ((), t') → J t' u

/-- The two changes that belong to the provisioning of one profile. -/
structure Admitted (J : Tables → Users → Prop) (q : Uuid) : Prop where
  /-- Its user is added, whatever its state. -/
  insert : ∀ {t u r} (x : Uuid), J t u → t.get q = .ok r → J t (u.insert r.runtimeId.text x)
  /-- It moves to `ACTIVE`. -/
  promote : ∀ {t u time code r t'}, J t u → t.setState time q .active code = .ok (r, t') → J t' u

section And

variable {J K : Tables → Users → Prop}

/-- Two upheld invariants are upheld together. -/
theorem Upheld.and (hJ : Upheld J) (hK : Upheld K) : Upheld fun t u => J t u ∧ K t u where
  crash h := ⟨hJ.crash h.1, hK.crash h.2⟩
  erase k h := ⟨hJ.erase k h.1, hK.erase k h.2⟩
  insert x h hr := ⟨hJ.insert x h.1 hr, hK.insert x h.2 hr⟩
  demote h hs ht := ⟨hJ.demote h.1 hs ht, hK.demote h.2 hs ht⟩
  note h ht := ⟨hJ.note h.1 ht, hK.note h.2 ht⟩
  discard h ht := ⟨hJ.discard h.1 ht, hK.discard h.2 ht⟩

theorem Admitted.and {q : Uuid} (hJ : Admitted J q) (hK : Admitted K q) :
    Admitted (fun t u => J t u ∧ K t u) q where
  insert x h hr := ⟨hJ.insert x h.1 hr, hK.insert x h.2 hr⟩
  promote h ht := ⟨hJ.promote h.1 ht, hK.promote h.2 ht⟩

end And

section Moments

variable {J : Tables → Users → Prop} {h₀ : List Moment} {env : Env} {w : World}

theorem Since.now (h : Since h₀ J w) : J w.tables w.users := h.2

/-- What follows from `J` held whenever `J` did. -/
theorem Since.mono {K : Tables → Users → Prop} (h : Since h₀ J w) (hJK : ∀ t u, J t u → K t u) :
    Since h₀ K w := by
  obtain ⟨⟨new, hnew, hm⟩, hnow⟩ := h
  exact ⟨⟨new, hnew, fun m hmem => hJK _ _ (hm m hmem)⟩, hJK _ _ hnow⟩

/-- A history that has just begun. -/
theorem Since.start (h : J w.tables w.users) : Since w.history J w :=
  ⟨⟨[], by simp, by simp⟩, h⟩

/-- Recording an event at stores where `J` holds. -/
theorem Since.record (h : Since h₀ J w) (w' : World) (hw : w'.history = w.history)
    (hJ : J w'.tables w'.users) (e : Event) : Since h₀ J (w'.record e) := by
  obtain ⟨⟨new, hnew, hm⟩, -⟩ := h
  refine ⟨⟨⟨e, w'.tables, w'.users⟩ :: new, by simp [hw, hnew], ?_⟩, hJ⟩
  rintro m (_ | ⟨_, hmem⟩)
  · exact hJ
  · exact hm m hmem

/-- Entering a step: a crash leaves what `J` survives. -/
theorem Since.arrive (h : Since h₀ J w) (hcrash : J w.tables w.users → J w.tables ∅) :
    Since h₀ J (w.arrive env) := by
  rw [World.arrive]
  split
  · exact h.record { w with users := ∅ } rfl (hcrash h.now) .crashed
  · exact h

/-- **A call keeps `J` at the tables it finds** if its effect on the user set does. -/
theorem keeps_runtimeCall {t : Tables} {call : RuntimeCall} {error : StatusCode → PyError}
    {effect : Users → Option Users} (hcrash : ∀ u, J t u → J t ∅)
    (heffect : ∀ u u', J t u → effect u = some u' → J t u') :
    Keeps (fun w => Since h₀ J w ∧ w.tables = t) (runtimeCall env call error effect) := by
  rintro w ⟨h, rfl⟩
  have harr : Since h₀ J (w.arrive env) := h.arrive (hcrash w.users)
  have hnow : J w.tables (w.arrive env).users := by simpa using harr.now
  -- an effect is recorded whether or not its caller hears of it
  have hrec : ∀ u e, effect (w.arrive env).users = some u →
      Since h₀ J (({ w.arrive env with users := u } : World).record e) := fun u e he =>
    harr.record { w.arrive env with users := u } rfl (by simpa using heffect _ _ hnow he) e
  rw [wp_runtimeCall]
  refine ⟨fun u _ he => ⟨hrec u _ he, by simp⟩, fun _ _ => ⟨harr, by simp⟩,
    fun _ _ => ⟨harr, by simp⟩, fun _ u _ he => ⟨hrec u _ he, by simp⟩,
    fun _ _ _ => ⟨harr, by simp⟩⟩

/-- **A transaction keeps `J`** if the tables it commits do. -/
theorem keeps_transaction {α : Type} {label : Transaction}
    {body : Time → Tables → Except PyError (α × Tables)} (hcrash : ∀ t u, J t u → J t ∅)
    (hbody : ∀ time t u a t', J t u → body time t = .ok (a, t') → J t' u) :
    Keeps (Since h₀ J) (transaction env label body) := by
  intro w h
  have harr : Since h₀ J (w.arrive env) := h.arrive (hcrash w.tables w.users)
  rw [wp_transaction]
  refine ⟨fun a t hb => ?_, fun _ _ => harr⟩
  have hnow : J w.tables (w.arrive env).users := by simpa using harr.now
  exact harr.record { w.arrive env with tables := t } rfl (hbody _ _ _ a t hnow hb) _

theorem keeps_attempted {t : Tables} {b : Bool} {call : Py Unit}
    (h : Keeps (fun w => Since h₀ J w ∧ w.tables = t) call) :
    Keeps (fun w => Since h₀ J w ∧ w.tables = t) (attempted b call) :=
  Keeps.bind (Keeps.succeeds h) fun _ => Keeps.ret _

theorem keeps_repositoryGet {q : Uuid} : Keeps (Since h₀ J) (repositoryGet q) :=
  Keeps.bind Keeps.read fun _ => Keeps.ofExcept _

/-- What is kept at every table content is kept. -/
theorem keeps_of_tables {α : Type} {m : Py α}
    (h : ∀ t, Keeps (fun w => Since h₀ J w ∧ w.tables = t) m) : Keeps (Since h₀ J) m :=
  fun w hw => wp_mono (h w.tables w ⟨hw, rfl⟩) (fun _ _ h => h.1) fun _ _ h => h.1

end Moments

/-! ### The operations keep what is upheld -/

section Operations

variable {J : Tables → Users → Prop} {h₀ : List Moment} {env : Env}

namespace UserUpheld

section Calls

variable {t : Tables} (hJ : UserUpheld J)
include hJ

/-- A call whose effect removes users, or none, is kept. -/
theorem keeps_call {call : RuntimeCall} {error : StatusCode → PyError}
    {effect : Users → Option Users} (heffect : ∀ u u', J t u → effect u = some u' → J t u') :
    Keeps (fun w => Since h₀ J w ∧ w.tables = t) (runtimeCall env call error effect) :=
  keeps_runtimeCall (fun _ h => hJ.crash h) heffect

theorem keeps_removeUser (k : String) :
    Keeps (fun w => Since h₀ J w ∧ w.tables = t) (removeUser env k) := by
  refine Keeps.ite (hJ.keeps_call fun u u' h he => ?_) (Keeps.raise _)
  rw [removeUserEffect] at he
  split at he
  · exact absurd he (by simp)
  · obtain rfl := Option.some.inj he
    exact hJ.erase k h

theorem keeps_addUser {k : String} (x : Uuid) (hk : ∀ u, J t u → J t (u.insert k x)) :
    Keeps (fun w => Since h₀ J w ∧ w.tables = t) (addUser env k x) := by
  refine Keeps.ite (hJ.keeps_call fun u u' h he => ?_) (Keeps.raise _)
  rw [addUserEffect] at he
  split at he
  · exact absurd he (by simp)
  · obtain rfl := Option.some.inj he
    exact hk u h

theorem keeps_kick (k : String) :
    Keeps (fun w => Since h₀ J w ∧ w.tables = t) (kick env k) := by
  refine Keeps.ite (hJ.keeps_call fun u u' h he => ?_) (Keeps.raise _)
  obtain rfl := Option.some.inj he
  exact h

theorem keeps_restart : Keeps (fun w => Since h₀ J w ∧ w.tables = t) (restart env) := by
  refine hJ.keeps_call fun u u' h he => ?_
  obtain rfl := Option.some.inj he
  exact hJ.crash h

theorem keeps_waitReady : Keeps (fun w => Since h₀ J w ∧ w.tables = t) (waitReady env) := by
  refine hJ.keeps_call fun u u' h he => ?_
  obtain rfl := Option.some.inj he
  exact h

theorem keeps_listUsers : Keeps (fun w => Since h₀ J w ∧ w.tables = t) (listUsers env) := by
  refine Keeps.bind (hJ.keeps_call fun u u' h he => ?_) fun _ => Keeps.bind Keeps.read
    fun _ => Keeps.ret _
  obtain rfl := Option.some.inj he
  exact h

/-- Adding the user of an active record, from the tables that list it as active. -/
theorem keeps_addDesired {r : ProfileRecord} (hr : r ∈ activeRecords t) (desired : Users) :
    Keeps (fun w => Since h₀ J w ∧ w.tables = t)
      (addDesired env desired r.runtimeId.text) := by
  rw [addDesired]
  rcases desired.lookup r.runtimeId.text with _ | x
  · exact Keeps.raise _
  · exact hJ.keeps_addUser x fun u h => hJ.insert x h hr

theorem keeps_addRecord {r : ProfileRecord}
    (hr : ∀ u x, J t u → J t (u.insert r.runtimeId.text x)) :
    Keeps (fun w => Since h₀ J w ∧ w.tables = t) (addRecord env r) :=
  Keeps.bind (Keeps.ofExcept _) fun x => hJ.keeps_addUser x fun u h => hr u x h

/-- The changes of a reconciliation: what it adds, it found active. -/
theorem keeps_applyDifference {desired : Users} {current : List String}
    (hdesired : ∀ k ∈ desired.keys, ∃ r ∈ activeRecords t, r.runtimeId.text = k) :
    Keeps (fun w => Since h₀ J w ∧ w.tables = t)
      (applyDifference env (activeRecords t) desired current) := by
  rw [applyDifference]
  refine Keeps.bind (Keeps.forEach fun k _ => hJ.keeps_removeUser k) fun _ => Keeps.ite ?_ ?_
  · refine Keeps.bind hJ.keeps_restart fun _ => Keeps.bind hJ.keeps_waitReady fun _ => ?_
    exact Keeps.bind (Keeps.forEach fun r hr => hJ.keeps_addDesired hr desired) fun _ => Keeps.ret _
  · refine Keeps.bind (Keeps.forEach fun k hk => ?_) fun _ => Keeps.ret _
    have hmem : k ∈ desired.keys := by
      have := (List.mem_insertionSort _).mp hk
      exact (List.mem_filter.mp this).1
    obtain ⟨r, hr, rfl⟩ := hdesired k hmem
    exact hJ.keeps_addDesired hr desired

end Calls

variable (hJ : UserUpheld J)
include hJ

/-- **A reconciliation keeps what is upheld**: it reads the tables, and they stay what they
were while it works from that reading. -/
theorem keeps_reconcilerRun : Keeps (Since h₀ J) (reconcilerRun env) := by
  refine keeps_of_tables fun t => Keeps.tryExcept ?_ fun _ => Keeps.ret _
  rintro w ⟨hw, rfl⟩
  rw [wp_bind, wp_repositoryList, wp_bind, wp_ofExcept]
  refine ⟨fun desired hd => ?_, fun _ _ => ⟨hw, rfl⟩⟩
  rw [wp_bind]
  refine wp_mono (hJ.keeps_listUsers w ⟨hw, rfl⟩) (fun current w' hw' => ?_) fun _ _ h => h
  refine hJ.keeps_applyDifference (fun k hk => ?_) w' hw'
  exact (mem_desiredUsers hd (activeRecords_runtimeId_nodup _)).mp (AList.mem_keys.mp hk)

theorem keeps_reconcile : Keeps (Since h₀ J) (reconcile env) := by
  have hhealth : ∀ r, Keeps (Since h₀ J) (updateHealth r) := fun _ _ h => (wp_modify _).mpr h
  refine Keeps.ite ?_ ?_
  · exact Keeps.bind hJ.keeps_reconcilerRun fun r =>
      Keeps.ite (Keeps.bind (hhealth r) fun _ => Keeps.ret r) (Keeps.ret r)
  · exact Keeps.ite (Keeps.bind (hhealth _) fun _ => Keeps.ret _) (Keeps.ret _)

theorem keeps_reconcileAfterError : Keeps (Since h₀ J) (reconcileAfterError env) :=
  Keeps.suppress hJ.keeps_reconcile

/-- The runtime part of a revocation adds active records only. -/
theorem keeps_revokeRuntime {r : ProfileRecord} :
    Keeps (Since h₀ J) (revokeRuntime env r) := by
  refine keeps_of_tables fun t => ?_
  refine Keeps.bind (keeps_attempted (hJ.keeps_kick _)) fun b₁ => ?_
  refine Keeps.bind (keeps_attempted (hJ.keeps_removeUser _)) fun b₂ => ?_
  refine Keeps.bind (keeps_attempted hJ.keeps_restart) fun b₃ => ?_
  refine Keeps.bind (keeps_attempted hJ.keeps_waitReady) fun b₄ => ?_
  rintro w ⟨hw, rfl⟩
  rw [wp_bind, wp_repositoryList]
  refine Keeps.foldEach (fun b q hq => ?_) b₄ w ⟨hw, rfl⟩
  by_cases hs : q.state = .active
  · rw [if_neg (by simp [hs])]
    have hact : q ∈ activeRecords w.tables := mem_activeRecords.mpr ⟨Tables.mem_list.mp hq, hs⟩
    exact keeps_attempted (hJ.keeps_addRecord fun u x h => hJ.insert x h hact)
  · rw [if_pos hs]
    exact Keeps.ret b

end UserUpheld

namespace Upheld

variable (hJ : Upheld J)
include hJ

theorem keeps_setState {q : Uuid} {state : ProfileState} {code : Option String}
    (hs : state ≠ .active) : Keeps (Since h₀ J) (repositorySetState env q state code) :=
  keeps_transaction (fun _ _ => hJ.crash) fun _ _ _ _ _ h hb => hJ.demote h hs hb

theorem keeps_setRuntimeError {q : Uuid} {code : String} :
    Keeps (Since h₀ J) (repositorySetRuntimeError env q code) :=
  keeps_transaction (fun _ _ => hJ.crash) fun _ _ _ _ _ h hb => hJ.note h hb

theorem keeps_deleteLocal {q : Uuid} : Keeps (Since h₀ J) (repositoryDeleteLocal env q) :=
  keeps_transaction (fun _ _ => hJ.crash) fun _ _ _ _ _ h hb => hJ.discard h hb

theorem keeps_markError {q : Uuid} {code : String} :
    Keeps (Since h₀ J) (markError env q code) := by
  refine Keeps.suppress (Keeps.bind keeps_repositoryGet fun _ => Keeps.ite ?_ ?_)
  · exact hJ.keeps_setRuntimeError
  · exact hJ.keeps_setState (by simp)

theorem keeps_prepareDisabled {q : Uuid} : Keeps (Since h₀ J) (prepareDisabled env q) := by
  refine Keeps.bind keeps_repositoryGet fun r => Keeps.ite ?_ ?_
  · exact Keeps.bind (hJ.keeps_setState (by simp)) fun _ => hJ.keeps_setState (by simp)
  · exact Keeps.bind (Keeps.ret r) fun _ => hJ.keeps_setState (by simp)

theorem keeps_disable {q : Uuid} : Keeps (Since h₀ J) (disable env q) := by
  rw [disable]
  refine Keeps.bind hJ.keeps_prepareDisabled fun r =>
    Keeps.bind hJ.keeps_revokeRuntime fun b => Keeps.ite ?_ ?_
  · exact Keeps.bind hJ.keeps_setRuntimeError fun _ =>
      Keeps.bind hJ.keeps_reconcileAfterError fun _ => Keeps.raise _
  · exact Keeps.bind keeps_repositoryGet fun _ => Keeps.ret _

theorem keeps_delete {q : Uuid} : Keeps (Since h₀ J) (delete env q) := by
  refine Keeps.tryExcept ?_ fun e => Keeps.ite (Keeps.raise e) ?_
  · exact Keeps.bind hJ.keeps_disable fun _ => hJ.keeps_deleteLocal
  · exact Keeps.bind hJ.keeps_markError fun _ =>
      Keeps.bind hJ.keeps_reconcileAfterError fun _ => Keeps.raise _

theorem keeps_compensate {α : Type} {r : ProfileRecord} {e : PyError} :
    Keeps (Since h₀ J) (compensate env r e : Py α) := by
  refine Keeps.bind (Keeps.suppress (keeps_of_tables fun t => hJ.keeps_removeUser _)) fun _ => ?_
  refine Keeps.bind hJ.keeps_markError fun _ => ?_
  exact Keeps.bind hJ.keeps_reconcileAfterError fun _ => Keeps.raise e

/-- Provisioning an admitted profile, from the record just read for it. -/
theorem keeps_provision {α : Type} {q : Uuid} (hq : Admitted J q) {r : ProfileRecord}
    {e : PyError} {f : ProfileRecord × LinkBundle → Py α} (hf : ∀ x, Keeps (Since h₀ J) (f x))
    {w : World} (hw : Since h₀ J w) (hr : w.tables.get q = .ok r) :
    wp (tryExcept (activate env r) (fun _ => compensate env r e) >>= f)
      (fun _ => Since h₀ J) (fun _ => Since h₀ J) w := by
  have hid : r.id = q := (Tables.mem_of_get hr).2
  rw [wp_bind, wp_tryExcept]
  refine wp_mono (Q := fun _ => Since h₀ J) (R := fun _ => Since h₀ J) ?_ (fun x v hv => hf x v hv)
    fun _ v hv => wp_mono (hJ.keeps_compensate v hv) (fun x v hv => hf x v hv) fun _ _ h => h
  rw [activate, wp_bind]
  have hadd : Keeps (fun v => Since h₀ J v ∧ v.tables = w.tables) (addRecord env r) :=
    hJ.keeps_addRecord fun u x h => hq.insert x h hr
  refine wp_mono (hadd w ⟨hw, rfl⟩) (fun _ v hv => ?_) fun _ _ h => h.1
  refine Keeps.bind ?_ (fun a => Keeps.bind (Keeps.ofExcept _) fun _ => Keeps.ret _) v hv.1
  rw [hid]
  exact keeps_transaction (fun _ _ => hJ.crash) fun _ _ _ _ _ h hb => hq.promote h hb

theorem keeps_enable {q : Uuid} (hq : Admitted J q) : Keeps (Since h₀ J) (enable env q) := by
  -- both ways into the provisioning have just read the record of `q`
  have hmain : ∀ (r : ProfileRecord) w, Since h₀ J w → w.tables.get q = .ok r →
      wp (if r.state ≠ .pending ∧ r.state ≠ .disabled then
          raise ⟨.invalidProfileTransition, "profile cannot be enabled"⟩
        else (tryExcept (activate env r) fun _ =>
            compensate env r ⟨.profileEnableFailed, "profile enable failed"⟩) >>= fun result =>
          pure (profileResult result.1 none (some result.2)) : Py ProfileResult)
        (fun _ => Since h₀ J) (fun _ => Since h₀ J) w := by
    intro r w hw hr
    split
    · exact (wp_raise _).mpr hw
    · exact hJ.keeps_provision hq (fun _ => Keeps.ret _) hw hr
  intro w hw
  rw [enable, wp_bind, wp_repositoryGet]
  refine ⟨fun r hr => ?_, fun _ _ => hw⟩
  split
  · rw [wp_bind]
    have hset : Keeps (Since h₀ J) (repositorySetState env q .pending none) :=
      hJ.keeps_setState (by simp)
    have hget : wp (repositorySetState env q .pending none)
        (fun r v => v.tables.get q = .ok r) (fun _ _ => True) w :=
      wp_transaction.mpr ⟨fun _ _ h => Tables.get_of_setState h, fun _ _ => trivial⟩
    exact wp_mono (wp_and (hset w hw) hget) (fun r v h => hmain r v h.1 h.2) fun _ _ h => h.1
  · exact hmain r w hw hr

/-- Creating a profile whose insertion `J` survives and whose provisioning it admits. -/
theorem keeps_create {name : String} {draw : Draw} (hq : Admitted J draw.profileId)
    (hnew : ∀ t u time normalized m token r t', J t u →
      newMaterial env.cipher normalized draw = .ok (m, token) →
      t.insertPending time m = .ok (r, t') → J t' u) :
    Keeps (Since h₀ J) (create env name draw) := by
  intro w hw
  rw [create, serviceCreate, wp_bind, wp_bind, wp_ofExcept]
  refine ⟨fun normalized _ => ?_, fun _ _ => hw⟩
  rw [wp_bind, wp_ofExcept]
  refine ⟨fun mt hmt => ?_, fun _ _ => hw⟩
  obtain ⟨m, token⟩ := mt
  have hid : m.profileId = draw.profileId := (newMaterial_ok hmt).1
  have hins : Keeps (Since h₀ J) (repositoryInsertPending env m) :=
    keeps_transaction (fun _ _ => hJ.crash) fun _ _ _ _ _ h hb => hnew _ _ _ _ m token _ _ h hmt hb
  have hrow : wp (repositoryInsertPending env m) (fun r _ => r.id = m.profileId)
      (fun _ _ => True) w := by
    refine wp_transaction.mpr ⟨fun r t h => ?_, fun _ _ => trivial⟩
    obtain ⟨_, rfl, -⟩ := Tables.insertPending_ok h
    rfl
  rw [wp_bind]
  refine wp_mono (wp_and (hins w hw) hrow) (fun pending v hv => ?_) fun _ _ h => h.1
  rw [wp_pure, wp_bind, wp_repositoryGet]
  refine ⟨fun r hr => ?_, fun _ _ => hv.1⟩
  rw [hv.2, hid] at hr
  exact hJ.keeps_provision hq (fun _ => Keeps.ret _) hv.1 hr

end Upheld

/-- **A reconciliation after a failure leaves the tables alone** and raises nothing. -/
theorem wp_reconcileAfterError {w : World} {R : PyError → World → Prop} :
    wp (reconcileAfterError env) (fun _ v => v.tables = w.tables) R w := by
  have hJ : UserUpheld fun t' _ => t' = w.tables := ⟨id, fun _ => id, fun _ h _ => h⟩
  rw [reconcileAfterError, wp_suppress]
  exact wp_mono (hJ.keeps_reconcile w (Since.start rfl)) (fun _ _ h => h.now) fun _ _ h => h.now

end Operations

/-! ### Runs -/

/-- A call of the coordinator. -/
inductive Call where
  | create (name : String) (draw : Draw)
  | disable (profileId : Uuid)
  | enable (profileId : Uuid)
  | delete (profileId : Uuid)
  | reconcile

/-- **What can happen to a running installation**: a call of the coordinator, or a crash of
Xray between two calls. -/
inductive Action where
  | call (call : Call)
  | xrayCrash

/-- Execute a call, for what it leaves. -/
def executeCall (env : Env) : Call → Py Unit
  | .create name draw => suppress (create env name draw)
  | .disable profileId => suppress (disable env profileId)
  | .enable profileId => suppress (enable env profileId)
  | .delete profileId => suppress (delete env profileId)
  | .reconcile => suppress (reconcile env)

/-- The world after an action. -/
def Action.perform (env : Env) (w : World) : Action → World
  | .call c => (executeCall env c w).2
  | .xrayCrash => w.crash

/-- **The world after a run.** -/
def runActions (env : Env) (actions : List Action) (w : World) : World :=
  actions.foldl (fun w a => a.perform env w) w

/-- The draws of a run. -/
def drawsOf (actions : List Action) : List Draw :=
  actions.filterMap fun
    | .call (.create _ draw) => some draw
    | _ => none

/-- An action whose provisioning `J` admits. -/
def Action.AdmittedBy (env : Env) (J : Tables → Users → Prop) : Action → Prop
  | .call (.create _ draw) => Admitted J draw.profileId ∧
      ∀ t u time normalized m token r t', J t u →
        newMaterial env.cipher normalized draw = .ok (m, token) →
        t.insertPending time m = .ok (r, t') → J t' u
  | .call (.enable q) => Admitted J q
  | _ => True

/-- An action admitted by two invariants is admitted by both together. -/
theorem Action.AdmittedBy.and {env : Env} {J K : Tables → Users → Prop} {a : Action}
    (hJ : a.AdmittedBy env J) (hK : a.AdmittedBy env K) :
    a.AdmittedBy env fun t u => J t u ∧ K t u := by
  cases a with
  | xrayCrash => trivial
  | call c =>
    cases c with
    | create name draw =>
      refine ⟨hJ.1.and hK.1, fun t u n normalized m token r t' h hm hi => ?_⟩
      exact ⟨hJ.2 t u n normalized m token r t' h.1 hm hi,
        hK.2 t u n normalized m token r t' h.2 hm hi⟩
    | enable q => exact Admitted.and hJ hK
    | disable q => trivial
    | delete q => trivial
    | reconcile => trivial

section Runs

variable {J : Tables → Users → Prop} {h₀ : List Moment} {env : Env} {w : World}

/-- **One call keeps what is upheld**, if its provisioning is admitted. -/
theorem Upheld.keeps_executeCall (hJ : Upheld J) {c : Call}
    (hc : (Action.call c).AdmittedBy env J) : Keeps (Since h₀ J) (executeCall env c) := by
  cases c <;> rw [executeCall] <;> refine Keeps.suppress ?_
  case create name draw => exact hJ.keeps_create hc.1 hc.2
  case disable q => exact hJ.keeps_disable
  case enable q => exact hJ.keeps_enable hc
  case delete q => exact hJ.keeps_delete
  case reconcile => exact hJ.keeps_reconcile

/-- **One action keeps what is upheld.** -/
theorem Upheld.perform (hJ : Upheld J) {a : Action} (ha : a.AdmittedBy env J)
    (hw : Since h₀ J w) : Since h₀ J (a.perform env w) := by
  cases a with
  | xrayCrash => exact hw.record { w with users := ∅ } rfl (hJ.crash hw.now) .crashed
  | call c =>
    have h : Keeps (Since h₀ J) (executeCall env c) := hJ.keeps_executeCall ha
    exact h.snd hw

/-- **A run keeps what is upheld.** -/
theorem Upheld.runActions (hJ : Upheld J) {actions : List Action} :
    ∀ {w : World}, (∀ a ∈ actions, a.AdmittedBy env J) → Since h₀ J w →
      Since h₀ J (runActions env actions w) := by
  induction actions with
  | nil => exact fun _ hw => hw
  | cons a rest ih =>
    intro w ha hw
    exact ih (fun b hb => ha b (by simp [hb])) (hJ.perform (ha a (by simp)) hw)

end Runs

/-! ### Reachable worlds -/

/-- **A reachable world**: an installation that started with empty tables, after some run. -/
def Reachable (env : Env) (w : World) : Prop :=
  ∃ w₀ actions, w₀.tables = .empty ∧ w = runActions env actions w₀

theorem upheld_complete : Upheld fun t _ => t.Complete where
  crash := id
  erase _ := id
  insert _ h _ := h
  demote h _ hs := by
    obtain ⟨_, -, -, -, rfl⟩ := Tables.setState_ok hs
    exact h.modifyProfile
  note h hs := by
    obtain ⟨_, -, -, rfl⟩ := Tables.setRuntimeError_ok hs
    exact h.modifyProfile
  discard h hs := by
    rw [Tables.deleteLocal_ok hs]
    exact h.deleted _

theorem admitted_complete (q : Uuid) : Admitted (fun t _ => t.Complete) q where
  insert _ h _ := h
  promote h hs := by
    obtain ⟨_, -, -, -, rfl⟩ := Tables.setState_ok hs
    exact h.modifyProfile

/-- **In a reachable world every profile has both of its lookups.** -/
theorem Reachable.complete {env : Env} {w : World} (h : Reachable env w) : w.tables.Complete := by
  obtain ⟨w₀, actions, h₀, rfl⟩ := h
  refine (upheld_complete.runActions (fun a _ => ?_) (Since.start (w := w₀) ?_)).now
  · cases a with
    | xrayCrash => trivial
    | call c =>
      cases c with
      | create name draw =>
        refine ⟨admitted_complete _, fun t u time normalized m token r t' h _ hi => ?_⟩
        obtain ⟨hm, -, rfl⟩ := Tables.insertPending_ok hi
        exact h.inserted hm
      | enable q => exact admitted_complete q
      | disable q => trivial
      | delete q => trivial
      | reconcile => trivial
  · rw [h₀]
    exact Tables.complete_empty

end EzOpenPN
