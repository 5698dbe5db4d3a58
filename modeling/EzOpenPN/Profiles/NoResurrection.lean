import EzOpenPN.Profiles.Revocation

/-!
# No resurrected access

Once a profile has been disabled or deleted, nothing but a new `enable` brings its access
back: not a later reconciliation, not the recovery of some other failed call, not a call that
was reported as failed and took effect anyway, not a crash of Xray.

The invariant has three parts. The runtime identifier and the profile identifier belong
together (`EzOpenPN.Keyed`) and the profile is not active (`EzOpenPN.Inactive`), so no active
record carries its identifier and no call ever adds it; and the digest of its Hysteria2 secret
leads to no other profile (`EzOpenPN.SecretOf`). All of them survive everything the
coordinator does except the provisioning of the profile itself, which is what
`EzOpenPN.upheld_excluded` and `EzOpenPN.admitted_excluded` say.

A creation draws new random values. What is asked of them is only that they do not collide
with the identifiers and the secret of the profile that was revoked; while its row is still
there the unique keys of the schema refuse such a collision anyway.
-/

namespace EzOpenPN

open Prog

/-! ### What is said of a revoked profile -/

/-- The digest under which a Hysteria2 secret is looked up. -/
def hysteriaDigest (cipher : SecretCipher) (secret : String) : Bytes :=
  cipher.lookupDigest (asciiBytes "ezopenpn/hysteria-auth/v1:" ++ asciiBytes secret)

/-- The profile and the runtime identifier belong together. -/
def Keyed (p : Uuid) (rid : String) (t : Tables) : Prop :=
  ∀ q ∈ t.profiles, q.id = p ↔ q.runtimeId.text = rid

/-- The profile is not active. -/
def Inactive (p : Uuid) (t : Tables) : Prop := ∀ q ∈ t.profiles, q.id = p → q.state ≠ .active

/-- The secret leads to no other profile. -/
def SecretOf (cipher : SecretCipher) (p : Uuid) (secret : String) (t : Tables) : Prop :=
  ∀ l ∈ t.lookups, l.kind = .hysteriaAuth → l.lookupDigest = hysteriaDigest cipher secret →
    l.profileId = p

section Tables

variable {p q : Uuid} {rid : String} {t t' : Tables} {cipher : SecretCipher} {secret : String}
  {n : Time}

/-- The row of a profile is alone with its two identifiers. -/
theorem keyed_of_mem {r : Profile} (hr : r ∈ t.profiles) : Keyed r.id r.runtimeId.text t :=
  fun _ hq => ⟨fun h => by rw [Tables.eq_of_id_eq hq hr h],
    fun h => by rw [Tables.eq_of_runtimeId_eq hq hr (RuntimeId.text_injective h)]⟩

theorem Keyed.modifyProfile {f : Profile → Profile} {hid : ∀ p, (f p).id = p.id}
    {hrid : ∀ p, (f p).runtimeId = p.runtimeId} (h : Keyed p rid t) :
    Keyed p rid (t.modifyProfile q f hid hrid) := by
  intro s hs
  obtain ⟨r, hr, rfl⟩ := Tables.mem_profiles_modifyProfile.mp hs
  split
  · rw [hid, hrid]
    exact h r hr
  · exact h r hr

theorem Keyed.deleted (h : Keyed p rid t) : Keyed p rid (t.deleted q) :=
  fun s hs => h s (List.mem_of_mem_filter hs)

theorem Keyed.inserted {m : NewProfileMaterial} {hm : t.Admits m} (h : Keyed p rid t)
    (hp : m.profileId ≠ p) (hr : m.runtimeId.text ≠ rid) : Keyed p rid (t.inserted n m hm) := by
  intro s hs
  rcases List.mem_append.mp hs with hs | hs
  · exact h s hs
  · obtain rfl := List.mem_singleton.mp hs
    exact iff_of_false hp hr

theorem Inactive.deleted (h : Inactive p t) : Inactive p (t.deleted q) :=
  fun s hs => h s (List.mem_of_mem_filter hs)

theorem Inactive.inserted {m : NewProfileMaterial} {hm : t.Admits m} (h : Inactive p t) :
    Inactive p (t.inserted n m hm) := by
  intro s hs hid
  rcases List.mem_append.mp hs with hs | hs
  · exact h s hs hid
  · obtain rfl := List.mem_singleton.mp hs
    simp [Tables.pendingRow]

/-- A state change keeps a profile inactive unless it makes this profile active. -/
theorem Inactive.setState {state : ProfileState} {code : Option String} {r : ProfileRecord}
    (h : Inactive p t) (hs : t.setState n q state code = .ok (r, t'))
    (hq : state ≠ .active ∨ q ≠ p) : Inactive p t' := by
  obtain ⟨_, -, -, -, rfl⟩ := Tables.setState_ok hs
  intro s hmem hid
  obtain ⟨s₀, hs₀, rfl⟩ := Tables.mem_profiles_modifyProfile.mp hmem
  by_cases hsq : s₀.id = q
  · rw [if_pos hsq] at hid ⊢
    rcases hq with hst | hne
    · exact hst
    · exact absurd (hsq.symm.trans hid) hne
  · rw [if_neg hsq] at hid ⊢
    exact h s₀ hs₀ hid

theorem Inactive.setRuntimeError {code : String} {r : ProfileRecord} (h : Inactive p t)
    (hs : t.setRuntimeError n q code = .ok (r, t')) : Inactive p t' := by
  obtain ⟨_, -, -, rfl⟩ := Tables.setRuntimeError_ok hs
  intro s hmem hid
  obtain ⟨s₀, hs₀, rfl⟩ := Tables.mem_profiles_modifyProfile.mp hmem
  by_cases hsq : s₀.id = q
  · rw [if_pos hsq] at hid ⊢
    exact h s₀ hs₀ hid
  · rw [if_neg hsq] at hid ⊢
    exact h s₀ hs₀ hid

theorem SecretOf.deleted (h : SecretOf cipher p secret t) : SecretOf cipher p secret (t.deleted q) :=
  fun l hl => h l (List.mem_of_mem_filter hl)

theorem SecretOf.inserted {m : NewProfileMaterial} {hm : t.Admits m}
    (h : SecretOf cipher p secret t) (hd : m.hysteriaLookupDigest ≠ hysteriaDigest cipher secret) :
    SecretOf cipher p secret (t.inserted n m hm) := by
  intro l hl hk he
  rcases List.mem_append.mp hl with hl | hl
  · exact h l hl hk he
  · simp only [Tables.newLookups, List.mem_cons, List.not_mem_nil, or_false] at hl
    rcases hl with rfl | rfl
    · exact absurd hk (by simp)
    · exact absurd he hd

/-- No active record carries the identifier of an inactive profile. -/
theorem Keyed.ne_of_active (hk : Keyed p rid t) (hi : Inactive p t) {r : ProfileRecord}
    (hr : r ∈ activeRecords t) : r.runtimeId.text ≠ rid := by
  obtain ⟨hmem, hs⟩ := mem_activeRecords.mp hr
  have hrow := (Tables.mem_records.mp hmem).1
  exact fun he => hi r.toProfile hrow ((hk r.toProfile hrow).mpr he) hs

end Tables

/-! ### The invariants -/

/-- **A dormant profile**: no active record carries its runtime identifier, and none will
without its being enabled. -/
structure Dormant (p : Uuid) (rid : String) (t : Tables) : Prop where
  keyed : Keyed p rid t
  inactive : Inactive p t

/-- **An excluded profile**: it is dormant, and Xray does not hold its runtime identifier. -/
structure Excluded (p : Uuid) (rid : String) (t : Tables) (u : Users) : Prop where
  dormant : Dormant p rid t
  absent : rid ∉ u

section Invariants

variable {cipher : SecretCipher} {p q : Uuid} {rid : String} {secret : String} {t t' : Tables}
  {n : Time}

theorem Dormant.setState {state : ProfileState} {code : Option String} {r : ProfileRecord}
    (h : Dormant p rid t) (hs : t.setState n q state code = .ok (r, t'))
    (hq : state ≠ .active ∨ q ≠ p) : Dormant p rid t' := by
  refine ⟨?_, h.inactive.setState hs hq⟩
  obtain ⟨_, -, -, -, rfl⟩ := Tables.setState_ok hs
  exact h.keyed.modifyProfile

theorem Dormant.setRuntimeError {code : String} {r : ProfileRecord} (h : Dormant p rid t)
    (hs : t.setRuntimeError n q code = .ok (r, t')) : Dormant p rid t' := by
  refine ⟨?_, h.inactive.setRuntimeError hs⟩
  obtain ⟨_, -, -, rfl⟩ := Tables.setRuntimeError_ok hs
  exact h.keyed.modifyProfile

theorem Dormant.deleteLocal (h : Dormant p rid t) (hs : t.deleteLocal q = .ok ((), t')) :
    Dormant p rid t' := by
  rw [Tables.deleteLocal_ok hs]
  exact ⟨h.keyed.deleted, h.inactive.deleted⟩

/-- A creation whose draws are not those of the profile leaves it dormant. -/
theorem Dormant.insertPending {name : String} {draw : Draw} {m : NewProfileMaterial}
    {token : String} {r : ProfileRecord} (h : Dormant p rid t)
    (hm : newMaterial cipher name draw = .ok (m, token)) (hi : t.insertPending n m = .ok (r, t'))
    (hp : draw.profileId ≠ p) (hr : runtimeIdText draw.runtimeBytes ≠ rid) :
    Dormant p rid t' := by
  obtain ⟨hid, hrid, -⟩ := newMaterial_ok hm
  obtain ⟨hadm, -, rfl⟩ := Tables.insertPending_ok hi
  exact ⟨h.keyed.inserted (hid ▸ hp) (hrid ▸ hr), h.inactive.inserted⟩

/-- The record of another profile carries another runtime identifier. -/
theorem Dormant.ne_of_get (h : Dormant p rid t) (hq : q ≠ p) {r : ProfileRecord}
    (hr : t.get q = .ok r) : rid ≠ r.runtimeId.text := by
  obtain ⟨hmem, hid⟩ := Tables.mem_of_get hr
  intro he
  exact hq (hid ▸ (h.keyed r.toProfile hmem).mpr he.symm)

theorem not_mem_insert {u : Users} {e k : String} {x : Uuid} (h : k ∉ u) (hne : k ≠ e) :
    k ∉ u.insert e x := by
  rw [AList.mem_insert]
  exact fun hk => hk.elim hne h

/-- **A dormant profile stays dormant** whatever the coordinator does to the others. -/
theorem upheld_dormant : Upheld fun t _ => Dormant p rid t where
  crash := id
  erase _ := id
  insert _ h _ := h
  demote h hs ht := h.setState ht (Or.inl hs)
  note h ht := h.setRuntimeError ht
  discard h ht := h.deleteLocal ht

theorem admitted_dormant (hq : q ≠ p) : Admitted (fun t _ => Dormant p rid t) q where
  insert _ h _ := h
  promote h ht := h.setState ht (Or.inr hq)

/-- **An excluded profile stays out of Xray** whatever the coordinator does to the others. -/
theorem upheld_excluded : Upheld (Excluded p rid) where
  crash h := ⟨h.dormant, by simp⟩
  erase _ h := ⟨h.dormant, fun hm => h.absent (AList.mem_erase.mp hm).2⟩
  insert _ h hr := ⟨h.dormant, not_mem_insert h.absent fun he =>
    h.dormant.keyed.ne_of_active h.dormant.inactive hr he.symm⟩
  demote h hs ht := ⟨h.dormant.setState ht (Or.inl hs), h.absent⟩
  note h ht := ⟨h.dormant.setRuntimeError ht, h.absent⟩
  discard h ht := ⟨h.dormant.deleteLocal ht, h.absent⟩

theorem admitted_excluded (hq : q ≠ p) : Admitted (Excluded p rid) q where
  insert _ h hr := ⟨h.dormant, not_mem_insert h.absent (h.dormant.ne_of_get hq hr)⟩
  promote h ht := ⟨h.dormant.setState ht (Or.inr hq), h.absent⟩

theorem upheld_keyed : Upheld fun t _ => Keyed p rid t where
  crash := id
  erase _ := id
  insert _ h _ := h
  demote h _ ht := by
    obtain ⟨_, -, -, -, rfl⟩ := Tables.setState_ok ht
    exact h.modifyProfile
  note h ht := by
    obtain ⟨_, -, -, rfl⟩ := Tables.setRuntimeError_ok ht
    exact h.modifyProfile
  discard h ht := by
    rw [Tables.deleteLocal_ok ht]
    exact h.deleted

/-- A secret keeps leading to the one profile: only a creation adds lookups. -/
theorem upheld_secretOf : Upheld fun t _ => SecretOf cipher p secret t where
  crash := id
  erase _ := id
  insert _ h _ := h
  demote h _ ht := by
    obtain ⟨_, -, -, -, rfl⟩ := Tables.setState_ok ht
    exact h
  note h ht := by
    obtain ⟨_, -, -, rfl⟩ := Tables.setRuntimeError_ok ht
    exact h
  discard h ht := by
    rw [Tables.deleteLocal_ok ht]
    exact h.deleted

theorem admitted_secretOf (q : Uuid) : Admitted (fun t _ => SecretOf cipher p secret t) q where
  insert _ h _ := h
  promote h ht := by
    obtain ⟨_, -, -, -, rfl⟩ := Tables.setState_ok ht
    exact h

/-- **What later actions may not do**: enable the profile, or draw its identifiers again. -/
structure Elsewhere (p : Uuid) (rid : String) (actions : List Action) : Prop where
  no_enable : ∀ a ∈ actions, a ≠ .call (.enable p)
  fresh : ∀ d ∈ drawsOf actions, d.profileId ≠ p ∧ runtimeIdText d.runtimeBytes ≠ rid

theorem mem_drawsOf {actions : List Action} {name : String} {d : Draw}
    (h : .call (.create name d) ∈ actions) : d ∈ drawsOf actions :=
  List.mem_filterMap.mpr ⟨_, h, rfl⟩

/-- Actions elsewhere keep a dormant profile dormant. -/
theorem Elsewhere.admitted_dormant {env : Env} {actions : List Action}
    (h : Elsewhere p rid actions) :
    ∀ a ∈ actions, a.AdmittedBy env fun t _ => Dormant p rid t := by
  intro a ha
  cases a with
  | xrayCrash => trivial
  | call c =>
    cases c with
    | create name d =>
      obtain ⟨hp, hr⟩ := h.fresh d (mem_drawsOf ha)
      exact ⟨EzOpenPN.admitted_dormant hp, fun _ _ _ _ _ _ _ _ hd hm hi =>
        hd.insertPending hm hi hp hr⟩
    | enable q => exact EzOpenPN.admitted_dormant fun he => h.no_enable _ ha (by rw [he])
    | disable q => trivial
    | delete q => trivial
    | reconcile => trivial

/-- Actions elsewhere keep an excluded profile excluded. -/
theorem Elsewhere.admitted_excluded {env : Env} {actions : List Action}
    (h : Elsewhere p rid actions) : ∀ a ∈ actions, a.AdmittedBy env (Excluded p rid) := by
  intro a ha
  cases a with
  | xrayCrash => trivial
  | call c =>
    cases c with
    | create name d =>
      obtain ⟨hp, hr⟩ := h.fresh d (mem_drawsOf ha)
      exact ⟨EzOpenPN.admitted_excluded hp, fun _ _ _ _ _ _ _ _ hd hm hi =>
        ⟨hd.dormant.insertPending hm hi hp hr, hd.absent⟩⟩
    | enable q => exact EzOpenPN.admitted_excluded fun he => h.no_enable _ ha (by rw [he])
    | disable q => trivial
    | delete q => trivial
    | reconcile => trivial

/-- Actions that do not draw the secret again leave it to its profile. -/
theorem admittedBy_secretOf {env : Env} {actions : List Action}
    (h : ∀ d ∈ drawsOf actions, hysteriaDigest env.cipher (encodeUrlSecret d.hysteriaSecret) ≠
      hysteriaDigest env.cipher secret) :
    ∀ a ∈ actions, a.AdmittedBy env fun t _ => SecretOf env.cipher p secret t := by
  intro a ha
  cases a with
  | xrayCrash => trivial
  | call c =>
    cases c with
    | create name d =>
      refine ⟨admitted_secretOf _, fun t u n normalized m token r t' hs hm hi => ?_⟩
      obtain ⟨hadm, -, rfl⟩ := Tables.insertPending_ok hi
      refine hs.inserted fun he => h d (mem_drawsOf ha) ?_
      rw [← he, (newMaterial_ok hm).2.2]
      rfl
    | enable q => exact admitted_secretOf q
    | disable q => trivial
    | delete q => trivial
    | reconcile => trivial

end Invariants

/-! ### From a revocation on -/

section Revoked

variable {env : Env} {w : World} {p : Uuid} {rid : String} {secret : String}

/-- **What a secret finds is a stored profile that holds its digest.** -/
theorem findByHysteriaSecret_some {cipher : SecretCipher} {t : Tables} {r : ProfileRecord}
    (h : t.findByHysteriaSecret cipher secret = some r) : r.toProfile ∈ t.profiles ∧
      ∃ l ∈ t.lookups, l.kind = .hysteriaAuth ∧
        l.lookupDigest = hysteriaDigest cipher secret ∧ l.profileId = r.id := by
  rw [Tables.findByHysteriaSecret] at h
  split at h
  · exact absurd h (by simp)
  · rcases hv : hysteriaLookupValue secret with e | value
    · rw [hv] at h
      exact absurd h (by simp)
    · rw [hv] at h
      simp only [Option.bind_eq_bind, Option.bind_eq_some_iff, Option.pure_def] at h
      obtain ⟨l, hl, q, hq, k, -, hr⟩ := h
      obtain rfl := Option.some.inj hr
      have hlk := List.find?_some hl
      have hqid := List.find?_some hq
      simp only [decide_eq_true_eq] at hlk hqid
      have hvalue : value = asciiBytes "ezopenpn/hysteria-auth/v1:" ++ asciiBytes secret := by
        rw [hysteriaLookupValue] at hv
        split at hv
        · exact (Except.ok.inj hv).symm
        · exact absurd hv (by simp)
      refine ⟨List.mem_of_find?_eq_some hq, l, List.mem_of_find?_eq_some hl, hlk.1, ?_, hqid.symm⟩
      rw [hlk.2, hvalue]
      rfl

/-- **A profile without access**: it is excluded from Xray, and its secret leads to no other
profile. -/
def Denied (cipher : SecretCipher) (p : Uuid) (rid secret : String) (t : Tables) (u : Users) :
    Prop :=
  Excluded p rid t u ∧ SecretOf cipher p secret t

theorem upheld_denied {cipher : SecretCipher} : Upheld (Denied cipher p rid secret) :=
  upheld_excluded.and upheld_secretOf

/-- What is found by the secret of a denied profile is not active. -/
theorem Denied.not_active {cipher : SecretCipher} {t : Tables} {u : Users} {s : ProfileRecord}
    (h : Denied cipher p rid secret t u) (hs : t.findByHysteriaSecret cipher secret = some s) :
    s.state ≠ .active := by
  obtain ⟨hmem, l, hl, hk, hd, hid⟩ := findByHysteriaSecret_some hs
  exact h.1.dormant.inactive s.toProfile hmem (hid.symm.trans (h.2 l hl hk hd))

/-- **A revocation that returns denies access**: the profile is disabled, and the Xray that was
rebuilt from the active records does not hold it. -/
theorem wp_disable_denied (hk : Keyed p rid w.tables) (hs : SecretOf env.cipher p secret w.tables) :
    wp (disable env p) (fun _ v => Denied env.cipher p rid secret v.tables v.users)
      (fun _ _ => True) w := by
  have hknown : Keeps (Since w.history
      fun t _ => Keyed p rid t ∧ SecretOf env.cipher p secret t) (disable env p) :=
    (upheld_keyed.and upheld_secretOf).keeps_disable
  refine wp_mono (wp_and (wp_disable env w p) (hknown w (Since.start ⟨hk, hs⟩))) (fun _ v h => ?_) fun _ _ _ => trivial
  obtain ⟨⟨r, v₀, hget, hstate, -, -, -, -, -, hreb⟩, hsince⟩ := h
  obtain ⟨hk', hs'⟩ := hsince.now
  have hinactive : Inactive p v.tables := by
    intro q hq hid
    obtain ⟨hmem, hrid⟩ := Tables.mem_of_get hget
    obtain rfl := Tables.eq_of_id_eq hq hmem (hid.trans hrid.symm)
    simp [hstate]
  refine ⟨⟨⟨hk', hinactive⟩, fun hmem => ?_⟩, hs'⟩
  obtain ⟨u, hu⟩ := Option.isSome_iff_exists.mp (AList.lookup_isSome.mpr hmem)
  obtain ⟨a, ha, hact, he, -⟩ := hreb.sound _ u hu
  exact hk'.ne_of_active hinactive (mem_activeRecords.mpr ⟨Tables.mem_list.mp ha, hact⟩) he

/-- A deletion that returns denies access as well. -/
theorem wp_delete_denied (hk : Keyed p rid w.tables) (hs : SecretOf env.cipher p secret w.tables) :
    wp (delete env p) (fun _ v => Denied env.cipher p rid secret v.tables v.users)
      (fun _ _ => True) w := by
  -- the handler never returns
  have hhandler : ∀ (e : PyError) (v : World), wp
      (if e.kind = .profileRevocationFailed ∨ e.kind = .profileNotFound then raise e
        else do
          markError env p profileMaterialInvalid
          reconcileAfterError env
          raise ⟨.profileDeleteFailed, "profile deletion failed"⟩ : Py Unit)
      (fun _ v => Denied env.cipher p rid secret v.tables v.users) (fun _ _ => True) v := by
    intro e v
    split
    · exact (wp_raise _).mpr trivial
    · rw [wp_bind]
      refine wp_of_forall (fun _ x => ?_) fun _ _ => trivial
      rw [wp_bind]
      exact wp_of_forall (fun _ y => (wp_raise _).mpr trivial) fun _ _ => trivial
  rw [delete, wp_tryExcept, wp_bind]
  refine wp_mono (wp_disable_denied hk hs) (fun _ v hv => ?_) fun e v _ => hhandler e v
  refine wp_mono (upheld_denied.keeps_deleteLocal v (Since.start hv)) (fun _ _ h => h.now)
    fun e x _ => hhandler e x

end Revoked

/-! ### What the rows were generated from -/

/-- **Two draws that do not collide.** -/
structure Draw.Apart (d d' : Draw) : Prop where
  profileId : d.profileId ≠ d'.profileId
  runtimeId : runtimeIdText d.runtimeBytes ≠ runtimeIdText d'.runtimeBytes
  secret : d.hysteriaSecret ≠ d'.hysteriaSecret

theorem Draw.Apart.symm {d d' : Draw} (h : d.Apart d') : d'.Apart d :=
  ⟨h.profileId.symm, h.runtimeId.symm, h.secret.symm⟩

instance : Std.Symm Draw.Apart := ⟨fun _ _ h => h.symm⟩

/-- The profile identifiers, runtime identifiers and digests of the tables were drawn. -/
structure Generated (cipher : SecretCipher) (draws : List Draw) (t : Tables) : Prop where
  profiles : ∀ q ∈ t.profiles, ∃ d ∈ draws, q.id = d.profileId ∧
    q.runtimeId.text = runtimeIdText d.runtimeBytes
  lookups : ∀ l ∈ t.lookups, l.kind = .hysteriaAuth → ∃ d ∈ draws, l.profileId = d.profileId ∧
    l.lookupDigest = hysteriaDigest cipher (encodeUrlSecret d.hysteriaSecret)

section Generated

variable {cipher : SecretCipher} {draws : List Draw} {t : Tables}

theorem Generated.modifyProfile {q : Uuid} {f : Profile → Profile} {hid : ∀ p, (f p).id = p.id}
    {hrid : ∀ p, (f p).runtimeId = p.runtimeId} (h : Generated cipher draws t) :
    Generated cipher draws (t.modifyProfile q f hid hrid) := by
  refine ⟨fun s hs => ?_, h.lookups⟩
  obtain ⟨r, hr, rfl⟩ := Tables.mem_profiles_modifyProfile.mp hs
  obtain ⟨d, hd, hd'⟩ := h.profiles r hr
  refine ⟨d, hd, ?_⟩
  split
  · rw [hid, hrid]
    exact hd'
  · exact hd'

theorem upheld_generated : Upheld fun t _ => Generated cipher draws t where
  crash := id
  erase _ := id
  insert _ h _ := h
  demote h _ ht := by
    obtain ⟨_, -, -, -, rfl⟩ := Tables.setState_ok ht
    exact h.modifyProfile
  note h ht := by
    obtain ⟨_, -, -, rfl⟩ := Tables.setRuntimeError_ok ht
    exact h.modifyProfile
  discard h ht := by
    rw [Tables.deleteLocal_ok ht]
    exact ⟨fun s hs => h.profiles s (List.mem_of_mem_filter hs),
      fun l hl => h.lookups l (List.mem_of_mem_filter hl)⟩

theorem admitted_generated (q : Uuid) : Admitted (fun t _ => Generated cipher draws t) q where
  insert _ h _ := h
  promote h ht := by
    obtain ⟨_, -, -, -, rfl⟩ := Tables.setState_ok ht
    exact h.modifyProfile

/-- **The tables of a run were generated from its draws.** -/
theorem generated_runActions (env : Env) (actions : List Action) {w : World}
    (hw : w.tables = .empty) :
    Generated env.cipher (drawsOf actions) (runActions env actions w).tables := by
  refine (upheld_generated.runActions (fun a ha => ?_) (Since.start (w := w) ?_)).now
  · cases a with
    | xrayCrash => trivial
    | call c =>
      cases c with
      | create name d =>
        refine ⟨admitted_generated _, fun t u n normalized m token r t' h hm hi => ?_⟩
        obtain ⟨hid, hrid, hdig⟩ := newMaterial_ok hm
        obtain ⟨hadm, -, rfl⟩ := Tables.insertPending_ok hi
        refine ⟨fun s hs => ?_, fun l hl hk => ?_⟩
        · rcases List.mem_append.mp hs with hs | hs
          · exact h.profiles s hs
          · obtain rfl := List.mem_singleton.mp hs
            exact ⟨d, mem_drawsOf ha, hid, hrid⟩
        · rcases List.mem_append.mp hl with hl | hl
          · exact h.lookups l hl hk
          · simp only [Tables.newLookups, List.mem_cons, List.not_mem_nil, or_false] at hl
            rcases hl with rfl | rfl
            · exact absurd hk (by simp)
            · exact ⟨d, mem_drawsOf ha, hid, hdig⟩
      | enable q => exact admitted_generated q
      | disable q => trivial
      | delete q => trivial
      | reconcile => trivial
  · rw [hw]
    exact ⟨by simp [Tables.empty], by simp [Tables.empty]⟩

end Generated

/-! ### The run as a whole -/

/-- **The digest does not collide on the secrets of a run.** -/
def DigestsApart (cipher : SecretCipher) (draws : List Draw) : Prop :=
  ∀ d ∈ draws, ∀ d' ∈ draws, hysteriaDigest cipher (encodeUrlSecret d.hysteriaSecret) =
    hysteriaDigest cipher (encodeUrlSecret d'.hysteriaSecret) →
      encodeUrlSecret d.hysteriaSecret = encodeUrlSecret d'.hysteriaSecret

/-- **No resurrected access.** Once `disable` or `delete` has returned for a profile, then at
every later moment of every run that does not enable it again – whatever calls are made, fail,
or fail after taking effect, and whenever Xray crashes – Xray does not hold its runtime
identifier and its secret finds no active record. -/
theorem no_resurrected_access (env : Env) (w₀ w' : World) (before later : List Action) (draw : Draw)
    (hempty : w₀.tables = .empty) (hdraw : draw ∈ drawsOf before)
    (hreturned : (∃ res, disable env draw.profileId (runActions env before w₀) = (.ok res, w')) ∨
      delete env draw.profileId (runActions env before w₀) = (.ok (), w'))
    (hlater : ∀ a ∈ later, a ≠ .call (.enable draw.profileId))
    (hapart : (drawsOf before ++ drawsOf later).Pairwise Draw.Apart)
    (hdigests : DigestsApart env.cipher (drawsOf before ++ drawsOf later)) :
    Since w'.history (fun t u => runtimeIdText draw.runtimeBytes ∉ u ∧
      ∀ s, t.findByHysteriaSecret env.cipher (encodeUrlSecret draw.hysteriaSecret) = some s →
        s.state ≠ .active) (runActions env later w') := by
  have hgen := generated_runActions env before hempty
  have hbefore : ∀ d ∈ drawsOf before, ¬d.Apart draw → d = draw := fun d hd hnot => by
    by_contra hne
    exact hnot ((List.pairwise_append.mp hapart).1.forall hd hdraw hne)
  have hafter : ∀ d ∈ drawsOf later, d.Apart draw := fun d hd =>
    ((List.pairwise_append.mp hapart).2.2 draw hdraw d hd).symm
  have hk : Keyed draw.profileId (runtimeIdText draw.runtimeBytes)
      (runActions env before w₀).tables := by
    intro q hq
    obtain ⟨d, hd, hid, hrid⟩ := hgen.profiles q hq
    constructor
    · intro h
      rw [hrid, hbefore d hd fun ha => ha.profileId (hid.symm.trans h)]
    · intro h
      rw [hid, hbefore d hd fun ha => ha.runtimeId (hrid.symm.trans h)]
  have hs : SecretOf env.cipher draw.profileId (encodeUrlSecret draw.hysteriaSecret)
      (runActions env before w₀).tables := by
    intro l hl hlk hdig
    obtain ⟨d, hd, hid, hdig'⟩ := hgen.lookups l hl hlk
    have htext := hdigests d (by simp [hd]) draw (by simp [hdraw]) (hdig'.symm.trans hdig)
    rw [hid, hbefore d hd fun ha => ha.secret (encodeUrlSecret_injective htext)]
  have hdenied : Denied env.cipher draw.profileId (runtimeIdText draw.runtimeBytes)
      (encodeUrlSecret draw.hysteriaSecret) w'.tables w'.users := by
    rcases hreturned with ⟨res, h⟩ | h
    · exact (wp_iff.mp (wp_disable_denied hk hs)).1 res w' h
    · exact (wp_iff.mp (wp_delete_denied hk hs)).1 () w' h
  have hadm : ∀ a ∈ later, a.AdmittedBy env (Denied env.cipher draw.profileId
      (runtimeIdText draw.runtimeBytes) (encodeUrlSecret draw.hysteriaSecret)) := by
    have helse : Elsewhere draw.profileId (runtimeIdText draw.runtimeBytes) later :=
      ⟨hlater, fun d hd => ⟨(hafter d hd).profileId, (hafter d hd).runtimeId⟩⟩
    refine fun a ha => (helse.admitted_excluded a ha).and (admittedBy_secretOf (fun d hd he => ?_) a ha)
    have htext := hdigests d (by simp [hd]) draw (by simp [hdraw]) he
    exact (hafter d hd).secret (encodeUrlSecret_injective htext)
  obtain ⟨⟨new, hnew, hm⟩, hnow⟩ := upheld_denied.runActions hadm (Since.start hdenied)
  exact ⟨⟨new, hnew, fun m hmem => ⟨(hm m hmem).1.absent, fun s => (hm m hmem).not_active⟩⟩,
    hnow.1.absent, fun s => hnow.not_active⟩

/-- A profile of the sample installation is disabled; what follows is a creation, a crash of
Xray and a reconciliation. -/
theorem no_resurrected_access_sample : ∃ w', (∃ res, disable calmEnv (sampleDraw 1).profileId
      (runActions calmEnv [.call (.create "anna" (sampleDraw 1))] freshWorld) = (.ok res, w')) ∧
    Since w'.history (fun t u => runtimeIdText (sampleDraw 1).runtimeBytes ∉ u ∧
      ∀ s, t.findByHysteriaSecret calmEnv.cipher (encodeUrlSecret (sampleDraw 1).hysteriaSecret) =
        some s → s.state ≠ .active)
      (runActions calmEnv [.call (.create "bert" (sampleDraw 2)), .xrayCrash, .call .reconcile] w') := by
  have hok : ((disable calmEnv (sampleDraw 1).profileId sampleWorld).1.toOption).isSome = true := by
    decide +kernel
  rcases h : disable calmEnv (sampleDraw 1).profileId sampleWorld with ⟨e | res, w'⟩
  · rw [h] at hok
    exact absurd hok (by simp [Except.toOption])
  · refine ⟨w', ⟨res, h⟩, ?_⟩
    refine no_resurrected_access calmEnv freshWorld w' [.call (.create "anna" (sampleDraw 1))]
      [.call (.create "bert" (sampleDraw 2)), .xrayCrash, .call .reconcile] (sampleDraw 1) rfl
      (by simp [drawsOf]) (Or.inl ⟨res, h⟩) (by simp) ?_ (by unfold DigestsApart; decide +kernel)
    have hapart : (sampleDraw 1).Apart (sampleDraw 2) :=
      ⟨by decide, by decide +kernel, by decide⟩
    simpa [drawsOf] using hapart

end EzOpenPN
