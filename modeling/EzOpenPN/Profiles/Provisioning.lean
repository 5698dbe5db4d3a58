import EzOpenPN.Profiles.NoResurrection

/-!
# Provisioning is all or error

`create` and `enable` share their body: add the user to Xray, commit the `ACTIVE` state, build
the links. If it returns, the record is active and Xray acknowledged the very user id that
stands in the link, because both read the same stored material
(`EzOpenPN.wp_activate`).

If it raises, the failure may have come before or after the commit, and the user may be in
Xray although the addition was reported as failed. The compensation tries to remove it and may
fail at that; what it does achieve is the mark (`EzOpenPN.wp_compensate`): the record ends in
`ERROR`, or stays `DISABLED`, with the code of a failed addition. From there the profile is
dormant, and the first reconciliation that ends without an error takes whatever is left of it
out of Xray (`EzOpenPN.wp_reconcilerRun_sound`).
-/

namespace EzOpenPN

open Prog

/-! ### The user id in the link -/

/-- Unreserved text is quoted as itself. -/
theorem quote_of_unreserved {s : String} (h : ∀ c ∈ s.toList, isUnreserved c = true) :
    quote s = s := by
  have hmap : s.toList.flatMap quoteChar = s.toList := by
    generalize s.toList = l at h
    induction l with
    | nil => rfl
    | cons c l ih =>
      rw [List.flatMap_cons, ih fun d hd => h d (by simp [hd]), quoteChar, if_pos (h c (by simp))]
      rfl
  rw [quote, hmap, String.ofList_toList]

theorem isUnreserved_digitChar : ∀ n < 16, isUnreserved (Nat.digitChar n) = true := by decide

theorem isUnreserved_hex {b : Bytes} : ∀ c ∈ b.flatMap Uuid.hexByte, isUnreserved c = true := by
  intro c hc
  obtain ⟨x, -, hx⟩ := List.mem_flatMap.mp hc
  have hlt := x.toNat_lt
  simp only [Uuid.hexByte, List.mem_cons, List.not_mem_nil, or_false] at hx
  rcases hx with rfl | rfl
  · exact isUnreserved_digitChar _ (by omega)
  · exact isUnreserved_digitChar _ (by omega)

/-- The text of a UUID needs no quoting. -/
theorem quote_uuid (u : Uuid) : quote u.text = u.text := by
  refine quote_of_unreserved fun c hc => ?_
  rw [Uuid.text, String.toList_ofList, Uuid.chars] at hc
  simp only [List.mem_append, List.mem_cons] at hc
  rcases hc with (((h | rfl | h) | rfl | h) | rfl | h) | rfl | h
  all_goals first | exact isUnreserved_hex c h | decide

/-- **The link of a user id shows it**: the text starts with the scheme and the user id. -/
theorem buildVlessLink_userId (config : TransportLinkConfig) (u : Uuid) (label : String) :
    ∃ rest, buildVlessLink config u label = "vless://" ++ u.text ++ "@" ++ rest := by
  delta buildVlessLink
  rw [quote_uuid]
  exact ⟨_, by simp only [String.append_assoc]; rfl⟩

/-! ### The body of both operations -/

section Activate

variable {env : Env} {w : World} {r : ProfileRecord}

/-- **What the body leaves.** If it returns, the record is active and Xray acknowledged the user
id of the link; if it raises, the record is as it was or was made active. -/
theorem wp_activate (hget : w.tables.get r.id = .ok r) :
    wp (activate env r)
      (fun res v => v.tables.get r.id = .ok res.1 ∧ res.1.state = .active ∧
        res.1.runtimeId = r.runtimeId ∧ ∃ u, AckedSince w v (.addUser r.runtimeId.text u) ∧
          res.2.vlessLink = buildVlessLink env.links u res.1.name)
      (fun _ v => ∃ r', v.tables.get r.id = .ok r' ∧ r'.runtimeId = r.runtimeId ∧
        (r'.state = r.state ∨ r'.state = .active)) w := by
  rw [activate, wp_bind]
  refine wp_mono wp_addRecord (fun _ v₁ h₁ => ?_) fun _ v h => ⟨r, by rw [h.tables, hget], rfl, ?_⟩
  · obtain ⟨u, hu, hon, hack, -⟩ := h₁
    have hget₁ : v₁.tables.get r.id = .ok r := by rw [hon.tables, hget]
    rw [wp_bind]
    refine wp_mono wp_setState (fun a v h => ?_) fun _ v h => ⟨r, by rw [h.2.tables, hget₁], rfl, ?_⟩
    · obtain ⟨hset, -, -, new, hnew⟩ := h
      have hgeta := Tables.get_of_setState hset
      obtain ⟨r₀, hr₀, -, ha, -⟩ := Tables.setState_ok hset
      obtain rfl := Except.ok.inj (hget₁.symm.trans hr₀)
      rw [wp_bind, wp_ofExcept]
      refine ⟨fun links hl => (wp_pure _).mpr ?_, fun _ _ => ?_⟩
      · obtain ⟨u', hu', hlink⟩ := bundleForRecord_userId hl
        -- the committed row holds the material the addition was made from
        have hsame : storedUserId env.cipher a = storedUserId env.cipher r := by
          rw [ha]
          exact storedUserId_congr rfl rfl rfl
        obtain rfl : u = u' := Option.some.inj (hu.symm.trans (hsame.symm.trans hu'))
        refine ⟨hgeta, by rw [ha]; rfl, by rw [ha]; rfl, u, hack.extend ⟨_, hnew⟩, hlink⟩
      · exact ⟨a, hgeta, by rw [ha]; rfl, Or.inr (by rw [ha]; rfl)⟩
    · exact Or.inl rfl
  · exact Or.inl rfl

/-- The code of a failed addition passes the check of `set_runtime_error`. -/
theorem setRuntimeError_addFailed {t : Tables} {n : Time} {q : Uuid} (hg : t.get q = .ok r) :
    t.setRuntimeError n q xrayAddFailed =
      .ok (⟨Tables.runtimeErrorRow n xrayAddFailed r.toProfile, r.subscriptionLookupDigest⟩,
        t.modifyProfile q (Tables.runtimeErrorRow n xrayAddFailed) (fun _ => rfl) fun _ => rfl) := by
  have hcode : ¬(xrayAddFailed.length < 1 ∨ 64 < xrayAddFailed.length ∨
      xrayAddFailed.toList.filter (· ≠ '_') = [] ∨
      ¬(xrayAddFailed.toList.filter (· ≠ '_')).all Tables.isAlnum) := by
    decide
  rw [Tables.setRuntimeError]
  simp only [bind, Except.bind, hcode, if_false, hg, pure, Except.pure]

/-- A record that says that its addition failed. -/
def MarkedFailed (q : Uuid) (rid : RuntimeId) (t : Tables) : Prop :=
  ∃ r, t.get q = .ok r ∧ r.runtimeId = rid ∧ (r.state = .error ∨ r.state = .disabled) ∧
    r.lastErrorCode = some xrayAddFailed

/-- **`_mark_error` marks**, from every state the body can leave. -/
theorem wp_markError {q : Uuid} (hget : w.tables.get q = .ok r) {R : PyError → World → Prop} :
    wp (markError env q xrayAddFailed) (fun _ v => MarkedFailed q r.runtimeId v.tables) R w := by
  rw [markError, wp_suppress, wp_bind, wp_repositoryGet]
  refine ⟨fun r' hr' => ?_, fun e he => absurd (hget.symm.trans he) (by simp)⟩
  obtain rfl := Except.ok.inj (hget.symm.trans hr')
  by_cases hd : r.state = .disabled
  · rw [if_pos hd]
    refine wp_mono wp_setRuntimeError (fun s v h => ?_) fun e _ h => ?_
    · rw [setRuntimeError_addFailed hget] at h
      obtain ⟨-, ht⟩ := Prod.mk.inj (Except.ok.inj h)
      rw [← ht]
      exact ⟨_, Tables.get_modifyProfile_self hget, rfl, Or.inr hd, rfl⟩
    · exact absurd ((setRuntimeError_addFailed hget).symm.trans h.1) (by simp)
  · rw [if_neg hd]
    have hlegal : r.state = .error ∨ .error ∈ Tables.legalTransitions r.state := by
      cases hs : r.state with
      | pending => decide
      | active => decide
      | disabled => exact absurd hs hd
      | error => exact Or.inl rfl
    refine wp_mono wp_setState (fun s v h => ?_) fun e _ h => ?_
    · obtain ⟨r₀, hr₀, -, hs, -⟩ := Tables.setState_ok h.1
      obtain rfl := Except.ok.inj (hget.symm.trans hr₀)
      exact ⟨s, Tables.get_of_setState h.1, by rw [hs]; rfl, Or.inl (by rw [hs]; rfl),
        by rw [hs]; rfl⟩
    · exact absurd ((Tables.setState_of_legal hget hlegal).symm.trans h.1) (by simp)

/-- **The compensation marks the record**, whatever becomes of the removal and of the
reconciliation, and raises. -/
theorem wp_compensate {α : Type} {r' : ProfileRecord} {e : PyError}
    (hget : w.tables.get r.id = .ok r') :
    wp (compensate env r e : Py α) (fun _ _ => False)
      (fun e' v => e' = e ∧ MarkedFailed r.id r'.runtimeId v.tables) w := by
  rw [compensate, wp_bind, wp_suppress]
  suffices hrest : ∀ v : World, Onward w v →
      wp (markError env r.id xrayAddFailed >>= fun _ => reconcileAfterError env >>= fun _ =>
        (raise e : Py α)) (fun _ _ => False)
        (fun e' v => e' = e ∧ MarkedFailed r.id r'.runtimeId v.tables) v from
    wp_mono wp_removeUser (fun _ v h => hrest v h) fun _ v h => hrest v h
  intro v hv
  rw [wp_bind]
  refine wp_mono (wp_markError (by rw [hv.tables, hget])) (fun _ x hx => ?_) fun _ _ h => h
  rw [wp_bind]
  refine wp_mono wp_reconcileAfterError (fun _ y hy => (wp_raise _).mpr ⟨rfl, ?_⟩) fun _ _ h => h
  rw [hy]
  exact hx

/-- **A provisioning from the record just read**: active and acknowledged, or marked. -/
theorem wp_provision {e : PyError} (hget : w.tables.get r.id = .ok r) :
    wp (tryExcept (activate env r) fun _ => compensate env r e)
      (fun res v => v.tables.get r.id = .ok res.1 ∧ res.1.state = .active ∧
        res.1.runtimeId = r.runtimeId ∧ ∃ u, AckedSince w v (.addUser r.runtimeId.text u) ∧
          res.2.vlessLink = buildVlessLink env.links u res.1.name)
      (fun e' v => e' = e ∧ MarkedFailed r.id r.runtimeId v.tables) w := by
  rw [wp_tryExcept]
  refine wp_mono (wp_activate hget) (fun _ _ h => h) fun _ v h => ?_
  obtain ⟨r', hr', hrid, -⟩ := h
  exact wp_mono (wp_compensate hr') (fun _ _ h => h.elim) fun e' v hv => ⟨hv.1, hrid ▸ hv.2⟩

end Activate

/-! ### What a clean reconciliation leaves -/

/-- **After a reconciliation without an error Xray holds active records only**, under any
faults: either it was restarted and rebuilt, or there was nothing to remove. -/
theorem wp_reconcilerRun_sound (env : Env) (w : World) :
    wp (reconcilerRun env)
      (fun res v => res.errorCode = none → ∀ k ∈ v.users,
        ∃ r ∈ activeRecords v.tables, r.runtimeId.text = k) (fun _ _ => False) w := by
  have hJ : UserUpheld fun t u => ∀ k ∈ u, ∃ r ∈ activeRecords t, r.runtimeId.text = k := by
    refine ⟨fun _ k hk => absurd hk (by simp), fun e h k hk => h k (AList.mem_erase.mp hk).2, ?_⟩
    intro t u r x h hr k hk
    rw [AList.mem_insert] at hk
    rcases hk with rfl | hk
    · exact ⟨r, hr, rfl⟩
    · exact h k hk
  rw [reconcilerRun, wp_tryExcept]
  suffices hbody : wp (do
      let records ← repositoryList
      let active := records.filter fun r => r.state = .active
      let desired ← ofExcept (desiredUsers env.cipher active ∅)
      let current ← listUsers env
      applyDifference env active desired current)
      (fun _ v => ∀ k ∈ v.users, ∃ r ∈ activeRecords v.tables, r.runtimeId.text = k)
      (fun _ _ => True) w by
    refine wp_mono hbody (fun _ _ h _ => h) fun _ v _ => (wp_pure _).mpr fun h => ?_
    exact absurd h (by simp)
  rw [wp_bind, wp_repositoryList, wp_bind, wp_ofExcept]
  refine ⟨fun desired hd => ?_, fun _ _ => trivial⟩
  have hmem : ∀ k, k ∈ desired ↔ ∃ r ∈ activeRecords w.tables, r.runtimeId.text = k := fun k =>
    mem_desiredUsers hd (activeRecords_runtimeId_nodup _)
  rw [wp_bind, listUsers, wp_bind]
  refine wp_mono wp_runtimeCall_onward (fun _ v hv => ?_) fun _ _ _ => trivial
  have htables : v.tables = w.tables := hv.1.tables
  rw [wp_bind, wp_read, wp_pure, applyDifference, wp_bind]
  by_cases hextra : extraIds desired v.users.keys = []
  · -- what Xray held was desired, and only desired users are added to it
    rw [hextra, forEach, wp_ret, if_neg (by simp), wp_bind]
    have hnow : ∀ k ∈ v.users, ∃ r ∈ activeRecords v.tables, r.runtimeId.text = k := by
      intro k hk
      rw [htables, ← hmem]
      by_contra hno
      have : k ∈ extraIds desired v.users.keys := mem_extraIds.mpr ⟨AList.mem_keys.mp hk, hno⟩
      exact absurd this (by simp [hextra])
    have hloop : Keeps (fun x => Since v.history
        (fun t u => ∀ k ∈ u, ∃ r ∈ activeRecords t, r.runtimeId.text = k) x ∧ x.tables = w.tables)
        (forEach (missingIds desired v.users.keys) fun k => addDesired env desired k) := by
      refine Keeps.forEach fun k hk => ?_
      obtain ⟨r, hr, rfl⟩ := (hmem k).mp (mem_missingIds.mp hk).1
      exact hJ.keeps_addDesired hr desired
    exact wp_mono (hloop v ⟨Since.start hnow, htables⟩)
      (fun _ x hx => (wp_pure _).mpr hx.1.now) fun _ _ _ => trivial
  · have hremove : ∀ k, Keeps (fun x => x.tables = w.tables) (removeUser env k) := fun k x hx =>
      wp_mono wp_removeUser (fun _ _ h => h.tables.trans hx) fun _ _ h => h.tables.trans hx
    refine wp_mono (Keeps.forEach (fun k _ => hremove k) v htables) (fun _ x hx => ?_)
      fun _ _ _ => trivial
    rw [if_pos (by simpa using hextra), wp_bind]
    refine wp_mono wp_restart (fun _ y hy => ?_) fun _ _ _ => trivial
    have hempty : ∀ k ∈ y.users, ∃ r ∈ activeRecords y.tables, r.runtimeId.text = k := by
      rw [hy.2.2]
      exact fun k hk => absurd hk (by simp)
    rw [wp_bind]
    refine wp_mono (hJ.keeps_waitReady y ⟨Since.start hempty, hy.1.tables.trans hx⟩)
      (fun _ z hz => ?_) fun _ _ _ => trivial
    rw [wp_bind]
    refine wp_mono (Keeps.forEach (fun r hr => hJ.keeps_addDesired hr desired) z hz)
      (fun _ x hx => (wp_pure _).mpr hx.1.now) fun _ _ _ => trivial

/-! ### The two operations -/

/-- **A profile was provisioned**: its record is active, and Xray acknowledged the addition of
its runtime identifier with the user id that stands in the returned link. -/
def Provisioned (w w' : World) (p : Uuid) (res : ProfileResult) : Prop :=
  res.profileId = p ∧ ∃ r, w'.tables.get p = .ok r ∧ r.state = .active ∧
    res.runtimeId = r.runtimeId ∧ ∃ u links rest, AckedSince w w' (.addUser r.runtimeId.text u) ∧
      res.linkBundle = some links ∧ links.vlessLink = "vless://" ++ u.text ++ "@" ++ rest

/-- **A provisioning failed for good**: the record says so, and once a later reconciliation has
ended without an error, Xray does not hold the runtime identifier at any moment before the
profile is enabled again. -/
def Unprovisioned (env : Env) (w' : World) (p : Uuid) : Prop :=
  ∃ r, w'.tables.get p = .ok r ∧ (r.state = .error ∨ r.state = .disabled) ∧
    r.lastErrorCode = some xrayAddFailed ∧
    ∀ later, Elsewhere p r.runtimeId.text later → ∀ res v,
      reconcilerRun env (runActions env later w') = (.ok res, v) → res.errorCode = none →
      ∀ after, Elsewhere p r.runtimeId.text after →
        Since v.history (fun _ u => r.runtimeId.text ∉ u) (runActions env after v)

section Operations

variable {env : Env} {w : World}

/-- What marks a failed provisioning is enough to keep it out of Xray. -/
theorem MarkedFailed.unprovisioned {q : Uuid} {rid : RuntimeId}
    (h : MarkedFailed q rid w.tables) : Unprovisioned env w q := by
  obtain ⟨r, hget, rfl, hstate, hcode⟩ := h
  refine ⟨r, hget, hstate, hcode, fun later hlater res v hrun hnone after hafter => ?_⟩
  obtain ⟨hmem, hid⟩ := Tables.mem_of_get hget
  have hdormant : Dormant q r.runtimeId.text w.tables := by
    refine ⟨hid ▸ keyed_of_mem hmem, fun s hs hsid => ?_⟩
    obtain rfl := Tables.eq_of_id_eq hs hmem (hsid.trans hid.symm)
    rcases hstate with h | h <;> simp [h]
  have hlater' : Since w.history (fun t _ => Dormant q r.runtimeId.text t)
      (runActions env later w) :=
    upheld_dormant.runActions hlater.admitted_dormant (Since.start hdormant)
  have hv : Dormant q r.runtimeId.text v.tables :=
    ((wp_iff.mp (upheld_dormant.keeps_reconcilerRun _ hlater')).1 res v hrun).now
  have habsent : r.runtimeId.text ∉ v.users := fun hk => by
    obtain ⟨a, ha, he⟩ := (wp_iff.mp (wp_reconcilerRun_sound env _)).1 res v hrun hnone _ hk
    exact hv.keyed.ne_of_active hv.inactive ha he
  obtain ⟨⟨new, hnew, hm⟩, hnow⟩ := upheld_excluded.runActions hafter.admitted_excluded
    (Since.start ⟨hv, habsent⟩)
  exact ⟨⟨new, hnew, fun m hmem => (hm m hmem).absent⟩, hnow.absent⟩

/-- **What `enable` leaves.** -/
theorem wp_enable {p : Uuid} :
    wp (enable env p) (fun res v => Provisioned w v p res)
      (fun e v => e.kind = .profileEnableFailed → ∃ rid, MarkedFailed p rid v.tables) w := by
  -- both ways into the provisioning have just read the record
  have hmain : ∀ (r : ProfileRecord) v, (∃ new, v.history = new ++ w.history) →
      v.tables.get p = .ok r →
      wp (if r.state ≠ .pending ∧ r.state ≠ .disabled then
          raise ⟨.invalidProfileTransition, "profile cannot be enabled"⟩
        else (tryExcept (activate env r) fun _ =>
            compensate env r ⟨.profileEnableFailed, "profile enable failed"⟩) >>= fun result =>
          pure (profileResult result.1 none (some result.2)) : Py ProfileResult)
        (fun res v => Provisioned w v p res)
        (fun e v => e.kind = .profileEnableFailed → ∃ rid, MarkedFailed p rid v.tables) v := by
    intro r v hext hr
    have hid : r.id = p := (Tables.mem_of_get hr).2
    subst hid
    split
    · exact (wp_raise _).mpr fun h => absurd h (by simp)
    · rw [wp_bind]
      refine wp_mono (wp_provision hr) (fun res x h => ?_) fun e x h _ => ⟨_, h.2⟩
      obtain ⟨hget, hact, hrid, u, hack, hlink⟩ := h
      obtain ⟨rest, hrest⟩ := buildVlessLink_userId env.links u res.1.name
      refine (wp_pure _).mpr ⟨(Tables.mem_of_get hget).2, res.1, hget, hact, rfl, u, res.2, rest, ?_,
        rfl, hlink.trans hrest⟩
      rw [hrid]
      exact hack.of_later hext
  rw [enable, wp_bind, wp_repositoryGet]
  refine ⟨fun r hr => ?_, fun e he h => ?_⟩
  · split
    · rw [wp_bind]
      refine wp_mono wp_setState (fun r' v h => hmain r' v ?_ (Tables.get_of_setState h.1))
        fun e v h hk => ?_
      · obtain ⟨-, -, -, new, hnew⟩ := h
        exact ⟨_, hnew⟩
      · rcases Tables.setState_error h.1 with h' | h' <;> rw [h'] at hk <;> exact absurd hk (by simp)
    · exact hmain r w ⟨[], rfl⟩ hr
  · rw [Tables.get_error he] at h
    exact absurd h (by simp [Tables.notFound])

/-- **What `create` leaves.** -/
theorem wp_create {name : String} {draw : Draw} :
    wp (create env name draw) (fun res v => Provisioned w v draw.profileId res)
      (fun e v => e.kind = .profileProvisioningFailed →
        ∃ rid, MarkedFailed draw.profileId rid v.tables) w := by
  have hne : ∀ {k : ErrorKind} {e : PyError} {P : Prop}, e.kind = k →
      k ≠ .profileProvisioningFailed → e.kind = .profileProvisioningFailed → P :=
    fun h h' hk => absurd (h.symm.trans hk) h'
  rw [create, serviceCreate, wp_bind, wp_bind, wp_ofExcept]
  refine ⟨fun normalized _ => ?_, fun e he => hne (normalizeName_error he) (by simp)⟩
  rw [wp_bind, wp_ofExcept]
  refine ⟨fun mt hmt => ?_, fun e he => hne (newMaterial_error he) (by simp)⟩
  obtain ⟨m, token⟩ := mt
  have hid : m.profileId = draw.profileId := (newMaterial_ok hmt).1
  rw [wp_bind]
  refine wp_transaction.mpr ⟨fun pending t ht => ?_, fun e he => hne (Tables.insertPending_error he)
    (by simp)⟩
  obtain ⟨_, rfl, -⟩ := Tables.insertPending_ok ht
  have harr : Onward w (w.arrive env) := onward_arrive
  obtain ⟨new, hnew⟩ := harr.history
  rw [wp_pure, wp_bind, wp_repositoryGet]
  refine ⟨fun r hr => ?_, fun e he =>
    hne (k := .profileNotFound) (congrArg PyError.kind (Tables.get_error he)) (by simp)⟩
  have hrid : r.id = draw.profileId := (Tables.mem_of_get hr).2.trans hid
  rw [← hrid, wp_bind]
  refine wp_mono (wp_provision ?_) (fun res x h => ?_) fun e x h _ => ⟨_, h.2⟩
  · rw [hrid, ← hid]
    exact hr
  · obtain ⟨hget, hact, hridx, u, hack, hlink⟩ := h
    obtain ⟨rest, hrest⟩ := buildVlessLink_userId env.links u res.1.name
    refine (wp_pure _).mpr ⟨(Tables.mem_of_get hget).2, res.1, hget, hact, rfl, u, res.2, rest, ?_,
      rfl, hlink.trans hrest⟩
    rw [hridx]
    exact hack.of_later ⟨⟨.committed (.insertPending m.profileId), t, (w.arrive env).users⟩ :: new,
      by simp [hnew]⟩

end Operations

/-- **Provisioning is all or error.** Under any faults: if `create` or `enable` returns, the
record is active and Xray acknowledged the user id of the returned link; if it reports a failed
provisioning, the record is marked, and no later clean reconciliation leaves its runtime
identifier in Xray before the profile is enabled again. -/
theorem provisioning_all_or_error (env : Env) (w : World) :
    (∀ name draw res w', create env name draw w = (.ok res, w') →
      Provisioned w w' draw.profileId res) ∧
    (∀ name draw e w', create env name draw w = (.error e, w') →
      e.kind = .profileProvisioningFailed → Unprovisioned env w' draw.profileId) ∧
    (∀ p res w', enable env p w = (.ok res, w') → Provisioned w w' p res) ∧
    ∀ p e w', enable env p w = (.error e, w') → e.kind = .profileEnableFailed →
      Unprovisioned env w' p := by
  refine ⟨fun name draw res w' h => (wp_iff.mp wp_create).1 res w' h, fun name draw e w' h hk => ?_,
    fun p res w' h => (wp_iff.mp wp_enable).1 res w' h, fun p e w' h hk => ?_⟩
  · obtain ⟨rid, hmark⟩ := (wp_iff.mp wp_create).2 e w' h hk
    exact hmark.unprovisioned
  · obtain ⟨rid, hmark⟩ := (wp_iff.mp wp_enable).2 e w' h hk
    exact hmark.unprovisioned

/-! ### Provisionings that succeed and that fail -/

section Sample

/-- The kind of the error that a call raised. -/
def raisedKind {α : Type} : Except PyError α → Option ErrorKind
  | .error e => some e.kind
  | .ok _ => none

theorem exists_of_raisedKind {α : Type} {result : Except PyError α × World} {k : ErrorKind}
    (h : raisedKind result.1 = some k) : ∃ e w', result = (.error e, w') ∧ e.kind = k := by
  obtain ⟨e | a, w'⟩ := result
  · exact ⟨e, w', rfl, Option.some.inj h⟩
  · cases h

theorem exists_of_raisedKind_none {α : Type} {result : Except PyError α × World}
    (h : raisedKind result.1 = none) : ∃ a w', result = (.ok a, w') := by
  obtain ⟨e | a, w'⟩ := result
  · cases h
  · exact ⟨a, w', rfl⟩

/-- An installation where the answer of one call is lost and the next three calls fail. -/
def lostEnv (n : ℕ) : Env :=
  sampleEnv fun i => if i = n then ⟨false, .lost .deadlineExceeded⟩
    else if n < i ∧ i < n + 4 then ⟨false, .failed .unavailable⟩ else Fault.none

/-- **All four cases occur.** A creation and an enabling return where nothing goes wrong; where the
answer of the addition is lost and nothing can be undone, both raise with the user in Xray. -/
theorem provisioning_all_or_error_sample :
    (∃ res w', create calmEnv "anna" (sampleDraw 1) freshWorld = (.ok res, w') ∧
      Provisioned freshWorld w' (sampleDraw 1).profileId res) ∧
    (∃ e w', create (lostEnv 1) "anna" (sampleDraw 1) freshWorld = (.error e, w') ∧
      w'.users.keys ≠ [] ∧ Unprovisioned (lostEnv 1) w' (sampleDraw 1).profileId) ∧
    (∃ res w', enable calmEnv (sampleDraw 1).profileId revokedWorld = (.ok res, w') ∧
      Provisioned revokedWorld w' (sampleDraw 1).profileId res) ∧
    ∃ e w', enable (lostEnv 8) (sampleDraw 1).profileId revokedWorld = (.error e, w') ∧
      w'.users.keys ≠ [] ∧ Unprovisioned (lostEnv 8) w' (sampleDraw 1).profileId := by
  have hcreate : raisedKind (create calmEnv "anna" (sampleDraw 1) freshWorld).1 = none := by
    decide +kernel
  obtain ⟨hlost, hleft⟩ : raisedKind (create (lostEnv 1) "anna" (sampleDraw 1) freshWorld).1 =
      some .profileProvisioningFailed ∧
      (create (lostEnv 1) "anna" (sampleDraw 1) freshWorld).2.users.keys ≠ [] := by
    decide +kernel
  have henable : raisedKind (enable calmEnv (sampleDraw 1).profileId revokedWorld).1 = none := by
    decide +kernel
  obtain ⟨hlost', hleft'⟩ : raisedKind (enable (lostEnv 8) (sampleDraw 1).profileId revokedWorld).1 =
      some .profileEnableFailed ∧
      (enable (lostEnv 8) (sampleDraw 1).profileId revokedWorld).2.users.keys ≠ [] := by
    decide +kernel
  refine ⟨?_, ?_, ?_, ?_⟩
  · obtain ⟨res, w', h⟩ := exists_of_raisedKind_none hcreate
    exact ⟨res, w', h, (provisioning_all_or_error calmEnv freshWorld).1 _ _ _ _ h⟩
  · obtain ⟨e, w', h, hk⟩ := exists_of_raisedKind hlost
    rw [h] at hleft
    exact ⟨e, w', h, hleft,
      (provisioning_all_or_error (lostEnv 1) freshWorld).2.1 _ _ _ _ h hk⟩
  · obtain ⟨res, w', h⟩ := exists_of_raisedKind_none henable
    exact ⟨res, w', h, (provisioning_all_or_error calmEnv revokedWorld).2.2.1 _ _ _ h⟩
  · obtain ⟨e, w', h, hk⟩ := exists_of_raisedKind hlost'
    rw [h] at hleft'
    exact ⟨e, w', h, hleft',
      (provisioning_all_or_error (lostEnv 8) revokedWorld).2.2.2 _ _ _ h hk⟩

end Sample

end EzOpenPN
