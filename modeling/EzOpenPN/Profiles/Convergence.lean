import EzOpenPN.Profiles.Runs

/-!
# Reconciliation converges

With the runtimes reachable and behaving, one run of the reconciler turns whatever user set
Xray holds into the one the tables ask for, and a second run finds nothing left to do.

The user set is followed as a function from e-mails to user ids
(`EzOpenPN.Settled`): at that level the removal loop clears a set of keys, the two adding
loops overwrite one, and a restart is the empty function. What makes each call acceptable –
Xray rejects adding a held e-mail and removing an absent one – is that a loop meets every
key once, so the function at the key is still what it was when the loop began.

The same analysis says what a damaged record does. The dictionary of desired users is built
before Xray is asked anything, so one active record that does not decrypt ends the run with
the user set untouched (`EzOpenPN.reconcilerRun_of_damaged`), while `disable` passes over
such a record and serves the others.
-/

namespace EzOpenPN

open Prog

/-! ### A quiet world -/

/-- **A quiet world at given stores**: nothing goes wrong from here on, the tables are `t`
and the user set is the function `f`. -/
structure Settled (env : Env) (t : Tables) (f : String → Option Uuid) (w : World) : Prop where
  quiet : env.QuietFrom w.step
  tables : w.tables = t
  lookup : ∀ k, w.users.lookup k = f k

section Calls

variable {env : Env} {t : Tables} {f : String → Option Uuid} {w : World}
  {R : PyError → World → Prop}

theorem Env.QuietFrom.now {n : ℕ} (h : env.QuietFrom n) : env.faults n = Fault.none := h n le_rfl

theorem Env.QuietFrom.mono {n m : ℕ} (h : env.QuietFrom n) (hm : n ≤ m) : env.QuietFrom m :=
  fun i hi => h i (hm.trans hi)

theorem Settled.mem_iff (h : Settled env t f w) {k : String} : k ∈ w.users ↔ f k ≠ none := by
  rw [← h.lookup k, ne_eq, AList.lookup_eq_none, not_not]

/-- An accepted call, in a quiet world. -/
theorem Settled.call {call : RuntimeCall} {error : StatusCode → PyError}
    {effect : Users → Option Users} {g : String → Option Uuid} (h : Settled env t f w)
    {u : Users} (he : effect w.users = some u) (hg : ∀ k, u.lookup k = g k) :
    wp (runtimeCall env call error effect) (fun _ => Settled env t g) R w := by
  rw [wp_runtimeCall_quiet h.quiet.now]
  refine ⟨fun u' he' => ?_, fun hn => absurd (he.symm.trans hn) (by simp)⟩
  obtain rfl : u = u' := Option.some.inj (he.symm.trans he')
  exact ⟨h.quiet.mono (Nat.le_succ _), h.tables, hg⟩

theorem Settled.wp_waitReady (h : Settled env t f w) :
    wp (waitReady env) (fun _ => Settled env t f) R w := h.call rfl h.lookup

/-- A restart empties the user set. -/
theorem Settled.wp_restart (h : Settled env t f w) :
    wp (restart env) (fun _ => Settled env t fun _ => none) R w := h.call rfl AList.lookup_empty

theorem Settled.wp_kick (h : Settled env t f w) {k : String} (hk : matchesRuntimeId k = true) :
    wp (kick env k) (fun _ => Settled env t f) R w := by
  rw [kick, if_pos hk]
  exact h.call rfl h.lookup

/-- An addition is accepted unless a strict Xray holds the e-mail. -/
theorem Settled.wp_addUser (h : Settled env t f w) {k : String} (hk : matchesRuntimeId k = true)
    (x : Uuid) (hfree : env.strict = true → f k = none) :
    wp (addUser env k x) (fun _ => Settled env t (Function.update f k (some x))) R w := by
  rw [addUser, if_pos hk]
  refine h.call (u := w.users.insert k x) ?_ fun k' => ?_
  · rw [addUserEffect, if_neg]
    simp only [Bool.and_eq_true, decide_eq_true_eq, not_and]
    exact fun hs hmem => h.mem_iff.mp hmem (hfree hs)
  · by_cases hkk : k' = k
    · subst hkk
      rw [AList.lookup_insert, Function.update_self]
    · rw [AList.lookup_insert_ne hkk, Function.update_of_ne hkk, h.lookup]

/-- A removal is accepted unless a strict Xray does not hold the e-mail. -/
theorem Settled.wp_removeUser (h : Settled env t f w) {k : String} (hk : matchesRuntimeId k = true)
    (hheld : env.strict = true → f k ≠ none) :
    wp (removeUser env k) (fun _ => Settled env t (Function.update f k none)) R w := by
  rw [removeUser, if_pos hk]
  refine h.call (u := w.users.erase k) ?_ fun k' => ?_
  · rw [removeUserEffect, if_neg]
    simp only [Bool.and_eq_true, Bool.not_eq_eq_eq_not, Bool.not_true, decide_eq_false_iff_not,
      not_and, not_not]
    exact fun hs => h.mem_iff.mpr (hheld hs)
  · by_cases hkk : k' = k
    · subst hkk
      rw [AList.lookup_erase, Function.update_self]
    · rw [AList.lookup_erase_ne hkk, Function.update_of_ne hkk, h.lookup]

/-- The listing of a quiet world: each held e-mail once. -/
theorem Settled.wp_listUsers (h : Settled env t f w) :
    wp (listUsers env) (fun l w' => Settled env t f w' ∧ w'.users = w.users ∧ l = w.users.keys)
      R w := by
  rw [listUsers, wp_bind, wp_runtimeCall_quiet h.quiet.now]
  refine ⟨fun u hu => ?_, fun hn => absurd hn (by simp)⟩
  obtain rfl : w.users = u := Option.some.inj hu
  rw [wp_bind, wp_read, wp_pure]
  exact ⟨⟨h.quiet.mono (Nat.le_succ _), h.tables, h.lookup⟩, rfl, rfl⟩

end Calls

/-! ### The loops -/

section Loops

variable {env : Env} {t : Tables} {f : String → Option Uuid} {w : World}
  {R : PyError → World → Prop}

/-- **The removal loop clears its keys.** -/
theorem Settled.removeEach (h : Settled env t f w) {ks : List String} (hnd : ks.Nodup)
    (hform : ∀ k ∈ ks, matchesRuntimeId k = true) (hheld : ∀ k ∈ ks, f k ≠ none) :
    wp (forEach ks fun k => removeUser env k)
      (fun _ => Settled env t fun k => if k ∈ ks then none else f k) R w := by
  refine wp_forEach_prefix (I := fun pre => Settled env t fun k => if k ∈ pre then none else f k)
    ?_ (by simpa using h)
  rintro pre k post rfl v hv
  have hk : k ∉ pre := fun hmem => (List.nodup_append.mp hnd).2.2 k hmem k (by simp) rfl
  refine wp_mono (hv.wp_removeUser (hform k (by simp)) fun _ => ?_) (fun _ v' hv' => ?_) fun _ _ h => h
  · rw [if_neg hk]
    exact hheld k (by simp)
  · convert hv' using 2
    rename_i k'
    by_cases hkk : k' = k <;> simp [hkk]

/-- **The adding loop overwrites its keys** with the entries of the dictionary. -/
theorem Settled.addEach (h : Settled env t f w) {desired : Users} {ks : List String}
    (hnd : ks.Nodup) (hform : ∀ k ∈ ks, matchesRuntimeId k = true) (hmem : ∀ k ∈ ks, k ∈ desired)
    (hfree : ∀ k ∈ ks, f k = none) :
    wp (forEach ks fun k => addDesired env desired k)
      (fun _ => Settled env t fun k => if k ∈ ks then desired.lookup k else f k) R w := by
  refine wp_forEach_prefix
    (I := fun pre => Settled env t fun k => if k ∈ pre then desired.lookup k else f k)
    ?_ (by simpa using h)
  rintro pre k post rfl v hv
  have hk : k ∉ pre := fun hmem => (List.nodup_append.mp hnd).2.2 k hmem k (by simp) rfl
  obtain ⟨x, hx⟩ := Option.isSome_iff_exists.mp (AList.lookup_isSome.mpr (hmem k (by simp)))
  rw [addDesired, hx]
  refine wp_mono (hv.wp_addUser (hform k (by simp)) x fun _ => ?_) (fun _ v' hv' => ?_) fun _ _ h => h
  · rw [if_neg hk]
    exact hfree k (by simp)
  · convert hv' using 2
    rename_i k'
    by_cases hkk : k' = k
    · subst hkk
      simp [hx]
    · simp [hkk]

end Loops

/-! ### The two differences -/

section Differences

variable {desired : Users} {current : List String} {k : String}

theorem mem_missingIds : k ∈ missingIds desired current ↔ k ∈ desired ∧ k ∉ current := by
  simp [missingIds, sortedTexts, AList.mem_keys]

theorem mem_extraIds : k ∈ extraIds desired current ↔ k ∈ current ∧ k ∉ desired := by
  simp [extraIds, sortedTexts, AList.mem_keys]

theorem nodup_missingIds : (missingIds desired current).Nodup :=
  (List.perm_insertionSort _ _).nodup_iff.mpr (desired.keys_nodup.filter _)

theorem nodup_extraIds (h : current.Nodup) : (extraIds desired current).Nodup :=
  (List.perm_insertionSort _ _).nodup_iff.mpr (h.filter _)

end Differences

/-- The user set the tables ask for: the stored user id of each active record, under its
runtime identifier. -/
def Exact (cipher : SecretCipher) (t : Tables) (users : Users) : Prop :=
  ∀ k u, users.lookup k = some u ↔
    ∃ r ∈ activeRecords t, r.runtimeId.text = k ∧ storedUserId cipher r = some u

/-- An exact user set holds the identifiers of the active records that decrypt. -/
theorem Exact.mem_iff {cipher : SecretCipher} {t : Tables} {users : Users} {k : String}
    (h : Exact cipher t users) : k ∈ users ↔
      ∃ r ∈ activeRecords t, r.runtimeId.text = k ∧ ∃ u, storedUserId cipher r = some u := by
  rw [← AList.lookup_isSome, Option.isSome_iff_exists]
  constructor
  · rintro ⟨u, hu⟩
    obtain ⟨r, hr, hk, hs⟩ := (h k u).mp hu
    exact ⟨r, hr, hk, u, hs⟩
  · rintro ⟨r, hr, hk, u, hs⟩
    exact ⟨u, (h k u).mpr ⟨r, hr, hk, hs⟩⟩

section Run

variable {env : Env} {t : Tables} {f : String → Option Uuid} {w : World} {desired : Users}
  {R : PyError → World → Prop}

/-- The dictionary is the user set the tables ask for. -/
theorem exact_desiredUsers (h : desiredUsers env.cipher (activeRecords t) ∅ = .ok desired) :
    Exact env.cipher t desired := by
  have hnd := activeRecords_runtimeId_nodup t
  intro k u
  constructor
  · intro hk
    have hmem : k ∈ desired := AList.lookup_isSome.mp (by rw [hk]; rfl)
    obtain ⟨r, hr, rfl⟩ := (mem_desiredUsers h hnd).mp hmem
    exact ⟨r, hr, rfl, by rw [← desiredUsers_lookup h hnd r hr, hk]⟩
  · rintro ⟨r, hr, rfl, hu⟩
    rw [desiredUsers_lookup h hnd r hr, hu]

/-- **What the changes of a run leave**: the dictionary, except that an identifier held
before under another user id keeps it as long as nothing had to be removed. -/
theorem Settled.wp_applyDifference (h : Settled env t f w) {current : List String}
    (hd : desiredUsers env.cipher (activeRecords t) ∅ = .ok desired) (hnd : current.Nodup)
    (hcur : ∀ k, k ∈ current ↔ f k ≠ none) (hform : ∀ k ∈ current, matchesRuntimeId k = true) :
    wp (applyDifference env (activeRecords t) desired current)
      (fun res w' => res = { added := missingIds desired current
                             removed := extraIds desired current
                             restarted := !(extraIds desired current).isEmpty } ∧
        Settled env t (fun k => if k ∈ desired then
          if extraIds desired current = [] ∧ k ∈ current then f k else desired.lookup k
          else none) w') R w := by
  have hids := activeRecords_runtimeId_nodup t
  have hdform : ∀ k ∈ desired, matchesRuntimeId k = true := by
    intro k hk
    obtain ⟨r, -, rfl⟩ := (mem_desiredUsers hd hids).mp hk
    exact r.runtimeId.matches_text
  have hend : (extraIds desired current).Nodup := nodup_extraIds hnd
  have hremoved := h.removeEach (R := R) hend (fun k hk => hform k (mem_extraIds.mp hk).1)
    fun k hk => (hcur k).mp (mem_extraIds.mp hk).1
  rw [applyDifference, wp_bind]
  refine wp_mono hremoved (fun _ v hv => ?_) fun _ _ h => h
  by_cases hextra : extraIds desired current = []
  · -- nothing had to be removed: what is missing is added
    have hsub : ∀ k ∈ current, k ∈ desired := fun k hk => by
      by_contra hno
      exact absurd (mem_extraIds.mpr ⟨hk, hno⟩) (by simp [hextra])
    rw [if_neg (by simp [hextra]), wp_bind]
    refine wp_mono (hv.addEach nodup_missingIds (fun k hk => hdform k (mem_missingIds.mp hk).1)
      (fun k hk => (mem_missingIds.mp hk).1) fun k hk => ?_) (fun _ v' hv' => (wp_pure _).mpr ⟨rfl, ?_⟩)
      fun _ _ h => h
    · have hno := (mem_missingIds.mp hk).2
      rw [hcur, not_not] at hno
      simp [hextra, hno]
    · convert hv' using 2 with k
      by_cases hk : k ∈ desired
      · by_cases hc : k ∈ current <;> simp [hk, hc, hextra, mem_missingIds]
      · have hno : f k = none := by
          by_contra hf
          exact hk (hsub k ((hcur k).mpr hf))
        simp [hk, hextra, mem_missingIds, hno]
  · -- something was removed: Xray restarts, and every active record is added again
    rw [if_pos (by simpa using hextra), wp_bind]
    refine wp_mono hv.wp_restart (fun _ v hv => ?_) fun _ _ h => h
    rw [wp_bind]
    refine wp_mono hv.wp_waitReady (fun _ v hv => ?_) fun _ _ h => h
    rw [wp_bind, ← forEach_map (fun r : ProfileRecord => r.runtimeId.text)]
    have hmap : ∀ k, k ∈ (activeRecords t).map (fun r => r.runtimeId.text) ↔ k ∈ desired := by
      intro k
      rw [mem_desiredUsers hd hids, List.mem_map]
    have hmnd : ((activeRecords t).map fun r => r.runtimeId.text).Nodup := by
      have := hids.map RuntimeId.text_injective
      rwa [List.map_map] at this
    refine wp_mono (hv.addEach hmnd (fun k hk => hdform k ((hmap k).mp hk))
      (fun k hk => (hmap k).mp hk) fun _ _ => rfl) (fun _ v' hv' => (wp_pure _).mpr ⟨rfl, ?_⟩)
      fun _ _ h => h
    convert hv' using 2 with k
    by_cases hk : k ∈ desired
    · rw [if_pos hk, if_neg (by simp [hextra]), if_pos ((hmap k).mpr hk)]
    · rw [if_neg hk, if_neg fun hm => hk ((hmap k).mp hm)]

/-- **What a run does in a quiet world** once the material of every active record decrypts. -/
theorem wp_reconcilerRun_quiet (hquiet : env.QuietFrom w.step)
    (hform : ∀ k ∈ w.users, matchesRuntimeId k = true)
    (hd : desiredUsers env.cipher (activeRecords w.tables) ∅ = .ok desired) :
    wp (reconcilerRun env)
      (fun res w' => res = { added := missingIds desired w.users.keys
                             removed := extraIds desired w.users.keys
                             restarted := !(extraIds desired w.users.keys).isEmpty } ∧
        Settled env w.tables (fun k => if k ∈ desired then
          if extraIds desired w.users.keys = [] ∧ k ∈ w.users.keys then w.users.lookup k
          else desired.lookup k else none) w') R w := by
  have h : Settled env w.tables w.users.lookup w := ⟨hquiet, rfl, fun _ => rfl⟩
  rw [reconcilerRun, wp_tryExcept, wp_bind, wp_repositoryList, wp_bind, wp_ofExcept]
  refine ⟨fun d hd' => ?_, fun e he => absurd (hd.symm.trans he) (by simp)⟩
  obtain rfl : desired = d := Except.ok.inj (hd.symm.trans hd')
  rw [wp_bind]
  refine wp_mono h.wp_listUsers (fun l v hv => ?_) fun _ _ h => h
  obtain ⟨hv, -, rfl⟩ := hv
  refine wp_mono (hv.wp_applyDifference hd w.users.keys_nodup (fun k => ?_) hform)
    (fun _ _ h => h) fun _ _ h => h
  rw [← AList.mem_keys, h.mem_iff]

/-- **A run over an exact user set finds nothing to do.** -/
theorem reconcilerRun_of_exact (hquiet : env.QuietFrom w.step)
    (hd : desiredUsers env.cipher (activeRecords w.tables) ∅ = .ok desired)
    (hexact : Exact env.cipher w.tables w.users) :
    ∃ w', reconcilerRun env w = (.ok ⟨[], [], false, none⟩, w') ∧ w'.tables = w.tables ∧
      w'.users = w.users := by
  have hsame : ∀ k, k ∈ desired ↔ k ∈ w.users := fun k => by
    rw [(exact_desiredUsers hd).mem_iff, hexact.mem_iff]
  have hmissing : missingIds desired w.users.keys = [] := by
    refine List.eq_nil_iff_forall_not_mem.mpr fun k hk => ?_
    obtain ⟨hin, hout⟩ := mem_missingIds.mp hk
    exact hout (AList.mem_keys.mp ((hsame k).mp hin))
  have hextra : extraIds desired w.users.keys = [] := by
    refine List.eq_nil_iff_forall_not_mem.mpr fun k hk => ?_
    obtain ⟨hin, hout⟩ := mem_extraIds.mp hk
    exact hout ((hsame k).mpr (AList.mem_keys.mpr hin))
  have h : Settled env w.tables w.users.lookup w := ⟨hquiet, rfl, fun _ => rfl⟩
  have hrun : wp (reconcilerRun env) (fun res w' => res = ⟨[], [], false, none⟩ ∧
      w'.tables = w.tables ∧ w'.users = w.users) (fun _ _ => False) w := by
    rw [reconcilerRun, wp_tryExcept, wp_bind, wp_repositoryList, wp_bind, wp_ofExcept]
    refine ⟨fun d hd' => ?_, fun e he => absurd (hd.symm.trans he) (by simp)⟩
    obtain rfl : desired = d := Except.ok.inj (hd.symm.trans hd')
    rw [wp_bind]
    refine wp_mono h.wp_listUsers (fun l v hv => ?_) fun _ _ h => h
    obtain ⟨hv, husers, rfl⟩ := hv
    rw [applyDifference, hextra, hmissing]
    simp only [forEach, wp_bind, wp_ret, List.isEmpty_nil, Bool.not_true, Bool.false_eq_true,
      if_false, wp_pure]
    exact ⟨trivial, hv.tables, husers⟩
  obtain ⟨res, w', hrun, rfl, ht, hu⟩ := exists_ok_of_wp hrun
  exact ⟨w', hrun, ht, hu⟩

/-- A run over a damaged active record touches nothing: the dictionary comes first. -/
theorem reconcilerRun_of_damaged
    (h : ¬∀ r ∈ activeRecords w.tables, ∃ u, storedUserId env.cipher r = some u) :
    reconcilerRun env w = (.ok { errorCode := some reconcileFailed }, w) := by
  have hd : ∃ e, desiredUsers env.cipher (activeRecords w.tables) ∅ = .error e := by
    rcases hd : desiredUsers env.cipher (activeRecords w.tables) ∅ with e | d
    · exact ⟨e, rfl⟩
    · exact absurd (desiredUsers_isOk.mp ⟨d, hd⟩) h
  obtain ⟨e, hd⟩ := hd
  have hbody : wp (reconcilerRun env)
      (fun res w' => res = { errorCode := some reconcileFailed } ∧ w' = w) (fun _ _ => False) w := by
    rw [reconcilerRun, wp_tryExcept, wp_bind, wp_repositoryList, wp_bind, wp_ofExcept]
    refine ⟨fun d hd' => absurd (hd.symm.trans hd') (by simp), fun _ _ => ?_⟩
    exact (wp_pure _).mpr ⟨rfl, rfl⟩
  obtain ⟨res, w', hrun, rfl, rfl⟩ := exists_ok_of_wp hbody
  exact hrun

end Run

/-! ### A sample installation -/

/-- A cipher for concrete runs: an AEAD that authenticates with a constant tag, and a digest
that keeps the last bytes of its message. -/
def sampleCipher : SecretCipher where
  aead :=
    { encrypt := fun _ nonce value _ => nonce ++ value ++ List.replicate 16 0
      decrypt := fun _ blob _ =>
        if blob.length < 40 ∨ (blob.drop (blob.length - 16)).any (· ≠ 0) then none
        else some ((blob.take (blob.length - 16)).drop 24) }
  hmac := fun _ message => (message.reverse ++ List.replicate 32 0).take 32
  masterKey := List.replicate 32 7
  masterKey_length := length_sampleKey

/-- A link configuration for concrete runs. -/
def sampleLinks : TransportLinkConfig where
  host := ⟨192, 0, 2, 1⟩
  realityPublicKey := "key"
  realityShortId := "ab"
  hysteriaObfsPassword := "obfs"
  publicPort := 443
  panelPort := 8443
  realityPublicKey_valid := by decide
  hysteriaObfsPassword_valid := by decide
  realityShortId_valid := by decide
  publicPort_valid := by decide
  panelPort_valid := by decide

/-- An installation over a strict Xray, with the given faults. -/
def sampleEnv (faults : ℕ → Fault) : Env where
  cipher := sampleCipher
  links := sampleLinks
  control := fun c => c.toNat < 32
  strict := true
  faults := faults
  clock := fun n => n
  reconciler := true
  runtimeHealth := true

/-- An installation where nothing goes wrong. -/
def calmEnv : Env := sampleEnv fun _ => Fault.none

/-- The draws of a concrete creation. -/
def sampleDraw (n : UInt8) : Draw where
  profileId := ⟨List.replicate 16 n, by simp⟩
  userId := ⟨List.replicate 16 (n + 64), by simp⟩
  hysteriaSecret := List.replicate 32 n
  subscriptionToken := List.replicate 32 (n + 128)
  runtimeBytes := List.replicate 17 n
  profileKey := List.replicate 32 n
  keyNonce := List.replicate 24 0
  userIdNonce := List.replicate 24 1
  hysteriaNonce := List.replicate 24 2
  tokenNonce := List.replicate 24 3

/-- A fresh installation. -/
def freshWorld : World := ⟨.empty, ∅, initialHealth, 0, []⟩

/-- An installation with one active profile. -/
def sampleWorld : World :=
  runActions calmEnv [.call (.create "anna" (sampleDraw 1))] freshWorld

/-- An identifier of the generated form that belongs to no profile. -/
def strayId : String := "p_aaaaaaaaaaaaaaaaaaaaaaaaaa"

theorem calmEnv_quiet (n : ℕ) : calmEnv.QuietFrom n := fun _ _ => rfl

/-! ### Convergence -/

/-- **Reconciliation converges and is idempotent.** Whatever identifiers of the generated form
Xray holds, one run reports the two differences and leaves exactly the active records; a
second run reports nothing and changes nothing. -/
theorem reconcilerRun_converges (env : Env) (w : World) (hquiet : env.QuietFrom w.step)
    (hform : ∀ k ∈ w.users, matchesRuntimeId k = true)
    (hdecrypts : ∀ r ∈ activeRecords w.tables, ∃ u, storedUserId env.cipher r = some u)
    (hcarries : ∀ r ∈ activeRecords w.tables, ∀ u, w.users.lookup r.runtimeId.text = some u →
      storedUserId env.cipher r = some u) :
    ∃ res w' w'', reconcilerRun env w = (.ok res, w') ∧ res.errorCode = none ∧
      (res.added.Nodup ∧ res.added.Pairwise (· ≤ ·) ∧ ∀ k, k ∈ res.added ↔
        (∃ r ∈ activeRecords w.tables, r.runtimeId.text = k) ∧ k ∉ w.users) ∧
      (res.removed.Nodup ∧ res.removed.Pairwise (· ≤ ·) ∧ ∀ k, k ∈ res.removed ↔
        k ∈ w.users ∧ ¬∃ r ∈ activeRecords w.tables, r.runtimeId.text = k) ∧
      w'.tables = w.tables ∧ Exact env.cipher w.tables w'.users ∧
      reconcilerRun env w' = (.ok ⟨[], [], false, none⟩, w'') ∧
      w''.tables = w'.tables ∧ w''.users = w'.users := by
  obtain ⟨desired, hd⟩ := desiredUsers_isOk.mpr hdecrypts
  have hids := activeRecords_runtimeId_nodup w.tables
  obtain ⟨res, w', hrun, rfl, hset⟩ :=
    exists_ok_of_wp (wp_reconcilerRun_quiet hquiet hform hd)
  -- the function the run leaves is the dictionary: what was held and kept was right already
  have hlookup : ∀ k, w'.users.lookup k = desired.lookup k := by
    intro k
    rw [hset.lookup]
    split
    · rename_i hk
      split
      · rename_i hheld
        obtain ⟨r, hr, rfl⟩ := (mem_desiredUsers hd hids).mp hk
        obtain ⟨u, hu⟩ := Option.isSome_iff_exists.mp
          (AList.lookup_isSome.mpr (AList.mem_keys.mpr hheld.2))
        rw [hu, desiredUsers_lookup hd hids r hr, hcarries r hr u hu]
      · rfl
    · rename_i hk
      exact (AList.lookup_eq_none.mpr hk).symm
  have hexact : Exact env.cipher w.tables w'.users := fun k u => by
    rw [hlookup]
    exact exact_desiredUsers hd k u
  have hexact' : Exact env.cipher w'.tables w'.users := hset.tables.symm ▸ hexact
  obtain ⟨w'', hagain, ht, hu⟩ := reconcilerRun_of_exact hset.quiet (hset.tables.symm ▸ hd) hexact'
  refine ⟨_, w', w'', hrun, rfl, ⟨nodup_missingIds, ?_, fun k => ?_⟩,
    ⟨nodup_extraIds w.users.keys_nodup, ?_, fun k => ?_⟩, hset.tables, hexact, hagain, ht, hu⟩
  · exact List.pairwise_insertionSort _ _
  · rw [mem_missingIds, mem_desiredUsers hd hids, ← AList.mem_keys]
  · exact List.pairwise_insertionSort _ _
  · rw [mem_extraIds, mem_desiredUsers hd hids, ← AList.mem_keys]

/-- The sample installation with a stray user in place of its own. -/
def strayWorld : World := { sampleWorld with users := AList.singleton strayId (sampleDraw 2).userId }

/-- The stray user goes, the active profile comes back, and a second run is idle. -/
theorem reconcilerRun_converges_stray : ∃ res w' w'',
    reconcilerRun calmEnv strayWorld = (.ok res, w') ∧ res.errorCode = none ∧
      (res.added.Nodup ∧ res.added.Pairwise (· ≤ ·) ∧ ∀ k, k ∈ res.added ↔
        (∃ r ∈ activeRecords strayWorld.tables, r.runtimeId.text = k) ∧ k ∉ strayWorld.users) ∧
      (res.removed.Nodup ∧ res.removed.Pairwise (· ≤ ·) ∧ ∀ k, k ∈ res.removed ↔
        k ∈ strayWorld.users ∧ ¬∃ r ∈ activeRecords strayWorld.tables, r.runtimeId.text = k) ∧
      w'.tables = strayWorld.tables ∧ Exact calmEnv.cipher strayWorld.tables w'.users ∧
      reconcilerRun calmEnv w' = (.ok ⟨[], [], false, none⟩, w'') ∧
      w''.tables = w'.tables ∧ w''.users = w'.users := by
  have hfacts : ∀ r ∈ activeRecords strayWorld.tables,
      (storedUserId calmEnv.cipher r).isSome = true ∧
        strayWorld.users.lookup r.runtimeId.text = none := by
    decide +kernel
  refine reconcilerRun_converges calmEnv strayWorld (calmEnv_quiet _) ?_ ?_ ?_
  · intro k hk
    obtain rfl : k = strayId := List.mem_singleton.mp hk
    decide
  · exact fun r hr => Option.isSome_iff_exists.mp (hfacts r hr).1
  · intro r hr u hu
    rw [(hfacts r hr).2] at hu
    exact absurd hu (by simp)

/-! ### Damaged records -/

/-- **Access is served**: every user Xray holds is an active record's, and every active record
whose material decrypts is there. -/
def Served (cipher : SecretCipher) (t : Tables) (users : Users) : Prop :=
  (∀ k ∈ users, ∃ r ∈ activeRecords t, r.runtimeId.text = k) ∧
    ∀ r ∈ activeRecords t, (∃ u, storedUserId cipher r = some u) → r.runtimeId.text ∈ users

/-- **A run serves access exactly if no active record is damaged, or it was served before.**
One damaged record stops the run for all of them. -/
theorem reconcilerRun_served_iff (env : Env) (w : World) (hquiet : env.QuietFrom w.step)
    (hform : ∀ k ∈ w.users, matchesRuntimeId k = true) :
    Served env.cipher (reconcilerRun env w).2.tables (reconcilerRun env w).2.users ↔
      (∀ r ∈ activeRecords w.tables, ∃ u, storedUserId env.cipher r = some u) ∨
        Served env.cipher w.tables w.users := by
  by_cases hdecrypts : ∀ r ∈ activeRecords w.tables, ∃ u, storedUserId env.cipher r = some u
  · refine iff_of_true ?_ (Or.inl hdecrypts)
    obtain ⟨desired, hd⟩ := desiredUsers_isOk.mpr hdecrypts
    have hids := activeRecords_runtimeId_nodup w.tables
    obtain ⟨res, w', hrun, -, hset⟩ :=
      exists_ok_of_wp (wp_reconcilerRun_quiet hquiet hform hd)
    -- whatever user id it carries, an identifier is held after the run if it is desired
    have hmem : ∀ k, k ∈ w'.users ↔ k ∈ desired := by
      intro k
      rw [hset.mem_iff]
      by_cases hk : k ∈ desired
      · rw [if_pos hk]
        refine iff_of_true ?_ hk
        split
        · rename_i hheld
          exact fun hnone => AList.lookup_eq_none.mp hnone (AList.mem_keys.mpr hheld.2)
        · exact fun hnone => AList.lookup_eq_none.mp hnone hk
      · rw [if_neg hk]
        exact iff_of_false (by simp) hk
    rw [hrun, hset.tables]
    refine ⟨fun k hk => (mem_desiredUsers hd hids).mp ((hmem k).mp hk), fun r hr _ => ?_⟩
    exact (hmem _).mpr ((mem_desiredUsers hd hids).mpr ⟨r, hr, rfl⟩)
  · rw [reconcilerRun_of_damaged hdecrypts]
    constructor
    · exact Or.inr
    · rintro (h | h)
      · exact absurd h hdecrypts
      · exact h

/-- The sample installation with the key of its profile lost, and a stray user in Xray. -/
def damagedWorld : World :=
  { sampleWorld with
    tables := sampleWorld.tables.modifyProfile (sampleDraw 1).profileId
      (fun p => { p with wrappedProfileKey := none }) (fun _ => rfl) fun _ => rfl
    users := AList.singleton strayId (sampleDraw 2).userId }

theorem matches_damagedWorld : ∀ k ∈ damagedWorld.users, matchesRuntimeId k = true := by
  intro k hk
  obtain rfl : k = strayId := List.mem_singleton.mp hk
  decide

/-- **The stray user survives the run**: its only active record is damaged. -/
theorem reconcilerRun_not_served_damaged :
    calmEnv.QuietFrom damagedWorld.step ∧ (∀ k ∈ damagedWorld.users, matchesRuntimeId k = true) ∧
      (activeRecords damagedWorld.tables).any (fun r => (storedUserId calmEnv.cipher r).isNone) ∧
      ¬Served calmEnv.cipher (reconcilerRun calmEnv damagedWorld).2.tables
        (reconcilerRun calmEnv damagedWorld).2.users := by
  have hfacts : (activeRecords damagedWorld.tables).any
        (fun r => (storedUserId calmEnv.cipher r).isNone) = true ∧
      strayId ∈ (reconcilerRun calmEnv damagedWorld).2.users ∧
      ¬∃ r ∈ activeRecords (reconcilerRun calmEnv damagedWorld).2.tables,
        r.runtimeId.text = strayId := by
    decide +kernel
  refine ⟨calmEnv_quiet _, matches_damagedWorld, hfacts.1, fun h => ?_⟩
  exact hfacts.2.2 (h.1 strayId hfacts.2.1)

/-- The characterisation at the damaged installation. -/
theorem reconcilerRun_served_iff_damaged :
    Served calmEnv.cipher (reconcilerRun calmEnv damagedWorld).2.tables
        (reconcilerRun calmEnv damagedWorld).2.users ↔
      (∀ r ∈ activeRecords damagedWorld.tables, ∃ u, storedUserId calmEnv.cipher r = some u) ∨
        Served calmEnv.cipher damagedWorld.tables damagedWorld.users :=
  reconcilerRun_served_iff calmEnv damagedWorld (calmEnv_quiet _) matches_damagedWorld

end EzOpenPN
