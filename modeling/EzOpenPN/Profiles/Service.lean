import EzOpenPN.Integrations.Runtime

/-!
# The profile service

`ProfileService.create` draws the identifiers and the secrets of a new profile, encrypts
what has to be encrypted and stores the result as a pending profile. What it draws is not
its own to decide: an `EzOpenPN.Draw` holds every random value one call consumes, and the
call checks the lengths of the ones it asked for.

The runtime identifier is made from seventeen random bytes, and
`EzOpenPN.matchesRuntimeId_runtimeIdText` is the fact every consumer relies on: the text
has the form the two clients check.
-/

namespace EzOpenPN

open Prog

/-! ### Names -/

/-- `_normalize_name`, over the character database of the interpreter: `control c` is
`unicodedata.category(c).startswith("C")`. -/
def normalizeName (control : Char → Bool) (name : String) : Except PyError String :=
  let normalized := pyStrip name
  if normalized.length < 1 ∨ 64 < normalized.length then
    .error ⟨.invalidProfileName, "profile name must contain between 1 and 64 characters"⟩
  else if normalized.toList.any control then
    .error ⟨.invalidProfileName, "profile name must not contain control characters"⟩
  else .ok normalized

/-! ### Random values -/

/-- **Everything one creation draws**: two UUIDs, three random values, the profile key and
the nonces of the four encryptions. -/
structure Draw where
  profileId : Uuid
  userId : Uuid
  hysteriaSecret : Bytes
  subscriptionToken : Bytes
  runtimeBytes : Bytes
  profileKey : Bytes
  keyNonce : Bytes
  userIdNonce : Bytes
  hysteriaNonce : Bytes
  tokenNonce : Bytes

/-- `_random_exact`. -/
def randomExact (value : Bytes) (size : ℕ) : Except PyError { b : Bytes // b.length = size } :=
  if h : value.length = size then .ok ⟨value, h⟩
  else .error ⟨.valueError, "random provider returned an invalid byte count"⟩

theorem randomExact_ok {value : Bytes} {size : ℕ} {b : { b : Bytes // b.length = size }}
    (h : randomExact value size = .ok b) : b.val = value := by
  rw [randomExact] at h
  split at h
  · obtain rfl := Except.ok.inj h
    rfl
  · exact absurd h (by simp)

/-- `_runtime_id`, as a text. -/
def runtimeIdText (value : Bytes) : String :=
  "p_" ++ String.ofList (((BaseN.stripPad (BaseN.b32encode value)).map Char.toLower).take 26)

theorem isRuntimeChar_toLower : ∀ c ∈ BaseN.b32Alphabet, isRuntimeChar c.toLower = true :=
  List.forall_iff_forall_mem.mp (by decide)

/-- The unpadded base32 text of seventeen bytes: twenty-eight characters of the alphabet. -/
theorem stripPad_b32encode_seventeen {value : Bytes} (h : value.length = 17) :
    (BaseN.stripPad (BaseN.b32encode value)).length = 28 ∧
      ∀ c ∈ BaseN.stripPad (BaseN.b32encode value), c ∈ BaseN.b32Alphabet := by
  match value, h with
  | [a₀, a₁, a₂, a₃, a₄, b₀, b₁, b₂, b₃, b₄, c₀, c₁, c₂, c₃, c₄, d₀, d₁], _ =>
    have hlast := (BaseN.b32Group d₀.toNat d₁.toNat 0 0 0).take_sublist 4
    obtain ⟨u, hu, hlen, hmem⟩ : ∃ u : List Char, BaseN.b32encode
        [a₀, a₁, a₂, a₃, a₄, b₀, b₁, b₂, b₃, b₄, c₀, c₁, c₂, c₃, c₄, d₀, d₁] =
          u ++ List.replicate 4 '=' ∧ u.length = 28 ∧ ∀ c ∈ u, c ∈ BaseN.b32Alphabet := by
      refine ⟨BaseN.b32Group a₀.toNat a₁.toNat a₂.toNat a₃.toNat a₄.toNat ++
        (BaseN.b32Group b₀.toNat b₁.toNat b₂.toNat b₃.toNat b₄.toNat ++
        (BaseN.b32Group c₀.toNat c₁.toNat c₂.toNat c₃.toNat c₄.toNat ++
        (BaseN.b32Group d₀.toNat d₁.toNat 0 0 0).take 4)), ?_, ?_, ?_⟩
      · simp [BaseN.b32encode]
      · simp
      · intro c hc
        simp only [List.mem_append] at hc
        rcases hc with hc | hc | hc | hc
        · exact BaseN.mem_b32Group hc
        · exact BaseN.mem_b32Group hc
        · exact BaseN.mem_b32Group hc
        · exact BaseN.mem_b32Group (hlast.subset hc)
    have hpad : ∀ c ∈ u.getLast?, c ≠ '=' := by
      rintro c hc rfl
      exact absurd (hmem _ (List.mem_of_mem_getLast? hc)) (by decide)
    rw [hu, BaseN.stripPad_append_of_ne hpad]
    exact ⟨hlen, hmem⟩

/-- **Seventeen random bytes give an identifier of the form both clients check.** -/
theorem matchesRuntimeId_runtimeIdText {value : Bytes} (h : value.length = 17) :
    matchesRuntimeId (runtimeIdText value) = true := by
  obtain ⟨hlen, hmem⟩ := stripPad_b32encode_seventeen h
  have htext : (runtimeIdText value).toList =
      'p' :: '_' :: ((BaseN.stripPad (BaseN.b32encode value)).map Char.toLower).take 26 := by
    simp [runtimeIdText]
  rw [matchesRuntimeId, htext]
  simp only [Bool.and_eq_true, beq_iff_eq, List.all_eq_true]
  refine ⟨by simp [hlen], fun c hc => ?_⟩
  obtain ⟨c', hc', rfl⟩ := List.mem_map.mp (List.mem_of_mem_take hc)
  exact isRuntimeChar_toLower c' (hmem c' hc')

/-- `_runtime_id` of seventeen random bytes. -/
def runtimeIdOf (value : { b : Bytes // b.length = 17 }) : RuntimeId :=
  ⟨runtimeIdText value.val, matchesRuntimeId_runtimeIdText value.property⟩

/-! ### Creation -/

/-- The material of a new profile, from what was drawn for it. -/
def newMaterial (cipher : SecretCipher) (name : String) (draw : Draw) :
    Except PyError (NewProfileMaterial × String) := do
  let hysteriaSecret ← randomExact draw.hysteriaSecret 32
  let tokenBytes ← randomExact draw.subscriptionToken 32
  let runtimeBytes ← randomExact draw.runtimeBytes 17
  let subscriptionToken := encodeUrlSecret tokenBytes.val
  let hysteriaAuth := encodeUrlSecret hysteriaSecret.val
  let wrapped ← cipher.wrapProfileKey draw.profileId draw.keyNonce draw.profileKey
  let userIdCiphertext ← cipher.encryptProfileValue draw.profileKey draw.userIdNonce
    draw.userId.bytes (profileValueContext draw.profileId "user-id")
  let hysteriaSecretCiphertext ← cipher.encryptProfileValue draw.profileKey draw.hysteriaNonce
    hysteriaSecret.val (profileValueContext draw.profileId "hysteria-auth")
  let subscriptionTokenCiphertext ← cipher.encryptProfileValue draw.profileKey draw.tokenNonce
    (asciiBytes subscriptionToken) (profileValueContext draw.profileId "subscription-token")
  let hysteriaValue ← hysteriaLookupValue hysteriaAuth
  return (
    { profileId := draw.profileId
      name := name
      runtimeId := runtimeIdOf runtimeBytes
      wrappedProfileKey := wrapped
      userIdCiphertext := userIdCiphertext
      hysteriaSecretCiphertext := hysteriaSecretCiphertext
      subscriptionTokenCiphertext := subscriptionTokenCiphertext
      subscriptionLookupDigest := cipher.lookupDigest (asciiBytes subscriptionToken)
      hysteriaLookupDigest := cipher.lookupDigest hysteriaValue },
    subscriptionToken)

/-- `ProfileService.create`: the pending profile and its subscription token. -/
def serviceCreate (env : Env) (name : String) (draw : Draw) : Py (ProfileRecord × String) := do
  let normalized ← ofExcept (normalizeName env.control name)
  let (material, token) ← ofExcept (newMaterial env.cipher normalized draw)
  let record ← repositoryInsertPending env material
  return (record, token)

/-- What the material of a draw carries of it: the identifiers, and the digest of the
credential. -/
theorem newMaterial_ok {cipher : SecretCipher} {name : String} {draw : Draw}
    {m : NewProfileMaterial} {token : String} (h : newMaterial cipher name draw = .ok (m, token)) :
    m.profileId = draw.profileId ∧ m.runtimeId.text = runtimeIdText draw.runtimeBytes ∧
      m.hysteriaLookupDigest = cipher.lookupDigest (asciiBytes "ezopenpn/hysteria-auth/v1:" ++
        asciiBytes (encodeUrlSecret draw.hysteriaSecret)) := by
  simp only [newMaterial, Except.bind_eq_ok] at h
  obtain ⟨s, hs, _, _, r, hr, _, _, _, _, _, _, _, _, v, hv, hm⟩ := h
  have hm' := congrArg Prod.fst (Except.ok.inj hm)
  simp only at hm'
  have hs' : s.val = draw.hysteriaSecret := randomExact_ok hs
  have hr' : r.val = draw.runtimeBytes := randomExact_ok hr
  have hv' : v = asciiBytes "ezopenpn/hysteria-auth/v1:" ++
      asciiBytes (encodeUrlSecret draw.hysteriaSecret) := by
    rw [hs', hysteriaLookupValue] at hv
    split at hv
    · exact (Except.ok.inj hv).symm
    · exact absurd hv (by simp)
  subst hm'
  exact ⟨rfl, by simp [runtimeIdOf, RuntimeId.text, hr'], by rw [hv']⟩

theorem randomExact_error {value : Bytes} {size : ℕ} {e : PyError}
    (h : randomExact value size = .error e) : e.kind = .valueError := by
  rw [randomExact] at h
  split at h
  · exact absurd h (by simp)
  · obtain rfl := Except.error.inj h
    rfl

/-- The material is refused for the sizes of what was drawn, and for nothing else. -/
theorem newMaterial_error {cipher : SecretCipher} {name : String} {draw : Draw} {e : PyError}
    (h : newMaterial cipher name draw = .error e) : e.kind = .valueError := by
  simp only [newMaterial, Except.bind_eq_error] at h
  rcases h with h | ⟨_, -, h | ⟨_, -, h | ⟨_, -, h | ⟨_, -, h | ⟨_, -, h | ⟨_, -, h | ⟨_, -, h |
    ⟨_, -, h⟩⟩⟩⟩⟩⟩⟩⟩
  · exact randomExact_error h
  · exact randomExact_error h
  · exact randomExact_error h
  · exact SecretCipher.wrapProfileKey_error h
  · exact SecretCipher.encrypt_error h
  · exact SecretCipher.encrypt_error h
  · exact SecretCipher.encrypt_error h
  · rw [hysteriaLookupValue] at h
    split at h
    · exact absurd h (by simp)
    · obtain rfl := Except.error.inj h
      rfl
  · exact absurd h (by simp [pure, Except.pure])

theorem normalizeName_error {control : Char → Bool} {name : String} {e : PyError}
    (h : normalizeName control name = .error e) : e.kind = .invalidProfileName := by
  rw [normalizeName] at h
  split at h
  · obtain rfl := Except.error.inj h
    rfl
  · split at h
    · obtain rfl := Except.error.inj h
      rfl
    · exact absurd h (by simp)

end EzOpenPN
