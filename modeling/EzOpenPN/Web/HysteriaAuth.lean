import EzOpenPN.Json
import EzOpenPN.Profiles.Credentials

/-!
# The authorization of Hysteria2 clients

The Hysteria2 server asks the control plane about every client that connects. It posts a JSON
object with the address, the credential and the bandwidth of the client, and hears whether the
client may pass and under which runtime identifier. `EzOpenPN.payload` is the check of the body,
`EzOpenPN.authorize` the answer.

A body that the JSON reader refuses for being no JSON or no UTF-8 is denied, and any other
exception of it escapes.

The answer is exact (`EzOpenPN.hysteria_authorization_exact`): a credential passes exactly when
it is what stands, percent-encoded, in the link of an active profile. In one direction the
presented text has the digest of a stored lookup, hence is the text of the secret that row was
drawn with, hence the text in the link built from the same draw; and back. A subscription token
shares table and digest key with the secrets, but not the prefix of what is digested.
-/

namespace EzOpenPN

/-! ### The check of the body -/

/-- The fields of a request. -/
def payloadKeys : List String := ["addr", "auth", "tx"]

/-- `_MAX_BODY_BYTES`. -/
def maxBodyBytes : ℕ := 2048

/-- The credential of a request whose fields are well formed. -/
def credentialOf (fields : List (PyStr × Json)) : Option String :=
  match field fields "addr", field fields "auth", field fields "tx" with
  | some (.str address), some (.str auth), some (.int tx) =>
    if address.length < 1 ∨ 512 < address.length ∨ auth.length < 1 ∨ 512 < auth.length ∨
        ¬(auth.all fun c => c < 128) ∨ tx < 0 ∨ 2 ^ 63 - 1 < tx then none
    else some (String.ofList (auth.map Char.ofNat))
  | _, _, _ => none

/-- **`_payload`.** -/
def payload (loads : Loads) (body : Bytes) : Except LoadsError (Option String) :=
  if body.length < 1 ∨ maxBodyBytes < body.length then .ok none
  else
    match loads body with
    | .error .malformed => .ok none
    | .error .other => .error .other
    | .ok (.dict fields) => .ok (if hasKeys payloadKeys fields then credentialOf fields else none)
    | .ok _ => .ok none

/-- **A well-formed request** for a credential: a JSON object with exactly the three fields, each
of its type and within its bounds. -/
structure IsRequest (loads : Loads) (body : Bytes) (auth : String) : Prop where
  size : 1 ≤ body.length ∧ body.length ≤ 2048
  object : ∃ fields, loads body = .ok (.dict fields) ∧
    (∀ k, k ∈ fields.map Prod.fst ↔ k ∈ ["addr", "auth", "tx"].map codePoints) ∧
    (∃ address, field fields "addr" = some (.str address) ∧
      1 ≤ address.length ∧ address.length ≤ 512) ∧
    field fields "auth" = some (.str (codePoints auth)) ∧
    ∃ tx, field fields "tx" = some (.int tx) ∧ 0 ≤ tx ∧ tx ≤ 2 ^ 63 - 1
  auth_length : 1 ≤ auth.length ∧ auth.length ≤ 512
  auth_ascii : isAscii auth = true

/-! ### The answer -/

/-- The answer of the route. -/
structure AuthResponse where
  ok : Bool
  id : String
  deriving DecidableEq

/-- `_DENIED`. -/
def deniedResponse : AuthResponse := ⟨false, ""⟩

/-- **`authorize`**, over a database that answers. -/
def authorize (cipher : SecretCipher) (loads : Loads) (t : Tables) (body : Bytes) :
    Except LoadsError AuthResponse :=
  match payload loads body with
  | .error e => .error e
  | .ok none => .ok deniedResponse
  | .ok (some auth) =>
    match t.findByHysteriaSecret cipher auth with
    | none => .ok deniedResponse
    | some record =>
      if record.state ≠ .active then .ok deniedResponse else .ok ⟨true, record.runtimeId.text⟩

section Payload

variable {loads : Loads} {body : Bytes} {auth : String} {fields : List (PyStr × Json)}

/-- ASCII code points are those of an ASCII text. -/
theorem codePoints_of_ascii {points : PyStr} (h : points.all (fun c => c < 128) = true) :
    codePoints (String.ofList (points.map Char.ofNat)) = points ∧
      isAscii (String.ofList (points.map Char.ofNat)) = true := by
  have hpoint : ∀ c ∈ points, (Char.ofNat c).toNat = c ∧ c < 128 := fun c hc => by
    have hlt : c < 128 := by simpa using List.all_eq_true.mp h c hc
    have hvalid : c.isValidChar := Or.inl (by omega)
    have hnat : (Char.ofNat c).toNat = c := by
      rw [Char.ofNat, dif_pos hvalid]
      rfl
    exact ⟨hnat, hlt⟩
  constructor
  · rw [codePoints, String.toList_ofList, List.map_map]
    conv_rhs => rw [← List.map_id points]
    exact List.map_congr_left fun c hc => (hpoint c hc).1
  · rw [isAscii, String.toList_ofList, List.all_eq_true]
    intro x hx
    obtain ⟨c, hc, rfl⟩ := List.mem_map.mp hx
    rw [(hpoint c hc).1]
    exact decide_eq_true (hpoint c hc).2

theorem ofList_codePoints (s : String) : String.ofList ((codePoints s).map Char.ofNat) = s := by
  rw [codePoints, List.map_map]
  have hid : Char.ofNat ∘ Char.toNat = id := funext fun c => Char.ofNat_toNat c
  rw [hid, List.map_id, String.ofList_toList]

theorem codePoints_ascii (h : isAscii auth = true) :
    (codePoints auth).all (fun c => c < 128) = true := by
  rw [isAscii] at h
  rw [codePoints, List.all_map]
  exact h

/-- **The fields give a credential exactly when each is of its type and within its bounds.** -/
theorem credentialOf_eq_some : credentialOf fields = some auth ↔
    (∃ address, field fields "addr" = some (.str address) ∧
      1 ≤ address.length ∧ address.length ≤ 512) ∧
    field fields "auth" = some (.str (codePoints auth)) ∧
    (∃ tx, field fields "tx" = some (.int tx) ∧ 0 ≤ tx ∧ tx ≤ 2 ^ 63 - 1) ∧
    (1 ≤ auth.length ∧ auth.length ≤ 512) ∧ isAscii auth = true := by
  constructor
  · intro h
    rw [credentialOf] at h
    split at h
    · rename_i address points tx haddr hauth htx
      split at h
      · exact absurd h (by simp)
      · rename_i hchecks
        simp only [not_or, not_lt, Decidable.not_not] at hchecks
        obtain ⟨ha1, ha2, hp1, hp2, hascii, htx0, htx1⟩ := hchecks
        obtain ⟨hpoints, hasc⟩ := codePoints_of_ascii hascii
        obtain rfl := Option.some.inj h
        refine ⟨⟨address, haddr, ha1, ha2⟩, by rw [hpoints, hauth], ⟨tx, htx, htx0, htx1⟩, ?_, hasc⟩
        rw [String.length_ofList, List.length_map]
        exact ⟨hp1, hp2⟩
    · exact absurd h (by simp)
  · rintro ⟨⟨address, haddr, ha1, ha2⟩, hauth, ⟨tx, htx, htx0, htx1⟩, ⟨hl1, hl2⟩, hascii⟩
    have hlen : (codePoints auth).length = auth.length := by
      rw [codePoints, List.length_map, String.length_toList]
    have hchecks : ¬(address.length < 1 ∨ 512 < address.length ∨ (codePoints auth).length < 1 ∨
        512 < (codePoints auth).length ∨ ¬((codePoints auth).all fun c => c < 128) ∨ tx < 0 ∨
        2 ^ 63 - 1 < tx) := by
      simp only [not_or, not_lt, Decidable.not_not, hlen]
      exact ⟨ha1, ha2, hl1, hl2, codePoints_ascii hascii, htx0, htx1⟩
    simp only [credentialOf, haddr, hauth, htx, hchecks, if_false, ofList_codePoints]

/-- **`_payload` accepts exactly the well-formed requests.** -/
theorem payload_eq_some : payload loads body = .ok (some auth) ↔ IsRequest loads body auth := by
  constructor
  · intro h
    rw [payload] at h
    split at h
    · exact absurd h (by simp)
    · rename_i hsize
      simp only [not_or, not_lt, maxBodyBytes] at hsize
      split at h
      · exact absurd h (by simp)
      · exact absurd h (by simp)
      · rename_i fields hload
        have h' := Except.ok.inj h
        split at h'
        · rename_i hkeys
          obtain ⟨haddr, hauth, htx, hlen, hascii⟩ := credentialOf_eq_some.mp h'
          exact ⟨hsize, ⟨fields, hload, hasKeys_iff.mp hkeys, haddr, hauth, htx⟩, hlen, hascii⟩
        · exact absurd h' (by simp)
      · exact absurd h (by simp)
  · intro h
    obtain ⟨fields, hload, hkeys, haddr, hauth, htx⟩ := h.object
    have hsize : ¬(body.length < 1 ∨ maxBodyBytes < body.length) := by
      simp only [not_or, not_lt, maxBodyBytes]
      exact h.size
    have hall : hasKeys payloadKeys fields = true := hasKeys_iff.mpr hkeys
    rw [payload, if_neg hsize, hload]
    simp only [hall, if_true]
    rw [credentialOf_eq_some.mpr ⟨haddr, hauth, htx, h.auth_length, h.auth_ascii⟩]

end Payload

/-! ### What a credential finds -/

section Find

variable {cipher : SecretCipher} {draws : List Draw} {t : Tables} {r : ProfileRecord}
  {auth : String}

/-- Secrets with one digest are one secret. -/
theorem hysteriaDigest_inj (hhmac : Function.Injective cipher.lookupDigest) {a b : String}
    (ha : isAscii a = true) (hb : isAscii b = true)
    (h : hysteriaDigest cipher a = hysteriaDigest cipher b) : a = b :=
  asciiBytes_injOn ha hb (List.append_cancel_left (hhmac h))

/-- A stored lookup of the presented secret leads to the record it refers to. -/
theorem findByHysteriaSecret_of_lookup (hlen : 1 ≤ auth.length ∧ auth.length ≤ 512)
    (hascii : isAscii auth = true) (hr : r ∈ t.records) {l : ProfileLookup} (hl : l ∈ t.lookups)
    (hid : l.profileId = r.id) (hkind : l.kind = .hysteriaAuth)
    (hdigest : l.lookupDigest = hysteriaDigest cipher auth) :
    t.findByHysteriaSecret cipher auth = some r := by
  obtain ⟨hrow, hsub⟩ := Tables.mem_records.mp hr
  obtain ⟨k, hk, hkd⟩ := Option.map_eq_some_iff.mp hsub
  have hcheck : ¬(auth.length < 1 ∨ 512 < auth.length ∨ ¬isAscii auth) := by
    simp only [not_or, not_lt, Decidable.not_not]
    exact ⟨hlen.1, hlen.2, hascii⟩
  have hfind := Tables.find?_digest hl
  rw [hkind, hdigest] at hfind
  have hprofile : t.profiles.find? (fun p => decide (p.id = l.profileId)) = some r.toProfile := by
    rw [hid]
    exact Tables.find?_id hrow
  rw [Tables.findByHysteriaSecret, if_neg hcheck, hysteriaLookupValue, if_pos hascii]
  change (t.lookups.find? fun l => l.kind = .hysteriaAuth ∧
    l.lookupDigest = hysteriaDigest cipher auth).bind _ = _
  rw [hfind, Option.bind_some, hprofile]
  simp only [Option.bind_eq_bind, Option.bind_some, hk, hkd, Option.pure_def]

/-- **A secret finds the record whose link it stands in**, and no other. -/
theorem Accounted.findByHysteriaSecret_iff (h : Accounted cipher draws t)
    (haead : cipher.aead.Correct) (hhmac : Function.Injective cipher.lookupDigest)
    (hnonced : ∀ d ∈ draws, d.Nonced) (hlen : 1 ≤ auth.length ∧ auth.length ≤ 512)
    (hascii : isAscii auth = true) :
    t.findByHysteriaSecret cipher auth = some r ↔
      r ∈ t.records ∧ ∃ u token, linkPlaintext cipher r = .ok (u, auth, token) := by
  constructor
  · intro hfind
    obtain ⟨hrow, l, hl, hkind, hdigest, hid⟩ := findByHysteriaSecret_some hfind
    obtain ⟨d, hd, hm, hlookups⟩ := h.1 r.toProfile hrow
    have hdraw := hlookups l hl hid
    rw [hkind] at hdraw
    have htext : d.secretText = auth := hysteriaDigest_inj hhmac (isAscii_encodeUrlSecret _) hascii
      (hdraw.symm.trans hdigest)
    refine ⟨?_, d.userId, d.tokenText, htext ▸ hm.linkPlaintext haead (hnonced d hd)⟩
    -- the record that was read is the one under its identifier
    obtain ⟨r', hr', hrow'⟩ := h.exists_record hrow
    have hfind' : t.findByHysteriaSecret cipher auth = some r' :=
      findByHysteriaSecret_of_lookup hlen hascii hr' hl (by rw [hid, ← hrow']) hkind hdigest
    rwa [Option.some.inj (hfind.symm.trans hfind')]
  · rintro ⟨hr, u, token, hplain⟩
    obtain ⟨d, hd, hm, hlookups⟩ := h.digest (Tables.mem_records.mp hr).1
    have hplain' := hm.linkPlaintext haead (hnonced d hd)
    obtain rfl : d.secretText = auth := by
      have := Except.ok.inj (hplain'.symm.trans hplain)
      exact congrArg (fun v => v.2.1) this
    obtain ⟨l, hl, hid, hkind, hdigest⟩ := hlookups .hysteriaAuth
    exact findByHysteriaSecret_of_lookup hlen hascii hr hl hid hkind hdigest

/-- **The link of an active record shows its secret.** -/
theorem Accounted.userinfo_iff (h : Accounted cipher draws t) (haead : cipher.aead.Correct)
    (hnonced : ∀ d ∈ draws, d.Nonced) (config : TransportLinkConfig) (hascii : isAscii auth = true)
    (hr : r ∈ t.records) (hactive : r.state = .active) :
    (∃ links, bundleForRecord cipher config r = .ok links ∧
        unquoteToBytes (userinfo links.hysteriaLink) = utf8Bytes auth) ↔
      ∃ u token, linkPlaintext cipher r = .ok (u, auth, token) := by
  obtain ⟨d, hd, hm, -⟩ := h.1 r.toProfile (Tables.mem_records.mp hr).1
  have hplain := hm.linkPlaintext haead (hnonced d hd)
  have hbundle := hm.bundleForRecord haead (hnonced d hd) config hactive
  have hsecret : isAscii d.secretText = true := isAscii_encodeUrlSecret _
  constructor
  · rintro ⟨links, hlinks, huserinfo⟩
    obtain rfl := Except.ok.inj (hbundle.symm.trans hlinks)
    rw [unquote_userinfo_hysteriaLink, utf8Bytes_of_isAscii hsecret,
      utf8Bytes_of_isAscii hascii] at huserinfo
    exact ⟨d.userId, d.tokenText, asciiBytes_injOn hsecret hascii huserinfo ▸ hplain⟩
  · rintro ⟨u, token, hplain'⟩
    obtain rfl : d.secretText = auth :=
      congrArg (fun v => v.2.1) (Except.ok.inj (hplain.symm.trans hplain'))
    exact ⟨_, hbundle, unquote_userinfo_hysteriaLink _ _ _⟩

end Find

/-! ### Exact authorization -/

section Authorize

variable {cipher : SecretCipher} {draws : List Draw} {t : Tables} {loads : Loads} {body : Bytes}

/-- The route lets a client pass for the active record that its credential finds. -/
theorem authorize_eq_ok {rid : String} : authorize cipher loads t body = .ok ⟨true, rid⟩ ↔
    ∃ auth, IsRequest loads body auth ∧ ∃ r, t.findByHysteriaSecret cipher auth = some r ∧
      r.state = .active ∧ r.runtimeId.text = rid := by
  have hdenied : (Except.ok deniedResponse : Except LoadsError AuthResponse) ≠ .ok ⟨true, rid⟩ := by
    simp [deniedResponse]
  constructor
  · intro h
    rw [authorize] at h
    split at h
    · exact absurd h (by simp)
    · exact absurd h hdenied
    · rename_i auth hpayload
      refine ⟨auth, payload_eq_some.mp hpayload, ?_⟩
      split at h
      · exact absurd h hdenied
      · rename_i r hfind
        split at h
        · exact absurd h hdenied
        · rename_i hactive
          refine ⟨r, hfind, by simpa using hactive, ?_⟩
          exact congrArg AuthResponse.id (Except.ok.inj h)
  · rintro ⟨auth, hrequest, r, hfind, hactive, rfl⟩
    rw [authorize, payload_eq_some.mpr hrequest]
    simp only [hfind, hactive, ne_eq, not_true_eq_false, if_false]

/-- What passes is the secret of a draw whose profile is active. -/
theorem Accounted.drawn_of_authorize (h : Accounted cipher draws t)
    (hhmac : Function.Injective cipher.lookupDigest) {auth rid : String}
    (hrequest : IsRequest loads body auth)
    (hok : authorize cipher loads t body = .ok ⟨true, rid⟩) :
    ∃ d ∈ draws, d.secretText = auth ∧ ∃ p ∈ t.profiles, p.id = d.profileId ∧ p.state = .active := by
  obtain ⟨auth', hrequest', r, hfind, hactive, -⟩ := authorize_eq_ok.mp hok
  obtain rfl : auth' = auth := by
    have := (payload_eq_some.mpr hrequest').symm.trans (payload_eq_some.mpr hrequest)
    exact Option.some.inj (Except.ok.inj this)
  obtain ⟨hrow, l, hl, hkind, hdigest, hid⟩ := findByHysteriaSecret_some hfind
  obtain ⟨d, hd, hm, hlookups⟩ := h.1 r.toProfile hrow
  have hdraw := hlookups l hl hid
  rw [hkind] at hdraw
  exact ⟨d, hd, hysteriaDigest_inj hhmac (isAscii_encodeUrlSecret _) hrequest.auth_ascii
    (hdraw.symm.trans hdigest), r.toProfile, hrow, hm.id, hactive⟩

end Authorize

/-- **Hysteria2 authorization is exact.** At every moment of every run, the route answers with the
runtime identifier of a profile exactly when the body is a well-formed request whose credential is
the percent-decoded userinfo of the link of that profile and the profile is active. A subscription
token never passes, nor does the secret of a profile that is not active. -/
theorem hysteria_authorization_exact (env : Env) (w₀ : World) (actions : List Action) (loads : Loads)
    (hempty : w₀.tables = .empty) (haead : env.cipher.aead.Correct)
    (hhmac : Function.Injective env.cipher.lookupDigest)
    (hnonced : ∀ d ∈ drawsOf actions, d.Nonced) (hdistinct : Draw.Distinct (drawsOf actions)) :
    Since w₀.history (fun t _ =>
      (∀ body rid, authorize env.cipher loads t body = .ok ⟨true, rid⟩ ↔
        ∃ auth, IsRequest loads body auth ∧ ∃ r ∈ t.records, r.state = .active ∧
          r.runtimeId.text = rid ∧ ∃ links, bundleForRecord env.cipher env.links r = .ok links ∧
            unquoteToBytes (userinfo links.hysteriaLink) = utf8Bytes auth) ∧
      ∀ body auth rid, IsRequest loads body auth → ∀ d ∈ drawsOf actions,
        auth = d.tokenText ∨ (auth = d.secretText ∧
          ∀ p ∈ t.profiles, p.id = d.profileId → p.state ≠ .active) →
        authorize env.cipher loads t body ≠ .ok ⟨true, rid⟩) (runActions env actions w₀) := by
  refine (accounted_runActions env actions hempty).mono fun t _ h => ?_
  refine ⟨fun body rid => ?_, fun body auth rid hrequest d hd hcase hok => ?_⟩
  · rw [authorize_eq_ok]
    refine exists_congr fun auth => and_congr_right fun hrequest => ?_
    have hfind : ∀ r, t.findByHysteriaSecret env.cipher auth = some r ↔
        r ∈ t.records ∧ ∃ u token, linkPlaintext env.cipher r = .ok (u, auth, token) := fun r =>
      h.findByHysteriaSecret_iff haead hhmac hnonced hrequest.auth_length hrequest.auth_ascii
    constructor
    · rintro ⟨r, hr, hactive, hrid⟩
      obtain ⟨hmem, hplain⟩ := (hfind r).mp hr
      exact ⟨r, hmem, hactive, hrid,
        (h.userinfo_iff haead hnonced env.links hrequest.auth_ascii hmem hactive).mpr hplain⟩
    · rintro ⟨r, hmem, hactive, hrid, hlinks⟩
      have hplain :=
        (h.userinfo_iff haead hnonced env.links hrequest.auth_ascii hmem hactive).mp hlinks
      exact ⟨r, (hfind r).mpr ⟨hmem, hplain⟩, hactive, hrid⟩
  · obtain ⟨d', hd', htext, p, hp, hid, hactive⟩ := h.drawn_of_authorize hhmac hrequest hok
    rcases hcase with htoken | ⟨hsecret, hinactive⟩
    · exact hdistinct.apart d' hd' d hd (encodeUrlSecret_injective (htext.trans htoken))
    · obtain rfl := hdistinct.secrets d' hd' d hd
        (encodeUrlSecret_injective (htext.trans hsecret))
      exact hinactive p hp hid hactive

/-- A request for the credential of the sample profile. -/
def sampleBody : Bytes :=
  asciiBytes ("\x7b\"addr\":\"192.0.2.9:4000\",\"auth\":\"" ++ (sampleDraw 1).secretText ++
    "\",\"tx\":0\x7d")

/-- What that request reads as. -/
def sampleLoads : Loads := fun body =>
  if body = sampleBody then
    .ok (.dict [(codePoints "addr", .str (codePoints "192.0.2.9:4000")),
      (codePoints "auth", .str (codePoints (sampleDraw 1).secretText)), (codePoints "tx", .int 0)])
  else .error .malformed

/-- The sample profile may pass with its secret. -/
theorem hysteria_authorization_exact_sample :
    authorize exactEnv.cipher sampleLoads
        (runActions exactEnv [.call (.create "anna" (sampleDraw 1))] freshWorld).tables sampleBody =
      .ok ⟨true, runtimeIdText (sampleDraw 1).runtimeBytes⟩ ∧
    ∃ auth, IsRequest sampleLoads sampleBody auth ∧
      ∃ r ∈ (runActions exactEnv [.call (.create "anna" (sampleDraw 1))] freshWorld).tables.records,
        r.state = .active ∧ r.runtimeId.text = runtimeIdText (sampleDraw 1).runtimeBytes ∧
        ∃ links, bundleForRecord exactEnv.cipher exactEnv.links r = .ok links ∧
          unquoteToBytes (userinfo links.hysteriaLink) = utf8Bytes auth := by
  have hdraws : drawsOf [.call (.create "anna" (sampleDraw 1))] = [sampleDraw 1] := rfl
  have hexact := hysteria_authorization_exact exactEnv freshWorld
    [.call (.create "anna" (sampleDraw 1))] sampleLoads rfl exactEnv_aead exactEnv_digest
    (by simp [hdraws, sampleDraw_nonced]) (by rw [hdraws]; exact ⟨by simp, by simp, by decide⟩)
  have hok : authorize exactEnv.cipher sampleLoads
      (runActions exactEnv [.call (.create "anna" (sampleDraw 1))] freshWorld).tables sampleBody =
        .ok ⟨true, runtimeIdText (sampleDraw 1).runtimeBytes⟩ := by
    decide +kernel
  exact ⟨hok, (hexact.now.1 _ _).mp hok⟩

end EzOpenPN
