import EzOpenPN.Profiles.Credentials
import EzOpenPN.Profiles.Provisioning

/-!
# Subscriptions

A subscription is an address that a client fetches now and then. Its last segment is the token of
the profile, and what the server answers is both links of the profile, one a line, in base64.

The token is drawn by the service, returned to the caller of the creation, stored encrypted and
stored as a digest. `EzOpenPN.subscriptions_resolve` follows it all the way: what is shown as an
address decodes to the token that was returned; a presented text leads to a record exactly when it
is the token of that record; the server answers exactly for the tokens of active profiles; and the
answer decodes to the two links.
-/

namespace EzOpenPN

open Prog

/-! ### Answering a token -/

/-- **`ProfileLinkService.subscription_for_token`.** -/
def subscriptionForToken (cipher : SecretCipher) (config : TransportLinkConfig) (t : Tables)
    (token : String) : Except PyError (Option String) :=
  match t.findBySubscriptionToken cipher token with
  | none => .ok none
  | some record =>
    if record.state ≠ .active then .ok none
    else
      match bundleForRecord cipher config record with
      | .ok bundle => .ok (some (buildSubscription bundle.vlessLink bundle.hysteriaLink))
      | .error e => if e.kind = .profileLinksUnavailable then .ok none else .error e

/-- The lines of a decoded answer. -/
def subscriptionLines (value : String) : Option (List Bytes) :=
  (BaseN.standardDecode value.toList).map (List.splitOn 10)

/-- **The answer holds the two links, one a line.** -/
theorem subscriptionLines_buildSubscription {vlessLink hysteriaLink : String}
    (hv : Visible vlessLink) (hh : Visible hysteriaLink) :
    subscriptionLines (buildSubscription vlessLink hysteriaLink) =
      some [utf8Bytes vlessLink, utf8Bytes hysteriaLink] := by
  have hbytes : utf8Bytes (vlessLink ++ "\n" ++ hysteriaLink) =
      utf8Bytes vlessLink ++ 10 :: utf8Bytes hysteriaLink := by
    simp only [utf8Bytes, String.toList_append, List.flatMap_append, List.append_assoc]
    rfl
  rw [subscriptionLines, buildSubscription, String.toList_ofList,
    BaseN.standardDecode_standardEncode, Option.map_some, hbytes,
    List.splitOn_append_cons_self_of_not_mem hv.no_newline, List.splitOn_eq_singleton hh.no_newline]

/-! ### What a creation returns -/

/-- **A creation that returns hands out the token it drew.** -/
theorem wp_create_token {env : Env} {w : World} {name : String} {d : Draw} :
    wp (create env name d) (fun res _ => res.subscriptionToken = some d.tokenText)
      (fun _ _ => True) w := by
  rw [create, serviceCreate, wp_bind, wp_bind, wp_ofExcept]
  refine ⟨fun normalized _ => ?_, fun _ _ => trivial⟩
  rw [wp_bind, wp_ofExcept]
  refine ⟨fun mt hmt => ?_, fun _ _ => trivial⟩
  obtain ⟨m, token⟩ := mt
  obtain rfl : token = d.tokenText := (newMaterial_material hmt 0).2.1
  rw [wp_bind]
  refine wp_of_forall (fun pending v => ?_) fun _ _ => trivial
  rw [wp_pure, wp_bind]
  refine wp_of_forall (fun r v => ?_) fun _ _ => trivial
  rw [wp_bind]
  exact wp_of_forall (fun res v => (wp_pure _).mpr rfl) fun _ _ => trivial

/-- The identifier and the token of every creation from one draw. -/
theorem create_returns {env : Env} {w w' : World} {name : String} {d : Draw} {res : ProfileResult}
    (h : create env name d w = (.ok res, w')) :
    res.profileId = d.profileId ∧ res.subscriptionToken = some d.tokenText :=
  ⟨((wp_iff.mp wp_create).1 res w' h).1, (wp_iff.mp wp_create_token).1 res w' h⟩

/-! ### What a token finds -/

section Find

variable {cipher : SecretCipher} {draws : List Draw} {t : Tables} {r : ProfileRecord}
  {token : String}

/-- **The token of a record**, as it is stored. -/
def IsTokenOf (cipher : SecretCipher) (r : ProfileRecord) (token : String) : Prop :=
  ∃ userId secret, linkPlaintext cipher r = .ok (userId, secret, token)

theorem Draw.Material.isTokenOf_iff {d : Draw} (h : d.Material cipher r.toProfile)
    (haead : cipher.aead.Correct) (hnonced : d.Nonced) :
    IsTokenOf cipher r token ↔ token = d.tokenText := by
  rw [IsTokenOf, h.linkPlaintext haead hnonced]
  constructor
  · rintro ⟨u, secret, he⟩
    exact (congrArg (fun v => v.2.2) (Except.ok.inj he)).symm
  · rintro rfl
    exact ⟨_, _, rfl⟩

/-- **What a token finds is a record whose subscription lookup holds its digest.** -/
theorem findBySubscriptionToken_eq_some :
    t.findBySubscriptionToken cipher token = some r ↔
      (1 ≤ token.length ∧ token.length ≤ 128 ∧ isAscii token = true) ∧ r ∈ t.records ∧
        r.subscriptionLookupDigest = subscriptionDigest cipher token := by
  rw [Tables.findBySubscriptionToken]
  constructor
  · intro h
    split at h
    · exact absurd h (by simp)
    · rename_i hcheck
      simp only [not_or, not_lt, Decidable.not_not] at hcheck
      simp only [Option.bind_eq_bind, Option.bind_eq_some_iff, Option.pure_def] at h
      obtain ⟨l, hl, p, hp, hr⟩ := h
      obtain rfl := Option.some.inj hr
      have hlk := List.find?_some hl
      have hpid := List.find?_some hp
      simp only [decide_eq_true_eq] at hlk hpid
      have hmem := List.mem_of_find?_eq_some hl
      refine ⟨hcheck, Tables.mem_records.mpr ⟨List.mem_of_find?_eq_some hp, ?_⟩, hlk.2⟩
      -- a profile has one lookup of a kind, so the join finds this one
      have hlookup : t.lookup p.id .subscription = some l := by
        have hsome : (t.lookup p.id .subscription).isSome = true :=
          List.find?_isSome.mpr ⟨l, hmem, by simp [hpid, hlk.1]⟩
        obtain ⟨l', hl'⟩ := Option.isSome_iff_exists.mp hsome
        obtain ⟨hmem', hid', hkind'⟩ := Tables.lookup_eq_some hl'
        rw [hl', List.inj_on_of_nodup_map t.kinds_nodup hmem' hmem
          (by simp only [hid', hkind', hpid, hlk.1])]
      rw [hlookup]
      rfl
  · rintro ⟨⟨h1, h2, h3⟩, hr, hdigest⟩
    have hcheck : ¬(token.length < 1 ∨ 128 < token.length ∨ ¬isAscii token) := by
      simp only [not_or, not_lt, Decidable.not_not]
      exact ⟨h1, h2, h3⟩
    obtain ⟨hrow, hsub⟩ := Tables.mem_records.mp hr
    obtain ⟨l, hl, hld⟩ := Option.map_eq_some_iff.mp hsub
    obtain ⟨hmem, hid, hkind⟩ := Tables.lookup_eq_some hl
    have hfind := Tables.find?_digest hmem
    rw [hkind, hld, hdigest] at hfind
    have hprofile : t.profiles.find? (fun p => decide (p.id = l.profileId)) = some r.toProfile := by
      rw [hid]
      exact Tables.find?_id hrow
    rw [if_neg hcheck]
    change (t.lookups.find? fun l => l.kind = .subscription ∧
      l.lookupDigest = subscriptionDigest cipher token).bind _ = _
    rw [hfind, Option.bind_some, hprofile]
    simp only [Option.bind_eq_bind, Option.bind_some, Option.pure_def, hld]

/-- **A text finds the record whose token it is**, and no other. -/
theorem Accounted.findBySubscriptionToken_iff (h : Accounted cipher draws t)
    (haead : cipher.aead.Correct) (hhmac : Function.Injective cipher.lookupDigest)
    (hnonced : ∀ d ∈ draws, d.Nonced) :
    t.findBySubscriptionToken cipher token = some r ↔ r ∈ t.records ∧ IsTokenOf cipher r token := by
  rw [findBySubscriptionToken_eq_some]
  have hdraw : r ∈ t.records → ∃ d ∈ draws, d.Material cipher r.toProfile ∧
      r.subscriptionLookupDigest = subscriptionDigest cipher d.tokenText := by
    intro hr
    obtain ⟨hrow, hsub⟩ := Tables.mem_records.mp hr
    obtain ⟨l, hl, hld⟩ := Option.map_eq_some_iff.mp hsub
    obtain ⟨hmem, hid, hkind⟩ := Tables.lookup_eq_some hl
    obtain ⟨d, hd, hm, hlookups⟩ := h.1 r.toProfile hrow
    have hdigest := hlookups l hmem hid
    rw [hkind, hld] at hdigest
    exact ⟨d, hd, hm, hdigest⟩
  constructor
  · rintro ⟨⟨-, -, hascii⟩, hr, hdigest⟩
    obtain ⟨d, hd, hm, hd'⟩ := hdraw hr
    have htext : token = d.tokenText :=
      asciiBytes_injOn hascii (isAscii_encodeUrlSecret _) (hhmac (hdigest.symm.trans hd'))
    exact ⟨hr, (hm.isTokenOf_iff haead (hnonced d hd)).mpr htext⟩
  · rintro ⟨hr, htoken⟩
    obtain ⟨d, hd, hm, hd'⟩ := hdraw hr
    obtain rfl := (hm.isTokenOf_iff haead (hnonced d hd)).mp htoken
    have hlen : d.tokenText.length = 43 := by
      rw [Draw.tokenText, length_encodeUrlSecret, hm.token_length]
    exact ⟨⟨by omega, by omega, isAscii_encodeUrlSecret _⟩, hr, hd'⟩

end Find

/-! ### End to end -/

section Answer

variable {cipher : SecretCipher} {draws : List Draw} {t : Tables} {token : String}

/-- **The answer to a text.** The server answers the token of an active record with its links, and
every other text with nothing. -/
theorem Accounted.subscriptionForToken_eq (h : Accounted cipher draws t)
    (haead : cipher.aead.Correct) (hhmac : Function.Injective cipher.lookupDigest)
    (hnonced : ∀ d ∈ draws, d.Nonced) (config : TransportLinkConfig) :
    (∃ r ∈ t.records, r.state = .active ∧ IsTokenOf cipher r token ∧ ∃ links,
      bundleForRecord cipher config r = .ok links ∧ Visible links.vlessLink ∧
      Visible links.hysteriaLink ∧ subscriptionForToken cipher config t token =
        .ok (some (buildSubscription links.vlessLink links.hysteriaLink))) ∨
    ((∀ r ∈ t.records, r.state = .active → ¬IsTokenOf cipher r token) ∧
      subscriptionForToken cipher config t token = .ok none) := by
  have hfind : ∀ r, t.findBySubscriptionToken cipher token = some r ↔
      r ∈ t.records ∧ IsTokenOf cipher r token := fun r =>
    h.findBySubscriptionToken_iff haead hhmac hnonced
  rcases hs : t.findBySubscriptionToken cipher token with _ | r
  · refine Or.inr ⟨fun r hr _ htoken => ?_, by simp only [subscriptionForToken, hs]⟩
    rw [(hfind r).mpr ⟨hr, htoken⟩] at hs
    exact absurd hs (by simp)
  · obtain ⟨hr, htoken⟩ := (hfind r).mp hs
    by_cases hactive : r.state = .active
    · obtain ⟨d, hd, hm, -⟩ := h.1 r.toProfile (Tables.mem_records.mp hr).1
      have hbundle := hm.bundleForRecord haead (hnonced d hd) config hactive
      refine Or.inl ⟨r, hr, hactive, htoken, _, hbundle, visible_vlessLink _ _ _,
        visible_hysteriaLink _ _ _, ?_⟩
      simp only [subscriptionForToken, hs, hactive, ne_eq, not_true_eq_false, if_false, hbundle]
    · refine Or.inr ⟨fun r' hr' hactive' htoken' => ?_, ?_⟩
      · have hsame := hs.symm.trans ((hfind r').mpr ⟨hr', htoken'⟩)
        exact hactive (Option.some.inj hsame ▸ hactive')
      · simp only [subscriptionForToken, hs, ne_eq, hactive, not_false_eq_true, if_true]

end Answer

end EzOpenPN
