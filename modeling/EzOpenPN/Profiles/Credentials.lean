import EzOpenPN.Profiles.NoResurrection
import EzOpenPN.Profiles.LinkText

/-!
# Where the credentials of a profile come from

A credential travels three ways. Its digest is stored as a lookup when the profile is created;
its bytes are stored encrypted, and decrypted whenever a link is built; and its text comes back
from a client, which has it from the link. That the three agree is a fact about one draw: the
row, both of its lookups and the links were all made from the same random values.

`EzOpenPN.Provenance` says so of the tables: every profile holds the material of one draw
(`EzOpenPN.Draw.Material`), and every lookup that refers to it holds a digest of that same draw.
It is kept by everything the coordinator does, so it holds at every moment of a run
(`EzOpenPN.accounted_runActions`). What the material decrypts to is
`EzOpenPN.Draw.Material.linkPlaintext`, and that a digest leads to one row at most is a key of the
schema (`EzOpenPN.Tables.find?_digest`).
-/

namespace EzOpenPN

open Prog

/-! ### ASCII there and back -/

/-- **Decoding undoes encoding** of an ASCII text. -/
theorem decodeAscii_asciiBytes {s : String} (h : isAscii s = true) :
    decodeAscii (asciiBytes s) = .ok s := by
  rw [isAscii, List.all_eq_true] at h
  have hbyte : ∀ c ∈ s.toList, (UInt8.ofNat c.toNat).toNat = c.toNat := fun c hc => by
    have hlt : c.toNat < 128 := by simpa using h c hc
    rw [UInt8.toNat_ofNat', Nat.mod_eq_of_lt (by omega)]
  have hall : (asciiBytes s).all (fun b => b.toNat < 128) = true := by
    rw [List.all_eq_true]
    intro b hb
    obtain ⟨c, hc, rfl⟩ := List.mem_map.mp hb
    rw [hbyte c hc]
    exact h c hc
  have hmap : (asciiBytes s).map (fun b => Char.ofNat b.toNat) = s.toList := by
    rw [asciiBytes, List.map_map]
    conv_rhs => rw [← List.map_id s.toList]
    refine List.map_congr_left fun c hc => ?_
    change Char.ofNat (UInt8.ofNat c.toNat).toNat = c
    rw [hbyte c hc]
    exact Char.ofNat_toNat c
  rw [decodeAscii, if_pos hall, hmap, String.ofList_toList]

/-! ### What one draw yields -/

/-- The digest under which a subscription token is looked up. -/
def subscriptionDigest (cipher : SecretCipher) (token : String) : Bytes :=
  cipher.lookupDigest (asciiBytes token)

namespace Draw

/-- The text of the drawn Hysteria2 secret. -/
def secretText (d : Draw) : String := encodeUrlSecret d.hysteriaSecret

/-- The text of the drawn subscription token. -/
def tokenText (d : Draw) : String := encodeUrlSecret d.subscriptionToken

/-- The digest that a draw gives the lookup of one kind. -/
def digest (cipher : SecretCipher) (d : Draw) : LookupKind → Bytes
  | .subscription => subscriptionDigest cipher d.tokenText
  | .hysteriaAuth => hysteriaDigest cipher d.secretText

/-- The nonces a draw encrypts under have the size the AEAD asks for. -/
structure Nonced (d : Draw) : Prop where
  keyNonce : d.keyNonce.length = 24
  userIdNonce : d.userIdNonce.length = 24
  hysteriaNonce : d.hysteriaNonce.length = 24
  tokenNonce : d.tokenNonce.length = 24

/-- **The secrets and tokens of some draws are distinct**: a value that comes up again comes from
the same draw, and none is both a secret and a token. -/
structure Distinct (draws : List Draw) : Prop where
  secrets : ∀ d ∈ draws, ∀ d' ∈ draws, d.hysteriaSecret = d'.hysteriaSecret → d = d'
  tokens : ∀ d ∈ draws, ∀ d' ∈ draws, d.subscriptionToken = d'.subscriptionToken → d = d'
  apart : ∀ d ∈ draws, ∀ d' ∈ draws, d.hysteriaSecret ≠ d'.subscriptionToken

/-- **The row holds the material of the draw.** -/
structure Material (cipher : SecretCipher) (d : Draw) (p : Profile) : Prop where
  id : p.id = d.profileId
  runtimeId : p.runtimeId.text = runtimeIdText d.runtimeBytes
  secret_length : d.hysteriaSecret.length = 32
  token_length : d.subscriptionToken.length = 32
  wrappedProfileKey : ∃ wrapped, p.wrappedProfileKey = some wrapped ∧
    cipher.wrapProfileKey d.profileId d.keyNonce d.profileKey = .ok wrapped
  userId : cipher.encryptProfileValue d.profileKey d.userIdNonce d.userId.bytes
    (profileValueContext d.profileId "user-id") = .ok p.userIdCiphertext
  hysteriaSecret : cipher.encryptProfileValue d.profileKey d.hysteriaNonce d.hysteriaSecret
    (profileValueContext d.profileId "hysteria-auth") = .ok p.hysteriaSecretCiphertext
  subscriptionToken : cipher.encryptProfileValue d.profileKey d.tokenNonce
    (asciiBytes d.tokenText) (profileValueContext d.profileId "subscription-token") =
      .ok p.subscriptionTokenCiphertext

end Draw

section Material

variable {cipher : SecretCipher} {d : Draw} {name token : String} {m : NewProfileMaterial}

/-- **What a creation makes of its draw**: the row it stores holds its material, both lookups
hold its digests, and the token it returns is the text of the drawn one. -/
theorem newMaterial_material (h : newMaterial cipher name d = .ok (m, token)) (n : Time) :
    d.Material cipher (Tables.pendingRow n m) ∧ token = d.tokenText ∧
      ∀ l ∈ Tables.newLookups m, l.lookupDigest = d.digest cipher l.kind := by
  obtain ⟨hid, hrid, hdigest⟩ := newMaterial_ok h
  simp only [newMaterial, Except.bind_eq_ok] at h
  obtain ⟨s, hs, t, ht, r, -, wrapped, hwrapped, u, hu, hc, hhc, tc, htc, v, -, hm⟩ := h
  have hs' : s.val = d.hysteriaSecret := randomExact_ok hs
  have ht' : t.val = d.subscriptionToken := randomExact_ok ht
  obtain ⟨rfl, rfl⟩ := Prod.mk.inj (Except.ok.inj hm)
  refine ⟨⟨hid, hrid, hs' ▸ s.property, ht' ▸ t.property, ⟨wrapped, rfl, hwrapped⟩, hu, ?_, ?_⟩,
    ?_, fun l hl => ?_⟩
  · rw [← hs']
    exact hhc
  · rw [Draw.tokenText, ← ht']
    exact htc
  · rw [Draw.tokenText, ← ht']
  · simp only [Tables.newLookups, List.mem_cons, List.not_mem_nil, or_false] at hl
    rcases hl with rfl | rfl
    · simp only [Draw.digest, subscriptionDigest, Draw.tokenText, ← ht']
    · exact hdigest

variable {p : Profile} {r : ProfileRecord}

/-- **The links of a row are built from its draw.** -/
theorem Draw.Material.linkPlaintext (h : d.Material cipher r.toProfile)
    (haead : cipher.aead.Correct) (hnonced : d.Nonced) :
    linkPlaintext cipher r = .ok (d.userId, d.secretText, d.tokenText) := by
  obtain ⟨wrapped, hk, hwrap⟩ := h.wrappedProfileKey
  have hkey : cipher.unwrapProfileKey r.id wrapped = .ok d.profileKey := by
    rw [h.id]
    exact SecretCipher.unwrapProfileKey_of_wrap haead hnonced.keyNonce hwrap
  have huser : cipher.decryptProfileValue d.profileKey r.userIdCiphertext
      (profileValueContext r.id "user-id") = .ok d.userId.bytes := by
    rw [h.id]
    exact SecretCipher.decrypt_of_encrypt haead hnonced.userIdNonce h.userId
  have hsecret : cipher.decryptProfileValue d.profileKey r.hysteriaSecretCiphertext
      (profileValueContext r.id "hysteria-auth") = .ok d.hysteriaSecret := by
    rw [h.id]
    exact SecretCipher.decrypt_of_encrypt haead hnonced.hysteriaNonce h.hysteriaSecret
  have htoken : cipher.decryptProfileValue d.profileKey r.subscriptionTokenCiphertext
      (profileValueContext r.id "subscription-token") = .ok (asciiBytes d.tokenText) := by
    rw [h.id]
    exact SecretCipher.decrypt_of_encrypt haead hnonced.tokenNonce h.subscriptionToken
  have hascii : isAscii d.tokenText = true := isAscii_encodeUrlSecret _
  have hlen : d.tokenText.length = 43 := by
    rw [Draw.tokenText, length_encodeUrlSecret, h.token_length]
  have hvalues : decryptLinkValues cipher r wrapped = .ok (d.userId, d.secretText, d.tokenText) := by
    simp only [decryptLinkValues, bind, Except.bind, hkey, huser, Uuid.ofBytes_bytes, hsecret, htoken,
      decodeAscii_asciiBytes hascii]
    rfl
  simp only [EzOpenPN.linkPlaintext, hk, hvalues, hlen, hascii, not_true_eq_false, or_false]
  rfl

/-- **The bundle of an active record of a draw.** -/
theorem Draw.Material.bundleForRecord (h : d.Material cipher r.toProfile)
    (haead : cipher.aead.Correct) (hnonced : d.Nonced) (config : TransportLinkConfig)
    (hactive : r.state = .active) :
    bundleForRecord cipher config r =
      .ok { combinedUrl := combinedUrl config d.tokenText
            vlessLink := buildVlessLink config d.userId r.name
            hysteriaLink := buildHysteriaLink config d.secretText r.name } := by
  rw [EzOpenPN.bundleForRecord, if_neg (by simp [hactive]), h.linkPlaintext haead hnonced]

end Material

/-! ### Where the rows come from -/

/-- **Every profile was drawn**: the row holds the material of a draw, and the lookups that
refer to it hold the digests of the same draw. -/
def Provenance (cipher : SecretCipher) (draws : List Draw) (t : Tables) : Prop :=
  ∀ p ∈ t.profiles, ∃ d ∈ draws, d.Material cipher p ∧
    ∀ l ∈ t.lookups, l.profileId = p.id → l.lookupDigest = d.digest cipher l.kind

section Provenance

variable {cipher : SecretCipher} {draws : List Draw} {t : Tables} {q : Uuid}

/-- Changing a row without touching its material. -/
theorem Provenance.modifyProfile {f : Profile → Profile} {hid : ∀ p, (f p).id = p.id}
    {hrid : ∀ p, (f p).runtimeId = p.runtimeId} (h : Provenance cipher draws t)
    (hf : ∀ (d : Draw) p, d.Material cipher p → d.Material cipher (f p)) :
    Provenance cipher draws (t.modifyProfile q f hid hrid) := by
  intro s hs
  obtain ⟨p, hp, rfl⟩ := Tables.mem_profiles_modifyProfile.mp hs
  obtain ⟨d, hd, hm, hl⟩ := h p hp
  split
  · exact ⟨d, hd, hf d p hm, fun l hmem hlp => hl l hmem (hlp.trans (hid p))⟩
  · exact ⟨d, hd, hm, hl⟩

theorem Provenance.setState {n : Time} {state : ProfileState} {code : Option String}
    {r : ProfileRecord} {t' : Tables} (h : Provenance cipher draws t)
    (hs : t.setState n q state code = .ok (r, t')) : Provenance cipher draws t' := by
  obtain ⟨_, -, -, -, rfl⟩ := Tables.setState_ok hs
  exact h.modifyProfile fun d p hm => ⟨hm.1, hm.2, hm.3, hm.4, hm.5, hm.6, hm.7, hm.8⟩

/-- A creation adds the rows of its own draw. -/
theorem Provenance.inserted {n : Time} {name token : String} {d : Draw} {m : NewProfileMaterial}
    {hadm : t.Admits m} (h : Provenance cipher draws t) (hd : d ∈ draws)
    (hm : newMaterial cipher name d = .ok (m, token)) :
    Provenance cipher draws (t.inserted n m hadm) := by
  obtain ⟨hmaterial, -, hdigests⟩ := newMaterial_material hm n
  have hnewId : ∀ l ∈ Tables.newLookups m, l.profileId = m.profileId := by
    intro l hl
    simp only [Tables.newLookups, List.mem_cons, List.not_mem_nil, or_false] at hl
    rcases hl with rfl | rfl <;> rfl
  intro p hp
  rcases List.mem_append.mp hp with hp | hp
  · obtain ⟨d', hd', hm', hl'⟩ := h p hp
    refine ⟨d', hd', hm', fun l hl hlp => ?_⟩
    rcases List.mem_append.mp hl with hl | hl
    · exact hl' l hl hlp
    · -- a new lookup refers to the new row
      have hid : p.id = m.profileId := hlp.symm.trans (hnewId l hl)
      exact absurd (hid ▸ List.mem_map_of_mem hp) hadm.id_new
  · obtain rfl := List.mem_singleton.mp hp
    refine ⟨d, hd, hmaterial, fun l hl hlp => ?_⟩
    rcases List.mem_append.mp hl with hl | hl
    · have hold : m.profileId ∈ t.profiles.map Profile.id := by
        have hlp' : l.profileId = m.profileId := hlp
        exact hlp' ▸ t.lookups_profile l hl
      exact absurd hold hadm.id_new
    · exact hdigests l hl

theorem upheld_provenance : Upheld fun t _ => Provenance cipher draws t where
  crash := id
  erase _ := id
  insert _ h _ := h
  demote h _ ht := h.setState ht
  note h ht := by
    obtain ⟨_, -, -, rfl⟩ := Tables.setRuntimeError_ok ht
    exact h.modifyProfile fun d p hm => ⟨hm.1, hm.2, hm.3, hm.4, hm.5, hm.6, hm.7, hm.8⟩
  discard h ht := by
    rw [Tables.deleteLocal_ok ht]
    intro p hp
    obtain ⟨d, hd, hm, hl⟩ := h p (List.mem_of_mem_filter hp)
    exact ⟨d, hd, hm, fun l hmem => hl l (List.mem_of_mem_filter hmem)⟩

theorem admitted_provenance (q : Uuid) : Admitted (fun t _ => Provenance cipher draws t) q where
  insert _ h _ := h
  promote h ht := h.setState ht

/-- **Tables that are complete and drawn**: what every statement about credentials starts from. -/
def Accounted (cipher : SecretCipher) (draws : List Draw) (t : Tables) : Prop :=
  Provenance cipher draws t ∧ t.Complete

/-- **At every moment of a run, the tables are accounted for by its draws.** -/
theorem accounted_runActions (env : Env) (actions : List Action) {w : World}
    (hw : w.tables = .empty) :
    Since w.history (fun t _ => Accounted env.cipher (drawsOf actions) t)
      (runActions env actions w) := by
  refine (upheld_provenance.and upheld_complete).runActions (fun a ha => ?_) (Since.start ?_)
  · cases a with
    | xrayCrash => trivial
    | call c =>
      cases c with
      | create name d =>
        refine ⟨(admitted_provenance _).and (admitted_complete _),
          fun t u n normalized m token r t' h hm hi => ?_⟩
        obtain ⟨hadm, -, rfl⟩ := Tables.insertPending_ok hi
        exact ⟨h.1.inserted (mem_drawsOf ha) hm, h.2.inserted hadm⟩
      | enable q => exact (admitted_provenance q).and (admitted_complete q)
      | disable q => trivial
      | delete q => trivial
      | reconcile => trivial
  · rw [hw]
    exact ⟨by simp [Provenance, Tables.empty], Tables.complete_empty⟩

end Provenance

/-! ### What a digest leads to -/

section Digests

variable {cipher : SecretCipher} {draws : List Draw} {t : Tables} {r : ProfileRecord}

/-- A lookup is the only one with its digest. -/
theorem Tables.find?_digest {l : ProfileLookup} (hl : l ∈ t.lookups) :
    t.lookups.find? (fun l' => l'.kind = l.kind ∧ l'.lookupDigest = l.lookupDigest) = some l := by
  have hsome : (t.lookups.find? fun l' => l'.kind = l.kind ∧
      l'.lookupDigest = l.lookupDigest).isSome = true :=
    List.find?_isSome.mpr ⟨l, hl, by simp⟩
  obtain ⟨l', hl'⟩ := Option.isSome_iff_exists.mp hsome
  have hdigest : l'.lookupDigest = l.lookupDigest := by
    have := List.find?_some hl'
    simp only [decide_eq_true_eq] at this
    exact this.2
  rw [hl', List.inj_on_of_nodup_map t.digests_nodup (List.mem_of_find?_eq_some hl') hl hdigest]

/-- The lookup of a row that was drawn holds the digest of its draw. -/
theorem Accounted.digest (h : Accounted cipher draws t) {p : Profile} (hp : p ∈ t.profiles) :
    ∃ d ∈ draws, d.Material cipher p ∧
      ∀ k, ∃ l ∈ t.lookups, l.profileId = p.id ∧ l.kind = k ∧ l.lookupDigest = d.digest cipher k := by
  obtain ⟨d, hd, hm, hl⟩ := h.1 p hp
  refine ⟨d, hd, hm, fun k => ?_⟩
  obtain ⟨l, hlookup⟩ := h.2 p hp k
  obtain ⟨hmem, hid, rfl⟩ := Tables.lookup_eq_some hlookup
  exact ⟨l, hmem, hid, rfl, hl l hmem hid⟩

/-- In accounted tables every row is a record. -/
theorem Accounted.exists_record (h : Accounted cipher draws t) {p : Profile}
    (hp : p ∈ t.profiles) : ∃ r ∈ t.records, r.toProfile = p := by
  obtain ⟨digest, hget⟩ := h.2.get hp
  exact ⟨⟨p, digest⟩, Tables.get_mem_records hget, rfl⟩

end Digests

/-! ### An installation with an exact digest -/

/-- A digest that is injective: it keeps the messages of a list in thirty-two bytes each, and
makes every other message longer than that. -/
def tabledDigest (known : List Bytes) (message : Bytes) : Bytes :=
  if message ∈ known then List.replicate 32 (UInt8.ofNat (known.idxOf message))
  else List.replicate 40 0 ++ message

theorem tabledDigest_injective {known : List Bytes} (hlen : known.length ≤ 256) :
    Function.Injective (tabledDigest known) := by
  have hshort : ∀ {m}, m ∈ known → (tabledDigest known m).length = 32 := fun {m} hm => by
    rw [tabledDigest, if_pos hm, List.length_replicate]
  have hlong : ∀ {m}, m ∉ known → 40 ≤ (tabledDigest known m).length := fun {m} hm => by
    rw [tabledDigest, if_neg hm, List.length_append, List.length_replicate]
    omega
  intro a b h
  by_cases ha : a ∈ known <;> by_cases hb : b ∈ known
  · rw [tabledDigest, tabledDigest, if_pos ha, if_pos hb] at h
    have hbyte := (List.replicate_inj.mp h).2.resolve_left (by decide)
    have hia := List.idxOf_lt_length_of_mem ha
    have hib := List.idxOf_lt_length_of_mem hb
    have hidx := congrArg UInt8.toNat hbyte
    rw [UInt8.toNat_ofNat', UInt8.toNat_ofNat', Nat.mod_eq_of_lt (by omega),
      Nat.mod_eq_of_lt (by omega)] at hidx
    exact (List.idxOf_inj ha).mp hidx
  · have := hlong hb
    rw [← h, hshort ha] at this
    omega
  · have := hlong ha
    rw [h, hshort hb] at this
    omega
  · rw [tabledDigest, tabledDigest, if_neg ha, if_neg hb] at h
    exact List.append_cancel_left h

/-- The messages an installation with one sample profile digests. -/
def sampleMessages : List Bytes :=
  [asciiBytes "ezopenpn/wrap/v1", asciiBytes "ezopenpn/lookup/v1",
    asciiBytes (sampleDraw 1).tokenText,
    asciiBytes "ezopenpn/hysteria-auth/v1:" ++ asciiBytes (sampleDraw 1).secretText]

/-- The sample cipher with an injective digest. -/
def exactCipher : SecretCipher :=
  { sampleCipher with hmac := fun _ message => tabledDigest sampleMessages message }

/-- The calm installation over that cipher. -/
def exactEnv : Env := { calmEnv with cipher := exactCipher }

theorem exactEnv_digest : Function.Injective exactEnv.cipher.lookupDigest :=
  tabledDigest_injective (by decide)

theorem exactEnv_aead : exactEnv.cipher.aead.Correct where
  length_encrypt key nonce value context _ hnonce := by
    change (nonce ++ value ++ List.replicate 16 0).length = _
    rw [List.length_append, List.length_append, List.length_replicate, hnonce]
  decrypt_encrypt key nonce value context _ hnonce := by
    have hlen : (nonce ++ value ++ List.replicate 16 (0 : UInt8)).length =
        (nonce ++ value).length + 16 := by rw [List.length_append, List.length_replicate]
    have hsize : ¬(nonce ++ value ++ List.replicate 16 (0 : UInt8)).length < 40 := by
      rw [hlen, List.length_append, hnonce]
      omega
    have hbody : (nonce ++ value ++ List.replicate 16 (0 : UInt8)).length - 16 =
        (nonce ++ value).length := by omega
    have hencrypt : exactEnv.cipher.aead.encrypt key nonce value context =
        nonce ++ value ++ List.replicate 16 0 := rfl
    rw [hencrypt]
    simp only [exactEnv, exactCipher, sampleCipher]
    rw [hbody, List.drop_left, List.take_left, ← hnonce, List.drop_left, if_neg]
    simp only [not_or]
    exact ⟨hsize, by decide⟩

theorem sampleDraw_nonced (n : UInt8) : (sampleDraw n).Nonced := ⟨rfl, rfl, rfl, rfl⟩

end EzOpenPN
