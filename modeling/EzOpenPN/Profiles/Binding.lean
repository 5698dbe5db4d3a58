import EzOpenPN.Profiles.Credentials
import EzOpenPN.Profiles.LinkRoundTrip

/-!
# Stored secrets stay with their profile and their field

Four ciphertexts are stored with a profile: its wrapped key, and under that key three values. A
row of the database can be edited, and what the cipher adds to the encryption is that an edited
row does not decrypt to something else: every ciphertext is bound to a **context**, which names
the layer, the profile and the field. One writer and three readers build these contexts, each
from the record it has in hand.

What has to be so for this to work is arithmetic on texts: two contexts are the same only for the
same layer, the same profile and the same field (`EzOpenPN.profileKeyContext_injective`,
`EzOpenPN.profileValueContext_injOn`, `EzOpenPN.profileKeyContext_ne_profileValueContext`). The
rest is the AEAD, which is not part of the repository. It is taken as *ideal* with respect to the
encryptions that were made (`EzOpenPN.Aead.Ideal`): of the ciphertexts they gave, it decrypts
none under another key or in another context.

The rearrangements are those of whoever can write to the database
(`EzOpenPN.Creation.Rearranged`): a row keeps its identifier, and in each of its four places
holds any stored ciphertext of any profile whatever, the same one twice if need be.
-/

namespace EzOpenPN

open Prog

/-! ### Contexts -/

/-- The fields of a profile that are stored encrypted. -/
def profileFields : List String := ["user-id", "hysteria-auth", "subscription-token"]

theorem asciiBytes_append (a b : String) : asciiBytes (a ++ b) = asciiBytes a ++ asciiBytes b := by
  simp [asciiBytes]

/-- **A value context names profile and field.** -/
theorem profileValueContext_injOn {u v : Uuid} {f g : String} (hf : f ∈ profileFields)
    (hg : g ∈ profileFields) (h : profileValueContext u f = profileValueContext v g) :
    u = v ∧ f = g := by
  have hlen : (asciiBytes u.text).length = (asciiBytes v.text).length := by
    simp [asciiBytes, Uuid.text, Uuid.length_chars]
  simp only [profileValueContext, asciiBytes_append, List.append_assoc] at h
  obtain ⟨hid, hrest⟩ := List.append_inj (List.append_cancel_left h) hlen
  have hfield : asciiBytes f = asciiBytes g :=
    List.append_cancel_right (List.append_cancel_left hrest)
  have hfields : ∀ f ∈ profileFields, ∀ g ∈ profileFields, asciiBytes f = asciiBytes g → f = g := by
    decide
  exact ⟨Uuid.asciiBytes_text_injective hid, hfields f hf g hg hfield⟩

/-- **A key context names the profile.** -/
theorem profileKeyContext_injective : Function.Injective SecretCipher.profileKeyContext :=
  fun _ _ h => Subtype.ext (List.append_cancel_left h)

/-- **The two layers have no context in common**: they part at the seventeenth character. -/
theorem profileKeyContext_ne_profileValueContext (u v : Uuid) (f : String) :
    SecretCipher.profileKeyContext u ≠ profileValueContext v f := by
  intro h
  have hhead : ∀ rest rest' : Bytes, asciiBytes "ezopenpn/profile-key/v1:" ++ rest ≠
      asciiBytes "ezopenpn/profile/" ++ rest' := fun rest rest' he => by
    have hbyte := congrArg (fun b : Bytes => b.take 17) he
    have hkey : (asciiBytes "ezopenpn/profile-key/v1:" ++ rest).take 17 =
        asciiBytes "ezopenpn/profile-" := rfl
    have hvalue : (asciiBytes "ezopenpn/profile/" ++ rest').take 17 =
        asciiBytes "ezopenpn/profile/" := rfl
    simp only [hkey, hvalue] at hbyte
    exact absurd hbyte (by decide)
  simp only [SecretCipher.profileKeyContext, profileValueContext, asciiBytes_append,
    List.append_assoc] at h
  exact hhead _ _ h

/-! ### The encryptions that were made -/

/-- One encryption: everything the AEAD was called with. -/
structure Encryption where
  key : Bytes
  nonce : Bytes
  value : Bytes
  context : Bytes
  deriving DecidableEq

/-- What the AEAD made of it. -/
def Encryption.blob (aead : Aead) (e : Encryption) : Bytes :=
  aead.encrypt e.key e.nonce e.value e.context

/-- **The AEAD is ideal on a log of encryptions**: a ciphertext of the log decrypts only under a
key and in a context with which the log made it. -/
def Aead.Ideal (aead : Aead) (log : List Encryption) : Prop :=
  ∀ key context blob value, (∃ e ∈ log, e.blob aead = blob) →
    aead.decrypt key blob context = some value →
      ∃ e ∈ log, e.key = key ∧ e.context = context ∧ e.blob aead = blob

section Ideal

variable {aead : Aead} {log : List Encryption} {key blob context value : Bytes}

/-- A decryption that returns ran under a key of the right size, and the AEAD accepted what
follows the format byte. -/
theorem SecretCipher.decrypt_ok (h : SecretCipher.decrypt aead key blob context = .ok value) :
    key.length = 32 ∧ aead.decrypt key (blob.drop 1) context = some value := by
  rw [SecretCipher.decrypt, Except.bind_eq_ok] at h
  obtain ⟨_, hkey, h⟩ := h
  refine ⟨SecretCipher.requireKey_ok.mp hkey, ?_⟩
  simp only [throw, throwThe, MonadExceptOf.throw, bind, Except.bind, pure, Except.pure] at h
  by_cases hcontext : context = []
  · simp [hcontext] at h
  by_cases hsize : blob.length < SecretCipher.minimumSize
  · simp [hcontext, hsize] at h
  by_cases hversion : blob.take 1 ≠ SecretCipher.formatVersion
  · simp [hcontext, hsize, hversion] at h
  rw [if_neg hcontext, if_neg hsize, if_neg hversion] at h
  rcases hd : aead.decrypt key (blob.drop 1) context with _ | v
  · rw [hd] at h
    exact absurd h (by simp)
  · rw [hd] at h
    obtain rfl := Except.ok.inj h
    rfl

/-- **What an ideal AEAD decrypts of the log** is the value of an encryption that was made under
this key and in this context. -/
theorem Aead.Ideal.decrypt (hideal : aead.Ideal log) (haead : aead.Correct)
    (hnonces : ∀ e ∈ log, e.nonce.length = 24)
    (hblob : ∃ e ∈ log, blob = SecretCipher.formatVersion ++ e.blob aead)
    (h : SecretCipher.decrypt aead key blob context = .ok value) :
    ∃ e ∈ log, e.key = key ∧ e.context = context ∧ e.value = value := by
  obtain ⟨hkey, hdecrypt⟩ := SecretCipher.decrypt_ok h
  obtain ⟨e₀, he₀, rfl⟩ := hblob
  have hdrop : (SecretCipher.formatVersion ++ e₀.blob aead).drop 1 = e₀.blob aead := rfl
  rw [hdrop] at hdecrypt
  obtain ⟨e, he, rfl, rfl, hsame⟩ := hideal _ _ _ _ ⟨e₀, he₀, rfl⟩ hdecrypt
  refine ⟨e, he, rfl, rfl, ?_⟩
  rw [← hsame, Encryption.blob,
    haead.decrypt_encrypt e.key e.nonce e.value e.context hkey (hnonces e he)] at hdecrypt
  exact Option.some.inj hdecrypt

end Ideal

namespace Draw

/-- The encryption of one field of a draw. -/
def valueEncryption (d : Draw) (nonce value : Bytes) (field : String) : Encryption :=
  ⟨d.profileKey, nonce, value, profileValueContext d.profileId field⟩

@[simp] theorem valueEncryption_context (d : Draw) (nonce value : Bytes) (field : String) :
    (d.valueEncryption nonce value field).context = profileValueContext d.profileId field := by
  rw [valueEncryption]

theorem valueEncryption_blob (d : Draw) (nonce value : Bytes) (field : String) (aead : Aead) :
    (d.valueEncryption nonce value field).blob aead =
      aead.encrypt d.profileKey nonce value (profileValueContext d.profileId field) := by
  rw [valueEncryption, Encryption.blob]

/-- The encryption of the profile key of a draw. -/
def keyEncryption (cipher : SecretCipher) (d : Draw) : Encryption :=
  ⟨cipher.wrapKey, d.keyNonce, d.profileKey, SecretCipher.profileKeyContext d.profileId⟩

/-- **The four encryptions of a creation.** -/
def encryptions (cipher : SecretCipher) (d : Draw) : List Encryption :=
  [d.keyEncryption cipher,
    d.valueEncryption d.userIdNonce d.userId.bytes "user-id",
    d.valueEncryption d.hysteriaNonce d.hysteriaSecret "hysteria-auth",
    d.valueEncryption d.tokenNonce (asciiBytes d.tokenText) "subscription-token"]

theorem Nonced.encryptions {cipher : SecretCipher} {d : Draw} (h : d.Nonced) :
    ∀ e ∈ d.encryptions cipher, e.nonce.length = 24 := by
  intro e he
  simp only [Draw.encryptions, List.mem_cons, List.not_mem_nil, or_false] at he
  rcases he with rfl | rfl | rfl | rfl
  · exact h.keyNonce
  · exact h.userIdNonce
  · exact h.hysteriaNonce
  · exact h.tokenNonce

/-- The value a draw has for a field. -/
def fieldValue (d : Draw) (field : String) : Bytes :=
  if field = "user-id" then d.userId.bytes
  else if field = "hysteria-auth" then d.hysteriaSecret
  else asciiBytes d.tokenText

variable {cipher : SecretCipher} {d : Draw} {e : Encryption} {u : Uuid}

/-- **An encryption in a value context** encrypted the field of the profile the context names. -/
theorem value_of_valueContext {field : String} (hfield : field ∈ profileFields)
    (he : e ∈ d.encryptions cipher) (h : e.context = profileValueContext u field) :
    d.profileId = u ∧ e.value = d.fieldValue field := by
  simp only [encryptions, List.mem_cons, List.not_mem_nil, or_false] at he
  rcases he with rfl | rfl | rfl | rfl
  · exact absurd h (profileKeyContext_ne_profileValueContext _ _ _)
  all_goals
    rw [valueEncryption_context] at h
    obtain ⟨hid, rfl⟩ := profileValueContext_injOn (by decide) hfield h
    exact ⟨hid, rfl⟩

end Draw

/-! ### The profiles that were created -/

/-- A profile that was created: the record the service returned, and what it was drawn from. -/
structure Creation where
  record : ProfileRecord
  draw : Draw

/-- **The profiles a sequence of calls of `ProfileService.create` creates.** A call that raises
creates none. -/
def createAll (env : Env) : List (String × Draw) → World → List Creation
  | [], _ => []
  | (name, draw) :: calls, w =>
    match serviceCreate env name draw w with
    | (.ok (record, _), w') => ⟨record, draw⟩ :: createAll env calls w'
    | (.error _, w') => createAll env calls w'

/-- The encryptions that made the stored ciphertexts of some profiles. -/
def encryptionLog (cipher : SecretCipher) (created : List Creation) : List Encryption :=
  created.flatMap fun c => c.draw.encryptions cipher

/-- The ciphertexts stored with a profile: the wrapped key and the three values. -/
def Profile.blobs (p : Profile) : List Bytes :=
  p.wrappedProfileKey.toList ++
    [p.userIdCiphertext, p.hysteriaSecretCiphertext, p.subscriptionTokenCiphertext]

/-- **A rearranged record of a profile**: it has the identifier of the profile, and every
ciphertext in it is one that is stored with some profile, in whatever place. -/
structure Creation.Rearranged (created : List Creation) (c : Creation) (r : ProfileRecord) :
    Prop where
  id : r.id = c.record.id
  blobs : ∀ b ∈ r.blobs, ∃ c' ∈ created, b ∈ c'.record.blobs

/-- **A record of a profile that was not rearranged**: its material is in place. What else a row
holds may have changed since. -/
structure Creation.Unmoved (c : Creation) (r : ProfileRecord) : Prop where
  id : r.id = c.record.id
  wrappedProfileKey : r.wrappedProfileKey = c.record.wrappedProfileKey
  userId : r.userIdCiphertext = c.record.userIdCiphertext
  hysteriaSecret : r.hysteriaSecretCiphertext = c.record.hysteriaSecretCiphertext
  subscriptionToken : r.subscriptionTokenCiphertext = c.record.subscriptionTokenCiphertext

/-- **One creation**: the record holds the material of the draw, under an identifier that was not
there. -/
theorem wp_serviceCreate (env : Env) (name : String) (draw : Draw) (w : World) :
    wp (serviceCreate env name draw)
      (fun res v => draw.Material env.cipher res.1.toProfile ∧
        res.1.id ∉ w.tables.profiles.map Profile.id ∧
        v.tables.profiles.map Profile.id = w.tables.profiles.map Profile.id ++ [res.1.id])
      (fun _ v => v.tables = w.tables) w := by
  rw [serviceCreate, wp_bind, wp_ofExcept]
  refine ⟨fun normalized _ => ?_, fun _ _ => rfl⟩
  rw [wp_bind, wp_ofExcept]
  refine ⟨fun mt hmt => ?_, fun _ _ => rfl⟩
  obtain ⟨m, token⟩ := mt
  rw [wp_bind, repositoryInsertPending, wp_transaction]
  refine ⟨fun r t ht => (wp_pure _).mpr ?_, fun _ _ => World.arrive_tables⟩
  obtain ⟨hadm, rfl, rfl⟩ := Tables.insertPending_ok ht
  refine ⟨(newMaterial_material hmt _).1, hadm.id_new, ?_⟩
  rw [World.record_tables]
  exact List.map_append

/-- **What was created** holds the material of its draw, and no two profiles have one
identifier. -/
theorem createAll_spec (env : Env) (calls : List (String × Draw)) : ∀ w : World,
    (∀ c ∈ createAll env calls w, c.draw.Material env.cipher c.record.toProfile ∧
      c.record.id ∉ w.tables.profiles.map Profile.id ∧ ∃ name, (name, c.draw) ∈ calls) ∧
    ((createAll env calls w).map fun c => c.record.id).Nodup := by
  induction calls with
  | nil => exact fun w => ⟨by simp [createAll], by simp [createAll]⟩
  | cons call calls ih =>
    intro w
    obtain ⟨name, draw⟩ := call
    have hspec := wp_serviceCreate env name draw w
    rw [createAll]
    rcases hrun : serviceCreate env name draw w with ⟨e | ⟨record, token⟩, w'⟩
    · obtain ⟨hall, hnd⟩ := ih w'
      have htables : w'.tables = w.tables := by
        rw [wp, hrun] at hspec
        exact hspec
      refine ⟨fun c hc => ?_, hnd⟩
      obtain ⟨hm, hnew, n, hcall⟩ := hall c hc
      exact ⟨hm, htables ▸ hnew, n, List.mem_cons_of_mem _ hcall⟩
    · obtain ⟨hall, hnd⟩ := ih w'
      rw [wp, hrun] at hspec
      obtain ⟨hmaterial, hnew, hids⟩ := hspec
      have hlater : ∀ c ∈ createAll env calls w', c.record.id ∉ w.tables.profiles.map Profile.id ∧
          c.record.id ≠ record.id := fun c hc => by
        have hfresh := (hall c hc).2.1
        rw [hids, List.mem_append, not_or, List.mem_singleton] at hfresh
        exact hfresh
      refine ⟨fun c hc => ?_, ?_⟩
      · rcases List.mem_cons.mp hc with rfl | hc
        · exact ⟨hmaterial, hnew, name, List.mem_cons_self⟩
        · obtain ⟨hm, -, n, hcall⟩ := hall c hc
          exact ⟨hm, (hlater c hc).1, n, List.mem_cons_of_mem _ hcall⟩
      · rw [List.map_cons, List.nodup_cons]
        refine ⟨fun hmem => ?_, hnd⟩
        obtain ⟨c, hc, hid⟩ := List.mem_map.mp hmem
        exact (hlater c hc).2 hid

/-! ### What a rearranged record decrypts to -/

/-- A wrapping that returns is an encryption in the key context of the profile. -/
theorem SecretCipher.wrapProfileKey_ok {cipher : SecretCipher} {u : Uuid}
    {nonce key wrapped : Bytes} (h : cipher.wrapProfileKey u nonce key = .ok wrapped) :
    SecretCipher.encrypt cipher.aead cipher.wrapKey nonce key
      (SecretCipher.profileKeyContext u) = .ok wrapped := by
  rw [SecretCipher.wrapProfileKey, Except.bind_eq_ok] at h
  obtain ⟨_, -, h⟩ := h
  exact h

/-- The stored ciphertext of one field was made by the encryption of that field. -/
theorem Draw.eq_blob_of_encryptProfileValue {cipher : SecretCipher} {d : Draw}
    {nonce value b : Bytes} {field : String}
    (h : cipher.encryptProfileValue d.profileKey nonce value
      (profileValueContext d.profileId field) = .ok b) :
    b = SecretCipher.formatVersion ++ (d.valueEncryption nonce value field).blob cipher.aead := by
  rw [SecretCipher.encryptProfileValue] at h
  rw [Draw.valueEncryption_blob]
  exact (SecretCipher.encrypt_ok h).2.2

/-- **Every stored ciphertext was made by an encryption of its draw.** -/
theorem Draw.Material.mem_blobs {cipher : SecretCipher} {d : Draw} {p : Profile} {b : Bytes}
    (h : d.Material cipher p) (hb : b ∈ p.blobs) :
    ∃ e ∈ d.encryptions cipher, b = SecretCipher.formatVersion ++ e.blob cipher.aead := by
  obtain ⟨wrapped, hwrapped, hwrap⟩ := h.wrappedProfileKey
  have hkey : wrapped = SecretCipher.formatVersion ++
      (d.keyEncryption cipher).blob cipher.aead := by
    rw [Draw.keyEncryption, Encryption.blob]
    exact (SecretCipher.encrypt_ok (SecretCipher.wrapProfileKey_ok hwrap)).2.2
  have huser := Draw.eq_blob_of_encryptProfileValue h.userId
  have hsecret := Draw.eq_blob_of_encryptProfileValue h.hysteriaSecret
  have htoken := Draw.eq_blob_of_encryptProfileValue h.subscriptionToken
  rw [Profile.blobs, hwrapped] at hb
  simp only [Option.toList_some, List.cons_append, List.nil_append, List.mem_cons,
    List.not_mem_nil, or_false] at hb
  simp only [Draw.encryptions, List.mem_cons, List.not_mem_nil, or_false, exists_eq_or_imp,
    exists_eq_left]
  rcases hb with rfl | rfl | rfl | rfl
  · exact .inl hkey
  · exact .inr (.inl huser)
  · exact .inr (.inr (.inl hsecret))
  · exact .inr (.inr (.inr htoken))

section Rearranged

variable {env : Env} {calls : List (String × Draw)} {w : World} {c : Creation} {r : ProfileRecord}

/-- The one creation whose draw has the identifier of a record. -/
theorem eq_of_profileId (hc : c ∈ createAll env calls w) {c' : Creation}
    (hc' : c' ∈ createAll env calls w) (hid : c'.draw.profileId = c.record.id) : c' = c := by
  obtain ⟨hall, hnd⟩ := createAll_spec env calls w
  have hrecord : c'.record.id = c.record.id := (hall c' hc').1.id.trans hid
  exact List.inj_on_of_nodup_map hnd hc' hc hrecord

/-- **A ciphertext in a rearranged record** decrypts, under whatever key, only to a value that
was encrypted in the context it is decrypted in. -/
theorem Creation.Rearranged.decrypt (hr : c.Rearranged (createAll env calls w) r)
    (haead : env.cipher.aead.Correct) (hnonced : ∀ call ∈ calls, call.2.Nonced)
    (hideal : env.cipher.aead.Ideal (encryptionLog env.cipher (createAll env calls w)))
    {key blob context value : Bytes} (hb : blob ∈ r.blobs)
    (h : SecretCipher.decrypt env.cipher.aead key blob context = .ok value) :
    ∃ c' ∈ createAll env calls w, ∃ e ∈ c'.draw.encryptions env.cipher,
      e.context = context ∧ e.value = value := by
  obtain ⟨hall, -⟩ := createAll_spec env calls w
  have hnonces : ∀ e ∈ encryptionLog env.cipher (createAll env calls w), e.nonce.length = 24 := by
    intro e he
    obtain ⟨c', hc', he'⟩ := List.mem_flatMap.mp he
    obtain ⟨-, -, name, hcall⟩ := hall c' hc'
    exact (hnonced _ hcall).encryptions e he'
  obtain ⟨c₀, hc₀, hb₀⟩ := hr.blobs blob hb
  obtain ⟨e₀, he₀, hblob⟩ := (hall c₀ hc₀).1.mem_blobs hb₀
  obtain ⟨e, he, -, hcontext, hvalue⟩ := hideal.decrypt haead hnonces
    ⟨e₀, List.mem_flatMap.mpr ⟨c₀, hc₀, he₀⟩, hblob⟩ h
  obtain ⟨c', hc', he'⟩ := List.mem_flatMap.mp he
  exact ⟨c', hc', e, he', hcontext, hvalue⟩

/-- **A field of a rearranged record** decrypts to the value that was drawn for this profile and
this field, or not at all. -/
theorem Creation.Rearranged.decryptProfileValue (hr : c.Rearranged (createAll env calls w) r)
    (hc : c ∈ createAll env calls w) (haead : env.cipher.aead.Correct)
    (hnonced : ∀ call ∈ calls, call.2.Nonced)
    (hideal : env.cipher.aead.Ideal (encryptionLog env.cipher (createAll env calls w)))
    {key blob value : Bytes} {field : String} (hfield : field ∈ profileFields)
    (hb : blob ∈ r.blobs)
    (h : env.cipher.decryptProfileValue key blob (profileValueContext r.id field) = .ok value) :
    value = c.draw.fieldValue field := by
  obtain ⟨c', hc', e, he, hcontext, rfl⟩ := hr.decrypt haead hnonced hideal hb h
  obtain ⟨hid, hvalue⟩ := Draw.value_of_valueContext hfield he hcontext
  obtain rfl := eq_of_profileId hc hc' (hid.trans hr.id)
  exact hvalue

/-- **The user id of a rearranged record** is the one of the profile, for both its readers. -/
theorem Creation.Rearranged.storedUserId (hr : c.Rearranged (createAll env calls w) r)
    (hc : c ∈ createAll env calls w) (haead : env.cipher.aead.Correct)
    (hnonced : ∀ call ∈ calls, call.2.Nonced)
    (hideal : env.cipher.aead.Ideal (encryptionLog env.cipher (createAll env calls w)))
    {u : Uuid} (h : storedUserId env.cipher r = some u) : u = c.draw.userId := by
  rw [EzOpenPN.storedUserId, Option.bind_eq_some_iff] at h
  obtain ⟨wrapped, -, h⟩ := h
  rcases hd : decryptUserId env.cipher r wrapped with e | v
  · rw [hd] at h
    exact absurd h (by simp [Except.toOption])
  · rw [hd] at h
    obtain rfl : v = u := Option.some.inj h
    simp only [decryptUserId, Except.bind_eq_ok] at hd
    obtain ⟨key, -, bytes, hbytes, hu⟩ := hd
    have huser := hr.decryptProfileValue hc haead hnonced hideal (by decide)
      (by simp [Profile.blobs]) hbytes
    rw [huser, Draw.fieldValue, if_pos rfl, Uuid.ofBytes_bytes] at hu
    exact (Except.ok.inj hu).symm

/-- **The values behind the links of a rearranged record** are those of the profile. -/
theorem Creation.Rearranged.linkPlaintext (hr : c.Rearranged (createAll env calls w) r)
    (hc : c ∈ createAll env calls w) (haead : env.cipher.aead.Correct)
    (hnonced : ∀ call ∈ calls, call.2.Nonced)
    (hideal : env.cipher.aead.Ideal (encryptionLog env.cipher (createAll env calls w)))
    {v : Uuid × String × String} (h : linkPlaintext env.cipher r = .ok v) :
    v = (c.draw.userId, c.draw.secretText, c.draw.tokenText) := by
  obtain ⟨wrapped, -, hd⟩ := linkPlaintext_ok h
  simp only [decryptLinkValues, Except.bind_eq_ok] at hd
  obtain ⟨key, -, userBytes, huser, u, hu, secretBytes, hsecret, tokenBytes, htoken, token, ht,
    hv⟩ := hd
  have huser' := hr.decryptProfileValue hc haead hnonced hideal (by decide)
    (by simp [Profile.blobs]) huser
  have hsecret' := hr.decryptProfileValue hc haead hnonced hideal (by decide)
    (by simp [Profile.blobs]) hsecret
  have htoken' := hr.decryptProfileValue hc haead hnonced hideal (by decide)
    (by simp [Profile.blobs]) htoken
  obtain rfl : c.draw.userId = u := by
    rw [huser', Draw.fieldValue, if_pos rfl, Uuid.ofBytes_bytes] at hu
    exact Except.ok.inj hu
  obtain rfl : c.draw.tokenText = token := by
    have hascii : isAscii c.draw.tokenText = true := isAscii_encodeUrlSecret _
    rw [htoken', Draw.fieldValue, if_neg (by decide), if_neg (by decide),
      decodeAscii_asciiBytes hascii] at ht
    exact Except.ok.inj ht
  rw [← Except.ok.inj hv, hsecret', Draw.fieldValue, if_neg (by decide), if_pos rfl]
  rfl

/-- A record whose material is in place is read like the one that was created. -/
theorem Creation.Unmoved.linkPlaintext (h : c.Unmoved r) (cipher : SecretCipher) :
    linkPlaintext cipher r = EzOpenPN.linkPlaintext cipher c.record := by
  simp only [EzOpenPN.linkPlaintext, decryptLinkValues, h.id, h.wrappedProfileKey, h.userId,
    h.hysteriaSecret, h.subscriptionToken]

theorem Creation.Unmoved.storedUserId (h : c.Unmoved r) (cipher : SecretCipher) :
    storedUserId cipher r = EzOpenPN.storedUserId cipher c.record :=
  storedUserId_congr h.id h.wrappedProfileKey h.userId

/-- **Stored secrets are bound to their profile and their field.** Of the profiles that were
created, take one and any rearranged record of it: each of the three readers raises, or returns
what was drawn for this profile and this field. Of a record whose material is in place, each
returns exactly that. -/
theorem readers_bound (env : Env) (calls : List (String × Draw)) (w : World)
    (haead : env.cipher.aead.Correct) (hnonced : ∀ call ∈ calls, call.2.Nonced)
    (hideal : env.cipher.aead.Ideal (encryptionLog env.cipher (createAll env calls w))) :
    ∀ c ∈ createAll env calls w,
      (∀ r, c.Rearranged (createAll env calls w) r →
        (∀ v, linkPlaintext env.cipher r = .ok v →
          v = (c.draw.userId, c.draw.secretText, c.draw.tokenText)) ∧
        (∀ u, coordinatorUserId env.cipher r = .ok u → u = c.draw.userId) ∧
        ∀ u, reconcilerUserId env.cipher r = .ok u → u = c.draw.userId) ∧
      ∀ r, c.Unmoved r →
        linkPlaintext env.cipher r = .ok (c.draw.userId, c.draw.secretText, c.draw.tokenText) ∧
        coordinatorUserId env.cipher r = .ok c.draw.userId ∧
        reconcilerUserId env.cipher r = .ok c.draw.userId := by
  intro c hc
  obtain ⟨hmaterial, -, name, hcall⟩ := (createAll_spec env calls w).1 c hc
  refine ⟨fun r hr => ⟨fun v hv => ?_, fun u hu => ?_, fun u hu => ?_⟩, fun r hr => ?_⟩
  · exact hr.linkPlaintext hc haead hnonced hideal hv
  · exact hr.storedUserId hc haead hnonced hideal (readUserId_eq_ok.mp hu)
  · exact hr.storedUserId hc haead hnonced hideal (readUserId_eq_ok.mp hu)
  · have hplain := hmaterial.linkPlaintext haead (hnonced _ hcall)
    have hstored : storedUserId env.cipher r = some c.draw.userId := by
      rw [hr.storedUserId]
      exact storedUserId_of_linkPlaintext hplain
    exact ⟨(hr.linkPlaintext env.cipher).trans hplain, readUserId_eq_ok.mpr hstored,
      readUserId_eq_ok.mpr hstored⟩

end Rearranged

/-! ### An AEAD that is ideal on its log -/

/-- The tag of an encryption: the place of a logged one in the log, counted from one, and zero
for every other. -/
def loggedTag (log : List Encryption) (e : Encryption) : Bytes :=
  if e ∈ log then List.replicate 16 (UInt8.ofNat (log.idxOf e + 1)) else List.replicate 16 0

/-- An AEAD that keeps nonce and value in the clear and authenticates them with that tag. -/
def loggedAead (log : List Encryption) : Aead where
  encrypt key nonce value context := nonce ++ value ++ loggedTag log ⟨key, nonce, value, context⟩
  decrypt key blob context :=
    let nonce := blob.take 24
    let value := (blob.drop 24).take (blob.length - 40)
    if nonce ++ value ++ loggedTag log ⟨key, nonce, value, context⟩ = blob then some value else none

section Logged

variable {log : List Encryption}

theorem length_loggedTag (e : Encryption) : (loggedTag log e).length = 16 := by
  rw [loggedTag]
  split <;> rw [List.length_replicate]

/-- The tag of a logged encryption is the tag of no other. -/
theorem loggedTag_injOn (hlen : log.length < 255) {e e' : Encryption} (he : e ∈ log)
    (h : loggedTag log e' = loggedTag log e) : e' = e := by
  have hi := List.idxOf_lt_length_of_mem he
  have hbyte : ∀ {a b : UInt8}, List.replicate 16 a = List.replicate 16 b → a.toNat = b.toNat :=
    fun hab => congrArg UInt8.toNat ((List.replicate_inj.mp hab).2.resolve_left (by decide))
  by_cases he' : e' ∈ log
  · have hi' := List.idxOf_lt_length_of_mem he'
    rw [loggedTag, loggedTag, if_pos he, if_pos he'] at h
    have hidx := hbyte h
    rw [UInt8.toNat_ofNat', UInt8.toNat_ofNat', Nat.mod_eq_of_lt (by omega),
      Nat.mod_eq_of_lt (by omega)] at hidx
    exact (List.idxOf_inj he').mp (by omega)
  · rw [loggedTag, loggedTag, if_pos he, if_neg he'] at h
    have hidx := hbyte h
    rw [UInt8.toNat_ofNat', Nat.mod_eq_of_lt (by omega)] at hidx
    exact absurd hidx (by simp)

/-- The parts of a ciphertext of this AEAD. -/
theorem loggedAead_parts (log : List Encryption) (key value context : Bytes) {nonce : Bytes}
    (hnonce : nonce.length = 24) :
    let blob := (loggedAead log).encrypt key nonce value context
    blob.take 24 = nonce ∧ (blob.drop 24).take (blob.length - 40) = value := by
  intro blob
  have hblob : blob = nonce ++ (value ++ loggedTag log ⟨key, nonce, value, context⟩) :=
    List.append_assoc _ _ _
  have hlen : blob.length - 40 = value.length := by
    rw [hblob, List.length_append, List.length_append, length_loggedTag, hnonce]
    omega
  refine ⟨by rw [hblob, List.take_left' hnonce], ?_⟩
  rw [hlen, hblob, List.drop_left' hnonce, List.take_left' rfl]

theorem loggedAead_correct (log : List Encryption) : (loggedAead log).Correct where
  length_encrypt key nonce value context _ hnonce := by
    change (nonce ++ value ++ loggedTag log _).length = _
    rw [List.length_append, List.length_append, length_loggedTag, hnonce]
  decrypt_encrypt key nonce value context _ hnonce := by
    obtain ⟨htake, hdrop⟩ := loggedAead_parts log key value context hnonce
    have hdecrypt : ∀ blob, (loggedAead log).decrypt key blob context =
        if blob.take 24 ++ (blob.drop 24).take (blob.length - 40) ++ loggedTag log
          ⟨key, blob.take 24, (blob.drop 24).take (blob.length - 40), context⟩ = blob then
        some ((blob.drop 24).take (blob.length - 40)) else none := fun _ => rfl
    rw [hdecrypt, htake, hdrop]
    exact if_pos rfl

/-- **It is ideal on every part of its log.** -/
theorem loggedAead_ideal (hlen : log.length < 255) (hnonce : ∀ e ∈ log, e.nonce.length = 24)
    {log' : List Encryption} (hsub : ∀ e ∈ log', e ∈ log) : (loggedAead log).Ideal log' := by
  rintro key context blob value ⟨e, he, rfl⟩ h
  obtain ⟨htake, hdrop⟩ := loggedAead_parts log e.key e.value e.context
    (hnonce e (hsub e he))
  simp only [loggedAead, Encryption.blob] at h htake hdrop
  rw [htake, hdrop, Option.ite_none_right_eq_some] at h
  have htag := loggedTag_injOn hlen (hsub e he) (List.append_cancel_left h.1)
  refine ⟨e, he, ?_, ?_, rfl⟩
  · rw [← htag]
  · rw [← htag]

end Logged

/-- Two calls of the service. -/
def sampleCalls : List (String × Draw) := [("anna", sampleDraw 1), ("berta", sampleDraw 2)]

/-- Everything the two calls encrypt. -/
def sampleLog : List Encryption :=
  sampleCalls.flatMap fun call => call.2.encryptions sampleCipher

/-- The calm installation over an AEAD that is ideal on that log. -/
def idealEnv : Env :=
  { calmEnv with cipher := { sampleCipher with aead := loggedAead sampleLog } }

theorem mem_sampleLog {e : Encryption}
    (h : e ∈ encryptionLog idealEnv.cipher (createAll idealEnv sampleCalls freshWorld)) :
    e ∈ sampleLog := by
  obtain ⟨c, hc, he⟩ := List.mem_flatMap.mp h
  obtain ⟨-, -, name, hcall⟩ := (createAll_spec idealEnv sampleCalls freshWorld).1 c hc
  exact List.mem_flatMap.mpr ⟨_, hcall, he⟩

/-- Both calls create a profile, and the stored secrets of the two are bound. -/
theorem readers_bound_sample :
    (createAll idealEnv sampleCalls freshWorld).length = 2 ∧
      ∀ c ∈ createAll idealEnv sampleCalls freshWorld,
        (∀ r, c.Rearranged (createAll idealEnv sampleCalls freshWorld) r →
          (∀ v, linkPlaintext idealEnv.cipher r = .ok v →
            v = (c.draw.userId, c.draw.secretText, c.draw.tokenText)) ∧
          (∀ u, coordinatorUserId idealEnv.cipher r = .ok u → u = c.draw.userId) ∧
          ∀ u, reconcilerUserId idealEnv.cipher r = .ok u → u = c.draw.userId) ∧
        ∀ r, c.Unmoved r →
          linkPlaintext idealEnv.cipher r =
            .ok (c.draw.userId, c.draw.secretText, c.draw.tokenText) ∧
          coordinatorUserId idealEnv.cipher r = .ok c.draw.userId ∧
          reconcilerUserId idealEnv.cipher r = .ok c.draw.userId := by
  have hnonced : ∀ call ∈ sampleCalls, call.2.Nonced := by
    intro call hcall
    simp only [sampleCalls, List.mem_cons, List.not_mem_nil, or_false] at hcall
    rcases hcall with rfl | rfl <;> exact sampleDraw_nonced _
  have hnonce : ∀ e ∈ sampleLog, e.nonce.length = 24 := by
    intro e he
    obtain ⟨call, hcall, he⟩ := List.mem_flatMap.mp he
    exact (hnonced call hcall).encryptions e he
  exact ⟨by decide +kernel, readers_bound idealEnv sampleCalls freshWorld
    (loggedAead_correct sampleLog) hnonced (loggedAead_ideal (by decide) hnonce fun _ => mem_sampleLog)⟩

end EzOpenPN
