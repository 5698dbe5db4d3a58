import EzOpenPN.Lib.Log
import EzOpenPN.Profiles.Links

/-!
# The challenge of the login form

The login page hands out a challenge: a nonce in a cookie and, in the form, a token that is
derived from it. The challenge is also a row of `system_state`, under a key derived from the
nonce, and sending the form takes that row away. So a challenge is good for one request, and the
request has to carry both halves of it before it expires; `EzOpenPN.challenges_are_one_time` says
so for every order of issuing and consuming and every reading of the clock.

Issuing also sweeps up. The sweep goes by the time at which a row was written and the check of an
expiry by a time written in the row; both are the same instant, moved by the lifetime, so that the
sweep takes only what could not be used any more. It selects its rows by the beginning of their
key, ignoring case as `LIKE` does: what it takes are challenges as long as nothing else writes
keys with that beginning, and nothing else does.
-/

namespace EzOpenPN

/-! ### The service -/

/-- A row of `system_state`, under its key. -/
structure SystemState where
  valueJson : String
  updatedAt : Time
  deriving DecidableEq

/-- The table `system_state`, by its primary key. -/
abbrev SystemStates := String → Option SystemState

/-- What reading the expiry of a row gives. -/
inductive ExpiryReading where
  /-- A step raises `KeyError`, `TypeError` or `ValueError`. -/
  | unreadable
  /-- A time without a timezone, on which `_utc` raises. -/
  | naive
  | aware (expiresAt : Time)

/-- How an expiry is written to `value_json` and read back. -/
structure ExpiryText where
  /-- `json.dumps({"expires_at": expires_at.isoformat()}, separators=(",", ":"))`. -/
  dumps : Time → String
  /-- `datetime.fromisoformat(str(json.loads(value_json)["expires_at"]))`. -/
  loads : String → ExpiryReading
  loads_dumps : ∀ t, loads (dumps t) = .aware t

/-- **The service of the challenges**, with the checks of its constructor. -/
structure PreAuthService where
  /-- `hmac.digest(key, message, "sha256")`. -/
  hmac : (key message : Bytes) → Bytes
  masterKey : Bytes
  lifetime : ℤ
  text : ExpiryText
  masterKey_length : masterKey.length = 32
  lifetime_pos : 0 < lifetime

/-- `PreAuthChallenge`. -/
structure PreAuthChallenge where
  cookieNonce : String
  formToken : String
  expiresAt : Time
  deriving DecidableEq

/-- `_STATE_PREFIX`. -/
def statePrefix : String := "preauth:"

/-- `digest.hex()`. -/
def hexText (digest : Bytes) : String := String.ofList (digest.flatMap Uuid.hexByte)

/-- The case that `LIKE` ignores. -/
def asciiLower (c : Char) : Char :=
  if 'A' ≤ c ∧ c ≤ 'Z' then Char.ofNat (c.toNat + 32) else c

/-- `key LIKE 'preauth:%'`. -/
def likeState (key : String) : Bool :=
  statePrefix.toList.isPrefixOf (key.toList.map asciiLower)

namespace PreAuthService

variable (svc : PreAuthService)

def formKey : Bytes := svc.hmac svc.masterKey (asciiBytes "ezopenpn/preauth-form/v1")

def storeKey : Bytes := svc.hmac svc.masterKey (asciiBytes "ezopenpn/preauth-store/v1")

/-- `_form_token`. -/
def formToken (nonce : String) : String := encodeUrlSecret (svc.hmac svc.formKey (asciiBytes nonce))

/-- `_state_key`. -/
def stateKey (nonce : String) : String :=
  statePrefix ++ hexText (svc.hmac svc.storeKey (asciiBytes nonce))

/-- The sweep of `issue`. -/
def sweep (timestamp : Time) (t : SystemStates) : SystemStates := fun key =>
  (t key).filter fun row => ¬(likeState key ∧ row.updatedAt < timestamp - svc.lifetime)

/-- **`issue`**: the challenge, or nothing when the insertion runs into the primary key and the
transaction is rolled back. -/
def issue (t : SystemStates) (random : { b : Bytes // b.length = 32 }) (timestamp : Time) :
    Option PreAuthChallenge × SystemStates :=
  let nonce := encodeUrlSecret random.val
  let expiresAt := timestamp + svc.lifetime
  let swept := svc.sweep timestamp t
  match swept (svc.stateKey nonce) with
  | some _ => (none, t)
  | none =>
    (some ⟨nonce, svc.formToken nonce, expiresAt⟩,
      Function.update swept (svc.stateKey nonce) (some ⟨svc.text.dumps expiresAt, timestamp⟩))

/-- The checks on the two texts. -/
def validTexts (cookieNonce formToken : String) : Bool :=
  1 ≤ cookieNonce.length && cookieNonce.length ≤ 128 && 1 ≤ formToken.length &&
    formToken.length ≤ 128 && isAscii cookieNonce && isAscii formToken

/-- **`consume`**: what it returns, or nothing when it raises and the transaction is rolled
back. -/
def consume (t : SystemStates) (cookieNonce formToken : String) (timestamp : Time) :
    Option Bool × SystemStates :=
  if ¬validTexts cookieNonce formToken then (some false, t)
  else if svc.formToken cookieNonce ≠ formToken then (some false, t)
  else
    match t (svc.stateKey cookieNonce) with
    | none => (some false, t)
    | some state =>
      let t' := Function.update t (svc.stateKey cookieNonce) none
      match svc.text.loads state.valueJson with
      | .unreadable => (some false, t')
      | .naive => (none, t)
      | .aware expiresAt => (some (timestamp < expiresAt), t')

end PreAuthService

/-! ### Histories -/

/-- A transaction of the service. -/
inductive PreAuthCall where
  | issue (random : { b : Bytes // b.length = 32 }) (timestamp : Time)
  | consume (cookieNonce formToken : String) (timestamp : Time)
  deriving DecidableEq

/-- What a transaction answered. -/
inductive PreAuthAnswer where
  | issued (challenge : Option PreAuthChallenge)
  | consumed (accepted : Option Bool)
  deriving DecidableEq

/-- One transaction. -/
def PreAuthService.perform (svc : PreAuthService) (t : SystemStates) :
    PreAuthCall → PreAuthAnswer × SystemStates
  | .issue random timestamp =>
    ((.issued (svc.issue t random timestamp).1), (svc.issue t random timestamp).2)
  | .consume cookieNonce formToken timestamp =>
    ((.consumed (svc.consume t cookieNonce formToken timestamp).1),
      (svc.consume t cookieNonce formToken timestamp).2)

/-- **A history**: transactions and their answers, in order. -/
abbrev PreAuthLog := List (PreAuthCall × PreAuthAnswer)

/-- The challenge was issued. -/
def Issued (c : PreAuthChallenge) (log : PreAuthLog) : Prop :=
  ∃ call, (call, .issued (some c)) ∈ log

/-- The nonce was accepted. -/
def Accepted (cookieNonce : String) (log : PreAuthLog) : Prop :=
  ∃ formToken timestamp, (.consume cookieNonce formToken timestamp, .consumed (some true)) ∈ log

/-- The random bytes that a history drew. -/
def drawn (calls : List PreAuthCall) : List { b : Bytes // b.length = 32 } :=
  calls.filterMap fun call => match call with
    | .issue random _ => some random
    | .consume _ _ _ => none

/-! ### Keys -/

theorem hexByte_injective : Function.Injective Uuid.hexByte := by
  have hdigit : ∀ m < 16, ∀ n < 16, Nat.digitChar m = Nat.digitChar n → m = n := by decide
  intro a b h
  simp only [Uuid.hexByte, List.cons.injEq, and_true] at h
  have ha := a.toNat_lt
  have hb := b.toNat_lt
  have hhigh := hdigit _ (by omega) _ (by omega) h.1
  have hlow := hdigit _ (by omega) _ (by omega) h.2
  exact UInt8.toNat_inj.mp (by omega)

theorem hexText_injective : Function.Injective hexText := by
  intro a b h
  have h' : a.flatMap Uuid.hexByte = b.flatMap Uuid.hexByte := String.ofList_injective h
  induction a generalizing b with
  | nil =>
    cases b with
    | nil => rfl
    | cons y b => simp [Uuid.hexByte] at h'
  | cons x a ih =>
    cases b with
    | nil => simp [Uuid.hexByte] at h'
    | cons y b =>
      rw [List.flatMap_cons, List.flatMap_cons] at h'
      obtain ⟨hx, hrest⟩ := List.append_inj h' rfl
      rw [hexByte_injective hx, ih (congrArg String.ofList hrest) hrest]

namespace PreAuthService

variable {svc : PreAuthService}

/-- Nonces with one key are one nonce. -/
theorem stateKey_injOn (hmac : Function.Injective (svc.hmac svc.storeKey)) {a b : String}
    (ha : isAscii a = true) (hb : isAscii b = true) (h : svc.stateKey a = svc.stateKey b) :
    a = b := by
  have hlist := congrArg String.toList h
  rw [stateKey, stateKey, String.toList_append, String.toList_append] at hlist
  have hhex := String.toList_inj.mp (List.append_cancel_left hlist)
  exact asciiBytes_injOn ha hb (hmac (hexText_injective hhex))

/-- The sweep looks at the keys of the challenges. -/
theorem likeState_stateKey (nonce : String) : likeState (svc.stateKey nonce) = true := by
  rw [likeState, stateKey, String.toList_append, List.map_append, List.isPrefixOf_iff_prefix]
  exact List.prefix_append _ _

/-! ### What a transaction does -/

/-- **What a sweep takes** is a row whose key looks like one of a challenge and which was written
more than a lifetime ago. -/
theorem sweep_eq_some {t : SystemStates} {key : String} {row : SystemState} {timestamp : Time} :
    svc.sweep timestamp t key = some row ↔ t key = some row ∧
      ¬(likeState key = true ∧ row.updatedAt < timestamp - svc.lifetime) := by
  rw [sweep, Option.filter_eq_some_iff, decide_eq_true_iff]

/-- **What `issue` does**: it fails and does nothing, or it sweeps and inserts a row under a key
that was free. -/
theorem issue_cases (svc : PreAuthService) (t : SystemStates)
    (random : { b : Bytes // b.length = 32 }) (timestamp : Time) :
    (svc.issue t random timestamp = (none, t) ∧
      t (svc.stateKey (encodeUrlSecret random.val)) ≠ none) ∨
    svc.issue t random timestamp =
      (some ⟨encodeUrlSecret random.val, svc.formToken (encodeUrlSecret random.val),
        timestamp + svc.lifetime⟩,
      Function.update (svc.sweep timestamp t) (svc.stateKey (encodeUrlSecret random.val))
        (some ⟨svc.text.dumps (timestamp + svc.lifetime), timestamp⟩)) ∧
      svc.sweep timestamp t (svc.stateKey (encodeUrlSecret random.val)) = none := by
  simp only [issue]
  rcases h : svc.sweep timestamp t (svc.stateKey (encodeUrlSecret random.val)) with _ | row
  · exact Or.inr ⟨rfl, rfl⟩
  · refine Or.inl ⟨rfl, ?_⟩
    rw [(sweep_eq_some.mp h).1]
    simp

/-- **What `consume` does**: it leaves the table, or it takes the row of the nonce away; and it
accepts only what the row and the form token say. -/
theorem consume_cases (svc : PreAuthService) (t : SystemStates) (cookieNonce formToken : String)
    (timestamp : Time) :
    ((svc.consume t cookieNonce formToken timestamp).1 ≠ some true ∧
      (svc.consume t cookieNonce formToken timestamp).2 = t) ∨
    ∃ row, t (svc.stateKey cookieNonce) = some row ∧
      (svc.consume t cookieNonce formToken timestamp).2 =
        Function.update t (svc.stateKey cookieNonce) none ∧
      ((svc.consume t cookieNonce formToken timestamp).1 = some true →
        isAscii cookieNonce = true ∧ svc.formToken cookieNonce = formToken ∧
        ∃ expiresAt, svc.text.loads row.valueJson = .aware expiresAt ∧ timestamp < expiresAt) := by
  rw [consume]
  by_cases hv : validTexts cookieNonce formToken = true
  · rw [if_neg (by simp [hv])]
    have hascii : isAscii cookieNonce = true := by
      simp only [validTexts, Bool.and_eq_true] at hv
      exact hv.1.2
    by_cases hf : svc.formToken cookieNonce = formToken
    · rw [if_neg (by simp [hf])]
      rcases ht : t (svc.stateKey cookieNonce) with _ | row
      · exact Or.inl ⟨by simp, rfl⟩
      · rcases hl : svc.text.loads row.valueJson with _ | _ | expiresAt
        · exact Or.inr ⟨row, rfl, by simp [hl], by simp [hl]⟩
        · exact Or.inl ⟨by simp [hl], by simp [hl]⟩
        · refine Or.inr ⟨row, rfl, by simp [hl], fun h => ⟨hascii, hf, expiresAt, hl, ?_⟩⟩
          simpa [hl] using h
    · rw [if_pos hf]
      exact Or.inl ⟨by simp, rfl⟩
  · rw [if_pos hv]
    exact Or.inl ⟨by simp, rfl⟩

end PreAuthService

/-! ### The rows follow the history -/

section Histories

variable {svc : PreAuthService} {t : SystemStates} {log : PreAuthLog}
  {entry : PreAuthCall × PreAuthAnswer} {c c' : PreAuthChallenge} {nonce : String}

theorem issued_append : Issued c (log ++ [entry]) ↔ Issued c log ∨ entry.2 = .issued (some c) := by
  simp only [Issued, List.mem_append, List.mem_singleton, exists_or]
  refine or_congr_right ⟨?_, fun h => ⟨entry.1, Prod.ext rfl h.symm⟩⟩
  rintro ⟨call, rfl⟩
  rfl

theorem drawn_append_issue {random : { b : Bytes // b.length = 32 }} {timestamp : Time}
    {answer : PreAuthAnswer} :
    drawn ((log ++ [(PreAuthCall.issue random timestamp, answer)]).map Prod.fst) =
      drawn (log.map Prod.fst) ++ [random] := by
  simp [drawn]

theorem drawn_append_consume {formToken : String} {timestamp : Time} {answer : PreAuthAnswer} :
    drawn ((log ++ [(PreAuthCall.consume nonce formToken timestamp, answer)]).map Prod.fst) =
      drawn (log.map Prod.fst) := by
  simp [drawn]

/-- The transaction accepts the nonce. -/
def Accepts (nonce : String) (entry : PreAuthCall × PreAuthAnswer) : Prop :=
  ∃ formToken timestamp, entry = (.consume nonce formToken timestamp, .consumed (some true))

theorem accepted_append :
    Accepted nonce (log ++ [entry]) ↔ Accepted nonce log ∨ Accepts nonce entry := by
  simp only [Accepted, Accepts, List.mem_append, List.mem_singleton, exists_or, eq_comm]

/-- **The rows of the challenges, as the history left them.** A row that the sweep looks at is the
one of an issued challenge; an accepted nonce was issued and has no row any more; and a challenge
is known by its nonce. -/
structure Challenged (svc : PreAuthService) (log : PreAuthLog) (t : SystemStates) : Prop where
  rows : ∀ key row, likeState key = true → t key = some row → ∃ c, Issued c log ∧
    key = svc.stateKey c.cookieNonce ∧
    row = ⟨svc.text.dumps c.expiresAt, c.expiresAt - svc.lifetime⟩
  accepted : ∀ nonce, Accepted nonce log → t (svc.stateKey nonce) = none ∧
    ∃ c, Issued c log ∧ c.cookieNonce = nonce
  issued : ∀ c, Issued c log → c.formToken = svc.formToken c.cookieNonce ∧
    ∃ random ∈ drawn (log.map Prod.fst), c.cookieNonce = encodeUrlSecret random.val
  unique : ∀ c c', Issued c log → Issued c' log → c.cookieNonce = c'.cookieNonce → c = c'

theorem Challenged.isAscii_nonce (h : Challenged svc log t) (hc : Issued c log) :
    isAscii c.cookieNonce = true := by
  obtain ⟨-, random, -, hrandom⟩ := h.issued c hc
  rw [hrandom]
  exact isAscii_encodeUrlSecret random.val

/-- The row under the key of an ASCII nonce is the one of the challenge with that nonce. -/
theorem Challenged.row_of_nonce (h : Challenged svc log t)
    (hmac : Function.Injective (svc.hmac svc.storeKey)) (hnonce : isAscii nonce = true)
    {row : SystemState} (hrow : t (svc.stateKey nonce) = some row) :
    ∃ c, Issued c log ∧ c.cookieNonce = nonce ∧
      row = ⟨svc.text.dumps c.expiresAt, c.expiresAt - svc.lifetime⟩ := by
  obtain ⟨c, hc, hkey, hvalue⟩ := h.rows _ row (PreAuthService.likeState_stateKey nonce) hrow
  refine ⟨c, hc, ?_, hvalue⟩
  exact PreAuthService.stateKey_injOn hmac (h.isAscii_nonce hc) hnonce hkey.symm

/-- A transaction that issues nothing and only takes rows away keeps the rows and the history
together, if it takes away the row of what it accepts. -/
theorem Challenged.taken (h : Challenged svc log t) {t' : SystemStates}
    (hissued : ∀ c, entry.2 ≠ .issued (some c))
    (haccepts : ∀ nonce, Accepts nonce entry → t' (svc.stateKey nonce) = none ∧
      ∃ c, Issued c log ∧ c.cookieNonce = nonce)
    (htaken : ∀ key row, t' key = some row → t key = some row) :
    Challenged svc (log ++ [entry]) t' := by
  have hiff : ∀ c, Issued c (log ++ [entry]) ↔ Issued c log := fun c => by
    rw [issued_append, or_iff_left (hissued c)]
  refine ⟨?_, ?_, ?_, ?_⟩
  · intro key row hlike hrow
    obtain ⟨c, hc, hrest⟩ := h.rows key row hlike (htaken key row hrow)
    exact ⟨c, (hiff c).mpr hc, hrest⟩
  · intro nonce hnonce
    rcases accepted_append.mp hnonce with hbefore | hnow
    · obtain ⟨hgone, c, hc, hcn⟩ := h.accepted nonce hbefore
      refine ⟨?_, c, (hiff c).mpr hc, hcn⟩
      by_contra hne
      obtain ⟨row, hrow⟩ := Option.ne_none_iff_exists'.mp hne
      rw [htaken _ row hrow] at hgone
      exact absurd hgone (by simp)
    · obtain ⟨hgone, c, hc, hcn⟩ := haccepts nonce hnow
      exact ⟨hgone, c, (hiff c).mpr hc, hcn⟩
  · intro c hc
    obtain ⟨hform, random, hrandom, hnonce⟩ := h.issued c ((hiff c).mp hc)
    refine ⟨hform, random, ?_, hnonce⟩
    rw [List.map_append, drawn, List.filterMap_append]
    exact List.mem_append_left _ hrandom
  · intro c c' hc hc'
    exact h.unique c c' ((hiff c).mp hc) ((hiff c').mp hc')

/-- **What an accepted `consume` says.** -/
theorem Challenged.consume_true (h : Challenged svc log t)
    (hmac : Function.Injective (svc.hmac svc.storeKey)) {formToken : String} {timestamp : Time}
    (ha : (svc.consume t nonce formToken timestamp).1 = some true) :
    ∃ c, Issued c log ∧ c.cookieNonce = nonce ∧ c.formToken = formToken ∧
      timestamp < c.expiresAt := by
  rcases svc.consume_cases t nonce formToken timestamp with ⟨hne, -⟩ | ⟨row, hrow, -, htrue⟩
  · exact absurd ha hne
  · obtain ⟨hascii, hform, expiresAt, hloads, hlt⟩ := htrue ha
    obtain ⟨c, hc, hnonce, rfl⟩ := h.row_of_nonce hmac hascii hrow
    rw [svc.text.loads_dumps] at hloads
    obtain rfl := ExpiryReading.aware.inj hloads
    refine ⟨c, hc, hnonce, ?_, hlt⟩
    rw [(h.issued c hc).1, hnonce, hform]

/-- `consume` keeps the rows and the history together. -/
theorem Challenged.consume (h : Challenged svc log t)
    (hmac : Function.Injective (svc.hmac svc.storeKey)) (formToken : String) (timestamp : Time) :
    Challenged svc
      (log ++ [(.consume nonce formToken timestamp,
        .consumed (svc.consume t nonce formToken timestamp).1)])
      (svc.consume t nonce formToken timestamp).2 := by
  refine h.taken (by simp) ?_ ?_
  · rintro nonce' ⟨formToken', timestamp', heq⟩
    obtain ⟨hcall, hanswer⟩ := Prod.mk.inj heq
    obtain ⟨rfl, rfl, rfl⟩ := PreAuthCall.consume.inj hcall
    have ha := PreAuthAnswer.consumed.inj hanswer
    obtain ⟨c, hc, hnonce, -⟩ := h.consume_true hmac ha
    rcases svc.consume_cases t nonce formToken timestamp with ⟨hne, -⟩ | ⟨row, -, htable, -⟩
    · exact absurd ha hne
    · refine ⟨?_, c, hc, hnonce⟩
      rw [htable, Function.update_self]
  · intro key row hrow
    rcases svc.consume_cases t nonce formToken timestamp with ⟨-, htable⟩ | ⟨_, -, htable, -⟩
    · rwa [htable] at hrow
    · rw [htable] at hrow
      by_cases hkey : key = svc.stateKey nonce
      · rw [hkey, Function.update_self] at hrow
        exact absurd hrow (by simp)
      · rwa [Function.update_of_ne hkey] at hrow

/-- `issue` keeps the rows and the history together, when the nonce is fresh. -/
theorem Challenged.issue (h : Challenged svc log t)
    (hmac : Function.Injective (svc.hmac svc.storeKey))
    {random : { b : Bytes // b.length = 32 }} (timestamp : Time)
    (hfresh : random ∉ drawn (log.map Prod.fst)) :
    Challenged svc
      (log ++ [(.issue random timestamp, .issued (svc.issue t random timestamp).1)])
      (svc.issue t random timestamp).2 := by
  rcases svc.issue_cases t random timestamp with ⟨heq, -⟩ | ⟨heq, -⟩
  · rw [heq]
    exact h.taken (by simp) (by rintro _ ⟨_, _, hcall⟩; simp at hcall) fun _ _ hrow => hrow
  · rw [heq]
    dsimp only
    -- no challenge of the history has the new nonce
    have hnew : ∀ c, Issued c log → c.cookieNonce ≠ encodeUrlSecret random.val := by
      intro c hc hcn
      obtain ⟨-, random', hmem, hnonce⟩ := h.issued c hc
      have hval := encodeUrlSecret_injective (hnonce.symm.trans hcn)
      rw [Subtype.ext hval] at hmem
      exact hfresh hmem
    refine ⟨?_, ?_, ?_, ?_⟩
    · intro key row hlike hrow
      by_cases hkey : key = svc.stateKey (encodeUrlSecret random.val)
      · rw [hkey, Function.update_self] at hrow
        obtain rfl := Option.some.inj hrow
        exact ⟨_, issued_append.mpr (Or.inr rfl), hkey, by simp⟩
      · rw [Function.update_of_ne hkey] at hrow
        obtain ⟨c, hc, hrest⟩ := h.rows key row hlike (PreAuthService.sweep_eq_some.mp hrow).1
        exact ⟨c, issued_append.mpr (Or.inl hc), hrest⟩
    · intro nonce hnonce
      rcases accepted_append.mp hnonce with hbefore | ⟨_, _, hcall⟩
      · obtain ⟨hgone, c, hc, hcn⟩ := h.accepted nonce hbefore
        refine ⟨?_, c, issued_append.mpr (Or.inl hc), hcn⟩
        have hkey : svc.stateKey nonce ≠ svc.stateKey (encodeUrlSecret random.val) := by
          intro hkey
          rw [← hcn] at hkey
          exact hnew c hc (PreAuthService.stateKey_injOn hmac (h.isAscii_nonce hc)
            (isAscii_encodeUrlSecret random.val) hkey)
        rw [Function.update_of_ne hkey, PreAuthService.sweep, hgone]
        rfl
      · simp at hcall
    · intro c hc
      rw [drawn_append_issue]
      rcases issued_append.mp hc with hbefore | hnow
      · obtain ⟨hform, random', hmem, hnonce⟩ := h.issued c hbefore
        exact ⟨hform, random', List.mem_append_left _ hmem, hnonce⟩
      · obtain rfl := Option.some.inj (PreAuthAnswer.issued.inj hnow)
        exact ⟨rfl, random, by simp, rfl⟩
    · intro c c' hc hc' hnonce
      rcases issued_append.mp hc with hb | hn <;> rcases issued_append.mp hc' with hb' | hn'
      · exact h.unique c c' hb hb' hnonce
      · obtain rfl := Option.some.inj (PreAuthAnswer.issued.inj hn')
        exact absurd hnonce (hnew c hb)
      · obtain rfl := Option.some.inj (PreAuthAnswer.issued.inj hn)
        exact absurd hnonce.symm (hnew c' hb')
      · exact Option.some.inj (PreAuthAnswer.issued.inj (hn.symm.trans hn'))

/-- **Every history keeps them together**, when its nonces are fresh. -/
theorem Challenged.run (hmac : Function.Injective (svc.hmac svc.storeKey)) {t₀ : SystemStates}
    (h₀ : ∀ key, likeState key = true → t₀ key = none) (calls : List PreAuthCall)
    (hfresh : (drawn calls).Nodup) :
    Challenged svc (runLog svc.perform t₀ calls).1 (runLog svc.perform t₀ calls).2 := by
  have hrun : (drawn ((runLog svc.perform t₀ calls).1.map Prod.fst)).Nodup →
      Challenged svc (runLog svc.perform t₀ calls).1 (runLog svc.perform t₀ calls).2 := ?_
  · rw [map_fst_runLog] at hrun
    exact hrun hfresh
  refine runLog_induction
    (I := fun log t => (drawn (log.map Prod.fst)).Nodup → Challenged svc log t) ?_ ?_ calls
  · intro _
    refine ⟨?_, ?_, ?_, ?_⟩
    · intro key row hlike hrow
      rw [h₀ key hlike] at hrow
      exact absurd hrow (by simp)
    · rintro nonce ⟨_, _, hmem⟩
      exact absurd hmem (by simp)
    · rintro c ⟨_, hmem⟩
      exact absurd hmem (by simp)
    · rintro c c' ⟨_, hmem⟩
      exact absurd hmem (by simp)
  · intro log t call ih hnodup
    cases call with
    | issue random timestamp =>
      rw [drawn_append_issue, List.nodup_append] at hnodup
      have hnew : random ∉ drawn (log.map Prod.fst) :=
        fun hmem => hnodup.2.2 random hmem random (by simp) rfl
      exact (ih hnodup.1).issue hmac timestamp hnew
    | consume nonce formToken timestamp =>
      rw [drawn_append_consume] at hnodup
      exact (ih hnodup).consume hmac formToken timestamp

/-- **Challenges are one-time.** After any history from a table that has no row under the keys of
the challenges, with nonces that are fresh: no nonce is accepted twice; it is accepted only after
its challenge was issued, with the form token of the challenge and before its expiry; and a further
`issue` removes neither the row of a challenge that has not expired nor a row that is not one of a
challenge. -/
theorem challenges_are_one_time (hmac : Function.Injective (svc.hmac svc.storeKey))
    {t₀ : SystemStates} (h₀ : ∀ key, likeState key = true → t₀ key = none)
    (calls : List PreAuthCall) (hfresh : (drawn calls).Nodup)
    (hrun : runLog svc.perform t₀ calls = (log, t)) :
    (∀ pre e mid e' rest nonce, log = pre ++ e :: (mid ++ e' :: rest) →
      ¬(Accepts nonce e ∧ Accepts nonce e')) ∧
    (∀ pre nonce formToken timestamp rest,
      log = pre ++ (.consume nonce formToken timestamp, .consumed (some true)) :: rest →
      ∃ c, Issued c pre ∧ c.cookieNonce = nonce ∧ c.formToken = formToken ∧
        timestamp < c.expiresAt) ∧
    ∀ random timestamp key row, t key = some row →
      ((∃ c, Issued c log ∧ key = svc.stateKey c.cookieNonce ∧ timestamp < c.expiresAt) ∨
        ∀ c, Issued c log → key ≠ svc.stateKey c.cookieNonce) →
      (svc.issue t random timestamp).2 key = some row := by
  -- the state that an entry of the log was answered from
  have hbefore : ∀ pre entry rest, log = pre ++ entry :: rest →
      ∃ t', Challenged svc pre t' ∧ entry.2 = (svc.perform t' entry.1).1 := by
    intro pre entry rest hlog
    have hlog' : (runLog svc.perform t₀ calls).1 = pre ++ entry :: rest := by
      rw [hrun]
      exact hlog
    obtain ⟨hpre, hentry⟩ := runLog_split hlog'
    refine ⟨_, ?_, hentry⟩
    have hcalls : calls = pre.map Prod.fst ++ entry.1 :: rest.map Prod.fst := by
      have hmap : (runLog svc.perform t₀ calls).1.map Prod.fst = calls := map_fst_runLog calls
      rw [← hmap, hlog', List.map_append, List.map_cons]
    have hfresh' : (drawn (pre.map Prod.fst)).Nodup := by
      rw [hcalls, drawn, List.filterMap_append] at hfresh
      exact hfresh.of_append_left
    have hchallenged := Challenged.run hmac h₀ (pre.map Prod.fst) hfresh'
    rwa [hpre] at hchallenged
  have hconsume : ∀ pre nonce formToken timestamp rest,
      log = pre ++ (.consume nonce formToken timestamp, .consumed (some true)) :: rest →
      ∃ t', Challenged svc pre t' ∧ (svc.consume t' nonce formToken timestamp).1 = some true := by
    intro pre nonce formToken timestamp rest hlog
    obtain ⟨t', h', hanswer⟩ := hbefore pre _ rest hlog
    exact ⟨t', h', (PreAuthAnswer.consumed.inj hanswer).symm⟩
  refine ⟨?_, ?_, ?_⟩
  · rintro pre e mid e' rest nonce hlog ⟨⟨form, stamp, rfl⟩, ⟨form', stamp', rfl⟩⟩
    obtain ⟨t', h', htrue⟩ := hconsume (pre ++ (.consume nonce form stamp, .consumed (some true)) ::
      mid) nonce form' stamp' rest (by simp [hlog])
    have hgone := (h'.accepted nonce ⟨form, stamp, by simp⟩).1
    rcases svc.consume_cases t' nonce form' stamp' with ⟨hne, -⟩ | ⟨row, hrow, -⟩
    · exact hne htrue
    · rw [hgone] at hrow
      exact absurd hrow (by simp)
  · intro pre nonce formToken timestamp rest hlog
    obtain ⟨t', h', htrue⟩ := hconsume pre nonce formToken timestamp rest hlog
    exact h'.consume_true hmac htrue
  · intro random timestamp key row hrow hkeep
    have h : Challenged svc log t := by
      have hchallenged := Challenged.run hmac h₀ calls hfresh
      rwa [hrun] at hchallenged
    -- what the sweep would take is an expired challenge
    have hswept : svc.sweep timestamp t key = some row := by
      refine PreAuthService.sweep_eq_some.mpr ⟨hrow, ?_⟩
      rintro ⟨hlike, hold⟩
      obtain ⟨c, hc, hkey, rfl⟩ := h.rows key row hlike hrow
      rcases hkeep with ⟨c', hc', hkey', hlt⟩ | hother
      · have hnonce := PreAuthService.stateKey_injOn hmac (h.isAscii_nonce hc)
          (h.isAscii_nonce hc') (hkey.symm.trans hkey')
        obtain rfl := h.unique c c' hc hc' hnonce
        have hexpired : c.expiresAt < timestamp := Int.lt_of_sub_lt_sub_right hold
        exact Int.lt_asymm hexpired hlt
      · exact hother c hc hkey
    rcases svc.issue_cases t random timestamp with ⟨heq, -⟩ | ⟨heq, hfree⟩
    · rw [heq]
      exact hrow
    · have hne : key ≠ svc.stateKey (encodeUrlSecret random.val) := by
        rintro rfl
        rw [hfree] at hswept
        exact absurd hswept (by simp)
      rw [heq]
      dsimp only
      rw [Function.update_of_ne hne, hswept]

end Histories

/-- A text for every expiry: the one of five minutes past the epoch as the program writes it, the
others in unary. -/
def sampleExpiryText : ExpiryText where
  dumps t :=
    if t = 300000000 then "\x7b\"expires_at\":\"1970-01-01T00:05:00+00:00\"\x7d"
    else String.ofList ((if t < 0 then ['-'] else []) ++ List.replicate t.natAbs 'i')
  loads s :=
    match s.toList with
    | '\x7b' :: _ => .aware 300000000
    | '-' :: digits => .aware (-digits.length)
    | digits => .aware digits.length
  loads_dumps := by
    intro t
    by_cases ht : t = 300000000
    · rw [if_pos ht, ht]
      rfl
    · rw [if_neg ht, String.toList_ofList]
      cases t with
      | ofNat n =>
        cases n with
        | zero => rfl
        | succ n =>
          have hpos : ¬Int.ofNat (n + 1) < 0 := by simp only [Int.ofNat_eq_natCast]; omega
          have habs : (Int.ofNat (n + 1)).natAbs = n + 1 := rfl
          rw [if_neg hpos, habs, List.nil_append, List.replicate_succ]
          simp
      | negSucc n =>
        have hneg : Int.negSucc n < 0 := Int.negSucc_lt_zero n
        have habs : (Int.negSucc n).natAbs = n + 1 := rfl
        rw [if_pos hneg, habs]
        simp [Int.negSucc_eq]

/-- Challenges of five minutes, over a digest that keeps its message. -/
def samplePreAuth : PreAuthService where
  hmac key message := key.headD 0 :: message
  masterKey := List.replicate 32 7
  lifetime := 300000000
  text := sampleExpiryText
  masterKey_length := length_sampleKey
  lifetime_pos := by decide

/-- The nonce of one draw. -/
def sampleRandom : { b : Bytes // b.length = 32 } := ⟨List.replicate 32 5, by decide⟩

/-- A challenge is issued at the epoch, and its form sent a second later. -/
def sampleVisit : List PreAuthCall :=
  [.issue sampleRandom 0,
    .consume (encodeUrlSecret sampleRandom.val)
      (samplePreAuth.formToken (encodeUrlSecret sampleRandom.val)) 1000000]

/-- The form is accepted, and for the challenge that was issued. -/
theorem challenges_are_one_time_visit :
    (runLog samplePreAuth.perform (fun _ => none) sampleVisit).1.map Prod.snd =
      [.issued (some ⟨encodeUrlSecret sampleRandom.val,
        samplePreAuth.formToken (encodeUrlSecret sampleRandom.val), 300000000⟩),
        .consumed (some true)] ∧
    ∃ c, Issued c (runLog samplePreAuth.perform (fun _ => none) (sampleVisit.take 1)).1 ∧
      c.cookieNonce = encodeUrlSecret sampleRandom.val ∧
      c.formToken = samplePreAuth.formToken (encodeUrlSecret sampleRandom.val) ∧
      1000000 < c.expiresAt := by
  refine ⟨by decide +kernel, ?_⟩
  have hinj : Function.Injective (samplePreAuth.hmac samplePreAuth.storeKey) :=
    fun _ _ h => (List.cons.inj h).2
  exact (challenges_are_one_time hinj (fun _ _ => rfl) sampleVisit (List.nodup_singleton _)
    Prod.mk.eta.symm).2.1 _ _ _ _ [] (by decide +kernel)

end EzOpenPN
