import EzOpenPN.Release.Evidence

/-!
# What accepted evidence still gives away

The rules for the evidence of a release say that no document may hold an address, a UUID or a
link, and that the validator rejects them. `EzOpenPN.Anonymous` is that rule. The validator
comes close: the schema leaves no room for unknown keys, and all texts but a few have a form in
which nothing private fits (`EzOpenPN.Fixed`, `EzOpenPN.Fixed.clean`).

What remains are the free texts of a document, the name of a client and the versions. There the
search has three gaps, collected in `EzOpenPN.Overlooked`: an address is looked for as a whole
text only, a UUID only in the versions 1 to 5, and both a UUID and a link only where no word
character touches them. An accepted document is anonymous exactly when none of its free texts
falls into one of them (`EzOpenPN.anonymous_iff`).
-/

namespace EzOpenPN

open Json

/-! ### The rule -/

/-- A character of an address. -/
def isAddressChar (c : ℕ) : Bool := IpAddress.isHexDigit c || c == 46 || c == 58

/-- **A text carries an address**: a longest run of address characters in it is one. -/
def CarriesAddress (s : PyStr) : Prop :=
  ∃ before r after, s = before ++ (r ++ after) ∧ (∀ c ∈ r, isAddressChar c = true) ∧
    (∀ c ∈ before.getLast?, isAddressChar c = false) ∧
    (∀ c ∈ after.head?, isAddressChar c = false) ∧ IpAddress.isAddress r = true

/-- A UUID of any version and variant. -/
def IsUuid (w : PyStr) : Prop :=
  matchesClasses (uuidClasses IpAddress.isHexDigit IpAddress.isHexDigit) w = true

/-- **A text carries a UUID.** -/
def CarriesUuid (s : PyStr) : Prop := ∃ w, w <:+: s ∧ IsUuid w

/-- **A text carries a link.** -/
def CarriesLink (s : PyStr) : Prop := ∃ w, w <:+: s ∧ w.map foldCase ∈ evidenceLinkHeads

/-- A text at some depth in a value, be it a value or a key. -/
def Json.Text (s : PyStr) (v : Json) : Prop :=
  Within (.str s) v ∨ ∃ fields, Within (.dict fields) v ∧ s ∈ fields.map Prod.fst

/-- A text that gives nothing away. -/
structure Innocent (s : PyStr) : Prop where
  address : ¬CarriesAddress s
  uuid : ¬CarriesUuid s
  link : ¬CarriesLink s

/-- **The rule for evidence**: no text at any depth gives anything away, and no key at any depth
normalizes to a forbidden one. -/
structure Anonymous (u : CharDatabase) (v : Json) : Prop where
  texts : ∀ s, Text s v → Innocent s
  keys : ∀ fields, Within (.dict fields) v →
    ∀ key ∈ fields.map Prod.fst, normalizedKey u key ∉ forbiddenKeys

/-! ### The gaps of the search -/

/-- The last character of a text is a word character. -/
def endsInWord (u : CharDatabase) (s : PyStr) : Bool := s.getLast?.any u.word

/-- The first character of a text is a word character. -/
def startsInWord (u : CharDatabase) (s : PyStr) : Bool := s.head?.any u.word

/-- **A text that the search lets pass**: an address that is only a part of it, a UUID of another
version or variant or touched by a word character, or a link right after one. -/
inductive Overlooked (u : CharDatabase) (s : PyStr) : Prop
  | address : CarriesAddress s → containsRawAddress s = false → Overlooked u s
  | uuid {before w after : PyStr} : s = before ++ (w ++ after) → IsUuid w →
    matchesClasses (uuidClasses isPatternVersion isPatternVariant) w = false ∨
      endsInWord u before = true ∨ startsInWord u after = true → Overlooked u s
  | link {before w after : PyStr} : s = before ++ (w ++ after) →
    w.map foldCase ∈ evidenceLinkHeads → endsInWord u before = true → Overlooked u s

/-- The free texts of a network result: the name and the version of its client. -/
def networkFreeTexts (v : Json) : List PyStr :=
  ["name", "version"].filterMap fun key => (jsonField "client" v).bind (textOf key)

/-- The free texts of the client evidence: the versions of its clients. -/
def clientFreeTexts (v : Json) : List PyStr :=
  match jsonField "clients" v with
  | some (.list items) => items.filterMap (textOf "version")
  | _ => []

/-! ### Patterns and what matches them -/

section Classes

variable {fs : List (ℕ → Bool)} {s : PyStr}

theorem length_of_matchesClasses (h : matchesClasses fs s = true) : s.length = fs.length := by
  induction fs generalizing s with
  | nil =>
    cases s with
    | nil => rfl
    | cons c s => exact absurd h (by simp [matchesClasses])
  | cons f fs ih =>
    cases s with
    | nil => exact absurd h (by simp [matchesClasses])
    | cons c s =>
      rw [matchesClasses, Bool.and_eq_true] at h
      rw [List.length_cons, List.length_cons, ih h.2]

/-- What matches a pattern has a character at most as often as the pattern has room for it. -/
theorem count_le_of_matchesClasses (h : matchesClasses fs s = true) (c : ℕ) :
    s.count c ≤ (fs.map fun f => f c).count true := by
  induction fs generalizing s with
  | nil =>
    cases s with
    | nil => exact le_rfl
    | cons d s => exact absurd h (by simp [matchesClasses])
  | cons f fs ih =>
    cases s with
    | nil => exact absurd h (by simp [matchesClasses])
    | cons d s =>
      rw [matchesClasses, Bool.and_eq_true] at h
      have := ih h.2
      rw [List.map_cons]
      by_cases hd : d = c
      · subst hd
        rw [h.1, List.count_cons_self, List.count_cons_self]
        omega
      · rw [List.count_cons_of_ne hd, List.count_cons]
        omega

/-- Every class of a pattern is met. -/
theorem exists_of_matchesClasses (h : matchesClasses fs s = true) {f : ℕ → Bool} (hf : f ∈ fs) :
    ∃ c ∈ s, f c = true := by
  induction fs generalizing s with
  | nil => exact absurd hf List.not_mem_nil
  | cons g fs ih =>
    cases s with
    | nil => exact absurd h (by simp [matchesClasses])
    | cons c s =>
      rw [matchesClasses, Bool.and_eq_true] at h
      rcases List.mem_cons.mp hf with rfl | hf
      · exact ⟨c, List.mem_cons_self, h.1⟩
      · obtain ⟨d, hd, hfd⟩ := ih h.2 hf
        exact ⟨d, List.mem_cons_of_mem c hd, hfd⟩

/-- Every character is in a class of the pattern. -/
theorem forall_of_matchesClasses (h : matchesClasses fs s = true) {c : ℕ} (hc : c ∈ s) :
    ∃ f ∈ fs, f c = true := by
  have hcount := count_le_of_matchesClasses h c
  have hpos : 0 < (fs.map fun f => f c).count true :=
    Nat.lt_of_lt_of_le (List.count_pos_iff.mpr hc) hcount
  obtain ⟨f, hf, hfc⟩ := List.mem_map.mp (List.count_pos_iff.mp hpos)
  exact ⟨f, hf, hfc⟩

theorem matchesClasses_append {p q : PyStr} (h : matchesClasses fs (p ++ q) = true) :
    ∃ gs hs, fs = gs ++ hs ∧ matchesClasses gs p = true ∧ matchesClasses hs q = true := by
  induction p generalizing fs with
  | nil => exact ⟨[], fs, rfl, rfl, h⟩
  | cons c p ih =>
    cases fs with
    | nil => exact absurd h (by simp [matchesClasses])
    | cons f fs =>
      rw [List.cons_append, matchesClasses, Bool.and_eq_true] at h
      obtain ⟨gs, hs, rfl, hg, hh⟩ := ih h.2
      exact ⟨f :: gs, hs, rfl, by rw [matchesClasses, h.1, hg, Bool.and_true], hh⟩

/-- What matches a pattern in two parts is in two parts. -/
theorem matchesClasses_of_append {gs : List (ℕ → Bool)}
    (h : matchesClasses (fs ++ gs) s = true) :
    ∃ p q, s = p ++ q ∧ matchesClasses fs p = true ∧ matchesClasses gs q = true := by
  induction fs generalizing s with
  | nil => exact ⟨[], s, rfl, rfl, h⟩
  | cons f fs ih =>
    cases s with
    | nil => exact absurd h (by simp [matchesClasses])
    | cons c s =>
      rw [List.cons_append, matchesClasses, Bool.and_eq_true] at h
      obtain ⟨p, q, rfl, hp, hq⟩ := ih h.2
      exact ⟨c :: p, q, rfl, by rw [matchesClasses, h.1, hp, Bool.and_true], hq⟩

/-- **A part of what matches a pattern matches a part of the pattern.** -/
theorem matchesClasses_infix (h : matchesClasses fs s = true) {w : PyStr} (hw : w <:+: s) :
    ∃ gs, gs <:+: fs ∧ matchesClasses gs w = true := by
  obtain ⟨p, q, rfl⟩ := hw
  obtain ⟨fs₁, fs₃, rfl, h₁, -⟩ := matchesClasses_append h
  obtain ⟨fs₀, fs₂, rfl, -, h₂⟩ := matchesClasses_append h₁
  exact ⟨fs₂, ⟨fs₀, fs₃, rfl⟩, h₂⟩

end Classes

/-! ### Texts of a fixed form -/

/-- The keys of the documents, and the values that the schema spells out. -/
def words : List String :=
  networkKeys ++ clientResultKeys ++ clientKeys ++ trialKeys ++ transportRevocationKeys ++
    continuityKeys ++ clientTransportKeys ++ transports ++
    ["network", "clients", "fixed", "mobile", "name", "version", "other_active_vless_profile",
      "stable", "Hiddify Next", "Android", "Happ", "iOS", "v2rayN", "Windows"]

/-- They as texts. -/
def vocabulary : List PyStr := words.map codePoints

/-- **A text of a form that the schema leaves no choice in**, or a time, a version, a digest or
a region. -/
inductive Fixed (u : CharDatabase) (s : PyStr) : Prop
  | word : s ∈ vocabulary → Fixed u s
  | time : matchesClasses (utcClasses u) s = true → Fixed u s
  | version : matchesVersion u s = true → Fixed u s
  | digest : matchesSha256 s = true → Fixed u s
  | region : matchesRegion s = true → Fixed u s

section Innocence

variable {u : CharDatabase} {s : PyStr}

/-- Too little punctuation for an address. -/
theorem not_carriesAddress (hdots : s.count 46 < 3) (hcolons : s.count 58 ≤ 2)
    (hapart : ¬[58, 58] <:+: s) : ¬CarriesAddress s := by
  rintro ⟨before, r, after, rfl, hr, -, -, haddress⟩
  have hscope : 37 ∉ r := fun h => absurd (hr 37 h) (by decide)
  have hinfix : r <:+: before ++ (r ++ after) := ⟨before, after, by rw [List.append_assoc]⟩
  have hdots' := hinfix.sublist.count_le 46
  have hcolons' := hinfix.sublist.count_le 58
  rcases IpAddress.isAddress_count haddress hscope with h | ⟨h, hadjacent⟩
  · omega
  · exact hapart ((hadjacent (by omega)).trans hinfix)

/-- No hyphen, or too short for a UUID. -/
theorem not_carriesUuid (h : 45 ∉ s ∨ s.length < 36) : ¬CarriesUuid s := by
  rintro ⟨w, hw, huuid⟩
  have hlen := length_of_matchesClasses huuid
  rcases h with h | h
  · have hmem : exactly 45 ∈ uuidClasses IpAddress.isHexDigit IpAddress.isHexDigit := by
      simp [uuidClasses]
    obtain ⟨c, hc, hhyphen⟩ := exists_of_matchesClasses huuid hmem
    rw [exactly, beq_iff_eq] at hhyphen
    exact h (hw.subset (hhyphen ▸ hc))
  · have := hw.length_le
    rw [hlen] at this
    exact absurd this (by simp [uuidClasses]; omega)

/-- No slash for a link. -/
theorem not_carriesLink (h : 47 ∉ s) : ¬CarriesLink s := by
  rintro ⟨w, hw, hhead⟩
  have hslash : 47 ∈ w.map foldCase := by
    have : ∀ head ∈ evidenceLinkHeads, 47 ∈ head := by decide
    exact this _ hhead
  obtain ⟨c, hc, hfold⟩ := List.mem_map.mp hslash
  have : c = 47 := foldCase_eq_symbol (by omega) hfold
  exact h (hw.subset (this ▸ hc))

/-- Without punctuation and short, or without punctuation at all. -/
theorem innocent_of_notMem (hdot : 46 ∉ s) (hcolon : 58 ∉ s) (hslash : 47 ∉ s)
    (huuid : 45 ∉ s ∨ s.length < 36) : Innocent s where
  address := not_carriesAddress (by rw [List.count_eq_zero_of_not_mem hdot]; omega)
    (by rw [List.count_eq_zero_of_not_mem hcolon]; omega)
    fun h => hcolon (h.subset List.mem_cons_self)
  uuid := not_carriesUuid huuid
  link := not_carriesLink hslash

theorem innocent_vocabulary : ∀ s ∈ vocabulary, 46 ∉ s ∧ 58 ∉ s ∧ 47 ∉ s ∧ s.length < 36 := by
  decide +kernel

/-- The punctuation of ASCII is no decimal digit. -/
theorem isDecimal_eq_false (u : CharDatabase) {c : ℕ} (hc : c < 48) : u.isDecimal c = false := by
  rw [CharDatabase.isDecimal, u.decimal_ascii c (by omega), if_neg (by omega)]
  rfl

theorem isDecimal_colon (u : CharDatabase) : u.isDecimal 58 = false := by
  rw [CharDatabase.isDecimal, u.decimal_ascii 58 (by omega), if_neg (by omega)]
  rfl

/-- Where a time has its colons. -/
theorem map_utcClasses_colon (u : CharDatabase) : (utcClasses u).map (fun f => f 58) =
    [false, false, false, false, false, false, false, false, false, false, false, false, false, true,
      false, false, true, false, false, false] := by
  simp only [utcClasses, List.map_cons, List.map_nil, exactly, isDecimal_colon]
  rfl

/-- A time has two colons, and they are apart. -/
theorem innocent_time (h : matchesClasses (utcClasses u) s = true) : Innocent s where
  address := by
    have hdots := count_le_of_matchesClasses h 46
    have hcolons := count_le_of_matchesClasses h 58
    rw [map_utcClasses_colon] at hcolons
    have hnone : ((utcClasses u).map fun f => f 46).count true = 0 := by
      simp only [utcClasses, List.map_cons, List.map_nil, exactly,
        isDecimal_eq_false u (show 46 < 48 by omega)]
      rfl
    refine not_carriesAddress (by omega) (hcolons.trans (by decide)) fun hadjacent => ?_
    obtain ⟨gs, hgs, hmatch⟩ := matchesClasses_infix h hadjacent
    match gs, length_of_matchesClasses hmatch with
    | [f, g], _ =>
      simp only [matchesClasses, Bool.and_eq_true] at hmatch
      have hinfix := hgs.map fun f => f 58
      rw [map_utcClasses_colon, List.map_cons, List.map_cons, List.map_nil, hmatch.1,
        hmatch.2.1] at hinfix
      exact absurd hinfix (by decide)
  uuid := not_carriesUuid (Or.inr (by rw [length_of_matchesClasses h]; simp [utcClasses]))
  link := not_carriesLink fun hslash => by
    have hcount := count_le_of_matchesClasses h 47
    have hnone : ((utcClasses u).map fun f => f 47).count true = 0 := by
      simp only [utcClasses, List.map_cons, List.map_nil, exactly,
        isDecimal_eq_false u (show 47 < 48 by omega)]
      rfl
    have := List.count_pos_iff.mpr hslash
    omega

/-- A character is a separator or in a piece between separators. -/
theorem mem_splitOn_of_mem {a c : ℕ} (hc : c ∈ s) : c = a ∨ ∃ part ∈ s.splitOn a, c ∈ part := by
  induction s with
  | nil => exact absurd hc List.not_mem_nil
  | cons x s ih =>
    rw [List.splitOn_cons_eq_if_modifyHead]
    rcases hsplit : s.splitOn a with _ | ⟨first, rest⟩
    · exact absurd hsplit (List.splitOn_ne_nil a s)
    rw [hsplit] at ih
    by_cases hx : x = a
    · rw [if_pos (by simp [hx])]
      rcases List.mem_cons.mp hc with rfl | hc
      · exact Or.inl hx
      · refine (ih hc).imp_right ?_
        rintro ⟨part, hpart, hmem⟩
        exact ⟨part, List.mem_cons_of_mem _ hpart, hmem⟩
    · rw [if_neg (by simp [hx]), List.modifyHead_cons]
      rcases List.mem_cons.mp hc with rfl | hc
      · exact Or.inr ⟨c :: first, List.mem_cons_self, List.mem_cons_self⟩
      · refine (ih hc).imp_right ?_
        rintro ⟨part, hpart, hmem⟩
        rcases List.mem_cons.mp hpart with rfl | hpart
        · exact ⟨x :: part, List.mem_cons_self, List.mem_cons_of_mem x hmem⟩
        · exact ⟨part, List.mem_cons_of_mem _ hpart, hmem⟩

/-- A version has two dots, and nothing else but digits behind its first letter. -/
theorem innocent_version (h : matchesVersion u s = true) : Innocent s := by
  cases s with
  | nil => exact absurd h (by simp [matchesVersion])
  | cons v rest =>
    simp only [matchesVersion, Bool.and_eq_true, decide_eq_true_eq, IpAddress.length_splitOn,
      List.all_eq_true, ne_eq] at h
    obtain ⟨⟨rfl, hlen⟩, hparts⟩ := h
    have hmem : ∀ c ∈ rest, c = 46 ∨ u.isDecimal c = true := fun c hc =>
      (mem_splitOn_of_mem hc).imp_right fun ⟨part, hpart, hin⟩ => (hparts part hpart).2 c hin
    have hno : ∀ c, c ≠ 118 → c ≠ 46 → u.isDecimal c = false → c ∉ 118 :: rest := by
      intro c hv hdot hdecimal hc
      rcases List.mem_cons.mp hc with rfl | hc
      · exact hv rfl
      · exact (hmem c hc).elim hdot fun h => absurd h (by simp [hdecimal])
    have hcolon := hno 58 (by omega) (by omega) (isDecimal_colon u)
    exact {
      address := not_carriesAddress (by rw [List.count_cons_of_ne (by omega)]; omega)
        (by rw [List.count_eq_zero_of_not_mem hcolon]; omega)
        fun h => hcolon (h.subset List.mem_cons_self)
      uuid := not_carriesUuid
        (Or.inl (hno 45 (by omega) (by omega) (isDecimal_eq_false u (by omega))))
      link := not_carriesLink (hno 47 (by omega) (by omega) (isDecimal_eq_false u (by omega))) }

/-- Nothing but characters of one class, and no punctuation among them. -/
theorem innocent_of_replicate {n : ℕ} {f : ℕ → Bool}
    (h : matchesClasses (List.replicate n f) s = true) (hf : ∀ c < 48, f c = false)
    (hcolon : f 58 = false) : Innocent s := by
  have hno : ∀ c, f c = false → c ∉ s := by
    intro c hc hmem
    obtain ⟨g, hg, hgc⟩ := forall_of_matchesClasses h hmem
    rw [List.eq_of_mem_replicate hg, hc] at hgc
    exact absurd hgc (by simp)
  exact innocent_of_notMem (hno 46 (hf 46 (by omega))) (hno 58 hcolon) (hno 47 (hf 47 (by omega)))
    (Or.inl (hno 45 (hf 45 (by omega))))

/-- **A text of a fixed form gives nothing away.** -/
theorem Fixed.innocent (h : Fixed u s) : Innocent s := by
  cases h with
  | word h =>
    obtain ⟨hdot, hcolon, hslash, hlen⟩ := innocent_vocabulary s h
    exact innocent_of_notMem hdot hcolon hslash (Or.inr hlen)
  | time h => exact innocent_time h
  | version h => exact innocent_version h
  | digest h => exact innocent_of_replicate h (by decide) (by decide)
  | region h => exact innocent_of_replicate h (by decide) (by decide)

end Innocence

/-! ### The texts of a value -/

section Texts

variable {s : PyStr} {v x : Json} {values : List Json} {fields : List (PyStr × Json)}

theorem Json.Within.trans {y : Json} (h : Within x y) (h' : Within y v) : Within x v := by
  induction h' with
  | refl => exact h
  | elem hmem _ ih => exact .elem hmem ih
  | value hmem _ ih => exact .value hmem ih

theorem Json.Unique.within (hv : v.Unique) (h : Within x v) : x.Unique := fun fields hf =>
  hv fields (hf.trans h)

theorem text_str {t : PyStr} (h : Text s (.str t)) : s = t := by
  rcases h with h | ⟨fields, h, -⟩
  · cases h
    rfl
  · cases h

theorem text_list (h : Text s (.list values)) : ∃ v ∈ values, Text s v := by
  rcases h with h | ⟨fields, h, hs⟩
  · cases h with
    | elem hmem h => exact ⟨_, hmem, Or.inl h⟩
  · cases h with
    | elem hmem h => exact ⟨_, hmem, Or.inr ⟨fields, h, hs⟩⟩

theorem text_dict (h : Text s (.dict fields)) :
    s ∈ fields.map Prod.fst ∨ ∃ k v, (k, v) ∈ fields ∧ Text s v := by
  rcases h with h | ⟨fields', h, hs⟩
  · cases h with
    | value hmem h => exact Or.inr ⟨_, _, hmem, Or.inl h⟩
  · cases h with
    | refl => exact Or.inl hs
    | value hmem h => exact Or.inr ⟨_, _, hmem, Or.inr ⟨fields', h, hs⟩⟩

/-- A value without any text in it. -/
def Wordless (v : Json) : Prop := ∀ s, ¬Text s v

/-- A value that is neither a text nor holds other values. -/
def Json.isLeaf : Json → Bool
  | .str _ => false
  | .list _ => false
  | .dict _ => false
  | _ => true

theorem wordless_of_isLeaf (h : v.isLeaf = true) : Wordless v := by
  rintro s (hs | ⟨fields, hs, -⟩)
  · cases hs <;> exact absurd h (by simp [isLeaf])
  · cases hs <;> exact absurd h (by simp [isLeaf])

theorem wordless_of_isTrue (h : isTrue v = true) : Wordless v :=
  wordless_of_isLeaf (by cases v <;> first | rfl | exact absurd h (by simp [isTrue]))

theorem wordless_of_isFalse (h : isFalse v = true) : Wordless v :=
  wordless_of_isLeaf (by cases v <;> first | rfl | exact absurd h (by simp [isFalse]))

theorem wordless_of_isNumber {n : ℕ} (h : isNumber n v = true) : Wordless v :=
  wordless_of_isLeaf (by cases v <;> first | rfl | exact absurd h (by simp [isNumber]))

end Texts

/-! ### What an accepted document is made of -/

section Accepted

variable {u : CharDatabase} {v : Json} {fields : List (PyStr × Json)} {keys : List String}
  {code : String}

theorem require_ok {condition : Bool} (h : require condition code = .ok ()) : condition = true := by
  rw [require] at h
  split at h
  · assumption
  · exact absurd h (by simp)

theorem wordless_of_requireNumber {bound : ℚ → Bool}
    (h : requireNumber v bound code = .ok ()) : Wordless v := by
  refine wordless_of_isLeaf ?_
  have hnone : require ((none : Option ℚ).any bound) code ≠ .ok () := fun h =>
    absurd (require_ok h) (by simp)
  cases v with
  | str s => exact absurd h hnone
  | list values => exact absurd h hnone
  | dict fields => exact absurd h hnone
  | _ => rfl

theorem checkEach_ok {α : Type} {xs : List α} {f : α → Check} (h : checkEach xs f = .ok ()) :
    ∀ x ∈ xs, f x = .ok () := by
  induction xs with
  | nil => exact fun x hx => absurd hx List.not_mem_nil
  | cons y ys ih =>
    rw [checkEach, Except.bind_eq_ok] at h
    obtain ⟨⟨⟩, hy, hys⟩ := h
    intro x hx
    rcases List.mem_cons.mp hx with rfl | hx
    · exact hy
    · exact ih hys x hx

theorem exactObject_ok (h : exactObject v keys code = .ok fields) :
    v = .dict fields ∧ hasKeys keys fields = true := by
  cases v with
  | dict fields' =>
    rw [exactObject] at h
    split at h
    · obtain rfl := Except.ok.inj h
      exact ⟨rfl, by assumption⟩
    · exact absurd h (by simp)
  | _ => exact absurd h (by simp [exactObject])

/-- A field of a dictionary that holds each key once is the one that is looked up. -/
theorem fieldOf_of_mem (hn : (fields.map Prod.fst).Nodup) {key : String} {a : Json}
    (h : (codePoints key, a) ∈ fields) : fieldOf fields key = a := by
  have hfind : fields.find? (fun kv => kv.1 = codePoints key) = some (codePoints key, a) := by
    induction fields with
    | nil => exact absurd h List.not_mem_nil
    | cons kv fields ih =>
      rw [List.map_cons, List.nodup_cons] at hn
      rcases List.mem_cons.mp h with rfl | h
      · exact List.find?_cons_of_pos (by simp)
      · have hne : kv.1 ≠ codePoints key := by
          rintro he
          exact hn.1 (he ▸ List.mem_map_of_mem h)
        rw [List.find?_cons_of_neg (by simpa using hne)]
        exact ih hn.2 h
  rw [fieldOf, field, hfind]
  rfl

/-- A field of an accepted dictionary lies in it. -/
theorem within_fieldOf (hv : v.Unique) (h : exactObject v keys code = .ok fields) {key : String}
    (hkey : key ∈ keys) : Within (fieldOf fields key) v := by
  obtain ⟨rfl, hkeys⟩ := exactObject_ok h
  obtain ⟨⟨k, a⟩, hmem, hk⟩ := List.mem_map.mp
    ((hasKeys_iff.mp hkeys _).mpr (List.mem_map_of_mem hkey))
  simp only at hk
  subst hk
  rw [fieldOf_of_mem (hv fields .refl) hmem]
  exact .value hmem .refl

/-- **The texts of an accepted dictionary** are its keys and the texts of its fields. -/
theorem text_exactObject (hv : v.Unique) (h : exactObject v keys code = .ok fields) {s : PyStr}
    (hs : Text s v) : (∃ key ∈ keys, s = codePoints key) ∨ ∃ key ∈ keys, Text s (fieldOf fields key) := by
  obtain ⟨rfl, hkeys⟩ := exactObject_ok h
  rcases text_dict hs with hs | ⟨k, a, hmem, hs⟩
  · obtain ⟨key, hkey, rfl⟩ := List.mem_map.mp ((hasKeys_iff.mp hkeys s).mp hs)
    exact Or.inl ⟨key, hkey, rfl⟩
  · obtain ⟨key, hkey, rfl⟩ := List.mem_map.mp
      ((hasKeys_iff.mp hkeys k).mp (List.mem_map_of_mem hmem))
    exact Or.inr ⟨key, hkey, fieldOf_of_mem (hv fields .refl) hmem ▸ hs⟩

theorem fixed_word {word : String} (h : word ∈ words) : Fixed u (codePoints word) :=
  .word (List.mem_map_of_mem h)

theorem fixed_key (hkeys : keys ⊆ words) {s : PyStr} (h : ∃ key ∈ keys, s = codePoints key) :
    Fixed u s := by
  obtain ⟨key, hkey, rfl⟩ := h
  exact fixed_word (hkeys hkey)

/-- The texts of an accepted trial are its keys. -/
theorem fixed_of_trial {n : ℕ} (hv : v.Unique) (h : validateTrial n v = .ok ()) {s : PyStr}
    (hs : Text s v) : Fixed u s := by
  simp only [validateTrial, Except.bind_eq_ok] at h
  obtain ⟨fields, hfields, _, htrial, _, hhandshake, _, hserver, _, hbytes, _, hduration, _,
    hmedian, _, hstall, hpassed⟩ := h
  rcases text_exactObject hv hfields hs with hs | ⟨key, hkey, hs⟩
  · exact fixed_key (by decide) hs
  · have hbytes' : Wordless (fieldOf fields "bytes_transferred") := by
      refine wordless_of_isLeaf ?_
      have := require_ok hbytes
      split at this
      · rename_i heq
        rw [heq]
        rfl
      · exact absurd this (by simp)
    simp only [trialKeys, List.mem_cons, List.not_mem_nil, or_false] at hkey
    suffices hword : Wordless (fieldOf fields key) from absurd hs (hword s)
    rcases hkey with rfl | rfl | rfl | rfl | rfl | rfl | rfl | rfl
    · exact wordless_of_isNumber (require_ok htrial)
    · exact wordless_of_isTrue (require_ok hhandshake)
    · exact wordless_of_isTrue (require_ok hserver)
    · exact hbytes'
    · exact wordless_of_requireNumber hduration
    · exact wordless_of_requireNumber hmedian
    · exact wordless_of_requireNumber hstall
    · exact wordless_of_isTrue (require_ok hpassed)

/-- The texts of the accepted revocation of a transport are its keys. -/
theorem fixed_of_transportRevocation (hv : v.Unique) (h : validateTransportRevocation v = .ok ())
    {s : PyStr} (hs : Text s v) : Fixed u s := by
  simp only [validateTransportRevocation, Except.bind_eq_ok] at h
  obtain ⟨fields, hfields, _, hstarted, _, hseconds, _, hattempted, _, hsucceeded, _,
    hobservation, hpassed⟩ := h
  have hstarted' := Bool.and_eq_true_iff.mp (require_ok hstarted)
  rcases text_exactObject hv hfields hs with hs | ⟨key, hkey, hs⟩
  · exact fixed_key (by decide) hs
  · simp only [transportRevocationKeys, List.mem_cons, List.not_mem_nil, or_false] at hkey
    suffices hword : Wordless (fieldOf fields key) from absurd hs (hword s)
    rcases hkey with rfl | rfl | rfl | rfl | rfl | rfl | rfl
    · exact wordless_of_isTrue hstarted'.1
    · exact wordless_of_isTrue hstarted'.2
    · exact wordless_of_requireNumber hseconds
    · exact wordless_of_isTrue (require_ok hattempted)
    · exact wordless_of_isFalse (require_ok hsucceeded)
    · exact wordless_of_requireNumber hobservation
    · exact wordless_of_isTrue (require_ok hpassed)

/-- What a check of every transport finds. -/
theorem fixed_of_transports {check : Json → Check}
    (hcheck : ∀ {v : Json}, v.Unique → check v = .ok () → ∀ {s}, Text s v → Fixed u s)
    (hv : v.Unique) (h : exactObject v transports code = .ok fields)
    (heach : checkEach transports (fun transport => check (fieldOf fields transport)) = .ok ())
    {s : PyStr} (hs : Text s v) : Fixed u s := by
  rcases text_exactObject hv h hs with hs | ⟨key, hkey, hs⟩
  · exact fixed_key (by decide) hs
  · exact hcheck (hv.within (within_fieldOf hv h hkey)) (checkEach_ok heach key hkey) hs

/-- The texts of an accepted revocation are its keys. -/
theorem fixed_of_revocation (hv : v.Unique) (h : validateRevocation v = .ok ()) {s : PyStr}
    (hs : Text s v) : Fixed u s := by
  simp only [validateRevocation, Except.bind_eq_ok] at h
  obtain ⟨fields, hfields, byTransport, htransports, _, heach, continuity, hcontinuity, _,
    hreconnected, _, hseconds, hpassed⟩ := h
  rcases text_exactObject hv hfields hs with hs | ⟨key, hkey, hs⟩
  · exact fixed_key (by decide) hs
  · have hunique := hv.within (within_fieldOf hv hfields hkey)
    simp only [List.mem_cons, List.not_mem_nil, or_false] at hkey
    rcases hkey with rfl | rfl
    · exact fixed_of_transports fixed_of_transportRevocation hunique htransports heach hs
    · rcases text_exactObject hunique hcontinuity hs with hs | ⟨key, hkey, hs⟩
      · exact fixed_key (by decide) hs
      · simp only [continuityKeys, List.mem_cons, List.not_mem_nil, or_false] at hkey
        suffices hword : Wordless (fieldOf continuity key) from absurd hs (hword s)
        rcases hkey with rfl | rfl | rfl
        · exact wordless_of_isTrue (require_ok hreconnected)
        · exact wordless_of_requireNumber hseconds
        · exact wordless_of_isTrue (require_ok hpassed)

/-- The texts of the accepted trials of a transport are keys. -/
theorem fixed_of_trials (hv : v.Unique) (h : validateTrials v = .ok ()) {s : PyStr}
    (hs : Text s v) : Fixed u s := by
  cases v with
  | list trials =>
    simp only [validateTrials, Except.bind_eq_ok] at h
    obtain ⟨_, -, heach⟩ := h
    obtain ⟨trial, htrial, hs⟩ := text_list hs
    obtain ⟨i, hi⟩ := List.mem_iff_getElem?.mp htrial
    have hzip : (trial, i) ∈ trials.zipIdx := List.mem_zipIdx_iff_getElem?.mpr hi
    exact fixed_of_trial (hv.within (.elem htrial .refl)) (checkEach_ok heach _ hzip) hs
  | _ => exact absurd h (by simp [validateTrials])

/-- The texts of the accepted transport of a client are its keys. -/
theorem fixed_of_clientTransport (hv : v.Unique) (h : validateClientTransport v = .ok ())
    {s : PyStr} (hs : Text s v) : Fixed u s := by
  simp only [validateClientTransport, Except.bind_eq_ok] at h
  obtain ⟨fields, hfields, htrue⟩ := h
  rcases text_exactObject hv hfields hs with hs | ⟨key, hkey, hs⟩
  · exact fixed_key (by decide) hs
  · exact absurd hs (wordless_of_isTrue (List.all_eq_true.mp (require_ok htrue) key hkey) s)

theorem text_of_equalsText {t : String} (h : equalsText t v = true) {s : PyStr} (hs : Text s v) :
    s = codePoints t := by
  cases v with
  | str s' => exact (text_str hs).trans (of_decide_eq_true h)
  | _ => exact absurd h (by simp [equalsText])

theorem text_of_isMatch {pattern : PyStr → Bool} (h : isMatch pattern v = true) {s : PyStr}
    (hs : Text s v) : pattern s = true := by
  cases v with
  | str s' => exact text_str hs ▸ h
  | _ => exact absurd h (by simp [isMatch])

theorem fixed_of_timestamp (h : timestamp u v = true) {s : PyStr} (hs : Text s v) : Fixed u s := by
  cases v with
  | str s' =>
    rw [timestamp, Bool.and_eq_true] at h
    exact .time (text_str hs ▸ h.1)
  | _ => exact absurd h (by simp [timestamp])

/-- The keys of the fields that both kinds of documents begin with. -/
def headerKeys : List String :=
  ["evidence_kind", "schema_version", "recorded_at", "application_version", "bundle_sha256",
    "usage_region"]

/-- The fields a document begins with have a fixed form. -/
theorem fixed_of_header {kind : String} (hkind : kind ∈ words)
    (h : validateHeader u kind fields = .ok ()) {key : String}
    (hkey : key ∈ headerKeys) {s : PyStr} (hs : Text s (fieldOf fields key)) : Fixed u s := by
  have hall := require_ok h
  simp only [Bool.and_eq_true] at hall
  obtain ⟨⟨⟨⟨⟨hkindText, hschema⟩, htime⟩, hversion⟩, hdigest⟩, hregion⟩ := hall
  simp only [headerKeys, List.mem_cons, List.not_mem_nil, or_false] at hkey
  rcases hkey with rfl | rfl | rfl | rfl | rfl | rfl
  · exact text_of_equalsText hkindText hs ▸ fixed_word hkind
  · exact absurd hs (wordless_of_isNumber hschema s)
  · exact fixed_of_timestamp htime hs
  · exact .version (text_of_isMatch hversion hs)
  · exact .digest (text_of_isMatch hdigest hs)
  · exact .region (text_of_isMatch hregion hs)

/-- A field of an accepted dictionary is there. -/
theorem jsonField_of_exactObject (h : exactObject v keys code = .ok fields) (key : String)
    (hkey : key ∈ keys) : jsonField key v = some (fieldOf fields key) := by
  obtain ⟨rfl, hkeys⟩ := exactObject_ok h
  rw [jsonField, fieldOf]
  cases hfield : field fields key with
  | some a => rfl
  | none =>
    rw [field, Option.map_eq_none_iff, List.find?_eq_none] at hfield
    obtain ⟨kv, hmem, hk⟩ := List.mem_map.mp
      ((hasKeys_iff.mp hkeys _).mpr (List.mem_map_of_mem hkey))
    exact absurd (decide_eq_true hk) (hfield kv hmem)

theorem textOf_of_text {s : PyStr} {a : Json} {key : String} (hfield : jsonField key v = some a)
    (ha : isMatch (fun _ => true) a = true) (hs : Text s a) : textOf key v = some s := by
  cases a with
  | str t => rw [textOf, hfield, text_str hs]
  | _ => exact absurd ha (by simp [isMatch])

/-- **The texts of an accepted network result** have a fixed form, except for its free texts. -/
theorem text_of_networkResult (hv : v.Unique) (h : validateNetworkResult u v = .ok ())
    {s : PyStr} (hs : Text s v) : Fixed u s ∨ s ∈ networkFreeTexts v := by
  simp only [validateNetworkResult, Except.bind_eq_ok] at h
  obtain ⟨_, -, fields, hfields, _, hheader, _, htype, client, hclient, _, hfree, _, hserver,
    trials, htrials, _, heach, _, hrevocation, hpassed⟩ := h
  rcases text_exactObject hv hfields hs with hs | ⟨key, hkey, hs⟩
  · exact Or.inl (fixed_key (by decide) hs)
  have hunique := hv.within (within_fieldOf hv hfields hkey)
  have hfield := jsonField_of_exactObject hfields "client" (by decide)
  simp only [networkKeys, List.mem_cons, List.not_mem_nil, or_false] at hkey
  have hhead : ∀ key ∈ headerKeys, Text s (fieldOf fields key) → Fixed u s :=
    fun key hkey hs => fixed_of_header (by decide) hheader hkey hs
  rcases hkey with rfl | rfl | rfl | rfl | rfl | rfl | rfl | rfl | rfl | rfl | rfl | rfl
  · exact Or.inl (hhead _ (by decide) hs)
  · exact Or.inl (hhead _ (by decide) hs)
  · exact Or.inl (hhead _ (by decide) hs)
  · exact Or.inl (hhead _ (by decide) hs)
  · exact Or.inl (hhead _ (by decide) hs)
  · exact Or.inl (hhead _ (by decide) hs)
  · -- the type of the network
    rcases Bool.or_eq_true_iff.mp (require_ok htype) with h | h
    · exact Or.inl (text_of_equalsText h hs ▸ fixed_word (by decide))
    · exact Or.inl (text_of_equalsText h hs ▸ fixed_word (by decide))
  · -- the client
    rcases text_exactObject hunique hclient hs with hs | ⟨key, hkey, hs⟩
    · exact Or.inl (fixed_key (by decide) hs)
    have hsub := jsonField_of_exactObject hclient key hkey
    have hfree' := Bool.and_eq_true_iff.mp (require_ok hfree)
    have htext : isMatch (fun _ => true) (fieldOf client key) = true := by
      simp only [List.mem_cons, List.not_mem_nil, or_false] at hkey
      rcases hkey with rfl | rfl
      · cases hname : fieldOf client "name" with
        | str t => rfl
        | _ => exact absurd hfree'.1 (by simp [hname, shortText])
      · cases hversion : fieldOf client "version" with
        | str t => rfl
        | _ => exact absurd hfree'.2 (by simp [hversion, isMatch])
    refine Or.inr (List.mem_filterMap.mpr ⟨key, hkey, ?_⟩)
    rw [hfield, Option.bind_some]
    exact textOf_of_text hsub htext hs
  · exact absurd hs (wordless_of_isTrue (require_ok hserver) s)
  · exact Or.inl (fixed_of_transports fixed_of_trials hunique htrials heach hs)
  · exact Or.inl (fixed_of_revocation hunique hrevocation hs)
  · exact absurd hs (wordless_of_isTrue (require_ok hpassed) s)

theorem clientIdentity_ok (fields : List (PyStr × Json)) {identity : PyStr × PyStr}
    (h : clientIdentity (.dict fields) = .ok identity) :
    fieldOf fields "application" = .str identity.1 ∧
      fieldOf fields "platform" = .str identity.2 := by
  rw [clientIdentity] at h
  split at h
  · rename_i happlication hplatform
    obtain rfl := Except.ok.inj h
    exact ⟨happlication, hplatform⟩
  · exact absurd h (by simp)

theorem fixed_of_requiredClients {identity : PyStr × PyStr} (h : identity ∈ requiredClients) :
    Fixed u identity.1 ∧ Fixed u identity.2 := by
  obtain ⟨⟨application, platform⟩, hmem, rfl⟩ := List.mem_map.mp h
  have hwords : application ∈ words ∧ platform ∈ words := by
    simp only [List.mem_cons, Prod.mk.injEq, List.not_mem_nil, or_false] at hmem
    rcases hmem with ⟨rfl, rfl⟩ | ⟨rfl, rfl⟩ | ⟨rfl, rfl⟩ <;> decide
  exact ⟨fixed_word hwords.1, fixed_word hwords.2⟩

/-- **The texts of an accepted item of the client evidence** have a fixed form, except for the
version. -/
theorem text_of_clientItem (hv : v.Unique) (h : validateClientItem u v = .ok ())
    (hidentity : ∃ identity ∈ requiredClients, clientIdentity v = .ok identity) {s : PyStr}
    (hs : Text s v) : Fixed u s ∨ textOf "version" v = some s := by
  simp only [validateClientItem, Except.bind_eq_ok] at h
  obtain ⟨fields, hfields, _, hversion, _, hstable, _, himport, byTransport, htransports, _, heach,
    hpassed⟩ := h
  rcases text_exactObject hv hfields hs with hs | ⟨key, hkey, hs⟩
  · exact Or.inl (fixed_key (by decide) hs)
  have hunique := hv.within (within_fieldOf hv hfields hkey)
  have hstable' := Bool.and_eq_true_iff.mp (require_ok hstable)
  have hpassed' := Bool.and_eq_true_iff.mp (require_ok hpassed)
  obtain ⟨⟨application, platform⟩, hrequired, hidentity⟩ := hidentity
  obtain ⟨happ, hplat⟩ := fixed_of_requiredClients (u := u) hrequired
  obtain ⟨happlication, hplatform⟩ := clientIdentity_ok fields
    ((exactObject_ok hfields).1 ▸ hidentity)
  have hfield := jsonField_of_exactObject hfields "version" (by decide)
  simp only [clientKeys, List.mem_cons, List.not_mem_nil, or_false] at hkey
  rcases hkey with rfl | rfl | rfl | rfl | rfl | rfl | rfl | rfl | rfl
  · exact Or.inl (text_str (happlication ▸ hs) ▸ happ)
  · exact Or.inl (text_str (hplatform ▸ hs) ▸ hplat)
  · refine Or.inr (textOf_of_text hfield ?_ hs)
    cases hv : fieldOf fields "version" with
    | str t => rfl
    | _ => exact absurd (require_ok hversion) (by simp [hv, isMatch])
  · exact Or.inl (text_of_equalsText hstable'.1 hs ▸ fixed_word (by decide))
  · exact Or.inl (fixed_of_timestamp hstable'.2 hs)
  · exact absurd hs (wordless_of_isTrue (require_ok himport) s)
  · exact Or.inl (fixed_of_transports fixed_of_clientTransport hunique htransports heach hs)
  · exact absurd hs (wordless_of_isTrue hpassed'.1 s)
  · exact absurd hs (wordless_of_isTrue hpassed'.2 s)

theorem clientIdentities_ok {items : List Json} {identities : List (PyStr × PyStr)}
    (h : clientIdentities items = .ok identities) :
    ∀ item ∈ items, ∃ identity ∈ identities, clientIdentity item = .ok identity := by
  induction items generalizing identities with
  | nil => exact fun item hitem => absurd hitem List.not_mem_nil
  | cons first items ih =>
    simp only [clientIdentities, Except.bind_eq_ok] at h
    obtain ⟨identity, hfirst, rest, hrest, hall⟩ := h
    obtain rfl := Except.ok.inj hall
    intro item hitem
    rcases List.mem_cons.mp hitem with rfl | hitem
    · exact ⟨identity, List.mem_cons_self, hfirst⟩
    · obtain ⟨identity', hmem, hitem⟩ := ih hrest item hitem
      exact ⟨identity', List.mem_cons_of_mem _ hmem, hitem⟩

/-- **The texts of accepted client evidence** have a fixed form, except for its free texts. -/
theorem text_of_clientResult (hv : v.Unique) (h : validateClientResult u v = .ok ())
    {s : PyStr} (hs : Text s v) : Fixed u s ∨ s ∈ clientFreeTexts v := by
  simp only [validateClientResult, Except.bind_eq_ok] at h
  obtain ⟨_, -, fields, hfields, _, hheader, items, hitems, identities, hidentities, _, hmatrix, _,
    heach, hpassed⟩ := h
  rcases text_exactObject hv hfields hs with hs | ⟨key, hkey, hs⟩
  · exact Or.inl (fixed_key (by decide) hs)
  have hunique := hv.within (within_fieldOf hv hfields hkey)
  have hfield := jsonField_of_exactObject hfields "clients" (by decide)
  have hhead : ∀ key ∈ headerKeys, Text s (fieldOf fields key) → Fixed u s :=
    fun key hkey hs => fixed_of_header (by decide) hheader hkey hs
  simp only [clientResultKeys, List.mem_cons, List.not_mem_nil, or_false] at hkey
  rcases hkey with rfl | rfl | rfl | rfl | rfl | rfl | rfl | rfl
  · exact Or.inl (hhead _ (by decide) hs)
  · exact Or.inl (hhead _ (by decide) hs)
  · exact Or.inl (hhead _ (by decide) hs)
  · exact Or.inl (hhead _ (by decide) hs)
  · exact Or.inl (hhead _ (by decide) hs)
  · exact Or.inl (hhead _ (by decide) hs)
  · -- the clients
    have hlist : fieldOf fields "clients" = .list items := by
      cases hclients : fieldOf fields "clients" with
      | list items' =>
        rw [hclients] at hitems
        exact congrArg Json.list (Except.ok.inj hitems)
      | _ => exact absurd hitems (by simp [hclients, clientItems])
    rw [hlist] at hs hunique hfield
    obtain ⟨item, hitem, hs⟩ := text_list hs
    have hall := Bool.and_eq_true_iff.mp (Bool.and_eq_true_iff.mp (require_ok hmatrix)).1
    obtain ⟨identity, hidentity, hok⟩ := clientIdentities_ok hidentities item hitem
    have hrequired : identity ∈ requiredClients :=
      of_decide_eq_true (List.all_eq_true.mp hall.2 identity hidentity)
    refine (text_of_clientItem (hunique.within (.elem hitem .refl))
      (checkEach_ok heach item hitem) ⟨identity, hrequired, hok⟩ hs).imp_right fun hversion => ?_
    rw [clientFreeTexts, hfield]
    exact List.mem_filterMap.mpr ⟨item, hitem, hversion⟩
  · exact absurd hs (wordless_of_isTrue (require_ok hpassed) s)

end Accepted

/-! ### The free texts and the search -/

section Free

variable {u : CharDatabase} {v x : Json} {s : PyStr}

theorem within_jsonField {key : String} {a : Json} (h : jsonField key v = some a) : Within a v := by
  cases v with
  | dict fields =>
    rw [jsonField, field, Option.map_eq_some_iff] at h
    obtain ⟨⟨k, a'⟩, hfind, rfl⟩ := h
    exact .value (List.mem_of_find?_eq_some hfind) .refl
  | _ => exact absurd h (by simp [jsonField])

theorem within_textOf {key : String} (h : textOf key v = some s) : Within (.str s) v := by
  rw [textOf] at h
  split at h
  · rename_i t hfield
    obtain rfl := Option.some.inj h
    exact within_jsonField hfield
  · exact absurd h (by simp)

theorem within_of_mem_networkFreeTexts (h : s ∈ networkFreeTexts v) : Within (.str s) v := by
  obtain ⟨key, -, hbind⟩ := List.mem_filterMap.mp h
  obtain ⟨client, hclient, htext⟩ := Option.bind_eq_some_iff.mp hbind
  exact (within_textOf htext).trans (within_jsonField hclient)

theorem within_of_mem_clientFreeTexts (h : s ∈ clientFreeTexts v) : Within (.str s) v := by
  rw [clientFreeTexts] at h
  split at h
  · rename_i items hclients
    obtain ⟨item, hitem, htext⟩ := List.mem_filterMap.mp h
    exact (within_textOf htext).trans (.trans (.elem hitem .refl) (within_jsonField hclients))
  · exact absurd h List.not_mem_nil

theorem sanitizedValues_mem {values : List Json} (h : sanitizedValues u values = true) :
    ∀ v ∈ values, sanitized u v = true := by
  induction values with
  | nil => exact fun v hv => absurd hv List.not_mem_nil
  | cons w values ih =>
    rw [sanitizedValues, Bool.and_eq_true] at h
    intro v hv
    rcases List.mem_cons.mp hv with rfl | hv
    · exact h.1
    · exact ih h.2 v hv

theorem sanitizedFields_mem {fields : List (PyStr × Json)}
    (h : sanitizedFields u fields = true) : ∀ kv ∈ fields, sanitizedField u kv = true := by
  induction fields with
  | nil => exact fun kv hkv => absurd hkv List.not_mem_nil
  | cons w fields ih =>
    rw [sanitizedFields, Bool.and_eq_true] at h
    intro kv hkv
    rcases List.mem_cons.mp hkv with rfl | hkv
    · exact h.1
    · exact ih h.2 kv hkv

/-- **The search reaches every depth.** -/
theorem sanitized_within (h : sanitized u v = true) (hx : Within x v) : sanitized u x = true := by
  induction hx with
  | refl => exact h
  | elem hmem _ ih =>
    rw [sanitized] at h
    exact ih (sanitizedValues_mem h _ hmem)
  | value hmem _ ih =>
    rw [sanitized] at h
    have := sanitizedFields_mem h _ hmem
    rw [sanitizedField, Bool.and_eq_true] at this
    exact ih this.2

/-- No key at any depth is a forbidden one. -/
theorem sanitized_keys (h : sanitized u v = true) {fields : List (PyStr × Json)}
    (hx : Within (.dict fields) v) : ∀ key ∈ fields.map Prod.fst,
    normalizedKey u key ∉ forbiddenKeys := by
  intro key hkey
  obtain ⟨⟨k, a⟩, hmem, rfl⟩ := List.mem_map.mp hkey
  have hfields := sanitized_within h hx
  rw [sanitized] at hfields
  have := sanitizedFields_mem hfields _ hmem
  rw [sanitizedField, Bool.and_eq_true] at this
  exact of_decide_eq_true this.1

theorem mem_cuts (before after : PyStr) : (before, after) ∈ cuts (before ++ after) := by
  refine List.mem_map.mpr ⟨before.length, List.mem_range.mpr ?_, ?_⟩
  · rw [List.length_append]
    omega
  · rw [List.take_left, List.drop_left]

/-- Where a word begins there is a boundary unless one ends there. -/
theorem wordBoundary_of_word {before after : PyStr} {c : ℕ} (hc : u.word c = true) :
    wordBoundary u before (c :: after) = !endsInWord u before := by
  rw [wordBoundary, List.head?_cons, Option.any_some, hc, endsInWord]
  cases before.getLast?.any u.word <;> rfl

theorem word_of_isHexDigit {c : ℕ} (h : IpAddress.isHexDigit c = true) : u.word c = true := by
  simp only [IpAddress.isHexDigit, IpAddress.isDigit, Bool.or_eq_true, Bool.and_eq_true,
    decide_eq_true_eq] at h
  rw [u.word_ascii c (by omega)]
  simp only [isAsciiWord, Bool.or_eq_true, Bool.and_eq_true, decide_eq_true_eq, beq_iff_eq]
  omega

/-- A UUID begins and ends with a hexadecimal digit. -/
theorem IsUuid.ends {w : PyStr} (h : IsUuid w) : ∃ c m d, w = c :: (m ++ [d]) ∧
    IpAddress.isHexDigit c = true ∧ IpAddress.isHexDigit d = true := by
  have hsplit : uuidClasses IpAddress.isHexDigit IpAddress.isHexDigit = [IpAddress.isHexDigit] ++
      (((uuidClasses IpAddress.isHexDigit IpAddress.isHexDigit).drop 1).take 34 ++
        [IpAddress.isHexDigit]) := rfl
  rw [IsUuid, hsplit] at h
  obtain ⟨p, q, rfl, hp, hq⟩ := matchesClasses_of_append h
  obtain ⟨m, r, rfl, -, hr⟩ := matchesClasses_of_append hq
  match p, r, length_of_matchesClasses hp, length_of_matchesClasses hr with
  | [c], [d], _, _ =>
    simp only [matchesClasses, Bool.and_true] at hp hr
    exact ⟨c, m, d, rfl, hp, hr⟩

/-- **What the search for UUIDs finds**: one of a version and variant of the pattern that no word
character touches. -/
theorem searchUuid_of_isUuid {before w after : PyStr} (huuid : IsUuid w)
    (hpattern : matchesClasses (uuidClasses isPatternVersion isPatternVariant) w = true)
    (hbefore : endsInWord u before = false) (hafter : startsInWord u after = false) :
    searchUuid u (before ++ (w ++ after)) = true := by
  have hlen : w.length = 36 := length_of_matchesClasses huuid
  obtain ⟨c, m, d, hw, hc, hd⟩ := huuid.ends
  have htake : (w ++ after).take 36 = w := by rw [← hlen, List.take_left]
  have hdrop : (w ++ after).drop 36 = after := by rw [← hlen, List.drop_left]
  have hfirst : wordBoundary u before (w ++ after) = true := by
    rw [hw, List.cons_append, wordBoundary_of_word (word_of_isHexDigit hc), hbefore]
    rfl
  have hlast : wordBoundary u (before ++ w) after = true := by
    have hend : (before ++ w).getLast? = some d := by
      rw [hw, ← List.cons_append, ← List.append_assoc, List.getLast?_concat]
    rw [startsInWord] at hafter
    rw [wordBoundary, hend, Option.any_some, word_of_isHexDigit hd, hafter]
    rfl
  refine List.any_eq_true.mpr ⟨(before, w ++ after), mem_cuts before (w ++ after), ?_⟩
  rw [htake, hdrop, hfirst, hpattern, hlast]
  rfl

theorem word_of_foldCase {c : ℕ} (h : foldCase c = 104 ∨ foldCase c = 118) : u.word c = true := by
  have hc : c = 104 ∨ c = 72 ∨ c = 118 ∨ c = 86 := by
    rw [foldCase] at h
    split at h
    · omega
    · split at h
      · omega
      · split at h
        · omega
        · split at h <;> omega
  rw [u.word_ascii c (by omega)]
  rcases hc with rfl | rfl | rfl | rfl <;> rfl

/-- **What the search for links finds**: one that is not right behind a word character. -/
theorem searchLink_of_head {before w after : PyStr} (hw : w.map foldCase ∈ evidenceLinkHeads)
    (hbefore : endsInWord u before = false) : searchLink u (before ++ (w ++ after)) = true := by
  have hheads : ∀ head ∈ evidenceLinkHeads, head.head? = some 104 ∨ head.head? = some 118 := by
    decide
  have hfirst : wordBoundary u before (w ++ after) = true := by
    cases w with
    | nil => exact absurd (hheads _ hw) (by simp)
    | cons c w =>
      have hc : foldCase c = 104 ∨ foldCase c = 118 := by simpa using hheads _ hw
      rw [List.cons_append, wordBoundary_of_word (word_of_foldCase hc), hbefore]
      rfl
  have htake : (w ++ after).take (w.map foldCase).length = w := by
    rw [List.length_map, List.take_left]
  refine List.any_eq_true.mpr ⟨(before, w ++ after), mem_cuts before (w ++ after), ?_⟩
  rw [hfirst, Bool.true_and]
  exact List.any_eq_true.mpr ⟨w.map foldCase, hw, decide_eq_true (by rw [htake])⟩

/-- A text that the search lets pass gives something away. -/
theorem Overlooked.not_innocent (h : Overlooked u s) : ¬Innocent s := by
  rintro ⟨haddress, huuid, hlink⟩
  cases h with
  | address h _ => exact haddress h
  | uuid hs h _ => exact huuid ⟨_, ⟨_, _, by rw [hs, List.append_assoc]⟩, h⟩
  | link hs h _ => exact hlink ⟨_, ⟨_, _, by rw [hs, List.append_assoc]⟩, h⟩

/-- **What the search finds nothing in is innocent, or is overlooked.** -/
theorem innocent_of_sanitizedText (h : sanitizedText u s = true) (hpass : ¬Overlooked u s) :
    Innocent s := by
  rw [sanitizedText, Bool.not_eq_true', Bool.or_eq_false_iff, Bool.or_eq_false_iff,
    Bool.or_eq_false_iff] at h
  obtain ⟨⟨⟨haddress, huuid⟩, hlink⟩, -⟩ := h
  refine ⟨fun hcarries => hpass (.address hcarries haddress), ?_, ?_⟩
  · rintro ⟨w, ⟨before, after, hs⟩, hw⟩
    rw [List.append_assoc] at hs
    refine hpass (.uuid hs.symm hw ?_)
    by_contra hnone
    simp only [not_or, Bool.not_eq_false, Bool.not_eq_true] at hnone
    rw [← hs, searchUuid_of_isUuid hw hnone.1 hnone.2.1 hnone.2.2] at huuid
    exact absurd huuid (by simp)
  · rintro ⟨w, ⟨before, after, hs⟩, hw⟩
    rw [List.append_assoc] at hs
    refine hpass (.link hs.symm hw ?_)
    by_contra hnone
    rw [← hs, searchLink_of_head hw (by simpa using hnone)] at hlink
    exact absurd hlink (by simp)

/-- A document is anonymous exactly when none of its free texts is overlooked. -/
theorem anonymous_iff_of_free {free : List PyStr} (h : sanitized u v = true)
    (hfree : ∀ s ∈ free, Within (.str s) v) (htext : ∀ s, Text s v → Fixed u s ∨ s ∈ free) :
    Anonymous u v ↔ ∀ s ∈ free, ¬Overlooked u s := by
  constructor
  · intro hanonymous s hs hover
    exact hover.not_innocent (hanonymous.texts s (Or.inl (hfree s hs)))
  · intro hpass
    refine ⟨fun s hs => ?_, fun fields hx => sanitized_keys h hx⟩
    rcases htext s hs with hfixed | hmem
    · exact hfixed.innocent
    · have hsan := sanitized_within h (hfree s hmem)
      rw [sanitized] at hsan
      exact innocent_of_sanitizedText hsan (hpass s hmem)

end Free

/-! ### The evidence of a release -/

/-- The documents of a release. -/
def documents (networks : List PyValue) (clients : PyValue) : List Json :=
  networks.map Subtype.val ++ [clients.val]

/-- **Accepted evidence is anonymous exactly when its free texts hold nothing that the search
overlooks**: no address as a part of one, no UUID outside the versions and variants of the pattern
or touched by a word character, and no link right behind a word character. -/
theorem evidence_anonymous_iff (u : CharDatabase) (networks : List PyValue) (clients : PyValue)
    (expectedVersion expectedBundleSha256 : Option PyStr)
    (h : validateReleaseEvidence u (networks.map Subtype.val) clients.val expectedVersion
      expectedBundleSha256 = .ok ()) :
    (∀ v ∈ documents networks clients, Anonymous u v) ↔
      (∀ v ∈ networks, ∀ s ∈ networkFreeTexts v.val, ¬Overlooked u s) ∧
        ∀ s ∈ clientFreeTexts clients.val, ¬Overlooked u s := by
  simp only [validateReleaseEvidence, Except.bind_eq_ok] at h
  obtain ⟨_, hnetworks, _, -, _, hclients, -⟩ := h
  have hnetwork : ∀ v ∈ networks,
      (Anonymous u v.val ↔ ∀ s ∈ networkFreeTexts v.val, ¬Overlooked u s) := by
    intro v hv
    have hok := checkEach_ok hnetworks v.val (List.mem_map_of_mem hv)
    have hsan : sanitized u v.val = true := by
      simp only [validateNetworkResult, Except.bind_eq_ok] at hok
      obtain ⟨_, hsan, -⟩ := hok
      exact require_ok hsan
    exact anonymous_iff_of_free hsan (fun s hs => within_of_mem_networkFreeTexts hs)
      fun s hs => text_of_networkResult v.property hok hs
  have hclient : Anonymous u clients.val ↔ ∀ s ∈ clientFreeTexts clients.val, ¬Overlooked u s := by
    have hsan : sanitized u clients.val = true := by
      simp only [validateClientResult, Except.bind_eq_ok] at hclients
      obtain ⟨_, hsan, -⟩ := hclients
      exact require_ok hsan
    exact anonymous_iff_of_free hsan (fun s hs => within_of_mem_clientFreeTexts hs)
      fun s hs => text_of_clientResult clients.property hclients hs
  constructor
  · intro hall
    refine ⟨fun v hv => (hnetwork v hv).mp (hall _ ?_), hclient.mp (hall _ ?_)⟩
    · exact List.mem_append_left _ (List.mem_map_of_mem hv)
    · exact List.mem_append_right _ List.mem_cons_self
  · rintro ⟨hn, hc⟩ v hv
    rcases List.mem_append.mp hv with hv | hv
    · obtain ⟨w, hw, rfl⟩ := List.mem_map.mp hv
      exact (hnetwork w hw).mpr (hn w hw)
    · obtain rfl := List.mem_singleton.mp hv
      exact hclient.mpr hc

/-! ### A release -/

mutual

/-- No key of a value is held twice. -/
def uniqueKeys : Json → Bool
  | .dict fields => (fields.map Prod.fst).Nodup && uniqueFields fields
  | .list values => uniqueValues values
  | _ => true

/-- The values of a list. -/
def uniqueValues : List Json → Bool
  | [] => true
  | v :: values => uniqueKeys v && uniqueValues values

/-- The values of a dictionary. -/
def uniqueFields : List (PyStr × Json) → Bool
  | [] => true
  | kv :: fields => uniqueField kv && uniqueFields fields

/-- The value of a field. -/
def uniqueField : PyStr × Json → Bool
  | (_, v) => uniqueKeys v

end

theorem uniqueValues_mem {values : List Json} (h : uniqueValues values = true) :
    ∀ v ∈ values, uniqueKeys v = true := by
  induction values with
  | nil => exact fun v hv => absurd hv List.not_mem_nil
  | cons w values ih =>
    rw [uniqueValues, Bool.and_eq_true] at h
    exact fun v hv => (List.mem_cons.mp hv).elim (fun he => he ▸ h.1) (ih h.2 v)

theorem uniqueFields_mem {fields : List (PyStr × Json)} (h : uniqueFields fields = true) :
    ∀ kv ∈ fields, uniqueField kv = true := by
  induction fields with
  | nil => exact fun kv hkv => absurd hkv List.not_mem_nil
  | cons w fields ih =>
    rw [uniqueFields, Bool.and_eq_true] at h
    exact fun kv hkv => (List.mem_cons.mp hkv).elim (fun he => he ▸ h.1) (ih h.2 kv)

/-- **The check of the keys is right.** -/
theorem unique_of_uniqueKeys {v : Json} (h : uniqueKeys v = true) : v.Unique := by
  have hwithin : ∀ {x : Json}, Within x v → uniqueKeys x = true := by
    intro x hx
    induction hx with
    | refl => exact h
    | elem hmem _ ih =>
      rw [uniqueKeys] at h
      exact ih (uniqueValues_mem h _ hmem)
    | value hmem _ ih =>
      rw [uniqueKeys, Bool.and_eq_true] at h
      exact ih (uniqueFields_mem h.2 _ hmem)
  intro fields hx
  have hfields := hwithin hx
  rw [uniqueKeys, Bool.and_eq_true] at hfields
  exact of_decide_eq_true hfields.1

namespace SampleEvidence

/-- ASCII and nothing else. -/
def ascii : CharDatabase where
  decimal c := if 48 ≤ c ∧ c ≤ 57 then some (c - 48) else none
  word := isAsciiWord
  casefold c := [if 65 ≤ c ∧ c ≤ 90 then c + 32 else c]
  decimal_ascii _ _ := rfl
  word_ascii _ _ := rfl

/-- A dictionary. -/
def object (fields : List (String × Json)) : Json :=
  .dict (fields.map fun kv => (codePoints kv.1, kv.2))

/-- A text. -/
def text (s : String) : Json := .str (codePoints s)

/-- A trial of forty-eight seconds. -/
def trial (n : ℤ) : Json :=
  object [("trial", .int n), ("handshake", .bool true), ("external_server_verified", .bool true),
    ("bytes_transferred", .int 125829120), ("duration_seconds", .int 48), ("median_mbps", .int 20),
    ("max_stall_seconds", .int 1), ("passed", .bool true)]

/-- The revocation of a transport within four seconds. -/
def transportRevocation : Json :=
  object [("fourth_transfer_started", .bool true), ("transfer_terminated", .bool true),
    ("termination_seconds", .int 4), ("reconnect_attempted", .bool true),
    ("reconnect_succeeded", .bool false), ("reconnect_observation_seconds", .int 10),
    ("passed", .bool true)]

/-- One value for each transport. -/
def byTransport (v : Json) : Json := object (transports.map fun transport => (transport, v))

/-- The fields a document begins with. -/
def header (kind : String) : List (String × Json) :=
  [("evidence_kind", text kind), ("schema_version", .int 2),
    ("recorded_at", text "2026-08-31T10:00:00Z"), ("application_version", text "v0.1.0"),
    ("bundle_sha256", .str (List.replicate 64 97)), ("usage_region", text "RU")]

/-- A network result of a client of some name and version. -/
def network (networkType name version : String) : Json :=
  object (header "network" ++
    [("network_type", text networkType),
      ("client", object [("name", text name), ("version", text version)]),
      ("external_server_verified", .bool true),
      ("trials", byTransport (.list [trial 1, trial 2, trial 3])),
      ("revocation", object [("transports", byTransport transportRevocation),
        ("other_active_vless_profile", object [("reconnected", .bool true),
          ("reconnect_seconds", .int 3), ("passed", .bool true)])]),
      ("passed", .bool true)])

/-- An item of the client evidence. -/
def client (application platform : String) : Json :=
  object [("application", text application), ("platform", text platform),
    ("version", text "9.9.9"), ("release_channel", text "stable"),
    ("stable_release_verified_at", text "2026-08-31T09:00:00Z"),
    ("combined_link_imported", .bool true),
    ("transports", byTransport (object (clientTransportKeys.map fun key => (key, .bool true)))),
    ("revocation_observed", .bool true), ("passed", .bool true)]

/-- The client evidence. -/
def clients : PyValue :=
  ⟨object (header "clients" ++ [("clients", .list [client "Hiddify Next" "Android",
    client "Happ" "iOS", client "v2rayN" "Windows"]), ("passed", .bool true)]),
    unique_of_uniqueKeys (by decide +kernel)⟩

/-- A result of a mobile network with a client that gives nothing away. -/
def mobile : PyValue :=
  ⟨network "mobile" "Fixture Client" "1.2.3", unique_of_uniqueKeys (by decide +kernel)⟩

/-- An address in the name of the client, and a UUID of version 7 as its version. -/
def leaky : PyValue :=
  ⟨network "fixed" "exit 203.0.113.7" "018f4c1e-7b2a-7c3d-8e4f-5a6b7c8d9e0f",
    unique_of_uniqueKeys (by decide +kernel)⟩

theorem validate_clients : validateClientResult ascii clients.val = .ok () := by decide +kernel

theorem validate_mobile : validateNetworkResult ascii mobile.val = .ok () := by decide +kernel

theorem validate_leaky : validateNetworkResult ascii leaky.val = .ok () := by decide +kernel

/-- A result of a fixed network completes the evidence if it is accepted. -/
theorem validate_release {name version : String}
    (h : validateNetworkResult ascii (network "fixed" name version) = .ok ()) :
    validateReleaseEvidence ascii [network "fixed" name version, mobile.val] clients.val
      (some (codePoints "v0.1.0")) (some (List.replicate 64 97)) = .ok () := by
  simp only [validateReleaseEvidence, checkEach, h, validate_mobile, validate_clients]
  rfl

theorem name_mem_networkFreeTexts : codePoints "exit 203.0.113.7" ∈ networkFreeTexts leaky.val := by
  decide +kernel

theorem version_mem_networkFreeTexts :
    codePoints "018f4c1e-7b2a-7c3d-8e4f-5a6b7c8d9e0f" ∈ networkFreeTexts leaky.val := by
  decide +kernel

/-- The address is a part of the name. -/
theorem carriesAddress_name : CarriesAddress (codePoints "exit 203.0.113.7") :=
  ⟨codePoints "exit ", codePoints "203.0.113.7", [], by decide +kernel, by decide +kernel,
    by decide +kernel, by decide +kernel, by decide +kernel⟩

/-- The version of a client is a UUID. -/
theorem isUuid_version : IsUuid (codePoints "018f4c1e-7b2a-7c3d-8e4f-5a6b7c8d9e0f") := by
  rw [IsUuid]
  decide +kernel

end SampleEvidence

open SampleEvidence

/-- Of evidence with an address inside a name the theorem says that it is not anonymous. -/
theorem evidence_anonymous_iff_leaky :
    ¬∀ v ∈ documents [leaky, mobile] clients, Anonymous ascii v := by
  intro h
  have hfree := ((evidence_anonymous_iff ascii [leaky, mobile] clients _ _
    (validate_release validate_leaky)).mp h).1 leaky List.mem_cons_self _ name_mem_networkFreeTexts
  exact hfree (.address carriesAddress_name (by decide +kernel))

/-- **Accepted evidence can hold an address and a UUID.** -/
theorem leaky_evidence : ∃ networks : List PyValue, ∃ clients : PyValue,
    validateReleaseEvidence ascii (networks.map Subtype.val) clients.val
        (some (codePoints "v0.1.0")) (some (List.replicate 64 97)) = .ok () ∧
      (∃ v ∈ documents networks clients, ∃ s, Text s v ∧ CarriesAddress s) ∧
      ∃ v ∈ documents networks clients, ∃ s, Text s v ∧ CarriesUuid s := by
  have hname := within_of_mem_networkFreeTexts name_mem_networkFreeTexts
  have hversion := within_of_mem_networkFreeTexts version_mem_networkFreeTexts
  refine ⟨[leaky, mobile], clients, validate_release validate_leaky, ?_, ?_⟩
  · exact ⟨leaky.val, List.mem_cons_self, _, Or.inl hname, carriesAddress_name⟩
  · exact ⟨leaky.val, List.mem_cons_self, _, Or.inl hversion, _, List.infix_rfl, isUuid_version⟩

end EzOpenPN
