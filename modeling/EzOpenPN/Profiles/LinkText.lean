import EzOpenPN.Profiles.Links

/-!
# Reading the links back

What a client does with the links it was given: it takes the userinfo out of the authority, or
the last segment off the path, and undoes the percent-encoding. These readers are not part of the
repository, they are what its texts are meant for; here stands that they return what the builders
put in (`EzOpenPN.unquote_userinfo_hysteriaLink`, `EzOpenPN.unquote_lastSegment_combinedUrl`).

A link is made of printable ASCII characters whatever the name of the profile is
(`EzOpenPN.visible_vlessLink`, `EzOpenPN.visible_hysteriaLink`), so that a line of text holds
exactly one of them.
-/

namespace EzOpenPN

/-! ### Undoing the percent-encoding -/

/-- The value of a hexadecimal digit. -/
def hexValue (c : Char) : Option ℕ :=
  if c.isDigit then some (c.toNat - 48)
  else if 'A' ≤ c ∧ c ≤ 'F' then some (c.toNat - 55)
  else if 'a' ≤ c ∧ c ≤ 'f' then some (c.toNat - 87)
  else none

/-- `unquote_to_bytes`: a percent sign with two hexadecimal digits is one byte, and everything
else stands for its UTF-8 bytes. -/
def unquoteToBytes : List Char → Bytes
  | '%' :: a :: b :: rest =>
    match hexValue a, hexValue b with
    | some x, some y => UInt8.ofNat (16 * x + y) :: unquoteToBytes rest
    | _, _ => 37 :: unquoteToBytes (a :: b :: rest)
  | c :: rest => String.utf8EncodeChar c ++ unquoteToBytes rest
  | [] => []

theorem hexValue_hexUpper : ∀ n < 16, hexValue (hexUpper n) = some n := by decide

theorem unquoteToBytes_percentByte (b : UInt8) (rest : List Char) :
    unquoteToBytes (percentByte b ++ rest) = b :: unquoteToBytes rest := by
  have hb := b.toNat_lt
  have hbyte : UInt8.ofNat (16 * (b.toNat / 16) + b.toNat % 16) = b := by
    rw [Nat.div_add_mod]
    exact UInt8.ofNat_toNat
  simp only [percentByte, List.cons_append, List.nil_append, unquoteToBytes,
    hexValue_hexUpper _ (show b.toNat / 16 < 16 by omega),
    hexValue_hexUpper _ (show b.toNat % 16 < 16 by omega), hbyte]

theorem unquoteToBytes_percentBytes (bs : Bytes) (rest : List Char) :
    unquoteToBytes (bs.flatMap percentByte ++ rest) = bs ++ unquoteToBytes rest := by
  induction bs with
  | nil => rfl
  | cons b bs ih =>
    rw [List.flatMap_cons, List.append_assoc, unquoteToBytes_percentByte, ih]
    rfl

theorem isUnreserved_ne_percent {c : Char} (h : isUnreserved c = true) : c ≠ '%' := by
  rintro rfl
  exact absurd h (by decide)

/-- A character other than the percent sign stands for itself. -/
theorem unquoteToBytes_cons {c : Char} (h : c ≠ '%') (rest : List Char) :
    unquoteToBytes (c :: rest) = String.utf8EncodeChar c ++ unquoteToBytes rest := by
  rw [unquoteToBytes]
  rintro a b rest' rfl
  exact absurd rfl h

/-- **Quoting is undone.** -/
theorem unquoteToBytes_quote (s : String) : unquoteToBytes (quote s).toList = utf8Bytes s := by
  rw [quote, String.toList_ofList, utf8Bytes]
  generalize s.toList = l
  induction l with
  | nil => rfl
  | cons c l ih =>
    rw [List.flatMap_cons, List.flatMap_cons, ← ih, quoteChar]
    split
    · rename_i hc
      exact unquoteToBytes_cons (isUnreserved_ne_percent hc) _
    · exact unquoteToBytes_percentBytes _ _

/-! ### The characters of a quoted text -/

/-- A character that a quoted text is made of. -/
def isQuoted (c : Char) : Bool := isUnreserved c || c == '%'

theorem isQuoted_hexUpper : ∀ n < 16, isQuoted (hexUpper n) = true := by decide

theorem isQuoted_of_mem_quoteChar {c d : Char} (h : d ∈ quoteChar c) : isQuoted d = true := by
  rw [quoteChar] at h
  split at h
  · rename_i hc
    obtain rfl := List.mem_singleton.mp h
    simp [isQuoted, hc]
  · obtain ⟨b, -, hb⟩ := List.mem_flatMap.mp h
    have hlt := b.toNat_lt
    simp only [percentByte, List.mem_cons, List.not_mem_nil, or_false] at hb
    rcases hb with rfl | rfl | rfl
    · decide
    · exact isQuoted_hexUpper _ (by omega)
    · exact isQuoted_hexUpper _ (by omega)

/-- **A quoted text is made of unreserved characters and percent signs.** -/
theorem isQuoted_of_mem_quote {s : String} {c : Char} (h : c ∈ (quote s).toList) :
    isQuoted c = true := by
  rw [quote, String.toList_ofList] at h
  obtain ⟨d, -, hd⟩ := List.mem_flatMap.mp h
  exact isQuoted_of_mem_quoteChar hd

/-- A character that a quoted text is not made of is not in one. -/
theorem ne_of_mem_quote {s : String} {c d : Char} (h : c ∈ (quote s).toList)
    (hd : isQuoted d = false) : c ≠ d := by
  rintro rfl
  rw [isQuoted_of_mem_quote h] at hd
  exact absurd hd (by decide)

/-! ### The parts of a link -/

/-- The userinfo of a link: what stands between the two slashes and the first `@`. -/
def userinfo (link : String) : List Char :=
  ((link.toList.dropWhile (· ≠ '/')).drop 2).takeWhile (· ≠ '@')

/-- The last segment of the path of an address. -/
def lastSegment (url : String) : List Char :=
  (url.toList.reverse.takeWhile (· ≠ '/')).reverse

/-- The run of characters before the first one that ends it. -/
theorem takeWhile_append_cons {p : Char → Bool} {u rest : List Char} {c : Char}
    (hu : ∀ x ∈ u, p x = true) (hc : p c = false) : (u ++ c :: rest).takeWhile p = u := by
  rw [List.takeWhile_append_of_pos hu, List.takeWhile_cons_of_neg (by simp [hc]), List.append_nil]

/-- **The userinfo of the Hysteria2 link is the secret.** -/
theorem unquote_userinfo_hysteriaLink (config : TransportLinkConfig) (secret label : String) :
    unquoteToBytes (userinfo (buildHysteriaLink config secret label)) = utf8Bytes secret := by
  obtain ⟨rest, hrest⟩ : ∃ rest, (buildHysteriaLink config secret label).toList =
      "hysteria2://".toList ++ ((quote secret).toList ++ '@' :: rest) := by
    refine ⟨(config.host.text ++ ":" ++ toString config.publicPort ++ "/?" ++ urlencode
      [("obfs", "salamander"), ("obfs-password", config.hysteriaObfsPassword)] ++ "#" ++
        quote label).toList, ?_⟩
    delta buildHysteriaLink
    simp only [String.toList_append, List.append_assoc]
    rfl
  have hscheme : ∀ l : List Char,
      (("hysteria2://".toList ++ l).dropWhile (· ≠ '/')).drop 2 = l := fun l => by simp
  have hat : ∀ x ∈ (quote secret).toList, decide (x ≠ '@') = true := fun x hx => by
    simpa using ne_of_mem_quote hx (by decide)
  rw [userinfo, hrest, hscheme, takeWhile_append_cons hat (by decide), unquoteToBytes_quote]

/-- **The last segment of the subscription address is the token.** -/
theorem unquote_lastSegment_combinedUrl (config : TransportLinkConfig) (token : String) :
    unquoteToBytes (lastSegment (combinedUrl config token)) = utf8Bytes token := by
  obtain ⟨front, hfront⟩ : ∃ front, (combinedUrl config token).toList =
      front ++ '/' :: (quote token).toList := by
    refine ⟨("https://" ++ config.host.text ++ ":" ++ toString config.panelPort ++ "/s").toList, ?_⟩
    simp only [combinedUrl, String.toList_append, List.append_assoc]
    rfl
  have hslash : ∀ x ∈ (quote token).toList.reverse, decide (x ≠ '/') = true := fun x hx => by
    simpa using ne_of_mem_quote (List.mem_reverse.mp hx) (by decide)
  rw [lastSegment, hfront, List.reverse_append, List.reverse_cons, List.append_assoc,
    List.singleton_append, takeWhile_append_cons hslash (by decide), List.reverse_reverse,
    unquoteToBytes_quote]

/-! ### A link is one line -/

/-- A printable ASCII character other than the space. -/
def isVisible (c : Char) : Bool := 0x21 ≤ c.toNat && c.toNat ≤ 0x7e

/-- A text of such characters. -/
def Visible (s : String) : Prop := ∀ c ∈ s.toList, isVisible c = true

instance (s : String) : Decidable (Visible s) := List.decidableBAll _ _

theorem Visible.append {s s' : String} (h : Visible s) (h' : Visible s') : Visible (s ++ s') := by
  intro c hc
  rw [String.toList_append] at hc
  rcases List.mem_append.mp hc with hc | hc
  · exact h c hc
  · exact h' c hc

theorem isVisible_of_isUnreserved {c : Char} (h : isUnreserved c = true) : isVisible c = true := by
  simp only [isUnreserved, Char.isAlpha, Char.isUpper, Char.isLower, Char.isDigit, Bool.or_eq_true,
    Bool.and_eq_true, decide_eq_true_eq, beq_iff_eq, ge_iff_le] at h
  rw [isVisible, Bool.and_eq_true, decide_eq_true_eq, decide_eq_true_eq]
  rcases h with ((((h | h) | rfl) | rfl) | rfl) | rfl
  · rcases h with h | h <;> simp only [UInt32.le_iff_toNat_le] at h <;>
      exact ⟨le_trans (by decide) h.1, le_trans h.2 (by decide)⟩
  · simp only [UInt32.le_iff_toNat_le] at h
    exact ⟨le_trans (by decide) h.1, le_trans h.2 (by decide)⟩
  all_goals decide

theorem isVisible_of_isQuoted {c : Char} (h : isQuoted c = true) : isVisible c = true := by
  rw [isQuoted, Bool.or_eq_true, beq_iff_eq] at h
  rcases h with h | rfl
  · exact isVisible_of_isUnreserved h
  · decide

theorem visible_quote (s : String) : Visible (quote s) :=
  fun _ hc => isVisible_of_isQuoted (isQuoted_of_mem_quote hc)

theorem visible_quotePlus (s : String) : Visible (quotePlus s) := by
  intro c hc
  rw [quotePlus, String.toList_ofList] at hc
  obtain ⟨d, -, hd⟩ := List.mem_flatMap.mp hc
  rw [quotePlusChar] at hd
  split at hd
  · obtain rfl := List.mem_singleton.mp hd
    decide
  · exact isVisible_of_isQuoted (isQuoted_of_mem_quoteChar hd)

theorem visible_toString (n : ℕ) : Visible (toString n) := by
  intro c hc
  have hdigit : c.isDigit = true :=
    Nat.isDigit_of_mem_toDigits (b := 10) (n := n) (by decide) (by decide) (by simpa using hc)
  exact isVisible_of_isUnreserved (by simp [isUnreserved, hdigit])

theorem visible_host (h : IPv4Address) : Visible h.text := by
  have hdot : Visible "." := by decide
  exact (((((((visible_toString _).append hdot).append (visible_toString _)).append hdot).append
    (visible_toString _)).append hdot).append (visible_toString _))

theorem visible_urlencode (pairs : List (String × String)) : Visible (urlencode pairs) := by
  have hpair : ∀ kv : String × String, Visible (quotePlus kv.1 ++ "=" ++ quotePlus kv.2) := fun kv =>
    ((visible_quotePlus _).append (by decide)).append (visible_quotePlus _)
  rw [urlencode]
  induction pairs with
  | nil => simp [Visible]
  | cons kv pairs ih =>
    rcases pairs with _ | ⟨kv', rest⟩
    · rw [List.map_cons, List.map_nil, String.intercalate_singleton]
      exact hpair kv
    · rw [List.map_cons, List.map_cons, String.intercalate_cons_cons]
      exact ((hpair kv).append (by decide)).append ih

/-- **A `vless` link is made of printable characters.** -/
theorem visible_vlessLink (config : TransportLinkConfig) (userId : Uuid) (label : String) :
    Visible (buildVlessLink config userId label) := by
  delta buildVlessLink
  refine Visible.append (Visible.append (Visible.append (Visible.append (Visible.append
    (Visible.append (Visible.append (Visible.append ?_ (visible_quote _)) ?_) (visible_host _)) ?_)
    (visible_toString _)) ?_) (visible_urlencode _)) ?_ |>.append (visible_quote _)
  all_goals decide

/-- **A `hysteria2` link is made of printable characters.** -/
theorem visible_hysteriaLink (config : TransportLinkConfig) (secret label : String) :
    Visible (buildHysteriaLink config secret label) := by
  delta buildHysteriaLink
  refine Visible.append (Visible.append (Visible.append (Visible.append (Visible.append
    (Visible.append (Visible.append (Visible.append ?_ (visible_quote _)) ?_) (visible_host _)) ?_)
    (visible_toString _)) ?_) (visible_urlencode _)) ?_ |>.append (visible_quote _)
  all_goals decide

/-- The bytes of such a text hold no line feed. -/
theorem Visible.no_newline {s : String} (h : Visible s) : (10 : UInt8) ∉ utf8Bytes s := by
  have hrange : ∀ c ∈ s.toList, 0x21 ≤ c.toNat ∧ c.toNat ≤ 0x7e := fun c hc => by
    simpa [isVisible] using h c hc
  have hascii : isAscii s = true := by
    rw [isAscii, List.all_eq_true]
    intro c hc
    have := hrange c hc
    simp only [decide_eq_true_eq]
    omega
  rw [utf8Bytes_of_isAscii hascii, asciiBytes]
  intro hmem
  obtain ⟨c, hc, hten⟩ := List.mem_map.mp hmem
  have hn := congrArg UInt8.toNat hten
  have := hrange c hc
  rw [UInt8.toNat_ofNat', Nat.mod_eq_of_lt (by omega)] at hn
  simp only [UInt8.reduceToNat] at hn
  omega

end EzOpenPN
