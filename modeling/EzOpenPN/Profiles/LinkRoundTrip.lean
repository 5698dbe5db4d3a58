import EzOpenPN.Lib.Uri
import EzOpenPN.Profiles.LinkText
import EzOpenPN.Web.PreAuth

/-!
# A share link read as a URI

A client that is given a link splits it as a URI and decodes the parts: the userinfo and the
fragment are percent-encoded, the query is form-encoded. `EzOpenPN.readLink` is that reader. It is
not part of the repository; it is what the links are written for, and here stands that it returns
what the builders were given, whatever characters the name of the profile, the public key or the
password are made of.

The delimiters are kept apart because each quoting function leaves none of them in its result: a
quoted text consists of unreserved characters and percent signs, a form-encoded one of these and
plus signs (`EzOpenPN.isQuoted_of_mem_quote`, `EzOpenPN.not_mem_quotePlus`). Splitting
then undoes writing (`Uri.split_text`, `Uri.splitPairs_joinPairs`), and decoding undoes quoting.

That two tuples of inputs have different links follows: what is read from a link is one tuple.
The host and the UUID are read as their texts, which determine them
(`EzOpenPN.IPv4Address.text_injective`, `EzOpenPN.Uuid.text_injective`).
-/

namespace EzOpenPN

/-! ### The texts of UUIDs and addresses -/

theorem Uuid.length_hexBytes (b : Bytes) : (b.flatMap Uuid.hexByte).length = 2 * b.length := by
  induction b with
  | nil => rfl
  | cons x b ih =>
    rw [List.flatMap_cons, List.length_append, ih, Uuid.hexByte, List.length_cons]
    simp only [List.length_cons, List.length_nil]
    omega

theorem Uuid.length_chars (u : Uuid) : u.chars.length = 36 := by
  have h : u.bytes.length = 16 := u.property
  simp only [Uuid.chars, List.length_append, List.length_cons, Uuid.length_hexBytes,
    List.length_take, List.length_drop, h]
  rfl

/-- **A UUID is known from its text.** -/
theorem Uuid.chars_injective : Function.Injective Uuid.chars := by
  intro u v h
  have hu : u.bytes.length = 16 := u.property
  have hv : v.bytes.length = 16 := v.property
  have hhex : ∀ {a b : Bytes}, a.flatMap Uuid.hexByte = b.flatMap Uuid.hexByte → a = b :=
    fun hab => hexText_injective (congrArg String.ofList hab)
  have hlen : ∀ i j, (((u.bytes.drop i).take j).flatMap Uuid.hexByte).length =
      (((v.bytes.drop i).take j).flatMap Uuid.hexByte).length := fun i j => by
    simp only [Uuid.length_hexBytes, List.length_take, List.length_drop, hu, hv]
  simp only [Uuid.chars, List.cons_append, List.append_assoc] at h
  -- the five groups, from the left
  obtain ⟨h₁, h⟩ := List.append_inj h (hlen 0 4)
  obtain ⟨h₂, h⟩ := List.append_inj (List.cons.inj h).2 (hlen 4 2)
  obtain ⟨h₃, h⟩ := List.append_inj (List.cons.inj h).2 (hlen 6 2)
  obtain ⟨h₄, h⟩ := List.append_inj (List.cons.inj h).2 (hlen 8 2)
  have h₅ := hhex (List.cons.inj h).2
  have hsplit : ∀ b : Bytes, b = b.take 4 ++ ((b.drop 4).take 2 ++ ((b.drop 6).take 2 ++
      ((b.drop 8).take 2 ++ b.drop 10))) := fun b => by
    have hstep : ∀ i j : ℕ, b.drop i = (b.drop i).take j ++ b.drop (i + j) := fun i j => by
      rw [← List.drop_drop, List.take_append_drop]
    rw [← hstep 8 2, ← hstep 6 2, ← hstep 4 2, List.take_append_drop]
  refine Subtype.ext ?_
  change u.bytes = v.bytes
  rw [hsplit u.bytes, hsplit v.bytes, hhex h₁, hhex h₂, hhex h₃, hhex h₄, h₅]

theorem Uuid.isAscii_text (u : Uuid) : isAscii u.text = true := by
  have hdigit : ∀ n < 16, (Nat.digitChar n).toNat < 128 := by decide
  have hhex : ∀ (b : Bytes), ∀ c ∈ b.flatMap Uuid.hexByte, c.toNat < 128 := by
    intro b c hc
    obtain ⟨x, -, hx⟩ := List.mem_flatMap.mp hc
    have hlt := x.toNat_lt
    simp only [Uuid.hexByte, List.mem_cons, List.not_mem_nil, or_false] at hx
    rcases hx with rfl | rfl
    · exact hdigit _ (by omega)
    · exact hdigit _ (by omega)
  rw [isAscii, List.all_eq_true]
  intro c hc
  rw [Uuid.text, String.toList_ofList] at hc
  simp only [Uuid.chars, List.mem_append, List.mem_cons] at hc
  rw [decide_eq_true_iff]
  rcases hc with ((((hc | rfl | hc) | rfl | hc) | rfl | hc) | rfl | hc)
  all_goals first | exact hhex _ c hc | decide

/-- **UUIDs with the same bytes of text are the same.** -/
theorem Uuid.asciiBytes_text_injective {u v : Uuid} (h : asciiBytes u.text = asciiBytes v.text) :
    u = v :=
  Uuid.chars_injective
    (String.ofList_injective (asciiBytes_injOn u.isAscii_text v.isAscii_text h))

theorem Uuid.text_injective : Function.Injective Uuid.text :=
  fun _ _ h => Uuid.chars_injective (String.ofList_injective h)

theorem ne_dot_of_mem_toString {n : ℕ} : '.' ∉ (toString n).toList := by
  intro hc
  have hdigit : Char.isDigit '.' = true :=
    Nat.isDigit_of_mem_toDigits (b := 10) (n := n) (by decide) (by decide) (by simpa using hc)
  exact absurd hdigit (by decide)

/-- The number a text of decimal digits stands for. -/
def decimalValue (digits : List Char) : ℕ := Nat.ofDigitChars 10 digits 0

theorem decimalValue_toString (n : ℕ) : decimalValue (toString n).toList = n := by
  have hdigits : (toString n).toList = Nat.toDigits 10 n := by simp
  rw [hdigits, decimalValue, Nat.ofDigitChars_toDigits (by decide) (by decide)]

theorem toString_nat_injective {m n : ℕ} (h : (toString m).toList = (toString n).toList) :
    m = n := by
  rw [← decimalValue_toString m, h, decimalValue_toString]

/-- **An address is known from its text.** -/
theorem IPv4Address.text_injective : Function.Injective IPv4Address.text := by
  intro h h' heq
  have hlist := congrArg String.toList heq
  have hdot : ∀ s : String, ("." ++ s).toList = Uri.introduced '.' (some s.toList) := fun s => by
    rw [String.toList_append]
    rfl
  have hcut : ∀ {m n : ℕ} {s s' : String},
      (toString m).toList ++ ("." ++ s).toList = (toString n).toList ++ ("." ++ s').toList →
        m = n ∧ s.toList = s'.toList := by
    intro m n s s' hms
    have hpair := congrArg (Uri.cut '.') hms
    rw [hdot, hdot, Uri.cut_append_introduced ne_dot_of_mem_toString,
      Uri.cut_append_introduced ne_dot_of_mem_toString, Prod.mk.injEq, Option.some.injEq] at hpair
    exact ⟨toString_nat_injective hpair.1, hpair.2⟩
  simp only [IPv4Address.text, String.append_assoc] at hlist
  rw [String.toList_append, String.toList_append (s := toString h'.a.toNat)] at hlist
  obtain ⟨ha, hlist⟩ := hcut hlist
  rw [String.toList_append, String.toList_append (s := toString h'.b.toNat)] at hlist
  obtain ⟨hb, hlist⟩ := hcut hlist
  rw [String.toList_append, String.toList_append (s := toString h'.c.toNat)] at hlist
  obtain ⟨hc, hd⟩ := hcut hlist
  have hbyte : ∀ {a b : UInt8}, a.toNat = b.toNat → a = b := fun hab => UInt8.toNat_inj.mp hab
  cases h
  cases h'
  simp only [IPv4Address.mk.injEq]
  exact ⟨hbyte ha, hbyte hb, hbyte hc, hbyte (toString_nat_injective hd)⟩

/-! ### Decoding -/

/-- `unquote(text)`. -/
def percentDecode (text : List Char) : Option String := decodeUtf8 (unquoteToBytes text)

/-- `unquote_plus(text)`: a plus sign is a space before anything is decoded. -/
def formDecode (text : List Char) : Option String :=
  percentDecode (text.map fun c => if c = '+' then ' ' else c)

/-- **Percent-decoding undoes quoting.** -/
theorem percentDecode_quote (s : String) : percentDecode (quote s).toList = some s := by
  rw [percentDecode, unquoteToBytes_quote, decodeUtf8_utf8Bytes]

/-- **Form-decoding undoes form-encoding**: a plus sign of the text itself is quoted. -/
theorem formDecode_quotePlus (s : String) : formDecode (quotePlus s).toList = some s := by
  have hchar : ∀ c : Char, (quotePlusChar c).map (fun c => if c = '+' then ' ' else c) =
      if c = ' ' then [' '] else quoteChar c := by
    intro c
    rw [quotePlusChar]
    split
    · rfl
    · refine (List.map_congr_left fun d hd => ?_).trans (List.map_id _)
      have hplus : d ≠ '+' := by
        rintro rfl
        exact absurd (isQuoted_of_mem_quoteChar hd) (by decide)
      rw [if_neg hplus, id_eq]
  have hbytes : unquoteToBytes ((quotePlus s).toList.map fun c => if c = '+' then ' ' else c) =
      utf8Bytes s := by
    rw [quotePlus, String.toList_ofList, List.map_flatMap, utf8Bytes]
    simp only [hchar]
    generalize s.toList = l
    induction l with
    | nil => rfl
    | cons c l ih =>
      rw [List.flatMap_cons, List.flatMap_cons, ← ih]
      split
      · rename_i hspace
        subst hspace
        exact unquoteToBytes_cons (by decide) _
      · rw [quoteChar]
        split
        · rename_i hc
          exact unquoteToBytes_cons (isUnreserved_ne_percent hc) _
        · exact unquoteToBytes_percentBytes _ _
  rw [formDecode, percentDecode, hbytes, decodeUtf8_utf8Bytes]

/-- A character that a form-encoded text is made of. -/
def isFormChar (c : Char) : Bool := isQuoted c || c == '+'

/-- **A form-encoded text is made of unreserved characters, percent signs and plus signs.** -/
theorem isFormChar_of_mem_quotePlus {s : String} {c : Char} (h : c ∈ (quotePlus s).toList) :
    isFormChar c = true := by
  rw [quotePlus, String.toList_ofList] at h
  obtain ⟨d, -, hd⟩ := List.mem_flatMap.mp h
  rw [quotePlusChar] at hd
  split at hd
  · obtain rfl := List.mem_singleton.mp hd
    decide
  · rw [isFormChar, isQuoted_of_mem_quoteChar hd, Bool.true_or]

theorem not_mem_quotePlus (s : String) {c : Char} (hc : isFormChar c = false) :
    c ∉ (quotePlus s).toList := by
  intro h
  rw [isFormChar_of_mem_quotePlus h] at hc
  exact absurd hc (by decide)

/-! ### Reading a query -/

/-- `parse_qsl(query)`. -/
def readQuery (query : List Char) : Option (List (String × String)) :=
  (Uri.splitPairs query).mapM fun kv => do
    let key ← formDecode kv.1
    let value ← formDecode kv.2
    return (key, value)

theorem toList_urlencode (pairs : List (String × String)) : (urlencode pairs).toList =
    Uri.joinPairs (pairs.map fun kv => ((quotePlus kv.1).toList, (quotePlus kv.2).toList)) := by
  have hpair : ∀ kv : String × String, (quotePlus kv.1 ++ "=" ++ quotePlus kv.2).toList =
      (quotePlus kv.1).toList ++ '=' :: (quotePlus kv.2).toList := fun kv => by
    rw [String.toList_append, String.toList_append, List.append_assoc]
    rfl
  have hpieces : (pairs.map fun kv => quotePlus kv.1 ++ "=" ++ quotePlus kv.2).map String.toList =
      pairs.map fun kv => (quotePlus kv.1).toList ++ '=' :: (quotePlus kv.2).toList := by
    rw [List.map_map]
    exact List.map_congr_left fun kv _ => hpair kv
  have hseparator : "&".toList = ['&'] := rfl
  rw [urlencode, String.toList_intercalate, hpieces, hseparator, Uri.joinPairs, List.map_map]
  simp only [Function.comp_def]

/-- **Reading a query undoes encoding it.** -/
theorem readQuery_urlencode {pairs : List (String × String)} (hne : pairs ≠ []) :
    readQuery (urlencode pairs).toList = some pairs := by
  rw [readQuery, toList_urlencode, Uri.splitPairs_joinPairs (by simpa using hne)]
  · clear hne
    induction pairs with
    | nil => rfl
    | cons kv pairs ih =>
      rw [List.map_cons, List.mapM_cons, ih, formDecode_quotePlus, formDecode_quotePlus]
      rfl
  · intro kv hkv
    obtain ⟨kv, -, rfl⟩ := List.mem_map.mp hkv
    dsimp only
    exact ⟨not_mem_quotePlus _ (by decide), not_mem_quotePlus _ (by decide),
      not_mem_quotePlus _ (by decide)⟩

/-- The number sign is not in an encoded query. -/
theorem hash_not_mem_urlencode (pairs : List (String × String)) :
    '#' ∉ (urlencode pairs).toList := by
  have hpiece : ∀ kv : String × String, '#' ∉ (quotePlus kv.1 ++ "=" ++ quotePlus kv.2).toList := by
    intro kv
    rw [String.toList_append, String.toList_append, List.mem_append, List.mem_append, not_or, not_or]
    exact ⟨⟨not_mem_quotePlus _ (by decide), by decide⟩, not_mem_quotePlus _ (by decide)⟩
  rw [urlencode]
  induction pairs with
  | nil => simp
  | cons kv pairs ih =>
    rcases pairs with _ | ⟨kv', rest⟩
    · rw [List.map_cons, List.map_nil, String.intercalate_singleton]
      exact hpiece kv
    · rw [List.map_cons, List.map_cons, String.intercalate_cons_cons, String.toList_append,
        String.toList_append, List.mem_append, List.mem_append, not_or, not_or]
      exact ⟨⟨hpiece kv, by decide⟩, ih⟩

/-! ### Reading a link -/

/-- What a client reads from a link. -/
structure ShareLink where
  scheme : String
  userinfo : String
  host : String
  port : ℕ
  path : String
  query : List (String × String)
  fragment : String
  deriving DecidableEq

/-- **Read a link as a URI**: split it, and decode every part in the way of its place. -/
def readLink (link : String) : Option ShareLink := do
  let parts ← Uri.split link.toList
  let userinfo ← percentDecode (← parts.userinfo)
  let port ← parts.port
  let query ← readQuery (← parts.query)
  let fragment ← percentDecode (← parts.fragment)
  return { scheme := String.ofList parts.scheme
           userinfo := userinfo
           host := String.ofList parts.host
           port := decimalValue port
           path := String.ofList parts.path
           query := query
           fragment := fragment }

/-- The parts of a link of this shape. -/
def linkParts (scheme userinfo : String) (host : IPv4Address) (port : ℕ) (path : List Char)
    (pairs : List (String × String)) (label : String) : Uri.Parts where
  scheme := scheme.toList
  userinfo := some (quote userinfo).toList
  host := host.text.toList
  port := some (toString port).toList
  path := path
  query := some (urlencode pairs).toList
  fragment := some (quote label).toList

/-- The characters of an address. -/
theorem isDigit_or_dot_of_mem_text {h : IPv4Address} :
    ∀ c ∈ h.text.toList, c.isDigit = true ∨ c = '.' := by
  have hnumber : ∀ n : ℕ, ∀ c ∈ (toString n).toList, c.isDigit = true ∨ c = '.' := fun n c hc =>
    .inl (Nat.isDigit_of_mem_toDigits (b := 10) (n := n) (by decide) (by decide)
      (by simpa using hc))
  have hdot : ∀ c ∈ ".".toList, c.isDigit = true ∨ c = '.' := fun c hc => .inr (by simpa using hc)
  simp only [IPv4Address.text, String.toList_append, List.forall_mem_append]
  exact ⟨⟨⟨⟨⟨⟨hnumber _, hdot⟩, hnumber _⟩, hdot⟩, hnumber _⟩, hdot⟩, hnumber _⟩

/-- **The parts of a link are well formed**, whatever the texts in it. -/
theorem linkParts_wellFormed {scheme : String} {path : List Char}
    (hscheme : ':' ∉ scheme.toList) (hpath : path = [] ∨ path = ['/']) (userinfo : String)
    (host : IPv4Address) (port : ℕ) (pairs : List (String × String)) (label : String) :
    (linkParts scheme userinfo host port path pairs label).WellFormed where
  scheme := hscheme
  userinfo u hu c hc hmem := by
    have hends : ∀ c ∈ Uri.Parts.authorityEnds, isQuoted c = false :=
      List.forall_iff_forall_mem.mp (by decide)
    obtain rfl := Option.some.inj hu
    exact ne_of_mem_quote hmem (hends c hc) rfl
  host c hc hmem := by
    have hends : ∀ c ∈ '@' :: ':' :: Uri.Parts.authorityEnds, c.isDigit = false ∧ c ≠ '.' :=
      List.forall_iff_forall_mem.mp (by decide)
    dsimp only [linkParts] at hmem
    rcases isDigit_or_dot_of_mem_text c hmem with hdigit | hdot
    · exact absurd hdigit (by simp [(hends c hc).1])
    · exact (hends c hc).2 hdot
  port u hu c hc hmem := by
    have hends : ∀ c ∈ '@' :: Uri.Parts.authorityEnds, c.isDigit = false :=
      List.forall_iff_forall_mem.mp (by decide)
    obtain rfl := Option.some.inj hu
    have hdigit : c.isDigit = true :=
      Nat.isDigit_of_mem_toDigits (b := 10) (n := port) (by decide) (by decide)
        (by simpa using hmem)
    exact absurd hdigit (by simp [hends c hc])
  path c hc hmem := by
    have hslash : ∀ c ∈ ['?', '#'], c ∉ ['/'] :=
      List.forall_iff_forall_mem.mp (by decide)
    rcases hpath with rfl | rfl
    · exact List.not_mem_nil hmem
    · exact hslash c hc hmem
  rooted := by
    rcases hpath with rfl | rfl
    · exact .inl rfl
    · exact .inr rfl
  query u hu := by
    obtain rfl := Option.some.inj hu
    exact hash_not_mem_urlencode pairs

/-- **A link of this shape is read back.** -/
theorem readLink_of_text {link scheme userinfo label : String} {host : IPv4Address} {port : ℕ}
    {path : List Char} {pairs : List (String × String)} (hne : pairs ≠ [])
    (hscheme : ':' ∉ scheme.toList) (hpath : path = [] ∨ path = ['/'])
    (hlink : link.toList = (linkParts scheme userinfo host port path pairs label).text) :
    readLink link = some { scheme, userinfo, host := host.text, port, path := String.ofList path,
                           query := pairs, fragment := label } := by
  have hsplit := Uri.split_text (linkParts_wellFormed hscheme hpath userinfo host port pairs label)
  rw [readLink, hlink, hsplit]
  simp only [linkParts, Option.bind_eq_bind, Option.bind_some, percentDecode_quote,
    readQuery_urlencode hne, decimalValue_toString, String.ofList_toList]
  rfl

/-! ### The two links -/

section Links

variable (config : TransportLinkConfig)

/-- What a client reads from the `vless` link. -/
def vlessFields (userId : Uuid) (label : String) : ShareLink where
  scheme := "vless"
  userinfo := userId.text
  host := config.host.text
  port := config.publicPort
  path := ""
  query := [("type", "tcp"), ("security", "reality"), ("encryption", "none"),
    ("flow", visionFlow), ("pbk", config.realityPublicKey), ("fp", "chrome"),
    ("sni", config.host.text), ("sid", config.realityShortId)]
  fragment := label

/-- What a client reads from the `hysteria2` link. -/
def hysteriaFields (secret label : String) : ShareLink where
  scheme := "hysteria2"
  userinfo := secret
  host := config.host.text
  port := config.publicPort
  path := "/"
  query := [("obfs", "salamander"), ("obfs-password", config.hysteriaObfsPassword)]
  fragment := label

/-- **The `vless` link is read back.** -/
theorem readLink_vless (userId : Uuid) (label : String) :
    readLink (buildVlessLink config userId label) = some (vlessFields config userId label) := by
  refine readLink_of_text (by simp) (by decide) (.inl rfl) ?_
  simp only [buildVlessLink, String.toList_append, Uri.Parts.text, linkParts, Uri.introduced,
    Uri.ended, String.reduceToList, List.append_assoc, List.cons_append, List.nil_append]

/-- **The `hysteria2` link is read back.** -/
theorem readLink_hysteria (secret label : String) :
    readLink (buildHysteriaLink config secret label) = some (hysteriaFields config secret label) := by
  refine readLink_of_text (by simp) (by decide) (.inr rfl) ?_
  delta buildHysteriaLink
  simp only [String.toList_append, Uri.Parts.text, linkParts, Uri.introduced, Uri.ended,
    String.reduceToList, List.append_assoc, List.cons_append, List.nil_append]

/-- **The share links round-trip.** Each link is read back as exactly what it was built from, is
printable ASCII without white space, and is the link of no other inputs. -/
theorem share_links_round_trip (userId : Uuid) (secret label : String) :
    (readLink (buildVlessLink config userId label) = some (vlessFields config userId label) ∧
      readLink (buildHysteriaLink config secret label) =
        some (hysteriaFields config secret label)) ∧
    (Visible (buildVlessLink config userId label) ∧
      Visible (buildHysteriaLink config secret label)) ∧
    (∀ (config' : TransportLinkConfig) (userId' : Uuid) (label' : String),
      buildVlessLink config' userId' label' = buildVlessLink config userId label →
        userId' = userId ∧ config'.host = config.host ∧ config'.publicPort = config.publicPort ∧
          config'.realityPublicKey = config.realityPublicKey ∧
          config'.realityShortId = config.realityShortId ∧ label' = label) ∧
    ∀ (config' : TransportLinkConfig) (secret' label' : String),
      buildHysteriaLink config' secret' label' = buildHysteriaLink config secret label →
        secret' = secret ∧ config'.host = config.host ∧ config'.publicPort = config.publicPort ∧
          config'.hysteriaObfsPassword = config.hysteriaObfsPassword ∧ label' = label := by
  refine ⟨⟨readLink_vless config userId label, readLink_hysteria config secret label⟩,
    ⟨visible_vlessLink config userId label, visible_hysteriaLink config secret label⟩,
    fun config' userId' label' h => ?_, fun config' secret' label' h => ?_⟩
  · have hfields : vlessFields config' userId' label' = vlessFields config userId label := by
      rw [← Option.some.injEq, ← readLink_vless, ← readLink_vless, h]
    simp only [vlessFields, ShareLink.mk.injEq, List.cons.injEq, Prod.mk.injEq, and_true, true_and]
      at hfields
    obtain ⟨huser, hhost, hport, ⟨hkey, -, hsid⟩, hlabel⟩ := hfields
    exact ⟨Uuid.text_injective huser, IPv4Address.text_injective hhost, hport, hkey, hsid, hlabel⟩
  · have hfields : hysteriaFields config' secret' label' = hysteriaFields config secret label := by
      rw [← Option.some.injEq, ← readLink_hysteria, ← readLink_hysteria, h]
    simp only [hysteriaFields, ShareLink.mk.injEq, List.cons.injEq, Prod.mk.injEq, and_true,
      true_and] at hfields
    obtain ⟨hsecret, hhost, hport, hpassword, hlabel⟩ := hfields
    exact ⟨hsecret, IPv4Address.text_injective hhost, hport, hpassword, hlabel⟩

end Links

end EzOpenPN
