import EzOpenPN.Basic
import EzOpenPN.Lib.Calendar

/-!
# The health file of the certificate export

Next to the exported chain and key there is `health.json`, one line of JSON with the address, the
expiry and the fingerprint of the exported leaf. It is written by `json.Marshal` and read back by
a decoder that refuses unknown fields, and both sides go through the standard library: the address
through `IP.String` and `net.ParseIP`, the expiry through RFC 3339.

This file embeds the two directions as far as they decide what the health check sees, and
`EzOpenPN.Certsync.decodeHealth_marshalHealth` says that **what is written is read back**, for every
address, every fingerprint and every expiry in the years 0 to 9999. RFC 3339 has no others
(`EzOpenPN.Certsync.marshalHealth_eq_none_iff`), and a record with one is not written.

## Boundary

A file is read as ASCII: every byte outside of it becomes U+FFFD, whatever it would decode to,
since no such character occurs in a field name, an address, a fingerprint or a time. A time that
the fast path of the library refuses goes to `time.Parse`, which is a parameter (`ParseTime`).
-/

namespace EzOpenPN

namespace Certsync

/-! ### Times -/

/-- A `time.Time`: nanoseconds since the start of the year 0, in UTC. -/
abbrev Time := ℤ

/-- The nanoseconds of a second. -/
def second : ℕ := 1000000000

/-- The zero `time.Time`: the start of the year 1. -/
def zeroTime : Time := 366 * 86400 * second

/-- The last digits of a number, with leading zeros. -/
def digits : ℕ → ℕ → List Char
  | 0, _ => []
  | k + 1, n => digits k (n / 10) ++ [Nat.digitChar (n % 10)]

/-- The fraction of a second, without trailing zeros. -/
def fraction (nanoseconds : ℕ) : List Char :=
  if nanoseconds = 0 then []
  else '.' :: ((digits 9 nanoseconds).reverse.dropWhile (· == '0')).reverse

/-- **`Time.MarshalJSON`**, without the quotes: RFC 3339 has no years outside of 0 to 9999. -/
def formatTime (t : Time) : Option (List Char) :=
  if t < 0 then none
  else
    let seconds := t.toNat / second
    let date := Calendar.dateOf 10000 (seconds / 86400)
    let clock := seconds % 86400
    if date.year < 10000 then
      some (digits 4 date.year ++ '-' :: (digits 2 date.month ++ '-' :: (digits 2 date.day ++
        'T' :: (digits 2 (clock / 3600) ++ ':' :: (digits 2 (clock / 60 % 60) ++
        ':' :: (digits 2 (clock % 60) ++ (fraction (t.toNat % second) ++ ['Z'])))))))
    else none

/-- **The times of the years 0 to 9999.** -/
def FourDigitYear (t : Time) : Prop :=
  0 ≤ t ∧ t.toNat / second / 86400 < (Calendar.yearLengths 10000).sum

instance : DecidablePred FourDigitYear := fun t =>
  inferInstanceAs (Decidable (0 ≤ t ∧ t.toNat / second / 86400 < _))

/-- A number in decimal digits, within a range. -/
def parseUint (s : List Char) (lo hi : ℕ) : Option ℕ :=
  if s.all Char.isDigit then
    let x := s.foldl (fun x c => 10 * x + (c.toNat - 48)) 0
    if lo ≤ x ∧ x ≤ hi then some x else none
  else none

/-- The characters of a text from one index to another. -/
def slice (s : List Char) (i j : ℕ) : List Char := (s.drop i).take (j - i)

/-- The nanoseconds of the digits after the period; only nine of them count. -/
def parseNanoseconds (s : List Char) : ℕ :=
  let kept := s.take 9
  kept.foldl (fun x c => 10 * x + (c.toNat - 48)) 0 * 10 ^ (9 - kept.length)

/-- **`parseRFC3339`**, the fast path for a time. -/
def parseRFC3339 (s : List Char) : Option Time :=
  if s.length < 19 then none
  else do
    let year ← parseUint (slice s 0 4) 0 9999
    let month ← parseUint (slice s 5 7) 1 12
    let day ← parseUint (slice s 8 10) 1 (Calendar.daysIn year month)
    let hour ← parseUint (slice s 11 13) 0 23
    let minute ← parseUint (slice s 14 16) 0 59
    let sec ← parseUint (slice s 17 19) 0 59
    if s[4]? = some '-' ∧ s[7]? = some '-' ∧ s[10]? = some 'T' ∧ s[13]? = some ':' ∧
        s[16]? = some ':' then
      let tail := s.drop 19
      let nanos := (tail.drop 1).takeWhile Char.isDigit
      let hasFraction := tail.head? == some '.' && !nanos.isEmpty
      let zone := if hasFraction then tail.drop (1 + nanos.length) else tail
      let seconds := Calendar.dayNumber ⟨year, month, day⟩ * 86400 + hour * 3600 + minute * 60 + sec
      let t : Time := seconds * second + if hasFraction then parseNanoseconds nanos else 0
      if zone = ['Z'] then some t
      else if zone.length = 6 then do
        let hours ← parseUint (slice zone 1 3) 0 23
        let minutes ← parseUint (slice zone 4 6) 0 59
        if zone[3]? = some ':' then
          match zone.head? with
          | some '+' => some (t - ((hours * 60 + minutes) * 60 * second : ℕ))
          | some '-' => some (t + ((hours * 60 + minutes) * 60 * second : ℕ))
          | _ => none
        else none
      else none
    else none

/-- `time.Parse(RFC3339, …)`, for the texts that the fast path refuses. -/
abbrev ParseTime := List Char → Option Time

/-- **`Time.UnmarshalJSON`**, without the quotes. -/
def parseStrictRFC3339 (parseTime : ParseTime) (s : List Char) : Option Time :=
  match parseRFC3339 s with
  | some t => some t
  | none => parseTime s

/-! ### Addresses -/

/-- An IPv4 address. -/
structure IPv4 where
  a : UInt8
  b : UInt8
  c : UInt8
  d : UInt8
  deriving DecidableEq, Repr

/-- The first twelve bytes of an IPv4 address in sixteen bytes. -/
def v4InV6 : Bytes := List.replicate 10 0 ++ [255, 255]

/-- **`IP.To4`**: four bytes, or sixteen with the prefix of the mapped addresses. -/
def to4 : Bytes → Option IPv4
  | [a, b, c, d] => some ⟨a, b, c, d⟩
  | ip =>
    match ip.take 12 == v4InV6, ip.drop 12 with
    | true, [a, b, c, d] => some ⟨a, b, c, d⟩
    | _, _ => none

/-- `IP.String` of an IPv4 address. -/
def IPv4.text (ip : IPv4) : List Char :=
  let octet := fun (x : UInt8) => Nat.toDigits 10 x.toNat
  octet ip.a ++ '.' :: (octet ip.b ++ '.' :: (octet ip.c ++ '.' :: octet ip.d))

/-- One field of a dotted address: digits, no leading zero, at most 255. -/
def parseOctet (s : List Char) : Option UInt8 :=
  if s.isEmpty || (1 < s.length && s.head? == some '0') then none
  else (parseUint s 0 255).map UInt8.ofNat

/-- `parseIPv4Fields`: the four fields of a dotted address. -/
def parseIPv4 (s : List Char) : Option Bytes :=
  if (s.splitOn '.').length = 4 then (s.splitOn '.').mapM parseOctet else none

/-- The value of a hexadecimal digit. -/
def hexValue (c : Char) : Option ℕ :=
  if c.isDigit then some (c.toNat - 48)
  else if 'a' ≤ c ∧ c ≤ 'f' then some (c.toNat - 87)
  else if 'A' ≤ c ∧ c ≤ 'F' then some (c.toNat - 55)
  else none

/-- The loop of `parseIPv6` over the groups: the bytes so far, where the ellipsis stands, and the
rest of the text. -/
def parseGroups : ℕ → Bytes → Option ℕ → List Char → Option (Bytes × Option ℕ × List Char)
  | 0, acc, ellipsis, s => some (acc, ellipsis, s)
  | n + 1, acc, ellipsis, s =>
    let hex := s.takeWhile fun c => (hexValue c).isSome
    if hex.isEmpty || 4 < hex.length then none
    else if (s.drop hex.length).head? = some '.' then
      -- an IPv4 address may end the text
      if ellipsis = none ∧ acc.length ≠ 12 then none
      else if 16 < acc.length + 4 then none
      else (parseIPv4 s).map fun octets => (acc ++ octets, ellipsis, [])
    else
      let group := hex.foldl (fun x c => 16 * x + (hexValue c).getD 0) 0
      let acc := acc ++ [UInt8.ofNat (group / 256), UInt8.ofNat (group % 256)]
      match s.drop hex.length with
      | [] => some (acc, ellipsis, [])
      | [':'] => none
      | ':' :: ':' :: tail =>
        if ellipsis.isSome then none
        else if tail.isEmpty then some (acc, some acc.length, [])
        else parseGroups n acc (some acc.length) tail
      | ':' :: tail => parseGroups n acc ellipsis tail
      | _ => none

/-- `parseIPv6`, for a text without a zone. -/
def parseIPv6 (s : List Char) : Option Bytes := do
  let (acc, ellipsis, rest) ←
    match s with
    | [':', ':'] => some ([], some 0, [])
    | ':' :: ':' :: tail => parseGroups 8 [] (some 0) tail
    | _ => parseGroups 8 [] none s
  if !rest.isEmpty then none
  else if acc.length < 16 then
    ellipsis.map fun i => acc.take i ++ List.replicate (16 - acc.length) 0 ++ acc.drop i
  else if ellipsis.isSome then none
  else some acc

/-- **`net.ParseIP`**: sixteen bytes, and no zone. -/
def parseIP (s : List Char) : Option Bytes :=
  match s.find? fun c => c == '.' || c == ':' || c == '%' with
  | some '.' => (parseIPv4 s).map (v4InV6 ++ ·)
  | some ':' => if '%' ∈ s then none else parseIPv6 s
  | _ => none

/-! ### JSON -/

/-- The health record. -/
structure Health where
  ip : List Char
  notAfter : Time
  fingerprint : List Char
  deriving DecidableEq

/-- A SHA-256 digest. -/
def Digest : Type := { b : Bytes // b.length = 32 }

/-- `hex.EncodeToString`. -/
def Digest.hex (d : Digest) : List Char := d.val.flatMap Uuid.hexByte

/-- A JSON string of characters that need no escape. -/
def quote (s : List Char) : List Char := '"' :: (s ++ ['"'])

/-- `json.Marshal(health)` and the line feed after it; a time that RFC 3339 cannot write is an
error. -/
def healthText (h : Health) : Option (List Char) :=
  (formatTime h.notAfter).map fun notAfter =>
    '{' :: (quote "ip".toList ++ ':' :: (quote h.ip ++ ',' :: (quote "not_after".toList ++
      ':' :: (quote notAfter ++ ',' :: (quote "fingerprint".toList ++ ':' ::
      (quote h.fingerprint ++ ['}', '\n']))))))

/-- The bytes of the health file. -/
def marshalHealth (h : Health) : Option Bytes :=
  (healthText h).map fun text => text.map fun c => UInt8.ofNat c.toNat

/-- White space between the tokens. -/
def skipSpace (s : List Char) : List Char :=
  s.dropWhile fun c => c == ' ' || c == '\t' || c == '\r' || c == '\n'

/-- A string after its opening quote: its raw text and what follows the closing quote. -/
def scanString : List Char → Option (List Char × List Char)
  | [] => none
  | '"' :: rest => some ([], rest)
  | '\\' :: 'u' :: a :: b :: c :: d :: rest =>
    if [a, b, c, d].all fun x => (hexValue x).isSome then
      (scanString rest).map fun p => ('\\' :: 'u' :: a :: b :: c :: d :: p.1, p.2)
    else none
  | '\\' :: e :: rest =>
    if e ∈ ['"', '\\', '/', 'b', 'f', 'n', 'r', 't'] then
      (scanString rest).map fun p => ('\\' :: e :: p.1, p.2)
    else none
  | c :: rest =>
    if c.toNat < 32 || c == '\\' then none
    else (scanString rest).map fun p => (c :: p.1, p.2)

/-- The character of a one-letter escape. -/
def unescape : Char → Char
  | 'b' => Char.ofNat 8
  | 'f' => Char.ofNat 12
  | 'n' => '\n'
  | 'r' => '\r'
  | 't' => '\t'
  | e => e

/-- The text of a raw string. -/
def unquote : List Char → List Char
  | '\\' :: 'u' :: a :: b :: c :: d :: rest =>
    let n := [a, b, c, d].foldl (fun x h => 16 * x + (hexValue h).getD 0) 0
    (if n < 128 then Char.ofNat n else '\uFFFD') :: unquote rest
  | '\\' :: e :: rest => unescape e :: unquote rest
  | c :: rest => c :: unquote rest
  | [] => []

/-- The value of a field: a raw string or `null`. Any other value has the wrong type for each of
the fields. -/
def readValue : List Char → Option (Option (List Char) × List Char)
  | '"' :: rest => (scanString rest).map fun p => (some p.1, p.2)
  | 'n' :: 'u' :: 'l' :: 'l' :: rest => some (none, rest)
  | _ => none

/-- One member of the object. Field names match in any case; `null` leaves a field as it is, and an
unknown field is an error. -/
def setField (parseTime : ParseTime) (h : Health) (key : List Char) (value : Option (List Char)) :
    Option Health :=
  let name := key.map Char.toLower
  if name = "ip".toList then
    some (value.elim h fun raw => { h with ip := unquote raw })
  else if name = "not_after".toList then
    match value with
    | none => some h
    | some raw => (parseStrictRFC3339 parseTime raw).map fun t => { h with notAfter := t }
  else if name = "fingerprint".toList then
    some (value.elim h fun raw => { h with fingerprint := unquote raw })
  else none

/-- The members of an object, up to its closing brace. -/
def readMembers (parseTime : ParseTime) : ℕ → Health → List Char → Option (Health × List Char)
  | 0, _, _ => none
  | n + 1, h, s =>
    match skipSpace s with
    | '"' :: rest =>
      (scanString rest).bind fun key =>
        match skipSpace key.2 with
        | ':' :: rest =>
          (readValue (skipSpace rest)).bind fun value =>
            (setField parseTime h (unquote key.1) value.1).bind fun h =>
              match skipSpace value.2 with
              | ',' :: rest => readMembers parseTime n h rest
              | '}' :: rest => some (h, rest)
              | _ => none
        | _ => none
    | _ => none

/-- `decoder.Decode(&health)`, on a zero record. -/
def decode (parseTime : ParseTime) (s : List Char) : Option (Health × List Char) :=
  let empty : Health := ⟨[], zeroTime, []⟩
  match skipSpace s with
  | 'n' :: 'u' :: 'l' :: 'l' :: rest => some (empty, rest)
  | '{' :: rest =>
    match skipSpace rest with
    | '}' :: rest => some (empty, rest)
    | _ => readMembers parseTime s.length empty rest
  | _ => none

/-- The text of a file: bytes outside of ASCII are U+FFFD. -/
def textOf (content : Bytes) : List Char :=
  content.map fun b => if b.toNat < 128 then Char.ofNat b.toNat else '\uFFFD'

/-- **The record of a health file**: one JSON value and nothing after it. -/
def decodeHealth (parseTime : ParseTime) (content : Bytes) : Option Health :=
  (decode parseTime (textOf content)).bind fun p =>
    if (skipSpace p.2).isEmpty then some p.1 else none

/-! ### Reading numbers and times back -/

@[simp] theorem length_digits (k n : ℕ) : (digits k n).length = k := by
  induction k generalizing n with
  | zero => rfl
  | succ k ih => rw [digits, List.length_append, ih]; rfl

/-- The character of a decimal digit has its value. -/
theorem digitChar_spec {n : ℕ} (hn : n < 10) :
    (Nat.digitChar n).isDigit = true ∧ (Nat.digitChar n).toNat - 48 = n := by
  interval_cases n <;> decide

/-- Digits are digits. -/
theorem all_isDigit_digits (k n : ℕ) : (digits k n).all Char.isDigit = true := by
  induction k generalizing n with
  | zero => rfl
  | succ k ih =>
    rw [digits, List.all_append, ih, Bool.true_and, List.all_cons,
      (digitChar_spec (Nat.mod_lt n (by decide))).1]
    rfl

/-- The value of the last digits of a number. -/
theorem foldl_digits (k n x : ℕ) :
    (digits k n).foldl (fun x c => 10 * x + (c.toNat - 48)) x = x * 10 ^ k + n % 10 ^ k := by
  induction k generalizing n with
  | zero => simp [digits, Nat.mod_one]
  | succ k ih =>
    rw [digits, List.foldl_append, ih, List.foldl_cons, List.foldl_nil,
      (digitChar_spec (Nat.mod_lt n (by decide))).2, pow_succ', Nat.mod_mul]
    ring

/-- **A number in fixed width is read back.** -/
theorem parseUint_digits {k n lo hi : ℕ} (hn : n < 10 ^ k) (hlo : lo ≤ n) (hhi : n ≤ hi) :
    parseUint (digits k n) lo hi = some n := by
  rw [parseUint, if_pos (all_isDigit_digits k n)]
  simp only [foldl_digits, Nat.zero_mul, Nat.zero_add, Nat.mod_eq_of_lt hn, hlo, hhi, and_self,
    ↓reduceIte]

/-- Four digits. -/
theorem exists_digits_four (n : ℕ) : ∃ a b c d, digits 4 n = [a, b, c, d] := ⟨_, _, _, _, rfl⟩

/-- Two digits. -/
theorem exists_digits_two (n : ℕ) : ∃ a b, digits 2 n = [a, b] := ⟨_, _, rfl⟩

/-- **A valid date with a time of day is read back** from its text in RFC 3339. -/
theorem parseRFC3339_text {d : Calendar.Date} {clock : ℕ} (hd : d.Valid) (hyear : d.year < 10000)
    (hclock : clock < 86400) :
    parseRFC3339 (digits 4 d.year ++ '-' :: (digits 2 d.month ++ '-' :: (digits 2 d.day ++
      'T' :: (digits 2 (clock / 3600) ++ ':' :: (digits 2 (clock / 60 % 60) ++
      ':' :: (digits 2 (clock % 60) ++ ['Z'])))))) =
      some (((Calendar.dayNumber d * 86400 + clock) * second : ℕ) : ℤ) := by
  obtain ⟨hm1, hm12, hd1, hdin⟩ := hd
  have hd31 : d.day ≤ 31 := by
    have hmonths : ∀ y i, (Calendar.monthLengths y).getD i 0 ≤ 31 := by
      intro y i
      rw [Calendar.monthLengths]
      rcases i with _ | _ | _ | _ | _ | _ | _ | _ | _ | _ | _ | _ | i <;>
        simp only [List.getD_cons_zero, List.getD_cons_succ, List.getD_nil] <;>
        first | decide | (split <;> decide)
    exact hdin.trans (hmonths _ _)
  have hyear' := parseUint_digits (k := 4) (n := d.year) (by omega) (Nat.zero_le _)
    (show d.year ≤ 9999 by omega)
  have hmonth := parseUint_digits (k := 2) (n := d.month) (by omega) hm1 hm12
  have hday := parseUint_digits (k := 2) (n := d.day) (by omega) hd1 hdin
  have hhour := parseUint_digits (k := 2) (n := clock / 3600) (by omega) (Nat.zero_le _)
    (show clock / 3600 ≤ 23 by omega)
  have hminute := parseUint_digits (k := 2) (n := clock / 60 % 60) (by omega) (Nat.zero_le _)
    (show clock / 60 % 60 ≤ 59 by omega)
  have hsec := parseUint_digits (k := 2) (n := clock % 60) (by omega) (Nat.zero_le _)
    (show clock % 60 ≤ 59 by omega)
  obtain ⟨y1, y2, y3, y4, hy⟩ := exists_digits_four d.year
  obtain ⟨m1, m2, hm⟩ := exists_digits_two d.month
  obtain ⟨d1, d2, hd⟩ := exists_digits_two d.day
  obtain ⟨h1, h2, hh⟩ := exists_digits_two (clock / 3600)
  obtain ⟨i1, i2, hi⟩ := exists_digits_two (clock / 60 % 60)
  obtain ⟨s1, s2, hs⟩ := exists_digits_two (clock % 60)
  rw [hy] at hyear' ⊢
  rw [hm] at hmonth ⊢
  rw [hd] at hday ⊢
  rw [hh] at hhour ⊢
  rw [hi] at hminute ⊢
  rw [hs] at hsec ⊢
  have hseconds : Calendar.dayNumber d * 86400 + clock / 3600 * 3600 + clock / 60 % 60 * 60 +
      clock % 60 = Calendar.dayNumber d * 86400 + clock := by
    omega
  simp only [parseRFC3339, slice, List.cons_append, List.nil_append, List.length_cons,
    List.length_nil, List.drop_succ_cons, List.drop_zero, List.take_succ_cons, List.take_zero,
    Nat.reduceSub, Nat.reduceAdd, Nat.reduceLT, ↓reduceIte, hyear', hmonth, hday, hhour, hminute,
    hsec, Option.bind_eq_bind, Option.bind_some, List.getElem?_cons_succ, List.getElem?_cons_zero,
    and_self, List.head?_cons]
  have hZ : (some 'Z' == some '.') = false := by decide
  simp only [hZ, Bool.false_and, Bool.false_eq_true, ↓reduceIte, hseconds,
    Nat.cast_zero, add_zero, Nat.cast_mul]

/-! ### Plain texts -/

/-- **A plain text**: ASCII that a JSON string holds as it is. -/
def Plain (s : List Char) : Prop :=
  ∀ c ∈ s, 32 ≤ c.toNat ∧ c.toNat < 128 ∧ c ≠ '"' ∧ c ≠ '\\'

theorem Plain.append {s t : List Char} (hs : Plain s) (ht : Plain t) : Plain (s ++ t) := by
  intro c hc
  rcases List.mem_append.mp hc with hc | hc
  · exact hs c hc
  · exact ht c hc

theorem Plain.cons {c : Char} {s : List Char}
    (hc : 32 ≤ c.toNat ∧ c.toNat < 128 ∧ c ≠ '"' ∧ c ≠ '\\') (hs : Plain s) : Plain (c :: s) := by
  intro d hd
  rcases List.mem_cons.mp hd with rfl | hd
  · exact hc
  · exact hs d hd

/-- Digits are plain. -/
theorem plain_of_isDigit {s : List Char} (h : ∀ c ∈ s, c.isDigit = true) : Plain s := by
  intro c hc
  have hdigit := h c hc
  simp only [Char.isDigit, Bool.and_eq_true, decide_eq_true_eq, UInt32.le_iff_toNat_le] at hdigit
  have h48 : '0'.val.toNat = 48 := rfl
  have h57 : '9'.val.toNat = 57 := rfl
  have htoNat : c.toNat = c.val.toNat := rfl
  refine ⟨by omega, by omega, ?_, ?_⟩
  · rintro rfl
    exact absurd (h _ hc) (by decide)
  · rintro rfl
    exact absurd (h _ hc) (by decide)

theorem plain_digits (k n : ℕ) : Plain (digits k n) :=
  plain_of_isDigit (List.all_eq_true.mp (all_isDigit_digits k n))

theorem plain_toDigits (n : ℕ) : Plain (Nat.toDigits 10 n) :=
  plain_of_isDigit fun _ hc => Nat.isDigit_of_mem_toDigits (by decide) (by decide) hc

/-- The text of an address is plain. -/
theorem IPv4.plain_text (ip : IPv4) : Plain ip.text := by
  have hdot : 32 ≤ '.'.toNat ∧ '.'.toNat < 128 ∧ '.' ≠ '"' ∧ '.' ≠ '\\' := by decide
  exact (plain_toDigits _).append <| .cons hdot <| (plain_toDigits _).append <| .cons hdot <|
    (plain_toDigits _).append <| .cons hdot <| plain_toDigits _

/-- A fingerprint is plain. -/
theorem Digest.plain_hex (d : Digest) : Plain d.hex := by
  have hnibble : ∀ n : Fin 16, 32 ≤ (Nat.digitChar n).toNat ∧ (Nat.digitChar n).toNat < 128 ∧
      Nat.digitChar n ≠ '"' ∧ Nat.digitChar n ≠ '\\' := by
    decide
  intro c hc
  obtain ⟨b, -, hb⟩ := List.mem_flatMap.mp hc
  have hlt := b.toNat_lt
  rcases List.mem_cons.mp hb with rfl | hb
  · exact hnibble ⟨b.toNat / 16, by omega⟩
  · rw [List.mem_singleton.mp hb]
    exact hnibble ⟨b.toNat % 16, by omega⟩

/-- Two digits for each of the thirty-two bytes. -/
theorem Digest.length_hex (d : Digest) : d.hex.length = 64 := by
  have hlen : ∀ l : Bytes, (l.flatMap Uuid.hexByte).length = 2 * l.length := by
    intro l
    induction l with
    | nil => rfl
    | cons b l ih =>
      rw [List.flatMap_cons, List.length_append, ih, List.length_cons, Uuid.hexByte,
        List.length_cons, List.length_singleton]
      omega
  rw [Digest.hex, hlen, d.property]

/-! ### Reading addresses back -/

/-- **An octet is read back.** -/
theorem parseOctet_toDigits (x : UInt8) : parseOctet (Nat.toDigits 10 x.toNat) = some x := by
  have hall : ∀ n : Fin 256, parseOctet (Nat.toDigits 10 n.val) = some (UInt8.ofNat n.val) := by
    decide +kernel
  have h := hall ⟨x.toNat, x.toNat_lt⟩
  simpa using h

/-- An octet has no period in it. -/
theorem ne_dot_of_mem_toDigits {n : ℕ} : ∀ c ∈ Nat.toDigits 10 n, (c == '.') = false := by
  intro c hc
  have hdigit := Nat.isDigit_of_mem_toDigits (by decide) (by decide) hc
  rw [beq_eq_false_iff_ne]
  rintro rfl
  exact absurd hdigit (by decide)

/-- **The text of an address is parsed to the address.** -/
theorem parseIP_text (ip : IPv4) : (parseIP ip.text).bind to4 = some ip := by
  have hsplit : ip.text.splitOn '.' = [Nat.toDigits 10 ip.a.toNat, Nat.toDigits 10 ip.b.toNat,
      Nat.toDigits 10 ip.c.toNat, Nat.toDigits 10 ip.d.toNat] := by
    rw [List.splitOn_eq_splitOnP, IPv4.text]
    simp only
    rw [List.splitOnP_append_cons_of_forall_mem ne_dot_of_mem_toDigits '.' (by decide),
      List.splitOnP_append_cons_of_forall_mem ne_dot_of_mem_toDigits '.' (by decide),
      List.splitOnP_append_cons_of_forall_mem ne_dot_of_mem_toDigits '.' (by decide),
      List.splitOnP_eq_singleton ne_dot_of_mem_toDigits]
  have hfirst : ip.text.find? (fun c => c == '.' || c == ':' || c == '%') = some '.' := by
    rw [IPv4.text]
    simp only
    rw [List.find?_append, List.find?_eq_none.mpr, Option.none_or]
    · rfl
    · intro c hc
      have hdigit := Nat.isDigit_of_mem_toDigits (by decide) (by decide) hc
      simp only [Bool.or_eq_true, beq_iff_eq, not_or]
      refine ⟨⟨?_, ?_⟩, ?_⟩ <;> rintro rfl <;> exact absurd hdigit (by decide)
  have hfields : parseIPv4 ip.text = some [ip.a, ip.b, ip.c, ip.d] := by
    rw [parseIPv4, hsplit, if_pos (by rfl)]
    simp only [List.mapM_cons, List.mapM_nil, parseOctet_toDigits]
    rfl
  rw [parseIP, hfirst]
  simp only [hfields, Option.map_some, Option.bind_some]
  rfl

/-- **A time of any other year is not written.** -/
theorem formatTime_eq_none_iff {t : Time} : formatTime t = none ↔ ¬FourDigitYear t := by
  rw [formatTime, FourDigitYear]
  split
  · rename_i hneg
    simp only [not_le.mpr hneg, false_and, not_false_eq_true]
  · rename_i hpos
    simp only [Calendar.dateOf_year_lt_iff, not_lt.mp hpos, true_and]
    split
    · rename_i hyear
      simp only [reduceCtorEq, hyear, not_true_eq_false]
    · rename_i hyear
      simp only [hyear, not_false_eq_true]

/-- **A whole second in the years 0 to 9999 is written and read back.** -/
theorem exists_formatTime {seconds : ℕ} (h : seconds / 86400 < (Calendar.yearLengths 10000).sum) :
    ∃ text, formatTime ((seconds * second : ℕ) : ℤ) = some text ∧ Plain text ∧
      text.length = 20 ∧ parseRFC3339 text = some ((seconds * second : ℕ) : ℤ) := by
  have hyear := Calendar.dateOf_year_lt h
  have hparse := parseRFC3339_text (Calendar.dateOf_valid h) hyear
    (Nat.mod_lt seconds (show 0 < 86400 by decide))
  rw [Calendar.dayNumber_dateOf h, Nat.div_add_mod' seconds 86400] at hparse
  refine ⟨_, ?_, ?_, ?_, hparse⟩
  · have hdiv : seconds * second / second = seconds := Nat.mul_div_cancel _ (by decide)
    have hmod : seconds * second % second = 0 := Nat.mul_mod_left _ _
    rw [formatTime, if_neg (not_lt.mpr (Int.natCast_nonneg _))]
    simp only [Int.toNat_natCast, hdiv, hmod, hyear, ↓reduceIte]
    rfl
  · exact (plain_digits _ _).append <| .cons (by decide) <| (plain_digits _ _).append <|
      .cons (by decide) <| (plain_digits _ _).append <| .cons (by decide) <|
      (plain_digits _ _).append <| .cons (by decide) <| (plain_digits _ _).append <|
      .cons (by decide) <| (plain_digits _ _).append <| .cons (by decide) nofun
  · simp only [List.length_append, List.length_cons, length_digits, List.length_nil]

/-! ### Reading the record back -/

/-- A plain text ends at its quote. -/
theorem scanString_plain {s : List Char} (hs : Plain s) (rest : List Char) :
    scanString (s ++ '"' :: rest) = some (s, rest) := by
  induction s with
  | nil => rfl
  | cons c s ih =>
    obtain ⟨hlo, -, hquote, hslash⟩ := hs c (by simp)
    have hskip : (decide (c.toNat < 32) || c == '\\') = false := by
      simp only [Bool.or_eq_false_iff, decide_eq_false_iff_not, beq_eq_false_iff_ne]
      exact ⟨by omega, hslash⟩
    rw [List.cons_append, scanString.eq_5 _ _ hquote (fun _ _ _ _ _ h => absurd h hslash)
      (fun _ _ h => absurd h hslash), hskip, ih fun d hd => hs d (by simp [hd])]
    rfl

/-- A plain text is its own raw text. -/
theorem unquote_plain {s : List Char} (hs : Plain s) : unquote s = s := by
  induction s with
  | nil => rfl
  | cons c s ih =>
    obtain ⟨-, -, -, hslash⟩ := hs c (by simp)
    rw [unquote.eq_3 _ _ (fun _ _ _ _ _ h => absurd h hslash) (fun _ _ h => absurd h hslash),
      ih fun d hd => hs d (by simp [hd])]

/-- A quote is no white space. -/
@[simp] theorem skipSpace_quote (s rest : List Char) :
    skipSpace (quote s ++ rest) = quote s ++ rest := rfl

/-- The value of a plain field. -/
theorem readValue_quote {s : List Char} (hs : Plain s) (rest : List Char) :
    readValue (quote s ++ rest) = some (some s, rest) := by
  have hscan := scanString_plain hs rest
  simp only [quote, List.cons_append, List.append_assoc, List.nil_append, readValue, hscan,
    Option.map_some]

section ReadMembers

variable {parseTime : ParseTime} {n : ℕ} {h h' : Health} {key value : List Char}

/-- **One member**, up to what follows its value. -/
theorem readMembers_member (hkey : Plain key) (hvalue : Plain value)
    (hset : setField parseTime h key (some value) = some h') (rest : List Char) :
    readMembers parseTime (n + 1) h (quote key ++ ':' :: (quote value ++ rest)) =
      match skipSpace rest with
      | ',' :: rest => readMembers parseTime n h' rest
      | '}' :: rest => some (h', rest)
      | _ => none := by
  have hscan : scanString (key ++ '"' :: (':' :: (quote value ++ rest))) =
      some (key, ':' :: (quote value ++ rest)) := scanString_plain hkey _
  have hquote : quote key ++ ':' :: (quote value ++ rest) =
      '"' :: (key ++ '"' :: (':' :: (quote value ++ rest))) := by
    simp only [quote, List.cons_append, List.append_assoc, List.nil_append]
  have hcolon : ∀ tail : List Char, skipSpace (':' :: tail) = ':' :: tail := fun _ => rfl
  have hquote' : ∀ tail : List Char, skipSpace ('"' :: tail) = '"' :: tail := fun _ => rfl
  rw [hquote, readMembers, hquote']
  simp only [hscan, Option.bind_some, hcolon, skipSpace_quote, readValue_quote hvalue,
    unquote_plain hkey, hset]

/-- A member before another one. -/
theorem readMembers_comma (hkey : Plain key) (hvalue : Plain value)
    (hset : setField parseTime h key (some value) = some h') (rest : List Char) :
    readMembers parseTime (n + 1) h (quote key ++ ':' :: (quote value ++ ',' :: rest)) =
      readMembers parseTime n h' rest := by
  rw [readMembers_member hkey hvalue hset]
  rfl

/-- The last member. -/
theorem readMembers_brace (hkey : Plain key) (hvalue : Plain value)
    (hset : setField parseTime h key (some value) = some h') (rest : List Char) :
    readMembers parseTime (n + 1) h (quote key ++ ':' :: (quote value ++ '}' :: rest)) =
      some (h', rest) := by
  rw [readMembers_member hkey hvalue hset]
  rfl

end ReadMembers

/-- ASCII survives the way through bytes. -/
theorem textOf_map {s : List Char} (hs : ∀ c ∈ s, c.toNat < 128) :
    textOf (s.map fun c => UInt8.ofNat c.toNat) = s := by
  rw [textOf, List.map_map]
  refine (List.map_congr_left fun c hc => ?_).trans (List.map_id s)
  have hlt := hs c hc
  have htoNat : (UInt8.ofNat c.toNat).toNat = c.toNat := by
    rw [UInt8.toNat_ofNat']
    omega
  simp only [Function.comp_apply, htoNat, hlt, ↓reduceIte, Char.ofNat_toNat, id_eq]

/-- The text of an address is short. -/
theorem IPv4.length_text_le (ip : IPv4) : ip.text.length ≤ 15 := by
  have hoctet : ∀ x : UInt8, (Nat.toDigits 10 x.toNat).length ≤ 3 := by
    intro x
    have hall : ∀ n : Fin 256, (Nat.toDigits 10 n.val).length ≤ 3 := by decide +kernel
    exact hall ⟨x.toNat, x.toNat_lt⟩
  have ha := hoctet ip.a
  have hb := hoctet ip.b
  have hc := hoctet ip.c
  have hd := hoctet ip.d
  simp only [IPv4.text, List.length_append, List.length_cons]
  omega

/-- A quoted plain text is ASCII. -/
theorem ascii_quote {s : List Char} (hs : Plain s) : ∀ c ∈ quote s, c.toNat < 128 := by
  intro c hc
  rcases List.mem_cons.mp hc with rfl | hc
  · decide
  · rcases List.mem_append.mp hc with hc | hc
    · exact (hs c hc).2.1
    · rw [List.mem_singleton.mp hc]
      decide

/-- **A record is written unless the year of its expiry has more digits.** -/
theorem marshalHealth_eq_none_iff {h : Health} :
    marshalHealth h = none ↔ ¬FourDigitYear h.notAfter := by
  rw [marshalHealth, healthText, Option.map_eq_none_iff, Option.map_eq_none_iff,
    formatTime_eq_none_iff]

/-- **What is written is read back**: the health record of an address, of an expiry in whole
seconds of the years 0 to 9999, and of a fingerprint; and its file is small. -/
theorem decodeHealth_marshalHealth (parseTime : ParseTime) (ip : IPv4) {seconds : ℕ}
    (hseconds : seconds / 86400 < (Calendar.yearLengths 10000).sum) (d : Digest) :
    ∃ content, marshalHealth ⟨ip.text, ((seconds * second : ℕ) : ℤ), d.hex⟩ = some content ∧
      content ≠ [] ∧ content.length ≤ 4096 ∧
      decodeHealth parseTime content = some ⟨ip.text, ((seconds * second : ℕ) : ℤ), d.hex⟩ := by
  obtain ⟨time, hformat, hplain, hlength, hparse⟩ := exists_formatTime hseconds
  have hkeys : Plain "ip".toList ∧ Plain "not_after".toList ∧ Plain "fingerprint".toList := by
    refine ⟨?_, ?_, ?_⟩ <;> exact List.forall_iff_forall_mem.mp (by decide +kernel)
  -- the text of the file, and that it is ASCII
  obtain ⟨text, htext⟩ : ∃ text, text = quote "ip".toList ++ ':' :: (quote ip.text ++ ',' ::
      (quote "not_after".toList ++ ':' :: (quote time ++ ',' :: (quote "fingerprint".toList ++
      ':' :: (quote d.hex ++ '}' :: ['\n']))))) := ⟨_, rfl⟩
  have hascii : ∀ c ∈ '{' :: text, c.toNat < 128 := by
    rw [htext]
    simp only [List.forall_mem_cons, List.forall_mem_append]
    exact ⟨by decide, ascii_quote hkeys.1, by decide, ascii_quote ip.plain_text, by decide,
      ascii_quote hkeys.2.1, by decide, ascii_quote hplain, by decide, ascii_quote hkeys.2.2,
      by decide, ascii_quote d.plain_hex, by decide, by decide, nofun⟩
  have hlength_text : text.length ≤ 4000 := by
    have hip := ip.length_text_le
    have hhex := d.length_hex
    have hname : "ip".toList.length = 2 ∧ "not_after".toList.length = 9 ∧
        "fingerprint".toList.length = 11 := by
      decide +kernel
    rw [htext]
    simp only [quote, List.length_append, List.length_cons, List.length_nil, hname, hlength, hhex]
    omega
  refine ⟨('{' :: text).map fun c => UInt8.ofNat c.toNat, ?_, by simp, ?_, ?_⟩
  · rw [marshalHealth, healthText, hformat, htext]
    rfl
  · rw [List.length_map, List.length_cons]
    omega
  · -- the three members, one after the other
    have hmembers : readMembers parseTime ('{' :: text).length ⟨[], zeroTime, []⟩ text =
        some (⟨ip.text, ((seconds * second : ℕ) : ℤ), d.hex⟩, ['\n']) := by
      have hfuel : ∃ n, ('{' :: text).length = n + 3 := by
        refine ⟨text.length - 2, ?_⟩
        have hlong : 2 ≤ text.length := by
          rw [htext]
          simp only [List.length_append, List.length_cons]
          omega
        rw [List.length_cons]
        omega
      obtain ⟨n, hn⟩ := hfuel
      have hip : ∀ h : Health, setField parseTime h "ip".toList (some ip.text) =
          some { h with ip := ip.text } := by
        intro h
        rw [setField, if_pos (by decide +kernel), Option.elim_some, unquote_plain ip.plain_text]
      have htime : ∀ h : Health, setField parseTime h "not_after".toList (some time) =
          some { h with notAfter := ((seconds * second : ℕ) : ℤ) } := by
        intro h
        rw [setField, if_neg (by decide +kernel), if_pos (by decide +kernel)]
        simp only [parseStrictRFC3339, hparse, Option.map_some]
      have hfingerprint : ∀ h : Health, setField parseTime h "fingerprint".toList (some d.hex) =
          some { h with fingerprint := d.hex } := by
        intro h
        rw [setField, if_neg (by decide +kernel), if_neg (by decide +kernel),
          if_pos (by decide +kernel), Option.elim_some, unquote_plain d.plain_hex]
      rw [hn, htext, readMembers_comma hkeys.1 ip.plain_text (hip _),
        readMembers_comma hkeys.2.1 hplain (htime _),
        readMembers_brace hkeys.2.2 d.plain_hex (hfingerprint _)]
    have hbrace : skipSpace ('{' :: text) = '{' :: text := rfl
    have hopen : skipSpace text = text := by
      rw [htext]
      rfl
    have hfirst : ∃ tail, text = '"' :: tail := by
      rw [htext]
      exact ⟨_, rfl⟩
    obtain ⟨tail, htail⟩ := hfirst
    rw [decodeHealth, textOf_map hascii, decode, hbrace]
    simp only
    rw [hopen]
    rw [htail] at hmembers ⊢
    rw [hmembers]
    rfl

end Certsync

end EzOpenPN
