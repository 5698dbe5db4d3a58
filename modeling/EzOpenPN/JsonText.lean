import EzOpenPN.Json

/-!
# JSON texts

What `json.dumps` writes of a value without fractions, and a reader of the JSON grammar. What was
written is read back (`EzOpenPN.JsonText.readText_dumps`), whatever white space the layout has, as long
as the texts of the value are texts of Unicode and no dictionary has a key twice.

The reader knows no fractions and no exponents, and refuses them. `json.loads` reads more than it,
and `EzOpenPN.JsonText.Reads` is what is relied on: that it reads what the grammar has, in values of a
bounded depth and with integers of a bounded size, which are the limits of the interpreter.
-/

namespace EzOpenPN

/-- **A JSON value without fractions.** -/
inductive PlainJson where
  | null
  | bool (b : Bool)
  | int (n : ℤ)
  | str (s : PyStr)
  | list (values : List PlainJson)
  | dict (fields : List (PyStr × PlainJson))

namespace PlainJson

mutual

/-- The value as one that `json.loads` returns. -/
def toJson : PlainJson → Json
  | .null => .null
  | .bool b => .bool b
  | .int n => .int n
  | .str s => .str s
  | .list values => .list (toJsonValues values)
  | .dict fields => .dict (toJsonFields fields)

def toJsonValues : List PlainJson → List Json
  | [] => []
  | v :: values => v.toJson :: toJsonValues values

def toJsonFields : List (PyStr × PlainJson) → List (PyStr × Json)
  | [] => []
  | (key, v) :: fields => (key, v.toJson) :: toJsonFields fields

end

/-- A text of Unicode: every code point is a scalar value. -/
def isText (s : PyStr) : Bool := s.all fun c => decide c.isValidChar

mutual

/-- **The texts of the value are texts of Unicode, and no dictionary has a key twice.** -/
def proper : PlainJson → Bool
  | .str s => isText s
  | .list values => properValues values
  | .dict fields => properFields fields
  | _ => true

def properValues : List PlainJson → Bool
  | [] => true
  | v :: values => v.proper && properValues values

def properFields : List (PyStr × PlainJson) → Bool
  | [] => true
  | (key, v) :: fields =>
    isText key && (!fields.any fun field => field.1 == key) && v.proper && properFields fields

end

mutual

/-- The value is nested at most so deep, and its integers have at most 64 bits. -/
def small : ℕ → PlainJson → Bool
  | _, .int n => n.natAbs < 2 ^ 64
  | depth + 1, .list values => smallValues depth values
  | depth + 1, .dict fields => smallFields depth fields
  | 0, .list _ => false
  | 0, .dict _ => false
  | _, _ => true

def smallValues : ℕ → List PlainJson → Bool
  | _, [] => true
  | depth, v :: values => v.small depth && smallValues depth values

def smallFields : ℕ → List (PyStr × PlainJson) → Bool
  | _, [] => true
  | depth, (_, v) :: fields => v.small depth && smallFields depth fields

end

end PlainJson

/-! ### Comparing -/

namespace Json

/-- The number that a value is; a truth value is one, too. -/
def number? : Json → Option ℚ
  | .bool b => some (if b then 1 else 0)
  | .int n => some n
  | .float value => value
  | _ => none

mutual

/-- **`a == b`**: numbers by their values, and dictionaries in any order. -/
def pyEq : Json → Json → Bool
  | .null, b => match b with | .null => true | _ => false
  | .str s, b => match b with | .str t => s == t | _ => false
  | .list values, b => match b with | .list values' => pyEqValues values values' | _ => false
  | .dict fields, b =>
    match b with
    | .dict fields' => fields.length == fields'.length && pyEqFields fields fields'
    | _ => false
  | a, b =>
    match a.number?, b.number? with
    | some x, some y => x == y
    | _, _ => false

def pyEqValues : List Json → List Json → Bool
  | [], [] => true
  | a :: values, b :: values' => a.pyEq b && pyEqValues values values'
  | _, _ => false

def pyEqFields : List (PyStr × Json) → List (PyStr × Json) → Bool
  | [], _ => true
  | (key, a) :: fields, fields' =>
    (fields'.any fun field => field.1 == key && a.pyEq field.2) && pyEqFields fields fields'

end

end Json

namespace PlainJson

/-- `a <= b` of texts. -/
def textLe : PyStr → PyStr → Bool
  | [], _ => true
  | _ :: _, [] => false
  | c :: s, d :: t => decide (c < d) || (decide (c = d) && textLe s t)

/-- A field among fields with sorted keys. -/
def insertField (field : PyStr × PlainJson) : List (PyStr × PlainJson) → List (PyStr × PlainJson)
  | [] => [field]
  | f :: fields => if textLe field.1 f.1 then field :: f :: fields else f :: insertField field fields

mutual

/-- `sort_keys=True`. -/
def sorted : PlainJson → PlainJson
  | .list values => .list (sortedValues values)
  | .dict fields => .dict (sortedFields fields)
  | v => v

def sortedValues : List PlainJson → List PlainJson
  | [] => []
  | v :: values => v.sorted :: sortedValues values

def sortedFields : List (PyStr × PlainJson) → List (PyStr × PlainJson)
  | [] => []
  | (key, v) :: fields => insertField (key, v.sorted) (sortedFields fields)

end

end PlainJson

namespace JsonText

/-! ### Writing -/

/-- The characters that JSON skips between two tokens. -/
def isSpace (c : Char) : Bool := c = ' ' || c = '\t' || c = '\n' || c = '\r'

/-- **The layout of a text**: what stands before each item of a level and before its closing bracket,
and what stands after a colon. -/
structure Layout where
  newline : ℕ → List Char
  space : List Char
  newline_white : ∀ level, (newline level).all isSpace = true
  space_white : space.all isSpace = true

/-- `separators=(",", ":")`. -/
def Layout.compact : Layout where
  newline _ := []
  space := []
  newline_white _ := rfl
  space_white := rfl

/-- An integer. -/
def dumpsInt (n : ℤ) : List Char :=
  if n < 0 then '-' :: Nat.toDigits 10 n.natAbs else Nat.toDigits 10 n.natAbs

section Dumps

variable (layout : Layout)

mutual

/-- **`json.dumps`**, with `ensure_ascii`, for a value at a level. -/
def dumpsAt (level : ℕ) : PlainJson → List Char
  | .null => ['n', 'u', 'l', 'l']
  | .bool true => ['t', 'r', 'u', 'e']
  | .bool false => ['f', 'a', 'l', 's', 'e']
  | .int n => dumpsInt n
  | .str s => dumpsStr s
  | .list [] => ['[', ']']
  | .list (v :: values) =>
    '[' :: (layout.newline (level + 1) ++ (dumpsAt (level + 1) v ++
      (dumpsValues (level + 1) values ++ (layout.newline level ++ [']']))))
  | .dict [] => ['{', '}']
  | .dict ((key, v) :: fields) =>
    '{' :: (layout.newline (level + 1) ++ (dumpsStr key ++ (':' :: (layout.space ++
      (dumpsAt (level + 1) v ++ (dumpsFields (level + 1) fields ++
        (layout.newline level ++ ['}'])))))))

def dumpsValues (level : ℕ) : List PlainJson → List Char
  | [] => []
  | v :: values => ',' :: (layout.newline level ++ (dumpsAt level v ++ dumpsValues level values))

def dumpsFields (level : ℕ) : List (PyStr × PlainJson) → List Char
  | [] => []
  | (key, v) :: fields =>
    ',' :: (layout.newline level ++ (dumpsStr key ++ (':' :: (layout.space ++
      (dumpsAt level v ++ dumpsFields level fields)))))

end

/-- **A JSON text.** -/
def dumps (v : PlainJson) : List Char := dumpsAt layout 0 v

end Dumps

/-! ### Reading -/

/-- What comes after the white space. -/
def skipSpace (text : List Char) : List Char := text.dropWhile isSpace

/-- The value of a hexadecimal digit. -/
def hexValue (c : Char) : Option ℕ :=
  if '0' ≤ c ∧ c ≤ '9' then some (c.toNat - 48)
  else if 'a' ≤ c ∧ c ≤ 'f' then some (c.toNat - 87)
  else if 'A' ≤ c ∧ c ≤ 'F' then some (c.toNat - 55)
  else none

/-- The code point of an escape of two characters. -/
def simpleEscape (c : Char) : Option ℕ :=
  if c = '"' then some 34
  else if c = '\\' then some 92
  else if c = '/' then some 47
  else if c = 'b' then some 8
  else if c = 'f' then some 12
  else if c = 'n' then some 10
  else if c = 'r' then some 13
  else if c = 't' then some 9
  else none

/-- Go on with the rest of a text, after one code point. -/
def addUnit (n : Option ℕ) (rest : Option (PyStr × List Char)) : Option (PyStr × List Char) := do
  let n ← n
  let (s, text) ← rest
  return (n :: s, text)

/-- The code of `\uXXXX`. -/
def hexUnit (a b c d : Char) : Option ℕ := do
  return (← hexValue a) * 4096 + (← hexValue b) * 256 + (← hexValue c) * 16 + (← hexValue d)

/-- The characters of a string up to its closing quote, surrogates as they are written. -/
def readUnits : List Char → Option (PyStr × List Char)
  | [] => none
  | c :: text =>
    if c = '"' then some ([], text)
    else if c = '\\' then
      match text with
      | [] => none
      | e :: text =>
        if e = 'u' then
          match text with
          | a :: b :: c :: d :: text => addUnit (hexUnit a b c d) (readUnits text)
          | _ => none
        else addUnit (simpleEscape e) (readUnits text)
    else if c.toNat < 32 then none
    else addUnit (some c.toNat) (readUnits text)

/-- A surrogate pair is one code point. -/
def joinSurrogates : PyStr → PyStr
  | [] => []
  | [c] => [c]
  | hi :: lo :: s =>
    if 0xd800 ≤ hi ∧ hi ≤ 0xdbff ∧ 0xdc00 ≤ lo ∧ lo ≤ 0xdfff then
      (0x10000 + (hi - 0xd800) * 0x400 + (lo - 0xdc00)) :: joinSurrogates s
    else hi :: joinSurrogates (lo :: s)

/-- A string, after its opening quote. -/
def readString (text : List Char) : Option (PyStr × List Char) := do
  let (units, text) ← readUnits text
  return (joinSurrogates units, text)

/-- What no integer is followed by: a digit, a fraction or an exponent. -/
def continuesNumber (c : Char) : Bool := c.isDigit || c = '.' || c = 'e' || c = 'E'

/-- A natural number without superfluous zeros. -/
def readNat (text : List Char) : Option (ℕ × List Char) :=
  let digits := text.takeWhile Char.isDigit
  let rest := text.dropWhile Char.isDigit
  if digits = [] ∨ (1 < digits.length ∧ digits.head? = some '0') ∨
      rest.head?.any continuesNumber then none
  else some (Nat.ofDigitChars 10 digits 0, rest)

/-- An integer. -/
def readInt (text : List Char) : Option (ℤ × List Char) :=
  if text.head? = some '-' then (readNat text.tail).map fun (n, rest) => (-(n : ℤ), rest)
  else (readNat text).map fun (n, rest) => ((n : ℤ), rest)

/-- `value[key] = v`: the last value of a key counts, at its first place. -/
def setField (fields : List (PyStr × PlainJson)) (field : PyStr × PlainJson) :
    List (PyStr × PlainJson) :=
  if fields.any fun f => f.1 == field.1 then
    fields.map fun f => if f.1 = field.1 then field else f
  else fields ++ [field]

section Read

variable (read : List Char → Option (PlainJson × List Char))

/-- The rest of a list, after a value. -/
def readValues : ℕ → List Char → Option (List PlainJson × List Char)
  | 0, _ => none
  | n + 1, text =>
    match skipSpace text with
    | [] => none
    | c :: text =>
      if c = ']' then some ([], text)
      else if c = ',' then do
        let (v, text) ← read (skipSpace text)
        let (values, text) ← readValues n text
        return (v :: values, text)
      else none

/-- A key and its value. -/
def readField : List Char → Option ((PyStr × PlainJson) × List Char)
  | [] => none
  | c :: text =>
    if c = '"' then do
      let (key, text) ← readString text
      let text := skipSpace text
      if text.head? = some ':' then do
        let (v, text) ← read (skipSpace text.tail)
        return ((key, v), text)
      else none
    else none

/-- The rest of a dictionary, after a field. -/
def readFields : ℕ → List Char → Option (List (PyStr × PlainJson) × List Char)
  | 0, _ => none
  | n + 1, text =>
    match skipSpace text with
    | [] => none
    | c :: text =>
      if c = '}' then some ([], text)
      else if c = ',' then do
        let (field, text) ← readField read (skipSpace text)
        let (fields, text) ← readFields n text
        return (field :: fields, text)
      else none

end Read

/-- The rest of a word that stands for a value. -/
def readWord (word : List Char) (v : PlainJson) (text : List Char) : Option (PlainJson × List Char) :=
  if word <+: text then some (v, text.drop word.length) else none

/-- **A value**, nested at most so deep, and what comes after it. -/
def readValue : ℕ → List Char → Option (PlainJson × List Char)
  | 0, _ => none
  | _ + 1, [] => none
  | n + 1, c :: text =>
    if c = 'n' then readWord ['u', 'l', 'l'] .null text
    else if c = 't' then readWord ['r', 'u', 'e'] (.bool true) text
    else if c = 'f' then readWord ['a', 'l', 's', 'e'] (.bool false) text
    else if c = '"' then (readString text).map fun (s, rest) => (.str s, rest)
    else if c = '[' then
      let text := skipSpace text
      if text.head? = some ']' then some (.list [], text.tail)
      else do
        let (v, text) ← readValue n text
        let (values, text) ← readValues (readValue n) n text
        return (.list (v :: values), text)
    else if c = '{' then
      let text := skipSpace text
      if text.head? = some '}' then some (.dict [], text.tail)
      else do
        let (field, text) ← readField (readValue n) text
        let (fields, text) ← readFields (readValue n) n text
        return (.dict ((field :: fields).foldl setField []), text)
    else (readInt (c :: text)).map fun (n, rest) => (.int n, rest)

/-- **The reader of JSON texts.** -/
def readText (text : List Char) : Option PlainJson := do
  let (v, rest) ← readValue (text.length + 1) (skipSpace text)
  if skipSpace rest = [] then some v else none

/-- What is relied on of `json.loads`: it reads JSON, at least in values that are nested no deeper
than a hundred and have integers of at most 64 bits. -/
def Reads (loads : Loads) : Prop :=
  ∀ text v, readText text = some v → v.small 100 = true →
    loads (utf8Bytes (String.ofList text)) = .ok v.toJson

/-! ### Strings are read back -/

section Strings

variable {c n : ℕ} {s : PyStr} {text : List Char}

theorem hexValue_digitChar : ∀ n < 16, hexValue (Nat.digitChar n) = some n := by decide

theorem readUnits_unicodeEscape (hn : n < 0x10000) :
    readUnits (unicodeEscape n ++ text) = addUnit (some n) (readUnits text) := by
  have hmod : ∀ m, hexValue (Nat.digitChar (m % 16)) = some (m % 16) := fun m =>
    hexValue_digitChar _ (Nat.mod_lt _ (by decide))
  have hsum : n / 4096 % 16 * 4096 + n / 256 % 16 * 256 + n / 16 % 16 * 16 + n % 16 = n := by omega
  simp [unicodeEscape, readUnits, hexUnit, hmod, hsum]

/-- The code units of one code point: a surrogate pair beyond the first plane. -/
def units (c : ℕ) : PyStr :=
  if c < 0x10000 then [c] else [0xd800 + (c - 0x10000) / 0x400, 0xdc00 + (c - 0x10000) % 0x400]

theorem readUnits_simple {e : Char} (he : e ≠ 'u') :
    readUnits ('\\' :: e :: text) = addUnit (simpleEscape e) (readUnits text) := by
  rw [readUnits.eq_def]
  simp [he]

theorem readUnits_plain {c : Char} (hquote : c ≠ '"') (hescape : c ≠ '\\') (hc : 32 ≤ c.toNat) :
    readUnits (c :: text) = addUnit (some c.toNat) (readUnits text) := by
  rw [readUnits.eq_def]
  simp [hquote, hescape, Nat.not_lt.mpr hc]

theorem addUnit_some (p : Option (PyStr × List Char)) :
    addUnit (some n) p = p.map fun p => (n :: p.1, p.2) := by
  cases p <;> rfl

theorem readUnits_escapeChar (hc : c.isValidChar) : readUnits (escapeChar c ++ text) =
    (readUnits text).map fun p => (units c ++ p.1, p.2) := by
  rw [escapeChar]
  split_ifs with h₁ h₂ h₃ h₄ h₅ h₆ h₇ h₈ h₉
  · subst h₁
    exact (readUnits_simple (by decide)).trans (addUnit_some _)
  · subst h₂
    exact (readUnits_simple (by decide)).trans (addUnit_some _)
  · subst h₃
    exact (readUnits_simple (by decide)).trans (addUnit_some _)
  · subst h₄
    exact (readUnits_simple (by decide)).trans (addUnit_some _)
  · subst h₅
    exact (readUnits_simple (by decide)).trans (addUnit_some _)
  · subst h₆
    exact (readUnits_simple (by decide)).trans (addUnit_some _)
  · subst h₇
    exact (readUnits_simple (by decide)).trans (addUnit_some _)
  · have hchar : (Char.ofNat c).toNat = c := by rw [Char.toNat_ofNat, if_pos hc]
    have hne : ∀ d : Char, c ≠ d.toNat → Char.ofNat c ≠ d := by
      rintro d hd rfl
      exact hd hchar.symm
    rw [List.singleton_append, readUnits_plain (hne '"' h₁) (hne '\\' h₂) (by rw [hchar]; exact h₈.1), hchar,
      addUnit_some, units, if_pos (by omega)]
    rfl
  · rw [readUnits_unicodeEscape h₉, addUnit_some, units, if_pos h₉]
    rfl
  · have hlt : c < 0x110000 := by
      rcases hc with hc | hc
      · omega
      · exact hc.2
    rw [List.append_assoc, readUnits_unicodeEscape (by omega), readUnits_unicodeEscape (by omega),
      addUnit_some, addUnit_some, Option.map_map, units, if_neg h₉]
    rfl

theorem joinSurrogates_cons (hc : ¬(0xd800 ≤ c ∧ c ≤ 0xdbff)) (s : PyStr) :
    joinSurrogates (c :: s) = c :: joinSurrogates s := by
  cases s with
  | nil => rfl
  | cons lo s =>
    rw [joinSurrogates, if_neg]
    exact fun h => hc ⟨h.1, h.2.1⟩

theorem joinSurrogates_units (hs : PlainJson.isText s = true) :
    joinSurrogates (s.flatMap units) = s := by
  induction s with
  | nil => rfl
  | cons c s ih =>
    rw [PlainJson.isText, List.all_cons, Bool.and_eq_true, decide_eq_true_eq] at hs
    rw [List.flatMap_cons, units]
    split_ifs with hlt
    · have hc : ¬(0xd800 ≤ c ∧ c ≤ 0xdbff) := by
        rcases hs.1 with h | h <;> omega
      rw [List.singleton_append, joinSurrogates_cons hc, ih hs.2]
    · have hc : c < 0x110000 := by
        rcases hs.1 with h | h
        · omega
        · exact h.2
      have hsum : 0x10000 + (0xd800 + (c - 0x10000) / 0x400 - 0xd800) * 0x400 +
          (0xdc00 + (c - 0x10000) % 0x400 - 0xdc00) = c := by omega
      rw [List.cons_append, List.singleton_append, joinSurrogates, if_pos (by omega), ih hs.2, hsum]

/-- **A string is read back.** -/
theorem readString_dumpsStr (hs : PlainJson.isText s = true) :
    readString (s.flatMap escapeChar ++ '"' :: text) = some (s, text) := by
  have hunits : readUnits (s.flatMap escapeChar ++ '"' :: text) = some (s.flatMap units, text) := by
    have hall : ∀ c ∈ s, c.isValidChar := fun c hc => of_decide_eq_true (List.all_eq_true.mp hs c hc)
    clear hs
    induction s with
    | nil =>
      rw [List.flatMap_nil, List.nil_append, readUnits.eq_def]
      rfl
    | cons c s ih =>
      rw [List.flatMap_cons, List.append_assoc, readUnits_escapeChar (hall c (by simp)),
        ih fun c hc => hall c (List.mem_cons_of_mem _ hc)]
      rfl
  rw [readString, hunits]
  change some (joinSurrogates (s.flatMap units), text) = some (s, text)
  rw [joinSurrogates_units hs]

end Strings

/-! ### Integers are read back -/

section Integers

variable {n : ℕ} {text : List Char}

/-- What comes after an integer does not go on with it. -/
def Ends (text : List Char) : Prop := text.head?.any continuesNumber = false

theorem head_toDigits (hn : 0 < n) : (Nat.toDigits 10 n).head? ≠ some '0' := by
  induction n using Nat.strong_induction_on with
  | _ n ih =>
    rcases Nat.lt_or_ge n 10 with hlt | hge
    · rw [Nat.toDigits_of_lt_base hlt]
      have hdigit : ∀ m < 10, 0 < m → [Nat.digitChar m].head? ≠ some '0' := by decide
      exact hdigit n hlt hn
    · rw [Nat.toDigits_of_base_le (by decide) hge, List.head?_append_of_ne_nil _ Nat.toDigits_ne_nil]
      exact ih (n / 10) (Nat.div_lt_self hn (by decide)) (Nat.div_pos hge (by decide))

theorem readNat_toDigits (htext : Ends text) :
    readNat (Nat.toDigits 10 n ++ text) = some (n, text) := by
  have hdigits : ∀ c ∈ Nat.toDigits 10 n, c.isDigit = true := fun c hc =>
    Nat.isDigit_of_mem_toDigits (by decide) (by decide) hc
  have hstop : ∀ c ∈ text.head?, ¬c.isDigit = true := by
    intro c hc hdigit
    rw [Ends, hc] at htext
    simp [continuesNumber, hdigit] at htext
  have htake : (Nat.toDigits 10 n ++ text).takeWhile Char.isDigit = Nat.toDigits 10 n := by
    rw [List.takeWhile_append_of_pos hdigits]
    cases text with
    | nil => simp
    | cons c text => rw [List.takeWhile_cons_of_neg (hstop c rfl), List.append_nil]
  have hdrop : (Nat.toDigits 10 n ++ text).dropWhile Char.isDigit = text := by
    rw [List.dropWhile_append_of_pos hdigits]
    cases text with
    | nil => rfl
    | cons c text => rw [List.dropWhile_cons_of_neg (hstop c rfl)]
  rw [readNat, htake, hdrop, if_neg, Nat.ofDigitChars_toDigits (by decide) (by decide)]
  rintro (hnil | ⟨hlength, hzero⟩ | hends)
  · exact Nat.toDigits_ne_nil hnil
  · rcases Nat.eq_zero_or_pos n with rfl | hpos
    · simp at hlength
    · exact head_toDigits hpos hzero
  · rw [Ends] at htext
    rw [htext] at hends
    cases hends

/-- **An integer is read back.** -/
theorem readInt_dumpsInt {k : ℤ} (htext : Ends text) :
    readInt (dumpsInt k ++ text) = some (k, text) := by
  rw [dumpsInt]
  split_ifs with hk
  · have hvalue : -(k.natAbs : ℤ) = k := by omega
    simp only [readInt, List.cons_append, List.head?_cons, ↓reduceIte, List.tail_cons,
      readNat_toDigits htext, Option.map_some, hvalue]
  · have hhead : (Nat.toDigits 10 k.natAbs ++ text).head? ≠ some '-' := by
      rw [List.head?_append_of_ne_nil _ Nat.toDigits_ne_nil]
      intro h
      have hdigit := Nat.isDigit_of_mem_toDigits (by decide) (by decide) (List.mem_of_mem_head? h)
      exact absurd hdigit (by decide)
    have hvalue : (k.natAbs : ℤ) = k := by omega
    simp only [readInt, if_neg hhead, readNat_toDigits htext, Option.map_some, hvalue]

end Integers

/-! ### Values are read back -/

section Values

variable {layout : Layout} {level n : ℕ} {text white : List Char}

theorem skipSpace_append (hwhite : white.all isSpace = true) :
    skipSpace (white ++ text) = skipSpace text :=
  List.dropWhile_append_of_pos (List.all_eq_true.mp hwhite)

theorem skipSpace_cons {c : Char} (hc : isSpace c = false) : skipSpace (c :: text) = c :: text :=
  List.dropWhile_cons_of_neg (by simp [hc])

theorem ends_cons {c : Char} (hc : continuesNumber c = false) : Ends (c :: text) := by
  simp [Ends, hc]

/-- White space ends an integer. -/
theorem Ends.append (hwhite : white.all isSpace = true) (htext : Ends text) :
    Ends (white ++ text) := by
  cases white with
  | nil => exact htext
  | cons c white =>
    rw [List.all_cons, Bool.and_eq_true] at hwhite
    have hc : isSpace c = true := hwhite.1
    simp only [isSpace, Bool.or_eq_true, decide_eq_true_eq] at hc
    rcases hc with ((rfl | rfl) | rfl) | rfl <;> exact ends_cons (by decide)

theorem ends_dumpsValues (values : List PlainJson) (htext : Ends text) :
    Ends (dumpsValues layout level values ++ text) := by
  cases values with
  | nil => exact htext
  | cons v values => exact ends_cons (by decide)

theorem ends_dumpsFields (fields : List (PyStr × PlainJson)) (htext : Ends text) :
    Ends (dumpsFields layout level fields ++ text) := by
  cases fields with
  | nil => exact htext
  | cons field fields => exact ends_cons (by decide)

/-- The first character of a value is no white space and no closing bracket, and tells what the value
is. -/
theorem dumpsAt_eq_cons (v : PlainJson) : ∃ c rest, dumpsAt layout level v = c :: rest ∧
    isSpace c = false ∧ c ≠ ']' := by
  cases v with
  | null => exact ⟨'n', _, rfl, by decide, by decide⟩
  | bool b => cases b <;> exact ⟨_, _, rfl, by decide, by decide⟩
  | str s => exact ⟨'"', _, rfl, by decide, by decide⟩
  | list values => cases values <;> exact ⟨'[', _, rfl, by decide, by decide⟩
  | dict fields => cases fields <;> exact ⟨'{', _, rfl, by decide, by decide⟩
  | int k =>
    rw [dumpsAt, dumpsInt]
    split_ifs
    · exact ⟨'-', _, rfl, by decide, by decide⟩
    · obtain ⟨c, rest, heq⟩ := List.exists_cons_of_ne_nil
        (Nat.toDigits_ne_nil : Nat.toDigits 10 k.natAbs ≠ [])
      have hdigit : c.isDigit = true :=
        Nat.isDigit_of_mem_toDigits (by decide) (by decide) (heq ▸ List.mem_cons_self)
      refine ⟨c, rest, heq, ?_, ?_⟩
      · simp only [isSpace, Bool.or_eq_false_iff, decide_eq_false_iff_not]
        refine ⟨⟨⟨?_, ?_⟩, ?_⟩, ?_⟩ <;> rintro rfl <;> exact absurd hdigit (by decide)
      · rintro rfl
        exact absurd hdigit (by decide)

/-- The values after the first one of a list are read back. -/
theorem readValues_dumpsValues {read : List Char → Option (PlainJson × List Char)}
    {values : List PlainJson}
    (hread : ∀ v ∈ values, ∀ text, Ends text → read (dumpsAt layout level v ++ text) = some (v, text))
    (hwhite : white.all isSpace = true) (hn : values.length < n) :
    readValues read n (dumpsValues layout level values ++ (white ++ ']' :: text)) =
      some (values, text) := by
  induction values generalizing n with
  | nil =>
    obtain ⟨n, rfl⟩ := Nat.exists_eq_succ_of_ne_zero (Nat.pos_iff_ne_zero.mp hn)
    have hskip : skipSpace (white ++ ']' :: text) = ']' :: text := by
      rw [skipSpace_append hwhite, skipSpace_cons (by decide)]
    rw [dumpsValues, List.nil_append, readValues, hskip]
    exact if_pos rfl
  | cons v values ih =>
    obtain ⟨n, rfl⟩ := Nat.exists_eq_succ_of_ne_zero (Nat.ne_zero_of_lt hn)
    obtain ⟨c, rest, hv, hc, -⟩ := @dumpsAt_eq_cons layout level v
    have hends : Ends (dumpsValues layout level values ++ (white ++ ']' :: text)) :=
      ends_dumpsValues values (.append hwhite (ends_cons (by decide)))
    have hskip : skipSpace (layout.newline level ++ (dumpsAt layout level v ++
        (dumpsValues layout level values ++ (white ++ ']' :: text)))) = dumpsAt layout level v ++
        (dumpsValues layout level values ++ (white ++ ']' :: text)) := by
      rw [skipSpace_append (layout.newline_white level), hv, List.cons_append, skipSpace_cons hc]
    rw [dumpsValues, List.cons_append, List.append_assoc, List.append_assoc, readValues,
      skipSpace_cons (by decide)]
    dsimp only
    rw [if_neg (by decide), if_pos rfl, hskip, hread v List.mem_cons_self _ hends,
      Option.bind_eq_bind, Option.bind_some,
      ih (fun v' hv' => hread v' (List.mem_cons_of_mem _ hv')) (Nat.lt_of_succ_lt_succ hn)]
    rfl

/-- A field is read back. -/
theorem readField_dumps {read : List Char → Option (PlainJson × List Char)} {key : PyStr}
    {v : PlainJson} (hkey : PlainJson.isText key = true)
    (hread : read (dumpsAt layout level v ++ text) = some (v, text)) :
    readField read (dumpsStr key ++ (':' :: (layout.space ++ (dumpsAt layout level v ++ text)))) =
      some ((key, v), text) := by
  obtain ⟨c, rest, hv, hc, -⟩ := @dumpsAt_eq_cons layout level v
  have hskip : skipSpace (layout.space ++ (dumpsAt layout level v ++ text)) =
      dumpsAt layout level v ++ text := by
    rw [skipSpace_append layout.space_white, hv, List.cons_append, skipSpace_cons hc]
  rw [dumpsStr, List.cons_append, List.cons_append, List.append_assoc, List.singleton_append,
    readField, if_pos rfl, readString_dumpsStr hkey, Option.bind_eq_bind, Option.bind_some]
  dsimp only
  rw [skipSpace_cons (by decide), List.head?_cons, if_pos rfl, List.tail_cons, hskip, hread]
  rfl

/-- The fields after the first one of a dictionary are read back. -/
theorem readFields_dumpsFields {read : List Char → Option (PlainJson × List Char)}
    {fields : List (PyStr × PlainJson)} (hkeys : ∀ field ∈ fields, PlainJson.isText field.1 = true)
    (hread : ∀ field ∈ fields, ∀ text, Ends text →
      read (dumpsAt layout level field.2 ++ text) = some (field.2, text))
    (hwhite : white.all isSpace = true) (hn : fields.length < n) :
    readFields read n (dumpsFields layout level fields ++ (white ++ '}' :: text)) =
      some (fields, text) := by
  induction fields generalizing n with
  | nil =>
    obtain ⟨n, rfl⟩ := Nat.exists_eq_succ_of_ne_zero (Nat.pos_iff_ne_zero.mp hn)
    have hskip : skipSpace (white ++ '}' :: text) = '}' :: text := by
      rw [skipSpace_append hwhite, skipSpace_cons (by decide)]
    rw [dumpsFields, List.nil_append, readFields, hskip]
    exact if_pos rfl
  | cons field fields ih =>
    obtain ⟨key, v⟩ := field
    obtain ⟨n, rfl⟩ := Nat.exists_eq_succ_of_ne_zero (Nat.ne_zero_of_lt hn)
    have hends : Ends (dumpsFields layout level fields ++ (white ++ '}' :: text)) :=
      ends_dumpsFields fields (.append hwhite (ends_cons (by decide)))
    have hskip : skipSpace (layout.newline level ++ (dumpsStr key ++ (':' :: (layout.space ++
        (dumpsAt layout level v ++ (dumpsFields layout level fields ++ (white ++ '}' :: text))))))) =
        dumpsStr key ++ (':' :: (layout.space ++ (dumpsAt layout level v ++
          (dumpsFields layout level fields ++ (white ++ '}' :: text))))) := by
      rw [skipSpace_append (layout.newline_white level), dumpsStr, List.cons_append,
        List.cons_append, skipSpace_cons (by decide)]
    rw [dumpsFields, List.cons_append, List.append_assoc, List.append_assoc, List.cons_append,
      List.append_assoc, List.append_assoc, readFields, skipSpace_cons (by decide)]
    dsimp only
    rw [if_neg (by decide), if_pos rfl, hskip,
      readField_dumps (hkeys _ List.mem_cons_self) (hread _ List.mem_cons_self _ hends),
      Option.bind_eq_bind, Option.bind_some,
      ih (fun f hf => hkeys f (List.mem_cons_of_mem _ hf))
        (fun f hf => hread f (List.mem_cons_of_mem _ hf)) (Nat.lt_of_succ_lt_succ hn)]
    rfl

theorem properValues_iff {values : List PlainJson} :
    PlainJson.properValues values = true ↔ ∀ v ∈ values, v.proper = true := by
  induction values with
  | nil => simp [PlainJson.properValues]
  | cons v values ih => simp [PlainJson.properValues, ih]

theorem properFields_iff {fields : List (PyStr × PlainJson)} :
    PlainJson.properFields fields = true ↔ (fields.map Prod.fst).Nodup ∧
      ∀ field ∈ fields, PlainJson.isText field.1 = true ∧ field.2.proper = true := by
  induction fields with
  | nil => simp [PlainJson.properFields]
  | cons field fields ih =>
    simp only [PlainJson.properFields, Bool.and_eq_true, ih, Bool.not_eq_true', List.any_eq_false,
      beq_iff_eq, List.map_cons, List.nodup_cons, List.mem_map, List.forall_mem_cons, not_exists,
      not_and]
    grind -ring -linarith

/-- Fields with distinct keys are all kept. -/
theorem foldl_setField {acc fields : List (PyStr × PlainJson)}
    (h : ((acc ++ fields).map Prod.fst).Nodup) : fields.foldl setField acc = acc ++ fields := by
  induction fields generalizing acc with
  | nil => rw [List.foldl_nil, List.append_nil]
  | cons field fields ih =>
    have hnew : ¬(acc.any fun f => f.1 == field.1) = true := by
      rw [List.any_eq_true]
      rintro ⟨f, hf, hkey⟩
      rw [List.map_append, List.map_cons] at h
      refine (List.nodup_append.mp h).2.2 f.1 (List.mem_map_of_mem hf) field.1 List.mem_cons_self ?_
      exact eq_of_beq hkey
    rw [List.foldl_cons, setField, if_neg hnew, ih (by rwa [List.append_assoc]), List.append_assoc]
    rfl

theorem length_lt_dumpsValues {values : List PlainJson} :
    values.length ≤ (dumpsValues layout level values).length ∧ ∀ v ∈ values,
      (dumpsAt layout level v).length < (dumpsValues layout level values).length := by
  induction values with
  | nil => simp
  | cons v values ih =>
    simp only [dumpsValues, List.length_cons, List.length_append, List.forall_mem_cons]
    refine ⟨by omega, by omega, fun v' hv' => ?_⟩
    have := ih.2 v' hv'
    omega

theorem length_lt_dumpsFields {fields : List (PyStr × PlainJson)} :
    fields.length ≤ (dumpsFields layout level fields).length ∧ ∀ field ∈ fields,
      (dumpsAt layout level field.2).length < (dumpsFields layout level fields).length := by
  induction fields with
  | nil => simp
  | cons field fields ih =>
    simp only [dumpsFields, List.length_cons, List.length_append, List.forall_mem_cons]
    refine ⟨by omega, by omega, fun f hf => ?_⟩
    have := ih.2 f hf
    omega

/-- The first character of an integer is a digit or a sign. -/
theorem dumpsInt_eq_cons (k : ℤ) : ∃ c rest, dumpsInt k = c :: rest ∧ (c.isDigit = true ∨ c = '-') := by
  rw [dumpsInt]
  split_ifs
  · exact ⟨'-', _, rfl, Or.inr rfl⟩
  · obtain ⟨c, rest, heq⟩ := List.exists_cons_of_ne_nil
      (Nat.toDigits_ne_nil : Nat.toDigits 10 k.natAbs ≠ [])
    exact ⟨c, rest, heq, Or.inl (Nat.isDigit_of_mem_toDigits (by decide) (by decide)
      (heq ▸ List.mem_cons_self))⟩

/-- **A value is read back**, given enough depth. -/
theorem readValue_dumpsAt {v : PlainJson} (hv : v.proper = true)
    (hn : (dumpsAt layout level v).length ≤ n) (htext : Ends text) :
    readValue n (dumpsAt layout level v ++ text) = some (v, text) := by
  induction n generalizing level v text with
  | zero =>
    obtain ⟨c, rest, heq, -⟩ := @dumpsAt_eq_cons layout level v
    simp [heq] at hn
  | succ n ih =>
    cases v with
    | null => simp [dumpsAt, readValue, readWord]
    | bool b => cases b <;> simp [dumpsAt, readValue, readWord]
    | int k =>
      obtain ⟨c, rest, heq, hc⟩ := dumpsInt_eq_cons k
      have hne : ∀ d : Char, d.isDigit = false → d ≠ '-' → c ≠ d := by
        rintro d hdigit hminus rfl
        rw [hdigit] at hc
        exact hc.elim (by simp) hminus
      have hread : readInt (c :: (rest ++ text)) = some (k, text) := by
        rw [← List.cons_append, ← heq]
        exact readInt_dumpsInt htext
      rw [dumpsAt, heq, List.cons_append, readValue, if_neg (hne _ (by decide) (by decide)),
        if_neg (hne _ (by decide) (by decide)), if_neg (hne _ (by decide) (by decide)),
        if_neg (hne _ (by decide) (by decide)), if_neg (hne _ (by decide) (by decide)),
        if_neg (hne _ (by decide) (by decide)), hread]
      rfl
    | str s =>
      rw [dumpsAt, dumpsStr, List.cons_append, List.cons_append, List.append_assoc,
        List.singleton_append, readValue, if_neg (by decide), if_neg (by decide), if_neg (by decide),
        if_pos rfl, readString_dumpsStr hv]
      rfl
    | list values =>
      cases values with
      | nil => simp [dumpsAt, readValue, skipSpace, isSpace]
      | cons v values =>
        have hall := properValues_iff.mp (show PlainJson.properValues (v :: values) = true from hv)
        have hlength := @length_lt_dumpsValues layout (level + 1) values
        simp only [dumpsAt, List.length_cons, List.length_append] at hn
        have hends : Ends (dumpsValues layout (level + 1) values ++
            (layout.newline level ++ ']' :: text)) :=
          ends_dumpsValues values (.append (layout.newline_white level) (ends_cons (by decide)))
        have hread : ∀ v' ∈ values, ∀ text, Ends text →
            readValue n (dumpsAt layout (level + 1) v' ++ text) = some (v', text) := by
          intro v' hv' text' htext'
          have hlt := hlength.2 v' hv'
          exact ih (hall v' (List.mem_cons_of_mem _ hv')) (by omega) htext'
        have hvalues : readValues (readValue n) n (dumpsValues layout (level + 1) values ++
            (layout.newline level ++ ']' :: text)) = some (values, text) :=
          readValues_dumpsValues hread (layout.newline_white level) (by omega)
        obtain ⟨c, rest, hcons, hc, hbracket⟩ := @dumpsAt_eq_cons layout (level + 1) v
        have hskip : skipSpace (layout.newline (level + 1) ++ (dumpsAt layout (level + 1) v ++
            (dumpsValues layout (level + 1) values ++ (layout.newline level ++ ']' :: text)))) =
            dumpsAt layout (level + 1) v ++ (dumpsValues layout (level + 1) values ++
              (layout.newline level ++ ']' :: text)) := by
          rw [skipSpace_append (layout.newline_white _), hcons, List.cons_append, skipSpace_cons hc]
        have hhead : (dumpsAt layout (level + 1) v ++ (dumpsValues layout (level + 1) values ++
            (layout.newline level ++ ']' :: text))).head? ≠ some ']' := by
          rw [hcons]
          simpa using hbracket
        rw [dumpsAt, List.cons_append, List.append_assoc, List.append_assoc, List.append_assoc,
          List.append_assoc, List.singleton_append, readValue, if_neg (by decide),
          if_neg (by decide), if_neg (by decide), if_neg (by decide), if_pos rfl, hskip,
          if_neg hhead, ih (hall v List.mem_cons_self) (by omega) hends, Option.bind_eq_bind,
          Option.bind_some]
        dsimp only
        rw [hvalues]
        rfl
    | dict fields =>
      cases fields with
      | nil => simp [dumpsAt, readValue, skipSpace, isSpace]
      | cons field fields =>
        obtain ⟨key, v⟩ := field
        have hall := properFields_iff.mp
          (show PlainJson.properFields ((key, v) :: fields) = true from hv)
        have hlength := @length_lt_dumpsFields layout (level + 1) fields
        simp only [dumpsAt, List.length_cons, List.length_append] at hn
        have hends : Ends (dumpsFields layout (level + 1) fields ++
            (layout.newline level ++ '}' :: text)) :=
          ends_dumpsFields fields (.append (layout.newline_white level) (ends_cons (by decide)))
        have hread : ∀ f ∈ fields, ∀ text, Ends text →
            readValue n (dumpsAt layout (level + 1) f.2 ++ text) = some (f.2, text) := by
          intro f hf text' htext'
          have hlt := hlength.2 f hf
          exact ih (hall.2 f (List.mem_cons_of_mem _ hf)).2 (by omega) htext'
        have hfields : readFields (readValue n) n (dumpsFields layout (level + 1) fields ++
            (layout.newline level ++ '}' :: text)) = some (fields, text) :=
          readFields_dumpsFields (fun f hf => (hall.2 f (List.mem_cons_of_mem _ hf)).1) hread
            (layout.newline_white level) (by omega)
        have hkey : PlainJson.isText key = true := (hall.2 _ List.mem_cons_self).1
        have hvalue : readValue n (dumpsAt layout (level + 1) v ++
            (dumpsFields layout (level + 1) fields ++ (layout.newline level ++ '}' :: text))) =
            some (v, dumpsFields layout (level + 1) fields ++ (layout.newline level ++ '}' :: text)) :=
          ih (hall.2 _ List.mem_cons_self).2 (by omega) hends
        have hfield := readField_dumps hkey hvalue
        have hskip : skipSpace (layout.newline (level + 1) ++ (dumpsStr key ++ (':' ::
            (layout.space ++ (dumpsAt layout (level + 1) v ++ (dumpsFields layout (level + 1) fields ++
              (layout.newline level ++ '}' :: text))))))) = dumpsStr key ++ (':' :: (layout.space ++
            (dumpsAt layout (level + 1) v ++ (dumpsFields layout (level + 1) fields ++
              (layout.newline level ++ '}' :: text))))) := by
          rw [skipSpace_append (layout.newline_white _), dumpsStr, List.cons_append,
            List.cons_append, skipSpace_cons (by decide)]
        rw [dumpsAt, List.cons_append, List.append_assoc, List.append_assoc, List.cons_append,
          List.append_assoc, List.append_assoc, List.append_assoc, List.append_assoc,
          List.singleton_append, readValue, if_neg (by decide), if_neg (by decide),
          if_neg (by decide), if_neg (by decide), if_neg (by decide), if_pos rfl, hskip,
          if_neg (by simp [dumpsStr]), hfield, Option.bind_eq_bind, Option.bind_some]
        dsimp only
        rw [hfields, Option.bind_eq_bind, Option.bind_some]
        dsimp only
        rw [foldl_setField (by simpa using hall.1)]
        rfl

/-- **What was written is read back**, in every layout, also with white space after it. -/
theorem readText_dumps {v : PlainJson} (hv : v.proper = true)
    (hwhite : white.all isSpace = true) : readText (dumps layout v ++ white) = some v := by
  obtain ⟨c, rest, hcons, hc, -⟩ := @dumpsAt_eq_cons layout 0 v
  have hskip : skipSpace (dumps layout v ++ white) = dumps layout v ++ white := by
    rw [dumps, hcons, List.cons_append, skipSpace_cons hc]
  have hrest : skipSpace white = [] := by
    rw [← List.append_nil white, skipSpace_append hwhite]
    rfl
  have hends : Ends white := by
    rw [← List.append_nil white]
    exact .append hwhite rfl
  have hvalue : readValue ((dumps layout v ++ white).length + 1) (dumps layout v ++ white) =
      some (v, white) := by
    refine readValue_dumpsAt hv ?_ hends
    rw [List.length_append, dumps]
    omega
  rw [readText, hskip, hvalue, Option.bind_eq_bind, Option.bind_some]
  dsimp only
  rw [hrest, if_pos rfl]

end Values

end JsonText

end EzOpenPN
