import EzOpenPN.Basic

/-!
# JSON values, as Python reads and writes them

The JSON reader is the one of the standard library and a parameter wherever it is used
(`EzOpenPN.Loads`): a text that it refuses for being no JSON or no UTF-8 is `malformed`, and
whatever else it raises (a text nested too deeply, an integer of too many digits) is `other`.

The writer matters in one respect, the length of what it writes, so its strings are spelled out:
`json.dumps` writes ASCII only, and everything outside the printable characters as an escape.
-/

namespace EzOpenPN

/-- A text of the interpreter, by its code points. It may hold lone surrogates, which is how the
interpreter writes file names that are not UTF-8. -/
abbrev PyStr := List ℕ

/-- The code points of a text. -/
def codePoints (s : String) : PyStr := s.toList.map Char.toNat

/-- A value read by `json.loads`. -/
inductive Json where
  | null
  | bool (b : Bool)
  | int (n : ℤ)
  /-- A floating-point number; infinities and `nan` have no value. -/
  | float (value : Option ℚ)
  | str (s : PyStr)
  | list (values : List Json)
  | dict (fields : List (PyStr × Json))

/-- A value that can be looked up in a set; to look up another one is a `TypeError`. -/
def Json.hashable : Json → Bool
  | .list _ => false
  | .dict _ => false
  | _ => true

/-- The exceptions of `json.loads`. -/
inductive LoadsError where
  /-- `UnicodeDecodeError` or `JSONDecodeError`. -/
  | malformed
  /-- Any other one: `RecursionError`, or the `ValueError` of an integer with more digits than the
  interpreter converts. -/
  | other
  deriving DecidableEq

/-- `json.loads`. -/
abbrev Loads := Bytes → Except LoadsError Json

/-- The value of a field of a dictionary, `value.get(key)`. -/
def field (fields : List (PyStr × Json)) (key : String) : Option Json :=
  (fields.find? fun kv => kv.1 = codePoints key).map Prod.snd

/-- `set(value) == {…}`. -/
def hasKeys (keys : List String) (fields : List (PyStr × Json)) : Bool :=
  (fields.all fun kv => kv.1 ∈ keys.map codePoints) &&
    (keys.map codePoints).all fun k => k ∈ fields.map Prod.fst

theorem hasKeys_iff {keys : List String} {fields : List (PyStr × Json)} :
    hasKeys keys fields = true ↔
      ∀ k, k ∈ fields.map Prod.fst ↔ k ∈ keys.map codePoints := by
  rw [hasKeys, Bool.and_eq_true, List.all_eq_true, List.all_eq_true]
  simp only [decide_eq_true_eq]
  constructor
  · rintro ⟨hin, hall⟩ k
    refine ⟨fun hk => ?_, fun hk => hall k hk⟩
    obtain ⟨kv, hkv, rfl⟩ := List.mem_map.mp hk
    exact hin kv hkv
  · intro h
    exact ⟨fun kv hkv => (h _).mp (List.mem_map_of_mem hkv), fun k hk => (h k).mpr hk⟩

/-! ### Writing strings -/

/-- `\uXXXX`. -/
def unicodeEscape (n : ℕ) : List Char :=
  ['\\', 'u', Nat.digitChar (n / 4096 % 16), Nat.digitChar (n / 256 % 16),
    Nat.digitChar (n / 16 % 16), Nat.digitChar (n % 16)]

/-- One code point in a JSON string, with `ensure_ascii`. -/
def escapeChar (c : ℕ) : List Char :=
  if c = 34 then ['\\', '"']
  else if c = 92 then ['\\', '\\']
  else if c = 10 then ['\\', 'n']
  else if c = 13 then ['\\', 'r']
  else if c = 9 then ['\\', 't']
  else if c = 12 then ['\\', 'f']
  else if c = 8 then ['\\', 'b']
  else if 32 ≤ c ∧ c ≤ 126 then [Char.ofNat c]
  else if c < 0x10000 then unicodeEscape c
  else unicodeEscape (0xd800 + (c - 0x10000) / 0x400) ++
    unicodeEscape (0xdc00 + (c - 0x10000) % 0x400)

/-- A JSON string. -/
def dumpsStr (s : PyStr) : List Char := '"' :: s.flatMap escapeChar ++ ['"']

/-- The length of a JSON string. -/
def strSize (s : PyStr) : ℕ := (s.map fun c => (escapeChar c).length).sum + 2

@[simp] theorem length_dumpsStr (s : PyStr) : (dumpsStr s).length = strSize s := by
  rw [dumpsStr, strSize, List.cons_append, List.length_cons, List.length_append, List.length_flatMap]
  rfl

end EzOpenPN
