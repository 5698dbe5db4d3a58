import EzOpenPN.Lib.BaseN
import EzOpenPN.Lib.Prog

/-!
# Values shared by the control plane

The exceptions the control plane raises and the identifiers it hands out. An exception
is its class and its message, as a Python exception is, so that a handler can select on
the class and a caller can still read the text. A UUID is its sixteen bytes, and its text
is the usual one in five groups of hexadecimal digits.
-/

namespace EzOpenPN

/-! ### Lists -/

/-- Membership in a list of texts, which are lists of code points, can be decided. -/
instance lawfulBEqTexts : LawfulBEq (List ℕ) := inferInstance

/-- Membership in a list of byte strings can be decided. -/
instance : LawfulBEq Bytes := inferInstance

/-! ### Exceptions -/

/-- The exception classes that the modelled functions raise or handle. -/
inductive ErrorKind where
  | valueError
  | keyError
  | unicodeError
  | cryptoError
  | profileNotFound
  | profileConflict
  | invalidProfileTransition
  | invalidProfileName
  | runtimeUnavailable
  | runtimeRejected
  | invalidRuntimeIdentifier
  | hysteriaRuntimeUnavailable
  | invalidHysteriaRuntimeIdentifier
  | supervisorUnavailable
  | profileLinksUnavailable
  | profileMaterialUnavailable
  | profileProvisioningFailed
  | profileRevocationFailed
  | profileEnableFailed
  | profileDeleteFailed
  deriving DecidableEq, Repr

/-- An exception: its class and its message. -/
structure PyError where
  /-- The class, on which handlers select. -/
  kind : ErrorKind
  /-- The text the exception carries. -/
  message : String
  deriving DecidableEq, Repr

/-! ### UUIDs -/

/-- **A UUID is sixteen bytes.** -/
def Uuid : Type := { b : Bytes // b.length = 16 }

namespace Uuid

instance : DecidableEq Uuid := inferInstanceAs (DecidableEq { b : Bytes // b.length = 16 })

/-- The bytes of a UUID. -/
def bytes (u : Uuid) : Bytes := u.val

/-- `UUID(bytes=value)`: only sixteen bytes make a UUID. -/
def ofBytes (value : Bytes) : Except PyError Uuid :=
  if h : value.length = 16 then .ok ⟨value, h⟩
  else .error ⟨.valueError, "bytes is not a 16-char string"⟩

/-- The bytes of a UUID make it again. -/
theorem ofBytes_bytes (u : Uuid) : ofBytes u.bytes = .ok u := by
  have h : u.bytes.length = 16 := u.property
  simp only [ofBytes, h, ↓reduceDIte]
  rfl

/-- The two lower-case hexadecimal digits of a byte. -/
def hexByte (b : UInt8) : List Char :=
  [Nat.digitChar (b.toNat / 16), Nat.digitChar (b.toNat % 16)]

/-- The characters of the text of a UUID: five groups of hexadecimal digits. -/
def chars (u : Uuid) : List Char :=
  let hex := fun (b : Bytes) => b.flatMap hexByte
  hex (u.bytes.take 4) ++ '-' :: hex ((u.bytes.drop 4).take 2) ++ '-' ::
    hex ((u.bytes.drop 6).take 2) ++ '-' :: hex ((u.bytes.drop 8).take 2) ++ '-' ::
    hex (u.bytes.drop 10)

/-- `str(uuid)`. -/
def text (u : Uuid) : String := String.ofList u.chars

end Uuid

/-- `text.encode("ascii")` of a text known to be ASCII: one byte per character. -/
def asciiBytes (s : String) : Bytes := s.toList.map fun c => UInt8.ofNat c.toNat

/-- `text.isascii()`. -/
def isAscii (s : String) : Bool := s.toList.all fun c => c.toNat < 128

/-- ASCII texts with the same bytes are the same text. -/
theorem asciiBytes_injOn {a b : String} (ha : isAscii a = true) (hb : isAscii b = true)
    (h : asciiBytes a = asciiBytes b) : a = b := by
  have hinj : ∀ c d : Char, c.toNat < 128 → d.toNat < 128 →
      UInt8.ofNat c.toNat = UInt8.ofNat d.toNat → c = d := by
    intro c d hc hd he
    have hn := congrArg UInt8.toNat he
    simp only [UInt8.toNat_ofNat'] at hn
    rw [Nat.mod_eq_of_lt (by omega), Nat.mod_eq_of_lt (by omega)] at hn
    exact Char.ext (UInt32.toNat_inj.mp hn)
  rw [isAscii, List.all_eq_true] at ha hb
  rw [asciiBytes, asciiBytes] at h
  rw [← String.toList_inj]
  revert h ha hb
  generalize a.toList = l
  generalize b.toList = l'
  intro hl hl' h
  induction l generalizing l' with
  | nil => simpa using h.symm
  | cons c l ih =>
    rcases l' with _ | ⟨d, l'⟩
    · simp at h
    · simp only [List.map_cons, List.cons.injEq] at h
      rw [hinj c d (by simpa using hl c (by simp)) (by simpa using hl' d (by simp)) h.1,
        ih l' (fun x hx => hl x (by simp [hx])) (fun x hx => hl' x (by simp [hx])) h.2]

/-- The encoding of an ASCII character is its one byte. -/
theorem utf8EncodeChar_of_lt {c : Char} (h : c.toNat < 128) :
    String.utf8EncodeChar c = [UInt8.ofNat c.toNat] := by
  have hle : c.val.toNat ≤ 0x7f := Nat.le_of_lt_succ h
  simp only [String.utf8EncodeChar, hle, ↓reduceIte]
  rfl

/-- The last byte of a character outside of ASCII is none of ASCII. -/
theorem exists_high_byte {c : Char} (h : 128 ≤ c.toNat) :
    ∃ b ∈ String.utf8EncodeChar c, 128 ≤ b.toNat := by
  have hlast : 128 ≤ (UInt8.ofNat (c.val.toNat % 0x40 + 0x80)).toNat := by
    rw [UInt8.toNat_ofNat']
    omega
  have hgt : ¬c.val.toNat ≤ 0x7f := by
    change ¬c.toNat ≤ 0x7f
    omega
  refine ⟨_, ?_, hlast⟩
  simp only [String.utf8EncodeChar, hgt, ↓reduceIte]
  split
  · simp
  · split <;> simp

theorem toNat_ofNat_of_isValidChar {c : ℕ} (h : c.isValidChar) : (Char.ofNat c).toNat = c := by
  rw [Char.ofNat, dif_pos h]
  rfl

/-- `text.encode("utf-8")`. -/
def utf8Bytes (s : String) : Bytes := s.toList.flatMap String.utf8EncodeChar

/-- `bytes.decode("utf-8")`. -/
def decodeUtf8 (bytes : Bytes) : Option String :=
  (bytes.toByteArray.utf8Decode?).map fun chars => String.ofList chars.toList

theorem decodeUtf8_utf8Bytes (s : String) : decodeUtf8 (utf8Bytes s) = some s := by
  have hencode : (utf8Bytes s).toByteArray = s.toList.utf8Encode := rfl
  rw [decodeUtf8, hencode, List.utf8Decode?_utf8Encode, Option.map_some, List.toList_toArray,
    String.ofList_toList]

/-- An ASCII text has the same bytes in both encodings. -/
theorem utf8Bytes_of_isAscii {s : String} (h : isAscii s = true) : utf8Bytes s = asciiBytes s := by
  rw [isAscii, List.all_eq_true] at h
  rw [utf8Bytes, asciiBytes]
  generalize s.toList = l at h
  induction l with
  | nil => rfl
  | cons c l ih =>
    have hc : c.toNat < 128 := by simpa using h c (by simp)
    rw [List.flatMap_cons, List.map_cons, ih fun d hd => h d (by simp [hd]),
      utf8EncodeChar_of_lt hc]
    rfl

/-! ### Texts -/

/-- The characters `str.strip` removes. -/
def isPySpace (c : Char) : Bool :=
  let n := c.toNat
  (0x9 ≤ n && n ≤ 0xd) || (0x1c ≤ n && n ≤ 0x20) || n == 0x85 || n == 0xa0 || n == 0x1680 ||
    (0x2000 ≤ n && n ≤ 0x200a) || n == 0x2028 || n == 0x2029 || n == 0x202f || n == 0x205f ||
    n == 0x3000

/-- `name.strip()`. -/
def pyStrip (name : String) : String :=
  String.ofList ((name.toList.dropWhile isPySpace).reverse.dropWhile isPySpace).reverse

end EzOpenPN
