import Mathlib

/-!
# Binary text encodings: base64 for URLs and base32

Byte strings written as text. The two encoders are those of RFC 4648: base64 with the
URL-safe alphabet, three bytes to four characters, and base32, five bytes to eight.
A short last group is filled up with zero bits and the text with `=`, so that the text
of a group has always the same length; `stripPad` takes the padding off again, and the
unpadded texts are the ones that travel.

What is needed of them is small: the texts are made of their alphabets (`BaseN.mem_b32Group`,
`BaseN.mem_stripPad_b64encode`), an unpadded base64 text is as long as its bytes say
(`BaseN.length_stripPad_b64encode`) and determines them (`BaseN.stripPad_b64encode_injective`).
The standard alphabet differs from the URL-safe one in two characters; the texts over it are
decoded again (`BaseN.standardDecode_standardEncode`).
-/

/-- Byte strings. -/
abbrev Bytes := List UInt8

namespace BaseN

/-! ### The alphabets -/

/-- The sixty-four characters of URL-safe base64. -/
def b64Alphabet : List Char :=
  "ABCDEFGHIJKLMNOPQRSTUVWXYZabcdefghijklmnopqrstuvwxyz0123456789-_".toList

/-- The thirty-two characters of base32. -/
def b32Alphabet : List Char := "ABCDEFGHIJKLMNOPQRSTUVWXYZ234567".toList

/-- The base64 character of a digit. -/
def b64Char (n : ℕ) : Char := b64Alphabet.getD n 'A'

/-- The base32 character of a digit. -/
def b32Char (n : ℕ) : Char := b32Alphabet.getD n 'A'

/-- The padding comes off the end of a text: `rstrip(b"=")`. -/
def stripPad (s : List Char) : List Char := (s.reverse.dropWhile (· = '=')).reverse

/-! ### The encoders -/

/-- URL-safe base64 with padding. -/
def b64encode : Bytes → List Char
  | a :: b :: c :: rest =>
    b64Char (a.toNat / 4) :: b64Char (a.toNat % 4 * 16 + b.toNat / 16) ::
      b64Char (b.toNat % 16 * 4 + c.toNat / 64) :: b64Char (c.toNat % 64) :: b64encode rest
  | [a, b] =>
    [b64Char (a.toNat / 4), b64Char (a.toNat % 4 * 16 + b.toNat / 16),
      b64Char (b.toNat % 16 * 4), '=']
  | [a] => [b64Char (a.toNat / 4), b64Char (a.toNat % 4 * 16), '=', '=']
  | [] => []

/-- The eight base32 characters of five bytes. -/
def b32Group (a b c d e : ℕ) : List Char :=
  [b32Char (a / 8), b32Char (a % 8 * 4 + b / 64), b32Char (b / 2 % 32),
    b32Char (b % 2 * 16 + c / 16), b32Char (c % 16 * 2 + d / 128), b32Char (d / 4 % 32),
    b32Char (d % 4 * 8 + e / 32), b32Char (e % 32)]

/-- Base32 with padding: the missing bytes of a short last group are zero, and the
characters that carry no bit of it are replaced by `=`. -/
def b32encode : Bytes → List Char
  | a :: b :: c :: d :: e :: rest =>
    b32Group a.toNat b.toNat c.toNat d.toNat e.toNat ++ b32encode rest
  | [a, b, c, d] =>
    (b32Group a.toNat b.toNat c.toNat d.toNat 0).take 7 ++ List.replicate 1 '='
  | [a, b, c] => (b32Group a.toNat b.toNat c.toNat 0 0).take 5 ++ List.replicate 3 '='
  | [a, b] => (b32Group a.toNat b.toNat 0 0 0).take 4 ++ List.replicate 4 '='
  | [a] => (b32Group a.toNat 0 0 0 0).take 2 ++ List.replicate 6 '='
  | [] => []

/-! ### Base32 texts are made of the alphabet -/

theorem b32Char_mem (n : ℕ) : b32Char n ∈ b32Alphabet := by
  rw [b32Char, List.getD_eq_getElem?_getD]
  rcases Nat.lt_or_ge n b32Alphabet.length with h | h
  · rw [List.getElem?_eq_getElem h]
    exact List.getElem_mem h
  · rw [List.getElem?_eq_none h]
    decide

theorem mem_b32Group {a b c d e : ℕ} {x : Char} (h : x ∈ b32Group a b c d e) :
    x ∈ b32Alphabet := by
  simp only [b32Group, List.mem_cons, List.not_mem_nil, or_false] at h
  rcases h with rfl | rfl | rfl | rfl | rfl | rfl | rfl | rfl <;> exact b32Char_mem _

@[simp] theorem length_b32Group (a b c d e : ℕ) : (b32Group a b c d e).length = 8 := rfl

/-! ### The padding -/

/-- A text that ends in no padding keeps all of itself. -/
theorem stripPad_append_of_ne {s : List Char} {pad : ℕ} (h : ∀ x ∈ s.getLast?, x ≠ '=') :
    stripPad (s ++ List.replicate pad '=') = s := by
  rw [stripPad, List.reverse_append, List.reverse_replicate, List.dropWhile_append_of_pos]
  · rcases hs : s.reverse with _ | ⟨x, r⟩
    · rw [List.reverse_eq_nil_iff] at hs
      simp [hs]
    · have hlast : s.getLast? = some x := by
        rw [← List.head?_reverse, hs]
        rfl
      have hx : x ≠ '=' := h x (by simp [hlast])
      rw [List.dropWhile_cons_of_neg (by simp [hx]), ← hs, List.reverse_reverse]
  · intro x hx
    simp [List.eq_of_mem_replicate hx]

/-! ### Base64 is injective -/

theorem b64Alphabet_nodup : b64Alphabet.Nodup := by decide

theorem b64Char_eq_getElem {n : ℕ} (h : n < 64) : b64Char n = b64Alphabet[n] := by
  rw [b64Char, List.getD_eq_getElem?_getD,
    List.getElem?_eq_getElem (show n < b64Alphabet.length from h)]
  rfl

theorem b64Char_injOn {m n : ℕ} (hm : m < 64) (hn : n < 64) (h : b64Char m = b64Char n) :
    m = n := by
  rw [b64Char_eq_getElem hm, b64Char_eq_getElem hn] at h
  exact b64Alphabet_nodup.getElem_inj_iff.mp h

theorem b64Char_ne_pad {n : ℕ} (h : n < 64) : b64Char n ≠ '=' := by
  rw [b64Char_eq_getElem h]
  intro he
  exact absurd (he ▸ List.getElem_mem _ : '=' ∈ b64Alphabet) (by decide)

theorem eq_of_toNat {a b : UInt8} (h : a.toNat = b.toNat) : a = b := UInt8.toNat_inj.mp h

/-- **The padded base64 text determines the bytes.** -/
theorem b64encode_injective : ∀ {x y : Bytes}, b64encode x = b64encode y → x = y := by
  intro x
  induction x using b64encode.induct with
  | case1 a b c rest ih =>
    intro y h
    rcases y with _ | ⟨a', _ | ⟨b', _ | ⟨c', rest'⟩⟩⟩
    · simp [b64encode] at h
    · simp only [b64encode, List.cons.injEq] at h
      exact absurd h.2.2.1 (b64Char_ne_pad (by have := b.toNat_lt; have := c.toNat_lt; omega))
    · simp only [b64encode, List.cons.injEq] at h
      exact absurd h.2.2.2.1 (b64Char_ne_pad (by omega))
    · simp only [b64encode, List.cons.injEq] at h
      obtain ⟨h1, h2, h3, h4, h5⟩ := h
      have := a.toNat_lt
      have := b.toNat_lt
      have := c.toNat_lt
      have := a'.toNat_lt
      have := b'.toNat_lt
      have := c'.toNat_lt
      have e1 := b64Char_injOn (by omega) (by omega) h1
      have e2 := b64Char_injOn (by omega) (by omega) h2
      have e3 := b64Char_injOn (by omega) (by omega) h3
      have e4 := b64Char_injOn (by omega) (by omega) h4
      rw [ih h5, eq_of_toNat (show a.toNat = a'.toNat by omega),
        eq_of_toNat (show b.toNat = b'.toNat by omega),
        eq_of_toNat (show c.toNat = c'.toNat by omega)]
  | case2 a b =>
    intro y h
    have := a.toNat_lt
    have := b.toNat_lt
    rcases y with _ | ⟨a', _ | ⟨b', _ | ⟨c', rest'⟩⟩⟩
    · simp [b64encode] at h
    · simp only [b64encode, List.cons.injEq] at h
      exact absurd h.2.2.1 (b64Char_ne_pad (by omega))
    · simp only [b64encode, List.cons.injEq] at h
      obtain ⟨h1, h2, h3, -⟩ := h
      have := a'.toNat_lt
      have := b'.toNat_lt
      have e1 := b64Char_injOn (by omega) (by omega) h1
      have e2 := b64Char_injOn (by omega) (by omega) h2
      have e3 := b64Char_injOn (by omega) (by omega) h3
      rw [eq_of_toNat (show a.toNat = a'.toNat by omega),
        eq_of_toNat (show b.toNat = b'.toNat by omega)]
    · simp only [b64encode, List.cons.injEq] at h
      exact absurd h.2.2.2.1.symm (b64Char_ne_pad (by omega))
  | case3 a =>
    intro y h
    have := a.toNat_lt
    rcases y with _ | ⟨a', _ | ⟨b', _ | ⟨c', rest'⟩⟩⟩
    · simp [b64encode] at h
    · simp only [b64encode, List.cons.injEq] at h
      have := a'.toNat_lt
      have e1 := b64Char_injOn (by omega) (by omega) h.1
      have e2 := b64Char_injOn (by omega) (by omega) h.2.1
      rw [eq_of_toNat (show a.toNat = a'.toNat by omega)]
    · simp only [b64encode, List.cons.injEq] at h
      exact absurd h.2.2.1.symm (b64Char_ne_pad (by have := b'.toNat_lt; omega))
    · simp only [b64encode, List.cons.injEq] at h
      exact absurd h.2.2.1.symm
        (b64Char_ne_pad (by have := b'.toNat_lt; have := c'.toNat_lt; omega))
  | case4 =>
    intro y h
    rcases y with _ | ⟨a', _ | ⟨b', _ | ⟨c', rest'⟩⟩⟩ <;> simp_all [b64encode]

/-- The number of padding characters of a base64 text. -/
def b64Pad (n : ℕ) : ℕ := (3 - n % 3) % 3

/-- **A base64 text is its digits followed by the padding of its length.** -/
theorem b64encode_eq_digits (x : Bytes) : ∃ u : List Char,
    b64encode x = u ++ List.replicate (b64Pad x.length) '=' ∧ ∀ c ∈ u, c ≠ '=' := by
  induction x using b64encode.induct with
  | case1 a b c rest ih =>
    obtain ⟨u, hu, hne⟩ := ih
    have hlen : b64Pad (a :: b :: c :: rest).length = b64Pad rest.length := by
      simp only [b64Pad, List.length_cons]
      omega
    have := a.toNat_lt
    have := b.toNat_lt
    have := c.toNat_lt
    refine ⟨b64Char (a.toNat / 4) :: b64Char (a.toNat % 4 * 16 + b.toNat / 16) ::
      b64Char (b.toNat % 16 * 4 + c.toNat / 64) :: b64Char (c.toNat % 64) :: u, ?_, ?_⟩
    · rw [b64encode, hu, hlen]
      rfl
    · intro y hy
      simp only [List.mem_cons] at hy
      rcases hy with rfl | rfl | rfl | rfl | hy
      · exact b64Char_ne_pad (by omega)
      · exact b64Char_ne_pad (by omega)
      · exact b64Char_ne_pad (by omega)
      · exact b64Char_ne_pad (by omega)
      · exact hne y hy
  | case2 a b =>
    have := a.toNat_lt
    have := b.toNat_lt
    refine ⟨[b64Char (a.toNat / 4), b64Char (a.toNat % 4 * 16 + b.toNat / 16),
      b64Char (b.toNat % 16 * 4)], rfl, ?_⟩
    intro y hy
    simp only [List.mem_cons, List.not_mem_nil, or_false] at hy
    rcases hy with rfl | rfl | rfl <;> exact b64Char_ne_pad (by omega)
  | case3 a =>
    have := a.toNat_lt
    refine ⟨[b64Char (a.toNat / 4), b64Char (a.toNat % 4 * 16)], rfl, ?_⟩
    intro y hy
    simp only [List.mem_cons, List.not_mem_nil, or_false] at hy
    rcases hy with rfl | rfl <;> exact b64Char_ne_pad (by omega)
  | case4 => exact ⟨[], rfl, by simp⟩

/-- A padded base64 text fills its groups. -/
theorem length_b64encode_mod (x : Bytes) : (b64encode x).length % 4 = 0 := by
  induction x using b64encode.induct with
  | case1 a b c rest ih =>
    simp only [b64encode, List.length_cons]
    omega
  | case2 a b => simp [b64encode]
  | case3 a => simp [b64encode]
  | case4 => simp [b64encode]

/-- **The unpadded base64 text determines the bytes**: its length tells how much padding was
taken off. -/
theorem stripPad_b64encode_injective {x y : Bytes}
    (h : stripPad (b64encode x) = stripPad (b64encode y)) : x = y := by
  obtain ⟨u, hu, hune⟩ := b64encode_eq_digits x
  obtain ⟨v, hv, hvne⟩ := b64encode_eq_digits y
  rw [hu, hv, stripPad_append_of_ne fun c hc => hune c (List.mem_of_mem_getLast? hc),
    stripPad_append_of_ne fun c hc => hvne c (List.mem_of_mem_getLast? hc)] at h
  have hx := length_b64encode_mod x
  have hy := length_b64encode_mod y
  rw [hu, List.length_append, List.length_replicate] at hx
  rw [hv, List.length_append, List.length_replicate, ← h] at hy
  have hpad : b64Pad x.length = b64Pad y.length := by
    simp only [b64Pad] at hx hy ⊢
    omega
  exact b64encode_injective (by rw [hu, hv, h, hpad])

/-! ### Base64 texts are made of the alphabet -/

theorem b64Char_mem (n : ℕ) : b64Char n ∈ b64Alphabet := by
  rw [b64Char, List.getD_eq_getElem?_getD]
  rcases Nat.lt_or_ge n b64Alphabet.length with h | h
  · rw [List.getElem?_eq_getElem h]
    exact List.getElem_mem h
  · rw [List.getElem?_eq_none h]
    decide

theorem mem_b64encode {x : Bytes} {c : Char} (h : c ∈ b64encode x) : c ∈ b64Alphabet ∨ c = '=' := by
  induction x using b64encode.induct with
  | case1 a b d rest ih =>
    simp only [b64encode, List.mem_cons] at h
    rcases h with rfl | rfl | rfl | rfl | h
    · exact Or.inl (b64Char_mem _)
    · exact Or.inl (b64Char_mem _)
    · exact Or.inl (b64Char_mem _)
    · exact Or.inl (b64Char_mem _)
    · exact ih h
  | case2 a b =>
    simp only [b64encode, List.mem_cons, List.not_mem_nil, or_false] at h
    rcases h with rfl | rfl | rfl | rfl
    · exact Or.inl (b64Char_mem _)
    · exact Or.inl (b64Char_mem _)
    · exact Or.inl (b64Char_mem _)
    · exact Or.inr rfl
  | case3 a =>
    simp only [b64encode, List.mem_cons, List.not_mem_nil, or_false] at h
    rcases h with rfl | rfl | rfl | rfl
    · exact Or.inl (b64Char_mem _)
    · exact Or.inl (b64Char_mem _)
    · exact Or.inr rfl
    · exact Or.inr rfl
  | case4 => exact absurd h (by simp [b64encode])

/-- **An unpadded base64 text is made of the alphabet.** -/
theorem mem_stripPad_b64encode {x : Bytes} {c : Char} (h : c ∈ stripPad (b64encode x)) :
    c ∈ b64Alphabet := by
  obtain ⟨u, hu, hne⟩ := b64encode_eq_digits x
  have hstrip : stripPad (b64encode x) = u := by
    rw [hu, stripPad_append_of_ne fun d hd => hne d (List.mem_of_mem_getLast? hd)]
  rw [hstrip] at h
  rcases mem_b64encode (x := x) (c := c) (by rw [hu]; exact List.mem_append_left _ h) with hc | hc
  · exact hc
  · exact absurd hc (hne c h)

theorem length_b64encode (x : Bytes) : (b64encode x).length = (x.length + 2) / 3 * 4 := by
  induction x using b64encode.induct with
  | case1 a b c rest ih =>
    simp only [b64encode, List.length_cons, ih]
    omega
  | case2 a b => simp [b64encode]
  | case3 a => simp [b64encode]
  | case4 => simp [b64encode]

/-- **The length of an unpadded base64 text.** -/
theorem length_stripPad_b64encode (x : Bytes) :
    (stripPad (b64encode x)).length = (4 * x.length + 2) / 3 := by
  obtain ⟨u, hu, hne⟩ := b64encode_eq_digits x
  have hlen := length_b64encode x
  rw [hu, List.length_append, List.length_replicate, b64Pad] at hlen
  rw [hu, stripPad_append_of_ne fun d hd => hne d (List.mem_of_mem_getLast? hd)]
  omega

/-! ### The standard alphabet, and decoding -/

/-- The sixty-four characters of base64. -/
def standardAlphabet : List Char :=
  "ABCDEFGHIJKLMNOPQRSTUVWXYZabcdefghijklmnopqrstuvwxyz0123456789+/".toList

/-- The two characters in which the alphabets differ. -/
def toStandard (c : Char) : Char := if c = '-' then '+' else if c = '_' then '/' else c

/-- Base64 with padding, over the standard alphabet. -/
def standardEncode (x : Bytes) : List Char := (b64encode x).map toStandard

/-- The digit of a character of the standard alphabet. -/
def standardValue (c : Char) : Option ℕ :=
  if c ∈ standardAlphabet then some (standardAlphabet.idxOf c) else none

/-- Decoding, four characters at a time; the padding closes the last group. -/
def standardDecode : List Char → Option Bytes
  | a :: b :: c :: d :: rest =>
    match standardValue a, standardValue b, standardValue c, standardValue d with
    | some x, some y, some z, some u =>
      (standardDecode rest).map fun tail => UInt8.ofNat (x * 4 + y / 16) ::
        UInt8.ofNat (y % 16 * 16 + z / 4) :: UInt8.ofNat (z % 4 * 64 + u) :: tail
    | some x, some y, some z, none =>
      if d = '=' ∧ rest = [] then
        some [UInt8.ofNat (x * 4 + y / 16), UInt8.ofNat (y % 16 * 16 + z / 4)]
      else none
    | some x, some y, none, none =>
      if c = '=' ∧ d = '=' ∧ rest = [] then some [UInt8.ofNat (x * 4 + y / 16)] else none
    | _, _, _, _ => none
  | [] => some []
  | _ => none

theorem standardValue_b64Char : ∀ n < 64, standardValue (toStandard (b64Char n)) = some n := by
  decide +kernel

theorem standardValue_pad : standardValue '=' = none := by decide

theorem ofNat_eq {n : ℕ} {a : UInt8} (h : n = a.toNat) : UInt8.ofNat n = a := by
  rw [h]
  exact UInt8.ofNat_toNat

/-- **What was encoded over the standard alphabet is decoded.** -/
theorem standardDecode_standardEncode (x : Bytes) : standardDecode (standardEncode x) = some x := by
  induction x using b64encode.induct with
  | case1 a b c rest ih =>
    have := a.toNat_lt
    have := b.toNat_lt
    have := c.toNat_lt
    rw [standardEncode] at ih ⊢
    simp only [b64encode, List.map_cons, standardDecode,
      standardValue_b64Char _ (show a.toNat / 4 < 64 by omega),
      standardValue_b64Char _ (show a.toNat % 4 * 16 + b.toNat / 16 < 64 by omega),
      standardValue_b64Char _ (show b.toNat % 16 * 4 + c.toNat / 64 < 64 by omega),
      standardValue_b64Char _ (show c.toNat % 64 < 64 by omega), ih, Option.map_some]
    rw [ofNat_eq (a := a) (by omega), ofNat_eq (a := b) (by omega), ofNat_eq (a := c) (by omega)]
  | case2 a b =>
    have := a.toNat_lt
    have := b.toNat_lt
    have hpad : toStandard '=' = '=' := by decide
    simp only [standardEncode, b64encode, List.map_cons, List.map_nil, standardDecode,
      standardValue_b64Char _ (show a.toNat / 4 < 64 by omega),
      standardValue_b64Char _ (show a.toNat % 4 * 16 + b.toNat / 16 < 64 by omega),
      standardValue_b64Char _ (show b.toNat % 16 * 4 < 64 by omega), hpad, standardValue_pad,
      and_self, if_true]
    rw [ofNat_eq (a := a) (by omega), ofNat_eq (a := b) (by omega)]
  | case3 a =>
    have := a.toNat_lt
    have hpad : toStandard '=' = '=' := by decide
    simp only [standardEncode, b64encode, List.map_cons, List.map_nil, standardDecode,
      standardValue_b64Char _ (show a.toNat / 4 < 64 by omega),
      standardValue_b64Char _ (show a.toNat % 4 * 16 < 64 by omega), hpad, standardValue_pad,
      and_self, if_true]
    rw [ofNat_eq (a := a) (by omega)]
  | case4 => rfl

end BaseN
