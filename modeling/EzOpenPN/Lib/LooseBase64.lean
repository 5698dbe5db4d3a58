import EzOpenPN.Lib.BaseN

/-!
# Reading base64 leniently

The decoder of Python's `binascii`, outside its strict mode. It goes through a text character by
character and skips what is not in the alphabet, so that many texts decode to one byte string; the
padding ends the text as soon as it fills a group of four.

Two facts are needed of it. An encoded byte string whose padding was taken off and filled up again
by the length of the text decodes to itself (`BaseN.a2b_stripPad`); and of a text over the alphabet
the number of its characters says whether it decodes, and to how many bytes (`BaseN.a2b_pure`).
-/

namespace BaseN

/-- **`binascii.a2b_base64`.** So many characters of the group of four have been read, so many bits of
the last one are left over, as a number, and so much padding has been seen since. -/
def a2b : (quad left pads : ℕ) → List Char → Option Bytes
  | quad, _, _, [] => if quad = 0 then some [] else none
  | quad, left, pads, c :: text =>
    if c = '=' then
      if 2 ≤ quad then
        if 4 ≤ quad + (pads + 1) then some [] else a2b quad left (pads + 1) text
      else a2b quad left pads text
    else
      match standardValue c with
      | none => a2b quad left pads text
      | some v =>
        match quad with
        | 0 => a2b 1 v 0 text
        | 1 => (a2b 2 (v % 16) 0 text).map fun bytes => UInt8.ofNat (left * 4 + v / 16) :: bytes
        | 2 => (a2b 3 (v % 4) 0 text).map fun bytes => UInt8.ofNat (left * 16 + v / 4) :: bytes
        | _ => (a2b 0 0 0 text).map fun bytes => UInt8.ofNat (left * 64 + v) :: bytes

/-- **`base64.urlsafe_b64decode`** of a text; `none` is `ValueError`. -/
def urlsafeB64decode (text : List Char) : Option Bytes :=
  if text.all fun c => decide (c.toNat < 128) then a2b 0 0 0 (text.map toStandard) else none

/-- `-n % 4`. -/
def missing (n : ℕ) : ℕ := (4 - n % 4) % 4

/-- `text + "=" * (-len(text) % 4)`. -/
def refill (text : List Char) : List Char := text ++ List.replicate (missing text.length) '='

section

variable {quad left pads : ℕ} {c : Char} {text : List Char} {x : Bytes}

/-! ### One character -/

/-- The padding of a group that has two characters or three. -/
theorem a2b_padding (hquad : quad = 2 ∨ quad = 3) (left : ℕ) :
    a2b quad left 0 (List.replicate (missing quad) '=') = some [] := by
  rcases hquad with rfl | rfl <;> simp [a2b, missing, List.replicate]

theorem a2b_cons_value {v : ℕ} (hc : c ≠ '=') (hv : standardValue c = some v) :
    a2b quad left pads (c :: text) =
      match quad with
      | 0 => a2b 1 v 0 text
      | 1 => (a2b 2 (v % 16) 0 text).map fun bytes => UInt8.ofNat (left * 4 + v / 16) :: bytes
      | 2 => (a2b 3 (v % 4) 0 text).map fun bytes => UInt8.ofNat (left * 16 + v / 4) :: bytes
      | _ => (a2b 0 0 0 text).map fun bytes => UInt8.ofNat (left * 64 + v) :: bytes := by
  rw [a2b.eq_def]
  simp only [if_neg hc, hv]

/-- A character of the alphabet is the one of its digit. -/
theorem exists_b64Char (hc : c ∈ b64Alphabet) : ∃ n < 64, b64Char n = c := by
  obtain ⟨n, hn, rfl⟩ := List.getElem_of_mem hc
  exact ⟨n, hn, b64Char_eq_getElem hn⟩

theorem exists_standardValue (hc : c ∈ b64Alphabet) : ∃ v, standardValue (toStandard c) = some v := by
  obtain ⟨n, hn, rfl⟩ := exists_b64Char hc
  exact ⟨n, standardValue_b64Char n hn⟩

theorem toStandard_ne_pad (hc : c ∈ b64Alphabet) : toStandard c ≠ '=' := by
  intro h
  obtain ⟨v, hv⟩ := exists_standardValue hc
  rw [h, standardValue_pad] at hv
  cases hv

theorem lt_of_mem_b64Alphabet (hc : c ∈ b64Alphabet) : c.toNat < 128 := by
  obtain ⟨n, hn, rfl⟩ := exists_b64Char hc
  have hall : ∀ n < 64, (b64Char n).toNat < 128 := by decide +kernel
  exact hall n hn

/-! ### Texts over the alphabet -/

/-- The number of bytes that are complete after so many characters. -/
def complete (n : ℕ) : ℕ := n * 3 / 4

/-- **A text over the alphabet**, from the middle of a group: unless one character is left over, it
decodes, and its length tells to how many bytes. -/
theorem a2b_alphabet (htext : ∀ c ∈ text, c ∈ b64Alphabet) (hquad : quad < 4) :
    if (quad + text.length) % 4 = 1 then
      a2b quad left 0 (text.map toStandard ++ List.replicate (missing (quad + text.length)) '=') = none
    else ∃ bytes,
      a2b quad left 0 (text.map toStandard ++ List.replicate (missing (quad + text.length)) '=') =
        some bytes ∧ bytes.length = complete (quad + text.length) - complete quad := by
  induction text generalizing quad left with
  | nil =>
    have hcases : quad = 0 ∨ quad = 1 ∨ quad = 2 ∨ quad = 3 := by omega
    rcases hcases with rfl | rfl | rfl | rfl <;> simp [a2b, missing, List.replicate, complete]
  | cons c text ih =>
    obtain ⟨v, hv⟩ := exists_standardValue (htext c List.mem_cons_self)
    have hne := toStandard_ne_pad (htext c List.mem_cons_self)
    have htail := fun quad left => @ih quad left fun c' hc' => htext c' (List.mem_cons_of_mem _ hc')
    have hcases : quad = 0 ∨ quad = 1 ∨ quad = 2 ∨ quad = 3 := by omega
    rw [List.map_cons, List.cons_append, a2b_cons_value hne hv, List.length_cons]
    rcases hcases with rfl | rfl | rfl | rfl
    · have h := htail 1 v (by decide)
      rw [show 0 + (text.length + 1) = 1 + text.length by omega]
      exact h
    · have h := htail 2 (v % 16) (by decide)
      rw [show 1 + (text.length + 1) = 2 + text.length by omega]
      split_ifs at h ⊢
      · rw [h]
        rfl
      · obtain ⟨bytes, hbytes, hlength⟩ := h
        refine ⟨_, by rw [hbytes]; rfl, ?_⟩
        simp only [complete, List.length_cons, hlength]
        omega
    · have h := htail 3 (v % 4) (by decide)
      rw [show 2 + (text.length + 1) = 3 + text.length by omega]
      split_ifs at h ⊢
      · rw [h]
        rfl
      · obtain ⟨bytes, hbytes, hlength⟩ := h
        refine ⟨_, by rw [hbytes]; rfl, ?_⟩
        simp only [complete, List.length_cons, hlength]
        omega
    · have h := htail 0 0 (by decide)
      have hmissing : missing (3 + (text.length + 1)) = missing (0 + text.length) := by
        simp only [missing]
        omega
      have hmod : (3 + (text.length + 1)) % 4 = (0 + text.length) % 4 := by omega
      rw [hmissing, hmod]
      split_ifs at h ⊢
      · rw [h]
        rfl
      · obtain ⟨bytes, hbytes, hlength⟩ := h
        refine ⟨_, by rw [hbytes]; rfl, ?_⟩
        simp only [complete, List.length_cons, hlength]
        omega

theorem toStandard_pad : toStandard '=' = '=' := by decide

/-- A text over the alphabet is ASCII, and keeps its padding. -/
theorem urlsafeB64decode_refill (htext : ∀ c ∈ text, c ∈ b64Alphabet) :
    urlsafeB64decode (refill text) = a2b 0 0 0
      (text.map toStandard ++ List.replicate (missing (0 + text.length)) '=') := by
  have hascii : ((refill text).all fun c => decide (c.toNat < 128)) = true := by
    rw [refill, List.all_append, Bool.and_eq_true, List.all_eq_true, List.all_eq_true]
    refine ⟨fun c hc => decide_eq_true (lt_of_mem_b64Alphabet (htext c hc)), fun c hc => ?_⟩
    rw [List.eq_of_mem_replicate hc]
    decide
  rw [urlsafeB64decode, if_pos hascii, refill, List.map_append, List.map_replicate, toStandard_pad,
    Nat.zero_add]

/-- **A text over the alphabet decodes by its length.** -/
theorem a2b_pure (htext : ∀ c ∈ text, c ∈ b64Alphabet) (n : ℕ) :
    (∃ bytes, urlsafeB64decode (refill text) = some bytes ∧ bytes.length = n) ↔
      text.length % 4 ≠ 1 ∧ complete text.length = n := by
  have h := @a2b_alphabet 0 0 text htext (by decide)
  rw [urlsafeB64decode_refill htext]
  rw [Nat.zero_add] at h ⊢
  constructor
  · rintro ⟨bytes, hbytes, hlength⟩
    split_ifs at h with hmod
    · rw [hbytes] at h
      cases h
    · obtain ⟨bytes', hbytes', hlength'⟩ := h
      rw [hbytes] at hbytes'
      obtain rfl := Option.some.inj hbytes'
      refine ⟨hmod, ?_⟩
      rw [← hlength, hlength', complete]
      rfl
  · rintro ⟨hmod, rfl⟩
    rw [if_neg hmod] at h
    exact h

/-! ### What was encoded -/

section Digits

variable {n : ℕ}

theorem a2b_zero (hn : n < 64) :
    a2b 0 left pads (toStandard (b64Char n) :: text) = a2b 1 n 0 text :=
  a2b_cons_value (toStandard_ne_pad (b64Char_mem n)) (standardValue_b64Char n hn)

theorem a2b_one (hn : n < 64) : a2b 1 left pads (toStandard (b64Char n) :: text) =
    (a2b 2 (n % 16) 0 text).map fun bytes => UInt8.ofNat (left * 4 + n / 16) :: bytes :=
  a2b_cons_value (toStandard_ne_pad (b64Char_mem n)) (standardValue_b64Char n hn)

theorem a2b_two (hn : n < 64) : a2b 2 left pads (toStandard (b64Char n) :: text) =
    (a2b 3 (n % 4) 0 text).map fun bytes => UInt8.ofNat (left * 16 + n / 4) :: bytes :=
  a2b_cons_value (toStandard_ne_pad (b64Char_mem n)) (standardValue_b64Char n hn)

theorem a2b_three (hn : n < 64) : a2b 3 left pads (toStandard (b64Char n) :: text) =
    (a2b 0 0 0 text).map fun bytes => UInt8.ofNat (left * 64 + n) :: bytes :=
  a2b_cons_value (toStandard_ne_pad (b64Char_mem n)) (standardValue_b64Char n hn)

end Digits

theorem a2b_standardEncode (x : Bytes) : a2b 0 0 0 (standardEncode x) = some x := by
  induction x using b64encode.induct with
  | case1 a b c rest ih =>
    have := a.toNat_lt
    have := b.toNat_lt
    have := c.toNat_lt
    rw [standardEncode] at ih ⊢
    simp only [b64encode, List.map_cons]
    rw [a2b_zero (by omega), a2b_one (by omega), a2b_two (by omega), a2b_three (by omega), ih,
      Option.map_some, Option.map_some, Option.map_some, ofNat_eq (show _ = a.toNat by omega),
      ofNat_eq (show _ = b.toNat by omega), ofNat_eq (show _ = c.toNat by omega)]
  | case2 a b =>
    have := a.toNat_lt
    have := b.toNat_lt
    have hpad := a2b_padding (Or.inr rfl) (b.toNat % 16 * 4 % 4)
    rw [show List.replicate (missing 3) '=' = ['='] from rfl] at hpad
    simp only [standardEncode, b64encode, List.map_cons, List.map_nil, toStandard_pad]
    rw [a2b_zero (by omega), a2b_one (by omega), a2b_two (by omega), hpad, Option.map_some,
      Option.map_some, ofNat_eq (show _ = a.toNat by omega), ofNat_eq (show _ = b.toNat by omega)]
  | case3 a =>
    have := a.toNat_lt
    have hpad := a2b_padding (Or.inl rfl) (a.toNat % 4 * 16 % 16)
    rw [show List.replicate (missing 2) '=' = ['=', '='] from rfl] at hpad
    simp only [standardEncode, b64encode, List.map_cons, List.map_nil, toStandard_pad]
    rw [a2b_zero (by omega), a2b_one (by omega), hpad, Option.map_some,
      ofNat_eq (show _ = a.toNat by omega)]
  | case4 => rfl

/-- Filling up brings back what was taken off. -/
theorem refill_stripPad (x : Bytes) : refill (stripPad (b64encode x)) = b64encode x := by
  obtain ⟨u, hu, hne⟩ := b64encode_eq_digits x
  have hstrip : stripPad (b64encode x) = u := by
    rw [hu, stripPad_append_of_ne fun d hd => hne d (List.mem_of_mem_getLast? hd)]
  have hlength := length_stripPad_b64encode x
  rw [hstrip] at hlength
  have hmissing : missing u.length = b64Pad x.length := by
    have hcases : x.length % 3 = 0 ∨ x.length % 3 = 1 ∨ x.length % 3 = 2 := by omega
    rw [missing, b64Pad, hlength]
    rcases hcases with h | h | h
    · rw [show (4 * x.length + 2) / 3 = 4 * (x.length / 3) by omega, h]
      omega
    · rw [show (4 * x.length + 2) / 3 = 4 * (x.length / 3) + 2 by omega, h]
      omega
    · rw [show (4 * x.length + 2) / 3 = 4 * (x.length / 3) + 3 by omega, h]
      omega
  rw [hstrip, refill, hmissing, hu]

/-- **What was encoded without its padding decodes.** -/
theorem a2b_stripPad (x : Bytes) :
    urlsafeB64decode (refill (stripPad (b64encode x))) = some x := by
  have hascii : ((b64encode x).all fun c => decide (c.toNat < 128)) = true := by
    rw [List.all_eq_true]
    intro c hc
    refine decide_eq_true ?_
    rcases mem_b64encode hc with hc | rfl
    · exact lt_of_mem_b64Alphabet hc
    · decide
  rw [refill_stripPad, urlsafeB64decode, if_pos hascii]
  exact a2b_standardEncode x

end

end BaseN
