import EzOpenPN.Lib.BaseN

/-!
# The bits of a byte string, and base32 as a regrouping of them

Base32 takes bytes as one row of bits, highest first, and cuts the row into digits of five
instead of eight. `BaseN.flatMap_bitsOf_b32Digits` says so for byte strings of every length:
written out again, the digits of a text are the bits of its bytes, with at most four zeros
behind them.

What follows is the statement a truncated text needs. The first `k` characters of two texts
agree exactly when the first `5 * k` bits of the bytes do (`BaseN.take_b32Digits_eq_iff`),
whichever bytes the cut goes through.
-/

namespace BaseN

/-! ### Bits -/

/-- The lowest `w` bits of a number, highest first. -/
def bitsOf : ℕ → ℕ → List Bool
  | 0, _ => []
  | w + 1, n => n.testBit w :: bitsOf w n

/-- The bits of a byte string. -/
def bits (x : Bytes) : List Bool := x.flatMap fun b => bitsOf 8 b.toNat

@[simp] theorem length_bitsOf (w n : ℕ) : (bitsOf w n).length = w := by
  induction w with
  | zero => rfl
  | succ w ih => rw [bitsOf, List.length_cons, ih]

@[simp] theorem length_bits (x : Bytes) : (bits x).length = 8 * x.length := by
  induction x with
  | nil => rfl
  | cons b x ih =>
    rw [bits, List.flatMap_cons, List.length_append, length_bitsOf, ← bits, ih, List.length_cons]
    omega

theorem bitsOf_zero (w : ℕ) : bitsOf w 0 = List.replicate w false := by
  induction w with
  | zero => rfl
  | succ w ih => rw [bitsOf, ih, Nat.zero_testBit, List.replicate_succ]

/-- The bits of a number depend on nothing above them. -/
theorem bitsOf_congr {w m n : ℕ} (h : m % 2 ^ w = n % 2 ^ w) : bitsOf w m = bitsOf w n := by
  have hbit : ∀ k ≤ w, bitsOf k m = bitsOf k n := by
    intro k
    induction k with
    | zero => exact fun _ => rfl
    | succ k ih =>
      intro hk
      have hm := Nat.testBit_mod_two_pow m w k
      have hn := Nat.testBit_mod_two_pow n w k
      rw [h, hn] at hm
      simp only [show k < w from hk, decide_true, Bool.true_and] at hm
      rw [bitsOf, bitsOf, hm, ih (by omega)]
  exact hbit w le_rfl

@[simp] theorem bitsOf_mod (w n : ℕ) : bitsOf w (n % 2 ^ w) = bitsOf w n :=
  bitsOf_congr (Nat.mod_mod n _)

/-- The bits of a number in two parts. -/
theorem bitsOf_add (a b n : ℕ) : bitsOf (a + b) n = bitsOf a (n / 2 ^ b) ++ bitsOf b n := by
  induction a with
  | zero => rw [Nat.zero_add, bitsOf, List.nil_append]
  | succ a ih =>
    rw [show a + 1 + b = a + b + 1 by omega, bitsOf, bitsOf, ih, List.cons_append,
      Nat.testBit_div_two_pow]

/-- The bits of a number put together from two parts. -/
theorem bitsOf_mul_add {a b n : ℕ} (m : ℕ) (h : n < 2 ^ b) :
    bitsOf (a + b) (m * 2 ^ b + n) = bitsOf a m ++ bitsOf b n := by
  rw [bitsOf_add, Nat.mul_comm, Nat.mul_add_div (Nat.two_pow_pos b), Nat.div_eq_of_lt h,
    Nat.add_zero]
  congr 1
  exact bitsOf_congr (Nat.mul_add_mod _ _ _)

/-- Only the low bits of the first number count. -/
theorem bitsOf_mod_mul_add {a b n : ℕ} (m : ℕ) (h : n < 2 ^ b) :
    bitsOf (a + b) (m % 2 ^ a * 2 ^ b + n) = bitsOf a m ++ bitsOf b n := by
  rw [bitsOf_mul_add _ h, bitsOf_mod]

/-- **A number is the bits below its bound.** -/
theorem bitsOf_injOn {w m n : ℕ} (hm : m < 2 ^ w) (hn : n < 2 ^ w)
    (h : bitsOf w m = bitsOf w n) : m = n := by
  have hbit : ∀ k, bitsOf k m = bitsOf k n → ∀ i < k, m.testBit i = n.testBit i := by
    intro k
    induction k with
    | zero => exact fun _ i hi => absurd hi (Nat.not_lt_zero i)
    | succ k ih =>
      intro hk i hi
      rw [bitsOf, bitsOf, List.cons.injEq] at hk
      rcases Nat.lt_succ_iff_lt_or_eq.mp hi with hi | rfl
      · exact ih hk.2 i hi
      · exact hk.1
  refine Nat.eq_of_testBit_eq fun i => ?_
  rcases Nat.lt_or_ge i w with hi | hi
  · exact hbit w h i hi
  · have hle : 2 ^ w ≤ 2 ^ i := Nat.pow_le_pow_right (by omega) hi
    rw [Nat.testBit_lt_two_pow (hm.trans_le hle), Nat.testBit_lt_two_pow (hn.trans_le hle)]

/-! ### Rows of blocks of one width -/

section Blocks

variable {α β : Type} {f : α → List β} {w : ℕ}

/-- The first blocks of a row. -/
theorem take_flatMap (hf : ∀ a, (f a).length = w) (l : List α) (k : ℕ) :
    (l.flatMap f).take (w * k) = (l.take k).flatMap f := by
  induction l generalizing k with
  | nil => simp
  | cons a l ih =>
    cases k with
    | zero => simp
    | succ k =>
      have hk : w * (k + 1) = (f a).length + w * k := by rw [hf, Nat.mul_succ, Nat.add_comm]
      rw [List.flatMap_cons, hk, List.take_length_add_append, ih, List.take_succ_cons,
        List.flatMap_cons]

/-- A row determines its blocks where the blocks determine what they stand for. -/
theorem flatMap_injOn (hf : ∀ a, (f a).length = w) {P : α → Prop}
    (hinj : ∀ a b, P a → P b → f a = f b → a = b) {l m : List α} (hlen : l.length = m.length)
    (hl : ∀ a ∈ l, P a) (hm : ∀ a ∈ m, P a) (h : l.flatMap f = m.flatMap f) : l = m := by
  induction l generalizing m with
  | nil => exact (List.length_eq_zero_iff.mp hlen.symm).symm
  | cons a l ih =>
    cases m with
    | nil => exact absurd hlen (by simp)
    | cons b m =>
      rw [List.flatMap_cons, List.flatMap_cons] at h
      obtain ⟨hhead, htail⟩ := List.append_inj h (by rw [hf, hf])
      have hab := hinj a b (hl a List.mem_cons_self) (hm b List.mem_cons_self) hhead
      rw [hab, ih (Nat.succ.inj hlen) (fun x hx => hl x (List.mem_cons_of_mem a hx))
        (fun x hx => hm x (List.mem_cons_of_mem b hx)) htail]

end Blocks

/-! ### The digits of a base32 text -/

/-- The eight digits of five bytes. -/
def b32GroupDigits (a b c d e : ℕ) : List ℕ :=
  [a / 8, a % 8 * 4 + b / 64, b / 2 % 32, b % 2 * 16 + c / 16, c % 16 * 2 + d / 128, d / 4 % 32,
    d % 4 * 8 + e / 32, e % 32]

/-- The digits of a base32 text, padding left out. -/
def b32Digits : Bytes → List ℕ
  | a :: b :: c :: d :: e :: rest =>
    b32GroupDigits a.toNat b.toNat c.toNat d.toNat e.toNat ++ b32Digits rest
  | [a, b, c, d] => (b32GroupDigits a.toNat b.toNat c.toNat d.toNat 0).take 7
  | [a, b, c] => (b32GroupDigits a.toNat b.toNat c.toNat 0 0).take 5
  | [a, b] => (b32GroupDigits a.toNat b.toNat 0 0 0).take 4
  | [a] => (b32GroupDigits a.toNat 0 0 0 0).take 2
  | [] => []

/-- The digits of five bytes are below thirty-two. -/
theorem lt_of_mem_b32GroupDigits {a b c d e n : ℕ} (ha : a < 256) (hb : b < 256) (hc : c < 256)
    (hd : d < 256) (he : e < 256) (h : n ∈ b32GroupDigits a b c d e) : n < 2 ^ 5 := by
  simp only [b32GroupDigits, List.mem_cons, List.not_mem_nil, or_false] at h
  omega

/-- **Five bytes are eight digits**: forty bits either way. -/
theorem flatMap_bitsOf_b32GroupDigits {a b c d e : ℕ} (hb : b < 256) (hc : c < 256) (hd : d < 256)
    (he : e < 256) : (b32GroupDigits a b c d e).flatMap (bitsOf 5) =
      bitsOf 8 a ++ bitsOf 8 b ++ bitsOf 8 c ++ bitsOf 8 d ++ bitsOf 8 e := by
  have h1 : bitsOf 5 (a % 8 * 4 + b / 64) = bitsOf 3 a ++ bitsOf 2 (b / 64) :=
    bitsOf_mod_mul_add (a := 3) (b := 2) a (by omega)
  have h3 : bitsOf 5 (b % 2 * 16 + c / 16) = bitsOf 1 b ++ bitsOf 4 (c / 16) :=
    bitsOf_mod_mul_add (a := 1) (b := 4) b (by omega)
  have h4 : bitsOf 5 (c % 16 * 2 + d / 128) = bitsOf 4 c ++ bitsOf 1 (d / 128) :=
    bitsOf_mod_mul_add (a := 4) (b := 1) c (by omega)
  have h6 : bitsOf 5 (d % 4 * 8 + e / 32) = bitsOf 2 d ++ bitsOf 3 (e / 32) :=
    bitsOf_mod_mul_add (a := 2) (b := 3) d (by omega)
  have ea : bitsOf 8 a = bitsOf 5 (a / 8) ++ bitsOf 3 a := bitsOf_add 5 3 a
  have eb : bitsOf 8 b = bitsOf 2 (b / 64) ++ (bitsOf 5 (b / 2 % 32) ++ bitsOf 1 b) := by
    have hmid : bitsOf 5 (b / 2 % 32) = bitsOf 5 (b / 2) := bitsOf_mod 5 (b / 2)
    have hlow : bitsOf 6 b = bitsOf 5 (b / 2) ++ bitsOf 1 b := bitsOf_add 5 1 b
    rw [hmid, ← hlow]
    exact bitsOf_add 2 6 b
  have ec : bitsOf 8 c = bitsOf 4 (c / 16) ++ bitsOf 4 c := bitsOf_add 4 4 c
  have ed : bitsOf 8 d = bitsOf 1 (d / 128) ++ (bitsOf 5 (d / 4 % 32) ++ bitsOf 2 d) := by
    have hmid : bitsOf 5 (d / 4 % 32) = bitsOf 5 (d / 4) := bitsOf_mod 5 (d / 4)
    have hlow : bitsOf 7 d = bitsOf 5 (d / 4) ++ bitsOf 2 d := bitsOf_add 5 2 d
    rw [hmid, ← hlow]
    exact bitsOf_add 1 7 d
  have ee : bitsOf 8 e = bitsOf 3 (e / 32) ++ bitsOf 5 (e % 32) := by
    have hlow : bitsOf 5 (e % 32) = bitsOf 5 e := bitsOf_mod 5 e
    rw [hlow]
    exact bitsOf_add 3 5 e
  rw [b32GroupDigits, ea, eb, ec, ed, ee]
  simp only [List.flatMap_cons, List.flatMap_nil, h1, h3, h4, h6, List.append_assoc,
    List.append_nil]

theorem lt_of_mem_b32Digits {x : Bytes} {n : ℕ} (h : n ∈ b32Digits x) : n < 2 ^ 5 := by
  induction x using b32Digits.induct with
  | case1 a b c d e rest ih =>
    rw [b32Digits, List.mem_append] at h
    exact h.elim (lt_of_mem_b32GroupDigits a.toNat_lt b.toNat_lt c.toNat_lt d.toNat_lt e.toNat_lt)
      ih
  | case2 a b c d =>
    exact lt_of_mem_b32GroupDigits a.toNat_lt b.toNat_lt c.toNat_lt d.toNat_lt (by omega)
      (List.mem_of_mem_take h)
  | case3 a b c =>
    exact lt_of_mem_b32GroupDigits a.toNat_lt b.toNat_lt c.toNat_lt (by omega) (by omega)
      (List.mem_of_mem_take h)
  | case4 a b =>
    exact lt_of_mem_b32GroupDigits a.toNat_lt b.toNat_lt (by omega) (by omega) (by omega)
      (List.mem_of_mem_take h)
  | case5 a =>
    exact lt_of_mem_b32GroupDigits a.toNat_lt (by omega) (by omega) (by omega) (by omega)
      (List.mem_of_mem_take h)
  | case6 => exact absurd h List.not_mem_nil

/-- The digits of a text are as many as its bits need. -/
theorem length_b32Digits (x : Bytes) : (b32Digits x).length = (8 * x.length + 4) / 5 := by
  induction x using b32Digits.induct with
  | case1 a b c d e rest ih =>
    rw [b32Digits, List.length_append, ih]
    simp only [b32GroupDigits, List.length_cons, List.length_nil]
    omega
  | case2 a b c d => simp [b32Digits, b32GroupDigits]
  | case3 a b c => simp [b32Digits, b32GroupDigits]
  | case4 a b => simp [b32Digits, b32GroupDigits]
  | case5 a => simp [b32Digits, b32GroupDigits]
  | case6 => rfl

/-- **The digits of a text are the bits of its bytes, regrouped**, with the zeros that fill the
last digit. -/
theorem flatMap_bitsOf_b32Digits (x : Bytes) : ∃ p < 5,
    (b32Digits x).flatMap (bitsOf 5) = bits x ++ List.replicate p false := by
  induction x using b32Digits.induct with
  | case1 a b c d e rest ih =>
    obtain ⟨p, hp, ih⟩ := ih
    refine ⟨p, hp, ?_⟩
    rw [b32Digits, List.flatMap_append, ih, flatMap_bitsOf_b32GroupDigits b.toNat_lt c.toNat_lt
      d.toNat_lt e.toNat_lt]
    simp only [bits, List.flatMap_cons, List.append_assoc]
  | case2 a b c d =>
    refine ⟨3, by omega, ?_⟩
    rw [b32Digits, ← take_flatMap (length_bitsOf 5), flatMap_bitsOf_b32GroupDigits b.toNat_lt
      c.toNat_lt d.toNat_lt (by omega), bitsOf_zero]
    rfl
  | case3 a b c =>
    refine ⟨1, by omega, ?_⟩
    rw [b32Digits, ← take_flatMap (length_bitsOf 5), flatMap_bitsOf_b32GroupDigits b.toNat_lt
      c.toNat_lt (by omega) (by omega), bitsOf_zero]
    rfl
  | case4 a b =>
    refine ⟨4, by omega, ?_⟩
    rw [b32Digits, ← take_flatMap (length_bitsOf 5), flatMap_bitsOf_b32GroupDigits b.toNat_lt
      (by omega) (by omega) (by omega), bitsOf_zero]
    rfl
  | case5 a =>
    refine ⟨2, by omega, ?_⟩
    rw [b32Digits, ← take_flatMap (length_bitsOf 5), flatMap_bitsOf_b32GroupDigits (by omega)
      (by omega) (by omega) (by omega), bitsOf_zero]
    rfl
  | case6 => exact ⟨0, by omega, rfl⟩

/-- The first digits of a text are its first bits. -/
theorem flatMap_bitsOf_take_b32Digits {x : Bytes} {k : ℕ} (hk : 5 * k ≤ 8 * x.length) :
    ((b32Digits x).take k).flatMap (bitsOf 5) = (bits x).take (5 * k) := by
  obtain ⟨p, -, hp⟩ := flatMap_bitsOf_b32Digits x
  rw [← take_flatMap (length_bitsOf 5), hp, List.take_append_of_le_length (by simpa using hk)]

/-- **Two texts begin with the same digits exactly when the bytes begin with the same bits.** -/
theorem take_b32Digits_eq_iff {x y : Bytes} {k : ℕ} (hx : 5 * k ≤ 8 * x.length)
    (hy : 5 * k ≤ 8 * y.length) :
    (b32Digits x).take k = (b32Digits y).take k ↔ (bits x).take (5 * k) = (bits y).take (5 * k) := by
  rw [← flatMap_bitsOf_take_b32Digits hx, ← flatMap_bitsOf_take_b32Digits hy]
  refine ⟨fun h => by rw [h], fun h => ?_⟩
  refine flatMap_injOn (P := fun n => n < 2 ^ 5) (length_bitsOf 5)
    (fun _ _ => bitsOf_injOn) ?_ (fun n hn => ?_) (fun n hn => ?_) h
  · rw [List.length_take, List.length_take, length_b32Digits, length_b32Digits]
    omega
  · exact lt_of_mem_b32Digits (List.mem_of_mem_take hn)
  · exact lt_of_mem_b32Digits (List.mem_of_mem_take hn)

/-! ### The text of the digits -/

/-- **A base32 text is its digits in the alphabet**, followed by padding. -/
theorem b32encode_eq_digits (x : Bytes) : ∃ p,
    b32encode x = (b32Digits x).map b32Char ++ List.replicate p '=' := by
  induction x using b32Digits.induct with
  | case1 a b c d e rest ih =>
    obtain ⟨p, ih⟩ := ih
    refine ⟨p, ?_⟩
    rw [b32encode, ih, b32Digits, List.map_append, List.append_assoc]
    rfl
  | case2 a b c d => exact ⟨1, rfl⟩
  | case3 a b c => exact ⟨3, rfl⟩
  | case4 a b => exact ⟨4, rfl⟩
  | case5 a => exact ⟨6, rfl⟩
  | case6 => exact ⟨0, rfl⟩

/-- Without its padding a base32 text is its digits in the alphabet. -/
theorem stripPad_b32encode (x : Bytes) : stripPad (b32encode x) = (b32Digits x).map b32Char := by
  obtain ⟨p, hp⟩ := b32encode_eq_digits x
  have hne : ∀ c ∈ ((b32Digits x).map b32Char).getLast?, c ≠ '=' := by
    rintro c hc rfl
    obtain ⟨n, -, hn⟩ := List.mem_map.mp (List.mem_of_mem_getLast? hc)
    exact absurd (hn ▸ b32Char_mem n : '=' ∈ b32Alphabet) (by decide)
  rw [hp, stripPad_append_of_ne hne]

end BaseN
