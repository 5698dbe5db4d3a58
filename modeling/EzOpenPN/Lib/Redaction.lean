import Mathlib

/-!
# Replacing what must not be seen

A redaction runs over a text from the left. At every position it asks a *finder* whether something
to be hidden starts there; if so, it may keep a part in front of it, writes a marker in its place
and goes on behind it (`Redaction.redactAll`). The marker is an opening delimiter, a word and a
closing delimiter, and that is what makes redactions compose: a pattern that contains neither
delimiter cannot reach into a marker from outside, so what a redaction has removed is not put
together again by the marker of a later one.

Two relations between a text and its redacted form carry this:

* `Redaction.Scan` remembers the finder, what was found where and that nothing was found anywhere
  else; every run of a sound finder is one (`Redaction.scan_redactAll`);
* `Redaction.Masks` forgets all of that except the first character of what was hidden. Every scan
  is one, in particular one whose finder keeps a part of what it finds.

The rules are `Redaction.Masks.suffixes` – a property of the text read from any position on, kept
by whatever only masks – and `Redaction.Scan.suffixes`, where it is the finder that establishes it.
-/

namespace Redaction

variable {α : Type}

/-! ### Occurrences beside a delimiter -/

theorem prefix_before_delimiter {w u v : List α} {c : α} (hc : c ∉ w)
    (h : w <+: u ++ c :: v) : w <+: u := by
  induction w generalizing u with
  | nil => exact List.nil_prefix
  | cons a w ih =>
    cases u with
    | nil =>
      obtain ⟨rfl, -⟩ := List.cons_prefix_cons.mp h
      exact absurd List.mem_cons_self hc
    | cons b u =>
      rw [List.cons_append] at h
      obtain ⟨rfl, hrest⟩ := List.cons_prefix_cons.mp h
      exact List.cons_prefix_cons.mpr ⟨rfl, ih (fun hmem => hc (List.mem_cons_of_mem _ hmem)) hrest⟩

/-- A suffix of two texts in a row starts in the first one or in the second. -/
theorem suffix_append_cases {s u v : List α} (h : s <:+ u ++ v) :
    s <:+ v ∨ ∃ t, t ≠ [] ∧ s = t ++ v ∧ t <:+ u := by
  induction u with
  | nil => exact .inl h
  | cons a u ih =>
    rcases List.suffix_cons_iff.mp h with rfl | h
    · exact .inr ⟨a :: u, List.cons_ne_nil _ _, rfl, List.suffix_refl _⟩
    · rcases ih h with h | ⟨t, hne, rfl, ht⟩
      · exact .inl h
      · exact .inr ⟨t, hne, rfl, ht.trans (List.suffix_cons _ _)⟩

theorem not_infix_iff {w l : List α} : ¬w <:+: l ↔ ∀ s, s <:+ l → ¬w <+: s := by
  rw [List.infix_iff_prefix_suffix]
  exact ⟨fun h s hs hw => h ⟨s, hw, hs⟩, fun h ⟨s, hw, hs⟩ => h s hs hw⟩

/-! ### Redacting -/

/-- What to hide at the start of a text, if anything: a part that is kept, and what follows it
and is hidden. -/
abbrev Finder (α : Type) := List α → Option (List α × List α)

/-- **A finder is sound** if it finds what is there, and something. -/
def Finder.Sound (find : Finder α) : Prop :=
  ∀ l kept hidden, find l = some (kept, hidden) → hidden ≠ [] ∧ kept ++ hidden <+: l

/-- Redact a text of which the first characters have been dealt with. -/
def redactFrom (marker : List α) (find : Finder α) : ℕ → List α → List α
  | _, [] => []
  | n + 1, _ :: l => redactFrom marker find n l
  | 0, a :: l =>
    match find (a :: l) with
    | none => a :: redactFrom marker find 0 l
    | some (kept, hidden) =>
      kept ++ (marker ++ redactFrom marker find (kept.length + hidden.length - 1) l)

/-- **Redact a text**: from the left, at every place where the finder finds something. -/
def redactAll (marker : List α) (find : Finder α) (l : List α) : List α :=
  redactFrom marker find 0 l

section Scan

variable {marker : List α} {find : Finder α}

theorem redactFrom_eq_drop (n : ℕ) (l : List α) :
    redactFrom marker find n l = redactAll marker find (l.drop n) := by
  induction l generalizing n with
  | nil => simp [redactFrom, redactAll]
  | cons a l ih =>
    cases n with
    | zero => rfl
    | succ n => rw [redactFrom, ih, List.drop_succ_cons]

/-- **A text and its redacted form**, with what was found on the way. -/
inductive Scan (marker : List α) (find : Finder α) : List α → List α → Prop
  | nil : Scan marker find [] []
  | keep {a : α} {l out : List α} (hnone : find (a :: l) = none) (h : Scan marker find l out) :
      Scan marker find (a :: l) (a :: out)
  | hide {kept hidden l out : List α} (hne : hidden ≠ [])
      (hsome : find (kept ++ (hidden ++ l)) = some (kept, hidden)) (h : Scan marker find l out) :
      Scan marker find (kept ++ (hidden ++ l)) (kept ++ (marker ++ out))

/-- **Every redaction is a scan.** -/
theorem scan_redactAll (hsound : find.Sound) (l : List α) :
    Scan marker find l (redactAll marker find l) := by
  obtain ⟨n, hn⟩ : ∃ n, l.length ≤ n := ⟨_, le_rfl⟩
  -- what is left gets shorter, by the characters that were found if any were
  induction n generalizing l with
  | zero =>
    obtain rfl := List.length_eq_zero_iff.mp (Nat.le_zero.mp hn)
    exact .nil
  | succ n ih =>
    cases l with
    | nil => exact .nil
    | cons a l =>
      rw [redactAll, redactFrom]
      rcases hfind : find (a :: l) with _ | ⟨kept, hidden⟩
      · exact .keep hfind (ih l (Nat.le_of_succ_le_succ hn))
      · obtain ⟨hne, rest, hrest⟩ := hsound _ _ _ hfind
        dsimp only
        have hpos : 0 < kept.length + hidden.length :=
          Nat.add_pos_right _ (List.length_pos_iff.mpr hne)
        have hdrop : l.drop (kept.length + hidden.length - 1) = rest := by
          have hcons : (a :: l).drop (kept.length + hidden.length) = rest := by
            rw [← hrest, ← List.length_append, List.drop_left]
          rwa [← Nat.succ_pred_eq_of_pos hpos, List.drop_succ_cons] at hcons
        have hlen : rest.length ≤ n := by
          rw [← hdrop, List.length_drop]
          simp only [List.length_cons] at hn
          omega
        rw [List.append_assoc] at hrest
        rw [redactFrom_eq_drop, hdrop, ← hrest]
        exact .hide hne (hrest ▸ hfind) (ih rest hlen)

/-- **A redaction that finds only its own markers changes nothing.** -/
theorem redactAll_eq_self (hsound : find.Sound) {l : List α}
    (h : ∀ s, s <:+ l → ∀ kept hidden, find s = some (kept, hidden) → hidden = marker) :
    redactAll marker find l = l := by
  suffices ∀ out, Scan marker find l out → out = l from this _ (scan_redactAll hsound l)
  intro out hscan
  induction hscan with
  | nil => rfl
  | keep _ _ ih => rw [ih fun s hs => h s (hs.trans (List.suffix_cons _ _))]
  | @hide kept hidden l out _ hsome _ ih =>
    have hsuffix : l <:+ kept ++ (hidden ++ l) :=
      (List.suffix_append hidden l).trans (List.suffix_append kept _)
    rw [ih fun s hs => h s (hs.trans hsuffix), h _ (List.suffix_refl _) _ _ hsome]

/-- In particular, one that finds nothing. -/
theorem redactAll_of_none (hsound : find.Sound) {l : List α} (h : ∀ s, s <:+ l → find s = none) :
    redactAll marker find l = l :=
  redactAll_eq_self hsound fun s hs kept hidden hfind => by
    rw [h s hs] at hfind
    exact absurd hfind (by simp)

end Scan

/-! ### Masking -/

/-- **A text of which some pieces were masked**, each of which started with a character of the
given kind. -/
inductive Masks (marker : List α) (masked : α → Prop) : List α → List α → Prop
  | nil : Masks marker masked [] []
  | keep (a : α) {l out : List α} (h : Masks marker masked l out) :
      Masks marker masked (a :: l) (a :: out)
  | mask {a : α} (ha : masked a) (x : List α) {l out : List α} (h : Masks marker masked l out) :
      Masks marker masked (a :: (x ++ l)) (marker ++ out)

section Masks

variable {marker : List α} {masked : α → Prop} {find : Finder α} {l out : List α}

theorem Masks.append (k : List α) (h : Masks marker masked l out) :
    Masks marker masked (k ++ l) (k ++ out) := by
  induction k with
  | nil => exact h
  | cons a k ih => exact .keep a ih

/-- **A scan masks**, and what it masks starts as everything does that the finder hides. -/
theorem Scan.masks (h : Scan marker find l out)
    (hfind : ∀ l kept hidden, find l = some (kept, hidden) → ∀ a ∈ hidden.head?, masked a) :
    Masks marker masked l out := by
  induction h with
  | nil => exact .nil
  | keep _ _ ih => exact .keep _ ih
  | @hide kept hidden l out hne hsome _ ih =>
    obtain ⟨a, x, rfl⟩ := List.exists_cons_of_ne_nil hne
    exact (Masks.mask (hfind _ _ _ hsome a rfl) x ih).append kept

variable {opening closing : α} {word : List α}

/-- **What stands before the next opening delimiter was not masked.** -/
theorem Masks.of_append {p rest : List α}
    (h : Masks (opening :: (word ++ [closing])) masked l (p ++ rest)) (hp : opening ∉ p) :
    ∃ l', l = p ++ l' ∧ Masks (opening :: (word ++ [closing])) masked l' rest := by
  induction p generalizing l with
  | nil => exact ⟨l, rfl, h⟩
  | cons b p ih =>
    rw [List.mem_cons, not_or] at hp
    generalize hout : b :: p ++ rest = out at h
    cases h with
    | nil => simp at hout
    | keep a h =>
      obtain ⟨rfl, rfl⟩ := List.cons.inj hout
      obtain ⟨l', rfl, hl'⟩ := ih h hp.2
      exact ⟨l', rfl, hl'⟩
    | mask ha x h =>
      obtain ⟨rfl, -⟩ := List.cons.inj hout
      exact absurd rfl hp.1

/-- **What follows, if it is not a marker, is there in the text**; and if it is one, something of
the masked kind is. -/
theorem Masks.of_cons {d : α} {rest : List α}
    (h : Masks (opening :: (word ++ [closing])) masked l (d :: rest)) :
    ∃ a l', l = a :: l' ∧ (a = d ∨ masked a) := by
  generalize hout : d :: rest = out at h
  cases h with
  | nil => simp at hout
  | keep a h => exact ⟨a, _, rfl, .inl (List.cons.inj hout).1.symm⟩
  | mask ha x h => exact ⟨_, _, rfl, .inr ha⟩

/-- **Masking keeps a property of every suffix**, if it is kept where the text is kept and cannot
fail from inside a marker on. -/
theorem Masks.suffixes {bad : List α → Prop} (h : Masks marker masked l out)
    (hkeep : ∀ l out, Masks marker masked l out → bad out → bad l)
    (hmarker : ∀ s out, s ≠ [] → s <:+ marker → ¬bad (s ++ out))
    (hl : ∀ s, s <:+ l → ¬bad s) : ∀ s, s <:+ out → ¬bad s := by
  induction h with
  | nil => exact hl
  | @keep a l out h ih =>
    intro s hs
    rcases List.suffix_cons_iff.mp hs with rfl | hs
    · exact fun hbad => hl _ (List.suffix_refl _) (hkeep _ _ (.keep a h) hbad)
    · exact ih (fun s hs => hl s (hs.trans (List.suffix_cons _ _))) s hs
  | @mask a ha x l out h ih =>
    intro s hs
    rcases suffix_append_cases hs with hs | ⟨t, hne, rfl, ht⟩
    · exact ih (fun s hs => hl s ((hs.trans (List.suffix_append x l)).trans
        (List.suffix_cons _ _))) s hs
    · exact hmarker t out hne ht

variable (masked) in
/-- **A scan establishes a property of every suffix**, if it holds where the finder found nothing,
and from every place on inside what it wrote. -/
theorem Scan.suffixes {bad : List α → Prop} (h : Scan marker find l out)
    (hfind : ∀ l kept hidden, find l = some (kept, hidden) → ∀ a ∈ hidden.head?, masked a)
    (hnil : ¬bad [])
    (hkeep : ∀ l out, find l = none → Masks marker masked l out → ¬bad out)
    (hhide : ∀ kept hidden l out, find (kept ++ (hidden ++ l)) = some (kept, hidden) →
      Masks marker masked l out → ∀ s, s ≠ [] → s <:+ kept ++ marker → ¬bad (s ++ out)) :
    ∀ s, s <:+ out → ¬bad s := by
  induction h with
  | nil =>
    intro s hs
    rwa [List.suffix_nil.mp hs]
  | @keep a l out hnone h ih =>
    intro s hs
    rcases List.suffix_cons_iff.mp hs with rfl | hs
    · exact hkeep _ _ hnone (.keep a (h.masks hfind))
    · exact ih s hs
  | @hide kept hidden l out hne hsome h ih =>
    intro s hs
    rw [← List.append_assoc] at hs
    rcases suffix_append_cases hs with hs | ⟨t, htne, rfl, ht⟩
    · exact ih s hs
    · exact hhide kept hidden l out hsome (h.masks hfind) t htne ht

/-! ### Patterns without delimiters -/

/-- **A pattern that fits no marker**: neither delimiter is in it, and it is no part of the
word. -/
structure Foreign (opening closing : α) (word w : List α) : Prop where
  opening : opening ∉ w
  closing : closing ∉ w
  word : ¬w <:+: word

/-- Such a pattern starts nowhere in a marker. -/
theorem Foreign.absent {w : List α} (h : Foreign opening closing word w) {s rest : List α}
    (hne : s ≠ []) (hs : s <:+ opening :: (word ++ [closing])) : ¬w <+: s ++ rest := by
  intro hw
  rcases List.suffix_cons_iff.mp hs with rfl | hs
  · cases w with
    | nil => exact h.word List.nil_infix
    | cons a w => exact h.opening ((List.cons_prefix_cons.mp hw).1 ▸ List.mem_cons_self)
  · obtain ⟨t, rfl, ht⟩ : ∃ t, s = t ++ [closing] ∧ t <:+ word := by
      rcases suffix_append_cases hs with hs | ⟨t, -, rfl, ht⟩
      · rcases List.suffix_cons_iff.mp hs with rfl | hs
        · exact ⟨[], rfl, List.nil_suffix⟩
        · exact absurd (List.suffix_nil.mp hs) hne
      · exact ⟨t, rfl, ht⟩
    rw [List.append_assoc] at hw
    exact h.word ((prefix_before_delimiter h.closing hw).isInfix.trans ht.isInfix)

/-- **Masking does not put such a pattern together.** -/
theorem Masks.spares {w : List α} (hw : Foreign opening closing word w)
    (h : Masks (opening :: (word ++ [closing])) masked l out) (hl : ¬w <:+: l) : ¬w <:+: out := by
  rw [not_infix_iff] at hl ⊢
  refine h.suffixes (fun l out hmasks hpre => ?_) (fun s out hne hs => hw.absent hne hs) hl
  obtain ⟨rest, rfl⟩ := hpre
  obtain ⟨l', rfl, -⟩ := hmasks.of_append hw.opening
  exact List.prefix_append w l'

section Literal

variable [DecidableEq α]

/-- The finder of one text. -/
def literal (w : List α) : Finder α := fun l => if w <+: l then some ([], w) else none

theorem literal_eq_some {w l kept hidden : List α} :
    literal w l = some (kept, hidden) ↔ w <+: l ∧ kept = [] ∧ hidden = w := by
  rw [literal, Option.ite_none_right_eq_some, Option.some.injEq, Prod.mk.injEq, eq_comm (a := []),
    eq_comm (a := w)]

theorem literal_sound {w : List α} (hne : w ≠ []) : (literal w).Sound := by
  intro l kept hidden h
  obtain ⟨hpre, rfl, rfl⟩ := literal_eq_some.mp h
  exact ⟨hne, hpre⟩

/-- **Replacing a text leaves no occurrence of it.** -/
theorem not_infix_redactAll_literal {w : List α} (hw : Foreign opening closing word w)
    (l : List α) : ¬w <:+: redactAll (opening :: (word ++ [closing])) (literal w) l := by
  have hne : w ≠ [] := by
    rintro rfl
    exact hw.word List.nil_infix
  rw [not_infix_iff]
  refine (scan_redactAll (literal_sound hne) l).suffixes (fun _ => True)
    (fun _ _ _ _ _ _ => trivial) (fun h => hne (List.prefix_nil.mp h))
    (fun l out hnone hmasks hpre => ?_) fun kept hidden l out hsome _ s hsne hs => ?_
  · obtain ⟨rest, rfl⟩ := hpre
    obtain ⟨l', rfl, -⟩ := hmasks.of_append hw.opening
    rw [literal, if_pos (List.prefix_append w l')] at hnone
    exact absurd hnone (by simp)
  · obtain ⟨-, rfl, -⟩ := literal_eq_some.mp hsome
    exact hw.absent hsne hs

end Literal

end Masks

end Redaction
