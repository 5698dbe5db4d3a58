import EzOpenPN.Json
import EzOpenPN.Lib.Redaction
import EzOpenPN.Profiles.Links

/-!
# Redacting the logs

Before a log leaves the host, `sanitize_logs.py` replaces the stored secrets, the share links and
the values of `token=`, `secret=` and `password=` by a marker. It is three kinds of passes over one
text, and each works on what the one before has left: a value may sit in a link, a link in the value
of a key, two values may overlap, and every pass puts markers into a text that later passes search.

What keeps them from undoing one another is the marker, `<redacted>`. No pattern that is searched
for contains one of its brackets, and none fits between them, so a marker neither completes an
occurrence nor holds one (`Redaction.Foreign`). That is a condition on the stored values, which
`EzOpenPN.redact_leaves_no_secret` therefore names; the links and the keys satisfy it
(`EzOpenPN.foreign_of_head`).

Texts are code points, as the interpreter has them. The files are read before anything here runs:
a file that cannot be read is `none`.
-/

namespace EzOpenPN

open Redaction

/-! ### The values -/

/-- `_stored_values`: of every file that is there and not empty, its base64 and, if it is UTF-8,
its text. -/
def storedValues (files : List (Option Bytes)) : List PyStr :=
  files.flatMap fun file =>
    match file with
    | none => []
    | some raw =>
      if raw = [] then []
      else codePoints (encodeUrlSecret raw) :: ((decodeUtf8 raw).toList.map codePoints).filter (· ≠ [])

/-- `value[key]`, where an absent key and a value that is no dictionary end in an exception that
`_runtime_values` handles. -/
def jsonField (key : String) : Json → Option Json
  | .dict fields => field fields key
  | _ => none

/-- `value[0]`, likewise. The first character of a text is a text, in which no key is looked up. -/
def jsonFirst : Json → Option Json
  | .list (value :: _) => some value
  | _ => none

/-- The texts among the values of a list. -/
def jsonTexts (values : List Json) : List PyStr :=
  values.filterMap fun
    | .str s => some s
    | _ => none

/-- `_runtime_values`: the private key and the short ids of the first inbound, or nothing if the
configuration was not read or does not have this form. -/
def runtimeValues (config : Option Json) : List PyStr :=
  let reality := do
    jsonField "realitySettings" (← jsonField "streamSettings" (← jsonFirst
      (← jsonField "inbounds" (← config))))
  match reality.bind (jsonField "privateKey"), reality.bind (jsonField "shortIds") with
  | some (.str privateKey), some (.list shortIds) => privateKey :: jsonTexts shortIds
  | _, _ => []

/-! ### The passes -/

/-- `<redacted>`. -/
def marker : PyStr := codePoints "<redacted>"

/-- `value` replaced by the marker, unless it is empty. -/
def redactValue (text value : PyStr) : PyStr :=
  if value = [] then text else redactAll marker (literal value) text

/-- The values in the order of their length, the longest first. -/
def longestFirst (values : List PyStr) : List PyStr :=
  values.insertionSort fun a b => b.length ≤ a.length

/-- The characters of `\s`, by their code points. -/
def isSpace (n : ℕ) : Bool :=
  (0x9 ≤ n && n ≤ 0xd) || (0x1c ≤ n && n ≤ 0x20) || n == 0x85 || n == 0xa0 || n == 0x1680 ||
    (0x2000 ≤ n && n ≤ 0x200a) || n == 0x2028 || n == 0x2029 || n == 0x202f || n == 0x205f ||
    n == 0x3000

/-- The lower-case ASCII letter that `re.IGNORECASE` takes a character for: besides the upper-case
one, two characters outside ASCII match the `i`, one the `s` and one the `k`. -/
def foldCase (n : ℕ) : ℕ :=
  if n = 0x130 ∨ n = 0x131 then 0x69
  else if n = 0x17f then 0x73
  else if n = 0x212a then 0x6b
  else if 0x41 ≤ n ∧ n ≤ 0x5a then n + 0x20
  else n

/-- What follows, up to the first character that ends it. -/
def run (stop : ℕ → Bool) (text : PyStr) : PyStr := text.takeWhile fun n => !stop n

/-- `(?i)head([^stop]+)` at the start of a text. -/
def findHead (stop : ℕ → Bool) (text head : PyStr) : Option (PyStr × PyStr) :=
  let value := run stop (text.drop head.length)
  if (text.take head.length).map foldCase = head ∧ value ≠ [] then
    some (text.take head.length, value)
  else none

/-- The first of several heads. -/
def findHeads (heads : List PyStr) (stop : ℕ → Bool) : Finder ℕ := fun text =>
  heads.findSome? (findHead stop text)

/-- `(?:vless|hysteria2)://`. -/
def linkHeads : List PyStr := [codePoints "vless://", codePoints "hysteria2://"]

/-- A link is hidden as a whole. -/
def findLink : Finder ℕ := fun text =>
  (findHeads linkHeads isSpace text).map fun found => ([], found.1 ++ found.2)

/-- `(token|secret|password)=`. -/
def keyHeads : List PyStr := [codePoints "token=", codePoints "secret=", codePoints "password="]

/-- The end of the value of a key. -/
def endsValue (n : ℕ) : Bool := isSpace n || n == 0x26

/-- Of a key with its value, the value is hidden. -/
def findKey : Finder ℕ := findHeads keyHeads endsValue

/-- **`redact`**, with the values as the set lists them. -/
def redact (values : List PyStr) (text : PyStr) : PyStr :=
  redactAll marker findKey (redactAll marker findLink ((longestFirst values).foldl redactValue text))

/-- `redact` with the paths it is given: three stored secrets and the configuration of Xray. -/
def redactLog (files : List (Option Bytes)) (config : Option Json) (text : PyStr) : PyStr :=
  redact (storedValues (files.take 3) ++ runtimeValues config) text

/-! ### Characters in any case -/

theorem foldCase_eq_symbol {n m : ℕ} (hm : m < 0x61 ∨ 0x7a < m) (h : foldCase n = m) : n = m := by
  rw [foldCase] at h
  split_ifs at h <;> omega

/-- A character that is taken for one that is no space is none. -/
theorem isSpace_of_foldCase {n : ℕ} (h : isSpace (foldCase n) = false) : isSpace n = false := by
  have hletter : ∀ n, 0x41 ≤ n → n ≤ 0x5a → isSpace n = false := by
    intro n h₁ h₂
    simp only [isSpace, Bool.or_eq_false_iff, Bool.and_eq_false_iff, decide_eq_false_iff_not,
      beq_eq_false_iff_ne, ne_eq]
    omega
  rw [foldCase] at h
  split_ifs at h with h₁ h₂ h₃ h₄
  · rcases h₁ with rfl | rfl <;> decide
  · rw [h₂]
    decide
  · rw [h₃]
    decide
  · exact hletter n h₄.1 h₄.2
  · exact h

/-! ### What the heads find -/

/-- **A head, in any case, before a character that does not end what it introduces.** -/
def Starts (heads : List PyStr) (stop : ℕ → Bool) (text : PyStr) : Prop :=
  ∃ head ∈ heads, ∃ (p : PyStr) (d : ℕ) (rest : PyStr),
    p.map foldCase = head ∧ stop d = false ∧ text = p ++ d :: rest

section Heads

variable {heads : List PyStr} {stop : ℕ → Bool} {text head kept value : PyStr}

theorem run_cons_ne_nil {d : ℕ} (hd : stop d = false) (rest : PyStr) : run stop (d :: rest) ≠ [] := by
  rw [run, List.takeWhile_cons_of_pos (by simp [hd])]
  exact List.cons_ne_nil _ _

theorem exists_of_run_ne_nil (h : run stop text ≠ []) :
    ∃ d rest, text = d :: rest ∧ stop d = false := by
  cases text with
  | nil => exact absurd rfl h
  | cons d rest =>
    refine ⟨d, rest, rfl, ?_⟩
    by_contra hd
    rw [run, List.takeWhile_cons_of_neg (by simpa using hd)] at h
    exact h rfl

theorem findHead_eq_some : findHead stop text head = some (kept, value) ↔
    kept.map foldCase = head ∧ value ≠ [] ∧ ∃ rest, text = kept ++ rest ∧ value = run stop rest := by
  rw [findHead, Option.ite_none_right_eq_some, Option.some.injEq, Prod.mk.injEq]
  constructor
  · rintro ⟨⟨hhead, hne⟩, rfl, rfl⟩
    exact ⟨hhead, hne, _, (List.take_append_drop _ _).symm, rfl⟩
  · rintro ⟨rfl, hne, rest, rfl, rfl⟩
    rw [List.length_map, List.take_left, List.drop_left]
    exact ⟨⟨rfl, hne⟩, rfl, rfl⟩

/-- **What the heads find**: one of them, in some case, and all that it introduces. -/
theorem findHeads_eq_some (h : findHeads heads stop text = some (kept, value)) :
    ∃ head ∈ heads, kept.map foldCase = head ∧ value ≠ [] ∧
      ∃ rest, text = kept ++ rest ∧ value = run stop rest := by
  obtain ⟨head, hmem, hfind⟩ := List.exists_of_findSome?_eq_some h
  exact ⟨head, hmem, findHead_eq_some.mp hfind⟩

/-- **Where the heads find nothing**, none of them starts. -/
theorem findHeads_eq_none : findHeads heads stop text = none ↔ ¬Starts heads stop text := by
  rw [findHeads, List.findSome?_eq_none_iff]
  constructor
  · rintro h ⟨head, hmem, p, d, rest, hp, hd, rfl⟩
    have hsome := findHead_eq_some.mpr ⟨hp, run_cons_ne_nil hd rest, _, rfl, rfl⟩
    rw [h head hmem] at hsome
    exact absurd hsome (by simp)
  · intro h head hmem
    by_contra hne
    obtain ⟨⟨kept, value⟩, hsome⟩ := Option.ne_none_iff_exists'.mp hne
    obtain ⟨hp, hvalue, rest, rfl, rfl⟩ := findHead_eq_some.mp hsome
    obtain ⟨d, rest, rfl, hd⟩ := exists_of_run_ne_nil hvalue
    exact h ⟨head, hmem, kept, d, rest, hp, hd, rfl⟩

theorem findHeads_sound : (findHeads heads stop).Sound := by
  intro text kept value h
  obtain ⟨-, -, -, hne, rest, rfl, rfl⟩ := findHeads_eq_some h
  exact ⟨hne, List.prefix_append_right_inj _ |>.mpr (List.takeWhile_prefix _)⟩

theorem findLink_eq_some {hidden : PyStr} (h : findLink text = some (kept, hidden)) :
    kept = [] ∧ ∃ p value, findHeads linkHeads isSpace text = some (p, value) ∧
      hidden = p ++ value := by
  obtain ⟨⟨p, value⟩, hfind, hfound⟩ := Option.map_eq_some_iff.mp h
  obtain ⟨rfl, rfl⟩ := Prod.mk.inj hfound
  exact ⟨rfl, p, value, hfind, rfl⟩

theorem findLink_eq_none : findLink text = none ↔ ¬Starts linkHeads isSpace text := by
  rw [findLink, Option.map_eq_none_iff, findHeads_eq_none]

theorem findLink_sound : findLink.Sound := by
  intro text kept hidden h
  obtain ⟨rfl, p, value, hfind, rfl⟩ := findLink_eq_some h
  obtain ⟨hne, hpre⟩ := findHeads_sound _ _ _ hfind
  exact ⟨fun h => hne (List.append_eq_nil_iff.mp h).2, hpre⟩

/-- **A link does not start with white space.** -/
theorem isSpace_of_findLink {hidden : PyStr} (h : findLink text = some (kept, hidden)) :
    ∀ n ∈ hidden.head?, isSpace n = false := by
  have hheads : ∀ head ∈ linkHeads, ∃ m tail, head = m :: tail ∧ isSpace m = false := by
    intro head hmem
    simp only [linkHeads, List.mem_cons, List.not_mem_nil, or_false] at hmem
    rcases hmem with rfl | rfl
    · exact ⟨_, _, rfl, by decide⟩
    · exact ⟨_, _, rfl, by decide⟩
  obtain ⟨-, p, value, hfind, rfl⟩ := findLink_eq_some h
  obtain ⟨head, hmem, rfl, -⟩ := findHeads_eq_some hfind
  obtain ⟨m, tail, hm, hspace⟩ := hheads _ hmem
  obtain ⟨n, p, rfl⟩ : ∃ n p', p = n :: p' := by
    cases p with
    | nil => exact absurd hm (by simp)
    | cons n p => exact ⟨n, p, rfl⟩
  rw [List.map_cons, List.cons.injEq] at hm
  intro n' hn'
  obtain rfl := Option.some.inj hn'
  exact isSpace_of_foldCase (hm.1 ▸ hspace)

/-- The value of a key starts with a character that does not end it. -/
theorem endsValue_of_findKey (h : findKey text = some (kept, value)) :
    ∀ n ∈ value.head?, endsValue n = false := by
  obtain ⟨-, -, -, hne, rest, rfl, rfl⟩ := findHeads_eq_some h
  obtain ⟨d, rest, rfl, hd⟩ := exists_of_run_ne_nil hne
  intro n hn
  rw [run, List.takeWhile_cons_of_pos (by simp [hd])] at hn
  obtain rfl := Option.some.inj hn
  exact hd

theorem isSpace_of_endsValue {n : ℕ} (h : endsValue n = false) : isSpace n = false :=
  (Bool.or_eq_false_iff.mp h).1

/-! ### Heads and markers -/

/-- The word of the marker, and the marker with its brackets. -/
theorem marker_eq : marker = 0x3c :: (codePoints "redacted" ++ [0x3e]) := by decide

/-- **No head, in whatever case, fits a marker.** -/
theorem foreign_of_head {p : PyStr} (h : p.map foldCase ∈ linkHeads ++ keyHeads) :
    Foreign 0x3c 0x3e (codePoints "redacted") p := by
  have hheads : ∀ head ∈ linkHeads ++ keyHeads, 0x3c ∉ head ∧ 0x3e ∉ head ∧
      (0x2f ∈ head ∨ 0x3d ∈ head) := by decide
  have hword : 0x2f ∉ codePoints "redacted" ∧ 0x3d ∉ codePoints "redacted" := by decide
  obtain ⟨hopening, hclosing, hsymbol⟩ := hheads _ h
  refine ⟨fun hmem => hopening (List.mem_map.mpr ⟨_, hmem, rfl⟩),
    fun hmem => hclosing (List.mem_map.mpr ⟨_, hmem, rfl⟩), fun hpart => ?_⟩
  rcases hsymbol with hmem | hmem
  · obtain ⟨n, hn, hfold⟩ := List.mem_map.mp hmem
    rw [foldCase_eq_symbol (.inl (by decide)) hfold] at hn
    exact hword.1 (hpart.subset hn)
  · obtain ⟨n, hn, hfold⟩ := List.mem_map.mp hmem
    rw [foldCase_eq_symbol (.inl (by decide)) hfold] at hn
    exact hword.2 (hpart.subset hn)

variable {masked : ℕ → Prop} {l out : PyStr}

/-- **A head that starts in a masked text starts in the text**: what it introduces there is what
it introduced, or a marker in the place of something else. -/
theorem Starts.of_masks (hheads : ∀ head ∈ heads, head ∈ linkHeads ++ keyHeads)
    (hmasked : ∀ n, masked n → stop n = false) (h : Masks marker masked l out)
    (hout : Starts heads stop out) : Starts heads stop l := by
  obtain ⟨head, hmem, p, d, rest, rfl, hd, rfl⟩ := hout
  have hp := foreign_of_head (hheads _ hmem)
  rw [marker_eq] at h
  obtain ⟨l', rfl, hrest⟩ := h.of_append hp.opening
  obtain ⟨a, l', rfl, ha⟩ := hrest.of_cons
  refine ⟨_, hmem, p, a, l', rfl, ?_, rfl⟩
  rcases ha with rfl | ha
  · exact hd
  · exact hmasked a ha

/-- No head starts in a marker. -/
theorem not_starts_marker (hheads : ∀ head ∈ heads, head ∈ linkHeads ++ keyHeads) {s : PyStr}
    (hne : s ≠ []) (hs : s <:+ marker) : ¬Starts heads stop (s ++ out) := by
  rintro ⟨head, hmem, p, d, rest, rfl, -, hrest⟩
  rw [marker_eq] at hs
  exact (foreign_of_head (hheads _ hmem)).absent hne hs (hrest ▸ List.prefix_append p _)

end Heads

/-! ### What the passes leave -/

section Passes

variable {values : List PyStr} {text w : PyStr}

/-- **What a redacted text is free of**: the values, the links, and the values of keys. -/
structure Clean (values : List PyStr) (text : PyStr) : Prop where
  /-- No value is a part of it. -/
  values : ∀ value ∈ values, ¬value <:+: text
  /-- The head of a link, in any case, is followed by white space or by nothing. -/
  links : ∀ head ∈ linkHeads, ∀ (p : PyStr) (d : ℕ), p.map foldCase = head → isSpace d = false →
    ¬p ++ [d] <:+: text
  /-- After a key, in any case, nothing stands before the end of its value but the marker. -/
  keys : ∀ head ∈ keyHeads, ∀ u p rest : PyStr, p.map foldCase = head →
    text = u ++ (p ++ rest) → run endsValue rest = [] ∨ run endsValue rest = marker

/-- A value that fits no marker. -/
def FitsNoMarker (value : PyStr) : Prop := Foreign 0x3c 0x3e (codePoints "redacted") value

instance (value : PyStr) : Decidable (FitsNoMarker value) :=
  decidable_of_iff (0x3c ∉ value ∧ 0x3e ∉ value ∧ ¬value <:+: codePoints "redacted")
    ⟨fun h => ⟨h.1, h.2.1, h.2.2⟩, fun h => ⟨h.opening, h.closing, h.word⟩⟩

theorem FitsNoMarker.ne_nil (hw : FitsNoMarker w) : w ≠ [] := by
  rintro rfl
  exact hw.word List.nil_infix

/-- **Redacting with a sound finder does not put a value together.** -/
theorem spares_redactAll {find : Finder ℕ} (hsound : find.Sound) (hw : FitsNoMarker w)
    (h : ¬w <:+: text) : ¬w <:+: redactAll marker find text := by
  have hmasks : Masks marker (fun _ => True) text (redactAll marker find text) :=
    (scan_redactAll hsound text).masks fun _ _ _ _ _ _ => trivial
  rw [marker_eq] at hmasks ⊢
  exact hmasks.spares hw h

theorem spares_redactValue (value : PyStr) (hw : FitsNoMarker w) (h : ¬w <:+: text) :
    ¬w <:+: redactValue text value := by
  rw [redactValue]
  split
  · exact h
  · rename_i hne
    exact spares_redactAll (literal_sound hne) hw h

theorem spares_redactValues (hw : FitsNoMarker w) (h : ¬w <:+: text) :
    ¬w <:+: values.foldl redactValue text := by
  induction values generalizing text with
  | nil => exact h
  | cons value values ih => exact ih (spares_redactValue value hw h)

/-- **The first pass leaves no value.** -/
theorem not_infix_redactValues (hvalues : ∀ value ∈ values, FitsNoMarker value) :
    ∀ value ∈ values, ¬value <:+: values.foldl redactValue text := by
  induction values generalizing text with
  | nil => simp
  | cons value values ih =>
    rw [List.forall_mem_cons] at hvalues
    intro w hw
    rcases List.mem_cons.mp hw with rfl | hw
    · rw [List.foldl_cons]
      refine spares_redactValues hvalues.1 ?_
      rw [redactValue, if_neg hvalues.1.ne_nil, marker_eq]
      exact not_infix_redactAll_literal hvalues.1 text
    · exact ih hvalues.2 w hw

/-- A text without the values is left as it is. -/
theorem redactValues_eq_self (h : ∀ value ∈ values, value ≠ [] → ¬value <:+: text) :
    values.foldl redactValue text = text := by
  induction values with
  | nil => rfl
  | cons value values ih =>
    rw [List.forall_mem_cons] at h
    have hstep : redactValue text value = text := by
      rw [redactValue]
      split
      · rfl
      · rename_i hne
        refine redactAll_of_none (literal_sound hne) fun s hs => ?_
        rw [literal, if_neg (not_infix_iff.mp (h.1 hne) s hs)]
    rw [List.foldl_cons, hstep, ih h.2]

/-- **The second pass leaves no link.** -/
theorem not_starts_redactLinks : ∀ s, s <:+ redactAll marker findLink text →
    ¬Starts linkHeads isSpace s := by
  have hheads : ∀ head ∈ linkHeads, head ∈ linkHeads ++ keyHeads := fun head hmem =>
    List.mem_append_left _ hmem
  refine (scan_redactAll findLink_sound text).suffixes (fun n => isSpace n = false)
    (fun _ _ _ h => isSpace_of_findLink h) ?_ (fun l out hnone hmasks hout => ?_)
    fun kept hidden l out hsome _ s hne hs => ?_
  · rintro ⟨_, -, p, d, rest, -, -, hnil⟩
    exact absurd hnil (by simp)
  · exact findLink_eq_none.mp hnone (hout.of_masks hheads (fun _ => id) hmasks)
  · obtain ⟨rfl, -⟩ := findLink_eq_some hsome
    exact not_starts_marker hheads hne hs

/-- **The third pass brings no link back.** -/
theorem not_starts_redactKeys (h : ∀ s, s <:+ text → ¬Starts linkHeads isSpace s) :
    ∀ s, s <:+ redactAll marker findKey text → ¬Starts linkHeads isSpace s := by
  have hheads : ∀ head ∈ linkHeads, head ∈ linkHeads ++ keyHeads := fun head hmem =>
    List.mem_append_left _ hmem
  have hmasks : Masks marker (fun n => isSpace n = false) text (redactAll marker findKey text) :=
    (scan_redactAll findHeads_sound text).masks fun l kept hidden hfind n hn =>
      isSpace_of_endsValue (endsValue_of_findKey hfind n hn)
  exact hmasks.suffixes (fun l out hmasks hout => hout.of_masks hheads (fun _ => id) hmasks)
    (fun s out hne hs => not_starts_marker hheads hne hs) h

/-- A key, in any case, with a value that is not the marker. -/
def Reveals (text : PyStr) : Prop :=
  ∃ head ∈ keyHeads, ∃ p rest : PyStr, p.map foldCase = head ∧ text = p ++ rest ∧
    run endsValue rest ≠ [] ∧ run endsValue rest ≠ marker

/-- What follows the value of a key that was found ends it. -/
theorem run_eq_nil_of_findKey {kept hidden l out : PyStr}
    (hsome : findKey (kept ++ (hidden ++ l)) = some (kept, hidden))
    (hmasks : Masks marker (fun n => endsValue n = false) l out) : run endsValue out = [] := by
  obtain ⟨-, -, -, -, rest, hrest, hrun⟩ := findHeads_eq_some hsome
  obtain rfl := List.append_cancel_left hrest
  -- the value goes as far as it can
  have hall : ∀ n ∈ hidden, endsValue n = false := fun n hn => by
    rw [hrun] at hn
    simpa using List.mem_takeWhile_imp hn
  have hend : run endsValue l = [] := by
    rw [run, List.takeWhile_append_of_pos (by simpa using hall)] at hrun
    exact List.append_right_eq_self.mp hrun.symm
  by_contra hne
  obtain ⟨d, rest, rfl, hd⟩ := exists_of_run_ne_nil hne
  rw [marker_eq] at hmasks
  obtain ⟨a, l', rfl, ha⟩ := hmasks.of_cons
  refine run_cons_ne_nil ?_ l' hend
  rcases ha with rfl | ha
  · exact hd
  · exact ha

/-- **No key is the end of another**, in whatever case. -/
theorem eq_of_key_in_key {p t kept : PyStr} (hp : p.map foldCase ∈ keyHeads)
    (hkept : kept.map foldCase ∈ keyHeads) (hpt : p <+: t) (ht : t <:+ kept) : p = t := by
  have hkeys : ∀ k ∈ keyHeads, ∀ h ∈ keyHeads, ∀ s ∈ k.tails, h <+: s → h = s := by decide
  have hsame := hkeys _ hkept _ hp _ ((List.mem_tails _ _).mpr (ht.map foldCase)) (hpt.map foldCase)
  refine hpt.eq_of_length ?_
  rw [← List.length_map foldCase, hsame, List.length_map]

/-- **The third pass leaves no value of a key.** -/
theorem not_reveals_redactKeys : ∀ s, s <:+ redactAll marker findKey text → ¬Reveals s := by
  have hheads : ∀ head ∈ keyHeads, head ∈ linkHeads ++ keyHeads := fun head hmem =>
    List.mem_append_right _ hmem
  refine (scan_redactAll findHeads_sound text).suffixes (fun n => endsValue n = false)
    (fun _ _ _ h => endsValue_of_findKey h) ?_ (fun l out hnone hmasks hout => ?_)
    fun kept hidden l out hsome hmasks s hne hs => ?_
  · rintro ⟨_, -, p, rest, -, hnil, hvalue, -⟩
    obtain ⟨-, rfl⟩ := List.append_eq_nil_iff.mp hnil.symm
    exact hvalue rfl
  · obtain ⟨head, hmem, p, rest, hp, rfl, hvalue, -⟩ := hout
    obtain ⟨d, rest, rfl, hd⟩ := exists_of_run_ne_nil hvalue
    have hstarts : Starts keyHeads endsValue (p ++ d :: rest) := ⟨head, hmem, p, d, rest, hp, hd, rfl⟩
    exact findHeads_eq_none.mp hnone (hstarts.of_masks hheads (fun _ => id) hmasks)
  · rintro ⟨head, hmem, p, rest, rfl, hrest, hvalue, hmarker⟩
    have hp := foreign_of_head (hheads _ hmem)
    rcases suffix_append_cases hs with hs | ⟨t, -, rfl, ht⟩
    · rw [marker_eq] at hs
      exact hp.absent hne hs (hrest ▸ List.prefix_append p rest)
    · -- the key is the one that was kept, and the marker follows it
      obtain ⟨khead, hkmem, rfl, -⟩ := findHeads_eq_some hsome
      rw [List.append_assoc] at hrest
      have hpre : p <+: t := by
        refine prefix_before_delimiter hp.opening (v := codePoints "redacted" ++ [0x3e] ++ out) ?_
        have hcons : t ++ 0x3c :: (codePoints "redacted" ++ [0x3e] ++ out) = t ++ (marker ++ out) := by
          rw [marker_eq]
          rfl
        rw [hcons, hrest]
        exact List.prefix_append p rest
      obtain rfl := eq_of_key_in_key hmem hkmem hpre ht
      obtain rfl := List.append_cancel_left hrest
      have hmarkerAll : ∀ n ∈ marker, (!endsValue n) = true := by decide
      rw [run, List.takeWhile_append_of_pos hmarkerAll] at hmarker
      refine hmarker ?_
      have hend := run_eq_nil_of_findKey hsome hmasks
      rw [run] at hend
      rw [hend, List.append_nil]

/-- **A redacted text is clean.** -/
theorem clean_redact (hvalues : ∀ value ∈ values, FitsNoMarker value) :
    Clean values (redact values text) where
  values value hmem := by
    have hlisted : ∀ value ∈ longestFirst values, FitsNoMarker value := fun value hmem =>
      hvalues value ((List.mem_insertionSort _).mp hmem)
    exact spares_redactAll findHeads_sound (hvalues value hmem) <|
      spares_redactAll findLink_sound (hvalues value hmem) <|
        not_infix_redactValues hlisted value ((List.mem_insertionSort _).mpr hmem)
  links head hmem p d hp hd hinfix := by
    obtain ⟨s, ⟨rest, hrest⟩, hs⟩ := List.infix_iff_prefix_suffix.mp hinfix
    refine not_starts_redactKeys not_starts_redactLinks s hs ⟨head, hmem, p, d, rest, hp, hd, ?_⟩
    rw [← hrest, List.append_assoc]
    rfl
  keys head hmem u p rest hp htext := by
    by_contra hboth
    rw [not_or] at hboth
    exact not_reveals_redactKeys _ ⟨u, htext.symm⟩ ⟨head, hmem, p, rest, hp, rfl, hboth⟩

/-- **A clean text is left as it is.** -/
theorem Clean.redact_eq_self (h : Clean values text) {values' : List PyStr}
    (hsub : ∀ value ∈ values', value ∈ values) : redact values' text = text := by
  have hfirst : (longestFirst values').foldl redactValue text = text :=
    redactValues_eq_self fun value hmem _ =>
      h.values value (hsub value ((List.mem_insertionSort _).mp hmem))
  have hsecond : redactAll marker findLink text = text := by
    refine redactAll_of_none findLink_sound fun s hs => findLink_eq_none.mpr ?_
    rintro ⟨head, hmem, p, d, rest, hp, hd, rfl⟩
    refine h.links head hmem p d hp hd (List.infix_iff_prefix_suffix.mpr ⟨_, ⟨rest, ?_⟩, hs⟩)
    rw [List.append_assoc]
    rfl
  have hthird : redactAll marker findKey text = text := by
    refine redactAll_eq_self findHeads_sound fun s hs kept hidden hfind => ?_
    obtain ⟨head, hmem, hp, hne, rest, rfl, rfl⟩ := findHeads_eq_some hfind
    obtain ⟨u, hu⟩ := hs
    exact (h.keys head hmem u kept rest hp hu.symm).resolve_left hne
  rw [redact, hfirst, hsecond, hthird]

/-- **Log redaction leaves no secret.** Whatever the text, and whatever the values as long as each
of them fits no marker: none of them is a part of the result, no link is, no key has a value but the
marker, and redacting once more changes nothing. -/
theorem redact_leaves_no_secret (values : List PyStr) (text : PyStr)
    (hvalues : ∀ value ∈ values, 0x3c ∉ value ∧ 0x3e ∉ value ∧ ¬value <:+: codePoints "redacted") :
    Clean values (redact values text) ∧
      ∀ values', (∀ value, value ∈ values' ↔ value ∈ values) →
        redact values' (redact values text) = redact values text := by
  have hclean : Clean values (redact values text) := clean_redact fun value hmem =>
    ⟨(hvalues value hmem).1, (hvalues value hmem).2.1, (hvalues value hmem).2.2⟩
  exact ⟨hclean, fun values' hsame => hclean.redact_eq_self fun value => (hsame value).mp⟩

/-- A short id and a stored key, one of them inside a link and the other inside the value of a
key. -/
def sampleSecrets : List PyStr := [codePoints "a1b2c3d4", codePoints "Zml4dHVyZS1rZXk"]

/-- A line of a log that has both. -/
def sampleLine : PyStr :=
  codePoints "VLESS://u@h?sid=a1b2c3d4 toKen=xZml4dHVyZS1rZXk&password= Zml4dHVyZS1rZXk"

example : redact sampleSecrets sampleLine =
    codePoints "<redacted> toKen=<redacted>&password= <redacted>" := by decide +kernel

theorem redact_leaves_no_secret_sample :
    Clean sampleSecrets (redact sampleSecrets sampleLine) ∧
      ∀ values', (∀ value, value ∈ values' ↔ value ∈ sampleSecrets) →
        redact values' (redact sampleSecrets sampleLine) = redact sampleSecrets sampleLine :=
  redact_leaves_no_secret sampleSecrets sampleLine (by decide)

/-- **The encoding of a key fits no marker**: it has no bracket, and is longer than the word. -/
theorem fitsNoMarker_encodeUrlSecret {raw : Bytes} (h : 7 ≤ raw.length) :
    FitsNoMarker (codePoints (encodeUrlSecret raw)) := by
  have hchars : ∀ c ∈ BaseN.b64Alphabet, c.toNat ≠ 0x3c ∧ c.toNat ≠ 0x3e :=
    List.forall_iff_forall_mem.mp (by decide)
  have hmem : ∀ n ∈ codePoints (encodeUrlSecret raw), n ≠ 0x3c ∧ n ≠ 0x3e := by
    intro n hn
    obtain ⟨c, hc, rfl⟩ := List.mem_map.mp hn
    exact hchars c (mem_encodeUrlSecret hc)
  refine ⟨fun hn => (hmem _ hn).1 rfl, fun hn => (hmem _ hn).2 rfl, fun hpart => ?_⟩
  have hlen := hpart.length_le
  have hword : (codePoints "redacted").length = 8 := by decide
  rw [hword, codePoints, List.length_map, String.length_toList, length_encodeUrlSecret] at hlen
  omega

/-- Three secret files of 32 bytes, none of them a text. -/
def sampleFiles : List (Option Bytes) :=
  [0xfd, 0xfe, 0xff].map fun byte => some (List.replicate 32 byte)

/-- The values of these files are their encodings. -/
theorem storedValues_sampleFiles : storedValues (sampleFiles.take 3) =
    [0xfd, 0xfe, 0xff].map fun byte => codePoints (encodeUrlSecret (List.replicate 32 byte)) := by
  decide +kernel

end Passes

end EzOpenPN
