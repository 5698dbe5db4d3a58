import Mathlib

/-!
# Texts with delimiters: a URI and its parts

A URI is a text in which single characters separate what is to be kept apart. Reading one means
cutting it, at the first occurrence of a delimiter or at the last, and it returns what was
written as long as no part contains a character at which it would be cut.

The two cuts are `Uri.cut` and `Uri.cutLast`; `Uri.split` applies them in the order of the generic
syntax – the fragment and the query from the right of the text, then the path off the authority,
then the userinfo and the port off the host – and `Uri.split_text` says that it undoes
`Uri.Parts.text` on parts that are `Uri.Parts.WellFormed`. The pairs of a query are
`Uri.splitPairs`, with the same theorem (`Uri.splitPairs_joinPairs`).

Nothing here decodes anything: the parts are the characters as they stand in the text.
-/

namespace Uri

/-! ### Cutting -/

section Cut

variable {α : Type} [DecidableEq α]

/-- What stands before the first `c`, and what follows it. -/
def cut (c : α) (l : List α) : List α × Option (List α) :=
  match l.dropWhile (· ≠ c) with
  | [] => (l, none)
  | _ :: rest => (l.takeWhile (· ≠ c), some rest)

/-- What stands before the last `c`, and what follows it. -/
def cutLast (c : α) (l : List α) : Option (List α) × List α :=
  match cut c l.reverse with
  | (rest, before) => (before.map List.reverse, rest.reverse)

/-- A delimiter and what it introduces, if anything. -/
def introduced (c : α) : Option (List α) → List α
  | none => []
  | some l => c :: l

/-- What a delimiter ends, if anything, and the delimiter. -/
def ended (c : α) : Option (List α) → List α
  | none => []
  | some l => l ++ [c]

/-- **A cut undoes an introduction.** -/
theorem cut_append_introduced {c : α} {u : List α} (h : c ∉ u) (v : Option (List α)) :
    cut c (u ++ introduced c v) = (u, v) := by
  have hu : ∀ x ∈ u, decide (x ≠ c) = true := fun x hx => by
    rw [decide_eq_true_iff]
    rintro rfl
    exact h hx
  cases v with
  | none =>
    have hdrop : u.dropWhile (· ≠ c) = [] := List.dropWhile_eq_nil_iff.mpr hu
    rw [introduced, List.append_nil, cut, hdrop]
  | some v =>
    have hdrop : (u ++ c :: v).dropWhile (· ≠ c) = c :: v := by
      rw [List.dropWhile_append_of_pos hu, List.dropWhile_cons_of_neg (by simp)]
    have htake : (u ++ c :: v).takeWhile (· ≠ c) = u := by
      rw [List.takeWhile_append_of_pos hu, List.takeWhile_cons_of_neg (by simp), List.append_nil]
    rw [introduced, cut, hdrop, htake]

/-- **A cut at the last occurrence** undoes an ending. -/
theorem cutLast_ended_append {c : α} {v : List α} (h : c ∉ v) (u : Option (List α)) :
    cutLast c (ended c u ++ v) = (u, v) := by
  have hreverse : (ended c u ++ v).reverse = v.reverse ++ introduced c (u.map List.reverse) := by
    cases u <;> simp [ended, introduced]
  have hc : c ∉ v.reverse := fun hmem => h (List.mem_reverse.mp hmem)
  rw [cutLast, hreverse, cut_append_introduced hc]
  cases u <;> simp

end Cut

/-! ### The parts of a URI -/

/-- The parts of a URI with an authority, as they stand in its text. -/
structure Parts where
  scheme : List Char
  userinfo : Option (List Char)
  host : List Char
  port : Option (List Char)
  path : List Char
  query : Option (List Char)
  fragment : Option (List Char)
  deriving DecidableEq

namespace Parts

/-- The text of a URI. -/
def text (p : Parts) : List Char :=
  p.scheme ++ ':' :: '/' :: '/' :: (ended '@' p.userinfo ++ (p.host ++ introduced ':' p.port) ++
    p.path ++ introduced '?' p.query ++ introduced '#' p.fragment)

/-- The characters that end an authority. -/
def authorityEnds : List Char := ['/', '?', '#']

/-- **No part holds a delimiter that would cut it**, and a path, if there is one, starts with a
slash. -/
structure WellFormed (p : Parts) : Prop where
  scheme : ':' ∉ p.scheme
  userinfo : ∀ u ∈ p.userinfo, ∀ c ∈ authorityEnds, c ∉ u
  host : ∀ c ∈ '@' :: ':' :: authorityEnds, c ∉ p.host
  port : ∀ u ∈ p.port, ∀ c ∈ '@' :: authorityEnds, c ∉ u
  path : ∀ c ∈ ['?', '#'], c ∉ p.path
  rooted : p.path = [] ∨ p.path.head? = some '/'
  query : ∀ u ∈ p.query, '#' ∉ u

end Parts

/-- **Split a URI into its parts.** A text that does not start with a scheme and two slashes is
none. -/
def split (l : List Char) : Option Parts :=
  match cut ':' l with
  | (scheme, some ('/' :: '/' :: rest)) =>
    let (rest, fragment) := cut '#' rest
    let (rest, query) := cut '?' rest
    let (userinfo, hostPort) := cutLast '@' (rest.takeWhile (· ≠ '/'))
    let (host, port) := cut ':' hostPort
    some { scheme, userinfo, host, port, path := rest.dropWhile (· ≠ '/'), query, fragment }
  | _ => none

/-- A character that is not in a part that may be missing is not in what it introduces. -/
theorem not_mem_introduced {c d : Char} {u : Option (List Char)} (hd : c ≠ d)
    (h : ∀ v ∈ u, c ∉ v) : c ∉ introduced d u := by
  cases u with
  | none => simp [introduced]
  | some v => simp [introduced, hd, h v rfl]

theorem not_mem_ended {c d : Char} {u : Option (List Char)} (hd : c ≠ d)
    (h : ∀ v ∈ u, c ∉ v) : c ∉ ended d u := by
  cases u with
  | none => simp [ended]
  | some v => simp [ended, hd, h v rfl]

/-- **Splitting undoes writing**, on well-formed parts. -/
theorem split_text {p : Parts} (h : p.WellFormed) : split p.text = some p := by
  have hends : ∀ c ∈ Parts.authorityEnds,
      c ∉ ended '@' p.userinfo ++ (p.host ++ introduced ':' p.port) := by
    intro c hc
    have hapart : ∀ c ∈ Parts.authorityEnds, c ≠ '@' ∧ c ≠ ':' :=
      List.forall_iff_forall_mem.mp (by decide)
    have hne : c ≠ '@' ∧ c ≠ ':' := hapart c hc
    rw [List.mem_append, List.mem_append, not_or, not_or]
    exact ⟨not_mem_ended hne.1 fun u hu => h.userinfo u hu c hc,
      h.host c (List.mem_cons_of_mem _ (List.mem_cons_of_mem _ hc)),
      not_mem_introduced hne.2 fun u hu => h.port u hu c (List.mem_cons_of_mem _ hc)⟩
  generalize hauthority : ended '@' p.userinfo ++ (p.host ++ introduced ':' p.port) = authority
    at hends
  have hscheme : cut ':' p.text = (p.scheme, some ('/' :: '/' :: (authority ++ p.path ++
      introduced '?' p.query ++ introduced '#' p.fragment))) := by
    rw [Parts.text, hauthority]
    exact cut_append_introduced h.scheme (some _)
  have hfragment : cut '#' (authority ++ p.path ++ introduced '?' p.query ++
      introduced '#' p.fragment) = (authority ++ p.path ++ introduced '?' p.query, p.fragment) := by
    refine cut_append_introduced ?_ _
    rw [List.mem_append, List.mem_append, not_or, not_or]
    exact ⟨⟨hends _ (by decide), h.path _ (by decide)⟩, not_mem_introduced (by decide) h.query⟩
  have hquery : cut '?' (authority ++ p.path ++ introduced '?' p.query) =
      (authority ++ p.path, p.query) := by
    refine cut_append_introduced ?_ _
    rw [List.mem_append, not_or]
    exact ⟨hends _ (by decide), h.path _ (by decide)⟩
  have hslash : ∀ c ∈ authority, decide (c ≠ '/') = true := fun c hc => by
    rw [decide_eq_true_iff]
    rintro rfl
    exact hends _ (by decide) hc
  have hpath : (authority ++ p.path).takeWhile (· ≠ '/') = authority ∧
      (authority ++ p.path).dropWhile (· ≠ '/') = p.path := by
    rw [List.takeWhile_append_of_pos hslash, List.dropWhile_append_of_pos hslash]
    rcases h.rooted with hnil | hroot
    · simp [hnil]
    · obtain ⟨rest, hrest⟩ := List.head?_eq_some_iff.mp hroot
      simp [hrest]
  have huserinfo : cutLast '@' authority = (p.userinfo, p.host ++ introduced ':' p.port) := by
    rw [← hauthority]
    refine cutLast_ended_append ?_ _
    rw [List.mem_append, not_or]
    exact ⟨h.host _ (by decide), not_mem_introduced (by decide) fun u hu => h.port u hu _
      (by decide)⟩
  have hport : cut ':' (p.host ++ introduced ':' p.port) = (p.host, p.port) :=
    cut_append_introduced (h.host _ (by decide)) _
  simp only [split, hscheme, hfragment, hquery, hpath.1, hpath.2, huserinfo, hport]

/-! ### The pairs of a query -/

/-- The text of the pairs of a query. -/
def joinPairs (pairs : List (List Char × List Char)) : List Char :=
  ['&'].intercalate (pairs.map fun kv => kv.1 ++ '=' :: kv.2)

/-- **Split a query into pairs.** A piece without an equals sign has an empty value. -/
def splitPairs (query : List Char) : List (List Char × List Char) :=
  (query.splitOn '&').map fun piece =>
    match cut '=' piece with
    | (key, value) => (key, value.getD [])

/-- **Splitting a query undoes joining its pairs.** -/
theorem splitPairs_joinPairs {pairs : List (List Char × List Char)} (hne : pairs ≠ [])
    (h : ∀ kv ∈ pairs, '=' ∉ kv.1 ∧ '&' ∉ kv.1 ∧ '&' ∉ kv.2) :
    splitPairs (joinPairs pairs) = pairs := by
  have hpieces : ∀ piece ∈ pairs.map fun kv => kv.1 ++ '=' :: kv.2, '&' ∉ piece := by
    intro piece hpiece
    obtain ⟨kv, hkv, rfl⟩ := List.mem_map.mp hpiece
    obtain ⟨-, hkey, hvalue⟩ := h kv hkv
    rw [List.mem_append, List.mem_cons, not_or, not_or]
    exact ⟨hkey, by decide, hvalue⟩
  rw [splitPairs, joinPairs, List.splitOn_intercalate '&' hpieces (by simpa using hne),
    List.map_map]
  refine (List.map_congr_left fun kv hkv => ?_).trans (List.map_id pairs)
  have hcut : cut '=' (kv.1 ++ '=' :: kv.2) = (kv.1, some kv.2) :=
    cut_append_introduced (h kv hkv).1 (some kv.2)
  simp only [Function.comp_apply, hcut, Option.getD_some, id_eq]

end Uri
