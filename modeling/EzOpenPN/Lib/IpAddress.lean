import Mathlib

/-!
# The texts of IP addresses

Which texts the standard library of Python takes for an address (`ipaddress.ip_address`): four
decimal octets, or up to eight hexadecimal groups of which one run of zeros may be left out, the
last two groups possibly written as an IPv4 address and the whole followed by a scope. Texts are
lists of code points, and an address is only recognized, not computed.

An address has the punctuation of one. `IpAddress.isIPv4_count` and
`IpAddress.isIPv6_count` say how much of it there is, which is what tells a version or a time of
day from an address.
-/

namespace IpAddress

/-- `0` to `9`. -/
def isDigit (c : ℕ) : Bool := 48 ≤ c && c ≤ 57

/-- A hexadecimal digit, in either case. -/
def isHexDigit (c : ℕ) : Bool := isDigit c || (65 ≤ c && c ≤ 70) || (97 ≤ c && c ≤ 102)

/-! ### IPv4 -/

/-- The value of decimal digits. -/
def decimalValue (s : List ℕ) : ℕ := s.foldl (fun n c => n * 10 + (c - 48)) 0

/-- `_parse_octet`: one to three digits, no leading zero, at most 255. -/
def isOctet (s : List ℕ) : Bool :=
  s ≠ [] && s.all isDigit && s.length ≤ 3 && (s = [48] || s.head? ≠ some 48) &&
    decimalValue s ≤ 255

/-- `IPv4Address`: four octets between dots. -/
def isIPv4 (s : List ℕ) : Bool :=
  47 ∉ s && (s.splitOn 46).length = 4 && (s.splitOn 46).all isOctet

/-! ### IPv6 -/

/-- `_parse_hextet`: one to four hexadecimal digits. -/
def isHextet (s : List ℕ) : Bool := s ≠ [] && s.all isHexDigit && s.length ≤ 4

/-- The groups of an address whose last one is written as an IPv4 address: two groups stand for
it. -/
def expandIPv4 (parts : List (List ℕ)) : Option (List (List ℕ)) :=
  let last := parts.getLast?.getD []
  if 46 ∈ last then
    if isIPv4 last then some (parts.dropLast ++ [[48], [48]]) else none
  else some parts

/-- The groups of an address: eight, or fewer around one gap. An empty group at either end
belongs to a gap at that end. -/
def isGroups (parts : List (List ℕ)) : Bool :=
  let middle := parts.tail.dropLast
  if [] ∈ middle then
    let skip := middle.idxOf [] + 1
    let leading := parts.head? = some []
    let trailing := parts.getLast? = some []
    let hi := if leading then skip - 1 else skip
    let lo := if trailing then parts.length - skip - 1 - 1 else parts.length - skip - 1
    middle.count [] = 1 && !(leading && hi ≠ 0) && !(trailing && lo ≠ 0) && hi + lo ≤ 7 &&
      (parts.take hi).all isHextet && (parts.drop (parts.length - lo)).all isHextet
  else parts.length = 8 && parts.all isHextet

/-- The part of an IPv6 text in front of its scope, if the scope is one. -/
def splitScope (s : List ℕ) : Option (List ℕ) :=
  match s.splitOn 37 with
  | [addr] => some addr
  | [addr, scope] => if scope = [] then none else some addr
  | _ => none

/-- `IPv6Address`. -/
def isIPv6 (s : List ℕ) : Bool :=
  47 ∉ s && (splitScope s).any fun addr =>
    let parts := addr.splitOn 58
    3 ≤ parts.length && (expandIPv4 parts).any fun parts => parts.length ≤ 9 && isGroups parts

/-- `ip_address` accepts a text. -/
def isAddress (s : List ℕ) : Bool := isIPv4 s || isIPv6 s

/-! ### The punctuation of an address -/

/-- The pieces between separators are one more than the separators. -/
theorem length_splitOn (a : ℕ) (s : List ℕ) : (s.splitOn a).length = s.count a + 1 := by
  induction s with
  | nil => rfl
  | cons c s ih =>
    rw [List.splitOn_cons_eq_if_modifyHead]
    by_cases hc : c = a
    · rw [if_pos (by simp [hc]), List.length_cons, ih, hc, List.count_cons_self]
    · rw [if_neg (by simp [hc]), List.length_modifyHead, ih, List.count_cons_of_ne hc]

/-- **An IPv4 address has three dots.** -/
theorem isIPv4_count {s : List ℕ} (h : isIPv4 s = true) : s.count 46 = 3 := by
  rw [isIPv4] at h
  simp only [Bool.and_eq_true, decide_eq_true_eq, length_splitOn] at h
  omega

/-- Three groups with no gap are too few. -/
theorem not_isGroups_of_length {parts : List (List ℕ)} (h : isGroups parts = true)
    (hlen : parts.length ≠ 8) : [] ∈ parts.tail.dropLast := by
  rw [isGroups] at h
  by_contra hgap
  rw [if_neg hgap] at h
  simp only [Bool.and_eq_true, decide_eq_true_eq] at h
  exact hlen h.1

/-- A text without a scope is split off as a whole. -/
theorem splitScope_of_notMem {s : List ℕ} (h : 37 ∉ s) : splitScope s = some s := by
  rw [splitScope, List.splitOn_eq_singleton h]

/-- **An IPv6 address without a scope has two colons at least, and if it has no more, they stand
next to each other.** -/
theorem isIPv6_count {s : List ℕ} (h : isIPv6 s = true) (hscope : 37 ∉ s) :
    2 ≤ s.count 58 ∧ (s.count 58 = 2 → [58, 58] <:+: s) := by
  rw [isIPv6, splitScope_of_notMem hscope] at h
  simp only [Option.any_some, Bool.and_eq_true, decide_eq_true_eq, length_splitOn] at h
  obtain ⟨-, hcount, hgroups⟩ := h
  refine ⟨by omega, fun htwo => ?_⟩
  have hlen := length_splitOn 58 s
  have hs : [58].intercalate (s.splitOn 58) = s := List.intercalate_splitOn 58
  rw [htwo] at hlen
  match hparts : s.splitOn 58, hlen with
  | [p, q, r], _ =>
    have hq : q = [] := by
      rw [hparts, expandIPv4] at hgroups
      simp only [List.getLast?_cons_cons, List.getLast?_singleton, Option.getD_some] at hgroups
      split at hgroups
      · split at hgroups
        · simp only [Option.any_some, Bool.and_eq_true] at hgroups
          have := not_isGroups_of_length hgroups.2 (by simp)
          simpa [List.dropLast] using this
        · exact absurd hgroups (by simp)
      · simp only [Option.any_some, Bool.and_eq_true] at hgroups
        have := not_isGroups_of_length hgroups.2 (by simp)
        simpa [List.dropLast] using this
    rw [hparts, hq] at hs
    refine ⟨p, r, ?_⟩
    rw [← hs]
    simp [List.intercalate, List.intersperse]

/-- **An address has the dots of an IPv4 address or the colons of an IPv6 address.** -/
theorem isAddress_count {s : List ℕ} (h : isAddress s = true) (hscope : 37 ∉ s) :
    s.count 46 = 3 ∨ 2 ≤ s.count 58 ∧ (s.count 58 = 2 → [58, 58] <:+: s) := by
  rw [isAddress, Bool.or_eq_true] at h
  exact h.imp isIPv4_count fun h => isIPv6_count h hscope

end IpAddress
