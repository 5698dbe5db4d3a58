import EzOpenPN.Basic

/-!
# The port check of the preflight

Before it changes anything the installer asks `ss -H -lntup` for the listening sockets and
looks for foreign owners of the ports it needs. `_listener_conflicts` reads that listing
line by line, splits each line at white space, and takes the first column for the state of
the socket and the fourth for its local address.

This file embeds the reader, `EzOpenPN.listenerConflicts`, on the text it is given, and
the producer, `EzOpenPN.socketListing`, as far as the format is known: one line per socket
with the columns Netid, State, Recv-Q, Send-Q, local address, peer address and the
processes, padded with blanks. The two disagree by one column: with both protocols
requested the first column is the Netid, never a state, and
`EzOpenPN.reportsConflicts_iff` says what follows – **the check reports nothing at all**,
so it is right exactly on the listings without an occupied port.

Texts are lists of characters; the predicates on them are those of Python's `str`.
-/

namespace EzOpenPN

namespace Preflight

/-! ### Python's view of a text -/

/-- The characters at which `str.splitlines` ends a line. -/
def isLineBoundary (c : Char) : Bool :=
  let n := c.toNat
  (0xa ≤ n && n ≤ 0xd) || (0x1c ≤ n && n ≤ 0x1e) || n == 0x85 || n == 0x2028 || n == 0x2029

/-- `text.splitlines()`: a carriage return and the line feed after it end one line, and a
text that ends with a boundary has no empty last line. -/
def splitlines : List Char → List (List Char)
  | [] => []
  | '\r' :: '\n' :: rest => [] :: splitlines rest
  | c :: rest =>
    if isLineBoundary c then [] :: splitlines rest
    else
      match splitlines rest with
      | [] => [[c]]
      | line :: lines => (c :: line) :: lines

/-- `line.split()`: the non-empty pieces between white space. -/
def splitColumns (line : List Char) : List (List Char) :=
  (line.splitOnP isPySpace).filter fun piece => !piece.isEmpty

/-- The zeros of the runs of ten decimal digits that `\d` matches. -/
def decimalZeros : List ℕ :=
  [0x30, 0x660, 0x6f0, 0x7c0, 0x966, 0x9e6, 0xa66, 0xae6, 0xb66, 0xbe6, 0xc66, 0xce6, 0xd66,
    0xde6, 0xe50, 0xed0, 0xf20, 0x1040, 0x1090, 0x17e0, 0x1810, 0x1946, 0x19d0, 0x1a80, 0x1a90,
    0x1b50, 0x1bb0, 0x1c40, 0x1c50, 0xa620, 0xa8d0, 0xa900, 0xa9d0, 0xa9f0, 0xaa50, 0xabf0,
    0xff10, 0x104a0, 0x10d30, 0x11066, 0x110f0, 0x11136, 0x111d0, 0x112f0, 0x11450, 0x114d0,
    0x11650, 0x116c0, 0x11730, 0x118e0, 0x11950, 0x11c50, 0x11d50, 0x11da0, 0x16a60, 0x16ac0,
    0x16b50, 0x1d7ce, 0x1d7d8, 0x1d7e2, 0x1d7ec, 0x1d7f6, 0x1e140, 0x1e2f0, 0x1e950, 0x1fbf0]

/-- The value of a decimal digit, in any script. -/
def decimalValue (c : Char) : Option ℕ :=
  (decimalZeros.find? fun z => z ≤ c.toNat && c.toNat < z + 10).map (c.toNat - ·)

/-- `int(digits)` of a text of decimal digits; the interpreter refuses more than 4300 of
them with a `ValueError`. -/
def pyInt (digits : List Char) : Option ℕ :=
  if digits.length ≤ 4300 then
    some (digits.foldl (fun n c => 10 * n + (decimalValue c).getD 0) 0)
  else none

/-! ### The reader -/

/-- The transport protocols. -/
inductive Protocol where
  | tcp
  | udp
  deriving DecidableEq, Repr

/-- The text of a protocol. -/
def Protocol.text : Protocol → String
  | .tcp => "tcp"
  | .udp => "udp"

/-- A reported conflict. -/
structure Conflict where
  port : ℕ
  protocol : Protocol
  owner : String
  deriving DecidableEq, Repr

/-- The ports the installation needs. -/
def required : List (ℕ × Protocol) := [(80, .tcp), (443, .tcp), (443, .udp), (9443, .tcp)]

/-- `re.search(r":(\d+)$", column)`: the digits after the first colon that is followed by
nothing but digits. -/
def searchPort : List Char → Option (List Char)
  | [] => none
  | c :: rest =>
    if c == ':' && !rest.isEmpty && rest.all fun d => (decimalValue d).isSome then some rest
    else searchPort rest

/-- `re.search(r'users:\(\("([^"\\]+)', line)`: the first process name of the line. -/
def searchProcess : List Char → Option (List Char)
  | [] => none
  | c :: rest =>
    match (c :: rest).dropPrefix? "users:((\"".toList with
    | some tail =>
      let name := tail.takeWhile fun d => d != '"' && d != '\\'
      if name.isEmpty then searchProcess rest else some name
    | none => searchProcess rest

/-- The characters an owner may keep, `[A-Za-z0-9_.-]`. -/
def isOwnerChar (c : Char) : Bool := c.isAlpha || c.isDigit || c == '_' || c == '.' || c == '-'

/-- The owner of a line: the first process name, reduced to harmless characters. -/
def ownerOf (line : List Char) : String :=
  let owner := (searchProcess line).getD "unknown".toList
  let kept := (owner.filter isOwnerChar).take 64
  if kept.isEmpty then "unknown" else String.ofList kept

/-- The protocol that the first column stands for. -/
def protocolOf (column : List Char) : Option Protocol :=
  if column = "LISTEN".toList then some .tcp
  else if column = "UNCONN".toList then some .udp
  else none

/-- **One line of the loop**: the conflict it adds, if any. The outer option is the
`ValueError` of `int`. -/
def lineConflict (line : List Char) : Option (Option Conflict) :=
  match splitColumns line with
  | first :: _ :: _ :: fourth :: _ =>
    match protocolOf first, searchPort fourth with
    | some protocol, some digits => do
      let port ← pyInt digits
      if (port, protocol) ∈ required then return some ⟨port, protocol, ownerOf line⟩
      else return none
    | _, _ => some none
  | _ => some none

/-- The order of Python's tuples. -/
def Conflict.before (a b : Conflict) : Bool :=
  a.port < b.port || (a.port == b.port &&
    (a.protocol.text < b.protocol.text || (a.protocol == b.protocol && a.owner ≤ b.owner)))

/-- `sorted(conflicts)` at the end of the loop over the lines. -/
def foundConflicts (listeners : List Char) : Option (List Conflict) := do
  let found ← (splitlines listeners).mapM lineConflict
  return found.reduceOption.dedup.insertionSort fun a b => a.before b = true

/-- **`_listener_conflicts`**: the text it prints, one line per conflict. -/
def listenerConflicts (listeners : List Char) : Option String := do
  let conflicts ← foundConflicts listeners
  return String.join <| conflicts.map fun c =>
    toString c.port ++ "/" ++ c.protocol.text ++ " " ++ c.owner ++ "\n"

/-! ### The producer -/

/-- **A column**: a text without white space. -/
def Word : Type := { w : List Char // w ≠ [] ∧ ∀ c ∈ w, isPySpace c = false }

/-- A process name: any text that stays on its line. -/
def ProcessName : Type := { w : List Char // ∀ c ∈ w, isLineBoundary c = false }

/-- One entry of the process column. -/
structure Process where
  name : ProcessName
  pid : ℕ
  fd : ℕ

/-- **A socket as `ss -H -lntup` prints it.** -/
structure Socket where
  netid : Protocol
  state : Word
  recvQ : ℕ
  sendQ : ℕ
  /-- The local address, with its scope and brackets. -/
  address : Word
  port : Fin 65536
  peer : Word
  processes : List Process
  /-- The blanks that pad the columns, besides the one that ends each. -/
  padding : Fin 6 → ℕ

/-- The digits of a number. -/
def numeral (n : ℕ) : List Char := (toString n).toList

/-- The text of one process: `("name",pid=1,fd=2)`. -/
def Process.entry (p : Process) : List Char :=
  "(\"".toList ++ p.name.val ++ "\",pid=".toList ++ numeral p.pid ++ ",fd=".toList ++
    numeral p.fd ++ [')']

/-- The process column: `users:(("name",pid=1,fd=2),…)`. -/
def processColumn (processes : List Process) : List Char :=
  "users:(".toList ++ List.intercalate [','] (processes.map Process.entry) ++ [')']

/-- A column and the blanks after it. -/
def padded (column : List Char) (padding : ℕ) : List Char :=
  column ++ List.replicate (padding + 1) ' '

/-- The line of a socket. -/
def Socket.line (s : Socket) : List Char :=
  padded s.netid.text.toList (s.padding 0) ++ padded s.state.val (s.padding 1) ++
    padded (numeral s.recvQ) (s.padding 2) ++ padded (numeral s.sendQ) (s.padding 3) ++
    padded (s.address.val ++ ':' :: numeral s.port) (s.padding 4) ++
    padded s.peer.val (s.padding 5) ++
    if s.processes = [] then [] else processColumn s.processes

/-- **`_socket_listing`**, as the command substitution passes it on: the lines, without the
line feed at the end. -/
def socketListing (sockets : List Socket) : List Char :=
  List.intercalate ['\n'] (sockets.map Socket.line)

/-- A listening TCP socket or an unconnected UDP socket. -/
def Socket.isOpen (s : Socket) : Prop :=
  match s.netid with
  | .tcp => s.state.val = "LISTEN".toList
  | .udp => s.state.val = "UNCONN".toList

/-- The socket holds a port the installation needs. -/
def Socket.occupies (s : Socket) : Prop :=
  s.isOpen ∧ ((s.port : ℕ), s.netid) ∈ required

/-- The first process name of the socket's line. -/
def Socket.owner (s : Socket) : String :=
  match s.processes with
  | [] => "unknown"
  | p :: _ => String.ofList p.name.val

/-- **The check does its work**: it reports exactly the occupied ports, each with the first
process of its line. -/
def ReportsConflicts (sockets : List Socket) : Prop :=
  ∃ conflicts, foundConflicts (socketListing sockets) = some conflicts ∧
    ∀ c, c ∈ conflicts ↔
      ∃ s ∈ sockets, s.occupies ∧ c = ⟨s.port, s.netid, s.owner⟩

/-! ### Splitting what was joined -/

/-- A character that ends a line is white space. -/
theorem isPySpace_of_isLineBoundary {c : Char} (h : isLineBoundary c = true) :
    isPySpace c = true := by
  simp only [isLineBoundary, isPySpace, Bool.or_eq_true, Bool.and_eq_true, decide_eq_true_eq,
    beq_iff_eq] at h ⊢
  omega

/-- A text without boundaries is cut off at the line feed after it. -/
theorem splitlines_append_lineFeed {l : List Char} (hl : ∀ c ∈ l, isLineBoundary c = false)
    (rest : List Char) : splitlines (l ++ '\n' :: rest) = l :: splitlines rest := by
  induction l with
  | nil =>
    rw [List.nil_append, splitlines.eq_3 _ _ (by simp), if_pos (by decide)]
  | cons c l ih =>
    have hc : isLineBoundary c = false := hl c (by simp)
    -- the first character is no carriage return, so the two-character case is out
    have hcr : c ≠ '\r' := by
      rintro rfl
      exact absurd hc (by decide)
    rw [List.cons_append, splitlines.eq_3 _ _ (fun _ h => absurd h hcr), hc,
      ih fun d hd => hl d (by simp [hd])]
    rfl

/-- A non-empty text without boundaries is one line. -/
theorem splitlines_eq_singleton {l : List Char} (hne : l ≠ [])
    (hl : ∀ c ∈ l, isLineBoundary c = false) : splitlines l = [l] := by
  induction l with
  | nil => exact absurd rfl hne
  | cons c l ih =>
    have hc : isLineBoundary c = false := hl c (by simp)
    have hcr : c ≠ '\r' := by
      rintro rfl
      exact absurd hc (by decide)
    rw [splitlines.eq_3 _ _ (fun _ h => absurd h hcr), hc]
    rcases l with _ | ⟨d, l⟩
    · rfl
    · rw [ih (by simp) fun d hd => hl d (by simp [hd])]
      rfl

/-- **The lines of a listing are read back.** -/
theorem splitlines_intercalate (lines : List (List Char))
    (h : ∀ l ∈ lines, l ≠ [] ∧ ∀ c ∈ l, isLineBoundary c = false) :
    splitlines (List.intercalate ['\n'] lines) = lines := by
  induction lines with
  | nil => rfl
  | cons l lines ih =>
    obtain ⟨hne, hl⟩ := h l (by simp)
    rcases lines with _ | ⟨m, lines⟩
    · simpa [List.intercalate] using splitlines_eq_singleton hne hl
    · have hjoin : List.intercalate ['\n'] (l :: m :: lines) =
          l ++ '\n' :: List.intercalate ['\n'] (m :: lines) := by
        simp [List.intercalate]
      rw [hjoin, splitlines_append_lineFeed hl, ih fun k hk => h k (by simp [hk])]

/-- **The first column** of a line that starts with a word and a blank is that word. -/
theorem splitColumns_padded {w : List Char} (hne : w ≠ []) (hw : ∀ c ∈ w, isPySpace c = false)
    (padding : ℕ) (rest : List Char) :
    ∃ columns, splitColumns (padded w padding ++ rest) = w :: columns := by
  have hsplit : padded w padding ++ rest =
      w ++ ' ' :: (List.replicate padding ' ' ++ rest) := by
    simp [padded, List.replicate_succ]
  refine ⟨((List.replicate padding ' ' ++ rest).splitOnP isPySpace).filter
    fun piece => !piece.isEmpty, ?_⟩
  rw [hsplit, splitColumns, List.splitOnP_append_cons_of_forall_mem hw ' ' (by decide),
    List.filter_cons_of_pos (by simpa using hne)]

/-! ### The lines of the producer -/

/-- No digit of a number ends a line. -/
theorem not_isLineBoundary_numeral (n : ℕ) : ∀ c ∈ numeral n, isLineBoundary c = false := by
  intro c hc
  have hdigit : c.isDigit = true := by
    have hmem : c ∈ Nat.toDigits 10 n := by
      simpa [numeral, Nat.repr, toString] using hc
    exact Nat.isDigit_of_mem_toDigits (by decide) (by decide) hmem
  simp only [Char.isDigit, Bool.and_eq_true, decide_eq_true_eq, UInt32.le_iff_toNat_le] at hdigit
  obtain ⟨hlo, hhi⟩ := hdigit
  have h48 : '0'.val.toNat = 48 := rfl
  have h57 : '9'.val.toNat = 57 := rfl
  have htoNat : c.toNat = c.val.toNat := rfl
  simp only [isLineBoundary, Bool.or_eq_false_iff, Bool.and_eq_false_iff, decide_eq_false_iff_not,
    beq_eq_false_iff_ne]
  omega

/-- A column stays on its line. -/
theorem Word.not_isLineBoundary (w : Word) : ∀ c ∈ w.val, isLineBoundary c = false := by
  intro c hc
  by_contra hb
  have hspace := isPySpace_of_isLineBoundary (by simpa using hb)
  rw [w.property.2 c hc] at hspace
  exact absurd hspace (by decide)

/-- Padding adds no line end. -/
theorem not_isLineBoundary_padded {w : List Char} (hw : ∀ c ∈ w, isLineBoundary c = false)
    (padding : ℕ) : ∀ c ∈ padded w padding, isLineBoundary c = false := by
  intro c hc
  rcases List.mem_append.mp hc with hc | hc
  · exact hw c hc
  · rw [List.eq_of_mem_replicate hc]
    decide

/-- A process stays on its line. -/
theorem Process.not_isLineBoundary_entry (p : Process) :
    ∀ c ∈ p.entry, isLineBoundary c = false := by
  rw [Process.entry]
  simp only [List.forall_mem_append]
  have hstart : ∀ c ∈ "(\"".toList, isLineBoundary c = false :=
    List.forall_iff_forall_mem.mp (by decide +kernel)
  have hpid : ∀ c ∈ "\",pid=".toList, isLineBoundary c = false :=
    List.forall_iff_forall_mem.mp (by decide +kernel)
  have hfd : ∀ c ∈ ",fd=".toList, isLineBoundary c = false :=
    List.forall_iff_forall_mem.mp (by decide +kernel)
  have hend : ∀ c ∈ [')'], isLineBoundary c = false :=
    List.forall_iff_forall_mem.mp (by decide +kernel)
  exact ⟨⟨⟨⟨⟨⟨hstart, p.name.property⟩, hpid⟩, not_isLineBoundary_numeral _⟩, hfd⟩,
    not_isLineBoundary_numeral _⟩, hend⟩

/-- Texts that stay on their lines, joined by commas, stay on one line. -/
theorem not_isLineBoundary_intercalate (entries : List (List Char))
    (h : ∀ e ∈ entries, ∀ c ∈ e, isLineBoundary c = false) :
    ∀ c ∈ List.intercalate [','] entries, isLineBoundary c = false := by
  induction entries with
  | nil => simp [List.intercalate]
  | cons e entries ih =>
    rcases entries with _ | ⟨f, entries⟩
    · simpa [List.intercalate] using h
    · have hjoin : List.intercalate [','] (e :: f :: entries) =
          e ++ ',' :: List.intercalate [','] (f :: entries) := by
        simp [List.intercalate]
      rw [hjoin]
      simp only [List.forall_mem_append, List.forall_mem_cons]
      exact ⟨h e (by simp), by decide, ih fun g hg => h g (by simp [hg])⟩

/-- The process column stays on its line. -/
theorem not_isLineBoundary_processColumn (processes : List Process) :
    ∀ c ∈ processColumn processes, isLineBoundary c = false := by
  have hentries : ∀ c ∈ List.intercalate [','] (processes.map Process.entry),
      isLineBoundary c = false := by
    apply not_isLineBoundary_intercalate
    intro e he
    obtain ⟨p, -, rfl⟩ := List.mem_map.mp he
    exact p.not_isLineBoundary_entry
  have husers : ∀ c ∈ "users:(".toList, isLineBoundary c = false :=
    List.forall_iff_forall_mem.mp (by decide +kernel)
  intro c hc
  rcases List.mem_append.mp hc with hc | hc
  · rcases List.mem_append.mp hc with hc | hc
    · exact husers c hc
    · exact hentries c hc
  · rw [List.mem_singleton.mp hc]
    decide

/-- The line of a socket is one line. -/
theorem Socket.not_isLineBoundary_line (s : Socket) :
    ∀ c ∈ s.line, isLineBoundary c = false := by
  have hprocesses : ∀ c ∈ (if s.processes = [] then [] else processColumn s.processes),
      isLineBoundary c = false := by
    split
    · simp
    · exact not_isLineBoundary_processColumn _
  have hlocal : ∀ c ∈ s.address.val ++ ':' :: numeral s.port, isLineBoundary c = false := by
    simp only [List.forall_mem_append, List.forall_mem_cons]
    exact ⟨s.address.not_isLineBoundary, by decide, not_isLineBoundary_numeral _⟩
  have hnetid : ∀ c ∈ s.netid.text.toList, isLineBoundary c = false := by
    cases s.netid <;> exact List.forall_iff_forall_mem.mp (by decide)
  rw [Socket.line]
  simp only [List.forall_mem_append]
  exact ⟨⟨⟨⟨⟨⟨not_isLineBoundary_padded hnetid _,
    not_isLineBoundary_padded s.state.not_isLineBoundary _⟩,
    not_isLineBoundary_padded (not_isLineBoundary_numeral _) _⟩,
    not_isLineBoundary_padded (not_isLineBoundary_numeral _) _⟩,
    not_isLineBoundary_padded hlocal _⟩,
    not_isLineBoundary_padded s.peer.not_isLineBoundary _⟩, hprocesses⟩

/-- **The first column is the Netid.** -/
theorem Socket.splitColumns_line (s : Socket) :
    ∃ columns, splitColumns s.line = s.netid.text.toList :: columns := by
  have hne : s.netid.text.toList ≠ [] := by cases s.netid <;> decide
  have hspace : ∀ c ∈ s.netid.text.toList, isPySpace c = false := by
    cases s.netid <;> exact List.forall_iff_forall_mem.mp (by decide)
  simp only [Socket.line, List.append_assoc]
  exact splitColumns_padded hne hspace _ _

/-! ### The check reports nothing -/

/-- A Netid is not the name of a state. -/
theorem protocolOf_netid (p : Protocol) : protocolOf p.text.toList = none := by
  cases p <;> decide

/-- **No line of the listing is ever a conflict.** -/
theorem Socket.lineConflict_line (s : Socket) : lineConflict s.line = some none := by
  obtain ⟨columns, hcolumns⟩ := s.splitColumns_line
  rw [lineConflict, hcolumns]
  rcases columns with _ | ⟨second, _ | ⟨third, _ | ⟨fourth, rest⟩⟩⟩
  · rfl
  · rfl
  · rfl
  · show (match protocolOf s.netid.text.toList, searchPort fourth with
      | some protocol, some digits => _
      | _, _ => some none) = some none
    rw [protocolOf_netid]

/-- **Whatever listens, nothing is found.** -/
theorem foundConflicts_socketListing (sockets : List Socket) :
    foundConflicts (socketListing sockets) = some [] := by
  have hlines : splitlines (socketListing sockets) = sockets.map Socket.line := by
    apply splitlines_intercalate
    intro l hl
    obtain ⟨s, -, rfl⟩ := List.mem_map.mp hl
    refine ⟨?_, s.not_isLineBoundary_line⟩
    -- the line starts with the Netid, so it is not empty
    obtain ⟨columns, hcolumns⟩ := s.splitColumns_line
    intro hnil
    rw [hnil] at hcolumns
    exact absurd hcolumns (by simp [splitColumns])
  have hloop : ∀ l : List Socket, ∃ found : List (Option Conflict),
      (l.map Socket.line).mapM lineConflict = some found ∧ found.reduceOption = [] := by
    intro l
    induction l with
    | nil => exact ⟨[], rfl, rfl⟩
    | cons s l ih =>
      obtain ⟨found, hfound, hempty⟩ := ih
      refine ⟨none :: found, ?_, hempty⟩
      rw [List.map_cons, List.mapM_cons, s.lineConflict_line, hfound]
      rfl
  obtain ⟨found, hfound, hempty⟩ := hloop sockets
  rw [foundConflicts, hlines, hfound]
  simp [hempty]

/-- **The check is right exactly when there is nothing to report**: no listed socket holds
one of the ports of the installation. -/
theorem reportsConflicts_iff (sockets : List Socket) :
    ReportsConflicts sockets ↔ ∀ s ∈ sockets, ¬ s.occupies := by
  rw [ReportsConflicts, foundConflicts_socketListing]
  constructor
  · rintro ⟨conflicts, hfound, hconflicts⟩ s hs hoccupies
    obtain rfl : [] = conflicts := Option.some.inj hfound
    have hmem := (hconflicts _).mpr ⟨s, hs, hoccupies, rfl⟩
    simp at hmem
  · intro hfree
    refine ⟨[], rfl, fun c => ⟨fun hc => by simp at hc, ?_⟩⟩
    rintro ⟨s, hs, hoccupies, -⟩
    exact absurd hoccupies (hfree s hs)

/-- A web server on port 443, as `ss -H -lntup` prints it. -/
def foreignCaddy : Socket where
  netid := .tcp
  state := ⟨"LISTEN".toList, by decide, List.forall_iff_forall_mem.mp (by decide)⟩
  recvQ := 0
  sendQ := 4096
  address := ⟨"0.0.0.0".toList, by decide, List.forall_iff_forall_mem.mp (by decide)⟩
  port := 443
  peer := ⟨"0.0.0.0:*".toList, by decide, List.forall_iff_forall_mem.mp (by decide)⟩
  processes := [⟨⟨"caddy".toList, List.forall_iff_forall_mem.mp (by decide)⟩, 123, 7⟩]
  padding := fun i => if i = 0 then 2 else 0

/-- **A foreign web server on port 443 goes unnoticed**: its line is
`tcp   LISTEN 0 4096 0.0.0.0:443 0.0.0.0:* users:(("caddy",pid=123,fd=7))`. -/
theorem foreignCaddy_unreported :
    listenerConflicts (socketListing [foreignCaddy]) = some "" ∧
      ¬ ReportsConflicts [foreignCaddy] := by
  refine ⟨by rw [listenerConflicts, foundConflicts_socketListing]; rfl, ?_⟩
  rintro ⟨conflicts, hfound, hconflicts⟩
  rw [foundConflicts_socketListing] at hfound
  obtain rfl : [] = conflicts := Option.some.inj hfound
  have hmem := (hconflicts _).mpr ⟨foreignCaddy, by simp, ⟨rfl, by decide⟩, rfl⟩
  simp at hmem

end Preflight

end EzOpenPN
