import EzOpenPN.Certsync.Health

/-!
# Discovering a certificate

`cert-sync` walks the certificate store of the web server and selects, among the files that look
like certificates, the one for the public address that expires last. A certificate is *eligible*
when its first certificate block is valid long enough, names the address and has a private key next
to it (`EzOpenPN.Certsync.discover_eligible`); the export and the health check apply the same
conditions again, to the files they see.

Certificate parsing, the PEM decoder, the check of a pair and SHA-256 are the standard library's and
parameters here (`EzOpenPN.Certsync.Library`). The store is what the walk sees of it: the entries
below the root by their paths.
-/

namespace EzOpenPN

namespace Certsync

/-! ### Certificates -/

/-- A PEM block. -/
structure Block where
  type : String
  bytes : Bytes
  deriving DecidableEq

/-- What is used of a parsed certificate. Its times are whole seconds since the start of the
year 0. -/
structure Certificate where
  raw : Bytes
  notBefore : ℤ
  notAfter : ℤ
  ipAddresses : List Bytes
  deriving DecidableEq

/-- The start of validity. -/
def Certificate.from (c : Certificate) : Time := c.notBefore * second

/-- The end of validity. -/
def Certificate.until (c : Certificate) : Time := c.notAfter * second

/-- **The functions of the standard library.** -/
structure Library where
  /-- `tls.X509KeyPair` returns no error. -/
  keyPair : Bytes → Bytes → Bool
  /-- `pem.Decode`: a block and the rest of the input. -/
  pemDecode : Bytes → Option (Block × Bytes)
  /-- `x509.ParseCertificate`. -/
  parseCertificate : Bytes → Option Certificate
  /-- `sha256.Sum256`. -/
  sha256 : Bytes → Digest
  /-- `time.Parse` for RFC 3339. -/
  parseTime : ParseTime

variable (lib : Library)

/-- The loop of `pemCertificate`; every block takes at least one byte. -/
def firstCertificate : ℕ → Bytes → Option Certificate
  | 0, _ => none
  | n + 1, rest =>
    if rest.isEmpty then none
    else
      match lib.pemDecode rest with
      | none => none
      | some (block, remaining) =>
        if block.type = "CERTIFICATE" then lib.parseCertificate block.bytes
        else firstCertificate n remaining

/-- **`pemCertificate`**: the first certificate block. -/
def pemCertificate (content : Bytes) : Option Certificate :=
  firstCertificate lib content.length content

/-- **`certificateMatches`**: valid now and for the time required, and for the address. -/
def certificateMatches (certificate : Certificate) (wanted : IPv4) (now minimumValidity : Time) :
    Bool :=
  !decide (now < certificate.from) && !decide (certificate.until < now + minimumValidity) &&
    certificate.ipAddresses.any fun candidate => to4 candidate == some wanted

/-- The fingerprint of a certificate. -/
def fingerprintOf (leaf : Certificate) : List Char := (lib.sha256 leaf.raw).hex

/-! ### Files -/

/-- What stands at a path. -/
inductive Entry where
  | regular (content : Bytes) (perm : ℕ)
  /-- A regular file that cannot be opened. -/
  | unreadable
  | directory (readable : Bool)
  | symlink
  | other
  deriving DecidableEq

/-- The largest PEM file. -/
def maximumPEMSize : ℕ := 4 * 2 ^ 20

/-- **`readRegularFile`**: no link, not empty and not too large. -/
def readRegularFile (entry : Option Entry) (maximumBytes : ℕ) : Option Bytes :=
  match entry with
  | some (.regular content _) =>
    if 0 < content.length ∧ content.length ≤ maximumBytes then some content else none
  | _ => none

/-! ### The store -/

/-- A file name. -/
abbrev Name := List Char

/-- A path below the root of the store. -/
abbrev Path := List Name

/-- **The certificate store**: what is at its root, and the entries below. -/
structure Source where
  root : Option Entry
  entries : List (Path × Entry)

/-- The entry at a path. -/
def Source.lookup (source : Source) (path : Path) : Option Entry :=
  (source.entries.find? fun e => e.1 == path).map Prod.snd

/-- Lexicographic order. -/
def lexLe {α : Type} (lt : α → α → Bool) : List α → List α → Bool
  | [], _ => true
  | _ :: _, [] => false
  | a :: as, b :: bs => lt a b || (!lt b a && lexLe lt as bs)

/-- The order of names. -/
def nameLt (a b : Name) : Bool := !lexLe (fun c d => decide (c.toNat < d.toNat)) b a

/-- The order of `filepath.WalkDir`: directories are read in the order of names. -/
def Source.walk (source : Source) : List (Path × Entry) :=
  source.entries.insertionSort fun a b => lexLe nameLt a.1 b.1 = true

/-- `filepath.Ext`: from the last period of the name. -/
def extension (name : Name) : List Char :=
  let tail := name.reverse.takeWhile (· != '.')
  if tail.length = name.length then [] else '.' :: tail.reverse

/-- A pair of certificate and key. -/
structure Pair where
  certificatePath : Path
  privateKeyPath : Path
  certificatePEM : Bytes
  privateKeyPEM : Bytes
  ip : Bytes
  notAfter : Time
  fingerprint : List Char
  deriving DecidableEq

/-- The zero pair. -/
def Pair.zero : Pair := ⟨[], [], [], [], [], zeroTime, []⟩

/-- The errors of the package. -/
inductive Error where
  | noMatchingCertificate
  | certificateSource
  | invalidCertificate
  deriving DecidableEq

/-- The bytes of an address. -/
def IPv4.bytes (ip : IPv4) : Bytes := [ip.a, ip.b, ip.c, ip.d]

/-- The files in which the key of a certificate may stand. -/
def keyCandidates (path : Path) : List Path :=
  let name := path.getLastD []
  let ext := extension name
  let stem := name.take (name.length - ext.length)
  let names := [stem ++ ".key".toList, stem ++ "-key.pem".toList] ++
    (if ext.map Char.toLower ≠ ".pem".toList then [stem ++ ".pem".toList] else []) ++ [name]
  names.map fun n => path.dropLast ++ [n]

/-- **`findPrivateKey`**: the first candidate that fits the certificate. -/
def findPrivateKey (source : Source) (path : Path) (certificatePEM : Bytes) :
    Option (Path × Bytes) :=
  (keyCandidates path).findSome? fun candidate =>
    match readRegularFile (source.lookup candidate) maximumPEMSize with
    | some key => if lib.keyPair certificatePEM key then some (candidate, key) else none
    | none => none

/-- **One call of the walk**: the best pair after an entry. -/
def visit (source : Source) (wanted : IPv4) (now minimumValidity : Time) (best : Pair)
    (item : Path × Entry) : Pair :=
  match item.2 with
  | .directory _ => best
  | .symlink => best
  | entry =>
    let ext := (extension (item.1.getLastD [])).map Char.toLower
    if ext ≠ ".crt".toList ∧ ext ≠ ".pem".toList then best
    else
      match readRegularFile (some entry) maximumPEMSize with
      | none => best
      | some certificatePEM =>
        match pemCertificate lib certificatePEM with
        | none => best
        | some leaf =>
          if !certificateMatches leaf wanted now minimumValidity then best
          else
            match findPrivateKey lib source item.1 certificatePEM with
            | none => best
            | some (keyPath, privateKeyPEM) =>
              if !lib.keyPair certificatePEM privateKeyPEM then best
              else if best.notAfter ≠ zeroTime ∧ leaf.until ≤ best.notAfter then best
              else ⟨item.1, keyPath, certificatePEM, privateKeyPEM, wanted.bytes, leaf.until,
                fingerprintOf lib leaf⟩

/-- **`Discover`**: a directory below the root that cannot be read ends the walk. -/
def discover (source : Source) (wantedIP : Bytes) (now minimumValidity : Time) :
    Except Error Pair :=
  match to4 wantedIP with
  | none => .error .certificateSource
  | some wanted =>
    if minimumValidity ≤ 0 then .error .certificateSource
    else if source.root ≠ some (.directory true) then .error .certificateSource
    else if (source.entries.any fun e => e.2 == .directory false) then .error .certificateSource
    else
      let best := source.walk.foldl (visit lib source wanted now minimumValidity) Pair.zero
      if best.notAfter = zeroTime then .error .noMatchingCertificate else .ok best

/-! ### What is discovered -/

/-- **An eligible pair**: the conditions under which a pair is selected. -/
structure Eligible (wanted : IPv4) (now minimumValidity : Time) (pair : Pair) : Prop where
  certificate_size : 0 < pair.certificatePEM.length ∧ pair.certificatePEM.length ≤ maximumPEMSize
  key_size : 0 < pair.privateKeyPEM.length ∧ pair.privateKeyPEM.length ≤ maximumPEMSize
  keyPair : lib.keyPair pair.certificatePEM pair.privateKeyPEM = true
  ip : pair.ip = wanted.bytes
  leaf : ∃ leaf, pemCertificate lib pair.certificatePEM = some leaf ∧
    certificateMatches leaf wanted now minimumValidity = true ∧ pair.notAfter = leaf.until ∧
    pair.fingerprint = fingerprintOf lib leaf

variable {lib}

/-- What is read is not empty and not too large. -/
theorem readRegularFile_eq_some {entry : Option Entry} {maximumBytes : ℕ} {content : Bytes}
    (h : readRegularFile entry maximumBytes = some content) :
    (∃ perm, entry = some (.regular content perm)) ∧ 0 < content.length ∧
      content.length ≤ maximumBytes := by
  rcases entry with _ | (⟨content', perm⟩ | _ | _ | _ | _)
  all_goals simp only [readRegularFile, reduceCtorEq] at h
  split at h
  · rename_i hsize
    obtain rfl := Option.some.inj h
    exact ⟨⟨perm, rfl⟩, hsize⟩
  · simp at h

/-- A key that is found fits and was read. -/
theorem findPrivateKey_spec {source : Source} {path : Path} {certificatePEM key : Bytes}
    {keyPath : Path} (h : findPrivateKey lib source path certificatePEM = some (keyPath, key)) :
    lib.keyPair certificatePEM key = true ∧ 0 < key.length ∧ key.length ≤ maximumPEMSize := by
  obtain ⟨candidate, -, hcandidate⟩ := List.exists_of_findSome?_eq_some h
  cases hread : readRegularFile (source.lookup candidate) maximumPEMSize with
  | none => simp [hread] at hcandidate
  | some content =>
    simp only [hread] at hcandidate
    split at hcandidate
    · rename_i hpair
      obtain ⟨rfl, rfl⟩ : candidate = keyPath ∧ content = key := by simpa using hcandidate
      exact ⟨hpair, (readRegularFile_eq_some hread).2⟩
    · simp at hcandidate

/-- **One call of the walk** keeps the pair or selects an eligible one. -/
theorem visit_eligible (source : Source) (wanted : IPv4) (now minimumValidity : Time) (best : Pair)
    (item : Path × Entry) :
    visit lib source wanted now minimumValidity best item = best ∨
      Eligible lib wanted now minimumValidity
        (visit lib source wanted now minimumValidity best item) := by
  fun_cases visit lib source wanted now minimumValidity best item
  all_goals first | exact .inl rfl | skip
  -- the one branch that selects: its conditions are the fields
  right
  rename_i leaf hleaf hmatches keyPath key hkey _ _ _ _ hread
  have hcertificate := (readRegularFile_eq_some hread).2
  have hfound := findPrivateKey_spec hkey
  refine ⟨hcertificate, hfound.2, hfound.1, rfl, leaf, hleaf, by simpa using hmatches, rfl, rfl⟩

/-- **What `Discover` returns is eligible.** -/
theorem discover_eligible {source : Source} {wantedIP : Bytes} {now minimumValidity : Time}
    {pair : Pair} (h : discover lib source wantedIP now minimumValidity = .ok pair) :
    0 < minimumValidity ∧
      ∃ wanted, to4 wantedIP = some wanted ∧ Eligible lib wanted now minimumValidity pair := by
  rw [discover] at h
  split at h
  · simp at h
  · rename_i wanted hwanted
    split at h
    · simp at h
    · rename_i hvalidity
      split at h
      · simp at h
      · split at h
        · simp at h
        · simp only at h
          split at h
          · simp at h
          · rename_i hfound
            obtain rfl := Except.ok.inj h
            -- the pair is the zero one until one was selected
            have hfold : ∀ (items : List (Path × Entry)) (best : Pair),
                (best.notAfter = zeroTime ∨ Eligible lib wanted now minimumValidity best) →
                (items.foldl (visit lib source wanted now minimumValidity) best).notAfter =
                    zeroTime ∨
                  Eligible lib wanted now minimumValidity
                    (items.foldl (visit lib source wanted now minimumValidity) best) := by
              intro items
              induction items with
              | nil => exact fun _ hbest => hbest
              | cons item items ih =>
                intro best hbest
                refine ih _ ?_
                rcases @visit_eligible lib source wanted now minimumValidity best item with
                  hsame | hnew
                · rwa [hsame]
                · exact .inr hnew
            exact ⟨not_le.mp hvalidity, wanted, hwanted,
              (hfold source.walk Pair.zero (.inl rfl)).resolve_left hfound⟩

end Certsync

end EzOpenPN
