import EzOpenPN.Certsync.Export

/-!
# Which certificate is selected

`Discover` walks over the store with a running best and skips what it cannot use, for one of several
reasons. What it returns does not depend on the order of the walk but for ties: **it is a usable
certificate that expires last, with the first key that fits it**, and there is one if and only if some
file is usable at all (`EzOpenPN.Certsync.discover_selects`).

The best one is recognized by its time of expiry, and the zero time stands for none. A certificate
that is valid in the future does not expire at the zero time, so the two are never mixed up.
-/

namespace EzOpenPN

namespace Certsync

/-! ### Usable certificates -/

section Usable

variable (lib : Library) (source : Source)

/-- A file has a key for a certificate. -/
def Fits (certificatePEM : Bytes) (candidate : Path) (key : Bytes) : Prop :=
  readRegularFile (source.lookup candidate) maximumPEMSize = some key ∧
    lib.keyPair certificatePEM key = true

/-- **A file with a usable certificate**: its first certificate names the address, is valid now and
long enough, and a candidate has its key. -/
structure Usable (wanted : IPv4) (now minimumValidity : Time) (path : Path) (certificatePEM : Bytes)
    (leaf : Certificate) : Prop where
  file : ∃ perm, (path, Entry.regular certificatePEM perm) ∈ source.entries
  extension : (extension (path.getLastD [])).map Char.toLower = ".crt".toList ∨
    (extension (path.getLastD [])).map Char.toLower = ".pem".toList
  size : 0 < certificatePEM.length ∧ certificatePEM.length ≤ maximumPEMSize
  first : pemCertificate lib certificatePEM = some leaf
  names : ∃ address ∈ leaf.ipAddresses, to4 address = some wanted
  started : leaf.from ≤ now
  lasts : now + minimumValidity ≤ leaf.until
  key : ∃ candidate ∈ keyCandidates path, ∃ key, Fits lib source certificatePEM candidate key

/-- **The first candidate that fits.** -/
def FirstFit (path : Path) (certificatePEM : Bytes) (keyPath : Path) (key : Bytes) : Prop :=
  ∃ before after, keyCandidates path = before ++ keyPath :: after ∧
    Fits lib source certificatePEM keyPath key ∧
    ∀ candidate ∈ before, ∀ other, ¬Fits lib source certificatePEM candidate other

/-- **A store that can be read**: its root is a directory, and every directory below can be listed. -/
def Source.Readable : Prop :=
  source.root = some (.directory true) ∧ ∀ e ∈ source.entries, e.2 ≠ .directory false

end Usable

variable {lib : Library} {source : Source} {wanted : IPv4} {now minimumValidity : Time}
variable {path keyPath : Path} {certificatePEM key : Bytes} {leaf : Certificate}

theorem certificateMatches_iff : certificateMatches leaf wanted now minimumValidity = true ↔
    leaf.from ≤ now ∧ now + minimumValidity ≤ leaf.until ∧
      ∃ address ∈ leaf.ipAddresses, to4 address = some wanted := by
  simp [certificateMatches, and_assoc]

theorem readRegularFile_regular {content : Bytes} {perm maximumBytes : ℕ}
    (h : 0 < content.length ∧ content.length ≤ maximumBytes) :
    readRegularFile (some (.regular content perm)) maximumBytes = some content := if_pos h

/-- What `findPrivateKey` does with a candidate. -/
def tryKey (lib : Library) (source : Source) (certificatePEM : Bytes) (candidate : Path) :
    Option (Path × Bytes) :=
  match readRegularFile (source.lookup candidate) maximumPEMSize with
  | some key => if lib.keyPair certificatePEM key then some (candidate, key) else none
  | none => none

theorem findPrivateKey_eq : findPrivateKey lib source path certificatePEM =
    (keyCandidates path).findSome? (tryKey lib source certificatePEM) := rfl

theorem tryKey_eq_some {candidate : Path} : tryKey lib source certificatePEM candidate =
    some (keyPath, key) ↔ candidate = keyPath ∧ Fits lib source certificatePEM candidate key := by
  rw [Fits, tryKey]
  cases readRegularFile (source.lookup candidate) maximumPEMSize with
  | none => simp
  | some content =>
    by_cases hpair : lib.keyPair certificatePEM content = true
    · simp only [hpair, if_true, Option.some.injEq, Prod.mk.injEq]
      exact and_congr_right fun _ => ⟨fun heq => ⟨heq, heq ▸ hpair⟩, And.left⟩
    · simp only [hpair, Bool.false_eq_true, if_false, reduceCtorEq, false_iff, Option.some.injEq]
      rintro ⟨-, rfl, hpair'⟩
      exact hpair hpair'

/-- **`findPrivateKey` finds the first candidate that fits.** -/
theorem findPrivateKey_firstFit (h : findPrivateKey lib source path certificatePEM =
    some (keyPath, key)) : FirstFit lib source path certificatePEM keyPath key := by
  rw [findPrivateKey_eq] at h
  obtain ⟨before, candidate, after, hsplit, hfound, hbefore⟩ := List.findSome?_eq_some_iff.mp h
  obtain ⟨rfl, hfits⟩ := tryKey_eq_some.mp hfound
  refine ⟨before, after, hsplit, hfits, fun other hother otherKey hother' => ?_⟩
  have hnone := hbefore other hother
  rw [tryKey_eq_some.mpr ⟨rfl, hother'⟩] at hnone
  cases hnone

/-- It finds one if there is one. -/
theorem exists_findPrivateKey {candidate : Path} (hcandidate : candidate ∈ keyCandidates path)
    (hfits : Fits lib source certificatePEM candidate key) :
    ∃ keyPath key, findPrivateKey lib source path certificatePEM = some (keyPath, key) := by
  have hsome : (findPrivateKey lib source path certificatePEM).isSome = true := by
    rw [findPrivateKey_eq, List.findSome?_isSome_iff]
    exact ⟨candidate, hcandidate, by rw [tryKey_eq_some.mpr ⟨rfl, hfits⟩]; rfl⟩
  obtain ⟨⟨keyPath, key⟩, hfound⟩ := Option.isSome_iff_exists.mp hsome
  exact ⟨keyPath, key, hfound⟩

/-! ### One call of the walk -/

section Offers

variable (lib source wanted now minimumValidity)

/-- **The pair of an entry**, whatever the best one is. -/
def offered (item : Path × Entry) : Option Pair :=
  match item.2 with
  | .directory _ => none
  | .symlink => none
  | entry =>
    let ext := (extension (item.1.getLastD [])).map Char.toLower
    if ext ≠ ".crt".toList ∧ ext ≠ ".pem".toList then none
    else
      match readRegularFile (some entry) maximumPEMSize with
      | none => none
      | some certificatePEM =>
        match pemCertificate lib certificatePEM with
        | none => none
        | some leaf =>
          if !certificateMatches leaf wanted now minimumValidity then none
          else
            match findPrivateKey lib source item.1 certificatePEM with
            | none => none
            | some (keyPath, privateKeyPEM) =>
              if !lib.keyPair certificatePEM privateKeyPEM then none
              else some ⟨item.1, keyPath, certificatePEM, privateKeyPEM, wanted.bytes, leaf.until,
                fingerprintOf lib leaf⟩

/-- The better one of the best pair and another one. -/
def better (best : Pair) : Option Pair → Pair
  | none => best
  | some pair => if best.notAfter ≠ zeroTime ∧ pair.notAfter ≤ best.notAfter then best else pair

end Offers

/-- **One call of the walk** takes the better one of the best pair and the one of the entry. -/
theorem visit_eq (best : Pair) (item : Path × Entry) :
    visit lib source wanted now minimumValidity best item =
      better best (offered lib source wanted now minimumValidity item) := by
  obtain ⟨path, entry⟩ := item
  cases entry with
  | directory readable => rfl
  | symlink => rfl
  | _ =>
    simp only [visit, offered]
    split
    · rfl
    · cases readRegularFile _ maximumPEMSize with
      | none => rfl
      | some certificatePEM =>
        dsimp only
        cases pemCertificate lib certificatePEM with
        | none => rfl
        | some leaf =>
          dsimp only
          split
          · rfl
          · rcases findPrivateKey lib source path certificatePEM with _ | ⟨keyPath, key⟩
            · rfl
            · dsimp only
              split <;> rfl

/-- **What is offered is usable**, with the first key that fits. -/
theorem offered_spec {item : Path × Entry} {pair : Pair}
    (h : offered lib source wanted now minimumValidity item = some pair)
    (hitem : item ∈ source.entries) :
    FirstFit lib source pair.certificatePath pair.certificatePEM pair.privateKeyPath
        pair.privateKeyPEM ∧
      pair.ip = wanted.bytes ∧
      ∃ leaf, Usable lib source wanted now minimumValidity pair.certificatePath pair.certificatePEM
          leaf ∧ pair.notAfter = leaf.until ∧ pair.fingerprint = fingerprintOf lib leaf := by
  obtain ⟨path, entry⟩ := item
  cases entry with
  | directory readable => cases h
  | symlink => cases h
  | _ =>
    simp only [offered] at h
    split at h
    · cases h
    · rename_i hext
      rw [not_and_or, not_not, not_not] at hext
      cases hread : readRegularFile _ maximumPEMSize with
      | none =>
        rw [hread] at h
        cases h
      | some certificatePEM =>
        rw [hread] at h
        dsimp only at h
        obtain ⟨⟨perm, hregular⟩, hsize⟩ := readRegularFile_eq_some hread
        cases hleaf : pemCertificate lib certificatePEM with
        | none =>
          rw [hleaf] at h
          cases h
        | some leaf =>
          rw [hleaf] at h
          dsimp only at h
          split at h
          · cases h
          · rename_i hmatches
            rw [Bool.not_eq_true', Bool.not_eq_false] at hmatches
            obtain ⟨hstarted, hlasts, hnames⟩ := certificateMatches_iff.mp hmatches
            rcases hfound : findPrivateKey lib source path certificatePEM with _ | ⟨keyPath, key⟩
            · rw [hfound] at h
              cases h
            · rw [hfound] at h
              dsimp only at h
              split at h
              · cases h
              · obtain rfl := Option.some.inj h
                have hfirst := findPrivateKey_firstFit hfound
                obtain ⟨before, after, hsplit, hfits, -⟩ := findPrivateKey_firstFit hfound
                refine ⟨hfirst, rfl, leaf, ⟨⟨perm, ?_⟩, hext, hsize, hleaf, hnames, hstarted, hlasts,
                  keyPath, ?_, key, hfits⟩, rfl, rfl⟩
                · rw [Option.some.inj hregular] at hitem
                  exact hitem
                · rw [hsplit]
                  exact List.mem_append_right _ List.mem_cons_self

/-- **A usable certificate is offered.** -/
theorem exists_offered (h : Usable lib source wanted now minimumValidity path certificatePEM leaf) :
    ∃ item ∈ source.entries, ∃ pair,
      offered lib source wanted now minimumValidity item = some pair ∧ pair.notAfter = leaf.until := by
  obtain ⟨perm, hfile⟩ := h.file
  obtain ⟨candidate, hcandidate, key, hfits⟩ := h.key
  obtain ⟨keyPath, key', hfound⟩ := exists_findPrivateKey hcandidate hfits
  obtain ⟨-, -, -, ⟨-, hpair⟩, -⟩ := findPrivateKey_firstFit hfound
  have hmatches : certificateMatches leaf wanted now minimumValidity = true :=
    certificateMatches_iff.mpr ⟨h.started, h.lasts, h.names⟩
  have hext : ¬((extension (path.getLastD [])).map Char.toLower ≠ ".crt".toList ∧
      (extension (path.getLastD [])).map Char.toLower ≠ ".pem".toList) := by
    rw [not_and_or, not_not, not_not]
    exact h.extension
  refine ⟨_, hfile, ⟨path, keyPath, certificatePEM, key', wanted.bytes, leaf.until,
    fingerprintOf lib leaf⟩, ?_, rfl⟩
  simp only [offered]
  rw [if_neg hext, readRegularFile_regular h.size]
  dsimp only
  rw [h.first]
  dsimp only
  rw [hmatches, hfound]
  dsimp only
  rw [hpair]
  rfl

/-! ### The whole walk -/

section Walk

variable {β : Type} {offer : β → Option Pair} {best : Pair} {items : List β}

/-- **A running best**: it is the first one or one that was offered, and none that was offered expires
later. -/
theorem foldl_better (hlate : ∀ item ∈ items, ∀ pair, offer item = some pair →
      zeroTime < pair.notAfter) (hbest : zeroTime ≤ best.notAfter) :
    (items.foldl (fun best item => better best (offer item)) best = best ∨
        ∃ item ∈ items, offer item = some (items.foldl (fun best item => better best (offer item)) best)) ∧
      best.notAfter ≤ (items.foldl (fun best item => better best (offer item)) best).notAfter ∧
      ∀ item ∈ items, ∀ pair, offer item = some pair → pair.notAfter ≤
        (items.foldl (fun best item => better best (offer item)) best).notAfter := by
  induction items generalizing best with
  | nil => exact ⟨.inl rfl, le_refl _, nofun⟩
  | cons first rest ih =>
    -- one step takes the best one or the one offered, whichever expires later
    have hstep : (better best (offer first) = best ∨ offer first = some (better best (offer first))) ∧
        best.notAfter ≤ (better best (offer first)).notAfter ∧
        ∀ pair, offer first = some pair → pair.notAfter ≤ (better best (offer first)).notAfter := by
      cases hoffer : offer first with
      | none => exact ⟨.inl rfl, le_refl _, nofun⟩
      | some pair =>
        have hpair := hlate first (by simp) pair hoffer
        rw [better]
        split
        · rename_i hkeep
          refine ⟨.inl rfl, le_refl _, ?_⟩
          rintro _ ⟨rfl⟩
          exact hkeep.2
        · rename_i hkeep
          rw [not_and_or, not_not, not_le] at hkeep
          refine ⟨.inr rfl, ?_, ?_⟩
          · rcases hkeep with hzero | hlater
            · exact hzero.le.trans hpair.le
            · exact hlater.le
          · rintro _ ⟨rfl⟩
            exact le_refl _
    obtain ⟨hfrom, hrise, hall⟩ := ih (fun item hitem => hlate item (by simp [hitem]))
      (hbest.trans hstep.2.1)
    rw [List.foldl_cons]
    refine ⟨?_, hstep.2.1.trans hrise, fun item hitem pair hoffer => ?_⟩
    · rcases hfrom with heq | ⟨item, hitem, hoffer⟩
      · rw [heq]
        rcases hstep.1 with hbest' | hnew
        · exact .inl hbest'
        · exact .inr ⟨first, by simp, hnew⟩
      · exact .inr ⟨item, by simp [hitem], hoffer⟩
    · rcases List.mem_cons.mp hitem with rfl | hitem
      · exact (hstep.2.2 pair hoffer).trans hrise
      · exact hall item hitem pair hoffer

end Walk

/-- The walk goes over the entries of the store. -/
theorem mem_walk {item : Path × Entry} : item ∈ source.walk ↔ item ∈ source.entries :=
  List.mem_insertionSort _

/-- **`Discover` selects a certificate.** From a store that can be read, it returns a usable one that
expires last among all usable ones, with the first key that fits, if and only if there is a usable one;
otherwise it says that none matches. -/
theorem discover_selects (lib : Library) (source : Source) (wantedIP : Bytes) (wanted : IPv4)
    (now minimumValidity : Time) (hread : source.Readable) (hip : to4 wantedIP = some wanted)
    (hnow : zeroTime < now) (hvalidity : 0 < minimumValidity) :
    (∀ pair, discover lib source wantedIP now minimumValidity = .ok pair →
      FirstFit lib source pair.certificatePath pair.certificatePEM pair.privateKeyPath
          pair.privateKeyPEM ∧
        pair.ip = wanted.bytes ∧
        ∃ leaf, Usable lib source wanted now minimumValidity pair.certificatePath
            pair.certificatePEM leaf ∧
          pair.notAfter = leaf.until ∧ pair.fingerprint = fingerprintOf lib leaf ∧
          ∀ path certificatePEM other,
            Usable lib source wanted now minimumValidity path certificatePEM other →
              other.until ≤ leaf.until) ∧
    ((∃ pair, discover lib source wantedIP now minimumValidity = .ok pair) ↔
      ∃ path certificatePEM leaf,
        Usable lib source wanted now minimumValidity path certificatePEM leaf) ∧
    ((¬∃ path certificatePEM leaf,
        Usable lib source wanted now minimumValidity path certificatePEM leaf) →
      discover lib source wantedIP now minimumValidity = .error .noMatchingCertificate) := by
  let best := source.walk.foldl (visit lib source wanted now minimumValidity) Pair.zero
  have hdiscover : discover lib source wantedIP now minimumValidity =
      if best.notAfter = zeroTime then .error .noMatchingCertificate else .ok best := by
    have hlisted : ¬(source.entries.any fun e => e.2 == .directory false) = true := by
      rw [List.any_eq_true]
      rintro ⟨e, he, heq⟩
      exact hread.2 e he (beq_iff_eq.mp heq)
    rw [discover, hip]
    dsimp only
    rw [if_neg (not_le.mpr hvalidity), if_neg (not_not.mpr hread.1), if_neg hlisted]
  have hvisit : best = source.walk.foldl
      (fun best item => better best (offered lib source wanted now minimumValidity item))
      Pair.zero := by
    refine congrArg (fun step => source.walk.foldl step Pair.zero) ?_
    funext best item
    exact visit_eq best item
  have hspec := fun item (hitem : item ∈ source.walk) pair
      (hoffer : offered lib source wanted now minimumValidity item = some pair) =>
    offered_spec hoffer (mem_walk.mp hitem)
  have hlate : ∀ item ∈ source.walk, ∀ pair,
      offered lib source wanted now minimumValidity item = some pair → zeroTime < pair.notAfter := by
    intro item hitem pair hoffer
    obtain ⟨-, -, leaf, husable, hnotAfter, -⟩ := hspec item hitem pair hoffer
    rw [hnotAfter]
    exact hnow.trans ((lt_add_of_pos_right now hvalidity).trans_le husable.lasts)
  obtain ⟨hfrom, -, hall⟩ := foldl_better hlate (le_refl Pair.zero.notAfter)
  rw [← hvisit] at hfrom hall
  -- a usable certificate expires after the zero time, and not after the best one
  have hleast : ∀ path certificatePEM leaf,
      Usable lib source wanted now minimumValidity path certificatePEM leaf →
        zeroTime < best.notAfter ∧ leaf.until ≤ best.notAfter := by
    intro path certificatePEM leaf husable
    obtain ⟨item, hitem, pair, hoffer, hnotAfter⟩ := exists_offered husable
    have hle := hall item (mem_walk.mpr hitem) pair hoffer
    have hlater := hlate item (mem_walk.mpr hitem) pair hoffer
    exact ⟨hlater.trans_le hle, hnotAfter ▸ hle⟩
  have hfound : best.notAfter ≠ zeroTime → ∃ item ∈ source.walk,
      offered lib source wanted now minimumValidity item = some best :=
    fun hne => hfrom.resolve_left fun hzero => hne (by rw [hzero]; rfl)
  refine ⟨fun pair hpair => ?_, ⟨?_, ?_⟩, fun hnone => ?_⟩
  · rw [hdiscover] at hpair
    split at hpair
    · cases hpair
    · rename_i hne
      obtain rfl := Except.ok.inj hpair
      obtain ⟨item, hitem, hoffer⟩ := hfound hne
      obtain ⟨hfirst, hbytes, leaf, husable, hnotAfter, hfingerprint⟩ := hspec item hitem best hoffer
      refine ⟨hfirst, hbytes, leaf, husable, hnotAfter, hfingerprint, ?_⟩
      exact fun path certificatePEM other hother =>
        hnotAfter ▸ (hleast path certificatePEM other hother).2
  · rintro ⟨pair, hpair⟩
    rw [hdiscover] at hpair
    split at hpair
    · cases hpair
    · rename_i hne
      obtain ⟨item, hitem, hoffer⟩ := hfound hne
      obtain ⟨-, -, leaf, husable, -⟩ := hspec item hitem best hoffer
      exact ⟨_, _, leaf, husable⟩
  · rintro ⟨path, certificatePEM, leaf, husable⟩
    rw [hdiscover, if_neg (hleast path certificatePEM leaf husable).1.ne']
    exact ⟨best, rfl⟩
  · rw [hdiscover, if_pos]
    by_contra hne
    obtain ⟨item, hitem, hoffer⟩ := hfound hne
    obtain ⟨-, -, leaf, husable, -⟩ := hspec item hitem best hoffer
    exact hnone ⟨_, _, leaf, husable⟩

section Sample

/-- A store with a certificate and its renewal, among files that are no certificates. -/
def renewedSource : Source where
  root := some (.directory true)
  entries := sampleSource.entries ++
    [(["acme".toList, "broken.pem".toList], .regular [0] 0o600),
      (["acme".toList, "link.crt".toList], .symlink), (["acme".toList, "secret.pem".toList], .unreadable),
      (["acme".toList, "renewed.PEM".toList], .regular renewedIssued.pem 0o600),
      (["acme".toList, "renewed-key.pem".toList], .regular renewedIssued.key 0o600)]

theorem renewed_usable : Usable sampleLibrary renewedSource ⟨203, 0, 113, 10⟩ sampleNow
    (1800 * second) ["acme".toList, "renewed.PEM".toList] renewedIssued.pem renewedIssued.leaf where
  file := ⟨0o600, by decide +kernel⟩
  extension := by decide +kernel
  size := by decide +kernel
  first := by decide +kernel
  names := ⟨[203, 0, 113, 10], by decide +kernel, by decide +kernel⟩
  started := by decide +kernel
  lasts := by decide +kernel
  key := ⟨["acme".toList, "renewed-key.pem".toList], by decide +kernel, renewedIssued.key,
    by decide +kernel, by decide +kernel⟩

/-- One of the two is discovered, and it expires no earlier than the renewal. -/
theorem discover_selects_renewed :
    ∃ pair, discover sampleLibrary renewedSource [203, 0, 113, 10] sampleNow (1800 * second) =
      .ok pair ∧ renewedIssued.leaf.until ≤ pair.notAfter := by
  have hread : renewedSource.Readable := ⟨rfl, by decide +kernel⟩
  obtain ⟨hpairs, hexists, -⟩ := discover_selects sampleLibrary renewedSource [203, 0, 113, 10]
    ⟨203, 0, 113, 10⟩ sampleNow (1800 * second) hread rfl (by decide +kernel) (by decide +kernel)
  obtain ⟨pair, hpair⟩ := hexists.mpr ⟨_, _, _, renewed_usable⟩
  obtain ⟨-, -, leaf, -, hnotAfter, -, hlast⟩ := hpairs pair hpair
  exact ⟨pair, hpair, hnotAfter ▸ hlast _ _ _ renewed_usable⟩

end Sample

end Certsync

end EzOpenPN
