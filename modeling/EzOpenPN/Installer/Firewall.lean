import EzOpenPN.Lib.Script

/-!
# Rules of the host firewall

`firewall.sh` opens four ports in the firewall of the host and closes them again. What it has opened is
written down in `firewall.rules`, a line for each rule, and `rollback_firewall_rules` deletes what it
finds there. Whether a rule is there already is asked of the text that `ufw status` prints: some line
has to contain the rule and the name of the program.

Both functions are called to the left of `||` or in a condition, so that no command that fails ends
them. `ufw` itself is not modelled: its rules are a list of what is allowed, next to the lines that it
prints for anything else, and how it prints an allow rule is a parameter (`EzOpenPN.UfwListing`).

Two things can be asked of this. **Are all rules there after they were applied?** Not if the record is
left over from a run that was interrupted, since any record stops the function; and not if a rule is
part of the text of another one, as `443/tcp` is of `9443/tcp` (`EzOpenPN.applied_iff`). **Is the set of
rules the old one after a rollback?** Not if one of the rules was there before, under another comment:
it is taken for a rule of the program and deleted (`EzOpenPN.rolledBack_iff`).
-/

namespace EzOpenPN

open Script

/-! ### The rules of ufw -/

/-- The four rules, as they are written. -/
def managedRules : List (List Char) :=
  ["80/tcp".toList, "443/tcp".toList, "443/udp".toList, "9443/tcp".toList]

/-- The comment of the program. -/
def ownComment : List Char := "EzOpenPN".toList

/-- **The rules of ufw**: the ports and protocols that are allowed, with their comments, and the lines
that are printed for everything else. -/
structure UfwRules where
  allowed : List (List Char × List Char)
  others : List (List Char)
  distinct : (allowed.map Prod.fst).Nodup

namespace UfwRules

variable (u : UfwRules) (rule rule' comment : List Char)

/-- A port and protocol is allowed. -/
def Allows : Prop := rule ∈ u.allowed.map Prod.fst

instance : Decidable (u.Allows rule) := inferInstanceAs (Decidable (rule ∈ u.allowed.map Prod.fst))

/-- `ufw allow`: a rule that is there gets a new comment. -/
def allow : UfwRules where
  allowed :=
    if u.Allows rule then u.allowed.map fun e => if e.1 = rule then (rule, comment) else e
    else u.allowed ++ [(rule, comment)]
  others := u.others
  distinct := by
    split
    · have hkeys : (u.allowed.map fun e => if e.1 = rule then (rule, comment) else e).map Prod.fst =
          u.allowed.map Prod.fst := by
        rw [List.map_map]
        refine List.map_congr_left fun e _ => ?_
        rw [Function.comp_apply]
        split
        · rename_i he
          exact he.symm
        · rfl
      rw [hkeys]
      exact u.distinct
    · rename_i hnew
      rw [List.map_append]
      exact List.nodup_append.mpr ⟨u.distinct, List.nodup_singleton _, by
        rintro a ha b hb rfl
        rw [List.mem_singleton.mp hb] at ha
        exact hnew ha⟩

/-- `ufw delete allow`. -/
def delete : UfwRules where
  allowed := u.allowed.filter fun e => e.1 ≠ rule
  others := u.others
  distinct := u.distinct.sublist (List.filter_sublist.map _)

variable {u rule rule' comment}

@[simp] theorem allows_allow :
    (u.allow rule comment).Allows rule' ↔ rule' = rule ∨ u.Allows rule' := by
  simp only [Allows, allow, List.mem_map]
  split
  · rename_i hold
    constructor
    · rintro ⟨e, he, rfl⟩
      obtain ⟨e', he', rfl⟩ := List.mem_map.mp he
      split
      · exact .inl rfl
      · exact .inr ⟨e', he', rfl⟩
    · rintro (rfl | ⟨e, he, rfl⟩)
      · obtain ⟨e, he, rfl⟩ := hold
        exact ⟨(e.1, comment), List.mem_map.mpr ⟨e, he, if_pos rfl⟩, rfl⟩
      · refine ⟨_, List.mem_map.mpr ⟨e, he, rfl⟩, ?_⟩
        split
        · rename_i heq
          exact heq.symm
        · rfl
  · constructor
    · rintro ⟨e, he, rfl⟩
      rcases List.mem_append.mp he with he | he
      · exact .inr ⟨e, he, rfl⟩
      · rw [List.mem_singleton.mp he]
        exact .inl rfl
    · rintro (rfl | ⟨e, he, rfl⟩)
      · exact ⟨(rule', comment), by simp, rfl⟩
      · exact ⟨e, by simp [he], rfl⟩

@[simp] theorem allows_delete : (u.delete rule).Allows rule' ↔ rule' ≠ rule ∧ u.Allows rule' := by
  simp only [Allows, delete, List.mem_map, List.mem_filter, decide_eq_true_eq]
  constructor
  · rintro ⟨e, ⟨he, hne⟩, rfl⟩
    exact ⟨hne, e, he, rfl⟩
  · rintro ⟨hne, e, he, rfl⟩
    exact ⟨e, ⟨he, hne⟩, rfl⟩

end UfwRules

/-- **How an allow rule is printed**, by its port and protocol and its comment. Every line begins with
the rule, and one of the four rules is in a line of the program's own only as a part of its rule. -/
structure UfwListing where
  lines : List Char → List Char → List (List Char)
  rule_infix : ∀ rule comment, ∀ line ∈ lines rule comment, rule <:+: line
  infix_rule : ∀ rule ∈ managedRules, ∀ line ∈ lines rule ownComment, ∀ rule' ∈ managedRules,
    rule' <:+: line → rule' <:+: rule

namespace UfwListing

variable (listing : UfwListing)

/-- `ufw status`. -/
def status (u : UfwRules) : List (List Char) :=
  u.others ++ u.allowed.flatMap fun e => listing.lines e.1 e.2

/-- `_ufw_status | grep -F "$rule" | grep -Fq EzOpenPN`. -/
def seen (u : UfwRules) (rule : List Char) : Bool :=
  ((listing.status u).filter fun line => rule <:+: line).any fun line => ownComment <:+: line

variable {listing} {u : UfwRules} {rule rule' : List Char}

theorem seen_iff : listing.seen u rule = true ↔
    ∃ line ∈ listing.status u, rule <:+: line ∧ ownComment <:+: line := by
  simp [seen]

theorem mem_status {line : List Char} : line ∈ listing.status u ↔
    line ∈ u.others ∨ ∃ e ∈ u.allowed, line ∈ listing.lines e.1 e.2 := by
  simp [status]

/-- The lines after a rule was allowed: there are those of the rule, and no other ones of it. -/
theorem mem_status_allow {line : List Char} :
    line ∈ listing.status (u.allow rule ownComment) ↔ line ∈ listing.lines rule ownComment ∨
      line ∈ u.others ∨ ∃ e ∈ u.allowed, e.1 ≠ rule ∧ line ∈ listing.lines e.1 e.2 := by
  rw [mem_status, UfwRules.allow]
  dsimp only
  split
  · rename_i hold
    obtain ⟨e₀, he₀, rfl⟩ := List.mem_map.mp hold
    constructor
    · rintro (hother | ⟨e, he, hline⟩)
      · exact .inr (.inl hother)
      · obtain ⟨e', he', rfl⟩ := List.mem_map.mp he
        split at hline
        · exact .inl hline
        · rename_i hne
          exact .inr (.inr ⟨e', he', hne, hline⟩)
    · rintro (hline | hother | ⟨e, he, hne, hline⟩)
      · exact .inr ⟨(e₀.1, ownComment), List.mem_map.mpr ⟨e₀, he₀, if_pos rfl⟩, hline⟩
      · exact .inl hother
      · exact .inr ⟨e, List.mem_map.mpr ⟨e, he, if_neg hne⟩, hline⟩
  · rename_i hnew
    constructor
    · rintro (hother | ⟨e, he, hline⟩)
      · exact .inr (.inl hother)
      · rcases List.mem_append.mp he with he | he
        · exact .inr (.inr ⟨e, he, fun heq => hnew (List.mem_map.mpr ⟨e, he, heq⟩), hline⟩)
        · rw [List.mem_singleton.mp he] at hline
          exact .inl hline
    · rintro (hline | hother | ⟨e, he, -, hline⟩)
      · exact .inr ⟨(rule, ownComment), by simp, hline⟩
      · exact .inl hother
      · exact .inr ⟨e, by simp [he], hline⟩

/-- **To allow a rule that was not seen does not change what is seen of another one**, unless that
is a part of its text. -/
theorem seen_allow (hrule : rule ∈ managedRules) (hrule' : rule' ∈ managedRules)
    (hpart : ¬rule' <:+: rule) (hunseen : listing.seen u rule = false) :
    listing.seen (u.allow rule ownComment) rule' = listing.seen u rule' := by
  rw [Bool.eq_iff_iff, seen_iff, seen_iff]
  constructor
  · rintro ⟨line, hline, hpart', hown⟩
    refine ⟨line, ?_, hpart', hown⟩
    rcases mem_status_allow.mp hline with hnew | hother | ⟨e, he, -, hold⟩
    · exact absurd (listing.infix_rule rule hrule line hnew rule' hrule' hpart') hpart
    · exact mem_status.mpr (.inl hother)
    · exact mem_status.mpr (.inr ⟨e, he, hold⟩)
  · rintro ⟨line, hline, hpart', hown⟩
    refine ⟨line, mem_status_allow.mpr (.inr ?_), hpart', hown⟩
    rcases mem_status.mp hline with hother | ⟨e, he, hold⟩
    · exact .inl hother
    · refine .inr ⟨e, he, ?_, hold⟩
      rintro rfl
      have hseen := seen_iff.mpr ⟨line, hline, listing.rule_infix e.1 e.2 line hold, hown⟩
      rw [hunseen] at hseen
      cases hseen

end UfwListing

/-! ### The host -/

/-- What `_active_firewall_backend` prints. -/
inductive FirewallBackend where
  | none
  | ufw
  | firewalld
  deriving DecidableEq

/-- Whose service file it is. -/
inductive ServiceFile where
  | own
  | foreign
  deriving DecidableEq

/-- **The firewall of a host**, with the lines of `firewall.rules`. -/
structure FirewallHost where
  backend : FirewallBackend
  ufw : UfwRules
  record : Option (List (List Char))
  /-- `ezopenpn.xml`, and the file it is written to first. -/
  service : Option ServiceFile
  temporary : Bool
  /-- The service is in the running configuration, and in the permanent one. -/
  running : Bool
  permanent : Bool

/-- **The commands** of `firewall.sh`. -/
inductive FirewallCommand where
  | ufwAllow (rule : List Char)
  | ufwDelete (rule : List Char)
  | makeRecordDirectory
  | protectRecordDirectory
  | appendRecord (line : List Char)
  | protectRecord
  | removeRecord
  | makeServiceDirectory
  | writeService
  | protectService
  | moveService
  | removeService
  | reload
  | addService (permanent : Bool)
  | dropService (permanent : Bool)
  deriving DecidableEq

namespace FirewallCommand

/-- A command of ufw. -/
def isUfw : FirewallCommand → Bool
  | ufwAllow _ | ufwDelete _ => true
  | _ => false

/-- What a command does when it succeeds. -/
def effect (h : FirewallHost) : FirewallCommand → FirewallHost
  | ufwAllow rule => { h with ufw := h.ufw.allow rule ownComment }
  | ufwDelete rule => { h with ufw := h.ufw.delete rule }
  | appendRecord line => { h with record := some (h.record.getD [] ++ [line]) }
  | removeRecord => { h with record := none }
  | writeService => { h with temporary := true }
  | moveService => { h with service := some .own, temporary := false }
  | removeService => { h with service := none }
  | reload => { h with running := h.permanent }
  | addService true => { h with permanent := true }
  | addService false => { h with running := true }
  | dropService true => { h with permanent := false }
  | dropService false => { h with running := false }
  | makeRecordDirectory | protectRecordDirectory | protectRecord | makeServiceDirectory
  | protectService => h

end FirewallCommand

/-- **The host as a machine**: a command succeeds, or it does nothing. -/
def firewallMachine : Machine FirewallHost FirewallCommand Bool FirewallHost where
  obs := id
  perform c ok h := (ok, if ok then c.effect h else h)

/-- The same where the commands of `P` always succeed. -/
def firewallMachineWith (P : FirewallCommand → Bool) :
    Machine FirewallHost FirewallCommand Bool FirewallHost :=
  firewallMachine.tame fun c ok => P c || ok

/-- A script of `firewall.sh`. -/
abbrev FirewallScript := Script FirewallHost FirewallCommand

/-! ### The script -/

/-- `_record_firewall_rule`: its status is that of its last command. -/
def recordFirewallRule (line : List Char) : FirewallScript Bool :=
  (run .makeRecordDirectory).bind fun _ =>
  (run .protectRecordDirectory).bind fun _ =>
  (run (.appendRecord line)).bind fun _ =>
  run .protectRecord

/-- `_install_firewalld_service`. -/
def installFirewalldService : FirewallScript Bool :=
  (run .makeServiceDirectory).bind fun _ => look fun h =>
    match h.service with
    | some .foreign => done false
    | some .own => done true
    | none =>
      (run .writeService).bind fun _ =>
      (run .protectService).bind fun _ =>
      run .moveService

section Apply

variable (listing : UfwListing)

/-- The loop over the rules; `status` is that of the last command so far. -/
def allowRules : List (List Char) → Bool → FirewallScript Bool
  | [], status => done status
  | rule :: rest, _ => look fun h =>
    if listing.seen h.ufw rule then allowRules rest true
    else
      (run (.ufwAllow rule)).bind fun _ =>
      (recordFirewallRule ("ufw|".toList ++ rule)).bind fun status => allowRules rest status

/-- **`apply_firewall_rules`.** -/
def applyFirewallRules : FirewallScript Bool :=
  look fun h =>
    if h.record.getD [] ≠ [] then done true
    else
      match h.backend with
      | .none => done true
      | .ufw => allowRules listing managedRules true
      | .firewalld =>
        installFirewalldService.bind fun _ =>
        (recordFirewallRule "firewalld|service".toList).bind fun _ =>
        (run .reload).bind fun _ =>
        (run (.addService true)).bind fun _ =>
        run (.addService false)

end Apply

/-- `IFS='|' read -r backend value`: the second field is the rest of the line, without a `|` at its
end if that is the only one. -/
def readFields (line : List Char) : List Char × List Char :=
  let rest := (line.dropWhile (· ≠ '|')).drop 1
  (line.takeWhile (· ≠ '|'),
    if rest.count '|' = 1 ∧ rest.getLast? = some '|' then rest.dropLast else rest)

/-- What is done for a line of the record. -/
def rollbackLine (line : List Char) : FirewallScript Bool :=
  if (readFields line).1 = "ufw".toList then run (.ufwDelete (readFields line).2)
  else if (readFields line).1 = "firewalld".toList then
    (run (.dropService false)).bind fun _ =>
    (run (.dropService true)).bind fun _ => look fun h =>
      (if h.service = some .own then run .removeService else done true).bind fun _ =>
      run .reload
  else done true

/-- The loop over the lines, where no failure counts. -/
def rollbackLines : List (List Char) → FirewallScript Unit
  | [] => done ()
  | line :: rest => (rollbackLine line).bind fun _ => rollbackLines rest

/-- **`rollback_firewall_rules`.** -/
def rollbackFirewallRules : FirewallScript Bool :=
  look fun h =>
    match h.record with
    | none => done true
    | some lines => (rollbackLines lines).bind fun _ => run .removeRecord

/-! ### What the rules are after they were applied -/

section Runs

variable {listing : UfwListing} {P : FirewallCommand → Bool} {h : FirewallHost}

theorem firewallMachineWith_perform (c : FirewallCommand) (ok : Bool) :
    (firewallMachineWith P).perform c ok h = (P c || ok, if P c || ok then c.effect h else h) := rfl

theorem firewallMachineWith_of_sure {c : FirewallCommand} (hc : P c = true) (ok : Bool) :
    (firewallMachineWith P).perform c ok h = (true, c.effect h) := by
  rw [firewallMachineWith_perform, hc, Bool.true_or, if_pos rfl]

/-- A command that does not touch the rules of ufw. -/
theorem ufw_perform {c : FirewallCommand} (hc : c.isUfw = false) (ok : Bool) :
    ((firewallMachineWith P).perform c ok h).2.ufw = h.ufw := by
  rw [firewallMachineWith_perform]
  dsimp only
  split
  · cases c with
    | ufwAllow rule => cases hc
    | ufwDelete rule => cases hc
    | addService permanent => cases permanent <;> rfl
    | dropService permanent => cases permanent <;> rfl
    | _ => rfl
  · rfl

/-- **A rule is recorded**: the rules themselves stay as they are. -/
theorem wp_recordFirewallRule (line : List Char) :
    (recordFirewallRule line).wp (firewallMachineWith P) (fun _ => True) (fun _ h' =>
      h'.ufw = h.ufw ∧
        ((∀ c, P c = true) → h'.record.getD [] = h.record.getD [] ++ [line])) h := by
  refine fun ok₁ => ⟨trivial, fun ok₂ => ⟨trivial, fun ok₃ => ⟨trivial, fun ok₄ => ⟨trivial, ?_, ?_⟩⟩⟩⟩
  · rw [ufw_perform rfl, ufw_perform rfl, ufw_perform rfl, ufw_perform rfl]
  · intro hP
    simp only [firewallMachineWith_of_sure (hP _), FirewallCommand.effect, Option.getD_some]

/-- **The loop over the rules**: those that are not seen are allowed and recorded. -/
theorem wp_allowRules {rules : List (List Char)} (hP : ∀ rule, P (.ufwAllow rule) = true)
    (hmanaged : ∀ rule ∈ rules, rule ∈ managedRules)
    (hparts : rules.Pairwise fun rule rule' => ¬rule' <:+: rule) (status : Bool) :
    (allowRules listing rules status).wp (firewallMachineWith P) (fun _ => True) (fun _ h' =>
      (∀ rule, h'.ufw.Allows rule ↔
        h.ufw.Allows rule ∨ rule ∈ rules ∧ listing.seen h.ufw rule = false) ∧
      ((∀ c, P c = true) → h'.record.getD [] = h.record.getD [] ++
        (rules.filter fun rule => !listing.seen h.ufw rule).map ("ufw|".toList ++ ·))) h := by
  induction rules generalizing h status with
  | nil => exact ⟨fun rule => by simp, fun _ => by simp⟩
  | cons first rest ih =>
    obtain ⟨hfirst, hparts⟩ := List.pairwise_cons.mp hparts
    have hrest : ∀ rule ∈ rest, rule ∈ managedRules := fun rule hrule => hmanaged rule (by simp [hrule])
    rw [allowRules, wp_look, wp_ite]
    change (listing.seen h.ufw first = true → _) ∧ (¬listing.seen h.ufw first = true → _)
    refine ⟨fun hseen => ?_, fun hunseen ok => ⟨trivial, ?_⟩⟩
    · refine wp_mono (ih hrest hparts true) (fun _ _ => trivial) fun _ h' hh' => ⟨fun rule => ?_, ?_⟩
      · rw [hh'.1, List.mem_cons]
        have hne : listing.seen h.ufw rule = false → rule ≠ first := by
          rintro hrule rfl
          rw [hseen] at hrule
          cases hrule
        tauto
      · intro hall
        rw [hh'.2 hall, List.filter_cons_of_neg (by simp [hseen])]
    · rw [Bool.not_eq_true] at hunseen
      rw [firewallMachineWith_of_sure (hP first)]
      change ((recordFirewallRule _).bind fun status => allowRules listing rest status).wp _ _ _
        { h with ufw := h.ufw.allow first ownComment }
      refine wp_bind.mpr (wp_mono (wp_recordFirewallRule _) (fun _ _ => trivial) ?_)
      intro status h₁ hh₁
      dsimp only at hh₁
      -- what is seen of the other rules is what was seen of them before
      have hstable : ∀ rule ∈ rest, listing.seen h₁.ufw rule = listing.seen h.ufw rule := by
        intro rule hrule
        rw [hh₁.1]
        exact UfwListing.seen_allow (hmanaged first (by simp)) (hrest rule hrule) (hfirst rule hrule)
          hunseen
      refine wp_mono (ih hrest hparts status) (fun _ _ => trivial) fun _ h' hh' => ⟨fun rule => ?_, ?_⟩
      · rw [hh'.1, hh₁.1, UfwRules.allows_allow, List.mem_cons, ← hh₁.1]
        constructor
        · rintro ((rfl | hold) | ⟨hrule, hseen⟩)
          · exact .inr ⟨.inl rfl, hunseen⟩
          · exact .inl hold
          · exact .inr ⟨.inr hrule, hstable rule hrule ▸ hseen⟩
        · rintro (hold | ⟨rfl | hrule, hseen⟩)
          · exact .inl (.inr hold)
          · exact .inl (.inl rfl)
          · exact .inr ⟨hrule, (hstable rule hrule).trans hseen⟩
      · intro hall
        have hfilter : (rest.filter fun rule => !listing.seen h₁.ufw rule) =
            rest.filter fun rule => !listing.seen h.ufw rule :=
          List.filter_congr fun rule hrule => by rw [hstable rule hrule]
        rw [hh'.2 hall, hh₁.2 hall, hfilter, List.filter_cons_of_pos (by simp [hunseen]),
          List.map_cons, List.append_assoc, List.singleton_append]

theorem managedRules_parts : managedRules.Pairwise fun rule rule' => ¬rule' <:+: rule := by decide

/-- **The rules after `apply_firewall_rules`** with an empty record. -/
theorem wp_applyFirewallRules (hP : ∀ rule, P (.ufwAllow rule) = true) (hbackend : h.backend = .ufw)
    (hrecord : h.record.getD [] = []) :
    (applyFirewallRules listing).wp (firewallMachineWith P) (fun _ => True) (fun _ h' =>
      (∀ rule, h'.ufw.Allows rule ↔
        h.ufw.Allows rule ∨ rule ∈ managedRules ∧ listing.seen h.ufw rule = false) ∧
      ((∀ c, P c = true) → h'.record.getD [] =
        (managedRules.filter fun rule => !listing.seen h.ufw rule).map ("ufw|".toList ++ ·))) h := by
  rw [applyFirewallRules, wp_look]
  change (if h.record.getD [] ≠ [] then _ else match h.backend with
    | .none => _
    | .ufw => _
    | .firewalld => _ : FirewallScript Bool).wp _ _ _ _
  rw [if_neg (not_not.mpr hrecord), hbackend]
  refine wp_mono (wp_allowRules hP (fun _ h => h) managedRules_parts true) (fun _ _ => trivial) ?_
  intro _ h' hh'
  rw [hrecord, List.nil_append] at hh'
  exact hh'

/-- With any record at all nothing is done. -/
theorem exec_applyFirewallRules (hrecord : h.record.getD [] ≠ []) (choices : List Bool) :
    (applyFirewallRules listing).exec (firewallMachineWith P) choices h = (some true, h) := by
  rw [applyFirewallRules, exec]
  change (if h.record.getD [] ≠ [] then _ else _ : FirewallScript Bool).exec _ _ _ = _
  rw [if_pos hrecord]
  rfl

end Runs

/-- **When the rules are complete.** After a run of `apply_firewall_rules` in which every command of
ufw succeeds, all four rules are there if and only if a record that was left over stands for four
rules that were there already, and without a record each rule was there or was not seen. -/
theorem applied_iff (listing : UfwListing) (h h' : FirewallHost) (choices : List Bool)
    (hbackend : h.backend = .ufw)
    (hrun : (applyFirewallRules listing).exec (firewallMachineWith FirewallCommand.isUfw) choices h =
      (some true, h')) :
    (∀ rule ∈ managedRules, h'.ufw.Allows rule) ↔
      (h.record.getD [] ≠ [] → ∀ rule ∈ managedRules, h.ufw.Allows rule) ∧
      (h.record.getD [] = [] → ∀ rule ∈ managedRules,
        h.ufw.Allows rule ∨ listing.seen h.ufw rule = false) := by
  by_cases hrecord : h.record.getD [] = []
  · have hsure : ∀ rule, FirewallCommand.isUfw (.ufwAllow rule) = true := fun _ => rfl
    obtain ⟨hallows, -⟩ :=
      (exec_of_wp (wp_applyFirewallRules hsure hbackend hrecord) trivial choices).2 _ _ hrun
    simp only [hallows, hrecord]
    constructor
    · exact fun hall => ⟨fun hne => absurd rfl hne, fun _ rule hrule =>
        (hall rule hrule).imp_right And.right⟩
    · exact fun hall rule hrule => (hall.2 trivial rule hrule).imp_right fun hunseen => ⟨hrule, hunseen⟩
  · rw [exec_applyFirewallRules hrecord] at hrun
    obtain rfl : h = h' := (Prod.mk.inj hrun).2
    exact ⟨fun hall => ⟨fun _ => hall, fun hempty => absurd hempty hrecord⟩,
      fun hall => hall.1 hrecord⟩

namespace SampleFirewall

/-- A line of `ufw status`. -/
def line (version rule comment : List Char) : List Char :=
  (rule ++ version).rightpad 27 ' ' ++ "ALLOW       ".toList ++
    (if comment = [] then "Anywhere".toList ++ version
      else ("Anywhere".toList ++ version).rightpad 27 ' ' ++ "# ".toList ++ comment)

/-- An allow rule is printed twice, the second time for IPv6. -/
def listing : UfwListing where
  lines rule comment := [line [] rule comment, line " (v6)".toList rule comment]
  rule_infix := by
    have hline : ∀ version rule comment, rule <:+: line version rule comment := by
      intro version rule comment
      rw [line, List.append_assoc, List.rightpad, List.append_assoc, List.append_assoc]
      exact (List.prefix_append rule _).isInfix
    intro rule comment l hl
    rcases List.mem_pair.mp hl with rfl | rfl
    · exact hline _ _ _
    · exact hline _ _ _
  infix_rule := by decide +kernel

/-- What is printed above the rules. -/
def header : List (List Char) :=
  ["Status: active".toList, [], "To                         Action      From".toList,
    "--                         ------      ----".toList]

/-- A host with one or two allow rules. -/
def host (rules : List (List Char × List Char)) (distinct : (rules.map Prod.fst).Nodup) :
    FirewallHost :=
  ⟨.ufw, ⟨rules, header, distinct⟩, none, none, false, false, false⟩

/-- Only SSH is allowed. -/
def fresh : FirewallHost := host [("22/tcp".toList, "foreign-ssh-rule".toList)] (by decide)

/-- `apply_firewall_rules` was interrupted after it had recorded its first rule. -/
def interrupted : FirewallHost :=
  ((applyFirewallRules listing).exec firewallMachine (List.replicate 5 true) fresh).2

/-- The operator allows HTTPS. -/
def web : FirewallHost :=
  host [("22/tcp".toList, "foreign-ssh-rule".toList), ("443/tcp".toList, "web".toList)] (by decide)

end SampleFirewall

open SampleFirewall in
/-- On a fresh host all four rules are there. -/
theorem applied_fresh : ∃ h, (applyFirewallRules listing).exec
      (firewallMachineWith FirewallCommand.isUfw) (List.replicate 20 true) fresh = (some true, h) ∧
    ∀ rule ∈ managedRules, h.ufw.Allows rule := by
  have hstatus : ((applyFirewallRules listing).exec (firewallMachineWith FirewallCommand.isUfw)
      (List.replicate 20 true) fresh).1 = some true := by decide +kernel
  rcases hrun : (applyFirewallRules listing).exec (firewallMachineWith FirewallCommand.isUfw)
    (List.replicate 20 true) fresh with ⟨status, h⟩
  rw [hrun] at hstatus
  obtain rfl : status = some true := hstatus
  exact ⟨h, rfl, (applied_iff listing fresh h (List.replicate 20 true) rfl hrun).mpr
    (by decide +kernel)⟩

open SampleFirewall in
/-- **An interrupted run stops the next one.** The record names one rule; `apply_firewall_rules`
succeeds without a command, and the other three rules are missing. -/
theorem interrupted_rules_missing :
    ((applyFirewallRules listing).exec firewallMachine (List.replicate 5 true) fresh).1 = none ∧
      ((applyFirewallRules listing).exec (firewallMachineWith FirewallCommand.isUfw)
        (List.replicate 20 true) interrupted).1 = some true ∧
      ¬∀ rule ∈ managedRules, ((applyFirewallRules listing).exec
        (firewallMachineWith FirewallCommand.isUfw) (List.replicate 20 true)
        interrupted).2.ufw.Allows rule := by
  decide +kernel

/-! ### What is left after a rollback -/

section Rollback

variable {h : FirewallHost}

theorem readFields_ufw : ∀ rule ∈ managedRules,
    readFields ("ufw|".toList ++ rule) = ("ufw".toList, rule) := by decide

/-- **The loop over the record**: the rules that it names are deleted, and no other ones. -/
theorem wp_rollbackLines {rules : List (List Char)} (hmanaged : ∀ rule ∈ rules, rule ∈ managedRules) :
    (rollbackLines (rules.map ("ufw|".toList ++ ·))).wp (firewallMachineWith fun _ => true)
      (fun _ => True) (fun _ h' => ∀ rule, h'.ufw.Allows rule ↔ h.ufw.Allows rule ∧ rule ∉ rules) h := by
  induction rules generalizing h with
  | nil => exact fun rule => by simp
  | cons first rest ih =>
    have hrest : ∀ rule ∈ rest, rule ∈ managedRules := fun rule hrule => hmanaged rule (by simp [hrule])
    rw [List.map_cons, rollbackLines, rollbackLine, readFields_ufw first (hmanaged first (by simp)),
      if_pos rfl]
    intro ok
    refine ⟨trivial, wp_mono (ih hrest) (fun _ _ => trivial) fun _ h' hh' rule => ?_⟩
    rw [hh', firewallMachineWith_of_sure rfl, FirewallCommand.effect, UfwRules.allows_delete,
      List.mem_cons, not_or]
    tauto

/-- **The rules after `rollback_firewall_rules`**, where no command fails. -/
theorem wp_rollbackFirewallRules {rules : List (List Char)}
    (hmanaged : ∀ rule ∈ rules, rule ∈ managedRules)
    (hrecord : h.record.getD [] = rules.map ("ufw|".toList ++ ·)) :
    rollbackFirewallRules.wp (firewallMachineWith fun _ => true) (fun _ => True) (fun _ h' =>
      ∀ rule, h'.ufw.Allows rule ↔ h.ufw.Allows rule ∧ rule ∉ rules) h := by
  rw [rollbackFirewallRules, wp_look]
  change (match h.record with
    | none => _
    | some lines => _ : FirewallScript Bool).wp _ _ _ _
  cases hlines : h.record with
  | none =>
    rw [hlines, Option.getD_none, List.nil_eq, List.map_eq_nil_iff] at hrecord
    rw [hrecord]
    exact fun rule => by simp
  | some lines =>
    rw [hlines, Option.getD_some] at hrecord
    subst hrecord
    refine wp_bind.mpr (wp_mono (wp_rollbackLines hmanaged) (fun _ _ => trivial) ?_)
    intro _ h₁ hh₁ ok
    refine ⟨trivial, ?_⟩
    rw [firewallMachineWith_of_sure rfl]
    exact hh₁

end Rollback

/-- The rules after they were applied and rolled back, with every command succeeding. -/
def rolledBack (listing : UfwListing) (h : FirewallHost) : FirewallHost :=
  (rollbackFirewallRules.eval firewallMachine true
    ((applyFirewallRules listing).eval firewallMachine true h).2).2

/-- **When a rollback restores the rules.** From an empty record, the ports and protocols that are
allowed after `apply_firewall_rules` and `rollback_firewall_rules` are those from before if and only
if each of the four rules that was there already was seen, that is, had the comment of the program. -/
theorem rolledBack_iff (listing : UfwListing) (h : FirewallHost) (hbackend : h.backend = .ufw)
    (hrecord : h.record.getD [] = []) :
    (∀ rule, (rolledBack listing h).ufw.Allows rule ↔ h.ufw.Allows rule) ↔
      ∀ rule ∈ managedRules, h.ufw.Allows rule → listing.seen h.ufw rule = true := by
  have heval : ∀ {script : FirewallScript Bool} {g : FirewallHost},
      script.eval (firewallMachineWith fun _ => true) true g = script.eval firewallMachine true g :=
    fun {script g} => eval_tame firewallMachine (fun _ => rfl) script g
  have hsure : ∀ rule, (fun _ : FirewallCommand => true) (.ufwAllow rule) = true := fun _ => rfl
  have happlies : (applyFirewallRules listing).wp (firewallMachineWith fun _ => true) _ _ h :=
    wp_applyFirewallRules hsure hbackend hrecord
  have happlied := eval_of_wp happlies true
  rw [heval] at happlied
  obtain ⟨hallows, hlines⟩ := happlied
  have hrolled := eval_of_wp (wp_rollbackFirewallRules (fun rule hrule => List.mem_of_mem_filter hrule)
    (hlines fun _ => rfl)) true
  rw [heval] at hrolled
  have hfinal : ∀ rule, (rolledBack listing h).ufw.Allows rule ↔
      h.ufw.Allows rule ∧ ¬(rule ∈ managedRules ∧ listing.seen h.ufw rule = false) := by
    intro rule
    rw [rolledBack, hrolled, hallows, List.mem_filter, Bool.not_eq_true']
    tauto
  simp only [hfinal]
  constructor
  · intro hsame rule hrule hold
    by_contra hunseen
    exact ((hsame rule).mpr hold).2 ⟨hrule, Bool.not_eq_true _ ▸ hunseen⟩
  · intro hseen rule
    refine ⟨And.left, fun hold => ⟨hold, ?_⟩⟩
    rintro ⟨hrule, hunseen⟩
    rw [hseen rule hrule hold] at hunseen
    cases hunseen

open SampleFirewall in
/-- On a fresh host the rules are the old ones. -/
theorem rolledBack_fresh :
    {rule | (rolledBack listing fresh).ufw.Allows rule} = {rule | fresh.ufw.Allows rule} :=
  Set.ext ((rolledBack_iff listing fresh rfl rfl).mpr (by decide +kernel))

open SampleFirewall in
/-- **A rule of the operator is deleted.** HTTPS was allowed before, with another comment. -/
theorem operator_rule_deleted :
    web.record.getD [] = [] ∧ web.ufw.Allows "443/tcp".toList ∧
      ¬(rolledBack listing web).ufw.Allows "443/tcp".toList := by
  decide +kernel

end EzOpenPN
