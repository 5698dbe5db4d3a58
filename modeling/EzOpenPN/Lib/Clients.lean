import Mathlib

/-!
# Clients of one service

A service answers calls one at a time; its clients are programs that make calls and decide on the
answers what to call next. Any number of them are served at the same time, and the schedule says
whose call comes next: between two calls of one client anything may happen to the state of the
service. A schedule may also start a client, and stop one for good between two of its calls.

The log of a run is the list of all calls with their answers. What is proved of it comes from two
sides, which do not know of each other:

* a property of the service, which holds whatever is called in whatever order:
  `LogOf.induction` ties the state to the log, and `LogOf.split` goes back to the state that an
  entry was answered from;
* a discipline of a client, which it follows whatever it is answered: `Client.Follows` says of a
  program that it makes a call only after the exchanges that the discipline asks for, and
  `Pool.Disciplined.run` that the log of every run shows it.
-/

namespace Clients

section

variable {Call : Type} {Answer : Call → Type} {Draw σ ρ α β γ : Type}

/-! ### Programs -/

/-- **A client**: it is done, or makes a call and goes on with the answer. -/
inductive Client (Answer : Call → Type) (α : Type) where
  | done (value : α)
  | ask (call : Call) (next : Answer call → Client Answer α)

namespace Client

/-- Go on with the value of a client that is done. -/
def bind : Client Answer α → (α → Client Answer β) → Client Answer β
  | .done value, f => f value
  | .ask call next, f => .ask call fun answer => (next answer).bind f

instance : Monad (Client Answer) where
  pure := .done
  bind := bind

/-- Make one call. -/
def call (c : Call) : Client Answer (Answer c) := .ask c .done

@[simp] theorem pure_bind (value : α) (f : α → Client Answer β) : (pure value >>= f) = f value := rfl

theorem bind_assoc (m : Client Answer α) (f : α → Client Answer β) (g : β → Client Answer γ) :
    (m >>= f >>= g) = m >>= fun value => f value >>= g := by
  induction m with
  | done value => rfl
  | ask c next ih => exact congrArg (Client.ask c) (funext ih)

end Client

/-- A call and its answer. -/
abbrev Exchange (Answer : Call → Type) := (c : Call) × Answer c

/-- **The client makes a call only when the discipline allows it** after the exchanges it has had. -/
def Client.Follows (allows : List (Exchange Answer) → Call → Prop) :
    List (Exchange Answer) → Client Answer α → Prop
  | _, .done _ => True
  | past, .ask c next =>
    allows past c ∧ ∀ answer, (next answer).Follows allows (past ++ [⟨c, answer⟩])

/-- A sequence that begins with a call follows a discipline that allows the call, if it goes on
following it whatever the answer is. -/
theorem Client.Follows.call_bind {allows : List (Exchange Answer) → Call → Prop}
    {past : List (Exchange Answer)} {c : Call} {f : Answer c → Client Answer α}
    (hc : allows past c) (hf : ∀ answer, (f answer).Follows allows (past ++ [⟨c, answer⟩])) :
    Client.Follows allows past (Client.call c >>= f) := ⟨hc, hf⟩

/-- What a client does with its value at the end is no call. -/
theorem Client.Follows.map {allows : List (Exchange Answer) → Call → Prop} {m : Client Answer α}
    (f : α → β) : ∀ {past : List (Exchange Answer)}, m.Follows allows past →
      Client.Follows allows past (m >>= fun value => pure (f value)) := by
  induction m with
  | done value => exact fun _ => trivial
  | ask c next ih => exact fun h => ⟨h.1, fun answer => ih answer (h.2 answer)⟩

/-- A sequence follows what it asks of every call alone, if both of its parts do. -/
theorem Client.Follows.bind {P : Call → Prop} {f : α → Client Answer β} {m : Client Answer α} :
    ∀ {past : List (Exchange Answer)}, m.Follows (fun _ c => P c) past →
      (∀ past value, (f value).Follows (fun _ c => P c) past) →
      Client.Follows (fun _ c => P c) past (m >>= f) := by
  induction m with
  | done value => exact fun _ hf => hf _ value
  | ask c next ih => exact fun h hf => ⟨h.1, fun answer => ih answer (h.2 answer) hf⟩

/-! ### Logs -/

/-- **An entry of a log**: the client, its call, what the service drew for it, and the answer. -/
structure Entry (Draw : Type) (Answer : Call → Type) where
  client : ℕ
  call : Call
  draw : Draw
  answer : Answer call

/-- The exchanges of one client. -/
def exchanges (n : ℕ) (log : List (Entry Draw Answer)) : List (Exchange Answer) :=
  log.filterMap fun e => if e.client = n then some ⟨e.call, e.answer⟩ else none

theorem exchanges_append_self (log : List (Entry Draw Answer)) (e : Entry Draw Answer) :
    exchanges e.client (log ++ [e]) = exchanges e.client log ++ [⟨e.call, e.answer⟩] := by
  simp [exchanges]

theorem exchanges_append_of_ne {n : ℕ} {e : Entry Draw Answer} (h : e.client ≠ n)
    (log : List (Entry Draw Answer)) : exchanges n (log ++ [e]) = exchanges n log := by
  simp [exchanges, h]

/-- An exchange of a client is an entry of the log. -/
theorem mem_exchanges {n : ℕ} {log : List (Entry Draw Answer)} {c : Call} {answer : Answer c} :
    ⟨c, answer⟩ ∈ exchanges n log ↔ ∃ draw, ⟨n, c, draw, answer⟩ ∈ log := by
  rw [exchanges, List.mem_filterMap]
  constructor
  · rintro ⟨⟨m, c', draw, answer'⟩, hmem, he⟩
    dsimp only at he
    split_ifs at he with hm
    obtain ⟨rfl, ha⟩ := Sigma.mk.inj (Option.some.inj he)
    obtain rfl := eq_of_heq ha
    exact ⟨draw, hm ▸ hmem⟩
  · rintro ⟨draw, hmem⟩
    exact ⟨_, hmem, by simp⟩

theorem exchanges_append_of_forall_ne {n : ℕ} {after : List (Entry Draw Answer)}
    (h : ∀ e ∈ after, e.client ≠ n) (log : List (Entry Draw Answer)) :
    exchanges n (log ++ after) = exchanges n log := by
  have hnone : exchanges n after = [] :=
    List.filterMap_eq_nil_iff.mpr fun e he => if_neg (h e he)
  rw [exchanges, List.filterMap_append]
  change exchanges n log ++ exchanges n after = exchanges n log
  rw [hnone, List.append_nil]

/-- The last exchange of a client is the last of its entries. -/
theorem getLast?_exchanges {n : ℕ} {log : List (Entry Draw Answer)} {c : Call} {answer : Answer c}
    (h : (exchanges n log).getLast? = some ⟨c, answer⟩) : ∃ before draw after,
      log = before ++ ⟨n, c, draw, answer⟩ :: after ∧ ∀ e ∈ after, e.client ≠ n := by
  induction log using List.reverseRecOn with
  | nil => exact absurd h (by simp [exchanges])
  | append_singleton log e ih =>
    by_cases hn : e.client = n
    · obtain ⟨m, c', draw, answer'⟩ := e
      dsimp only at hn
      subst hn
      rw [exchanges_append_self log ⟨m, c', draw, answer'⟩, List.getLast?_concat] at h
      obtain ⟨rfl, ha⟩ := Sigma.mk.inj (Option.some.inj h)
      obtain rfl := eq_of_heq ha
      exact ⟨log, draw, [], rfl, by simp⟩
    · rw [exchanges_append_of_ne hn] at h
      obtain ⟨before, draw, after, rfl, hafter⟩ := ih h
      refine ⟨before, draw, after ++ [e], by simp, ?_⟩
      intro e' he'
      rcases List.mem_append.mp he' with he' | he'
      · exact hafter e' he'
      · rwa [List.mem_singleton.mp he']

/-- **What a service may have answered**: a log from the initial state, with the state it ends in. -/
inductive LogOf (serve : σ → (c : Call) → Draw → Answer c × σ) (s₀ : σ) :
    List (Entry Draw Answer) → σ → Prop
  | start : LogOf serve s₀ [] s₀
  | call {log : List (Entry Draw Answer)} {s : σ} (n : ℕ) (c : Call) (draw : Draw) :
    LogOf serve s₀ log s →
      LogOf serve s₀ (log ++ [⟨n, c, draw, (serve s c draw).1⟩]) (serve s c draw).2

variable {serve : σ → (c : Call) → Draw → Answer c × σ} {s₀ s : σ}
  {log : List (Entry Draw Answer)}

/-- **Where an entry comes from**: the log before it was served, and the entry was answered from the
state that it left. -/
theorem LogOf.split (h : LogOf serve s₀ log s) {before after : List (Entry Draw Answer)}
    {e : Entry Draw Answer} (hlog : log = before ++ e :: after) :
    ∃ s', LogOf serve s₀ before s' ∧ e.answer = (serve s' e.call e.draw).1 := by
  induction h generalizing after with
  | start => simp at hlog
  | @call log s n c draw h ih =>
    rcases List.eq_nil_or_concat after with rfl | ⟨after', last, rfl⟩
    · obtain ⟨rfl, hlast⟩ := List.append_inj' hlog rfl
      obtain rfl := (List.cons.inj hlast).1
      exact ⟨s, h, rfl⟩
    · rw [List.concat_eq_append, ← List.cons_append, ← List.append_assoc] at hlog
      exact ih (List.append_inj' hlog rfl).1

/-! ### Runs -/

/-- **The clients and their service**: what each client was started for, what it still has to do,
and the log so far. -/
structure Pool (σ ρ β Draw : Type) (Answer : Call → Type) where
  service : σ
  task : ℕ → Option ρ
  rest : ℕ → Option (Client Answer β)
  log : List (Entry Draw Answer)

/-- What a schedule may do. -/
inductive Act (ρ Draw : Type) where
  /-- A client is started, if its number is new. -/
  | start (n : ℕ) (task : ρ)
  /-- The next call of a client is served, if it has one. -/
  | serve (n : ℕ) (draw : Draw)
  /-- A client makes no further call. -/
  | stop (n : ℕ)

namespace Pool

variable (serve) (program : ρ → Client Answer β)

/-- Before any client was started. -/
def initial (s₀ : σ) : Pool σ ρ β Draw Answer where
  service := s₀
  task := fun _ => none
  rest := fun _ => none
  log := []

/-- One act of the schedule. -/
def act (p : Pool σ ρ β Draw Answer) : Act ρ Draw → Pool σ ρ β Draw Answer
  | .start n task =>
    match p.task n with
    | some _ => p
    | none =>
      { p with
        task := Function.update p.task n (some task)
        rest := Function.update p.rest n (some (program task)) }
  | .serve n draw =>
    match p.rest n with
    | some (.ask c next) =>
      let (answer, s) := serve p.service c draw
      { p with
        service := s
        rest := Function.update p.rest n (some (next answer))
        log := p.log ++ [⟨n, c, draw, answer⟩] }
    | _ => p
  | .stop n => { p with rest := Function.update p.rest n none }

/-- **A run** of any schedule. -/
def run (s₀ : σ) (acts : List (Act ρ Draw)) : Pool σ ρ β Draw Answer :=
  acts.foldl (act serve program) (initial s₀)

variable {serve program}

/-- What every act keeps holds after every run. -/
theorem run_induction {I : Pool σ ρ β Draw Answer → Prop} (h₀ : I (initial s₀))
    (hact : ∀ p a, I p → I (p.act serve program a)) (acts : List (Act ρ Draw)) :
    I (run serve program s₀ acts) := by
  rw [run]
  induction acts using List.reverseRecOn with
  | nil => exact h₀
  | append_singleton acts a ih =>
    rw [List.foldl_append]
    exact hact _ _ ih

/-- **The log of a run was served.** -/
theorem logOf_run (acts : List (Act ρ Draw)) :
    LogOf serve s₀ (run serve program s₀ acts).log (run serve program s₀ acts).service := by
  refine run_induction (I := fun p => LogOf serve s₀ p.log p.service) .start ?_ acts
  intro p a h
  cases a with
  | start n task =>
    simp only [act]
    split
    · exact h
    · exact h
  | serve n draw =>
    simp only [act]
    split
    · exact h.call n _ draw
    · exact h
  | stop n => exact h

/-- **Every client has kept to its discipline so far**, and what it still has to do keeps to it. -/
structure Disciplined (allows : ρ → List (Exchange Answer) → Call → Prop)
    (p : Pool σ ρ β Draw Answer) : Prop where
  rest : ∀ n m, p.rest n = some m → ∃ task, p.task n = some task ∧
    m.Follows (allows task) (exchanges n p.log)
  log : ∀ before e after, p.log = before ++ e :: after → ∃ task, p.task e.client = some task ∧
    allows task (exchanges e.client before) e.call

variable {allows : ρ → List (Exchange Answer) → Call → Prop} {p : Pool σ ρ β Draw Answer}

/-- A client that was not started has made no call. -/
theorem Disciplined.exchanges_eq_nil (h : p.Disciplined allows) {n : ℕ} (hn : p.task n = none) :
    exchanges n p.log = [] := by
  rw [List.eq_nil_iff_forall_not_mem]
  rintro ⟨c, answer⟩ hmem
  obtain ⟨draw, hmem⟩ := mem_exchanges.mp hmem
  obtain ⟨before, after, hlog⟩ := List.append_of_mem hmem
  obtain ⟨task, htask, -⟩ := h.log before _ after hlog
  rw [hn] at htask
  exact absurd htask (by simp)

theorem Disciplined.act (h : p.Disciplined allows)
    (hprogram : ∀ task, (program task).Follows (allows task) []) (a : Act ρ Draw) :
    (p.act serve program a).Disciplined allows := by
  cases a with
  | start n task =>
    simp only [Pool.act]
    split
    · exact h
    · rename_i hn
      have hkeep : ∀ k r, p.task k = some r →
          Function.update p.task n (some task) k = some r := by
        intro k r hk
        have hne : k ≠ n := by
          rintro rfl
          rw [hn] at hk
          exact absurd hk (by simp)
        rwa [Function.update_of_ne hne]
      refine ⟨fun k m hm => ?_, fun before e after hlog => ?_⟩
      · dsimp only at hm ⊢
        by_cases hk : k = n
        · subst hk
          rw [Function.update_self] at hm
          obtain rfl := Option.some.inj hm
          refine ⟨task, Function.update_self .., ?_⟩
          rw [h.exchanges_eq_nil hn]
          exact hprogram task
        · rw [Function.update_of_ne hk] at hm
          obtain ⟨r, hr, hf⟩ := h.rest k m hm
          exact ⟨r, hkeep k r hr, hf⟩
      · obtain ⟨r, hr, ha⟩ := h.log before e after hlog
        exact ⟨r, hkeep _ r hr, ha⟩
  | serve n draw =>
    simp only [Pool.act]
    split
    · rename_i c next hn
      obtain ⟨r, hr, hallows, hnext⟩ := h.rest n _ hn
      refine ⟨fun k m hm => ?_, fun before e after hlog => ?_⟩
      · dsimp only at hm ⊢
        by_cases hk : k = n
        · subst hk
          rw [Function.update_self] at hm
          obtain rfl := Option.some.inj hm
          refine ⟨r, hr, ?_⟩
          rw [exchanges_append_self p.log ⟨k, c, draw, _⟩]
          exact hnext _
        · rw [Function.update_of_ne hk] at hm
          obtain ⟨r', hr', hf⟩ := h.rest k m hm
          refine ⟨r', hr', ?_⟩
          rwa [exchanges_append_of_ne (Ne.symm hk)]
      · rcases List.eq_nil_or_concat after with rfl | ⟨after', last, rfl⟩
        · obtain ⟨rfl, hlast⟩ := List.append_inj' hlog rfl
          obtain rfl := (List.cons.inj hlast).1
          exact ⟨r, hr, hallows⟩
        · rw [List.concat_eq_append, ← List.cons_append, ← List.append_assoc] at hlog
          exact h.log before e after' (List.append_inj' hlog rfl).1
    · exact h
  | stop n =>
    refine ⟨fun k m hm => ?_, h.log⟩
    simp only [Pool.act] at hm
    by_cases hk : k = n
    · subst hk
      rw [Function.update_self] at hm
      exact absurd hm (by simp)
    · rw [Function.update_of_ne hk] at hm
      exact h.rest k m hm

/-- **Clients whose programs follow their discipline leave logs that follow it.** -/
theorem Disciplined.run (hprogram : ∀ task, (program task).Follows (allows task) [])
    (acts : List (Act ρ Draw)) : (run serve program s₀ acts).Disciplined allows := by
  refine run_induction ⟨?_, ?_⟩ (fun p a h => h.act hprogram a) acts
  · intro n m hm
    exact absurd hm (by simp [initial])
  · intro before e after hlog
    exact absurd hlog (by simp [initial])

end Pool

end

end Clients
