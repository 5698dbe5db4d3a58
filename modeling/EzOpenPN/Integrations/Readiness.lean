import EzOpenPN.Integrations.Runtime
import EzOpenPN.Lib.Loop

/-!
# Waiting for Xray to answer

`GrpcXrayClient.wait_ready` asks the handler service for the number of its users until it
answers, and gives up at a deadline. Between two questions it sleeps, a little longer every
time. How long a question takes, how it ends and how much longer than asked a sleep lasts is
decided elsewhere: an `EzOpenPN.ReadyEnv` holds all of it, bounded only by what gRPC and the
operating system promise.

Whoever waits holds the lock of the coordinator, so the wait has to end. It does
(`EzOpenPN.waitReady_ends`): every pass that comes round has slept for a twentieth of a second
or up to the deadline, and the remaining time counted in twentieths is the measure.
-/

namespace EzOpenPN

/-! ### The constants -/

/-- `_LIST_TIMEOUT_SECONDS`. -/
def listTimeoutSeconds : ℚ := 2

/-- `_INITIAL_READY_DELAY_SECONDS`. -/
def initialReadyDelaySeconds : ℚ := 1 / 20

/-- `_MAX_READY_DELAY_SECONDS`. -/
def maxReadyDelaySeconds : ℚ := 1 / 4

/-! ### What the wait cannot decide -/

/-- **The surroundings of a wait**: the monotonic clock when it starts, and for the `n`-th
question and the `n`-th sleep what becomes of them. -/
structure ReadyEnv where
  /-- The clock at the call. -/
  start : ℚ
  /-- The status code a question fails with under a timeout, if it fails. -/
  failure : ℕ → ℚ → Option StatusCode
  /-- How long a question takes under a timeout. -/
  took : ℕ → ℚ → ℚ
  took_nonneg : ∀ n d, 0 ≤ took n d
  /-- No question outlasts its timeout. -/
  took_le : ∀ n d, 0 < d → took n d ≤ d
  /-- How far the clock advances over a sleep. -/
  slept : ℕ → ℚ → ℚ
  /-- No sleep is shorter than asked for. -/
  le_slept : ∀ n d, d ≤ slept n d

/-- A question that was asked. -/
structure Probe where
  begun : ℚ
  timeout : ℚ
  failure : Option StatusCode
  deriving DecidableEq

/-- A sleep that was asked for. -/
structure Pause where
  begun : ℚ
  requested : ℚ
  deriving DecidableEq

/-- The question failed with one of `_UNAVAILABLE_CODES`. -/
def Probe.Unavailable (p : Probe) : Prop := ∃ code ∈ unavailableCodes, p.failure = some code

/-- The question failed with any other code. -/
def Probe.Rejected (p : Probe) : Prop := ∃ code, code ∉ unavailableCodes ∧ p.failure = some code

/-! ### The loop -/

/-- The state of a wait: the clock, the delay of the next sleep, and what was asked so far,
latest first. -/
structure Polling where
  now : ℚ
  delay : ℚ
  probes : List Probe
  pauses : List Pause
  deriving DecidableEq

/-- `RuntimeUnavailable("Xray runtime unavailable")`. -/
def runtimeUnavailable : PyError := ⟨.runtimeUnavailable, "Xray runtime unavailable"⟩

/-- One question, under a timeout cut to the remaining time. -/
def Polling.ask (s : Polling) (env : ReadyEnv) (remaining : ℚ) : Polling :=
  let timeout := min listTimeoutSeconds remaining
  { s with
    now := s.now + env.took s.probes.length timeout
    probes := ⟨s.now, timeout, env.failure s.probes.length timeout⟩ :: s.probes }

/-- One sleep, cut to the remaining time, and the delay of the next one. -/
def Polling.sleep (s : Polling) (env : ReadyEnv) (remaining : ℚ) : Polling :=
  let pause := min (min s.delay maxReadyDelaySeconds) remaining
  { s with
    now := s.now + env.slept s.pauses.length pause
    delay := min (s.delay * 2) maxReadyDelaySeconds
    pauses := ⟨s.now, pause⟩ :: s.pauses }

/-- The body of the loop of `wait_ready`: it is left with a result, or comes round again. -/
def pollBody (env : ReadyEnv) (deadline : ℚ) (s : Polling) :
    (Except PyError Unit × Polling) ⊕ Polling :=
  let remaining := deadline - s.now
  if remaining ≤ 0 then .inl (.error runtimeUnavailable, s)
  else
    let t := s.ask env remaining
    match env.failure s.probes.length (min listTimeoutSeconds remaining) with
    | none => .inl (.ok (), t)
    | some code =>
      if code ∉ unavailableCodes then .inl (.error (rpcError code), t)
      else
        let remaining := deadline - t.now
        if remaining ≤ 0 then .inl (.error runtimeUnavailable, t)
        else .inr (t.sleep env remaining)

/-- The state of a wait before its first question. -/
def ReadyEnv.begin (env : ReadyEnv) : Polling := ⟨env.start, initialReadyDelaySeconds, [], []⟩

/-- `GrpcXrayClient.wait_ready`, cut off after `fuel` passes. -/
def pollReady (env : ReadyEnv) (timeoutSeconds : ℚ) (fuel : ℕ) :
    Option (Except PyError Unit × Polling) :=
  if timeoutSeconds ≤ 0 then
    some (.error ⟨.valueError, "readiness timeout must be positive"⟩, env.begin)
  else Loop.run (pollBody env (env.start + timeoutSeconds)) fuel env.begin

/-! ### One pass -/

section Pass

variable {env : ReadyEnv} {deadline : ℚ} {s : Polling}

/-- The question a state asks next. -/
def Polling.question (s : Polling) (env : ReadyEnv) (deadline : ℚ) : Probe :=
  let timeout := min listTimeoutSeconds (deadline - s.now)
  ⟨s.now, timeout, env.failure s.probes.length timeout⟩

@[simp] theorem ask_probes : (s.ask env (deadline - s.now)).probes =
    s.question env deadline :: s.probes := rfl

@[simp] theorem ask_pauses (d : ℚ) : (s.ask env d).pauses = s.pauses := rfl

@[simp] theorem sleep_probes (d : ℚ) : (s.sleep env d).probes = s.probes := rfl

@[simp] theorem sleep_pauses (d : ℚ) : (s.sleep env d).pauses =
    ⟨s.now, min (min s.delay maxReadyDelaySeconds) d⟩ :: s.pauses := rfl

/-- **What a pass can do**: find the deadline passed, return, be rejected, find the deadline
passed after a question, or sleep and come round. -/
theorem pollBody_cases (env : ReadyEnv) (deadline : ℚ) (s : Polling) :
    (deadline ≤ s.now ∧ pollBody env deadline s = .inl (.error runtimeUnavailable, s)) ∨
    s.now < deadline ∧
      (((s.question env deadline).failure = none ∧
        pollBody env deadline s = .inl (.ok (), s.ask env (deadline - s.now))) ∨
      (∃ code, code ∉ unavailableCodes ∧ (s.question env deadline).failure = some code ∧
        pollBody env deadline s =
          .inl (.error (rpcError code), s.ask env (deadline - s.now))) ∨
      (s.question env deadline).Unavailable ∧
        ((deadline ≤ (s.ask env (deadline - s.now)).now ∧ pollBody env deadline s =
          .inl (.error runtimeUnavailable, s.ask env (deadline - s.now))) ∨
        ((s.ask env (deadline - s.now)).now < deadline ∧ pollBody env deadline s =
          .inr ((s.ask env (deadline - s.now)).sleep env
            (deadline - (s.ask env (deadline - s.now)).now))))) := by
  rcases le_or_gt deadline s.now with hlate | hearly
  · exact Or.inl ⟨hlate, by rw [pollBody, if_pos (by linarith)]⟩
  refine Or.inr ⟨hearly, ?_⟩
  have hpos : ¬deadline - s.now ≤ 0 := by linarith
  cases hf : (s.question env deadline).failure with
  | none =>
    refine Or.inl ⟨rfl, ?_⟩
    simp only [Polling.question] at hf
    rw [pollBody, if_neg hpos, hf]
  | some code =>
    refine Or.inr ?_
    have hf' := hf
    simp only [Polling.question] at hf'
    by_cases hcode : code ∈ unavailableCodes
    · refine Or.inr ⟨⟨code, hcode, hf⟩, ?_⟩
      rcases le_or_gt deadline (s.ask env (deadline - s.now)).now with hlate | hstill
      · refine Or.inl ⟨hlate, ?_⟩
        rw [pollBody, if_neg hpos, hf']
        simp only [hcode, not_true_eq_false, if_false]
        rw [if_pos (by linarith)]
      · refine Or.inr ⟨hstill, ?_⟩
        rw [pollBody, if_neg hpos, hf']
        simp only [hcode, not_true_eq_false, if_false]
        rw [if_neg (by linarith)]
    · refine Or.inl ⟨code, hcode, rfl, ?_⟩
      rw [pollBody, if_neg hpos, hf']
      simp only [hcode, not_false_eq_true, if_true]

end Pass

/-! ### A whole wait -/

/-- `RuntimeRejected("Xray runtime rejected operation")`. -/
def runtimeRejected : PyError := ⟨.runtimeRejected, "Xray runtime rejected operation"⟩

theorem rpcError_of_notMem {code : StatusCode} (h : code ∉ unavailableCodes) :
    rpcError code = runtimeRejected := if_neg h

/-- The remaining time in twentieths of a second, rounded up. -/
def twentieths (deadline now : ℚ) : ℕ := ⌈20 * (deadline - now)⌉₊

/-- **What has been asked is in time**: no question was given more than two seconds or than the
time that remained, and no sleep was asked for beyond the deadline. -/
structure InTime (deadline : ℚ) (s : Polling) : Prop where
  timeouts : ∀ p ∈ s.probes, p.timeout ≤ min 2 (deadline - p.begun)
  pauses : ∀ z ∈ s.pauses, z.begun + z.requested ≤ deadline

/-- The invariant of the loop: every question so far was unavailable, and the questions asked
are paid for out of the remaining time. -/
structure Waiting (deadline : ℚ) (budget : ℕ) (s : Polling) : Prop extends InTime deadline s where
  delay : initialReadyDelaySeconds ≤ s.delay
  unavailable : ∀ p ∈ s.probes, p.Unavailable
  paid : s.probes.length + twentieths deadline s.now ≤ budget

/-- **How a wait may end**: with a successful question begun before the deadline, with a
rejected one, or with the deadline passed and every question unavailable. -/
structure WaitEnds (deadline : ℚ) (budget : ℕ) (r : Except PyError Unit × Polling) : Prop extends
    InTime deadline r.2 where
  ending : r.1 = .ok () ∨ r.1 = .error runtimeRejected ∨ r.1 = .error runtimeUnavailable
  ready : r.1 = .ok () → ∃ p, r.2.probes.head? = some p ∧ p.failure = none ∧ p.begun < deadline
  rejected : r.1 = .error runtimeRejected ↔ ∃ p ∈ r.2.probes, p.Rejected
  unavailable : r.1 = .error runtimeUnavailable →
    deadline ≤ r.2.now ∧ ∀ p ∈ r.2.probes, p.Unavailable
  punctual : r.1 ≠ .error runtimeUnavailable → r.2.now ≤ deadline
  bounded : r.2.probes.length ≤ budget

theorem Probe.Unavailable.not_rejected {p : Probe} (h : p.Unavailable) : ¬p.Rejected := by
  rintro ⟨code, hcode, hp⟩
  obtain ⟨code', hcode', hp'⟩ := h
  obtain rfl : code' = code := Option.some.inj (hp'.symm.trans hp)
  exact hcode hcode'

section Wait

variable {env : ReadyEnv} {deadline : ℚ} {budget : ℕ} {s : Polling}

/-- Before the deadline there is a twentieth left to pay with. -/
theorem twentieths_pos {now : ℚ} (h : now < deadline) : 0 < twentieths deadline now :=
  Nat.ceil_pos.mpr (by linarith)

/-- A twentieth of a second, or everything that is left, lowers the measure. -/
theorem twentieths_lt {now later : ℚ} (h : now < deadline)
    (hlater : now + 1 / 20 ≤ later ∨ deadline ≤ later) :
    twentieths deadline later < twentieths deadline now := by
  have hpos := twentieths_pos h
  rcases hlater with hlater | hlater
  · have hle : 20 * (deadline - later) ≤ (twentieths deadline now - 1 : ℕ) := by
      have hceil := Nat.le_ceil (20 * (deadline - now))
      rw [← twentieths] at hceil
      rw [Nat.cast_sub hpos, Nat.cast_one]
      linarith
    have := Nat.ceil_le.mpr hle
    rw [twentieths]
    omega
  · have hzero : twentieths deadline later = 0 := Nat.ceil_eq_zero.mpr (by linarith)
    omega

/-- The next question of a state is in time. -/
theorem InTime.ask (env : ReadyEnv) (h : InTime deadline s) :
    InTime deadline (s.ask env (deadline - s.now)) where
  timeouts p hp := by
    rcases List.mem_cons.mp hp with rfl | hp
    · exact le_rfl
    · exact h.timeouts p hp
  pauses := h.pauses

/-- A question takes time forward. -/
theorem le_now_ask : s.now ≤ (s.ask env (deadline - s.now)).now := by
  have := env.took_nonneg s.probes.length (min listTimeoutSeconds (deadline - s.now))
  rw [Polling.ask]
  simpa using this

/-- A question asked before the deadline ends by the deadline. -/
theorem now_ask_le (hnow : s.now < deadline) : (s.ask env (deadline - s.now)).now ≤ deadline := by
  have hpos : 0 < min listTimeoutSeconds (deadline - s.now) :=
    lt_min (by rw [listTimeoutSeconds]; norm_num) (by linarith)
  have htook := env.took_le s.probes.length _ hpos
  have hcut := min_le_right listTimeoutSeconds (deadline - s.now)
  rw [Polling.ask]
  simp only
  linarith

/-- **A pass that comes round keeps the invariant and lowers the remaining time.** -/
theorem Waiting.again (h : Waiting deadline budget s) (hnow : s.now < deadline)
    (hp : (s.question env deadline).Unavailable) {u : Polling}
    (hu : u = (s.ask env (deadline - s.now)).sleep env
      (deadline - (s.ask env (deadline - s.now)).now)) :
    Waiting deadline budget u ∧ twentieths deadline u.now < twentieths deadline s.now := by
  obtain ⟨t, ht⟩ : ∃ t, t = s.ask env (deadline - s.now) := ⟨_, rfl⟩
  have hask := h.toInTime.ask env
  have hforward : s.now ≤ t.now := ht ▸ le_now_ask
  have hdelay : initialReadyDelaySeconds ≤ t.delay := by rw [ht]; exact h.delay
  rw [← ht] at hu hask
  have hslept := env.le_slept t.pauses.length
    (min (min t.delay maxReadyDelaySeconds) (deadline - t.now))
  have hinit : initialReadyDelaySeconds = 1 / 20 := rfl
  have hmax : maxReadyDelaySeconds = 1 / 4 := rfl
  have hlater : s.now + 1 / 20 ≤ u.now ∨ deadline ≤ u.now := by
    have hunow : u.now = t.now + env.slept t.pauses.length
      (min (min t.delay maxReadyDelaySeconds) (deadline - t.now)) := by rw [hu, Polling.sleep]
    rcases le_total (min t.delay maxReadyDelaySeconds) (deadline - t.now) with hle | hle
    · rw [min_eq_left hle] at hslept hunow
      have : (1 : ℚ) / 20 ≤ min t.delay maxReadyDelaySeconds :=
        le_min (hinit ▸ hdelay) (by rw [hmax]; norm_num)
      exact Or.inl (by linarith)
    · rw [min_eq_right hle] at hslept hunow
      exact Or.inr (by linarith)
  have hlt := twentieths_lt hnow hlater
  refine ⟨⟨⟨?_, ?_⟩, ?_, ?_, ?_⟩, hlt⟩
  · rw [hu, sleep_probes]
    exact hask.timeouts
  · rw [hu, sleep_pauses]
    rintro z hz
    rcases List.mem_cons.mp hz with rfl | hz
    · have := min_le_right (min t.delay maxReadyDelaySeconds) (deadline - t.now)
      simp only
      linarith
    · exact hask.pauses z hz
  · have hudelay : u.delay = min (t.delay * 2) maxReadyDelaySeconds := by rw [hu, Polling.sleep]
    rw [hudelay]
    exact le_min (by rw [hinit] at hdelay ⊢; linarith) (by rw [hinit, hmax]; norm_num)
  · rw [hu, sleep_probes, ht, ask_probes]
    intro p hp'
    rcases List.mem_cons.mp hp' with rfl | hp'
    · exact hp
    · exact h.unavailable p hp'
  · have hpaid := h.paid
    rw [hu, sleep_probes, ht, ask_probes, List.length_cons, ← ht, ← hu]
    omega

/-- A question is paid for before it is asked. -/
theorem Waiting.bounded (h : Waiting deadline budget s) (hnow : s.now < deadline) :
    (s.ask env (deadline - s.now)).probes.length ≤ budget := by
  have := h.paid
  have := twentieths_pos hnow
  rw [ask_probes, List.length_cons]
  omega

/-- The questions of a wait that ends on one more, none of them rejected. -/
theorem Waiting.not_rejected (h : Waiting deadline budget s)
    (hp : ¬(s.question env deadline).Rejected) :
    ¬∃ p ∈ (s.ask env (deadline - s.now)).probes, p.Rejected := by
  rintro ⟨p, hmem, hrejected⟩
  rcases List.mem_cons.mp hmem with rfl | hmem
  · exact hp hrejected
  · exact (h.unavailable p hmem).not_rejected hrejected

/-- **Every way out of the loop is one of the endings.** -/
theorem Waiting.ends (h : Waiting deadline budget s) {r : Except PyError Unit × Polling}
    (hr : pollBody env deadline s = .inl r) : WaitEnds deadline budget r := by
  have hdistinct : runtimeRejected ≠ runtimeUnavailable := by decide
  rcases pollBody_cases env deadline s with ⟨hlate, hbody⟩ | ⟨hnow, ⟨hf, hbody⟩ |
    ⟨code, hcode, hf, hbody⟩ | ⟨hp, ⟨hlate, hbody⟩ | ⟨-, hbody⟩⟩⟩ <;> rw [hbody] at hr
  · -- the deadline had passed
    obtain rfl := Sum.inl.inj hr
    have hpaid : s.probes.length ≤ budget := Nat.le_of_add_right_le h.paid
    exact {
      toInTime := h.toInTime
      ending := Or.inr (Or.inr rfl)
      ready := fun h => absurd h (by simp)
      rejected := ⟨fun he => absurd (Except.error.inj he).symm hdistinct,
        fun ⟨p, hp, hr⟩ => absurd hr (h.unavailable p hp).not_rejected⟩
      unavailable := fun _ => ⟨hlate, h.unavailable⟩
      punctual := fun hne => absurd rfl hne
      bounded := hpaid }
  · -- the question succeeded
    obtain rfl := Sum.inl.inj hr
    have hnot : ¬(s.question env deadline).Rejected := by
      rintro ⟨code, -, hcode⟩
      rw [hf] at hcode
      exact absurd hcode (by simp)
    exact {
      toInTime := h.toInTime.ask env
      ending := Or.inl rfl
      ready := fun _ => ⟨s.question env deadline, rfl, hf, hnow⟩
      rejected := ⟨fun he => absurd he (by simp), fun hex => absurd hex (h.not_rejected hnot)⟩
      unavailable := fun he => absurd he (by simp)
      punctual := fun _ => now_ask_le hnow
      bounded := h.bounded hnow }
  · -- the question was rejected
    obtain rfl := Sum.inl.inj hr
    rw [rpcError_of_notMem hcode]
    exact {
      toInTime := h.toInTime.ask env
      ending := Or.inr (Or.inl rfl)
      ready := fun he => absurd he (by simp)
      rejected := ⟨fun _ => ⟨_, List.mem_cons_self, code, hcode, hf⟩, fun _ => rfl⟩
      unavailable := fun he => absurd (Except.error.inj he) hdistinct
      punctual := fun _ => now_ask_le hnow
      bounded := h.bounded hnow }
  · -- the deadline passed during the question
    obtain rfl := Sum.inl.inj hr
    exact {
      toInTime := h.toInTime.ask env
      ending := Or.inr (Or.inr rfl)
      ready := fun he => absurd he (by simp)
      rejected := ⟨fun he => absurd (Except.error.inj he).symm hdistinct,
        fun hex => absurd hex (h.not_rejected hp.not_rejected)⟩
      unavailable := fun _ => ⟨hlate, fun p hmem => by
        rcases List.mem_cons.mp hmem with rfl | hmem
        · exact hp
        · exact h.unavailable p hmem⟩
      punctual := fun hne => absurd rfl hne
      bounded := h.bounded hnow }
  · exact absurd hr (by simp)

/-- A wait starts with no question asked and all of its time. -/
theorem Waiting.begin (env : ReadyEnv) (timeoutSeconds : ℚ) :
    Waiting (env.start + timeoutSeconds) ⌈20 * timeoutSeconds⌉₊ env.begin where
  timeouts p hp := absurd hp List.not_mem_nil
  pauses z hz := absurd hz List.not_mem_nil
  delay := le_rfl
  unavailable p hp := absurd hp List.not_mem_nil
  paid := by
    rw [twentieths, ReadyEnv.begin, List.length_nil, Nat.zero_add, add_sub_cancel_left]

end Wait

/-- **A wait ends, and in time.** Whatever the questions end with and however long they and the
sleeps take, `wait_ready` with a positive timeout ends after at most `⌈20 * timeout⌉` questions,
in one of the three ways of `WaitEnds`. -/
theorem waitReady_ends (env : ReadyEnv) {timeoutSeconds : ℚ} (h : 0 < timeoutSeconds) :
    ∃ r, (∀ fuel, ⌈20 * timeoutSeconds⌉₊ < fuel → pollReady env timeoutSeconds fuel = some r) ∧
      WaitEnds (env.start + timeoutSeconds) ⌈20 * timeoutSeconds⌉₊ r := by
  have hbegin := Waiting.begin env timeoutSeconds
  have hagain : ∀ s u, Waiting (env.start + timeoutSeconds) ⌈20 * timeoutSeconds⌉₊ s →
      pollBody env (env.start + timeoutSeconds) s = .inr u →
      Waiting (env.start + timeoutSeconds) ⌈20 * timeoutSeconds⌉₊ u ∧
        twentieths (env.start + timeoutSeconds) u.now <
          twentieths (env.start + timeoutSeconds) s.now := by
    intro s u hs hu
    rcases pollBody_cases env (env.start + timeoutSeconds) s with ⟨-, hbody⟩ | ⟨hnow, ⟨-, hbody⟩ |
      ⟨_, -, -, hbody⟩ | ⟨hp, ⟨-, hbody⟩ | ⟨-, hbody⟩⟩⟩ <;> rw [hbody] at hu
    · exact absurd hu (by simp)
    · exact absurd hu (by simp)
    · exact absurd hu (by simp)
    · exact absurd hu (by simp)
    · exact hs.again hnow hp (Sum.inr.inj hu).symm
  obtain ⟨r, hr, hends⟩ := Loop.run_total (fun s r hs hr => hs.ends hr) hagain hbegin
  refine ⟨r, fun fuel hfuel => ?_, hends⟩
  have hpaid := hbegin.paid
  rw [pollReady, if_neg (by linarith)]
  exact Loop.run_mono (by omega) hr

/-- Two unavailable answers at once and then an answer, with sleeps as long as asked for. -/
def twoFailures : ReadyEnv where
  start := 0
  failure n _ := if n < 2 then some .unavailable else none
  took _ _ := 0
  took_nonneg _ _ := le_rfl
  took_le _ _ h := h.le
  slept _ d := d
  le_slept _ _ := le_rfl

/-- After two failures a wait of one second is over at its third question. -/
theorem waitReady_ends_twoFailures :
    (∃ r, (∀ fuel, ⌈20 * (1 : ℚ)⌉₊ < fuel → pollReady twoFailures 1 fuel = some r) ∧
      WaitEnds (twoFailures.start + 1) ⌈20 * (1 : ℚ)⌉₊ r) ∧
    (pollReady twoFailures 1 3).map (fun r => r.2.pauses) =
      some [⟨1 / 20, 1 / 10⟩, ⟨0, 1 / 20⟩] :=
  ⟨waitReady_ends twoFailures one_pos, by decide +kernel⟩

end EzOpenPN
